import HttpServer.Handler.Basic
import HttpServer.Parser.Theorems.Completeness
import HttpServer.Parser.Theorems.Continue

open Text Http.Grammar

namespace Http

-- The requests agree in everything but the byte counters.
def Request.SameContent (r r' : Request) : Prop :=
  r' = { r with headerBytes := r'.headerBytes, totalBytes := r'.totalBytes }

instance (r r' : Request) : Decidable (r.SameContent r') :=
  inferInstanceAs (Decidable (_ = _))

-- The request that a parser reports for a message, however the message arrives.
def Parser.Emits (lim : ParserLimits) (m : Message) (r : Request) : Prop :=
  ∃ i es k c p b x, Dialogue lim i es k c p b ∧ x ∈ es ∧ x.bytes = m.encode ∧ x.request = r

variable {lim : ParserLimits} {m m' : Message} {r r' : Request} {cs : List Chunk} {s : ChunkLine}
variable {ts ts' : List FieldLine} {hz : s.size = 0}

theorem Parser.Emits.eq (h : Emits lim m r) :
    ∃ e : Bool, r = { m.request with expect100Continue := e } ∧
      (e = true ↔ ContinueDue m.line.version m.fields) := by
  obtain ⟨i, es, k, c, p, b, x, hd, hx, hm, hr⟩ := h
  have ⟨m₀, he, hq, _, _, hc⟩ := hd.continued.emitted x hx
  have hi : m₀.encode ++ [] = m.encode ++ [] := by rw [he, hm]
  have ⟨hm, _⟩ := Message.encode_inj hi
  subst hm hr
  exact ⟨_, hq, hc⟩

-- Nothing is decided by the counters.
theorem handleRequest_counters (r : Request) (cfg : Config) (n k : Nat) :
    handleRequest { r with headerBytes := n, totalBytes := k } cfg = handleRequest r cfg :=
  rfl

-- The trailers are header fields to everyone who looks at the request: two trailer sections make no
-- difference only if they hold the same fields.
theorem trailers_ignored (hl : m.line = m'.line) (hf : m.fields = m'.fields)
    (hb : m.body = .chunked cs s hz ts) (hb' : m'.body = .chunked cs s hz ts')
    (hr : Parser.Emits lim m r) (hr' : Parser.Emits lim m' r') :
    (r.SameContent r' ∧ ∀ cfg, handleRequest r cfg = handleRequest r' cfg) ↔
      ts.map (·.header) = ts'.map (·.header) := by
  have ⟨e, he, hd⟩ := hr.eq
  have ⟨e', he', hd'⟩ := hr'.eq
  have hee : e = e' := by
    rw [← hl, ← hf, ← hd] at hd'
    exact (Bool.eq_iff_iff.mpr hd').symm
  constructor
  case mp =>
    intro ⟨hs, _⟩
    have hh : r'.headers = r.headers := by rw [hs]
    rw [he, he'] at hh
    simpa [Message.request, hb, hb', hf, BodyPart.trailers] using hh.symm
  case mpr =>
    intro ht
    have hs : r.SameContent r' := by
      subst he he' hee
      simp [Request.SameContent, Message.request, hl, hf, hb, hb', BodyPart.data,
        BodyPart.trailers, ht]
    refine ⟨hs, fun cfg => ?_⟩
    rw [hs]
    exact (handleRequest_counters r cfg ..).symm

theorem Parser.Emits.of_parse (h : parse lim {} m.encode = (.request r, {}, [])) : Emits lim m r :=
  have hd : Dialogue lim m.encode _ 0 [] {} [] := .reports (.receive m.encode .fresh) h
  ⟨_, _, _, _, _, _, _, hd, List.mem_append_right _ (.head _), by simp, rfl⟩

def signed (text : Bytes) (h : validHeaderValue (trimOws text)) : Message where
  line    := Parser.rootLine
  fields  := [⟨ascii "Transfer-Encoding", ascii "chunked", by decide, by decide⟩]
  body    := .chunked []
    ⟨ascii "00", some (ascii "z"), by decide, by decide, List.all_eq_true.mp (by decide),
      fun _ he => by cases he; decide⟩ (by decide)
    [⟨ascii "Signature", text, by decide, h⟩]
  framed  := ⟨rfl, by decide, ascii "chunked", by decide, by decide⟩
  options := by unfold OptionsOk; decide

theorem trailers_ignored_spaced :
    (signed (ascii "x") (by decide)).request.SameContent
      (signed (ascii " x\t") (by decide)).request ∧
    (signed (ascii "x") (by decide)).encode ≠ (signed (ascii " x\t") (by decide)).encode := by
  have h₁ : Parser.parse {} {} (signed (ascii "x") (by decide)).encode =
    (.request (signed (ascii "x") (by decide)).request, {}, []) := by decide +kernel
  have h₂ : Parser.parse {} {} (signed (ascii " x\t") (by decide)).encode =
    (.request (signed (ascii " x\t") (by decide)).request, {}, []) := by decide +kernel
  have hs := trailers_ignored (by rfl) (by rfl) (by rfl) (by rfl) (.of_parse h₁) (.of_parse h₂)
  exact ⟨(hs.mpr (by decide)).1, by decide⟩

def echoHead : Bytes :=
  ascii "POST /echo HTTP/1.1\r\nTransfer-Encoding: chunked\r\n\r\n1\r\na\r\n0\r\n"

def echoRequest (trailers : List Header) (n : Nat) : Request where
  method      := .post
  methodName  := ascii "POST"
  target      := ascii "/echo"
  headers     := ⟨ascii "Transfer-Encoding", ascii "chunked"⟩ :: trailers
  body        := ascii "a"
  headerBytes := 30 + n
  totalBytes  := 62 + n

-- A trailer decides about the type of the response.
theorem trailers_reflected :
    Parser.parse {} {} (echoHead ++ crlf) = (.request (echoRequest [] 0), {}, []) ∧
    Parser.parse {} {} (echoHead ++ ascii "Content-Type: text/html\r\n" ++ crlf) =
      (.request (echoRequest [⟨ascii "Content-Type", ascii "text/html"⟩] 25), {}, []) ∧
    ¬(echoRequest [] 0).SameContent
      (echoRequest [⟨ascii "Content-Type", ascii "text/html"⟩] 25) ∧
    handleRequest (echoRequest [] 0) {} ≠
      handleRequest (echoRequest [⟨ascii "Content-Type", ascii "text/html"⟩] 25) {} := by
  decide +kernel

end Http
