import HttpServer.Handler.Theorems.Wire
import HttpServer.Parser.Theorems.Soundness

open Text

namespace Http

-- A request that the parser reports for some stream, in some sequence of calls.
def Emittable (r : Request) : Prop :=
  ∃ lim s es c p b d, Parser.Session lim s es c p b ∧ (d, r) ∈ es

-- The same request with another method. Its counters are its own, since they depend on the length of
-- the name and on how the rest of the message is spelled.
def asHead (headerBytes totalBytes : Nat) (req : Request) : Request :=
  { req with
    method      := .head
    methodName  := ascii "HEAD"
    headerBytes := headerBytes
    totalBytes  := totalBytes }

-- Status line and header section, with the empty line.
def responseHead (date : Bytes) (res : Response) : Bytes :=
  wireStatus res ++ crlf ++ (wireFields date res).flatMap (wireField · ++ crlf) ++ crlf

variable {req r : Request} {cfg : Config} {date : Bytes} {n k : Nat}

theorem serializeResponse_head (date : Bytes) (res : Response) :
    serializeResponse date res = responseHead date res ++ sentBody res :=
  serializeResponse_eq date res

theorem Emittable.target (hr : Emittable r) (hm : r.method ≠ .options) : r.target ≠ ascii "*" := by
  obtain ⟨lim, s, es, c, p, b, d, hs, hd⟩ := hr
  have ⟨m, _, hr⟩ := hs.invariant.2.2.2 _ hd
  intro ht
  have h₁ : r.target = m.line.target := congrArg (·.target) hr
  have h₂ : r.method = methodFrom m.line.method := congrArg (·.method) hr
  match m.line.form with
  | .inl ⟨_, ho⟩ => exact hm (h₂.trans (methodFrom_options.mpr ho))
  | .inr hf => exact absurd (ht ▸ h₁ ▸ hf.slash) (by decide)

theorem Emittable.of_parse {lim : ParserLimits} {s : Bytes}
    (h : Parser.parse lim {} s = (.request r, {}, [])) : Emittable r :=
  ⟨lim, _, _, _, _, _, _, .reports (.receive s .fresh) h, List.mem_append_right _ (.head _)⟩

theorem textResponse_asHead (req : Request) (status : Nat) (body contentType : Bytes) :
    textResponse (asHead n k req) status body contentType =
      { textResponse req status body contentType with sendBody := false } :=
  rfl

theorem errorResponse_asHead (req : Request) (status : Nat) (detail : Bytes) :
    errorResponse (asHead n k req) status detail =
      { errorResponse req status detail with sendBody := false } :=
  rfl

theorem handleGetHead_head (hp : pathOf req.target ≠ ascii "/info") :
    handleGetHead (asHead n k req) cfg = { handleGetHead req cfg with sendBody := false } := by
  have h₁ : (asHead n k req).target = req.target := rfl
  have h₂ : (asHead n k req).body = req.body := rfl
  have h₃ (d : Bytes) : echoType (asHead n k req) d = echoType req d := rfl
  simp only [handleGetHead, slowResponse, h₁, h₂, h₃, textResponse_asHead, errorResponse_asHead,
    hp, if_false]
  repeat' split
  all_goals rfl

theorem handleGetHead_info (hp : pathOf req.target = ascii "/info") :
    handleGetHead req cfg = textResponse req 200 (bodyPreview req) (ascii "application/json") := by
  have h₁ : (ascii "/info" = ascii "/" || ascii "/info" = ascii "/index.html") = false := by decide
  have h₂ : ascii "/info" ≠ ascii "/health" := by decide
  simp only [handleGetHead, hp, h₁, h₂, Bool.false_eq_true, if_false, if_true]

theorem runJob_get (hm : req.method = .get) (ht : req.target ≠ ascii "*") :
    runJob cfg false req = { handleGetHead req cfg with
      reqMajor  := req.major
      reqMinor  := req.minor
      keepAlive := if !req.keepAlive then false else (handleGetHead req cfg).keepAlive } := by
  have hs : req.isStarTarget = false := by simpa [Request.isStarTarget] using ht
  have hh : req.isHead = false := by simp [Request.isHead, hm]
  simp [runJob, handleRequest, hs, hm, hh]

theorem runJob_asHead (ht : req.target ≠ ascii "*") :
    runJob cfg false (asHead n k req) = { handleGetHead (asHead n k req) cfg with
      reqMajor  := req.major
      reqMinor  := req.minor
      sendBody  := false
      keepAlive := if !req.keepAlive then false
                   else (handleGetHead (asHead n k req) cfg).keepAlive } := by
  have hs : (asHead n k req).isStarTarget = false := by
    simpa [Request.isStarTarget, asHead] using ht
  have hm : (asHead n k req).method = .head := rfl
  have hh : (asHead n k req).isHead = true := rfl
  have h₁ : (asHead n k req).major = req.major := rfl
  have h₂ : (asHead n k req).minor = req.minor := rfl
  have h₃ : (asHead n k req).keepAlive = req.keepAlive := rfl
  simp [runJob, handleRequest, hs, hm, hh, h₁, h₂, h₃]

-- The method appears in the preview, and the two names differ in length.
theorem length_bodyPreview_asHead (hn : req.methodName = ascii "GET") :
    (bodyPreview (asHead n k req)).length = (bodyPreview req).length + 1 := by
  have h₁ : (jsonEscape (ascii "HEAD")).length = (jsonEscape (ascii "GET")).length + 1 := by decide
  have h₂ : (asHead n k req).minor = req.minor := rfl
  have h₃ : (asHead n k req).body = req.body := rfl
  have h₄ : (asHead n k req).methodName = ascii "HEAD" := rfl
  have h₅ : (asHead n k req).target = req.target := rfl
  have h₆ : (asHead n k req).headers = req.headers := rfl
  simp only [bodyPreview, h₂, h₃, h₄, h₅, h₆, hn, List.length_append, h₁]
  omega

theorem textResponse_no_length (req : Request) (status : Nat) (body contentType : Bytes) :
    (textResponse req status body contentType).headers.any
      (equalsIgnoreCase ·.name (ascii "Content-Length")) = false := by
  have h : equalsIgnoreCase (ascii "Content-Type") (ascii "Content-Length") = false := by decide
  simp [textResponse, finalize, Response.set, h]

-- Only the length field tells the two heads apart.
theorem responseHead_body {res : Response} {body : Bytes} (hb : res.noBodyFraming = false)
    (hl : res.headers.any (equalsIgnoreCase ·.name (ascii "Content-Length")) = false)
    (h : responseHead date { res with body := body, sendBody := false } = responseHead date res) :
    body.length = res.body.length := by
  simp only [responseHead, wireFields, List.flatMap_append, List.append_assoc] at h
  have h := List.append_cancel_left (List.append_cancel_left (List.append_cancel_left
    (List.append_cancel_left h)))
  have h := List.append_cancel_right h
  simp only [lengthField, hb, hl, Bool.not_false, Bool.and_self, if_true, List.flatMap_cons,
    List.flatMap_nil, List.append_nil, wireField, List.append_assoc] at h
  exact Grammar.decimal_inj (List.append_cancel_right
    (List.append_cancel_left (List.append_cancel_left h)))

theorem runJob_asHead_mirror (hm : req.method = .get) (ht : req.target ≠ ascii "*")
    (hp : pathOf req.target ≠ ascii "/info") :
    runJob cfg false (asHead n k req) = { runJob cfg false req with sendBody := false } := by
  rw [runJob_asHead ht, runJob_get hm ht, handleGetHead_head hp]

theorem runJob_asHead_info (hm : req.method = .get) (ht : req.target ≠ ascii "*")
    (hp : pathOf req.target = ascii "/info") :
    runJob cfg false (asHead n k req) = { runJob cfg false req with
      body := bodyPreview (asHead n k req), sendBody := false } := by
  have hp' : pathOf (asHead n k req).target = ascii "/info" := hp
  have hb (b₁ b₂ t : Bytes) :
      textResponse req 200 b₁ t = { textResponse req 200 b₂ t with body := b₁ } := rfl
  rw [runJob_asHead ht, runJob_get hm ht, handleGetHead_info hp, handleGetHead_info hp',
    textResponse_asHead, hb (bodyPreview (asHead n k req)) (bodyPreview req)]

-- The length that HEAD announces is the one that GET would have produced, unless the body itself
-- mentions the method.
theorem runJob_mirror (hr : Emittable req) (hm : req.method = .get)
    (hn : req.methodName = ascii "GET") (n k : Nat) (cfg : Config) (date : Bytes) :
    (responseHead date (runJob cfg false (asHead n k req)) =
        responseHead date (runJob cfg false req) ∧
      serializeResponse date (runJob cfg false (asHead n k req)) =
        responseHead date (runJob cfg false (asHead n k req))) ↔
    pathOf req.target ≠ ascii "/info" := by
  have ht : req.target ≠ ascii "*" := hr.target (by simp [hm])
  constructor
  case mp =>
    intro ⟨he, _⟩ hp
    rw [runJob_asHead_info hm ht hp] at he
    have hj : runJob cfg false req = { handleGetHead req cfg with
      reqMajor  := req.major
      reqMinor  := req.minor
      keepAlive := if !req.keepAlive then false else (handleGetHead req cfg).keepAlive } :=
      runJob_get hm ht
    rw [handleGetHead_info hp] at hj
    have hl : (bodyPreview (asHead n k req)).length = (runJob cfg false req).body.length :=
      responseHead_body (by rw [hj]; rfl) (by rw [hj]; exact textResponse_no_length req ..) he
    have hb : (runJob cfg false req).body = bodyPreview req := by rw [hj]; rfl
    rw [hb, length_bodyPreview_asHead hn] at hl
    omega
  case mpr =>
    intro hp
    rw [runJob_asHead_mirror hm ht hp]
    refine ⟨rfl, ?_⟩
    rw [serializeResponse_head]
    simp [sentBody]

def getRequest (target : Bytes) : Request where
  method      := .get
  methodName  := ascii "GET"
  target      := target
  headerBytes := 2
  totalBytes  := 17 + target.length

def bareRequest (method target : Bytes) : Bytes :=
  method ++ ascii " " ++ target ++ ascii " HTTP/1.1\r\n\r\n"

theorem runJob_mirror_root :
    Parser.parse {} {} (bareRequest (ascii "GET") (ascii "/")) =
      (.request (getRequest (ascii "/")), {}, []) ∧
    Parser.parse {} {} (bareRequest (ascii "HEAD") (ascii "/")) =
      (.request (asHead 2 19 (getRequest (ascii "/"))), {}, []) ∧
    responseHead [] (runJob {} false (asHead 2 19 (getRequest (ascii "/")))) =
      responseHead [] (runJob {} false (getRequest (ascii "/"))) := by
  have h : Parser.parse {} {} (bareRequest (ascii "GET") (ascii "/")) =
    (.request (getRequest (ascii "/")), {}, []) := by decide +kernel
  have hp : pathOf (ascii "/") ≠ ascii "/info" := by decide
  refine ⟨h, by decide +kernel, ?_⟩
  exact ((runJob_mirror (.of_parse h) rfl rfl 2 19 {} []).mpr hp).1

-- The preview of HEAD is one byte longer than the one that GET sends.
theorem runJob_mirror_info :
    Parser.parse {} {} (bareRequest (ascii "GET") (ascii "/info")) =
      (.request (getRequest (ascii "/info")), {}, []) ∧
    Parser.parse {} {} (bareRequest (ascii "HEAD") (ascii "/info")) =
      (.request (asHead 2 23 (getRequest (ascii "/info"))), {}, []) ∧
    responseHead [] (runJob {} false (asHead 2 23 (getRequest (ascii "/info")))) ≠
      responseHead [] (runJob {} false (getRequest (ascii "/info"))) := by
  decide +kernel

end Http
