import HttpServer.Parser.Theorems.Completeness
import HttpServer.Parser.Theorems.Continue
import HttpServer.Parser.Theorems.Fragmentation

open Text

namespace Http.Parser

open Grammar

-- The messages that the parser understands. A length that is announced is in the range of its numbers,
-- and there is nothing else that the client expects if a body follows.
structure Readable (m : Message) : Prop where
  number : ∀ d hd, m.body = .fixed d hd → d.length ≤ 2 ^ 52
  expect : m.body ≠ .empty → ExpectKnown (m.fields.map (·.header))

variable {lim : ParserLimits} {p q : Parser} {b c d t : Bytes} {st : ParseStatus} {err : String}
variable {l : RequestLine} {fs ts : List FieldLine} {cs : List Chunk} {s : ChunkLine} {e : Bool}
variable {m : Message} {req : Request}

theorem Move.ideal (h : Move lim p c none q) (hs : p.scan = 0) (hc : ¬Starved p c) (t : Bytes) :
    ideal lim p (c ++ t) = ideal lim q t := by
  have ⟨_, hp⟩ := h.pass_loop hs hc []
  rw [List.append_nil] at hp
  exact ideal_loop (.zero hs) hc hp t

theorem Moves.ideal (h : Moves lim p c q) (hs : p.scan = 0) (t : Bytes) :
    ideal lim p (c ++ t) = ideal lim q t := by
  induction h generalizing t
  case refl => rfl
  case tail h m hn hi => rw [List.append_assoc, hi, m.ideal (h.scan_eq hs) hn]

theorem Move.ideal_report (h : Move lim p c (some st) q) (hs : p.scan = 0) (hr : Ready p b)
    (he : ¬IsError st) (hn : st ≠ .needMore) (t : Bytes) :
    Parser.ideal lim p (c ++ t) =
      (st :: (Parser.ideal lim q t).1, (Parser.ideal lim q t).2) := by
  have hp := h.pass_ret hs []
  rw [List.append_nil] at hp
  exact Parser.ideal_report (.zero hs) h.not_starved hp he hn
    (List.length_pos_iff.mpr (h.ne_nil hr)) t

-- The size of what comes next is the reason to give up.
def Refuses (lim : ParserLimits) (p : Parser) (b : Bytes) : Prop :=
  ¬Starved p b ∧ ∃ err q c, pass lim p b = .ret (.tooLarge err) q c

theorem Refuses.ideal (h : Refuses lim p b) (hs : p.scan = 0) (t : Bytes) :
    EndsTooLarge (ideal lim p (b ++ t)) := by
  have ⟨hb, err, q, c, hp⟩ := h
  exact ⟨.tooLarge err, by rw [ideal_fail (.zero hs) hb hp trivial t], trivial⟩

-- A sequence of items, each of which is read or refused. `Ok` tells which sequences are within the
-- limits.
theorem ideal_items {α : Type} (state : List α → Parser) (encode : α → Bytes)
    (Ok : List α → Prop) (scan : ∀ xs, (state xs).scan = 0) (init : ∀ {xs x}, Ok (xs ++ [x]) → Ok xs)
    (take : ∀ {xs x}, Ok (xs ++ [x]) → Moves lim (state xs) (encode x) (state (xs ++ [x])))
    (refuse : ∀ {xs x}, Ok xs → ¬Ok (xs ++ [x]) → Refuses lim (state xs) (encode x))
    (xs ys : List α) (hx : Ok xs) (t : Bytes) :
    (Ok (xs ++ ys) →
      ideal lim (state xs) (ys.flatMap encode ++ t) = ideal lim (state (xs ++ ys)) t) ∧
    (¬Ok (xs ++ ys) → EndsTooLarge (ideal lim (state xs) (ys.flatMap encode ++ t))) := by
  have hi {xs ys : List α} (h : Ok (xs ++ ys)) : Ok xs := by
    induction ys using List.reverseRecOn
    case nil => simpa using h
    case append_singleton ys y hi => exact hi (init (List.append_assoc .. ▸ h))
  induction ys generalizing xs
  case nil => simp [hx]
  case cons y ys ih =>
    have he : xs ++ y :: ys = (xs ++ [y]) ++ ys := by simp
    have ha : (y :: ys).flatMap encode ++ t = encode y ++ (ys.flatMap encode ++ t) := by simp
    rw [he, ha]
    by_cases hy : Ok (xs ++ [y])
    case pos =>
      rw [(take hy).ideal (scan xs)]
      exact ih (xs ++ [y]) hy
    case neg =>
      exact ⟨fun h => absurd (hi h) hy, fun _ => (refuse hx hy).ideal (scan xs) _⟩

theorem refuses_line (h : lim.maxRequestLineBytes < l.encode.length) :
    Refuses lim {} (encodeLine l.encode) := by
  refine ⟨by simp [Starved, lf_mem_encodeLine], "request line too long", ?_⟩
  have hl := lineReady_crlf (p := {}) (t := []) rfl l.no_lf
  simp [pass, passRequestLine, encodeLine, crlf, hl, h]

-- A field line that does not fit, in the header or in the trailers.
theorem refuses_fieldLine (f : FieldLine) (hp : p.state = .headers ∨ p.state = .chunkTrailer)
    (hs : p.scan = 0) (h : lim.maxHeaderFields ≤ p.cur.headers.length ∨
      lim.maxHeaderBytes < p.headerBytes + (f.encode.length + 2)) :
    Refuses lim p (encodeLine f.encode) := by
  have hl : lineReady p (encodeLine f.encode) = (.ready f.encode.length, f.encode.length + 2) :=
    lineReady_crlf hs f.no_lf
  have ht : (encodeLine f.encode).take f.encode.length = f.encode := by simp [encodeLine]
  have hn : (f.encode.length == 0) = false := by simp [f.encode_ne_nil]
  refine ⟨?_, ?_⟩
  · rcases hp with hp | hp <;> simp [Starved, hp, lf_mem_encodeLine]
  by_cases hm : p.cur.headers.length ≥ lim.maxHeaderFields
  case pos =>
    rcases hp with hp | hp <;>
      simp [pass, hp, passHeaders, passChunkTrailer, hl, ht, f.encode_ne_nil, parseHeaderLine_line,
        hm, fail]
  case neg =>
    have h := h.resolve_left hm
    rcases hp with hp | hp <;>
      simp [pass, hp, passHeaders, passChunkTrailer, hl, ht, f.encode_ne_nil, parseHeaderLine_line,
        hm, h]

-- The header fields that fit.
structure FieldsOk (lim : ParserLimits) (fs : List FieldLine) : Prop where
  number : fs.length ≤ lim.maxHeaderFields
  bytes  : (encodeFields fs).length ≤ lim.maxHeaderBytes

theorem ideal_fields (lim : ParserLimits) (l : RequestLine) (fs : List FieldLine) (t : Bytes) :
    (FieldsOk lim fs → ideal lim (inHead l []) (encodeFields fs ++ t) = ideal lim (inHead l fs) t) ∧
    (¬FieldsOk lim fs → EndsTooLarge (ideal lim (inHead l []) (encodeFields fs ++ t))) := by
  refine ideal_items (inHead l) (encodeLine ·.encode) (FieldsOk lim) (fun _ => rfl)
    ?init ?take ?refuse [] fs ⟨Nat.zero_le _, Nat.zero_le _⟩ t
  case init =>
    intro fs f h
    have hb := h.bytes
    have hn := h.number
    simp only [encodeFields_append, List.length_append] at hb hn
    exact ⟨by omega, by omega⟩
  case take => exact fun h => moves_field h.bytes h.number
  case refuse =>
    intro fs f _ h
    refine refuses_fieldLine f (.inl rfl) rfl ?_
    by_contra hc
    simp only [inHead, List.length_map, not_or, Nat.not_le, Nat.not_lt] at hc
    exact h ⟨by simpa using Nat.succ_le_of_lt hc.1, by simpa using hc.2⟩

-- The trailers that fit behind the header fields. The empty line between them counts only if there
-- are trailers.
structure TrailersOk (lim : ParserLimits) (fs ts : List FieldLine) : Prop where
  number : (fs ++ ts).length ≤ lim.maxHeaderFields
  bytes  : ts ≠ [] → (encodeFields fs ++ crlf ++ encodeFields ts).length ≤ lim.maxHeaderBytes

theorem ideal_trailers (l : RequestLine) (e : Bool) (cs : List Chunk) (s : ChunkLine)
    (ts : List FieldLine) (hn : fs.length ≤ lim.maxHeaderFields) (t : Bytes) :
    (TrailersOk lim fs ts → ideal lim (inTrailers l fs e cs s []) (encodeFields ts ++ t) =
      ideal lim (inTrailers l fs e cs s ts) t) ∧
    (¬TrailersOk lim fs ts →
      EndsTooLarge (ideal lim (inTrailers l fs e cs s []) (encodeFields ts ++ t))) := by
  refine ideal_items (inTrailers l fs e cs s) (encodeLine ·.encode) (TrailersOk lim fs)
    (fun _ => rfl) ?init ?take ?refuse [] ts ⟨by simpa using hn, by simp⟩ t
  case init =>
    intro ts f h
    have hb := h.bytes (by simp)
    have hn := h.number
    simp only [encodeFields_append, List.length_append] at hb hn
    exact ⟨by simp; omega, fun _ => by simp only [List.length_append]; omega⟩
  case take => exact fun h => moves_trailer h.number (h.bytes (by simp))
  case refuse =>
    intro ts f _ h
    refine refuses_fieldLine f (.inr rfl) rfl ?_
    by_contra hc
    simp only [inTrailers, List.length_map, List.length_append, not_or, Nat.not_le,
      Nat.not_lt] at hc
    exact h ⟨by simp; omega, fun _ => by simp at hc ⊢; omega⟩

theorem parseHex_huge {v : Nat} {s : Bytes} (hs : ∀ c ∈ s, (hexDigit c).isSome) (hv : v ≤ 2 ^ 52)
    (h : 2 ^ 52 < Numeral.valueFrom hexDigit 16 v s) :
    parseHex v s = .error ("chunk size out of range", true) := by
  induction s generalizing v
  case nil =>
    simp only [Numeral.valueFrom, List.foldl_nil] at h
    omega
  case cons c s hi =>
    obtain ⟨d, hd⟩ := Option.isSome_iff_exists.mp (hs c (by simp))
    simp only [Numeral.valueFrom, List.foldl_cons, hd, Option.getD_some] at h
    simp only [parseHex, hd]
    split
    case isTrue     => rfl
    case isFalse hm => exact hi (fun x hx => hs x (by simp [hx])) (by omega) h

theorem parseChunkSize_huge (s : ChunkLine) (h : 2 ^ 52 < s.size) :
    parseChunkSize s.encode = .error ("chunk size out of range", true) := by
  simp [parseChunkSize, chunkHex_encode, s.nonempty, Nat.not_lt_of_le s.short,
    parseHex_huge s.digits (by omega) h]

-- The chunks that fit. Each of their sizes is in the range of the parser's numbers.
structure ChunksOk (lim : ParserLimits) (cs : List Chunk) : Prop where
  bytes   : (chunkData cs).length ≤ lim.maxBodyBytes
  numbers : ∀ c ∈ cs, c.data.length ≤ 2 ^ 52

theorem refuses_chunk (c : Chunk) (h : ¬ChunksOk lim (cs ++ [c])) (hs : ChunksOk lim cs) :
    Refuses lim (inChunks l fs e cs) c.encode := by
  have hl : lineReady (inChunks l fs e cs) c.encode =
      (.ready c.line.encode.length, c.line.encode.length + 2) := by
    have hl := lineReady_crlf (p := inChunks l fs e cs) (t := encodeLine c.data) rfl c.line.no_lf
    simpa [Chunk.encode, encodeLine, crlf] using hl
  have ht : c.encode.take c.line.encode.length = c.line.encode := by
    simp [Chunk.encode, encodeLine]
  have h0 := c.size_ne_zero
  have he : (inChunks l fs e cs).expectChunkCrlf = false := rfl
  have hr : (inChunks l fs e cs).chunkRemaining = 0 := rfl
  have hp : (inChunks l fs e cs).state = .bodyChunked := rfl
  have hd : (inChunks l fs e cs).body = chunkData cs := rfl
  refine ⟨by simp [Starved, hp, he, hr, Chunk.encode, lf_mem_encodeLine], ?_⟩
  by_cases hn : c.line.size ≤ 2 ^ 52
  case neg =>
    have hz := parseChunkSize_huge c.line (Nat.lt_of_not_le hn)
    simp [pass, hp, passBodyChunked, he, hr, hl, ht, hz, fail]
  case pos =>
    have hz := parseChunkSize_encode c.line hn
    have hb : lim.maxBodyBytes < (chunkData cs).length + c.line.size := by
      by_contra hc
      refine h ⟨by simpa [chunkData, c.complete] using hc, fun x hx => ?_⟩
      rcases List.mem_append.mp hx with hx | hx
      · exact hs.numbers x hx
      · rwa [List.mem_singleton.mp hx, c.complete]
    simp [pass, hp, passBodyChunked, he, hr, hl, ht, hz, h0, hd, hb]

theorem ideal_chunks (lim : ParserLimits) (l : RequestLine) (fs : List FieldLine) (e : Bool)
    (cs : List Chunk) (t : Bytes) :
    (ChunksOk lim cs →
      ideal lim (inChunks l fs e []) (chunkBytes cs ++ t) = ideal lim (inChunks l fs e cs) t) ∧
    (¬ChunksOk lim cs → EndsTooLarge (ideal lim (inChunks l fs e []) (chunkBytes cs ++ t))) := by
  refine ideal_items (inChunks l fs e) (·.encode) (ChunksOk lim) (fun _ => rfl)
    ?init ?take ?refuse [] cs ⟨Nat.zero_le _, by simp⟩ t
  case init =>
    intro cs c h
    have hb := h.bytes
    simp only [chunkData, List.flatMap_append, List.length_append] at hb
    exact ⟨by simp only [chunkData]; omega, fun x hx => h.numbers x (by simp [hx])⟩
  case take =>
    intro cs c h
    exact moves_chunk c (by simpa [chunkData] using h.bytes) (h.numbers c (by simp))
  case refuse => exact fun hs h => refuses_chunk _ h hs

-- The end of a head whose body is due. `e` tells whether the client is told to go on.
theorem head_due {body : Bool → Parser} {fr : Framing} (ho : OptionsOk fs)
    (ha : fr.AnnouncedBy lim l.version fs) (hk : ExpectKnown (fs.map (·.header)))
    (hf : finishFraming (inBody l fs false) fr = finishExpect (body false))
    (hb : (body false).cur = (inBody l fs false).cur) (he : (body false).expected = body true) :
    ∃ e, Move lim (inHead l fs) crlf (if e then some .expect100 else none) (body e) := by
  have hc : (body false).cur.headers = fs.map (·.header) := by rw [hb]; rfl
  have hn : ∀ err, (finishExpect (body false)).1 ≠ .error err :=
    (finishExpect_known (hc ▸ trimmed_fields fs)).mpr (hc ▸ hk)
  have hh := (finishHeaders_inHead ho ha).trans hf
  obtain ⟨h, hq⟩ | ⟨h, hq⟩ := finishExpect_ok (Prod.eta _).symm hn
  · exact ⟨false, .headPending rfl (hh.trans (Prod.ext h hq))⟩
  · exact ⟨true, .headExpect rfl (hh.trans (Prod.ext h (hq.trans he)))⟩

theorem head_fixed (hb : m.body = .fixed d hd) (hr : Readable m)
    (hm : d.length ≤ lim.maxBodyBytes) :
    ∃ e, Move lim (inHead m.line m.fields) crlf (if e then some .expect100 else none)
      (inFixed m.line m.fields e d.length []) := by
  have hf := m.framed
  have hn := hr.number d hd hb
  rw [hb] at hf
  have hk := hr.expect (by simp [hb])
  have ha : (Framing.length d.length).AnnouncedBy lim m.line.version m.fields :=
    ⟨hf.1, hf.2, hn, hm⟩
  have hp : d.length > 0 := List.length_pos_iff.mpr hd
  exact head_due m.options ha hk (finish_fixed m.line m.fields hp) rfl rfl

theorem head_chunked (lim : ParserLimits) (hb : m.body = .chunked cs s hz ts) (hr : Readable m) :
    ∃ e, Move lim (inHead m.line m.fields) crlf (if e then some .expect100 else none)
      (inChunks m.line m.fields e []) := by
  have ha := announced_chunked lim hb
  have hk := hr.expect (by simp [hb])
  exact head_due m.options ha hk (finish_chunked m.line m.fields) rfl rfl

def interim (e : Bool) : List ParseStatus :=
  if e then [.expect100] else []

theorem ideal_head (body : Bool → Parser)
    (h : Move lim (inHead l fs) crlf (if e then some .expect100 else none) (body e)) (t : Bytes) :
    ideal lim (inHead l fs) (crlf ++ t) =
      (interim e ++ (ideal lim (body e) t).1, (ideal lim (body e) t).2) := by
  cases e
  case false => exact h.ideal rfl (by simp [Starved, inHead, crlf]) t
  case true  =>
    exact Move.ideal_report (b := []) h rfl ⟨.zero rfl, by simp [inHead]⟩ id (by simp) t

-- The length that is announced is too much.
theorem refuses_length {n : Nat} (ho : OptionsOk fs)
    (hte : valuesOf fs (ascii "Transfer-Encoding") = [])
    (hcl : valuesOf fs (ascii "Content-Length") = [decimal n]) (hn : n ≤ 2 ^ 52)
    (hm : lim.maxBodyBytes < n) : Refuses lim (inHead l fs) crlf := by
  have hl : lineReady (inHead l fs) crlf = (.ready 0, 2) := by
    exact lineReady_crlf (c := []) (t := []) rfl (by simp)
  have ho : OptionsKnown (inHead l fs).cur.headers := optionsOk_iff.mp ho
  rw [valuesOf_named] at hte hcl
  have ⟨h₁, h₂⟩ := finishHeaders_exceeds (p := (inHead l fs).eatField 0) ho hte hcl hn hm
  have hs : (inHead l fs).state = .headers := rfl
  refine ⟨by simp [Starved, hs, crlf], "Content-Length exceeds the body limit", ?_⟩
  rcases hf : finishHeaders lim ((inHead l fs).eatField 0) with ⟨o, q⟩
  rw [hf] at h₁ h₂
  simp only [eatField, hs, Nat.zero_add] at hf
  simp only at h₁ h₂
  simp [pass, hs, passHeaders, hl, hf, h₁, h₂, fail]

theorem ideal_end (h : Move lim p c (some (.request req)) {}) (hs : p.scan = 0) (hr : Ready p b) :
    ideal lim p c = ([.request req], none) := by
  have h := h.ideal_report hs hr id (by simp) []
  rwa [List.append_nil, ideal_fresh] at h

-- The bodies that fit.
def BodyOk (lim : ParserLimits) : BodyPart → Prop
  | .empty         => True
  | .fixed d _     => d.length ≤ lim.maxBodyBytes
  | .chunked cs .. => ChunksOk lim cs

-- The messages whose parts fit. Nothing is said about their total size.
structure PartsOk (lim : ParserLimits) (m : Message) : Prop where
  line     : m.line.encode.length ≤ lim.maxRequestLineBytes
  fields   : FieldsOk lim m.fields
  body     : BodyOk lim m.body
  trailers : TrailersOk lim m.fields m.body.trailers

-- What the parser makes of the rest of a message, behind its header fields.
structure BodyVerdict (lim : ParserLimits) (m : Message) (r : List ParseStatus × Option ParseStatus) :
    Prop where
  accepts : BodyOk lim m.body → TrailersOk lim m.fields m.body.trailers →
    ∃ e, r = (interim e ++ [.request { m.request with expect100Continue := e }], none)
  refuses : ¬BodyOk lim m.body ∨ ¬TrailersOk lim m.fields m.body.trailers → EndsTooLarge r

theorem trailersOk_nil (hn : fs.length ≤ lim.maxHeaderFields) : TrailersOk lim fs [] where
  number := by simpa using hn
  bytes  := by simp

theorem ideal_empty (hb : m.body = .empty) (hn : m.fields.length ≤ lim.maxHeaderFields) :
    BodyVerdict lim m (ideal lim (inHead m.line m.fields) (crlf ++ m.body.encode)) := by
  have hi : ideal lim (inHead m.line m.fields) crlf = ([.request m.request], none) :=
    ideal_end (b := []) (ends_empty hb) rfl ⟨.zero rfl, by simp [inHead]⟩
  have ht : TrailersOk lim m.fields m.body.trailers := hb ▸ trailersOk_nil hn
  have hd : BodyOk lim m.body := hb ▸ trivial
  refine ⟨fun _ _ => ⟨false, ?_⟩, fun h => (not_or.mpr ⟨not_not_intro hd, not_not_intro ht⟩ h).elim⟩
  rw [hb, BodyPart.encode, List.append_nil, hi]
  rfl

theorem ideal_fixed (hb : m.body = .fixed d hd) (hr : Readable m)
    (hn : m.fields.length ≤ lim.maxHeaderFields) :
    BodyVerdict lim m (ideal lim (inHead m.line m.fields) (crlf ++ m.body.encode)) := by
  have hd' : BodyOk lim m.body ↔ d.length ≤ lim.maxBodyBytes := by rw [hb]; rfl
  have he : m.body.encode = d := by rw [hb]; rfl
  have ht : TrailersOk lim m.fields m.body.trailers := hb ▸ trailersOk_nil hn
  refine ⟨fun hm _ => ?_, fun h => ?_⟩
  · rw [hd'] at hm
    have ⟨e, hh⟩ := head_fixed hb hr hm
    have hp : (inFixed m.line m.fields e d.length []).bodyRemaining > 0 := by
      simpa [inFixed] using List.length_pos_iff.mpr hd
    have hi : ideal lim (inFixed m.line m.fields e d.length []) d = _ :=
      ideal_end (b := []) (ends_fixed hb e) rfl ⟨.zero rfl, fun _ => hp⟩
    refine ⟨e, ?_⟩
    rw [he, ideal_head (inFixed m.line m.fields · d.length []) hh, hi]
  · have hm := h.resolve_right (not_not_intro ht)
    have hf := m.framed
    rw [hd'] at hm
    rw [hb] at hf
    exact (refuses_length m.options hf.1 hf.2 (hr.number d hd hb) (Nat.lt_of_not_le hm)).ideal rfl _

theorem ideal_chunked (hb : m.body = .chunked cs s hz ts) (hr : Readable m)
    (hn : m.fields.length ≤ lim.maxHeaderFields) :
    BodyVerdict lim m (ideal lim (inHead m.line m.fields) (crlf ++ m.body.encode)) := by
  obtain ⟨e, hh⟩ := head_chunked lim hb hr
  have he : m.body.encode =
      chunkBytes cs ++ (encodeLine s.encode ++ (encodeFields ts ++ crlf)) := by
    simp [hb, BodyPart.encode, chunkBytes]
  have hd : BodyOk lim m.body ↔ ChunksOk lim cs := by rw [hb]; rfl
  have ht : m.body.trailers = ts := by rw [hb]; rfl
  rw [he, ideal_head (inChunks m.line m.fields · []) hh]
  obtain ⟨h₁, h₂⟩ := ideal_chunks lim m.line m.fields e cs
    (encodeLine s.encode ++ (encodeFields ts ++ crlf))
  have hl : ideal lim (inChunks m.line m.fields e cs)
      (encodeLine s.encode ++ (encodeFields ts ++ crlf)) = _ := (moves_lastChunk hz).ideal rfl _
  obtain ⟨h₃, h₄⟩ := ideal_trailers m.line e cs s ts hn crlf
  refine ⟨fun hm ho => ⟨e, ?_⟩, fun h => ?_⟩
  · rw [hd] at hm
    rw [ht] at ho
    have hi : ideal lim (inTrailers m.line m.fields e cs s ts) crlf = _ :=
      ideal_end (b := []) (ends_chunked hb e) rfl ⟨.zero rfl, by simp [inTrailers]⟩
    rw [h₁ hm, hl, h₃ ho, hi]
  · rw [hd, ht] at h
    by_cases hm : ChunksOk lim cs
    case neg => exact h₂ hm
    case pos =>
      have ho := h.resolve_left (not_not_intro hm)
      rw [h₁ hm, hl]
      exact h₄ ho

-- The verdict on a message that arrives in one piece is a matter of its sizes.
theorem ideal_encode (lim : ParserLimits) (hr : Readable m) :
    (PartsOk lim m → ∃ e, ideal lim {} m.encode =
      (interim e ++ [.request { m.request with expect100Continue := e }], none)) ∧
    (¬PartsOk lim m → EndsTooLarge (ideal lim {} m.encode)) := by
  have he : m.encode =
      encodeLine m.line.encode ++ (encodeFields m.fields ++ (crlf ++ m.body.encode)) := by
    simp [Message.encode]
  rw [he]
  by_cases hl : m.line.encode.length ≤ lim.maxRequestLineBytes
  case neg =>
    refine ⟨fun h => absurd h.line hl, fun _ => ?_⟩
    exact (refuses_line (Nat.lt_of_not_le hl)).ideal rfl _
  case pos =>
    obtain ⟨h₁, h₂⟩ := ideal_fields lim m.line m.fields (crlf ++ m.body.encode)
    rw [(moves_requestLine hl).ideal rfl]
    by_cases hf : FieldsOk lim m.fields
    case neg => exact ⟨fun h => absurd h.fields hf, fun _ => h₂ hf⟩
    case pos =>
      have hb : BodyVerdict lim m (ideal lim (inHead m.line m.fields) (crlf ++ m.body.encode)) := by
        cases hm : m.body
        case empty   => exact hm ▸ ideal_empty hm hf.number
        case fixed   => exact hm ▸ ideal_fixed hm hr hf.number
        case chunked => exact hm ▸ ideal_chunked hm hr hf.number
      rw [h₁ hf]
      refine ⟨fun h => hb.accepts h.body h.trailers, fun h => hb.refuses ?_⟩
      by_contra hc
      simp only [not_or, not_not] at hc
      exact h ⟨hl, hf, hc.1, hc.2⟩

end Http.Parser
