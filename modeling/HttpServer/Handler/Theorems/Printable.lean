import HttpServer.Handler.Theorems.Mirror

open Text

namespace Http

def isPrintable (c : Byte) : Bool :=
  0x20 ≤ c && c ≤ 0x7e

def PrintableText (s : Bytes) : Prop :=
  ∀ c ∈ s, isPrintable c = true

-- Nothing but printable characters and the CRLFs at the ends of lines.
def Clean (s : Bytes) : Prop :=
  ∃ ls : List Bytes, s = ls.flatMap (· ++ crlf) ∧ ∀ l ∈ ls, PrintableText l

def Ascii (s : Bytes) : Prop :=
  ∀ c ∈ s, c < 0x80

def Response.AsciiHeaders (res : Response) : Prop :=
  ∀ h ∈ res.headers, Ascii h.name ∧ Ascii h.value

-- The request asks for its own type back, and that type has a byte of obs-text.
def Request.Reflects (req : Request) : Prop :=
  (req.method = .get ∨ req.method = .head ∨ req.method = .post) ∧
  pathOf req.target = ascii "/echo" ∧ ∃ c ∈ req.header (ascii "Content-Type"), 0x80 ≤ c

instance (s : Bytes) : Decidable (PrintableText s) :=
  List.decidableBAll (isPrintable · = true) s

instance (s : Bytes) : Decidable (Ascii s) :=
  List.decidableBAll (· < 0x80) s

variable {req : Request} {res : Response} {cfg : Config} {date s t : Bytes} {ls : List Bytes}

theorem isPrintable_of_sane (c : Byte) (hs : isControl c = false) (hc : c < 0x80) :
    isPrintable c = true := by
  grind [isControl, isPrintable]

theorem obsText_not_control (c : Byte) (hc : 0x80 ≤ c) : isControl c = false := by
  grind [isControl]

theorem obsText_not_clean (c : Byte) (hc : 0x80 ≤ c) : ¬(isPrintable c = true ∨ c ∈ crlf) := by
  have h : crlf = [0x0d, 0x0a] := by decide
  grind [isPrintable]

theorem isPrintable_of_digit (c : Byte) (hc : (decDigit c).isSome) : isPrintable c = true := by
  have h₀ : '0'.toUInt8 = 0x30 := rfl
  have h₉ : '9'.toUInt8 = 0x39 := rfl
  grind [decDigit, isPrintable]

theorem Clean.bytes (h : Clean s) : ∀ c ∈ s, isPrintable c = true ∨ c ∈ crlf := by
  obtain ⟨ls, rfl, hl⟩ := h
  intro c hc
  obtain ⟨l, hm, hc⟩ := List.mem_flatMap.mp hc
  exact (List.mem_append.mp hc).imp_left (hl l hm c)

-- The lines of a head, with the empty one at its end.
theorem responseHead_lines (date : Bytes) (res : Response) : responseHead date res =
    (wireStatus res :: (wireFields date res).map wireField ++ [[]]).flatMap (· ++ crlf) := by
  simp [responseHead, List.flatMap_map]

namespace PrintableText

theorem append (hs : PrintableText s) (ht : PrintableText t) : PrintableText (s ++ t) :=
  fun c hc => (List.mem_append.mp hc).elim (hs c) (ht c)

theorem decimal (n : Nat) : PrintableText (decimal n) :=
  fun c hc => isPrintable_of_digit c (decimal_digits n c hc)

theorem sanitize (h : Ascii s) : PrintableText (sanitizeHeaderValue s) := by
  intro c hc
  have ⟨hm, hs⟩ := List.mem_filter.mp hc
  exact isPrintable_of_sane c (by simpa using hs) (h c hm)

theorem reason (status : Nat) : PrintableText (ascii (statusReason status)) := by
  intro c hc
  have ⟨hs, ha⟩ := mem_statusReason hc
  exact isPrintable_of_sane c hs ha

theorem status (res : Response) : PrintableText (wireStatus res) := by
  have h₁ : PrintableText (ascii "HTTP/") := by decide
  have h₂ : PrintableText (ascii ".") := by decide
  have h₃ : PrintableText (ascii " ") := by decide
  exact ((((((h₁.append (.decimal _)).append h₂).append (.decimal _)).append h₃).append
    (.decimal _)).append h₃).append (.reason _)

theorem field {h : Header} (hn : PrintableText h.name) (hv : PrintableText h.value) :
    PrintableText (wireField h) :=
  (hn.append (by decide)).append hv

-- The serializer adds nothing but printable text to what a response brings along.
theorem fields (hd : PrintableText date) (hr : res.AsciiHeaders) :
    ∀ h ∈ wireFields date res, PrintableText (wireField h) := by
  simp only [wireFields, List.mem_append]
  rintro h ((((hm | hm) | hm) | hm) | hm)
  case inl.inl.inl.inl =>
    simp only [commonFields, List.mem_cons, List.not_mem_nil, or_false] at hm
    obtain rfl | rfl := hm
    · exact field (show PrintableText (ascii "Date") by decide) hd
    · decide
  case inl.inl.inl.inr =>
    obtain ⟨h, hh, rfl⟩ := List.mem_map.mp hm
    obtain ⟨hn, hv⟩ := hr h hh
    exact field (sanitize hn) (sanitize hv)
  case inl.inl.inr =>
    simp only [lengthField] at hm
    split at hm
    case isTrue =>
      rw [List.mem_singleton.mp hm]
      exact field (show PrintableText (ascii "Content-Length") by decide) (.decimal _)
    case isFalse => cases hm
  case inl.inr =>
    simp only [typeField] at hm
    split at hm
    case isTrue =>
      rw [List.mem_singleton.mp hm]
      decide
    case isFalse => cases hm
  case inr =>
    simp only [connectionField] at hm
    repeat' split at hm
    case isTrue =>
      rw [List.mem_singleton.mp hm]
      decide
    case isFalse.isTrue =>
      rw [List.mem_singleton.mp hm]
      decide
    case isFalse.isFalse => cases hm

end PrintableText

theorem mem_responseHead {h : Header} {c : Byte} (hm : h ∈ res.headers)
    (hc : c ∈ sanitizeHeaderValue h.name ∨ c ∈ sanitizeHeaderValue h.value) :
    c ∈ responseHead date res := by
  have hw : ⟨sanitizeHeaderValue h.name, sanitizeHeaderValue h.value⟩ ∈ wireFields date res := by
    have ho := List.mem_map_of_mem (f := fun h : Header =>
      (⟨sanitizeHeaderValue h.name, sanitizeHeaderValue h.value⟩ : Header)) hm
    simp only [wireFields, List.mem_append]
    exact .inl (.inl (.inl (.inr ho)))
  have hf : c ∈ wireField ⟨sanitizeHeaderValue h.name, sanitizeHeaderValue h.value⟩ := by
    simp only [wireField, List.mem_append]
    exact hc.imp_left .inl
  rw [responseHead_lines, List.mem_flatMap]
  exact ⟨_, by simp [List.mem_map_of_mem hw], List.mem_append_left _ hf⟩

-- Sanitizing removes control characters, but nothing beyond ASCII.
theorem responseHead_clean (hd : PrintableText date) :
    Clean (responseHead date res) ↔ res.AsciiHeaders := by
  constructor
  case mp =>
    intro hc h hm
    have hn (s : Bytes) (hs : s = h.name ∨ s = h.value) : Ascii s := by
      intro c hx
      by_contra hl
      have hl : 0x80 ≤ c := UInt8.not_lt.mp hl
      have hk : c ∈ sanitizeHeaderValue s :=
        List.mem_filter.mpr ⟨hx, by simp [obsText_not_control c hl]⟩
      refine obsText_not_clean c hl (hc.bytes c (mem_responseHead hm ?_))
      obtain rfl | rfl := hs
      · exact .inl hk
      · exact .inr hk
    exact ⟨hn _ (.inl rfl), hn _ (.inr rfl)⟩
  case mpr =>
    intro hr
    refine ⟨_, responseHead_lines date res, ?_⟩
    simp only [List.cons_append, List.mem_cons, List.mem_append, List.mem_map, List.not_mem_nil, or_false]
    rintro l (rfl | ⟨h, hh, rfl⟩ | rfl)
    · exact .status res
    · exact PrintableText.fields hd hr h hh
    · exact nofun

theorem textResponse_ascii (req : Request) (status : Nat) (body contentType : Bytes) :
    (textResponse req status body contentType).AsciiHeaders ↔ Ascii contentType := by
  have hn : Ascii (ascii "Content-Type") := by decide
  simp [Response.AsciiHeaders, textResponse, finalize, Response.set, hn]

theorem errorResponse_ascii (req : Request) (status : Nat) (detail : Bytes) :
    (errorResponse req status detail).AsciiHeaders := by
  have h₁ : Ascii (ascii "Allow") ∧ Ascii kAllowList := by decide
  have h₂ : Ascii (ascii "Retry-After") ∧ Ascii (ascii "1") := by decide
  simp only [Response.AsciiHeaders, errorResponse, makeErrorResponse]
  split
  case h_1 => simpa [Response.set] using h₁
  case h_2 => simpa [Response.set] using h₂
  case h_3 => simp

theorem optionsResponse_ascii (req : Request) : (optionsResponse req).AsciiHeaders := by
  have h₁ : Ascii (ascii "Allow") ∧ Ascii kAllowList := by decide
  have h₂ : Ascii (ascii "Content-Type") ∧ Ascii (ascii "text/plain; charset=utf-8") := by decide
  simp [Response.AsciiHeaders, optionsResponse, Response.set, h₁, h₂]

theorem echoType_ascii {fallback : Bytes} (hv : validHeaderValue (req.header (ascii "Content-Type")) = true)
    (hf : Ascii fallback) :
    Ascii (echoType req fallback) ↔ ¬∃ c ∈ req.header (ascii "Content-Type"), 0x80 ≤ c := by
  have hn : (¬∃ c ∈ req.header (ascii "Content-Type"), 0x80 ≤ c) ↔
      Ascii (req.header (ascii "Content-Type")) := by
    simp [Ascii]
  rw [hn]
  simp only [echoType, hv, Bool.not_true, Bool.or_false, List.isEmpty_iff]
  split
  case isTrue he => simp [he, hf]; simp [Ascii]
  case isFalse   => rfl

-- Only one of the routes puts a part of the request into the head of its response.
theorem handleGetHead_ascii (hp : pathOf req.target ≠ ascii "/echo") :
    (handleGetHead req cfg).AsciiHeaders := by
  have hc := (textResponse_ascii req 200 (ascii "closing\n") (ascii "text/plain; charset=utf-8")).mpr
    (by decide)
  simp only [handleGetHead, slowResponse, if_neg hp]
  repeat' split
  all_goals first
    | exact errorResponse_ascii _ _ _
    | exact (textResponse_ascii ..).mpr (by decide)
    | exact hc

theorem handleGetHead_echo (hp : pathOf req.target = ascii "/echo") : handleGetHead req cfg =
    textResponse req 200 req.body (echoType req (ascii "text/plain; charset=utf-8")) := by
  have h₁ : (ascii "/echo" = ascii "/" || ascii "/echo" = ascii "/index.html") = false := by decide
  have h₂ : ascii "/echo" ≠ ascii "/health" := by decide
  have h₃ : ascii "/echo" ≠ ascii "/info" := by decide
  simp only [handleGetHead, hp, h₁, h₂, h₃, Bool.false_eq_true, if_false, if_true]

theorem handlePost_ascii (hp : pathOf req.target ≠ ascii "/echo") :
    (handlePost req cfg).AsciiHeaders := by
  simp only [handlePost, slowResponse, if_neg hp]
  repeat' split
  all_goals first
    | exact errorResponse_ascii _ _ _
    | exact (textResponse_ascii ..).mpr (by decide)

theorem extractNumber_echo (hp : pathOf s = ascii "/echo") : extractNumber s (ascii "/slow") = none := by
  have ht : s.take 5 = ascii "/echo" := by
    simp only [pathOf] at hp
    split at hp
    case h_1 => rw [hp]; decide
    case h_2 q _ =>
      simp only [substr, List.drop_zero] at hp
      have hl := congrArg List.length hp
      have h₅ : (ascii "/echo").length = 5 := by decide
      rw [List.length_take, h₅] at hl
      rw [← hp]
      exact List.take_eq_take_iff.mpr (by omega)
  have hne : s.take (ascii "/slow").length ≠ ascii "/slow" := by
    have h₅ : (ascii "/slow").length = 5 := by decide
    rw [h₅, ht]
    decide
  simp [extractNumber, hne]

theorem handlePost_echo (hp : pathOf req.target = ascii "/echo") : handlePost req cfg =
    textResponse req 200 req.body (echoType req (ascii "application/octet-stream")) := by
  have h₁ : ascii "/echo" ≠ ascii "/info" := by decide
  have h₂ : ascii "/echo" ≠ ascii "/health" := by decide
  have h₃ : ascii "/echo" ≠ ascii "/" := by decide
  simp only [handlePost, extractNumber_echo hp, hp, h₁, h₂, h₃, if_false, if_true]

-- What the handlers for GET and for POST have in common.
theorem route_ascii {fallback : Bytes}
    (hv : validHeaderValue (req.header (ascii "Content-Type")) = true) (hf : Ascii fallback)
    (he : pathOf req.target = ascii "/echo" → res = textResponse req 200 req.body (echoType req fallback))
    (hn : pathOf req.target ≠ ascii "/echo" → res.AsciiHeaders) :
    res.AsciiHeaders ↔
      ¬(pathOf req.target = ascii "/echo" ∧ ∃ c ∈ req.header (ascii "Content-Type"), 0x80 ≤ c) := by
  by_cases hp : pathOf req.target = ascii "/echo"
  case pos =>
    rw [he hp, textResponse_ascii, echoType_ascii hv hf]
    simp only [hp, true_and]
  case neg => simp only [hn hp, hp, false_and, not_false_eq_true]

theorem handleRequest_ascii (hv : validHeaderValue (req.header (ascii "Content-Type")) = true) :
    (handleRequest req cfg).AsciiHeaders ↔ ¬req.Reflects := by
  have hg : (handleGetHead req cfg).AsciiHeaders ↔ _ :=
    route_ascii hv (by decide) handleGetHead_echo handleGetHead_ascii
  have hq : (handlePost req cfg).AsciiHeaders ↔ _ :=
    route_ascii hv (by decide) handlePost_echo handlePost_ascii
  simp only [handleRequest, Request.Reflects]
  split
  case isTrue hs =>
    have hp : pathOf req.target ≠ ascii "/echo" := by
      simp only [Request.isStarTarget, beq_iff_eq] at hs
      rw [hs]
      decide
    simp only [hp, false_and, and_false, not_false_eq_true, iff_true]
    split
    case isTrue  => exact optionsResponse_ascii req
    case isFalse => exact errorResponse_ascii _ _ _
  case isFalse =>
    cases hm : req.method
    case get     => simpa using hg
    case head    => simpa using hg
    case post    => simpa using hq
    case options => simpa using optionsResponse_ascii req
    case unknown => simpa using errorResponse_ascii req 405 (ascii "method not allowed")

theorem Emittable.header_valid (hr : Emittable req) (name : Bytes) :
    validHeaderValue (req.header name) = true := by
  obtain ⟨lim, s, es, c, p, b, d, hs, hd⟩ := hr
  have ⟨m, _, hr⟩ := hs.invariant.2.2.2 _ hd
  have hh : req.headers = (m.fields ++ m.body.trailers).map (·.header) := congrArg (·.headers) hr
  simp only [Request.header, hh]
  split
  case h_1 h hf =>
    obtain ⟨f, _, rfl⟩ := List.mem_map.mp (List.mem_of_find?_eq_some hf)
    exact f.valid
  case h_2 => rfl

-- The head of a response is clean unless the client has its own obs-text sent back to it.
theorem handleRequest_clean (hr : Emittable req) (hd : PrintableText date) (cfg : Config) :
    serializeResponse date (handleRequest req cfg) =
      responseHead date (handleRequest req cfg) ++ sentBody (handleRequest req cfg) ∧
    (Clean (responseHead date (handleRequest req cfg)) ↔ ¬req.Reflects) := by
  refine ⟨serializeResponse_head .., ?_⟩
  rw [responseHead_clean hd, handleRequest_ascii (hr.header_valid _)]

-- A type with a character of Latin-1 in it.
def latinType : Bytes :=
  ascii "text/caf" ++ [0xe9]

def latinRequest (target : Bytes) : Request :=
  { getRequest target with
    headers     := [⟨ascii "Content-Type", latinType⟩]
    headerBytes := 27
    totalBytes  := 42 + target.length }

def latinText (target : Bytes) : Bytes :=
  ascii "GET " ++ target ++ ascii " HTTP/1.1\r\nContent-Type: " ++ latinType ++ ascii "\r\n\r\n"

theorem handleRequest_clean_info :
    Parser.parse {} {} (latinText (ascii "/info")) = (.request (latinRequest (ascii "/info")), {}, []) ∧
    Clean (responseHead (ascii "today") (handleRequest (latinRequest (ascii "/info")) {})) := by
  have hp : Parser.parse {} {} (latinText (ascii "/info")) =
    (.request (latinRequest (ascii "/info")), {}, []) := by decide +kernel
  have hd : PrintableText (ascii "today") := by decide
  refine ⟨hp, (handleRequest_clean (.of_parse hp) hd {}).2.mpr fun hr => ?_⟩
  exact absurd hr.2.1 (by decide)

theorem handleRequest_clean_echo :
    Parser.parse {} {} (latinText (ascii "/echo")) = (.request (latinRequest (ascii "/echo")), {}, []) ∧
    ¬Clean (responseHead (ascii "today") (handleRequest (latinRequest (ascii "/echo")) {})) := by
  refine ⟨by decide +kernel, fun hc => ?_⟩
  have hm : 0xe9 ∈ responseHead (ascii "today") (handleRequest (latinRequest (ascii "/echo")) {}) := by
    decide +kernel
  exact absurd (hc.bytes 0xe9 hm) (by decide)

end Http
