import HttpServer.Parser.Theorems.Syntax

open Text

namespace Http.Parser

variable {lim : ParserLimits} {p q : Parser} {cur : Request} {hs hs' : List Header} {name : Bytes}

-- Names are matched ignoring case.
def lowered (h : Header) : Header :=
  ⟨toLower h.name, h.value⟩

def valuesNamed (name : Bytes) (hs : List Header) : List Bytes :=
  ((hs.map lowered).filter (·.name = toLower name)).map (·.value)

theorem headerAll_named (cur : Request) (name : Bytes) :
    cur.headerAll name = valuesNamed name cur.headers := by
  have h (h : Header) : equalsIgnoreCase h.name name = decide (toLower h.name = toLower name) := by
    rw [← Bool.coe_iff_coe, equalsIgnoreCase_iff, decide_eq_true_iff]
  simp only [Request.headerAll, valuesNamed, List.filter_map, List.map_map, h]
  rfl

theorem header_named (cur : Request) (name : Bytes) :
    cur.header name = (valuesNamed name cur.headers).head?.getD [] := by
  simp only [← headerAll_named, Request.headerAll, Request.header, List.head?_map,
    List.head?_filter]
  cases cur.headers.find? (equalsIgnoreCase ·.name name) <;> rfl

-- The values as `parse_header_line` stores them.
def Trimmed (hs : List Header) : Prop :=
  ∀ h ∈ hs, trimOws h.value = h.value

theorem Trimmed.values (h : Trimmed hs) (name : Bytes) : ∀ v ∈ valuesNamed name hs, trimOws v = v := by
  intro v hv
  simp only [valuesNamed, List.mem_map, List.mem_filter] at hv
  have ⟨_, ⟨⟨f, hf, he⟩, _⟩, hv⟩ := hv
  exact hv ▸ he ▸ h f hf

-- What a header list says about the body.
def Framing.Announced (lim : ParserLimits) (minor : Nat) (hs : List Header) : Framing → Prop
  | .absent =>
    valuesNamed (ascii "Transfer-Encoding") hs = [] ∧ valuesNamed (ascii "Content-Length") hs = []
  | .length n =>
    valuesNamed (ascii "Transfer-Encoding") hs = [] ∧
    valuesNamed (ascii "Content-Length") hs = [decimal n] ∧ n ≤ 2 ^ 52 ∧ n ≤ lim.maxBodyBytes
  | .chunked =>
    1 ≤ minor ∧ valuesNamed (ascii "Content-Length") hs = [] ∧
    ∃ te, valuesNamed (ascii "Transfer-Encoding") hs = [te] ∧ toLower te = ascii "chunked"

theorem isTchar_of_chunked {te : Bytes} (h : toLower te = ascii "chunked") :
    ∀ c ∈ te, isTchar c = true := by
  intro c hc
  have hm : tolower c ∈ ascii "chunked" := h ▸ List.mem_map_of_mem hc
  have ht : (ascii "chunked").all isTchar = true := by decide
  exact isTchar_of_tolower c (List.all_eq_true.mp ht _ hm)

theorem useChunked_false :
    useChunked cur = .ok false ↔ valuesNamed (ascii "Transfer-Encoding") cur.headers = [] := by
  simp only [useChunked, headerAll_named]
  cases valuesNamed (ascii "Transfer-Encoding") cur.headers
  case nil => simp
  case cons =>
    simp only [reduceCtorEq, iff_false]
    repeat' split
    all_goals simp

theorem useChunked_true (ht : Trimmed cur.headers) :
    useChunked cur = .ok true ↔ 1 ≤ cur.minor ∧
      ∃ te, valuesNamed (ascii "Transfer-Encoding") cur.headers = [te] ∧
        toLower te = ascii "chunked" := by
  have ht := ht.values (ascii "Transfer-Encoding")
  have hl : toLower (ascii "chunked") = ascii "chunked" := by decide
  simp only [useChunked, headerAll_named]
  generalize valuesNamed (ascii "Transfer-Encoding") cur.headers = tes at ht
  constructor
  case mp =>
    intro h
    split at h
    · cases h
    split at h
    · cases h
    split at h
    · cases h
    case h_2 te more hm hn =>
      have hn : more = [] := by simpa using hn
      split at h
      case h_1 token hs =>
        have hte : te = token := (ht te (by simp)).symm.trans (splitList_singleton.mp hs).2
        split at h
        case isTrue hc =>
          exact ⟨Nat.le_of_not_lt hm, te, by rw [hn], hl ▸ hte ▸ equalsIgnoreCase_iff.mp hc⟩
        case isFalse => cases h
      case h_2 => cases h
  case mpr =>
    intro ⟨hm, te, hte, hc⟩
    have hn : ','.toUInt8 ∉ te := fun h => absurd (isTchar_of_chunked hc _ h) (by decide)
    have hs : splitList te = [te] := splitList_singleton.mpr ⟨hn, ht te (by simp [hte])⟩
    have he : equalsIgnoreCase te (ascii "chunked") = true :=
      equalsIgnoreCase_iff.mpr (hc.trans hl.symm)
    simp [hte, hs, he, Nat.not_lt_of_le hm]

theorem framing_eq_ok {fr : Framing} (ht : Trimmed cur.headers) :
    framing lim cur = .ok fr ↔ fr.Announced lim cur.minor cur.headers := by
  have hv := ht.values (ascii "Content-Length")
  constructor
  case mp =>
    intro h
    simp only [framing, headerAll_named] at h
    split at h
    · cases h
    case h_2 chunked hu =>
      split at h
      case h_1 hcl =>
        cases chunked <;> cases h
        case false => exact ⟨useChunked_false.mp hu, hcl⟩
        case true  => exact ⟨((useChunked_true ht).mp hu).1, hcl, ((useChunked_true ht).mp hu).2⟩
      case h_2 cl more hcl =>
        repeat' split at h
        all_goals cases h
        case h_2.isFalse.refl hc hm _ value hs _ n hn hl =>
          have hu : useChunked cur = .ok false := by simpa [hc] using hu
          have hm : more = [] := by simpa using hm
          have hcv : cl = value := (hv cl (by simp [hcl])).symm.trans (splitList_singleton.mp hs).2
          have ⟨hd, hn⟩ := parseContentLength_eq_some.mp hn
          exact ⟨useChunked_false.mp hu, by rw [hcl, hm, hcv, hd], hn, by omega⟩
  case mpr =>
    intro h
    match fr, h with
    | .absent, ⟨hte, hcl⟩ => simp [framing, useChunked_false.mpr hte, headerAll_named, hcl]
    | .chunked, ⟨h11, hcl, hte⟩ =>
      simp [framing, (useChunked_true ht).mpr ⟨h11, hte⟩, headerAll_named, hcl]
    | .length n, ⟨hte, hcl, hn, hm⟩ =>
      have hc : parseContentLength (decimal n) = some n := parseContentLength_eq_some.mpr ⟨rfl, hn⟩
      have hs : splitList (decimal n) = [decimal n] :=
        splitList_singleton.mpr ⟨not_mem_decimal (by decide), trimOws_decimal n⟩
      simp [framing, useChunked_false.mpr hte, headerAll_named, hcl, hs, hc, Nat.not_lt_of_le hm]

theorem framing_exceeds {n : Nat} (hte : valuesNamed (ascii "Transfer-Encoding") cur.headers = [])
    (hcl : valuesNamed (ascii "Content-Length") cur.headers = [decimal n]) (hn : n ≤ 2 ^ 52)
    (hm : lim.maxBodyBytes < n) :
    framing lim cur = .error ("Content-Length exceeds the body limit", true) := by
  have hc : parseContentLength (decimal n) = some n := parseContentLength_eq_some.mpr ⟨rfl, hn⟩
  have hs : splitList (decimal n) = [decimal n] :=
    splitList_singleton.mpr ⟨not_mem_decimal (by decide), trimOws_decimal n⟩
  simp [framing, useChunked_false.mpr hte, headerAll_named, hcl, hs, hc, hm]

theorem connectionTokens_eq (close keepAlive : Bool) (tokens : List Bytes)
    (h : ∀ o ∈ tokens.map toLower, o = [] ∨ o = ascii "close" ∨ o = ascii "keep-alive") :
    connectionTokens close keepAlive tokens = some
      (close || decide (ascii "close" ∈ tokens.map toLower),
        keepAlive || decide (ascii "keep-alive" ∈ tokens.map toLower)) := by
  induction tokens generalizing close keepAlive
  case nil => simp [connectionTokens]
  case cons token tokens hi =>
    simp only [List.map_cons, List.mem_cons, forall_eq_or_imp] at h ⊢
    have hc : ascii "close" ≠ [] := by decide
    have hk : ascii "keep-alive" ≠ [] := by decide
    have hn : ascii "keep-alive" ≠ ascii "close" := by decide
    match h.1 with
    | .inl ht        => simp [connectionTokens, ht, hi _ _ h.2, hc, hk]
    | .inr (.inl ht) => simp [connectionTokens, ht, hi _ _ h.2, hc, hn]
    | .inr (.inr ht) => simp [connectionTokens, ht, hi _ _ h.2, hk, hn, hn.symm]

theorem connectionTokens_ok {close keepAlive : Bool} {tokens : List Bytes} {r : Bool × Bool}
    (h : connectionTokens close keepAlive tokens = some r) :
    ∀ o ∈ tokens.map toLower, o = [] ∨ o = ascii "close" ∨ o = ascii "keep-alive" := by
  induction tokens generalizing close keepAlive
  case nil => simp
  case cons token tokens hi =>
    simp only [List.map_cons, List.mem_cons, forall_eq_or_imp]
    simp only [connectionTokens] at h
    split at h
    case isTrue ht => exact ⟨.inl (by simpa using ht), hi h⟩
    split at h
    case isTrue ht => exact ⟨.inr <| .inl ht, hi h⟩
    split at h
    case isTrue ht => exact ⟨.inr <| .inr ht, hi h⟩
    case isFalse   => cases h

-- The connection options of a header list.
def options (hs : List Header) : List Bytes :=
  ((valuesNamed (ascii "Connection") hs).flatMap splitList).map toLower

def OptionsKnown (hs : List Header) : Prop :=
  ∀ o ∈ options hs, o = [] ∨ o = ascii "close" ∨ o = ascii "keep-alive"

def keepsAlive (minor : Nat) (hs : List Header) : Bool :=
  !(options hs).contains (ascii "close") &&
  (decide (1 ≤ minor) || (options hs).contains (ascii "keep-alive"))

-- The end of `finish_headers`: the parser is made ready for the body that was announced.
def finishFraming (p : Parser) : Framing → HeadOutcome × Parser
  | .chunked => finishExpect { p with
      chunked := true, chunkRemaining := 0, expectChunkCrlf := false, state := .bodyChunked }
  | .length n =>
    if n > 0 then finishExpect { p with bodyRemaining := n, state := .bodyFixed }
    else (.requestReady, p)
  | .absent => (.requestReady, p)

theorem keepsAlive_eq_true {minor : Nat} {hs : List Header} : keepsAlive minor hs = true ↔
    ascii "close" ∉ options hs ∧ (1 ≤ minor ∨ ascii "keep-alive" ∈ options hs) := by
  simp [keepsAlive]

theorem keepsAlive_eq (minor : Nat) (hs : List Header) :
    (!decide (ascii "close" ∈ options hs) &&
      (if minor ≥ 1 then true else decide (ascii "keep-alive" ∈ options hs))) =
      keepsAlive minor hs := by
  by_cases hm : minor ≥ 1 <;> simp [hm, keepsAlive]

theorem finishHeaders_framed {fr : Framing} (ht : Trimmed p.cur.headers)
    (ho : OptionsKnown p.cur.headers) (hf : fr.Announced lim p.cur.minor p.cur.headers) :
    finishHeaders lim p = finishFraming { p with
      tooLarge := false
      cur      := { p.cur with keepAlive := keepsAlive p.cur.minor p.cur.headers } } fr := by
  have hc := connectionTokens_eq false false _ ho
  have hf : framing lim { p.cur with keepAlive := keepsAlive p.cur.minor p.cur.headers } = .ok fr :=
    (framing_eq_ok ht).mpr hf
  simp only [finishHeaders, headerAll_named, hc, Bool.false_or]
  rw [show List.map toLower _ = options p.cur.headers from rfl, keepsAlive_eq, hf]
  cases fr <;> rfl

theorem finishHeaders_exceeds {n : Nat} (ho : OptionsKnown p.cur.headers)
    (hte : valuesNamed (ascii "Transfer-Encoding") p.cur.headers = [])
    (hcl : valuesNamed (ascii "Content-Length") p.cur.headers = [decimal n]) (hn : n ≤ 2 ^ 52)
    (hm : lim.maxBodyBytes < n) :
    (finishHeaders lim p).1 = .error "Content-Length exceeds the body limit" ∧
      (finishHeaders lim p).2.tooLarge = true := by
  have hf (k : Bool) : framing lim { p.cur with keepAlive := k } =
      .error ("Content-Length exceeds the body limit", true) := framing_exceeds hte hcl hn hm
  simp [finishHeaders, headerAll_named, connectionTokens_eq false false _ ho, hf]

theorem finishHeaders_accepted (ht : Trimmed p.cur.headers)
    (h : ∀ err, (finishHeaders lim p).1 ≠ .error err) :
    OptionsKnown p.cur.headers ∧ ∃ fr : Framing, fr.Announced lim p.cur.minor p.cur.headers := by
  simp only [finishHeaders, headerAll_named] at h
  split at h
  case h_1 => exact absurd rfl (h _)
  case h_2 hc =>
    refine ⟨connectionTokens_ok hc, ?_⟩
    split at h
    case h_1 => exact absurd rfl (h _)
    case h_2 hf => exact ⟨_, (framing_eq_ok (by exact ht)).mp hf⟩
    case h_3 hf => exact ⟨_, (framing_eq_ok (by exact ht)).mp hf⟩
    case h_4 hf => exact ⟨_, (framing_eq_ok (by exact ht)).mp hf⟩

end Http.Parser
