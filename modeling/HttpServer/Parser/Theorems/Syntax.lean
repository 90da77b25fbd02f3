import HttpServer.Parser.Grammar
import HttpServer.Parser.Theorems.Pass

open Text

namespace Http

theorem hexDigit_isTchar : ∀ c, (hexDigit c).isSome → isTchar c = true :=
  forall_byte (by decide +kernel)

theorem methodFrom_options {m : Bytes} : methodFrom m = .options ↔ m = ascii "OPTIONS" := by
  constructor
  case mp =>
    simp only [methodFrom]
    intro h
    repeat' split at h
    all_goals first | assumption | cases h
  case mpr => exact fun h => h ▸ rfl

namespace Grammar

@[ext]
theorem RequestLine.ext {l₁ l₂ : RequestLine} (hm : l₁.method = l₂.method)
    (ht : l₁.target = l₂.target) (hv : l₁.version = l₂.version) : l₁ = l₂ := by
  cases l₁; cases l₂; simp_all

namespace RequestLine

theorem target_no_space (l : RequestLine) : sp ∉ l.target := by
  cases l.form
  case inl h => rw [h.1]; decide
  case inr h => exact h.space

theorem target_no_control (l : RequestLine) : ∀ c ∈ l.target, isControl c = false := by
  cases l.form
  case inl h => exact h.1 ▸ no_control_of_all (by decide)
  case inr h => exact h.control

theorem no_control (l : RequestLine) : ∀ c ∈ l.encode, isControl c = false := by
  have hv : ∀ c ∈ l.version.encode, isControl c = false :=
    no_control_of_all (by cases l.version <;> decide)
  simp only [encode, List.mem_append, List.mem_cons]
  intro c hc
  match hc with
  | .inl h               => exact isTchar_not_control c (isTchar_of_token l.token c h)
  | .inr (.inl h)        => exact h ▸ rfl
  | .inr (.inr (.inl h)) => exact l.target_no_control c h
  | .inr (.inr (.inr (.inl h))) => exact h ▸ rfl
  | .inr (.inr (.inr (.inr h))) => exact hv c h

theorem no_lf (l : RequestLine) : lf ∉ l.encode :=
  not_mem_of_no_control l.no_control (by decide)

-- What a request line writes to the request.
def apply (l : RequestLine) (out : Request) : Request :=
  { out with
    method := methodFrom l.method, methodName := l.method, major := 1, minor := l.version.minor,
    target := l.target }

end RequestLine

@[ext]
theorem FieldLine.ext {f₁ f₂ : FieldLine} (hn : f₁.name = f₂.name) (ht : f₁.text = f₂.text) :
    f₁ = f₂ := by
  cases f₁; cases f₂; simp_all

namespace FieldLine

theorem no_lf (f : FieldLine) : lf ∉ f.encode := by
  have hn : lf ∉ f.name := not_mem_token f.token (by decide)
  have ht : lf ∉ f.text := by
    intro h
    match mem_trim (p := isOws) h with
    | .inl h => exact absurd h (by decide)
    | .inr h =>
      have hv := List.all_eq_true.mp f.valid lf h
      exact absurd hv (by decide)
  have hc : lf ≠ ':'.toUInt8 := by decide
  simp [encode, hn, ht, hc]

theorem encode_ne_nil (f : FieldLine) : f.encode ≠ [] := by
  simp [encode]

-- What a field adds to the request.
def apply (f : FieldLine) (out : Request) : Request :=
  { out with headers := out.headers ++ [f.header] }

end FieldLine

@[ext]
theorem ChunkLine.ext {l₁ l₂ : ChunkLine} (hh : l₁.hex = l₂.hex)
    (he : l₁.extension = l₂.extension) : l₁ = l₂ := by
  cases l₁; cases l₂; simp_all

namespace ChunkLine

theorem not_mem_hex (l : ChunkLine) {x : Byte} (hx : isTchar x = false) : x ∉ l.hex :=
  fun h => by simp [hexDigit_isTchar x (l.digits x h)] at hx

theorem no_lf (l : ChunkLine) : lf ∉ l.encode := by
  have hh : lf ∉ l.hex := l.not_mem_hex (by decide)
  have hc : lf ≠ ';'.toUInt8 := by decide
  match he : l.extension with
  | none   => simp [encode, hh, he]
  | some e => simp [encode, hh, he, hc, l.line e he]

end ChunkLine
end Grammar

namespace Parser

open Grammar

variable {lim : ParserLimits} {out cur : Request} {l m t v : Bytes}

theorem parseRequestFields_inv (h : parseRequestFields lim m t v out = (.ok (), cur)) :
    validToken m = true ∧ (v = ascii "HTTP/1.0" ∨ v = ascii "HTTP/1.1") ∧
    (t = ascii "*" ∧ m = ascii "OPTIONS" ∨
      t.head? = some '/'.toUInt8 ∧ t[1]? ≠ some '/'.toUInt8 ∧ '#'.toUInt8 ∉ t) ∧
    cur = { out with
      method := methodFrom m, methodName := m, major := 1,
      minor := if v.getLast? = some '0'.toUInt8 then 0 else 1, target := t } := by
  simp only [parseRequestFields] at h
  generalize (if v.getLast? = some '0'.toUInt8 then 0 else 1) = minor at h ⊢
  split at h
  · cases h
  split at h
  · cases h
  case isFalse hm =>
    split at h
    · cases h
    case isFalse hv =>
      have hm : validToken m = true := by simpa using hm
      have hv : v = ascii "HTTP/1.0" ∨ v = ascii "HTTP/1.1" := by
        simpa [Classical.or_iff_not_imp_left] using hv
      split at h
      case isTrue ht =>
        split at h
        · cases h
        case isFalse ho =>
          have ho : m = ascii "OPTIONS" := methodFrom_options.mp (by simpa using ho)
          cases h
          exact ⟨hm, hv, .inl ⟨ht, ho⟩, rfl⟩
      case isFalse =>
        repeat' split at h
        all_goals cases h
        case isFalse.isFalse.isFalse.isFalse.refl h₁ h₂ h₃ _ =>
          have hf : '#'.toUInt8 ∉ t := find_none_iff.mp (by simpa using h₃)
          have hp : t[1]? ≠ some '/'.toUInt8 := by
            intro he
            obtain ⟨hl, _⟩ := List.getElem?_eq_some_iff.mp he
            rw [he] at h₂
            simp [hl] at h₂
          exact ⟨hm, hv, .inr ⟨by simpa using h₁, hp, hf⟩, rfl⟩

theorem parseRequestFields_line (r : RequestLine) (hl : r.target.length ≤ lim.maxRequestLineBytes) :
    parseRequestFields lim r.method r.target r.version.encode out = (.ok (), r.apply out) := by
  have hm := token_ne_nil r.token
  have hv : r.version.encode ≠ [] ∧ ¬(r.version.encode ≠ ascii "HTTP/1.0" ∧
      r.version.encode ≠ ascii "HTTP/1.1") ∧
      (if r.version.encode.getLast? = some '0'.toUInt8 then 0 else 1) = r.version.minor := by
    cases r.version <;> decide
  cases r.form
  case inl h =>
    have ho : methodFrom r.method = .options := methodFrom_options.mpr h.2
    have ht : ascii "*" ≠ [] := by decide
    simp [parseRequestFields, hm, hv, ht, h.1, r.token, ho, RequestLine.apply]
  case inr h =>
    have ht : r.target ≠ [] := fun he => by simpa [he] using h.slash
    have hn : r.target ≠ ascii "*" := fun he => absurd (he ▸ h.slash) (by decide)
    have hf : find r.target '#'.toUInt8 0 = none := find_none_iff.mpr h.fragment
    simp [parseRequestFields, hm, hv, ht, hn, h.slash, h.path, hf, hl, r.token, RequestLine.apply]

theorem drop_fields (m t v : Bytes) :
    (m ++ sp :: (t ++ sp :: v)).drop (m.length + 1 + t.length + 1) = v := by
  rw [show m ++ sp :: (t ++ sp :: v) = (m ++ sp :: (t ++ [sp])) ++ v by simp]
  exact List.drop_left' (by simp; omega)

theorem parseRequestLine_fields (hm : sp ∉ m) (ht : sp ∉ t) (hv : sp ∉ v)
    (hc : ∀ c ∈ m ++ sp :: (t ++ sp :: v), isControl c = false) :
    parseRequestLine lim (m ++ sp :: (t ++ sp :: v)) out = parseRequestFields lim m t v out := by
  have h₁ : find (m ++ sp :: (t ++ sp :: v)) sp 0 = some m.length := find_append hm
  have h₂ : find (m ++ sp :: (t ++ sp :: v)) sp (m.length + 1) = some (m.length + 1 + t.length) :=
    find_some_iff.mpr ⟨t, v, by simp, ht, rfl⟩
  have h₃ : find (m ++ sp :: (t ++ sp :: v)) sp (m.length + 1 + t.length + 1) = none :=
    find_none_iff.mpr (by rwa [drop_fields])
  have hs : substr (m ++ sp :: (t ++ sp :: v)) (m.length + 1) (m.length + 1 + t.length - m.length - 1) = t := by
    rw [show m.length + 1 + t.length - m.length - 1 = t.length by omega]
    simp [substr]
  have ha : (m ++ sp :: (t ++ sp :: v)).any isControl = false := by
    simpa only [List.any_eq_false, Bool.not_eq_true] using hc
  simp only [parseRequestLine, h₁, h₂, h₃, hs, drop_fields, ha]
  simp [substr]

theorem parseRequestLine_inv (h : parseRequestLine lim l out = (.ok (), cur)) :
    ∃ m t v, l = m ++ sp :: (t ++ sp :: v) ∧ sp ∉ m ∧ sp ∉ t ∧ sp ∉ v ∧
      ∀ c ∈ l, isControl c = false := by
  simp only [parseRequestLine] at h
  split at h
  · cases h
  split at h
  · cases h
  case isFalse hc =>
    have hc : ∀ c ∈ l, isControl c = false := by simpa using hc
    split at h
    · cases h
    case h_2 h₁ =>
      obtain ⟨m, r, hl, hm, hi⟩ := find_some_iff.mp h₁
      rw [List.drop_zero] at hl
      rw [Nat.zero_add] at hi
      subst hi
      split at h
      · cases h
      case h_2 h₂ =>
        obtain ⟨t, v, hr, ht, hi⟩ := find_some_iff.mp h₂
        have hr : r = t ++ sp :: v := by simpa [hl] using hr
        subst hi
        split at h
        · cases h
        case isFalse h₃ =>
          have hv := find_none_iff.mp (Option.not_isSome_iff_eq_none.mp h₃)
          rw [hl, hr, drop_fields] at hv
          exact ⟨m, t, v, by rw [hl, hr], hm, ht, hv, hc⟩

-- The lines that are accepted, and what they do.
theorem parseRequestLine_ok (h : parseRequestLine lim l out = (.ok (), cur)) :
    ∃ r : RequestLine, l = r.encode ∧ cur = r.apply out := by
  have ⟨m, t, v, hl, hm, ht, hv, hc⟩ := parseRequestLine_inv h
  have hc' := hl ▸ hc
  rw [hl, parseRequestLine_fields hm ht hv hc'] at h
  have ⟨hk, hv', hf, hcur⟩ := parseRequestFields_inv h
  have ⟨w, hw, hn⟩ : ∃ w : Version, w.encode = v ∧
      w.minor = if v.getLast? = some '0'.toUInt8 then 0 else 1 := by
    cases hv'
    case inl h => exact ⟨.http10, h.symm, by rw [h]; decide⟩
    case inr h => exact ⟨.http11, h.symm, by rw [h]; decide⟩
  have hf : _ ∨ OriginForm t := hf.imp_right fun ⟨h₁, h₂, h₃⟩ =>
    ⟨h₁, h₂, h₃, ht, fun c h => hc' c (by simp [h])⟩
  refine ⟨⟨m, t, w, hk, hf⟩, ?_, ?_⟩
  · rw [hl, RequestLine.encode, hw]
  · rw [hcur, RequestLine.apply, hn]

theorem parseRequestLine_encode (r : RequestLine)
    (hl : r.encode.length ≤ lim.maxRequestLineBytes) :
    parseRequestLine lim r.encode out = (.ok (), r.apply out) := by
  have hv : sp ∉ r.version.encode := by cases r.version <;> decide
  have ht : r.target.length ≤ lim.maxRequestLineBytes := by
    simp [RequestLine.encode] at hl
    omega
  rw [RequestLine.encode, parseRequestLine_fields (not_mem_token r.token (by decide))
    r.target_no_space hv r.no_control]
  exact parseRequestFields_line r ht

theorem parseHeaderLine_ok (h : parseHeaderLine lim l out = .ok cur) :
    ∃ f : FieldLine, l = f.encode ∧ out.headers.length < lim.maxHeaderFields ∧ cur = f.apply out := by
  simp only [parseHeaderLine] at h
  split at h
  · cases h
  split at h
  · cases h
  case h_2 hc =>
    obtain ⟨n, t, hl, _, hi⟩ := find_some_iff.mp hc
    rw [List.drop_zero] at hl
    rw [Nat.zero_add] at hi
    subst hl hi
    have hn : substr (n ++ ':'.toUInt8 :: t) 0 n.length = n := by simp [substr]
    have ht : (n ++ ':'.toUInt8 :: t).drop (n.length + 1) = t := by simp
    rw [hn, ht] at h
    repeat' split at h
    all_goals cases h
    case isFalse.isFalse.isFalse.isFalse.refl hk hv hm =>
      exact ⟨⟨n, t, by simpa using hk, by simpa using hv⟩, rfl, by simpa using hm, rfl⟩

theorem parseHeaderLine_line (f : FieldLine) (out : Request) :
    parseHeaderLine lim f.encode out =
      if out.headers.length ≥ lim.maxHeaderFields then .error ("too many header fields", true)
      else .ok (f.apply out) := by
  have hc : find f.encode ':'.toUInt8 0 = some f.name.length :=
    find_append (not_mem_token f.token (by decide))
  have hs : sp ∉ f.name := not_mem_token f.token (by decide)
  have ht : htab ∉ f.name := not_mem_token f.token (by decide)
  have hn := token_ne_nil f.token
  have hh : (f.encode.head? = some sp || f.encode.head? = some htab) = false := by
    match hf : f.name with
    | []     => exact absurd hf hn
    | c :: _ =>
      rw [hf] at hs ht
      simp_all [FieldLine.encode, eq_comm]
  have hv : f.encode.drop (f.name.length + 1) = f.text := by simp [FieldLine.encode]
  have hk : substr f.encode 0 f.name.length = f.name := by simp [FieldLine.encode, substr]
  simp only [parseHeaderLine, hc, hh, hv, hk]
  simp [FieldLine.apply, FieldLine.header, hn, f.token, f.valid]

theorem parseHeaderLine_encode (f : FieldLine) (hm : out.headers.length < lim.maxHeaderFields) :
    parseHeaderLine lim f.encode out = .ok (f.apply out) := by
  rw [parseHeaderLine_line, if_neg (Nat.not_le_of_lt hm)]

theorem parseHex_ok {n v : Nat} :
    parseHex v l = .ok n ↔ Numeral.read hexDigit 16 (2 ^ 52) v l = some n := by
  induction l generalizing v
  case nil => simp [parseHex, Numeral.read]
  case cons c cs hi =>
    simp only [parseHex, Numeral.read]
    cases hexDigit c
    case none => simp
    case some =>
      dsimp only
      split
      case isTrue  => simp
      case isFalse => exact hi

theorem chunkHex_encode (c : ChunkLine) : chunkHex c.encode = c.hex := by
  have hs : ';'.toUInt8 ∉ c.hex := c.not_mem_hex (by decide)
  match he : c.extension with
  | none =>
    have hf : find c.hex ';'.toUInt8 0 = none := find_none_iff.mpr hs
    simp [chunkHex, ChunkLine.encode, he, hf]
  | some e =>
    have hf : find (c.hex ++ ';'.toUInt8 :: e) ';'.toUInt8 0 = some c.hex.length := find_append hs
    simp [chunkHex, ChunkLine.encode, he, hf, substr]

theorem chunkHex_split (l : Bytes) :
    chunkHex l = l ∨ ∃ e, l = chunkHex l ++ ';'.toUInt8 :: e := by
  match hf : find l ';'.toUInt8 0 with
  | none   => exact .inl (by simp [chunkHex, hf])
  | some i => exact .inr ⟨_, by simpa [chunkHex, hf, substr] using (find_eq_some_split hf).symm⟩

theorem parseChunkSize_ok {n : Nat} (hl : lf ∉ l) (h : parseChunkSize l = .ok n) :
    ∃ c : ChunkLine, l = c.encode ∧ c.size = n ∧ n ≤ 2 ^ 52 := by
  simp only [parseChunkSize] at h
  split at h
  · cases h
  case isFalse hs =>
    have ⟨hd, hv, hm⟩ := (Numeral.read_eq_some (by omega) (by omega)).mp (parseHex_ok.mp h)
    simp only [Bool.or_eq_true, List.isEmpty_iff, decide_eq_true_eq, not_or, Nat.not_lt] at hs
    match chunkHex_split l with
    | .inl he =>
      exact ⟨⟨chunkHex l, none, hs.1, hs.2, hd, nofun⟩, by simp [ChunkLine.encode, he], hv, hm⟩
    | .inr ⟨e, he⟩ =>
      have hn : ∀ x ∈ some e, lf ∉ x := by
        simp only [Option.mem_some_iff, forall_eq']
        exact fun h => hl (he ▸ by simp [h])
      exact ⟨⟨chunkHex l, some e, hs.1, hs.2, hd, hn⟩, he, hv, hm⟩

theorem parseChunkSize_encode (c : ChunkLine) (hm : c.size ≤ 2 ^ 52) :
    parseChunkSize c.encode = .ok c.size := by
  have hr : Numeral.read hexDigit 16 (2 ^ 52) 0 c.hex = some c.size :=
    (Numeral.read_eq_some (by omega) (by omega)).mpr ⟨c.digits, rfl, hm⟩
  simp [parseChunkSize, chunkHex_encode, c.nonempty, Nat.not_lt_of_le c.short, parseHex_ok.mpr hr]

end Parser
end Http
