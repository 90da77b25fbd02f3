import HttpServer.Parser.Theorems.Limits

open Text

namespace Http.Parser

-- The readers of numbers with the type that their loops compute in, where arithmetic wraps.
def parseDigits64 : UInt64 → Bytes → Option UInt64
  | v, [] => some v
  | v, c :: cs =>
    if c < '0'.toUInt8 || c > '9'.toUInt8 then none
    else
      let v' := v * 10 + (c - '0'.toUInt8).toUInt64
      if v' > (1 : UInt64) <<< 52 then none else parseDigits64 v' cs

def parseContentLength64 (value : Bytes) : Option UInt64 :=
  if value.isEmpty || value.length > 19 then none
  else if value.length > 1 && value.head? == some '0'.toUInt8 then none
  else parseDigits64 0 value

def parseHex64 : UInt64 → Bytes → LineResult UInt64
  | v, [] => .ok v
  | v, c :: cs => match hexDigit c with
    | none => .error ("malformed chunk size", false)
    | some d =>
      let v' := v * 16 + UInt64.ofNat d
      if v' > (1 : UInt64) <<< 52 then .error ("chunk size out of range", true) else parseHex64 v' cs

def parseChunkSize64 (line : Bytes) : LineResult UInt64 :=
  let hex := chunkHex line
  if hex.isEmpty || hex.length > 16 then .error ("malformed chunk size", false)
  else parseHex64 0 hex

-- The value of a hex digit of either case: its place among the digits.
def hexIndex (c : Byte) : Option Nat :=
  (ascii "0123456789abcdef").idxOf? (tolower c)

-- A chunk-size line for the number `n`: `hex` is what it has before its first semicolon.
structure SizeLine (hex line : Bytes) (n : Nat) : Prop where
  front    : line = hex ∨ ∃ extension, line = hex ++ ';'.toUInt8 :: extension
  first    : ';'.toUInt8 ∉ hex
  nonempty : 1 ≤ hex.length
  short    : hex.length ≤ 16
  digits   : ∀ c ∈ hex, (hexIndex c).isSome
  value    : Numeral.valueFrom hexIndex 16 0 hex = n
  range    : n ≤ 2 ^ 52

variable {v d k : UInt64} {s line hex : Bytes} {n : Nat}

theorem hexDigit_eq_hexIndex : ∀ c, hexDigit c = hexIndex c :=
  forall_byte (by decide +kernel)

theorem hexIndex_semicolon : hexIndex ';'.toUInt8 = none := by
  decide

-- One round of the loops: the value read so far is in range, and the next digit is a small number.
theorem toNat_digit (hv : v.toNat ≤ 2 ^ 52) (hk : k.toNat ≤ 16) (hd : d.toNat < 256) :
    (v * k + d).toNat = v.toNat * k.toNat + d.toNat := by
  have hm : v.toNat * k.toNat ≤ 2 ^ 52 * 16 := Nat.mul_le_mul hv hk
  have hw : v.toNat * k.toNat < 2 ^ 64 := by omega
  rw [UInt64.toNat_add, UInt64.toNat_mul, Nat.mod_eq_of_lt hw]
  exact Nat.mod_eq_of_lt (by omega)

theorem exceeds_range (v : UInt64) : v > (1 : UInt64) <<< 52 ↔ v.toNat > 2 ^ 52 := by
  have hr : ((1 : UInt64) <<< 52).toNat = 2 ^ 52 := by decide
  rw [gt_iff_lt, UInt64.lt_iff_toNat_lt, hr]

theorem parseDigits64_toNat (hv : v.toNat ≤ 2 ^ 52) :
    (parseDigits64 v s).map UInt64.toNat = parseDigits v.toNat s := by
  induction s generalizing v
  case nil => rfl
  case cons c cs hi =>
    have hd : (c - '0'.toUInt8).toUInt64.toNat = (c - '0'.toUInt8).toNat :=
      UInt8.toNat_toUInt64 _
    have hn : (v * 10 + (c - '0'.toUInt8).toUInt64).toNat = v.toNat * 10 + (c - '0'.toUInt8).toNat := by
      rw [toNat_digit hv (by decide) (hd ▸ UInt8.toNat_lt _), hd]
      rfl
    simp only [parseDigits64, parseDigits, exceeds_range, hn]
    split
    · rfl
    · split
      case isTrue     => rfl
      case isFalse hm => exact hn ▸ hi (by omega)

theorem parseHex64_toNat (hv : v.toNat ≤ 2 ^ 52) :
    (parseHex64 v s).map UInt64.toNat = parseHex v.toNat s := by
  induction s generalizing v
  case nil => rfl
  case cons c cs hi =>
    simp only [parseHex64, parseHex]
    cases hc : hexDigit c
    case none => rfl
    case some d =>
      have hl : d < 16 := Strict.hexDigit_lt c d hc
      have hd : (UInt64.ofNat d).toNat = d := by simp; omega
      have hn : (v * 16 + UInt64.ofNat d).toNat = v.toNat * 16 + d := by
        rw [toNat_digit hv (by decide) (by omega), hd]
        rfl
      simp only [exceeds_range, hn]
      split
      case isTrue     => rfl
      case isFalse hm => exact hn ▸ hi (by omega)

theorem parseContentLength64_toNat (s : Bytes) :
    (parseContentLength64 s).map UInt64.toNat = parseContentLength s := by
  have hp : (parseDigits64 0 s).map UInt64.toNat = _ := parseDigits64_toNat (by decide)
  simp only [parseContentLength64, parseContentLength]
  split
  · rfl
  · split
    · rfl
    · exact hp

theorem parseChunkSize64_toNat (line : Bytes) :
    (parseChunkSize64 line).map UInt64.toNat = parseChunkSize line := by
  have hp : (parseHex64 0 (chunkHex line)).map UInt64.toNat = _ := parseHex64_toNat (by decide)
  simp only [parseChunkSize64, parseChunkSize]
  split
  · rfl
  · exact hp

theorem SizeLine.chunkHex (h : SizeLine hex line n) : chunkHex line = hex := by
  obtain hl | ⟨e, hl⟩ := h.front
  · have hf : find hex ';'.toUInt8 0 = none := find_none_iff.mpr h.first
    simp [Parser.chunkHex, hl, hf]
  · have hf : find (hex ++ ';'.toUInt8 :: e) ';'.toUInt8 0 = some hex.length := find_append h.first
    simp [Parser.chunkHex, hl, hf, substr]

theorem parseChunkSize_iff : parseChunkSize line = .ok n ↔ ∃ hex, SizeLine hex line n := by
  have he : hexDigit = hexIndex := funext hexDigit_eq_hexIndex
  have hr (hex : Bytes) : parseHex 0 hex = .ok n ↔ _ :=
    parseHex_ok.trans (Numeral.read_eq_some (by omega) (by omega))
  rw [he] at hr
  constructor
  case mp =>
    simp only [parseChunkSize]
    intro h
    split at h
    case isTrue => cases h
    case isFalse hs =>
      simp only [Bool.or_eq_true, List.isEmpty_iff, decide_eq_true_eq, not_or, Nat.not_lt] at hs
      obtain ⟨hd, hv, hm⟩ := (hr _).mp h
      refine ⟨Parser.chunkHex line, ?_, fun hc => ?_, List.length_pos_iff.mpr hs.1, hs.2, hd, hv, hm⟩
      · exact (chunkHex_split line).imp_left Eq.symm
      · have hx := hd _ hc
        simp [hexIndex_semicolon] at hx
  case mpr =>
    rintro ⟨hex, h⟩
    have hn : hex ≠ [] := List.length_pos_iff.mp h.nonempty
    have hv : parseHex 0 hex = .ok n := (hr hex).mpr ⟨h.digits, h.value, h.range⟩
    simp [parseChunkSize, h.chunkHex, hn, Nat.not_lt_of_le h.short, hv]

-- The lengths of bodies and chunks are just what their texts say. No step of the computation leaves
-- the 64 bits that it is done in, so it does not matter that these would wrap.
theorem numbers_exact (s : Bytes) :
    (∀ n, parseContentLength s = some n ↔ s = decimal n ∧ n ≤ 2 ^ 52) ∧
    (∀ n, parseChunkSize s = .ok n ↔ ∃ hex, SizeLine hex s n) ∧
    Strict.parseContentLength word64 s = some (parseContentLength s) ∧
    Strict.parseChunkSize word64 s = some (parseChunkSize s) ∧
    (parseContentLength64 s).map UInt64.toNat = parseContentLength s ∧
    (parseChunkSize64 s).map UInt64.toNat = parseChunkSize s := by
  have hf : ∀ n ≤ 2 ^ 57, word64 n = true := fun n hn => by simp [word64]; omega
  refine ⟨fun n => parseContentLength_eq_some, fun n => parseChunkSize_iff, ?_, ?_, ?_, ?_⟩
  · exact Strict.parseContentLength_eq hf (Nat.le_refl _)
  · exact Strict.parseChunkSize_eq hf (Nat.le_refl _)
  · exact parseContentLength64_toNat s
  · exact parseChunkSize64_toNat s

example : parseContentLength64 (ascii "4503599627370496") = some ((1 : UInt64) <<< 52) := by decide
example : parseContentLength64 (ascii "4503599627370497") = none := by decide

end Http.Parser
