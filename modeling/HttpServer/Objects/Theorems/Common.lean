import HttpServer.Library.Numeral
import HttpServer.Objects.Common

open Text

namespace Http

@[simp]
theorem crlf_append (s : Bytes) : crlf ++ s = cr :: lf :: s :=
  rfl

@[simp]
theorem length_crlf : crlf.length = 2 :=
  rfl

theorem append_crlf_ne_nil (l : Bytes) : l ++ crlf ≠ [] := by
  simp [crlf]

theorem forall_byte {P : Byte → Prop} (h : ∀ n : Fin 256, P (UInt8.ofFin n)) (c : Byte) : P c :=
  UInt8.ofFin_toFin c ▸ h c.toFin

theorem isTchar_not_control : ∀ c, isTchar c = true → isControl c = false :=
  forall_byte (by decide +kernel)

variable {s t : Bytes} {x : Byte} {n : Nat}

theorem isTchar_of_token (h : validToken s = true) : ∀ c ∈ s, isTchar c = true := by
  simp only [validToken, Bool.and_eq_true, List.all_eq_true] at h
  exact h.2

theorem token_ne_nil (h : validToken s = true) : s ≠ [] := by
  simp only [validToken, Bool.and_eq_true, Bool.not_eq_true', List.isEmpty_eq_false_iff] at h
  exact h.1

theorem not_mem_token (h : validToken s = true) (hx : isTchar x = false) : x ∉ s :=
  fun hs => by simp [isTchar_of_token h x hs] at hx

theorem no_control_of_all (h : s.all (!isControl ·) = true) : ∀ c ∈ s, isControl c = false :=
  fun c hc => by simpa using List.all_eq_true.mp h c hc

theorem not_mem_of_no_control (h : ∀ c ∈ s, isControl c = false) (hx : isControl x = true) : x ∉ s :=
  fun hs => by simp [h x hs] at hx

-- The reasons are short texts of printable characters.
theorem statusReason_text (status : Nat) :
    (ascii (statusReason status)).all (fun c => !isControl c && c < 0x80) = true ∧
      (ascii (statusReason status)).length ≤ 31 := by
  simp only [statusReason]
  split <;> decide

theorem mem_statusReason {status : Nat} (h : x ∈ ascii (statusReason status)) :
    isControl x = false ∧ x < 0x80 := by
  simpa using List.all_eq_true.mp (statusReason_text status).1 x h

theorem isTchar_not_ows : ∀ c, isTchar c = true → isOws c = false :=
  forall_byte (by decide +kernel)

theorem isTchar_of_tolower : ∀ c, isTchar (tolower c) = true → isTchar c = true :=
  forall_byte (by decide +kernel)

theorem trimOws_of_tchars (h : ∀ c ∈ s, isTchar c = true) : trimOws s = s :=
  trim_eq_self (fun c hc => isTchar_not_ows c (h c (List.mem_of_head? hc)))
    (fun c hc => isTchar_not_ows c (h c (List.mem_of_getLast? hc)))

theorem trimOws_trimOws (s : Bytes) : trimOws (trimOws s) = trimOws s :=
  trim_trim isOws s

theorem equalsIgnoreCase_iff : equalsIgnoreCase s t = true ↔ toLower s = toLower t := by
  simp only [equalsIgnoreCase, toLower]
  induction s generalizing t <;> cases t
  case cons.cons hi _ _ =>
    simp only [List.length_cons, List.zip_cons_cons, List.all_cons, List.map_cons, List.cons.injEq, ← hi]
    simp
    tauto
  all_goals simp

-- A list of one element is that element, up to whitespace around it.
theorem splitList_singleton : splitList s = [t] ↔ ','.toUInt8 ∉ s ∧ trimOws s = t := by
  constructor
  case mp =>
    intro h
    simp only [splitList, List.map_eq_singleton_iff] at h
    have ⟨u, hs, ht⟩ := h
    have hn := not_mem_of_split_singleton hs
    rw [split_of_not_mem hn] at hs
    cases hs
    exact ⟨hn, ht⟩
  case mpr =>
    intro ⟨hn, ht⟩
    simp [splitList, split_of_not_mem hn, ht]

def decDigit (c : Byte) : Option Nat :=
  if '0'.toUInt8 ≤ c && c ≤ '9'.toUInt8 then some (c - '0'.toUInt8).toNat else none

theorem decDigit_eq (c : Byte) : decDigit c =
    if c < '0'.toUInt8 || c > '9'.toUInt8 then none else some (c - '0'.toUInt8).toNat := by
  grind [decDigit]

theorem decDigit_lt : ∀ c d, decDigit c = some d → d < 10 := by
  have h : ∀ c, ∀ d ∈ decDigit c, d < 10 := forall_byte (by decide +kernel)
  exact h

theorem decDigit_eq_some (c : Byte) (d : Nat) (h : decDigit c = some d) :
    c = '0'.toUInt8 + UInt8.ofNat d := by
  simp only [decDigit] at h
  split at h <;> cases h
  rw [UInt8.ofNat_toNat, UInt8.add_comm, UInt8.sub_add_cancel]

theorem decDigit_isTchar : ∀ c, (decDigit c).isSome → isTchar c = true :=
  forall_byte (by decide +kernel)

theorem decDigit_digitChar (h : n < 10) : decDigit n.digitChar.toUInt8 = some n := by
  have h' : ∀ n : Fin 10, decDigit (Nat.digitChar n).toUInt8 = some n.val := by decide
  exact h' ⟨n, h⟩

-- The last digit comes off the end.
theorem decimal_eq (n : Nat) :
    decimal n = if n < 10 then [n.digitChar.toUInt8]
      else decimal (n / 10) ++ [(n % 10).digitChar.toUInt8] := by
  rw [decimal, Nat.toDigits_eq_if (by omega)]
  split <;> simp [decimal]

theorem decimal_ne_nil (n : Nat) : decimal n ≠ [] := by
  simp [decimal, Nat.toDigits_ne_nil]

theorem decimal_digits (n : Nat) : ∀ c ∈ decimal n, (decDigit c).isSome := by
  induction n using Nat.strongRecOn
  case ind n hi =>
    rw [decimal_eq]
    split
    case isTrue h => simp [decDigit_digitChar h]
    case isFalse h =>
      simp only [List.mem_append, List.mem_singleton]
      intro c hc
      match hc with
      | .inl hc => exact hi _ (by omega) c hc
      | .inr hc => simp [hc, decDigit_digitChar (Nat.mod_lt n (by omega))]

theorem decimal_value (n : Nat) : Numeral.valueFrom decDigit 10 0 (decimal n) = n := by
  induction n using Nat.strongRecOn
  case ind n hi =>
    rw [decimal_eq]
    split
    case isTrue h => simp [Numeral.valueFrom, decDigit_digitChar h]
    case isFalse h =>
      have hd := decDigit_digitChar (Nat.mod_lt n (show 10 > 0 by omega))
      rw [Numeral.valueFrom_append, hi _ (by omega)]
      simp only [Numeral.valueFrom, List.foldl_cons, List.foldl_nil, hd, Option.getD_some]
      omega

theorem decimal_leading (h : 0 < n) : ∀ c ∈ (decimal n).head?, decDigit c ≠ some 0 := by
  induction n using Nat.strongRecOn
  case ind n hi =>
    rw [decimal_eq]
    split
    case isTrue hn => simp [decDigit_digitChar hn, Nat.ne_of_gt h]
    case isFalse hn =>
      have hh : (decimal (n / 10) ++ [(n % 10).digitChar.toUInt8]).head? = (decimal (n / 10)).head? := by
        cases hd : decimal (n / 10)
        case nil  => exact absurd hd (decimal_ne_nil _)
        case cons => rfl
      rw [hh]
      exact hi _ (by omega) (by omega)

theorem decimal_canonical (n : Nat) : Numeral.Canonical decDigit (decimal n) where
  digits   := decimal_digits n
  nonempty := decimal_ne_nil n
  leading  := by
    intro h
    by_cases hn : 0 < n
    case pos => exact decimal_leading hn
    case neg =>
      have hn : n = 0 := by omega
      rw [hn] at h
      exact absurd h (by decide)

-- A canonical numeral is the decimal numeral of its value.
theorem eq_decimal (h : Numeral.Canonical decDigit s) :
    s = decimal (Numeral.valueFrom decDigit 10 0 s) :=
  have hi x y d (hx : decDigit x = some d) (hy : decDigit y = some d) : x = y :=
    (decDigit_eq_some x d hx).trans (decDigit_eq_some y d hy).symm
  Numeral.Canonical.unique hi decDigit_lt h (decimal_canonical _) (decimal_value _).symm

theorem not_mem_decimal (hx : isTchar x = false) : x ∉ decimal n :=
  fun h => by simp [decDigit_isTchar x (decimal_digits n x h)] at hx

theorem length_decimal (h : n ≤ 2 ^ 52) : (decimal n).length ≤ 19 := by
  rw [decimal, List.length_map]
  exact (Nat.length_toDigits_le_iff (by omega) (by omega)).mpr (by omega)

theorem parseDigits_eq (v : Nat) (s : Bytes) :
    parseDigits v s = Numeral.read decDigit 10 (2 ^ 52) v s := by
  induction s generalizing v
  case nil => rfl
  case cons c cs hi =>
    simp only [parseDigits, Numeral.read, decDigit_eq]
    split
    case isTrue  => rfl
    case isFalse => simp only [hi]

theorem trimOws_decimal (n : Nat) : trimOws (decimal n) = decimal n :=
  trimOws_of_tchars fun c hc => decDigit_isTchar c (decimal_digits n c hc)

-- A length has just one spelling.
theorem parseContentLength_eq_some :
    parseContentLength s = some n ↔ s = decimal n ∧ n ≤ 2 ^ 52 := by
  have hr : parseDigits 0 s = some n ↔ _ :=
    parseDigits_eq 0 s ▸ Numeral.read_eq_some (by omega) (by omega)
  constructor
  case mp =>
    simp only [parseContentLength]
    intro h
    split at h
    · cases h
    split at h
    · cases h
    case isFalse hs hz =>
      have ⟨hd, hv, hm⟩ := hr.mp h
      refine ⟨hv ▸ eq_decimal ⟨hd, fun he => by simp [he] at hs, fun hl c hc h0 => ?_⟩, hm⟩
      have h0 : c = '0'.toUInt8 := decDigit_eq_some c 0 h0
      rw [Option.mem_def.mp hc, h0] at hz
      simp [hl] at hz
  case mpr =>
    intro ⟨hs, hm⟩
    have hv : parseDigits 0 s = some n :=
      hr.mpr ⟨hs ▸ decimal_digits n, hs ▸ decimal_value n, hm⟩
    have hz : ¬(s.length > 1 && s.head? == some '0'.toUInt8) = true := by
      simp only [Bool.and_eq_true, decide_eq_true_eq, beq_iff_eq]
      intro ⟨hl, hh⟩
      exact (decimal_canonical n).leading (hs ▸ hl) _ (hs ▸ hh) (by decide)
    have hl : s.length ≤ 19 := hs ▸ length_decimal hm
    have hn : s ≠ [] := hs ▸ decimal_ne_nil n
    simp only [parseContentLength, hz, hv]
    simp [hn, Nat.not_lt_of_le hl]

end Http
