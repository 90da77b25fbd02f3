import Mathlib.Algebra.Group.Nat.Defs
import Mathlib.Tactic.Common
import Mathlib.Data.List.Induction

namespace Numeral

variable {α : Type*} {digit : α → Option Nat} {b max v n : Nat} {s t : List α} {c : α}

-- The value of a numeral in base `b` that goes on from the value `v` of the digits read so far.
-- Other characters count as zero.
def valueFrom (digit : α → Option Nat) (b v : Nat) (s : List α) : Nat :=
  s.foldl (fun v c => v * b + (digit c).getD 0) v

-- A reader that gives up at the first character that is no digit, and as soon as the value
-- exceeds `max`.
def read (digit : α → Option Nat) (b max : Nat) : Nat → List α → Option Nat
  | v, [] => some v
  | v, c :: cs => match digit c with
    | none   => none
    | some d => if v * b + d > max then none else read digit b max (v * b + d) cs

theorem valueFrom_append (v : Nat) (s t : List α) :
    valueFrom digit b v (s ++ t) = valueFrom digit b (valueFrom digit b v s) t := by
  simp [valueFrom]

theorem le_valueFrom (hb : 0 < b) (v : Nat) (s : List α) : v ≤ valueFrom digit b v s := by
  induction s generalizing v
  case nil => exact Nat.le_refl v
  case cons c cs hi =>
    have h : v ≤ v * b + (digit c).getD 0 := Nat.le_add_right_of_le (Nat.le_mul_of_pos_right v hb)
    exact Nat.le_trans h (hi _)

-- Since values only grow, it does not matter that the bound is checked at every digit.
theorem read_eq_some (hb : 0 < b) (hv : v ≤ max) :
    read digit b max v s = some n ↔
      (∀ c ∈ s, (digit c).isSome) ∧ valueFrom digit b v s = n ∧ n ≤ max := by
  induction s generalizing v
  case nil =>
    simp only [read, valueFrom, List.foldl_nil, Option.some.injEq]
    exact ⟨fun h => ⟨by simp, h, h ▸ hv⟩, fun h => h.2.1⟩
  case cons c cs hi =>
    simp only [read, valueFrom, List.foldl_cons, List.mem_cons, forall_eq_or_imp]
    cases hd : digit c
    case none => simp
    case some d =>
      have hl : v * b + d ≤ valueFrom digit b (v * b + d) cs := le_valueFrom hb ..
      simp only [Option.isSome_some, true_and, Option.getD_some]
      split
      case isFalse hm => exact hi (by omega)
      case isTrue hm =>
        refine ⟨nofun, fun ⟨_, h₁, h₂⟩ => ?_⟩
        simp only [valueFrom] at hl
        omega

-- The numerals without superfluous zeros.
structure Canonical (digit : α → Option Nat) (s : List α) : Prop where
  digits   : ∀ c ∈ s, (digit c).isSome
  nonempty : s ≠ []
  leading  : 1 < s.length → ∀ c ∈ s.head?, digit c ≠ some 0

theorem Canonical.init (h : Canonical digit (s ++ [c])) (hs : s ≠ []) : Canonical digit s where
  digits d hd := h.digits d (List.mem_append_left _ hd)
  nonempty := hs
  leading _ := by
    have hl : 1 < (s ++ [c]).length := by simpa using List.length_pos_iff.mpr hs
    match s, hs with
    | _ :: _, _ => simpa using h.leading hl

theorem Canonical.pos (hb : 0 < b) (h : Canonical digit (s ++ [c])) (hs : s ≠ []) :
    0 < valueFrom digit b 0 s := by
  match s, hs with
  | x :: xs, _ =>
    have hx := h.digits x (by simp)
    have hz := h.leading (by simp) x (by simp)
    have ⟨d, hd⟩ := Option.isSome_iff_exists.mp hx
    have hd' : 0 < d := Nat.pos_of_ne_zero fun h => hz (h ▸ hd)
    have hl : d ≤ valueFrom digit b d xs := le_valueFrom hb ..
    simpa [valueFrom, hd] using Nat.lt_of_lt_of_le hd' hl

-- A number has just one canonical numeral.
theorem Canonical.unique (hi : ∀ x y d, digit x = some d → digit y = some d → x = y)
    (hb : ∀ x d, digit x = some d → d < b) (h₁ : Canonical digit s) (h₂ : Canonical digit t)
    (h : valueFrom digit b 0 s = valueFrom digit b 0 t) : s = t := by
  induction s using List.reverseRecOn generalizing t
  case nil => exact absurd rfl h₁.nonempty
  case append_singleton s x ih =>
    match t, List.eq_nil_or_concat t with
    | _, .inl h => exact absurd h h₂.nonempty
    | _, .inr ⟨t, y, rfl⟩ =>
      rw [List.concat_eq_append] at h h₂ ⊢
      have ⟨d, hd⟩ := Option.isSome_iff_exists.mp (h₁.digits x (by simp))
      have ⟨e, he⟩ := Option.isSome_iff_exists.mp (h₂.digits y (by simp))
      have hdb := hb x d hd
      have heb := hb y e he
      have h' : valueFrom digit b 0 s * b + d = valueFrom digit b 0 t * b + e := by
        simpa [valueFrom, hd, he] using h
      have hde : d = e := by simpa [Nat.mod_eq_of_lt, hdb, heb] using congrArg (· % b) h'
      have hst : valueFrom digit b 0 s = valueFrom digit b 0 t := by
        rw [hde] at h'
        exact Nat.eq_of_mul_eq_mul_right (Nat.zero_lt_of_lt hdb) (Nat.add_right_cancel h')
      have hxy := hi x y d hd (hde ▸ he)
      have hb0 : 0 < b := Nat.zero_lt_of_lt hdb
      by_cases hs : s = [] <;> by_cases ht : t = []
      · rw [hs, ht, hxy]
      · exact absurd (h₂.pos hb0 ht) (by rw [← hst, hs]; exact Nat.lt_irrefl 0)
      · exact absurd (h₁.pos hb0 hs) (by rw [hst, ht]; exact Nat.lt_irrefl 0)
      · rw [ih (h₁.init hs) (h₂.init ht) hst, hxy]

end Numeral
