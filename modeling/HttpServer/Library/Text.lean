import Mathlib.Algebra.Group.Nat.Defs
import Mathlib.Tactic.Common
import Mathlib.Data.List.Infix
import Mathlib.Data.List.DropRight

namespace Text

variable {α : Type*} [DecidableEq α] {s t a b : List α} {c : α} {pos i : Nat}

-- The position of the first occurrence of `c` at or behind `pos`.
def find (s : List α) (c : α) (pos : Nat) : Option Nat :=
  (s.drop pos).findIdx? (· == c) |>.map (pos + ·)

-- At most `len` elements of `s` from position `pos` on.
def substr (s : List α) (pos len : Nat) : List α :=
  (s.drop pos).take len

theorem findIdx?_beq_append (h : c ∉ a) : (a ++ c :: b).findIdx? (· == c) = some a.length := by
  have hn : a.findIdx? (· == c) = none := by
    simp only [List.findIdx?_eq_none_iff, beq_eq_false_iff_ne]
    exact fun x hx he => h (he ▸ hx)
  simp [List.findIdx?_append, hn, List.findIdx?_cons]

theorem split_of_mem (h : c ∈ s) : ∃ a b, s = a ++ c :: b ∧ c ∉ a := by
  induction s
  case nil => cases h
  case cons x xs hi =>
    by_cases hx : x = c
    case pos => exact ⟨[], xs, by simp [hx], by simp⟩
    case neg =>
      have ⟨a, b, hs, ha⟩ := hi (by simpa [Ne.symm hx] using h)
      exact ⟨x :: a, b, by simp [hs], by simp [ha, Ne.symm hx]⟩

theorem find_none_iff : find s c pos = none ↔ c ∉ s.drop pos := by
  simp only [find, Option.map_eq_none_iff, List.findIdx?_eq_none_iff, beq_eq_false_iff_ne]
  exact ⟨fun h hc => h c hc rfl, fun h x hx he => h (he ▸ hx)⟩

theorem find_some_iff :
    find s c pos = some i ↔ ∃ a b, s.drop pos = a ++ c :: b ∧ c ∉ a ∧ i = pos + a.length := by
  constructor
  case mp =>
    intro h
    have hm : c ∈ s.drop pos := by
      by_contra hc
      simp [find_none_iff.mpr hc] at h
    have ⟨a, b, hs, ha⟩ := split_of_mem hm
    simp only [find, hs, findIdx?_beq_append ha, Option.map_some, Option.some.injEq] at h
    exact ⟨a, b, hs, ha, h.symm⟩
  case mpr =>
    intro ⟨a, b, hs, ha, hi⟩
    simp [find, hs, findIdx?_beq_append ha, hi]

theorem find_append (h : c ∉ a) : find (a ++ c :: b) c 0 = some a.length :=
  find_some_iff.mpr ⟨a, b, rfl, h, by simp⟩

theorem find_eq_some_split (h : find s c 0 = some i) : s.take i ++ c :: s.drop (i + 1) = s := by
  have ⟨a, b, hs, _, hi⟩ := find_some_iff.mp h
  rw [List.drop_zero] at hs
  simp [hs, hi]

theorem find_some_lt (h : find s c pos = some i) : i < s.length := by
  have ⟨a, b, hs, _, hi⟩ := find_some_iff.mp h
  have hl := congrArg List.length hs
  simp at hl
  omega

theorem find_some_le (h : find s c pos = some i) : pos ≤ i := by
  have ⟨a, _, _, _, hi⟩ := find_some_iff.mp h
  omega

-- A search from a position inside the text looks at one element at a time.
theorem find_here (hi : i < s.length) (h : s[i] = c) : find s c i = some i := by
  refine find_some_iff.mpr ⟨[], s.drop (i + 1), ?_, by simp, by simp⟩
  rw [List.drop_eq_getElem_cons hi, h, List.nil_append]

theorem find_next (hi : i < s.length) (h : s[i] ≠ c) : find s c (i + 1) = find s c i := by
  simp only [find, List.drop_eq_getElem_cons hi, List.findIdx?_cons, beq_eq_false_iff_ne.mpr h]
  simp [Nat.add_assoc, Nat.add_comm 1, Function.comp_def]

-- A search may be resumed behind a prefix that is known not to hold `c`.
theorem find_resume (hp : pos ≤ s.length) (h : c ∉ s.take pos) : find s c pos = find s c 0 := by
  cases hf : find s c pos
  case none =>
    have hd := find_none_iff.mp hf
    refine (find_none_iff.mpr ?_).symm
    rw [List.drop_zero]
    intro hm
    rw [← List.take_append_drop pos s] at hm
    exact (List.mem_append.mp hm).elim h hd
  case some i =>
    have ⟨a, b, hs, ha, hi⟩ := find_some_iff.mp hf
    refine (find_some_iff.mpr ⟨s.take pos ++ a, b, ?_, by simp [h, ha], ?_⟩).symm
    · rw [List.drop_zero, List.append_assoc, ← hs, List.take_append_drop]
    · simp [hi, hp]

-- Two splits of one text at the first occurrence of `c` are the same split.
theorem split_unique {a₁ a₂ b₁ b₂ : List α} (h₁ : c ∉ a₁) (h₂ : c ∉ a₂)
    (h : a₁ ++ c :: b₁ = a₂ ++ c :: b₂) : a₁ = a₂ ∧ b₁ = b₂ := by
  have hl : a₁.length = a₂.length := by
    have := congrArg (List.findIdx? (· == c)) h
    simpa [findIdx?_beq_append h₁, findIdx?_beq_append h₂] using this
  have ⟨ha, hb⟩ := List.append_inj h hl
  exact ⟨ha, (List.cons.inj hb).right⟩

-- The pieces of `s` between the occurrences of `c`; there is always at least one.
def split (c : α) : List α → List (List α)
  | [] => [[]]
  | x :: xs =>
    if x = c then [] :: split c xs
    else match split c xs with
      | [] => [[x]]
      | p :: ps => (x :: p) :: ps

theorem split_ne_nil (c : α) (s : List α) : split c s ≠ [] := by
  cases s <;> simp only [split]
  case nil  => simp
  case cons => split <;> try split
               all_goals simp

theorem split_of_not_mem (h : c ∉ s) : split c s = [s] := by
  induction s
  case nil => rfl
  case cons x xs hi =>
    simp at h
    simp [split, Ne.symm h.left, hi h.right]

theorem split_append (h : c ∉ a) : split c (a ++ c :: b) = a :: split c b := by
  induction a
  case nil => simp [split]
  case cons x xs hi =>
    simp at h
    simp [split, Ne.symm h.left, hi h.right]

-- Only a text without the separator is a single piece.
theorem not_mem_of_split_singleton (h : split c s = [t]) : c ∉ s := by
  induction s generalizing t
  case nil => simp
  case cons x xs hi =>
    simp only [split] at h
    split at h
    case isTrue => simp [split_ne_nil] at h
    case isFalse hx =>
      split at h
      case h_1 hs => exact absurd hs (split_ne_nil c xs)
      case h_2 p ps hs =>
        simp at h
        have := hi (h.right ▸ hs)
        simp [this, Ne.symm hx]

end Text

namespace Text

variable {α : Type*} {p : α → Bool} {s : List α} {c : α}

-- Removes the elements with property `p` from both ends.
def trim (p : α → Bool) (s : List α) : List α :=
  (s.dropWhile p).rdropWhile p

theorem mem_trim (h : c ∈ s) : p c = true ∨ c ∈ trim p s := by
  rw [← List.takeWhile_append_dropWhile (p := p) (l := s), List.mem_append] at h
  match h with
  | .inl h => exact .inl (List.mem_takeWhile_imp h)
  | .inr h =>
    rw [← List.rdropWhile_append_rtakeWhile (p := p) (l := s.dropWhile p), List.mem_append] at h
    exact h.symm.imp_left List.mem_rtakeWhile_imp

-- A text is trimmed if it neither starts nor ends with such an element.
theorem trim_eq_self (hh : ∀ c ∈ s.head?, p c = false) (hl : ∀ c ∈ s.getLast?, p c = false) :
    trim p s = s := by
  have hd : s.dropWhile p = s := by
    match s with
    | [] => rfl
    | c :: cs => exact List.dropWhile_cons_of_neg (by simpa using hh c rfl)
  rw [trim, hd]
  refine List.rdropWhile_eq_self_iff.mpr fun hn => ?_
  simpa using hl _ (List.getLast?_eq_some_getLast hn)

theorem trim_trim (p : α → Bool) (s : List α) : trim p (trim p s) = trim p s := by
  refine trim_eq_self (fun c hc => ?_) (fun c hc => ?_)
  case refine_1 =>
    have ⟨t, ht⟩ := List.rdropWhile_prefix (p := p) (l := s.dropWhile p)
    have hh : (s.dropWhile p).head? = some c := by
      rw [← ht, List.head?_append]
      exact Option.or_eq_some_iff.mpr (.inl hc)
    simpa [hh] using List.head?_dropWhile_not p s
  case refine_2 =>
    have hn : trim p s ≠ [] := fun he => by simp [he] at hc
    have he : (trim p s).getLast hn = c :=
      Option.some.inj ((List.getLast?_eq_some_getLast hn).symm.trans hc)
    rw [← he]
    exact Bool.eq_false_iff.mpr (List.rdropWhile_last_not p _ hn)

end Text
