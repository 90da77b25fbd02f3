import Mathlib.Data.List.Perm.Basic
import Mathlib.Algebra.BigOperators.Group.List.Basic
import Mathlib.Algebra.GroupWithZero.Nat
import Mathlib.Tactic.Common

namespace Update

variable {α β : Type*} {l : List α} {i : Nat} {v w : α} {p : α → Bool}

-- When one position of a list changes, everything that does not depend on the order changes by the
-- old and the new element only.
theorem set_perm (w' : α) (h : l[i]? = some w) : (w :: l.set i w').Perm (w' :: l) := by
  obtain ⟨hi, rfl⟩ := List.getElem?_eq_some_iff.mp h
  have hw := ((List.set_perm_cons_eraseIdx hi w').cons l[i]).trans (.swap ..)
  exact hw.trans ((List.getElem_cons_eraseIdx_perm hi).cons w')

theorem countP_set (p : α → Bool) (w' : α) (h : l[i]? = some w) :
    (l.set i w').countP p + (p w).toNat = l.countP p + (p w').toNat := by
  have hn := (set_perm w' h).countP_eq p
  rw [List.countP_cons, List.countP_cons] at hn
  cases hp : p w <;> cases hp' : p w' <;> simpa [hp, hp'] using hn

theorem sum_set (f : α → Nat) (w' : α) (h : l[i]? = some w) :
    ((l.set i w').map f).sum + f w = (l.map f).sum + f w' := by
  have hn := ((set_perm w' h).map f).sum_eq
  rw [List.map_cons, List.map_cons, List.sum_cons, List.sum_cons] at hn
  omega

theorem flatMap_set (f : α → List β) (w' : α) (h : l[i]? = some w) :
    (f w ++ (l.set i w').flatMap f).Perm (f w' ++ l.flatMap f) := by
  simpa only [List.flatMap_cons] using (set_perm w' h).flatMap_right f

theorem any_of_set (h : (l.set i w).any p) (hw : p w = false) : l.any p := by
  obtain ⟨v, hv, hp⟩ := List.any_eq_true.mp h
  rcases List.mem_or_eq_of_mem_set hv with hv | rfl
  case inl => exact List.any_eq_true.mpr ⟨v, hv, hp⟩
  case inr => simp [hw] at hp

theorem any_set (h : l.any p) (hi : l[i]? = some v) (hv : p v = false) : (l.set i w).any p := by
  obtain ⟨u, hu, hp⟩ := List.any_eq_true.mp h
  obtain ⟨j, hj⟩ := List.getElem?_of_mem hu
  refine List.any_eq_true.mpr ⟨u, List.mem_of_getElem? (i := j) ?_, hp⟩
  rw [List.getElem?_set_ne, hj]
  rintro rfl
  cases hi.symm.trans hj
  simp [hv] at hp

end Update
