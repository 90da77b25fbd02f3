import Mathlib.Data.List.Perm.Subperm
import Mathlib.Data.List.Nodup
import Mathlib.Tactic.Common

namespace Handles

-- The descriptors that a process has open. A call of `close` with another one is a fault.
structure Table where
  opened : List Nat
  faults : List Nat := []
  deriving DecidableEq, Repr

-- The number that the next descriptor gets.
def lowest (l : List Nat) : Nat :=
  ((List.range (l.length + 1)).find? (· ∉ l)).getD 0

namespace Table

def alloc (t : Table) : Nat × Table :=
  (lowest t.opened, { t with opened := lowest t.opened :: t.opened })

def close (t : Table) (fd : Nat) : Table :=
  if fd ∈ t.opened then { t with opened := t.opened.erase fd }
  else { t with faults := t.faults ++ [fd] }

end Table

-- A variable that owns a descriptor, or none.
structure Handle where
  fd : Option Nat := none
  deriving DecidableEq, Repr

namespace Handle

def owned (h : Handle) : List Nat :=
  h.fd.toList

def reset (h : Handle) (t : Table) : Table :=
  h.fd.elim t t.close

-- The variable gets another descriptor to own.
def assign (h : Handle) (fd : Nat) (t : Table) : Handle × Table :=
  (⟨some fd⟩, h.reset t)

end Handle

-- All that is open was open before or is owned once, and what was closed had been open.
structure Holds (base owned : List Nat) (t : Table) : Prop where
  opened : t.opened.Perm (owned ++ base)
  nodup  : t.opened.Nodup
  faults : t.faults = []

variable {l base owned owned' : List Nat} {t : Table} {h : Handle} {fd : Nat}

-- There are more numbers than descriptors.
theorem lowest_not_mem (l : List Nat) : lowest l ∉ l := by
  have hx : ((List.range (l.length + 1)).find? (· ∉ l)).isSome := by
    rw [List.find?_isSome]
    by_contra hn
    simp only [decide_not, Bool.not_eq_eq_eq_not, Bool.not_true, decide_eq_false_iff_not,
      not_exists, not_and, Decidable.not_not] at hn
    have hs := (List.subperm_of_subset List.nodup_range fun n hm => hn n hm).length_le
    rw [List.length_range] at hs
    exact absurd hs (Nat.not_succ_le_self _)
  obtain ⟨n, hn⟩ := Option.isSome_iff_exists.mp hx
  rw [lowest, hn]
  simpa using List.find?_some hn

namespace Holds

theorem perm (h : Holds base owned t) (hp : owned.Perm owned') : Holds base owned' t :=
  ⟨h.opened.trans (hp.append_right _), h.nodup, h.faults⟩

theorem alloc (h : Holds base owned t) : Holds base (t.alloc.1 :: owned) t.alloc.2 where
  opened := h.opened.cons _
  nodup  := List.nodup_cons.mpr ⟨lowest_not_mem _, h.nodup⟩
  faults := h.faults

theorem close (h : Holds base (fd :: owned) t) : Holds base owned (t.close fd) := by
  have hm : fd ∈ t.opened := h.opened.mem_iff.mpr (by simp)
  rw [Table.close, if_pos hm]
  refine ⟨?_, h.nodup.erase fd, h.faults⟩
  simpa using h.opened.erase fd

theorem reset (hh : Holds base (h.owned ++ owned) t) : Holds base owned (h.reset t) := by
  cases h with | mk fd =>
  cases fd
  case none => exact hh
  case some => exact hh.close

theorem resetAll {hs : List Handle} (hh : Holds base (hs.flatMap Handle.owned ++ owned) t) :
    Holds base owned (hs.foldl (fun t h => h.reset t) t) := by
  induction hs generalizing t
  case nil => exact hh
  case cons hi =>
    rw [List.flatMap_cons, List.append_assoc] at hh
    exact hi hh.reset

-- A descriptor is opened for a variable, which closes the one that it had.
theorem assign (hh : Holds base (h.owned ++ owned) t) :
    Holds base ((h.assign t.alloc.1 t.alloc.2).1.owned ++ owned)
      (h.assign t.alloc.1 t.alloc.2).2 :=
  reset (hh.alloc.perm List.perm_middle.symm)

end Holds
end Handles
