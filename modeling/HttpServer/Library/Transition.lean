import Mathlib.Algebra.Group.Nat.Defs
import Mathlib.Tactic.Common

namespace Transition

-- The states that are reached by steps which the environment allows.
inductive Reaches (step : σ → α → Option σ) (ok : σ → α → Prop) (s₀ : σ) : σ → Prop
  | refl : Reaches step ok s₀ s₀
  | tail : Reaches step ok s₀ s → ok s a → step s a = some s' → Reaches step ok s₀ s'

-- The same as a computation.
def exec (step : σ → α → Option σ) (ok : σ → α → Prop) [∀ s a, Decidable (ok s a)] :
    σ → List α → Option σ
  | s, []      => some s
  | s, a :: as => if ok s a then (step s a).bind (exec step ok · as) else none

-- The system with a record that every step may change.
def recorded (step : σ → α → Option σ) (note : σ → α → β → β) (t : σ × β) (a : α) : Option (σ × β) :=
  (step t.1 a).map (·, note t.1 a t.2)

variable {step : σ → α → Option σ} {ok ok' : σ → α → Prop} {s₀ s s' : σ} {P : σ → Prop}

namespace Reaches

theorem head (ha : ok s₀ a) (hs : step s₀ a = some s) (h : Reaches step ok s s') :
    Reaches step ok s₀ s' := by
  induction h
  case refl          => exact .tail .refl ha hs
  case tail hb ht hi => exact .tail hi hb ht

theorem trans (h : Reaches step ok s₀ s) (h' : Reaches step ok s s') : Reaches step ok s₀ s' := by
  induction h'
  case refl          => exact h
  case tail ha hs hi => exact .tail hi ha hs

theorem of_exec [∀ s a, Decidable (ok s a)] {as : List α} (h : exec step ok s as = some s') :
    Reaches step ok s s' := by
  induction as generalizing s <;> simp only [exec] at h
  case nil => cases h; exact .refl
  case cons hi =>
    split at h
    case isTrue ha =>
      have ⟨_, hs, h⟩ := Option.bind_eq_some_iff.mp h
      exact head ha hs (hi h)
    case isFalse => cases h

-- The steps are allowed in any state.
theorem of_run {P : α → Prop} {as : List α} (h : exec step (fun _ _ => True) s as = some s')
    (ha : ∀ a ∈ as, P a) : Reaches step (fun _ => P) s s' := by
  induction as generalizing s
  case nil => cases h; exact .refl
  case cons a as hi =>
    have ⟨_, hs, h⟩ := Option.bind_eq_some_iff.mp h
    exact head (ha a List.mem_cons_self) hs (hi h fun a hm => ha a (List.mem_cons_of_mem _ hm))

theorem mono (hk : ∀ {s a}, ok s a → ok' s a) (h : Reaches step ok s₀ s) :
    Reaches step ok' s₀ s := by
  induction h
  case refl          => exact .refl
  case tail ha hs hi => exact .tail hi (hk ha) hs

-- A run with a record is a run.
theorem unrecorded {note : σ → α → β → β} {ok' : σ × β → α → Prop} {t t' : σ × β}
    (hk : ∀ {t a}, ok' t a → ok t.1 a) (h : Reaches (recorded step note) ok' t t') :
    Reaches step ok t.1 t'.1 := by
  induction h
  case refl          => exact .refl
  case tail ha hs hi =>
    rw [recorded, Option.map_eq_some_iff] at hs
    obtain ⟨_, hs, rfl⟩ := hs
    exact .tail hi (hk ha) hs

-- Every run can be given a record.
theorem annotated (note : σ → α → β → β) (b : β) (h : Reaches step ok s₀ s) :
    ∃ b', Reaches (recorded step note) (fun t a => ok t.1 a) (s₀, b) (s, b') := by
  induction h
  case refl => exact ⟨b, .refl⟩
  case tail s a s' _ ha hs hi =>
    obtain ⟨b', hi⟩ := hi
    have hr : recorded step note (s, b') a = some (s', note s a b') := by simp [recorded, hs]
    exact ⟨_, .tail hi ha hr⟩

-- What holds at first and is kept by every step holds all along.
theorem invariant (h₀ : P s₀)
    (hs : ∀ {s a s'}, Reaches step ok s₀ s → P s → ok s a → step s a = some s' → P s')
    (h : Reaches step ok s₀ s) : P s := by
  induction h
  case refl             => exact h₀
  case tail hr ha ht hi => exact hs hr hi ha ht

-- If every step of one system is answered by a run of another one that leads to a related state,
-- then the other system has a run for every run.
theorem simulates {step' : τ → β → Option τ} {ok' : τ → β → Prop} {t₀ : τ} {R : σ → τ → Prop}
    (h₀ : R s₀ t₀)
    (hs : ∀ {s a s' t}, ok s a → step s a = some s' → R s t → ∃ t', Reaches step' ok' t t' ∧ R s' t')
    (h : Reaches step ok s₀ s) : ∃ t, Reaches step' ok' t₀ t ∧ R s t := by
  induction h
  case refl => exact ⟨t₀, .refl, h₀⟩
  case tail ha ht hi =>
    have ⟨_, hr, hi⟩ := hi
    have ⟨t', hr', ht'⟩ := hs ha ht hi
    exact ⟨t', hr.trans hr', ht'⟩

end Reaches

-- What is found out about a run by evaluating it.
theorem exec_any (step : σ → α → Option σ) (ok : σ → α → Prop) [∀ s a, Decidable (ok s a)] (s₀ : σ)
    (as : List α) (Q : σ → Prop) [DecidablePred Q] (h : (exec step ok s₀ as).any (Q ·) = true) :
    ∃ s, exec step ok s₀ as = some s ∧ Reaches step ok s₀ s ∧ Q s :=
  have ⟨s, hs, hq⟩ := (Option.any_eq_true ..).mp h
  ⟨s, hs, .of_exec hs, of_decide_eq_true hq⟩

-- If certain steps use up a budget that no step extends, then no run has more of them than the
-- budget allows.
theorem exec_spends [∀ s a, Decidable (ok s a)] {p : α → Bool} {budget : σ → Nat} {as : List α}
    (hs : ∀ {s a s'}, P s → ok s a → step s a = some s' →
      P s' ∧ budget s' + (p a).toNat ≤ budget s)
    (h₀ : P s) (h : exec step ok s as = some s') :
    P s' ∧ as.countP p + budget s' ≤ budget s := by
  induction as generalizing s <;> simp only [exec] at h
  case nil =>
    cases h
    exact ⟨h₀, by simp⟩
  case cons a as hi =>
    split at h
    case isTrue ha =>
      obtain ⟨s₁, ht, h⟩ := Option.bind_eq_some_iff.mp h
      obtain ⟨h₁, hb⟩ := hs h₀ ha ht
      obtain ⟨h', hb'⟩ := hi h₁ h
      refine ⟨h', ?_⟩
      have hp : (if p a then 1 else 0) = (p a).toNat := by cases p a <;> rfl
      rw [List.countP_cons, hp]
      omega
    case isFalse => cases h

end Transition
