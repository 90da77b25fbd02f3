import Mathlib.Tactic.Common

-- Machines that answer every operation.
namespace Machine

variable {σ τ ι ο : Type*}

-- Operations in turn, with all of their answers.
def run (step : σ → ι → σ × ο) : σ → List ι → σ × List ο
  | s, []      => (s, [])
  | s, i :: is =>
    let (s, o) := step s i
    let (s, os) := run step s is
    (s, o :: os)

-- Every operation is allowed in the state that it meets.
def Legal (step : σ → ι → σ × ο) (ok : σ → ι → Prop) : σ → List ι → Prop
  | _, []      => True
  | s, i :: is => ok s i ∧ Legal step ok (step s i).1 is

-- If related states answer alike and stay related in one step, then they do so in every run.
theorem run_refines {step : σ → ι → σ × ο} {spec : τ → ι → τ × ο} {ok : σ → ι → Prop}
    {R : σ → τ → Prop} {s : σ} {t : τ} {is : List ι}
    (hs : ∀ {s t i}, R s t → ok s i → R (step s i).1 (spec t i).1 ∧ (step s i).2 = (spec t i).2)
    (h : R s t) (hl : Legal step ok s is) :
    R (run step s is).1 (run spec t is).1 ∧ (run step s is).2 = (run spec t is).2 := by
  induction is generalizing s t
  case nil => exact ⟨h, rfl⟩
  case cons i is hi =>
    have ⟨ha, hl⟩ := hl
    have ⟨hr, ho⟩ := hs h ha
    have ⟨hr', ho'⟩ := hi hr hl
    exact ⟨hr', by simp only [run, ho, ho']⟩

end Machine
