import HttpServer.Loop.Basic
import HttpServer.Library.Transition

namespace Http.System

variable {cfg : Config} {s : System} {c : Connection} {a : Answers} {mod : Ctl} {p : Pc}

@[simp]
theorem goto_pc : (s.goto p).pc = p :=
  rfl

@[simp]
theorem goto_heap : (s.goto p).heap = s.heap :=
  rfl

-- The part of the state that the loop and the workers share, apart from the queue of the pool.
structure Shared where
  completions : List Completion
  wakeCount   : Nat
  workers     : List Worker
  pushed      : List Completion
  taken       : List Completion

def shared (s : System) : Shared :=
  ⟨s.completions, s.wakeCount, s.workers, s.pushed, s.taken⟩

-- What the functions of the loop have in common: they touch neither the shared state nor the
-- position of the loop, and an identifier is given out once.
structure Frame (s s' : System) : Prop where
  shared : s'.shared = s.shared
  pool   : s'.pool = s.pool
  pc     : s'.pc = s.pc
  ids    : s.lastConnId ≤ s'.lastConnId

namespace Frame

theorem refl (s : System) : Frame s s :=
  ⟨rfl, rfl, rfl, Nat.le_refl _⟩

theorem trans {s₁ s₂ s₃ : System} (h : Frame s₁ s₂) (h' : Frame s₂ s₃) : Frame s₁ s₃ :=
  ⟨h'.shared.trans h.shared, h'.pool.trans h.pool, h'.pc.trans h.pc, Nat.le_trans h.ids h'.ids⟩

theorem setInterest : Frame s (s.setInterest cfg mod c) := by
  simp only [System.setInterest]
  repeat' split
  all_goals exact ⟨rfl, rfl, rfl, Nat.le_refl _⟩

theorem settle : Frame s (s.settle cfg mod c) := by
  simp only [System.settle]
  split
  · exact ⟨rfl, rfl, rfl, Nat.le_refl _⟩
  · exact setInterest

theorem serve {r : Connection × Env} : Frame { s with pool := r.2.pool } (s.serve cfg a r) :=
  settle

theorem reap (s : System) : Frame s s.reap := by
  simp only [System.reap]
  split <;> exact ⟨rfl, rfl, rfl, Nat.le_refl _⟩

theorem closeAll (s : System) : Frame s s.closeAll :=
  have h : Frame { s.mapConns (·.kill) with reaps := _ } s.closeAll := reap _
  ⟨h.shared, h.pool, h.pc, h.ids⟩

theorem register {now : Time} {fd : Fd} {x : Admission} : Frame s (s.register cfg now fd x) := by
  simp only [System.register]
  split <;> exact ⟨rfl, rfl, rfl, Nat.le_succ _⟩

theorem acceptBatch (cfg : Config) (now : Time) (n : Nat) (accepts : List Accept) (s : System) :
    Frame s (acceptBatch cfg now n accepts s) := by
  fun_induction System.acceptBatch
  case case8 | case9 => rename_i hi; exact ⟨hi.shared, hi.pool, hi.pc, hi.ids⟩
  case case10 hi => exact trans register hi
  all_goals first | exact ⟨rfl, rfl, rfl, Nat.le_refl _⟩ | assumption

theorem handleSignals (n : Nat) (s : System) : Frame s (handleSignals n s) := by
  induction n generalizing s
  case zero => exact refl s
  case succ hi =>
    refine trans ?_ (hi _)
    split <;> exact ⟨rfl, rfl, rfl, Nat.le_refl _⟩

theorem maybeBeginDrain {now : Time} : Frame s (s.maybeBeginDrain cfg now) := by
  simp only [System.maybeBeginDrain]
  split <;> exact ⟨rfl, rfl, rfl, Nat.le_refl _⟩

theorem tick : Frame s (s.tick cfg a) := by
  simp only [System.tick]
  split
  · have h := acceptBatch cfg a.now kAcceptBatch a.accepts { s with acceptRetry := false }
    exact ⟨h.shared, h.pool, h.pc, h.ids⟩
  · exact ⟨rfl, rfl, rfl, Nat.le_refl _⟩

end Frame
end Http.System
