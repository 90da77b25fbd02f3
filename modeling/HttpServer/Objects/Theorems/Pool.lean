import HttpServer.Objects.Pool
import HttpServer.Library.Transition
import Mathlib.Data.List.Perm.Basic

namespace Http

variable {J : Type}

def Thread.job : Thread J → Option J
  | running job => some job
  | _           => none

-- What the places of a list hold when one of them changes.
theorem filterMap_set {l : List α} {i : Nat} {w : α} (f : α → Option β) (w' : α)
    (h : l[i]? = some w) :
    ((f w).toList ++ (l.set i w').filterMap f).Perm ((f w').toList ++ l.filterMap f) := by
  have hf (v : α) (l : List α) : (v :: l).filterMap f = (f v).toList ++ l.filterMap f := by
    cases h : f v <;> simp [h]
  induction l generalizing i
  case nil => simp at h
  case cons v l hi =>
    cases i
    case zero =>
      cases h
      rw [List.set_cons_zero, hf, hf]
      exact List.perm_append_comm_assoc ..
    case succ i =>
      rw [List.set_cons_succ, hf, hf]
      exact (List.perm_append_comm_assoc ..).trans
        (((hi h).append_left _).trans (List.perm_append_comm_assoc ..))

theorem Pool.trySubmit_eq {p p' : Pool J} {job : J} (h : p.trySubmit job = some p') :
    p.stopping = false ∧ p.threads ≠ 0 ∧ p.queue.length < p.maxQueue ∧
      p' = { p with queue := p.queue ++ [job], accepted := p.accepted ++ [job] } := by
  simp only [trySubmit] at h
  repeat' split at h
  all_goals cases h
  simp_all

namespace Crew

open Transition

-- What a step of a pool can do.
inductive Next (c : Crew J) : Crew J → Prop
  | same   : Next c c
  | accept : c.pool.stopping = false → c.pool.threads ≠ 0 → c.pool.queue.length < c.pool.maxQueue →
    Next c { c with pool := { c.pool with
      queue    := c.pool.queue ++ [job]
      accepted := c.pool.accepted ++ [job] } }
  | take   : c.threads[i]? = some .idle → c.pool.queue = job :: queue →
    Next c { c with
      pool    := { c.pool with queue := queue, taken := c.pool.taken ++ [job] }
      threads := c.threads.set i (.running job)
      turns   := c.turns ++ [(i, job)] }
  | exit   : c.threads[i]? = some .idle → c.pool.queue = [] → c.pool.stopping →
    Next c { c with threads := c.threads.set i .exited }
  | finish : c.threads[i]? = some (.running job) →
    Next c { c with threads := c.threads.set i .idle, runs := c.runs ++ [job] }
  | stop   : Next c { c with pool := { c.pool with stopping := true, threads := 0, joined := true } }

variable {c c' : Crew J} {started : Nat}

theorem step_next {x : Act J} (h : c.step x = some c') : Next c c' := by
  cases x <;> simp only [step] at h
  case submit job =>
    split at h <;> cases h
    case h_1 hs =>
      have ⟨hn, ht, hl, he⟩ := Pool.trySubmit_eq hs
      rw [he]
      exact .accept hn ht hl
    case h_2 => exact .same
  case work i throws =>
    simp only [work, Pool.take] at h
    split at h
    case h_1 hw =>
      match hq : c.pool.queue with
      | job :: queue => simp only [hq] at h; cases h; exact .take hw hq
      | []           =>
        simp only [hq] at h
        cases hs : c.pool.stopping <;> simp only [hs] at h <;> cases h
        exact .exit hw hq hs
    case h_2 hw => cases h; exact .finish hw
    case h_3    => cases h
    case h_4    => cases h
  case stop =>
    cases h
    simp only [Pool.stop]
    split
    case isTrue  => exact .same
    case isFalse => exact .stop
  case stopForced => cases h; exact .stop

-- The jobs are in the queue, with a thread, or done. A thread is gone only after the last of them.
structure Ordered (started : Nat) (c : Crew J) : Prop where
  bounded : c.pool.queue.length ≤ c.pool.maxQueue
  fifo    : c.pool.accepted = c.turns.map (·.2) ++ c.pool.queue
  held    : (c.turns.map (·.2)).Perm (c.runs ++ c.threads.filterMap Thread.job)
  exits   : .exited ∈ c.threads → c.pool.stopping ∧ c.pool.queue = []
  size    : c.threads.length = started
  idle    : started = 0 → c.pool.threads = 0 ∧ c.pool.accepted = []

theorem Ordered.new (maxQueue started : Nat) : Ordered started (new maxQueue started : Crew J) where
  bounded := Nat.zero_le _
  fifo    := rfl
  held    := by simp [Crew.new, Thread.job]
  exits h := by simp [Crew.new] at h
  size    := by simp [Crew.new]
  idle h  := by simp [Crew.new, Pool.new, h]

-- A thread that has gone was not the one that changed its place.
theorem mem_of_mem_set {l : List (Thread J)} {i : Nat} {w : Thread J} (hw : w ≠ .exited)
    (h : .exited ∈ l.set i w) : .exited ∈ l :=
  (List.mem_or_eq_of_mem_set h).resolve_right fun h => hw h.symm

theorem Ordered.next (h : Ordered started c) (hn : Next c c') : Ordered started c' := by
  cases hn
  case same => exact h
  case accept job hs ht hl =>
    refine ⟨?_, ?_, h.held, fun he => ?_, h.size, fun h₀ => absurd (h.idle h₀).1 ht⟩
    · simpa using Nat.succ_le_of_lt hl
    · rw [h.fifo, List.append_assoc]
    · have hx := (h.exits he).1
      simp [hs] at hx
  case take i job queue hi hq =>
    have hp : ((c.threads.set i (.running job)).filterMap Thread.job).Perm
      (job :: c.threads.filterMap Thread.job) := filterMap_set Thread.job _ hi
    refine ⟨?_, ?_, ?_, fun he => ?_, by simpa using h.size, fun h₀ => (h.idle h₀)⟩
    · have hb := h.bounded
      rw [hq] at hb
      exact Nat.le_of_succ_le hb
    · simp [h.fifo, hq]
    · rw [List.map_append]
      exact ((h.held.append_right [job]).trans (List.perm_append_singleton _ _)).trans
        (List.perm_middle.symm.trans (hp.symm.append_left _))
    · have hx := (h.exits (mem_of_mem_set (by simp) he)).2
      simp [hq] at hx
  case exit i hi hq hs =>
    have hp : ((c.threads.set i .exited).filterMap Thread.job).Perm
      (c.threads.filterMap Thread.job) := filterMap_set Thread.job _ hi
    exact ⟨h.bounded, h.fifo, h.held.trans (hp.symm.append_left _), fun _ => ⟨hs, hq⟩,
      by simpa using h.size, h.idle⟩
  case finish i job hi =>
    have hp : (job :: (c.threads.set i .idle).filterMap Thread.job).Perm
      (c.threads.filterMap Thread.job) := filterMap_set Thread.job _ hi
    refine ⟨h.bounded, h.fifo, ?_, fun he => h.exits (mem_of_mem_set (by simp) he),
      by simpa using h.size, h.idle⟩
    simpa using h.held.trans (hp.symm.append_left _)
  case stop =>
    exact ⟨h.bounded, h.fifo, h.held, fun he => ⟨rfl, (h.exits he).2⟩, h.size,
      fun h₀ => ⟨rfl, (h.idle h₀).2⟩⟩

theorem Ordered.step {x : Act J} (h : Ordered started c) (hs : c.step x = some c') :
    Ordered started c' :=
  h.next (step_next hs)

theorem Ordered.reaches {maxQueue : Nat} {ok : Crew J → Act J → Prop}
    (h : Reaches Crew.step ok (Crew.new maxQueue started) c) : Ordered started c :=
  h.invariant (.new ..) fun _ hi _ hs => hi.step hs

-- The last thread to leave has seen the queue empty, and without a thread it is never filled.
theorem Ordered.deserted (h : Ordered started c) (hx : ∀ t ∈ c.threads, t = .exited) :
    c.pool.queue = [] := by
  rcases Nat.eq_zero_or_pos started with h₀ | h₀
  case inl =>
    have ha := h.fifo
    rw [(h.idle h₀).2] at ha
    exact (List.append_eq_nil_iff.mp ha.symm).2
  case inr =>
    have ⟨t, ht⟩ := List.exists_mem_of_length_pos (h.size ▸ h₀)
    exact (h.exits (hx t ht ▸ ht)).2

-- No job is accepted any more.
theorem Next.stopping (h : Next c c') (hs : c.pool.stopping) :
    c'.pool.stopping ∧ c'.pool.accepted = c.pool.accepted := by
  cases h
  case accept hn _ _ => simp [hs] at hn
  case stop          => exact ⟨rfl, rfl⟩
  all_goals exact ⟨hs, rfl⟩

-- The queue is bounded, the threads take the jobs in order, nothing gets in once the pool stops, and
-- when the threads have gone every job has been run once.
structure Lossless (started : Nat) (c : Crew J) : Prop where
  bounded : c.pool.queue.length ≤ c.pool.maxQueue
  fifo    : c.pool.accepted = c.turns.map (·.2) ++ c.pool.queue
  closed  : c.pool.stopping → ∀ c', Reaches Crew.step (fun _ _ => True) c c' →
    c'.pool.accepted = c.pool.accepted
  done    : 0 < started → (∀ t ∈ c.threads, t = .exited) →
    c.pool.queue = [] ∧ c.runs.Perm c.pool.accepted
  none    : started = 0 → c.pool.accepted = []

theorem lossless (maxQueue started : Nat)
    (h : Reaches Crew.step (fun _ _ => True) (new maxQueue started : Crew J) c) :
    Lossless started c := by
  have ho := Ordered.reaches h
  constructor
  case bounded => exact ho.bounded
  case fifo    => exact ho.fifo
  case none    => exact fun h₀ => (ho.idle h₀).2
  case closed  =>
    intro hs c' hc
    have hi : c'.pool.stopping ∧ c'.pool.accepted = c.pool.accepted := hc.invariant
      (P := fun c' => c'.pool.stopping ∧ c'.pool.accepted = c.pool.accepted) ⟨hs, rfl⟩
      fun _ ⟨hs, ha⟩ _ hn => by
        have ⟨hs, ha'⟩ := (step_next hn).stopping hs
        exact ⟨hs, ha'.trans ha⟩
    exact hi.2
  case done =>
    intro _ hx
    have hq := ho.deserted hx
    have hn : c.threads.filterMap Thread.job = [] :=
      List.filterMap_eq_nil_iff.mpr fun t ht => by rw [hx t ht]; rfl
    have hr := ho.held
    rw [hn, List.append_nil] at hr
    exact ⟨hq, by rw [ho.fifo, hq, List.append_nil]; exact hr.symm⟩

-- Two threads share four jobs, one of which throws. The pool stops before the last job is taken.
def sharedRun : List (Act Nat) :=
  [.submit 1, .submit 2, .submit 3, .work 1 false, .submit 4, .work 0 false, .work 0 true, .submit 5,
    .stop, .submit 6] ++ .replicate 4 (.work 0 false) ++
    [.work 1 false, .work 0 false, .work 1 false]

theorem lossless_stopped : ∃ c, Lossless 2 c ∧ c.pool.accepted = [1, 2, 4, 5] ∧
    c.runs = [2, 4, 5, 1] ∧ ∀ t ∈ c.threads, t = .exited := by
  have ⟨c, _, hr, hp⟩ := exec_any Crew.step (fun _ _ => True) (new 2 2) sharedRun
    (fun c => c.pool.accepted = [1, 2, 4, 5] ∧ c.runs = [2, 4, 5, 1] ∧ ∀ t ∈ c.threads, t = .exited)
    (by decide)
  exact ⟨c, lossless 2 2 hr, hp⟩

end Crew
end Http
