import HttpServer.Loop.Theorems.Shutdown
import HttpServer.Loop.Theorems.Drain
import HttpServer.Loop.Theorems.Interest
import HttpServer.Library.Update
import Mathlib.Algebra.Order.BigOperators.Group.List
import Mathlib.Algebra.Order.Ring.Nat

namespace Http

-- The completions that are posted now will be delivered before the loop looks at the deadline.
def Pc.early : Pc → Bool
  | wait | dispatch _ | drainWake _ | drainCompletions => true
  | _                                                  => false

-- The steps that the loop has left when the deadline is over, with the completions, the rescans and
-- the counter of the eventfd as they are. A callback can lead to a rescan and to a job.
def Pc.lag (completions rescans wakeCount : Nat) : Pc → Nat
  | wait               => 14 * kMaxEvents + 5 * completions + 4 * rescans + 18
  | dispatch evs       => 14 * evs.length + 5 * completions + 4 * rescans + 17
  | drainWake evs      =>
    14 * evs.length + 5 * completions + 4 * rescans + 17 + if wakeCount = 0 then 1 else 2
  | drainCompletions   => 5 * completions + 4 * rescans + 16
  | deliver batch      => 5 * batch.length + 4 * rescans + 15
  | processRescans     => 4 * rescans + 14
  | rescan pending     => 4 * pending.length + 13
  | reap               => 12
  | beginDrain         => 11
  | timer              => 10
  | reapTick           => 9
  | shutdownComplete   => 8
  | queueSize          => 7
  | completionsPending => 6
  | deadline           => 5
  | stop               => 4
  | join               => 3
  | cleanup            => 2
  | returned           => 1

-- The steps that come of a job, and those that come of a thread.
def Pc.perJob (p : Pc) : Nat :=
  if p.early then 9 else 3

def Worker.lag (p : Pc) : Worker → Nat
  | idle      => 1
  | running _ => p.perJob
  | posted    => if p.early then 3 else 2
  | exited    => 0

namespace System

open Transition Update
open Connection hiding refuses

variable {cfg : Config} {a : Answers} {s s' : System} {c : Connection} {x : Action} {now : Time}

def lag (s : System) : Nat :=
  s.pc.lag s.completions.length s.rescans.length s.wakeCount

-- A bound on the steps of the whole server.
def patience (s : System) : Nat :=
  s.lag + s.pc.perJob * s.pool.queue.length + (s.workers.map (Worker.lag s.pc)).sum

-- The deadline of the shutdown is over, and `epoll_wait` is not interrupted.
def overdue (s : System) : Action → Bool
  | .loop a     => s.drainDeadline ≤ a.now && match a.waited with
    | .eintr => false
    | _      => true
  | .worker _ _ => true

-- The loop goes on, with up to `n` new jobs.
theorem patience_lt (n : Nat) (hw : s'.workers = s.workers)
    (hq : s'.pool.queue.length ≤ s.pool.queue.length + n) (he : s'.pc.early → s.pc.early)
    (hl : s'.lag + s'.pc.perJob * n < s.lag) : s'.patience < s.patience := by
  have hj : s'.pc.perJob ≤ s.pc.perJob := by
    simp only [Pc.perJob]
    split <;> split <;> simp_all
  have hs : (s.workers.map (Worker.lag s'.pc)).sum ≤ (s.workers.map (Worker.lag s.pc)).sum := by
    refine List.sum_le_sum fun w _ => ?_
    cases w
    case running => exact hj
    case posted  =>
      simp only [Worker.lag]
      split <;> split <;> simp_all
    all_goals exact Nat.le_refl _
  have hm := Nat.mul_le_mul_left s'.pc.perJob hq
  have hk := Nat.mul_le_mul_right s.pool.queue.length hj
  rw [Nat.mul_add] at hm
  rw [patience, patience, hw]
  omega

theorem settle_rescans {mod : Ctl} :
    (s.settle cfg mod c).rescans.length ≤ s.rescans.length + 1 := by
  have h := settle_settled cfg mod s c
  generalize s.settle cfg mod c = s' at h ⊢
  cases h <;> simp [put]

theorem lag_mono {rescans rescans' : Nat} (p : Pc) (k n : Nat) (h : rescans ≤ rescans') :
    p.lag k rescans n ≤ p.lag k rescans' n := by
  cases p <;> simp only [Pc.lag] <;> omega

-- A callback has run.
theorem serve_patience {r : Connection × Env} {as : List Act} {p : Pc}
    (hp : Submits s.pool as r.2.pool) (he : p.early → s.pc.early)
    (hl : p.lag s.completions.length (s.rescans.length + 1) s.wakeCount + p.perJob < s.lag) :
    ((s.goto p).serve cfg a r).patience < s.patience := by
  have hf : Frame { s.goto p with pool := r.2.pool } ((s.goto p).serve cfg a r) := .serve
  have hr : ((s.goto p).serve cfg a r).rescans.length ≤ s.rescans.length + 1 := settle_rescans
  generalize (s.goto p).serve cfg a r = s' at hf hr ⊢
  have hc : s'.completions = s.completions := congrArg Shared.completions hf.shared
  have hw : s'.wakeCount = s.wakeCount := congrArg Shared.wakeCount hf.shared
  have hn : s'.pc = p := hf.pc
  refine patience_lt 1 (congrArg Shared.workers hf.shared) ?_ (hn ▸ he) ?_
  · have hj := List.length_filterMap_le Act.job as
    have hk := hp.length_le
    rw [hf.pool]
    simp only [Submits.queue hp, List.length_append]
    omega
  · have hm := lag_mono p s.completions.length s.wakeCount hr
    rw [lag, hn, hc, hw]
    omega

-- The loop moves on, and nothing happens that concerns the workers.
theorem Frame.patience {t : System} {p : Pc} (hf : Frame (s.goto p) t) (he : p.early → s.pc.early)
    (hl : p.lag s.completions.length t.rescans.length s.wakeCount < s.lag) :
    t.patience < s.patience := by
  have hc : t.completions = s.completions := congrArg Shared.completions hf.shared
  have hw : t.wakeCount = s.wakeCount := congrArg Shared.wakeCount hf.shared
  have hn : t.pc = p := hf.pc
  have hq : t.pool = s.pool := hf.pool
  refine patience_lt 0 (congrArg Shared.workers hf.shared) (hq ▸ Nat.le_refl _) (hn ▸ he) ?_
  rw [lag, hn, hc, hw, Nat.mul_zero]
  exact hl

theorem Frame.goto {t : System} {p : Pc} (hf : Frame s t) : Frame (s.goto p) (t.goto p) :=
  ⟨hf.shared, hf.pool, rfl, hf.ids⟩

theorem handleEvent_patience {ev : Event} {evs : List Event} (hp : s.pc = .dispatch (ev :: evs)) :
    (s.handleEvent cfg a ev evs).patience < s.patience := by
  have he (p : Pc) : p.early → s.pc.early := fun _ => by rw [hp]; rfl
  have hl : s.lag = 14 * evs.length + 5 * s.completions.length + 4 * s.rescans.length + 31 := by
    rw [lag, hp, Pc.lag, List.length_cons]
    omega
  -- The step neither calls a connection nor gives a job to the pool.
  have hk {t : System} (hf : Frame s t) (hr : t.rescans = s.rescans) :
      (t.goto (.dispatch evs)).patience < s.patience := by
    refine hf.goto.patience (he _) ?_
    simp only [System.goto, Pc.lag, hr, hl]
    omega
  cases ev <;> simp only [handleEvent]
  case wake =>
    refine (Frame.refl _).patience (he _) ?_
    simp only [System.goto, hl, Pc.lag]
    split <;> omega
  case signal   => exact hk (.handleSignals ..) (handleSignals_rescans ..)
  case listener => exact hk (.acceptBatch ..) acceptBatch_rescans
  case conn fd err hup input output =>
    split
    case h_1     => exact hk (.refl s) rfl
    case h_2 c _ =>
      obtain ⟨_, hd⟩ := onEvent_reads cfg err hup input output c (s.env a c)
      refine serve_patience hd.pool (he _) ?_
      rw [hl, Pc.lag, Pc.perJob]
      simp only [Pc.early, ite_true]
      omega

theorem deliver_patience {y : Completion} {ys : List Completion} (hp : s.pc = .deliver (y :: ys)) :
    ((s.goto (.deliver ys)).deliver cfg a y).patience < s.patience := by
  have hs {t : System} (hf : Frame (s.goto (.deliver ys)) t)
      (hr : t.rescans.length ≤ s.rescans.length + 1) : t.patience < s.patience := by
    refine hf.patience (by simp [Pc.early]) ?_
    rw [lag, hp, Pc.lag, Pc.lag, List.length_cons]
    omega
  simp only [System.deliver]
  repeat' split
  case h_2.isFalse => exact hs .settle settle_rescans
  all_goals exact hs (.refl _) (Nat.le_succ _)

theorem rescan_patience {id : ConnId} {ids : List ConnId} (hp : s.pc = .rescan (id :: ids)) :
    ((s.goto (.rescan ids)).rescan cfg a id).patience < s.patience := by
  have hl : s.lag = 4 * ids.length + 17 := by
    rw [lag, hp, Pc.lag, List.length_cons]
    omega
  have hg : (s.goto (.rescan ids)).patience < s.patience := by
    refine (Frame.refl _).patience (by simp [Pc.early]) ?_
    rw [hl, Pc.lag]
    omega
  simp only [System.rescan]
  repeat' split
  case h_2.isFalse c _ _ =>
    obtain ⟨_, hd⟩ := onReadable_reads cfg c (s.env a c)
    refine serve_patience hd.pool (by simp [Pc.early]) ?_
    rw [hl, Pc.lag, Pc.perJob]
    simp only [Pc.early, Bool.false_eq_true, ite_false]
    omega
  all_goals exact hg

-- A shutdown whose deadline is over does not lead to another round.
theorem loopStep_patience (hd : s.draining) (ho : s.overdue (.loop a))
    (h : s.loopStep cfg a = some s') : s'.patience < s.patience := by
  simp only [overdue, Bool.and_eq_true, decide_eq_true_eq] at ho
  obtain ⟨hn, ho⟩ := ho
  -- The step has a successor that is further on, whatever is left to rescan.
  have hg {t : System} {p : Pc} (hf : Frame s t) (he : p.early = false)
      (hl : p.lag s.completions.length t.rescans.length s.wakeCount < s.lag) :
      (t.goto p).patience < s.patience :=
    hf.goto.patience (by simp [he]) hl
  have hx : Frame s { s.closeAll with forcedShutdown := true } := by
    have hf := Frame.closeAll s
    exact ⟨hf.shared, hf.pool, hf.pc, hf.ids⟩
  simp only [loopStep] at h
  split at h
  case h_1 hp =>
    split at h <;> cases h
    case h_1 evs _ =>
      have hk := List.length_take_le kMaxEvents evs
      refine (Frame.refl _).patience (by simp [hp, Pc.early]) ?_
      simp only [System.goto, lag, hp, Pc.lag]
      omega
    case h_2 hw => simp [hw] at ho
    case h_3 =>
      refine hg (t := { s with exitCode := 1 }) ⟨rfl, rfl, rfl, Nat.le_refl _⟩ rfl ?_
      simp only [lag, hp, Pc.lag]
      omega
  case h_2 hp =>
    cases h
    refine (Frame.refl _).patience (by simp [hp, Pc.early]) ?_
    simp only [System.goto, lag, hp, Pc.lag]
    omega
  case h_3 hp => cases h; exact handleEvent_patience hp
  case h_4 hp =>
    split at h <;> cases h
    case isTrue hw =>
      refine patience_lt 0 rfl (Nat.le_refl _) (fun h => h) ?_
      simp only [lag, hp, Pc.lag, if_neg (Nat.pos_iff_ne_zero.mp hw), ite_true]
      omega
    case isFalse hw =>
      refine (Frame.refl _).patience (by simp [hp, Pc.early]) ?_
      simp only [System.goto, lag, hp, Pc.lag]
      split <;> omega
  case h_5 hp =>
    cases h
    refine patience_lt 0 rfl (Nat.le_refl _) (by simp [Pc.early]) ?_
    simp only [System.goto, lag, hp, Pc.lag]
    omega
  case h_6 hp  => cases h; exact hg (.refl s) rfl (by simp only [lag, hp, Pc.lag]; omega)
  case h_7 hp  => cases h; exact deliver_patience hp
  case h_8 hp  =>
    cases h
    refine hg (t := { s with rescans := [] }) ⟨rfl, rfl, rfl, Nat.le_refl _⟩ rfl ?_
    simp only [lag, hp, Pc.lag]
    omega
  case h_9 hp  =>
    cases h
    exact hg (t := s.collect) ⟨rfl, rfl, rfl, Nat.le_refl _⟩ rfl (by simp [lag, hp, Pc.lag])
  case h_10 hp => cases h; exact rescan_patience hp
  case h_11 hp => cases h; exact hg (.reap s) rfl (by simp [lag, hp, Pc.lag])
  case h_12 hp => cases h; exact hg .maybeBeginDrain rfl (by simp [lag, hp, Pc.lag])
  case h_13 hp =>
    split at h <;> cases h
    case isTrue  =>
      have hf : Frame { s with lastTick := a.now } ({ s with lastTick := a.now }.tick cfg a) := .tick
      exact hg ⟨hf.shared, hf.pool, hf.pc, hf.ids⟩ rfl (by simp [lag, hp, Pc.lag])
    case isFalse => exact hg (.refl s) rfl (by simp [lag, hp, Pc.lag])
  case h_14 hp => cases h; exact hg (.reap s) rfl (by simp [lag, hp, Pc.lag])
  case h_15 hp =>
    rw [if_neg (by simp [hd])] at h
    repeat' split at h
    all_goals cases h
    case isTrue =>
      exact hg hx rfl (by simp [lag, hp, Pc.lag])
    all_goals exact hg (.refl s) rfl (by simp [lag, hp, Pc.lag])
  case h_16 hp =>
    cases h
    split <;> exact hg (.refl s) rfl (by simp [lag, hp, Pc.lag])
  case h_17 hp =>
    cases h
    split <;> exact hg (.refl s) rfl (by simp [lag, hp, Pc.lag])
  case h_18 hp =>
    rw [if_pos hn] at h
    cases h
    exact hg hx rfl (by simp [lag, hp, Pc.lag])
  case h_19 hp =>
    cases h
    refine patience_lt 0 rfl (Nat.le_of_eq ?_) (by simp [Pc.early]) (by simp [lag, hp, Pc.lag])
    simp only [System.goto, Pool.stop]
    split <;> rfl
  case h_20 hp =>
    split at h <;> cases h
    exact hg (.refl s) rfl (by simp [lag, hp, Pc.lag])
  case h_21 hp =>
    cases h
    have hf := Frame.closeAll { s with completions := [] }
    refine patience_lt 0 (congrArg Shared.workers hf.shared) ?_ (by simp [Pc.early])
      (by simp [lag, hp, Pc.lag])
    exact Nat.le_of_eq (congrArg (fun p : Pool Job => p.queue.length) hf.pool)
  case h_22 => cases h

theorem lag_posts (p : Pc) (k r n : Nat) :
    p.lag (k + 1) r n + 1 + (Worker.lag p .posted) ≤ p.lag k r n + p.perJob := by
  cases p <;> simp [Pc.lag, Pc.perJob, Pc.early, Worker.lag] <;> omega

theorem lag_wakes (p : Pc) (k r n m : Nat) :
    p.lag k r n + 1 + (Worker.lag p .idle) ≤ p.lag k r m + Worker.lag p .posted := by
  cases p <;> simp only [Pc.lag, Pc.early, Worker.lag, ite_true, Bool.false_eq_true, ite_false] <;>
    repeat' split
  all_goals omega

theorem workerStep_patience {i : Nat} {throws : Bool} (h : s.workerStep cfg i throws = some s') :
    s'.patience < s.patience := by
  cases workerStep_work h
  case take i job queue hw hq =>
    have hn := sum_set (Worker.lag s.pc) (.running job) hw
    simp only [Worker.lag] at hn
    simp only [patience, lag, hq, List.length_cons, Nat.mul_add]
    omega
  case exit i hw _ _ =>
    have hn := sum_set (Worker.lag s.pc) .exited hw
    simp only [Worker.lag] at hn
    simp only [patience, lag]
    omega
  case post i job _ hw _ =>
    have hn := sum_set (Worker.lag s.pc) .posted hw
    have hl := lag_posts s.pc s.completions.length s.rescans.length s.wakeCount
    simp only [Worker.lag] at hn hl
    simp only [patience, lag, List.length_append, List.length_singleton]
    omega
  case wake i n hw _ =>
    have hn := sum_set (Worker.lag s.pc) .idle hw
    have hl := lag_wakes s.pc s.completions.length s.rescans.length n s.wakeCount
    simp only [patience, lag]
    omega

theorem stop_stopping (p : Pool Job) : p.stop.stopping := by
  rw [Pool.stop]
  split
  case isTrue h => simp_all
  case isFalse  => rfl

-- The pool stops before the loop waits for its threads.
def Joins (s : System) : Prop :=
  s.pc = .join → s.pool.stopping

theorem Joins.step (h : s.Joins) (hs : Http.step cfg s x = some s') : s'.Joins := by
  intro hp
  cases x
  case worker => cases workerStep_work hs <;> exact h hp
  case loop   =>
    cases loopStep_next hs
    case goto hg => cases hg <;> cases hp
    case retry   => exact h hp
    case counter => exact h hp
    case stop    => exact stop_stopping _
    case reap ht => rcases ht with ⟨_, rfl⟩ | ⟨_, rfl⟩ <;> cases hp
    case event | rescan => rw [Frame.serve.pc] at hp; cases hp
    case deliver        => rw [Frame.settle.pc] at hp; cases hp
    all_goals cases hp

-- Nobody is blocked for good.
theorem Joins.unblocked (h : s.Joins) :
    s.pc = .returned ∨ ∃ x s', s.overdue x ∧ Http.step cfg s x = some s' := by
  by_cases hj : s.pc = .join
  case pos =>
    refine .inr ?_
    by_cases hx : s.workers.all (· = .exited)
    case pos =>
      refine ⟨.loop { now := s.drainDeadline }, s.goto .cleanup, by simp [overdue], ?_⟩
      simp [Http.step, loopStep, hj, hx]
    case neg =>
      simp only [List.all_eq_true, decide_eq_true_eq, not_forall] at hx
      obtain ⟨w, hw, hx⟩ := hx
      obtain ⟨i, hi⟩ := List.getElem?_of_mem hw
      refine ⟨.worker i false, ?_⟩
      simp only [Http.step, workerStep, hi, overdue, true_and]
      cases w
      case idle =>
        cases hq : s.pool.queue <;> simp [Pool.take, hq, h hj]
      case running => exact ⟨_, rfl⟩
      case posted  => exact ⟨_, rfl⟩
      case exited  => exact absurd rfl hx
  case neg =>
    refine Classical.or_iff_not_imp_left.mpr fun hr => ?_
    refine ⟨.loop { now := s.drainDeadline }, ?_⟩
    have ho : s.overdue (.loop { now := s.drainDeadline }) := by simp [overdue]
    simp only [Http.step, ho, true_and, ← Option.isSome_iff_exists]
    simp only [loopStep]
    split <;> repeat' split
    all_goals first | rfl | simp_all

-- A shutdown ends. From the time of its deadline on the server takes a bounded number of steps, in
-- whatever order, and until `run` has returned there is a step that can be taken.
theorem shutdown_returns (cfg : Config) (started : Nat) (now : Time) {as : List Action}
    (h : Reaches (Http.step cfg) (fun _ _ => True) (init cfg started now) s) (hd : s.draining)
    (he : exec (Http.step cfg) (fun s x => s.overdue x) s as = some s') :
    as.length + s'.patience ≤ s.patience ∧
      (s'.pc = .returned ∨ ∃ x s'', s'.overdue x ∧ step cfg s' x = some s'') := by
  have hj : s.Joins := h.invariant (fun hp => by cases hp) fun _ hi _ hs => hi.step hs
  have hs : (s'.draining ∧ s'.Joins) ∧ as.countP (fun _ => true) + s'.patience ≤ s.patience := by
    refine exec_spends (P := fun s => s.draining ∧ s.Joins) (fun {s x s'} h ho hs => ?_) ⟨hd, hj⟩ he
    refine ⟨⟨(drain_step hs h.1).1, h.2.step hs⟩, ?_⟩
    cases x
    case loop   => exact loopStep_patience h.1 ho hs
    case worker => exact workerStep_patience hs
  rw [List.countP_true] at hs
  exact ⟨hs.2, hs.1.2.unblocked⟩

-- A request is not finished in time, and its thread has to be waited for.
def drainUnfinished : List Action :=
  asked "GET / HTTP/1.1\r\n\r\n" ++
    iterate 13 { waited := .ready [.signal], signals := 1, now := 1000000000 }

def overtime : List Action :=
  iterate 13 { now := 6000000000 } ++ .replicate 4 (.worker 0 false) ++ iterate 2 { now := 6000000000 }

theorem shutdown_returns_forced : ∃ s s' : System, s.draining ∧ s.conns = [(7, 1)] ∧
    exec (Http.step {}) (fun s x => s.overdue x) s overtime = some s' ∧ s'.pc = .returned ∧
    overtime.length = 19 ∧ overtime.length + s'.patience ≤ s.patience := by
  have ⟨s, _, hr, hd, hc, s', he, hp⟩ := exec_any (Http.step {}) (fun _ _ => True) (init {} 1 0)
    drainUnfinished (fun s => s.draining ∧ s.conns = [(7, 1)] ∧
      ∃ s' ∈ exec (Http.step {}) (fun s x => s.overdue x) s overtime, s'.pc = .returned)
    (by decide +kernel)
  exact ⟨s, s', hd, hc, he, hp, rfl, (shutdown_returns {} 1 0 hr hd he).1⟩

end System
end Http
