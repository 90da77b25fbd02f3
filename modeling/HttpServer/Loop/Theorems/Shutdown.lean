import HttpServer.Loop.Theorems.Drain
import HttpServer.Objects.Theorems.Pool

namespace Http

-- A thread of the server as the pool sees it.
def Worker.thread : Worker → Thread Job
  | idle | posted => .idle
  | running job   => .running job
  | exited        => .exited

-- The threads have been joined or detached.
def Pc.ended : Pc → Bool
  | cleanup | returned => true
  | _                  => false

namespace System

open Transition
open Connection hiding refuses

variable {cfg : Config} {a : Answers} {s s' : System} {c c' : Connection} {id : ConnId} {fd : Fd}
variable {x : Action} {now : Time} {p : Pc} {i : Nat}

-- The pool of the server with its threads.
def Staffed (s : System) (crew : Crew Job) : Prop :=
  crew.pool = s.pool ∧ crew.threads = s.workers.map Worker.thread

-- What the loop can do to the pool: it submits a job, or it stops the pool.
def Employs (s t : System) : Prop :=
  t.workers = s.workers ∧
    (t.pool = s.pool ∨ (∃ job, s.pool.trySubmit job = some t.pool) ∨ t.pool = s.pool.stop)

theorem Frame.employs {t : System} (hf : Frame t s') (hw : t.workers = s.workers)
    (hp : t.pool = s.pool) : s.Employs s' :=
  ⟨(congrArg Shared.workers hf.shared).trans hw, .inl (hf.pool.trans hp)⟩

theorem serve_employs {r : Connection × Env} {as : List Act} (hp : Submits s.pool as r.2.pool) :
    s.Employs ((s.goto p).serve cfg a r) := by
  have hf : Frame { s.goto p with pool := r.2.pool } ((s.goto p).serve cfg a r) := .serve
  have hq : ((s.goto p).serve cfg a r).pool = r.2.pool := hf.pool
  refine ⟨congrArg Shared.workers hf.shared, ?_⟩
  rw [hq]
  generalize r.2.pool = pool at hp
  cases hp
  case submit job hj => exact .inr (.inl ⟨job, hj⟩)
  all_goals exact .inl rfl

theorem Next.employs (h : Next cfg a s s') : s.Employs s' := by
  cases h
  case signal => exact (Frame.handleSignals a.signals s).employs rfl rfl
  case accept => exact (Frame.acceptBatch cfg a.now kAcceptBatch a.accepts s).employs rfl rfl
  case event err hup input output _ _ c _ _ _ =>
    have ⟨_, hd⟩ := onEvent_reads cfg err hup input output c (s.env a c)
    exact serve_employs hd.pool
  case deliver ys _ _ _ _ => exact Frame.employs (t := s.goto (.deliver ys)) .settle rfl rfl
  case rescan c _ _ _ =>
    have ⟨_, hd⟩ := onReadable_reads cfg c (s.env a c)
    exact serve_employs hd.pool
  case reap    => exact (Frame.reap s).employs rfl rfl
  case drain   => exact Frame.maybeBeginDrain.employs rfl rfl
  case tick    =>
    have hf : Frame { s with lastTick := a.now } ({ s with lastTick := a.now }.tick cfg a) := .tick
    exact hf.employs rfl rfl
  case force   => exact (Frame.closeAll s).employs rfl rfl
  case stop    => exact ⟨rfl, .inr (.inr rfl)⟩
  case cleanup => exact (Frame.closeAll { s with completions := [] }).employs rfl rfl
  all_goals exact ⟨rfl, .inl rfl⟩

theorem Employs.staffed {crew : Crew Job} (he : s.Employs s') (h : s.Staffed crew) :
    ∃ crew', Reaches Crew.step (fun _ _ => True) crew crew' ∧ s'.Staffed crew' := by
  have ⟨hp, ht⟩ := h
  have ⟨hw, he⟩ := he
  rcases he with he | ⟨job, he⟩ | he
  case inl => exact ⟨crew, .refl, hp.trans he.symm, hw ▸ ht⟩
  case inr.inl =>
    have hs : crew.step (.submit job) = some { crew with pool := s'.pool } := by
      simp only [Crew.step, hp, he]
    exact ⟨_, .tail .refl trivial hs, rfl, hw ▸ ht⟩
  case inr.inr => exact ⟨_, .tail (a := .stop) .refl trivial rfl, by rw [he, ← hp], hw ▸ ht⟩

theorem Work.staffed {crew : Crew Job} (hw : Work cfg s s') (h : s.Staffed crew) :
    ∃ crew', Reaches Crew.step (fun _ _ => True) crew crew' ∧ s'.Staffed crew' := by
  obtain ⟨hp, ht⟩ := h
  have hi {i : Nat} {w : Worker} (hw : s.workers[i]? = some w) :
      crew.threads[i]? = some w.thread := by
    rw [ht, List.getElem?_map, hw]
    rfl
  have hn (i : Nat) (w : Worker) :
      crew.threads.set i w.thread = (s.workers.set i w).map Worker.thread := by
    rw [ht, List.map_set]
  cases hw
  case take i job queue hw hq =>
    have hs : crew.step (.work i false) = some { crew with
        pool    := { s.pool with queue := queue, taken := s.pool.taken ++ [job] }
        threads := crew.threads.set i (.running job)
        turns   := crew.turns ++ [(i, job)] } := by
      simp [Crew.step, Crew.work, hi hw, Worker.thread, Pool.take, hp, hq]
    exact ⟨_, .tail .refl trivial hs, rfl, hn i (.running job)⟩
  case exit i hw hq hx =>
    have hs : crew.step (.work i false) = some { crew with threads := crew.threads.set i .exited } := by
      simp [Crew.step, Crew.work, hi hw, Worker.thread, Pool.take, hp, hq, hx]
    exact ⟨_, .tail .refl trivial hs, hp, hn i .exited⟩
  case post i y job throws hw hy =>
    have hs : crew.step (.work i throws) = some { crew with
        threads := crew.threads.set i .idle
        runs    := crew.runs ++ [job] } := by
      simp [Crew.step, Crew.work, hi hw, Worker.thread]
    exact ⟨_, .tail .refl trivial hs, hp, hn i .posted⟩
  case wake i n hw _ =>
    have hs : crew.threads.set i .idle = crew.threads := by
      obtain ⟨hl, he⟩ := List.getElem?_eq_some_iff.mp (hi hw)
      rw [Worker.thread] at he
      rw [← he]
      exact List.set_getElem_self hl
    exact ⟨crew, .refl, hp, hs.symm.trans (hn i .idle)⟩

-- The pool of the server behaves like a pool.
theorem staffed {ok : System → Action → Prop} {started : Nat}
    (h : Reaches (Http.step cfg) ok (init cfg started now) s) :
    ∃ crew, Crew.Ordered started crew ∧ s.Staffed crew := by
  have h₀ : (init cfg started now).Staffed (Crew.new cfg.maxQueue started) :=
    ⟨rfl, by simp [Crew.new, init, Worker.thread]⟩
  have hr : ∃ crew, Reaches Crew.step (fun _ _ => True) (Crew.new cfg.maxQueue started) crew ∧
      s.Staffed crew := by
    refine h.simulates h₀ fun {_ x _ _} _ hs hi => ?_
    cases x
    case loop   => exact (loopStep_next hs).employs.staffed hi
    case worker => exact (workerStep_work hs).staffed hi
  obtain ⟨crew, hr, hc⟩ := hr
  exact ⟨crew, .reaches hr, hc⟩

-- Once all threads are gone there is nothing left to do.
theorem deserted {ok : System → Action → Prop} {started : Nat}
    (h : Reaches (Http.step cfg) ok (init cfg started now) s) (hx : s.workers.all (· = .exited)) :
    s.pool.queue = [] := by
  have ⟨crew, ho, hp, ht⟩ := staffed h
  rw [← hp]
  refine ho.deserted fun t hm => ?_
  rw [ht] at hm
  have ⟨w, hw, he⟩ := List.mem_map.mp hm
  have hx := of_decide_eq_true (List.all_eq_true.mp hx w hw)
  rw [← he, hx]
  rfl

-- No thread is at work, and none will be.
def idles (s : System) : Bool :=
  s.pool.queue.isEmpty && s.workers.all fun w => w = .idle || w = .exited

-- If `stop_forced` gives up because its time is over, then the threads have nothing to do.
def outwaits (s : System) : Action → Bool
  | .loop a     => s.pc ≠ .join || !(s.forcedShutdown && a.expired) || s.idles
  | .worker _ _ => true

-- The only thing that is left to a thread is to exit.
def Outlived (cfg : Config) (s : System) : Prop :=
  ∀ i throws s', Http.step cfg s (.worker i throws) = some s' →
    s' = { s with workers := s.workers.set i .exited }

theorem idles_iff : s.idles ↔ s.pool.queue = [] ∧ ∀ w ∈ s.workers, w = .idle ∨ w = .exited := by
  simp [idles]

theorem idles_step {throws : Bool} (h : s.idles)
    (hs : step cfg s (.worker i throws) = some s') :
    s' = { s with workers := s.workers.set i .exited } := by
  have ⟨hq, hi⟩ := idles_iff.mp h
  have hm {w : Worker} (hw : s.workers[i]? = some w) := hi w (List.mem_of_getElem? hw)
  simp only [step, workerStep] at hs
  split at hs
  case h_1 =>
    simp only [Pool.take, hq] at hs
    cases ht : s.pool.stopping <;> simp only [ht] at hs <;> cases hs
    rfl
  case h_2 hw => simpa using hm hw
  case h_3 hw => simpa using hm hw
  case h_4    => cases hs
  case h_5    => cases hs

theorem idles_exit (h : s.idles) : idles { s with workers := s.workers.set i .exited } := by
  have ⟨hq, hi⟩ := idles_iff.mp h
  refine idles_iff.mpr ⟨hq, fun w hw => ?_⟩
  rcases List.mem_or_eq_of_mem_set hw with hw | hw
  case inl => exact hi w hw
  case inr => exact .inr hw

-- The loop is left through `join`, when its threads are gone or the time of `stop_forced` is over.
theorem Next.ended (h : Next cfg a s s') (hp : s'.pc.ended) :
    (s.pc = .join ∧ (s.workers.all (· = .exited) ∨ s.forcedShutdown ∧ a.expired) ∨
      s.pc = .cleanup) ∧ s'.workers = s.workers ∧ s'.pool = s.pool := by
  cases h
  case goto hg =>
    cases hg
    case joined hq hx => exact ⟨.inl ⟨hq, hx⟩, rfl, rfl⟩
    all_goals cases hp
  case cleanup hq =>
    have hf := Frame.closeAll { s with completions := [] }
    exact ⟨.inr hq, congrArg Shared.workers hf.shared, hf.pool⟩
  case event | rescan => rw [Frame.serve.pc] at hp; cases hp
  case deliver        => rw [Frame.settle.pc] at hp; cases hp
  case retry hq       => rw [hq] at hp; cases hp
  case counter hq     => rw [hq] at hp; cases hp
  case reap hq        => rcases hq with ⟨_, rfl⟩ | ⟨_, rfl⟩ <;> cases hp
  all_goals cases hp

-- A join that is not given up has waited for the threads, and a thread exits only when the queue
-- is empty.
theorem joined_idles {ok : System → Action → Prop} {started : Nat}
    (h : Reaches (Http.step cfg) ok (init cfg started now) s) (hx : s.workers.all (· = .exited)) :
    s.idles :=
  idles_iff.mpr ⟨deserted h hx, fun w hw => .inr (of_decide_eq_true (List.all_eq_true.mp hx w hw))⟩

theorem ended_idles {started : Nat}
    (h : Reaches (Http.step cfg) (fun s x => s.outwaits x) (init cfg started now) s) :
    s.pc.ended → s.idles := by
  refine h.invariant (P := fun s => s.pc.ended → s.idles) (by simp [init, Pc.ended])
    fun {s x s'} hr hi hk hs hp => ?_
  cases x
  case worker =>
    have hq : s'.pc = s.pc := by cases workerStep_work hs <;> rfl
    have hx := hi (hq ▸ hp)
    rw [idles_step hx hs]
    exact idles_exit hx
  case loop a =>
    obtain ⟨hq, hw, he⟩ := (loopStep_next hs).ended hp
    have hx : s.idles := by
      rcases hq with ⟨hq, hx | ⟨hf, hx⟩⟩ | hq
      case inl.inl => exact joined_idles hr hx
      case inl.inr => simpa [outwaits, hq, hf, hx] using hk
      case inr     => exact hi (by simp [hq, Pc.ended])
    rw [idles, hw, he]
    exact hx

theorem none_outlives (cfg : Config) (started : Nat) (now : Time)
    (h : Reaches (Http.step cfg) (fun s x => s.outwaits x) (init cfg started now) s)
    (hp : s.pc = .returned) : s.Outlived cfg :=
  fun _ _ _ hs => idles_step (ended_idles h (by simp [hp, Pc.ended])) hs

-- The loop is forced to return after a request was served, and does not wait for the idle thread.
def forcedIdle : List Action :=
  asked "GET / HTTP/1.1\r\n\r\n" ++
    (served [.accepted 1000]).take 18 ++
    iterate 14 { waited := .ready [.signal], signals := 2, expired := true }

theorem none_outlives_idle :
    ∃ s s', exec (Http.step {}) (fun s x => s.outwaits x) (init {} 1 0) forcedIdle = some s ∧
      s.pc = .returned ∧ Http.step {} s (.worker 0 false) = some s' ∧
      s' = { s with workers := s.workers.set 0 .exited } := by
  have ⟨s, hs, hr, hp, s', hw, _⟩ := exec_any (Http.step {}) (fun s x => s.outwaits x) (init {} 1 0)
    forcedIdle (fun s => s.pc = .returned ∧ ∃ s' ∈ Http.step {} s (.worker 0 false), s'.pc = .returned)
    (by decide +kernel)
  exact ⟨s, s', hs, hp, hw, none_outlives {} 1 0 hr hp 0 false s' hw⟩

-- The loop is forced to return while a request is being handled.
def forcedBusy : List Action :=
  asked "GET / HTTP/1.1\r\n\r\n" ++ [.worker 0 false] ++
    iterate 14 { waited := .ready [.signal], signals := 2, expired := true }

theorem detached_posts :
    ¬∀ s, Reaches (Http.step {}) (fun _ _ => True) (init {} 1 0) s → s.pc = .returned →
      s.Outlived {} := by
  have ⟨s, _, hr, hp, hl, s', hw, hn⟩ := exec_any (Http.step {}) (fun _ _ => True) (init {} 1 0)
    forcedBusy (fun s => s.pc = .returned ∧ s.workers.length = 1 ∧
      ∃ s' ∈ Http.step {} s (.worker 0 false), s'.workers = [.posted]) (by decide +kernel)
  intro ho
  rw [ho s hr hp 0 false s' hw] at hn
  have ⟨w, hm⟩ := List.length_eq_one_iff.mp hl
  simp [hm] at hn

end System
end Http
