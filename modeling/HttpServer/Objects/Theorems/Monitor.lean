import HttpServer.Objects.Monitor
import HttpServer.Objects.Theorems.Pool
import HttpServer.Library.Update

namespace Http

variable {J : Type}

-- The thread looks at the queue before it waits.
def Stage.awake : Stage J → Bool
  | locking | locked => true
  | _                => false

def Stage.holdsLock : Stage J → Bool
  | locked | parking => true
  | _                => false

-- The stages as `Crew` knows them.
def Stage.thread : Stage J → Thread J
  | running job => .running job
  | exited      => .exited
  | _           => .idle

def Call.isNotifyOne : Call → Bool
  | notifyOne => true
  | _         => false

def Call.isNotifyAll : Call → Bool
  | notifyAll _ _ => true
  | _             => false

namespace Monitor

open Transition Update

-- What a step can do.
inductive Next (m : Monitor J) : Act J → Monitor J → Prop
  | accept  : m.owner = none → m.pool.trySubmit job = some p →
    Next m (.submit job) { m with pool := p, calls := m.calls ++ [.notifyOne] }
  | reject  : m.owner = none → m.pool.trySubmit job = none →
    Next m (.submit job) { m with calls := m.calls ++ [.submitted false] }
  | stopped : m.owner = none → m.pool.stopping →
    Next m .stop { m with calls := m.calls ++ [.stopped] }
  | stop    : m.owner = none → Next m (if f then .stopForced else .stop) { m with
      pool    := { m.pool with stopping := true, threads := 0, joined := true }
      handles := []
      calls   := m.calls ++ [.notifyAll f m.handles] }
  | signal  : m.calls[k]? = some .notifyOne → m.stages[i]? = some .waiting →
    Next m (.notify k i) { m with
      stages := m.stages.set i .locking
      calls  := m.calls.set k (.submitted true) }
  | unheard : m.calls[k]? = some .notifyOne → (∀ t ∈ m.stages, t.isWaiting = false) →
    Next m (.notify k i) { m with calls := m.calls.set k (.submitted true) }
  | alarm   : m.calls[k]? = some (.notifyAll f ts) → Next m (.notify k i) { m with
      stages := m.stages.map Stage.woken
      calls  := m.calls.set k (if f then .tryJoin ts true else .join ts) }
  | finish  : m.calls[k]? = some (.join []) →
    Next m (.advance k x) { m with calls := m.calls.set k .stopped }
  | tried   : m.calls[k]? = some (.tryJoin [] r) →
    Next m (.advance k x) { m with calls := m.calls.set k (.stoppedForced r) }
  | join    : m.calls[k]? = some (.join (t :: ts)) → m.stages[t]? = some .exited →
    Next m (.advance k x) { m with
      joined := m.joined ++ [t]
      calls  := m.calls.set k (.join ts) }
  | tryJoin : m.calls[k]? = some (.tryJoin (t :: ts) r) → m.stages[t]? = some .exited →
    Next m (.advance k x) { m with
      joined := m.joined ++ [t]
      calls  := m.calls.set k (.tryJoin ts r) }
  | detach  : m.calls[k]? = some (.tryJoin (t :: ts) r) → Next m (.advance k x) { m with
      detached := m.detached ++ [t]
      calls    := m.calls.set k (.tryJoin ts false) }
  | pause   : Next m (.advance k x) m
  | wake    : m.stages[i]? = some .waiting →
    Next m (.wake i) { m with stages := m.stages.set i .locking }
  | lock    : m.stages[i]? = some .locking → m.owner = none →
    Next m (.work i x) { m with owner := some i, stages := m.stages.set i .locked }
  | take    : m.stages[i]? = some .locked → m.pool.queue = job :: queue →
    Next m (.work i x) { m with
      pool   := { m.pool with queue := queue, taken := m.pool.taken ++ [job] }
      owner  := none
      stages := m.stages.set i (.running job) }
  | exit    : m.stages[i]? = some .locked → m.pool.queue = [] → m.pool.stopping →
    Next m (.work i x) { m with owner := none, stages := m.stages.set i .exited }
  | check   : m.stages[i]? = some .locked → m.pool.queue = [] → m.pool.stopping = false →
    Next m (.work i x) { m with stages := m.stages.set i .parking }
  | wait    : m.stages[i]? = some .parking →
    Next m (.work i x) { m with owner := none, stages := m.stages.set i .waiting }
  | ran     : m.stages[i]? = some (.running job) → Next m (.work i x) { m with
      stages := m.stages.set i .locking
      runs   := m.runs ++ [job] }

variable {m m' : Monitor J} {a : Act J}

theorem isWaiting_iff {o : Option (Stage J)} : o.any Stage.isWaiting ↔ o = some .waiting := by
  rcases o with _ | t
  case none => simp
  case some => cases t <;> simp [Stage.isWaiting]

theorem isExited_iff {o : Option (Stage J)} : o.any Stage.isExited ↔ o = some .exited := by
  rcases o with _ | t
  case none => simp
  case some => cases t <;> simp [Stage.isExited]

theorem notify_next {k i : Nat} (h : m.notify k i = some m') : Next m (.notify k i) m' := by
  simp only [notify] at h
  split at h
  case h_1 hk =>
    repeat' split at h
    all_goals cases h
    case isTrue hi         => exact .signal hk (isWaiting_iff.mp hi)
    case isFalse.isFalse hn => exact .unheard hk (by simpa using hn)
  case h_2 hk => cases h; exact .alarm hk
  case h_3    => cases h

theorem advance_next {k : Nat} {x : Bool} (h : m.advance k x = some m') : Next m (.advance k x) m' := by
  simp only [advance] at h
  split at h
  case h_1 hk => cases h; exact .finish hk
  case h_2 hk =>
    split at h <;> cases h
    case isTrue ht => exact .join hk (isExited_iff.mp ht)
  case h_3 hk => cases h; exact .tried hk
  case h_4 hk =>
    repeat' split at h
    all_goals cases h
    case isTrue ht       => exact .tryJoin hk (isExited_iff.mp ht)
    case isFalse.isTrue  => exact .detach hk
    case isFalse.isFalse => exact .pause
  case h_5 => cases h

theorem work_next {i : Nat} {x : Bool} (h : m.work i x = some m') : Next m (.work i x) m' := by
  simp only [work, Pool.take] at h
  split at h
  case h_1 hi =>
    split at h <;> cases h
    case isFalse hn => exact .lock hi (by simpa using hn)
  case h_2 hi =>
    cases hq : m.pool.queue
    case nil =>
      cases hs : m.pool.stopping <;> simp only [hq, hs] at h <;> cases h
      case false => exact .check hi hq hs
      case true  => exact .exit hi hq hs
    case cons job queue =>
      simp only [hq] at h
      cases h
      exact .take hi hq
  case h_3 hi => cases h; exact .wait hi
  case h_4 hi => cases h; exact .ran hi
  case h_5    => cases h

theorem step_next (h : m.step a = some m') : Next m a m' := by
  cases a <;> simp only [step] at h
  case submit =>
    simp only [trySubmit] at h
    split at h
    case isTrue => cases h
    case isFalse hn =>
      split at h <;> cases h
      case h_1 hs => exact .accept (by simpa using hn) hs
      case h_2 hs => exact .reject (by simpa using hn) hs
  case stop =>
    simp only [Monitor.stop] at h
    repeat' split at h
    all_goals cases h
    case isFalse.isTrue hn hs =>
      simp only [Bool.and_eq_true] at hs
      exact .stopped (by simpa using hn) hs.1
    case isFalse.isFalse hn hs =>
      rw [Pool.stop, if_neg hs]
      exact .stop (f := false) (by simpa using hn)
  case stopForced =>
    simp only [Monitor.stopForced] at h
    split at h <;> cases h
    case isFalse hn => exact .stop (f := true) (by simpa using hn)
  case notify  => exact notify_next h
  case advance => exact advance_next h
  case wake    =>
    split at h <;> cases h
    case isTrue hi => exact .wake (isWaiting_iff.mp hi)
  case work    => exact work_next h

-- The mutex is held by the thread that thinks so, and a thread that has found nothing to do holds it
-- until it waits.
structure Guarded (m : Monitor J) : Prop where
  owner  : ∀ i, m.owner = some i ↔ (m.stages[i]?).any Stage.holdsLock
  parked : .parking ∈ m.stages → m.pool.queue = [] ∧ m.pool.stopping = false

theorem holdsLock_woken (l : List (Stage J)) (i : Nat) :
    ((l.map Stage.woken)[i]?).any Stage.holdsLock = (l[i]?).any Stage.holdsLock := by
  rw [List.getElem?_map]
  cases l[i]? with
  | none   => rfl
  | some t => cases t <;> rfl

theorem Guarded.unlocked (h : m.Guarded) (ho : m.owner = none) (t : Stage J) (ht : t ∈ m.stages) :
    t.holdsLock = false := by
  obtain ⟨i, hi⟩ := List.getElem?_of_mem ht
  have hn := mt (h.owner i).mpr (by simp [ho])
  simpa [hi] using hn

-- A thread moves on, and the mutex goes with it.
theorem Guarded.set {i : Nat} {t : Stage J} (t' : Stage J) (h : m.Guarded)
    (hi : m.stages[i]? = some t) (hs : m'.stages = m.stages.set i t') (hn : t' ≠ .parking)
    (ho : m'.owner = if t'.holdsLock then some i else if t.holdsLock then none else m.owner)
    (hl : t'.holdsLock → m.owner = none)
    (hp : .parking ∈ m.stages → m'.pool.queue = [] ∧ m'.pool.stopping = false) : m'.Guarded where
  owner j := by
    have hj := h.owner j
    have hi' := h.owner i
    have hlt : i < m.stages.length := (List.getElem?_eq_some_iff.mp hi).1
    rw [hs, ho, List.getElem?_set]
    grind
  parked hm := by
    rw [hs] at hm
    exact hp ((List.mem_or_eq_of_mem_set hm).resolve_right fun he => hn he.symm)

theorem Guarded.next (h : m.Guarded) (hn : Next m a m') : m'.Guarded := by
  cases hn
  case accept job p ho hs =>
    refine ⟨h.owner, fun hp => ?_⟩
    cases h.unlocked ho _ hp
  case stop ho =>
    refine ⟨h.owner, fun hp => ?_⟩
    cases h.unlocked ho _ hp
  case signal hi => exact h.set .locking hi rfl nofun rfl nofun h.parked
  case wake hi   => exact h.set .locking hi rfl nofun rfl nofun h.parked
  case alarm =>
    refine ⟨fun i => by rw [holdsLock_woken]; exact h.owner i, fun hp => h.parked ?_⟩
    obtain ⟨t, ht, he⟩ := List.mem_map.mp hp
    cases t <;> cases he
    exact ht
  case lock hi ho  => exact h.set .locked hi rfl nofun rfl (fun _ => ho) h.parked
  case exit hi _ _ => exact h.set .exited hi rfl nofun rfl nofun h.parked
  case wait hi     => exact h.set .waiting hi rfl nofun rfl nofun h.parked
  case ran hi      => exact h.set .locking hi rfl nofun rfl nofun h.parked
  case take i job _ _ hi hq =>
    refine h.set (.running job) hi rfl nofun rfl nofun fun hp => ?_
    simp [(h.parked hp).1] at hq
  case check i _ hi hq hs =>
    refine ⟨fun j => ?_, fun _ => ⟨hq, hs⟩⟩
    have hj := h.owner j
    have hlt : i < m.stages.length := (List.getElem?_eq_some_iff.mp hi).1
    dsimp only
    rw [hj, List.getElem?_set]
    split
    case isTrue he =>
      subst he
      rw [hi]
      exact Iff.rfl
    case isFalse => rfl
  all_goals exact ⟨h.owner, h.parked⟩

-- While a thread sleeps, there are enough others that will look at the queue, or are about to be
-- woken, for all the jobs in it. Nobody sleeps through a stop.
structure Roused (m : Monitor J) : Prop where
  queue : m.stages.any Stage.isWaiting →
    m.pool.queue.length ≤ m.stages.countP Stage.awake + m.calls.countP Call.isNotifyOne
  stop  : m.pool.stopping → m.stages.any Stage.isWaiting → m.calls.any Call.isNotifyAll

-- A call goes on without a notification.
theorem Roused.call {k : Nat} {c c' : Call} (h : m.Roused) (hk : m.calls[k]? = some c)
    (hc : c.isNotifyOne = false) (hc' : c'.isNotifyOne = false) (ha : c.isNotifyAll = false)
    (hp : m'.pool = m.pool) (hs : m'.stages = m.stages) (hm : m'.calls = m.calls.set k c') :
    m'.Roused where
  queue hw := by
    have hn := countP_set Call.isNotifyOne c' hk
    have hq := h.queue (hs ▸ hw)
    rw [hc, hc'] at hn
    rw [hp, hs, hm]
    omega
  stop hs' hw := by
    rw [hm]
    exact any_set (h.stop (hp ▸ hs') (hs ▸ hw)) hk ha

-- A new call is made.
theorem Roused.enter {c : Call} (h : m.Roused) (hq : m'.pool.queue = m.pool.queue)
    (hp : m'.pool.stopping → m.pool.stopping ∨ c.isNotifyAll) (hs : m'.stages = m.stages)
    (hm : m'.calls = m.calls ++ [c]) : m'.Roused where
  queue hw := by
    have hq' := h.queue (hs ▸ hw)
    rw [hq, hs, hm, List.countP_append]
    omega
  stop hs' hw := by
    rw [hm, List.any_append, Bool.or_eq_true]
    rcases hp hs' with hp | hp
    case inl => exact .inl (h.stop hp (hs ▸ hw))
    case inr => exact .inr (by simpa using hp)

-- A thread moves on, and it does not wait. It may have taken a job.
theorem Roused.set {i : Nat} {t : Stage J} (t' : Stage J) (h : m.Roused) (hi : m.stages[i]? = some t)
    (hs : m'.stages = m.stages.set i t') (hw : t'.isWaiting = false)
    (hq : m'.pool.queue.length + t.awake.toNat ≤ m.pool.queue.length + t'.awake.toNat)
    (hp : m'.pool.stopping = m.pool.stopping) (hm : m'.calls = m.calls) : m'.Roused where
  queue hw' := by
    have hn := countP_set Stage.awake t' hi
    have hq' := h.queue (any_of_set (hs ▸ hw') hw)
    rw [hs, hm]
    omega
  stop hs' hw' := hm ▸ h.stop (hp ▸ hs') (any_of_set (hs ▸ hw') hw)

theorem Roused.next (h : m.Roused) (hg : m.Guarded) (hn : Next m a m') : m'.Roused := by
  cases hn
  case accept job p ho hs =>
    obtain ⟨hn, _, _, rfl⟩ := Pool.trySubmit_eq hs
    refine ⟨fun hw => ?_, fun hs' => by simp [hn] at hs'⟩
    have hq := h.queue hw
    simp only [List.length_append, List.length_singleton, List.countP_append, List.countP_singleton,
      Call.isNotifyOne, ite_true]
    omega
  case reject  => exact h.enter rfl .inl rfl rfl
  case stopped => exact h.enter rfl .inl rfl rfl
  case stop    => exact h.enter rfl (fun _ => .inr rfl) rfl rfl
  case signal k i hk hi =>
    refine ⟨fun hw => ?_, fun hs hw => any_set (h.stop hs (any_of_set hw rfl)) hk rfl⟩
    have hn := countP_set Call.isNotifyOne (.submitted true) hk
    have hn' := countP_set Stage.awake .locking hi
    have hq := h.queue (any_of_set hw rfl)
    simp only [Call.isNotifyOne, Stage.awake, Bool.toNat_true, Bool.toNat_false] at hn hn'
    dsimp only
    omega
  case unheard hk hn =>
    have hx : m.stages.any Stage.isWaiting = false := by simpa using hn
    exact ⟨fun hw => by simp [hx] at hw, fun _ hw => by simp [hx] at hw⟩
  case alarm =>
    have hx : (m.stages.map Stage.woken).any Stage.isWaiting = false := by
      simp only [List.any_map, List.any_eq_false, Function.comp_apply, Bool.not_eq_true]
      intro t _
      cases t <;> rfl
    exact ⟨fun hw => by simp [hx] at hw, fun _ hw => by simp [hx] at hw⟩
  case finish hk    => exact h.call hk rfl rfl rfl rfl rfl rfl
  case tried hk     => exact h.call hk rfl rfl rfl rfl rfl rfl
  case join hk _    => exact h.call hk rfl rfl rfl rfl rfl rfl
  case tryJoin hk _ => exact h.call hk rfl rfl rfl rfl rfl rfl
  case detach hk    => exact h.call hk rfl rfl rfl rfl rfl rfl
  case pause        => exact h
  case wake hi      => exact h.set .locking hi rfl rfl (by simp [Stage.awake]) rfl rfl
  case lock hi _    => exact h.set .locked hi rfl rfl (by simp [Stage.awake]) rfl rfl
  case ran hi       => exact h.set .locking hi rfl rfl (by simp [Stage.awake]) rfl rfl
  case take hi hq   => exact h.set (.running _) hi rfl rfl (by simp [hq, Stage.awake]) rfl rfl
  case exit hi hq _ =>
    refine ⟨fun _ => by simp [hq], fun hs hw => h.stop hs (any_of_set hw rfl)⟩
  case check hi hq hs => exact ⟨fun _ => by simp [hq], fun hs' => by simp [hs] at hs'⟩
  case wait hi =>
    obtain ⟨hq, hs⟩ := hg.parked (List.mem_of_getElem? hi)
    exact ⟨fun _ => by simp [hq], fun hs' => by simp [hs] at hs'⟩

-- The mutex and the condition variable are invisible from outside.
structure Shows (m : Monitor J) (c : Crew J) : Prop where
  pool    : c.pool = m.pool
  threads : c.threads = m.stages.map Stage.thread
  runs    : c.runs = m.runs

variable {c : Crew J}

-- A thread does something that cannot be seen.
theorem Shows.set {i : Nat} {t : Stage J} (t' : Stage J) (h : Shows m c) (hi : m.stages[i]? = some t)
    (ht : t'.thread = t.thread) (hs : m'.stages = m.stages.set i t') (hp : m'.pool = m.pool)
    (hr : m'.runs = m.runs) : Shows m' c where
  pool    := h.pool.trans hp.symm
  threads := by
    obtain ⟨_, he⟩ := List.getElem?_eq_some_iff.mp hi
    rw [hs, List.map_set, ht, ← List.map_set, ← he, List.set_getElem_self]
    exact h.threads
  runs    := h.runs.trans hr.symm

theorem Shows.step (h : Shows m c) (hn : Next m a m') :
    ∃ c', Reaches Crew.step (fun _ _ => True) c c' ∧ Shows m' c' := by
  have hm {i : Nat} {t : Stage J} (hi : m.stages[i]? = some t) :
      c.threads[i]? = some t.thread := by
    rw [h.threads, List.getElem?_map, hi]
    rfl
  have hone {x : Crew.Act J} {c' : Crew J} (hs : c.step x = some c') :
      Reaches Crew.step (fun _ _ => True) c c' := .tail .refl trivial hs
  cases hn
  case accept job p _ hs =>
    refine ⟨{ c with pool := p }, hone (x := .submit job) ?_, rfl, h.threads, h.runs⟩
    simp [Crew.step, h.pool, hs]
  case stop =>
    refine ⟨_, hone (x := .stopForced) rfl, ?_, h.threads, h.runs⟩
    rw [h.pool]
    rfl
  case take i job queue x hi hq =>
    refine ⟨{ c with
      pool    := { m.pool with queue := queue, taken := m.pool.taken ++ [job] }
      threads := c.threads.set i (.running job)
      turns   := c.turns ++ [(i, job)] }, hone (x := .work i x) ?_, rfl, ?_, h.runs⟩
    · simp [Crew.step, Crew.work, hm hi, Stage.thread, Pool.take, h.pool, hq]
    · simp [List.map_set, h.threads, Stage.thread]
  case exit i x hi hq hs =>
    refine ⟨{ c with threads := c.threads.set i .exited }, hone (x := .work i x) ?_, h.pool, ?_,
      h.runs⟩
    · simp [Crew.step, Crew.work, hm hi, Stage.thread, Pool.take, h.pool, hq, hs]
    · simp [List.map_set, h.threads, Stage.thread]
  case ran i x job hi =>
    refine ⟨{ c with threads := c.threads.set i .idle, runs := c.runs ++ [job] },
      hone (x := .work i x) ?_, h.pool, ?_, ?_⟩
    · simp [Crew.step, Crew.work, hm hi, Stage.thread]
    · simp [List.map_set, h.threads, Stage.thread]
    · simp [h.runs]
  case signal hi => exact ⟨c, .refl, h.set .locking hi rfl rfl rfl rfl⟩
  case wake hi   => exact ⟨c, .refl, h.set .locking hi rfl rfl rfl rfl⟩
  case lock hi _ => exact ⟨c, .refl, h.set .locked hi rfl rfl rfl rfl⟩
  case check hi _ _ => exact ⟨c, .refl, h.set .parking hi rfl rfl rfl rfl⟩
  case wait hi   => exact ⟨c, .refl, h.set .waiting hi rfl rfl rfl rfl⟩
  case alarm =>
    refine ⟨c, .refl, h.pool, ?_, h.runs⟩
    have hw : Stage.thread ∘ Stage.woken = (Stage.thread : Stage J → Thread J) := by
      funext t
      cases t <;> rfl
    rw [List.map_map, hw]
    exact h.threads
  all_goals exact ⟨c, .refl, h.pool, h.threads, h.runs⟩

variable {maxQueue started : Nat}

-- What the mutex and the condition variable are for.
structure Sound (m : Monitor J) : Prop where
  guarded : m.Guarded
  roused  : m.Roused

theorem Sound.reaches {ok : Monitor J → Act J → Prop}
    (h : Reaches Monitor.step ok (new maxQueue started) m) : m.Sound := by
  refine h.invariant ⟨⟨fun i => ?_, ?_⟩, ⟨?_, ?_⟩⟩ fun _ hi _ hs => ?_
  · simp only [new, List.getElem?_replicate]
    split <;> simp [Stage.holdsLock]
  · simp [new]
  · simp [new, Pool.new]
  · simp [new, Pool.new]
  · have hn := step_next hs
    exact ⟨hi.guarded.next hn, hi.roused.next hi.guarded hn⟩

-- The pool behaves like a crew whose threads take their jobs in one step.
theorem refines_crew (maxQueue started : Nat)
    (h : Reaches Monitor.step (fun _ _ => True) (new maxQueue started : Monitor J) m) :
    ∃ c, Reaches Crew.step (fun _ _ => True) (Crew.new maxQueue started) c ∧ Shows m c := by
  refine h.simulates (R := Shows) ⟨rfl, ?_, rfl⟩ fun _ hs hr => hr.step (step_next hs)
  simp [new, Crew.new, Stage.thread]

-- Three steps of a thread.
def turn (i : Nat) : List (Act J) :=
  .replicate 3 (.work i false)

-- A thread waits, is woken for a job and runs it.
def wokenRun : List (Act Nat) :=
  turn 0 ++ [.submit 7, .notify 0 0] ++ turn 0

theorem refines_crew_woken : ∃ m : Monitor Nat, m.runs = [7] ∧
    ∃ c, Reaches Crew.step (fun _ _ => True) (Crew.new 1 2) c ∧ Shows m c := by
  have ⟨m, _, hr, hm⟩ := exec_any Monitor.step (fun _ _ => True) (new 1 2) wokenRun
    (fun m => m.runs = [7]) (by decide)
  exact ⟨m, hm, refines_crew 1 2 hr⟩

-- A thread that does not run a job can do something, or a notification is under way.
def Stirs (m : Monitor J) : Prop :=
  (∃ i t, m.stages[i]? = some t ∧ t.awake ∧ (m.step (.work i false)).isSome) ∨
    (∃ i, m.owner = some i ∧ (m.step (.work i false)).isSome) ∨
    ∃ k i, (m.step (.notify k i)).isSome

theorem Guarded.owner_steps {i : Nat} (h : m.Guarded) (ho : m.owner = some i) :
    (m.step (.work i false)).isSome := by
  have hl := (h.owner i).mp ho
  rcases hi : m.stages[i]? with _ | t <;> rw [hi] at hl
  case none => cases hl
  case some =>
    simp only [step, work, hi]
    cases t <;> try cases hl
    case locked =>
      rcases m.pool.take with _ | (_ | _) <;> rfl
    case parking => rfl

theorem notify_steps {k : Nat} (h : m.calls[k]? = some .notifyOne) :
    ∃ i, (m.step (.notify k i)).isSome := by
  by_cases hw : m.stages.any Stage.isWaiting
  case pos =>
    obtain ⟨t, ht, hw⟩ := List.any_eq_true.mp hw
    obtain ⟨i, hi⟩ := List.getElem?_of_mem ht
    exact ⟨i, by simp [step, notify, h, hi, hw]⟩
  case neg => exact ⟨m.stages.length, by simp [step, notify, h, hw]⟩

-- No job waits for a thread that is busy while another one sleeps and nobody wakes it.
structure Conserving (m : Monitor J) : Prop where
  mutex : ∀ i j : Nat, (m.stages[i]?).any Stage.holdsLock → (m.stages[j]?).any Stage.holdsLock → i = j
  queue : m.stages.any Stage.isWaiting →
    m.pool.queue.length ≤ m.stages.countP Stage.awake + m.calls.countP Call.isNotifyOne
  stirs : m.stages.any Stage.isWaiting → m.pool.queue ≠ [] → m.Stirs

theorem work_conserving (maxQueue started : Nat)
    (h : Reaches Monitor.step (fun _ _ => True) (new maxQueue started : Monitor J) m) :
    m.Conserving := by
  obtain ⟨hg, hr⟩ := Sound.reaches h
  refine ⟨fun i j hi hj => ?_, hr.queue, fun hw hq => ?_⟩
  · exact Option.some.inj (((hg.owner i).mpr hi).symm.trans ((hg.owner j).mpr hj))
  · have hl := hr.queue hw
    have hp : 0 < m.stages.countP Stage.awake ∨ 0 < m.calls.countP Call.isNotifyOne := by
      have hn := List.length_pos_iff.mpr hq
      omega
    rcases hp with hp | hp
    case inr =>
      obtain ⟨c, hc, hn⟩ := List.countP_pos_iff.mp hp
      obtain ⟨k, hk⟩ := List.getElem?_of_mem hc
      cases c <;> cases hn
      exact .inr (.inr ⟨k, notify_steps hk⟩)
    case inl =>
      obtain ⟨t, ht, ha⟩ := List.countP_pos_iff.mp hp
      obtain ⟨i, hi⟩ := List.getElem?_of_mem ht
      rcases ho : m.owner with _ | j
      case some => exact .inr (.inl ⟨j, ho, hg.owner_steps ho⟩)
      case none =>
        refine .inl ⟨i, t, hi, ha, ?_⟩
        cases t <;> cases ha
        case locking => simp [step, work, hi, ho]
        case locked  => cases hg.unlocked ho _ ht

-- One thread runs a job and another one sleeps when there is a second job.
def asleepRun : List (Act Nat) :=
  turn 1 ++ [.submit 7, .work 0 false, .work 0 false, .submit 8]

theorem work_conserving_asleep : ∃ m : Monitor Nat, m.pool.queue = [8] ∧
    m.stages = [.running 7, .waiting] ∧ m.Conserving := by
  have ⟨m, _, hr, hq, hs⟩ := exec_any Monitor.step (fun _ _ => True) (new 2 2) asleepRun
    (fun m => m.pool.queue = [8] ∧ m.stages = [.running 7, .waiting]) (by decide)
  exact ⟨m, hq, hs, work_conserving 2 2 hr⟩

end Monitor
end Http
