import HttpServer.Loop.Theorems.Shutdown

namespace Http

-- The end of the shutdown is being checked: there are no connections any more.
def Pc.checking : Pc → Bool
  | queueSize | completionsPending => true
  | _                              => false

namespace Connection

variable {cfg : Config} {c : Connection} {io : Io}

theorem onTick_busy {now : Time} (h : c.inFlight) : (c.onTick cfg now io).1 = c := by
  simp only [onTick, h]
  repeat' split
  all_goals simp_all

theorem beginDraining_alive : c.beginDraining.alive = c.alive := by
  simp only [beginDraining]
  split <;> rfl

-- A connection that submits a job goes on.
theorem Drains.submits {fuel : Nat} {env : Env} {r : Connection × Env}
    (hd : Drains cfg fuel c env r) (h : r.2.pool ≠ env.pool) : r.1.alive ∧ r.1.inFlight := by
  induction hd
  case expect hi      => exact hi h
  case submit hc hp _ => exact ⟨hc.alive, rfl⟩
  all_goals exact absurd rfl h

theorem onReadable_submits {env : Env} (h : (c.onReadable cfg env).2.pool ≠ env.pool) :
    (c.onReadable cfg env).1.alive ∧ (c.onReadable cfg env).1.inFlight := by
  have ho := onReadable_cases cfg c env
  generalize c.onReadable cfg env = r at ho h ⊢
  cases ho
  case serve hd _     => exact hd.submits h
  case close hd _ _ _ => exact hd.submits h
  all_goals exact absurd rfl h

end Connection

namespace System

open Transition
open Connection hiding refuses

-- An event kills a connection while its request is in flight.
def killsBusy (cfg : Config) (err hup input output : Bool) (c : Connection) (env : Env) : Bool :=
  if err || hup then c.inFlight && !(c.onHangup err env.io).1.alive
  else
    let (c, env) := if input then c.onReadable cfg env else (c, env)
    c.inFlight && output && !(c.onWritable env.io).1.alive

-- The step does not do that.
def sparesBusy (cfg : Config) (s : System) : Action → Bool
  | .loop a     => match s.pc with
    | .dispatch (.conn fd err hup input output :: _) =>
      ((s.conns.lookup fd).bind s.heap).all fun c =>
        !killsBusy cfg err hup input output c (s.env a c)
    | _ => true
  | .worker _ _ => true

-- Every job has a connection that waits for it.
def owned (s : System) : Bool :=
  s.outstanding.all fun job => (s.heap job.connId).any (·.alive)

-- When the shutdown starts every job is waited for, and from then on no event kills a connection while
-- its request is in flight.
def sparesOwed (cfg : Config) (s : System) : Action → Bool
  | .loop a     => (!s.begins || s.owned) && (!s.draining || s.sparesBusy cfg (.loop a))
  | .worker _ _ => true

-- The pool has nothing to do and has left nothing to be done. A thread may have its write to the
-- eventfd left: it has posted the result of its job before, and this was drained.
structure Drained (s : System) : Prop where
  queued  : s.pool.queue = []
  running : ∀ w ∈ s.workers, w.job = none
  pending : s.completions = []

-- A job has a connection that waits for it.
def Owned (s : System) : Prop :=
  s.pc.left = false → ∀ job ∈ s.outstanding, ∃ c, s.heap job.connId = some c ∧ c.alive

variable {cfg : Config} {a : Answers} {s s' : System} {c c' : Connection} {id : ConnId} {fd : Fd}
variable {x : Action} {now : Time} {p : Pc} {job : Job}

theorem onEvent_spares {err hup input output : Bool} {env : Env}
    (h : killsBusy cfg err hup input output c env = false)
    (hb : c.alive ∧ c.inFlight ∨ (onEvent cfg err hup input output c env).2.pool ≠ env.pool) :
    (onEvent cfg err hup input output c env).1.alive := by
  simp only [killsBusy, onEvent] at h hb ⊢
  split at h
  case isTrue he =>
    rw [if_pos he] at hb
    obtain ⟨_, hb⟩ := hb.resolve_right (by simp)
    simpa [he, hb] using h
  case isFalse he =>
    rw [if_neg he] at hb ⊢
    have hr : c.alive ∧ c.inFlight ∨
        (if input then c.onReadable cfg env else (c, env)).2.pool ≠ env.pool →
        (if input then c.onReadable cfg env else (c, env)).1.alive ∧
        (if input then c.onReadable cfg env else (c, env)).1.inFlight := by
      intro hb
      split at hb
      case isTrue hi =>
        rw [if_pos hi]
        rcases hb with ⟨ha, hb⟩ | hb
        case inl =>
          have hn : c.onReadable cfg env = (c, env) := by simp [onReadable, wantRead, hb]
          rw [hn]
          exact ⟨ha, hb⟩
        case inr => exact onReadable_submits hb
      case isFalse hi =>
        rw [if_neg hi]
        exact hb.resolve_right (by simp)
    generalize (if input then c.onReadable cfg env else (c, env)) = r at h hb hr ⊢
    obtain ⟨ha, hb⟩ := hr hb
    split
    case isTrue ho => simp_all
    case isFalse   => exact ha

-- Only an event or a result can do harm to a connection that is busy, unless the loop is left.
theorem step_spares (hk : s.Keyed) (hs : step cfg s x = some s') (hp : s.pc.serving = false)
    (hl : s'.pc.left = false) (hc : s.heap id = some c) (hc' : s'.heap id = some c') (ha : c.alive)
    (hb : c.inFlight) : c'.alive := by
  have hi {d : Connection} (hd : s.heap id = some d) : d = c := Option.some.inj (hd.symm.trans hc)
  cases x
  case worker => cases workerStep_work hs <;> exact hi hc' ▸ ha
  case loop a =>
    cases loopStep_next hs
    case signal => rw [goto_heap, handleSignals_heap] at hc'; exact hi hc' ▸ ha
    case accept =>
      have hn : Known cfg a.now s (System.acceptBatch cfg a.now kAcceptBatch a.accepts s) id c' :=
        acceptBatch_heap hc'
      exact hi (hn.old (hk.le hc)) ▸ ha
    case unpin => exact hi (collect_heap hc') ▸ ha
    case reap  => exact hi (reap_heap hc') ▸ ha
    case drain =>
      simp only [goto_heap, maybeBeginDrain] at hc'
      split at hc'
      case isTrue  => exact hi hc' ▸ ha
      case isFalse =>
        obtain ⟨d, hd, hf⟩ := mapConns_heap hc'
        cases hi hd
        rcases hf with rfl | rfl
        case inl => exact ha
        case inr => exact beginDraining_alive.trans ha
    case tick =>
      obtain ⟨d, hd, hf⟩ := tick_heap hc'
      cases hi (hd.old (hk.le hc))
      rcases hf with rfl | rfl
      case inl => exact ha
      case inr => exact (onTick_busy hb).symm ▸ ha
    case force   => cases hl
    case cleanup => cases hl
    case event hq _ _   => simp [hq, Pc.serving] at hp
    case deliver hq _ _ => simp [hq, Pc.serving] at hp
    case rescan hq _ _  => simp [hq, Pc.serving] at hp
    all_goals exact hi hc' ▸ ha

-- A connection that is not finished stays, unless the loop is left.
theorem step_retains (he : s.Exclusive) (hd : s.Doomed) (hs : step cfg s x = some s')
    (hl : s'.pc.left = false) (hm : (fd, id) ∈ s.conns) (hc : s.heap id = some c)
    (hf : c.finished = false) : (s'.heap id).isSome := by
  by_cases hm' : (fd, id) ∈ s'.conns
  case pos =>
    have ⟨_, hc', _⟩ := (he.registry.step hs).stored hm'
    simp [hc']
  case neg =>
    obtain ⟨t, ht, ⟨i, hr⟩, -⟩ := step_erases hs hm hm'
    cases ht
    case list =>
      cases he.own hr hm
      simp [hd.done hr hc] at hf
    case all hp =>
      cases x
      case worker => cases workerStep_work hs <;> exact absurd hm hm'
      case loop =>
        rcases hp with hp | hp | hp <;> simp only [step, loopStep, hp] at hs
        case inr.inr => cases hs; cases hl
        all_goals
          repeat' split at hs
          all_goals cases hs
          all_goals first | exact absurd hm hm' | cases hl

-- A job belongs to a connection that waits for it and for nothing else.
theorem Owned.busy (h : s.Owned) (ht : Tracked cfg s) (hl : s.pc.left = false)
    (hj : job ∈ s.outstanding) :
    ∃ c, s.heap job.connId = some c ∧ c.alive ∧ c.inFlight ∧ s.outstandingFor job.connId = [job] := by
  have ⟨c, hc, ha⟩ := h hl job hj
  have ⟨ph, hf, ho⟩ := ht.follows hc
  have hm : job ∈ s.outstandingFor job.connId := List.mem_filter.mpr ⟨hj, by simp⟩
  have hp := hf.flags ha
  rw [ho ha hl] at hm ⊢
  cases ph <;> simp_all [Matches]

theorem Owned.retains (h : s.Owned) (ht : Tracked cfg s) (he : s.Exclusive) (hd : s.Doomed)
    (hh : s.Held) (hs : step cfg s x = some s') (hl : s.pc.left = false) (hl' : s'.pc.left = false)
    (hj : job ∈ s.outstanding) : ∃ c c', s.heap job.connId = some c ∧ c.alive ∧ c.inFlight ∧
      s.outstandingFor job.connId = [job] ∧ s'.heap job.connId = some c' := by
  obtain ⟨c, hc, ha, hb, ho⟩ := h.busy ht hl hj
  have hf : c.finished = false := by simp [finished, ha, hb]
  obtain ⟨_, hm⟩ := (hh _ c hc).resolve_right (by simp [hf])
  obtain ⟨c', hc'⟩ := Option.isSome_iff_exists.mp (step_retains he hd hs hl' hm hc hf)
  exact ⟨c, c', hc, ha, hb, ho, hc'⟩

theorem Owned.keep (h : s.Owned) (ht : Tracked cfg s) (he : s.Exclusive) (hd : s.Doomed)
    (hh : s.Held) (hs : Http.step cfg s x = some s') (hp : s.pc.serving = false)
    (hl : s'.pc.left = false → s.pc.left = false)
    (ho : s'.pc.left = false → ∀ job ∈ s'.outstanding, job ∈ s.outstanding) : s'.Owned := by
  intro hl' job hj
  have ⟨c, c', hc, ha, hb, _, hc'⟩ := h.retains ht he hd hh hs (hl hl') hl' (ho hl' job hj)
  exact ⟨c', hc', step_spares ht.keyed hs hp hl' hc hc' ha hb⟩

theorem Applied.alive {mod : Ctl} (h : Applied cfg mod c c') : c'.alive = c.alive := by
  cases h <;> rfl

-- A callback that reads is made on a connection that is not busy, or it spares it.
theorem Owned.serve {r : Connection × Env} {refused : Bool} {i : ConnId} {as : List Act}
    (h : s.Owned) (ht : Tracked cfg s) (hc : s.heap i = some c)
    (hr : Reads cfg c (s.env a c) refused r as) (hl : s.pc.left = false) (hb : p.batch = s.pc.batch)
    (hv : c.alive ∧ c.inFlight ∨ r.2.pool ≠ s.pool → r.1.alive) :
    ((s.goto p).serve cfg a r).Owned := by
  intro _ job hj
  have hx {d} (hd : s.heap job.connId = some d) (hv : job.connId = c.id → r.1.alive)
      (ha : job.connId ≠ c.id → d.alive) :
      ∃ c', ((s.goto p).serve cfg a r).heap job.connId = some c' ∧ c'.alive := by
    have he : (((s.goto p).serve cfg a r).heap job.connId).isSome := settle_exists (by simp [hd])
    have ⟨c', hc'⟩ := Option.isSome_iff_exists.mp he
    refine ⟨c', hc', ?_⟩
    rcases settle_heap ht.keyed hc hr.moves.id_eq hc' rfl with ⟨hd', hn⟩ | ⟨_, hi, hap⟩
    case inl => cases hd'.symm.trans hd; exact ha hn
    case inr => exact hap.alive.trans (hv hi)
  rcases List.mem_append.mp ((serve_items cfg a hr.pool hb).2.mem_iff.mp hj) with ho | ho
  case inl =>
    have ⟨d, hd, ha, hf, _⟩ := h.busy ht hl ho
    refine hx hd (fun hi => hv (.inl ?_)) fun _ => ha
    rw [hi, ht.keyed.id_eq hc, hc] at hd
    cases hd
    exact ⟨ha, hf⟩
  case inr =>
    have hi := Moves.own hr.moves ho
    have hd : s.heap job.connId = some c := by rw [hi, ht.keyed.id_eq hc]; exact hc
    refine hx hd (fun _ => hv (.inr fun hp => ?_)) fun hn => absurd hi hn
    have hq := Submits.queue hr.pool
    rw [hp] at hq
    have hn : as.filterMap Act.job = [] := List.self_eq_append_right.mp hq
    simp [hn] at ho

-- A result is delivered to the connection that waits for it.
theorem Owned.deliver {y : Completion} {ys : List Completion} (h : s.Owned) (ht : Tracked cfg s)
    (hp : s.pc = .deliver (y :: ys)) (hc : s.heap y.job.connId = some c) :
    ((s.goto (.deliver ys)).settle cfg a.mod (c.onWorkerResult y (a.io c.id)).1).Owned := by
  intro _ job hj
  have hl : s.pc.left = false := by simp [hp, Pc.left]
  have hf : Frame (s.goto (.deliver ys)) ((s.goto (.deliver ys)).settle cfg a.mod
    (c.onWorkerResult y (a.io c.id)).1) := .settle
  have ho := (batch_items hp hf).2
  obtain ⟨d, hd, ha, _, hn⟩ := h.busy ht hl (ho.mem_iff.mpr (List.mem_cons_of_mem _ hj))
  have he : (((s.goto (.deliver ys)).settle cfg a.mod
    (c.onWorkerResult y (a.io c.id)).1).heap job.connId).isSome := settle_exists (by simp [hd])
  obtain ⟨c', hc'⟩ := Option.isSome_iff_exists.mp he
  refine ⟨c', hc', ?_⟩
  rcases settle_heap ht.keyed hc (onWorkerResult_id ..) hc' rfl with ⟨hd', _⟩ | ⟨_, hi, _⟩
  case inl => cases hd'.symm.trans hd; exact ha
  case inr =>
    -- The connection would wait for two jobs.
    have hw := ho.filter (fun j : Job => decide (j.connId = job.connId))
    have hm : job ∈ List.filter (·.connId = job.connId) ((s.goto (.deliver ys)).settle cfg a.mod
      (c.onWorkerResult y (a.io c.id)).1).outstanding := List.mem_filter.mpr ⟨hj, by simp⟩
    rw [List.filter_cons, if_pos (by simp [hi, ht.keyed.id_eq hc])] at hw
    rw [outstandingFor] at hn
    rw [hn] at hw
    have hw := List.singleton_perm.mp hw
    simp only [List.cons.injEq] at hw
    rw [← hw.2] at hm
    cases hm

theorem Owned.next (h : s.Owned) (ht : Tracked cfg s) (he : s.Exclusive) (hd : s.Doomed)
    (hh : s.Held) (hk : s.sparesBusy cfg (.loop a)) (hs : Http.step cfg s (.loop a) = some s')
    (hn : Next cfg a s s') : s'.Owned := by
  have hq (hp : s.pc.serving = false) (hc : s.pc ≠ .cleanup) : s'.Owned :=
    h.keep ht he hd hh hs hp hn.left fun _ _ hj => (hn.items hp hc).2 ▸ hj
  cases hn
  case goto hg => exact fun hl job hj => h (hg.left hl) job (hg.items.2 ▸ hj)
  case event err hup input output _ _ c hp hf hc =>
    obtain ⟨_, hr⟩ := onEvent_reads cfg err hup input output c (s.env a c)
    simp only [sparesBusy, hp, hf, hc, Option.bind_some, Option.all_some, Bool.not_eq_true'] at hk
    exact h.serve ht hc hr (by simp [hp, Pc.left]) (by simp [hp, Pc.batch]) (onEvent_spares hk)
  case deliver hp hc _ => exact h.deliver ht hp hc
  case dropped hp hn =>
    have ho := (batch_items hp (.refl _)).2
    exact fun _ job hj => h (by simp [hp, Pc.left]) job (ho.mem_iff.mpr (List.mem_cons_of_mem _ hj))
  case rescan c hp hc hw =>
    obtain ⟨_, hr⟩ := onReadable_reads cfg c (s.env a c)
    refine h.serve ht hc hr (by simp [hp, Pc.left]) (by simp [hp, Pc.batch]) fun hb => ?_
    rcases hb with ⟨_, hb⟩ | hb
    case inl => simp [(wantRead_idle hw).free] at hb
    case inr => exact (onReadable_submits hb).1
  case cleanup  => exact fun hl => by cases hl
  case reap hp  => rcases hp with ⟨hp, _⟩ | ⟨hp, _⟩ <;> exact hq (by simp [hp, Pc.serving]) (by simp [hp])
  case force hp => rcases hp with ⟨hp, _⟩ | ⟨hp, _⟩ <;> exact hq (by simp [hp, Pc.serving]) (by simp [hp])
  all_goals exact hq (by simp_all [Pc.serving]) (by simp_all)

theorem Work.left (h : Work cfg s s') : s'.pc = s.pc := by
  cases h <;> rfl

theorem Owned.step (h : s.Owned) (ht : Tracked cfg s) (he : s.Exclusive) (hd : s.Doomed)
    (hh : s.Held) (hk : s.sparesBusy cfg x) (hs : Http.step cfg s x = some s') : s'.Owned := by
  cases x
  case loop   => exact h.next ht he hd hh hk hs (loopStep_next hs)
  case worker =>
    have hw := workerStep_work hs
    intro hl job hj
    have ⟨c, hc, ha⟩ := h (hw.left ▸ hl) job (hw.items.mem_iff.mp hj)
    refine ⟨c, ?_, ha⟩
    cases hw <;> exact hc

-- While the end of the shutdown is checked the loop drains, and there are no connections.
theorem step_checking (h : s.pc.checking → s.draining ∧ s.conns = [])
    (hs : step cfg s x = some s') (hp : s'.pc.checking) : s'.draining ∧ s'.conns = [] := by
  cases x
  case worker => cases workerStep_work hs <;> exact h hp
  case loop a =>
    cases loopStep_next hs
    case goto hg =>
      cases hg
      case empty hd hc => exact ⟨hd, hc⟩
      case free hq _   => exact h (by simp [hq, Pc.checking])
      all_goals cases hp
    case event | rescan => rw [Frame.serve.pc] at hp; cases hp
    case deliver        => rw [Frame.settle.pc] at hp; cases hp
    case retry hq       => rw [hq] at hp; cases hp
    case counter hq     => rw [hq] at hp; cases hp
    case reap hq        => rcases hq with ⟨_, rfl⟩ | ⟨_, rfl⟩ <;> cases hp
    all_goals cases hp

-- The system calls for sockets work, and the shutdown does not lose the connection of a job.
def gentle (cfg : Config) (s : System) (x : Action) : Bool :=
  x.modKnown && s.allocates cfg x && s.sparesOwed cfg x

theorem gentle_iff : s.gentle cfg x ↔ (x.modKnown ∧ s.allocates cfg x) ∧ s.sparesOwed cfg x := by
  simp [gentle]

theorem sparesOwed_busy (h : s.sparesOwed cfg x) (hd : s.draining) : s.sparesBusy cfg x := by
  cases x
  case loop   => simpa [sparesOwed, hd, and_comm] using (Bool.and_eq_true_iff.mp h).2
  case worker => rfl

-- The start of the shutdown harms nobody.
theorem sparesOwed_begins (h : s.sparesOwed cfg (.loop a)) (hb : s.begins) :
    s.Owned ∧ s.sparesBusy cfg (.loop a) := by
  have hp : s.pc = .beginDrain := by simp_all [begins]
  refine ⟨fun _ job hj => ?_, by simp [sparesBusy, hp]⟩
  simp only [sparesOwed, hb, Bool.not_true, Bool.false_or, Bool.and_eq_true, owned, List.all_eq_true,
    Option.any_eq_true] at h
  exact h.1 job hj

theorem Owned.reaches {started : Nat}
    (h : Reaches (Http.step cfg) (fun s x => s.gentle cfg x) (init cfg started now) s) :
    s.draining → s.Owned := by
  refine h.invariant (P := fun s => s.draining → s.Owned) (by simp [init])
    fun {s x s'} hr hi hk hs hd' => ?_
  have hr := hr.mono fun hk => (gentle_iff.mp hk).1
  have hk := (gentle_iff.mp hk).2
  have ho : s.Owned ∧ s.sparesBusy cfg x := by
    cases hd : s.draining
    case true  => exact ⟨hi hd, sparesOwed_busy hk hd⟩
    case false =>
      obtain ⟨_, hb, a, rfl⟩ := (step_draining hs hd).resolve_left (by simp [hd'])
      exact sparesOwed_begins hk hb
  exact ho.1.step (.reaches hr) (.reaches And.right hr) (.reaches And.left hr) (.reaches hr) ho.2 hs

-- Without connections there are no jobs.
theorem Owned.drained (h : s.Owned) (ht : Tracked cfg s) (hh : s.Held) (hl : s.pc.left = false)
    (hn : s.conns = []) : s.outstanding = [] := by
  refine List.eq_nil_iff_forall_not_mem.mpr fun job hj => ?_
  have ⟨c, hc, ha, hb, _⟩ := h.busy ht hl hj
  rcases hh _ c hc with ⟨_, hm⟩ | hf
  case inl => simp [hn] at hm
  case inr => simp [finished, ha, hb] at hf

theorem Drained.of_outstanding (h : s.outstanding = []) : s.Drained := by
  simp only [outstanding, undrained, List.append_eq_nil_iff, List.map_eq_nil_iff,
    List.filterMap_eq_nil_iff] at h
  exact ⟨h.1.1, h.1.2, h.2.1⟩

-- Nothing is submitted any more once the loop has been left.
theorem Drained.step (h : s.Drained) (hl : s.pc.left) (hs : Http.step cfg s x = some s') :
    s'.Drained ∧ s'.pc.left := by
  cases x
  case worker =>
    have hj {i : Nat} {w : Worker} (hw : s.workers[i]? = some w) := h.running w (List.mem_of_getElem? hw)
    have hn {i : Nat} {w : Worker} (hw : w.job = none) : ∀ v ∈ s.workers.set i w, v.job = none := by
      intro v hv
      rcases List.mem_or_eq_of_mem_set hv with hv | rfl
      case inl => exact h.running v hv
      case inr => exact hw
    cases workerStep_work hs
    case take hq   => simp [h.queued] at hq
    case exit      => exact ⟨⟨h.queued, hn rfl, h.pending⟩, hl⟩
    case post hw _ => cases hj hw
    case wake      => exact ⟨⟨h.queued, hn rfl, h.pending⟩, hl⟩
  case loop a =>
    cases hp : s.pc <;> simp only [hp, Pc.left, Bool.false_eq_true] at hl
    all_goals simp only [Http.step, loopStep, hp] at hs
    case stop =>
      cases hs
      refine ⟨⟨?_, h.running, h.pending⟩, rfl⟩
      simp only [System.goto, Pool.stop]
      split <;> exact h.queued
    case join =>
      split at hs <;> cases hs
      exact ⟨⟨h.queued, h.running, h.pending⟩, rfl⟩
    case cleanup =>
      rw [← hp] at hs
      cases hs
      have hf := Frame.closeAll { s with completions := [] }
      have hw : { s with completions := [] }.closeAll.workers = s.workers :=
        congrArg Shared.workers hf.shared
      refine ⟨⟨(congrArg Pool.queue hf.pool).trans h.queued, ?_, congrArg Shared.completions hf.shared⟩,
        rfl⟩
      exact fun w hm => h.running w (hw ▸ hm)
    case returned => cases hs

theorem graceful_drained (cfg : Config) (started : Nat) (now : Time)
    (h : Reaches (Http.step cfg) (fun s x => s.gentle cfg x) (init cfg started now) s)
    (hp : s.pc = .completionsPending) (hs : Http.step cfg s (.loop a) = some s')
    (hq : s'.pc = .stop) :
    s.Drained ∧ ∀ t, Reaches (Http.step cfg) (fun _ _ => True) s' t → t.Drained := by
  have hc : s.pc.checking → s.draining ∧ s.conns = [] :=
    h.invariant (P := fun s => s.pc.checking → s.draining ∧ s.conns = []) (by simp [init, Pc.checking])
      fun _ hi _ hs => step_checking hi hs
  obtain ⟨hd, hc⟩ := hc (by simp [hp, Pc.checking])
  have hh := Held.reaches (h.mono fun hk => (gentle_iff.mp hk).1)
  have ho := (Owned.reaches h hd).drained (.reaches h) hh (by simp [hp, Pc.left]) hc
  have hd := Drained.of_outstanding ho
  refine ⟨hd, fun t ht => ?_⟩
  have hs' : s'.Drained := by
    simp only [step, loopStep, hp] at hs
    cases hs
    exact ⟨hd.queued, hd.running, hd.pending⟩
  have hi : t.Drained ∧ t.pc.left := ht.invariant (P := fun t => t.Drained ∧ t.pc.left)
    ⟨hs', by simp [hq, Pc.left]⟩ fun _ hi _ hs => hi.1.step hi.2 hs
  exact hi.1

-- A shutdown begins while a request is in flight, and ends after the response to it.
def drainAnswered : List Action :=
  asked "GET / HTTP/1.1\r\nConnection: close\r\n\r\n" ++ sigterm ++
    served [.accepted 1000]

theorem graceful_drained_answered :
    ∃ s s', exec (Http.step {}) (fun s x => s.gentle {} x) (init {} 1 0) drainAnswered = some s ∧
      s.pool.accepted.length = 1 ∧ Http.step {} s (.loop {}) = some s' ∧ s'.pc = .stop ∧ s.Drained := by
  have ⟨s, hs, hr, hp, hj, s', hw, hq⟩ := exec_any (Http.step {}) (fun s x => s.gentle {} x)
    (init {} 1 0) drainAnswered (fun s => s.pc = .completionsPending ∧ s.pool.accepted.length = 1 ∧
      ∃ s' ∈ Http.step {} s (.loop {}), s'.pc = .stop) (by decide +kernel)
  exact ⟨s, s', hs, hj, hw, hq, (graceful_drained {} 1 0 hr hp hw hq).1⟩

-- The client is gone before its request has been handled, and then the server shuts down.
def drainAbandoned : List Action :=
  asked "GET / HTTP/1.1\r\n\r\n" ++ [.worker 0 false] ++
    iterate 11 { waited := .ready [.conn 7 true false false false] } ++ sigterm

theorem graceful_undrained :
    ¬∀ s s' a, Reaches (Http.step {}) (fun s x => x.modKnown ∧ s.allocates {} x) (init {} 1 0) s →
      s.pc = .completionsPending → Http.step {} s (.loop a) = some s' → s'.pc = .stop →
      s.Drained := by
  have ⟨s, _, hr, hp, ⟨w, hm, hj⟩, s', hw, hq⟩ := exec_any (Http.step {})
    (fun s x => x.modKnown ∧ s.allocates {} x) (init {} 1 0) drainAbandoned
    (fun s => s.pc = .completionsPending ∧ (∃ w ∈ s.workers, w.job ≠ none) ∧
      ∃ s' ∈ Http.step {} s (.loop {}), s'.pc = .stop) (by decide +kernel)
  intro hd
  exact hj ((hd s s' {} hr hp hw hq).running w hm)

end System
end Http
