import HttpServer.Loop.Theorems.Heap
import HttpServer.Connection.Theorems.Follows
import HttpServer.Objects.Theorems.Pool

namespace Http

def Worker.job : Worker → Option Job
  | running job => some job
  | _           => none

-- The completions that `drain_completions` has taken and not applied yet.
def Pc.batch : Pc → List Completion
  | deliver batch => batch
  | _             => []

def Connection.Act.job : Connection.Act → Option Job
  | submit job => some job
  | _          => none

namespace System

open Transition
open Connection hiding refuses

def undrained (s : System) : List Completion :=
  s.completions ++ s.pc.batch

-- The queued jobs, the running jobs and the undrained completions.
def outstanding (s : System) : List Job :=
  s.pool.queue ++ s.workers.filterMap Worker.job ++ s.undrained.map (·.job)

def outstandingFor (s : System) (id : ConnId) : List Job :=
  s.outstanding.filter (·.connId = id)

-- While the main loop runs, the outstanding items are those that the connections wait for.
structure Tracked (cfg : Config) (s : System) : Prop where
  keyed   : s.Keyed
  known   : ∀ {job}, job ∈ s.outstanding → job.connId ≤ s.lastConnId
  right   : ∀ {x}, x ∈ s.undrained → ∃ throws, x.response = runJob cfg throws x.job.req
  follows : ∀ {id c}, s.heap id = some c → ∃ ph, Follows cfg c ph ∧
    (c.alive → s.pc.left = false → s.outstandingFor id = ph.jobs)

variable {cfg : Config} {a : Answers} {s s' : System} {c c' : Connection} {id i : ConnId} {p : Pc}
variable {as : List Act} {x : Action}

theorem foldl_owes (js : List Job) (h : ∀ y, .answer y ∉ as) :
    as.foldl owes js = js ++ as.filterMap Act.job := by
  induction as generalizing js
  case nil => simp
  case cons a as hi =>
    rw [List.foldl_cons, hi _ fun y hy => h y (List.mem_cons_of_mem _ hy), List.filterMap_cons]
    cases a
    case submit            => simp [owes, Act.job]
    case answer y          => exact absurd List.mem_cons_self (h y)
    case overload | refuse => simp [owes, Act.job]

theorem perm_jobs {l : List Job} {ph : Phase} (h : l.Perm ph.jobs) : l = ph.jobs := by
  cases ph <;> simp_all

theorem perm_jobs_cons {job : Job} {l : List Job} {ph : Phase} (h : ph.jobs.Perm (job :: l)) :
    ph = .busy job ∧ l = [] := by
  cases ph
  case busy => simpa using h
  all_goals simp at h

-- A connection and its outstanding items change alike.
theorem Tracked.moves (h : Tracked cfg s) (now : Time) (hc : Known cfg now s s' id c)
    (hm : Moves cfg c as c') (ha : ∀ y, .answer y ∉ as) (hl : s'.pc.left = false → s.pc.left = false)
    (ho : c'.alive → s'.pc.left = false →
      (s'.outstandingFor id).Perm (s.outstandingFor id ++ as.filterMap Act.job)) :
    ∃ ph, Follows cfg c' ph ∧ (c'.alive → s'.pc.left = false → s'.outstandingFor id = ph.jobs) := by
  have hp : ∃ ph, Follows cfg c ph ∧
      (c.alive → s.pc.left = false → s.outstandingFor id = ph.jobs) := by
    rcases hc with hc | ⟨hl, _, fd, rfl⟩
    case inl => exact h.follows hc
    case inr =>
      refine ⟨.idle, .new .., fun _ _ => List.filter_eq_nil_iff.mpr fun job hj => ?_⟩
      simpa using Nat.ne_of_lt (Nat.lt_of_le_of_lt (h.known hj) hl)
  have ⟨ph, hf, hj⟩ := hp
  have ⟨ph', hf', hj'⟩ := hm.follows hf fun y hy => absurd hy (ha y)
  refine ⟨ph', hf', fun hv hl' => perm_jobs ?_⟩
  rw [hj', foldl_owes _ ha, ← hj (hm.alive hv) (hl hl')]
  exact ho hv hl'

-- No connection submits a job or gets a result.
def Silent (cfg : Config) (s s' : System) : Prop :=
  ∀ id c', s'.heap id = some c' → ∃ now c as, Known cfg now s s' id c ∧ Moves cfg c as c' ∧
    (∀ y, .answer y ∉ as) ∧ as.filterMap Act.job = []

theorem Silent.keep (h : ∀ {id c}, s'.heap id = some c → s.heap id = some c) : Silent cfg s s' :=
  fun _ _ hc => ⟨0, _, [], .inl (h hc), .refl, by simp, rfl⟩

-- Only three kinds of steps serve a connection of their own.
theorem Silent.step (hk : s.Keyed) (hs : step cfg s x = some s') (hp : s.pc.serving = false) :
    Silent cfg s s' := by
  intro i c' hc
  have ⟨c, hn, hb⟩ := step_heap hk hs hc
  refine ⟨x.now, c, ?_⟩
  cases hb
  case keep => exact ⟨[], hn, .refl, by simp, rfl⟩
  case drain => exact ⟨[], hn, beginDraining_moves c, by simp, rfl⟩
  case tick a _ _ =>
    rcases onTick_moves cfg a.now c (a.io c.id) with hm | ⟨_, hm⟩
    case inl => exact ⟨[], hn, hm, by simp, rfl⟩
    case inr => exact ⟨[.refuse], hn, hm, by simp, rfl⟩
  case kill => exact ⟨[], hn, .single .kill, by simp, rfl⟩
  all_goals simp_all [Pc.serving]

-- Steps that leave the items of the connections alone, or move them from one place to another.
theorem Tracked.evolve (h : Tracked cfg s) (hs : Http.step cfg s x = some s') (hq : Silent cfg s s')
    (hl : s'.pc.left = false → s.pc.left = false)
    (hk : ∀ {job}, job ∈ s'.outstanding → job ∈ s.outstanding)
    (hr : ∀ {y}, y ∈ s'.undrained → ∃ throws, y.response = runJob cfg throws y.job.req)
    (ho : ∀ {id c}, s'.pc.left = false → s'.heap id = some c →
      (s'.outstandingFor id).Perm (s.outstandingFor id)) :
    Tracked cfg s' where
  keyed      := h.keyed.step hs
  known hj   := Nat.le_trans (h.known (hk hj)) (step_lastConnId hs)
  right      := hr
  follows hc := by
    have ⟨_, _, as, hn, hm, ha, hj⟩ := hq _ _ hc
    refine h.moves _ hn hm ha hl fun _ hl => ?_
    rw [hj, List.append_nil]
    exact ho hl hc

theorem Tracked.perm (h : Tracked cfg s) (hs : Http.step cfg s x = some s') (hq : Silent cfg s s')
    (hl : s'.pc.left = false → s.pc.left = false) (ho : s'.outstanding.Perm s.outstanding)
    (hr : ∀ {y}, y ∈ s'.undrained → ∃ throws, y.response = runJob cfg throws y.job.req) :
    Tracked cfg s' :=
  h.evolve hs hq hl ho.mem_iff.mp hr fun _ _ => ho.filter _

-- Steps that do not touch the items at all.
theorem items_eq (hf : s'.shared = s.shared) (hp : s'.pool.queue = s.pool.queue)
    (hb : s'.pc.batch = s.pc.batch) : s'.undrained = s.undrained ∧ s'.outstanding = s.outstanding := by
  simp only [shared, Shared.mk.injEq] at hf
  have hu : s'.undrained = s.undrained := by rw [undrained, undrained, hf.1, hb]
  exact ⟨hu, by rw [outstanding, outstanding, hp, hf.2.2.1, hu]⟩

theorem Goto.batch (h : Goto cfg a s p) : p.batch = s.pc.batch := by
  cases h <;> simp_all [Pc.batch]

theorem Goto.items (h : Goto cfg a s p) :
    (s.goto p).undrained = s.undrained ∧ (s.goto p).outstanding = s.outstanding :=
  items_eq rfl rfl h.batch

theorem Goto.left (h : Goto cfg a s p) (hl : p.left = false) : s.pc.left = false := by
  cases h <;> simp_all [Pc.left]

theorem Submits.queue {pool pool' : Pool Job} (h : Submits pool as pool') :
    pool'.queue = pool.queue ++ as.filterMap Act.job := by
  cases h
  case submit ht =>
    simp only [Pool.trySubmit] at ht
    repeat' split at ht
    all_goals cases ht
    rfl
  all_goals simp [Act.job]

-- A connection submits jobs of its own only.
theorem Moves.own (hm : Moves cfg c as c') {job : Job} (hj : job ∈ as.filterMap Act.job) :
    job.connId = c.id := by
  induction hm
  case refl => cases hj
  case head hm _ hi =>
    rw [List.filterMap_append] at hj
    rcases List.mem_append.mp hj with hj | hj
    case inl => cases hm <;> simp_all [Act.job]
    case inr => exact (hi hj).trans hm.id_eq

-- A callback that reads adds the jobs that it submits.
theorem serve_items (cfg : Config) (a : Answers) {r : Connection × Env} (hp : Submits s.pool as r.2.pool)
    (hb : p.batch = s.pc.batch) :
    ((s.goto p).serve cfg a r).undrained = s.undrained ∧
      ((s.goto p).serve cfg a r).outstanding.Perm (s.outstanding ++ as.filterMap Act.job) := by
  have hf : Frame { s.goto p with pool := r.2.pool } ((s.goto p).serve cfg a r) := .serve
  generalize (s.goto p).serve cfg a r = s' at hf
  have hq : s'.pool.queue = s.pool.queue ++ as.filterMap Act.job := hf.pool ▸ Submits.queue hp
  have hw : s'.workers = s.workers := congrArg Shared.workers hf.shared
  have hu : s'.undrained = s.undrained := by
    have hk : s'.completions = s.completions := congrArg Shared.completions hf.shared
    have hp : s'.pc = p := hf.pc
    rw [undrained, undrained, hk, hp, hb]
  refine ⟨hu, ?_⟩
  rw [outstanding, outstanding, hq, hw, hu]
  simp only [List.append_assoc]
  rw [← List.append_assoc (List.filterMap Worker.job s.workers)]
  exact .append_left _ List.perm_append_comm

theorem Tracked.serve {r : Connection × Env} {refused : Bool} (h : Tracked cfg s)
    (hs : Http.step cfg s x = some ((s.goto p).serve cfg a r)) (hc : s.heap i = some c)
    (hr : Reads cfg c (s.env a c) refused r as) (hl : s.pc.left = false) (hb : p.batch = s.pc.batch) :
    Tracked cfg ((s.goto p).serve cfg a r) := by
  have ⟨hu, ho⟩ := serve_items cfg a hr.pool hb
  generalize hg : (s.goto p).serve cfg a r = s' at hs hu ho ⊢
  have hj {job : Job} (h : job ∈ as.filterMap Act.job) := Moves.own hr.moves h
  constructor
  case keyed => exact h.keyed.step hs
  case known =>
    intro job hm
    refine Nat.le_trans ?_ (step_lastConnId hs)
    rcases List.mem_append.mp (ho.mem_iff.mp hm) with hm | hm
    case inl => exact h.known hm
    case inr => rw [hj hm, h.keyed.id_eq hc]; exact h.keyed.le hc
  case right => exact fun hy => h.right (hu ▸ hy)
  case follows =>
    intro id c' hc'
    have ho' := ho.filter (·.connId = id)
    rw [List.filter_append] at ho'
    rw [← hg] at hc'
    rcases settle_heap h.keyed hc hr.moves.id_eq hc' rfl with ⟨hd, hn⟩ | ⟨hd, he, ha⟩
    case inl =>
      have hn : (as.filterMap Act.job).filter (·.connId = id) = [] :=
        List.filter_eq_nil_iff.mpr fun job hm => by simpa [hj hm] using hn.symm
      rw [hn] at ho'
      exact h.moves x.now (.inl hd) (.refl : Moves cfg c' [] c') (by simp) (fun _ => hl) fun _ _ => ho'
    case inr =>
      have hn : (as.filterMap Act.job).filter (·.connId = id) = as.filterMap Act.job :=
        List.filter_eq_self.mpr fun job hm => by simp [hj hm, he]
      rw [hn] at ho'
      exact h.moves x.now (.inl hd) (hr.moves.before ha.moves) (fun _ => hr.pool.no_answer)
        (fun _ => hl) fun _ _ => ho'

-- One completion of the batch is dealt with.
theorem batch_items {y : Completion} {ys : List Completion} (hp : s.pc = .deliver (y :: ys))
    (hf : Frame (s.goto (.deliver ys)) s') :
    s.undrained.Perm (y :: s'.undrained) ∧ s.outstanding.Perm (y.job :: s'.outstanding) := by
  have hq : s'.pool = s.pool := hf.pool
  have hw : s'.workers = s.workers := congrArg Shared.workers hf.shared
  have hu : s.undrained.Perm (y :: s'.undrained) := by
    have hk : s'.completions = s.completions := congrArg Shared.completions hf.shared
    have hd : s'.pc = .deliver ys := hf.pc
    rw [undrained, undrained, hk, hd, hp]
    exact List.perm_middle
  refine ⟨hu, ?_⟩
  rw [outstanding, outstanding, hq, hw]
  exact ((hu.map (·.job)).append_left _).trans List.perm_middle

-- A result that is not dropped is the one that its connection waits for.
theorem Tracked.deliver {y : Completion} {ys : List Completion} (h : Tracked cfg s)
    (hp : s.pc = .deliver (y :: ys)) (hc : s.heap y.job.connId = some c)
    (hs : Http.step cfg s x = some ((s.goto (.deliver ys)).settle cfg a.mod
      (c.onWorkerResult y (a.io c.id)).1)) :
    Tracked cfg ((s.goto (.deliver ys)).settle cfg a.mod
      (c.onWorkerResult y (a.io c.id)).1) := by
  have hf : Frame (s.goto (.deliver ys)) ((s.goto (.deliver ys)).settle cfg a.mod
    (c.onWorkerResult y (a.io c.id)).1) := .settle
  have hl : s.pc.left = false := by simp [hp, Pc.left]
  have hci := h.keyed.id_eq hc
  generalize hg : (s.goto (.deliver ys)).settle cfg a.mod
    (c.onWorkerResult y (a.io c.id)).1 = s' at hs hf ⊢
  have ⟨hu, ho⟩ := batch_items hp hf
  constructor
  case keyed => exact h.keyed.step hs
  case known =>
    intro job hj
    exact Nat.le_trans (h.known (ho.mem_iff.mpr (List.mem_cons_of_mem _ hj))) (step_lastConnId hs)
  case right => exact fun hy => h.right (hu.mem_iff.mpr (List.mem_cons_of_mem _ hy))
  case follows =>
    intro id c' hc'
    have ho' := ho.filter (·.connId = id)
    rw [List.filter_cons] at ho'
    rw [← hg] at hc'
    rcases settle_heap h.keyed hc (onWorkerResult_id ..) hc' rfl with ⟨hd, hn⟩ | ⟨hd, he, ha⟩
    case inl =>
      have hn : ¬decide (y.job.connId = id) := by simpa [hci] using hn.symm
      rw [if_neg hn] at ho'
      exact h.moves x.now (.inl hd) (.refl : Moves cfg c' [] c') (by simp) (fun _ => hl)
        fun _ _ => by rw [List.filterMap_nil, List.append_nil]; exact ho'.symm
    case inr =>
      have hy : decide (y.job.connId = id) := by simp [he, hci]
      rw [if_pos hy] at ho'
      have ⟨ph, hfo, hj⟩ := h.follows hd
      cases hv : c.alive
      case false =>
        rw [onWorkerResult_dead hv] at ha
        exact h.moves x.now (.inl hd) ha.moves (by simp) (fun _ => hl)
          fun hv' => absurd (ha.moves.alive hv') (by simp [hv])
      case true =>
        have hp : (s.outstandingFor id).Perm _ := ho'
        rw [hj hv hl] at hp
        have ⟨hb, hn⟩ := perm_jobs_cons hp
        subst hb
        have ⟨hi, hq, _⟩ := hfo.flags hv
        have hm := (onWorkerResult_accepts hv hi hq).before ha.moves
        have hy : y ∈ s.undrained := hu.mem_iff.mpr List.mem_cons_self
        have ⟨ph', hf', hj'⟩ := hm.follows hfo fun z hz => by
          cases List.mem_singleton.mp hz
          exact ⟨rfl, rfl, h.right hy⟩
        exact ⟨ph', hf', fun _ _ => by rw [hj']; exact hn⟩

theorem Next.left (h : Next cfg a s s') (hl : s'.pc.left = false) : s.pc.left = false := by
  cases h
  case goto hg => exact hg.left hl
  case retry   => exact hl
  case counter => exact hl
  case reap hp => rcases hp with ⟨hp, _⟩ | ⟨hp, _⟩ <;> simp [hp, Pc.left]
  all_goals simp_all [Pc.left]

-- The items change only where a single connection is served, and when the loop is left.
theorem Next.items (h : Next cfg a s s') (hp : s.pc.serving = false) (hc : s.pc ≠ .cleanup) :
    s'.undrained = s.undrained ∧ s'.outstanding = s.outstanding := by
  have hk {t : System} {p : Pc} (hf : Frame s t) (hb : p.batch = s.pc.batch) :
      (t.goto p).undrained = s.undrained ∧ (t.goto p).outstanding = s.outstanding :=
    items_eq hf.shared (congrArg Pool.queue hf.pool) hb
  cases h
  case goto hg                 => exact hg.items
  case retry                   => exact ⟨rfl, rfl⟩
  case fail hq                 => exact items_eq rfl rfl (by simp [hq, Pc.batch])
  case signal hq               => exact hk (.handleSignals ..) (by simp [hq, Pc.batch])
  case accept hq               => exact hk (.acceptBatch ..) (by simp [hq, Pc.batch])
  case counter                 => exact ⟨rfl, rfl⟩
  case swap hq                 => simp [undrained, outstanding, hq, Pc.batch, System.goto]
  case rescans hq | unpin hq   => exact items_eq rfl rfl (by simp [hq, Pc.batch])
  case reap hq                 =>
    exact hk (.reap s) (by rcases hq with ⟨hq, rfl⟩ | ⟨hq, rfl⟩ <;> simp [hq, Pc.batch])
  case drain hq                => exact hk .maybeBeginDrain (by simp [hq, Pc.batch])
  case tick hq _               =>
    have hf : Frame { s with lastTick := a.now } ({ s with lastTick := a.now }.tick cfg a) := .tick
    exact items_eq hf.shared (congrArg Pool.queue hf.pool) (by simp [hq, Pc.batch])
  case force hq                =>
    have hf := Frame.closeAll s
    exact items_eq hf.shared (congrArg Pool.queue hf.pool)
      (by rcases hq with hq | hq <;> simp [hq, Pc.batch])
  case stop hq =>
    refine items_eq rfl ?_ (by simp [hq, Pc.batch])
    simp only [System.goto, Pool.stop]
    split <;> rfl
  case cleanup hq => exact absurd hq hc
  all_goals simp_all [Pc.serving]

-- The rest is not about a single connection.
theorem Tracked.quiet (h : Tracked cfg s) (hs : Http.step cfg s (.loop a) = some s')
    (hn : Next cfg a s s') (hp : s.pc.serving = false) (hc : s.pc ≠ .cleanup) : Tracked cfg s' :=
  have ⟨hu, ho⟩ := hn.items hp hc
  h.perm hs (.step h.keyed hs hp) hn.left (.of_eq ho) fun hy => h.right (hu ▸ hy)

theorem Tracked.next (h : Tracked cfg s) (hs : Http.step cfg s (.loop a) = some s')
    (hn : Next cfg a s s') : Tracked cfg s' := by
  have hq := h.quiet hs hn
  cases hn
  case goto hg =>
    have ⟨hu, ho⟩ := hg.items
    exact h.perm hs (.keep fun h => h) hg.left (.of_eq ho) fun hy => h.right (hu ▸ hy)
  case event err hup input output _ _ c hp hf hc =>
    have ⟨_, hr⟩ := onEvent_reads cfg err hup input output c (s.env a c)
    exact h.serve hs hc hr (by simp [hp, Pc.left]) (by simp [hp, Pc.batch])
  case deliver hp hc hi => exact h.deliver hp hc hs
  case dropped y _ hp hn =>
    have ⟨hu, ho⟩ := batch_items hp (.refl _)
    refine h.evolve hs (.keep fun h => h) (by simp [hp, Pc.left])
      (fun hj => ho.mem_iff.mpr (List.mem_cons_of_mem _ hj))
      (fun hy => h.right (hu.mem_iff.mpr (List.mem_cons_of_mem _ hy))) fun {id c} _ hc => ?_
    have hne : ¬decide (y.job.connId = id) := by
      simp only [decide_eq_true_eq]
      rintro rfl
      exact hn c hc (h.keyed.id_eq hc)
    have ho := ho.filter (·.connId = id)
    rw [List.filter_cons, if_neg hne] at ho
    exact ho.symm
  case rescan c hp hc hw =>
    have ⟨_, hr⟩ := onReadable_reads cfg c (s.env a c)
    exact h.serve hs hc hr (by simp [hp, Pc.left]) (by simp [hp, Pc.batch])
  case cleanup hp =>
    have hf := Frame.closeAll { s with completions := [] }
    generalize { s with completions := [] }.closeAll = t at hs hf ⊢
    have hq : t.pool = s.pool := hf.pool
    have hw : t.workers = s.workers := congrArg Shared.workers hf.shared
    have hu : (t.goto .returned).undrained = [] := by
      have hk : t.completions = [] := congrArg Shared.completions hf.shared
      simp [undrained, System.goto, hk, Pc.batch]
    refine h.evolve hs (.step h.keyed hs (by simp [hp, Pc.serving])) (by simp [Pc.left]) ?_
      (by simp [hu]) (by simp [Pc.left])
    intro job hj
    rw [outstanding, hu, List.map_nil, List.append_nil] at hj
    rw [outstanding, ← hq, ← hw]
    exact List.mem_append_left _ hj
  case reap hp  => rcases hp with ⟨hp, _⟩ | ⟨hp, _⟩ <;> exact hq (by simp [hp, Pc.serving]) (by simp [hp])
  case force hp => rcases hp with ⟨hp, _⟩ | ⟨hp, _⟩ <;> exact hq (by simp [hp, Pc.serving]) (by simp [hp])
  all_goals exact hq (by simp_all [Pc.serving]) (by simp_all)

-- The threads of the pool pass the items on.
theorem Work.items (hw : Work cfg s s') : s'.outstanding.Perm s.outstanding := by
  have hp {i : Nat} {w : Worker} (w' : Worker) (hw : s.workers[i]? = some w) :=
    filterMap_set Worker.job w' hw
  cases hw
  case take job queue hw hq =>
    have hp : ((s.workers.set _ (.running job)).filterMap Worker.job).Perm _ := hp _ hw
    rw [outstanding, outstanding, hq]
    exact ((hp.append_left queue).trans List.perm_middle).append_right _
  case exit hw _ _ =>
    have hp : ((s.workers.set _ .exited).filterMap Worker.job).Perm _ := hp _ hw
    exact (hp.append_left _).append_right _
  case post x job throws hw hx =>
    have hp : (job :: (s.workers.set _ .posted).filterMap Worker.job).Perm _ := hp _ hw
    have hm : ((s.completions ++ [x] ++ s.pc.batch).map (·.job)).Perm
        (job :: s.undrained.map (·.job)) := by
      simp [undrained, hx, List.perm_middle]
    have ho := List.perm_middle.symm.trans (hp.append_left s.pool.queue)
    exact (hm.append_left _).trans (List.perm_middle.trans (ho.append_right _))
  case wake hw _ =>
    have hp : ((s.workers.set _ .idle).filterMap Worker.job).Perm _ := hp _ hw
    exact (hp.append_left _).append_right _

theorem Tracked.work (h : Tracked cfg s) (hs : Http.step cfg s x = some s') (hw : Work cfg s s') :
    Tracked cfg s' := by
  have ho := hw.items
  cases hw
  case post x job throws _ hx =>
    refine h.perm hs (.keep fun h => h) id ho fun hy => ?_
    simp only [undrained, List.append_assoc, List.mem_append, List.singleton_append,
      List.mem_cons] at hy
    rcases hy with hy | rfl | hy
    case inl     => exact h.right (List.mem_append_left _ hy)
    case inr.inl => exact ⟨throws, by rw [hx]⟩
    case inr.inr => exact h.right (List.mem_append_right _ hy)
  all_goals exact h.perm hs (.keep fun h => h) id ho h.right

theorem Tracked.reaches {ok : System → Action → Prop} {started : Nat} {now : Time}
    (h : Reaches (Http.step cfg) ok (init cfg started now) s) : Tracked cfg s := by
  refine h.invariant ⟨⟨by simp [init], by simp [init]⟩, ?_, by simp [undrained, init, Pc.batch],
    by simp [init]⟩ fun {_ x _} _ hi _ hs => ?_
  · have hw : (List.replicate started Worker.idle).filterMap Worker.job = [] :=
      List.filterMap_replicate_of_none rfl
    simp [outstanding, undrained, init, Pool.new, Pc.batch, hw]
  · cases x
    case loop   => exact hi.next hs (loopStep_next hs)
    case worker => exact hi.work hs (workerStep_work hs)

-- One request in flight, responses in order, none for another client.
structure InOrder (cfg : Config) (s : System) (c : Connection) : Prop where
  one     : c.alive → c.inFlight → ∃ job, s.outstandingFor c.id = [job] ∧ job.seq = c.inflightSeq
  none    : c.alive → c.inFlight = false → s.outstandingFor c.id = []
  count   : c.alive → c.results.length = c.submissions.length - if c.inFlight then 1 else 0
  answers : List.Forall₂ (fun req x => ∃ throws, x.2 = runJob cfg throws req)
    (c.requests.take c.results.length) c.results
  own     : ∀ x ∈ c.results, x.1.connId = c.id ∧ x.1 ∈ c.submissions
  errors  : ∀ l₁ l₂ origin date res, c.log = l₁ ++ .final origin date res :: l₂ →
    origin.isAnswer = false →
      l₁.filterMap Entry.request = l₁.filterMap Entry.responded ++ origin.own
  wire    : c.alive → c.log.flatMap Entry.queued = c.log.flatMap Entry.handed ++ c.output

theorem in_order (cfg : Config) (started : Nat) (now : Time)
    (h : Reaches (Http.step cfg) (fun _ _ => True) (init cfg started now) s)
    (hl : s.pc.left = false) (hc : s.heap id = some c) : InOrder cfg s c := by
  have ht := Tracked.reaches h
  obtain ⟨ph, hf, hj⟩ := ht.follows hc
  have hi := ht.keyed.id_eq hc
  have hr := hf.history.results
  constructor
  case one =>
    intro ha hb
    have hm := hf.flags ha
    cases ph <;> simp_all [Matches]
  case none =>
    intro ha hb
    have hm := hf.flags ha
    cases ph <;> simp_all [Matches]
  case count =>
    intro ha
    have hm := hf.flags ha
    rw [submissions, hr]
    cases ph <;> simp_all [Matches, results]
  case answers => exact hf.history.answers
  case own =>
    intro x hx
    obtain ⟨hi, hs, _⟩ := hf.history.result_own hx
    exact ⟨hi, hs⟩
  case errors =>
    intro l₁ l₂ origin date res he ho
    exact History.errors (he ▸ hf.history) ho
  case wire => exact hf.wire

-- The first of two pipelined requests is answered and the second one is in flight.
def pipelinedHead : List Action :=
  asked "GET / HTTP/1.1\r\n\r\nHEAD / HTTP/1.1\r\n\r\n" ++ served [.accepted 1000]

theorem in_order_pipelined :
    ∃ s c, exec (Http.step {}) (fun _ _ => True) (init {} 2 0) pipelinedHead = some s ∧
      s.heap 1 = some c ∧ c.inFlight ∧ c.results.length = 1 ∧ InOrder {} s c := by
  have ⟨s, hs, hr, hw, c, hc, hi, hl⟩ := exec_any (Http.step {}) (fun _ _ => True) (init {} 2 0)
    pipelinedHead (fun s => s.pc = .wait ∧ ∃ c ∈ s.heap 1, c.inFlight ∧ c.results.length = 1)
    (by decide +kernel)
  exact ⟨s, c, hs, hc, hi, hl, in_order {} 2 0 hr (by simp [hw, Pc.left]) hc⟩

end System
end Http
