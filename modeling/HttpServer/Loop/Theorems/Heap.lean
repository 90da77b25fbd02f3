import HttpServer.Loop.Theorems.Step
import HttpServer.Connection.Theorems.Moves

namespace Http

-- The next step of the loop serves a connection.
def Pc.serving : Pc → Bool
  | dispatch (.conn _ _ _ _ _ :: _) | deliver (_ :: _) | rescan (_ :: _) => true
  | _                                                                    => false

-- A step of the loop reads the clock once; the workers have no use for it.
def Action.now : Action → Time
  | loop a     => a.now
  | worker _ _ => 0

namespace System

-- What becomes of a connection and of the lists of the loop after a callback.
inductive Settled (cfg : Config) (mod : Ctl) (s : System) (c : Connection) : System → Prop
  | reap    : c.finished → Settled cfg mod s c { s.put c with reaps := s.reaps ++ [(c.fd, c.id)] }
  | same    : c.finished = false → c.interestMask cfg = c.appliedMask →
    Settled cfg mod s c (s.put c)
  | gone    : c.finished = false → mod = .gone →
    Settled cfg mod s c { s.put c with reaps := s.reaps ++ [(c.fd, c.id)] }
  | error   : c.finished = false → mod = .error → Settled cfg mod s c (s.put c)
  | enabled : c.finished = false → c.wantRead cfg → c.appliedMask.epollin = false →
    Settled cfg mod s c { s.put { c with appliedMask := c.interestMask cfg } with
      rescans := s.rescans ++ [c.id] }
  | changed : c.finished = false → (c.wantRead cfg → c.appliedMask.epollin) →
    Settled cfg mod s c (s.put { c with appliedMask := c.interestMask cfg })

-- The connection itself after it was settled: its mask is up to date unless it is finished or
-- `epoll_ctl` has failed.
inductive Applied (cfg : Config) (mod : Ctl) (c : Connection) : Connection → Prop
  | finished : c.finished → Applied cfg mod c c
  | failed   : mod ≠ .ok → Applied cfg mod c c
  | applied  : Applied cfg mod c { c with appliedMask := c.interestMask cfg }

-- What a step can do to a connection.
inductive Callback (cfg : Config) (s : System) (c : Connection) : Action → Connection → Prop
  | keep   : Callback cfg s c x c
  | event  : s.pc = .dispatch (.conn fd err hup input output :: evs) →
    s.conns.lookup fd = some c.id →
    Applied cfg a.mod (onEvent cfg err hup input output c (s.env a c)).1 c' →
    Callback cfg s c (.loop a) c'
  | result : s.pc = .deliver (y :: ys) → y.job.connId = c.id →
    Applied cfg a.mod (c.onWorkerResult y (a.io c.id)).1 c' → Callback cfg s c (.loop a) c'
  | rescan : s.pc = .rescan (c.id :: is) → c.wantRead cfg →
    Applied cfg a.mod (c.onReadable cfg (s.env a c)).1 c' → Callback cfg s c (.loop a) c'
  | drain  : s.pc = .beginDrain → Callback cfg s c (.loop a) c.beginDraining
  | tick   : s.pc = .timer → s.due cfg a →
    Callback cfg s c (.loop a) (c.onTick cfg a.now (a.io c.id)).1
  | kill   : Callback cfg s c (.loop a) c.kill

-- A connection as `accept_batch` registers it.
def Born (cfg : Config) (now : Time) (id : ConnId) (c : Connection) : Prop :=
  ∃ fd, c = { Connection.new id fd now with
    appliedMask := (Connection.new id fd now).interestMask cfg }

variable {cfg : Config} {a : Answers} {mod : Ctl} {s s' : System} {c c' c'' : Connection} {id i : ConnId}
variable {x : Action} {now : Time}

theorem settle_settled (cfg : Config) (mod : Ctl) (s : System) (c : Connection) :
    Settled cfg mod s c (s.settle cfg mod c) := by
  simp only [settle]
  split
  case isTrue h =>
    refine .reap ?_
    cases ha : c.alive <;> simp_all [Connection.finished]
  case isFalse h =>
    have hf : c.finished = false := by simp_all
    simp only [setInterest]
    repeat' split
    case isTrue ha          => simp_all
    case isFalse.isTrue he  => exact .same hf he
    case h_1                => exact .gone hf rfl
    case h_2                => exact .error hf rfl
    case h_3.isTrue hw      => exact .enabled hf (by simp_all [Connection.interestMask]) (by simp_all)
    case h_3.isFalse hw     => exact .changed hf (by simp_all [Connection.interestMask])

-- Only the connection and the lists of the loop change.
theorem Settled.put (h : Settled cfg mod s c s') :
    ∃ c' reaps rescans, Applied cfg mod c c' ∧
      s' = { s.put c' with reaps := reaps, rescans := rescans } := by
  cases h
  case reap hf    => exact ⟨c, _, _, .finished hf, rfl⟩
  case same hm    => exact ⟨_, s.reaps, s.rescans, .applied, by simp [hm, System.put]⟩
  case gone hm    => exact ⟨c, _, _, .failed (by simp [hm]), rfl⟩
  case error hm   => exact ⟨c, _, _, .failed (by simp [hm]), rfl⟩
  case enabled    => exact ⟨_, _, _, .applied, rfl⟩
  case changed    => exact ⟨_, _, _, .applied, rfl⟩

theorem Applied.moves (h : Applied cfg mod c c') : Connection.Moves cfg c [] c' := by
  cases h
  case applied => exact .single .mask
  all_goals exact .refl

theorem register_lastConnId {fd : Fd} {y : Admission} :
    (s.register cfg now fd y).lastConnId = s.lastConnId + 1 := by
  simp only [register]
  split <;> rfl

theorem register_heap {fd : Fd} {y : Admission} (h : (s.register cfg now fd y).heap id = some c) :
    s.heap id = some c ∨ id = s.lastConnId + 1 ∧ Born cfg now id c := by
  simp only [register] at h
  split at h
  case isTrue  => exact .inl h
  case isFalse =>
    simp only [System.put] at h
    split at h
    case isTrue hi =>
      cases h
      cases hi
      exact .inr ⟨rfl, fd, rfl⟩
    case isFalse => exact .inl h

-- The connections that are new have new identifiers.
theorem acceptBatch_heap {n : Nat} {accepts : List Accept}
    (h : (acceptBatch cfg now n accepts s).heap id = some c) :
    s.heap id = some c ∨
      s.lastConnId < id ∧ id ≤ (acceptBatch cfg now n accepts s).lastConnId ∧ Born cfg now id c := by
  fun_induction acceptBatch
  case case10 hi =>
    rcases hi h with hr | ⟨hl, hb⟩
    case inl =>
      rcases register_heap hr with hr | ⟨hi, hb⟩
      case inl => exact .inl hr
      case inr =>
        refine .inr ⟨hi ▸ Nat.lt_succ_self _, ?_, hb⟩
        rw [hi, ← register_lastConnId]
        exact (Frame.acceptBatch ..).ids
    case inr =>
      rw [register_lastConnId] at hl
      exact .inr ⟨Nat.lt_of_succ_lt hl, hb⟩
  all_goals first | exact .inl h | (rename_i hi; exact hi h)

theorem handleSignals_heap (n : Nat) (s : System) : (handleSignals n s).heap = s.heap := by
  induction n generalizing s
  case zero => rfl
  case succ hi =>
    refine (hi _).trans ?_
    split <;> rfl

theorem collect_heap (h : s.collect.heap id = some c) : s.heap id = some c := by
  simp only [collect] at h
  split at h
  case isTrue  => exact h
  case isFalse => cases h

theorem reap_heap (h : s.reap.heap id = some c) : s.heap id = some c := by
  simp only [reap] at h
  split at h
  case isTrue  => exact h
  case isFalse => exact collect_heap (s := { s with conns := _, reaps := [] }) h

theorem mapConns_heap {f : Connection → Connection} (h : (s.mapConns f).heap id = some c') :
    ∃ c, s.heap id = some c ∧ (c' = c ∨ c' = f c) := by
  simp only [mapConns] at h
  split at h
  case isTrue =>
    have ⟨c, hc, hf⟩ := Option.map_eq_some_iff.mp h
    exact ⟨c, hc, .inr hf.symm⟩
  case isFalse => exact ⟨c', h, .inl rfl⟩

theorem closeAll_heap (h : s.closeAll.heap id = some c') :
    ∃ c, s.heap id = some c ∧ (c' = c ∨ c' = c.kill) := by
  have h := reap_heap h
  exact mapConns_heap h

-- Every connection is filed under its identifier, which was given out before.
structure Keyed (s : System) : Prop where
  id_eq : ∀ {id c}, s.heap id = some c → c.id = id
  le    : ∀ {id c}, s.heap id = some c → id ≤ s.lastConnId

-- A test of all connections.
def allConns (s : System) (p : Connection → Bool) : Bool :=
  (List.range (s.lastConnId + 1)).all fun id => (s.heap id).all p

theorem Keyed.all {p : Connection → Bool} (hk : s.Keyed) (h : s.allConns p)
    (hc : s.heap id = some c) : p c := by
  have h := List.all_eq_true.mp h id (List.mem_range.mpr (Nat.lt_succ_of_le (hk.le hc)))
  simpa [hc] using h

theorem put_heap (hk : s.Keyed) (hc : s.heap i = some c) (hi : c'.id = c.id)
    (h : (s.put c').heap id = some c'') : s.heap id = some c'' ∧ id ≠ c.id ∨
      s.heap id = some c ∧ id = c.id ∧ c'' = c' := by
  simp only [put] at h
  split at h
  case isTrue he =>
    cases h
    cases hk.id_eq hc
    exact .inr ⟨by rw [he, hi]; exact hc, he.trans hi, rfl⟩
  case isFalse he => exact .inl ⟨h, fun h => he (h.trans hi.symm)⟩

theorem onEvent_reads (cfg : Config) (err hup input output : Bool) (c : Connection) (env : Env) :
    ∃ as, Connection.Reads cfg c env (!err && !hup && input && c.refusesRead cfg env.io)
      (onEvent cfg err hup input output c env) as := by
  simp only [onEvent]
  split
  case isTrue  => exact ⟨[], Connection.onHangup_moves .., .none, by simp⟩
  case isFalse h =>
    have hr : ∃ as, Connection.Reads cfg c env (input && c.refusesRead cfg env.io)
        (if input then c.onReadable cfg env else (c, env)) as := by
      cases input
      case false => exact ⟨[], .refl, .none, by simp⟩
      case true  => simpa using Connection.onReadable_reads cfg c env
    generalize (if input then c.onReadable cfg env else (c, env)) = r at hr
    have ⟨as, hr⟩ := hr
    refine ⟨as, hr.moves.before ?_, hr.pool, fun ha => ?_⟩
    · dsimp only
      split
      case isTrue  => exact Connection.flush_moves ..
      case isFalse => exact .refl
    · have hi := hr.refuse ha
      simp_all

-- What the callbacks for a connection keep is kept by an event.
theorem onEvent_keeps {P : Connection → Prop} {err hup input output : Bool} {env : Env}
    (hc : P c) (hh : P (c.onHangup err env.io).1) (hr : P (c.onReadable cfg env).1)
    (hw : ∀ {d : Connection} {io : Io}, P d → P (d.flush io).1) :
    P (onEvent cfg err hup input output c env).1 := by
  simp only [onEvent]
  split
  case isTrue  => exact hh
  case isFalse =>
    have hr : P (if input then c.onReadable cfg env else (c, env)).1 := by
      split
      case isTrue  => exact hr
      case isFalse => exact hc
    generalize (if input then c.onReadable cfg env else (c, env)) = r at hr
    dsimp only
    split
    case isTrue  => exact hw hr
    case isFalse => exact hr

theorem onWorkerResult_id (c : Connection) (y : Completion) (io : Io) :
    (c.onWorkerResult y io).1.id = c.id := by
  rcases Connection.onWorkerResult_moves {} c y io with h | h
  case inl => rw [h]
  case inr => exact h.id_eq

-- A connection that was settled after a callback is the one that the callback was made on.
theorem settle_heap (hk : s.Keyed) (hc : s.heap i = some c) (hi : c'.id = c.id)
    (h : (s'.settle cfg mod c').heap id = some c'') (ht : s'.heap = s.heap) :
    s.heap id = some c'' ∧ id ≠ c.id ∨ s.heap id = some c ∧ id = c.id ∧ Applied cfg mod c' c'' := by
  have ⟨d, _, _, ha, hp⟩ := (settle_settled cfg mod s' c').put
  have h : (s.put d).heap id = some c'' := by
    rw [hp] at h
    simpa [put, ht] using h
  rcases put_heap hk hc (ha.moves.id_eq.trans hi) h with h | ⟨hc, he, rfl⟩
  case inl => exact .inl h
  case inr => exact .inr ⟨hc, he, ha⟩

-- The connections that a step can be about: those that exist, and those that it accepts.
def Known (cfg : Config) (now : Time) (s s' : System) (id : ConnId) (c : Connection) : Prop :=
  s.heap id = some c ∨ s.lastConnId < id ∧ id ≤ s'.lastConnId ∧ Born cfg now id c

theorem tick_heap (h : (s.tick cfg a).heap id = some c') :
    ∃ c, Known cfg a.now s (s.tick cfg a) id c ∧ (c' = c ∨ c' = (c.onTick cfg a.now (a.io c.id)).1) := by
  simp only [tick] at h ⊢
  split at h
  case isTrue hr =>
    obtain ⟨c, hc, hf⟩ := mapConns_heap h
    refine ⟨c, ?_, hf⟩
    simp only [hr, ite_true]
    exact acceptBatch_heap (s := { s with acceptRetry := false }) hc
  case isFalse hr =>
    obtain ⟨c, hc, hf⟩ := mapConns_heap h
    exact ⟨c, .inl hc, hf⟩

-- Every step leaves a connection to one of its callbacks.
theorem step_heap (hk : s.Keyed) (hs : step cfg s x = some s') (h : s'.heap id = some c') :
    ∃ c, Known cfg x.now s s' id c ∧ Callback cfg s c x c' := by
  cases x
  case worker =>
    cases workerStep_work hs <;> exact ⟨c', .inl h, .keep⟩
  case loop a =>
    cases loopStep_next hs
    case signal => exact ⟨c', .inl (by rw [goto_heap, handleSignals_heap] at h; exact h), .keep⟩
    case accept => exact ⟨c', acceptBatch_heap h, .keep⟩
    case event err hup input output _ _ c hp hf hc =>
      obtain ⟨_, hr⟩ := onEvent_reads cfg err hup input output c (s.env a c)
      rcases settle_heap hk hc hr.moves.id_eq h rfl with ⟨h, _⟩ | ⟨h, rfl, ha⟩
      case inl => exact ⟨c', .inl h, .keep⟩
      case inr => exact ⟨c, .inl h, .event hp (hk.id_eq hc ▸ hf) ha⟩
    case deliver c hp hc hi =>
      rcases settle_heap hk hc (onWorkerResult_id ..) h rfl with ⟨h, _⟩ | ⟨h, rfl, ha⟩
      case inl => exact ⟨c', .inl h, .keep⟩
      case inr => exact ⟨c, .inl h, .result hp hi.symm ha⟩
    case rescan c hp hc hw =>
      obtain ⟨_, hr⟩ := Connection.onReadable_reads cfg c (s.env a c)
      rcases settle_heap hk hc hr.moves.id_eq h rfl with ⟨h, _⟩ | ⟨h, rfl, ha⟩
      case inl => exact ⟨c', .inl h, .keep⟩
      case inr => exact ⟨c, .inl h, .rescan (hk.id_eq hc ▸ hp) hw ha⟩
    case unpin => exact ⟨c', .inl (collect_heap h), .keep⟩
    case reap  => exact ⟨c', .inl (reap_heap h), .keep⟩
    case drain hp =>
      simp only [maybeBeginDrain] at h
      split at h
      case isTrue  => exact ⟨c', .inl h, .keep⟩
      case isFalse =>
        obtain ⟨c, hc, hf⟩ := mapConns_heap h
        rcases hf with rfl | rfl
        case inl => exact ⟨c', .inl hc, .keep⟩
        case inr => exact ⟨c, .inl hc, .drain hp⟩
    case tick hp hd =>
      obtain ⟨c, hc, hf⟩ := tick_heap h
      rcases hf with rfl | rfl
      case inl => exact ⟨c', hc, .keep⟩
      case inr => exact ⟨c, hc, .tick hp hd⟩
    case force =>
      obtain ⟨c, hc, hf⟩ := closeAll_heap h
      rcases hf with rfl | rfl
      case inl => exact ⟨c', .inl hc, .keep⟩
      case inr => exact ⟨c, .inl hc, .kill⟩
    case cleanup =>
      obtain ⟨c, hc, hf⟩ := closeAll_heap h
      rcases hf with rfl | rfl
      case inl => exact ⟨c', .inl hc, .keep⟩
      case inr => exact ⟨c, .inl hc, .kill⟩
    all_goals exact ⟨c', .inl h, .keep⟩

-- The connection that the next step of the loop reads from.
def reading (s : System) : Option ConnId :=
  match s.pc with
  | .dispatch (.conn fd false false true _ :: _) => s.conns.lookup fd
  | .rescan (id :: _)                            => some id
  | _                                            => none

-- The step answers the connection with a 400, 408 or 413.
def refuses (cfg : Config) (s : System) (c : Connection) : Action → Bool
  | .loop a     =>
    s.reading = some c.id && c.refusesRead cfg (a.io c.id) ||
      s.pc = .timer && s.due cfg a && c.timesOut cfg a.now
  | .worker _ _ => false

-- The moves of a callback, and where the ones that concern others come from.
structure Acts (cfg : Config) (s : System) (c : Connection) (x : Action) (c' : Connection)
    (as : List Connection.Act) : Prop where
  moves  : Connection.Moves cfg c as c'
  single : as.length ≤ 1
  answer : ∀ y, .answer y ∈ as → as = [.answer y] ∧ y.job.connId = c.id ∧
    ∃ ys, s.pc = .deliver (y :: ys)
  refuse : .refuse ∈ as → s.refuses cfg c x

theorem Acts.silent (hm : Connection.Moves cfg c [] c') : Acts cfg s c x c' [] :=
  ⟨hm, by simp, by simp, by simp⟩

theorem Acts.of_reads {env : Env} {refused : Bool} {r : Connection × Env}
    {as : List Connection.Act} (h : Connection.Reads cfg c env refused r as)
    (hm : Connection.Moves cfg r.1 [] c') (hr : refused → s.refuses cfg c x) :
    Acts cfg s c x c' as :=
  ⟨h.moves.before hm, h.pool.length_le, fun _ hy => absurd hy h.pool.no_answer,
    fun ha => hr (h.refuse ha)⟩

theorem Callback.acts (h : Callback cfg s c x c') : ∃ as, Acts cfg s c x c' as := by
  cases h
  case keep => exact ⟨_, .silent .refl⟩
  case event err hup input output _ a hp hf ha =>
    have ⟨_, hr⟩ := onEvent_reads cfg err hup input output c (s.env a c)
    refine ⟨_, .of_reads hr ha.moves fun h => ?_⟩
    simp only [Bool.and_eq_true, Bool.not_eq_true'] at h
    have ⟨⟨⟨he, hu⟩, hi⟩, h⟩ := h
    simp only [he, hu, hi] at hp
    have hd : s.reading = some c.id := by rw [reading, hp]; exact hf
    simp [refuses, hd]
    exact .inl h
  case result y ys a hp hi ha =>
    rcases Connection.onWorkerResult_moves cfg c y (a.io c.id) with he | hm
    case inl => exact ⟨_, .silent (he ▸ ha.moves)⟩
    case inr =>
      refine ⟨_, hm.before ha.moves, by simp, fun z hz => ?_, by simp⟩
      cases List.mem_singleton.mp hz
      exact ⟨rfl, hi, ys, hp⟩
  case rescan a hp hw ha =>
    have ⟨_, hr⟩ := Connection.onReadable_reads cfg c (s.env a c)
    refine ⟨_, .of_reads hr ha.moves fun h => ?_⟩
    have hd : s.reading = some c.id := by rw [reading, hp]
    simp [refuses, hd]
    exact .inl h
  case drain => exact ⟨_, .silent (Connection.beginDraining_moves c)⟩
  case tick a hp hd =>
    rcases Connection.onTick_moves cfg a.now c (a.io c.id) with hm | ⟨ht, hm⟩
    case inl => exact ⟨_, .silent hm⟩
    case inr => exact ⟨_, hm, by simp, by simp, by simp [refuses, hp, hd, ht]⟩
  case kill => exact ⟨_, .silent (.single .kill)⟩

theorem Callback.id_eq (h : Callback cfg s c x c') : c'.id = c.id := by
  have ⟨_, ha⟩ := h.acts
  exact ha.moves.id_eq

theorem Known.id_eq (hk : s.Keyed) (h : Known cfg now s s' id c) : c.id = id := by
  rcases h with h | ⟨_, _, _, rfl⟩
  case inl => exact hk.id_eq h
  case inr => rfl

theorem Next.lastConnId (h : Next cfg a s s') : s.lastConnId ≤ s'.lastConnId := by
  cases h
  case signal  => exact (Frame.handleSignals ..).ids
  case accept  => exact (Frame.acceptBatch ..).ids
  case event   => exact (Frame.serve (s := { s with pc := _ })).ids
  case deliver ys _ _ _ _ => exact (Frame.settle (s := { s with pc := .deliver ys })).ids
  case rescan  => exact (Frame.serve (s := { s with pc := _ })).ids
  case reap    => exact (Frame.reap s).ids
  case drain   => exact Frame.maybeBeginDrain.ids
  case tick    => exact (Frame.tick (s := { s with lastTick := a.now })).ids
  case force   => exact (Frame.closeAll s).ids
  case cleanup => exact (Frame.closeAll { s with completions := [] }).ids
  all_goals exact Nat.le_refl _

theorem step_lastConnId (hs : step cfg s x = some s') : s.lastConnId ≤ s'.lastConnId := by
  cases x
  case loop   => exact (loopStep_next hs).lastConnId
  case worker => cases workerStep_work hs <;> exact Nat.le_refl _

theorem Keyed.step (hk : s.Keyed) (hs : step cfg s x = some s') : s'.Keyed where
  id_eq h := by
    have ⟨_, hc, hb⟩ := step_heap hk hs h
    exact hb.id_eq.trans (hc.id_eq hk)
  le h := by
    have ⟨_, hc, _⟩ := step_heap hk hs h
    rcases hc with hc | hc
    case inl => exact Nat.le_trans (hk.le hc) (step_lastConnId hs)
    case inr => exact hc.2.1

end System
end Http
