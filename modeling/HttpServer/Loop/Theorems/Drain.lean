import HttpServer.Loop.Theorems.Closing

namespace Http.System

open Transition
open Connection hiding refuses

-- A connection that has left `conns_` while it was to be rescanned is finished.
def Held (s : System) : Prop :=
  ∀ id c, s.heap id = some c → (∃ fd, (fd, id) ∈ s.conns) ∨ c.finished

variable {cfg : Config} {a : Answers} {s s' : System} {c c' : Connection} {id : ConnId} {fd : Fd}
variable {x : Action} {now : Time}

theorem register_held {y : Admission} (h : s.Held) : (s.register cfg now fd y).Held := by
  intro id c hc
  rcases register_cases (s := s) y with ⟨hn, hh⟩ | ⟨_, hn, _, _⟩
  case inl => rw [hn]; exact h id c (hh ▸ hc)
  case inr =>
    rw [hn]
    rcases register_heap hc with hc | ⟨rfl, _⟩
    case inl => exact (h id c hc).imp_left fun ⟨fd, hm⟩ => ⟨fd, List.mem_append_left _ hm⟩
    case inr => exact .inl ⟨fd, by simp⟩

theorem acceptBatch_held {n : Nat} {accepts : List Accept} (h : s.Held) :
    (acceptBatch cfg now n accepts s).Held :=
  acceptBatch_keeps (fun h => h) (fun h => h) (fun _ => register_held) h

theorem mapConns_held {f : Connection → Connection} (h : s.Held) : (s.mapConns f).Held := by
  intro id c hc
  by_cases hl : ∃ fd, (fd, id) ∈ s.conns
  case pos => exact .inl hl
  case neg => exact h id c ((mapConns_unlisted (not_exists.mp hl)).symm.trans hc)

theorem admitted_held (h : s.Held) : (s.admitted cfg a).Held := by
  simp only [admitted]
  split
  case isTrue  => exact acceptBatch_held (s := { s with acceptRetry := false }) h
  case isFalse => exact h

-- What `close_all` leaves behind of a connection is dead.
theorem killAll_dead (hl : (fd, id) ∈ s.conns) (hc : s.killAll.heap id = some c) : c.finished := by
  have hc : (s.mapConns (·.kill)).heap id = some c := hc
  rw [mapConns_listed hl] at hc
  have ⟨_, _, he⟩ := Option.map_eq_some_iff.mp hc
  rw [← he]
  rfl

theorem Held.step (h : s.Held) (he : s.Exclusive) (hd : s.Doomed)
    (hs : Http.step cfg s x = some s') : s'.Held := by
  have hk := he.registry.keyed
  intro id c' hc'
  by_cases hl' : ∃ fd, (fd, id) ∈ s'.conns
  case pos => exact .inl hl'
  refine .inr ?_
  cases hp : s.pc.accepting
  case true =>
    have hh : s'.Held := by
      cases x
      case worker => cases workerStep_work hs <;> exact h
      case loop a =>
        rcases step_accepts hs hp with ⟨_, _, rfl⟩ | ⟨_, _, rfl⟩ | ⟨_, _, rfl⟩
        case inl     => exact acceptBatch_held h
        case inr.inr => exact h
        case inr.inl =>
          have hh : ({ s with lastTick := a.now }.admitted cfg a).Held := admitted_held h
          exact mapConns_held hh
    exact (hh id c' hc').resolve_left hl'
  case false =>
    obtain ⟨c, hn, hb⟩ := step_heap hk hs hc'
    have hn : s.heap id = some c := hn.resolve_right fun h =>
      absurd ((step_admits_none hs hp).1 ▸ h.2.1) (Nat.not_le_of_lt h.1)
    have ht : s.pc = .timer → c.draining := fun ht => by simp [ht, Pc.accepting] at hp
    rcases h id c hn with ⟨fd, hl⟩ | hf
    case inr => exact hb.finished hf ht
    case inl =>
      obtain ⟨t, hr, ⟨i, hm⟩, ht'⟩ := step_erases hs hl fun hl => hl' ⟨fd, hl⟩
      cases hr
      case list =>
        cases he.own hm hl
        exact hb.finished (hd.done hm hn) ht
      case all => exact killAll_dead hl (ht' hc')

-- The sockets that `accept_batch` gets from `accept4`.
def clients : Nat → List Accept → List (Fd × Admission)
  | 0, _ => []
  | _, [] => []
  | n + 1, a :: accepts => match a with
    | .client fd x  => (fd, x) :: clients n accepts
    | .eintr        => clients n accepts
    | .econnaborted => clients n accepts
    | .eagain       => []
    | .emfile       => []
    | .error        => []

def arrivals (cfg : Config) (s : System) : Action → List (Fd × Admission)
  | .loop a     => match s.pc with
    | .dispatch (.listener :: _) => clients kAcceptBatch a.accepts
    | .timer => if s.due cfg a && s.acceptRetry then clients kAcceptBatch a.accepts else []
    | _      => []
  | .worker _ _ => []

-- A socket and what it gets of the response when the server shuts down.
def turnedAway (e : Fd × Admission) : Fd × Bytes :=
  (e.1, sendTries 8 e.2.sends (serializeResponse e.2.date
    (makeErrorResponse 503 (ascii "server is shutting down") false)))

-- The state with more sockets turned away.
structure Rejects (s s' : System) (l : List (Fd × Admission)) : Prop where
  draining : s'.draining = s.draining
  conns    : s'.conns = s.conns
  ids      : s'.lastConnId = s.lastConnId
  rejected : s'.rejected = s.rejected ++ l.map turnedAway

theorem acceptBatch_rejects {n : Nat} {accepts : List Accept} (hd : s.draining) :
    Rejects s (acceptBatch cfg now n accepts s) (clients n accepts) := by
  fun_induction acceptBatch
  case case8 s _ _ _ _ _ hi =>
    have hi := hi hd
    refine ⟨hi.draining, hi.conns, hi.ids, hi.rejected.trans ?_⟩
    simp [rejectConnection, clients, turnedAway]
  case case9 h _ _ | case10 h _ _ => exact absurd hd h
  case case3 hi | case6 hi => exact ⟨(hi hd).draining, (hi hd).conns, (hi hd).ids, (hi hd).rejected⟩
  all_goals exact ⟨rfl, rfl, rfl, by simp [clients]⟩

theorem tick_rejects (hd : s.draining) : Rejects s (s.tick cfg a)
    (if s.acceptRetry then clients kAcceptBatch a.accepts else []) := by
  simp only [tick]
  split
  case isTrue =>
    have h : Rejects { s with acceptRetry := false } (acceptBatch cfg a.now kAcceptBatch a.accepts
      { s with acceptRetry := false }) _ := acceptBatch_rejects hd
    exact ⟨h.draining, h.conns, h.ids, h.rejected⟩
  case isFalse => exact ⟨rfl, rfl, rfl, by simp [mapConns]⟩

theorem handleSignals_rejected (n : Nat) (s : System) :
    (handleSignals n s).rejected = s.rejected := by
  induction n generalizing s
  case zero => rfl
  case succ hi =>
    refine (hi _).trans ?_
    split <;> rfl

theorem settle_rejected {mod : Ctl} : (s.settle cfg mod c).rejected = s.rejected := by
  have ⟨_, _, _, _, hp⟩ := (settle_settled cfg mod s c).put
  rw [hp]
  rfl

theorem reap_rejected (s : System) : s.reap.rejected = s.rejected := by
  simp only [reap]
  split <;> rfl

theorem draining_wantRead (h : c.draining) : c.wantRead cfg = false := by
  simp [wantRead, h]

-- A connection that knows of the shutdown does not read.
theorem onEvent_pool {err hup input output : Bool} {env : Env} (h : c.draining) :
    (onEvent cfg err hup input output c env).2.pool = env.pool := by
  have hr : c.onReadable cfg env = (c, env) := by simp [onReadable, draining_wantRead h]
  simp only [onEvent, hr, ite_self]
  repeat' split
  all_goals rfl

theorem Registry.submits_none (hr : s.Registry) (hh : s.Held) (hd : s.draining)
    (hs : Http.step cfg s x = some s') : s'.pool.accepted = s.pool.accepted := by
  cases x
  case worker => cases workerStep_work hs <;> rfl
  case loop a =>
    cases loopStep_next hs
    case signal => exact congrArg _ (Frame.handleSignals a.signals s).pool
    case accept => exact congrArg _ (Frame.acceptBatch ..).pool
    case event err hup input output _ i c _ hf hc =>
      have hp : (onEvent cfg err hup input output c (s.env a c)).2.pool = s.pool :=
        onEvent_pool (hr.draining hd (mem_of_lookup hf) hc)
      rw [Frame.serve.pool, hp]
    case deliver => exact congrArg _ Frame.settle.pool
    case rescan i _ c _ hc hw =>
      rcases hh i c hc with ⟨fd, hm⟩ | hf
      case inl => simp [draining_wantRead (hr.draining hd hm hc)] at hw
      case inr => simp [finished_wantRead hf] at hw
    case reap => exact congrArg _ (Frame.reap s).pool
    case drain   => exact congrArg _ Frame.maybeBeginDrain.pool
    case tick    => exact congrArg _ (Frame.tick (s := { s with lastTick := a.now })).pool
    case force   => exact congrArg _ (Frame.closeAll s).pool
    case cleanup => exact congrArg _ (Frame.closeAll { s with completions := [] }).pool
    case stop    =>
      simp only [System.goto, Pool.stop]
      split <;> rfl
    all_goals rfl

theorem arrivals_none (h : s.pc.accepting = false) : s.arrivals cfg x = [] := by
  cases x
  case worker => rfl
  case loop   =>
    simp only [arrivals]
    split <;> simp_all [Pc.accepting]

-- A shutdown goes on, and nobody is turned away unless there is something to accept.
theorem step_turns_away (hs : step cfg s x = some s') (hd : s.draining)
    (hp : s.pc.accepting = false) : s'.draining ∧ s'.rejected = s.rejected := by
  cases x
  case worker => cases workerStep_work hs <;> exact ⟨hd, rfl⟩
  case loop a =>
    cases loopStep_next hs
    case signal =>
      have ⟨_, _, hb, _⟩ := handleSignals_books a.signals s
      exact ⟨hb.trans hd, handleSignals_rejected ..⟩
    case accept hq => simp [hq, Pc.accepting] at hp
    case tick hq _ => simp [hq, Pc.accepting] at hp
    case event | deliver | rescan => exact ⟨settle_books.2.2.trans hd, settle_rejected⟩
    case reap    => exact ⟨(reap_draining s).trans hd, reap_rejected s⟩
    case drain   => simp [System.goto, maybeBeginDrain, hd]
    case force   => exact ⟨(closeAll_draining s).trans hd, reap_rejected _⟩
    case cleanup => exact ⟨(closeAll_draining _).trans hd, reap_rejected _⟩
    all_goals exact ⟨hd, rfl⟩

theorem drain_step (hs : step cfg s x = some s') (hd : s.draining) :
    s'.draining ∧ (∀ e ∈ s'.conns, e ∈ s.conns) ∧ s'.lastConnId = s.lastConnId ∧
      s'.rejected = s.rejected ++ (s.arrivals cfg x).map turnedAway := by
  have hr {t : System} {l : List (Fd × Admission)} (h : Rejects s t l) (hl : l = s.arrivals cfg x) :
      t.draining ∧ (∀ e ∈ t.conns, e ∈ s.conns) ∧ t.lastConnId = s.lastConnId ∧
        t.rejected = s.rejected ++ (s.arrivals cfg x).map turnedAway :=
    ⟨h.draining.trans hd, fun _ he => h.conns ▸ he, h.ids, hl ▸ h.rejected⟩
  cases hp : s.pc.accepting
  case false =>
    have ⟨hl, hc⟩ := step_admits_none hs hp
    have ⟨hd, hj⟩ := step_turns_away hs hd hp
    exact ⟨hd, hc, hl, by simp [hj, arrivals_none hp]⟩
  case true =>
    cases x
    case worker => cases workerStep_work hs <;> exact hr ⟨rfl, rfl, rfl, (List.append_nil _).symm⟩ rfl
    case loop a =>
      rcases step_accepts hs hp with ⟨evs, hp, rfl⟩ | ⟨hp, ht, rfl⟩ | ⟨hp, ht, rfl⟩
      case inl =>
        have h : Rejects s (acceptBatch cfg a.now kAcceptBatch a.accepts s) _ := acceptBatch_rejects hd
        exact hr ⟨h.draining, h.conns, h.ids, h.rejected⟩ (by simp [arrivals, hp])
      case inr.inl =>
        have h : Rejects { s with lastTick := a.now } ({ s with lastTick := a.now }.tick cfg a) _ :=
          tick_rejects hd
        exact hr ⟨h.draining, h.conns, h.ids, h.rejected⟩ (by simp [arrivals, hp, ht])
      case inr.inr =>
        have h : Rejects s (s.goto .shutdownComplete) [] := ⟨rfl, rfl, rfl, (List.append_nil _).symm⟩
        exact hr h (by simp [arrivals, hp, ht])

-- Later in a shutdown, all connections know of it and there is nothing that was not there before.
structure AdmitsNothing (s s' : System) : Prop where
  draining : s'.draining
  flags    : ∀ fd id c, (fd, id) ∈ s'.conns → s'.heap id = some c → c.draining
  conns    : ∀ e ∈ s'.conns, e ∈ s.conns
  jobs     : s'.pool.accepted = s.pool.accepted
  created  : s'.lastConnId = s.lastConnId

theorem Held.reaches {started : Nat} (h : Reaches (Http.step cfg)
    (fun s x => x.modKnown ∧ s.allocates cfg x) (init cfg started now) s) : s.Held :=
  h.invariant (by simp [init, Held]) fun hr hi _ hs =>
    hi.step (.reaches And.right hr) (.reaches And.left hr) hs

theorem drain_admits_nothing (cfg : Config) (started : Nat) (now : Time)
    (h : Reaches (Http.step cfg) (fun s x => x.modKnown ∧ s.allocates cfg x)
      (init cfg started now) s) (hd : s.draining)
    (hr : Reaches (Http.step cfg) (fun s x => x.modKnown ∧ s.allocates cfg x) s s') :
    AdmitsNothing s s' ∧ ∀ x s'', Http.step cfg s' x = some s'' →
      s''.rejected = s'.rejected ++ (s'.arrivals cfg x).map turnedAway := by
  have hi : s'.draining ∧ (∀ e ∈ s'.conns, e ∈ s.conns) ∧ s'.pool.accepted = s.pool.accepted ∧
      s'.lastConnId = s.lastConnId := by
    refine hr.invariant (P := fun t => t.draining ∧ (∀ e ∈ t.conns, e ∈ s.conns) ∧
      t.pool.accepted = s.pool.accepted ∧ t.lastConnId = s.lastConnId)
      ⟨hd, fun _ he => he, rfl, rfl⟩ fun {t x t'} ht ⟨hd, hc, hj, hl⟩ _ hs => ?_
    have ht := h.trans ht
    have ⟨hd', hc', hl', _⟩ := drain_step hs hd
    have hj' := (Registry.reaches ht).submits_none (.reaches ht) hd hs
    exact ⟨hd', fun e he => hc e (hc' e he), hj'.trans hj, hl'.trans hl⟩
  have ⟨hd', hc, hj, hl⟩ := hi
  have hg := Registry.reaches (h.trans hr)
  exact ⟨⟨hd', fun _ _ _ hm hc => hg.draining hd' hm hc, hc, hj, hl⟩,
    fun x s'' hs => (drain_step hs hd').2.2.2⟩

-- The server shuts down while a request is in flight and a client has come too late.
def drainPipelined : List Action :=
  asked "GET / HTTP/1.1\r\n\r\nGET / HTTP/1.1\r\n\r\n" ++
    iterate 9 { waited := .ready [.signal], signals := 1 }

def lateClient : List Action :=
  iterate 5 { waited := .ready [.listener], accepts := [.client 8 {}] }

theorem drain_admits_nothing_late :
    ∃ s s', exec (Http.step {}) (fun s x => x.modKnown ∧ s.allocates {} x) (init {} 1 0)
      drainPipelined = some s ∧
      exec (Http.step {}) (fun s x => x.modKnown ∧ s.allocates {} x) s lateClient = some s' ∧
      s'.conns = [(7, 1)] ∧ s'.rejected.map (·.1) = [8] ∧ AdmitsNothing s s' := by
  have ⟨s, hs, hr, hd, s', hs', hc, hj⟩ := exec_any (Http.step {})
    (fun s x => x.modKnown ∧ s.allocates {} x) (init {} 1 0) drainPipelined
    (fun s => s.draining ∧ ∃ s' ∈ exec (Http.step {}) (fun s x => x.modKnown ∧ s.allocates {} x) s
      lateClient, s'.conns = [(7, 1)] ∧ s'.rejected.map (·.1) = [8]) (by decide +kernel)
  exact ⟨s, s', hs, hs', hc, hj, (drain_admits_nothing {} 1 0 hr hd (.of_exec hs')).1⟩

-- A result that comes back to a connection in a shutdown is dropped there, or it closes the connection
-- anyway: its request did not ask to keep it, or the handler has closed it.
def closesDrain (s : System) : Action → Bool
  | .loop _     => match s.pc with
    | .deliver (y :: _) => (s.heap y.job.connId).all fun c =>
      !c.draining || !c.alive || !y.job.req.keepAlive || y.response.closeAfter
    | _                 => true
  | .worker _ _ => true

-- The responses that a step queues on connections which know of the shutdown announce the end.
def DrainAnnounced (s s' : System) : Prop :=
  ∀ id c c', s.heap id = some c → c.draining → s'.heap id = some c' →
    ∀ o d r, .final o d r ∈ c'.log.drop c.log.length → r.announcesClose d

theorem runJob_keepAlive (cfg : Config) (throws : Bool) (req : Request)
    (h : req.keepAlive = false ∨ (runJob cfg throws req).closeAfter) :
    (runJob cfg throws req).keepAlive = false := by
  rcases h with h | h
  case inl => simp [runJob, h]
  case inr => exact (runJob_closes cfg throws req).mp (by simp [Response.closes, h])

theorem drain_announced (cfg : Config) (started : Nat) (now : Time)
    (h : Reaches (Http.step cfg) (fun s x => s.closesDrain x) (init cfg started now) s)
    (hx : s.closesDrain x) (hs : Http.step cfg s x = some s') : DrainAnnounced s s' := by
  intro id c c' hc hd hc' o d r hf
  have ht := Tracked.reaches h
  have hk := ht.keyed
  have ht' := Tracked.reaches (h.tail hx hs)
  obtain ⟨e, hn, hb⟩ := step_heap hk hs hc'
  cases (hn.old (hk.le hc)).symm.trans hc
  obtain ⟨as, ha⟩ := hb.acts
  obtain ⟨es, hl, hi⟩ := ha.moves.issues
  rw [hl, List.drop_left] at hf
  have hm : .final o d r ∈ c'.log := by rw [hl]; exact List.mem_append_right _ hf
  have he : ∀ id c, s'.heap id = some c → c.ErrorsClose := (h.tail hx hs).invariant (by simp [init])
    fun hr hi _ hs => errorsClose_step (Registry.reaches hr).keyed hi hs
  obtain ⟨ph, hfo, _⟩ := ht'.follows hc'
  refine (announced hfo (he id c' hc') hm).1.mpr ?_
  cases hi o d r hf
  case error he => exact he.closes
  case answer y hy hk' =>
    obtain ⟨_, hyc, ys, hp⟩ := ha.answer y hy
    obtain ⟨throws, hr⟩ := ht.right (x := y) (by simp [undrained, hp, Pc.batch])
    have hcl : y.job.req.keepAlive = false ∨ y.response.closeAfter := by
      cases x
      case worker =>
        -- The workers do not touch the connections.
        have he : c' = c := by cases workerStep_work hs <;> exact Option.some.inj (hc'.symm.trans hc)
        have hn : es = [] := by simpa [he] using hl
        simp [hn] at hf
      case loop a =>
        simp only [closesDrain, hp] at hx
        rw [hyc, hk.id_eq hc, hc] at hx
        simpa [hd, ha.moves.answered hy] using hx
    rw [hk', hr]
    rw [hr] at hcl
    exact runJob_keepAlive cfg throws _ hcl

-- The request in flight when the server shuts down has asked to close the connection.
def drainClosing : List Action :=
  asked "GET / HTTP/1.1\r\nConnection: close\r\n\r\n" ++ sigterm ++
    (served [.accepted 1000]).take 9

theorem drain_announced_closing :
    ∃ s s' c, Http.step {} s (.loop {}) = some s' ∧ s.heap 1 = some c ∧ c.draining ∧
      (s'.heap 1).any (·.results.length = 1) ∧ DrainAnnounced s s' := by
  have ⟨s, _, hr, hx, ⟨c, hc, hd⟩, s', ht, hn⟩ := exec_any (Http.step {})
    (fun s x => s.closesDrain x) (init {} 1 0) drainClosing
    (fun s => s.closesDrain (.loop {}) ∧ (∃ c ∈ s.heap 1, c.draining) ∧
      ∃ s' ∈ Http.step {} s (.loop {}), (s'.heap 1).any (·.results.length = 1)) (by decide +kernel)
  exact ⟨s, s', c, ht, hc, hd, hn, drain_announced {} 1 0 hr hx ht⟩

-- A response that leaves the end of the connection open.
def unannounced : Entry → Bool
  | .final _ d r => Client.valuesOf (ascii "Connection") ((wireFields d r).map trimmed) ≠ [ascii "close"]
  | _            => false

-- The request in flight wants to keep the connection.
def drainKept : List Action :=
  asked "GET / HTTP/1.1\r\n\r\n" ++ sigterm ++ (served [.accepted 1000]).take 9

theorem drain_unannounced :
    ¬∀ s x s', Reaches (Http.step {}) (fun _ _ => True) (init {} 1 0) s →
      Http.step {} s x = some s' → DrainAnnounced s s' := by
  have ⟨s, _, hr, c, hc, hd, s', ht, c', hc', e, he, hp⟩ := exec_any (Http.step {})
    (fun _ _ => True) (init {} 1 0) drainKept
    (fun s => ∃ c ∈ s.heap 1, c.draining ∧ ∃ s' ∈ Http.step {} s (.loop {}), ∃ c' ∈ s'.heap 1,
      ∃ e ∈ c'.log.drop c.log.length, unannounced e) (by decide +kernel)
  intro hn
  cases e
  case final o d r => exact of_decide_eq_true hp (hn s _ s' hr ht 1 c c' hc hd hc' o d r he)
  all_goals cases hp

end Http.System
