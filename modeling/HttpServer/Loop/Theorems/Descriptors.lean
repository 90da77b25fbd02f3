import HttpServer.Loop.Theorems.Registry

namespace Http

-- The system call `epoll_ctl` finds the socket.
def Action.modKnown : Action → Bool
  | loop a     => a.mod ≠ .gone
  | worker _ _ => true

-- The events of a batch that have yet to be dispatched.
def Pc.events : Pc → List Event
  | dispatch evs | drainWake evs => evs
  | _                            => []

def Pc.inBatch : Pc → Bool
  | dispatch _ | drainWake _ => true
  | _                        => false

namespace System

open Transition
open Connection hiding refuses

-- The answers of `accept4`: the number of a new socket is not the one of a socket that is open.
def fresh (cfg : Config) (now : Time) : Nat → List Accept → System → Bool
  | 0, _, _ => true
  | _, [], _ => true
  | n + 1, a :: accepts, s => match a with
    | .eintr        => fresh cfg now n accepts s
    | .eagain       => true
    | .emfile       => true
    | .econnaborted => fresh cfg now n accepts s
    | .error        => true
    | .client fd x  => s.allConns (·.fd ≠ fd) &&
      if s.draining then
        fresh cfg now n accepts (s.rejectConnection fd x "server is shutting down")
      else if s.conns.length ≥ cfg.maxConnections then
        fresh cfg now n accepts (s.rejectConnection fd x "connection limit reached")
      else fresh cfg now n accepts (s.register cfg now fd x)

def allocates (cfg : Config) (s : System) : Action → Bool
  | .loop a     => match s.pc with
    | .dispatch (.listener :: _) => fresh cfg a.now kAcceptBatch a.accepts s
    | .timer => !s.due cfg a || !s.acceptRetry ||
      fresh cfg a.now kAcceptBatch a.accepts { s with lastTick := a.now, acceptRetry := false }
    | _ => true
  | .worker _ _ => true

-- Two connections have two sockets.
def Distinct (s : System) : Prop :=
  ∀ id id' c c', s.heap id = some c → s.heap id' = some c' → c.fd = c'.fd → id = id'

variable {cfg : Config} {a : Answers} {mod : Ctl} {s s' : System} {c c' d : Connection}
variable {id id' i : ConnId} {fd : Fd} {x : Action} {p : Pc} {now : Time}

-- What every turn of `accept_batch` keeps that gets a new number.
theorem acceptBatch_fresh {P : System → Prop} {n : Nat} {accepts : List Accept}
    (hf : fresh cfg now n accepts s) (retry : ∀ {s}, P s → P { s with acceptRetry := true })
    (reject : ∀ {s fd x reason}, P s → P (s.rejectConnection fd x reason))
    (register : ∀ {s fd x}, s.allConns (·.fd ≠ fd) → P s → P (s.register cfg now fd x)) (h : P s) :
    P (acceptBatch cfg now n accepts s) := by
  fun_induction acceptBatch <;> simp only [fresh, Bool.and_eq_true] at hf
  case case1 | case5     => exact retry h
  case case8 hd hi       => exact hi (by simpa [hd] using hf.2) (reject h)
  case case9 hd hm hi    => exact hi (by simpa [hd, hm] using hf.2) (reject h)
  case case10 hd hm hi   => exact hi (by simpa [hd, hm] using hf.2) (register hf.1 h)
  case case3 hi | case6 hi => exact hi hf h
  all_goals exact h

theorem register_distinct {y : Admission} (hk : s.Keyed) (hf : s.allConns (·.fd ≠ fd))
    (h : s.Distinct) : (s.register cfg now fd y).Distinct := by
  have hn {id c} (hc : s.heap id = some c) : c.fd ≠ fd := by simpa using hk.all hf hc
  rcases register_cases (s := s) y with ⟨_, hh⟩ | ⟨_, _, _, d, hd, hdf, _⟩
  case inl => rw [Distinct, hh]; exact h
  case inr =>
    intro id id' c c' hc hc' he
    have hx {id c} (hc : (s.register cfg now fd y).heap id = some c) :
        s.heap id = some c ∨ id = s.lastConnId + 1 ∧ c.fd = fd := by
      refine (register_heap hc).imp_right fun ⟨hi, _⟩ => ⟨hi, ?_⟩
      rw [hi, hd] at hc
      cases hc
      exact hdf
    rcases hx hc with hc | ⟨hi, hc⟩ <;> rcases hx hc' with hc' | ⟨hi', hc'⟩
    · exact h _ _ _ _ hc hc' he
    · exact absurd (he.trans hc') (hn hc)
    · exact absurd (he.symm.trans hc) (hn hc')
    · rw [hi, hi']

theorem acceptBatch_distinct {n : Nat} {accepts : List Accept} (hk : s.Keyed)
    (hf : fresh cfg now n accepts s) (h : s.Distinct) :
    (acceptBatch cfg now n accepts s).Distinct :=
  (acceptBatch_fresh (P := fun t => t.Keyed ∧ t.Distinct) hf (fun h => ⟨⟨h.1.1, h.1.2⟩, h.2⟩)
    (fun h => ⟨⟨h.1.1, h.1.2⟩, h.2⟩)
    (fun hf h => ⟨register_keyed h.1, register_distinct h.1 hf h.2⟩) ⟨hk, h⟩).2

theorem Callback.fd_eq (h : Callback cfg s c x c') : c'.fd = c.fd := by
  have ⟨_, ha⟩ := h.acts
  exact ha.moves.fd_eq

-- A connection is what a step has made of the one that was there before.
theorem Known.old (h : Known cfg now s s' id c) (hl : id ≤ s.lastConnId) : s.heap id = some c :=
  h.resolve_right fun h => absurd hl (Nat.not_le_of_lt h.1)

theorem step_distinct (hk : s.Keyed) (h : s.Distinct) (ha : s.allocates cfg x)
    (hs : step cfg s x = some s') : s'.Distinct := by
  cases hp : s.pc.accepting
  case false =>
    intro id id' c c' hc hc' he
    have hl := (step_admits_none hs hp).1
    have hx {id c} (hc : s'.heap id = some c) : ∃ d, s.heap id = some d ∧ c.fd = d.fd := by
      obtain ⟨d, hd, hb⟩ := step_heap hk hs hc
      exact ⟨d, hd.resolve_right fun h => absurd (hl ▸ h.2.1) (Nat.not_le_of_lt h.1), hb.fd_eq⟩
    obtain ⟨d, hd, hf⟩ := hx hc
    obtain ⟨d', hd', hf'⟩ := hx hc'
    exact h _ _ _ _ hd hd' (hf.symm.trans (he.trans hf'))
  case true =>
    cases x
    case worker => cases workerStep_work hs <;> exact h
    case loop a =>
      rcases step_accepts hs hp with ⟨_, hp, rfl⟩ | ⟨hp, hd, rfl⟩ | ⟨_, _, rfl⟩
      case inr.inr => exact h
      case inl =>
        simp only [allocates, hp] at ha
        exact acceptBatch_distinct hk ha h
      case inr.inl =>
        simp only [allocates, hp, hd, Bool.not_true, Bool.false_or, Bool.or_eq_true,
          Bool.not_eq_true'] at ha
        rw [← hp] at ha
        have hr : ({ s with lastTick := a.now }.admitted cfg a).Distinct := by
          simp only [admitted]
          split
          case isTrue hr  =>
            exact acceptBatch_distinct ⟨hk.1, hk.2⟩ (ha.resolve_left (by simpa using hr)) h
          case isFalse => exact h
        intro id id' c c' hc hc' he
        obtain ⟨d, hd, hf⟩ := mapConns_heap hc
        obtain ⟨d', hd', hf'⟩ := mapConns_heap hc'
        refine hr _ _ _ _ hd hd' ?_
        have hi {c d : Connection} (h : c = d ∨ c = (d.onTick cfg a.now (a.io d.id)).1) : c.fd = d.fd := by
          rcases h with rfl | rfl
          case inl => rfl
          case inr => exact (onTick_id ..).2
        rw [← hi hf, ← hi hf', he]

theorem settle_exists (h : (s.heap id).isSome) : ((s.settle cfg mod d).heap id).isSome := by
  have ⟨_, _, _, _, hp⟩ := (settle_settled cfg mod s d).put
  rw [hp]
  simp only [put]
  split
  case isTrue  => rfl
  case isFalse => exact h

theorem mapConns_exists {f : Connection → Connection} (h : (s.heap id).isSome) :
    ((s.mapConns f).heap id).isSome := by
  simp only [mapConns]
  split
  case isTrue  => simpa using h
  case isFalse => exact h

theorem acceptBatch_exists {n : Nat} {accepts : List Accept} (hl : id ≤ s.lastConnId)
    (h : (s.heap id).isSome) : ((acceptBatch cfg now n accepts s).heap id).isSome := by
  refine (acceptBatch_keeps (P := fun t => id ≤ t.lastConnId ∧ (t.heap id).isSome) (fun h => h)
    (fun h => h) (fun {t _ y} _ ⟨hl, ht⟩ => ⟨?_, ?_⟩) ⟨hl, h⟩).2
  · rw [register_lastConnId]
    exact Nat.le_succ_of_le hl
  · rcases register_cases (s := t) y with ⟨_, hh⟩ | ⟨_, _, hh, _⟩
    case inl => rw [hh]; exact ht
    case inr => rw [hh hl]; exact ht

-- Connections are destroyed only where references to them are dropped.
theorem Next.keeps (h : Next cfg a s s') (hk : s.Keyed) (hc : s.heap id = some c) :
    (s'.heap id).isSome ∨ s'.pc = .reap ∨ s'.reaps = [] := by
  have hl := hk.le hc
  have hc : (s.heap id).isSome := by simp [hc]
  cases h
  case signal => exact .inl (by rw [goto_heap, handleSignals_heap]; exact hc)
  case accept => exact .inl (acceptBatch_exists hl hc)
  case event | deliver | rescan => exact .inl (settle_exists hc)
  case unpin  => exact .inr (.inl rfl)
  case reap   => exact .inr (.inr (reap_reaps s))
  case drain  =>
    refine .inl ?_
    simp only [goto_heap, maybeBeginDrain]
    split
    case isTrue  => exact hc
    case isFalse => exact mapConns_exists hc
  case tick =>
    refine .inl (mapConns_exists ?_)
    split
    case isTrue  => exact acceptBatch_exists hl hc
    case isFalse => exact hc
  case force   => exact .inr (.inr (closeAll_reaps s))
  case cleanup => exact .inr (.inr (closeAll_reaps _))
  all_goals exact .inl hc

-- What has been put on the list by a callback.
theorem Settled.listed (h : Settled cfg mod s d s') {e : Fd × ConnId} (he : e ∈ s'.reaps) :
    e ∈ s.reaps ∨ e = (d.fd, d.id) ∧ s'.heap d.id = some d ∧ (d.finished ∨ mod = .gone) := by
  cases h
  case reap hf =>
    refine (List.mem_append.mp he).imp_right fun he => ⟨List.mem_singleton.mp he, ?_, .inl hf⟩
    exact if_pos rfl
  case gone hm =>
    refine (List.mem_append.mp he).imp_right fun he => ⟨List.mem_singleton.mp he, ?_, .inr hm⟩
    exact if_pos rfl
  all_goals exact .inl he

theorem maybeBeginDrain_listed {e : Fd × ConnId} (h : e ∈ (s.maybeBeginDrain cfg now).reaps) :
    e ∈ s.reaps ∨
      e ∈ (s.maybeBeginDrain cfg now).conns ∧ (s.maybeBeginDrain cfg now).isFinished e.2 := by
  simp only [maybeBeginDrain] at h ⊢
  split at h
  case isTrue     => exact .inl h
  case isFalse hc =>
    rw [if_neg hc]
    exact (List.mem_append.mp h).imp_right List.mem_filter.mp

theorem tick_listed {e : Fd × ConnId} (h : e ∈ (s.tick cfg a).reaps) :
    e ∈ s.reaps ∨ e ∈ (s.tick cfg a).conns ∧ (s.tick cfg a).isFinished e.2 := by
  rw [tick_eq] at h
  refine (List.mem_append.mp h).imp (fun h => ?_) List.mem_filter.mp
  have h : e ∈ (s.admitted cfg a).reaps := h
  simp only [admitted] at h
  split at h
  case isTrue  => exact acceptBatch_reaps (s := { s with acceptRetry := false }) ▸ h
  case isFalse => exact h

-- A connection that a step puts on the list is there, and it is finished unless epoll has lost it.
def Listed (s : System) (x : Action) (fd : Fd) (id : ConnId) : Prop :=
  ∃ c, s.heap id = some c ∧ c.fd = fd ∧ (c.finished ∨ x.modKnown = false)

theorem settle_listing (h : (fd, id) ∈ (s.settle cfg a.mod d).reaps) :
    (fd, id) ∈ s.reaps ∨ (s.settle cfg a.mod d).Listed (.loop a) fd id := by
  rcases (settle_settled cfg a.mod s d).listed h with h | ⟨h, hd, hx⟩
  case inl => exact .inl h
  case inr =>
    cases h
    exact .inr ⟨d, hd, rfl, hx.imp_right fun hx => by simp [Action.modKnown, hx]⟩

theorem Registry.listing (h : s.Registry) (hs : Http.step cfg s x = some s')
    (he : (fd, id) ∈ s'.reaps) : (fd, id) ∈ s.reaps ∨ s'.Listed x fd id := by
  have hr := h.step hs
  have hf (hm : (fd, id) ∈ s'.conns ∧ s'.isFinished id) : s'.Listed x fd id := by
    have ⟨hm, hx⟩ := hm
    have ⟨c, hc, hf⟩ := hr.stored hm
    rw [isFinished, hc] at hx
    exact ⟨c, hc, hf, .inl hx⟩
  cases x
  case worker => cases workerStep_work hs <;> exact .inl he
  case loop a =>
    cases loopStep_next hs
    case signal  => exact .inl ((handleSignals_books a.signals s).2.1 ▸ he)
    case accept  => exact .inl (acceptBatch_reaps (s := s) ▸ he)
    case event   => exact settle_listing he
    case deliver => exact settle_listing he
    case rescan  => exact settle_listing he
    case reap    => simp [System.goto, reap_reaps] at he
    case drain   => exact (maybeBeginDrain_listed he).imp_right hf
    case tick    => exact (tick_listed (s := { s with lastTick := a.now }) he).imp_right hf
    case force   => simp [System.goto, closeAll_reaps] at he
    case cleanup => simp [System.goto, closeAll_reaps] at he
    all_goals exact .inl he

-- The list of connections to destroy names connections that exist, by the numbers of their sockets.
-- No other connection goes by one of these numbers.
structure Exclusive (s : System) : Prop where
  registry : s.Registry
  distinct : s.Distinct
  held     : s.pc ≠ .reap → ∀ {fd id}, (fd, id) ∈ s.reaps → ∃ c, s.heap id = some c ∧ c.fd = fd
  own      : ∀ {fd id id'}, (fd, id) ∈ s.reaps → (fd, id') ∈ s.conns → id' = id

theorem step_keeps (hk : s.Keyed) (hs : step cfg s x = some s') (hc : s.heap id = some c) :
    (∃ c', s'.heap id = some c' ∧ c'.fd = c.fd) ∨ s'.pc = .reap ∨ s'.reaps = [] := by
  have hx : (s'.heap id).isSome ∨ s'.pc = .reap ∨ s'.reaps = [] := by
    cases x
    case loop   => exact (loopStep_next hs).keeps hk hc
    case worker => exact .inl (by cases workerStep_work hs <;> simp [hc])
  refine hx.imp_left fun hx => ?_
  have ⟨c', hc'⟩ := Option.isSome_iff_exists.mp hx
  have ⟨d, hd, hb⟩ := step_heap hk hs hc'
  cases (hd.old (hk.le hc)).symm.trans hc
  exact ⟨c', hc', hb.fd_eq⟩

-- The loop has dropped its references to the connections that it rescanned.
theorem step_unpins (hs : step cfg s x = some s') (hp : s'.pc = .reap) :
    s'.conns = s.conns ∧ s'.reaps = s.reaps := by
  cases x
  case worker => cases workerStep_work hs <;> exact ⟨rfl, rfl⟩
  case loop =>
    cases loopStep_next hs
    case goto hg        => cases hg <;> cases hp
    case event | rescan => rw [Frame.serve.pc] at hp; cases hp
    case deliver        => rw [Frame.settle.pc] at hp; cases hp
    case retry hq       => cases hq.symm.trans hp
    case counter hq     => cases hq.symm.trans hp
    case reap hq        => rcases hq with ⟨_, rfl⟩ | ⟨_, rfl⟩ <;> cases hp
    case unpin          => exact ⟨rfl, rfl⟩
    all_goals cases hp

theorem step_reaps (hs : step cfg s x = some s') (hp : s.pc = .reap) :
    s'.pc = .reap ∨ s'.reaps = [] := by
  cases x
  case worker => cases workerStep_work hs <;> exact .inl hp
  case loop   =>
    simp only [step, loopStep, hp] at hs
    cases hs
    exact .inr (reap_reaps s)

theorem Exclusive.step (h : s.Exclusive) (ha : s.allocates cfg x)
    (hs : Http.step cfg s x = some s') : s'.Exclusive := by
  have hk := h.registry.keyed
  have hr := h.registry.step hs
  have hd := step_distinct hk h.distinct ha hs
  have hh : s'.pc ≠ .reap → ∀ {fd id}, (fd, id) ∈ s'.reaps → ∃ c, s'.heap id = some c ∧ c.fd = fd := by
    intro hp fd id he
    rcases h.registry.listing hs he with hl | ⟨c, hc, hf, _⟩
    case inr => exact ⟨c, hc, hf⟩
    case inl =>
      have hn : s'.reaps ≠ [] := List.ne_nil_of_mem he
      have ⟨c, hc, hf⟩ := h.held (fun hp' => (step_reaps hs hp').elim hp hn) hl
      have ⟨c', hc', hf'⟩ := (step_keeps hk hs hc).resolve_right fun h => h.elim hp hn
      exact ⟨c', hc', hf'.trans hf⟩
  refine ⟨hr, hd, hh, fun {fd id id'} he hm => ?_⟩
  by_cases hp : s'.pc = .reap
  case pos =>
    have ⟨hc, hl⟩ := step_unpins hs hp
    exact h.own (hl ▸ he) (hc ▸ hm)
  case neg =>
    have ⟨c, hc, hf⟩ := hh hp he
    have ⟨c', hc', hf'⟩ := hr.stored hm
    exact hd _ _ _ _ hc' hc (hf'.trans hf.symm)

theorem Exclusive.reaches {ok : System → Action → Prop} {started : Nat}
    (hk : ∀ {s x}, ok s x → s.allocates cfg x)
    (h : Reaches (Http.step cfg) ok (init cfg started now) s) : s.Exclusive :=
  h.invariant ⟨.init .., by simp [init, Distinct], by simp [init], by simp [init]⟩
    fun _ hi ha hs => hi.step (hk ha) hs

-- The state in which `close_all` calls `reap`.
def killAll (s : System) : System :=
  { s.mapConns (·.kill) with reaps := s.reaps ++ s.conns }

-- The state in which a step calls `reap`, directly or from `close_all`.
inductive Reaping (s : System) : System → Prop
  | list : s.pc = .reap ∨ s.pc = .reapTick → Reaping s s
  | all  : s.pc = .shutdownComplete ∨ s.pc = .deadline ∨ s.pc = .cleanup → Reaping s s.killAll

theorem acceptBatch_appends {n : Nat} {accepts : List Accept} :
    ∃ l, (acceptBatch cfg now n accepts s).conns = s.conns ++ l := by
  refine acceptBatch_keeps (P := fun t => ∃ l, t.conns = s.conns ++ l) (fun h => h) (fun h => h) ?_
    ⟨[], (List.append_nil _).symm⟩
  intro t fd y _ ⟨l, hl⟩
  rcases register_cases (s := t) y with ⟨hc, _⟩ | ⟨_, hc, _⟩ <;> rw [hc, hl]
  case inl => exact ⟨l, rfl⟩
  case inr => exact ⟨_, List.append_assoc ..⟩

theorem admitted_appends : ∃ l, (s.admitted cfg a).conns = s.conns ++ l := by
  simp only [admitted]
  split
  case isTrue  => exact acceptBatch_appends
  case isFalse => exact ⟨[], (List.append_nil _).symm⟩

-- A connection leaves `conns_` in `reap` only.
theorem step_erases {e : Fd × ConnId} (hs : step cfg s x = some s') (he : e ∈ s.conns)
    (hn : e ∉ s'.conns) : ∃ t, Reaping s t ∧ (∃ i, (e.1, i) ∈ t.reaps) ∧
      ∀ {id c}, s'.heap id = some c → t.heap id = some c := by
  have hk {t : System} (hc : t.conns = s.conns) : e ∈ t.conns := hc ▸ he
  have ha {t : System} (hc : ∃ l, t.conns = s.conns ++ l) : e ∈ t.conns := by
    have ⟨_, hc⟩ := hc
    rw [hc]
    exact List.mem_append_left _ he
  cases x
  case worker => cases workerStep_work hs <;> exact absurd he hn
  case loop a =>
    cases loopStep_next hs
    case signal => exact (hn (hk (handleSignals_books a.signals s).1)).elim
    case accept => exact (hn (ha acceptBatch_appends)).elim
    case event | deliver | rescan => exact (hn (hk settle_books.2.1)).elim
    case reap hp =>
      refine ⟨s, .list (hp.imp And.left And.left), ?_, reap_heap⟩
      by_contra hr
      exact hn (mem_reap_conns.mpr ⟨he, not_exists.mp hr⟩)
    case drain   => exact (hn (hk maybeBeginDrain_books.2)).elim
    case tick    => exact (hn (ha (admitted_appends (s := { s with lastTick := a.now })))).elim
    case force hp =>
      exact ⟨_, .all (hp.imp And.left (.inl ·.1)), ⟨e.2, List.mem_append_right _ he⟩, reap_heap⟩
    case cleanup hp =>
      exact ⟨_, .all (.inr (.inr hp)), ⟨e.2, List.mem_append_right _ he⟩, reap_heap⟩
    all_goals exact absurd he hn

-- What epoll reports is about a socket that is registered there.
def registered (s : System) : Event → Bool
  | .conn fd _ _ _ _ => s.conns.any (·.1 = fd)
  | _                => true

-- While a batch is dispatched, `conns_` only grows.
theorem step_batch (hs : step cfg s x = some s') (hp : s.pc.inBatch) :
    (∃ l, s'.conns = s.conns ++ l) ∧ ∀ ev ∈ s'.pc.events, ev ∈ s.pc.events := by
  have hk {t : System} (hc : t.conns = s.conns) : ∃ l, t.conns = s.conns ++ l :=
    ⟨[], by rw [hc, List.append_nil]⟩
  cases x
  case worker => cases workerStep_work hs <;> exact ⟨hk rfl, fun _ h => h⟩
  case loop a =>
    cases loopStep_next hs
    case goto hg =>
      refine ⟨hk rfl, fun ev he => ?_⟩
      cases hg <;> simp_all [Pc.events, Pc.inBatch]
    case signal hq =>
      exact ⟨hk (handleSignals_books a.signals s).1, by simp_all [Pc.events]⟩
    case accept hq => exact ⟨acceptBatch_appends, by simp_all [Pc.events]⟩
    case event hq _ _ =>
      refine ⟨hk settle_books.2.1, fun ev he => ?_⟩
      rw [Frame.serve.pc] at he
      simp_all [Pc.events]
    case counter => exact ⟨hk rfl, fun _ h => h⟩
    case reap hq | force hq => rcases hq with hq | hq <;> simp [hq, Pc.inBatch] at hp
    all_goals simp_all [Pc.inBatch]

-- The sockets and the connections on them are not confused: in `conns_`, when `reap` looks up what it
-- was told to destroy, and when an event is dispatched that was reported for a socket.
structure Identified (cfg : Config) (s : System) : Prop where
  keys   : ∀ fd id, (fd, id) ∈ s.conns → ∃ c, s.heap id = some c ∧ c.fd = fd
  reaped : ∀ t, Reaping s t → ∀ fd id id', (fd, id) ∈ t.reaps → (fd, id') ∈ t.conns → id' = id
  events : ∀ a s₁ s₂ fd err hup input output evs, s.pc = .wait → step cfg s (.loop a) = some s₁ →
    (∀ ev ∈ s₁.pc.events, s.registered ev) →
    Reaches (step cfg) (fun t y => t.allocates cfg y ∧ t.pc.inBatch) s₁ s₂ →
    s₂.pc = .dispatch (.conn fd err hup input output :: evs) →
    ∃ id, (fd, id) ∈ s.conns ∧ s₂.conns.lookup fd = some id

theorem lookup_append {l l' : List (Fd × ConnId)} (h : l.any (·.1 = fd)) :
    ∃ id, (fd, id) ∈ l ∧ (l ++ l').lookup fd = some id := by
  have hs : (l.lookup fd).isSome := by
    have ⟨e, he, hf⟩ := List.any_eq_true.mp h
    exact List.lookup_isSome_iff.mpr ⟨e, he, beq_iff_eq.mpr (of_decide_eq_true hf).symm⟩
  have ⟨i, hi⟩ := Option.isSome_iff_exists.mp hs
  exact ⟨i, mem_of_lookup hi, by rw [List.lookup_append, hi, Option.some_or]⟩

theorem descriptors_identified (cfg : Config) (started : Nat) (now : Time)
    (h : Reaches (Http.step cfg) (fun s x => s.allocates cfg x) (init cfg started now) s) :
    s.Identified cfg := by
  have he := Exclusive.reaches (fun h => h) h
  have hr := he.registry
  constructor
  case keys => exact fun _ _ hm => hr.stored hm
  case reaped =>
    intro t ht fd id id' hl hm
    cases ht
    case list => exact he.own hl hm
    case all hp =>
      rcases List.mem_append.mp hl with hl | hl
      case inl => exact he.own hl hm
      case inr =>
        obtain ⟨_, hc, hf⟩ := hr.stored hl
        obtain ⟨_, hc', hf'⟩ := hr.stored hm
        exact he.distinct _ _ _ _ hc' hc (hf'.trans hf.symm)
  case events =>
    intro a s₁ s₂ fd err hup input output evs hp hs hg hb hp₂
    have hc : s₁.conns = s.conns := by
      simp only [step, loopStep, hp] at hs
      split at hs <;> cases hs <;> rfl
    have hx : (∃ l, s₂.conns = s.conns ++ l) ∧ ∀ ev ∈ s₂.pc.events, s.registered ev := by
      refine hb.invariant (P := fun t => (∃ l, t.conns = s.conns ++ l) ∧
        ∀ ev ∈ t.pc.events, s.registered ev) ⟨⟨[], by rw [hc, List.append_nil]⟩, hg⟩ ?_
      rintro t y t' _ ⟨⟨l, hl⟩, hi⟩ hk hs
      obtain ⟨⟨l', hl'⟩, hi'⟩ := step_batch hs hk.2
      exact ⟨⟨l ++ l', by rw [hl', hl, List.append_assoc]⟩, fun ev hev => hi ev (hi' ev hev)⟩
    obtain ⟨⟨l, hl⟩, hi⟩ := hx
    rw [hl]
    exact lookup_append (hi (.conn fd err hup input output) (by simp [hp₂, Pc.events]))

-- A client leaves, and the next one gets the number of its socket.
def rejoined : List Action :=
  client ++ arrival [.received []] ++ client

theorem descriptors_identified_reused :
    ∃ s, exec (Http.step {}) (fun s x => s.allocates {} x) (init {} 1 0) rejoined = some s ∧
      s.conns = [(7, 2)] ∧ s.Identified {} := by
  have ⟨s, hs, hr, hc⟩ := exec_any (Http.step {}) (fun s x => s.allocates {} x) (init {} 1 0)
    rejoined (fun s => s.conns = [(7, 2)]) (by decide +kernel)
  exact ⟨s, hs, hc, descriptors_identified {} 1 0 hr⟩

end System
end Http
