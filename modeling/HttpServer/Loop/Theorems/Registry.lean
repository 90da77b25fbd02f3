import HttpServer.Loop.Theorems.Heap

namespace Http

-- The list of connections to destroy has been emptied since a connection was last served.
def Pc.swept : Pc → Bool
  | beginDrain | timer | shutdownComplete | queueSize | completionsPending | deadline | wait => true
  | _                                                                                       => false

-- The next step of the loop can accept connections.
def Pc.accepting : Pc → Bool
  | dispatch (.listener :: _) | timer => true
  | _                                 => false

namespace Connection

variable {cfg : Config} {c c' : Connection} {as : List Act}

theorem Move.fd_eq {a : Option Act} (h : Move cfg c a c') : c'.fd = c.fd := by
  cases h <;> rfl

theorem Moves.fd_eq (h : Moves cfg c as c') : c'.fd = c.fd := by
  induction h
  case refl         => rfl
  case head hm _ hi => exact hi.trans hm.fd_eq

theorem Move.draining {a : Option Act} (h : Move cfg c a c') (hd : c.draining) : c'.draining := by
  cases h <;> first | exact hd | rfl

theorem Moves.draining (h : Moves cfg c as c') (hd : c.draining) : c'.draining := by
  induction h
  case refl         => exact hd
  case head hm _ hi => exact hi (hm.draining hd)

end Connection

namespace System

open Transition
open Connection hiding refuses

-- Every entry of `conns_` is the connection on that socket. It is on the list of connections to
-- destroy as soon as it is finished, and it knows if the server shuts down.
structure Registry (s : System) : Prop where
  keyed    : s.Keyed
  stored   : ∀ {fd id}, (fd, id) ∈ s.conns → ∃ c, s.heap id = some c ∧ c.fd = fd
  listed   : ∀ {fd id c}, (fd, id) ∈ s.conns → s.heap id = some c → c.finished → (fd, id) ∈ s.reaps
  draining : ∀ {fd id c}, s.draining → (fd, id) ∈ s.conns → s.heap id = some c → c.draining

variable {cfg : Config} {a : Answers} {mod : Ctl} {s s' s₀ : System} {c c' d : Connection}
variable {id i : ConnId} {fd : Fd} {x : Action} {p : Pc} {now : Time} {as : List Act}

theorem any_iff : s.conns.any (·.2 = id) ↔ ∃ fd, (fd, id) ∈ s.conns := by
  simp

theorem mem_of_lookup {l : List (Fd × ConnId)} (h : l.lookup fd = some id) : (fd, id) ∈ l := by
  have ⟨_, _, hl, _⟩ := List.lookup_eq_some_iff.mp h
  simp [hl]

theorem collect_keeps (h : (fd, id) ∈ s.conns) : s.collect.heap id = s.heap id := by
  have ha := any_iff.mpr ⟨fd, h⟩
  simp [collect, ha]

theorem mapConns_listed {f : Connection → Connection} (h : (fd, id) ∈ s.conns) :
    (s.mapConns f).heap id = (s.heap id).map f := by
  simp only [mapConns, any_iff.mpr ⟨fd, h⟩, ite_true]

theorem mapConns_unlisted {f : Connection → Connection} (h : ∀ fd, (fd, id) ∉ s.conns) :
    (s.mapConns f).heap id = s.heap id := by
  have ha : s.conns.any (·.2 = id) = false := by
    simp only [List.any_eq_false, decide_eq_true_eq]
    rintro ⟨fd, _⟩ hf rfl
    exact h fd hf
  simp [mapConns, ha]

-- What is left of `conns_` after `reap`.
theorem mem_reap_conns {e : Fd × ConnId} :
    e ∈ s.reap.conns ↔ e ∈ s.conns ∧ ∀ i, (e.1, i) ∉ s.reaps := by
  have hc : s.reap.conns = s.conns.filter fun e => !s.reaps.any (·.1 = e.1) := by
    simp only [reap]
    split
    case isTrue hr =>
      rw [List.isEmpty_iff] at hr
      simp [hr]
    case isFalse => rfl
  rw [hc, List.mem_filter, and_congr_right_iff]
  refine fun _ => ⟨fun hn i hi => ?_, fun hn => ?_⟩
  · simp only [Bool.not_eq_true', List.any_eq_false, decide_eq_true_eq] at hn
    exact hn _ hi rfl
  · simp only [Bool.not_eq_true', List.any_eq_false, decide_eq_true_eq]
    rintro ⟨_, i⟩ hi rfl
    exact hn i hi

theorem reap_reaps (s : System) : s.reap.reaps = [] := by
  simp only [reap]
  split
  case isTrue hr => exact List.isEmpty_iff.mp hr
  case isFalse   => rfl

theorem reap_draining (s : System) : s.reap.draining = s.draining := by
  simp only [reap]
  split <;> rfl

theorem reap_keeps (h : (fd, id) ∈ s.reap.conns) : s.reap.heap id = s.heap id := by
  simp only [reap] at h ⊢
  split at h
  case isTrue hr  => rw [if_pos hr]
  case isFalse hr => rw [if_neg hr]; exact collect_keeps h

theorem closeAll_conns (s : System) : s.closeAll.conns = [] := by
  refine List.eq_nil_iff_forall_not_mem.mpr fun e he => ?_
  have ⟨hc, hr⟩ := mem_reap_conns.mp he
  exact hr e.2 (List.mem_append_right _ hc)

theorem closeAll_reaps (s : System) : s.closeAll.reaps = [] :=
  reap_reaps _

theorem closeAll_draining (s : System) : s.closeAll.draining = s.draining :=
  reap_draining _

-- A connection that is finished when it was served is destroyed next.
theorem Settled.reaps (h : Settled cfg mod s d s') :
    (∀ e ∈ s.reaps, e ∈ s'.reaps) ∧ (d.finished → (d.fd, d.id) ∈ s'.reaps) := by
  cases h
  case reap | gone => exact ⟨fun _ he => List.mem_append_left _ he, by simp⟩
  all_goals exact ⟨fun _ he => he, by simp_all⟩

theorem Applied.finished_eq (h : Applied cfg mod c c') : c'.finished = c.finished := by
  cases h <;> rfl

-- The state in which `tick` calls the connections.
def admitted (cfg : Config) (a : Answers) (s : System) : System :=
  if s.acceptRetry
    then acceptBatch cfg a.now kAcceptBatch a.accepts { s with acceptRetry := false } else s

def ticked (cfg : Config) (a : Answers) (s : System) : System :=
  (s.admitted cfg a).mapConns fun c => (c.onTick cfg a.now (a.io c.id)).1

theorem tick_eq : s.tick cfg a = { s.ticked cfg a with
    reaps := (s.ticked cfg a).reaps ++ (s.ticked cfg a).conns.filter ((s.ticked cfg a).isFinished ·.2) } :=
  rfl

-- What every turn of `accept_batch` keeps holds after it.
theorem acceptBatch_keeps {P : System → Prop} {n : Nat} {accepts : List Accept}
    (retry : ∀ {s}, P s → P { s with acceptRetry := true })
    (reject : ∀ {s fd x reason}, P s → P (s.rejectConnection fd x reason))
    (register : ∀ {s fd x}, s.draining = false → P s → P (s.register cfg now fd x)) (h : P s) :
    P (acceptBatch cfg now n accepts s) := by
  fun_induction acceptBatch
  case case1 | case5     => exact retry h
  case case8 hi | case9 hi => exact hi (reject h)
  case case10 hd _ hi    => exact hi (register (by simpa using hd) h)
  case case3 hi | case6 hi => exact hi h
  all_goals exact h

theorem register_draining {y : Admission} : (s.register cfg now fd y).draining = s.draining := by
  simp only [register]
  split <;> rfl

theorem register_reaps {y : Admission} : (s.register cfg now fd y).reaps = s.reaps := by
  simp only [register]
  split <;> rfl

-- The socket is turned away by epoll, or there is a new connection on it.
theorem register_cases (y : Admission) :
    (s.register cfg now fd y).conns = s.conns ∧ (s.register cfg now fd y).heap = s.heap ∨
    (∀ i, (fd, i) ∉ s.conns) ∧
      (s.register cfg now fd y).conns = s.conns ++ [(fd, s.lastConnId + 1)] ∧
      (∀ {id}, id ≤ s.lastConnId → (s.register cfg now fd y).heap id = s.heap id) ∧
      ∃ c, (s.register cfg now fd y).heap (s.lastConnId + 1) = some c ∧ c.fd = fd ∧
        Born cfg now (s.lastConnId + 1) c := by
  simp only [register]
  split
  case isTrue => exact .inl ⟨rfl, rfl⟩
  case isFalse hn =>
    simp only [Bool.or_eq_true, Bool.not_eq_true', not_or, List.any_eq_true, decide_eq_true_eq,
      not_exists, not_and] at hn
    refine .inr ⟨fun i hi => hn.2 (fd, i) hi rfl, rfl, fun hl => ?_, _, ?_, rfl, fd, rfl⟩
    · exact if_neg (Nat.ne_of_lt (Nat.lt_succ_of_le hl))
    · exact if_pos rfl

theorem acceptBatch_draining {n : Nat} {accepts : List Accept} :
    (acceptBatch cfg now n accepts s).draining = s.draining :=
  acceptBatch_keeps (P := fun t => t.draining = s.draining) (fun h => h) (fun h => h)
    (fun _ h => register_draining.trans h) rfl

theorem acceptBatch_reaps {n : Nat} {accepts : List Accept} :
    (acceptBatch cfg now n accepts s).reaps = s.reaps :=
  acceptBatch_keeps (P := fun t => t.reaps = s.reaps) (fun h => h) (fun h => h)
    (fun _ h => register_reaps.trans h) rfl

theorem register_keyed {y : Admission} (hk : s.Keyed) : (s.register cfg now fd y).Keyed where
  id_eq h := by
    rcases register_heap h with h | ⟨_, _, rfl⟩
    case inl => exact hk.id_eq h
    case inr => rfl
  le h := by
    rw [register_lastConnId]
    rcases register_heap h with h | ⟨he, _⟩
    case inl => exact Nat.le_succ_of_le (hk.le h)
    case inr => exact Nat.le_of_eq he

namespace Registry

theorem le (h : s.Registry) (hc : (fd, id) ∈ s.conns) : id ≤ s.lastConnId := by
  have ⟨_, hc, _⟩ := h.stored hc
  exact h.keyed.le hc

-- The parts of the state that matter are the same.
theorem same (h : s.Registry) (hh : s'.heap = s.heap) (hl : s'.lastConnId = s.lastConnId)
    (hc : s'.conns = s.conns) (hr : s'.reaps = s.reaps) (hd : s'.draining = s.draining) :
    s'.Registry where
  keyed    := ⟨fun h' => h.keyed.id_eq (hh ▸ h'), fun h' => hl ▸ h.keyed.le (hh ▸ h')⟩
  stored   := by rw [hh, hc]; exact h.stored
  listed   := by rw [hh, hc, hr]; exact h.listed
  draining := by rw [hh, hc, hd]; exact h.draining

theorem register {y : Admission} (hd : s.draining = false) (h : s.Registry) :
    (s.register cfg now fd y).Registry := by
  refine ⟨register_keyed h.keyed, ?_, ?_, by simp [register_draining, hd]⟩
  all_goals rcases register_cases (s := s) y with
    ⟨hc, hh⟩ | ⟨_, hc, hh, c, hn, hf, hb⟩
  · rw [hc, hh]
    exact h.stored
  · intro fd' id hm
    rw [hc] at hm
    rcases List.mem_append.mp hm with hm | hm
    case inl => rw [hh (h.le hm)]; exact h.stored hm
    case inr =>
      cases List.mem_singleton.mp hm
      exact ⟨c, hn, hf⟩
  · rw [hc, hh, register_reaps]
    exact h.listed
  · intro fd' id c' hm hc' hx
    rw [hc] at hm
    rcases List.mem_append.mp hm with hm | hm
    case inl =>
      rw [hh (h.le hm)] at hc'
      rw [register_reaps]
      exact h.listed hm hc' hx
    case inr =>
      cases List.mem_singleton.mp hm
      cases hn.symm.trans hc'
      have ⟨_, hb⟩ := hb
      rw [hb] at hx
      cases hx

theorem acceptBatch {n : Nat} {accepts : List Accept} (h : s.Registry) :
    (acceptBatch cfg now n accepts s).Registry :=
  acceptBatch_keeps (fun h => h.same rfl rfl rfl rfl rfl) (fun h => h.same rfl rfl rfl rfl rfl)
    register h

-- A callback on all of `conns_`, after which those that are finished are listed.
theorem map {f : Connection → Connection} (h : s.Registry)
    (hf : ∀ c, (f c).id = c.id ∧ (f c).fd = c.fd) (hh : s'.heap = (s.mapConns f).heap)
    (hl : s'.lastConnId = s.lastConnId) (hc : s'.conns = s.conns)
    (hr : s'.reaps = s.reaps ++ s.conns.filter ((s.mapConns f).isFinished ·.2))
    (hd : s'.draining → ∀ c, (s.draining → c.draining) → (f c).draining) : s'.Registry := by
  refine ⟨⟨fun {id c} hc' => ?_, fun hc' => ?_⟩, fun {fd id} hm => ?_, fun hm hc' hx => ?_,
    fun {fd id c} hd' hm hc' => ?_⟩
  · rw [hh] at hc'
    have ⟨c, hc, he⟩ := mapConns_heap hc'
    rcases he with rfl | rfl
    case inl => exact h.keyed.id_eq hc
    case inr => exact (hf c).1.trans (h.keyed.id_eq hc)
  · rw [hh] at hc'
    have ⟨c, hc, _⟩ := mapConns_heap hc'
    exact hl ▸ h.keyed.le hc
  · rw [hc] at hm
    have ⟨c, hc, he⟩ := h.stored hm
    exact ⟨f c, by rw [hh, mapConns_listed hm, hc]; rfl, (hf c).2.trans he⟩
  · rw [hc] at hm
    rw [hh] at hc'
    rw [hr]
    exact List.mem_append_right _ (List.mem_filter.mpr ⟨hm, by simp [isFinished, hc', hx]⟩)
  · rw [hc] at hm
    rw [hh, mapConns_listed hm] at hc'
    have ⟨c, hc, he⟩ := Option.map_eq_some_iff.mp hc'
    rw [← he]
    exact hd hd' c fun hd => h.draining hd hm hc

theorem collect (h : s.Registry) : s.collect.Registry where
  keyed := ⟨fun hc => h.keyed.id_eq (collect_heap hc), fun hc => h.keyed.le (collect_heap hc)⟩
  stored hm := by
    have ⟨c, hc, he⟩ := h.stored hm
    exact ⟨c, (collect_keeps (s := s) hm).trans hc, he⟩
  listed hm hc      := h.listed hm (collect_heap hc)
  draining hd hm hc := h.draining hd hm (collect_heap hc)

theorem reap (h : s.Registry) : s.reap.Registry where
  keyed := by
    refine ⟨fun hc => h.keyed.id_eq (reap_heap hc), fun hc => ?_⟩
    exact Nat.le_trans (h.keyed.le (reap_heap hc)) (Frame.reap s).ids
  stored hm := by
    rw [reap_keeps hm]
    exact h.stored (mem_reap_conns.mp hm).1
  listed {_ id _} hm hc hf := by
    have ⟨hm, hn⟩ := mem_reap_conns.mp hm
    exact absurd (h.listed hm (reap_heap hc) hf) (hn id)
  draining hd hm hc := by
    rw [reap_draining] at hd
    exact h.draining hd (mem_reap_conns.mp hm).1 (reap_heap hc)

-- There are no connections left.
theorem closed (hk : s.Keyed) (hc : s.conns = []) : s.Registry :=
  ⟨hk, by simp [hc], by simp [hc], by simp [hc]⟩

theorem closeAll (h : s.Registry) : s.closeAll.Registry := by
  refine closed ⟨fun hc => ?_, fun hc => ?_⟩ (closeAll_conns s)
  · have ⟨c, hk, he⟩ := closeAll_heap hc
    rcases he with rfl | rfl
    case inl => exact h.keyed.id_eq hk
    case inr => exact (h.keyed.id_eq hk :)
  · have ⟨c, hc, _⟩ := closeAll_heap hc
    exact Nat.le_trans (h.keyed.le hc) (Frame.closeAll s).ids

-- A connection was served.
theorem settle (h : s.Registry) (hc : s.heap i = some c) (hm : Moves cfg c as d)
    (hh : s₀.heap = s.heap) (hl : s₀.lastConnId = s.lastConnId) (hn : s₀.conns = s.conns)
    (hr : s₀.reaps = s.reaps) (hd : s₀.draining = s.draining) :
    (s₀.settle cfg mod d).Registry := by
  have hs := settle_settled cfg mod s₀ d
  have ⟨c', _, _, ha, hp⟩ := hs.put
  have ⟨hdf, hdi⟩ := And.intro hm.fd_eq hm.id_eq
  have hm := hm.before ha.moves
  cases h.keyed.id_eq hc
  have hn' : (s₀.settle cfg mod d).conns = s.conns := by rw [hp]; exact hn
  have hd' : (s₀.settle cfg mod d).draining = s.draining := by rw [hp]; exact hd
  have hl' : (s₀.settle cfg mod d).lastConnId = s.lastConnId := by rw [hp]; exact hl
  have hh' : (s₀.settle cfg mod d).heap = fun id => if id = c.id then some c' else s.heap id := by
    rw [hp, ← hm.id_eq, ← hh]
    rfl
  generalize s₀.settle cfg mod d = s' at hs hp hn' hd' hl' hh'
  have hx {id c''} (hc'' : s'.heap id = some c'') :
      s.heap id = some c'' ∨ id = c.id ∧ c'' = c' := by
    simp only [hh'] at hc''
    split at hc''
    case isTrue he  => exact .inr ⟨he, (Option.some.inj hc'').symm⟩
    case isFalse    => exact .inl hc''
  constructor
  case keyed =>
    refine ⟨fun hc'' => ?_, fun hc'' => ?_⟩
    · rcases hx hc'' with hx | ⟨rfl, rfl⟩
      case inl => exact h.keyed.id_eq hx
      case inr => exact hm.id_eq
    · rw [hl']
      rcases hx hc'' with hx | ⟨rfl, rfl⟩
      case inl => exact h.keyed.le hx
      case inr => exact h.keyed.le hc
  case stored =>
    intro fd id hi
    rw [hn'] at hi
    have ⟨e, he, hf⟩ := h.stored hi
    simp only [hh']
    split
    case isTrue hi =>
      subst hi
      cases hc.symm.trans he
      exact ⟨c', rfl, hm.fd_eq.trans hf⟩
    case isFalse => exact ⟨e, he, hf⟩
  case listed =>
    intro fd id e hi he hf
    rw [hn'] at hi
    have ⟨hg, hb⟩ := hs.reaps
    rw [hr] at hg
    rcases hx he with hx | ⟨rfl, rfl⟩
    case inl => exact hg _ (h.listed hi hx hf)
    case inr =>
      have ⟨_, hc', hf'⟩ := h.stored hi
      cases hc.symm.trans hc'
      have hd := hb (ha.finished_eq ▸ hf)
      rw [hdf, hdi, hf'] at hd
      exact hd
  case draining =>
    intro fd id e hdr hi he
    rw [hn'] at hi
    rw [hd'] at hdr
    rcases hx he with hx | ⟨rfl, rfl⟩
    case inl => exact h.draining hdr hi hx
    case inr => exact hm.draining (h.draining hdr hi hc)

end Registry

theorem handleSignals_books (n : Nat) (s : System) :
    (handleSignals n s).conns = s.conns ∧ (handleSignals n s).reaps = s.reaps ∧
      (handleSignals n s).draining = s.draining ∧ (handleSignals n s).lastConnId = s.lastConnId := by
  induction n generalizing s
  case zero => exact ⟨rfl, rfl, rfl, rfl⟩
  case succ hi =>
    have ⟨hc, hr, hd, hl⟩ := hi (if s.shutdownRequested then { s with secondSignal := true }
      else { s with shutdownRequested := true })
    rw [handleSignals, hc, hr, hd, hl]
    split <;> exact ⟨rfl, rfl, rfl, rfl⟩

theorem onTick_id (cfg : Config) (now : Time) (c : Connection) (io : Io) :
    (c.onTick cfg now io).1.id = c.id ∧ (c.onTick cfg now io).1.fd = c.fd := by
  rcases onTick_moves cfg now c io with hm | ⟨_, hm⟩ <;> exact ⟨hm.id_eq, hm.fd_eq⟩

theorem beginDraining_draining (c : Connection) : c.beginDraining.draining := by
  simp only [beginDraining]
  split <;> rfl

theorem Registry.admitted (h : s.Registry) : (s.admitted cfg a).Registry := by
  simp only [System.admitted]
  split
  case isTrue  =>
    have h : { s with acceptRetry := false }.Registry := h.same rfl rfl rfl rfl rfl
    exact h.acceptBatch
  case isFalse => exact h

theorem Registry.tick (h : s.Registry) : (s.tick cfg a).Registry := by
  have h : (s.admitted cfg a).Registry := h.admitted
  refine h.map (onTick_id cfg a.now · _) rfl rfl rfl rfl fun hd c hc => ?_
  rcases onTick_moves cfg a.now c (a.io c.id) with hm | ⟨_, hm⟩ <;> exact hm.draining (hc hd)

theorem Registry.maybeBeginDrain (h : s.Registry) : (s.maybeBeginDrain cfg now).Registry := by
  simp only [System.maybeBeginDrain]
  split
  case isTrue  => exact h
  case isFalse =>
    have hi (c : Connection) : c.beginDraining.id = c.id ∧ c.beginDraining.fd = c.fd :=
      have hm : Moves cfg c [] c.beginDraining := beginDraining_moves c
      ⟨hm.id_eq, hm.fd_eq⟩
    exact h.map hi rfl rfl rfl rfl fun _ c _ => beginDraining_draining c

theorem Registry.next (h : s.Registry) (hn : Next cfg a s s') : s'.Registry := by
  cases hn
  case signal =>
    have ⟨hc, hr, hd, hl⟩ := handleSignals_books a.signals s
    exact h.same (handleSignals_heap ..) hl hc hr hd
  case accept =>
    have h : (System.acceptBatch cfg a.now kAcceptBatch a.accepts s).Registry := h.acceptBatch
    exact h.same rfl rfl rfl rfl rfl
  case event err hup input output _ _ c _ _ hc =>
    have ⟨_, hr⟩ := onEvent_reads cfg err hup input output c (s.env a c)
    exact h.settle hc hr.moves rfl rfl rfl rfl rfl
  case deliver y _ c _ hc _ =>
    rcases onWorkerResult_moves cfg c y (a.io c.id) with he | hm
    case inl => rw [he]; exact h.settle hc .refl rfl rfl rfl rfl rfl
    case inr => exact h.settle hc hm rfl rfl rfl rfl rfl
  case rescan c _ hc _ =>
    have ⟨_, hr⟩ := onReadable_reads cfg c (s.env a c)
    exact h.settle hc hr.moves rfl rfl rfl rfl rfl
  case unpin   => exact h.collect.same rfl rfl rfl rfl rfl
  case reap    => exact h.reap.same rfl rfl rfl rfl rfl
  case drain   =>
    have h : (s.maybeBeginDrain cfg a.now).Registry := h.maybeBeginDrain
    exact h.same rfl rfl rfl rfl rfl
  case tick    =>
    have h : { s with lastTick := a.now }.Registry := h.same rfl rfl rfl rfl rfl
    have h : ({ s with lastTick := a.now }.tick cfg a).Registry := h.tick
    exact h.same rfl rfl rfl rfl rfl
  case force   => exact h.closeAll.same rfl rfl rfl rfl rfl
  case cleanup =>
    have h : { s with completions := [] }.Registry := h.same rfl rfl rfl rfl rfl
    exact h.closeAll.same rfl rfl rfl rfl rfl
  all_goals exact h.same rfl rfl rfl rfl rfl

theorem Registry.step (h : s.Registry) (hs : step cfg s x = some s') : s'.Registry := by
  cases x
  case loop   => exact h.next (loopStep_next hs)
  case worker => cases workerStep_work hs <;> exact h.same rfl rfl rfl rfl rfl

theorem Registry.init (cfg : Config) (started : Nat) (now : Time) :
    (init cfg started now).Registry :=
  .closed ⟨by simp [System.init], by simp [System.init]⟩ rfl

theorem Registry.reaches {ok : System → Action → Prop} {started : Nat}
    (h : Reaches (Http.step cfg) ok (System.init cfg started now) s) : s.Registry :=
  h.invariant (.init ..) fun _ hi _ hs => hi.step hs

-- Between two rounds of events nothing waits to be destroyed, except what the start of a shutdown
-- has put there.
structure Swept (s : System) : Prop where
  start : s.pc = .beginDrain → s.reaps = []
  timer : s.pc = .timer → ∀ e ∈ s.reaps, e ∈ s.conns ∧ s.isFinished e.2
  idle  : s.pc.swept → s.draining = false → s.reaps = []

theorem Swept.unswept (h : s.pc.swept = false) : s.Swept where
  start hp := by simp [hp, Pc.swept] at h
  timer hp := by simp [hp, Pc.swept] at h
  idle hp  := by simp [h] at hp

theorem Goto.swept (h : Goto cfg a s p) (hq : p.swept) :
    s.pc.swept ∧ p ≠ .beginDrain ∧ p ≠ .timer := by
  cases h <;> simp_all [Pc.swept]

theorem Swept.next (h : s.Swept) (hn : Next cfg a s s') : s'.Swept := by
  cases hn
  case goto p hg =>
    by_cases hp : p.swept
    case pos =>
      obtain ⟨hs, hb, ht⟩ := hg.swept hp
      exact ⟨fun he => absurd he hb, fun he => absurd he ht, fun _ hd => h.idle hs hd⟩
    case neg => exact .unswept (by simpa using hp)
  case retry => exact h
  case reap hp =>
    have hr := reap_reaps s
    rcases hp with ⟨_, rfl⟩ | ⟨_, rfl⟩
    case inl => exact ⟨fun _ => hr, by simp, fun _ _ => hr⟩
    case inr => exact ⟨by simp, by simp, fun _ _ => hr⟩
  case drain hp =>
    have hr := h.start hp
    refine ⟨by simp, fun _ e he => ?_, fun _ hd => ?_⟩
    all_goals simp only [System.goto, maybeBeginDrain] at *
    · split at he
      case isTrue      => simp [hr] at he
      case isFalse hc  =>
        rw [if_neg hc]
        rw [mapConns, hr, List.nil_append] at he
        obtain ⟨he, hf⟩ := List.mem_filter.mp he
        exact ⟨he, hf⟩
    · split at hd
      case isTrue hc => rw [if_pos hc]; exact hr
      case isFalse   => cases hd
  case event | rescan => exact .unswept (by rw [Frame.serve.pc]; rfl)
  case deliver        => exact .unswept (by rw [Frame.settle.pc]; rfl)
  case counter hp     => exact .unswept (by simp [hp, Pc.swept])
  all_goals exact .unswept rfl

theorem Swept.step (h : s.Swept) (hs : Http.step cfg s x = some s') : s'.Swept := by
  cases x
  case loop   => exact h.next (loopStep_next hs)
  case worker => cases workerStep_work hs <;> exact ⟨h.start, h.timer, h.idle⟩

theorem Swept.reaches {ok : System → Action → Prop} {started : Nat}
    (h : Reaches (Http.step cfg) ok (init cfg started now) s) : s.Swept :=
  h.invariant ⟨by simp [init], by simp [init], fun _ _ => rfl⟩ fun _ hi _ hs => hi.step hs

theorem acceptBatch_conns {n : Nat} {accepts : List Accept}
    (h : (fd, id) ∈ (acceptBatch cfg now n accepts s).conns) :
    (fd, id) ∈ s.conns ∨ s.lastConnId < id := by
  have hk : s.lastConnId ≤ (acceptBatch cfg now n accepts s).lastConnId ∧
      ∀ e ∈ (acceptBatch cfg now n accepts s).conns, e ∈ s.conns ∨ s.lastConnId < e.2 := by
    refine acceptBatch_keeps (P := fun t => s.lastConnId ≤ t.lastConnId ∧
      ∀ e ∈ t.conns, e ∈ s.conns ∨ s.lastConnId < e.2) (fun h => h) (fun h => h) ?_ ?_
    · intro t fd y _ ⟨hl, hc⟩
      rw [register_lastConnId]
      refine ⟨Nat.le_succ_of_le hl, fun e he => ?_⟩
      rcases register_cases y with ⟨hn, _⟩ | ⟨_, hn, _⟩ <;> rw [hn] at he
      case inl => exact hc e he
      case inr =>
        rcases List.mem_append.mp he with he | he
        case inl => exact hc e he
        case inr => cases List.mem_singleton.mp he; exact .inr (Nat.lt_succ_of_le hl)
    · exact ⟨Nat.le_refl _, fun e he => .inl he⟩
  exact hk.2 _ h

theorem settle_books : (s.settle cfg mod d).lastConnId = s.lastConnId ∧
    (s.settle cfg mod d).conns = s.conns ∧ (s.settle cfg mod d).draining = s.draining := by
  have ⟨_, _, _, _, hp⟩ := (settle_settled cfg mod s d).put
  rw [hp]
  exact ⟨rfl, rfl, rfl⟩

theorem reap_lastConnId (s : System) : s.reap.lastConnId = s.lastConnId := by
  simp only [reap]
  split <;> rfl

theorem maybeBeginDrain_books : (s.maybeBeginDrain cfg now).lastConnId = s.lastConnId ∧
    (s.maybeBeginDrain cfg now).conns = s.conns := by
  simp only [maybeBeginDrain]
  split <;> exact ⟨rfl, rfl⟩

-- New connections come from the listener only.
theorem step_admits_none (hs : step cfg s x = some s') (hp : s.pc.accepting = false) :
    s'.lastConnId = s.lastConnId ∧ ∀ e ∈ s'.conns, e ∈ s.conns := by
  have hk {t : System} (hl : t.lastConnId = s.lastConnId) (hc : t.conns = s.conns) :
      t.lastConnId = s.lastConnId ∧ ∀ e ∈ t.conns, e ∈ s.conns :=
    ⟨hl, fun _ he => hc ▸ he⟩
  cases x
  case worker => cases workerStep_work hs <;> exact hk rfl rfl
  case loop a =>
    cases loopStep_next hs
    case signal =>
      have ⟨hc, _, _, hl⟩ := handleSignals_books a.signals s
      exact hk hl hc
    case accept hp' => simp [hp', Pc.accepting] at hp
    case tick hp' _ => simp [hp', Pc.accepting] at hp
    case event | deliver | rescan => exact hk settle_books.1 settle_books.2.1
    case reap    => exact ⟨reap_lastConnId s, fun _ he => (mem_reap_conns.mp he).1⟩
    case drain   => exact hk maybeBeginDrain_books.1 maybeBeginDrain_books.2
    case force   => exact ⟨reap_lastConnId _, by simp [System.goto, closeAll_conns]⟩
    case cleanup => exact ⟨reap_lastConnId _, by simp [System.goto, closeAll_conns]⟩
    all_goals exact hk rfl rfl

-- The steps that can accept connections.
theorem step_accepts (hs : step cfg s (.loop a) = some s') (hp : s.pc.accepting) :
    (∃ evs, s.pc = .dispatch (.listener :: evs) ∧
      s' = (acceptBatch cfg a.now kAcceptBatch a.accepts s).goto (.dispatch evs)) ∨
    s.pc = .timer ∧ s.due cfg a ∧
      s' = ({ s with lastTick := a.now }.tick cfg a).goto .reapTick ∨
    s.pc = .timer ∧ s.due cfg a = false ∧ s' = s.goto .shutdownComplete := by
  simp only [Pc.accepting] at hp
  split at hp
  case h_1 evs he =>
    simp only [step, loopStep, he, handleEvent] at hs
    exact .inl ⟨evs, he, (Option.some.inj hs).symm⟩
  case h_2 he =>
    simp only [step, loopStep, he] at hs
    rw [← he] at hs
    split at hs
    case isTrue hd  => exact .inr (.inl ⟨he, decide_eq_true hd, (Option.some.inj hs).symm⟩)
    case isFalse hd => exact .inr (.inr ⟨he, decide_eq_false hd, (Option.some.inj hs).symm⟩)
  case h_3 => cases hp

theorem admitted_conns (h : (fd, id) ∈ (s.admitted cfg a).conns) :
    (fd, id) ∈ s.conns ∨ s.lastConnId < id := by
  simp only [admitted] at h
  split at h
  case isTrue  => exact acceptBatch_conns (s := { s with acceptRetry := false }) h
  case isFalse => exact .inl h

theorem admitted_heap (h : (s.admitted cfg a).heap id = some c) :
    s.heap id = some c ∨ s.lastConnId < id ∧ Born cfg a.now id c := by
  simp only [admitted] at h
  split at h
  case isTrue  =>
    exact (acceptBatch_heap (s := { s with acceptRetry := false }) h).imp_right fun h => ⟨h.1, h.2.2⟩
  case isFalse => exact .inl h

-- Only the connections that are served and those in `conns_` change.
theorem step_unlisted (hk : s.Keyed) (hs : step cfg s x = some s') (hp : s.pc.serving = false)
    (hc : s.heap id = some c) (hn : ∀ fd, (fd, id) ∉ s.conns) (h : s'.heap id = some c') :
    c' = c := by
  have hl := hk.le hc
  have ho {t : System} (ht : t.heap id = some c') (he : t.heap id = s.heap id) : c' = c :=
    Option.some.inj (ht.symm.trans (he.trans hc))
  cases x
  case worker => cases workerStep_work hs <;> exact ho h rfl
  case loop a =>
    cases loopStep_next hs
    case signal => exact ho h (by rw [goto_heap, handleSignals_heap])
    case accept =>
      rcases acceptBatch_heap h with h | ⟨hi, _⟩
      case inl => exact ho h rfl
      case inr => exact absurd hl (Nat.not_le_of_lt hi)
    case unpin => exact ho (collect_heap h) rfl
    case reap  => exact ho (reap_heap h) rfl
    case drain =>
      simp only [goto_heap, maybeBeginDrain] at h
      split at h
      case isTrue  => exact ho h rfl
      case isFalse => exact ho h (mapConns_unlisted (s := { s with draining := _, drainDeadline := _ }) hn)
    case tick =>
      have hu : ∀ fd, (fd, id) ∉ ({ s with lastTick := a.now }.admitted cfg a).conns := by
        intro fd hm
        rcases admitted_conns hm with hm | hm
        case inl => exact hn fd hm
        case inr => exact absurd hl (Nat.not_le_of_lt hm)
      have h : ({ s with lastTick := a.now }.ticked cfg a).heap id = some c' := h
      rw [ticked, mapConns_unlisted hu] at h
      rcases admitted_heap h with h | ⟨hi, _⟩
      case inl => exact ho h rfl
      case inr => exact absurd hl (Nat.not_le_of_lt hi)
    case force =>
      exact ho (reap_heap h) (mapConns_unlisted hn)
    case cleanup =>
      exact ho (reap_heap h) (mapConns_unlisted (s := { s with completions := _ }) hn)
    case event hp' _ _ => simp [hp', Pc.serving] at hp
    case deliver hp' _ _ => simp [hp', Pc.serving] at hp
    case rescan hp' _ _ => simp [hp', Pc.serving] at hp
    all_goals exact ho h rfl

end System
end Http
