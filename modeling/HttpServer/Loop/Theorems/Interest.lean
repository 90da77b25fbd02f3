import HttpServer.Loop.Theorems.Heap
import HttpServer.Connection.Theorems.Reading

namespace Http

-- The system call `epoll_ctl` does not fail.
def Action.modOk : Action → Bool
  | loop a     => a.mod = .ok
  | worker _ _ => true

namespace Connection

variable {cfg : Config} {c : Connection} {env : Env} {io : Io} {x : Completion}

theorem receive_appliedMask {d : Connection} {now : Time} {recvs : List Recv} {e : ReadEnd}
    (hr : receive cfg now recvs c = (d, e)) : d.appliedMask = c.appliedMask := by
  fun_induction receive
  case case5 hi | case6 hi => exact hi hr
  all_goals exact (Prod.mk.inj hr).1 ▸ rfl

theorem onReadable_appliedMask : (c.onReadable cfg env).1.appliedMask = c.appliedMask := by
  have ho := onReadable_cases cfg c env
  generalize c.onReadable cfg env = r at ho ⊢
  cases ho
  case skip => rfl
  case overflow hr =>
    have hm := receive_appliedMask hr
    exact flush_steady.1.trans hm
  case failed hr =>
    have hm := receive_appliedMask hr
    exact hm
  case serve hr hd _     => exact hd.steady.1.trans (receive_appliedMask hr)
  case close hr hd _ _ _ => exact hd.steady.1.trans (receive_appliedMask hr)

-- The buffer and the parser are as they were.
def SameInput (c c' : Connection) : Prop :=
  c'.parser = c.parser ∧ c'.input = c.input

theorem SameInput.quiet {c' : Connection} (h : SameInput c c') (hq : c.Quiet cfg) :
    c'.Quiet cfg := by
  rw [Quiet, h.1, h.2]
  exact hq

theorem flush_idle (h : (c.flush io).1.Idle) : c.Idle ∧ SameInput c (c.flush io).1 := by
  have ⟨_, _, _, he⟩ := flush_alive h.alive
  rw [he] at h ⊢
  exact ⟨⟨h.alive, h.free, h.opens⟩, rfl, rfl⟩

theorem onWorkerResult_same (h : (c.onWorkerResult x io).1.alive) :
    SameInput c (c.onWorkerResult x io).1 := by
  simp only [onWorkerResult] at h ⊢
  repeat' split at h
  case isTrue hs            => rw [if_pos hs]; exact ⟨rfl, rfl⟩
  case isFalse.isTrue hs ht => rw [if_neg hs, if_pos ht]; exact ⟨rfl, rfl⟩
  case isFalse.isFalse hs ht =>
    obtain ⟨_, _, _, he⟩ := flush_alive h
    rw [if_neg hs, if_neg ht, he]
    exact ⟨rfl, rfl⟩

theorem beginDraining_closed : ¬c.beginDraining.Open := by
  intro h
  have hd := h.stays
  simp only [beginDraining] at hd
  split at hd <;> cases hd

theorem onTick_open {now : Time} (h : (c.onTick cfg now io).1.Open) :
    (c.onTick cfg now io).1 = c := by
  rcases onTick_cases cfg now c io with hc | ⟨_, _, _, hc⟩ | hc | ⟨_, hc⟩
  case inl         => exact hc
  case inr.inl     => rw [hc] at h; cases h.opens
  case inr.inr.inl => rw [hc] at h; cases h.alive
  case inr.inr.inr =>
    rw [hc] at h
    have ⟨_, _, _, he⟩ := flush_alive h.alive
    rw [he] at h
    cases h.opens

end Connection

-- The connections that `process_rescans` has yet to look at.
def Pc.pending : Pc → List ConnId
  | rescan ids => ids
  | _          => []

-- The list of connections to rescan has been taken since the last event.
def Pc.rescanned : Pc → Bool
  | dispatch _ | drainWake _ | drainCompletions | deliver _ | processRescans => false
  | _                                                                        => true

namespace System

open Transition
open Connection hiding refuses

variable {cfg : Config} {a : Answers} {mod : Ctl} {s s' : System} {c c' d : Connection}
variable {id i : ConnId} {x : Action} {p : Pc} {now : Time}

theorem onEvent_appliedMask {err hup input output : Bool} {env : Env} :
    (onEvent cfg err hup input output c env).1.appliedMask = c.appliedMask := by
  have hh : (c.onHangup err env.io).1.appliedMask = c.appliedMask := by
    cases err
    case false => exact flush_steady.1
    case true  => rfl
  exact onEvent_keeps (P := (·.appliedMask = c.appliedMask)) rfl hh onReadable_appliedMask
    fun h => flush_steady.1.trans h

-- An event leaves the buffer alone, or the connection has looked at all of it.
theorem onEvent_quiet {err hup input output : Bool} {env : Env}
    (h : c.alive → c.closeAfter = false → c.InStep cfg)
    (hi : (onEvent cfg err hup input output c env).1.Idle) :
    (onEvent cfg err hup input output c env).1.Quiet cfg ∨
      c.SameInput (onEvent cfg err hup input output c env).1 := by
  simp only [onEvent] at hi ⊢
  split at hi
  case isTrue he =>
    cases err
    case false =>
      obtain ⟨hi, _⟩ := flush_idle hi
      cases hi.opens
    case true => cases hi.alive
  case isFalse he =>
    have hr : (if input then c.onReadable cfg env else (c, env)).1.Idle →
        (if input then c.onReadable cfg env else (c, env)).1.Quiet cfg ∨
          c.SameInput (if input then c.onReadable cfg env else (c, env)).1 := by
      cases input
      case false => exact fun _ => .inr ⟨rfl, rfl⟩
      case true  =>
        cases hw : c.wantRead cfg
        case false => exact fun _ => .inr (by simp [onReadable, hw, SameInput])
        case true  => exact fun hi => .inl (onReadable_quiet hw h hi)
    rw [if_neg he]
    generalize (if input then c.onReadable cfg env else (c, env)) = r at hr hi ⊢
    dsimp only at hi ⊢
    split at hi
    case isTrue ho =>
      rw [if_pos ho]
      obtain ⟨hi, hs⟩ := flush_idle hi
      exact (hr hi).imp hs.quiet fun hr => ⟨hs.1.trans hr.1, hs.2.trans hr.2⟩
    case isFalse ho =>
      rw [if_neg ho]
      exact hr hi

theorem finished_closed (hf : c.finished) : ¬c.Open := by
  intro h
  simp [Connection.finished, h.alive, h.opens] at hf

-- What is not served by a step of its own reads on as before.
theorem Callback.idle (h : Callback cfg s c x c') (hp : s.pc.serving = false) (ho : c'.Open) :
    c' = c := by
  cases h
  case keep  => rfl
  case drain => exact absurd ho beginDraining_closed
  case tick  => exact onTick_open ho
  case kill  => cases ho.alive
  all_goals simp_all [Pc.serving]

-- The masks of the connections that read on are right, and what their buffers hold has been looked
-- at or will be before the loop waits.
structure Watched (cfg : Config) (s : System) : Prop where
  keyed   : s.Keyed
  inStep  : ∀ {id c}, s.heap id = some c → c.alive → c.closeAfter = false → c.InStep cfg
  mask    : ∀ {id c}, s.heap id = some c → c.Open → c.appliedMask.epollin = c.wantRead cfg
  quiet   : ∀ {id c}, s.heap id = some c → c.wantRead cfg →
    c.Quiet cfg ∨ id ∈ s.rescans ∨ id ∈ s.pc.pending
  rescans : s.pc.rescanned → s.rescans = []

theorem Known.inStep (h : Watched cfg s) (hc : Known cfg now s s' id c) :
    c.alive → c.closeAfter = false → c.InStep cfg := by
  rcases hc with hc | ⟨_, _, _, rfl⟩
  case inl => exact h.inStep hc
  case inr => exact fun _ _ => .new ..

theorem Watched.inStep_step (h : Watched cfg s) (hs : Http.step cfg s x = some s')
    (hc : s'.heap id = some c') : c'.alive → c'.closeAfter = false → c'.InStep cfg := by
  have ⟨_, hn, hb⟩ := step_heap h.keyed hs hc
  have ⟨_, ha⟩ := hb.acts
  exact ha.moves.inStep (hn.inStep h)

theorem Applied.mask (h : Applied cfg .ok c c') (ho : c'.Open) :
    c'.appliedMask.epollin = c'.wantRead cfg := by
  cases h
  case finished hf => exact absurd ho (finished_closed hf)
  case failed hm   => exact absurd rfl hm
  case applied     => rfl

theorem Watched.mask_step (h : Watched cfg s) (hk : x.modOk) (hs : Http.step cfg s x = some s')
    (hc : s'.heap id = some c') (ho : c'.Open) : c'.appliedMask.epollin = c'.wantRead cfg := by
  have ⟨c, hn, hb⟩ := step_heap h.keyed hs hc
  have hm : c.Open → c.appliedMask.epollin = c.wantRead cfg := by
    rcases hn with hn | ⟨_, _, _, rfl⟩
    case inl => exact h.mask hn
    case inr => exact fun _ => rfl
  have hx {a : Answers} (ha : (Action.loop a).modOk) : a.mod = .ok := of_decide_eq_true ha
  cases hb
  case keep             => exact hm ho
  case event _ _ ha     => exact Applied.mask (hx hk ▸ ha) ho
  case result _ _ ha    => exact Applied.mask (hx hk ▸ ha) ho
  case rescan _ _ ha    => exact Applied.mask (hx hk ▸ ha) ho
  case drain            => exact absurd ho beginDraining_closed
  case tick =>
    have he := onTick_open ho
    rw [he] at ho ⊢
    exact hm ho
  case kill => cases ho.alive

-- A connection will be rescanned.
def Queued (s : System) (id : ConnId) : Prop :=
  id ∈ s.rescans ∨ id ∈ s.pc.pending

theorem quiet_new (cfg : Config) (id : ConnId) (fd : Fd) (now : Time) (m : Mask) :
    { Connection.new id fd now with appliedMask := m }.Quiet cfg := by
  simp [Quiet, Connection.new, Parser.parse, Parser.parseLoop, Parser.pass, Parser.passRequestLine,
    Parser.lineReady, Text.find]

theorem Known.quiet (h : Watched cfg s) (hc : Known cfg now s s' id c) (hw : c.wantRead cfg) :
    c.Quiet cfg ∨ s.heap id = some c ∧ s.Queued id := by
  rcases hc with hc | ⟨_, _, _, rfl⟩
  case inl => exact (h.quiet hc hw).imp_right fun hq => ⟨hc, hq⟩
  case inr => exact .inl (quiet_new ..)

-- Steps that no connection is served by.
theorem Watched.evolve (h : Watched cfg s) (hk : x.modOk) (hs : Http.step cfg s x = some s')
    (hn : ∀ {id c}, s'.heap id = some c → c.wantRead cfg → ∃ now, Known cfg now s s' id c)
    (hq : ∀ {id c}, s.heap id = some c → c.wantRead cfg → s.Queued id → s'.Queued id)
    (hr : s'.pc.rescanned → s'.rescans = []) : Watched cfg s' where
  keyed       := h.keyed.step hs
  inStep      := h.inStep_step hs
  mask        := h.mask_step hk hs
  quiet hc hw := by
    have ⟨_, hn⟩ := hn hc hw
    exact (hn.quiet h hw).imp_right fun ⟨hc, hd⟩ => hq hc hw hd
  rescans     := hr

theorem Watched.pass (h : Watched cfg s) (hk : x.modOk) (hs : Http.step cfg s x = some s')
    (hp : s.pc.serving = false) (hr : s'.rescans = s.rescans) (hq : s.pc.pending = [])
    (hd : s'.pc.rescanned → s.pc.rescanned) : Watched cfg s' := by
  refine h.evolve hk hs (fun hc hw => ?_) (fun _ _ hi => .inl ?_)
    fun hp => hr.trans (h.rescans (hd hp))
  · have ⟨_, hn, hb⟩ := step_heap h.keyed hs hc
    cases hb.idle hp (wantRead_open hw)
    exact ⟨_, hn⟩
  · rw [hr]
    exact hi.resolve_right (by simp [hq])

theorem Settled.rescans (h : Settled cfg mod s d s') : s'.rescans = s.rescans ∨
    s'.rescans = s.rescans ++ [d.id] ∧ d.appliedMask.epollin = false := by
  cases h
  case enabled hm => exact .inr ⟨rfl, hm⟩
  all_goals exact .inl rfl

-- Switching `EPOLLIN` on is noted.
theorem Settled.enables (h : Settled cfg .ok s d s') (hw : d.wantRead cfg)
    (hm : d.appliedMask.epollin = false) : d.id ∈ s'.rescans := by
  cases h
  case reap hf      => exact absurd (wantRead_open hw) (finished_closed hf)
  case same he      => simp [← he, interestMask, hw] at hm
  case enabled      => simp
  case changed hc   => simp [hc hw] at hm
  all_goals contradiction

-- A connection is served and settled.
theorem Watched.settle {s₀ : System} (h : Watched cfg s) (hk : (Action.loop a).modOk)
    (hs : Http.step cfg s (.loop a) = some (s₀.settle cfg a.mod d)) (hc : s.heap i = some c)
    (hm : ∃ as, Moves cfg c as d) (ha : d.appliedMask = c.appliedMask) (hh : s₀.heap = s.heap)
    (hr : s₀.rescans = s.rescans) (hq : d.Idle → d.Quiet cfg ∨ c.SameInput d)
    (hp : ∀ id ∈ s.pc.pending, id ∈ s₀.pc.pending ∨ id = c.id ∧ (d.Idle → d.Quiet cfg))
    (hd : s₀.pc.rescanned → s.pc.rescanned ∧ c.wantRead cfg) :
    Watched cfg (s₀.settle cfg a.mod d) := by
  have hk' : a.mod = .ok := of_decide_eq_true hk
  have ⟨_, hm⟩ := hm
  have hci := h.keyed.id_eq hc
  have hse := settle_settled cfg a.mod s₀ d
  have hf : Frame s₀ (s₀.settle cfg a.mod d) := .settle
  generalize hg : s₀.settle cfg a.mod d = s' at hs hse hf ⊢
  have hsub {id : ConnId} (hi : id ∈ s.rescans) : id ∈ s'.rescans := by
    rw [← hr] at hi
    rcases hse.rescans with he | ⟨he, _⟩ <;> rw [he]
    case inl => exact hi
    case inr => exact List.mem_append_left _ hi
  constructor
  case keyed   => exact h.keyed.step hs
  case inStep  => exact h.inStep_step hs
  case mask    => exact h.mask_step hk hs
  case rescans =>
    intro hp
    rw [hf.pc] at hp
    have ⟨hp, hw⟩ := hd hp
    rcases hse.rescans with he | ⟨_, he⟩
    case inl => rw [he, hr, h.rescans hp]
    case inr => rw [ha, h.mask hc (wantRead_open hw), hw] at he; cases he
  case quiet =>
    intro id c' hc' hw
    rw [← hg] at hc'
    rcases settle_heap h.keyed hc hm.id_eq hc' hh with ⟨hc', hn⟩ | ⟨_, he, hb⟩
    case inl =>
      refine (h.quiet hc' hw).imp_right (Or.imp hsub fun hi => ?_)
      rw [hf.pc]
      exact (hp id hi).resolve_right fun hi => hn hi.1
    case inr =>
      have ⟨hwd, hqd⟩ : d.wantRead cfg ∧ (d.Quiet cfg → c'.Quiet cfg) := by
        cases hb <;> exact ⟨hw, fun h => h⟩
      have hi := wantRead_idle hwd
      rcases hq hi with hq | hsame
      case inl => exact .inl (hqd hq)
      case inr =>
        subst he
        cases hwc : c.wantRead cfg
        case false =>
          have he := h.mask hc (hm.opens (wantRead_open hwd))
          rw [hwc, ← ha] at he
          have hn := Settled.enables (hk' ▸ hse) hwd he
          exact .inr (.inl (hm.id_eq ▸ hn))
        case true =>
          rcases h.quiet hc hwc with hq | hr | hi'
          case inl => exact .inl (hqd (hsame.quiet hq))
          case inr.inl => exact .inr (.inl (hci ▸ hsub hr))
          case inr.inr =>
            rcases hp _ hi' with hi' | ⟨_, hq⟩
            case inl => exact .inr (.inr (hf.pc ▸ hci ▸ hi'))
            case inr => exact .inl (hqd (hq hi))

theorem acceptBatch_rescans {n : Nat} {accepts : List Accept} :
    (acceptBatch cfg now n accepts s).rescans = s.rescans := by
  fun_induction acceptBatch
  case case10 hi =>
    rw [hi, register]
    split <;> rfl
  all_goals first | rfl | assumption

theorem handleSignals_rescans (n : Nat) (s : System) :
    (handleSignals n s).rescans = s.rescans := by
  induction n generalizing s
  case zero => rfl
  case succ hi =>
    refine (hi _).trans ?_
    split <;> rfl

theorem reap_rescans (s : System) : s.reap.rescans = s.rescans := by
  rw [reap]
  split <;> rfl

theorem tick_rescans : (s.tick cfg a).rescans = s.rescans := by
  simp only [tick]
  split
  case isTrue  => exact acceptBatch_rescans
  case isFalse => rfl

theorem Goto.queued (h : Goto cfg a s p) (hc : s.heap id = some c) (hw : c.wantRead cfg)
    (hq : s.Queued id) : (s.goto p).Queued id := by
  cases h
  case skipped hp hn =>
    refine hq.imp_right fun hi => ?_
    simp only [hp, Pc.pending, List.mem_cons] at hi
    rcases hi with rfl | hi
    case inl => exact absurd hw (hn c hc)
    case inr => exact hi
  all_goals exact .inl (hq.resolve_right (by simp_all [Pc.pending]))

theorem Goto.rescanned (h : Goto cfg a s p) (hr : p.rescanned) : s.pc.rescanned := by
  cases h <;> simp_all [Pc.rescanned]

theorem Watched.next (h : Watched cfg s) (hk : (Action.loop a).modOk)
    (hs : Http.step cfg s (.loop a) = some s') (hn : Next cfg a s s') : Watched cfg s' := by
  cases hn
  case goto hg =>
    exact h.evolve hk hs (fun hc _ => ⟨0, .inl hc⟩) hg.queued fun hp => h.rescans (hg.rescanned hp)
  case retry   => exact h
  case signal hp =>
    exact h.pass hk hs (by simp [hp, Pc.serving]) (handleSignals_rescans ..) (by simp [hp, Pc.pending])
      (by simp [Pc.rescanned])
  case accept hp =>
    exact h.pass hk hs (by simp [hp, Pc.serving]) acceptBatch_rescans (by simp [hp, Pc.pending])
      (by simp [Pc.rescanned])
  case event err hup input output _ _ c hp hf hc =>
    have ⟨_, hr⟩ := onEvent_reads cfg err hup input output c (s.env a c)
    exact h.settle hk hs hc ⟨_, hr.moves⟩ onEvent_appliedMask rfl rfl (onEvent_quiet (h.inStep hc))
      (by simp [hp, Pc.pending]) (by simp [Pc.rescanned])
  case deliver y _ c hp hc _ =>
    have hm : ∃ as, Moves cfg c as (c.onWorkerResult y (a.io c.id)).1 := by
      rcases onWorkerResult_moves cfg c y (a.io c.id) with he | hm
      case inl => exact ⟨[], by rw [he]; exact .refl⟩
      case inr => exact ⟨_, hm⟩
    exact h.settle hk hs hc hm onWorkerResult_steady.1 rfl rfl
      (fun hi => .inr (onWorkerResult_same hi.alive)) (by simp [hp, Pc.pending])
      (by simp [Pc.rescanned])
  case dropped hp _ =>
    exact h.evolve hk hs (fun hc _ => ⟨0, .inl hc⟩)
      (fun _ _ hq => .inl (hq.resolve_right (by simp [hp, Pc.pending]))) (by simp [Pc.rescanned])
  case rescans hp =>
    exact h.evolve hk hs (fun hc _ => ⟨0, .inl hc⟩)
      (fun _ _ hq => .inr (hq.resolve_right (by simp [hp, Pc.pending]))) fun _ => rfl
  case rescan c hp hc hw =>
    have ⟨_, hr⟩ := onReadable_reads cfg c (s.env a c)
    have hq : (c.onReadable cfg (s.env a c)).1.Idle → (c.onReadable cfg (s.env a c)).1.Quiet cfg :=
      onReadable_quiet hw (h.inStep hc)
    refine h.settle hk hs hc ⟨_, hr.moves⟩ onReadable_appliedMask rfl rfl (fun hi => .inl (hq hi)) ?_
      fun _ => ⟨by simp [hp, Pc.rescanned], hw⟩
    intro j hj
    simp only [hp, Pc.pending, List.mem_cons] at hj
    rcases hj with rfl | hj
    case inl => exact .inr ⟨(h.keyed.id_eq hc).symm, hq⟩
    case inr => exact .inl hj
  case reap hp =>
    rcases hp with ⟨hp, rfl⟩ | ⟨hp, rfl⟩ <;>
      exact h.pass hk hs (by simp [hp, Pc.serving]) (reap_rescans s) (by simp [hp, Pc.pending])
        (by simp [hp, Pc.rescanned])
  case tick hp _ =>
    exact h.pass hk hs (by simp [hp, Pc.serving]) (tick_rescans (s := { s with lastTick := a.now }))
      (by simp [hp, Pc.pending]) (by simp [hp, Pc.rescanned])
  case drain hp =>
    refine h.pass hk hs (by simp [hp, Pc.serving]) ?_ (by simp [hp, Pc.pending])
      (by simp [hp, Pc.rescanned])
    simp only [System.goto, maybeBeginDrain]
    split <;> rfl
  case force hp =>
    rcases hp with hp | hp <;>
      exact h.pass hk hs (by simp [hp, Pc.serving]) (reap_rescans { s.mapConns _ with reaps := _ })
        (by simp [hp, Pc.pending]) (by simp [hp, Pc.rescanned])
  case cleanup hp =>
    exact h.pass hk hs (by simp [hp, Pc.serving])
      (reap_rescans { System.mapConns _ _ with reaps := _ }) (by simp [hp, Pc.pending])
      (by simp [hp, Pc.rescanned])
  case fail hp | counter hp | swap hp | unpin hp | stop hp =>
    exact h.pass hk hs (by simp [hp, Pc.serving]) rfl (by simp [hp, Pc.pending])
      (by simp [hp, Pc.rescanned])

theorem Watched.reaches {started : Nat} (h : Reaches (Http.step cfg) (fun _ x => x.modOk)
    (init cfg started now) s) : Watched cfg s := by
  refine h.invariant ⟨⟨by simp [init], by simp [init]⟩, by simp [init], by simp [init], by simp [init],
    fun _ => rfl⟩ fun {_ x _} _ hi hk hs => ?_
  cases x
  case loop   => exact hi.next hk hs (loopStep_next hs)
  case worker =>
    have hw := workerStep_work hs
    exact hi.evolve hk hs (fun hc _ => ⟨0, .inl (by cases hw <;> exact hc)⟩)
      (fun _ _ hq => by cases hw <;> exact hq) fun hp => by cases hw <;> exact hi.rescans hp

-- Nothing that the loop waits for is already in a buffer of its own.
theorem no_stranded_request (cfg : Config) (started : Nat) (now : Time) {fd : Fd}
    (h : Reaches (Http.step cfg) (fun _ x => x.modOk) (init cfg started now) s) (hp : s.pc = .wait)
    (hc : (fd, id) ∈ s.conns ∧ s.heap id = some c) (ha : c.alive) (ho : c.closeAfter = false)
    (hd : c.draining = false) (he : c.peerEof = false) (hf : c.inFlight = false)
    (hl : c.output.length < cfg.maxOutputBytes) :
    c.appliedMask.epollin ∧ (c.parser.parse cfg.limits c.input).1 = .needMore := by
  have hi := Watched.reaches h
  have hw : c.wantRead cfg := by simp [wantRead, ha, ho, hd, he, hf, hl]
  refine ⟨(hi.mask hc.2 ⟨ha, ho, he, hd⟩).trans hw, ?_⟩
  rcases hi.quiet hc.2 hw with hq | hq | hq
  case inl     => exact hq
  case inr.inl => simp [hi.rescans (by simp [hp, Pc.rescanned])] at hq
  case inr.inr => simp [hp, Pc.pending] at hq

-- Two requests came in one piece, and both were answered.
def pipelinedServed : List Action :=
  asked "GET / HTTP/1.1\r\n\r\nGET / HTTP/1.1\r\n\r\n" ++ served [.accepted 1000] ++
    served [.accepted 1000]

theorem no_stranded_request_pipelined :
    ∃ s c, exec (Http.step {}) (fun _ x => x.modOk) (init {} 1 0) pipelinedServed = some s ∧
      s.heap 1 = some c ∧ c.results.length = 2 ∧
      c.appliedMask.epollin ∧ (c.parser.parse ({} : Config).limits c.input).1 = .needMore := by
  have ⟨s, hs, hr, hw, hf, c, hc, hn, ha, ho, hd, he, hi, hl⟩ := exec_any (Http.step {})
    (fun _ x => x.modOk) (init {} 1 0) pipelinedServed
    (fun s => s.pc = .wait ∧ s.conns = [(7, 1)] ∧ ∃ c ∈ s.heap 1, c.results.length = 2 ∧ c.alive ∧
      c.closeAfter = false ∧ c.draining = false ∧ c.peerEof = false ∧ c.inFlight = false ∧
      c.output.length < 16 * 1024 * 1024) (by decide +kernel)
  have hf : (7, 1) ∈ s.conns := by simp [hf]
  exact ⟨s, c, hs, hc, hn, no_stranded_request {} 1 0 hr hw ⟨hf, hc⟩ ha ho hd he hi hl⟩

end System
end Http
