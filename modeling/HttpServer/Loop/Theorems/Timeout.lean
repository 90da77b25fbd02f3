import HttpServer.Loop.Theorems.Kept
import HttpServer.Loop.Theorems.Reap

namespace Http

-- All clocks have reached a time.
def Action.Since (t : Time) : Action → Prop
  | loop a     => t ≤ a.now ∧ ∀ id, t ≤ (a.io id).now
  | worker _ _ => True

namespace Connection

-- A connection that is dead, or that is to be closed and has no request with the workers.
def Shut (c : Connection) : Prop :=
  c.alive = false ∨ c.closeAfter ∧ c.inFlight = false

-- Bytes have been exchanged since the time, which may be up to `idle` later.
def Active (t idle : Time) (c : Connection) : Prop :=
  t ≤ c.lastActivity + idle

variable {cfg : Config} {c c' : Connection} {as : List Act} {io : Io} {t idle now : Time}

theorem Idle.not_shut (h : c.Idle) : ¬c.Shut := by
  simp [Shut, h.alive, h.opens]

theorem Move.shut {a : Option Act} (hm : Move cfg c a c') (h : c.Shut) : c'.Shut := by
  cases hm
  case kill               => exact .inl rfl
  case submit hi _        => exact absurd h hi.not_shut
  case overload hi _      => exact absurd h hi.not_shut
  case answer ha hi _     => simp [Shut, ha, hi] at h
  case overflow hi _      => exact .inr ⟨rfl, hi.free⟩
  case malformed hi _     => exact .inr ⟨rfl, hi.free⟩
  case tooLarge hi _      => exact .inr ⟨rfl, hi.free⟩
  case timeout hi _       => exact .inr ⟨rfl, hi⟩
  case hangup | close     => exact h.imp_right fun h => ⟨rfl, h.2⟩
  all_goals exact h

theorem Moves.shut (hm : Moves cfg c as c') (h : c.Shut) : c'.Shut := by
  induction hm
  case refl         => exact h
  case head hm _ hi => exact hi (hm.shut h)

theorem Stamped.active (hs : Stamped io c c') (ht : t ≤ io.now) (h : c.Active t idle) :
    c'.Active t idle := by
  rcases hs.time with he | he <;> rw [Active, he]
  case inl => exact h
  case inr => exact Nat.le_add_right_of_le ht

-- A tick leaves a connection alone only if there was traffic.
theorem onTick_active (hi : cfg.idleTimeout = some idle) (hf : c.inFlight = false) :
    (c.onTick cfg now io).1.Active now idle ∨ (c.onTick cfg now io).1.Shut := by
  simp only [onTick, hi]
  repeat' split
  case isTrue hd => exact .inr (.inl (by simpa using hd))
  case isFalse.isTrue hd =>
    simp only [Bool.and_eq_true, Bool.not_eq_true'] at hd
    exact .inr (.inr ⟨rfl, hd.1.2⟩)
  case isFalse.isFalse.isTrue ht              => exact .inl (Nat.sub_le_iff_le_add'.mp ht)
  case isFalse.isFalse.isFalse.isTrue hn      => simp [hf] at hn
  case isFalse.isFalse.isFalse.isFalse.isTrue => exact .inr (.inl rfl)
  case isFalse.isFalse.isFalse.isFalse.isFalse =>
    have hm {d : Connection} : Moves cfg d [] (d.flush io).1 := flush_moves d io
    exact .inr (hm.shut (.inr ⟨rfl, hf⟩))

-- The next one ends what is shut already.
theorem onTick_finished (hi : cfg.idleTimeout = some idle) (hs : c.Shut)
    (ht : ¬c.Active t idle) (hn : t ≤ now) (hx : c.timesOut cfg now → c.closeAfter = false) :
    (c.onTick cfg now io).1.finished := by
  rw [finished_iff]
  rcases hs with ha | ⟨hc, hf⟩
  case inl => exact .inl (by simp [onTick, ha])
  case inr =>
    have hl : ¬now - c.lastActivity ≤ idle := fun hl =>
      ht (Nat.le_trans hn (Nat.sub_le_iff_le_add'.mp hl))
    cases ho : c.output.isEmpty
    case false =>
      -- The response to the timeout could not be sent.
      refine .inl ?_
      cases ha : c.alive <;> simp [onTick, ha, hf, ho, hi, hl, kill]
    case true =>
      have ho : c.output = [] := by simpa using ho
      rcases onTick_cases cfg now c io with he | ⟨_, _, _, he⟩ | he | ⟨hx', _⟩
      case inl         => rw [he]; exact .inr ⟨hc, hf, ho⟩
      case inr.inl     => rw [he]; exact .inr ⟨rfl, hf, ho⟩
      case inr.inr.inl => rw [he]; exact .inl rfl
      case inr.inr.inr => simp [hx hx'] at hc

end Connection

namespace System

open Transition
open Connection hiding refuses

variable {cfg : Config} {a a' : Answers} {s s' s₀ s₁ s₂ s₃ : System} {c c' : Connection}
variable {id : ConnId} {fd : Fd} {x : Action} {t idle now : Time}

-- What is new in `conns_` has a new identifier.
theorem step_conns (hs : step cfg s x = some s') (hm : (fd, id) ∈ s'.conns) :
    (fd, id) ∈ s.conns ∨ s.lastConnId < id := by
  cases hp : s.pc.accepting
  case false => exact .inl ((step_admits_none hs hp).2 _ hm)
  case true  =>
    cases x
    case worker => cases workerStep_work hs <;> exact .inl hm
    case loop a =>
      rcases step_accepts hs hp with ⟨_, _, rfl⟩ | ⟨_, _, rfl⟩ | ⟨_, _, rfl⟩
      case inl         => exact acceptBatch_conns hm
      case inr.inl     => exact admitted_conns (s := { s with lastTick := a.now }) hm
      case inr.inr     => exact .inl hm

-- A connection that is registered is active or shut.
def Attended (id : ConnId) (t idle : Time) (s : System) : Prop :=
  ∀ fd c, (fd, id) ∈ s.conns → s.heap id = some c → c.Active t idle ∨ c.Shut

-- It is active, except that the tick may have ended it.
def Weeded (id : ConnId) (t idle : Time) (s : System) : Prop :=
  ∀ fd c, (fd, id) ∈ s.conns → s.heap id = some c → c.Active t idle ∨ s.pc = .reapTick ∧ c.finished

-- A registered connection was registered before, or it has just been accepted.
theorem step_registered (hk : s.Keyed) (hs : step cfg s x = some s') (hx : x.Since t)
    (hm : (fd, id) ∈ s'.conns) (hc : s'.heap id = some c') :
    ∃ c, ((fd, id) ∈ s.conns ∧ s.heap id = some c ∨ c.Active t idle) ∧ Callback cfg s c x c' := by
  obtain ⟨c, hn, hb⟩ := step_heap hk hs hc
  refine ⟨c, ?_, hb⟩
  rcases hn with hn | ⟨hl, hl', fd, rfl⟩
  case inl =>
    refine .inl ⟨(step_conns hs hm).resolve_right fun hl => ?_, hn⟩
    exact absurd (hk.le hn) (Nat.not_le_of_lt hl)
  case inr =>
    refine .inr ?_
    cases x
    case loop   => exact Nat.le_add_right_of_le hx.1
    case worker => cases workerStep_work hs <;> exact absurd hl' (Nat.not_le_of_lt hl)

theorem Callback.active (h : Callback cfg s c x c') (hx : x.Since t) (hc : c.Active t idle) :
    c'.Active t idle := by
  cases x
  case loop   => exact h.stamped.active (hx.2 _) hc
  case worker => exact h.worker ▸ hc

theorem Attended.step (hk : s.Keyed) (h : s.Attended id t idle) (hx : x.Since t)
    (hs : Http.step cfg s x = some s') : s'.Attended id t idle := by
  intro fd c' hm hc
  obtain ⟨c, hr, hb⟩ := step_registered hk hs hx hm hc
  have hr : c.Active t idle ∨ c.Shut := hr.elim (fun hr => h fd c hr.1 hr.2) .inl
  have ⟨_, ha⟩ := hb.acts
  exact hr.imp (hb.active hx) ha.moves.shut

theorem Weeded.step (hr : s.Registry) (h : s.Weeded id t idle) (hx : x.Since t)
    (hs : Http.step cfg s x = some s') : s'.Weeded id t idle := by
  intro fd c' hm hc
  obtain ⟨c, hg, hb⟩ := step_registered hr.keyed hs hx hm hc
  have hg : c.Active t idle ∨ (fd, id) ∈ s.conns ∧ s.heap id = some c ∧ s.pc = .reapTick ∧
      c.finished := by
    rcases hg with ⟨hg, hk⟩ | hg
    case inl => exact (h fd c hg hk).imp_right fun hf => ⟨hg, hk, hf⟩
    case inr => exact .inl hg
  rcases hg with hg | ⟨hg, hk, hp, hf⟩
  case inl => exact .inl (hb.active hx hg)
  case inr =>
    cases x
    case worker =>
      cases hb.worker
      cases workerStep_work hs <;> exact .inr ⟨hp, hf⟩
    case loop =>
      -- The connection is on the list.
      simp only [Http.step, loopStep, hp, Option.some.injEq] at hs
      cases hs
      exact absurd (hr.listed hg hk hf) ((mem_reap_conns.mp hm).2 id)

-- The connections that a tick has called.
theorem tick_called (hk : s.Keyed) (hs : step cfg s (.loop a) = some s') (hp : s.pc = .timer)
    (hd : s.due cfg a) (hm : (fd, id) ∈ s'.conns) (hc : s'.heap id = some c') :
    s'.pc = .reapTick ∧ ∃ c, c' = (c.onTick cfg a.now (a.io c.id)).1 ∧
      ((fd, id) ∈ s.conns ∧ s.heap id = some c ∨ Born cfg a.now id c) := by
  have hs' : s' = ({ s with lastTick := a.now }.tick cfg a).goto .reapTick := by
    rcases step_accepts hs (by rw [hp]; rfl) with ⟨_, hp', _⟩ | ⟨_, _, he⟩ | ⟨_, hn, _⟩
    case inl     => cases hp.symm.trans hp'
    case inr.inl => exact he
    case inr.inr => cases hd.symm.trans hn
  subst hs'
  refine ⟨rfl, ?_⟩
  have hm : (fd, id) ∈ ({ s with lastTick := a.now }.admitted cfg a).conns := hm
  have hc : ({ s with lastTick := a.now }.ticked cfg a).heap id = some c' := hc
  rw [ticked, mapConns_listed hm] at hc
  obtain ⟨c, hn, rfl⟩ := Option.map_eq_some_iff.mp hc
  refine ⟨c, rfl, ?_⟩
  rcases admitted_heap hn with hc | ⟨_, hb⟩
  case inl =>
    refine .inl ⟨(admitted_conns hm).resolve_right fun hl => ?_, hc⟩
    exact absurd (hk.le hc) (Nat.not_le_of_lt hl)
  case inr => exact .inr hb

theorem Attended.tick (hk : s.Keyed) (hi : cfg.idleTimeout = some idle)
    (hs : Http.step cfg s (.loop a) = some s') (hp : s.pc = .timer) (hd : s.due cfg a)
    (hf : ∀ c, s.heap id = some c → c.inFlight = false) : s'.Attended id a.now idle := by
  intro fd c' hm hc
  obtain ⟨_, c, rfl, hn⟩ := tick_called hk hs hp hd hm hc
  refine onTick_active hi ?_
  rcases hn with ⟨_, hn⟩ | ⟨_, rfl⟩
  case inl => exact hf c hn
  case inr => rfl

theorem Weeded.tick (hr : s.Registry) (hw : s.Swept) (hi : cfg.idleTimeout = some idle)
    (h : s.Attended id t idle) (hx : (Action.loop a).Since t)
    (hs : Http.step cfg s (.loop a) = some s') (hp : s.pc = .timer) (hd : s.due cfg a) :
    s'.Weeded id t idle := by
  intro fd c' hm hc
  obtain ⟨hp', c, rfl, hn⟩ := tick_called hr.keyed hs hp hd hm hc
  by_cases ha : c.Active t idle
  case pos => exact .inl (Stamped.onTick.active (hx.2 _) ha)
  case neg =>
    rcases hn with ⟨hg, hn⟩ | ⟨_, rfl⟩
    case inl =>
      have hf := (h fd c hg hn).resolve_left ha
      exact .inr ⟨hp', onTick_finished hi hf ha hx.1 (timesOut_unfinished hr hw hp hg hn)⟩
    case inr => exact absurd (Nat.le_add_right_of_le hx.1) ha

-- Two ticks are enough: the first one finds that nothing has been exchanged for too long, and what
-- it leaves of the connection is gone after the second one. A request that the workers have does
-- not count.
theorem idle_released (cfg : Config) (started : Nat) (now : Time)
    (hi : cfg.idleTimeout = some idle)
    (h₀ : Reaches (Http.step cfg) (fun _ _ => True) (init cfg started now) s₀)
    (hf : ∀ c, s₀.heap id = some c → c.inFlight = false)
    (h₁ : step cfg s₀ (.loop a) = some s₁) (hp₁ : s₀.pc = .timer) (hd₁ : s₀.due cfg a)
    (h₂ : Reaches (Http.step cfg) (fun _ x => x.Since a.now) s₁ s₂)
    (h₃ : step cfg s₂ (.loop a') = some s₃) (hp₃ : s₂.pc = .timer) (hd₃ : s₂.due cfg a')
    (hx : (Action.loop a').Since a.now)
    (h : Reaches (Http.step cfg) (fun _ x => x.Since a.now) s₃ s) (hp : s.pc ≠ .reapTick)
    (hm : (fd, id) ∈ s.conns) (hc : s.heap id = some c) : a.now ≤ c.lastActivity + idle := by
  have hr₁ := h₀.tail trivial h₁
  have hr₂ := hr₁.trans (h₂.mono fun _ => trivial)
  have ha : s₂.Attended id a.now idle :=
    h₂.invariant (.tick (Registry.reaches h₀).keyed hi h₁ hp₁ hd₁ hf) fun hr hi hx hs =>
      hi.step (Registry.reaches (hr₁.trans (hr.mono fun _ => trivial))).keyed hx hs
  have hr₃ := hr₂.tail trivial h₃
  have hw : s.Weeded id a.now idle :=
    h.invariant (.tick (.reaches hr₂) (.reaches hr₂) hi ha hx h₃ hp₃ hd₃) fun hr hi hx hs =>
      hi.step (Registry.reaches (hr₃.trans (hr.mono fun _ => trivial))) hx hs
  exact (hw fd c hm hc).resolve_right fun he => hp he.1

-- Nothing happens on a connection, but not for long enough.
def earlyTick : Answers :=
  { now := 1000000000, io := fun _ => { now := 1000000000 } }

def nextTick : Answers :=
  { now := 2000000000, io := fun _ => { now := 2000000000 } }

def untilTick : List Action :=
  client ++ iterate 8 earlyTick

-- The connection is still there after the next tick.
def remains (s₂ : System) : Bool :=
  ∃ s₃ ∈ step {} s₂ (.loop nextTick), ∃ s ∈ step {} s₃ (.loop nextTick),
    s.pc ≠ .reapTick ∧ s.conns = [(7, 1)] ∧ ∃ c ∈ s.heap 1, c.lastActivity = 0

theorem idle_released_early : ∃ (s : System) (c : Connection), s.conns = [(7, 1)] ∧
    s.heap 1 = some c ∧ c.lastActivity = 0 ∧ 1000000000 ≤ c.lastActivity + 15000000000 := by
  have ⟨s₀, _, h₀, hp₁, hd₁, ⟨c₀, hc₀, hf⟩, s₁, h₁, s₂, h₂, hp₃, hd₃, hr⟩ := exec_any (Http.step {})
    (fun _ _ => True) (init {} 1 0) untilTick
    (fun s₀ => s₀.pc = .timer ∧ s₀.due {} earlyTick ∧ (∃ c ∈ s₀.heap 1, c.inFlight = false) ∧
      ∃ s₁ ∈ step {} s₀ (.loop earlyTick),
      ∃ s₂ ∈ exec (Http.step {}) (fun _ _ => True) s₁ (iterate 10 nextTick),
        s₂.pc = .timer ∧ s₂.due {} nextTick ∧ s₂.remains) (by decide +kernel)
  have ⟨s₃, h₃, s, h, hp, hm, c, hc, hl⟩ := of_decide_eq_true hr
  have hx : (Action.loop nextTick).Since earlyTick.now := by simp [earlyTick, nextTick, Action.Since]
  refine ⟨s, c, hm, hc, hl, ?_⟩
  have he : ((7 : Fd), 1) ∈ s.conns := by simp [hm]
  refine idle_released {} 1 0 rfl h₀ (fun c hc => ?_) h₁ hp₁ hd₁
    (.of_run h₂ fun _ he => (List.mem_replicate.mp he).2 ▸ hx) h₃ hp₃ hd₃ hx (.tail .refl hx h) hp he hc
  cases hc₀.symm.trans hc
  exact hf

end System
end Http
