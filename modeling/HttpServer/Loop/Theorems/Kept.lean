import HttpServer.Loop.Theorems.Closing
import HttpServer.Connection.Theorems.Stamps

namespace Http

namespace Connection

-- All moves keep a property, those that refuse the peer from a connection that is not to be closed.
def Kept (cfg : Config) (P : Connection → Prop) : Prop :=
  ∀ {c a c'}, Move cfg c a c' → (a = some .refuse → c.closeAfter = false) → P c → P c'

variable {cfg : Config} {P : Connection → Prop} {c c' : Connection} {as : List Act} {env : Env} {io : Io}

namespace Kept

theorem moves (k : Kept cfg P) (hm : Moves cfg c as c') (hr : .refuse ∉ as) (h : P c) : P c' := by
  induction hm
  case refl => exact h
  case head hm _ hi =>
    simp only [List.mem_append, not_or, Option.mem_toList] at hr
    exact hi hr.2 (k hm (fun ha => absurd ha hr.1) h)

theorem flush (k : Kept cfg P) (h : P c) : P (c.flush io).1 :=
  k.moves (flush_moves c io) (by simp) h

theorem drains (k : Kept cfg P) {fuel : Nat} {r : Connection × Env} (hd : Drains cfg fuel c env r)
    (h : P c) : P r.1 := by
  induction hd
  case spent | stop      => exact h
  case more hc hp        => exact k (.more hc hp) (by simp) h
  case expect hc hp _ hi => exact hi (k.flush (k (.expect hc hp) (by simp) h))
  case malformed hc hp   => exact k.flush (k (.malformed hc hp) (fun _ => hc.opens) h)
  case tooLarge hc hp    => exact k.flush (k (.tooLarge hc hp) (fun _ => hc.opens) h)
  case submit hc hp _    => exact k (.submit hc hp) (by simp) h
  case overload hc hp _  => exact k (.overload hc hp) (by simp) h

theorem onReadable (k : Kept cfg P) (h : P c) : P (c.onReadable cfg env).1 := by
  have ho := onReadable_cases cfg c env
  generalize c.onReadable cfg env = r at ho ⊢
  cases ho
  case skip => exact h
  case overflow hw hr =>
    have hc := receive_idle (wantRead_idle hw) hr
    have hd := k.moves (receive_moves hr) (by simp) h
    exact k.flush (k (.overflow hc (receive_overflow hr)) (fun _ => hc.opens) hd)
  case failed hr => exact k .kill (by simp) (k.moves (receive_moves hr) (by simp) h)
  case serve hr hd _ => exact k.drains hd (k.moves (receive_moves hr) (by simp) h)
  case close hr hd he hi ho =>
    exact k (.close hi ho (.inl he)) (by simp) (k.drains hd (k.moves (receive_moves hr) (by simp) h))

theorem onTick (k : Kept cfg P) {now : Time} (h : P c)
    (ht : c.timesOut cfg now → c.closeAfter = false) : P (c.onTick cfg now io).1 := by
  rcases onTick_cases cfg now c io with he | ⟨hf, ho, hd, he⟩ | he | ⟨hx, he⟩ <;> rw [he]
  case inl         => exact h
  case inr.inl     => exact k (.close hf ho (.inr hd)) (by simp) h
  case inr.inr.inl => exact k .kill (by simp) h
  case inr.inr.inr =>
    have hc := ht hx
    simp only [timesOut, Bool.and_eq_true, Bool.not_eq_true', List.isEmpty_iff] at hx
    exact k.flush (k (.timeout hx.1.1.1.1 hx.1.1.1.2 hx.1.1.2) (fun _ => hc) h)

end Kept
end Connection

namespace System

open Transition
open Connection hiding refuses

variable {cfg : Config} {P : Connection → Prop} {s s' : System} {c c' : Connection} {id : ConnId}
variable {x : Action} {now : Time}

theorem onEvent_stamped {err hup input output : Bool} {env : Env} :
    Stamped env.io c (onEvent cfg err hup input output c env).1 := by
  simp only [onEvent]
  split
  case isTrue  => exact .onHangup
  case isFalse =>
    have hr : Stamped env.io c (if input then c.onReadable cfg env else (c, env)).1 ∧
        (if input then c.onReadable cfg env else (c, env)).2.io.now = env.io.now ∧
        (if input then c.onReadable cfg env else (c, env)).2.io.date = env.io.date := by
      split
      case isTrue  => exact ⟨.onReadable, onReadable_clock⟩
      case isFalse => exact ⟨.refl, rfl, rfl⟩
    generalize (if input then c.onReadable cfg env else (c, env)) = r at hr
    obtain ⟨hr, hn, hd⟩ := hr
    dsimp only
    split
    case isTrue  => exact hr.trans (Stamped.refl.flush.clock hn hd)
    case isFalse => exact hr

-- The clocks of the step are the only ones that a connection sees.
theorem Callback.stamped {a : Answers} (h : Callback cfg s c (.loop a) c') :
    Stamped (a.io c.id) c c' := by
  have hp {mod : Ctl} {d : Connection} (hb : Applied cfg mod d c')
      (hd : Stamped (a.io c.id) c d) : Stamped (a.io c.id) c c' := by
    cases hb
    case applied => exact hd.trans (.same rfl rfl)
    all_goals exact hd
  cases h
  case keep => exact .refl
  case event hb =>
    refine hp hb ?_
    change Stamped (s.env a c).io ..
    exact onEvent_stamped
  case result hb => exact hp hb .onWorkerResult
  case rescan hb =>
    refine hp hb ?_
    change Stamped (s.env a c).io ..
    exact .onReadable
  case tick  => exact .onTick
  case drain => exact .beginDraining
  case kill  => exact .same rfl rfl

theorem Callback.worker {i : Nat} {throws : Bool} (h : Callback cfg s c (.worker i throws) c') :
    c' = c := by
  cases h
  rfl

-- A shutdown does not make a difference: the connections that know of it do not time out.
theorem timesOut_unfinished {fd : Fd} (hr : s.Registry) (hw : s.Swept) (hp : s.pc = .timer)
    (hm : (fd, id) ∈ s.conns) (hc : s.heap id = some c) (ht : c.timesOut cfg now) :
    c.closeAfter = false := by
  cases hd : s.draining
  case false => exact timesOut_opens hr hw hd hp hm hc ht
  case true  => simp [timesOut, hr.draining hd hm hc] at ht

theorem kept_step (k : Kept cfg P)
    (hn : ∀ id fd now m, P { Connection.new id fd now with appliedMask := m }) (hr : s.Registry)
    (hw : s.Swept) (h : ∀ id c, s.heap id = some c → P c) (hs : step cfg s x = some s') :
    ∀ id c, s'.heap id = some c → P c := by
  intro id c' hc'
  obtain ⟨c, hk, hb⟩ := step_heap hr.keyed hs hc'
  have hc : P c := by
    rcases hk with hk | ⟨_, _, _, rfl⟩
    case inl => exact h id c hk
    case inr => exact hn ..
  cases hb
  case keep => exact hc
  case event err hup input output _ a _ _ ha =>
    refine k.moves ha.moves (by simp) ?_
    exact onEvent_keeps hc (k.moves (onHangup_moves ..) (by simp) hc) (k.onReadable hc) k.flush
  case rescan ha => exact k.moves ha.moves (by simp) (k.onReadable hc)
  case drain     => exact k.moves (beginDraining_moves c) (by simp) hc
  case kill      => exact k .kill (by simp) hc
  case result y _ a _ _ ha =>
    refine k.moves ha.moves (by simp) ?_
    rcases onWorkerResult_moves cfg c y (a.io c.id) with he | hm
    case inl => rw [he]; exact hc
    case inr => exact k.moves hm (by simp) hc
  case tick a hp _ =>
    -- A connection outside of `conns_` is not called.
    by_cases hl : s.heap id = some c → ∃ fd, (fd, id) ∈ s.conns
    case pos =>
      refine k.onTick hc fun ht => ?_
      rcases hk with hk | ⟨_, _, _, rfl⟩
      case inl =>
        obtain ⟨_, hm⟩ := hl hk
        exact timesOut_unfinished hr hw hp hm hk ht
      case inr => rfl
    case neg =>
      obtain ⟨hk, hl⟩ := Classical.not_imp.mp hl
      rw [step_unlisted hr.keyed hs (by simp [hp, Pc.serving]) hk (not_exists.mp hl) hc']
      exact hc

-- The rule for what holds of every connection in every run.
theorem kept_reaches {ok : System → Action → Prop} {started : Nat} (k : Kept cfg P)
    (hn : ∀ id fd now m, P { Connection.new id fd now with appliedMask := m })
    (h : Reaches (Http.step cfg) ok (init cfg started now) s) : ∀ id c, s.heap id = some c → P c :=
  h.invariant (by simp [init]) fun hr hi _ hs => kept_step k hn (.reaches hr) (.reaches hr) hi hs

end System
end Http
