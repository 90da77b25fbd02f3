import HttpServer.Loop.Theorems.Reap
import HttpServer.Connection.Theorems.Closing

namespace Http

-- Closing is announced in the response that comes before it, and it is final: nothing else is
-- queued, parsed or submitted, whatever there is to read.
structure Connection.ClosesLast (cfg : Config) (c : Connection) : Prop where
  announced : ∀ o d r, .final o d r ∈ c.log → (r.announcesClose d ↔ r.closes ∨ o.isAnswer = false)
  last      : ∀ l₁ o d r l₂, c.log = l₁ ++ .final o d r :: l₂ → r.announcesClose d →
    c.closeAfter ∧ ∀ e ∈ l₂, e.isSent
  unread    : ∀ o d r, .final o d r ∈ c.log → r.announcesClose d → ∀ fuel env,
    c.onReadable cfg env = (c, env) ∧ c.drainRequests cfg fuel env = (c, env)

namespace System

open Transition
open Connection hiding refuses

variable {cfg : Config} {s s' : System} {c c' : Connection} {id : ConnId} {x : Action} {now : Time}

theorem onEvent_sealed {err hup input output : Bool} {env : Env} (h : c.Sealed) :
    (onEvent cfg err hup input output c env).1.Sealed := by
  have hm : Moves cfg c [] (c.onHangup err env.io).1 := onHangup_moves ..
  exact onEvent_keeps h (hm.sealed h (by simp)) (onReadable_sealed h) flush_sealed

-- A connection that times out was not about to be closed.
theorem timesOut_opens {fd : Fd} (hr : s.Registry) (hw : s.Swept) (hd : s.draining = false)
    (hp : s.pc = .timer) (hm : (fd, id) ∈ s.conns) (hc : s.heap id = some c)
    (ht : c.timesOut cfg now) : c.closeAfter = false := by
  have hl := mt (hr.listed hm hc) (by simp [hw.idle (by simp [hp, Pc.swept]) hd])
  simp only [timesOut, Bool.and_eq_true, Bool.not_eq_true', List.isEmpty_iff] at ht
  refine Bool.eq_false_iff.mpr fun ho => hl ?_
  exact finished_iff.mpr (.inr ⟨ho, ht.1.1.1.2, ht.1.1.2⟩)

theorem sealed_step (hr : s.Registry) (hw : s.Swept) (hd : s.draining = false)
    (h : ∀ id c, s.heap id = some c → c.Sealed) (hs : step cfg s x = some s') :
    ∀ id c, s'.heap id = some c → c.Sealed := by
  intro id c' hc'
  obtain ⟨c, hn, hb⟩ := step_heap hr.keyed hs hc'
  have hc : c.Sealed := by
    rcases hn with hn | ⟨_, _, _, rfl⟩
    case inl => exact h id c hn
    case inr => simp [Sealed, Connection.new]
  cases hb
  case keep              => exact hc
  case event ha          => exact ha.moves.sealed (onEvent_sealed hc) (by simp)
  case rescan ha         => exact ha.moves.sealed (onReadable_sealed hc) (by simp)
  case drain =>
    have hm : Moves cfg c [] c.beginDraining := beginDraining_moves c
    exact hm.sealed hc (by simp)
  case kill =>
    have hm : Move cfg c none c.kill := .kill
    exact hm.sealed hc (by simp)
  case result y _ a _ _ ha =>
    refine ha.moves.sealed ?_ (by simp)
    rcases onWorkerResult_moves cfg c y (a.io c.id) with he | hm
    case inl => rw [he]; exact hc
    case inr => exact hm.sealed hc (by simp)
  case tick a hp _ =>
    rcases onTick_cases cfg a.now c (a.io c.id) with he | ⟨hf, ho, hg, he⟩ | he | ⟨ht, he⟩
    case inl         => rw [he]; exact hc
    case inr.inl     => rw [he]; exact hc.keep rfl (fun _ => rfl) fun ha => ⟨ha, rfl⟩
    case inr.inr.inl => rw [he]; exact hc.keep rfl (fun _ => rfl) fun ha => by cases ha
    case inr.inr.inr =>
      have ho : (c.onTick cfg a.now (a.io c.id)).1 = c ∨ c.closeAfter = false := by
        rcases hn with hn | ⟨_, _, _, rfl⟩
        case inr => exact .inr rfl
        case inl =>
          by_cases hl : ∃ fd, (fd, id) ∈ s.conns
          case pos =>
            obtain ⟨_, hm⟩ := hl
            exact .inr (timesOut_opens hr hw hd hp hm hn ht)
          case neg =>
            exact .inl (step_unlisted hr.keyed hs (by simp [hp, Pc.serving]) hn (not_exists.mp hl) hc')
      rcases ho with ho | ho
      case inl => rw [ho]; exact hc
      case inr =>
        have hx := ht
        simp only [timesOut, Bool.and_eq_true, Bool.not_eq_true', List.isEmpty_iff] at hx
        rw [he]
        exact flush_sealed (.error (hc.unsealed (.inl ho)) hx.1.1.1.2)

theorem errorsClose_step (hk : s.Keyed) (h : ∀ id c, s.heap id = some c → c.ErrorsClose)
    (hs : step cfg s x = some s') : ∀ id c, s'.heap id = some c → c.ErrorsClose := by
  intro id c' hc'
  have ⟨c, hn, hb⟩ := step_heap hk hs hc'
  have ⟨_, ha⟩ := hb.acts
  refine ha.moves.errorsClose ?_
  rcases hn with hn | ⟨_, _, _, rfl⟩
  case inl => exact h id c hn
  case inr => simp [ErrorsClose, Connection.new]

-- The responses of the workers and of the loop say what the connection does after them.
theorem announced {ph : Phase} {o : Origin} {d : Bytes} {r : Response} (hf : Follows cfg c ph)
    (he : c.ErrorsClose) (hm : .final o d r ∈ c.log) :
    (r.announcesClose d ↔ r.keepAlive = false) ∧
      (r.keepAlive = false ↔ r.closes ∨ o.isAnswer = false) := by
  cases ho : o.isAnswer
  case false =>
    have ⟨⟨_, hr⟩, hk⟩ := he o d r hm ho
    exact ⟨announcesClose_iff hr, by simp [hk]⟩
  case true =>
    cases o <;> cases ho
    have hr := hf.history.result_own (List.mem_filterMap.mpr ⟨_, hm, rfl⟩)
    have ⟨_, _, throws, hr⟩ := hr
    rw [hr]
    exact ⟨announcesClose_iff (runJob_framable ..), by simp [runJob_closes]⟩

theorem closes_last (cfg : Config) (started : Nat) (now : Time)
    (h : Reaches (Http.step cfg) (fun s _ => s.draining = false) (init cfg started now) s)
    (hc : s.heap id = some c) : c.ClosesLast cfg := by
  have hs : ∀ id c, s.heap id = some c → c.Sealed := h.invariant (by simp [init])
    fun hr hi hd hs => sealed_step (.reaches hr) (.reaches hr) hd hi hs
  have he : ∀ id c, s.heap id = some c → c.ErrorsClose := h.invariant (by simp [init])
    fun hr hi _ hs => errorsClose_step (Registry.reaches hr).keyed hi hs
  obtain ⟨ph, hf, _⟩ := (Tracked.reaches h).follows hc
  have ha {o d r} (hm : .final o d r ∈ c.log) := announced hf (he id c hc) hm
  have hl {l₁ l₂ : List Entry} {o d r} (hl : c.log = l₁ ++ .final o d r :: l₂) (hr : r.announcesClose d) :
      c.closeAfter ∧ ∀ e ∈ l₂, e.isSent := by
    have hm : .final o d r ∈ c.log := by simp [hl]
    obtain ⟨ho, _, he⟩ := hs id c hc l₁ o d r l₂ hl ((ha hm).1.mp hr)
    exact ⟨ho, he⟩
  refine ⟨fun o d r hm => (ha hm).1.trans (ha hm).2, fun _ _ _ _ _ hl' hr => hl hl' hr,
    fun o d r hm hr fuel env => ?_⟩
  obtain ⟨l₁, l₂, hl'⟩ := List.append_of_mem hm
  obtain ⟨ho, _⟩ := hl hl' hr
  exact ⟨onReadable_closed ho, drainRequests_closed ho⟩

-- A malformed request line is followed by a well-formed request, and the socket takes nothing.
def malformedFirst : List Action :=
  asked "GET\r\nGET / HTTP/1.1\r\n\r\n"

theorem closes_last_malformed :
    ∃ s c, exec (Http.step {}) (fun s _ => s.draining = false) (init {} 1 0) malformedFirst = some s ∧
      s.heap 1 = some c ∧ c.output ≠ [] ∧ c.input ≠ [] ∧ c.ClosesLast {} := by
  have ⟨s, hs, hr, c, hc, ho, hi⟩ := exec_any (Http.step {}) (fun s _ => s.draining = false)
    (init {} 1 0) malformedFirst (fun s => ∃ c ∈ s.heap 1, c.output ≠ [] ∧ c.input ≠ [])
    (by decide +kernel)
  exact ⟨s, c, hs, hc, ho, hi, closes_last {} 1 0 hr hc⟩

end System
end Http
