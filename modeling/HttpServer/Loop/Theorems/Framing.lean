import HttpServer.Loop.Theorems.InFlight
import HttpServer.Connection.Theorems.Framing

namespace Http.System

open Transition
open Connection hiding refuses

-- No connection whose last request was HEAD is answered with a 400, 408 or 413 by the step.
def sparesHead (cfg : Config) (s : System) (x : Action) : Bool :=
  s.allConns fun c => !(c.lastHead && s.refuses cfg c x)

-- Every final response in an output buffer is framed.
def WellFramed (s : System) : Prop :=
  ∀ id c, s.heap id = some c → ∀ e ∈ c.log, e.Framed

variable {cfg : Config} {s s' : System} {c : Connection} {id : ConnId} {x : Action}

theorem errorsFramed_step (hk : s.Keyed)
    (h : ∀ id c, s.heap id = some c → c.ErrorsFramed) (hx : s.sparesHead cfg x)
    (hs : step cfg s x = some s') : ∀ id c, s'.heap id = some c → c.ErrorsFramed := by
  intro id c' hc
  have ⟨c, hn, hb⟩ := step_heap hk hs hc
  have ⟨_, ha⟩ := hb.acts
  rcases hn with hn | ⟨_, _, _, rfl⟩
  case inl =>
    refine ha.moves.errorsFramed (h id c hn) ha.single fun hr => ?_
    simpa [ha.refuse hr] using hk.all hx hn
  case inr => exact ha.moves.errorsFramed (by simp [ErrorsFramed, Connection.new]) ha.single fun _ => rfl

theorem responses_framed (cfg : Config) (started : Nat) (now : Time)
    (h : Reaches (Http.step cfg) (fun s x => s.sparesHead cfg x) (init cfg started now) s) :
    s.WellFramed := by
  have he : ∀ id c, s.heap id = some c → c.ErrorsFramed :=
    h.invariant (by simp [init]) fun hr hi hx hs => errorsFramed_step (Tracked.reaches hr).keyed hi hx hs
  intro id c hc e hm
  obtain ⟨_, hf, _⟩ := (Tracked.reaches h).follows hc
  cases e
  case final origin date res =>
    cases ho : origin.isAnswer
    case false => exact he id c hc origin date res hm ho
    case true  =>
      cases origin <;> cases ho
      exact hf.history.framed hm
  all_goals trivial

-- A HEAD request is answered without a body, and the malformed request after a GET with one.
def malformedLast : List Action :=
  asked "HEAD / HTTP/1.1\r\n\r\nGET / HTTP/1.1\r\n\r\n" ++ served [.accepted 1000] ++
    served [.accepted 1000] ++ arrival [.received (ascii "GET\r\n")]

def answersMalformed : Entry → Bool
  | .final .malformed _ _ => true
  | _                     => false

theorem responses_framed_malformed :
    ∃ s c, exec (Http.step {}) (fun s x => s.sparesHead {} x) (init {} 1 0) malformedLast = some s ∧
      s.heap 1 = some c ∧ c.log.any answersMalformed ∧ ∀ e ∈ c.log, e.Framed := by
  have ⟨s, hs, hr, c, hc, hm⟩ := exec_any (Http.step {}) (fun s x => s.sparesHead {} x) (init {} 1 0)
    malformedLast (fun s => ∃ c ∈ s.heap 1, c.log.any answersMalformed) (by decide +kernel)
  exact ⟨s, c, hs, hc, hm, responses_framed {} 1 0 hr 1 c hc⟩

-- The malformed request comes after a HEAD.
def malformedHead : List Action :=
  asked "HEAD / HTTP/1.1\r\n\r\n" ++ served [.accepted 1000] ++ arrival [.received (ascii "GET\r\n")]

-- The error announces a length that its body does not have.
def misframed : Entry → Bool
  | .final .malformed date res => res.status ≠ 204 ∧
    Client.valuesOf (ascii "Content-Length") ((wireFields date res).map trimmed) ≠
      [decimal (sentBody res).length]
  | _ => false

theorem responses_unframed_head :
    ¬∀ s, Reaches (Http.step {}) (fun _ _ => True) (init {} 1 0) s → s.WellFramed := by
  have ⟨s, _, hr, c, hc, e, he, hp⟩ := exec_any (Http.step {}) (fun _ _ => True) (init {} 1 0)
    malformedHead (fun s => ∃ c ∈ s.heap 1, ∃ e ∈ c.log, misframed e) (by decide +kernel)
  intro hn
  have hf := hn s hr 1 c hc e he
  cases e
  case final o date res =>
    cases o
    case malformed =>
      have ⟨hs, hl⟩ := of_decide_eq_true hp
      rcases hf with hf | hf | hf
      case inl     => exact hs hf
      case inr.inl => cases hf
      case inr.inr => exact hl hf.length
    all_goals cases hp
  all_goals cases hp

end Http.System
