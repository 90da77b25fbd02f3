import HttpServer.Loop.Theorems.InFlight
import HttpServer.Connection.Theorems.Continue

open Http.Parser

namespace Http

-- The interim responses of a connection: the parser asks for them when they are due, and each goes
-- out between the responses to the earlier requests and the one to its own.
structure Connection.Interims (c : Connection) : Prop where
  dialogue : ∃ es k d b, c.stream = (es.map Emitted.bytes).flatten ++ d ++ b ∧
    c.reports = spelled es k ∧ Continued es k d
  interim  : ∀ l₁ l₂, c.log = l₁ ++ .interim :: l₂ →
    l₁.filterMap Entry.request = l₁.filterMap Entry.responded
  final    : ∀ l₁ l₂ e req, c.log = l₁ ++ e :: l₂ → e.responded = some req →
    l₁.filterMap Entry.request = l₁.filterMap Entry.responded ++ [req]
  wire     : c.alive → c.log.flatMap Entry.queued = c.log.flatMap Entry.handed ++ c.output

namespace System

open Transition Connection

variable {cfg : Config} {s s' : System} {x : Action}

theorem converses_step (hk : s.Keyed)
    (h : ∀ id c, s.heap id = some c → ∃ es k d, Converses cfg c es k d)
    (hs : step cfg s x = some s') : ∀ id c, s'.heap id = some c → ∃ es k d, Converses cfg c es k d := by
  intro id c' hc
  have ⟨c, hn, hb⟩ := step_heap hk hs hc
  have ⟨_, ha⟩ := hb.acts
  refine ha.moves.converses ?_
  rcases hn with hn | ⟨_, _, _, rfl⟩
  case inl => exact h id c hn
  case inr => exact ⟨_, _, _, .new ..⟩

theorem interims_due (cfg : Config) (started : Nat) (now : Time) :
    (∀ {lim i es k c p b}, Dialogue lim i es k c p b → Continued es k c) ∧
    (∀ {s id c}, Reaches (Http.step cfg) (fun _ _ => True) (init cfg started now) s →
      s.heap id = some c → c.Interims) := by
  refine ⟨Dialogue.continued, fun {s id c} h hc => ?_⟩
  have hv : ∀ id c, s.heap id = some c → ∃ es k d, Converses cfg c es k d :=
    h.invariant (by simp [init]) fun hr hi _ hs => converses_step (Tracked.reaches hr).keyed hi hs
  obtain ⟨ph, hf, _⟩ := (Tracked.reaches h).follows hc
  obtain ⟨es, k, d, p, b, hd, hr, _⟩ := hv id c hc
  refine ⟨⟨es, k, d, b, ?_, hr, hd.continued⟩, fun l₁ l₂ he => ?_, fun l₁ l₂ e req he => ?_, hf.wire⟩
  · rw [hd.session.invariant.1, List.map_map]
    rfl
  · exact History.interims (he ▸ hf.history)
  · exact History.finals (he ▸ hf.history)

def asks : Bytes :=
  ascii "POST / HTTP/1.1\r\nEXPECT: 100-Continue\r\nContent-Length: 3\r\n\r\n"

-- The client is told to go on with its second request when the first one is answered.
def servedThenAsks : List Action :=
  asked "GET / HTTP/1.1\r\n\r\n" ++ served [.accepted 1000] ++ arrival [.received asks]

theorem interims_due_second :
    (∃ c p b, Dialogue {} asks [] 1 c p b ∧ Continued [] 1 c) ∧
    ∃ s c, exec (Http.step {}) (fun _ _ => True) (init {} 1 0) servedThenAsks = some s ∧
      s.heap 1 = some c ∧ c.reports.getLast? = some .expect100 ∧ c.Interims := by
  have ⟨h₁, h₂⟩ := interims_due {} 1 0
  refine ⟨?_, ?_⟩
  · have hp : (parse {} {} asks).1 = .expect100 := by decide +kernel
    have hd : Dialogue {} asks [] 1 _ _ _ := .expects (.receive asks .fresh) (Prod.ext hp rfl)
    exact ⟨_, _, _, hd, h₁ hd⟩
  · have ⟨s, hs, hr, c, hc, hl⟩ := exec_any (Http.step {}) (fun _ _ => True) (init {} 1 0)
      servedThenAsks (fun s => ∃ c ∈ s.heap 1, c.reports.getLast? = some .expect100)
      (by decide +kernel)
    exact ⟨s, c, hs, hc, hl, h₂ hr hc⟩

end System
end Http
