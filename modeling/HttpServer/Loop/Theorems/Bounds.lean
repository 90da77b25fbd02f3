import HttpServer.Loop.Theorems.InFlight
import HttpServer.Connection.Theorems.Bounds

namespace Http

-- The buffers of a connection have limits, whatever its peer does.
structure Connection.Buffers (cfg : Config) (c : Connection) (n : Nat) : Prop where
  input  : c.input.length + c.parser.consumed ≤ cfg.maxRequestBytes + 16384
  body   : c.parser.body.length ≤ cfg.maxBodyBytes
  output : c.output.length < cfg.maxOutputBytes + 25 + n

namespace System

open Transition
open Connection hiding refuses

variable {cfg : Config} {a : Answers} {s s' : System} {c c' : Connection} {id : ConnId}
variable {x : Action} {now : Time} {n : Nat}

theorem onEvent_bounded {err hup input output : Bool} {env : Env} (h : c.Bounded cfg) :
    (onEvent cfg err hup input output c env).1.Bounded cfg :=
  onEvent_keeps h (onHangup_bounded h) (onReadable_bounded h) Bounded.flush

theorem Applied.bounded {mod : Ctl} (h : Applied cfg mod c c') (hc : c.Bounded cfg) :
    c'.Bounded cfg := by
  cases h
  case applied => exact hc.keep rfl rfl rfl rfl (fun h => h) fun h => h
  all_goals exact hc

theorem Callback.bounded (h : Callback cfg s c x c') (hc : c.Bounded cfg) : c'.Bounded cfg := by
  cases h
  case keep       => exact hc
  case event hb   => exact hb.bounded (onEvent_bounded hc)
  case result hb  => exact hb.bounded (onWorkerResult_bounded hc)
  case rescan hb  => exact hb.bounded (onReadable_bounded hc)
  case drain      => exact beginDraining_bounded hc
  case tick       => exact onTick_bounded hc
  case kill       => exact hc.kill

theorem bounded_step (hk : s.Keyed) (h : ∀ id c, s.heap id = some c → c.Bounded cfg)
    (hs : step cfg s x = some s') : ∀ id c, s'.heap id = some c → c.Bounded cfg := by
  intro id c' hc
  have ⟨c, hn, hb⟩ := step_heap hk hs hc
  refine hb.bounded ?_
  rcases hn with hn | ⟨_, _, _, rfl⟩
  case inl => exact h id c hn
  case inr => exact .new ..

theorem buffers_bounded (cfg : Config) (started : Nat) (now : Time)
    (h : Reaches (Http.step cfg) (fun _ _ => True) (init cfg started now) s)
    (hc : s.heap id = some c)
    (hn : ∀ origin date res, .final origin date res ∈ c.log →
      (serializeResponse date res).length ≤ n) : c.Buffers cfg n := by
  have hb : ∀ id c, s.heap id = some c → c.Bounded cfg :=
    h.invariant (by simp [init]) fun hr hi _ hs => bounded_step (Tracked.reaches hr).keyed hi hs
  have hb := hb id c hc
  refine ⟨?_, hb.body.body, hb.output n hn⟩
  rw [Nat.add_comm]
  exact hb.input

-- The peer takes neither the interim response nor the response.
def expectUntaken : List Action :=
  asked "POST / HTTP/1.1\r\nExpect: 100-continue\r\nContent-Length: 3\r\n\r\n" ++
    arrival [.received (ascii "abc")] ++ served []

theorem buffers_bounded_expect :
    ∃ s c, exec (Http.step {}) (fun _ _ => True) (init {} 1 0) expectUntaken = some s ∧
      s.heap 1 = some c ∧ c.results.length = 1 ∧ 25 < c.output.length ∧ c.Buffers {} 1000 := by
  have ⟨s, hs, hr, c, hc, hl, ho, hn⟩ := exec_any (Http.step {}) (fun _ _ => True) (init {} 1 0)
    expectUntaken (fun s => ∃ c ∈ s.heap 1, c.results.length = 1 ∧ 25 < c.output.length ∧
      c.log.all (·.queued.length ≤ 1000)) (by decide +kernel)
  refine ⟨s, c, hs, hc, hl, ho, buffers_bounded {} 1 0 hr hc fun _ _ _ hm => ?_⟩
  have hn := of_decide_eq_true (List.all_eq_true.mp hn _ hm)
  exact hn

end System
end Http
