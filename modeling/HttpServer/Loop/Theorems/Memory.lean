import HttpServer.Loop.Theorems.Sequential
import HttpServer.Loop.Theorems.Bounds
import HttpServer.Connection.Theorems.Sizes
import Mathlib.Algebra.Order.BigOperators.Group.List
import Mathlib.Algebra.Order.Ring.Nat
import Mathlib.Algebra.Group.Action.Defs

namespace Http

-- The date of every response that a step may write has a limited size.
def Action.Dated (n : Nat) : Action → Prop
  | loop a     => ∀ id, (a.io id).date.length ≤ n
  | worker _ _ => True

-- The bytes that a connection has buffered.
def Connection.footprint (c : Connection) : Nat :=
  c.input.length + c.parser.body.length + c.output.length

-- The most that this can be, with dates of 29 bytes.
def Config.connectionBytes (cfg : Config) : Nat :=
  cfg.maxRequestBytes + 16384 + cfg.maxBodyBytes + (cfg.maxOutputBytes + 25 + 29 + cfg.responseBytes)

namespace System

open Transition
open Connection hiding refuses

variable {cfg : Config} {a : Answers} {s s' : System} {c c' : Connection} {id : ConnId}
variable {x : Action} {now : Time} {n : Nat} {ok : System → Action → Prop} {started : Nat}

theorem sized_reaches (h : Reaches (Http.step cfg) ok (init cfg started now) s)
    (hc : s.heap id = some c) : c.Sized cfg :=
  kept_reaches (P := Connection.Sized cfg) (fun hm _ h => hm.sized h) .new h id c hc

-- No response is longer than the settings allow, whatever is asked for.
theorem modest_reaches {o : Origin} {d : Bytes} {r : Response}
    (h : Reaches (Http.step cfg) ok (init cfg started now) s) (hc : s.heap id = some c)
    (hm : .final o d r ∈ c.log) : (serializeResponse d r).length ≤ d.length + cfg.responseBytes := by
  obtain ⟨_, hf, _⟩ := (Tracked.reaches h).follows hc
  have hr : r.Modest cfg := (sized_reaches h hc).modest hf.history (recited_reaches h hc) hm
  exact hr.length

theorem Callback.dated (h : Callback cfg s c x c') (hx : x.Dated n) (hc : c.Dated n) :
    c'.Dated n := by
  cases x
  case loop   => exact h.stamped.dated (hx _) hc
  case worker => exact h.worker ▸ hc

theorem dated_step (hk : s.Keyed) (hx : x.Dated n) (h : ∀ id c, s.heap id = some c → c.Dated n)
    (hs : step cfg s x = some s') : ∀ id c, s'.heap id = some c → c.Dated n := by
  intro id c' hc
  obtain ⟨c, hn, hb⟩ := step_heap hk hs hc
  refine hb.dated hx ?_
  rcases hn with hn | ⟨_, _, _, rfl⟩
  case inl => exact h id c hn
  case inr => simp [Connection.Dated, Connection.new]

theorem register_length {fd : Fd} {y : Admission} (h : s.conns.length < cfg.maxConnections) :
    (s.register cfg now fd y).conns.length ≤ cfg.maxConnections := by
  rcases register_cases (s := s) y with ⟨hc, _⟩ | ⟨_, hc, _⟩ <;> rw [hc]
  case inl => exact Nat.le_of_lt h
  case inr =>
    rw [List.length_append]
    exact h

-- Connections are turned away when there are enough.
theorem acceptBatch_length {k : Nat} {accepts : List Accept}
    (h : s.conns.length ≤ cfg.maxConnections) :
    (acceptBatch cfg now k accepts s).conns.length ≤ cfg.maxConnections := by
  fun_induction acceptBatch
  case case10 hn hi => exact hi (register_length (Nat.lt_of_not_le hn))
  case case3 hi | case6 hi | case8 hi | case9 hi => exact hi h
  all_goals exact h

-- Only `accept_batch` adds connections.
theorem next_length (h : s.conns.length ≤ cfg.maxConnections) (hn : Next cfg a s s') :
    s'.conns.length ≤ cfg.maxConnections := by
  have hset {mod : Ctl} {t : System} {c : Connection} (ht : t.conns = s.conns) :
      (t.settle cfg mod c).conns.length ≤ cfg.maxConnections := by
    obtain ⟨_, _, _, _, he⟩ := (settle_settled cfg mod t c).put
    rw [he]
    exact ht ▸ h
  have hreap : s.reap.conns.length ≤ cfg.maxConnections := by
    rw [reap]
    split
    case isTrue  => exact h
    case isFalse => exact Nat.le_trans (List.length_filter_le ..) h
  cases hn
  case signal => exact (handleSignals_books a.signals s).1 ▸ h
  case accept => exact acceptBatch_length h
  case event | deliver | rescan => exact hset rfl
  case reap   => exact hreap
  case drain  =>
    simp only [goto, maybeBeginDrain]
    split <;> exact h
  case tick =>
    have ha : ({ s with lastTick := a.now }.admitted cfg a).conns.length ≤ cfg.maxConnections := by
      rw [admitted]
      split
      case isTrue  => exact acceptBatch_length h
      case isFalse => exact h
    exact ha
  case force | cleanup =>
    simp only [goto, closeAll_conns]
    exact Nat.zero_le _
  all_goals exact h

theorem length_reaches (h : Reaches (Http.step cfg) ok (init cfg started now) s) :
    s.conns.length ≤ cfg.maxConnections := by
  refine h.invariant (P := fun s => s.conns.length ≤ cfg.maxConnections) (Nat.zero_le _)
    fun {_ x _} _ hi _ hs => ?_
  cases x
  case loop   => exact next_length hi (loopStep_next hs)
  case worker => cases workerStep_work hs <;> exact hi

theorem response_reaches {o : Origin} {d : Bytes} {r : Response}
    (h : Reaches (Http.step cfg) (fun _ x => x.Dated n) (init cfg started now) s)
    (hc : s.heap id = some c) (hm : .final o d r ∈ c.log) :
    (serializeResponse d r).length ≤ n + cfg.responseBytes := by
  have hd : ∀ id c, s.heap id = some c → c.Dated n :=
    h.invariant (P := fun s => ∀ id c, s.heap id = some c → c.Dated n) (by simp [init])
      fun hr hi hx hs => dated_step (Tracked.reaches hr).keyed hx hi hs
  exact Nat.le_trans (modest_reaches h hc hm) (Nat.add_le_add_right (hd id c hc o d r hm) _)

theorem footprint_reaches
    (h : Reaches (Http.step cfg) (fun _ x => x.Dated 29) (init cfg started now) s)
    (hc : s.heap id = some c) : c.footprint ≤ cfg.connectionBytes := by
  have hb : ∀ id c, s.heap id = some c → c.Bounded cfg :=
    h.invariant (P := fun s => ∀ id c, s.heap id = some c → c.Bounded cfg) (by simp [init])
      fun hr hi _ hs => bounded_step (Tracked.reaches hr).keyed hi hs
  have ho := (hb id c hc).output (29 + cfg.responseBytes) fun o d r hm => response_reaches h hc hm
  have hi : c.parser.consumed + c.input.length ≤ cfg.maxRequestBytes + 16384 := (hb id c hc).input
  have hx : c.parser.body.length ≤ cfg.maxBodyBytes := (hb id c hc).body.body
  have hk : kContinue.length = 25 := rfl
  rw [footprint, Config.connectionBytes]
  omega

-- What the server needs is limited by its settings: the number of its connections, every response
-- and all buffers together.
structure Thrifty (cfg : Config) (s : System) : Prop where
  conns     : s.conns.length ≤ cfg.maxConnections
  responses : ∀ id c o d r, s.heap id = some c → .final o d r ∈ c.log →
    (serializeResponse d r).length ≤ 29 + cfg.responseBytes
  buffers   : (s.conns.map fun e => (s.heap e.2).elim 0 footprint).sum ≤
    cfg.maxConnections * cfg.connectionBytes

theorem memory_bounded (cfg : Config) (started : Nat) (now : Time)
    (h : Reaches (Http.step cfg) (fun _ x => x.Dated 29) (init cfg started now) s) :
    s.Thrifty cfg := by
  have hl := length_reaches h
  have hs := List.sum_le_card_nsmul (s.conns.map fun e => (s.heap e.2).elim 0 footprint)
    cfg.connectionBytes fun k hk => ?_
  · rw [List.length_map, smul_eq_mul] at hs
    exact ⟨hl, fun _ _ _ _ _ hc hm => response_reaches h hc hm,
      Nat.le_trans hs (Nat.mul_le_mul_right _ hl)⟩
  · obtain ⟨e, he, rfl⟩ := List.mem_map.mp hk
    obtain ⟨c, hc, _⟩ := (Registry.reaches h).stored he
    rw [hc]
    exact footprint_reaches h hc

-- A response waits for a peer that does not take it.
def untaken : List Action :=
  asked "GET / HTTP/1.1\r\n\r\n" ++ served []

theorem memory_bounded_waiting : ∃ (s : System) (c : Connection), s.conns = [(7, 1)] ∧
    s.heap 1 = some c ∧ 60 < c.footprint ∧ s.Thrifty {} := by
  have ⟨s, hs, _, hm, c, hc, hf⟩ := exec_any (Http.step {}) (fun _ _ => True) (init {} 1 0) untaken
    (fun s => s.conns = [(7, 1)] ∧ ∃ c ∈ s.heap 1, 60 < c.footprint) (by decide +kernel)
  refine ⟨s, c, hm, hc, hf, memory_bounded {} 1 0 (.of_run hs ?_)⟩
  simp [untaken, asked, client, arrival, served, iterate, or_imp, forall_and, Action.Dated]

end System
end Http
