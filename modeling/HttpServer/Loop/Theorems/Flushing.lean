import HttpServer.Loop.Theorems.Interest

namespace Http

namespace Connection

-- A socket that answers like this leaves nothing of `n` bytes: it takes them all, or it fails.
def drains : List Send → Nat → Bool
  | [], n         => n = 0
  | s :: sends, n => n = 0 || match s with
    | .accepted k => k = 0 || drains sends (n - k)
    | .eintr      => drains sends n
    | .eagain     => false
    | .error      => true

-- The socket would take the whole response to a timeout at once.
def drainsTimeout (c : Connection) (io : Io) : Bool :=
  drains io.sends
    (c.queueError io.date .timeout 408 "no request within the idle timeout").output.length

variable {cfg : Config} {c : Connection} {io : Io} {now : Time}

theorem flushLoop_drains {sends : List Send} (h : drains sends c.output.length)
    (ha : (flushLoop now sends c).1.alive) : (flushLoop now sends c).1.output = [] := by
  fun_induction flushLoop <;> simp only [drains, Bool.or_eq_true, decide_eq_true_eq] at h
  case case1 => exact List.length_eq_zero_iff.mp h
  case case2 c hs =>
    have ha : c.alive = true := ha
    simpa [ha] using hs
  case case3 c hs n hn hi =>
    have hl : c.output.length ≠ 0 := by simp_all
    refine hi ?_ ha
    simpa [consume] using (h.resolve_left hl).resolve_left (Nat.ne_of_gt hn)
  case case5 c hs hi =>
    have hl : c.output.length ≠ 0 := by simp_all
    exact hi (h.resolve_left hl) ha
  case case6 hs      => simp_all
  case case4 | case7 => cases ha

theorem flush_drains (h : drains io.sends c.output.length) (ha : (c.flush io).1.alive) :
    (c.flush io).1.output = [] :=
  flushLoop_drains h ha

theorem onTick_output (h : (c.onTick cfg now io).1.alive)
    (hd : c.timesOut cfg now → c.drainsTimeout io) :
    c.alive ∧ (c.onTick cfg now io).1.appliedMask = c.appliedMask ∧
      ((c.onTick cfg now io).1.output ≠ [] → c.output ≠ []) := by
  rcases onTick_cases cfg now c io with hc | ⟨_, ho, _, hc⟩ | hc | ⟨ht, hc⟩ <;> rw [hc] at h ⊢
  case inl         => exact ⟨h, rfl, fun ho => ho⟩
  case inr.inl     => exact ⟨h, rfl, fun ho => ho⟩
  case inr.inr.inl => cases h
  case inr.inr.inr =>
    have ho := flush_drains (hd ht) h
    have ⟨_, _, _, he⟩ := flush_alive h
    rw [he] at h
    exact ⟨h, flush_steady.1, fun hn => absurd ho hn⟩

end Connection

namespace System

open Transition
open Connection hiding refuses

-- If the step is a tick, then the sockets of the connections that time out take their responses.
def drainsTimeouts (cfg : Config) (s : System) : Action → Bool
  | .loop a     => s.pc ≠ .timer || !s.due cfg a ||
    s.allConns fun c => !c.timesOut cfg a.now || c.drainsTimeout (a.io c.id)
  | .worker _ _ => true

variable {cfg : Config} {s s' : System} {c c' : Connection} {id : ConnId} {x : Action}

-- Whatever is left to send, epoll reports when it can be sent.
structure Armed (s : System) : Prop where
  keyed : s.Keyed
  armed : ∀ {id c}, s.heap id = some c → c.alive → c.output ≠ [] → c.appliedMask.epollout

theorem Applied.armed (h : Applied cfg .ok c c') (ha : c'.alive) (ho : c'.output ≠ []) :
    c'.appliedMask.epollout := by
  cases h
  case finished hf => simp_all [Connection.finished]
  case failed hm   => exact absurd rfl hm
  case applied     =>
    have ha : c.alive := ha
    simpa [interestMask, wantWrite, ha] using ho

-- The connections that a tick is about either existed before it or are too young to time out.
theorem Known.drainsTimeout {a : Answers} (hk : s.Keyed) (hd : s.drainsTimeouts cfg (.loop a))
    (hp : s.pc = .timer) (ht : s.due cfg a) (hc : Known cfg a.now s s' id c)
    (ho : c.timesOut cfg a.now) : c.drainsTimeout (a.io c.id) := by
  rcases hc with hc | ⟨_, _, _, rfl⟩
  case inl =>
    simp only [drainsTimeouts, hp, ht, ne_eq, not_true_eq_false, decide_false, Bool.not_true,
      Bool.or_self, Bool.false_or] at hd
    simpa [ho] using hk.all hd hc
  case inr =>
    simp [timesOut, Connection.new] at ho

theorem Armed.step (h : Armed s) (hm : x.modOk) (hd : s.drainsTimeouts cfg x)
    (hs : Http.step cfg s x = some s') : Armed s' where
  keyed := h.keyed.step hs
  armed := by
    intro id c' hc ha ho
    obtain ⟨c, hn, hb⟩ := step_heap h.keyed hs hc
    have hi : c.alive → c.output ≠ [] → c.appliedMask.epollout := by
      rcases hn with hn | ⟨_, _, _, rfl⟩
      case inl => exact h.armed hn
      case inr => exact fun _ ho => absurd rfl ho
    have hk {a : Answers} (ha : (Action.loop a).modOk) : a.mod = .ok := of_decide_eq_true ha
    cases hb
    case keep          => exact hi ha ho
    case event _ _ hb  => exact Applied.armed (hk hm ▸ hb) ha ho
    case result _ _ hb => exact Applied.armed (hk hm ▸ hb) ha ho
    case rescan _ _ hb => exact Applied.armed (hk hm ▸ hb) ha ho
    case drain =>
      simp only [Connection.beginDraining] at ha ho ⊢
      split at ha <;> split at ho <;> split
      all_goals exact hi ha ho
    case tick hp ht =>
      obtain ⟨ha, he, ho'⟩ := onTick_output ha (hn.drainsTimeout h.keyed hd hp ht)
      rw [he]
      exact hi ha (ho' ho)
    case kill => cases ha

-- Epoll reports on every open connection that has something left to send.
def WriteArmed (s : System) : Prop :=
  ∀ fd id c, (fd, id) ∈ s.conns → s.heap id = some c → c.alive → c.output ≠ [] →
    c.appliedMask.epollout

theorem write_armed (cfg : Config) (started : Nat) (now : Time)
    (h : Reaches (Http.step cfg) (fun s x => x.modOk ∧ s.drainsTimeouts cfg x)
      (init cfg started now) s) : s.WriteArmed := by
  have hi : Armed s := h.invariant ⟨⟨by simp [init], by simp [init]⟩, by simp [init]⟩
    fun _ hi hk hs => hi.step hk.1 hk.2 hs
  exact fun _ _ _ _ hc => hi.armed hc

-- The socket takes only a part of the response.
def servedInPart : List Action :=
  asked "GET / HTTP/1.1\r\n\r\n" ++ served [.accepted 10, .eagain]

theorem write_armed_partial :
    ∃ s c, exec (Http.step {}) (fun s x => x.modOk ∧ s.drainsTimeouts {} x) (init {} 1 0)
      servedInPart = some s ∧ s.pc = .wait ∧ s.heap 1 = some c ∧ c.output ≠ [] ∧
      c.appliedMask.epollout := by
  have ⟨s, hs, hr, hw, hm, c, hc, ha, ho⟩ := exec_any (Http.step {})
    (fun s x => x.modOk ∧ s.drainsTimeouts {} x) (init {} 1 0) servedInPart
    (fun s => s.pc = .wait ∧ s.conns = [(7, 1)] ∧ ∃ c ∈ s.heap 1, c.alive ∧ c.output ≠ [])
    (by decide +kernel)
  exact ⟨s, c, hs, hw, hc, ho, write_armed {} 1 0 hr 7 1 c (by simp [hm]) hc ha ho⟩

-- A client sends nothing for 16 seconds, and its socket does not take the response to that.
def timedOut : List Action :=
  client ++ iterate 11 { now := 16000000000, io := fun _ => { sends := [.eagain] } }

theorem write_unarmed_timeout :
    ¬∀ s, Reaches (Http.step {}) (fun _ x => x.modOk) (init {} 1 0) s → s.pc = .wait →
      s.WriteArmed := by
  have ⟨s, _, hr, hw, hm, c, hc, ha, ho, hx⟩ := exec_any (Http.step {}) (fun _ x => x.modOk)
    (init {} 1 0) timedOut (fun s => s.pc = .wait ∧ s.conns = [(7, 1)] ∧ ∃ c ∈ s.heap 1,
      c.alive ∧ c.output ≠ [] ∧ c.appliedMask.epollout = false) (by decide +kernel)
  intro hn
  have he := hn s hr hw 7 1 c (by simp [hm]) hc ha ho
  simp [hx] at he

end System
end Http
