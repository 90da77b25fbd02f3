import HttpServer.Loop.Theorems.Step

namespace Http

-- The loop is on its way to swap the queue of completions.
def Pc.swaps : Pc → Bool
  | dispatch _ | drainWake _ | drainCompletions => true
  | _                                           => false

namespace System

open Transition

-- No completion is lost, and the loop will not sleep on one.
structure Awake (s : System) : Prop where
  account : s.pc ≠ .returned → s.pushed = s.taken ++ s.completions
  woken   : s.completions ≠ [] → 0 < s.wakeCount ∨ .posted ∈ s.workers ∨ s.pc.swaps

variable {cfg : Config} {a : Answers} {s s' : System} {p : Pc} {i : Nat}

-- The loop may move on without touching the completions, but only the swap leaves the part in
-- which it has yet to look at them.
theorem Awake.goto (h : Awake s) (hs : s'.shared = s.shared) (hr : s.pc ≠ .returned)
    (hp : s.pc.swaps → s'.pc.swaps) : Awake s' := by
  simp only [shared, Shared.mk.injEq] at hs
  have ⟨hc, hn, hw, hpu, ht⟩ := hs
  refine ⟨fun _ => by rw [hpu, ht, hc]; exact h.account hr, fun hne => ?_⟩
  rw [hc] at hne
  rw [hn, hw]
  exact (h.woken hne).imp_right (Or.imp_right hp)

theorem Awake.frame (h : Awake s) (hf : Frame s s') (hr : s.pc ≠ .returned)
    (hp : s.pc.swaps → p.swaps) : Awake (s'.goto p) :=
  h.goto hf.shared hr hp

theorem Goto.swaps (h : Goto cfg a s p) (hs : s.pc.swaps) : p.swaps := by
  cases h <;> simp_all [Pc.swaps]

theorem Goto.not_returned (h : Goto cfg a s p) : s.pc ≠ .returned := by
  cases h <;> simp_all

theorem Awake.next (h : Awake s) (hn : Next cfg a s s') : Awake s' := by
  cases hn
  case goto hg    => exact h.frame (.refl s) hg.not_returned hg.swaps
  case retry      => exact h
  case fail hp    => exact h.goto rfl (by simp [hp]) (by simp [hp, Pc.swaps])
  case signal hp  => exact h.frame (.handleSignals _ s) (by simp [hp]) (by simp [Pc.swaps])
  case accept hp  => exact h.frame (.acceptBatch ..) (by simp [hp]) (by simp [Pc.swaps])
  case event hp _ _ =>
    refine h.goto Frame.serve.shared (by simp [hp]) fun _ => ?_
    rw [Frame.serve.pc]
    rfl
  case counter hp => exact ⟨h.account, fun _ => .inr (.inr (by simp [hp, Pc.swaps]))⟩
  case swap hp    =>
    have ha := h.account (by simp [hp])
    exact ⟨fun _ => by simpa [System.goto] using ha, fun hc => absurd rfl hc⟩
  case deliver hp _ _ => exact h.goto Frame.settle.shared (by simp [hp]) (by simp [hp, Pc.swaps])
  case dropped hp _   => exact h.goto rfl (by simp [hp]) (by simp [hp, Pc.swaps])
  case rescans hp     => exact h.goto rfl (by simp [hp]) (by simp [hp, Pc.swaps])
  case rescan hp _ _  => exact h.goto Frame.serve.shared (by simp [hp]) (by simp [hp, Pc.swaps])
  case unpin hp       => exact h.goto rfl (by simp [hp]) (by simp [hp, Pc.swaps])
  case reap hp =>
    rcases hp with ⟨hp, rfl⟩ | ⟨hp, rfl⟩ <;>
      exact h.frame (.reap s) (by simp [hp]) (by simp [hp, Pc.swaps])
  case drain hp => exact h.frame .maybeBeginDrain (by simp [hp]) (by simp [hp, Pc.swaps])
  case tick hp _  =>
    exact h.goto (Frame.tick (s := { s with lastTick := a.now })).shared (by simp [hp])
      (by simp [hp, Pc.swaps])
  case force hp =>
    rcases hp with hp | hp <;>
      exact h.goto (Frame.closeAll s).shared (by simp [hp]) (by simp [hp, Pc.swaps])
  case stop hp => exact h.goto rfl (by simp [hp]) (by simp [hp, Pc.swaps])
  case cleanup =>
    have hc := congrArg Shared.completions (Frame.closeAll { s with completions := [] }).shared
    exact ⟨fun hr => absurd rfl hr, fun hne => absurd hc hne⟩

theorem mem_set {ws : List Worker} {w w' : Worker} (h : ws[i]? = some w) :
    w' ∈ ws.set i w' :=
  List.mem_set (List.getElem?_eq_some_iff.mp h).1 _

theorem Awake.work (h : Awake s) (hw : Work cfg s s') : Awake s' := by
  -- A worker that is between its two steps stays there unless it is the one that moves.
  have hk {w w' : Worker} {i : Nat} (hi : s.workers[i]? = some w) (hw : w ≠ .posted)
      (hm : Worker.posted ∈ s.workers) : Worker.posted ∈ s.workers.set i w' := by
    have ⟨k, hk, hg⟩ := List.mem_iff_getElem.mp hm
    have hne : i ≠ k := by
      rintro rfl
      rw [List.getElem?_eq_getElem hk, hg] at hi
      exact hw (Option.some.inj hi).symm
    exact List.mem_iff_getElem.mpr ⟨k, by simpa using hk, by simp [hne, hg]⟩
  cases hw
  case take hi _ =>
    exact ⟨h.account, fun hc => (h.woken hc).imp_right (Or.imp_left (hk hi (by simp)))⟩
  case exit hi _ _ =>
    exact ⟨h.account, fun hc => (h.woken hc).imp_right (Or.imp_left (hk hi (by simp)))⟩
  case post hi _ =>
    refine ⟨fun hr => ?_, fun _ => .inr (.inl (mem_set hi))⟩
    show s.pushed ++ _ = s.taken ++ (s.completions ++ _)
    rw [h.account hr, List.append_assoc]
  case wake hn => exact ⟨h.account, fun _ => .inl hn⟩

theorem Awake.step {x : Action} (h : Awake s) (hs : step cfg s x = some s') : Awake s' := by
  cases x
  case loop   => exact h.next (loopStep_next hs)
  case worker => exact h.work (workerStep_work hs)

-- Whoever pushes a completion wakes the loop, and what was pushed is drained once.
theorem no_lost_wakeup (cfg : Config) (started : Nat) (now : Time)
    (h : Reaches (Http.step cfg) (fun _ _ => True) (init cfg started now) s) :
    (s.pc = .wait → s.completions ≠ [] → 0 < s.wakeCount ∨ .posted ∈ s.workers) ∧
    (s.pc.left = false → s.pushed = s.taken ++ s.completions) := by
  have ha : Awake s := h.invariant ⟨fun _ => rfl, fun hc => absurd rfl hc⟩ fun _ hi _ hs => hi.step hs
  constructor
  case left =>
    intro hp hc
    exact (ha.woken hc).imp_right fun hw => hw.resolve_right (by simp [hp, Pc.swaps])
  case right =>
    intro hl
    exact ha.account fun hp => by simp [hp, Pc.left] at hl

-- The only worker has pushed its completion and not yet written to the eventfd.
def unwoken : List Action :=
  asked "GET / HTTP/1.1\r\n\r\n" ++ [.worker 0 false, .worker 0 false]

theorem no_lost_wakeup_posted :
    ∃ s, exec (Http.step {}) (fun _ _ => True) (init {} 1 0) unwoken = some s ∧
      s.completions ≠ [] ∧ (0 < s.wakeCount ∨ .posted ∈ s.workers) := by
  have ⟨s, hs, hr, hw, hc⟩ := exec_any (Http.step {}) (fun _ _ => True) (init {} 1 0) unwoken
    (fun s => s.pc = .wait ∧ s.completions ≠ []) (by decide +kernel)
  exact ⟨s, hs, hc, (no_lost_wakeup {} 1 0 hr).1 hw hc⟩

end System
end Http
