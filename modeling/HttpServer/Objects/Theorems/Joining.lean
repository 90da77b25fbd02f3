import HttpServer.Objects.Theorems.Monitor

namespace Http

variable {J : Type}

-- The steps that a thread has left once the pool stops, until it looks for its next job.
def Stage.rank : Stage J → Nat
  | running _ => 3
  | locking   => 2
  | locked    => 1
  | _         => 0

-- The threads that a call has yet to join, and whether it gave up on one.
def Call.threads : Call → List Nat
  | notifyAll _ ts | join ts | tryJoin ts _ => ts
  | _                                       => []

def Call.gaveUp : Call → Bool
  | tryJoin _ r | stoppedForced r => !r
  | _                             => false

namespace Monitor

open Transition Update

variable {m m' : Monitor J} {a : Act J} {maxQueue started : Nat}

-- The steps that the threads have left once the pool stops.
def load (m : Monitor J) : Nat :=
  3 * m.pool.queue.length + (m.stages.map Stage.rank).sum

def Act.isWork : Act J → Bool
  | work _ _ => true
  | _        => false

-- The pool stops, and everybody has been told.
structure Winding (m : Monitor J) : Prop where
  stopping : m.pool.stopping
  awake    : m.stages.any Stage.isWaiting = false

theorem Winding.set {i : Nat} {t : Stage J} (t' : Stage J) (h : m.Winding)
    (hi : m.stages[i]? = some t) (hs : m'.stages = m.stages.set i t') (hw : t'.isWaiting = false)
    (hp : m'.pool.stopping = m.pool.stopping)
    (hq : 3 * m'.pool.queue.length + t'.rank + 1 ≤ 3 * m.pool.queue.length + t.rank) :
    m'.Winding ∧ m'.load + 1 ≤ m.load := by
  refine ⟨⟨hp.trans h.stopping, Bool.eq_false_iff.mpr fun hw' => ?_⟩, ?_⟩
  · have hw' := any_of_set (hs ▸ hw') hw
    simp [h.awake] at hw'
  · have hn := sum_set Stage.rank t' hi
    rw [load, load, hs]
    omega

theorem Winding.not_waiting {i : Nat} (h : m.Winding) (hi : m.stages[i]? = some .waiting) : False := by
  have hw : m.stages.any Stage.isWaiting :=
    List.any_eq_true.mpr ⟨.waiting, List.mem_of_getElem? hi, rfl⟩
  simp [h.awake] at hw

-- Only the threads of the pool have something left to do, and they do not come back.
theorem Winding.next (h : m.Winding) (hg : m.Guarded) (hn : Next m a m') :
    m'.Winding ∧ m'.load + a.isWork.toNat ≤ m.load := by
  cases hn
  case accept hs =>
    have hn := (Pool.trySubmit_eq hs).1
    simp [h.stopping] at hn
  case stop f _      => exact ⟨⟨rfl, h.awake⟩, by cases f <;> exact Nat.le_refl _⟩
  case signal hk hi  => exact (h.not_waiting hi).elim
  case wake hi       => exact (h.not_waiting hi).elim
  case alarm =>
    have hw : m.stages.map Stage.woken = m.stages := by
      refine (List.map_congr_left fun t ht => ?_).trans (List.map_id _)
      cases t <;> try rfl
      cases List.any_eq_false.mp h.awake _ ht rfl
    refine ⟨⟨h.stopping, ?_⟩, ?_⟩
    · dsimp only
      rw [hw]
      exact h.awake
    · simp only [load, hw]
      exact Nat.le_refl _
  case lock hi _      => exact h.set .locked hi rfl rfl rfl (by simp [Stage.rank])
  case take hi hq     => exact h.set (.running _) hi rfl rfl rfl (by simp [hq, Stage.rank]; omega)
  case exit hi _ _    => exact h.set .exited hi rfl rfl rfl (by simp [Stage.rank])
  case ran hi         => exact h.set .locking hi rfl rfl rfl (by simp [Stage.rank])
  case check hs       => simp [h.stopping] at hs
  case wait hi        =>
    have hs := (hg.parked (List.mem_of_getElem? hi)).2
    simp [h.stopping] at hs
  all_goals exact ⟨⟨h.stopping, h.awake⟩, Nat.le_refl _⟩

theorem Winding.steps (h : m.Winding) (hg : m.Guarded) :
    (∃ i, (m.step (.work i false)).isSome) ∨ ∀ t ∈ m.stages, t = .exited := by
  rcases ho : m.owner with _ | i
  case some => exact .inl ⟨i, hg.owner_steps ho⟩
  case none =>
    refine Classical.or_iff_not_imp_right.mpr fun hn => ?_
    simp only [not_forall] at hn
    obtain ⟨t, ht, hx⟩ := hn
    obtain ⟨i, hi⟩ := List.getElem?_of_mem ht
    refine ⟨i, ?_⟩
    cases t
    case locking => simp [step, work, hi, ho]
    case running => simp [step, work, hi]
    case locked  => cases hg.unlocked ho _ ht
    case parking => cases hg.unlocked ho _ ht
    case waiting => exact (h.not_waiting hi).elim
    case exited  => exact absurd rfl hx

theorem Winding.exec {as : List (Act J)} (h : m.Winding) (hg : m.Guarded)
    (he : exec Monitor.step (fun _ _ => True) m as = some m') :
    (m'.Winding ∧ m'.Guarded) ∧ as.countP Act.isWork + m'.load ≤ m.load := by
  refine exec_spends (P := fun m => m.Winding ∧ m.Guarded) (fun h _ hs => ?_) ⟨h, hg⟩ he
  obtain ⟨hw, hl⟩ := h.1.next h.2 (step_next hs)
  exact ⟨⟨hw, h.2.next (step_next hs)⟩, hl⟩

-- After `notify_all` the threads take a bounded number of steps, whatever else is called, and as long
-- as one of them has not returned there is one that is not blocked.
theorem stop_ends (maxQueue started : Nat) {as : List (Act J)}
    (h : Reaches Monitor.step (fun _ _ => True) (new maxQueue started : Monitor J) m)
    (hs : m.pool.stopping) (hn : m.calls.any Call.isNotifyAll = false)
    (he : exec Monitor.step (fun _ _ => True) m as = some m') :
    as.countP Act.isWork + m'.load ≤ m.load ∧
      ((∃ i, (m'.step (.work i false)).isSome) ∨ ∀ t ∈ m'.stages, t = .exited) := by
  obtain ⟨hg, hr⟩ := Sound.reaches h
  have hw : m.Winding := ⟨hs, Bool.eq_false_iff.mpr fun hw => by simp [hr.stop hs hw] at hn⟩
  obtain ⟨⟨hw, hg⟩, hl⟩ := hw.exec hg he
  exact ⟨hl, hw.steps hg⟩

-- One thread sleeps and another one has yet to start when the pool stops with a job in the queue.
def stoppedRun : List (Act Nat) :=
  turn 0 ++ [.submit 7, .stop, .notify 1 0]

def stoppedTurns : List (Act Nat) :=
  turn 0 ++ (turn 1).take 2

theorem stop_ends_asleep : ∃ m m' : Monitor Nat, m.load = 7 ∧
    exec Monitor.step (fun _ _ => True) m stoppedTurns = some m' ∧ m'.load = 2 ∧
    ((∃ i, (m'.step (.work i false)).isSome) ∨ ∀ t ∈ m'.stages, t = .exited) := by
  have ⟨m, _, hr, hs, hn, hl, m', hm, hl'⟩ := exec_any Monitor.step (fun _ _ => True) (new 1 2)
    stoppedRun (fun m => m.pool.stopping ∧ m.calls.any Call.isNotifyAll = false ∧ m.load = 7 ∧
      ∃ m' ∈ exec Monitor.step (fun _ _ => True) m stoppedTurns, m'.load = 2)
    (by decide)
  exact ⟨m, m', hl, hm, hl', (stop_ends 1 2 hr hs hn hm).2⟩

-- Every thread that was started is still to be handed over, on its way to be joined, joined or
-- detached. Those that were joined had returned.
structure Accounted (started : Nat) (m : Monitor J) : Prop where
  threads  : (m.handles ++ (m.calls.flatMap Call.threads ++ (m.joined ++ m.detached))).Perm
    (.range started)
  size     : m.stages.length = started
  stopping : m.pool.stopping → m.handles = []
  gone     : ∀ t ∈ m.joined, m.stages[t]? = some .exited
  gaveUp   : m.detached ≠ [] ↔ m.calls.any Call.gaveUp

theorem exited_set {t i : Nat} {w w' : Stage J} {l : List (Stage J)} (h : l[t]? = some .exited)
    (hi : l[i]? = some w) (hw : w ≠ .exited) : (l.set i w')[t]? = some .exited := by
  rw [List.getElem?_set_ne, h]
  rintro rfl
  exact hw (Option.some.inj (hi.symm.trans h))

-- A thread moves on.
theorem Accounted.set {i : Nat} {t t' : Stage J} (h : Accounted started m)
    (hi : m.stages[i]? = some t) (ht : t ≠ .exited) (hs : m'.stages = m.stages.set i t')
    (hp : m'.pool.stopping = m.pool.stopping) (hh : m'.handles = m.handles) (hc : m'.calls = m.calls)
    (hj : m'.joined = m.joined) (hd : m'.detached = m.detached) : Accounted started m' where
  threads  := by rw [hh, hc, hj, hd]; exact h.threads
  size     := by rw [hs, List.length_set]; exact h.size
  stopping := by rw [hp, hh]; exact h.stopping
  gone u   := by
    rw [hj, hs]
    exact fun hu => exited_set (h.gone u hu) hi ht
  gaveUp   := by rw [hd, hc]; exact h.gaveUp

theorem gaveUp_set {k : Nat} {c : Call} {l : List Call} (c' : Call) (hk : l[k]? = some c)
    (hg : c'.gaveUp = c.gaveUp) : (l.set k c').any Call.gaveUp = l.any Call.gaveUp := by
  have hn := countP_set Call.gaveUp c' hk
  rw [hg, Nat.add_right_cancel_iff] at hn
  rw [Bool.eq_iff_iff]
  simp only [List.any_eq_true, ← List.countP_pos_iff, hn]

-- A call goes on and keeps its threads.
theorem Accounted.call {k : Nat} {c : Call} (c' : Call) (h : Accounted started m)
    (hk : m.calls[k]? = some c) (ht : c'.threads = c.threads) (hg : c'.gaveUp = c.gaveUp)
    (hp : m'.pool = m.pool) (hh : m'.handles = m.handles) (hl : m'.stages.length = m.stages.length)
    (hs : ∀ t : Nat, m.stages[t]? = some .exited → m'.stages[t]? = some .exited)
    (hc : m'.calls = m.calls.set k c') (hj : m'.joined = m.joined) (hd : m'.detached = m.detached) :
    Accounted started m' where
  threads := by
    have hf := flatMap_set Call.threads c' hk
    rw [ht, List.perm_append_left_iff] at hf
    rw [hh, hc, hj, hd]
    exact ((hf.append_right _).append_left _).trans h.threads
  size     := hl.trans h.size
  stopping := by rw [hp, hh]; exact h.stopping
  gone t   := by rw [hj]; exact fun ht => hs t (h.gone t ht)
  gaveUp   := by
    rw [hd, hc, gaveUp_set c' hk hg]
    exact h.gaveUp

-- A new call is made. It may take over the threads that are to be joined.
theorem Accounted.enter {c : Call} (h : Accounted started m) (hg : c.gaveUp = false)
    (hh : m'.handles ++ c.threads = m.handles) (hp : m'.pool.stopping → m'.handles = [])
    (hs : m'.stages = m.stages) (hc : m'.calls = m.calls ++ [c]) (hj : m'.joined = m.joined)
    (hd : m'.detached = m.detached) : Accounted started m' where
  threads := by
    refine List.Perm.trans ?_ h.threads
    rw [hc, hj, hd, ← hh, List.flatMap_append, List.flatMap_singleton, List.append_assoc,
      List.append_assoc]
    exact .append_left _ (List.perm_append_comm_assoc ..)
  size     := by rw [hs]; exact h.size
  stopping := hp
  gone     := by rw [hj, hs]; exact h.gone
  gaveUp   := by simp [hd, hc, hg, h.gaveUp]

-- A call is done with its first thread.
theorem Accounted.leave {k t : Nat} {c : Call} (c' : Call) (h : Accounted started m)
    (hk : m.calls[k]? = some c) (ht : c.threads = t :: c'.threads) (hp : m'.pool = m.pool)
    (hh : m'.handles = m.handles) (hs : m'.stages = m.stages) (hc : m'.calls = m.calls.set k c')
    (hj : (m'.joined ++ m'.detached).Perm (t :: (m.joined ++ m.detached)))
    (hx : ∀ t ∈ m'.joined, m.stages[t]? = some .exited)
    (hg : m'.detached ≠ [] ↔ m'.calls.any Call.gaveUp) : Accounted started m' where
  threads := by
    refine List.Perm.trans ?_ h.threads
    have hf := flatMap_set Call.threads c' hk
    rw [ht, List.cons_append] at hf
    have hf : (t :: (m.calls.set k c').flatMap Call.threads).Perm (m.calls.flatMap Call.threads) := by
      refine (List.perm_append_left_iff c'.threads).mp (List.Perm.trans ?_ hf)
      exact List.perm_middle
    rw [hh, hc]
    refine .append_left _ ((hj.append_left _).trans ?_)
    exact List.perm_middle.trans (hf.append_right _)
  size     := by rw [hs]; exact h.size
  stopping := by rw [hp, hh]; exact h.stopping
  gone u   := by rw [hs]; exact hx u
  gaveUp   := hg

theorem Accounted.next (h : Accounted started m) (hn : Next m a m') : Accounted started m' := by
  cases hn
  case accept hs =>
    obtain ⟨hn, _, _, rfl⟩ := Pool.trySubmit_eq hs
    exact h.enter rfl (List.append_nil _) (fun hs => by simp [hn] at hs) rfl rfl rfl rfl
  case reject  => exact h.enter rfl (List.append_nil _) h.stopping rfl rfl rfl rfl
  case stopped => exact h.enter rfl (List.append_nil _) h.stopping rfl rfl rfl rfl
  case stop    => exact h.enter rfl rfl (fun _ => rfl) rfl rfl rfl rfl
  case signal hk hi =>
    exact h.call (.submitted true) hk rfl rfl rfl rfl (List.length_set ..)
      (fun _ ht => exited_set ht hi nofun) rfl rfl rfl
  case unheard hk _ =>
    exact h.call (.submitted true) hk rfl rfl rfl rfl rfl (fun _ ht => ht) rfl rfl rfl
  case alarm f _ hk =>
    refine h.call _ hk (by cases f <;> rfl) (by cases f <;> rfl) rfl rfl (List.length_map ..)
      (fun t ht => ?_) rfl rfl rfl
    simp [ht, Stage.woken]
  case finish hk    => exact h.call .stopped hk rfl rfl rfl rfl rfl (fun _ ht => ht) rfl rfl rfl
  case tried r hk   =>
    exact h.call (.stoppedForced r) hk rfl rfl rfl rfl rfl (fun _ ht => ht) rfl rfl rfl
  case join t _ ts hk ht =>
    refine h.leave (.join ts) hk rfl rfl rfl rfl rfl ?_ ?_ ?_
    · rw [List.append_assoc]
      exact List.perm_middle
    · simpa [or_imp, forall_and, ht] using h.gone
    · dsimp only
      rw [gaveUp_set (.join ts) hk rfl]
      exact h.gaveUp
  case tryJoin t _ ts r hk ht =>
    refine h.leave (.tryJoin ts r) hk rfl rfl rfl rfl rfl ?_ ?_ ?_
    · rw [List.append_assoc]
      exact List.perm_middle
    · simpa [or_imp, forall_and, ht] using h.gone
    · dsimp only
      rw [gaveUp_set (.tryJoin ts r) hk rfl]
      exact h.gaveUp
  case detach ts t _ hk =>
    refine h.leave (.tryJoin ts false) hk rfl rfl rfl rfl rfl ?_ h.gone ?_
    · rw [← List.append_assoc]
      exact List.perm_append_singleton ..
    · refine iff_of_true (by simp) (List.any_eq_true.mpr ⟨.tryJoin ts false, ?_, rfl⟩)
      exact List.mem_set (List.getElem?_eq_some_iff.mp hk).1 _
  case pause        => exact h
  case wake hi      => exact h.set hi nofun rfl rfl rfl rfl rfl rfl
  case lock hi _    => exact h.set hi nofun rfl rfl rfl rfl rfl rfl
  case take hi _    => exact h.set hi nofun rfl rfl rfl rfl rfl rfl
  case exit hi _ _  => exact h.set hi nofun rfl rfl rfl rfl rfl rfl
  case check hi _ _ => exact h.set hi nofun rfl rfl rfl rfl rfl rfl
  case wait hi      => exact h.set hi nofun rfl rfl rfl rfl rfl rfl
  case ran hi       => exact h.set hi nofun rfl rfl rfl rfl rfl rfl

theorem Accounted.reaches {ok : Monitor J → Act J → Prop}
    (h : Reaches Monitor.step ok (new maxQueue started) m) : Accounted started m := by
  refine h.invariant ?_ fun _ hi _ hs => hi.next (step_next hs)
  exact ⟨by simp [new], by simp [new], by simp [new, Pool.new], by simp [new], by simp [new]⟩

-- A thread is joined or detached once at most, and joined only when it has returned. One was
-- detached if and only if `stop_forced` says so. When the calls have no thread left to join and none
-- was detached, all of them have returned.
structure Released (started : Nat) (m : Monitor J) : Prop where
  once   : (m.joined ++ m.detached).Nodup ∧ ∀ t ∈ m.joined ++ m.detached, t < started
  gone   : ∀ t ∈ m.joined, m.stages[t]? = some .exited
  gaveUp : m.detached ≠ [] ↔ m.calls.any Call.gaveUp
  all    : m.pool.stopping → (∀ c ∈ m.calls, c.threads = []) → m.detached = [] →
    ∀ t ∈ m.stages, t = .exited

theorem released (maxQueue started : Nat)
    (h : Reaches Monitor.step (fun _ _ => True) (new maxQueue started : Monitor J) m) :
    Released started m := by
  have ha := Accounted.reaches h
  have hp := ha.threads
  refine ⟨⟨?_, fun t ht => ?_⟩, ha.gone, ha.gaveUp, fun hs hc hd t ht => ?_⟩
  · have hn := hp.nodup_iff.mpr List.nodup_range
    exact (List.nodup_append.mp (List.nodup_append.mp hn).2.1).2.1
  · exact List.mem_range.mp (hp.mem_iff.mp (by simp_all))
  · rw [ha.stopping hs, List.flatMap_eq_nil_iff.mpr hc, hd, List.append_nil] at hp
    obtain ⟨i, hi⟩ := List.getElem?_of_mem ht
    have hl : i < started := ha.size ▸ (List.getElem?_eq_some_iff.mp hi).1
    have hj := ha.gone i (hp.mem_iff.mpr (List.mem_range.mpr hl))
    exact Option.some.inj (hi.symm.trans hj)

-- A thread is given up because it still runs its job, the other one is joined.
def forcedRun : List (Act Nat) :=
  [.submit 7, .work 0 false, .work 0 false, .stopForced, .stop, .notify 1 0] ++ (turn 1).take 2 ++
    .replicate 3 (.advance 1 true)

theorem released_forced : ∃ m : Monitor Nat, m.joined = [1] ∧ m.detached = [0] ∧ Released 2 m := by
  have ⟨m, _, hr, hj, hd⟩ := exec_any Monitor.step (fun _ _ => True) (new 1 2) forcedRun
    (fun m => m.joined = [1] ∧ m.detached = [0]) (by decide)
  exact ⟨m, hj, hd, released 1 2 hr⟩

end Monitor
end Http
