import HttpServer.Loop.Process

namespace Http.Process

open Handles

variable {cfg : Settings} {a : StartAnswers} {p q : Process} {base leak : List Nat}
variable {path : Bytes} {port : Nat} {x : SocketAct} {acts : List SocketAct}

-- The descriptors that the event loop has to close, in the order of its destructor.
def owned (p : Process) : List Nat :=
  p.conns.flatMap Handle.owned ++
    (p.sigFd.owned ++ (p.wakeFd.owned ++ (p.listenFd.owned ++ p.epfd.owned)))

-- They are open, and nothing else is open that was not before.
def Owns (base : List Nat) (p : Process) : Prop :=
  Holds base p.owned p.table

theorem perm_of_count {l l' : List Nat} (h : ∀ n, l.count n = l'.count n) : l.Perm l' :=
  List.perm_iff_count.mpr h

-- One of the variables gets a descriptor, and the others keep theirs.
theorem Owns.assign (ho : p.Owns base) (h : Handle) (rest : List Nat)
    (hp : p.owned.Perm (h.owned ++ rest)) (ht : q.table = (h.assign p.table.alloc.1 p.table.alloc.2).2)
    (hq : ((h.assign p.table.alloc.1 p.table.alloc.2).1.owned ++ rest).Perm q.owned) :
    q.Owns base := by
  rw [Owns, ht]
  exact (Holds.assign (Holds.perm ho hp)).perm hq

theorem setupWake_owns (h : p.Owns base) : (p.setupWake a).2.Owns base := by
  rw [setupWake]
  split
  case isTrue  => exact h
  case isFalse =>
    refine h.assign p.wakeFd (p.conns.flatMap Handle.owned ++
      (p.sigFd.owned ++ (p.listenFd.owned ++ p.epfd.owned))) ?_ rfl ?_
    all_goals
      refine perm_of_count fun n => ?_
      simp only [owned, List.count_append]
      omega

theorem setupSignals_owns (h : p.Owns base) : (p.setupSignals a).2.Owns base := by
  rw [setupSignals]
  split
  case isTrue  => exact h
  case isFalse =>
    refine h.assign p.sigFd (p.conns.flatMap Handle.owned ++
      (p.wakeFd.owned ++ (p.listenFd.owned ++ p.epfd.owned))) ?_ rfl ?_
    all_goals
      refine perm_of_count fun n => ?_
      simp only [owned, List.count_append]
      omega

-- The port file is closed again.
theorem writePortFile_table (path : Bytes) (port : Nat) (b : FileAnswers) (p : Process) :
    ∃ files, p.writePortFile path port b =
    { p with
      table := if b.opened then p.table.alloc.2.close p.table.alloc.1 else p.table
      files := files } := by
  rw [writePortFile, fileCalls]
  cases hb : b.opened
  case false => exact ⟨p.files, rfl⟩
  case true  =>
    cases b.written <;> simp only [Bool.not_true, Bool.false_eq_true, ite_false, ite_true] <;>
      split <;> exact ⟨_, rfl⟩

theorem writePortFile_owns {b : FileAnswers} (h : p.Owns base) :
    (p.writePortFile path port b).Owns base := by
  obtain ⟨_, hf⟩ := writePortFile_table path port b p
  rw [hf, Owns]
  dsimp only
  split
  case isTrue  => exact h.alloc.close
  case isFalse => exact h

theorem setupListener_owns (h : p.Owns base) : (p.setupListener cfg a).2.Owns base := by
  have hc : Holds base p.owned (p.table.alloc.2.close p.table.alloc.1) := h.alloc.close
  have ha : Owns base { p with
      listenFd  := (p.listenFd.assign p.table.alloc.1 p.table.alloc.2).1
      table     := (p.listenFd.assign p.table.alloc.1 p.table.alloc.2).2
      boundPort := a.getsockname.getD p.boundPort } := by
    refine h.assign p.listenFd (p.conns.flatMap Handle.owned ++
      (p.sigFd.owned ++ (p.wakeFd.owned ++ p.epfd.owned))) ?_ rfl ?_
    all_goals
      refine perm_of_count fun n => ?_
      simp only [owned, List.count_append]
      omega
  simp only [setupListener]
  repeat' split
  case isTrue => exact h
  case isFalse.isFalse.isFalse.isFalse.isFalse.isTrue  => exact ha
  case isFalse.isFalse.isFalse.isFalse.isFalse.isFalse => exact writePortFile_owns ha
  all_goals exact hc

theorem start_owns (h : p.Owns base) : (p.start cfg a).2.Owns base := by
  simp only [start]
  split
  case isTrue  => exact h
  case isFalse =>
    have ha : Owns base { p with
        epfd  := (p.epfd.assign p.table.alloc.1 p.table.alloc.2).1
        table := (p.epfd.assign p.table.alloc.1 p.table.alloc.2).2 } := by
      refine h.assign p.epfd (p.conns.flatMap Handle.owned ++
        (p.sigFd.owned ++ (p.wakeFd.owned ++ p.listenFd.owned))) ?_ rfl ?_
      all_goals
        refine perm_of_count fun n => ?_
        simp only [owned, List.count_append]
        omega
    repeat' split
    case isTrue          => exact setupWake_owns ha
    case isFalse.isTrue  => exact setupSignals_owns (setupWake_owns ha)
    case isFalse.isFalse => exact setupListener_owns (setupSignals_owns (setupWake_owns ha))

theorem serve_owns (h : p.Owns base) : (p.serve x).Owns base := by
  cases x <;> simp only [serve]
  case turnAway => exact Holds.close h.alloc
  case accept   => exact h.alloc
  case destroy i =>
    split
    case h_1    => exact h
    case h_2 hi =>
      refine Holds.reset (h.perm ?_)
      obtain ⟨hl, rfl⟩ := List.getElem?_eq_some_iff.mp hi
      have hp := (List.getElem_cons_eraseIdx_perm hl).flatMap_right Handle.owned
      rw [List.flatMap_cons] at hp
      simp only [owned, ← List.append_assoc]
      exact ((((hp.symm.append_right _).append_right _).append_right _).append_right _)

theorem serves_owns (h : p.Owns base) : (acts.foldl serve p).Owns base := by
  induction acts generalizing p
  case nil       => exact h
  case cons x hi => exact hi (serve_owns h)

theorem destroy_holds (h : Holds base (p.owned ++ leak) p.table) : Holds base leak p.destroy.table := by
  simp only [owned, List.append_assoc] at h
  exact h.resetAll.reset.reset.reset.reset

-- The variables are set when the loop is entered.
structure Ready (p : Process) : Prop where
  epfd     : p.epfd.fd.isSome
  listenFd : p.listenFd.fd.isSome
  wakeFd   : p.wakeFd.fd.isSome
  sigFd    : p.sigFd.fd.isSome

theorem setupWake_ready (h : (p.setupWake a).1) (hp : p.epfd.fd.isSome) :
    (p.setupWake a).2.epfd.fd.isSome ∧ (p.setupWake a).2.wakeFd.fd.isSome := by
  rw [setupWake] at h ⊢
  split
  case isTrue hn => rw [if_pos hn] at h; cases h
  case isFalse   => exact ⟨hp, rfl⟩

theorem setupSignals_ready (h : (p.setupSignals a).1)
    (hp : p.epfd.fd.isSome ∧ p.wakeFd.fd.isSome) :
    (p.setupSignals a).2.epfd.fd.isSome ∧ (p.setupSignals a).2.wakeFd.fd.isSome ∧
      (p.setupSignals a).2.sigFd.fd.isSome := by
  rw [setupSignals] at h ⊢
  split
  case isTrue hn => rw [if_pos hn] at h; cases h
  case isFalse   => exact ⟨hp.1, hp.2, rfl⟩

theorem setupListener_ready (h : (p.setupListener cfg a).1)
    (hp : p.epfd.fd.isSome ∧ p.wakeFd.fd.isSome ∧ p.sigFd.fd.isSome) :
    (p.setupListener cfg a).2.Ready := by
  obtain ⟨he, hw, hs⟩ := hp
  simp only [setupListener] at h ⊢
  repeat' split at h
  case isFalse.isFalse.isFalse.isFalse.isFalse.isTrue =>
    simp only [*, Bool.false_eq_true, ite_false, ite_true]
    exact ⟨he, rfl, hw, hs⟩
  case isFalse.isFalse.isFalse.isFalse.isFalse.isFalse =>
    simp only [*, Bool.false_eq_true, ite_false]
    obtain ⟨_, hf⟩ := writePortFile_table cfg.portFile (a.getsockname.getD p.boundPort) a.file _
    rw [hf]
    exact ⟨he, rfl, hw, hs⟩
  all_goals cases h

theorem start_ready (h : (p.start cfg a).1) : (p.start cfg a).2.Ready := by
  simp only [start] at h ⊢
  repeat' split at h
  case isFalse.isFalse.isFalse he hw hs =>
    simp only [he, hw, hs, Bool.false_eq_true, ite_false]
    simp only [Bool.not_eq_true', Bool.not_eq_false] at hw hs
    exact setupListener_ready h (setupSignals_ready hs (setupWake_ready hw rfl))
  all_goals cases h

theorem serve_ready (h : p.Ready) : (p.serve x).Ready ∧ (p.serve x).wakeFd = p.wakeFd := by
  cases x
  case turnAway => exact ⟨⟨h.epfd, h.listenFd, h.wakeFd, h.sigFd⟩, rfl⟩
  case accept   => exact ⟨⟨h.epfd, h.listenFd, h.wakeFd, h.sigFd⟩, rfl⟩
  case destroy  =>
    rw [serve]
    split
    case h_1 => exact ⟨h, rfl⟩
    case h_2 => exact ⟨⟨h.epfd, h.listenFd, h.wakeFd, h.sigFd⟩, rfl⟩

theorem serves_ready (h : p.Ready) :
    (acts.foldl serve p).Ready ∧ (acts.foldl serve p).wakeFd = p.wakeFd := by
  induction acts generalizing p
  case nil => exact ⟨h, rfl⟩
  case cons x _ hi =>
    obtain ⟨hr, hw⟩ := serve_ready (x := x) h
    exact ⟨(hi hr).1, (hi hr).2.trans hw⟩

-- What is left open: the wake descriptor, if a thread may still use it.
def leaked (cfg : Settings) (a : StartAnswers) (detached : Bool) (p : Process) : List Nat :=
  if (p.start cfg a).1 && detached then (p.start cfg a).2.wakeFd.owned else []

theorem finish_holds (h : p.Owns base) :
    Holds base ((p.finish true).owned ++ p.wakeFd.owned) (p.finish true).table := by
  refine h.perm (perm_of_count fun n => ?_)
  simp only [owned, finish, ite_true, Handle.owned, Option.toList_none, List.count_append,
    List.count_nil]
  omega

theorem life_holds {failed detached : Bool} (h : p.Owns base) :
    Holds base (p.leaked cfg a detached) (p.life cfg a acts failed detached).2.table := by
  have hs : (p.start cfg a).2.Owns base := start_owns h
  have hn {q : Process} (hq : q.Owns base) : Holds base [] q.destroy.table :=
    destroy_holds (by rw [List.append_nil]; exact hq)
  cases ho : (p.start cfg a).1
  case false =>
    simp only [life, leaked, ho, Bool.not_false, ite_true, Bool.false_and, Bool.false_eq_true,
      ite_false]
    exact hn hs
  case true  =>
    have hq : (acts.foldl serve (p.start cfg a).2).Owns base := serves_owns hs
    have hw : (acts.foldl serve (p.start cfg a).2).wakeFd = (p.start cfg a).2.wakeFd :=
      (serves_ready (start_ready ho)).2
    simp only [life, leaked, ho, Bool.not_true, Bool.true_and, Bool.false_eq_true, ite_false]
    cases detached
    case false => exact hn hq
    case true  =>
      rw [if_pos rfl, ← hw]
      exact destroy_holds (finish_holds hq)

-- The event loop can tell its descriptors apart by their numbers, in whatever order sockets come and
-- go, and nothing but the process had open before is left open in the end: every descriptor has been
-- closed once, wherever the start has failed. The only exception is made for a thread that is left
-- behind.
structure Balanced (base : List Nat) (cfg : Settings) (a : StartAnswers) (acts : List SocketAct)
    (failed detached : Bool) (p : Process) : Prop where
  distinct : (p.start cfg a).1 → (acts.foldl serve (p.start cfg a).2).Ready ∧
    ((acts.foldl serve (p.start cfg a).2).owned ++ base).Nodup
  faults   : (p.life cfg a acts failed detached).2.table.faults = []
  opened   : (p.life cfg a acts failed detached).2.table.opened.Perm (p.leaked cfg a detached ++ base)

theorem descriptors_balanced (cfg : Settings) (a : StartAnswers) (acts : List SocketAct)
    (failed detached : Bool) (p : Process) (h : p.Owns base) :
    p.Balanced base cfg a acts failed detached where
  distinct ho := by
    have hq : (acts.foldl serve (p.start cfg a).2).Owns base := serves_owns (start_owns h)
    exact ⟨(serves_ready (start_ready ho)).1, hq.opened.nodup_iff.mp hq.nodup⟩
  faults      := (life_holds h).faults
  opened      := (life_holds h).opened

-- The socket of the listener cannot be bound while a file is open that the process got from its
-- parent; later the same settings work, and two connections come and go.
theorem descriptors_balanced_retry :
    let a : StartAnswers := { inetPton := fun _ _ => true, getsockname := some 80, file := { written := some 3 } }
    let p : Process := { table := { opened := [2, 0, 1] }, files := fun _ => none }
    (p.start {} { a with bind := false }).2.owned = [5, 4, 3] ∧
      p.Balanced [2, 0, 1] {} { a with bind := false } [] false false ∧
      (p.start {} a).2.owned = [5, 4, 6, 3] ∧
      p.Balanced [2, 0, 1] {} a [.accept, .accept, .destroy 1, .turnAway] false true := by
  intro a p
  have h : p.Owns [2, 0, 1] := ⟨.refl _, by decide, rfl⟩
  exact ⟨by decide, descriptors_balanced _ _ _ _ _ p h, by decide, descriptors_balanced _ _ _ _ _ p h⟩

theorem tmp_ne (path : Bytes) : tmp path ≠ path := by
  intro h
  have hl := congrArg List.length h
  simp [tmp, ascii] at hl

variable {text : Bytes} {fd : Nat} {b : FileAnswers} {cs : List FileCall}

-- Until the file is put in place only the temporary one changes.
theorem calls_files {name : Bytes} (hn : name ≠ tmp path) (hr : .rename ∉ cs) :
    (cs.foldl (apply path text fd) p).files name = p.files name := by
  induction cs generalizing p
  case nil => rfl
  case cons c cs hi =>
    simp only [List.mem_cons, not_or] at hr
    refine (hi hr.2).trans ?_
    cases c
    case rename => exact absurd rfl hr.1
    case close  => rfl
    all_goals exact if_neg hn

-- All calls succeed, and none of the text is missing.
def complete (b : FileAnswers) (text : Bytes) : Bool :=
  b.opened && b.written = some text.length && b.renamed

-- The calls up to the one that puts the file in place.
def filled (text : Bytes) : List FileCall :=
  [.creat, .write text.length, .close]

theorem fileCalls_complete (h : complete b text) :
    fileCalls text b = filled text ++ [.rename] := by
  simp only [complete, Bool.and_eq_true, decide_eq_true_eq] at h
  simp [fileCalls, filled, h]

theorem fileCalls_incomplete (h : complete b text = false) :
    .rename ∉ fileCalls text b := by
  rw [fileCalls]
  split
  case isTrue    => simp
  case isFalse ho =>
    have hr : (decide (b.written = some text.length) && b.renamed) = false := by
      have ho : b.opened = true := by simpa using ho
      simpa [complete, Bool.and_assoc, ho] using h
    rw [hr]
    cases b.written <;> simp

-- What the whole sequence of calls leaves.
theorem calls_complete :
    ((filled text ++ [FileCall.rename]).foldl (apply path text fd) p).files path = some text := by
  simp [filled, apply, setFile, (tmp_ne path).symm]

theorem calls_others {name : Bytes} (hn : name ≠ path) (ht : name ≠ tmp path) :
    (cs.foldl (apply path text fd) p).files name = p.files name := by
  induction cs generalizing p
  case nil => rfl
  case cons c cs hi =>
    refine hi.trans ?_
    cases c
    case close  => rfl
    case rename => exact (if_neg ht).trans (if_neg hn)
    all_goals exact if_neg ht

-- Whoever looks at the port file, at any time, finds what was there before or all of the new text, and
-- no other file is touched but the temporary one.
structure Seen (path text : Bytes) (p q : Process) : Prop where
  port   : q.files path = p.files path ∨ q.files path = some text
  others : ∀ name, name ≠ path → name ≠ tmp path → q.files name = p.files name

theorem port_file_atomic (path : Bytes) (port : Nat) (b : FileAnswers) (p : Process) :
    (∀ cs, cs <+: fileCalls (portText port) b →
      Seen path (portText port) p (cs.foldl (apply path (portText port) p.table.alloc.1) p)) ∧
    (p.writePortFile path port b).files path =
      if complete b (portText port) then some (portText port) else p.files path := by
  have ho := (tmp_ne path).symm
  cases hc : complete b (portText port)
  case false =>
    have hr := fileCalls_incomplete hc
    refine ⟨fun cs hp => ⟨.inl (calls_files ho fun hm => hr (hp.subset hm)), fun _ => calls_others⟩, ?_⟩
    exact calls_files ho hr
  case true =>
    rw [writePortFile, fileCalls_complete hc]
    refine ⟨fun cs hp => ⟨?_, fun _ => calls_others⟩, calls_complete⟩
    rcases List.prefix_concat_iff.mp hp with rfl | hp
    case inl => exact .inr calls_complete
    case inr => exact .inl (calls_files ho fun hm => by simpa [filled] using hp.subset hm)

end Http.Process
