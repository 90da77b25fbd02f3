import HttpServer.Connection.Theorems.Moves

namespace Http.Connection

-- What a callback takes from the clocks: the time at which bytes were last sent or received, and
-- the date of a response.
structure Stamped (io : Io) (c c' : Connection) : Prop where
  time : c'.lastActivity = c.lastActivity ∨ c'.lastActivity = io.now
  date : ∀ o d r, .final o d r ∈ c'.log → .final o d r ∈ c.log ∨ d = io.date

variable {cfg : Config} {c c' c'' : Connection} {io io' : Io} {env : Env} {now : Time}

theorem Drains.clock {fuel : Nat} {r : Connection × Env} (hd : Drains cfg fuel c env r) :
    r.2.io.now = env.io.now ∧ r.2.io.date = env.io.date := by
  induction hd
  case expect hi => exact hi
  all_goals exact ⟨rfl, rfl⟩

theorem onReadable_clock : (c.onReadable cfg env).2.io.now = env.io.now ∧
    (c.onReadable cfg env).2.io.date = env.io.date := by
  have ho := onReadable_cases cfg c env
  generalize c.onReadable cfg env = r at ho ⊢
  cases ho
  case serve hd _     => exact hd.clock
  case close hd _ _ _ => exact hd.clock
  all_goals exact ⟨rfl, rfl⟩

namespace Stamped

theorem same (ht : c'.lastActivity = c.lastActivity) (hl : c'.log = c.log) : Stamped io c c' :=
  ⟨.inl ht, fun _ _ _ h => .inl (hl ▸ h)⟩

theorem refl : Stamped io c c :=
  .same rfl rfl

theorem trans (h : Stamped io c c') (h' : Stamped io c' c'') : Stamped io c c'' where
  time := by
    rcases h'.time with ht | ht
    case inl => rw [ht]; exact h.time
    case inr => exact .inr ht
  date o d r hm := (h'.date o d r hm).elim (h.date o d r) .inr

-- Sending and receiving do not change what the clocks show.
theorem clock (h : Stamped io' c c') (hn : io'.now = io.now) (hd : io'.date = io.date) :
    Stamped io c c' :=
  ⟨hn ▸ h.time, hd ▸ h.date⟩

-- The history goes on with something else than a response.
theorem entries (es : List Entry)
    (ht : c'.lastActivity = c.lastActivity ∨ c'.lastActivity = io.now)
    (hl : c'.log = c.log ++ es) (he : ∀ o d r, .final o d r ∉ es) : Stamped io c c' := by
  refine ⟨ht, fun o d r hm => .inl ?_⟩
  rw [hl] at hm
  exact (List.mem_append.mp hm).resolve_right (he o d r)

theorem respond {o : Origin} {res : Response} (h : Stamped io c c') :
    Stamped io c (c'.queueResponse io.date o res) := by
  refine h.trans ⟨.inl rfl, fun o d r hm => ?_⟩
  rcases List.mem_append.mp hm with hm | hm
  case inl => exact .inl hm
  case inr =>
    cases List.mem_singleton.mp hm
    exact .inr rfl

theorem refuse {o : Origin} {status : Nat} {detail : String} (h : Stamped io c c') :
    Stamped io c (c'.queueError io.date o status detail) :=
  ⟨h.time, h.respond.date⟩

theorem flushLoop (sends : List Send) : Stamped io c (flushLoop io.now sends c).1 := by
  induction sends generalizing c
  case nil => exact .refl
  case cons s sends hi =>
    simp only [Connection.flushLoop]
    repeat' split
    case h_1.isTrue n _ =>
      have hc : Stamped io c (c.consume n io.now) := .entries [.sent _] (.inr rfl) rfl (by simp)
      exact hc.trans hi
    case h_2 => exact hi
    all_goals exact .same rfl rfl

theorem flush (h : Stamped io c c') : Stamped io c (c'.flush io).1 :=
  h.trans (flushLoop io.sends)

theorem receive {recvs : List Recv} {e : ReadEnd} (hr : receive cfg io.now recvs c = (c', e)) :
    Stamped io c c' := by
  have ha {bs : Bytes} {d : Connection} : Stamped io d (d.append bs io.now) :=
    .entries [.received _] (.inr rfl) rfl (by simp)
  fun_induction Connection.receive
  case case4 =>
    rw [← (Prod.mk.inj hr).1]
    exact ha
  case case5 hi => exact ha.trans (hi hr)
  case case6 hi => exact hi hr
  all_goals
    rw [← (Prod.mk.inj hr).1]
    exact .same rfl rfl

theorem drains {fuel : Nat} {r : Connection × Env} (hd : Drains cfg fuel c env r) :
    Stamped env.io c r.1 := by
  induction hd
  case spent | stop => exact .refl
  case more         => exact .same rfl rfl
  case expect hi =>
    refine (flush ?_).trans (hi.clock rfl rfl)
    exact .entries [.interim] (.inl rfl) rfl (by simp)
  case malformed | tooLarge =>
    refine (refuse ?_).flush
    exact .same rfl rfl
  case submit => exact .entries [.parsed _, .submitted _] (.inl rfl) (List.append_assoc ..) (by simp)
  case overload =>
    refine refuse ?_
    exact .entries [.parsed _] (.inl rfl) rfl (by simp)

theorem onReadable : Stamped env.io c (c.onReadable cfg env).1 := by
  have ho := onReadable_cases cfg c env
  generalize c.onReadable cfg env = r at ho ⊢
  cases ho
  case skip              => exact .refl
  case overflow hr       => exact (receive hr).refuse.flush
  case failed hr         => exact (receive hr).trans (.same rfl rfl)
  case serve hr hx _     => exact (receive hr).trans (drains hx)
  case close hr hx _ _ _ => exact ((receive hr).trans (drains hx)).trans (.same rfl rfl)

theorem onWorkerResult {x : Completion} : Stamped io c (c.onWorkerResult x io).1 := by
  have hf : Stamped io c { c with inFlight := false } := .same rfl rfl
  simp only [Connection.onWorkerResult]
  repeat' split
  case isFalse.isFalse => exact hf.respond.flush
  all_goals exact .refl

theorem onHangup {err : Bool} : Stamped io c (c.onHangup err io).1 := by
  have hc : Stamped io c { c with peerEof := true, closeAfter := true } := .same rfl rfl
  rw [Connection.onHangup]
  split
  case isTrue  => exact .same rfl rfl
  case isFalse => exact hc.flush

theorem onTick : Stamped io c (c.onTick cfg now io).1 := by
  rcases onTick_cases cfg now c io with he | ⟨_, _, _, he⟩ | he | ⟨_, he⟩ <;> rw [he]
  case inr.inr.inr => exact refl.refuse.flush
  all_goals exact .same rfl rfl

theorem beginDraining : Stamped io c c.beginDraining := by
  rw [Connection.beginDraining]
  split <;> exact .same rfl rfl

end Stamped
end Http.Connection
