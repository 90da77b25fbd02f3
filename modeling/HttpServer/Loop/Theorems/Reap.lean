import HttpServer.Loop.Theorems.Descriptors
import HttpServer.Loop.Theorems.InFlight

namespace Http

-- The tick is over, or it was not due.
def Pc.ticked : Pc → Bool
  | shutdownComplete | queueSize | completionsPending | deadline | wait => true
  | _                                                                   => false

namespace Connection

variable {cfg : Config} {c c' : Connection} {as : List Act}

theorem finished_iff : c.finished ↔
    c.alive = false ∨ c.closeAfter ∧ c.inFlight = false ∧ c.output = [] := by
  cases ha : c.alive <;> simp [finished, ha, and_assoc, and_comm (a := c.inFlight = false)]

theorem finished_wantRead (h : c.finished) : c.wantRead cfg = false := by
  rcases finished_iff.mp h with h | h <;> simp [wantRead, h]

theorem Idle.unfinished (h : c.Idle) : ¬c.finished := by
  simp [finished, h.alive, h.opens]

-- Nothing but a timeout gets a connection going again.
theorem Move.finished {a : Option Act} (hm : Move cfg c a c') (h : c.finished)
    (hr : a ≠ some .refuse) : c'.finished := by
  have hf := finished_iff.mp h
  rw [finished_iff]
  cases hm
  case send ha ho _      => simp [ha, ho] at hf
  case kill              => exact .inl rfl
  case append hw _       => simp [finished_wantRead h] at hw
  case eof hw            => simp [finished_wantRead h] at hw
  case more hi _ | expect hi _ | submit hi _ | overload hi _ => exact absurd h hi.unfinished
  case overflow | malformed | tooLarge | timeout => exact absurd rfl hr
  case answer ha hi _    => simp [ha, hi] at hf
  case close hi ho _     => exact .inr ⟨rfl, hi, ho⟩
  case hangup            => exact hf.imp_right fun hf => ⟨rfl, hf.2⟩
  case drain | mask      => exact hf

theorem Moves.finished (hm : Moves cfg c as c') (h : c.finished) (hr : .refuse ∉ as) :
    c'.finished := by
  induction hm
  case refl => exact h
  case head hm _ hi =>
    simp only [List.mem_append, not_or, Option.mem_toList] at hr
    exact hi (hm.finished h hr.1) hr.2

end Connection

namespace System

open Transition
open Connection hiding refuses

variable {cfg : Config} {a : Answers} {s s' : System} {c c' : Connection} {id : ConnId} {fd : Fd}
variable {x : Action} {p : Pc} {now : Time}

-- What is to be destroyed is finished.
structure Doomed (s : System) : Prop where
  le   : ∀ {fd id}, (fd, id) ∈ s.reaps → id ≤ s.lastConnId
  done : ∀ {fd id c}, (fd, id) ∈ s.reaps → s.heap id = some c → c.finished

-- The tick finds no connection that has been finished for longer, except in a shutdown.
theorem Registry.punctual (h : s.Registry) (hw : s.Swept) (hp : s.pc = .timer)
    (he : (fd, id) ∈ s.reaps) (hc : s.heap id = some c) : c.draining := by
  have ⟨hm, _⟩ := hw.timer hp _ he
  cases hd : s.draining
  case false => simp [hw.idle (by simp [hp, Pc.swept]) hd] at he
  case true  => exact h.draining hd hm hc

theorem Callback.finished (h : Callback cfg s c x c') (hf : c.finished)
    (hd : s.pc = .timer → c.draining) : c'.finished := by
  have ⟨_, ha⟩ := h.acts
  refine ha.moves.finished hf fun hr => ?_
  have hr := ha.refuse hr
  cases x
  case worker => cases hr
  case loop a =>
    simp only [refuses, refusesRead, finished_wantRead hf, Bool.false_and, Bool.and_false,
      Bool.false_or, Bool.and_eq_true, decide_eq_true_eq] at hr
    simp [timesOut, hd hr.1.1] at hr

theorem Doomed.step (h : s.Doomed) (hr : s.Registry) (hw : s.Swept) (hk : x.modKnown)
    (hs : Http.step cfg s x = some s') : s'.Doomed where
  le he := by
    rcases hr.listing hs he with he | ⟨_, hc, _⟩
    case inl => exact Nat.le_trans (h.le he) (step_lastConnId hs)
    case inr => exact (hr.step hs).keyed.le hc
  done he hc := by
    rcases hr.listing hs he with he | ⟨_, hc', _, hf⟩
    case inl =>
      have ⟨c, hn, hb⟩ := step_heap hr.keyed hs hc
      have hn := hn.old (h.le he)
      exact hb.finished (h.done he hn) fun hp => hr.punctual hw hp he hn
    case inr =>
      cases hc'.symm.trans hc
      exact hf.resolve_right (by simp [hk])

theorem Doomed.reaches {ok : System → Action → Prop} {started : Nat}
    (hk : ∀ {s x}, ok s x → x.modKnown)
    (h : Reaches (Http.step cfg) ok (init cfg started now) s) : s.Doomed :=
  h.invariant ⟨by simp [init], by simp [init]⟩
    fun hr hi ha hs => hi.step (.reaches hr) (.reaches hr) (hk ha) hs

-- A connection that nothing is owed to: it was killed, or all its requests have been answered and
-- the answers been sent.
def Paid (c : Connection) : Prop :=
  c.alive = false ∨ c.closeAfter ∧ c.inFlight = false ∧ c.output = [] ∧
    c.results.length = c.submissions.length ∧
    c.log.flatMap Entry.queued = c.log.flatMap Entry.handed

theorem Tracked.paid (h : Tracked cfg s) (hc : s.heap id = some c) (hf : c.finished) : Paid c := by
  cases ha : c.alive
  case false => exact .inl ha
  case true  =>
    have ⟨ph, hp, _⟩ := h.follows hc
    have ⟨hca, hi, ho⟩ := (finished_iff.mp hf).resolve_left (by simp [ha])
    have hj : ph.jobs = [] := by
      have hm := hp.flags ha
      cases ph <;> simp_all [Matches]
    have hr := hp.history.results
    rw [hj, List.append_nil] at hr
    have hw := hp.wire ha
    rw [ho, List.append_nil] at hw
    exact .inr ⟨hca, hi, ho, by simp [submissions, results, hr], hw⟩

theorem reaped_paid (cfg : Config) (started : Nat) (now : Time)
    (h : Reaches (Http.step cfg) (fun s x => x.modKnown ∧ s.allocates cfg x)
      (init cfg started now) s)
    (hs : step cfg s x = some s') (he : (fd, id) ∈ s.conns) (hn : (fd, id) ∉ s'.conns) :
    ∃ t c, Reaping s t ∧ t.heap id = some c ∧ Paid c := by
  have hx := Exclusive.reaches And.right h
  have hd := Doomed.reaches And.left h
  obtain ⟨t, ht, ⟨i, hl⟩, -⟩ := step_erases hs he hn
  have ⟨c, hc, _⟩ := hx.registry.stored he
  cases ht
  case all =>
    refine ⟨_, c.kill, .all ‹_›, ?_, .inl rfl⟩
    have hk : (s.mapConns (·.kill)).heap id = some c.kill := by rw [mapConns_listed he, hc]; rfl
    exact hk
  case list hp =>
    cases hx.own hl he
    exact ⟨s, c, .list hp, hc, (Tracked.reaches h).paid hc (hd.done hl hc)⟩

-- The connection is closed after the response to its only request.
def closeServed : List Action :=
  asked "GET / HTTP/1.1\r\nConnection: close\r\n\r\n" ++
    (served [.accepted 1000]).take 13

theorem reaped_paid_answered :
    ∃ s s' c, step {} s (.loop {}) = some s' ∧ s.conns = [(7, 1)] ∧ s'.conns = [] ∧
      s.heap 1 = some c ∧ c.results.length = 1 ∧ ∃ t c, Reaping s t ∧ t.heap 1 = some c ∧ Paid c := by
  have ⟨s, _, hr, hm, ⟨c, hc, hl⟩, s', hs, hn⟩ := exec_any (Http.step {})
    (fun s x => x.modKnown ∧ s.allocates {} x) (init {} 1 0) closeServed
    (fun s => s.conns = [(7, 1)] ∧ (∃ c ∈ s.heap 1, c.results.length = 1) ∧
      ∃ s' ∈ step {} s (.loop {}), s'.conns = []) (by decide +kernel)
  have he : ((7 : Fd), 1) ∈ s.conns := by simp [hm]
  exact ⟨s, s', c, hs, hm, hn, hc, hl, reaped_paid {} 1 0 hr hs he (by simp [hn])⟩

-- No connection that is dead or finished is left in `conns_`.
def NoneLingers (s : System) : Prop :=
  ∀ fd id c, (fd, id) ∈ s.conns → s.heap id = some c → c.alive ∧ c.finished = false

-- The loop starts the shutdown here.
def begins (s : System) : Bool :=
  s.pc = .beginDrain && s.shutdownRequested && !s.draining

-- Only the start of a shutdown makes the loop drain.
theorem step_draining (hs : step cfg s x = some s') (hd : s.draining = false) :
    s'.draining = false ∨ s'.pc = .timer ∧ s.begins ∧ ∃ a, x = .loop a := by
  cases x
  case worker => cases workerStep_work hs <;> exact .inl hd
  case loop a =>
    cases loopStep_next hs
    case signal  => exact .inl ((handleSignals_books a.signals s).2.2.1.trans hd)
    case accept  => exact .inl (acceptBatch_draining.trans hd)
    case event | deliver | rescan => exact .inl (settle_books.2.2.trans hd)
    case reap    => exact .inl ((reap_draining s).trans hd)
    case drain hp =>
      cases hr : s.shutdownRequested
      case false => exact .inl (by simpa [System.goto, maybeBeginDrain, hr] using hd)
      case true  => exact .inr ⟨rfl, by simp [begins, hp, hr, hd], a, rfl⟩
    case tick    =>
      refine .inl ?_
      simp only [System.goto, tick, mapConns]
      split
      case isTrue  => exact acceptBatch_draining.trans hd
      case isFalse => exact hd
    case force   => exact .inl ((closeAll_draining s).trans hd)
    case cleanup => exact .inl ((closeAll_draining _).trans hd)
    all_goals exact .inl hd

-- Nothing is in flight for a connection, in either direction.
def isIdle (s : System) (id : ConnId) : Bool :=
  (s.heap id).any fun c => !c.inFlight && c.output.isEmpty

-- A note for the rest of an iteration: a shutdown was started in it, and an idle connection was there.
def interrupts (s : System) : Action → Bool → Bool
  | .loop _, note     => if s.pc = .beginDrain then s.begins && s.conns.any (s.isIdle ·.2) else note
  | .worker _ _, note => note

-- In the iteration that starts the shutdown a tick is due, unless no connection is idle then.
def ticksDrain (cfg : Config) (t : System × Bool) : Action → Bool
  | .loop a     => t.1.pc ≠ .timer || !t.2 || t.1.due cfg a
  | .worker _ _ => true

theorem beginDraining_finished (h : c.finished = false) (hf : c.beginDraining.finished) :
    c.inFlight = false ∧ c.output = [] := by
  simp only [beginDraining] at hf
  split at hf
  case isTrue hi => simpa using hi
  case isFalse   => simp_all [finished]

theorem Registry.clean (h : s.Registry) (hr : s.reaps = []) : s.NoneLingers := by
  intro fd id c hm hc
  have hf : c.finished = false := by
    refine Bool.eq_false_iff.mpr fun hf => ?_
    simpa [hr] using h.listed hm hc hf
  cases ha : c.alive
  case false => simp [finished_iff.mpr (.inl ha)] at hf
  case true  => exact ⟨rfl, hf⟩

-- The start of the shutdown finishes the idle connections and no other ones.
theorem maybeBeginDrain_reaps (h : s.Registry) (hr : s.reaps = []) (hp : s.pc = .beginDrain)
    (hi : (s.begins && s.conns.any (s.isIdle ·.2)) = false) :
    (s.maybeBeginDrain cfg now).reaps = [] := by
  rw [maybeBeginDrain]
  split
  case isTrue     => exact hr
  case isFalse hb =>
    have hb : s.begins := by simpa [begins, hp] using hb
    rw [hb, Bool.true_and, List.any_eq_false] at hi
    refine List.append_eq_nil_iff.mpr ⟨hr, List.filter_eq_nil_iff.mpr fun e hm hf => ?_⟩
    obtain ⟨fd, i⟩ := e
    have hm : (fd, i) ∈ s.conns := hm
    obtain ⟨c, hc, _⟩ := h.stored hm
    obtain ⟨_, hn⟩ := h.clean hr fd i c hm hc
    rw [isFinished, mapConns_listed (s := { s with draining := true, drainDeadline := _ }) hm] at hf
    dsimp only at hf
    rw [hc] at hf
    exact hi (fd, i) hm (by simpa [isIdle, hc] using beginDraining_finished hn hf)

theorem Goto.ticked (h : Goto cfg a s p) (hq : p.ticked) :
    s.pc.ticked ∨ s.pc = .timer ∧ s.due cfg a = false := by
  cases h
  case early hp hd => exact .inr ⟨hp, hd⟩
  all_goals simp_all [Pc.ticked]

-- At the timer check nothing is left to be destroyed, except what the start of a shutdown has finished.
def Purged (t : System × Bool) : Prop :=
  t.1.pc = .timer → t.2 = false → t.1.reaps = []

theorem Purged.next {b : Bool} (hr : s.Registry) (hw : s.Swept) (hn : Next cfg a s s') :
    Purged (s', s.interrupts (.loop a) b) := by
  intro ht hi
  cases hn
  case goto hg  => cases hg <;> cases ht
  case reap     => exact reap_reaps s
  case drain hp =>
    have hi : (s.begins && s.conns.any (s.isIdle ·.2)) = false := by simpa [interrupts, hp] using hi
    exact maybeBeginDrain_reaps hr (hw.start hp) hp hi
  case event | rescan => rw [Frame.serve.pc] at ht; cases ht
  case deliver        => rw [Frame.settle.pc] at ht; cases ht
  case retry hp       => cases hp.symm.trans ht
  case counter hp     => cases hp.symm.trans ht
  all_goals cases ht

theorem unrecorded_reaches {ok : System × Bool → Action → Prop} {started : Nat} {t : System × Bool}
    (h : Reaches (recorded (Http.step cfg) interrupts) ok (init cfg started now, false) t) :
    Reaches (Http.step cfg) (fun _ _ => True) (init cfg started now) t.1 :=
  h.unrecorded fun _ => trivial

theorem Purged.reaches {ok : System × Bool → Action → Prop} {started : Nat} {t : System × Bool}
    (h : Reaches (recorded (Http.step cfg) interrupts) ok (init cfg started now, false) t) :
    Purged t := by
  refine h.invariant (fun _ _ => rfl) fun {t x _} ht hi _ hs => ?_
  rw [recorded, Option.map_eq_some_iff] at hs
  obtain ⟨_, hs, rfl⟩ := hs
  cases x
  case worker => cases workerStep_work hs <;> exact hi
  case loop   =>
    have hr := unrecorded_reaches ht
    exact .next (.reaches hr) (.reaches hr) (loopStep_next hs)

-- Whatever an iteration has finished before a shutdown may start is gone then.
theorem beginDrain_clean {ok : System → Action → Prop} {started : Nat}
    (h : Reaches (Http.step cfg) ok (init cfg started now) s) (hp : s.pc = .beginDrain) :
    s.NoneLingers :=
  (Registry.reaches h).clean ((Swept.reaches h).start hp)

-- It still is at the timer check, unless a shutdown has been started that finished a connection.
theorem timer_clean {ok : System → Action → Prop} {started : Nat}
    (h : Reaches (Http.step cfg) ok (init cfg started now) s) (hp : s.pc = .timer) :
    s.NoneLingers ∨ Reaches (recorded (Http.step cfg) interrupts) (fun t x => ok t.1 x)
      (init cfg started now, false) (s, true) := by
  obtain ⟨note, hr⟩ := h.annotated interrupts false
  cases note
  case false => exact .inl ((Registry.reaches h).clean (Purged.reaches hr hp rfl))
  case true  => exact .inr hr

-- Between the timer check and the next wait nothing is left to be destroyed.
def Cleared (s : System) : Prop :=
  s.pc.ticked → s.reaps = []

theorem Cleared.step {b : Bool} (h : s.Cleared) (hc : Purged (s, b)) (hk : ticksDrain cfg (s, b) x)
    (hs : Http.step cfg s x = some s') : s'.Cleared := by
  cases x
  case worker => cases workerStep_work hs <;> exact h
  case loop a =>
    cases loopStep_next hs
    case goto p hg =>
      intro hp
      rcases hg.ticked hp with ht | ⟨ht, hd⟩
      case inl => exact h ht
      case inr => exact hc ht (by simpa [ticksDrain, ht, hd] using hk)
    case retry          => exact h
    case counter hp     => intro ht; simp [hp, Pc.ticked] at ht
    case reap           => exact fun _ => reap_reaps s
    case event | rescan => intro ht; rw [Frame.serve.pc] at ht; cases ht
    case deliver        => intro ht; rw [Frame.settle.pc] at ht; cases ht
    all_goals exact fun ht => by cases ht

theorem none_lingers (cfg : Config) (started : Nat) (now : Time) {note : Bool}
    (h : Reaches (recorded (Http.step cfg) interrupts) (fun t x => ticksDrain cfg t x)
      (init cfg started now, false) (s, note))
    (hp : s.pc = .wait) : s.NoneLingers := by
  have hc : s.Cleared := by
    refine h.invariant (P := fun t => t.1.Cleared) (fun _ => rfl) fun ht hi hk hs => ?_
    rw [recorded, Option.map_eq_some_iff] at hs
    obtain ⟨_, hs, rfl⟩ := hs
    exact hi.step (.reaches ht) hk hs
  exact (Registry.reaches (unrecorded_reaches h)).clean (hc (by simp [hp, Pc.ticked]))

-- The server shuts down while a request is in flight, and no tick is due.
def drainBusy : List Action :=
  asked "GET / HTTP/1.1\r\n\r\n" ++ sigterm

theorem none_lingers_busy :
    ∃ t c, exec (recorded (Http.step {}) interrupts) (fun t x => ticksDrain {} t x)
      (init {} 1 0, false) drainBusy = some t ∧
      t.1.draining ∧ t.1.conns = [(7, 1)] ∧ t.1.heap 1 = some c ∧ c.inFlight ∧ c.alive ∧
      c.finished = false := by
  have ⟨t, hs, hr, hw, hd, hm, c, hc, hi⟩ := exec_any (recorded (Http.step {}) interrupts)
    (fun t x => ticksDrain {} t x) (init {} 1 0, false) drainBusy
    (fun t => t.1.pc = .wait ∧ t.1.draining ∧ t.1.conns = [(7, 1)] ∧ ∃ c ∈ t.1.heap 1, c.inFlight)
    (by decide +kernel)
  exact ⟨t, c, hs, hd, hm, hc, hi, none_lingers {} 1 0 hr hw 7 1 c (by simp [hm]) hc⟩

-- The server shuts down while a connection is idle, and no tick is due.
def drainIdle : List Action :=
  client ++ sigterm

theorem drained_lingers :
    ¬∀ s, Reaches (Http.step {}) (fun _ _ => True) (init {} 1 0) s → s.pc = .wait →
      s.NoneLingers := by
  have ⟨s, _, hr, hw, hm, c, hc, hf⟩ := exec_any (Http.step {}) (fun _ _ => True) (init {} 1 0)
    drainIdle (fun s => s.pc = .wait ∧ s.conns = [(7, 1)] ∧ ∃ c ∈ s.heap 1, c.finished)
    (by decide +kernel)
  intro hn
  have ⟨_, hx⟩ := hn s hr hw 7 1 c (by simp [hm]) hc
  simp [hf] at hx

end System
end Http
