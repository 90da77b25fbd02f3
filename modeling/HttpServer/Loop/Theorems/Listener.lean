import HttpServer.Loop.Theorems.Descriptors

namespace Http

namespace Accept

-- A batch returns when `accept4` answers so.
def isLast : Accept → Bool
  | eagain | emfile | error => true
  | _                       => false

def isError : Accept → Bool
  | error => true
  | _     => false

-- The answers that a batch of at most `n` calls gets. Where none is given the queue is empty.
def calls : Nat → List Accept → List Accept
  | 0, _                => []
  | _ + 1, []           => [eagain]
  | n + 1, a :: accepts => if a.isLast then [a] else a :: calls n accepts

-- The answer on which a batch returns is an error that it does not expect.
def fails (n : Nat) (accepts : List Accept) : Bool :=
  ((accepts.take n).find? isLast).any isError

variable {n : Nat} {a : Accept} {accepts : List Accept}

theorem calls_ends (ha : a.isLast) : calls (n + 1) (a :: accepts) = [a] := by
  simp [calls, ha]

theorem fails_ends (ha : a.isLast) : fails (n + 1) (a :: accepts) = a.isError := by
  simp [fails, ha]

theorem fails_skips (ha : a.isLast = false) : fails (n + 1) (a :: accepts) = fails n accepts := by
  simp [fails, ha]

-- An answer on which the batch goes on is not the last one.
theorem calls_skips (ha : a.isLast = false) :
    (calls (n + 1) (a :: accepts)).getLast? = some eagain ↔
      (calls n accepts).getLast? = some eagain := by
  simp only [calls, ha, Bool.false_eq_true, if_false]
  cases hc : calls n accepts
  case nil =>
    have hn : a ≠ eagain := by rintro rfl; cases ha
    simpa using hn
  case cons => rw [List.getLast?_cons_cons]

end Accept

-- The accept queue of the listener: the clients in it, which are numbered as they arrive, how many
-- have arrived, and how many of these before the listener was last reported.
structure Backlog where
  queue   : List Nat
  arrived : Nat
  edge    : Nat
  edge_le : edge ≤ arrived

-- What can happen to the queue during a step: a client arrives, the `i`-th one in it leaves, and
-- the next call of `accept4` is answered.
inductive Happening
  | arrives
  | leaves (i : Nat)
  | answered

namespace Backlog

-- The queue with the clients that came before the loop was entered.
def new (n : Nat) : Backlog where
  queue   := .range n
  arrived := n
  edge    := 0
  edge_le := n.zero_le

-- There is a client in the queue whose arrival was reported.
def stale (b : Backlog) : Bool :=
  b.queue.any (· < b.edge)

def arrive (b : Backlog) : Backlog where
  queue   := b.queue ++ [b.arrived]
  arrived := b.arrived + 1
  edge    := b.edge
  edge_le := Nat.le_succ_of_le b.edge_le

def leave (b : Backlog) (i : Nat) : Backlog :=
  { b with queue := b.queue.eraseIdx i }

def report (b : Backlog) : Backlog where
  queue   := b.queue
  arrived := b.arrived
  edge    := b.arrived
  edge_le := Nat.le_refl _

-- A socket is that of the first client, and `EAGAIN` says that there is none.
def answer (b : Backlog) : Accept → Option Backlog
  | .client _ _ => if b.queue.isEmpty then none else some (b.leave 0)
  | .eagain     => if b.queue.isEmpty then some b else none
  | _           => some b

-- A step in which `accept4` is called once for each of the answers.
def run : List Happening → List Accept → Backlog → Option Backlog
  | [], [], b                   => some b
  | .arrives :: hs, as, b       => run hs as b.arrive
  | .leaves i :: hs, as, b      => run hs as (b.leave i)
  | .answered :: hs, a :: as, b => (b.answer a).bind fun b => run hs as b
  | .answered :: _, [], _       => none
  | [], _ :: _, _               => none

variable {b b' : Backlog} {hs : List Happening} {as : List Accept}

theorem arrive_stale : b.arrive.stale = b.stale := by
  have hn : ¬b.arrived < b.edge := Nat.not_lt.mpr b.edge_le
  show (b.queue ++ [b.arrived]).any (· < b.edge) = _
  simp [stale, hn]

theorem leave_stale {i : Nat} (h : (b.leave i).stale) : b.stale := by
  simp only [stale, leave, List.any_eq_true] at h ⊢
  have ⟨k, hk, he⟩ := h
  exact ⟨k, List.mem_of_mem_eraseIdx hk, he⟩

theorem answer_stale {a : Accept} (h : b.answer a = some b') (hb : b'.stale) : b.stale := by
  simp only [answer] at h
  split at h
  case h_1 =>
    split at h <;> cases h
    exact leave_stale hb
  case h_2 => split at h <;> cases h; exact hb
  case h_3 => cases h; exact hb

theorem answer_eagain (h : b.answer .eagain = some b') : ¬b'.stale := by
  simp only [answer] at h
  split at h <;> cases h
  case isTrue he => simp [stale, List.isEmpty_iff.mp he]

-- Whoever arrives later is not among those whose arrival was reported.
theorem run_stale (h : b.run hs as = some b') (hb : b'.stale) : b.stale := by
  fun_induction run
  case case1         => cases h; exact hb
  case case2 hi      => exact arrive_stale ▸ hi h
  case case3 hi      => exact leave_stale (hi h)
  case case4 hi      =>
    have ⟨_, ha, h⟩ := Option.bind_eq_some_iff.mp h
    exact answer_stale ha (hi _ h)
  case case5 | case6 => cases h

-- If the last call has seen the queue empty, then none of those is left.
theorem run_eagain (h : b.run hs as = some b') (ha : as.getLast? = some .eagain) : ¬b'.stale := by
  fun_induction run
  case case1               => cases ha
  case case2 hi | case3 hi => exact hi h ha
  case case4 as _ hi       =>
    have ⟨b₁, hb, hr⟩ := Option.bind_eq_some_iff.mp h
    cases as
    case nil =>
      cases ha
      exact fun hs => answer_eagain hb (run_stale hr hs)
    case cons => exact hi b₁ hr (by rwa [List.getLast?_cons_cons] at ha)
  case case5 | case6       => cases h

end Backlog

namespace System

open Transition

-- The batch of a step: whether `accept_retry_` is set when it starts, and what `accept4` answers.
def batch (cfg : Config) (s : System) : Action → Option (Bool × List Accept)
  | .loop a     => match s.pc with
    | .dispatch (.listener :: _) => some (s.acceptRetry, a.accepts)
    | .timer => if s.due cfg a && s.acceptRetry then some (false, a.accepts) else none
    | _      => none
  | .worker _ _ => none

-- The calls of `accept4` in a step.
def accepts (cfg : Config) (s : System) (x : Action) : List Accept :=
  (s.batch cfg x).elim [] fun e => Accept.calls kAcceptBatch e.2

-- No batch forgets the queue: it does not fail, or it starts with `accept_retry_` set.
def remembers (cfg : Config) (s : System) (x : Action) : Bool :=
  (s.batch cfg x).all fun e => e.1 || !Accept.fails kAcceptBatch e.2

-- The step is an `epoll_wait` that reports the listener.
def reports (s : System) : Action → Bool
  | .loop a     => match s.pc, a.waited with
    | .wait, .ready evs => (evs.take kMaxEvents).contains .listener
    | _, _              => false
  | .worker _ _ => false

variable {cfg : Config} {a : Answers} {mod : Ctl} {s s' : System} {c : Connection} {x : Action}
variable {now : Time}

theorem settle_acceptRetry : (s.settle cfg mod c).acceptRetry = s.acceptRetry := by
  simp only [settle, setInterest]
  repeat' split
  all_goals rfl

theorem handleSignals_acceptRetry {n : Nat} :
    (s.handleSignals n).acceptRetry = s.acceptRetry := by
  induction n generalizing s
  case zero => rfl
  case succ hi =>
    simp only [handleSignals, hi]
    split <;> rfl

theorem reap_acceptRetry : s.reap.acceptRetry = s.acceptRetry := by
  simp only [reap]
  split <;> rfl

theorem maybeBeginDrain_acceptRetry :
    (s.maybeBeginDrain cfg now).acceptRetry = s.acceptRetry := by
  simp only [maybeBeginDrain]
  split <;> rfl

theorem register_acceptRetry {fd : Fd} {y : Admission} :
    (s.register cfg now fd y).acceptRetry = s.acceptRetry := by
  simp only [register]
  split <;> rfl

-- A batch has seen the queue empty or sets the flag, unless it ends in an error it does not expect.
theorem acceptBatch_heard {n : Nat} {accepts : List Accept} :
    ((Accept.calls n accepts).getLast? = some .eagain ∨
      (acceptBatch cfg now n accepts s).acceptRetry) ↔
    (s.acceptRetry ∨ ¬Accept.fails n accepts) := by
  fun_induction acceptBatch
  case case1 => simp [Accept.fails]
  case case2 n _ hn =>
    cases n
    case zero => exact absurd rfl hn
    case succ => simp [Accept.calls, Accept.fails]
  case case3 hi | case6 hi | case8 hi | case9 hi =>
    rw [Accept.calls_skips rfl, Accept.fails_skips rfl]
    exact hi
  case case10 hi =>
    rw [Accept.calls_skips rfl, Accept.fails_skips rfl, hi, register_acceptRetry]
  case case4 | case5 | case7 =>
    rw [Accept.calls_ends rfl, Accept.fails_ends rfl]
    simp [Accept.isError]

-- A step without a batch leaves the flag alone and does not skip the listener.
theorem step_unheard (hs : step cfg s x = some s') (hb : s.batch cfg x = none) :
    s'.acceptRetry = s.acceptRetry ∧ (.listener ∈ s.pc.events → .listener ∈ s'.pc.events) := by
  cases x
  case worker => cases workerStep_work hs <;> exact ⟨rfl, fun h => h⟩
  case loop a =>
    cases loopStep_next hs
    case goto hg =>
      refine ⟨rfl, fun hl => ?_⟩
      cases hg
      case stale ev evs hp =>
        cases ev <;> simp_all [Pc.events, batch]
      all_goals simp_all [Pc.events]
    case signal hp =>
      exact ⟨handleSignals_acceptRetry, fun hl => by simpa [hp, Pc.events] using hl⟩
    case accept hp => simp [batch, hp] at hb
    case event hp _ _ =>
      refine ⟨settle_acceptRetry, fun hl => ?_⟩
      rw [Frame.serve.pc]
      simpa [hp, Pc.events] using hl
    case counter hp => exact ⟨rfl, fun h => h⟩
    case deliver hp _ _ => exact ⟨settle_acceptRetry, by simp [hp, Pc.events]⟩
    case rescan hp _ _  => exact ⟨settle_acceptRetry, by simp [hp, Pc.events]⟩
    case reap hp =>
      refine ⟨reap_acceptRetry, fun hl => ?_⟩
      rcases hp with ⟨hp, _⟩ | ⟨hp, _⟩ <;> simp [hp, Pc.events] at hl
    case drain hp => exact ⟨maybeBeginDrain_acceptRetry, by simp [hp, Pc.events]⟩
    case tick hp hd =>
      have hr : s.acceptRetry = false := by simpa [batch, hp, hd] using hb
      exact ⟨by simp [tick, hr, mapConns, System.goto], by simp [hp, Pc.events]⟩
    case force hp =>
      refine ⟨reap_acceptRetry, fun hl => ?_⟩
      rcases hp with ⟨hp, _⟩ | ⟨hp, _⟩ <;> simp [hp, Pc.events] at hl
    case cleanup hp => exact ⟨reap_acceptRetry, by simp [hp, Pc.events]⟩
    all_goals exact ⟨rfl, by simp_all [Pc.events]⟩

-- The batch of a step decides about the flag.
theorem step_heard {e : Bool × List Accept} (hs : step cfg s x = some s')
    (hb : s.batch cfg x = some e) :
    ∃ now t, t.acceptRetry = e.1 ∧
      s'.acceptRetry = (acceptBatch cfg now kAcceptBatch e.2 t).acceptRetry := by
  cases x
  case worker => cases hb
  case loop a =>
    simp only [batch] at hb
    split at hb
    case h_1 hp =>
      cases hb
      simp only [step, loopStep, hp, handleEvent] at hs
      cases hs
      exact ⟨a.now, s, rfl, rfl⟩
    case h_2 hp =>
      split at hb <;> cases hb
      case isTrue hd =>
        simp only [Bool.and_eq_true] at hd
        simp only [step, loopStep, hp] at hs
        rw [if_pos (of_decide_eq_true hd.1)] at hs
        cases hs
        refine ⟨a.now, { s with lastTick := a.now, acceptRetry := false }, rfl, ?_⟩
        simp [tick, hd.2, mapConns, System.goto, hp]
    case h_3 => cases hb

theorem acceptBatch_retries {n : Nat} {accepts : List Accept} (h : s.acceptRetry) :
    (acceptBatch cfg now n accepts s).acceptRetry :=
  acceptBatch_keeps (P := fun t => t.acceptRetry) (fun _ => rfl) (fun h => h)
    (fun _ h => register_acceptRetry.trans h) h

theorem calls_ne_nil {accepts : List Accept} : Accept.calls kAcceptBatch accepts ≠ [] := by
  cases accepts <;> simp only [kAcceptBatch, Accept.calls]
  case nil  => simp
  case cons => split <;> simp

-- Only the tick clears the flag for its batch.
theorem batch_retry {e : Bool × List Accept} (hb : s.batch cfg x = some e) (hp : s.pc ≠ .timer) :
    e.1 = s.acceptRetry := by
  cases x
  case worker => cases hb
  case loop =>
    simp only [batch] at hb
    split at hb
    case h_1    => cases hb; rfl
    case h_2 ht => exact absurd ht hp
    case h_3    => cases hb

-- The flag is kept until a tick calls `accept4` again.
theorem step_retries (hs : step cfg s x = some s') (hr : s.acceptRetry) :
    s'.acceptRetry ∨ s.pc = .timer ∧ s.accepts cfg x ≠ [] := by
  cases hb : s.batch cfg x
  case none => exact .inl ((step_unheard hs hb).1 ▸ hr)
  case some e =>
    have ha : s.accepts cfg x = Accept.calls kAcceptBatch e.2 := by simp [accepts, hb]
    have ⟨_, _, ht, hq⟩ := step_heard hs hb
    by_cases hp : s.pc = .timer
    case pos => exact .inr ⟨hp, ha ▸ calls_ne_nil⟩
    case neg =>
      have he : e.1 = true := (batch_retry hb hp).trans hr
      exact .inl (hq.trans (acceptBatch_retries (ht.trans he)))

theorem step_reports (hs : step cfg s x = some s') (hr : s.reports x) :
    .listener ∈ s'.pc.events := by
  cases x
  case worker => cases hr
  case loop a =>
    simp only [reports] at hr
    split at hr
    case h_1 hp hw =>
      simp only [step, loopStep, hp, hw] at hs
      cases hs
      simpa [Pc.events] using hr
    case h_2 => cases hr

end System

-- The event loop with the accept queue of its listener.
structure Listening where
  sys     : System
  backlog : Backlog

namespace Listening

open Transition

-- A step of the loop or of a worker, and what happens to the queue in the meantime.
def step (cfg : Config) (l : Listening) (x : Action × List Happening) : Option Listening := do
  let s ← Http.step cfg l.sys x.1
  let b ← l.backlog.run x.2 (l.sys.accepts cfg x.1)
  return ⟨s, if l.sys.reports x.1 then b.report else b⟩

def init (cfg : Config) (started : Nat) (now : Time) (clients : Nat) : Listening where
  sys     := .init cfg started now
  backlog := .new clients

-- The clients whose arrival was reported are not forgotten.
def Attends (l : Listening) : Prop :=
  l.backlog.stale → l.sys.acceptRetry ∨ .listener ∈ l.sys.pc.events

variable {cfg : Config} {l l' : Listening} {x : Action × List Happening}

theorem Attends.step (h : l.Attends) (hk : l.sys.remembers cfg x.1)
    (hs : l.step cfg x = some l') : l'.Attends := by
  have ⟨s, ht, hl⟩ := Option.bind_eq_some_iff.mp hs
  have ⟨b, hr, hl⟩ := Option.bind_eq_some_iff.mp hl
  cases hl
  intro hb
  cases he : l.sys.reports x.1
  case true  => exact .inr (System.step_reports ht he)
  case false =>
    simp only [he, Bool.false_eq_true, if_false] at hb
    cases hx : l.sys.batch cfg x.1
    case none =>
      have ⟨hq, hp⟩ := System.step_unheard ht hx
      exact (h (Backlog.run_stale hr hb)).imp (hq ▸ ·) hp
    case some e =>
      have ⟨_, _, hf, hq⟩ := System.step_heard ht hx
      have hk : e.1 ∨ ¬Accept.fails kAcceptBatch e.2 := by simpa [System.remembers, hx] using hk
      rw [← hf] at hk
      rcases System.acceptBatch_heard.mpr hk with ha | ha
      case inl =>
        have hc : l.sys.accepts cfg x.1 = Accept.calls kAcceptBatch e.2 := by
          simp [System.accepts, hx]
        exact absurd hb (Backlog.run_eagain (hc ▸ hr) ha)
      case inr => exact .inl (hq.trans ha)

theorem Attends.reaches {started clients : Nat} {now : Time}
    (h : Reaches (Listening.step cfg) (fun l x => l.sys.remembers cfg x.1)
      (init cfg started now clients) l) : l.Attends := by
  refine h.invariant (fun hb => ?_) fun _ hi hk hs => hi.step hk hs
  simp [init, Backlog.new, Backlog.stale] at hb

-- Runs to evaluate: the listener is reported, and one batch is made.
def turn (accepts : List Accept) (hs : List Happening) : List (Action × List Happening) :=
  let x : Action := .loop { waited := .ready [.listener], accepts := accepts }
  (x, []) :: (x, hs) :: .replicate 9 (x, [])

-- `accept_batch` has seen the queue empty or sets `accept_retry_`, unless it returns on an error
-- that it does not expect. If that never happens, then the loop only waits for the listener when
-- `accept_retry_` is set or nobody is left in the queue whose arrival was reported.
theorem never_quiet (cfg : Config) (started clients : Nat) (now : Time) :
    (∀ now accepts s, ((Accept.calls kAcceptBatch accepts).getLast? = some .eagain ∨
        (System.acceptBatch cfg now kAcceptBatch accepts s).acceptRetry) ↔
      (s.acceptRetry ∨ ¬Accept.fails kAcceptBatch accepts)) ∧
    (∀ l, Reaches (step cfg) (fun l x => l.sys.remembers cfg x.1)
        (init cfg started now clients) l →
      l.sys.pc = .wait → l.backlog.stale → l.sys.acceptRetry) ∧
    ∀ s x s', Http.step cfg s x = some s' → s.acceptRetry →
      s'.acceptRetry ∨ s.pc = .timer ∧ s.accepts cfg x ≠ [] := by
  refine ⟨fun _ _ _ => System.acceptBatch_heard, fun l h hp hb => ?_,
    fun _ _ _ hs hr => System.step_retries hs hr⟩
  exact (Attends.reaches h hb).resolve_right (by simp [hp, Pc.events])

-- There are no more descriptors for the second one of two clients.
def exhausted : List (Action × List Happening) :=
  turn [.client 7 {}, .emfile] [.answered, .answered]

theorem never_quiet_emfile :
    ∃ l, exec (step {}) (fun l x => l.sys.remembers {} x.1) (init {} 1 0 2) exhausted = some l ∧
      l.backlog.queue = [1] ∧ l.sys.acceptRetry := by
  have ⟨l, hl, hr, hw, hq, hb⟩ := exec_any (step {}) (fun l x => l.sys.remembers {} x.1)
    (init {} 1 0 2) exhausted (fun l => l.sys.pc = .wait ∧ l.backlog.queue = [1] ∧ l.backlog.stale)
    (by decide +kernel)
  exact ⟨l, hl, hq, (never_quiet {} 1 2 0).2.1 l hr hw hb⟩

-- The first one of two clients has left an error behind, and the second one is forgotten.
def forgotten : List (Action × List Happening) :=
  turn [.error] [.answered, .leaves 0]

theorem never_quiet_error :
    ¬((Accept.calls kAcceptBatch [.error]).getLast? = some .eagain ∨
      (System.acceptBatch {} 0 kAcceptBatch [.error] (.init {} 1 0)).acceptRetry) ∧
    ∃ l, exec (step {}) (fun _ _ => True) (init {} 1 0 2) forgotten = some l ∧
      l.sys.pc = .wait ∧ l.backlog.stale ∧ ¬l.sys.acceptRetry := by
  constructor
  case left => simp [Accept.calls, System.acceptBatch, kAcceptBatch, Accept.isLast, System.init]
  case right =>
    have ⟨l, hl, _, hp⟩ := exec_any (step {}) (fun _ _ => True) (init {} 1 0 2) forgotten
      (fun l => l.sys.pc = .wait ∧ l.backlog.stale ∧ ¬l.sys.acceptRetry) (by decide +kernel)
    exact ⟨l, hl, hp⟩

end Listening
end Http
