import HttpServer.Loop.Theorems.Frame

namespace Http.System

open Transition

-- It is time for a tick.
def due (cfg : Config) (a : Answers) (s : System) : Bool :=
  a.now - s.lastTick ≥ cfg.tickMs * 1000000

-- The steps of the loop that only move on.
inductive Goto (cfg : Config) (a : Answers) (s : System) : Pc → Prop
  | ready   : s.pc = .wait → Goto cfg a s (.dispatch evs)
  | handled : s.pc = .dispatch [] → Goto cfg a s .drainCompletions
  | wake    : s.pc = .dispatch (.wake :: evs) → Goto cfg a s (.drainWake evs)
  | stale   : s.pc = .dispatch (ev :: evs) → Goto cfg a s (.dispatch evs)
  | woken   : s.pc = .drainWake evs → s.wakeCount = 0 → Goto cfg a s (.dispatch evs)
  | done    : s.pc = .deliver [] → Goto cfg a s .processRescans
  | skipped : s.pc = .rescan (i :: is) → (∀ c, s.heap i = some c → ¬c.wantRead cfg) →
    Goto cfg a s (.rescan is)
  | early   : s.pc = .timer → s.due cfg a = false → Goto cfg a s .shutdownComplete
  | running : s.pc = .shutdownComplete → s.draining = false → Goto cfg a s .wait
  | manned  : s.pc = .shutdownComplete → s.draining → s.conns ≠ [] → Goto cfg a s .deadline
  | empty   : s.pc = .shutdownComplete → s.draining → s.conns = [] → Goto cfg a s .queueSize
  | jobs    : s.pc = .queueSize → s.pool.queue ≠ [] → Goto cfg a s .deadline
  | free    : s.pc = .queueSize → s.pool.queue = [] → Goto cfg a s .completionsPending
  | results : s.pc = .completionsPending → s.completions ≠ [] → Goto cfg a s .deadline
  | drained : s.pc = .completionsPending → s.completions = [] → Goto cfg a s .stop
  | patient : s.pc = .deadline → a.now < s.drainDeadline → Goto cfg a s .wait
  | joined  : s.pc = .join → s.workers.all (· = .exited) ∨ s.forcedShutdown ∧ a.expired →
    Goto cfg a s .cleanup

-- What a step of the loop can do.
inductive Next (cfg : Config) (a : Answers) (s : System) : System → Prop
  | goto    : Goto cfg a s p → Next cfg a s (s.goto p)
  | retry   : s.pc = .wait → Next cfg a s s
  | fail    : s.pc = .wait → Next cfg a s ({ s with exitCode := 1 }.goto .stop)
  | signal  : s.pc = .dispatch (.signal :: evs) →
    Next cfg a s ((s.handleSignals a.signals).goto (.dispatch evs))
  | accept  : s.pc = .dispatch (.listener :: evs) →
    Next cfg a s ((acceptBatch cfg a.now kAcceptBatch a.accepts s).goto (.dispatch evs))
  | event   : s.pc = .dispatch (.conn fd err hup input output :: evs) →
    s.conns.lookup fd = some i → s.heap i = some c →
    Next cfg a s ((s.goto (.dispatch evs)).serve cfg a
      (onEvent cfg err hup input output c (s.env a c)))
  | counter : s.pc = .drainWake evs → Next cfg a s { s with wakeCount := 0 }
  | swap    : s.pc = .drainCompletions →
    Next cfg a s ({ s with completions := [], taken := s.taken ++ s.completions }.goto
      (.deliver s.completions))
  | deliver : s.pc = .deliver (x :: xs) → s.heap x.job.connId = some c → c.id = x.job.connId →
    Next cfg a s ((s.goto (.deliver xs)).settle cfg a.mod (c.onWorkerResult x (a.io c.id)).1)
  | dropped : s.pc = .deliver (x :: xs) →
    (∀ c, s.heap x.job.connId = some c → c.id ≠ x.job.connId) → Next cfg a s (s.goto (.deliver xs))
  | rescans : s.pc = .processRescans →
    Next cfg a s ({ s with rescans := [] }.goto (.rescan s.rescans))
  | rescan  : s.pc = .rescan (i :: is) → s.heap i = some c → c.wantRead cfg →
    Next cfg a s ((s.goto (.rescan is)).serve cfg a (c.onReadable cfg (s.env a c)))
  | unpin   : s.pc = .rescan [] → Next cfg a s (s.collect.goto .reap)
  | reap    : s.pc = .reap ∧ p = .beginDrain ∨ s.pc = .reapTick ∧ p = .shutdownComplete →
    Next cfg a s (s.reap.goto p)
  | drain   : s.pc = .beginDrain → Next cfg a s ((s.maybeBeginDrain cfg a.now).goto .timer)
  | tick    : s.pc = .timer → s.due cfg a →
    Next cfg a s (({ s with lastTick := a.now }.tick cfg a).goto .reapTick)
  | force   : s.pc = .shutdownComplete ∧ s.secondSignal ∨
      s.pc = .deadline ∧ s.drainDeadline ≤ a.now →
    Next cfg a s ({ s.closeAll with forcedShutdown := true }.goto .stop)
  | stop    : s.pc = .stop → Next cfg a s ({ s with pool := s.pool.stop }.goto .join)
  | cleanup : s.pc = .cleanup → Next cfg a s ({ s with completions := [] }.closeAll.goto .returned)

variable {cfg : Config} {a : Answers} {s s' : System}

theorem wantRead_alive {c : Connection} (h : c.wantRead cfg) : c.alive := by
  cases ha : c.alive <;> simp_all [Connection.wantRead]

theorem handleEvent_next (hp : s.pc = .dispatch (ev :: evs)) :
    Next cfg a s (s.handleEvent cfg a ev evs) := by
  cases ev <;> simp only [handleEvent]
  case wake     => exact .goto (.wake hp)
  case signal   => exact .signal hp
  case listener => exact .accept hp
  case conn     =>
    split
    case h_1 => exact .goto (.stale hp)
    case h_2 h =>
      have ⟨_, hf, hc⟩ := Option.bind_eq_some_iff.mp h
      exact .event hp hf hc

theorem deliver_next (hp : s.pc = .deliver (x :: xs)) :
    Next cfg a s ((s.goto (.deliver xs)).deliver cfg a x) := by
  simp only [System.deliver]
  split
  case h_1 h => exact .dropped hp fun _ hc => by cases h.symm.trans hc
  case h_2 h =>
    split
    case isTrue hi  => exact .dropped hp fun c hc => by cases h.symm.trans hc; exact hi
    case isFalse hi => exact .deliver hp h (of_not_not hi)

theorem rescan_next (hp : s.pc = .rescan (i :: is)) :
    Next cfg a s ((s.goto (.rescan is)).rescan cfg a i) := by
  simp only [System.rescan]
  split
  case h_1 h => exact .goto (.skipped hp fun _ hc => by cases h.symm.trans hc)
  case h_2 c h =>
    split
    case isTrue hw =>
      refine .goto (.skipped hp fun c' hc hr => ?_)
      cases h.symm.trans hc
      simp [hr, wantRead_alive hr] at hw
    case isFalse hw => exact .rescan hp h (by simp at hw; exact hw.2)

theorem loopStep_next (h : s.loopStep cfg a = some s') : Next cfg a s s' := by
  simp only [loopStep] at h
  split at h
  case h_1 hp =>
    split at h <;> cases h
    case h_1 => exact .goto (.ready hp)
    case h_2 => exact .retry hp
    case h_3 => exact .fail hp
  case h_2 hp => cases h; exact .goto (.handled hp)
  case h_3 hp => cases h; exact handleEvent_next hp
  case h_4 hp =>
    split at h <;> cases h
    case isTrue     => exact .counter hp
    case isFalse hn => exact .goto (.woken hp (by omega))
  case h_5 hp  => cases h; exact .swap hp
  case h_6 hp  => cases h; exact .goto (.done hp)
  case h_7 hp  => cases h; exact deliver_next hp
  case h_8 hp  => cases h; exact .rescans hp
  case h_9 hp  => cases h; exact .unpin hp
  case h_10 hp => cases h; exact rescan_next hp
  case h_11 hp => cases h; exact .reap (.inl ⟨hp, rfl⟩)
  case h_12 hp => cases h; exact .drain hp
  case h_13 hp =>
    split at h <;> cases h
    case isTrue hd => exact .tick hp (decide_eq_true hd)
    case isFalse hd => exact .goto (.early hp (decide_eq_false hd))
  case h_14 hp => cases h; exact .reap (.inr ⟨hp, rfl⟩)
  case h_15 hp =>
    repeat' split at h
    all_goals cases h
    case isTrue hd                     => exact .goto (.running hp (by simpa using hd))
    case isFalse.isTrue hs             => exact .force (.inl ⟨hp, hs⟩)
    case isFalse.isFalse.isTrue hd _ hc  =>
      exact .goto (.empty hp (by simpa using hd) (List.isEmpty_iff.mp hc))
    case isFalse.isFalse.isFalse hd _ hc =>
      exact .goto (.manned hp (by simpa using hd) (by simpa using hc))
  case h_16 hp =>
    cases h
    split
    case isTrue hq  => exact .goto (.free hp (List.isEmpty_iff.mp hq))
    case isFalse hq => exact .goto (.jobs hp (by simpa using hq))
  case h_17 hp =>
    cases h
    split
    case isTrue hc  => exact .goto (.drained hp (List.isEmpty_iff.mp hc))
    case isFalse hc => exact .goto (.results hp (by simpa using hc))
  case h_18 hp =>
    split at h <;> cases h
    case isTrue hn  => exact .force (.inr ⟨hp, hn⟩)
    case isFalse hn => exact .goto (.patient hp (Nat.lt_of_not_le hn))
  case h_19 hp => cases h; exact .stop hp
  case h_20 hp =>
    split at h <;> cases h
    case isTrue hx => exact .goto (.joined hp (by simpa using hx))
  case h_21 hp => cases h; exact .cleanup hp
  case h_22    => cases h

-- What a step of a thread of the pool can do.
inductive Work (cfg : Config) (s : System) : System → Prop
  | take : s.workers[i]? = some .idle → s.pool.queue = job :: queue →
    Work cfg s { s with
      pool    := { s.pool with queue := queue, taken := s.pool.taken ++ [job] }
      workers := s.workers.set i (.running job) }
  | exit : s.workers[i]? = some .idle → s.pool.queue = [] → s.pool.stopping →
    Work cfg s { s with workers := s.workers.set i .exited }
  | post : s.workers[i]? = some (.running job) → x = ⟨job, runJob cfg throws job.req⟩ →
    Work cfg s { s with
      completions := s.completions ++ [x]
      pushed      := s.pushed ++ [x]
      workers     := s.workers.set i .posted }
  | wake : s.workers[i]? = some .posted → 0 < n → Work cfg s { s with
      wakeCount := n
      workers   := s.workers.set i .idle }

theorem workerStep_work (h : s.workerStep cfg i throws = some s') : Work cfg s s' := by
  simp only [workerStep, Pool.take] at h
  split at h
  case h_1 hw =>
    match hq : s.pool.queue with
    | job :: queue => simp only [hq] at h; cases h; exact .take hw hq
    | []           =>
      simp only [hq] at h
      cases hs : s.pool.stopping <;> simp only [hs] at h <;> cases h
      exact .exit hw hq hs
  case h_2 hw => cases h; exact .post hw rfl
  case h_3 hw =>
    have hm : 0 < kMaxCounter := by decide
    cases h
    exact .wake hw (by split <;> omega)
  case h_4    => cases h
  case h_5    => cases h

-- Runs to evaluate: the loop takes `n` steps in which the system calls answer alike; a client is
-- accepted as the socket 7; it has something to read; a client sends a request at once; the request is
-- handled and the response sent; the server is told to shut down.
def iterate (n : Nat) (a : Answers) : List Action :=
  .replicate n (.loop a)

def client : List Action :=
  iterate 11 { waited := .ready [.listener], accepts := [.client 7 {}] }

def arrival (recvs : List Recv) : List Action :=
  iterate 11 { waited := .ready [.conn 7 false false true false], io := fun _ => { recvs := recvs } }

def asked (request : String) : List Action :=
  client ++ arrival [.received (ascii request)]

def served (sends : List Send) : List Action :=
  .replicate 3 (.worker 0 false) ++
    iterate 15 { waited := .ready [.wake], io := fun _ => { sends := sends } }

def sigterm : List Action :=
  iterate 12 { waited := .ready [.signal], signals := 1 }

end Http.System
