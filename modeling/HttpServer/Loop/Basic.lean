import HttpServer.Connection.Basic

namespace Http

-- What `epoll_wait` can report.
inductive Event
  | wake
  | signal
  | listener
  | conn (fd : Fd) (err hup input output : Bool)
  deriving DecidableEq, Repr

inductive Waited
  | ready (events : List Event)
  | eintr
  | error

-- The result of `epoll_ctl` with `EPOLL_CTL_MOD`: `gone` stands for `ENOENT` and `EBADF`.
inductive Ctl
  | ok
  | gone
  | error
  deriving DecidableEq, Repr

-- What happens to an accepted socket: whether it can be added to epoll, and how it takes the
-- response if it is rejected.
structure Admission where
  added : Bool := true
  date  : Bytes := []
  sends : List Send := []

-- The result of `accept4`: `emfile` stands for `EMFILE` and `ENFILE`.
inductive Accept
  | client (fd : Fd) (admission : Admission)
  | eintr
  | eagain
  | emfile
  | econnaborted
  | error

-- What the system calls answer during one step of the loop.
structure Answers where
  waited  : Waited := .ready []
  io      : ConnId → Io := fun _ => {}
  mod     : Ctl := .ok
  accepts : List Accept := []
  signals : Nat := 0
  now     : Time := 0
  expired : Bool := false

-- Where a thread of the pool is: waiting for a job, running one, between pushing its completion and
-- writing to the eventfd, or gone.
inductive Worker
  | idle
  | running (job : Job)
  | posted
  | exited
  deriving DecidableEq, Repr

-- Where `EventLoop::run` is.
inductive Pc
  | wait
  | dispatch (events : List Event)
  | drainWake (events : List Event)
  | drainCompletions
  | deliver (batch : List Completion)
  | processRescans
  | rescan (pending : List ConnId)
  | reap
  | beginDrain
  | timer
  | reapTick
  | shutdownComplete
  | queueSize
  | completionsPending
  | deadline
  | stop
  | join
  | cleanup
  | returned
  deriving DecidableEq, Repr

-- The main loop has been left for these.
def Pc.left : Pc → Bool
  | stop | join | cleanup | returned => true
  | _                                => false

-- The event loop with its threads. The `heap` holds the connections that exist; `conns`, `rescans`
-- and the batch of `process_rescans` refer to them. `reaps` also tells which connection an fd was
-- put there for, `pushed` and `taken` record all completions that were posted and drained, and
-- `rejected` records the sockets that were turned away with what was sent to them: nothing reads
-- these.
structure System where
  heap              : ConnId → Option Connection := fun _ => none
  conns             : List (Fd × ConnId) := []
  reaps             : List (Fd × ConnId) := []
  rescans           : List ConnId := []
  lastConnId        : ConnId := 0
  completions       : List Completion := []
  wakeCount         : Nat := 0
  pool              : Pool Job
  workers           : List Worker
  shutdownRequested : Bool := false
  secondSignal      : Bool := false
  draining          : Bool := false
  forcedShutdown    : Bool := false
  acceptRetry       : Bool := false
  exitCode          : Nat := 0
  drainDeadline     : Time := 0
  lastTick          : Time := 0
  pc                : Pc := .wait
  pushed            : List Completion := []
  taken             : List Completion := []
  rejected          : List (Fd × Bytes) := []

def kMaxEvents : Nat := 1024
def kAcceptBatch : Nat := 256

namespace System

-- The state of `run` when it enters its loop. The pool has `started` threads.
def init (cfg : Config) (started : Nat) (now : Time) : System where
  pool     := .new cfg.maxQueue started
  workers  := .replicate started .idle
  lastTick := now

def goto (s : System) (pc : Pc) : System :=
  { s with pc := pc }

def put (s : System) (c : Connection) : System :=
  { s with heap := fun id => if id = c.id then some c else s.heap id }

-- A connection is destroyed with the last reference to it.
def collect (s : System) : System :=
  { s with heap := fun id =>
      if s.conns.any (·.2 = id) || s.rescans.contains id then s.heap id else none }

-- A callback on every connection of `conns_`.
def mapConns (s : System) (f : Connection → Connection) : System :=
  { s with heap := fun id => if s.conns.any (·.2 = id) then (s.heap id).map f else s.heap id }

def isFinished (s : System) (id : ConnId) : Bool :=
  (s.heap id).any (·.finished)

def setInterest (cfg : Config) (mod : Ctl) (s : System) (c : Connection) : System :=
  if !c.alive then s.put c
  else if c.interestMask cfg = c.appliedMask then s.put c
  else match mod with
    | .gone  => { s.put c with reaps := s.reaps ++ [(c.fd, c.id)] }
    | .error => s.put c
    | .ok    =>
      let s' := s.put { c with appliedMask := c.interestMask cfg }
      if (c.interestMask cfg).epollin && !c.appliedMask.epollin
        then { s' with rescans := s.rescans ++ [c.id] } else s'

-- What the loop does with a connection after each of its callbacks.
def settle (cfg : Config) (mod : Ctl) (s : System) (c : Connection) : System :=
  if !c.alive || c.finished then { s.put c with reaps := s.reaps ++ [(c.fd, c.id)] }
  else s.setInterest cfg mod c

def reap (s : System) : System :=
  if s.reaps.isEmpty then s
  else
    let conns := s.conns.filter fun (fd, _) => !s.reaps.any (·.1 = fd)
    collect { s with conns := conns, reaps := [] }

-- The attempts of `reject_connection` to send its response.
def sendTries : Nat → List Send → Bytes → Bytes
  | 0, _, _ => []
  | _, [], _ => []
  | n + 1, s :: sends, out =>
    if out.isEmpty then []
    else match s with
      | .accepted k => if k > 0 then out.take k ++ sendTries n sends (out.drop k) else []
      | .eintr      => sendTries n sends out
      | .eagain     => []
      | .error      => []

def rejectConnection (s : System) (fd : Fd) (x : Admission) (reason : String) : System :=
  let out := serializeResponse x.date (makeErrorResponse 503 (ascii reason) false)
  { s with rejected := s.rejected ++ [(fd, sendTries 8 x.sends out)] }

-- The connection that `accept_batch` creates for a socket. An fd that is already in the map keeps
-- its entry.
def register (cfg : Config) (now : Time) (s : System) (fd : Fd) (x : Admission) : System :=
  let id := s.lastConnId + 1
  let c := Connection.new id fd now
  let s := { s with lastConnId := id }
  if !x.added || s.conns.any (·.1 = fd) then s
  else { s.put { c with appliedMask := c.interestMask cfg } with conns := s.conns ++ [(fd, id)] }

def acceptBatch (cfg : Config) (now : Time) : Nat → List Accept → System → System
  | 0, _, s => { s with acceptRetry := true }
  | _, [], s => s
  | n + 1, a :: accepts, s => match a with
    | .eintr        => acceptBatch cfg now n accepts s
    | .eagain       => s
    | .emfile       => { s with acceptRetry := true }
    | .econnaborted => acceptBatch cfg now n accepts s
    | .error        => s
    | .client fd x  =>
      if s.draining then
        acceptBatch cfg now n accepts (s.rejectConnection fd x "server is shutting down")
      else if s.conns.length ≥ cfg.maxConnections then
        acceptBatch cfg now n accepts (s.rejectConnection fd x "connection limit reached")
      else acceptBatch cfg now n accepts (s.register cfg now fd x)

def handleSignals : Nat → System → System
  | 0, s     => s
  | n + 1, s => handleSignals n <|
    if s.shutdownRequested then { s with secondSignal := true }
    else { s with shutdownRequested := true }

-- The callbacks of one event on a connection.
def onEvent (cfg : Config) (err hup input output : Bool) (c : Connection) (env : Env) :
    Connection × Env :=
  if err || hup then
    let (c, io) := c.onHangup err env.io
    (c, { env with io := io })
  else
    let (c, env) := if input then c.onReadable cfg env else (c, env)
    let (c, io) := if c.alive && output then c.onWritable env.io else (c, env.io)
    (c, { env with io := io })

-- A callback has run in the surroundings of the loop.
def serve (cfg : Config) (a : Answers) (s : System) (r : Connection × Env) : System :=
  { s with pool := r.2.pool }.settle cfg a.mod r.1

def env (s : System) (a : Answers) (c : Connection) : Env where
  pool := s.pool
  io   := a.io c.id

def handleEvent (cfg : Config) (a : Answers) (s : System) : Event → List Event → System
  | .wake, evs     => s.goto (.drainWake evs)
  | .signal, evs   => (s.handleSignals a.signals).goto (.dispatch evs)
  | .listener, evs => (acceptBatch cfg a.now kAcceptBatch a.accepts s).goto (.dispatch evs)
  | .conn fd err hup input output, evs =>
    match (s.conns.lookup fd).bind s.heap with
    | none   => s.goto (.dispatch evs)
    | some c =>
      (s.goto (.dispatch evs)).serve cfg a (onEvent cfg err hup input output c (s.env a c))

-- The connection of a completion is found unless it was destroyed.
def deliver (cfg : Config) (a : Answers) (s : System) (x : Completion) : System :=
  match s.heap x.job.connId with
  | none   => s
  | some c =>
    if c.id ≠ x.job.connId then s
    else
      let (c, _) := c.onWorkerResult x (a.io c.id)
      s.settle cfg a.mod c

def rescan (cfg : Config) (a : Answers) (s : System) (id : ConnId) : System :=
  match s.heap id with
  | none   => s
  | some c =>
    if !c.alive || !c.wantRead cfg then s else s.serve cfg a (c.onReadable cfg (s.env a c))

def maybeBeginDrain (cfg : Config) (now : Time) (s : System) : System :=
  if !s.shutdownRequested || s.draining then s
  else
    let s := { s with draining := true, drainDeadline := now + cfg.shutdownTimeout }
    let s := s.mapConns (·.beginDraining)
    { s with reaps := s.reaps ++ s.conns.filter (s.isFinished ·.2) }

def tick (cfg : Config) (a : Answers) (s : System) : System :=
  let s := if s.acceptRetry
    then acceptBatch cfg a.now kAcceptBatch a.accepts { s with acceptRetry := false } else s
  let s := s.mapConns fun c => (c.onTick cfg a.now (a.io c.id)).1
  { s with reaps := s.reaps ++ s.conns.filter (s.isFinished ·.2) }

def closeAll (s : System) : System :=
  let s := s.mapConns (·.kill)
  reap { s with reaps := s.reaps ++ s.conns }

-- One step of the loop: the part of `run` up to the next point where another thread can see or
-- change what it works on.
def loopStep (cfg : Config) (a : Answers) (s : System) : Option System :=
  match s.pc with
  | .wait => match a.waited with
    | .ready evs => some (s.goto (.dispatch (evs.take kMaxEvents)))
    | .eintr     => some s
    | .error     => some ({ s with exitCode := 1 }.goto .stop)
  | .dispatch []          => some (s.goto .drainCompletions)
  | .dispatch (ev :: evs) => some (s.handleEvent cfg a ev evs)
  | .drainWake evs        =>
    if s.wakeCount > 0 then some { s with wakeCount := 0 } else some (s.goto (.dispatch evs))
  | .drainCompletions     =>
    let batch := s.completions
    some ({ s with completions := [], taken := s.taken ++ batch }.goto (.deliver batch))
  | .deliver []         => some (s.goto .processRescans)
  | .deliver (x :: xs)  => some ((s.goto (.deliver xs)).deliver cfg a x)
  | .processRescans     => some ({ s with rescans := [] }.goto (.rescan s.rescans))
  | .rescan []          => some (s.collect.goto .reap)
  | .rescan (id :: ids) => some ((s.goto (.rescan ids)).rescan cfg a id)
  | .reap               => some (s.reap.goto .beginDrain)
  | .beginDrain         => some ((s.maybeBeginDrain cfg a.now).goto .timer)
  | .timer              =>
    if a.now - s.lastTick ≥ cfg.tickMs * 1000000
      then some (({ s with lastTick := a.now }.tick cfg a).goto .reapTick)
      else some (s.goto .shutdownComplete)
  | .reapTick         => some (s.reap.goto .shutdownComplete)
  | .shutdownComplete =>
    if !s.draining then some (s.goto .wait)
    else if s.secondSignal then some ({ s.closeAll with forcedShutdown := true }.goto .stop)
    else if s.conns.isEmpty then some (s.goto .queueSize)
    else some (s.goto .deadline)
  | .queueSize =>
    some (s.goto (if s.pool.queue.isEmpty then .completionsPending else .deadline))
  | .completionsPending => some (s.goto (if s.completions.isEmpty then .stop else .deadline))
  | .deadline           =>
    if a.now ≥ s.drainDeadline then some ({ s.closeAll with forcedShutdown := true }.goto .stop)
    else some (s.goto .wait)
  | .stop => some ({ s with pool := s.pool.stop }.goto .join)
  | .join =>
    if s.workers.all (· = .exited) || (s.forcedShutdown && a.expired)
      then some (s.goto .cleanup) else none
  | .cleanup  => some ({ s with completions := [] }.closeAll.goto .returned)
  | .returned => none

-- The eventfd holds at most 2 ^ 64 - 2: a write beyond that fails.
def kMaxCounter : Nat := 2 ^ 64 - 2

-- One step of the thread `i` of the pool.
def workerStep (cfg : Config) (i : Nat) (throws : Bool) (s : System) : Option System :=
  match s.workers[i]? with
  | some .idle => match s.pool.take with
    | some (.job job pool) => some { s with pool := pool, workers := s.workers.set i (.running job) }
    | some .exit           => some { s with workers := s.workers.set i .exited }
    | none                 => none
  | some (.running job) =>
    let x := ⟨job, runJob cfg throws job.req⟩
    some { s with
      completions := s.completions ++ [x]
      pushed      := s.pushed ++ [x]
      workers     := s.workers.set i .posted }
  | some .posted => some { s with
      wakeCount := if s.wakeCount < kMaxCounter then s.wakeCount + 1 else s.wakeCount
      workers   := s.workers.set i .idle }
  | some .exited => none
  | none         => none

end System

inductive Action
  | loop (a : Answers)
  | worker (i : Nat) (throws : Bool)

def step (cfg : Config) (s : System) : Action → Option System
  | .loop a          => s.loopStep cfg a
  | .worker i throws => s.workerStep cfg i throws

end Http
