import HttpServer.Objects.Pool

namespace Http

-- Where a thread is in `ThreadPool::run`: it wants the mutex, holds it, still holds it but is about to
-- wait, waits on the condition variable, runs a job, or has returned.
inductive Stage (J : Type)
  | locking
  | locked
  | parking
  | waiting
  | running (job : J)
  | exited
  deriving DecidableEq, Repr

namespace Stage

def isWaiting : Stage J → Bool
  | waiting => true
  | _       => false

def isExited : Stage J → Bool
  | exited => true
  | _      => false

-- A thread that was woken takes the mutex again before it looks at the condition.
def woken : Stage J → Stage J
  | waiting => locking
  | stage   => stage

end Stage

-- A call from outside that has left its critical section, up to its return. The threads that are to
-- be joined are known by their position.
inductive Call
  | notifyOne
  | notifyAll (forced : Bool) (threads : List Nat)
  | join (threads : List Nat)
  | tryJoin (threads : List Nat) (allJoined : Bool)
  | submitted (accepted : Bool)
  | stopped
  | stoppedForced (allJoined : Bool)
  deriving DecidableEq, Repr

-- The pool with its mutex and its condition variable. `handles` stands for `threads_`, whose size
-- is also in the pool, and `owner` is the thread that holds the mutex. The other threads hold it
-- during a single step only. `runs`, `joined` and `detached` record what has been done.
structure Monitor (J : Type) where
  pool     : Pool J
  handles  : List Nat
  stages   : List (Stage J)
  owner    : Option Nat := none
  calls    : List Call := []
  runs     : List J := []
  joined   : List Nat := []
  detached : List Nat := []

namespace Monitor

-- The argument `i` of `notify` is the thread that `notify_one` picks among those that wait, and
-- `wake` is a wakeup that nobody asked for.
inductive Act (J : Type)
  | submit (job : J)
  | stop
  | stopForced
  | notify (k i : Nat)
  | advance (k : Nat) (expired : Bool)
  | wake (i : Nat)
  | work (i : Nat) (throws : Bool)

def new (maxQueue started : Nat) : Monitor J where
  pool    := .new maxQueue started
  handles := .range started
  stages  := .replicate started .locking

-- The critical sections of the functions that are called from outside.
def trySubmit (m : Monitor J) (job : J) : Option (Monitor J) :=
  if m.owner.isSome then none
  else match m.pool.trySubmit job with
    | some pool => some { m with pool := pool, calls := m.calls ++ [.notifyOne] }
    | none      => some { m with calls := m.calls ++ [.submitted false] }

def stop (m : Monitor J) : Option (Monitor J) :=
  if m.owner.isSome then none
  else if m.pool.stopping && m.pool.joined then
    some { m with calls := m.calls ++ [.stopped] }
  else some { m with
    pool    := m.pool.stop
    handles := []
    calls   := m.calls ++ [.notifyAll false m.handles] }

def stopForced (m : Monitor J) : Option (Monitor J) :=
  if m.owner.isSome then none
  else some { m with
    pool    := m.pool.stopForced
    handles := []
    calls   := m.calls ++ [.notifyAll true m.handles] }

def notify (m : Monitor J) (k i : Nat) : Option (Monitor J) :=
  match m.calls[k]? with
  | some .notifyOne =>
    if (m.stages[i]?).any Stage.isWaiting then some { m with
      stages := m.stages.set i .locking
      calls  := m.calls.set k (.submitted true) }
    else if m.stages.any Stage.isWaiting then none
    else some { m with calls := m.calls.set k (.submitted true) }
  | some (.notifyAll forced threads) => some { m with
      stages := m.stages.map Stage.woken
      calls  := m.calls.set k (if forced then .tryJoin threads true else .join threads) }
  | _ => none

-- The loops over `pthread_join` and `pthread_tryjoin_np`. The latter is tried again after a pause
-- until the time is up.
def advance (m : Monitor J) (k : Nat) (expired : Bool) : Option (Monitor J) :=
  match m.calls[k]? with
  | some (.join [])        => some { m with calls := m.calls.set k .stopped }
  | some (.join (t :: ts)) =>
    if (m.stages[t]?).any Stage.isExited then some { m with
      joined := m.joined ++ [t]
      calls  := m.calls.set k (.join ts) }
    else none
  | some (.tryJoin [] allJoined) => some { m with calls := m.calls.set k (.stoppedForced allJoined) }
  | some (.tryJoin (t :: ts) allJoined) =>
    if (m.stages[t]?).any Stage.isExited then some { m with
      joined := m.joined ++ [t]
      calls  := m.calls.set k (.tryJoin ts allJoined) }
    else if expired then some { m with
      detached := m.detached ++ [t]
      calls    := m.calls.set k (.tryJoin ts false) }
    else some m
  | _ => none

-- One step of the thread `i` of the pool. The wait gives up the mutex.
def work (m : Monitor J) (i : Nat) (_throws : Bool) : Option (Monitor J) :=
  match m.stages[i]? with
  | some .locking =>
    if m.owner.isSome then none
    else some { m with owner := some i, stages := m.stages.set i .locked }
  | some .locked => match m.pool.take with
    | some (.job job pool) => some { m with
        pool   := pool
        owner  := none
        stages := m.stages.set i (.running job) }
    | some .exit => some { m with owner := none, stages := m.stages.set i .exited }
    | none       => some { m with stages := m.stages.set i .parking }
  | some .parking => some { m with owner := none, stages := m.stages.set i .waiting }
  | some (.running job) => some { m with
      stages := m.stages.set i .locking
      runs   := m.runs ++ [job] }
  | _ => none

def step (m : Monitor J) : Act J → Option (Monitor J)
  | .submit job        => m.trySubmit job
  | .stop              => m.stop
  | .stopForced        => m.stopForced
  | .notify k i        => m.notify k i
  | .advance k expired => m.advance k expired
  | .wake i            =>
    if (m.stages[i]?).any Stage.isWaiting then some { m with stages := m.stages.set i .locking }
    else none
  | .work i throws     => m.work i throws

end Monitor
end Http
