import Mathlib.Algebra.Group.Nat.Defs
import Mathlib.Tactic.Common

namespace Http

-- The state that `ThreadPool` guards with its mutex. `threads` is the number of threads that were
-- started and not yet handed over to be joined. `accepted` and `taken` record all jobs that went
-- in and came out.
structure Pool (J : Type) where
  queue    : List J := []
  maxQueue : Nat
  threads  : Nat
  stopping : Bool := false
  joined   : Bool := false
  accepted : List J := []
  taken    : List J := []

namespace Pool

-- Creating a thread may fail, so `started` can be any number up to the one that was asked for.
def new (maxQueue started : Nat) : Pool J where
  maxQueue := if maxQueue = 0 then 1 else maxQueue
  threads  := started

def trySubmit (p : Pool J) (job : J) : Option (Pool J) :=
  if p.stopping || p.threads == 0 then none
  else if p.queue.length ≥ p.maxQueue then none
  else some { p with queue := p.queue ++ [job], accepted := p.accepted ++ [job] }

-- What a worker finds when it holds the lock and its wait is over.
inductive Turn (J : Type)
  | job (job : J) (p : Pool J)
  | exit

def take (p : Pool J) : Option (Turn J) :=
  match p.queue with
  | job :: queue => some (.job job { p with queue := queue, taken := p.taken ++ [job] })
  | []           => if p.stopping then some .exit else none

-- The part of `stop` and `stop_forced` that happens under the lock.
def stop (p : Pool J) : Pool J :=
  if p.stopping && p.joined then p
  else { p with stopping := true, threads := 0, joined := true }

def stopForced (p : Pool J) : Pool J :=
  { p with stopping := true, threads := 0, joined := true }

end Pool

-- Where a thread is in `ThreadPool::run`.
inductive Thread (J : Type)
  | idle
  | running (job : J)
  | exited
  deriving DecidableEq, Repr

-- A pool with its threads. `turns` records which thread took which job, and `runs` the jobs that
-- were run to their end.
structure Crew (J : Type) where
  pool    : Pool J
  threads : List (Thread J)
  turns   : List (Nat × J) := []
  runs    : List J := []

namespace Crew

inductive Act (J : Type)
  | submit (job : J)
  | work (i : Nat) (throws : Bool)
  | stop
  | stopForced

def new (maxQueue started : Nat) : Crew J where
  pool    := .new maxQueue started
  threads := .replicate started .idle

-- One step of the thread `i`. A job that throws has been run like any other.
def work (c : Crew J) (i : Nat) (_throws : Bool) : Option (Crew J) :=
  match c.threads[i]? with
  | some .idle => match c.pool.take with
    | some (.job job pool) => some { c with
        pool    := pool
        threads := c.threads.set i (.running job)
        turns   := c.turns ++ [(i, job)] }
    | some .exit => some { c with threads := c.threads.set i .exited }
    | none       => none
  | some (.running job) => some { c with
      threads := c.threads.set i .idle
      runs    := c.runs ++ [job] }
  | some .exited => none
  | none         => none

def step (c : Crew J) : Act J → Option (Crew J)
  | .submit job    => match c.pool.trySubmit job with
    | some pool => some { c with pool := pool }
    | none      => some c
  | .work i throws => c.work i throws
  | .stop          => some { c with pool := c.pool.stop }
  | .stopForced    => some { c with pool := c.pool.stopForced }

end Crew
end Http
