import HttpServer.Library.Handles
import HttpServer.Objects.Args

namespace Http

open Handles

-- What the system calls of `write_port_file` answer: `written` is none if `write` fails.
structure FileAnswers where
  opened  : Bool := true
  written : Option Nat
  renamed : Bool := true

-- What the system calls answer before the loop is entered. `inetPton` tells whether a text is an
-- address of the family, which is IPv6 or IPv4; `getsockname` is none if it fails.
structure StartAnswers where
  epollCreate : Bool := true
  eventfd     : Bool := true
  addWake     : Bool := true
  signalfd    : Bool := true
  addSignal   : Bool := true
  socket      : Bool := true
  inetPton    : Bool → Bytes → Bool
  bind        : Bool := true
  listen      : Bool := true
  getsockname : Option Nat
  addListener : Bool := true
  file        : FileAnswers

-- The descriptors of an `EventLoop`, those of its connections among them, and the files.
structure Process where
  table     : Table
  files     : Bytes → Option Bytes
  epfd      : Handle := {}
  listenFd  : Handle := {}
  wakeFd    : Handle := {}
  sigFd     : Handle := {}
  conns     : List Handle := []
  boundPort : Nat := 0

namespace Process

def setFile (p : Process) (path : Bytes) (text : Option Bytes) : Process :=
  { p with files := fun q => if q = path then text else p.files q }

-- The system calls that `write_port_file` makes with success.
inductive FileCall
  | creat
  | write (n : Nat)
  | close
  | rename
  deriving DecidableEq, Repr

def portText (port : Nat) : Bytes :=
  decimal port ++ ascii "\n"

def tmp (path : Bytes) : Bytes :=
  path ++ ascii ".tmp"

-- The temporary file is the descriptor that was opened last.
def apply (path text : Bytes) (fd : Nat) (p : Process) : FileCall → Process
  | .creat   => { p with table := p.table.alloc.2 }.setFile (tmp path) (some [])
  | .write n => p.setFile (tmp path) (some (text.take n))
  | .close   => { p with table := p.table.close fd }
  | .rename  => (p.setFile path (p.files (tmp path))).setFile (tmp path) none

-- The calls in their order. A `write` that fails leaves the file as it is, and the file is not put in
-- place unless all of the text is in it.
def fileCalls (text : Bytes) (a : FileAnswers) : List FileCall :=
  if !a.opened then []
  else
    .creat :: (a.written.elim [] fun n => [.write n]) ++ [.close] ++
      if a.written = some text.length && a.renamed then [.rename] else []

def writePortFile (path : Bytes) (port : Nat) (a : FileAnswers) (p : Process) : Process :=
  (fileCalls (portText port) a).foldl (apply path (portText port) p.table.alloc.1) p

def setupWake (a : StartAnswers) (p : Process) : Bool × Process :=
  if !a.eventfd then (false, p)
  else
    let (fd, table) := p.table.alloc
    let (wakeFd, table) := p.wakeFd.assign fd table
    (a.addWake, { p with wakeFd := wakeFd, table := table })

def setupSignals (a : StartAnswers) (p : Process) : Bool × Process :=
  if !a.signalfd then (false, p)
  else
    let (fd, table) := p.table.alloc
    let (sigFd, table) := p.sigFd.assign fd table
    (a.addSignal, { p with sigFd := sigFd, table := table })

-- The socket is closed by hand until it is given to `listen_fd_`.
def setupListener (cfg : Settings) (a : StartAnswers) (p : Process) : Bool × Process :=
  let wantV6 := cfg.bind.contains ':'.toUInt8
  if !a.socket then (false, p)
  else
    let (fd, table) := p.table.alloc
    let closed := (false, { p with table := table.close fd })
    if !a.inetPton wantV6 cfg.bind then closed
    else if !a.bind then closed
    else if !a.listen then closed
    else
      let boundPort := a.getsockname.getD p.boundPort
      if !a.addListener then (false, { p with table := table.close fd, boundPort := boundPort })
      else
        let (listenFd, table) := p.listenFd.assign fd table
        let p := { p with listenFd := listenFd, table := table, boundPort := boundPort }
        (true, if cfg.portFile.isEmpty then p else p.writePortFile cfg.portFile boundPort a.file)

-- The part of `run` before its loop. It tells whether the loop is entered.
def start (cfg : Settings) (a : StartAnswers) (p : Process) : Bool × Process :=
  if !a.epollCreate then (false, p)
  else
    let (fd, table) := p.table.alloc
    let (epfd, table) := p.epfd.assign fd table
    let (ok, p) := setupWake a { p with epfd := epfd, table := table }
    if !ok then (false, p)
    else
      let (ok, p) := setupSignals a p
      if !ok then (false, p) else setupListener cfg a p

-- What the loop does with sockets: one is accepted and rejected, or it fails to be added to epoll; one
-- is accepted for a connection; or a connection is destroyed.
inductive SocketAct
  | turnAway
  | accept
  | destroy (i : Nat)
  deriving DecidableEq, Repr

def serve (p : Process) : SocketAct → Process
  | .turnAway  => { p with table := p.table.alloc.2.close p.table.alloc.1 }
  | .accept    => { p with table := p.table.alloc.2, conns := ⟨some p.table.alloc.1⟩ :: p.conns }
  | .destroy i => match p.conns[i]? with
    | none   => p
    | some h => { p with table := h.reset p.table, conns := p.conns.eraseIdx i }

-- The wake descriptor is left open if `stop_forced` had to detach a thread.
def finish (detached : Bool) (p : Process) : Process :=
  if detached then { p with wakeFd := {} } else p

-- The destructor: the connections, then the members in reverse order.
def destroy (p : Process) : Process :=
  let table := p.conns.foldl (fun t h => h.reset t) p.table
  let table := p.sigFd.reset table
  let table := p.wakeFd.reset table
  let table := p.listenFd.reset table
  let table := p.epfd.reset table
  { p with table := table, epfd := {}, listenFd := {}, wakeFd := {}, sigFd := {}, conns := [] }

-- The life of an `EventLoop`, and what its `run` returns. The loop is left with an error if
-- `epoll_wait` has failed.
def life (cfg : Settings) (a : StartAnswers) (acts : List SocketAct) (failed detached : Bool)
    (p : Process) : Nat × Process :=
  let (ok, p) := p.start cfg a
  if !ok then (1, p.destroy)
  else (if failed then 1 else 0, ((acts.foldl serve p).finish detached).destroy)

-- The status of the process, and what it prints there.
structure Exit where
  status : Nat
  stdout : Bytes := []
  stderr : Bytes := []
  deriving DecidableEq, Repr

end Process
end Http
