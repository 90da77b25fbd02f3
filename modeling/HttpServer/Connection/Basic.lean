import HttpServer.Handler.Basic
import HttpServer.Objects.Pool

namespace Http

abbrev ConnId := Nat
abbrev Fd := Nat
abbrev Time := Nat

-- The bits of an epoll mask that vary: `EPOLLET` is set in all of them.
structure Mask where
  epollin  : Bool
  epollout : Bool
  deriving DecidableEq, Repr

-- What the closure of `submit` captures.
structure Job where
  connId : ConnId
  seq    : Nat
  req    : Request
  deriving DecidableEq, Repr

-- The job stands for `conn`, `conn_id` and `seq`.
structure Completion where
  job      : Job
  response : Response
  deriving DecidableEq, Repr

-- What a final response was queued for.
inductive Origin
  | answer (job : Job)
  | overload (req : Request)
  | malformed
  | tooLarge
  | timeout
  deriving DecidableEq, Repr

-- An entry in the history of a connection.
inductive Entry
  | received (bs : Bytes)
  | parsed (req : Request)
  | submitted (job : Job)
  | interim
  | final (origin : Origin) (date : Bytes) (res : Response)
  | sent (bs : Bytes)
  deriving DecidableEq, Repr

-- The members of the source's class, and a `log` of what has happened so far. No function reads
-- the log.
structure Connection where
  id           : ConnId
  fd           : Fd
  parser       : Parser := {}
  input        : Bytes := []
  output       : Bytes := []
  alive        : Bool := true
  closeAfter   : Bool := false
  draining     : Bool := false
  peerEof      : Bool := false
  inFlight     : Bool := false
  inflightSeq  : Nat := 0
  nextSeq      : Nat := 1
  served       : Nat := 0
  reqMajor     : Nat := 1
  reqMinor     : Nat := 1
  lastHead     : Bool := false
  appliedMask  : Mask := ⟨false, false⟩
  lastActivity : Time
  log          : List Entry := []
  deriving DecidableEq, Repr

-- The result of `recv`: the bytes that were received (none at the end of the stream), or an errno.
inductive Recv
  | received (bs : Bytes)
  | eintr
  | eagain
  | error
  deriving DecidableEq, Repr

-- The result of `send`: how many bytes were accepted, or an errno.
inductive Send
  | accepted (n : Nat)
  | eintr
  | eagain
  | error
  deriving DecidableEq, Repr

-- What the socket and the clocks answer during one callback. A socket that has no answer left
-- would block. At most one response is serialized in a callback, so there is one date.
structure Io where
  recvs : List Recv := []
  sends : List Send := []
  now   : Time := 0
  date  : Bytes := []

-- What a callback uses of the event loop.
structure Env where
  pool : Pool Job
  io   : Io

-- The size of the buffer on the stack of `on_readable`.
def kReadBytes : Nat := 16 * 1024

def kContinue : Bytes := ascii "HTTP/1.1 100 Continue\r\n\r\n"

namespace Connection

def new (id : ConnId) (fd : Fd) (now : Time) : Connection where
  id           := id
  fd           := fd
  lastActivity := now

def wantRead (cfg : Config) (c : Connection) : Bool :=
  if !c.alive || c.closeAfter || c.peerEof || c.inFlight || c.draining then false
  else c.output.length < cfg.maxOutputBytes

def wantWrite (c : Connection) : Bool :=
  c.alive && !c.output.isEmpty

def interestMask (cfg : Config) (c : Connection) : Mask where
  epollin  := c.wantRead cfg
  epollout := c.wantWrite

def finished (c : Connection) : Bool :=
  if !c.alive then true
  else c.closeAfter && c.output.isEmpty && !c.inFlight

def kill (c : Connection) : Connection :=
  { c with alive := false, inFlight := false, closeAfter := true, input := [], output := [] }

def record (c : Connection) (e : Entry) : Connection :=
  { c with log := c.log ++ [e] }

def consume (c : Connection) (n : Nat) (now : Time) : Connection :=
  { c with
    output       := c.output.drop n
    lastActivity := now
    log          := c.log ++ [.sent (c.output.take n)] }

-- A call of `send` that accepts nothing leaves `errno` at 0, which is not one of the codes that
-- `flush` expects.
def flushLoop (now : Time) : List Send → Connection → Connection × List Send
  | [], c => (c, [])
  | s :: sends, c =>
    if c.output.isEmpty || !c.alive then (c, s :: sends)
    else match s with
      | .accepted n => if n > 0 then flushLoop now sends (c.consume n now) else (c.kill, sends)
      | .eintr      => flushLoop now sends c
      | .eagain     => (c, sends)
      | .error      => (c.kill, sends)

def flush (c : Connection) (io : Io) : Connection × Io :=
  let (c, sends) := flushLoop io.now io.sends c
  (c, { io with sends := sends })

def queueResponse (c : Connection) (date : Bytes) (origin : Origin) (res : Response) : Connection :=
  let res := if c.lastHead then { res with sendBody := false } else res
  { c with
    output     := c.output ++ serializeResponse date res
    closeAfter := if !res.keepAlive || res.closeAfter then true else c.closeAfter
    log        := c.log ++ [.final origin date res] }

def queueError (c : Connection) (date : Bytes) (origin : Origin) (status : Nat) (detail : String) :
    Connection :=
  let res := { makeErrorResponse status (ascii detail) false with
    reqMajor := c.reqMajor
    reqMinor := c.reqMinor }
  { c.queueResponse date origin res with closeAfter := true }

def submit (c : Connection) (req : Request) (env : Env) : Connection × Env :=
  let job := ⟨c.id, c.inflightSeq, req⟩
  match env.pool.trySubmit job with
  | some pool => (c.record (.submitted job), { env with pool := pool })
  | none      =>
    let c := { c with inFlight := false }
    (c.queueError env.io.date (.overload req) 503 "server is at capacity", env)

-- What `drain_requests` notes about a request before it is submitted.
def beginRequest (c : Connection) (req : Request) : Connection :=
  { c with
    reqMajor    := req.major
    reqMinor    := req.minor
    lastHead    := req.isHead
    inFlight    := true
    inflightSeq := c.nextSeq
    nextSeq     := c.nextSeq + 1
    served      := c.served + 1
    log         := c.log ++ [.parsed req] }

def queueContinue (c : Connection) : Connection :=
  { c with output := c.output ++ kContinue, log := c.log ++ [.interim] }

-- The parser and the buffer as a call of `parse` leaves them.
def store (c : Connection) (parser : Parser) (input : Bytes) : Connection :=
  { c with parser := parser, input := input }

-- The parser consumes input before it asks for an interim response, so a fuel above the size of the
-- input is never used up.
def drainRequests (cfg : Config) : Nat → Connection → Env → Connection × Env
  | 0, c, env => (c, env)
  | fuel + 1, c, env =>
    if !c.alive || c.inFlight || c.closeAfter then (c, env)
    else match c.parser.parse cfg.limits c.input with
      | (.needMore, p, b)  => (c.store p b, env)
      | (.expect100, p, b) =>
        let (c, io) := (c.store p b).queueContinue.flush env.io
        drainRequests cfg fuel c { env with io := io }
      | (.badRequest _, p, b) =>
        let c := (c.store p b).queueError env.io.date .malformed 400 "malformed request"
        let (c, io) := c.flush env.io
        (c, { env with io := io })
      | (.tooLarge _, p, b) =>
        let c := (c.store p b).queueError env.io.date .tooLarge 413 "request too large"
        let (c, io) := c.flush env.io
        (c, { env with io := io })
      | (.request req, p, b) => ((c.store p b).beginRequest req).submit req env

-- How the loop over `recv` is left.
inductive ReadEnd
  | done
  | overflow
  | failed
  deriving DecidableEq, Repr

def append (c : Connection) (bs : Bytes) (now : Time) : Connection :=
  { c with
    input        := c.input ++ bs
    lastActivity := now
    log          := c.log ++ [.received bs] }

def receive (cfg : Config) (now : Time) : List Recv → Connection → Connection × ReadEnd
  | [], c => (c, .done)
  | r :: recvs, c =>
    if !c.wantRead cfg then (c, .done)
    else match r with
      | .received bs =>
        if (bs.take kReadBytes).isEmpty then ({ c with peerEof := true }, .done)
        else
          let c := c.append (bs.take kReadBytes) now
          if c.parser.consumed + c.input.length > cfg.maxRequestBytes then (c, .overflow)
          else receive cfg now recvs c
      | .eintr  => receive cfg now recvs c
      | .eagain => (c, .done)
      | .error  => (c, .failed)

def onReadable (cfg : Config) (c : Connection) (env : Env) : Connection × Env :=
  if !c.alive || !c.wantRead cfg then (c, env)
  else match receive cfg env.io.now env.io.recvs c with
    | (c, .overflow) =>
      let (c, io) := (c.queueError env.io.date .tooLarge 413
        "request exceeds the configured limit").flush env.io
      (c, { env with io := io })
    | (c, .failed) => (c.kill, env)
    | (c, .done) =>
      let (c, env) := c.drainRequests cfg (c.input.length + 1) env
      let c := if c.peerEof && !c.inFlight && c.output.isEmpty
        then { c with closeAfter := true } else c
      (c, env)

def onWorkerResult (c : Connection) (x : Completion) (io : Io) : Connection × Io :=
  if !c.alive then (c, io)
  else if !c.inFlight || x.job.seq != c.inflightSeq then (c, io)
  else
    let c := { c with inFlight := false }
    (c.queueResponse io.date (.answer x.job) x.response).flush io

def onWritable (c : Connection) (io : Io) : Connection × Io :=
  c.flush io

-- The argument tells whether `EPOLLERR` is among the events.
def onHangup (c : Connection) (err : Bool) (io : Io) : Connection × Io :=
  if err then (c.kill, io)
  else { c with peerEof := true, closeAfter := true }.flush io

def onTick (cfg : Config) (now : Time) (c : Connection) (io : Io) : Connection × Io :=
  if !c.alive then (c, io)
  else if c.draining && !c.inFlight && c.output.isEmpty then ({ c with closeAfter := true }, io)
  else match cfg.idleTimeout with
    | none      => (c, io)
    | some idle =>
      if now - c.lastActivity ≤ idle then (c, io)
      else if c.inFlight then (c, io)
      else if !c.output.isEmpty then (c.kill, io)
      else (c.queueError io.date .timeout 408 "no request within the idle timeout").flush io

def beginDraining (c : Connection) : Connection :=
  let c := { c with draining := true }
  if !c.inFlight && c.output.isEmpty then { c with closeAfter := true } else c

end Connection
end Http
