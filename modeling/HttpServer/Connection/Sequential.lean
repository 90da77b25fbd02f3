import HttpServer.Connection.Theorems.HalfClose

open Http.Parser

namespace Http

-- What a peer is told: to go on with its request, or a final response, here without its date.
inductive Notice
  | interim
  | final (res : Response)
  deriving DecidableEq, Repr

def Notice.closes : Notice → Bool
  | interim   => false
  | final res => res.closes

@[simp]
def Entry.notice : Entry → Option Notice
  | interim       => some .interim
  | final _ _ res => some (.final res)
  | _             => none

def Connection.notices (c : Connection) : List Notice :=
  c.log.filterMap Entry.notice

-- What the last request leaves behind for the error responses that come after it.
structure Heading where
  major : Nat := 1
  minor : Nat := 1
  head  : Bool := false
  deriving DecidableEq, Repr

def Request.heading (req : Request) : Heading where
  major := req.major
  minor := req.minor
  head  := req.isHead

-- The response of `queue_error`.
def Heading.error (x : Heading) (status : Nat) (detail : String) : Response :=
  let res := { makeErrorResponse status (ascii detail) false with
    reqMajor := x.major
    reqMinor := x.minor }
  if x.head then { res with sendBody := false } else res

-- The error responses of the loop.
inductive Refuses (x : Heading) : Origin → Response → Prop
  | overload  : Refuses x (.overload req) (x.error 503 "server is at capacity")
  | malformed : Refuses x .malformed (x.error 400 "malformed request")
  | tooLarge  : Refuses x .tooLarge (x.error 413 "request too large")
  | overflow  : Refuses x .tooLarge (x.error 413 "request exceeds the configured limit")
  | timeout   : Refuses x .timeout (x.error 408 "no request within the idle timeout")

namespace Serial

-- A server with one peer, all of its stream at hand, and a handler that it waits for. It answers
-- the results of the parser one after the other. The calls of the handler that fail are given.
def answers (cfg : Config) : List Bool → List ParseStatus → List Notice
  | _, []                       => []
  | throws, .expect100 :: sts   => .interim :: answers cfg throws sts
  | throws, .request req :: sts =>
    .final (runJob cfg (throws.headD false) req) :: answers cfg throws.tail sts
  | throws, _ :: sts            => answers cfg throws sts

def heading (sts : List ParseStatus) : Heading :=
  sts.foldl (fun x st => match st with | .request req => req.heading | _ => x) {}

-- The last words to a peer whose stream cannot be parsed any further.
def refusal (x : Heading) : Option ParseStatus → List Notice
  | some (.badRequest _) => [.final (x.error 400 "malformed request")]
  | some (.tooLarge _)   => [.final (x.error 413 "request too large")]
  | _                    => []

-- Nothing is said after a response that closes the connection.
def untilClose : List Notice → List Notice
  | []      => []
  | m :: ms => m :: if m.closes then [] else untilClose ms

-- All that is said to a peer with the given stream.
def replies (cfg : Config) (throws : List Bool) (stream : Bytes) : List Notice :=
  let (sts, error) := ideal cfg.limits {} stream
  untilClose (answers cfg throws sts ++ refusal (heading sts) error)

end Serial

-- Up to where the connection has got with what a sequential server says about the same stream. Only
-- the loop can end this, with one error response of its own.
structure Connection.Sequel (cfg : Config) (c : Connection) (throws : List Bool)
    (said : List Notice) : Prop where
  agrees : said <+: Serial.replies cfg throws c.stream
  queued : c.notices = said ∨ ∃ o r, c.notices = said ++ [.final r] ∧ c.closeAfter ∧
    o ≠ .malformed ∧ Refuses (Serial.heading c.reports) o r
  wire   : c.log.flatMap Entry.handed <+: c.log.flatMap Entry.queued

end Http
