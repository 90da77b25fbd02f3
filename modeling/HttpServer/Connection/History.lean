import HttpServer.Connection.Basic

namespace Http

namespace Origin

-- The peer has not asked for this response.
def isRefusal : Origin → Bool
  | malformed | tooLarge | timeout => true
  | answer _ | overload _          => false

def isAnswer : Origin → Bool
  | answer _ => true
  | _        => false

-- The request that an error response is about, if any: it is not an earlier one.
def own : Origin → List Request
  | overload req => [req]
  | _            => []

end Origin

-- Where a connection is in its exchange of requests and responses: between two requests, with a
-- request that it has yet to hand on, waiting for the response to it, or on its way out.
inductive Phase
  | idle
  | heard (req : Request)
  | busy (job : Job)
  | closing

-- The order in which things have to happen on a connection.
inductive Phase.Step (cfg : Config) (id : ConnId) : Phase → Entry → Phase → Prop
  | received  : Step cfg id ph (.received bs) ph
  | sent      : Step cfg id ph (.sent bs) ph
  | interim   : Step cfg id .idle .interim .idle
  | parsed    : Step cfg id .idle (.parsed req) (.heard req)
  | submitted : Step cfg id (.heard req) (.submitted ⟨id, seq, req⟩) (.busy ⟨id, seq, req⟩)
  | overload  : Step cfg id (.heard req) (.final (.overload req) date res) .closing
  | answer    : res = runJob cfg throws job.req →
    Step cfg id (.busy job) (.final (.answer job) date res) .idle
  | refusal   : origin.isRefusal → ph = .idle ∨ ph = .closing →
    Step cfg id ph (.final origin date res) .closing

-- A log in which everything happened in order.
inductive History (cfg : Config) (id : ConnId) : List Entry → Phase → Prop
  | nil  : History cfg id [] .idle
  | snoc : History cfg id l ph → Phase.Step cfg id ph e ph' → History cfg id (l ++ [e]) ph'

namespace Phase

-- The jobs whose results are still to come, and the requests without a response.
@[simp]
def jobs : Phase → List Job
  | busy job => [job]
  | _        => []

@[simp]
def owed : Phase → List Request
  | heard req => [req]
  | busy job  => [job.req]
  | _         => []

end Phase

namespace Entry

@[simp]
def request : Entry → Option Request
  | parsed req => some req
  | _          => none

@[simp]
def job : Entry → Option Job
  | submitted job => some job
  | _             => none

-- A response that was computed by a worker.
@[simp]
def result : Entry → Option (Job × Response)
  | final (.answer job) _ res => some (job, res)
  | _                         => none

-- The request that a response belongs to.
@[simp]
def responded : Entry → Option Request
  | final (.answer job) _ _   => some job.req
  | final (.overload req) _ _ => some req
  | _                         => none

-- The bytes that went into the output buffer, and those that left it.
@[simp]
def queued : Entry → Bytes
  | interim          => kContinue
  | final _ date res => serializeResponse date res
  | _                => []

@[simp]
def handed : Entry → Bytes
  | sent bs => bs
  | _       => []

@[simp]
def arrived : Entry → Bytes
  | received bs => bs
  | _           => []

end Entry

namespace Connection

def requests (c : Connection) : List Request :=
  c.log.filterMap Entry.request

-- The jobs that the pool accepted.
def submissions (c : Connection) : List Job :=
  c.log.filterMap Entry.job

def results (c : Connection) : List (Job × Response) :=
  c.log.filterMap Entry.result

-- All bytes that were received.
def stream (c : Connection) : Bytes :=
  c.log.flatMap Entry.arrived

end Connection
end Http
