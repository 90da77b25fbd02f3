import HttpServer.Objects.Common
import HttpServer.Objects.Config

namespace Http

-- All the settings, with those that only concern the socket and the logs.
structure Settings extends Config where
  bind     : Bytes := ascii "::"
  port     : Nat := 8080
  portFile : Bytes := []
  backlog  : Nat := 1024
  verbose  : Bool := false

namespace Args

inductive Opt
  | bind
  | port
  | portFile
  | backlog
  | workers
  | queueSize
  | maxConnections
  | maxRequestLine
  | maxHeaders
  | maxBody
  | maxRequest
  | maxOutput
  | maxResponse
  | idleTimeout
  | shutdownTimeout
  | tickMs
  | verbose
  | help
  deriving DecidableEq, Repr

def opts : List (Bytes × Opt) := [
  (ascii "bind", .bind),
  (ascii "port", .port),
  (ascii "port-file", .portFile),
  (ascii "backlog", .backlog),
  (ascii "workers", .workers),
  (ascii "queue-size", .queueSize),
  (ascii "max-connections", .maxConnections),
  (ascii "max-request-line", .maxRequestLine),
  (ascii "max-headers", .maxHeaders),
  (ascii "max-body", .maxBody),
  (ascii "max-request", .maxRequest),
  (ascii "max-output", .maxOutput),
  (ascii "max-response", .maxResponse),
  (ascii "idle-timeout", .idleTimeout),
  (ascii "shutdown-timeout", .shutdownTimeout),
  (ascii "tick-ms", .tickMs),
  (ascii "verbose", .verbose),
  (ascii "help", .help)]

-- The short options, as in "b:p:w:vh".
def optstring : List (Byte × Opt) := [
  ('b'.toUInt8, .bind),
  ('p'.toUInt8, .port),
  ('w'.toUInt8, .workers),
  ('v'.toUInt8, .verbose),
  ('h'.toUInt8, .help)]

def Opt.requiredArgument : Opt → Bool
  | verbose | help => false
  | _ => true

-- What a call of `getopt_long` returns before it is done: an option with its `optarg`, or '?'.
inductive Event
  | given (o : Opt) (optarg : Bytes)
  | unknown
  deriving DecidableEq, Repr

-- A long option may be abbreviated as long as only one name starts that way.
def findLong (name : Bytes) : Option Opt :=
  match opts.find? (·.1 = name) with
  | some (_, o) => some o
  | none => match opts.filter (name.isPrefixOf ·.1) with
    | [(_, o)] => some o
    | _ => none

-- The options in one argument. The last one may have its `optarg` in the next argument.
def longOption (word : Bytes) : List Event × Option Opt :=
  let name := word.takeWhile (· ≠ '='.toUInt8)
  let value := word.drop name.length
  match findLong name with
  | none => ([.unknown], none)
  | some o =>
    if o.requiredArgument then
      if value.isEmpty then ([], some o) else ([.given o value.tail], none)
    else if value.isEmpty then ([.given o []], none)
    else ([.unknown], none)

def shortOptions : Bytes → List Event × Option Opt
  | [] => ([], none)
  | c :: cs => match optstring.lookup c with
    | none =>
      let (es, o) := shortOptions cs
      (.unknown :: es, o)
    | some o =>
      if o.requiredArgument then
        if cs.isEmpty then ([], some o) else ([.given o cs], none)
      else
        let (es, o') := shortOptions cs
        (.given o [] :: es, o')

-- All calls of `getopt_long`, and the arguments from `optind` on when they are done. The first
-- component is the option that waits for its `optarg`, if any. Arguments that are no options are
-- moved to the end; "--" ends the options.
def getoptLong : Option Opt → List Bytes → List Event × List Bytes
  | none, [] => ([], [])
  | some _, [] => ([.unknown], [])
  | some o, arg :: args =>
    let (es, rest) := getoptLong none args
    (.given o arg :: es, rest)
  | none, arg :: args =>
    if arg = ascii "--" then ([], args)
    else if (ascii "--").isPrefixOf arg then
      let (es, o) := longOption (arg.drop 2)
      let (es', rest) := getoptLong o args
      (es ++ es', rest)
    else if arg.length > 1 && arg.head? = some '-'.toUInt8 then
      let (es, o) := shortOptions arg.tail
      let (es', rest) := getoptLong o args
      (es ++ es', rest)
    else
      let (es, rest) := getoptLong none args
      (es, arg :: rest)

def isSpace (c : Byte) : Bool :=
  c == sp || (9 ≤ c && c ≤ 13)

def isDigit (c : Byte) : Bool :=
  '0'.toUInt8 ≤ c && c ≤ '9'.toUInt8

-- The value for base 10, the text from `end` on, and whether `errno` is set. A minus sign negates the
-- value modulo 2^64.
def strtoull (s : Bytes) : Nat × Bytes × Bool :=
  let t := s.dropWhile isSpace
  let negative := t.head? = some '-'.toUInt8
  let t := if negative || t.head? = some '+'.toUInt8 then t.tail else t
  let digits := t.takeWhile isDigit
  if digits.isEmpty then (0, s, false)
  else
    let v := digits.foldl (fun v c => v * 10 + (c - '0'.toUInt8).toNat) 0
    let stop := t.drop digits.length
    if v ≥ 2 ^ 64 then (2 ^ 64 - 1, stop, true)
    else (if negative then (2 ^ 64 - v) % 2 ^ 64 else v, stop, false)

def parseSize (s : Bytes) : Option Nat :=
  if s.isEmpty then none
  else
    let (v, stop, errno) := strtoull s
    if errno || stop.length == s.length || !stop.isEmpty then none else some v

def parsePort (s : Bytes) : Option Nat :=
  match parseSize s with
  | none   => none
  | some v => if v > 65535 then none else some v

-- A number of seconds: whether it is below zero, and what the two timeouts make of it.
structure Seconds where
  negative : Bool
  idle     : Option Nat
  shutdown : Nat

-- What `parse_args` gets from its environment: the number of processors, and the number that `strtod`
-- finds in a text, if it accepts the whole text.
structure Env where
  hardwareConcurrency : Nat
  strtod              : Bytes → Option Seconds

def parseDouble (env : Env) (s : Bytes) : Option Seconds :=
  if s.isEmpty then none else env.strtod s

def usage (cfg : Settings) : Bytes :=
  ascii "usage: http_server [options]\n" ++
  ascii "  -b, --bind <addr>        bind address (default \"::\" = dual-stack IPv6+IPv4)\n" ++
  ascii "  -p, --port <port>        port, 0 = ephemeral (default 8080)\n" ++
  ascii "      --port-file <path>   write the actual bound port to <path>\n" ++
  ascii "      --backlog <n>        listen backlog (default 1024)\n" ++
  ascii "  -w, --workers <n>        worker threads (default min(nproc,8)=" ++ decimal cfg.workers ++
  ascii ")\n" ++
  ascii "      --queue-size <n>     bounded worker queue (default 1024)\n" ++
  ascii "      --max-connections <n> concurrent connection limit (default 4096)\n" ++
  ascii "      --max-request-line <bytes>  (default 8192)\n" ++
  ascii "      --max-headers <bytes>       (default 65536)\n" ++
  ascii "      --max-body <bytes>          (default 8388608)\n" ++
  ascii "      --max-request <bytes>       line+headers+body cap (auto-raised)\n" ++
  ascii "      --max-output <bytes>        per-connection output cap (default 16MiB)\n" ++
  ascii "      --max-response <bytes>      handler body cap (default 8MiB)\n" ++
  ascii "      --idle-timeout <sec>        408 after this much client silence (default 15)\n" ++
  ascii "      --shutdown-timeout <sec>    graceful drain budget (default 5)\n" ++
  ascii "      --tick-ms <ms>              timeout scan interval (default 200)\n" ++
  ascii "  -v, --verbose            log per-request and per-connection detail\n" ++
  ascii "  -h, --help               this text\n"

-- The variables of the loop in `parse_args`.
structure State where
  cfg    : Settings
  bad    : Bytes := []
  failed : Bool := false

namespace State

def complain (s : State) (text : Bytes) : State :=
  { s with bad := s.bad ++ text, failed := true }

def fail (s : State) (opt : String) (value : Bytes) : State :=
  s.complain (ascii "invalid value for " ++ ascii opt ++ ascii ": '" ++ value ++ ascii "'\n")

-- A size goes to its setting even if it is then refused.
def size (s : State) (opt : String) (store : Settings → Nat → Settings) (ok : Nat → Bool)
    (optarg : Bytes) : State :=
  match parseSize optarg with
  | none => s.fail opt optarg
  | some v =>
    let s := { s with cfg := store s.cfg v }
    if ok v then s else s.fail opt optarg

-- A number is only stored if it is in range.
def number (s : State) (opt : String) (store : Settings → Nat → Settings) (ok : Nat → Bool)
    (optarg : Bytes) : State :=
  match parseSize optarg with
  | none   => s.fail opt optarg
  | some v => if ok v then { s with cfg := store s.cfg v } else s.fail opt optarg

def seconds (env : Env) (s : State) (opt : String) (store : Settings → Seconds → Settings)
    (optarg : Bytes) : State :=
  match parseDouble env optarg with
  | none => s.fail opt optarg
  | some v =>
    let s := { s with cfg := store s.cfg v }
    if v.negative then s.fail opt optarg else s

-- The body of the loop, except for `help`, which leaves it.
def apply (env : Env) (s : State) (optarg : Bytes) : Opt → State
  | .bind => { s with cfg := { s.cfg with bind := optarg } }
  | .port => match parsePort optarg with
    | none   => s.fail "--port" optarg
    | some v => { s with cfg := { s.cfg with port := v } }
  | .portFile => { s with cfg := { s.cfg with portFile := optarg } }
  | .backlog =>
    s.number "--backlog" ({ · with backlog := · }) (fun v => v ≠ 0 && v ≤ 65535) optarg
  | .workers => s.size "--workers" ({ · with workers := · }) (· ≠ 0) optarg
  | .queueSize => s.size "--queue-size" ({ · with maxQueue := · }) (· ≠ 0) optarg
  | .maxConnections => s.size "--max-connections" ({ · with maxConnections := · }) (· ≠ 0) optarg
  | .maxRequestLine =>
    s.size "--max-request-line" ({ · with maxRequestLineBytes := · }) (· ≥ 16) optarg
  | .maxHeaders => s.size "--max-headers" ({ · with maxHeaderBytes := · }) (· ≥ 64) optarg
  | .maxBody => s.size "--max-body" ({ · with maxBodyBytes := · }) (fun _ => true) optarg
  | .maxRequest => s.size "--max-request" ({ · with maxRequestBytes := · }) (fun _ => true) optarg
  | .maxOutput => s.size "--max-output" ({ · with maxOutputBytes := · }) (· ≥ 1024) optarg
  | .maxResponse => s.size "--max-response" ({ · with maxResponseBytes := · }) (· ≥ 1) optarg
  | .idleTimeout =>
    s.seconds env "--idle-timeout" (fun cfg v => { cfg with idleTimeout := v.idle }) optarg
  | .shutdownTimeout =>
    s.seconds env "--shutdown-timeout" (fun cfg v => { cfg with shutdownTimeout := v.shutdown }) optarg
  | .tickMs => s.number "--tick-ms" ({ · with tickMs := · }) (fun v => 10 ≤ v && v ≤ 5000) optarg
  | .verbose => { s with cfg := { s.cfg with verbose := true } }
  | .help => s

-- The loop over the options. It fails if the usage is asked for, with the settings so far.
def loop (env : Env) (s : State) : List Event → Except Settings State
  | [] => .ok s
  | .given .help _ :: _ => .error s.cfg
  | .given o optarg :: es => (s.apply env optarg o).loop env es
  | .unknown :: es => (s.complain (ascii "unrecognised option (see --help)\n")).loop env es

end State

-- The sum is one of `std::size_t`.
def raise (cfg : Settings) : Settings :=
  let sum := (cfg.maxBodyBytes + cfg.maxHeaderBytes) % 2 ^ 64
  if cfg.maxRequestBytes < sum then { cfg with maxRequestBytes := sum } else cfg

-- The arguments do not include the name of the program. An error carries the text for the user and
-- whether the program is to exit with success.
def parseArgs (env : Env) (args : List Bytes) (cfg : Settings) : Except (Bytes × Bool) Settings :=
  let hw := env.hardwareConcurrency
  let cfg := { cfg with workers := if hw > 0 then min hw 8 else 4 }
  let (es, rest) := getoptLong none args
  match State.loop env { cfg := cfg } es with
  | .error cfg => .error (usage cfg, true)
  | .ok s =>
    let s := match rest with
      | [] => s
      | arg :: _ =>
        s.complain (ascii "unexpected positional argument: '" ++ arg ++ ascii "'\n")
    let cfg := raise s.cfg
    if s.failed then .error (s.bad ++ usage cfg, false) else .ok cfg

end Args
end Http
