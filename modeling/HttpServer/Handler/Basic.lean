import HttpServer.Objects.Config

open Text

namespace Http

def kMaxSleepMs : Nat := 10000

def finalize (res : Response) (req : Request) : Response :=
  { res with
    reqMajor  := req.major
    reqMinor  := req.minor
    keepAlive := req.keepAlive
    sendBody  := if req.isHead then false else res.sendBody }

def textResponse (req : Request) (status : Nat) (body : Bytes)
    (contentType : Bytes := ascii "text/plain; charset=utf-8") : Response :=
  let res : Response := { status := status, body := body }
  finalize (res.set (ascii "Content-Type") contentType) req

def errorResponse (req : Request) (status : Nat) (detail : Bytes) : Response :=
  let res := makeErrorResponse status detail req.keepAlive
  { res with
    reqMajor := req.major
    reqMinor := req.minor
    sendBody := if req.isHead then false else res.sendBody }

def optionsResponse (req : Request) : Response :=
  let res : Response := { status := 204 }
  { (res.set (ascii "Allow") kAllowList).set
      (ascii "Content-Type") (ascii "text/plain; charset=utf-8") with
    noBodyFraming := true
    sendBody      := false
    keepAlive     := req.keepAlive
    reqMajor      := req.major
    reqMinor      := req.minor }

def isDigit (c : Byte) : Bool :=
  '0'.toUInt8 ≤ c && c ≤ '9'.toUInt8

-- The digit loop of `extract_number`, started with the value read so far.
def saturate : Nat → Bytes → Nat
  | v, [] => v
  | v, c :: cs =>
    let v' := v * 10 + (c - '0'.toUInt8).toNat
    if v' > 2 ^ 40 then 2 ^ 40 else saturate v' cs

-- Accepts "/p/123", "/p/123?x=y" and "/p?n=123" for the start "/p" of the target.
def extractNumber (target start : Bytes) : Option Nat :=
  if target.length < start.length || target.take start.length ≠ start then none
  else
    let rest := target.drop start.length
    let digits := (rest.dropWhile (!isDigit ·)).takeWhile isDigit
    if digits.isEmpty then none else some (saturate 0 digits)

def hexChar (n : Byte) : Byte :=
  ((ascii "0123456789abcdef")[(n &&& 0xf).toNat]?).getD 0

def jsonEscapeByte (c : Byte) : Bytes :=
  if c = '"'.toUInt8 then ascii "\\\""
  else if c = '\\'.toUInt8 then ascii "\\\\"
  else if c = lf then ascii "\\n"
  else if c = cr then ascii "\\r"
  else if c = htab then ascii "\\t"
  else if c < 0x20 || c ≥ 0x7f then ascii "\\u00" ++ [hexChar (c >>> 4), hexChar c]
  else [c]

def jsonEscape (s : Bytes) : Bytes :=
  s.flatMap jsonEscapeByte

def bodyPreview (req : Request) (limit : Nat := 256) : Bytes :=
  ascii "\x7b\"method\":\"" ++ jsonEscape req.methodName ++
  ascii "\",\"target\":\"" ++ jsonEscape req.target ++
  ascii "\",\"version\":\"1." ++ (if req.minor = 0 then ascii "0" else ascii "1") ++
  ascii "\",\"headers\":" ++ decimal req.headers.length ++
  ascii ",\"body_bytes\":" ++ decimal req.body.length ++
  (if req.body.isEmpty then []
    else ascii ",\"body_preview\":\"" ++ jsonEscape (substr req.body 0 limit) ++ ascii "\"") ++
  ascii "\x7d\n"

-- The target up to the query.
def pathOf (target : Bytes) : Bytes :=
  match find target '?'.toUInt8 0 with
  | none   => target
  | some q => substr target 0 q

def echoType (req : Request) (fallback : Bytes) : Bytes :=
  let ctype := req.header (ascii "Content-Type")
  if ctype.isEmpty || !validHeaderValue ctype then fallback else ctype

def statusJson : Bytes :=
  ascii "\x7b\"status\":\"ok\",\"server\":\"cpp-http\",\"path\":\"/\"\x7d\n"

-- The sleep itself has no effect on the response.
def slowResponse (req : Request) (ms : Nat) : Response :=
  let cappedMs := min ms kMaxSleepMs
  textResponse req 200 (ascii "slept " ++ decimal cappedMs ++ ascii "ms\n")

def handleGetHead (req : Request) (cfg : Config) : Response :=
  let t := req.target
  let path := pathOf t
  if path = ascii "/" || path = ascii "/index.html" then
    textResponse req 200 statusJson (ascii "application/json")
  else if path = ascii "/health" then textResponse req 200 (ascii "ok\n")
  else if path = ascii "/info" then
    textResponse req 200 (bodyPreview req) (ascii "application/json")
  else if path = ascii "/echo" then
    textResponse req 200 req.body (echoType req (ascii "text/plain; charset=utf-8"))
  else if path = ascii "/boom" then errorResponse req 500 (ascii "simulated handler failure")
  else if path = ascii "/close" then
    { textResponse req 200 (ascii "closing\n") with closeAfter := true, keepAlive := false }
  else match extractNumber t (ascii "/big") with
    | some n =>
      let capped := min n cfg.maxResponseBytes
      textResponse req 200 (List.replicate capped 'x'.toUInt8)
    | none => match extractNumber t (ascii "/slow") with
      | some ms => slowResponse req ms
      | none    => errorResponse req 404 (ascii "no such resource")

def handlePost (req : Request) (_cfg : Config) : Response :=
  let t := req.target
  let path := pathOf t
  if path = ascii "/info" then
    textResponse req 200 (bodyPreview req) (ascii "application/json")
  else if path = ascii "/health" then textResponse req 200 (ascii "ok\n")
  else if path = ascii "/" then textResponse req 200 statusJson (ascii "application/json")
  else match extractNumber t (ascii "/slow") with
    | some ms => slowResponse req ms
    | none =>
      if path = ascii "/echo" then
        textResponse req 200 req.body (echoType req (ascii "application/octet-stream"))
      else if path = ascii "/upload" then
        let body := ascii "\x7b\"received\":" ++ decimal req.body.length ++
          ascii ",\"sha_hint\":" ++ decimal (req.body.length % 1000003) ++ ascii "\x7d\n"
        textResponse req 200 body (ascii "application/json")
      else if path = ascii "/boom" then errorResponse req 500 (ascii "simulated handler failure")
      else errorResponse req 404 (ascii "no such resource")

def handleRequest (req : Request) (cfg : Config) : Response :=
  if req.isStarTarget then
    if req.isOptions then optionsResponse req
    else errorResponse req 400 (ascii "'*' target is only valid for OPTIONS")
  else match req.method with
    | .get | .head => handleGetHead req cfg
    | .post        => handlePost req cfg
    | .options     => optionsResponse req
    | .unknown     => errorResponse req 405 (ascii "method not allowed")

-- What the job of `Connection::submit` makes of a request. The handler may throw (it allocates).
def runJob (cfg : Config) (throws : Bool) (req : Request) : Response :=
  let res := if throws then makeErrorResponse 500 (ascii "handler failed") req.keepAlive
    else handleRequest req cfg
  { res with
    reqMajor  := req.major
    reqMinor  := req.minor
    sendBody  := if req.isHead then false else res.sendBody
    keepAlive := if !req.keepAlive then false else res.keepAlive }

end Http
