import HttpServer.Objects.Message

namespace Http

def kAllowList : Bytes :=
  ascii "GET, HEAD, POST, OPTIONS"

def isTchar (c : Byte) : Bool :=
  ('a'.toUInt8 ≤ c && c ≤ 'z'.toUInt8) ||
  ('A'.toUInt8 ≤ c && c ≤ 'Z'.toUInt8) ||
  ('0'.toUInt8 ≤ c && c ≤ '9'.toUInt8) ||
  (ascii "!#$%&'*+-.^_`|~").contains c

def isOws (c : Byte) : Bool :=
  c == sp || c == htab

-- The bytes below 0x20 and DEL.
def isControl (c : Byte) : Bool :=
  c < 0x20 || c == 0x7f

def statusReason : Nat → String
  | 100 => "Continue"
  | 200 => "OK"
  | 201 => "Created"
  | 204 => "No Content"
  | 304 => "Not Modified"
  | 400 => "Bad Request"
  | 401 => "Unauthorized"
  | 403 => "Forbidden"
  | 404 => "Not Found"
  | 405 => "Method Not Allowed"
  | 408 => "Request Timeout"
  | 411 => "Length Required"
  | 413 => "Payload Too Large"
  | 414 => "URI Too Long"
  | 415 => "Unsupported Media Type"
  | 431 => "Request Header Fields Too Large"
  | 500 => "Internal Server Error"
  | 501 => "Not Implemented"
  | 503 => "Service Unavailable"
  | 505 => "HTTP Version Not Supported"
  | _   => "Unknown"

def validToken (s : Bytes) : Bool :=
  !s.isEmpty && s.all isTchar

def validHeaderValue (s : Bytes) : Bool :=
  s.all fun c => c == htab || !isControl c

-- The digit loop of `parseContentLength`, started with the value read so far.
def parseDigits : Nat → Bytes → Option Nat
  | v, [] => some v
  | v, c :: cs =>
    if c < '0'.toUInt8 || c > '9'.toUInt8 then none
    else
      let v' := v * 10 + (c - '0'.toUInt8).toNat
      if v' > 2 ^ 52 then none else parseDigits v' cs

def parseContentLength (value : Bytes) : Option Nat :=
  if value.isEmpty || value.length > 19 then none
  else if value.length > 1 && value.head? == some '0'.toUInt8 then none
  else parseDigits 0 value

def trimOws (s : Bytes) : Bytes :=
  Text.trim isOws s

def tolower (c : Byte) : Byte :=
  if 'A'.toUInt8 ≤ c && c ≤ 'Z'.toUInt8 then c + 32 else c

def equalsIgnoreCase (a b : Bytes) : Bool :=
  a.length == b.length && (a.zip b).all fun (x, y) => tolower x == tolower y

def toLower (s : Bytes) : Bytes :=
  s.map tolower

def splitList (value : Bytes) : List Bytes :=
  (Text.split ','.toUInt8 value).map trimOws

def sanitizeHeaderValue (value : Bytes) : Bytes :=
  value.filter (!isControl ·)

-- First match, or the empty string.
def Request.header (r : Request) (name : Bytes) : Bytes :=
  match r.headers.find? (equalsIgnoreCase ·.name name) with
  | some h => h.value
  | none   => []

def Request.headerAll (r : Request) (name : Bytes) : List Bytes :=
  (r.headers.filter (equalsIgnoreCase ·.name name)).map (·.value)

-- `std::to_string` and the conversion `%d` of a non-negative number.
def decimal (n : Nat) : Bytes :=
  (Nat.toDigits 10 n).map Char.toUInt8

def statusLine (res : Response) : Bytes :=
  ascii "HTTP/" ++ decimal res.reqMajor ++ ascii "." ++ decimal res.reqMinor ++ ascii " " ++
  decimal res.status ++ ascii " " ++ ascii (statusReason res.status) ++ crlf

def headerLine (h : Header) : Bytes :=
  sanitizeHeaderValue h.name ++ ascii ": " ++ sanitizeHeaderValue h.value ++ crlf

-- What `serialize_response` appends to its output. The date is the text that `http_date_now`
-- returned for this response.
def serializeResponse (date : Bytes) (res : Response) : Bytes :=
  let haveContentLength := res.headers.any (equalsIgnoreCase ·.name (ascii "Content-Length"))
  let haveContentType := res.headers.any (equalsIgnoreCase ·.name (ascii "Content-Type"))
  statusLine res ++
  ascii "Date: " ++ date ++ crlf ++
  ascii "Server: cpp-http/0.1\r\n" ++
  res.headers.flatMap headerLine ++
  (if !res.noBodyFraming && !haveContentLength
    then ascii "Content-Length: " ++ decimal res.body.length ++ crlf else []) ++
  (if !res.noBodyFraming && !haveContentType
    then ascii "Content-Type: text/plain; charset=utf-8\r\n" else []) ++
  (if !res.keepAlive then ascii "Connection: close\r\n"
    else if res.reqMajor == 1 && res.reqMinor == 0 then ascii "Connection: keep-alive\r\n"
    else []) ++
  crlf ++
  (if res.sendBody && !res.body.isEmpty then res.body else [])

def makeErrorResponse (status : Nat) (detail : Bytes) (keepAlive : Bool) : Response :=
  let noBody := status == 204 || status == 304
  let res : Response := {
    status        := status
    keepAlive     := keepAlive
    body          := if noBody then []
                     else ascii (statusReason status) ++ ascii ": " ++ detail ++ ascii "\n"
    noBodyFraming := noBody
    sendBody      := !noBody
  }
  match status with
  | 405 => res.set (ascii "Allow") kAllowList
  | 503 => res.set (ascii "Retry-After") (ascii "1")
  | _   => res

end Http
