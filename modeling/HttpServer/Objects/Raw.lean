import HttpServer.Objects.Common

namespace Http

-- A `Response` with the numbers as they are declared, for responses that no handler makes.
structure RawResponse where
  status        : Int32 := 200
  headers       : List Header := []
  body          : Bytes := []
  keepAlive     : Bool := true
  sendBody      : Bool := true
  noBodyFraming : Bool := false
  reqMajor      : Int32 := 1
  reqMinor      : Int32 := 1
  deriving DecidableEq, Repr

-- The conversion `%d`.
def decimalInt (n : Int) : Bytes :=
  if n < 0 then '-'.toUInt8 :: decimal n.natAbs else decimal n.natAbs

def reasonInt (n : Int) : String :=
  if n < 0 then "Unknown" else statusReason n.natAbs

-- What `append(line, written)` finds in an array of `n` characters after `snprintf`. It fails if the
-- text did not fit with its terminator, since then `written` is larger than the array.
def printed (n : Nat) (text : Bytes) : Option Bytes :=
  if text.length < n then some text else none

namespace RawResponse

def statusText (res : RawResponse) : Bytes :=
  ascii "HTTP/" ++ decimalInt res.reqMajor.toInt ++ ascii "." ++ decimalInt res.reqMinor.toInt ++
  ascii " " ++ decimalInt res.status.toInt ++ ascii " " ++ ascii (reasonInt res.status.toInt)

def serialize (date : Bytes) (res : RawResponse) : Option Bytes := do
  let line ← printed 96 (res.statusText ++ crlf)
  let haveContentLength := res.headers.any (equalsIgnoreCase ·.name (ascii "Content-Length"))
  let haveContentType := res.headers.any (equalsIgnoreCase ·.name (ascii "Content-Type"))
  some <|
    line ++
    ascii "Date: " ++ date ++ crlf ++
    ascii "Server: cpp-http/0.1\r\n" ++
    res.headers.flatMap headerLine ++
    (if !res.noBodyFraming && !haveContentLength
      then ascii "Content-Length: " ++ decimal res.body.length ++ crlf else []) ++
    (if !res.noBodyFraming && !haveContentType
      then ascii "Content-Type: text/plain; charset=utf-8\r\n" else []) ++
    (if !res.keepAlive then ascii "Connection: close\r\n"
      else if res.reqMajor == 1 && res.reqMinor == 0 then ascii "Connection: keep-alive\r\n"
      else []) ++
    crlf ++
    (if res.sendBody && !res.body.isEmpty then res.body else [])

-- The lines that are written for a response without being asked for.
def lengthLine (res : RawResponse) : List Bytes :=
  if res.noBodyFraming || res.headers.any (equalsIgnoreCase ·.name (ascii "Content-Length")) then []
  else [ascii "Content-Length: " ++ decimal res.body.length]

def typeLine (res : RawResponse) : List Bytes :=
  if res.noBodyFraming || res.headers.any (equalsIgnoreCase ·.name (ascii "Content-Type")) then []
  else [ascii "Content-Type: text/plain; charset=utf-8"]

def connectionLine (res : RawResponse) : List Bytes :=
  if !res.keepAlive then [ascii "Connection: close"]
  else if res.reqMajor = 1 ∧ res.reqMinor = 0 then [ascii "Connection: keep-alive"]
  else []

-- The lines of the head, without the empty one at its end.
def lines (date : Bytes) (res : RawResponse) : List Bytes :=
  [res.statusText, ascii "Date: " ++ date, ascii "Server: cpp-http/0.1"] ++
  res.headers.map (fun h => sanitizeHeaderValue h.name ++ ascii ": " ++ sanitizeHeaderValue h.value) ++
  res.lengthLine ++ res.typeLine ++ res.connectionLine

def head (date : Bytes) (res : RawResponse) : Bytes :=
  (res.lines date).flatMap (· ++ crlf) ++ crlf

end RawResponse

def Response.raw (res : Response) : RawResponse where
  status        := .ofNat res.status
  headers       := res.headers
  body          := res.body
  keepAlive     := res.keepAlive
  sendBody      := res.sendBody
  noBodyFraming := res.noBodyFraming
  reqMajor      := .ofNat res.reqMajor
  reqMinor      := .ofNat res.reqMinor

end Http
