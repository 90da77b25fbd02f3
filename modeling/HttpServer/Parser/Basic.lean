import HttpServer.Objects.Common

open Text

namespace Http

structure ParserLimits where
  maxRequestLineBytes : Nat := 8 * 1024
  maxHeaderBytes      : Nat := 64 * 1024
  maxBodyBytes        : Nat := 8 * 1024 * 1024
  maxRequestBytes     : Nat := 9 * 1024 * 1024
  maxHeaderFields     : Nat := 256
  deriving DecidableEq, Repr

-- The status of a call carries what the call writes to its output parameters: the request for
-- `request`, the message for the two errors. All other calls leave the message empty.
inductive ParseStatus
  | needMore
  | request (out : Request)
  | expect100
  | badRequest (err : String)
  | tooLarge (err : String)
  deriving DecidableEq, Repr

namespace ParseStatus

def IsTooLarge : ParseStatus → Prop
  | tooLarge _ => True
  | _          => False

instance : DecidablePred IsTooLarge
  | tooLarge _ => .isTrue trivial
  | needMore | request _ | expect100 | badRequest _ => .isFalse id

end ParseStatus

inductive Parser.State
  | requestLine
  | headers
  | bodyFixed
  | bodyChunked
  | chunkTrailer
  deriving DecidableEq, Repr

-- The members of `HttpRequestParser`, except for the limits, which are a parameter of every
-- function below.
structure Parser where
  state           : Parser.State := .requestLine
  cur             : Request := {}
  scan            : Nat := 0
  consumed        : Nat := 0
  headerBytes     : Nat := 0
  bodyRemaining   : Nat := 0
  chunkRemaining  : Nat := 0
  expectChunkCrlf : Bool := false
  chunked         : Bool := false
  expectSent      : Bool := false
  tooLarge        : Bool := false
  body            : Bytes := []
  deriving DecidableEq, Repr

def methodFrom (m : Bytes) : Method :=
  if m = ascii "GET" then .get
  else if m = ascii "HEAD" then .head
  else if m = ascii "POST" then .post
  else if m = ascii "OPTIONS" then .options
  else .unknown

def hexDigit (c : Byte) : Option Nat :=
  if '0'.toUInt8 ≤ c && c ≤ '9'.toUInt8 then some (c - '0'.toUInt8).toNat
  else if 'a'.toUInt8 ≤ c && c ≤ 'f'.toUInt8 then some ((c - 'a'.toUInt8).toNat + 10)
  else if 'A'.toUInt8 ≤ c && c ≤ 'F'.toUInt8 then some ((c - 'A'.toUInt8).toNat + 10)
  else none

namespace Parser

def reset : Parser :=
  {}

-- What `line_ready` reports: no LF yet, a LF without a CR before it, or a line with its length.
inductive Line
  | pending
  | bareLf
  | ready (lineEnd : Nat)
  deriving DecidableEq, Repr

-- The second component is the new value of the cursor `scan_`.
def lineReady (p : Parser) (buf : Bytes) : Line × Nat :=
  match find buf lf (min p.scan buf.length) with
  | none   => (.pending, buf.length)
  | some i =>
    if i == 0 || buf[i - 1]? != some cr then (.bareLf, i) else (.ready (i - 1), i + 1)

-- The result of reading a line into the request: an error carries the message and whether the
-- flag `too_large_` is raised.
abbrev LineResult (α : Type) := Except (String × Bool) α

-- The checks of `parse_request_line` once the line is cut into its three fields. The version is
-- written to the request before the target is checked, so a failed call changes the request too.
def parseRequestFields (lim : ParserLimits) (m t v : Bytes) (out : Request) :
    LineResult Unit × Request :=
  if m.isEmpty || t.isEmpty || v.isEmpty then (.error ("empty request-line field", false), out)
  else if !validToken m then (.error ("invalid method", false), out)
  else if v ≠ ascii "HTTP/1.0" && v ≠ ascii "HTTP/1.1" then
    (.error ("unsupported HTTP version (only 1.0 and 1.1)", false), out)
  else
    let out := { out with
      method     := methodFrom m
      methodName := m
      major      := 1
      minor      := if v.getLast? = some '0'.toUInt8 then 0 else 1 }
    if t = ascii "*" then
      if out.method ≠ .options then
        (.error ("'*' request-target is only valid for OPTIONS", false), out)
      else (.ok (), { out with target := t })
    else if t.head? ≠ some '/'.toUInt8 then
      (.error ("only origin-form request targets are accepted", false), out)
    else if t.length > 1 && t[1]? == some '/'.toUInt8 then
      (.error ("protocol-relative request target is not accepted", false), out)
    else if (find t '#'.toUInt8 0).isSome then
      (.error ("request target must not contain a fragment", false), out)
    else if t.length > lim.maxRequestLineBytes then
      (.error ("request target too long", true), out)
    else (.ok (), { out with target := t })

def parseRequestLine (lim : ParserLimits) (line : Bytes) (out : Request) :
    LineResult Unit × Request :=
  if line.isEmpty then (.error ("empty request line", false), out)
  else if line.any isControl then (.error ("control character in request line", false), out)
  else match find line sp 0 with
    | none => (.error ("malformed request line", false), out)
    | some sp1 => match find line sp (sp1 + 1) with
      | none => (.error ("malformed request line (missing HTTP version)", false), out)
      | some sp2 =>
        if (find line sp (sp2 + 1)).isSome then
          (.error ("extra whitespace in request line", false), out)
        else
          let m := substr line 0 sp1
          let t := substr line (sp1 + 1) (sp2 - sp1 - 1)
          let v := line.drop (sp2 + 1)
          parseRequestFields lim m t v out

def parseHeaderLine (lim : ParserLimits) (line : Bytes) (out : Request) : LineResult Request :=
  if line.head? = some sp || line.head? = some htab then
    .error ("obs-fold header continuation is not accepted", false)
  else match find line ':'.toUInt8 0 with
    | none => .error ("malformed header line (no colon)", false)
    | some colon =>
      if colon == 0 then .error ("empty header name", false)
      else
        let name := substr line 0 colon
        let value := trimOws (line.drop (colon + 1))
        if !validToken name then .error ("invalid header name", false)
        else if !validHeaderValue value then .error ("invalid characters in header value", false)
        else if out.headers.length ≥ lim.maxHeaderFields then
          .error ("too many header fields", true)
        else .ok { out with headers := out.headers ++ [⟨name, value⟩] }

-- The loop over the `Connection` tokens: whether "close" and "keep-alive" were seen, or `none`
-- at the first option that is neither.
def connectionTokens (close keepAlive : Bool) : List Bytes → Option (Bool × Bool)
  | [] => some (close, keepAlive)
  | token :: tokens =>
    let t := toLower token
    if t.isEmpty then connectionTokens close keepAlive tokens
    else if t = ascii "close" then connectionTokens true keepAlive tokens
    else if t = ascii "keep-alive" then connectionTokens close true tokens
    else none

inductive Framing
  | chunked
  | length (n : Nat)
  | absent
  deriving DecidableEq, Repr

-- The framing part of `finish_headers`: first `use_chunked`, then the length.
def useChunked (cur : Request) : LineResult Bool :=
  match cur.headerAll (ascii "Transfer-Encoding") with
  | [] => .ok false
  | te :: more =>
    if cur.minor < 1 then .error ("chunked transfer encoding requires HTTP/1.1", false)
    else if !more.isEmpty then .error ("multiple Transfer-Encoding headers", false)
    else match splitList te with
      | [token] =>
        if equalsIgnoreCase token (ascii "chunked") then .ok true
        else .error ("unsupported Transfer-Encoding", false)
      | _ => .error ("ambiguous Transfer-Encoding", false)

def framing (lim : ParserLimits) (cur : Request) : LineResult Framing :=
  match useChunked cur with
  | .error e => .error e
  | .ok useChunked =>
    match cur.headerAll (ascii "Content-Length") with
    | [] => .ok (if useChunked then .chunked else .absent)
    | cl :: more =>
      if useChunked then .error ("Content-Length together with Transfer-Encoding", false)
      else if !more.isEmpty then .error ("duplicate Content-Length header", false)
      else match splitList cl with
        | [value] => match parseContentLength value with
          | none => .error ("malformed Content-Length", false)
          | some length =>
            if length > lim.maxBodyBytes then
              .error ("Content-Length exceeds the body limit", true)
            else .ok (.length length)
        | _ => .error ("multiple Content-Length values in one header", false)

inductive HeadOutcome
  | bodyPending
  | requestReady
  | send100
  | error (err : String)
  deriving DecidableEq, Repr

-- The `Expect` part of `finish_headers`, reached only when a body is due.
def finishExpect (p : Parser) : HeadOutcome × Parser :=
  let expect := p.cur.header (ascii "Expect")
  if expect.isEmpty then (.bodyPending, p)
  else if !equalsIgnoreCase (trimOws expect) (ascii "100-continue") then
    (.error "unsupported Expect", p)
  else if p.cur.minor ≥ 1 && !p.expectSent then
    (.send100, { p with expectSent := true, cur := { p.cur with expect100Continue := true } })
  else (.bodyPending, p)

def finishHeaders (lim : ParserLimits) (p : Parser) : HeadOutcome × Parser :=
  let p := { p with tooLarge := false }
  let tokens := (p.cur.headerAll (ascii "Connection")).flatMap splitList
  match connectionTokens false false tokens with
  | none => (.error "unsupported Connection option", p)
  | some (closeRequested, kaRequested) =>
    let keepAlive := !closeRequested && (if p.cur.minor ≥ 1 then true else kaRequested)
    let p := { p with cur := { p.cur with keepAlive := keepAlive } }
    match framing lim p.cur with
    | .error (err, big) => (.error err, { p with tooLarge := big })
    | .ok .chunked => finishExpect { p with
        chunked := true, chunkRemaining := 0, expectChunkCrlf := false, state := .bodyChunked }
    | .ok (.length n) =>
      if n > 0 then finishExpect { p with bodyRemaining := n, state := .bodyFixed }
      else (.requestReady, p)
    | .ok .absent => (.requestReady, p)

-- The digit loop of `parse_chunk_size`, started with the value read so far.
def parseHex : Nat → Bytes → LineResult Nat
  | v, [] => .ok v
  | v, c :: cs => match hexDigit c with
    | none => .error ("malformed chunk size", false)
    | some d =>
      let v' := v * 16 + d
      if v' > 2 ^ 52 then .error ("chunk size out of range", true) else parseHex v' cs

-- A chunk-size line without its extension.
def chunkHex (line : Bytes) : Bytes :=
  match find line ';'.toUInt8 0 with
  | none      => line
  | some semi => substr line 0 semi

def parseChunkSize (line : Bytes) : LineResult Nat :=
  let hex := chunkHex line
  if hex.isEmpty || hex.length > 16 then .error ("malformed chunk size", false)
  else parseHex 0 hex

-- One pass through the `switch` of `parse`: it returns from the call, or goes back to the head of
-- the outer loop (`outer = true`) or of the inner loop of the current `case`.
inductive Pass
  | ret (status : ParseStatus) (p : Parser) (buf : Bytes)
  | loop (outer : Bool) (p : Parser) (buf : Bytes)
  deriving DecidableEq, Repr

-- The return of a call whose line or header block was refused.
def fail (p : Parser) (err : String) (big : Bool) (buf : Bytes) : Pass :=
  let p := { p with tooLarge := p.tooLarge || big }
  .ret (if p.tooLarge then .tooLarge err else .badRequest err) p buf

def emitRequest (p : Parser) (buf : Bytes) : Pass :=
  .ret (.request { p.cur with
    body := p.body, headerBytes := p.headerBytes, totalBytes := p.consumed }) reset buf

def passRequestLine (lim : ParserLimits) (p : Parser) (buf : Bytes) : Pass :=
  match lineReady p buf with
  | (.pending, scan) =>
    if buf.length > lim.maxRequestLineBytes then
      .ret (.tooLarge "request line too long") { p with scan := scan } buf
    else .ret .needMore { p with scan := scan } buf
  | (.bareLf, scan) =>
    .ret (.badRequest "bare LF in request line (strict CRLF required)") { p with scan := scan } buf
  | (.ready lineEnd, scan) =>
    let line := buf.take lineEnd
    if line.length > lim.maxRequestLineBytes then
      .ret (.tooLarge "request line too long") { p with scan := scan } buf
    else
      let (ok, cur) := parseRequestLine lim line p.cur
      let frame := lineEnd + 2
      let buf := buf.drop frame
      let p := { p with cur := cur, consumed := p.consumed + frame, scan := 0 }
      match ok with
      | .error (err, big) => fail p err big buf
      | .ok _             => .loop true { p with state := .headers } buf

def passHeaders (lim : ParserLimits) (p : Parser) (buf : Bytes) : Pass :=
  match lineReady p buf with
  | (.pending, scan) =>
    if p.headerBytes + buf.length > lim.maxHeaderBytes then
      .ret (.tooLarge "header block too large") { p with scan := scan } buf
    else .ret .needMore { p with scan := scan } buf
  | (.bareLf, scan) =>
    .ret (.badRequest "bare LF in header block (strict CRLF required)") { p with scan := scan } buf
  | (.ready lineEnd, _) =>
    let frame := lineEnd + 2
    if lineEnd == 0 then
      let buf := buf.drop frame
      let p := { p with
        consumed := p.consumed + frame, headerBytes := p.headerBytes + frame, scan := 0 }
      match finishHeaders lim p with
      | (.error err, p)    => fail p err false buf
      | (.requestReady, p) => emitRequest p buf
      | (.send100, p)      => .ret .expect100 p buf
      | (.bodyPending, p)  => .loop true p buf
    else
      let ok := parseHeaderLine lim (buf.take lineEnd) p.cur
      let buf := buf.drop frame
      let p := { p with
        consumed := p.consumed + frame, headerBytes := p.headerBytes + frame, scan := 0 }
      match ok with
      | .error (err, big) => fail p err big buf
      | .ok cur =>
        let p := { p with cur := cur }
        if p.headerBytes > lim.maxHeaderBytes then
          .ret (.tooLarge "header block too large") p buf
        else .loop true p buf

def passBodyFixed (p : Parser) (buf : Bytes) : Pass :=
  let take := min p.bodyRemaining buf.length
  let p' := if take > 0 then { p with
      body          := p.body ++ buf.take take
      consumed      := p.consumed + take
      bodyRemaining := p.bodyRemaining - take
      scan          := 0 }
    else p
  let buf := buf.drop take
  if p'.bodyRemaining = 0 then emitRequest p' buf else .ret .needMore p' buf

def passBodyChunked (lim : ParserLimits) (p : Parser) (buf : Bytes) : Pass :=
  if p.expectChunkCrlf then
    match lineReady p buf with
    | (.pending, scan) => .ret .needMore { p with scan := scan } buf
    | (.bareLf, scan)  => .ret (.badRequest "bare LF in chunked stream") { p with scan := scan } buf
    | (.ready lineEnd, scan) =>
      if lineEnd != 0 then
        .ret (.badRequest "chunk data not terminated by CRLF") { p with scan := scan } buf
      else .loop false { p with
        consumed := p.consumed + 2, scan := 0, expectChunkCrlf := false } (buf.drop 2)
  else if p.chunkRemaining > 0 then
    let take := min p.chunkRemaining buf.length
    if take = 0 then .ret .needMore p buf
    else if p.body.length + take > lim.maxBodyBytes then
      .ret (.tooLarge "chunked body exceeds the body limit") p buf
    else .loop false { p with
      body            := p.body ++ buf.take take
      consumed        := p.consumed + take
      chunkRemaining  := p.chunkRemaining - take
      scan            := 0
      expectChunkCrlf := p.chunkRemaining - take = 0 } (buf.drop take)
  else
    match lineReady p buf with
    | (.pending, scan) =>
      if buf.length > lim.maxRequestLineBytes then
        .ret (.tooLarge "chunk size line too long") { p with scan := scan } buf
      else .ret .needMore { p with scan := scan } buf
    | (.bareLf, scan)  => .ret (.badRequest "bare LF in chunked stream") { p with scan := scan } buf
    | (.ready lineEnd, _) =>
      let frame := lineEnd + 2
      let size := parseChunkSize (buf.take lineEnd)
      let buf := buf.drop frame
      let p := { p with consumed := p.consumed + frame, scan := 0 }
      match size with
      | .error (err, big) => fail p err big buf
      | .ok size =>
        -- The last chunk leaves the inner loop.
        if size = 0 then .loop true { p with state := .chunkTrailer } buf
        else if p.body.length + size > lim.maxBodyBytes then
          .ret (.tooLarge "chunked body exceeds the body limit") p buf
        else .loop false { p with chunkRemaining := size } buf

def passChunkTrailer (lim : ParserLimits) (p : Parser) (buf : Bytes) : Pass :=
  match lineReady p buf with
  | (.pending, scan) =>
    if p.headerBytes + buf.length > lim.maxHeaderBytes then
      .ret (.tooLarge "trailer block too large") { p with scan := scan } buf
    else .ret .needMore { p with scan := scan } buf
  | (.bareLf, scan) => .ret (.badRequest "bare LF in trailer block") { p with scan := scan } buf
  | (.ready lineEnd, _) =>
    let frame := lineEnd + 2
    if lineEnd == 0 then
      emitRequest { p with consumed := p.consumed + frame, scan := 0 } (buf.drop frame)
    else
      let ok := parseHeaderLine lim (buf.take lineEnd) p.cur
      let buf := buf.drop frame
      let p := { p with
        consumed := p.consumed + frame, headerBytes := p.headerBytes + frame, scan := 0 }
      match ok with
      | .error (err, big) => fail p err big buf
      | .ok cur =>
        let p := { p with cur := cur }
        if p.headerBytes > lim.maxHeaderBytes then
          .ret (.tooLarge "trailer block too large") p buf
        else .loop false p buf

def pass (lim : ParserLimits) (p : Parser) (buf : Bytes) : Pass :=
  match p.state with
  | .requestLine  => passRequestLine lim p buf
  | .headers      => passHeaders lim p buf
  | .bodyFixed    => passBodyFixed p buf
  | .bodyChunked  => passBodyChunked lim p buf
  | .chunkTrailer => passChunkTrailer lim p buf

-- The loops of `parse`. Every pass that does not return consumes input, so the fuel that `parse`
-- supplies is never used up (cf. `parseLoop_fuel`).
def parseLoop (lim : ParserLimits) : Nat → Bool → Parser → Bytes → ParseStatus × Parser × Bytes
  | 0, _, p, buf => (.needMore, p, buf)
  | fuel + 1, outer, p, buf =>
    if outer && p.consumed + buf.length > lim.maxRequestBytes then
      (.tooLarge "request exceeds the configured limit", p, buf)
    else match pass lim p buf with
      | .ret status p buf => (status, p, buf)
      | .loop outer p buf => parseLoop lim fuel outer p buf

def parse (lim : ParserLimits) (p : Parser) (buf : Bytes) : ParseStatus × Parser × Bytes :=
  parseLoop lim (buf.length + 1) true p buf

end Parser
end Http
