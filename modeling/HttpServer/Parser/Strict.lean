import HttpServer.Objects.ByteBuf
import HttpServer.Parser.Basic

open Text (find)
open Checked

-- The functions of the parser once more, with every access to memory, every loop over an index and
-- all arithmetic on counters spelled out. A call fails as soon as one of these goes wrong.
namespace Http.Parser.Strict

variable (fits : Nat → Bool)

def equalsIgnoreCase (a b : Bytes) : Option Bool :=
  if a.length ≠ b.length then some false
  else loop (body a b) (a.length + 1) 0
where
  body (a b : Bytes) (i : Nat) : Option (Nat ⊕ Bool) :=
    if i < a.length then do
      let x ← get a i
      let y ← get b i
      if tolower x ≠ tolower y then some (.inr false) else some (.inl (← add fits i 1))
    else some (.inr true)

def trimOws (s : Bytes) : Option Bytes := do
  let b ← loop (skip s s.length) (s.length + 1) 0
  let e ← loop (cut s b) (s.length + 1) s.length
  substr s b (← sub e b)
where
  skip (s : Bytes) (e b : Nat) : Option (Nat ⊕ Nat) :=
    if b < e then do
      let c ← get s b
      if isOws c then some (.inl (← add fits b 1)) else some (.inr b)
    else some (.inr b)
  cut (s : Bytes) (b e : Nat) : Option (Nat ⊕ Nat) :=
    if e > b then do
      let c ← get s (← sub e 1)
      if isOws c then some (.inl (← sub e 1)) else some (.inr e)
    else some (.inr e)

def splitList (value : Bytes) : Option (List Bytes) :=
  loop (body value) (value.length + 1) (0, [])
where
  body (value : Bytes) : Nat × List Bytes → Option ((Nat × List Bytes) ⊕ List Bytes)
    | (pos, out) =>
      match find value ','.toUInt8 pos with
      | none => do
        let token ← trimOws fits (← substrFrom value pos)
        some (.inr (out ++ [token]))
      | some comma => do
        let token ← trimOws fits (← substr value pos (← sub comma pos))
        some (.inl (← add fits comma 1, out ++ [token]))

def parseDigits : Nat → Bytes → Option (Option Nat)
  | v, [] => some (some v)
  | v, c :: cs =>
    if c < '0'.toUInt8 || c > '9'.toUInt8 then some none
    else do
      let v' ← add fits (← mul fits v 10) (c - '0'.toUInt8).toNat
      if v' > 2 ^ 52 then some none else parseDigits v' cs

def parseContentLength (value : Bytes) : Option (Option Nat) :=
  if value.isEmpty || value.length > 19 then some none
  else do
    let padded ← if value.length > 1 then (· == '0'.toUInt8) <$> get value 0 else some false
    if padded then some none else parseDigits fits 0 value

def header (name : Bytes) : List Header → Option Bytes
  | [] => some []
  | h :: hs => do
    if ← equalsIgnoreCase fits h.name name then some h.value else header name hs

def headerAll (name : Bytes) : List Header → Option (List Bytes)
  | [] => some []
  | h :: hs => do
    if ← equalsIgnoreCase fits h.name name then
      let values ← headerAll name hs
      some (h.value :: values)
    else headerAll name hs

def lineReady (p : Parser) (buf : ByteBuf) : Option (Line × Nat) :=
  loop (body buf) (buf.size + 1) (if p.scan < buf.size then p.scan else buf.size)
where
  body (buf : ByteBuf) (i : Nat) : Option (Nat ⊕ (Line × Nat)) :=
    if i < buf.size then do
      let c ← buf.at? i
      if c ≠ lf then some (.inl (← add fits i 1))
      else do
        let bare ← if i = 0 then some true else (· != cr) <$> (sub i 1).bind buf.at?
        if bare then some (.inr (.bareLf, i))
        else some (.inr (.ready (← sub i 1), ← add fits i 1))
    else some (.inr (.pending, buf.size))

def parseRequestFields (lim : ParserLimits) (m t v : Bytes) (out : Request) :
    Option (LineResult Unit × Request) :=
  if m.isEmpty || t.isEmpty || v.isEmpty then
    some (.error ("empty request-line field", false), out)
  else if !validToken m then some (.error ("invalid method", false), out)
  else if v ≠ ascii "HTTP/1.0" && v ≠ ascii "HTTP/1.1" then
    some (.error ("unsupported HTTP version (only 1.0 and 1.1)", false), out)
  else do
    let last ← back v
    let out := { out with
      method     := methodFrom m
      methodName := m
      major      := 1
      minor      := if last = '0'.toUInt8 then 0 else 1 }
    if t = ascii "*" then
      if out.method ≠ .options then
        some (.error ("'*' request-target is only valid for OPTIONS", false), out)
      else some (.ok (), { out with target := t })
    else
      let first ← front t
      if first ≠ '/'.toUInt8 then
        some (.error ("only origin-form request targets are accepted", false), out)
      else
        let relative ← if t.length > 1 then (· == '/'.toUInt8) <$> get t 1 else some false
        if relative then
          some (.error ("protocol-relative request target is not accepted", false), out)
        else if (find t '#'.toUInt8 0).isSome then
          some (.error ("request target must not contain a fragment", false), out)
        else if t.length > lim.maxRequestLineBytes then
          some (.error ("request target too long", true), out)
        else some (.ok (), { out with target := t })

def parseRequestLine (lim : ParserLimits) (line : Bytes) (out : Request) :
    Option (LineResult Unit × Request) :=
  if line.isEmpty then some (.error ("empty request line", false), out)
  else if line.any isControl then some (.error ("control character in request line", false), out)
  else match find line sp 0 with
    | none => some (.error ("malformed request line", false), out)
    | some sp1 => do
      let next ← add fits sp1 1
      match find line sp next with
      | none => some (.error ("malformed request line (missing HTTP version)", false), out)
      | some sp2 =>
        let last ← add fits sp2 1
        if (find line sp last).isSome then
          some (.error ("extra whitespace in request line", false), out)
        else
          let m ← substr line 0 sp1
          let t ← substr line next (← sub (← sub sp2 sp1) 1)
          let v ← substrFrom line last
          parseRequestFields lim m t v out

def parseHeaderLine (lim : ParserLimits) (line : Bytes) (out : Request) :
    Option (LineResult Request) := do
  let first ← front line
  if first = sp || first = htab then
    some (.error ("obs-fold header continuation is not accepted", false))
  else match find line ':'.toUInt8 0 with
    | none => some (.error ("malformed header line (no colon)", false))
    | some colon =>
      if colon == 0 then some (.error ("empty header name", false))
      else
        let name ← substr line 0 colon
        if !validToken name then some (.error ("invalid header name", false))
        else
          let value ← trimOws fits (← substrFrom line (← add fits colon 1))
          if !validHeaderValue value then
            some (.error ("invalid characters in header value", false))
          else if out.headers.length ≥ lim.maxHeaderFields then
            some (.error ("too many header fields", true))
          else some (.ok { out with headers := out.headers ++ [⟨name, value⟩] })

-- The tokens of all values in a list.
def optionTokens : List Bytes → Option (List Bytes)
  | [] => some []
  | value :: values => do
    let tokens ← splitList fits value
    let more ← optionTokens values
    some (tokens ++ more)

def useChunked (cur : Request) : Option (LineResult Bool) := do
  let te ← headerAll fits (ascii "Transfer-Encoding") cur.headers
  if te.isEmpty then some (.ok false)
  else if cur.minor < 1 then some (.error ("chunked transfer encoding requires HTTP/1.1", false))
  else if te.length ≠ 1 then some (.error ("multiple Transfer-Encoding headers", false))
  else
    let tokens ← splitList fits (← get te 0)
    if tokens.length ≠ 1 then some (.error ("ambiguous Transfer-Encoding", false))
    else if ← equalsIgnoreCase fits (← get tokens 0) (ascii "chunked") then some (.ok true)
    else some (.error ("unsupported Transfer-Encoding", false))

def framing (lim : ParserLimits) (cur : Request) : Option (LineResult Framing) := do
  let cl ← headerAll fits (ascii "Content-Length") cur.headers
  match ← useChunked fits cur with
  | .error e => some (.error e)
  | .ok useChunked =>
    if cl.isEmpty then some (.ok (if useChunked then .chunked else .absent))
    else if useChunked then some (.error ("Content-Length together with Transfer-Encoding", false))
    else if cl.length > 1 then some (.error ("duplicate Content-Length header", false))
    else
      let values ← splitList fits (← get cl 0)
      if values.length ≠ 1 then
        some (.error ("multiple Content-Length values in one header", false))
      else match ← parseContentLength fits (← get values 0) with
        | none => some (.error ("malformed Content-Length", false))
        | some length =>
          if length > lim.maxBodyBytes then
            some (.error ("Content-Length exceeds the body limit", true))
          else some (.ok (.length length))

def finishExpect (p : Parser) : Option (HeadOutcome × Parser) := do
  let expect ← header fits (ascii "Expect") p.cur.headers
  if expect.isEmpty then some (.bodyPending, p)
  else
    let expect ← trimOws fits expect
    if !(← equalsIgnoreCase fits expect (ascii "100-continue")) then
      some (.error "unsupported Expect", p)
    else if p.cur.minor ≥ 1 && !p.expectSent then
      some (.send100, { p with
        expectSent := true, cur := { p.cur with expect100Continue := true } })
    else some (.bodyPending, p)

def finishHeaders (lim : ParserLimits) (p : Parser) : Option (HeadOutcome × Parser) := do
  let p := { p with tooLarge := false }
  let tokens ← optionTokens fits (← headerAll fits (ascii "Connection") p.cur.headers)
  match connectionTokens false false tokens with
  | none => some (.error "unsupported Connection option", p)
  | some (closeRequested, kaRequested) =>
    let keepAlive := !closeRequested && (if p.cur.minor ≥ 1 then true else kaRequested)
    let p := { p with cur := { p.cur with keepAlive := keepAlive } }
    match ← framing fits lim p.cur with
    | .error (err, big) => some (.error err, { p with tooLarge := big })
    | .ok .chunked => finishExpect fits { p with
        chunked := true, chunkRemaining := 0, expectChunkCrlf := false, state := .bodyChunked }
    | .ok (.length n) =>
      if n > 0 then finishExpect fits { p with bodyRemaining := n, state := .bodyFixed }
      else some (.requestReady, p)
    | .ok .absent => some (.requestReady, p)

def parseHex : Nat → Bytes → Option (LineResult Nat)
  | v, [] => some (.ok v)
  | v, c :: cs => match hexDigit c with
    | none => some (.error ("malformed chunk size", false))
    | some d => do
      let v' ← add fits (← mul fits v 16) d
      if v' > 2 ^ 52 then some (.error ("chunk size out of range", true)) else parseHex v' cs

def chunkHex (line : Bytes) : Option Bytes :=
  match find line ';'.toUInt8 0 with
  | none      => some line
  | some semi => substr line 0 semi

def parseChunkSize (line : Bytes) : Option (LineResult Nat) := do
  let hex ← chunkHex line
  if hex.isEmpty || hex.length > 16 then some (.error ("malformed chunk size", false))
  else parseHex fits 0 hex

-- The same as `Parser.Pass`, with the buffer as it is in memory.
inductive Pass
  | ret (status : ParseStatus) (p : Parser) (buf : ByteBuf)
  | loop (outer : Bool) (p : Parser) (buf : ByteBuf)

def Pass.view : Pass → Parser.Pass
  | ret st p buf => .ret st p buf.view
  | loop o p buf => .loop o p buf.view

def fail (p : Parser) (err : String) (big : Bool) (buf : ByteBuf) : Pass :=
  let p := { p with tooLarge := p.tooLarge || big }
  .ret (if p.tooLarge then .tooLarge err else .badRequest err) p buf

def emitRequest (p : Parser) (buf : ByteBuf) : Pass :=
  .ret (.request { p.cur with
    body := p.body, headerBytes := p.headerBytes, totalBytes := p.consumed }) reset buf

def passRequestLine (lim : ParserLimits) (p : Parser) (buf : ByteBuf) : Option Pass := do
  match ← lineReady fits p buf with
  | (.pending, scan) =>
    if buf.size > lim.maxRequestLineBytes then
      some (.ret (.tooLarge "request line too long") { p with scan := scan } buf)
    else some (.ret .needMore { p with scan := scan } buf)
  | (.bareLf, scan) =>
    some (.ret (.badRequest "bare LF in request line (strict CRLF required)")
      { p with scan := scan } buf)
  | (.ready lineEnd, scan) =>
    let line ← buf.front? lineEnd
    if line.length > lim.maxRequestLineBytes then
      some (.ret (.tooLarge "request line too long") { p with scan := scan } buf)
    else
      let (ok, cur) ← parseRequestLine fits lim line p.cur
      let frame ← add fits lineEnd 2
      let buf ← buf.consume frame
      let p := { p with cur := cur, consumed := ← add fits p.consumed frame, scan := 0 }
      match ok with
      | .error (err, big) => some (fail p err big buf)
      | .ok _             => some (.loop true { p with state := .headers } buf)

def passHeaders (lim : ParserLimits) (p : Parser) (buf : ByteBuf) : Option Pass := do
  match ← lineReady fits p buf with
  | (.pending, scan) =>
    if (← add fits p.headerBytes buf.size) > lim.maxHeaderBytes then
      some (.ret (.tooLarge "header block too large") { p with scan := scan } buf)
    else some (.ret .needMore { p with scan := scan } buf)
  | (.bareLf, scan) =>
    some (.ret (.badRequest "bare LF in header block (strict CRLF required)")
      { p with scan := scan } buf)
  | (.ready lineEnd, _) =>
    let frame ← add fits lineEnd 2
    if lineEnd == 0 then
      let buf ← buf.consume frame
      let p := { p with
        consumed    := ← add fits p.consumed frame
        headerBytes := ← add fits p.headerBytes frame
        scan        := 0 }
      match ← finishHeaders fits lim p with
      | (.error err, p)    => some (fail p err false buf)
      | (.requestReady, p) => some (emitRequest p buf)
      | (.send100, p)      => some (.ret .expect100 p buf)
      | (.bodyPending, p)  => some (.loop true p buf)
    else
      let ok ← parseHeaderLine fits lim (← buf.front? lineEnd) p.cur
      let buf ← buf.consume frame
      let p := { p with
        consumed    := ← add fits p.consumed frame
        headerBytes := ← add fits p.headerBytes frame
        scan        := 0 }
      match ok with
      | .error (err, big) => some (fail p err big buf)
      | .ok cur =>
        let p := { p with cur := cur }
        if p.headerBytes > lim.maxHeaderBytes then
          some (.ret (.tooLarge "header block too large") p buf)
        else some (.loop true p buf)

def passBodyFixed (p : Parser) (buf : ByteBuf) : Option Pass := do
  let take := min p.bodyRemaining buf.size
  if take > 0 then
    let data ← buf.front? take
    let buf ← buf.consume take
    let p := { p with
      body          := p.body ++ data
      consumed      := ← add fits p.consumed take
      bodyRemaining := ← sub p.bodyRemaining take
      scan          := 0 }
    if p.bodyRemaining = 0 then some (emitRequest p buf) else some (.ret .needMore p buf)
  else if p.bodyRemaining = 0 then some (emitRequest p buf)
  else some (.ret .needMore p buf)

def passChunkCrlf (p : Parser) (buf : ByteBuf) : Option Pass := do
  match ← lineReady fits p buf with
  | (.pending, scan) => some (.ret .needMore { p with scan := scan } buf)
  | (.bareLf, scan)  =>
    some (.ret (.badRequest "bare LF in chunked stream") { p with scan := scan } buf)
  | (.ready lineEnd, scan) =>
    if lineEnd != 0 then
      some (.ret (.badRequest "chunk data not terminated by CRLF") { p with scan := scan } buf)
    else
      let buf ← buf.consume 2
      some (.loop false { p with
        consumed := ← add fits p.consumed 2, scan := 0, expectChunkCrlf := false } buf)

def passChunkData (lim : ParserLimits) (p : Parser) (buf : ByteBuf) : Option Pass := do
  let take := min p.chunkRemaining buf.size
  if take = 0 then some (.ret .needMore p buf)
  else if (← add fits p.body.length take) > lim.maxBodyBytes then
    some (.ret (.tooLarge "chunked body exceeds the body limit") p buf)
  else
    let data ← buf.front? take
    let buf ← buf.consume take
    let remaining ← sub p.chunkRemaining take
    some (.loop false { p with
      body            := p.body ++ data
      consumed        := ← add fits p.consumed take
      chunkRemaining  := remaining
      scan            := 0
      expectChunkCrlf := remaining = 0 } buf)

def passChunkSize (lim : ParserLimits) (p : Parser) (buf : ByteBuf) : Option Pass := do
  match ← lineReady fits p buf with
  | (.pending, scan) =>
    if buf.size > lim.maxRequestLineBytes then
      some (.ret (.tooLarge "chunk size line too long") { p with scan := scan } buf)
    else some (.ret .needMore { p with scan := scan } buf)
  | (.bareLf, scan) =>
    some (.ret (.badRequest "bare LF in chunked stream") { p with scan := scan } buf)
  | (.ready lineEnd, _) =>
    let size ← parseChunkSize fits (← buf.front? lineEnd)
    let frame ← add fits lineEnd 2
    let buf ← buf.consume frame
    let p := { p with consumed := ← add fits p.consumed frame, scan := 0 }
    match size with
    | .error (err, big) => some (fail p err big buf)
    | .ok size =>
      if size = 0 then some (.loop true { p with state := .chunkTrailer } buf)
      else if (← add fits p.body.length size) > lim.maxBodyBytes then
        some (.ret (.tooLarge "chunked body exceeds the body limit") p buf)
      else some (.loop false { p with chunkRemaining := size } buf)

def passBodyChunked (lim : ParserLimits) (p : Parser) (buf : ByteBuf) : Option Pass :=
  if p.expectChunkCrlf then passChunkCrlf fits p buf
  else if p.chunkRemaining > 0 then passChunkData fits lim p buf
  else passChunkSize fits lim p buf

def passChunkTrailer (lim : ParserLimits) (p : Parser) (buf : ByteBuf) : Option Pass := do
  match ← lineReady fits p buf with
  | (.pending, scan) =>
    if (← add fits p.headerBytes buf.size) > lim.maxHeaderBytes then
      some (.ret (.tooLarge "trailer block too large") { p with scan := scan } buf)
    else some (.ret .needMore { p with scan := scan } buf)
  | (.bareLf, scan) =>
    some (.ret (.badRequest "bare LF in trailer block") { p with scan := scan } buf)
  | (.ready lineEnd, _) =>
    let frame ← add fits lineEnd 2
    if lineEnd == 0 then
      let buf ← buf.consume frame
      some (emitRequest { p with consumed := ← add fits p.consumed frame, scan := 0 } buf)
    else
      let ok ← parseHeaderLine fits lim (← buf.front? lineEnd) p.cur
      let buf ← buf.consume frame
      let p := { p with
        consumed    := ← add fits p.consumed frame
        headerBytes := ← add fits p.headerBytes frame
        scan        := 0 }
      match ok with
      | .error (err, big) => some (fail p err big buf)
      | .ok cur =>
        let p := { p with cur := cur }
        if p.headerBytes > lim.maxHeaderBytes then
          some (.ret (.tooLarge "trailer block too large") p buf)
        else some (.loop false p buf)

def pass (lim : ParserLimits) (p : Parser) (buf : ByteBuf) : Option Pass :=
  match p.state with
  | .requestLine  => passRequestLine fits lim p buf
  | .headers      => passHeaders fits lim p buf
  | .bodyFixed    => passBodyFixed fits p buf
  | .bodyChunked  => passBodyChunked fits lim p buf
  | .chunkTrailer => passChunkTrailer fits lim p buf

-- The nested loops of `parse`. They fail if they are not done after the given number of passes.
def parse (lim : ParserLimits) (p : Parser) (buf : ByteBuf) :
    Option (ParseStatus × Parser × ByteBuf) :=
  loop body (buf.size + 1) (true, p, buf)
where
  body : Bool × Parser × ByteBuf →
      Option ((Bool × Parser × ByteBuf) ⊕ (ParseStatus × Parser × ByteBuf))
    | (outer, p, buf) => do
      let exceeds ← if outer then
          (fun n => decide (n > lim.maxRequestBytes)) <$> add fits p.consumed buf.size
        else some false
      if exceeds then some (.inr (.tooLarge "request exceeds the configured limit", p, buf))
      else match ← pass fits lim p buf with
        | .ret status p buf => some (.inr (status, p, buf))
        | .loop outer p buf => some (.inl (outer, p, buf))

end Http.Parser.Strict
