import HttpServer.Parser.Theorems.Head
import HttpServer.Parser.Theorems.Parse

open Text

namespace Http.Parser

open Grammar

-- A complete head with its empty line.
def headBytes (l : RequestLine) (fs : List FieldLine) : Bytes :=
  encodeLine l.encode ++ encodeFields fs ++ crlf

def chunkBytes (cs : List Chunk) : Bytes :=
  cs.flatMap (·.encode)

def chunkData (cs : List Chunk) : Bytes :=
  cs.flatMap (·.data)

-- The states of a parser that has read a part of a message. `e` tells whether the client was told
-- to go on with the body.
def inHead (l : RequestLine) (fs : List FieldLine) : Parser where
  state       := .headers
  cur         := { l.apply {} with headers := fs.map (·.header) }
  consumed    := (encodeLine l.encode ++ encodeFields fs).length
  headerBytes := (encodeFields fs).length

def inBody (l : RequestLine) (fs : List FieldLine) (e : Bool) : Parser :=
  { inHead l fs with
    cur         := { (inHead l fs).cur with
      keepAlive := Grammar.keepAlive l.version fs, expect100Continue := e }
    consumed    := (headBytes l fs).length
    headerBytes := (encodeFields fs ++ crlf).length
    expectSent  := e }

def inFixed (l : RequestLine) (fs : List FieldLine) (e : Bool) (n : Nat) (d : Bytes) : Parser :=
  { inBody l fs e with
    state         := .bodyFixed
    bodyRemaining := n - d.length
    body          := d
    consumed      := (headBytes l fs ++ d).length }

def inChunks (l : RequestLine) (fs : List FieldLine) (e : Bool) (cs : List Chunk) : Parser :=
  { inBody l fs e with
    state    := .bodyChunked
    chunked  := true
    body     := chunkData cs
    consumed := (headBytes l fs ++ chunkBytes cs).length }

-- Behind the size line of a chunk and a part `d` of its data.
def inChunk (l : RequestLine) (fs : List FieldLine) (e : Bool) (cs : List Chunk) (s : ChunkLine)
    (d : Bytes) : Parser :=
  { inChunks l fs e cs with
    chunkRemaining  := s.size - d.length
    expectChunkCrlf := s.size - d.length = 0
    body            := chunkData cs ++ d
    consumed        := (headBytes l fs ++ chunkBytes cs ++ encodeLine s.encode ++ d).length }

def inTrailers (l : RequestLine) (fs : List FieldLine) (e : Bool) (cs : List Chunk) (s : ChunkLine)
    (ts : List FieldLine) : Parser :=
  { inChunks l fs e cs with
    state       := .chunkTrailer
    cur         := { (inBody l fs e).cur with headers := (fs ++ ts).map (·.header) }
    consumed    := (headBytes l fs ++ chunkBytes cs ++ encodeLine s.encode ++ encodeFields ts).length
    headerBytes := (encodeFields fs ++ crlf ++ encodeFields ts).length }

variable {lim : ParserLimits} {p q : Parser} {l : RequestLine} {f : FieldLine} {fs ts : List FieldLine}
variable {s : ChunkLine} {c : Chunk} {cs : List Chunk} {e : Bool} {n : Nat} {d d' : Bytes}

@[simp]
theorem length_encodeLine (b : Bytes) : (encodeLine b).length = b.length + 2 := by
  simp [encodeLine]

@[simp]
theorem encodeFields_nil : encodeFields [] = [] :=
  rfl

@[simp]
theorem encodeFields_append (fs ts : List FieldLine) :
    encodeFields (fs ++ ts) = encodeFields fs ++ encodeFields ts := by
  simp [encodeFields]

@[simp]
theorem encodeFields_singleton (f : FieldLine) : encodeFields [f] = encodeLine f.encode := by
  simp [encodeFields]

theorem eat_requestLine (l : RequestLine) :
    { ({} : Parser).eatLine l.encode.length with cur := l.apply {}, state := .headers } =
      inHead l [] := by
  simp [eatLine, inHead, RequestLine.apply]

theorem eat_field (l : RequestLine) (fs : List FieldLine) (f : FieldLine) :
    { (inHead l fs).eatField f.encode.length with cur := f.apply (inHead l fs).cur } =
      inHead l (fs ++ [f]) := by
  simp [eatField, inHead, FieldLine.apply, Nat.add_assoc]

theorem eat_head (l : RequestLine) (fs : List FieldLine) :
    headDone l.version fs ((inHead l fs).eatField 0) = inBody l fs false := by
  simp [headDone, eatField, inHead, inBody, headBytes, RequestLine.apply, Nat.add_assoc]

theorem eat_body (l : RequestLine) (fs : List FieldLine) (e : Bool) (n : Nat) (d d' : Bytes) :
    { inFixed l fs e n d with
      body := d ++ d', consumed := (inFixed l fs e n d).consumed + d'.length,
      bodyRemaining := (inFixed l fs e n d).bodyRemaining - d'.length, scan := 0 } =
      inFixed l fs e n (d ++ d') := by
  simp [inFixed, inBody, inHead, Nat.add_assoc, Nat.sub_sub]

theorem eat_chunkSize (l : RequestLine) (fs : List FieldLine) (e : Bool) (cs : List Chunk)
    (h : s.size ≠ 0) :
    { (inChunks l fs e cs).eatLine s.encode.length with chunkRemaining := s.size } =
      inChunk l fs e cs s [] := by
  simp [inChunks, inChunk, inBody, inHead, eatLine, h, Nat.add_assoc]

theorem eat_chunkData (l : RequestLine) (fs : List FieldLine) (e : Bool) (cs : List Chunk)
    (s : ChunkLine) (d d' : Bytes) :
    { inChunk l fs e cs s d with
      body := (inChunk l fs e cs s d).body ++ d',
      consumed := (inChunk l fs e cs s d).consumed + d'.length,
      chunkRemaining := (inChunk l fs e cs s d).chunkRemaining - d'.length, scan := 0,
      expectChunkCrlf := (inChunk l fs e cs s d).chunkRemaining - d'.length = 0 } =
      inChunk l fs e cs s (d ++ d') := by
  simp [inChunk, inChunks, inBody, inHead, Nat.add_assoc, Nat.sub_sub]

theorem eat_chunkCrlf (l : RequestLine) (fs : List FieldLine) (e : Bool) (cs : List Chunk) (c : Chunk) :
    { (inChunk l fs e cs c.line c.data).eatLine 0 with expectChunkCrlf := false } =
      inChunks l fs e (cs ++ [c]) := by
  simp [inChunk, inChunks, inBody, inHead, eatLine, chunkData, chunkBytes, Chunk.encode, c.complete,
    Nat.add_assoc]

theorem eat_lastChunk (l : RequestLine) (fs : List FieldLine) (e : Bool) (cs : List Chunk)
    (s : ChunkLine) :
    { (inChunks l fs e cs).eatLine s.encode.length with state := .chunkTrailer } =
      inTrailers l fs e cs s [] := by
  simp [inChunks, inTrailers, inBody, inHead, eatLine, Nat.add_assoc]

theorem eat_trailer (l : RequestLine) (fs : List FieldLine) (e : Bool) (cs : List Chunk)
    (s : ChunkLine) (ts : List FieldLine) (f : FieldLine) :
    { (inTrailers l fs e cs s ts).eatField f.encode.length with
      cur := f.apply (inTrailers l fs e cs s ts).cur } =
      inTrailers l fs e cs s (ts ++ [f]) := by
  simp [inTrailers, inChunks, inBody, inHead, eatField, FieldLine.apply, Nat.add_assoc]
  omega

theorem finish_fixed (l : RequestLine) (fs : List FieldLine) (h : n > 0) :
    finishFraming (inBody l fs false) (.length n) = finishExpect (inFixed l fs false n []) := by
  simp [finishFraming, h, inFixed, inBody, inHead]

theorem finish_chunked (l : RequestLine) (fs : List FieldLine) :
    finishFraming (inBody l fs false) .chunked = finishExpect (inChunks l fs false []) := by
  simp [finishFraming, inChunks, inBody, inHead, chunkData, chunkBytes]

-- The requests that are reported at the end of a message.
theorem finish_empty (m : Message) (h : m.body = .empty) (e : Bool) :
    (inBody m.line m.fields e).finish = { m.request with expect100Continue := e } := by
  simp [finish, inBody, inHead, Message.request, Message.encode, headBytes, h, BodyPart.encode,
    BodyPart.data, BodyPart.trailers, RequestLine.apply]

theorem finish_body (m : Message) (d d' : Bytes) {hd : d ++ d' ≠ []}
    (h : m.body = .fixed (d ++ d') hd) (e : Bool) (n : Nat) :
    { inFixed m.line m.fields e n d with
      body := d ++ d', consumed := (inFixed m.line m.fields e n d).consumed + d'.length }.finish =
      { m.request with expect100Continue := e } := by
  simp [finish, inFixed, inBody, inHead, Message.request, Message.encode, headBytes, h,
    BodyPart.encode, BodyPart.data, BodyPart.trailers, RequestLine.apply, Nat.add_assoc]
  omega

theorem finish_trailers (m : Message) (h : m.body = .chunked cs s hz ts) (e : Bool) :
    ((inTrailers m.line m.fields e cs s ts).eatLine 0).finish =
      { m.request with expect100Continue := e } := by
  simp [finish, inTrailers, inChunks, inBody, inHead, eatLine, Message.request, Message.encode,
    headBytes, h, BodyPart.encode, BodyPart.data, BodyPart.trailers, RequestLine.apply, chunkData,
    chunkBytes, Nat.add_assoc]

end Http.Parser
