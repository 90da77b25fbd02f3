import HttpServer.Library.Numeral
import HttpServer.Parser.Basic

-- The requests as a client writes them. Nothing here is read off the parser: a message is a tree
-- that carries the proofs of its own well-formedness, and `encode` spells it out.
namespace Http.Grammar

inductive Version
  | http10
  | http11
  deriving DecidableEq, Repr

namespace Version

def minor : Version → Nat
  | http10 => 0
  | http11 => 1

def encode : Version → Bytes
  | http10 => ascii "HTTP/1.0"
  | http11 => ascii "HTTP/1.1"

end Version

-- A path that cannot be mistaken for the name of a host.
structure OriginForm (target : Bytes) : Prop where
  slash    : target.head? = some '/'.toUInt8
  path     : target[1]? ≠ some '/'.toUInt8
  fragment : '#'.toUInt8 ∉ target
  space    : sp ∉ target
  control  : ∀ c ∈ target, isControl c = false

structure RequestLine where
  method  : Bytes
  target  : Bytes
  version : Version
  token   : validToken method = true
  form    : target = ascii "*" ∧ method = ascii "OPTIONS" ∨ OriginForm target

def RequestLine.encode (l : RequestLine) : Bytes :=
  l.method ++ sp :: (l.target ++ sp :: l.version.encode)

-- The text behind the colon may have optional whitespace on both sides of the value.
structure FieldLine where
  name  : Bytes
  text  : Bytes
  token : validToken name = true
  valid : validHeaderValue (trimOws text) = true

namespace FieldLine

def header (f : FieldLine) : Header :=
  ⟨f.name, trimOws f.text⟩

def encode (f : FieldLine) : Bytes :=
  f.name ++ ':'.toUInt8 :: f.text

end FieldLine

-- Lines are separated from what follows by CRLF.
def encodeLine (line : Bytes) : Bytes :=
  line ++ crlf

def encodeFields (fs : List FieldLine) : Bytes :=
  fs.flatMap (encodeLine ·.encode)

-- The values of all fields with the given name, in any case.
def valuesOf (fs : List FieldLine) (name : Bytes) : List Bytes :=
  ({ headers := fs.map (·.header) } : Request).headerAll name

structure ChunkLine where
  hex       : Bytes
  extension : Option Bytes
  nonempty  : hex ≠ []
  short     : hex.length ≤ 16
  digits    : ∀ c ∈ hex, (hexDigit c).isSome
  line      : ∀ e ∈ extension, lf ∉ e

namespace ChunkLine

def size (l : ChunkLine) : Nat :=
  Numeral.valueFrom hexDigit 16 0 l.hex

def encode (l : ChunkLine) : Bytes :=
  l.hex ++ match l.extension with
    | none   => []
    | some e => ';'.toUInt8 :: e

end ChunkLine

structure Chunk where
  line     : ChunkLine
  data     : Bytes
  nonempty : data ≠ []
  complete : data.length = line.size

def Chunk.encode (c : Chunk) : Bytes :=
  encodeLine c.line.encode ++ encodeLine c.data

inductive BodyPart
  | empty
  | fixed (data : Bytes) (nonempty : data ≠ [])
  | chunked (chunks : List Chunk) (last : ChunkLine) (zero : last.size = 0)
      (trailers : List FieldLine)

namespace BodyPart

def data : BodyPart → Bytes
  | empty => []
  | fixed d _ => d
  | chunked cs .. => cs.flatMap (·.data)

def trailers : BodyPart → List FieldLine
  | empty | fixed .. => []
  | chunked _ _ _ ts => ts

def encode : BodyPart → Bytes
  | empty => []
  | fixed d _ => d
  | chunked cs last _ ts =>
    cs.flatMap (·.encode) ++ encodeLine last.encode ++ encodeFields ts ++ crlf

-- The header fields announce just this body.
def FramedBy (v : Version) (fs : List FieldLine) : BodyPart → Prop
  | empty =>
    valuesOf fs (ascii "Transfer-Encoding") = [] ∧
    (valuesOf fs (ascii "Content-Length") = [] ∨ valuesOf fs (ascii "Content-Length") = [decimal 0])
  | fixed d _ =>
    valuesOf fs (ascii "Transfer-Encoding") = [] ∧
    valuesOf fs (ascii "Content-Length") = [decimal d.length]
  | chunked .. =>
    v = .http11 ∧ valuesOf fs (ascii "Content-Length") = [] ∧
    ∃ te, valuesOf fs (ascii "Transfer-Encoding") = [te] ∧ equalsIgnoreCase te (ascii "chunked")

end BodyPart

def connectionOptions (fs : List FieldLine) : List Bytes :=
  (valuesOf fs (ascii "Connection")).flatMap splitList |>.map toLower

-- The connection survives if the client does not object, and also asks for it in HTTP/1.0.
def keepAlive (v : Version) (fs : List FieldLine) : Bool :=
  ascii "close" ∉ connectionOptions fs ∧
  (v = .http11 ∨ ascii "keep-alive" ∈ connectionOptions fs)

def OptionsOk (fs : List FieldLine) : Prop :=
  ∀ o ∈ connectionOptions fs, o = [] ∨ o = ascii "close" ∨ o = ascii "keep-alive"

structure Message where
  line    : RequestLine
  fields  : List FieldLine
  body    : BodyPart
  framed  : body.FramedBy line.version fields
  options : OptionsOk fields

namespace Message

def encode (m : Message) : Bytes :=
  encodeLine m.line.encode ++ encodeFields m.fields ++ crlf ++ m.body.encode

-- The request that a message stands for.
def request (m : Message) : Request where
  method      := methodFrom m.line.method
  methodName  := m.line.method
  target      := m.line.target
  major       := 1
  minor       := m.line.version.minor
  headers     := (m.fields ++ m.body.trailers).map (·.header)
  body        := m.body.data
  keepAlive   := keepAlive m.line.version m.fields
  headerBytes := (encodeFields m.fields ++ crlf ++ encodeFields m.body.trailers).length
  totalBytes  := m.encode.length

-- The header lines, and if trailers follow, the empty line and the trailer lines too.
def blockBytes (m : Message) : Nat :=
  (encodeFields m.fields).length +
  (if m.body.trailers.isEmpty then 0 else 2 + (encodeFields m.body.trailers).length)

structure Fits (lim : ParserLimits) (m : Message) : Prop where
  line   : m.line.encode.length ≤ lim.maxRequestLineBytes
  block  : m.blockBytes ≤ lim.maxHeaderBytes
  fields : (m.fields ++ m.body.trailers).length ≤ lim.maxHeaderFields
  body   : m.body.data.length ≤ lim.maxBodyBytes
  number : m.body.data.length ≤ 2 ^ 52

end Message
end Http.Grammar
