import HttpServer.Library.Text

-- A `char` of the source is a byte, and its strings, views and buffers are byte strings.
abbrev Byte := UInt8
abbrev Bytes := List Byte

namespace Http

def ascii (s : String) : Bytes :=
  s.toList.map Char.toUInt8

def cr : Byte := 13
def lf : Byte := 10
def sp : Byte := 32
def htab : Byte := 9

def crlf : Bytes := [cr, lf]

inductive Method
  | get
  | head
  | post
  | options
  | unknown
  deriving DecidableEq, Repr

structure Header where
  name  : Bytes
  value : Bytes
  deriving DecidableEq, Repr

-- `peer` is left out: it is only ever printed.
structure Request where
  method            : Method := .unknown
  methodName        : Bytes := []
  target            : Bytes := []
  major             : Nat := 1
  minor             : Nat := 1
  headers           : List Header := []
  body              : Bytes := []
  keepAlive         : Bool := true
  expect100Continue : Bool := false
  headerBytes       : Nat := 0
  totalBytes        : Nat := 0
  deriving DecidableEq, Repr

structure Response where
  status        : Nat := 200
  headers       : List Header := []
  body          : Bytes := []
  keepAlive     : Bool := true
  closeAfter    : Bool := false
  sendBody      : Bool := true
  noBodyFraming : Bool := false
  reqMajor      : Nat := 1
  reqMinor      : Nat := 1
  deriving DecidableEq, Repr

namespace Request

def isHead (r : Request) : Bool :=
  r.method == .head

def isOptions (r : Request) : Bool :=
  r.method == .options

def isStarTarget (r : Request) : Bool :=
  r.target == ascii "*"

end Request

def Response.set (res : Response) (name value : Bytes) : Response :=
  { res with headers := res.headers ++ [⟨name, value⟩] }

end Http
