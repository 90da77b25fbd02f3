import HttpServer.Objects.Theorems.Common
import HttpServer.Handler.Basic

open Text

-- A client that reads responses off the wire. It is not part of the server, but says what the
-- responses are for.
namespace Http.Client

structure Reply where
  status : Nat
  fields : List Header
  body   : Bytes
  deriving DecidableEq, Repr

-- A line and what follows its CRLF.
def readLine (s : Bytes) : Option (Bytes × Bytes) :=
  match find s lf 0 with
  | none   => none
  | some i =>
    if (s.take i).getLast? = some cr then some ((s.take i).dropLast, s.drop (i + 1)) else none

def readField (line : Bytes) : Option Header :=
  match find line ':'.toUInt8 0 with
  | none   => none
  | some i => some ⟨line.take i, trimOws (line.drop (i + 1))⟩

-- The fields up to the first empty line. Every line takes at least two bytes, so the number of
-- bytes bounds the number of lines.
def readFields : Nat → Bytes → Option (List Header × Bytes)
  | 0, _ => none
  | n + 1, s => match readLine s with
    | none => none
    | some ([], s) => some ([], s)
    | some (line, s) => match readField line, readFields n s with
      | some h, some (hs, s) => some (h :: hs, s)
      | _, _ => none

def readNumber (s : Bytes) : Option Nat :=
  if !s.isEmpty && s.all isDigit then some (Numeral.valueFrom decDigit 10 0 s) else none

-- The second word of the status line.
def readStatus (line : Bytes) : Option Nat :=
  match split sp line with
  | _ :: code :: _ => readNumber code
  | _ => none

def valuesOf (name : Bytes) (fs : List Header) : List Bytes :=
  ({ headers := fs } : Request).headerAll name

-- The number of body bytes that belong to a reply.
def bodyLength (head : Bool) (status : Nat) (fs : List Header) : Option Nat :=
  if head || status = 204 then some 0
  else match valuesOf (ascii "Content-Length") fs with
    | [v] => readNumber v
    | _   => none

def readReply (head : Bool) (s : Bytes) : Option (Reply × Bytes) :=
  match readLine s with
  | none => none
  | some (line, s) => match readStatus line, readFields s.length s with
    | some status, some (fs, s) => match bodyLength head status fs with
      | none   => none
      | some n => if n ≤ s.length then some (⟨status, fs, s.take n⟩, s.drop n) else none
    | _, _ => none

-- The client knows which of its requests were HEAD.
def readReplies : List Bool → Bytes → Option (List Reply × Bytes)
  | [], s => some ([], s)
  | head :: heads, s => match readReply head s with
    | none => none
    | some (r, s) => match readReplies heads s with
      | none => none
      | some (rs, s) => some (r :: rs, s)

end Http.Client
