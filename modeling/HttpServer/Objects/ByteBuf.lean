import HttpServer.Library.Checked
import HttpServer.Objects.Message

namespace Http

-- Consumed bytes stay in front of the cursor `start` until they are worth moving.
structure ByteBuf where
  data  : Bytes := []
  start : Nat := 0
  le    : start ≤ data.length := by simp
  deriving DecidableEq

namespace ByteBuf

def size (buf : ByteBuf) : Nat :=
  buf.data.length - buf.start

def view (buf : ByteBuf) : Bytes :=
  buf.data.drop buf.start

def clear : ByteBuf :=
  {}

def compact (buf : ByteBuf) : ByteBuf where
  data := buf.data.drop buf.start

-- `full` tells whether the bytes would not fit into the capacity of the string.
def append (buf : ByteBuf) (full : Bool) (t : Bytes) : ByteBuf :=
  let buf := if buf.start = 0 then buf
    else if buf.start ≥ buf.size || full then buf.compact
    else buf
  { data  := buf.data ++ t
    start := buf.start
    le    := by simpa using Nat.le_add_right_of_le buf.le }

-- The bytes at `data()` and behind it. The read fails if it leaves the buffer.
def at? (buf : ByteBuf) (i : Nat) : Option Byte :=
  if i < buf.size then buf.data[buf.start + i]? else none

def front? (buf : ByteBuf) (n : Nat) : Option Bytes :=
  if n ≤ buf.size then some ((buf.data.drop buf.start).take n) else none

-- Fails if there are fewer than `n` bytes.
def consume (buf : ByteBuf) (n : Nat) : Option ByteBuf :=
  if h : n ≤ buf.size then
    if buf.start + n = buf.data.length then some clear
    else some { data := buf.data, start := buf.start + n, le := by have := buf.le; simp [size] at h; omega }
  else none

variable {buf : ByteBuf} {n i : Nat}

@[simp]
theorem length_view (buf : ByteBuf) : buf.view.length = buf.size := by
  simp [view, size]

@[simp]
theorem view_append (buf : ByteBuf) (full : Bool) (t : Bytes) :
    (buf.append full t).view = buf.view ++ t := by
  have hd (b : ByteBuf) : (b.data ++ t).drop b.start = b.data.drop b.start ++ t :=
    List.drop_append_of_le_length b.le
  simp only [append, view, hd]
  split
  · rfl
  · split <;> simp [compact]

theorem at?_eq (buf : ByteBuf) (i : Nat) : buf.at? i = buf.view[i]? := by
  simp only [at?, view, List.getElem?_drop]
  split
  · rfl
  case isFalse h =>
    refine (List.getElem?_eq_none ?_).symm
    simp only [size] at h
    omega

theorem front?_eq (h : n ≤ buf.size) : buf.front? n = some (buf.view.take n) :=
  if_pos h

theorem consume_eq (h : n ≤ buf.size) : ∃ b, buf.consume n = some b ∧ b.view = buf.view.drop n := by
  simp only [consume, h, ↓reduceDIte]
  split
  case isTrue he => exact ⟨_, rfl, by simp [view, clear, he]⟩
  case isFalse   => exact ⟨_, rfl, by simp [view]⟩

end ByteBuf

-- The members of the class with nothing known about them, and its functions as they are written.
structure ByteBuf.Raw where
  data  : Bytes := []
  start : Nat := 0
  deriving DecidableEq, Repr

namespace ByteBuf.Raw

def size (buf : Raw) : Nat :=
  buf.data.length - buf.start

def view (buf : Raw) : Bytes :=
  buf.data.drop buf.start

-- The byte at offset `i` from `data()`.
def at? (buf : Raw) (i : Nat) : Option Byte :=
  buf.data[buf.start + i]?

def clear : Raw :=
  {}

def compact (buf : Raw) : Raw :=
  if buf.start > 0 then { data := buf.data.drop buf.start } else buf

-- The capacity is the one that the string reports at this moment.
def compactForAppend (buf : Raw) (capacity incoming : Nat) : Raw :=
  if buf.start = 0 then buf
  else
    let live := buf.data.length - buf.start
    if buf.start ≥ live || buf.data.length + incoming > capacity then buf.compact else buf

def append (buf : Raw) (capacity : Nat) (t : Bytes) : Raw :=
  let buf := buf.compactForAppend capacity t.length
  { buf with data := buf.data ++ t }

def appendChar (buf : Raw) (capacity : Nat) (c : Byte) : Raw :=
  let buf := buf.compactForAppend capacity 1
  { buf with data := buf.data ++ [c] }

def consume (buf : Raw) (n : Nat) : Raw :=
  let start := buf.start + n
  if start = buf.data.length then clear else { buf with start := start }

-- What the caller appends goes to the string itself.
def appendTarget (buf : Raw) (t : Bytes) : Raw :=
  let buf := buf.compact
  { buf with data := buf.data ++ t }

def takeFront (buf : Raw) (n : Nat) : Raw × Bytes :=
  (buf.consume n, (buf.data.drop buf.start).take n)

end ByteBuf.Raw

def ByteBuf.raw (buf : ByteBuf) : ByteBuf.Raw where
  data  := buf.data
  start := buf.start

end Http
