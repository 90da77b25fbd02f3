import HttpServer.Library.Machine
import HttpServer.Objects.ByteBuf

namespace Http.ByteBuf

-- All that can be done to a buffer. Whatever may reallocate comes with the capacity that the string
-- reports then.
inductive Op
  | append (capacity : Nat) (t : Bytes)
  | appendChar (capacity : Nat) (c : Byte)
  | consume (n : Nat)
  | takeFront (n : Nat)
  | compact
  | appendTarget (t : Bytes)
  | clear
  deriving DecidableEq, Repr

-- The operations that remove nothing.
def Op.keeps : Op → Bool
  | append .. | appendChar .. | compact | appendTarget _ => true
  | consume _ | takeFront _ | clear                      => false

-- No more is taken than there is.
def Op.Ok (buf : Raw) : Op → Prop
  | consume n | takeFront n => n ≤ buf.size
  | _                       => True

def Raw.step (buf : Raw) : Op → Raw × Bytes
  | .append capacity t     => (buf.append capacity t, [])
  | .appendChar capacity c => (buf.appendChar capacity c, [])
  | .consume n             => (buf.consume n, [])
  | .takeFront n           => buf.takeFront n
  | .compact               => (buf.compact, [])
  | .appendTarget t        => (buf.appendTarget t, [])
  | .clear                 => (.clear, [])

-- A queue of bytes: what a buffer is for.
def queueStep (q : Bytes) : Op → Bytes × Bytes
  | .append _ t     => (q ++ t, [])
  | .appendChar _ c => (q ++ [c], [])
  | .consume n      => (q.drop n, [])
  | .takeFront n    => (q.drop n, q.take n)
  | .compact        => (q, [])
  | .appendTarget t => (q ++ t, [])
  | .clear          => ([], [])

namespace Raw

structure Holds (buf : Raw) (q : Bytes) : Prop where
  le   : buf.start ≤ buf.data.length
  view : buf.view = q

variable {buf : Raw} {q t : Bytes} {n i capacity incoming : Nat} {op : Op}

theorem Holds.size (h : Holds buf q) : buf.size = q.length := by
  simp [← h.view, Raw.view, Raw.size]

theorem at?_eq (buf : Raw) (i : Nat) : buf.at? i = buf.view[i]? := by
  simp [at?, view]

theorem Holds.compact (h : Holds buf q) : Holds buf.compact q := by
  simp only [Raw.compact]
  split
  case isTrue  => exact ⟨Nat.zero_le _, h.view⟩
  case isFalse => exact h

theorem Holds.compactForAppend (h : Holds buf q) : Holds (buf.compactForAppend capacity incoming) q := by
  simp only [Raw.compactForAppend]
  split
  case isTrue => exact h
  case isFalse =>
    split
    case isTrue  => exact h.compact
    case isFalse => exact h

theorem Holds.extend (h : Holds buf q) (t : Bytes) :
    Holds { buf with data := buf.data ++ t } (q ++ t) where
  le   := by simpa using Nat.le_add_right_of_le h.le
  view := by rw [← h.view, Raw.view, Raw.view, List.drop_append_of_le_length h.le]

theorem Holds.consume (h : Holds buf q) (hn : n ≤ q.length) : Holds (buf.consume n) (q.drop n) := by
  have hl := h.le
  have hq : q.length = buf.data.length - buf.start := by simp [← h.view, Raw.view]
  simp only [Raw.consume]
  split
  case isTrue he =>
    have hd : q.drop n = [] := List.drop_eq_nil_of_le (by omega)
    exact hd ▸ ⟨Nat.le_refl _, rfl⟩
  case isFalse =>
    refine ⟨by dsimp only; omega, ?_⟩
    rw [← h.view, Raw.view, Raw.view, List.drop_drop]

theorem Holds.step (h : Holds buf q) (ho : op.Ok buf) :
    Holds (buf.step op).1 (queueStep q op).1 ∧ (buf.step op).2 = (queueStep q op).2 := by
  cases op
  case append capacity t     => exact ⟨h.compactForAppend.extend t, rfl⟩
  case appendChar capacity c => exact ⟨h.compactForAppend.extend [c], rfl⟩
  case consume n             => exact ⟨h.consume (h.size ▸ ho), rfl⟩
  case takeFront n           => exact ⟨h.consume (h.size ▸ ho), congrArg (·.take n) h.view⟩
  case compact               => exact ⟨h.compact, rfl⟩
  case appendTarget t        => exact ⟨h.compact.extend t, rfl⟩
  case clear                 => exact ⟨⟨Nat.le_refl _, rfl⟩, rfl⟩

-- What removes nothing leaves every byte at its offset.
theorem Holds.at? (h : Holds buf q) (hk : op.keeps = true) (hi : i < q.length) :
    (buf.step op).1.at? i = buf.at? i := by
  have ho : op.Ok buf := by
    cases op
    case consume | takeFront => cases hk
    all_goals trivial
  have ⟨t, ht⟩ : ∃ t, (queueStep q op).1 = q ++ t := by
    cases op
    case compact => exact ⟨[], (List.append_nil q).symm⟩
    case consume | takeFront | clear => cases hk
    all_goals exact ⟨_, rfl⟩
  rw [at?_eq, at?_eq, (h.step ho).1.view, h.view, ht, List.getElem?_append_left hi]

end Raw

open Machine Raw

-- However a buffer is used and whenever it compacts, it is the queue that it stands for.
theorem run_queue {ops : List Op} (h : Legal step Op.Ok {} ops) :
    (run step {} ops).1.start ≤ (run step {} ops).1.data.length ∧
    (run step {} ops).1.view = (run queueStep [] ops).1 ∧
    (run step {} ops).2 = (run queueStep [] ops).2 ∧
    ∀ op : Op, op.keeps → ∀ i < (run step {} ops).1.size,
      ((run step {} ops).1.step op).1.at? i = (run step {} ops).1.at? i := by
  have h₀ : Holds {} [] := ⟨Nat.le_refl _, rfl⟩
  have hs : ∀ {buf q op}, Holds buf q → Op.Ok buf op →
    Holds (step buf op).1 (queueStep q op).1 ∧ (step buf op).2 = (queueStep q op).2 := Holds.step
  have ⟨hr, ho⟩ := run_refines hs h₀ h
  refine ⟨hr.le, hr.view, ho, fun op hk i hi => ?_⟩
  exact hr.at? hk (hr.size ▸ hi)

-- Both triggers of a compaction, with a part of the content consumed before each of them.
def busyOps : List Op :=
  [.append 15 (ascii "HTTP/1.1"), .consume 5, .append 15 (ascii " 200"), .takeFront 2,
   .append 7 (ascii " OK"), .compact, .appendTarget (ascii "\r\n")]

theorem run_queue_busy :
    (run step {} busyOps).1.view = ascii "1 200 OK\r\n" ∧
    (run step {} busyOps).2 = [[], [], [], ascii "1.", [], [], []] := by
  have h : Legal step Op.Ok {} busyOps := by
    simp only [busyOps, Legal, Op.Ok]
    decide
  have ⟨_, hv, ho, _⟩ := run_queue h
  exact ⟨hv.trans (by decide), ho.trans (by decide)⟩

-- The buffers of the parser are among these.
theorem raw_compact (buf : ByteBuf) : buf.compact.raw = buf.raw.compact := by
  simp only [Raw.compact]
  split
  case isTrue => rfl
  case isFalse hs =>
    have hs : buf.start = 0 := Nat.eq_zero_of_not_pos hs
    simp [ByteBuf.compact, raw, hs]

theorem raw_append (buf : ByteBuf) (capacity : Nat) (t : Bytes) :
    (buf.append (decide (buf.data.length + t.length > capacity)) t).raw = buf.raw.append capacity t := by
  have hc : buf.raw.compactForAppend capacity t.length = (if buf.start = 0 then buf
      else if buf.start ≥ buf.size || decide (buf.data.length + t.length > capacity) then buf.compact
      else buf).raw := by
    rw [apply_ite raw, apply_ite raw, raw_compact]
    rfl
  rw [Raw.append, hc]
  rfl

theorem raw_consume {buf b : ByteBuf} {n : Nat} (h : buf.consume n = some b) :
    b.raw = buf.raw.consume n := by
  obtain ⟨data, start, hl⟩ := buf
  change _ = Raw.consume ⟨data, start⟩ n
  simp only [ByteBuf.consume] at h
  split at h
  case isFalse => cases h
  case isTrue =>
    split at h
    case isTrue he =>
      cases h
      simp only [Raw.consume, if_pos he]
      rfl
    case isFalse he =>
      cases h
      simp only [Raw.consume, if_neg he]
      rfl

end Http.ByteBuf
