import HttpServer.Parser.Theorems.Soundness
import HttpServer.Parser.Theorems.Strict

open Text

namespace Http.Parser

open Grammar

-- A parser at work, turn by turn: it is `busy` at the head of the loops of a call. `n` bytes have
-- arrived so far, and nothing has failed yet.
inductive Turns (lim : ParserLimits) : Nat → Bool → Parser → Bytes → Prop
  | fresh : Turns lim 0 false {} []
  | receive (t : Bytes) : Turns lim n false p b → Turns lim (n + t.length) false p (b ++ t)
  | enter :
    Turns lim n false p b → p.consumed + b.length ≤ lim.maxRequestBytes → Turns lim n true p b
  | again : Turns lim n true p b → pass lim p b = .loop o q c → Turns lim n true q c
  | leave : Turns lim n true p b → pass lim p b = .ret st q c → ¬IsError st → Turns lim n false q c

-- The limits as a parser keeps them between its turns.
structure Limited (lim : ParserLimits) (p : Parser) : Prop where
  fields   : p.cur.headers.length ≤ lim.maxHeaderFields
  header   : p.headerBytes ≤ lim.maxHeaderBytes + 2
  consumed : p.consumed ≤ lim.maxRequestBytes
  body     : p.body.length ≤ lim.maxBodyBytes
  fixed    : p.state = .bodyFixed → ∃ n, p.cur.headerAll (ascii "Content-Length") = [decimal n] ∧
    p.body.length + p.bodyRemaining = n ∧ 0 < n ∧ n ≤ lim.maxBodyBytes
  chunked  : p.state = .bodyChunked → p.body.length + p.chunkRemaining ≤ lim.maxBodyBytes ∧
    (p.expectChunkCrlf → p.chunkRemaining = 0)

structure Request.Limited (lim : ParserLimits) (r : Request) : Prop where
  fields : r.headers.length ≤ lim.maxHeaderFields
  header : r.headerBytes ≤ lim.maxHeaderBytes + 2
  total  : r.totalBytes ≤ lim.maxRequestBytes
  body   : r.body.length ≤ lim.maxBodyBytes

-- What a single move keeps. The empty line comes on top of the header lines, which fit.
structure Bounded (lim : ParserLimits) (p : Parser) : Prop where
  within  : Within lim p
  fields  : p.cur.headers.length ≤ lim.maxHeaderFields
  early   : p.late = false → p.headerBytes ≤ lim.maxHeaderBytes
  header  : p.headerBytes ≤ lim.maxHeaderBytes + 2
  chunked : p.state = .bodyChunked → p.body.length + p.chunkRemaining ≤ lim.maxBodyBytes ∧
    (p.expectChunkCrlf → p.chunkRemaining = 0)

-- No counter exceeds the number of bytes that have arrived.
structure Counted (n : Nat) (p : Parser) (b : Bytes) : Prop where
  bytes  : p.consumed + b.length ≤ n
  header : p.headerBytes ≤ p.consumed
  body   : p.body.length ≤ p.consumed
  values : ∀ h ∈ p.cur.headers, h.value.length ≤ n

variable {lim : ParserLimits} {p q : Parser} {b c : Bytes} {st : ParseStatus} {r : Request} {n k : Nat}
variable {busy : Bool}

theorem Bounded.fresh : Bounded lim {} where
  within    := .fresh
  fields    := Nat.zero_le _
  early _   := Nat.zero_le _
  header    := Nat.zero_le _
  chunked h := by cases h

theorem parseHeaderLine_fields {line : Bytes} {out cur : Request}
    (h : parseHeaderLine lim line out = .ok cur) : cur.headers.length ≤ lim.maxHeaderFields := by
  simp only [parseHeaderLine] at h
  repeat' split at h
  all_goals cases h
  case refl hn =>
    simp only [List.length_append, List.length_singleton]
    omega

-- A body is due after the head: no chunk of it is open yet.
theorem finishHeaders_due {o : HeadOutcome} (h : finishHeaders lim p = (o, q))
    (ho : o = .bodyPending ∨ o = .send100) :
    q.late ∧ (q.state = .bodyChunked → q.chunkRemaining = 0 ∧ q.expectChunkCrlf = false) := by
  let Due (r : HeadOutcome × Parser) : Prop := r.1 = .bodyPending ∨ r.1 = .send100 →
    r.2.late ∧ (r.2.state = .bodyChunked → r.2.chunkRemaining = 0 ∧ r.2.expectChunkCrlf = false)
  have he {p : Parser} (hl : p.late)
      (hc : p.state = .bodyChunked → p.chunkRemaining = 0 ∧ p.expectChunkCrlf = false) :
      Due (finishExpect p) := by
    simp only [finishExpect]
    repeat' split
    all_goals exact fun _ => ⟨hl, hc⟩
  suffices hd : Due (finishHeaders lim p) from (h ▸ hd) ho
  simp only [finishHeaders]
  split
  case h_1 => simp [Due]
  case h_2 =>
    split
    case h_1 => simp [Due]
    case h_2 => exact he rfl fun _ => ⟨rfl, rfl⟩
    case h_3 =>
      split
      case isTrue  => exact he rfl fun h => by cases h
      case isFalse => simp [Due]
    case h_4 => simp [Due]

theorem Bounded.finish {o : HeadOutcome} (h : Bounded lim p) (hp : p.state = .headers)
    (hf : finishHeaders lim (p.eatField 0) = (o, q)) :
    q.cur.headers.length ≤ lim.maxHeaderFields ∧ q.headerBytes ≤ lim.maxHeaderBytes + 2 ∧
      q.body = [] := by
  have hl := h.early (by simp [late, hp])
  have hb := h.within.early (by simp [late, hp])
  have hq : q = (finishHeaders lim (p.eatField 0)).2 := by rw [hf]
  obtain ⟨_, _, hh, hb'⟩ := finishHeaders_preserves lim (p.eatField 0)
  have hv := (finishHeaders_headers lim (p.eatField 0)).1
  rw [hq, hv, hh, hb']
  exact ⟨h.fields, Nat.add_le_add_right hl 2, hb⟩

theorem Bounded.due {o : HeadOutcome} (h : Bounded lim p) (hp : p.state = .headers)
    (hf : finishHeaders lim (p.eatField 0) = (o, q)) (ho : o = .bodyPending ∨ o = .send100)
    (hw : Within lim q) : Bounded lim q := by
  have ⟨hn, hh, hb⟩ := h.finish hp hf
  have ⟨hl, hc⟩ := finishHeaders_due hf ho
  refine ⟨hw, hn, fun he => ?_, hh, fun hq => ?_⟩
  · cases hl.symm.trans he
  · simp [hb, hc hq]

theorem Move.bounded {o : Option ParseStatus} (m : Move lim p c o q) (hw : Within lim q)
    (h : Bounded lim p) : Bounded lim q := by
  have hb := h.within.body
  cases m
  case requestLine hp hl hm hr =>
    have hv := congrArg (·.2.headers) hr
    simp only [parseRequestLine_headers] at hv
    have hh := h.early (by simp [late, hp])
    exact ⟨hw, hv ▸ h.fields, fun _ => hh, h.header, by simp⟩
  case header hp _ _ hr hm =>
    refine ⟨hw, parseHeaderLine_fields hr, fun _ => hm, Nat.le_add_right_of_le hm, fun hq => ?_⟩
    cases hp.symm.trans hq
  case headPending hp hf => exact h.due hp hf (.inl rfl) hw
  case headExpect hp hf  => exact h.due hp hf (.inr rfl) hw
  case bodyData hp _ _ =>
    refine ⟨hw, h.fields, h.early, h.header, fun hq => ?_⟩
    cases hp.symm.trans hq
  case chunkCrlf hp he =>
    obtain ⟨hc, _⟩ := h.chunked hp
    exact ⟨hw, h.fields, h.early, h.header, fun _ => ⟨hc, by simp⟩⟩
  case chunkData hp he _ hl hm =>
    obtain ⟨hc, _⟩ := h.chunked hp
    refine ⟨hw, h.fields, h.early, h.header, fun _ => ⟨?_, by simp⟩⟩
    simp only [List.length_append]
    omega
  case chunkSize hp he _ _ _ _ hm =>
    exact ⟨hw, h.fields, h.early, h.header, fun _ => ⟨hm, by simp [eatLine, he]⟩⟩
  case lastChunk hp _ _ _ _ =>
    exact ⟨hw, h.fields, by simp [late], h.header, by simp⟩
  case trailer hp _ _ hr hm =>
    refine ⟨hw, parseHeaderLine_fields hr, fun _ => hm, Nat.le_add_right_of_le hm, fun hq => ?_⟩
    cases hp.symm.trans hq
  all_goals exact .fresh

-- The requests that are reported stay within the limits, too.
theorem Move.limited (m : Move lim p c (some (.request r)) q) (h : Bounded lim p)
    (hc : p.consumed + c.length ≤ lim.maxRequestBytes) : Request.Limited lim r := by
  cases m
  case headReady q hp hf =>
    have ⟨hn, hh, hb⟩ := h.finish hp hf
    have hq : q.finish.totalBytes = p.consumed + 2 :=
      (congrArg (·.2.consumed) hf).symm.trans (finishHeaders_preserves ..).2.1
    exact ⟨hn, hh, hq ▸ hc, by simp [Parser.finish, hb]⟩
  case bodyEnd hp hd =>
    have hf := h.within.fixed hp
    refine ⟨h.fields, h.header, hc, ?_⟩
    simp only [Parser.finish, List.length_append]
    omega
  case trailerEnd hp => exact ⟨h.fields, h.header, hc, h.within.body⟩

theorem Counted.takes (h : Counted n p b) (ht : Takes p b k q) : Counted n q (b.drop k) where
  bytes  := by have := h.bytes; have := ht.le; rw [ht.consumed, List.length_drop]; omega
  header := by have := h.header; have := ht.header; have := ht.consumed; omega
  body   := by have := h.body; have := ht.body; have := ht.consumed; omega
  values x hx := by
    match ht.values x hx with
    | .inl hx => exact h.values x hx
    | .inr hl => have := h.bytes; omega

theorem Counted.returns (h : Counted n p b) (hr : Returns p b k q st) : Counted n q (b.drop k) := by
  cases st
  case request =>
    obtain ⟨hl, hq, _⟩ := hr
    subst hq
    refine ⟨?_, Nat.le_refl _, Nat.le_refl _, by simp⟩
    have := h.bytes
    simp
    omega
  case expect100 => exact h.takes hr.1
  all_goals exact h.takes hr

-- All that is known about a parser between two turns.
structure Turn (lim : ParserLimits) (n : Nat) (busy : Bool) (p : Parser) (b : Bytes) : Prop where
  scan    : ScanOk p b
  phase   : ∃ c, Phase lim c p.rewind
  bounded : Bounded lim p
  counted : Counted n p b
  cap     : p.consumed ≤ lim.maxRequestBytes
  busy    : busy → p.consumed + b.length ≤ lim.maxRequestBytes

theorem Turn.again (h : Turn lim n true p b) (hp : pass lim p b = .loop o q c) :
    Turn lim n true q c := by
  have ho : Outcome lim p b (pass lim p b) := pass_outcome h.scan
  have hg : (pass lim p b).Grows lim p b := pass_grows h.bounded.within
  have hs : (pass lim p b).Spends p b := pass_spends lim p b
  have ⟨hsc, _, hc⟩ := loop_spec h.scan hp
  have hb := h.busy rfl
  have ⟨d, hd⟩ := h.phase
  rw [hp] at ho hg hs
  obtain ⟨k, hk, ht, _⟩ := hs
  cases ho with
  | moves _ _ m =>
    refine ⟨hsc, ⟨_, hd.moves m⟩, m.bounded hg.1.within h.bounded, hk ▸ h.counted.takes ht, ?_, ?_⟩
    · omega
    · omega

theorem Turn.leave (h : Turn lim n true p b) (hp : pass lim p b = .ret st q c) (hn : ¬IsError st) :
    Turn lim n false q c := by
  have ho : Outcome lim p b (pass lim p b) := pass_outcome h.scan
  have hg : (pass lim p b).Grows lim p b := pass_grows h.bounded.within
  have hs : (pass lim p b).Spends p b := pass_spends lim p b
  have hb := h.busy rfl
  have hsc : ScanOk q c := Passes.scan (.ret hp) h.scan hn
  have ⟨d, hd⟩ := h.phase
  rw [hp] at ho hg hs
  have hw := hg.1.within
  have hle := hg.1.bytes
  obtain ⟨k, hk, hr⟩ := hs
  have hct : Counted n q c := hk ▸ h.counted.returns hr
  have hcap : q.consumed ≤ lim.maxRequestBytes := by omega
  have hph : (∃ c, Phase lim c q.rewind) ∧ Bounded lim q := by
    cases ho with
    | reports _ m =>
      refine ⟨?_, m.bounded hw h.bounded⟩
      have hx := hd.reports m
      cases st
      case request   => exact ⟨[], by rw [hx.1]; exact .start⟩
      case expect100 => exact ⟨_, hx⟩
      case needMore  => cases m
      all_goals exact absurd trivial hn
    | starves _ _ =>
      exact ⟨⟨d, hd⟩, hw, h.bounded.fields, h.bounded.early, h.bounded.header, h.bounded.chunked⟩
    | absorbs _ m => exact ⟨⟨_, hd.moves m⟩, m.bounded hw h.bounded⟩
    | empty _ _ => exact ⟨⟨d, hd⟩, h.bounded⟩
    | overflows => exact absurd trivial hn
    | fails _ he _ => exact absurd he hn
  exact ⟨hsc, hph.1, hph.2, hct, hcap, by simp⟩

theorem Turns.invariant (h : Turns lim n busy p b) : Turn lim n busy p b := by
  induction h
  case fresh =>
    refine ⟨.zero rfl, ⟨[], .start⟩, .fresh, ?_, Nat.zero_le _, by simp⟩
    exact ⟨Nat.le_refl _, Nat.le_refl _, Nat.le_refl _, by simp⟩
  case receive t _ hi =>
    have hb := hi.counted.bytes
    refine ⟨hi.scan.append t, hi.phase, hi.bounded, ?_, hi.cap, by simp⟩
    refine ⟨by simp; omega, hi.counted.header, hi.counted.body, fun x hx => ?_⟩
    exact Nat.le_add_right_of_le (hi.counted.values x hx)
  case enter hc hi      => exact ⟨hi.scan, hi.phase, hi.bounded, hi.counted, hi.cap, fun _ => hc⟩
  case again hp hi      => exact hi.again hp
  case leave hp hn hi   => exact hi.leave hp hn

-- Every call that does not fail is made of turns.
theorem Turns.parse (h : Turns lim n false p b) (hp : parse lim p b = (st, q, c)) (hn : ¬IsError st) :
    ∃ p' b', Turns lim n true p' b' ∧ pass lim p' b' = .ret st q c := by
  have hl : ¬st.IsTooLarge := fun h => hn (by cases st <;> trivial)
  have hc : p.consumed + b.length ≤ lim.maxRequestBytes := by
    by_contra hc
    cases (parse_capped (by omega)).symm.trans hp
    exact hn trivial
  have hb := h.enter hc
  have hps := passes_of_not_tooLarge h.invariant.scan hp hl
  clear hp hc h
  induction hps
  case ret hr        => exact ⟨_, _, hb, hr⟩
  case loop hr hps hi => exact hi hn hl (hb.again hr)

theorem Turns.call (h : Turns lim n false p b) (hp : Parser.parse lim p b = (st, q, c))
    (hn : ¬IsError st) : Turns lim n false q c := by
  have ⟨_, _, ht, hr⟩ := h.parse hp hn
  exact ht.leave hr hn

theorem Phase.declared (h : Phase lim c p) (hp : p.state = .bodyFixed) :
    ∃ n, p.cur.headerAll (ascii "Content-Length") = [decimal n] ∧
      p.body.length + p.bodyRemaining = n ∧ 0 < n ∧ n ≤ lim.maxBodyBytes := by
  cases h
  case fixed l fs e n d _ ha hd =>
    refine ⟨n, ?_, ?_, by omega, ha.2.2.2⟩
    · exact (headerAll_eq rfl _).trans ha.2.1
    · simp only [inFixed]
      omega
  all_goals cases hp

theorem Turn.limited (h : Turn lim n busy p b) : Limited lim p where
  fields     := h.bounded.fields
  header     := h.bounded.header
  consumed   := h.cap
  body       := h.bounded.within.body
  fixed hp   := by
    have ⟨_, hd⟩ := h.phase
    exact hd.declared hp
  chunked hp := h.bounded.chunked hp

-- The counters of the source have 64 bits.
def word64 (n : Nat) : Bool :=
  n < 2 ^ 64

theorem Counted.room (h : Counted n p b) (hn : n < 2 ^ 63) : Strict.Room (2 ^ 64 - 1) p b.length where
  consumed := by have := h.bytes; omega
  header   := by have := h.bytes; have := h.header; omega
  body     := by have := h.bytes; have := h.body; omega
  digits   := by omega
  values x hx := by have := h.values x hx; omega

-- Whatever arrives in whatever pieces, the parser keeps its limits at every turn, and so does every
-- request that it reports. Its counters do not overflow unless 2^63 bytes have arrived.
theorem turns_limited (h : Turns lim n busy p b) :
    Limited lim p ∧
    (busy = false → ∀ {st q c}, parse lim p b = (st, q, c) → ¬IsError st → Turns lim n false q c) ∧
    (busy = false → ∀ {r q c}, parse lim p b = (.request r, q, c) → Request.Limited lim r) ∧
    (n < 2 ^ 63 → ∀ buf : ByteBuf, buf.view = b →
      ∃ r, Strict.parse word64 lim p buf = some r ∧ parse lim p b = (r.1, r.2.1, r.2.2.view)) := by
  refine ⟨h.invariant.limited, fun hb st q c hp hn => ?_, fun hb r q c hp => ?_, fun hn buf hv => ?_⟩
  case refine_1 =>
    subst hb
    exact h.call hp hn
  case refine_2 =>
    subst hb
    have ⟨p', b', ht, hr⟩ := h.parse hp id
    have ht := ht.invariant
    have hc := ht.busy rfl
    have ho : Outcome lim p' b' (pass lim p' b') := pass_outcome ht.scan
    rw [hr] at ho
    cases ho with
    | reports hb m =>
      have hl := congrArg List.length hb
      rw [List.length_append] at hl
      exact m.limited ht.bounded (by omega)
    | fails _ he _ => cases he
  case refine_3 =>
    subst hv
    have hf : ∀ n ≤ 2 ^ 64 - 1, word64 n = true := fun n hn => by simp [word64]; omega
    have hr := h.invariant.counted.room hn
    rw [ByteBuf.length_view] at hr
    exact Strict.parse_refines lim hf hr

def half : Bytes :=
  ascii "POST / HTTP/1.1\r\nContent-Length: 5\r\n\r\nhe"

theorem turns_limited_half :
    ∃ p, Turns {} half.length false p [] ∧ p.body = ascii "he" ∧
      (∃ n, p.cur.headerAll (ascii "Content-Length") = [decimal n] ∧ 2 + p.bodyRemaining = n) ∧
      ∃ r, Strict.parse word64 {} p .clear = some r := by
  have hp : parse {} {} half = (.needMore, (parse {} {} half).2.1, []) := by decide +kernel
  have hs : (parse {} {} half).2.1.state = .bodyFixed := by decide +kernel
  have hb : (parse {} {} half).2.1.body = ascii "he" := by decide +kernel
  have h : Turns {} (0 + half.length) false _ [] := (turns_limited (.receive half .fresh)).2.1 rfl hp id
  rw [Nat.zero_add] at h
  obtain ⟨hl, _, _, hw⟩ := turns_limited h
  obtain ⟨n, hn, hr, _⟩ := hl.fixed hs
  obtain ⟨r, hr', _⟩ := hw (by decide) {} rfl
  rw [hb] at hr
  exact ⟨_, h, hb, ⟨n, hn, hr⟩, r, hr'⟩

end Http.Parser
