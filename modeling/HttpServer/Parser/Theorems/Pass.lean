import HttpServer.Objects.Theorems.Common
import HttpServer.Parser.Basic

open Text

namespace Http

namespace Parser

-- The parser with the cursor where every completed line leaves it.
def rewind (p : Parser) : Parser :=
  { p with scan := 0 }

-- The cursor may be used instead of a search from the start of the buffer.
structure ScanOk (p : Parser) (b : Bytes) : Prop where
  le   : p.scan ≤ b.length
  free : lf ∉ b.take p.scan

-- A parser is starved if what it looks for is not complete in the buffer: a line, or the rest of
-- a body or chunk.
def Starved (p : Parser) (b : Bytes) : Prop :=
  match p.state with
  | .bodyFixed   => b.length < p.bodyRemaining
  | .bodyChunked =>
    if !p.expectChunkCrlf && p.chunkRemaining > 0 then b.length < p.chunkRemaining else lf ∉ b
  | _ => lf ∉ b

instance (p : Parser) (b : Bytes) : Decidable (Starved p b) := by
  unfold Starved; split <;> try split
  all_goals infer_instance

-- A line of the given length and its CRLF were consumed.
def eatLine (p : Parser) (n : Nat) : Parser :=
  { p with consumed := p.consumed + (n + 2), scan := 0 }

-- The same for the lines that count as header bytes.
def eatField (p : Parser) (n : Nat) : Parser :=
  { p with
    consumed := p.consumed + (n + 2), headerBytes := p.headerBytes + (n + 2), scan := 0 }

def finish (p : Parser) : Request :=
  { p.cur with body := p.body, headerBytes := p.headerBytes, totalBytes := p.consumed }

-- All that a pass can do which does not end in an error: `Move lim p c o p'` consumes exactly `c`
-- and reports `o`, if anything.
inductive Move (lim : ParserLimits) (p : Parser) : Bytes → Option ParseStatus → Parser → Prop
  | requestLine {cur : Request} :
    p.state = .requestLine → lf ∉ l → l.length ≤ lim.maxRequestLineBytes →
    parseRequestLine lim l p.cur = (.ok (), cur) →
    Move lim p (l ++ crlf) none { p.eatLine l.length with cur := cur, state := .headers }
  | header {cur : Request} :
    p.state = .headers → lf ∉ l → l ≠ [] → parseHeaderLine lim l p.cur = .ok cur →
    p.headerBytes + (l.length + 2) ≤ lim.maxHeaderBytes →
    Move lim p (l ++ crlf) none { p.eatField l.length with cur := cur }
  | headPending :
    p.state = .headers → finishHeaders lim (p.eatField 0) = (.bodyPending, q) →
    Move lim p crlf none q
  | headExpect :
    p.state = .headers → finishHeaders lim (p.eatField 0) = (.send100, q) →
    Move lim p crlf (some .expect100) q
  | headReady :
    p.state = .headers → finishHeaders lim (p.eatField 0) = (.requestReady, q) →
    Move lim p crlf (some (.request q.finish)) reset
  | bodyData :
    p.state = .bodyFixed → d ≠ [] → d.length < p.bodyRemaining →
    Move lim p d none { p with
      body := p.body ++ d, consumed := p.consumed + d.length,
      bodyRemaining := p.bodyRemaining - d.length, scan := 0 }
  | bodyEnd :
    p.state = .bodyFixed → d.length = p.bodyRemaining →
    Move lim p d (some (.request
      { p with body := p.body ++ d, consumed := p.consumed + d.length }.finish)) reset
  | chunkCrlf :
    p.state = .bodyChunked → p.expectChunkCrlf = true →
    Move lim p crlf none { p.eatLine 0 with expectChunkCrlf := false }
  | chunkData :
    p.state = .bodyChunked → p.expectChunkCrlf = false → d ≠ [] →
    d.length ≤ p.chunkRemaining → p.body.length + d.length ≤ lim.maxBodyBytes →
    Move lim p d none { p with
      body := p.body ++ d, consumed := p.consumed + d.length,
      chunkRemaining := p.chunkRemaining - d.length, scan := 0,
      expectChunkCrlf := p.chunkRemaining - d.length = 0 }
  | chunkSize :
    p.state = .bodyChunked → p.expectChunkCrlf = false → p.chunkRemaining = 0 → lf ∉ l →
    parseChunkSize l = .ok n → n ≠ 0 → p.body.length + n ≤ lim.maxBodyBytes →
    Move lim p (l ++ crlf) none { p.eatLine l.length with chunkRemaining := n }
  | lastChunk :
    p.state = .bodyChunked → p.expectChunkCrlf = false → p.chunkRemaining = 0 → lf ∉ l →
    parseChunkSize l = .ok 0 →
    Move lim p (l ++ crlf) none { p.eatLine l.length with state := .chunkTrailer }
  | trailer {cur : Request} :
    p.state = .chunkTrailer → lf ∉ l → l ≠ [] → parseHeaderLine lim l p.cur = .ok cur →
    p.headerBytes + (l.length + 2) ≤ lim.maxHeaderBytes →
    Move lim p (l ++ crlf) none { p.eatField l.length with cur := cur }
  | trailerEnd :
    p.state = .chunkTrailer → Move lim p crlf (some (.request (p.eatLine 0).finish)) reset

def IsError : ParseStatus → Prop
  | .badRequest _ | .tooLarge _ => True
  | _ => False

-- What the result of a pass says about the input that was in the buffer.
inductive Outcome (lim : ParserLimits) (p : Parser) (b : Bytes) : Pass → Prop
  | moves : b = c ++ b' → c ≠ [] → Move lim p c none p' → Outcome lim p b (.loop o p' b')
  | reports : b = c ++ b' → Move lim p c (some st) p' → Outcome lim p b (.ret st p' b')
  | starves : Starved p b → lf ∉ b →
    Outcome lim p b (.ret .needMore { p with scan := b.length } b)
  | absorbs : Starved p b → Move lim p b none p' → Outcome lim p b (.ret .needMore p' [])
  | empty : Starved p b → b = [] → Outcome lim p b (.ret .needMore p [])
  | overflows : Outcome lim p b (.ret (.tooLarge err) p' b)
  | fails : ¬Starved p b → IsError st → b' <:+ b → Outcome lim p b (.ret st p' b')

variable {lim : ParserLimits} {p p' : Parser} {b b' t l r : Bytes} {st : ParseStatus}

theorem ScanOk.zero (h : p.scan = 0) : ScanOk p b where
  le   := by simp [h]
  free := by simp [h]

theorem ScanOk.append (h : ScanOk p b) (t : Bytes) : ScanOk p (b ++ t) where
  le   := by simp [Nat.le_add_right_of_le h.le]
  free := by rw [List.take_append_of_le_length h.le]; exact h.free

theorem find_scan (h : ScanOk p b) : find b lf (min p.scan b.length) = find b lf 0 := by
  rw [Nat.min_eq_left h.le, find_resume h.le h.free]

theorem lineReady_pending (h : ScanOk p b) (hb : lf ∉ b) :
    lineReady p b = (.pending, b.length) := by
  have hf : find b lf 0 = none := find_none_iff.mpr hb
  simp only [lineReady, find_scan h, hf]

theorem lineReady_line (h : ScanOk p (l ++ cr :: lf :: r)) (hl : lf ∉ l) :
    lineReady p (l ++ cr :: lf :: r) = (.ready l.length, l.length + 2) := by
  have hc : lf ∉ l ++ [cr] := by simp [hl]; decide
  have hf : find (l ++ cr :: lf :: r) lf 0 = some (l.length + 1) := by
    simpa using find_append (b := r) hc
  simp only [lineReady, find_scan h, hf]
  simp

theorem lineReady_bare (h : ScanOk p (l ++ lf :: r)) (hl : lf ∉ l) (hc : l.getLast? ≠ some cr) :
    lineReady p (l ++ lf :: r) = (.bareLf, l.length) := by
  simp only [lineReady, find_scan h, find_append hl]
  cases hn : l.length
  case zero   => simp
  case succ n =>
    have hg : (l ++ lf :: r)[n]? = l.getLast? := by
      rw [List.getElem?_append_left (by omega), List.getLast?_eq_getElem?, hn]; rfl
    simp [hg, hc]

-- The three things that a buffer can have in store for a parser that looks for a line.
theorem line_cases (b : Bytes) :
    (lf ∉ b) ∨
    (∃ l r, b = l ++ lf :: r ∧ lf ∉ l ∧ l.getLast? ≠ some cr) ∨
    (∃ l r, b = l ++ cr :: lf :: r ∧ lf ∉ l) := by
  by_cases hb : lf ∈ b
  case neg => exact .inl hb
  case pos =>
    have ⟨l, r, hs, hl⟩ := split_of_mem hb
    by_cases hc : l.getLast? = some cr
    case neg => exact .inr <| .inl ⟨l, r, hs, hl, hc⟩
    case pos =>
      have ⟨l', hl'⟩ := List.getLast?_eq_some_iff.mp hc
      exact .inr <| .inr ⟨l', r, by simp [hs, hl'], by simp_all⟩

theorem drop_line (l r : Bytes) : (l ++ cr :: lf :: r).drop (l.length + 2) = r := by
  rw [show l.length + 2 = (l ++ crlf).length by simp, show l ++ cr :: lf :: r = (l ++ crlf) ++ r by simp]
  exact List.drop_left

theorem suffix_line (l r : Bytes) : r <:+ l ++ cr :: lf :: r :=
  ⟨l ++ crlf, by simp⟩

theorem fail_outcome (hb : ¬Starved p b) (h : b' <:+ b) (err : String) (big : Bool) :
    Outcome lim p b (fail p' err big b') :=
  .fails hb (by dsimp only; split <;> trivial) h

theorem passRequestLine_outcome (hs : ScanOk p b) (hp : p.state = .requestLine) :
    Outcome lim p b (passRequestLine lim p b) := by
  match line_cases b with
  | .inl hb =>
    simp only [passRequestLine, lineReady_pending hs hb]
    split
    · exact .overflows
    · exact .starves (by simpa [Starved, hp] using hb) hb
  | .inr (.inl ⟨l, r, hb, hl, hc⟩) =>
    subst hb
    have hs' : ¬Starved p (l ++ lf :: r) := by simp [Starved, hp]
    simp only [passRequestLine, lineReady_bare hs hl hc]
    exact .fails hs' trivial List.suffix_rfl
  | .inr (.inr ⟨l, r, hb, hl⟩) =>
    subst hb
    have hs' : ¬Starved p (l ++ cr :: lf :: r) := by simp [Starved, hp]
    simp only [passRequestLine, lineReady_line hs hl, List.take_left', drop_line]
    split
    · exact .fails hs' trivial List.suffix_rfl
    case isFalse hm =>
      split
      · exact fail_outcome hs' (suffix_line l r) ..
      case h_2 hr =>
        refine .moves (c := l ++ crlf) (by simp) (append_crlf_ne_nil l) ?_
        exact .requestLine hp hl (by simpa using hm) (Prod.ext hr rfl)

theorem passHeaders_outcome (hs : ScanOk p b) (hp : p.state = .headers) :
    Outcome lim p b (passHeaders lim p b) := by
  match line_cases b with
  | .inl hb =>
    simp only [passHeaders, lineReady_pending hs hb]
    split
    · exact .overflows
    · exact .starves (by simpa [Starved, hp] using hb) hb
  | .inr (.inl ⟨l, r, hb, hl, hc⟩) =>
    subst hb
    have hs' : ¬Starved p (l ++ lf :: r) := by simp [Starved, hp]
    simp only [passHeaders, lineReady_bare hs hl hc]
    exact .fails hs' trivial List.suffix_rfl
  | .inr (.inr ⟨l, r, hb, hl⟩) =>
    subst hb
    have hs' : ¬Starved p (l ++ cr :: lf :: r) := by simp [Starved, hp]
    simp only [passHeaders, lineReady_line hs hl, List.take_left', drop_line]
    split
    case isTrue hn =>
      have hn : l = [] := by simpa using hn
      subst hn
      split
      · exact fail_outcome hs' ⟨crlf, rfl⟩ ..
      case h_2 hf => exact .reports (c := crlf) rfl (.headReady hp hf)
      case h_3 hf => exact .reports (c := crlf) rfl (.headExpect hp hf)
      case h_4 hf => exact .moves (c := crlf) rfl (by simp [crlf]) (.headPending hp hf)
    case isFalse hn =>
      have hn : l ≠ [] := by simpa using hn
      split
      · exact fail_outcome hs' (suffix_line l r) ..
      case h_2 hr =>
        split
        · exact .fails hs' trivial (suffix_line l r)
        case isFalse hm =>
          refine .moves (c := l ++ crlf) (by simp) (append_crlf_ne_nil l) ?_
          exact .header hp hl hn hr (by simpa using hm)

theorem passBodyFixed_outcome (hp : p.state = .bodyFixed) :
    Outcome lim p b (passBodyFixed p b) := by
  by_cases hb : b.length < p.bodyRemaining
  case pos =>
    have hm : min p.bodyRemaining b.length = b.length := by omega
    have hs : Starved p b := by simpa [Starved, hp] using hb
    simp only [passBodyFixed, hm, List.take_length, List.drop_length]
    by_cases he : b = []
    case pos =>
      subst he
      have hz : p.bodyRemaining ≠ 0 := by simpa using Nat.ne_of_gt hb
      simp only [List.length_nil, Nat.lt_irrefl, ↓reduceIte, hz]
      exact .empty hs rfl
    case neg =>
      have hl : 0 < b.length := List.length_pos_iff.mpr he
      have hr : p.bodyRemaining - b.length ≠ 0 := by omega
      simp only [hl, ↓reduceIte, hr]
      exact .absorbs hs (.bodyData hp he hb)
  case neg =>
    have hm : min p.bodyRemaining b.length = p.bodyRemaining := by omega
    have hl : (b.take p.bodyRemaining).length = p.bodyRemaining := by simp; omega
    have hb' := (List.take_append_drop p.bodyRemaining b).symm
    have hmv : Move lim p _ _ _ := .bodyEnd hp hl
    simp only [passBodyFixed, hm]
    by_cases hz : p.bodyRemaining = 0
    case pos =>
      simp only [hz, Nat.lt_irrefl, ↓reduceIte, List.drop_zero, emitRequest]
      exact .reports (c := []) rfl (by simpa [finish, hz] using hmv)
    case neg =>
      simp only [Nat.pos_of_ne_zero hz, ↓reduceIte, Nat.sub_self, emitRequest]
      exact .reports hb' (by simpa [finish, hl] using hmv)

theorem passBodyChunked_outcome (hs : ScanOk p b) (hp : p.state = .bodyChunked) :
    Outcome lim p b (passBodyChunked lim p b) := by
  cases hc : p.expectChunkCrlf
  case true =>
    simp only [passBodyChunked, if_pos hc]
    match line_cases b with
    | .inl hb =>
      simp only [lineReady_pending hs hb]
      exact .starves (by simpa [Starved, hp, hc] using hb) hb
    | .inr (.inl ⟨l, r, hb, hl, hr⟩) =>
      subst hb
      have hs' : ¬Starved p (l ++ lf :: r) := by simp [Starved, hp, hc]
      simp only [lineReady_bare hs hl hr]
      exact .fails hs' trivial List.suffix_rfl
    | .inr (.inr ⟨l, r, hb, hl⟩) =>
      subst hb
      have hs' : ¬Starved p (l ++ cr :: lf :: r) := by simp [Starved, hp, hc]
      simp only [lineReady_line hs hl]
      split
      · exact .fails hs' trivial List.suffix_rfl
      case isFalse hn =>
        have hn : l = [] := by simpa using hn
        subst hn
        exact .moves (c := crlf) rfl (by simp [crlf]) (.chunkCrlf hp hc)
  case false =>
    have hc' : ¬(p.expectChunkCrlf = true) := by simp [hc]
    by_cases hr : p.chunkRemaining > 0
    case pos =>
      simp only [passBodyChunked, if_neg hc', if_pos hr]
      split
      case isTrue ht =>
        have hb : b = [] := by simpa [Nat.ne_of_gt hr] using Nat.min_eq_zero_iff.mp ht
        subst hb
        exact .empty (by simp [Starved, hp, hc, hr]) rfl
      case isFalse ht =>
        split
        · exact .overflows
        case isFalse hm =>
          have hl : (b.take (min p.chunkRemaining b.length)).length = min p.chunkRemaining b.length := by
            simp
          have hmv : Move lim p _ _ _ := .chunkData (d := b.take (min p.chunkRemaining b.length))
            hp hc (by rw [← List.length_pos_iff]; omega) (by omega) (by omega)
          rw [hl] at hmv
          refine .moves (List.take_append_drop _ b).symm ?_ hmv
          rw [← List.length_pos_iff]
          omega
    case neg =>
      simp only [passBodyChunked, if_neg hc', if_neg hr]
      match line_cases b with
      | .inl hb =>
        simp only [lineReady_pending hs hb]
        split
        · exact .overflows
        · exact .starves (by simpa [Starved, hp, hc, hr] using hb) hb
      | .inr (.inl ⟨l, r, hb, hl, hn⟩) =>
        subst hb
        have hs' : ¬Starved p (l ++ lf :: r) := by simp [Starved, hp, hr]
        simp only [lineReady_bare hs hl hn]
        exact .fails hs' trivial List.suffix_rfl
      | .inr (.inr ⟨l, r, hb, hl⟩) =>
        subst hb
        have hs' : ¬Starved p (l ++ cr :: lf :: r) := by simp [Starved, hp, hr]
        simp only [lineReady_line hs hl, List.take_left', drop_line]
        split
        · exact fail_outcome hs' (suffix_line l r) ..
        case h_2 hz =>
          split
          case isTrue h0 =>
            subst h0
            refine .moves (c := l ++ crlf) (by simp) (append_crlf_ne_nil l) ?_
            exact .lastChunk hp hc (by omega) hl hz
          case isFalse h0 =>
            split
            · exact .fails hs' trivial (suffix_line l r)
            case isFalse hm =>
              refine .moves (c := l ++ crlf) (by simp) (append_crlf_ne_nil l) ?_
              exact .chunkSize hp hc (by omega) hl hz h0 (by omega)

theorem passChunkTrailer_outcome (hs : ScanOk p b) (hp : p.state = .chunkTrailer) :
    Outcome lim p b (passChunkTrailer lim p b) := by
  match line_cases b with
  | .inl hb =>
    simp only [passChunkTrailer, lineReady_pending hs hb]
    split
    · exact .overflows
    · exact .starves (by simpa [Starved, hp] using hb) hb
  | .inr (.inl ⟨l, r, hb, hl, hc⟩) =>
    subst hb
    have hs' : ¬Starved p (l ++ lf :: r) := by simp [Starved, hp]
    simp only [passChunkTrailer, lineReady_bare hs hl hc]
    exact .fails hs' trivial List.suffix_rfl
  | .inr (.inr ⟨l, r, hb, hl⟩) =>
    subst hb
    have hs' : ¬Starved p (l ++ cr :: lf :: r) := by simp [Starved, hp]
    simp only [passChunkTrailer, lineReady_line hs hl, List.take_left', drop_line]
    split
    case isTrue hn =>
      have hn : l = [] := by simpa using hn
      subst hn
      exact .reports (c := crlf) rfl (.trailerEnd hp)
    case isFalse hn =>
      have hn : l ≠ [] := by simpa using hn
      split
      · exact fail_outcome hs' (suffix_line l r) ..
      case h_2 hr =>
        split
        · exact .fails hs' trivial (suffix_line l r)
        case isFalse hm =>
          refine .moves (c := l ++ crlf) (by simp) (append_crlf_ne_nil l) ?_
          exact .trailer hp hl hn hr (by simpa using hm)

theorem pass_outcome (hs : ScanOk p b) : Outcome lim p b (pass lim p b) := by
  cases hp : p.state <;> simp only [pass, hp]
  case requestLine  => exact passRequestLine_outcome hs hp
  case headers      => exact passHeaders_outcome hs hp
  case bodyFixed    => exact passBodyFixed_outcome hp
  case bodyChunked  => exact passBodyChunked_outcome hs hp
  case chunkTrailer => exact passChunkTrailer_outcome hs hp

theorem pass_bodyEnd (hp : p.state = .bodyFixed) (hd : l.length = p.bodyRemaining) :
    pass lim p (l ++ r) = .ret (.request
      { p with body := p.body ++ l, consumed := p.consumed + l.length }.finish) reset r := by
  have hm : min p.bodyRemaining (l ++ r).length = l.length := by simp [← hd]
  simp only [pass, hp, passBodyFixed, hm, List.drop_left, List.take_left]
  by_cases hl : l = []
  case pos => simp_all [emitRequest, finish]
  case neg =>
    rw [if_pos (List.length_pos_iff.mpr hl)]
    simp [hd, emitRequest, finish]

theorem pass_chunkData (hp : p.state = .bodyChunked) (hc : p.expectChunkCrlf = false)
    (hd : l.length = p.chunkRemaining) (hl : l ≠ []) :
    pass lim p (l ++ r) =
      if p.body.length + l.length > lim.maxBodyBytes then
        .ret (.tooLarge "chunked body exceeds the body limit") p (l ++ r)
      else .loop false { p with
        body := p.body ++ l, consumed := p.consumed + l.length, chunkRemaining := 0, scan := 0,
        expectChunkCrlf := true } r := by
  have hm : min p.chunkRemaining (l ++ r).length = l.length := by simp [← hd]
  have hr : 0 < l.length := List.length_pos_iff.mpr hl
  have hc' : ¬(p.expectChunkCrlf = true) := by simp [hc]
  simp only [pass, hp, passBodyChunked, if_neg hc', hm, List.drop_left, List.take_left,
    if_pos (show p.chunkRemaining > 0 by omega), if_neg (show ¬(l.length = 0) by omega)]
  simp [← hd]

end Parser
end Http
