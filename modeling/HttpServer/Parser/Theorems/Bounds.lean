import HttpServer.Parser.Theorems.Parse

open Text

namespace Http.Parser

-- The head of the message is behind the parser.
def late (p : Parser) : Bool :=
  p.state ≠ .requestLine && p.state ≠ .headers

-- The body that the parser has collected fits, and so does what is left of one of known length.
structure Within (lim : ParserLimits) (p : Parser) : Prop where
  early : p.late = false → p.body = []
  fixed : p.state = .bodyFixed → p.body.length + p.bodyRemaining ≤ lim.maxBodyBytes
  body  : p.body.length ≤ lim.maxBodyBytes

-- What a parser can become when it takes something from the buffer.
structure Grows (lim : ParserLimits) (p : Parser) (b : Bytes) (q : Parser) (c : Bytes) : Prop where
  within : Within lim q
  bytes  : q.consumed + c.length ≤ p.consumed + b.length

-- The same for the result of a pass. An interim response is asked for at the end of the head only.
def Pass.Grows (lim : ParserLimits) (p : Parser) (b : Bytes) : Pass → Prop
  | .ret st q c => Parser.Grows lim p b q c ∧ (st = .expect100 → p.late = false ∧ q.late)
  | .loop _ q c => Parser.Grows lim p b q c ∧ (p.late → q.late)

variable {lim : ParserLimits} {p q : Parser} {b c : Bytes} {st : ParseStatus}

theorem Within.fresh : Within lim {} where
  early _ := rfl
  fixed h := by cases h
  body    := Nat.zero_le _

theorem lineReady_le {n e : Nat} (h : lineReady p b = (.ready e, n)) : e + 2 ≤ b.length := by
  simp only [lineReady] at h
  split at h
  case h_1 => cases h
  case h_2 i hf =>
    have hl := find_some_lt hf
    split at h
    case isTrue     => cases h
    case isFalse hn =>
      cases h
      simp only [Bool.or_eq_true, beq_iff_eq, not_or] at hn
      omega

-- Neither the body nor what is left of it changes.
theorem Within.keep (h : Within lim p) (hb : q.body = p.body) (hl : q.late = p.late)
    (hf : q.state = .bodyFixed → p.state = .bodyFixed ∧ q.bodyRemaining = p.bodyRemaining) :
    Within lim q where
  early he := by rw [hb]; exact h.early (hl ▸ he)
  fixed hq := by
    have ⟨hp, hr⟩ := hf hq
    rw [hb, hr]
    exact h.fixed hp
  body := by rw [hb]; exact h.body

theorem Grows.stay (hw : Within lim q) (hc : q.consumed = p.consumed) : Grows lim p b q b :=
  ⟨hw, by rw [hc]⟩

theorem Grows.eat {n : Nat} (hw : Within lim q) (hc : q.consumed = p.consumed + n)
    (hn : n ≤ b.length) : Grows lim p b q (b.drop n) := by
  refine ⟨hw, ?_⟩
  rw [hc, List.length_drop]
  omega

theorem fail_grows {err : String} {big : Bool} (h : Grows lim p b q c) :
    (fail q err big c).Grows lim p b := by
  have hw : Within lim { q with tooLarge := q.tooLarge || big } :=
    h.within.keep rfl rfl fun hq => ⟨hq, rfl⟩
  refine ⟨⟨hw, h.bytes⟩, fun he => ?_⟩
  dsimp only at he
  split at he <;> cases he

theorem emitRequest_grows (h : c.length ≤ b.length) : (emitRequest q c).Grows lim p b := by
  refine ⟨⟨.fresh, ?_⟩, by simp⟩
  simp [reset]
  omega

theorem passRequestLine_grows (hw : Within lim p) (hp : p.state = .requestLine) :
    (passRequestLine lim p b).Grows lim p b := by
  have hs (n : Nat) : Grows lim p b { p with scan := n } b :=
    .stay (hw.keep rfl rfl fun hq => ⟨hq, rfl⟩) rfl
  simp only [passRequestLine]
  split
  case h_1 => split <;> exact ⟨hs _, by simp⟩
  case h_2 => exact ⟨hs _, by simp⟩
  case h_3 hl =>
    have hl := lineReady_le hl
    split
    case isTrue  => exact ⟨hs _, by simp⟩
    case isFalse =>
      split
      case h_1 => exact fail_grows (.eat (hw.keep rfl rfl fun hq => ⟨hq, rfl⟩) rfl hl)
      case h_2 =>
        have hl' : p.late = false := by simp [late, hp]
        exact ⟨.eat (hw.keep rfl (by rw [hl']; rfl) (by simp)) rfl hl, by simp [hl']⟩

theorem framing_length {cur : Request} {n : Nat} (h : framing lim cur = .ok (.length n)) :
    n ≤ lim.maxBodyBytes := by
  simp only [framing] at h
  repeat' split at h
  all_goals cases h
  omega

-- The end of the head decides how long a body of known length is.
theorem finishHeaders_within (hp : p.state = .headers) (hb : p.body = []) :
    Within lim (finishHeaders lim p).2 ∧
      ((finishHeaders lim p).1 = .send100 → (finishHeaders lim p).2.late) ∧
      (finishHeaders lim p).2.consumed = p.consumed := by
  have he {p : Parser} (h : Within lim p) (hl : p.late) : Within lim (finishExpect p).2 ∧
      ((finishExpect p).1 = .send100 → (finishExpect p).2.late) ∧
      (finishExpect p).2.consumed = p.consumed := by
    simp only [finishExpect]
    repeat' split
    all_goals exact ⟨h.keep rfl rfl fun hq => ⟨hq, rfl⟩, fun _ => hl, rfl⟩
  have hh {q : Parser} (hq : q.state = .headers) (hb : q.body = []) : Within lim q :=
    ⟨fun _ => hb, by simp [hq], by simp [hb]⟩
  simp only [finishHeaders]
  split
  case h_1 => exact ⟨hh hp hb, by simp, rfl⟩
  case h_2 =>
    split
    case h_1 => exact ⟨hh hp hb, by simp, rfl⟩
    case h_2 => exact he ⟨fun _ => hb, by simp, by simp [hb]⟩ rfl
    case h_3 n hf =>
      split
      case isTrue  =>
        exact he ⟨fun _ => hb, fun _ => by simpa [hb] using framing_length hf, by simp [hb]⟩ rfl
      case isFalse => exact ⟨hh hp hb, by simp, rfl⟩
    case h_4 => exact ⟨hh hp hb, by simp, rfl⟩

theorem passHeaders_grows (hw : Within lim p) (hp : p.state = .headers) :
    (passHeaders lim p b).Grows lim p b := by
  have hl : p.late = false := by simp [late, hp]
  have hs (n : Nat) : Grows lim p b { p with scan := n } b :=
    .stay (hw.keep rfl rfl fun hq => ⟨hq, rfl⟩) rfl
  simp only [passHeaders]
  split
  case h_1 => split <;> exact ⟨hs _, by simp⟩
  case h_2 => exact ⟨hs _, by simp⟩
  case h_3 n e hr =>
    have hr := lineReady_le hr
    split
    case isTrue =>
      have hf : Within lim (finishHeaders lim (p.eatField n)).2 ∧ _ :=
        finishHeaders_within hp (hw.early hl)
      have hg {q : Parser} (hq : (finishHeaders lim (p.eatField n)).2 = q) :
          Grows lim p b q (b.drop (n + 2)) := hq ▸ .eat hf.1 hf.2.2 hr
      split
      case h_1 hq => exact fail_grows (hg (congrArg (·.2) hq))
      case h_2    => exact emitRequest_grows (by simp)
      case h_3 hq =>
        have hx := hf.2.1 (congrArg (·.1) hq)
        rw [show (finishHeaders lim (p.eatField n)).2 = _ from congrArg (·.2) hq] at hx
        exact ⟨hg (congrArg (·.2) hq), fun _ => ⟨hl, hx⟩⟩
      case h_4 hq => exact ⟨hg (congrArg (·.2) hq), by simp [hl]⟩
    case isFalse =>
      split
      case h_1 => exact fail_grows (.eat (hw.keep rfl rfl fun hq => ⟨hq, rfl⟩) rfl hr)
      case h_2 cur _ =>
        have hg : Grows lim p b { p.eatField n with cur := cur } (b.drop (n + 2)) :=
          .eat (hw.keep rfl rfl fun hq => ⟨hq, rfl⟩) rfl hr
        split
        case isTrue  => exact ⟨hg, by simp⟩
        case isFalse => exact ⟨hg, by simp [hl]⟩

theorem passBodyFixed_grows (hw : Within lim p) (hp : p.state = .bodyFixed) :
    (passBodyFixed p b).Grows lim p b := by
  have hl : p.late := by simp [late, hp]
  have hf := hw.fixed hp
  have hg : Grows lim p b (if min p.bodyRemaining b.length > 0 then { p with
      body          := p.body ++ b.take (min p.bodyRemaining b.length)
      consumed      := p.consumed + min p.bodyRemaining b.length
      bodyRemaining := p.bodyRemaining - min p.bodyRemaining b.length
      scan          := 0 } else p) (b.drop (min p.bodyRemaining b.length)) := by
    split
    case isTrue  =>
      refine .eat ⟨fun he => ?_, fun _ => ?_, ?_⟩ rfl (Nat.min_le_right ..)
      · cases hl.symm.trans he
      · simp only [List.length_append, List.length_take]
        omega
      · simp only [List.length_append, List.length_take]
        omega
    case isFalse hn =>
      have h₀ : min p.bodyRemaining b.length = 0 := by omega
      rw [h₀]
      exact .stay hw rfl
  simp only [passBodyFixed]
  generalize (if min p.bodyRemaining b.length > 0 then { p with
    body          := p.body ++ b.take (min p.bodyRemaining b.length)
    consumed      := p.consumed + min p.bodyRemaining b.length
    bodyRemaining := p.bodyRemaining - min p.bodyRemaining b.length
    scan          := 0 } else p) = q at hg
  split
  case isTrue  => exact emitRequest_grows (by simp)
  case isFalse => exact ⟨hg, by simp⟩

-- In the chunked states there is no length to keep track of.
theorem Grows.chunk {n : Nat} (hq : q.state = .bodyChunked ∨ q.state = .chunkTrailer)
    (hb : q.body.length ≤ lim.maxBodyBytes) (hc : q.consumed = p.consumed + n)
    (hn : n ≤ b.length) : Grows lim p b q (b.drop n) ∧ (p.late → q.late) := by
  have hl : q.late := by rcases hq with hq | hq <;> simp [late, hq]
  refine ⟨.eat ⟨fun he => ?_, fun hf => ?_, hb⟩ hc hn, fun _ => hl⟩
  · cases hl.symm.trans he
  · rcases hq with hq | hq <;> cases hq.symm.trans hf

theorem passBodyChunked_grows (hw : Within lim p) (hp : p.state = .bodyChunked) :
    (passBodyChunked lim p b).Grows lim p b := by
  have hs (n : Nat) : Grows lim p b { p with scan := n } b :=
    .stay (hw.keep rfl rfl fun hq => ⟨hq, rfl⟩) rfl
  simp only [passBodyChunked]
  split
  case isTrue =>
    split
    case h_1 => exact ⟨hs _, by simp⟩
    case h_2 => exact ⟨hs _, by simp⟩
    case h_3 hr =>
      have hr := lineReady_le hr
      split
      case isTrue  => exact ⟨hs _, by simp⟩
      case isFalse =>
        exact Grows.chunk (q := { p.eatLine 0 with expectChunkCrlf := false }) (.inl hp) hw.body rfl
          (by omega)
  case isFalse =>
    split
    case isTrue =>
      split
      case isTrue => exact ⟨.stay hw rfl, by simp⟩
      case isFalse =>
        split
        case isTrue     => exact ⟨.stay hw rfl, by simp⟩
        case isFalse hb =>
          refine Grows.chunk (q := { p with
            body            := p.body ++ b.take (min p.chunkRemaining b.length)
            consumed        := p.consumed + min p.chunkRemaining b.length
            chunkRemaining  := p.chunkRemaining - min p.chunkRemaining b.length
            scan            := 0
            expectChunkCrlf := p.chunkRemaining - min p.chunkRemaining b.length = 0 }) (.inl hp) ?_
            rfl (Nat.min_le_right ..)
          simp only [List.length_append, List.length_take]
          omega
    case isFalse =>
      split
      case h_1 => split <;> exact ⟨hs _, by simp⟩
      case h_2 => exact ⟨hs _, by simp⟩
      case h_3 n e hr =>
        have hr := lineReady_le hr
        have hg : Grows lim p b (p.eatLine n) (b.drop (n + 2)) :=
          .eat (hw.keep rfl rfl fun hq => ⟨hq, rfl⟩) rfl hr
        split
        case h_1 => exact fail_grows hg
        case h_2 size _ =>
          split
          case isTrue =>
            exact Grows.chunk (q := { p.eatLine n with state := .chunkTrailer }) (.inr rfl) hw.body
              rfl hr
          case isFalse =>
            split
            case isTrue  => exact ⟨hg, by simp⟩
            case isFalse =>
              exact Grows.chunk (q := { p.eatLine n with chunkRemaining := size }) (.inl hp) hw.body
                rfl hr

theorem passChunkTrailer_grows (hw : Within lim p) :
    (passChunkTrailer lim p b).Grows lim p b := by
  have hs (n : Nat) : Grows lim p b { p with scan := n } b :=
    .stay (hw.keep rfl rfl fun hq => ⟨hq, rfl⟩) rfl
  simp only [passChunkTrailer]
  split
  case h_1 => split <;> exact ⟨hs _, by simp⟩
  case h_2 => exact ⟨hs _, by simp⟩
  case h_3 n e hr =>
    have hr := lineReady_le hr
    split
    case isTrue => exact emitRequest_grows (by simp)
    case isFalse =>
      split
      case h_1 => exact fail_grows (.eat (hw.keep rfl rfl fun hq => ⟨hq, rfl⟩) rfl hr)
      case h_2 cur _ =>
        have hg : Grows lim p b { p.eatField n with cur := cur } (b.drop (n + 2)) :=
          .eat (hw.keep rfl rfl fun hq => ⟨hq, rfl⟩) rfl hr
        split
        case isTrue  => exact ⟨hg, by simp⟩
        case isFalse => exact ⟨hg, fun h => h⟩

theorem pass_grows (hw : Within lim p) : (pass lim p b).Grows lim p b := by
  simp only [pass]
  split
  case h_1 hp => exact passRequestLine_grows hw hp
  case h_2 hp => exact passHeaders_grows hw hp
  case h_3 hp => exact passBodyFixed_grows hw hp
  case h_4 hp => exact passBodyChunked_grows hw hp
  case h_5    => exact passChunkTrailer_grows hw

-- A call of `parse` keeps the bounds, and asks for an interim response at most once for a message.
theorem parse_grows (hw : Within lim p) (h : parse lim p b = (st, q, c)) :
    Grows lim p b q c ∧ (st = .expect100 → p.late = false ∧ q.late) := by
  have hn (fuel : Nat) (outer : Bool) {p : Parser} {b : Bytes} (hw : Within lim p)
      (h : parseLoop lim fuel outer p b = (st, q, c)) :
      Grows lim p b q c ∧ (st = .expect100 → p.late = false ∧ q.late) := by
    induction fuel generalizing outer p b <;> simp only [parseLoop] at h
    case zero => cases h; exact ⟨.stay hw rfl, by simp⟩
    case succ hi =>
      split at h
      case isTrue => cases h; exact ⟨.stay hw rfl, by simp⟩
      case isFalse =>
        have hg : (pass lim p b).Grows lim p b := pass_grows hw
        split at h
        case h_1 hp => cases h; rw [hp] at hg; exact hg
        case h_2 hp =>
          rw [hp] at hg
          obtain ⟨hg, hl⟩ := hg
          obtain ⟨hg', he⟩ := hi _ hg.within h
          refine ⟨⟨hg'.within, Nat.le_trans hg'.bytes hg.bytes⟩, fun hs => ⟨?_, (he hs).2⟩⟩
          have hq := (he hs).1
          refine Bool.eq_false_iff.mpr fun hp => ?_
          cases (hl hp).symm.trans hq
  exact hn _ _ hw h

end Http.Parser
