import HttpServer.Parser.Theorems.Pass

open Text

namespace Http.Parser

-- The pass with more input behind what it left over.
def Pass.append (t : Bytes) : Pass → Pass
  | .ret st p b => .ret st p (b ++ t)
  | .loop o p b => .loop o p (b ++ t)

-- The pass up to the position of the cursor.
def Pass.rewind : Pass → Pass
  | .ret st p b => .ret st p.rewind b
  | .loop o p b => .loop o p.rewind b

variable {lim : ParserLimits} {p q : Parser} {b t l : Bytes}

theorem lineReady_append (hs : ScanOk p b) (hb : lf ∈ b) (t : Bytes) :
    lineReady p (b ++ t) = lineReady p b ∧ (lineReady p b).1 ≠ .pending ∧
      ∀ n k, lineReady p b = (.ready n, k) → n + 2 ≤ b.length := by
  have hs' := hs.append t
  match line_cases b |>.resolve_left (not_not.mpr hb) with
  | .inl ⟨l, r, hb, hl, hc⟩ =>
    subst hb
    rw [List.append_assoc, List.cons_append] at hs' ⊢
    simp [lineReady_bare hs hl hc, lineReady_bare hs' hl hc]
  | .inr ⟨l, r, hb, hl⟩ =>
    subst hb
    simp only [List.append_assoc, List.cons_append] at hs' ⊢
    simp [lineReady_line hs hl, lineReady_line hs' hl]

theorem passRequestLine_append (hs : ScanOk p b) (hb : lf ∈ b) :
    passRequestLine lim p (b ++ t) = (passRequestLine lim p b).append t := by
  have ⟨ha, hp, hr⟩ := lineReady_append hs hb t
  match hl : lineReady p b with
  | (.pending, _)  => simp [hl] at hp
  | (.bareLf, _)   => simp only [passRequestLine, ha, hl, Pass.append]
  | (.ready n, _) =>
    have hn := hr _ _ hl
    simp only [passRequestLine, ha, hl, List.drop_append_of_le_length hn,
      List.take_append_of_le_length (show n ≤ b.length by omega)]
    split
    · rfl
    · split <;> rfl

theorem passHeaders_append (hs : ScanOk p b) (hb : lf ∈ b) :
    passHeaders lim p (b ++ t) = (passHeaders lim p b).append t := by
  have ⟨ha, hp, hr⟩ := lineReady_append hs hb t
  match hl : lineReady p b with
  | (.pending, _)  => simp [hl] at hp
  | (.bareLf, _)   => simp only [passHeaders, ha, hl, Pass.append]
  | (.ready n, _) =>
    have hn := hr _ _ hl
    simp only [passHeaders, ha, hl, List.drop_append_of_le_length hn,
      List.take_append_of_le_length (show n ≤ b.length by omega)]
    split
    · split <;> rfl
    · split
      · rfl
      · split <;> rfl

theorem passBodyFixed_append (hb : ¬b.length < p.bodyRemaining) :
    passBodyFixed p (b ++ t) = (passBodyFixed p b).append t := by
  have hm : min p.bodyRemaining (b ++ t).length = min p.bodyRemaining b.length := by simp; omega
  simp only [passBodyFixed, hm, List.drop_append_of_le_length (Nat.min_le_right ..),
    List.take_append_of_le_length (Nat.min_le_right ..)]
  split <;> split <;> rfl

theorem passBodyChunked_append (hs : ScanOk p b) (hp : p.state = .bodyChunked) (hb : ¬Starved p b) :
    passBodyChunked lim p (b ++ t) = (passBodyChunked lim p b).append t := by
  cases hc : p.expectChunkCrlf
  case true =>
    have hb : lf ∈ b := by simpa [Starved, hp, hc] using hb
    obtain ⟨ha, hw, hr⟩ := lineReady_append hs hb t
    simp only [passBodyChunked, if_pos hc, ha]
    rcases hl : lineReady p b with ⟨_ | _ | n, _⟩
    · simp [hl] at hw
    · rfl
    · have hn := hr _ _ hl
      simp only [List.drop_append_of_le_length (show 2 ≤ b.length by omega)]
      split <;> rfl
  case false =>
    have hc' : ¬(p.expectChunkCrlf = true) := by simp [hc]
    by_cases hr : p.chunkRemaining > 0
    case pos =>
      have hb : ¬b.length < p.chunkRemaining := by simpa [Starved, hp, hc, hr] using hb
      have hm : min p.chunkRemaining (b ++ t).length = min p.chunkRemaining b.length := by
        simp; omega
      simp only [passBodyChunked, hm, List.drop_append_of_le_length (Nat.min_le_right ..),
        List.take_append_of_le_length (Nat.min_le_right ..), if_neg hc', if_pos hr]
      split
      · rfl
      · split <;> rfl
    case neg =>
      have hb : lf ∈ b := by simpa [Starved, hp, hc, hr] using hb
      obtain ⟨ha, hw, hn⟩ := lineReady_append hs hb t
      simp only [passBodyChunked, if_neg hc', if_neg hr, ha]
      rcases hl : lineReady p b with ⟨_ | _ | n, _⟩
      · simp [hl] at hw
      · rfl
      · have hn := hn _ _ hl
        simp only [List.drop_append_of_le_length hn,
          List.take_append_of_le_length (show n ≤ b.length by omega)]
        split
        · rfl
        · split
          · rfl
          · split <;> rfl

theorem passChunkTrailer_append (hs : ScanOk p b) (hb : lf ∈ b) :
    passChunkTrailer lim p (b ++ t) = (passChunkTrailer lim p b).append t := by
  have ⟨ha, hp, hr⟩ := lineReady_append hs hb t
  match hl : lineReady p b with
  | (.pending, _)  => simp [hl] at hp
  | (.bareLf, _)   => simp only [passChunkTrailer, ha, hl, Pass.append]
  | (.ready n, _) =>
    have hn := hr _ _ hl
    simp only [passChunkTrailer, ha, hl, List.drop_append_of_le_length hn,
      List.take_append_of_le_length (show n ≤ b.length by omega)]
    split
    · rfl
    · split <;> try split
      all_goals rfl

-- A pass that has all the input it asks for does not look behind it.
theorem pass_append (hs : ScanOk p b) (hb : ¬Starved p b) :
    pass lim p (b ++ t) = (pass lim p b).append t := by
  cases hp : p.state <;> simp only [pass, hp] <;> try simp only [Starved, hp, not_not] at hb
  case requestLine  => exact passRequestLine_append hs hb
  case headers      => exact passHeaders_append hs hb
  case bodyFixed    => exact passBodyFixed_append hb
  case bodyChunked  => exact passBodyChunked_append hs hp (by simpa only [Starved, hp] using hb)
  case chunkTrailer => exact passChunkTrailer_append hs hb

-- The cursor only saves work: a pass that searches the whole buffer does the same.
theorem pass_rewind (hs : ScanOk p b) : (pass lim p.rewind b).rewind = (pass lim p b).rewind := by
  have hl : lineReady p.rewind b = lineReady p b := by
    simp only [lineReady, find_scan hs, find_scan (ScanOk.zero (p := p.rewind) rfl)]
  have hp : p.rewind.state = p.state := rfl
  cases h : p.state <;> simp only [pass, hp, h]
  case requestLine =>
    simp only [passRequestLine, hl]
    split <;> rfl
  case headers =>
    simp only [passHeaders, hl]
    rfl
  case bodyFixed =>
    have hr : p.rewind.bodyRemaining = p.bodyRemaining := rfl
    simp only [passBodyFixed, hr]
    split
    · split <;> rfl
    · simp only [hr]
      split <;> rfl
  case bodyChunked =>
    have hc : p.rewind.expectChunkCrlf = p.expectChunkCrlf := rfl
    have hr : p.rewind.chunkRemaining = p.chunkRemaining := rfl
    have hb : p.rewind.body = p.body := rfl
    simp only [passBodyChunked, hl, hc, hr, hb]
    split
    · rfl
    · split
      · split
        · rfl
        · split <;> rfl
      · rfl
  case chunkTrailer =>
    simp only [passChunkTrailer, hl]
    rfl

end Http.Parser
