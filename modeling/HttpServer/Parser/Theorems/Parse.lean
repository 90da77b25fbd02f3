import HttpServer.Parser.Theorems.Stable

open Text

namespace Http.Parser

-- A call of `parse` as the sequence of its passes, without the cap on the size of the request.
inductive Passes (lim : ParserLimits) : Parser → Bytes → ParseStatus → Parser → Bytes → Prop
  | ret  : pass lim p b = .ret st p' b' → Passes lim p b st p' b'
  | loop : pass lim p b = .loop o q c → Passes lim q c st p' b' → Passes lim p b st p' b'

variable {lim : ParserLimits} {p p' q : Parser} {b b' c t : Bytes} {st : ParseStatus}

-- What `finish_headers` leaves alone.
theorem finishHeaders_preserves (lim : ParserLimits) (p : Parser) :
    (finishHeaders lim p).2.scan = p.scan ∧ (finishHeaders lim p).2.consumed = p.consumed ∧
    (finishHeaders lim p).2.headerBytes = p.headerBytes ∧ (finishHeaders lim p).2.body = p.body := by
  have he (p : Parser) : (finishExpect p).2.scan = p.scan ∧ (finishExpect p).2.consumed = p.consumed ∧
      (finishExpect p).2.headerBytes = p.headerBytes ∧ (finishExpect p).2.body = p.body := by
    simp only [finishExpect]
    repeat' split
    all_goals simp
  simp only [finishHeaders]
  split
  · simp
  · split
    · simp
    · exact he _
    · split
      · exact he _
      · simp
    · simp

theorem Move.scan_eq {o : Option ParseStatus} (m : Move lim p c o p') : p'.scan = 0 := by
  cases m
  case headPending h => exact (congrArg (·.2.scan) h).symm.trans (finishHeaders_preserves ..).1
  case headExpect h  => exact (congrArg (·.2.scan) h).symm.trans (finishHeaders_preserves ..).1
  all_goals rfl

theorem Move.consumed_eq (m : Move lim p c none p') : p'.consumed = p.consumed + c.length := by
  cases m
  case headPending h =>
    exact (congrArg (·.2.consumed) h).symm.trans (finishHeaders_preserves ..).2.1
  case chunkCrlf => rfl
  all_goals simp [eatLine, eatField]

-- Neither a pass nor, by `Passes`, a call can lose track of the bytes it takes from the buffer.
theorem loop_spec (hs : ScanOk p b) (h : pass lim p b = .loop o q c) :
    ScanOk q c ∧ c.length < b.length ∧ q.consumed + c.length = p.consumed + b.length := by
  have ho : Outcome lim p b (pass lim p b) := pass_outcome hs
  rw [h] at ho
  cases ho with
  | @moves d _ _ _ hb hd m =>
    have hl : 0 < d.length := List.length_pos_iff.mpr hd
    have hc := m.consumed_eq
    subst hb
    refine ⟨.zero m.scan_eq, ?_, ?_⟩ <;> simp <;> omega

theorem Passes.total (lim : ParserLimits) {p : Parser} {b : Bytes} (hs : ScanOk p b) :
    ∃ st p' b', Passes lim p b st p' b' := by
  match h : pass lim p b with
  | .ret st p' b' => exact ⟨st, p', b', .ret h⟩
  | .loop o q c =>
    have ⟨hq, hl, _⟩ := loop_spec hs h
    have ⟨st, p', b', hp⟩ := Passes.total lim hq
    exact ⟨st, p', b', .loop h hp⟩
termination_by b.length

-- The fuel of `parse` suffices, and the checks of the cap after the first one change nothing.
theorem parseLoop_fuel (hp : Passes lim p b st p' b') (hs : ScanOk p b) (hn : b.length < n)
    (hc : p.consumed + b.length ≤ lim.maxRequestBytes) : parseLoop lim n o p b = (st, p', b') := by
  induction hp generalizing n o <;> cases n <;> try omega
  case ret.succ h _ => simp [parseLoop, h, Nat.not_lt_of_le hc]
  case loop.succ h _ hi _ =>
    have ⟨hq, hl, hc'⟩ := loop_spec hs h
    simp only [parseLoop, h, gt_iff_lt, Nat.not_lt_of_le hc, decide_false, Bool.and_false]
    exact hi hq (by omega) (by omega)

theorem parse_of_passes (hp : Passes lim p b st p' b') (hs : ScanOk p b)
    (hc : p.consumed + b.length ≤ lim.maxRequestBytes) : parse lim p b = (st, p', b') :=
  parseLoop_fuel hp hs (by simp) hc

theorem parse_capped (hc : lim.maxRequestBytes < p.consumed + b.length) :
    parse lim p b = (.tooLarge "request exceeds the configured limit", p, b) := by
  simp [parse, parseLoop, hc]

theorem passes_of_parse (hs : ScanOk p b) (h : parse lim p b = (st, p', b'))
    (hc : p.consumed + b.length ≤ lim.maxRequestBytes) : Passes lim p b st p' b' := by
  have ⟨_, _, _, hp⟩ := Passes.total lim hs
  cases (parse_of_passes hp hs hc).symm.trans h
  exact hp

-- Every result but the refusal of an oversized request comes from passes.
theorem passes_of_not_tooLarge (hs : ScanOk p b) (h : parse lim p b = (st, p', b'))
    (hn : ¬st.IsTooLarge) : Passes lim p b st p' b' := by
  by_cases hc : p.consumed + b.length ≤ lim.maxRequestBytes
  case pos => exact passes_of_parse hs h hc
  case neg =>
    cases (parse_capped (by omega)).symm.trans h
    exact absurd trivial hn

end Http.Parser
