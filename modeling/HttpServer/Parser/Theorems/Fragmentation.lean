import HttpServer.Library.Resumable
import HttpServer.Parser.Theorems.Parse

open Text

namespace Http.Parser

-- One call of `parse`, for a caller that drains its buffer.
def call (lim : ParserLimits) : Resumable.Call Parser Byte ParseStatus ParseStatus := fun p b =>
  match parse lim p b with
  | (.needMore, p, b)       => (.more, p, b)
  | (.request out, p, b)    => (.emit (.request out), p, b)
  | (.expect100, p, b)      => (.emit .expect100, p, b)
  | (.badRequest err, p, b) => (.stop (.badRequest err), p, b)
  | (.tooLarge err, p, b)   => (.stop (.tooLarge err), p, b)

-- A fresh parser whose input arrives in the given pieces: after each piece `parse` is called until
-- it needs more input or fails. The second component is the error that ended the run, if any.
def run (lim : ParserLimits) (pieces : List Bytes) : List ParseStatus × Option ParseStatus :=
  Resumable.drive (call lim) {} [] pieces

-- What the parser is for: the results for a stream that is there as a whole, without the limits
-- on the bytes that are buffered and without a cursor.
def ideal (lim : ParserLimits) (p : Parser) (s : Bytes) : List ParseStatus × Option ParseStatus :=
  if Starved p s then ([], none)
  else match pass lim p.rewind s with
    | .loop _ q r => if r.length < s.length then ideal lim q r else ([], none)
    | .ret .needMore _ _ => ([], none)
    | .ret (.badRequest err) _ _ => ([], some (.badRequest err))
    | .ret (.tooLarge err) _ _ => ([], some (.tooLarge err))
    | .ret st q r =>
      if r.length < s.length then
        let (es, f) := ideal lim q r
        (st :: es, f)
      else ([], none)
termination_by s.length

-- The suspended states of a parser: its cursor is right, and it waits for at least one body byte.
structure Ready (p : Parser) (b : Bytes) : Prop where
  scan : ScanOk p b
  body : p.state = .bodyFixed → 0 < p.bodyRemaining

variable {lim : ParserLimits} {p p' q : Parser} {b b' c t : Bytes} {st : ParseStatus}

theorem Starved.of_append (h : Starved p (b ++ t)) : Starved p b := by
  cases hp : p.state <;> simp only [Starved, hp, List.length_append, List.mem_append] at h ⊢
  case bodyFixed   => omega
  case bodyChunked => split <;> simp_all; omega
  all_goals exact fun hb => h (.inl hb)

theorem Ready.append (h : Ready p b) (t : Bytes) : Ready p (b ++ t) where
  scan := h.scan.append t
  body := h.body

theorem finishHeaders_body (h : finishHeaders lim p = (o, q)) (hp : p.state = .headers)
    (hq : q.state = .bodyFixed) : 0 < q.bodyRemaining := by
  have he (p : Parser) : (finishExpect p).2.state = p.state ∧
      (finishExpect p).2.bodyRemaining = p.bodyRemaining := by
    simp only [finishExpect]
    repeat' split
    all_goals simp
  have h : (finishHeaders lim p).2 = q := congrArg (·.2) h
  subst h
  simp only [finishHeaders] at hq ⊢
  split <;> simp_all
  split <;> simp_all
  split <;> simp_all

theorem Move.ready {o : Option ParseStatus} (m : Move lim p c o q) : Ready q b where
  scan := .zero m.scan_eq
  body := by
    intro hq
    cases m
    case headPending hp h => exact finishHeaders_body h hp hq
    case headExpect hp h  => exact finishHeaders_body h hp hq
    case bodyData h       => exact Nat.sub_pos_of_lt h
    all_goals simp_all [eatLine, eatField, reset]

-- The cursor does not matter for the meaning of a stream.
theorem ideal_congr (h : p.rewind = q.rewind) (s : Bytes) : ideal lim p s = ideal lim q s := by
  have hr (p : Parser) : ideal lim p.rewind s = ideal lim p s := by
    rw [ideal, ideal]
    rfl
  rw [← hr p, h, hr q]

theorem ideal_scan (lim : ParserLimits) (p : Parser) (n : Nat) (s : Bytes) :
    ideal lim { p with scan := n } s = ideal lim p s :=
  ideal_congr (p := { p with scan := n }) (q := p) rfl s

theorem ideal_starved (h : Starved p b) : ideal lim p b = ([], none) := by
  rw [ideal, if_pos h]

-- A pass over a buffer that holds all it asks for is a pass over the whole stream.
theorem pass_stream (hs : ScanOk p b) (hb : ¬Starved p b) (t : Bytes) :
    (pass lim p.rewind (b ++ t)).rewind = ((pass lim p b).append t).rewind := by
  rw [pass_rewind (hs.append t), pass_append hs hb]

theorem pass_stream_loop (hs : ScanOk p b) (hb : ¬Starved p b) (h : pass lim p b = .loop o q c)
    (t : Bytes) : ∃ q', pass lim p.rewind (b ++ t) = .loop o q' (c ++ t) ∧ q'.rewind = q.rewind := by
  have hr : (pass lim p.rewind (b ++ t)).rewind = _ := pass_stream hs hb t
  rw [h] at hr
  generalize pass lim p.rewind (b ++ t) = x at hr
  cases x
  case ret  => simp [Pass.append, Pass.rewind] at hr
  case loop =>
    obtain ⟨ho, hq, hc⟩ := Pass.loop.inj hr
    exact ⟨_, by rw [ho, hc], hq⟩

theorem pass_stream_ret (hs : ScanOk p b) (hb : ¬Starved p b) (h : pass lim p b = .ret st q c)
    (t : Bytes) : ∃ q', pass lim p.rewind (b ++ t) = .ret st q' (c ++ t) ∧ q'.rewind = q.rewind := by
  have hr : (pass lim p.rewind (b ++ t)).rewind = _ := pass_stream hs hb t
  rw [h] at hr
  generalize pass lim p.rewind (b ++ t) = x at hr
  cases x
  case loop => simp [Pass.append, Pass.rewind] at hr
  case ret  =>
    obtain ⟨ho, hq, hc⟩ := Pass.ret.inj hr
    exact ⟨_, by rw [ho, hc], hq⟩

theorem ideal_loop (hs : ScanOk p b) (hb : ¬Starved p b) (h : pass lim p b = .loop o q c)
    (t : Bytes) : ideal lim p (b ++ t) = ideal lim q (c ++ t) := by
  have ⟨_, hl, _⟩ := loop_spec hs h
  have ⟨q', hp, hq⟩ := pass_stream_loop hs hb h t
  rw [ideal, if_neg (mt Starved.of_append hb), hp]
  have hl : (c ++ t).length < (b ++ t).length := by simpa using hl
  simp only [if_pos hl]
  exact ideal_congr hq _

theorem ideal_fail (hs : ScanOk p b) (hb : ¬Starved p b) (h : pass lim p b = .ret st q c)
    (he : IsError st) (t : Bytes) : ideal lim p (b ++ t) = ([], some st) := by
  have ⟨q', hp, _⟩ := pass_stream_ret hs hb h t
  rw [ideal, if_neg (mt Starved.of_append hb), hp]
  cases st <;> first | rfl | cases he

theorem ideal_report (hs : ScanOk p b) (hb : ¬Starved p b) (h : pass lim p b = .ret st q c)
    (he : ¬IsError st) (hn : st ≠ .needMore) (hl : c.length < b.length) (t : Bytes) :
    ideal lim p (b ++ t) = (st :: (ideal lim q (c ++ t)).1, (ideal lim q (c ++ t)).2) := by
  have ⟨q', hp, hq⟩ := pass_stream_ret hs hb h t
  have hl : (c ++ t).length < (b ++ t).length := by simpa using hl
  rw [ideal, if_neg (mt Starved.of_append hb), hp]
  cases st
  case needMore   => exact absurd rfl hn
  case badRequest => exact absurd trivial he
  case tooLarge   => exact absurd trivial he
  all_goals simp only [if_pos hl, ideal_congr hq]

theorem ideal_bodyEnd (hp : p.state = .bodyFixed) (hb : b.length = p.bodyRemaining) (hn : b ≠ [])
    (t : Bytes) :
    let r := { p with body := p.body ++ b, consumed := p.consumed + b.length }.finish
    ideal lim p (b ++ t) = (.request r :: (ideal lim reset t).1, (ideal lim reset t).2) := by
  have h : pass lim p.rewind b = _ := List.append_nil b ▸ pass_bodyEnd (p := p.rewind) (r := []) hp hb
  have hs : ¬Starved p.rewind b := by simp [Starved, rewind, hp, hb]
  rw [ideal_congr (show p.rewind = p.rewind.rewind from rfl)]
  exact ideal_report (.zero rfl) hs h id (by simp) (List.length_pos_iff.mpr hn) t

theorem ideal_chunkData (hp : p.state = .bodyChunked) (hc : p.expectChunkCrlf = false)
    (hb : b.length = p.chunkRemaining) (hn : b ≠ []) (t : Bytes) :
    ideal lim p (b ++ t) =
      if p.body.length + b.length > lim.maxBodyBytes then
        ([], some (.tooLarge "chunked body exceeds the body limit"))
      else ideal lim { p with
        body := p.body ++ b, consumed := p.consumed + b.length, chunkRemaining := 0, scan := 0,
        expectChunkCrlf := true } t := by
  have h : pass lim p.rewind b = _ := List.append_nil b ▸ pass_chunkData (p := p.rewind) (r := []) hp hc hb hn
  have hr : 0 < p.chunkRemaining := hb ▸ List.length_pos_iff.mpr hn
  have hs : ¬Starved p.rewind b := by simp [Starved, rewind, hp, hc, hr, hb]
  rw [ideal_congr (show p.rewind = p.rewind.rewind from rfl)]
  split
  case isTrue hm  => exact ideal_fail (.zero rfl) hs (h.trans (if_pos hm)) trivial t
  case isFalse hm => exact ideal_loop (.zero rfl) hs (h.trans (if_neg hm)) t

-- Bytes of a body or chunk that were taken before the rest of it arrived.
theorem ideal_absorb (hb : Starved p b) (m : Move lim p b none q) (t : Bytes) :
    ideal lim p (b ++ t) = ideal lim q t := by
  cases m
  case bodyData hp hne hl =>
    generalize hq : ({ p with body := _, consumed := _, bodyRemaining := _, scan := _ } : Parser) = q
    have hp' : q.state = .bodyFixed := hq ▸ hp
    have hr : q.bodyRemaining = p.bodyRemaining - b.length := by rw [← hq]
    by_cases ht : t.length < q.bodyRemaining
    case pos =>
      have h₁ : Starved p (b ++ t) := by simp [Starved, hp]; omega
      have h₂ : Starved q t := by simpa [Starved, hp'] using ht
      rw [ideal_starved h₁, ideal_starved h₂]
    case neg =>
      obtain ⟨d, r, hr, hd⟩ : ∃ d r, t = d ++ r ∧ d.length = q.bodyRemaining :=
        ⟨_, _, (List.take_append_drop q.bodyRemaining t).symm, by simp; omega⟩
      have hn : d ≠ [] := by rw [← List.length_pos_iff]; omega
      subst hr
      rw [← List.append_assoc, ideal_bodyEnd hp (by simp; omega) (by simp [hn]),
        ideal_bodyEnd hp' hd hn]
      simp [finish, ← hq, Nat.add_assoc]
  case chunkData hp hc hne hl hm =>
    have hr : 0 < p.chunkRemaining := Nat.lt_of_lt_of_le (List.length_pos_iff.mpr hne) hl
    have hl : b.length < p.chunkRemaining := by simpa [Starved, hp, hc, hr] using hb
    generalize hq : ({ p with
      body := _, consumed := _, chunkRemaining := _, scan := _, expectChunkCrlf := _ } : Parser) = q
    have hp' : q.state = .bodyChunked := hq ▸ hp
    have hr' : q.chunkRemaining = p.chunkRemaining - b.length := by rw [← hq]
    have hc' : q.expectChunkCrlf = false := by rw [← hq]; simp; omega
    by_cases ht : t.length < q.chunkRemaining
    case pos =>
      have h₁ : Starved p (b ++ t) := by simp [Starved, hp, hc, hr]; omega
      have h₂ : Starved q t := by simp [Starved, hp', hc', show 0 < q.chunkRemaining by omega, ht]
      rw [ideal_starved h₁, ideal_starved h₂]
    case neg =>
      obtain ⟨d, r, hr, hd⟩ : ∃ d r, t = d ++ r ∧ d.length = q.chunkRemaining :=
        ⟨_, _, (List.take_append_drop q.chunkRemaining t).symm, by simp; omega⟩
      have hn : d ≠ [] := by rw [← List.length_pos_iff]; omega
      subst hr
      rw [← List.append_assoc, ideal_chunkData hp hc (by simp; omega) (by simp [hn]),
        ideal_chunkData hp' hc' hd hn]
      simp [← hq, Nat.add_assoc]
  all_goals simp_all [Starved, crlf]

theorem Move.not_starved (m : Move lim p c (some st) q) : ¬Starved p c := by
  cases m <;> simp_all [Starved, crlf]

theorem Move.ne_nil (m : Move lim p c (some st) q) (hr : Ready p b) : c ≠ [] := by
  cases m
  case bodyEnd hp hc =>
    have := hr.body hp
    rw [← List.length_pos_iff]
    omega
  all_goals simp [crlf]

theorem loop_ideal (hr : Ready p b) (h : pass lim p b = .loop o q c) :
    Ready q c ∧ c.length < b.length ∧ ∀ t, ideal lim p (b ++ t) = ideal lim q (c ++ t) := by
  have ⟨_, hl, _⟩ := loop_spec hr.scan h
  have ho : Outcome lim p b (pass lim p b) := pass_outcome hr.scan
  rw [h] at ho
  cases ho with
  | @moves d _ _ _ hb _ m =>
    refine ⟨m.ready, hl, fun t => ?_⟩
    by_cases hs : Starved p b
    case neg => exact ideal_loop hr.scan hs h t
    case pos =>
      subst hb
      rw [List.append_assoc]
      exact ideal_absorb hs.of_append m (c ++ t)

theorem Move.starved (hs : Starved p b) (m : Move lim p b none q) : Starved q [] := by
  cases m
  case bodyData hp _ hl => simpa [Starved, hp] using Nat.sub_pos_of_lt hl
  case chunkData hp _ _ _ _ => simp [Starved, hp]
  all_goals simp_all [Starved, crlf]

theorem Passes.more_ideal (hp : Passes lim p b .needMore p' b') (hr : Ready p b) :
    Ready p' b' ∧ ideal lim p' b' = ([], none) ∧
      ∀ t, ideal lim p (b ++ t) = ideal lim p' (b' ++ t) := by
  generalize hst : ParseStatus.needMore = st at hp
  induction hp <;> subst hst
  case loop h _ hi =>
    have ⟨hq, _, ht⟩ := loop_ideal hr h
    have ⟨hr', hn, ht'⟩ := hi hq rfl
    exact ⟨hr', hn, fun t => (ht t).trans (ht' t)⟩
  case ret h =>
    have ho : Outcome lim _ _ (pass lim _ _) := pass_outcome hr.scan
    rw [h] at ho
    cases ho with
    | reports _ m => cases m
    | starves hs hb =>
      refine ⟨⟨⟨by simp, by simpa using hb⟩, hr.body⟩, ideal_starved hs, fun _ => ?_⟩
      exact (ideal_scan ..).symm
    | absorbs hs m => exact ⟨m.ready, ideal_starved (m.starved hs), ideal_absorb hs m⟩
    | empty hs hb =>
      subst hb
      exact ⟨hr, ideal_starved hs, fun _ => rfl⟩
    | fails _ he => cases he

theorem Passes.report_ideal (hp : Passes lim p b st p' b') (hr : Ready p b) (he : ¬IsError st)
    (hn : st ≠ .needMore) :
    Ready p' b' ∧ b'.length < b.length ∧
      ∀ t, ideal lim p (b ++ t) = (st :: (ideal lim p' (b' ++ t)).1, (ideal lim p' (b' ++ t)).2) := by
  induction hp
  case loop h _ hi =>
    have ⟨hq, hl, ht⟩ := loop_ideal hr h
    have ⟨hr', hl', ht'⟩ := hi hq he hn
    exact ⟨hr', hl'.trans hl, fun t => (ht t).trans (ht' t)⟩
  case ret h =>
    have ho : Outcome lim _ _ (pass lim _ _) := pass_outcome hr.scan
    have hp := h
    rw [h] at ho
    cases ho with
    | reports hb m =>
      have hc := List.length_pos_iff.mpr (m.ne_nil hr)
      have hl := congrArg List.length hb
      rw [List.length_append] at hl
      refine ⟨m.ready, by omega, ideal_report hr.scan (fun hs => ?_) hp he hn (by omega)⟩
      rw [hb] at hs
      exact m.not_starved hs.of_append
    | starves => exact absurd rfl hn
    | absorbs => exact absurd rfl hn
    | empty => exact absurd rfl hn
    | overflows => exact absurd trivial he
    | fails _ h => exact absurd h he

theorem Passes.fail_ideal (hp : Passes lim p b st p' b') (hr : Ready p b) (he : IsError st)
    (hn : ¬st.IsTooLarge) (t : Bytes) : ideal lim p (b ++ t) = ([], some st) := by
  induction hp
  case loop h _ hi =>
    have ⟨hq, _, ht⟩ := loop_ideal hr h
    exact (ht t).trans (hi hq he hn)
  case ret h =>
    have ho : Outcome lim _ _ (pass lim _ _) := pass_outcome hr.scan
    have hp := h
    rw [h] at ho
    cases ho with
    | reports _ m => cases m <;> cases he
    | starves | absorbs | empty => cases he
    | overflows => exact absurd trivial hn
    | fails hs => exact ideal_fail hr.scan hs hp he t

theorem pass_absorbed (hs : Starved p b) (m : Move lim p b none q) :
    pass lim q [] = .ret .needMore q [] := by
  cases m
  case bodyData hp _ hl =>
    have hr : p.bodyRemaining - b.length ≠ 0 := by omega
    simp [pass, hp, passBodyFixed, hr]
  case chunkData hp hc hn hl _ =>
    have hr : 0 < p.chunkRemaining := Nat.lt_of_lt_of_le (List.length_pos_iff.mpr hn) hl
    have hl : b.length < p.chunkRemaining := by simpa [Starved, hp, hc, hr] using hs
    have hr : p.chunkRemaining - b.length ≠ 0 := by omega
    simp [pass, hp, passBodyChunked, hr, Nat.pos_of_ne_zero hr]
  all_goals simp_all [Starved, crlf]

-- A pass that needs more input has used up all it can: the next one finds it in the same position.
theorem Passes.again (hp : Passes lim p b .needMore p' b') (hr : Ready p b) :
    (∃ q, Passes lim p' b' .needMore q b') ∧ p'.consumed + b'.length = p.consumed + b.length := by
  generalize hst : ParseStatus.needMore = st at hp
  induction hp <;> subst hst
  case loop h _ hi =>
    have ⟨hq, _, _⟩ := loop_ideal hr h
    have ⟨_, _, hc⟩ := loop_spec hr.scan h
    have ⟨ha, hc'⟩ := hi hq rfl
    exact ⟨ha, hc'.trans hc⟩
  case ret p b p' b' h =>
    have ho : Outcome lim _ _ (pass lim _ _) := pass_outcome hr.scan
    have hp := h
    rw [h] at ho
    cases ho with
    | reports _ m => cases m
    | starves hs hb =>
      have hs' : ScanOk { p with scan := b.length } b := ⟨by simp, by simpa using hb⟩
      have he : (pass lim { p with scan := b.length } b).rewind = (pass lim p b).rewind :=
        (pass_rewind hs').symm.trans (pass_rewind hr.scan)
      rw [hp] at he
      refine ⟨?_, rfl⟩
      match hq : pass lim { p with scan := b.length } b with
      | .loop _ _ _ => simp [hq, Pass.rewind] at he
      | .ret st q r =>
        rw [hq] at he
        obtain ⟨hst, _, hr⟩ := Pass.ret.inj he
        exact ⟨q, .ret (by rw [hq, hst, hr])⟩
    | absorbs hs m => exact ⟨⟨_, .ret (pass_absorbed hs m)⟩, by simp [m.consumed_eq]⟩
    | empty hs hb =>
      subst hb
      exact ⟨⟨_, .ret hp⟩, rfl⟩
    | fails _ he => cases he

theorem parse_again (hr : Ready p b) (h : parse lim p b = (.needMore, p', b')) :
    (parse lim p' b').1 = .needMore := by
  have hc : p.consumed + b.length ≤ lim.maxRequestBytes := by
    by_contra hc
    cases (parse_capped (by omega)).symm.trans h
  have hp := passes_of_parse hr.scan h hc
  have ⟨⟨_, ha⟩, he⟩ := hp.again hr
  rw [parse_of_passes ha (hp.more_ideal hr).1.scan (by omega)]
theorem call_more (h : call lim p b = (.more, p', b')) : parse lim p b = (.needMore, p', b') := by
  rcases hp : parse lim p b with ⟨st, q, c⟩
  cases st <;> simp_all [call]

theorem call_emit (h : call lim p b = (.emit st, p', b')) :
    parse lim p b = (st, p', b') ∧ (st = .expect100 ∨ ∃ r, st = .request r) := by
  rcases hp : parse lim p b with ⟨st', q, c⟩
  cases st' <;> simp_all [call]
  all_goals simp [← h.1]

theorem call_stop (h : call lim p b = (.stop st, p', b')) :
    parse lim p b = (st, p', b') ∧ IsError st := by
  rcases hp : parse lim p b with ⟨st', q, c⟩
  cases st' <;> simp_all [call]
  all_goals simp [← h.1, IsError]

-- The calls of `parse` are a resumable reader that reads streams as `ideal` does.
theorem call_explains (lim : ParserLimits) :
    Resumable.Explains (call lim) Ready ParseStatus.IsTooLarge (ideal lim) where
  append t hr := hr.append t
  more hr h := (passes_of_not_tooLarge hr.scan (call_more h) id).more_ideal hr
  emit hr h := by
    obtain ⟨hp, rfl | ⟨_, rfl⟩⟩ := call_emit h
    all_goals exact (passes_of_not_tooLarge hr.scan hp id).report_ideal hr id (by simp)
  stop hr h hf := by
    have ⟨hp, he⟩ := call_stop h
    exact (passes_of_not_tooLarge hr.scan hp hf).fail_ideal hr he hf

theorem ready_fresh : Ready {} [] where
  scan := .zero rfl
  body := nofun

theorem ideal_fresh (lim : ParserLimits) : ideal lim {} [] = ([], none) :=
  ideal_starved (by simp [Starved])

def EndsTooLarge (r : List ParseStatus × Option ParseStatus) : Prop :=
  ∃ st, r.2 = some st ∧ st.IsTooLarge

-- However a stream is cut into pieces, the parser reports the same requests and the same error,
-- unless it gives up on the size of what it has to keep. Even then it got nothing wrong before.
theorem run_fragmentation (lim : ParserLimits) (s : Bytes) (ps qs : List Bytes)
    (hp : ps.flatten = s) (hq : qs.flatten = s) :
    (¬EndsTooLarge (run lim ps) → ¬EndsTooLarge (run lim qs) → run lim ps = run lim qs) ∧
    (EndsTooLarge (run lim ps) ∨ EndsTooLarge (run lim qs) →
      (run lim ps).1 <+: (run lim qs).1 ∨ (run lim qs).1 <+: (run lim ps).1) := by
  have ⟨he, hpre⟩ := (call_explains lim).drive_agree ready_fresh (ideal_fresh lim) (hp.trans hq.symm)
  refine ⟨fun h₁ h₂ => he ?_ ?_, fun _ => hpre⟩
  · exact fun f hf hl => h₁ ⟨f, hf, hl⟩
  · exact fun f hf hl => h₂ ⟨f, hf, hl⟩

def pipelined : Bytes :=
  ascii "POST / HTTP/1.1\r\nContent-Length: 2\r\n\r\nhiGET /a HTTP/1.1\r\n\r\n"

theorem run_fragmentation_pipelined :
    (run {} [pipelined]).1.length = 2 ∧ run {} [pipelined] = run {} (pipelined.map ([·])) := by
  have h₁ : (run {} [pipelined]).2 = none := by decide +kernel
  have h₂ : (run {} (pipelined.map ([·]))).2 = none := by decide +kernel
  have h := run_fragmentation {} pipelined [pipelined] (pipelined.map ([·])) (by rfl) (by rfl)
  refine ⟨by decide +kernel, h.1 ?_ ?_⟩
  · simp [EndsTooLarge, h₁]
  · simp [EndsTooLarge, h₂]

end Http.Parser
