import HttpServer.Parser.Theorems.Verdict

open Text

namespace Http.Parser

open Grammar Resumable

variable {lim : ParserLimits} {p q : Parser} {b c d i t : Bytes} {st : ParseStatus} {err : String}
variable {l : RequestLine} {fs ts : List FieldLine} {cs : List Chunk} {s : ChunkLine} {e : Bool}
variable {m : Message} {es : List (Bytes × Request)} {ps : List Bytes} {rs : List ParseStatus}

-- A run so far: the input `i` has arrived, and the results of the calls are `rs`.
structure Reported (lim : ParserLimits) (i : Bytes) (rs : List ParseStatus) (p : Parser) (b : Bytes) :
    Prop where
  session : ∃ es c, Session lim i es c p b ∧
    rs.filterMap (fun | .request r => some r | _ => none) = es.map (·.2)
  ready   : Ready p b
  rest    : ∀ t, ideal lim {} (i ++ t) =
    (rs ++ (ideal lim p (b ++ t)).1, (ideal lim p (b ++ t)).2)

theorem reported_fresh (lim : ParserLimits) : Reported lim [] [] {} [] where
  session := ⟨[], [], .fresh, rfl⟩
  ready   := ready_fresh
  rest    := by simp

theorem call_reported (lim : ParserLimits) : Preserved (call lim) (Reported lim) where
  receive t h := by
    obtain ⟨es, c, hs, hr⟩ := h.session
    refine ⟨⟨es, c, .receive t hs, hr⟩, h.ready.append t, fun u => ?_⟩
    rw [List.append_assoc, List.append_assoc]
    exact h.rest (t ++ u)
  more h hc := by
    obtain ⟨es, c, hs, hr⟩ := h.session
    obtain ⟨hp, _, ht⟩ := (call_explains lim).more h.ready hc
    refine ⟨⟨es, _, .waits hs (call_more hc) (.inl rfl), hr⟩, hp, fun t => ?_⟩
    rw [h.rest, ht]
  emit h hc := by
    obtain ⟨es, c, hs, hr⟩ := h.session
    obtain ⟨hp', _, ht⟩ := (call_explains lim).emit h.ready hc
    refine ⟨?_, hp', fun t => by rw [h.rest, ht]; simp⟩
    obtain ⟨hp, rfl | ⟨r, rfl⟩⟩ := call_emit hc
    · exact ⟨es, _, .waits hs hp (.inr rfl), by simpa using hr⟩
    · exact ⟨_, _, .reports hs hp, by simp [hr]⟩

theorem Phase.consumed_eq (h : Phase lim c p) : p.consumed = c.length := by
  cases h
  case start => rfl
  all_goals simp [inHead, inFixed, inChunks, inChunk, inTrailers]

-- No message is longer than the cap.
theorem Session.capped (h : Session lim i es c p b) : ∀ x ∈ es, x.1.length ≤ lim.maxRequestBytes := by
  induction h
  case fresh => simp
  case receive hi => exact hi
  case waits hi => exact hi
  case reports s es c p b r p' b' h hp hi =>
    have hc : p.consumed = c.length := h.invariant.2.2.1.consumed_eq
    have hm : p.consumed + b.length ≤ lim.maxRequestBytes := by
      by_contra hn
      cases (parse_capped (by omega)).symm.trans hp
    intro x hx
    rcases List.mem_append.mp hx with hx | hx
    · exact hi x hx
    · rw [List.mem_singleton.mp hx]
      simp only [List.length_append, List.length_take]
      omega

-- A call that gives up has come to a pass that does.
theorem Passes.gives_up (hp : Passes lim p b (.tooLarge err) q d) (hr : Ready p b)
    (h : Phase lim c p.rewind) :
    ∃ c' p' b' q' d', c ++ b = c' ++ b' ∧ Phase lim c' p'.rewind ∧ Ready p' b' ∧
      (∀ t, ideal lim p (b ++ t) = ideal lim p' (b' ++ t)) ∧
      pass lim p' b' = .ret (.tooLarge err) q' d' := by
  generalize hst : ParseStatus.tooLarge err = st at hp
  induction hp generalizing c <;> subst hst
  case ret hp => exact ⟨_, _, _, _, _, rfl, h, hr, fun _ => rfl, hp⟩
  case loop hl _ hi =>
    have ho : Outcome lim _ _ (pass lim _ _) := pass_outcome hr.scan
    have ⟨hr', _, ht⟩ := loop_ideal hr hl
    rw [hl] at ho
    cases ho with
    | moves hb _ m =>
      have ⟨c', p', b', q', d', hc, hp, hr, ht', hx⟩ := hi hr' (h.moves m) rfl
      refine ⟨c', p', b', q', d', ?_, hp, hr, fun t => (ht t).trans (ht' t), hx⟩
      rw [hb, ← List.append_assoc, hc]

-- A buffer that does not hold all that the parser waits for, and is too long for that.
def Crammed (lim : ParserLimits) (p : Parser) (b : Bytes) : Prop :=
  match p.state with
  | .requestLine  => lim.maxRequestLineBytes < b.length
  | .headers      => lim.maxHeaderBytes < p.headerBytes + b.length
  | .bodyFixed    => False
  | .bodyChunked  => p.expectChunkCrlf = false ∧
    if p.chunkRemaining > 0 then lim.maxBodyBytes < p.body.length + b.length
    else lim.maxRequestLineBytes < b.length
  | .chunkTrailer => lim.maxHeaderBytes < p.headerBytes + b.length

theorem crammed_of_gives_up (hs : ScanOk p b) (hb : Starved p b)
    (h : pass lim p b = .ret (.tooLarge err) q d) : Crammed lim p b := by
  cases hp : p.state <;> simp only [Starved, Crammed, pass, hp] at hb h ⊢
  case requestLine =>
    simp only [passRequestLine, lineReady_pending hs hb] at h
    split at h
    case isTrue hm => exact hm
    case isFalse   => cases h
  case headers =>
    simp only [passHeaders, lineReady_pending hs hb] at h
    split at h
    case isTrue hm => exact hm
    case isFalse   => cases h
  case bodyFixed =>
    simp only [passBodyFixed, emitRequest] at h
    split at h <;> split at h <;> cases h
  case bodyChunked =>
    simp only [passBodyChunked] at h
    split at h
    case isTrue hc =>
      rw [if_neg (by simp [hc])] at hb
      simp only [lineReady_pending hs hb] at h
      cases h
    case isFalse hc =>
      have hc : p.expectChunkCrlf = false := by simpa using hc
      refine ⟨hc, ?_⟩
      split at h
      case isTrue hr =>
        rw [if_pos hr]
        rw [if_pos (by simp [hc, hr])] at hb
        have hm : min p.chunkRemaining b.length = b.length := by omega
        rw [hm] at h
        split at h
        · cases h
        split at h
        case isTrue hm => exact hm
        case isFalse   => cases h
      case isFalse hr =>
        rw [if_neg hr]
        rw [if_neg (by simp [hr])] at hb
        simp only [lineReady_pending hs hb] at h
        split at h
        case isTrue hm => exact hm
        case isFalse   => cases h
  case chunkTrailer =>
    simp only [passChunkTrailer, lineReady_pending hs hb] at h
    split at h
    case isTrue hm => exact hm
    case isFalse   => cases h

theorem gives_up_of_crammed (hs : ScanOk p b) (hb : lf ∉ b) (hr : p.chunkRemaining = 0)
    (h : Crammed lim p b) : ∃ err q d, pass lim p b = .ret (.tooLarge err) q d := by
  cases hp : p.state <;> simp only [Crammed, hp] at h <;> simp only [pass, hp]
  case requestLine =>
    simp only [passRequestLine, lineReady_pending hs hb]
    exact ⟨_, _, _, if_pos h⟩
  case headers =>
    simp only [passHeaders, lineReady_pending hs hb]
    exact ⟨_, _, _, if_pos h⟩
  case bodyChunked =>
    have hn : ¬p.chunkRemaining > 0 := by omega
    obtain ⟨hc, h⟩ := h
    rw [if_neg hn] at h
    simp only [passBodyChunked, hc, lineReady_pending hs hb, if_neg hn]
    exact ⟨_, _, _, if_pos h⟩
  case chunkTrailer =>
    simp only [passChunkTrailer, lineReady_pending hs hb]
    exact ⟨_, _, _, if_pos h⟩

-- What is still missing of a line has room for its CR.
theorem line_room {x y : Bytes} (hb : lf ∉ b) (h : b ++ t = encodeLine x ++ y) :
    b.length ≤ x.length + 1 := by
  by_contra hn
  have hi : (b ++ t)[x.length + 1]? = some lf := by
    rw [h]
    simp [encodeLine, crlf]
  rw [List.getElem?_append_left (by omega)] at hi
  exact hb (List.mem_of_getElem? hi)

-- What was read of a list of fields, or of chunks, is how the list starts.
theorem fields_start {x y : Bytes} {gs : List FieldLine}
    (h : encodeFields fs ++ x = encodeFields gs ++ (crlf ++ y)) :
    ∃ hs, gs = fs ++ hs ∧ x = encodeFields hs ++ (crlf ++ y) := by
  have hc (x : Bytes) : crlf ++ x = encodeLine [] ++ x := rfl
  induction fs generalizing gs
  case nil => exact ⟨gs, rfl, h⟩
  case cons f fs hi =>
    cases gs
    case nil =>
      simp only [encodeFields, List.flatMap_nil, List.nil_append, List.flatMap_cons,
        List.append_assoc, hc] at h
      exact absurd (encodeLine_inj f.no_lf (by simp) h).1 f.encode_ne_nil
    case cons g gs =>
      simp only [encodeFields, List.flatMap_cons, List.append_assoc] at h
      obtain ⟨hf, ht⟩ := encodeLine_inj f.no_lf g.no_lf h
      obtain ⟨hs, hg, hx⟩ := hi ht
      exact ⟨hs, by rw [FieldLine.encode_inj hf, hg, List.cons_append], hx⟩

theorem chunks_start {x y : Bytes} {ds : List Chunk} (hz : s.size = 0)
    (h : chunkBytes cs ++ x = chunkBytes ds ++ (encodeLine s.encode ++ y)) :
    ∃ es, ds = cs ++ es ∧ x = chunkBytes es ++ (encodeLine s.encode ++ y) := by
  induction cs generalizing ds
  case nil => exact ⟨ds, rfl, h⟩
  case cons c cs hi =>
    cases ds
    case nil =>
      simp only [chunkBytes, List.flatMap_nil, List.nil_append, List.flatMap_cons, Chunk.encode,
        List.append_assoc] at h
      obtain ⟨hl, _⟩ := encodeLine_inj c.line.no_lf s.no_lf h
      exact absurd (ChunkLine.encode_inj hl ▸ hz) c.size_ne_zero
    case cons d ds =>
      simp only [chunkBytes, List.flatMap_cons, List.append_assoc] at h
      obtain ⟨hc, ht⟩ := Chunk.encode_inj h
      obtain ⟨es, hd, hx⟩ := hi ht
      exact ⟨es, by rw [hc, hd, List.cons_append], hx⟩

theorem fields_room {y : Bytes} {gs : List FieldLine} (hb : lf ∉ b)
    (h : encodeFields fs ++ (b ++ t) = encodeFields gs ++ (crlf ++ y)) :
    (encodeFields fs).length + b.length ≤ (encodeFields gs).length + 1 := by
  have ⟨hs, hg, hx⟩ := fields_start h
  subst hg
  cases hs
  case nil =>
    have hl : b.length ≤ 0 + 1 := line_room (x := []) hb hx
    simpa using hl
  case cons f hs =>
    have hx : b ++ t = encodeLine f.encode ++ (encodeFields hs ++ (crlf ++ y)) := by
      simpa [encodeFields] using hx
    have hl := line_room hb hx
    simp only [encodeFields, List.flatMap_append, List.flatMap_cons, List.length_append,
      length_encodeLine]
    omega

theorem chunks_room {y : Bytes} {ds : List Chunk} (hz : s.size = 0) (hb : lf ∉ b)
    (h : chunkBytes cs ++ (b ++ t) = chunkBytes ds ++ (encodeLine s.encode ++ y)) :
    ∃ x ∈ ds.map (·.line) ++ [s], b.length ≤ x.encode.length + 1 := by
  have ⟨es, hd, hx⟩ := chunks_start hz h
  subst hd
  cases es
  case nil => exact ⟨s, by simp, line_room hb hx⟩
  case cons c es =>
    have hx : b ++ t = encodeLine c.line.encode ++
        (encodeLine c.data ++ (chunkBytes es ++ (encodeLine s.encode ++ y))) := by
      simpa [chunkBytes, Chunk.encode] using hx
    exact ⟨c.line, by simp, line_room hb hx⟩

theorem chunk_room {x y : Bytes} {ds : List Chunk} {s' : ChunkLine} (hz : s'.size = 0)
    (hs : s.size ≠ 0)
    (h : chunkBytes cs ++ (encodeLine s.encode ++ x) =
      chunkBytes ds ++ (encodeLine s'.encode ++ y)) :
    (chunkData cs).length + s.size ≤ (chunkData ds).length := by
  obtain ⟨es, hd, hx⟩ := chunks_start hz h
  subst hd
  cases es
  case nil =>
    obtain ⟨hl, _⟩ := encodeLine_inj s.no_lf s'.no_lf hx
    exact absurd (ChunkLine.encode_inj hl ▸ hz) hs
  case cons c es =>
    simp only [chunkBytes, List.flatMap_cons, Chunk.encode, List.append_assoc] at hx
    obtain ⟨hl, _⟩ := encodeLine_inj s.no_lf c.line.no_lf hx
    have hc := c.complete
    rw [← ChunkLine.encode_inj hl] at hc
    simp only [chunkData, List.flatMap_append, List.flatMap_cons, List.length_append]
    omega

-- The lines of a body that tell the sizes of its chunks.
def sizeLines : BodyPart → List ChunkLine
  | .empty | .fixed .. => []
  | .chunked cs s ..   => cs.map (·.line) ++ [s]

-- A message leaves room for the CR of each line that the parser may have to wait for.
structure Slack (lim : ParserLimits) (m : Message) : Prop where
  line     : m.line.encode.length < lim.maxRequestLineBytes
  fields   : (encodeFields m.fields).length < lim.maxHeaderBytes
  sizes    : ∀ s ∈ sizeLines m.body, s.encode.length < lim.maxRequestLineBytes
  trailers : sizeLines m.body ≠ [] →
    (encodeFields m.fields ++ crlf ++ encodeFields m.body.trailers).length < lim.maxHeaderBytes

theorem Message.encode_head (m : Message) : m.encode = headBytes m.line m.fields ++ m.body.encode :=
  rfl

-- A body that is announced as chunked.
theorem body_chunked (h : Framing.chunked.AnnouncedBy lim m.line.version m.fields) :
    ∃ cs s hz ts, m.body = .chunked cs s hz ts ∧
      m.body.encode = chunkBytes cs ++ (encodeLine s.encode ++ (encodeFields ts ++ crlf)) := by
  have hf := m.framed
  have ⟨_, _, te, hte, _⟩ := h
  match hm : m.body with
  | .empty   => exact absurd ((hm ▸ hf).1.symm.trans hte) (by simp)
  | .fixed .. => exact absurd ((hm ▸ hf).1.symm.trans hte) (by simp)
  | .chunked cs s hz ts =>
    exact ⟨cs, s, hz, ts, rfl, by simp [BodyPart.encode, chunkBytes]⟩

-- No part of a message with this room is too long for the buffer.
theorem Phase.room (h : Phase lim c p) (hm : m.encode = c ++ (b ++ t)) (hs : Starved p b)
    (hl : Slack lim m) (hw : BodyOk lim m.body) : ¬Crammed lim p b := by
  intro hx
  cases h
  case start =>
    have he : b ++ t = encodeLine m.line.encode ++
        (encodeFields m.fields ++ crlf ++ m.body.encode) := by
      simpa [Message.encode] using hm.symm
    have hb : b.length ≤ m.line.encode.length + 1 := line_room hs he
    have hn : lim.maxRequestLineBytes < b.length := hx
    have := hl.line
    omega
  case head l fs =>
    simp only [Message.encode, List.append_assoc] at hm
    obtain ⟨_, he⟩ := encodeLine_inj m.line.no_lf l.no_lf hm
    have hb := fields_room hs he.symm
    have hn : lim.maxHeaderBytes < (encodeFields fs).length + b.length := hx
    have := hl.fields
    omega
  case fixed => exact hx
  case chunks l fs e cs _ ha =>
    rw [Message.encode_head, List.append_assoc] at hm
    obtain ⟨hl', hf, he⟩ := headBytes_inj hm
    subst hl' hf
    obtain ⟨ds, s, hz, ts, hb, hc⟩ := body_chunked ha
    rw [hc] at he
    obtain ⟨x, hx', hb'⟩ := chunks_room hz hs he.symm
    have hn : lim.maxRequestLineBytes < b.length := hx.2
    have := hl.sizes x (by rw [hb]; exact hx')
    omega
  case chunk l fs e cs s d _ ha h0 hd =>
    simp only [Message.encode_head, List.append_assoc] at hm
    obtain ⟨hl', hf, he⟩ := headBytes_inj hm
    subst hl' hf
    obtain ⟨ds, s', hz, ts, hb, hc⟩ := body_chunked ha
    rw [hc] at he
    have hr := chunk_room hz h0 he.symm
    rw [hb] at hw
    have hw : (chunkData ds).length ≤ lim.maxBodyBytes := hw.bytes
    obtain ⟨hc, hx⟩ := hx
    have hp : (inChunk m.line m.fields e cs s d).chunkRemaining > 0 := by
      have := of_decide_eq_false hc
      simp only [inChunk]
      omega
    have hs : b.length < s.size - d.length := by
      simp only [Starved, hc, hp] at hs
      exact hs
    rw [if_pos hp] at hx
    simp only [inChunk, List.length_append] at hx
    omega
  case trailers l fs e cs s ts _ ha hz =>
    simp only [Message.encode_head, List.append_assoc] at hm
    obtain ⟨hl', hf, he⟩ := headBytes_inj hm
    subst hl' hf
    obtain ⟨ds, s', hz', us, hb, hc⟩ := body_chunked ha
    rw [hc] at he
    obtain ⟨_, _, he⟩ := chunks_inj hz' hz he
    have hb' := fields_room (y := []) hs (by simpa using he.symm)
    have hn : lim.maxHeaderBytes < (encodeFields m.fields ++ crlf ++ encodeFields ts).length +
      b.length := hx
    have := hl.trailers (by simp [hb, sizeLines])
    simp only [hb, BodyPart.trailers, List.length_append] at this hn
    omega

theorem Phase.fresh (h : Phase lim c p) (hc : c = []) : p = {} := by
  cases h
  case start => rfl
  all_goals simp [headBytes, encodeLine, crlf] at hc

-- A parser that gives up on a message whose parts fit has not seen the end of a line.
theorem Reported.gives_up (h : Reported lim i rs p b) (hm : m.encode = i ++ t) (hr : Readable m)
    (hw : PartsOk lim m) (hl : m.encode.length ≤ lim.maxRequestBytes)
    (hp : parse lim p b = (.tooLarge err, q, d)) :
    ∃ c p' b', m.encode = c ++ (b' ++ t) ∧ Phase lim c p' ∧ Starved p' b' ∧ Crammed lim p' b' ∧
      (∀ r, .request r ∉ rs) ∧ (ideal lim {} m.encode).1 = rs ++ (ideal lim p' (b' ++ t)).1 := by
  have ⟨es, c, hs, hf⟩ := h.session
  have ⟨hi, _, hc, he⟩ := hs.invariant
  have hn : p.consumed = c.length := hc.consumed_eq
  have hk : p.consumed + b.length ≤ lim.maxRequestBytes := by
    rw [hm, hi] at hl
    simp only [List.length_append] at hl
    omega
  have hp := passes_of_parse h.ready.scan hp hk
  have ⟨c', p', b', q', d', hb, hc', hr', ht, hx⟩ := hp.gives_up h.ready hc
  have ⟨_, ha⟩ := (ideal_encode lim hr).1 hw
  have hs' : Starved p' b' := by
    by_contra hn
    have hi := h.rest t
    rw [ht, ideal_fail hr'.scan hn hx trivial, ← hm, ha] at hi
    simp at hi
  have hx : Crammed lim p' b' := crammed_of_gives_up hr'.scan hs' hx
  have hes : es = [] := by
    cases es
    case nil => rfl
    case cons x xs =>
      have ⟨m', hm', _⟩ := he x (by simp)
      have hi : m'.encode ++ ((xs.map (·.1)).flatten ++ c ++ b ++ t) = m.encode ++ [] := by
        simp [hm, hi, hm']
      have hz := (Message.encode_inj hi).2
      simp only [List.append_eq_nil_iff] at hz
      have ⟨hz₁, hz₂⟩ := List.append_eq_nil_iff.mp (hb ▸ List.append_eq_nil_iff.mpr ⟨hz.1.1.2, hz.1.2⟩)
      have hp' : p'.state = .requestLine := congrArg Parser.state (hc'.fresh hz₁)
      simp [Crammed, hp', hz₂] at hx
  subst hes
  have hr : rs.filterMap (fun | .request r => some r | _ => none) = ([] : List Request) := hf
  refine ⟨c', p'.rewind, b', ?_, hc', hs', hx, fun r hm => ?_, ?_⟩
  · simp only [List.map_nil, List.flatten_nil, List.nil_append] at hi
    rw [hm, hi, hb, List.append_assoc]
  · have := List.filterMap_eq_nil_iff.mp hr _ hm
    simp at this
  · rw [hm, h.rest t, ht, ideal_congr (p := p'.rewind) (q := p') rfl]

-- The run reports a request and nothing is wrong.
def Accepts (r : List ParseStatus × Option ParseStatus) : Prop :=
  r.2 = none ∧ ∃ req, .request req ∈ r.1

theorem run_ideal (h : ¬EndsTooLarge (run lim ps)) : run lim ps = ideal lim {} ps.flatten :=
  ((call_explains lim).drive_spec ready_fresh (ideal_fresh lim) ps).1 fun f hf hl => h ⟨f, hf, hl⟩

theorem accepts_ideal (hr : Readable m) (hw : PartsOk lim m) : Accepts (ideal lim {} m.encode) := by
  have ⟨e, hi⟩ := (ideal_encode lim hr).1 hw
  rw [hi]
  exact ⟨rfl, _, List.mem_append_right _ (List.mem_singleton.mpr rfl)⟩

theorem run_accepts (hr : Readable m) (hw : PartsOk lim m) (hp : ps.flatten = m.encode)
    (hn : ¬EndsTooLarge (run lim ps)) : Accepts (run lim ps) := by
  rw [run_ideal hn, hp]
  exact accepts_ideal hr hw

-- With room for the CRs, the cuts do not matter.
theorem run_slack (hr : Readable m) (hw : PartsOk lim m)
    (hl : m.encode.length ≤ lim.maxRequestBytes) (hs : Slack lim m) (hp : ps.flatten = m.encode) :
    Accepts (run lim ps) := by
  refine run_accepts hr hw hp fun ⟨st, hst, hx⟩ => ?_
  have ⟨i, t, p, b, q, d, hi, h, hc⟩ :=
    ((call_reported lim).drive_rule (reported_fresh lim) ps).2 st hst
  have hm : m.encode = i ++ t := hp.symm.trans hi
  cases st
  case tooLarge err =>
    have ⟨c, p', b', hm, hph, hst, hcr, _, _⟩ := h.gives_up hm hr hw hl (call_stop hc).1
    exact hph.room hm hst hs hw.body hcr
  all_goals exact hx

-- A message that arrives in one piece is complete.
theorem run_whole (hr : Readable m) (hw : PartsOk lim m)
    (hl : m.encode.length ≤ lim.maxRequestBytes) : Accepts (run lim [m.encode]) := by
  refine run_accepts hr hw (by simp) fun ⟨st, hst, hx⟩ => ?_
  simp only [run, drive, List.nil_append] at hst
  split at hst
  case h_2 => simp at hst
  case h_1 rs _ _ _ hd =>
    cases hst
    have hf := (call_reported lim).receive m.encode (reported_fresh lim)
    obtain ⟨p, b, q, d, h, hc⟩ := (call_reported lim).drain_stops hf hd
    cases st
    case tooLarge err =>
      obtain ⟨c, p', b', hm, _, hst, _, hn, hi⟩ := h.gives_up (t := []) (by simp) hr hw hl (call_stop hc).1
      obtain ⟨_, req, hq⟩ := accepts_ideal hr hw
      rw [hi, List.append_nil, ideal_starved hst, List.append_nil] at hq
      exact hn req hq
    all_goals exact hx

-- A message that is too large as a whole is refused in any case.
theorem run_refuses (hr : Readable m) (hp : ps.flatten = m.encode)
    (hw : ¬PartsOk lim m ∨ lim.maxRequestBytes < m.encode.length) : EndsTooLarge (run lim ps) := by
  by_contra hn
  have hi := run_ideal hn
  rw [hp] at hi
  by_cases hw' : PartsOk lim m
  case neg => exact hn (hi ▸ (ideal_encode lim hr).2 hw')
  case pos =>
    have hl := hw.resolve_left (not_not_intro hw')
    have ⟨ha, req, hq⟩ := run_accepts hr hw' hp hn
    have ⟨p, b, h⟩ := ((call_reported lim).drive_rule (reported_fresh lim) ps).1 ha
    have ⟨es, c, hs, hf⟩ := h.session
    have he : req ∈ es.map (·.2) := by
      rw [← hf]
      exact List.mem_filterMap.mpr ⟨_, hq, rfl⟩
    have ⟨hm, _, _, hx⟩ := hs.invariant
    cases es
    case nil => simp at he
    case cons x xs =>
      have hc := hs.capped x (by simp)
      have ⟨m', hm', _⟩ := hx x (by simp)
      have hi : m'.encode ++ ((xs.map (·.1)).flatten ++ c ++ b) = m.encode ++ [] := by
        simpa [hp, hm'] using hm.symm
      rw [← hm', (Message.encode_inj hi).1] at hc
      omega

-- A line that is cut before its LF.
theorem not_mem_cut {x : Bytes} (h : lf ∉ x) : lf ∉ x ++ [cr] := by
  simp [h]
  decide

theorem call_tooLarge (hp : Passes lim p b (.tooLarge err) q d) (hs : ScanOk p b)
    (hl : p.consumed + b.length ≤ lim.maxRequestBytes) : call lim p b = (.stop (.tooLarge err), q, d) := by
  simp [call, parse_of_passes hp hs hl]

-- There is a place to cut a message in two so that it is refused.
def Breakable (lim : ParserLimits) (m : Message) : Prop :=
  ∃ u v, m.encode = u ++ v ∧ EndsTooLarge (run lim [u, v])

-- The first piece is all that such a parser looks at.
theorem breaks (hp : Passes lim {} b (.tooLarge err) q d) (hm : m.encode = b ++ t)
    (hl : m.encode.length ≤ lim.maxRequestBytes) : Breakable lim m := by
  rw [hm, List.length_append] at hl
  have hc := call_tooLarge hp (.zero rfl) (by rw [Nat.zero_add]; omega)
  exact ⟨b, t, hm, .tooLarge err, by simp [run, drive, drain, hc], trivial⟩

theorem breaks_later (hp : Passes lim {} b .expect100 p c) (hs : p.scan = 0)
    (hn : p.consumed + c.length = b.length) (hb : b ≠ []) (hp' : Passes lim p c (.tooLarge err) q d)
    (hm : m.encode = b ++ t) (hl : m.encode.length ≤ lim.maxRequestBytes) : Breakable lim m := by
  rw [hm, List.length_append] at hl
  have hc : call lim {} b = (.emit .expect100, p, c) := by
    simp [call, parse_of_passes hp (.zero rfl) (by rw [Nat.zero_add]; omega)]
  have hc' := call_tooLarge hp' (.zero hs) (by omega)
  obtain ⟨n, hn⟩ := Nat.exists_eq_succ_of_ne_zero (mt List.length_eq_zero_iff.mp hb)
  exact ⟨b, t, hm, .tooLarge err, by simp [run, drive, drain, hc, hc', hn], trivial⟩

theorem moves_head (hw : PartsOk lim m) :
    Moves lim {} (encodeLine m.line.encode ++ encodeFields m.fields) (inHead m.line m.fields) :=
  (moves_requestLine hw.line).trans (moves_fields hw.fields.bytes hw.fields.number)

-- The same for a parser that gives up in the chunks or behind them. It may have told the client to go
-- on before.
theorem breaks_chunked {p : Bool → Parser} (hr : Readable m) (hw : PartsOk lim m)
    (hb : m.body = .chunked cs s hz ts) (he : m.body.encode = b ++ c ++ t)
    (hm : ∀ e, Moves lim (inChunks m.line m.fields e []) b (p e))
    (hp : ∀ e, ∃ err q d, pass lim (p e) c = .ret (.tooLarge err) q d)
    (hl : m.encode.length ≤ lim.maxRequestBytes) : Breakable lim m := by
  have ⟨e, mv⟩ := head_chunked lim hb hr
  have ⟨err, q, d, hp⟩ := hp e
  have hp : Passes lim (inChunks m.line m.fields e []) (b ++ c) (.tooLarge err) q d :=
    (hm e).passes rfl (.ret hp)
  have he : m.encode =
      (encodeLine m.line.encode ++ encodeFields m.fields ++ (crlf ++ (b ++ c))) ++ t := by
    simp [Message.encode, he]
  cases e
  case false =>
    have hp := (mv.single (by simp [Starved, inHead, crlf])).passes rfl hp
    exact breaks ((moves_head hw).passes rfl hp) he hl
  case true =>
    have hp' : Passes lim (inHead m.line m.fields) (crlf ++ (b ++ c)) .expect100 _ _ :=
      .ret (mv.pass_ret rfl (b ++ c))
    refine breaks_later ((moves_head hw).passes rfl hp') rfl ?_ ?_ hp he hl
    · simp [inChunks, headBytes, chunkBytes, Nat.add_assoc]
      omega
    · simp [crlf]

-- Each line that has no room for its CR is a place to cut.
theorem breaks_line (hl : m.encode.length ≤ lim.maxRequestBytes)
    (h : ¬m.line.encode.length < lim.maxRequestLineBytes) : Breakable lim m := by
  have hx : Crammed lim {} (m.line.encode ++ [cr]) := by
    simp only [Crammed, List.length_append, List.length_singleton]
    omega
  have hn : lf ∉ m.line.encode ++ [cr] := not_mem_cut m.line.no_lf
  have ⟨err, q, d, hp⟩ := gives_up_of_crammed (.zero rfl) hn rfl hx
  have he : m.encode = (m.line.encode ++ [cr]) ++ lf :: (encodeFields m.fields ++ crlf ++
      m.body.encode) := by
    simp [Message.encode, encodeLine, crlf]
  exact breaks (.ret hp) he hl

theorem breaks_fields (hw : PartsOk lim m) (hl : m.encode.length ≤ lim.maxRequestBytes)
    (h : ¬(encodeFields m.fields).length < lim.maxHeaderBytes) : Breakable lim m := by
  have hx : Crammed lim (inHead m.line m.fields) [cr] := by
    simp only [Crammed, inHead, List.length_singleton]
    omega
  obtain ⟨err, q, d, hp⟩ := gives_up_of_crammed (.zero rfl) (by decide) rfl hx
  have he : m.encode = (encodeLine m.line.encode ++ encodeFields m.fields ++ [cr]) ++
      lf :: m.body.encode := by
    simp [Message.encode, crlf]
  exact breaks ((moves_head hw).passes rfl (.ret hp)) he hl

-- A size line and what comes before it and behind it.
theorem sizeLine_split (hb : m.body = .chunked cs s hz ts) {x : ChunkLine}
    (hx : x ∈ sizeLines m.body) :
    ∃ ds es t, cs = ds ++ es ∧ m.body.encode = chunkBytes ds ++ (x.encode ++ [cr]) ++ lf :: t := by
  simp only [hb, sizeLines, List.mem_append, List.mem_map, List.mem_singleton] at hx
  rcases hx with ⟨c, hc, hx⟩ | hx
  · obtain ⟨ds, es, hd⟩ := List.append_of_mem hc
    subst hd hx
    refine ⟨ds, c :: es, encodeLine c.data ++ chunkBytes es ++ encodeLine s.encode ++
      encodeFields ts ++ crlf, rfl, ?_⟩
    simp [hb, BodyPart.encode, chunkBytes, Chunk.encode, encodeLine, crlf]
  · subst hx
    refine ⟨cs, [], encodeFields ts ++ crlf, by simp, ?_⟩
    simp [hb, BodyPart.encode, chunkBytes, encodeLine, crlf]

theorem breaks_size (hr : Readable m) (hw : PartsOk lim m)
    (hl : m.encode.length ≤ lim.maxRequestBytes) {x : ChunkLine} (hx : x ∈ sizeLines m.body)
    (h : ¬x.encode.length < lim.maxRequestLineBytes) : Breakable lim m := by
  match hb : m.body with
  | .empty | .fixed .. => simp [hb, sizeLines] at hx
  | .chunked cs s hz ts =>
    obtain ⟨ds, es, t, hd, he⟩ := sizeLine_split hb hx
    have hc := hw.body
    rw [hb, hd] at hc
    have hm (e : Bool) : Moves lim (inChunks m.line m.fields e []) (chunkBytes ds)
        (inChunks m.line m.fields e ds) := by
      have hb := hc.bytes
      simp only [chunkData, List.flatMap_append, List.length_append] at hb
      exact moves_chunks (by simp only [chunkData]; omega) fun c hd => hc.numbers c (by simp [hd])
    have hx (e : Bool) : Crammed lim (inChunks m.line m.fields e ds) (x.encode ++ [cr]) := by
      have hr : ¬(inChunks m.line m.fields e ds).chunkRemaining > 0 := Nat.lt_irrefl 0
      refine ⟨rfl, ?_⟩
      rw [if_neg hr, List.length_append, List.length_singleton]
      omega
    exact breaks_chunked hr hw hb he hm
      (fun e => gives_up_of_crammed (.zero rfl) (not_mem_cut x.no_lf) rfl (hx e)) hl

theorem breaks_trailers (hr : Readable m) (hw : PartsOk lim m)
    (hl : m.encode.length ≤ lim.maxRequestBytes) (hs : sizeLines m.body ≠ [])
    (h : ¬(encodeFields m.fields ++ crlf ++ encodeFields m.body.trailers).length <
      lim.maxHeaderBytes) : Breakable lim m := by
  match hb : m.body with
  | .empty | .fixed .. => simp [hb, sizeLines] at hs
  | .chunked cs s hz ts =>
    have hc := hw.body
    have ht := hw.trailers
    rw [hb] at hc ht h
    have he : m.body.encode =
        (chunkBytes cs ++ encodeLine s.encode ++ encodeFields ts) ++ [cr] ++ [lf] := by
      simp [hb, BodyPart.encode, chunkBytes, crlf]
    have hm (e : Bool) : Moves lim (inChunks m.line m.fields e [])
        (chunkBytes cs ++ encodeLine s.encode ++ encodeFields ts)
        (inTrailers m.line m.fields e cs s ts) :=
      ((moves_chunks hc.bytes hc.numbers).trans (moves_lastChunk hz)).trans
        (moves_trailers ht.number ht.bytes)
    have hx (e : Bool) : Crammed lim (inTrailers m.line m.fields e cs s ts) [cr] := by
      have hx : lim.maxHeaderBytes <
          (encodeFields m.fields ++ crlf ++ encodeFields ts).length + 1 := by
        simp only [BodyPart.trailers] at h
        omega
      exact hx
    exact breaks_chunked hr hw hb he hm
      (fun e => gives_up_of_crammed (.zero rfl) (by decide) rfl (hx e)) hl

theorem breaks_unless_slack (hr : Readable m) (hw : PartsOk lim m)
    (hl : m.encode.length ≤ lim.maxRequestBytes) (h : ¬Slack lim m) : Breakable lim m := by
  by_contra hn
  refine h ⟨?_, ?_, fun x hx => ?_, fun hs => ?_⟩ <;> by_contra hc
  · exact hn (breaks_line hl hc)
  · exact hn (breaks_fields hw hl hc)
  · exact hn (breaks_size hr hw hl hx hc)
  · exact hn (breaks_trailers hr hw hl hs hc)

-- The verdict on a message does not depend on where it is cut, if and only if the message does not fit
-- anyway or leaves room for the CRs.
theorem run_cutting (lim : ParserLimits) (m : Message) (hr : Readable m) :
    (∀ ps, ps.flatten = m.encode → Accepts (run lim ps) ∨ EndsTooLarge (run lim ps)) ∧
    ((∀ ps qs, ps.flatten = m.encode → qs.flatten = m.encode →
      (Accepts (run lim ps) ↔ Accepts (run lim qs)) ∧
      (EndsTooLarge (run lim ps) ↔ EndsTooLarge (run lim qs))) ↔
    (PartsOk lim m → m.encode.length ≤ lim.maxRequestBytes → Slack lim m)) := by
  have hn {r : List ParseStatus × Option ParseStatus} (ha : Accepts r) : ¬EndsTooLarge r := by
    intro ⟨st, hst, _⟩
    exact absurd (ha.1.symm.trans hst) (by simp)
  have hx (ps : List Bytes) (hp : ps.flatten = m.encode) (h : ¬EndsTooLarge (run lim ps)) :
      Accepts (run lim ps) := by
    by_cases hw : PartsOk lim m
    case pos => exact run_accepts hr hw hp h
    case neg => exact absurd (run_refuses hr hp (.inl hw)) h
  refine ⟨fun ps hp => or_iff_not_imp_right.mpr (hx ps hp), fun h hw hl => ?_, fun h ps qs hp hq => ?_⟩
  · by_contra hs
    have ⟨u, v, hm, ht⟩ := breaks_unless_slack hr hw hl hs
    have hu := h [m.encode] [u, v] (by simp) (by simp [hm])
    exact hn (run_whole hr hw hl) (hu.2.mpr ht)
  · by_cases hw : PartsOk lim m ∧ m.encode.length ≤ lim.maxRequestBytes
    case pos =>
      have hs := h hw.1 hw.2
      have h₁ := run_slack hr hw.1 hw.2 hs hp
      have h₂ := run_slack hr hw.1 hw.2 hs hq
      exact ⟨iff_of_true h₁ h₂, iff_of_false (hn h₁) (hn h₂)⟩
    case neg =>
      have hw : ¬PartsOk lim m ∨ lim.maxRequestBytes < m.encode.length := by
        by_cases hw' : PartsOk lim m
        case pos => exact .inr (Nat.lt_of_not_le fun hl => hw ⟨hw', hl⟩)
        case neg => exact .inl hw'
      have h₁ := run_refuses hr hp hw
      have h₂ := run_refuses hr hq hw
      exact ⟨iff_of_false (hn · h₁) (hn · h₂), iff_of_true h₁ h₂⟩

theorem upload_readable : Readable upload where
  number := by simp [upload]
  expect := by
    have he : valuesNamed (ascii "Expect") (upload.fields.map (·.header)) = [] := by decide
    simp [ExpectKnown, he]

theorem run_cutting_upload : Slack {} upload ∧
    ∀ ps qs, ps.flatten = upload.encode → qs.flatten = upload.encode →
      (Accepts (run {} ps) ↔ Accepts (run {} qs)) ∧
      (EndsTooLarge (run {} ps) ↔ EndsTooLarge (run {} qs)) := by
  have hs : Slack {} upload := ⟨by decide, by decide, by decide, by decide⟩
  exact ⟨hs, (run_cutting {} upload upload_readable).2.mpr fun _ _ => hs⟩

def index : Message where
  line    := rootLine
  fields  := []
  body    := .empty
  framed  := ⟨rfl, .inl rfl⟩
  options := by simp [OptionsOk, connectionOptions, valuesOf, Request.headerAll]

-- The limit is just as long as the request line, and the cut is in its CRLF.
theorem run_cutting_line : Readable index ∧
    ¬∀ ps qs, ps.flatten = index.encode → qs.flatten = index.encode →
      (Accepts (run { maxRequestLineBytes := 14 } ps) ↔
        Accepts (run { maxRequestLineBytes := 14 } qs)) ∧
      (EndsTooLarge (run { maxRequestLineBytes := 14 } ps) ↔
        EndsTooLarge (run { maxRequestLineBytes := 14 } qs)) := by
  refine ⟨⟨by simp [index], fun h => absurd rfl h⟩, fun h => ?_⟩
  have h := h [index.encode] [ascii "GET / HTTP/1.1\r", ascii "\n\r\n"] (by decide) (by decide)
  have h₁ : (run { maxRequestLineBytes := 14 } [index.encode]).2 = none := by decide +kernel
  have h₂ : (run { maxRequestLineBytes := 14 } [ascii "GET / HTTP/1.1\r", ascii "\n\r\n"]).2 =
      some (.tooLarge "request line too long") := by decide +kernel
  obtain ⟨_, hn, _⟩ := h.2.mpr ⟨_, h₂, trivial⟩
  exact absurd (h₁.symm.trans hn) (by simp)

end Http.Parser
