import HttpServer.Parser.Theorems.Phases
import HttpServer.Parser.Theorems.Unique

open Text

namespace Http.Parser

open Grammar

-- What a parser has consumed of the message that it is about to report.
inductive Phase (lim : ParserLimits) : Bytes → Parser → Prop
  | start : Phase lim [] {}
  | head (l fs) : Phase lim (encodeLine l.encode ++ encodeFields fs) (inHead l fs)
  | fixed (l fs e n d) :
    OptionsOk fs → (Framing.length n).AnnouncedBy lim l.version fs → d.length < n →
    Phase lim (headBytes l fs ++ d) (inFixed l fs e n d)
  | chunks (l fs e cs) :
    OptionsOk fs → Framing.chunked.AnnouncedBy lim l.version fs →
    Phase lim (headBytes l fs ++ chunkBytes cs) (inChunks l fs e cs)
  | chunk (l fs e cs s d) :
    OptionsOk fs → Framing.chunked.AnnouncedBy lim l.version fs → s.size ≠ 0 → d.length ≤ s.size →
    Phase lim (headBytes l fs ++ chunkBytes cs ++ encodeLine s.encode ++ d) (inChunk l fs e cs s d)
  | trailers (l fs e cs s ts) :
    OptionsOk fs → Framing.chunked.AnnouncedBy lim l.version fs → s.size = 0 →
    Phase lim (headBytes l fs ++ chunkBytes cs ++ encodeLine s.encode ++ encodeFields ts)
      (inTrailers l fs e cs s ts)

-- A request is reported that stands for the message `m`, apart from the flag that tells whether
-- the client was told to go on.
def Reports (m : Message) (r : Request) : Prop :=
  r = { m.request with expect100Continue := r.expect100Continue }

-- What a call that does not fail tells about the bytes `c` consumed since the last request.
def Explains (lim : ParserLimits) (c : Bytes) (p : Parser) : ParseStatus → Prop
  | .needMore | .expect100 => Phase lim c p.rewind
  | .request r => p = {} ∧ ∃ m : Message, m.encode = c ∧ Reports m r
  | .badRequest _ | .tooLarge _ => True

-- A parser at work: `Session lim s es c p b` if the stream `s` has arrived so far, `es` are the
-- requests that were reported, each with the bytes that its calls took from the buffer, and `c`
-- are the bytes taken since then. Input may arrive and `parse` may be called at any time.
inductive Session (lim : ParserLimits) :
    Bytes → List (Bytes × Request) → Bytes → Parser → Bytes → Prop
  | fresh : Session lim [] [] [] {} []
  | receive (t) : Session lim s es c p b → Session lim (s ++ t) es c p (b ++ t)
  | waits :
    Session lim s es c p b → parse lim p b = (st, p', b') → st = .needMore ∨ st = .expect100 →
    Session lim s es (c ++ b.take (b.length - b'.length)) p' b'
  | reports :
    Session lim s es c p b → parse lim p b = (.request r, p', b') →
    Session lim s (es ++ [(c ++ b.take (b.length - b'.length), r)]) [] p' b'

variable {lim : ParserLimits} {p p' q : Parser} {b b' c d t : Bytes} {st : ParseStatus} {r : Request}
variable {l : RequestLine} {fs ts : List FieldLine} {cs : List Chunk} {s : ChunkLine} {e : Bool}

-- No move depends on the cursor.
theorem Move.rewind {o : Option ParseStatus} (m : Move lim p c o p') : Move lim p.rewind c o p' := by
  cases m
  case requestLine hp hl hm hr       => exact .requestLine (p := p.rewind) hp hl hm hr
  case header hp hl hn hr hm         => exact .header (p := p.rewind) hp hl hn hr hm
  case headPending hp hf             => exact .headPending hp hf
  case headExpect hp hf              => exact .headExpect hp hf
  case headReady hp hf               => exact .headReady hp hf
  case bodyData hp hd hl             => exact .bodyData (p := p.rewind) hp hd hl
  case bodyEnd hp hd                 => exact .bodyEnd (p := p.rewind) hp hd
  case chunkCrlf hp he               => exact .chunkCrlf (p := p.rewind) hp he
  case chunkData hp he hd hl hm      => exact .chunkData (p := p.rewind) hp he hd hl hm
  case chunkSize hp he hr hl hz h0 hm => exact .chunkSize (p := p.rewind) hp he hr hl hz h0 hm
  case lastChunk hp he hr hl hz      => exact .lastChunk (p := p.rewind) hp he hr hl hz
  case trailer hp hl hn hr hm        => exact .trailer (p := p.rewind) hp hl hn hr hm
  case trailerEnd hp                 => exact .trailerEnd (p := p.rewind) hp

theorem finishHeaders_inHead_ok {o : HeadOutcome}
    (h : finishHeaders lim ((inHead l fs).eatField 0) = (o, q)) (ho : ∀ err, o ≠ .error err) :
    OptionsOk fs ∧ ∃ fr : Framing, fr.AnnouncedBy lim l.version fs ∧
      finishFraming (inBody l fs false) fr = (o, q) := by
  have ⟨hk, fr, hf⟩ := finishHeaders_ok rfl rfl h ho
  refine ⟨hk, fr, hf, ?_⟩
  rw [← eat_head, ← h]
  exact (finishHeaders_eq rfl rfl hk hf).symm

theorem Phase.of_head {o : HeadOutcome} (h : finishHeaders lim ((inHead l fs).eatField 0) = (o, q))
    (ho : ∀ err, o ≠ .error err) (hr : o ≠ .requestReady) : Phase lim (headBytes l fs) q := by
  obtain ⟨hk, fr, ha, hf⟩ := finishHeaders_inHead_ok h ho
  rw [← List.append_nil (headBytes l fs)]
  cases fr
  case absent =>
    cases hf
    exact absurd rfl hr
  case length n =>
    by_cases hn : n > 0
    case neg =>
      simp [finishFraming, hn] at hf
      exact absurd hf.1.symm hr
    case pos =>
      rw [finish_fixed l fs hn] at hf
      obtain ⟨_, hq⟩ | ⟨_, hq⟩ := finishExpect_ok hf ho
      · exact hq ▸ .fixed l fs false n [] hk ha hn
      · exact hq ▸ .fixed l fs true n [] hk ha hn
  case chunked =>
    rw [finish_chunked] at hf
    obtain ⟨_, hq⟩ | ⟨_, hq⟩ := finishExpect_ok hf ho
    · exact hq ▸ .chunks l fs false [] hk ha
    · exact hq ▸ .chunks l fs true [] hk ha

theorem Phase.step_start (m : Move lim {} d none q) : Phase lim d q := by
  cases m
  case requestLine hr =>
    have ⟨l, hl, hc⟩ := parseRequestLine_ok hr
    subst hl hc
    have h : Phase lim _ _ := .head l []
    simpa [eat_requestLine, encodeLine] using h
  all_goals contradiction

theorem Phase.step_head (m : Move lim (inHead l fs) d none q) :
    Phase lim (encodeLine l.encode ++ encodeFields fs ++ d) q := by
  cases m
  case header hr _ =>
    obtain ⟨f, hl, _, hc⟩ := parseHeaderLine_ok hr
    subst hl hc
    have h : Phase lim _ _ := .head l (fs ++ [f])
    simpa [eat_field, encodeLine] using h
  case headPending hf => exact .of_head hf (by simp) (by simp)
  all_goals contradiction

theorem Phase.step_fixed (hk : OptionsOk fs) (ha : (Framing.length n).AnnouncedBy lim l.version fs)
    (m : Move lim (inFixed l fs e n c) d none q) : Phase lim (headBytes l fs ++ c ++ d) q := by
  cases m
  case bodyData hl =>
    have hl : (c ++ d).length < n := by
      simp only [inFixed, List.length_append] at hl ⊢
      omega
    have h : Phase lim _ _ := .fixed l fs e n (c ++ d) hk ha hl
    rw [← eat_body, ← List.append_assoc] at h
    exact h
  all_goals contradiction

theorem Phase.step_chunks (hk : OptionsOk fs) (ha : Framing.chunked.AnnouncedBy lim l.version fs)
    (m : Move lim (inChunks l fs e cs) d none q) :
    Phase lim (headBytes l fs ++ chunkBytes cs ++ d) q := by
  cases m
  case chunkSize hl hz h0 _ =>
    have ⟨s, hs, hn, _⟩ := parseChunkSize_ok hl hz
    subst hs hn
    have h : Phase lim _ _ := .chunk l fs e cs s [] hk ha h0 (by simp)
    rw [← eat_chunkSize l fs e cs h0, List.append_nil] at h
    exact h
  case lastChunk hl hz =>
    have ⟨s, hs, hn, _⟩ := parseChunkSize_ok hl hz
    subst hs
    have h : Phase lim _ _ := .trailers l fs e cs s [] hk ha hn
    rw [← eat_lastChunk, encodeFields_nil, List.append_nil] at h
    exact h
  case chunkData hd hl _ =>
    have hl : d.length ≤ 0 := hl
    exact absurd (List.length_eq_zero_iff.mp (Nat.le_zero.mp hl)) hd
  all_goals contradiction

theorem Phase.step_chunk (hk : OptionsOk fs) (ha : Framing.chunked.AnnouncedBy lim l.version fs)
    (h0 : s.size ≠ 0) (hs : c.length ≤ s.size) (m : Move lim (inChunk l fs e cs s c) d none q) :
    Phase lim (headBytes l fs ++ chunkBytes cs ++ encodeLine s.encode ++ c ++ d) q := by
  cases m
  case chunkData hd hl _ =>
    have hl : (c ++ d).length ≤ s.size := by
      simp only [inChunk, List.length_append] at hl ⊢
      omega
    have h : Phase lim _ _ := .chunk l fs e cs s (c ++ d) hk ha h0 hl
    rw [← eat_chunkData, ← List.append_assoc] at h
    exact h
  case chunkCrlf he =>
    have hc : c.length = s.size := by
      simp only [inChunk, decide_eq_true_eq] at he
      omega
    have hn : c ≠ [] := by
      rw [← List.length_pos_iff]
      omega
    have h : Phase lim _ _ := .chunks l fs e (cs ++ [⟨s, c, hn, hc⟩]) hk ha
    rw [← eat_chunkCrlf] at h
    simpa [chunkBytes, Chunk.encode, encodeLine] using h
  case chunkSize he hr hl hz h0 _ =>
    simp [inChunk] at he hr
    omega
  case lastChunk he hr hl hz =>
    simp [inChunk] at he hr
    omega
  all_goals contradiction

theorem Phase.step_trailers (hk : OptionsOk fs) (ha : Framing.chunked.AnnouncedBy lim l.version fs)
    (hz : s.size = 0) (m : Move lim (inTrailers l fs e cs s ts) d none q) :
    Phase lim (headBytes l fs ++ chunkBytes cs ++ encodeLine s.encode ++ encodeFields ts ++ d) q := by
  cases m
  case trailer hr _ =>
    have ⟨f, hl, _, hc⟩ := parseHeaderLine_ok hr
    subst hl hc
    have h : Phase lim _ _ := .trailers l fs e cs s (ts ++ [f]) hk ha hz
    rw [← eat_trailer] at h
    simpa [encodeLine] using h
  all_goals contradiction

theorem Phase.step (h : Phase lim c p) (m : Move lim p d none q) : Phase lim (c ++ d) q := by
  cases h
  case start                          => exact step_start m
  case head                           => exact step_head m
  case fixed hk ha _                  => exact step_fixed hk ha m
  case chunks hk ha                   => exact step_chunks hk ha m
  case chunk hk ha h0 hs              => exact step_chunk hk ha h0 hs m
  case trailers hk ha hz              => exact step_trailers hk ha hz m

theorem Phase.expect (h : Phase lim c p) (m : Move lim p d (some .expect100) q) :
    Phase lim (c ++ d) q := by
  cases h <;> cases m
  case head.headExpect hf => exact .of_head hf nofun nofun
  all_goals contradiction

theorem finish_ready (h : finishHeaders lim ((inHead l fs).eatField 0) = (.requestReady, q)) :
    q = inBody l fs false ∧ OptionsOk fs ∧ BodyPart.empty.FramedBy l.version fs := by
  have ⟨hk, fr, ha, hf⟩ := finishHeaders_inHead_ok h nofun
  match fr with
  | .absent =>
    cases hf
    exact ⟨rfl, hk, ha.1, .inl ha.2⟩
  | .length 0 =>
    cases hf
    exact ⟨rfl, hk, ha.1, .inr ha.2.1⟩
  | .length (n + 1) =>
    rw [finish_fixed l fs (by omega)] at hf
    exact absurd (finishExpect_ok hf nofun) (by simp)
  | .chunked =>
    rw [finish_chunked] at hf
    exact absurd (finishExpect_ok hf nofun) (by simp)

theorem Phase.emit_head (m : Move lim (inHead l fs) d (some (.request r)) q) :
    ∃ m : Message, m.encode = encodeLine l.encode ++ encodeFields fs ++ d ∧ Reports m r := by
  cases m
  case headReady hf =>
    have ⟨hq, hk, hb⟩ := finish_ready hf
    have h := finish_empty ⟨l, fs, .empty, hb, hk⟩ rfl false
    refine ⟨⟨l, fs, .empty, hb, hk⟩, by simp [Message.encode, BodyPart.encode], ?_⟩
    rw [hq]
    exact h
  case bodyEnd => contradiction
  case trailerEnd => contradiction

theorem Phase.emit_fixed (hk : OptionsOk fs) (ha : (Framing.length n).AnnouncedBy lim l.version fs)
    (hc : c.length < n) (m : Move lim (inFixed l fs e n c) d (some (.request r)) q) :
    ∃ m : Message, m.encode = headBytes l fs ++ c ++ d ∧ Reports m r := by
  cases m
  case bodyEnd hd =>
    have hl : (c ++ d).length = n := by
      simp only [inFixed, List.length_append] at hd ⊢
      omega
    have hn : c ++ d ≠ [] := by
      rw [← List.length_pos_iff]
      omega
    have hb : (BodyPart.fixed (c ++ d) hn).FramedBy l.version fs := ⟨ha.1, hl ▸ ha.2.1⟩
    refine ⟨⟨l, fs, .fixed (c ++ d) hn, hb, hk⟩, ?_, ?_⟩
    · simp [Message.encode, BodyPart.encode, headBytes]
    · exact finish_body ⟨l, fs, .fixed (c ++ d) hn, hb, hk⟩ c d rfl e n
  case headReady => contradiction
  case trailerEnd => contradiction

theorem Phase.emit_trailers (hk : OptionsOk fs) (ha : Framing.chunked.AnnouncedBy lim l.version fs)
    (hz : s.size = 0) (m : Move lim (inTrailers l fs e cs s ts) d (some (.request r)) q) :
    ∃ m : Message,
      m.encode = headBytes l fs ++ chunkBytes cs ++ encodeLine s.encode ++ encodeFields ts ++ d ∧
      Reports m r := by
  cases m
  case trailerEnd =>
    refine ⟨⟨l, fs, .chunked cs s hz ts, ha, hk⟩, ?_, ?_⟩
    · simp [Message.encode, BodyPart.encode, headBytes, chunkBytes]
    · exact finish_trailers ⟨l, fs, .chunked cs s hz ts, ha, hk⟩ rfl e
  case headReady => contradiction
  case bodyEnd => contradiction

theorem Phase.emit (h : Phase lim c p) (m : Move lim p d (some (.request r)) q) :
    q = {} ∧ ∃ m : Message, m.encode = c ++ d ∧ Reports m r := by
  refine ⟨by cases m <;> rfl, ?_⟩
  cases h
  case head              => exact emit_head m
  case fixed hk ha hc    => exact emit_fixed hk ha hc m
  case trailers hk ha hz => exact emit_trailers hk ha hz m
  all_goals cases m <;> contradiction

theorem Move.rewind_eq {o : Option ParseStatus} (m : Move lim p c o q) : q.rewind = q := by
  have hq := m.scan_eq
  cases q
  simp_all [Parser.rewind]

theorem Phase.reports (h : Phase lim c p.rewind) (m : Move lim p d (some st) q) :
    Explains lim (c ++ d) q st := by
  cases st
  case needMore  => cases m
  case expect100 =>
    simp only [Explains, m.rewind_eq]
    exact h.expect m.rewind
  case request => exact h.emit m.rewind
  all_goals trivial

theorem Phase.moves (h : Phase lim c p.rewind) (m : Move lim p d none q) :
    Phase lim (c ++ d) q.rewind := by
  rw [m.rewind_eq]
  exact h.step m.rewind

theorem Explains.of_error (he : IsError st) : Explains lim c p st := by
  cases st <;> trivial

-- A call consumes a piece `d` of the buffer, move by move: what the moves preserve of the bytes
-- consumed so far holds after the call.
theorem Passes.rule {I : Bytes → Parser → Prop} {R : Bytes → Parser → ParseStatus → Prop}
    (moves : ∀ {c d p q}, I c p → Move lim p d none q → I (c ++ d) q)
    (reports : ∀ {c d p q st}, I c p → Move lim p d (some st) q → R (c ++ d) q st)
    (waits : ∀ {c p}, I c p → ∀ n, R c { p with scan := n } .needMore)
    (fails : ∀ {c p st}, IsError st → R c p st)
    (hp : Passes lim p b st p' b') (hs : ScanOk p b) (h : I c p) :
    ∃ d, (¬IsError st → b = d ++ b') ∧ R (c ++ d) p' st := by
  induction hp generalizing c
  case loop hl _ hi =>
    have ho : Outcome lim _ _ (pass lim _ _) := pass_outcome hs
    have ⟨hs', _, _⟩ := loop_spec hs hl
    rw [hl] at ho
    cases ho with
    | @moves d _ _ _ hb _ m =>
      have ⟨d', hb', he⟩ := hi hs' (moves h m)
      exact ⟨d ++ d', fun hn => by rw [hb, hb' hn, List.append_assoc], List.append_assoc c d d' ▸ he⟩
  case ret p _ _ _ _ hr =>
    have ho : Outcome lim _ _ (pass lim _ _) := pass_outcome hs
    rw [hr] at ho
    cases ho with
    | reports hb m => exact ⟨_, fun _ => hb, reports h m⟩
    | starves => exact ⟨[], fun _ => rfl, (List.append_nil c).symm ▸ waits h _⟩
    | absorbs _ m => exact ⟨_, fun _ => (List.append_nil _).symm, waits (moves h m) _⟩
    | empty _ hb => exact ⟨[], fun _ => hb, (List.append_nil c).symm ▸ waits h p.scan⟩
    | overflows => exact ⟨[], fun _ => rfl, fails trivial⟩
    | fails _ he _ => exact ⟨[], fun hn => absurd he hn, fails he⟩

theorem Passes.explains (hp : Passes lim p b st p' b') (hs : ScanOk p b) (h : Phase lim c p.rewind) :
    ∃ d, (¬IsError st → b = d ++ b') ∧ Explains lim (c ++ d) p' st :=
  hp.rule (I := fun c p => Phase lim c p.rewind) Phase.moves Phase.reports (fun h _ => h)
    Explains.of_error hs h

-- The cursor is valid after a call, too.
theorem Passes.scan (hp : Passes lim p b st p' b') (hs : ScanOk p b) (hn : ¬IsError st) :
    ScanOk p' b' := by
  induction hp
  case loop hl _ hi => exact hi (loop_spec hs hl).1 hn
  case ret hr =>
    have ho : Outcome lim _ _ (pass lim _ _) := pass_outcome hs
    rw [hr] at ho
    cases ho with
    | reports _ m => exact .zero m.scan_eq
    | starves _ hb => exact ⟨by simp, by simpa using hb⟩
    | absorbs _ m => exact .zero m.scan_eq
    | empty _ hb => exact hb ▸ hs
    | overflows => exact absurd trivial hn
    | fails _ he _ => exact absurd he hn

theorem take_consumed (h : b = d ++ b') : b.take (b.length - b'.length) = d := by
  simp [h]

theorem parse_explains (hs : ScanOk p b) (h : Phase lim c p.rewind) (hp : parse lim p b = (st, p', b'))
    (hn : ¬IsError st) :
    b = b.take (b.length - b'.length) ++ b' ∧ ScanOk p' b' ∧
      Explains lim (c ++ b.take (b.length - b'.length)) p' st := by
  have hl : ¬st.IsTooLarge := fun h => hn (by cases st <;> trivial)
  have hp := passes_of_not_tooLarge hs hp hl
  have ⟨d, hb, he⟩ := hp.explains hs h
  rw [take_consumed (hb hn)]
  exact ⟨hb hn, hp.scan hs hn, he⟩

theorem Session.invariant (h : Session lim i es c p b) :
    i = (es.map (·.1)).flatten ++ c ++ b ∧ ScanOk p b ∧ Phase lim c p.rewind ∧
      ∀ x ∈ es, ∃ m : Message, m.encode = x.1 ∧ Reports m x.2 := by
  induction h
  case fresh => exact ⟨rfl, .zero rfl, .start, nofun⟩
  case receive t _ hi =>
    have ⟨hi, hs, hp, he⟩ := hi
    exact ⟨by rw [hi, List.append_assoc _ _ t], hs.append t, hp, he⟩
  case waits st _ _ _ hp hst hi =>
    have ⟨hi, hs, hc, he⟩ := hi
    have ⟨hb, hs', hx⟩ := parse_explains hs hc hp (by cases hst <;> simp_all [IsError])
    refine ⟨?_, hs', ?_, he⟩
    · rw [List.append_assoc, List.append_assoc, ← hb, hi, List.append_assoc]
    · cases hst <;> subst st <;> exact hx
  case reports hp hi =>
    have ⟨hi, hs, hc, he⟩ := hi
    have ⟨hb, hs', hq, m, hm⟩ := parse_explains hs hc hp id
    refine ⟨?_, hs', hq ▸ .start, ?_⟩
    · simp [hi, ← hb]
    · simp only [List.mem_append, List.mem_singleton]
      intro x hx
      match hx with
      | .inl hx => exact he x hx
      | .inr hx => exact hx ▸ ⟨m, hm⟩

-- The parser accepts nothing but messages: the requests of a session stand for messages that follow
-- each other in the stream without a gap, and no other message is spelled like one of them.
theorem session_sound (lim : ParserLimits) (h : Session lim i es c p b) :
    i = (es.map (·.1)).flatten ++ c ++ b ∧
    ∀ x ∈ es, ∃ m : Message, m.encode = x.1 ∧ Reports m x.2 ∧
      ∀ m' : Message, m'.encode = x.1 → m' = m := by
  have ⟨hi, _, _, he⟩ := h.invariant
  refine ⟨hi, fun x hx => ?_⟩
  have ⟨m, hm, hr⟩ := he x hx
  refine ⟨m, hm, hr, fun m' hm' => ?_⟩
  have hx : m'.encode ++ [] = m.encode ++ [] := by rw [hm, hm']
  exact (Message.encode_inj hx).1

def probe : Bytes :=
  ascii "POST /echo HTTP/1.1\r\ntransfer-encoding: Chunked\r\n\r\n02;x=1\r\na\n\r\n0\r\nA: b \r\n\r\n"

def probeRequest : Request where
  method      := .post
  methodName  := ascii "POST"
  target      := ascii "/echo"
  minor       := 1
  headers     := [⟨ascii "transfer-encoding", ascii "Chunked"⟩, ⟨ascii "A", ascii "b"⟩]
  body        := ascii "a\n"
  headerBytes := 37
  totalBytes  := 75

theorem session_sound_probe :
    ∃ m : Message, m.encode = probe ∧ Reports m probeRequest ∧
      ∀ m' : Message, m'.encode = probe → m' = m := by
  have hp : parse {} {} probe = (.request probeRequest, {}, []) := by decide +kernel
  have h : Session {} probe [(probe, probeRequest)] [] {} [] := .reports (.receive probe .fresh) hp
  exact (session_sound {} h).2 (probe, probeRequest) (by simp)

end Http.Parser
