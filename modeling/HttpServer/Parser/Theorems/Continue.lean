import HttpServer.Parser.Theorems.Unambiguous

open Text

namespace Http.Parser

open Grammar

-- The client waits for an interim response before it sends the body.
def ContinueDue (v : Version) (fs : List FieldLine) : Prop :=
  v = .http11 ∧ BodyDue (fs.map (·.header)) ∧
  ∃ e, (valuesOf fs (ascii "Expect")).head? = some e ∧ equalsIgnoreCase e (ascii "100-continue")

-- A request that was reported, with the bytes that its calls took from the buffer and the number of
-- times that the client was told to go on.
structure Emitted where
  bytes     : Bytes
  continues : Nat
  request   : Request

-- A parser at work, as in a `Session`. `k` calls since the last request have asked for an interim
-- response.
inductive Dialogue (lim : ParserLimits) :
    Bytes → List Emitted → Nat → Bytes → Parser → Bytes → Prop
  | fresh : Dialogue lim [] [] 0 [] {} []
  | receive (t) : Dialogue lim s es k c p b → Dialogue lim (s ++ t) es k c p (b ++ t)
  | waits :
    Dialogue lim s es k c p b → parse lim p b = (.needMore, p', b') →
    Dialogue lim s es k (c ++ b.take (b.length - b'.length)) p' b'
  | expects :
    Dialogue lim s es k c p b → parse lim p b = (.expect100, p', b') →
    Dialogue lim s es (k + 1) (c ++ b.take (b.length - b'.length)) p' b'
  | reports :
    Dialogue lim s es k c p b → parse lim p b = (.request r, p', b') →
    Dialogue lim s (es ++ [⟨c ++ b.take (b.length - b'.length), k, r⟩]) 0 [] p' b'

-- Among the bytes `c` there is a complete head, and the client was told to go on if that was due.
def Answered (k : Nat) (expects : Bool) (c : Bytes) : Prop :=
  ∃ l fs d, c = headBytes l fs ++ d ∧ k = expects.toNat ∧
    (expects = true ↔ ContinueDue l.version fs)

-- What the parser has noted about the expectation of the client.
structure Flagged (k : Nat) (c : Bytes) (p : Parser) : Prop where
  early : p.late = false → k = 0 ∧ p.cur.expect100Continue = false
  late  : p.late = true → Answered k p.cur.expect100Continue c

variable {lim : ParserLimits} {p p' q : Parser} {b b' c d i : Bytes} {st : ParseStatus} {r : Request}
variable {l l' : RequestLine} {fs fs' : List FieldLine} {k : Nat} {o : HeadOutcome}
variable {es : List Emitted}

theorem Dialogue.session (h : Dialogue lim i es k c p b) :
    Session lim i (es.map fun x => (x.bytes, x.request)) c p b := by
  induction h
  case fresh           => exact .fresh
  case receive t _ hi  => exact .receive t hi
  case waits hp hi     => exact .waits hi hp (.inl rfl)
  case expects hp hi   => exact .waits hi hp (.inr rfl)
  case reports hp hi   => simpa using hi.reports hp

theorem headBytes_inj {x y : Bytes} (h : headBytes l fs ++ x = headBytes l' fs' ++ y) :
    l = l' ∧ fs = fs' ∧ x = y := by
  simp only [headBytes, List.append_assoc] at h
  obtain ⟨hl, h⟩ := encodeLine_inj l.no_lf l'.no_lf h
  obtain ⟨hf, hx⟩ := encodeFields_inj h
  exact ⟨RequestLine.encode_inj hl, hf, hx⟩

theorem Answered.append {e : Bool} (h : Answered k e c) (d : Bytes) : Answered k e (c ++ d) := by
  obtain ⟨l, fs, x, hc, hk⟩ := h
  exact ⟨l, fs, x ++ d, by rw [hc, List.append_assoc], hk⟩

-- The first `Expect` field decides.
theorem finishExpect_sends (hh : p.cur.headers = fs.map (·.header)) (hs : p.expectSent = false)
    (h : finishExpect p = (o, q)) (ho : ∀ err, o ≠ .error err) :
    o = .send100 ↔ p.cur.minor ≥ 1 ∧
      ∃ e, (valuesOf fs (ascii "Expect")).head? = some e ∧ equalsIgnoreCase e (ascii "100-continue") := by
  have ht := (trimmed_fields fs).values (ascii "Expect")
  simp only [finishExpect, header_named, hh, hs, valuesOf_named] at h ⊢
  cases hv : valuesNamed (ascii "Expect") (fs.map (·.header))
  case nil =>
    simp only [hv, List.head?_nil, Option.getD_none, List.isEmpty_nil, if_true] at h
    cases h
    simp
  case cons e es =>
    have he : trimOws e = e := ht e (by simp [hv])
    have hn : e.isEmpty = true → equalsIgnoreCase e (ascii "100-continue") = false := by
      intro h
      rw [List.isEmpty_iff.mp h]
      decide
    simp only [hv, List.head?_cons, Option.getD_some, he] at h
    repeat' split at h
    all_goals cases h
    case isTrue h => simp [hn h]
    case isFalse.isTrue => exact absurd rfl (ho _)
    case isFalse.isFalse.isTrue _ he hm => simp_all
    case isFalse.isFalse.isFalse _ he hm => simp_all

theorem finishExpect_flag (hf : p.cur.expect100Continue = false) (hl : p.late = true)
    (h : finishExpect p = (o, q)) (ho : ∀ err, o ≠ .error err) :
    q.late = true ∧ (q.cur.expect100Continue = true ↔ o = .send100) := by
  obtain ⟨ho, hq⟩ | ⟨ho, hq⟩ := finishExpect_ok h ho
  · simp [ho, hq, hl, hf]
  · exact ⟨by rw [hq]; exact hl, by simp [ho, hq, expected]⟩

-- The outcome of `finish_headers` at the end of a head, in as much as it is about the expectation.
structure Decided (l : RequestLine) (fs : List FieldLine) (o : HeadOutcome) (q : Parser) : Prop where
  due  : o = .send100 ↔ ContinueDue l.version fs
  flag : q.cur.expect100Continue = true ↔ o = .send100
  late : o ≠ .requestReady → q.late = true

theorem Decided.of_expect (hf : finishExpect p = (o, q)) (ho : ∀ err, o ≠ .error err)
    (hp : p.cur = (inBody l fs false).cur) (hs : p.expectSent = false) (hl : p.late = true)
    (hd : BodyDue (fs.map (·.header))) : Decided l fs o q := by
  have hm : l.version.minor ≥ 1 ↔ l.version = .http11 := by cases l.version <;> decide
  have he : p.cur.headers = fs.map (·.header) := by rw [hp]; rfl
  have hb := finishExpect_flag (by rw [hp]; rfl) hl hf ho
  have hx := finishExpect_sends he hs hf ho
  have hn : p.cur.minor = l.version.minor := by rw [hp]; rfl
  rw [hn, hm] at hx
  exact ⟨hx.trans ⟨fun h => ⟨h.1, hd, h.2⟩, fun h => ⟨h.1, h.2.2⟩⟩, hb.2, fun _ => hb.1⟩

theorem Decided.of_ready (hd : ¬BodyDue (fs.map (·.header))) :
    Decided l fs .requestReady (inBody l fs false) where
  due  := by simp [ContinueDue, hd]
  flag := by simp [inBody]
  late := by simp

theorem finishHeaders_decided (h : finishHeaders lim ((inHead l fs).eatField 0) = (o, q))
    (ho : ∀ err, o ≠ .error err) : Decided l fs o q := by
  obtain ⟨_, fr, ha, hf⟩ := finishHeaders_inHead_ok h ho
  have hd := (announcedBy_iff.mp ha).due
  cases fr
  case absent =>
    cases hf
    exact .of_ready hd.mp
  case length n =>
    by_cases hn : n > 0
    case pos =>
      rw [finish_fixed l fs hn] at hf
      exact .of_expect hf ho rfl rfl rfl (hd.mpr hn)
    case neg =>
      simp only [finishFraming, if_neg hn] at hf
      cases hf
      exact .of_ready fun h => hn (hd.mp h)
  case chunked =>
    rw [finish_chunked] at hf
    exact .of_expect hf ho rfl rfl rfl (hd.mpr trivial)

theorem Decided.answered (h : Decided l fs o q) :
    Answered (decide (o = .send100)).toNat q.cur.expect100Continue (headBytes l fs) := by
  refine ⟨l, fs, [], (List.append_nil _).symm, ?_, h.flag.trans h.due⟩
  have hf := h.flag
  cases hq : q.cur.expect100Continue <;> simp_all

-- The bytes of a head are complete with the empty line.
theorem Flagged.finish (hp : Phase lim c p) (hs : p.state = .headers)
    (hf : finishHeaders lim (p.eatField 0) = (o, q)) (ho : ∀ err, o ≠ .error err) :
    Answered (decide (o = .send100)).toNat q.cur.expect100Continue (c ++ crlf) ∧
      (o ≠ .requestReady → q.late = true) := by
  cases hp
  case head l fs =>
    have h := finishHeaders_decided hf ho
    exact ⟨h.answered, h.late⟩
  all_goals cases hs

theorem Flagged.step (h : Flagged k c p) (hp : Phase lim c p) (m : Move lim p d none q) :
    Flagged k (c ++ d) q := by
  have hl : q.cur.expect100Continue = p.cur.expect100Continue → q.late = p.late →
      Flagged k (c ++ d) q := fun hc hq =>
    ⟨fun hq' => by rw [hc]; exact h.early (hq ▸ hq'), fun hq' => by
      rw [hc]; exact (h.late (hq ▸ hq')).append d⟩
  cases m
  case requestLine hs _ _ hr =>
    obtain ⟨_, _, hc⟩ := parseRequestLine_ok hr
    exact hl (by rw [hc]; rfl) (by simp [Parser.late, hs])
  case header hr _ =>
    obtain ⟨_, _, _, hc⟩ := parseHeaderLine_ok hr
    exact hl (by rw [hc]; rfl) rfl
  case headPending hs hf =>
    obtain ⟨ha, hq⟩ := Flagged.finish hp hs hf (by simp)
    have hk := (h.early (by simp [Parser.late, hs])).1
    refine ⟨fun he => ?_, fun _ => hk ▸ ha⟩
    cases (hq (by simp)).symm.trans he
  case trailer hr _ =>
    obtain ⟨_, _, _, hc⟩ := parseHeaderLine_ok hr
    exact hl (by rw [hc]; rfl) rfl
  case lastChunk hs _ _ _ _ => exact hl rfl (by simp [Parser.late, hs])
  all_goals exact hl rfl rfl

theorem Flagged.expect (h : Flagged k c p) (hp : Phase lim c p)
    (m : Move lim p d (some .expect100) q) : Flagged (k + 1) (c ++ d) q := by
  cases m
  case headExpect hs hf =>
    have ⟨ha, hq⟩ := Flagged.finish hp hs hf (by simp)
    have hk := (h.early (by simp [Parser.late, hs])).1
    refine ⟨fun he => ?_, fun _ => hk ▸ ha⟩
    cases (hq (by simp)).symm.trans he

theorem Flagged.emit (h : Flagged k c p) (hp : Phase lim c p)
    (m : Move lim p d (some (.request r)) q) : Answered k r.expect100Continue (c ++ d) := by
  cases m
  case headReady hs hf =>
    have ⟨ha, _⟩ := Flagged.finish hp hs hf (by simp)
    have hk := (h.early (by simp [Parser.late, hs])).1
    exact hk ▸ ha
  case bodyEnd hs _  => exact (h.late (by simp [Parser.late, hs])).append d
  case trailerEnd hs => exact (h.late (by simp [Parser.late, hs])).append crlf

-- What a call tells about the expectation, if it does not fail.
def Flags (k : Nat) (c : Bytes) (p : Parser) : ParseStatus → Prop
  | .needMore  => Flagged k c p
  | .expect100 => Flagged (k + 1) c p
  | .request r => Answered k r.expect100Continue c
  | .badRequest _ | .tooLarge _ => True

theorem Flagged.rewind (h : Flagged k c p) : Flagged k c p.rewind :=
  ⟨h.early, h.late⟩

theorem Flagged.reports (hp : Phase lim c p.rewind) (h : Flagged k c p)
    (m : Move lim p d (some st) q) : Flags k (c ++ d) q st := by
  cases st
  case needMore  => cases m
  case expect100 => exact h.rewind.expect hp m.rewind
  case request   => exact h.rewind.emit hp m.rewind
  all_goals trivial

theorem parse_flags (hs : ScanOk p b) (hc : Phase lim c p.rewind) (h : Flagged k c p)
    (hp : parse lim p b = (st, p', b')) (hn : ¬IsError st) :
    Flags k (c ++ b.take (b.length - b'.length)) p' st := by
  have hl : ¬st.IsTooLarge := fun h => hn (by cases st <;> trivial)
  have hp := passes_of_not_tooLarge hs hp hl
  have ⟨d, hb, hf⟩ := hp.rule (I := fun c p => Phase lim c p.rewind ∧ Flagged k c p)
    (R := Flags k) (fun h m => ⟨h.1.moves m, h.2.rewind.step h.1 m.rewind⟩)
    (fun h m => h.2.reports h.1 m) (fun h _ => ⟨h.2.early, h.2.late⟩)
    (fun he => by rename_i st; cases st <;> first | exact he.elim | trivial) hs ⟨hc, h⟩
  rw [take_consumed (hb hn)]
  exact hf

theorem Dialogue.flags (h : Dialogue lim i es k c p b) (hf : Flagged k c p)
    (hp : parse lim p b = (st, p', b')) (hn : ¬IsError st) :
    Flags k (c ++ b.take (b.length - b'.length)) p' st := by
  have ⟨_, hs, hc, _⟩ := h.session.invariant
  exact parse_flags hs hc hf hp hn

theorem Dialogue.invariant (h : Dialogue lim i es k c p b) :
    Flagged k c p ∧ ∀ x ∈ es, Answered x.continues x.request.expect100Continue x.bytes := by
  induction h
  case fresh           => exact ⟨⟨fun _ => ⟨rfl, rfl⟩, by simp [late]⟩, by simp⟩
  case receive hi      => exact hi
  case waits h hp hi   => exact ⟨h.flags hi.1 hp id, hi.2⟩
  case expects h hp hi => exact ⟨h.flags hi.1 hp id, hi.2⟩
  case reports h hp hi =>
    have hx := h.flags hi.1 hp id
    obtain ⟨_, hs, hc, _⟩ := h.session.invariant
    obtain ⟨_, _, hq, _⟩ := parse_explains hs hc hp id
    refine ⟨hq ▸ ⟨fun _ => ⟨rfl, rfl⟩, by simp [late]⟩, fun x hm => ?_⟩
    rcases List.mem_append.mp hm with hm | hm
    · exact hi.2 x hm
    · cases List.mem_singleton.mp hm
      exact hx

-- Before the empty line there is no head.
theorem Phase.no_head (h : Phase lim c p) (hl : p.late = false) :
    ¬∃ l fs d, c = headBytes l fs ++ d := by
  rintro ⟨l, fs, d, hc⟩
  cases h
  case start =>
    have hn := congrArg List.length hc
    simp [headBytes] at hn
  case head l' fs' =>
    simp only [headBytes, List.append_assoc] at hc
    obtain ⟨_, hf⟩ := encodeLine_inj l'.no_lf l.no_lf hc
    have hf : encodeFields fs' ++ (crlf ++ []) = encodeFields fs ++ (crlf ++ (d ++ crlf)) := by
      simp [hf]
    exact absurd (encodeFields_inj hf).2 (by simp [crlf])
  all_goals cases hl

-- The interim responses of a dialogue: one for each request that is due one, and none for others.
structure Continued (es : List Emitted) (k : Nat) (c : Bytes) : Prop where
  once    : k ≤ 1
  pending : k = 1 ↔ ∃ l fs d, c = headBytes l fs ++ d ∧ ContinueDue l.version fs
  emitted : ∀ x ∈ es, ∃ m : Message, m.encode = x.bytes ∧ Reports m x.request ∧
    x.continues ≤ 1 ∧ (x.continues = 1 ↔ ContinueDue m.line.version m.fields) ∧
    (x.request.expect100Continue = true ↔ ContinueDue m.line.version m.fields)

theorem Answered.once {e : Bool} (h : Answered k e c) :
    k ≤ 1 ∧ (k = 1 ↔ e = true) ∧
    ∀ {l fs d}, c = headBytes l fs ++ d → (e = true ↔ ContinueDue l.version fs) := by
  obtain ⟨l, fs, d, hc, hk, he⟩ := h
  refine ⟨hk ▸ Bool.toNat_le e, by rw [hk]; cases e <;> simp, fun hc' => ?_⟩
  have ⟨hl, hf, _⟩ := headBytes_inj (hc.symm.trans hc')
  exact hl ▸ hf ▸ he

theorem Dialogue.continued (h : Dialogue lim i es k c p b) : Continued es k c := by
  have ⟨hf, ha⟩ := h.invariant
  have ⟨_, _, hp, hm⟩ := h.session.invariant
  have hk : k ≤ 1 ∧ (k = 1 ↔ ∃ l fs d, c = headBytes l fs ++ d ∧ ContinueDue l.version fs) := by
    cases hl : p.late
    case false =>
      have hn := hp.no_head hl
      rw [(hf.early hl).1]
      refine ⟨Nat.zero_le _, by simp, fun ⟨l, fs, d, hc, _⟩ => absurd ⟨l, fs, d, hc⟩ hn⟩
    case true =>
      have ha := hf.late hl
      have ⟨h₁, h₂, h₃⟩ := ha.once
      obtain ⟨l, fs, d, hc, _⟩ := ha
      refine ⟨h₁, h₂.trans ⟨fun he => ⟨l, fs, d, hc, (h₃ hc).mp he⟩, ?_⟩⟩
      exact fun ⟨l, fs, d, hc, hd⟩ => (h₃ hc).mpr hd
  refine ⟨hk.1, hk.2, fun x hx => ?_⟩
  have ⟨m, he, hr⟩ := hm (x.bytes, x.request) (List.mem_map_of_mem hx)
  have ⟨h₁, h₂, h₃⟩ := (ha x hx).once
  have hd := h₃ he.symm
  exact ⟨m, he, hr, h₁, h₂.trans hd, hd⟩

end Http.Parser
