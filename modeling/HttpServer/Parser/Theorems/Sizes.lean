import HttpServer.Parser.Theorems.Limits

open Text

namespace Http.Parser

open Grammar

-- How large the parts of a request can be.
structure Request.Sized (lim : ParserLimits) (r : Request) : Prop where
  minor  : r.major = 1 ∧ r.minor ≤ 1
  line   : r.methodName.length + r.target.length ≤ lim.maxRequestLineBytes
  fields : r.headers.length ≤ lim.maxHeaderFields
  values : ∀ h ∈ r.headers, h.value.length ≤ lim.maxHeaderBytes
  body   : r.body.length ≤ lim.maxBodyBytes

-- The same for the request that the parser is at.
structure Sized (lim : ParserLimits) (p : Parser) : Prop where
  bounded : Bounded lim p
  minor   : p.cur.major = 1 ∧ p.cur.minor ≤ 1
  line    : p.cur.methodName.length + p.cur.target.length ≤ lim.maxRequestLineBytes
  values  : ∀ h ∈ p.cur.headers, h.value.length ≤ lim.maxHeaderBytes

variable {lim : ParserLimits} {p q : Parser} {b c l : Bytes} {st : ParseStatus} {r out cur : Request}

theorem Sized.fresh : Sized lim {} where
  bounded := .fresh
  minor   := ⟨rfl, Nat.le_refl _⟩
  line    := Nat.zero_le _
  values  := by simp

-- The request line of a request stays as it is.
structure Request.SameLine (r r' : Request) : Prop where
  method : r'.methodName = r.methodName
  target : r'.target = r.target
  major  : r'.major = r.major
  minor  : r'.minor = r.minor

theorem Sized.keep (h : Sized lim p) (hb : Bounded lim q) (hl : Request.SameLine p.cur q.cur)
    (hh : q.cur.headers = p.cur.headers) : Sized lim q where
  bounded := hb
  minor   := by rw [hl.major, hl.minor]; exact h.minor
  line    := by rw [hl.method, hl.target]; exact h.line
  values  := by rw [hh]; exact h.values

-- The method and the target are parts of the line.
theorem parseRequestLine_length (h : parseRequestLine lim l out = (.ok (), cur)) :
    (cur.major = 1 ∧ cur.minor ≤ 1) ∧ cur.methodName.length + cur.target.length ≤ l.length := by
  obtain ⟨m, t, v, rfl, hm, ht, hv, hc⟩ := parseRequestLine_inv h
  rw [parseRequestLine_fields hm ht hv hc] at h
  obtain ⟨_, _, _, rfl⟩ := parseRequestFields_inv h
  refine ⟨⟨rfl, by dsimp only; split <;> omega⟩, ?_⟩
  simp only [List.length_append, List.length_cons]
  omega

-- So is the value of a field.
theorem parseHeaderLine_length (h : parseHeaderLine lim l out = .ok cur) :
    Request.SameLine out cur ∧ ∀ h ∈ cur.headers, h ∈ out.headers ∨ h.value.length ≤ l.length := by
  simp only [parseHeaderLine] at h
  repeat' split at h
  all_goals cases h
  refine ⟨⟨rfl, rfl, rfl, rfl⟩, fun h hm => ?_⟩
  rcases List.mem_append.mp hm with hm | hm
  case inl => exact .inl hm
  case inr =>
    cases List.mem_singleton.mp hm
    refine .inr (Nat.le_trans (trimOws_length _) ?_)
    rw [List.length_drop]
    omega

theorem finishHeaders_line (lim : ParserLimits) (p : Parser) :
    Request.SameLine p.cur (finishHeaders lim p).2.cur := by
  have he {q : Parser} (h : Request.SameLine p.cur q.cur) :
      Request.SameLine p.cur (finishExpect q).2.cur := by
    simp only [finishExpect]
    repeat' split
    all_goals exact ⟨h.method, h.target, h.major, h.minor⟩
  simp only [finishHeaders]
  split
  case h_1 => exact ⟨rfl, rfl, rfl, rfl⟩
  case h_2 =>
    split
    case h_2 => exact he ⟨rfl, rfl, rfl, rfl⟩
    case h_3 =>
      split
      case isTrue  => exact he ⟨rfl, rfl, rfl, rfl⟩
      case isFalse => exact ⟨rfl, rfl, rfl, rfl⟩
    all_goals exact ⟨rfl, rfl, rfl, rfl⟩

theorem finish_line {o : HeadOutcome} (hf : finishHeaders lim (p.eatField 0) = (o, q)) :
    Request.SameLine p.cur q.cur := by
  have hl := finishHeaders_line lim (p.eatField 0)
  rw [hf] at hl
  exact hl

theorem finish_headers {o : HeadOutcome} (hf : finishHeaders lim (p.eatField 0) = (o, q)) :
    q.cur.headers = p.cur.headers := by
  have hh := (finishHeaders_headers lim (p.eatField 0)).1
  rw [hf] at hh
  exact hh

theorem Sized.field (h : Sized lim p) (hr : parseHeaderLine lim l p.cur = .ok cur)
    (hm : p.headerBytes + (l.length + 2) ≤ lim.maxHeaderBytes)
    (hb : Bounded lim { p.eatField l.length with cur := cur }) :
    Sized lim { p.eatField l.length with cur := cur } := by
  obtain ⟨hl, hv⟩ := parseHeaderLine_length hr
  refine ⟨hb, ?_, ?_, fun x hx => ?_⟩
  · dsimp only
    rw [hl.major, hl.minor]
    exact h.minor
  · dsimp only
    rw [hl.method, hl.target]
    exact h.line
  · rcases hv x hx with hx | hx
    case inl => exact h.values x hx
    case inr => omega

theorem Move.sized {o : Option ParseStatus} (m : Move lim p c o q) (hw : Within lim q)
    (h : Sized lim p) : Sized lim q := by
  have hb := m.bounded hw h.bounded
  cases m
  case requestLine hp _ hl hr =>
    have hv := congrArg (·.2.headers) hr
    simp only [parseRequestLine_headers] at hv
    obtain ⟨hm, hn⟩ := parseRequestLine_length hr
    exact ⟨hb, hm, Nat.le_trans hn hl, hv ▸ h.values⟩
  case header hr hm      => exact h.field hr hm hb
  case trailer hr hm     => exact h.field hr hm hb
  case headPending hf    => exact h.keep hb (finish_line hf) (finish_headers hf)
  case headExpect hf     => exact h.keep hb (finish_line hf) (finish_headers hf)
  case bodyData | chunkCrlf | chunkData | chunkSize | lastChunk =>
    exact h.keep hb ⟨rfl, rfl, rfl, rfl⟩ rfl
  case headReady | bodyEnd | trailerEnd => exact .fresh

theorem Move.request_sized (m : Move lim p c (some (.request r)) q) (h : Sized lim p) :
    Request.Sized lim r := by
  cases m
  case headReady q hp hf =>
    obtain ⟨hn, _, hb⟩ := h.bounded.finish hp hf
    have hl := finish_line hf
    have hh := finish_headers hf
    refine ⟨?_, ?_, hn, ?_, by simp [Parser.finish, hb]⟩
    · rw [Parser.finish, hl.major, hl.minor]
      exact h.minor
    · rw [Parser.finish, hl.method, hl.target]
      exact h.line
    · rw [Parser.finish, hh]
      exact h.values
  case bodyEnd hp hd =>
    have hf := h.bounded.within.fixed hp
    refine ⟨h.minor, h.line, h.bounded.fields, h.values, ?_⟩
    simp only [Parser.finish, List.length_append]
    omega
  case trailerEnd hp => exact ⟨h.minor, h.line, h.bounded.fields, h.values, h.bounded.within.body⟩

theorem Sized.loop {o : Bool} (h : Sized lim p) (hs : ScanOk p b) (hp : pass lim p b = .loop o q c) :
    Sized lim q := by
  have hw := pass_grows (b := b) h.bounded.within
  have ho : Outcome lim p b _ := pass_outcome hs
  rw [hp] at hw ho
  cases ho with
  | moves _ _ m => exact m.sized hw.1.within h

theorem Sized.ret (h : Sized lim p) (hs : ScanOk p b) (hp : pass lim p b = .ret st q c)
    (hn : ¬IsError st) : Sized lim q ∧ ∀ r, st = .request r → Request.Sized lim r := by
  have hw := pass_grows (b := b) h.bounded.within
  have ho : Outcome lim p b _ := pass_outcome hs
  rw [hp] at hw ho
  cases ho with
  | reports _ m =>
    refine ⟨m.sized hw.1.within h, ?_⟩
    rintro r rfl
    exact m.request_sized h
  | starves _ _ =>
    obtain ⟨_, hf, he, hh, hc⟩ := h.bounded
    exact ⟨h.keep ⟨hw.1.within, hf, he, hh, hc⟩ ⟨rfl, rfl, rfl, rfl⟩ rfl, by simp⟩
  | absorbs _ m  => exact ⟨m.sized hw.1.within h, by simp⟩
  | empty _ _    => exact ⟨h, by simp⟩
  | overflows    => exact absurd trivial hn
  | fails _ he _ => exact absurd he hn

theorem parse_sized (h : Sized lim p) (hs : ScanOk p b) (hp : parse lim p b = (st, q, c))
    (hn : ¬IsError st) : Sized lim q ∧ ∀ r, st = .request r → Request.Sized lim r := by
  have hl : ¬st.IsTooLarge := fun h => hn (by cases st <;> trivial)
  have hps := passes_of_not_tooLarge hs hp hl
  clear hp
  induction hps
  case ret hr       => exact h.ret hs hr hn
  case loop hr _ hi => exact hi (h.loop hs hr) (loop_spec hs hr).1 hn hl

end Http.Parser
