import HttpServer.Parser.Theorems.Limits

open Text

namespace Http.Parser

variable {lim : ParserLimits} {p q : Parser} {cur : Request} {hs hs' : List Header} {minor n : Nat}
variable {b : Bytes} {busy : Bool} {o : HeadOutcome}

-- The headers leave no doubt about where the next request starts. This is how a client has to read
-- them; how the parser does is up to `finishHeaders`.
def BodyDue (hs : List Header) : Prop :=
  valuesNamed (ascii "Transfer-Encoding") hs ≠ [] ∨
  ∃ n > 0, valuesNamed (ascii "Content-Length") hs = [decimal n]

def ExpectKnown (hs : List Header) : Prop :=
  ∀ e, (valuesNamed (ascii "Expect") hs).head? = some e → e = [] ∨ toLower e = ascii "100-continue"

structure WellFramed (lim : ParserLimits) (minor : Nat) (hs : List Header) : Prop where
  options  : ∀ v ∈ valuesNamed (ascii "Connection") hs, ∀ token ∈ splitList v,
    toLower token = [] ∨ toLower token = ascii "close" ∨ toLower token = ascii "keep-alive"
  transfer : valuesNamed (ascii "Transfer-Encoding") hs = [] ∨
    minor = 1 ∧ valuesNamed (ascii "Content-Length") hs = [] ∧
    ∃ te, valuesNamed (ascii "Transfer-Encoding") hs = [te] ∧ toLower te = ascii "chunked"
  length   : valuesNamed (ascii "Content-Length") hs = [] ∨
    ∃ n ≤ min (2 ^ 52) lim.maxBodyBytes, valuesNamed (ascii "Content-Length") hs = [decimal n]
  expect   : BodyDue hs → ExpectKnown hs

-- The result of `finish_headers` for such a header list, started in `p`.
structure Selects (minor : Nat) (hs : List Header) (p : Parser) (o : HeadOutcome) (q : Parser) :
    Prop where
  chunked   : valuesNamed (ascii "Transfer-Encoding") hs ≠ [] →
    (o = .bodyPending ∨ o = .send100) ∧ q.state = .bodyChunked ∧ q.chunked = true
  fixed     : ∀ n > 0, valuesNamed (ascii "Content-Length") hs = [decimal n] →
    (o = .bodyPending ∨ o = .send100) ∧ q.state = .bodyFixed ∧ q.chunked = p.chunked ∧
    q.bodyRemaining = n
  absent    : ¬BodyDue hs → o = .requestReady ∧ q.state = p.state
  keepAlive : q.cur.keepAlive = true ↔
    (∀ v ∈ valuesNamed (ascii "Connection") hs, ∀ token ∈ splitList v,
      toLower token ≠ ascii "close") ∧
    (minor = 1 ∨ ∃ v ∈ valuesNamed (ascii "Connection") hs, ∃ token ∈ splitList v,
      toLower token = ascii "keep-alive")

-- The same fields, in another order and with other spellings of their names.
structure Reordered (hs hs' : List Header) : Prop where
  perm   : (hs.map lowered).Perm (hs'.map lowered)
  expect : valuesNamed (ascii "Expect") hs = valuesNamed (ascii "Expect") hs'

-- A parser at the end of a header block, as `parse_request_line` and `parse_header_line` leave it.
structure Headed (p : Parser) : Prop where
  minor   : p.cur.minor ≤ 1
  trimmed : Trimmed p.cur.headers

-- The pass ends the call with an error.
def IsRefusal : Pass → Prop
  | .ret st _ _ => IsError st
  | .loop _ _ _ => False

def withHeaders (p : Parser) (hs : List Header) : Parser :=
  { p with cur := { p.cur with headers := hs } }

theorem mem_options {o : Bytes} : o ∈ options hs ↔
    ∃ v ∈ valuesNamed (ascii "Connection") hs, ∃ token ∈ splitList v, toLower token = o := by
  simp only [options, List.mem_map, List.mem_flatMap]
  constructor
  case mp =>
    rintro ⟨t, ⟨v, hv, ht⟩, ho⟩
    exact ⟨v, hv, t, ht, ho⟩
  case mpr =>
    rintro ⟨v, hv, t, ht, ho⟩
    exact ⟨t, ⟨v, hv, ht⟩, ho⟩

theorem optionsKnown_iff : OptionsKnown hs ↔
    ∀ v ∈ valuesNamed (ascii "Connection") hs, ∀ token ∈ splitList v,
      toLower token = [] ∨ toLower token = ascii "close" ∨ toLower token = ascii "keep-alive" := by
  simp only [OptionsKnown, mem_options]
  constructor
  case mp => exact fun h v hv t ht => h _ ⟨v, hv, t, ht, rfl⟩
  case mpr =>
    rintro h o ⟨v, hv, t, ht, ho⟩
    exact ho ▸ h v hv t ht

theorem keepsAlive_iff (hm : minor ≤ 1) : keepsAlive minor hs = true ↔
    (∀ v ∈ valuesNamed (ascii "Connection") hs, ∀ token ∈ splitList v,
      toLower token ≠ ascii "close") ∧
    (minor = 1 ∨ ∃ v ∈ valuesNamed (ascii "Connection") hs, ∃ token ∈ splitList v,
      toLower token = ascii "keep-alive") := by
  have h₁ : 1 ≤ minor ↔ minor = 1 := by omega
  simp only [keepsAlive_eq_true, mem_options, h₁]
  simp

theorem finishExpect_known (ht : Trimmed p.cur.headers) :
    (∀ err, (finishExpect p).1 ≠ .error err) ↔ ExpectKnown p.cur.headers := by
  have ht := ht.values (ascii "Expect")
  have hl : toLower (ascii "100-continue") = ascii "100-continue" := by decide
  simp only [finishExpect, header_named, ExpectKnown]
  cases hv : valuesNamed (ascii "Expect") p.cur.headers
  case nil => simp
  case cons e es =>
    have he : trimOws e = e := ht e (by simp [hv])
    simp only [List.head?_cons, Option.getD_some, he, Option.some.injEq, forall_eq']
    have hi : equalsIgnoreCase e (ascii "100-continue") = true ↔
      toLower e = ascii "100-continue" := by rw [equalsIgnoreCase_iff, hl]
    repeat' split
    all_goals simp_all

theorem finishExpect_state (h : ∀ err, (finishExpect p).1 ≠ .error err) :
    ((finishExpect p).1 = .bodyPending ∨ (finishExpect p).1 = .send100) ∧
    (finishExpect p).2.state = p.state ∧ (finishExpect p).2.chunked = p.chunked ∧
    (finishExpect p).2.bodyRemaining = p.bodyRemaining ∧
    (finishExpect p).2.cur.keepAlive = p.cur.keepAlive := by
  obtain ⟨ho, hq⟩ | ⟨ho, hq⟩ := finishExpect_ok (Prod.eta _).symm h
  · exact ⟨.inl ho, by rw [hq], by rw [hq], by rw [hq], by rw [hq]⟩
  · exact ⟨.inr ho, by rw [hq]; rfl, by rw [hq]; rfl, by rw [hq]; rfl, by rw [hq]; rfl⟩

def Framing.Due : Framing → Prop
  | .chunked  => True
  | .length n => n > 0
  | .absent   => False

theorem Framing.Announced.due {fr : Framing} (h : fr.Announced lim minor hs) :
    BodyDue hs ↔ fr.Due := by
  match fr, h with
  | .absent, ⟨hte, hcl⟩ => simp [BodyDue, hte, hcl, Framing.Due]
  | .chunked, ⟨_, _, te, hte, _⟩ => simp [BodyDue, hte, Framing.Due]
  | .length n, ⟨hte, hcl, _⟩ =>
    simp only [BodyDue, hte, hcl, Framing.Due, ne_eq, not_true_eq_false, false_or, List.cons.injEq,
      and_true]
    exact ⟨fun ⟨k, hk, he⟩ => Grammar.decimal_inj he ▸ hk, fun h => ⟨n, h, rfl⟩⟩

theorem wellFramed_iff (hm : minor ≤ 1) : WellFramed lim minor hs ↔
    OptionsKnown hs ∧ ∃ fr : Framing, fr.Announced lim minor hs ∧ (fr.Due → ExpectKnown hs) := by
  constructor
  case mp =>
    intro h
    refine ⟨optionsKnown_iff.mpr h.options, ?_⟩
    suffices ha : ∃ fr : Framing, fr.Announced lim minor hs by
      have ⟨fr, hf⟩ := ha
      exact ⟨fr, hf, fun hd => h.expect (hf.due.mpr hd)⟩
    match h.transfer, h.length with
    | .inl hte, .inl hcl => exact ⟨.absent, hte, hcl⟩
    | .inl hte, .inr ⟨n, hn, hcl⟩ =>
      have hn := Nat.le_min.mp hn
      exact ⟨.length n, hte, hcl, hn.1, hn.2⟩
    | .inr ⟨h₁, hcl, hte⟩, _ => exact ⟨.chunked, by omega, hcl, hte⟩
  case mpr =>
    intro ⟨ho, fr, hf, he⟩
    rw [← hf.due] at he
    match fr, hf with
    | .absent, ⟨hte, hcl⟩ => exact ⟨optionsKnown_iff.mp ho, .inl hte, .inl hcl, he⟩
    | .chunked, ⟨h₁, hcl, hte⟩ =>
      exact ⟨optionsKnown_iff.mp ho, .inr ⟨by omega, hcl, hte⟩, .inl hcl, he⟩
    | .length n, ⟨hte, hcl, hn⟩ =>
      exact ⟨optionsKnown_iff.mp ho, .inl hte, .inr ⟨n, Nat.le_min.mpr hn, hcl⟩, he⟩

theorem finishFraming_known {fr : Framing} (ht : Trimmed p.cur.headers) :
    (∀ err, (finishFraming p fr).1 ≠ .error err) ↔ (fr.Due → ExpectKnown p.cur.headers) := by
  cases fr <;> simp only [finishFraming, Framing.Due]
  case chunked =>
    rw [finishExpect_known (by exact ht)]
    simp
  case length n =>
    split
    case isTrue hn =>
      rw [finishExpect_known (by exact ht)]
      simp [hn]
    case isFalse hn => simp [hn]
  case absent => simp

theorem finishHeaders_accepts (h : Headed p) :
    (∀ err, (finishHeaders lim p).1 ≠ .error err) ↔
      WellFramed lim p.cur.minor p.cur.headers := by
  rw [wellFramed_iff h.minor]
  constructor
  case mp =>
    intro he
    have ⟨ho, fr, hf⟩ := finishHeaders_accepted h.trimmed he
    rw [finishHeaders_framed h.trimmed ho hf, finishFraming_known (by exact h.trimmed)] at he
    exact ⟨ho, fr, hf, he⟩
  case mpr =>
    intro ⟨ho, fr, hf, he⟩
    rw [finishHeaders_framed h.trimmed ho hf, finishFraming_known (by exact h.trimmed)]
    exact he

theorem finishFraming_keepAlive (p : Parser) (fr : Framing) :
    (finishFraming p fr).2.cur.keepAlive = p.cur.keepAlive := by
  have he (p : Parser) : (finishExpect p).2.cur.keepAlive = p.cur.keepAlive := by
    simp only [finishExpect]
    repeat' split
    all_goals rfl
  cases fr <;> simp only [finishFraming]
  case chunked  => exact he _
  case length n =>
    split
    case isTrue  => exact he _
    case isFalse => rfl

theorem finishFraming_selects {fr : Framing} (hm : minor ≤ 1) (hf : fr.Announced lim minor hs)
    (hk : p.cur.keepAlive = keepsAlive minor hs)
    (he : ∀ err, (finishFraming p fr).1 ≠ .error err) :
    Selects minor hs p (finishFraming p fr).1 (finishFraming p fr).2 := by
  have hd := hf.due
  have hi : keepsAlive minor hs = true ↔ _ := keepsAlive_iff hm
  rw [← hk, ← finishFraming_keepAlive p fr] at hi
  match fr, hf with
  | .absent, ⟨hte, hcl⟩ =>
    exact ⟨fun h => absurd hte h, fun n _ h => by simp [hcl] at h, fun _ => ⟨rfl, rfl⟩, hi⟩
  | .chunked, ⟨_, hcl, _⟩ =>
    obtain ⟨ho, hs, hc, _⟩ := finishExpect_state he
    exact ⟨fun _ => ⟨ho, hs, hc⟩, fun n _ h => by simp [hcl] at h,
      fun h => absurd (hd.mpr trivial) h, hi⟩
  | .length n, ⟨hte, hcl, _⟩ =>
    refine ⟨fun h => absurd hte h, fun k hk hl => ?_, fun h => ?_, hi⟩
    · have hn : n = k := Grammar.decimal_inj (List.singleton_inj.mp (hcl.symm.trans hl))
      subst hn
      simp only [finishFraming, if_pos hk] at he ⊢
      obtain ⟨ho, hs, hc, hb, _⟩ := finishExpect_state he
      exact ⟨ho, hs, hc, hb⟩
    · have hn : ¬n > 0 := fun hn => h (hd.mpr hn)
      simp [finishFraming, hn]

theorem finishHeaders_selects (h : Headed p) (hw : WellFramed lim p.cur.minor p.cur.headers) :
    Selects p.cur.minor p.cur.headers p (finishHeaders lim p).1 (finishHeaders lim p).2 := by
  have ⟨ho, fr, hf, hd⟩ := (wellFramed_iff h.minor).mp hw
  have he := (finishHeaders_accepts h).mpr hw
  rw [finishHeaders_framed h.trimmed ho hf] at he ⊢
  have hs := finishFraming_selects h.minor hf rfl he
  exact ⟨hs.chunked, hs.fixed, hs.absent, hs.keepAlive⟩

theorem Reordered.values (h : Reordered hs hs') (name : Bytes) :
    (valuesNamed name hs).Perm (valuesNamed name hs') :=
  (h.perm.filter _).map _

theorem connectionTokens_perm {ts ts' : List Bytes} (h : ts.Perm ts') :
    connectionTokens false false ts = connectionTokens false false ts' := by
  have hm {o : Bytes} : o ∈ ts.map toLower ↔ o ∈ ts'.map toLower := (h.map _).mem_iff
  cases hc : connectionTokens false false ts
  case some r =>
    have ho := connectionTokens_ok hc
    have ho' : ∀ o ∈ ts'.map toLower, o = [] ∨ o = ascii "close" ∨ o = ascii "keep-alive" :=
      fun o h => ho o (hm.mpr h)
    rw [← hc, connectionTokens_eq _ _ _ ho, connectionTokens_eq _ _ _ ho']
    simp only [hm]
  case none =>
    cases hc' : connectionTokens false false ts'
    case none   => rfl
    case some r =>
      have ho := connectionTokens_ok hc'
      rw [connectionTokens_eq _ _ _ fun o h => ho o (hm.mp h)] at hc
      cases hc

-- A list whose order matters has at most one entry, or its length is the reason to refuse it.
-- Two orders of the same values can only be told apart if there are more than one.
theorem perm_cases {xs ys : List Bytes} (h : xs.Perm ys) :
    xs = ys ∨ ∃ x x' xs' y y' ys', xs = x :: x' :: xs' ∧ ys = y :: y' :: ys' := by
  rcases xs with _ | ⟨x, _ | ⟨x', xs'⟩⟩
  · exact .inl (List.nil_perm.mp h).symm
  · exact .inl (List.singleton_perm.mp h)
  · rcases ys with _ | ⟨y, _ | ⟨y', ys'⟩⟩
    · cases h.length_eq
    · cases h.length_eq
    · exact .inr ⟨x, x', xs', y, y', ys', rfl, rfl⟩

theorem useChunked_perm {cur cur' : Request} (hm : cur.minor = cur'.minor)
    (h : (cur.headerAll (ascii "Transfer-Encoding")).Perm
      (cur'.headerAll (ascii "Transfer-Encoding"))) : useChunked cur = useChunked cur' := by
  simp only [useChunked, hm]
  rcases perm_cases h with h | ⟨_, _, _, _, _, _, h, h'⟩
  · rw [h]
  · rw [h, h']
    rfl

theorem framing_perm {cur cur' : Request} (hm : cur.minor = cur'.minor)
    (ht : (cur.headerAll (ascii "Transfer-Encoding")).Perm
      (cur'.headerAll (ascii "Transfer-Encoding")))
    (hl : (cur.headerAll (ascii "Content-Length")).Perm
      (cur'.headerAll (ascii "Content-Length"))) : framing lim cur = framing lim cur' := by
  simp only [framing, useChunked_perm hm ht]
  rcases perm_cases hl with h | ⟨_, _, _, _, _, _, h, h'⟩
  · rw [h]
  · rw [h, h']
    rfl

theorem finishExpect_reordered (h : Reordered p.cur.headers hs) :
    finishExpect (p.withHeaders hs) =
      ((finishExpect p).1, (finishExpect p).2.withHeaders hs) := by
  have hh : (p.withHeaders hs).cur.header (ascii "Expect") = p.cur.header (ascii "Expect") := by
    rw [header_named, header_named, h.expect]
    rfl
  have hm : (p.withHeaders hs).cur.minor = p.cur.minor := rfl
  have hs : (p.withHeaders hs).expectSent = p.expectSent := rfl
  simp only [finishExpect, hh, hm, hs]
  repeat' split
  all_goals rfl

theorem finishFraming_reordered (h : Reordered p.cur.headers hs) (fr : Framing) :
    finishFraming (p.withHeaders hs) fr =
      ((finishFraming p fr).1, (finishFraming p fr).2.withHeaders hs) := by
  have he {q : Parser} (hq : q.cur = p.cur) : finishExpect (q.withHeaders hs) =
      ((finishExpect q).1, (finishExpect q).2.withHeaders hs) :=
    finishExpect_reordered (hq ▸ h)
  cases fr <;> simp only [finishFraming]
  case chunked => exact he (q := { p with
    chunked := true, chunkRemaining := 0, expectChunkCrlf := false, state := .bodyChunked }) rfl
  case length n =>
    split
    case isTrue  => exact he (q := { p with bodyRemaining := n, state := .bodyFixed }) rfl
    case isFalse => rfl

theorem finishHeaders_reordered (h : Reordered p.cur.headers hs) :
    finishHeaders lim (p.withHeaders hs) =
      ((finishHeaders lim p).1, (finishHeaders lim p).2.withHeaders hs) := by
  have hv (name : Bytes) {cur cur' : Request} (h₁ : cur.headers = p.cur.headers)
      (h₂ : cur'.headers = hs) : (cur'.headerAll name).Perm (cur.headerAll name) := by
    rw [headerAll_named, headerAll_named, h₁, h₂]
    exact (h.values name).symm
  have hc : connectionTokens false false
      (((p.withHeaders hs).cur.headerAll (ascii "Connection")).flatMap splitList) =
      connectionTokens false false ((p.cur.headerAll (ascii "Connection")).flatMap splitList) :=
    connectionTokens_perm ((hv (ascii "Connection") rfl rfl).flatMap_right splitList)
  have hk (c k : Bool) : (!c && (if (p.withHeaders hs).cur.minor ≥ 1 then true else k)) =
      (!c && (if p.cur.minor ≥ 1 then true else k)) := rfl
  have hf (k : Bool) : framing lim { (p.withHeaders hs).cur with keepAlive := k } =
      framing lim { p.cur with keepAlive := k } :=
    framing_perm rfl (hv _ rfl rfl) (hv _ rfl rfl)
  simp only [finishHeaders, hc, hk, hf]
  split
  case h_1 => rfl
  case h_2 close ka _ =>
    generalize (!close && (if p.cur.minor ≥ 1 then true else ka)) = k
    rcases hr : framing lim { p.cur with keepAlive := k } with ⟨err, big⟩ | fr
    case error => rfl
    case ok =>
      let p' := { p with tooLarge := false, cur := { p.cur with keepAlive := k } }
      have hr := finishFraming_reordered (p := p') h fr
      cases fr <;> exact hr

theorem Phase.headed {c : Bytes} (h : Phase lim c p) : Headed p := by
  have hv (v : Grammar.Version) : v.minor ≤ 1 := by cases v <;> decide
  cases h
  case start => exact ⟨Nat.le_refl _, by simp [Trimmed]⟩
  case head l fs                => exact ⟨hv l.version, trimmed_fields fs⟩
  case fixed l fs _ _ _ _ _ _   => exact ⟨hv l.version, trimmed_fields fs⟩
  case chunks l fs _ _ _ _      => exact ⟨hv l.version, trimmed_fields fs⟩
  case chunk l fs _ _ _ _ _ _ _ _ => exact ⟨hv l.version, trimmed_fields fs⟩
  case trailers l fs _ _ _ ts _ _ _ => exact ⟨hv l.version, trimmed_fields (fs ++ ts)⟩

-- Nothing else is ever passed to `finish_headers`.
theorem Turns.headed (h : Turns lim n busy p b) : Headed p :=
  have ⟨_, hp⟩ := h.invariant.phase
  ⟨hp.headed.minor, hp.headed.trimmed⟩

-- A parser that has read the empty line behind the header block.
def closeBlock (p : Parser) : Parser :=
  { p with consumed := p.consumed + 2, headerBytes := p.headerBytes + 2, scan := 0 }

theorem pass_blockEnd (hp : p.state = .headers) (hl : lineReady p b = (.ready 0, n)) :
    IsRefusal (pass lim p b) ↔ ∃ err, (finishHeaders lim p.closeBlock).1 = .error err := by
  have hx : pass lim p b = passHeaders lim p b := by simp only [pass, hp]
  have hc : finishHeaders lim { p with
      consumed := p.consumed + (0 + 2), headerBytes := p.headerBytes + (0 + 2), scan := 0 } =
      finishHeaders lim p.closeBlock := rfl
  simp only [hx, passHeaders, hl, beq_self_eq_true, ↓reduceIte, hc]
  rcases finishHeaders lim p.closeBlock with ⟨o, q⟩
  cases o
  case error =>
    simp only [IsRefusal, fail, HeadOutcome.error.injEq, exists_eq', iff_true]
    split <;> trivial
  all_goals simp [IsRefusal, IsError, emitRequest]

-- Where the parser finds the end of a header block, it goes on as the header list says, or it
-- refuses the message because the list does not say how to go on.
theorem Turns.framed (h : Turns lim n busy p b) (hp : p.state = .headers)
    (hl : lineReady p b = (.ready 0, k)) :
    WellFramed lim p.cur.minor p.cur.headers ∧ ¬IsRefusal (pass lim p b) ∧
      Selects p.cur.minor p.cur.headers p.closeBlock (finishHeaders lim p.closeBlock).1
        (finishHeaders lim p.closeBlock).2 ∨
    ¬WellFramed lim p.cur.minor p.cur.headers ∧ IsRefusal (pass lim p b) := by
  have hc : Headed p.closeBlock := ⟨h.headed.minor, h.headed.trimmed⟩
  rw [pass_blockEnd hp hl, not_exists]
  by_cases hw : WellFramed lim p.cur.minor p.cur.headers
  case pos => exact .inl ⟨hw, (finishHeaders_accepts hc).mpr hw, finishHeaders_selects hc hw⟩
  case neg => exact .inr ⟨hw, not_forall_not.mp fun hn => hw ((finishHeaders_accepts hc).mp hn)⟩

-- The framing of a message is decided by its header list, and by nothing else.
theorem finishHeaders_unambiguous (h : Headed p) (lim : ParserLimits) :
    ((∀ err, (finishHeaders lim p).1 ≠ .error err) ↔
      WellFramed lim p.cur.minor p.cur.headers) ∧
    (WellFramed lim p.cur.minor p.cur.headers →
      Selects p.cur.minor p.cur.headers p (finishHeaders lim p).1 (finishHeaders lim p).2) ∧
    (∀ hs, Reordered p.cur.headers hs → finishHeaders lim (p.withHeaders hs) =
      ((finishHeaders lim p).1, (finishHeaders lim p).2.withHeaders hs)) :=
  ⟨finishHeaders_accepts h, finishHeaders_selects h, fun _ => finishHeaders_reordered⟩

def posted : Parser where
  state := .headers
  cur   := { headers := [
    ⟨ascii "content-LENGTH", ascii "5"⟩, ⟨ascii "Connection", ascii "Keep-Alive,, close"⟩] }

theorem finishHeaders_unambiguous_posted :
    WellFramed {} 1 posted.cur.headers ∧
    (finishHeaders {} posted).2.state = .bodyFixed ∧
    (finishHeaders {} posted).2.bodyRemaining = 5 ∧
    (finishHeaders {} (posted.withHeaders posted.cur.headers.reverse)).1 = .bodyPending := by
  have h : Headed posted := ⟨by decide, by simp only [Trimmed]; decide⟩
  have ho : (finishHeaders {} posted).1 = .bodyPending := by decide +kernel
  have ⟨h₁, h₂, h₃⟩ := finishHeaders_unambiguous h {}
  have hw : WellFramed {} 1 posted.cur.headers := h₁.mp (by simp [ho])
  have hf := (h₂ hw).fixed 5 (by decide) (by decide +kernel)
  have hr : Reordered posted.cur.headers posted.cur.headers.reverse :=
    ⟨(List.reverse_perm _).symm.map _, by decide +kernel⟩
  exact ⟨hw, hf.2.1, hf.2.2.2, (congrArg (·.1) (h₃ _ hr)).trans ho⟩

end Http.Parser
