import HttpServer.Parser.Theorems.Bounds

open Text

namespace Http.Parser

-- A body of known length is reported as soon as it is complete.
def Pending (p : Parser) : Prop :=
  p.state = .bodyFixed → 0 < p.bodyRemaining

-- A parser `p` took `n` bytes from the buffer `b` and became `q`. This is also meant for parsers
-- that have already failed.
structure Takes (p : Parser) (b : Bytes) (n : Nat) (q : Parser) : Prop where
  le       : n ≤ b.length
  consumed : q.consumed = p.consumed + n
  header   : q.headerBytes ≤ p.headerBytes + n
  body     : q.body.length ≤ p.body.length + n
  values   : ∀ h ∈ q.cur.headers, h ∈ p.cur.headers ∨ h.value.length ≤ b.length
  pending  : Pending p → Pending q

-- The same for the results of passes and calls: a request takes all its bytes along.
def Returns (p : Parser) (b : Bytes) (n : Nat) (q : Parser) : ParseStatus → Prop
  | .request r => n ≤ b.length ∧ q = {} ∧ r.totalBytes = p.consumed + n ∧ (Pending p → 0 < n)
  | .expect100 => Takes p b n q ∧ 0 < n
  | _          => Takes p b n q

def Pass.Spends (p : Parser) (b : Bytes) : Pass → Prop
  | .ret st q c => ∃ n, c = b.drop n ∧ Returns p b n q st
  | .loop _ q c => ∃ n, c = b.drop n ∧ Takes p b n q ∧ 0 < n

variable {lim : ParserLimits} {p q r : Parser} {b c : Bytes} {st : ParseStatus} {m n : Nat}

-- Nothing but the cursor, flags and the request line changes.
theorem Takes.keep (hc : q.consumed = p.consumed) (hh : q.headerBytes = p.headerBytes)
    (hb : q.body = p.body) (hv : q.cur.headers = p.cur.headers) (hp : Pending p → Pending q) :
    Takes p b 0 q where
  le       := Nat.zero_le _
  consumed := hc
  header   := Nat.le_of_eq hh
  body     := by rw [hb]; exact Nat.le_refl _
  values   := by rw [hv]; exact fun _ => .inl
  pending  := hp

theorem Takes.trans (h : Takes p b m q) (h' : Takes q (b.drop m) n r) : Takes p b (m + n) r where
  le := by
    have := h.le
    have := h'.le
    simp at this
    omega
  consumed := by rw [h'.consumed, h.consumed, Nat.add_assoc]
  header   := by have := h.header; have := h'.header; omega
  body     := by have := h.body; have := h'.body; omega
  values x hx := by
    match h'.values x hx with
    | .inr hl => exact .inr (Nat.le_trans hl (by simp))
    | .inl hq => exact h.values x hq
  pending hp := h'.pending (h.pending hp)

theorem Returns.trans (h : Takes p b m q) (h' : Returns q (b.drop m) n r st) :
    Returns p b (m + n) r st := by
  have hl := h.le
  cases st
  case request =>
    obtain ⟨hn, hr, ht, hp⟩ := h'
    rw [List.length_drop] at hn
    refine ⟨by omega, hr, by rw [ht, h.consumed, Nat.add_assoc], fun h₀ => ?_⟩
    have := hp (h.pending h₀)
    omega
  case expect100 => exact ⟨h.trans h'.1, by have := h'.2; omega⟩
  all_goals exact h.trans h'

-- A line with its CRLF is taken off the buffer.
theorem Takes.eatLine (p : Parser) (h : n + 2 ≤ b.length) : Takes p b (n + 2) (p.eatLine n) where
  le       := h
  consumed := rfl
  header   := Nat.le_add_right ..
  body     := Nat.le_add_right ..
  values _ := .inl
  pending  := id

theorem Takes.eatField (p : Parser) (h : n + 2 ≤ b.length) : Takes p b (n + 2) (p.eatField n) where
  le       := h
  consumed := rfl
  header   := Nat.le_refl _
  body     := Nat.le_add_right ..
  values _ := .inl
  pending  := id

-- What happens to the request and the state afterwards.
theorem Takes.update (h : Takes p b n q) (hc : r.consumed = q.consumed)
    (hh : r.headerBytes = q.headerBytes) (hb : r.body = q.body)
    (hv : ∀ x ∈ r.cur.headers, x ∈ q.cur.headers ∨ x.value.length ≤ b.length)
    (hp : Pending q → Pending r) : Takes p b n r where
  le       := h.le
  consumed := hc.trans h.consumed
  header   := hh ▸ h.header
  body     := hb ▸ h.body
  values x hx := by
    match hv x hx with
    | .inl hq => exact h.values x hq
    | .inr hl => exact .inr hl
  pending h₀ := hp (h.pending h₀)

theorem fail_spends {err : String} {big : Bool} (h : Takes p b n q) :
    (fail q err big (b.drop n)).Spends p b := by
  refine ⟨n, rfl, ?_⟩
  have ht : Takes p b n { q with tooLarge := q.tooLarge || big } :=
    h.update rfl rfl rfl (fun _ => .inl) id
  dsimp only
  split <;> exact ht

theorem emitRequest_spends (h : n ≤ b.length) (hc : q.consumed = p.consumed + n)
    (hp : Pending p → 0 < n) : (emitRequest q (b.drop n)).Spends p b :=
  ⟨n, rfl, h, rfl, hc, hp⟩

theorem parseRequestLine_headers (lim : ParserLimits) (line : Bytes) (out : Request) :
    (parseRequestLine lim line out).2.headers = out.headers := by
  have hf (m t v : Bytes) : (parseRequestFields lim m t v out).2.headers = out.headers := by
    rw [parseRequestFields]
    repeat' split
    all_goals dsimp only
    repeat' split
    all_goals rfl
  rw [parseRequestLine]
  repeat' split
  all_goals first | rfl | exact hf ..

theorem trimOws_length (s : Bytes) : (trimOws s).length ≤ s.length :=
  Nat.le_trans (List.rdropWhile_prefix ..).length_le (List.dropWhile_suffix ..).length_le

theorem parseHeaderLine_headers {line : Bytes} {out cur : Request}
    (h : parseHeaderLine lim line out = .ok cur) :
    ∀ x ∈ cur.headers, x ∈ out.headers ∨ x.value.length ≤ line.length := by
  simp only [parseHeaderLine] at h
  repeat' split at h
  all_goals cases h
  simp only [List.mem_append, List.mem_singleton]
  rintro x (hx | hx)
  · exact .inl hx
  · rw [hx]
    exact .inr (Nat.le_trans (trimOws_length _) (by simp))

theorem finishHeaders_headers (lim : ParserLimits) (p : Parser) :
    (finishHeaders lim p).2.cur.headers = p.cur.headers ∧
      (p.state = .headers → Pending (finishHeaders lim p).2) := by
  have he (p : Parser) : (finishExpect p).2.cur.headers = p.cur.headers ∧
      (Pending p → Pending (finishExpect p).2) := by
    simp only [finishExpect]
    repeat' split
    all_goals exact ⟨rfl, id⟩
  have hh {q : Parser} (hq : q.state = .headers) : Pending q := fun h => by cases hq.symm.trans h
  simp only [finishHeaders]
  split
  case h_1 => exact ⟨rfl, hh⟩
  case h_2 =>
    split
    case h_1 => exact ⟨rfl, hh⟩
    case h_2 => exact ⟨(he _).1, fun _ => (he _).2 (by simp [Pending])⟩
    case h_3 n _ =>
      split
      case isTrue hn => exact ⟨(he _).1, fun _ => (he _).2 fun _ => hn⟩
      case isFalse   => exact ⟨rfl, hh⟩
    case h_4 => exact ⟨rfl, hh⟩

theorem passRequestLine_spends : (passRequestLine lim p b).Spends p b := by
  have hs (k : Nat) : Takes p b 0 { p with scan := k } := .keep rfl rfl rfl rfl id
  simp only [passRequestLine]
  split
  case h_1 => split <;> exact ⟨0, rfl, hs _⟩
  case h_2 => exact ⟨0, rfl, hs _⟩
  case h_3 n _ hr =>
    have hr := lineReady_le hr
    split
    · exact ⟨0, rfl, hs _⟩
    · have hv := parseRequestLine_headers lim (b.take n) p.cur
      have hn : Pending p → Pending { p with state := .headers } := fun _ => by simp [Pending]
      split
      case h_1 =>
        exact fail_spends ((Takes.eatLine p hr).update rfl rfl rfl (fun _ hx => .inl (hv ▸ hx)) id)
      case h_2 =>
        exact ⟨_, rfl, (Takes.eatLine p hr).update rfl rfl rfl (fun _ hx => .inl (hv ▸ hx)) hn, by omega⟩

-- A header or trailer line.
theorem Takes.field {cur : Request} (hr : n + 2 ≤ b.length)
    (h : parseHeaderLine lim (b.take n) p.cur = .ok cur) :
    Takes p b (n + 2) { p.eatField n with cur := cur } := by
  refine (Takes.eatField p hr).update rfl rfl rfl (fun x hx => ?_) id
  refine (parseHeaderLine_headers h x hx).imp_right fun hl => ?_
  rw [List.length_take] at hl
  omega

theorem passHeaders_spends (hp : p.state = .headers) : (passHeaders lim p b).Spends p b := by
  have hs (k : Nat) : Takes p b 0 { p with scan := k } := .keep rfl rfl rfl rfl id
  simp only [passHeaders]
  split
  case h_1 => split <;> exact ⟨0, rfl, hs _⟩
  case h_2 => exact ⟨0, rfl, hs _⟩
  case h_3 n _ hr =>
    have hr := lineReady_le hr
    split
    case isTrue =>
      obtain ⟨_, hc, hh, hb⟩ := finishHeaders_preserves lim (p.eatField n)
      obtain ⟨hv, hn⟩ := finishHeaders_headers lim (p.eatField n)
      have ht : Takes p b (n + 2) (finishHeaders lim (p.eatField n)).2 :=
        (Takes.eatField p hr).update hc hh hb (by rw [hv]; exact fun _ => .inl) fun _ => hn hp
      have hq {q : Parser} (hq : (finishHeaders lim (p.eatField n)).2 = q) : Takes p b (n + 2) q := hq ▸ ht
      split
      case h_1 hf => exact fail_spends (hq (congrArg (·.2) hf))
      case h_2 hf => exact emitRequest_spends hr (hq (congrArg (·.2) hf)).consumed (by omega)
      case h_3 hf => exact ⟨_, rfl, hq (congrArg (·.2) hf), by omega⟩
      case h_4 hf => exact ⟨_, rfl, hq (congrArg (·.2) hf), by omega⟩
    case isFalse =>
      split
      case h_1 => exact fail_spends (Takes.eatField p hr)
      case h_2 hl =>
        split
        · exact ⟨_, rfl, Takes.field hr hl⟩
        · exact ⟨_, rfl, Takes.field hr hl, by omega⟩

-- A part of the body is taken off the buffer.
theorem Takes.data (h : n ≤ b.length) (hc : q.consumed = p.consumed + n)
    (hh : q.headerBytes = p.headerBytes) (hb : q.body = p.body ++ b.take n) (hv : q.cur = p.cur)
    (hp : Pending p → Pending q) : Takes p b n q where
  le       := h
  consumed := hc
  header   := by omega
  body     := by rw [hb, List.length_append, List.length_take]; omega
  values   := by rw [hv]; exact fun _ => .inl
  pending  := hp

theorem passBodyFixed_spends (hp : p.state = .bodyFixed) : (passBodyFixed p b).Spends p b := by
  simp only [passBodyFixed]
  by_cases ht : min p.bodyRemaining b.length > 0
  case neg =>
    have hz : min p.bodyRemaining b.length = 0 := by omega
    have hk : Takes p b 0 p := .keep rfl rfl rfl rfl id
    simp only [hz, Nat.lt_irrefl, ↓reduceIte]
    split
    case isTrue hr => exact emitRequest_spends hk.le rfl fun h => by have := h hp; omega
    case isFalse   => exact ⟨0, rfl, hk⟩
  case pos =>
    simp only [ht, ↓reduceIte]
    split
    case isTrue => exact emitRequest_spends (Nat.min_le_right ..) rfl fun _ => ht
    case isFalse hr =>
      exact ⟨_, rfl, .data (Nat.min_le_right ..) rfl rfl rfl rfl fun _ _ => Nat.pos_of_ne_zero hr⟩

theorem passBodyChunked_spends (hp : p.state = .bodyChunked) :
    (passBodyChunked lim p b).Spends p b := by
  have hs (k : Nat) : Takes p b 0 { p with scan := k } := .keep rfl rfl rfl rfl id
  have hn {q : Parser} (hq : q.state = .bodyChunked) : Pending q := fun h => by cases hq.symm.trans h
  simp only [passBodyChunked]
  split
  case isTrue =>
    split
    case h_1 => exact ⟨0, rfl, hs _⟩
    case h_2 => exact ⟨0, rfl, hs _⟩
    case h_3 hr =>
      have hr := lineReady_le hr
      split
      case isTrue  => exact ⟨0, rfl, hs _⟩
      case isFalse =>
        exact ⟨2, rfl, (Takes.eatLine (n := 0) p (by omega)).update rfl rfl rfl (fun _ => .inl) id, by omega⟩
  case isFalse =>
    split
    case isTrue =>
      have hk : Takes p b 0 p := .keep rfl rfl rfl rfl id
      split
      case isTrue     => exact ⟨0, rfl, hk⟩
      case isFalse hz =>
        split
        case isTrue  => exact ⟨0, rfl, hk⟩
        case isFalse =>
          exact ⟨_, rfl, .data (Nat.min_le_right ..) rfl rfl rfl rfl fun _ => hn hp, by omega⟩
    case isFalse =>
      split
      case h_1 => split <;> exact ⟨0, rfl, hs _⟩
      case h_2 => exact ⟨0, rfl, hs _⟩
      case h_3 n e hr =>
        have hr := lineReady_le hr
        have ht : Takes p b (n + 2) (p.eatLine n) := .eatLine p hr
        split
        case h_1 => exact fail_spends ht
        case h_2 size _ =>
          split
          case isTrue =>
            exact ⟨_, rfl, ht.update rfl rfl rfl (fun _ => .inl) fun _ => by simp [Pending], by omega⟩
          case isFalse =>
            split
            case isTrue  => exact ⟨_, rfl, ht⟩
            case isFalse =>
              exact ⟨_, rfl, ht.update rfl rfl rfl (fun _ => .inl) fun _ => hn hp, by omega⟩

theorem passChunkTrailer_spends : (passChunkTrailer lim p b).Spends p b := by
  have hs (k : Nat) : Takes p b 0 { p with scan := k } := .keep rfl rfl rfl rfl id
  simp only [passChunkTrailer]
  split
  case h_1 => split <;> exact ⟨0, rfl, hs _⟩
  case h_2 => exact ⟨0, rfl, hs _⟩
  case h_3 n _ hr =>
    have hr := lineReady_le hr
    split
    case isTrue => exact emitRequest_spends hr rfl (by omega)
    case isFalse =>
      split
      case h_1 => exact fail_spends (Takes.eatField p hr)
      case h_2 hl =>
        split
        · exact ⟨_, rfl, Takes.field hr hl⟩
        · exact ⟨_, rfl, Takes.field hr hl, by omega⟩

-- No pass loses or invents a byte, in whatever state the parser is.
theorem pass_spends (lim : ParserLimits) (p : Parser) (b : Bytes) : (pass lim p b).Spends p b := by
  simp only [pass]
  split
  case h_1    => exact passRequestLine_spends
  case h_2 hp => exact passHeaders_spends hp
  case h_3 hp => exact passBodyFixed_spends hp
  case h_4 hp => exact passBodyChunked_spends hp
  case h_5    => exact passChunkTrailer_spends

theorem parseLoop_spends {o : Bool} {k : Nat} (h : parseLoop lim k o p b = (st, q, c)) :
    ∃ n, c = b.drop n ∧ Returns p b n q st := by
  induction k generalizing o p b <;> simp only [parseLoop] at h
  case zero =>
    cases h
    exact ⟨0, rfl, .keep rfl rfl rfl rfl id⟩
  case succ hi =>
    split at h
    case isTrue =>
      cases h
      exact ⟨0, rfl, .keep rfl rfl rfl rfl id⟩
    case isFalse =>
      have hs : (pass lim p b).Spends p b := pass_spends lim p b
      split at h
      case h_1 hp =>
        cases h
        rw [hp] at hs
        exact hs
      case h_2 hp =>
        rw [hp] at hs
        obtain ⟨m, hm, ht, _⟩ := hs
        subst hm
        obtain ⟨n, hn, hr⟩ := hi h
        exact ⟨m + n, by rw [hn, List.drop_drop], .trans ht hr⟩

-- Neither does a call.
theorem parse_spends (h : parse lim p b = (st, q, c)) : ∃ n, c = b.drop n ∧ Returns p b n q st :=
  parseLoop_spends h

end Http.Parser
