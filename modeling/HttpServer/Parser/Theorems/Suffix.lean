import HttpServer.Parser.Theorems.Conservation
import HttpServer.Parser.Theorems.Fragmentation

open Text

namespace Http.Parser

variable {lim : ParserLimits} {p p' q : Parser} {b b' c t : Bytes} {st : ParseStatus}

-- What a call reports, other than that it needs more input or fails.
def IsReport : ParseStatus → Prop
  | .request _ | .expect100 => True
  | _ => False

-- A pass that takes only a part of a chunk does not get to the end of the chunk.
theorem Starved.loop (hs : ScanOk p b) (hb : Starved p b) (h : pass lim p b = .loop o q c) :
    Starved q c := by
  have ho : Outcome lim p b (pass lim p b) := pass_outcome hs
  rw [h] at ho
  cases ho with
  | @moves d _ _ _ hd _ m =>
    subst hd
    cases m
    case bodyData hp _ hl => simp_all [Starved]; omega
    case chunkData hp hc hn hl _ =>
      have hr : 0 < p.chunkRemaining := Nat.lt_of_lt_of_le (List.length_pos_iff.mpr hn) hl
      have hb : (d ++ c).length < p.chunkRemaining := by simpa [Starved, hp, hc, hr] using hb
      have hr : p.chunkRemaining - d.length ≠ 0 := by simp at hb; omega
      simp [Starved, hp, hr, Nat.pos_of_ne_zero hr]
      simp at hb
      omega
    all_goals simp_all [Starved, crlf]

theorem Passes.not_starved (hp : Passes lim p b st p' b') (hs : ScanOk p b) (hst : IsReport st) :
    ¬Starved p b := by
  induction hp
  case loop h _ hi => exact fun hb => hi (loop_spec hs h).1 hst (hb.loop hs h)
  case ret h =>
    have ho : Outcome lim _ _ (pass lim _ _) := pass_outcome hs
    rw [h] at ho
    cases ho with
    | reports hb m => exact fun h => m.not_starved (hb ▸ h).of_append
    | fails hb => exact hb
    | starves | absorbs | empty | overflows => cases hst

-- The passes of a call that reports something do not look behind the bytes that they consume.
theorem Passes.append (hp : Passes lim p b st p' b') (hs : ScanOk p b) (hst : IsReport st) (t : Bytes) :
    Passes lim p (b ++ t) st p' (b' ++ t) := by
  induction hp
  case ret h =>
    have hb := Passes.not_starved (.ret h) hs hst
    exact .ret (by rw [pass_append hs hb, h]; rfl)
  case loop h hp hi =>
    have hb := Passes.not_starved (.loop h hp) hs hst
    exact .loop (by rw [pass_append hs hb, h]; rfl) (hi (loop_spec hs h).1 hst)

-- The cap is the only thing that sees the bytes behind a request.
theorem parse_append (hs : ScanOk p b) (h : parse lim p b = (st, p', b')) (hst : IsReport st)
    (t : Bytes) :
    parse lim p (b ++ t) = (st, p', b' ++ t) ↔ p.consumed + (b ++ t).length ≤ lim.maxRequestBytes := by
  have hn : ¬st.IsTooLarge := by cases st <;> first | exact id | cases hst
  constructor
  case mpr =>
    exact parse_of_passes ((passes_of_not_tooLarge hs h hn).append hs hst t) (hs.append t)
  case mp =>
    intro ha
    by_contra hc
    have he : .tooLarge _ = st := congrArg (·.1) ((parse_capped (by omega)).symm.trans ha)
    exact hn (he ▸ trivial)

-- A request that is accepted on its own is also accepted with any bytes behind it, in one call or
-- in the two calls around an interim response, just as long as all of it stays below the cap.
theorem parse_pipelined (lim : ParserLimits) (r t : Bytes) :
    (∀ {req q}, parse lim {} r = (.request req, q, []) →
      (parse lim {} (r ++ t) = (.request req, q, t) ↔ r.length + t.length ≤ lim.maxRequestBytes)) ∧
    (∀ {p b req q}, parse lim {} r = (.expect100, p, b) → parse lim p b = (.request req, q, []) →
      (parse lim {} (r ++ t) = (.expect100, p, b ++ t) ∧ parse lim p (b ++ t) = (.request req, q, t) ↔
        r.length + t.length ≤ lim.maxRequestBytes)) := by
  have hs : ScanOk {} r := .zero rfl
  refine ⟨fun h => ?_, fun {p b req q} h h' => ?_⟩
  · simpa using parse_append hs h trivial t
  · have hs' : ScanOk p b := (passes_of_not_tooLarge hs h id).report_ideal ⟨hs, by simp⟩ id (by simp) |>.1.scan
    have ⟨n, hn, ht, _⟩ := parse_spends h
    have hl : p.consumed + (b ++ t).length = r.length + t.length := by
      have := ht.le
      rw [ht.consumed, hn]
      simp
      omega
    have h₁ := parse_append hs h trivial t
    have h₂ := parse_append hs' h' trivial t
    rw [hl, List.nil_append] at h₂
    simp only [List.length_append, Nat.zero_add] at h₁
    rw [h₁, h₂, and_self]

def ping : Bytes :=
  ascii "GET / HTTP/1.1\r\n\r\n"

def pingRequest : Request where
  method      := .get
  methodName  := ascii "GET"
  target      := ascii "/"
  headerBytes := 2
  totalBytes  := 18

theorem parse_pipelined_ping :
    parse {} {} ping = (.request pingRequest, {}, []) ∧
    parse {} {} (ping ++ ping) = (.request pingRequest, {}, ping) := by
  have h : parse {} {} ping = (.request pingRequest, {}, []) := by decide +kernel
  exact ⟨h, ((parse_pipelined {} ping ping).1 h).mpr (by decide)⟩

-- The next request is on its way, and the one in front of it is refused for that.
theorem parse_pipelined_refused :
    parse { maxRequestBytes := 32 } {} ping = (.request pingRequest, {}, []) ∧
    parse { maxRequestBytes := 32 } {} (ping ++ ping) =
      (.tooLarge "request exceeds the configured limit", {}, ping ++ ping) := by
  decide +kernel

end Http.Parser
