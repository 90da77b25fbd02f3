import Mathlib.Algebra.Order.BigOperators.Group.List
import Mathlib.Algebra.GroupWithZero.Nat
import Mathlib.Algebra.Order.Group.Nat
import HttpServer.Parser.Theorems.Strict
import HttpServer.Parser.Theorems.Suffix

namespace Http.Parser

-- Counters that are never too large.
def unlimited (_ : Nat) : Bool :=
  true

def reported : ParseStatus → List Request
  | .request r => [r]
  | _          => []

-- All that can be done with a parser and its buffer: at any time bytes are appended or `parse` is
-- called, also after an error. `s` is all that was appended and `rs` are the requests so far.
inductive Usage (lim : ParserLimits) : Bytes → List Request → Parser → ByteBuf → Prop
  | fresh : Usage lim [] [] {} {}
  | append (full t) : Usage lim s rs p buf → Usage lim (s ++ t) rs p (buf.append full t)
  | call :
    Usage lim s rs p buf → Strict.parse unlimited lim p buf = some (st, p', buf') →
    Usage lim s (rs ++ reported st) p' buf'

-- A caller that calls `parse` again as long as it reports something, `n` times in a row.
inductive Drain (lim : ParserLimits) : Nat → Parser → ByteBuf → Prop
  | done : Drain lim 0 p buf
  | next :
    Strict.parse unlimited lim p buf = some (st, p', buf') → IsReport st → Drain lim n p' buf' →
    Drain lim (n + 1) p buf

variable {lim : ParserLimits} {p p' : Parser} {s : Bytes} {rs : List Request} {buf buf' : ByteBuf}
variable {st : ParseStatus} {n : Nat}

theorem room (p : Parser) (n : Nat) : ∃ m, Strict.Room m p n := by
  refine ⟨p.consumed + p.headerBytes + p.body.length + n + 2 ^ 57 +
    (p.cur.headers.map (·.value.length)).sum, by omega, by omega, by omega, by omega, fun h hh => ?_⟩
  have hm : h.value.length ∈ p.cur.headers.map (·.value.length) := List.mem_map.mpr ⟨h, hh, rfl⟩
  have hl := List.le_sum_of_mem hm
  omega

-- The call is safe from every state, and reports what the model of the code does.
theorem parse_safe (lim : ParserLimits) (p : Parser) (buf : ByteBuf) :
    ∃ r, Strict.parse unlimited lim p buf = some r ∧ parse lim p buf.view = (r.1, r.2.1, r.2.2.view) := by
  have ⟨m, hr⟩ := room p buf.size
  exact Strict.parse_refines lim (m := m) (fun _ _ => rfl) hr

theorem parse_safe_spends (h : Strict.parse unlimited lim p buf = some (st, p', buf')) :
    ∃ n, buf'.view = buf.view.drop n ∧ Returns p buf.view n p' st := by
  have ⟨r, hr, hp⟩ := parse_safe lim p buf
  cases h.symm.trans hr
  exact parse_spends hp

theorem Returns.pending (h : Returns p s n p' st) (hp : Pending p) : Pending p' := by
  cases st
  case request   => exact h.2.1 ▸ by simp [Pending]
  case expect100 => exact h.1.pending hp
  all_goals exact h.pending hp

theorem Returns.counted (h : Returns p s n p' st) :
    ((reported st).map (·.totalBytes)).sum + p'.consumed = p.consumed + n := by
  cases st
  case request   => simp [reported, h.2.1, h.2.2.1]
  case expect100 => simpa [reported] using h.1.consumed
  all_goals simpa [reported] using h.consumed

theorem Returns.le (h : Returns p s n p' st) : n ≤ s.length := by
  cases st
  case request   => exact h.1
  case expect100 => exact h.1.le
  all_goals exact Takes.le h

theorem Usage.invariant (h : Usage lim s rs p buf) :
    Pending p ∧ buf.view <:+ s ∧
      (rs.map (·.totalBytes)).sum + p.consumed + buf.view.length = s.length := by
  induction h
  case fresh => exact ⟨by simp [Pending], List.suffix_rfl, rfl⟩
  case append hi =>
    obtain ⟨hp, ⟨c, hc⟩, hl⟩ := hi
    refine ⟨hp, ⟨c, by simp [← hc]⟩, ?_⟩
    simp only [ByteBuf.view_append, List.length_append]
    omega
  case call h hi =>
    obtain ⟨hp, hc, hl⟩ := hi
    obtain ⟨n, hn, hr⟩ := parse_safe_spends h
    have ht := hr.counted
    have hle := hr.le
    refine ⟨hr.pending hp, hn ▸ (List.drop_suffix ..).trans hc, ?_⟩
    rw [hn, List.map_append, List.sum_append, List.length_drop]
    omega

theorem Returns.takes (h : Returns p s n p' st) (hp : Pending p) (hst : IsReport st) : 0 < n := by
  cases st
  case request   => exact h.2.2.2 hp
  case expect100 => exact h.2
  all_goals cases hst

theorem report_shrinks (hp : Pending p) (h : Strict.parse unlimited lim p buf = some (st, p', buf'))
    (hst : IsReport st) : buf'.size < buf.size := by
  have ⟨n, hn, hr⟩ := parse_safe_spends h
  have hl := hr.le
  have h₀ := hr.takes hp hst
  rw [← ByteBuf.length_view, ← ByteBuf.length_view, hn, List.length_drop]
  omega

theorem Drain.bounded (h : Drain lim n p buf) (hp : Pending p) : n ≤ buf.size := by
  induction h
  case done => omega
  case next hc hst _ hi =>
    have ⟨_, _, hr⟩ := parse_safe_spends hc
    have hs := report_shrinks hp hc hst
    have hn := hi (hr.pending hp)
    omega

-- In every state that a parser can get into, calls end without having left the buffer, whatever is
-- in it; no byte is lost or counted twice; and a caller that drains its buffer gets to an end.
theorem usage_total (h : Usage lim s rs p buf) :
    (∀ buf : ByteBuf, ∃ r, Strict.parse unlimited lim p buf = some r ∧
      parse lim p buf.view = (r.1, r.2.1, r.2.2.view)) ∧
    (rs.map (·.totalBytes)).sum + p.consumed + buf.size = s.length ∧ buf.view <:+ s ∧
    (∀ {buf st p' buf'}, Strict.parse unlimited lim p buf = some (st, p', buf') → IsReport st →
      buf'.size < buf.size) ∧
    (∀ {n buf}, Drain lim n p buf → n ≤ buf.size) := by
  obtain ⟨hp, hc, hl⟩ := h.invariant
  rw [ByteBuf.length_view] at hl
  exact ⟨parse_safe lim p, hl, hc, report_shrinks hp, fun hd => hd.bounded hp⟩

def garbled : Bytes :=
  ping ++ ascii "X\n"

-- What is left of it behind the request.
def garbledRest : ByteBuf where
  data  := garbled
  start := 18
  le    := by decide

-- A request, a call that fails, and another one after that.
theorem usage_total_garbled :
    ∃ p buf, Usage {} garbled [pingRequest] p buf ∧ buf.view <:+ garbled ∧ 18 + p.consumed + buf.size = 20 := by
  let bare := ParseStatus.badRequest "bare LF in request line (strict CRLF required)"
  have c₁ : Strict.parse unlimited {} {} { data := garbled } = some (.request pingRequest, {}, garbledRest) := by
    decide +kernel
  have c₂ : Strict.parse unlimited {} {} garbledRest = some (bare, { scan := 1 }, garbledRest) := by
    decide +kernel
  have c₃ : Strict.parse unlimited {} { scan := 1 } garbledRest = some (bare, { scan := 1 }, garbledRest) := by
    decide +kernel
  have h : Usage {} garbled [pingRequest] _ _ :=
    .call (.call (.call (.append false garbled .fresh) c₁) c₂) c₃
  obtain ⟨_, hl, hs, _⟩ := usage_total h
  exact ⟨_, _, h, hs, hl⟩

end Http.Parser
