import HttpServer.Parser.Theorems.Limits
import HttpServer.Parser.Theorems.Stable
import HttpServer.Parser.Theorems.Totality

open Text

namespace Http.Parser

-- What `line_ready` is to find out, by a search of the whole buffer.
def searchLine (buf : Bytes) : Line :=
  match buf.findIdx? (· == lf) with
  | none         => .pending
  | some 0       => .bareLf
  | some (i + 1) => if buf[i]? = some cr then .ready i else .bareLf

variable {lim : ParserLimits} {p : Parser} {b : Bytes} {n : Nat} {busy : Bool}

theorem lineReady_search (h : ScanOk p b) : (lineReady p b).1 = searchLine b := by
  have hf : find b lf 0 = b.findIdx? (· == lf) := by
    simp [find, Option.map_id']
  simp only [lineReady, searchLine, find_scan h, hf]
  rcases b.findIdx? (· == lf) with _ | _ | i
  · rfl
  · rfl
  · by_cases hc : b[i]? = some cr <;> simp [hc]

-- The cursor never gets ahead of a line end, in none of the states that share it: whichever line a
-- parser looks for next, it finds the one that a search from the start of the buffer would find.
theorem turns_scan (h : Turns lim n busy p b) :
    p.scan ≤ b.length ∧ lf ∉ b.take p.scan ∧
    (lineReady p b).1 = searchLine b ∧
    (∀ buf : ByteBuf, buf.view = b →
      ∃ scan, Strict.lineReady unlimited p buf = some (searchLine b, scan)) ∧
    (pass lim p.rewind b).rewind = (pass lim p b).rewind ∧
    (busy = false → ∀ {st q c}, parse lim p b = (st, q, c) → ¬IsError st → Turns lim n false q c) := by
  have hs : ScanOk p b := h.invariant.scan
  refine ⟨hs.le, hs.free, lineReady_search hs, fun buf hv => ?_, pass_rewind hs,
    fun hb st q c hp hn => ?_⟩
  case refine_1 =>
    subst hv
    have hl : Strict.lineReady unlimited p buf = _ :=
      Strict.lineReady_eq (fun _ _ => rfl) buf (Nat.le_refl _)
    exact ⟨(lineReady p buf.view).2, by rw [hl, ← lineReady_search hs]⟩
  case refine_2 =>
    subst hb
    exact h.call hp hn

def opening : Bytes :=
  ascii "GET / HTTP/1.1\r"

-- The end of a line arrives in two pieces.
theorem turns_scan_opening :
    ∃ p, Turns {} (opening.length + 1) false p (opening ++ [lf]) ∧ p.scan = 15 ∧
      (lineReady p (opening ++ [lf])).1 = searchLine (opening ++ [lf]) ∧
      searchLine (opening ++ [lf]) = .ready 14 := by
  have hp : parse {} {} opening = (.needMore, { scan := 15 }, opening) := by decide +kernel
  have h₀ : Turns {} (0 + opening.length) false {} opening := .receive opening .fresh
  rw [Nat.zero_add] at h₀
  have h₁ : Turns {} opening.length false { scan := 15 } opening :=
    (turns_scan h₀).2.2.2.2.2 rfl hp id
  have h₂ : Turns {} (opening.length + 1) false { scan := 15 } (opening ++ [lf]) := .receive [lf] h₁
  exact ⟨_, h₂, rfl, (turns_scan h₂).2.2.1, by decide⟩

end Http.Parser
