import Mathlib.Algebra.Group.Nat.Defs
import Mathlib.Tactic.Common
import Mathlib.Data.List.Infix

namespace Resumable

-- What one call of a resumable reader reports.
inductive Verdict (ε φ : Type*)
  | more
  | emit (e : ε)
  | stop (f : φ)

variable {σ β ε φ : Type*}

-- A call gets the reader's state and its buffer and leaves a new state and what it did not consume.
abbrev Call (σ β ε φ : Type*) := σ → List β → Verdict ε φ × σ × List β

-- Calls until the reader needs more input or stops, with a bound on their number.
def drain (call : Call σ β ε φ) : Nat → σ → List β → List ε × Option φ × σ × List β
  | 0, s, b => ([], none, s, b)
  | n + 1, s, b =>
    match call s b with
    | (.more, s, b)   => ([], none, s, b)
    | (.stop f, s, b) => ([], some f, s, b)
    | (.emit e, s, b) =>
      let (es, f, s, b) := drain call n s b
      (e :: es, f, s, b)

-- The input arrives in pieces; each one is appended to the buffer, which is then drained. The
-- second component is `none` if the reader waits for more input in the end.
def drive (call : Call σ β ε φ) (s : σ) (b : List β) : List (List β) → List ε × Option φ
  | [] => ([], none)
  | p :: ps =>
    match drain call ((b ++ p).length + 1) s (b ++ p) with
    | (es, some f, _, _) => (es, some f)
    | (es, none, s, b) =>
      let (es', f) := drive call s b ps
      (es ++ es', f)

-- What the calls of a reader preserve. `i` is the input that has arrived and `es` what the calls have
-- emitted so far.
structure Preserved (call : Call σ β ε φ) (R : List β → List ε → σ → List β → Prop) : Prop where
  receive : ∀ {i es s b} (t), R i es s b → R (i ++ t) es s (b ++ t)
  more : ∀ {i es s b s' b'}, R i es s b → call s b = (.more, s', b') → R i es s' b'
  emit : ∀ {i es s b e s' b'}, R i es s b → call s b = (.emit e, s', b') → R i (es ++ [e]) s' b'

namespace Preserved

variable {call : Call σ β ε φ} {R : List β → List ε → σ → List β → Prop} {s s' : σ}
variable {i b b' : List β} {es es' : List ε}

theorem drain_waits (x : Preserved call R) (h : R i es s b)
    (hd : drain call n s b = (es', none, s', b')) : R i (es ++ es') s' b' := by
  induction n generalizing s b es es'
  case zero =>
    cases hd
    simpa using h
  case succ n ih =>
    simp only [drain] at hd
    split at hd
    case h_1 hc =>
      cases hd
      simpa using x.more h hc
    case h_2 => cases hd
    case h_3 hc =>
      generalize hr : drain call n _ _ = r at hd
      match r, hd with
      | (_, _, _, _), rfl => simpa using ih (x.emit h hc) hr

theorem drain_stops (x : Preserved call R) (h : R i es s b)
    (hd : drain call n s b = (es', some f, s', b')) :
    ∃ s₁ b₁ s₂ b₂, R i (es ++ es') s₁ b₁ ∧ call s₁ b₁ = (.stop f, s₂, b₂) := by
  induction n generalizing s b es es'
  case zero => cases hd
  case succ n ih =>
    simp only [drain] at hd
    split at hd
    case h_1 => cases hd
    case h_2 hc =>
      cases hd
      exact ⟨_, _, _, _, by simpa using h, hc⟩
    case h_3 hc =>
      generalize hr : drain call n _ _ = r at hd
      match r, hd with
      | (_, _, _, _), rfl => simpa using ih (x.emit h hc) hr

-- A reader that waits has seen all of the input, and one that stops does so in a call.
theorem drive_rule (x : Preserved call R) (h : R i es s b) (ps : List (List β)) :
    ((drive call s b ps).2 = none →
      ∃ s' b', R (i ++ ps.flatten) (es ++ (drive call s b ps).1) s' b') ∧
    (∀ f, (drive call s b ps).2 = some f → ∃ i' t s₁ b₁ s₂ b₂, i ++ ps.flatten = i' ++ t ∧
      R i' (es ++ (drive call s b ps).1) s₁ b₁ ∧ call s₁ b₁ = (.stop f, s₂, b₂)) := by
  induction ps generalizing i es s b
  case nil => exact ⟨fun _ => ⟨s, b, by simpa [drive] using h⟩, by simp [drive]⟩
  case cons p ps ih =>
    simp only [drive, List.flatten_cons, ← List.append_assoc]
    split
    case h_1 es' f _ _ hd =>
      refine ⟨by simp, fun g hg => ?_⟩
      cases hg
      have ⟨s₁, b₁, s₂, b₂, hr, hc⟩ := x.drain_stops (x.receive p h) hd
      exact ⟨i ++ p, ps.flatten, s₁, b₁, s₂, b₂, rfl, hr, hc⟩
    case h_2 es' s' b' hd =>
      have hi := ih (x.drain_waits (x.receive p h) hd)
      simpa only [List.append_assoc] using hi

end Preserved

-- A meaning `ref` for whole inputs explains a reader, if every call can be seen as a part of it,
-- no matter what input `t` follows. Nothing is asked of calls that stop in a `lossy` way.
structure Explains
    (call : Call σ β ε φ) (inv : σ → List β → Prop) (lossy : φ → Prop)
    (ref : σ → List β → List ε × Option φ) : Prop where
  append : ∀ {s b} (t), inv s b → inv s (b ++ t)
  more : ∀ {s b s' b'}, inv s b → call s b = (.more, s', b') →
    inv s' b' ∧ ref s' b' = ([], none) ∧ ∀ t, ref s (b ++ t) = ref s' (b' ++ t)
  emit : ∀ {s b e s' b'}, inv s b → call s b = (.emit e, s', b') →
    inv s' b' ∧ b'.length < b.length ∧
      ∀ t, ref s (b ++ t) = (e :: (ref s' (b' ++ t)).1, (ref s' (b' ++ t)).2)
  stop : ∀ {s b f s' b'}, inv s b → call s b = (.stop f, s', b') → ¬lossy f →
    ∀ t, ref s (b ++ t) = ([], some f)

namespace Explains

variable {call : Call σ β ε φ} {inv : σ → List β → Prop} {lossy : φ → Prop}
variable {ref : σ → List β → List ε × Option φ} {s s' : σ} {b b' : List β} {es : List ε}

theorem drain_waits (x : Explains call inv lossy ref) (hi : inv s b) (hn : b.length < n)
    (h : drain call n s b = (es, none, s', b')) :
    inv s' b' ∧ ref s' b' = ([], none) ∧
      ∀ t, ref s (b ++ t) = (es ++ (ref s' (b' ++ t)).1, (ref s' (b' ++ t)).2) := by
  induction n generalizing s b es
  case zero => omega
  case succ n ih =>
    simp only [drain] at h
    split at h
    case h_1 hc =>
      cases h
      have ⟨hi', hr, ht⟩ := x.more hi hc
      exact ⟨hi', hr, by simp [ht]⟩
    case h_2 => cases h
    case h_3 hc =>
      have ⟨hi', hl, ht⟩ := x.emit hi hc
      generalize hd : drain call n _ _ = r at h
      match r, h with
      | (_, _, _, _), rfl =>
        have ⟨hi'', hr, ht'⟩ := ih hi' (by omega) hd
        exact ⟨hi'', hr, by simp [ht, ht']⟩

theorem drain_stops (x : Explains call inv lossy ref) (hi : inv s b) (hn : b.length < n)
    (h : drain call n s b = (es, some f, s', b')) (hf : ¬lossy f) (t : List β) :
    ref s (b ++ t) = (es, some f) := by
  induction n generalizing s b es
  case zero => omega
  case succ n ih =>
    simp only [drain] at h
    split at h
    case h_1 => cases h
    case h_2 hc =>
      cases h
      exact x.stop hi hc hf t
    case h_3 hc =>
      have ⟨hi', hl, ht⟩ := x.emit hi hc
      generalize hd : drain call n _ _ = r at h
      match r, h with
      | (_, _, _, _), rfl => rw [ht, ih hi' (by omega) hd]

-- A lossy stop may come too early, but all results before it are right.
theorem drain_prefix (x : Explains call inv lossy ref) (hi : inv s b) (hn : b.length < n)
    (h : drain call n s b = (es, some f, s', b')) (t : List β) : es <+: (ref s (b ++ t)).1 := by
  induction n generalizing s b es
  case zero => omega
  case succ n ih =>
    simp only [drain] at h
    split at h
    case h_1 => cases h
    case h_2 =>
      cases h
      exact List.nil_prefix
    case h_3 hc =>
      have ⟨hi', hl, ht⟩ := x.emit hi hc
      generalize hd : drain call n _ _ = r at h
      match r, h with
      | (_, _, _, _), rfl =>
        rw [ht]
        exact List.cons_prefix_cons.mpr ⟨rfl, ih hi' (by omega) hd⟩

theorem drive_spec (x : Explains call inv lossy ref) (hi : inv s b) (hr : ref s b = ([], none))
    (ps : List (List β)) :
    ((∀ f, (drive call s b ps).2 = some f → ¬lossy f) →
      drive call s b ps = ref s (b ++ ps.flatten)) ∧
    (drive call s b ps).1 <+: (ref s (b ++ ps.flatten)).1 := by
  induction ps generalizing s b
  case nil => simp [drive, hr]
  case cons p ps ih =>
    have hi' := x.append p hi
    simp only [drive, List.flatten_cons, ← List.append_assoc]
    split
    case h_1 es f _ _ hd =>
      refine ⟨fun hf => ?_, x.drain_prefix hi' (by omega) hd _⟩
      exact (x.drain_stops hi' (by omega) hd (hf _ rfl) _).symm
    case h_2 es s' b' hd =>
      have ⟨hi'', hr', ht⟩ := x.drain_waits hi' (by omega) hd
      have ⟨he, hp⟩ := ih hi'' hr'
      rw [ht]
      exact ⟨fun hf => by simp [← he hf], (List.prefix_append_right_inj es).mpr hp⟩

-- The results do not depend on how the input was cut into pieces.
theorem drive_agree (x : Explains call inv lossy ref) (hi : inv s b) (hr : ref s b = ([], none))
    {ps qs : List (List β)} (h : ps.flatten = qs.flatten) :
    ((∀ f, (drive call s b ps).2 = some f → ¬lossy f) →
      (∀ f, (drive call s b qs).2 = some f → ¬lossy f) →
        drive call s b ps = drive call s b qs) ∧
    ((drive call s b ps).1 <+: (drive call s b qs).1 ∨
      (drive call s b qs).1 <+: (drive call s b ps).1) := by
  have ⟨hp, hp'⟩ := x.drive_spec hi hr ps
  have ⟨hq, hq'⟩ := x.drive_spec hi hr qs
  rw [h] at hp hp'
  exact ⟨fun h₁ h₂ => (hp h₁).trans (hq h₂).symm, List.prefix_or_prefix_of_prefix hp' hq'⟩

end Explains
end Resumable
