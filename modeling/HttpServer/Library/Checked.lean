import HttpServer.Library.Text

-- Accesses to memory and arithmetic on counters that fail instead of going wrong.
namespace Checked

variable {α σ β : Type*}

def get (s : List α) (i : Nat) : Option α :=
  s[i]?

def front (s : List α) : Option α :=
  s.head?

def back (s : List α) : Option α :=
  s.getLast?

def substr (s : List α) (pos len : Nat) : Option (List α) :=
  if pos ≤ s.length then some (Text.substr s pos len) else none

def substrFrom (s : List α) (pos : Nat) : Option (List α) :=
  if pos ≤ s.length then some (s.drop pos) else none

-- The results of additions and multiplications have to be representable.
def add (fits : Nat → Bool) (a b : Nat) : Option Nat :=
  if fits (a + b) then some (a + b) else none

def mul (fits : Nat → Bool) (a b : Nat) : Option Nat :=
  if fits (a * b) then some (a * b) else none

def sub (a b : Nat) : Option Nat :=
  if b ≤ a then some (a - b) else none

-- A loop whose body goes on with a new state or leaves with a result. It fails if its body does, or
-- if it is still not done after the given number of rounds.
def loop (body : σ → Option (σ ⊕ β)) : Nat → σ → Option β
  | 0, _ => none
  | n + 1, s =>
    match body s with
    | none          => none
    | some (.inl s) => loop body n s
    | some (.inr r) => some r

variable {s : List α} {fits : Nat → Bool} {a b c m n pos len i : Nat}

theorem get_eq (h : i < s.length) : get s i = some s[i] :=
  List.getElem?_eq_getElem h

theorem substr_eq (h : pos ≤ s.length) : substr s pos len = some (Text.substr s pos len) :=
  if_pos h

theorem substrFrom_eq (h : pos ≤ s.length) : substrFrom s pos = some (s.drop pos) :=
  if_pos h

theorem sub_eq (h : b ≤ a) : sub a b = some (a - b) :=
  if_pos h

theorem add_eq (hf : ∀ n ≤ m, fits n = true) (h : a + b ≤ m) : add fits a b = some (a + b) :=
  if_pos (hf _ h)

theorem mul_eq (hf : ∀ n ≤ m, fits n = true) (h : a * b ≤ m) : mul fits a b = some (a * b) :=
  if_pos (hf _ h)

-- The rule for loops with a variant: whatever is left to do after a round serves what was to be done
-- before it.
theorem loop_spec {body : σ → Option (σ ⊕ β)} (inv : σ → Prop) (variant : σ → Nat)
    (post : σ → β → Prop)
    (hb : ∀ s, inv s → (∃ r, body s = some (.inr r) ∧ post s r) ∨
      ∃ s', body s = some (.inl s') ∧ inv s' ∧ variant s' < variant s ∧ ∀ r, post s' r → post s r)
    {s : σ} (hi : inv s) (hn : variant s < n) : ∃ r, loop body n s = some r ∧ post s r := by
  induction n generalizing s
  case zero => omega
  case succ n ih =>
    match hb s hi with
    | .inl ⟨r, hr, hp⟩ => exact ⟨r, by simp [loop, hr], hp⟩
    | .inr ⟨s', hs, hi', hv, hp⟩ =>
      have ⟨r, hr, hp'⟩ := ih hi' (by omega)
      exact ⟨r, by simp [loop, hs, hr], hp r hp'⟩

-- The same if `f` tells the result from any state that meets the invariant.
theorem loop_eq {body : σ → Option (σ ⊕ β)} (inv : σ → Prop) (variant : σ → Nat) (f : σ → β)
    (hb : ∀ s, inv s → body s = some (.inr (f s)) ∨
      ∃ s', body s = some (.inl s') ∧ inv s' ∧ variant s' < variant s ∧ f s' = f s)
    {s : σ} (hi : inv s) (hn : variant s < n) : loop body n s = some (f s) := by
  have hs (s : σ) (hi : inv s) : (∃ r, body s = some (.inr r) ∧ r = f s) ∨
      ∃ s', body s = some (.inl s') ∧ inv s' ∧ variant s' < variant s ∧ ∀ r, r = f s' → r = f s := by
    match hb s hi with
    | .inl h => exact .inl ⟨_, h, rfl⟩
    | .inr ⟨s', hs, hi', hv, hf⟩ => exact .inr ⟨s', hs, hi', hv, fun _ h => h.trans hf⟩
  have ⟨r, hr, hp⟩ := loop_spec inv variant (fun s r => r = f s) hs hi hn
  rw [hr, hp]

end Checked
