import HttpServer.Objects.Args

namespace Http.Args

variable {env : Env} {s s' : State} {cfg cfg' : Settings} {es : List Event} {args : List Bytes}

-- The size in an option, if it is the one asked for.
def Event.size (o : Opt) : Event → Option Nat
  | .given o' optarg => if o' = o then parseSize optarg else none
  | .unknown => none

-- The size that an option was given last, or else the one it has anyway.
def given (o : Opt) (n : Nat) (es : List Event) : Nat :=
  es.foldl (fun n e => (e.size o).getD n) n

def requested (args : List Bytes) (o : Opt) (n : Nat) : Nat :=
  given o n (getoptLong none args).1

theorem size_cfg (s : State) (opt : String) (store : Settings → Nat → Settings) (ok : Nat → Bool)
    (optarg : Bytes) :
    (s.size opt store ok optarg).cfg = ((parseSize optarg).map (store s.cfg)).getD s.cfg := by
  simp only [State.size]
  cases parseSize optarg
  case none => rfl
  case some v =>
    dsimp only
    split <;> rfl

theorem number_cfg (s : State) (opt : String) (store : Settings → Nat → Settings) (ok : Nat → Bool)
    (optarg : Bytes) :
    (s.number opt store ok optarg).cfg =
      (((parseSize optarg).filter ok).map (store s.cfg)).getD s.cfg := by
  simp only [State.number]
  cases parseSize optarg
  case none => rfl
  case some v => cases h : ok v <;> simp [h, Option.filter, State.fail, State.complain]

theorem seconds_cfg (env : Env) (s : State) (opt : String) (store : Settings → Seconds → Settings)
    (optarg : Bytes) :
    (s.seconds env opt store optarg).cfg =
      ((parseDouble env optarg).map (store s.cfg)).getD s.cfg := by
  simp only [State.seconds]
  cases parseDouble env optarg
  case none => rfl
  case some v =>
    dsimp only
    split <;> rfl

-- Each of the three sizes is written by its own option and by no other.
theorem apply_sizes (env : Env) (s : State) (optarg : Bytes) (o : Opt) :
    (s.apply env optarg o).cfg.maxHeaderBytes =
      ((Event.given o optarg).size .maxHeaders).getD s.cfg.maxHeaderBytes ∧
    (s.apply env optarg o).cfg.maxBodyBytes =
      ((Event.given o optarg).size .maxBody).getD s.cfg.maxBodyBytes ∧
    (s.apply env optarg o).cfg.maxRequestBytes =
      ((Event.given o optarg).size .maxRequest).getD s.cfg.maxRequestBytes := by
  cases o <;> simp only [State.apply, size_cfg, number_cfg, seconds_cfg, Event.size]
  case port => cases parsePort optarg <;> simp [State.fail, State.complain]
  case backlog | tickMs => cases (parseSize optarg).filter _ <;> simp
  case idleTimeout | shutdownTimeout => cases parseDouble env optarg <;> simp
  all_goals simp

theorem loop_sizes (h : s.loop env es = .ok s') :
    s'.cfg.maxHeaderBytes = given .maxHeaders s.cfg.maxHeaderBytes es ∧
    s'.cfg.maxBodyBytes = given .maxBody s.cfg.maxBodyBytes es ∧
    s'.cfg.maxRequestBytes = given .maxRequest s.cfg.maxRequestBytes es := by
  induction es generalizing s
  case nil =>
    cases h
    exact ⟨rfl, rfl, rfl⟩
  case cons e es hi =>
    cases e
    case unknown => exact hi (s := s.complain _) h
    case given o optarg =>
      have ⟨h₁, h₂, h₃⟩ := apply_sizes env s optarg o
      have h : (s.apply env optarg o).loop env es = .ok s' := by
        cases o
        case help => cases h
        all_goals exact h
      simp only [given, List.foldl_cons, ← h₁, ← h₂, ← h₃]
      exact hi h

theorem raise_sizes (cfg : Settings) :
    (raise cfg).maxHeaderBytes = cfg.maxHeaderBytes ∧ (raise cfg).maxBodyBytes = cfg.maxBodyBytes ∧
    (raise cfg).maxRequestBytes =
      max cfg.maxRequestBytes ((cfg.maxBodyBytes + cfg.maxHeaderBytes) % 2 ^ 64) := by
  simp only [raise]
  split
  case isTrue hm  => exact ⟨rfl, rfl, (Nat.max_eq_right (Nat.le_of_lt hm)).symm⟩
  case isFalse hm => exact ⟨rfl, rfl, (Nat.max_eq_left (Nat.le_of_not_lt hm)).symm⟩

-- Settings are accepted only as the loop leaves them, with the cap raised.
theorem parseArgs_ok (h : parseArgs env args cfg = .ok cfg') :
    ∃ n s, State.loop env { cfg := { cfg with workers := n } } (getoptLong none args).1 = .ok s ∧
      cfg' = raise s.cfg := by
  simp only [parseArgs] at h
  split at h
  case h_1 => cases h
  case h_2 s hl =>
    refine ⟨_, s, hl, ?_⟩
    cases hr : (getoptLong none args).2
    case nil =>
      simp only [hr] at h
      split at h <;> cases h
      rfl
    case cons => simp [hr, State.complain] at h

-- The cap is what was asked for, or else the sum of two of the limits as a `std::size_t`.
theorem parseArgs_sizes (h : parseArgs env args cfg = .ok cfg') :
    cfg'.maxHeaderBytes = requested args .maxHeaders cfg.maxHeaderBytes ∧
    cfg'.maxBodyBytes = requested args .maxBody cfg.maxBodyBytes ∧
    cfg'.maxRequestBytes = max (requested args .maxRequest cfg.maxRequestBytes)
      ((requested args .maxBody cfg.maxBodyBytes +
        requested args .maxHeaders cfg.maxHeaderBytes) % 2 ^ 64) := by
  have ⟨_, s, hl, hs⟩ := parseArgs_ok h
  have ⟨h₁, h₂, h₃⟩ := loop_sizes hl
  have ⟨h₄, h₅, h₆⟩ := raise_sizes s.cfg
  subst hs
  exact ⟨h₄.trans h₁, h₅.trans h₂, by rw [h₆, h₁, h₂, h₃]; rfl⟩

end Http.Args
