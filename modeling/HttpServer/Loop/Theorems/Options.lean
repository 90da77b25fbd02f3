import HttpServer.Loop.Process
import HttpServer.Objects.Theorems.Args
import HttpServer.Objects.Theorems.Common

namespace Http.Args

-- What a setting can be.
inductive Value
  | number (n : Nat)
  | text (t : Bytes)
  | time (t : Option Nat)
  | flag (b : Bool)
  deriving DecidableEq, Repr

-- The setting that an option is for. The usage sets nothing.
def Opt.setting (cfg : Settings) : Opt → Value
  | bind            => .text cfg.bind
  | port            => .number cfg.port
  | portFile        => .text cfg.portFile
  | backlog         => .number cfg.backlog
  | workers         => .number cfg.workers
  | queueSize       => .number cfg.maxQueue
  | maxConnections  => .number cfg.maxConnections
  | maxRequestLine  => .number cfg.maxRequestLineBytes
  | maxHeaders      => .number cfg.maxHeaderBytes
  | maxBody         => .number cfg.maxBodyBytes
  | maxRequest      => .number cfg.maxRequestBytes
  | maxOutput       => .number cfg.maxOutputBytes
  | maxResponse     => .number cfg.maxResponseBytes
  | idleTimeout     => .time cfg.idleTimeout
  | shutdownTimeout => .time (some cfg.shutdownTimeout)
  | tickMs          => .number cfg.tickMs
  | verbose         => .flag cfg.verbose
  | help            => .flag false

-- The numbers that are good for an option.
def Opt.bounds : Opt → Option (Nat × Nat)
  | port                       => some (0, 65535)
  | backlog                    => some (1, 65535)
  | workers                    => some (1, 2 ^ 64 - 1)
  | queueSize | maxConnections => some (1, 2 ^ 64 - 1)
  | maxRequestLine             => some (16, 2 ^ 64 - 1)
  | maxHeaders                 => some (64, 2 ^ 64 - 1)
  | maxBody | maxRequest       => some (0, 2 ^ 64 - 1)
  | maxOutput                  => some (1024, 2 ^ 64 - 1)
  | maxResponse                => some (1, 2 ^ 64 - 1)
  | tickMs                     => some (10, 5000)
  | _                          => none

def within (bounds : Nat × Nat) (v : Bytes) : Option Value :=
  ((parseSize v).filter fun n => bounds.1 ≤ n && n ≤ bounds.2).map .number

-- What a text says for an option, if it is good for it.
def Opt.read (env : Env) (v : Bytes) : Opt → Option Value
  | bind | portFile => some (.text v)
  | verbose         => some (.flag true)
  | help            => some (.flag false)
  | idleTimeout     => ((parseDouble env v).filter (!·.negative)).map (.time ·.idle)
  | shutdownTimeout => ((parseDouble env v).filter (!·.negative)).map (.time <| some ·.shutdown)
  | o               => o.bounds.bind (within · v)

def Opt.name (o : Opt) : Bytes :=
  (opts.find? (·.2 = o)).elim [] (·.1)

namespace Event

def good (env : Env) : Event → Bool
  | given o v => (o.read env v).isSome
  | unknown   => false

def value (env : Env) (o : Opt) : Event → Option Value
  | given o' v => if o' = o then o'.read env v else none
  | unknown    => none

-- What the user is told about it.
def complaint (env : Env) : Event → Bytes
  | given o v =>
    if (o.read env v).isSome then []
    else ascii "invalid value for " ++ (ascii "--" ++ o.name) ++ ascii ": '" ++ v ++ ascii "'\n"
  | unknown => ascii "unrecognised option (see --help)\n"

end Event

-- What an option was given last, or else what it has anyway.
def last (env : Env) (o : Opt) (x : Value) (es : List Event) : Value :=
  es.foldl (fun x e => (e.value env o).getD x) x

def positional (rest : List Bytes) : Bytes :=
  rest.head?.elim [] fun arg => ascii "unexpected positional argument: '" ++ arg ++ ascii "'\n"

def defaults (env : Env) : Settings :=
  { workers := if env.hardwareConcurrency > 0 then min env.hardwareConcurrency 8 else 4 }

-- The settings have what the options say, where the cap on a request is raised.
structure Follows (env : Env) (es : List Event) (cfg : Settings) : Prop where
  setting : ∀ o ≠ .maxRequest, o.setting cfg = last env o (o.setting (defaults env)) es
  request : ∃ n, last env .maxRequest (Opt.maxRequest.setting (defaults env)) es = .number n ∧
    cfg.maxRequestBytes = max n ((cfg.maxBodyBytes + cfg.maxHeaderBytes) % 2 ^ 64)

def Value.IsWithin (bounds : Nat × Nat) (x : Value) : Prop :=
  ∃ n, x = .number n ∧ bounds.1 ≤ n ∧ n ≤ bounds.2

def InBounds (cfg : Settings) : Prop :=
  ∀ o bounds, Opt.bounds o = some bounds → (o.setting cfg).IsWithin bounds

variable {env : Env} {s s' : State} {cfg : Settings} {es : List Event} {e : Event} {v : Bytes}
  {args : List Bytes} {o : Opt} {x : Value} {n : Nat} {bounds : Nat × Nat}

theorem strtoull_lt : (strtoull v).1 < 2 ^ 64 := by
  unfold strtoull
  extract_lets t negative t digits
  split
  case isTrue  => exact Nat.two_pow_pos 64
  case isFalse =>
    split
    case isTrue    => exact Nat.sub_one_lt (Nat.two_pow_pos 64).ne'
    case isFalse h =>
      dsimp only
      split
      case isTrue  => exact Nat.mod_lt _ (Nat.two_pow_pos 64)
      case isFalse => exact Nat.lt_of_not_le h

theorem parseSize_lt (h : parseSize v = some n) : n < 2 ^ 64 := by
  simp only [parseSize] at h
  repeat' split at h
  all_goals cases h
  exact strtoull_lt

theorem within_eq (h : within bounds v = some x) : x.IsWithin bounds := by
  simp only [within, Option.map_eq_some_iff, Option.filter_eq_some_iff, Bool.and_eq_true,
    decide_eq_true_iff] at h
  have ⟨n, ⟨_, hn⟩, hx⟩ := h
  exact ⟨n, hx.symm, hn⟩

theorem read_bounds (h : o.bounds = some bounds) : o.read env v = within bounds v := by
  cases o <;> cases h <;> rfl

-- What the body of the loop does with an option.
structure Handled (env : Env) (s s' : State) (e : Event) : Prop where
  bad     : s'.bad = s.bad ++ e.complaint env
  failed  : s'.failed = (s.failed || !e.good env)
  setting : e.good env → ∀ o, o.setting s'.cfg = (e.value env o).getD (o.setting s.cfg)

namespace Handled

theorem taken (hr : o.read env v = some x) (hb : s'.bad = s.bad) (hf : s'.failed = s.failed)
    (hs : ∀ o', o'.setting s'.cfg = if o = o' then x else o'.setting s.cfg) :
    Handled env s s' (.given o v) where
  bad     := by simp [hb, Event.complaint, hr]
  failed  := by simp [hf, Event.good, hr]
  setting := by
    intro _ o'
    rw [hs o', Event.value, hr]
    split <;> rfl

theorem refused {opt : String} (hr : o.read env v = none) (hn : ascii opt = ascii "--" ++ o.name)
    (hb : s'.bad = s.bad) : Handled env s (s'.fail opt v) (.given o v) where
  bad     := by simp [State.fail, State.complain, hb, hn, Event.complaint, hr]
  failed  := by simp [State.fail, State.complain, Event.good, hr]
  setting := by simp [Event.good, hr]

-- A number is checked by the bounds of its option. If it is refused, all that counts of the state is
-- what the user has been told.
theorem checked {opt : String} {store : Settings → Nat → Settings} {ok : Nat → Bool}
    {t : Nat → State} (hb : o.bounds = some bounds) (hn : ascii opt = ascii "--" ++ o.name)
    (hk : ∀ n < 2 ^ 64, ok n = (bounds.1 ≤ n && n ≤ bounds.2))
    (hs : ∀ cfg n o', Opt.setting (store cfg n) o' = if o = o' then .number n else o'.setting cfg)
    (ht : ∀ n, (t n).bad = s.bad) :
    Handled env s ((parseSize v).elim (s.fail opt v) fun n =>
      if ok n then { s with cfg := store s.cfg n } else (t n).fail opt v) (.given o v) := by
  cases hp : parseSize v
  case none   => exact refused (by rw [read_bounds hb, within, hp]; rfl) hn rfl
  case some n =>
    have hr : o.read env v = if ok n then some (.number n) else none := by
      rw [read_bounds hb, within, hp, Option.filter_some, ← hk n (parseSize_lt hp)]
      split <;> rfl
    rw [Option.elim_some]
    split
    case isTrue h  => exact taken (by rw [hr, if_pos h]) rfl rfl (hs _ _)
    case isFalse h => exact refused (by rw [hr, if_neg h]) hn (ht n)

variable {opt : String} {store : Settings → Nat → Settings} {ok : Nat → Bool}

theorem size (hb : o.bounds = some bounds) (hn : ascii opt = ascii "--" ++ o.name)
    (hk : ∀ n < 2 ^ 64, ok n = (bounds.1 ≤ n && n ≤ bounds.2))
    (hs : ∀ cfg n o', Opt.setting (store cfg n) o' = if o = o' then .number n else o'.setting cfg) :
    Handled env s (s.size opt store ok v) (.given o v) := by
  convert checked (t := fun n => { s with cfg := store s.cfg n }) hb hn hk hs fun _ => rfl
  rw [State.size]
  cases parseSize v <;> rfl

theorem number (hb : o.bounds = some bounds) (hn : ascii opt = ascii "--" ++ o.name)
    (hk : ∀ n < 2 ^ 64, ok n = (bounds.1 ≤ n && n ≤ bounds.2))
    (hs : ∀ cfg n o', Opt.setting (store cfg n) o' = if o = o' then .number n else o'.setting cfg) :
    Handled env s (s.number opt store ok v) (.given o v) := by
  convert checked (t := fun _ => s) hb hn hk hs fun _ => rfl
  rw [State.number]
  cases parseSize v <;> rfl

theorem seconds {opt : String} {store : Settings → Seconds → Settings} {f : Seconds → Value}
    (hr : o.read env v = ((parseDouble env v).filter (!·.negative)).map f)
    (hn : ascii opt = ascii "--" ++ o.name)
    (hs : ∀ cfg n o', Opt.setting (store cfg n) o' = if o = o' then f n else o'.setting cfg) :
    Handled env s (s.seconds env opt store v) (.given o v) := by
  rw [State.seconds]
  cases hp : parseDouble env v
  case none   => exact refused (by rw [hr, hp]; rfl) hn rfl
  case some n =>
    dsimp only
    cases ho : n.negative
    case false =>
      exact taken (by rw [hr, hp, Option.filter_some, ho]; rfl) rfl rfl (hs _ _)
    case true  => exact refused (by rw [hr, hp, Option.filter_some, ho]; rfl) hn rfl

end Handled

theorem port_number :
    s.apply env v .port = s.number "--port" ({ · with port := · }) (fun n => n ≤ 65535) v := by
  rw [State.apply, State.number, parsePort]
  cases parseSize v
  case none   => rfl
  case some n =>
    by_cases hn : n ≤ 65535
    case pos => simp [hn, Nat.not_lt.mpr hn]
    case neg => simp [hn, Nat.lt_of_not_le hn]

-- Every option is checked by its bounds, and a complaint names it in full.
theorem apply_handled (env : Env) (s : State) (v : Bytes) (o : Opt) :
    Handled env s (s.apply env v o) (.given o v) := by
  cases o
  case bind | portFile | verbose | help => exact .taken rfl rfl rfl (by rintro ⟨⟩ <;> rfl)
  case idleTimeout | shutdownTimeout =>
    rw [State.apply]
    exact .seconds rfl (by decide) (by rintro _ _ ⟨⟩ <;> rfl)
  case port =>
    rw [port_number]
    exact .number rfl (by decide) (by grind) (by rintro _ _ ⟨⟩ <;> rfl)
  case backlog | tickMs =>
    rw [State.apply]
    exact .number rfl (by decide) (by grind) (by rintro _ _ ⟨⟩ <;> rfl)
  all_goals
    rw [State.apply]
    exact .size rfl (by decide) (by grind) (by rintro _ _ ⟨⟩ <;> rfl)

theorem complain_handled :
    Handled env s (s.complain (ascii "unrecognised option (see --help)\n")) .unknown where
  bad     := rfl
  failed  := by simp [State.complain, Event.good]
  setting := by simp [Event.good]

theorem loop_cons (env : Env) (s : State) (es : List Event) (he : ∀ v, e ≠ .given .help v) :
    ∃ s₁, s.loop env (e :: es) = s₁.loop env es ∧ Handled env s s₁ e := by
  cases e
  case unknown   => exact ⟨_, rfl, complain_handled⟩
  case given o v =>
    refine ⟨s.apply env v o, ?_, apply_handled env s v o⟩
    cases o
    case help => exact absurd rfl (he v)
    all_goals rfl

-- What the loop has done when it is over.
structure Looped (env : Env) (s s' : State) (es : List Event) : Prop where
  bad     : s'.bad = s.bad ++ es.flatMap (·.complaint env)
  failed  : s'.failed = (s.failed || !es.all (·.good env))
  setting : es.all (·.good env) → ∀ o, o.setting s'.cfg = last env o (o.setting s.cfg) es

theorem Handled.looped {s₁ : State} (h : Handled env s s₁ e) (hl : Looped env s₁ s' es) :
    Looped env s s' (e :: es) where
  bad     := by rw [hl.bad, h.bad, List.flatMap_cons, List.append_assoc]
  failed  := by rw [hl.failed, h.failed, List.all_cons, Bool.not_and, Bool.or_assoc]
  setting := by
    intro hg o
    rw [List.all_cons, Bool.and_eq_true] at hg
    rw [hl.setting hg.right o, h.setting hg.left o]
    rfl

theorem loop_looped (env : Env) (s : State) (h : ∀ v, .given .help v ∉ es) :
    ∃ s', s.loop env es = .ok s' ∧ Looped env s s' es := by
  induction es generalizing s
  case nil => exact ⟨s, rfl, by simp, by simp, fun _ _ => rfl⟩
  case cons e es hi =>
    have ⟨s₁, he, h₁⟩ := loop_cons env s es fun v hv => h v (hv ▸ .head _)
    have ⟨s', hs, hl⟩ := hi s₁ fun v hv => h v (.tail _ hv)
    exact ⟨s', he.trans hs, h₁.looped hl⟩

theorem loop_help (env : Env) (s : State) (h : .given .help v ∈ es) :
    ∃ cfg, s.loop env es = .error cfg := by
  induction es generalizing s
  case nil => cases h
  case cons e es hi =>
    by_cases he : ∃ v, e = .given .help v
    case pos =>
      have ⟨_, he⟩ := he
      exact ⟨s.cfg, he ▸ rfl⟩
    case neg =>
      have ⟨s₁, hs, _⟩ := loop_cons env s es fun v hv => he ⟨v, hv⟩
      have ⟨cfg, hc⟩ := hi s₁ ((List.mem_cons.mp h).resolve_left fun hv => he ⟨v, hv.symm⟩)
      exact ⟨cfg, hs.trans hc⟩

theorem value_read (h : e.value env o = some x) : ∃ v, o.read env v = some x := by
  cases e
  case unknown    => cases h
  case given o' v =>
    rw [Event.value] at h
    split at h
    case isTrue ho => exact ⟨v, ho ▸ h⟩
    case isFalse   => cases h

theorem last_within (env : Env) (es : List Event) (hb : o.bounds = some bounds)
    (hx : x.IsWithin bounds) : (last env o x es).IsWithin bounds := by
  induction es generalizing x
  case nil => exact hx
  case cons e es hi =>
    apply hi
    dsimp only
    cases hv : e.value env o
    case none   => exact hx
    case some y =>
      have ⟨_, hr⟩ := value_read hv
      exact within_eq (read_bounds hb ▸ hr)

theorem defaults_bounded (env : Env) : InBounds (defaults env) := by
  intro o bounds h
  cases o <;> cases h
  case workers =>
    refine ⟨_, rfl, ?_⟩
    dsimp only [defaults]
    split <;> omega
  all_goals exact ⟨_, rfl, by simp [defaults], by simp [defaults]⟩

theorem raise_setting (h : o ≠ .maxRequest) : o.setting (raise cfg) = o.setting cfg := by
  rw [raise]
  split
  case isFalse => rfl
  case isTrue  =>
    cases o
    case maxRequest => exact absurd rfl h
    all_goals rfl

theorem Follows.raised
    (h : ∀ o, o.setting cfg = last env o (o.setting (defaults env)) es) :
    Follows env es (raise cfg) where
  setting o ho := by rw [raise_setting ho, h o]
  request := by
    have ⟨h₁, h₂, h₃⟩ := raise_sizes cfg
    refine ⟨cfg.maxRequestBytes, (h .maxRequest).symm, ?_⟩
    rw [h₁, h₂, h₃]

theorem Follows.bounded (h : Follows env es cfg) : InBounds cfg := by
  intro o bounds hb
  have hl := last_within env es hb (defaults_bounded env o bounds hb)
  by_cases ho : o = .maxRequest
  case neg => rwa [h.setting o ho]
  case pos =>
    cases ho
    cases hb
    have ⟨n, hn, hc⟩ := h.request
    have ⟨m, hm, hlo, hhi⟩ := hl
    cases hn.symm.trans hm
    refine ⟨_, rfl, Nat.zero_le _, hc ▸ max_le hhi ?_⟩
    exact Nat.le_sub_one_of_lt (Nat.mod_lt _ (Nat.two_pow_pos 64))

theorem parseArgs_usage (env : Env) (h : .given .help v ∈ (getoptLong none args).1) :
    ∃ cfg, parseArgs env args {} = .error (usage cfg, true) := by
  have ⟨cfg, hc⟩ := loop_help env { cfg := defaults env } h
  refine ⟨cfg, ?_⟩
  simp only [parseArgs]
  split
  case h_1 hl =>
    cases hl.symm.trans hc
    rfl
  case h_2 hl => cases hl.symm.trans hc

theorem parseArgs_done (env : Env) (h : ∀ v, .given .help v ∉ (getoptLong none args).1) :
    ∃ s, Looped env { cfg := defaults env } s (getoptLong none args).1 ∧ parseArgs env args {} =
      if s.failed || !(getoptLong none args).2.isEmpty then
        .error (s.bad ++ positional (getoptLong none args).2 ++ usage (raise s.cfg), false)
      else .ok (raise s.cfg) := by
  have ⟨s, hs, hl⟩ := loop_looped env { cfg := defaults env } h
  refine ⟨s, hl, ?_⟩
  simp only [parseArgs]
  split
  case h_1 hl => cases hl.symm.trans hs
  case h_2 hl =>
    cases hl.symm.trans hs
    cases (getoptLong none args).2
    case nil         => simp [positional]
    case cons arg xs => simp [positional, State.complain]

theorem parseArgs_accepted (h : ∀ v, .given .help v ∉ (getoptLong none args).1)
    (hg : (getoptLong none args).1.all (·.good env)) (hr : (getoptLong none args).2 = []) :
    ∃ cfg, parseArgs env args {} = .ok cfg ∧ Follows env (getoptLong none args).1 cfg := by
  have ⟨s, hl, hp⟩ := parseArgs_done env h
  rw [hl.failed, hg, hr] at hp
  exact ⟨raise s.cfg, hp, .raised (hl.setting hg)⟩

theorem parseArgs_refused (h : ∀ v, .given .help v ∉ (getoptLong none args).1)
    (hg : ¬((getoptLong none args).1.all (·.good env) ∧ (getoptLong none args).2 = [])) :
    ∃ cfg, parseArgs env args {} = .error ((getoptLong none args).1.flatMap (·.complaint env) ++
      positional (getoptLong none args).2 ++ usage cfg, false) := by
  have ⟨s, hl, hp⟩ := parseArgs_done env h
  rw [← List.isEmpty_iff, ← Bool.and_eq_true, Bool.not_eq_true] at hg
  rw [hl.failed, Bool.false_or, ← Bool.not_and, hg, hl.bad] at hp
  exact ⟨raise s.cfg, hp⟩

-- An argument for an option.
def Opt.word (o : Opt) (v : Bytes) : Bytes :=
  ascii "--" ++ (o.name ++ if o.requiredArgument then '='.toUInt8 :: v else [])

theorem digit_plain : ∀ c, (decDigit c).isSome →
    isSpace c = false ∧ c ≠ '-'.toUInt8 ∧ c ≠ '+'.toUInt8 ∧ isDigit c ∧
      (c - '0'.toUInt8).toNat = (decDigit c).getD 0 :=
  forall_byte (by decide +kernel)

theorem fold_digits (h : ∀ c ∈ v, (decDigit c).isSome) :
    v.foldl (fun v c => v * 10 + (c - '0'.toUInt8).toNat) n = Numeral.valueFrom decDigit 10 n v := by
  induction v generalizing n
  case nil => rfl
  case cons c cs hi =>
    have ⟨_, _, _, _, hc⟩ := digit_plain c (h c (.head _))
    rw [List.foldl_cons, hc, hi fun c hc => h c (.tail _ hc)]
    rfl

theorem strtoull_decimal (h : n < 2 ^ 64) : strtoull (decimal n) = (n, [], false) := by
  have hd := decimal_digits n
  have hf := fold_digits (n := 0) hd
  have ht : (decimal n).takeWhile isDigit = decimal n :=
    List.takeWhile_eq_self_iff.mpr fun c hc => (digit_plain c (hd c hc)).2.2.2.1
  rw [decimal_value] at hf
  cases hv : decimal n
  case nil => exact absurd hv (decimal_ne_nil n)
  case cons c cs =>
    rw [hv] at hf ht hd
    have ⟨hs, hm, hp, _⟩ := digit_plain c (hd c (.head _))
    have hw : (c :: cs).dropWhile isSpace = c :: cs := by simp [hs]
    simp only [strtoull, hw, List.head?_cons, Option.some.injEq, hm, hp, decide_false, Bool.or_self,
      Bool.false_eq_true, if_false, ht, hf, List.isEmpty_cons, Nat.not_le.mpr h, List.drop_length]

theorem parseSize_decimal (h : n < 2 ^ 64) : parseSize (decimal n) = some n := by
  have hn := decimal_ne_nil n
  simp [parseSize, strtoull_decimal h, hn, Ne.symm]

theorem bounds_lt (h : o.bounds = some bounds) : bounds.2 < 2 ^ 64 := by
  cases o <;> cases h <;> decide

theorem findLong_name (o : Opt) : findLong o.name = some o := by
  cases o <;> decide

theorem name_ne_nil (o : Opt) : o.name ≠ [] := by
  cases o <;> decide

theorem name_plain (o : Opt) : ∀ c ∈ o.name, c ≠ '='.toUInt8 := by
  have h : o.name.all (· != '='.toUInt8) = true := by cases o <;> rfl
  simpa using h

theorem takeWhile_name (o : Opt) {w : Bytes} (h : ∀ c ∈ w.head?, c = '='.toUInt8) :
    (o.name ++ w).takeWhile (· ≠ '='.toUInt8) = o.name := by
  rw [List.takeWhile_append_of_pos (by simpa using name_plain o)]
  cases w
  case nil       => simp
  case cons c cs => simp [h c rfl]

theorem longOption_word (o : Opt) (v : Bytes) :
    longOption (o.name ++ if o.requiredArgument then '='.toUInt8 :: v else []) =
      ([.given o (if o.requiredArgument then v else [])], none) := by
  have hw : ∀ c ∈ (if o.requiredArgument then '='.toUInt8 :: v else []).head?, c = '='.toUInt8 := by
    split <;> simp
  rw [longOption, takeWhile_name o hw, List.drop_left, findLong_name]
  dsimp only
  cases o.requiredArgument <;> rfl

theorem getoptLong_word (o : Opt) (v : Bytes) (args : List Bytes) :
    getoptLong none (o.word v :: args) =
      (.given o (if o.requiredArgument then v else []) :: (getoptLong none args).1,
        (getoptLong none args).2) := by
  have hp : (ascii "--").isPrefixOf (o.word v) := by simp [Opt.word]
  have hd : (o.word v).drop 2 = o.name ++ if o.requiredArgument then '='.toUInt8 :: v else [] := rfl
  have hn : o.word v ≠ ascii "--" := by
    intro h
    have h := congrArg (List.drop 2) h
    exact name_ne_nil o (List.append_eq_nil_iff.mp (hd ▸ h)).left
  rw [getoptLong, if_neg hn, if_pos hp, hd, longOption_word]
  rfl

theorem getoptLong_words (l : List Opt) (f : Opt → Bytes) :
    getoptLong none (l.map fun o => o.word (f o)) =
      (l.map fun o => .given o (if o.requiredArgument then f o else []), []) := by
  induction l
  case nil => rfl
  case cons o l hi => rw [List.map_cons, getoptLong_word, hi, List.map_cons]

-- An option that takes no argument does not look at one.
theorem read_argument (env : Env) (v : Bytes) (o : Opt) :
    o.read env (if o.requiredArgument then v else []) = o.read env v := by
  cases o <;> rfl

theorem read_setting (hb : o.bounds = some bounds) (hx : x.IsWithin bounds) :
    ∃ v, o.read env v = some x := by
  have ⟨n, hn, hlo, hhi⟩ := hx
  refine ⟨decimal n, ?_⟩
  rw [read_bounds hb, within, parseSize_decimal (Nat.lt_of_le_of_lt hhi (bounds_lt hb)), hn]
  simp [Option.filter_some, hlo, hhi]

-- The options may come in any order, since each of them has its own setting.
theorem last_given {l : List Opt} {f : Opt → Bytes}
    (h : ∀ o ∈ l, o.read env (f o) = some (o.setting cfg)) :
    last env o x (l.map fun o => .given o (f o)) = if o ∈ l then o.setting cfg else x := by
  induction l generalizing x
  case nil => rfl
  case cons o' l hi =>
    rw [List.map_cons, last, List.foldl_cons]
    refine (hi fun o ho => h o (.tail _ ho)).trans ?_
    rw [Event.value, h o' (.head _)]
    by_cases ho : o' = o
    case pos => simp [ho]
    case neg => simp [ho, Ne.symm ho]

theorem last_eq (env : Env) (o : Opt) (x : Value) (es : List Event) :
    last env o x es = x ∨ ∃ v, o.read env v = some (last env o x es) := by
  induction es generalizing x
  case nil => exact .inl rfl
  case cons e es hi =>
    cases hv : e.value env o
    case none =>
      have hl : last env o x (e :: es) = last env o x es := by simp [last, hv]
      exact hl ▸ hi x
    case some y =>
      have hl : last env o x (e :: es) = last env o y es := by simp [last, hv]
      rw [hl]
      cases hi y
      case inl h =>
        rw [h]
        exact .inr (value_read hv)
      case inr h => exact .inr h

theorem settings_ext {cfg' : Settings} (h : ∀ o, Opt.setting cfg o = o.setting cfg') :
    cfg = cfg' := by
  obtain ⟨⟨_⟩, _⟩ := cfg
  obtain ⟨⟨_⟩, _⟩ := cfg'
  cases h .bind
  cases h .port
  cases h .portFile
  cases h .backlog
  cases h .workers
  cases h .queueSize
  cases h .maxConnections
  cases h .maxRequestLine
  cases h .maxHeaders
  cases h .maxBody
  cases h .maxRequest
  cases h .maxOutput
  cases h .maxResponse
  cases h .idleTimeout
  cases h .shutdownTimeout
  cases h .tickMs
  cases h .verbose
  rfl

theorem Follows.eq {cfg' : Settings} (hf : Follows env es cfg')
    (hl : ∀ o, last env o (o.setting (defaults env)) es = o.setting cfg)
    (hm : (cfg.maxBodyBytes + cfg.maxHeaderBytes) % 2 ^ 64 ≤ cfg.maxRequestBytes) : cfg' = cfg := by
  have hs : ∀ o ≠ .maxRequest, Opt.setting cfg' o = o.setting cfg := fun o ho =>
    (hf.setting o ho).trans (hl o)
  apply settings_ext
  intro o
  by_cases ho : o = .maxRequest
  case neg => exact hs o ho
  case pos =>
    have ⟨n, hn, hr⟩ := hf.request
    cases hn.symm.trans (hl .maxRequest)
    have hb : cfg'.maxBodyBytes = cfg.maxBodyBytes := Value.number.inj (hs .maxBody (by decide))
    have hh : cfg'.maxHeaderBytes = cfg.maxHeaderBytes := Value.number.inj (hs .maxHeaders (by decide))
    rw [hb, hh, max_eq_left hm] at hr
    rw [ho, Opt.setting, Opt.setting, hr]

theorem parseArgs_words {l : List Opt} {f : Opt → Bytes} (hh : .help ∉ l)
    (hr : ∀ o ∈ l, o.read env (f o) = some (o.setting cfg))
    (hd : ∀ o ∉ l, o.setting cfg = o.setting (defaults env))
    (hm : (cfg.maxBodyBytes + cfg.maxHeaderBytes) % 2 ^ 64 ≤ cfg.maxRequestBytes) :
    parseArgs env (l.map fun o => o.word (f o)) {} = .ok cfg := by
  have hr : ∀ o ∈ l, o.read env (if o.requiredArgument then f o else []) = some (o.setting cfg) :=
    fun o ho => (read_argument env (f o) o).trans (hr o ho)
  have hw := getoptLong_words l f
  have hn : ∀ v, .given .help v ∉ (getoptLong none (l.map fun o => o.word (f o))).1 := by
    intro v hv
    rw [hw, List.mem_map] at hv
    have ⟨o, ho, he⟩ := hv
    cases he
    exact hh ho
  have hg : (getoptLong none (l.map fun o => o.word (f o))).1.all (·.good env) := by
    rw [hw, List.all_map, List.all_eq_true]
    intro o ho
    exact Option.isSome_of_eq_some (hr o ho)
  have ⟨cfg', hp, hf⟩ := parseArgs_accepted hn hg (by rw [hw])
  rw [hw] at hf
  rw [hp, hf.eq ?_ hm]
  intro o
  rw [last_given hr]
  split
  case isTrue     => rfl
  case isFalse ho => exact (hd o ho).symm

theorem parseArgs_follows (h : parseArgs env args {} = .ok cfg) :
    Follows env (getoptLong none args).1 cfg := by
  have hn : ∀ v, .given .help v ∉ (getoptLong none args).1 := by
    intro v hv
    have ⟨_, hp⟩ := parseArgs_usage env hv
    cases h.symm.trans hp
  by_cases hg : (getoptLong none args).1.all (·.good env) ∧ (getoptLong none args).2 = []
  case pos =>
    have ⟨_, hp, hf⟩ := parseArgs_accepted hn hg.left hg.right
    cases h.symm.trans hp
    exact hf
  case neg =>
    have ⟨_, hp⟩ := parseArgs_refused hn hg
    cases h.symm.trans hp

-- An option need not be given if its setting is the default.
theorem setting_given (hb : InBounds cfg)
    (ht : ∀ o ∈ [Opt.idleTimeout, .shutdownTimeout],
      o.setting cfg = o.setting (defaults env) ∨ ∃ v, o.read env v = some (o.setting cfg)) (o : Opt) :
    o.setting cfg = o.setting (defaults env) ∨ ∃ v, o.read env v = some (o.setting cfg) := by
  cases hx : o.bounds
  case some bounds => exact .inr (read_setting hx (hb o bounds hx))
  case none =>
    cases o <;> cases hx
    case bind            => exact .inr ⟨cfg.bind, rfl⟩
    case portFile        => exact .inr ⟨cfg.portFile, rfl⟩
    case idleTimeout     => exact ht _ (.head _)
    case shutdownTimeout => exact ht _ (.tail _ (.head _))
    case help            => exact .inl rfl
    case verbose =>
      cases hv : cfg.verbose
      case false => exact .inl (by rw [Opt.setting, hv]; rfl)
      case true  => exact .inr ⟨[], by rw [Opt.setting, hv]; rfl⟩

-- What settings the server can be started with.
theorem parseArgs_range (env : Env) (cfg : Settings) :
    (∃ args, parseArgs env args {} = .ok cfg) ↔
      InBounds cfg ∧ (cfg.maxBodyBytes + cfg.maxHeaderBytes) % 2 ^ 64 ≤ cfg.maxRequestBytes ∧
      ∀ o ∈ [Opt.idleTimeout, .shutdownTimeout],
        o.setting cfg = o.setting (defaults env) ∨ ∃ v, o.read env v = some (o.setting cfg) := by
  constructor
  case mp =>
    rintro ⟨args, h⟩
    have hf := parseArgs_follows h
    refine ⟨hf.bounded, ?_, fun o ho => ?_⟩
    · have ⟨_, _, hr⟩ := hf.request
      exact hr ▸ le_max_right ..
    · rw [hf.setting o (by rintro rfl; simp at ho)]
      exact last_eq ..
  case mpr =>
    rintro ⟨hb, hm, ht⟩
    have hs := setting_given hb ht
    classical
    have ⟨l, hl⟩ : ∃ l : List Opt, ∀ o, o ∈ l ↔ o.setting cfg ≠ o.setting (defaults env) := by
      refine ⟨(opts.map (·.2)).filter fun o => o.setting cfg ≠ o.setting (defaults env), fun o => ?_⟩
      have ho : o ∈ opts.map (·.2) := by cases o <;> decide
      simp [ho]
    have hv : ∀ o, ∃ v, o ∈ l → o.read env v = some (o.setting cfg) := by
      intro o
      cases hs o
      case inl h => exact ⟨[], fun ho => absurd h ((hl o).mp ho)⟩
      case inr h => exact ⟨h.choose, fun _ => h.choose_spec⟩
    choose f hf using hv
    refine ⟨l.map fun o => o.word (f o), parseArgs_words ?_ hf ?_ hm⟩
    · exact fun h => (hl _).mp h rfl
    · exact fun o ho => not_not.mp ((hl o).not.mp ho)

end Http.Args

namespace Http.Process

open Args

-- What becomes of the command line: the usage, a list of complaints with the usage, or a run of the
-- loop with settings that follow the options.
inductive Verdict (env : Args.Env) (loop : Settings → Process → Nat × Process) (p : Process)
    (es : List Args.Event) (rest : List Bytes) : Exit × Process → Prop
  | usage (cfg : Settings) {v : Bytes} : .given .help v ∈ es →
    Verdict env loop p es rest ({ status := 0, stdout := usage cfg }, p)
  | refused (cfg : Settings) : (∀ v, .given .help v ∉ es) → ¬(es.all (·.good env) ∧ rest = []) →
    Verdict env loop p es rest ({
      status := 2
      stderr := es.flatMap (·.complaint env) ++ positional rest ++ Args.usage cfg
    }, p)
  | accepted (cfg : Settings) : (∀ v, .given .help v ∉ es) → es.all (·.good env) → rest = [] →
    Follows env es cfg → InBounds cfg →
    Verdict env loop p es rest ({ status := (loop cfg p).1 }, (loop cfg p).2)

end Http.Process
