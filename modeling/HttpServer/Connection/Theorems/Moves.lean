import HttpServer.Connection.Basic

namespace Http.Connection

-- The moves of a connection that concern others: a job goes to the pool or is not accepted there, a
-- completion comes back, or the peer is refused with an error.
inductive Act
  | submit (job : Job)
  | overload
  | answer (x : Completion)
  | refuse

-- A connection that looks for its next request.
structure Idle (c : Connection) : Prop where
  alive : c.alive = true
  free  : c.inFlight = false
  opens : c.closeAfter = false

-- What can happen to a connection, one thing at a time. Every callback is a sequence of these.
inductive Move (cfg : Config) (c : Connection) : Option Act → Connection → Prop
  | send      : c.alive → c.output ≠ [] → 0 < n → Move cfg c none (c.consume n now)
  | kill      : Move cfg c none c.kill
  | append    : c.wantRead cfg → bs ≠ [] → Move cfg c none (c.append bs now)
  | eof       : c.wantRead cfg → Move cfg c none { c with peerEof := true }
  | overflow  : c.Idle → cfg.maxRequestBytes < c.parser.consumed + c.input.length →
    Move cfg c (some .refuse)
      (c.queueError date .tooLarge 413 "request exceeds the configured limit")
  | more      : c.Idle → c.parser.parse cfg.limits c.input = (.needMore, p, b) →
    Move cfg c none (c.store p b)
  | expect    : c.Idle → c.parser.parse cfg.limits c.input = (.expect100, p, b) →
    Move cfg c none (c.store p b).queueContinue
  | malformed : c.Idle → c.parser.parse cfg.limits c.input = (.badRequest err, p, b) →
    Move cfg c (some .refuse) ((c.store p b).queueError date .malformed 400 "malformed request")
  | tooLarge  : c.Idle → c.parser.parse cfg.limits c.input = (.tooLarge err, p, b) →
    Move cfg c (some .refuse) ((c.store p b).queueError date .tooLarge 413 "request too large")
  | submit    : c.Idle → c.parser.parse cfg.limits c.input = (.request req, p, b) →
    Move cfg c (some (.submit ⟨c.id, c.nextSeq, req⟩))
      (((c.store p b).beginRequest req).record (.submitted ⟨c.id, c.nextSeq, req⟩))
  | overload  : c.Idle → c.parser.parse cfg.limits c.input = (.request req, p, b) →
    Move cfg c (some .overload) ({ (c.store p b).beginRequest req with
      inFlight := false }.queueError date (.overload req) 503 "server is at capacity")
  | answer    : c.alive → c.inFlight → x.job.seq = c.inflightSeq →
    Move cfg c (some (.answer x))
      ({ c with inFlight := false }.queueResponse date (.answer x.job) x.response)
  | timeout   : c.alive → c.inFlight = false → c.output = [] →
    Move cfg c (some .refuse)
      (c.queueError date .timeout 408 "no request within the idle timeout")
  | close     : c.inFlight = false → c.output = [] → c.peerEof ∨ c.draining →
    Move cfg c none { c with closeAfter := true }
  | hangup    : Move cfg c none { c with peerEof := true, closeAfter := true }
  | drain     : Move cfg c none { c with draining := true }
  | mask      : Move cfg c none { c with appliedMask := m }

inductive Moves (cfg : Config) : Connection → List Act → Connection → Prop
  | refl : Moves cfg c [] c
  | head : Move cfg c a c' → Moves cfg c' as c'' → Moves cfg c (a.toList ++ as) c''

-- The acts of a callback that reads, and what they do to the pool.
inductive Submits (pool : Pool Job) : List Act → Pool Job → Prop
  | none     : Submits pool [] pool
  | refuse   : Submits pool [.refuse] pool
  | submit   : pool.trySubmit job = some pool' → Submits pool [.submit job] pool'
  | overload : pool.trySubmit job = none → Submits pool [.overload] pool

-- A callback ends with an attempt to send.
def flushed (c : Connection) (env : Env) : Connection × Env :=
  ((c.flush env.io).1, { env with io := (c.flush env.io).2 })

-- What the loop over the requests in the buffer can do.
inductive Drains (cfg : Config) : Nat → Connection → Env → Connection × Env → Prop
  | spent     : Drains cfg 0 c env (c, env)
  | stop      : ¬c.Idle → Drains cfg fuel c env (c, env)
  | more      : c.Idle → c.parser.parse cfg.limits c.input = (.needMore, p, b) →
    Drains cfg (fuel + 1) c env (c.store p b, env)
  | expect    : c.Idle → c.parser.parse cfg.limits c.input = (.expect100, p, b) →
    Drains cfg fuel ((c.store p b).queueContinue.flushed env).1
      ((c.store p b).queueContinue.flushed env).2 r → Drains cfg (fuel + 1) c env r
  | malformed : c.Idle → c.parser.parse cfg.limits c.input = (.badRequest err, p, b) →
    Drains cfg (fuel + 1) c env
      (((c.store p b).queueError env.io.date .malformed 400 "malformed request").flushed env)
  | tooLarge  : c.Idle → c.parser.parse cfg.limits c.input = (.tooLarge err, p, b) →
    Drains cfg (fuel + 1) c env
      (((c.store p b).queueError env.io.date .tooLarge 413 "request too large").flushed env)
  | submit    : c.Idle → c.parser.parse cfg.limits c.input = (.request req, p, b) →
    env.pool.trySubmit ⟨c.id, c.nextSeq, req⟩ = some pool →
    Drains cfg (fuel + 1) c env
      (((c.store p b).beginRequest req).record (.submitted ⟨c.id, c.nextSeq, req⟩),
        { env with pool := pool })
  | overload  : c.Idle → c.parser.parse cfg.limits c.input = (.request req, p, b) →
    env.pool.trySubmit ⟨c.id, c.nextSeq, req⟩ = none →
    Drains cfg (fuel + 1) c env ({ (c.store p b).beginRequest req with
      inFlight := false }.queueError env.io.date (.overload req) 503 "server is at capacity", env)

-- What the callback for input can do.
inductive OnReadable (cfg : Config) (c : Connection) (env : Env) : Connection × Env → Prop
  | skip     : c.wantRead cfg = false → OnReadable cfg c env (c, env)
  | overflow : c.wantRead cfg → receive cfg env.io.now env.io.recvs c = (d, .overflow) →
    OnReadable cfg c env ((d.queueError env.io.date .tooLarge 413
      "request exceeds the configured limit").flushed env)
  | failed   : c.wantRead cfg → receive cfg env.io.now env.io.recvs c = (d, .failed) →
    OnReadable cfg c env (d.kill, env)
  | serve    : c.wantRead cfg → receive cfg env.io.now env.io.recvs c = (d, .done) →
    Drains cfg (d.input.length + 1) d env r →
    (r.1.peerEof → r.1.inFlight = false → r.1.output ≠ []) → OnReadable cfg c env r
  | close    : c.wantRead cfg → receive cfg env.io.now env.io.recvs c = (d, .done) →
    Drains cfg (d.input.length + 1) d env r →
    r.1.peerEof → r.1.inFlight = false → r.1.output = [] →
    OnReadable cfg c env ({ r.1 with closeAfter := true }, r.2)

variable {cfg : Config} {c c' c'' : Connection} {as bs : List Act} {env : Env} {io : Io} {n : Nat}

theorem Move.id_eq {a : Option Act} (h : Move cfg c a c') : c'.id = c.id := by
  cases h <;> rfl

theorem Move.alive {a : Option Act} (h : Move cfg c a c') (ha : c'.alive) : c.alive := by
  cases h <;> first | exact ha | cases ha

namespace Moves

theorem id_eq (h : Moves cfg c as c') : c'.id = c.id := by
  induction h
  case refl         => rfl
  case head hm _ hi => exact hi.trans hm.id_eq

theorem alive (h : Moves cfg c as c') (ha : c'.alive) : c.alive := by
  induction h
  case refl         => exact ha
  case head hm _ hi => exact hm.alive (hi ha)

theorem trans (h : Moves cfg c as c') (h' : Moves cfg c' bs c'') : Moves cfg c (as ++ bs) c'' := by
  induction h
  case refl         => exact h'
  case head hm _ hi => simpa using .head hm (hi h')

theorem single {a : Option Act} (h : Move cfg c a c') : Moves cfg c a.toList c' := by
  simpa using Moves.head h .refl

theorem after (h : Moves cfg c [] c') (h' : Moves cfg c' as c'') : Moves cfg c as c'' :=
  h.trans h'

theorem before (h : Moves cfg c as c') (h' : Moves cfg c' [] c'') : Moves cfg c as c'' := by
  simpa using h.trans h'

end Moves

theorem Submits.no_answer {pool pool' : Pool Job} {x : Completion} (h : Submits pool as pool') :
    .answer x ∉ as := by
  cases h <;> simp

theorem Submits.length_le {pool pool' : Pool Job} (h : Submits pool as pool') : as.length ≤ 1 := by
  cases h <;> simp

theorem flushLoop_moves (now : Time) (sends : List Send) (c : Connection) :
    Moves cfg c [] (flushLoop now sends c).1 := by
  fun_induction flushLoop
  case case3 h _ hn hi =>
    simp only [Bool.or_eq_true, List.isEmpty_iff, Bool.not_eq_eq_eq_not, Bool.not_true, not_or,
      Bool.not_eq_false] at h
    exact .head (.send h.2 h.1 hn) hi
  case case4 => exact .single .kill
  case case5 hi => exact hi
  case case7 => exact .single .kill
  all_goals exact .refl

theorem flush_moves (c : Connection) (io : Io) : Moves cfg c [] (c.flush io).1 :=
  flushLoop_moves io.now io.sends c

-- A response is queued and flushed.
theorem Move.flush {a : Option Act} (h : Move cfg c a c') (io : Io) :
    Moves cfg c a.toList (c'.flush io).1 :=
  (Moves.single h).before (flush_moves c' io)

theorem wantRead_idle (h : c.wantRead cfg) : c.Idle := by
  constructor <;> simp_all [wantRead]

theorem receive_idle {now : Time} {recvs : List Recv} {e : ReadEnd} (h : c.Idle)
    (hr : receive cfg now recvs c = (c', e)) : c'.Idle := by
  fun_induction receive
  case case5 hi => exact hi ⟨h.alive, h.free, h.opens⟩ hr
  case case6 hi => exact hi h hr
  all_goals
    rw [← (Prod.mk.inj hr).1]
    exact ⟨h.alive, h.free, h.opens⟩

theorem receive_moves {now : Time} {recvs : List Recv} {e : ReadEnd}
    (hr : receive cfg now recvs c = (c', e)) : Moves cfg c [] c' := by
  fun_induction receive
  case case3 hw _ _ =>
    rw [← (Prod.mk.inj hr).1]
    exact .single (.eof (by simpa using hw))
  case case4 hw _ hb _ _ =>
    rw [← (Prod.mk.inj hr).1]
    exact .single (.append (by simpa using hw) (by simpa using hb))
  case case5 hw _ hb _ _ hi => exact .head (.append (by simpa using hw) (by simpa using hb)) (hi hr)
  case case6 hi => exact hi hr
  all_goals
    rw [← (Prod.mk.inj hr).1]
    exact .refl

theorem receive_overflow {now : Time} {recvs : List Recv}
    (h : receive cfg now recvs c = (c', .overflow)) :
    cfg.maxRequestBytes < c'.parser.consumed + c'.input.length := by
  fun_induction receive
  case case4 ho => exact (Prod.mk.inj h).1 ▸ ho
  case case5 hi => exact hi h
  case case6 hi => exact hi h
  all_goals cases h

theorem Idle.guard (h : c.Idle) : (!c.alive || c.inFlight || c.closeAfter) = false := by
  simp [h.alive, h.free, h.opens]

theorem drainRequests_drains (cfg : Config) (fuel : Nat) (c : Connection) (env : Env) :
    Drains cfg fuel c env (c.drainRequests cfg fuel env) := by
  induction fuel generalizing c env
  case zero => exact .spent
  case succ fuel hi =>
    simp only [drainRequests]
    split
    case isTrue hn  => exact .stop fun h => by simp [h.guard] at hn
    case isFalse hn =>
      have hc : c.Idle := by constructor <;> simp_all
      rcases hp : c.parser.parse cfg.limits c.input with ⟨st, p, b⟩
      cases st
      case needMore    => exact .more hc hp
      case expect100   => exact .expect hc hp (hi ..)
      case badRequest  => exact .malformed hc hp
      case tooLarge    => exact .tooLarge hc hp
      case request req =>
        simp only [submit]
        split
        case h_1 ht => exact .submit hc hp ht
        case h_2 ht => exact .overload hc hp ht

theorem onReadable_cases (cfg : Config) (c : Connection) (env : Env) :
    OnReadable cfg c env (c.onReadable cfg env) := by
  cases hw : c.wantRead cfg
  case false =>
    have hr : c.onReadable cfg env = (c, env) := by simp [onReadable, hw]
    rw [hr]
    exact .skip hw
  case true =>
    have hg : ¬(!c.alive || !c.wantRead cfg) := by simp [(wantRead_idle hw).alive, hw]
    rw [onReadable, if_neg hg]
    rcases hr : receive cfg env.io.now env.io.recvs c with ⟨d, e⟩
    cases e
    case overflow => exact .overflow hw hr
    case failed   => exact .failed hw hr
    case done =>
      have hd := drainRequests_drains cfg (d.input.length + 1) d env
      dsimp only
      split
      case isTrue hx =>
        simp only [Bool.and_eq_true, Bool.not_eq_true', List.isEmpty_iff] at hx
        exact .close hw hr hd hx.1.1 hx.1.2 hx.2
      case isFalse hx =>
        simp only [Bool.and_eq_true, Bool.not_eq_true', List.isEmpty_iff] at hx
        exact .serve hw hr hd fun he hi ho => hx ⟨⟨he, hi⟩, ho⟩

-- The input of a connection makes it refuse its peer.
def refuses (cfg : Config) : Nat → Connection → Io → Bool
  | 0, _, _ => false
  | fuel + 1, c, io =>
    if !c.alive || c.inFlight || c.closeAfter then false
    else match c.parser.parse cfg.limits c.input with
      | (.expect100, p, b) =>
        let (c, io) := (c.store p b).queueContinue.flush io
        refuses cfg fuel c io
      | (.badRequest _, _, _) | (.tooLarge _, _, _) => true
      | _                                           => false

def refusesRead (cfg : Config) (c : Connection) (io : Io) : Bool :=
  c.wantRead cfg && match receive cfg io.now io.recvs c with
    | (_, .overflow) => true
    | (_, .failed)   => false
    | (c, .done)     => c.refuses cfg (c.input.length + 1) io

-- A callback that reads: what it does to the connection and to the pool, and when it refuses.
structure Reads (cfg : Config) (c : Connection) (env : Env) (refused : Bool)
    (r : Connection × Env) (as : List Act) : Prop where
  moves  : Moves cfg c as r.1
  pool   : Submits env.pool as r.2.pool
  refuse : .refuse ∈ as → refused

theorem refuses_expect {fuel : Nat} {p : Parser} {b : Bytes} (hc : c.Idle)
    (hp : c.parser.parse cfg.limits c.input = (.expect100, p, b)) :
    c.refuses cfg (fuel + 1) env.io = ((c.store p b).queueContinue.flushed env).1.refuses cfg fuel
      ((c.store p b).queueContinue.flushed env).2.io := by
  simp [refuses, hc.guard, hp, flushed]

theorem Drains.reads {fuel : Nat} {r : Connection × Env} (h : Drains cfg fuel c env r) :
    ∃ as, Reads cfg c env (c.refuses cfg fuel env.io) r as := by
  induction h
  case spent | stop => exact ⟨[], .refl, .none, by simp⟩
  case more hc hp => exact ⟨_, .single (.more hc hp), .none, by simp⟩
  case expect hc hp _ hi =>
    have ⟨as, hr⟩ := hi
    rw [refuses_expect hc hp]
    exact ⟨as, (Move.flush (.expect hc hp) _).after hr.moves, hr.pool, hr.refuse⟩
  case malformed hc hp =>
    exact ⟨_, Move.flush (.malformed hc hp) _, .refuse, by simp [refuses, hc.guard, hp]⟩
  case tooLarge hc hp =>
    exact ⟨_, Move.flush (.tooLarge hc hp) _, .refuse, by simp [refuses, hc.guard, hp]⟩
  case submit hc hp ht => exact ⟨_, .single (.submit hc hp), .submit ht, by simp⟩
  case overload hc hp ht => exact ⟨_, .single (.overload hc hp), .overload ht, by simp⟩

theorem onReadable_reads (cfg : Config) (c : Connection) (env : Env) :
    ∃ as, Reads cfg c env (c.refusesRead cfg env.io) (c.onReadable cfg env) as := by
  have ho := onReadable_cases cfg c env
  generalize c.onReadable cfg env = r at ho ⊢
  cases ho
  case skip => exact ⟨[], .refl, .none, by simp⟩
  case overflow hw hr =>
    have hi := receive_idle (wantRead_idle hw) hr
    exact ⟨_, (receive_moves hr).after (Move.flush (.overflow hi (receive_overflow hr)) _), .refuse,
      by simp [refusesRead, hw, hr]⟩
  case failed hw hr => exact ⟨[], (receive_moves hr).after (.single .kill), .none, by simp⟩
  case serve hw hr hd _ =>
    have ⟨as, hd⟩ := hd.reads
    exact ⟨as, (receive_moves hr).after hd.moves, hd.pool,
      by simpa [refusesRead, hw, hr] using hd.refuse⟩
  case close hw hr hd he hi ho =>
    have ⟨as, hd⟩ := hd.reads
    have hc : Moves cfg _ [] _ := .single (.close hi ho (.inl he))
    exact ⟨as, (receive_moves hr).after (hd.moves.before hc), hd.pool,
      by simpa [refusesRead, hw, hr] using hd.refuse⟩

theorem onWorkerResult_accepts {x : Completion} (ha : c.alive) (hf : c.inFlight)
    (hs : x.job.seq = c.inflightSeq) : Moves cfg c [.answer x] (c.onWorkerResult x io).1 := by
  have hn : ¬(!c.inFlight || x.job.seq != c.inflightSeq) := by simp [hf, hs]
  rw [onWorkerResult, if_neg (by simp [ha]), if_neg hn]
  exact Move.flush (.answer ha hf hs) io

theorem onWorkerResult_dead {x : Completion} (ha : c.alive = false) :
    (c.onWorkerResult x io).1 = c := by
  simp [onWorkerResult, ha]

-- A completion is accepted or ignored.
theorem onWorkerResult_moves (cfg : Config) (c : Connection) (x : Completion) (io : Io) :
    (c.onWorkerResult x io).1 = c ∨ Moves cfg c [.answer x] (c.onWorkerResult x io).1 := by
  by_cases h : c.alive ∧ c.inFlight ∧ x.job.seq = c.inflightSeq
  case pos => exact .inr (onWorkerResult_accepts h.1 h.2.1 h.2.2)
  case neg =>
    refine .inl ?_
    simp only [onWorkerResult]
    repeat' split
    case isFalse.isFalse => simp_all
    all_goals rfl

theorem onHangup_moves (c : Connection) (err : Bool) (io : Io) :
    Moves cfg c [] (c.onHangup err io).1 := by
  cases err
  case false => exact Move.flush .hangup io
  case true  => exact .single .kill

-- The peer is told that it took too long.
def timesOut (cfg : Config) (now : Time) (c : Connection) : Bool :=
  c.alive && !c.inFlight && c.output.isEmpty && !c.draining &&
    cfg.idleTimeout.any (now - c.lastActivity > ·)

theorem onTick_cases (cfg : Config) (now : Time) (c : Connection) (io : Io) :
    (c.onTick cfg now io).1 = c ∨
    c.inFlight = false ∧ c.output = [] ∧ c.draining ∧
      (c.onTick cfg now io).1 = { c with closeAfter := true } ∨
    (c.onTick cfg now io).1 = c.kill ∨
    c.timesOut cfg now ∧ (c.onTick cfg now io).1 =
      ((c.queueError io.date .timeout 408 "no request within the idle timeout").flush io).1 := by
  simp only [onTick]
  repeat' split
  case isFalse.isTrue hd =>
    simp only [Bool.and_eq_true, Bool.not_eq_true', List.isEmpty_iff] at hd
    exact .inr (.inl ⟨hd.1.2, hd.2, hd.1.1, rfl⟩)
  case h_2.isFalse.isFalse.isTrue => exact .inr (.inr (.inl rfl))
  case h_2.isFalse.isFalse.isFalse ha hd _ _ hi ht hf ho =>
    have ho : c.output = [] := by simpa using ho
    have hf : c.inFlight = false := by simpa using hf
    have ha : c.alive = true := by simpa using ha
    have hd : c.draining = false := by simpa [hf, ho] using hd
    refine .inr (.inr (.inr ⟨?_, rfl⟩))
    simpa only [timesOut, ha, hf, ho, hd, hi, Option.any_some, gt_iff_lt, decide_eq_true_eq,
      Bool.not_false, List.isEmpty_nil, Bool.and_self, Bool.true_and, not_le] using ht
  all_goals exact .inl rfl

theorem onTick_moves (cfg : Config) (now : Time) (c : Connection) (io : Io) :
    Moves cfg c [] (c.onTick cfg now io).1 ∨
      c.timesOut cfg now ∧ Moves cfg c [.refuse] (c.onTick cfg now io).1 := by
  rcases onTick_cases cfg now c io with h | ⟨hf, ho, hd, h⟩ | h | ⟨ht, h⟩ <;> rw [h]
  case inl         => exact .inl .refl
  case inr.inl     => exact .inl (.single (.close hf ho (.inr hd)))
  case inr.inr.inl => exact .inl (.single .kill)
  case inr.inr.inr =>
    have hc := ht
    simp only [timesOut, Bool.and_eq_true, Bool.not_eq_true', List.isEmpty_iff] at hc
    exact .inr ⟨ht, Move.flush (.timeout hc.1.1.1.1 hc.1.1.1.2 hc.1.1.2) io⟩

theorem beginDraining_moves (c : Connection) : Moves cfg c [] c.beginDraining := by
  simp only [beginDraining]
  split
  case isTrue hx =>
    simp only [Bool.and_eq_true, Bool.not_eq_true', List.isEmpty_iff] at hx
    have hd : Moves cfg c [] { c with draining := true } := .single .drain
    have hc : Move cfg { c with draining := true } none
        { c with draining := true, closeAfter := true } := .close hx.1 hx.2 (.inr rfl)
    exact hd.after (.single hc)
  case isFalse => exact .single .drain

end Http.Connection
