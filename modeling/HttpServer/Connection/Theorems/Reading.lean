import HttpServer.Connection.History
import HttpServer.Connection.Theorems.Moves
import HttpServer.Parser.Theorems.Fragmentation

open Http.Parser

namespace Http

-- What the parser reported when the entry was made.
@[simp]
def Entry.report : Entry → Option ParseStatus
  | parsed req => some (.request req)
  | interim    => some .expect100
  | _          => none

namespace Connection

def reports (c : Connection) : List ParseStatus :=
  c.log.filterMap Entry.report

-- A connection that reads on as soon as it has answered and sent what it has to.
structure Open (c : Connection) : Prop where
  alive : c.alive = true
  opens : c.closeAfter = false
  eof   : c.peerEof = false
  stays : c.draining = false

-- The parser and the buffer hold what is left of the stream: the results so far and those to come
-- are the results for the stream as a whole.
structure InStep (cfg : Config) (c : Connection) : Prop where
  ready : Ready c.parser c.input
  ideal : ∀ t, ideal cfg.limits {} (c.stream ++ t) =
    (c.reports ++ (ideal cfg.limits c.parser (c.input ++ t)).1,
      (ideal cfg.limits c.parser (c.input ++ t)).2)

-- The buffer holds neither a complete nor a malformed request.
def Quiet (cfg : Config) (c : Connection) : Prop :=
  (c.parser.parse cfg.limits c.input).1 = .needMore

variable {cfg : Config} {c c' : Connection} {as : List Act} {env : Env} {io : Io} {p : Parser}
variable {b : Bytes} {now : Time} {sends : List Send} {recvs : List Recv}

theorem wantRead_open (h : c.wantRead cfg) : c.Open := by
  constructor <;> simp_all [wantRead]

@[simp]
theorem queueResponse_closeAfter {date : Bytes} {origin : Origin} {res : Response} :
    (c.queueResponse date origin res).closeAfter =
      (!res.keepAlive || res.closeAfter || c.closeAfter) := by
  cases hh : c.lastHead <;> cases hk : res.keepAlive <;> cases hc : res.closeAfter <;>
    simp [queueResponse, hh, hk, hc]

theorem Move.opens {a : Option Act} (hm : Move cfg c a c') (h : c'.Open) : c.Open := by
  have ⟨ha, ho, he, hd⟩ := h
  cases hm
  case answer =>
    simp only [queueResponse_closeAfter, Bool.or_eq_false_iff] at ho
    exact ⟨ha, ho.2, he, hd⟩
  case send | append | eof | more | expect | submit | close | hangup | drain | mask =>
    first | exact ⟨ha, ho, he, hd⟩ | cases ho | cases he | cases hd
  all_goals first | cases ha | cases ho

theorem Moves.opens (hm : Moves cfg c as c') (h : c'.Open) : c.Open := by
  induction hm
  case refl         => exact h
  case head hm _ hi => exact hm.opens (hi h)

theorem InStep.new (id : ConnId) (fd : Fd) (now : Time) (m : Mask) :
    InStep cfg { Connection.new id fd now with appliedMask := m } where
  ready   := ready_fresh
  ideal _ := rfl

theorem InStep.keep (h : InStep cfg c) (hp : c'.parser = c.parser) (hb : c'.input = c.input)
    (hs : c'.stream = c.stream) (hr : c'.reports = c.reports) : InStep cfg c' where
  ready   := by rw [hp, hb]; exact h.ready
  ideal t := by rw [hp, hb, hs, hr]; exact h.ideal t

theorem InStep.append {bs : Bytes} (h : InStep cfg c) : InStep cfg (c.append bs now) where
  ready   := h.ready.append bs
  ideal t := by
    have hs : (c.append bs now).stream ++ t = c.stream ++ (bs ++ t) := by
      simp [stream, Connection.append]
    have hb : (c.append bs now).input ++ t = c.input ++ (bs ++ t) := List.append_assoc ..
    have hr : (c.append bs now).reports = c.reports := by simp [reports, Connection.append]
    rw [hs, hb, hr]
    exact h.ideal (bs ++ t)

theorem InStep.more (h : InStep cfg c)
    (hp : c.parser.parse cfg.limits c.input = (.needMore, p, b)) : InStep cfg (c.store p b) := by
  have ⟨hr, _, ht⟩ := (passes_of_not_tooLarge h.ready.scan hp nofun).more_ideal h.ready
  exact ⟨hr, fun t => (h.ideal t).trans (by rw [ht]; rfl)⟩

-- The parser has reported a request, or that it waits for the body of one.
theorem InStep.report {st : ParseStatus} (h : InStep cfg c)
    (hp : c.parser.parse cfg.limits c.input = (st, p, b)) (hn : st ≠ .needMore) (he : ¬IsError st)
    (hc : c'.parser = p) (hb : c'.input = b) (hs : c'.stream = c.stream)
    (hr : c'.reports = c.reports ++ [st]) : InStep cfg c' := by
  have hl : ¬st.IsTooLarge := fun hl => he (by cases st <;> trivial)
  have ⟨ha, _, ht⟩ := (passes_of_not_tooLarge h.ready.scan hp hl).report_ideal h.ready he hn
  subst hc hb
  refine ⟨ha, fun t => ?_⟩
  rw [hs, hr, h.ideal, ht, List.append_assoc]
  rfl

theorem Move.inStep {a : Option Act} (hm : Move cfg c a c')
    (h : c.alive → c.closeAfter = false → c.InStep cfg) (ha : c'.alive)
    (ho : c'.closeAfter = false) : c'.InStep cfg := by
  cases hm
  case send     => exact (h ha ho).keep rfl rfl (by simp [stream, consume]) (by simp [reports, consume])
  case append   => exact (h ha ho).append
  case more hp  => exact (h ha ho).more hp
  case expect hi hp =>
    refine (h hi.alive hi.opens).report hp nofun nofun rfl rfl ?_ ?_
    · simp [stream, queueContinue, store]
    · simp [reports, queueContinue, store]
  case submit hi hp =>
    refine (h hi.alive hi.opens).report hp nofun nofun rfl rfl ?_ ?_
    · simp [stream, record, beginRequest, store]
    · simp [reports, record, beginRequest, store]
  case answer =>
    simp only [queueResponse_closeAfter, Bool.or_eq_false_iff] at ho
    exact (h ha ho.2).keep rfl rfl (by simp [stream, queueResponse]) (by simp [reports, queueResponse])
  case eof | drain | mask => exact (h ha ho).keep rfl rfl rfl rfl
  all_goals first | cases ha | cases ho

theorem Moves.inStep (hm : Moves cfg c as c') (h : c.alive → c.closeAfter = false → c.InStep cfg)
    (ha : c'.alive) (ho : c'.closeAfter = false) : c'.InStep cfg := by
  induction hm
  case refl         => exact h ha ho
  case head hm _ hi => exact hi (hm.inStep h) ha ho

-- A connection that survives sending has only changed what sending is about.
theorem flushLoop_alive (h : (flushLoop now sends c).1.alive) :
    ∃ out t l, (flushLoop now sends c).1 = { c with output := out, lastActivity := t, log := l } := by
  fun_induction flushLoop
  case case3 hi =>
    obtain ⟨_, _, _, he⟩ := hi h
    exact ⟨_, _, _, he⟩
  case case4 | case7 => cases h
  case case5 hi => exact hi h
  all_goals exact ⟨_, _, _, rfl⟩

theorem flush_alive (h : (c.flush io).1.alive) :
    ∃ out t l, (c.flush io).1 = { c with output := out, lastActivity := t, log := l } :=
  flushLoop_alive h

-- Sending and parsing leave alone what epoll was told and whether the stream has ended.
def Steady (c c' : Connection) : Prop :=
  c'.appliedMask = c.appliedMask ∧ c'.peerEof = c.peerEof

theorem Steady.trans {c'' : Connection} (h : Steady c c') (h' : Steady c' c'') : Steady c c'' :=
  ⟨h'.1.trans h.1, h'.2.trans h.2⟩

theorem flush_steady : Steady c (c.flush io).1 := by
  have h (now : Time) (sends : List Send) : Steady c (flushLoop now sends c).1 := by
    fun_induction flushLoop
    case case3 hi | case5 hi => exact hi
    all_goals exact ⟨rfl, rfl⟩
  exact h ..

theorem onWorkerResult_steady {x : Completion} : Steady c (c.onWorkerResult x io).1 := by
  simp only [onWorkerResult]
  repeat' split
  case isFalse.isFalse => exact flush_steady
  all_goals exact ⟨rfl, rfl⟩

theorem Drains.steady {fuel : Nat} {r : Connection × Env} (h : Drains cfg fuel c env r) :
    Steady c r.1 := by
  induction h
  case expect hi =>
    have hf := flush_steady.trans hi
    exact hf
  case malformed | tooLarge => exact flush_steady
  all_goals exact ⟨rfl, rfl⟩

-- An interim response is sent, and there is less input than before.
theorem expect_flushed (hc : c.Idle) (hp : c.parser.parse cfg.limits c.input = (.expect100, p, b))
    (h : c.InStep cfg) (ha : ((c.store p b).queueContinue.flushed env).1.alive) :
    ((c.store p b).queueContinue.flushed env).1.Idle ∧
      ((c.store p b).queueContinue.flushed env).1.input.length < c.input.length ∧
      ((c.store p b).queueContinue.flushed env).1.InStep cfg := by
  have hm : Moves cfg c [] ((c.store p b).queueContinue.flushed env).1 :=
    Move.flush (.expect hc hp) env.io
  obtain ⟨_, _, _, he⟩ := flush_alive ha
  have hi : ((c.store p b).queueContinue.flushed env).1.Idle := by
    rw [flushed, he]
    exact ⟨hc.alive, hc.free, hc.opens⟩
  have hl : ((c.store p b).queueContinue.flushed env).1.input = b := by rw [flushed, he]; rfl
  have hb : b.length < c.input.length :=
    ((passes_of_not_tooLarge h.ready.scan hp not_false).report_ideal h.ready not_false (by simp)).2.1
  exact ⟨hi, by rw [hl]; exact hb, hm.inStep (fun _ _ => h) hi.alive hi.opens⟩

-- The loop over the requests ends when the parser needs more input, unless there is a reason not
-- to look for the next request.
theorem Drains.quiet {fuel : Nat} {r : Connection × Env} (hd : Drains cfg fuel c env r)
    (hf : c.input.length < fuel) (h : c.alive → c.closeAfter = false → c.InStep cfg)
    (hi : r.1.Idle) : r.1.Quiet cfg := by
  induction hd
  case spent      => omega
  case stop hn    => exact absurd hi hn
  case more hc hp => exact parse_again (h hc.alive hc.opens).ready hp
  case expect hc hp hd hn =>
    have ⟨_, hm⟩ := hd.reads
    have ⟨_, hl, hx⟩ := expect_flushed hc hp (h hc.alive hc.opens) (hm.moves.alive hi.alive)
    exact hn (by omega) (fun _ _ => hx) hi
  case malformed | tooLarge =>
    have ⟨_, _, _, he⟩ := flush_alive hi.alive
    cases (congrArg Connection.closeAfter he).symm.trans hi.opens
  case submit   => cases hi.free
  case overload => cases hi.opens

theorem onReadable_quiet (hw : c.wantRead cfg) (h : c.alive → c.closeAfter = false → c.InStep cfg)
    (hi : (c.onReadable cfg env).1.Idle) : (c.onReadable cfg env).1.Quiet cfg := by
  have ho := onReadable_cases cfg c env
  generalize c.onReadable cfg env = r at ho hi ⊢
  cases ho
  case skip hn => simp [hn] at hw
  case overflow =>
    have ⟨_, _, _, he⟩ := flush_alive hi.alive
    cases (congrArg Connection.closeAfter he).symm.trans hi.opens
  case failed        => cases hi.alive
  case serve hr hd _ => exact hd.quiet (Nat.lt_succ_self _) ((receive_moves hr).inStep h) hi
  case close         => cases hi.opens

end Connection
end Http
