import HttpServer.Connection.Theorems.Follows
import HttpServer.Connection.Theorems.Reading

open Http.Parser

namespace Http

-- The connection is closed after this response.
def Response.closes (res : Response) : Bool :=
  !res.keepAlive || res.closeAfter

-- A response to a request that the pool had no room for.
def Entry.isOverload : Entry → Bool
  | final (.overload _) _ _ => true
  | _                       => false

namespace Connection

def overloaded (c : Connection) : Bool :=
  c.log.any Entry.isOverload

-- If the buffer holds no complete request, then nothing waits to be sent either.
def settlesEof (cfg : Config) : Nat → Connection → Io → Bool
  | 0, _, _ => true
  | fuel + 1, c, io =>
    if !c.alive || c.inFlight || c.closeAfter then true
    else match c.parser.parse cfg.limits c.input with
      | (.needMore, _, _)  => c.output.isEmpty
      | (.expect100, p, b) =>
        let (c, io) := (c.store p b).queueContinue.flush io
        settlesEof cfg fuel c io
      | _                  => true

-- The same if a read meets the end of the stream.
def settlesRead (cfg : Config) (c : Connection) (io : Io) : Bool :=
  match receive cfg io.now io.recvs c with
  | (c, .done) => !c.peerEof || c.settlesEof cfg (c.input.length + 1) io
  | _          => true

-- All final responses come from the workers.
def OnlyAnswers (c : Connection) : Prop :=
  ∀ origin date res, .final origin date res ∈ c.log → origin.isAnswer

-- What a connection has made of the bytes that it received.
structure Heard (cfg : Config) (c : Connection) : Prop where
  inStep  : c.alive → c.closeAfter = false → c.InStep cfg
  reports : c.reports <+: (ideal cfg.limits {} c.stream).1
  answers : c.closeAfter = false → c.OnlyAnswers

-- Everything in the stream has been reported.
def Complete (cfg : Config) (c : Connection) : Prop :=
  ideal cfg.limits {} c.stream = (c.reports, none)

-- A connection that has seen the end of the stream: it waits for its last response or is on its way
-- out, and it leaves no request behind unless its last response rules out another one.
structure Ended (cfg : Config) (c : Connection) : Prop where
  answers : c.OnlyAnswers
  ends    : c.inFlight ∨ c.closeAfter
  rest    : c.inFlight = false → c.Complete cfg ∨ ∃ x, c.results.getLast? = some x ∧ x.2.closes

variable {cfg : Config} {c c' : Connection} {as : List Act} {env : Env} {io : Io} {p : Parser}
variable {b : Bytes}

theorem InStep.reported (h : c.InStep cfg) :
    c.reports <+: (Parser.ideal cfg.limits {} c.stream).1 := by
  have ht := h.ideal []
  rw [List.append_nil] at ht
  rw [ht]
  exact List.prefix_append ..

theorem OnlyAnswers.extend (h : c.OnlyAnswers) (es : List Entry) (hl : c'.log = c.log ++ es)
    (he : ∀ origin date res, .final origin date res ∈ es → origin.isAnswer) : c'.OnlyAnswers := by
  intro origin date res hm
  rw [hl] at hm
  exact (List.mem_append.mp hm).elim (h _ _ _) (he _ _ _)

theorem Move.onlyAnswers {a : Option Act} (hm : Move cfg c a c') (h : c.OnlyAnswers)
    (hr : a ≠ some .refuse) (ho : a ≠ some .overload) : c'.OnlyAnswers := by
  cases hm
  case send | append | expect => exact h.extend [_] rfl (by simp)
  case submit => exact h.extend [_, _] (List.append_assoc ..) (by simp)
  case answer => exact h.extend [_] rfl fun _ _ _ he => by cases List.mem_singleton.mp he; rfl
  case overload => exact absurd rfl ho
  case overflow | malformed | tooLarge | timeout => exact absurd rfl hr
  all_goals exact h

theorem Moves.onlyAnswers (hm : Moves cfg c as c') (h : c.OnlyAnswers) (hr : .refuse ∉ as)
    (ho : .overload ∉ as) : c'.OnlyAnswers := by
  induction hm
  case refl => exact h
  case head a _ as _ hm _ hi =>
    simp only [List.mem_append, not_or, Option.mem_toList] at hr ho
    exact hi (hm.onlyAnswers h hr.1 ho.1) hr.2 ho.2

theorem Heard.new (id : ConnId) (fd : Fd) (now : Time) (m : Mask) :
    Heard cfg { Connection.new id fd now with appliedMask := m } where
  inStep _ _ := .new ..
  reports    := List.nil_prefix
  answers _  := by simp [OnlyAnswers, Connection.new]

theorem queueError_stream {date : Bytes} {origin : Origin} {status : Nat} {detail : String} :
    (c.queueError date origin status detail).stream = c.stream := by
  simp [stream, queueError, queueResponse]

theorem queueError_reports {date : Bytes} {origin : Origin} {status : Nat} {detail : String} :
    (c.queueError date origin status detail).reports = c.reports := by
  simp [reports, queueError, queueResponse]

theorem Move.closeAfter {a : Option Act} (hm : Move cfg c a c') (h : c'.closeAfter = false) :
    c.closeAfter = false := by
  cases hm
  case answer =>
    simp only [queueResponse_closeAfter, Bool.or_eq_false_iff] at h
    exact h.2
  all_goals first | exact h | cases h

theorem Heard.keep (h : c.Heard cfg) (hs : c'.stream = c.stream) (hr : c'.reports = c.reports) :
    c'.reports <+: (ideal cfg.limits {} c'.stream).1 := by
  rw [hs, hr]
  exact h.reports

theorem Move.reported {a : Option Act} (hm : Move cfg c a c') (h : c.Heard cfg) :
    c'.reports <+: (ideal cfg.limits {} c'.stream).1 := by
  have hi := hm.inStep h.inStep
  cases hm
  case append hw _ =>
    have hc := wantRead_idle hw
    exact (hi hc.alive hc.opens).reported
  case expect hc _ => exact (hi hc.alive hc.opens).reported
  case submit hc _ => exact (hi hc.alive hc.opens).reported
  case overload p b req _ hc hp =>
    have hd : InStep cfg ((c.store p b).beginRequest req) := by
      refine (h.inStep hc.alive hc.opens).report hp nofun nofun rfl rfl ?_ ?_
      · simp [stream, beginRequest, store]
      · simp [reports, beginRequest, store]
    rw [queueError_stream, queueError_reports]
    exact hd.reported
  case send   => exact h.keep (by simp [stream, consume]) (by simp [reports, consume])
  case answer => exact h.keep (by simp [stream, queueResponse]) (by simp [reports, queueResponse])
  case overflow | malformed | tooLarge | timeout => exact h.keep queueError_stream queueError_reports
  all_goals exact h.keep rfl rfl

theorem Move.heard {a : Option Act} (hm : Move cfg c a c') (h : c.Heard cfg) : c'.Heard cfg where
  inStep     := hm.inStep h.inStep
  reports    := hm.reported h
  answers ho := by
    refine hm.onlyAnswers (h.answers (hm.closeAfter ho)) ?_ ?_
    · rintro rfl
      cases hm <;> cases ho
    · rintro rfl
      cases hm
      cases ho

theorem Moves.heard (hm : Moves cfg c as c') (h : c.Heard cfg) : c'.Heard cfg := by
  induction hm
  case refl         => exact h
  case head hm _ hi => exact hi (hm.heard h)

theorem Ended.keep (h : c.Ended cfg) (ha : c'.OnlyAnswers) (hs : c'.stream = c.stream)
    (hr : c'.reports = c.reports) (hx : c'.results = c.results) (hf : c'.inFlight = c.inFlight)
    (hc : c.closeAfter → c'.closeAfter) : c'.Ended cfg where
  answers := ha
  ends    := by rw [hf]; exact h.ends.imp_right hc
  rest hi := by
    rw [Complete, hs, hr, hx]
    exact h.rest (hf ▸ hi)

theorem Ended.not_idle (h : c.Ended cfg) (hi : c.Idle) : False := by
  rcases h.ends with he | he
  case inl => simp [hi.free] at he
  case inr => simp [hi.opens] at he

-- After the end of the stream there is only the last response to be added.
theorem Move.ended {a : Option Act} (hm : Move cfg c a c') (h : c.Ended cfg) (he : c.peerEof)
    (ha : c'.alive) (hr : a ≠ some .refuse) (hx : ∀ x, a = some (.answer x) → x.response.closes) :
    c'.Ended cfg := by
  have hn : a ≠ some .overload → c'.OnlyAnswers := hm.onlyAnswers h.answers hr
  cases hm
  case send =>
    exact h.keep (hn (by simp)) (by simp [stream, consume]) (by simp [reports, consume])
      (by simp [results, consume]) rfl fun h => h
  case kill => cases ha
  case append hw _ => simp [(wantRead_open hw).eof] at he
  case eof hw      => simp [(wantRead_open hw).eof] at he
  case more hi _ | expect hi _ | submit hi _ | overload hi _ => exact (h.not_idle hi).elim
  case overflow | malformed | tooLarge | timeout => exact absurd rfl hr
  case answer x _ _ _ _ =>
    have hc := hx x rfl
    simp only [Response.closes] at hc
    refine ⟨hn (by simp), .inr (by simp [hc]), fun _ => .inr ⟨(x.job,
      if c.lastHead then { x.response with sendBody := false } else x.response), ?_, ?_⟩⟩
    · simp [results, queueResponse, List.filterMap_append]
    · simp only [Response.closes]
      split <;> exact hc
  case close | hangup => exact h.keep (hn (by simp)) rfl rfl rfl rfl fun _ => rfl
  case drain | mask   => exact h.keep (hn (by simp)) rfl rfl rfl rfl fun h => h

theorem Move.peerEof {a : Option Act} (hm : Move cfg c a c') (h : c.peerEof) : c'.peerEof := by
  cases hm <;> first | exact h | rfl

theorem Moves.ended (hm : Moves cfg c as c') (h : c.Ended cfg) (he : c.peerEof) (ha : c'.alive)
    (hr : .refuse ∉ as) (hx : ∀ x, .answer x ∈ as → x.response.closes) : c'.Ended cfg := by
  induction hm
  case refl => exact h
  case head a _ as _ hm hn hi =>
    simp only [List.mem_append, not_or, Option.mem_toList] at hr hx
    exact hi (hm.ended h he (hn.alive ha) hr.1 fun x hxa => hx x (.inl hxa)) (hm.peerEof he) ha hr.2
      fun x hxa => hx x (.inr hxa)

theorem overloaded_of_append {es : List Entry} (hl : c'.log = c.log ++ es)
    (h : c.overloaded ∨ es.any Entry.isOverload) : c'.overloaded := by
  rw [overloaded, hl, List.any_append, Bool.or_eq_true]
  exact h

theorem Move.overloaded {a : Option Act} (hm : Move cfg c a c')
    (h : c.overloaded ∨ a = some .overload) : c'.overloaded := by
  cases hm
  case overload => exact overloaded_of_append (List.append_assoc ..) (.inr rfl)
  all_goals have h := h.resolve_right (by simp)
  case send | append | expect | answer => exact overloaded_of_append rfl (.inl h)
  case submit => exact overloaded_of_append (List.append_assoc ..) (.inl h)
  case overflow | malformed | tooLarge | timeout => exact overloaded_of_append rfl (.inl h)
  all_goals exact h

-- An overload stays on record.
theorem Moves.overloaded (hm : Moves cfg c as c') (h : c.overloaded ∨ .overload ∈ as) :
    c'.overloaded := by
  induction hm
  case refl => exact h.resolve_right (by simp)
  case head hm _ hi =>
    simp only [List.mem_append, Option.mem_toList] at h
    rcases h with h | h | h
    case inl     => exact hi (.inl (hm.overloaded (.inl h)))
    case inr.inl => exact hi (.inl (hm.overloaded (.inr h)))
    case inr.inr => exact hi (.inr h)

theorem InStep.complete (h : c.InStep cfg)
    (hp : c.parser.parse cfg.limits c.input = (.needMore, p, b)) : (c.store p b).Complete cfg := by
  have ⟨_, hi, _⟩ := (passes_of_not_tooLarge h.ready.scan hp not_false).more_ideal h.ready
  have ht := (h.more hp).ideal []
  rw [List.append_nil, List.append_nil, show (c.store p b).input = b from rfl,
    show (c.store p b).parser = p from rfl, hi, List.append_nil] at ht
  exact ht

theorem settlesEof_expect {fuel : Nat} (hc : c.Idle)
    (hp : c.parser.parse cfg.limits c.input = (.expect100, p, b)) :
    c.settlesEof cfg (fuel + 1) env.io = ((c.store p b).queueContinue.flushed env).1.settlesEof cfg
      fuel ((c.store p b).queueContinue.flushed env).2.io := by
  simp [settlesEof, hc.guard, hp, flushed]

-- At the end of the stream the loop over the requests has found one, or nothing is left to do.
theorem Drains.ended {fuel : Nat} {r : Connection × Env} (hd : Drains cfg fuel c env r)
    (hf : c.input.length < fuel) (hc : c.Idle) (h : c.InStep cfg)
    (hr : c.refuses cfg fuel env.io = false) (hs : c.settlesEof cfg fuel env.io) (ha : r.1.alive)
    (hv : r.1.overloaded = false) : r.1.inFlight ∨ r.1.output = [] ∧ r.1.Complete cfg := by
  induction hd
  case spent   => omega
  case stop hn => exact absurd hc hn
  case more hp =>
    simp only [settlesEof, hc.guard, hp, Bool.false_eq_true, if_false, List.isEmpty_iff] at hs
    exact .inr ⟨hs, h.complete hp⟩
  case expect hp hd hn =>
    have ⟨_, hm⟩ := hd.reads
    have ⟨hi, hl, hx⟩ := expect_flushed hc hp h (hm.moves.alive ha)
    rw [refuses_expect hc hp] at hr
    rw [settlesEof_expect hc hp] at hs
    exact hn (by omega) hi hx hr hs ha hv
  case malformed hp | tooLarge hp => simp [refuses, hc.guard, hp] at hr
  case submit => exact .inl rfl
  case overload hp _ =>
    have hn := Bool.eq_false_iff.mp hv
    cases hn (Move.overloaded (.overload hc hp) (.inr rfl))

theorem Drains.ended_read {d : Connection} {r : Connection × Env}
    (hd : Drains cfg (d.input.length + 1) d env r) (hw : c.wantRead cfg)
    (hq : receive cfg env.io.now env.io.recvs c = (d, .done)) (h : c.Heard cfg)
    (hr : c.refusesRead cfg env.io = false) (hs : c.settlesRead cfg env.io) (ha : r.1.alive)
    (he : r.1.peerEof) (hv : r.1.overloaded = false) :
    r.1.inFlight ∨ r.1.output = [] ∧ r.1.Complete cfg := by
  have hi := receive_idle (wantRead_idle hw) hq
  have hx := (receive_moves hq).inStep h.inStep hi.alive hi.opens
  simp only [refusesRead, hw, hq, Bool.true_and] at hr
  simp only [settlesRead, hq, ← hd.steady.2, he, Bool.not_true, Bool.false_or] at hs
  exact hd.ended (Nat.lt_succ_self _) hi hx hr hs ha hv

-- A read that meets the end of the stream.
theorem onReadable_ended (hw : c.wantRead cfg) (h : c.Heard cfg)
    (hv : (c.onReadable cfg env).1.overloaded = false)
    (hr : c.refusesRead cfg env.io = false) (hs : c.settlesRead cfg env.io)
    (ha : (c.onReadable cfg env).1.alive) (he : (c.onReadable cfg env).1.peerEof) :
    (c.onReadable cfg env).1.Ended cfg := by
  obtain ⟨as, hrd⟩ := onReadable_reads cfg c env
  have hn : (c.onReadable cfg env).1.OnlyAnswers := by
    refine hrd.moves.onlyAnswers (h.answers (wantRead_idle hw).opens) (fun hm => ?_) fun hm => ?_
    · simp [hrd.refuse hm] at hr
    · simp [hrd.moves.overloaded (.inr hm)] at hv
  have ho := onReadable_cases cfg c env
  generalize c.onReadable cfg env = r at ha he hn hv ho ⊢
  cases ho
  case skip hw'    => simp [hw'] at hw
  case overflow hq => simp [refusesRead, hw, hq] at hr
  case failed      => cases ha
  case serve hq hd hx =>
    have hb : r.1.inFlight := by
      rcases hd.ended_read hw hq h hr hs ha he hv with hb | ⟨ho, _⟩
      case inl => exact hb
      case inr => exact Bool.of_not_eq_false fun hi => hx he hi ho
    exact ⟨hn, .inl hb, fun hi => by simp [hb] at hi⟩
  case close hq hd _ hi _ =>
    obtain ⟨_, hk⟩ := (hd.ended_read hw hq h hr hs ha he hv).resolve_left (by simp [hi])
    exact ⟨hn, .inr rfl, fun _ => .inl hk⟩

end Connection
end Http
