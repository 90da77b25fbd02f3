import HttpServer.Connection.Sequential
import HttpServer.Connection.Theorems.Closing

open Http.Parser

namespace Http

variable {cfg : Config} {throws : List Bool} {sts sts' : List ParseStatus} {ms ms' : List Notice}
variable {id : ConnId} {l l₁ l₂ : List Entry} {ph : Phase} {req : Request}

namespace Serial

theorem untilClose_append (h : ∀ m ∈ ms, m.closes = false) :
    untilClose (ms ++ ms') = ms ++ untilClose ms' := by
  induction ms
  case nil => rfl
  case cons m ms hi =>
    have hm := h m List.mem_cons_self
    rw [List.cons_append, untilClose, hm, hi fun m hm => h m (List.mem_cons_of_mem _ hm)]
    rfl

theorem untilClose_mono (h : ms <+: ms') : untilClose ms <+: untilClose ms' := by
  induction ms generalizing ms'
  case nil => exact List.nil_prefix
  case cons m ms hi =>
    obtain ⟨t, rfl⟩ := h
    rw [List.cons_append, untilClose, untilClose]
    cases m.closes
    case true  => exact List.prefix_rfl
    case false => exact (List.prefix_cons_inj m).mpr (hi (List.prefix_append ..))

-- Only the last message closes the connection.
theorem untilClose_eq (h : ∀ ms₁ m ms₂, ms = ms₁ ++ m :: ms₂ → m.closes → ms₂ = []) :
    untilClose ms = ms := by
  rcases List.eq_nil_or_concat ms with rfl | ⟨ms, m, rfl⟩
  case inl => rfl
  case inr =>
    rw [List.concat_eq_append] at h ⊢
    have hn : ∀ n ∈ ms, n.closes = false := by
      intro n hn
      obtain ⟨ms₁, ms₂, rfl⟩ := List.append_of_mem hn
      refine Bool.eq_false_iff.mpr fun hc => ?_
      cases List.append_eq_nil_iff.mp (h ms₁ n (ms₂ ++ [m]) (by simp) hc) |>.2
    rw [untilClose_append hn]
    cases hm : m.closes <;> simp [untilClose, hm]

theorem answers_mono (h : sts <+: sts') : answers cfg throws sts <+: answers cfg throws sts' := by
  induction sts generalizing sts' throws
  case nil => simp [answers]
  case cons st sts hi =>
    obtain ⟨t, rfl⟩ := h
    have ht : sts <+: sts ++ t := List.prefix_append ..
    cases st
    case expect100 => exact (List.prefix_cons_inj _).mpr (hi ht)
    case request   => exact (List.prefix_cons_inj _).mpr (hi ht)
    all_goals
      have ht : answers cfg throws sts <+: answers cfg throws (sts ++ t) := hi ht
      simpa [answers] using ht

theorem answers_interim :
    answers cfg throws (sts ++ [.expect100]) = answers cfg throws sts ++ [.interim] := by
  induction sts generalizing throws
  case nil => rfl
  case cons st sts hi => cases st <;> simp [answers, hi]

-- The handler is called once more.
theorem answers_request (cfg : Config) (req : Request) (throws : List Bool) (t : Bool)
    (sts : List ParseStatus) :
    ∃ throws', answers cfg throws' (sts ++ [.request req]) =
      answers cfg throws sts ++ [.final (runJob cfg t req)] := by
  induction sts generalizing throws
  case nil => exact ⟨[t], rfl⟩
  case cons st sts hi =>
    cases st
    case request r =>
      obtain ⟨throws', h⟩ := hi throws.tail
      exact ⟨throws.headD false :: throws', by simp [answers, h]⟩
    case expect100 =>
      obtain ⟨throws', h⟩ := hi throws
      exact ⟨throws', by simp [answers, h]⟩
    all_goals
      obtain ⟨throws', h⟩ := hi throws
      exact ⟨throws', by simpa [answers] using h⟩

theorem answers_replies {stream : Bytes} (h : sts <+: (ideal cfg.limits {} stream).1) :
    untilClose (answers cfg throws sts) <+: replies cfg throws stream :=
  untilClose_mono ((answers_mono h).trans (List.prefix_append ..))

@[simp]
theorem heading_request : heading (sts ++ [.request req]) = req.heading := by
  simp [heading]

@[simp]
theorem heading_interim : heading (sts ++ [.expect100]) = heading sts := by
  simp [heading]

end Serial

open Serial

-- As long as the loop has not refused anything, the log is that of a sequential server.
theorem History.answered (h : History cfg id l ph) (hn : ph ≠ .closing) :
    ∃ throws sts, l.filterMap Entry.report = sts ++ ph.owed.map .request ∧
      l.filterMap Entry.notice = Serial.answers cfg throws sts := by
  induction h
  case nil => exact ⟨[], [], rfl, rfl⟩
  case snoc l ph e ph' h hs hi =>
    have hp : ph ≠ .closing := by
      rintro rfl
      cases hs <;> exact hn rfl
    obtain ⟨throws, sts, hr, hm⟩ := hi hp
    rw [List.filterMap_append, List.filterMap_append, hr, hm]
    cases hs
    case received | sent => exact ⟨throws, sts, by simp, by simp⟩
    case interim   => exact ⟨throws, sts ++ [.expect100], by simp, by simp [answers_interim]⟩
    case parsed    => exact ⟨throws, sts, by simp, by simp⟩
    case submitted => exact ⟨throws, sts, by simp, by simp⟩
    case answer t job _ he =>
      obtain ⟨throws', ha⟩ := answers_request cfg job.req throws t sts
      exact ⟨throws', sts ++ [.request job.req], by simp, by simp [ha, he]⟩
    case overload | refusal => exact absurd rfl hn

namespace Connection

-- What a connection keeps apart from the order of its log: it remembers the last request, refuses in
-- its own words and for good, calls a stream malformed only if it is, and sends what it has queued.
structure Recited (cfg : Config) (c : Connection) : Prop where
  heard  : c.Heard cfg
  ends   : c.Sealed
  noted  : ⟨c.reqMajor, c.reqMinor, c.lastHead⟩ = heading c.reports
  worded : ∀ o d r, .final o d r ∈ c.log → o.isAnswer = false →
    c.closeAfter ∧ Refuses (heading c.reports) o r
  judged : ∀ d r, .final .malformed d r ∈ c.log →
    ∃ err, ideal cfg.limits {} c.stream = (c.reports, some (.badRequest err))
  wire   : c.log.flatMap Entry.handed <+: c.log.flatMap Entry.queued
  output : c.alive → c.log.flatMap Entry.queued = c.log.flatMap Entry.handed ++ c.output

variable {c c' : Connection} {as : List Act} {date : Bytes} {o : Origin} {status : Nat} {detail : String}

theorem Recited.new (id : ConnId) (fd : Fd) (now : Time) (m : Mask) :
    Recited cfg { Connection.new id fd now with appliedMask := m } where
  heard    := .new ..
  ends     := by simp [Sealed, Connection.new]
  noted    := rfl
  worded   := by simp [Connection.new]
  judged   := by simp [Connection.new]
  wire     := List.nil_prefix
  output _ := rfl

-- The entries that were added went to the output buffer or came from it.
theorem Recited.wires (es : List Entry) (h : c.Recited cfg) (hl : c'.log = c.log ++ es)
    (hw : es.flatMap Entry.handed = [] ∨
      c.alive ∧ es.flatMap Entry.handed <+: c.output ++ es.flatMap Entry.queued) :
    c'.log.flatMap Entry.handed <+: c'.log.flatMap Entry.queued := by
  rw [hl, List.flatMap_append, List.flatMap_append]
  rcases hw with hw | ⟨ha, hw⟩
  case inl =>
    rw [hw, List.append_nil]
    exact h.wire.trans (List.prefix_append ..)
  case inr =>
    rw [h.output ha, List.append_assoc]
    exact (List.prefix_append_right_inj _).mpr hw

theorem Recited.outputs (es : List Entry) (h : c.Recited cfg) (hl : c'.log = c.log ++ es)
    (ho : c'.alive → c.alive ∧
      c.output ++ es.flatMap Entry.queued = es.flatMap Entry.handed ++ c'.output) :
    c'.alive → c'.log.flatMap Entry.queued = c'.log.flatMap Entry.handed ++ c'.output := by
  intro ha
  obtain ⟨ha, ho⟩ := ho ha
  rw [hl, List.flatMap_append, List.flatMap_append, h.output ha, List.append_assoc, ho,
    List.append_assoc]

-- A move that has nothing to do with what was parsed or refused.
theorem Recited.keep (es : List Entry) (h : c.Recited cfg) (hh : c'.Heard cfg) (hs : c'.Sealed)
    (hl : c'.log = c.log ++ es) (ha : es.flatMap Entry.arrived = [])
    (hr : es.filterMap Entry.report = [])
    (hn : (⟨c'.reqMajor, c'.reqMinor, c'.lastHead⟩ : Heading) = ⟨c.reqMajor, c.reqMinor, c.lastHead⟩)
    (hf : ∀ o d r, .final o d r ∈ es → o.isAnswer) (hc : c.closeAfter → c'.closeAfter)
    (hw : es.flatMap Entry.handed = [] ∨
      c.alive ∧ es.flatMap Entry.handed <+: c.output ++ es.flatMap Entry.queued)
    (ho : c'.alive → c.alive ∧
      c.output ++ es.flatMap Entry.queued = es.flatMap Entry.handed ++ c'.output) :
    c'.Recited cfg := by
  have hr' : c'.reports = c.reports := by simp [reports, hl, hr]
  have ha' : c'.stream = c.stream := by simp [stream, hl, ha]
  have hold {o d r} (ho : o.isAnswer = false) (hm : .final o d r ∈ c'.log) : .final o d r ∈ c.log := by
    rw [hl] at hm
    exact (List.mem_append.mp hm).resolve_right fun hm => by simp [hf o d r hm] at ho
  refine ⟨hh, hs, by rw [hr', hn]; exact h.noted, fun o d r hm ho => ?_, fun d r hm => ?_,
    h.wires es hl hw, h.outputs es hl ho⟩
  · obtain ⟨hca, hx⟩ := h.worded o d r (hold ho hm) ho
    exact ⟨hc hca, hr' ▸ hx⟩
  · rw [ha', hr']
    exact h.judged d r (hold rfl hm)

-- A move of a connection that has not refused anything yet.
theorem Recited.grow (es : List Entry) (h : c.Recited cfg) (hh : c'.Heard cfg) (hs : c'.Sealed)
    (hc : c.closeAfter = false) (hl : c'.log = c.log ++ es)
    (hn : ⟨c'.reqMajor, c'.reqMinor, c'.lastHead⟩ = heading c'.reports)
    (hf : ∀ o d r, .final o d r ∈ es → c'.closeAfter ∧ Refuses (heading c'.reports) o r)
    (hj : ∀ d r, .final .malformed d r ∈ es →
      ∃ err, ideal cfg.limits {} c'.stream = (c'.reports, some (.badRequest err)))
    (hw : es.flatMap Entry.handed = [])
    (ho : c'.alive → c.alive ∧ c.output ++ es.flatMap Entry.queued = c'.output) :
    c'.Recited cfg := by
  have hold {o d r} (ho : o.isAnswer = false) (hm : .final o d r ∈ c'.log) : .final o d r ∈ es := by
    rw [hl] at hm
    refine (List.mem_append.mp hm).resolve_left fun hm => ?_
    simp [h.heard.answers hc o d r hm] at ho
  refine ⟨hh, hs, hn, fun o d r hm ho => hf o d r (hold ho hm), fun d r hm => hj d r (hold rfl hm),
    h.wires es hl (.inl hw), h.outputs es hl ?_⟩
  simpa only [hw, List.nil_append] using ho

-- The connection refuses to go on. Its last request may be part of the reason.
theorem Recited.refuse (es : List Entry) (h : c.Recited cfg)
    (hh : (c'.queueError date o status detail).Heard cfg)
    (hs : (c'.queueError date o status detail).Sealed) (hc : c.closeAfter = false) (ha : c.alive)
    (hl : c'.log = c.log ++ es) (hn : ⟨c'.reqMajor, c'.reqMinor, c'.lastHead⟩ = heading c'.reports)
    (hf : ∀ o d r, .final o d r ∉ es) (hq : es.flatMap Entry.queued = [])
    (hw : es.flatMap Entry.handed = []) (ho : c'.output = c.output)
    (hx : ∀ x : Heading, Refuses x o (x.error status detail))
    (hj : o = .malformed → ∃ err, ideal cfg.limits {} c'.stream = (c'.reports, some (.badRequest err))) :
    (c'.queueError date o status detail).Recited cfg := by
  have hr : (c'.queueError date o status detail).reports = c'.reports := queueError_reports
  have hs' : (c'.queueError date o status detail).stream = c'.stream := queueError_stream
  refine h.grow (es ++ [.final o date (Heading.error ⟨c'.reqMajor, c'.reqMinor, c'.lastHead⟩ status
    detail)]) hh hs hc ?_ ?_ ?_ ?_ (by simp [hw]) fun _ => ⟨ha, ?_⟩
  · rw [← List.append_assoc, ← hl]
    rfl
  · rw [hr]
    exact hn
  · intro o' d r hm
    rcases List.mem_append.mp hm with hm | hm
    case inl => exact absurd hm (hf o' d r)
    case inr =>
      cases List.mem_singleton.mp hm
      rw [hr, ← hn]
      exact ⟨rfl, hx _⟩
  · intro d r hm
    rw [hr, hs']
    rcases List.mem_append.mp hm with hm | hm
    case inl => exact absurd hm (hf _ d r)
    case inr =>
      cases List.mem_singleton.mp hm
      exact hj rfl
  · rw [List.flatMap_append, hq, List.nil_append, ← ho]
    simp [queueError, queueResponse, Heading.error]

-- A parser that fails has found what is wrong with the stream.
theorem InStep.malformed {p : Parser} {b : Bytes} {err : String} (h : c.InStep cfg)
    (hp : c.parser.parse cfg.limits c.input = (.badRequest err, p, b)) :
    Parser.ideal cfg.limits {} c.stream = (c.reports, some (.badRequest err)) := by
  have hf := (passes_of_not_tooLarge h.ready.scan hp not_false).fail_ideal h.ready trivial not_false []
  have ht := h.ideal []
  rw [List.append_nil] at hf ht
  rw [ht, List.append_nil, hf, List.append_nil]

theorem Move.recited {a : Option Act} (hm : Move cfg c a c') (h : c.Recited cfg)
    (hr : a = some .refuse → c.closeAfter = false) : c'.Recited cfg := by
  have hh := hm.heard h.heard
  have hs := hm.sealed h.ends hr
  cases hm
  case send n _ ha _ _ =>
    refine h.keep [_] hh hs rfl (by simp) (by simp) rfl (by simp) (fun h => h) (.inr ⟨ha, ?_⟩) ?_
    · simp [List.take_prefix]
    · simp [consume, ha]
  case kill =>
    exact h.keep [] hh hs (by simp [Connection.kill]) rfl rfl rfl (by simp) (fun _ => rfl) (.inl rfl)
      fun ha => by cases ha
  case append bs now hw _ =>
    have hi := wantRead_idle hw
    refine h.grow [_] hh hs hi.opens rfl ?_ (by simp) (by simp) rfl
      fun ha => ⟨ha, by simp [Connection.append]⟩
    have hr : (c.append bs now).reports = c.reports := by simp [reports, Connection.append]
    rw [hr]
    exact h.noted
  case expect p b hi hp =>
    refine h.grow [.interim] hh hs hi.opens rfl ?_ (by simp) (by simp) rfl
      fun _ => ⟨hi.alive, by simp [queueContinue, store]⟩
    have hr : (c.store p b).queueContinue.reports = c.reports ++ [.expect100] := by
      simp [reports, queueContinue, store]
    rw [hr, heading_interim]
    exact h.noted
  case submit p b req hi hp =>
    refine h.grow [.parsed req, .submitted ⟨c.id, c.nextSeq, req⟩] hh hs hi.opens
      (List.append_assoc ..) ?_ (by simp) (by simp) rfl
      fun _ => ⟨hi.alive, by simp [record, beginRequest, store]⟩
    have hr : (((c.store p b).beginRequest req).record
        (.submitted ⟨c.id, c.nextSeq, req⟩)).reports = c.reports ++ [.request req] := by
      simp [reports, record, beginRequest, store]
    rw [hr, heading_request]
    rfl
  case overload p b req date hi hp =>
    refine h.refuse [.parsed req] hh hs hi.opens hi.alive rfl ?_ (by simp) rfl rfl rfl
      (fun _ => .overload) fun ho => by cases ho
    have hr : { (c.store p b).beginRequest req with inFlight := false }.reports =
        c.reports ++ [.request req] := by
      simp [reports, beginRequest, store]
    rw [hr, heading_request]
    rfl
  case overflow hi _ =>
    exact h.refuse [] hh hs hi.opens hi.alive (by simp) h.noted (by simp) rfl rfl rfl
      (fun _ => .overflow) fun ho => by cases ho
  case tooLarge hi _ =>
    exact h.refuse [] hh hs hi.opens hi.alive (by simp [store]) h.noted (by simp) rfl rfl rfl
      (fun _ => .tooLarge) fun ho => by cases ho
  case malformed hi hp =>
    exact h.refuse [] hh hs hi.opens hi.alive (by simp [store]) h.noted (by simp) rfl rfl rfl
      (fun _ => .malformed) fun _ => ⟨_, (h.heard.inStep hi.alive hi.opens).malformed hp⟩
  case timeout ha _ _ =>
    exact h.refuse [] hh hs (hr rfl) ha (by simp) h.noted (by simp) rfl rfl rfl
      (fun _ => .timeout) fun ho => by cases ho
  case answer x _ ha _ _ =>
    refine h.keep [_] hh hs rfl (by simp) (by simp) rfl ?_ ?_ (.inl (by simp)) ?_
    · intro o d r hm
      cases List.mem_singleton.mp hm
      rfl
    · intro hc
      simp [hc]
    · exact fun _ => ⟨ha, by simp [queueResponse]⟩
  case close | hangup =>
    exact h.keep [] hh hs (by simp) rfl rfl rfl (by simp) (fun _ => rfl) (.inl rfl)
      fun ha => ⟨ha, by simp⟩
  case more | eof | drain | mask =>
    exact h.keep [] hh hs (by simp [store]) rfl rfl rfl (by simp) (fun h => h) (.inl rfl)
      fun ha => ⟨ha, by simp [store]⟩

end Connection
end Http
