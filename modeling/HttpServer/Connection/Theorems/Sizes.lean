import HttpServer.Connection.Theorems.Sequential
import HttpServer.Connection.Theorems.Stamps
import HttpServer.Handler.Theorems.Sizes

open Http.Parser

namespace Http

variable {cfg : Config} {id : ConnId} {l : List Entry} {ph : Phase}

-- The responses of the workers are for requests that the parser has reported.
theorem History.final (h : History cfg id l ph) :
    (∀ req ∈ ph.owed, .parsed req ∈ l) ∧ ∀ job d r, .final (.answer job) d r ∈ l →
      .parsed job.req ∈ l ∧ ∃ throws, r = runJob cfg throws job.req := by
  induction h
  case nil => simp
  case snoc l ph e ph' _ hs hi =>
    obtain ⟨ho, hf⟩ := hi
    refine ⟨?_, fun job d r hm => ?_⟩
    · cases hs <;> simp_all
    · rcases List.mem_append.mp hm with hm | hm
      case inl => exact ⟨List.mem_append_left _ (hf job d r hm).1, (hf job d r hm).2⟩
      case inr =>
        cases List.mem_singleton.mp hm
        cases hs
        case answer he  => exact ⟨List.mem_append_left _ (ho _ (by simp)), _, he⟩
        case refusal hr => cases hr

-- The version of an error response is that of a request.
theorem Serial.heading_minor {sts : List ParseStatus}
    (h : ∀ req, .request req ∈ sts → Request.Sized cfg.limits req) :
    (heading sts).major = 1 ∧ (heading sts).minor ≤ 1 := by
  induction sts using List.reverseRecOn
  case nil => exact ⟨rfl, Nat.le_refl _⟩
  case append_singleton sts st hi =>
    have hi := hi fun req hm => h req (List.mem_append_left _ hm)
    rw [heading, List.foldl_append]
    cases st
    case request req => exact (h req (by simp)).minor
    all_goals exact hi

theorem Refuses.modest {x : Heading} {o : Origin} {r : Response} (h : Refuses x o r)
    (hx : x.major = 1 ∧ x.minor ≤ 1) : r.Modest cfg := by
  have he {n : Nat} {s : String} (hn : n < 1000) (hs : (ascii s).length ≤ 100) :
      (x.error n s).Modest cfg := by
    have hm : (makeErrorResponse n (ascii s) false).Modest cfg := makeErrorResponse_modest hn hs
    rw [Heading.error]
    split <;> exact hm.keep hx rfl rfl rfl
  cases h <;> exact he (by decide) (by decide)

namespace Connection

-- What was parsed has a limited size, and so has what is being parsed.
structure Sized (cfg : Config) (c : Connection) : Prop where
  step   : c.alive → c.closeAfter = false → c.InStep cfg ∧ Parser.Sized cfg.limits c.parser
  parsed : ∀ req, .parsed req ∈ c.log → Request.Sized cfg.limits req

variable {c c' : Connection}

theorem Sized.new (id : ConnId) (fd : Fd) (now : Time) (m : Mask) :
    Sized cfg { Connection.new id fd now with appliedMask := m } where
  step _ _ := ⟨.new .., .fresh⟩
  parsed   := by simp [Connection.new]

-- The parser is left alone or will not be asked again.
theorem Sized.keep (es : List Entry) (h : c.Sized cfg)
    (hs : c'.alive → c'.closeAfter = false → c'.InStep cfg) (hl : c'.log = c.log ++ es)
    (hp : c'.alive → c'.closeAfter = false →
      c.alive ∧ c.closeAfter = false ∧ c'.parser = c.parser)
    (hn : ∀ req, .parsed req ∈ es → Request.Sized cfg.limits req) : c'.Sized cfg := by
  refine ⟨fun ha ho => ⟨hs ha ho, ?_⟩, fun req hm => ?_⟩
  · obtain ⟨ha, ho, he⟩ := hp ha ho
    rw [he]
    exact (h.step ha ho).2
  · rw [hl] at hm
    exact (List.mem_append.mp hm).elim (h.parsed req) (hn req)

-- The parser has got on.
theorem Sized.report {st : ParseStatus} {p : Parser} {b : Bytes} (h : c.Sized cfg) (hi : c.Idle)
    (hp : c.parser.parse cfg.limits c.input = (st, p, b)) (hn : ¬IsError st) :
    Parser.Sized cfg.limits p ∧ ∀ req, st = .request req → Request.Sized cfg.limits req := by
  obtain ⟨hs, hz⟩ := h.step hi.alive hi.opens
  exact parse_sized hz hs.ready.scan hp hn

theorem Move.sized {a : Option Act} (hm : Move cfg c a c') (h : c.Sized cfg) : c'.Sized cfg := by
  have hs := hm.inStep fun ha ho => (h.step ha ho).1
  cases hm
  case send    => exact h.keep [_] hs rfl (fun ha ho => ⟨ha, ho, rfl⟩) (by simp)
  case append  => exact h.keep [_] hs rfl (fun ha ho => ⟨ha, ho, rfl⟩) (by simp)
  case answer  =>
    refine h.keep [_] hs rfl (fun ha ho => ⟨ha, ?_, rfl⟩) (by simp)
    simp only [queueResponse_closeAfter, Bool.or_eq_false_iff] at ho
    exact ho.2
  case more hi hp =>
    exact ⟨fun ha ho => ⟨hs ha ho, (h.report hi hp not_false).1⟩, h.parsed⟩
  case expect hi hp =>
    refine ⟨fun ha ho => ⟨hs ha ho, (h.report hi hp not_false).1⟩, fun req hr => h.parsed req ?_⟩
    simpa [queueContinue, store] using hr
  case submit req hi hp =>
    obtain ⟨hz, hr⟩ := h.report hi hp not_false
    refine ⟨fun ha ho => ⟨hs ha ho, hz⟩, fun req' hm => ?_⟩
    simp only [record, beginRequest, store, List.mem_append, List.mem_singleton, reduceCtorEq,
      or_false, Entry.parsed.injEq] at hm
    rcases hm with hm | rfl
    case inl => exact h.parsed req' hm
    case inr => exact hr _ rfl
  case overload req _ hi hp =>
    refine h.keep [.parsed req, _] hs (List.append_assoc ..) (fun _ ho => by cases ho) ?_
    simp only [List.mem_cons, Entry.parsed.injEq, reduceCtorEq, List.not_mem_nil, or_false]
    rintro _ rfl
    exact (h.report hi hp not_false).2 _ rfl
  case eof | drain | mask => exact h.keep [] hs (by simp) (fun ha ho => ⟨ha, ho, rfl⟩) (by simp)
  case kill => exact h.keep [] hs (by simp [Connection.kill]) (fun ha => by cases ha) (by simp)
  case close | hangup => exact h.keep [] hs (by simp) (fun _ ho => by cases ho) (by simp)
  case malformed | tooLarge | overflow | timeout =>
    exact h.keep [_] hs rfl (fun _ ho => by cases ho) (by simp)

-- All responses of a connection are limited in size, those of the workers and those of the loop.
theorem Sized.modest {o : Origin} {d : Bytes} {r : Response} (h : c.Sized cfg)
    (hh : History cfg id c.log ph) (hr : c.Recited cfg) (hm : .final o d r ∈ c.log) :
    r.Modest cfg := by
  cases ho : o.isAnswer
  case true =>
    cases o <;> cases ho
    obtain ⟨hp, throws, rfl⟩ := hh.final.2 _ _ _ hm
    exact runJob_modest (h.parsed _ hp) throws
  case false =>
    refine (hr.worded o d r hm ho).2.modest (Serial.heading_minor fun req hq => h.parsed req ?_)
    obtain ⟨e, he, hq⟩ := List.mem_filterMap.mp hq
    cases e <;> cases hq
    exact he

-- The dates of the responses have a limited size.
def Dated (n : Nat) (c : Connection) : Prop :=
  ∀ o d r, .final o d r ∈ c.log → d.length ≤ n

theorem Stamped.dated {n : Nat} {io : Io} (h : Stamped io c c') (hd : io.date.length ≤ n)
    (hc : c.Dated n) : c'.Dated n := by
  intro o d r hm
  rcases h.date o d r hm with hm | rfl
  case inl => exact hc o d r hm
  case inr => exact hd

end Connection
end Http
