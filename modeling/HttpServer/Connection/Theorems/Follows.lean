import HttpServer.Connection.Theorems.History

namespace Http

variable {cfg : Config} {c c' : Connection} {ph ph' : Phase} {as : List Connection.Act}

-- The worker has already dropped the body of a response to HEAD.
theorem runJob_head (cfg : Config) (throws : Bool) (req : Request) :
    (if req.isHead then { runJob cfg throws req with sendBody := false } else runJob cfg throws req) =
      runJob cfg throws req := by
  cases h : req.isHead <;> simp [runJob, h]

namespace Connection

-- The flags of a connection agree with the phase of its log.
def Matches (c : Connection) : Phase → Prop
  | .idle     => c.inFlight = false
  | .heard _  => False
  | .busy job => c.inFlight = true ∧ job.seq = c.inflightSeq ∧ c.lastHead = job.req.isHead
  | .closing  => c.inFlight = false ∧ c.closeAfter = true

-- The connection has kept to the order, and its output buffer is what the peer has yet to get.
structure Follows (cfg : Config) (c : Connection) (ph : Phase) : Prop where
  history : History cfg c.id c.log ph
  flags   : c.alive → c.Matches ph
  wire    : c.alive → c.log.flatMap Entry.queued = c.log.flatMap Entry.handed ++ c.output

-- The jobs that are owed after an act.
def owes (js : List Job) : Act → List Job
  | .submit job         => js ++ [job]
  | .answer _           => []
  | .overload | .refuse => js

-- A completion that the connection waits for.
def Awaits (cfg : Config) (ph : Phase) (x : Completion) : Prop :=
  ph = .busy x.job ∧ ∃ throws, x.response = runJob cfg throws x.job.req

theorem Idle.phase (hi : c.Idle) (h : Follows cfg c ph) : ph = .idle := by
  have hm := h.flags hi.alive
  cases ph <;> simp_all [Matches, hi.free, hi.opens]

namespace Follows

theorem new (id : ConnId) (fd : Fd) (now : Time) (m : Mask) :
    Follows cfg { Connection.new id fd now with appliedMask := m } .idle where
  history := .nil
  flags _ := rfl
  wire _  := rfl

theorem extend (es : List Entry) (h : Follows cfg c ph)
    (hh : History cfg c.id (c.log ++ es) ph') (hi : c'.id = c.id) (hl : c'.log = c.log ++ es)
    (hm : c'.alive → c.alive ∧ c'.Matches ph' ∧
      c.output ++ es.flatMap Entry.queued = es.flatMap Entry.handed ++ c'.output) :
    Follows cfg c' ph' where
  history := by rw [hi, hl]; exact hh
  flags ha := (hm ha).2.1
  wire ha := by
    have ⟨ha, _, ho⟩ := hm ha
    rw [hl, List.flatMap_append, List.flatMap_append, h.wire ha, List.append_assoc, ho,
      List.append_assoc]

theorem snoc {e : Entry} (h : Follows cfg c ph) (hs : Phase.Step cfg c.id ph e ph')
    (hi : c'.id = c.id) (hl : c'.log = c.log ++ [e])
    (hm : c'.alive → c.alive ∧ c'.Matches ph' ∧ c.output ++ e.queued = e.handed ++ c'.output) :
    Follows cfg c' ph' :=
  h.extend [e] (.snoc h.history hs) hi hl (by simpa using hm)

theorem keep (h : Follows cfg c ph) (hi : c'.id = c.id) (hl : c'.log = c.log)
    (hm : c'.alive → c.alive ∧ c'.Matches ph ∧ c'.output = c.output) : Follows cfg c' ph :=
  h.extend [] (by simpa using h.history) hi (by simpa using hl)
    (by simpa [eq_comm (a := c.output)] using hm)

theorem store (h : Follows cfg c ph) (p : Parser) (b : Bytes) : Follows cfg (c.store p b) ph :=
  h.keep rfl rfl fun ha => ⟨ha, by cases ph <;> exact h.flags ha, rfl⟩

-- An error response that the peer has not asked for.
theorem refuse {date : Bytes} {origin : Origin} {status : Nat} {detail : String}
    (h : Follows cfg c ph) (ho : origin.isRefusal) (ha : c.alive) (hf : c.inFlight = false) :
    Follows cfg (c.queueError date origin status detail) .closing := by
  have hm := h.flags ha
  have hp : ph = .idle ∨ ph = .closing := by
    cases ph <;> simp_all [Matches]
  exact h.snoc (.refusal ho hp) rfl rfl fun _ => ⟨ha, ⟨hf, rfl⟩, rfl⟩

end Follows

theorem Move.follows {a : Option Act} (hm : Move cfg c a c') (h : Follows cfg c ph)
    (hx : ∀ x, a = some (.answer x) → Awaits cfg ph x) :
    ∃ ph', Follows cfg c' ph' ∧ ph'.jobs = a.toList.foldl owes ph.jobs := by
  have hf := h.flags
  cases hm
  case send ha _ _ =>
    refine ⟨ph, h.snoc .sent rfl rfl fun _ => ⟨ha, ?_, ?_⟩, rfl⟩
    · cases ph <;> exact hf ha
    · simp [consume]
  case kill => exact ⟨ph, h.keep rfl rfl nofun, rfl⟩
  case append hw _ =>
    have ha := (wantRead_idle hw).alive
    refine ⟨ph, h.snoc .received rfl rfl fun _ => ⟨ha, ?_, by simp [Connection.append]⟩, rfl⟩
    cases ph <;> exact hf ha
  case eof => exact ⟨ph, h.keep rfl rfl fun ha => ⟨ha, by cases ph <;> exact hf ha, rfl⟩, rfl⟩
  case overflow hi _ =>
    cases hi.phase h
    exact ⟨_, h.refuse rfl hi.alive hi.free, rfl⟩
  case more hi _ =>
    exact ⟨ph, h.keep rfl rfl fun ha => ⟨ha, by cases ph <;> exact hf ha, rfl⟩, rfl⟩
  case expect hi _ =>
    cases hi.phase h
    exact ⟨.idle, h.snoc .interim rfl rfl fun _ => ⟨hi.alive, hi.free, rfl⟩, rfl⟩
  case malformed hi _ =>
    cases hi.phase h
    exact ⟨_, (h.store _ _).refuse rfl hi.alive hi.free, rfl⟩
  case tooLarge hi _ =>
    cases hi.phase h
    exact ⟨_, (h.store _ _).refuse rfl hi.alive hi.free, rfl⟩
  case submit req hi _ =>
    cases hi.phase h
    refine ⟨.busy ⟨c.id, c.nextSeq, req⟩, h.extend [_, _] ?_ rfl (List.append_assoc ..)
      fun _ => ⟨hi.alive, ⟨rfl, rfl, rfl⟩, ?_⟩, rfl⟩
    · exact List.append_cons .. ▸ .snoc (.snoc h.history .parsed) .submitted
    · simp [record, beginRequest, Connection.store]
  case overload hi _ =>
    cases hi.phase h
    refine ⟨.closing, h.extend [_, _] ?_ rfl (List.append_assoc ..)
      fun _ => ⟨hi.alive, ⟨rfl, rfl⟩, ?_⟩, rfl⟩
    · exact List.append_cons .. ▸ .snoc (.snoc h.history .parsed) .overload
    · simp [queueError, queueResponse, beginRequest, Connection.store]
  case answer x _ ha hi hs =>
    have ⟨hp, throws, hr⟩ := hx x rfl
    subst hp
    have hh : c.lastHead = x.job.req.isHead := (hf ha).2.2
    have he := runJob_head cfg throws x.job.req
    rw [← hh, ← hr] at he
    refine ⟨.idle, h.snoc (.answer (he.trans hr)) rfl rfl fun _ => ⟨ha, rfl, rfl⟩, rfl⟩
  case timeout ha hi _ =>
    have hj : ph.jobs = [] := by
      have hm := hf ha
      cases ph <;> simp_all [Matches]
    exact ⟨_, h.refuse rfl ha hi, hj.symm⟩
  case close hi _ _ =>
    refine ⟨ph, h.keep rfl rfl fun ha => ⟨ha, ?_, rfl⟩, rfl⟩
    cases ph <;> first | exact hf ha | exact ⟨hi, rfl⟩
  case hangup =>
    refine ⟨ph, h.keep rfl rfl fun ha => ⟨ha, ?_, rfl⟩, rfl⟩
    cases ph <;> first | exact hf ha | exact ⟨(hf ha).1, rfl⟩
  case drain => exact ⟨ph, h.keep rfl rfl fun ha => ⟨ha, by cases ph <;> exact hf ha, rfl⟩, rfl⟩
  case mask  => exact ⟨ph, h.keep rfl rfl fun ha => ⟨ha, by cases ph <;> exact hf ha, rfl⟩, rfl⟩

theorem Phase.jobs_eq {job : Job} (h : ph.jobs = [job]) : ph = .busy job := by
  cases ph <;> simp_all

-- A completion is the only act of the callback that brings it.
theorem Moves.follows (hm : Moves cfg c as c') (h : Follows cfg c ph)
    (hx : ∀ x, .answer x ∈ as → as = [.answer x] ∧ Awaits cfg ph x) :
    ∃ ph', Follows cfg c' ph' ∧ ph'.jobs = as.foldl owes ph.jobs := by
  induction hm generalizing ph
  case refl => exact ⟨ph, h, rfl⟩
  case head a _ as _ hm _ hi =>
    obtain ⟨ph₁, h₁, hj⟩ := hm.follows h fun x ha => (hx x (by simp [ha])).2
    have ht : ∀ x, .answer x ∈ as → as = [.answer x] ∧ Awaits cfg ph₁ x := by
      intro x ha
      obtain ⟨hl, hp, hr⟩ := hx x (List.mem_append_right _ ha)
      cases a
      case none   => exact ⟨hl, Phase.jobs_eq (by simpa [hp] using hj), hr⟩
      case some a => simp_all
    obtain ⟨ph', h', hj'⟩ := hi h₁ ht
    exact ⟨ph', h', by rw [hj', hj, List.foldl_append]⟩

end Connection
end Http
