import HttpServer.Connection.Theorems.Follows
import HttpServer.Connection.Theorems.Reading
import HttpServer.Parser.Theorems.Continue

open Http.Parser

namespace Http

-- The results of the calls that belong to a request, and those since the last one.
def Parser.Emitted.reports (x : Emitted) : List ParseStatus :=
  .replicate x.continues .expect100 ++ [.request x.request]

def spelled (es : List Emitted) (k : Nat) : List ParseStatus :=
  es.flatMap (·.reports) ++ .replicate k .expect100

variable {cfg : Config} {req : Request}

namespace Connection

-- The parser is in a dialogue about all that was received, and what it reported is in the log. The
-- parser of a connection that was given up may be in any state.
def Converses (cfg : Config) (c : Connection) (es : List Emitted) (k : Nat) (d : Bytes) : Prop :=
  ∃ p b, Dialogue cfg.limits c.stream es k d p b ∧ c.reports = spelled es k ∧
    (c.alive → c.closeAfter = false → p = c.parser ∧ b = c.input)

variable {c c' : Connection} {as : List Act} {p : Parser} {b d : Bytes} {now : Time}
variable {es : List Emitted} {k : Nat}

theorem Converses.new (id : ConnId) (fd : Fd) (now : Time) (m : Mask) :
    Converses cfg { Connection.new id fd now with appliedMask := m } [] 0 [] :=
  ⟨{}, [], .fresh, rfl, fun _ _ => ⟨rfl, rfl⟩⟩

theorem Converses.keep (h : Converses cfg c es k d) (hs : c'.stream = c.stream)
    (hr : c'.reports = c.reports)
    (hp : c'.alive → c'.closeAfter = false →
      c.alive ∧ c.closeAfter = false ∧ c'.parser = c.parser ∧ c'.input = c.input) :
    Converses cfg c' es k d := by
  have ⟨p, b, hd, he, hc⟩ := h
  refine ⟨p, b, hs ▸ hd, hr.trans he, fun ha ho => ?_⟩
  have ⟨ha, ho, h₁, h₂⟩ := hp ha ho
  rw [h₁, h₂]
  exact hc ha ho

theorem Converses.append {bs : Bytes} (h : Converses cfg c es k d) :
    Converses cfg (c.append bs now) es k d := by
  obtain ⟨p, b, hd, he, hc⟩ := h
  have hs : (c.append bs now).stream = c.stream ++ bs := by simp [stream, Connection.append]
  have hr : (c.append bs now).reports = c.reports := by simp [reports, Connection.append]
  refine ⟨p, b ++ bs, hs ▸ .receive bs hd, hr.trans he, fun ha ho => ?_⟩
  obtain ⟨hp, hb⟩ := hc ha ho
  exact ⟨hp, by rw [hb]; rfl⟩

theorem Converses.more (h : Converses cfg c es k d) (hi : c.Idle)
    (hp : c.parser.parse cfg.limits c.input = (.needMore, p, b)) :
    ∃ es k d, Converses cfg (c.store p b) es k d := by
  have ⟨_, _, hd, he, hc⟩ := h
  have ⟨h₁, h₂⟩ := hc hi.alive hi.opens
  exact ⟨_, _, _, _, _, .waits hd (h₁ ▸ h₂ ▸ hp), he, fun _ _ => ⟨rfl, rfl⟩⟩

theorem Converses.expect (h : Converses cfg c es k d) (hi : c.Idle)
    (hp : c.parser.parse cfg.limits c.input = (.expect100, p, b)) :
    ∃ es k d, Converses cfg (c.store p b).queueContinue es k d := by
  have ⟨_, _, hd, he, hc⟩ := h
  have ⟨h₁, h₂⟩ := hc hi.alive hi.opens
  have hs : (c.store p b).queueContinue.stream = c.stream := by simp [stream, queueContinue, store]
  have hr : (c.store p b).queueContinue.reports = c.reports ++ [.expect100] := by
    simp [reports, queueContinue, store]
  have hd := Dialogue.expects hd (h₁ ▸ h₂ ▸ hp)
  refine ⟨_, _, _, _, _, hs ▸ hd, ?_, fun _ _ => ⟨rfl, rfl⟩⟩
  rw [hr, he, spelled, spelled, List.replicate_succ', List.append_assoc]

theorem Converses.request (h : Converses cfg c es k d) (hi : c.Idle)
    (hp : c.parser.parse cfg.limits c.input = (.request req, p, b)) (hs : c'.stream = c.stream)
    (hr : c'.reports = c.reports ++ [.request req]) (hc' : c'.parser = p) (hb' : c'.input = b) :
    ∃ es k d, Converses cfg c' es k d := by
  have ⟨_, _, hd, he, hc⟩ := h
  have ⟨h₁, h₂⟩ := hc hi.alive hi.opens
  have hd := Dialogue.reports hd (h₁ ▸ h₂ ▸ hp)
  refine ⟨_, _, _, _, _, hs ▸ hd, ?_, fun _ _ => ⟨hc'.symm, hb'.symm⟩⟩
  rw [hr, he]
  simp [spelled, Emitted.reports]

-- Whatever happens to a connection, its dialogue goes on or stays as it is.
theorem Move.converses {a : Option Act} (hm : Move cfg c a c') (h : Converses cfg c es k d) :
    ∃ es k d, Converses cfg c' es k d := by
  cases hm
  case append      => exact ⟨es, k, d, h.append⟩
  case more hi hp   => exact h.more hi hp
  case expect hi hp => exact h.expect hi hp
  case submit hi hp =>
    exact h.request hi hp (by simp [stream, record, beginRequest, store])
      (by simp [reports, record, beginRequest, store]) rfl rfl
  case overload hi hp =>
    exact h.request hi hp (by simp [stream, queueError, queueResponse, beginRequest, store])
      (by simp [reports, queueError, queueResponse, beginRequest, store]) rfl rfl
  case answer =>
    refine ⟨es, k, d, h.keep (by simp [stream, queueResponse]) (by simp [reports, queueResponse]) ?_⟩
    intro ha ho
    simp only [queueResponse_closeAfter, Bool.or_eq_false_iff] at ho
    exact ⟨ha, ho.2, rfl, rfl⟩
  case send =>
    exact ⟨es, k, d, h.keep (by simp [stream, consume]) (by simp [reports, consume])
      fun ha ho => ⟨ha, ho, rfl, rfl⟩⟩
  case eof | drain | mask =>
    exact ⟨es, k, d, h.keep rfl rfl fun ha ho => ⟨ha, ho, rfl, rfl⟩⟩
  case kill => exact ⟨es, k, d, h.keep rfl rfl fun ha => absurd ha Bool.false_ne_true⟩
  case close | hangup =>
    exact ⟨es, k, d, h.keep rfl rfl fun _ ho => absurd ho Bool.false_ne_true.symm⟩
  case overflow | malformed | tooLarge | timeout =>
    exact ⟨es, k, d, h.keep (by simp [stream, queueError, queueResponse, store])
      (by simp [reports, queueError, queueResponse, store])
      fun _ ho => absurd ho Bool.false_ne_true.symm⟩

theorem Moves.converses (hm : Moves cfg c as c') (h : ∃ es k d, Converses cfg c es k d) :
    ∃ es k d, Converses cfg c' es k d := by
  induction hm
  case refl         => exact h
  case head hm _ hi =>
    have ⟨_, _, _, h⟩ := h
    exact hi (hm.converses h)

end Connection

variable {id : ConnId} {l₁ l₂ : List Entry} {ph : Phase} {e : Entry}

-- An interim response finds all earlier requests answered.
theorem History.interims (h : History cfg id (l₁ ++ .interim :: l₂) ph) :
    l₁.filterMap Entry.request = l₁.filterMap Entry.responded := by
  have ⟨_, _, h₁, hs⟩ := h.step_of_append
  rw [h₁.responded]
  cases hs
  simp

-- A response belongs to the last request, which came before it.
theorem History.finals (h : History cfg id (l₁ ++ e :: l₂) ph) (he : e.responded = some req) :
    l₁.filterMap Entry.request = l₁.filterMap Entry.responded ++ [req] := by
  have ⟨_, _, h₁, hs⟩ := h.step_of_append
  rw [h₁.responded]
  cases hs <;> simp at he
  case overload => simp [he]
  case answer   => simp [he]
  case refusal o _ _ ho _ => cases o <;> simp at he <;> cases ho

end Http
