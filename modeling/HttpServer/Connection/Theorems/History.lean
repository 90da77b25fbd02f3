import HttpServer.Connection.History
import HttpServer.Connection.Theorems.Moves
import Mathlib.Data.List.Forall2

namespace Http

variable {cfg : Config} {id : ConnId} {l l₁ l₂ : List Entry} {ph ph' : Phase} {e : Entry}

theorem Origin.own_of_refusal {o : Origin} (h : o.isRefusal) : o.own = [] := by
  cases o <;> first | rfl | cases h

namespace History

theorem of_append (h : History cfg id (l₁ ++ l₂) ph) : ∃ ph', History cfg id l₁ ph' := by
  induction l₂ using List.reverseRecOn generalizing ph
  case nil => exact ⟨ph, by simpa using h⟩
  case append_singleton l₂ e hi =>
    rw [← List.append_assoc] at h
    generalize hl : (l₁ ++ l₂) ++ [e] = l at h
    cases h
    case nil       => simp at hl
    case snoc h hs =>
      have ⟨hl, _⟩ := List.append_inj' hl rfl
      exact hi (hl ▸ h)

-- The entry between two parts of a log is a step from the phase that the first part leads to.
theorem step_of_append (h : History cfg id (l₁ ++ e :: l₂) ph) :
    ∃ ph₁ ph₂, History cfg id l₁ ph₁ ∧ Phase.Step cfg id ph₁ e ph₂ := by
  have hl : l₁ ++ e :: l₂ = (l₁ ++ [e]) ++ l₂ := by simp
  have ⟨_, h⟩ := of_append (hl ▸ h)
  generalize hl : l₁ ++ [e] = l at h
  cases h
  case nil       => simp at hl
  case snoc h hs =>
    have ⟨h₁, he⟩ := List.append_inj' hl rfl
    cases he
    exact ⟨_, _, h₁ ▸ h, hs⟩

-- A request has its response unless it is the last one.
theorem responded (h : History cfg id l ph) :
    l.filterMap Entry.request = l.filterMap Entry.responded ++ ph.owed := by
  induction h
  case nil => rfl
  case snoc hs hi =>
    rw [List.filterMap_append, List.filterMap_append, hi]
    cases hs
    case refusal o _ _ hr hp =>
      rcases hp with rfl | rfl <;> cases o <;> cases hr <;> rfl
    all_goals simp [List.filterMap_cons]

-- The results are those of the jobs, in order, and only the last job can be without one.
theorem results (h : History cfg id l ph) :
    l.filterMap Entry.job = (l.filterMap Entry.result).map (·.1) ++ ph.jobs := by
  induction h
  case nil => rfl
  case snoc hs hi =>
    simp only [List.filterMap_append, List.map_append, hi]
    cases hs
    case refusal o _ _ hr hp =>
      rcases hp with rfl | rfl <;> cases o <;> cases hr <;> rfl
    all_goals simp [List.filterMap_cons]

-- An error response finds all earlier requests answered.
theorem errors {origin : Origin} {date : Bytes} {res : Response}
    (h : History cfg id (l₁ ++ .final origin date res :: l₂) ph) (ho : origin.isAnswer = false) :
    l₁.filterMap Entry.request = l₁.filterMap Entry.responded ++ origin.own := by
  have ⟨_, _, h₁, hs⟩ := h.step_of_append
  rw [h₁.responded]
  cases hs
  case overload => rfl
  case answer   => cases ho
  case refusal hp hr => rcases hp with rfl | rfl <;> simp [Origin.own_of_refusal hr]

-- The jobs are made of the requests, in order. A request that did not become a job was the last.
theorem submissions (h : History cfg id l ph) :
    ∃ rest, l.filterMap Entry.request = (l.filterMap Entry.job).map (·.req) ++ rest ∧
      (ph = .idle → rest = []) ∧ (∀ req, ph = .heard req → rest = [req]) ∧
      (∀ job, ph = .busy job → rest = []) := by
  induction h
  case nil => exact ⟨[], rfl, by simp⟩
  case snoc hs hi =>
    have ⟨rest, hr, hi, hh, hb⟩ := hi
    simp only [List.filterMap_append, List.map_append, hr]
    cases hs
    case parsed req _ _ => exact ⟨[req], by simp [hi rfl, List.filterMap_cons], by simp⟩
    case submitted  => exact ⟨[], by simp [hh _ rfl, List.filterMap_cons], by simp⟩
    case answer     => exact ⟨[], by simp [hb _ rfl, List.filterMap_cons], by simp⟩
    all_goals exact ⟨rest, by simp [List.filterMap_cons], by simp_all⟩

theorem job_own (h : History cfg id l ph) {job : Job} (hj : job ∈ l.filterMap Entry.job) :
    job.connId = id := by
  induction h
  case nil => cases hj
  case snoc hs hi =>
    rw [List.filterMap_append, List.mem_append] at hj
    rcases hj with hj | hj
    case inl => exact hi hj
    case inr =>
      cases hs <;> simp [List.filterMap_cons] at hj
      simp [hj]

-- A result was computed for a job of the same connection.
theorem result_own (h : History cfg id l ph) {job : Job} {res : Response}
    (hr : (job, res) ∈ l.filterMap Entry.result) :
    job.connId = id ∧ job ∈ l.filterMap Entry.job ∧ ∃ throws, res = runJob cfg throws job.req := by
  have hj : job ∈ l.filterMap Entry.job := by
    rw [h.results]
    exact List.mem_append_left _ (List.mem_map_of_mem hr)
  refine ⟨h.job_own hj, hj, ?_⟩
  clear hj
  induction h
  case nil => cases hr
  case snoc hs hi =>
    rw [List.filterMap_append, List.mem_append] at hr
    rcases hr with hr | hr
    case inl => exact hi hr
    case inr =>
      cases hs
      case answer =>
        simp only [Entry.result, List.filterMap_cons, List.filterMap_nil, List.mem_singleton,
          Prod.mk.injEq] at hr
        exact ⟨_, by rw [hr.1, hr.2]; assumption⟩
      case refusal o _ _ ho _ => cases o <;> cases ho <;> simp [List.filterMap_cons] at hr
      all_goals simp [List.filterMap_cons] at hr

-- The results answer the first requests, in order.
theorem answers (h : History cfg id l ph) :
    List.Forall₂ (fun req x => ∃ throws, x.2 = runJob cfg throws req)
      ((l.filterMap Entry.request).take (l.filterMap Entry.result).length)
      (l.filterMap Entry.result) := by
  have ⟨rest, hs, _⟩ := h.submissions
  have ht : (l.filterMap Entry.request).take (l.filterMap Entry.result).length =
      (l.filterMap Entry.result).map (·.1.req) := by
    rw [hs, h.results]
    simp only [List.map_append, List.map_map, List.append_assoc]
    exact List.take_left' (by simp)
  rw [ht, List.forall₂_map_left_iff, List.forall₂_same]
  exact fun _ hx => (h.result_own hx).2.2

end History
end Http
