import HttpServer.Connection.Theorems.Follows
import HttpServer.Handler.Theorems.Replies

open Text

namespace Http

open Client

-- The response was asked for with HEAD.
def Origin.isHead : Origin → Bool
  | answer job   => job.req.isHead
  | overload req => req.isHead
  | _            => false

-- A response as it stands in the output buffer: its fields announce the bytes that follow them.
structure Framed (date : Bytes) (res : Response) : Prop where
  wire   : serializeResponse date res =
    wireStatus res ++ crlf ++ (wireFields date res).flatMap (wireField · ++ crlf) ++ crlf ++
    sentBody res
  length : valuesOf (ascii "Content-Length") ((wireFields date res).map trimmed) =
    [decimal (sentBody res).length]

def Entry.Framed : Entry → Prop
  | final origin date res => res.status = 204 ∨ origin.isHead ∨ Http.Framed date res
  | _                     => True

variable {cfg : Config} {id : ConnId} {l : List Entry} {ph : Phase} {res : Response} {date : Bytes}
variable {e : Entry} {origin : Origin} {status : Nat} {detail : String}

theorem Response.Framable.framed (h : res.Framable false) (hs : res.status ≠ 204) :
    Framed date res where
  wire   := serializeResponse_eq date res
  length := by
    have hb : sentBody res = res.body := by simp [sentBody, h.sends, hs]
    rw [valuesOf_contentLength h, if_neg hs, hb]

-- What the workers have computed is framed.
theorem History.framed {job : Job} (h : History cfg id l ph)
    (he : .final (.answer job) date res ∈ l) : (Entry.final (.answer job) date res).Framed := by
  have hr : (job, res) ∈ l.filterMap Entry.result := List.mem_filterMap.mpr ⟨_, he, rfl⟩
  have ⟨_, _, throws, hr⟩ := h.result_own hr
  have hf := runJob_framable cfg throws job.req
  rw [← hr] at hf
  by_cases hs : res.status = 204
  case pos => exact .inl hs
  case neg =>
    cases hh : job.req.isHead
    case true  => exact .inr (.inl hh)
    case false => exact .inr (.inr (Response.Framable.framed (hh ▸ hf) hs))

namespace Connection

variable {c c' : Connection} {as : List Act}

-- The responses that the loop has made up itself are framed.
def ErrorsFramed (c : Connection) : Prop :=
  ∀ origin date res, .final origin date res ∈ c.log → origin.isAnswer = false →
    (Entry.final origin date res).Framed

theorem ErrorsFramed.keep (h : c.ErrorsFramed) (es : List Entry) (hl : c'.log = c.log ++ es)
    (he : ∀ origin date res, .final origin date res ∈ es → origin.isAnswer) : c'.ErrorsFramed := by
  intro origin date res hm ho
  rw [hl] at hm
  rcases List.mem_append.mp hm with hm | hm
  case inl => exact h origin date res hm ho
  case inr => simp [he origin date res hm] at ho

-- An error response keeps its body unless the last request was HEAD.
theorem ErrorsFramed.queueError (h : c.ErrorsFramed) (hh : c.lastHead → origin.isHead)
    (h₂ : status ≠ 204) (h₃ : status ≠ 304) :
    (c.queueError date origin status detail).ErrorsFramed := by
  intro o d res hm ho
  simp only [Connection.queueError, queueResponse, List.mem_append, List.mem_singleton] at hm
  rcases hm with hm | hm
  case inl => exact h o d res hm ho
  case inr =>
    cases hm
    cases hl : c.lastHead
    case true => exact .inr (.inl (hh hl))
    case false =>
      have hf := makeErrorResponse_framable h₃ (ascii detail) false
      have hs : (makeErrorResponse status (ascii detail) false).status = status := by
        simp only [makeErrorResponse]
        split <;> rfl
      exact .inr (.inr (Response.Framable.framed ⟨hf.tokens, hf.names, hf.empty, hf.sends⟩
        (by simpa [hs] using h₂)))

theorem Move.errorsFramed {a : Option Act} (hm : Move cfg c a c') (h : c.ErrorsFramed)
    (hr : a = some .refuse → c.lastHead = false) : c'.ErrorsFramed := by
  cases hm
  case send     => exact h.keep [_] rfl (by simp)
  case append   => exact h.keep [_] rfl (by simp)
  case expect   => exact h.keep [_] rfl (by simp)
  case submit   => exact h.keep [_, _] (List.append_assoc ..) (by simp)
  case answer   => exact h.keep [_] rfl fun _ _ _ he => by cases List.mem_singleton.mp he; rfl
  case overload p b req _ _ _ =>
    have h : { (c.store p b).beginRequest req with inFlight := false }.ErrorsFramed :=
      h.keep [.parsed req] rfl (by simp)
    exact h.queueError (fun hh => hh) (by decide) (by decide)
  case overflow | timeout => exact h.queueError (by simp [hr]) (by decide) (by decide)
  case malformed p b _ _ _ _ | tooLarge p b _ _ _ _ =>
    have h : (c.store p b).ErrorsFramed := h
    have hr : (c.store p b).lastHead = false := hr rfl
    exact h.queueError (by simp [hr]) (by decide) (by decide)
  all_goals exact h.keep [] (List.append_nil _).symm (by simp)

theorem Move.lastHead_eq (hm : Move cfg c none c') : c'.lastHead = c.lastHead := by
  cases hm <;> rfl

-- A callback refuses with what the last request before it has left behind.
theorem Moves.errorsFramed (hm : Moves cfg c as c') (h : c.ErrorsFramed) (ha : as.length ≤ 1)
    (hr : .refuse ∈ as → c.lastHead = false) : c'.ErrorsFramed := by
  induction hm
  case refl => exact h
  case head a _ as _ hm _ hi =>
    have h' := hm.errorsFramed h fun he => hr (by simp [he])
    cases a
    case none =>
      exact hi h' (by simpa using ha) fun hm' => hm.lastHead_eq.trans (hr (by simpa using hm'))
    case some =>
      have hn : as = [] := by simpa using ha
      exact hi h' (by simp [hn]) (by simp [hn])

end Connection
end Http
