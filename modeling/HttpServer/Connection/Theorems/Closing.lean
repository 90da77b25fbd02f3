import HttpServer.Connection.Theorems.HalfClose
import HttpServer.Handler.Theorems.Replies

open Text

namespace Http

open Client

variable {cfg : Config} {res : Response} {date : Bytes} {head : Bool} {req : Request}

-- The client finds `Connection: close` among the fields, and no other `Connection` field.
def Response.announcesClose (date : Bytes) (res : Response) : Prop :=
  valuesOf (ascii "Connection") ((wireFields date res).map trimmed) = [ascii "close"]

theorem announcesClose_iff (hf : res.Framable head) :
    res.announcesClose date ↔ res.keepAlive = false := by
  have hn : ascii "Connection" ∈ reserved := by decide
  have hl : valuesOf (ascii "Connection") ((lengthField res).map trimmed) = [] := by
    have he : equalsIgnoreCase (ascii "Content-Length") (ascii "Connection") = false := by decide
    rw [lengthField_eq hf]
    split <;> simp [valuesOf, Request.headerAll, trimmed, he]
  simp only [Response.announcesClose, wireFields, List.map_append, valuesOf_append,
    valuesOf_ownFields hf hn, valuesOf_commonFields hn, valuesOf_typeField hn, hl, List.nil_append,
    connectionField]
  cases res.keepAlive
  case false => simp only [Bool.not_false, ite_true, iff_true]; decide
  case true  =>
    simp only [Bool.not_true, Bool.false_eq_true, ite_false, Bool.true_eq_false, iff_false]
    split <;> decide

-- Handlers that close the connection say so.
theorem handleRequest_closes (req : Request) (cfg : Config) :
    (handleRequest req cfg).closeAfter → (handleRequest req cfg).keepAlive = false := by
  simp only [handleRequest, handleGetHead, handlePost, slowResponse]
  repeat' split
  all_goals first
    | exact fun _ => rfl
    | (intro h; cases h)

theorem runJob_closes (cfg : Config) (throws : Bool) (req : Request) :
    (runJob cfg throws req).closes ↔ (runJob cfg throws req).keepAlive = false := by
  have hc : (runJob cfg throws req).closeAfter → (runJob cfg throws req).keepAlive = false := by
    cases throws
    case false =>
      have h := handleRequest_closes req cfg
      simp only [runJob]
      intro hc
      simp [h hc]
    case true => intro h; cases h
  simpa [Response.closes] using hc

-- The error response that a connection makes up itself.
structure ErrorResponse (res : Response) : Prop where
  framable : ∃ head, res.Framable head
  closes   : res.keepAlive = false

def Entry.isSent : Entry → Bool
  | sent _ => true
  | _      => false

namespace Connection

variable {c c' : Connection} {as : List Act} {env : Env} {io : Io} {origin : Origin}
variable {status : Nat} {detail : String}

theorem errorResponse_queueError {major minor : Nat} (hs : status ≠ 304) (detail : Bytes) (head : Bool) :
    ErrorResponse (if head
      then { makeErrorResponse status detail false with
        reqMajor := major, reqMinor := minor, sendBody := false }
      else { makeErrorResponse status detail false with reqMajor := major, reqMinor := minor }) := by
  have hf := makeErrorResponse_framable hs detail false
  have hk : (makeErrorResponse status detail false).keepAlive = false := by
    simp only [makeErrorResponse]
    split <;> rfl
  cases head
  case false => exact ⟨⟨false, hf.tokens, hf.names, hf.empty, hf.sends⟩, hk⟩
  case true  => exact ⟨⟨true, hf.tokens, hf.names, hf.empty, rfl⟩, hk⟩

-- A final response that is queued in a callback with these acts.
inductive Issued (as : List Act) : Origin → Response → Prop
  | answer : .answer x ∈ as → r.keepAlive = x.response.keepAlive → Issued as (.answer x.job) r
  | error  : o.isAnswer = false → ErrorResponse r → Issued as o r

theorem queueError_issues (ho : origin.isAnswer = false) (hs : status ≠ 304) :
    ∃ es, (c.queueError date origin status detail).log = c.log ++ es ∧
      ∀ o d r, .final o d r ∈ es → Issued as o r := by
  refine ⟨[_], rfl, fun o d r h => ?_⟩
  cases List.mem_singleton.mp h
  exact .error ho (errorResponse_queueError hs (ascii detail) c.lastHead)

-- The final responses that a move adds to the log.
theorem Move.issues {a : Option Act} (hm : Move cfg c a c') :
    ∃ es, c'.log = c.log ++ es ∧ ∀ o d r, .final o d r ∈ es → Issued a.toList o r := by
  cases hm
  case send | append | expect => exact ⟨[_], rfl, by simp⟩
  case submit => exact ⟨[_, _], List.append_assoc .., by simp⟩
  case overflow | malformed | tooLarge | timeout => exact queueError_issues rfl (by decide)
  case overload p b req date _ _ =>
    have ⟨es, hl, hi⟩ : ∃ es, ({ (c.store p b).beginRequest req with inFlight := false }.queueError
        date (.overload req) 503 "server is at capacity").log = ((c.store p b).beginRequest req).log ++
        es ∧ ∀ o d r, .final o d r ∈ es → Issued [.overload] o r := queueError_issues rfl (by decide)
    exact ⟨.parsed req :: es, hl.trans (List.append_assoc ..), fun o d r h => hi o d r (by simpa using h)⟩
  case answer x _ _ _ _ =>
    refine ⟨[_], rfl, fun o d r h => ?_⟩
    cases List.mem_singleton.mp h
    exact .answer (by simp) (by split <;> rfl)
  all_goals exact ⟨[], (List.append_nil _).symm, by simp⟩

theorem Issued.mono {bs : List Act} {o : Origin} {r : Response} (h : Issued as o r)
    (hs : ∀ a ∈ as, a ∈ bs) : Issued bs o r := by
  cases h
  case answer hx hk => exact .answer (hs _ hx) hk
  case error ho he  => exact .error ho he

theorem Moves.issues (hm : Moves cfg c as c') :
    ∃ es, c'.log = c.log ++ es ∧ ∀ o d r, .final o d r ∈ es → Issued as o r := by
  induction hm
  case refl => exact ⟨[], (List.append_nil _).symm, by simp⟩
  case head hm _ hi =>
    have ⟨es, hl, he⟩ := hm.issues
    have ⟨es', hl', he'⟩ := hi
    refine ⟨es ++ es', by rw [hl', hl, List.append_assoc], fun o d r h => ?_⟩
    rcases List.mem_append.mp h with h | h
    case inl => exact (he o d r h).mono fun _ ha => List.mem_append_left _ ha
    case inr => exact (he' o d r h).mono fun _ ha => List.mem_append_right _ ha

-- A connection that is dead is not answered.
theorem Moves.answered {x : Completion} (hm : Moves cfg c as c') (h : .answer x ∈ as) : c.alive := by
  induction hm
  case refl => cases h
  case head hm _ hi =>
    rcases List.mem_append.mp h with h | h
    case inl => cases hm <;> first | assumption | simp at h
    case inr => exact hm.alive (hi h)

-- What the connection has made up itself is an error response.
def ErrorsClose (c : Connection) : Prop :=
  ∀ o d r, .final o d r ∈ c.log → o.isAnswer = false → ErrorResponse r

theorem Moves.errorsClose (hm : Moves cfg c as c') (h : c.ErrorsClose) : c'.ErrorsClose := by
  have ⟨es, hl, hi⟩ := hm.issues
  intro o d r hf ho
  rw [hl] at hf
  rcases List.mem_append.mp hf with hf | hf
  case inl => exact h o d r hf ho
  case inr =>
    cases hi o d r hf
    case answer   => cases ho
    case error he => exact he

-- After a response that announces the end of the connection, only sending is left.
def Sealed (c : Connection) : Prop :=
  ∀ l₁ o d r l₂, c.log = l₁ ++ .final o d r :: l₂ → r.keepAlive = false →
    c.closeAfter ∧ (c.alive → c.inFlight = false) ∧ ∀ e ∈ l₂, e.isSent

-- No response has announced the end yet.
def Unsealed (c : Connection) : Prop :=
  ∀ o d r, .final o d r ∈ c.log → r.keepAlive

namespace Sealed

theorem unsealed (h : c.Sealed) (hn : c.closeAfter = false ∨ c.alive ∧ c.inFlight) : c.Unsealed := by
  intro o d r hm
  refine Bool.not_eq_false _ |>.mp fun hk => ?_
  have ⟨l₁, l₂, hl⟩ := List.append_of_mem hm
  have ⟨hc, hi, _⟩ := h l₁ o d r l₂ hl hk
  rcases hn with hn | ⟨ha, hn⟩
  case inl => simp [hn] at hc
  case inr => simp [hi ha] at hn

theorem idle (h : c.Sealed) (hi : c.Idle) : c.Unsealed :=
  h.unsealed (.inl hi.opens)

theorem keep (h : c.Sealed) (hl : c'.log = c.log) (hc : c.closeAfter → c'.closeAfter)
    (hf : c'.alive → c.alive ∧ c'.inFlight = c.inFlight) : c'.Sealed := by
  intro l₁ o d r l₂ he hk
  have ⟨hca, hi, hs⟩ := h l₁ o d r l₂ (hl ▸ he) hk
  refine ⟨hc hca, fun ha => ?_, hs⟩
  have ⟨ha, hf⟩ := hf ha
  exact hf.trans (hi ha)

theorem send {n : Nat} {now : Time} (h : c.Sealed) : (c.consume n now).Sealed := by
  intro l₁ o d r l₂ he hk
  rcases List.eq_nil_or_concat l₂ with rfl | ⟨l₂, e, rfl⟩
  case inl => simp [consume] at he
  case inr =>
    have he : c.log ++ [.sent (c.output.take n)] = (l₁ ++ .final o d r :: l₂) ++ [e] := by
      simpa [consume] using he
    obtain ⟨hl, he⟩ := List.append_inj' he rfl
    obtain ⟨hc, hi, hs⟩ := h l₁ o d r l₂ hl hk
    refine ⟨hc, hi, fun e' hm => ?_⟩
    rw [List.concat_eq_append] at hm
    rcases List.mem_append.mp hm with hm | hm
    case inl => exact hs e' hm
    case inr => cases he; cases List.mem_singleton.mp hm; rfl

-- The entry that comes next is the first that may announce the end.
theorem snoc {e : Entry} (hn : c.Unsealed) (hl : c'.log = c.log ++ [e])
    (he : ∀ o d r, e = .final o d r → r.keepAlive = false → c'.closeAfter ∧ c'.inFlight = false) :
    c'.Sealed := by
  intro l₁ o d r l₂ hx hk
  rw [hl] at hx
  rcases List.eq_nil_or_concat l₂ with rfl | ⟨l₂, e', rfl⟩
  case inl =>
    have ⟨_, hx⟩ := List.append_inj' hx rfl
    have ⟨hc, hi⟩ := he o d r (List.cons.inj hx).1 hk
    exact ⟨hc, fun _ => hi, by simp⟩
  case inr =>
    have hx : c.log ++ [e] = (l₁ ++ .final o d r :: l₂) ++ [e'] := by simpa using hx
    have ⟨hl, _⟩ := List.append_inj' hx rfl
    simp [hn o d r (by simp [hl])] at hk

theorem error (hn : c.Unsealed) (hf : c.inFlight = false) :
    (c.queueError date origin status detail).Sealed :=
  snoc hn rfl fun _ _ _ _ _ => ⟨rfl, hf⟩

end Sealed

theorem Unsealed.beginRequest {req : Request} (h : c.Unsealed) : (c.beginRequest req).Unsealed := by
  intro o d r hm
  simp only [Connection.beginRequest, List.mem_append, List.mem_singleton, reduceCtorEq,
    or_false] at hm
  exact h o d r hm

theorem Move.sealed {a : Option Act} (hm : Move cfg c a c') (h : c.Sealed)
    (hr : a = some .refuse → c.closeAfter = false) : c'.Sealed := by
  cases hm
  case send => exact h.send
  case kill => exact h.keep rfl (fun _ => rfl) nofun
  case append hw _    => exact .snoc (h.idle (wantRead_idle hw)) rfl (by simp)
  case overflow hi _  => exact .error (h.idle hi) hi.free
  case malformed p b _ _ hi _ | tooLarge p b _ _ hi _ =>
    have hn : (c.store p b).Unsealed := h.idle hi
    exact .error hn hi.free
  case expect hi _    => exact .snoc (h.idle hi) rfl (by simp)
  case submit hi _    =>
    have hn : (c.store _ _).Unsealed := h.idle hi
    exact .snoc hn.beginRequest rfl (by simp)
  case overload p b req _ hi _ =>
    have hn : (c.store p b).Unsealed := h.idle hi
    have hn : { (c.store p b).beginRequest req with inFlight := false }.Unsealed := hn.beginRequest
    exact .error hn rfl
  case answer x _ ha hi _ =>
    refine .snoc (h.unsealed (.inr ⟨ha, hi⟩)) rfl fun o d r he hk => ⟨?_, rfl⟩
    cases he
    have hk : x.response.keepAlive = false := by
      split at hk <;> exact hk
    simp [hk]
  case timeout hf _ => exact .error (h.unsealed (.inl (hr rfl))) hf
  case close | hangup => exact h.keep rfl (fun _ => rfl) fun ha => ⟨ha, rfl⟩
  all_goals exact h.keep rfl (fun h => h) fun ha => ⟨ha, rfl⟩

theorem Moves.sealed (hm : Moves cfg c as c') (h : c.Sealed) (hr : .refuse ∉ as) : c'.Sealed := by
  induction hm
  case refl => exact h
  case head hm _ hi =>
    simp only [List.mem_append, not_or, Option.mem_toList] at hr
    exact hi (hm.sealed h fun ha => absurd ha hr.1) hr.2

theorem flush_sealed (h : c.Sealed) : (c.flush io).1.Sealed := by
  have hm : Moves {} c [] (c.flush io).1 := flush_moves c io
  exact hm.sealed h (by simp)

theorem Drains.sealed {fuel : Nat} {r : Connection × Env} (hd : Drains cfg fuel c env r)
    (h : c.Sealed) : r.1.Sealed := by
  induction hd
  case spent | stop       => exact h
  case more hc hp         => exact (Move.more hc hp).sealed h (by simp)
  case expect hc hp _ hi  => exact hi (flush_sealed ((Move.expect hc hp).sealed h (by simp)))
  case malformed hc hp    => exact flush_sealed ((Move.malformed hc hp).sealed h fun _ => hc.opens)
  case tooLarge hc hp     => exact flush_sealed ((Move.tooLarge hc hp).sealed h fun _ => hc.opens)
  case submit hc hp _     => exact (Move.submit hc hp).sealed h (by simp)
  case overload hc hp _   => exact (Move.overload hc hp).sealed h (by simp)

theorem onReadable_sealed (h : c.Sealed) : (c.onReadable cfg env).1.Sealed := by
  have ho := onReadable_cases cfg c env
  generalize c.onReadable cfg env = r at ho ⊢
  cases ho
  case skip => exact h
  case overflow hw hr =>
    have hc := receive_idle (wantRead_idle hw) hr
    have hd := (receive_moves hr).sealed h (by simp)
    exact flush_sealed ((Move.overflow hc (receive_overflow hr)).sealed hd fun _ => hc.opens)
  case failed d _ hr =>
    have hk : Move cfg d none d.kill := .kill
    exact hk.sealed ((receive_moves hr).sealed h (by simp)) (by simp)
  case serve hr hd _ => exact hd.sealed ((receive_moves hr).sealed h (by simp))
  case close hr hd _ _ _ =>
    have hs := hd.sealed ((receive_moves hr).sealed h (by simp))
    exact hs.keep rfl (fun _ => rfl) fun ha => ⟨ha, rfl⟩

-- A connection that is about to be closed looks for no further request.
theorem drainRequests_closed {fuel : Nat} (h : c.closeAfter) :
    c.drainRequests cfg fuel env = (c, env) := by
  cases fuel <;> simp [drainRequests, h]

theorem onReadable_closed (h : c.closeAfter) : c.onReadable cfg env = (c, env) := by
  simp [onReadable, wantRead, h]

end Connection
end Http
