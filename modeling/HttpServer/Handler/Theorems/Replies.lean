import HttpServer.Handler.Theorems.Wire

open Text

namespace Http

open Client

variable {req : Request} {res : Response} {cfg : Config} {head : Bool} {status : Nat}

theorem textResponse_framable (req : Request) (body contentType : Bytes) :
    (textResponse req 200 body contentType).Framable req.isHead where
  tokens := by simp [textResponse, finalize, Response.set]; decide
  names  := by simp [textResponse, finalize, Response.set]; decide
  empty  := rfl
  sends  := by cases h : req.isHead <;> simp [textResponse, finalize, h, Response.set]

-- An error response has a body unless its status rules one out.
theorem makeErrorResponse_framable (hs : status ≠ 304) (detail : Bytes) (keepAlive : Bool) :
    (makeErrorResponse status detail keepAlive).Framable false := by
  have hn : (status == 204 || status == 304) = decide (status = 204) := by
    rw [beq_false_of_ne hs, Bool.or_false]
    rfl
  simp only [makeErrorResponse, hn]
  split
  case h_1 => exact ⟨by simp [Response.set]; decide, by simp [Response.set]; decide, rfl, rfl⟩
  case h_2 => exact ⟨by simp [Response.set]; decide, by simp [Response.set]; decide, rfl, rfl⟩
  case h_3 => exact ⟨nofun, nofun, rfl, (decide_not ..).symm⟩

theorem errorResponse_framable (hs : status ≠ 304) (req : Request) (detail : Bytes) :
    (errorResponse req status detail).Framable req.isHead where
  tokens := (makeErrorResponse_framable hs detail req.keepAlive).tokens
  names  := (makeErrorResponse_framable hs detail req.keepAlive).names
  empty  := (makeErrorResponse_framable hs detail req.keepAlive).empty
  sends  := by
    have h := (makeErrorResponse_framable hs detail req.keepAlive).sends
    cases hh : req.isHead <;> simp [errorResponse, hh, h]

theorem optionsResponse_framable (req : Request) : (optionsResponse req).Framable req.isHead where
  tokens := by simp [optionsResponse, Response.set]; decide
  names  := by simp [optionsResponse, Response.set]; decide
  empty  := rfl
  sends  := by simp [optionsResponse, Response.set]

theorem handleGetHead_framable (req : Request) (cfg : Config) :
    (handleGetHead req cfg).Framable req.isHead := by
  have hc := textResponse_framable req (ascii "closing\n") (ascii "text/plain; charset=utf-8")
  simp only [handleGetHead, slowResponse]
  repeat' split
  all_goals first
    | exact textResponse_framable ..
    | exact errorResponse_framable (by decide) ..
    | exact ⟨hc.tokens, hc.names, hc.empty, hc.sends⟩

theorem handlePost_framable (req : Request) (cfg : Config) :
    (handlePost req cfg).Framable req.isHead := by
  simp only [handlePost, slowResponse]
  repeat' split
  all_goals first
    | exact textResponse_framable ..
    | exact errorResponse_framable (by decide) ..

theorem handleRequest_framable (req : Request) (cfg : Config) :
    (handleRequest req cfg).Framable req.isHead := by
  simp only [handleRequest]
  repeat' split
  case isTrue.isTrue  => exact optionsResponse_framable req
  case isTrue.isFalse => exact errorResponse_framable (by decide) ..
  case h_1    => exact handleGetHead_framable ..
  case h_2    => exact handleGetHead_framable ..
  case h_3    => exact handlePost_framable ..
  case h_4    => exact optionsResponse_framable req
  case h_5    => exact errorResponse_framable (by decide) ..

theorem runJob_framable (cfg : Config) (throws : Bool) (req : Request) :
    (runJob cfg throws req).Framable req.isHead := by
  have hj : ∃ head, (head = false ∨ head = req.isHead) ∧ (if throws then
      makeErrorResponse 500 (ascii "handler failed") req.keepAlive
      else handleRequest req cfg).Framable head := by
    cases throws
    case false => exact ⟨_, .inr rfl, handleRequest_framable req cfg⟩
    case true  =>
      have h : (500 : Nat) ≠ 304 := by decide
      exact ⟨_, .inl rfl, makeErrorResponse_framable h ..⟩
  have ⟨head, hh, hj⟩ := hj
  refine ⟨hj.tokens, hj.names, hj.empty, ?_⟩
  simp only [runJob, hj.sends]
  cases hr : req.isHead <;> simp_all

-- One request of a connection, with the date of its response.
structure Exchange where
  req    : Request
  throws : Bool
  date   : Bytes

namespace Exchange

-- The response as `queue_response` serializes it: `last_head_` was set by the request itself.
def response (cfg : Config) (x : Exchange) : Response :=
  let res := runJob cfg x.throws x.req
  if x.req.isHead then { res with sendBody := false } else res

def wire (cfg : Config) (x : Exchange) : Bytes :=
  serializeResponse x.date (x.response cfg)

theorem response_framable (cfg : Config) (x : Exchange) : (x.response cfg).Framable x.req.isHead := by
  have h := runJob_framable cfg x.throws x.req
  simp only [response]
  split
  case isTrue hh  => exact ⟨h.tokens, h.names, h.empty, by simp [hh]⟩
  case isFalse hh => exact h

end Exchange

-- A reply tells the client all that it has to know about a response.
structure Delivers (cfg : Config) (x : Exchange) (r : Reply) : Prop where
  status     : r.status = (x.response cfg).status
  body       : r.body = if x.req.isHead ∨ r.status = 204 then [] else (x.response cfg).body
  length     : r.status ≠ 204 →
    valuesOf (ascii "Content-Length") r.fields = [decimal (x.response cfg).body.length]
  noLength   : r.status = 204 → valuesOf (ascii "Content-Length") r.fields = []
  connection : (valuesOf (ascii "Connection") r.fields).length ≤ 1

theorem Delivers.of_response (cfg : Config) (x : Exchange) :
    Delivers cfg x ⟨(x.response cfg).status, (wireFields x.date (x.response cfg)).map trimmed,
      sentBody (x.response cfg)⟩ :=
  have hx := x.response_framable cfg
  { status     := rfl
    body       := by
      simp only [sentBody, hx.sends]
      cases x.req.isHead <;> by_cases h : (x.response cfg).status = 204 <;> simp [h]
    length     := fun h => (valuesOf_contentLength hx x.date).trans (if_neg h)
    noLength   := fun h => (valuesOf_contentLength hx x.date).trans (if_pos h)
    connection := valuesOf_connection hx x.date }

-- The wire can be cut into the responses again, whatever they contain.
theorem readReplies_wire (cfg : Config) (xs : List Exchange) (hd : ∀ x ∈ xs, OneLine x.date) :
    ∃ rs, readReplies (xs.map (·.req.isHead)) (xs.flatMap (·.wire cfg)) = some (rs, []) ∧
      List.Forall₂ (Delivers cfg) xs rs := by
  induction xs
  case nil => exact ⟨[], rfl, .nil⟩
  case cons x xs hi =>
    simp only [List.mem_cons, forall_eq_or_imp] at hd
    have ⟨rs, hr, hf⟩ := hi hd.2
    have hw := readReply_serializeResponse (x.response_framable cfg) hd.1 (xs.flatMap (·.wire cfg))
    refine ⟨_, ?_, .cons (.of_response cfg x) hf⟩
    simp only [List.map_cons, List.flatMap_cons, Exchange.wire] at hw hr ⊢
    simp only [readReplies, hw, hr]

def echo (m : Method) : Exchange where
  req    := { method := m, target := ascii "/echo", body := ascii "HTTP/1.1 200 OK\r\n\r\n" }
  throws := false
  date   := ascii "Thu, 01 Jan 1970 00:00:00 GMT"

theorem readReplies_wire_echo :
    ∃ rs, readReplies [false, true] ([echo .post, echo .head].flatMap (·.wire {})) = some (rs, []) ∧
      List.Forall₂ (Delivers {}) [echo .post, echo .head] rs :=
  readReplies_wire {} [echo .post, echo .head] (by decide)

end Http
