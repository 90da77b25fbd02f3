import HttpServer.Handler.Client

open Text

namespace Http

open Client

variable {l t s date : Bytes} {h : Header} {hs : List Header} {res : Response} {req : Request}
variable {cfg : Config} {x : Byte} {n : Nat}

-- A text that stays within its line.
def OneLine (s : Bytes) : Prop :=
  cr ∉ s ∧ lf ∉ s

instance (s : Bytes) : Decidable (OneLine s) :=
  inferInstanceAs (Decidable (_ ∧ _))

theorem OneLine.of_no_control (h : ∀ c ∈ s, isControl c = false) : OneLine s :=
  ⟨not_mem_of_no_control h (by decide), not_mem_of_no_control h (by decide)⟩

theorem OneLine.sanitize (s : Bytes) : OneLine (sanitizeHeaderValue s) :=
  .of_no_control fun c hc => by simpa using (List.mem_filter.mp hc).2

theorem OneLine.decimal (n : Nat) : OneLine (decimal n) :=
  ⟨not_mem_decimal (by decide), not_mem_decimal (by decide)⟩

theorem OneLine.reason (status : Nat) : OneLine (ascii (statusReason status)) :=
  .of_no_control fun _ hc => (mem_statusReason hc).1

-- The fields of a response as they appear on the wire: those that every response has, its own, and
-- what the serializer adds.
def commonFields (date : Bytes) : List Header :=
  [⟨ascii "Date", date⟩, ⟨ascii "Server", ascii "cpp-http/0.1"⟩]

def ownFields (res : Response) : List Header :=
  res.headers.map fun h => ⟨sanitizeHeaderValue h.name, sanitizeHeaderValue h.value⟩

def lengthField (res : Response) : List Header :=
  let haveContentLength := res.headers.any (equalsIgnoreCase ·.name (ascii "Content-Length"))
  if !res.noBodyFraming && !haveContentLength
    then [⟨ascii "Content-Length", decimal res.body.length⟩] else []

def typeField (res : Response) : List Header :=
  let haveContentType := res.headers.any (equalsIgnoreCase ·.name (ascii "Content-Type"))
  if !res.noBodyFraming && !haveContentType
    then [⟨ascii "Content-Type", ascii "text/plain; charset=utf-8"⟩] else []

def connectionField (res : Response) : List Header :=
  if !res.keepAlive then [⟨ascii "Connection", ascii "close"⟩]
  else if res.reqMajor == 1 && res.reqMinor == 0 then [⟨ascii "Connection", ascii "keep-alive"⟩]
  else []

def wireFields (date : Bytes) (res : Response) : List Header :=
  commonFields date ++ ownFields res ++ lengthField res ++ typeField res ++ connectionField res

def wireField (h : Header) : Bytes :=
  h.name ++ ascii ": " ++ h.value

def wireStatus (res : Response) : Bytes :=
  ascii "HTTP/" ++ decimal res.reqMajor ++ ascii "." ++ decimal res.reqMinor ++ ascii " " ++
  decimal res.status ++ ascii " " ++ ascii (statusReason res.status)

def sentBody (res : Response) : Bytes :=
  if res.sendBody then res.body else []

theorem sentBody_eq (res : Response) :
    (if res.sendBody && !res.body.isEmpty then res.body else []) = sentBody res := by
  cases hb : res.body <;> simp [sentBody, hb]

theorem serializeResponse_eq (date : Bytes) (res : Response) :
    serializeResponse date res =
      wireStatus res ++ crlf ++ (wireFields date res).flatMap (wireField · ++ crlf) ++ crlf ++
      sentBody res := by
  have h₁ : ascii "Date: " = ascii "Date" ++ ascii ": " := by decide
  have h₂ : ascii "Server: cpp-http/0.1\r\n" =
    ascii "Server" ++ ascii ": " ++ ascii "cpp-http/0.1" ++ crlf := by decide
  have h₃ : ascii "Content-Length: " = ascii "Content-Length" ++ ascii ": " := by decide
  have h₄ : ascii "Content-Type: text/plain; charset=utf-8\r\n" =
    ascii "Content-Type" ++ ascii ": " ++ ascii "text/plain; charset=utf-8" ++ crlf := by decide
  have h₅ : ascii "Connection: close\r\n" =
    ascii "Connection" ++ ascii ": " ++ ascii "close" ++ crlf := by decide
  have h₆ : ascii "Connection: keep-alive\r\n" =
    ascii "Connection" ++ ascii ": " ++ ascii "keep-alive" ++ crlf := by decide
  have hh : res.headers.flatMap headerLine = (ownFields res).flatMap (wireField · ++ crlf) := by
    rw [ownFields, List.flatMap_map]
    rfl
  have hi (b : Bool) (h : Header) : (if b then [h] else []).flatMap (wireField · ++ crlf) =
      if b then wireField h ++ crlf else [] := by
    cases b <;> simp
  simp only [serializeResponse, sentBody_eq, h₁, h₂, h₃, h₄, h₅, h₆, hh, wireFields, statusLine,
    wireStatus, lengthField, typeField, connectionField, List.flatMap_append, hi]
  cases res.keepAlive <;> cases (res.reqMajor == 1 && res.reqMinor == 0) <;>
    simp [wireField, commonFields, List.append_assoc]

theorem readLine_append (hl : lf ∉ l) : readLine (l ++ (crlf ++ t)) = some (l, t) := by
  have hc : lf ∉ l ++ [cr] := by simp [hl]; decide
  have he : l ++ (crlf ++ t) = (l ++ [cr]) ++ lf :: t := by simp
  have hf : find ((l ++ [cr]) ++ lf :: t) lf 0 = some (l ++ [cr]).length := find_append hc
  have hd : ((l ++ [cr]) ++ lf :: t).drop ((l ++ [cr]).length + 1) = t := by
    rw [← List.drop_drop, List.drop_left]
    rfl
  simp only [readLine, he, hf, List.take_left, hd]
  simp

-- What a client can read off one of its lines again.
structure WireOk (h : Header) : Prop where
  colon : ':'.toUInt8 ∉ h.name
  name  : OneLine h.name
  value : OneLine h.value

def trimmed (h : Header) : Header :=
  ⟨h.name, trimOws h.value⟩

theorem WireOk.line (hw : WireOk h) : lf ∉ wireField h := by
  have h₁ := hw.name.2
  have h₂ := hw.value.2
  have h₃ : lf ∉ ascii ": " := by decide
  simp [wireField, h₁, h₂, h₃]

theorem trimOws_sp (s : Bytes) : trimOws (sp :: s) = trimOws s :=
  rfl

theorem readField_wireField (hw : WireOk h) : readField (wireField h) = some (trimmed h) := by
  have he : wireField h = h.name ++ ':'.toUInt8 :: sp :: h.value := by
    simp [wireField, show ascii ": " = [':'.toUInt8, sp] by decide]
  have hf : find (wireField h) ':'.toUInt8 0 = some h.name.length := he ▸ find_append hw.colon
  simp only [readField, hf]
  simp [he, trimmed, trimOws_sp]

theorem readFields_wire (hw : ∀ h ∈ hs, WireOk h) (hn : hs.length < n) :
    readFields n (hs.flatMap (wireField · ++ crlf) ++ (crlf ++ t)) = some (hs.map trimmed, t) := by
  induction hs generalizing n <;> cases n <;> try omega
  case nil.succ n =>
    have hl := readLine_append (l := []) (t := t) (by simp)
    rw [List.nil_append] at hl
    simp only [List.flatMap_nil, List.nil_append, readFields, hl, List.map_nil]
  case cons.succ h hs hi n =>
    simp only [List.mem_cons, forall_eq_or_imp] at hw
    have ht := hi hw.2 (by simpa using hn)
    have hl := readLine_append (t := hs.flatMap (wireField · ++ crlf) ++ (crlf ++ t)) hw.1.line
    have hne : wireField h ≠ [] := by simp [wireField, ascii]
    simp only [List.flatMap_cons, List.append_assoc, readFields, hl, readField_wireField hw.1, ht,
      List.map_cons]

theorem readNumber_decimal (n : Nat) : readNumber (decimal n) = some n := by
  have hd : (decimal n).all isDigit = true := by
    refine List.all_eq_true.mpr fun c hc => ?_
    have h := decimal_digits n c hc
    simp only [decDigit] at h
    split at h
    case isTrue hd => exact hd
    case isFalse   => cases h
  simp [readNumber, decimal_ne_nil, hd, decimal_value]

theorem readStatus_wireStatus (res : Response) : readStatus (wireStatus res) = some res.status := by
  have he : wireStatus res =
      (ascii "HTTP/" ++ decimal res.reqMajor ++ ascii "." ++ decimal res.reqMinor) ++ sp ::
        (decimal res.status ++ sp :: ascii (statusReason res.status)) := by
    simp [wireStatus, show ascii " " = [sp] by decide]
  have h₁ : sp ∉ ascii "HTTP/" ++ decimal res.reqMajor ++ ascii "." ++ decimal res.reqMinor := by
    have h₁ : sp ∉ ascii "HTTP/" := by decide
    have h₂ : sp ∉ ascii "." := by decide
    have h₃ (n : Nat) : sp ∉ decimal n := not_mem_decimal (by decide)
    simp [h₁, h₂, h₃]
  have h₂ : sp ∉ decimal res.status := not_mem_decimal (by decide)
  simp only [readStatus, he, split_append h₁, split_append h₂, readNumber_decimal]

theorem wireStatus_line (res : Response) : lf ∉ wireStatus res := by
  have h₁ : lf ∉ ascii "HTTP/" := by decide
  have h₂ : lf ∉ ascii "." := by decide
  have h₃ : lf ∉ ascii " " := by decide
  have h₄ (n : Nat) : lf ∉ decimal n := (OneLine.decimal n).2
  have h₅ := (OneLine.reason res.status).2
  simp [wireStatus, h₁, h₂, h₃, h₄, h₅]

-- The names that a handler may not use, since the serializer writes these fields itself.
def reserved : List Bytes :=
  [ascii "Content-Length", ascii "Connection"]

-- A response whose framing is left to the serializer. `head` tells whether it answers a HEAD.
structure Response.Framable (head : Bool) (res : Response) : Prop where
  tokens : ∀ h ∈ res.headers, validToken h.name = true
  names  : ∀ h ∈ res.headers, ∀ n ∈ reserved, equalsIgnoreCase h.name n = false
  empty  : res.noBodyFraming = decide (res.status = 204)
  sends  : res.sendBody = (!head && decide (res.status ≠ 204))

theorem sanitize_token (h : validToken s = true) : sanitizeHeaderValue s = s := by
  refine List.filter_eq_self.mpr fun c hc => ?_
  simp [isTchar_not_control c (isTchar_of_token h c hc)]

theorem valuesOf_append (name : Bytes) (fs gs : List Header) :
    valuesOf name (fs ++ gs) = valuesOf name fs ++ valuesOf name gs := by
  simp [valuesOf, Request.headerAll]

theorem WireOk.of_token {v : Bytes} (hn : validToken s = true) (hv : OneLine v) : WireOk ⟨s, v⟩ where
  colon := not_mem_token hn (by decide)
  name  := .of_no_control fun c hc => isTchar_not_control c (isTchar_of_token hn c hc)
  value := hv

variable {head : Bool}

theorem wireFields_ok (hf : res.Framable head) (hd : OneLine date) :
    ∀ h ∈ wireFields date res, WireOk h := by
  simp only [wireFields, List.mem_append]
  intro h hh
  match hh with
  | .inl (.inl (.inl (.inl hh))) =>
    simp only [commonFields, List.mem_cons, List.not_mem_nil, or_false] at hh
    match hh with
    | .inl hh => exact hh ▸ .of_token (by decide) hd
    | .inr hh => exact hh ▸ .of_token (by decide) (by decide)
  | .inl (.inl (.inl (.inr hh))) =>
    have ⟨g, hg, hh⟩ := List.mem_map.mp hh
    rw [← hh, sanitize_token (hf.tokens g hg)]
    exact .of_token (hf.tokens g hg) (.sanitize _)
  | .inl (.inl (.inr hh)) =>
    simp only [lengthField] at hh
    split at hh
    case isTrue  => exact List.mem_singleton.mp hh ▸ .of_token (by decide) (.decimal _)
    case isFalse => cases hh
  | .inl (.inr hh) =>
    simp only [typeField] at hh
    split at hh
    case isTrue  => exact List.mem_singleton.mp hh ▸ .of_token (by decide) (by decide)
    case isFalse => cases hh
  | .inr hh =>
    simp only [connectionField] at hh
    repeat' split at hh
    case isTrue          => exact List.mem_singleton.mp hh ▸ .of_token (by decide) (by decide)
    case isFalse.isTrue  => exact List.mem_singleton.mp hh ▸ .of_token (by decide) (by decide)
    case isFalse.isFalse => cases hh

-- The fields of the response itself do not interfere with those of the serializer.
theorem valuesOf_ownFields (hf : res.Framable head) {name : Bytes} (hn : name ∈ reserved) :
    valuesOf name ((ownFields res).map trimmed) = [] := by
  simp only [valuesOf, Request.headerAll, List.map_eq_nil_iff, List.filter_eq_nil_iff, List.mem_map,
    trimmed, ownFields]
  intro x ⟨_, ⟨h, hh, he⟩, hx⟩
  subst he hx
  simpa [sanitize_token (hf.tokens h hh)] using hf.names h hh name hn

theorem valuesOf_commonFields {name : Bytes} (hn : name ∈ reserved) (date : Bytes) :
    valuesOf name ((commonFields date).map trimmed) = [] := by
  have h : ∀ name ∈ reserved, equalsIgnoreCase (ascii "Date") name = false ∧
    equalsIgnoreCase (ascii "Server") name = false := by decide
  simp [valuesOf, Request.headerAll, commonFields, trimmed, h name hn]

theorem lengthField_eq (hf : res.Framable head) : lengthField res =
    if res.status = 204 then [] else [⟨ascii "Content-Length", decimal res.body.length⟩] := by
  have hh : res.headers.any (equalsIgnoreCase ·.name (ascii "Content-Length")) = false := by
    refine List.any_eq_false.mpr fun h hh => ?_
    simp [hf.names h hh (ascii "Content-Length") (by simp [reserved])]
  by_cases hs : res.status = 204 <;> simp [lengthField, hf.empty, hh, hs]

theorem valuesOf_typeField {name : Bytes} (hn : name ∈ reserved) (res : Response) :
    valuesOf name ((typeField res).map trimmed) = [] := by
  have h : ∀ name ∈ reserved, equalsIgnoreCase (ascii "Content-Type") name = false := by decide
  simp only [typeField]
  split <;> simp [valuesOf, Request.headerAll, trimmed, h name hn]

theorem valuesOf_contentLength (hf : res.Framable head) (date : Bytes) :
    valuesOf (ascii "Content-Length") ((wireFields date res).map trimmed) =
      if res.status = 204 then [] else [decimal res.body.length] := by
  have hn : ascii "Content-Length" ∈ reserved := by decide
  have hc : valuesOf (ascii "Content-Length") ((connectionField res).map trimmed) = [] := by
    simp only [connectionField]
    repeat' split
    all_goals decide
  simp only [wireFields, List.map_append, valuesOf_append, valuesOf_ownFields hf hn,
    valuesOf_commonFields hn, valuesOf_typeField hn, hc, lengthField_eq hf]
  split
  case isTrue => rfl
  case isFalse =>
    have he : equalsIgnoreCase (ascii "Content-Length") (ascii "Content-Length") = true := by decide
    simp [valuesOf, Request.headerAll, trimmed, he, trimOws_decimal]

theorem valuesOf_connection (hf : res.Framable head) (date : Bytes) :
    (valuesOf (ascii "Connection") ((wireFields date res).map trimmed)).length ≤ 1 := by
  have hn : ascii "Connection" ∈ reserved := by decide
  have hl : valuesOf (ascii "Connection") ((lengthField res).map trimmed) = [] := by
    have he : equalsIgnoreCase (ascii "Content-Length") (ascii "Connection") = false := by decide
    rw [lengthField_eq hf]
    split <;> simp [valuesOf, Request.headerAll, trimmed, he]
  simp only [wireFields, List.map_append, valuesOf_append, valuesOf_ownFields hf hn,
    valuesOf_commonFields hn, valuesOf_typeField hn, hl, List.nil_append, connectionField]
  repeat' split
  all_goals decide

theorem length_le_wire (hs : List Header) : hs.length ≤ (hs.flatMap (wireField · ++ crlf)).length := by
  induction hs
  case nil => simp
  case cons h hs hi =>
    simp only [List.length_cons, List.flatMap_cons, List.length_append, length_crlf]
    omega

-- What a client makes of a response, followed by more bytes.
theorem readReply_serializeResponse (hf : res.Framable head) (hd : OneLine date) (t : Bytes) :
    readReply head (serializeResponse date res ++ t) =
      some (⟨res.status, (wireFields date res).map trimmed, sentBody res⟩, t) := by
  have hn : (wireFields date res).length <
      ((wireFields date res).flatMap (wireField · ++ crlf) ++ (crlf ++ (sentBody res ++ t))).length := by
    have hl := length_le_wire (wireFields date res)
    simp only [List.length_append, length_crlf]
    omega
  have hl := readLine_append (t := (wireFields date res).flatMap (wireField · ++ crlf) ++
    (crlf ++ (sentBody res ++ t))) (wireStatus_line res)
  have hs := readFields_wire (t := sentBody res ++ t) (wireFields_ok hf hd) hn
  have hb : bodyLength head res.status ((wireFields date res).map trimmed) =
      some (sentBody res).length := by
    simp only [bodyLength, valuesOf_contentLength hf, sentBody, hf.sends]
    cases head <;> by_cases h : res.status = 204 <;> simp [h, readNumber_decimal]
  rw [serializeResponse_eq]
  simp only [List.append_assoc] at hl ⊢
  simp only [readReply, hl, readStatus_wireStatus, hs, hb]
  simp

end Http
