import HttpServer.Handler.Basic
import HttpServer.Parser.Theorems.Sizes

open Text

namespace Http

namespace Config

-- The longest body of a response: one of the size that the peer asks for, the body of its request or
-- a description of the request.
def bodyBytes (cfg : Config) : Nat :=
  max (max cfg.maxResponseBytes cfg.maxBodyBytes)
    (6 * cfg.maxRequestLineBytes + 1700 + (decimal cfg.maxBodyBytes).length)

-- The longest response, apart from its date.
def responseBytes (cfg : Config) : Nat :=
  cfg.bodyBytes + cfg.maxHeaderBytes + (decimal cfg.bodyBytes).length + 300

end Config

-- A response that can be told to be short enough before it is written.
structure Response.Modest (cfg : Config) (res : Response) : Prop where
  minor   : res.reqMajor = 1 ∧ res.reqMinor ≤ 1
  status  : res.status < 1000
  headers : (res.headers.flatMap headerLine).length ≤ cfg.maxHeaderBytes + 100
  body    : res.body.length ≤ cfg.bodyBytes

variable {cfg : Config} {req : Request} {res : Response} {date s name value : Bytes} {n m : Nat}

theorem length_decimal_le (h : n < 10 ^ m) (hm : 0 < m) : (decimal n).length ≤ m := by
  rw [decimal, List.length_map]
  exact (Nat.length_toDigits_le_iff (by decide) hm).mpr h

theorem decimal_length_mono (h : n ≤ m) : (decimal n).length ≤ (decimal m).length := by
  have hm : (decimal m).length ≠ 0 := fun hz => decimal_ne_nil m (List.length_eq_zero_iff.mp hz)
  refine length_decimal_le (Nat.lt_of_le_of_lt h ?_) (Nat.pos_of_ne_zero hm)
  have hl := Nat.le_refl (decimal m).length
  rw [decimal, List.length_map] at hl hm ⊢
  exact (Nat.length_toDigits_le_iff (by decide) (Nat.pos_of_ne_zero hm)).mp hl

theorem statusReason_length (n : Nat) : (ascii (statusReason n)).length ≤ 31 := by
  unfold statusReason
  split <;> decide

theorem statusLine_length (h : res.Modest cfg) : (statusLine res).length ≤ 46 := by
  have hm : (decimal res.reqMajor).length ≤ 1 := length_decimal_le (by rw [h.minor.1]; decide) (by decide)
  have hn : (decimal res.reqMinor).length ≤ 1 :=
    length_decimal_le (Nat.lt_of_le_of_lt h.minor.2 (by decide)) (by decide)
  have hs : (decimal res.status).length ≤ 3 := length_decimal_le h.status (by decide)
  have hr := statusReason_length res.status
  have hl : (ascii "HTTP/").length + (ascii ".").length + (ascii " ").length + (ascii " ").length +
      crlf.length = 10 := rfl
  simp only [statusLine, List.length_append]
  omega

theorem headerLine_length (h : Header) :
    (headerLine h).length ≤ h.name.length + h.value.length + 4 := by
  have hn : (sanitizeHeaderValue h.name).length ≤ h.name.length := List.length_filter_le ..
  have hv : (sanitizeHeaderValue h.value).length ≤ h.value.length := List.length_filter_le ..
  have hl : (ascii ": ").length + crlf.length = 4 := rfl
  simp only [headerLine, List.length_append]
  omega

-- A response is as long as its parts.
theorem Response.Modest.length (h : res.Modest cfg) :
    (serializeResponse date res).length ≤ date.length + cfg.responseBytes := by
  have hs := statusLine_length h
  have hh := h.headers
  have hb := h.body
  have hd := decimal_length_mono hb
  have hl : (ascii "Date: ").length + crlf.length + (ascii "Server: cpp-http/0.1\r\n").length +
      crlf.length = 32 := rfl
  have hc (b : Bool) : (if b then ascii "Content-Length: " ++ decimal res.body.length ++ crlf
      else []).length ≤ 18 + (decimal cfg.bodyBytes).length := by
    cases b
    case false => exact Nat.zero_le _
    case true =>
      have hl : (ascii "Content-Length: ").length + crlf.length = 18 := rfl
      simp only [if_true, List.length_append]
      omega
  have ht (b : Bool) : (if b then ascii "Content-Type: text/plain; charset=utf-8\r\n"
      else []).length ≤ 41 := by
    cases b <;> decide
  have hk (b b' : Bool) : (if b then ascii "Connection: close\r\n"
      else if b' then ascii "Connection: keep-alive\r\n" else []).length ≤ 24 := by
    cases b <;> cases b' <;> decide
  have hx (b : Bool) : (if b then res.body else []).length ≤ cfg.bodyBytes := by
    cases b
    case false => exact Nat.zero_le _
    case true  => exact hb
  simp only [serializeResponse, List.length_append, Config.responseBytes]
  have h₁ := hc (!res.noBodyFraming && !res.headers.any (equalsIgnoreCase ·.name (ascii "Content-Length")))
  have h₂ := ht (!res.noBodyFraming && !res.headers.any (equalsIgnoreCase ·.name (ascii "Content-Type")))
  have h₃ := hk (!res.keepAlive) (res.reqMajor == 1 && res.reqMinor == 0)
  have h₄ := hx (res.sendBody && !res.body.isEmpty)
  omega

-- The parts of a response that do not matter for its length may change.
theorem Response.Modest.keep {res' : Response} (h : res.Modest cfg)
    (hm : res'.reqMajor = 1 ∧ res'.reqMinor ≤ 1) (hs : res'.status = res.status)
    (hh : res'.headers = res.headers) (hb : res'.body = res.body) : res'.Modest cfg where
  minor   := hm
  status  := hs ▸ h.status
  headers := hh ▸ h.headers
  body    := hb ▸ h.body

theorem textResponse_modest (hr : Parser.Request.Sized cfg.limits req) (hs : n < 1000)
    (hb : s.length ≤ cfg.bodyBytes) (hv : value.length ≤ cfg.maxHeaderBytes + 80) :
    (textResponse req n s value).Modest cfg where
  minor   := hr.minor
  status  := hs
  headers := by
    have hl := headerLine_length ⟨ascii "Content-Type", value⟩
    have hn : (ascii "Content-Type").length = 12 := rfl
    dsimp only at hl
    simp only [textResponse, finalize, Response.set, List.nil_append, List.flatMap_cons,
      List.flatMap_nil, List.append_nil]
    omega
  body    := hb

theorem le_bodyBytes (h : n ≤ 1700) : n ≤ cfg.bodyBytes := by
  rw [Config.bodyBytes]
  omega

theorem makeErrorResponse_modest (hn : n < 1000) (hs : s.length ≤ 100) {keepAlive : Bool} :
    (makeErrorResponse n s keepAlive).Modest cfg := by
  have hr := statusReason_length n
  have hb : (if n == 204 || n == 304 then []
      else ascii (statusReason n) ++ ascii ": " ++ s ++ ascii "\n").length ≤ cfg.bodyBytes := by
    have hl : (ascii ": ").length + (ascii "\n").length = 3 := rfl
    refine le_bodyBytes ?_
    split
    case isTrue  => exact Nat.zero_le _
    case isFalse =>
      simp only [List.length_append]
      omega
  have ha : ([⟨ascii "Allow", kAllowList⟩].flatMap headerLine).length ≤ cfg.maxHeaderBytes + 100 :=
    Nat.le_trans (by decide) (Nat.le_add_left 100 _)
  have hx : ([⟨ascii "Retry-After", ascii "1"⟩].flatMap headerLine).length ≤
      cfg.maxHeaderBytes + 100 :=
    Nat.le_trans (by decide) (Nat.le_add_left 100 _)
  simp only [makeErrorResponse]
  split
  case h_1 => exact ⟨⟨rfl, Nat.le_refl _⟩, hn, ha, hb⟩
  case h_2 => exact ⟨⟨rfl, Nat.le_refl _⟩, hn, hx, hb⟩
  case h_3 => exact ⟨⟨rfl, Nat.le_refl _⟩, hn, Nat.zero_le _, hb⟩

theorem errorResponse_modest (hr : Parser.Request.Sized cfg.limits req) (hn : n < 1000)
    (hs : s.length ≤ 100) : (errorResponse req n s).Modest cfg :=
  (makeErrorResponse_modest hn hs).keep hr.minor rfl rfl rfl

theorem optionsResponse_modest (hr : Parser.Request.Sized cfg.limits req) :
    (optionsResponse req).Modest cfg := by
  have hl : ([⟨ascii "Allow", kAllowList⟩, ⟨ascii "Content-Type",
      ascii "text/plain; charset=utf-8"⟩].flatMap headerLine).length ≤ cfg.maxHeaderBytes + 100 :=
    Nat.le_trans (by decide) (Nat.le_add_left 100 _)
  have hs : 204 < 1000 := by decide
  exact ⟨hr.minor, hs, hl, Nat.zero_le _⟩

theorem jsonEscape_length (s : Bytes) : (jsonEscape s).length ≤ 6 * s.length := by
  have hc (c : Byte) : (jsonEscapeByte c).length ≤ 6 := by
    simp only [jsonEscapeByte]
    repeat' split
    all_goals first | decide | exact Nat.le_refl 6 | exact Nat.le_add_left 1 5
  induction s
  case nil => exact Nat.le_refl _
  case cons c s hi =>
    have hc := hc c
    simp only [jsonEscape, List.flatMap_cons, List.length_append, List.length_cons] at hi ⊢
    omega

theorem bodyPreview_length (hr : Parser.Request.Sized cfg.limits req) :
    (bodyPreview req).length ≤ cfg.bodyBytes := by
  have hm := jsonEscape_length req.methodName
  have ht := jsonEscape_length req.target
  have hl := hr.line
  have hn : req.headers.length ≤ 256 := hr.fields
  have hf : (decimal req.headers.length).length ≤ 3 :=
    length_decimal_le (Nat.lt_of_le_of_lt hn (by decide)) (by decide)
  have hb := decimal_length_mono hr.body
  have hv : (if req.minor = 0 then ascii "0" else ascii "1").length ≤ 1 := by split <;> decide
  have hp : (if req.body.isEmpty then []
      else ascii ",\"body_preview\":\"" ++ jsonEscape (substr req.body 0 256) ++
        ascii "\"").length ≤ 1554 := by
    have hj := jsonEscape_length (substr req.body 0 256)
    have hs : (substr req.body 0 256).length ≤ 256 := by
      simp only [substr, List.length_take]
      omega
    have hl : (ascii ",\"body_preview\":\"").length + (ascii "\"").length = 18 := rfl
    split
    case isTrue  => exact Nat.zero_le _
    case isFalse =>
      simp only [List.length_append]
      omega
  have hc : (ascii "\x7b\"method\":\"").length + (ascii "\",\"target\":\"").length +
      (ascii "\",\"version\":\"1.").length + (ascii "\",\"headers\":").length +
      (ascii ",\"body_bytes\":").length + (ascii "\x7d\n").length = 66 := rfl
  simp only [bodyPreview, List.length_append, Config.bodyBytes, Config.limits] at *
  omega

theorem echoType_length (hr : Parser.Request.Sized cfg.limits req) (h : s.length ≤ 80) :
    (echoType req s).length ≤ cfg.maxHeaderBytes + 80 := by
  have hh : (req.header (ascii "Content-Type")).length ≤ cfg.maxHeaderBytes := by
    rw [Request.header]
    split
    case h_1 x hf => exact hr.values x (List.mem_of_find?_eq_some hf)
    case h_2      => exact Nat.zero_le _
  rw [echoType]
  split <;> omega

theorem slowResponse_modest (hr : Parser.Request.Sized cfg.limits req) :
    (slowResponse req n).Modest cfg := by
  have hd : (decimal (min n kMaxSleepMs)).length ≤ 5 :=
    length_decimal_le (Nat.lt_of_le_of_lt (Nat.min_le_right ..) (by decide)) (by decide)
  have hl : (ascii "slept ").length + (ascii "ms\n").length = 9 := rfl
  refine textResponse_modest hr (by decide) (le_bodyBytes ?_) (Nat.le_add_left_of_le (by decide))
  simp only [List.length_append]
  omega

-- The body is one of a few fixed texts.
theorem plainResponse_modest (hr : Parser.Request.Sized cfg.limits req) (hs : s.length ≤ 100)
    (hv : value.length ≤ 80) : (textResponse req 200 s value).Modest cfg :=
  textResponse_modest hr (by decide) (le_bodyBytes (Nat.le_trans hs (by decide)))
    (Nat.le_add_left_of_le hv)

theorem handleGetHead_modest (hr : Parser.Request.Sized cfg.limits req) :
    (handleGetHead req cfg).Modest cfg := by
  have hb : req.body.length ≤ cfg.bodyBytes :=
    Nat.le_trans hr.body (by simp only [Config.bodyBytes, Config.limits]; omega)
  have hx : ∀ n, (List.replicate (min n cfg.maxResponseBytes) 'x'.toUInt8).length ≤ cfg.bodyBytes := by
    intro n
    rw [List.length_replicate, Config.bodyBytes]
    omega
  simp only [handleGetHead]
  split
  · exact plainResponse_modest hr (by decide) (by decide)
  split
  · exact plainResponse_modest hr (by decide) (by decide)
  split
  · exact textResponse_modest hr (by decide) (bodyPreview_length hr) (Nat.le_add_left_of_le (by decide))
  split
  · exact textResponse_modest hr (by decide) hb (echoType_length hr (by decide))
  split
  · exact errorResponse_modest hr (by decide) (by decide)
  split
  · exact (plainResponse_modest hr (by decide) (by decide)).keep hr.minor rfl rfl rfl
  split
  · exact textResponse_modest hr (by decide) (hx _) (Nat.le_add_left_of_le (by decide))
  split
  · exact slowResponse_modest hr
  · exact errorResponse_modest hr (by decide) (by decide)

theorem handlePost_modest (hr : Parser.Request.Sized cfg.limits req) :
    (handlePost req cfg).Modest cfg := by
  have hb : req.body.length ≤ cfg.bodyBytes :=
    Nat.le_trans hr.body (by simp only [Config.bodyBytes, Config.limits]; omega)
  have hu : (ascii "\x7b\"received\":" ++ decimal req.body.length ++ ascii ",\"sha_hint\":" ++
      decimal (req.body.length % 1000003) ++ ascii "\x7d\n").length ≤ cfg.bodyBytes := by
    have hd : (decimal req.body.length).length ≤ (decimal cfg.maxBodyBytes).length :=
      decimal_length_mono hr.body
    have hm : (decimal (req.body.length % 1000003)).length ≤ 7 :=
      length_decimal_le (Nat.lt_trans (Nat.mod_lt _ (by decide)) (by decide)) (by decide)
    have hl : (ascii "\x7b\"received\":").length + (ascii ",\"sha_hint\":").length +
        (ascii "\x7d\n").length = 26 := rfl
    simp only [List.length_append, Config.bodyBytes]
    omega
  simp only [handlePost]
  split
  · exact textResponse_modest hr (by decide) (bodyPreview_length hr) (Nat.le_add_left_of_le (by decide))
  split
  · exact plainResponse_modest hr (by decide) (by decide)
  split
  · exact plainResponse_modest hr (by decide) (by decide)
  split
  · exact slowResponse_modest hr
  split
  · exact textResponse_modest hr (by decide) hb (echoType_length hr (by decide))
  split
  · exact textResponse_modest hr (by decide) hu (Nat.le_add_left_of_le (by decide))
  split
  · exact errorResponse_modest hr (by decide) (by decide)
  · exact errorResponse_modest hr (by decide) (by decide)

theorem handleRequest_modest (hr : Parser.Request.Sized cfg.limits req) :
    (handleRequest req cfg).Modest cfg := by
  rw [handleRequest]
  split
  case isTrue =>
    split
    case isTrue  => exact optionsResponse_modest hr
    case isFalse => exact errorResponse_modest (n := 400) hr (by decide) (by decide)
  case isFalse =>
    cases req.method
    case get | head => exact handleGetHead_modest hr
    case post       => exact handlePost_modest hr
    case options    => exact optionsResponse_modest hr
    case unknown    => exact errorResponse_modest (n := 405) hr (by decide) (by decide)

-- What a worker makes of a request is never longer than the settings allow.
theorem runJob_modest (hr : Parser.Request.Sized cfg.limits req) (throws : Bool) :
    (runJob cfg throws req).Modest cfg := by
  have hm : (if throws then makeErrorResponse 500 (ascii "handler failed") req.keepAlive
      else handleRequest req cfg).Modest cfg := by
    cases throws
    case false => exact handleRequest_modest hr
    case true  => exact makeErrorResponse_modest (n := 500) (s := ascii "handler failed") (by decide) (by decide)
  exact hm.keep hr.minor rfl rfl rfl

end Http
