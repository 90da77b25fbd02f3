import HttpServer.Handler.Theorems.Wire
import HttpServer.Objects.Raw

namespace Http

variable {a b t date : Bytes} {ls : List Bytes} {n : Nat}

theorem decimal_length_le (h : n < 10 ^ 10) : (decimal n).length ≤ 10 := by
  rw [decimal, List.length_map]
  exact (Nat.length_toDigits_le_iff (by omega) (by omega)).mpr h

theorem decimalInt_length_le (x : Int32) : (decimalInt x.toInt).length ≤ 11 := by
  have h₁ := x.toInt_lt
  have h₂ := x.le_toInt
  have hl := decimal_length_le (show x.toInt.natAbs < 10 ^ 10 by omega)
  simp only [decimalInt]
  split
  case isTrue  => exact Nat.succ_le_succ hl
  case isFalse => exact Nat.le_succ_of_le hl

theorem reasonInt_length_le (n : Int) : (ascii (reasonInt n)).length ≤ 31 := by
  simp only [reasonInt]
  split
  case isTrue  => decide
  case isFalse => exact (statusReason_text _).2

namespace RawResponse

-- The status line always fits into its array.
theorem printed_statusText (res : RawResponse) :
    printed 96 (res.statusText ++ crlf) = some (res.statusText ++ crlf) := by
  have h₁ := decimalInt_length_le res.reqMajor
  have h₂ := decimalInt_length_le res.reqMinor
  have h₃ := decimalInt_length_le res.status
  have h₄ := reasonInt_length_le res.status.toInt
  have h₅ : (ascii "HTTP/").length = 5 := by decide
  have h₆ : (ascii ".").length = 1 := by decide
  have h₇ : (ascii " ").length = 1 := by decide
  refine if_pos ?_
  simp only [statusText, List.length_append, length_crlf]
  omega

theorem lengthLine_flatMap (res : RawResponse) : res.lengthLine.flatMap (· ++ crlf) =
    if !res.noBodyFraming && !res.headers.any (equalsIgnoreCase ·.name (ascii "Content-Length"))
      then ascii "Content-Length: " ++ decimal res.body.length ++ crlf else [] := by
  simp only [lengthLine, ← Bool.not_or]
  cases res.noBodyFraming || _ <;> simp

theorem typeLine_flatMap (res : RawResponse) : res.typeLine.flatMap (· ++ crlf) =
    if !res.noBodyFraming && !res.headers.any (equalsIgnoreCase ·.name (ascii "Content-Type"))
      then ascii "Content-Type: text/plain; charset=utf-8\r\n" else [] := by
  have h : ascii "Content-Type: text/plain; charset=utf-8\r\n" =
    ascii "Content-Type: text/plain; charset=utf-8" ++ crlf := by decide
  simp only [typeLine, ← Bool.not_or, h]
  cases res.noBodyFraming || _ <;> simp

theorem connectionLine_flatMap (res : RawResponse) : res.connectionLine.flatMap (· ++ crlf) =
    if !res.keepAlive then ascii "Connection: close\r\n"
      else if res.reqMajor == 1 && res.reqMinor == 0 then ascii "Connection: keep-alive\r\n"
      else [] := by
  have h₁ : ascii "Connection: close\r\n" = ascii "Connection: close" ++ crlf := by decide
  have h₂ : ascii "Connection: keep-alive\r\n" = ascii "Connection: keep-alive" ++ crlf := by decide
  simp only [connectionLine, h₁, h₂, Bool.and_eq_true, beq_iff_eq]
  split
  · simp
  · split <;> simp

theorem serialize_eq (date : Bytes) (res : RawResponse) :
    res.serialize date = some (res.head date ++ if res.sendBody then res.body else []) := by
  have h : ascii "Server: cpp-http/0.1\r\n" = ascii "Server: cpp-http/0.1" ++ crlf := by decide
  have hh : res.headers.flatMap headerLine = (res.headers.map fun h =>
      sanitizeHeaderValue h.name ++ ascii ": " ++ sanitizeHeaderValue h.value).flatMap (· ++ crlf) := by
    rw [List.flatMap_map]
    rfl
  have hb : (if res.sendBody && !res.body.isEmpty then res.body else []) =
      if res.sendBody then res.body else [] := by
    cases res.body <;> simp
  simp only [serialize, printed_statusText, Option.bind_eq_bind, Option.bind_some, Option.some.injEq, h,
    hh, hb, ← lengthLine_flatMap, ← typeLine_flatMap, ← connectionLine_flatMap, head, lines,
    List.flatMap_append, List.flatMap_cons, List.flatMap_nil]
  simp only [List.append_assoc, List.append_nil]

end RawResponse

theorem OneLine.append (ha : OneLine a) (hb : OneLine b) : OneLine (a ++ b) := by
  simp [OneLine, ha.1, ha.2, hb.1, hb.2]

theorem OneLine.decimalInt (n : Int) : OneLine (decimalInt n) := by
  simp only [Http.decimalInt]
  split
  case isTrue  => exact (show OneLine ['-'.toUInt8] by decide).append (.decimal _)
  case isFalse => exact .decimal _

theorem OneLine.reasonInt (n : Int) : OneLine (ascii (reasonInt n)) := by
  simp only [Http.reasonInt]
  split
  case isTrue  => decide
  case isFalse => exact .reason _

namespace RawResponse

theorem statusText_line (res : RawResponse) : OneLine res.statusText := by
  have h₁ : OneLine (ascii "HTTP/") := by decide
  have h₂ : OneLine (ascii ".") := by decide
  have h₃ : OneLine (ascii " ") := by decide
  exact ((((((h₁.append (.decimalInt _)).append h₂).append (.decimalInt _)).append h₃).append
    (.decimalInt _)).append h₃).append (.reasonInt _)

theorem lines_ok (hd : OneLine date) (res : RawResponse) :
    ∀ l ∈ res.lines date, l ≠ [] ∧ OneLine l := by
  have hn (s t : Bytes) (h : s ≠ []) : s ++ t ≠ [] := by simp [h]
  simp only [lines, List.mem_append]
  rintro l ((((hl | hl) | hl) | hl) | hl)
  case inl.inl.inl.inl =>
    simp only [List.mem_cons, List.not_mem_nil, or_false] at hl
    obtain rfl | rfl | rfl := hl
    · exact ⟨by simp [statusText, ascii], res.statusText_line⟩
    · exact ⟨hn _ _ (by decide), (show OneLine (ascii "Date: ") by decide).append hd⟩
    · decide
  case inl.inl.inl.inr =>
    obtain ⟨h, _, rfl⟩ := List.mem_map.mp hl
    refine ⟨by simp [ascii], ?_⟩
    exact ((OneLine.sanitize _).append (by decide)).append (.sanitize _)
  case inl.inl.inr =>
    simp only [lengthLine] at hl
    split at hl
    case isTrue  => cases hl
    case isFalse =>
      rw [List.mem_singleton.mp hl]
      exact ⟨hn _ _ (by decide), (show OneLine (ascii "Content-Length: ") by decide).append (.decimal _)⟩
  case inl.inr =>
    simp only [typeLine] at hl
    split at hl
    case isTrue  => cases hl
    case isFalse =>
      rw [List.mem_singleton.mp hl]
      decide
  case inr =>
    simp only [connectionLine] at hl
    repeat' split at hl
    case isTrue =>
      rw [List.mem_singleton.mp hl]
      decide
    case isFalse.isTrue =>
      rw [List.mem_singleton.mp hl]
      decide
    case isFalse.isFalse => cases hl

end RawResponse

-- Lines that are not empty do not hold an empty line, not even across their ends.
theorem blank_line_last (hl : ∀ l ∈ ls, l ≠ [] ∧ OneLine l)
    (h : ls.flatMap (· ++ crlf) ++ (crlf ++ t) = a ++ (crlf ++ (crlf ++ b))) :
    (ls.flatMap (· ++ crlf)).length ≤ a.length + 2 := by
  induction ls generalizing a
  case nil => simp
  case cons l ls hi =>
    simp only [List.mem_cons, forall_eq_or_imp] at hl
    have ⟨⟨_, hc, _⟩, hls⟩ := hl
    -- An empty line right behind `l` can only be the one at the end.
    have hlast (he : ls.flatMap (· ++ crlf) ++ (crlf ++ t) = crlf ++ b) : ls = [] := by
      cases ls
      case nil => rfl
      case cons l' _ =>
        have ⟨⟨hn', hc', _⟩, _⟩ := (List.forall_mem_cons.mp hls)
        obtain ⟨x, xs, rfl⟩ := List.exists_cons_of_ne_nil hn'
        simp only [List.flatMap_cons, List.cons_append, crlf_append, List.cons.injEq] at he
        exact absurd (by simp [he.1]) hc'
    simp only [List.flatMap_cons, List.append_assoc, List.length_append, length_crlf] at h ⊢
    obtain ⟨a', ha, hx⟩ | ⟨c', hl', hx⟩ := List.append_eq_append_iff.mp h
    case inl =>
      match a' with
      | [] =>
        have he := hlast (by simpa using hx)
        simp [ha, he]
      | [_] =>
        simp only [crlf_append, List.cons_append, List.nil_append, List.cons.injEq] at hx
        exact absurd hx.2.1 (by decide)
      | x :: y :: a' =>
        simp only [crlf_append, List.cons_append, List.cons.injEq] at hx
        have hr := hi hls hx.2.2
        simp only [ha, List.length_append, List.length_cons]
        omega
    case inr =>
      cases c'
      case nil =>
        have he := hlast (by simpa using hx.symm)
        simp [hl', he]
      case cons x _ =>
        simp only [crlf_append, List.cons_append, List.cons.injEq] at hx
        exact absurd (by simp [hl', hx.1]) hc

namespace RawResponse

-- Whatever a response is made of, its head is the lines it should be, and the first empty line of
-- the output is the one at the end of the head.
theorem serialize_lines (hd : OneLine date) (res : RawResponse) :
    ∃ out, res.serialize date = some out ∧
      out = (res.lines date).flatMap (· ++ crlf) ++ crlf ++ (if res.sendBody then res.body else []) ∧
      (∀ l ∈ res.lines date, l ≠ [] ∧ OneLine l) ∧
      res.lengthLine.length ≤ 1 ∧ res.typeLine.length ≤ 1 ∧ res.connectionLine.length ≤ 1 ∧
      (∀ {a b}, out = a ++ (crlf ++ (crlf ++ b)) → (res.head date).length ≤ a.length + 4) := by
  refine ⟨_, res.serialize_eq date, rfl, res.lines_ok hd, ?_, ?_, ?_, fun h => ?_⟩
  · simp only [lengthLine]
    split <;> simp
  · simp only [typeLine]
    split <;> simp
  · simp only [connectionLine]
    repeat' split
    all_goals simp
  · rw [head, List.append_assoc] at h
    have hb := blank_line_last (res.lines_ok hd) h
    simp only [head, List.length_append, length_crlf]
    omega

end RawResponse

-- A header value that tries to end its line, in a response with an odd status.
def injected : RawResponse where
  status  := -1
  headers := [⟨ascii "X\r\n\r\n", ascii "a\r\nSet-Cookie: b"⟩]
  body    := ascii "\r\n\r\n"

theorem serialize_lines_injected :
    ∃ out, injected.serialize (ascii "today") = some out ∧
      (injected.lines (ascii "today"))[3]? = some (ascii "X: aSet-Cookie: b") ∧
      ∀ {a b}, out = a ++ (crlf ++ (crlf ++ b)) → (injected.head (ascii "today")).length ≤ a.length + 4 := by
  have hd : OneLine (ascii "today") := by decide
  have ⟨out, hs, _, _, _, _, _, h⟩ := RawResponse.serialize_lines hd injected
  exact ⟨out, hs, by decide, h⟩

theorem decimalInt_ofNat (h : n < 2 ^ 31) : decimalInt (Int32.ofNat n).toInt = decimal n := by
  rw [Int32.toInt_ofNat_of_lt h]
  simp [decimalInt]

theorem ofNat_beq {k : Nat} (h : n < 2 ^ 31) (hk : k < 2 ^ 31) :
    (Int32.ofNat n == Int32.ofNat k) = (n == k) := by
  have hi : Int32.ofNat n = Int32.ofNat k ↔ n = k := by
    rw [← Int32.toInt_inj, Int32.toInt_ofNat_of_lt h, Int32.toInt_ofNat_of_lt hk]
    omega
  rw [Bool.eq_iff_iff, beq_iff_eq, beq_iff_eq, hi]

-- The responses of the server are among these.
theorem serializeResponse_raw {res : Response} (hs : res.status < 2 ^ 31) (hm : res.reqMajor < 2 ^ 31)
    (hn : res.reqMinor < 2 ^ 31) : res.raw.serialize date = some (serializeResponse date res) := by
  have hr : reasonInt (Int32.ofNat res.status).toInt = statusReason res.status := by
    rw [Int32.toInt_ofNat_of_lt hs, reasonInt, if_neg (by omega), Int.natAbs_natCast]
  have ht : res.raw.statusText ++ crlf = statusLine res := by
    simp only [RawResponse.statusText, Response.raw, decimalInt_ofNat hs, decimalInt_ofNat hm,
      decimalInt_ofNat hn, hr, statusLine]
  have hp := res.raw.printed_statusText
  rw [ht] at hp
  have h₁ : (res.raw.reqMajor == 1) = (res.reqMajor == 1) := ofNat_beq hm (by decide)
  have h₀ : (res.raw.reqMinor == 0) = (res.reqMinor == 0) := ofNat_beq hn (by decide)
  simp only [RawResponse.serialize, ht, hp, h₁, h₀, Option.bind_eq_bind, Option.bind_some]
  rfl

end Http
