import HttpServer.Library.Json
import HttpServer.Handler.Theorems.Printable

open Text

namespace Http

-- The text that the inside of a string literal stands for, if `\u00XX` is read as the byte XX.
def jsonUnescape (s : Bytes) : Option Bytes :=
  match Json.unescape s with
  | none    => none
  | some us => if us.all (· < 256) then some (us.map UInt8.ofNat) else none

-- The number of backslashes at the end of a text. A quote behind it is escaped if the number is odd.
def backslashes (s : Bytes) : Nat :=
  (s.reverse.takeWhile (· == '\\'.toUInt8)).length

variable {s t : Bytes} {c : Byte}

theorem readString_jsonEscapeByte (c : Byte) (t : Bytes) :
    Json.readString (jsonEscapeByte c ++ t) = (Json.readString t).map (Json.push c.toNat) := by
  have hx : ∀ c : Byte, Json.codeUnit 0x30 0x30 (hexChar (c >>> 4)) (hexChar c) = some c.toNat :=
    forall_byte (by decide +kernel)
  have hp (hq : c ≠ Json.quote) (hb : c ≠ Json.backslash) (h : ¬(c < 0x20 || c ≥ 0x7f) = true) :
      Json.isPlain c = true := by
    grind [Json.isPlain]
  simp only [jsonEscapeByte]
  split
  case isTrue h => exact h ▸ Json.readString_escape rfl t
  case isFalse hq =>
    split
    case isTrue h => exact h ▸ Json.readString_escape rfl t
    case isFalse hb =>
      split
      case isTrue h => exact h ▸ Json.readString_escape rfl t
      split
      case isTrue h => exact h ▸ Json.readString_escape rfl t
      split
      case isTrue h => exact h ▸ Json.readString_escape rfl t
      split
      case isTrue  => exact Json.readString_unit (hx c) t
      case isFalse h => exact Json.readString_plain (hp hq hb h) t

theorem readString_jsonEscape (s t : Bytes) :
    Json.readString (jsonEscape s ++ Json.quote :: t) = some (s.map UInt8.toNat, t) :=
  Json.readString_flatMap (fun c _ t => readString_jsonEscapeByte c t) t

theorem jsonUnescape_jsonEscape (s : Bytes) : jsonUnescape (jsonEscape s) = some s := by
  have hb : (s.map UInt8.toNat).all (· < 256) = true := by
    simpa using fun x _ => UInt8.toNat_lt x
  have hs : (s.map UInt8.toNat).map UInt8.ofNat = s := by
    simp [Function.comp_def]
  simp only [jsonUnescape, Json.unescape, readString_jsonEscape, hb, if_true, hs]

-- The escape of a byte is printable, it has no quote but the one behind its backslash, and only the
-- escape of the backslash ends in one.
theorem jsonEscapeByte_shape : ∀ c : Byte, PrintableText (jsonEscapeByte c) ∧
    ('"'.toUInt8 ∈ jsonEscapeByte c → jsonEscapeByte c = ['\\'.toUInt8, '"'.toUInt8]) ∧
    (jsonEscapeByte c = ['\\'.toUInt8] ++ ['\\'.toUInt8] ∨
      jsonEscapeByte c ≠ [] ∧ (jsonEscapeByte c).getLast? ≠ some '\\'.toUInt8) :=
  forall_byte (by decide +kernel)

theorem jsonEscape_printable (s : Bytes) : PrintableText (jsonEscape s) := by
  intro c hc
  obtain ⟨x, _, hx⟩ := List.mem_flatMap.mp hc
  exact (jsonEscapeByte_shape x).1 c hx

theorem jsonEscape_concat (s : Bytes) (c : Byte) :
    jsonEscape (s ++ [c]) = jsonEscape s ++ jsonEscapeByte c := by
  simp [jsonEscape]

theorem backslashes_concat (s : Bytes) : backslashes (s ++ ['\\'.toUInt8]) = backslashes s + 1 := by
  simp [backslashes]

theorem backslashes_other (h : c ≠ '\\'.toUInt8) (s : Bytes) : backslashes (s ++ [c]) = 0 := by
  simp [backslashes, h]

-- The escape of the backslash has two of them.
theorem backslashes_jsonEscape (s : Bytes) : backslashes (jsonEscape s) % 2 = 0 := by
  induction s using List.reverseRecOn
  case nil => rfl
  case append_singleton s c hi =>
    have he := jsonEscape_concat s c
    obtain h | ⟨hn, hl⟩ := (jsonEscapeByte_shape c).2.2
    case inl =>
      rw [he, h, ← List.append_assoc, backslashes_concat, backslashes_concat]
      omega
    case inr =>
      obtain ⟨l, x, hx⟩ := (List.eq_nil_or_concat (jsonEscapeByte c)).resolve_left hn
      rw [List.concat_eq_append] at hx
      have hx' : x ≠ '\\'.toUInt8 := by simpa [hx] using hl
      rw [he, hx, ← List.append_assoc, backslashes_other hx']

theorem jsonEscape_quotes {a b : Bytes} (h : jsonEscape s = a ++ '"'.toUInt8 :: b) :
    backslashes a % 2 = 1 := by
  induction s using List.reverseRecOn generalizing b
  case nil => simp [jsonEscape] at h
  case append_singleton s c hi =>
    rw [jsonEscape_concat] at h
    obtain ⟨a', ha, hc⟩ | ⟨c', hs, hc⟩ := List.append_eq_append_iff.mp h
    case inl =>
      -- The quote is in the last escape, behind its backslash.
      have hm := (jsonEscapeByte_shape c).2.1 (by simp [hc])
      rw [hm] at hc
      match a', hc with
      | [], hc         => exact absurd (List.cons.inj hc).1 (by decide)
      | [x], hc        =>
        have hx := (List.cons.inj hc).1
        rw [ha, ← hx, backslashes_concat, Nat.add_mod, backslashes_jsonEscape]
      | _ :: _ :: _, hc => simp at hc
    case inr =>
      cases c'
      case nil =>
        rw [List.nil_append] at hc
        have hm := (jsonEscapeByte_shape c).2.1 (by simp [← hc])
        rw [hm] at hc
        exact absurd (List.cons.inj hc).1 (by decide)
      case cons x c' =>
        cases hc
        exact hi hs

def jsonText (s : Bytes) : Json.Value :=
  .string (s.map UInt8.toNat)

def jsonCount (n : Nat) : Json.Value :=
  .number { int := n }

-- What a preview tells about a request.
def previewVersion (req : Request) : Bytes :=
  ascii "1." ++ if req.minor = 0 then ascii "0" else ascii "1"

def previewMembers (req : Request) : List (Bytes × Json.Value) :=
  [(ascii "method", jsonText req.methodName),
   (ascii "target", jsonText req.target),
   (ascii "version", jsonText (previewVersion req)),
   (ascii "headers", jsonCount req.headers.length),
   (ascii "body_bytes", jsonCount req.body.length)] ++
  if req.body = [] then [] else [(ascii "body_preview", jsonText (req.body.take 256))]

-- The spelling of a member.
def memberText (key text : Bytes) : Bytes :=
  Json.quote :: (key ++ Json.quote :: Json.colon :: text)

def stringText (s : Bytes) : Bytes :=
  Json.quote :: (s ++ [Json.quote])

theorem leaf_jsonEscape (s : Bytes) : Json.Leaf (stringText (jsonEscape s)) (jsonText s) :=
  .string (readString_jsonEscape s)

theorem leaf_plain (h : s.all Json.isPlain = true) : Json.Leaf (stringText s) (jsonText s) :=
  .string (Json.readString_text h)

theorem leaf_decimal (n : Nat) : Json.Leaf (decimal n) (jsonCount n) := by
  have hd : Json.digit = decDigit := rfl
  have hl : Json.Leaf (decimal n) (.number { int := Numeral.valueFrom Json.digit 10 0 (decimal n) }) :=
    .number (hd ▸ decimal_canonical n)
  rwa [hd, decimal_value] at hl

theorem previewVersion_plain (req : Request) : (previewVersion req).all Json.isPlain = true := by
  simp only [previewVersion]
  split <;> decide

def previewTexts (req : Request) : List Bytes :=
  [memberText (ascii "method") (stringText (jsonEscape req.methodName)),
   memberText (ascii "target") (stringText (jsonEscape req.target)),
   memberText (ascii "version") (stringText (previewVersion req)),
   memberText (ascii "headers") (decimal req.headers.length),
   memberText (ascii "body_bytes") (decimal req.body.length)] ++
  if req.body = [] then []
    else [memberText (ascii "body_preview") (stringText (jsonEscape (req.body.take 256)))]

theorem previewTexts_members (req : Request) : List.Forall₂ Json.Member (previewTexts req)
    ((previewMembers req).map fun (k, v) => (k.map UInt8.toNat, v)) := by
  have h₁ := Json.Member.of_text (show (ascii "method").all Json.isPlain by decide)
    (leaf_jsonEscape req.methodName)
  have h₂ := Json.Member.of_text (show (ascii "target").all Json.isPlain by decide)
    (leaf_jsonEscape req.target)
  have h₃ := Json.Member.of_text (show (ascii "version").all Json.isPlain by decide)
    (leaf_plain (previewVersion_plain req))
  have h₄ := Json.Member.of_text (show (ascii "headers").all Json.isPlain by decide)
    (leaf_decimal req.headers.length)
  have h₅ := Json.Member.of_text (show (ascii "body_bytes").all Json.isPlain by decide)
    (leaf_decimal req.body.length)
  have h₆ := Json.Member.of_text (show (ascii "body_preview").all Json.isPlain by decide)
    (leaf_jsonEscape (req.body.take 256))
  have hb : List.Forall₂ Json.Member
      (if req.body = [] then []
        else [memberText (ascii "body_preview") (stringText (jsonEscape (req.body.take 256)))])
      ((if req.body = [] then [] else [(ascii "body_preview", jsonText (req.body.take 256))]).map
        fun (k, v) => (k.map UInt8.toNat, v)) := by
    split
    case isTrue  => exact .nil
    case isFalse => exact .cons h₆ .nil
  exact .cons h₁ (.cons h₂ (.cons h₃ (.cons h₄ (.cons h₅ hb))))

theorem bodyPreview_eq (req : Request) : bodyPreview req =
    Json.openBrace :: ([Json.comma].intercalate (previewTexts req) ++ [Json.closeBrace]) ++ [lf] := by
  have h₁ : ascii "\x7b\"method\":\"" =
    Json.openBrace :: Json.quote :: (ascii "method" ++ [Json.quote, Json.colon, Json.quote]) := by decide
  have h₂ : ascii "\",\"target\":\"" = Json.quote :: Json.comma :: Json.quote ::
    (ascii "target" ++ [Json.quote, Json.colon, Json.quote]) := by decide
  have h₃ : ascii "\",\"version\":\"1." = Json.quote :: Json.comma :: Json.quote ::
    (ascii "version" ++ [Json.quote, Json.colon, Json.quote] ++ ascii "1.") := by decide
  have h₄ : ascii "\",\"headers\":" = Json.quote :: Json.comma :: Json.quote ::
    (ascii "headers" ++ [Json.quote, Json.colon]) := by decide
  have h₅ : ascii ",\"body_bytes\":" = Json.comma :: Json.quote ::
    (ascii "body_bytes" ++ [Json.quote, Json.colon]) := by decide
  have h₆ : ascii ",\"body_preview\":\"" = Json.comma :: Json.quote ::
    (ascii "body_preview" ++ [Json.quote, Json.colon, Json.quote]) := by decide
  have h₇ : ascii "\"" = [Json.quote] := by decide
  have h₈ : ascii "\x7d\n" = [Json.closeBrace, lf] := by decide
  have hs : substr req.body 0 256 = req.body.take 256 := rfl
  simp only [bodyPreview, previewTexts, memberText, stringText, previewVersion, hs, h₁, h₂, h₃,
    h₄, h₅, h₆, h₇, h₈, List.isEmpty_iff]
  by_cases hb : req.body = []
  case pos => simp [hb]
  case neg => simp [hb]

theorem read_bodyPreview (req : Request) :
    ∃ text, bodyPreview req = text ++ [lf] ∧
      Json.read text =
        some (.object ((previewMembers req).map fun (k, v) => (k.map UInt8.toNat, v))) :=
  ⟨_, bodyPreview_eq req, Json.read_object (previewTexts_members req) (by simp [previewTexts])⟩

theorem previewVersion_eq {req : Request} (h₁ : req.major = 1) (h₂ : req.minor ≤ 1) :
    previewVersion req = decimal req.major ++ ascii "." ++ decimal req.minor := by
  obtain h₂ | h₂ : req.minor = 0 ∨ req.minor = 1 := by omega
  · simp only [previewVersion, h₁, h₂]
    decide
  · simp only [previewVersion, h₁, h₂]
    decide

-- What a client sends comes back as it was, but only ever as the content of a string.
theorem preview_faithful :
    (∀ s : Bytes, PrintableText (jsonEscape s) ∧
      (∀ a b, jsonEscape s = a ++ '"'.toUInt8 :: b → backslashes a % 2 = 1) ∧
      jsonUnescape (jsonEscape s) = some s) ∧
    Function.Injective jsonEscape ∧
    ∀ req : Request,
      (∃ text, bodyPreview req = text ++ [lf] ∧
        Json.read text =
          some (.object ((previewMembers req).map fun (k, v) => (k.map UInt8.toNat, v)))) ∧
      (req.major = 1 → req.minor ≤ 1 →
        previewVersion req = decimal req.major ++ ascii "." ++ decimal req.minor) := by
  refine ⟨fun s => ⟨jsonEscape_printable s, fun a b => jsonEscape_quotes, jsonUnescape_jsonEscape s⟩,
    fun s t h => ?_, fun req => ⟨read_bodyPreview req, previewVersion_eq⟩⟩
  have hs := jsonUnescape_jsonEscape s
  rw [h, jsonUnescape_jsonEscape t] at hs
  exact (Option.some.inj hs).symm

-- A target that tries to end its member, and a body of any bytes.
def hostileRequest : Request where
  method     := .post
  methodName := ascii "POST"
  target     := ascii "/info?\",\"a\":\"b"
  minor      := 0
  body       := [0x00, 0x22, 0x5c, 0x7f, 0xff]

theorem preview_faithful_hostile :
    bodyPreview hostileRequest = ascii ("\x7b\"method\":\"POST\"," ++
      "\"target\":\"/info?\\\",\\\"a\\\":\\\"b\",\"version\":\"1.0\",\"headers\":0,\"body_bytes\":5," ++
      "\"body_preview\":\"\\u0000\\\"\\\\\\u007f\\u00ff\"\x7d\n") ∧
    previewVersion hostileRequest = decimal 1 ++ ascii "." ++ decimal 0 ∧
    (previewMembers hostileRequest).length = 6 :=
  ⟨by decide +kernel, (preview_faithful.2.2 hostileRequest).2 rfl (by decide), rfl⟩

end Http
