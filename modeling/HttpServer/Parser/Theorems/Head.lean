import HttpServer.Parser.Theorems.Framing

open Text

namespace Http.Parser

open Grammar

variable {lim : ParserLimits} {p q : Parser} {cur : Request} {fs : List FieldLine} {v : Version}

-- What the header fields say about the body, in the words of the grammar.
def Framing.AnnouncedBy (lim : ParserLimits) (v : Version) (fs : List FieldLine) : Framing → Prop
  | .absent =>
    valuesOf fs (ascii "Transfer-Encoding") = [] ∧ valuesOf fs (ascii "Content-Length") = []
  | .length n =>
    valuesOf fs (ascii "Transfer-Encoding") = [] ∧
    valuesOf fs (ascii "Content-Length") = [decimal n] ∧ n ≤ 2 ^ 52 ∧ n ≤ lim.maxBodyBytes
  | .chunked =>
    v = .http11 ∧ valuesOf fs (ascii "Content-Length") = [] ∧
    ∃ te, valuesOf fs (ascii "Transfer-Encoding") = [te] ∧ equalsIgnoreCase te (ascii "chunked")

theorem headerAll_eq (h : cur.headers = fs.map (·.header)) (name : Bytes) :
    cur.headerAll name = valuesOf fs name := by
  simp [valuesOf, Request.headerAll, h]

theorem valuesOf_named (fs : List FieldLine) (name : Bytes) :
    valuesOf fs name = valuesNamed name (fs.map (·.header)) :=
  headerAll_named ..

theorem trimmed_fields (fs : List FieldLine) : Trimmed (fs.map (·.header)) := by
  intro h hh
  have ⟨f, _, hf⟩ := List.mem_map.mp hh
  exact hf ▸ trimOws_trimOws f.text

theorem announcedBy_iff {fr : Framing} :
    fr.AnnouncedBy lim v fs ↔ fr.Announced lim v.minor (fs.map (·.header)) := by
  have hl : toLower (ascii "chunked") = ascii "chunked" := by decide
  have hv : 1 ≤ v.minor ↔ v = .http11 := by cases v <;> decide
  cases fr <;>
    simp only [Framing.AnnouncedBy, Framing.Announced, valuesOf_named, equalsIgnoreCase_iff, hl, hv]

-- The state in which the framing of a well-formed header block is known.
def headDone (v : Version) (fs : List FieldLine) (p : Parser) : Parser :=
  { p with tooLarge := false, cur := { p.cur with keepAlive := Grammar.keepAlive v fs } }

theorem connectionOptions_eq (fs : List FieldLine) :
    connectionOptions fs = options (fs.map (·.header)) := by
  rw [connectionOptions, valuesOf_named, options]

theorem optionsOk_iff : OptionsOk fs ↔ OptionsKnown (fs.map (·.header)) := by
  rw [OptionsOk, OptionsKnown, connectionOptions_eq]

theorem keepAlive_eq (v : Version) (fs : List FieldLine) :
    Grammar.keepAlive v fs = keepsAlive v.minor (fs.map (·.header)) := by
  have hv : v = .http11 ↔ 1 ≤ v.minor := by cases v <;> decide
  rw [Bool.eq_iff_iff, keepsAlive_eq_true]
  simp only [Grammar.keepAlive, connectionOptions_eq, hv, decide_eq_true_iff]

theorem finishHeaders_eq {fr : Framing} (hh : p.cur.headers = fs.map (·.header))
    (hv : p.cur.minor = v.minor) (ho : OptionsOk fs) (hf : fr.AnnouncedBy lim v fs) :
    finishHeaders lim p = finishFraming (headDone v fs p) fr := by
  have ht : Trimmed p.cur.headers := hh ▸ trimmed_fields fs
  have ho : OptionsKnown p.cur.headers := hh ▸ optionsOk_iff.mp ho
  rw [finishHeaders_framed ht ho (hv ▸ hh ▸ announcedBy_iff.mp hf), headDone, keepAlive_eq, hv, hh]

theorem finishHeaders_ok {o : HeadOutcome} (hh : p.cur.headers = fs.map (·.header))
    (hv : p.cur.minor = v.minor) (h : finishHeaders lim p = (o, q)) (ho : ∀ err, o ≠ .error err) :
    OptionsOk fs ∧ ∃ fr : Framing, fr.AnnouncedBy lim v fs := by
  have ht : Trimmed p.cur.headers := hh ▸ trimmed_fields fs
  have he : ∀ err, (finishHeaders lim p).1 ≠ .error err := by rwa [h]
  have ⟨ho, fr, hf⟩ := finishHeaders_accepted ht he
  rw [hh, hv] at hf
  exact ⟨optionsOk_iff.mpr (hh ▸ ho), fr, announcedBy_iff.mpr hf⟩

theorem finishExpect_absent (h : p.cur.headers.find? (equalsIgnoreCase ·.name (ascii "Expect")) = none) :
    finishExpect p = (.bodyPending, p) := by
  simp [finishExpect, Request.header, h]

-- The state behind the interim response.
def expected (p : Parser) : Parser :=
  { p with expectSent := true, cur := { p.cur with expect100Continue := true } }

theorem finishExpect_ok {o : HeadOutcome} (h : finishExpect p = (o, q)) (ho : ∀ err, o ≠ .error err) :
    o = .bodyPending ∧ q = p ∨ o = .send100 ∧ q = p.expected := by
  simp only [finishExpect] at h
  repeat' split at h
  all_goals cases h
  case isTrue => exact .inl ⟨rfl, rfl⟩
  case isFalse.isTrue => exact absurd rfl (ho _)
  case isFalse.isFalse.isTrue => exact .inr ⟨rfl, rfl⟩
  case isFalse.isFalse.isFalse => exact .inl ⟨rfl, rfl⟩

end Http.Parser
