import HttpServer.Objects.Theorems.Args
import HttpServer.Parser.Theorems.Cutting

open Text

namespace Http.Parser

open Grammar Args

variable {cfg : Settings} {env : Args.Env} {args : List Bytes} {m : Message}

-- A message that the cap has nothing against. It is accepted in one piece, and in all others if the
-- cuts do not matter. At no time the bytes that were consumed and those in the buffer exceed the cap,
-- which is what `parse` checks and also `on_readable`.
structure Spared (cfg : Config) (m : Message) : Prop where
  whole    : Accepts (run cfg.limits [m.encode])
  pieces   : Slack cfg.limits m → ∀ ps, ps.flatten = m.encode → Accepts (run cfg.limits ps)
  uncapped : ∀ {i t es c p b}, m.encode = i ++ t → Session cfg.limits i es c p b →
    p.consumed + b.length ≤ cfg.maxRequestBytes

theorem spared_iff {cfg : Config} (hr : Readable m) (hw : PartsOk cfg.limits m) :
    Spared cfg m ↔ m.encode.length ≤ cfg.maxRequestBytes := by
  constructor
  case mp =>
    intro h
    have hs : Session cfg.limits ([] ++ m.encode) [] [] {} ([] ++ m.encode) := .receive m.encode .fresh
    simpa using h.uncapped (List.append_nil _).symm hs
  case mpr =>
    intro hl
    refine ⟨run_whole hr hw hl, fun hs _ hp => run_slack hr hw hl hs hp, ?_⟩
    intro i t es c p b hm hs
    have ⟨hi, _, hc, _⟩ := hs.invariant
    have hn : p.consumed = c.length := hc.consumed_eq
    rw [hm, hi] at hl
    simp only [List.length_append] at hl
    omega

-- The cap spares just those messages that are not longer than what was asked for, or than the limits
-- of header and body together. Neither the request line counts for this sum nor the framing of chunks.
theorem cap_spares (env : Args.Env) (args : List Bytes) (m : Message)
    (h : parseArgs env args {} = .ok cfg) (hr : Readable m) (hw : PartsOk cfg.limits m) :
    Spared cfg.toConfig m ↔
      m.encode.length ≤ requested args .maxRequest (9 * 1024 * 1024) ∨
      m.encode.length ≤ (requested args .maxBody (8 * 1024 * 1024) +
        requested args .maxHeaders (64 * 1024)) % 2 ^ 64 := by
  have ⟨_, _, hc⟩ := parseArgs_sizes h
  rw [spared_iff hr hw, hc]
  exact Std.le_max

def desk : Args.Env where
  hardwareConcurrency := 4
  strtod _            := none

-- The limits are as large as the header, with its trailer, and the body of `upload` ask for.
def tight (cap : String) : List Bytes :=
  [ascii "--max-body=3", ascii "--max-headers", ascii "64", ascii "--max-request", ascii cap]

def tightened (cap : Nat) : Settings where
  maxHeaderBytes  := 64
  maxBodyBytes    := 3
  maxRequestBytes := cap

theorem upload_parts (cap : Nat) : PartsOk (tightened cap).limits upload := by
  have hl : upload.line.encode.length ≤ 8 * 1024 := by decide
  have hf : upload.fields.length ≤ 256 ∧ (encodeFields upload.fields).length ≤ 64 := by decide
  have hb : upload.body.data.length ≤ 3 := by decide
  have hn : (upload.fields ++ upload.body.trailers).length ≤ 256 := by decide
  have ht : (encodeFields upload.fields ++ crlf ++ encodeFields upload.body.trailers).length ≤ 64 := by
    decide
  exact ⟨hl, ⟨hf.1, hf.2⟩, ⟨hb, by decide⟩, ⟨hn, fun _ => ht⟩⟩

theorem cap_spares_upload : Spared (tightened 80).toConfig upload := by
  have h : parseArgs desk (tight "80") {} = .ok (tightened 80) := by rfl
  have hr : requested (tight "80") .maxRequest (9 * 1024 * 1024) = 80 := by decide +kernel
  refine (cap_spares desk (tight "80") upload h upload_readable (upload_parts 80)).mpr (.inl ?_)
  rw [hr]
  decide

-- The cap is raised, but not enough.
theorem cap_refuses_upload :
    parseArgs desk (tight "0") {} = .ok (tightened 67) ∧
    Readable upload ∧ PartsOk (tightened 67).limits upload ∧
    run (tightened 67).limits [upload.encode] =
      ([], some (.tooLarge "request exceeds the configured limit")) ∧
    ¬Spared (tightened 67).toConfig upload := by
  have hn : ¬Spared (tightened 67).toConfig upload := by
    rw [spared_iff upload_readable (upload_parts 67)]
    decide
  exact ⟨by rfl, upload_readable, upload_parts 67, by decide +kernel, hn⟩

end Http.Parser
