import HttpServer.Parser.Theorems.Phases

open Text

namespace Http.Parser

open Grammar

-- Moves that report nothing, each over input that holds all it asks for.
inductive Moves (lim : ParserLimits) (p : Parser) : Bytes → Parser → Prop
  | refl : Moves lim p [] p
  | tail : Moves lim p c q → Move lim q d none r → ¬Starved q d → Moves lim p (c ++ d) r

variable {lim : ParserLimits} {p p' q : Parser} {b b' c t : Bytes} {st : ParseStatus}
variable {l : RequestLine} {fs ts : List FieldLine} {cs : List Chunk} {s : ChunkLine} {e : Bool}

theorem lineReady_crlf (hs : p.scan = 0) (hl : lf ∉ c) :
    lineReady p (c ++ cr :: lf :: t) = (.ready c.length, c.length + 2) :=
  lineReady_line (.zero hs) hl

-- The converse of `pass_outcome`: a move that is possible is taken.
theorem Move.pass_loop (m : Move lim p c none p') (hs : p.scan = 0) (hc : ¬Starved p c) (t : Bytes) :
    ∃ o, pass lim p (c ++ t) = .loop o p' t := by
  cases m
  case requestLine hp hl hm hr =>
    simp [pass, hp, passRequestLine, lineReady_crlf hs hl, hr, eatLine, Nat.not_lt_of_le hm]
  case header hp hl hn hr hm =>
    simp [pass, hp, passHeaders, lineReady_crlf hs hl, hr, hn, eatField, Nat.not_lt_of_le hm]
  case headPending hp hf =>
    have hl := lineReady_crlf (t := t) (c := []) hs (by simp)
    simp only [List.nil_append, List.length_nil] at hl
    simp only [eatField, hp, Nat.zero_add] at hf
    simp [pass, hp, passHeaders, hl, hf]
  case bodyData hp _ hl => simp [Starved, hp, hl] at hc
  case chunkCrlf hp he =>
    have hl := lineReady_crlf (t := t) (c := []) hs (by simp)
    simp only [List.nil_append, List.length_nil] at hl
    simp [pass, hp, passBodyChunked, he, hl, eatLine]
  case chunkData hp he hne hl hm =>
    have hr : 0 < p.chunkRemaining := Nat.lt_of_lt_of_le (List.length_pos_iff.mpr hne) hl
    have hd : c.length = p.chunkRemaining := by
      simp [Starved, hp, he, hr] at hc
      omega
    rw [pass_chunkData hp he hd hne, if_neg (Nat.not_lt_of_le hm)]
    simp [hd]
  case chunkSize hp he hr hl hz h0 hm =>
    simp [pass, hp, passBodyChunked, he, hr, lineReady_crlf hs hl, hz, h0, eatLine,
      Nat.not_lt_of_le hm]
  case lastChunk hp he hr hl hz =>
    simp [pass, hp, passBodyChunked, he, hr, lineReady_crlf hs hl, hz, eatLine]
  case trailer hp hl hn hr hm =>
    simp [pass, hp, passChunkTrailer, lineReady_crlf hs hl, hr, hn, eatField,
      Nat.not_lt_of_le hm]

theorem Move.pass_ret (m : Move lim p c (some st) p') (hs : p.scan = 0) (t : Bytes) :
    pass lim p (c ++ t) = .ret st p' t := by
  have hl := lineReady_crlf (t := t) (c := []) hs (by simp)
  simp only [List.nil_append, List.length_nil] at hl
  cases m
  case headExpect hp hf =>
    simp only [eatField, hp, Nat.zero_add] at hf
    simp [pass, hp, passHeaders, hl, hf]
  case headReady hp hf =>
    simp only [eatField, hp, Nat.zero_add] at hf
    simp [pass, hp, passHeaders, hl, hf, emitRequest, finish]
  case bodyEnd hp hd => exact pass_bodyEnd hp hd
  case trailerEnd hp =>
    simp [pass, hp, passChunkTrailer, hl, emitRequest, finish, eatLine]

theorem Moves.scan_eq (h : Moves lim p c q) (hs : p.scan = 0) : q.scan = 0 := by
  cases h
  case refl => exact hs
  case tail _ _ m => exact m.scan_eq

theorem Moves.passes (h : Moves lim p c q) (hs : p.scan = 0) (hp : Passes lim q t st p' b') :
    Passes lim p (c ++ t) st p' b' := by
  induction h generalizing t
  case refl => exact hp
  case tail h m hn hi =>
    rw [List.append_assoc]
    have ⟨_, hl⟩ := m.pass_loop (h.scan_eq hs) hn t
    exact hi (.loop hl hp)

theorem Moves.trans (h₁ : Moves lim p b q) (h₂ : Moves lim q c p') : Moves lim p (b ++ c) p' := by
  induction h₂
  case refl => simpa using h₁
  case tail m hn hi =>
    rw [← List.append_assoc]
    exact .tail hi m hn

theorem Move.single (m : Move lim p c none q) (hn : ¬Starved p c) : Moves lim p c q :=
  .tail .refl m hn

theorem lf_mem_encodeLine (b : Bytes) : lf ∈ encodeLine b := by
  simp [encodeLine, crlf]

theorem moves_requestLine (h : l.encode.length ≤ lim.maxRequestLineBytes) :
    Moves lim {} (encodeLine l.encode) (inHead l []) := by
  have m : Move lim {} (encodeLine l.encode) none _ :=
    .requestLine rfl l.no_lf h (parseRequestLine_encode l h)
  rw [eat_requestLine] at m
  exact m.single (by simp [Starved, lf_mem_encodeLine])

theorem moves_field {f : FieldLine} (hb : (encodeFields (fs ++ [f])).length ≤ lim.maxHeaderBytes)
    (hn : (fs ++ [f]).length ≤ lim.maxHeaderFields) :
    Moves lim (inHead l fs) (encodeLine f.encode) (inHead l (fs ++ [f])) := by
  simp only [encodeFields_append, encodeFields_singleton, List.length_append, List.length_singleton,
    length_encodeLine] at hb hn
  have hf : (inHead l fs).cur.headers.length < lim.maxHeaderFields := by
    simpa [inHead] using Nat.lt_of_succ_le hn
  have m : Move lim (inHead l fs) (encodeLine f.encode) none _ :=
    .header rfl f.no_lf f.encode_ne_nil (parseHeaderLine_encode f hf) (by simpa [inHead] using hb)
  rw [eat_field] at m
  exact m.single (by simp [Starved, inHead, lf_mem_encodeLine])

theorem moves_fields (hb : (encodeFields fs).length ≤ lim.maxHeaderBytes)
    (hn : fs.length ≤ lim.maxHeaderFields) :
    Moves lim (inHead l []) (encodeFields fs) (inHead l fs) := by
  induction fs using List.reverseRecOn
  case nil => exact .refl
  case append_singleton fs f hi =>
    have hb' := hb
    have hn' := hn
    simp only [encodeFields_append, encodeFields_singleton, List.length_append,
      length_encodeLine] at hb' hn' ⊢
    exact (hi (by omega) (by omega)).trans (moves_field hb hn)

theorem expect_absent {p : Parser} (hp : p.cur.headers = fs.map (·.header))
    (h : valuesOf fs (ascii "Expect") = []) : finishExpect p = (.bodyPending, p) := by
  refine finishExpect_absent ?_
  simpa [valuesOf, Request.headerAll, hp] using h

theorem finishHeaders_inHead {fr : Framing} (ho : OptionsOk fs) (hf : fr.AnnouncedBy lim l.version fs) :
    finishHeaders lim ((inHead l fs).eatField 0) = finishFraming (inBody l fs false) fr := by
  rw [← eat_head]
  exact finishHeaders_eq rfl rfl ho hf

theorem moves_fixed {n : Nat} (ho : OptionsOk fs) (he : valuesOf fs (ascii "Expect") = [])
    (hf : (Framing.length n).AnnouncedBy lim l.version fs) (hn : n > 0) :
    Moves lim (inHead l fs) crlf (inFixed l fs false n []) := by
  have h : finishHeaders lim ((inHead l fs).eatField 0) = (.bodyPending, inFixed l fs false n []) := by
    rw [finishHeaders_inHead ho hf, finish_fixed l fs hn]
    exact expect_absent (by rfl) he
  exact (Move.headPending rfl h).single (by simp [Starved, inHead, crlf])

theorem moves_chunked (ho : OptionsOk fs) (he : valuesOf fs (ascii "Expect") = [])
    (hf : Framing.chunked.AnnouncedBy lim l.version fs) :
    Moves lim (inHead l fs) crlf (inChunks l fs false []) := by
  have h : finishHeaders lim ((inHead l fs).eatField 0) = (.bodyPending, inChunks l fs false []) := by
    rw [finishHeaders_inHead ho hf, finish_chunked l fs]
    exact expect_absent (by rfl) he
  exact (Move.headPending rfl h).single (by simp [Starved, inHead, crlf])

theorem moves_chunk (c : Chunk) (hb : (chunkData cs ++ c.data).length ≤ lim.maxBodyBytes)
    (hm : c.data.length ≤ 2 ^ 52) :
    Moves lim (inChunks l fs e cs) c.encode (inChunks l fs e (cs ++ [c])) := by
  have hs : c.line.size ≠ 0 := by
    rw [← c.complete]
    exact Nat.ne_of_gt (List.length_pos_iff.mpr c.nonempty)
  have hb : (chunkData cs).length + c.line.size ≤ lim.maxBodyBytes := by
    simpa [c.complete] using hb
  have m₁ : Move lim (inChunks l fs e cs) (encodeLine c.line.encode) none _ :=
    .chunkSize rfl rfl rfl c.line.no_lf (parseChunkSize_encode c.line (c.complete ▸ hm)) hs hb
  rw [eat_chunkSize l fs e cs hs] at m₁
  have m₂ : Move lim (inChunk l fs e cs c.line []) c.data none _ :=
    .chunkData rfl (by simpa [inChunk] using hs) c.nonempty (by simp [inChunk, c.complete])
      (by simpa [inChunk, c.complete] using hb)
  rw [eat_chunkData, List.nil_append] at m₂
  have m₃ : Move lim (inChunk l fs e cs c.line c.data) crlf none _ :=
    .chunkCrlf rfl (by simp [inChunk, c.complete])
  rw [eat_chunkCrlf] at m₃
  rw [Chunk.encode, encodeLine, encodeLine, ← List.append_assoc]
  refine .tail (.tail (m₁.single ?_) m₂ ?_) m₃ ?_
  · simp [Starved, inChunks, inBody, inHead, lf_mem_encodeLine]
  · simp [Starved, inChunk, inChunks, c.complete, hs]
  · simp [Starved, inChunk, inChunks, c.complete, crlf]

theorem moves_chunks (hb : (chunkData cs).length ≤ lim.maxBodyBytes)
    (hm : ∀ c ∈ cs, c.data.length ≤ 2 ^ 52) :
    Moves lim (inChunks l fs e []) (chunkBytes cs) (inChunks l fs e cs) := by
  induction cs using List.reverseRecOn
  case nil => exact .refl
  case append_singleton cs c hi =>
    simp only [chunkData, chunkBytes, List.flatMap_append, List.flatMap_singleton,
      List.length_append] at hb hi ⊢
    have hs := hi (by omega) (fun x hx => hm x (by simp [hx]))
    exact hs.trans (moves_chunk c (by simpa [chunkData] using hb) (hm c (by simp)))

theorem length_chunk_le {c : Chunk} (hc : c ∈ cs) : c.data.length ≤ (chunkData cs).length := by
  have hs := List.sublist_flatten_of_mem (List.mem_map_of_mem (f := Chunk.data) hc)
  rw [← List.flatMap_def] at hs
  exact hs.length_le

theorem moves_lastChunk (hz : s.size = 0) :
    Moves lim (inChunks l fs e cs) (encodeLine s.encode) (inTrailers l fs e cs s []) := by
  have m : Move lim (inChunks l fs e cs) (encodeLine s.encode) none _ :=
    .lastChunk rfl rfl rfl s.no_lf (hz ▸ parseChunkSize_encode s (by omega))
  rw [eat_lastChunk] at m
  exact m.single (by simp [Starved, inChunks, inBody, inHead, lf_mem_encodeLine])

theorem moves_trailer {f : FieldLine} (hn : (fs ++ (ts ++ [f])).length ≤ lim.maxHeaderFields)
    (hb : (encodeFields fs ++ crlf ++ encodeFields (ts ++ [f])).length ≤ lim.maxHeaderBytes) :
    Moves lim (inTrailers l fs e cs s ts) (encodeLine f.encode)
      (inTrailers l fs e cs s (ts ++ [f])) := by
  simp only [encodeFields_append, encodeFields_singleton, List.length_append, List.length_singleton,
    length_encodeLine, length_crlf] at hb hn
  have hf : (inTrailers l fs e cs s ts).cur.headers.length < lim.maxHeaderFields := by
    simp [inTrailers]
    omega
  have m : Move lim (inTrailers l fs e cs s ts) (encodeLine f.encode) none _ :=
    .trailer rfl f.no_lf f.encode_ne_nil (parseHeaderLine_encode f hf)
      (by simp [inTrailers]; omega)
  rw [eat_trailer] at m
  exact m.single (by simp [Starved, inTrailers, lf_mem_encodeLine])

theorem moves_trailers (hn : (fs ++ ts).length ≤ lim.maxHeaderFields)
    (hb : ts ≠ [] → (encodeFields fs ++ crlf ++ encodeFields ts).length ≤ lim.maxHeaderBytes) :
    Moves lim (inTrailers l fs e cs s []) (encodeFields ts) (inTrailers l fs e cs s ts) := by
  induction ts using List.reverseRecOn
  case nil => exact .refl
  case append_singleton ts f hi =>
    have hb := hb (by simp)
    have hb' := hb
    have hn' := hn
    simp only [encodeFields_append, encodeFields_singleton, List.length_append,
      length_encodeLine] at hb' hn' hi ⊢
    exact (hi (by omega) (fun _ => by omega)).trans (moves_trailer hn hb)

variable {m : Message}

theorem announced_empty (lim : ParserLimits) (h : m.body = .empty) :
    ∃ fr : Framing, fr.AnnouncedBy lim m.line.version m.fields ∧
      finishFraming (inBody m.line m.fields false) fr = (.requestReady, inBody m.line m.fields false) := by
  have hm := m.framed
  rw [h] at hm
  match hm with
  | ⟨hte, .inl hcl⟩ => exact ⟨.absent, ⟨hte, hcl⟩, rfl⟩
  | ⟨hte, .inr hcl⟩ => exact ⟨.length 0, ⟨hte, hcl, by omega, by omega⟩, rfl⟩

theorem announced_fixed (h : m.body = .fixed d hd) (hf : m.Fits lim) :
    (Framing.length d.length).AnnouncedBy lim m.line.version m.fields := by
  have hm := m.framed
  have hb := hf.body
  have hn := hf.number
  rw [h] at hm hb hn
  exact ⟨hm.1, hm.2, hn, hb⟩

theorem announced_chunked (lim : ParserLimits) (h : m.body = .chunked cs s hz ts) :
    Framing.chunked.AnnouncedBy lim m.line.version m.fields := by
  have hm := m.framed
  rw [h] at hm
  exact hm

theorem ends_empty (h : m.body = .empty) :
    Move lim (inHead m.line m.fields) crlf (some (.request m.request)) {} := by
  have ⟨fr, ha, hr⟩ := announced_empty lim h
  rw [← finishHeaders_inHead m.options ha] at hr
  have mv : Move lim (inHead m.line m.fields) crlf _ _ := .headReady rfl hr
  have hq : _ = m.request := finish_empty m h false
  rwa [hq] at mv

theorem ends_fixed (h : m.body = .fixed d hd) (e : Bool) :
    Move lim (inFixed m.line m.fields e d.length []) d
      (some (.request { m.request with expect100Continue := e })) {} := by
  have mv : Move lim (inFixed m.line m.fields e d.length []) d _ _ := .bodyEnd rfl rfl
  have hq := finish_body m [] d h e d.length
  rwa [show (inFixed m.line m.fields e d.length []).body ++ d = [] ++ d from rfl, hq] at mv

theorem ends_chunked (h : m.body = .chunked cs s hz ts) (e : Bool) :
    Move lim (inTrailers m.line m.fields e cs s ts) crlf
      (some (.request { m.request with expect100Continue := e })) {} := by
  have mv : Move lim (inTrailers m.line m.fields e cs s ts) crlf _ _ := .trailerEnd rfl
  rwa [finish_trailers m h e] at mv

theorem passes_empty (h : m.body = .empty) (t : Bytes) :
    Passes lim (inHead m.line m.fields) (crlf ++ t) (.request m.request) {} t :=
  .ret ((ends_empty h).pass_ret rfl t)

theorem passes_fixed (h : m.body = .fixed d hd) (hf : m.Fits lim)
    (he : valuesOf m.fields (ascii "Expect") = []) (t : Bytes) :
    Passes lim (inHead m.line m.fields) (crlf ++ (d ++ t)) (.request m.request) {} t :=
  (moves_fixed m.options he (announced_fixed h hf) (List.length_pos_iff.mpr hd)).passes rfl
    (.ret ((ends_fixed h false).pass_ret rfl t))

theorem passes_chunked (h : m.body = .chunked cs s hz ts) (hf : m.Fits lim)
    (he : valuesOf m.fields (ascii "Expect") = []) (t : Bytes) :
    Passes lim (inHead m.line m.fields) (crlf ++ (m.body.encode ++ t)) (.request m.request) {} t := by
  have hb := hf.body
  have hn := hf.number
  have hk := hf.block
  have hl := hf.fields
  simp only [h, BodyPart.data, BodyPart.trailers, Message.blockBytes] at hb hn hk hl
  have hm₁ := moves_chunked m.options he (announced_chunked lim h)
  have hm₂ := hm₁.trans (moves_chunks hb fun _ hc => (length_chunk_le hc).trans hn)
  have hm₃ := hm₂.trans (moves_lastChunk hz)
  have hm₄ := hm₃.trans (moves_trailers hl fun ht => by
    rw [if_neg (by simpa using ht)] at hk
    simp only [List.length_append, length_crlf]
    omega)
  have hp := hm₄.passes rfl (.ret ((ends_chunked h false).pass_ret rfl t))
  simp only [h, BodyPart.encode, chunkBytes, List.append_assoc] at hp ⊢
  exact hp

-- The parser undoes `encode`, whatever follows the message.
theorem parse_encode (lim : ParserLimits) (m : Message) (t : Bytes) (hf : m.Fits lim)
    (he : valuesOf m.fields (ascii "Expect") = [])
    (ht : (m.encode ++ t).length ≤ lim.maxRequestBytes) :
    parse lim {} (m.encode ++ t) = (.request m.request, {}, t) := by
  have hh : Moves lim {} (encodeLine m.line.encode ++ encodeFields m.fields) (inHead m.line m.fields) := by
    have hb := hf.block
    have hn := hf.fields
    simp only [Message.blockBytes, List.length_append] at hb hn
    exact (moves_requestLine hf.line).trans (moves_fields (by omega) (by omega))
  have hp : Passes lim (inHead m.line m.fields) (crlf ++ (m.body.encode ++ t)) (.request m.request) {} t := by
    match hm : m.body with
    | .empty              => exact passes_empty hm t
    | .fixed d hd         => exact passes_fixed hm hf he t
    | .chunked cs s hz ts => exact hm ▸ passes_chunked hm hf he t
  refine parse_of_passes ?_ (.zero rfl) (by simpa using ht)
  simpa [Message.encode] using hh.passes rfl hp

def rootLine : RequestLine where
  method  := ascii "GET"
  target  := ascii "/"
  version := .http11
  token   := by decide
  form    := .inr ⟨by decide, by decide, by decide, by decide, no_control_of_all (by decide)⟩

def upload : Message where
  line    := ⟨ascii "POST", ascii "/echo", .http11, by decide,
    .inr ⟨by decide, by decide, by decide, by decide, no_control_of_all (by decide)⟩⟩
  fields  := [⟨ascii "transfer-encoding", ascii " Chunked\t", by decide, by decide⟩]
  body    := .chunked
    [⟨⟨ascii "003", some (ascii "x=1"), by decide, by decide, List.all_eq_true.mp (by decide),
      fun _ he => by cases he; decide⟩, ascii "a\r\n", by decide, by decide⟩]
    ⟨ascii "0", none, by decide, by decide, List.all_eq_true.mp (by decide), nofun⟩ (by decide)
    [⟨ascii "Digest", ascii "", by decide, by decide⟩]
  framed  := ⟨rfl, by decide, ascii "Chunked", by decide, by decide⟩
  options := by unfold OptionsOk; decide

theorem parse_encode_upload :
    parse {} {} (upload.encode ++ ascii "GET") = (.request upload.request, {}, ascii "GET") ∧
    upload.request.body = ascii "a\r\n" :=
  have hf : upload.Fits {} := ⟨by decide, by decide, by decide, by decide, by decide⟩
  ⟨parse_encode {} upload (ascii "GET") hf (by decide) (by decide), by decide⟩

end Http.Parser
