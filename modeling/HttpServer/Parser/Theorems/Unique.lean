import HttpServer.Parser.Theorems.Syntax

open Text

-- Every message is delimited by its own text: two messages that are written the same way, whatever
-- follows them, are the same message.
namespace Http.Grammar

variable {a b x y : Bytes} {l l' : RequestLine} {f f' : FieldLine} {fs fs' : List FieldLine}
variable {s s' : ChunkLine} {c c' : Chunk} {cs cs' : List Chunk} {v : Version}

theorem encodeLine_inj (ha : lf ∉ a) (hb : lf ∉ b) (h : encodeLine a ++ x = encodeLine b ++ y) :
    a = b ∧ x = y := by
  have hn {a : Bytes} (h : lf ∉ a) : lf ∉ a ++ [cr] := by simp [h]; decide
  have h : (a ++ [cr]) ++ lf :: x = (b ++ [cr]) ++ lf :: y := by simpa [encodeLine] using h
  have ⟨hab, hxy⟩ := split_unique (hn ha) (hn hb) h
  exact ⟨List.append_cancel_right hab, hxy⟩

theorem Version.encode_inj {v w : Version} (h : v.encode = w.encode) : v = w := by
  cases v <;> cases w <;> first | rfl | exact absurd h (by decide)

theorem RequestLine.encode_inj (h : l.encode = l'.encode) : l = l' := by
  have hm (l : RequestLine) : sp ∉ l.method := not_mem_token l.token (by decide)
  have ⟨hm, h⟩ := split_unique (hm l) (hm l') h
  have ⟨ht, hv⟩ := split_unique l.target_no_space l'.target_no_space h
  exact RequestLine.ext hm ht (Version.encode_inj hv)

theorem FieldLine.encode_inj (h : f.encode = f'.encode) : f = f' := by
  have hn (f : FieldLine) : ':'.toUInt8 ∉ f.name := not_mem_token f.token (by decide)
  have ⟨hn, ht⟩ := split_unique (hn f) (hn f') h
  exact FieldLine.ext hn ht

theorem ChunkLine.encode_inj (h : s.encode = s'.encode) : s = s' := by
  have hn (s : ChunkLine) : ';'.toUInt8 ∉ s.hex := s.not_mem_hex (by decide)
  simp only [encode] at h
  cases he : s.extension <;> cases he' : s'.extension
  case none.none => exact ChunkLine.ext (by simpa [he, he'] using h) (he.trans he'.symm)
  case some.some =>
    rw [he, he'] at h
    obtain ⟨hh, hx⟩ := split_unique (hn s) (hn s') h
    exact ChunkLine.ext hh (by rw [he, he', hx])
  case none.some =>
    simp only [he, he', List.append_nil] at h
    exact absurd (hn s) (by simp [h])
  case some.none =>
    simp only [he, he', List.append_nil] at h
    exact absurd (hn s') (by simp [← h])

-- The empty line ends a list of fields.
theorem encodeFields_inj (h : encodeFields fs ++ (crlf ++ x) = encodeFields fs' ++ (crlf ++ y)) :
    fs = fs' ∧ x = y := by
  have hc (x : Bytes) : crlf ++ x = encodeLine [] ++ x := rfl
  induction fs generalizing fs' <;> cases fs'
  case nil.nil => exact ⟨rfl, by simpa [encodeFields] using h⟩
  case nil.cons f' _ =>
    simp only [encodeFields, List.flatMap_nil, List.nil_append, List.flatMap_cons, List.append_assoc,
      hc] at h
    have ⟨hf, _⟩ := encodeLine_inj (by simp) f'.no_lf h
    exact absurd hf.symm f'.encode_ne_nil
  case cons.nil f _ _ =>
    simp only [encodeFields, List.flatMap_nil, List.nil_append, List.flatMap_cons, List.append_assoc,
      hc] at h
    have ⟨hf, _⟩ := encodeLine_inj f.no_lf (by simp) h
    exact absurd hf f.encode_ne_nil
  case cons.cons f fs hi f' fs' =>
    simp only [encodeFields, List.flatMap_cons, List.append_assoc] at h
    have ⟨hf, ht⟩ := encodeLine_inj f.no_lf f'.no_lf h
    have ⟨hfs, hx⟩ := hi ht
    exact ⟨by rw [FieldLine.encode_inj hf, hfs], hx⟩

theorem Chunk.size_ne_zero (c : Chunk) : c.line.size ≠ 0 := by
  rw [← c.complete]
  exact Nat.ne_of_gt (List.length_pos_iff.mpr c.nonempty)

theorem Chunk.encode_inj (h : c.encode ++ x = c'.encode ++ y) : c = c' ∧ x = y := by
  simp only [encode, List.append_assoc] at h
  have ⟨hl, h⟩ := encodeLine_inj c.line.no_lf c'.line.no_lf h
  have hl := ChunkLine.encode_inj hl
  have hd : c.data.length = c'.data.length := by rw [c.complete, c'.complete, hl]
  simp only [encodeLine, List.append_assoc] at h
  have ⟨hd, h⟩ := List.append_inj h hd
  refine ⟨?_, List.append_cancel_left h⟩
  cases c; cases c'; simp_all

-- The chunk of size zero ends a list of chunks.
theorem chunks_inj (hz : s.size = 0) (hz' : s'.size = 0)
    (h : cs.flatMap (·.encode) ++ (encodeLine s.encode ++ x) =
      cs'.flatMap (·.encode) ++ (encodeLine s'.encode ++ y)) :
    cs = cs' ∧ s = s' ∧ x = y := by
  induction cs generalizing cs' <;> cases cs'
  case nil.nil =>
    have ⟨hs, hx⟩ := encodeLine_inj s.no_lf s'.no_lf h
    exact ⟨rfl, ChunkLine.encode_inj hs, hx⟩
  case nil.cons c _ =>
    simp only [List.flatMap_nil, List.nil_append, List.flatMap_cons, Chunk.encode,
      List.append_assoc] at h
    have ⟨hl, _⟩ := encodeLine_inj s.no_lf c.line.no_lf h
    exact absurd (ChunkLine.encode_inj hl ▸ hz) c.size_ne_zero
  case cons.nil c _ _ =>
    simp only [List.flatMap_nil, List.nil_append, List.flatMap_cons, Chunk.encode,
      List.append_assoc] at h
    have ⟨hl, _⟩ := encodeLine_inj c.line.no_lf s'.no_lf h
    exact absurd (ChunkLine.encode_inj hl ▸ hz') c.size_ne_zero
  case cons.cons c cs hi c' cs' =>
    simp only [List.flatMap_cons, List.append_assoc] at h
    have ⟨hc, ht⟩ := Chunk.encode_inj h
    have ⟨hcs, hs, hx⟩ := hi ht
    exact ⟨by rw [hc, hcs], hs, hx⟩

theorem decimal_inj {n k : Nat} (h : decimal n = decimal k) : n = k := by
  rw [← decimal_value n, h, decimal_value]

theorem BodyPart.empty_or_fixed {d : Bytes} {hd : d ≠ []} (h : empty.FramedBy v fs)
    (h' : (fixed d hd).FramedBy v fs) : False := by
  have hd : decimal d.length ≠ decimal 0 :=
    fun he => hd (List.length_eq_zero_iff.mp (decimal_inj he))
  match h.2 with
  | .inl hcl => exact absurd (hcl.symm.trans h'.2) (by simp)
  | .inr hcl => exact absurd (h'.2.symm.trans hcl) (by simpa using hd)

theorem BodyPart.plain_or_chunked (h : valuesOf fs (ascii "Transfer-Encoding") = [])
    (h' : (chunked cs s hz ts).FramedBy v fs) : False := by
  have ⟨_, _, te, hte, _⟩ := h'
  exact absurd (h.symm.trans hte) (by simp)

-- The header fields leave only one choice.
theorem BodyPart.encode_inj {b b' : BodyPart} (hf : b.FramedBy v fs) (hf' : b'.FramedBy v fs)
    (h : b.encode ++ x = b'.encode ++ y) : b = b' ∧ x = y := by
  match b, b' with
  | .empty, .empty     => exact ⟨rfl, h⟩
  | .empty, .fixed ..  => exact (empty_or_fixed hf hf').elim
  | .fixed .., .empty  => exact (empty_or_fixed hf' hf).elim
  | .fixed d _, .fixed d' _ =>
    have hl : d.length = d'.length := decimal_inj (by simpa using hf.2.symm.trans hf'.2)
    have ⟨hd, hx⟩ := List.append_inj h hl
    subst hd
    exact ⟨rfl, hx⟩
  | .chunked cs s hz ts, .chunked cs' s' hz' ts' =>
    simp only [encode, List.append_assoc] at h
    have ⟨hc, hs, h⟩ := chunks_inj hz hz' h
    have ⟨ht, hx⟩ := encodeFields_inj h
    subst hc hs ht
    exact ⟨rfl, hx⟩
  | .empty, .chunked ..   => exact (plain_or_chunked hf.1 hf').elim
  | .fixed .., .chunked .. => exact (plain_or_chunked hf.1 hf').elim
  | .chunked .., .empty   => exact (plain_or_chunked hf'.1 hf).elim
  | .chunked .., .fixed .. => exact (plain_or_chunked hf'.1 hf).elim

theorem Message.encode_inj {m m' : Message} (h : m.encode ++ x = m'.encode ++ y) :
    m = m' ∧ x = y := by
  simp only [encode, List.append_assoc] at h
  have ⟨hl, h⟩ := encodeLine_inj m.line.no_lf m'.line.no_lf h
  have ⟨hf, h⟩ := encodeFields_inj h
  have hl := RequestLine.encode_inj hl
  have ⟨hb, hx⟩ := BodyPart.encode_inj m.framed (hl ▸ hf ▸ m'.framed) h
  refine ⟨?_, hx⟩
  cases m; cases m'; simp_all

end Http.Grammar
