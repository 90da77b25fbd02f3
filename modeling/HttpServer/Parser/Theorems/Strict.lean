import HttpServer.Objects.Theorems.Common
import HttpServer.Parser.Strict
import HttpServer.Parser.Theorems.Conservation

open Text Checked

namespace Http.Parser.Strict

variable {fits : Nat → Bool} {m n : Nat} {a b s line : Bytes} {lim : ParserLimits} {p : Parser}

theorem equalsIgnoreCase_eq (hf : ∀ n ≤ m, fits n = true) (hm : b.length ≤ m) :
    equalsIgnoreCase fits a b = some (Http.equalsIgnoreCase a b) := by
  by_cases hl : a.length = b.length
  case neg => simp [equalsIgnoreCase, Http.equalsIgnoreCase, hl]
  case pos =>
    let rest (i : Nat) : Bool :=
      ((a.drop i).zip (b.drop i)).all fun x => tolower x.1 == tolower x.2
    have h : loop (equalsIgnoreCase.body fits a b) (a.length + 1) 0 = some (rest 0) := by
      refine loop_eq (· ≤ a.length) (a.length - ·) rest (fun i hi => ?_) (by simp) (by simp)
      by_cases hn : i < a.length
      case neg =>
        have hr : rest i = true := by simp [rest, List.drop_eq_nil_of_le (Nat.le_of_not_lt hn)]
        exact .inl (by simp [equalsIgnoreCase.body, hn, hr])
      case pos =>
        have hx := get_eq hn
        have hy := get_eq (hl ▸ hn)
        have ha : a.drop i = a[i] :: a.drop (i + 1) := List.drop_eq_getElem_cons hn
        have hb : b.drop i = b[i] :: b.drop (i + 1) := List.drop_eq_getElem_cons (by omega)
        have hr : rest i = (tolower a[i] == tolower b[i] && rest (i + 1)) := by
          simp only [rest, ha, hb, List.zip_cons_cons, List.all_cons]
        by_cases hc : tolower a[i] = tolower b[i]
        case neg =>
          exact .inl (by simp [equalsIgnoreCase.body, hn, hx, hy, hc, hr])
        case pos =>
          refine .inr ⟨i + 1, ?_, by omega, by omega, by simp [hr, hc]⟩
          have ha := add_eq hf (show i + 1 ≤ m by omega)
          simp [equalsIgnoreCase.body, hn, hx, hy, hc, ha]
    rw [equalsIgnoreCase, if_neg (not_not.mpr hl), h]
    simp [Http.equalsIgnoreCase, hl, rest]

-- The first loop counts the leading whitespace.
theorem trimOws_skip (hf : ∀ n ≤ m, fits n = true) (hm : s.length ≤ m) :
    loop (trimOws.skip fits s s.length) (s.length + 1) 0 = some (s.takeWhile isOws).length := by
  let rest (i : Nat) : Nat := i + ((s.drop i).takeWhile isOws).length
  have hr : rest 0 = (s.takeWhile isOws).length := by simp [rest]
  rw [← hr]
  refine loop_eq (· ≤ s.length) (s.length - ·) rest (fun i hi => ?_) (by simp) (by simp)
  by_cases hn : i < s.length
  case neg => exact .inl (by simp [trimOws.skip, hn, rest, List.drop_eq_nil_of_le (Nat.le_of_not_lt hn)])
  case pos =>
    have hx := get_eq hn
    have hd : s.drop i = s[i] :: s.drop (i + 1) := List.drop_eq_getElem_cons hn
    by_cases hc : isOws s[i] = true
    case neg =>
      have hk : rest i = i := by simp only [rest, hd, List.takeWhile_cons_of_neg hc, List.length_nil, Nat.add_zero]
      exact .inl (by simp [trimOws.skip, hn, hx, hc, hk])
    case pos =>
      refine .inr ⟨i + 1, ?_, by omega, by omega, ?_⟩
      · simp [trimOws.skip, hn, hx, hc, add_eq hf (show i + 1 ≤ m by omega)]
      · simp only [rest, hd, List.takeWhile_cons_of_pos hc, List.length_cons]
        omega

-- The second loop takes the trailing whitespace off what the first one left.
theorem trimOws_cut {b : Nat} (hb : b ≤ s.length) :
    loop (trimOws.cut s b) (s.length + 1) s.length =
      some (b + ((s.drop b).rdropWhile isOws).length) := by
  let rest (e : Nat) : Nat := b + (((s.take e).drop b).rdropWhile isOws).length
  have hr : rest s.length = b + ((s.drop b).rdropWhile isOws).length := by simp [rest]
  rw [← hr]
  refine loop_eq (fun e => b ≤ e ∧ e ≤ s.length) id rest (fun e he => ?_) ⟨hb, by simp⟩ (by simp)
  by_cases hn : e > b
  case neg =>
    have he : e = b := by omega
    exact .inl (by simp [trimOws.cut, he, rest])
  case pos =>
    have hl : e - 1 < s.length := by omega
    have hx := get_eq hl
    have hs := sub_eq (show 1 ≤ e by omega)
    have hd : (s.take e).drop b = (s.take (e - 1)).drop b ++ [s[e - 1]] := by
      have ht : s.take e = s.take (e - 1) ++ [s[e - 1]] := by
        rw [List.take_concat_get' s (e - 1) hl, Nat.sub_add_cancel (by omega)]
      rw [ht, List.drop_append_of_le_length (by simp; omega)]
    by_cases hc : isOws s[e - 1] = true
    case neg =>
      refine .inl ?_
      have hk : rest e = e := by
        simp only [rest, hd, List.rdropWhile_concat_neg _ _ _ hc, List.length_append, List.length_drop,
          List.length_take, List.length_singleton]
        omega
      simp [trimOws.cut, hn, hx, hs, hc, hk]
    case pos =>
      refine .inr ⟨e - 1, ?_, by omega, by simp; omega, ?_⟩
      · simp [trimOws.cut, hn, hx, hs, hc]
      · simp only [rest, hd, List.rdropWhile_concat_pos _ _ _ hc]

theorem trimOws_eq (hf : ∀ n ≤ m, fits n = true) (hm : s.length ≤ m) :
    trimOws fits s = some (Http.trimOws s) := by
  have hb : (s.takeWhile isOws).length ≤ s.length := (List.takeWhile_prefix _).length_le
  have hd : s.drop (s.takeWhile isOws).length = s.dropWhile isOws := by
    conv => lhs; arg 2; rw [← List.takeWhile_append_dropWhile (p := isOws) (l := s)]
    exact List.drop_left
  simp only [trimOws, trimOws_skip hf hm, Option.bind_eq_bind, Option.bind_some, trimOws_cut hb, hd,
    sub_eq (Nat.le_add_right ..), substr_eq hb, Nat.add_sub_cancel_left]
  simp only [Text.substr, hd, Http.trimOws, trim]
  rw [← List.prefix_iff_eq_take.mp (List.rdropWhile_prefix ..)]

theorem splitList_eq (hf : ∀ n ≤ m, fits n = true) (hm : s.length ≤ m) :
    splitList fits s = some (Http.splitList s) := by
  let rest (x : Nat × List Bytes) : List Bytes := x.2 ++ Http.splitList (s.drop x.1)
  have hr : rest (0, []) = Http.splitList s := by simp [rest]
  rw [splitList, ← hr]
  refine loop_eq (·.1 ≤ s.length) (s.length - ·.1) rest (fun (pos, out) hp => ?_) (by simp)
    (by simp)
  cases hc : find s ','.toUInt8 pos
  case none =>
    have hn := find_none_iff.mp hc
    have ht : trimOws fits (s.drop pos) = _ := trimOws_eq hf (by simp; omega)
    refine .inl ?_
    simp [splitList.body, hc, substrFrom_eq hp, ht, rest, Http.splitList, split_of_not_mem hn]
  case some comma =>
    obtain ⟨t, r, hs, hn, hi⟩ := find_some_iff.mp hc
    have hl := congrArg List.length hs
    simp only [List.length_drop, List.length_append, List.length_cons] at hl
    have hd : s.drop (comma + 1) = r := by
      rw [hi, Nat.add_assoc, ← List.drop_drop, hs]
      simp
    have hq : Text.substr s pos (comma - pos) = t := by simp [Text.substr, hs, hi]
    have ht : trimOws fits t = _ := trimOws_eq hf (by omega)
    refine .inr ⟨(comma + 1, out ++ [Http.trimOws t]), ?_, by simp; omega, by simp; omega, ?_⟩
    · simp [splitList.body, hc, sub_eq (show pos ≤ comma by omega), substr_eq hp, hq, ht,
        add_eq hf (show comma + 1 ≤ m by omega)]
    · simp [rest, hd, hs, Http.splitList, split_append hn]

theorem header_eq (hf : ∀ n ≤ m, fits n = true) (hm : a.length ≤ m) (r : Request) :
    header fits a r.headers = some (r.header a) := by
  simp only [Request.header]
  induction r.headers
  case nil => rfl
  case cons h hs hi =>
    simp only [header, equalsIgnoreCase_eq hf hm, Option.bind_eq_bind, Option.bind_some, List.find?_cons]
    cases Http.equalsIgnoreCase h.name a
    case true  => simp
    case false => simpa using hi

theorem headerAll_eq (hf : ∀ n ≤ m, fits n = true) (hm : a.length ≤ m) (r : Request) :
    headerAll fits a r.headers = some (r.headerAll a) := by
  simp only [Request.headerAll]
  induction r.headers
  case nil => rfl
  case cons h hs hi =>
    simp only [headerAll, equalsIgnoreCase_eq hf hm, Option.bind_eq_bind, Option.bind_some, hi]
    cases hc : Http.equalsIgnoreCase h.name a <;> simp [hc]

theorem parseDigits_eq (hf : ∀ n ≤ m, fits n = true) (hm : 2 ^ 57 ≤ m) (hv : n ≤ 2 ^ 52) :
    parseDigits fits n s = some (Http.parseDigits n s) := by
  induction s generalizing n
  case nil => rfl
  case cons c cs hi =>
    have hd : (c - '0'.toUInt8).toNat < 256 := UInt8.toNat_lt _
    have hu := mul_eq hf (show n * 10 ≤ m by omega)
    have ha := add_eq hf (show n * 10 + (c - '0'.toUInt8).toNat ≤ m by omega)
    simp only [parseDigits, Http.parseDigits]
    split
    · rfl
    · simp only [hu, ha, Option.bind_eq_bind, Option.bind_some]
      split
      case isTrue     => rfl
      case isFalse hn => exact hi (by omega)

theorem parseContentLength_eq (hf : ∀ n ≤ m, fits n = true) (hm : 2 ^ 57 ≤ m) :
    parseContentLength fits s = some (Http.parseContentLength s) := by
  have hp := parseDigits_eq (s := s) hf hm (Nat.zero_le _)
  simp only [parseContentLength, Http.parseContentLength]
  split
  · rfl
  · by_cases hl : s.length > 1
    case neg => simp [hl, hp]
    case pos =>
      have hg := get_eq (show 0 < s.length by omega)
      have hh : s.head? = some s[0] := List.head?_eq_getElem? (l := s) ▸ hg
      simp only [hl, ↓reduceIte, hg, hh, hp, Option.map_eq_map, Option.map_some, Option.bind_eq_bind,
        Option.bind_some]
      split <;> simp_all

theorem hexDigit_lt : ∀ c, ∀ d ∈ hexDigit c, d < 16 :=
  forall_byte (by decide +kernel)

theorem parseHex_eq (hf : ∀ n ≤ m, fits n = true) (hm : 2 ^ 57 ≤ m) (hv : n ≤ 2 ^ 52) :
    parseHex fits n s = some (Parser.parseHex n s) := by
  induction s generalizing n
  case nil => rfl
  case cons c cs hi =>
    simp only [parseHex, Parser.parseHex]
    cases hd : hexDigit c
    case none   => rfl
    case some d =>
      have hd := hexDigit_lt c d hd
      have hu := mul_eq hf (show n * 16 ≤ m by omega)
      have ha := add_eq hf (show n * 16 + d ≤ m by omega)
      simp only [hu, ha, Option.bind_eq_bind, Option.bind_some]
      split
      case isTrue     => rfl
      case isFalse hn => exact hi (by omega)

theorem chunkHex_eq (line : Bytes) : chunkHex line = some (Parser.chunkHex line) := by
  cases h : find line ';'.toUInt8 0
  case none => simp only [chunkHex, Parser.chunkHex, h]
  case some => simp only [chunkHex, Parser.chunkHex, h, substr_eq (Nat.zero_le _)]

theorem parseHex_le {r : Nat} (hv : n ≤ 2 ^ 52) (h : Parser.parseHex n s = .ok r) : r ≤ 2 ^ 52 := by
  induction s generalizing n
  case nil => cases h; exact hv
  case cons c cs hi =>
    simp only [Parser.parseHex] at h
    split at h
    · cases h
    · split at h
      · cases h
      case isFalse hm => exact hi (by omega) h

theorem parseChunkSize_le {r : Nat} (h : Parser.parseChunkSize line = .ok r) : r ≤ 2 ^ 52 := by
  simp only [Parser.parseChunkSize] at h
  split at h
  · cases h
  · exact parseHex_le (Nat.zero_le _) h

theorem parseChunkSize_eq (hf : ∀ n ≤ m, fits n = true) (hm : 2 ^ 57 ≤ m) :
    parseChunkSize fits line = some (Parser.parseChunkSize line) := by
  have hx : parseHex fits 0 _ = _ := parseHex_eq (s := Parser.chunkHex line) hf hm (Nat.zero_le _)
  simp only [parseChunkSize, Parser.parseChunkSize, chunkHex_eq, Option.bind_eq_bind,
    Option.bind_some, hx]
  split <;> rfl

theorem lineReady_eq (hf : ∀ n ≤ m, fits n = true) (buf : ByteBuf) (hm : buf.size ≤ m) :
    lineReady fits p buf = some (Parser.lineReady p buf.view) := by
  let rest (i : Nat) : Line × Nat := Parser.lineReady { scan := i } buf.view
  have hr : rest (min p.scan buf.size) = Parser.lineReady p buf.view := by
    simp [rest, Parser.lineReady]
  have hs : (if p.scan < buf.size then p.scan else buf.size) = min p.scan buf.size := by
    split <;> omega
  rw [lineReady, hs, ← hr]
  refine loop_eq (· ≤ buf.size) (buf.size - ·) rest (fun i hi => ?_) (Nat.min_le_right ..)
    (by omega)
  have hi' : min i buf.view.length = i := by
    rw [ByteBuf.length_view]
    exact Nat.min_eq_left hi
  by_cases hn : i < buf.size
  case neg =>
    have hd : find buf.view lf i = none := by
      refine find_none_iff.mpr ?_
      rw [List.drop_eq_nil_of_le (by simp; omega)]
      exact List.not_mem_nil
    refine .inl ?_
    simp only [lineReady.body, hn, rest, Parser.lineReady, hi', hd]
    simp
  case pos =>
    have hl : i < buf.view.length := by simpa using hn
    have hg : buf.at? i = some buf.view[i] :=
      (ByteBuf.at?_eq buf i).trans (List.getElem?_eq_getElem hl)
    by_cases hc : buf.view[i] = lf
    case neg =>
      refine .inr ⟨i + 1, ?_, by omega, by omega, ?_⟩
      · simp [lineReady.body, hn, hg, hc, add_eq hf (show i + 1 ≤ m by omega)]
      · have hi'' : min (i + 1) buf.view.length = i + 1 := by omega
        simp only [rest, Parser.lineReady, hi', hi'', find_next hl hc]
    case pos =>
      refine .inl ?_
      simp only [rest, Parser.lineReady, hi', find_here hl hc]
      cases i
      case zero   => simp [lineReady.body, hn, hg, hc]
      case succ i =>
        have hl' : i < buf.view.length := by omega
        have hv : buf.view[i]? = some buf.view[i] := List.getElem?_eq_getElem hl'
        have hg' : buf.at? i = some buf.view[i] := (ByteBuf.at?_eq buf i).trans hv
        have hs : sub (i + 1) 1 = some i := sub_eq (by omega)
        have ha := add_eq hf (show i + 1 + 1 ≤ m by omega)
        by_cases hx : buf.view[i] = cr <;>
          simp [lineReady.body, hn, hg, hc, hs, hg', hx, ha, hv]

theorem parseRequestFields_eq (lim : ParserLimits) (m t v : Bytes) (out : Request) :
    parseRequestFields lim m t v out = some (Parser.parseRequestFields lim m t v out) := by
  rw [parseRequestFields, Parser.parseRequestFields]
  by_cases hn : (m.isEmpty || t.isEmpty || v.isEmpty) = true
  case pos => rw [if_pos hn, if_pos hn]
  rw [if_neg hn, if_neg hn]
  simp only [Bool.or_eq_true, List.isEmpty_iff, not_or] at hn
  by_cases hm : (!validToken m) = true
  case pos => rw [if_pos hm, if_pos hm]
  rw [if_neg hm, if_neg hm]
  by_cases hv : (v ≠ ascii "HTTP/1.0" && v ≠ ascii "HTTP/1.1") = true
  case pos => rw [if_pos hv, if_pos hv]
  rw [if_neg hv, if_neg hv]
  have hb : back v = some (v.getLast hn.2) := List.getLast?_eq_some_getLast hn.2
  have hl : v.getLast? = some (v.getLast hn.2) := hb
  have hf : front t = some (t.head hn.1.2) := List.head?_eq_some_head hn.1.2
  have hh : t.head? = some (t.head hn.1.2) := hf
  simp only [hb, hl, hf, hh, Option.bind_eq_bind, Option.bind_some, ne_eq, Option.some.injEq]
  by_cases ht : t.length > 1
  case neg =>
    simp only [ht, ↓reduceIte, decide_false, Bool.false_and, apply_ite some]
  case pos =>
    have hg := get_eq ht
    have ht' : t[1]? = some t[1] := hg
    simp only [ht, ↓reduceIte, hg, ht', Option.map_eq_map, Option.map_some, Option.bind_some,
      decide_true, Bool.true_and, Option.some_beq_some, apply_ite some]

theorem parseRequestLine_eq (hf : ∀ n ≤ m, fits n = true) (hm : line.length ≤ m) (out : Request) :
    parseRequestLine fits lim line out = some (Parser.parseRequestLine lim line out) := by
  simp only [parseRequestLine, Parser.parseRequestLine]
  split
  · rfl
  split
  · rfl
  cases h₁ : find line sp 0
  case none => rfl
  case some sp1 =>
    have hl₁ := find_some_lt h₁
    simp only [add_eq hf (show sp1 + 1 ≤ m by omega), Option.bind_eq_bind, Option.bind_some]
    cases h₂ : find line sp (sp1 + 1)
    case none => rfl
    case some sp2 =>
      have hl₂ := find_some_lt h₂
      have hle := find_some_le h₂
      simp only [add_eq hf (show sp2 + 1 ≤ m by omega), Option.bind_some]
      split
      · rfl
      · simp only [substr_eq (Nat.zero_le _), sub_eq (show sp1 ≤ sp2 by omega), Option.bind_some,
          sub_eq (show 1 ≤ sp2 - sp1 by omega), substr_eq (show sp1 + 1 ≤ line.length by omega),
          substrFrom_eq (show sp2 + 1 ≤ line.length by omega), parseRequestFields_eq]

theorem parseHeaderLine_eq (hf : ∀ n ≤ m, fits n = true) (hm : line.length ≤ m) (hn : line ≠ [])
    (out : Request) :
    parseHeaderLine fits lim line out = some (Parser.parseHeaderLine lim line out) := by
  obtain ⟨c, cs, rfl⟩ := List.exists_cons_of_ne_nil hn
  have hc : front (c :: cs) = some c := rfl
  simp only [parseHeaderLine, Parser.parseHeaderLine, hc, List.head?_cons, Option.bind_eq_bind,
    Option.bind_some, Option.some.injEq]
  split
  · rfl
  cases h : find (c :: cs) ':'.toUInt8 0
  case none => rfl
  case some colon =>
    have hl := find_some_lt h
    have ht : trimOws fits ((c :: cs).drop (colon + 1)) = _ := trimOws_eq hf (by simp at hm ⊢; omega)
    simp only [substr_eq (Nat.zero_le _), add_eq hf (show colon + 1 ≤ m by omega), ht,
      substrFrom_eq (show colon + 1 ≤ (c :: cs).length by omega), Option.bind_some]
    repeat' split
    all_goals rfl

-- Enough numbers fit for what the parser computes from its state and `n` bytes of input.
structure Room (m : Nat) (p : Parser) (n : Nat) : Prop where
  consumed : p.consumed + n ≤ m
  header   : p.headerBytes + n ≤ m
  body     : p.body.length + n + 2 ^ 52 ≤ m
  digits   : 2 ^ 57 ≤ m
  values   : ∀ h ∈ p.cur.headers, h.value.length ≤ m

theorem optionTokens_eq (hf : ∀ n ≤ m, fits n = true) {values : List Bytes}
    (hm : ∀ v ∈ values, v.length ≤ m) :
    optionTokens fits values = some (values.flatMap Http.splitList) := by
  induction values
  case nil => rfl
  case cons v vs hi =>
    have hs := splitList_eq hf (hm v (by simp))
    simp [optionTokens, hs, hi fun v hv => hm v (List.mem_cons_of_mem _ hv)]

variable {cur : Request}

theorem headerAll_le (hm : ∀ h ∈ cur.headers, h.value.length ≤ m) (name : Bytes) :
    ∀ v ∈ cur.headerAll name, v.length ≤ m := by
  intro v hv
  simp only [Request.headerAll, List.mem_map, List.mem_filter] at hv
  obtain ⟨h, ⟨hh, _⟩, rfl⟩ := hv
  exact hm h hh

theorem useChunked_eq (hf : ∀ n ≤ m, fits n = true) (hd : 2 ^ 57 ≤ m)
    (hm : ∀ h ∈ cur.headers, h.value.length ≤ m) :
    useChunked fits cur = some (Parser.useChunked cur) := by
  have hv := headerAll_le hm (ascii "Transfer-Encoding")
  rw [useChunked, Parser.useChunked, headerAll_eq hf (Nat.le_trans (by decide) hd)]
  match h : cur.headerAll (ascii "Transfer-Encoding") with
  | [] => rfl
  | te :: more =>
    have hs := splitList_eq hf (hv te (by simp [h]))
    have hg : Checked.get (te :: more) 0 = some te := rfl
    simp only [Option.bind_eq_bind, Option.bind_some, hg, hs, List.isEmpty_cons, Bool.false_eq_true,
      ↓reduceIte, List.length_cons]
    split
    · rfl
    by_cases hn : more = []
    case neg => simp [hn]
    case pos =>
      match ht : Http.splitList te with
      | [] => simp [hn]
      | [t] =>
        have he := equalsIgnoreCase_eq (a := t) (b := ascii "chunked") hf (Nat.le_trans (by decide) hd)
        simp [hn, Checked.get, he, apply_ite some]
      | _ :: _ :: _ => simp [hn]

theorem framing_eq (hf : ∀ n ≤ m, fits n = true) (hd : 2 ^ 57 ≤ m)
    (hm : ∀ h ∈ cur.headers, h.value.length ≤ m) :
    framing fits lim cur = some (Parser.framing lim cur) := by
  have hv := headerAll_le hm (ascii "Content-Length")
  rw [framing, Parser.framing, headerAll_eq hf (Nat.le_trans (by decide) hd), useChunked_eq hf hd hm]
  simp only [Option.bind_eq_bind, Option.bind_some]
  cases Parser.useChunked cur
  case error => rfl
  case ok chunked =>
    rcases h : cur.headerAll (ascii "Content-Length") with _ | ⟨cl, more⟩
    · rfl
    · have hs := splitList_eq hf (hv cl (by simp [h]))
      have hg : Checked.get (cl :: more) 0 = some cl := rfl
      simp only [hg, hs, List.isEmpty_cons, Bool.false_eq_true, ↓reduceIte, List.length_cons,
        Option.bind_some]
      split
      · rfl
      by_cases hn : more = []
      case neg => simp [hn, List.length_pos_iff.mpr hn]
      case pos =>
        rcases ht : Http.splitList cl with _ | ⟨v, _ | ⟨_, _⟩⟩
        · simp [hn]
        · have hp := parseContentLength_eq (s := v) hf hd
          have hg : Checked.get [v] 0 = some v := rfl
          cases hc : Http.parseContentLength v <;> simp [hn, hg, hp, hc, apply_ite some]
        · simp [hn]

theorem finishExpect_eq (hf : ∀ n ≤ m, fits n = true) (hd : 2 ^ 57 ≤ m)
    (hm : ∀ h ∈ p.cur.headers, h.value.length ≤ m) :
    finishExpect fits p = some (Parser.finishExpect p) := by
  have hl : (p.cur.header (ascii "Expect")).length ≤ m := by
    simp only [Request.header]
    split
    case h_1 h => exact hm _ (List.mem_of_find?_eq_some h)
    case h_2   => exact Nat.zero_le _
  have he := equalsIgnoreCase_eq (a := Http.trimOws (p.cur.header (ascii "Expect")))
    (b := ascii "100-continue") hf (Nat.le_trans (by decide) hd)
  rw [finishExpect, Parser.finishExpect, header_eq hf (Nat.le_trans (by decide) hd)]
  simp only [Option.bind_eq_bind, Option.bind_some, trimOws_eq hf hl, he]
  repeat' split
  all_goals rfl

theorem finishHeaders_eq (hf : ∀ n ≤ m, fits n = true) (hd : 2 ^ 57 ≤ m)
    (hm : ∀ h ∈ p.cur.headers, h.value.length ≤ m) :
    finishHeaders fits lim p = some (Parser.finishHeaders lim p) := by
  have hv := headerAll_le hm (ascii "Connection")
  have hc := headerAll_eq (a := ascii "Connection") hf (Nat.le_trans (by decide) hd) p.cur
  rw [finishHeaders, Parser.finishHeaders]
  simp only [hc, optionTokens_eq hf hv, Option.bind_eq_bind, Option.bind_some]
  rcases connectionTokens false false ((p.cur.headerAll (ascii "Connection")).flatMap Http.splitList)
    with _ | ⟨close, ka⟩
  · rfl
  · dsimp only
    rw [framing_eq hf hd (by exact hm)]
    simp only [Option.bind_some]
    generalize Parser.framing lim _ = fr
    rcases fr with ⟨_, _⟩ | _ | n | _
    · rfl
    · exact finishExpect_eq hf hd hm
    · by_cases hn : n > 0
      case neg => simp only [if_neg hn]
      case pos =>
        simp only [if_pos hn]
        exact finishExpect_eq hf hd hm
    · rfl

variable {buf : ByteBuf}

-- What a pass in memory says about the bytes that are left to read.
def Refines (x : Option Pass) (y : Parser.Pass) : Prop :=
  ∃ s, x = some s ∧ s.view = y

-- What a pass does with a complete line.
theorem line_consume {scan : Nat} (h : Parser.lineReady p buf.view = (.ready n, scan)) :
    n + 2 ≤ buf.size ∧ ∃ buf', buf.consume (n + 2) = some buf' ∧ buf'.view = buf.view.drop (n + 2) := by
  have hn := lineReady_le h
  rw [ByteBuf.length_view] at hn
  exact ⟨hn, ByteBuf.consume_eq hn⟩

theorem parseHeaderLine_take (hf : ∀ n ≤ m, fits n = true) (hr : Room m p buf.size)
    (hn : n + 2 ≤ buf.size) (hz : ¬(n == 0) = true) :
    parseHeaderLine fits lim (buf.view.take n) p.cur =
      some (Parser.parseHeaderLine lim (buf.view.take n) p.cur) := by
  have hc := hr.consumed
  have hz : n ≠ 0 := by simpa using hz
  have hl : buf.view.take n ≠ [] := by
    rw [← List.length_pos_iff]
    simp
    omega
  exact parseHeaderLine_eq hf (by simp; omega) hl p.cur

theorem passRequestLine_refines (hf : ∀ n ≤ m, fits n = true) (hr : Room m p buf.size) :
    Refines (passRequestLine fits lim p buf) (Parser.passRequestLine lim p buf.view) := by
  have hc := hr.consumed
  rw [passRequestLine, Parser.passRequestLine, lineReady_eq hf buf (by omega)]
  simp only [Option.bind_eq_bind, Option.bind_some]
  rcases h : Parser.lineReady p buf.view with ⟨_ | _ | n, scan⟩
  · rw [ByteBuf.length_view]
    dsimp only
    split <;> exact ⟨_, rfl, rfl⟩
  · exact ⟨_, rfl, rfl⟩
  · obtain ⟨hn, buf', hb, hv⟩ := line_consume h
    simp only [ByteBuf.front?_eq (show n ≤ buf.size by omega), Option.bind_some]
    split
    · exact ⟨_, rfl, rfl⟩
    · have hl : parseRequestLine fits lim (buf.view.take n) p.cur = _ :=
        parseRequestLine_eq hf (by simp; omega) p.cur
      simp only [hl, Option.bind_some, add_eq hf (show n + 2 ≤ m by omega), hb, ← hv,
        add_eq hf (show p.consumed + (n + 2) ≤ m by omega)]
      generalize Parser.parseRequestLine lim _ _ = r
      rcases r with ⟨⟨_, _⟩ | _, _⟩ <;> exact ⟨_, rfl, rfl⟩

theorem passHeaders_refines (hf : ∀ n ≤ m, fits n = true) (hr : Room m p buf.size) :
    Refines (passHeaders fits lim p buf) (Parser.passHeaders lim p buf.view) := by
  have hc := hr.consumed
  have hh := hr.header
  rw [passHeaders, Parser.passHeaders, lineReady_eq hf buf (by omega)]
  simp only [Option.bind_eq_bind, Option.bind_some]
  rcases h : Parser.lineReady p buf.view with ⟨_ | _ | n, scan⟩
  · simp only [add_eq hf hh, Option.bind_some, ByteBuf.length_view]
    split <;> exact ⟨_, rfl, rfl⟩
  · exact ⟨_, rfl, rfl⟩
  · obtain ⟨hn, buf', hb, hv⟩ := line_consume h
    simp only [add_eq hf (show n + 2 ≤ m by omega), Option.bind_some, hb, ← hv,
      add_eq hf (show p.consumed + (n + 2) ≤ m by omega),
      add_eq hf (show p.headerBytes + (n + 2) ≤ m by omega)]
    split
    · rw [finishHeaders_eq hf hr.digits (by exact hr.values)]
      simp only [Option.bind_some]
      generalize Parser.finishHeaders lim _ = r
      rcases r with ⟨_ | _ | _ | _, _⟩ <;> exact ⟨_, rfl, rfl⟩
    case isFalse hz =>
      have hp : parseHeaderLine fits lim (buf.view.take n) p.cur = _ :=
        parseHeaderLine_take hf hr hn hz
      simp only [ByteBuf.front?_eq (show n ≤ buf.size by omega), Option.bind_some, hp]
      generalize Parser.parseHeaderLine lim _ _ = r
      rcases r with ⟨_, _⟩ | _
      · exact ⟨_, rfl, rfl⟩
      · dsimp only
        split <;> exact ⟨_, rfl, rfl⟩

theorem passBodyFixed_refines (hf : ∀ n ≤ m, fits n = true) (hr : Room m p buf.size) :
    Refines (passBodyFixed fits p buf) (Parser.passBodyFixed p buf.view) := by
  have hc := hr.consumed
  rw [passBodyFixed, Parser.passBodyFixed]
  simp only [ByteBuf.length_view]
  by_cases ht : min p.bodyRemaining buf.size > 0
  case neg =>
    have ht : min p.bodyRemaining buf.size = 0 := by omega
    simp only [ht, Nat.lt_irrefl, ↓reduceIte, List.drop_zero]
    split <;> exact ⟨_, rfl, rfl⟩
  case pos =>
    have hl : min p.bodyRemaining buf.size ≤ buf.size := Nat.min_le_right ..
    obtain ⟨buf', hb, hv⟩ := ByteBuf.consume_eq hl
    simp only [ht, ↓reduceIte, ByteBuf.front?_eq hl, hb, ← hv, Option.bind_eq_bind, Option.bind_some,
      add_eq hf (show p.consumed + min p.bodyRemaining buf.size ≤ m by omega),
      sub_eq (Nat.min_le_left ..)]
    split <;> exact ⟨_, rfl, rfl⟩

theorem passChunkCrlf_refines (hf : ∀ n ≤ m, fits n = true) (hr : Room m p buf.size)
    (he : p.expectChunkCrlf = true) :
    Refines (passChunkCrlf fits p buf) (Parser.passBodyChunked lim p buf.view) := by
  have hc := hr.consumed
  rw [passChunkCrlf, Parser.passBodyChunked, if_pos he, lineReady_eq hf buf (by omega)]
  simp only [Option.bind_eq_bind, Option.bind_some]
  rcases h : Parser.lineReady p buf.view with ⟨_ | _ | n, scan⟩
  · exact ⟨_, rfl, rfl⟩
  · exact ⟨_, rfl, rfl⟩
  · have hn := (line_consume h).1
    obtain ⟨buf', hb, hv⟩ := ByteBuf.consume_eq (show 2 ≤ buf.size by omega)
    simp only [hb, ← hv, Option.bind_some, add_eq hf (show p.consumed + 2 ≤ m by omega)]
    split <;> exact ⟨_, rfl, rfl⟩

theorem passChunkData_refines (hf : ∀ n ≤ m, fits n = true) (hr : Room m p buf.size)
    (he : ¬p.expectChunkCrlf = true) (hz : p.chunkRemaining > 0) :
    Refines (passChunkData fits lim p buf) (Parser.passBodyChunked lim p buf.view) := by
  have hc := hr.consumed
  have hd := hr.body
  rw [passChunkData, Parser.passBodyChunked, if_neg he, if_pos hz]
  have hl : min p.chunkRemaining buf.size ≤ buf.size := Nat.min_le_right ..
  obtain ⟨buf', hb, hv⟩ := ByteBuf.consume_eq hl
  simp only [ByteBuf.length_view, ByteBuf.front?_eq hl, hb, ← hv, Option.bind_eq_bind, Option.bind_some,
    add_eq hf (show p.consumed + min p.chunkRemaining buf.size ≤ m by omega),
    add_eq hf (show p.body.length + min p.chunkRemaining buf.size ≤ m by omega),
    sub_eq (Nat.min_le_left ..)]
  split
  · exact ⟨_, rfl, rfl⟩
  · split <;> exact ⟨_, rfl, rfl⟩

theorem passChunkSize_refines (hf : ∀ n ≤ m, fits n = true) (hr : Room m p buf.size)
    (he : ¬p.expectChunkCrlf = true) (hz : ¬p.chunkRemaining > 0) :
    Refines (passChunkSize fits lim p buf) (Parser.passBodyChunked lim p buf.view) := by
  have hc := hr.consumed
  have hd := hr.body
  rw [passChunkSize, Parser.passBodyChunked, if_neg he, if_neg hz, lineReady_eq hf buf (by omega)]
  simp only [Option.bind_eq_bind, Option.bind_some]
  rcases h : Parser.lineReady p buf.view with ⟨_ | _ | n, scan⟩
  · simp only [ByteBuf.length_view]
    split <;> exact ⟨_, rfl, rfl⟩
  · exact ⟨_, rfl, rfl⟩
  · obtain ⟨hn, buf', hb, hv⟩ := line_consume h
    simp only [ByteBuf.front?_eq (show n ≤ buf.size by omega), Option.bind_some,
      parseChunkSize_eq hf hr.digits, add_eq hf (show n + 2 ≤ m by omega), hb, ← hv,
      add_eq hf (show p.consumed + (n + 2) ≤ m by omega)]
    rcases hs : Parser.parseChunkSize (buf.view.take n) with _ | size
    · exact ⟨_, rfl, rfl⟩
    · have hs : size ≤ 2 ^ 52 := parseChunkSize_le hs
      simp only [add_eq hf (show p.body.length + size ≤ m by omega), Option.bind_some]
      split
      · exact ⟨_, rfl, rfl⟩
      · split <;> exact ⟨_, rfl, rfl⟩

theorem passBodyChunked_refines (hf : ∀ n ≤ m, fits n = true) (hr : Room m p buf.size) :
    Refines (passBodyChunked fits lim p buf) (Parser.passBodyChunked lim p buf.view) := by
  rw [passBodyChunked]
  split
  case isTrue he => exact passChunkCrlf_refines hf hr he
  case isFalse he =>
    split
    case isTrue hz  => exact passChunkData_refines hf hr he hz
    case isFalse hz => exact passChunkSize_refines hf hr he hz

theorem passChunkTrailer_refines (hf : ∀ n ≤ m, fits n = true) (hr : Room m p buf.size) :
    Refines (passChunkTrailer fits lim p buf) (Parser.passChunkTrailer lim p buf.view) := by
  have hc := hr.consumed
  have hh := hr.header
  rw [passChunkTrailer, Parser.passChunkTrailer, lineReady_eq hf buf (by omega)]
  simp only [Option.bind_eq_bind, Option.bind_some]
  rcases h : Parser.lineReady p buf.view with ⟨_ | _ | n, scan⟩
  · simp only [add_eq hf hh, Option.bind_some, ByteBuf.length_view]
    split <;> exact ⟨_, rfl, rfl⟩
  · exact ⟨_, rfl, rfl⟩
  · obtain ⟨hn, buf', hb, hv⟩ := line_consume h
    simp only [add_eq hf (show n + 2 ≤ m by omega), Option.bind_some, hb, ← hv,
      add_eq hf (show p.consumed + (n + 2) ≤ m by omega),
      add_eq hf (show p.headerBytes + (n + 2) ≤ m by omega)]
    split
    · exact ⟨_, rfl, rfl⟩
    case isFalse hz =>
      have hp : parseHeaderLine fits lim (buf.view.take n) p.cur = _ :=
        parseHeaderLine_take hf hr hn hz
      simp only [ByteBuf.front?_eq (show n ≤ buf.size by omega), Option.bind_some, hp]
      generalize Parser.parseHeaderLine lim _ _ = r
      rcases r with ⟨_, _⟩ | _
      · exact ⟨_, rfl, rfl⟩
      · dsimp only
        split <;> exact ⟨_, rfl, rfl⟩

theorem pass_refines (lim : ParserLimits) (hf : ∀ n ≤ m, fits n = true) (hr : Room m p buf.size) :
    Refines (pass fits lim p buf) (Parser.pass lim p buf.view) := by
  cases hp : p.state <;> simp only [pass, Parser.pass, hp]
  case requestLine  => exact passRequestLine_refines hf hr
  case headers      => exact passHeaders_refines hf hr
  case bodyFixed    => exact passBodyFixed_refines hf hr
  case bodyChunked  => exact passBodyChunked_refines hf hr
  case chunkTrailer => exact passChunkTrailer_refines hf hr

variable {q : Parser} {b c : Bytes}

theorem Room.takes (hr : Room m p b.length) (h : Takes p b n q) : Room m q (b.drop n).length where
  consumed := by have := hr.consumed; have := h.consumed; have := h.le; simp; omega
  header   := by have := hr.header; have := h.header; have := h.le; simp; omega
  body     := by have := hr.body; have := h.body; have := h.le; simp; omega
  digits   := hr.digits
  values x hx := by
    match h.values x hx with
    | .inl hx => exact hr.values x hx
    | .inr hl => have := hr.consumed; omega

-- The number of passes that are allowed does not matter.
theorem parseLoop_enough {o : Bool} {k k' : Nat} (hk : b.length < k) (hk' : b.length < k') :
    parseLoop lim k o p b = parseLoop lim k' o p b := by
  induction k generalizing k' o p b
  case zero => omega
  case succ k hi =>
    obtain ⟨k', rfl⟩ := Nat.exists_eq_succ_of_ne_zero (Nat.ne_of_gt (Nat.zero_lt_of_lt hk'))
    simp only [parseLoop]
    split
    · rfl
    · have hs : (Parser.pass lim p b).Spends p b := pass_spends lim p b
      rcases hp : Parser.pass lim p b with _ | ⟨_, q, c⟩
      · rfl
      · rw [hp] at hs
        obtain ⟨n, rfl, ht, hn⟩ := hs
        have hl := ht.le
        exact hi (by simp; omega) (by simp; omega)

def Pass.next : Pass → (Bool × Parser × ByteBuf) ⊕ (ParseStatus × Parser × ByteBuf)
  | ret st p buf => .inr (st, p, buf)
  | loop o p buf => .inl (o, p, buf)

theorem parse_body_over {o : Bool} (hf : ∀ n ≤ m, fits n = true) (hr : Room m p buf.size)
    (ho : (o && p.consumed + buf.size > lim.maxRequestBytes) = true) :
    parse.body fits lim (o, p, buf) =
      some (.inr (.tooLarge "request exceeds the configured limit", p, buf)) := by
  have ⟨h₁, h₂⟩ : o = true ∧ p.consumed + buf.size > lim.maxRequestBytes := by simpa using ho
  simp [parse.body, h₁, add_eq hf hr.consumed, h₂]

theorem parse_body_pass {o : Bool} {x : Pass} (hf : ∀ n ≤ m, fits n = true) (hr : Room m p buf.size)
    (ho : ¬(o && p.consumed + buf.size > lim.maxRequestBytes) = true)
    (hx : pass fits lim p buf = some x) : parse.body fits lim (o, p, buf) = some x.next := by
  cases o
  case false => cases x <;> simp [parse.body, hx, Pass.next]
  case true  =>
    have ho : p.consumed + buf.size ≤ lim.maxRequestBytes := by simpa using ho
    cases x <;> simp [parse.body, hx, Pass.next, add_eq hf hr.consumed, Nat.not_lt_of_le ho]

-- Every access is in bounds, no result of a computation fails to fit, and the loops end: the call
-- does just what it does when all this is taken for granted.
theorem parse_refines (lim : ParserLimits) (hf : ∀ n ≤ m, fits n = true) (hr : Room m p buf.size) :
    ∃ r, parse fits lim p buf = some r ∧
      Parser.parse lim p buf.view = (r.1, r.2.1, r.2.2.view) := by
  let post (s : Bool × Parser × ByteBuf) (r : ParseStatus × Parser × ByteBuf) : Prop :=
    parseLoop lim (s.2.2.view.length + 1) s.1 s.2.1 s.2.2.view = (r.1, r.2.1, r.2.2.view)
  refine Checked.loop_spec (fun s => Room m s.2.1 s.2.2.size) (·.2.2.size) post (fun s hr => ?_) hr
    (Nat.lt_succ_self _)
  obtain ⟨o, p, buf⟩ := s
  by_cases ho : (o && p.consumed + buf.size > lim.maxRequestBytes) = true
  case pos =>
    refine .inl ⟨_, parse_body_over hf hr ho, ?_⟩
    simp only [post, parseLoop, ByteBuf.length_view, ho, ↓reduceIte]
  case neg =>
    obtain ⟨x, hx, hv⟩ := pass_refines lim hf hr
    have ho : (o && p.consumed + buf.view.length > lim.maxRequestBytes) = false := by simpa using ho
    rw [parse_body_pass hf hr (by simpa using ho) hx]
    rcases x with ⟨st, q, buf'⟩ | ⟨o', q, buf'⟩
    case ret  => exact .inl ⟨_, rfl, by simp only [post, parseLoop, ho, ← hv]; rfl⟩
    case loop =>
      have hs : (Parser.pass lim p buf.view).Spends p buf.view := pass_spends lim p buf.view
      rw [← hv] at hs
      obtain ⟨n, hn, ht, h₀⟩ := hs
      have hl := ht.le
      have hz : buf'.view.length = buf.view.length - n := by rw [hn, List.length_drop]
      have hp (k : Nat) : parseLoop lim (k + 1) o p buf.view = parseLoop lim k o' q buf'.view := by
        simp only [parseLoop, ho, ← hv]
        rfl
      refine .inr ⟨_, rfl, ?_, ?_, fun r h => ?_⟩
      · have hr : Room m q _ := Room.takes (by simpa using hr) ht
        rwa [← hn, ByteBuf.length_view] at hr
      · simp only [← ByteBuf.length_view]
        omega
      · refine (hp _).trans (Eq.trans ?_ h)
        exact parseLoop_enough (by simp only; omega) (by simp)

end Http.Parser.Strict
