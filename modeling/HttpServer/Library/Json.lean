import HttpServer.Library.Numeral

-- JSON texts that are spelled in ASCII: every other character has to be escaped.
namespace Json

variable {s t k : List UInt8}

structure Number where
  negative : Bool := false
  int      : Nat
  fraction : List Nat := []
  exponent : Int := 0
  deriving DecidableEq, Repr

-- A string is a list of code units.
inductive Value
  | null
  | bool (b : Bool)
  | number (n : Number)
  | string (units : List Nat)
  | array (values : List Value)
  | object (members : List (List Nat × Value))
  deriving Repr

def quote : UInt8 := 0x22
def comma : UInt8 := 0x2c
def colon : UInt8 := 0x3a
def backslash : UInt8 := 0x5c
def openBracket : UInt8 := 0x5b
def closeBracket : UInt8 := 0x5d
def openBrace : UInt8 := 0x7b
def closeBrace : UInt8 := 0x7d

def isSpace (c : UInt8) : Bool :=
  c = 0x20 || c = 0x09 || c = 0x0a || c = 0x0d

def skip (s : List UInt8) : List UInt8 :=
  s.dropWhile isSpace

def digit (c : UInt8) : Option Nat :=
  if 0x30 ≤ c && c ≤ 0x39 then some (c - 0x30).toNat else none

def hexDigit (c : UInt8) : Option Nat :=
  if 0x30 ≤ c && c ≤ 0x39 then some (c - 0x30).toNat
  else if 0x61 ≤ c && c ≤ 0x66 then some ((c - 0x61).toNat + 10)
  else if 0x41 ≤ c && c ≤ 0x46 then some ((c - 0x41).toNat + 10)
  else none

-- The code unit that an escape of two characters stands for.
def escaped (c : UInt8) : Option Nat :=
  if c = quote || c = backslash || c = 0x2f then some c.toNat
  else if c = 0x62 then some 0x08
  else if c = 0x66 then some 0x0c
  else if c = 0x6e then some 0x0a
  else if c = 0x72 then some 0x0d
  else if c = 0x74 then some 0x09
  else none

-- The code unit with the given four hex digits.
def codeUnit (a b c d : UInt8) : Option Nat := do
  let a ← hexDigit a
  let b ← hexDigit b
  let c ← hexDigit c
  let d ← hexDigit d
  some (((a * 16 + b) * 16 + c) * 16 + d)

def push (u : Nat) (r : List Nat × List UInt8) : List Nat × List UInt8 :=
  (u :: r.1, r.2)

-- A string behind its opening quote, and what follows its closing one.
def readString : List UInt8 → Option (List Nat × List UInt8)
  | [] => none
  | c :: s =>
    if c = quote then some ([], s)
    else if c = backslash then
      match s with
      | [] => none
      | e :: s =>
        if e = 0x75 then
          match s with
          | w :: x :: y :: z :: s => match codeUnit w x y z with
            | none   => none
            | some u => (readString s).map (push u)
          | _ => none
        else match escaped e with
          | none   => none
          | some u => (readString s).map (push u)
    else if 0x20 ≤ c && c < 0x80 then (readString s).map (push c.toNat)
    else none

-- What the inside of a string literal stands for.
def unescape (s : List UInt8) : Option (List Nat) :=
  match readString (s ++ [quote]) with
  | some (us, []) => some us
  | _             => none

def digits (s : List UInt8) : List UInt8 × List UInt8 :=
  (s.takeWhile (digit · |>.isSome), s.dropWhile (digit · |>.isSome))

-- There are no superfluous zeros in front.
def readInt (s : List UInt8) : Option (Nat × List UInt8) :=
  let (ds, s) := digits s
  match ds with
  | [] => none
  | d :: more =>
    if digit d = some 0 && !more.isEmpty then none
    else some (Numeral.valueFrom digit 10 0 (d :: more), s)

def readFraction : List UInt8 → Option (List Nat × List UInt8)
  | [] => some ([], [])
  | c :: s =>
    if c = 0x2e then
      let (ds, s) := digits s
      if ds.isEmpty then none else some (ds.filterMap digit, s)
    else some ([], c :: s)

def readExponent : List UInt8 → Option (Int × List UInt8)
  | [] => some (0, [])
  | c :: s =>
    if c = 0x65 || c = 0x45 then
      let negative := s.head? = some 0x2d
      let s := if negative || s.head? = some 0x2b then s.tail else s
      let (ds, s) := digits s
      let n : Int := Numeral.valueFrom digit 10 0 ds
      if ds.isEmpty then none else some (if negative then -n else n, s)
    else some (0, c :: s)

def readNumber (s : List UInt8) : Option (Number × List UInt8) := do
  let negative : Bool := s.head? = some 0x2d
  let (int, s) ← readInt (if negative then s.tail else s)
  let (fraction, s) ← readFraction s
  let (exponent, s) ← readExponent s
  some (⟨negative, int, fraction, exponent⟩, s)

def literals : List (List UInt8 × Value) :=
  [([0x6e, 0x75, 0x6c, 0x6c], .null), ([0x74, 0x72, 0x75, 0x65], .bool true),
   ([0x66, 0x61, 0x6c, 0x73, 0x65], .bool false)]

def readLiteral (s : List UInt8) : Option (Value × List UInt8) :=
  (literals.find? (·.1.isPrefixOf s)).map fun (t, v) => (v, s.drop t.length)

-- The next character, which has to be `c`.
def expect (c : UInt8) (s : List UInt8) : Option (List UInt8) :=
  match skip s with
  | []     => none
  | d :: s => if d = c then some s else none

mutual

-- A value and what follows it, with a bound on the depth and on the number of parts.
def readValue : Nat → List UInt8 → Option (Value × List UInt8)
  | 0, _ => none
  | n + 1, s =>
    match skip s with
    | [] => none
    | c :: s =>
      if c = quote then (readString s).map fun (us, s) => (.string us, s)
      else if c = openBrace then
        match skip s with
        | [] => none
        | d :: s' =>
          if d = closeBrace then some (.object [], s')
          else (readMembers n s).map fun (ms, s) => (.object ms, s)
      else if c = openBracket then
        match skip s with
        | [] => none
        | d :: s' =>
          if d = closeBracket then some (.array [], s')
          else (readElements n s).map fun (vs, s) => (.array vs, s)
      else (readLiteral (c :: s)).or ((readNumber (c :: s)).map fun (x, s) => (.number x, s))

def readMembers : Nat → List UInt8 → Option (List (List Nat × Value) × List UInt8)
  | 0, _ => none
  | n + 1, s => do
    let s ← expect quote s
    let (key, s) ← readString s
    let s ← expect colon s
    let (v, s) ← readValue n s
    match skip s with
    | [] => none
    | c :: s =>
      if c = comma then (readMembers n s).map fun (ms, s) => ((key, v) :: ms, s)
      else if c = closeBrace then some ([(key, v)], s)
      else none

def readElements : Nat → List UInt8 → Option (List Value × List UInt8)
  | 0, _ => none
  | n + 1, s => do
    let (v, s) ← readValue n s
    match skip s with
    | [] => none
    | c :: s =>
      if c = comma then (readElements n s).map fun (vs, s) => (v :: vs, s)
      else if c = closeBracket then some ([v], s)
      else none

end

def read (s : List UInt8) : Option Value :=
  match readValue (s.length + 1) s with
  | some (v, s) => if (skip s).isEmpty then some v else none
  | none        => none

-- The characters that stand for themselves in a string.
def isPlain (c : UInt8) : Bool :=
  0x20 ≤ c && c < 0x80 && c ≠ quote && c ≠ backslash

-- What can follow a member of an object.
def Ends (s : List UInt8) : Prop :=
  ∀ c ∈ s.head?, c = comma ∨ c = closeBrace

-- A text for a value that has no parts.
def Leaf (s : List UInt8) (v : Value) : Prop :=
  ∀ n t, Ends t → readValue (n + 1) (s ++ t) = some (v, t)

def Member (s : List UInt8) (m : List Nat × Value) : Prop :=
  ∃ key text, s = quote :: (key ++ quote :: colon :: text) ∧
    (∀ t, readString (key ++ quote :: t) = some (m.1, t)) ∧ Leaf text m.2

variable {s t : List UInt8} {c d : UInt8} {v : Value} {m : List Nat × Value} {n : Nat}

theorem readString_plain (h : isPlain c = true) (t : List UInt8) :
    readString (c :: t) = (readString t).map (push c.toNat) := by
  simp only [isPlain, Bool.and_eq_true, decide_eq_true_eq] at h
  obtain ⟨⟨⟨h₁, h₂⟩, h₃⟩, h₄⟩ := h
  rw [readString.eq_def]
  simp only [h₃, h₄, h₁, h₂, if_false, decide_true, Bool.and_self, if_true]

theorem readString_quote (t : List UInt8) : readString (quote :: t) = some ([], t) := by
  rw [readString.eq_def]
  rfl

theorem readString_escape {u : Nat} (h : escaped c = some u) (t : List UInt8) :
    readString (backslash :: c :: t) = (readString t).map (push u) := by
  have hc : c ≠ 0x75 := by
    rintro rfl
    cases h
  rw [readString.eq_def]
  simp only [hc, h, if_false]
  rfl

theorem readString_unit {w x y z : UInt8} {u : Nat} (h : codeUnit w x y z = some u) (t : List UInt8) :
    readString (backslash :: 0x75 :: w :: x :: y :: z :: t) = (readString t).map (push u) := by
  rw [readString.eq_def]
  simp only [h]
  rfl

-- A string is read piece by piece, if every piece is read as one code unit.
theorem readString_flatMap {α : Type*} {e : α → List UInt8} {f : α → Nat} {xs : List α}
    (h : ∀ x ∈ xs, ∀ t, readString (e x ++ t) = (readString t).map (push (f x))) (t : List UInt8) :
    readString (xs.flatMap e ++ quote :: t) = some (xs.map f, t) := by
  induction xs
  case nil => exact readString_quote t
  case cons x xs hi =>
    simp only [List.mem_cons, forall_eq_or_imp] at h
    rw [List.flatMap_cons, List.append_assoc, h.1, hi h.2]
    rfl

theorem readString_text (h : s.all isPlain = true) (t : List UInt8) :
    readString (s ++ quote :: t) = some (s.map UInt8.toNat, t) := by
  have hs := List.all_eq_true.mp h
  simpa using readString_flatMap (e := ([·])) (fun c hc t => readString_plain (hs c hc) t) t

theorem skip_cons (h : isSpace c = false) (s : List UInt8) : skip (c :: s) = c :: s :=
  List.dropWhile_cons_of_neg (by simp [h])

theorem expect_cons (h : isSpace c = false) (s : List UInt8) : expect c (c :: s) = some s := by
  simp [expect, skip_cons h]

theorem Leaf.string {us : List Nat} (h : ∀ t, readString (s ++ quote :: t) = some (us, t)) :
    Leaf (quote :: (s ++ [quote])) (.string us) := by
  intro n t _
  have hs : skip (quote :: (s ++ quote :: t)) = quote :: (s ++ quote :: t) := skip_cons (by decide) _
  simp [readValue, hs, h]

theorem ne_of_digit (h : (digit c).isSome) (hd : digit d = none) : c ≠ d := by
  rintro rfl
  simp [hd] at h

theorem digits_append (h : ∀ c ∈ s, (digit c).isSome) (ht : Ends t) : digits (s ++ t) = (s, t) := by
  have hn : ∀ c ∈ t.head?, (digit c).isSome = false := by
    intro c hc
    obtain rfl | rfl := ht c hc
    · rfl
    · rfl
  have ht' : t.takeWhile (digit · |>.isSome) = [] ∧ t.dropWhile (digit · |>.isSome) = t := by
    cases t
    case nil       => exact ⟨rfl, rfl⟩
    case cons c cs => simp [hn c rfl]
  rw [digits, List.takeWhile_append_of_pos h, List.dropWhile_append_of_pos h, ht'.1, ht'.2,
    List.append_nil]

-- A numeral without a fraction or an exponent.
theorem readNumber_canonical (h : Numeral.Canonical digit s) (ht : Ends t) :
    readNumber (s ++ t) = some ({ int := Numeral.valueFrom digit 10 0 s }, t) := by
  obtain ⟨c, cs, rfl⟩ := List.exists_cons_of_ne_nil h.nonempty
  have hc : (digit c).isSome := h.digits c (by simp)
  have hm : ((c :: cs ++ t).head? = some 0x2d) = False := by
    simpa using ne_of_digit hc (by decide)
  have hz : (digit c = some 0 && !cs.isEmpty) = false := by
    cases cs
    case nil  => simp
    case cons => simpa using h.leading (by simp) c (by simp)
  have hi : readInt (c :: cs ++ t) = some (Numeral.valueFrom digit 10 0 (c :: cs), t) := by
    simp only [readInt, digits_append h.digits ht, hz]
    rfl
  have hf : readFraction t = some ([], t) ∧ readExponent t = some (0, t) := by
    cases t
    case nil => exact ⟨rfl, rfl⟩
    case cons c t => obtain rfl | rfl := ht c rfl <;> exact ⟨rfl, rfl⟩
  simp only [readNumber, hm, decide_false, Bool.false_eq_true, if_false, hi, hf.1, hf.2,
    Option.bind_eq_bind, Option.bind_some]

theorem Leaf.number (h : Numeral.Canonical digit s) :
    Leaf s (.number { int := Numeral.valueFrom digit 10 0 s }) := by
  intro n t ht
  have hn := readNumber_canonical h ht
  obtain ⟨c, cs, rfl⟩ := List.exists_cons_of_ne_nil h.nonempty
  have hc {d : UInt8} (hd : digit d = none) : c ≠ d := ne_of_digit (h.digits c (by simp)) hd
  have hs : isSpace c = false := by
    simp [isSpace, hc (d := 0x20) rfl, hc (d := 0x09) rfl, hc (d := 0x0a) rfl, hc (d := 0x0d) rfl]
  have hl : readLiteral (c :: cs ++ t) = none := by
    simp [readLiteral, literals, List.isPrefixOf, (hc (d := 0x6e) rfl).symm, (hc (d := 0x74) rfl).symm,
      (hc (d := 0x66) rfl).symm]
  rw [List.cons_append] at hl hn ⊢
  simp only [readValue, skip_cons hs, hc (d := quote) rfl, hc (d := openBrace) rfl,
    hc (d := openBracket) rfl, if_false, hl, hn, Option.map_some, Option.none_or]

theorem Member.of_text {key text : List UInt8} (hk : key.all isPlain = true) (hl : Leaf text v) :
    Member (quote :: (key ++ quote :: colon :: text)) (key.map UInt8.toNat, v) :=
  ⟨key, text, rfl, readString_text hk, hl⟩

-- The part of `readMembers` that comes before the character behind a member.
theorem Member.reads (h : Member s m) (ht : Ends t) : readMembers (n + 2) (s ++ t) =
    match skip t with
    | []     => none
    | c :: t =>
      if c = comma then (readMembers (n + 1) t).map fun (ms, s) => (m :: ms, s)
      else if c = closeBrace then some ([m], t)
      else none := by
  obtain ⟨key, text, rfl, hk, hl⟩ := h
  have he : expect quote (quote :: (key ++ quote :: colon :: text) ++ t) =
      some (key ++ quote :: (colon :: text ++ t)) := by
    simpa using expect_cons (c := quote) (by decide) (key ++ quote :: (colon :: text ++ t))
  have hc : expect colon (colon :: text ++ t) = some (text ++ t) := expect_cons (by decide) _
  simp only [readMembers, he, hk, hc, hl n t ht, Option.bind_eq_bind, Option.bind_some]

theorem readMembers_all {ts : List (List UInt8)} {ms : List (List Nat × Value)}
    (h : List.Forall₂ Member ts ms) (hn : ts ≠ []) (t : List UInt8) (hf : ts.length < n) :
    readMembers n ([comma].intercalate ts ++ closeBrace :: t) = some (ms, t) := by
  induction h generalizing n
  case nil => exact absurd rfl hn
  case cons s m ts ms hm hs hi =>
    obtain ⟨n, rfl⟩ : ∃ k, n = k + 2 := ⟨n - 2, by simp at hf; omega⟩
    cases hs
    case nil =>
      have hc : skip (closeBrace :: t) = closeBrace :: t := skip_cons (by decide) t
      rw [List.intercalate_singleton, hm.reads (by simp [Ends]), hc]
      rfl
    case cons u ts hu hs =>
      have hi := hi (by simp) (n := n + 1) (by simp at hf ⊢; omega)
      have hc (s : List UInt8) : skip (comma :: s) = comma :: s := skip_cons (by decide) s
      rw [List.intercalate_cons_cons, List.append_assoc, List.append_assoc, hm.reads (by simp [Ends]),
        List.singleton_append, hc]
      simp only [if_true, hi]
      rfl

theorem length_members {ts : List (List UInt8)} {ms : List (List Nat × Value)}
    (h : List.Forall₂ Member ts ms) : ts.length ≤ ([comma].intercalate ts).length := by
  induction h
  case nil => exact Nat.zero_le _
  case cons s m ts ms hm hs hi =>
    obtain ⟨key, text, rfl, _⟩ := hm
    cases hs
    case nil  => simp
    case cons =>
      rw [List.intercalate_cons_cons, List.length_append, List.length_append, List.length_cons]
      simp only [List.length_cons, List.length_nil] at hi ⊢
      omega

-- An object whose members have no parts, without any space in it.
theorem read_object {ts : List (List UInt8)} {ms : List (List Nat × Value)}
    (h : List.Forall₂ Member ts ms) (hn : ts ≠ []) :
    read (openBrace :: ([comma].intercalate ts ++ [closeBrace])) = some (.object ms) := by
  have hm (n : Nat) (hf : ts.length < n) : readMembers n ([comma].intercalate ts ++ [closeBrace]) =
    some (ms, []) := readMembers_all h hn [] hf
  have hl := length_members h
  obtain ⟨s, hs⟩ : ∃ s, [comma].intercalate ts ++ [closeBrace] = quote :: s := by
    cases h
    case nil => exact absurd rfl hn
    case cons hf _ =>
      obtain ⟨key, text, rfl, _⟩ := hf
      exact ⟨_, by rw [List.intercalate_cons_cons_left]; rfl⟩
  have hk := congrArg List.length hs
  simp only [List.length_append, List.length_cons, List.length_nil] at hk
  rw [hs] at hm ⊢
  have h₁ : skip (openBrace :: quote :: s) = openBrace :: quote :: s := skip_cons (by decide) _
  have h₂ : skip (quote :: s) = quote :: s := skip_cons (by decide) s
  have hv : readValue ((openBrace :: quote :: s).length + 1) (openBrace :: quote :: s) =
      some (.object ms, []) := by
    have hf : ts.length < (openBrace :: quote :: s).length := by
      simp only [List.length_cons] at hk ⊢
      omega
    simp only [readValue, h₁, h₂, hm _ hf]
    rfl
  simp only [read, hv]
  rfl

end Json
