import HttpServer.Objects.Date
import HttpServer.Objects.Theorems.Common
import Mathlib.Data.List.GetD
import Mathlib.Data.List.Nodup

open Calendar

namespace Http

-- A reader of the dates that HTTP prefers, by their grammar. It knows nothing of how they are made.
namespace Fixdate

def literal (t s : Bytes) : Option Bytes :=
  if t <+: s then some (s.drop t.length) else none

def twoDigit : Bytes → Option (Nat × Bytes)
  | c :: d :: s => do
    let n ← decDigit c
    let m ← decDigit d
    some (10 * n + m, s)
  | _ => none

def name (names : List String) (s : Bytes) : Option (Nat × Bytes) :=
  (names.findIdx? fun t => ascii t = s.take 3).map (·, s.drop 3)

-- A date without its day of the week, and the time of day.
structure Stamp where
  date : Date
  hour : Nat
  min  : Nat
  sec  : Nat

-- The seconds since the start of 1970.
def Stamp.seconds (x : Stamp) : Nat :=
  (x.date.dayNumber - yearStart 1970) * 86400 + x.hour * 3600 + x.min * 60 + x.sec

structure Stamp.Valid (x : Stamp) (wday : Nat) : Prop where
  date  : x.date.Valid
  since : yearStart 1970 ≤ x.date.dayNumber
  wday  : (x.date.dayNumber - yearStart 1970 + 4) % 7 = wday
  hour  : x.hour < 24
  min   : x.min < 60
  sec   : x.sec < 60

instance (x : Date) : Decidable x.Valid :=
  decidable_of_iff (x.month < 12 ∧ 1 ≤ x.day ∧
    monthStart (isLeap x.year) x.month + x.day ≤ monthStart (isLeap x.year) (x.month + 1))
    ⟨fun ⟨h₁, h₂, h₃⟩ => ⟨h₁, h₂, h₃⟩, fun h => ⟨h.month, h.first, h.last⟩⟩

instance (x : Stamp) (wday : Nat) : Decidable (x.Valid wday) :=
  decidable_of_iff (x.date.Valid ∧ yearStart 1970 ≤ x.date.dayNumber ∧
    (x.date.dayNumber - yearStart 1970 + 4) % 7 = wday ∧ x.hour < 24 ∧ x.min < 60 ∧ x.sec < 60)
    ⟨fun ⟨h₁, h₂, h₃, h₄, h₅, h₆⟩ => ⟨h₁, h₂, h₃, h₄, h₅, h₆⟩,
      fun h => ⟨h.date, h.since, h.wday, h.hour, h.min, h.sec⟩⟩

def read (s : Bytes) : Option Nat := do
  let (wday, s) ← name dayNames s
  let s ← literal (ascii ", ") s
  let (day, s) ← twoDigit s
  let s ← literal (ascii " ") s
  let (month, s) ← name monthNames s
  let s ← literal (ascii " ") s
  let (century, s) ← twoDigit s
  let (year, s) ← twoDigit s
  let s ← literal (ascii " ") s
  let (hour, s) ← twoDigit s
  let s ← literal (ascii ":") s
  let (min, s) ← twoDigit s
  let s ← literal (ascii ":") s
  let (sec, s) ← twoDigit s
  let s ← literal (ascii " GMT") s
  let x : Stamp := ⟨⟨100 * century + year, month, day⟩, hour, min, sec⟩
  if s = [] ∧ x.Valid wday then some x.seconds else none

variable {s t r : Bytes} {n i : Nat} {names : List String}

theorem literal_iff : literal t s = some r ↔ s = t ++ r := by
  simp only [literal, Option.ite_none_right_eq_some, Option.some.injEq]
  constructor
  case mp =>
    rintro ⟨⟨r', rfl⟩, h⟩
    rw [← h, List.drop_left]
  case mpr =>
    rintro rfl
    exact ⟨List.prefix_append .., List.drop_left⟩

theorem decDigit_iff {c : Byte} : decDigit c = some n ↔ n < 10 ∧ c = n.digitChar.toUInt8 := by
  constructor
  case mp =>
    intro h
    have hn := decDigit_lt _ _ h
    exact ⟨hn, (decDigit_eq_some _ _ h).trans (decDigit_eq_some _ _ (decDigit_digitChar hn)).symm⟩
  case mpr =>
    rintro ⟨hn, rfl⟩
    exact decDigit_digitChar hn

theorem twoDigit_iff : twoDigit s = some (n, r) ↔ n < 100 ∧ s = twoDigits n ++ r := by
  constructor
  case mp =>
    intro h
    rcases s with _ | ⟨c, _ | ⟨d, s⟩⟩
    case nil | cons.nil => cases h
    case cons.cons =>
      simp only [twoDigit, Option.bind_eq_bind, Option.bind_eq_some_iff, Option.some.injEq,
        Prod.mk.injEq, decDigit_iff] at h
      obtain ⟨a, ⟨ha, rfl⟩, b, ⟨hb, rfl⟩, rfl, rfl⟩ := h
      have hd : (10 * a + b) / 10 = a := by omega
      have hm : (10 * a + b) % 10 = b := by omega
      exact ⟨by omega, by simp [twoDigits, hd, hm]⟩
  case mpr =>
    rintro ⟨hn, rfl⟩
    have hd := decDigit_digitChar (n := n / 10) (by omega)
    have hm := decDigit_digitChar (n := n % 10) (by omega)
    simp only [twoDigits, List.cons_append, List.nil_append, twoDigit, hd, hm]
    simp
    omega

-- The names of a table can be told apart by their three letters.
structure Table (names : List String) : Prop where
  length : ∀ t ∈ names, (ascii t).length = 3
  nodup  : (names.map ascii).Nodup

theorem name_iff (h : Table names) :
    name names s = some (i, r) ↔ i < names.length ∧ s = ascii (names.getD i "?") ++ r := by
  simp only [name, Option.map_eq_some_iff, Prod.mk.injEq]
  constructor
  case mp =>
    rintro ⟨j, hf, rfl, rfl⟩
    obtain ⟨hj, ht, _⟩ := List.findIdx?_eq_some_iff_getElem.mp hf
    refine ⟨hj, ?_⟩
    rw [List.getD_eq_getElem _ _ hj, of_decide_eq_true ht, List.take_append_drop]
  case mpr =>
    rintro ⟨hj, rfl⟩
    rw [List.getD_eq_getElem _ _ hj]
    have hl := h.length _ (List.getElem_mem hj)
    refine ⟨i, ?_, rfl, List.drop_left' hl⟩
    refine List.findIdx?_eq_some_iff_getElem.mpr ⟨hj, ?_, fun k hk => ?_⟩
    · simp [List.take_left' hl]
    · rw [List.take_left' hl, decide_eq_true_eq]
      intro he
      have hi' : i < (names.map ascii).length := by simpa using hj
      have hk' : k < (names.map ascii).length := hk.trans hi'
      have he' : (names.map ascii)[k] = (names.map ascii)[i] := by simpa using he
      exact Nat.ne_of_lt hk (h.nodup.getElem_inj_iff.mp he')

theorem dayNames_table : Table dayNames := ⟨by decide, by decide⟩

theorem monthNames_table : Table monthNames := ⟨by decide, by decide⟩

theorem literal_bind {f : Bytes → Option Nat} :
    (literal t s >>= f) = some n ↔ ∃ r, s = t ++ r ∧ f r = some n := by
  rw [Option.bind_eq_bind, Option.bind_eq_some_iff]
  exact exists_congr fun _ => and_congr_left fun _ => literal_iff

theorem twoDigit_bind {f : Nat × Bytes → Option Nat} :
    (twoDigit s >>= f) = some n ↔ ∃ i r, (i < 100 ∧ s = twoDigits i ++ r) ∧ f (i, r) = some n := by
  rw [Option.bind_eq_bind, Option.bind_eq_some_iff, Prod.exists]
  exact exists_congr fun _ => exists_congr fun _ => and_congr_left fun _ => twoDigit_iff

theorem name_bind {f : Nat × Bytes → Option Nat} (h : Table names) :
    (name names s >>= f) = some n ↔
      ∃ i r, (i < names.length ∧ s = ascii (names.getD i "?") ++ r) ∧ f (i, r) = some n := by
  rw [Option.bind_eq_bind, Option.bind_eq_some_iff, Prod.exists]
  exact exists_congr fun _ => exists_congr fun _ => and_congr_left fun _ => name_iff h

-- The text of a stamp.
def Stamp.text (x : Stamp) (wday : Nat) : Bytes :=
  ascii (dayNames.getD wday "?") ++ (ascii ", " ++ (twoDigits x.date.day ++ (ascii " " ++
  (ascii (monthNames.getD x.date.month "?") ++ (ascii " " ++ (twoDigits (x.date.year / 100) ++
  (twoDigits (x.date.year % 100) ++ (ascii " " ++ (twoDigits x.hour ++ (ascii ":" ++
  (twoDigits x.min ++ (ascii ":" ++ (twoDigits x.sec ++ ascii " GMT")))))))))))))

theorem read_iff : read s = some n ↔
    ∃ (x : Stamp) (wday : Nat), x.Valid wday ∧ x.date.year < 10000 ∧ s = x.text wday ∧ x.seconds = n := by
  constructor
  case mp =>
    intro h₀
    obtain ⟨wday, _, ⟨hw, rfl⟩, h₁⟩ := (name_bind dayNames_table).mp h₀
    obtain ⟨_, rfl, h₂⟩ := literal_bind.mp h₁
    obtain ⟨day, _, ⟨hd, rfl⟩, h₃⟩ := twoDigit_bind.mp h₂
    obtain ⟨_, rfl, h₄⟩ := literal_bind.mp h₃
    obtain ⟨month, _, ⟨hm, rfl⟩, h₅⟩ := (name_bind monthNames_table).mp h₄
    obtain ⟨_, rfl, h₆⟩ := literal_bind.mp h₅
    obtain ⟨century, _, ⟨hc, rfl⟩, h₇⟩ := twoDigit_bind.mp h₆
    obtain ⟨year, _, ⟨hy, rfl⟩, h₈⟩ := twoDigit_bind.mp h₇
    obtain ⟨_, rfl, h₉⟩ := literal_bind.mp h₈
    obtain ⟨hour, _, ⟨hh, rfl⟩, h₁₀⟩ := twoDigit_bind.mp h₉
    obtain ⟨_, rfl, h₁₁⟩ := literal_bind.mp h₁₀
    obtain ⟨min, _, ⟨hi, rfl⟩, h₁₂⟩ := twoDigit_bind.mp h₁₁
    obtain ⟨_, rfl, h₁₃⟩ := literal_bind.mp h₁₂
    obtain ⟨sec, _, ⟨hs, rfl⟩, h₁₄⟩ := twoDigit_bind.mp h₁₃
    obtain ⟨_, rfl, h₁₅⟩ := literal_bind.mp h₁₄
    obtain ⟨⟨rfl, hv⟩, he⟩ := Option.ite_none_right_eq_some.mp h₁₅
    cases he
    refine ⟨_, _, hv, ?_, ?_, rfl⟩
    · dsimp only
      omega
    · have hd : (100 * century + year) / 100 = century := by omega
      have hm : (100 * century + year) % 100 = year := by omega
      simp [Stamp.text, hd, hm]
  case mpr =>
    rintro ⟨x, wday, hv, hy, rfl, rfl⟩
    have hw : wday < 7 := hv.wday ▸ Nat.mod_lt _ (by decide)
    have hd : x.date.day < 100 := by
      have hm : ∀ leap : Bool, ∀ m < 12, monthStart leap (m + 1) ≤ monthStart leap m + 31 := by decide
      have hm := hm (isLeap x.date.year) x.date.month hv.date.month
      have hl := hv.date.last
      omega
    have hr : 100 * (x.date.year / 100) + x.date.year % 100 = x.date.year := Nat.div_add_mod ..
    have hh := hv.hour
    have hm := hv.min
    have hs := hv.sec
    refine (name_bind dayNames_table).mpr ⟨wday, _, ⟨hw, rfl⟩, ?_⟩
    refine literal_bind.mpr ⟨_, rfl, twoDigit_bind.mpr ⟨x.date.day, _, ⟨hd, rfl⟩, ?_⟩⟩
    refine literal_bind.mpr ⟨_, rfl, ?_⟩
    refine (name_bind monthNames_table).mpr ⟨x.date.month, _, ⟨hv.date.month, rfl⟩, ?_⟩
    refine literal_bind.mpr ⟨_, rfl, ?_⟩
    refine twoDigit_bind.mpr ⟨x.date.year / 100, _, ⟨by omega, rfl⟩, ?_⟩
    refine twoDigit_bind.mpr ⟨x.date.year % 100, _, ⟨by omega, rfl⟩, ?_⟩
    refine literal_bind.mpr ⟨_, rfl, twoDigit_bind.mpr ⟨x.hour, _, ⟨by omega, rfl⟩, ?_⟩⟩
    refine literal_bind.mpr ⟨_, rfl, twoDigit_bind.mpr ⟨x.min, _, ⟨by omega, rfl⟩, ?_⟩⟩
    refine literal_bind.mpr ⟨_, rfl, twoDigit_bind.mpr ⟨x.sec, _, ⟨by omega, rfl⟩, ?_⟩⟩
    refine literal_bind.mpr ⟨[], rfl, Option.ite_none_right_eq_some.mpr ?_⟩
    rw [hr]
    exact ⟨⟨rfl, hv⟩, rfl⟩

-- The end of the year 9999. Later years do not have four digits.
def kEnd : Nat := 253402300800

def Stamp.of (now : Nat) : Stamp where
  date := .ofDayNumber (yearStart 1970 + now / 86400)
  hour := now / 3600 % 24
  min  := now / 60 % 60
  sec  := now % 60

theorem Stamp.dayNumber_of (now : Nat) : (of now).date.dayNumber = yearStart 1970 + now / 86400 :=
  Date.dayNumber_ofDayNumber _

theorem Stamp.valid_of (now : Nat) : (of now).Valid ((now / 86400 + 4) % 7) where
  date  := Date.valid_ofDayNumber _
  since := by rw [dayNumber_of]; exact Nat.le_add_right ..
  wday  := by rw [dayNumber_of, Nat.add_sub_cancel_left]
  hour  := Nat.mod_lt _ (by decide)
  min   := Nat.mod_lt _ (by decide)
  sec   := Nat.mod_lt _ (by decide)

theorem Stamp.seconds_of (now : Nat) : (of now).seconds = now := by
  rw [seconds, dayNumber_of, Nat.add_sub_cancel_left]
  simp only [of]
  omega

variable {x : Stamp} {wday now : Nat}

theorem Stamp.Valid.eq_of (h : x.Valid wday) : x = of x.seconds ∧ wday = (x.seconds / 86400 + 4) % 7 := by
  have hh := h.hour
  have hm := h.min
  have hs := h.sec
  have hw := h.wday
  have hd : x.seconds / 86400 = x.date.dayNumber - yearStart 1970 := by
    rw [seconds]
    omega
  have hx : yearStart 1970 + x.seconds / 86400 = x.date.dayNumber := by
    rw [hd]
    exact Nat.add_sub_cancel' h.since
  refine ⟨?_, by rw [hd, hw]⟩
  rw [of, hx, Date.ofDayNumber_dayNumber h.date]
  obtain ⟨date, hour, min, sec⟩ := x
  simp only [seconds, mk.injEq, true_and] at *
  omega

theorem Stamp.Valid.year (h : x.Valid wday) : 1970 ≤ x.date.year := by
  obtain ⟨_, hu⟩ := h.date.year
  refine Nat.le_of_lt_succ (Nat.lt_of_not_le fun hy => ?_)
  have hm : yearStart (x.date.year + 1) ≤ yearStart 1970 := yearStart_mono hy
  have hs := h.since
  omega

theorem Stamp.year_of : (of now).date.year < 10000 ↔ now < kEnd := by
  obtain ⟨hl, hu⟩ := (valid_of now).date.year
  have hk : yearStart 10000 = yearStart 1970 + kEnd / 86400 := by decide
  have hd := dayNumber_of now
  constructor
  case mp =>
    intro h
    have hm : yearStart ((of now).date.year + 1) ≤ yearStart 10000 := yearStart_mono h
    simp only [kEnd] at hk ⊢
    omega
  case mpr =>
    intro h
    refine Nat.lt_of_not_le fun hy => ?_
    have hm := yearStart_mono hy
    simp only [kEnd] at hk h
    omega

theorem decimal_twoDigits {n : Nat} (h : 1000 ≤ n) (h' : n < 10000) :
    decimal n = twoDigits (n / 100) ++ twoDigits (n % 100) := by
  rw [decimal_eq, if_neg (by omega), decimal_eq (n / 10), if_neg (by omega), decimal_eq (n / 10 / 10),
    if_neg (by omega), decimal_eq (n / 10 / 10 / 10), if_pos (by omega)]
  have h₁ : n / 10 / 10 / 10 = n / 100 / 10 := by omega
  have h₂ : n / 10 / 10 % 10 = n / 100 % 10 := by omega
  have h₃ : n / 10 % 10 = n % 100 / 10 := by omega
  have h₄ : n % 10 = n % 100 % 10 := by omega
  rw [h₁, h₂, h₃, h₄]
  rfl

theorem text_of (h : now < kEnd) :
    (gmtimeR now).text = (Stamp.of now).text ((now / 86400 + 4) % 7) := by
  have hy := (Stamp.valid_of now).year
  have hy' := Stamp.year_of.mpr h
  simp only [Stamp.of] at hy hy'
  simp only [gmtimeR, Stamp.of]
  generalize Date.ofDayNumber (yearStart 1970 + now / 86400) = date at hy hy'
  have hn : ¬ date.year - 1900 ≥ 2 ^ 31 := by omega
  have hc : 1900 + (date.year - 1900) = date.year := by omega
  rw [if_neg hn, Tm.text, Stamp.text]
  simp only [hc, decimal_twoDigits (Nat.le_trans (by decide) hy) hy', List.append_assoc]

-- There is one text for every second, and no other text is a date.
theorem read_text : read s = some now ↔ now < kEnd ∧ s = (gmtimeR now).text := by
  rw [read_iff]
  constructor
  case mp =>
    rintro ⟨x, wday, hv, hy, rfl, rfl⟩
    obtain ⟨hx, hw⟩ := hv.eq_of
    have hk : x.seconds < kEnd := by
      rw [hx] at hy
      exact Stamp.year_of.mp hy
    exact ⟨hk, by rw [text_of hk, ← hx, ← hw]⟩
  case mpr =>
    intro ⟨hk, hs⟩
    rw [hs]
    exact ⟨.of now, (now / 86400 + 4) % 7, Stamp.valid_of now, Stamp.year_of.mpr hk, text_of hk,
      Stamp.seconds_of now⟩

theorem length_twoDigits (n : Nat) : (twoDigits n).length = 2 := rfl

theorem length_name (h : Table names) (hi : i < names.length) :
    (ascii (names.getD i "?")).length = 3 := by
  rw [List.getD_eq_getElem _ _ hi]
  exact h.length _ (List.getElem_mem hi)

theorem length_text (h : now < kEnd) : (gmtimeR now).text.length = 29 := by
  have hv := Stamp.valid_of now
  have hw : (now / 86400 + 4) % 7 < dayNames.length := Nat.mod_lt _ (by decide)
  rw [text_of h, Stamp.text]
  simp only [List.length_append, length_twoDigits, length_name dayNames_table hw,
    length_name monthNames_table hv.date.month]
  rfl

end Fixdate

-- The dates of a number of calls, at any times.
def dates : DateCache → List Nat → List Bytes
  | _, []           => []
  | c, now :: times => (httpDateNow c now).1 :: dates (httpDateNow c now).2 times

-- What is in the cache belongs to the time that is in it.
def DateCache.Coherent (c : DateCache) : Prop :=
  c.text = [] ∨ c.text = (gmtimeR c.cached).text

-- The buffer is large enough, since an `int` has ten digits at most.
theorem length_gmtimeR (now : Nat) : (gmtimeR now).text.length < 64 := by
  have hm := (Date.valid_ofDayNumber (yearStart 1970 + now / 86400)).month
  simp only [gmtimeR]
  generalize Date.ofDayNumber (yearStart 1970 + now / 86400) = date at hm
  have hw : (now / 86400 + 4) % 7 < dayNames.length := Nat.mod_lt _ (by decide)
  split
  case isTrue => decide
  case isFalse hy =>
    have hd : (decimal (1900 + (date.year - 1900))).length ≤ 10 := by
      rw [decimal, List.length_map, Nat.length_toDigits_le_iff (by decide) (by decide)]
      omega
    have hl : (ascii ", ").length + (ascii " ").length + (ascii " ").length + (ascii " ").length +
        (ascii ":").length + (ascii ":").length + (ascii " GMT").length = 11 := rfl
    simp only [Tm.text, List.length_append, Fixdate.length_twoDigits,
      Fixdate.length_name Fixdate.dayNames_table hw, Fixdate.length_name Fixdate.monthNames_table hm]
    omega

variable {c : DateCache} {now : Nat}

theorem httpDateNow_coherent (h : c.Coherent) :
    (httpDateNow c now).1 = (gmtimeR now).text ∧ (httpDateNow c now).2.Coherent := by
  simp only [httpDateNow]
  split
  case isTrue hc =>
    simp only [Bool.and_eq_true, decide_eq_true_eq, Bool.not_eq_true', List.isEmpty_eq_false_iff] at hc
    obtain ⟨rfl, ht⟩ := hc
    exact ⟨h.resolve_left ht, h⟩
  case isFalse =>
    rw [printed, if_pos (length_gmtimeR now)]
    exact ⟨rfl, .inr rfl⟩

theorem dates_coherent (h : c.Coherent) (times : List Nat) :
    dates c times = times.map fun now => (gmtimeR now).text := by
  induction times generalizing c
  case nil => rfl
  case cons now times hi =>
    obtain ⟨hd, hc⟩ := httpDateNow_coherent h
    rw [dates, List.map_cons, hd, hi hc]

-- The cache changes nothing, whatever the clock does. Up to the year 9999 the date of a second is the
-- one text that reads as this second.
theorem http_date_now (times : List Nat) :
    dates {} times = times.map (fun now => (gmtimeR now).text) ∧
      ∀ now ∈ times, now < Fixdate.kEnd → (gmtimeR now).text.length = 29 ∧
        ∀ s, Fixdate.read s = some now ↔ s = (gmtimeR now).text := by
  refine ⟨dates_coherent (.inl rfl) times, fun now _ h => ⟨Fixdate.length_text h, fun s => ?_⟩⟩
  rw [Fixdate.read_text]
  exact and_iff_right h

example : (gmtimeR 784111777).text = ascii "Sun, 06 Nov 1994 08:49:37 GMT" := by decide +kernel

end Http
