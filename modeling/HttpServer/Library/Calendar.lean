import Mathlib.Algebra.Group.Nat.Defs
import Mathlib.Tactic.Common

namespace Calendar

def isLeap (year : Nat) : Bool :=
  year % 4 = 0 && (year % 100 ≠ 0 || year % 400 = 0)

-- The days of a year before a month. The months are counted from 0.
def monthStart (leap : Bool) (month : Nat) : Nat :=
  [0, 31, 59, 90, 120, 151, 181, 212, 243, 273, 304, 334, 365].getD month 0 +
    if leap && month > 1 then 1 else 0

-- The days before a year, from the first day of the year 0 on.
def yearStart (year : Nat) : Nat :=
  365 * year + (year + 3) / 4 + (year + 399) / 400 - (year + 99) / 100

-- The day of the month is counted from 1.
structure Date where
  year  : Nat
  month : Nat
  day   : Nat
  deriving DecidableEq, Repr

namespace Date

structure Valid (x : Date) : Prop where
  month : x.month < 12
  first : 1 ≤ x.day
  last  : monthStart (isLeap x.year) x.month + x.day ≤ monthStart (isLeap x.year) (x.month + 1)

def dayNumber (x : Date) : Nat :=
  yearStart x.year + monthStart (isLeap x.year) x.month + (x.day - 1)

-- The year of a day is found by an estimate that is too small or too large by one at most.
def yearOf (n : Nat) : Nat :=
  let y := 400 * n / 146097
  if n < yearStart y then y - 1
  else if yearStart (y + 1) ≤ n then y + 1
  else y

def monthOf (leap : Bool) (n : Nat) : Nat :=
  ((List.range 11).filter fun m => monthStart leap (m + 1) ≤ n).length

def ofDayNumber (n : Nat) : Date :=
  let year := yearOf n
  let month := monthOf (isLeap year) (n - yearStart year)
  ⟨year, month, n - yearStart year - monthStart (isLeap year) month + 1⟩

end Date

variable {n : Nat} {x y : Date}

-- A year has 365 days, or one more.
theorem yearStart_succ (year : Nat) :
    yearStart (year + 1) = yearStart year + monthStart (isLeap year) 12 := by
  have h₄ : (year + 1 + 3) / 4 = (year + 3) / 4 + if year % 4 = 0 then 1 else 0 := by
    split <;> omega
  have h₁ : (year + 1 + 99) / 100 = (year + 99) / 100 + if year % 100 = 0 then 1 else 0 := by
    split <;> omega
  have h₀ : (year + 1 + 399) / 400 = (year + 399) / 400 + if year % 400 = 0 then 1 else 0 := by
    split <;> omega
  have hm : monthStart (isLeap year) 12 = 365 + if isLeap year then 1 else 0 := by
    cases isLeap year <;> rfl
  have hl : (year + 99) / 100 ≤ 365 * year + (year + 3) / 4 + (year + 399) / 400 := by omega
  rw [hm, yearStart, yearStart, h₄, h₁, h₀]
  have hc : year % 100 = 0 → year % 4 = 0 := by omega
  have hq : year % 400 = 0 → year % 100 = 0 := by omega
  by_cases hc' : year % 100 = 0 <;> by_cases hq' : year % 400 = 0 <;>
    by_cases h4' : year % 4 = 0 <;> simp_all [isLeap] <;> omega

theorem yearStart_mono {year year' : Nat} (h : year ≤ year') : yearStart year ≤ yearStart year' := by
  induction h
  case refl => exact Nat.le_refl _
  case step year' _ hi =>
    rw [yearStart_succ]
    exact Nat.le_add_right_of_le hi

-- The years have 146097 / 400 days on average.
theorem yearStart_estimate (year : Nat) :
    146097 * year < 400 * yearStart year + 400 ∧ 400 * yearStart year < 146097 * year + 700 := by
  simp only [yearStart]
  omega

-- Every day is in the year that is found for it.
theorem yearOf_spec (n : Nat) :
    yearStart (Date.yearOf n) ≤ n ∧ n < yearStart (Date.yearOf n + 1) := by
  have he : 146097 * (400 * n / 146097) ≤ 400 * n ∧ 400 * n < 146097 * (400 * n / 146097 + 1) := by
    omega
  simp only [Date.yearOf]
  generalize 400 * n / 146097 = y at he
  have hb := yearStart_estimate (y - 1)
  have ha := yearStart_estimate (y + 2)
  split
  case isTrue h =>
    cases y
    case zero => exact absurd h (Nat.not_lt_zero n)
    case succ y => exact ⟨by simp only [Nat.add_sub_cancel] at hb ⊢; omega, h⟩
  case isFalse h =>
    split
    case isTrue h' =>
      refine ⟨h', ?_⟩
      change n < yearStart (y + 2)
      omega
    case isFalse h' => exact ⟨by omega, by omega⟩

theorem monthStart_mono (leap : Bool) {m m' : Nat} (h : m ≤ m') (hm : m' ≤ 12) :
    monthStart leap m ≤ monthStart leap m' := by
  have hd : ∀ leap : Bool, ∀ m' < 13, ∀ m < m' + 1, monthStart leap m ≤ monthStart leap m' := by
    decide +kernel
  exact hd leap m' (by omega) m (by omega)

-- Among ascending numbers, the last one that is not above `n` is found by counting.
theorem filter_spec {f : Nat → Nat} {k : Nat} (hf : ∀ m ≤ k, f m ≤ f (m + 1)) (h : f 0 ≤ n) :
    let c := ((List.range k).filter fun m => f (m + 1) ≤ n).length
    c ≤ k ∧ f c ≤ n ∧ (c < k → n < f (c + 1)) ∧ (f k ≤ n → c = k) := by
  induction k
  case zero => simp [h]
  case succ k hi =>
    obtain ⟨hc, hl, hu, hk⟩ := hi fun m hm => hf m (by omega)
    have hm := hf k (by omega)
    simp only [List.range_succ, List.filter_append, List.length_append]
    by_cases hn : f (k + 1) ≤ n
    case pos =>
      rw [hk (by omega), List.filter_cons_of_pos (by simpa using hn)]
      exact ⟨Nat.le_refl _, hn, fun hk => absurd hk (Nat.lt_irrefl _), fun _ => rfl⟩
    case neg =>
      rw [List.filter_cons_of_neg (by simpa using hn)]
      refine ⟨Nat.le_succ_of_le hc, hl, fun _ => ?_, fun h => absurd h hn⟩
      rcases Nat.lt_or_eq_of_le hc with hc | hc
      · exact hu hc
      · rw [hc]
        exact Nat.lt_of_not_le hn

theorem monthOf_spec (leap : Bool) (h : n < monthStart leap 12) :
    Date.monthOf leap n < 12 ∧ monthStart leap (Date.monthOf leap n) ≤ n ∧
      n < monthStart leap (Date.monthOf leap n + 1) := by
  have h₀ : monthStart leap 0 ≤ n := by cases leap <;> exact Nat.zero_le n
  obtain ⟨hc, hl, hu, _⟩ := filter_spec (k := 11)
    (fun m hm => monthStart_mono leap (Nat.le_succ m) (Nat.succ_le_succ hm)) h₀
  refine ⟨Nat.lt_succ_of_le hc, hl, ?_⟩
  rcases Nat.lt_or_eq_of_le hc with hc | hc
  · exact hu hc
  · rw [Date.monthOf, hc]
    exact h

namespace Date

theorem valid_ofDayNumber (n : Nat) : (ofDayNumber n).Valid := by
  obtain ⟨hl, hu⟩ := yearOf_spec n
  rw [yearStart_succ] at hu
  obtain ⟨hm, hl', hu'⟩ := monthOf_spec (isLeap (yearOf n))
    (n := n - yearStart (yearOf n)) (by omega)
  exact ⟨hm, Nat.le_add_left .., by simp only [ofDayNumber]; omega⟩

theorem dayNumber_ofDayNumber (n : Nat) : (ofDayNumber n).dayNumber = n := by
  obtain ⟨hl, hu⟩ := yearOf_spec n
  rw [yearStart_succ] at hu
  obtain ⟨hm, hl', hu'⟩ := monthOf_spec (isLeap (yearOf n))
    (n := n - yearStart (yearOf n)) (by omega)
  simp only [dayNumber, ofDayNumber]
  omega

theorem Valid.year (h : x.Valid) :
    yearStart x.year ≤ x.dayNumber ∧ x.dayNumber < yearStart (x.year + 1) := by
  obtain ⟨hm, hf, hl⟩ := h
  have hm : monthStart (isLeap x.year) (x.month + 1) ≤ monthStart (isLeap x.year) 12 :=
    monthStart_mono _ hm (Nat.le_refl _)
  rw [yearStart_succ, dayNumber]
  omega

-- No two dates are the same day.
theorem Valid.unique (hx : x.Valid) (hy : y.Valid) (h : x.dayNumber = y.dayNumber) : x = y := by
  have hn : x.year = y.year := by
    obtain ⟨hl, hu⟩ := hx.year
    obtain ⟨hl', hu'⟩ := hy.year
    rcases Nat.lt_trichotomy x.year y.year with hn | hn | hn
    · have hm : yearStart (x.year + 1) ≤ yearStart y.year := yearStart_mono hn
      omega
    · exact hn
    · have hm : yearStart (y.year + 1) ≤ yearStart x.year := yearStart_mono hn
      omega
  obtain ⟨hm, hf, hl⟩ := hx
  obtain ⟨hm', hf', hl'⟩ := hy
  obtain ⟨year, month, day⟩ := x
  obtain ⟨year', month', day'⟩ := y
  cases hn
  simp only [dayNumber] at h hm hf hl hm' hf' hl'
  have hn : month = month' := by
    rcases Nat.lt_trichotomy month month' with hn | hn | hn
    · have hm : monthStart (isLeap year) (month + 1) ≤ monthStart (isLeap year) month' :=
        monthStart_mono _ hn (Nat.le_of_lt hm')
      omega
    · exact hn
    · have hm : monthStart (isLeap year) (month' + 1) ≤ monthStart (isLeap year) month :=
        monthStart_mono _ hn (Nat.le_of_lt hm)
      omega
  cases hn
  congr
  omega

theorem ofDayNumber_dayNumber (h : x.Valid) : ofDayNumber x.dayNumber = x :=
  (valid_ofDayNumber _).unique h (dayNumber_ofDayNumber _)

end Date
end Calendar
