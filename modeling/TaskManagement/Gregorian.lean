import Mathlib.Data.Nat.Init
import Mathlib.Order.Lattice
import Mathlib.Tactic.Common

/-!
# The Gregorian calendar

Times of day on the days of the proleptic Gregorian calendar, counted in milliseconds from the start
of 1970 with days of equal length.

* `makeTime`: the time that year, month, day, hour and minute name, with those that are out of range
  carried over;
* `fieldsOf`: year, month, day, hour and minute of a time;
* `makeTime_fieldsOf`, `fieldsOf_makeTime`: the two are inverse to each other, at the times of full
  minutes and on the fields in range.
-/

namespace Gregorian

/-! ### Years -/

def isLeap (y : ℤ) : Bool := decide (y % 4 = 0 ∧ (y % 100 ≠ 0 ∨ y % 400 = 0))

def yearLength (y : ℤ) : ℤ := if isLeap y then 366 else 365

/-- The first day of the year. -/
def yearStart (y : ℤ) : ℤ :=
  365 * (y - 1970) + (y - 1969) / 4 - (y - 1901) / 100 + (y - 1601) / 400

/-- The year of the day `d`: an estimate by the mean length of a year is off by one at most. -/
def yearOf (d : ℤ) : ℤ :=
  let y := 400 * d / 146097 + 1970
  if d < yearStart y then y - 1 else if yearStart (y + 1) ≤ d then y + 1 else y

theorem yearStart_succ (y : ℤ) : yearStart (y + 1) = yearStart y + yearLength y := by
  unfold yearStart yearLength isLeap
  split_ifs with h
  · have := of_decide_eq_true h
    omega
  · have : ¬(y % 4 = 0 ∧ (y % 100 ≠ 0 ∨ y % 400 = 0)) := fun hy => h (decide_eq_true hy)
    omega

theorem yearStart_estimate (y : ℤ) :
    146097 * (y - 1970) - 600 ≤ 400 * yearStart y ∧
      400 * yearStart y ≤ 146097 * (y - 1970) + 600 := by
  unfold yearStart
  omega

/-- A day lies in its year. -/
theorem yearOf_bounds (d : ℤ) : yearStart (yearOf d) ≤ d ∧ d < yearStart (yearOf d + 1) := by
  simp only [yearOf]
  set y := 400 * d / 146097 + 1970 with hy
  have hlo := yearStart_estimate (y - 1)
  have hmid := yearStart_estimate y
  have hhi := yearStart_estimate (y + 1 + 1)
  split_ifs with h h'
  · rw [Int.sub_add_cancel]
    omega
  · omega
  · omega

theorem yearStart_lt_of_lt {y z : ℤ} (h : y < z) : yearStart (y + 1) ≤ yearStart z := by
  unfold yearStart
  omega

/-- The year in which a day lies. -/
theorem yearOf_eq {d y : ℤ} (hy : yearStart y ≤ d) (hy' : d < yearStart (y + 1)) :
    yearOf d = y := by
  have hd := yearOf_bounds d
  rcases lt_trichotomy (yearOf d) y with h | h | h
  · have := yearStart_lt_of_lt h
    omega
  · exact h
  · have := yearStart_lt_of_lt h
    omega

/-! ### Months -/

/-- The day of the year on which a month starts, months counted from zero; the twelfth is the end of
the year. -/
def monthStart (leap : Bool) (m : ℕ) : ℤ :=
  ([0, 31, 59, 90, 120, 151, 181, 212, 243, 273, 304, 334, 365][m]?).getD 0 +
    if leap && decide (2 ≤ m) then 1 else 0

/-- The last of the first `m + 1` months that has started by the day `d` of the year. -/
def lastMonth (leap : Bool) (d : ℤ) : ℕ → ℕ
  | 0 => 0
  | m + 1 => if monthStart leap (m + 1) ≤ d then m + 1 else lastMonth leap d m

def monthOf (leap : Bool) (d : ℤ) : ℕ := lastMonth leap d 11

@[simp]
theorem monthStart_zero (leap : Bool) : monthStart leap 0 = 0 := by
  cases leap <;> rfl

theorem monthStart_twelve (y : ℤ) : monthStart (isLeap y) 12 = yearLength y := by
  unfold yearLength
  cases isLeap y <;> rfl

theorem monthStart_lt_succ : ∀ (leap : Bool), ∀ m < 12,
    monthStart leap m < monthStart leap (m + 1) := by
  decide

theorem monthStart_le_of_le (leap : Bool) {m n : ℕ} (h : m ≤ n) (hn : n ≤ 12) :
    monthStart leap m ≤ monthStart leap n := by
  induction n, h using Nat.le_induction with
  | base => exact le_refl _
  | succ n h ih => exact (ih (by omega)).trans (monthStart_lt_succ leap n (by omega)).le

theorem lastMonth_bounds {leap : Bool} {d : ℤ} {m : ℕ} (h : 0 ≤ d)
    (hd : d < monthStart leap (m + 1)) :
    lastMonth leap d m ≤ m ∧ monthStart leap (lastMonth leap d m) ≤ d ∧
      d < monthStart leap (lastMonth leap d m + 1) := by
  induction m with
  | zero => exact ⟨le_refl 0, by rw [lastMonth, monthStart_zero]; exact h, hd⟩
  | succ m ih =>
    rw [lastMonth]
    by_cases hm : monthStart leap (m + 1) ≤ d
    · rw [if_pos hm]
      exact ⟨le_refl _, hm, hd⟩
    · rw [if_neg hm]
      have hih := ih (Int.not_le.mp hm)
      exact ⟨Nat.le_succ_of_le hih.1, hih.2⟩

/-- A day of a year lies in its month. -/
theorem monthOf_bounds {y d : ℤ} (h : 0 ≤ d) (hd : d < yearLength y) :
    monthOf (isLeap y) d < 12 ∧ monthStart (isLeap y) (monthOf (isLeap y) d) ≤ d ∧
      d < monthStart (isLeap y) (monthOf (isLeap y) d + 1) := by
  rw [← monthStart_twelve] at hd
  have hm := lastMonth_bounds h hd
  exact ⟨Nat.lt_succ_of_le hm.1, hm.2⟩

/-- The month in which a day of a year lies. -/
theorem monthOf_eq {y d : ℤ} {m : ℕ} (hm : m < 12) (hd : monthStart (isLeap y) m ≤ d)
    (hd' : d < monthStart (isLeap y) (m + 1)) : monthOf (isLeap y) d = m := by
  have h : 0 ≤ d := by
    have := monthStart_le_of_le (isLeap y) (Nat.zero_le m) hm.le
    rw [monthStart_zero] at this
    omega
  have hlen : d < yearLength y := by
    rw [← monthStart_twelve]
    exact lt_of_lt_of_le hd' (monthStart_le_of_le (isLeap y) hm (le_refl 12))
  obtain ⟨hlt, hle, hle'⟩ := monthOf_bounds h hlen
  rcases lt_trichotomy (monthOf (isLeap y) d) m with hc | hc | hc
  · have := monthStart_le_of_le (isLeap y) (Nat.succ_le_of_lt hc) hm.le
    rw [Nat.succ_eq_add_one] at this
    omega
  · exact hc
  · have := monthStart_le_of_le (isLeap y) (Nat.succ_le_of_lt hc) hlt.le
    rw [Nat.succ_eq_add_one] at this
    omega

/-! ### Times -/

/-- What is read off a calendar and a clock. -/
@[ext]
structure Fields where
  year : ℤ
  month : ℤ
  day : ℤ
  hour : ℤ
  minute : ℤ
deriving DecidableEq, Repr

def daysInMonth (y m : ℤ) : ℤ :=
  monthStart (isLeap y) m.toNat - monthStart (isLeap y) (m - 1).toNat

/-- A month of the year, a day of the month and a time of the day. -/
structure Fields.Valid (f : Fields) : Prop where
  month : 1 ≤ f.month ∧ f.month ≤ 12
  day : 1 ≤ f.day ∧ f.day ≤ daysInMonth f.year f.month
  hour : 0 ≤ f.hour ∧ f.hour < 24
  minute : 0 ≤ f.minute ∧ f.minute < 60

theorem daysInMonth_le {y m : ℤ} (hm : 1 ≤ m ∧ m ≤ 12) : daysInMonth y m ≤ 31 := by
  have h : ∀ leap : Bool, ∀ k < 12, monthStart leap (k + 1) - monthStart leap k ≤ 31 := by decide
  have hk := h (isLeap y) (m - 1).toNat (by omega)
  rwa [show (m - 1).toNat + 1 = m.toNat by omega] at hk

/-- The day number of the given day of the given month, the months carried over to the years. -/
def makeDay (year month day : ℤ) : ℤ :=
  let y := year + (month - 1) / 12
  yearStart y + monthStart (isLeap y) ((month - 1) % 12).toNat + day - 1

def makeTime (f : Fields) : ℤ :=
  makeDay f.year f.month f.day * 86400000 + f.hour * 3600000 + f.minute * 60000

def fieldsOf (t : ℤ) : Fields :=
  let d := t / 86400000
  let y := yearOf d
  let m := monthOf (isLeap y) (d - yearStart y)
  { year := y
    month := m + 1
    day := d - yearStart y - monthStart (isLeap y) m + 1
    hour := t % 86400000 / 3600000
    minute := t % 3600000 / 60000 }

theorem monthStart_bounds (leap : Bool) {m : ℕ} (hm : m ≤ 12) :
    0 ≤ monthStart leap m ∧ monthStart leap m ≤ 366 := by
  have hlo := monthStart_le_of_le leap (Nat.zero_le m) hm
  have hhi := monthStart_le_of_le leap hm (le_refl 12)
  have hend : monthStart leap 12 ≤ 366 := by cases leap <;> decide
  rw [monthStart_zero] at hlo
  omega

theorem makeDay_of_month {y m d : ℤ} (hm : 1 ≤ m ∧ m ≤ 12) :
    makeDay y m d = yearStart y + monthStart (isLeap y) (m - 1).toNat + d - 1 := by
  have hdiv : (m - 1) / 12 = 0 := by omega
  have hmod : (m - 1) % 12 = m - 1 := by omega
  simp only [makeDay, hdiv, hmod, Int.add_zero]

theorem yearLength_eq (y : ℤ) : yearLength y = yearStart (y + 1) - yearStart y := by
  rw [yearStart_succ]
  omega

/-- A day of a year has a number in the year. -/
theorem dayOfYear_bounds (d : ℤ) :
    0 ≤ d - yearStart (yearOf d) ∧ d - yearStart (yearOf d) < yearLength (yearOf d) := by
  have hd := yearOf_bounds d
  rw [yearLength_eq]
  omega

theorem fieldsOf_valid (t : ℤ) : (fieldsOf t).Valid := by
  obtain ⟨h, hlen⟩ := dayOfYear_bounds (t / 86400000)
  obtain ⟨hm, hd, hd'⟩ := monthOf_bounds h hlen
  refine ⟨?_, ?_, ?_, ?_⟩
  · simp only [fieldsOf]
    omega
  · simp only [fieldsOf, daysInMonth, Int.add_sub_cancel, Int.toNat_natCast_add_one,
      Int.toNat_natCast]
    omega
  · simp only [fieldsOf]
    omega
  · simp only [fieldsOf]
    omega

/-- Reading the fields of the time of a full minute back gives the time. -/
theorem makeTime_fieldsOf {t : ℤ} (ht : t % 60000 = 0) : makeTime (fieldsOf t) = t := by
  rw [makeTime, makeDay_of_month (fieldsOf_valid t).month]
  simp only [fieldsOf, Int.add_sub_cancel, Int.toNat_natCast]
  omega

/-- The fields of the time that fields in range name are those fields. -/
theorem fieldsOf_makeTime {f : Fields} (hf : f.Valid) : fieldsOf (makeTime f) = f := by
  obtain ⟨hmonth, hday, hhour, hminute⟩ := hf
  obtain ⟨m, hm⟩ : ∃ m : ℕ, f.month = m + 1 := ⟨(f.month - 1).toNat, by omega⟩
  obtain ⟨d, hd⟩ : ∃ d, makeDay f.year f.month f.day = d := ⟨_, rfl⟩
  have hdiv : makeTime f / 86400000 = d := by
    rw [makeTime, hd]
    omega
  rw [makeDay_of_month hmonth, hm, Int.add_sub_cancel, Int.toNat_natCast] at hd
  rw [daysInMonth, hm, Int.add_sub_cancel, Int.toNat_natCast_add_one, Int.toNat_natCast] at hday
  have hm12 : m < 12 := by omega
  have hlo := monthStart_le_of_le (isLeap f.year) (Nat.zero_le m) hm12.le
  have hhi := monthStart_le_of_le (isLeap f.year) hm12 (le_refl 12)
  rw [monthStart_zero] at hlo
  rw [Nat.succ_eq_add_one, monthStart_twelve, yearLength_eq] at hhi
  have hyear : yearOf d = f.year := yearOf_eq (by omega) (by omega)
  have hmonthOf : monthOf (isLeap f.year) (d - yearStart f.year) = m :=
    monthOf_eq hm12 (by omega) (by omega)
  ext
  · rw [fieldsOf, hdiv]
    exact hyear
  · simp only [fieldsOf, hdiv, hyear, hmonthOf, hm]
  · simp only [fieldsOf, hdiv, hyear, hmonthOf]
    omega
  · simp only [fieldsOf, makeTime]
    omega
  · simp only [fieldsOf, makeTime]
    omega

/-- Which times lie before a year. -/
theorem year_fieldsOf_lt_iff (t y : ℤ) :
    (fieldsOf t).year < y ↔ t < yearStart y * 86400000 := by
  have hd := yearOf_bounds (t / 86400000)
  show yearOf (t / 86400000) < y ↔ _
  constructor
  · intro h
    have := yearStart_lt_of_lt h
    omega
  · intro h
    by_contra hle
    rcases Int.lt_or_eq_of_le (Int.not_lt.mp hle) with hlt | heq
    · have := yearStart_lt_of_lt hlt
      have := yearStart_succ y
      unfold yearLength at this
      split_ifs at this <;> omega
    · rw [heq] at h
      omega

end Gregorian
