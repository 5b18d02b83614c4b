/-
# FroggyKVM.Lib.Years — the years and months of the Julian and of the Gregorian calendar.

A calendar is a rule for leap years together with the number of days in its first years.  A date has
a number, counted from the first day of the first year; it determines the date.
-/
import Mathlib

namespace FroggyKVM

/-! ## Years -/

/-- A rule for leap years, and the number of days in the first `y` years. -/
structure YearRule where
  leap : Int → Bool
  days : Int → Int
  days_eq : ∀ y, days y = days (y - 1) + if leap y then 366 else 365

/-- Every fourth year is a leap year. -/
def julian : YearRule where
  leap y := y % 4 = 0
  days y := 365 * y + y / 4
  days_eq y := by
    simp only [decide_eq_true_eq]
    split <;> omega

/-- Of the centuries, every fourth is a leap year. -/
def gregorian : YearRule where
  leap y := y % 4 = 0 ∧ (y % 100 ≠ 0 ∨ y % 400 = 0)
  days y := 365 * y + y / 4 - y / 100 + y / 400
  days_eq y := by
    simp only [decide_eq_true_eq]
    split <;> lia

namespace YearRule

variable (rule : YearRule)

theorem days_mono : Monotone rule.days := by
  apply monotone_int_of_le_succ
  intro y
  have hstep := rule.days_eq (y + 1)
  rw [Int.add_sub_cancel] at hstep
  rw [hstep]
  split <;> omega

end YearRule

/-! ## Months -/

/-- The lengths of the months, from January on. -/
def monthLengths (leap : Bool) : List Int :=
  [31, if leap then 29 else 28, 31, 30, 31, 30, 31, 31, 30, 31, 30, 31]

/-- The length of a month; January is month 0. -/
def monthLength (leap : Bool) (month : Nat) : Int := (monthLengths leap).getD month 0

/-- The number of days of the year before a month. -/
def monthStart (leap : Bool) (month : Nat) : Int := ((monthLengths leap).take month).sum

theorem monthStart_succ (leap : Bool) {month : Nat} (h : month < 12) :
    monthStart leap (month + 1) = monthStart leap month + monthLength leap month := by
  revert leap month
  decide

theorem monthStart_twelve (leap : Bool) : monthStart leap 12 = if leap then 366 else 365 := by
  cases leap <;> rfl

theorem monthLength_pos (leap : Bool) {month : Nat} (h : month < 12) : 1 ≤ monthLength leap month := by
  revert leap month
  decide

theorem monthLength_le (leap : Bool) (month : Nat) : monthLength leap month ≤ 31 := by
  by_cases h : month < 12
  · revert leap month
    decide
  · have hzero : monthLength leap month = 0 := by
      unfold monthLength monthLengths
      exact List.getD_eq_default _ _ (by simp only [List.length_cons, List.length_nil]; omega)
    omega

theorem monthStart_mono (leap : Bool) {month month' : Nat} (h : month ≤ month') (h' : month' ≤ 12) :
    monthStart leap month ≤ monthStart leap month' := by
  induction month', h using Nat.le_induction with
  | base => exact Int.le_refl _
  | succ n hle ih =>
    have hlength := monthLength_pos leap (show n < 12 by omega)
    rw [monthStart_succ leap (by omega)]
    have := ih (by omega)
    omega

/-! ## Dates -/

namespace YearRule

variable (rule : YearRule) {year year' day day' : Int} {month month' : Nat}

/-- The date exists. -/
def Valid (year : Int) (month : Nat) (day : Int) : Prop :=
  month < 12 ∧ 1 ≤ day ∧ day ≤ monthLength (rule.leap year) month

instance (year : Int) (month : Nat) (day : Int) : Decidable (rule.Valid year month day) := by
  unfold Valid
  infer_instance

/-- The number of a date; the first day of year 1 has number 1. -/
def dayNumber (year : Int) (month : Nat) (day : Int) : Int :=
  rule.days (year - 1) + monthStart (rule.leap year) month + day

variable {rule}

theorem Valid.in_month (h : rule.Valid year month day) :
    monthStart (rule.leap year) month < rule.dayNumber year month day - rule.days (year - 1) ∧
      rule.dayNumber year month day - rule.days (year - 1) ≤ monthStart (rule.leap year) (month + 1) := by
  obtain ⟨hm, h₁, h₂⟩ := h
  rw [monthStart_succ _ hm]
  unfold dayNumber
  omega

theorem Valid.in_year (h : rule.Valid year month day) :
    rule.days (year - 1) < rule.dayNumber year month day ∧
      rule.dayNumber year month day ≤ rule.days year := by
  have hm := h.1
  have hmonth := h.in_month
  have hstart := monthStart_mono (rule.leap year) (Nat.zero_le month) (by omega)
  have hend := monthStart_mono (rule.leap year) (show month + 1 ≤ 12 by omega) (Nat.le_refl _)
  have hzero : monthStart (rule.leap year) 0 = 0 := by
    unfold monthStart
    rfl
  rw [monthStart_twelve] at hend
  have hdays := rule.days_eq year
  omega

/-- The first day of a month comes after the last day of the month before. -/
theorem dayNumber_next_month (rule : YearRule) (year : Int) (hm : month < 12) :
    rule.dayNumber year (month + 1) 1 =
      rule.dayNumber year month (monthLength (rule.leap year) month) + 1 := by
  unfold dayNumber
  rw [monthStart_succ _ hm]
  omega

/-- The first day of a year comes after the last day of the year before. -/
theorem dayNumber_next_year (rule : YearRule) (year : Int) :
    rule.dayNumber (year + 1) 0 1 =
      rule.dayNumber year 11 (monthLength (rule.leap year) 11) + 1 := by
  have hdays := rule.days_eq year
  have hlast : monthStart (rule.leap year) 12 =
      monthStart (rule.leap year) 11 + monthLength (rule.leap year) 11 :=
    monthStart_succ _ (by omega)
  rw [monthStart_twelve] at hlast
  have hzero : monthStart (rule.leap (year + 1)) 0 = 0 := rfl
  unfold dayNumber
  rw [hzero, Int.add_sub_cancel, hdays, hlast]
  omega

end YearRule

end FroggyKVM
