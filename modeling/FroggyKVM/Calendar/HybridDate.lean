/-
# FroggyKVM.Calendar.HybridDate — the hybrid Julian/Gregorian calendar.

4 October 1582 (Julian) is followed by 15 October 1582 (Gregorian).  A day has a Julian day number;
it determines the date.
-/
import FroggyKVM.Lib.Years

namespace FroggyKVM.Calendar

/-- A date; January is month 0. -/
structure Date where
  year : Int
  month : Nat
  day : Int
  deriving DecidableEq

namespace Date

/-- From 15 October 1582 on. -/
def IsGregorian (d : Date) : Prop :=
  1582 < d.year ∨ d.year = 1582 ∧ (9 < d.month ∨ d.month = 9 ∧ 15 ≤ d.day)

instance (d : Date) : Decidable d.IsGregorian := by
  unfold IsGregorian
  infer_instance

/-- The leap years the date is read with. -/
def rule (d : Date) : YearRule := if d.IsGregorian then gregorian else julian

/-- Julian day 0 of the calendar the date is read in. -/
def origin (d : Date) : Int := if d.IsGregorian then 1721425 else 1721423

/-- The Julian day number. -/
def julianDay (d : Date) : Int := d.origin + d.rule.dayNumber d.year d.month d.day

/-- The date exists, and its year is positive. -/
structure Exists (d : Date) : Prop where
  year_pos : 1 ≤ d.year
  valid : d.rule.Valid d.year d.month d.day
  not_skipped : ¬ (d.year = 1582 ∧ d.month = 9 ∧ 5 ≤ d.day ∧ d.day < 15)

instance (d : Date) : Decidable d.Exists :=
  decidable_of_iff (1 ≤ d.year ∧ d.rule.Valid d.year d.month d.day ∧
      ¬ (d.year = 1582 ∧ d.month = 9 ∧ 5 ≤ d.day ∧ d.day < 15))
    ⟨fun h => ⟨h.1, h.2.1, h.2.2⟩, fun h => ⟨h.1, h.2, h.3⟩⟩

variable {d d' : Date}

/-! ## The two halves -/

theorem rule_of_gregorian (h : d.IsGregorian) : d.rule = gregorian := if_pos h

theorem rule_of_julian (h : ¬ d.IsGregorian) : d.rule = julian := if_neg h

theorem julianDay_of_gregorian (h : d.IsGregorian) :
    d.julianDay = 1721425 + gregorian.dayNumber d.year d.month d.day := by
  rw [julianDay, rule_of_gregorian h, origin, if_pos h]

theorem julianDay_of_julian (h : ¬ d.IsGregorian) :
    d.julianDay = 1721423 + julian.dayNumber d.year d.month d.day := by
  rw [julianDay, rule_of_julian h, origin, if_neg h]

/-- A Gregorian date comes no earlier than 15 October 1582. -/
theorem Exists.cutover_le (h : d.Exists) (hg : d.IsGregorian) : 2299161 ≤ d.julianDay := by
  have hvalid := h.valid
  rw [rule_of_gregorian hg] at hvalid
  rw [julianDay_of_gregorian hg]
  have hyear := hvalid.in_year
  have hmonth := hvalid.in_month
  have hdays : gregorian.days 1582 = 577813 ∧ gregorian.days 1581 = 577448 := by decide
  have hstart : monthStart (gregorian.leap 1582) 9 = 273 := by decide
  have hnext : monthStart (gregorian.leap 1582) 10 = 304 := by decide
  rcases hg with hlate | ⟨heq, hlate | ⟨hm, hd⟩⟩
  · have hmono := gregorian.days_mono (show 1582 ≤ d.year - 1 by omega)
    lia
  · have hm := hvalid.1
    have hmono := monthStart_mono (gregorian.leap 1582) (show 10 ≤ d.month by omega) (by omega)
    rw [heq] at hmonth ⊢
    rw [show (1582 : Int) - 1 = 1581 by omega] at hmonth
    omega
  · rw [heq, hm]
    unfold YearRule.dayNumber
    rw [show (1582 : Int) - 1 = 1581 by omega]
    omega

/-- A Julian date comes no later than 4 October 1582. -/
theorem Exists.lt_cutover (h : d.Exists) (hj : ¬ d.IsGregorian) : d.julianDay < 2299161 := by
  have hvalid := h.valid
  rw [rule_of_julian hj] at hvalid
  rw [julianDay_of_julian hj]
  have hyear := hvalid.in_year
  have hmonth := hvalid.in_month
  have hdays : julian.days 1581 = 577460 := by decide
  have hstart : monthStart (julian.leap 1582) 9 = 273 := by decide
  have hskipped := h.not_skipped
  unfold IsGregorian at hj
  rcases lt_or_eq_of_le (show d.year ≤ 1582 by omega) with hearly | heq
  · have hmono := julian.days_mono (show d.year ≤ 1581 by omega)
    omega
  rw [heq] at hmonth ⊢
  rw [show (1582 : Int) - 1 = 1581 by omega] at hmonth
  rcases lt_or_eq_of_le (show d.month ≤ 9 by omega) with hearly | hm
  · have hmono := monthStart_mono (julian.leap 1582) (show d.month + 1 ≤ 9 by omega) (by omega)
    omega
  · rw [hm]
    unfold YearRule.dayNumber
    rw [show (1582 : Int) - 1 = 1581 by omega]
    omega

theorem Exists.isGregorian_iff (h : d.Exists) : d.IsGregorian ↔ 2299161 ≤ d.julianDay := by
  constructor
  · exact h.cutover_le
  · intro hlate
    by_contra hj
    have := h.lt_cutover hj
    omega

/-- Year 1 begins on Julian day 1721424. -/
theorem Exists.first_le (h : d.Exists) : 1721424 ≤ d.julianDay := by
  have hpos := h.year_pos
  by_cases hg : d.IsGregorian
  · have := h.cutover_le hg
    omega
  · have hvalid := h.valid
    rw [rule_of_julian hg] at hvalid
    rw [julianDay_of_julian hg]
    have hyear := hvalid.in_year
    have hmono := julian.days_mono (show 0 ≤ d.year - 1 by omega)
    have hzero : julian.days 0 = 0 := by decide
    omega

/-! ## The next date -/

/-- The date after `d`. -/
def next (d : Date) : Date :=
  if d = ⟨1582, 9, 4⟩ then ⟨1582, 9, 15⟩
  else if d.day < monthLength (d.rule.leap d.year) d.month then { d with day := d.day + 1 }
  else if d.month < 11 then ⟨d.year, d.month + 1, 1⟩
  else ⟨d.year + 1, 0, 1⟩

/-- The ways to the next date. -/
theorem Exists.next_cases (h : d.Exists) :
    (d = ⟨1582, 9, 4⟩ ∧ d.next = ⟨1582, 9, 15⟩) ∨
    (d ≠ ⟨1582, 9, 4⟩ ∧ d.day + 1 ≤ monthLength (d.rule.leap d.year) d.month ∧
      d.next = ⟨d.year, d.month, d.day + 1⟩) ∨
    (d ≠ ⟨1582, 9, 4⟩ ∧ d.day = monthLength (d.rule.leap d.year) d.month ∧ d.month < 11 ∧
      d.next = ⟨d.year, d.month + 1, 1⟩) ∨
    (d ≠ ⟨1582, 9, 4⟩ ∧ d.day = monthLength (d.rule.leap d.year) d.month ∧ d.month = 11 ∧
      d.next = ⟨d.year + 1, 0, 1⟩) := by
  obtain ⟨hmonth, -, hday⟩ := h.valid
  by_cases hlast : d = ⟨1582, 9, 4⟩
  · left
    exact ⟨hlast, by rw [next, if_pos hlast]⟩
  by_cases hin : d.day < monthLength (d.rule.leap d.year) d.month
  · right; left
    exact ⟨hlast, by omega, by rw [next, if_neg hlast, if_pos hin]⟩
  by_cases hdec : d.month < 11
  · right; right; left
    exact ⟨hlast, by omega, hdec, by rw [next, if_neg hlast, if_neg hin, if_pos hdec]⟩
  · right; right; right
    exact ⟨hlast, by omega, by omega, by rw [next, if_neg hlast, if_neg hin, if_neg hdec]⟩

/-- But for the cutover, the next date is read in the same calendar. -/
theorem Exists.next_isGregorian (h : d.Exists) (hlast : d ≠ ⟨1582, 9, 4⟩) :
    d.next.IsGregorian ↔ d.IsGregorian := by
  have hskipped := h.not_skipped
  obtain ⟨-, hpos, -⟩ := h.valid
  have hdate : ¬ (d.year = 1582 ∧ d.month = 9 ∧ d.day = 4) := by
    obtain ⟨year, month, day⟩ := d
    simpa using hlast
  -- no month ends at the cutover
  have hlength : d.year = 1582 → d.month = 9 →
      monthLength (d.rule.leap d.year) d.month = 31 := by
    intro _ hm
    rw [hm]
    cases d.rule.leap d.year <;> rfl
  rcases h.next_cases with ⟨heq, -⟩ | ⟨-, hin, heq⟩ | ⟨-, hend, hdec, heq⟩ | ⟨-, hend, hdec, heq⟩
  · exact absurd heq hlast
  all_goals
    rw [heq]
    unfold IsGregorian
    simp only
    omega

theorem Exists.next_rule (h : d.Exists) (hlast : d ≠ ⟨1582, 9, 4⟩) :
    d.next.rule = d.rule ∧ d.next.origin = d.origin := by
  unfold rule origin
  simp only [h.next_isGregorian hlast, and_self]

/-- The next date exists. -/
theorem Exists.next (h : d.Exists) : d.next.Exists := by
  have hpos := h.year_pos
  have hskipped := h.not_skipped
  obtain ⟨hmonth, hday, -⟩ := h.valid
  rcases h.next_cases with ⟨-, heq⟩ | ⟨hlast, hin, heq⟩ | ⟨hlast, hend, hdec, heq⟩ |
    ⟨hlast, hend, hdec, heq⟩
  · rw [heq]
    decide
  all_goals
    have hrule := (h.next_rule hlast).1
    rw [heq] at hrule ⊢
  · refine ⟨hpos, ⟨hmonth, ?_, ?_⟩, ?_⟩
    · simp only; omega
    · rw [hrule]
      exact hin
    · have hdate : ¬ (d.year = 1582 ∧ d.month = 9 ∧ d.day = 4) := by
        obtain ⟨year, month, day⟩ := d
        simpa using hlast
      simp only
      omega
  · refine ⟨hpos, ⟨by simp only; omega, by simp only; omega, ?_⟩, by simp only; omega⟩
    exact monthLength_pos _ (by simp only; omega)
  · refine ⟨by simp only; omega, ⟨by simp only; omega, by simp only; omega, ?_⟩, by simp only; omega⟩
    exact monthLength_pos _ (by simp only; omega)

/-- **Consecutive dates have consecutive Julian day numbers.** -/
theorem Exists.julianDay_next (h : d.Exists) : d.next.julianDay = d.julianDay + 1 := by
  rcases h.next_cases with ⟨hcut, heq⟩ | ⟨hlast, hin, heq⟩ | ⟨hlast, hend, hdec, heq⟩ |
    ⟨hlast, hend, hdec, heq⟩
  · rw [heq, hcut]
    decide
  all_goals
    obtain ⟨hrule, horigin⟩ := h.next_rule hlast
    unfold julianDay
    rw [hrule, horigin, heq]
  · unfold YearRule.dayNumber
    simp only
    omega
  · have hmonth := d.rule.dayNumber_next_month d.year (show d.month < 12 by omega)
    rw [hend]
    simp only
    omega
  · have hyear := d.rule.dayNumber_next_year d.year
    rw [hend, hdec]
    simp only
    omega

end Date

end FroggyKVM.Calendar
