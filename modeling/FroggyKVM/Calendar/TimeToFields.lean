/-
# FroggyKVM.Calendar.TimeToFields — `timeToFields` finds the date of the day.
-/
import FroggyKVM.Calendar.CalendarImpl
import FroggyKVM.Calendar.HybridDate

namespace FroggyKVM.Calendar

/-! ## Floor division -/

/-- Truncated division of the successor, from below zero. -/
theorem tdiv_succ_of_neg {n d : Int} (hn : n < 0) (hd : 0 < d) : (n + 1).tdiv d - 1 = n / d := by
  obtain ⟨m, rfl⟩ := Int.eq_negSucc_of_lt_zero hn
  have hsucc : Int.negSucc m + 1 = -(m : Int) := by omega
  have hfloor : Int.negSucc m / d = -((m : Int) / d + 1) := Int.negSucc_ediv m hd
  rw [hsucc, Int.neg_tdiv, hfloor, Int.tdiv_eq_ediv_of_nonneg (Int.natCast_nonneg m)]
  omega

theorem floorDivide_eq (n : Int) {d : Int} (hd : 0 < d) : floorDivide n d = n / d := by
  unfold floorDivide
  split
  · exact Int.tdiv_eq_ediv_of_nonneg (by assumption)
  · exact tdiv_succ_of_neg (by omega) hd

theorem floorDivideInt_eq {n : Int} (d : Int) (hn : 0 ≤ n) : floorDivideInt n d = (n / d, n % d) := by
  unfold floorDivideInt
  rw [if_pos hn, Int.tdiv_eq_ediv_of_nonneg hn, Int.tmod_eq_emod_of_nonneg hn]

theorem i32_i64 (x : Int) : i32 (i64 x) = i32 x := by
  unfold i32 i64
  exact Int.bmod_bmod_of_dvd (by omega)

/-- The remainder is exact though the quotient may not be. -/
theorem floorDivideLong_eq (n : Int) {d : Int} (hd : 0 < d) (hd' : d < 2147483648) :
    floorDivideLong n d = (i32 (n / d), n % d) := by
  have hlow := Int.emod_nonneg n (show d ≠ 0 by omega)
  have hhigh := Int.emod_lt_of_pos n hd
  have hrem : i32 (n % d) = n % d := i32_of_range (by omega)
  unfold floorDivideLong
  split
  · rename_i hn
    rw [Int.tdiv_eq_ediv_of_nonneg hn, Int.tmod_eq_emod_of_nonneg hn, hrem]
  · rw [tdiv_succ_of_neg (by omega) hd]
    have hsub : i32 (n - i32 (i32 (n / d) * d)) = i32 (n - n / d * d) := by
      unfold i32
      rw [Int.bmod_mul_bmod, Int.sub_bmod_bmod]
    have hdiv : n - n / d * d = n % d := by
      have := Int.mul_ediv_add_emod n d
      rw [Int.mul_comm] at this
      omega
    simp only [i32_i64, hsub, hdiv, hrem]

theorem millisToJulianDay_eq (millis : Int) :
    millisToJulianDay millis = 2440588 + millis / 86400000 := by
  rw [millisToJulianDay, floorDivide_eq _ (by decide)]
  rfl

/-! ## The year -/

/-- A day of a year in the calendar of `rule`, from 1 January on. -/
structure DayOf (rule : YearRule) (year dayOfYear epochDay : Int) : Prop where
  year_pos : 1 ≤ year
  year_lt : year < 2147483648
  lower : 0 ≤ dayOfYear
  upper : dayOfYear < if rule.leap year then 366 else 365
  epochDay_eq : epochDay = rule.days (year - 1) + dayOfYear

/-- The cycles of 400, 100, 4 years and of one year in the years before `year`. -/
structure Cycles (year n400 n100 n4 n1 : Int) : Prop where
  year_eq : year = 400 * n400 + 100 * n100 + 4 * n4 + n1 + 1
  n400_pos : 0 ≤ n400
  n100_in : 0 ≤ n100 ∧ n100 ≤ 3
  n4_in : 0 ≤ n4 ∧ n4 ≤ 24
  n1_in : 0 ≤ n1 ∧ n1 ≤ 3

theorem cycles_exist {year : Int} (h : 1 ≤ year) : ∃ n400 n100 n4 n1, Cycles year n400 n100 n4 n1 :=
  ⟨(year - 1) / 400, (year - 1) % 400 / 100, (year - 1) % 100 / 4, (year - 1) % 4,
    by omega, by omega, by omega, by omega, by omega⟩

theorem Cycles.days {year n400 n100 n4 n1 : Int} (h : Cycles year n400 n100 n4 n1) :
    gregorian.days (year - 1) = 146097 * n400 + 36524 * n100 + 1461 * n4 + 365 * n1 := by
  obtain ⟨heq, h₀, h₁, h₂, h₃⟩ := h
  unfold gregorian
  simp only
  omega

theorem Cycles.leap {year n400 n100 n4 n1 : Int} (h : Cycles year n400 n100 n4 n1) :
    gregorian.leap year = true ↔ n1 = 3 ∧ (n4 ≠ 24 ∨ n100 = 3) := by
  obtain ⟨heq, h₀, h₁, h₂, h₃⟩ := h
  unfold gregorian
  simp only [decide_eq_true_eq]
  omega

/-- A quotient and a remainder, from the sum they make. -/
theorem ediv_emod_of_eq {n d q r : Int} (h : n = d * q + r) (hr : 0 ≤ r) (hr' : r < d) :
    n / d = q ∧ n % d = r := by
  rw [h]
  constructor
  · rw [Int.mul_add_ediv_left _ _ (by omega), Int.ediv_eq_zero_of_lt hr hr', Int.add_zero]
  · rw [Int.mul_add_emod_self_left, Int.emod_eq_of_lt hr hr']

/-- The places of a day: on the last day of a leap year the place of a year or of a century is 4. -/
theorem Cycles.places {year n400 n100 n4 n1 dayOfYear day : Int} (h : Cycles year n400 n100 n4 n1)
    (hlower : 0 ≤ dayOfYear) (hupper : dayOfYear < if gregorian.leap year then 366 else 365)
    (hday : day = gregorian.days (year - 1) + dayOfYear) :
    let n := day % 146097 / 36524
    let m := day % 146097 % 36524 % 1461 / 365
    let cycles := 400 * (day / 146097) + 100 * n + 4 * (day % 146097 % 36524 / 1461) + m
    (¬ (n = 4 ∨ m = 4) ∧ cycles + 1 = year ∧ day % 146097 % 36524 % 1461 % 365 = dayOfYear) ∨
      ((n = 4 ∨ m = 4) ∧ cycles = year ∧ dayOfYear = 365) := by
  intro n m cycles
  rw [h.days] at hday
  have hleap := h.leap
  obtain ⟨hyear, h₀, h₁, h₂, h₃⟩ := h
  have hcycles : ∀ {a b c d : Int}, day / 146097 = a → n = b →
      day % 146097 % 36524 / 1461 = c → m = d → cycles = 400 * a + 100 * b + 4 * c + d := by
    rintro _ _ _ _ rfl rfl rfl rfl
    rfl
  by_cases hlast : dayOfYear < 365
  · left
    have hne : n100 ≠ 4 ∧ n1 ≠ 4 := by lia
    have hbound₁ : 36524 * n100 + (1461 * n4 + (365 * n1 + dayOfYear)) < 146097 := by omega
    have hbound₂ : 1461 * n4 + (365 * n1 + dayOfYear) < 36524 := by lia
    have hbound₃ : 365 * n1 + dayOfYear < 1461 := by omega
    obtain ⟨hq₀, hr₀⟩ := ediv_emod_of_eq (show day = 146097 * n400 +
      (36524 * n100 + (1461 * n4 + (365 * n1 + dayOfYear))) by omega) (by omega) hbound₁
    obtain ⟨hq₁, hr₁⟩ := ediv_emod_of_eq hr₀ (by clear hq₀ hr₀; lia) hbound₂
    obtain ⟨hq₂, hr₂⟩ := ediv_emod_of_eq hr₁ (by clear hq₀ hr₀ hq₁ hr₁; omega) hbound₃
    obtain ⟨hq₃, hr₃⟩ := ediv_emod_of_eq hr₂ hlower hlast
    refine ⟨?_, by rw [hcycles hq₀ hq₁ hq₂ hq₃, hyear], hr₃⟩
    rintro (hn | hm)
    · exact hne.1 (hq₁.symm.trans hn)
    · exact hne.2 (hq₃.symm.trans hm)
  have hleapYear : gregorian.leap year = true := by
    by_contra hno
    rw [if_neg hno] at hupper
    exact hlast hupper
  rw [if_pos hleapYear] at hupper
  obtain ⟨hthree, hshort⟩ := hleap.1 hleapYear
  have hday365 : dayOfYear = 365 := le_antisymm (Int.lt_add_one_iff.1 hupper) (not_lt.1 hlast)
  right
  by_cases hcentury : n4 = 24
  · -- the last day of 400 years
    have hyear' : 400 * n400 + 100 * 4 + 4 * 0 + 0 = year := by omega
    obtain ⟨hq₀, hr₀⟩ := ediv_emod_of_eq (show day = 146097 * n400 + 146096 by lia) (by decide)
      (by decide)
    have hn : n = 4 := congrArg (· / 36524) hr₀
    have hm : m = 0 := congrArg (· % 36524 % 1461 / 365) hr₀
    exact ⟨.inl hn, (hcycles hq₀ hn (congrArg (· % 36524 / 1461) hr₀) hm).trans hyear', hday365⟩
  · -- the last day of four years
    have hyear' : 400 * n400 + 100 * n100 + 4 * n4 + 4 = year := by lia
    have hbound₁ : 36524 * n100 + (1461 * n4 + 1460) < 146097 := by omega
    have hbound₂ : 1461 * n4 + 1460 < 36524 := by omega
    obtain ⟨hq₀, hr₀⟩ := ediv_emod_of_eq (show day = 146097 * n400 +
      (36524 * n100 + (1461 * n4 + 1460)) by omega) (by omega) hbound₁
    obtain ⟨hq₁, hr₁⟩ := ediv_emod_of_eq hr₀ (by clear hq₀ hr₀; omega) hbound₂
    obtain ⟨hq₂, hr₂⟩ := ediv_emod_of_eq hr₁ (by decide) (by decide)
    have hm : m = 4 := congrArg (· / 365) hr₂
    exact ⟨.inr hm, (hcycles hq₀ hq₁ hq₂ hm).trans hyear', hday365⟩

theorem gregorianYearDay_eq {theTime year dayOfYear : Int}
    (h : DayOf gregorian year dayOfYear (2440588 + theTime / 86400000 - 1721426)) :
    gregorianYearDay theTime = ⟨year, dayOfYear, gregorian.leap year,
      (2440588 + theTime / 86400000 - 1721426 + 1) % 7⟩ := by
  obtain ⟨hpos, hlt, hlower, hupper, heq⟩ := h
  obtain ⟨n400, n100, n4, n1, hc⟩ := cycles_exist hpos
  have hplaces := hc.places hlower hupper heq
  have hdays := hc.days
  obtain ⟨hyear, h₀, h₁, h₂, h₃⟩ := hc
  unfold gregorianYearDay
  rw [millisToJulianDay_eq]
  unfold jan11JulianDay
  generalize 2440588 + theTime / 86400000 - 1721426 = day at *
  have hday : 0 ≤ day := by omega
  have hquotient : i32 (day / 146097) = day / 146097 := by
    apply i32_of_range
    split at hupper <;> lia
  have hdow : i32 ((day + 1).tmod 7) = (day + 1) % 7 := by
    rw [Int.tmod_eq_emod_of_nonneg (by omega)]
    exact i32_of_range (by omega)
  simp only [floorDivideLong_eq day (show (0 : Int) < 146097 by omega) (by omega), hquotient, hdow,
    floorDivideInt_eq 36524 (show 0 ≤ day % 146097 by omega),
    floorDivideInt_eq 1461 (show 0 ≤ day % 146097 % 36524 by omega),
    floorDivideInt_eq 365 (show 0 ≤ day % 146097 % 36524 % 1461 by omega)]
  have hleap : decide (year % 4 = 0 ∧ (year.tmod 100 ≠ 0 ∨ year.tmod 400 = 0)) =
      gregorian.leap year := by
    rw [Int.tmod_eq_emod_of_nonneg (by lia), Int.tmod_eq_emod_of_nonneg (by lia)]
    rfl
  rcases hplaces with ⟨hlast, hcycles, hrem⟩ | ⟨hlast, hcycles, hrem⟩
  · have hraw := i32_of_range (show -2147483648 ≤ year ∧ year < 2147483648 by omega)
    rw [← hcycles] at hraw
    have hprev : i32 (year - 1) = year - 1 := i32_of_range (by lia)
    rw [← hcycles, Int.add_sub_cancel] at hprev
    simp only [hlast, decide_false, Bool.false_eq_true, if_false, hprev, hraw, hrem]
    rw [hcycles, hleap]
  · have hraw : i32 year = year := i32_of_range (by lia)
    simp only [hlast, decide_true, if_true, hcycles, hraw, hrem, hleap]

theorem julianYearDay_eq {theTime year dayOfYear : Int} (hshort : year ≤ 1582)
    (h : DayOf julian year dayOfYear (2440588 + theTime / 86400000 - 1721424)) :
    julianYearDay theTime = ⟨year, dayOfYear, julian.leap year,
      (2440588 + theTime / 86400000 - 1721424 - 1).tmod 7⟩ := by
  obtain ⟨hpos, -, hlower, hupper, heq⟩ := h
  unfold julianYearDay
  rw [millisToJulianDay_eq]
  unfold jan11JulianDay
  rw [show (1721426 : Int) - 2 = 1721424 by omega]
  generalize 2440588 + theTime / 86400000 - 1721424 = day at *
  unfold julian at hupper heq
  simp only [decide_eq_true_eq] at hupper heq
  have hraw : floorDivide (4 * day + 1464) 1461 = year := by
    rw [floorDivide_eq _ (by omega)]
    split at hupper <;> lia
  have hyear : i32 year = year := i32_of_range (by omega)
  have hbefore : i32 (year - 1) = year - 1 := i32_of_range (by omega)
  have hproduct : i32 (365 * (year - 1)) = 365 * (year - 1) := i32_of_range (by lia)
  have hjanuary1 : i32 (365 * (year - 1) + floorDivide (year - 1) 4) =
      365 * (year - 1) + (year - 1) / 4 := by
    rw [floorDivide_eq _ (by omega)]
    exact i32_of_range (by lia)
  have hrem : i32 (day - (365 * (year - 1) + (year - 1) / 4)) = dayOfYear := by
    have hsub : day - (365 * (year - 1) + (year - 1) / 4) = dayOfYear := by omega
    rw [hsub]
    apply i32_of_range
    split at hupper <;> lia
  have hdow : i32 ((day - 1).tmod 7) = (day - 1).tmod 7 := by
    apply i32_of_range
    have hlow := Int.lt_tmod_of_pos (day - 1) (show (0 : Int) < 7 by omega)
    have hhigh := Int.tmod_lt_of_pos (day - 1) (show (0 : Int) < 7 by omega)
    omega
  simp only [hraw, hyear, hbefore, hproduct, hjanuary1, hrem, hdow]
  rfl

/-! ## The month -/

theorem elementAt_monthStart (leap : Bool) {month : Nat} (h : month < 12) :
    elementAt (if leap then leapNumDays else numDays) month = some (monthStart leap month) := by
  revert leap month
  decide

/-- The month of a day of the year, by a line through the months from March on. -/
theorem monthField_eq (leap : Bool) {month : Nat} {day : Int} (hm : month < 12) (h : 1 ≤ day)
    (h' : day ≤ monthLength leap month) : monthField (monthStart leap month + (day - 1)) leap = month := by
  have hwrap : ∀ k : Int, 0 ≤ k → k < 368 → (i32 (12 * k + 6)).tdiv 367 = (12 * k + 6) / 367 := by
    intro k hk hk'
    rw [i32_of_range (by omega), Int.tdiv_eq_ediv_of_nonneg (by omega)]
  unfold monthField
  cases leap <;> interval_cases month <;>
    simp [monthStart, monthLength, monthLengths] at h' ⊢
  all_goals
    split <;> rw [hwrap _ (by lia) (by lia)] <;> lia

/-! ## The date -/

/-- A date is a day of its year. -/
theorem dayOf_valid {rule : YearRule} {year day epochDay : Int} {month : Nat} (hpos : 1 ≤ year)
    (hlt : year < 2147483648) (h : rule.Valid year month day)
    (heq : epochDay + 1 = rule.dayNumber year month day) :
    DayOf rule year (monthStart (rule.leap year) month + (day - 1)) epochDay := by
  have hmonth := h.in_month
  obtain ⟨hm, hfirst, -⟩ := h
  have hstart := monthStart_mono (rule.leap year) (Nat.zero_le month) (by omega)
  have hzero : monthStart (rule.leap year) 0 = 0 := rfl
  have hend := monthStart_mono (rule.leap year) (show month + 1 ≤ 12 by omega) (Nat.le_refl _)
  rw [monthStart_twelve] at hend
  unfold YearRule.dayNumber at hmonth heq
  exact ⟨hpos, hlt, by omega, by omega, by omega⟩

theorem normalizeDayOfWeek_eq {day : Int} (h : -7 < day ∧ day < 7) :
    normalizeDayOfWeek day = day % 7 + 1 := by
  unfold normalizeDayOfWeek sunday
  split <;> omega

/-- The day of the week of a Julian day. -/
def weekday (julianDay : Int) : Int := (julianDay + 1) % 7 + 1

/-- Either branch finds the day of the year in its calendar. -/
theorem yearDay_eq {d : Date} {theTime : Int} (hd : d.Exists) (hyear : d.year < 2147483648)
    (htime : 2440588 + theTime / 86400000 = d.julianDay) :
    ∃ w, (if gregorianCutover ≤ theTime then gregorianYearDay theTime else julianYearDay theTime) =
        ⟨d.year, monthStart (d.rule.leap d.year) d.month + (d.day - 1), d.rule.leap d.year, w⟩ ∧
      normalizeDayOfWeek w = weekday d.julianDay := by
  have hvalid := hd.valid
  have hpos := hd.year_pos
  have hfirst := hd.first_le
  have hcutover : gregorianCutover ≤ theTime ↔ d.IsGregorian := by
    rw [hd.isGregorian_iff, ← htime]
    unfold gregorianCutover
    omega
  unfold weekday
  by_cases hg : d.IsGregorian
  · have hjulian := Date.julianDay_of_gregorian hg
    rw [Date.rule_of_gregorian hg] at hvalid ⊢
    rw [if_pos (hcutover.2 hg), gregorianYearDay_eq (dayOf_valid hpos hyear hvalid (by omega))]
    refine ⟨_, rfl, ?_⟩
    rw [normalizeDayOfWeek_eq (by omega)]
    omega
  · have hjulian := Date.julianDay_of_julian hg
    have hshort : d.year ≤ 1582 := by
      unfold Date.IsGregorian at hg
      omega
    rw [Date.rule_of_julian hg] at hvalid ⊢
    rw [if_neg (mt hcutover.1 hg),
      julianYearDay_eq hshort (dayOf_valid hpos hyear hvalid (by omega))]
    refine ⟨_, rfl, ?_⟩
    -- the first day of year 1 leaves the remainder -1
    have hlow := Int.lt_tmod_of_pos (2440588 + theTime / 86400000 - 1721424 - 1)
      (show (0 : Int) < 7 by omega)
    have hhigh := Int.tmod_lt_of_pos (2440588 + theTime / 86400000 - 1721424 - 1)
      (show (0 : Int) < 7 by omega)
    have hrem := Int.tmod_add_mul_tdiv (2440588 + theTime / 86400000 - 1721424 - 1) 7
    rw [normalizeDayOfWeek_eq (by omega)]
    omega

/-- The fields of a date. -/
def Fields.setDate (fields : Fields) (d : Date) : Fields :=
  { fields with year := d.year, month := d.month, date := d.day, dayOfWeek := weekday d.julianDay }

/-- **`timeToFields` finds the date whose day the time is on.** -/
theorem timeToFields_eq {d : Date} {theTime : Int} (hd : d.Exists) (hyear : d.year < 2147483648)
    (htime : 2440588 + theTime / 86400000 = d.julianDay) (fields : Fields) :
    timeToFields fields theTime = some (fields.setDate d) := by
  obtain ⟨w, hday, hdow⟩ := yearDay_eq hd hyear htime
  have hpos := hd.year_pos
  obtain ⟨hmonth, hfirst, hlast⟩ := hd.valid
  have hlength := monthLength_le (d.rule.leap d.year) d.month
  have hdate : i32 d.day = d.day := i32_of_range (by omega)
  unfold timeToFields Fields.setDate
  rw [hday]
  simp only [monthField_eq _ hmonth hfirst hlast, elementAt_monthStart _ hmonth, hdow,
    if_neg (show ¬ d.year < 1 by omega)]
  simp [january, hdate]

end FroggyKVM.Calendar
