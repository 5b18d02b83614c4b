/-
# FroggyKVM.Calendar.RoundTrip — the fields of a calendar and its time determine each other.

In a time zone with a constant offset, as long as local time and UTC both fit in a long.
-/
import FroggyKVM.Calendar.TimeToFields

namespace FroggyKVM.Calendar

/-! ## Dates and times of day -/

/-- There is a date for every day from year 1 on. -/
theorem Date.exists_julianDay {julianDay : Int} (h : 1721424 ≤ julianDay) :
    ∃ d : Date, d.Exists ∧ d.julianDay = julianDay := by
  induction julianDay, h using Int.leInduction with
  | base => exact ⟨⟨1, 0, 1⟩, by decide, by decide⟩
  | succ n _ ih =>
    obtain ⟨d, hd, rfl⟩ := ih
    exact ⟨d.next, hd.next, hd.julianDay_next⟩

/-- A time of day. -/
structure Clock where
  hour : Int
  minute : Int
  second : Int
  millisecond : Int
  hour_in : 0 ≤ hour ∧ hour < 24
  minute_in : 0 ≤ minute ∧ minute < 60
  second_in : 0 ≤ second ∧ second < 60
  millisecond_in : 0 ≤ millisecond ∧ millisecond < 1000

namespace Clock

/-- The milliseconds since midnight. -/
def millis (k : Clock) : Int := ((k.hour * 60 + k.minute) * 60 + k.second) * 1000 + k.millisecond

theorem millis_in (k : Clock) : 0 ≤ k.millis ∧ k.millis < 86400000 := by
  have h₁ := k.hour_in
  have h₂ := k.minute_in
  have h₃ := k.second_in
  have h₄ := k.millisecond_in
  unfold millis
  omega

theorem exists_millis {m : Int} (h : 0 ≤ m ∧ m < 86400000) : ∃ k : Clock, k.millis = m :=
  ⟨⟨m / 3600000, m / 60000 % 60, m / 1000 % 60, m % 1000, by omega, by omega, by omega, by omega⟩,
    by unfold millis; simp only; omega⟩

def midnight : Clock := ⟨0, 0, 0, 0, by decide, by decide, by decide, by decide⟩

end Clock

/-- The fields of a time of day. -/
def Fields.setClock (fields : Fields) (k : Clock) : Fields :=
  { fields with
    amPm := k.hour / 12
    hour := k.hour % 12
    hourOfDay := k.hour
    minute := k.minute
    second := k.second
    millisecond := k.millisecond }

theorem setMillisInDay_eq (fields : Fields) (k : Clock) :
    fields.setMillisInDay k.millis = fields.setClock k := by
  have hm := k.millis_in
  have h₁ := k.hour_in
  have h₂ := k.minute_in
  have h₃ := k.second_in
  have h₄ := k.millisecond_in
  have hseconds : k.millis.tdiv 1000 = (k.hour * 60 + k.minute) * 60 + k.second := by
    rw [Int.tdiv_eq_ediv_of_nonneg hm.1]
    unfold Clock.millis
    lia
  have hminutes : ((k.hour * 60 + k.minute) * 60 + k.second).tdiv 60 = k.hour * 60 + k.minute := by
    rw [Int.tdiv_eq_ediv_of_nonneg (by omega)]
    omega
  have hhours : (k.hour * 60 + k.minute).tdiv 60 = k.hour := by
    rw [Int.tdiv_eq_ediv_of_nonneg (by lia)]
    omega
  unfold Fields.setMillisInDay Fields.setClock
  simp only [hseconds, hminutes, hhours]
  have hsecond := Int.tmod_eq_emod_of_nonneg (b := 60)
    (show 0 ≤ (k.hour * 60 + k.minute) * 60 + k.second by lia)
  have hminute := Int.tmod_eq_emod_of_nonneg (b := 60) (show 0 ≤ k.hour * 60 + k.minute by lia)
  rw [hsecond, hminute, Int.tmod_eq_emod_of_nonneg hm.1, Int.tmod_eq_emod_of_nonneg h₁.1,
    Int.tdiv_eq_ediv_of_nonneg h₁.1]
  unfold Clock.millis
  congr 1 <;> omega

theorem millisInDay_eq {fields : Fields} (k : Clock) (hhour : fields.hourOfDay = k.hour)
    (hminute : fields.minute = k.minute) (hsecond : fields.second = k.second)
    (hmillisecond : fields.millisecond = k.millisecond) : fields.millisInDay = k.millis := by
  have h₁ := k.hour_in
  have h₂ := k.minute_in
  have h₃ := k.second_in
  have h₄ := k.millisecond_in
  unfold Fields.millisInDay Clock.millis
  rw [hhour, hminute, hsecond, hmillisecond]
  simp only
  rw [i32_of_range (x := k.hour * 60) (by omega), i32_of_range (x := k.hour * 60 + _) (by omega)]
  rw [i32_of_range (x := _ * 60) (by omega), i32_of_range (x := _ + k.second) (by omega)]
  rw [i32_of_range (x := _ * 1000) (by omega), i32_of_range (x := _ + k.millisecond) (by omega)]

/-! ## From the time to the fields -/

/-- A value of a long. -/
def IsLong (x : Int) : Prop := -9223372036854775808 ≤ x ∧ x < 9223372036854775808

/-- The milliseconds of a date and a time of day, from 1970 on. -/
def Date.millis (d : Date) (k : Clock) : Int := (d.julianDay - 2440588) * 86400000 + k.millis

theorem Date.julianDay_of_millis (d : Date) (k : Clock) :
    2440588 + d.millis k / 86400000 = d.julianDay ∧ d.millis k % 86400000 = k.millis := by
  have hk := k.millis_in
  unfold Date.millis
  omega

/-- A year whose milliseconds fit in a long fits in an int. -/
theorem Date.Exists.year_lt {d : Date} (hd : d.Exists) {k : Clock} (h : IsLong (d.millis k)) :
    d.year < 2147483648 := by
  have hk := k.millis_in
  have hyear := hd.valid.in_year.1
  unfold IsLong Date.millis at h
  by_contra hlarge
  have hg : d.IsGregorian := by
    left
    omega
  have hjulian := Date.julianDay_of_gregorian hg
  rw [Date.rule_of_gregorian hg] at hyear
  have hmono := gregorian.days_mono (show 2147483647 ≤ d.year - 1 by omega)
  have hdays : 700000000000 ≤ gregorian.days 2147483647 := by decide
  omega

theorem pinnedSum_eq {time offset : Int} (h : IsLong time) (h' : IsLong (time + offset)) :
    pinnedSum time offset = time + offset := by
  unfold IsLong at h h'
  unfold pinnedSum
  simp only
  rw [i64_of_range h', if_neg (by omega), if_neg (by omega)]

/-- The date and the day of the week are ones that a time zone can be asked for. -/
theorem accepts_date {d : Date} (hd : d.Exists) {m : Int} (h : 0 ≤ m ∧ m < 86400000) :
    Accepts ad d.month d.day (weekday d.julianDay) m := by
  obtain ⟨hmonth, hfirst, hlast⟩ := hd.valid
  have hlength : monthLength (d.rule.leap d.year) d.month ≤
      (elementAt staticMonthLength d.month).getD 0 := by
    revert hmonth
    generalize d.rule.leap d.year = leap
    generalize d.month = month
    revert leap month
    decide
  unfold weekday
  exact {
    era_known := Or.inr rfl
    month_lower := by unfold january; omega
    month_upper := by unfold december; omega
    day_lower := hfirst
    day_upper := by omega
    dayOfWeek_lower := by unfold sunday; omega
    dayOfWeek_upper := by unfold saturday; omega
    millis_lower := h.1
    millis_upper := h.2 }

/-- The remainder of the truncated division, made non-negative. -/
theorem remainder_in_day (n : Int) :
    (if i32 (n - n.tdiv 86400000 * 86400000) < 0 then
      i32 (n - n.tdiv 86400000 * 86400000) + 86400000
      else i32 (n - n.tdiv 86400000 * 86400000)) = n % 86400000 := by
  have hrem := Int.tmod_add_mul_tdiv n 86400000
  have hlow := Int.lt_tmod_of_pos n (show (0 : Int) < 86400000 by omega)
  have hhigh := Int.tmod_lt_of_pos n (show (0 : Int) < 86400000 by omega)
  rw [i32_of_range (by omega)]
  have hpos : 0 ≤ n → 0 ≤ n.tmod 86400000 := fun hpos => Int.tmod_nonneg _ hpos
  have hneg : n < 0 → n.tmod 86400000 ≤ 0 := by
    intro hneg
    have hnonneg := Int.tmod_nonneg 86400000 (show 0 ≤ -n by omega)
    rw [Int.neg_tmod] at hnonneg
    omega
  split <;> omega

/-- **The fields show the date and the time of day.** -/
theorem computeFields_eq {c : CalendarImpl} {d : Date} {k : Clock} (hzone : c.zone.Constant)
    (hd : d.Exists) (htime : IsLong c.time) (hlocal : IsLong (d.millis k))
    (heq : c.time + c.zone.rawOffset = d.millis k) :
    computeFields c = some { c with fields := (c.fields.setDate d).setClock k } := by
  have hk := k.millis_in
  obtain ⟨hday, hmillis⟩ := d.julianDay_of_millis k
  have hraw := c.zone.rawOffset_int
  have hsum : pinnedSum c.time c.zone.rawOffset = d.millis k := by
    rw [pinnedSum_eq htime (by rw [heq]; exact hlocal), heq]
  have hfields := timeToFields_eq hd (hd.year_lt hlocal) hday c.fields
  have hoffset := hzone ad d.year d.month d.day (weekday d.julianDay) k.millis (accepts_date hd hk)
  have hdst : i32 (c.zone.rawOffset - c.zone.rawOffset) = 0 := by
    rw [Int.sub_self]
    rfl
  have hnone : i32 (k.millis + 0) = k.millis := by
    rw [Int.add_zero]
    exact i32_of_range (by omega)
  unfold computeFields
  simp only [hsum, hfields, Option.bind_eq_bind, Option.bind_some, oneDay, remainder_in_day, hmillis]
  unfold Fields.setDate at *
  simp only [hoffset, Option.bind_some, hdst, hnone, if_neg (show ¬ 86400000 ≤ k.millis by omega), setMillisInDay_eq]
  rfl

/-! ## From the fields to the time -/

/-- The day number of a date in either calendar. -/
theorem calculateJulianDay_eq {fields : Fields} {d : Date} (isGregorian : Bool)
    (hmonth : d.month < 12) (hyear : 1 ≤ d.year) (hyear' : d.year < 2147483648)
    (hm : fields.month = d.month) (hd : fields.date = d.day) :
    calculateJulianDay fields isGregorian d.year = some (
      if isGregorian then 1721425 + gregorian.dayNumber d.year d.month d.day
      else 1721423 + julian.dayNumber d.year d.month d.day) := by
  have hbefore : i32 (d.year - 1) = d.year - 1 := i32_of_range (by omega)
  have hin : 0 ≤ (d.month : Int) ∧ (d.month : Int) ≤ 11 := by omega
  have hfour := Int.tmod_eq_emod_of_nonneg (b := 4) (show 0 ≤ d.year by omega)
  have hhundred := Int.tmod_eq_emod_of_nonneg (b := 100) (show 0 ≤ d.year by omega)
  have hcycle := Int.tmod_eq_emod_of_nonneg (b := 400) (show 0 ≤ d.year by omega)
  have hjulian : decide (d.year.tmod 4 = 0) = julian.leap d.year := by
    simp only [julian, hfour]
  have hgregorian : (julian.leap d.year && decide (d.year.tmod 100 ≠ 0 ∨ d.year.tmod 400 = 0)) =
      gregorian.leap d.year := by
    simp only [julian, gregorian, hhundred, hcycle, Bool.decide_and]
  unfold calculateJulianDay january jan11JulianDay
  simp only [hm, hd, Int.sub_zero, hin, and_self, if_true, hbefore, hjulian, hgregorian,
    floorDivide_eq _ (show (0 : Int) < 4 by omega), floorDivide_eq _ (show (0 : Int) < 400 by omega),
    floorDivide_eq _ (show (0 : Int) < 100 by omega)]
  unfold YearRule.dayNumber
  cases isGregorian with
  | false =>
    simp only [Bool.false_eq_true, if_false, elementAt_monthStart _ hmonth, Option.bind_eq_bind,
      Option.bind_some, Option.pure_def, Option.some.injEq]
    simp only [julian]
    omega
  | true =>
    simp only [if_true, elementAt_monthStart _ hmonth, Option.bind_eq_bind,
      Option.bind_some, Option.pure_def, Option.some.injEq]
    simp only [gregorian]
    omega

/-- The fields show a date and a time of day. -/
structure Fields.Shows (fields : Fields) (d : Date) (k : Clock) : Prop where
  year : fields.year = d.year
  month : fields.month = d.month
  date : fields.date = d.day
  hourOfDay : fields.hourOfDay = k.hour
  minute : fields.minute = k.minute
  second : fields.second = k.second
  millisecond : fields.millisecond = k.millisecond

/-- The fields ask for a date and a time of day; the hour is that of the fields that were set. -/
structure CalendarImpl.Asks (c : CalendarImpl) (d : Date) (k : Clock) : Prop where
  year : c.fields.year = d.year
  month : c.fields.month = d.month
  date : c.fields.date = d.day
  hour :
    if c.isSet.hourOfDay then c.fields.hourOfDay = k.hour
    else if c.isSet.hour then c.fields.amPm = k.hour / 12 ∧ c.fields.hour = k.hour % 12
    else c.fields.hourOfDay = k.hour
  minute : c.fields.minute = k.minute
  second : c.fields.second = k.second
  millisecond : c.fields.millisecond = k.millisecond

theorem setClock_shows (fields : Fields) (d : Date) (k : Clock) :
    ((fields.setDate d).setClock k).Shows d k := by
  constructor <;> rfl

/-- A valid half of the day stays. -/
theorem correctAmPm_eq {c : CalendarImpl} (h : c.fields.amPm = am ∨ c.fields.amPm = pm) :
    (correctAmPm c).fields = c.fields ∧ (correctAmPm c).isSet.hour = c.isSet.hour := by
  unfold correctAmPm
  split
  · have hvalid : ¬ (c.fields.amPm ≠ am ∧ c.fields.amPm ≠ pm) := by tauto
    simp only [hvalid, if_false, and_self]
  · exact ⟨rfl, rfl⟩

theorem correctHour_hourOfDay {c : CalendarImpl} {h : Int} (hin : 0 ≤ h ∧ h < 24)
    (hamPm : c.fields.amPm = h / 12) (hhour : c.fields.hour = h % 12) (hset : c.isSet.hour = true) :
    (correctHour c).fields.hourOfDay = h := by
  unfold correctHour pm
  simp only [hset, if_true, if_neg (show ¬ 12 < c.fields.hour by omega)]
  split
  · simp only [i32_of_range (show -2147483648 ≤ c.fields.hour + 12 ∧ _ by omega)]
    omega
  · simp only
    omega

/-- The hour that `correctTime` settles on. -/
theorem correctTime_hourOfDay {c : CalendarImpl} {d : Date} {k : Clock} (h : c.Asks d k) :
    (correctTime c).fields.hourOfDay = k.hour := by
  have hin := k.hour_in
  have hhour := h.hour
  unfold correctTime
  split at hhour
  · rename_i hset
    rw [if_pos hset, hhour, Int.tmod_eq_emod_of_nonneg hin.1]
    simp only
    omega
  rename_i hset
  rw [if_neg hset]
  split at hhour
  · -- a 12-hour clock
    rename_i hhalf
    have hvalid : c.fields.amPm = am ∨ c.fields.amPm = pm := by
      unfold am pm
      omega
    obtain ⟨hfields, hflag⟩ := correctAmPm_eq hvalid
    apply correctHour_hourOfDay hin
    · rw [hfields, hhour.1]
    · rw [hfields, hhour.2]
    · rw [hflag, hhalf]
  · rename_i hhalf
    have hkeep : (correctAmPm c).fields.hourOfDay = c.fields.hourOfDay ∧
        (correctAmPm c).isSet.hour = c.isSet.hour := by
      unfold correctAmPm
      split <;> exact ⟨rfl, rfl⟩
    unfold correctHour
    rw [hkeep.2, if_neg hhalf, hkeep.1, hhour]

/-- Two calendars differ in the hour only. -/
structure CalendarImpl.SameButHour (c c' : CalendarImpl) : Prop where
  year : c'.fields.year = c.fields.year
  month : c'.fields.month = c.fields.month
  date : c'.fields.date = c.fields.date
  minute : c'.fields.minute = c.fields.minute
  second : c'.fields.second = c.fields.second
  millisecond : c'.fields.millisecond = c.fields.millisecond
  zone : c'.zone = c.zone

theorem correctAmPm_same (c : CalendarImpl) : c.SameButHour (correctAmPm c) := by
  unfold correctAmPm
  split <;> constructor <;> rfl

theorem correctHour_same (c : CalendarImpl) : c.SameButHour (correctHour c) := by
  unfold correctHour
  split
  · constructor <;> simp only <;> split <;> (try split) <;> rfl
  · constructor <;> rfl

theorem correctTime_same (c : CalendarImpl) : c.SameButHour (correctTime c) := by
  unfold correctTime
  split
  · constructor <;> rfl
  · have h := correctAmPm_same c
    have h' := correctHour_same (correctAmPm c)
    exact ⟨h'.year.trans h.year, h'.month.trans h.month, h'.date.trans h.date,
      h'.minute.trans h.minute, h'.second.trans h.second, h'.millisecond.trans h.millisecond,
      h'.zone.trans h.zone⟩

theorem correctTime_shows {c : CalendarImpl} {d : Date} {k : Clock} (h : c.Asks d k) :
    (correctTime c).fields.Shows d k := by
  have hsame := correctTime_same c
  exact ⟨hsame.year.trans h.year, hsame.month.trans h.month, hsame.date.trans h.date,
    correctTime_hourOfDay h, hsame.minute.trans h.minute, hsame.second.trans h.second,
    hsame.millisecond.trans h.millisecond⟩

/-- Midnight fits in a long when a time of the day does. -/
theorem julianDayToMillis_eq {d : Date} (hd : d.Exists) {k : Clock} (h : IsLong (d.millis k)) :
    julianDayToMillis d.julianDay = (d.julianDay - 2440588) * 86400000 := by
  have hk := k.millis_in
  have hfirst := hd.first_le
  unfold IsLong Date.millis at h
  unfold julianDayToMillis epochJulianDay oneDay
  exact i64_of_range (by omega)

/-- In the year of the cutover a Julian date is first read ten days early, and then again. -/
theorem assumedJulianDay_eq {fields : Fields} {d : Date} {k : Clock} (hd : d.Exists)
    (hlong : IsLong (d.millis k)) (hshows : fields.Shows d k) :
    assumedJulianDay fields = some d.julianDay := by
  have hpos := hd.year_pos
  have hfirst := hd.first_le
  have heq := fun g => calculateJulianDay_eq g hd.valid.1 hpos (hd.year_lt hlong) hshows.month
    hshows.date
  have hmillis := julianDayToMillis_eq hd hlong
  have hin := hd.isGregorian_iff
  unfold assumedJulianDay
  rw [hshows.year]
  simp only [Option.bind_eq_bind]
  by_cases hg : d.IsGregorian
  · have hjulian := Date.julianDay_of_gregorian hg
    have hyear : gregorianCutoverYear ≤ d.year := by
      unfold gregorianCutoverYear
      unfold Date.IsGregorian at hg
      omega
    have hlate : gregorianCutover ≤ julianDayToMillis d.julianDay := by
      rw [hmillis]
      unfold gregorianCutover
      have := hin.1 hg
      omega
    simp only [hyear, decide_true, heq, if_true, ← hjulian, Option.bind_some, hlate, ne_eq, not_true,
      false_and, if_false, Option.pure_def]
  have hjulian := Date.julianDay_of_julian hg
  have hearly : d.julianDay < 2299161 := hd.lt_cutover hg
  by_cases hyear : gregorianCutoverYear ≤ d.year
  · -- the Gregorian reading of a Julian date of 1582
    have hsame : d.year = 1582 := by
      unfold gregorianCutoverYear at hyear
      unfold Date.IsGregorian at hg
      omega
    have hten : 1721425 + gregorian.dayNumber d.year d.month d.day = d.julianDay - 10 := by
      rw [hjulian, hsame]
      unfold YearRule.dayNumber
      have hleap : gregorian.leap 1582 = julian.leap 1582 := by decide
      have hdays : gregorian.days (1582 - 1) + 12 = julian.days (1582 - 1) := by decide
      rw [hleap]
      omega
    have hmidnight : julianDayToMillis (d.julianDay - 10) =
        (d.julianDay - 10 - 2440588) * 86400000 := by
      unfold julianDayToMillis epochJulianDay oneDay
      exact i64_of_range (by omega)
    have hwrong : ¬ gregorianCutover ≤ julianDayToMillis (d.julianDay - 10) := by
      rw [hmidnight]
      unfold gregorianCutover
      omega
    have hother : d.julianDay - 10 ≠ -106749550580 := by omega
    simp only [hyear, decide_true, heq, if_true, hten, Option.bind_some, hwrong, decide_false, ne_eq,
      Bool.true_eq_false, not_false_eq_true, hother, and_self, Bool.not_true, Bool.false_eq_true,
      if_false, ← hjulian]
  · have hbefore : ¬ gregorianCutover ≤ julianDayToMillis d.julianDay := by
      rw [hmillis]
      unfold gregorianCutover
      omega
    simp only [hyear, decide_false, heq, Bool.false_eq_true, if_false, ← hjulian, Option.bind_some,
      hbefore, ne_eq, not_true, false_and, Option.pure_def]

/-- **The time is that of the date and the time of day.** -/
theorem computeTime_eq {c : CalendarImpl} {d : Date} {k : Clock} (hzone : c.zone.Constant)
    (hd : d.Exists) (hlocal : IsLong (d.millis k)) (hutc : IsLong (d.millis k - c.zone.rawOffset))
    (h : c.Asks d k) :
    computeTime c = some { correctTime c with time := d.millis k - c.zone.rawOffset } := by
  have hk := k.millis_in
  have hshows := correctTime_shows h
  have hkeep := (correctTime_same c).zone
  have hday := assumedJulianDay_eq hd hlocal hshows
  have hmillis := julianDayToMillis_eq hd hlocal
  have hclock := millisInDay_eq k hshows.hourOfDay hshows.minute hshows.second hshows.millisecond
  have hsum : i64 ((d.julianDay - 2440588) * 86400000 + k.millis) = d.millis k := i64_of_range hlocal
  have hrem : (floorDivideLong (d.millis k) oneDay).2 = k.millis := by
    rw [oneDay, floorDivideLong_eq _ (by omega) (by omega)]
    exact (d.julianDay_of_millis k).2
  have hdow : julianDayToDayOfWeek d.julianDay = weekday d.julianDay := by
    have hfirst := hd.first_le
    unfold julianDayToDayOfWeek
    rw [Int.tmod_eq_emod_of_nonneg (by omega), i32_of_range (by omega),
      normalizeDayOfWeek_eq (by omega)]
    unfold weekday
    omega
  have hoffset := hzone ad d.year d.month d.day (weekday d.julianDay) k.millis (accepts_date hd hk)
  have hdst : i32 (c.zone.rawOffset - c.zone.rawOffset) = 0 := by
    rw [Int.sub_self]
    rfl
  have htime : i64 (i64 (d.millis k - c.zone.rawOffset) - 0) = d.millis k - c.zone.rawOffset := by
    rw [Int.sub_zero, i64_of_range hutc, i64_of_range hutc]
  unfold computeTime
  simp only [hday, Option.bind_eq_bind, Option.bind_some, hkeep, hmillis, hclock, hsum, hrem, hdow,
    hshows.year, hshows.month, hshows.date, hoffset, hdst, htime]
  rfl

/-! ## Both ways -/

/-- The date and the time of day fit in a long, as local time and as UTC. -/
structure TimeZone.Fits (zone : TimeZone) (d : Date) (k : Clock) : Prop where
  isLong_local : IsLong (d.millis k)
  isLong_utc : IsLong (d.millis k - zone.rawOffset)

/-- The fields of a date and a time of day ask for them, whichever were set before. -/
theorem asks_setClock (c : CalendarImpl) (d : Date) (k : Clock) :
    { c with fields := (c.fields.setDate d).setClock k : CalendarImpl }.Asks d k := by
  refine ⟨rfl, rfl, rfl, ?_, rfl, rfl, rfl⟩
  split
  · rfl
  · split
    · exact ⟨rfl, rfl⟩
    · rfl

/-- The fields of a time ask for that time. -/
theorem computeTime_computeFields {c : CalendarImpl} (hzone : c.zone.Constant) (htime : IsLong c.time)
    (hlocal : IsLong (c.time + c.zone.rawOffset))
    (hfirst : Date.millis ⟨1, 0, 1⟩ Clock.midnight ≤ c.time + c.zone.rawOffset) :
    ∃ c' c'', computeFields c = some c' ∧ computeTime c' = some c'' ∧ c''.time = c.time := by
  have hday : 1721424 ≤ 2440588 + (c.time + c.zone.rawOffset) / 86400000 := by
    have hmidnight : Date.millis ⟨1, 0, 1⟩ Clock.midnight = (1721424 - 2440588) * 86400000 := by
      decide
    omega
  obtain ⟨d, hd, hdate⟩ := Date.exists_julianDay hday
  obtain ⟨k, hk⟩ := Clock.exists_millis
    (show 0 ≤ (c.time + c.zone.rawOffset) % 86400000 ∧ _ < 86400000 by omega)
  have heq : c.time + c.zone.rawOffset = d.millis k := by
    unfold Date.millis
    omega
  rw [heq] at hlocal
  have hutc : d.millis k - c.zone.rawOffset = c.time := by omega
  have hback := computeTime_eq (c := { c with fields := (c.fields.setDate d).setClock k }) hzone hd
    hlocal (by rw [hutc]; exact htime) (asks_setClock c d k)
  exact ⟨_, _, computeFields_eq hzone hd htime hlocal heq, hback, hutc⟩

/-- The time of the fields shows the date and the time of day that they ask for. -/
theorem computeFields_computeTime {c : CalendarImpl} {d : Date} {k : Clock}
    (hzone : c.zone.Constant) (hd : d.Exists) (hfits : c.zone.Fits d k) (h : c.Asks d k) :
    ∃ c' c'', computeTime c = some c' ∧ computeFields c' = some c'' ∧ c''.fields.Shows d k ∧
      c'.time = d.millis k - c.zone.rawOffset ∧ c''.fields.dayOfWeek = weekday d.julianDay := by
  have htime := computeTime_eq hzone hd hfits.isLong_local hfits.isLong_utc h
  have hkeep := (correctTime_same c).zone
  have hfields := computeFields_eq
    (c := { correctTime c with time := d.millis k - c.zone.rawOffset }) (by rw [hkeep]; exact hzone)
    hd hfits.isLong_utc hfits.isLong_local (by simp only [hkeep]; omega)
  exact ⟨_, _, htime, hfields, setClock_shows _ d k, rfl, rfl⟩

/-- **Fields and time determine each other.**  A time comes back from its fields; a date and a time of
day come back from their time; the next date is a day later, and its day of the week is the next. -/
theorem fields_and_time_agree {zone : TimeZone} (hzone : zone.Constant) :
    (∀ c : CalendarImpl, c.zone = zone → IsLong c.time → IsLong (c.time + zone.rawOffset) →
      Date.millis ⟨1, 0, 1⟩ Clock.midnight ≤ c.time + zone.rawOffset →
      ∃ c' c'', computeFields c = some c' ∧ computeTime c' = some c'' ∧ c''.time = c.time) ∧
    (∀ (c : CalendarImpl) (d : Date) (k : Clock), c.zone = zone → d.Exists → zone.Fits d k →
      c.Asks d k →
      ∃ c' c'', computeTime c = some c' ∧ computeFields c' = some c'' ∧ c''.fields.Shows d k) ∧
    (∀ (c e : CalendarImpl) (d : Date) (k : Clock), c.zone = zone → e.zone = zone → d.Exists →
      zone.Fits d k → zone.Fits d.next k → c.Asks d k → e.Asks d.next k →
      ∃ c' c'' e' e'', (computeTime c = some c' ∧ computeFields c' = some c'') ∧
        (computeTime e = some e' ∧ computeFields e' = some e'') ∧
        e'.time = c'.time + 86400000 ∧
        e''.fields.dayOfWeek = c''.fields.dayOfWeek % 7 + 1) := by
  refine ⟨?_, ?_, ?_⟩
  · rintro c rfl htime hlocal hfirst
    exact computeTime_computeFields hzone htime hlocal hfirst
  · rintro c d k rfl hd hfits hasks
    obtain ⟨c', c'', htime, hfields, hshows, -, -⟩ := computeFields_computeTime hzone hd hfits hasks
    exact ⟨c', c'', htime, hfields, hshows⟩
  · rintro c e d k rfl hsame hd hfits hfits' hasks hasks'
    obtain ⟨c', c'', htime, hfields, -, hc, hdow⟩ := computeFields_computeTime hzone hd hfits hasks
    rw [← hsame] at hzone hfits'
    obtain ⟨e', e'', htime', hfields', -, he, hdow'⟩ :=
      computeFields_computeTime hzone hd.next hfits' hasks'
    refine ⟨c', c'', e', e'', ⟨htime, hfields⟩, ⟨htime', hfields'⟩, ?_, ?_⟩
    · rw [he, hc, hsame]
      unfold Date.millis
      rw [hd.julianDay_next]
      omega
    · rw [hdow', hdow, hd.julianDay_next]
      unfold weekday
      omega

/-- A calendar that asks for midnight. -/
def atMidnight (zone : TimeZone) (d : Date) : CalendarImpl :=
  ⟨⟨d.year, d.month, d.day, 0, 0, 0, 0, 0, 0, 0⟩, ⟨false, false, true⟩, 0, zone⟩

theorem atMidnight_asks (zone : TimeZone) (d : Date) : (atMidnight zone d).Asks d Clock.midnight :=
  ⟨rfl, rfl, rfl, rfl, rfl, rfl, rfl⟩

/-- 4 and 15 October 1582, an hour east of Greenwich. -/
theorem fields_and_time_agree_cutover :
    let zone := timeZoneImpl 3600000 (by omega)
    ∃ c' c'' e' e'', (computeTime (atMidnight zone ⟨1582, 9, 4⟩) = some c' ∧ computeFields c' = some c'') ∧
      (computeTime (atMidnight zone ⟨1582, 9, 15⟩) = some e' ∧ computeFields e' = some e'') ∧
      e'.time = c'.time + 86400000 ∧ e''.fields.dayOfWeek = c''.fields.dayOfWeek % 7 + 1 :=
  (fields_and_time_agree (timeZoneImpl_constant _)).2.2 _ _ ⟨1582, 9, 4⟩ Clock.midnight rfl rfl
    (by decide) ⟨⟨by decide, by decide⟩, by decide, by decide⟩
    ⟨⟨by decide, by decide⟩, by decide, by decide⟩ (atMidnight_asks _ _) (atMidnight_asks _ _)

/-- The milliseconds of the year 300000000 do not fit in a long. -/
theorem large_year_lost :
    let zone := timeZoneImpl 0 (by omega)
    let d : Date := ⟨300000000, 0, 1⟩
    zone.Constant ∧ d.Exists ∧ (atMidnight zone d).Asks d Clock.midnight ∧
      ¬ ∃ c' c'', computeTime (atMidnight zone d) = some c' ∧ computeFields c' = some c'' ∧
        c''.fields.Shows d Clock.midnight := by
  refine ⟨timeZoneImpl_constant _, by decide, atMidnight_asks _ _, ?_⟩
  rintro ⟨c', c'', htime, hfields, hshows⟩
  have hlost : ((computeTime (atMidnight (timeZoneImpl 0 (by omega)) ⟨300000000, 0, 1⟩)).bind
      computeFields).map (fun c => c.fields.year) ≠ some 300000000 := by
    decide +kernel
  apply hlost
  rw [htime, Option.bind_some, hfields, Option.map_some, hshows.year]

end FroggyKVM.Calendar
