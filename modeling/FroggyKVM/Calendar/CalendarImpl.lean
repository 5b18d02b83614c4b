/-
# FroggyKVM.Calendar.CalendarImpl — the conversions between a time and the fields of a calendar.

`CalendarImpl.java`.  A time is in milliseconds since 1970, UTC; the fields show it in the time zone
of the calendar.  Dates before 15 October 1582 are Julian.  An exception, from an index outside a
table or from the time zone, is `none`.
-/
import FroggyKVM.Lib.MachineInt

namespace FroggyKVM.Calendar

/-! ## The calendar -/

/-- `fields`. -/
structure Fields where
  year : Int
  month : Int
  date : Int
  dayOfWeek : Int
  amPm : Int
  hour : Int
  hourOfDay : Int
  minute : Int
  second : Int
  millisecond : Int
  deriving DecidableEq

/-- The flags of `isSet` that the conversion reads: the fields set since the last conversion. -/
structure IsSet where
  amPm : Bool
  hour : Bool
  hourOfDay : Bool
  deriving DecidableEq

/-- `TimeZone`: the offset of standard time, and that of an era, a year, a month, a day, a day of the
week and the milliseconds of the day. -/
structure TimeZone where
  rawOffset : Int
  rawOffset_int : -2147483648 ≤ rawOffset ∧ rawOffset < 2147483648
  getOffset : Int → Int → Int → Int → Int → Int → Option Int

structure CalendarImpl where
  fields : Fields
  isSet : IsSet
  time : Int
  zone : TimeZone

/-- `BC` and `AD`. -/
def bc : Int := 0
def ad : Int := 1

/-- `AM` and `PM`. -/
def am : Int := 0
def pm : Int := 1

def sunday : Int := 1
def saturday : Int := 7

def january : Int := 0
def december : Int := 11

/-- January 1, year 1 (Gregorian). -/
def jan11JulianDay : Int := 1721426

/-- January 1, 1970 (Gregorian). -/
def epochJulianDay : Int := 2440588

/-- 0-based, for day-in-year. -/
def numDays : List Int := [0, 31, 59, 90, 120, 151, 181, 212, 243, 273, 304, 334]

def leapNumDays : List Int := [0, 31, 60, 91, 121, 152, 182, 213, 244, 274, 305, 335]

def oneDay : Int := 86400000

/-- October 15, 1582 (Gregorian) 00:00:00 UTC. -/
def gregorianCutover : Int := -12219292800000

def gregorianCutoverYear : Int := 1582

/-- An element of a table. -/
def elementAt (table : List Int) (i : Int) : Option Int :=
  if 0 ≤ i then table[i.toNat]? else none

/-! ## Floor division -/

/-- `floorDivide` without a remainder, on ints and on longs. -/
def floorDivide (numerator denominator : Int) : Int :=
  if 0 ≤ numerator then numerator.tdiv denominator
  else (numerator + 1).tdiv denominator - 1

/-- `floorDivide` of an int, and the remainder. -/
def floorDivideInt (numerator denominator : Int) : Int × Int :=
  if 0 ≤ numerator then (numerator.tdiv denominator, numerator.tmod denominator)
  else
    let quotient := (numerator + 1).tdiv denominator - 1
    (quotient, i32 (numerator - i32 (quotient * denominator)))

/-- `floorDivide` of a long by an int, and the remainder. -/
def floorDivideLong (numerator denominator : Int) : Int × Int :=
  if 0 ≤ numerator then (i32 (numerator.tdiv denominator), i32 (numerator.tmod denominator))
  else
    let quotient := i32 ((numerator + 1).tdiv denominator - 1)
    (quotient, i32 (i64 (numerator - i32 (quotient * denominator))))

/-! ## Julian days -/

def millisToJulianDay (millis : Int) : Int := epochJulianDay + floorDivide millis oneDay

def julianDayToMillis (julian : Int) : Int := i64 ((julian - epochJulianDay) * oneDay)

/-- A day of the week from a remainder modulo 7. -/
def normalizeDayOfWeek (dayOfWeek : Int) : Int :=
  dayOfWeek + if dayOfWeek < 0 then 7 + sunday else sunday

def julianDayToDayOfWeek (julian : Int) : Int := normalizeDayOfWeek (i32 ((julian + 1).tmod 7))

/-! ## From the time to the fields -/

/-- What `timeToFields` computes of the year. -/
structure YearDay where
  rawYear : Int
  dayOfYear : Int
  isLeap : Bool
  dayOfWeek : Int

/-- The Gregorian branch of `timeToFields`. -/
def gregorianYearDay (theTime : Int) : YearDay :=
  let gregorianEpochDay := millisToJulianDay theTime - jan11JulianDay
  let (n400, rem) := floorDivideLong gregorianEpochDay 146097
  let (n100, rem) := floorDivideInt rem 36524
  let (n4, rem) := floorDivideInt rem 1461
  let (n1, rem) := floorDivideInt rem 365
  let cycles := i32 (400 * n400 + 100 * n100 + 4 * n4 + n1)
  -- Dec 31 at end of 4- or 400-yr cycle
  let last : Bool := n100 = 4 ∨ n1 = 4
  let rawYear := if last then cycles else i32 (cycles + 1)
  { rawYear
    dayOfYear := if last then 365 else rem
    isLeap := rawYear % 4 = 0 ∧ (rawYear.tmod 100 ≠ 0 ∨ rawYear.tmod 400 = 0)
    dayOfWeek := i32 ((gregorianEpochDay + 1).tmod 7) }

/-- The Julian branch of `timeToFields`. -/
def julianYearDay (theTime : Int) : YearDay :=
  let julianEpochDay := millisToJulianDay theTime - (jan11JulianDay - 2)
  let rawYear := i32 (floorDivide (4 * julianEpochDay + 1464) 1461)
  let january1 := i32 (i32 (365 * i32 (rawYear - 1)) + floorDivide (i32 (rawYear - 1)) 4)
  { rawYear
    dayOfYear := i32 (julianEpochDay - january1)
    isLeap := rawYear % 4 = 0
    dayOfWeek := i32 ((julianEpochDay - 1).tmod 7) }

/-- The zero-based month of a day of the year. -/
def monthField (dayOfYear : Int) (isLeap : Bool) : Int :=
  let march1 := if isLeap then 60 else 59
  let correction := if march1 ≤ dayOfYear then (if isLeap then 1 else 2) else 0
  (i32 (12 * (dayOfYear + correction) + 6)).tdiv 367

def timeToFields (fields : Fields) (theTime : Int) : Option Fields := do
  let day := if gregorianCutover ≤ theTime then gregorianYearDay theTime else julianYearDay theTime
  let month := monthField day.dayOfYear day.isLeap
  let before ← elementAt (if day.isLeap then leapNumDays else numDays) month
  return { fields with
    dayOfWeek := normalizeDayOfWeek day.dayOfWeek
    year := if day.rawYear < 1 then i32 (1 - day.rawYear) else day.rawYear
    month := month + january
    date := i32 (day.dayOfYear - before + 1) }

/-- The time shifted by an offset; it stays at the end of the range it would leave. -/
def pinnedSum (time offset : Int) : Int :=
  let sum := i64 (time + offset)
  if 0 < time ∧ sum < 0 ∧ 0 < offset then 9223372036854775807
  else if time < 0 ∧ 0 < sum ∧ offset < 0 then -9223372036854775808
  else sum

/-- The fields of a time of day. -/
def Fields.setMillisInDay (fields : Fields) (millisInDay : Int) : Fields :=
  let seconds := millisInDay.tdiv 1000
  let minutes := seconds.tdiv 60
  let hours := minutes.tdiv 60
  { fields with
    millisecond := millisInDay.tmod 1000
    second := seconds.tmod 60
    minute := minutes.tmod 60
    hourOfDay := hours
    amPm := hours.tdiv 12
    hour := hours.tmod 12 }

def computeFields (c : CalendarImpl) : Option CalendarImpl := do
  let rawOffset := c.zone.rawOffset
  let localMillis := pinnedSum c.time rawOffset
  let fields ← timeToFields c.fields localMillis
  let days := localMillis.tdiv oneDay
  let millisInDay := i32 (localMillis - days * oneDay)
  let millisInDay := if millisInDay < 0 then millisInDay + oneDay else millisInDay
  let offset ← c.zone.getOffset ad fields.year fields.month fields.date fields.dayOfWeek millisInDay
  let dstOffset := i32 (offset - rawOffset)
  let millisInDay := i32 (millisInDay + dstOffset)
  -- DST has pushed us into the next day
  if oneDay ≤ millisInDay then
    let fields ← timeToFields fields (pinnedSum localMillis dstOffset)
    return { c with fields := fields.setMillisInDay (millisInDay - oneDay) }
  else
    return { c with fields := fields.setMillisInDay millisInDay }

/-! ## From the fields to the time -/

/-- The Julian day number under either calendar. -/
def calculateJulianDay (fields : Fields) (isGregorian : Bool) (year : Int) : Option Int := do
  let month := fields.month - january
  let inRange := 0 ≤ month ∧ month ≤ 11
  let year := if inRange then year else i32 (year + (floorDivideInt month 12).1)
  let month := if inRange then month else (floorDivideInt month 12).2
  let isLeap : Bool := year.tmod 4 = 0
  let before := i32 (year - 1)
  let julianDay := 365 * before + floorDivide before 4 + (jan11JulianDay - 3)
  let isLeap := if isGregorian then isLeap && (year.tmod 100 ≠ 0 ∨ year.tmod 400 = 0) else isLeap
  let julianDay :=
    if isGregorian then julianDay + (floorDivide before 400 - floorDivide before 100 + 2)
    else julianDay
  let days ← elementAt (if isLeap then leapNumDays else numDays) month
  return julianDay + days + fields.date

/-- The part of `correctTime` for a set `AM_PM`: an invalid value is replaced. -/
def correctAmPm (c : CalendarImpl) : CalendarImpl :=
  if c.isSet.amPm then
    let amPm :=
      if c.fields.amPm ≠ am ∧ c.fields.amPm ≠ pm then if c.fields.hourOfDay < 12 then am else pm
      else c.fields.amPm
    { c with fields := { c.fields with amPm }, isSet := { c.isSet with amPm := false } }
  else c

/-- The part of `correctTime` for a set `HOUR`. -/
def correctHour (c : CalendarImpl) : CalendarImpl :=
  if c.isSet.hour then
    let value := c.fields.hour
    let fields :=
      if 12 < value then
        { c.fields with hourOfDay := value.tmod 12 + 12, hour := value.tmod 12, amPm := pm }
      else if c.fields.amPm = pm then { c.fields with hourOfDay := i32 (value + 12) }
      else { c.fields with hourOfDay := value }
    { c with fields, isSet := { c.isSet with hour := false } }
  else c

/-- `HOUR_OF_DAY` goes before `AM_PM` and `HOUR`. -/
def correctTime (c : CalendarImpl) : CalendarImpl :=
  if c.isSet.hourOfDay then
    let value := c.fields.hourOfDay.tmod 24
    { c with
      fields := { c.fields with hourOfDay := value, amPm := if value < 12 then am else pm }
      isSet := { c.isSet with hourOfDay := false } }
  else correctHour (correctAmPm c)

/-- The milliseconds of the day that the fields show. -/
def Fields.millisInDay (fields : Fields) : Int :=
  let minutes := i32 (i32 (fields.hourOfDay * 60) + fields.minute)
  let seconds := i32 (i32 (minutes * 60) + fields.second)
  i32 (i32 (seconds * 1000) + fields.millisecond)

/-- The part of `computeTime` that finds the day: the year tells the calendar to assume, and in the
year of the cutover the result tells whether that was wrong. -/
def assumedJulianDay (fields : Fields) : Option Int := do
  let year := fields.year
  let isGregorian : Bool := gregorianCutoverYear ≤ year
  let julianDay ← calculateJulianDay fields isGregorian year
  let afterCutover : Bool := gregorianCutover ≤ julianDayToMillis julianDay
  if isGregorian ≠ afterCutover ∧ julianDay ≠ -106749550580 then
    calculateJulianDay fields (!isGregorian) year
  else return julianDay

def computeTime (c : CalendarImpl) : Option CalendarImpl := do
  let c := correctTime c
  let julianDay ← assumedJulianDay c.fields
  let zoneOffset := c.zone.rawOffset
  let millis := i64 (julianDayToMillis julianDay + c.fields.millisInDay)
  let normalizedMillisInDay := (floorDivideLong millis oneDay).2
  let dow := julianDayToDayOfWeek julianDay
  let offset ← c.zone.getOffset ad c.fields.year c.fields.month c.fields.date dow
    normalizedMillisInDay
  let dstOffset := i32 (offset - zoneOffset)
  return { c with time := i64 (i64 (millis - zoneOffset) - dstOffset) }

/-! ## Time zones without daylight saving -/

/-- The days of a month in a leap year. -/
def staticMonthLength : List Int := [31, 29, 31, 30, 31, 30, 31, 31, 30, 31, 30, 31]

/-- The arguments that `getOffset` of `TimeZoneImpl` takes. -/
structure Accepts (era month day dayOfWeek millis : Int) : Prop where
  era_known : era = bc ∨ era = ad
  month_lower : january ≤ month
  month_upper : month ≤ december
  day_lower : 1 ≤ day
  day_upper : day ≤ (elementAt staticMonthLength month).getD 0
  dayOfWeek_lower : sunday ≤ dayOfWeek
  dayOfWeek_upper : dayOfWeek ≤ saturday
  millis_lower : 0 ≤ millis
  millis_upper : millis < oneDay

instance (era month day dayOfWeek millis : Int) :
    Decidable (Accepts era month day dayOfWeek millis) :=
  decidable_of_iff
    ((era = bc ∨ era = ad) ∧ (january ≤ month ∧ month ≤ december) ∧
      (1 ≤ day ∧ day ≤ (elementAt staticMonthLength month).getD 0) ∧
      (sunday ≤ dayOfWeek ∧ dayOfWeek ≤ saturday) ∧ (0 ≤ millis ∧ millis < oneDay))
    ⟨fun ⟨h₁, h₂, h₃, h₄, h₅⟩ => ⟨h₁, h₂.1, h₂.2, h₃.1, h₃.2, h₄.1, h₄.2, h₅.1, h₅.2⟩,
      fun h => ⟨h.era_known, ⟨h.month_lower, h.month_upper⟩, ⟨h.day_lower, h.day_upper⟩,
        ⟨h.dayOfWeek_lower, h.dayOfWeek_upper⟩, h.millis_lower, h.millis_upper⟩⟩

/-- A `TimeZoneImpl` whose `useDaylight` is false. -/
def timeZoneImpl (rawOffset : Int) (h : -2147483648 ≤ rawOffset ∧ rawOffset < 2147483648) :
    TimeZone where
  rawOffset := rawOffset
  rawOffset_int := h
  getOffset era _ month day dayOfWeek millis :=
    if Accepts era month day dayOfWeek millis then some rawOffset else none

/-- The offset is that of standard time wherever `getOffset` may be asked. -/
def TimeZone.Constant (zone : TimeZone) : Prop :=
  ∀ era year month day dayOfWeek millis, Accepts era month day dayOfWeek millis →
    zone.getOffset era year month day dayOfWeek millis = some zone.rawOffset

theorem timeZoneImpl_constant {rawOffset : Int}
    (h : -2147483648 ≤ rawOffset ∧ rawOffset < 2147483648) : (timeZoneImpl rawOffset h).Constant := by
  intro era year month day dayOfWeek millis haccepts
  exact if_pos haccepts

end FroggyKVM.Calendar
