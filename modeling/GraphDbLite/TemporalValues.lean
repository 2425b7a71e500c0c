import GraphDbLite.Calendar

/-!
# Dates, times and temporal values

A date lies in the years that the date type can hold. A time is a second of the
day with nanoseconds, from a thousand million on inside a leap second, which the
constructors accept. Date-times are moved as the documentation of the date
library says: without leap seconds, unless the time itself is one, and with a
panic where the date type ends. Arithmetic that leaves 64 bits is a panic too.
-/

namespace GraphDbLite.TemporalValues

open Calendar

/-- Why an operation on temporal values returns none. -/
inductive TemporalFault where
  | panic
  | numberOutOfRange (message : String)
  deriving DecidableEq

/-- Outcome of an operation on temporal values. -/
abbrev Temporally (α : Type) := Except TemporalFault α

/-- First year of the date type. -/
@[grind] def minYear : Int := -262143

/-- Last year of the date type. -/
@[grind] def maxYear : Int := 262142

/-- Number of the first month of the date type. -/
@[grind] def minMonth : Int := 12*minYear

/-- Number of the last month of the date type, a December. -/
@[grind] def maxMonth : Int := 12*maxYear+11

/-- A date of the date type. -/
structure NaiveDate where
  /-- The calendar date. -/
  date : Date
  /-- Not before the first year. -/
  above : minMonth≤date.month
  /-- Not after the last year. -/
  below : date.month≤ maxMonth
  deriving DecidableEq

theorem NaiveDate.eq_of {a b : NaiveDate} (h : a.date=b.date) : a=b := by
  cases a with
  | mk a _ _ =>
    cases b with
    | mk b _ _ =>
      cases h
      rfl

/-- Year of a date. -/
@[grind] def NaiveDate.year (d : NaiveDate) : Int := d.date.month/12

/-- Month of a date, from one. -/
@[grind] def NaiveDate.month (d : NaiveDate) : Int := d.date.month%12+1

/-- Day of the month. -/
@[grind] def NaiveDate.day (d : NaiveDate) : Int := d.date.day

/-- Days since a fixed day; dates compare by it. -/
@[grind] def NaiveDate.number (d : NaiveDate) : Int := dayNumber d.date

theorem NaiveDate.number_inj {a b : NaiveDate} : a.number=b.number ↔ a=b := by
  constructor
  · intro h
    exact NaiveDate.eq_of (dayNumber_inj.mp h)
  · intro h
    rw [h]

/-- The date of a year, month and day, when the date type has it. -/
@[grind] def fromYmd (year month day : Int) : Option NaiveDate :=
  if h : (1≤ month ∧ month≤12) ∧ (minYear≤year ∧ year≤ maxYear) ∧
      1≤day ∧ day≤ monthLength (12*year+(month-1)) then
    some ⟨⟨12*year+(month-1),day,h.2.2.1,h.2.2.2⟩,
      by have hy := h.2.1; have hm := h.1; simp only [minMonth,minYear] at hy ⊢; omega,
      by have hy := h.2.1; have hm := h.1; simp only [maxMonth,maxYear] at hy ⊢; omega⟩
  else none

/-- Number of the first day of the date type. -/
@[grind] def minNumber : Int := monthStart minMonth+1

/-- Number of the last day of the date type. -/
@[grind] def maxNumber : Int := monthStart maxMonth+31

theorem month_of_number {d : Date} (h : minNumber≤dayNumber d ∧ dayNumber d≤ maxNumber) :
    minMonth≤d.month ∧ d.month≤ maxMonth := by
  have hfirst := d.first
  have hlast := d.last
  unfold dayNumber minNumber maxNumber at h
  constructor
  · by_contra hlow
    have hgap := monthStart_gap (not_le.mp hlow)
    omega
  · by_contra hhigh
    have hgap := monthStart_gap (not_le.mp hhigh)
    have hmax : monthLength maxMonth=31 := by decide
    omega

theorem NaiveDate.number_bounds (d : NaiveDate) : minNumber≤d.number ∧ d.number≤ maxNumber := by
  have hfirst := d.date.first
  have hlast := d.date.last
  have hmax : monthLength maxMonth=31 := by decide
  have hmin := monthLength_bounds minMonth
  have habove := d.above
  have hbelow := d.below
  unfold NaiveDate.number dayNumber minNumber maxNumber
  constructor
  · rcases eq_or_lt_of_le habove with heq | hlt
    · rw [←heq]
      omega
    · have hgap := monthStart_gap hlt
      omega
  · rcases eq_or_lt_of_le hbelow with heq | hlt
    · rw [heq] at hlast ⊢
      omega
    · have hgap := monthStart_gap hlt
      omega

/-- Move a date by days, inside the date type. -/
@[grind] def NaiveDate.checkedAddDays (d : NaiveDate) (days : Int) : Option NaiveDate :=
  if h : minNumber≤d.number+days ∧ d.number+days≤ maxNumber then
    some ⟨moveDays d.date days,
      (month_of_number (by rw [dayNumber_moveDays]; exact h)).1,
      (month_of_number (by rw [dayNumber_moveDays]; exact h)).2⟩
  else none

theorem NaiveDate.checkedAddDays_eq (d e : NaiveDate) :
    d.checkedAddDays (e.number-d.number)=some e := by
  have he := e.number_bounds
  have hsum : d.number+(e.number-d.number)=e.number := by omega
  unfold NaiveDate.checkedAddDays
  rw [dif_pos (by rw [hsum]; exact he)]
  refine congrArg some (NaiveDate.eq_of ?_)
  exact moveDays_eq (by rw [←NaiveDate.number]; exact hsum)

theorem NaiveDate.number_checkedAddDays {d e : NaiveDate} {days : Int} (h : d.checkedAddDays days=some e) :
    e.number=d.number+days := by
  unfold NaiveDate.checkedAddDays at h
  split_ifs at h with hrange
  rw [←Option.some.inj h]
  exact dayNumber_moveDays d.date days

theorem NaiveDate.checkedAddDays_none {d : NaiveDate} {days : Int} :
    d.checkedAddDays days=none ↔ ¬(minNumber≤d.number+days ∧ d.number+days≤ maxNumber) := by
  unfold NaiveDate.checkedAddDays
  split_ifs with h <;> simp [h]

/-- Move a date by months, inside the date type, to the last day where the month
is too short. -/
@[grind] def NaiveDate.checkedAddMonths (d : NaiveDate) (months : Int) : Option NaiveDate :=
  if h : minMonth≤d.date.month+months ∧ d.date.month+months≤ maxMonth then
    some ⟨moveMonths d.date months,h.1,h.2⟩
  else none

/-- A time of day. -/
structure NaiveTime where
  /-- Second of the day. -/
  secs : Int
  /-- Nanoseconds, two thousand millions of them inside a leap second. -/
  frac : Int
  /-- Seconds are of one day. -/
  day : 0≤ secs ∧ secs<86400
  /-- Nanoseconds are of one second, or of a leap second. -/
  second : 0≤frac ∧ frac<2000000000
  deriving DecidableEq

theorem NaiveTime.eq_of {a b : NaiveTime} (hsecs : a.secs=b.secs) (hfrac : a.frac=b.frac) : a=b := by
  cases a with
  | mk secs frac _ _ =>
    cases b with
    | mk secs' frac' _ _ =>
      simp only at hsecs hfrac
      cases hsecs
      cases hfrac
      rfl

/-- The time is inside a leap second. -/
@[grind] def NaiveTime.Leap (t : NaiveTime) : Prop := 1000000000≤t.frac

/-- Whether a time is inside a leap second can be computed. -/
instance NaiveTime.leapDecidable (t : NaiveTime) : Decidable t.Leap :=
  inferInstanceAs (Decidable (_≤_))

/-- Midnight. -/
@[grind] def midnight : NaiveTime := ⟨0,0,by decide,by decide⟩

theorem second_one : (0 : Int)≤1 ∧ (1 : Int)<86400 := by decide

/-- Nanoseconds of an ordinary day. -/
@[grind] def nanosPerDay : Int := 86400000000000

/-- The ordinary time at a nanosecond, with the days before it. -/
@[grind] def ordinaryTime (nanos : Int) : NaiveTime×Int :=
  (⟨nanos%nanosPerDay/1000000000,nanos%1000000000,
    by unfold nanosPerDay; omega,by omega⟩,nanos/nanosPerDay)

/-- Move a time by nanoseconds, with the days carried. A leap second is taken to
exist only when the time is inside it. -/
@[grind] def NaiveTime.overflowingAdd (t : NaiveTime) (nanos : Int) : NaiveTime×Int :=
  if t.frac<1000000000 then ordinaryTime (t.secs*1000000000+t.frac+nanos)
  else if hover : 2000000000≤t.frac+nanos then ordinaryTime (t.secs*1000000000+t.frac+nanos-1000000000)
  else if h : 1000000000≤t.frac+nanos then (⟨t.secs,t.frac+nanos,t.day,by omega⟩,0)
  else ordinaryTime (t.secs*1000000000+t.frac+nanos)

/-- A local date-time. -/
structure NaiveDateTime where
  /-- The date. -/
  date : NaiveDate
  /-- The time of day. -/
  time : NaiveTime
  deriving DecidableEq

/-- Move a local date-time by nanoseconds, inside the date type. -/
@[grind] def NaiveDateTime.checkedAdd (dt : NaiveDateTime) (nanos : Int) : Option NaiveDateTime :=
  let moved := dt.time.overflowingAdd nanos
  (dt.date.checkedAddDays moved.2).map fun date => ⟨date,moved.1⟩

/-- An offset from UTC, of less than a day. -/
structure FixedOffset where
  /-- Seconds that the local time is ahead. -/
  seconds : Int
  /-- Offsets are shorter than a day. -/
  bound : -86400< seconds ∧ seconds<86400
  deriving DecidableEq

/-- Temporal values. -/
inductive Temporal where
  | date (date : NaiveDate)
  | localTime (time : NaiveTime)
  | time (time : NaiveTime) (offset : FixedOffset)
  | localDateTime (datetime : NaiveDateTime)
  | dateTime (datetime : NaiveDateTime) (offset : FixedOffset) (zone : Option String)
  deriving DecidableEq

/-- Durations: calendar and clock components side by side. -/
structure CypherDuration where
  /-- Months. -/
  months : Int
  /-- Days. -/
  days : Int
  /-- Seconds. -/
  seconds : Int
  /-- Nanoseconds. -/
  nanos : Int
  deriving DecidableEq

/-- The clock part of a duration in nanoseconds. -/
@[grind] def CypherDuration.clock (d : CypherDuration) : Int := d.seconds*1000000000+d.nanos

/-- A word of 64 bits, or a panic. -/
@[grind] def checkedI64 (n : Int) : Temporally Int :=
  if -9223372036854775808≤n ∧ n≤9223372036854775807 then .ok n else .error .panic

/-- The value inside, or the panic of an unwrapped absence. -/
@[grind] def unwrap {α : Type} : Option α → Temporally α
  | some a => .ok a
  | none => .error .panic

/-- The date of a temporal value that has one. -/
@[grind] def extractDate : Temporal → Option NaiveDate
  | .date d => some d
  | .localDateTime dt => some dt.date
  | .dateTime dt _ _ => some dt.date
  | _ => none

/-- The time of a temporal value; a date is taken at midnight. -/
@[grind] def extractTime : Temporal → Option NaiveTime
  | .date _ => some midnight
  | .localTime t => some t
  | .time t _ => some t
  | .localDateTime dt => some dt.time
  | .dateTime dt _ _ => some dt.time

/-- The offset of a temporal value, zero for local ones. -/
@[grind] def extractOffsetSecs : Temporal → Int
  | .time _ offset => offset.seconds
  | .dateTime _ offset _ => offset.seconds
  | _ => 0

/-- Times without a date. -/
@[grind] def isTimeOnly : Temporal → Bool
  | .localTime _ => true
  | .time _ _ => true
  | _ => false

/-- Values with a date. -/
@[grind] def hasDate : Temporal → Bool
  | .date _ => true
  | .localDateTime _ => true
  | .dateTime _ _ _ => true
  | _ => false

/-- Values with an offset. -/
@[grind] def isOffsetAware : Temporal → Bool
  | .time _ _ => true
  | .dateTime _ _ _ => true
  | _ => false

/-- The zone name of a date-time. -/
@[grind] def extractTzName : Temporal → Option String
  | .dateTime _ _ zone => zone
  | _ => none

end GraphDbLite.TemporalValues
