import GraphDbLite.DurationBetween
import GraphDbLite.IsoWeeks

/-!
# Fields of dates and times

Dates are made from a year with month and day, with an ordinal, or with a week
and weekday, and times from their fields; each constructor fails outside the
range of a field or of the date type. The accessors read the fields back.
-/

namespace GraphDbLite.DateFields

open Calendar IsoWeeks TemporalValues DurationBetween

/-- The date of a day number, when the date type has it. -/
@[grind] def fromNumDaysFromCe (number : Int) : Option NaiveDate := epochDate.checkedAddDays (number-epochDate.number)

/-- The date of a year and ordinal, when the date type has it. -/
@[grind] def fromYo (year ordinal : Int) : Option NaiveDate :=
  if 1≤ordinal ∧ ordinal≤yearLength year then fromNumDaysFromCe (yearStart year+ordinal) else none

/-- The date of a year of weeks, a week and a weekday, when the date type has it. -/
@[grind] def fromIsoywd (year week day : Int) : Option NaiveDate :=
  if 1≤ week ∧ week≤ isoWeeks year then fromNumDaysFromCe (isoNumber year week day) else none

/-- Hour of a time. -/
@[grind] def hour (t : NaiveTime) : Int := t.secs/3600

/-- Minute of a time. -/
@[grind] def minute (t : NaiveTime) : Int := t.secs/60%60

/-- Second of a time. -/
@[grind] def second (t : NaiveTime) : Int := t.secs%60

/-- The time of its fields; a leap second is only accepted at the end of a minute. -/
@[grind] def fromHmsNano (hour min sec nano : Int) : Option NaiveTime :=
  if h : (0≤hour ∧ hour<24) ∧ (0≤ min ∧ min<60) ∧ (0≤ sec ∧ sec<60) ∧ (0≤nano ∧ nano<2000000000) ∧
      (1000000000≤nano → sec=59) then
    some ⟨hour*3600+min*60+sec,nano,by omega,h.2.2.2.1⟩
  else none

/-- The time of its fields, without a fraction. -/
@[grind] def fromHms (hour min sec : Int) : Option NaiveTime := fromHmsNano hour min sec 0

variable {d : NaiveDate} {year day : Int}

theorem fromNumDaysFromCe_eq {number : Int} : fromNumDaysFromCe number=some d ↔ d.number=number := by
  unfold fromNumDaysFromCe
  constructor
  · intro h
    have hnumber := NaiveDate.number_checkedAddDays h
    omega
  · intro h
    rw [←h]
    exact NaiveDate.checkedAddDays_eq epochDate d

theorem fromNumDaysFromCe_none {number : Int} :
    fromNumDaysFromCe number=none ↔ ¬(minNumber≤number ∧ number≤ maxNumber) := by
  have hsame : epochDate.number+(number-epochDate.number)=number := by omega
  rw [fromNumDaysFromCe,NaiveDate.checkedAddDays_none,hsame]

theorem fromYo_eq (h : fromYo year day=some d) : d.year=year ∧ ordinal d.date=day := by
  unfold fromYo at h
  split_ifs at h with hday
  exact of_ordinal hday (fromNumDaysFromCe_eq.mp h)

theorem fromYo_self (d : NaiveDate) : fromYo d.year (ordinal d.date)=some d := by
  have hbounds : 1≤ordinal d.date ∧ ordinal d.date≤yearLength d.year := ordinal_bounds d.date
  have hnumber : d.number=yearStart d.year+ordinal d.date := by
    have hyear : yearOf d.date=d.year := rfl
    unfold ordinal NaiveDate.number
    rw [hyear]
    omega
  rw [fromYo,if_pos hbounds]
  exact fromNumDaysFromCe_eq.mpr hnumber

theorem fromIsoywd_eq {week : Int} (hday : 0≤day ∧ day<7) (h : fromIsoywd year week day=some d) :
    isoYear d.date=year ∧ isoWeek d.date=week ∧ weekday d.number=day := by
  unfold fromIsoywd at h
  split_ifs at h with hweek
  exact of_isoNumber hweek hday (fromNumDaysFromCe_eq.mp h)

theorem fromIsoywd_self (d : NaiveDate) : fromIsoywd (isoYear d.date) (isoWeek d.date) (weekday d.number)=some d := by
  rw [fromIsoywd,if_pos (isoWeek_bounds d.date)]
  exact fromNumDaysFromCe_eq.mpr (isoNumber_self d.date).symm

theorem fromYmd_eq {month : Int} (h : fromYmd year month day=some d) : d.year=year ∧ d.month=month ∧ d.day=day := by
  unfold fromYmd at h
  split_ifs at h with hrange
  cases h
  have hyear : (12*year+(month-1))/12=year := by omega
  have hmonth : (12*year+(month-1))%12+1=month := by omega
  exact ⟨hyear,hmonth,rfl⟩

theorem fromHmsNano_eq {h m s n : Int} {t : NaiveTime} (heq : fromHmsNano h m s n=some t) :
    hour t=h ∧ minute t=m ∧ second t=s ∧ t.frac=n := by
  unfold fromHmsNano at heq
  split_ifs at heq with hrange
  cases heq
  have hhour : (h*3600+m*60+s)/3600=h := by omega
  have hminute : (h*3600+m*60+s)/60%60=m := by omega
  have hsecond : (h*3600+m*60+s)%60=s := by omega
  exact ⟨hhour,hminute,hsecond,rfl⟩

theorem fields_bounds (t : NaiveTime) : (0≤hour t ∧ hour t<24) ∧
    (0≤ minute t ∧ minute t<60) ∧ (0≤ second t ∧ second t<60) ∧
    hour t*3600+minute t*60+second t=t.secs := by
  have hday := t.day
  unfold hour minute second
  omega

/-- A time is the one of its fields unless it is a leap second inside a minute. -/
theorem fromHmsNano_self {t : NaiveTime} (h : t.Leap → second t=59) :
    fromHmsNano (hour t) (minute t) (second t) t.frac=some t := by
  have hfields := fields_bounds t
  have hrange : (0≤hour t ∧ hour t<24) ∧ (0≤ minute t ∧ minute t<60) ∧
      (0≤ second t ∧ second t<60) ∧ (0≤t.frac ∧ t.frac<2000000000) ∧
      (1000000000≤t.frac → second t=59) := ⟨hfields.1,hfields.2.1,hfields.2.2.1,t.second,h⟩
  rw [fromHmsNano,dif_pos hrange]
  exact congrArg some (NaiveTime.eq_of hfields.2.2.2 rfl)

/-- A component of a date by its name. The first of the quarter is always a date. -/
@[grind] def dateAccessor (d : NaiveDate) (prop : String) : Option Int :=
  match prop with
  | "year" => some d.year
  | "month" => some d.month
  | "day" => some d.day
  | "ordinalDay" => some (ordinal d.date)
  | "weekYear" => some (isoYear d.date)
  | "week" => some (isoWeek d.date)
  | "dayOfWeek" | "weekDay" => some (weekday d.number+1)
  | "quarter" => some ((d.month-1)/3+1)
  | "dayOfQuarter" =>
    let qStartMonth := (d.month-1)/3*3+1
    (fromYmd d.year qStartMonth 1).map fun qStart => d.number-qStart.number+1
  | _ => none

/-- A component of a time by its name. -/
@[grind] def localTimeAccessor (t : NaiveTime) (prop : String) : Option Int :=
  match prop with
  | "hour" => some (hour t)
  | "minute" => some (minute t)
  | "second" => some (second t)
  | "nanosecond" => some (t.frac%1000000000)
  | "microsecond" => some (t.frac%1000000000/1000)
  | "millisecond" => some (t.frac%1000000000/1000000)
  | _ => none

/-- A component of a local date-time: of its date, or else of its time. -/
@[grind] def localDateTimeAccessor (dt : NaiveDateTime) (prop : String) : Option Int :=
  (dateAccessor dt.date prop).or (localTimeAccessor dt.time prop)

theorem fromYmd_firstOf {month index : Int} (h : minMonth≤ index ∧ index≤ maxMonth) (hyear : index/12=year)
    (hmonth : index%12+1=month) : fromYmd year month 1=some (firstOf index h) := by
  rw [←hyear,←hmonth]
  exact fromYmd_self (firstOf index h)

theorem quarter_range (d : NaiveDate) : minMonth≤d.date.month/3*3 ∧ d.date.month/3*3≤ maxMonth := by
  have habove := d.above
  have hbelow := d.below
  unfold minMonth at habove ⊢
  omega

theorem quarterStart (d : NaiveDate) :
    fromYmd d.year ((d.month-1)/3*3+1) 1=some (firstOf (d.date.month/3*3) (quarter_range d)) := by
  have hyear : d.year=d.date.month/12 := rfl
  have hmonth : d.month=d.date.month%12+1 := rfl
  exact fromYmd_firstOf _ (by omega) (by omega)

theorem dateAccessor_dayOfQuarter (d : NaiveDate) :
    dateAccessor d "dayOfQuarter"=some (dayOfQuarter d.date) := by
  have hstart : (firstOf (d.date.month/3*3) (quarter_range d)).number=monthStart (d.date.month/3*3)+1 := rfl
  have hnumber : d.number=dayNumber d.date := rfl
  have hvalue : dateAccessor d "dayOfQuarter"=
      (fromYmd d.year ((d.month-1)/3*3+1) 1).map fun qStart => d.number-qStart.number+1 := rfl
  rw [hvalue,quarterStart]
  refine congrArg some ?_
  simp only [hstart]
  unfold dayOfQuarter
  omega

end GraphDbLite.DateFields
