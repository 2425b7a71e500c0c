import GraphDbLite.DateFields
import GraphDbLite.DurationArithmetic
import Mathlib.Order.Bounds.Basic

/-!
# Truncation of dates and times

Truncation takes a date and a time to the start of a unit, from the millennium
down to the microsecond. It rounds down, except that years are divided towards
zero, that a week can start before the date type does, and that a leap second
inside a minute has no constructor.
-/

namespace GraphDbLite.Truncation

open Calendar IsoWeeks TemporalValues DurationBetween DurationText DateFields

/-- Greatest element of a set that is not above another. -/
def RoundsDown {α : Type} [LE α] (aligned : Set α) (x rounded : α) : Prop :=
  IsGreatest {e | e∈aligned ∧ e≤x} rounded

section

variable {α : Type} [PartialOrder α] {aligned : Set α} {x y rounded other : α}

theorem RoundsDown.again (h : RoundsDown aligned x rounded) : RoundsDown aligned rounded rounded :=
  ⟨⟨h.1.1,le_rfl⟩,fun _ he => he.2⟩

theorem RoundsDown.le (hx : RoundsDown aligned x rounded) (hy : RoundsDown aligned y other) (h : x≤y) :
    rounded≤other := hy.2 ⟨hx.1.1,le_trans hx.1.2 h⟩

theorem RoundsDown.unique (hx : RoundsDown aligned x rounded) (hy : RoundsDown aligned x other) :
    rounded=other := IsGreatest.unique hx hy

end

/-- Place of a date-time in their order; every second has room for a leap second. -/
def place (dt : NaiveDateTime) : Int := (dt.date.number*86400+dt.time.secs)*2000000000+dt.time.frac

theorem place_injective : Function.Injective place := by
  intro x y h
  have hx := x.time.day
  have hy := y.time.day
  have hxFrac := x.time.second
  have hyFrac := y.time.second
  unfold place at h
  have hnumber : x.date.number=y.date.number := by omega
  have hsecs : x.time.secs=y.time.secs := by omega
  have hfrac : x.time.frac=y.time.frac := by omega
  cases x with
  | mk dx tx =>
    cases y with
    | mk dy ty =>
      have hdate : dx=dy := NaiveDate.number_inj.mp hnumber
      have htime : tx=ty := NaiveTime.eq_of hsecs hfrac
      rw [hdate,htime]

/-- Date-times are ordered by their places. -/
instance dateTimeOrder : PartialOrder NaiveDateTime :=
  @PartialOrder.lift _ _ Int.instLinearOrder.toPartialOrder place place_injective

/-- Units from the day on. -/
def calendarUnits : List String :=
  ["millennium","century","decade","year","weekYear","quarter","month","week","day"]

/-- Units below the day. -/
def clockUnits : List String := ["hour","minute","second","millisecond","microsecond"]

/-- Units of truncation. -/
def units : List String := calendarUnits++clockUnits

/-- The value inside, or the panic of an unwrapped absence. -/
def unwrapped {α : Type} : Option α → Reading α
  | some a => .ok a
  | none => .error .panic

/-- The date at the start of a unit. -/
def truncateDateCore (unit : String) (date : NaiveDate) : Reading NaiveDate :=
  let y := date.year
  match unit with
  | "millennium" => unwrapped (fromYmd (y.tdiv 1000*1000) 1 1)
  | "century" => unwrapped (fromYmd (y.tdiv 100*100) 1 1)
  | "decade" => unwrapped (fromYmd (y.tdiv 10*10) 1 1)
  | "year" => unwrapped (fromYmd y 1 1)
  | "weekYear" => unwrapped (fromIsoywd (isoYear date.date) 1 0)
  | "quarter" =>
    let q := (date.month-1)/3
    unwrapped (fromYmd y (q*3+1) 1)
  | "month" => unwrapped (fromYmd y date.month 1)
  | "week" => unwrapped (date.checkedAddDays (-weekday date.number))
  | "day" | "hour" | "minute" | "second" | "millisecond" | "microsecond" => .ok date
  | _ => refuse s!"unsupported truncation unit for date: {unit}"

/-- The time at the start of a unit. -/
def truncateTimeCore (unit : String) (time : NaiveTime) : Reading NaiveTime :=
  match unit with
  | "millennium" | "century" | "decade" | "year" | "weekYear" | "quarter" | "month" | "week" | "day" =>
    unwrapped (fromHms 0 0 0)
  | "hour" => unwrapped (fromHms (hour time) 0 0)
  | "minute" => unwrapped (fromHms (hour time) (minute time) 0)
  | "second" => unwrapped (fromHms (hour time) (minute time) (second time))
  | "millisecond" =>
    let ms := time.frac/1000000
    unwrapped (fromHmsNano (hour time) (minute time) (second time) (ms*1000000))
  | "microsecond" =>
    let us := time.frac/1000
    unwrapped (fromHmsNano (hour time) (minute time) (second time) (us*1000))
  | _ => refuse s!"unsupported truncation unit for time: {unit}"

/-- A date that a unit starts on. -/
def StartsDate (unit : String) (d : NaiveDate) : Prop :=
  match unit with
  | "millennium" => d.year%1000=0 ∧ d.month=1 ∧ d.day=1
  | "century" => d.year%100=0 ∧ d.month=1 ∧ d.day=1
  | "decade" => d.year%10=0 ∧ d.month=1 ∧ d.day=1
  | "year" => d.month=1 ∧ d.day=1
  | "weekYear" => isoWeek d.date=1 ∧ weekday d.number=0
  | "quarter" => (d.month-1)%3=0 ∧ d.day=1
  | "month" => d.day=1
  | "week" => weekday d.number=0
  | _ => True

/-- A time that a unit starts at; a leap second counts with the second before it. -/
def StartsTime (unit : String) (t : NaiveTime) : Prop :=
  match unit with
  | "hour" => minute t=0 ∧ second t=0 ∧ t.frac=0
  | "minute" => second t=0 ∧ t.frac=0
  | "second" => t.frac=0
  | "millisecond" => t.frac%1000000=0
  | "microsecond" => t.frac%1000=0
  | _ => hour t=0 ∧ minute t=0 ∧ second t=0 ∧ t.frac=0

/-- Date-times that a unit starts at. -/
def aligned (unit : String) : Set NaiveDateTime := {dt | StartsDate unit dt.date ∧ StartsTime unit dt.time}

/-- Date and time truncated together are the last start of the unit. -/
def TruncatesDown (unit : String) (d : NaiveDate) (t : NaiveTime) : Prop :=
  ∃ d' t',truncateDateCore unit d=.ok d' ∧ truncateTimeCore unit t=.ok t' ∧
    RoundsDown (aligned unit) ⟨d,t⟩ ⟨d',t'⟩

/-- Years before zero are only divided exactly, and no week starts before the
date type. -/
def DateMeets (unit : String) (d : NaiveDate) : Prop :=
  match unit with
  | "millennium" => 0≤d.year ∨ d.year%1000=0
  | "century" => 0≤d.year ∨ d.year%100=0
  | "decade" => 0≤d.year ∨ d.year%10=0
  | "weekYear" => minYear< isoYear d.date
  | "week" => minNumber+4≤d.number
  | _ => True

/-- Fractions of a leap second are only cut at the end of a minute. -/
def TimeMeets (unit : String) (t : NaiveTime) : Prop :=
  match unit with
  | "millisecond" => t.Leap → second t=59
  | "microsecond" => t.Leap → second t=59
  | _ => True

/-- Dates of the date type by their numbers. -/
def DateRoundsDown (unit : String) (d d' : NaiveDate) : Prop :=
  StartsDate unit d' ∧ d'.number≤d.number ∧ ∀ e,StartsDate unit e → e.number≤d.number → e.number≤d'.number

/-- The first of a month with a number divisible by a unit of months is the last
such first before a date. -/
theorem firstOf_last {k : Int} (hk : 0<k) (d : NaiveDate)
    (h : minMonth≤d.date.month/k*k ∧ d.date.month/k*k≤ maxMonth) :
    (firstOf (d.date.month/k*k) h).number≤d.number ∧
    ∀ e : NaiveDate,e.date.month%k=0 → e.number≤d.number → e.day=1 →
      e.number≤(firstOf (d.date.month/k*k) h).number := by
  have hfirst := d.date.first
  have hnumber : (firstOf (d.date.month/k*k) h).number=monthStart (d.date.month/k*k)+1 := rfl
  have hbelow : d.date.month/k*k≤d.date.month := Int.ediv_mul_le _ hk.ne'
  have hstart := monthStart_le hbelow
  constructor
  · rw [hnumber]
    unfold NaiveDate.number dayNumber
    omega
  · intro e hmonth hle hday
    have hmonthLe : e.date.month≤d.date.month := by
      by_contra hlater
      have hlt := @dayNumber_lt_of_month d.date e.date (by omega)
      unfold NaiveDate.number at hle
      omega
    have hdiv : e.date.month/k≤d.date.month/k := Int.ediv_le_ediv hk hmonthLe
    have hsame : e.date.month/k*k=e.date.month := Int.ediv_mul_cancel (Int.dvd_of_emod_eq_zero hmonth)
    have hmul : e.date.month/k*k≤d.date.month/k*k := Int.mul_le_mul_of_nonneg_right hdiv hk.le
    have hearlier := monthStart_le (hsame ▸ hmul)
    have hvalue : e.number=monthStart e.date.month+e.day := rfl
    rw [hnumber,hvalue]
    omega

/-- A unit of months takes a date to the last first of a month that it starts
on. -/
theorem monthUnit_rounds {unit : String} {k : Int} (hk : 0<k) (d : NaiveDate)
    (h : minMonth≤d.date.month/k*k ∧ d.date.month/k*k≤ maxMonth)
    (hunit : ∀ e : NaiveDate,StartsDate unit e ↔ e.date.month%k=0 ∧ e.day=1) :
    DateRoundsDown unit d (firstOf (d.date.month/k*k) h) := by
  have hlast := firstOf_last hk d h
  have hstarts : StartsDate unit (firstOf (d.date.month/k*k) h) :=
    (hunit _).mpr ⟨Int.mul_emod_left _ _,rfl⟩
  refine ⟨hstarts,hlast.1,?_⟩
  intro e he hle
  have hfields := (hunit e).mp he
  exact hlast.2 e hfields.1 hle hfields.2

theorem fromYmd_years {n : Int} (hn : 0<n) (d : NaiveDate) (hmeets : 0≤d.year ∨ d.year%n=0) :
    ∃ h,fromYmd (d.year.tdiv n*n) 1 1=some (firstOf (d.date.month/(12*n)*(12*n)) h) := by
  have hyear : d.year=d.date.month/12 := rfl
  have hnested : d.date.month/(12*n)=d.year/n := (Int.ediv_ediv_of_nonneg (by decide)).symm
  have hindex : d.date.month/(12*n)*(12*n)=12*(d.year/n*n) := by
    rw [hnested]
    ring
  have habove := d.above
  have hbelow := d.below
  unfold minMonth at habove
  unfold maxMonth at hbelow
  have hle : d.year/n*n≤d.year := Int.ediv_mul_le _ hn.ne'
  have hdiv : d.year.tdiv n*n=d.year/n*n := by
    cases hmeets with
    | inl hpos => rw [Int.tdiv_eq_ediv_of_nonneg hpos]
    | inr hexact => rw [Int.tdiv_eq_ediv_of_dvd (Int.dvd_of_emod_eq_zero hexact)]
  have hrange : minMonth≤12*(d.year/n*n) ∧ 12*(d.year/n*n)≤ maxMonth := by
    unfold minMonth maxMonth
    refine ⟨?_,by omega⟩
    cases hmeets with
    | inl hpos =>
      have hquotient := Int.mul_nonneg (Int.ediv_nonneg hpos hn.le) hn.le
      have hmin : minYear<0 := by decide
      omega
    | inr hexact =>
      have hsame : d.year/n*n=d.year := Int.ediv_mul_cancel (Int.dvd_of_emod_eq_zero hexact)
      omega
  rw [hindex,hdiv]
  have hself := fromYmd_self (firstOf (12*(d.year/n*n)) hrange)
  have hdivTwelve : (firstOf (12*(d.year/n*n)) hrange).year=d.year/n*n := Int.mul_ediv_cancel_left _ (by decide)
  have hmodTwelve : (firstOf (12*(d.year/n*n)) hrange).month=1 := by
    have hzero : 12*(d.year/n*n)%12=0 := Int.mul_emod_right _ _
    have hmonth : (firstOf (12*(d.year/n*n)) hrange).date.month=12*(d.year/n*n) := rfl
    rw [NaiveDate.month,hmonth,hzero]
    rfl
  have hday : (firstOf (12*(d.year/n*n)) hrange).day=1 := rfl
  rw [hdivTwelve,hmodTwelve,hday] at hself
  exact ⟨hrange,hself⟩

theorem years_late {n : Int} (hn : 0<n) {d d' : NaiveDate} (hneg : d.year<0) (hrest : d.year%n≠0)
    (h : fromYmd (d.year.tdiv n*n) 1 1=some d') : d.number<d'.number := by
  have hfields := fromYmd_eq h
  have hdiv : d.year.tdiv n= -((-d.year)/n) := by
    have hsides := DurationArithmetic.towardZero d.year n
    omega
  have hle := Int.ediv_mul_le (-d.year) hn.ne'
  have hne : (-d.year)/n*n≠ -d.year := by
    intro heq
    have hdvd : n∣d.year := Int.dvd_neg.mp ⟨_,by rw [Int.mul_comm]; exact heq.symm⟩
    exact hrest (Int.emod_eq_zero_of_dvd hdvd)
  have hmul : -((-d.year)/n)*n= -((-d.year)/n*n) := Int.neg_mul _ _
  rw [hdiv,hmul] at hfields
  have hlater : d.year<d'.year := by omega
  unfold NaiveDate.year at hlater
  exact dayNumber_lt_of_month (by omega)

variable {d d' : NaiveDate} {unit : String} {t : NaiveTime}

theorem weekYear_rounds (h : fromIsoywd (isoYear d.date) 1 0=some d') :
    DateRoundsDown "weekYear" d d' ∧ isoYear d'.date=isoYear d.date := by
  have hfields := fromIsoywd_eq ⟨le_rfl,by decide⟩ h
  have hself := isoNumber_self d'.date
  have hinside := dayNumber_isoYear d.date
  have hnumber : d'.number=isoYearStart (isoYear d.date) := by
    have hday : weekday (dayNumber d'.date)=0 := hfields.2.2
    rw [hfields.1,hfields.2.1,hday] at hself
    unfold isoNumber at hself
    unfold NaiveDate.number
    omega
  refine ⟨⟨⟨hfields.2.1,hfields.2.2⟩,?_,?_⟩,hfields.1⟩
  · rw [hnumber]
    exact hinside.1
  · intro e he hle
    have heSelf := isoNumber_self e.date
    have heDay : weekday (dayNumber e.date)=0 := he.2
    rw [he.1,heDay] at heSelf
    unfold isoNumber at heSelf
    rw [hnumber]
    unfold NaiveDate.number at hle ⊢
    rcases lt_trichotomy (isoYear e.date) (isoYear d.date) with hlt | heq | hgt
    · have hgap := isoYearStart_gap hlt
      have hweeks := isoWeeks_spec (isoYear e.date)
      omega
    · rw [heq] at heSelf
      omega
    · have hgap := isoYearStart_gap hgt
      omega

theorem minNumber_eq : minNumber=yearStart minYear+1 ∧ weekday minNumber=3 := by decide

theorem isoYearStart_min : isoYearStart minYear=minNumber-3 := by decide

theorem date_rounds (hunit : unit∈calendarUnits) {d : NaiveDate} (h : DateMeets unit d) :
    ∃ d',truncateDateCore unit d=.ok d' ∧ DateRoundsDown unit d d' ∧ DateMeets unit d' := by
  have hyear : d.year=d.date.month/12 := rfl
  have hmonth : d.month=d.date.month%12+1 := rfl
  have habove := d.above
  have hbelow := d.below
  have hbounds := d.number_bounds
  unfold minMonth at habove
  have hyears : ∀ n : Int,0<n → 0≤d.year ∨ d.year%n=0 → ∀ unit' : String,
      (∀ e : NaiveDate,StartsDate unit' e ↔ e.date.month%(12*n)=0 ∧ e.day=1) →
      ∃ d',unwrapped (fromYmd (d.year.tdiv n*n) 1 1)=.ok d' ∧ DateRoundsDown unit' d d' ∧ d'.year%n=0 := by
    intro n hn hmeets unit' hstarts
    have ⟨hrange,hymd⟩ := fromYmd_years hn d hmeets
    have hrounds := monthUnit_rounds (by omega) d hrange hstarts
    rw [hymd]
    refine ⟨_,rfl,hrounds,?_⟩
    have hindex : (firstOf _ hrange).year=d.date.month/(12*n)*(12*n)/12 := rfl
    have hswap : d.date.month/(12*n)*(12*n)=12*(d.date.month/(12*n)*n) := by ring
    rw [hindex,hswap,Int.mul_ediv_cancel_left _ (by decide)]
    exact Int.mul_emod_left _ _
  have hmonths : ∀ k : Int,k=12 ∨ k=3 ∨ k=1 → minMonth≤d.date.month/k*k ∧ d.date.month/k*k≤ maxMonth := by
    intro k hk
    unfold minMonth
    rcases hk with rfl | rfl | rfl <;> omega
  simp only [calendarUnits,List.mem_cons,List.not_mem_nil,or_false] at hunit
  rcases hunit with rfl | rfl | rfl | rfl | rfl | rfl | rfl | rfl | rfl
  · have ⟨d',hd,hrounds,hexact⟩ := hyears 1000 (by decide) h "millennium" (by
      intro e
      simp only [StartsDate,NaiveDate.year,NaiveDate.month]
      omega)
    exact ⟨d',hd,hrounds,.inr hexact⟩
  · have ⟨d',hd,hrounds,hexact⟩ := hyears 100 (by decide) h "century" (by
      intro e
      simp only [StartsDate,NaiveDate.year,NaiveDate.month]
      omega)
    exact ⟨d',hd,hrounds,.inr hexact⟩
  · have ⟨d',hd,hrounds,hexact⟩ := hyears 10 (by decide) h "decade" (by
      intro e
      simp only [StartsDate,NaiveDate.year,NaiveDate.month]
      omega)
    exact ⟨d',hd,hrounds,.inr hexact⟩
  · have hrange := hmonths 12 (by omega)
    have hymd : fromYmd d.year 1 1=some (firstOf _ hrange) := fromYmd_firstOf hrange (by omega) (by omega)
    have hrounds := @monthUnit_rounds "year" 12 (by decide) d hrange (by
      intro e
      simp only [StartsDate,NaiveDate.month]
      omega)
    exact ⟨_,congrArg unwrapped hymd,hrounds,trivial⟩
  · have hmeets : minYear< isoYear d.date := h
    have hgap := isoYearStart_gap hmeets
    have hfirst := isoYearStart_min
    have hweeks := isoWeeks_spec minYear
    have hyearWeeks := isoWeeks_spec (isoYear d.date)
    have hinside := dayNumber_isoYear d.date
    have hnumber : d.number=dayNumber d.date := rfl
    have hsome : fromIsoywd (isoYear d.date) 1 0≠none := by
      rw [fromIsoywd,if_pos ⟨le_rfl,by omega⟩,Ne,fromNumDaysFromCe_none,not_not]
      unfold isoNumber
      omega
    have ⟨d',hd'⟩ := Option.ne_none_iff_exists'.mp hsome
    have hrounds := weekYear_rounds hd'
    have hstays : minYear< isoYear d'.date := hrounds.2 ▸ hmeets
    exact ⟨d',congrArg unwrapped hd',hrounds.1,hstays⟩
  · have hrange := hmonths 3 (by omega)
    have hymd : fromYmd d.year ((d.month-1)/3*3+1) 1=some (firstOf _ hrange) :=
      fromYmd_firstOf hrange (by omega) (by omega)
    have hrounds := @monthUnit_rounds "quarter" 3 (by decide) d hrange (by
      intro e
      simp only [StartsDate,NaiveDate.month]
      omega)
    exact ⟨_,congrArg unwrapped hymd,hrounds,trivial⟩
  · have hrange := hmonths 1 (by omega)
    have hymd : fromYmd d.year d.month 1=some (firstOf _ hrange) :=
      fromYmd_firstOf hrange (by omega) (by omega)
    have hrounds := @monthUnit_rounds "month" 1 (by decide) d hrange (by
      intro e
      simp only [StartsDate]
      omega)
    exact ⟨_,congrArg unwrapped hymd,hrounds,trivial⟩
  · have hmeets : minNumber+4≤d.number := h
    have hthursday := minNumber_eq.2
    have hsome : d.checkedAddDays (-weekday d.number)≠none := by
      rw [Ne,NaiveDate.checkedAddDays_none,not_not]
      unfold weekday at hthursday ⊢
      omega
    have ⟨d',hd'⟩ := Option.ne_none_iff_exists'.mp hsome
    have hnumber := NaiveDate.number_checkedAddDays hd'
    have hstarts : weekday d'.number=0 := by
      unfold weekday at hnumber ⊢
      omega
    have hstays : minNumber+4≤d'.number := by
      unfold weekday at hthursday hnumber
      omega
    refine ⟨d',congrArg unwrapped hd',⟨hstarts,?_,?_⟩,hstays⟩
    · unfold weekday at hnumber
      omega
    · intro e he hle
      have hmonday : weekday e.number=0 := he
      unfold weekday at hnumber hmonday
      omega
  · exact ⟨d,rfl,⟨trivial,le_rfl,fun _ _ hle => hle⟩,trivial⟩

theorem date_late (hunit : unit∈calendarUnits) (h : ¬DateMeets unit d) (heq : truncateDateCore unit d=.ok d') :
    d.number<d'.number := by
  have hbounds := d.number_bounds
  have hbounds' := d'.number_bounds
  have hsome : ∀ o : Option NaiveDate,unwrapped o=.ok d' → o=some d' := by
    intro o ho
    cases o with
    | none => cases ho
    | some a => exact congrArg some (Except.ok.inj ho)
  simp only [calendarUnits,List.mem_cons,List.not_mem_nil,or_false] at hunit
  rcases hunit with rfl | rfl | rfl | rfl | rfl | rfl | rfl | rfl | rfl
  · have hyear := not_or.mp h
    exact @years_late 1000 (by decide) d d' (by omega) hyear.2 (hsome _ heq)
  · have hyear := not_or.mp h
    exact @years_late 100 (by decide) d d' (by omega) hyear.2 (hsome _ heq)
  · have hyear := not_or.mp h
    exact @years_late 10 (by decide) d d' (by omega) hyear.2 (hsome _ heq)
  · exact absurd trivial h
  · have hearly : ¬minYear< isoYear d.date := h
    have hrounds := (weekYear_rounds (hsome _ heq)).1
    have hsame := (weekYear_rounds (hsome _ heq)).2
    have hnumber : d'.number=isoYearStart (isoYear d'.date) := by
      have hiso := isoNumber_self d'.date
      have hday : weekday (dayNumber d'.date)=0 := hrounds.1.2
      rw [hrounds.1.1,hday] at hiso
      unfold isoNumber at hiso
      unfold NaiveDate.number
      omega
    have hmin := isoYearStart_min
    rw [hsame] at hnumber
    rcases eq_or_lt_of_le (not_lt.mp hearly) with heqYear | hlt
    · rw [heqYear] at hnumber
      omega
    · have hgap := isoYearStart_gap hlt
      have hweeks := isoWeeks_spec (isoYear d.date)
      omega
  · exact absurd trivial h
  · exact absurd trivial h
  · have hearly : ¬minNumber+4≤d.number := h
    have hthursday := minNumber_eq.2
    have hnumber := NaiveDate.number_checkedAddDays (hsome _ heq)
    unfold weekday at hthursday hnumber
    omega
  · exact absurd trivial h

/-- Place of a time in its day. -/
def timePlace (t : NaiveTime) : Int := t.secs*2000000000+t.frac

/-- Times of the day by their places. -/
def TimeRoundsDown (unit : String) (t t' : NaiveTime) : Prop :=
  StartsTime unit t' ∧ timePlace t'≤timePlace t ∧
    ∀ e,StartsTime unit e → timePlace e≤timePlace t → timePlace e≤timePlace t'

theorem fromHmsNano_some {h m s n : Int} (hh : 0≤h ∧ h<24) (hm : 0≤ m ∧ m<60) (hs : 0≤ s ∧ s<60)
    (hn : 0≤n ∧ n<2000000000) (hleap : 1000000000≤n → s=59) :
    ∃ t,fromHmsNano h m s n=some t ∧ t.secs=h*3600+m*60+s ∧ t.frac=n := by
  rw [fromHmsNano,dif_pos ⟨hh,hm,hs,hn,hleap⟩]
  exact ⟨_,rfl,rfl,rfl⟩

theorem fraction_rounds {unit : String} {k : Int} (hk : k=1000000 ∨ k=1000)
    (hunit : ∀ e,StartsTime unit e ↔ e.frac%k=0) {t : NaiveTime} (h : t.Leap → second t=59) :
    ∃ t',fromHmsNano (hour t) (minute t) (second t) (t.frac/k*k)=some t' ∧ TimeRoundsDown unit t t' ∧
      (t'.Leap → second t'=59) := by
  have hfields := fields_bounds t
  have hfrac := t.second
  have hn : 0≤t.frac/k*k ∧ t.frac/k*k≤t.frac ∧ t.frac/k*k%k=0 ∧ (1000000000≤t.frac/k*k → 1000000000≤t.frac) := by
    rcases hk with rfl | rfl <;> omega
  have hleap : 1000000000≤t.frac/k*k → second t=59 := fun hover => h (hn.2.2.2 hover)
  have ⟨t',heq,hsecs,hfrac'⟩ := fromHmsNano_some hfields.1 hfields.2.1 hfields.2.2.1 (by omega) hleap
  have hsame := fromHmsNano_eq heq
  have hsecsSame : t'.secs=t.secs := hsecs.trans hfields.2.2.2
  refine ⟨t',heq,⟨?_,?_,?_⟩,?_⟩
  · rw [hunit,hfrac']
    exact hn.2.2.1
  · unfold timePlace
    omega
  · intro e he hle
    have hexact := (hunit e).mp he
    unfold timePlace at hle ⊢
    rw [hsecsSame,hfrac']
    rcases hk with rfl | rfl <;> omega
  · intro hover
    unfold NaiveTime.Leap at hover
    rw [hfrac'] at hover
    rw [hsame.2.2.1]
    exact hleap hover

theorem time_rounds (hunit : unit∈clockUnits) (h : TimeMeets unit t) :
    ∃ t',truncateTimeCore unit t=.ok t' ∧ TimeRoundsDown unit t t' ∧ TimeMeets unit t' := by
  have hfields := fields_bounds t
  have hfrac := t.second
  have hwhole : ∀ m s : Int,(0≤ m ∧ m<60) → (0≤ s ∧ s<60) →
      ∃ t',fromHms (hour t) m s=some t' ∧ t'.secs=hour t*3600+m*60+s ∧ t'.frac=0 :=
    fun m s hm hs => fromHmsNano_some hfields.1 hm hs (by omega) (by omega)
  simp only [clockUnits,List.mem_cons,List.not_mem_nil,or_false] at hunit
  rcases hunit with rfl | rfl | rfl | rfl | rfl
  · have ⟨t',heq,hsecs,hzero⟩ := hwhole 0 0 (by omega) (by omega)
    refine ⟨t',congrArg unwrapped heq,⟨?_,?_,?_⟩,trivial⟩
    · simp only [StartsTime,minute,second]
      omega
    · unfold timePlace
      omega
    · intro e he hle
      simp only [StartsTime,minute,second] at he
      unfold timePlace hour at *
      omega
  · have ⟨t',heq,hsecs,hzero⟩ := hwhole (minute t) 0 (by omega) (by omega)
    refine ⟨t',congrArg unwrapped heq,⟨?_,?_,?_⟩,trivial⟩
    · simp only [StartsTime,second]
      omega
    · unfold timePlace
      omega
    · intro e he hle
      simp only [StartsTime,second] at he
      unfold timePlace hour minute at *
      omega
  · have ⟨t',heq,hsecs,hzero⟩ := hwhole (minute t) (second t) (by omega) (by omega)
    refine ⟨t',congrArg unwrapped heq,⟨hzero,?_,?_⟩,trivial⟩
    · unfold timePlace
      omega
    · intro e he hle
      have heZero : e.frac=0 := he
      unfold timePlace at hle ⊢
      omega
  · have ⟨t',heq,hrounds,hstays⟩ := @fraction_rounds "millisecond" 1000000 (.inl rfl) (fun _ => Iff.rfl) t h
    exact ⟨t',congrArg unwrapped heq,hrounds,hstays⟩
  · have ⟨t',heq,hrounds,hstays⟩ := @fraction_rounds "microsecond" 1000 (.inr rfl) (fun _ => Iff.rfl) t h
    exact ⟨t',congrArg unwrapped heq,hrounds,hstays⟩

theorem time_panics (hunit : unit∈clockUnits) (h : ¬TimeMeets unit t) : truncateTimeCore unit t=.error .panic := by
  have hnone : ∀ k : Int,k=1000000 ∨ k=1000 → ¬(t.Leap → second t=59) →
      fromHmsNano (hour t) (minute t) (second t) (t.frac/k*k)=none := by
    intro k hk hmeets
    have hleap : t.Leap ∧ second t≠59 := by
      by_contra hboth
      exact hmeets fun hin => by_contra fun hne => hboth ⟨hin,hne⟩
    have hover : 1000000000≤t.frac/k*k := by
      have hin := hleap.1
      unfold NaiveTime.Leap at hin
      rcases hk with rfl | rfl <;> omega
    rw [fromHmsNano,dif_neg]
    intro hrange
    exact hleap.2 (hrange.2.2.2.2 hover)
  simp only [clockUnits,List.mem_cons,List.not_mem_nil,or_false] at hunit
  rcases hunit with rfl | rfl | rfl | rfl | rfl
  · exact absurd trivial h
  · exact absurd trivial h
  · exact absurd trivial h
  · exact congrArg unwrapped (hnone 1000000 (.inl rfl) h)
  · exact congrArg unwrapped (hnone 1000 (.inr rfl) h)

theorem place_eq (dt : NaiveDateTime) : place dt=dt.date.number*172800000000000+timePlace dt.time := by
  unfold place timePlace
  omega

theorem timePlace_bounds (t : NaiveTime) : 0≤timePlace t ∧ timePlace t<172800000000000 := by
  have hday := t.day
  have hfrac := t.second
  unfold timePlace
  omega

theorem midnight_of_starts {unit : String} (hunit : unit∈calendarUnits) {t : NaiveTime} :
    (StartsTime unit t ↔ t=midnight) ∧ truncateTimeCore unit t=.ok midnight ∧ TimeMeets unit t := by
  have hzero : hour t=0 ∧ minute t=0 ∧ second t=0 ∧ t.frac=0 ↔ t=midnight := by
    constructor
    · intro h
      have hfields := fields_bounds t
      exact NaiveTime.eq_of (show t.secs=0 by omega) h.2.2.2
    · intro h
      rw [h]
      decide
  simp only [calendarUnits,List.mem_cons,List.not_mem_nil,or_false] at hunit
  rcases hunit with rfl | rfl | rfl | rfl | rfl | rfl | rfl | rfl | rfl <;> exact ⟨hzero,rfl,trivial⟩

theorem date_of_clock (hunit : unit∈clockUnits) (d : NaiveDate) :
    StartsDate unit d ∧ truncateDateCore unit d=.ok d ∧ DateMeets unit d := by
  simp only [clockUnits,List.mem_cons,List.not_mem_nil,or_false] at hunit
  rcases hunit with rfl | rfl | rfl | rfl | rfl <;> exact ⟨trivial,rfl,trivial⟩

theorem calendar_rounds (hunit : unit∈calendarUnits) (t : NaiveTime) (h : DateRoundsDown unit d d') :
    RoundsDown (aligned unit) ⟨d,t⟩ ⟨d',midnight⟩ := by
  have hbounds := timePlace_bounds t
  have hzero : timePlace midnight=0 := rfl
  refine ⟨⟨⟨h.1,(midnight_of_starts hunit).1.mpr rfl⟩,?_⟩,?_⟩
  · have hle : place ⟨d',midnight⟩≤place ⟨d,t⟩ := by
      have hdates := h.2.1
      rw [place_eq,place_eq]
      simp only [hzero]
      omega
    exact hle
  · intro e he
    have hmidnight := (midnight_of_starts hunit).1.mp he.1.2
    have hle : place e≤place ⟨d,t⟩ := he.2
    rw [place_eq,place_eq,hmidnight] at hle
    have hdates := h.2.2 e.date he.1.1 (by simp only [hzero] at hle; omega)
    have hgoal : place e≤place ⟨d',midnight⟩ := by
      rw [place_eq,place_eq,hmidnight]
      simp only
      omega
    exact hgoal

theorem clock_rounds (hunit : unit∈clockUnits) (d : NaiveDate) {t t' : NaiveTime}
    (h : TimeRoundsDown unit t t') : RoundsDown (aligned unit) ⟨d,t⟩ ⟨d,t'⟩ := by
  have hbounds := timePlace_bounds t'
  have htime := timePlace_bounds t
  refine ⟨⟨⟨(date_of_clock hunit d).1,h.1⟩,?_⟩,?_⟩
  · have hle : place ⟨d,t'⟩≤place ⟨d,t⟩ := by
      have htimes := h.2.1
      rw [place_eq,place_eq]
      simp only
      omega
    exact hle
  · intro e he
    have hle : place e≤place ⟨d,t⟩ := he.2
    have heBounds := timePlace_bounds e.time
    rw [place_eq,place_eq] at hle
    have hgoal : place e≤place ⟨d,t'⟩ := by
      rw [place_eq,place_eq]
      simp only at hle ⊢
      by_cases hsame : e.date.number=d.number
      · have htimes := h.2.2 e.time he.1.2 (by omega)
        omega
      · omega
    exact hgoal

/-- Truncation rounds down where date and time meet the unit, and then takes its
own result to itself. -/
theorem truncatesDown_of_meets (hunit : unit∈units) {d : NaiveDate} (hd : DateMeets unit d)
    (ht : TimeMeets unit t) : ∃ d' t',truncateDateCore unit d=.ok d' ∧ truncateTimeCore unit t=.ok t' ∧
    RoundsDown (aligned unit) ⟨d,t⟩ ⟨d',t'⟩ ∧ DateMeets unit d' ∧ TimeMeets unit t' := by
  rcases List.mem_append.mp hunit with hcalendar | hclock
  · have ⟨d',heq,hrounds,hstays⟩ := date_rounds hcalendar hd
    exact ⟨d',midnight,heq,(@midnight_of_starts unit hcalendar t).2.1,calendar_rounds hcalendar t hrounds,
      hstays,(@midnight_of_starts unit hcalendar midnight).2.2⟩
  · have ⟨t',heq,hrounds,hstays⟩ := time_rounds hclock ht
    exact ⟨d,t',(date_of_clock hclock d).2.1,heq,clock_rounds hclock d hrounds,hd,hstays⟩

theorem truncatesDown_meets (hunit : unit∈units) {d : NaiveDate} (h : TruncatesDown unit d t) :
    DateMeets unit d ∧ TimeMeets unit t := by
  have ⟨d',t',hdate,htime,hrounds⟩ := h
  rcases List.mem_append.mp hunit with hcalendar | hclock
  · refine ⟨?_,(@midnight_of_starts unit hcalendar t).2.2⟩
    by_contra hmeets
    have hlate := date_late hcalendar hmeets hdate
    have hle : place ⟨d',t'⟩≤place ⟨d,t⟩ := hrounds.1.2
    have hbounds := timePlace_bounds t
    have hbounds' := timePlace_bounds t'
    rw [place_eq,place_eq] at hle
    simp only at hle
    omega
  · refine ⟨(date_of_clock hclock d).2.2,?_⟩
    by_contra hmeets
    rw [time_panics hclock hmeets] at htime
    cases htime

/-- Truncation rounds down to a unit exactly where date and time meet the unit.
Then it takes its own result to itself, and it keeps the order of any two such
date-times. -/
theorem truncatesDown_iff {unit : String} (hunit : unit∈units) (d : NaiveDate) (t : NaiveTime) :
    (TruncatesDown unit d t ↔ DateMeets unit d ∧ TimeMeets unit t) ∧
    (∀ d' t',TruncatesDown unit d t → truncateDateCore unit d=.ok d' → truncateTimeCore unit t=.ok t' →
      (⟨d',t'⟩ : NaiveDateTime)≤⟨d,t⟩ ∧ truncateDateCore unit d'=.ok d' ∧ truncateTimeCore unit t'=.ok t') ∧
    ∀ d' t' later laterTime later' laterTime',TruncatesDown unit d t → TruncatesDown unit later laterTime →
      truncateDateCore unit d=.ok d' → truncateTimeCore unit t=.ok t' →
      truncateDateCore unit later=.ok later' → truncateTimeCore unit laterTime=.ok laterTime' →
      (⟨d,t⟩ : NaiveDateTime)≤⟨later,laterTime⟩ → (⟨d',t'⟩ : NaiveDateTime)≤⟨later',laterTime'⟩ := by
  have hresult : ∀ {x : NaiveDate} {y : NaiveTime} {x' y'},TruncatesDown unit x y →
      truncateDateCore unit x=.ok x' → truncateTimeCore unit y=.ok y' →
      RoundsDown (aligned unit) ⟨x,y⟩ ⟨x',y'⟩ ∧ DateMeets unit x' ∧ TimeMeets unit y' := by
    intro x y x' y' h hx hy
    have hmeets := truncatesDown_meets hunit h
    have ⟨xr,yr,hxr,hyr,hrounds,hstays⟩ := truncatesDown_of_meets hunit hmeets.1 hmeets.2
    have hxSame : xr=x' := Except.ok.inj (hxr.symm.trans hx)
    have hySame : yr=y' := Except.ok.inj (hyr.symm.trans hy)
    rw [hxSame,hySame] at hrounds
    rw [hxSame,hySame] at hstays
    exact ⟨hrounds,hstays⟩
  refine ⟨⟨truncatesDown_meets hunit,?_⟩,?_,?_⟩
  · intro hmeets
    have ⟨d',t',hd',ht',hrounds,_⟩ := truncatesDown_of_meets hunit hmeets.1 hmeets.2
    exact ⟨d',t',hd',ht',hrounds⟩
  · intro d' t' h hd' ht'
    have hrounds := hresult h hd' ht'
    have ⟨again,againTime,hdate,htime,hsecond,_⟩ := truncatesDown_of_meets hunit hrounds.2.1 hrounds.2.2
    have hsame := hsecond.unique hrounds.1.again
    rw [NaiveDateTime.mk.injEq] at hsame
    rw [hsame.1] at hdate
    rw [hsame.2] at htime
    exact ⟨hrounds.1.1.2,hdate,htime⟩
  · intro d' t' later laterTime later' laterTime' h hlater hd' ht' hl hlt hle
    exact (hresult h hd' ht').1.le (hresult hlater hl hlt).1 hle

/-- A noon in July 2015 is rounded down to its quarter. -/
theorem truncatesDown_iff_july : (TruncatesDown "quarter" july2015.date july2015.time ↔
      DateMeets "quarter" july2015.date ∧ TimeMeets "quarter" july2015.time) :=
  (truncatesDown_iff (by decide) july2015.date july2015.time).1

/-- The first day of the year before zero is taken to a later millennium. -/
theorem truncatesDown_fails : ¬∀ unit∈units,∀ d t,TruncatesDown unit d t := by
  intro h
  have hrange : minMonth≤ -12 ∧ -12≤ maxMonth := by decide
  have hmeets := truncatesDown_meets (by decide) (h "millennium" (by decide) (firstOf (-12) hrange) midnight)
  have hyear : 0≤(firstOf (-12) hrange).year ∨ (firstOf (-12) hrange).year%1000=0 := hmeets.1
  have hneither : ¬(0≤(-12 : Int)/12 ∨ (-12 : Int)/12%1000=0) := by decide
  exact hneither hyear

end GraphDbLite.Truncation
