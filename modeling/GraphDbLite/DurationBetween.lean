import GraphDbLite.TemporalValues

/-!
# Durations between temporal values

The four duration functions compare dates by whole months, times by nanoseconds
and offsets only when both sides have one or a named zone is in play. Their
results on values with a date are stated through the whole months between the
dates, the days left after them and the difference of the clock times. Three
properties that hold of them nearly always come with the exact cases in which
they fail.
-/

namespace GraphDbLite.DurationBetween

open Calendar TemporalValues

/-- Offsets of named zones: that of the earliest instant with the given local
date and time, none for an unknown zone or a local time that does not occur. -/
abbrev TzDatabase := NaiveDate → NaiveTime → String → Option FixedOffset

/-- The first of January 1970. -/
def epochDate : NaiveDate := ⟨⟨23640,1,by decide,by decide⟩,by decide,by decide⟩

/-- Offset of a local date and time in a named zone, zero when there is none. -/
def resolveOffsetInTz (tz : TzDatabase) (date : NaiveDate) (time : NaiveTime) (tzName : String) : Int :=
  match tz date time tzName with
  | some offset => offset.seconds
  | none => 0

/-- Offset of a value when it is paired with another one. -/
def effectiveOffsetDst (tz : TzDatabase) (val other : Temporal) : Int :=
  if (isOffsetAware val && isOffsetAware other)=true then extractOffsetSecs val
  else if isOffsetAware val=true then
    if ((extractTzName val).isSome && !isOffsetAware other)=true then extractOffsetSecs val else 0
  else
    match extractTzName other with
    | some tzName =>
      resolveOffsetInTz tz (((extractDate val).or (extractDate other)).getD epochDate)
        ((extractTime val).getD midnight) tzName
    | none => 0

/-- Conversion to 32 bits. -/
def asI32 (n : Int) : Int := (n+2147483648)%4294967296-2147483648

/-- Days of a month, from the first of the next one. -/
def daysInMonth (year month : Int) : Temporally Int := do
  let next ← unwrap (if month=12 then fromYmd (year+1) 1 1 else fromYmd year (month+1) 1)
  let first ← unwrap (fromYmd year month 1)
  return next.number-first.number

/-- Move a date by months, to the last day where the month is too short. -/
def addMonthsToDate (d : NaiveDate) (months : Int) : Temporally NaiveDate := do
  let totalMonths := d.year*12+(d.month-1)+months
  let y := asI32 (totalMonths/12)
  let m := totalMonths%12+1
  let maxDay ← daysInMonth y m
  unwrap (fromYmd y m (min d.day maxDay))

/-- Nanoseconds since midnight. -/
def timeToNanos (t : NaiveTime) : Int := t.secs*1000000000+t.frac

/-- Calendar months between two dates, one less when the last is not complete. -/
def monthDiff (d1 d2 : NaiveDate) : Temporally Int := do
  let months := (d2.year-d1.year)*12+d2.month-d1.month
  let adjusted ← addMonthsToDate d1 months
  return if 0< months ∧ d2.number<adjusted.number then months-1
    else if months<0 ∧ adjusted.number<d2.number then months+1
    else months

/-- Clock time of a value in nanoseconds, at the offset it has beside another. -/
def clockNanos (tz : TzDatabase) (val other : Temporal) : Int :=
  ((extractTime val).map timeToNanos).getD 0-effectiveOffsetDst tz val other*1000000000

/-- A duration of seconds and nanoseconds, the latter not negative. -/
def fromNanos (months days nanos : Int) : CypherDuration :=
  ⟨months,days,nanos/1000000000,nanos%1000000000⟩

/-- The duration without any component. -/
def zeroDuration : CypherDuration := ⟨0,0,0,0⟩

/-- Give or take a day so that days and time do not have opposite signs. -/
def borrowDay (dayDiff timeDiffNanos : Int) : Int×Int :=
  if 0<dayDiff ∧ timeDiffNanos<0 then (dayDiff-1,timeDiffNanos+nanosPerDay)
  else if dayDiff<0 ∧ 0<timeDiffNanos then (dayDiff+1,timeDiffNanos-nanosPerDay)
  else (dayDiff,timeDiffNanos)

/-- The duration between two values: months, days and time. -/
def durationBetween (tz : TzDatabase) (lhs rhs : Temporal) : Temporally CypherDuration :=
  let bothHaveDates := (extractDate lhs).isSome && (extractDate rhs).isSome && hasDate lhs && hasDate rhs
  let eitherTimeOnly := isTimeOnly lhs || isTimeOnly rhs
  if (eitherTimeOnly && !bothHaveDates)=true then
    .ok (fromNanos 0 0 (clockNanos tz rhs lhs-clockNanos tz lhs rhs))
  else
    match extractDate lhs,extractDate rhs with
    | some date1,some date2 => do
      let months ← monthDiff date1 date2
      let d1Advanced ← addMonthsToDate date1 months
      let dayDiff := date2.number-d1Advanced.number
      let timeDiffNanos := clockNanos tz rhs lhs-clockNanos tz lhs rhs
      let rest := borrowDay dayDiff timeDiffNanos
      return fromNanos months rest.1 rest.2
    | _,_ => .ok zeroDuration

/-- The months between two values. -/
def durationInMonths (tz : TzDatabase) (lhs rhs : Temporal) : Temporally CypherDuration :=
  if (isTimeOnly lhs || isTimeOnly rhs)=true then .ok zeroDuration
  else
    match extractDate lhs,extractDate rhs with
    | some date1,some date2 => do
      let months ← monthDiff date1 date2
      let d1Advanced ← addMonthsToDate date1 months
      let adjusted :=
        if d1Advanced=date2 then
          if 0< months ∧ clockNanos tz rhs lhs<clockNanos tz lhs rhs then months-1
          else if months<0 ∧ clockNanos tz lhs rhs<clockNanos tz rhs lhs then months+1
          else months
        else months
      return ⟨adjusted,0,0,0⟩
    | _,_ => .ok zeroDuration

/-- The whole days between two values. -/
def durationInDays (tz : TzDatabase) (lhs rhs : Temporal) : Temporally CypherDuration :=
  if (isTimeOnly lhs || isTimeOnly rhs)=true then .ok zeroDuration
  else
    match extractDate lhs,extractDate rhs with
    | some date1,some date2 => do
      let dayNanos ← checkedI64 ((date2.number-date1.number)*nanosPerDay)
      let timeDiff ← checkedI64 (clockNanos tz rhs lhs-clockNanos tz lhs rhs)
      let totalNanos ← checkedI64 (dayNanos+timeDiff)
      return ⟨0,totalNanos.tdiv nanosPerDay,0,0⟩
    | _,_ => .ok zeroDuration

/-- The time between two values in seconds and nanoseconds. -/
def durationInSeconds (tz : TzDatabase) (lhs rhs : Temporal) : Temporally CypherDuration := do
  let eitherTimeOnly := isTimeOnly lhs || isTimeOnly rhs
  let timeDiff ← checkedI64 (clockNanos tz rhs lhs-clockNanos tz lhs rhs)
  if (eitherTimeOnly && !(hasDate lhs && hasDate rhs))=true then return fromNanos 0 0 timeDiff
  else
    match extractDate lhs,extractDate rhs with
    | some date1,some date2 => do
      let totalDaySecs ← checkedI64 ((date2.number-date1.number)*86400)
      let dayNanos ← checkedI64 (totalDaySecs*1000000000)
      let totalNanos ← checkedI64 (dayNanos+timeDiff)
      return fromNanos 0 0 totalNanos
    | _,_ => return zeroDuration

theorem fromYmd_self (e : NaiveDate) : fromYmd e.year e.month e.day=some e := by
  have hindex : 12*e.year+(e.month-1)=e.date.month := by
    unfold NaiveDate.year NaiveDate.month
    omega
  have habove := e.above
  have hbelow := e.below
  have hrange : (1≤e.month ∧ e.month≤12) ∧ (minYear≤e.year ∧ e.year≤ maxYear) ∧
      1≤e.day ∧ e.day≤ monthLength (12*e.year+(e.month-1)) := by
    rw [hindex]
    refine ⟨?_,?_,e.date.first,e.date.last⟩
    · unfold NaiveDate.month
      omega
    · unfold minMonth at habove
      unfold maxMonth at hbelow
      unfold NaiveDate.year
      omega
  unfold fromYmd
  rw [dif_pos hrange]
  exact congrArg some (NaiveDate.eq_of (Date.eq_of hindex rfl))

/-- The first day of a month of the date type. -/
def firstOf (index : Int) (h : minMonth≤ index ∧ index≤ maxMonth) : NaiveDate :=
  ⟨⟨index,1,first_le,by have hl := monthLength_bounds index; omega⟩,h.1,h.2⟩

theorem daysInMonth_eq (index : Int) (h : minMonth≤ index ∧ index≤ maxMonth) :
    daysInMonth (index/12) (index%12+1)=
      if index=maxMonth then .error .panic else .ok (monthLength index) := by
  have hfirst : fromYmd (index/12) (index%12+1) 1=some (firstOf index h) := fromYmd_self (firstOf index h)
  unfold daysInMonth
  by_cases hlast : index=maxMonth
  · have hnone : fromYmd (maxMonth/12+1) 1 1=none := by decide
    have htwelve : maxMonth%12+1=12 := by decide
    rw [if_pos hlast,hlast,if_pos htwelve,hnone]
    rfl
  · have hnext : minMonth≤ index+1 ∧ index+1≤ maxMonth := by omega
    have hsecond : (if index%12+1=12 then fromYmd (index/12+1) 1 1
        else fromYmd (index/12) (index%12+1+1) 1)=some (firstOf (index+1) hnext) := by
      rw [←fromYmd_self (firstOf (index+1) hnext)]
      have hday : (firstOf (index+1) hnext).day=1 := rfl
      have hyear : (firstOf (index+1) hnext).year=(index+1)/12 := rfl
      have hmonth : (firstOf (index+1) hnext).month=(index+1)%12+1 := rfl
      rw [hday,hyear,hmonth]
      by_cases hdec : index%12+1=12
      · have hy : (index+1)/12=index/12+1 := by omega
        have hm : (index+1)%12+1=1 := by omega
        rw [if_pos hdec,hy,hm]
      · have hy : (index+1)/12=index/12 := by omega
        have hm : (index+1)%12+1=index%12+1+1 := by omega
        rw [if_neg hdec,hy,hm]
    have hlength : (firstOf (index+1) hnext).number-(firstOf index h).number=monthLength index := by
      have hnumber : ∀ i hi,(firstOf i hi).number=monthStart i+1 := fun i hi => rfl
      rw [hnumber,hnumber,monthStart_succ]
      omega
    rw [if_neg hlast,hsecond,hfirst]
    exact congrArg Except.ok hlength

theorem totalMonths_eq (d : NaiveDate) (months : Int) :
    d.year*12+(d.month-1)+months=d.date.month+months := by
  unfold NaiveDate.year NaiveDate.month
  omega

theorem asI32_year {index : Int} (h : minMonth≤ index ∧ index≤ maxMonth) : asI32 (index/12)=index/12 := by
  unfold minMonth minYear maxMonth maxYear at h
  unfold asI32
  omega

theorem addMonthsToDate_eq (d : NaiveDate) (months : Int)
    (h : minMonth≤d.date.month+months ∧ d.date.month+months≤ maxMonth) :
    addMonthsToDate d months=
      if d.date.month+months=maxMonth then .error .panic
      else .ok ⟨moveMonths d.date months,h.1,h.2⟩ := by
  unfold addMonthsToDate
  simp only [totalMonths_eq,asI32_year h,daysInMonth_eq _ h]
  by_cases hlast : d.date.month+months=maxMonth
  · rw [if_pos hlast,if_pos hlast]
    rfl
  · have hself := fromYmd_self ⟨moveMonths d.date months,h.1,h.2⟩
    have hfound : fromYmd ((d.date.month+months)/12) ((d.date.month+months)%12+1)
        (min d.day (monthLength (d.date.month+months)))=some ⟨moveMonths d.date months,h.1,h.2⟩ := hself
    rw [if_neg hlast,if_neg hlast]
    simp only [bind,Except.bind,hfound]
    rfl

/-- The month difference of two dates is the number of whole months between
them; it panics when the second date is in the last month of the date type. -/
theorem monthDiff_eq (d1 d2 : NaiveDate) :
    monthDiff d1 d2=
      if d2.date.month=maxMonth then .error .panic else .ok (wholeMonths d1.date d2.date) := by
  have hmonths : (d2.year-d1.year)*12+d2.month-d1.month=d2.date.month-d1.date.month := by
    unfold NaiveDate.year NaiveDate.month
    omega
  have htarget : d1.date.month+(d2.date.month-d1.date.month)=d2.date.month := by omega
  have hrange : minMonth≤d1.date.month+(d2.date.month-d1.date.month) ∧
      d1.date.month+(d2.date.month-d1.date.month)≤ maxMonth := by
    rw [htarget]
    exact ⟨d2.above,d2.below⟩
  unfold monthDiff
  simp only [hmonths,addMonthsToDate_eq d1 _ hrange,htarget]
  by_cases hlast : d2.date.month=maxMonth
  · rw [if_pos hlast,if_pos hlast]
    rfl
  · rw [if_neg hlast,if_neg hlast]
    rfl

theorem wholeMonths_range (d1 d2 : NaiveDate) :
    minMonth≤d1.date.month+wholeMonths d1.date d2.date ∧
      d1.date.month+wholeMonths d1.date d2.date≤ maxMonth := by
  have h1 := d1.above
  have h2 := d1.below
  have h3 := d2.above
  have h4 := d2.below
  unfold wholeMonths
  split_ifs <;> omega

/-- The first date moved by the whole months to the second one. -/
def advanced (d1 d2 : NaiveDate) : NaiveDate :=
  ⟨moveMonths d1.date (wholeMonths d1.date d2.date),(wholeMonths_range d1 d2).1,(wholeMonths_range d1 d2).2⟩

/-- One of the dates that the month arithmetic steps on is in the last month of
the date type. -/
def InLastMonth (d1 d2 : NaiveDate) : Prop :=
  d2.date.month=maxMonth ∨ d1.date.month+wholeMonths d1.date d2.date=maxMonth

/-- Whether it is can be computed. -/
instance inLastMonthDecidable (d1 d2 : NaiveDate) : Decidable (InLastMonth d1 d2) :=
  inferInstanceAs (Decidable (_ ∨ _))

theorem monthSteps_eq {α : Type} (d1 d2 : NaiveDate) (f : Int → NaiveDate → Temporally α) :
    (do let months ← monthDiff d1 d2
        let d1Advanced ← addMonthsToDate d1 months
        f months d1Advanced)=
      if InLastMonth d1 d2 then .error .panic
      else f (wholeMonths d1.date d2.date) (advanced d1 d2) := by
  rw [monthDiff_eq]
  by_cases hlast : d2.date.month=maxMonth
  · have hpanic : InLastMonth d1 d2 := Or.inl hlast
    rw [if_pos hlast,if_pos hpanic]
    rfl
  · have hsecond := addMonthsToDate_eq d1 _ (wholeMonths_range d1 d2)
    rw [if_neg hlast]
    by_cases hmoved : d1.date.month+wholeMonths d1.date d2.date=maxMonth
    · have hpanic : InLastMonth d1 d2 := Or.inr hmoved
      rw [if_pos hmoved] at hsecond
      rw [if_pos hpanic]
      simp only [bind,Except.bind,hsecond]
    · have hfine : ¬InLastMonth d1 d2 := fun h => h.elim hlast hmoved
      rw [if_neg hmoved] at hsecond
      rw [if_neg hfine]
      simp only [bind,Except.bind,hsecond]
      rfl

/-- The clock times of two values apart. -/
def clockDifference (tz : TzDatabase) (lhs rhs : Temporal) : Int :=
  clockNanos tz rhs lhs-clockNanos tz lhs rhs

theorem dated_of_extractDate {v : Temporal} {d : NaiveDate} (h : extractDate v=some d) :
    hasDate v=true ∧ isTimeOnly v=false := by
  cases v with
  | date _ => exact ⟨rfl,rfl⟩
  | localTime _ | time _ _ => exact nomatch h
  | localDateTime _ | dateTime _ _ _ => exact ⟨rfl,rfl⟩

variable {tz : TzDatabase} {a b : Temporal} {d1 d2 : NaiveDate}

theorem durationBetween_dated (ha : extractDate a=some d1) (hb : extractDate b=some d2) :
    durationBetween tz a b=
      if InLastMonth d1 d2 then .error .panic
      else .ok (fromNanos (wholeMonths d1.date d2.date)
        (borrowDay (restDays d1.date d2.date) (clockDifference tz a b)).1
        (borrowDay (restDays d1.date d2.date) (clockDifference tz a b)).2) := by
  have hna := (dated_of_extractDate ha).2
  have hnb := (dated_of_extractDate hb).2
  unfold durationBetween
  simp only [ha,hb,hna,hnb,Bool.or_self,Bool.false_and,Bool.false_eq_true,if_false]
  exact monthSteps_eq d1 d2 _

theorem durationInMonths_dated (ha : extractDate a=some d1) (hb : extractDate b=some d2) :
    durationInMonths tz a b=
      if InLastMonth d1 d2 then .error .panic
      else .ok ⟨if restDays d1.date d2.date=0 then
          if 0< wholeMonths d1.date d2.date ∧ clockDifference tz a b<0 then wholeMonths d1.date d2.date-1
          else if wholeMonths d1.date d2.date<0 ∧ 0<clockDifference tz a b then
            wholeMonths d1.date d2.date+1
          else wholeMonths d1.date d2.date
        else wholeMonths d1.date d2.date,0,0,0⟩ := by
  have hna := (dated_of_extractDate ha).2
  have hnb := (dated_of_extractDate hb).2
  have hsame : advanced d1 d2=d2 ↔ restDays d1.date d2.date=0 := by
    have hrest : restDays d1.date d2.date=d2.number-(advanced d1 d2).number := rfl
    rw [hrest,←NaiveDate.number_inj]
    omega
  have hless : clockNanos tz b a<clockNanos tz a b ↔ clockDifference tz a b<0 := by
    unfold clockDifference
    omega
  have hmore : clockNanos tz a b<clockNanos tz b a ↔ 0<clockDifference tz a b := by
    unfold clockDifference
    omega
  unfold durationInMonths
  simp only [ha,hb,hna,hnb,Bool.or_self,Bool.false_eq_true,if_false]
  rw [monthSteps_eq d1 d2 _]
  simp only [hsame,hless,hmore]
  rfl

/-- The clock part of a split number of nanoseconds. -/
@[simp] theorem clock_fromNanos (months days nanos : Int) : (fromNanos months days nanos).clock=nanos := by
  unfold fromNanos CypherDuration.clock
  simp only
  omega

/-- No component leads forward while another leads back. -/
def SameSigns (months days clock : Int) : Prop :=
  (0≤ months ∧ 0≤days ∧ 0≤clock) ∨ (months≤0 ∧ days≤0 ∧ clock≤0)

/-- The duration between two values and the months between them both exist and
have the same months, and the former does not mix signs. -/
def MonthsAgree (tz : TzDatabase) (a b : Temporal) : Prop :=
  ∃ between inMonths,durationBetween tz a b=.ok between ∧ durationInMonths tz a b=.ok inMonths ∧
    between.months=inMonths.months ∧ SameSigns between.months between.days between.clock

/-- The clock leads back over what the calendar leads forward, and no borrowed
day makes up for it, or the other way round. -/
def ClockCrosses (months days clock : Int) : Prop :=
  (days=0 ∧ (0< months ∧ clock<0 ∨ months<0 ∧ 0<clock)) ∨
  (0<days ∧ clock< -nanosPerDay ∧ (0< months ∨ 1<days)) ∨
  (days<0 ∧ nanosPerDay<clock ∧ (months<0 ∨ days< -1))

/-- A borrowed day keeps the signs together unless the clock crosses the calendar. -/
theorem sameSigns_borrowDay_iff {months days clock : Int} (hpos : 0< months → 0≤days)
    (hneg : months<0 → days≤0) :
    SameSigns months (borrowDay days clock).1 (borrowDay days clock).2 ↔
      ¬ClockCrosses months days clock := by
  unfold SameSigns ClockCrosses borrowDay nanosPerDay
  split_ifs with hforward hback
  · simp only
    omega
  · simp only
    omega
  · simp only
    omega

theorem months_adjusted_eq {months days clock : Int} (h : ¬ClockCrosses months days clock) :
    (if days=0 then
        if 0< months ∧ clock<0 then months-1 else if months<0 ∧ 0<clock then months+1 else months
      else months)=months := by
  unfold ClockCrosses at h
  split_ifs with hzero hfirst hsecond
  · exact absurd (Or.inl ⟨hzero,Or.inl hfirst⟩) h
  · exact absurd (Or.inl ⟨hzero,Or.inr hsecond⟩) h
  · rfl
  · rfl

/-- The duration between two values with a date has the months of the months
between them, and components of one sign, exactly when the month arithmetic does
not step on the last month of the date type and the clock does not cross the
calendar. -/
theorem monthsAgree_iff (ha : extractDate a=some d1) (hb : extractDate b=some d2) :
    MonthsAgree tz a b ↔ ¬InLastMonth d1 d2 ∧
      ¬ClockCrosses (wholeMonths d1.date d2.date) (restDays d1.date d2.date) (clockDifference tz a b) := by
  have hsign := restDays_sign d1.date d2.date
  have hiff := @sameSigns_borrowDay_iff (wholeMonths d1.date d2.date) (restDays d1.date d2.date)
    (clockDifference tz a b) hsign.1 hsign.2
  unfold MonthsAgree
  rw [durationBetween_dated ha hb,durationInMonths_dated ha hb]
  by_cases hlast : InLastMonth d1 d2
  · simp only [if_pos hlast]
    constructor
    · intro h
      have ⟨between,inMonths,hbetween,_⟩ := h
      exact nomatch hbetween
    · intro h
      exact absurd hlast h.1
  · simp only [if_neg hlast]
    constructor
    · intro h
      have ⟨between,inMonths,hbetween,_,_,hsigns⟩ := h
      refine ⟨hlast,?_⟩
      rw [←Except.ok.inj hbetween,clock_fromNanos] at hsigns
      exact hiff.mp hsigns
    · intro h
      refine ⟨_,_,rfl,rfl,?_,?_⟩
      · exact (months_adjusted_eq h.2).symm
      · rw [clock_fromNanos]
        exact hiff.mpr h.2

theorem effectiveOffsetDst_bounds (tz : TzDatabase) (val other : Temporal) :
    -86400<effectiveOffsetDst tz val other ∧ effectiveOffsetDst tz val other<86400 := by
  have hzero : (-86400 : Int)<0 ∧ (0 : Int)<86400 := by decide
  have hown : -86400<extractOffsetSecs val ∧ extractOffsetSecs val<86400 := by
    cases val with
    | date _ | localTime _ => exact hzero
    | time _ offset => exact offset.bound
    | localDateTime _ => exact hzero
    | dateTime _ offset _ => exact offset.bound
  have hzone : ∀ date time tzName,-86400< resolveOffsetInTz tz date time tzName ∧
      resolveOffsetInTz tz date time tzName<86400 := by
    intro date time tzName
    unfold resolveOffsetInTz
    cases tz date time tzName with
    | none => exact hzero
    | some offset => exact offset.bound
  unfold effectiveOffsetDst
  split_ifs
  · exact hown
  · exact hown
  · exact hzero
  · cases extractTzName other with
    | none => exact hzero
    | some tzName => exact hzone _ _ tzName

theorem clockNanos_bounds (tz : TzDatabase) (val other : Temporal) :
    -86400000000000<clockNanos tz val other ∧ clockNanos tz val other<172801000000000 := by
  have hoffset := effectiveOffsetDst_bounds tz val other
  have htime : ∀ t : NaiveTime,0≤timeToNanos t ∧ timeToNanos t<86401000000000 := by
    intro t
    have hday := t.day
    have hsecond := t.second
    unfold timeToNanos
    omega
  unfold clockNanos
  cases extractTime val with
  | none =>
    simp only [Option.map_none,Option.getD_none]
    omega
  | some t =>
    have ht := htime t
    simp only [Option.map_some,Option.getD_some]
    omega

/-- A number fits 64 bits. -/
def FitsI64 (n : Int) : Prop := -9223372036854775808≤n ∧ n≤9223372036854775807

theorem checkedI64_ok {n : Int} (h : FitsI64 n) : checkedI64 n=.ok n := if_pos h

theorem checkedI64_panic {n : Int} (h : ¬FitsI64 n) : checkedI64 n=.error .panic := if_neg h

theorem clockDifference_fits (tz : TzDatabase) (a b : Temporal) : FitsI64 (clockDifference tz a b) := by
  have ha := clockNanos_bounds tz a b
  have hb := clockNanos_bounds tz b a
  unfold FitsI64 clockDifference
  omega

/-- Nanoseconds that pass from one value with a date to another. -/
def elapsedNanos (tz : TzDatabase) (a b : Temporal) (d1 d2 : NaiveDate) : Int :=
  (d2.number-d1.number)*nanosPerDay+clockDifference tz a b

/-- The days function truncates the elapsed time to days, and the seconds
function returns all of it, without a word that overflows. -/
structure ElapsedExact (tz : TzDatabase) (a b : Temporal) (d1 d2 : NaiveDate) : Prop where
  /-- Whole days, towards zero. -/
  days : durationInDays tz a b=.ok ⟨0,(elapsedNanos tz a b d1 d2).tdiv nanosPerDay,0,0⟩
  /-- All nanoseconds. -/
  seconds : ∃ d,durationInSeconds tz a b=.ok d ∧ d.months=0 ∧ d.days=0 ∧
    d.clock=elapsedNanos tz a b d1 d2

theorem durationInDays_dated (ha : extractDate a=some d1) (hb : extractDate b=some d2) :
    durationInDays tz a b=(checkedI64 ((d2.number-d1.number)*nanosPerDay)).bind fun _ =>
      (checkedI64 (elapsedNanos tz a b d1 d2)).bind fun totalNanos =>
        .ok ⟨0,totalNanos.tdiv nanosPerDay,0,0⟩ := by
  have hna := (dated_of_extractDate ha).2
  have hnb := (dated_of_extractDate hb).2
  have htime := checkedI64_ok (clockDifference_fits tz a b)
  unfold clockDifference at htime
  unfold durationInDays
  simp only [ha,hb,hna,hnb,Bool.or_self,Bool.false_eq_true,if_false]
  by_cases hday : FitsI64 ((d2.number-d1.number)*nanosPerDay)
  · rw [checkedI64_ok hday]
    simp only [bind,Except.bind,htime]
    rfl
  · rw [checkedI64_panic hday]
    rfl

theorem durationInSeconds_dated (ha : extractDate a=some d1) (hb : extractDate b=some d2) :
    durationInSeconds tz a b=(checkedI64 ((d2.number-d1.number)*86400)).bind fun _ =>
      (checkedI64 ((d2.number-d1.number)*nanosPerDay)).bind fun _ =>
        (checkedI64 (elapsedNanos tz a b d1 d2)).bind fun totalNanos => .ok (fromNanos 0 0 totalNanos) := by
  have hna := (dated_of_extractDate ha).2
  have hnb := (dated_of_extractDate hb).2
  have htime := checkedI64_ok (clockDifference_fits tz a b)
  have hscale : (d2.number-d1.number)*86400*1000000000=(d2.number-d1.number)*nanosPerDay := by
    unfold nanosPerDay
    omega
  unfold clockDifference at htime
  unfold durationInSeconds
  simp only [ha,hb,hna,hnb,Bool.or_self,Bool.false_and,Bool.false_eq_true,if_false]
  simp only [bind,Except.bind,htime]
  by_cases hseconds : FitsI64 ((d2.number-d1.number)*86400)
  · rw [checkedI64_ok hseconds]
    simp only [hscale]
    by_cases hday : FitsI64 ((d2.number-d1.number)*nanosPerDay)
    · rw [checkedI64_ok hday]
      rfl
    · rw [checkedI64_panic hday]
  · rw [checkedI64_panic hseconds]

/-- The elapsed time is exact exactly when the nanoseconds of the days between
the dates fit 64 bits, alone and together with the clock times. -/
theorem elapsedExact_iff (ha : extractDate a=some d1) (hb : extractDate b=some d2) :
    ElapsedExact tz a b d1 d2 ↔
      FitsI64 ((d2.number-d1.number)*nanosPerDay) ∧
      FitsI64 ((d2.number-d1.number)*nanosPerDay+clockDifference tz a b) := by
  have htotal : elapsedNanos tz a b d1 d2=
      (d2.number-d1.number)*nanosPerDay+clockDifference tz a b := rfl
  constructor
  · intro h
    have hdays := h.days
    rw [durationInDays_dated ha hb] at hdays
    by_cases hday : FitsI64 ((d2.number-d1.number)*nanosPerDay)
    · rw [checkedI64_ok hday] at hdays
      by_cases hall : FitsI64 (elapsedNanos tz a b d1 d2)
      · exact ⟨hday,htotal ▸ hall⟩
      · simp only [Except.bind] at hdays
        rw [checkedI64_panic hall] at hdays
        exact nomatch hdays
    · rw [checkedI64_panic hday] at hdays
      exact nomatch hdays
  · intro h
    have hall : FitsI64 (elapsedNanos tz a b d1 d2) := htotal ▸ h.2
    have hseconds : FitsI64 ((d2.number-d1.number)*86400) := by
      have hday := h.1
      unfold FitsI64 nanosPerDay at hday
      unfold FitsI64
      omega
    refine ⟨?_,fromNanos 0 0 (elapsedNanos tz a b d1 d2),?_,rfl,rfl,clock_fromNanos 0 0 _⟩
    · rw [durationInDays_dated ha hb,checkedI64_ok h.1,checkedI64_ok hall]
      rfl
    · rw [durationInSeconds_dated ha hb,checkedI64_ok hseconds]
      simp only [Except.bind]
      rw [checkedI64_ok h.1]
      simp only
      rw [checkedI64_ok hall]

/-- A database of no zones. -/
def noZones : TzDatabase := fun _ _ _ => none

/-- The first of January 1600 and of January 2000. -/
def newYear1600 : NaiveDate := ⟨⟨19200,1,by decide,by decide⟩,by decide,by decide⟩

/-- The first of January 2000. -/
def newYear2000 : NaiveDate := ⟨⟨24000,1,by decide,by decide⟩,by decide,by decide⟩

/-- The nanoseconds of four hundred years do not fit: both functions panic. -/
theorem elapsedExact_fails :
    durationInDays noZones (.date newYear1600) (.date newYear2000)=.error .panic ∧
    durationInSeconds noZones (.date newYear1600) (.date newYear2000)=.error .panic ∧
    ¬ElapsedExact noZones (.date newYear1600) (.date newYear2000) newYear1600 newYear2000 := by
  have hdays : durationInDays noZones (.date newYear1600) (.date newYear2000)=.error .panic := by decide
  refine ⟨hdays,by decide,fun h => ?_⟩
  have hexact := h.days
  rw [hdays] at hexact
  exact nomatch hexact

/-- From 1970 to 2000 the elapsed time is exact. -/
theorem elapsedExact_iff_1970 : ElapsedExact noZones (.date epochDate) (.date newYear2000) epochDate newYear2000 ↔
    FitsI64 ((newYear2000.number-epochDate.number)*nanosPerDay) ∧
    FitsI64 ((newYear2000.number-epochDate.number)*nanosPerDay+
      clockDifference noZones (.date epochDate) (.date newYear2000)) :=
  elapsedExact_iff rfl rfl

/-- Twenty minutes to ten on a day of July 2014, and noon a year later. -/
def july2014 : NaiveDateTime :=
  ⟨⟨⟨24174,21,by decide,by decide⟩,by decide,by decide⟩,⟨78000,0,by decide,midnight.second⟩⟩

/-- Noon on the same day of July 2015. -/
def july2015 : NaiveDateTime :=
  ⟨⟨⟨24186,21,by decide,by decide⟩,by decide,by decide⟩,⟨43200,0,by decide,midnight.second⟩⟩

/-- Of the year to an earlier hour of the same day twelve months are counted by
the one function and eleven by the other, and the time leads back. -/
theorem monthsAgree_fails :
    durationBetween noZones (.localDateTime july2014) (.localDateTime july2015)=.ok ⟨12,0,-34800,0⟩ ∧
    durationInMonths noZones (.localDateTime july2014) (.localDateTime july2015)=.ok ⟨11,0,0,0⟩ ∧
    ¬MonthsAgree noZones (.localDateTime july2014) (.localDateTime july2015) := by
  have hbetween : durationBetween noZones (.localDateTime july2014) (.localDateTime july2015)=
      .ok ⟨12,0,-34800,0⟩ := by decide
  have hmonths : durationInMonths noZones (.localDateTime july2014) (.localDateTime july2015)=
      .ok ⟨11,0,0,0⟩ := by decide
  refine ⟨hbetween,hmonths,fun h => ?_⟩
  have ⟨between,inMonths,hfirst,hsecond,heq,_⟩ := h
  have hb := Except.ok.inj (hbetween.symm.trans hfirst)
  have hm := Except.ok.inj (hmonths.symm.trans hsecond)
  rw [←hb,←hm] at heq
  exact absurd heq (by decide)

/-- The way back from 2015 to 2014 is judged by the same condition. -/
theorem monthsAgree_iff_july : MonthsAgree noZones (.localDateTime july2015) (.localDateTime july2014) ↔
    ¬InLastMonth july2015.date july2014.date ∧
      ¬ClockCrosses (wholeMonths july2015.date.date july2014.date.date)
        (restDays july2015.date.date july2014.date.date)
        (clockDifference noZones (.localDateTime july2015) (.localDateTime july2014)) :=
  monthsAgree_iff rfl rfl

end GraphDbLite.DurationBetween
