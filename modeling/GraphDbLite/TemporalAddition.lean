import GraphDbLite.DurationBetween

/-!
# Adding durations to temporal values

A duration is added in four steps: months with the day clamped, days, seconds,
nanoseconds. The steps are followed on positions, nanoseconds since a fixed day.
Adding the duration between two date-times gives the second one back when no
step leaves the date type and leap seconds are not mixed with ordinary time.
-/

namespace GraphDbLite.TemporalAddition

open Calendar TemporalValues DurationBetween

/-- The number of months as an unsigned word, when the date library takes it. -/
def monthsAbsToU32 (months : Int) : Temporally Int :=
  if 2147483647<(months.natAbs : Int) then
    .error (.numberOutOfRange s!"duration months component `{months}` is out of range (must fit in i32 to apply to a date/datetime)")
  else .ok months.natAbs

/-- A time span of whole milliseconds, with a panic outside its type. -/
def timeSpan (millis value : Int) : Temporally Int :=
  if -9223372036854775807≤ millis ∧ millis≤9223372036854775807 then .ok value else .error .panic

/-- A span of days, in days. -/
def spanDays (days : Int) : Temporally Int := timeSpan (days*86400000) days

/-- A span of seconds, in nanoseconds. -/
def spanSeconds (seconds : Int) : Temporally Int := timeSpan (seconds*1000) (seconds*1000000000)

/-- Move a date by the months of a duration; a date that the date type does not
have leaves it where it is. -/
def addMonths (date : NaiveDate) (months : Int) : Temporally NaiveDate :=
  if months≠0 then do
    let monthsU32 ← monthsAbsToU32 months
    return if 0< months then (date.checkedAddMonths monthsU32).getD date
      else (date.checkedAddMonths (-monthsU32)).getD date
  else .ok date

/-- Move a date-time by a duration. -/
def addToDateTime (dt : NaiveDateTime) (dur : CypherDuration) : Temporally NaiveDateTime := do
  let date ← addMonths dt.date dur.months
  let days ← spanDays dur.days
  let date ← unwrap (date.checkedAddDays days)
  let seconds ← spanSeconds dur.seconds
  let ndt ← unwrap ((⟨date,dt.time⟩ : NaiveDateTime).checkedAdd seconds)
  unwrap (ndt.checkedAdd dur.nanos)

/-- Move a time by a duration, around the clock. -/
def addToTime (t : NaiveTime) (dur : CypherDuration) : Temporally NaiveTime := do
  let seconds ← spanSeconds dur.seconds
  return ((t.overflowingAdd seconds).1.overflowingAdd dur.nanos).1

/-- Move a date by a duration, with the whole days of its clock part. -/
def addToDate (d : NaiveDate) (dur : CypherDuration) : Temporally NaiveDate := do
  let date ← addMonths d dur.months
  let days ← spanDays dur.days
  let date ← unwrap (date.checkedAddDays days)
  let seconds ← spanSeconds dur.seconds
  let date ← unwrap (date.checkedAddDays (seconds.tdiv nanosPerDay))
  unwrap (date.checkedAddDays (dur.nanos.tdiv nanosPerDay))

/-- Move a temporal value by a duration. -/
def addToTemporal (v : Temporal) (dur : CypherDuration) : Temporally Temporal :=
  match v with
  | .date d => (addToDate d dur).map .date
  | .localTime t => (addToTime t dur).map .localTime
  | .time t offset => (addToTime t dur).map fun moved => .time moved offset
  | .localDateTime dt => (addToDateTime dt dur).map .localDateTime
  | .dateTime dt offset zone => (addToDateTime dt dur).map fun moved => .dateTime moved offset zone

/-- Nanoseconds of a date-time since a fixed day. -/
def position (dt : NaiveDateTime) : Int := dt.date.number*nanosPerDay+timeToNanos dt.time

/-- The date type has the day of a position. -/
def InRange (pos : Int) : Prop := minNumber≤pos/nanosPerDay ∧ pos/nanosPerDay≤ maxNumber

/-- The time at a nanosecond of ordinary time, and the nanoseconds of its day. -/
theorem ordinaryTime_spec (nanos : Int) :
    ¬(ordinaryTime nanos).1.Leap ∧ timeToNanos (ordinaryTime nanos).1=nanos%nanosPerDay ∧
      (ordinaryTime nanos).2=nanos/nanosPerDay := by
  unfold ordinaryTime NaiveTime.Leap timeToNanos nanosPerDay
  refine ⟨?_,?_,rfl⟩ <;> simp only <;> omega

theorem time_eq_of_nanos {s t : NaiveTime} (hs : ¬s.Leap) (ht : ¬t.Leap)
    (h : timeToNanos s=timeToNanos t) : s=t := by
  have h1 := s.second
  have h2 := t.second
  unfold NaiveTime.Leap at hs ht
  unfold timeToNanos at h
  exact NaiveTime.eq_of (by omega) (by omega)

theorem eq_of_position {x y : NaiveDateTime} (hx : ¬x.time.Leap) (hy : ¬y.time.Leap)
    (h : position x=position y) : x=y := by
  have h1 := x.time.second
  have h2 := y.time.second
  have h3 := x.time.day
  have h4 := y.time.day
  have hx' := hx
  have hy' := hy
  unfold NaiveTime.Leap at hx' hy'
  unfold position timeToNanos nanosPerDay at h
  have hnumber : x.date.number=y.date.number := by omega
  have hdate : x.date=y.date := NaiveDate.number_inj.mp hnumber
  have htime : x.time=y.time := by
    refine time_eq_of_nanos hx hy ?_
    unfold timeToNanos
    omega
  cases x with
  | mk dx tx =>
    cases y with
    | mk dy ty =>
      simp only at hdate htime
      rw [hdate,htime]

/-- Carrying ordinary time over to the date gives the date-time at the changed
position, when the date type has it. -/
theorem carry_spec (date : NaiveDate) (nanos : Int) :
    (InRange (date.number*nanosPerDay+nanos) → ∃ z : NaiveDateTime,
      (date.checkedAddDays (ordinaryTime nanos).2).map (fun d => (⟨d,(ordinaryTime nanos).1⟩ : NaiveDateTime))=
        some z ∧ ¬z.time.Leap ∧ position z=date.number*nanosPerDay+nanos) ∧
    (¬InRange (date.number*nanosPerDay+nanos) →
      (date.checkedAddDays (ordinaryTime nanos).2).map
        (fun d => (⟨d,(ordinaryTime nanos).1⟩ : NaiveDateTime))=none) := by
  have ⟨hleap,htime,hdays⟩ := ordinaryTime_spec nanos
  have hnumber : (date.number*nanosPerDay+nanos)/nanosPerDay=date.number+nanos/nanosPerDay := by
    unfold nanosPerDay
    omega
  unfold InRange
  rw [hnumber,hdays]
  constructor
  · intro h
    have hsome : date.checkedAddDays (nanos/nanosPerDay)≠none := by
      intro hnone
      exact NaiveDate.checkedAddDays_none.mp hnone h
    have ⟨moved,hmoved⟩ := Option.ne_none_iff_exists'.mp hsome
    refine ⟨⟨moved,(ordinaryTime nanos).1⟩,by rw [hmoved]; rfl,hleap,?_⟩
    unfold position
    simp only
    rw [NaiveDate.number_checkedAddDays hmoved,htime]
    unfold nanosPerDay
    omega
  · intro h
    rw [NaiveDate.checkedAddDays_none.mpr h]
    rfl

/-- Nanoseconds by which a leap second pushes a later time back. -/
def leapSkip (t : NaiveTime) (nanos : Int) : Int :=
  if t.Leap ∧ 2000000000≤t.frac+nanos then 1000000000 else 0

/-- Outside a leap second, or on leaving one, moving by nanoseconds changes the
position by that many, less a leap second that is passed. -/
theorem checkedAdd_spec (x : NaiveDateTime) {nanos : Int}
    (h : ¬(x.time.Leap ∧ 1000000000≤x.time.frac+nanos ∧ x.time.frac+nanos<2000000000)) :
    (InRange (position x+nanos-leapSkip x.time nanos) → ∃ z,x.checkedAdd nanos=some z ∧
      ¬z.time.Leap ∧ position z=position x+nanos-leapSkip x.time nanos) ∧
    (¬InRange (position x+nanos-leapSkip x.time nanos) → x.checkedAdd nanos=none) := by
  have hcarry : ∀ skip,x.time.overflowingAdd nanos=ordinaryTime (timeToNanos x.time+nanos-skip) →
      (InRange (position x+nanos-skip) → ∃ z,x.checkedAdd nanos=some z ∧
        ¬z.time.Leap ∧ position z=position x+nanos-skip) ∧
      (¬InRange (position x+nanos-skip) → x.checkedAdd nanos=none) := by
    intro skip hmoved
    have hspec := carry_spec x.date (timeToNanos x.time+nanos-skip)
    have hpos : x.date.number*nanosPerDay+(timeToNanos x.time+nanos-skip)=position x+nanos-skip := by
      unfold position
      omega
    rw [hpos] at hspec
    unfold NaiveDateTime.checkedAdd
    rw [hmoved]
    exact hspec
  refine hcarry (leapSkip x.time nanos) ?_
  unfold NaiveTime.Leap at h
  unfold NaiveTime.overflowingAdd leapSkip NaiveTime.Leap timeToNanos
  by_cases hleap : 1000000000≤x.time.frac
  · rw [if_neg (not_lt.mpr hleap)]
    by_cases hover : 2000000000≤x.time.frac+nanos
    · rw [dif_pos hover,if_pos ⟨hleap,hover⟩]
    · have hbelow : ¬1000000000≤x.time.frac+nanos := fun hin => h ⟨hleap,hin,by omega⟩
      rw [dif_neg hover,dif_neg hbelow,if_neg (fun hboth => hover hboth.2),Int.sub_zero]
  · rw [if_pos (by omega),if_neg (fun hboth => hleap hboth.1),Int.sub_zero]

theorem checkedAdd_inside (x : NaiveDateTime) {nanos : Int} (hleap : x.time.Leap)
    (h : 1000000000≤x.time.frac+nanos ∧ x.time.frac+nanos<2000000000) :
    x.checkedAdd nanos=some ⟨x.date,⟨x.time.secs,x.time.frac+nanos,x.time.day,by omega⟩⟩ := by
  unfold NaiveTime.Leap at hleap
  have hmoved : x.time.overflowingAdd nanos=
      (⟨x.time.secs,x.time.frac+nanos,x.time.day,by omega⟩,0) := by
    unfold NaiveTime.overflowingAdd
    rw [if_neg (not_lt.mpr hleap),dif_neg (by omega),dif_pos h.1]
  have hstay := NaiveDate.checkedAddDays_eq x.date x.date
  rw [Int.sub_self] at hstay
  unfold NaiveDateTime.checkedAdd
  rw [hmoved]
  simp only [hstay,Option.map_some]

/-- Move a date-time by whole seconds first and by the nanoseconds left then. -/
def clockSteps (start : NaiveDateTime) (nanos : Int) : Option NaiveDateTime :=
  (start.checkedAdd (nanos/1000000000*1000000000)).bind fun mid => mid.checkedAdd (nanos%1000000000)

/-- Both steps to a position stay inside the date type. -/
def StaysInside (target nanos : Int) : Prop :=
  minNumber*nanosPerDay≤target-nanos%1000000000 ∧ target<(maxNumber+1)*nanosPerDay

/-- The date type has the day of a position between its first and last nanosecond. -/
theorem inRange_iff (pos : Int) : InRange pos ↔ minNumber*nanosPerDay≤pos ∧ pos<(maxNumber+1)*nanosPerDay := by
  unfold InRange nanosPerDay
  omega

/-- Two steps of ordinary time: the first is not inside a leap second, or leads
back out of one. -/
theorem clockSteps_ordinary (start : NaiveDateTime) {nanos : Int} (h : ¬start.time.Leap ∨ nanos<0) :
    (StaysInside (position start+nanos) nanos → ∃ z,clockSteps start nanos=some z ∧
      ¬z.time.Leap ∧ position z=position start+nanos) ∧
    (¬StaysInside (position start+nanos) nanos → clockSteps start nanos=none) := by
  have hsecond := start.time.second
  have hfree : ¬(start.time.Leap ∧ 1000000000≤ start.time.frac+nanos/1000000000*1000000000 ∧
      start.time.frac+nanos/1000000000*1000000000<2000000000) := by
    unfold NaiveTime.Leap at h ⊢
    omega
  have hskip : leapSkip start.time (nanos/1000000000*1000000000)=0 := by
    unfold leapSkip NaiveTime.Leap
    unfold NaiveTime.Leap at h
    rw [if_neg]
    omega
  have ⟨hfirst,hfail⟩ := checkedAdd_spec start hfree
  rw [hskip,Int.sub_zero,inRange_iff] at hfirst hfail
  have hmid : ∀ mid : NaiveDateTime,¬mid.time.Leap →
      position mid=position start+nanos/1000000000*1000000000 →
      (InRange (position start+nanos) → ∃ z,mid.checkedAdd (nanos%1000000000)=some z ∧
        ¬z.time.Leap ∧ position z=position start+nanos) ∧
      (¬InRange (position start+nanos) → mid.checkedAdd (nanos%1000000000)=none) := by
    intro mid hordinary hpos
    have hsecondStep := @checkedAdd_spec mid (nanos%1000000000) (fun hin => hordinary hin.1)
    have hnone : leapSkip mid.time (nanos%1000000000)=0 := if_neg fun hin => hordinary hin.1
    have htarget : position mid+nanos%1000000000=position start+nanos := by omega
    rw [hnone,Int.sub_zero,htarget] at hsecondStep
    exact hsecondStep
  unfold StaysInside clockSteps
  constructor
  · intro hinside
    have ⟨mid,hstep,hordinary,hpos⟩ := hfirst (by omega)
    have ⟨z,hz,hleap,hposition⟩ := (hmid mid hordinary hpos).1 ((inRange_iff _).mpr (by omega))
    exact ⟨z,by rw [hstep]; exact hz,hleap,hposition⟩
  · intro houtside
    by_cases hstart : minNumber*nanosPerDay≤position start+nanos/1000000000*1000000000 ∧
        position start+nanos/1000000000*1000000000<(maxNumber+1)*nanosPerDay
    · have ⟨mid,hstep,hordinary,hpos⟩ := hfirst hstart
      have hnone := (hmid mid hordinary hpos).2 (by rw [inRange_iff]; omega)
      rw [hstep]
      exact hnone
    · rw [hfail hstart]
      rfl

theorem clockSteps_inside (start : NaiveDateTime) {nanos : Int} (hleap : start.time.Leap)
    (h : 0≤nanos ∧ start.time.frac+nanos<2000000000) :
    ∃ z,clockSteps start nanos=some z ∧ z.date=start.date ∧ z.time.secs=start.time.secs ∧
      z.time.frac=start.time.frac+nanos := by
  have hfrac := hleap
  unfold NaiveTime.Leap at hfrac
  have hzero : nanos/1000000000*1000000000=0 := by omega
  have hrest : nanos%1000000000=nanos := by omega
  have hfirst := @checkedAdd_inside start 0 hleap (by omega)
  unfold clockSteps
  rw [hzero,hrest,hfirst]
  have hmid : NaiveTime.Leap ⟨start.time.secs,start.time.frac+0,start.time.day,by omega⟩ := by
    unfold NaiveTime.Leap
    simp only
    omega
  have hsecond := @checkedAdd_inside
    ⟨start.date,⟨start.time.secs,start.time.frac+0,start.time.day,by omega⟩⟩ nanos hmid
    (by simp only; omega)
  exact ⟨_,hsecond,rfl,rfl,by simp only; omega⟩

theorem clockSteps_past (start : NaiveDateTime) {nanos : Int} (hleap : start.time.Leap)
    (h : 0≤nanos ∧ 2000000000≤ start.time.frac+nanos) {z : NaiveDateTime}
    (hz : clockSteps start nanos=some z) :
    ¬z.time.Leap ∧ position z=position start+nanos-1000000000 := by
  have hsecond := start.time.second
  have hfrac := hleap
  unfold NaiveTime.Leap at hfrac
  have ⟨mid,hstep,hlast⟩ := Option.bind_eq_some_iff.mp hz
  by_cases hwhole : nanos/1000000000=0
  · have hzero : nanos/1000000000*1000000000=0 := by omega
    have hrest : nanos%1000000000=nanos := by omega
    have hfirst := @checkedAdd_inside start 0 hleap (by omega)
    rw [hzero,hfirst] at hstep
    have hmid := (Option.some.inj hstep).symm
    rw [hmid,hrest] at hlast
    have hspec := @checkedAdd_spec
      ⟨start.date,⟨start.time.secs,start.time.frac+0,start.time.day,by omega⟩⟩ nanos
      (by simp only [NaiveTime.Leap]; omega)
    have hskip : leapSkip ⟨start.time.secs,start.time.frac+0,start.time.day,by omega⟩ nanos=
        1000000000 := by
      unfold leapSkip NaiveTime.Leap
      rw [if_pos]
      simp only
      omega
    have hpos : position ⟨start.date,⟨start.time.secs,start.time.frac+0,start.time.day,by omega⟩⟩=
        position start := by
      unfold position timeToNanos
      simp only
      omega
    rw [hskip,hpos] at hspec
    by_cases hrange : InRange (position start+nanos-1000000000)
    · have ⟨w,hw,hordinary,hposition⟩ := hspec.1 hrange
      have hsame : w=z := Option.some.inj (hw.symm.trans hlast)
      rw [←hsame]
      exact ⟨hordinary,hposition⟩
    · exact absurd (hspec.2 hrange) (by rw [hlast]; simp)
  · have hover : 2000000000≤ start.time.frac+nanos/1000000000*1000000000 := by omega
    have hspec := @checkedAdd_spec start (nanos/1000000000*1000000000) (by omega)
    have hskip : leapSkip start.time (nanos/1000000000*1000000000)=1000000000 := by
      unfold leapSkip
      rw [if_pos ⟨hleap,hover⟩]
    rw [hskip] at hspec
    by_cases hrange : InRange (position start+nanos/1000000000*1000000000-1000000000)
    · have ⟨w,hw,hordinary,hposition⟩ := hspec.1 hrange
      have hsame : w=mid := Option.some.inj (hw.symm.trans hstep)
      rw [hsame] at hordinary hposition
      have hlastSpec := @checkedAdd_spec mid (nanos%1000000000) (fun hin => hordinary hin.1)
      have hnone : leapSkip mid.time (nanos%1000000000)=0 := if_neg fun hin => hordinary hin.1
      rw [hnone,Int.sub_zero] at hlastSpec
      by_cases hend : InRange (position mid+nanos%1000000000)
      · have ⟨v,hv,hvordinary,hvposition⟩ := hlastSpec.1 hend
        have hresult : v=z := Option.some.inj (hv.symm.trans hlast)
        rw [←hresult]
        exact ⟨hvordinary,by omega⟩
      · exact absurd (hlastSpec.2 hend) (by rw [hlast]; simp)
    · exact absurd (hspec.2 hrange) (by rw [hstep]; simp)

/-- Days and time after a borrowed day add up to the same nanoseconds, and the
days stay between none and all of them. -/
theorem borrowDay_spec (days clock : Int) :
    (borrowDay days clock).1*nanosPerDay+(borrowDay days clock).2=days*nanosPerDay+clock ∧
    ((0≤(borrowDay days clock).1 ∧ (borrowDay days clock).1≤days) ∨
      (days≤(borrowDay days clock).1 ∧ (borrowDay days clock).1≤0)) ∧
    clock-nanosPerDay≤(borrowDay days clock).2 ∧ (borrowDay days clock).2≤clock+nanosPerDay := by
  unfold borrowDay nanosPerDay
  split_ifs with hforward hback
  · simp only
    omega
  · simp only
    omega
  · refine ⟨rfl,?_,?_,?_⟩
    · omega
    · simp only
      omega
    · simp only
      omega

/-- Whole months move a date to where the duration between two dates was taken. -/
theorem addMonths_whole (d1 d2 : NaiveDate) :
    addMonths d1 (wholeMonths d1.date d2.date)=.ok (advanced d1 d2) := by
  have h1 := d1.above
  have h2 := d1.below
  have hrange := wholeMonths_range d1 d2
  have hmoved : d1.checkedAddMonths (wholeMonths d1.date d2.date)=some (advanced d1 d2) := by
    unfold NaiveDate.checkedAddMonths
    rw [dif_pos hrange]
    rfl
  unfold addMonths
  by_cases hzero : wholeMonths d1.date d2.date=0
  · rw [if_neg (not_not.mpr hzero)]
    refine congrArg Except.ok (NaiveDate.eq_of ?_)
    unfold advanced
    simp only [hzero,moveMonths_zero]
  · have hsmall : ¬2147483647<((wholeMonths d1.date d2.date).natAbs : Int) := by
      unfold minMonth minYear at h1 hrange
      unfold maxMonth maxYear at h2 hrange
      omega
    have hword : monthsAbsToU32 (wholeMonths d1.date d2.date)=
        .ok ((wholeMonths d1.date d2.date).natAbs : Int) := if_neg hsmall
    rw [if_pos hzero,hword]
    by_cases hpos : 0< wholeMonths d1.date d2.date
    · have habs : ((wholeMonths d1.date d2.date).natAbs : Int)=wholeMonths d1.date d2.date := by omega
      simp only [bind,Except.bind,if_pos hpos,habs,hmoved]
      rfl
    · have habs : -((wholeMonths d1.date d2.date).natAbs : Int)=wholeMonths d1.date d2.date := by omega
      simp only [bind,Except.bind,if_neg hpos,habs,hmoved]
      rfl

theorem timeSpan_small {millis : Int} (value : Int)
    (h : -9223372036854775807≤ millis ∧ millis≤9223372036854775807) :
    timeSpan millis value=.ok value := if_pos h

theorem number_small (d : NaiveDate) : -100000000≤d.number ∧ d.number≤100000000 := by
  have hbounds := d.number_bounds
  have hmin : minNumber= -95746129 := by decide
  have hmax : maxNumber=95745399 := by decide
  omega

/-- Adding months and days of the duration between two dates, and any clock part
of a few days, leaves the clock steps from the date reached. -/
theorem addToDateTime_between (x : NaiveDateTime) (d2 : NaiveDate) {clock : Int}
    (hclock : -900000000000000≤clock ∧ clock≤900000000000000) :
    ∃ date,addToDateTime x (fromNanos (wholeMonths x.date.date d2.date)
        (borrowDay (restDays x.date.date d2.date) clock).1
        (borrowDay (restDays x.date.date d2.date) clock).2)=
        unwrap (clockSteps ⟨date,x.time⟩ (borrowDay (restDays x.date.date d2.date) clock).2) ∧
      date.number*nanosPerDay+(borrowDay (restDays x.date.date d2.date) clock).2=
        d2.number*nanosPerDay+clock := by
  have ⟨hsum,hbetween,hlow,hhigh⟩ := borrowDay_spec (restDays x.date.date d2.date) clock
  have hadvanced : (advanced x.date d2).number+restDays x.date.date d2.date=d2.number := by
    unfold restDays advanced NaiveDate.number
    simp only
    omega
  have hfrom := (advanced x.date d2).number_bounds
  have hto := d2.number_bounds
  have hsmall := number_small (advanced x.date d2)
  have hsmallTo := number_small d2
  generalize hrest : borrowDay (restDays x.date.date d2.date) clock=rest at hsum hbetween hlow hhigh ⊢
  have hsome : (advanced x.date d2).checkedAddDays rest.1≠none := by
    intro hnone
    exact NaiveDate.checkedAddDays_none.mp hnone (by omega)
  have ⟨date,hdate⟩ := Option.ne_none_iff_exists'.mp hsome
  have hnumber := NaiveDate.number_checkedAddDays hdate
  have hdays : spanDays rest.1=.ok rest.1 := timeSpan_small _ (by omega)
  have hseconds : spanSeconds (rest.2/1000000000)=.ok (rest.2/1000000000*1000000000) := by
    unfold nanosPerDay at hlow hhigh
    exact timeSpan_small _ (by omega)
  refine ⟨date,?_,?_⟩
  · unfold addToDateTime fromNanos
    simp only [addMonths_whole,bind,Except.bind,hdays,hdate,unwrap,hseconds]
    unfold clockSteps
    cases hstep : (⟨date,x.time⟩ : NaiveDateTime).checkedAdd (rest.2/1000000000*1000000000) with
    | none | some mid => rfl
  · unfold nanosPerDay at hsum ⊢
    omega

/-- Pairs of date-times of one kind: both local, or both with an offset and no
zone name; with the seconds that the first one's clock is ahead. -/
inductive Comparable : Temporal → Temporal → NaiveDateTime → NaiveDateTime → Int → Prop where
  | locals (x y : NaiveDateTime) : Comparable (.localDateTime x) (.localDateTime y) x y 0
  | fixed (x y : NaiveDateTime) (o p : FixedOffset) :
      Comparable (.dateTime x o none) (.dateTime y p none) x y (o.seconds-p.seconds)

/-- The same local date-time, or the same instant in UTC. -/
def SameMoment : Temporal → Temporal → Prop
  | .localDateTime x,.localDateTime y => x=y
  | .dateTime x o _,.dateTime y p _ =>
    x.date.number*86400+x.time.secs-o.seconds=y.date.number*86400+y.time.secs-p.seconds ∧
      x.time.frac=y.time.frac
  | _,_ => False

/-- Adding the duration between two values to the first gives the second. -/
def Recovers (tz : TzDatabase) (a b : Temporal) : Prop :=
  ∃ dur r,durationBetween tz a b=.ok dur ∧ addToTemporal a dur=.ok r ∧ SameMoment r b

/-- The clock part of the duration between two date-times. -/
def clockLeft (x y : NaiveDateTime) (ahead : Int) : Int :=
  (borrowDay (restDays x.date.date y.date.date)
    (timeToNanos y.time-timeToNanos x.time+ahead*1000000000)).2

/-- The second date-time by the clock of the first. -/
def targetPosition (y : NaiveDateTime) (ahead : Int) : Int := position y+ahead*1000000000

/-- The steps of the addition miss nothing: they stay inside the date type and
mix no leap second with ordinary time. -/
def StepsExact (x y : NaiveDateTime) (ahead : Int) : Prop :=
  (¬y.time.Leap ∧ (x.time.Leap → clockLeft x y ahead<0) ∧
    StaysInside (targetPosition y ahead) (clockLeft x y ahead)) ∨
  (y.time.Leap ∧ x.time.Leap ∧ 0≤clockLeft x y ahead ∧
    x.time.frac+clockLeft x y ahead<2000000000)

/-- A value of the same kind and offset with another date-time. -/
def withMoment : Temporal → NaiveDateTime → Temporal
  | .localDateTime _,z => .localDateTime z
  | .dateTime _ offset zone,z => .dateTime z offset zone
  | other,_ => other

section

variable {tz : TzDatabase} {a b : Temporal} {x y : NaiveDateTime} {ahead : Int}

theorem Comparable.seen (h : Comparable a b x y ahead) :
    extractDate a=some x.date ∧ extractDate b=some y.date ∧
      clockDifference tz a b=timeToNanos y.time-timeToNanos x.time+ahead*1000000000 ∧
      -172800<ahead ∧ ahead<172800 := by
  cases h with
  | locals =>
    refine ⟨rfl,rfl,?_,by decide,by decide⟩
    have hlocal : ∀ v w : NaiveDateTime,clockNanos tz (.localDateTime v) (.localDateTime w)=timeToNanos v.time := by
      intro v w
      have hzero : effectiveOffsetDst tz (.localDateTime v) (.localDateTime w)=0 := rfl
      unfold clockNanos
      rw [hzero]
      simp [extractTime]
    unfold clockDifference
    rw [hlocal,hlocal]
    omega
  | fixed _ _ o p =>
    have ho := o.bound
    have hp := p.bound
    refine ⟨rfl,rfl,?_,by omega,by omega⟩
    have haware : ∀ (v w : NaiveDateTime) (q r : FixedOffset),
        clockNanos tz (.dateTime v q none) (.dateTime w r none)=timeToNanos v.time-q.seconds*1000000000 := by
      intro v w q r
      have hown : effectiveOffsetDst tz (.dateTime v q none) (.dateTime w r none)=q.seconds := rfl
      unfold clockNanos
      rw [hown]
      simp [extractTime]
    unfold clockDifference
    rw [haware,haware]
    omega

theorem Comparable.addToTemporal_eq (h : Comparable a b x y ahead) (dur : CypherDuration) :
    addToTemporal a dur=(addToDateTime x dur).map (withMoment a) := by
  cases h with
  | locals | fixed _ _ o p => rfl

/-- The moved value is at the moment of the second one when the seconds are, by
the clock of the first, and the nanoseconds are. -/
theorem Comparable.sameMoment_iff (h : Comparable a b x y ahead) (z : NaiveDateTime) :
    SameMoment (withMoment a z) b ↔
      z.date.number*86400+z.time.secs=y.date.number*86400+y.time.secs+ahead ∧ z.time.frac=y.time.frac := by
  cases h with
  | locals =>
    have hz := z.time.day
    have hy := y.time.day
    have hsame : SameMoment (withMoment (.localDateTime x) z) (.localDateTime y) ↔ z=y := Iff.rfl
    rw [hsame]
    constructor
    · intro heq
      rw [heq]
      exact ⟨by omega,rfl⟩
    · intro heq
      have hnumber : z.date.number=y.date.number := by omega
      have hdate := NaiveDate.number_inj.mp hnumber
      have htime : z.time=y.time := NaiveTime.eq_of (by omega) heq.2
      cases z with
      | mk dz tz' =>
        cases y with
        | mk dy ty =>
          simp only at hdate htime
          rw [hdate,htime]
  | fixed _ _ o p =>
    have hsame : SameMoment (withMoment (.dateTime x o none) z) (.dateTime y p none) ↔
        z.date.number*86400+z.time.secs-o.seconds=y.date.number*86400+y.time.secs-p.seconds ∧
          z.time.frac=y.time.frac := Iff.rfl
    rw [hsame]
    constructor
    · exact fun heq => ⟨by omega,heq.2⟩
    · exact fun heq => ⟨by omega,heq.2⟩

theorem moment_of_position (z y : NaiveDateTime) (ahead : Int) (hz : ¬z.time.Leap) :
    (position z=targetPosition y ahead ∧ ¬y.time.Leap ↔
      (z.date.number*86400+z.time.secs=y.date.number*86400+y.time.secs+ahead ∧ z.time.frac=y.time.frac)) := by
  have h1 := z.time.second
  have h2 := y.time.second
  unfold NaiveTime.Leap at hz ⊢
  unfold targetPosition position timeToNanos nanosPerDay
  constructor
  · intro h
    exact ⟨by omega,by omega⟩
  · intro h
    exact ⟨by omega,by omega⟩

/-- The clock steps from the date reached give the moment of the second value
exactly when the steps miss nothing. -/
theorem clockSteps_moment_iff {date : NaiveDate} {left : Int}
    (hpos : date.number*nanosPerDay+timeToNanos x.time+left=targetPosition y ahead) :
    (∃ z,clockSteps ⟨date,x.time⟩ left=some z ∧
      z.date.number*86400+z.time.secs=y.date.number*86400+y.time.secs+ahead ∧ z.time.frac=y.time.frac) ↔
    ((¬y.time.Leap ∧ (x.time.Leap → left<0) ∧ StaysInside (targetPosition y ahead) left) ∨
      (y.time.Leap ∧ x.time.Leap ∧ 0≤left ∧ x.time.frac+left<2000000000)) := by
  have hstart : position ⟨date,x.time⟩+left=targetPosition y ahead := hpos
  by_cases hordinary : ¬x.time.Leap ∨ left<0
  · have ⟨hinside,houtside⟩ := clockSteps_ordinary ⟨date,x.time⟩ hordinary
    rw [hstart] at hinside houtside
    constructor
    · intro h
      have ⟨z,hz,hmoment⟩ := h
      by_cases hstays : StaysInside (targetPosition y ahead) left
      · have ⟨w,hw,hleap,hposition⟩ := hinside hstays
        have hsame : w=z := Option.some.inj (hw.symm.trans hz)
        rw [hsame] at hleap hposition
        have hy := ((moment_of_position z y ahead hleap).mpr hmoment).2
        exact Or.inl ⟨hy,fun hx => hordinary.resolve_left (not_not.mpr hx),hstays⟩
      · rw [houtside hstays] at hz
        exact nomatch hz
    · intro h
      rcases h with ⟨hy,-,hstays⟩ | ⟨-,hx,hleft,-⟩
      · have ⟨z,hz,hleap,hposition⟩ := hinside hstays
        exact ⟨z,hz,(moment_of_position z y ahead hleap).mp ⟨hposition,hy⟩⟩
      · rcases hordinary with hno | hneg
        · exact absurd hx hno
        · omega
  · have hx : x.time.Leap := by
      by_contra hno
      exact hordinary (Or.inl hno)
    have hleft : 0≤left := by
      by_contra hneg
      exact hordinary (Or.inr (by omega))
    have hxfrac := hx
    unfold NaiveTime.Leap at hxfrac
    by_cases hover : x.time.frac+left<2000000000
    · have ⟨z,hz,hdate,hsecs,hfrac⟩ := clockSteps_inside ⟨date,x.time⟩ hx ⟨hleft,hover⟩
      simp only at hdate hsecs hfrac
      have hbound := y.time.second
      constructor
      · intro h
        have ⟨w,hw,hmoment⟩ := h
        have hsame : z=w := Option.some.inj (hz.symm.trans hw)
        refine Or.inr ⟨?_,hx,hleft,hover⟩
        unfold NaiveTime.Leap
        rw [←hmoment.2,←hsame,hfrac]
        omega
      · intro h
        rcases h with ⟨-,hneg,-⟩ | ⟨hy,-⟩
        · have hlt := hneg hx
          omega
        · unfold NaiveTime.Leap at hy
          unfold targetPosition position timeToNanos nanosPerDay at hpos
          refine ⟨z,hz,?_,?_⟩
          · rw [hdate,hsecs]
            omega
          · rw [hfrac]
            omega
    · constructor
      · intro h
        have ⟨z,hz,hmoment⟩ := h
        have ⟨hleap,hposition⟩ := clockSteps_past ⟨date,x.time⟩ hx ⟨hleft,by simp only; omega⟩ hz
        have hsame := ((moment_of_position z y ahead hleap).mpr hmoment).1
        rw [hstart] at hposition
        omega
      · intro h
        rcases h with ⟨-,hneg,-⟩ | ⟨-,-,-,hin⟩
        · have hlt := hneg hx
          omega
        · exact absurd hin hover

/-- Adding the duration between two date-times of one kind to the first gives the
second exactly when the month arithmetic does not step on the last month of the
date type and the steps of the addition miss nothing. -/
theorem recovers_iff (h : Comparable a b x y ahead) :
    Recovers tz a b ↔ ¬InLastMonth x.date y.date ∧ StepsExact x y ahead := by
  have ⟨hdateA,hdateB,hclock,hlow,hhigh⟩ := @Comparable.seen tz a b x y ahead h
  have hbetween := @durationBetween_dated tz a b x.date y.date hdateA hdateB
  rw [hclock] at hbetween
  have hx := x.time.day
  have hxs := x.time.second
  have hy := y.time.day
  have hys := y.time.second
  have hbound : -900000000000000≤timeToNanos y.time-timeToNanos x.time+ahead*1000000000 ∧
      timeToNanos y.time-timeToNanos x.time+ahead*1000000000≤900000000000000 := by
    unfold timeToNanos
    omega
  have ⟨date,hadd,hnumber⟩ := addToDateTime_between x y.date hbound
  have hpos : date.number*nanosPerDay+timeToNanos x.time+clockLeft x y ahead=targetPosition y ahead := by
    unfold clockLeft targetPosition position
    omega
  have hiff := clockSteps_moment_iff hpos
  unfold Recovers StepsExact
  rw [hbetween,←hiff]
  by_cases hlast : InLastMonth x.date y.date
  · rw [if_pos hlast]
    constructor
    · intro hr
      have ⟨dur,r,hdur,_⟩ := hr
      exact nomatch hdur
    · exact fun hr => absurd hlast hr.1
  · rw [if_neg hlast]
    constructor
    · intro hr
      have ⟨dur,r,hdur,hmoved,hmoment⟩ := hr
      rw [←Except.ok.inj hdur,h.addToTemporal_eq,hadd] at hmoved
      refine ⟨hlast,?_⟩
      cases hsteps : clockSteps ⟨date,x.time⟩ (clockLeft x y ahead) with
      | none =>
        unfold clockLeft at hsteps
        rw [hsteps] at hmoved
        exact nomatch hmoved
      | some z =>
        unfold clockLeft at hsteps
        rw [hsteps] at hmoved
        rw [←Except.ok.inj hmoved] at hmoment
        exact ⟨z,rfl,(h.sameMoment_iff z).mp hmoment⟩
    · intro hr
      have ⟨_,z,hz,hmoment⟩ := hr
      refine ⟨_,withMoment a z,rfl,?_,(h.sameMoment_iff z).mpr hmoment⟩
      unfold clockLeft at hz
      rw [h.addToTemporal_eq,hadd,hz]
      rfl

end

/-- Midnight of the last day of the date type. -/
def lastMidnight : NaiveDateTime :=
  ⟨⟨⟨3145715,31,by decide,by decide⟩,by decide,by decide⟩,midnight⟩

/-- Half way through a leap second at the end of 2016. -/
def leapSecond2016 : NaiveDateTime :=
  ⟨⟨⟨24203,31,by decide,by decide⟩,by decide,by decide⟩,⟨86399,1500000000,by decide,by decide⟩⟩

/-- The first second of 2017 is over. -/
def second2017 : NaiveDateTime :=
  ⟨⟨⟨24204,1,first_le,by decide⟩,by decide,by decide⟩,⟨1,0,second_one,midnight.second⟩⟩

/-- In the last month of the date type the duration panics, and from a leap
second on the sum is a second early. -/
theorem recovers_fails :
    durationBetween noZones (.localDateTime lastMidnight) (.localDateTime lastMidnight)=.error .panic ∧
    ¬Recovers noZones (.localDateTime lastMidnight) (.localDateTime lastMidnight) ∧
    durationBetween noZones (.localDateTime leapSecond2016) (.localDateTime second2017)=
      .ok ⟨0,0,0,500000000⟩ ∧
    ¬Recovers noZones (.localDateTime leapSecond2016) (.localDateTime second2017) := by
  have hpanic : durationBetween noZones (.localDateTime lastMidnight) (.localDateTime lastMidnight)=
      .error .panic := by decide
  have hbetween : durationBetween noZones (.localDateTime leapSecond2016) (.localDateTime second2017)=
      .ok ⟨0,0,0,500000000⟩ := by decide
  have hsum : addToTemporal (.localDateTime leapSecond2016) ⟨0,0,0,500000000⟩=
      .ok (.localDateTime ⟨second2017.date,midnight⟩) := by decide
  refine ⟨hpanic,?_,hbetween,?_⟩
  · intro h
    have ⟨dur,r,hdur,_⟩ := h
    exact nomatch hpanic.symm.trans hdur
  · intro h
    have ⟨dur,r,hdur,hmoved,hmoment⟩ := h
    have hd := Except.ok.inj (hbetween.symm.trans hdur)
    rw [←hd,hsum] at hmoved
    rw [←Except.ok.inj hmoved] at hmoment
    have heq : (⟨second2017.date,midnight⟩ : NaiveDateTime)=second2017 := hmoment
    exact absurd heq (by decide)

/-- From July 2014 to July 2015 the steps miss nothing. -/
theorem recovers_iff_july : Recovers noZones (.localDateTime july2014) (.localDateTime july2015) ↔
    ¬InLastMonth july2014.date july2015.date ∧ StepsExact july2014 july2015 0 :=
  recovers_iff (Comparable.locals july2014 july2015)

end GraphDbLite.TemporalAddition
