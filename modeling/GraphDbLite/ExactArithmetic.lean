import GraphDbLite.DurationScaling
import GraphDbLite.TemporalAddition

/-!
# Temporal arithmetic without bounds

Sums, differences, products, quotients and accessors are compared with the same
steps in integers and in a calendar without ends. They agree, or are refused,
where no word and no span overflows, each step of a sum stays in the date type,
and the months of a sum reach one of its dates or are too many for the library.
-/

namespace GraphDbLite.ExactArithmetic

open Calendar TemporalValues DurationBetween TemporalAddition DurationArithmetic
open DurationScaling

/-- Operands of temporal arithmetic. -/
inductive Value where
  | temporal (v : Temporal)
  | duration (d : CypherDuration)
  | other

/-- The sum of two operands, when one is a duration and the other one too or a
temporal value. -/
def evalAdd : Value → Value → Option (Temporally Value)
  | .duration a,.duration b => some ((evalTemporalAdd a b).map .duration)
  | .temporal v,.duration dur => some ((addToTemporal v dur).map .temporal)
  | .duration dur,.temporal v => some ((addToTemporal v dur).map .temporal)
  | _,_ => none

/-- Each component with the other sign. -/
def negated (d : CypherDuration) : CypherDuration := ⟨-d.months,-d.days,-d.seconds,-d.nanos⟩

/-- Each component with the other sign, in its word. -/
def negate (d : CypherDuration) : Temporally CypherDuration := do
  let months ← checkedI64 (-d.months)
  let days ← checkedI64 (-d.days)
  let seconds ← checkedI64 (-d.seconds)
  let nanos ← checkedI64 (-d.nanos)
  return ⟨months,days,seconds,nanos⟩

/-- The difference of two operands: a duration is taken away by adding it with the
other signs. -/
def evalSub (left right : Value) : Option (Temporally Value) :=
  match left,right with
  | .duration a,.duration b => some ((evalTemporalSub a b).map .duration)
  | left,.duration dur =>
    match negate dur with
    | .ok neg => evalAdd left (.duration neg)
    | .error fault => some (.error fault)
  | _,_ => none

/-- A component of a duration by its name. -/
def durationAccessor (d : CypherDuration) (prop : String) : Option (Temporally Int) :=
  match prop with
  | "years" => some (.ok (d.months.tdiv 12))
  | "quarters" => some (.ok (d.months.tdiv 3))
  | "months" => some (.ok d.months)
  | "weeks" => some (.ok (d.days.tdiv 7))
  | "days" => some (.ok d.days)
  | "hours" => some (.ok (d.seconds.tdiv 3600))
  | "minutes" => some (.ok (d.seconds.tdiv 60))
  | "seconds" => some (.ok d.seconds)
  | "nanoseconds" => some do
    let scaled ← checkedI64 (d.seconds*1000000000)
    checkedI64 (scaled+d.nanos)
  | "milliseconds" => some do
    let scaled ← checkedI64 (d.seconds*1000)
    checkedI64 (scaled+d.nanos.tdiv 1000000)
  | "microseconds" => some do
    let scaled ← checkedI64 (d.seconds*1000000)
    checkedI64 (scaled+d.nanos.tdiv 1000)
  | "quartersOfYear" => some (.ok ((d.months.tmod 12).tdiv 3))
  | "monthsOfQuarter" => some (.ok (d.months.tmod 3))
  | "monthsOfYear" => some (.ok (d.months.tmod 12))
  | "daysOfWeek" => some (.ok (d.days.tmod 7))
  | "minutesOfHour" => some (.ok ((d.seconds.tdiv 60).tmod 60))
  | "secondsOfMinute" => some (.ok (d.seconds.tmod 60))
  | "millisecondsOfSecond" => some (.ok (d.nanos.tdiv 1000000))
  | "microsecondsOfSecond" => some (.ok (d.nanos.tdiv 1000))
  | "nanosecondsOfSecond" => some (.ok d.nanos)
  | _ => none

/-- A date-time of the calendar without ends. -/
structure Moment where
  /-- The date. -/
  date : Date
  /-- The time of day. -/
  time : NaiveTime

/-- A date-time moved by nanoseconds. -/
def Moment.add (m : Moment) (nanos : Int) : Moment :=
  ⟨moveDays m.date (m.time.overflowingAdd nanos).2,(m.time.overflowingAdd nanos).1⟩

/-- Nanoseconds of a date-time since a fixed day. -/
def Moment.position (m : Moment) : Int := dayNumber m.date*nanosPerDay+timeToNanos m.time

/-- A date moved by the months and days of a duration. -/
def movedDate (d : Date) (dur : CypherDuration) : Date := moveDays (moveMonths d dur.months) dur.days

/-- A date-time moved by the months, the days and the seconds of a duration. -/
def movedSeconds (d : Date) (time : NaiveTime) (dur : CypherDuration) : Moment :=
  Moment.add ⟨movedDate d dur,time⟩ (dur.seconds*1000000000)

/-- A date-time moved by a duration. -/
def movedMoment (d : Date) (time : NaiveTime) (dur : CypherDuration) : Moment :=
  (movedSeconds d time dur).add dur.nanos

/-- A date moved by a duration, with the whole days of its seconds and of its
nanoseconds. -/
def movedWholeDays (d : Date) (dur : CypherDuration) : Date :=
  moveDays (moveDays (movedDate d dur) ((dur.seconds*1000000000).tdiv nanosPerDay))
    (dur.nanos.tdiv nanosPerDay)

/-- A time moved by a duration, around the clock. -/
def movedTime (t : NaiveTime) (dur : CypherDuration) : NaiveTime :=
  ((t.overflowingAdd (dur.seconds*1000000000)).1.overflowingAdd dur.nanos).1

/-- A date-time in the calendar without ends. -/
def moment (dt : NaiveDateTime) : Moment := ⟨dt.date.date,dt.time⟩

/-- A temporal value is another one moved by a duration. -/
def IsMoved (v : Temporal) (dur : CypherDuration) (w : Temporal) : Prop :=
  match v,w with
  | .date d,.date e => e.date=movedWholeDays d.date dur
  | .localTime t,.localTime u => u=movedTime t dur
  | .time t offset,.time u offset' => u=movedTime t dur ∧ offset'=offset
  | .localDateTime x,.localDateTime y => moment y=movedMoment x.date.date x.time dur
  | .dateTime x offset zone,.dateTime y offset' zone' =>
    moment y=movedMoment x.date.date x.time dur ∧ offset'=offset ∧ zone'=zone
  | _,_ => False

/-- The date type has a date. -/
def Inside (d : Date) : Prop := minNumber≤dayNumber d ∧ dayNumber d≤ maxNumber

/-- The span type has a number of milliseconds. -/
def SpanFits (millis : Int) : Prop := -9223372036854775807≤ millis ∧ millis≤9223372036854775807

/-- More months than the date library takes. -/
def TooMany (months : Int) : Prop := 2147483647<(months.natAbs : Int)

/-- Months lead to a month of the date type. -/
def MonthsReach (d : Date) (months : Int) : Prop := minMonth≤d.month+months ∧ d.month+months≤ maxMonth

/-- Days of a duration fit their span and stay in the date type. -/
def DaysMeet (d : Date) (dur : CypherDuration) : Prop :=
  SpanFits (dur.days*86400000) ∧ Inside (movedDate d dur) ∧ SpanFits (dur.seconds*1000)

/-- No step of a sum overflows or leaves the date type, or the months are refused. -/
def SumMeets (v : Temporal) (dur : CypherDuration) : Prop :=
  match v with
  | .date d => TooMany dur.months ∨ MonthsReach d.date dur.months ∧ DaysMeet d.date dur ∧
      Inside (moveDays (movedDate d.date dur) ((dur.seconds*1000000000).tdiv nanosPerDay)) ∧
      Inside (movedWholeDays d.date dur)
  | .localTime _ => SpanFits (dur.seconds*1000)
  | .time _ _ => SpanFits (dur.seconds*1000)
  | .localDateTime x => TooMany dur.months ∨ MonthsReach x.date.date dur.months ∧ DaysMeet x.date.date dur ∧
      Inside (movedSeconds x.date.date x.time dur).date ∧ Inside (movedMoment x.date.date x.time dur).date
  | .dateTime x _ _ => TooMany dur.months ∨ MonthsReach x.date.date dur.months ∧ DaysMeet x.date.date dur ∧
      Inside (movedSeconds x.date.date x.time dur).date ∧ Inside (movedMoment x.date.date x.time dur).date

/-- The outcome is exact, or an error that is no panic. -/
def ExactOrError {α : Type} (outcome : Temporally α) (isExact : α → Prop) : Prop :=
  outcome≠.error .panic ∧ ∀ a,outcome=.ok a → isExact a

section

variable {α β : Type}

theorem exactOrError_ok {a : α} {isExact : α → Prop} :
    ExactOrError (.ok a : Temporally α) isExact ↔ isExact a := by
  constructor
  · intro h
    exact h.2 a rfl
  · intro h
    constructor
    · intro hpanic
      cases hpanic
    · intro b hb
      cases hb
      exact h

theorem not_exactOrError_panic (isExact : α → Prop) : ¬ExactOrError (.error .panic : Temporally α) isExact :=
  fun h => h.1 rfl

theorem exactOrError_refused (message : String) (isExact : α → Prop) :
    ExactOrError (.error (.numberOutOfRange message) : Temporally α) isExact := by
  constructor
  · intro h
    cases h
  · intro a ha
    cases ha

theorem exactOrError_map {outcome : Temporally α} {f : α → β} {isExact : β → Prop} :
    ExactOrError (outcome.map f) isExact ↔ ExactOrError outcome fun a => isExact (f a) := by
  cases outcome with
  | ok a =>
    have hmap : (Except.ok a : Temporally α).map f=.ok (f a) := rfl
    rw [hmap,exactOrError_ok,exactOrError_ok]
  | error fault =>
    cases fault with
    | panic => exact iff_of_false (not_exactOrError_panic _) (not_exactOrError_panic _)
    | numberOutOfRange message =>
      exact iff_of_true (exactOrError_refused message _) (exactOrError_refused message _)

end

theorem addMonths_cases (d : NaiveDate) (months : Int) :
    (TooMany months → ∃ message,addMonths d months=.error (.numberOutOfRange message)) ∧
    (¬TooMany months → MonthsReach d.date months →
      ∃ e,addMonths d months=.ok e ∧ e.date=moveMonths d.date months) ∧
    (¬TooMany months → ¬MonthsReach d.date months → months≠0 ∧ addMonths d months=.ok d) := by
  have habove := d.above
  have hbelow := d.below
  have hmoved : ¬TooMany months → months≠0 → addMonths d months=.ok ((d.checkedAddMonths months).getD d) := by
    intro h hne
    have habs : monthsAbsToU32 months=.ok months.natAbs := if_neg h
    rw [addMonths,if_pos hne,habs]
    simp only [bind,Except.bind]
    by_cases hpos : 0< months
    · have hsame : (months.natAbs : Int)=months := by omega
      rw [if_pos hpos,hsame]
      rfl
    · have hsame : -(months.natAbs : Int)=months := by omega
      rw [if_neg hpos,hsame]
      rfl
  refine ⟨?_,?_,?_⟩
  · intro h
    have hne : months≠0 := by
      unfold TooMany at h
      omega
    have ⟨message,habs⟩ : ∃ message,monthsAbsToU32 months=.error (.numberOutOfRange message) := ⟨_,if_pos h⟩
    refine ⟨message,?_⟩
    rw [addMonths,if_pos hne,habs]
    rfl
  · intro h hreach
    have hsome : d.checkedAddMonths months=some ⟨moveMonths d.date months,hreach.1,hreach.2⟩ := dif_pos hreach
    by_cases hne : months=0
    · refine ⟨d,?_,?_⟩
      · rw [addMonths,if_neg (not_not.mpr hne)]
      · rw [hne,moveMonths_zero]
    · rw [hmoved h hne,hsome]
      exact ⟨_,rfl,rfl⟩
  · intro h hreach
    have hne : months≠0 := by
      intro hzero
      refine hreach ?_
      unfold MonthsReach
      omega
    have hnone : d.checkedAddMonths months=none := dif_neg hreach
    rw [hmoved h hne,hnone]
    exact ⟨hne,rfl⟩

/-- An outcome is a value of a kind where a condition is met, and a panic elsewhere. -/
structure OrPanic {α : Type} (outcome : Temporally α) (meets : Prop) (isResult : α → Prop) : Prop where
  /-- The value. -/
  value : meets → ∃ a,outcome=.ok a ∧ isResult a
  /-- The panic. -/
  panic : ¬meets → outcome=.error .panic

theorem OrPanic.bind {α β : Type} {x : Temporally α} {f : α → Temporally β} {p q : Prop} {isFirst : α → Prop}
    {isLast : β → Prop} (hx : OrPanic x p isFirst) (hf : ∀ a,isFirst a → OrPanic (f a) q isLast) :
    OrPanic (x >>= f) (p ∧ q) isLast := by
  by_cases hp : p
  · obtain ⟨a,ha,hfirst⟩ := hx.value hp
    have hrest := hf a hfirst
    rw [ha]
    exact ⟨fun h => hrest.value h.2,fun h => hrest.panic fun hq => h ⟨hp,hq⟩⟩
  · rw [hx.panic hp]
    exact ⟨fun h => absurd h.1 hp,fun _ => rfl⟩

theorem checkedAddDays_cases {d : NaiveDate} {start : Date} (hstart : d.date=start) (days : Int) :
    OrPanic (unwrap (d.checkedAddDays days)) (Inside (moveDays start days)) fun e => e.date=moveDays start days := by
  rw [←hstart]
  have hnumber : dayNumber (moveDays d.date days)=d.number+days := dayNumber_moveDays d.date days
  unfold Inside
  rw [hnumber]
  constructor
  · intro h
    rw [NaiveDate.checkedAddDays,dif_pos h]
    exact ⟨_,rfl,rfl⟩
  · intro h
    rw [NaiveDate.checkedAddDays,dif_neg h]
    rfl

theorem checkedAdd_cases {x : NaiveDateTime} {start : Moment} (hstart : moment x=start) (nanos : Int) :
    OrPanic (unwrap (x.checkedAdd nanos)) (Inside (start.add nanos).date) fun z => moment z=start.add nanos := by
  rw [←hstart]
  have hnumber : dayNumber ((moment x).add nanos).date=x.date.number+(x.time.overflowingAdd nanos).2 :=
    dayNumber_moveDays x.date.date _
  unfold Inside
  rw [hnumber]
  constructor
  · intro h
    rw [NaiveDateTime.checkedAdd,NaiveDate.checkedAddDays,dif_pos h]
    exact ⟨_,rfl,rfl⟩
  · intro h
    rw [NaiveDateTime.checkedAdd,NaiveDate.checkedAddDays,dif_neg h]
    rfl

/-- What follows the months of a sum with a date-time. -/
def addSpans (date : NaiveDate) (time : NaiveTime) (dur : CypherDuration) : Temporally NaiveDateTime := do
  let days ← spanDays dur.days
  let date ← unwrap (date.checkedAddDays days)
  let seconds ← spanSeconds dur.seconds
  let ndt ← unwrap ((⟨date,time⟩ : NaiveDateTime).checkedAdd seconds)
  unwrap (ndt.checkedAdd dur.nanos)

/-- What follows the months of a sum with a date. -/
def addWholeDays (date : NaiveDate) (dur : CypherDuration) : Temporally NaiveDate := do
  let days ← spanDays dur.days
  let date ← unwrap (date.checkedAddDays days)
  let seconds ← spanSeconds dur.seconds
  let date ← unwrap (date.checkedAddDays (seconds.tdiv nanosPerDay))
  unwrap (date.checkedAddDays (dur.nanos.tdiv nanosPerDay))

theorem spanDays_cases (days : Int) : OrPanic (spanDays days) (SpanFits (days*86400000)) fun span => span=days :=
  ⟨fun h => ⟨days,if_pos h,rfl⟩,fun h => if_neg h⟩

theorem spanSeconds_cases (seconds : Int) :
    OrPanic (spanSeconds seconds) (SpanFits (seconds*1000)) fun span => span=seconds*1000000000 :=
  ⟨fun h => ⟨_,if_pos h,rfl⟩,fun h => if_neg h⟩

/-- A date-time moved by the days and the seconds of a duration. -/
def secondsAfter (d : Date) (time : NaiveTime) (dur : CypherDuration) : Moment :=
  Moment.add ⟨moveDays d dur.days,time⟩ (dur.seconds*1000000000)

/-- A date moved by the days of a duration and the whole days of its seconds. -/
def wholeDaysAfter (d : Date) (dur : CypherDuration) : Date :=
  moveDays (moveDays d dur.days) ((dur.seconds*1000000000).tdiv nanosPerDay)

/-- The steps from a date stay in the date type. -/
def SpansMeet (time : NaiveTime) (dur : CypherDuration) (d : Date) : Prop :=
  SpanFits (dur.days*86400000) ∧ Inside (moveDays d dur.days) ∧ SpanFits (dur.seconds*1000) ∧
    Inside (secondsAfter d time dur).date ∧ Inside ((secondsAfter d time dur).add dur.nanos).date

/-- The same for whole days. -/
def WholeDaysMeet (dur : CypherDuration) (d : Date) : Prop :=
  SpanFits (dur.days*86400000) ∧ Inside (moveDays d dur.days) ∧ SpanFits (dur.seconds*1000) ∧
    Inside (wholeDaysAfter d dur) ∧ Inside (moveDays (wholeDaysAfter d dur) (dur.nanos.tdiv nanosPerDay))

/-- The spans of a duration are added exactly while they stay in the date type, and
panic otherwise. -/
theorem addSpans_cases (d : NaiveDate) (time : NaiveTime) (dur : CypherDuration) :
    OrPanic (addSpans d time dur) (SpansMeet time dur d.date)
      fun z => moment z=(secondsAfter d.date time dur).add dur.nanos := by
  refine (spanDays_cases dur.days).bind fun days hspan => ?_
  rw [hspan]
  refine (checkedAddDays_cases rfl dur.days).bind fun e hdate => ?_
  refine (spanSeconds_cases dur.seconds).bind fun seconds hseconds => ?_
  rw [hseconds]
  have hmoment : moment ⟨e,time⟩=⟨moveDays d.date dur.days,time⟩ := by
    unfold moment
    rw [hdate]
  refine (checkedAdd_cases hmoment _).bind fun y hy => ?_
  exact checkedAdd_cases hy dur.nanos

/-- Whole days of a duration are added exactly while they stay in the date type,
and panic otherwise. -/
theorem addWholeDays_cases (d : NaiveDate) (dur : CypherDuration) :
    OrPanic (addWholeDays d dur) (WholeDaysMeet dur d.date)
      fun z => z.date=moveDays (wholeDaysAfter d.date dur) (dur.nanos.tdiv nanosPerDay) := by
  refine (spanDays_cases dur.days).bind fun days hspan => ?_
  rw [hspan]
  refine (checkedAddDays_cases rfl dur.days).bind fun e hdate => ?_
  refine (spanSeconds_cases dur.seconds).bind fun seconds hseconds => ?_
  rw [hseconds]
  refine (checkedAddDays_cases hdate _).bind fun y hy => ?_
  exact checkedAddDays_cases hy _

theorem dayNumber_moveMonths_ne (d : Date) {months : Int} (h : months≠0) :
    dayNumber (moveMonths d months)≠dayNumber d := by
  intro heq
  have hmonth := month_eq_of_dayNumber heq
  rw [moveMonths_month] at hmonth
  omega

/-- Months before other steps: the sum is exact, or refused, exactly where the months
are too many, or reach a date from which the steps go through. -/
theorem months_exact_iff {α : Type} {steps : NaiveDate → Temporally α} {meets : Date → Prop}
    {isResult : Date → α → Prop} (hsteps : ∀ d,OrPanic (steps d) (meets d.date) (isResult d.date))
    (hinj : ∀ a d e,isResult d a → isResult e a → dayNumber d=dayNumber e) (x : NaiveDate) (months : Int) :
    ExactOrError (do
      let date ← addMonths x months
      steps date) (isResult (moveMonths x.date months)) ↔
    TooMany months ∨ MonthsReach x.date months ∧ meets (moveMonths x.date months) := by
  have hmonths := addMonths_cases x months
  by_cases hmany : TooMany months
  · have ⟨message,hrefused⟩ := hmonths.1 hmany
    rw [hrefused]
    exact iff_of_true (exactOrError_refused message _) (.inl hmany)
  · rw [or_iff_right hmany]
    by_cases hreach : MonthsReach x.date months
    · have ⟨e,he,hdate⟩ := hmonths.2.1 hmany hreach
      rw [he,←hdate,and_iff_right hreach]
      change ExactOrError (steps e) _ ↔ _
      by_cases hmeets : meets e.date
      · have ⟨a,ha,hresult⟩ := (hsteps e).value hmeets
        rw [ha]
        exact iff_of_true (exactOrError_ok.mpr hresult) hmeets
      · rw [(hsteps e).panic hmeets]
        exact iff_of_false (not_exactOrError_panic _) hmeets
    · have hstays := hmonths.2.2 hmany hreach
      rw [hstays.2]
      refine iff_of_false ?_ fun h => hreach h.1
      intro hexact
      by_cases hmeets : meets x.date
      · have ⟨a,ha,hresult⟩ := (hsteps x).value hmeets
        have hmoved := hinj a _ _ (hexact.2 a ha) hresult
        exact dayNumber_moveMonths_ne x.date hstays.1 hmoved
      · exact hexact.1 ((hsteps x).panic hmeets)

/-- A date-time plus a duration is exact, or refused, exactly where no step
overflows or leaves the date type and the months reach a date or are refused. -/
theorem addToDateTime_exact_iff (x : NaiveDateTime) (dur : CypherDuration) :
    ExactOrError (addToDateTime x dur) (fun y => moment y=movedMoment x.date.date x.time dur) ↔
    TooMany dur.months ∨ MonthsReach x.date.date dur.months ∧ DaysMeet x.date.date dur ∧
      Inside (movedSeconds x.date.date x.time dur).date ∧ Inside (movedMoment x.date.date x.time dur).date := by
  have hinj : ∀ (a : NaiveDateTime) (d e : Date),moment a=(secondsAfter d x.time dur).add dur.nanos →
      moment a=(secondsAfter e x.time dur).add dur.nanos → dayNumber d=dayNumber e := by
    intro a d e hd he
    have hnumbers := congrArg (fun m : Moment => dayNumber m.date) (hd.symm.trans he)
    simp only [secondsAfter,Moment.add,dayNumber_moveDays] at hnumbers
    omega
  unfold DaysMeet
  rw [and_assoc,and_assoc]
  exact months_exact_iff (addSpans_cases · x.time dur) hinj x.date dur.months

/-- A date plus a duration is exact, or refused, exactly where no step overflows or
leaves the date type and the months reach a date or are refused. -/
theorem addToDate_exact_iff (d : NaiveDate) (dur : CypherDuration) :
    ExactOrError (addToDate d dur) (fun e => e.date=movedWholeDays d.date dur) ↔
    TooMany dur.months ∨ MonthsReach d.date dur.months ∧ DaysMeet d.date dur ∧
      Inside (moveDays (movedDate d.date dur) ((dur.seconds*1000000000).tdiv nanosPerDay)) ∧
      Inside (movedWholeDays d.date dur) := by
  have hinj : ∀ (a : NaiveDate) (b c : Date),a.date=moveDays (wholeDaysAfter b dur) (dur.nanos.tdiv nanosPerDay) →
      a.date=moveDays (wholeDaysAfter c dur) (dur.nanos.tdiv nanosPerDay) → dayNumber b=dayNumber c := by
    intro a b c hb hc
    have hnumbers := congrArg dayNumber (hb.symm.trans hc)
    simp only [wholeDaysAfter,dayNumber_moveDays] at hnumbers
    omega
  unfold DaysMeet
  rw [and_assoc,and_assoc]
  exact months_exact_iff (addWholeDays_cases · dur) hinj d dur.months

theorem addToTime_exact_iff (t : NaiveTime) (dur : CypherDuration) :
    ExactOrError (addToTime t dur) (fun u => u=movedTime t dur) ↔ SpanFits (dur.seconds*1000) := by
  have hseconds := spanSeconds_cases dur.seconds
  by_cases hfits : SpanFits (dur.seconds*1000)
  · obtain ⟨span,hspan,heq⟩ := hseconds.value hfits
    have hadded : addToTime t dur=.ok (movedTime t dur) := by
      rw [addToTime,hspan,heq]
      rfl
    rw [hadded]
    exact iff_of_true (exactOrError_ok.mpr rfl) hfits
  · have hadded : addToTime t dur=.error .panic := by
      rw [addToTime,hseconds.panic hfits]
      rfl
    rw [hadded]
    exact iff_of_false (not_exactOrError_panic _) hfits

/-- A temporal value plus a duration is exact, or refused, exactly where the sum
meets its bounds. -/
theorem addToTemporal_exact_iff (v : Temporal) (dur : CypherDuration) :
    ExactOrError (addToTemporal v dur) (IsMoved v dur) ↔ SumMeets v dur := by
  cases v with
  | date d => exact exactOrError_map.trans (addToDate_exact_iff d dur)
  | localTime t => exact exactOrError_map.trans (addToTime_exact_iff t dur)
  | time t offset =>
    have hsame : (fun u => IsMoved (.time t offset) dur (.time u offset))=fun u => u=movedTime t dur := by
      funext u
      exact propext (and_iff_left rfl)
    refine exactOrError_map.trans ?_
    rw [hsame]
    exact addToTime_exact_iff t dur
  | localDateTime x => exact exactOrError_map.trans (addToDateTime_exact_iff x dur)
  | dateTime x offset zone =>
    have hsame : (fun y => IsMoved (.dateTime x offset zone) dur (.dateTime y offset zone))=
        fun y => moment y=movedMoment x.date.date x.time dur := by
      funext y
      exact propext (and_iff_left ⟨rfl,rfl⟩)
    refine exactOrError_map.trans ?_
    rw [hsame]
    exact addToDateTime_exact_iff x dur

/-- Sums of components, carried and brought to one sign. -/
def combine (months days seconds nanos : Int) : Temporally CypherDuration := do
  let nanos ← checkedI64 nanos
  let seconds ← checkedI64 seconds
  let carried ← carryNanos seconds nanos
  let aligned := alignSigns carried.1 carried.2
  let months ← checkedI64 months
  let days ← checkedI64 days
  return ⟨months,days,aligned.1,aligned.2⟩

/-- Components that the words hold, also after the carry. -/
structure WordsFit (m d s n : Int) : Prop where
  /-- Months. -/
  months : FitsI64 m
  /-- Days. -/
  days : FitsI64 d
  /-- Seconds. -/
  seconds : FitsI64 s
  /-- Nanoseconds. -/
  nanos : FitsI64 n
  /-- Seconds with what is carried from the nanoseconds. -/
  carried : FitsI64 (s+n.tdiv 1000000000)

theorem carryNanos_cases {seconds nanos : Int} (hseconds : FitsI64 seconds) :
    (FitsI64 (seconds+nanos.tdiv 1000000000) → ∃ carried,carryNanos seconds nanos=.ok carried ∧
      carried.1*1000000000+carried.2=seconds*1000000000+nanos) ∧
    (¬FitsI64 (seconds+nanos.tdiv 1000000000) → carryNanos seconds nanos=.error .panic) := by
  have hsplit := towardZero nanos 1000000000
  by_cases hover : 1000000000≤nanos ∨ nanos≤ -1000000000
  · constructor
    · intro hfits
      rw [carryNanos,if_pos hover,checkedI64_ok hfits]
      refine ⟨_,rfl,?_⟩
      simp only
      omega
    · intro hfits
      rw [carryNanos,if_pos hover,checkedI64_panic hfits]
      rfl
  · have hzero : nanos.tdiv 1000000000=0 := by omega
    rw [hzero,Int.add_zero]
    constructor
    · intro _
      rw [carryNanos,if_neg hover]
      exact ⟨_,rfl,rfl⟩
    · intro hfits
      exact absurd hseconds hfits

theorem alignSigns_clock (seconds nanos : Int) :
    (alignSigns seconds nanos).1*1000000000+(alignSigns seconds nanos).2=seconds*1000000000+nanos := by
  unfold alignSigns
  split_ifs
  · simp only
    omega
  · simp only
    omega
  · rfl

theorem combine_exact_iff (months days seconds nanos : Int) :
    ExactOrError (combine months days seconds nanos)
      (fun c => c.months=months ∧ c.days=days ∧ c.clock=seconds*1000000000+nanos) ↔
    WordsFit months days seconds nanos := by
  by_cases hall : WordsFit months days seconds nanos
  · have ⟨carried,hcarried,hclock⟩ := (carryNanos_cases hall.seconds).1 hall.carried
    have hvalue : combine months days seconds nanos=
        .ok ⟨months,days,(alignSigns carried.1 carried.2).1,(alignSigns carried.1 carried.2).2⟩ := by
      unfold combine
      rw [checkedI64_ok hall.nanos,checkedI64_ok hall.months,checkedI64_ok hall.days]
      simp only [bind,Except.bind,checkedI64_ok hall.seconds,hcarried]
      rfl
    rw [hvalue]
    refine iff_of_true (exactOrError_ok.mpr ⟨rfl,rfl,?_⟩) hall
    exact (alignSigns_clock carried.1 carried.2).trans hclock
  · refine iff_of_false ?_ hall
    have hpanic : combine months days seconds nanos=.error .panic := by
      unfold combine
      by_cases hnanos : FitsI64 nanos
      · by_cases hseconds : FitsI64 seconds
        · by_cases hcarry : FitsI64 (seconds+nanos.tdiv 1000000000)
          · have ⟨carried,hcarried,_⟩ := (carryNanos_cases hseconds).1 hcarry
            by_cases hmonths : FitsI64 months
            · have hdays : ¬FitsI64 days := fun hdays => hall ⟨hmonths,hdays,hseconds,hnanos,hcarry⟩
              rw [checkedI64_ok hnanos,checkedI64_ok hmonths,checkedI64_panic hdays]
              simp only [bind,Except.bind,checkedI64_ok hseconds,hcarried]
            · rw [checkedI64_ok hnanos,checkedI64_panic hmonths]
              simp only [bind,Except.bind,checkedI64_ok hseconds,hcarried]
          · rw [checkedI64_ok hnanos]
            simp only [bind,Except.bind,checkedI64_ok hseconds,(carryNanos_cases hseconds).2 hcarry]
        · rw [checkedI64_ok hnanos]
          simp only [bind,Except.bind,checkedI64_panic hseconds]
      · rw [checkedI64_panic hnanos]
        rfl
    rw [hpanic]
    exact not_exactOrError_panic _

/-- Components whose opposites the words hold. -/
structure OppositesFit (d : CypherDuration) : Prop where
  /-- Months. -/
  months : FitsI64 (-d.months)
  /-- Days. -/
  days : FitsI64 (-d.days)
  /-- Seconds. -/
  seconds : FitsI64 (-d.seconds)
  /-- Nanoseconds. -/
  nanos : FitsI64 (-d.nanos)

theorem negate_cases (d : CypherDuration) :
    (OppositesFit d → negate d=.ok (negated d)) ∧ (¬OppositesFit d → negate d=.error .panic) := by
  constructor
  · intro h
    unfold negate
    rw [checkedI64_ok h.months,checkedI64_ok h.days,checkedI64_ok h.seconds,checkedI64_ok h.nanos]
    rfl
  · intro h
    unfold negate
    by_cases hmonths : FitsI64 (-d.months)
    · by_cases hdays : FitsI64 (-d.days)
      · by_cases hseconds : FitsI64 (-d.seconds)
        · have hnanos : ¬FitsI64 (-d.nanos) := fun hnanos => h ⟨hmonths,hdays,hseconds,hnanos⟩
          rw [checkedI64_ok hmonths,checkedI64_ok hdays,checkedI64_ok hseconds,checkedI64_panic hnanos]
          rfl
        · rw [checkedI64_ok hmonths,checkedI64_ok hdays,checkedI64_panic hseconds]
          rfl
      · rw [checkedI64_ok hmonths,checkedI64_panic hdays]
        rfl
    · rw [checkedI64_panic hmonths]
      rfl

/-- Products that the words hold. -/
structure ProductsFit (d : CypherDuration) (n : Int) : Prop where
  /-- Months. -/
  months : FitsI64 (d.months*n)
  /-- Days. -/
  days : FitsI64 (d.days*n)
  /-- Seconds. -/
  seconds : FitsI64 (d.seconds*n)
  /-- Nanoseconds. -/
  nanos : FitsI64 (d.nanos*n)

theorem integerMultiple_exact_iff (d : CypherDuration) (n : Int) :
    ExactOrError (integerMultiple d n) (fun p => p=⟨d.months*n,d.days*n,d.seconds*n,d.nanos*n⟩) ↔
    ProductsFit d n := by
  by_cases hmonths : FitsI64 (d.months*n)
  · by_cases hdays : FitsI64 (d.days*n)
    · by_cases hseconds : FitsI64 (d.seconds*n)
      · by_cases hnanos : FitsI64 (d.nanos*n)
        · have hvalue : integerMultiple d n=.ok ⟨d.months*n,d.days*n,d.seconds*n,d.nanos*n⟩ := by
            unfold integerMultiple
            rw [checkedI64_ok hmonths,checkedI64_ok hdays,checkedI64_ok hseconds,checkedI64_ok hnanos]
            rfl
          rw [hvalue]
          exact iff_of_true (exactOrError_ok.mpr rfl) ⟨hmonths,hdays,hseconds,hnanos⟩
        · have hvalue : integerMultiple d n=.error .panic := by
            unfold integerMultiple
            rw [checkedI64_ok hmonths,checkedI64_ok hdays,checkedI64_ok hseconds,checkedI64_panic hnanos]
            rfl
          rw [hvalue]
          exact iff_of_false (not_exactOrError_panic _) fun h => hnanos h.nanos
      · have hvalue : integerMultiple d n=.error .panic := by
          unfold integerMultiple
          rw [checkedI64_ok hmonths,checkedI64_ok hdays,checkedI64_panic hseconds]
          rfl
        rw [hvalue]
        exact iff_of_false (not_exactOrError_panic _) fun h => hseconds h.seconds
    · have hvalue : integerMultiple d n=.error .panic := by
        unfold integerMultiple
        rw [checkedI64_ok hmonths,checkedI64_panic hdays]
        rfl
      rw [hvalue]
      exact iff_of_false (not_exactOrError_panic _) fun h => hdays h.days
  · have hvalue : integerMultiple d n=.error .panic := by
      unfold integerMultiple
      rw [checkedI64_panic hmonths]
      rfl
    rw [hvalue]
    exact iff_of_false (not_exactOrError_panic _) fun h => hmonths h.months

theorem total_totalNanosToDuration_iff (t : Int) :
    durationToTotalNanos (totalNanosToDuration t)=t ↔ FitsI64 (t.tdiv nanosPerMonth) := by
  constructor
  · intro h
    have hparts := totalNanosToDuration_parts t
    have hmonths := Int.mul_tdiv_add_tmod t nanosPerMonth
    have hdays := Int.mul_tdiv_add_tmod (t.tmod nanosPerMonth) nanosPerDay
    have hmonth : nanosPerMonth=2629746000000000 := rfl
    have hday : nanosPerDay=86400000000000 := rfl
    rw [total_eq,belowMonths,hparts.1,hparts.2.1,hparts.2.2] at h
    have hsame : asI64 (t.tdiv nanosPerMonth)=t.tdiv nanosPerMonth := by
      generalize t.tdiv nanosPerMonth=quotient at *
      generalize t.tmod nanosPerMonth=rest at *
      generalize rest.tdiv nanosPerDay=days at *
      generalize rest.tmod nanosPerDay=clock at *
      rw [hmonth,hday] at h
      rw [hmonth] at hmonths
      rw [hday] at hdays
      omega
    rw [←hsame]
    unfold asI64 FitsI64
    omega
  · exact total_totalNanosToDuration

/-- What an accessor says in integers without bounds. -/
def exactAccessor (d : CypherDuration) (prop : String) : Option Int :=
  match prop with
  | "years" => some (d.months.tdiv 12)
  | "quarters" => some (d.months.tdiv 3)
  | "months" => some d.months
  | "weeks" => some (d.days.tdiv 7)
  | "days" => some d.days
  | "hours" => some (d.seconds.tdiv 3600)
  | "minutes" => some (d.seconds.tdiv 60)
  | "seconds" => some d.seconds
  | "nanoseconds" => some (d.seconds*1000000000+d.nanos)
  | "milliseconds" => some (d.seconds*1000+d.nanos.tdiv 1000000)
  | "microseconds" => some (d.seconds*1000000+d.nanos.tdiv 1000)
  | "quartersOfYear" => some ((d.months.tmod 12).tdiv 3)
  | "monthsOfQuarter" => some (d.months.tmod 3)
  | "monthsOfYear" => some (d.months.tmod 12)
  | "daysOfWeek" => some (d.days.tmod 7)
  | "minutesOfHour" => some ((d.seconds.tdiv 60).tmod 60)
  | "secondsOfMinute" => some (d.seconds.tmod 60)
  | "millisecondsOfSecond" => some (d.nanos.tdiv 1000000)
  | "microsecondsOfSecond" => some (d.nanos.tdiv 1000)
  | "nanosecondsOfSecond" => some d.nanos
  | _ => none

/-- Words hold the scaled seconds of an accessor and their sum. -/
def AccessorMeets (d : CypherDuration) (prop : String) : Prop :=
  match prop with
  | "nanoseconds" => FitsI64 (d.seconds*1000000000) ∧ FitsI64 (d.seconds*1000000000+d.nanos)
  | "milliseconds" => FitsI64 (d.seconds*1000) ∧ FitsI64 (d.seconds*1000+d.nanos.tdiv 1000000)
  | "microseconds" => FitsI64 (d.seconds*1000000) ∧ FitsI64 (d.seconds*1000000+d.nanos.tdiv 1000)
  | _ => True

theorem scaled_exact_iff (scaled rest : Int) :
    ExactOrError (do
      let scaled ← checkedI64 scaled
      checkedI64 (scaled+rest)) (fun n => some (scaled+rest)=some n) ↔
    FitsI64 scaled ∧ FitsI64 (scaled+rest) := by
  by_cases hscaled : FitsI64 scaled
  · rw [checkedI64_ok hscaled]
    simp only [bind,Except.bind]
    by_cases hsum : FitsI64 (scaled+rest)
    · rw [checkedI64_ok hsum]
      exact iff_of_true (exactOrError_ok.mpr rfl) ⟨hscaled,hsum⟩
    · rw [checkedI64_panic hsum]
      exact iff_of_false (not_exactOrError_panic _) fun h => hsum h.2
  · rw [checkedI64_panic hscaled]
    exact iff_of_false (not_exactOrError_panic _) fun h => hscaled h.1

theorem durationAccessor_exact_iff (d : CypherDuration) (prop : String) :
    (∀ outcome,durationAccessor d prop=some outcome →
      ExactOrError outcome fun n => exactAccessor d prop=some n) ↔ AccessorMeets d prop := by
  have hone : ∀ {outcome : Temporally Int} {isExact : Int → Prop} {meets : Prop},
      (ExactOrError outcome isExact ↔ meets) →
      ((∀ o,some outcome=some o → ExactOrError o isExact) ↔ meets) := by
    intro outcome isExact meets h
    refine Iff.trans ?_ h
    constructor
    · intro hall
      exact hall outcome rfl
    · intro hexact o ho
      rw [←Option.some.inj ho]
      exact hexact
  have hplain : ∀ {n : Int},(∀ o,some (.ok n : Temporally Int)=some o →
      ExactOrError o fun m => some n=some m) ↔ True :=
    hone (exactOrError_ok.trans (iff_true_intro rfl))
  by_cases hnanos : prop="nanoseconds"
  · subst hnanos
    exact hone (scaled_exact_iff _ _)
  · by_cases hmillis : prop="milliseconds"
    · subst hmillis
      exact hone (scaled_exact_iff _ _)
    · by_cases hmicros : prop="microseconds"
      · subst hmicros
        exact hone (scaled_exact_iff _ _)
      · have hmeets : AccessorMeets d prop=True := by
          unfold AccessorMeets
          split
          · exact absurd rfl hnanos
          · exact absurd rfl hmillis
          · exact absurd rfl hmicros
          · rfl
        rw [hmeets]
        unfold durationAccessor
        split
        all_goals first | exact hplain | exact absurd rfl hnanos | exact absurd rfl hmillis | exact absurd rfl hmicros | skip
        refine iff_true_intro ?_
        intro outcome houtcome
        cases houtcome

/-- The exact sum of two operands. -/
def IsSum (left right result : Value) : Prop :=
  match left,right,result with
  | .duration a,.duration b,.duration c =>
    c.months=a.months+b.months ∧ c.days=a.days+b.days ∧ c.clock=a.clock+b.clock
  | .temporal v,.duration dur,.temporal w => IsMoved v dur w
  | .duration dur,.temporal v,.temporal w => IsMoved v dur w
  | _,_,_ => False

/-- The exact difference of two operands. -/
def IsDifference (left right result : Value) : Prop :=
  match left,right,result with
  | .duration a,.duration b,.duration c =>
    c.months=a.months-b.months ∧ c.days=a.days-b.days ∧ c.clock=a.clock-b.clock
  | .temporal v,.duration dur,.temporal w => IsMoved v (negated dur) w
  | _,_,_ => False

/-- One evaluation of temporal arithmetic. -/
inductive ArithmeticCall where
  | add (left right : Value)
  | sub (left right : Value)
  | mul (d : CypherDuration) (n : Int)
  | div (d : CypherDuration) (n : Int)
  | accessor (d : CypherDuration) (prop : String)

/-- The call gives the exact result or an error; where it gives way to other
arithmetic, or divides by zero, it gives none. -/
def ArithmeticCall.Exact : ArithmeticCall → Prop
  | .add left right => ∀ outcome,evalAdd left right=some outcome → ExactOrError outcome (IsSum left right)
  | .sub left right => ∀ outcome,evalSub left right=some outcome → ExactOrError outcome (IsDifference left right)
  | .mul d n => (∀ outcome,evalDurationMul (.duration d) (.i64 n)=some outcome →
      ExactOrError outcome fun p => p=⟨d.months*n,d.days*n,d.seconds*n,d.nanos*n⟩) ∧
    ∀ outcome,evalDurationMul (.i64 n) (.duration d)=some outcome →
      ExactOrError outcome fun p => p=⟨d.months*n,d.days*n,d.seconds*n,d.nanos*n⟩
  | .div d n => ∀ q,evalDurationDiv (.duration d) (.i64 n)=some (some q) →
      durationToTotalNanos q=(durationToTotalNanos d).tdiv n
  | .accessor d prop => ∀ outcome,durationAccessor d prop=some outcome →
      ExactOrError outcome fun n => exactAccessor d prop=some n

/-- Bounds under which a call is exact or refused. -/
def ArithmeticCall.Meets : ArithmeticCall → Prop
  | .add (.duration a) (.duration b) =>
    WordsFit (a.months+b.months) (a.days+b.days) (a.seconds+b.seconds) (a.nanos+b.nanos)
  | .add (.temporal v) (.duration dur) => SumMeets v dur
  | .add (.duration dur) (.temporal v) => SumMeets v dur
  | .add _ _ => True
  | .sub (.duration a) (.duration b) =>
    WordsFit (a.months-b.months) (a.days-b.days) (a.seconds-b.seconds) (a.nanos-b.nanos)
  | .sub (.temporal v) (.duration dur) => OppositesFit dur ∧ SumMeets v (negated dur)
  | .sub .other (.duration dur) => OppositesFit dur
  | .sub _ _ => True
  | .mul d n => ProductsFit d n
  | .div d n => n≠0 → FitsI64 (((durationToTotalNanos d).tdiv n).tdiv nanosPerMonth)
  | .accessor d prop => AccessorMeets d prop

theorem forall_outcome {α : Type} {outcome : Temporally α} {isExact : α → Prop} :
    (∀ o,some outcome=some o → ExactOrError o isExact) ↔ ExactOrError outcome isExact := by
  constructor
  · intro h
    exact h outcome rfl
  · intro h o ho
    rw [←Option.some.inj ho]
    exact h

theorem forall_none {α : Type} {isExact : Temporally α → Prop} :
    (∀ o,(none : Option (Temporally α))=some o → isExact o) ↔ True := by
  refine iff_true_intro ?_
  intro o ho
  cases ho

theorem add_exact_iff (left right : Value) : (ArithmeticCall.add left right).Exact ↔
    (ArithmeticCall.add left right).Meets := by
  cases left with
  | temporal v =>
    cases right with
    | temporal w => exact forall_none
    | duration dur => exact forall_outcome.trans (exactOrError_map.trans (addToTemporal_exact_iff v dur))
    | other => exact forall_none
  | duration a =>
    cases right with
    | temporal v => exact forall_outcome.trans (exactOrError_map.trans (addToTemporal_exact_iff v a))
    | duration b =>
      have hcombine := combine_exact_iff (a.months+b.months) (a.days+b.days) (a.seconds+b.seconds)
        (a.nanos+b.nanos)
      have hclock : (a.seconds+b.seconds)*1000000000+(a.nanos+b.nanos)=a.clock+b.clock := by
        unfold CypherDuration.clock
        omega
      rw [hclock] at hcombine
      exact forall_outcome.trans (exactOrError_map.trans hcombine)
    | other => exact forall_none
  | other =>
    cases right with
    | temporal v | duration b | other => exact forall_none

theorem sub_exact_iff (left right : Value) : (ArithmeticCall.sub left right).Exact ↔
    (ArithmeticCall.sub left right).Meets := by
  cases right with
  | temporal w | other =>
    cases left with
    | temporal v | duration a | other => exact forall_none
  | duration dur =>
    have hnegate := negate_cases dur
    cases left with
    | duration a =>
      have hcombine := combine_exact_iff (a.months-dur.months) (a.days-dur.days) (a.seconds-dur.seconds)
        (a.nanos-dur.nanos)
      have hclock : (a.seconds-dur.seconds)*1000000000+(a.nanos-dur.nanos)=a.clock-dur.clock := by
        unfold CypherDuration.clock
        omega
      rw [hclock] at hcombine
      exact forall_outcome.trans (exactOrError_map.trans hcombine)
    | temporal v =>
      have hexact : (ArithmeticCall.sub (.temporal v) (.duration dur)).Exact ↔
          ∀ outcome,evalSub (.temporal v) (.duration dur)=some outcome →
            ExactOrError outcome (IsDifference (.temporal v) (.duration dur)) := Iff.rfl
      by_cases hfits : OppositesFit dur
      · have hvalue : evalSub (.temporal v) (.duration dur)=
            some ((addToTemporal v (negated dur)).map .temporal) := by
          simp only [evalSub,hnegate.1 hfits,evalAdd]
        rw [hexact,hvalue]
        refine forall_outcome.trans (exactOrError_map.trans ?_)
        exact (addToTemporal_exact_iff v (negated dur)).trans (and_iff_right hfits).symm
      · have hvalue : evalSub (.temporal v) (.duration dur)=some (.error .panic) := by
          simp only [evalSub,hnegate.2 hfits]
        rw [hexact,hvalue]
        exact forall_outcome.trans (iff_of_false (not_exactOrError_panic _) fun h => hfits h.1)
    | other =>
      have hexact : (ArithmeticCall.sub .other (.duration dur)).Exact ↔
          ∀ outcome,evalSub .other (.duration dur)=some outcome →
            ExactOrError outcome (IsDifference .other (.duration dur)) := Iff.rfl
      by_cases hfits : OppositesFit dur
      · have hvalue : evalSub .other (.duration dur)=none := by
          simp only [evalSub,hnegate.1 hfits,evalAdd]
        rw [hexact,hvalue]
        exact forall_none.trans (iff_of_true trivial hfits)
      · have hvalue : evalSub .other (.duration dur)=some (.error .panic) := by
          simp only [evalSub,hnegate.2 hfits]
        rw [hexact,hvalue]
        exact forall_outcome.trans (iff_of_false (not_exactOrError_panic _) hfits)

theorem div_exact_iff (d : CypherDuration) (n : Int) : (ArithmeticCall.div d n).Exact ↔
    (ArithmeticCall.div d n).Meets := by
  have htotal := total_totalNanosToDuration_iff ((durationToTotalNanos d).tdiv n)
  have hdiv : evalDurationDiv (.duration d) (.i64 n)=
      some (if n=0 then none else some (integerQuotient d n)) := rfl
  by_cases hzero : n=0
  · refine iff_of_true ?_ fun hn => absurd hzero hn
    intro q hq
    rw [hdiv,if_pos hzero] at hq
    cases hq
  · rw [if_neg hzero] at hdiv
    constructor
    · intro h _
      exact htotal.mp (h _ hdiv)
    · intro h q hq
      rw [hdiv] at hq
      cases hq
      exact htotal.mpr (h hzero)

/-- Temporal arithmetic is exact or refused exactly where a call meets its
bounds. -/
theorem arithmetic_exact_iff (call : ArithmeticCall) : call.Exact ↔ call.Meets := by
  cases call with
  | add left right => exact add_exact_iff left right
  | sub left right => exact sub_exact_iff left right
  | mul d n =>
    have hmul := forall_outcome.trans (integerMultiple_exact_iff d n)
    exact (and_congr hmul hmul).trans (and_self_iff)
  | div d n => exact div_exact_iff d n
  | accessor d prop => exact durationAccessor_exact_iff d prop

/-- Two thousand million months leave a date where it is. -/
theorem arithmetic_exact_fails : ¬∀ call : ArithmeticCall,call.Exact := by
  intro h
  have hmeets := (add_exact_iff _ _).mp
    (h (.add (.temporal (.date july2015.date)) (.duration ⟨2000000000,0,0,0⟩)))
  have hmany : ¬TooMany 2000000000 := by
    unfold TooMany
    omega
  cases hmeets with
  | inl htoo => exact hmany htoo
  | inr hrest =>
    have hreach : ¬july2015.date.date.month+2000000000≤ maxMonth := by decide
    exact hreach hrest.1.2

end GraphDbLite.ExactArithmetic
