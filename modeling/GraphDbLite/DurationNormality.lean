import GraphDbLite.DurationArithmetic
import GraphDbLite.DurationReading

/-!
# Normal durations

A duration is normal when its nanoseconds stay below a second and do not lead
against its seconds. Normal durations are equal when their months, days and
clock times are. Division towards zero and the carries of sums give normal
durations. The other producers do not carry: texts add up components, products
with integers multiply, differences of times are split with a rest that is
never negative, and quotients by floats round the rest up to a whole second.
-/

namespace GraphDbLite.DurationNormality

open Binary64 Calendar GraphTypes TemporalValues DurationText DurationBetween DurationArithmetic

/-- Nanoseconds stay below a second and do not lead against the seconds. -/
structure Normal (d : CypherDuration) : Prop where
  /-- Above a second back. -/
  above : -1000000000<d.nanos
  /-- Below a second. -/
  below : d.nanos<1000000000
  /-- Nanoseconds do not lead back from positive seconds. -/
  forward : 0<d.seconds → 0≤d.nanos
  /-- Nanoseconds do not lead forward from negative seconds. -/
  back : d.seconds<0 → d.nanos≤0

/-- Normal durations are the same where their months, days and clock times are. -/
theorem eq_iff_of_normal {a b : CypherDuration} (ha : Normal a) (hb : Normal b) :
    a=b ↔ a.months=b.months ∧ a.days=b.days ∧ a.clock=b.clock := by
  constructor
  · intro h
    rw [h]
    exact ⟨rfl,rfl,rfl⟩
  · intro h
    have hclock := h.2.2
    unfold CypherDuration.clock at hclock
    have ha1 := ha.above
    have ha2 := ha.below
    have ha3 := ha.forward
    have ha4 := ha.back
    have hb1 := hb.above
    have hb2 := hb.below
    have hb3 := hb.forward
    have hb4 := hb.back
    have hseconds : a.seconds=b.seconds := by omega
    have hnanos : a.nanos=b.nanos := by omega
    cases a
    cases b
    simp only at h hseconds hnanos
    rw [h.1,h.2.1,hseconds,hnanos]

theorem normal_split (months days n : Int) :
    Normal ⟨months,days,n.tdiv 1000000000,n.tmod 1000000000⟩ := by
  have hzero := towardZero n 1000000000
  constructor
  · simp only
    omega
  · simp only
    omega
  · intro hpos
    simp only at hpos ⊢
    omega
  · intro hneg
    simp only at hneg ⊢
    omega

theorem normal_aligned (months days : Int) {seconds nanos : Int} (habove : -1000000000<nanos)
    (hbelow : nanos<1000000000) :
    Normal ⟨months,days,(alignSigns seconds nanos).1,(alignSigns seconds nanos).2⟩ := by
  unfold alignSigns
  split_ifs with hforward hback
  · exact ⟨by simp only; omega,by simp only; omega,fun _ => by simp only; omega,
      fun hneg => by simp only at hneg ⊢; omega⟩
  · exact ⟨by simp only; omega,by simp only; omega,fun hpos => by simp only at hpos ⊢; omega,
      fun _ => by simp only; omega⟩
  · exact ⟨habove,hbelow,fun hpos => by simp only at hpos ⊢; omega,
      fun hneg => by simp only at hneg ⊢; omega⟩

theorem carryNanos_bounds {seconds nanos : Int} {carried : Int×Int}
    (h : carryNanos seconds nanos=.ok carried) : -1000000000<carried.2 ∧ carried.2<1000000000 := by
  unfold carryNanos at h
  split_ifs at h with hover
  · have hzero := towardZero nanos 1000000000
    have ⟨n,_,h⟩ := bind_ok.mp h
    cases h
    simp only
    omega
  · cases h
    simp only
    omega

theorem checkedI64_value {n m : Int} (h : checkedI64 n=.ok m) : m=n := by
  unfold checkedI64 at h
  split at h
  · cases h
    rfl
  · cases h

theorem normal_evalTemporalAdd {a b d : CypherDuration} (h : evalTemporalAdd a b=.ok d) : Normal d := by
  have ⟨nanos,_,h⟩ := bind_ok.mp h
  have ⟨seconds,_,h⟩ := bind_ok.mp h
  have ⟨carried,hcarried,h⟩ := bind_ok.mp h
  have ⟨months,_,h⟩ := bind_ok.mp h
  have ⟨days,_,h⟩ := bind_ok.mp h
  cases h
  have hbounds := carryNanos_bounds hcarried
  exact normal_aligned months days hbounds.1 hbounds.2

theorem normal_evalTemporalSub {a b d : CypherDuration} (h : evalTemporalSub a b=.ok d) : Normal d := by
  have ⟨nanos,_,h⟩ := bind_ok.mp h
  have ⟨seconds,_,h⟩ := bind_ok.mp h
  have ⟨carried,hcarried,h⟩ := bind_ok.mp h
  have ⟨months,_,h⟩ := bind_ok.mp h
  have ⟨days,_,h⟩ := bind_ok.mp h
  cases h
  have hbounds := carryNanos_bounds hcarried
  exact normal_aligned months days hbounds.1 hbounds.2

theorem asI64_eq {n : Int} (h : -9223372036854775808≤n ∧ n≤9223372036854775807) : asI64 n=n := by
  unfold asI64
  omega

theorem normal_totalNanosToDuration (total : Int) : Normal (totalNanosToDuration total) := by
  have hrest := towardZero (total.tmod nanosPerMonth) nanosPerDay
  generalize hremainder : (total.tmod nanosPerMonth).tmod nanosPerDay=remainder at hrest
  have hsplit := towardZero remainder 1000000000
  have hday : nanosPerDay=86400000000000 := rfl
  rw [hday] at hrest
  have hseconds : asI64 (remainder.tdiv 1000000000)=remainder.tdiv 1000000000 := asI64_eq (by omega)
  have hnanos : asI64 (remainder.tmod 1000000000)=remainder.tmod 1000000000 := asI64_eq (by omega)
  unfold totalNanosToDuration
  simp only [hremainder,hseconds,hnanos]
  exact normal_split _ _ remainder

/-- A normal duration times an integer is normal exactly when its nanoseconds
stay below a second. -/
theorem normal_integerMultiple {d r : CypherDuration} {n : Int} (hd : Normal d)
    (h : integerMultiple d n=.ok r) : Normal r ↔ -1000000000<d.nanos*n ∧ d.nanos*n<1000000000 := by
  have ⟨months,_,h⟩ := bind_ok.mp h
  have ⟨days,_,h⟩ := bind_ok.mp h
  have ⟨seconds,hseconds,h⟩ := bind_ok.mp h
  have ⟨nanos,hnanos,h⟩ := bind_ok.mp h
  cases h
  have hs := checkedI64_value hseconds
  have hn := checkedI64_value hnanos
  constructor
  · intro hr
    rw [←hn]
    exact ⟨hr.above,hr.below⟩
  · intro hr
    rw [←hn] at hr
    refine ⟨hr.1,hr.2,?_,?_⟩
    · intro hpos
      simp only [hs,hn] at hpos ⊢
      cases pos_and_pos_or_neg_and_neg_of_mul_pos hpos with
      | inl hboth => exact Int.mul_nonneg (hd.forward hboth.1) hboth.2.le
      | inr hboth => exact Int.mul_nonneg_of_nonpos_of_nonpos (hd.back hboth.1) hboth.2.le
    · intro hneg
      simp only [hs,hn] at hneg ⊢
      cases mul_neg_iff.mp hneg with
      | inl hboth => exact Int.mul_nonpos_of_nonneg_of_nonpos (hd.forward hboth.1) hboth.2.le
      | inr hboth => exact Int.mul_nonpos_of_nonpos_of_nonneg (hd.back hboth.1) hboth.2.le

theorem nanosPerSecF_eq : nanosPerSecF=.finite 1000000000 := by
  have h := ofInt_eq (n:=1000000000) (by decide)
  rw [nanosPerSecF,h]
  norm_num

/-- The clock of a quotient is not rounded up to a whole second. -/
def StaysBelowSecond (d : CypherDuration) (x : F64) : Prop :=
  ∀ r,rem (quotientNanos d x) nanosPerSecF=.finite r → |r|<999999999+1/2

theorem normal_clock_forward (months days : Int) {p : ℚ} (hp : 0≤p) :
    Normal ⟨months,days,toI64 (trunc (div (.finite p) nanosPerSecF)),
        toI64 (nearest (rem (.finite p) nanosPerSecF))⟩ ↔
      ∀ r,rem (.finite p) nanosPerSecF=.finite r → |r|<999999999+1/2 := by
  have hne : ¬(1000000000 : ℚ)=0 := by norm_num
  have hbounds := (rem_bounds p (m:=1000000000) (by norm_num)).1 hp
  have hseconds : 0≤toI64 (trunc (div (.finite p) nanosPerSecF)) := by
    rw [nanosPerSecF_eq,div,if_neg hne]
    exact (toInt_trunc_round_sign (by decide) (by decide) _).1 (div_nonneg hp (by norm_num))
  rw [nanosPerSecF_eq,rem,if_neg hne] at *
  generalize p-1000000000*cutOff (p/1000000000)=r at hbounds
  have hnearest := nearest_forward hbounds.1 1000000000
  have hnext := (nearest_forward hbounds.1 1000000001).2.2
  have hrange : ⌊r+1/2⌋<1000000001 := hnext.mpr (by push_cast; linarith)
  have hnanos : toI64 (nearest (.finite r))=⌊r+1/2⌋ := by
    rw [hnearest.1]
    exact toInt_intCast (by omega)
  have hhalf : ⌊r+1/2⌋<1000000000 ↔ |r|<999999999+1/2 := by
    rw [hnearest.2.2,abs_of_nonneg hbounds.1]
    constructor
    · intro h
      push_cast at h
      linarith
    · intro h
      push_cast
      linarith
  rw [hnanos]
  constructor
  · intro h s hs
    cases hs
    exact hhalf.mp h.below
  · intro h
    have hbelow := hhalf.mpr (h r rfl)
    exact ⟨by simp only; omega,hbelow,fun _ => hnearest.2.1,fun hneg => by simp only at hneg; omega⟩

theorem normal_noNanos (months days seconds : Int) : Normal ⟨months,days,seconds,0⟩ := by
  have habove : (-1000000000 : Int)<0 := by decide
  have hbelow : (0 : Int)<1000000000 := by decide
  exact ⟨habove,hbelow,fun _ => le_refl 0,fun _ => le_refl 0⟩

theorem normal_clock_back (months days : Int) {p : ℚ} (hp : p<0) :
    Normal ⟨months,days,toI64 (trunc (div (.finite p) nanosPerSecF)),
        toI64 (nearest (rem (.finite p) nanosPerSecF))⟩ ↔
      ∀ r,rem (.finite p) nanosPerSecF=.finite r → |r|<999999999+1/2 := by
  have hne : ¬(1000000000 : ℚ)=0 := by norm_num
  have hbounds := (rem_bounds p (m:=1000000000) (by norm_num)).2 hp.le
  have hseconds : toI64 (trunc (div (.finite p) nanosPerSecF))≤0 := by
    rw [nanosPerSecF_eq,div,if_neg hne]
    exact (toInt_trunc_round_sign (by decide) (by decide) _).2
      (div_nonpos_of_nonpos_of_nonneg hp.le (by norm_num))
  rw [nanosPerSecF_eq,rem,if_neg hne] at *
  generalize p-1000000000*cutOff (p/1000000000)=r at hbounds
  have hsmall : |r|=-r := abs_of_nonpos hbounds.2
  by_cases hzero : r=0
  · have hnanos : toI64 (nearest (.finite r))=0 := by
      rw [hzero]
      decide +kernel
    rw [hnanos]
    constructor
    · intro _ s hs
      cases hs
      rw [hzero]
      norm_num
    · intro _
      exact normal_noNanos months days _
  · have hneg : r<0 := lt_of_le_of_ne hbounds.2 hzero
    have hnearest := nearest_back hneg (-1000000000)
    have hnext := (nearest_back hneg (-1000000001)).2.2
    have hrange : -1000000001<⌈r-1/2⌉ := hnext.mpr (by push_cast; linarith)
    have hnanos : toI64 (nearest (.finite r))=⌈r-1/2⌉ := by
      rw [hnearest.1]
      exact toInt_intCast (by omega)
    have hhalf : -1000000000<⌈r-1/2⌉ ↔ |r|<999999999+1/2 := by
      rw [hnearest.2.2,hsmall]
      constructor
      · intro h
        push_cast at h
        linarith
      · intro h
        push_cast
        linarith
    rw [hnanos]
    constructor
    · intro h s hs
      cases hs
      exact hhalf.mp h.above
    · intro h
      have habove := hhalf.mpr (h r rfl)
      exact ⟨habove,by simp only; omega,fun hpos => by simp only at hpos; omega,fun _ => hnearest.2.1⟩

/-- A quotient by a float is normal exactly when its clock is not rounded up to a
whole second. -/
theorem normal_floatQuotient (d : CypherDuration) (x : F64) :
    Normal (floatQuotient d x) ↔ StaysBelowSecond d x := by
  unfold floatQuotient StaysBelowSecond
  generalize toI64 (trunc (div (ofInt d.months) x))=months
  generalize toI64 (trunc (quotientDays d x))=days
  cases hquotient : quotientNanos d x with
  | nan | inf negative =>
    constructor
    · intro _ r hr
      cases hr
    · intro _
      exact normal_noNanos months days _
  | finite p =>
    cases le_or_gt 0 p with
    | inl hpos => exact normal_clock_forward months days hpos
    | inr hneg => exact normal_clock_back months days hneg

/-- A split number of nanoseconds is normal exactly when it is not negative or
whole seconds. -/
theorem normal_fromNanos (months days nanos : Int) :
    Normal (fromNanos months days nanos) ↔ 0≤nanos ∨ 1000000000∣nanos := by
  unfold fromNanos
  constructor
  · intro h
    have hback := h.back
    simp only at hback
    omega
  · intro h
    exact ⟨by simp only; omega,by simp only; omega,fun hpos => by simp only at hpos ⊢; omega,
      fun hneg => by simp only at hneg ⊢; omega⟩

/-- Amounts of the numbers with units of a part, in order. -/
def unitAmounts (contribution : List Char → Char → Reading CypherDuration) (num : List Char) :
    List Char → List CypherDuration
  | [] => []
  | c::rest =>
    if (num=[] ∧ c = '-') ∨ isNumberChar c=true then unitAmounts contribution (num++[c]) rest
    else (contribution num c).toOption.toList++unitAmounts contribution [] rest

/-- Amount of the hours and minutes of the colon form. -/
def clockAmounts (hour minute : List Char) : List CypherDuration :=
  match parseI64 hour,parseI64 minute with
  | .ok h,.ok m => [⟨0,0,h*3600+m*60,0⟩]
  | _,_ => []

/-- Amounts of the fields of the colon form, the seconds when there are exactly
three fields. -/
def colonAmounts : List (List Char) → List CypherDuration
  | [hour,minute,second] => clockAmounts hour minute++(secondField second).toOption.toList
  | hour::minute::_ => clockAmounts hour minute
  | _ => []

/-- Amounts of the components of the date part. -/
def dateAmounts (part : List Char) : List CypherDuration :=
  if isDateFormat part=true then (dateFields (part.splitOn '-') part).toOption.toList
  else unitAmounts dateContribution [] part

/-- Amounts of the components of the time part. -/
def timeAmounts (chars : List Char) : List CypherDuration :=
  if ':'∈chars then colonAmounts (chars.splitOn ':') else unitAmounts timeContribution [] chars

/-- Amounts of the components of a text, each from its own number and unit or
from its own field. -/
def textAmounts : List Char → List CypherDuration
  | [] => []
  | _::body => dateAmounts (splitTime body).1++timeAmounts ((splitTime body).2.getD [])

/-- The sum of amounts. -/
def sumAmounts (amounts : List CypherDuration) : CypherDuration := amounts.foldr plus noDuration

theorem sumAmounts_append (l m : List CypherDuration) :
    sumAmounts (l++m)=plus (sumAmounts l) (sumAmounts m) := by
  induction l with
  | nil => exact (noDuration_plus _).symm
  | cons a l ih =>
    have hsum : sumAmounts (a::l++m)=plus a (sumAmounts (l++m)) := rfl
    rw [hsum,ih,←plus_assoc]
    rfl

theorem sumAmounts_ok {x : Reading CypherDuration} {a : CypherDuration} (h : x=.ok a) :
    sumAmounts x.toOption.toList=a := by
  rw [h]
  exact plus_noDuration a

theorem unitLoop_amounts {contribution : List Char → Char → Reading CypherDuration} {chars num : List Char}
    {sum d : CypherDuration} (h : unitLoop contribution sum num chars=.ok d) :
    d=plus sum (sumAmounts (unitAmounts contribution num chars)) := by
  induction chars generalizing num sum with
  | nil =>
    cases h
    exact (plus_noDuration d).symm
  | cons c chars ih =>
    rw [unitLoop] at h
    rw [unitAmounts]
    by_cases hc : (num=[] ∧ c = '-') ∨ isNumberChar c=true
    · rw [if_pos hc] at h ⊢
      exact ih h
    · rw [if_neg hc] at h ⊢
      obtain ⟨part,hpart,h⟩ := bind_ok.mp h
      obtain ⟨next,hnext,h⟩ := bind_ok.mp h
      rw [ih h,addTo_ok hnext,sumAmounts_append,sumAmounts_ok hpart,plus_assoc]

variable {d : CypherDuration} {tz : TzDatabase} {a b : Temporal}

theorem readDatePart_amounts {part : List Char} (h : readDatePart part=.ok d) : d=sumAmounts (dateAmounts part) := by
  unfold readDatePart at h
  unfold dateAmounts
  split_ifs at h with hnil hform
  · cases h
    rw [hnil]
    rfl
  · have ⟨fields,hfields,h⟩ := bind_ok.mp h
    rw [if_pos hform,sumAmounts_ok hfields,addTo_ok h,noDuration_plus]
  · rw [if_neg hform,unitLoop_amounts h,noDuration_plus]

theorem timeFields_amounts {fields : List (List Char)} {sum d : CypherDuration}
    (h : timeFields sum fields=.ok d) : d=plus sum (sumAmounts (colonAmounts fields)) := by
  cases fields with
  | nil =>
    cases h
    exact (plus_noDuration sum).symm
  | cons hour others =>
    cases others with
    | nil =>
      cases h
      exact (plus_noDuration sum).symm
    | cons minute others =>
      have ⟨hours,hh,h⟩ := bind_ok.mp h
      have ⟨minutes,hm,h⟩ := bind_ok.mp h
      have ⟨x,hx,h⟩ := bind_ok.mp h
      have ⟨y,hy,h⟩ := bind_ok.mp h
      have ⟨clock,hclock,h⟩ := bind_ok.mp h
      have ⟨next,hnext,h⟩ := bind_ok.mp h
      rw [(word_ok hx).1,(word_ok hy).1] at hclock
      rw [(word_ok hclock).1] at hnext
      have hamounts : clockAmounts hour minute=[⟨0,0,hours*3600+minutes*60,0⟩] := by
        rw [clockAmounts,hh,hm]
      have hsum : sumAmounts (clockAmounts hour minute)=⟨0,0,hours*3600+minutes*60,0⟩ := by
        rw [hamounts]
        exact plus_noDuration _
      cases others with
      | nil =>
        cases h
        rw [colonAmounts.eq_def]
        simp only
        rw [hsum]
        exact addTo_ok hnext
      | cons second others =>
        cases others with
        | nil =>
          have ⟨part,hpart,hd⟩ := addSecondField_ok h
          rw [colonAmounts,sumAmounts_append,hsum,sumAmounts_ok hpart,hd,addTo_ok hnext,plus_assoc]
        | cons surplus others =>
          cases h
          rw [colonAmounts.eq_def]
          simp only
          rw [hsum]
          exact addTo_ok hnext

theorem fromIsoString_amounts {s : List Char} (h : fromIsoString s=.ok d) : d=sumAmounts (textAmounts s) := by
  cases s with
  | nil => cases h
  | cons c body =>
    by_cases hp : c = 'P' ∨ c = 'p'
    · rw [fromIsoString,if_pos hp] at h
      obtain ⟨a,hdate,htime⟩ := bind_ok.mp h
      rw [textAmounts,sumAmounts_append,←readDatePart_amounts hdate]
      cases hpart : (splitTime body).2 with
      | none =>
        rw [hpart] at htime
        cases htime
        exact (plus_noDuration d).symm
      | some chars =>
        rw [hpart] at htime
        rw [Option.getD_some,timeAmounts]
        simp only [readTimePart] at htime
        split_ifs at htime with hnil hcolon
        · cases htime
          rw [hnil]
          exact (plus_noDuration d).symm
        · rw [if_pos hcolon]
          exact timeFields_amounts htime
        · rw [if_neg hcolon]
          exact unitLoop_amounts htime
    · rw [fromIsoString,if_neg hp] at h
      cases h

/-- Clock time between two values that is left when whole days are taken out. -/
def clockLeft (tz : TzDatabase) (lhs rhs : Temporal) : Int :=
  match extractDate lhs,extractDate rhs with
  | some d1,some d2 => (borrowDay (restDays d1.date d2.date) (clockDifference tz lhs rhs)).2
  | _,_ => clockDifference tz lhs rhs

/-- All time between two values. -/
def elapsedTime (tz : TzDatabase) (lhs rhs : Temporal) : Int :=
  match extractDate lhs,extractDate rhs with
  | some d1,some d2 => elapsedNanos tz lhs rhs d1 d2
  | _,_ => clockDifference tz lhs rhs

theorem timeOnly_of_extractDate {v : Temporal} (h : extractDate v=none) :
    hasDate v=false ∧ isTimeOnly v=true := by
  cases v with
  | date _ => exact nomatch h
  | localTime _ | time _ _ => exact ⟨rfl,rfl⟩
  | localDateTime _ | dateTime _ _ _ => exact nomatch h

theorem durationBetween_timeOnly (h : extractDate a=none ∨ extractDate b=none) :
    durationBetween tz a b=.ok (fromNanos 0 0 (clockDifference tz a b)) ∧
    durationInSeconds tz a b=.ok (fromNanos 0 0 (clockDifference tz a b)) := by
  have honly : (isTimeOnly a || isTimeOnly b)=true := by
    cases h with
    | inl ha => rw [(timeOnly_of_extractDate ha).2]; rfl
    | inr hb => rw [(timeOnly_of_extractDate hb).2,Bool.or_true]
  have hdates : ((extractDate a).isSome && (extractDate b).isSome && hasDate a && hasDate b)=false := by
    cases h with
    | inl ha => rw [ha]; rfl
    | inr hb => rw [hb,Option.isSome_none,Bool.and_false]; rfl
  have hhas : (hasDate a && hasDate b)=false := by
    cases h with
    | inl ha => rw [(timeOnly_of_extractDate ha).1]; rfl
    | inr hb => rw [(timeOnly_of_extractDate hb).1,Bool.and_false]
  have htime := checkedI64_ok (clockDifference_fits tz a b)
  unfold clockDifference at htime
  constructor
  · unfold durationBetween
    simp only [honly,hdates,Bool.not_false,Bool.and_self,if_true]
    rfl
  · unfold durationInSeconds
    rw [htime]
    simp only [bind,Except.bind,honly,hhas,Bool.not_false,Bool.and_self,if_true]
    rfl

/-- The duration between two values is normal exactly when the clock time left in
it is not negative or whole seconds. -/
theorem normal_durationBetween (h : durationBetween tz a b=.ok d) :
    Normal d ↔ 0≤clockLeft tz a b ∨ 1000000000∣clockLeft tz a b := by
  unfold clockLeft
  cases ha : extractDate a with
  | none =>
    rw [(durationBetween_timeOnly (.inl ha)).1] at h
    cases h
    exact normal_fromNanos 0 0 _
  | some d1 =>
    cases hb : extractDate b with
    | none =>
      rw [(durationBetween_timeOnly (.inr hb)).1] at h
      cases h
      exact normal_fromNanos 0 0 _
    | some d2 =>
      rw [durationBetween_dated ha hb] at h
      split_ifs at h
      cases h
      exact normal_fromNanos _ _ _

/-- The seconds between two values are normal exactly when the time is not
negative or whole seconds. -/
theorem normal_durationInSeconds (h : durationInSeconds tz a b=.ok d) :
    Normal d ↔ 0≤elapsedTime tz a b ∨ 1000000000∣elapsedTime tz a b := by
  unfold elapsedTime
  cases ha : extractDate a with
  | none =>
    rw [(durationBetween_timeOnly (.inl ha)).2] at h
    cases h
    exact normal_fromNanos 0 0 _
  | some d1 =>
    cases hb : extractDate b with
    | none =>
      rw [(durationBetween_timeOnly (.inr hb)).2] at h
      cases h
      exact normal_fromNanos 0 0 _
    | some d2 =>
      rw [durationInSeconds_dated ha hb] at h
      have ⟨_,_,h⟩ := bind_ok.mp h
      have ⟨_,_,h⟩ := bind_ok.mp h
      have ⟨total,htotal,h⟩ := bind_ok.mp h
      cases h
      rw [checkedI64_value htotal]
      exact normal_fromNanos 0 0 _

/-- An operation that produces a duration, with its operands. -/
inductive DurationCall where
  | fromIsoString (s : List Char)
  | fromMap (map : Properties)
  | durationBetween (tz : TzDatabase) (lhs rhs : Temporal)
  | durationInSeconds (tz : TzDatabase) (lhs rhs : Temporal)
  | evalTemporalAdd (a b : CypherDuration)
  | evalTemporalSub (a b : CypherDuration)
  | evalDurationMul (left right : Operand)
  | evalDurationDiv (left right : Operand)

/-- The duration that a call produces, if it does. -/
def DurationCall.result : DurationCall → Option CypherDuration
  | .fromIsoString s => (DurationText.fromIsoString s).toOption
  | .fromMap map => some (DurationArithmetic.fromMap map)
  | .durationBetween tz lhs rhs => (DurationBetween.durationBetween tz lhs rhs).toOption
  | .durationInSeconds tz lhs rhs => (DurationBetween.durationInSeconds tz lhs rhs).toOption
  | .evalTemporalAdd a b => (DurationArithmetic.evalTemporalAdd a b).toOption
  | .evalTemporalSub a b => (DurationArithmetic.evalTemporalSub a b).toOption
  | .evalDurationMul left right => (DurationArithmetic.evalDurationMul left right).bind Except.toOption
  | .evalDurationDiv left right => (DurationArithmetic.evalDurationDiv left right).join

/-- An operand that is a duration is a normal one. -/
def OperandNormal : Operand → Prop
  | .duration d => Normal d
  | _ => True

/-- The durations that a call is given are normal. -/
def DurationCall.OperandsNormal : DurationCall → Prop
  | .evalTemporalAdd a b => Normal a ∧ Normal b
  | .evalTemporalSub a b => Normal a ∧ Normal b
  | .evalDurationMul left right => OperandNormal left ∧ OperandNormal right
  | .evalDurationDiv left right => OperandNormal left ∧ OperandNormal right
  | _ => True

/-- The product with an integer leaves the nanoseconds below a second. -/
def ProductBelowSecond (d : CypherDuration) (n : Int) : Prop :=
  -1000000000<d.nanos*n ∧ d.nanos*n<1000000000

/-- Nothing is left to carry between the seconds and nanoseconds of the
components of a text: their nanoseconds stay below a second, and do not lead
against their seconds. -/
def NothingToCarry (s : List Char) : Prop :=
  let seconds := ((textAmounts s).map CypherDuration.seconds).sum
  let nanos := ((textAmounts s).map CypherDuration.nanos).sum
  nanos<1000000000 ∧ -1000000000<nanos ∧ (0< seconds → 0≤nanos) ∧ (seconds<0 → nanos≤0)

/-- The operands of a call leave nothing to carry where the code does not. -/
def DurationCall.StaysNormal : DurationCall → Prop
  | .fromIsoString s => NothingToCarry s
  | .durationBetween tz lhs rhs => 0≤clockLeft tz lhs rhs ∨ 1000000000∣clockLeft tz lhs rhs
  | .durationInSeconds tz lhs rhs => 0≤elapsedTime tz lhs rhs ∨ 1000000000∣elapsedTime tz lhs rhs
  | .evalDurationMul (.duration d) (.i64 n) => ProductBelowSecond d n
  | .evalDurationMul (.i64 n) (.duration d) => ProductBelowSecond d n
  | .evalDurationDiv (.duration d) (.f64 x) => StaysBelowSecond d x
  | _ => True

theorem sumAmounts_clock (amounts : List CypherDuration) :
    (sumAmounts amounts).seconds=(amounts.map CypherDuration.seconds).sum ∧
    (sumAmounts amounts).nanos=(amounts.map CypherDuration.nanos).sum := by
  induction amounts with
  | nil => exact ⟨rfl,rfl⟩
  | cons a amounts ih =>
    rw [List.map_cons,List.map_cons,List.sum_cons,List.sum_cons,←ih.1,←ih.2]
    exact ⟨rfl,rfl⟩

/-- A text that is read gives a normal duration exactly when its components leave
nothing to carry. -/
theorem normal_fromIsoString {s : List Char} (h : fromIsoString s=.ok d) : Normal d ↔ NothingToCarry s := by
  have hclock := sumAmounts_clock (textAmounts s)
  rw [←fromIsoString_amounts h] at hclock
  unfold NothingToCarry
  simp only [←hclock.1,←hclock.2]
  constructor
  · intro hd
    exact ⟨hd.below,hd.above,hd.forward,hd.back⟩
  · intro hd
    exact ⟨hd.2.1,hd.1,hd.2.2.1,hd.2.2.2⟩

theorem normal_alignedSplit (months days n : Int) :
    Normal ⟨months,days,(alignSigns (n.tdiv 1000000000) (n.tmod 1000000000)).1,
      (alignSigns (n.tdiv 1000000000) (n.tmod 1000000000)).2⟩ := by
  have hsplit := towardZero n 1000000000
  exact normal_aligned months days (by omega) (by omega)

theorem normal_fromMap (map : Properties) : Normal (fromMap map) := normal_alignedSplit _ _ _

theorem ok_of_toOption {ε α : Type} {x : Except ε α} {a : α} (h : x.toOption=some a) : x=.ok a := by
  cases x with
  | error e => cases h
  | ok b => exact congrArg Except.ok (Option.some.inj h)

/-- A product is normal exactly when an integer factor leaves its nanoseconds
below a second. -/
theorem normal_evalDurationMul {left right : Operand} (hleft : OperandNormal left) (hright : OperandNormal right)
    (h : (DurationCall.evalDurationMul left right).result=some d) :
    Normal d ↔ (DurationCall.evalDurationMul left right).StaysNormal := by
  cases left with
  | duration a =>
    cases right with
    | i64 n => exact normal_integerMultiple hleft (ok_of_toOption h)
    | f64 x =>
      cases h
      exact iff_of_true (normal_totalNanosToDuration _) trivial
    | duration b | other => cases h
  | i64 n =>
    cases right with
    | duration b => exact normal_integerMultiple hright (ok_of_toOption h)
    | i64 m | f64 x | other => cases h
  | f64 x =>
    cases right with
    | duration b =>
      cases h
      exact iff_of_true (normal_totalNanosToDuration _) trivial
    | i64 m | f64 y | other => cases h
  | other =>
    cases right with
    | duration b | i64 m | f64 y | other => cases h

/-- A quotient is normal exactly when a float divisor does not round its clock up
to a whole second. -/
theorem normal_evalDurationDiv {left right : Operand}
    (h : (DurationCall.evalDurationDiv left right).result=some d) :
    Normal d ↔ (DurationCall.evalDurationDiv left right).StaysNormal := by
  cases left with
  | duration a =>
    cases right with
    | i64 n =>
      have hquotient : integerQuotient a n=d := by
        by_cases hn : n=0
        · simp [DurationCall.result,evalDurationDiv,hn] at h
        · simpa [DurationCall.result,evalDurationDiv,hn] using h
      rw [←hquotient]
      exact iff_of_true (normal_totalNanosToDuration _) trivial
    | f64 x =>
      have hquotient : floatQuotient a x=d := by
        by_cases hx : isZero x=true
        · simp [DurationCall.result,evalDurationDiv,hx] at h
        · simpa [DurationCall.result,evalDurationDiv,hx] using h
      rw [←hquotient]
      exact normal_floatQuotient a x
    | duration b | other => cases h
  | i64 n | f64 x | other => cases h

/-- A call on normal durations produces a normal one exactly when its operands
leave nothing to carry where the code does not; and normal durations are equal
exactly when their months, days and clock times are. -/
theorem normal_iff {call : DurationCall} {d : CypherDuration} (hoperands : call.OperandsNormal)
    (h : call.result=some d) : (Normal d ↔ call.StaysNormal) ∧
      (Normal d → ∀ e,Normal e → (d=e ↔ d.months=e.months ∧ d.days=e.days ∧ d.clock=e.clock)) := by
  refine ⟨?_,fun hd e he => eq_iff_of_normal hd he⟩
  cases call with
  | fromIsoString s => exact normal_fromIsoString (ok_of_toOption h)
  | fromMap map =>
    cases h
    exact iff_of_true (normal_fromMap map) trivial
  | durationBetween tz lhs rhs => exact normal_durationBetween (ok_of_toOption h)
  | durationInSeconds tz lhs rhs => exact normal_durationInSeconds (ok_of_toOption h)
  | evalTemporalAdd a b => exact iff_of_true (normal_evalTemporalAdd (ok_of_toOption h)) trivial
  | evalTemporalSub a b => exact iff_of_true (normal_evalTemporalSub (ok_of_toOption h)) trivial
  | evalDurationMul left right => exact normal_evalDurationMul hoperands.1 hoperands.2 h
  | evalDurationDiv left right => exact normal_evalDurationDiv h

/-- Half a second, doubled. -/
def doubledHalf : DurationCall := .evalDurationMul (.duration ⟨0,0,0,500000000⟩) (.i64 2)

/-- A half to one second, after one second. -/
def halfBack : DurationCall :=
  .durationBetween noZones (.localTime ⟨1,0,second_one,midnight.second⟩) (.localTime ⟨0,500000000,midnight.day,by decide⟩)

/-- Twice six tenths of a second. -/
def twoFractions : DurationCall := .fromIsoString ['P','T','0','.','6','S','0','.','6','S']

/-- A nanosecond less than a second, divided by a little less than one. -/
def roundedUp : DurationCall :=
  .evalDurationDiv (.duration ⟨0,0,0,999999999⟩) (.f64 (round (9999999994/10000000000)))

theorem normal_half : Normal ⟨0,0,0,500000000⟩ :=
  ⟨by decide,by decide,fun h => absurd h (by decide),fun h => absurd h (by decide)⟩

/-- For half a second and a factor of two the condition decides. -/
theorem normal_iff_doubledHalf :
    (Normal ⟨0,0,0,1000000000⟩ ↔ doubledHalf.StaysNormal) ∧
    (Normal ⟨0,0,0,1000000000⟩ → ∀ e,Normal e → ((⟨0,0,0,1000000000⟩ : CypherDuration)=e ↔
      0=e.months ∧ 0=e.days ∧ (⟨0,0,0,1000000000⟩ : CypherDuration).clock=e.clock)) :=
  @normal_iff doubledHalf _ ⟨normal_half,trivial⟩ rfl

/-- Half a second doubled has a second of nanoseconds and does not equal one
second, half a second back is kept as a second back and a half forward, two fractions
in a text add up to more than a second, and a quotient is rounded up to one. -/
theorem normal_fails :
    (doubledHalf.OperandsNormal ∧ doubledHalf.result=some ⟨0,0,0,1000000000⟩ ∧
      ¬Normal ⟨0,0,0,1000000000⟩ ∧ (⟨0,0,0,1000000000⟩ : CypherDuration)≠⟨0,0,1,0⟩ ∧
      (⟨0,0,0,1000000000⟩ : CypherDuration).clock=(⟨0,0,1,0⟩ : CypherDuration).clock) ∧
    (halfBack.result=some ⟨0,0,-1,500000000⟩ ∧ ¬Normal ⟨0,0,-1,500000000⟩) ∧
    (twoFractions.result=some ⟨0,0,0,1200000000⟩ ∧ ¬Normal ⟨0,0,0,1200000000⟩) ∧
    roundedUp.result=some ⟨0,0,0,1000000000⟩ := by
  have hdoubled : ¬Normal ⟨0,0,0,1000000000⟩ := fun h => absurd h.below (by decide)
  have hback : ¬Normal ⟨0,0,-1,500000000⟩ := fun h => absurd (h.back (by decide)) (by decide)
  have htwo : ¬Normal ⟨0,0,0,1200000000⟩ := fun h => absurd h.below (by decide)
  exact ⟨⟨⟨normal_half,trivial⟩,rfl,hdoubled,by decide,by decide⟩,⟨by decide,hback⟩,
    ⟨by decide +kernel,htwo⟩,by decide +kernel⟩

end GraphDbLite.DurationNormality
