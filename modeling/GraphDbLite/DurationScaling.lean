import GraphDbLite.DurationNormality

/-!
# Durations scaled and back

A product multiplies each component, and a quotient splits all the nanoseconds
into months, days and the clock anew. A duration comes back from the two when
its components already stand as such a split leaves them.
-/

namespace GraphDbLite.DurationScaling

open TemporalValues DurationText DurationBetween DurationArithmetic DurationNormality

/-- Each component is a word of 64 bits. -/
structure Stored (d : CypherDuration) : Prop where
  /-- Months. -/
  months : FitsI64 d.months
  /-- Days. -/
  days : FitsI64 d.days
  /-- Seconds. -/
  seconds : FitsI64 d.seconds
  /-- Nanoseconds. -/
  nanos : FitsI64 d.nanos

/-- A rest stays below its unit and does not lead against the number of units. -/
structure RestOf (unit count rest : Int) : Prop where
  /-- Above a unit back. -/
  above : -unit< rest
  /-- Below a unit. -/
  below : rest<unit
  /-- The rest does not lead back from a positive number. -/
  forward : 0<count → 0≤ rest
  /-- The rest does not lead forward from a negative number. -/
  back : count<0 → rest≤0

theorem restOf_tdiv (n : Int) {unit : Int} (hunit : 0<unit) : RestOf unit (n.tdiv unit) (n.tmod unit) := by
  have hzero := towardZero n unit
  have hforward := Int.emod_nonneg n hunit.ne'
  have hbelow := Int.emod_lt_of_pos n hunit
  have hback := Int.emod_nonneg (-n) hunit.ne'
  have habove := Int.emod_lt_of_pos (-n) hunit
  have hdiv : 0≤n → 0≤n/unit := fun h => Int.ediv_nonneg h hunit.le
  have hdivBack : 0≤ -n → 0≤(-n)/unit := fun h => Int.ediv_nonneg h hunit.le
  constructor
  · omega
  · omega
  · intro hcount
    omega
  · intro hcount
    omega

theorem tdiv_of_restOf {unit count rest : Int} (hunit : 0<unit) (h : RestOf unit count rest) :
    (count*unit+rest).tdiv unit=count ∧ (count*unit+rest).tmod unit=rest := by
  have hother := restOf_tdiv (count*unit+rest) hunit
  have hsum := Int.mul_tdiv_add_tmod (count*unit+rest) unit
  generalize (count*unit+rest).tdiv unit=other at hother hsum
  generalize (count*unit+rest).tmod unit=otherRest at hother hsum
  have hone := h.above
  have htwo := h.below
  have hthree := h.forward
  have hfour := h.back
  have hfive := hother.above
  have hsix := hother.below
  have hseven := hother.forward
  have height := hother.back
  have hcount : other=count := by
    by_contra hne
    have hsides : other+1≤count ∨ count+1≤other := by omega
    cases hsides with
    | inl hless =>
      have hgap : unit≤unit*count-unit*other := by nlinarith only [hunit,hless]
      have hcomm : unit*count=count*unit := Int.mul_comm unit count
      omega
    | inr hmore =>
      have hgap : unit≤unit*other-unit*count := by nlinarith only [hunit,hmore]
      have hcomm : unit*count=count*unit := Int.mul_comm unit count
      omega
  have hcomm : unit*count=count*unit := Int.mul_comm unit count
  rw [hcount] at hsum
  exact ⟨hcount,by omega⟩

/-- Nanoseconds of the days and the clock. -/
def belowMonths (d : CypherDuration) : Int := d.days*nanosPerDay+d.clock

/-- Days and clock are what the months leave, and the clock what the days
leave. -/
structure Split (d : CypherDuration) : Prop where
  /-- Days and clock stay below an average month. -/
  months : RestOf nanosPerMonth d.months (belowMonths d)
  /-- The clock stays below a day. -/
  days : RestOf nanosPerDay d.days d.clock

theorem total_eq (d : CypherDuration) : durationToTotalNanos d=d.months*nanosPerMonth+belowMonths d := by
  unfold durationToTotalNanos belowMonths CypherDuration.clock
  omega

theorem totalNanosToDuration_parts (t : Int) :
    (totalNanosToDuration t).months=asI64 (t.tdiv nanosPerMonth) ∧
    (totalNanosToDuration t).days=(t.tmod nanosPerMonth).tdiv nanosPerDay ∧
    (totalNanosToDuration t).clock=(t.tmod nanosPerMonth).tmod nanosPerDay := by
  have hday : nanosPerDay=86400000000000 := rfl
  have hmonth : nanosPerMonth=2629746000000000 := rfl
  have hmonthPos : 0<nanosPerMonth := by decide
  have hdayPos : 0<nanosPerDay := by decide
  have hrest := restOf_tdiv t hmonthPos
  have hclock := restOf_tdiv (t.tmod nanosPerMonth) hdayPos
  have hsum := Int.mul_tdiv_add_tmod (t.tmod nanosPerMonth) nanosPerDay
  have habove := hrest.above
  have hbelow := hrest.below
  have haboveDay := hclock.above
  have hbelowDay := hclock.below
  have hunfolded : totalNanosToDuration t=⟨asI64 (t.tdiv nanosPerMonth),
      asI64 ((t.tmod nanosPerMonth).tdiv nanosPerDay),
      asI64 (((t.tmod nanosPerMonth).tmod nanosPerDay).tdiv 1000000000),
      asI64 (((t.tmod nanosPerMonth).tmod nanosPerDay).tmod 1000000000)⟩ := rfl
  generalize t.tmod nanosPerMonth=rest at *
  generalize rest.tdiv nanosPerDay=days at *
  generalize rest.tmod nanosPerDay=clock at *
  rw [hday] at hsum
  have hsplit := towardZero clock 1000000000
  have hdays : asI64 days=days := asI64_eq (by omega)
  have hseconds : asI64 (clock.tdiv 1000000000)=clock.tdiv 1000000000 := asI64_eq (by omega)
  have hnanos : asI64 (clock.tmod 1000000000)=clock.tmod 1000000000 := asI64_eq (by omega)
  rw [hunfolded,hdays,hseconds,hnanos]
  have htogether := Int.mul_tdiv_add_tmod clock 1000000000
  refine ⟨rfl,rfl,?_⟩
  simp only [CypherDuration.clock]
  omega

theorem total_totalNanosToDuration {t : Int} (h : FitsI64 (t.tdiv nanosPerMonth)) :
    durationToTotalNanos (totalNanosToDuration t)=t := by
  have hparts := totalNanosToDuration_parts t
  have hmonths := Int.mul_tdiv_add_tmod t nanosPerMonth
  have hdays := Int.mul_tdiv_add_tmod (t.tmod nanosPerMonth) nanosPerDay
  have hcommMonth : nanosPerMonth*t.tdiv nanosPerMonth=t.tdiv nanosPerMonth*nanosPerMonth := Int.mul_comm _ _
  have hcommDay : nanosPerDay*(t.tmod nanosPerMonth).tdiv nanosPerDay=
      (t.tmod nanosPerMonth).tdiv nanosPerDay*nanosPerDay := Int.mul_comm _ _
  rw [total_eq,belowMonths,hparts.1,hparts.2.1,hparts.2.2,asI64_eq h]
  omega

/-- Two durations with the same months, the same days and the same clock. -/
def SameParts (a b : CypherDuration) : Prop := a.months=b.months ∧ a.days=b.days ∧ a.clock=b.clock

/-- A duration has the parts that its nanoseconds split into exactly when it
stands split. -/
theorem sameParts_iff {d : CypherDuration} (hd : Stored d) :
    SameParts (totalNanosToDuration (durationToTotalNanos d)) d ↔ Split d := by
  have hparts := totalNanosToDuration_parts (durationToTotalNanos d)
  have hmonth : 0<nanosPerMonth := by decide
  have hday : 0<nanosPerDay := by decide
  have hbelow : belowMonths d=d.days*nanosPerDay+d.clock := rfl
  constructor
  · intro hsame
    have hrest := restOf_tdiv (durationToTotalNanos d) hmonth
    have hclock := restOf_tdiv ((durationToTotalNanos d).tmod nanosPerMonth) hday
    have hsumDay := Int.mul_tdiv_add_tmod ((durationToTotalNanos d).tmod nanosPerMonth) nanosPerDay
    rw [←hparts.2.1,←hparts.2.2,hsame.2.1,hsame.2.2] at hclock hsumDay
    have hcomm : nanosPerDay*d.days=d.days*nanosPerDay := Int.mul_comm _ _
    have htmod : (durationToTotalNanos d).tmod nanosPerMonth=belowMonths d := by omega
    have hsum := Int.mul_tdiv_add_tmod (durationToTotalNanos d) nanosPerMonth
    rw [htmod] at hsum hrest
    have htotal := total_eq d
    have hquotient : nanosPerMonth*(durationToTotalNanos d).tdiv nanosPerMonth=nanosPerMonth*d.months := by
      have hcommMonth : nanosPerMonth*d.months=d.months*nanosPerMonth := Int.mul_comm _ _
      omega
    rw [Int.eq_of_mul_eq_mul_left hmonth.ne' hquotient] at hrest
    exact ⟨hrest,hclock⟩
  · intro hsplit
    have hmonths := tdiv_of_restOf hmonth hsplit.months
    have hdays := tdiv_of_restOf hday hsplit.days
    rw [←total_eq] at hmonths
    rw [←hbelow] at hdays
    rw [hmonths.1,hmonths.2,hdays.1,hdays.2,asI64_eq hd.months] at hparts
    exact hparts

theorem total_integerMultiple {d p : CypherDuration} {n : Int} (h : integerMultiple d n=.ok p) :
    durationToTotalNanos p=durationToTotalNanos d*n := by
  have ⟨months,hmonths,h⟩ := bind_ok.mp h
  have ⟨days,hdays,h⟩ := bind_ok.mp h
  have ⟨seconds,hseconds,h⟩ := bind_ok.mp h
  have ⟨nanos,hnanos,h⟩ := bind_ok.mp h
  cases h
  rw [checkedI64_value hmonths,checkedI64_value hdays,checkedI64_value hseconds,checkedI64_value hnanos]
  unfold durationToTotalNanos
  ring

/-- The quotient of a product by its number splits the nanoseconds of the
duration. -/
theorem integerQuotient_integerMultiple {d p : CypherDuration} {n : Int} (hn : n≠0)
    (h : integerMultiple d n=.ok p) :
    integerQuotient p n=totalNanosToDuration (durationToTotalNanos d) := by
  rw [integerQuotient,total_integerMultiple h,Int.mul_tdiv_cancel _ hn]

/-- Division by one gives a duration back exactly when it stands split and
normal. -/
theorem integerQuotient_one_iff {d : CypherDuration} (hd : Stored d) :
    integerQuotient d 1=d ↔ Split d ∧ Normal d := by
  have hnormal := normal_totalNanosToDuration (durationToTotalNanos d)
  rw [integerQuotient,Int.tdiv_one]
  constructor
  · intro h
    have hsame : SameParts (totalNanosToDuration (durationToTotalNanos d)) d := by
      rw [h]
      exact ⟨rfl,rfl,rfl⟩
    rw [h] at hnormal
    exact ⟨(sameParts_iff hd).mp hsame,hnormal⟩
  · intro h
    exact (eq_iff_of_normal hnormal h.2).mpr ((sameParts_iff hd).mpr h.1)

/-- A product divided by its number has all the nanoseconds of the duration, as
long as its months fit, and has its months, days and clock exactly when the
duration stands split. Division by one is the identity exactly where the
duration is also normal. -/
theorem scaled_back {d p : CypherDuration} {n : Int} (hd : Stored d) (hn : n≠0)
    (hmul : evalDurationMul (.duration d) (.i64 n)=some (.ok p)) :
    (∃ q,evalDurationDiv (.duration p) (.i64 n)=some (some q) ∧
      (FitsI64 ((durationToTotalNanos d).tdiv nanosPerMonth) →
        durationToTotalNanos q=durationToTotalNanos d) ∧ (SameParts q d ↔ Split d)) ∧
    (evalDurationDiv (.duration d) (.i64 1)=some (some d) ↔ Split d ∧ Normal d) ∧
    ∀ t,FitsI64 (t.tdiv nanosPerMonth) → durationToTotalNanos (totalNanosToDuration t)=t := by
  have hmultiple : integerMultiple d n=.ok p := Option.some.inj hmul
  have hquotient := integerQuotient_integerMultiple hn hmultiple
  have hdiv : evalDurationDiv (.duration p) (.i64 n)=some (some (integerQuotient p n)) := by
    rw [evalDurationDiv,if_neg hn]
  have hone : evalDurationDiv (.duration d) (.i64 1)=some (some (integerQuotient d 1)) := rfl
  refine ⟨⟨_,hdiv,?_,?_⟩,?_,fun t => total_totalNanosToDuration⟩
  · intro hfits
    rw [hquotient,total_totalNanosToDuration hfits]
  · rw [hquotient]
    exact sameParts_iff hd
  · rw [hone,Option.some.injEq,Option.some.injEq]
    exact integerQuotient_one_iff hd

/-- A duration of two months and a day with a clock. -/
def twoMonths : CypherDuration := ⟨2,1,3,4⟩

theorem stored_twoMonths : Stored twoMonths :=
  ⟨⟨by decide,by decide⟩,⟨by decide,by decide⟩,⟨by decide,by decide⟩,⟨by decide,by decide⟩⟩

/-- Two months and a day stand for themselves after a product with three. -/
theorem scaled_back_twoMonths :
    (∃ q,evalDurationDiv (.duration ⟨6,3,9,12⟩) (.i64 3)=some (some q) ∧
      (FitsI64 ((durationToTotalNanos twoMonths).tdiv nanosPerMonth) →
        durationToTotalNanos q=durationToTotalNanos twoMonths) ∧
      (SameParts q twoMonths ↔ Split twoMonths)) ∧
    (evalDurationDiv (.duration twoMonths) (.i64 1)=some (some twoMonths) ↔
      Split twoMonths ∧ Normal twoMonths) ∧
    ∀ t,FitsI64 (t.tdiv nanosPerMonth) → durationToTotalNanos (totalNanosToDuration t)=t :=
  scaled_back (n:=3) stored_twoMonths (by decide) rfl

/-- Thirty-one days divided by one are a month and half a day. -/
theorem scaled_back_fails :
    ¬∀ (d p q : CypherDuration) (n : Int),Stored d → n≠0 →
      evalDurationMul (.duration d) (.i64 n)=some (.ok p) →
      evalDurationDiv (.duration p) (.i64 n)=some (some q) → SameParts q d := by
  intro h
  have hstored : Stored ⟨0,31,0,0⟩ :=
    ⟨⟨by decide,by decide⟩,⟨by decide,by decide⟩,⟨by decide,by decide⟩,⟨by decide,by decide⟩⟩
  have hsame := h ⟨0,31,0,0⟩ ⟨0,31,0,0⟩ ⟨1,0,48654,0⟩ 1 hstored (by decide) rfl rfl
  exact absurd hsame.1 (by decide)

end GraphDbLite.DurationScaling
