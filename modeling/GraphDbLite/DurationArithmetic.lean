import GraphDbLite.DurationBetween
import GraphDbLite.DurationText

/-!
# Arithmetic of durations

Sums and differences carry nanoseconds into seconds and bring the two to one
sign. Products with an integer multiply each component and carry nothing.
Products with a float, and quotients by an integer, go through the nanoseconds
of an average month; quotients by a float carry fractions from months to days
and to the clock. Durations are also built from a property map.
-/

namespace GraphDbLite.DurationArithmetic

open Binary64 GraphTypes TemporalValues DurationText

/-- Operands that durations are combined with. -/
inductive Operand where
  | duration (d : CypherDuration)
  | i64 (n : Int)
  | f64 (x : F64)
  | other

/-- Average seconds of a month. -/
def avgSecondsPerMonth : Int := 2629746

/-- Nanoseconds of an average month. -/
def nanosPerMonth : Int := avgSecondsPerMonth*1000000000

/-- Carry whole seconds out of the nanoseconds. -/
def carryNanos (seconds nanos : Int) : Temporally (Int×Int) :=
  if 1000000000≤nanos ∨ nanos≤ -1000000000 then do
    let carried ← checkedI64 (seconds+nanos.tdiv 1000000000)
    return (carried,nanos.tmod 1000000000)
  else .ok (seconds,nanos)

/-- Bring seconds and nanoseconds to one sign. -/
def alignSigns (seconds nanos : Int) : Int×Int :=
  if 0< seconds ∧ nanos<0 then (seconds-1,nanos+1000000000)
  else if seconds<0 ∧ 0<nanos then (seconds+1,nanos-1000000000)
  else (seconds,nanos)

/-- The sum of two durations. -/
def evalTemporalAdd (a b : CypherDuration) : Temporally CypherDuration := do
  let nanos ← checkedI64 (a.nanos+b.nanos)
  let seconds ← checkedI64 (a.seconds+b.seconds)
  let carried ← carryNanos seconds nanos
  let aligned := alignSigns carried.1 carried.2
  let months ← checkedI64 (a.months+b.months)
  let days ← checkedI64 (a.days+b.days)
  return ⟨months,days,aligned.1,aligned.2⟩

/-- The difference of two durations. -/
def evalTemporalSub (a b : CypherDuration) : Temporally CypherDuration := do
  let nanos ← checkedI64 (a.nanos-b.nanos)
  let seconds ← checkedI64 (a.seconds-b.seconds)
  let carried ← carryNanos seconds nanos
  let aligned := alignSigns carried.1 carried.2
  let months ← checkedI64 (a.months-b.months)
  let days ← checkedI64 (a.days-b.days)
  return ⟨months,days,aligned.1,aligned.2⟩

/-- All nanoseconds of a duration, with average months. -/
def durationToTotalNanos (d : CypherDuration) : Int :=
  d.months*nanosPerMonth+d.days*nanosPerDay+d.seconds*1000000000+d.nanos

/-- The low 64 bits of a wider integer. -/
def asI64 (n : Int) : Int := (n+9223372036854775808)%18446744073709551616-9223372036854775808

/-- Nanoseconds split into months, days, seconds and the rest, towards zero. -/
def totalNanosToDuration (total : Int) : CypherDuration :=
  let months := total.tdiv nanosPerMonth
  let remainder := total.tmod nanosPerMonth
  let days := remainder.tdiv nanosPerDay
  let remainder := remainder.tmod nanosPerDay
  let seconds := remainder.tdiv 1000000000
  let nanos := remainder.tmod 1000000000
  ⟨asI64 months,asI64 days,asI64 seconds,asI64 nanos⟩

/-- Float to a word of 128 bits. -/
def toI128 (x : F64) : Int :=
  toInt (-170141183460469231731687303715884105728) 170141183460469231731687303715884105727 x

/-- A duration times an integer, component by component. -/
def integerMultiple (d : CypherDuration) (n : Int) : Temporally CypherDuration := do
  let months ← checkedI64 (d.months*n)
  let days ← checkedI64 (d.days*n)
  let seconds ← checkedI64 (d.seconds*n)
  let nanos ← checkedI64 (d.nanos*n)
  return ⟨months,days,seconds,nanos⟩

/-- A duration times a float, through all its nanoseconds. -/
def floatMultiple (d : CypherDuration) (x : F64) : CypherDuration :=
  totalNanosToDuration (toI128 (nearest (mul (ofInt (durationToTotalNanos d)) x)))

/-- The product of a duration and a number, in either order; other operands are
left to the arithmetic of numbers. -/
def evalDurationMul : Operand → Operand → Option (Temporally CypherDuration)
  | .duration d,.i64 n => some (integerMultiple d n)
  | .i64 n,.duration d => some (integerMultiple d n)
  | .duration d,.f64 x => some (.ok (floatMultiple d x))
  | .f64 x,.duration d => some (.ok (floatMultiple d x))
  | _,_ => none

/-- A duration divided by an integer, through all its nanoseconds. -/
def integerQuotient (d : CypherDuration) (n : Int) : CypherDuration :=
  totalNanosToDuration ((durationToTotalNanos d).tdiv n)

/-- Nanoseconds of a second as a float. -/
def nanosPerSecF : F64 := ofInt 1000000000

/-- Nanoseconds of a day as a float. -/
def nanosPerDayF : F64 := mul (ofInt 86400) nanosPerSecF

/-- Nanoseconds of an average month as a float. -/
def nanosPerMonthF : F64 := mul (ofInt avgSecondsPerMonth) nanosPerSecF

/-- Days of a quotient, with what is carried from its months. -/
def quotientDays (d : CypherDuration) (x : F64) : F64 :=
  let monthsF := div (ofInt d.months) x
  add (div (ofInt d.days) x) (div (mul (sub monthsF (trunc monthsF)) nanosPerMonthF) nanosPerDayF)

/-- Clock nanoseconds of a quotient, with what is carried from its days. -/
def quotientNanos (d : CypherDuration) (x : F64) : F64 :=
  let daysF := quotientDays d x
  add (div (add (mul (ofInt d.seconds) nanosPerSecF) (ofInt d.nanos)) x)
    (mul (sub daysF (trunc daysF)) nanosPerDayF)

/-- A duration divided by a float, with fractions carried down. -/
def floatQuotient (d : CypherDuration) (x : F64) : CypherDuration :=
  ⟨toI64 (trunc (div (ofInt d.months) x)),toI64 (trunc (quotientDays d x)),
    toI64 (trunc (div (quotientNanos d x) nanosPerSecF)),
    toI64 (nearest (rem (quotientNanos d x) nanosPerSecF))⟩

/-- The quotient of a duration and a number, or null for a zero divisor; other
operands are left to the arithmetic of numbers. -/
def evalDurationDiv : Operand → Operand → Option (Option CypherDuration)
  | .duration d,.i64 n => some (if n=0 then none else some (integerQuotient d n))
  | .duration d,.f64 x => some (if isZero x=true then none else some (floatQuotient d x))
  | _,_ => none

/-- A number of a property map as a float. -/
def getF64 (map : Properties) (key : String) : Option F64 :=
  match map.lookup key with
  | some (.i64 n) => some (ofInt n.toInt)
  | some (.f64 bits) => some (ofBits bits)
  | _ => none

/-- A duration from a property map, with fractions carried down. -/
def fromMap (map : Properties) : CypherDuration :=
  let field (key : String) : F64 := (getF64 map key).getD (.finite 0)
  let monthsF := add (mul (field "years") (ofInt 12)) (field "months")
  let fracMonths := sub monthsF (trunc monthsF)
  let daysF := add (add (mul (field "weeks") (ofInt 7)) (field "days"))
    (mul fracMonths (round (30436875/1000000)))
  let fracDays := sub daysF (trunc daysF)
  let hours := mul (add (field "hours") (mul fracDays (ofInt 24))) (ofInt 3600000000000)
  let minutes := mul (field "minutes") (ofInt 60000000000)
  let seconds := mul (field "seconds") (ofInt 1000000000)
  let millis := mul (field "milliseconds") (ofInt 1000000)
  let micros := mul (field "microseconds") (ofInt 1000)
  let nanosFromTime := add (add (add (add (add hours minutes) seconds) millis) micros) (field "nanoseconds")
  let totalNanos := toI64 (nearest nanosFromTime)
  let aligned := alignSigns (totalNanos.tdiv 1000000000) (totalNanos.tmod 1000000000)
  ⟨toI64 (trunc monthsF),toI64 (trunc daysF),aligned.1,aligned.2⟩

theorem towardZero (n k : Int) :
    (0≤n ∧ n.tdiv k=n/k ∧ n.tmod k=n%k) ∨ (n<0 ∧ n.tdiv k= -((-n)/k) ∧ n.tmod k= -((-n)%k)) := by
  by_cases hn : 0≤n
  · exact .inl ⟨hn,Int.tdiv_eq_ediv_of_nonneg hn,Int.tmod_eq_emod_of_nonneg hn⟩
  · have hneg : 0≤ -n := by omega
    have hdiv := Int.tdiv_eq_ediv_of_nonneg (b:=k) hneg
    have hmod := Int.tmod_eq_emod_of_nonneg (b:=k) hneg
    rw [Int.neg_tdiv] at hdiv
    rw [Int.neg_tmod] at hmod
    exact .inr ⟨by omega,by omega,by omega⟩

end GraphDbLite.DurationArithmetic
