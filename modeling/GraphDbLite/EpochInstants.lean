import GraphDbLite.TemporalAddition

/-!
# Date-times from the epoch

Seconds and nanoseconds since the epoch are put together in one word before they
are split again, and a timestamp outside the date type is replaced by the epoch.
The instant comes out right where the word holds it, and for milliseconds where
the date type has it.
-/

namespace GraphDbLite.EpochInstants

open TemporalValues DurationBetween TemporalAddition

/-- The time at a second of the day with nanoseconds; leap seconds end a minute. -/
def fromNumSecondsFromMidnight (secs nano : Int) : Option NaiveTime :=
  if h : (0≤ secs ∧ secs<86400) ∧ (0≤nano ∧ nano<2000000000) ∧ (1000000000≤nano → secs%60=59) then
    some ⟨secs,nano,h.1,h.2.1⟩
  else none

/-- The date-time at a second since the epoch, when the date type has it. -/
def fromTimestamp (secs nsecs : Int) : Option NaiveDateTime :=
  (epochDate.checkedAddDays (secs/86400)).bind fun date =>
    (fromNumSecondsFromMidnight (secs%86400) nsecs).map fun time => ⟨date,time⟩

/-- The offset of UTC. -/
def utc : FixedOffset := ⟨0,by decide,by decide⟩

/-- Midnight of the first of January 1970. -/
def epoch : NaiveDateTime := ⟨epochDate,midnight⟩

/-- The date-time at seconds and nanoseconds since the epoch. -/
def fromEpoch (seconds nanos : Int) : Temporally Temporal := do
  let product ← checkedI64 (seconds*1000000000)
  let totalNanos ← checkedI64 (product+nanos)
  let secs := totalNanos/1000000000
  let ns := totalNanos%1000000000
  return .dateTime ((fromTimestamp secs ns).getD epoch) utc none

/-- The date-time at milliseconds since the epoch. -/
def fromEpochMillis (millis : Int) : Temporal :=
  let secs := millis/1000
  let ms := millis%1000
  .dateTime ((fromTimestamp secs (ms*1000000)).getD epoch) utc none

/-- Seconds since the epoch. -/
def timestamp (dt : NaiveDateTime) : Int := (dt.date.number-epochDate.number)*86400+dt.time.secs

/-- Milliseconds since the epoch. -/
def timestampMillis (dt : NaiveDateTime) : Int := timestamp dt*1000+dt.time.frac/1000000

/-- The local time of a date-time moved to UTC. -/
def utcDateTime (dt : NaiveDateTime) (offset : FixedOffset) : Temporally NaiveDateTime :=
  unwrap (dt.checkedAdd (-(offset.seconds*1000000000)))

/-- The accessor for seconds since the epoch. -/
def epochSeconds (dt : NaiveDateTime) (offset : FixedOffset) : Temporally Int :=
  (utcDateTime dt offset).map timestamp

/-- The accessor for milliseconds since the epoch. -/
def epochMillis (dt : NaiveDateTime) (offset : FixedOffset) : Temporally Int :=
  (utcDateTime dt offset).map timestampMillis

/-- Nanoseconds of a date-time since the epoch. -/
def instant (dt : NaiveDateTime) (offset : FixedOffset) : Int :=
  position dt-epochDate.number*nanosPerDay-offset.seconds*1000000000

/-- The date type has a date-time at an instant. -/
def Representable (t : Int) : Prop := ∃ dt : NaiveDateTime,¬dt.time.Leap ∧ instant dt utc=t

theorem instant_utc (dt : NaiveDateTime) : instant dt utc=position dt-epochDate.number*nanosPerDay := by
  have hzero : utc.seconds=0 := rfl
  unfold instant
  rw [hzero]
  omega

theorem fromTimestamp_eq (t : Int) : fromTimestamp (t/1000000000) (t%1000000000)=
    (epochDate.checkedAddDays (ordinaryTime t).2).map
      (fun date => (⟨date,(ordinaryTime t).1⟩ : NaiveDateTime)) := by
  have hdays : t/1000000000/86400=(ordinaryTime t).2 := by
    unfold ordinaryTime nanosPerDay
    omega
  have hrange : (0≤t/1000000000%86400 ∧ t/1000000000%86400<86400) ∧
      (0≤t%1000000000 ∧ t%1000000000<2000000000) ∧
      (1000000000≤t%1000000000 → t/1000000000%86400%60=59) := by omega
  have htime : fromNumSecondsFromMidnight (t/1000000000%86400) (t%1000000000)=some (ordinaryTime t).1 := by
    rw [fromNumSecondsFromMidnight,dif_pos hrange]
    refine congrArg some (NaiveTime.eq_of ?_ rfl)
    unfold ordinaryTime nanosPerDay
    simp only
    omega
  unfold fromTimestamp
  rw [hdays,htime]
  cases epochDate.checkedAddDays (ordinaryTime t).2 with
  | none | some date => rfl

/-- A timestamp gives the date-time at its instant, or none outside the date
type. -/
theorem fromTimestamp_spec (t : Int) :
    (InRange (epochDate.number*nanosPerDay+t) → ∃ dt,fromTimestamp (t/1000000000) (t%1000000000)=some dt ∧
      ¬dt.time.Leap ∧ instant dt utc=t) ∧
    (¬InRange (epochDate.number*nanosPerDay+t) → fromTimestamp (t/1000000000) (t%1000000000)=none) := by
  have hcarry := carry_spec epochDate t
  rw [fromTimestamp_eq]
  constructor
  · intro h
    have ⟨dt,heq,hleap,hpos⟩ := hcarry.1 h
    refine ⟨dt,heq,hleap,?_⟩
    rw [instant_utc]
    omega
  · exact hcarry.2

theorem representable_iff (t : Int) : Representable t ↔ InRange (epochDate.number*nanosPerDay+t) := by
  constructor
  · intro h
    have ⟨dt,hleap,heq⟩ := h
    have hbounds := dt.date.number_bounds
    have hday := dt.time.day
    have hsecond := dt.time.second
    rw [instant_utc,position] at heq
    unfold NaiveTime.Leap at hleap
    unfold timeToNanos nanosPerDay at heq
    unfold InRange nanosPerDay
    omega
  · intro h
    have ⟨dt,_,hleap,heq⟩ := (fromTimestamp_spec t).1 h
    exact ⟨dt,hleap,heq⟩

theorem representable_of_fits {t : Int} (h : FitsI64 t) : Representable t := by
  have hnumber : epochDate.number=719163 := by decide
  have hmin : minNumber≤0 := by decide
  have hmax : 1000000≤ maxNumber := by decide
  have hrange := h
  unfold FitsI64 at hrange
  rw [representable_iff,InRange,hnumber]
  unfold nanosPerDay
  omega

theorem utcDateTime_utc (dt : NaiveDateTime) (hleap : ¬dt.time.Leap) : utcDateTime dt utc=.ok dt := by
  have hzero : -(utc.seconds*1000000000)=0 := rfl
  have hspec := (@checkedAdd_spec dt 0 (fun h => hleap h.1)).1
  have hskip : leapSkip dt.time 0=0 := if_neg fun h => hleap h.1
  have hpos : position dt+0-0=position dt := by omega
  have hbounds := dt.date.number_bounds
  have hday := dt.time.day
  have hsecond := dt.time.second
  have hordinary := hleap
  unfold NaiveTime.Leap at hordinary
  have hin : InRange (position dt) := by
    unfold InRange position timeToNanos nanosPerDay
    omega
  rw [hskip,hpos] at hspec
  have ⟨z,hz,hzleap,hzpos⟩ := hspec hin
  rw [utcDateTime,hzero,hz,eq_of_position hzleap hleap hzpos]
  rfl

theorem timestamp_eq {dt : NaiveDateTime} (hleap : ¬dt.time.Leap) : timestamp dt=instant dt utc/1000000000 := by
  have hsecond := dt.time.second
  unfold NaiveTime.Leap at hleap
  rw [instant_utc]
  unfold timestamp position timeToNanos nanosPerDay
  omega

theorem timestampMillis_eq {dt : NaiveDateTime} (hleap : ¬dt.time.Leap) :
    timestampMillis dt=instant dt utc/1000000 := by
  unfold NaiveTime.Leap at hleap
  rw [instant_utc]
  unfold timestampMillis timestamp position timeToNanos nanosPerDay
  omega

/-- What is read off the epoch in seconds and nanoseconds is the instant, and
never another one. -/
structure EpochExact (seconds nanos : Int) : Prop where
  /-- Instants of the date type are reached, with their seconds. -/
  reached : Representable (seconds*1000000000+nanos) → ∃ dt,
    fromEpoch seconds nanos=.ok (.dateTime dt utc none) ∧
    instant dt utc=seconds*1000000000+nanos ∧ epochSeconds dt utc=.ok (seconds+nanos/1000000000)
  /-- Outside the date type no other instant is returned. -/
  noOther : ¬Representable (seconds*1000000000+nanos) → ∀ dt offset zone,
    fromEpoch seconds nanos=.ok (.dateTime dt offset zone) → instant dt offset=seconds*1000000000+nanos

/-- What is read off the epoch in milliseconds is the instant, and never another
one. -/
structure MillisExact (millis : Int) : Prop where
  /-- Instants of the date type are reached, with their milliseconds. -/
  reached : Representable (millis*1000000) → ∃ dt,
    fromEpochMillis millis=.dateTime dt utc none ∧ epochMillis dt utc=.ok millis
  /-- Outside the date type no other instant is returned. -/
  noOther : ¬Representable (millis*1000000) → ∀ dt offset zone,
    fromEpochMillis millis=.dateTime dt offset zone → instant dt offset=millis*1000000

theorem fromEpoch_of_fits {seconds nanos : Int} (hproduct : FitsI64 (seconds*1000000000))
    (hsum : FitsI64 (seconds*1000000000+nanos)) : ∃ dt,
    fromEpoch seconds nanos=.ok (.dateTime dt utc none) ∧ ¬dt.time.Leap ∧
      instant dt utc=seconds*1000000000+nanos := by
  have hrange := (representable_iff _).mp (representable_of_fits hsum)
  have ⟨dt,hdt,hleap,hinstant⟩ := (fromTimestamp_spec _).1 hrange
  refine ⟨dt,?_,hleap,hinstant⟩
  unfold fromEpoch
  rw [checkedI64_ok hproduct]
  simp only [bind,Except.bind,checkedI64_ok hsum,hdt]
  rfl

theorem fromEpoch_panics {seconds nanos : Int}
    (h : ¬(FitsI64 (seconds*1000000000) ∧ FitsI64 (seconds*1000000000+nanos))) :
    fromEpoch seconds nanos=.error .panic := by
  unfold fromEpoch
  by_cases hproduct : FitsI64 (seconds*1000000000)
  · have hsum : ¬FitsI64 (seconds*1000000000+nanos) := fun hsum => h ⟨hproduct,hsum⟩
    rw [checkedI64_ok hproduct]
    simp only [bind,Except.bind,checkedI64_panic hsum]
  · rw [checkedI64_panic hproduct]
    rfl

/-- Seconds and nanoseconds give the instant exactly when the word holds product
and sum, or the date type has no such instant. -/
theorem epochExact_iff (seconds nanos : Int) : EpochExact seconds nanos ↔
    (Representable (seconds*1000000000+nanos) →
      FitsI64 (seconds*1000000000) ∧ FitsI64 (seconds*1000000000+nanos)) := by
  constructor
  · intro h hrep
    by_contra hfits
    have ⟨dt,hdt,_⟩ := h.reached hrep
    rw [fromEpoch_panics hfits] at hdt
    cases hdt
  · intro h
    constructor
    · intro hrep
      have ⟨dt,hdt,hleap,hinstant⟩ := fromEpoch_of_fits (h hrep).1 (h hrep).2
      refine ⟨dt,hdt,hinstant,?_⟩
      rw [epochSeconds,utcDateTime_utc dt hleap]
      refine congrArg Except.ok ?_
      rw [timestamp_eq hleap,hinstant]
      omega
    · intro hrep dt offset zone hdt
      have hfits : ¬(FitsI64 (seconds*1000000000) ∧ FitsI64 (seconds*1000000000+nanos)) :=
        fun hfits => hrep (representable_of_fits hfits.2)
      rw [fromEpoch_panics hfits] at hdt
      cases hdt

theorem millisExact_iff (millis : Int) : MillisExact millis ↔ Representable (millis*1000000) := by
  have hspec := fromTimestamp_spec (millis*1000000)
  have hsecs : millis*1000000/1000000000=millis/1000 := by omega
  have hnanos : millis*1000000%1000000000=millis%1000*1000000 := by omega
  rw [hsecs,hnanos,←representable_iff] at hspec
  constructor
  · intro h
    by_contra hrep
    have hepoch : fromEpochMillis millis=.dateTime epoch utc none := by
      unfold fromEpochMillis
      simp only [hspec.2 hrep,Option.getD_none]
    have hinstant := h.noOther hrep epoch utc none hepoch
    exact hrep ⟨epoch,by decide,hinstant⟩
  · intro hrep
    have ⟨dt,hdt,hleap,hinstant⟩ := hspec.1 hrep
    constructor
    · intro _
      refine ⟨dt,?_,?_⟩
      · unfold fromEpochMillis
        simp only [hdt,Option.getD_some]
      · rw [epochMillis,utcDateTime_utc dt hleap]
        refine congrArg Except.ok ?_
        rw [timestampMillis_eq hleap,hinstant]
        omega
    · intro hnone
      exact absurd hrep hnone

/-- Both ways from the epoch reach their instants exactly when the word holds the
nanoseconds of an instant of the date type, and the date type has the instant of
the milliseconds. -/
theorem epoch_round_trips_iff (seconds nanos millis : Int) :
    (EpochExact seconds nanos ∧ MillisExact millis) ↔
    (Representable (seconds*1000000000+nanos) →
      FitsI64 (seconds*1000000000) ∧ FitsI64 (seconds*1000000000+nanos)) ∧
    Representable (millis*1000000) := and_congr (epochExact_iff seconds nanos) (millisExact_iff millis)

/-- Ten thousand million seconds after the epoch are a date of the date type that
is not reached. -/
theorem epoch_round_trips_fails : ¬∀ seconds nanos millis : Int,
    FitsI64 seconds → FitsI64 nanos → FitsI64 millis → EpochExact seconds nanos ∧ MillisExact millis := by
  intro h
  have hboth := h 10000000000 0 0 ⟨by decide,by decide⟩ ⟨by decide,by decide⟩ ⟨by decide,by decide⟩
  have hrep : Representable (10000000000*1000000000+0) := by
    rw [representable_iff]
    exact ⟨by decide,by decide⟩
  have hfits := (epochExact_iff 10000000000 0).mp hboth.1 hrep
  have hbound := hfits.1.2
  omega

end GraphDbLite.EpochInstants
