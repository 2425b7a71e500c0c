import GraphDbLite.DateFields
import GraphDbLite.DurationText

/-!
# Temporal values from component maps

Dates and times are made from the components of a map, with those of another
temporal value for the ones that are missing. Components are narrowed to words of
32 bits on the way, and some are not looked at when others are there. A map of
integers is read faithfully when the words hold its components, no component of
a date contradicts the ones that are used, and the fraction of a second is not
one of a leap second.
-/

namespace GraphDbLite.TemporalMaps

open Calendar IsoWeeks TemporalValues DurationBetween DurationText DateFields

/-- Values of a component map. -/
inductive MapValue where
  | i64 (n : Int)
  | temporal (v : Temporal)
  | string (s : String)
  | other

/-- Components by their names. -/
abbrev ComponentMap := String → Option MapValue

/-- An integer of a map. -/
@[grind] def getI64 (map : ComponentMap) (key : String) : Option Int :=
  match map key with
  | some (.i64 n) => some n
  | _ => none

/-- A temporal value of a map. -/
@[grind] def getTemporal : Option MapValue → Option Temporal
  | some (.temporal v) => some v
  | _ => none

/-- The low 32 bits of an integer, unsigned. -/
@[grind] def asU32 (n : Int) : Int := n%4294967296

/-- A sum or product in an unsigned word of 32 bits. -/
@[grind] def wordU32 (n : Int) : Reading Int := if 0≤n ∧ n<4294967296 then .ok n else .error .panic

/-- A span of days, with a panic outside its type. -/
@[grind] def spanOfDays (days : Int) : Reading Int :=
  if -9223372036854775807≤days*86400000 ∧ days*86400000≤9223372036854775807 then .ok days else .error .panic

/-- The value inside, or a refusal. -/
@[grind] def orRefuse {α : Type} (source : String) : Option α → Reading α
  | some a => .ok a
  | none => refuse source

/-- The time that a map starts from; a date has none. -/
@[grind] def baseTime (map : ComponentMap) : Option NaiveTime :=
  match getTemporal ((map "time").or (map "datetime")) with
  | some (.localTime t) => some t
  | some (.time t _) => some t
  | some (.localDateTime dt) => some dt.time
  | some (.dateTime dt _ _) => some dt.time
  | _ => none

/-- The date that a map starts from; a time has none. -/
@[grind] def baseDate (map : ComponentMap) : Option NaiveDate :=
  match getTemporal ((map "date").or (map "datetime")) with
  | some (.date d) => some d
  | some (.localDateTime dt) => some dt.date
  | some (.dateTime dt _ _) => some dt.date
  | _ => none

/-- A component of a map, of the value it starts from, or a default. -/
@[grind] def component {α : Type} (map : ComponentMap) (key : String) (base : Option α) (read : α → Int)
    (default : Int) : Int := ((getI64 map key).or (base.map read)).getD default

/-- A time from a component map. -/
@[grind] def timeFromMap (map : ComponentMap) : Reading NaiveTime := do
  let h := asU32 (component map "hour" (baseTime map) hour 0)
  let m := asU32 (component map "minute" (baseTime map) minute 0)
  let s := asU32 (component map "second" (baseTime map) second 0)
  let nano := asU32 (component map "nanosecond" (baseTime map) (fun t => t.frac%1000000000) 0)
  let millis ← wordU32 (asU32 ((getI64 map "millisecond").getD 0)*1000000)
  let nano ← wordU32 (nano+millis)
  let micros ← wordU32 (asU32 ((getI64 map "microsecond").getD 0)*1000)
  let nano ← wordU32 (nano+micros)
  orRefuse "invalid time components" (fromHmsNano h m s nano)

/-- The weekday of a number from one. -/
@[grind] def weekdayOf (dow : Int) : Reading Int :=
  if 1≤dow ∧ dow≤7 then .ok (dow-1) else refuse s!"invalid dayOfWeek: {dow}"

/-- A date from a component map. -/
@[grind] def dateFromMap (map : ComponentMap) : Reading NaiveDate :=
  let base := baseDate map
  match getI64 map "week" with
  | some week => do
    let year := asI32 (component map "year" base (fun d => isoYear d.date) 0)
    let dow := asU32 (component map "dayOfWeek" base (fun d => weekday d.number+1) 1)
    let day ← weekdayOf dow
    orRefuse "invalid week date components" (fromIsoywd year (asU32 week) day)
  | none =>
    let year := asI32 (component map "year" base NaiveDate.year 0)
    match getI64 map "ordinalDay" with
    | some ord => orRefuse "invalid ordinal date components" (fromYo year (asU32 ord))
    | none =>
      match getI64 map "quarter" with
      | some quarter => do
        let before ← word (quarter-1)
        let months ← word (before*3)
        let quarterStartMonth := asU32 (← word (months+1))
        match getI64 map "dayOfQuarter",base with
        | some doq,_ => do
          let start ← orRefuse "invalid quarter" (fromYmd year quarterStartMonth 1)
          let days ← spanOfDays (← word (doq-1))
          orRefuse "dayOfQuarter out of range" (start.checkedAddDays days)
        | none,some bd => do
          let month ← wordU32 (quarterStartMonth+(bd.month-1)%3)
          orRefuse "invalid quarter date"
            (fromYmd year month (asU32 ((getI64 map "day").getD bd.day)))
        | none,none => orRefuse "invalid quarter" (fromYmd year quarterStartMonth 1)
      | none =>
        let month := asU32 (component map "month" base NaiveDate.month 1)
        let day := asU32 (component map "day" base NaiveDate.day 1)
        orRefuse "invalid date components" (fromYmd year month day)

/-- A local date-time from a component map. -/
@[grind] def localDateTimeFromMap (map : ComponentMap) : Reading NaiveDateTime := do
  let d ← dateFromMap map
  let t ← timeFromMap map
  return ⟨d,t⟩

/-- A map of integers. -/
@[grind] def integerMap (components : String → Option Int) : ComponentMap := fun key => (components key).map .i64

section

variable (components : String → Option Int)

/-- Integers of a map of integers. -/
@[simp] theorem getI64_integerMap (key : String) : getI64 (integerMap components) key=components key := by
  unfold getI64 integerMap
  cases components key with
  | none | some n => rfl

theorem getTemporal_integerMap (a b : String) :
    getTemporal ((integerMap components a).or (integerMap components b))=none := by
  unfold integerMap
  cases components a with
  | none =>
    cases components b with
    | none | some n => rfl
  | some n => rfl

theorem bases_integerMap : baseTime (integerMap components)=none ∧ baseDate (integerMap components)=none := by
  unfold baseTime baseDate
  rw [getTemporal_integerMap,getTemporal_integerMap]
  exact ⟨rfl,rfl⟩

theorem component_integerMap {α : Type} (key : String) (read : α → Int) (default : Int) :
    component (integerMap components) key none read default=(components key).getD default := by
  unfold component
  rw [getI64_integerMap]
  cases components key with
  | none | some n => rfl

end

/-- Components of a time. -/
@[grind] def timeKeys : List String := ["hour","minute","second","nanosecond","millisecond","microsecond"]

/-- Components that a time reads back one by one. -/
@[grind] def fieldKeys : List String := ["hour","minute","second"]

/-- Components of a fraction of a second. -/
@[grind] def fractionKeys : List String := ["nanosecond","millisecond","microsecond"]

section

variable (components : String → Option Int)

/-- The fraction of a second in nanoseconds. -/
@[grind] def fractionGiven : Int :=
  (components "nanosecond").getD 0+(components "millisecond").getD 0*1000000+
    (components "microsecond").getD 0*1000

/-- A map of integers is read as a time with its components, or refused. -/
structure TimeFaithful : Prop where
  /-- No step panics. -/
  noPanic : timeFromMap (integerMap components)≠.error .panic
  /-- No conversion wraps. -/
  noWrap : ∀ key∈timeKeys,∀ n,components key=some n → asU32 n=n
  /-- The time has the components of the map. -/
  fields : ∀ t,timeFromMap (integerMap components)=.ok t → ∀ key∈fieldKeys,∀ n,
    components key=some n → localTimeAccessor t key=some n
  /-- The time has the fraction of the map. -/
  fraction : ∀ t,timeFromMap (integerMap components)=.ok t → ∀ key∈fractionKeys,∀ n,
    components key=some n → localTimeAccessor t "nanosecond"=some (fractionGiven components)
  /-- A component that no time has is refused. -/
  refused : ∀ key∈timeKeys,∀ n,components key=some n → (∀ t,localTimeAccessor t key≠some n) →
    ∃ e,timeFromMap (integerMap components)=.error (.graph e)

/-- Components and their fraction are words of 32 bits, and the fraction is not one
that a leap second takes. -/
structure TimeMeets : Prop where
  /-- Components are unsigned words. -/
  words : ∀ key∈timeKeys,∀ n,components key=some n → 0≤n ∧ n<4294967296
  /-- The fraction is an unsigned word. -/
  sum : fractionGiven components<4294967296
  /-- At the last second of a minute the fraction is below a second, or above two. -/
  noLeap : (components "hour").getD 0<24 → (components "minute").getD 0<60 → (components "second").getD 0=59 →
    fractionGiven components<1000000000 ∨ 2000000000≤fractionGiven components

theorem asU32_iff (n : Int) : asU32 n=n ↔ 0≤n ∧ n<4294967296 := by
  unfold asU32
  omega

theorem getD_word {key : String} (hkey : key∈timeKeys)
    (hwords : ∀ key∈timeKeys,∀ n,components key=some n → 0≤n ∧ n<4294967296) :
    0≤(components key).getD 0 ∧ (components key).getD 0<4294967296 := by
  have hword := hwords key hkey
  cases hvalue : components key with
  | none =>
    rw [Option.getD_none]
    omega
  | some n =>
    rw [Option.getD_some]
    exact hword n hvalue

theorem timeFromMap_words (hwords : ∀ key∈timeKeys,∀ n,components key=some n → 0≤n ∧ n<4294967296) :
    timeFromMap (integerMap components)=
      if fractionGiven components<4294967296 then
        orRefuse "invalid time components" (fromHmsNano ((components "hour").getD 0)
          ((components "minute").getD 0) ((components "second").getD 0) (fractionGiven components))
      else .error .panic := by
  have hbase := (bases_integerMap components).1
  have hhour := getD_word components (show "hour"∈timeKeys by decide) hwords
  have hminute := getD_word components (show "minute"∈timeKeys by decide) hwords
  have hsecond := getD_word components (show "second"∈timeKeys by decide) hwords
  have hnano := getD_word components (show "nanosecond"∈timeKeys by decide) hwords
  have hmilli := getD_word components (show "millisecond"∈timeKeys by decide) hwords
  have hmicro := getD_word components (show "microsecond"∈timeKeys by decide) hwords
  have hwrap : ∀ n : Int,0≤n ∧ n<4294967296 → asU32 n=n := fun n h => (asU32_iff n).mpr h
  unfold timeFromMap
  rw [hbase]
  simp only [component_integerMap,getI64_integerMap,hwrap _ hhour,hwrap _ hminute,hwrap _ hsecond,
    hwrap _ hnano,hwrap _ hmilli,hwrap _ hmicro]
  unfold fractionGiven
  generalize (components "nanosecond").getD 0=nano at hnano
  generalize (components "millisecond").getD 0=milli at hmilli
  generalize (components "microsecond").getD 0=micro at hmicro
  by_cases hsum : nano+milli*1000000+micro*1000<4294967296
  · have hone : wordU32 (milli*1000000)=.ok (milli*1000000) := if_pos (by omega)
    have htwo : wordU32 (nano+milli*1000000)=.ok (nano+milli*1000000) := if_pos (by omega)
    have hthree : wordU32 (micro*1000)=.ok (micro*1000) := if_pos (by omega)
    have hfour : wordU32 (nano+milli*1000000+micro*1000)=.ok (nano+milli*1000000+micro*1000) :=
      if_pos (by omega)
    rw [if_pos hsum,hone]
    simp only [bind,Except.bind,htwo,hthree,hfour]
  · rw [if_neg hsum]
    by_cases hmillis : milli*1000000<4294967296
    · have hone : wordU32 (milli*1000000)=.ok (milli*1000000) := if_pos (by omega)
      rw [hone]
      by_cases hnanos : nano+milli*1000000<4294967296
      · have htwo : wordU32 (nano+milli*1000000)=.ok (nano+milli*1000000) := if_pos (by omega)
        by_cases hmicros : micro*1000<4294967296
        · have hthree : wordU32 (micro*1000)=.ok (micro*1000) := if_pos (by omega)
          have hfour : wordU32 (nano+milli*1000000+micro*1000)=.error .panic := if_neg (by omega)
          simp only [bind,Except.bind,htwo,hthree,hfour]
        · have hthree : wordU32 (micro*1000)=.error .panic := if_neg (by omega)
          simp only [bind,Except.bind,htwo,hthree]
      · have htwo : wordU32 (nano+milli*1000000)=.error .panic := if_neg (by omega)
        simp only [bind,Except.bind,htwo]
    · have hone : wordU32 (milli*1000000)=.error .panic := if_neg (by omega)
      rw [hone]
      rfl

theorem orRefuse_spec {α : Type} (source : String) (o : Option α) :
    (∀ a,orRefuse source o=.ok a ↔ o=some a) ∧ orRefuse source o≠.error .panic ∧
      (o=none → ∃ e,orRefuse source o=.error (.graph e)) := by
  cases o with
  | none =>
    refine ⟨?_,?_,fun _ => ⟨_,rfl⟩⟩
    · intro a
      constructor <;> intro h <;> cases h
    · intro h
      cases h
  | some x =>
    refine ⟨?_,?_,?_⟩
    · intro a
      constructor
      · intro h
        cases h
        rfl
      · intro h
        cases h
        rfl
    · intro h
      cases h
    · intro h
      cases h

theorem accessor_of_range {n : Int} : (0≤n ∧ n<24 → ∃ t,localTimeAccessor t "hour"=some n) ∧
    (0≤n ∧ n<60 → (∃ t,localTimeAccessor t "minute"=some n) ∧ ∃ t,localTimeAccessor t "second"=some n) ∧
    (0≤n ∧ n<1000000000 → ∃ t,localTimeAccessor t "nanosecond"=some n) ∧
    (0≤n ∧ n<1000 → ∃ t,localTimeAccessor t "millisecond"=some n) ∧
    (0≤n ∧ n<1000000 → ∃ t,localTimeAccessor t "microsecond"=some n) := by
  have hfields : ∀ h m s nano : Int,(0≤h ∧ h<24) → (0≤ m ∧ m<60) → (0≤ s ∧ s<60) → (0≤nano ∧ nano<1000000000) →
      ∃ t,hour t=h ∧ minute t=m ∧ second t=s ∧ t.frac=nano := by
    intro h m s nano hh hm hs hnano
    have htime : fromHmsNano h m s nano=some ⟨h*3600+m*60+s,nano,by omega,by omega⟩ :=
      dif_pos ⟨hh,hm,hs,by omega,by omega⟩
    exact ⟨_,fromHmsNano_eq htime⟩
  refine ⟨?_,?_,?_,?_,?_⟩
  · intro h
    have ⟨t,ht,_⟩ := hfields n 0 0 0 h (by omega) (by omega) (by omega)
    exact ⟨t,congrArg some ht⟩
  · intro h
    have ⟨t,_,ht,_⟩ := hfields 0 n 0 0 (by omega) h (by omega) (by omega)
    have ⟨u,_,_,hu,_⟩ := hfields 0 0 n 0 (by omega) (by omega) h (by omega)
    exact ⟨⟨t,congrArg some ht⟩,u,congrArg some hu⟩
  · intro h
    have ⟨t,_,_,_,ht⟩ := hfields 0 0 0 n (by omega) (by omega) (by omega) h
    have hread : t.frac%1000000000=n := by omega
    exact ⟨t,congrArg some hread⟩
  · intro h
    have ⟨t,_,_,_,ht⟩ := hfields 0 0 0 (n*1000000) (by omega) (by omega) (by omega) (by omega)
    have hread : t.frac%1000000000/1000000=n := by omega
    exact ⟨t,congrArg some hread⟩
  · intro h
    have ⟨t,_,_,_,ht⟩ := hfields 0 0 0 (n*1000) (by omega) (by omega) (by omega) (by omega)
    have hread : t.frac%1000000000/1000=n := by omega
    exact ⟨t,congrArg some hread⟩

theorem timeFaithful_of_meets (h : TimeMeets components) : TimeFaithful components := by
  have hresult := timeFromMap_words components h.words
  rw [if_pos h.sum] at hresult
  have hspec := orRefuse_spec "invalid time components" (fromHmsNano ((components "hour").getD 0)
    ((components "minute").getD 0) ((components "second").getD 0) (fractionGiven components))
  rw [←hresult] at hspec
  have hok : ∀ t,timeFromMap (integerMap components)=.ok t → hour t=(components "hour").getD 0 ∧
      minute t=(components "minute").getD 0 ∧ second t=(components "second").getD 0 ∧
      t.frac=fractionGiven components ∧ fractionGiven components<1000000000 := by
    intro t ht
    have hsome := (hspec.1 t).mp ht
    have hfields := fromHmsNano_eq hsome
    have hbounds := fields_bounds t
    have hfrac := t.second
    have hleap := h.noLeap
    have hfraction : fractionGiven components<1000000000 := by
      by_contra hover
      unfold fromHmsNano at hsome
      split_ifs at hsome with hrange
      have hlast := hrange.2.2.2.2 (by omega)
      cases hleap (by omega) (by omega) hlast with
      | inl hbelow | inr habove => omega
    exact ⟨hfields.1,hfields.2.1,hfields.2.2.1,hfields.2.2.2,hfraction⟩
  have hgiven : ∀ key n,components key=some n → (components key).getD 0=n := by
    intro key n hn
    rw [hn,Option.getD_some]
  have hnano := getD_word components (show "nanosecond"∈timeKeys by decide) h.words
  have hmilli := getD_word components (show "millisecond"∈timeKeys by decide) h.words
  have hmicro := getD_word components (show "microsecond"∈timeKeys by decide) h.words
  constructor
  · exact hspec.2.1
  · intro key hkey n hn
    exact (asU32_iff n).mpr (h.words key hkey n hn)
  · intro t ht key hkey n hn
    have hfields := hok t ht
    have hvalue := hgiven key n hn
    simp only [fieldKeys,List.mem_cons,List.not_mem_nil,or_false] at hkey
    rcases hkey with rfl | rfl | rfl
    · exact congrArg some (hfields.1.trans hvalue)
    · exact congrArg some (hfields.2.1.trans hvalue)
    · exact congrArg some (hfields.2.2.1.trans hvalue)
  · intro t ht key hkey n hn
    have hfields := hok t ht
    have hsecond := t.second
    have hread : t.frac%1000000000=fractionGiven components := by omega
    exact congrArg some hread
  · intro key hkey n hn hrange
    have hvalue := hgiven key n hn
    have hnone : fromHmsNano ((components "hour").getD 0) ((components "minute").getD 0)
        ((components "second").getD 0) (fractionGiven components)=none := by
      by_contra hsome
      obtain ⟨t,ht⟩ := Option.ne_none_iff_exists'.mp hsome
      have hfields := hok t ((hspec.1 t).mpr ht)
      have hbounds := fields_bounds t
      have hfrac := t.second
      have hranges := @accessor_of_range n
      unfold fractionGiven at hfields
      simp only [timeKeys,List.mem_cons,List.not_mem_nil,or_false] at hkey
      rcases hkey with rfl | rfl | rfl | rfl | rfl | rfl
      · obtain ⟨u,hu⟩ := hranges.1 (by omega)
        exact hrange u hu
      · obtain ⟨u,hu⟩ := (hranges.2.1 (by omega)).1
        exact hrange u hu
      · obtain ⟨u,hu⟩ := (hranges.2.1 (by omega)).2
        exact hrange u hu
      · obtain ⟨u,hu⟩ := hranges.2.2.1 (by omega)
        exact hrange u hu
      · obtain ⟨u,hu⟩ := hranges.2.2.2.1 (by omega)
        exact hrange u hu
      · obtain ⟨u,hu⟩ := hranges.2.2.2.2 (by omega)
        exact hrange u hu
    exact hspec.2.2 hnone

theorem timeMeets_of_faithful (h : TimeFaithful components) : TimeMeets components := by
  have hwords : ∀ key∈timeKeys,∀ n,components key=some n → 0≤n ∧ n<4294967296 :=
    fun key hkey n hn => (asU32_iff n).mp (h.noWrap key hkey n hn)
  have hresult := timeFromMap_words components hwords
  have hsum : fractionGiven components<4294967296 := by
    by_contra hover
    rw [if_neg hover] at hresult
    exact h.noPanic hresult
  have hhour := getD_word components (show "hour"∈timeKeys by decide) hwords
  have hminute := getD_word components (show "minute"∈timeKeys by decide) hwords
  refine ⟨hwords,hsum,?_⟩
  intro hh hm hs
  by_contra hneither
  have hfraction : 1000000000≤fractionGiven components ∧ fractionGiven components<2000000000 := by omega
  have htime : fromHmsNano ((components "hour").getD 0) ((components "minute").getD 0)
      ((components "second").getD 0) (fractionGiven components)=some ⟨_,fractionGiven components,_,_⟩ :=
    dif_pos ⟨⟨hhour.1,hh⟩,⟨hminute.1,hm⟩,by omega,by omega,fun _ => hs⟩
  rw [if_pos hsum,htime] at hresult
  have hgiven : ∃ key∈fractionKeys,∃ n,components key=some n := by
    by_contra hnone
    have hmissing : ∀ key∈fractionKeys,(components key).getD 0=0 := by
      intro key hkey
      cases hvalue : components key with
      | none => rfl
      | some n => exact absurd ⟨key,hkey,n,hvalue⟩ hnone
    have hone := hmissing "nanosecond" (by decide)
    have htwo := hmissing "millisecond" (by decide)
    have hthree := hmissing "microsecond" (by decide)
    unfold fractionGiven at hfraction
    omega
  have ⟨key,hkey,n,hn⟩ := hgiven
  have hread := Option.some.inj (h.fraction _ hresult key hkey n hn)
  simp only at hread
  omega

end

/-- Components of a date. -/
@[grind] def dateKeys : List String :=
  ["year","month","day","week","dayOfWeek","ordinalDay","quarter","dayOfQuarter"]

/-- The date has the components of a list. -/
@[grind] def HasFields (d : NaiveDate) (fields : List (String×Int)) : Prop :=
  ∀ field∈fields,dateAccessor d field.1=some field.2

section

variable (components : String → Option Int)

/-- The year of a map. -/
@[grind] def yearGiven : Int := (components "year").getD 0

/-- The accessor of a component: with a week the year is the one of its weeks. -/
@[grind] def accessorOf (key : String) : String :=
  if key="year" ∧ (components "week").isSome=true then "weekYear" else key

/-- Components of a date that are used, with their defaults. -/
@[grind] def usedFields : List (String×Int) :=
  match components "week" with
  | some week => [("weekYear",yearGiven components),("week",week),
      ("dayOfWeek",(components "dayOfWeek").getD 1)]
  | none =>
    match components "ordinalDay" with
    | some ord => [("year",yearGiven components),("ordinalDay",ord)]
    | none =>
      match components "quarter" with
      | some quarter => [("year",yearGiven components),("quarter",quarter),
          ("dayOfQuarter",(components "dayOfQuarter").getD 1)]
      | none => [("year",yearGiven components),("month",(components "month").getD 1),
          ("day",(components "day").getD 1)]

/-- Numbers that are narrowed to unsigned words for a date. -/
@[grind] def narrowed : List Int :=
  match components "week" with
  | some week => [(components "dayOfWeek").getD 1,week]
  | none =>
    match components "ordinalDay" with
    | some ord => [ord]
    | none =>
      match components "quarter" with
      | some quarter => [(quarter-1)*3+1]
      | none => [(components "month").getD 1,(components "day").getD 1]

/-- A map of integers is read as a date with its components, or refused. -/
structure DateFaithful : Prop where
  /-- No step panics. -/
  noPanic : dateFromMap (integerMap components)≠.error .panic
  /-- No conversion wraps. -/
  noWrap : asI32 (yearGiven components)=yearGiven components ∧ ∀ n∈narrowed components,asU32 n=n
  /-- The date has the components of the map. -/
  fields : ∀ d,dateFromMap (integerMap components)=.ok d → ∀ key∈dateKeys,∀ n,
    components key=some n → dateAccessor d (accessorOf components key)=some n
  /-- A component that no date has is refused. -/
  refused : ∀ key∈dateKeys,∀ n,components key=some n →
    (∀ d,dateAccessor d (accessorOf components key)≠some n) →
    ∃ e,dateFromMap (integerMap components)=.error (.graph e)

/-- A day of a quarter is one of it, or is neither in the date type nor too far for
a span. -/
@[grind] def DayMeets (index doq : Int) : Prop :=
  (1≤doq ∧ doq≤quarterLength index) ∨
  (-9223372036854775807≤(doq-1)*86400000 ∧ (doq-1)*86400000≤9223372036854775807) ∧
    ¬(minNumber≤ monthStart (index*3)+doq ∧ monthStart (index*3)+doq≤ maxNumber)

/-- The words hold the components, a day of a quarter does not lead out of it,
and components that are not used do not contradict those that are. -/
structure DateMeets : Prop where
  /-- The year is a signed word. -/
  year : -2147483648≤yearGiven components ∧ yearGiven components≤2147483647
  /-- Narrowed numbers are unsigned words. -/
  words : ∀ n∈narrowed components,0≤n ∧ n<4294967296
  /-- The day of a quarter of the date type. -/
  quarter : components "week"=none → components "ordinalDay"=none → ∀ quarter doq,
    components "quarter"=some quarter → components "dayOfQuarter"=some doq → quarter≤4 →
    minYear≤yearGiven components ∧ yearGiven components≤ maxYear →
    DayMeets (4*yearGiven components+(quarter-1)) doq
  /-- A date with the used components has all of them. -/
  agree : ∀ d,HasFields d (usedFields components) → ∀ key∈dateKeys,∀ n,
    components key=some n → dateAccessor d (accessorOf components key)=some n

/-- The outcome is the only date with the used components, or a refusal. -/
@[grind] def Reads (result : Reading NaiveDate) (fields : List (String×Int)) : Prop :=
  (∀ d,result=.ok d ↔ HasFields d fields) ∧ ((∀ d,result≠.ok d) → ∃ e,result=.error (.graph e))

theorem reads_orRefuse {source : String} {o : Option NaiveDate} {fields : List (String×Int)}
    (h : ∀ d,o=some d ↔ HasFields d fields) : Reads (orRefuse source o) fields := by
  have hspec := orRefuse_spec source o
  refine ⟨fun d => (hspec.1 d).trans (h d),?_⟩
  intro hnone
  refine hspec.2.2 ?_
  by_contra hsome
  have ⟨d,hd⟩ := Option.ne_none_iff_exists'.mp hsome
  exact hnone d ((hspec.1 d).mpr hd)

theorem hasFields_two (d : NaiveDate) (a b : String×Int) :
    HasFields d [a,b] ↔ dateAccessor d a.1=some a.2 ∧ dateAccessor d b.1=some b.2 := by
  unfold HasFields
  rw [List.forall_mem_cons,List.forall_mem_singleton]

theorem hasFields_three (d : NaiveDate) (a b c : String×Int) :
    HasFields d [a,b,c] ↔ dateAccessor d a.1=some a.2 ∧ dateAccessor d b.1=some b.2 ∧
      dateAccessor d c.1=some c.2 := by
  unfold HasFields
  rw [List.forall_mem_cons,List.forall_mem_cons,List.forall_mem_singleton]

theorem reads_week (year week dow : Int) :
    Reads (do
      let day ← weekdayOf dow
      orRefuse "invalid week date components" (fromIsoywd year week day))
    [("weekYear",year),("week",week),("dayOfWeek",dow)] := by
  have hfields : ∀ d,HasFields d [("weekYear",year),("week",week),("dayOfWeek",dow)] ↔
      isoYear d.date=year ∧ isoWeek d.date=week ∧ weekday d.number+1=dow := by
    intro d
    rw [hasFields_three]
    simp only [dateAccessor,Option.some.injEq]
  by_cases hdow : 1≤dow ∧ dow≤7
  · have hday : weekdayOf dow=.ok (dow-1) := if_pos hdow
    rw [hday]
    refine reads_orRefuse ?_
    intro d
    rw [hfields]
    constructor
    · intro h
      have heq := fromIsoywd_eq ⟨by omega,by omega⟩ h
      exact ⟨heq.1,heq.2.1,by omega⟩
    · intro h
      have hself := fromIsoywd_self d
      have hweekday : weekday d.number=dow-1 := by omega
      rw [h.1,h.2.1,hweekday] at hself
      exact hself
  · have hday : weekdayOf dow=refuse s!"invalid dayOfWeek: {dow}" := if_neg hdow
    rw [hday]
    refine ⟨?_,fun _ => ⟨_,rfl⟩⟩
    intro d
    rw [hfields]
    constructor
    · intro h
      cases h
    · intro h
      have hrange : 0≤ weekday d.number ∧ weekday d.number<7 := by
        unfold weekday
        omega
      omega

theorem reads_ordinal (year ord : Int) :
    Reads (orRefuse "invalid ordinal date components" (fromYo year ord)) [("year",year),("ordinalDay",ord)] := by
  refine reads_orRefuse ?_
  intro d
  rw [hasFields_two]
  simp only [dateAccessor,Option.some.injEq]
  constructor
  · exact fromYo_eq
  · intro h
    have hself := fromYo_self d
    rw [h.1,h.2] at hself
    exact hself

theorem reads_ymd (year month day : Int) :
    Reads (orRefuse "invalid date components" (fromYmd year month day))
      [("year",year),("month",month),("day",day)] := by
  refine reads_orRefuse ?_
  intro d
  rw [hasFields_three]
  simp only [dateAccessor,Option.some.injEq]
  constructor
  · exact fromYmd_eq
  · intro h
    have hself := fromYmd_self d
    rw [h.1,h.2.1,h.2.2] at hself
    exact hself

theorem hasFields_quarter (d : NaiveDate) (year quarter doq : Int) :
    HasFields d [("year",year),("quarter",quarter),("dayOfQuarter",doq)] ↔
      (1≤quarter ∧ quarter≤4) ∧ (1≤doq ∧ doq≤quarterLength (4*year+(quarter-1))) ∧
      d.number=monthStart ((4*year+(quarter-1))*3)+doq := by
  have hyear : d.year=d.date.month/12 := rfl
  have hmonth : d.month=d.date.month%12+1 := rfl
  have hdoq := dateAccessor_dayOfQuarter d
  have hbounds := dayOfQuarter_bounds d.date
  have hvalue : dayOfQuarter d.date=d.number-monthStart (d.date.month/3*3) := rfl
  rw [hasFields_three,hdoq]
  simp only [dateAccessor,Option.some.injEq]
  constructor
  · intro h
    have hindex : d.date.month/3=4*year+(quarter-1) := by omega
    rw [hindex] at hbounds hvalue
    exact ⟨by omega,by omega,by omega⟩
  · intro h
    have hspec := @of_dayOfQuarter d.date _ _ h.2.1 h.2.2
    exact ⟨by omega,by omega,hspec.2⟩

theorem quarterFirst (year quarter : Int) (hpos : 1≤quarter) :
    (quarter≤4 ∧ minYear≤year ∧ year≤ maxYear →
      ∃ start,fromYmd year ((quarter-1)*3+1) 1=some start ∧
        start.number=monthStart ((4*year+(quarter-1))*3)+1) ∧
    (¬(quarter≤4 ∧ minYear≤year ∧ year≤ maxYear) → fromYmd year ((quarter-1)*3+1) 1=none) := by
  constructor
  · intro h
    have hrange : minMonth≤(4*year+(quarter-1))*3 ∧ (4*year+(quarter-1))*3≤ maxMonth := by
      unfold minMonth maxMonth
      omega
    exact ⟨_,fromYmd_firstOf hrange (by omega) (by omega),rfl⟩
  · intro h
    rw [fromYmd,dif_neg]
    intro hrange
    exact h ⟨by omega,hrange.2.1⟩

theorem reads_dayOfQuarter (year quarter doq : Int) (hpos : 1≤quarter)
    (h : quarter≤4 → minYear≤year ∧ year≤ maxYear → DayMeets (4*year+(quarter-1)) doq) :
    Reads (do
      let start ← orRefuse "invalid quarter" (fromYmd year ((quarter-1)*3+1) 1)
      let days ← spanOfDays (← word (doq-1))
      orRefuse "dayOfQuarter out of range" (start.checkedAddDays days))
    [("year",year),("quarter",quarter),("dayOfQuarter",doq)] := by
  have hfirst := quarterFirst year quarter hpos
  by_cases hstart : quarter≤4 ∧ minYear≤year ∧ year≤ maxYear
  · have ⟨start,hymd,hnumber⟩ := hfirst.1 hstart
    have hmeets := h hstart.1 hstart.2
    have hlength : quarterLength (4*year+(quarter-1))≤93 := by
      have hone := monthStart_succ ((4*year+(quarter-1))*3)
      have htwo := monthStart_succ ((4*year+(quarter-1))*3+1)
      have hthree := monthStart_succ ((4*year+(quarter-1))*3+1+1)
      have hlengths := monthLength_bounds ((4*year+(quarter-1))*3)
      have hlengthsNext := monthLength_bounds ((4*year+(quarter-1))*3+1)
      have hlengthsLast := monthLength_bounds ((4*year+(quarter-1))*3+1+1)
      have hsame : (4*year+(quarter-1))*3+3=(4*year+(quarter-1))*3+1+1+1 := by omega
      unfold quarterLength
      rw [hsame]
      omega
    have hspan : -9223372036854775807≤(doq-1)*86400000 ∧ (doq-1)*86400000≤9223372036854775807 := by
      cases hmeets with
      | inl hin => omega
      | inr hout => exact hout.1
    have hword : word (doq-1)=.ok (doq-1) := word_of (by omega)
    have hdays : spanOfDays (doq-1)=.ok (doq-1) := if_pos hspan
    have hsame : (do
        let start ← orRefuse "invalid quarter" (fromYmd year ((quarter-1)*3+1) 1)
        let days ← spanOfDays (← word (doq-1))
        orRefuse "dayOfQuarter out of range" (start.checkedAddDays days))=
        orRefuse "dayOfQuarter out of range" (start.checkedAddDays (doq-1)) := by
      rw [hymd,hword]
      simp only [orRefuse,bind,Except.bind,hdays]
    rw [hsame]
    refine reads_orRefuse ?_
    intro d
    rw [hasFields_quarter]
    constructor
    · intro heq
      have hmoved := NaiveDate.number_checkedAddDays heq
      have hbounds := d.number_bounds
      have hin : 1≤doq ∧ doq≤quarterLength (4*year+(quarter-1)) := by
        cases hmeets with
        | inl hin => exact hin
        | inr hout => exact absurd ⟨by omega,by omega⟩ hout.2
      exact ⟨⟨hpos,hstart.1⟩,hin,by omega⟩
    · intro hfields
      have hdifference : doq-1=d.number-start.number := by omega
      rw [hdifference]
      exact NaiveDate.checkedAddDays_eq start d
  · rw [hfirst.2 hstart]
    refine ⟨?_,fun _ => ⟨_,rfl⟩⟩
    intro d
    rw [hasFields_quarter]
    constructor
    · intro heq
      cases heq
    · intro hfields
      have hindex := @of_dayOfQuarter d.date _ _ hfields.2.1 hfields.2.2
      have habove := d.above
      have hbelow := d.below
      unfold minMonth at habove
      unfold maxMonth at hbelow
      exact absurd ⟨hfields.1.2,by omega,by omega⟩ hstart

theorem reads_quarter (year quarter : Int) (hpos : 1≤quarter) :
    Reads (orRefuse "invalid quarter" (fromYmd year ((quarter-1)*3+1) 1))
      [("year",year),("quarter",quarter),("dayOfQuarter",1)] := by
  have hfirst := quarterFirst year quarter hpos
  refine reads_orRefuse ?_
  intro d
  rw [hasFields_quarter]
  by_cases hstart : quarter≤4 ∧ minYear≤year ∧ year≤ maxYear
  · have ⟨start,hymd,hnumber⟩ := hfirst.1 hstart
    rw [hymd]
    constructor
    · intro heq
      cases heq
      have hlength := monthLength_bounds ((4*year+(quarter-1))*3)
      have hgap : monthStart ((4*year+(quarter-1))*3)+monthLength ((4*year+(quarter-1))*3)≤
          monthStart ((4*year+(quarter-1))*3+3) := monthStart_gap (by omega)
      unfold quarterLength
      exact ⟨⟨hpos,hstart.1⟩,by omega,hnumber⟩
    · intro hfields
      refine congrArg some ?_
      exact NaiveDate.number_inj.mp (by omega)
  · rw [hfirst.2 hstart]
    constructor
    · intro heq
      cases heq
    · intro hfields
      have hindex := @of_dayOfQuarter d.date _ _ hfields.2.1 hfields.2.2
      have habove := d.above
      have hbelow := d.below
      unfold minMonth at habove
      unfold maxMonth at hbelow
      exact absurd ⟨hfields.1.2,by omega,by omega⟩ hstart

end

section

variable (components : String → Option Int)

theorem asI32_iff (n : Int) : asI32 n=n ↔ -2147483648≤n ∧ n≤2147483647 := by
  unfold asI32
  omega

/-- Where the words hold its components, the map gives the date with the used
ones. -/
theorem dateFromMap_reads
    (hyear : -2147483648≤yearGiven components ∧ yearGiven components≤2147483647)
    (hwords : ∀ n∈narrowed components,0≤n ∧ n<4294967296)
    (hquarter : components "week"=none → components "ordinalDay"=none → ∀ quarter doq,
      components "quarter"=some quarter → components "dayOfQuarter"=some doq → quarter≤4 →
      minYear≤yearGiven components ∧ yearGiven components≤ maxYear →
      DayMeets (4*yearGiven components+(quarter-1)) doq) :
    Reads (dateFromMap (integerMap components)) (usedFields components) := by
  have hbase := (bases_integerMap components).2
  have hsame := (asI32_iff _).mpr hyear
  have hwrap : ∀ n : Int,0≤n ∧ n<4294967296 → asU32 n=n := fun n h => (asU32_iff n).mpr h
  have hdefault : (components "year").getD 0=yearGiven components := rfl
  unfold dateFromMap
  rw [hbase]
  simp only [component_integerMap,getI64_integerMap,hdefault,hsame]
  unfold usedFields
  unfold narrowed at hwords
  cases hweek : components "week" with
  | some week =>
    rw [hweek] at hwords
    have hdow := hwrap _ (hwords _ List.mem_cons_self)
    have hnumber := hwrap _ (hwords week (by simp only [List.mem_cons,true_or,or_true]))
    simp only [hdow,hnumber]
    exact reads_week _ _ _
  | none =>
    simp only [hweek] at hwords
    cases hord : components "ordinalDay" with
    | some ord =>
      rw [hord] at hwords
      have hnumber := hwrap _ (hwords ord List.mem_cons_self)
      simp only [hnumber]
      exact reads_ordinal _ _
    | none =>
      simp only [hord] at hwords
      cases hq : components "quarter" with
      | some quarter =>
        rw [hq] at hwords
        have hrange := hwords _ List.mem_cons_self
        have hone : word (quarter-1)=.ok (quarter-1) := word_of (by omega)
        have htwo : word ((quarter-1)*3)=.ok ((quarter-1)*3) := word_of (by omega)
        have hthree : word ((quarter-1)*3+1)=.ok ((quarter-1)*3+1) := word_of (by omega)
        have hnumber := hwrap _ hrange
        cases hdoq : components "dayOfQuarter" with
        | some doq =>
          have hmeets := reads_dayOfQuarter (yearGiven components) quarter doq (by omega)
            (hquarter hweek hord quarter doq hq hdoq)
          simp only [bind,Except.bind,hone,htwo,hthree,hnumber,Option.getD_some]
          exact hmeets
        | none =>
          simp only [bind,Except.bind,hone,htwo,hthree,hnumber,Option.getD_none]
          exact reads_quarter _ _ (by omega)
      | none =>
        rw [hq] at hwords
        have hmonth := hwrap _ (hwords _ List.mem_cons_self)
        have hday := hwrap _ (hwords ((components "day").getD 1) (by simp only [List.mem_cons,true_or,or_true]))
        simp only [hmonth,hday]
        exact reads_ymd _ _ _

theorem dateFaithful_of_meets (h : DateMeets components) : DateFaithful components := by
  have hreads := dateFromMap_reads components h.year h.words h.quarter
  have hagree : ∀ d,dateFromMap (integerMap components)=.ok d → ∀ key∈dateKeys,∀ n,
      components key=some n → dateAccessor d (accessorOf components key)=some n :=
    fun d hd => h.agree d ((hreads.1 d).mp hd)
  constructor
  · intro hpanic
    have ⟨e,he⟩ := hreads.2 (by
      intro d hd
      rw [hpanic] at hd
      cases hd)
    rw [hpanic] at he
    cases he
  · exact ⟨(asI32_iff _).mpr h.year,fun n hn => (asU32_iff n).mpr (h.words n hn)⟩
  · exact hagree
  · intro key hkey n hn hrange
    refine hreads.2 ?_
    intro d hd
    exact hrange d (hagree d hd key hkey n hn)

theorem monthStart_inj {a b : Int} (h : monthStart a=monthStart b) : a=b := by
  rcases lt_trichotomy a b with hlt | heq | hgt
  · have hgap := monthStart_gap hlt
    have hlength := monthLength_bounds a
    omega
  · exact heq
  · have hgap := monthStart_gap hgt
    have hlength := monthLength_bounds b
    omega

/-- A map that is read faithfully has days of quarters that meet their quarter. -/
theorem dayMeets_of_faithful (h : DateFaithful components) (hweek : components "week"=none)
    (hord : components "ordinalDay"=none) {quarter doq : Int} (hq : components "quarter"=some quarter)
    (hdoq : components "dayOfQuarter"=some doq) (hlast : quarter≤4)
    (hyear : minYear≤yearGiven components ∧ yearGiven components≤ maxYear) :
    DayMeets (4*yearGiven components+(quarter-1)) doq := by
  have hbase := (bases_integerMap components).2
  have hdefault : (components "year").getD 0=yearGiven components := rfl
  have hrange : 0≤(quarter-1)*3+1 ∧ (quarter-1)*3+1<4294967296 := by
    have hwrap := h.noWrap.2
    unfold narrowed at hwrap
    simp only [hweek,hord,hq] at hwrap
    exact (asU32_iff _).mp (hwrap _ List.mem_cons_self)
  have hone : word (quarter-1)=.ok (quarter-1) := word_of (by omega)
  have htwo : word ((quarter-1)*3)=.ok ((quarter-1)*3) := word_of (by omega)
  have hthree : word ((quarter-1)*3+1)=.ok ((quarter-1)*3+1) := word_of (by omega)
  have hnumber := (asU32_iff _).mpr hrange
  have ⟨start,hymd,hstart⟩ := (quarterFirst (yearGiven components) quarter (by omega)).1 ⟨hlast,hyear⟩
  have hresult : dateFromMap (integerMap components)=(do
      let days ← spanOfDays (← word (doq-1))
      orRefuse "dayOfQuarter out of range" (start.checkedAddDays days)) := by
    unfold dateFromMap
    rw [hbase]
    simp only [component_integerMap,getI64_integerMap,hdefault,h.noWrap.1,hweek,hord,hq,hdoq,bind,Except.bind,
      hone,htwo,hthree,hnumber,hymd,orRefuse]
  by_cases hspan : -9223372036854775807≤(doq-1)*86400000 ∧ (doq-1)*86400000≤9223372036854775807
  · have hword : word (doq-1)=.ok (doq-1) := word_of (by omega)
    have hdays : spanOfDays (doq-1)=.ok (doq-1) := if_pos hspan
    rw [hword] at hresult
    simp only [bind,Except.bind,hdays] at hresult
    by_cases htarget : minNumber≤ monthStart ((4*yearGiven components+(quarter-1))*3)+doq ∧
        monthStart ((4*yearGiven components+(quarter-1))*3)+doq≤ maxNumber
    · have hsome : start.checkedAddDays (doq-1)≠none := by
        rw [Ne,NaiveDate.checkedAddDays_none,not_not]
        omega
      have ⟨d,hd⟩ := Option.ne_none_iff_exists'.mp hsome
      have hmoved := NaiveDate.number_checkedAddDays hd
      rw [hd] at hresult
      have hname : accessorOf components "dayOfQuarter"="dayOfQuarter" := if_neg fun hboth => absurd hboth.1 (by decide)
      have hread := h.fields d hresult "dayOfQuarter" (by decide) doq hdoq
      rw [hname,dateAccessor_dayOfQuarter] at hread
      have hday := Option.some.inj hread
      have hbounds := dayOfQuarter_bounds d.date
      have hvalue : dayOfQuarter d.date=d.number-monthStart (d.date.month/3*3) := rfl
      have hindex := monthStart_inj (show monthStart (d.date.month/3*3)=
        monthStart ((4*yearGiven components+(quarter-1))*3) by omega)
      have hsameQuarter : d.date.month/3=4*yearGiven components+(quarter-1) := by omega
      rw [hsameQuarter] at hbounds
      exact .inl (by omega)
    · exact .inr ⟨hspan,htarget⟩
  · refine absurd ?_ h.noPanic
    rw [hresult]
    by_cases hfits : -9223372036854775808≤doq-1 ∧ doq-1≤9223372036854775807
    · have hword : word (doq-1)=.ok (doq-1) := if_pos hfits
      have hdays : spanOfDays (doq-1)=.error .panic := if_neg hspan
      rw [hword]
      simp only [bind,Except.bind,hdays]
    · have hword : word (doq-1)=.error .panic := if_neg hfits
      rw [hword]
      rfl

/-- A map of integers is read as a date faithfully exactly when the words hold its
components, a day of a quarter does not lead out of it, and no date with the used
components lacks another one. -/
theorem dateFaithful_iff : DateFaithful components ↔ DateMeets components := by
  constructor
  · intro h
    have hyear := (asI32_iff _).mp h.noWrap.1
    have hwords : ∀ n∈narrowed components,0≤n ∧ n<4294967296 :=
      fun n hn => (asU32_iff n).mp (h.noWrap.2 n hn)
    have hquarter : components "week"=none → components "ordinalDay"=none → ∀ quarter doq,
        components "quarter"=some quarter → components "dayOfQuarter"=some doq → quarter≤4 →
        minYear≤yearGiven components ∧ yearGiven components≤ maxYear →
        DayMeets (4*yearGiven components+(quarter-1)) doq :=
      fun hweek hord quarter doq hq hdoq hlast hin =>
        dayMeets_of_faithful components h hweek hord hq hdoq hlast hin
    have hreads := dateFromMap_reads components hyear hwords hquarter
    exact ⟨hyear,hwords,hquarter,fun d hd => h.fields d ((hreads.1 d).mpr hd)⟩
  · exact dateFaithful_of_meets components

/-- A map of integers is read as a local date-time with its components, or
refused. -/
structure LocalFaithful : Prop where
  /-- No step panics. -/
  noPanic : localDateTimeFromMap (integerMap components)≠.error .panic
  /-- The date-time has the fields of the map. -/
  fields : ∀ dt,localDateTimeFromMap (integerMap components)=.ok dt → ∀ key∈dateKeys++fieldKeys,∀ n,
    components key=some n → localDateTimeAccessor dt (accessorOf components key)=some n
  /-- The date-time has the fraction of the map. -/
  fraction : ∀ dt,localDateTimeFromMap (integerMap components)=.ok dt → ∀ key∈fractionKeys,∀ n,
    components key=some n → localDateTimeAccessor dt "nanosecond"=some (fractionGiven components)
  /-- A component that no date-time has is refused. -/
  refused : ∀ key∈dateKeys++timeKeys,∀ n,components key=some n →
    (∀ dt,localDateTimeAccessor dt (accessorOf components key)≠some n) →
    ∃ e,localDateTimeFromMap (integerMap components)=.error (.graph e)

theorem localDateTimeAccessor_date {d : NaiveDate} {key : String} {n : Int} (t : NaiveTime)
    (h : dateAccessor d key=some n) : localDateTimeAccessor ⟨d,t⟩ key=some n := by
  rw [localDateTimeAccessor,h]
  rfl

theorem localDateTimeAccessor_time {key : String} (hkey : key∈timeKeys) (dt : NaiveDateTime) :
    accessorOf components key=key ∧ localDateTimeAccessor dt key=localTimeAccessor dt.time key := by
  simp only [timeKeys,List.mem_cons,List.not_mem_nil,or_false] at hkey
  rcases hkey with rfl | rfl | rfl | rfl | rfl | rfl
  all_goals
    refine ⟨if_neg fun hboth => absurd hboth.1 (by decide),?_⟩
    rfl

theorem localFaithful_of_parts (hdate : DateFaithful components) (htime : TimeFaithful components) :
    LocalFaithful components := by
  have hparts : ∀ dt,localDateTimeFromMap (integerMap components)=.ok dt →
      dateFromMap (integerMap components)=.ok dt.date ∧ timeFromMap (integerMap components)=.ok dt.time := by
    intro dt h
    have ⟨d,hd,hrest⟩ := bind_ok.mp h
    have ⟨t,ht,hpair⟩ := bind_ok.mp hrest
    cases hpair
    exact ⟨hd,ht⟩
  have hfields : ∀ key∈fieldKeys,key∈timeKeys := by decide
  have hrefuseDate : (∃ e,dateFromMap (integerMap components)=.error (.graph e)) →
      ∃ e,localDateTimeFromMap (integerMap components)=.error (.graph e) := by
    intro h
    have ⟨e,he⟩ := h
    refine ⟨e,?_⟩
    rw [localDateTimeFromMap,he]
    rfl
  have hfaults : ∀ {α : Type} {x : Reading α},x≠.error .panic → (∃ a,x=.ok a) ∨ ∃ e,x=.error (.graph e) := by
    intro α x hx
    cases x with
    | ok a => exact .inl ⟨a,rfl⟩
    | error e =>
      cases e with
      | panic => exact absurd rfl hx
      | graph e => exact .inr ⟨e,rfl⟩
  have hrefuseTime : (∃ e,timeFromMap (integerMap components)=.error (.graph e)) →
      ∃ e,localDateTimeFromMap (integerMap components)=.error (.graph e) := by
    intro h
    have ⟨e,he⟩ := h
    cases hfaults hdate.noPanic with
    | inl hok =>
      have ⟨d,hd⟩ := hok
      refine ⟨e,?_⟩
      rw [localDateTimeFromMap,hd]
      simp only [bind,Except.bind,he]
    | inr herror => exact hrefuseDate herror
  constructor
  · intro hpanic
    cases hfaults hdate.noPanic with
    | inl hok =>
      have ⟨d,hd⟩ := hok
      rw [localDateTimeFromMap,hd] at hpanic
      cases hfaults htime.noPanic with
      | inl htimeOk =>
        have ⟨t,ht⟩ := htimeOk
        simp only [bind,Except.bind,ht] at hpanic
        cases hpanic
      | inr htimeError =>
        have ⟨e,he⟩ := htimeError
        simp only [bind,Except.bind,he] at hpanic
        cases hpanic
    | inr herror =>
      have ⟨e,he⟩ := hrefuseDate herror
      rw [hpanic] at he
      cases he
  · intro dt h key hkey n hn
    have hboth := hparts dt h
    cases List.mem_append.mp hkey with
    | inl hdateKey =>
      exact localDateTimeAccessor_date dt.time (hdate.fields dt.date hboth.1 key hdateKey n hn)
    | inr htimeKey =>
      have hname := localDateTimeAccessor_time components (hfields key htimeKey) dt
      rw [hname.1,hname.2]
      exact htime.fields dt.time hboth.2 key htimeKey n hn
  · intro dt h key hkey n hn
    rw [(localDateTimeAccessor_time components (show "nanosecond"∈timeKeys by decide) dt).2]
    exact htime.fraction dt.time (hparts dt h).2 key hkey n hn
  · intro key hkey n hn hrange
    cases List.mem_append.mp hkey with
    | inl hdateKey =>
      refine hrefuseDate (hdate.refused key hdateKey n hn ?_)
      intro d hd
      exact hrange ⟨d,midnight⟩ (localDateTimeAccessor_date midnight hd)
    | inr htimeKey =>
      refine hrefuseTime (htime.refused key htimeKey n hn ?_)
      intro t ht
      have hname := localDateTimeAccessor_time components htimeKey ⟨epochDate,t⟩
      refine hrange ⟨epochDate,t⟩ ?_
      rw [hname.1,hname.2]
      exact ht

/-- A map of integers is read faithfully, as a time, as a date and as both,
exactly when it meets the conditions of times and of dates. -/
theorem faithful_iff : (TimeFaithful components ∧ DateFaithful components ∧ LocalFaithful components) ↔
    TimeMeets components ∧ DateMeets components := by
  constructor
  · intro h
    exact ⟨timeMeets_of_faithful components h.1,(dateFaithful_iff components).mp h.2.1⟩
  · intro h
    have htime := timeFaithful_of_meets components h.1
    have hdate := (dateFaithful_iff components).mpr h.2
    exact ⟨htime,hdate,localFaithful_of_parts components hdate htime⟩

end

/-- A year of 2^32 and a month. -/
@[grind] def wrappedYear : String → Option Int := fun key => if key="year" then some 4294967296 else none

/-- The year 4294967296 is read as the year zero. -/
theorem faithful_fails : ¬∀ components : String → Option Int,(∀ key n,components key=some n → FitsI64 n) →
    TimeFaithful components ∧ DateFaithful components ∧ LocalFaithful components := by
  intro h
  have hfits : ∀ key n,wrappedYear key=some n → FitsI64 n := by
    intro key n hn
    unfold wrappedYear at hn
    split_ifs at hn
    rw [←Option.some.inj hn]
    exact ⟨by decide,by decide⟩
  have hmeets := (dateFaithful_iff wrappedYear).mp (h wrappedYear hfits).2.1
  have hyear : ¬yearGiven wrappedYear≤2147483647 := by decide
  exact hyear hmeets.year.2

end GraphDbLite.TemporalMaps
