import GraphDbLite.ExactArithmetic
import GraphDbLite.TemporalRoundTrip
import GraphDbLite.Truncation

/-!
# Zone names of date-times

A date-time with a zone name stores its local time, its offset and the name. The
three agree when the zone has the offset at the moment that they give. Component
maps look the offset up again; texts with an offset of their own, sums, differences
and truncation keep the one they have, which is right only where the zone has not
changed it.
-/

namespace GraphDbLite.ZoneNames

open TemporalValues DurationText DateFields EpochInstants TemporalAddition TemporalMaps TemporalTexts
  TemporalRoundTrip ExactArithmetic Truncation

/-- A date-time with its offset and its zone name. -/
abbrev Zoned := NaiveDateTime×FixedOffset×Option String

/-- Move a date-time by seconds; the fraction of its second is kept. -/
def shift (dt : NaiveDateTime) (secs : Int) : Option NaiveDateTime :=
  let total := dt.time.secs+secs
  (dt.date.checkedAddDays (total/86400)).map fun date =>
    ⟨date,⟨total%86400,dt.time.frac,by omega,dt.time.second⟩⟩

theorem shift_back {dt moved : NaiveDateTime} {secs : Int} (h : shift dt secs=some moved) :
    shift moved (-secs)=some dt := by
  have hday := dt.time.day
  have ⟨date,hdate,heq⟩ := Option.map_eq_some_iff.mp h
  have hnumber := NaiveDate.number_checkedAddDays hdate
  have hsecs : moved.time.secs=(dt.time.secs+secs)%86400 := by rw [←heq]
  have hdays : (moved.time.secs+ -secs)/86400= -((dt.time.secs+secs)/86400) := by omega
  have hleft : (moved.time.secs+ -secs)%86400=dt.time.secs := by omega
  have hfrac : moved.time.frac=dt.time.frac := by rw [←heq]
  have hback : moved.date.checkedAddDays ((moved.time.secs+ -secs)/86400)=some dt.date := by
    have hmoved : moved.date=date := by rw [←heq]
    have hgap : (moved.time.secs+ -secs)/86400=dt.date.number-moved.date.number := by
      rw [hmoved,hnumber,hdays]
      omega
    rw [hgap]
    exact NaiveDate.checkedAddDays_eq moved.date dt.date
  rw [shift,hback]
  refine congrArg some ?_
  cases dt with
  | mk d t =>
    have htime := NaiveTime.eq_of (a:=⟨(moved.time.secs+ -secs)%86400,moved.time.frac,by omega,moved.time.second⟩)
      (b:=t) hleft hfrac
    simp only [htime]

/-- The moment of a local date-time at an offset. -/
def moment (dt : NaiveDateTime) (off : FixedOffset) : Option NaiveDateTime := shift dt (-off.seconds)

/-- The zone has the offset at the moment that local date-time and offset give. -/
def Has (zones : Zones) (tz : String) (dt : NaiveDateTime) (off : FixedOffset) : Prop :=
  zones.known tz=true ∧ ∃ u,moment dt off=some u ∧ zones.atUtc tz u=off

/-- The earliest offset of a zone at a local date-time is one that it has there. -/
def Lawful (zones : Zones) : Prop :=
  ∀ tz dt off,zones.known tz=true → zones.earliest tz dt=some off → Has zones tz dt off

/-- The zone has the same offset at the moments of two local date-times at an
offset. -/
def Unchanged (zones : Zones) (tz : String) (off : FixedOffset) (before behind : NaiveDateTime) : Prop :=
  ∃ u w,moment before off=some u ∧ moment behind off=some w ∧ zones.atUtc tz w=zones.atUtc tz u

section

variable {zones : Zones} {tz : String} {dt : NaiveDateTime} {off : FixedOffset}

theorem has_iff_unchanged {behind : NaiveDateTime} (h : Has zones tz dt off) :
    Has zones tz behind off ↔ Unchanged zones tz off dt behind := by
  have ⟨hknown,u,hu,hoff⟩ := h
  constructor
  · intro hbehind
    have ⟨_,w,hw,hoffw⟩ := hbehind
    exact ⟨u,w,hu,hw,hoffw.trans hoff.symm⟩
  · intro hsame
    have ⟨u',w,hu',hw,heq⟩ := hsame
    rw [hu] at hu'
    cases hu'
    exact ⟨hknown,w,hw,heq.trans hoff⟩

theorem has_resolved (hlaw : Lawful zones) (h : resolveTzNameAt zones tz dt=.ok off) : Has zones tz dt off := by
  unfold resolveTzNameAt at h
  by_cases hknown : zones.known tz=true
  · rw [if_pos hknown] at h
    cases hsome : zones.earliest tz dt with
    | none => rw [hsome] at h; cases h
    | some found =>
      rw [hsome] at h
      cases h
      exact hlaw tz dt off hknown hsome
  · rw [if_neg hknown] at h
    cases h

theorem has_atUtc {u : NaiveDateTime} (hknown : zones.known tz=true)
    (h : shift u (zones.atUtc tz u).seconds=some dt) : Has zones tz dt (zones.atUtc tz u) :=
  ⟨hknown,u,shift_back h,rfl⟩

end

/-- A text begins with a sign, or is one of UTC. -/
def isOffsetText (s : String) : Bool :=
  s.toList.head?=some '+' || s.toList.head?=some '-' || s="Z" || s="z"

/-- The offset of the value that a map starts from, at a new local date-time where
the value has a zone name that is found. -/
def baseSourceOffsetAt (zones : Zones) (map : ComponentMap) (ndt : NaiveDateTime) : Option FixedOffset :=
  match getTemporal ((map "time").or (map "datetime")) with
  | some (.time _ off) => some off
  | some (.dateTime _ off (some tz)) =>
    match resolveTzNameAt zones tz ndt with
    | .ok resolved => some resolved
    | .error _ => some off
  | some (.dateTime _ off none) => some off
  | _ => none

/-- A date-time with an offset of its own from a component map. -/
def dateTimeAtOffset (zones : Zones) (map : ComponentMap) (ndt : NaiveDateTime) (s : String) : Reading Zoned := do
  let target ← parseOffset s.toList
  match baseSourceOffsetAt zones map ndt with
  | some src =>
    if src≠target then do
      let moved ← unwrapped (ndt.checkedAdd ((target.seconds-src.seconds)*1000000000))
      return (moved,target,none)
    else return (ndt,target,none)
  | none => return (ndt,target,none)

/-- A date-time in a named zone from a component map. -/
def dateTimeInZone (zones : Zones) (map : ComponentMap) (ndt : NaiveDateTime) (s : String) : Reading Zoned :=
  match baseSourceOffsetAt zones map ndt with
  | some src => do
    let utcNdt ← unwrapped (ndt.checkedAdd (-(src.seconds*1000000000)))
    if zones.known s=true then do
      let converted ← unwrapped (shift utcNdt (zones.atUtc s utcNdt).seconds)
      return (converted,zones.atUtc s utcNdt,some s)
    else refuse ("unknown timezone: "++s)
  | none => do
    let off ← resolveTzNameAt zones s ndt
    return (ndt,off,some s)

/-- A date-time from a component map: its zone is given, or taken from the value
that the map starts from, or UTC. -/
def dateTimeFromMap (zones : Zones) (map : ComponentMap) : Reading Zoned := do
  let d ← dateFromMap map
  let t ← timeFromMap map
  let ndt : NaiveDateTime := ⟨d,t⟩
  match map "timezone" with
  | some (.string s) => if isOffsetText s=true then dateTimeAtOffset zones map ndt s else dateTimeInZone zones map ndt s
  | _ =>
    match getTemporal ((map "time").or (map "datetime")) with
    | some (.time _ off) => return (ndt,off,none)
    | some (.dateTime _ _ (some tz)) => do
      let off ← resolveTzNameAt zones tz ndt
      return (ndt,off,some tz)
    | some (.dateTime _ off none) => return (ndt,off,none)
    | _ => return (ndt,utc,none)

/-- A date with another day of the month. -/
def withDay (d : NaiveDate) (day : Int) : Option NaiveDate := fromYmd d.year d.month day

/-- A date with another month. -/
def withMonth (d : NaiveDate) (month : Int) : Option NaiveDate := fromYmd d.year month d.day

/-- Apply an integer of a map, where there is one. -/
def override {α : Type} (map : ComponentMap) (key : String) (f : α → Int → Reading α) (a : α) : Reading α :=
  match getI64 map key with
  | some n => f a n
  | none => .ok a

/-- The date of a value at the start of a unit, with components of a map in place
of its own. -/
def truncateDate (unit : String) (val : MapValue) (map : ComponentMap) : Reading NaiveDate := do
  let date ← orRefuse "truncate_date requires a temporal with a date component"
    ((getTemporal (some val)).bind extractDate)
  let d ← truncateDateCore unit date
  let d ← override map "day" (fun d day => orRefuse s!"invalid day: {day}" (withDay d (asU32 day))) d
  let d ← override map "dayOfWeek" (fun d dow => do
    let delta ← word (dow-(IsoWeeks.weekday d.number+1))
    let days ← spanOfDays delta
    unwrapped (d.checkedAddDays days)) d
  override map "month" (fun d m => orRefuse s!"invalid month: {m}" (withMonth d (asU32 m))) d

/-- A time with other nanoseconds. -/
def withNanosecond (t : NaiveTime) (nano : Int) : Option NaiveTime :=
  if h : 0≤nano ∧ nano<2000000000 then some ⟨t.secs,nano,t.day,h⟩ else none

/-- The time of a value at the start of a unit, with nanoseconds of a map added. -/
def truncateTime (unit : String) (val : MapValue) (map : ComponentMap) : Reading NaiveTime := do
  let time ← orRefuse "truncate_time requires a temporal with a time component"
    ((getTemporal (some val)).bind extractTime)
  let t ← truncateTimeCore unit time
  override map "nanosecond" (fun t ns => do
    let nano ← wordU32 (t.frac+asU32 ns)
    orRefuse s!"invalid nanosecond: {ns}" (withNanosecond t nano)) t

/-- Refuse a call with a semantic error. -/
def refuseSemantic {α : Type} (message : String) : Reading α := .error (.graph (.semantic message))

/-- The function datetime.truncate: an inherited offset is kept with its zone name. -/
def dateTimeTruncate (zones : Zones) (unit : String) (val : MapValue) (map : ComponentMap) : Reading Zoned := do
  let d ← truncateDate unit val map
  let t ← truncateTime unit val map
  let ndt : NaiveDateTime := ⟨d,t⟩
  match map "timezone" with
  | some (.string s) =>
    if s.toList.head?=some '+' ∨ s.toList.head?=some '-' ∨ s="Z" then do
      let off ← parseOffset s.toList
      return (ndt,off,none)
    else if zones.known s=true then
      match zones.earliest s ndt with
      | some off => return (ndt,off,some s)
      | none => refuseSemantic ("ambiguous or invalid datetime in timezone: "++s)
    else refuseSemantic ("unknown timezone: "++s)
  | _ =>
    match val with
    | .temporal (.dateTime _ off zone) => return (ndt,off,zone)
    | _ => return (ndt,utc,none)

/-- Calls that return a date-time with a zone name. -/
inductive ZonedCall where
  | fromIsoString (s : List Char)
  | fromMap (map : ComponentMap)
  | evalTemporalAdd (left right : Value)
  | evalTemporalSub (left right : Value)
  | truncate (unit : String) (val : MapValue) (map : ComponentMap)

/-- The date-time that an operator returns, where it returns one. -/
def zonedOutcome : Option (Temporally Value) → Option Zoned
  | some (.ok (.temporal (.dateTime dt off zone))) => some (dt,off,zone)
  | _ => none

/-- The date-time that a call returns, where it returns one. -/
def run (zones : Zones) : ZonedCall → Option Zoned
  | .fromIsoString s => (dateTimeFromIsoString zones s).toOption
  | .fromMap map => (dateTimeFromMap zones map).toOption
  | .evalTemporalAdd left right => zonedOutcome (evalAdd left right)
  | .evalTemporalSub left right => zonedOutcome (evalSub left right)
  | .truncate unit val map => (dateTimeTruncate zones unit val map).toOption

/-- The operand is the date-time. -/
def isZoned (v : Value) (z : Zoned) : Prop := v=.temporal (.dateTime z.1 z.2.1 z.2.2)

/-- The date-times that a call is given. -/
def inputs : ZonedCall → Set Zoned
  | .fromIsoString _ => ∅
  | .fromMap map => {z | ∃ key,map key=some (.temporal (.dateTime z.1 z.2.1 z.2.2))}
  | .evalTemporalAdd left right => {z | isZoned left z ∨ isZoned right z}
  | .evalTemporalSub left right => {z | isZoned left z ∨ isZoned right z}
  | .truncate _ val _ => {z | val=.temporal (.dateTime z.1 z.2.1 z.2.2)}

/-- Local time, offset and zone name agree. -/
def Consistent (zones : Zones) (z : Zoned) : Prop := ∀ tz,z.2.2=some tz → Has zones tz z.1 z.2.1

/-- An offset in a text is one that the zone behind it has at the date-time in
front of it. -/
def TextAgrees (zones : Zones) (s : List Char) : Prop :=
  ∀ parts date time o off tz,splitDateTime s=.ok parts → parseDateStr parts.1=.ok date →
    parseTimeStr (splitTimeOffset (splitZone parts.2).1).1=.ok time →
    (splitTimeOffset (splitZone parts.2).1).2=some o → parseOffset o=.ok off → (splitZone parts.2).2=some tz →
    Has zones tz ⟨date,time⟩ off

/-- The zone of a date-time has not changed its offset when it is moved by a
duration. -/
def MoveKeeps (zones : Zones) (v dur : Value) : Prop :=
  ∀ dt off tz d moved,v=.temporal (.dateTime dt off (some tz)) → dur=.duration d →
    addToDateTime dt d=.ok moved → Unchanged zones tz off dt moved

/-- The zone of a date-time has not changed its offset since the start of the unit,
unless another zone is given. -/
def StartKeeps (zones : Zones) (unit : String) (val : MapValue) (map : ComponentMap) : Prop :=
  (∀ s,map "timezone"≠some (.string s)) → ∀ dt off tz date time,val=.temporal (.dateTime dt off (some tz)) →
    truncateDate unit val map=.ok date → truncateTime unit val map=.ok time →
    Unchanged zones tz off dt ⟨date,time⟩

/-- Where a call keeps an offset, the zone has it still. -/
def OffsetKept (zones : Zones) : ZonedCall → Prop
  | .fromIsoString s => TextAgrees zones s
  | .fromMap _ => True
  | .evalTemporalAdd left right => MoveKeeps zones left right ∧ MoveKeeps zones right left
  | .evalTemporalSub left right => ∀ d neg,right=.duration d → negate d=.ok neg → MoveKeeps zones left (.duration neg)
  | .truncate unit val map => StartKeeps zones unit val map

section calls

variable {zones : Zones} {z : Zoned}

theorem consistent_none (dt : NaiveDateTime) (off : FixedOffset) : Consistent zones (dt,off,none) :=
  fun _ htz => (nomatch htz)

theorem consistent_some {dt : NaiveDateTime} {off : FixedOffset} {tz : String} :
    Consistent zones (dt,off,some tz) ↔ Has zones tz dt off := by
  constructor
  · intro h
    exact h tz rfl
  · intro h name hname
    cases hname
    exact h

theorem consistent_fromIsoString (hlaw : Lawful zones) {s : List Char}
    (h : dateTimeFromIsoString zones s=.ok z) : Consistent zones z ↔ TextAgrees zones s := by
  have ⟨parts,hparts,h⟩ := bind_ok.mp h
  have ⟨date,hdate,h⟩ := bind_ok.mp h
  simp only at h
  have ⟨time,htime,h⟩ := bind_ok.mp h
  unfold TextAgrees
  cases ho : (splitTimeOffset (splitZone parts.2).1).2 with
  | none =>
    have hagrees : TextAgrees zones s := by
      intro parts' date' time' o off tz hparts' _ _ ho' _ _
      rw [hparts] at hparts'
      cases hparts'
      rw [ho] at ho'
      cases ho'
    refine ⟨fun _ => hagrees,fun _ => ?_⟩
    cases hz : (splitZone parts.2).2 with
    | none => rw [ho,hz] at h; cases h
    | some tz =>
      rw [ho,hz] at h
      have ⟨off,hoff,h⟩ := bind_ok.mp h
      cases h
      exact consistent_some.mpr (has_resolved hlaw hoff)
  | some o =>
    rw [ho] at h
    simp only at h
    have ⟨off,hoff,h⟩ := bind_ok.mp h
    cases h
    constructor
    · intro hz parts' date' time' o' off' tz hparts' hdate' htime' ho' hoff' htz
      rw [hparts] at hparts'
      cases hparts'
      rw [hdate] at hdate'
      cases hdate'
      rw [htime] at htime'
      cases htime'
      rw [ho] at ho'
      cases ho'
      rw [hoff] at hoff'
      cases hoff'
      exact hz tz htz
    · intro hagrees tz htz
      exact hagrees parts date time o off tz hparts hdate htime ho hoff htz

theorem consistent_fromMap (hlaw : Lawful zones) {map : ComponentMap}
    (h : dateTimeFromMap zones map=.ok z) : Consistent zones z := by
  have ⟨d,_,h⟩ := bind_ok.mp h
  have ⟨t,_,h⟩ := bind_ok.mp h
  simp only at h
  have hbase : ∀ x : Option Temporal,(match x with
      | some (.time _ off) => (.ok (⟨d,t⟩,off,none) : Reading Zoned)
      | some (.dateTime _ _ (some tz)) => resolveTzNameAt zones tz ⟨d,t⟩ >>= fun off => .ok (⟨d,t⟩,off,some tz)
      | some (.dateTime _ off none) => .ok (⟨d,t⟩,off,none)
      | _ => .ok (⟨d,t⟩,utc,none))=.ok z → Consistent zones z := by
    intro x hx
    split at hx
    · cases hx
      exact consistent_none _ _
    · have ⟨off,hoff,hx⟩ := bind_ok.mp hx
      cases hx
      exact consistent_some.mpr (has_resolved hlaw hoff)
    · cases hx
      exact consistent_none _ _
    · cases hx
      exact consistent_none _ _
  split at h
  · next s hzone =>
    split_ifs at h with hoffset
    · have ⟨target,_,h⟩ := bind_ok.mp h
      split at h
      · split_ifs at h
        · have ⟨moved,_,h⟩ := bind_ok.mp h
          cases h
          exact consistent_none _ _
        · cases h
          exact consistent_none _ _
      · cases h
        exact consistent_none _ _
    · unfold dateTimeInZone at h
      split at h
      · have ⟨utcNdt,_,h⟩ := bind_ok.mp h
        split_ifs at h with hknown
        · have ⟨converted,hconverted,h⟩ := bind_ok.mp h
          cases h
          apply consistent_some.mpr
          apply has_atUtc hknown
          cases hshift : shift utcNdt (zones.atUtc s utcNdt).seconds with
          | none => rw [hshift] at hconverted; cases hconverted
          | some found =>
            rw [hshift] at hconverted
            cases hconverted
            rfl
        · cases h
      · have ⟨off,hoff,h⟩ := bind_ok.mp h
        cases h
        exact consistent_some.mpr (has_resolved hlaw hoff)
  · exact hbase _ h

/-- A date-time moved by a duration is consistent when its zone has not changed its
offset. -/
theorem consistent_move {v : Temporal} {dur : CypherDuration} {moved : Temporal}
    (hin : ∀ i,isZoned (.temporal v) i → Consistent zones i) (h : addToTemporal v dur=.ok moved)
    (hz : moved=.dateTime z.1 z.2.1 z.2.2) :
    Consistent zones z ↔ MoveKeeps zones (.temporal v) (.duration dur) := by
  cases v with
  | date d =>
    cases hadd : addToDate d dur with
    | error e => rw [addToTemporal,hadd] at h; cases h
    | ok x => rw [addToTemporal,hadd] at h; cases h; cases hz
  | localTime t | time t off =>
    cases hadd : addToTime t dur with
    | error e => rw [addToTemporal,hadd] at h; cases h
    | ok x => rw [addToTemporal,hadd] at h; cases h; cases hz
  | localDateTime dt =>
    cases hadd : addToDateTime dt dur with
    | error e => rw [addToTemporal,hadd] at h; cases h
    | ok x => rw [addToTemporal,hadd] at h; cases h; cases hz
  | dateTime dt off zone =>
    cases hadd : addToDateTime dt dur with
    | error e => rw [addToTemporal,hadd] at h; cases h
    | ok x =>
      rw [addToTemporal,hadd] at h
      cases h
      have hparts := Temporal.dateTime.inj hz
      have hzoned : z=(x,off,zone) := Prod.ext hparts.1.symm (Prod.ext hparts.2.1.symm hparts.2.2.symm)
      rw [hzoned]
      cases zone with
      | none =>
        refine ⟨fun _ => ?_,fun _ => consistent_none _ _⟩
        intro dt' off' tz d moved hv _ _
        cases hv
      | some tz =>
        have hhas : Has zones tz dt off := hin (dt,off,some tz) rfl tz rfl
        rw [consistent_some,has_iff_unchanged hhas]
        constructor
        · intro hsame dt' off' tz' d moved hv hdur hmoved
          cases hv
          cases hdur
          rw [hadd] at hmoved
          cases hmoved
          exact hsame
        · intro hkeeps
          exact hkeeps dt off tz dur x rfl rfl hadd

theorem zonedOutcome_eq {o : Option (Temporally Value)} (h : zonedOutcome o=some z) :
    o=some (.ok (.temporal (.dateTime z.1 z.2.1 z.2.2))) := by
  unfold zonedOutcome at h
  split at h
  · cases h
    rfl
  · cases h

theorem moved_of_map {x : Temporally Temporal} {m : Temporal}
    (h : some (x.map Value.temporal)=some (.ok (.temporal m))) : x=.ok m := by
  cases x with
  | error e => cases h
  | ok v => cases h; rfl

theorem consistent_evalAdd {left right : Value} (hin : ∀ i,isZoned left i ∨ isZoned right i → Consistent zones i)
    (h : zonedOutcome (evalAdd left right)=some z) :
    Consistent zones z ↔ MoveKeeps zones left right ∧ MoveKeeps zones right left := by
  have heq := zonedOutcome_eq h
  have hduration : ∀ (dur : CypherDuration) (v : Value),MoveKeeps zones (.duration dur) v := by
    intro dur v dt off tz d moved hv
    cases hv
  cases left with
  | temporal v =>
    cases right with
    | duration dur =>
      have hmoved := moved_of_map heq
      have hkeep := consistent_move (fun i hi => hin i (.inl hi)) hmoved rfl
      exact hkeep.trans ⟨fun hk => ⟨hk,hduration dur _⟩,fun hk => hk.1⟩
    | temporal _ | other => cases heq
  | duration dur =>
    cases right with
    | temporal v =>
      have hmoved := moved_of_map heq
      have hkeep := consistent_move (fun i hi => hin i (.inr hi)) hmoved rfl
      exact hkeep.trans ⟨fun hk => ⟨hduration dur _,hk⟩,fun hk => hk.2⟩
    | duration other =>
      cases hsum : DurationArithmetic.evalTemporalAdd dur other with
      | error e | ok x => rw [evalAdd,hsum] at heq; cases heq
    | other => cases heq
  | other =>
    cases right with
    | temporal _ | duration _ | other => cases heq

/-- A difference that is a date-time is the sum with the duration of the other signs. -/
theorem evalSub_zoned {left right : Value} (h : zonedOutcome (evalSub left right)=some z) :
    ∃ d neg,right=.duration d ∧ negate d=.ok neg ∧ zonedOutcome (evalAdd left (.duration neg))=some z := by
  unfold evalSub at h
  split at h
  · next a b =>
    have heq := zonedOutcome_eq h
    cases hdiff : DurationArithmetic.evalTemporalSub a b with
    | error e | ok x => rw [hdiff] at heq; cases heq
  · next dur _ =>
    cases hneg : negate dur with
    | error e => rw [hneg] at h; cases h
    | ok neg =>
      rw [hneg] at h
      exact ⟨dur,neg,rfl,hneg,h⟩
  · cases h

theorem consistent_evalSub {left right : Value} (hin : ∀ i,isZoned left i ∨ isZoned right i → Consistent zones i)
    (h : zonedOutcome (evalSub left right)=some z) : Consistent zones z ↔
      ∀ d neg,right=.duration d → negate d=.ok neg → MoveKeeps zones left (.duration neg) := by
  have ⟨d,neg,hright,hneg,hadd⟩ := evalSub_zoned h
  have hinputs : ∀ i,isZoned left i ∨ isZoned (.duration neg) i → Consistent zones i := by
    intro i hi
    cases hi with
    | inl hleft => exact hin i (.inl hleft)
    | inr hdur => cases hdur
  have hsum := consistent_evalAdd hinputs hadd
  constructor
  · intro hz d' neg' hright' hneg'
    rw [hright] at hright'
    cases hright'
    rw [hneg] at hneg'
    cases hneg'
    exact (hsum.mp hz).1
  · intro hkeeps
    refine hsum.mpr ⟨hkeeps d neg hright hneg,?_⟩
    intro dt off tz d' moved hv
    cases hv

/-- A truncated date-time is consistent when the zone has not changed its offset since
the start of the unit, or is given anew. -/
theorem consistent_truncate (hlaw : Lawful zones) {unit : String} {val : MapValue} {map : ComponentMap}
    (hin : ∀ i : Zoned,val=.temporal (.dateTime i.1 i.2.1 i.2.2) → Consistent zones i)
    (h : dateTimeTruncate zones unit val map=.ok z) : Consistent zones z ↔ StartKeeps zones unit val map := by
  have ⟨d,hd,h⟩ := bind_ok.mp h
  have ⟨t,ht,h⟩ := bind_ok.mp h
  simp only at h
  split at h
  · next s hzone =>
    have hkeeps : StartKeeps zones unit val map := fun hnone => absurd hzone (hnone s)
    refine ⟨fun _ => hkeeps,fun _ => ?_⟩
    split_ifs at h with hoffset hknown
    · have ⟨off,_,h⟩ := bind_ok.mp h
      cases h
      exact consistent_none _ _
    · cases hsome : zones.earliest s ⟨d,t⟩ with
      | none => rw [hsome] at h; cases h
      | some off =>
        rw [hsome] at h
        cases h
        exact consistent_some.mpr (hlaw s ⟨d,t⟩ off hknown hsome)
    · cases h
  · next hother =>
    split at h
    · next dt off zone _ _ =>
      cases h
      cases zone with
      | none =>
        refine ⟨fun _ => ?_,fun _ => consistent_none _ _⟩
        intro _ dt' off' tz date time hval _ _
        cases hval
      | some tz =>
        have hhas : Has zones tz dt off := hin (dt,off,some tz) rfl tz rfl
        rw [consistent_some,has_iff_unchanged hhas]
        constructor
        · intro hsame _ dt' off' tz' date time hval hdate htime
          cases hval
          rw [hd] at hdate
          cases hdate
          rw [ht] at htime
          cases htime
          exact hsame
        · intro hkeeps
          exact hkeeps (fun s hs => hother s hs) dt off tz d t rfl hd ht
    · next hval =>
      cases h
      refine ⟨fun _ => ?_,fun _ => consistent_none _ _⟩
      intro _ dt off tz date time heq _ _
      exact absurd heq (hval dt off (some tz))

/-- On consistent date-times, a call returns a consistent one exactly when the zone
still has the offset that the call keeps. -/
theorem consistent_iff (hlaw : Lawful zones) {call : ZonedCall} (hin : ∀ i∈inputs call,Consistent zones i)
    (h : run zones call=some z) : Consistent zones z ↔ OffsetKept zones call := by
  have hread : ∀ {x : Reading Zoned},x.toOption=some z → x=.ok z := by
    intro x hx
    cases x with
    | error e => cases hx
    | ok a => cases hx; rfl
  cases call with
  | fromIsoString s => exact consistent_fromIsoString hlaw (hread h)
  | fromMap map => exact ⟨fun _ => trivial,fun _ => consistent_fromMap hlaw (hread h)⟩
  | evalTemporalAdd left right => exact consistent_evalAdd hin h
  | evalTemporalSub left right => exact consistent_evalSub hin h
  | truncate unit val map => exact consistent_truncate hlaw hin (hread h)

end calls

/-- A zone database with the zone UTC only. -/
def utcOnly : Zones := ⟨fun tz => decide (tz="UTC"),fun _ _ => some utc,fun _ _ => utc⟩

theorem moment_utc (dt : NaiveDateTime) : moment dt utc=some dt := by
  have hday := dt.time.day
  have hzero : utc.seconds=0 := rfl
  have hdays : (dt.time.secs+ -utc.seconds)/86400=dt.date.number-dt.date.number := by omega
  have hsecs : (dt.time.secs+ -utc.seconds)%86400=dt.time.secs := by omega
  have hsame := NaiveDate.checkedAddDays_eq dt.date dt.date
  rw [←hdays] at hsame
  rw [moment,shift,hsame]
  refine congrArg some ?_
  cases dt with
  | mk d t =>
    have htime := NaiveTime.eq_of (a:=⟨(t.secs+ -utc.seconds)%86400,t.frac,by omega,t.second⟩) (b:=t) hsecs rfl
    simp only [htime]

theorem lawful_utcOnly : Lawful utcOnly := by
  intro tz dt off hknown h
  cases h
  exact ⟨hknown,dt,moment_utc dt,rfl⟩

/-- A day after the epoch in UTC the zone is the same as before. -/
theorem consistent_iff_epoch : Consistent utcOnly
      (⟨(epoch.date.checkedAddDays 1).getD epoch.date,midnight⟩,utc,some "UTC") ↔
    OffsetKept utcOnly (.evalTemporalAdd (.temporal (.dateTime epoch utc (some "UTC"))) (.duration ⟨0,1,0,0⟩)) := by
  refine consistent_iff lawful_utcOnly ?_ (by decide)
  intro i hi tz htz
  have hepoch : i=(epoch,utc,some "UTC") := by
    cases hi with
    | inl hleft =>
      have hparts := Temporal.dateTime.inj (Value.temporal.inj hleft)
      exact Prod.ext hparts.1.symm (Prod.ext hparts.2.1.symm hparts.2.2.symm)
    | inr hright => cases hright
  rw [hepoch] at htz ⊢
  cases htz
  exact ⟨by decide,epoch,moment_utc epoch,rfl⟩

/-- A text with an offset of two hours and the zone UTC is read as it stands. -/
def mismatched : List Char := "2026-01-01T00:00+02:00[UTC]".toList

/-- Date-times with zone names that calls return are not always consistent. -/
theorem consistent_fails : ¬∀ zones,Lawful zones → ∀ (call : ZonedCall) (z : Zoned),
    (∀ i∈inputs call,Consistent zones i) → run zones call=some z → Consistent zones z := by
  intro hall
  have hzoned : ∃ z,run utcOnly (.fromIsoString mismatched)=some z ∧ z.2.1.seconds=7200 ∧ z.2.2=some "UTC" := by
    refine ⟨((run utcOnly (.fromIsoString mismatched)).getD (epoch,utc,none)),?_,?_,?_⟩
    · decide
    · decide
    · decide
  have ⟨z,hrun,hoff,hname⟩ := hzoned
  have hconsistent := hall utcOnly lawful_utcOnly (.fromIsoString mismatched) z (fun _ hi => absurd hi (Set.notMem_empty _)) hrun
  have ⟨_,_,_,hutc⟩ := hconsistent "UTC" hname
  rw [←hutc] at hoff
  cases hoff

end GraphDbLite.ZoneNames
