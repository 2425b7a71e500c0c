import GraphDbLite.ComparatorLaws
import GraphDbLite.CypherValues
import GraphDbLite.ZoneNames

/-!
# The sort order of values

Values of different kinds are sorted by a table of ranks, in which numbers, temporal values
and durations share one rank and so are equal to each other. Zoned values are sorted by
their instants, and a date-time whose instant is outside the date type panics. The order
is a total preorder on the values that are built from some scalars exactly when these have
instants and no two kinds of them meet a third value: two different values of one kind are
never equal to a value of another kind.
-/

namespace GraphDbLite.SortOrder

open GraphTypes CypherValues TemporalValues ComparatorLaws ZoneNames

/-- Values as they are compared, with the times of the date library. -/
inductive QueryValue where
  | null
  | bool (b : Bool)
  | i64 (n : Int64)
  | f64 (bits : UInt64)
  | string (text : String)
  | list (items : List QueryValue)
  | map (entries : List (String×QueryValue))
  | node (n : Node)
  | edge (e : EdgeOf Value)
  | path (p : PathOf Value)
  | temporal (v : Temporal)
  | duration (d : CypherDuration)

section Comparison

/-- Rank of the kind of a value. -/
def typeRank : QueryValue → Nat
  | .map _ => 0
  | .node _ => 1
  | .edge _ => 2
  | .list _ => 3
  | .path _ => 4
  | .string _ => 5
  | .bool _ => 6
  | .i64 _ => 7
  | .f64 _ => 7
  | .null => 8
  | .temporal _ => 7
  | .duration _ => 7

/-- Floats in their order, NaN behind the numbers. -/
def compareFloats (a b : UInt64) : Ordering :=
  match f64Key a,f64Key b with
  | none,none => .eq
  | none,some _ => .gt
  | some _,none => .lt
  | some x,some y => compare x y

/-- Dates in their order. -/
def compareDates (a b : NaiveDate) : Ordering := compare a.number b.number

/-- Times in their order, a leap second behind the second that it belongs to. -/
def compareTimes (a b : NaiveTime) : Ordering := (compare a.secs b.secs).then (compare a.frac b.frac)

/-- Local date-times in their order. -/
def compareDateTimes (a b : NaiveDateTime) : Ordering :=
  (compareDates a.date b.date).then (compareTimes a.time b.time)

/-- A time moved to UTC, around the clock. -/
def timeAtUtc (t : NaiveTime) (offset : FixedOffset) : NaiveTime :=
  ⟨(t.secs-offset.seconds)%86400,t.frac,by omega,t.second⟩

/-- Temporal values of one kind in their order. -/
def compareTemporals : Temporal → Temporal → Option (Temporally Ordering)
  | .date a,.date b => some (.ok (compareDates a b))
  | .localTime a,.localTime b => some (.ok (compareTimes a b))
  | .time a x,.time b y => some (.ok (compareTimes (timeAtUtc a x) (timeAtUtc b y)))
  | .localDateTime a,.localDateTime b => some (.ok (compareDateTimes a b))
  | .dateTime a x _,.dateTime b y _ => some do
    let aUtc ← unwrap (moment a x)
    let bUtc ← unwrap (moment b y)
    return compareDateTimes aUtc bUtc
  | _,_ => none

/-- Durations by their months, days, seconds and nanoseconds. -/
def compareDurations (a b : CypherDuration) : Ordering :=
  (compare a.months b.months).then ((compare a.days b.days).then
    ((compare a.seconds b.seconds).then (compare a.nanos b.nanos)))

mutual

/-- The comparison of the sort. -/
def compareValuesForSort : QueryValue → QueryValue → Temporally Ordering
  | .bool a,.bool b => .ok (compare a b)
  | .i64 a,.i64 b => .ok (compare a b)
  | .f64 a,.f64 b => .ok (compareFloats a b)
  | .i64 a,.f64 b => .ok (compareFloats (i64ToF64 a) b)
  | .f64 a,.i64 b => .ok (compareFloats a (i64ToF64 b))
  | .string a,.string b => .ok (compare a b)
  | .list a,.list b => sortItems (compare a.length b.length) a b
  | .temporal a,.temporal b =>
    (compareTemporals a b).getD (.ok (compare (typeRank (.temporal a)) (typeRank (.temporal b))))
  | .duration a,.duration b => .ok (compareDurations a b)
  | a,b => .ok (compare (typeRank a) (typeRank b))
termination_by structural value => value

/-- The first difference of two lists, else the comparison of their lengths. -/
def sortItems (lengths : Ordering) : List QueryValue → List QueryValue → Temporally Ordering
  | a::as,b::bs =>
    match compareValuesForSort a b with
    | .ok .eq => sortItems lengths as bs
    | other => other
  | _,_ => .ok lengths
termination_by structural items => items

end

/-- Whether a value is null. -/
def QueryValue.isNull : QueryValue → Bool
  | .null => true
  | _ => false

/-- Keep a value unless the next one, not null, comes first under a comparison. -/
def keepFirst (comparison : QueryValue → QueryValue → Temporally Ordering) (best : Option QueryValue)
    (val : QueryValue) : Temporally (Option QueryValue) :=
  if val.isNull=true then .ok best
  else
    match best with
    | none => .ok (some val)
    | some current => do
      let ord ← comparison val current
      return if ord=.lt then some val else some current

/-- The first value of an aggregate under a comparison, null when there is none. -/
def computeFirst (comparison : QueryValue → QueryValue → Temporally Ordering) (vals : List QueryValue) :
    Temporally QueryValue := do
  let best ← vals.foldlM (keepFirst comparison) none
  return best.getD .null

/-- The aggregate `min` of the values of its input. -/
def computeMin : List QueryValue → Temporally QueryValue := computeFirst compareValuesForSort

/-- The aggregate `max` of the values of its input. -/
def computeMax : List QueryValue → Temporally QueryValue :=
  computeFirst fun val current => compareValuesForSort current val

end Comparison

section Keys

/-- Kinds of values that share the rank of numbers. -/
inductive ScalarKind where
  | integer
  | date
  | localTime
  | time
  | localDateTime
  | dateTime
  | duration
  deriving DecidableEq

/-- What a value is compared by inside its rank. -/
inductive SortKey where
  | flag (b : Bool)
  | text (s : String)
  | places (kind : ScalarKind) (numbers : List Int)
  | plain
  deriving DecidableEq

/-- Second and nanoseconds of a time. -/
def timePlaces (t : NaiveTime) : List Int := [t.secs,t.frac]

/-- Day, second and nanoseconds of a local date-time. -/
def dateTimePlaces (dt : NaiveDateTime) : List Int := dt.date.number::timePlaces dt.time

/-- Key of a temporal value. -/
def temporalKey : Temporal → SortKey
  | .date d => .places .date [d.number]
  | .localTime t => .places .localTime (timePlaces t)
  | .time t offset => .places .time (timePlaces (timeAtUtc t offset))
  | .localDateTime dt => .places .localDateTime (dateTimePlaces dt)
  | .dateTime dt offset _ => .places .dateTime (((moment dt offset).map dateTimePlaces).getD [])

/-- Key of a value that is no list and no float. -/
def sortKey : QueryValue → SortKey
  | .bool b => .flag b
  | .string text => .text text
  | .i64 n => .places .integer [n.toInt]
  | .temporal v => temporalKey v
  | .duration d => .places .duration [d.months,d.days,d.seconds,d.nanos]
  | _ => .plain

/-- Keys in their order; keys of different kinds are equal. -/
def compareKeys : SortKey → SortKey → Ordering
  | .flag a,.flag b => compare a b
  | .text a,.text b => compare a b
  | .places k as,.places l bs => if k=l then compareLists compare as bs else .eq
  | _,_ => .eq

/-- The list that a value is. -/
def asItems : QueryValue → Option (List QueryValue)
  | .list items => some items
  | _ => none

/-- Whether a value is a float. -/
def isFloat : QueryValue → Bool
  | .f64 _ => true
  | _ => false

/-- A zoned date-time has an instant inside the date type. -/
def HasInstant : QueryValue → Prop
  | .temporal (.dateTime dt offset _) => moment dt offset≠none
  | _ => True

/-- The order of values that are not two lists. -/
def scalarOrder (a b : QueryValue) : Ordering :=
  (compare (typeRank a) (typeRank b)).then (compareKeys (sortKey a) (sortKey b))

theorem then_eq (o : Ordering) : o.then .eq=o := by
  cases o with
  | lt | eq | gt => rfl

theorem compareLists_single (a b : Int) : compareLists compare [a] [b]=compare a b := then_eq _

theorem compareTimes_eq (a b : NaiveTime) :
    compareTimes a b=compareLists compare (timePlaces a) (timePlaces b) := by
  rw [compareTimes,timePlaces,timePlaces,compareLists,compareLists_single]

theorem compareDateTimes_eq (a b : NaiveDateTime) :
    compareDateTimes a b=compareLists compare (dateTimePlaces a) (dateTimePlaces b) := by
  rw [compareDateTimes,dateTimePlaces,dateTimePlaces,compareLists,←compareTimes_eq]
  rfl

theorem compareDurations_eq (a b : CypherDuration) : compareDurations a b=compareLists compare
    [a.months,a.days,a.seconds,a.nanos] [b.months,b.days,b.seconds,b.nanos] := by
  rw [compareDurations,compareLists,compareLists,compareLists,compareLists_single]

theorem compareIntegers_eq (a b : Int64) : compare a b=compareLists compare [a.toInt] [b.toInt] := by
  rw [compareLists_single]
  have ha : compare a b=compareOfLessAndEq a b := rfl
  have hb : compare a.toInt b.toInt=compareOfLessAndEq a.toInt b.toInt := rfl
  have hinj : a=b ↔ a.toInt=b.toInt := Int64.toInt_inj.symm
  rw [ha,hb]
  unfold compareOfLessAndEq
  simp only [Int64.lt_iff_toInt_lt,hinj]

theorem compareTemporals_eq {a b : Temporal} (ha : HasInstant (.temporal a)) (hb : HasInstant (.temporal b)) :
    (compareTemporals a b).getD (.ok (compare (typeRank (.temporal a)) (typeRank (.temporal b))))=
      .ok (compareKeys (temporalKey a) (temporalKey b)) := by
  cases a with
  | date d =>
    cases b with
    | date e => exact congrArg Except.ok (compareLists_single _ _).symm
    | localTime t | time t x | localDateTime dt | dateTime dt x z => rfl
  | localTime t =>
    cases b with
    | localTime u => exact congrArg Except.ok (compareTimes_eq t u)
    | date e | time t x | localDateTime dt | dateTime dt x z => rfl
  | time t x =>
    cases b with
    | time u y => exact congrArg Except.ok (compareTimes_eq (timeAtUtc t x) (timeAtUtc u y))
    | date e | localTime t | localDateTime dt | dateTime dt x z => rfl
  | localDateTime dt =>
    cases b with
    | localDateTime du => exact congrArg Except.ok (compareDateTimes_eq dt du)
    | date e | localTime t | time t x | dateTime dt x z => rfl
  | dateTime dt x z =>
    cases b with
    | dateTime du y w =>
      have ⟨m,hm⟩ := Option.ne_none_iff_exists'.mp ha
      have ⟨n,hn⟩ := Option.ne_none_iff_exists'.mp hb
      rw [compareTemporals,hm,hn,temporalKey,temporalKey,hm,hn]
      exact congrArg Except.ok (compareDateTimes_eq m n)
    | date e | localTime t | time t x | localDateTime dt => rfl

/-- Values that are not two lists, and no floats, are compared by their ranks and keys. -/
theorem compareValuesForSort_scalar {a b : QueryValue} (hlists : asItems a=none ∨ asItems b=none)
    (ha : isFloat a=false) (hb : isFloat b=false) (hia : HasInstant a) (hib : HasInstant b) :
    compareValuesForSort a b=.ok (scalarOrder a b) := by
  cases a with
  | f64 x => cases ha
  | i64 n =>
    cases b with
    | i64 m => exact congrArg Except.ok (compareIntegers_eq n m)
    | f64 y => cases hb
    | temporal w =>
      cases w with
      | _ => rfl
    | _ => rfl
  | list as =>
    cases b with
    | list bs =>
      cases hlists with
      | inl h | inr h => cases h
    | f64 y => cases hb
    | _ => rfl
  | temporal v =>
    cases b with
    | temporal w => exact compareTemporals_eq hia hib
    | f64 y => cases hb
    | i64 m | duration d =>
      cases v with
      | _ => rfl
    | _ => rfl
  | duration d =>
    cases b with
    | duration e => exact congrArg Except.ok (compareDurations_eq d e)
    | f64 y => cases hb
    | temporal w =>
      cases w with
      | _ => rfl
    | _ => rfl
  | _ =>
    cases b with
    | f64 y => cases hb
    | _ => rfl

end Keys

section Lists

theorem eq_of_asItems {a : QueryValue} {as : List QueryValue} (h : asItems a=some as) : a=.list as := by
  cases a with
  | list items => exact congrArg QueryValue.list (Option.some.inj h)
  | _ => cases h

theorem items_induction {motive : QueryValue → Prop} (list : ∀ as,(∀ a∈as,motive a) → motive (.list as))
    (scalar : ∀ a,asItems a=none → motive a) (a : QueryValue) : motive a := by
  cases h : asItems a with
  | none => exact scalar a h
  | some as =>
    rw [eq_of_asItems h]
    exact list as fun b hb => items_induction list scalar b
termination_by sizeOf a
decreasing_by
  have hsmaller := List.sizeOf_lt_of_mem hb
  rw [eq_of_asItems h]
  exact Nat.lt_trans hsmaller (by simp)

mutual

/-- The order without panics: lists by their items, other values by their ranks and keys. -/
def order : QueryValue → QueryValue → Ordering
  | .list as,.list bs => orderItems as bs
  | a,b => scalarOrder a b
termination_by structural value => value

/-- The order of lists. -/
def orderItems : List QueryValue → List QueryValue → Ordering
  | a::as,b::bs => (order a b).then (orderItems as bs)
  | as,bs => compare as.length bs.length
termination_by structural items => items

end

theorem orderItems_eq (as bs : List QueryValue) : orderItems as bs=compareLists order as bs := by
  induction as generalizing bs with
  | nil =>
    cases bs with
    | nil | cons b bs => rfl
  | cons a as ih =>
    cases bs with
    | nil => rfl
    | cons b bs => rw [orderItems,compareLists,ih]

theorem order_list (as bs : List QueryValue) : order (.list as) (.list bs)=compareLists order as bs :=
  orderItems_eq as bs

theorem order_scalar {a b : QueryValue} (h : asItems a=none ∨ asItems b=none) : order a b=scalarOrder a b := by
  cases a with
  | list as =>
    cases b with
    | list bs =>
      cases h with
      | inl h | inr h => cases h
    | _ => rfl
  | _ => rfl

mutual

/-- The values that a value is built from by lists. -/
def leaves : QueryValue → List QueryValue
  | .list items => leavesOf items
  | a => [a]
termination_by structural value => value

/-- The values that the items of a list are built from. -/
def leavesOf : List QueryValue → List QueryValue
  | [] => []
  | a::rest => leaves a++leavesOf rest
termination_by structural items => items

end

theorem mem_leaves_list {as : List QueryValue} {a leaf : QueryValue} (ha : a∈as) (h : leaf∈leaves a) :
    leaf∈leaves (.list as) := by
  have hof : leaf∈leavesOf as := by
    induction as with
    | nil => cases ha
    | cons b as ih =>
      rw [leavesOf,List.mem_append]
      cases List.mem_cons.mp ha with
      | inl heq =>
        rw [heq] at h
        exact .inl h
      | inr hrest => exact .inr (ih hrest)
  exact hof

variable {a : QueryValue} {L : Set QueryValue}

theorem leaves_scalar (h : asItems a=none) : leaves a=[a] := by
  cases a with
  | list as => cases h
  | _ => rfl

/-- The numbers, temporal values and durations that a value is built from by lists are no
floats and belong to a set. -/
def BuiltFrom (L : Set QueryValue) (v : QueryValue) : Prop :=
  ∀ leaf∈leaves v,typeRank leaf=7 → isFloat leaf=false ∧ leaf∈L

theorem BuiltFrom.item {as : List QueryValue} (h : BuiltFrom L (.list as)) (ha : a∈as) : BuiltFrom L a :=
  fun leaf hleaf => h leaf (mem_leaves_list ha hleaf)

theorem BuiltFrom.scalar (h : BuiltFrom L a) (ha : asItems a=none) : isFloat a=false ∧ (typeRank a=7 → a∈L) := by
  have hself : typeRank a=7 → isFloat a=false ∧ a∈L := h a (by rw [leaves_scalar ha]; exact List.mem_singleton_self a)
  refine ⟨?_,fun hrank => (hself hrank).2⟩
  cases a with
  | f64 x => exact (hself rfl).1
  | _ => rfl

theorem compare_succ (n m : Nat) : compare (n+1) (m+1)=compare n m := by
  have hcompare : ∀ a b : Nat,compare a b=compareOfLessAndEq a b := fun _ _ => rfl
  rw [hcompare,hcompare]
  unfold compareOfLessAndEq
  simp only [Nat.add_lt_add_iff_right,Nat.add_right_cancel_iff]

theorem sortItems_eq {lengths : Ordering} {as bs : List QueryValue} (hlen : lengths=compare as.length bs.length)
    (h : ∀ a∈as,∀ b∈bs,compareValuesForSort a b=.ok (order a b)) :
    sortItems lengths as bs=.ok (compareLists order as bs) := by
  induction as generalizing bs with
  | nil =>
    rw [hlen]
    cases bs with
    | nil | cons b bs => rfl
  | cons a as ih =>
    cases bs with
    | nil =>
      rw [hlen]
      rfl
    | cons b bs =>
      have hrest := @ih bs (by rw [hlen,List.length_cons,List.length_cons,compare_succ])
        fun x hx y hy => h x (List.mem_cons_of_mem _ hx) y (List.mem_cons_of_mem _ hy)
      rw [sortItems,h a List.mem_cons_self b List.mem_cons_self,compareLists]
      cases order a b with
      | lt | gt => rfl
      | eq => exact hrest

theorem compareValuesForSort_order (hL : ∀ v∈L,HasInstant v) {a b : QueryValue} (ha : BuiltFrom L a)
    (hb : BuiltFrom L b) : compareValuesForSort a b=.ok (order a b) := by
  have hinstant : ∀ x,BuiltFrom L x → asItems x=none → HasInstant x := by
    intro x hx hscalar
    cases x with
    | temporal v => exact hL _ ((hx.scalar hscalar).2 rfl)
    | _ => trivial
  have hscalar : ∀ x y,BuiltFrom L x → BuiltFrom L y → asItems x=none ∨ asItems y=none →
      compareValuesForSort x y=.ok (order x y) := by
    intro x y hx hy hlists
    have hfloat : ∀ z,BuiltFrom L z → isFloat z=false ∧ HasInstant z := by
      intro z hz
      cases hitems : asItems z with
      | none => exact ⟨(hz.scalar hitems).1,hinstant z hz hitems⟩
      | some items =>
        rw [eq_of_asItems hitems]
        exact ⟨rfl,trivial⟩
    rw [order_scalar hlists]
    exact compareValuesForSort_scalar hlists (hfloat x hx).1 (hfloat y hy).1 (hfloat x hx).2 (hfloat y hy).2
  induction a using items_induction generalizing b with
  | scalar a hitems => exact hscalar a b ha hb (.inl hitems)
  | list as ih =>
    cases hitems : asItems b with
    | none => exact hscalar _ b ha hb (.inr hitems)
    | some bs =>
      rw [eq_of_asItems hitems] at hb ⊢
      rw [compareValuesForSort,order_list]
      exact sortItems_eq rfl fun x hx y hy => ih x hx (ha.item hx) (hb.item hy)

end Lists

section Laws

variable {L : Set QueryValue}

/-- Kind of a number, a temporal value or a duration. -/
def kindOf (v : QueryValue) : Option ScalarKind :=
  match sortKey v with
  | .places kind _ => some kind
  | _ => none

/-- The scalars have instants, and two of one kind have the same place when there is a third
one of another kind. -/
structure Unblurred (L : Set QueryValue) : Prop where
  /-- Zoned date-times have instants in the date type. -/
  instants : ∀ v∈L,HasInstant v
  /-- Two kinds are told apart by nothing, so one place for each. -/
  apart : ∀ x∈L,∀ y∈L,∀ z∈L,∀ kind,kindOf x=some kind → kindOf y=some kind → kindOf z≠none →
    kindOf z≠some kind → sortKey x=sortKey y

theorem compareKeys_self (k : SortKey) : compareKeys k k=.eq := by
  cases k with
  | flag b | text s =>
    rw [compareKeys]
    exact Std.ReflCmp.compare_self
  | places kind numbers =>
    rw [compareKeys,if_pos rfl]
    exact compareLists_self fun n _ => Std.ReflCmp.compare_self
  | plain => rfl

theorem compareKeys_swap (k l : SortKey) : compareKeys l k=(compareKeys k l).swap := by
  cases k with
  | flag b =>
    cases l with
    | flag c => exact Std.OrientedOrd.eq_swap
    | _ => rfl
  | text s =>
    cases l with
    | text t => exact Std.OrientedOrd.eq_swap
    | _ => rfl
  | places kind as =>
    cases l with
    | places kind' bs =>
      rw [compareKeys,compareKeys]
      by_cases h : kind=kind'
      · rw [if_pos h,if_pos h.symm]
        exact compareLists_swap fun n _ m _ => Std.OrientedOrd.eq_swap
      · rw [if_neg h,if_neg (Ne.symm h)]
        rfl
    | _ => rfl
  | plain =>
    cases l with
    | _ => rfl

variable {a : QueryValue}

theorem places_of_rank (hfloat : isFloat a=false) (h : typeRank a=7) : ∃ kind numbers,sortKey a=.places kind numbers := by
  cases a with
  | i64 n | duration d => exact ⟨_,_,rfl⟩
  | temporal v =>
    cases v with
    | _ => exact ⟨_,_,rfl⟩
  | f64 x => cases hfloat
  | _ => cases h

theorem flag_of_rank (h : typeRank a=6) : ∃ b,sortKey a=.flag b := by
  cases a with
  | bool b => exact ⟨b,rfl⟩
  | _ => cases h

theorem text_of_rank (h : typeRank a=5) : ∃ s,sortKey a=.text s := by
  cases a with
  | string s => exact ⟨s,rfl⟩
  | _ => cases h

theorem plain_of_rank (h : typeRank a≠7 ∧ typeRank a≠6 ∧ typeRank a≠5) : sortKey a=.plain := by
  cases a with
  | i64 n | duration d | temporal v => exact absurd rfl h.1
  | bool b => exact absurd rfl h.2.1
  | string s => exact absurd rfl h.2.2
  | _ => rfl

theorem kindOf_places {kind : ScalarKind} {numbers : List Int} (h : sortKey a=.places kind numbers) :
    kindOf a=some kind := by
  rw [kindOf,h]

theorem equal_of_mixed (hL : Unblurred L) {a b c : QueryValue} (ha : a∈L) (hb : b∈L) (hc : c∈L)
    {k l m : ScalarKind} {as bs cs : List Int} (hak : sortKey a=.places k as) (hbl : sortKey b=.places l bs)
    (hcm : sortKey c=.places m cs) (hmixed : k=l → m≠k) : compareKeys (sortKey a) (sortKey b)=.eq := by
  by_cases h : k=l
  · have hthird : kindOf c≠some k := by
      rw [kindOf_places hcm]
      exact fun heq => hmixed h (Option.some.inj heq)
    have hsame := hL.apart a ha b hb c hc k (kindOf_places hak) (by rw [h]; exact kindOf_places hbl)
      (by rw [kindOf_places hcm]; exact Option.some_ne_none m) hthird
    rw [hsame]
    exact compareKeys_self _
  · rw [hak,hbl,compareKeys,if_neg h]

theorem chains_keys (hL : Unblurred L) {a b c : QueryValue} (ha : isFloat a=false ∧ (typeRank a=7 → a∈L))
    (hb : isFloat b=false ∧ (typeRank b=7 → b∈L)) (hc : isFloat c=false ∧ (typeRank c=7 → c∈L))
    (hab : typeRank a=typeRank b) (hbc : typeRank b=typeRank c) :
    Chains (compareKeys (sortKey a) (sortKey b)) (compareKeys (sortKey b) (sortKey c))
      (compareKeys (sortKey a) (sortKey c)) := by
  by_cases h7 : typeRank a=7
  · have ⟨k,as,hak⟩ := places_of_rank ha.1 h7
    have ⟨l,bs,hbl⟩ := places_of_rank hb.1 (hab.symm.trans h7)
    have ⟨m,cs,hcm⟩ := places_of_rank hc.1 (hbc.symm.trans (hab.symm.trans h7))
    have hma := ha.2 h7
    have hmb := hb.2 (hab.symm.trans h7)
    have hmc := hc.2 (hbc.symm.trans (hab.symm.trans h7))
    by_cases hsame : k=l ∧ l=m
    · rw [hak,hbl,hcm,compareKeys,compareKeys,compareKeys,if_pos hsame.1,if_pos hsame.2,
        if_pos (hsame.1.trans hsame.2)]
      exact chains_compareLists fun x _ y _ z _ => chains_of_transCmp x y z
    · rw [equal_of_mixed hL hma hmb hmc hak hbl hcm fun h hm => hsame ⟨h,h.symm.trans hm.symm⟩,
        equal_of_mixed hL hmb hmc hma hbl hcm hak fun h hm => hsame ⟨hm,h⟩,
        equal_of_mixed hL hma hmc hmb hak hcm hbl fun h hm => hsame ⟨hm.symm,hm.trans h⟩]
      decide
  · by_cases h6 : typeRank a=6
    · have ⟨x,hx⟩ := flag_of_rank h6
      have ⟨y,hy⟩ := flag_of_rank (hab.symm.trans h6)
      have ⟨z,hz⟩ := flag_of_rank (hbc.symm.trans (hab.symm.trans h6))
      rw [hx,hy,hz,compareKeys,compareKeys,compareKeys]
      exact chains_of_transCmp x y z
    · by_cases h5 : typeRank a=5
      · have ⟨x,hx⟩ := text_of_rank h5
        have ⟨y,hy⟩ := text_of_rank (hab.symm.trans h5)
        have ⟨z,hz⟩ := text_of_rank (hbc.symm.trans (hab.symm.trans h5))
        rw [hx,hy,hz,compareKeys,compareKeys,compareKeys]
        exact chains_of_transCmp x y z
      · rw [plain_of_rank ⟨h7,h6,h5⟩,plain_of_rank (a:=b) (by omega),plain_of_rank (a:=c) (by omega)]
        decide

theorem scalarOrder_swap (a b : QueryValue) : scalarOrder b a=(scalarOrder a b).swap := by
  have hranks : compare (typeRank b) (typeRank a)=(compare (typeRank a) (typeRank b)).swap :=
    Std.OrientedOrd.eq_swap
  rw [scalarOrder,scalarOrder,then_swap,hranks,compareKeys_swap]

/-- A list that is compared with a value of another kind is told apart from it. -/
theorem scalarOrder_list {as : List QueryValue} {b : QueryValue} (hb : asItems b=none) :
    scalarOrder (.list as) b=compare 3 (typeRank b) ∧ compare 3 (typeRank b)≠.eq := by
  have hne : compare 3 (typeRank b)≠.eq := by
    intro heq
    have hrank := Nat.compare_eq_eq.mp heq
    cases b with
    | list bs => cases hb
    | _ => cases hrank
  refine ⟨?_,hne⟩
  have hranks : scalarOrder (.list as) b=(compare 3 (typeRank b)).then
      (compareKeys (sortKey (.list as)) (sortKey b)) := rfl
  rw [hranks]
  cases h : compare 3 (typeRank b) with
  | lt | gt => rfl
  | eq => exact absurd h hne

theorem BuiltFrom.facts (h : BuiltFrom L a) : isFloat a=false ∧ (typeRank a=7 → a∈L) := by
  cases hitems : asItems a with
  | none => exact h.scalar hitems
  | some as =>
    rw [eq_of_asItems hitems]
    exact ⟨rfl,fun hrank => absurd hrank (by simp [typeRank])⟩

/-- Values that are not two lists fit together with a third one that is no list either. -/
theorem chains_scalars (hL : Unblurred L) {a b c : QueryValue} (ha : BuiltFrom L a) (hb : BuiltFrom L b)
    (hc : BuiltFrom L c) : Chains (scalarOrder a b) (scalarOrder b c) (scalarOrder a c) :=
  chains_then (chains_of_transCmp (typeRank a) (typeRank b) (typeRank c)) fun hab hbc =>
    chains_keys hL ha.facts hb.facts hc.facts (Nat.compare_eq_eq.mp hab) (Nat.compare_eq_eq.mp hbc)

theorem order_self (a : QueryValue) : order a a=.eq := by
  induction a using items_induction with
  | scalar a hitems =>
    have hrank : compare (typeRank a) (typeRank a)=.eq := Std.ReflCmp.compare_self
    rw [order_scalar (.inl hitems),scalarOrder,hrank,compareKeys_self]
    rfl
  | list as ih =>
    rw [order_list]
    exact compareLists_self ih

theorem order_swap (a b : QueryValue) : order b a=(order a b).swap := by
  induction a using items_induction generalizing b with
  | scalar a hitems => rw [order_scalar (.inr hitems),order_scalar (.inl hitems),scalarOrder_swap]
  | list as ih =>
    cases hitems : asItems b with
    | none => rw [order_scalar (.inl hitems),order_scalar (.inr hitems),scalarOrder_swap]
    | some bs =>
      rw [eq_of_asItems hitems,order_list,order_list]
      exact compareLists_swap fun x hx y _ => ih x hx y

theorem preorderOn_order (hL : Unblurred L) : PreorderOn (BuiltFrom L) order := by
  refine ⟨fun a _ => order_self a,fun a b _ _ => order_swap a b,fun a b c ha hb hc => ?_⟩
  induction a using items_induction generalizing b c with
  | scalar a hitems =>
    rw [order_scalar (.inl hitems),order_scalar (.inl hitems)]
    by_cases hlists : asItems b=none ∨ asItems c=none
    · rw [order_scalar hlists]
      exact chains_scalars hL ha hb hc
    · -- Two lists are on the same side of a value that is no list.
      have ⟨bs,hbs⟩ := Option.ne_none_iff_exists'.mp fun h => hlists (.inl h)
      have ⟨cs,hcs⟩ := Option.ne_none_iff_exists'.mp fun h => hlists (.inr h)
      rw [eq_of_asItems hbs,eq_of_asItems hcs,scalarOrder_swap,scalarOrder_swap (.list cs),
        (scalarOrder_list hitems).1,(scalarOrder_list hitems).1]
      have hne := (@scalarOrder_list bs _ hitems).2
      exact ⟨fun h => absurd (Ordering.swap_eq_eq.mp h) hne,fun _ => rfl,fun _ => rfl⟩
  | list as ih =>
    cases hb' : asItems b with
    | none =>
      cases hc' : asItems c with
      | none =>
        rw [order_scalar (.inr hb'),order_scalar (.inl hb'),order_scalar (.inr hc')]
        exact chains_scalars hL ha hb hc
      | some cs =>
        rw [eq_of_asItems hc',order_scalar (.inr hb'),order_scalar (.inl hb'),scalarOrder_swap (.list cs),
          (scalarOrder_list hb').1,(scalarOrder_list hb').1]
        have hne := (@scalarOrder_list as _ hb').2
        cases h : compare 3 (typeRank b) with
        | eq => exact absurd h hne
        | lt | gt => exact ⟨fun h => (by cases h),fun h => (by cases h),fun h => (by cases h)⟩
    | some bs =>
      cases hc' : asItems c with
      | none =>
        rw [eq_of_asItems hb',order_scalar (.inr hc'),order_scalar (.inr hc'),(scalarOrder_list hc').1,
          (scalarOrder_list hc').1]
        have hne := (@scalarOrder_list as _ hc').2
        exact ⟨fun _ => rfl,fun h => absurd h hne,fun h => h.symm⟩
      | some cs =>
        rw [eq_of_asItems hb'] at hb ⊢
        rw [eq_of_asItems hc'] at hc ⊢
        rw [order_list,order_list,order_list]
        exact chains_compareLists fun x hx y hy z hz => ih x hx y z (ha.item hx) (hb.item hy) (hc.item hz)

end Laws

section Aggregates

variable {L : Set QueryValue} {comparison : QueryValue → QueryValue → Temporally Ordering}
  {cmp : QueryValue → QueryValue → Ordering}

/-- A value comes first among the values that are not null, or is null when there is none. -/
def IsFirst (comparison : QueryValue → QueryValue → Temporally Ordering) (vals : List QueryValue)
    (m : QueryValue) : Prop :=
  ((∀ v∈vals,v.isNull=true) ∧ m=.null) ∨
    (m∈vals ∧ m.isNull=false ∧ ∀ v∈vals,v.isNull=false → ∃ o,comparison m v=.ok o ∧ o≠.gt)

/-- An aggregate gives a first value, in any order of the rows an equal one. -/
def GivesFirst (comparison : QueryValue → QueryValue → Temporally Ordering)
    (aggregate : List QueryValue → Temporally QueryValue) (vals : List QueryValue) : Prop :=
  ∃ m,aggregate vals=.ok m ∧ IsFirst comparison vals m ∧
    ∀ vals',vals'.Perm vals → ∃ m',aggregate vals'=.ok m' ∧ comparison m m'=.ok .eq

/-- The values that are not null. -/
def known (vals : List QueryValue) : List QueryValue := vals.filter fun v => !v.isNull

theorem builtFrom_null : BuiltFrom L .null := by
  intro leaf hleaf hrank
  rw [List.mem_singleton.mp hleaf] at hrank
  cases hrank

variable {v : QueryValue} {kind : ScalarKind}

theorem keepFirst_null {best : Option QueryValue} (h : v.isNull=true) : keepFirst comparison best v=.ok best := by
  unfold keepFirst
  rw [if_pos h]

theorem keepFirst_none (h : ¬v.isNull=true) : keepFirst comparison none v=.ok (some v) := by
  unfold keepFirst
  rw [if_neg h]

theorem keepFirst_some {current v : QueryValue} {ord : Ordering} (h : ¬v.isNull=true)
    (hord : comparison v current=.ok ord) :
    keepFirst comparison (some current) v=.ok (if ord=.lt then some v else some current) := by
  unfold keepFirst
  rw [if_neg h]
  simp only [hord]
  rfl

theorem foldlM_keepFirst (hok : ∀ a b,BuiltFrom L a → BuiltFrom L b → comparison a b=.ok (cmp a b))
    {best : Option QueryValue} {vals : List QueryValue} (hbest : ∀ b,best=some b → BuiltFrom L b)
    (hvals : ∀ v∈vals,BuiltFrom L v) :
    vals.foldlM (keepFirst comparison) best=.ok (smallest cmp best (known vals)) := by
  induction vals generalizing best with
  | nil => rfl
  | cons v vals ih =>
    have hv := hvals v List.mem_cons_self
    have hrest : ∀ x∈vals,BuiltFrom L x := fun x hx => hvals x (List.mem_cons_of_mem _ hx)
    rw [List.foldlM_cons]
    by_cases hnull : v.isNull=true
    · have hknown : known (v::vals)=known vals := List.filter_cons_of_neg (by rw [hnull]; decide)
      rw [keepFirst_null hnull,hknown]
      exact ih hbest hrest
    · have hknown : known (v::vals)=v::known vals :=
        List.filter_cons_of_pos (by rw [Bool.eq_false_iff.mpr hnull]; rfl)
      rw [hknown]
      cases best with
      | none =>
        rw [keepFirst_none hnull]
        exact ih (fun b hb => Option.some.inj hb ▸ hv) hrest
      | some current =>
        have hcurrent := hbest current rfl
        have hstep := hok v current hv hcurrent
        have hnext : ∀ b,(if cmp v current=.lt then some v else some current)=some b → BuiltFrom L b := by
          intro b hb
          split_ifs at hb with hlt
          · exact Option.some.inj hb ▸ hv
          · exact Option.some.inj hb ▸ hcurrent
        rw [keepFirst_some hnull hstep]
        exact ih hnext hrest

/-- The loop gives a first value under a total preorder, in any order of the values an
equal one. -/
theorem givesFirst (hcmp : PreorderOn (BuiltFrom L) cmp)
    (hok : ∀ a b,BuiltFrom L a → BuiltFrom L b → comparison a b=.ok (cmp a b)) {vals : List QueryValue}
    (hvals : ∀ v∈vals,BuiltFrom L v) : GivesFirst comparison (computeFirst comparison) vals := by
  have hrun : ∀ vs : List QueryValue,(∀ v∈vs,BuiltFrom L v) →
      computeFirst comparison vs=.ok ((smallest cmp none (known vs)).getD .null) := by
    intro vs hvs
    rw [computeFirst,foldlM_keepFirst hok (fun b hb => by cases hb) hvs]
    rfl
  have hmem : ∀ (vs : List QueryValue) (v : QueryValue),v∈known vs ↔ v∈vs ∧ v.isNull=false := by
    intro vs v
    rw [known,List.mem_filter,Bool.not_eq_true']
  have hleast : ∀ vs : List QueryValue,(∀ v∈vs,BuiltFrom L v) → known vs≠[] →
      ∃ m,smallest cmp none (known vs)=some m ∧ m∈known vs ∧ ∀ v∈known vs,cmp m v≠.gt :=
    fun vs hvs hne => hcmp.smallest_least hne fun v hv => hvs v ((hmem vs v).mp hv).1
  by_cases hne : known vals=[]
  · refine ⟨.null,by rw [hrun vals hvals,hne]; rfl,.inl ⟨fun v hv => ?_,rfl⟩,fun vals' hperm => ⟨.null,?_,?_⟩⟩
    · by_contra hnull
      have hin := (hmem vals v).mpr ⟨hv,Bool.eq_false_iff.mpr hnull⟩
      rw [hne] at hin
      exact absurd hin List.not_mem_nil
    · have hnil : known vals'=[] := List.perm_nil.mp (hne ▸ hperm.filter _)
      rw [hrun vals' fun v hv => hvals v (hperm.subset hv),hnil]
      rfl
    · rw [hok _ _ builtFrom_null builtFrom_null,hcmp.self _ builtFrom_null]
  · have ⟨m,hm,hin,hall⟩ := hleast vals hvals hne
    have hfound := (hmem vals m).mp hin
    have hdom := hvals m hfound.1
    refine ⟨m,by rw [hrun vals hvals,hm]; rfl,.inr ⟨hfound.1,hfound.2,fun v hv hnull => ?_⟩,fun vals' hperm => ?_⟩
    · exact ⟨cmp m v,hok m v hdom (hvals v hv),hall v ((hmem vals v).mpr ⟨hv,hnull⟩)⟩
    · have hvals' : ∀ v∈vals',BuiltFrom L v := fun v hv => hvals v (hperm.subset hv)
      have hperm' : (known vals').Perm (known vals) := hperm.filter _
      have hne' : known vals'≠[] := fun hnil => hne (List.perm_nil.mp (hnil ▸ hperm'.symm))
      have ⟨m',hm',hin',hall'⟩ := hleast vals' hvals' hne'
      have hdom' := hvals' m' ((hmem vals' m').mp hin').1
      refine ⟨m',by rw [hrun vals' hvals',hm']; rfl,?_⟩
      rw [hok m m' hdom hdom',hcmp.eq_of_le hdom hdom' (hall m' (hperm'.subset hin'))
        (hall' m (hperm'.symm.subset hin))]

/-- The comparison of the sort is a total preorder on the values that are built from some
scalars, and `min` and `max` give its first and last values. -/
structure SortsTotally (L : Set QueryValue) : Prop where
  /-- A value equals itself. -/
  self : ∀ a,BuiltFrom L a → compareValuesForSort a a=.ok .eq
  /-- The two orders of a pair are opposite. -/
  swap : ∀ a b,BuiltFrom L a → BuiltFrom L b →
    ∃ o,compareValuesForSort a b=.ok o ∧ compareValuesForSort b a=.ok o.swap
  /-- The comparisons of a triple are transitive, equality included. -/
  transitive : ∀ a b c,BuiltFrom L a → BuiltFrom L b → BuiltFrom L c → ∃ ab bc ac,
    compareValuesForSort a b=.ok ab ∧ compareValuesForSort b c=.ok bc ∧ compareValuesForSort a c=.ok ac ∧
      (ab≠.gt → bc≠.gt → ac≠.gt) ∧ (ab=.eq → bc=.eq → ac=.eq)
  /-- `min` gives a least value. -/
  min : ∀ vals : List QueryValue,(∀ v∈vals,BuiltFrom L v) → GivesFirst compareValuesForSort computeMin vals
  /-- `max` gives a greatest value. -/
  max : ∀ vals : List QueryValue,(∀ v∈vals,BuiltFrom L v) →
    GivesFirst (fun a b => compareValuesForSort b a) computeMax vals

theorem builtFrom_self (hkind : kindOf v=some kind) (h : v∈L) : BuiltFrom L v ∧ typeRank v=7 := by
  cases v with
  | i64 n | duration d | temporal w => exact ⟨fun leaf hleaf _ => List.mem_singleton.mp hleaf ▸ ⟨rfl,h⟩,rfl⟩
  | _ => cases hkind

theorem scalar_of_kind (hkind : kindOf v=some kind) : asItems v=none ∧ isFloat v=false := by
  cases v with
  | list items | f64 x => cases hkind
  | _ => exact ⟨rfl,rfl⟩

theorem eq_of_compareKeys {x y : QueryValue} (hx : kindOf x=some kind) (hy : kindOf y=some kind)
    (h : compareKeys (sortKey x) (sortKey y)=.eq) : sortKey x=sortKey y := by
  unfold kindOf at hx hy
  cases hk : sortKey x with
  | places k as =>
    cases hl : sortKey y with
    | places l bs =>
      rw [hk] at hx h
      rw [hl] at hy h
      have hkinds : k=l := (Option.some.inj hx).trans (Option.some.inj hy).symm
      rw [compareKeys,if_pos hkinds] at h
      rw [hkinds,eq_of_compareLists h]
    | _ =>
      rw [hl] at hy
      cases hy
  | _ =>
    rw [hk] at hx
    cases hx

theorem compare_kinds {x z : QueryValue} (hx : kindOf x=some kind) (hz : kindOf z≠none)
    (hne : kindOf z≠some kind) : compareValuesForSort x z=.ok .eq ∧ compareValuesForSort z x=.ok .eq := by
  cases x with
  | i64 n =>
    cases z with
    | i64 m => exact absurd hx hne
    | duration d | temporal w => exact ⟨rfl,rfl⟩
    | _ => exact absurd rfl hz
  | duration d =>
    cases z with
    | i64 m => exact ⟨rfl,rfl⟩
    | duration e => exact absurd hx hne
    | temporal w => exact ⟨rfl,rfl⟩
    | _ => exact absurd rfl hz
  | temporal v =>
    cases z with
    | i64 m | duration e => exact ⟨rfl,rfl⟩
    | temporal w =>
      cases v with
      | _ =>
        cases w with
        | _ => first | exact ⟨rfl,rfl⟩ | exact absurd hx hne
    | _ => exact absurd rfl hz
  | _ => cases hx

/-- The comparison of the sort is a total preorder, with `min` and `max` as its ends, exactly on
the values that are built from scalars with instants whose kinds do not blur each other. -/
theorem sortsTotally_iff (L : Set QueryValue) : SortsTotally L ↔ Unblurred L := by
  constructor
  · intro h
    have hinstants : ∀ v∈L,HasInstant v := by
      intro v hv
      cases v with
      | temporal w =>
        cases w with
        | dateTime dt offset zone =>
          intro hnone
          have hself := h.self _ (builtFrom_self (v:=.temporal (.dateTime dt offset zone)) rfl hv).1
          rw [compareValuesForSort,compareTemporals,hnone] at hself
          cases hself
        | _ => trivial
      | _ => trivial
    refine ⟨hinstants,fun x hx y hy z hz kind hkx hky hkz hne => ?_⟩
    have ⟨m,hm⟩ := Option.ne_none_iff_exists'.mp hkz
    have hbx := builtFrom_self hkx hx
    have hby := builtFrom_self hky hy
    have ⟨ab,bc,ac,hab,hbc,hac,_,heq⟩ := h.transitive x z y hbx.1 (builtFrom_self hm hz).1 hby.1
    rw [(compare_kinds hkx hkz hne).1] at hab
    rw [(compare_kinds hky hkz hne).2] at hbc
    have hsame := heq (Except.ok.inj hab).symm (Except.ok.inj hbc).symm
    rw [hsame,compareValuesForSort_scalar (.inl (scalar_of_kind hkx).1) (scalar_of_kind hkx).2
      (scalar_of_kind hky).2 (hinstants x hx) (hinstants y hy),scalarOrder,hbx.2,hby.2] at hac
    exact eq_of_compareKeys hkx hky (Except.ok.inj hac)
  · intro hL
    have hok : ∀ a b,BuiltFrom L a → BuiltFrom L b → compareValuesForSort a b=.ok (order a b) :=
      fun a b ha hb => compareValuesForSort_order hL.instants ha hb
    have hpre := preorderOn_order hL
    refine ⟨fun a ha => ?_,fun a b ha hb => ⟨order a b,hok a b ha hb,?_⟩,fun a b c ha hb hc => ?_,
      fun vals hvals => givesFirst hpre hok hvals,
      fun vals hvals => givesFirst hpre.reversed (fun a b ha hb => hok b a hb ha) hvals⟩
    · rw [hok a a ha ha,hpre.self a ha]
    · rw [hok b a hb ha,hpre.swap a b ha hb]
    · refine ⟨_,_,_,hok a b ha hb,hok b c hb hc,hok a c ha hc,hpre.le_trans ha hb hc,fun hab hbc => ?_⟩
      rw [(hpre.chains a b c ha hb hc).1 hab]
      exact hbc

/-- Sixteen and seventeen are both equal to a date, but not to each other. -/
theorem sortsTotally_fails : ¬SortsTotally Set.univ := by
  intro h
  have hbuilt : ∀ v,asItems v=none → isFloat v=false → BuiltFrom Set.univ v := by
    intro v hitems hfloat leaf hleaf _
    rw [leaves_scalar hitems] at hleaf
    rw [List.mem_singleton.mp hleaf]
    exact ⟨hfloat,trivial⟩
  have ⟨ab,bc,ac,hab,hbc,hac,_,heq⟩ := h.transitive (.i64 16) (.temporal (.date EpochInstants.epoch.date)) (.i64 17)
    (hbuilt _ rfl rfl) (hbuilt _ rfl rfl) (hbuilt _ rfl rfl)
  have hsame := heq (Except.ok.inj hab).symm (Except.ok.inj hbc).symm
  rw [hsame] at hac
  exact absurd (Except.ok.inj hac) (by decide)

end Aggregates

end GraphDbLite.SortOrder
