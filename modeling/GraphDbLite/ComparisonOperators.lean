import GraphDbLite.SortOrder

/-!
# Comparison operators

Equality, the order operators and the sort are three definitions. Equality compares the
fields of a zoned value, the other two its instant. On values of one orderable type they
agree exactly when no zoned date-time without an instant is reached and values at the same
place are the same.
-/

namespace GraphDbLite.ComparisonOperators

open TemporalValues ComparatorLaws ZoneNames SortOrder
open CypherValues (f64Eq f64Cmp i64ToF64 edgeEq pathsEqual allKnown)

section Operators

/-- Value of a key of a map. -/
def entryOf (entries : List (String×QueryValue)) (key : String) : Option QueryValue :=
  (entries.find? fun entry => entry.1=key).map Prod.snd

/-- Whether two maps have the same keys. -/
def sameKeys (a b : List (String×QueryValue)) : Bool :=
  (a.all fun entry => (entryOf b entry.1).isSome) && b.all fun entry => (entryOf a entry.1).isSome

mutual

/-- Three-valued equality; nothing stands for null. -/
def valuesEqual : QueryValue → QueryValue → Option Bool
  | .null,_ => none
  | _,.null => none
  | .bool a,.bool b => some (a=b)
  | .i64 a,.i64 b => some (a=b)
  | .f64 a,.f64 b => some (f64Eq a b)
  | .i64 a,.f64 b => some (f64Eq (i64ToF64 a) b)
  | .f64 a,.i64 b => some (f64Eq a (i64ToF64 b))
  | .string a,.string b => some (a=b)
  | .list a,.list b => if a.length=b.length then allKnown false (listsEqual a b) else some false
  | .map a,.map b => if sameKeys a b=true then allKnown false (mapsEqual a b) else some false
  | .node a,.node b => some (a.id=b.id)
  | .edge a,.edge b => some (edgeEq a b)
  | .temporal a,.temporal b => some (a=b)
  | .duration a,.duration b => some (a=b)
  | .path a,.path b => some (pathsEqual a b)
  | _,_ => some false
termination_by structural value => value

/-- Comparisons of the items of two lists in order. -/
def listsEqual : List QueryValue → List QueryValue → List (Option Bool)
  | a::as,b::bs => valuesEqual a b::listsEqual as bs
  | _,_ => []
termination_by structural items => items

/-- Comparisons of the entries of two maps with the same keys. -/
def mapsEqual : List (String×QueryValue) → List (String×QueryValue) → List (Option Bool)
  | [],_ => []
  | entry::rest,b => entryEqual entry b::mapsEqual rest b
termination_by structural entries => entries

/-- Comparison of an entry with the entry of the same key. -/
def entryEqual : String×QueryValue → List (String×QueryValue) → Option Bool
  | (key,value),b =>
    match entryOf b key with
    | some other => valuesEqual value other
    | none => some false
termination_by structural entry => entry

end

mutual

/-- Order of values; values of different kinds and durations are not ordered. -/
def compareValues : QueryValue → QueryValue → Temporally (Option Ordering)
  | .bool a,.bool b => .ok (some (compare a b))
  | .i64 a,.i64 b => .ok (some (compare a b))
  | .f64 a,.f64 b => .ok (f64Cmp a b)
  | .i64 a,.f64 b => .ok (f64Cmp (i64ToF64 a) b)
  | .f64 a,.i64 b => .ok (f64Cmp a (i64ToF64 b))
  | .string a,.string b => .ok (some (compare a b))
  | .temporal a,.temporal b => ((compareTemporals a b).map fun outcome => outcome.map some).getD (.ok none)
  | .list a,.list b => compareItems (compare a.length b.length) a b
  | _,_ => .ok none
termination_by structural value => value

/-- The first difference of two lists, else the comparison of their lengths. -/
def compareItems (lengths : Ordering) : List QueryValue → List QueryValue → Temporally (Option Ordering)
  | a::as,b::bs =>
    match compareValues a b with
    | .ok (some .eq) => compareItems lengths as bs
    | other => other
  | _,_ => .ok (some lengths)
termination_by structural items => items

end

/-- Integers and floats. -/
def isNumeric : QueryValue → Bool
  | .i64 _ => true
  | .f64 _ => true
  | _ => false

/-- Comparison as a truth value: null when an operand is null or the kinds cannot be
ordered, false for NaN. -/
def compareToValue (a b : QueryValue) (pred : Ordering → Bool) : Temporally QueryValue :=
  if a.isNull=true ∨ b.isNull=true then .ok .null
  else do
    match ← compareValues a b with
    | some ord => return .bool (pred ord)
    | none => return if isNumeric a=true ∧ isNumeric b=true then .bool false else .null

/-- The operators that compare. -/
inductive CompareOp where
  | eq
  | neq
  | lt
  | gt
  | lte
  | gte
  deriving DecidableEq

/-- A three-valued truth as a value. -/
def triValue : Option Bool → QueryValue
  | some b => .bool b
  | none => .null

/-- A comparison operator on values. -/
def evalBinop (left : QueryValue) (op : CompareOp) (right : QueryValue) : Temporally QueryValue :=
  match op with
  | .eq => .ok (triValue (valuesEqual left right))
  | .neq => .ok (triValue ((valuesEqual left right).map Bool.not))
  | .lt => compareToValue left right fun o => o == .lt
  | .gt => compareToValue left right fun o => o == .gt
  | .lte => compareToValue left right fun o => o != .gt
  | .gte => compareToValue left right fun o => o != .lt

end Operators

section Domain

/-- Temporal values of one type. -/
def sameType : Temporal → Temporal → Bool
  | .date _,.date _ => true
  | .localTime _,.localTime _ => true
  | .time _ _,.time _ _ => true
  | .localDateTime _,.localDateTime _ => true
  | .dateTime _ _ _,.dateTime _ _ _ => true
  | _,_ => false

mutual

/-- Values of one orderable type; lists are when the items side by side are. -/
def Alike : QueryValue → QueryValue → Prop
  | .bool _,.bool _ => True
  | .i64 _,.i64 _ => True
  | .string _,.string _ => True
  | .temporal a,.temporal b => sameType a b=true
  | .list as,.list bs => AlikeItems as bs
  | _,_ => False
termination_by structural value => value

/-- Items side by side of one orderable type. -/
def AlikeItems : List QueryValue → List QueryValue → Prop
  | a::as,b::bs => Alike a b ∧ AlikeItems as bs
  | _,_ => True
termination_by structural items => items

end

mutual

/-- Values at one place of their order: the same number, text, date or instant, and lists of
such values. -/
def SamePlace : QueryValue → QueryValue → Prop
  | .list as,.list bs => SamePlaces as bs
  | a,b => sortKey a=sortKey b
termination_by structural value => value

/-- Lists of values at the same places. -/
def SamePlaces : List QueryValue → List QueryValue → Prop
  | a::as,b::bs => SamePlace a b ∧ SamePlaces as bs
  | [],[] => True
  | _,_ => False
termination_by structural items => items

end

mutual

/-- No zoned date-time without an instant is reached up to the first items at different
places. -/
def Settled : QueryValue → QueryValue → Prop
  | .list as,.list bs => SettledItems as bs
  | a,b => HasInstant a ∧ HasInstant b
termination_by structural value => value

def SettledItems : List QueryValue → List QueryValue → Prop
  | a::as,b::bs => Settled a b ∧ (SamePlace a b → SettledItems as bs)
  | _,_ => True
termination_by structural items => items

end

/-- The operators and the sort agree on two values: one comparison decides all. -/
def Coherent (a b : QueryValue) : Prop :=
  ∃ o,compareValuesForSort a b=.ok o ∧ evalBinop a .lt b=.ok (.bool (o == .lt)) ∧
    evalBinop a .eq b=.ok (.bool (o == .eq)) ∧ evalBinop a .gt b=.ok (.bool (o == .gt)) ∧
    evalBinop a .lte b=.ok (.bool (o == .lt || o == .eq)) ∧
    evalBinop a .gte b=evalBinop b .lte a ∧ evalBinop a .gte b=.ok (.bool (o == .gt || o == .eq))

end Domain

section Scalars

variable {a b : QueryValue}

theorem alike_lists (h : Alike a b) : (asItems a=none ∧ asItems b=none) ∨
    ∃ as bs,a=.list as ∧ b=.list bs ∧ AlikeItems as bs := by
  cases a with
  | list as =>
    cases b with
    | list bs => exact .inr ⟨as,bs,rfl,rfl,h⟩
    | _ => exact h.elim
  | _ =>
    cases b with
    | list bs => exact h.elim
    | _ => exact .inl ⟨rfl,rfl⟩

theorem compareTemporals_some {a b : Temporal} (h : sameType a b=true) : ∃ outcome,compareTemporals a b=some outcome := by
  cases a with
  | _ =>
    cases b with
    | _ => first | exact ⟨_,rfl⟩ | cases h

/-- Keys of alike scalars: of one rank, and equal only when they are the same. -/
theorem alike_scalars (h : Alike a b) (ha : asItems a=none) : typeRank a=typeRank b ∧ isFloat a=false ∧
    isFloat b=false ∧ a.isNull=false ∧ b.isNull=false ∧
    (compareKeys (sortKey a) (sortKey b)=.eq → sortKey a=sortKey b) := by
  cases a with
  | list as => cases ha
  | bool x =>
    cases b with
    | bool y =>
      refine ⟨rfl,rfl,rfl,rfl,rfl,fun heq => ?_⟩
      have hxy : compare x y=.eq := heq
      rw [Std.LawfulEqCmp.eq_of_compare hxy]
    | _ => exact h.elim
  | i64 x =>
    cases b with
    | i64 y => exact ⟨rfl,rfl,rfl,rfl,rfl,fun heq => congrArg (SortKey.places .integer) (eq_of_compareLists heq)⟩
    | _ => exact h.elim
  | string x =>
    cases b with
    | string y =>
      refine ⟨rfl,rfl,rfl,rfl,rfl,fun heq => ?_⟩
      have hxy : compare x y=.eq := heq
      rw [Std.LawfulEqCmp.eq_of_compare hxy]
    | _ => exact h.elim
  | temporal v =>
    cases b with
    | temporal w =>
      refine ⟨rfl,rfl,rfl,rfl,rfl,fun heq => ?_⟩
      cases v with
      | _ =>
        cases w with
        | _ => first | exact congrArg (SortKey.places _) (eq_of_compareLists heq) | cases h
    | _ => exact h.elim
  | _ => exact h.elim

theorem compareValues_scalar (h : Alike a b) (ha : asItems a=none) :
    compareValues a b=(compareValuesForSort a b).map some := by
  cases a with
  | list as => cases ha
  | temporal v =>
    cases b with
    | temporal w =>
      have ⟨outcome,houtcome⟩ := compareTemporals_some h
      rw [compareValues,compareValuesForSort,houtcome]
      rfl
    | _ => exact h.elim
  | bool x =>
    cases b with
    | bool y => rfl
    | _ => exact h.elim
  | i64 x =>
    cases b with
    | i64 y => rfl
    | _ => exact h.elim
  | string x =>
    cases b with
    | string y => rfl
    | _ => exact h.elim
  | _ => exact h.elim

theorem order_alike (h : Alike a b) (ha : asItems a=none) : order a b=compareKeys (sortKey a) (sortKey b) := by
  have hrank : compare (typeRank a) (typeRank b)=.eq := Nat.compare_eq_eq.mpr (alike_scalars h ha).1
  rw [order_scalar (.inl ha),scalarOrder,hrank]
  rfl

theorem samePlace_scalar (ha : asItems a=none) : SamePlace a b ↔ sortKey a=sortKey b := by
  cases a with
  | list as => cases ha
  | _ => exact Iff.rfl

theorem settled_scalar (ha : asItems a=none) : Settled a b ↔ HasInstant a ∧ HasInstant b := by
  cases a with
  | list as => cases ha
  | _ => exact Iff.rfl

/-- Alike scalars are equal in the order exactly when they are at the same place. -/
theorem order_eq_scalar (h : Alike a b) (ha : asItems a=none) : order a b=.eq ↔ SamePlace a b := by
  rw [order_alike h ha,samePlace_scalar ha]
  constructor
  · exact (alike_scalars h ha).2.2.2.2.2
  · intro heq
    rw [heq]
    exact compareKeys_self _

theorem sorted_scalar (h : Alike a b) (ha : asItems a=none) (hb : asItems b=none) :
    (Settled a b → compareValuesForSort a b=.ok (order a b)) ∧
    (¬Settled a b → compareValuesForSort a b=.error .panic) := by
  have hfacts := alike_scalars h ha
  rw [settled_scalar ha]
  constructor
  · intro hboth
    rw [order_scalar (.inl ha)]
    exact compareValuesForSort_scalar (.inl ha) hfacts.2.1 hfacts.2.2.1 hboth.1 hboth.2
  · intro hnot
    cases a with
    | temporal v =>
      cases v with
      | dateTime dt x z =>
        cases b with
        | temporal w =>
          cases w with
          | dateTime du y u =>
            rw [compareValuesForSort,compareTemporals]
            cases hm : moment dt x with
            | none => rfl
            | some m =>
              cases hn : moment du y with
              | none => rfl
              | some n => exact absurd ⟨by rw [HasInstant,hm]; exact Option.some_ne_none m,
                  by rw [HasInstant,hn]; exact Option.some_ne_none n⟩ hnot
          | _ => cases h
        | _ => exact h.elim
      | _ =>
        cases b with
        | temporal w =>
          cases w with
          | dateTime du y u => cases h
          | _ => exact absurd ⟨trivial,trivial⟩ hnot
        | _ => exact h.elim
    | _ =>
      cases b with
      | temporal w => exact h.elim
      | _ => exact absurd ⟨trivial,trivial⟩ hnot

/-- Alike scalars are known to be equal or not, and equal exactly when they are the same. -/
theorem valuesEqual_scalar (h : Alike a b) (ha : asItems a=none) :
    (valuesEqual a b=some true ∧ a=b) ∨ (valuesEqual a b=some false ∧ a≠b) := by
  have htest : ∀ {α : Type} [DecidableEq α] (x y : α) (f : α → QueryValue),(∀ x y,f x=f y → x=y) →
      (some (decide (x=y))=some true ∧ f x=f y) ∨ (some (decide (x=y))=some false ∧ f x≠f y) := by
    intro α _ x y f hf
    by_cases hxy : x=y
    · exact .inl ⟨congrArg some (decide_eq_true hxy),congrArg f hxy⟩
    · exact .inr ⟨congrArg some (decide_eq_false hxy),fun heq => hxy (hf x y heq)⟩
  cases a with
  | list as => cases ha
  | bool x =>
    cases b with
    | bool y => exact htest x y QueryValue.bool fun _ _ => QueryValue.bool.inj
    | _ => exact h.elim
  | i64 x =>
    cases b with
    | i64 y => exact htest x y QueryValue.i64 fun _ _ => QueryValue.i64.inj
    | _ => exact h.elim
  | string x =>
    cases b with
    | string y => exact htest x y QueryValue.string fun _ _ => QueryValue.string.inj
    | _ => exact h.elim
  | temporal v =>
    cases b with
    | temporal w => exact htest v w QueryValue.temporal fun _ _ => QueryValue.temporal.inj
    | _ => exact h.elim
  | _ => exact h.elim

end Scalars

section Lists

/-- Induction on two alike values: scalars, and lists item by item as far as both go. -/
theorem alike_induction {motive : QueryValue → QueryValue → Prop}
    {items : List QueryValue → List QueryValue → Prop}
    (scalar : ∀ a b,Alike a b → asItems a=none → asItems b=none → motive a b)
    (list : ∀ as bs,items as bs → motive (.list as) (.list bs)) (left : ∀ bs,items [] bs)
    (right : ∀ a as,items (a::as) [])
    (step : ∀ a as b bs,Alike a b → motive a b → items as bs → items (a::as) (b::bs))
    {a b : QueryValue} (h : Alike a b) : motive a b := by
  induction a using items_induction generalizing b with
  | scalar a ha =>
    cases alike_lists h with
    | inl hscalars => exact scalar a b h hscalars.1 hscalars.2
    | inr hlists =>
      have ⟨as,bs,has,_⟩ := hlists
      rw [has] at ha
      cases ha
  | list as ih =>
    cases alike_lists h with
    | inl hscalars => cases hscalars.1
    | inr hlists =>
      have ⟨as',bs,has,hbs,hitems⟩ := hlists
      cases has
      rw [hbs]
      refine list as bs ?_
      clear h hlists hbs
      induction as generalizing bs with
      | nil => exact left bs
      | cons a as ihas =>
        cases bs with
        | nil => exact right a as
        | cons b bs =>
          exact step a as b bs hitems.1 (ih a List.mem_cons_self hitems.1)
            (ihas (fun x hx => ih x (List.mem_cons_of_mem _ hx)) bs hitems.2)

variable {a b : QueryValue}

section Alike

variable (h : Alike a b)

include h

theorem compareValues_alike : compareValues a b=(compareValuesForSort a b).map some := by
  refine @alike_induction (fun a b => compareValues a b=(compareValuesForSort a b).map some)
    (fun as bs => ∀ lengths,compareItems lengths as bs=(sortItems lengths as bs).map some)
    (fun a b h ha _ => compareValues_scalar h ha) (fun as bs hitems => hitems _) ?_ (fun a as lengths => rfl) ?_ a b h
  · intro bs lengths
    cases bs with
    | _ => rfl
  · intro a as b bs _ hhead hrest lengths
    rw [compareItems,sortItems,hhead]
    cases compareValuesForSort a b with
    | error fault => rfl
    | ok o =>
      cases o with
      | eq => exact hrest lengths
      | lt | gt => rfl

/-- Alike values are equal in the order exactly when they are at the same place. -/
theorem order_eq_iff : order a b=.eq ↔ SamePlace a b := by
  refine @alike_induction (fun a b => order a b=.eq ↔ SamePlace a b)
    (fun as bs => compareLists order as bs=.eq ↔ SamePlaces as bs)
    (fun a b h ha _ => order_eq_scalar h ha) ?_ ?_ ?_ ?_ a b h
  · intro as bs hitems
    rw [order_list]
    exact hitems
  · intro bs
    cases bs with
    | nil => exact ⟨fun _ => trivial,fun _ => rfl⟩
    | cons b bs =>
      rw [(compareLists_nil b bs).1]
      exact ⟨fun heq => (by cases heq),fun hfalse => hfalse.elim⟩
  · intro a as
    rw [(compareLists_nil a as).2]
    exact ⟨fun heq => (by cases heq),fun hfalse => hfalse.elim⟩
  · intro a as b bs _ hhead hrest
    rw [compareLists,Ordering.then_eq_eq]
    exact and_congr hhead hrest

/-- Alike values are sorted by their order when no value without an instant is reached, and
with a panic otherwise. -/
theorem sorted_iff : (Settled a b → compareValuesForSort a b=.ok (order a b)) ∧
    (¬Settled a b → compareValuesForSort a b=.error .panic) := by
  refine @alike_induction (fun a b => (Settled a b → compareValuesForSort a b=.ok (order a b)) ∧
      (¬Settled a b → compareValuesForSort a b=.error .panic))
    (fun as bs => (SettledItems as bs →
        sortItems (compare as.length bs.length) as bs=.ok (compareLists order as bs)) ∧
      (¬SettledItems as bs → sortItems (compare as.length bs.length) as bs=.error .panic))
    (fun a b h ha hb => sorted_scalar h ha hb) ?_ ?_ ?_ ?_ a b h
  · intro as bs hitems
    rw [order_list]
    exact hitems
  · intro bs
    cases bs with
    | nil | cons b bs => exact ⟨fun _ => rfl,fun hnot => absurd trivial hnot⟩
  · intro a as
    exact ⟨fun _ => rfl,fun hnot => absurd trivial hnot⟩
  · intro a as b bs halike hhead hrest
    have hplace := order_eq_iff halike
    rw [List.length_cons,List.length_cons,compare_succ,sortItems,compareLists]
    constructor
    · intro hsettled
      rw [hhead.1 hsettled.1]
      cases horder : order a b with
      | lt | gt => rfl
      | eq => exact hrest.1 (hsettled.2 (hplace.mp horder))
    · intro hnot
      by_cases hfirst : Settled a b
      · have hsame : SamePlace a b := by
          by_contra hother
          exact hnot ⟨hfirst,fun hplaces => absurd hplaces hother⟩
        rw [hhead.1 hfirst,hplace.mpr hsame]
        exact hrest.2 fun hsettled => hnot ⟨hfirst,fun _ => hsettled⟩
      · rw [hhead.2 hfirst]

/-- Alike values are known to be equal or not, and equal exactly when they are the same. -/
theorem valuesEqual_alike : (valuesEqual a b=some true ∧ a=b) ∨ (valuesEqual a b=some false ∧ a≠b) := by
  refine @alike_induction (fun a b => (valuesEqual a b=some true ∧ a=b) ∨ (valuesEqual a b=some false ∧ a≠b))
    (fun as bs => as.length=bs.length → (allKnown false (listsEqual as bs)=some true ∧ as=bs) ∨
      (allKnown false (listsEqual as bs)=some false ∧ as≠bs))
    (fun a b h ha _ => valuesEqual_scalar h ha) ?_ ?_ ?_ ?_ a b h
  · intro as bs hitems
    rw [valuesEqual]
    by_cases hlen : as.length=bs.length
    · rw [if_pos hlen]
      cases hitems hlen with
      | inl hsame => exact .inl ⟨hsame.1,by rw [hsame.2]⟩
      | inr hother => exact .inr ⟨hother.1,fun heq => hother.2 (QueryValue.list.inj heq)⟩
    · rw [if_neg hlen]
      refine .inr ⟨rfl,fun heq => hlen ?_⟩
      rw [QueryValue.list.inj heq]
  · intro bs hlen
    cases bs with
    | nil => exact .inl ⟨rfl,rfl⟩
    | cons b bs => cases hlen
  · intro a as hlen
    cases hlen
  · intro a as b bs _ hhead hrest hlen
    rw [listsEqual]
    cases hhead with
    | inl hsame =>
      rw [hsame.1,allKnown,hsame.2]
      cases hrest (Nat.succ.inj hlen) with
      | inl hrest => exact .inl ⟨hrest.1,by rw [hrest.2]⟩
      | inr hrest => exact .inr ⟨hrest.1,fun heq => hrest.2 (List.cons.inj heq).2⟩
    | inr hother =>
      rw [hother.1,allKnown]
      exact .inr ⟨rfl,fun heq => hother.2 (List.cons.inj heq).1⟩

theorem samePlace_symm : SamePlace a b → SamePlace b a := by
  refine @alike_induction (fun a b => SamePlace a b → SamePlace b a)
    (fun as bs => SamePlaces as bs → SamePlaces bs as) ?_ (fun as bs hitems => hitems) ?_
    (fun a as hfalse => hfalse.elim) ?_ a b h
  · intro a b _ ha hb hplace
    exact (samePlace_scalar hb).mpr ((samePlace_scalar ha).mp hplace).symm
  · intro bs hplaces
    cases bs with
    | nil => trivial
    | cons b bs => exact hplaces.elim
  · intro a as b bs _ hhead hrest hplaces
    exact ⟨hhead hplaces.1,hrest hplaces.2⟩

theorem alike_symm : Alike b a := by
  refine @alike_induction (fun a b => Alike b a) (fun as bs => AlikeItems bs as) ?_ (fun as bs hitems => hitems)
    ?_ (fun a as => trivial) (fun a as b bs _ hhead hrest => ⟨hhead,hrest⟩) a b h
  · intro a b h ha _
    cases a with
    | list as => cases ha
    | temporal v =>
      cases b with
      | temporal w =>
        cases v with
        | _ =>
          cases w with
          | _ => first | exact rfl | cases h
      | _ => exact h.elim
    | bool x =>
      cases b with
      | bool y => trivial
      | _ => exact h.elim
    | i64 x =>
      cases b with
      | i64 y => trivial
      | _ => exact h.elim
    | string x =>
      cases b with
      | string y => trivial
      | _ => exact h.elim
    | _ => exact h.elim
  · intro bs
    cases bs with
    | _ => trivial

theorem settled_symm : Settled a b → Settled b a := by
  refine @alike_induction (fun a b => Settled a b → Settled b a)
    (fun as bs => SettledItems as bs → SettledItems bs as) ?_ (fun as bs hitems => hitems) ?_
    (fun a as _ => trivial) ?_ a b h
  · intro a b _ ha hb hsettled
    exact (settled_scalar hb).mpr ((settled_scalar ha).mp hsettled).symm
  · intro bs _
    cases bs with
    | _ => trivial
  · intro a as b bs halike hhead hrest hsettled
    exact ⟨hhead hsettled.1,fun hplace => hrest (hsettled.2 (samePlace_symm (alike_symm halike) hplace))⟩

theorem alike_known : ¬(a.isNull=true ∨ b.isNull=true) := by
  cases alike_lists h with
  | inl hscalars =>
    have hfacts := alike_scalars h hscalars.1
    rw [hfacts.2.2.2.1,hfacts.2.2.2.2.1]
    decide
  | inr hlists =>
    have ⟨as,bs,has,hbs,_⟩ := hlists
    rw [has,hbs]
    exact fun hnull => hnull.elim (fun h => (by cases h)) fun h => (by cases h)

theorem compareToValue_alike {o : Ordering} (hsort : compareValuesForSort a b=.ok o)
    (pred : Ordering → Bool) : compareToValue a b pred=.ok (.bool (pred o)) := by
  have hcompare := compareValues_alike h
  rw [hsort] at hcompare
  rw [compareToValue,if_neg (alike_known h),hcompare]
  rfl

end Alike

/-- The operators and the sort agree on two values of one type exactly when no date-time
without an instant is reached and values at the same place are the same. -/
theorem coherent_iff {a b : QueryValue} (h : Alike a b) :
    Coherent a b ↔ Settled a b ∧ (SamePlace a b → a=b) := by
  have hsorted := sorted_iff h
  have hequal : evalBinop a .eq b=.ok (triValue (valuesEqual a b)) := rfl
  constructor
  · intro hcoherent
    have ⟨o,hsort,_,heq,_⟩ := hcoherent
    have hsettled : Settled a b := by
      by_contra hnot
      rw [hsorted.2 hnot] at hsort
      cases hsort
    refine ⟨hsettled,fun hplace => ?_⟩
    rw [hsorted.1 hsettled,(order_eq_iff h).mpr hplace] at hsort
    rw [hequal,←Except.ok.inj hsort] at heq
    cases valuesEqual_alike h with
    | inl hsame => exact hsame.2
    | inr hother =>
      rw [hother.1] at heq
      cases heq
  · intro hgood
    have hsort := hsorted.1 hgood.1
    have hback := (sorted_iff (alike_symm h)).1 (settled_symm h hgood.1)
    rw [order_swap a b] at hback
    have hto := fun pred => compareToValue_alike h hsort pred
    have hfrom := fun pred => compareToValue_alike (alike_symm h) hback pred
    have htruth : valuesEqual a b=some (order a b == .eq) := by
      cases valuesEqual_alike h with
      | inl hsame =>
        rw [hsame.1,hsame.2,order_self]
        rfl
      | inr hother =>
        have hne : order a b≠.eq := fun heq => hother.2 (hgood.2 ((order_eq_iff h).mp heq))
        rw [hother.1]
        exact congrArg some (beq_eq_false_iff_ne.mpr hne).symm
    refine ⟨order a b,hsort,hto _,?_,hto _,?_,?_,?_⟩
    · rw [hequal,htruth]
      rfl
    · rw [evalBinop,hto]
      cases order a b with
      | _ => rfl
    · rw [evalBinop,evalBinop,hto,hfrom]
      cases order a b with
      | _ => rfl
    · rw [evalBinop,hto]
      cases order a b with
      | _ => rfl

theorem noon_inDay : (0 : Int)≤43200 ∧ (43200 : Int)<86400 := by decide

/-- Noon at an offset of one hour. -/
def noonAhead : QueryValue := .temporal (.time ⟨43200,0,noon_inDay,midnight.second⟩ ⟨3600,by decide⟩)

theorem utc_bound : -86400<(0 : Int) ∧ (0 : Int)<86400 := by decide

/-- Eleven o'clock at UTC. -/
def elevenUtc : QueryValue := .temporal (.time ⟨39600,0,by decide,midnight.second⟩ ⟨0,utc_bound⟩)

/-- Numbers are alike. -/
theorem coherent_iff_numbers : Alike (.list [.i64 1]) (.list [.i64 2,.i64 3]) ∧
    (Coherent (.list [.i64 1]) (.list [.i64 2,.i64 3]) ↔
      Settled (.list [.i64 1]) (.list [.i64 2,.i64 3]) ∧
      (SamePlace (.list [.i64 1]) (.list [.i64 2,.i64 3]) → QueryValue.list [.i64 1]=.list [.i64 2,.i64 3])) :=
  ⟨⟨trivial,trivial⟩,coherent_iff ⟨trivial,trivial⟩⟩

/-- Noon at one hour ahead is neither before nor after eleven at UTC, and not equal to it. -/
theorem coherent_fails : ¬∀ a b,Alike a b → Coherent a b := by
  intro h
  have ⟨o,hsort,_,heq,_⟩ := h noonAhead elevenUtc rfl
  have hplace : compareValuesForSort noonAhead elevenUtc=.ok .eq := rfl
  have hdifferent : evalBinop noonAhead .eq elevenUtc=.ok (.bool false) := rfl
  rw [hplace] at hsort
  rw [hdifferent,←Except.ok.inj hsort] at heq
  cases heq

end Lists

end GraphDbLite.ComparisonOperators
