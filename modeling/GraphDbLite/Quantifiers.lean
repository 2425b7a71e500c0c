import GraphDbLite.IndexAccess
import GraphDbLite.ValueIdentity

/-!
# Quantifiers and membership

The quantifiers count true, false and unknown outcomes. Their tables are the three-valued
connectives over the outcomes, and `single` says how many outcomes are true over all
readings of the unknown ones. Equality does not depend on the order of its operands, so
membership is the existence of an equal item.
-/

namespace GraphDbLite.Quantifiers

open GraphTypes GraphStore WriteOperators NodeRecords CypherSyntax CypherValues CypherEval ValueEquality ValueIdentity IndexAccess

section Equality

theorem f64Eq_symm (a b : UInt64) : f64Eq a b=f64Eq b a := by
  unfold f64Eq
  cases f64Key a with
  | none =>
    cases f64Key b with
    | _ => rfl
  | some x =>
    cases f64Key b with
    | none => rfl
    | some y => exact decide_eq_decide.mpr eq_comm

theorem edgeEq_comm {e f : EdgeOf Value} (he : finiteEdge e=true) (hf : finiteEdge f=true) :
    edgeEq e f=edgeEq f e := by
  cases h : edgeEq e f with
  | true => exact (valueEq_symm (.edge e) (.edge f) he hf h).symm
  | false =>
    cases h' : edgeEq f e with
    | false => rfl
    | true =>
      exact absurd (valueEq_symm (.edge f) (.edge e) hf he h') (Bool.eq_false_iff.mp h)

theorem pathsEqual_symm (a b : PathOf Value) : pathsEqual a b=pathsEqual b a := by
  unfold pathsEqual
  rw [decide_eq_decide.mpr (eq_comm (a:=a.nodes.map fun n => n.id)),
    decide_eq_decide.mpr (eq_comm (a:=a.edges.map fun e => (e.src,e.dst,e.label)))]

theorem sameKeys_symm (a b : List (String×Value)) : sameKeys a b=sameKeys b a := Bool.and_comm _ _

theorem allKnown_unknown (parts : List (Option Bool)) :
    allKnown true parts=if some false∈parts then some false else none := by
  induction parts with
  | nil => rfl
  | cons part rest ih =>
    cases part with
    | none =>
      rw [allKnown,ih]
      simp
    | some b =>
      cases b with
      | false => simp [allKnown]
      | true =>
        rw [allKnown,ih]
        simp

theorem allKnown_eq (parts : List (Option Bool)) : allKnown false parts=
    if some false∈parts then some false else if none∈parts then none else some true := by
  induction parts with
  | nil => rfl
  | cons part rest ih =>
    cases part with
    | none =>
      rw [allKnown,allKnown_unknown]
      simp
    | some b =>
      cases b with
      | false => simp [allKnown]
      | true =>
        rw [allKnown,ih]
        simp

theorem entriesEqual_eq (a b : List (String×Value)) : entriesEqual a b=a.map fun entry => entryEqual entry b := by
  induction a with
  | nil => rfl
  | cons entry rest ih => rw [entriesEqual,ih,List.map_cons]

/-- Maps whose values are equal in either order have the same outcomes in either order. -/
theorem entriesEqual_swap {a b : List (String×Value)} (ha : finiteEntries a=true) (hkeys : sameKeys a b=true)
    (hvalues : ∀ entry∈b,∀ other,(entry.1,other)∈a → valuesEqual other entry.2=valuesEqual entry.2 other)
    {part : Option Bool} (h : part∈entriesEqual a b) : part∈entriesEqual b a := by
  rw [entriesEqual_eq] at h
  obtain ⟨entry,hentry,hpart⟩ := List.mem_map.mp h
  rw [sameKeys,Bool.and_eq_true] at hkeys
  obtain ⟨other,hother⟩ := Option.isSome_iff_exists.mp (List.all_eq_true.mp hkeys.1 entry hentry)
  have hin := mem_of_getProp hother
  have hback : getProp a entry.1=some entry.2 := getProp_of_mem ha hentry
  have hforth : entryEqual (entry.1,entry.2) b=valuesEqual entry.2 other := by rw [entryEqual,hother]
  rw [entriesEqual_eq,←hpart]
  refine List.mem_map.mpr ⟨(entry.1,other),hin,?_⟩
  rw [entryEqual,hback]
  exact (hvalues (entry.1,other) hin entry.2 hentry).symm.trans hforth.symm

theorem maps_symm {a b : List (String×Value)} (ha : finiteEntries a=true) (hb : finiteEntries b=true)
    (hvalues : ∀ entry∈a,∀ other,finiteMaps other=true → valuesEqual entry.2 other=valuesEqual other entry.2) :
    valuesEqual (.map a) (.map b)=valuesEqual (.map b) (.map a) := by
  rw [valuesEqual,valuesEqual,sameKeys_symm b a]
  by_cases hkeys : sameKeys a b=true
  · have hparts : ∀ part,part∈entriesEqual a b ↔ part∈entriesEqual b a := by
      intro part
      constructor
      · exact entriesEqual_swap ha hkeys fun entry hentry other hother =>
          hvalues (entry.1,other) hother entry.2 (finiteMaps_of_mem hb hentry)
      · exact entriesEqual_swap hb (by rw [sameKeys_symm]; exact hkeys) fun entry hentry other hother =>
          (hvalues entry hentry other (finiteMaps_of_mem hb hother)).symm
    rw [if_pos hkeys,if_pos hkeys,allKnown_eq,allKnown_eq]
    simp only [hparts]
  · rw [if_neg hkeys,if_neg hkeys]

theorem itemsEqual_symm {a b : List Value} (h : ∀ x∈a,∀ y∈b,valuesEqual x y=valuesEqual y x) :
    itemsEqual a b=itemsEqual b a := by
  induction a generalizing b with
  | nil =>
    cases b with
    | _ => rfl
  | cons x xs ih =>
    cases b with
    | nil => rfl
    | cons y ys =>
      rw [itemsEqual,itemsEqual,h x List.mem_cons_self y List.mem_cons_self,
        ih fun x hx y hy => h x (List.mem_cons_of_mem _ hx) y (List.mem_cons_of_mem _ hy)]

theorem valuesEqual_symm (a b : Value) (ha : finiteMaps a=true) (hb : finiteMaps b=true) :
    valuesEqual a b=valuesEqual b a := by
  induction a using value_induct generalizing b with
  | h a hitems hmaps =>
    obtain ⟨hfinite,-⟩ := finite_inside ha
    obtain ⟨hfinite',-⟩ := finite_inside hb
    cases a with
    | f64 x =>
      cases b with
      | i64 y | f64 y => exact congrArg some (f64Eq_symm _ _)
      | _ => rfl
    | list items =>
      cases b with
      | list more =>
        have hsame : itemsEqual items more=itemsEqual more items := itemsEqual_symm fun x hx y hy => hitems x hx y (hfinite x hx) (hfinite' y hy)
        rw [valuesEqual,valuesEqual,hsame]
        by_cases h : items.length=more.length
        · rw [if_pos h,if_pos h.symm]
        · rw [if_neg h,if_neg (Ne.symm h)]
      | _ => rfl
    | edge e =>
      cases b with
      | edge f =>
        rw [finiteMaps] at ha hb
        exact congrArg some (edgeEq_comm ha hb)
      | _ => rfl
    | path p =>
      cases b with
      | path q => exact congrArg some (pathsEqual_symm p q)
      | _ => rfl
    | map entries =>
      cases b with
      | map others =>
        rw [finiteMaps] at ha hb
        exact maps_symm ha hb fun entry hentry other hother =>
          hmaps entries List.mem_cons_self entry hentry other (finiteMaps_of_mem ha hentry) hother
      | _ => rfl
    | _ =>
      cases b with
      | i64 y => first | rfl | exact congrArg some (decide_eq_decide.mpr eq_comm)
      | f64 y => first | rfl | exact congrArg some (f64Eq_symm _ _)
      | _ => first | rfl | exact congrArg some (decide_eq_decide.mpr eq_comm) | simp only [valuesEqual,eq_comm]

end Equality

section Outcomes

/-- A conjunction of outcomes is false with a false one, else unknown with an unknown one. -/
theorem foldr_triAnd (ts : List (Option Bool)) : ts.foldr triAnd (some true)=
    if 0<ts.count (some false) then some false else if 0<ts.count none then none else some true := by
  simp only [List.count_pos_iff]
  induction ts with
  | nil => rfl
  | cons t ts ih =>
    rw [List.foldr_cons,ih]
    cases t with
    | none =>
      by_cases hfalse : some false∈ts
      · simp [triAnd,hfalse]
      · by_cases hnone : none∈ts
        · simp [triAnd,hfalse,hnone]
        · simp [triAnd,hfalse,hnone]
    | some b =>
      cases b with
      | false => simp [triAnd]
      | true =>
        by_cases hfalse : some false∈ts
        · simp [triAnd,hfalse]
        · by_cases hnone : none∈ts
          · simp [triAnd,hfalse,hnone]
          · simp [triAnd,hfalse,hnone]

/-- A disjunction of outcomes is true with a true one, else unknown with an unknown one. -/
theorem foldr_triOr (ts : List (Option Bool)) : ts.foldr triOr (some false)=
    if 0<ts.count (some true) then some true else if 0<ts.count none then none else some false := by
  simp only [List.count_pos_iff]
  induction ts with
  | nil => rfl
  | cons t ts ih =>
    rw [List.foldr_cons,ih]
    cases t with
    | none =>
      by_cases htrue : some true∈ts
      · simp [triOr,htrue]
      · by_cases hnone : none∈ts
        · simp [triOr,htrue,hnone]
        · simp [triOr,htrue,hnone]
    | some b =>
      cases b with
      | true => simp [triOr]
      | false =>
        by_cases htrue : some true∈ts
        · simp [triOr,htrue]
        · by_cases hnone : none∈ts
          · simp [triOr,htrue,hnone]
          · simp [triOr,htrue,hnone]

theorem count_outcomes (ts : List (Option Bool)) :
    ts.length=ts.count (some true)+ts.count (some false)+ts.count none := by
  induction ts with
  | nil => rfl
  | cons t ts ih =>
    cases t with
    | none =>
      simp [ih]
      omega
    | some b =>
      cases b with
      | false | true =>
        simp [ih]
        omega

/-- A reading of the outcomes: an unknown one is read as true or as false. -/
def Reading (ts : List (Option Bool)) (rs : List Bool) : Prop :=
  List.Forall₂ (fun t r => ∀ b,t=some b → r=b) ts rs

/-- The readings have any number of true outcomes from the known ones up to the known and
the unknown ones. -/
theorem reading_count (ts : List (Option Bool)) (k : Nat) : (∃ rs,Reading ts rs ∧ rs.count true=k) ↔
    ts.count (some true)≤k ∧ k≤ts.count (some true)+ts.count none := by
  induction ts generalizing k with
  | nil =>
    constructor
    · intro h
      have ⟨rs,hread,hcount⟩ := h
      cases hread
      rw [←hcount]
      exact ⟨Nat.le_refl _,Nat.le_refl _⟩
    · intro h
      have hzero : k=0 := Nat.le_zero.mp h.2
      exact ⟨[],.nil,by rw [hzero]; rfl⟩
  | cons t ts ih =>
    have hsplit : (∃ rs,Reading (t::ts) rs ∧ rs.count true=k) ↔
        ∃ r : Bool,(∀ b,t=some b → r=b) ∧ ∃ rs,Reading ts rs ∧ rs.count true+(if r=true then 1 else 0)=k := by
      constructor
      · intro h
        have ⟨rs,hread,hcount⟩ := h
        cases hread with
        | @cons _ r _ rs hr hrs =>
          refine ⟨r,hr,rs,hrs,?_⟩
          rw [←hcount,List.count_cons]
          simp only [beq_iff_eq]
      · intro h
        have ⟨r,hr,rs,hrs,hcount⟩ := h
        refine ⟨r::rs,.cons hr hrs,?_⟩
        rw [←hcount,List.count_cons]
        simp only [beq_iff_eq]
    have hrest : ∀ m,(∃ rs,Reading ts rs ∧ rs.count true+m=k) ↔
        ts.count (some true)+m≤k ∧ k≤ts.count (some true)+ts.count none+m := by
      intro m
      constructor
      · intro h
        have ⟨rs,hrs,hcount⟩ := h
        have hbounds := (ih (rs.count true)).mp ⟨rs,hrs,rfl⟩
        omega
      · intro h
        have ⟨rs,hrs,hcount⟩ := (ih (k-m)).mpr (by omega)
        exact ⟨rs,hrs,by omega⟩
    rw [hsplit]
    cases t with
    | some b =>
      cases b with
      | true =>
        have htrue : (some true::ts).count (some true)=ts.count (some true)+1 := List.count_cons_self
        have hnone : (some true::ts).count none=ts.count none := by simp
        rw [htrue,hnone]
        constructor
        · intro h
          have ⟨r,hr,hex⟩ := h
          rw [hr true rfl,if_pos rfl,hrest] at hex
          omega
        · intro h
          exact ⟨true,fun b hb => Option.some.inj hb,by rw [if_pos rfl,hrest]; omega⟩
      | false =>
        have htrue : (some false::ts).count (some true)=ts.count (some true) := by simp
        have hnone : (some false::ts).count none=ts.count none := by simp
        rw [htrue,hnone]
        constructor
        · intro h
          have ⟨r,hr,hex⟩ := h
          rw [hr false rfl,if_neg Bool.false_ne_true,hrest] at hex
          omega
        · intro h
          exact ⟨false,fun b hb => Option.some.inj hb,by rw [if_neg Bool.false_ne_true,hrest]; omega⟩
    | none =>
      have htrue : (none::ts).count (some true)=ts.count (some true) := by simp
      have hnone : (none::ts).count none=ts.count none+1 := List.count_cons_self
      rw [htrue,hnone]
      constructor
      · intro h
        have ⟨r,hr,hex⟩ := h
        rw [hrest] at hex
        split_ifs at hex
        · omega
        · omega
      · intro h
        by_cases hlow : k≤ts.count (some true)+ts.count none
        · exact ⟨false,fun b hb => (by cases hb),by rw [if_neg Bool.false_ne_true,hrest]; omega⟩
        · exact ⟨true,fun b hb => (by cases hb),by rw [if_pos rfl,hrest]; omega⟩

/-- `single` over the outcomes: true when every reading has one true outcome, false when none
has, else unknown. -/
structure SingleOver (ts : List (Option Bool)) (t : Option Bool) : Prop where
  /-- Certainly one. -/
  certain : t=some true ↔ ∀ rs,Reading ts rs → rs.count true=1
  /-- Certainly not one. -/
  excluded : t=some false ↔ ∀ rs,Reading ts rs → rs.count true≠1
  /-- Possibly one. -/
  possible : t=none ↔ (∃ rs,Reading ts rs ∧ rs.count true=1) ∧ ∃ rs,Reading ts rs ∧ rs.count true≠1

theorem singleOver_quantify (ts : List (Option Bool)) :
    SingleOver ts (quantify .single (ts.count (some true)) (ts.count (some false)) (ts.count none)) := by
  have hone : (∃ rs,Reading ts rs ∧ rs.count true=1) ↔ ts.count (some true)≤1 ∧
      1≤ts.count (some true)+ts.count none := reading_count ts 1
  have hother : (∃ rs,Reading ts rs ∧ rs.count true≠1) ↔ ¬(ts.count (some true)=1 ∧ ts.count none=0) := by
    constructor
    · intro h hfixed
      have ⟨rs,hrs,hne⟩ := h
      have hbounds := (reading_count ts (rs.count true)).mp ⟨rs,hrs,rfl⟩
      omega
    · intro h
      by_cases hlow : ts.count (some true)=1
      · have ⟨rs,hrs,hcount⟩ := (reading_count ts 2).mpr (by omega)
        exact ⟨rs,hrs,by omega⟩
      · have ⟨rs,hrs,hcount⟩ := (reading_count ts (ts.count (some true))).mpr (by omega)
        exact ⟨rs,hrs,by omega⟩
  have hall : (∀ rs,Reading ts rs → rs.count true=1) ↔ ¬∃ rs,Reading ts rs ∧ rs.count true≠1 := by
    constructor
    · intro h hex
      have ⟨rs,hrs,hne⟩ := hex
      exact hne (h rs hrs)
    · intro h rs hrs
      by_contra hne
      exact h ⟨rs,hrs,hne⟩
  have hnever : (∀ rs,Reading ts rs → rs.count true≠1) ↔ ¬∃ rs,Reading ts rs ∧ rs.count true=1 := by
    constructor
    · intro h hex
      have ⟨rs,hrs,heq⟩ := hex
      exact h rs hrs heq
    · intro h rs hrs heq
      exact h ⟨rs,hrs,heq⟩
  have htable : quantify .single (ts.count (some true)) (ts.count (some false)) (ts.count none)=
      if ts.count (some true)=1 ∧ ts.count none=0 then some true
      else if 0<ts.count none ∧ ts.count (some true)≤1 then none else some false := rfl
  rw [htable]
  split_ifs with hcertain hpossible
  · refine ⟨?_,?_,?_⟩
    · rw [hall,hother]
      exact ⟨fun _ => not_not.mpr hcertain,fun _ => rfl⟩
    · rw [hnever,hone]
      exact ⟨fun h => (by cases h),fun h => absurd ⟨by omega,by omega⟩ h⟩
    · rw [hone,hother]
      exact ⟨fun h => (by cases h),fun h => absurd hcertain h.2⟩
  · refine ⟨?_,?_,?_⟩
    · rw [hall,hother]
      exact ⟨fun h => (by cases h),fun h => absurd hcertain h⟩
    · rw [hnever,hone]
      exact ⟨fun h => (by cases h),fun h => absurd ⟨by omega,by omega⟩ h⟩
    · rw [hone,hother]
      exact ⟨fun _ => ⟨⟨by omega,by omega⟩,hcertain⟩,fun _ => rfl⟩
  · refine ⟨?_,?_,?_⟩
    · rw [hall,hother]
      exact ⟨fun h => (by cases h),fun h => absurd hcertain h⟩
    · rw [hnever,hone]
      exact ⟨fun _ => by omega,fun _ => rfl⟩
    · rw [hone,hother]
      exact ⟨fun h => (by cases h),fun h => absurd h.1 (by omega)⟩

end Outcomes

section Evaluation

variable {S : Type} (env : EvalEnv S) (st : Store)

/-- Outcomes of a predicate on the items of a list. -/
def Outcomes (predicate : Cell) (rec : NamedRecord) (x : String) (items : List Value)
    (ts : List (Option Bool)) : Prop :=
  List.Forall₂ (fun item t => predicate (rec.set x item)=.ok (triValue t)) items ts

theorem toTribool_triValue (t : Option Bool) : toTribool (triValue t)=.ok t := by
  cases t with
  | _ => rfl

variable {rec : NamedRecord} {x : String}

theorem quantifiedItems_ok {predicate : Cell} {items : List Value} {ts : List (Option Bool)}
    (h : Outcomes predicate rec x items ts) : quantifiedItems x predicate rec items=.ok (ts.map triValue) := by
  induction h with
  | nil => rfl
  | @cons item t items ts hitem hrest ih =>
    rw [quantifiedItems,hitem,ih]
    rfl

theorem evalQuantifier_list {listExpr predicate : Cell} {items : List Value} {ts : List (Option Bool)}
    (hlist : listExpr rec=.ok (.list items)) (h : Outcomes predicate rec x items ts) (kind : QuantifierKind) :
    evalQuantifier kind x listExpr predicate rec= .ok
    (triValue (quantify kind (ts.count (some true)) (ts.count (some false)) (ts.count none))) := by
  have hcount : ∀ (f : Value → Bool) (b : Bool),f .null=false → f (.bool b)=true → f (.bool !b)=false →
      (ts.map triValue).countP f=ts.count (some b) := by
    intro f b hnull hsame hother
    rw [List.countP_map,List.count]
    apply List.countP_congr
    intro t _
    cases t with
    | none => simp [triValue,hnull]
    | some c =>
      by_cases hc : c=b
      · simp [triValue,hc,hsame]
      · have hneg : c= !b := Bool.eq_not_of_ne hc
        simp [triValue,hneg,hother]
  have hlength := count_outcomes ts
  have hrest : (ts.map triValue).length-ts.count (some true)-ts.count (some false)=ts.count none := by
    rw [List.length_map]
    omega
  unfold evalQuantifier
  rw [hlist]
  simp only [bind,Except.bind,quantifiedItems_ok h,pure,Except.pure]
  rw [hcount _ true rfl rfl rfl,hcount _ false rfl rfl rfl,hrest]

theorem evalQuantifier_null {listExpr predicate : Cell} (hlist : listExpr rec=.ok .null)
    (kind : QuantifierKind) : evalQuantifier kind x listExpr predicate rec=.ok .null := by
  unfold evalQuantifier
  rw [hlist]
  rfl

theorem evalNot_triValue {inner : Cell} {t : Option Bool} (h : inner rec=.ok (triValue t)) :
    evalNot inner rec=.ok (triValue (t.map Bool.not)) := by
  unfold evalNot
  rw [h]
  simp only [bind,Except.bind,toTribool_triValue]
  rfl

/-- The laws of the quantifiers over a list expression with a predicate. -/
structure QuantifierLaws (rec : NamedRecord) (x : String) (l p : Expr S) (list : Value) : Prop where
  /-- `all` is the conjunction of the outcomes, `any` their disjunction, and `single` reads them. -/
  outcomes : ∀ items,list=.list items → ∃ ts,Outcomes (evalExpr env st p) rec x items ts ∧
    evalExpr env st (.quantifier .all x l p) rec=.ok (triValue (ts.foldr triAnd (some true))) ∧
    evalExpr env st (.quantifier .any x l p) rec=.ok (triValue (ts.foldr triOr (some false))) ∧
    ∃ t,evalExpr env st (.quantifier .single x l p) rec=.ok (triValue t) ∧ SingleOver ts t
  /-- `none` is the negation of `any`. -/
  none : evalExpr env st (.quantifier .none x l p) rec=evalExpr env st (.not (.quantifier .any x l p)) rec
  /-- `all` is the negation of `any` of the negation. -/
  all : evalExpr env st (.quantifier .all x l p) rec=
    evalExpr env st (.not (.quantifier .any x l (.not p))) rec

theorem quantify_none (trues falses nulls : Nat) :
    quantify .none trues falses nulls=(quantify .any trues falses nulls).map Bool.not := by
  have hnone : quantify .none trues falses nulls=
      if 0<trues then some false else if 0<nulls then none else some true := rfl
  have hany : quantify .any trues falses nulls=
      if 0<trues then some true else if 0<nulls then none else some false := rfl
  rw [hnone,hany]
  split_ifs with htrue hnull
  · rfl
  · rfl
  · rfl

/-- The table of `all` is opposite to that of `any` with true and false exchanged. -/
theorem quantify_all (trues falses nulls : Nat) :
    quantify .all trues falses nulls=(quantify .any falses trues nulls).map Bool.not := by
  have hall : quantify .all trues falses nulls=
      if 0<falses then some false else if 0<nulls then none else some true := rfl
  have hany : quantify .any falses trues nulls=
      if 0<falses then some true else if 0<nulls then none else some false := rfl
  rw [hall,hany]
  split_ifs with hfalse hnull
  · rfl
  · rfl
  · rfl

theorem count_not (ts : List (Option Bool)) (b : Bool) : (ts.map (Option.map Bool.not)).count (some b)=
      ts.count (some !b) ∧ (ts.map (Option.map Bool.not)).count none=ts.count none := by
  induction ts with
  | nil => exact ⟨rfl,rfl⟩
  | cons t ts ih =>
    rw [List.map_cons,List.count_cons,List.count_cons,List.count_cons,List.count_cons,ih.1,ih.2]
    cases t with
    | none => exact ⟨rfl,rfl⟩
    | some c =>
      cases b with
      | _ =>
        cases c with
        | _ => exact ⟨rfl,rfl⟩

variable {env st}

/-- The quantifiers obey the laws where the predicate is a truth value or null. -/
theorem quantifierLaws {l p : Expr S} {list : Value}
    (hl : evalExpr env st l rec=.ok list) (hlist : list=.null ∨ ∃ items,list=.list items ∧
      ∀ item∈items,∃ t,evalExpr env st p (rec.set x item)=.ok (triValue t)) :
    QuantifierLaws env st rec x l p list := by
  cases hlist with
  | inl hnull =>
    rw [hnull] at hl ⊢
    have hkind : ∀ kind q,evalExpr env st (.quantifier kind x l q) rec=.ok (triValue Option.none) :=
      fun kind q => evalQuantifier_null hl kind
    have hnot : ∀ q,evalExpr env st (.not (.quantifier .any x l q)) rec=.ok (triValue Option.none) :=
      fun q => evalNot_triValue (hkind .any q)
    refine ⟨fun items h => (by cases h),?_,?_⟩
    · rw [hkind,hnot]
    · rw [hkind,hnot]
  | inr hitems =>
    have ⟨items,heq,hpred⟩ := hitems
    have hts : ∃ ts,Outcomes (evalExpr env st p) rec x items ts := by
      clear heq hitems
      induction items with
      | nil => exact ⟨[],.nil⟩
      | cons item items ih =>
        have ⟨t,ht⟩ := hpred item List.mem_cons_self
        have ⟨ts,hts⟩ := ih fun other hother => hpred other (List.mem_cons_of_mem _ hother)
        exact ⟨t::ts,.cons ht hts⟩
    have ⟨ts,hts⟩ := hts
    rw [heq] at hl ⊢
    have hkind : ∀ kind,evalExpr env st (.quantifier kind x l p) rec=
        .ok (triValue (quantify kind (ts.count (some true)) (ts.count (some false)) (ts.count Option.none))) :=
      fun kind => evalQuantifier_list hl hts kind
    have hnegated : Outcomes (evalExpr env st (.not p)) rec x items (ts.map (Option.map Bool.not)) := by
      rw [Outcomes,List.forall₂_map_right_iff]
      exact hts.imp fun item t h => evalNot_triValue h
    have hany : evalExpr env st (.quantifier .any x l (.not p)) rec=
        .ok (triValue (quantify .any (ts.count (some false)) (ts.count (some true)) (ts.count Option.none))) := by
      have hrun := evalQuantifier_list hl hnegated .any
      rw [(count_not ts true).1,(count_not ts false).1,(count_not ts true).2] at hrun
      exact hrun
    refine ⟨fun other hother => ?_,?_,?_⟩
    · rw [←Value.list.inj hother]
      refine ⟨ts,hts,?_,?_,_,hkind .single,singleOver_quantify ts⟩
      · rw [hkind,foldr_triAnd]
        rfl
      · rw [hkind,foldr_triOr]
        rfl
    · rw [hkind,quantify_none]
      exact (evalNot_triValue (hkind .any)).symm
    · rw [hkind,quantify_all]
      exact (evalNot_triValue hany).symm

end Evaluation

section Membership

variable {S : Type} {env : EvalEnv S} {st : Store}

theorem anyKnown_eq (hasNull : Bool) (parts : List (Option Bool)) : anyKnown hasNull parts=
    triOr (if hasNull=true then none else some false) (parts.foldr triOr (some false)) := by
  induction parts generalizing hasNull with
  | nil =>
    cases hasNull with
    | _ => rfl
  | cons part rest ih =>
    rw [List.foldr_cons]
    generalize rest.foldr triOr (some false)=t at ih ⊢
    cases part with
    | none =>
      rw [anyKnown,ih]
      cases hasNull with
      | _ =>
        cases t with
        | none => rfl
        | some b =>
          cases b with
          | _ => rfl
    | some b =>
      cases b with
      | true =>
        cases hasNull with
        | _ => rfl
      | false =>
        rw [anyKnown,ih]
        cases hasNull with
        | _ =>
          cases t with
          | none => rfl
          | some b =>
            cases b with
            | _ => rfl

theorem evalIn_list (value : Value) (items : List Value) : evalIn value (.list items)=
    .ok (triValue ((items.map (valuesEqual value)).foldr triOr (some false))) := by
  have hknown : ∀ parts : List (Option Bool),anyKnown false parts=parts.foldr triOr (some false) := by
    intro parts
    rw [anyKnown_eq]
    generalize parts.foldr triOr (some false)=t
    cases t with
    | none => rfl
    | some b =>
      cases b with
      | _ => rfl
  cases value with
  | null =>
    cases items with
    | nil => rfl
    | cons item rest =>
      have hnull : ∀ item,valuesEqual .null item=none := fun item => rfl
      rw [evalIn,foldr_triOr]
      have htrue : ¬0<((item::rest).map (valuesEqual .null)).count (some true) := by
        rw [List.count_pos_iff]
        intro h
        have ⟨other,_,heq⟩ := List.mem_map.mp h
        rw [hnull] at heq
        cases heq
      have hnone : 0<((item::rest).map (valuesEqual .null)).count none := by
        rw [List.count_pos_iff]
        exact List.mem_map.mpr ⟨item,List.mem_cons_self,hnull item⟩
      rw [if_neg htrue,if_pos hnone]
      rfl
  | _ =>
    rw [evalIn,hknown]
    intro h
    cases h

/-- A variable with no fields below it. -/
def Bare (rec : NamedRecord) (x : String) : Prop := ∀ field,rec.get (x++("."++field))=none

theorem evalVariable_set {rec : NamedRecord} {x : String} (hbare : Bare rec x) (item : Value) :
    evalVariable x (rec.set x item)=.ok item := by
  have hfield : ∀ field,(rec.set x item).get (x++("."++field))=none := by
    intro field
    have hother : x++("."++field)≠x := by
      intro heq
      have hlength := congrArg String.length heq
      rw [String.length_append,String.length_append] at hlength
      have hdot : ".".length=1 := rfl
      omega
    rw [get_set_ne hother]
    exact hbare field
  have hsrc := hfield "__src"
  have hid := hfield "__id"
  have hedge : edgeIdentity (rec.set x item) x=none := by rw [edgeIdentity,show ".__src"="."++"__src" by rfl,hsrc]
  have hcompound : buildCompoundBinding (rec.set x item) x=some item ∨
      buildCompoundBinding (rec.set x item) x=none := by
    rw [buildCompoundBinding,get_set_self,hedge,show ".__id"="."++"__id" by rfl,hid]
    cases item with
    | list | path => exact .inl rfl
    | _ => exact .inr rfl
  rw [evalVariable]
  cases hcompound with
  | inl h => rw [h]
  | inr h =>
    rw [h,get_set_self]
    rfl

theorem finiteMaps_of_item {items : List Value} {item : Value} (h : finiteItems items=true) (hitem : item∈items) :
    finiteMaps item=true := by
  induction items with
  | nil => cases hitem
  | cons first rest ih =>
    rw [finiteItems,Bool.and_eq_true] at h
    cases List.mem_cons.mp hitem with
    | inl heq =>
      rw [heq]
      exact h.1
    | inr hrest => exact ih h.2 hrest

/-- Membership is the existence of an equal item, for a name that neither the row nor the
tested expression knows. -/
theorem in_eq_any {rec : NamedRecord} {x : String} {l v : Expr S} {list value : Value}
    (hl : evalExpr env st l rec=.ok list) (hlist : list=.null ∨ ∃ items,list=.list items)
    (hv : evalExpr env st v rec=.ok value) (hfresh : ∀ item,evalExpr env st v (rec.set x item)=.ok value)
    (hbare : Bare rec x) (hmaps : finiteMaps list=true) (hmap : finiteMaps value=true) :
    evalExpr env st (.binaryOp v .in l) rec=
      evalExpr env st (.quantifier .any x l (.binaryOp (.var x) .eq v)) rec := by
  have hin : evalExpr env st (.binaryOp v .in l) rec=evalIn value list := by
    have hrun : evalExpr env st (.binaryOp v .in l) rec=
        evalBinary env (evalExpr env st v) .in (evalExpr env st l) rec := rfl
    rw [hrun,evalBinary,hv,hl]
    rfl
  rw [hin]
  cases hlist with
  | inl hnull =>
    rw [hnull] at hl ⊢
    have hany : evalExpr env st (.quantifier .any x l (.binaryOp (.var x) .eq v)) rec=.ok .null :=
      evalQuantifier_null hl .any
    rw [hany]
    cases value with
    | _ => rfl
  | inr hitems =>
    obtain ⟨items,heq⟩ := hitems
    rw [heq] at hl hmaps ⊢
    rw [finiteMaps] at hmaps
    have houtcomes : Outcomes (evalExpr env st (.binaryOp (.var x) .eq v)) rec x items
        (items.map (valuesEqual value)) := by
      rw [Outcomes,List.forall₂_map_right_iff,List.forall₂_same]
      intro item hitem
      have hrun : evalExpr env st (.binaryOp (.var x) .eq v) (rec.set x item)=
          evalBinary env (evalVariable x) .eq (evalExpr env st v) (rec.set x item) := rfl
      rw [hrun,evalBinary,evalVariable_set hbare,hfresh,
        valuesEqual_symm value item hmap (finiteMaps_of_item hmaps hitem)]
      rfl
    have hany : evalExpr env st (.quantifier .any x l (.binaryOp (.var x) .eq v)) rec=
        .ok (triValue (quantify .any _ _ _)) := evalQuantifier_list hl houtcomes .any
    rw [hany,evalIn_list,foldr_triOr]
    rfl

variable (env st)

/-- The laws of quantifiers, membership and equality in three-valued logic. -/
structure ThreeValuedLogic : Prop where
  /-- Over null or a list on whose items the predicate is a truth value or null. -/
  quantifiers : ∀ rec x l p list,evalExpr env st l rec=.ok list → (list=.null ∨ ∃ items,list=.list items ∧
    ∀ item∈items,∃ t,evalExpr env st p (rec.set x item)=.ok (triValue t)) → QuantifierLaws env st rec x l p list
  /-- For a name that neither the row nor the tested expression knows. -/
  membership : ∀ rec x l v list value,evalExpr env st l rec=.ok list → (list=.null ∨ ∃ items,list=.list items) →
    evalExpr env st v rec=.ok value → (∀ item,evalExpr env st v (rec.set x item)=.ok value) → Bare rec x →
    finiteMaps list=true → finiteMaps value=true → evalExpr env st (.binaryOp v .in l) rec=
      evalExpr env st (.quantifier .any x l (.binaryOp (.var x) .eq v)) rec
  /-- For all values. -/
  symmetric : ∀ a b,finiteMaps a=true → finiteMaps b=true → valuesEqual a b=valuesEqual b a

/-- A list of one and an unknown value. -/
def oneAndNull : Expr Empty := .list [.literal (.i64 1),.literal .null]

end Membership

end GraphDbLite.Quantifiers
