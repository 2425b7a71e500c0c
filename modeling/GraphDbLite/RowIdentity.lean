import GraphDbLite.Aggregation
import GraphDbLite.ValueIdentity

/-!
# Which rows grouping, DISTINCT, UNION and count(DISTINCT) identify

All four compare values by the library equality, so they identify two rows exactly when
their values are library-equal. The rows are those with equal values when the forms of
the values decide. Relationships are identified without their sequence numbers.
-/

namespace GraphDbLite.RowIdentity

open GraphTypes GraphStore CypherSyntax CypherValues CypherEval WriteOperators QueryPlan
open QueryExecutor Projection Aggregation ValueEquality Grouping ValueIdentity

section Mechanisms

/-- Rows with the same fields. -/
def recordEq (a b : NamedRecord) : Bool := a.fields.length=b.fields.length && entriesWithin a.fields b.fields

/-- `DISTINCT`: the first row of each kind. -/
def execDistinct (records : Rows) : Rows := keepFirst recordEq [] records

/-- `DISTINCT` on slot rows. -/
def distinctSlots (rows : List (List Value)) : List (List Value) := keepFirst listEq [] rows

/-- Whether a field is the score of a full-text scan. -/
def isFtsScore (key : String) : Bool := endsWithText key ".__fts_score"

/-- Rows with the same fields, scores aside. -/
def unionRowsEqual (a b : NamedRecord) : Bool :=
  let scored := fun field : String×Value => !isFtsScore field.1
  (a.fields.filter scored).length=(b.fields.filter scored).length &&
    (a.fields.filter scored).all fun field =>
      match b.get field.1 with
      | some val => valueEq val field.2
      | none => false

/-- `UNION` and `UNION ALL` of the rows of several branches. -/
def execUnion (inputs : List Rows) (all : Bool) : Rows :=
  if all=true then inputs.flatten else keepFirst unionRowsEqual [] inputs.flatten

/-- The fields of a slot row. -/
def slotView (schema : List String) (slots : List Value) : NamedRecord := ⟨schema.zip slots⟩

variable {S : Type} (env : AggregateEnv S) (st : Store)

/-- The groups of slot rows, as row indexes. -/
def slotGroupsOf (schema : List String) (groupKeys : List (Expr S)) (rows : List (List Value)) :
    List (List Value×List Nat) :=
  if groupKeys.isEmpty=true then [([],List.range rows.length)]
  else groupRows listEq (fun idx => keyValues env st groupKeys (slotView schema (rows.getD idx [])))
    (List.range rows.length)

/-- The values of an expression on some rows are built from finite maps. -/
def FiniteOn (e : Expr S) (records : Rows) : Prop :=
  ∀ rec∈records,∀ val,evalItem env st e rec=.ok val → finiteMaps val=true

/-- A row of one column. -/
def columnRow (column : String) (val : Value) : NamedRecord := ⟨[(column,val)]⟩

/-- All ways to identify two rows by the value of an expression agree with a statement. -/
structure IdentifiedAs (e : Expr S) (r₁ r₂ : NamedRecord) (a b : Value) (equal : Prop) : Prop where
  /-- Groups of an aggregation by the expression. -/
  grouped : ∀ records,FiniteOn env st e records → r₁∈records → r₂∈records →
    (SameGroup (groupsOf env st [e] records) r₁ r₂ ↔ equal)
  /-- Groups of slot rows. -/
  slotGrouped : ∀ (schema : List String) (rows : List (List Value)) (i j : Nat),FiniteOn env st e (rows.map (slotView schema)) →
    i< rows.length → j< rows.length → slotView schema (rows.getD i [])=r₁ → slotView schema (rows.getD j [])=r₂ →
    (SameGroup (slotGroupsOf env st schema [e] rows) i j ↔ equal)
  /-- Rows of `RETURN DISTINCT` of the expression. -/
  distinct : ∀ (column : String) (values : List Value),(∀ val∈values,finiteMaps val=true) → a∈values → b∈values →
    ((∃ kept∈execDistinct (values.map (columnRow column)),
      recordEq kept (columnRow column a)=true ∧ recordEq kept (columnRow column b)=true) ↔ equal)
  /-- Slot rows of it. -/
  slotDistinct : ∀ values : List Value,(∀ val∈values,finiteMaps val=true) → a∈values → b∈values →
    ((∃ kept∈distinctSlots (values.map fun val => [val]),listEq kept [a]=true ∧ listEq kept [b]=true) ↔ equal)
  /-- Rows of a `UNION` of branches that return the expression. -/
  union : ∀ (column : String) (inputs : List (List Value)),isFtsScore column=false → (∀ values∈inputs,∀ val∈values,finiteMaps val=true) →
    a∈inputs.flatten → b∈inputs.flatten →
    ((∃ kept∈execUnion (inputs.map fun values => values.map (columnRow column)) false,
      unionRowsEqual kept (columnRow column a)=true ∧ unionRowsEqual kept (columnRow column b)=true) ↔ equal)
  /-- Rows counted by `count(DISTINCT ...)`: those whose value was not counted before. -/
  counted : ∀ (agg : AggregateExpr S) (records : Rows),agg.function=.count → agg.distinct=true → agg.input=e →
    (∀ rec∈records,∃ val,evalItem env st e rec=.ok val ∧ finiteMaps val=true) → r₁∈records → r₂∈records →
    ∃ kept,dropDuplicates (evalItem env st e) [] records=.ok kept ∧
      computeAggregate env st agg records=.ok (.i64 (Int64.ofNat kept.length)) ∧
      ((∃ rec∈kept,∃ val,evalItem env st e rec=.ok val ∧ valueEq val a=true ∧ valueEq val b=true) ↔ equal)

end Mechanisms

section Rows

variable {S : Type} {env : AggregateEnv S} {st : Store} {e : Expr S}

theorem addToGroup_eq (vals : List Value) (rec : NamedRecord) (groups : Groups) :
    addToGroup vals rec groups=insertGroup listEq vals rec groups := by
  induction groups with
  | nil => rfl
  | cons group rest ih => rw [addToGroup,insertGroup,ih]

theorem groupsOf_eq {groupKeys : List (Expr S)} (hkeys : groupKeys.isEmpty=false) (records : Rows) :
    groupsOf env st groupKeys records=groupRows listEq (keyValues env st groupKeys) records := by
  have hstep : ∀ (rest : Rows) (groups : Groups),
      rest.foldl (fun groups rec => addToGroup (keyValues env st groupKeys rec) rec groups) groups=
        rest.foldl (fun groups rec => insertGroup listEq (keyValues env st groupKeys rec) rec groups) groups := by
    intro rest
    induction rest with
    | nil => exact fun _ => rfl
    | cons rec rest ih =>
      intro groups
      rw [List.foldl_cons,List.foldl_cons,addToGroup_eq,ih]
  rw [groupsOf,if_neg (by simp [hkeys]),groupRows,hstep]

variable {rec : NamedRecord} {val : Value} {a b : Value}

theorem keyValues_ok (h : evalItem env st e rec=.ok val) : keyValues env st [e] rec=[val] := by
  rw [keyValues,List.map_singleton,h]

theorem finite_keyValues (h : ∀ val,evalItem env st e rec=.ok val → finiteMaps val=true) :
    finiteItems (keyValues env st [e] rec)=true := by
  cases heval : evalItem env st e rec with
  | ok val =>
    rw [keyValues_ok heval,finiteItems,finiteItems,h val heval]
    rfl
  | error x =>
    rw [keyValues,List.map_singleton,heval]
    rfl

theorem listEq_singleton (a b : Value) : listEq [a] [b]=valueEq a b := by
  rw [listEq,listEq,Bool.and_true]

theorem recordEq_columnRow (column : String) (a b : Value) :
    recordEq (columnRow column a) (columnRow column b)=valueEq a b := by
  have hread : getProp [(column,b)] column=some b := by simp [getProp]
  simp [recordEq,columnRow,entriesWithin,entryWithin,hread]

theorem unionRowsEqual_columnRow {column : String} (h : isFtsScore column=false) (a b : Value) :
    unionRowsEqual (columnRow column a) (columnRow column b)=valueEq b a := by
  have hread : (columnRow column b).get column=some b := by simp [columnRow,NamedRecord.get,getProp]
  simp [unionRowsEqual,columnRow,h] at hread ⊢
  rw [hread]

variable {β : Type} {records : Rows} {r₁ r₂ : NamedRecord} {schema : List String} {rows : List (List Value)}

theorem keepFirst_map {α : Type} (f : α → β) {same : α → α → Bool} {same' : β → β → Bool}
    (hsame : ∀ x y,same' (f x) (f y)=same x y) (seen rows : List α) :
    keepFirst same' (seen.map f) (rows.map f)=(keepFirst same seen rows).map f := by
  induction rows generalizing seen with
  | nil => rfl
  | cons row rest ih =>
    have htest : ((seen.map f).any fun old => same' old (f row))=seen.any fun old => same old row := by
      rw [List.any_map]
      congr 1
      funext old
      exact hsame old row
    rw [List.map_cons,keepFirst,keepFirst,htest]
    split_ifs
    · exact ih seen
    · have hstep := ih (seen++[row])
      rw [List.map_append,List.map_singleton] at hstep
      rw [hstep,List.map_cons]

theorem dropDuplicates_ok {input : Cell} {val : NamedRecord → Value} (h : ∀ rec∈records,input rec=.ok (val rec))
    (seen : List Value) : ∃ kept,dropDuplicates input seen records=.ok kept ∧
    (∀ rec∈kept,rec∈records ∧ (val rec).isNull=false) ∧
    kept.map val=keepFirst valueEq seen ((records.map val).filter fun v => !v.isNull) := by
  induction records generalizing seen with
  | nil => exact ⟨[],rfl,fun _ hrec => absurd hrec List.not_mem_nil,rfl⟩
  | cons rec rest ih =>
    have hrest : ∀ other∈rest,input other=.ok (val other) := fun other hother =>
      h other (List.mem_cons_of_mem _ hother)
    rw [dropDuplicates,h rec List.mem_cons_self,List.map_cons]
    dsimp only [bind,Except.bind]
    cases hnull : (val rec).isNull with
    | true =>
      have ⟨kept,hkept,hmem,hvalues⟩ := ih hrest seen
      rw [if_pos (Or.inl rfl),List.filter_cons_of_neg (by simp [hnull])]
      exact ⟨kept,hkept,fun other hother =>
        ⟨List.mem_cons_of_mem _ (hmem other hother).1,(hmem other hother).2⟩,hvalues⟩
    | false =>
      rw [List.filter_cons_of_pos (by simp [hnull]),keepFirst]
      by_cases hseen : (seen.any fun old => valueEq old (val rec))=true
      · have ⟨kept,hkept,hmem,hvalues⟩ := ih hrest seen
        rw [if_pos (Or.inr hseen),if_pos hseen]
        exact ⟨kept,hkept,fun other hother =>
          ⟨List.mem_cons_of_mem _ (hmem other hother).1,(hmem other hother).2⟩,hvalues⟩
      · have ⟨kept,hkept,hmem,hvalues⟩ := ih hrest (seen++[val rec])
        rw [if_neg (by simp [hseen]),if_neg hseen,hkept]
        refine ⟨rec::kept,rfl,fun other hother => ?_,by rw [List.map_cons,hvalues]⟩
        rcases List.mem_cons.mp hother with hhead|htail
        · rw [hhead]
          exact ⟨List.mem_cons_self,hnull⟩
        · exact ⟨List.mem_cons_of_mem _ (hmem other htail).1,(hmem other htail).2⟩

theorem isStar_of_value (h : evalItem env st e rec=.ok val) (hval : val≠.null) : isStar e=false := by
  cases e with
  | star =>
    have hnull : Value.null=val := Except.ok.inj h
    exact absurd hnull.symm hval
  | _ => rfl

theorem isNull_of_ne (h : val≠.null) : val.isNull=false := by
  cases val with
  | null => exact absurd rfl h
  | _ => rfl

theorem valueEq_comm (ha : finiteMaps a=true) (hb : finiteMaps b=true) : valueEq a b=true ↔ valueEq b a=true :=
  ⟨valueEq_symm a b ha hb,valueEq_symm b a hb ha⟩

theorem grouped_iff (hfinite : FiniteOn env st e records) (ha : evalItem env st e r₁=.ok a)
    (hb : evalItem env st e r₂=.ok b) (h₁ : r₁∈records) (h₂ : r₂∈records) :
    SameGroup (groupsOf env st [e] records) r₁ r₂ ↔ valueEq a b=true := by
  have hgroup : SameGroup (groupRows listEq (keyValues env st [e]) records) r₁ r₂ ↔
      listEq (keyValues env st [e] r₁) (keyValues env st [e] r₂)=true :=
    sameGroup_iff equivalence_listEq (fun rec hrec => finite_keyValues (hfinite rec hrec)) h₁ h₂
  rw [keyValues_ok ha,keyValues_ok hb,listEq_singleton] at hgroup
  rw [groupsOf_eq rfl]
  exact hgroup

theorem slotView_mem {idx : Nat} (h : idx< rows.length) :
    slotView schema (rows.getD idx [])∈rows.map (slotView schema) := by
  rw [List.getD_eq_getElem?_getD,List.getElem?_eq_getElem h,Option.getD_some]
  exact List.mem_map_of_mem (List.getElem_mem h)

theorem slotGrouped_iff {i j : Nat} (hfinite : FiniteOn env st e (rows.map (slotView schema)))
    (ha : evalItem env st e (slotView schema (rows.getD i []))=.ok a)
    (hb : evalItem env st e (slotView schema (rows.getD j []))=.ok b) (hi : i < rows.length)
    (hj : j< rows.length) : SameGroup (slotGroupsOf env st schema [e] rows) i j ↔ valueEq a b=true := by
  have hkeys : ∀ idx∈List.range rows.length,
      finiteItems (keyValues env st [e] (slotView schema (rows.getD idx [])))=true := fun idx hidx =>
    finite_keyValues (hfinite _ (slotView_mem (List.mem_range.mp hidx)))
  have hgroup : SameGroup (groupRows listEq (fun idx => keyValues env st [e] (slotView schema (rows.getD idx [])))
        (List.range rows.length)) i j ↔
      listEq (keyValues env st [e] (slotView schema (rows.getD i [])))
        (keyValues env st [e] (slotView schema (rows.getD j [])))=true :=
    sameGroup_iff equivalence_listEq hkeys (List.mem_range.mpr hi) (List.mem_range.mpr hj)
  rw [keyValues_ok ha,keyValues_ok hb,listEq_singleton] at hgroup
  rw [slotGroupsOf,if_neg (by simp)]
  exact hgroup

theorem column_representative (f : Value → β) {same : β → β → Bool} {test : Value → Value → Bool}
    (hsame : ∀ x y,same (f x) (f y)=test x y) (values : List Value) (a b : Value) :
    (∃ kept∈keepFirst same [] (values.map f),same kept (f a)=true ∧ same kept (f b)=true) ↔
    ∃ kept∈keepFirst test [] values,test kept a=true ∧ test kept b=true := by
  have hmap := keepFirst_map f hsame [] values
  rw [List.map_nil] at hmap
  rw [hmap]
  constructor
  · intro hshared
    have ⟨kept,hkept,hleft,hright⟩ := hshared
    have ⟨val,hval,hshape⟩ := List.mem_map.mp hkept
    rw [← hshape,hsame] at hleft hright
    exact ⟨val,hval,hleft,hright⟩
  · intro hshared
    have ⟨kept,hkept,hleft,hright⟩ := hshared
    exact ⟨f kept,List.mem_map_of_mem hkept,by rw [hsame,hleft],by rw [hsame,hright]⟩

theorem representative_iff {values : List Value} (hfinite : ∀ val∈values,finiteMaps val=true) (ha : a∈values)
    (hb : b∈values) : (∃ kept∈keepFirst valueEq [] values,valueEq kept a=true ∧ valueEq kept b=true) ↔
    valueEq a b=true :=
  sameRepresentative_iff equivalence_valueEq hfinite ha hb

theorem equivalence_flipped :
    EquivalenceOn (fun value => finiteMaps value=true) fun a b => valueEq b a where
  refl := equivalence_valueEq.refl
  symm a b ha hb := equivalence_valueEq.symm b a hb ha
  trans a b c ha hb hc hab hbc := equivalence_valueEq.trans c b a hc hb ha hbc hab

theorem count_distinct {agg : AggregateExpr S} {kept : Rows} (hfunction : agg.function=.count)
    (hdistinct : agg.distinct=true) (hstar : isStar agg.input=false)
    (hkept : dropDuplicates (evalItem env st agg.input) [] records=.ok kept)
    (hvalues : ∀ rec∈kept,∃ val,evalItem env st agg.input rec=.ok val ∧ val.isNull=false) :
    computeAggregate env st agg records=.ok (.i64 (Int64.ofNat kept.length)) := by
  have hall : (kept.countP fun rec => counts (evalItem env st agg.input rec))=kept.length := by
    rw [List.countP_eq_length]
    intro rec hrec
    have ⟨val,hval,hnull⟩ := hvalues rec hrec
    rw [hval,counts,hnull]
    rfl
  simp only [computeAggregate,hfunction,hdistinct,hstar,and_self,if_true,hkept]
  simp [bind,Except.bind,hall]

/-- Two rows are identified exactly when the statement is the library equality of their
values. -/
theorem identifiedAs_iff {equal : Prop} (ha : evalItem env st e r₁=.ok a) (hb : evalItem env st e r₂=.ok b)
    (hna : a≠.null) (hnb : b≠.null) (hfa : finiteMaps a=true) (hfb : finiteMaps b=true) :
    IdentifiedAs env st e r₁ r₂ a b equal ↔ (valueEq a b=true ↔ equal) := by
  constructor
  · intro hidentified
    have hfinite : FiniteOn env st e [r₁,r₂] := by
      intro rec hrec val hval
      rcases List.mem_cons.mp hrec with hfirst|hsecond
      · rw [hfirst,ha] at hval
        exact Except.ok.inj hval ▸ hfa
      · rw [List.mem_singleton.mp hsecond,hb] at hval
        exact Except.ok.inj hval ▸ hfb
    have hsecond : r₂∈[r₁,r₂] := List.mem_cons_of_mem _ List.mem_cons_self
    have hgrouped := hidentified.grouped [r₁,r₂] hfinite List.mem_cons_self hsecond
    exact (grouped_iff hfinite ha hb List.mem_cons_self hsecond).symm.trans hgrouped
  · intro hequal
    constructor
    · intro records hfinite h₁ h₂
      exact (grouped_iff hfinite ha hb h₁ h₂).trans hequal
    · intro schema rows i j hfinite hi hj h₁ h₂
      rw [← h₁] at ha
      rw [← h₂] at hb
      exact (slotGrouped_iff hfinite ha hb hi hj).trans hequal
    · intro column values hfinite hain hbin
      have hrows := column_representative (columnRow column) (recordEq_columnRow column) values a b
      exact (hrows.trans (representative_iff hfinite hain hbin)).trans hequal
    · intro values hfinite hain hbin
      have hrows := column_representative (fun val => [val]) listEq_singleton values a b
      exact (hrows.trans (representative_iff hfinite hain hbin)).trans hequal
    · intro column inputs hscore hfinite hain hbin
      have hall : ∀ val∈inputs.flatten,finiteMaps val=true := by
        intro val hval
        have ⟨values,hvalues,hin⟩ := List.mem_flatten.mp hval
        exact hfinite values hvalues val hin
      have hflat : (inputs.map fun values => values.map (columnRow column)).flatten=
          inputs.flatten.map (columnRow column) := List.map_flatten.symm
      have hrows := column_representative (columnRow column) (unionRowsEqual_columnRow hscore) inputs.flatten a b
      have hone := sameRepresentative_iff equivalence_flipped hall hain hbin
      rw [execUnion,if_neg (by simp),hflat]
      exact ((hrows.trans hone).trans (valueEq_comm hfb hfa)).trans hequal
    · intro agg records hfunction hdistinct hinput hvalues h₁ h₂
      have hval : ∀ rec∈records,evalItem env st e rec=.ok ((evalItem env st e rec).toOption.getD .null) := by
        intro rec hrec
        have ⟨val,hval,_⟩ := hvalues rec hrec
        rw [hval]
        rfl
      have ⟨kept,hkept,hmem,hfirst⟩ := dropDuplicates_ok hval []
      have hread : ∀ rec∈kept,∃ val,evalItem env st e rec=.ok val ∧ val.isNull=false := fun rec hrec =>
        ⟨_,hval rec (hmem rec hrec).1,(hmem rec hrec).2⟩
      refine ⟨kept,hkept,?_,?_⟩
      · rw [← hinput] at hkept hread
        exact count_distinct hfunction hdistinct (hinput ▸ isStar_of_value ha hna) hkept hread
      · have hin : ∀ {rec : NamedRecord} {v : Value},rec∈records → evalItem env st e rec=.ok v → v≠.null →
            v∈(records.map fun r => (evalItem env st e r).toOption.getD .null).filter fun v => !v.isNull := by
          intro rec v hrec heval hne
          have hshape : (evalItem env st e rec).toOption.getD .null=v := by
            rw [heval]
            rfl
          exact List.mem_filter.mpr ⟨List.mem_map.mpr ⟨rec,hrec,hshape⟩,by rw [isNull_of_ne hne]; rfl⟩
        have hfinite : ∀ v∈(records.map fun r => (evalItem env st e r).toOption.getD .null).filter
            (fun v => !v.isNull),finiteMaps v=true := by
          intro v hv
          have ⟨rec,hrec,hshape⟩ := List.mem_map.mp (List.mem_of_mem_filter hv)
          have ⟨val,heval,hfin⟩ := hvalues rec hrec
          rw [heval] at hshape
          exact hshape ▸ hfin
        have hone := representative_iff hfinite (hin h₁ ha hna) (hin h₂ hb hnb)
        rw [← hfirst] at hone
        refine Iff.trans ⟨?_,?_⟩ (hone.trans hequal)
        · intro hshared
          have ⟨rec,hrec,v,heval,hleft,hright⟩ := hshared
          have hshape : (evalItem env st e rec).toOption.getD .null=v := by
            rw [heval]
            rfl
          exact ⟨v,List.mem_map.mpr ⟨rec,hrec,hshape⟩,hleft,hright⟩
        · intro hshared
          have ⟨v,hv,hleft,hright⟩ := hshared
          have ⟨rec,hrec,hshape⟩ := List.mem_map.mp hv
          have ⟨val,heval,_⟩ := hread rec hrec
          rw [heval] at hshape
          have hsame : val=v := hshape
          rw [hsame] at heval
          exact ⟨rec,hrec,v,heval,hleft,hright⟩

end Rows

section Identity

variable {S : Type} (env : AggregateEnv S) (st : Store)

/-- Whether a row binds a variable to a node. -/
def BindsNode (rec : NamedRecord) (var : String) (id : NodeId) : Prop :=
  ∃ labels props,buildCompoundBinding rec var=some (.node ⟨id,labels,props⟩)

/-- Whether a row binds a variable to a stored relationship. -/
def BindsEdge (rec : NamedRecord) (var : String) (edge : NodeId×NodeId×String×UInt64) : Prop :=
  (∃ props,buildCompoundBinding rec var=some (.edge ⟨edge.1,edge.2.1,edge.2.2.1,props⟩)) ∧
    edgeSeqField rec var=some edge.2.2.2

/-- Whether two snapshots have the same properties. -/
def sameProperties (p q : Properties) : Bool := p.length=q.length && entriesWithin p q

/-- Two rows are identified by an expression exactly when its values equal each other,
bindings of nodes when they are one node, bindings of relationships when they are one
stored relationship. -/
structure IdentifiesEquals (e : Expr S) (r₁ r₂ : NamedRecord) (a b : Value) : Prop where
  /-- Values. -/
  values : IdentifiedAs env st e r₁ r₂ a b (valuesEqual a b=some true)
  /-- Bindings of a node. -/
  nodes : ∀ var id₁ id₂,e=.var var → BindsNode r₁ var id₁ → BindsNode r₂ var id₂ →
    IdentifiedAs env st e r₁ r₂ a b (id₁=id₂)
  /-- Bindings of a relationship. -/
  edges : ∀ var x y,e=.var var → BindsEdge r₁ var x → BindsEdge r₂ var y →
    IdentifiedAs env st e r₁ r₂ a b (x=y)

/-- Two values are told apart by their forms only when they differ: equal ones have one
form, ones in one form equal themselves, and snapshots of two relationships with the same
ends and type have equal properties only when their sequence numbers are equal. -/
structure FormsDecide (e : Expr S) (r₁ r₂ : NamedRecord) (a b : Value) : Prop where
  /-- Equal values have one form. -/
  oneForm : valuesEqual a b=some true → sameForm a b=true
  /-- A shared form equals itself. -/
  definite : valueEq a b=true → valuesEqual b b=some true
  /-- Parallel relationships differ in a property. -/
  parallel : ∀ var src dst label seq₁ seq₂,e=.var var → BindsEdge r₁ var (src,dst,label,seq₁) →
    BindsEdge r₂ var (src,dst,label,seq₂) →
    (sameProperties (boundProperties r₁ var) (boundProperties r₂ var)=true ↔ seq₁=seq₂)

end Identity

section Decision

variable {S : Type} {env : AggregateEnv S} {st : Store} {e : Expr S}
variable {var : String}

theorem edge_of_buildCompoundBinding {rec : NamedRecord} {edge : EdgeOf Value}
    (h : buildCompoundBinding rec var=some (.edge edge)) : edge.properties=boundProperties rec var := by
  rw [buildCompoundBinding] at h
  split at h
  · cases h
  · cases h
  · split at h
    · have hedge := Option.some.inj h
      have hshape := Value.edge.inj hedge
      exact hshape ▸ rfl
    · split at h
      · cases h
      · cases h

theorem value_of_binding {rec : NamedRecord} {val compound : Value}
    (h : evalItem env st (.var var : Expr S) rec=.ok val) (hbound : buildCompoundBinding rec var=some compound) :
    val=compound := by
  have heval : evalVariable var rec=.ok val := h
  rw [evalVariable,hbound] at heval
  exact (Except.ok.inj heval).symm

/-- Bindings of a node have library-equal identifiers exactly when they equal each other. -/
theorem valuesEqual_nodes (n m : NodeOf Value) : valuesEqual (.node n) (.node m)=some true ↔ n.id=m.id := by
  rw [valuesEqual,Option.some.injEq,decide_eq_true_iff]

/-- Snapshots of relationships are library-equal when ends, types and properties are. -/
theorem valueEq_edges (x y : EdgeOf Value) :
    valueEq (.edge x) (.edge y)=true ↔
      (x.src=y.src ∧ x.dst=y.dst ∧ x.label=y.label) ∧ sameProperties x.properties y.properties=true := by
  cases x
  cases y
  simp only [valueEq,edgeEq,sameProperties,Bool.and_eq_true,decide_eq_true_iff]
  tauto

/-- Grouping, `DISTINCT`, `UNION` and `count(DISTINCT ...)` identify equal values exactly
when the forms of the values decide. -/
theorem identifiesEquals_iff {r₁ r₂ : NamedRecord} {a b : Value} (ha : evalItem env st e r₁=.ok a)
    (hb : evalItem env st e r₂=.ok b) (hna : a≠.null) (hnb : b≠.null) (hfa : finiteMaps a=true)
    (hfb : finiteMaps b=true) :
    IdentifiesEquals env st e r₁ r₂ a b ↔ FormsDecide e r₁ r₂ a b := by
  have hvalues : IdentifiedAs env st e r₁ r₂ a b (valuesEqual a b=some true) ↔
      (valueEq a b=true ↔ valuesEqual a b=some true) := identifiedAs_iff ha hb hna hnb hfa hfb
  constructor
  · intro hidentifies
    have hagree := (equalities_agree_iff hfa hfb).mp (hvalues.mp hidentifies.values)
    refine ⟨hagree.1,hagree.2,fun var src dst label seq₁ seq₂ he h₁ h₂ => ?_⟩
    have hiff := (identifiedAs_iff ha hb hna hnb hfa hfb).mp (hidentifies.edges var _ _ he h₁ h₂)
    subst he
    have ⟨p,hp⟩ := h₁.1
    have ⟨q,hq⟩ := h₂.1
    rw [value_of_binding ha hp,value_of_binding hb hq,valueEq_edges] at hiff
    rw [← edge_of_buildCompoundBinding hp,← edge_of_buildCompoundBinding hq]
    constructor
    · intro hsame
      have hequal := hiff.mp ⟨⟨rfl,rfl,rfl⟩,hsame⟩
      injection hequal with h1 h2
      injection h2 with h3 h4
      injection h4
    · intro hseq
      exact (hiff.mpr (by rw [hseq])).2
  · intro hforms
    refine ⟨hvalues.mpr ((equalities_agree_iff hfa hfb).mpr ⟨hforms.oneForm,hforms.definite⟩),?_,?_⟩
    · intro var id₁ id₂ he h₁ h₂
      have ⟨labels₁,props₁,hp⟩ := h₁
      have ⟨labels₂,props₂,hq⟩ := h₂
      have hagree := (equalities_agree_iff hfa hfb).mpr ⟨hforms.oneForm,hforms.definite⟩
      have hnodes := valuesEqual_nodes ⟨id₁,labels₁,props₁⟩ ⟨id₂,labels₂,props₂⟩
      subst he
      rw [← value_of_binding ha hp,← value_of_binding hb hq] at hnodes
      exact (identifiedAs_iff ha hb hna hnb hfa hfb).mpr (hagree.trans hnodes)
    · intro var x y he h₁ h₂
      refine (identifiedAs_iff ha hb hna hnb hfa hfb).mpr ?_
      have ⟨p,hp⟩ := h₁.1
      have ⟨q,hq⟩ := h₂.1
      have hparallel := fun src dst label seq₁ seq₂ => hforms.parallel var src dst label seq₁ seq₂ he
      subst he
      have ⟨src,dst,label,seq₁⟩ := x
      have ⟨src',dst',label',seq₂⟩ := y
      rw [value_of_binding ha hp,value_of_binding hb hq,valueEq_edges]
      have hprops := edge_of_buildCompoundBinding hp
      have hprops' := edge_of_buildCompoundBinding hq
      dsimp only at hprops hprops'
      dsimp only
      rw [hprops,hprops']
      constructor
      · intro hsame
        have ⟨⟨hsrc,hdst,hlabel⟩,hsnap⟩ := hsame
        subst hsrc hdst hlabel
        rw [(hparallel _ _ _ _ _ h₁ h₂).mp hsnap]
      · intro hequal
        cases hequal
        exact ⟨⟨rfl,rfl,rfl⟩,(hparallel _ _ _ _ _ h₁ h₂).mpr rfl⟩

/-- A row of a relationship with a sequence number and a weight. -/
def weightRow (seq weight : Int64) : NamedRecord :=
  ⟨[("r.__src",.i64 1),("r.__dst",.i64 2),("r.__type",.string "R"),("r.__edge_seq",.i64 seq),
    ("r.w",.i64 weight)]⟩

/-- The relationship of such a row. -/
def weightEdge (weight : Int64) : Value := .edge ⟨1,2,"R",[("w",.i64 weight)]⟩

theorem bindsEdge_weightRow {seq weight : Int64} {edge : NodeId×NodeId×String×UInt64} (hvar : var="r")
    (h : BindsEdge (weightRow seq weight) var edge) : edge.2.2.2=seq.toUInt64 := by
  subst hvar
  have hseq : edgeSeqField (weightRow seq weight) "r"=some seq.toUInt64 := rfl
  exact Option.some.inj (h.2.symm.trans hseq)

/-- Parallel relationships with different weights are told apart. -/
theorem identifiesEquals_weights :
    IdentifiesEquals plainAggregates freshStore (.var "r") (weightRow 0 5) (weightRow 1 6) (weightEdge 5)
      (weightEdge 6) := by
  have hdiffer : valueEq (weightEdge 5) (weightEdge 6)=false := by decide
  have hequal : valuesEqual (weightEdge 5) (weightEdge 6)=some false := by decide
  refine (identifiesEquals_iff rfl rfl (by simp [weightEdge]) (by simp [weightEdge]) (by decide) (by decide)).mpr
    ⟨fun h => ?_,fun h => ?_,fun var src dst label seq₁ seq₂ he h₁ h₂ => ?_⟩
  · rw [hequal] at h
    cases h
  · rw [hdiffer] at h
    cases h
  · have hvar : "r"=var := Expr.var.inj he
    have hfirst : seq₁=(0 : Int64).toUInt64 := bindsEdge_weightRow hvar.symm h₁
    have hsecond : seq₂=(1 : Int64).toUInt64 := bindsEdge_weightRow hvar.symm h₂
    subst hvar
    rw [hfirst,hsecond]
    decide

/-- Parallel relationships with equal weights are merged, the numbers 1 and 1.0 kept apart. -/
theorem identifiesEquals_fails :
    ¬IdentifiesEquals plainAggregates freshStore (.var "r") (weightRow 0 5) (weightRow 1 5) (weightEdge 5)
        (weightEdge 5) ∧
      ¬IdentifiesEquals plainAggregates freshStore (.property "n" "x") ⟨[("n.x",.i64 1)]⟩
        ⟨[("n.x",.f64 0x3ff0000000000000)]⟩ (.i64 1) (.f64 0x3ff0000000000000) := by
  constructor
  · intro h
    have hfirst : BindsEdge (weightRow 0 5) "r" (1,2,"R",0) := ⟨⟨[("w",.i64 5)],rfl⟩,rfl⟩
    have hsecond : BindsEdge (weightRow 1 5) "r" (1,2,"R",1) := ⟨⟨[("w",.i64 5)],rfl⟩,rfl⟩
    have hiff := (identifiedAs_iff rfl rfl (by simp [weightEdge]) (by simp [weightEdge]) (by decide) (by decide)).mp
      (h.edges "r" _ _ rfl hfirst hsecond)
    exact absurd (hiff.mp (by decide)) (by decide)
  · intro h
    have hiff := (identifiedAs_iff rfl rfl (by simp) (by simp) (by decide) (by decide)).mp h.values
    exact absurd (hiff.mpr (by decide)) (by decide)

end Decision

end GraphDbLite.RowIdentity
