import GraphDbLite.RowIdentity

/-!
# Which evaluation errors an operator reports

Filters, projections, sorts and aggregations evaluate expressions on the rows of their
input, in three executors. A filter reports every error. A sort takes null for a key that
fails, an aggregation takes null for a group key and counts an argument of a plain count
that fails. A projection does not evaluate an item whose column it finds in the row, and
each executor looks for it in its own way. Everything else is reported.
-/

namespace GraphDbLite.ErrorReporting

open GraphTypes GraphStore CypherSyntax CypherEval WriteOperators FallibleLists QueryPlan
open QueryExecutor ColumnNames Projection Aggregation Grouping RowIdentity

/-- The three executors. -/
inductive Executor where
  | materialised
  | streaming
  | slot
  deriving DecidableEq

/-- Operators that evaluate expressions on the rows of their input. -/
inductive RowStep (S : Type) where
  | filter (predicate : Expr S)
  | project (items : List (ReturnItem S)) (emitCompound : Bool)
  | sort (items : List (SortItem S))
  | aggregate (groupKeys : List (Expr S)) (aggregates : List (AggregateExpr S))

variable {S : Type} (env : AggregateEnv S) (st : Store)

section Operators

/-- Rows that pass a filter. -/
def execFilter (predicate : Expr S) (records : Rows) : Result Rows :=
  sieve (evalPredicate env.eval st predicate) records

/-- Sort key of a row, null for a failure. -/
def sortKey (item : SortItem S) (rec : NamedRecord) : Value :=
  match evalExpr env.eval st item.expr rec with
  | .ok val => val
  | .error _ => .null

/-- Order of two rows by the sort columns. -/
def compareRows (a b : NamedRecord) : List (SortItem S) → Ordering
  | [] => .eq
  | item::rest =>
    let order := env.compareForSort (sortKey env st item a) (sortKey env st item b)
    match if item.descending=true then order.swap else order with
    | .eq => compareRows a b rest
    | other => other

/-- Sort of the materialised and the streaming executor. -/
def execSort (items : List (SortItem S)) (records : Rows) : Result Rows :=
  .ok (records.mergeSort fun a b => compareRows env st a b items != .gt)

/-- Order of two rows by their precomputed keys. -/
def compareKeys : List Bool → List Value → List Value → Ordering
  | descending::rest,a::as,b::bs =>
    let order := env.compareForSort a b
    match if descending=true then order.swap else order with
    | .eq => compareKeys rest as bs
    | other => other
  | _,_,_ => .eq

/-- Sort of the slot executor: the keys of each row are computed once. -/
def sortSlots (items : List (SortItem S)) (records : Rows) : Result Rows :=
  let tagged := records.map fun rec => (items.map fun item => sortKey env st item rec,rec)
  .ok ((tagged.mergeSort fun a b =>
    compareKeys env (items.map SortItem.descending) a.1 b.1 != .gt).map Prod.snd)

/-- Projection of the slot executor on rows seen as records. -/
def projectSlots (items : List (ReturnItem S)) (records : Rows) : Result Rows :=
  let outSchema := items.map (columnNameForItem env.floatText)
  gather (fun view => (gather (slotColumns env.eval env.floatText st outSchema view) items).map fun columns =>
    [setAll ⟨outSchema.map fun name => (name,Value.null)⟩ columns]) records

/-- Aggregation of the slot executor: the rows have the slots of the output schema. -/
def aggregateSlots (outSchema : List String) (groupKeys : List (Expr S))
    (aggregates : List (AggregateExpr S)) (records : Rows) : Result Rows :=
  gather (fun group => (aggregateColumns env st aggregates group.2).map fun columns =>
    [setAll ⟨outSchema.map fun name => (name,Value.null)⟩
      (((groupKeys.zip group.1).flatMap (fun key => keyColumns env key.1 key.2 group.2)++columns).filter
        fun column => decide (column.1∈outSchema))]) (groupsOf env st groupKeys records)

/-- One operator of an executor on the rows of its input; a slot aggregation has an output
schema. -/
def runStep (outSchema : List String) : Executor → RowStep S → Rows → Result Rows
  | _,.filter predicate,records => execFilter env st predicate records
  | .materialised,.project items emitCompound,records =>
    execProject env.eval env.floatText st items emitCompound records
  | .streaming,.project items emitCompound,records =>
    streamProject env.eval env.floatText st items emitCompound records
  | .slot,.project items _,records => projectSlots env st items records
  | .slot,.sort items,records => sortSlots env st items records
  | _,.sort items,records => execSort env st items records
  | .slot,.aggregate groupKeys aggregates,records =>
    aggregateSlots env st outSchema groupKeys aggregates records
  | _,.aggregate groupKeys aggregates,records => aggregateNamedRecords env st records groupKeys aggregates

/-- Operators one after the other; the first failure ends the run. -/
def runSteps (outSchema : List String) (x : Executor) : List (RowStep S) → Rows → Result Rows
  | [],records => .ok records
  | step::rest,records =>
    match runStep env st outSchema x step records with
    | .error e => .error e
    | .ok rows => runSteps outSchema x rest rows

end Operators

section Conditions

/-- Whether evaluating an expression of an operator fails on one of its rows. -/
def Raises : RowStep S → Rows → Prop
  | .filter predicate,records => ∃ rec∈records,Fails (evalExpr env.eval st predicate rec)
  | .project items _,records => ∃ rec∈records,∃ item∈items,Fails (evalExpr env.eval st item.expr rec)
  | .sort items,records => ∃ rec∈records,∃ item∈items,Fails (evalExpr env.eval st item.expr rec)
  | .aggregate groupKeys aggregates,records =>
    ∃ rec∈records,(∃ key∈groupKeys,Fails (evalItem env st key rec)) ∨
      ∃ agg∈aggregates,Fails (evalItem env st agg.input rec)

/-- Whether an aggregate is a count without `DISTINCT`. -/
def isPlainCount (agg : AggregateExpr S) : Bool := agg.function=.count && !agg.distinct

/-- Whether an executor takes the value of an item from a column of the row. -/
def takesColumn (x : Executor) (rec : NamedRecord) (item : ReturnItem S) : Bool :=
  let column := columnNameForItem env.floatText item
  let exprColumn := exprToColumnName env.floatText item.expr
  let renamed := column≠exprColumn && (rec.get column).isSome && isAggregateCall item.expr
  match x with
  | .materialised =>
    !(readsDeleted rec item.expr || (rec.get (column++".__id")).isSome) &&
      ((rec.get exprColumn).isSome || renamed)
  | .streaming => (rec.get column).isSome
  | .slot => !readsDeleted rec item.expr && ((rec.get exprColumn).isSome || renamed)

/-- When an operator reports every error: a sort when no key fails, an aggregation when no
group key and no argument of a plain count fails or another aggregate does, a projection
when each executor evaluates an item that fails if there is one. -/
def Reports : RowStep S → Rows → Prop
  | .filter _,_ => True
  | .sort items,records => ∀ rec∈records,∀ item∈items,¬Fails (evalExpr env.eval st item.expr rec)
  | .aggregate groupKeys aggregates,records =>
    (∀ rec∈records,(∀ key∈groupKeys,¬Fails (evalItem env st key rec)) ∧
      ∀ agg∈aggregates,isPlainCount agg=true → ¬Fails (evalItem env st agg.input rec)) ∨
    ∃ group∈groupsOf env st groupKeys records,∃ agg∈aggregates,isPlainCount agg=false ∧
      Fails (computeAggregate env st agg group.2)
  | .project items _,records => ∀ x,
    (∀ rec∈records,∀ item∈items,takesColumn env x rec item=true →
      ¬Fails (evalExpr env.eval st item.expr rec)) ∨
    ∃ rec∈records,∃ item∈items,takesColumn env x rec item=false ∧ Fails (evalExpr env.eval st item.expr rec)

/-- Every executor reports an error of an operator, and all report the same. -/
structure ReportsErrors (outSchema : List String) (step : RowStep S) (records : Rows) : Prop where
  /-- Errors are reported. -/
  reported : ∀ x,Raises env st step records → Fails (runStep env st outSchema x step records)
  /-- The executors agree. -/
  agreed : ∀ x y,Fails (runStep env st outSchema x step records) ↔
    Fails (runStep env st outSchema y step records)

end Conditions

section Failures

variable {env} {st}

theorem fails_map {α β : Type} (f : α → β) (r : Result α) : Fails (r.map f) ↔ Fails r := by
  cases r with
  | error e => exact iff_of_true (fails_error e) (fails_error e)
  | ok a => exact iff_of_false (not_fails_ok _) (not_fails_ok _)

theorem fails_execFilter {predicate : Expr S} {records : Rows} :
    Fails (execFilter env st predicate records) ↔ ∃ rec∈records,Fails (evalExpr env.eval st predicate rec) := by
  rw [execFilter,fails_sieve]
  exact exists_congr fun rec => and_congr_right fun _ => fails_map isTrue _

theorem not_fails_var (name : String) (rec : NamedRecord) :
    ¬Fails (evalExpr env.eval st (.var name) rec) := by
  have heval : evalExpr env.eval st (.var name) rec=evalVariable name rec := rfl
  rw [heval,evalVariable]
  cases buildCompoundBinding rec name with
  | none | some compound => exact not_fails_ok _

theorem not_fails_property {var prop : String} {rec : NamedRecord} {val : Value}
    (hdeleted : readsDeleted rec (.property var prop : Expr S)=false)
    (hread : rec.get (var++("."++prop))=some val) :
    ¬Fails (evalExpr env.eval st (.property var prop) rec) := by
  have heval : evalExpr env.eval st (.property var prop) rec=evalProperty env.eval st var prop rec := rfl
  rw [heval]
  unfold evalProperty
  simp only [readsDeleted] at hdeleted
  split
  · next hmark =>
    rw [hmark] at hdeleted
    cases hdeleted
  · split
    · exact not_fails_ok _
    · rw [hread]
      exact not_fails_ok _

theorem fails_evalProjectItem (view : NamedRecord) (expr : Expr S) :
    Fails (evalProjectItem env.eval st view expr) ↔ Fails (evalExpr env.eval st expr view) := by
  cases expr with
  | literal l => exact Iff.rfl
  | property var prop =>
    simp only [evalProjectItem]
    cases hdeleted : readsDeleted view (.property var prop : Expr S) with
    | true => rw [if_pos rfl]
    | false =>
      rw [if_neg (by simp)]
      cases hread : view.get (var++("."++prop)) with
      | none => exact Iff.rfl
      | some val => exact iff_of_false (not_fails_ok _) (not_fails_property hdeleted hread)
  | _ => exact Iff.rfl

/-- The value of an item fails in the materialised executor when it is evaluated and its
expression fails. -/
theorem fails_projectedValue (rec : NamedRecord) (item : ReturnItem S) :
    Fails (projectedValue env.eval env.floatText st rec item) ↔
      takesColumn env .materialised rec item=false ∧ Fails (evalExpr env.eval st item.expr rec) := by
  simp only [projectedValue,takesColumn]
  cases readsDeleted rec item.expr with
  | true => simp
  | false =>
    cases rec.get (columnNameForItem env.floatText item++".__id") with
    | some id => simp
    | none =>
      cases rec.get (exprToColumnName env.floatText item.expr) with
      | some existing => simp
      | none =>
        by_cases hname : columnNameForItem env.floatText item=exprToColumnName env.floatText item.expr
        · simp [hname]
        · cases rec.get (columnNameForItem env.floatText item) with
          | none => simp [hname]
          | some existing =>
            cases isAggregateCall item.expr with
            | true | false => simp [hname]

theorem fails_streamedValue (rec : NamedRecord) (item : ReturnItem S) :
    Fails (streamedValue env.eval env.floatText st rec item) ↔
      takesColumn env .streaming rec item=false ∧ Fails (evalExpr env.eval st item.expr rec) := by
  simp only [streamedValue,takesColumn]
  cases rec.get (columnNameForItem env.floatText item) with
  | none | some existing => simp

theorem fails_slotValue (rec : NamedRecord) (item : ReturnItem S) :
    Fails (slotValue env.eval env.floatText st rec item) ↔
      takesColumn env .slot rec item=false ∧ Fails (evalExpr env.eval st item.expr rec) := by
  rw [← fails_evalProjectItem]
  simp only [slotValue,takesColumn]
  cases readsDeleted rec item.expr with
  | true => simp
  | false =>
    cases rec.get (exprToColumnName env.floatText item.expr) with
    | some existing => simp
    | none =>
      by_cases hname : columnNameForItem env.floatText item=exprToColumnName env.floatText item.expr
      · simp [hname]
      · cases isAggregateCall item.expr with
        | false => simp
        | true =>
          cases rec.get (columnNameForItem env.floatText item) with
          | none => simp
          | some existing => simp [hname]

theorem fails_itemColumns {keeps : NamedRecord → String → Bool}
    {value : NamedRecord → ReturnItem S → Result Value} {x : Executor} {rec : NamedRecord} {item : ReturnItem S}
    (h : Fails (value rec item) ↔ takesColumn env x rec item=false ∧ Fails (evalExpr env.eval st item.expr rec))
    (emitCompound : Bool) :
    Fails (itemColumns env.eval env.floatText st keeps value emitCompound rec item) ↔
      takesColumn env x rec item=false ∧ Fails (evalExpr env.eval st item.expr rec) := by
  have ⟨expr,columnAlias⟩ := item
  cases expr with
  | star => exact iff_of_false (not_fails_ok _) fun hfails => not_fails_ok _ hfails.2
  | var name =>
    refine iff_of_false ?_ fun hfails => not_fails_var name rec hfails.2
    simp only [itemColumns,variableColumns]
    cases emitCompound with
    | true =>
      rw [if_pos rfl]
      cases buildCompoundBinding rec name with
      | some compound => exact not_fails_ok _
      | none =>
        cases rec.get (columnNameForItem env.floatText ⟨.var name,columnAlias⟩) with
        | some existing => exact not_fails_ok _
        | none => exact fun hfails => not_fails_var name rec ((fails_map _ _).mp hfails)
    | false =>
      rw [if_neg (by simp)]
      cases rec.get name with
      | some existing => exact not_fails_ok _
      | none =>
        dsimp only
        split_ifs
        · exact fun hfails => not_fails_var name rec ((fails_map _ _).mp hfails)
        · exact not_fails_ok _
  | _ => exact (fails_map _ _).trans h

theorem fails_project (outSchema : List String) (x : Executor) (items : List (ReturnItem S)) (emitCompound : Bool)
    (records : Rows) :
    Fails (runStep env st outSchema x (.project items emitCompound) records) ↔
      ∃ rec∈records,∃ item∈items,takesColumn env x rec item=false ∧ Fails (evalExpr env.eval st item.expr rec) := by
  have hnamed : ∀ {keeps : NamedRecord → String → Bool} {value : NamedRecord → ReturnItem S → Result Value},
      (∀ rec item,Fails (value rec item) ↔
        takesColumn env x rec item=false ∧ Fails (evalExpr env.eval st item.expr rec)) →
      (Fails (gather (fun rec => (projectRow env.eval env.floatText st keeps value items emitCompound rec).map
        fun row => [row]) records) ↔ ∃ rec∈records,∃ item∈items,
        takesColumn env x rec item=false ∧ Fails (evalExpr env.eval st item.expr rec)) := by
    intro keeps value hvalue
    rw [fails_gather]
    refine exists_congr fun rec => and_congr_right fun _ => ?_
    rw [fails_map,projectRow,fails_map,fails_gather]
    exact exists_congr fun item => and_congr_right fun _ => fails_itemColumns (hvalue rec item) emitCompound
  cases x with
  | materialised => exact hnamed fails_projectedValue
  | streaming => exact hnamed fails_streamedValue
  | slot =>
    simp only [runStep,projectSlots]
    rw [fails_gather]
    refine exists_congr fun rec => and_congr_right fun _ => ?_
    rw [fails_map,fails_gather]
    refine exists_congr fun item => and_congr_right fun hitem => ?_
    rw [slotColumns,if_pos (List.mem_map_of_mem hitem),fails_map]
    exact fails_slotValue rec item

end Failures

section Aggregates

variable {env} {st}
variable {records : Rows} {rec : NamedRecord}

theorem fails_dropDuplicates {input : Cell} (hrec : rec∈records) (hfails : Fails (input rec))
    (seen : List Value) : Fails (dropDuplicates input seen records) := by
  induction records generalizing seen with
  | nil => exact absurd hrec List.not_mem_nil
  | cons first rest ih =>
    rw [dropDuplicates]
    rcases fails_or_ok (input first) with ⟨e,he⟩|⟨val,hval⟩
    · rw [he]
      exact fails_error e
    · have hrest : rec∈rest := by
        rcases List.mem_cons.mp hrec with hfirst|hin
        · rw [hfirst,hval] at hfails
          exact absurd hfails (not_fails_ok _)
        · exact hin
      rw [hval]
      dsimp only [bind,Except.bind]
      split_ifs
      · exact ih hrest seen
      · obtain ⟨e,he⟩ := ih hrest (seen++[val])
        rw [he]
        exact fails_error e

theorem fails_inputValues {input : Cell} (hrec : rec∈records) (hfails : Fails (input rec)) :
    Fails (inputValues input records) :=
  fails_gather.mpr ⟨rec,hrec,(fails_map _ _).mpr hfails⟩

theorem isStar_of_fails {expr : Expr S} (h : Fails (evalItem env st expr rec)) : isStar expr=false := by
  cases expr with
  | star => exact absurd h (not_fails_ok _)
  | _ => rfl

/-- An aggregate other than a plain count fails when its argument fails on a row. -/
theorem fails_computeAggregate
    (hnumeric : ∀ function second values,Fails values → Fails (env.numeric function second values))
    {agg : AggregateExpr S} (hplain : isPlainCount agg=false)
    (hrec : rec∈records) (hfails : Fails (evalItem env st agg.input rec)) :
    Fails (computeAggregate env st agg records) := by
  have hstar := isStar_of_fails hfails
  rw [computeAggregate]
  cases hdistinct : agg.distinct with
  | true =>
    obtain ⟨e,he⟩ := fails_dropDuplicates hrec hfails []
    rw [if_pos ⟨rfl,hstar⟩,he]
    exact fails_error e
  | false =>
    obtain ⟨e,he⟩ := fails_inputValues hrec hfails
    rw [if_neg (by simp)]
    dsimp only [bind,Except.bind]
    rw [he]
    cases hfunction : agg.function with
    | count =>
      rw [isPlainCount,hfunction,hdistinct] at hplain
      exact absurd hplain (by decide)
    | min | max | collect => exact fails_error e
    | percentileDisc | percentileCont =>
      dsimp only
      cases evalBound (agg.extraArg.map (evalItem env st)) (records.head?.getD emptyRecord) with
      | error err => exact fails_error err
      | ok second => exact hnumeric _ second _ (fails_error e)
    | sum | avg | stDev | stDevP => exact hnumeric _ _ _ (fails_error e)

theorem not_fails_plainCount {agg : AggregateExpr S} (hplain : isPlainCount agg=true) (records : Rows) :
    ¬Fails (computeAggregate env st agg records) := by
  rw [isPlainCount,Bool.and_eq_true,decide_eq_true_iff,Bool.not_eq_true'] at hplain
  simp only [computeAggregate,hplain.1,hplain.2,bind,Except.bind]
  cases isStar agg.input with
  | true | false => exact not_fails_ok _

theorem covered_groupsOf (groupKeys : List (Expr S)) (h : rec∈records) :
    ∃ group∈groupsOf env st groupKeys records,rec∈group.2 := by
  cases hkeys : groupKeys.isEmpty with
  | true =>
    rw [groupsOf,if_pos hkeys]
    exact ⟨_,List.mem_singleton_self _,h⟩
  | false =>
    rw [groupsOf_eq hkeys]
    exact covered_groupRows records h

/-- Aggregates of some rows fail exactly when one other than a plain count does. -/
theorem fails_aggregateColumns (aggregates : List (AggregateExpr S)) (records : Rows) :
    Fails (aggregateColumns env st aggregates records) ↔
      ∃ agg∈aggregates,isPlainCount agg=false ∧ Fails (computeAggregate env st agg records) := by
  rw [aggregateColumns,fails_gather]
  refine exists_congr fun agg => and_congr_right fun _ => ?_
  rw [fails_map]
  constructor
  · intro hfails
    refine ⟨?_,hfails⟩
    cases hplain : isPlainCount agg with
    | true => exact absurd hfails (not_fails_plainCount hplain records)
    | false => rfl
  · exact fun h => h.2

/-- An aggregation fails exactly when an aggregate other than a plain count fails on a group. -/
theorem fails_aggregate (outSchema : List String) (x : Executor) (groupKeys : List (Expr S))
    (aggregates : List (AggregateExpr S)) (records : Rows) :
    Fails (runStep env st outSchema x (.aggregate groupKeys aggregates) records) ↔
      ∃ group∈groupsOf env st groupKeys records,∃ agg∈aggregates,isPlainCount agg=false ∧
        Fails (computeAggregate env st agg group.2) := by
  have hnamed : Fails (aggregateNamedRecords env st records groupKeys aggregates) ↔
      ∃ group∈groupsOf env st groupKeys records,∃ agg∈aggregates,isPlainCount agg=false ∧
        Fails (computeAggregate env st agg group.2) := by
    rw [aggregateNamedRecords,fails_gather]
    refine exists_congr fun group => and_congr_right fun _ => ?_
    rw [fails_map,groupRow,fails_map,fails_aggregateColumns]
  cases x with
  | materialised | streaming => exact hnamed
  | slot =>
    simp only [runStep,aggregateSlots]
    rw [fails_gather]
    refine exists_congr fun group => and_congr_right fun _ => ?_
    rw [fails_map,fails_aggregateColumns]

end Aggregates

section Reporting

variable {env} {st}

theorem not_fails_sort (outSchema : List String) (x : Executor) (items : List (SortItem S)) (records : Rows) :
    ¬Fails (runStep env st outSchema x (.sort items) records) := by
  cases x with
  | materialised | streaming | slot => exact not_fails_ok _

/-- Every executor reports every error exactly under the condition of the operator. -/
theorem reported_iff
    (hnumeric : ∀ function second values,Fails values → Fails (env.numeric function second values))
    (outSchema : List String) (step : RowStep S) (records : Rows) :
    (∀ x,Raises env st step records → Fails (runStep env st outSchema x step records)) ↔
      Reports env st step records := by
  cases step with
  | filter predicate =>
    have hall : ∀ x,Raises env st (.filter predicate) records →
        Fails (runStep env st outSchema x (.filter predicate) records) := by
      intro x hraises
      cases x with
      | materialised | streaming | slot => exact fails_execFilter.mpr hraises
    exact iff_of_true hall trivial
  | sort items =>
    constructor
    · intro hall rec hrec item hitem hfails
      exact not_fails_sort outSchema .materialised items records (hall _ ⟨rec,hrec,item,hitem,hfails⟩)
    · intro hreports x hraises
      have ⟨rec,hrec,item,hitem,hfails⟩ := hraises
      exact absurd hfails (hreports rec hrec item hitem)
  | project items emitCompound =>
    refine forall_congr' fun x => ?_
    rw [fails_project]
    constructor
    · intro hreported
      by_cases hraises : Raises env st (.project items emitCompound) records
      · exact Or.inr (hreported hraises)
      · exact Or.inl fun rec hrec item hitem _ hfails => hraises ⟨rec,hrec,item,hitem,hfails⟩
    · intro hcase hraises
      rcases hcase with hnone|hsome
      · have ⟨rec,hrec,item,hitem,hfails⟩ := hraises
        refine ⟨rec,hrec,item,hitem,?_,hfails⟩
        cases htakes : takesColumn env x rec item with
        | true => exact absurd hfails (hnone rec hrec item hitem htakes)
        | false => rfl
      · exact hsome
  | aggregate groupKeys aggregates =>
    constructor
    · intro hall
      by_cases hraises : Raises env st (.aggregate groupKeys aggregates) records
      · exact Or.inr ((fails_aggregate outSchema .materialised groupKeys aggregates records).mp (hall _ hraises))
      · exact Or.inl fun rec hrec => ⟨fun key hkey hfails => hraises ⟨rec,hrec,Or.inl ⟨key,hkey,hfails⟩⟩,
          fun agg hagg _ hfails => hraises ⟨rec,hrec,Or.inr ⟨agg,hagg,hfails⟩⟩⟩
    · intro hcase x hraises
      rw [fails_aggregate]
      rcases hcase with hnone|hsome
      · obtain ⟨rec,hrec,hkey|hargument⟩ := hraises
        · have ⟨key,hkey,hfails⟩ := hkey
          exact absurd hfails ((hnone rec hrec).1 key hkey)
        · have ⟨agg,hagg,hfails⟩ := hargument
          have hplain : isPlainCount agg=false := by
            cases hcount : isPlainCount agg with
            | true => exact absurd hfails ((hnone rec hrec).2 agg hagg hcount)
            | false => rfl
          obtain ⟨group,hgroup,hin⟩ := covered_groupsOf groupKeys hrec
          exact ⟨group,hgroup,agg,hagg,hplain,fails_computeAggregate hnumeric hplain hin hfails⟩
      · exact hsome

theorem raises_of_fails_project {outSchema : List String} {x : Executor} {items : List (ReturnItem S)}
    {emitCompound : Bool} {records : Rows}
    (h : Fails (runStep env st outSchema x (.project items emitCompound) records)) :
    Raises env st (.project items emitCompound) records := by
  have ⟨rec,hrec,item,hitem,_,hfails⟩ := (fails_project outSchema x items emitCompound records).mp h
  exact ⟨rec,hrec,item,hitem,hfails⟩

theorem agreed_of_reported {outSchema : List String} {step : RowStep S} {records : Rows}
    (h : ∀ x,Raises env st step records → Fails (runStep env st outSchema x step records)) (x y : Executor) :
    Fails (runStep env st outSchema x step records) ↔ Fails (runStep env st outSchema y step records) := by
  cases step with
  | filter predicate =>
    have hsame : ∀ z,runStep env st outSchema z (.filter predicate) records=
        execFilter env st predicate records := by
      intro z
      cases z with
      | materialised | streaming | slot => rfl
    rw [hsame x,hsame y]
  | sort items =>
    exact iff_of_false (not_fails_sort outSchema x items records) (not_fails_sort outSchema y items records)
  | project items emitCompound =>
    exact ⟨fun hfails => h y (raises_of_fails_project hfails),fun hfails => h x (raises_of_fails_project hfails)⟩
  | aggregate groupKeys aggregates => rw [fails_aggregate,fails_aggregate]

theorem runSteps_append (outSchema : List String) (x : Executor) (front back : List (RowStep S)) (records : Rows) :
    runSteps env st outSchema x (front++back) records=
      (runSteps env st outSchema x front records).bind fun rows => runSteps env st outSchema x back rows := by
  induction front generalizing records with
  | nil => rfl
  | cons step rest ih =>
    rw [List.cons_append,runSteps,runSteps]
    cases runStep env st outSchema x step records with
    | error e => rfl
    | ok rows => exact ih rows

/-- Aggregation in which the numeric functions pass failures on and give null otherwise. -/
def passingAggregates : AggregateEnv Empty := {plainAggregates with numeric := fun _ _ values => values.map fun _ => .null}

end Reporting

end GraphDbLite.ErrorReporting
