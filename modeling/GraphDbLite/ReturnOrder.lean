import GraphDbLite.ErrorReporting
import GraphDbLite.SortedPositions
import GraphDbLite.StatementSyntax

/-!
# The order of returned rows

Most statements sort the rows before the projection, by sort expressions in which aliases
are replaced by their expressions where the planner looks for them. A `RETURN` after an
`UNWIND` or a `CALL` sorts the projected rows instead, which have lost the variables, and a
`RETURN` alone does not replace aliases. A key that has no value is null. The rows come in
the order that the sort expressions ask for exactly when these keys compare consistently
and invert the same rows.
-/

namespace GraphDbLite.ReturnOrder

open GraphTypes GraphStore CypherSyntax CypherEval WriteOperators FallibleLists QueryPlan
open QueryExecutor ColumnNames Projection Aggregation ErrorReporting StatementSyntax
open SortedPositions

section Planning

variable {S : Type}

/-- The first item with an alias. -/
def aliasedItem (items : List (ReturnItem S)) (name : String) : Option (ReturnItem S) :=
  items.find? fun item => item.columnAlias=some name

/-- A variable of a sort expression: the expression of an alias, unless that aggregates. -/
def resolveAlias (items : List (ReturnItem S)) (name : String) : Expr S :=
  match aliasedItem items name with
  | some item => if isAggregateFn item.expr=true then .var name else item.expr
  | none => .var name

mutual

/-- Replace aliases in a sort expression. -/
def resolveSortAliases (items : List (ReturnItem S)) : Expr S → Expr S
  | .var name => resolveAlias items name
  | .binaryOp left op right =>
    .binaryOp (resolveSortAliases items left) op (resolveSortAliases items right)
  | .not inner => .not (resolveSortAliases items inner)
  | .functionCall name args distinct originalText =>
    .functionCall name (resolveArgs items args) distinct originalText
  | expr => expr
termination_by structural expr => expr

def resolveArgs (items : List (ReturnItem S)) : List (Expr S) → List (Expr S)
  | [] => []
  | arg::rest => resolveSortAliases items arg::resolveArgs items rest
termination_by structural args => args

end

/-- Replace aliases in the sort columns. -/
def resolveSortItems (items : List (ReturnItem S)) (orderBy : List (SortItem S)) : List (SortItem S) :=
  orderBy.map fun si => ⟨resolveSortAliases items si.expr,si.descending⟩

/-- Where a statement sorts: before the projection, with or without replaced aliases, or after
it; a call first expands a star to its columns. -/
inductive TailOrder where
  | resolvedFirst
  | plainFirst
  | projectedFirst
  | called (yields : List (String×Option String))

/-- A `RETURN` with its sort columns and the place of the sort. -/
structure OrderedClause (S : Type) where
  /-- Place of the sort. -/
  order : TailOrder
  /-- Items that are returned. -/
  clause : ReturnClause S
  /-- Sort columns. -/
  orderBy : List (SortItem S)

/-- The optional `RETURN` of a statement that sorts before the projection. -/
def ofTail (tail : ReturnTail S) : Option (OrderedClause S) :=
  tail.returnClause.map fun rc => ⟨.resolvedFirst,rc,tail.orderBy⟩

/-- The final `RETURN` of a statement. -/
def finalReturn : StatementOf S → Option (OrderedClause S)
  | .match m => some ⟨.resolvedFirst,m.returnClause,m.orderBy⟩
  | .create c => ofTail c.tail
  | .matchCreate mc => ofTail mc.tail
  | .matchMerge mm => ofTail mm.tail
  | .delete d => ofTail d.tail
  | .set s => ofTail s.tail
  | .remove r => ofTail r.tail
  | .merge m => ofTail m.tail
  | .unwind u =>
    match u.body with
    | .return _ _ returnClause orderBy _ _ => some ⟨.projectedFirst,returnClause,orderBy⟩
    | .create _ _ tail => ofTail tail
  | .return r => some ⟨.plainFirst,r.returnClause,r.orderBy⟩
  | .multiClause mc => ofTail mc.tail
  | .explain inner => finalReturn inner
  | .union _ _ => none
  | .createIndex _ _ => none
  | .dropIndex _ _ => none
  | .call c tail => tail.returnClause.map fun rc => ⟨.called (c.yieldItems.getD []),rc,tail.orderBy⟩

/-- Columns of a call: a single variable named by a star stands for all of them. -/
def calledItems (yields : List (String×Option String)) (items : List (ReturnItem S)) :
    List (ReturnItem S) :=
  match items with
  | [⟨.var "*",_⟩] => yields.map fun entry => ⟨.var (entry.2.getD entry.1),none⟩
  | _ => items

/-- Items that are projected. -/
def TailOrder.items : TailOrder → List (ReturnItem S) → List (ReturnItem S)
  | .called yields,items => calledItems yields items
  | _,items => items

/-- Operators that a `RETURN` without `DISTINCT`, aggregation and bounds is planned as. -/
inductive TailStep (S : Type) where
  | project (items : List (ReturnItem S))
  | sort (items : List (SortItem S))

/-- Plan of such a `RETURN`. -/
def planTail (order : TailOrder) (items : List (ReturnItem S)) (orderBy : List (SortItem S)) :
    List (TailStep S) :=
  match order with
  | .resolvedFirst => [.sort (resolveSortItems items orderBy),.project items]
  | .plainFirst => [.sort orderBy,.project items]
  | .projectedFirst => [.project items,.sort orderBy]
  | .called yields => [.project (calledItems yields items),.sort orderBy]

end Planning

section Execution

variable {S : Type} (env : AggregateEnv S) (st : Store)
  (arrange : (Nat → Nat → Ordering) → Nat → List Nat)

/-- Comparison of the elements at two positions. -/
def compareAt {α : Type} (cmp : α → α → Ordering) (rows : List α) (i j : Nat) : Ordering :=
  match rows[i]?,rows[j]? with
  | some a,some b => cmp a b
  | _,_ => .eq

/-- Rows in the order of a sort. -/
def sortBy {α : Type} (cmp : α → α → Ordering) (rows : List α) : List α :=
  (arrange (compareAt cmp rows) rows.length).filterMap fun i => rows[i]?

/-- The projected row of a record. -/
def projectOne (x : Executor) (items : List (ReturnItem S)) (rec : NamedRecord) : Result NamedRecord :=
  match x with
  | .materialised =>
    projectRow env.eval env.floatText st keepsField (projectedValue env.eval env.floatText st) items true rec
  | .streaming =>
    projectRow env.eval env.floatText st streamsField (streamedValue env.eval env.floatText st) items true rec
  | .slot =>
    let outSchema := items.map (columnNameForItem env.floatText)
    (gather (slotColumns env.eval env.floatText st outSchema rec) items).map
      (setAll ⟨outSchema.map fun name => (name,Value.null)⟩)

/-- One operator on the rows of its input. -/
def runTailStep (x : Executor) : TailStep S → Rows → Result Rows
  | .project items,records => runStep env st [] x (.project items true) records
  | .sort items,records => .ok (sortBy arrange (fun a b => compareRows env st a b items) records)

/-- Operators one after the other. -/
def runTail (x : Executor) : List (TailStep S) → Rows → Result Rows
  | [],records => .ok records
  | step::rest,records => do
    let rows ← runTailStep env st arrange x step records
    runTail x rest rows

/-- One operator on rows that carry the position of the row they come from. -/
def tracedStep (x : Executor) : TailStep S → List (Nat×NamedRecord) → Result (List (Nat×NamedRecord))
  | .project items,rows =>
    gather (fun row => (projectOne env st x items row.2).map fun out => [(row.1,out)]) rows
  | .sort items,rows => .ok (sortBy arrange (fun a b => compareRows env st a.2 b.2 items) rows)

/-- Operators one after the other on such rows. -/
def traced (x : Executor) : List (TailStep S) → List (Nat×NamedRecord) → Result (List (Nat×NamedRecord))
  | [],rows => .ok rows
  | step::rest,rows => do
    let out ← tracedStep env st arrange x step rows
    traced x rest out

/-- Rows with their positions. -/
def positioned (records : Rows) : List (Nat×NamedRecord) := records.zipIdx.map Prod.swap

end Execution

section Meaning

variable {S : Type} (env : AggregateEnv S) (st : Store)

/-- Bind a name to a value and drop the fields of an entity that had the name. -/
def bindAlias (rec : NamedRecord) (name : String) (value : Value) : NamedRecord :=
  ⟨(name,value)::rec.fields.filter fun field =>
    field.1≠name && (ByteStrings.stripPrefix (name++".") field.1).isNone⟩

/-- Value of an item on a row, null for a failure. -/
def itemValue (rec : NamedRecord) (item : ReturnItem S) : Value :=
  match evalExpr env.eval st item.expr rec with
  | .ok val => val
  | .error _ => .null

/-- A row with the aliases of a `RETURN` bound to their values. -/
def withAliases (items : List (ReturnItem S)) (rec : NamedRecord) : NamedRecord :=
  items.foldl (fun row item =>
    match item.columnAlias with
    | some name => bindAlias row name (itemValue env st rec item)
    | none => row) rec

/-- Order that the sort columns ask for: aliases stand for their expressions. -/
def askedOrder (items : List (ReturnItem S)) (orderBy : List (SortItem S)) (a b : NamedRecord) : Ordering :=
  compareRows env st (withAliases env st items a) (withAliases env st items b) orderBy

/-- The projected row, empty for a failure. -/
def projectedOr (x : Executor) (items : List (ReturnItem S)) (rec : NamedRecord) : NamedRecord :=
  (projectOne env st x items rec).toOption.getD emptyRecord

/-- Order that a plan sorts by. -/
def plannedOrder (x : Executor) (order : TailOrder) (items : List (ReturnItem S))
    (orderBy : List (SortItem S)) (a b : NamedRecord) : Ordering :=
  match order with
  | .resolvedFirst => compareRows env st a b (resolveSortItems items orderBy)
  | .plainFirst => compareRows env st a b orderBy
  | _ => compareRows env st (projectedOr env st x (order.items items) a)
      (projectedOr env st x (order.items items) b) orderBy

/-- Whether the projection fails on a row. -/
def ProjectionFails (x : Executor) (items : List (ReturnItem S)) (records : Rows) : Prop :=
  ∃ rec∈records,Fails (projectOne env st x items rec)

end Meaning

section Positions

variable {α β : Type} {arrange : (Nat → Nat → Ordering) → Nat → List Nat}

theorem compareAt_map (cmp : β → β → Ordering) (f : α → β) (rows : List α) (i j : Nat) :
    compareAt cmp (rows.map f) i j=compareAt (fun a b => cmp (f a) (f b)) rows i j := by
  rw [compareAt,compareAt,List.getElem?_map,List.getElem?_map]
  cases rows[i]? with
  | none => rfl
  | some a =>
    cases rows[j]? with
    | none | some b => rfl

theorem sortBy_map (cmp : β → β → Ordering) (f : α → β) (rows : List α) :
    sortBy arrange cmp (rows.map f)=(sortBy arrange (fun a b => cmp (f a) (f b)) rows).map f := by
  have hcompare : compareAt cmp (rows.map f)=compareAt (fun a b => cmp (f a) (f b)) rows :=
    funext fun i => funext fun j => compareAt_map cmp f rows i j
  rw [sortBy,sortBy,hcompare,List.length_map,List.map_filterMap]
  exact congrArg (fun g => List.filterMap g _) (funext fun i => List.getElem?_map)

theorem mem_of_mem_sortBy {cmp : α → α → Ordering} {rows : List α} {a : α}
    (h : a∈sortBy arrange cmp rows) : a∈rows := by
  rw [sortBy] at h
  cases List.mem_filterMap.mp h with
  | intro i hi => exact List.mem_of_getElem? hi.2

theorem mem_sortBy (hsorts : Sorts arrange) {cmp : α → α → Ordering} {rows : List α} {a : α}
    (h : a∈rows) : a∈sortBy arrange cmp rows := by
  cases List.mem_iff_getElem?.mp h with
  | intro i hi =>
    have hlt : i< rows.length := (List.getElem?_eq_some_iff.mp hi).1
    have hmem : i∈arrange (compareAt cmp rows) rows.length :=
      (hsorts.perm _ _).mem_iff.mpr (List.mem_range.mpr hlt)
    exact List.mem_filterMap.mpr ⟨i,hmem,hi⟩

theorem getElem?_positioned (records : Rows) (i : Nat) :
    (positioned records)[i]?=records[i]?.map fun rec => (i,rec) := by
  rw [positioned,List.getElem?_map,List.getElem?_zipIdx,Option.map_map]
  exact congrArg (fun g => Option.map g records[i]?) (funext fun rec => by simp)

theorem mem_positioned {records : Rows} {row : Nat×NamedRecord} (h : row∈positioned records) :
    records[row.1]?=some row.2 := by
  cases List.mem_iff_getElem?.mp h with
  | intro i hi =>
    rw [getElem?_positioned] at hi
    cases hrec : records[i]? with
    | none => rw [hrec] at hi; exact nomatch hi
    | some rec =>
      rw [hrec] at hi
      have heq : (i,rec)=row := Option.some.inj hi
      rw [←heq]
      exact hrec

theorem positioned_snd (records : Rows) : (positioned records).map Prod.snd=records := by
  refine List.ext_getElem? fun i => ?_
  rw [List.getElem?_map,getElem?_positioned,Option.map_map]
  cases records[i]? with
  | none | some rec => rfl

theorem sortBy_positions (hsorts : Sorts arrange) (cmp : NamedRecord → NamedRecord → Ordering)
    (f : NamedRecord → NamedRecord) (records : Rows) :
    (sortBy arrange (fun a b => cmp a.2 b.2) ((positioned records).map fun row => (row.1,f row.2))).map Prod.fst=
      arrange (compareAt (fun a b => cmp (f a) (f b)) records) records.length := by
  have hlength : (positioned records).length=records.length := by
    rw [positioned,List.length_map,List.length_zipIdx]
  have hcompare : compareAt (fun a b : Nat×NamedRecord => cmp (f a.2) (f b.2)) (positioned records)=
      compareAt (fun a b => cmp (f a) (f b)) records := by
    refine funext fun i => funext fun j => ?_
    have hmap := compareAt_map (fun a b => cmp (f a) (f b)) Prod.snd (positioned records) i j
    rw [positioned_snd] at hmap
    exact hmap.symm
  rw [sortBy_map,List.map_map,sortBy,hcompare,hlength,List.map_filterMap]
  have hkeep : ∀ i∈arrange (compareAt (fun a b => cmp (f a) (f b)) records) records.length,
      Option.map (Prod.fst∘fun row : Nat×NamedRecord => (row.1,f row.2)) (positioned records)[i]?=some i := by
    intro i hi
    have hlt := List.mem_range.mp ((hsorts.perm _ _).mem_iff.mp hi)
    rw [getElem?_positioned,List.getElem?_eq_getElem hlt]
    rfl
  rw [List.filterMap_congr hkeep]
  exact List.filterMap_some

end Positions

section Runs

variable {S : Type} {env : AggregateEnv S} {st : Store}
  {arrange : (Nat → Nat → Ordering) → Nat → List Nat}

theorem runStep_project (x : Executor) (items : List (ReturnItem S)) (records : Rows) :
    runStep env st [] x (.project items true) records=
      gather (fun rec => (projectOne env st x items rec).map fun out => [out]) records := by
  cases x with
  | materialised | streaming => rfl
  | slot =>
    rw [runStep,projectSlots]
    refine gather_congr fun rec _ => ?_
    rw [projectOne]
    cases gather (slotColumns env.eval env.floatText st (items.map (columnNameForItem env.floatText)) rec)
      items with
    | error e | ok columns => rfl

theorem gather_positions (f : NamedRecord → Result NamedRecord) (rows : List (Nat×NamedRecord)) :
    gather (fun row => (f row.2).map fun out => [out]) rows=
      (gather (fun row => (f row.2).map fun out => [(row.1,out)]) rows).map (List.map Prod.snd) := by
  induction rows with
  | nil => rfl
  | cons row rest ih =>
    rw [gather,gather,ih]
    cases gather (fun row : Nat×NamedRecord => (f row.2).map fun out => [(row.1,out)]) rest with
    | error e | ok back =>
      cases f row.2 with
      | error e' | ok out => rfl

theorem tracedStep_forget (x : Executor) (step : TailStep S) (rows : List (Nat×NamedRecord)) :
    runTailStep env st arrange x step (rows.map Prod.snd)=
      (tracedStep env st arrange x step rows).map (List.map Prod.snd) := by
  cases step with
  | project items =>
    rw [runTailStep,tracedStep,runStep_project,gather_map]
    exact gather_positions _ rows
  | sort items =>
    rw [runTailStep,tracedStep,sortBy_map]
    rfl

theorem traced_forget (x : Executor) (steps : List (TailStep S)) (rows : List (Nat×NamedRecord)) :
    runTail env st arrange x steps (rows.map Prod.snd)=
      (traced env st arrange x steps rows).map (List.map Prod.snd) := by
  induction steps generalizing rows with
  | nil => rfl
  | cons step rest ih =>
    rw [runTail,traced,tracedStep_forget]
    cases tracedStep env st arrange x step rows with
    | error e => rfl
    | ok out => exact ih out

theorem compareKeys_eq (a b : NamedRecord) (items : List (SortItem S)) :
    compareKeys env (items.map SortItem.descending) (items.map fun item => sortKey env st item a)
      (items.map fun item => sortKey env st item b)=compareRows env st a b items := by
  induction items with
  | nil => rfl
  | cons item rest ih =>
    rw [List.map_cons,List.map_cons,List.map_cons,compareKeys,compareRows,ih]

theorem tracedStep_project {x : Executor} {items : List (ReturnItem S)} {rows : List (Nat×NamedRecord)}
    (h : ∀ row∈rows,¬Fails (projectOne env st x items row.2)) :
    tracedStep env st arrange x (.project items) rows=
      .ok (rows.map fun row => (row.1,projectedOr env st x items row.2)) := by
  have hok : ∀ row∈rows,((projectOne env st x items row.2).map fun out => [(row.1,out)])=
      .ok [(row.1,projectedOr env st x items row.2)] := by
    intro row hrow
    rw [projectedOr]
    cases hproject : projectOne env st x items row.2 with
    | error e => exact absurd ⟨e,hproject⟩ (h row hrow)
    | ok out => rfl
  rw [tracedStep,gather_ok hok,List.map_eq_flatMap]

end Runs

section Order

variable {S : Type} (env : AggregateEnv S) (st : Store)

/-- Returned rows, with the positions of the rows they come from, are as asked for: all
rows, each with its projected values, in the stable order of the sort columns. -/
structure AskedRows (x : Executor) (ret : OrderedClause S) (records : Rows)
    (out : List (Nat×NamedRecord)) : Prop where
  /-- All rows, each once. -/
  perm : (out.map Prod.fst).Perm (List.range records.length)
  /-- Values of the items. -/
  values : ∀ row∈out,∃ rec,records[row.1]?=some rec ∧
    projectOne env st x (ret.order.items ret.clause.items) rec=.ok row.2
  /-- Order of the rows. -/
  ordered : (out.map Prod.fst).Pairwise
    (Placed (compareAt (askedOrder env st ret.clause.items ret.orderBy) records))

/-- A statement returns rows as asked for, whatever sort it uses. -/
def ReturnsInOrder (x : Executor) (ret : OrderedClause S) (records : Rows) : Prop :=
  ∀ arrange,Sorts arrange → ∀ out,
    traced env st arrange x (planTail ret.order ret.clause.items ret.orderBy) (positioned records)=.ok out →
      AskedRows env st x ret records out

variable {env st} {arrange : (Nat → Nat → Ordering) → Nat → List Nat}
variable {x : Executor} {records : Rows} {ret : OrderedClause S}

theorem traced_sortFirst (hsorts : Sorts arrange) {items : List (ReturnItem S)} (keys : List (SortItem S))
    (hok : ¬ProjectionFails env st x items records) : ∃ out,traced env st arrange x [.sort keys,.project items]
    (positioned records)=.ok out ∧ out.map Prod.fst=arrange
    (compareAt (fun a b => compareRows env st a b keys) records) records.length ∧
    ∀ row∈out,∃ rec,records[row.1]?=some rec ∧ row.2=projectedOr env st x items rec := by
  let sorted := sortBy arrange (fun a b : Nat×NamedRecord => compareRows env st a.2 b.2 keys) (positioned records)
  have hrows : ∀ row∈sorted,records[row.1]?=some row.2 := fun row hrow => mem_positioned (mem_of_mem_sortBy hrow)
  have hproject : ∀ row∈sorted,¬Fails (projectOne env st x items row.2) :=
    fun row hrow hfails => hok ⟨row.2,List.mem_of_getElem? (hrows row hrow),hfails⟩
  have hrun : traced env st arrange x [.sort keys,.project items] (positioned records)=
      .ok (sorted.map fun row => (row.1,projectedOr env st x items row.2)) := by
    rw [traced,tracedStep]
    dsimp only [bind,Except.bind]
    rw [traced,tracedStep_project hproject]
    rfl
  refine ⟨_,hrun,?_,?_⟩
  · have hpositions := sortBy_positions hsorts (fun a b => compareRows env st a b keys) id records
    have hsame : (positioned records).map (fun row => (row.1,id row.2))=positioned records := List.map_id' _
    rw [hsame] at hpositions
    rw [List.map_map]
    exact hpositions
  · exact List.forall_mem_map.mpr fun row hrow => ⟨row.2,hrows row hrow,rfl⟩

theorem traced_projectFirst (hsorts : Sorts arrange) {items : List (ReturnItem S)}
    (keys : List (SortItem S)) (hok : ¬ProjectionFails env st x items records) :
    ∃ out,traced env st arrange x [.project items,.sort keys] (positioned records)=.ok out ∧
      out.map Prod.fst=arrange (compareAt (fun a b => compareRows env st (projectedOr env st x items a)
        (projectedOr env st x items b) keys) records) records.length ∧
      ∀ row∈out,∃ rec,records[row.1]?=some rec ∧ row.2=projectedOr env st x items rec := by
  have hproject : ∀ row∈positioned records,¬Fails (projectOne env st x items row.2) :=
    fun row hrow hfails => hok ⟨row.2,List.mem_of_getElem? (mem_positioned hrow),hfails⟩
  have hrun : traced env st arrange x [.project items,.sort keys] (positioned records)=
      .ok (sortBy arrange (fun a b => compareRows env st a.2 b.2 keys)
        ((positioned records).map fun row => (row.1,projectedOr env st x items row.2))) := by
    rw [traced,tracedStep_project hproject]
    rfl
  refine ⟨_,hrun,sortBy_positions hsorts (fun a b => compareRows env st a b keys) _ records,?_⟩
  intro out hout
  cases List.mem_map.mp (mem_of_mem_sortBy hout) with
  | intro row hrow =>
    rw [←hrow.2]
    exact ⟨row.2,mem_positioned hrow.1,rfl⟩

/-- A run without a failing projection returns the rows in the order that the plan sorts
by. -/
theorem traced_planTail (hsorts : Sorts arrange)
    (hok : ¬ProjectionFails env st x (ret.order.items ret.clause.items) records) :
    ∃ out,traced env st arrange x (planTail ret.order ret.clause.items ret.orderBy)
    (positioned records)= .ok out ∧ out.map Prod.fst=arrange
    (compareAt (plannedOrder env st x ret.order ret.clause.items ret.orderBy) records) records.length ∧
    ∀ row∈out,∃ rec,records[row.1]?=some rec ∧ row.2=projectedOr env st x (ret.order.items ret.clause.items) rec := by
  rcases ret with ⟨order,clause,orderBy⟩
  cases order with
  | resolvedFirst | plainFirst => exact traced_sortFirst hsorts _ hok
  | projectedFirst | called yields => exact traced_projectFirst hsorts _ hok

theorem traced_fails (hsorts : Sorts arrange)
    (hfails : ProjectionFails env st x (ret.order.items ret.clause.items) records)
    (out : List (Nat×NamedRecord)) :
    traced env st arrange x (planTail ret.order ret.clause.items ret.orderBy) (positioned records)≠
      .ok out := by
  have hstep {items : List (ReturnItem S)} {rows : List (Nat×NamedRecord)}
      (hrows : ∀ row∈positioned records,row∈rows) (hproject : ProjectionFails env st x items records) :
      Fails (tracedStep env st arrange x (.project items) rows) := by
    cases hproject with
    | intro rec hrec =>
      cases List.mem_iff_getElem?.mp hrec.1 with
      | intro i hi =>
        have hposition : (positioned records)[i]?=some (i,rec) := by rw [getElem?_positioned,hi]; rfl
        cases hrec.2 with
        | intro e he =>
          have hrow : Fails ((projectOne env st x items (i,rec).2).map fun out => [((i,rec).1,out)]) :=
            ⟨e,by rw [he]; rfl⟩
          exact fails_gather.mpr ⟨(i,rec),hrows _ (List.mem_of_getElem? hposition),hrow⟩
  have hsorted {keys : List (SortItem S)} {items : List (ReturnItem S)}
      (hproject : ProjectionFails env st x items records) :
      traced env st arrange x [.sort keys,.project items] (positioned records)≠.ok out := by
    have hrows : ∀ row∈positioned records,row∈sortBy arrange
        (fun a b : Nat×NamedRecord => compareRows env st a.2 b.2 keys) (positioned records) :=
      fun row hrow => mem_sortBy hsorts hrow
    cases hstep hrows hproject with
    | intro e he =>
      rw [traced,tracedStep]
      dsimp only [bind,Except.bind]
      rw [traced,he]
      exact fun heq => nomatch heq
  have hprojected {keys : List (SortItem S)} {items : List (ReturnItem S)}
      (hproject : ProjectionFails env st x items records) :
      traced env st arrange x [.project items,.sort keys] (positioned records)≠.ok out := by
    cases hstep (fun row hrow => hrow) hproject with
    | intro e he =>
      rw [traced,he]
      exact fun heq => nomatch heq
  rcases ret with ⟨order,clause,orderBy⟩
  cases order with
  | resolvedFirst | plainFirst => exact hsorted hfails
  | projectedFirst | called yields => exact hprojected hfails

/-- A statement with sort columns whose `RETURN` neither drops duplicates nor aggregates. -/
structure SortedReturn (stmt : StatementOf S) where
  /-- Its `RETURN`. -/
  ret : OrderedClause S
  /-- It is the final one. -/
  final : finalReturn stmt=some ret
  /-- No `DISTINCT`. -/
  keeps : ret.clause.distinct=false
  /-- No aggregation. -/
  plain : (ret.clause.items.any fun item => isAggregateFn item.expr)=false
  /-- There are sort columns. -/
  sorted : ret.orderBy≠[]

/-- Where the projection does not fail, the order asked for is that of every sort by the order
of the plan. -/
theorem returnsInOrder_iff_stable
    (hok : ¬ProjectionFails env st x (ret.order.items ret.clause.items) records) :
    ReturnsInOrder env st x ret records ↔ ∀ arrange,Sorts arrange →
      (arrange (compareAt (plannedOrder env st x ret.order ret.clause.items ret.orderBy) records)
        records.length).Pairwise (Placed (compareAt (askedOrder env st ret.clause.items ret.orderBy) records)) := by
  constructor
  · intro h arrange hsorts
    cases traced_planTail hsorts hok with
    | intro out hout =>
      rw [←hout.2.1]
      exact (h arrange hsorts out hout.1).ordered
  · intro h arrange hsorts out hrun
    cases traced_planTail hsorts hok with
    | intro out' hout =>
      have hsame : out'=out := Except.ok.inj (hout.1.symm.trans hrun)
      rw [hsame] at hout
      have hvalues : ∀ row∈out,∃ rec,records[row.1]?=some rec ∧
          projectOne env st x (ret.order.items ret.clause.items) rec=.ok row.2 := by
        intro row hrow
        cases hout.2.2 row hrow with
        | intro rec hrec =>
          refine ⟨rec,hrec.1,?_⟩
          rw [hrec.2,projectedOr]
          cases hproject : projectOne env st x (ret.order.items ret.clause.items) rec with
          | error e => exact absurd ⟨rec,List.mem_of_getElem? hrec.1,e,hproject⟩ hok
          | ok row => rfl
      have hperm : (out.map Prod.fst).Perm (List.range records.length) := by
        rw [hout.2.1]
        exact hsorts.perm _ _
      have hordered := h arrange hsorts
      rw [←hout.2.1] at hordered
      exact ⟨hperm,hvalues,hordered⟩

/-- The rows are returned in the order asked for exactly when the projection fails, or there
is at most one row, or the order that the plan sorts by is a total preorder on the rows which
inverts the same rows as the order asked for. -/
theorem returnsInOrder_iff {stmt : StatementOf S} (r : SortedReturn stmt) (x : Executor) (records : Rows) :
    ReturnsInOrder env st x r.ret records ↔
      ProjectionFails env st x (r.ret.order.items r.ret.clause.items) records ∨ records.length≤1 ∨
        (TotalOn (compareAt (plannedOrder env st x r.ret.order r.ret.clause.items r.ret.orderBy) records)
            records.length ∧
          SameInversions
            (compareAt (plannedOrder env st x r.ret.order r.ret.clause.items r.ret.orderBy) records)
            (compareAt (askedOrder env st r.ret.clause.items r.ret.orderBy) records) records.length) := by
  by_cases hfails : ProjectionFails env st x (r.ret.order.items r.ret.clause.items) records
  · exact iff_of_true (fun arrange hsorts out hrun => absurd hrun (traced_fails hsorts hfails out)) (Or.inl hfails)
  · rw [or_iff_right hfails,returnsInOrder_iff_stable hfails,stable_iff]

end Order

section Unwound

/-- Aggregation without scalar functions whose sort compares whole numbers. -/
def numberOrder : AggregateEnv Empty :=
  { plainAggregates with
    compareForSort := fun a b =>
      match a,b with
      | .i64 m,.i64 n => compare m n
      | _,_ => .eq }

/-- `UNWIND [2,1] AS x RETURN 1 AS y ORDER BY x`. -/
def unwoundQuery : StatementOf Empty :=
  .unwind ⟨.list [.literal (.i64 2),.literal (.i64 1)],"x",
    .return none [] ⟨[⟨.literal (.i64 1),some "y"⟩],false⟩ [⟨.var "x",false⟩] none none⟩

/-- Its `RETURN`. -/
def unwoundReturn : SortedReturn unwoundQuery :=
  ⟨⟨.projectedFirst,⟨[⟨.literal (.i64 1),some "y"⟩],false⟩,[⟨.var "x",false⟩]⟩,rfl,rfl,rfl,
    List.cons_ne_nil _ _⟩

/-- Its rows before the `RETURN`. -/
def unwoundRows : Rows := [⟨[("x",.i64 2)]⟩,⟨[("x",.i64 1)]⟩]

/-- The rows stay in the order of the list. -/
theorem unwound_unordered :
    ¬ReturnsInOrder numberOrder freshStore .materialised unwoundReturn.ret unwoundRows := by
  intro h
  have hok : ¬ProjectionFails numberOrder freshStore .materialised
      (unwoundReturn.ret.order.items unwoundReturn.ret.clause.items) unwoundRows := by
    rintro ⟨rec,hrec,e,he⟩
    have hproject : projectOne numberOrder freshStore .materialised
        (unwoundReturn.ret.order.items unwoundReturn.ret.clause.items) rec=.ok ⟨[("y",.i64 1)]⟩ := by
      rcases List.mem_cons.mp hrec with hfirst|hrest
      · rw [hfirst]
        rfl
      · rw [List.mem_singleton.mp hrest]
        rfl
    rw [hproject] at he
    exact nomatch he
  rcases stable_iff.mp ((returnsInOrder_iff_stable hok).mp h) with hsmall|⟨_,hsame⟩
  · exact absurd hsmall (by decide)
  · have hplanned : compareAt (plannedOrder numberOrder freshStore .materialised unwoundReturn.ret.order
        unwoundReturn.ret.clause.items unwoundReturn.ret.orderBy) unwoundRows 0 1=.eq := rfl
    have hasked : compareAt (askedOrder numberOrder freshStore unwoundReturn.ret.clause.items
        unwoundReturn.ret.orderBy) unwoundRows 0 1=.gt := rfl
    have hiff := hsame 0 1 (by decide) (by decide)
    rw [hplanned,hasked] at hiff
    exact absurd (hiff.mpr rfl) (by decide)

end Unwound

end GraphDbLite.ReturnOrder
