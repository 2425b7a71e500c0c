import GraphDbLite.ColumnNames
import GraphDbLite.IndexAccess

/-!
# Projection

RETURN and WITH turn each row into a row with the columns of their items. Before an
item is evaluated, the row is searched for a column named like its printed expression,
and the value found there is taken instead. A variable is returned as its entity at
the end of a query and carried with its flat fields in between. The materialised, the
streaming and the slot executor search in different ways.
-/

namespace GraphDbLite.Projection

open ByteStrings GraphTypes GraphStore WriteOperators CypherSyntax CypherValues CypherEval
open QueryPlan QueryExecutor FallibleLists ColumnNames NodeRecords

variable {S : Type}

/-- Variables of a record that are bound to entities, in order. -/
def compoundBindingVars (rec : NamedRecord) : List String :=
  ((rec.fields.filterMap fun field =>
    match cutFirst '.' field.1 with
    | some (var,prop) => if prop = "__id" ∨ prop = "__src" then some var else none
    | none => none).dedup).insertionSort fun a b => a≤b

/-- Whether a name starts with two underscores. -/
def isInternal (prop : String) : Bool := (stripPrefix "__" prop).isSome

/-- Whether a field is shown to the user: a dotted one that is not internal. -/
def isUserVisibleField (key : String) : Bool :=
  match cutFirst '.' key with
  | some (_,prop) => !isInternal prop
  | none => false

/-- Entity columns of a star. -/
def compoundColumns (rec : NamedRecord) : List (String×Value) :=
  (compoundBindingVars rec).filterMap fun var => (buildCompoundBinding rec var).map fun v => (var,v)

/-- Whether a final star of the materialised executor keeps a field. -/
def keepsField (rec : NamedRecord) (key : String) : Bool :=
  match cutFirst '.' key with
  | some (owner,prop) => !isInternal prop && !(compoundBindingVars rec).contains owner
  | none => !(compoundBindingVars rec).contains key && (rec.get (key++".__id")).isNone

/-- Whether a final star of the streaming executor keeps a field. -/
def streamsField (rec : NamedRecord) (key : String) : Bool :=
  isUserVisibleField key && match cutFirst '.' key with
    | some (owner,_) => !(compoundBindingVars rec).contains owner
    | none => true

/-- Fields of a variable under a column. -/
def carriedFields (rec : NamedRecord) (var column : String) : List (String×Value) :=
  rec.fields.filterMap fun field =>
    (stripPrefix (var++".") field.1).map fun rest => (column++("."++rest),field.2)

section Items

variable (env : EvalEnv S) (floatText : UInt64 → String) (st : Store)

/-- Whether an item reads a property of a deleted entity. -/
def readsDeleted (rec : NamedRecord) : Expr S → Bool
  | .property var _ =>
    match rec.get (var++".__deleted") with
    | some (.bool b) => b
    | _ => false
  | _ => false

/-- Value of an item of the materialised executor. -/
def projectedValue (rec : NamedRecord) (item : ReturnItem S) : Result Value :=
  let column := columnNameForItem floatText item
  let exprColumn := exprToColumnName floatText item.expr
  if readsDeleted rec item.expr=true ∨ (rec.get (column++".__id")).isSome=true then
    evalExpr env st item.expr rec
  else
    match rec.get exprColumn with
    | some existing => .ok existing
    | none =>
      if column=exprColumn then evalExpr env st item.expr rec
      else
        match rec.get column with
        | some existing =>
          if isAggregateCall item.expr=true then .ok existing else evalExpr env st item.expr rec
        | none => evalExpr env st item.expr rec

/-- Value of an item of the streaming executor. -/
def streamedValue (rec : NamedRecord) (item : ReturnItem S) : Result Value :=
  match rec.get (columnNameForItem floatText item) with
  | some existing => .ok existing
  | none => evalExpr env st item.expr rec

/-- Columns of a star. -/
def starColumns (keeps : NamedRecord → String → Bool) (emitCompound : Bool) (rec : NamedRecord) :
    List (String×Value) :=
  if emitCompound=true then compoundColumns rec++rec.fields.filter fun field => keeps rec field.1
  else rec.fields

/-- Columns of a variable. -/
def variableColumns (emitCompound : Bool) (rec : NamedRecord) (var column : String) :
    Result (List (String×Value)) :=
  if emitCompound=true then
    match buildCompoundBinding rec var with
    | some compound => .ok [(column,compound)]
    | none =>
      match rec.get column with
      | some existing => .ok [(column,existing)]
      | none => (evalExpr env st (.var var) rec).map fun v => [(column,v)]
  else
    match rec.get var with
    | some existing => .ok (carriedFields rec var column++[(column,existing)])
    | none =>
      if (carriedFields rec var column).isEmpty=true then
        (evalExpr env st (.var var) rec).map fun v => [(column,v)]
      else .ok (carriedFields rec var column)

/-- Columns that an item writes, in order. -/
def itemColumns (keeps : NamedRecord → String → Bool) (value : NamedRecord → ReturnItem S → Result Value)
    (emitCompound : Bool) (rec : NamedRecord) (item : ReturnItem S) : Result (List (String×Value)) :=
  match item.expr with
  | .star => .ok (starColumns keeps emitCompound rec)
  | .var name => variableColumns env st emitCompound rec name (columnNameForItem floatText item)
  | _ => (value rec item).map fun v => [(columnNameForItem floatText item,v)]

/-- Write columns into a record in order. -/
def setAll (rec : NamedRecord) (columns : List (String×Value)) : NamedRecord :=
  columns.foldl (fun rec column => rec.set column.1 column.2) rec

/-- The projected row of a record. -/
def projectRow (keeps : NamedRecord → String → Bool) (value : NamedRecord → ReturnItem S → Result Value)
    (items : List (ReturnItem S)) (emitCompound : Bool) (rec : NamedRecord) : Result NamedRecord :=
  (gather (itemColumns env floatText st keeps value emitCompound rec) items).map (setAll emptyRecord)

/-- Projection of the materialised executor. -/
def execProject (items : List (ReturnItem S)) (emitCompound : Bool) (records : Rows) : Result Rows :=
  gather (fun rec => (projectRow env floatText st keepsField (projectedValue env floatText st) items
    emitCompound rec).map fun row => [row]) records

/-- Projection of the streaming executor. -/
def streamProject (items : List (ReturnItem S)) (emitCompound : Bool) (records : Rows) : Result Rows :=
  gather (fun rec => (projectRow env floatText st streamsField (streamedValue env floatText st) items
    emitCompound rec).map fun row => [row]) records

/-- A row of the slot executor: one value for each name of the schema. -/
structure SlotRow where
  /-- Names of the slots. -/
  schema : List String
  /-- Values of the slots. -/
  values : List Value
  /-- Every slot has a value. -/
  aligned : values.length=schema.length

/-- A slot row seen as a record. -/
def SlotRow.view (row : SlotRow) : NamedRecord := ⟨row.schema.zip row.values⟩

/-- Evaluate an item on a slot row; properties are read from their slot. -/
def evalProjectItem (view : NamedRecord) (expr : Expr S) : Result Value :=
  match expr with
  | .literal l => .ok (literalToValue l)
  | .property var prop =>
    if readsDeleted view expr=true then evalExpr env st expr view
    else
      match view.get (var++("."++prop)) with
      | some v => .ok v
      | none => evalExpr env st expr view
  | _ => evalExpr env st expr view

/-- Value of an item of the slot executor. -/
def slotValue (view : NamedRecord) (item : ReturnItem S) : Result Value :=
  let column := columnNameForItem floatText item
  let exprColumn := exprToColumnName floatText item.expr
  if readsDeleted view item.expr=true then evalProjectItem env st view item.expr
  else
    match view.get exprColumn with
    | some v => .ok v
    | none =>
      if column≠exprColumn ∧ isAggregateCall item.expr=true then
        match view.get column with
        | some v => .ok v
        | none => evalProjectItem env st view item.expr
      else evalProjectItem env st view item.expr

/-- Slots that an item writes; a column without a slot is skipped. -/
def slotColumns (outSchema : List String) (view : NamedRecord) (item : ReturnItem S) :
    Result (List (String×Value)) :=
  if columnNameForItem floatText item∈outSchema then
    (slotValue env floatText st view item).map fun v => [(columnNameForItem floatText item,v)]
  else .ok []

/-- The projected slots of a row; slots that are not written are null. -/
def nextSlot (items : List (ReturnItem S)) (outSchema : List String) (row : SlotRow) : Result NamedRecord :=
  (gather (slotColumns env floatText st outSchema row.view) items).map
    (setAll ⟨outSchema.map fun name => (name,Value.null)⟩)

end Items

/-- Whether an expression is a star. -/
def isStar : Expr S → Bool
  | .star => true
  | _ => false

/-- Value that columns leave under a name: the one written last. -/
def lastValue (key : String) : List (String×Value) → Option Value
  | [] => none
  | column::rest => (lastValue key rest).or (if column.1=key then some column.2 else none)

theorem lastValue_append (key : String) (front back : List (String×Value)) :
    lastValue key (front++back)=(lastValue key back).or (lastValue key front) := by
  induction front with
  | nil =>
    rw [List.nil_append,lastValue,Option.or_none]
  | cons column rest ih =>
    rw [List.cons_append,lastValue,ih,lastValue,Option.or_assoc]

theorem get_setAll (rec : NamedRecord) (columns : List (String×Value)) (key : String) :
    (setAll rec columns).get key=(lastValue key columns).or (rec.get key) := by
  induction columns generalizing rec with
  | nil => rfl
  | cons column rest ih =>
    have htail : setAll rec (column::rest)=setAll (rec.set column.1 column.2) rest := rfl
    rw [htail,ih,lastValue,Option.or_assoc,get_set]
    by_cases hkey : column.1=key
    · rw [if_pos hkey,if_pos hkey.symm]
      rfl
    · rw [if_neg hkey,if_neg fun heq => hkey heq.symm]
      rfl

theorem lastValue_eq_none {key : String} {columns : List (String×Value)}
    (h : ∀ column∈columns,column.1≠key) : lastValue key columns=none := by
  induction columns with
  | nil => rfl
  | cons column rest ih =>
    rw [lastValue,ih fun c hc => h c (List.mem_cons_of_mem _ hc),if_neg (h column List.mem_cons_self)]
    rfl

theorem lastValue_single (key name : String) (v : Value) :
    lastValue key [(name,v)]=if name=key then some v else none := by
  rw [lastValue,lastValue,Option.none_or]

theorem carriedFields_ne {rec : NamedRecord} {var column : String} {field : String×Value}
    (h : field∈carriedFields rec var column) : field.1≠column := by
  have ⟨source,_,hmap⟩ := List.mem_filterMap.mp h
  have ⟨rest,_,heq⟩ := Option.map_eq_some_iff.mp hmap
  rw [←heq]
  intro hsame
  have hlength := congrArg String.length hsame
  simp only [String.length_append] at hlength
  have hdot : (".").length=1 := rfl
  omega

section Values

variable {env : EvalEnv S} {floatText : UInt64 → String} {st : Store} {rec : NamedRecord}
  {item : ReturnItem S}

/-- The field that is taken for the value of an item: one named like the expression, or
for an aggregate one named like the column. -/
def foundField (floatText : UInt64 → String) (rec : NamedRecord) (item : ReturnItem S) : Option Value :=
  (rec.get (exprToColumnName floatText item.expr)).or
    (if columnNameForItem floatText item≠exprToColumnName floatText item.expr ∧
        isAggregateCall item.expr=true then rec.get (columnNameForItem floatText item) else none)

theorem elim_eq_iff (found : Option Value) (fallback : Result Value) :
    found.elim fallback .ok=fallback ↔ ∀ existing,found=some existing → fallback=.ok existing := by
  cases found with
  | none => simp
  | some v =>
    simp only [Option.elim_some,Option.some.injEq,forall_eq']
    exact eq_comm

/-- The value of an item of the materialised executor is a found field or evaluated. -/
theorem projectedValue_eq :
    projectedValue env floatText st rec item=
      if readsDeleted rec item.expr=true ∨
          (rec.get (columnNameForItem floatText item++".__id")).isSome=true then
        evalExpr env st item.expr rec
      else (foundField floatText rec item).elim (evalExpr env st item.expr rec) .ok := by
  unfold projectedValue foundField
  by_cases hskip : readsDeleted rec item.expr=true ∨
      (rec.get (columnNameForItem floatText item++".__id")).isSome=true
  · rw [if_pos hskip,if_pos hskip]
  · rw [if_neg hskip,if_neg hskip]
    cases hexpr : rec.get (exprToColumnName floatText item.expr) with
    | some v => rfl
    | none =>
      by_cases hsame : columnNameForItem floatText item=exprToColumnName floatText item.expr
      · simp [hsame]
      · cases hcol : rec.get (columnNameForItem floatText item) with
        | none => simp [hsame]
        | some v =>
          by_cases hagg : isAggregateCall item.expr=true
          · simp [hsame,hagg]
          · simp [hsame,hagg]

theorem evalProjectItem_eq (hfree : readsDeleted rec item.expr=true ∨
    rec.get (exprToColumnName floatText item.expr)=none) :
    evalProjectItem env st rec item.expr=evalExpr env st item.expr rec := by
  cases hexpr : item.expr with
  | literal l => rfl
  | property var prop =>
    rw [hexpr] at hfree
    unfold evalProjectItem
    dsimp only
    by_cases hdeleted : readsDeleted rec (.property var prop : Expr S)=true
    · rw [if_pos hdeleted]
    · have hnone : rec.get (var++("."++prop))=none := hfree.resolve_left hdeleted
      rw [if_neg hdeleted,hnone]
  | _ => rfl

theorem slotValue_eq :
    slotValue env floatText st rec item=
      if readsDeleted rec item.expr=true then evalExpr env st item.expr rec
      else (foundField floatText rec item).elim (evalExpr env st item.expr rec) .ok := by
  unfold slotValue foundField
  by_cases hskip : readsDeleted rec item.expr=true
  · rw [if_pos hskip,if_pos hskip]
    exact @evalProjectItem_eq S env floatText st rec item (Or.inl hskip)
  · rw [if_neg hskip,if_neg hskip]
    cases hexpr : rec.get (exprToColumnName floatText item.expr) with
    | some v => rfl
    | none =>
      have heval := @evalProjectItem_eq S env floatText st rec item (Or.inr hexpr)
      by_cases hagg : columnNameForItem floatText item≠exprToColumnName floatText item.expr ∧
          isAggregateCall item.expr=true
      · rw [if_pos hagg,if_pos hagg]
        cases hcol : rec.get (columnNameForItem floatText item) with
        | none => simpa using heval
        | some v => rfl
      · rw [if_neg hagg,if_neg hagg]
        simpa using heval

/-- A column holds the value of an expression. -/
def ColumnHolds (row : NamedRecord) (column : String) (value : Result Value) : Prop :=
  ∃ v,row.get column=some v ∧ value=.ok v

/-- What later items leave under a column: a star or a carried variable may write it
again. -/
def overwritten (floatText : UInt64 → String) (keeps : NamedRecord → String → Bool)
    (emitCompound : Bool) (rec : NamedRecord) (column : String) : List (ReturnItem S) → Option Value
  | [] => none
  | item::rest => (overwritten floatText keeps emitCompound rec column rest).or
    (match item.expr with
      | .star => lastValue column (starColumns keeps emitCompound rec)
      | .var name =>
        if emitCompound=true then none
        else lastValue column (carriedFields rec name (columnNameForItem floatText item))
      | _ => none)

/-- Columns that are named apart; stars have none. -/
def DistinctColumns (floatText : UInt64 → String) (items : List (ReturnItem S)) : Prop :=
  ((items.filter fun item => !isStar item.expr).map (columnNameForItem floatText)).Nodup

variable {keeps : NamedRecord → String → Bool} {value : NamedRecord → ReturnItem S → Result Value}
  {emitCompound : Bool} {column : String} {columns : List (String×Value)} {row : NamedRecord}
  {items earlier later : List (ReturnItem S)}

theorem lastValue_itemColumns (hne : isStar item.expr=false → columnNameForItem floatText item≠column)
    (hrun : itemColumns env floatText st keeps value emitCompound rec item=.ok columns) :
    lastValue column columns=overwritten floatText keeps emitCompound rec column [item] := by
  have hsingle : ∀ {r : Result Value} {cs : List (String×Value)},
      isStar item.expr=false → (r.map fun v => [(columnNameForItem floatText item,v)])=.ok cs →
      lastValue column cs=none := by
    intro r cs hstar hmap
    cases r with
    | error e => cases hmap
    | ok v =>
      rw [←Except.ok.inj hmap,lastValue_single,if_neg (hne hstar)]
  rw [overwritten,overwritten,Option.none_or]
  unfold itemColumns at hrun
  cases hexpr : item.expr with
  | star =>
    rw [hexpr] at hrun
    rw [←Except.ok.inj hrun]
  | var name =>
    have hstar : isStar item.expr=false := by rw [hexpr]; rfl
    rw [hexpr] at hrun
    dsimp only at hrun ⊢
    unfold variableColumns at hrun
    cases emitCompound with
    | true =>
      rw [if_pos rfl] at hrun ⊢
      cases hcompound : buildCompoundBinding rec name with
      | some v =>
        rw [hcompound] at hrun
        rw [←Except.ok.inj hrun,lastValue_single,if_neg (hne hstar)]
      | none =>
        rw [hcompound] at hrun
        cases hexisting : rec.get (columnNameForItem floatText item) with
        | some v =>
          rw [hexisting] at hrun
          rw [←Except.ok.inj hrun,lastValue_single,if_neg (hne hstar)]
        | none =>
          rw [hexisting] at hrun
          exact hsingle hstar hrun
    | false =>
      rw [if_neg (by simp)] at hrun ⊢
      cases hexisting : rec.get name with
      | some v =>
        rw [hexisting] at hrun
        rw [←Except.ok.inj hrun,lastValue_append,lastValue_single,if_neg (hne hstar),Option.none_or]
      | none =>
        rw [hexisting] at hrun
        dsimp only at hrun
        by_cases hempty : (carriedFields rec name (columnNameForItem floatText item)).isEmpty=true
        · rw [if_pos hempty] at hrun
          rw [List.isEmpty_iff.mp hempty]
          exact hsingle hstar hrun
        · rw [if_neg hempty] at hrun
          rw [←Except.ok.inj hrun]
  | _ =>
    have hstar : isStar item.expr=false := by rw [hexpr]; rfl
    rw [hexpr] at hrun
    exact hsingle hstar hrun

theorem lastValue_gather {items : List (ReturnItem S)}
    (hne : ∀ item∈items,isStar item.expr=false → columnNameForItem floatText item≠column)
    (hrun : gather (itemColumns env floatText st keeps value emitCompound rec) items=.ok columns) :
    lastValue column columns=overwritten floatText keeps emitCompound rec column items := by
  induction items generalizing columns with
  | nil =>
    rw [←Except.ok.inj hrun]
    rfl
  | cons item rest ih =>
    have ⟨front,back,hfront,hback,heq⟩ := gather_cons_ok hrun
    have hhead := lastValue_itemColumns (hne item List.mem_cons_self) hfront
    have htail := ih (fun other hin => hne other (List.mem_cons_of_mem _ hin)) hback
    rw [overwritten,overwritten,Option.none_or] at hhead
    rw [heq,lastValue_append,hhead,htail,overwritten]

/-- When a variable that nothing overwrites gives its value: at the end of a query when
it is bound to an entity or its column is not another field, in between when its own
field is its value. -/
def VariableRight (floatText : UInt64 → String) (keeps : NamedRecord → String → Bool)
    (emitCompound : Bool) (rec : NamedRecord) (earlier : List (ReturnItem S)) (name column : String) :
    Prop :=
  if emitCompound=true then
    buildCompoundBinding rec name=none → ∀ existing,rec.get column=some existing →
      evalVariable name rec=.ok existing
  else
    match rec.get name with
    | some existing => evalVariable name rec=.ok existing
    | none => carriedFields rec name column=[] ∨
      ∃ v,overwritten floatText keeps emitCompound rec column earlier=some v ∧
        evalVariable name rec=.ok v

/-- When the column of an item holds the value of its expression. -/
def ItemRight (env : EvalEnv S) (floatText : UInt64 → String) (st : Store)
    (keeps : NamedRecord → String → Bool) (valueRight : Prop) (emitCompound : Bool) (rec : NamedRecord)
    (earlier : List (ReturnItem S)) (item : ReturnItem S) (later : List (ReturnItem S)) : Prop :=
  match overwritten floatText keeps emitCompound rec (columnNameForItem floatText item) later with
  | some v => evalExpr env st item.expr rec=.ok v
  | none =>
    match item.expr with
    | .var name =>
      VariableRight floatText keeps emitCompound rec earlier name (columnNameForItem floatText item)
    | _ => valueRight

theorem columnHolds_iff_of_get {v : Value} {value : Result Value} (h : row.get column=some v) :
    ColumnHolds row column value ↔ value=.ok v := by
  constructor
  · intro hholds
    have ⟨w,hw,hvalue⟩ := hholds
    rw [h] at hw
    rw [hvalue,Option.some.inj hw]
  · intro hvalue
    exact ⟨v,h,hvalue⟩

theorem map_single_ok {r : Result Value} (h : (r.map fun v => [(column,v)])=.ok columns) :
    ∃ v,r=.ok v ∧ columns=[(column,v)] := by
  cases r with
  | error e => cases h
  | ok v => exact ⟨v,rfl,(Except.ok.inj h).symm⟩

theorem variableColumns_iff {keeps : NamedRecord → String → Bool} {emitCompound : Bool}
    {earlier : List (ReturnItem S)} {name column : String} {columns : List (String×Value)}
    (hrun : variableColumns env st emitCompound rec name column=.ok columns) :
    (∃ v,(lastValue column columns).or (overwritten floatText keeps emitCompound rec column earlier)=some v ∧
        evalVariable name rec=.ok v) ↔
      VariableRight floatText keeps emitCompound rec earlier name column := by
  have hwritten : ∀ {cs : List (String×Value)} {v : Value},lastValue column cs=some v →
      ((∃ w,(lastValue column cs).or (overwritten floatText keeps emitCompound rec column earlier)=some w ∧
        evalVariable name rec=.ok w) ↔ evalVariable name rec=.ok v) := by
    intro cs v hv
    rw [hv,Option.some_or]
    simp
  have hown : ∀ v,lastValue column [(column,v)]=some v := fun v => by
    rw [lastValue_single,if_pos rfl]
  unfold variableColumns at hrun
  unfold VariableRight
  cases emitCompound with
  | true =>
    rw [if_pos rfl] at hrun ⊢
    cases hcompound : buildCompoundBinding rec name with
    | some v =>
      rw [hcompound] at hrun
      rw [←Except.ok.inj hrun,hwritten (hown v)]
      refine iff_of_true ?_ fun h => absurd h (by simp)
      unfold evalVariable
      rw [hcompound]
    | none =>
      rw [hcompound] at hrun
      cases hexisting : rec.get column with
      | some v =>
        rw [hexisting] at hrun
        rw [←Except.ok.inj hrun,hwritten (hown v)]
        simp
      | none =>
        rw [hexisting] at hrun
        have ⟨v,hv,heq⟩ := map_single_ok hrun
        rw [heq,hwritten (hown v)]
        exact iff_of_true hv fun _ existing h => absurd h (by simp)
  | false =>
    rw [if_neg (by simp)] at hrun ⊢
    cases hexisting : rec.get name with
    | some v =>
      rw [hexisting] at hrun
      have hlast : lastValue column (carriedFields rec name column++[(column,v)])=some v := by
        rw [lastValue_append,hown,Option.some_or]
      rw [←Except.ok.inj hrun,hwritten hlast]
    | none =>
      rw [hexisting] at hrun
      dsimp only at hrun ⊢
      by_cases hempty : (carriedFields rec name column).isEmpty=true
      · rw [if_pos hempty] at hrun
        have ⟨v,hv,heq⟩ := map_single_ok hrun
        rw [heq,hwritten (hown v)]
        exact iff_of_true hv (Or.inl (List.isEmpty_iff.mp hempty))
      · rw [if_neg hempty] at hrun
        have hnone : lastValue column (carriedFields rec name column)=none :=
          lastValue_eq_none fun c hc => carriedFields_ne hc
        rw [←Except.ok.inj hrun,hnone,Option.none_or]
        constructor
        · exact Or.inr
        · intro h
          exact h.resolve_left fun hnil => hempty (List.isEmpty_iff.mpr hnil)

section Slots

variable (hdistinct : DistinctColumns floatText items)

include hdistinct

theorem distinct_columns (hitems : items=earlier++item::later)
    (hstar : isStar item.expr=false) :
    (∀ other∈earlier,isStar other.expr=false →
        columnNameForItem floatText other≠columnNameForItem floatText item) ∧
      ∀ other∈later,isStar other.expr=false →
        columnNameForItem floatText other≠columnNameForItem floatText item := by
  unfold DistinctColumns at hdistinct
  rw [hitems,List.filter_append,List.filter_cons_of_pos (by simp [hstar]),List.map_append,
    List.map_cons,List.nodup_append] at hdistinct
  have ⟨_,hback,hacross⟩ := hdistinct
  have hnot := (List.nodup_cons.mp hback).1
  refine ⟨fun other hin hother heq => ?_,fun other hin hother heq => ?_⟩
  · have hmem : columnNameForItem floatText other∈
        (earlier.filter fun item => !isStar item.expr).map (columnNameForItem floatText) :=
      List.mem_map_of_mem (List.mem_filter.mpr ⟨hin,by simp [hother]⟩)
    exact hacross _ hmem _ List.mem_cons_self heq
  · rw [←heq] at hnot
    exact hnot (List.mem_map_of_mem (List.mem_filter.mpr ⟨hin,by simp [hother]⟩))

theorem projectRow_parts (hitems : items=earlier++item::later) (hstar : isStar item.expr=false)
    (hrun : projectRow env floatText st keeps value items emitCompound rec=.ok row) :
    ∃ own,itemColumns env floatText st keeps value emitCompound rec item=.ok own ∧
      row.get (columnNameForItem floatText item)=
        (overwritten floatText keeps emitCompound rec (columnNameForItem floatText item) later).or
          ((lastValue (columnNameForItem floatText item) own).or
            (overwritten floatText keeps emitCompound rec (columnNameForItem floatText item) earlier)) := by
  have ⟨hearlier,hlater⟩ := distinct_columns hdistinct hitems hstar
  unfold projectRow at hrun
  obtain ⟨columns,hall,hrun⟩ := exists_of_bind hrun
  rw [hitems] at hall
  have ⟨front,rest,hfront,hrest,hsplit⟩ := gather_append_ok hall
  have ⟨own,back,hown,hback,hsplit'⟩ := gather_cons_ok hrest
  refine ⟨own,hown,?_⟩
  have hempty : emptyRecord.get (columnNameForItem floatText item)=none := rfl
  rw [←Except.ok.inj hrun,get_setAll,hempty,Option.or_none,hsplit,hsplit',lastValue_append,
    lastValue_append,lastValue_gather hearlier hfront,lastValue_gather hlater hback,Option.or_assoc]

/-- The column of an item that is not a star holds the value of its expression exactly
when no other field is taken for it. -/
theorem projectRow_iff {valueRight : Prop}
    (hitems : items=earlier++item::later) (hstar : isStar item.expr=false)
    (hvalue : value rec item=evalExpr env st item.expr rec ↔ valueRight)
    (hrun : projectRow env floatText st keeps value items emitCompound rec=.ok row) :
    ColumnHolds row (columnNameForItem floatText item) (evalExpr env st item.expr rec) ↔
    ItemRight env floatText st keeps valueRight emitCompound rec earlier item later := by
  have ⟨own,hown,hget⟩ := projectRow_parts hdistinct hitems hstar hrun
  unfold ItemRight
  cases hlater : overwritten floatText keeps emitCompound rec (columnNameForItem floatText item) later with
  | some v =>
    rw [hlater,Option.some_or] at hget
    exact columnHolds_iff_of_get hget
  | none =>
    rw [hlater,Option.none_or] at hget
    dsimp only
    have hother : ((value rec item).map fun v => [(columnNameForItem floatText item,v)])=.ok own →
        (ColumnHolds row (columnNameForItem floatText item) (evalExpr env st item.expr rec) ↔ valueRight) := by
      intro hmap
      have ⟨v,hv,heq⟩ := map_single_ok hmap
      rw [heq,lastValue_single,if_pos rfl,Option.some_or] at hget
      rw [columnHolds_iff_of_get hget,←hvalue,hv]
      exact eq_comm
    unfold itemColumns at hown
    cases hexpr : item.expr with
    | star =>
      rw [hexpr] at hstar
      cases hstar
    | var name =>
      rw [hexpr] at hown
      dsimp only
      rw [←@variableColumns_iff S env floatText st rec keeps emitCompound earlier name _ own hown]
      unfold ColumnHolds
      rw [hget]
      exact Iff.rfl
    | _ =>
      rw [hexpr] at hown
      have hiff := hother hown
      rw [hexpr] at hiff
      exact hiff

/-- Slots named apart: the slot of an item holds the value of its expression exactly when
a found field does. -/
theorem nextSlot_iff {outSchema : List String} {row : SlotRow}
    {out : NamedRecord}
    (hitems : items=earlier++item::later) (hstars : ∀ other∈items,isStar other.expr=false)
    (hslot : columnNameForItem floatText item∈outSchema)
    (hrun : nextSlot env floatText st items outSchema row=.ok out) :
    ColumnHolds out (columnNameForItem floatText item) (evalExpr env st item.expr row.view) ↔
      (readsDeleted row.view item.expr=true ∨ ∀ existing,
        foundField floatText row.view item=some existing →
          evalExpr env st item.expr row.view=.ok existing) := by
  have hin : item∈items := by simp [hitems]
  have ⟨_,hlater⟩ := distinct_columns hdistinct hitems (hstars item hin)
  have hskip : ∀ {others : List (ReturnItem S)} {columns : List (String×Value)},
      (∀ other∈others,columnNameForItem floatText other≠columnNameForItem floatText item) →
      gather (slotColumns env floatText st outSchema row.view) others=.ok columns →
      lastValue (columnNameForItem floatText item) columns=none := by
    intro others columns hne hothers
    refine lastValue_eq_none fun column hcolumn => ?_
    have ⟨other,hother,part,hpart,hmem⟩ := (mem_gather hothers).mp hcolumn
    unfold slotColumns at hpart
    split_ifs at hpart with hknown
    · have ⟨v,_,heq⟩ := map_single_ok hpart
      rw [heq,List.mem_singleton] at hmem
      rw [hmem]
      exact hne other hother
    · rw [←Except.ok.inj hpart] at hmem
      exact absurd hmem List.not_mem_nil
  unfold nextSlot at hrun
  obtain ⟨columns,hall,hrun⟩ := exists_of_bind hrun
  rw [hitems] at hall
  have ⟨front,rest,_,hrest,hsplit⟩ := gather_append_ok hall
  have ⟨own,back,hown,hback,hsplit'⟩ := gather_cons_ok hrest
  have hnone := hskip (fun other hother => hlater other hother
    (hstars other (by simp [hitems,hother]))) hback
  unfold slotColumns at hown
  rw [if_pos hslot] at hown
  have ⟨v,hv,heq⟩ := map_single_ok hown
  have hget : out.get (columnNameForItem floatText item)=some v := by
    rw [←Except.ok.inj hrun,get_setAll,hsplit,hsplit',lastValue_append,lastValue_append,hnone,
      Option.none_or,heq,lastValue_single,if_pos rfl,Option.some_or,Option.some_or]
  rw [columnHolds_iff_of_get hget]
  rw [slotValue_eq] at hv
  by_cases hdeleted : readsDeleted row.view item.expr=true
  · rw [if_pos hdeleted] at hv
    exact iff_of_true hv (Or.inl hdeleted)
  · rw [if_neg hdeleted] at hv
    have hiff := elim_eq_iff (foundField floatText row.view item) (evalExpr env st item.expr row.view)
    rw [hv] at hiff
    rw [or_iff_right hdeleted,←hiff]
    exact eq_comm

end Slots

end Values

section Carried

variable {rec : NamedRecord} {var column : String}

/-- Fields under a variable by the rest of their names. -/
def suffixFields (rec : NamedRecord) (var : String) : Properties :=
  rec.fields.filterMap fun field => (stripPrefix (var++".") field.1).map fun rest => (rest,field.2)

theorem get_dotted (rec : NamedRecord) (var rest : String) :
    rec.get (var++("."++rest))=getProp (suffixFields rec var) rest := by
  have ⟨fields⟩ := rec
  unfold NamedRecord.get suffixFields
  dsimp only
  induction fields with
  | nil => rfl
  | cons field others ih =>
    rw [getProp_cons]
    by_cases hkey : field.1=var++("."++rest)
    · have hstrip : stripPrefix (var++".") field.1=some rest :=
        stripPrefix_eq_some.mpr (by rw [hkey,String.append_assoc])
      rw [if_pos hkey,List.filterMap_cons_some (by rw [hstrip]; rfl),getProp_cons,if_pos rfl]
    · rw [if_neg hkey,ih]
      cases hstrip : stripPrefix (var++".") field.1 with
      | none => rw [List.filterMap_cons_none (by rw [hstrip]; rfl)]
      | some other =>
        have hne : other≠rest := by
          intro heq
          rw [heq,stripPrefix_eq_some,String.append_assoc] at hstrip
          exact hkey hstrip
        rw [List.filterMap_cons_some (by rw [hstrip]; rfl),getProp_cons,if_neg hne]

theorem boundProperties_eq (rec : NamedRecord) (var : String) :
    boundProperties rec var=(suffixFields rec var).filter fun entry => (stripPrefix "__" entry.1).isNone := by
  unfold boundProperties suffixFields
  rw [List.filter_filterMap]
  refine List.filterMap_congr fun field _ => ?_
  cases hstrip : stripPrefix (var++".") field.1 with
  | none => rfl
  | some prop => cases hinternal : stripPrefix "__" prop <;> simp [Option.filter,hinternal]

theorem evalVariable_congr {other : NamedRecord} (hself : other.get column=rec.get var)
    (hfields : suffixFields other column=suffixFields rec var) :
    evalVariable column other=evalVariable var rec := by
  have hmeta : ∀ rest : String,other.get (column++("."++rest))=rec.get (var++("."++rest)) := fun rest => by
    rw [get_dotted,get_dotted,hfields]
  have hid : other.get (column++".__id")=rec.get (var++".__id") := hmeta "__id"
  have hlabel : other.get (column++".__label")=rec.get (var++".__label") := hmeta "__label"
  have hsrc : other.get (column++".__src")=rec.get (var++".__src") := hmeta "__src"
  have hdst : other.get (column++".__dst")=rec.get (var++".__dst") := hmeta "__dst"
  have htype : other.get (column++".__type")=rec.get (var++".__type") := hmeta "__type"
  have hprops : boundProperties other column=boundProperties rec var := by
    rw [boundProperties_eq,boundProperties_eq,hfields]
  have hcompound : buildCompoundBinding other column=buildCompoundBinding rec var := by
    unfold buildCompoundBinding edgeIdentity
    rw [hself,hid,hlabel,hsrc,hdst,htype,hprops]
  unfold evalVariable
  rw [hcompound,hself]

theorem suffixFields_set {key : String} (hkey : stripPrefix (var++".") key=none) (value : Value) :
    suffixFields (rec.set key value) var=suffixFields rec var := by
  unfold NamedRecord.set
  by_cases hpresent : (rec.get key).isSome=true
  · rw [if_pos hpresent]
    unfold suffixFields
    rw [List.filterMap_map]
    refine List.filterMap_congr fun field _ => ?_
    by_cases hfield : field.1=key
    · simp [hfield,hkey]
    · simp [hfield]
  · rw [if_neg hpresent]
    unfold suffixFields
    rw [List.filterMap_append,List.filterMap_cons_none (by rw [hkey]; rfl),List.filterMap_nil,
      List.append_nil]

variable {columns : List (String×Value)} {name other : String} {items earlier later : List (ReturnItem S)}
  {item : ReturnItem S} {row : NamedRecord}

theorem suffixFields_setAll (h : ∀ c∈columns,stripPrefix (var++".") c.1=none) :
    suffixFields (setAll rec columns) var=suffixFields rec var := by
  induction columns generalizing rec with
  | nil => rfl
  | cons c rest ih =>
    have htail : setAll rec (c::rest)=setAll (rec.set c.1 c.2) rest := rfl
    rw [htail,ih fun d hd => h d (List.mem_cons_of_mem _ hd),suffixFields_set (h c List.mem_cons_self)]

theorem suffixFields_set_new {rest : String} (hnew : rec.get (var++("."++rest))=none) (value : Value) :
    suffixFields (rec.set (var++("."++rest)) value) var=suffixFields rec var++[(rest,value)] := by
  have hstrip : stripPrefix (var++".") (var++("."++rest))=some rest :=
    stripPrefix_eq_some.mpr (by rw [String.append_assoc])
  unfold NamedRecord.set
  rw [if_neg (by simp [hnew])]
  unfold suffixFields
  rw [List.filterMap_append,List.filterMap_cons_some (by rw [hstrip]; rfl),List.filterMap_nil]

theorem suffixFields_setAll_new {entries : Properties} (hnodup : (entries.map Prod.fst).Nodup)
    (hnew : ∀ entry∈entries,rec.get (var++("."++entry.1))=none) :
    suffixFields (setAll rec (entries.map fun entry => (var++("."++entry.1),entry.2))) var=
      suffixFields rec var++entries := by
  induction entries generalizing rec with
  | nil =>
    rw [List.append_nil]
    rfl
  | cons entry rest ih =>
    have htail : setAll rec ((entry::rest).map fun entry => (var++("."++entry.1),entry.2))=
        setAll (rec.set (var++("."++entry.1)) entry.2)
          (rest.map fun entry => (var++("."++entry.1),entry.2)) := rfl
    rw [List.map_cons,List.nodup_cons] at hnodup
    have hstill : ∀ other∈rest,
        (rec.set (var++("."++entry.1)) entry.2).get (var++("."++other.1))=none := by
      intro other hother
      have hne : var++("."++other.1)≠var++("."++entry.1) := by
        intro heq
        rw [←String.append_assoc,←String.append_assoc,String.append_right_inj] at heq
        exact hnodup.1 (heq▸List.mem_map_of_mem hother)
      rw [get_set_ne hne]
      exact hnew other (List.mem_cons_of_mem _ hother)
    rw [htail,ih hnodup.2 hstill,suffixFields_set_new (hnew entry List.mem_cons_self),
      List.append_assoc,List.singleton_append]

theorem carriedFields_eq (rec : NamedRecord) (var column : String) :
    carriedFields rec var column=
      (suffixFields rec var).map fun entry => (column++("."++entry.1),entry.2) := by
  unfold carriedFields suffixFields
  rw [List.map_filterMap]
  refine List.filterMap_congr fun field _ => ?_
  cases stripPrefix (var++".") field.1 with
  | none | some rest => rfl

theorem nodup_suffixFields (hnodup : (rec.fields.map Prod.fst).Nodup) (var : String) :
    ((suffixFields rec var).map Prod.fst).Nodup := by
  have hnames : (suffixFields rec var).map Prod.fst=
      (rec.fields.map Prod.fst).filterMap (stripPrefix (var++".")) := by
    unfold suffixFields
    rw [List.map_filterMap,List.filterMap_map]
    refine List.filterMap_congr fun field _ => ?_
    cases hstrip : stripPrefix (var++".") field.1 <;> simp [hstrip]
  rw [hnames]
  refine hnodup.filterMap fun a b rest ha hb => ?_
  rw [Option.mem_def,stripPrefix_eq_some] at ha hb
  rw [ha,hb]

/-- Names of which neither is a field under the other. -/
def Apart (name other : String) : Prop :=
  other≠name ∧ stripPrefix (name++".") other=none ∧ stripPrefix (other++".") name=none

theorem dotted_start {c : List Char} (h : (name++".").toList=(other++".").toList++c) :
    other=name ∨ ∃ t,name=(other++".")++t := by
  rcases List.eq_nil_or_concat c with hnil | ⟨front,last,hlast⟩
  · rw [hnil,List.append_nil] at h
    exact Or.inl (String.append_left_inj _|>.mp (String.toList_inj.mp h)).symm
  · rw [hlast,List.concat_eq_append,←List.append_assoc,String.toList_append] at h
    have hname := (List.append_inj' h rfl).1
    refine Or.inr ⟨String.ofList front,String.toList_inj.mp ?_⟩
    rw [String.toList_append,String.toList_ofList]
    exact hname

theorem Apart.under (h : Apart name other) (rest : String) :
    other++("."++rest)≠name ∧ stripPrefix (name++".") (other++("."++rest))=none := by
  have ⟨hne,hfront,hback⟩ := h
  have hname : ∀ t,name≠(other++".")++t := fun t heq => by
    rw [stripPrefix_eq_some.mpr heq] at hback
    cases hback
  have hother : ∀ t,other≠(name++".")++t := fun t heq => by
    rw [stripPrefix_eq_some.mpr heq] at hfront
    cases hfront
  constructor
  · intro heq
    exact hname rest (by rw [String.append_assoc,heq])
  · cases hstrip : stripPrefix (name++".") (other++("."++rest)) with
    | none => rfl
    | some t =>
      have htexts := congrArg String.toList (stripPrefix_eq_some.mp hstrip)
      rw [←String.append_assoc,String.toList_append,String.toList_append (s := name++".")] at htexts
      exfalso
      rcases List.append_eq_append_iff.mp htexts with ⟨c,hc,-⟩ | ⟨c,hc,-⟩
      · rcases dotted_start hc with heq | ⟨t,heq⟩
        · exact hne heq
        · exact hname t heq
      · rcases dotted_start hc with heq | ⟨t,heq⟩
        · exact hne heq.symm
        · exact hother t heq

variable {env : EvalEnv S} {floatText : UInt64 → String} {st : Store} {keeps : NamedRecord → String → Bool}
  {value : NamedRecord → ReturnItem S → Result Value}

/-- Columns of items whose names are apart from a column are not it and not under it. -/
theorem apart_columns {others : List (ReturnItem S)}
    (hothers : ∀ other∈others,isStar other.expr=false ∧ Apart column (columnNameForItem floatText other))
    (hrun : gather (itemColumns env floatText st keeps value false rec) others=.ok columns) :
    ∀ c∈columns,c.1≠column ∧ stripPrefix (column++".") c.1=none := by
  intro c hc
  have ⟨other,hin,part,hpart,hmem⟩ := (mem_gather hrun).mp hc
  have ⟨hstar,hapart⟩ := hothers other hin
  have hsingle : ∀ {r : Result Value},
      (r.map fun v => [(columnNameForItem floatText other,v)])=.ok part →
      c.1≠column ∧ stripPrefix (column++".") c.1=none := by
    intro r hmap
    have ⟨v,_,heq⟩ := map_single_ok hmap
    rw [heq,List.mem_singleton] at hmem
    rw [hmem]
    exact ⟨hapart.1,hapart.2.1⟩
  have hcarried : ∀ {name : String},c∈carriedFields rec name (columnNameForItem floatText other) →
      c.1≠column ∧ stripPrefix (column++".") c.1=none := by
    intro name hin
    rw [carriedFields_eq] at hin
    have ⟨entry,_,heq⟩ := List.mem_map.mp hin
    rw [←heq]
    exact hapart.under entry.1
  unfold itemColumns at hpart
  cases hexpr : other.expr with
  | star =>
    rw [hexpr] at hstar
    cases hstar
  | var name =>
    rw [hexpr] at hpart
    dsimp only at hpart
    unfold variableColumns at hpart
    rw [if_neg (by simp)] at hpart
    cases hexisting : rec.get name with
    | some v =>
      rw [hexisting] at hpart
      rw [←Except.ok.inj hpart,List.mem_append,List.mem_singleton] at hmem
      rcases hmem with hmem | hmem
      · exact hcarried hmem
      · rw [hmem]
        exact ⟨hapart.1,hapart.2.1⟩
    | none =>
      rw [hexisting] at hpart
      dsimp only at hpart
      split_ifs at hpart with hempty
      · exact hsingle hpart
      · rw [←Except.ok.inj hpart] at hmem
        exact hcarried hmem
  | _ =>
    rw [hexpr] at hpart
    exact hsingle hpart

theorem carried_fields (hitems : items=earlier++item::later) (hexpr : item.expr=.var var)
    (hcolumn : columnNameForItem floatText item=column)
    (hothers : ∀ other∈earlier++later,isStar other.expr=false ∧ Apart column (columnNameForItem floatText other))
    (hnodup : (rec.fields.map Prod.fst).Nodup) (hpresent : (rec.get var).isSome=true)
    (hrun : projectRow env floatText st keeps value items false rec=.ok row) :
    row.get column=rec.get var ∧ suffixFields row column=suffixFields rec var := by
  have ⟨existing,hexisting⟩ := Option.isSome_iff_exists.mp hpresent
  unfold projectRow at hrun
  obtain ⟨columns,hall,hrun⟩ := exists_of_bind hrun
  rw [hitems] at hall
  have ⟨front,rest,hfront,hrest,hsplit⟩ := gather_append_ok hall
  have ⟨own,back,hown,hback,hsplit'⟩ := gather_cons_ok hrest
  have hfrontApart := apart_columns (fun other hin => hothers other (List.mem_append_left _ hin)) hfront
  have hbackApart := apart_columns (fun other hin => hothers other (List.mem_append_right _ hin)) hback
  have hfields : own=carriedFields rec var column++[(column,existing)] := by
    unfold itemColumns at hown
    rw [hexpr,hcolumn] at hown
    dsimp only at hown
    unfold variableColumns at hown
    rw [if_neg (by simp),hexisting] at hown
    exact (Except.ok.inj hown).symm
  have hrow : row=setAll (setAll (setAll (setAll emptyRecord front)
      (carriedFields rec var column)) [(column,existing)]) back := by
    rw [←Except.ok.inj hrun,hsplit,hsplit',hfields]
    unfold setAll
    rw [List.foldl_append,List.foldl_append,List.foldl_append]
  have hownNone : stripPrefix (column++".") column=none := by
    cases hstrip : stripPrefix (column++".") column with
    | none => rfl
    | some t =>
      rw [stripPrefix_eq_some,String.append_assoc] at hstrip
      exact absurd hstrip.symm (dotted_ne_self column t)
  have hfresh : ∀ rest,(setAll emptyRecord front).get (column++("."++rest))=none := by
    intro rest
    have hnone : lastValue (column++("."++rest)) front=none := by
      refine lastValue_eq_none fun c hc heq => ?_
      have hstrip : stripPrefix (column++".") c.1=some rest :=
        stripPrefix_eq_some.mpr (by rw [heq,String.append_assoc])
      rw [(hfrontApart c hc).2] at hstrip
      cases hstrip
    rw [get_setAll,hnone,Option.none_or]
    rfl
  have hnone : suffixFields (setAll emptyRecord front) column=[] := by
    rw [suffixFields_setAll fun c hc => (hfrontApart c hc).2]
    rfl
  constructor
  · have hlast : lastValue column back=none := lastValue_eq_none fun c hc => (hbackApart c hc).1
    rw [hrow,get_setAll,hlast,Option.none_or,get_setAll,lastValue_single,if_pos rfl,Option.some_or,
      hexisting]
  · rw [hrow,suffixFields_setAll fun c hc => (hbackApart c hc).2,
      suffixFields_setAll fun c hc => by rw [List.mem_singleton.mp hc]; exact hownNone,
      carriedFields_eq,suffixFields_setAll_new (nodup_suffixFields hnodup var) fun entry _ => hfresh entry.1,
      hnone,List.nil_append]

theorem carried_variable (hitems : items=earlier++item::later) (hexpr : item.expr=.var var)
    (hcolumn : columnNameForItem floatText item=column)
    (hothers : ∀ other∈earlier++later,isStar other.expr=false ∧ Apart column (columnNameForItem floatText other))
    (hnodup : (rec.fields.map Prod.fst).Nodup) (hpresent : (rec.get var).isSome=true)
    (hrun : projectRow env floatText st keeps value items false rec=.ok row) :
    evalVariable column row=evalVariable var rec := by
  have ⟨hself,hfields⟩ := carried_fields hitems hexpr hcolumn hothers hnodup hpresent hrun
  exact evalVariable_congr hself hfields

end Carried

section Executors

variable {env : EvalEnv S} {floatText : UInt64 → String} {st : Store} {items : List (ReturnItem S)}

/-- When a field is not taken for another value by the materialised executor: a deleted
entity, a column of an entity, or a found field that has the value. -/
def ProjectedRight (env : EvalEnv S) (floatText : UInt64 → String) (st : Store) (rec : NamedRecord)
    (item : ReturnItem S) : Prop :=
  readsDeleted rec item.expr=true ∨ (rec.get (columnNameForItem floatText item++".__id")).isSome=true ∨
    ∀ existing,foundField floatText rec item=some existing → evalExpr env st item.expr rec=.ok existing

/-- When a field is not taken for another value by the streaming executor: a field that is
named like the column has the value. -/
def StreamedRight (env : EvalEnv S) (floatText : UInt64 → String) (st : Store) (rec : NamedRecord)
    (item : ReturnItem S) : Prop :=
  ∀ existing,rec.get (columnNameForItem floatText item)=some existing →
    evalExpr env st item.expr rec=.ok existing

/-- When a slot is not taken for another value. -/
def SlotRight (env : EvalEnv S) (floatText : UInt64 → String) (st : Store) (rec : NamedRecord)
    (item : ReturnItem S) : Prop :=
  readsDeleted rec item.expr=true ∨
    ∀ existing,foundField floatText rec item=some existing → evalExpr env st item.expr rec=.ok existing

theorem projectedValue_iff (rec : NamedRecord) (item : ReturnItem S) :
    projectedValue env floatText st rec item=evalExpr env st item.expr rec ↔
      ProjectedRight env floatText st rec item := by
  rw [projectedValue_eq]
  unfold ProjectedRight
  by_cases hskip : readsDeleted rec item.expr=true ∨
      (rec.get (columnNameForItem floatText item++".__id")).isSome=true
  · rw [if_pos hskip]
    exact iff_of_true rfl (or_assoc.mp (Or.inl hskip))
  · rw [if_neg hskip,elim_eq_iff,←or_assoc,or_iff_right hskip]

theorem streamedValue_iff (rec : NamedRecord) (item : ReturnItem S) :
    streamedValue env floatText st rec item=evalExpr env st item.expr rec ↔
      StreamedRight env floatText st rec item := by
  have helim : streamedValue env floatText st rec item=
      (rec.get (columnNameForItem floatText item)).elim (evalExpr env st item.expr rec) .ok := by
    unfold streamedValue
    cases rec.get (columnNameForItem floatText item) <;> rfl
  rw [helim,elim_eq_iff]
  exact Iff.rfl

/-- Each executor puts the value of its expression into the column of an item exactly
when no other field is taken for it: not another item that writes the column, not a field
that is named like the expression or the column. In between, a variable bound to an
entity keeps its value when no other column is named under it. -/
theorem projection_computes_iff {earlier later : List (ReturnItem S)} {item : ReturnItem S}
    (hdistinct : DistinctColumns floatText items) (hitems : items=earlier++item::later)
    (hstar : isStar item.expr=false) :
    (∀ emitCompound records rows,execProject env floatText st items emitCompound records=.ok rows →
      List.Forall₂ (fun rec row =>
        ColumnHolds row (columnNameForItem floatText item) (evalExpr env st item.expr rec) ↔
          ItemRight env floatText st keepsField (ProjectedRight env floatText st rec item) emitCompound rec
            earlier item later) records rows) ∧
    (∀ emitCompound records rows,streamProject env floatText st items emitCompound records=.ok rows →
      List.Forall₂ (fun rec row =>
        ColumnHolds row (columnNameForItem floatText item) (evalExpr env st item.expr rec) ↔
          ItemRight env floatText st streamsField (StreamedRight env floatText st rec item) emitCompound
            rec earlier item later) records rows) ∧
    (∀ outSchema row out,(∀ other∈items,isStar other.expr=false) →
      columnNameForItem floatText item∈outSchema →
      nextSlot env floatText st items outSchema row=.ok out →
      (ColumnHolds out (columnNameForItem floatText item) (evalExpr env st item.expr row.view) ↔
        SlotRight env floatText st row.view item)) ∧
    (∀ var records rows,item.expr=.var var →
      (∀ other∈earlier++later,isStar other.expr=false ∧
        Apart (columnNameForItem floatText item) (columnNameForItem floatText other)) →
      execProject env floatText st items false records=.ok rows →
      List.Forall₂ (fun rec row => (rec.fields.map Prod.fst).Nodup → (rec.get var).isSome=true →
        evalVariable (columnNameForItem floatText item) row=evalVariable var rec) records rows) := by
  refine ⟨fun emitCompound records rows hrun => ?_,fun emitCompound records rows hrun => ?_,
    fun outSchema row out hstars hslot hrun => nextSlot_iff hdistinct hitems hstars hslot hrun,
    fun var records rows hexpr hothers hrun => ?_⟩
  · exact (forall₂_of_gather hrun).imp fun rec row hrow =>
      projectRow_iff hdistinct hitems hstar (projectedValue_iff rec item) hrow
  · exact (forall₂_of_gather hrun).imp fun rec row hrow =>
      projectRow_iff hdistinct hitems hstar (streamedValue_iff rec item) hrow
  · exact (forall₂_of_gather hrun).imp fun rec row hrow hnodup hpresent =>
      carried_variable hitems hexpr rfl hothers hnodup hpresent hrow

end Executors

/-- The constant true, under a name. -/
def namedTrue : ReturnItem Empty := ⟨.literal (.bool true),some "t"⟩

/-- The named constant on an empty row. -/
theorem projection_computes_constant :
    ColumnHolds ⟨[("t",.bool true)]⟩ "t"
        (evalExpr IndexAccess.plainEval freshStore namedTrue.expr emptyRecord) ↔
      ItemRight IndexAccess.plainEval (fun _ => "") freshStore keepsField
        (ProjectedRight IndexAccess.plainEval (fun _ => "") freshStore emptyRecord namedTrue) true
        emptyRecord [] namedTrue [] := by
  have hdistinct : DistinctColumns (fun _ => "") [namedTrue] := by
    unfold DistinctColumns
    decide
  have hall := (@projection_computes_iff Empty IndexAccess.plainEval (fun _ => "") freshStore [namedTrue]
    [] [] namedTrue hdistinct rfl rfl).1 true [emptyRecord] [⟨[("t",.bool true)]⟩] rfl
  exact (List.forall₂_cons.mp hall).1

/-- The constant true. -/
def plainTrue : ReturnItem Empty := ⟨.literal (.bool true),none⟩

/-- A row with a column that is named like the constant. -/
def trueNamedRow : NamedRecord := ⟨[("true",.i64 5)]⟩

/-- A column that WITH names like a constant is returned for the constant by every
executor. -/
theorem projection_takes_named_column :
    execProject IndexAccess.plainEval (fun _ => "") freshStore [plainTrue] true [trueNamedRow]=
        .ok [trueNamedRow] ∧
      streamProject IndexAccess.plainEval (fun _ => "") freshStore [plainTrue] true [trueNamedRow]=
        .ok [trueNamedRow] ∧
      nextSlot IndexAccess.plainEval (fun _ => "") freshStore [plainTrue] ["true"]
        ⟨["true"],[.i64 5],rfl⟩=.ok trueNamedRow ∧
      ¬ColumnHolds trueNamedRow "true"
        (evalExpr IndexAccess.plainEval freshStore plainTrue.expr trueNamedRow) := by
  have hget : trueNamedRow.get "true"=some (.i64 5) := rfl
  refine ⟨rfl,rfl,rfl,?_⟩
  rw [columnHolds_iff_of_get hget]
  intro h
  exact absurd (Except.ok.inj h) (by simp [literalToValue])

end GraphDbLite.Projection
