import GraphDbLite.CallEvaluation
import GraphDbLite.Projection

/-!
# Aggregation

An item list with aggregate calls is split into group keys and aggregates. The
aggregates of each group are written into one row, each under the name of its item or
the text of its call, and the items are projected from that row: a call is looked up
under its printed form without its duplicate mark, then under its text. Items get
their own values when every call stands where the splitting looks, and no other column
of the row has a name under which a call is looked up.
-/

namespace GraphDbLite.Aggregation

open ByteStrings GraphTypes GraphStore WriteOperators CypherSyntax CypherValues CypherEval
open QueryPlan QueryExecutor FallibleLists ColumnNames Projection CallEvaluation

/-- What aggregation takes from the rest of the library. -/
structure AggregateEnv (S : Type) where
  /-- Evaluation of the other expressions. -/
  eval : EvalEnv S
  /-- Printed form of a number in floating point. -/
  floatText : UInt64 → String
  /-- Functions of the outcomes of their arguments; variables are looked up by name. -/
  scalar : Store → String → List (Expr S) → List (Result Value) → NamedRecord → Result Value
  /-- Sums, averages, percentiles and deviations of values, the percentiles with their
  second argument. -/
  numeric : AggregateFunction → Option Value → Result (List Value) → Result Value
  /-- Order of values for sorting. -/
  compareForSort : Value → Value → Ordering
  /-- Equality of expressions as syntax trees. -/
  sameExpr : Expr S → Expr S → Bool

/-- Aggregate functions by name, in lower case. -/
def aggregateTable : List (String×AggregateFunction) :=
  [("count",.count),("sum",.sum),("avg",.avg),("min",.min),("max",.max),("collect",.collect),
    ("percentiledisc",.percentileDisc),("percentilecont",.percentileCont),("stdev",.stDev),
    ("stdevp",.stDevP)]

/-- The aggregate function of a name. -/
def parseAggName (name : String) : Option AggregateFunction :=
  (aggregateTable.find? fun entry => entry.1=asciiLower name).map Prod.snd

/-- Whether a name is that of an aggregate function. -/
def isAggregateName (name : String) : Bool := asciiLower name∈aggregateNames

/-- Default name of an aggregate function. -/
def aggFnName : AggregateFunction → String
  | .count => "count"
  | .sum => "sum"
  | .avg => "avg"
  | .min => "min"
  | .max => "max"
  | .collect => "collect"
  | .percentileDisc => "percentileDisc"
  | .percentileCont => "percentileCont"
  | .stDev => "stDev"
  | .stDevP => "stDevP"

section Planning

variable {S : Type}

mutual

/-- Whether the planner finds an aggregate call in an expression. -/
def isAggregateFn : Expr S → Bool
  | .functionCall name args _ _ => if isAggregateName name=true then true else anyAggregateFn args
  | .binaryOp left _ right => isAggregateFn left || isAggregateFn right
  | .not inner => isAggregateFn inner
  | .isNull inner => isAggregateFn inner
  | .isNotNull inner => isAggregateFn inner
  | .mapLiteral pairs => anyNamedAggregateFn pairs
  | .list items => anyAggregateFn items
  | .listComprehension _ listExpr _ _ => isAggregateFn listExpr
  | .quantifier _ _ listExpr _ => isAggregateFn listExpr
  | _ => false
termination_by structural expr => expr

def anyAggregateFn : List (Expr S) → Bool
  | [] => false
  | expr::rest => isAggregateFn expr || anyAggregateFn rest
termination_by structural exprs => exprs

def anyNamedAggregateFn : List (String×Expr S) → Bool
  | [] => false
  | entry::rest => entryAggregateFn entry || anyNamedAggregateFn rest
termination_by structural entries => entries

def entryAggregateFn : String×Expr S → Bool
  | (_,expr) => isAggregateFn expr
termination_by structural entry => entry

end

mutual

/-- Whether the planner finds a call that gives another value each time. -/
def containsNondeterministicFn : Expr S → Bool
  | .functionCall name args _ _ => if asciiLower name = "rand" then true else anyNondeterministicFn args
  | .binaryOp left _ right => containsNondeterministicFn left || containsNondeterministicFn right
  | .not inner => containsNondeterministicFn inner
  | .isNull inner => containsNondeterministicFn inner
  | .isNotNull inner => containsNondeterministicFn inner
  | _ => false
termination_by structural expr => expr

def anyNondeterministicFn : List (Expr S) → Bool
  | [] => false
  | expr::rest => containsNondeterministicFn expr || anyNondeterministicFn rest
termination_by structural exprs => exprs

end

/-- The aggregate of a call, under the name of its item. -/
def callAggregate (function : AggregateFunction) (columnAlias : Option String) (name : String)
    (args : List (Expr S)) (distinct : Bool) (originalText : Option String) : AggregateExpr S :=
  ⟨function,args.head?.getD .star,columnAlias,distinct,args[1]?,name,originalText⟩

mutual

/-- Aggregate calls that the planner takes out of an expression. -/
def nestedAggregates : Expr S → List (AggregateExpr S)
  | .functionCall name args distinct originalText =>
    match parseAggName name with
    | some function => [callAggregate function none name args distinct originalText]
    | none => nestedInAll args
  | .binaryOp left _ right => nestedAggregates left++nestedAggregates right
  | .not inner => nestedAggregates inner
  | .isNull inner => nestedAggregates inner
  | .isNotNull inner => nestedAggregates inner
  | .mapLiteral pairs => nestedInNamed pairs
  | .list items => nestedInAll items
  | .listComprehension _ listExpr _ _ => nestedAggregates listExpr
  | .quantifier _ _ listExpr _ => nestedAggregates listExpr
  | _ => []
termination_by structural expr => expr

def nestedInAll : List (Expr S) → List (AggregateExpr S)
  | [] => []
  | expr::rest => nestedAggregates expr++nestedInAll rest
termination_by structural exprs => exprs

def nestedInNamed : List (String×Expr S) → List (AggregateExpr S)
  | [] => []
  | entry::rest => nestedInEntry entry++nestedInNamed rest
termination_by structural entries => entries

def nestedInEntry : String×Expr S → List (AggregateExpr S)
  | (_,expr) => nestedAggregates expr
termination_by structural entry => entry

end

mutual

/-- Parts of a mixed expression that are neither constant nor aggregated. -/
def nonAggregateLeaves : Expr S → List (Expr S)
  | .functionCall name args _ _ => if (parseAggName name).isSome=true then [] else leavesOfAll args
  | .binaryOp left _ right => nonAggregateLeaves left++nonAggregateLeaves right
  | .not inner => nonAggregateLeaves inner
  | .isNull inner => nonAggregateLeaves inner
  | .isNotNull inner => nonAggregateLeaves inner
  | .literal _ => []
  | .parameter _ => []
  | .star => []
  | .mapLiteral pairs => leavesOfNamed pairs
  | .list items => leavesOfAll items
  | .listComprehension _ listExpr _ _ => nonAggregateLeaves listExpr
  | .quantifier _ _ listExpr _ => nonAggregateLeaves listExpr
  | .property var prop => [.property var prop]
  | .var name => [.var name]
  | .case operand alternatives default => [.case operand alternatives default]
  | .patternComprehension pathVar pattern whereClause mapExpr =>
    [.patternComprehension pathVar pattern whereClause mapExpr]
  | .exists patterns whereClause => [.exists patterns whereClause]
  | .existsSubquery stmt => [.existsSubquery stmt]
  | .index expr index => [.index expr index]
  | .dotAccess expr key => [.dotAccess expr key]
  | .slice expr start stop => [.slice expr start stop]
  | .hasLabel var labels => [.hasLabel var labels]
  | .patternPredicate pattern => [.patternPredicate pattern]
termination_by structural expr => expr

def leavesOfAll : List (Expr S) → List (Expr S)
  | [] => []
  | expr::rest => nonAggregateLeaves expr++leavesOfAll rest
termination_by structural exprs => exprs

def leavesOfNamed : List (String×Expr S) → List (Expr S)
  | [] => []
  | entry::rest => leavesOfEntry entry++leavesOfNamed rest
termination_by structural entries => entries

def leavesOfEntry : String×Expr S → List (Expr S)
  | (_,expr) => nonAggregateLeaves expr
termination_by structural entry => entry

end

/-- Whether an expression is one aggregate call. -/
def isPureAggregate : Expr S → Bool
  | .functionCall name _ _ _ => (parseAggName name).isSome
  | _ => false

/-- Group keys, aggregates and mixed expressions found so far. -/
structure SplitState (S : Type) where
  /-- Expressions that are grouped by. -/
  groupKeys : List (Expr S)
  /-- Aggregates in the order of the items. -/
  aggregates : List (AggregateExpr S)
  /-- Expressions with aggregate calls inside. -/
  mixed : List (Expr S)

/-- Split an item that is not one aggregate call. -/
def splitOther (s : SplitState S) (item : ReturnItem S) : SplitState S :=
  let aggregates := s.aggregates++nestedAggregates item.expr
  if isAggregateFn item.expr=false then ⟨s.groupKeys++[item.expr],aggregates,s.mixed⟩
  else if isPureAggregate item.expr=false then ⟨s.groupKeys,aggregates,s.mixed++[item.expr]⟩
  else ⟨s.groupKeys,aggregates,s.mixed⟩

/-- Split an item that is one aggregate call. -/
def splitCall (s : SplitState S) (columnAlias : Option String) (function : AggregateFunction) (name : String)
    (args : List (Expr S)) (distinct : Bool) (originalText : Option String) : Result (SplitState S) :=
  if anyAggregateFn args=true then
    .error (.query .syntaxError .parse .other "Can not use an aggregation in an aggregation")
  else if anyNondeterministicFn args=true then
    .error (.query .typeError .semanticAnalysis .nonConstantExpression
      "non-deterministic function inside aggregate")
  else
    .ok {s with
      aggregates := s.aggregates++[callAggregate function columnAlias name args distinct originalText]}

/-- Split one item. -/
def splitItem (s : SplitState S) (item : ReturnItem S) : Result (SplitState S) :=
  match item.expr with
  | .functionCall name args distinct originalText =>
    match parseAggName name with
    | some function => splitCall s item.columnAlias function name args distinct originalText
    | none => .ok (splitOther s item)
  | _ => .ok (splitOther s item)

/-- Split all items in order. -/
def splitItems (s : SplitState S) : List (ReturnItem S) → Result (SplitState S)
  | [] => .ok s
  | item::rest =>
    match splitItem s item with
    | .error e => .error e
    | .ok s' => splitItems s' rest

variable (env : AggregateEnv S)

/-- Whether every part of the mixed expressions is grouped by. -/
def mixedGrouped (s : SplitState S) : Bool :=
  s.mixed.all fun expr => (nonAggregateLeaves expr).all fun leaf => s.groupKeys.any fun key =>
    env.sameExpr key leaf

/-- Split an item list into group keys and aggregates. -/
def splitAggregates (items : List (ReturnItem S)) : Result (List (Expr S)×List (AggregateExpr S)) :=
  match splitItems ⟨[],[],[]⟩ items with
  | .error e => .error e
  | .ok s =>
    if mixedGrouped env s=true then .ok (s.groupKeys,s.aggregates)
    else .error (.query .syntaxError .parse .ambiguousAggregationExpression
      "expression mixes aggregate and non-aggregate sub-expressions")

/-- The aggregation of an item list, if the planner finds an aggregate call. -/
def planAggregation (items : List (ReturnItem S)) :
    Result (Option (List (Expr S)×List (AggregateExpr S))) :=
  if (items.any fun item => isAggregateFn item.expr)=true then (splitAggregates env items).map some
  else .ok none

end Planning

section Execution

variable {S : Type} (env : AggregateEnv S) (st : Store)

/-- The column that a row has for an aggregate call. -/
def aggregateField (rec : NamedRecord) (name : String) (args : List (Expr S)) (originalText : Option String) :
    Option Value :=
  (rec.get (exprToColumnName env.floatText (.functionCall name args false none))).or (originalText.bind rec.get)

/-- Function call: an aggregate call is looked up in the row and null without a column. -/
def evalCall : CallMeaning S := fun name args _ originalText results rec =>
  if isAggregateName name=true then .ok ((aggregateField env rec name args originalText).getD .null)
  else env.scalar st name args results rec

/-- Value of an expression. -/
def evalItem : Expr S → Cell := evalWith env.eval st (evalCall env st)

/-- Rows with a new value of the input that is not null. -/
def dropDuplicates (input : Cell) (seen : List Value) : Rows → Result Rows
  | [] => .ok []
  | rec::rest => do
    let val ← input rec
    if val.isNull=true ∨ (seen.any fun old => valueEq old val)=true then dropDuplicates input seen rest
    else
      let kept ← dropDuplicates input (seen++[val]) rest
      pure (rec::kept)

/-- Values of the input on all rows. -/
def inputValues (input : Cell) (rows : Rows) : Result (List Value) :=
  gather (fun rec => (input rec).map fun v => [v]) rows

/-- Whether an outcome counts: it is not null. -/
def counts : Result Value → Bool
  | .ok val => !val.isNull
  | .error _ => true

/-- The better of two values under a test; a new value must be strictly better. -/
def pick (better : Value → Value → Bool) (best : Option Value) (val : Value) : Option Value :=
  match best with
  | none => some val
  | some old => if better val old=true then some val else some old

/-- The aggregate of some rows. -/
def computeAggregate (agg : AggregateExpr S) (rows : Rows) : Result Value := do
  let input := evalItem env st agg.input
  let kept ← (if agg.distinct=true ∧ isStar agg.input=false then dropDuplicates input [] rows else .ok rows)
  match agg.function with
  | .count =>
    if isStar agg.input=true then .ok (.i64 (Int64.ofNat kept.length))
    else .ok (.i64 (Int64.ofNat (kept.countP fun rec => counts (input rec))))
  | .min => do
    let values ← inputValues input kept
    .ok (((values.filter fun v => !v.isNull).foldl
      (pick fun val old => env.compareForSort val old == .lt) none).getD .null)
  | .max => do
    let values ← inputValues input kept
    .ok (((values.filter fun v => !v.isNull).foldl
      (pick fun val old => env.compareForSort old val == .lt) none).getD .null)
  | .collect => do
    let values ← inputValues input kept
    .ok (.list (values.filter fun v => !v.isNull))
  | .percentileDisc => do
    let second ← evalBound (agg.extraArg.map (evalItem env st)) (kept.head?.getD emptyRecord)
    env.numeric .percentileDisc second (inputValues input kept)
  | .percentileCont => do
    let second ← evalBound (agg.extraArg.map (evalItem env st)) (kept.head?.getD emptyRecord)
    env.numeric .percentileCont second (inputValues input kept)
  | function => env.numeric function none (inputValues input kept)

/-- Column of an aggregate. -/
def aggColName (agg : AggregateExpr S) : String :=
  agg.columnAlias.getD (agg.originalCallText.getD (exprToColumnName env.floatText
    (.functionCall (if agg.originalName = "" then aggFnName agg.function else agg.originalName) [agg.input]
      agg.distinct none)))

/-- Values of the group keys on a row, null for a failure. -/
def keyValues (groupKeys : List (Expr S)) (rec : NamedRecord) : List Value :=
  groupKeys.map fun key =>
    match evalItem env st key rec with
    | .ok val => val
    | .error _ => .null

/-- Groups in the order of their first rows. -/
abbrev Groups := List (List Value×Rows)

/-- Add a row to its group. -/
def addToGroup (vals : List Value) (rec : NamedRecord) : Groups → Groups
  | [] => [(vals,[rec])]
  | group::rest =>
    if listEq group.1 vals=true then (group.1,group.2++[rec])::rest else group::addToGroup vals rec rest

/-- The groups of some rows; without group keys all rows are one group. -/
def groupsOf (groupKeys : List (Expr S)) (records : Rows) : Groups :=
  if groupKeys.isEmpty=true then [([],records)]
  else records.foldl (fun groups rec => addToGroup (keyValues env st groupKeys rec) rec groups) []

/-- Columns of one group key: its value and the fields under a variable. -/
def keyColumns (key : Expr S) (val : Value) (rows : Rows) : List (String×Value) :=
  (exprToColumnName env.floatText key,val)::
    match key,rows with
    | .var var,first::_ => first.fields.filter fun field => (stripPrefix (var++".") field.1).isSome
    | _,_ => []

/-- Columns of the aggregates of a group. -/
def aggregateColumns (aggregates : List (AggregateExpr S)) (rows : Rows) : Result (List (String×Value)) :=
  gather (fun agg => (computeAggregate env st agg rows).map fun v => [(aggColName env agg,v)]) aggregates

/-- The row of a group. -/
def groupRow (groupKeys : List (Expr S)) (aggregates : List (AggregateExpr S)) (group : List Value×Rows) :
    Result NamedRecord :=
  (aggregateColumns env st aggregates group.2).map fun columns =>
    setAll emptyRecord ((groupKeys.zip group.1).flatMap (fun key => keyColumns env key.1 key.2 group.2)++
      columns)

/-- Group rows and aggregate each group. -/
def aggregateNamedRecords (records : Rows) (groupKeys : List (Expr S)) (aggregates : List (AggregateExpr S)) :
    Result Rows :=
  gather (fun group => (groupRow env st groupKeys aggregates group).map fun row => [row])
    (groupsOf env st groupKeys records)

/-- Value of an item on the row of a group, found or evaluated. -/
def producedValue (eval : Expr S → Cell) (rec : NamedRecord) (item : ReturnItem S) : Result Value :=
  let column := columnNameForItem env.floatText item
  let exprColumn := exprToColumnName env.floatText item.expr
  if readsDeleted rec item.expr=true ∨ (rec.get (column++".__id")).isSome=true then eval item.expr rec
  else
    match rec.get exprColumn with
    | some existing => .ok existing
    | none =>
      if column=exprColumn then eval item.expr rec
      else
        match rec.get column with
        | some existing =>
          if isAggregateCall item.expr=true then .ok existing else eval item.expr rec
        | none => eval item.expr rec

/-- Columns that an item produces. -/
def producedColumns (emitCompound : Bool) (rec : NamedRecord) (item : ReturnItem S) :
    Result (List (String×Value)) :=
  itemColumns env.eval env.floatText st keepsField (producedValue env (evalItem env st)) emitCompound rec item

/-- With the evaluator of the library, an item has the value that the projection gives it. -/
theorem producedValue_library (env : AggregateEnv S) (st : Store) (rec : NamedRecord) (item : ReturnItem S) :
    producedValue env (evalExpr env.eval st) rec item=projectedValue env.eval env.floatText st rec item := rfl

end Execution

section Extraction

variable {S : Type}

theorem parseAggName_isSome (name : String) : (parseAggName name).isSome=isAggregateName name := by
  have hnames : aggregateNames=aggregateTable.map Prod.fst := rfl
  unfold parseAggName isAggregateName
  rw [Option.isSome_map,hnames,Bool.eq_iff_iff,List.find?_isSome,decide_eq_true_eq,List.mem_map]
  constructor
  · intro h
    have ⟨entry,hentry,hname⟩ := h
    exact ⟨entry,hentry,of_decide_eq_true hname⟩
  · intro h
    have ⟨entry,hentry,hname⟩ := h
    exact ⟨entry,hentry,decide_eq_true hname⟩

mutual

/-- An expression whose aggregate calls are visible has none when the planner finds none. -/
theorem unmentioned_of_visible {own : String → List (Expr S) → Bool → Option String → Prop} :
    ∀ expr : Expr S,Visible isAggregateName own expr → isAggregateFn expr=false →
      mentionsCall isAggregateName expr=false
  | .functionCall name args _ _,hvisible,hnone => by
    simp only [Visible] at hvisible
    simp only [isAggregateFn] at hnone
    split_ifs at hnone with hname
    have hfalse : isAggregateName name=false := by simpa using hname
    simp only [mentionsCall,hfalse,Bool.false_or,unmentioned_of_visibleAll args (hvisible.2 hfalse) hnone]
  | .binaryOp left _ right,hvisible,hnone => by
    simp only [Visible] at hvisible
    simp only [isAggregateFn,Bool.or_eq_false_iff] at hnone
    simp only [mentionsCall,unmentioned_of_visible left hvisible.1 hnone.1,
      unmentioned_of_visible right hvisible.2 hnone.2,Bool.or_false]
  | .not inner,hvisible,hnone | .isNull inner,hvisible,hnone | .isNotNull inner,hvisible,hnone => by
    simp only [Visible] at hvisible
    simp only [isAggregateFn] at hnone
    simp only [mentionsCall,unmentioned_of_visible inner hvisible hnone]
  | .mapLiteral pairs,hvisible,hnone => by
    simp only [Visible] at hvisible
    simp only [isAggregateFn] at hnone
    simp only [mentionsCall,unmentioned_of_visibleNamed pairs hvisible hnone]
  | .list items,hvisible,hnone => by
    simp only [Visible] at hvisible
    simp only [isAggregateFn] at hnone
    simp only [mentionsCall,unmentioned_of_visibleAll items hvisible hnone]
  | .listComprehension _ listExpr _ _,hvisible,hnone => by
    simp only [Visible] at hvisible
    simp only [isAggregateFn] at hnone
    simp only [mentionsCall,unmentioned_of_visible listExpr hvisible.1 hnone,hvisible.2.1,hvisible.2.2,
      Bool.or_false]
  | .quantifier _ _ listExpr _,hvisible,hnone => by
    simp only [Visible] at hvisible
    simp only [isAggregateFn] at hnone
    simp only [mentionsCall,unmentioned_of_visible listExpr hvisible.1 hnone,hvisible.2,Bool.or_false]
  | .case _ _ _,hvisible,_ | .index _ _,hvisible,_ | .dotAccess _ _,hvisible,_ | .slice _ _ _,hvisible,_
  | .patternComprehension _ _ _ _,hvisible,_ | .exists _ _,hvisible,_ | .patternPredicate _,hvisible,_ => hvisible
  | .existsSubquery _,_,_ | .literal _,_,_ | .property _ _,_,_ | .var _,_,_ | .parameter _,_,_
  | .hasLabel _ _,_,_ | .star,_,_ => rfl

theorem unmentioned_of_visibleAll {own : String → List (Expr S) → Bool → Option String → Prop} :
    ∀ exprs : List (Expr S),VisibleAll isAggregateName own exprs → anyAggregateFn exprs=false →
      mentionsCalls isAggregateName exprs=false
  | [],_,_ => rfl
  | expr::rest,hvisible,hnone => by
    simp only [VisibleAll] at hvisible
    simp only [anyAggregateFn,Bool.or_eq_false_iff] at hnone
    simp only [mentionsCalls,unmentioned_of_visible expr hvisible.1 hnone.1,
      unmentioned_of_visibleAll rest hvisible.2 hnone.2,Bool.or_false]

theorem unmentioned_of_visibleNamed {own : String → List (Expr S) → Bool → Option String → Prop} :
    ∀ entries : List (String×Expr S),VisibleNamed isAggregateName own entries →
      anyNamedAggregateFn entries=false → namedMentionCall isAggregateName entries=false
  | [],_,_ => rfl
  | entry::rest,hvisible,hnone => by
    simp only [VisibleNamed] at hvisible
    simp only [anyNamedAggregateFn,Bool.or_eq_false_iff] at hnone
    simp only [namedMentionCall,unmentioned_of_visibleEntry entry hvisible.1 hnone.1,
      unmentioned_of_visibleNamed rest hvisible.2 hnone.2,Bool.or_false]

theorem unmentioned_of_visibleEntry {own : String → List (Expr S) → Bool → Option String → Prop} :
    ∀ entry : String×Expr S,VisibleEntry isAggregateName own entry → entryAggregateFn entry=false →
      entryMentionsCall isAggregateName entry=false
  | (_,expr),hvisible,hnone => by
    simp only [VisibleEntry] at hvisible
    simp only [entryAggregateFn] at hnone
    simp only [entryMentionsCall,unmentioned_of_visible expr hvisible hnone]

end

/-- The aggregate of a call without a name is among the planned ones. -/
def Planned (aggregates : List (AggregateExpr S)) (name : String) (args : List (Expr S)) (distinct : Bool)
    (originalText : Option String) : Prop :=
  ∃ function,parseAggName name=some function ∧
    callAggregate function none name args distinct originalText∈aggregates

section Visible

variable {aggregates : List (AggregateExpr S)} {own : String → List (Expr S) → Bool → Option String → Prop}

mutual

theorem planned_of_visible : ∀ expr : Expr S,Visible isAggregateName own expr →
    (∀ agg∈nestedAggregates expr,agg∈aggregates) →
      Visible isAggregateName (fun name args distinct originalText =>
        own name args distinct originalText ∧ Planned aggregates name args distinct originalText) expr
  | .functionCall name args distinct originalText,hvisible,hin => by
    simp only [Visible] at hvisible ⊢
    simp only [nestedAggregates] at hin
    have hparse := parseAggName_isSome name
    constructor
    · intro hname
      rw [hname,Option.isSome_iff_exists] at hparse
      have ⟨function,hfunction⟩ := hparse
      rw [hfunction] at hin
      exact ⟨hvisible.1 hname,function,hfunction,hin _ List.mem_cons_self⟩
    · intro hname
      rw [hname,Option.isSome_eq_false_iff,Option.isNone_iff_eq_none] at hparse
      rw [hparse] at hin
      exact planned_of_visibleAll args (hvisible.2 hname) hin
  | .binaryOp left _ right,hvisible,hin => by
    simp only [Visible] at hvisible ⊢
    simp only [nestedAggregates,List.forall_mem_append] at hin
    exact ⟨planned_of_visible left hvisible.1 hin.1,planned_of_visible right hvisible.2 hin.2⟩
  | .not inner,hvisible,hin | .isNull inner,hvisible,hin | .isNotNull inner,hvisible,hin => by
    simp only [Visible] at hvisible ⊢
    simp only [nestedAggregates] at hin
    exact planned_of_visible inner hvisible hin
  | .mapLiteral pairs,hvisible,hin => by
    simp only [Visible] at hvisible ⊢
    simp only [nestedAggregates] at hin
    exact planned_of_visibleNamed pairs hvisible hin
  | .list items,hvisible,hin => by
    simp only [Visible] at hvisible ⊢
    simp only [nestedAggregates] at hin
    exact planned_of_visibleAll items hvisible hin
  | .listComprehension _ listExpr _ _,hvisible,hin | .quantifier _ _ listExpr _,hvisible,hin => by
    simp only [Visible] at hvisible ⊢
    simp only [nestedAggregates] at hin
    exact ⟨planned_of_visible listExpr hvisible.1 hin,hvisible.2⟩
  | .case _ _ _,hvisible,_ | .index _ _,hvisible,_ | .dotAccess _ _,hvisible,_ | .slice _ _ _,hvisible,_
  | .patternComprehension _ _ _ _,hvisible,_ | .exists _ _,hvisible,_ | .patternPredicate _,hvisible,_ => hvisible
  | .existsSubquery _,_,_ | .literal _,_,_ | .property _ _,_,_ | .var _,_,_ | .parameter _,_,_
  | .hasLabel _ _,_,_ | .star,_,_ => trivial

theorem planned_of_visibleAll : ∀ exprs : List (Expr S),VisibleAll isAggregateName own exprs →
    (∀ agg∈nestedInAll exprs,agg∈aggregates) →
      VisibleAll isAggregateName (fun name args distinct originalText =>
        own name args distinct originalText ∧ Planned aggregates name args distinct originalText) exprs
  | [],_,_ => trivial
  | expr::rest,hvisible,hin => by
    simp only [VisibleAll] at hvisible ⊢
    simp only [nestedInAll,List.forall_mem_append] at hin
    exact ⟨planned_of_visible expr hvisible.1 hin.1,planned_of_visibleAll rest hvisible.2 hin.2⟩

theorem planned_of_visibleNamed : ∀ entries : List (String×Expr S),VisibleNamed isAggregateName own entries →
    (∀ agg∈nestedInNamed entries,agg∈aggregates) →
      VisibleNamed isAggregateName (fun name args distinct originalText =>
        own name args distinct originalText ∧ Planned aggregates name args distinct originalText) entries
  | [],_,_ => trivial
  | entry::rest,hvisible,hin => by
    simp only [VisibleNamed] at hvisible ⊢
    simp only [nestedInNamed,List.forall_mem_append] at hin
    exact ⟨planned_of_visibleEntry entry hvisible.1 hin.1,planned_of_visibleNamed rest hvisible.2 hin.2⟩

theorem planned_of_visibleEntry : ∀ entry : String×Expr S,VisibleEntry isAggregateName own entry →
    (∀ agg∈nestedInEntry entry,agg∈aggregates) →
      VisibleEntry isAggregateName (fun name args distinct originalText =>
        own name args distinct originalText ∧ Planned aggregates name args distinct originalText) entry
  | (_,expr),hvisible,hin => by
    simp only [VisibleEntry] at hvisible ⊢
    simp only [nestedInEntry] at hin
    exact planned_of_visible expr hvisible hin

end

end Visible

end Extraction

section Rows

variable {S : Type} (env : AggregateEnv S)

/-- Two aggregates with the same function, arguments and duplicate mark. -/
structure SameAggregate (a b : AggregateExpr S) : Prop where
  /-- The function. -/
  function : a.function=b.function
  /-- The aggregated expression. -/
  input : a.input=b.input
  /-- Whether duplicates are dropped. -/
  distinct : a.distinct=b.distinct
  /-- The second argument. -/
  extraArg : a.extraArg=b.extraArg

/-- An aggregate computes a call. -/
def Computes (agg : AggregateExpr S) (name : String) (args : List (Expr S)) (distinct : Bool) : Prop :=
  ∀ function,parseAggName name=some function →
    SameAggregate agg (callAggregate function none name args distinct none)

/-- Whether a name is that of a column of the group keys: the name of a key, or a dotted name
under a variable that is grouped by. -/
def isKeyColumn (groupKeys : List (Expr S)) (column : String) : Bool :=
  groupKeys.any fun key => decide (exprToColumnName env.floatText key=column) ||
    match key with
    | .var var => (stripPrefix (var++".") column).isSome
    | _ => false

/-- The printed form under which a call is looked up. -/
def printedCall (name : String) (args : List (Expr S)) : String :=
  exprToColumnName env.floatText (.functionCall name args false none)

/-- The columns under which a call is looked up are its own. -/
structure LooksUpOwn (groupKeys : List (Expr S)) (aggregates : List (AggregateExpr S)) (name : String)
    (args : List (Expr S)) (distinct : Bool) (originalText : Option String) : Prop where
  /-- The call has its text. -/
  written : originalText.isSome=true
  /-- No group key has the printed form as a column. -/
  keys : isKeyColumn env groupKeys (printedCall env name args)=false
  /-- Aggregates with the printed form as a column compute the call. -/
  printed : ∀ agg∈aggregates,aggColName env agg=printedCall env name args → Computes agg name args distinct
  /-- Aggregates with the text as a column compute the call. -/
  text : ∀ agg∈aggregates,originalText=some (aggColName env agg) → Computes agg name args distinct

/-- The columns that are taken for an item that is one aggregate call are its own. -/
structure CallApart (groupKeys : List (Expr S)) (aggregates : List (AggregateExpr S)) (item : ReturnItem S)
    (name : String) (args : List (Expr S)) (distinct : Bool) (originalText : Option String) : Prop where
  /-- The call has its text. -/
  written : originalText.isSome=true
  /-- No group key has an entity under the column of the item. -/
  entity : isKeyColumn env groupKeys (columnNameForItem env.floatText item++".__id")=false
  /-- No aggregate has a column that looks like an entity under the column of the item. -/
  entityColumn : ∀ agg∈aggregates,aggColName env agg≠columnNameForItem env.floatText item++".__id"
  /-- No group key has the text of the call as a column. -/
  keys : isKeyColumn env groupKeys (exprToColumnName env.floatText item.expr)=false
  /-- Aggregates with the text of the call or the column of the item compute the call. -/
  named : ∀ agg∈aggregates,aggColName env agg=exprToColumnName env.floatText item.expr ∨
    aggColName env agg=columnNameForItem env.floatText item → Computes agg name args distinct

/-- No column is taken for an item with aggregate calls inside, and these have their own. -/
structure MixedApart (groupKeys : List (Expr S)) (aggregates : List (AggregateExpr S)) (item : ReturnItem S) :
    Prop where
  /-- No group key has the printed item as a column. -/
  keys : isKeyColumn env groupKeys (exprToColumnName env.floatText item.expr)=false
  /-- No aggregate has the printed item as a column. -/
  unused : ∀ agg∈aggregates,aggColName env agg≠exprToColumnName env.floatText item.expr
  /-- All calls are visible and looked up under their own columns. -/
  visible : Visible isAggregateName (LooksUpOwn env groupKeys aggregates) item.expr

/-- An item is not given the column of anything else. -/
structure ItemApart (groupKeys : List (Expr S)) (aggregates : List (AggregateExpr S)) (item : ReturnItem S) :
    Prop where
  /-- As an aggregate call. -/
  call : ∀ name args distinct originalText,item.expr=.functionCall name args distinct originalText →
    isAggregateName name=true → CallApart env groupKeys aggregates item name args distinct originalText
  /-- As an expression with calls inside. -/
  mixed : isAggregateCall item.expr=false → MixedApart env groupKeys aggregates item

/-- Meaning of calls that gives an aggregate call its own value over the rows of a group. -/
def ownCall (st : Store) (rows : Rows) : CallMeaning S := fun name args distinct originalText results rec =>
  match parseAggName name with
  | some function => computeAggregate env st (callAggregate function none name args distinct originalText) rows
  | none => env.scalar st name args results rec

variable {env} {st : Store} {aggregates : List (AggregateExpr S)} {groupKeys : List (Expr S)} {rows : Rows}

/-- The value of an aggregate depends on its function, arguments and duplicate mark. -/
theorem computeAggregate_same {a b : AggregateExpr S} (h : SameAggregate a b) :
    computeAggregate env st a rows=computeAggregate env st b rows := by
  unfold computeAggregate
  rw [h.function,h.input,h.distinct,h.extraArg]

variable {name : String} {args : List (Expr S)} {distinct : Bool}

theorem Computes.value {agg : AggregateExpr S} (h : Computes agg name args distinct)
    {function : AggregateFunction} (hfunction : parseAggName name=some function)
    (columnAlias originalText : Option String) : computeAggregate env st agg rows= computeAggregate env st
    (callAggregate function columnAlias name args distinct originalText) rows := by
  have hsame := h function hfunction
  exact computeAggregate_same ⟨hsame.function,hsame.input,hsame.distinct,hsame.extraArg⟩

variable {column : String} {group : List Value×Rows} {row : NamedRecord}

/-- What the aggregates write under a name, when all that have it compute the same. -/
theorem lastValue_aggregateColumns {value : Result Value} {columns : List (String×Value)}
    (h : ∀ agg∈aggregates,aggColName env agg=column → computeAggregate env st agg rows=value)
    (hrun : aggregateColumns env st aggregates rows=.ok columns) : lastValue column columns=none ∧
    (∀ agg∈aggregates,aggColName env agg≠column) ∨ ∃ v,value=.ok v ∧ lastValue column columns=some v := by
  unfold aggregateColumns at hrun
  induction aggregates generalizing columns with
  | nil =>
    rw [←Except.ok.inj hrun]
    exact Or.inl ⟨rfl,fun agg hagg => absurd hagg List.not_mem_nil⟩
  | cons agg rest ih =>
    have ⟨front,back,hfront,hback,hsplit⟩ := gather_cons_ok hrun
    have ⟨v,hv,heq⟩ := map_single_ok hfront
    have hrest := ih (fun other hother => h other (List.mem_cons_of_mem _ hother)) hback
    rw [hsplit,lastValue_append,heq,lastValue_single]
    rcases hrest with ⟨hnone,hother⟩ | ⟨w,hw,hlast⟩
    · rw [hnone,Option.none_or]
      by_cases hname : aggColName env agg=column
      · rw [if_pos hname]
        exact Or.inr ⟨v,(h agg List.mem_cons_self hname).symm.trans hv,rfl⟩
      · rw [if_neg hname]
        refine Or.inl ⟨rfl,fun other hin => ?_⟩
        rcases List.mem_cons.mp hin with hfirst | hlater
        · rw [hfirst]
          exact hname
        · exact hother other hlater
    · rw [hlast]
      exact Or.inr ⟨w,hw,rfl⟩

theorem isKeyColumn_of_mem {key : Expr S} (hkey : key∈groupKeys) {val : Value} {column : String×Value}
    (h : column∈keyColumns env key val rows) : isKeyColumn env groupKeys column.1=true := by
  rw [isKeyColumn,List.any_eq_true]
  refine ⟨key,hkey,?_⟩
  unfold keyColumns at h
  rcases List.mem_cons.mp h with hself | hfields
  · rw [hself]
    simp
  · cases key with
    | var var =>
      cases rows with
      | nil => exact absurd hfields List.not_mem_nil
      | cons first rest =>
        have hprefix := (List.mem_filter.mp hfields).2
        rw [Bool.or_eq_true]
        exact Or.inr hprefix
    | _ => exact absurd hfields List.not_mem_nil

section OneGroup

variable (h : groupRow env st groupKeys aggregates group=.ok row)

include h

/-- The row of a group holds what its aggregates write last, else a column of a group key. -/
theorem get_groupRow :
    ∃ columns,aggregateColumns env st aggregates group.2=.ok columns ∧
    ∀ column, (∀ v,lastValue column columns=some v → row.get column=some v) ∧
    (isKeyColumn env groupKeys column=false → row.get column=lastValue column columns) := by
  unfold groupRow at h
  cases hcolumns : aggregateColumns env st aggregates group.2 with
  | error e =>
    rw [hcolumns] at h
    cases h
  | ok columns =>
    rw [hcolumns] at h
    refine ⟨columns,rfl,fun column => ⟨fun v hlast => ?_,fun hkey => ?_⟩⟩
    · rw [←Except.ok.inj h,get_setAll,lastValue_append,hlast]
      rfl
    · have hempty : emptyRecord.get column=none := rfl
      have hnone : lastValue column
          ((groupKeys.zip group.1).flatMap fun key => keyColumns env key.1 key.2 group.2)=none := by
        refine lastValue_eq_none fun entry hentry heq => ?_
        have ⟨key,hin,hmem⟩ := List.mem_flatMap.mp hentry
        have hcolumn := isKeyColumn_of_mem (List.of_mem_zip hin).1 hmem
        rw [heq,hkey] at hcolumn
        cases hcolumn
      rw [←Except.ok.inj h,get_setAll,lastValue_append,hnone,Option.or_none,hempty,Option.or_none]

/-- A name that aggregates have, all with one value, holds that value in the row. -/
theorem groupRow_named {value : Result Value}
    (hnamed : ∃ agg∈aggregates,aggColName env agg=column)
    (hvalue : ∀ agg∈aggregates,aggColName env agg=column → computeAggregate env st agg group.2=value) :
    ∃ v,value=.ok v ∧ row.get column=some v := by
  have ⟨columns,hcolumns,hget⟩ := get_groupRow h
  rcases lastValue_aggregateColumns hvalue hcolumns with ⟨-,hother⟩ | ⟨v,hv,hlast⟩
  · have ⟨agg,hagg,hname⟩ := hnamed
    exact absurd hname (hother agg hagg)
  · exact ⟨v,hv,(hget column).1 v hlast⟩

theorem groupRow_unnamed
    (hkey : isKeyColumn env groupKeys column=false) (hnone : ∀ agg∈aggregates,aggColName env agg≠column) :
    row.get column=none := by
  have ⟨columns,hcolumns,hget⟩ := get_groupRow h
  rw [(hget column).2 hkey]
  unfold aggregateColumns at hcolumns
  refine lastValue_eq_none fun entry hentry heq => ?_
  have ⟨agg,hagg,part,hpart,hmem⟩ := (mem_gather hcolumns).mp hentry
  have ⟨v,_,hsingle⟩ := map_single_ok hpart
  rw [hsingle,List.mem_singleton] at hmem
  rw [hmem] at heq
  exact hnone agg hagg heq

theorem evalCall_own {originalText : Option String}
    (hown : LooksUpOwn env groupKeys aggregates name args distinct originalText)
    (hplanned : Planned aggregates name args distinct originalText) (hname : isAggregateName name=true)
    (results others : List (Result Value)) : evalCall env st name args distinct originalText results row= ownCall
    env st group.2 name args distinct originalText others row := by
  have ⟨function,hfunction,hin⟩ := hplanned
  have ⟨text,htext⟩ := Option.isSome_iff_exists.mp hown.written
  have hvalue : ownCall env st group.2 name args distinct originalText others row=
      computeAggregate env st (callAggregate function none name args distinct originalText) group.2 := by
    unfold ownCall
    rw [hfunction]
  have hfound : ∃ v,computeAggregate env st (callAggregate function none name args distinct originalText)
      group.2=.ok v ∧ aggregateField env row name args originalText=some v := by
    unfold aggregateField
    by_cases hprinted : ∃ agg∈aggregates,aggColName env agg=printedCall env name args
    · have ⟨v,hv,hget⟩ := groupRow_named h hprinted fun agg hagg hcolumn =>
        (hown.printed agg hagg hcolumn).value hfunction none originalText
      refine ⟨v,hv,?_⟩
      unfold printedCall at hget
      rw [hget]
      rfl
    · have hnone : row.get (printedCall env name args)=none :=
        groupRow_unnamed h hown.keys fun agg hagg hcolumn => hprinted ⟨agg,hagg,hcolumn⟩
      have hcolumn : aggColName env (callAggregate function none name args distinct originalText)=text := by
        unfold aggColName callAggregate
        rw [htext]
        rfl
      have ⟨v,hv,hget⟩ := groupRow_named h ⟨_,hin,hcolumn⟩ fun agg hagg hname =>
        (hown.text agg hagg (by rw [htext,hname])).value hfunction none originalText
      refine ⟨v,hv,?_⟩
      unfold printedCall at hnone
      rw [hnone,htext,Option.none_or]
      exact hget
  have ⟨v,hv,hfield⟩ := hfound
  rw [hvalue,hv]
  unfold evalCall
  rw [if_pos hname,hfield]
  rfl

end OneGroup

end Rows

section Splitting

variable {S : Type}

/-- Aggregates of one item. -/
def itemAggregates (item : ReturnItem S) : List (AggregateExpr S) :=
  match item.expr with
  | .functionCall name args distinct originalText =>
    match parseAggName name with
    | some function => [callAggregate function item.columnAlias name args distinct originalText]
    | none => nestedAggregates item.expr
  | _ => nestedAggregates item.expr

theorem splitOther_aggregates (s : SplitState S) (item : ReturnItem S) :
    (splitOther s item).aggregates=s.aggregates++nestedAggregates item.expr := by
  unfold splitOther
  dsimp only
  split_ifs <;> rfl

variable {s s' : SplitState S} {items : List (ReturnItem S)}

theorem splitItem_aggregates {item : ReturnItem S} (h : splitItem s item=.ok s') :
    s'.aggregates=s.aggregates++itemAggregates item := by
  have hother : (Except.ok (splitOther s item) : Result (SplitState S))=.ok s' →
      s'.aggregates=s.aggregates++nestedAggregates item.expr := by
    intro hok
    rw [←Except.ok.inj hok,splitOther_aggregates]
  unfold splitItem at h
  unfold itemAggregates
  cases hexpr : item.expr with
  | functionCall name args distinct originalText =>
    rw [hexpr] at h
    dsimp only at h ⊢
    cases hparse : parseAggName name with
    | none =>
      rw [hparse] at h
      rw [←hexpr]
      exact hother h
    | some function =>
      rw [hparse] at h
      dsimp only at h ⊢
      unfold splitCall at h
      split_ifs at h
      rw [←Except.ok.inj h]
  | _ =>
    rw [hexpr] at h
    have hsame := hother h
    rw [hexpr] at hsame
    exact hsame

theorem splitItems_aggregates (h : splitItems s items=.ok s') :
    s'.aggregates=s.aggregates++items.flatMap itemAggregates := by
  induction items generalizing s with
  | nil =>
    rw [←Except.ok.inj h]
    simp
  | cons item rest ih =>
    rw [splitItems] at h
    cases hitem : splitItem s item with
    | error e =>
      rw [hitem] at h
      cases h
    | ok next =>
      rw [hitem] at h
      rw [ih h,splitItem_aggregates hitem,List.flatMap_cons,List.append_assoc]

theorem splitAggregates_aggregates {env : AggregateEnv S} {groupKeys : List (Expr S)}
    {aggregates : List (AggregateExpr S)} (h : splitAggregates env items=.ok (groupKeys,aggregates)) :
    aggregates=items.flatMap itemAggregates := by
  unfold splitAggregates at h
  cases hsplit : splitItems ⟨[],[],[]⟩ items with
  | error e =>
    rw [hsplit] at h
    cases h
  | ok s =>
    rw [hsplit] at h
    dsimp only at h
    split_ifs at h
    have hpair := Prod.mk.inj (Except.ok.inj h)
    rw [←hpair.2,splitItems_aggregates hsplit,List.nil_append]

end Splitting

section Produced

variable {S : Type} {env : AggregateEnv S} {st : Store} {items : List (ReturnItem S)}
  {aggregates : List (AggregateExpr S)} {groupKeys : List (Expr S)} {group : List Value×Rows}
  {row : NamedRecord} {item : ReturnItem S}

theorem producedColumns_eq (hstar : isStar item.expr=false) (hvar : asVariable item.expr=none)
    (emitCompound : Bool) : producedColumns env st emitCompound row item=
      (producedValue env (evalItem env st) row item).map fun v =>
        [(columnNameForItem env.floatText item,v)] := by
  unfold producedColumns itemColumns
  cases hexpr : item.expr with
  | star =>
    rw [hexpr] at hstar
    cases hstar
  | var name =>
    rw [hexpr] at hvar
    cases hvar
  | _ => rfl

theorem producedValue_call {name : String} {args : List (Expr S)} {distinct : Bool}
    {originalText : Option String} (hsplit : splitAggregates env items=.ok (groupKeys,aggregates))
    (hrow : groupRow env st groupKeys aggregates group=.ok row) (hitem : item∈items)
    (hexpr : item.expr=.functionCall name args distinct originalText) (hname : isAggregateName name=true)
    (hapart : CallApart env groupKeys aggregates item name args distinct originalText) :
    producedValue env (evalItem env st) row item=
      evalWith env.eval st (ownCall env st group.2) item.expr row := by
  have hparse := parseAggName_isSome name
  rw [hname,Option.isSome_iff_exists] at hparse
  have ⟨function,hfunction⟩ := hparse
  have ⟨text,htext⟩ := Option.isSome_iff_exists.mp hapart.written
  have hin : callAggregate function item.columnAlias name args distinct originalText∈aggregates := by
    rw [splitAggregates_aggregates hsplit]
    refine List.mem_flatMap.mpr ⟨item,hitem,?_⟩
    unfold itemAggregates
    rw [hexpr]
    dsimp only
    rw [hfunction]
    exact List.mem_cons_self
  have hprinted : exprToColumnName env.floatText item.expr=text := by
    rw [hexpr,htext]
    rfl
  have hcolumn : aggColName env (callAggregate function item.columnAlias name args distinct originalText)=
      columnNameForItem env.floatText item := by
    unfold aggColName columnNameForItem callAggregate
    rw [hprinted,htext]
    rfl
  have hvalue : evalWith env.eval st (ownCall env st group.2) item.expr row=
      computeAggregate env st (callAggregate function none name args distinct originalText) group.2 := by
    rw [hexpr]
    simp only [evalWith,ownCall,hfunction]
  have hcomputes : ∀ column,(∀ agg,aggColName env agg=column →
      aggColName env agg=exprToColumnName env.floatText item.expr ∨
        aggColName env agg=columnNameForItem env.floatText item) →
      ∀ agg∈aggregates,aggColName env agg=column → computeAggregate env st agg group.2=
        computeAggregate env st (callAggregate function none name args distinct originalText) group.2 :=
    fun column hnames agg hagg hagree =>
      (hapart.named agg hagg (hnames agg hagree)).value hfunction none originalText
  have hentity : row.get (columnNameForItem env.floatText item++".__id")=none :=
    groupRow_unnamed hrow hapart.entity hapart.entityColumn
  have hdeleted : readsDeleted row item.expr=false := by
    rw [hexpr]
    rfl
  have hcall : isAggregateCall item.expr=true := by
    rw [hexpr]
    exact hname
  rw [hvalue]
  unfold producedValue
  dsimp only
  rw [hdeleted,hentity,if_neg (by simp)]
  by_cases hfound : ∃ agg∈aggregates,aggColName env agg=exprToColumnName env.floatText item.expr
  · have ⟨v,hv,hget⟩ := groupRow_named hrow hfound (hcomputes _ fun agg heq => Or.inl heq)
    rw [hget,hv]
  · have hnone : row.get (exprToColumnName env.floatText item.expr)=none :=
      groupRow_unnamed hrow hapart.keys fun agg hagg heq => hfound ⟨agg,hagg,heq⟩
    have ⟨v,hv,hget⟩ := groupRow_named hrow ⟨_,hin,hcolumn⟩ (hcomputes _ fun agg heq => Or.inr heq)
    have hne : columnNameForItem env.floatText item≠exprToColumnName env.floatText item.expr := by
      intro hsame
      rw [hsame,hnone] at hget
      cases hget
    rw [hnone]
    dsimp only
    rw [if_neg hne,hget]
    dsimp only
    rw [if_pos hcall,hv]

/-- An item with aggregate calls inside is evaluated with the own values of the calls. -/
theorem producedValue_mixed (hsplit : splitAggregates env items=.ok (groupKeys,aggregates))
    (hrow : groupRow env st groupKeys aggregates group=.ok row) (hitem : item∈items)
    (hcall : isAggregateCall item.expr=false) (hdeleted : readsDeleted row item.expr=false)
    (hapart : MixedApart env groupKeys aggregates item) :
    producedValue env (evalItem env st) row item=
      evalWith env.eval st (ownCall env st group.2) item.expr row := by
  have hnested : ∀ agg∈nestedAggregates item.expr,agg∈aggregates := by
    intro agg hagg
    rw [splitAggregates_aggregates hsplit]
    refine List.mem_flatMap.mpr ⟨item,hitem,?_⟩
    unfold itemAggregates
    cases hexpr : item.expr with
    | functionCall name args distinct originalText =>
      rw [hexpr] at hagg hcall
      have hparse := parseAggName_isSome name
      have hname : isAggregateName name=false := hcall
      rw [hname,Option.isSome_eq_false_iff,Option.isNone_iff_eq_none] at hparse
      dsimp only
      rw [hparse]
      exact hagg
    | _ =>
      rw [hexpr] at hagg
      exact hagg
  have hvisible := planned_of_visible item.expr hapart.visible hnested
  have hscalar : ∀ name,isAggregateName name=false → evalCall env st name=ownCall env st group.2 name := by
    intro name hname
    have hparse := parseAggName_isSome name
    rw [hname,Option.isSome_eq_false_iff,Option.isNone_iff_eq_none] at hparse
    funext args distinct originalText results rec
    unfold evalCall ownCall
    rw [if_neg (by simp [hname]),hparse]
  have heval : evalItem env st item.expr row=
      evalWith env.eval st (ownCall env st group.2) item.expr row :=
    evalWith_visible hscalar (fun name args distinct originalText results others hname hown =>
      evalCall_own hrow hown.1 hown.2 hname results others) item.expr hvisible
  have hnone : row.get (exprToColumnName env.floatText item.expr)=none :=
    groupRow_unnamed hrow hapart.keys hapart.unused
  unfold producedValue
  dsimp only
  rw [hdeleted,hnone,hcall,heval]
  by_cases hentity : false=true ∨ (row.get (columnNameForItem env.floatText item++".__id")).isSome=true
  · rw [if_pos hentity]
  · rw [if_neg hentity]
    dsimp only
    by_cases hsame : columnNameForItem env.floatText item=exprToColumnName env.floatText item.expr
    · rw [if_pos hsame]
    · rw [if_neg hsame]
      cases row.get (columnNameForItem env.floatText item) with
      | none => rfl
      | some existing =>
        dsimp only
        rw [if_neg (by simp)]

end Produced

section Items

variable {S : Type}

/-- Aggregates are found, and the columns of their items hold their own values in every group. -/
def AggregatesOwn (env : AggregateEnv S) (st : Store) (items : List (ReturnItem S)) (records : Rows) : Prop :=
  ∀ plan,planAggregation env items=.ok plan →
    (plan=none → ∀ item∈items,mentionsCall isAggregateName item.expr=false) ∧
    ∀ groupKeys aggregates,plan=some (groupKeys,aggregates) →
      ∀ rows,aggregateNamedRecords env st records groupKeys aggregates=.ok rows →
        List.Forall₂ (fun group row => ∀ item∈items,mentionsCall isAggregateName item.expr=true →
          ∀ emitCompound,producedColumns env st emitCompound row item=
            (evalWith env.eval st (ownCall env st group.2) item.expr row).map fun v =>
              [(columnNameForItem env.floatText item,v)]) (groupsOf env st groupKeys records) rows

/-- All aggregate calls of the items stand where the planner looks, and no column of a group
is taken for another value. -/
structure AggregatesApart (env : AggregateEnv S) (items : List (ReturnItem S)) : Prop where
  /-- The calls are visible. -/
  visible : ∀ item∈items,Visible isAggregateName (fun _ _ _ _ => True) item.expr
  /-- The columns are apart. -/
  columns : ∀ groupKeys aggregates,splitAggregates env items=.ok (groupKeys,aggregates) →
    ∀ item∈items,mentionsCall isAggregateName item.expr=true → ItemApart env groupKeys aggregates item

/-- An expression with a call is neither a star nor a variable nor a property. -/
theorem shape_of_mentions {special : String → Bool} {expr : Expr S} (h : mentionsCall special expr=true) :
    isStar expr=false ∧ asVariable expr=none ∧ ∀ row,readsDeleted row expr=false := by
  cases expr with
  | star | var name | property var prop => cases h
  | _ => exact ⟨rfl,rfl,fun _ => rfl⟩

variable {env : AggregateEnv S} {items : List (ReturnItem S)}

theorem splitAggregates_of_plan {parts : List (Expr S)×List (AggregateExpr S)}
    (h : planAggregation env items=.ok (some parts)) : splitAggregates env items=.ok parts := by
  unfold planAggregation at h
  split_ifs at h
  · cases hsplit : splitAggregates env items with
    | error e =>
      rw [hsplit] at h
      cases h
    | ok found =>
      rw [hsplit] at h
      rw [Option.some.inj (Except.ok.inj h)]
  · exact absurd (Except.ok.inj h) (by simp)

theorem isAggregateFn_of_plan (h : planAggregation env items=.ok none) {item : ReturnItem S}
    (hitem : item∈items) : isAggregateFn item.expr=false := by
  unfold planAggregation at h
  split_ifs at h with hany
  · obtain ⟨found,hsplit,h⟩ := exists_of_bind h
    exact absurd (Except.ok.inj h) (by simp)
  · by_contra hfn
    exact hany (List.any_eq_true.mpr ⟨item,hitem,by simpa using hfn⟩)

/-- When the aggregate calls are visible and the columns apart, every item gets the values
of its own calls, in every group of any rows. -/
theorem aggregates_own {env : AggregateEnv S} {items : List (ReturnItem S)} (h : AggregatesApart env items)
    (st : Store) (records : Rows) : AggregatesOwn env st items records := by
  intro plan hplan
  constructor
  · intro hnone item hitem
    rw [hnone] at hplan
    exact unmentioned_of_visible item.expr (h.visible item hitem) (isAggregateFn_of_plan hplan hitem)
  · intro groupKeys aggregates hsome rows hrun
    rw [hsome] at hplan
    have hsplit := splitAggregates_of_plan hplan
    unfold aggregateNamedRecords at hrun
    refine (forall₂_of_gather hrun).imp fun group row hrow item hitem hmentions emitCompound => ?_
    have hapart := h.columns groupKeys aggregates hsplit item hitem hmentions
    have ⟨hstar,hvar,hdeleted⟩ := shape_of_mentions hmentions
    rw [producedColumns_eq hstar hvar]
    cases hcall : isAggregateCall item.expr with
    | false => rw [producedValue_mixed hsplit hrow hitem hcall (hdeleted row) (hapart.mixed hcall)]
    | true =>
      cases hexpr : item.expr with
      | functionCall name args distinct originalText =>
        rw [hexpr] at hcall
        rw [producedValue_call hsplit hrow hitem hexpr hcall (hapart.call _ _ _ _ hexpr hcall),hexpr]
      | _ =>
        rw [hexpr] at hcall
        cases hcall

end Items

/-- Aggregation without scalar functions and arithmetic. -/
def plainAggregates : AggregateEnv Empty where
  eval := IndexAccess.plainEval
  floatText _ := ""
  scalar _ _ _ _ _ := .ok .null
  numeric _ _ _ := .ok .null
  compareForSort _ _ := .eq
  sameExpr _ _ := false

/-- `count(n.x)` as written. -/
def countCall : Expr Empty := .functionCall "count" [.property "n" "x"] false (some "count(n.x)")

/-- `count(DISTINCT n.x)` as written. -/
def distinctCall : Expr Empty :=
  .functionCall "count" [.property "n" "x"] true (some "count(DISTINCT n.x)")

/-- Two rows with the same value. -/
def equalRows : Rows := [⟨[("n.x",.i64 7)]⟩,⟨[("n.x",.i64 7)]⟩]

/-- `RETURN count(n.x) AS c, count(n.x) = 2 AS both`. -/
def countItems : List (ReturnItem Empty) :=
  [⟨countCall,some "c"⟩,⟨.binaryOp countCall .eq (.literal (.i64 2)),some "both"⟩]

/-- Both items get the number of values. -/
theorem aggregates_own_count : AggregatesOwn plainAggregates freshStore countItems equalRows := by
  have hsplit : splitAggregates plainAggregates countItems=
      .ok ([],[callAggregate .count (some "c") "count" [.property "n" "x"] false (some "count(n.x)"),
        callAggregate .count none "count" [.property "n" "x"] false (some "count(n.x)")]) := rfl
  have hcall : ∀ {own : String → List (Expr Empty) → Bool → Option String → Prop},
      own "count" [.property "n" "x"] false (some "count(n.x)") → Visible isAggregateName own countCall := by
    intro own h
    simp only [countCall,Visible]
    exact ⟨fun _ => h,fun hfalse => absurd hfalse (by decide)⟩
  apply aggregates_own
  constructor
  case visible =>
    intro item hitem
    simp only [countItems,List.mem_cons,List.not_mem_nil,or_false] at hitem
    rcases hitem with heq | heq
    · rw [heq]
      exact hcall trivial
    · rw [heq]
      simp only [Visible]
      exact ⟨hcall trivial,trivial⟩
  case columns =>
    intro groupKeys aggregates hparts item hitem _
    rw [hsplit] at hparts
    have ⟨hkeys,haggregates⟩ := Prod.mk.inj (Except.ok.inj hparts)
    have hcomputes : ∀ agg∈aggregates,Computes agg "count" [.property "n" "x"] false := by
      intro agg hagg function hfunction
      have hcount : function=.count := (Option.some.inj hfunction).symm
      rw [←haggregates] at hagg
      simp only [List.mem_cons,List.not_mem_nil,or_false] at hagg
      rcases hagg with heq | heq
      · rw [heq,hcount]
        exact ⟨rfl,rfl,rfl,rfl⟩
      · rw [heq,hcount]
        exact ⟨rfl,rfl,rfl,rfl⟩
    have hnames : ∀ agg∈aggregates,aggColName plainAggregates agg="c" ∨
        aggColName plainAggregates agg="count(n.x)" := by
      intro agg hagg
      rw [←haggregates] at hagg
      simp only [List.mem_cons,List.not_mem_nil,or_false] at hagg
      rcases hagg with heq | heq
      · rw [heq]
        exact Or.inl rfl
      · rw [heq]
        exact Or.inr rfl
    have hfree : ∀ column,isKeyColumn plainAggregates groupKeys column=false := by
      intro column
      rw [←hkeys]
      rfl
    simp only [countItems,List.mem_cons,List.not_mem_nil,or_false] at hitem
    rcases hitem with heq | heq
    · constructor
      case call =>
        intro name args distinct originalText hexpr _
        rw [heq] at hexpr
        simp only [countCall,Expr.functionCall.injEq] at hexpr
        have ⟨hname,hargs,hdistinct,htext⟩ := hexpr
        rw [←hname,←hargs,←hdistinct,←htext]
        refine ⟨rfl,hfree _,fun agg hagg hcolumn => ?_,hfree _,fun agg hagg _ => hcomputes agg hagg⟩
        rw [heq] at hcolumn
        rcases hnames agg hagg with hc | hc
        · rw [hc] at hcolumn
          exact absurd hcolumn (by decide)
        · rw [hc] at hcolumn
          exact absurd hcolumn (by decide)
      case mixed =>
        intro hfalse
        rw [heq] at hfalse
        exact absurd hfalse (by decide)
    · constructor
      case call =>
        intro name args distinct originalText hexpr _
        rw [heq] at hexpr
        cases hexpr
      case mixed =>
        intro _
        rw [heq]
        refine ⟨hfree _,fun agg hagg hcolumn => ?_,?_⟩
        · rcases hnames agg hagg with hc | hc
          · rw [hc] at hcolumn
            exact absurd hcolumn (by decide)
          · rw [hc] at hcolumn
            exact absurd hcolumn (by decide)
        · simp only [Visible]
          exact ⟨hcall ⟨rfl,hfree _,fun agg hagg _ => hcomputes agg hagg,fun agg hagg _ => hcomputes agg hagg⟩,
            trivial⟩

/-- `RETURN count(n.x), count(DISTINCT n.x) = 1 AS single`. -/
def distinctItems : List (ReturnItem Empty) :=
  [⟨countCall,none⟩,⟨.binaryOp distinctCall .eq (.literal (.i64 1)),some "single"⟩]

/-- `RETURN CASE WHEN count(n.x) = 2 THEN true END AS both`. -/
def caseItems : List (ReturnItem Empty) :=
  [⟨.case none [(.binaryOp countCall .eq (.literal (.i64 2)),.literal (.bool true))] none,some "both"⟩]

/-- The number of different values is looked up as the number of values, and an aggregate
call inside CASE is not found. -/
theorem aggregates_take_other_value :
    ¬AggregatesOwn plainAggregates freshStore distinctItems equalRows ∧
      ¬AggregatesOwn plainAggregates freshStore caseItems equalRows := by
  constructor
  · intro h
    have hrows : aggregateNamedRecords plainAggregates freshStore equalRows []
        [callAggregate .count none "count" [.property "n" "x"] false (some "count(n.x)"),
          callAggregate .count none "count" [.property "n" "x"] true (some "count(DISTINCT n.x)")]=
        .ok [⟨[("count(n.x)",.i64 2),("count(DISTINCT n.x)",.i64 1)]⟩] := rfl
    have hgroups := (h (some _) rfl).2 _ _ rfl _ hrows
    have hsingle := (List.forall₂_cons.mp hgroups).1 _ (List.mem_cons_of_mem _ List.mem_cons_self) rfl true
    have hbool : (Except.ok [("single",Value.bool false)] : Result (List (String×Value)))=
        .ok [("single",.bool true)] := hsingle
    exact absurd (Except.ok.inj hbool) (by simp)
  · intro h
    have hmissed := (h none rfl).1 rfl _ List.mem_cons_self
    exact absurd hmissed (by decide)

end GraphDbLite.Aggregation
