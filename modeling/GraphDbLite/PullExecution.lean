import GraphDbLite.ErrorReporting
import GraphDbLite.PullStreams

/-!
# The pull-based executor

A plan that only reads is run by iterators on iterators: filters, projections, expansions and
bounds hand on one row at a time, `DISTINCT` and sorts collect their input when they are
built. The rows are those of running the operators one after the other on whole tables
whenever that succeeds. A `LIMIT` is also reached where that fails, on the rows before the
failure.
-/

namespace GraphDbLite.PullExecution

open GraphTypes GraphStore CypherSyntax CypherEval WriteOperators FallibleLists QueryPlan
open QueryExecutor Projection Aggregation RowIdentity ErrorReporting PullStreams

variable {S : Type}

/-- Operators that the executor has iterators for, on the rows of a scan. -/
inductive PullOp (S : Type) where
  | filter (predicate : Expr S)
  | project (items : List (ReturnItem S)) (emitCompound : Bool)
  | expand (spec : ExpandSpec S)
  | skip (count : UInt64)
  | limit (count : UInt64)
  | distinct
  | sort (items : List (SortItem S))

section Operators

variable (env : QueryEnv S) (agg : AggregateEnv S) (st : Store)

/-- The iterator of an operator; a projection hands out one row for each, and an expansion is not
capped. -/
@[grind] def iterOf : PullOp S → Stage GraphError NamedRecord
  | .filter predicate => .filter (evalPredicate agg.eval st predicate)
  | .project items emitCompound => .expand fun rec => (projectRow agg.eval agg.floatText st streamsField
      (streamedValue agg.eval agg.floatText st) items emitCompound rec).map fun row => [row]
  | .expand spec => .expand (expandRecord env st spec none)
  | .skip count => .skip count.toNat
  | .limit count => .limit count.toNat
  | .distinct => .block fun records => .ok (execDistinct records)
  | .sort items => .block (execSort agg st items)

/-- Build the iterators of operators on rows and collect what they hand out. -/
@[grind] def pullRows (ops : List (PullOp S)) (records : Rows) : Result Rows :=
  pulled (ops.map (iterOf env agg st)) records

/-- An operator on whole tables. -/
@[grind] def execOp : PullOp S → Rows → Result Rows
  | .filter predicate,records => execFilter agg st predicate records
  | .project items emitCompound,records =>
    streamProject agg.eval agg.floatText st items emitCompound records
  | .expand spec,records => expandRecords env st {spec with resultCap := none} records []
  | .skip count,records => .ok (records.drop count.toNat)
  | .limit count,records => .ok (records.take count.toNat)
  | .distinct,records => .ok (execDistinct records)
  | .sort items,records => execSort agg st items records

/-- Operators on whole tables, one after the other. -/
@[grind] def execOps : List (PullOp S) → Rows → Result Rows
  | [],records => .ok records
  | op::rest,records => execOp env agg st op records >>= execOps rest

variable {env agg st} {ops : List (PullOp S)} {records out : Rows}

theorem expandRecord_uncapped (spec : ExpandSpec S) (rec : NamedRecord) :
    expandRecord env st {spec with resultCap := none} none rec=expandRecord env st spec none rec := rfl

/-- An expansion without a cap collects the expansions of the rows. -/
theorem expandRecords_uncapped (spec : ExpandSpec S) (records done : Rows) :
    expandRecords env st {spec with resultCap := none} records done=
      (gather (expandRecord env st spec none) records).map (done++·) := by
  induction records generalizing done with
  | nil => exact congrArg Except.ok (List.append_nil done).symm
  | cons rec rest ih =>
    rw [expandRecords,gather]
    dsimp only
    rw [expandRecord_uncapped]
    cases expandRecord env st spec none rec with
    | error e => rfl
    | ok more =>
      dsimp only [bind,Except.bind]
      rw [ih]
      cases gather (expandRecord env st spec none) rest with
      | error e => rfl
      | ok back => exact congrArg Except.ok (List.append_assoc done more back)

/-- Operators on whole tables are a batch of the stages of their iterators. -/
theorem batch_iterOf (ops : List (PullOp S)) (records : Rows) :
    batch (ops.map (iterOf env agg st)) records=execOps env agg st ops records := by
  induction ops generalizing records with
  | nil => rfl
  | cons op rest ih =>
    have hrest : batch (rest.map (iterOf env agg st))=execOps env agg st rest := funext ih
    rw [List.map_cons,execOps,←hrest]
    cases op with
    | expand spec =>
      rw [execOp,expandRecords_uncapped]
      dsimp only [iterOf]
      rw [batch]
      cases gather (expandRecord env st spec none) records with
      | error e | ok back => rfl
    | filter predicate | project items emitCompound | skip count | limit count | distinct | sort items => rfl

/-- Whether an operator is not a bound from above. -/
@[grind] def PullOp.unbounded : PullOp S → Bool
  | .limit _ => false
  | _ => true

/-- Whether an operator hands on rows one at a time. -/
@[grind] def PullOp.flows : PullOp S → Bool
  | .distinct => false
  | .sort _ => false
  | _ => true

theorem iterOf_unbounded (op : PullOp S) : (iterOf env agg st op).unbounded=op.unbounded := by
  cases op with
  | filter | project | expand | skip | limit | distinct | sort => rfl

theorem iterOf_flows (op : PullOp S) : (iterOf env agg st op).flows=op.flows := by
  cases op with
  | filter | project | expand | skip | limit | distinct | sort => rfl

/-- A `LIMIT` on operators that hand on rows is reached on the first rows of the input, whatever
the operators make of the rows after them. -/
theorem limit_stops {front : Rows} {count : UInt64} (hflows : ∀ op∈ops,op.flows=true)
    (hfront : execOps env agg st ops front=.ok out) (hcount : count.toNat≤out.length) (back : Rows) :
    pullRows env agg st (ops++[.limit count]) (front++back)=.ok (out.take count.toNat) := by
  rw [←batch_iterOf] at hfront
  rw [pullRows,pulled_eq,List.map_append]
  have hstages : ∀ stage∈ops.map (iterOf env agg st),stage.flows=true := by
    intro stage hin
    have ⟨op,hop,hstage⟩ := List.mem_map.mp hin
    rw [←hstage,iterOf_flows]
    exact hflows op hop
  have hacts := acts_lazy (t := (front++back,none)) hstages (List.prefix_append front back) hfront hcount
  exact congrArg (· >>= Trace.collect) hacts

end Operators

/-- A row whose field is false or a number. -/
def fieldRow (value : Value) : NamedRecord := ⟨[("x",value)]⟩

/-- Rows whose field is not true. -/
def deniedField : PullOp Empty := .filter (.not (.var "x"))

/-- A `LIMIT` does not reach the row that a filter fails on. -/
theorem limit_stops_denied :
    pullRows IndexAccess.plainEnv plainAggregates freshStore [deniedField,.limit 1]
      [fieldRow (.bool false),fieldRow (.i64 1)]=.ok [fieldRow (.bool false)] := by
  have hfront : execOps IndexAccess.plainEnv plainAggregates freshStore [deniedField] [fieldRow (.bool false)]=
    .ok [fieldRow (.bool false)] := rfl
  have hflows : ∀ op∈[deniedField],op.flows=true := by
    intro op hop
    rw [List.mem_singleton.mp hop]
    rfl
  have hcount : (1 : UInt64).toNat≤[fieldRow (.bool false)].length := Nat.le_refl 1
  exact limit_stops hflows hfront hcount [fieldRow (.i64 1)]

end GraphDbLite.PullExecution
