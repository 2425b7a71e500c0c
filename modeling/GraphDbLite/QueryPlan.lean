import GraphDbLite.CypherEval
import GraphDbLite.Traversal

/-!
# Logical plans

A plan is a tree of operators. Leaves read nodes; expansions follow relationships;
filters and joins combine rows. Operators that turn the rows of their input into
other rows, and operators without an input that write, are listed with the data
they carry; what they compute comes from outside.
-/

namespace GraphDbLite.QueryPlan

open EdgeStorage WriteOperators CypherSyntax

/-- Text predicates that a full-text lookup answers. -/
inductive FullTextOp where
  | contains
  | startsWith
  | endsWith
  deriving DecidableEq

/-- Key of an index lookup: a literal, or a parameter resolved at run time. -/
inductive LookupKey where
  | literal (l : LiteralValue)
  | param (name : String)
  deriving DecidableEq

/-- Column of a projection. -/
structure ReturnItem (S : Type) where
  /-- Projected expression. -/
  expr : Expr S
  /-- Name of the column, if one is given. -/
  columnAlias : Option String

/-- Sort column. -/
structure SortItem (S : Type) where
  /-- Sort expression. -/
  expr : Expr S
  /-- Whether the order is descending. -/
  descending : Bool

/-- Aggregate functions. -/
inductive AggregateFunction where
  | count
  | sum
  | avg
  | min
  | max
  | collect
  | percentileDisc
  | percentileCont
  | stDev
  | stDevP
  deriving DecidableEq

/-- One aggregate of an aggregation. -/
structure AggregateExpr (S : Type) where
  /-- Function applied. -/
  function : AggregateFunction
  /-- Aggregated expression. -/
  input : Expr S
  /-- Name of the column, if one is given. -/
  columnAlias : Option String
  /-- Whether duplicates are dropped first. -/
  distinct : Bool
  /-- Second argument of the percentile functions. -/
  extraArg : Option (Expr S)
  /-- Function name as written. -/
  originalName : String
  /-- Call as written. -/
  originalCallText : Option String

/-- Operators that turn the rows of one input into rows. -/
inductive RowOp (S : Type) where
  | project (items : List (ReturnItem S)) (emitCompound : Bool)
  | aggregate (groupKeys : List (Expr S)) (aggregates : List (AggregateExpr S))
  | materializePath (pathAlias : String) (nodeAliases relAliases : List String)
  | sort (items : List (SortItem S))
  | distinct
  | skip (count : UInt64)
  | limit (count : UInt64)
  | unwind (expr : Expr S) (itemAlias : String)
  | call (procedureName : String) (args : List (Expr S)) (yieldItems : List (String×Option String))
      (yieldStar : Bool)
  | shortestPath (srcAlias dstAlias pathAlias : String) (edgeType : Option String)
      (direction : Direction) (maxHops : UInt32) (allPaths : Bool)
  | matchCreate (ops : List (CreateOp (Expr S)))
  | delete (exprs : List (Expr S)) (detach : Bool)
  | setProperty (assignments : List (Assignment (Expr S)))
  | setLabel (var : String) (labels : List String)
  | setProperties (var : String) (value : Expr S) (merge : Bool)
  | remove (items : List RemoveItem)
  | matchMerge (pattern : Pattern S) (onCreate onMatch : List (Assignment (Expr S)))

/-- Whether an operator hands the bindings of a correlated run to its input. -/
def RowOp.correlates {S : Type} : RowOp S → Bool
  | .project _ _ => true
  | .aggregate _ _ => true
  | .materializePath _ _ _ => true
  | _ => false

/-- Operators without an input that write. -/
inductive SourceOp (S : Type) where
  | createNode (labels : List String) (nodeAlias : Option String) (properties : List (String×Expr S))
  | createEdge (srcAlias dstAlias edgeType : String) (relAlias : Option String)
      (properties : List (String×Expr S))
  | createSequence (ops : List (CreateOp (Expr S)))
  | merge (pattern : Pattern S) (onCreate onMatch : List (Assignment (Expr S)))
  | createIndex (label : String) (properties : List String)
  | dropIndex (label : String) (properties : List String)

/-- What an expansion follows. -/
structure ExpandSpec (S : Type) where
  /-- Variable of the node the expansion starts from. -/
  srcAlias : String
  /-- Variable of the node it reaches. -/
  dstAlias : String
  /-- Variable of the relationship. -/
  relAlias : Option String
  /-- Accepted types; none means any. -/
  edgeTypes : List String
  /-- Direction followed. -/
  direction : Direction
  /-- Fewest hops. -/
  minHops : UInt32
  /-- Most hops. -/
  maxHops : UInt32
  /-- Whether the relationship variable is bound to a list. -/
  varLength : Bool
  /-- Inline properties checked at every hop of a variable-length expansion. -/
  varLengthPropFilters : List (String×Expr S)
  /-- Cap on the number of rows. -/
  resultCap : Option UInt64

/-- Logical plans. -/
inductive LogicalOp (S : Type) where
  | singleRow
  | emptyRow
  | scan (label nodeAlias : String)
  | idLookup (nodeAlias : String) (valueExpr : Expr S)
  | indexLookup (label nodeAlias : String) (indexProperties : List String)
      (lookups : List (String×LookupKey)) (remainingFilters : Option (Expr S))
  | fullTextLookup (label nodeAlias property : String) (op : FullTextOp) (term : Expr S)
      (remainingFilters : Option (Expr S))
  | expand (input : LogicalOp S) (spec : ExpandSpec S)
  | crossProduct (left right : LogicalOp S) (sameMatch : Bool)
  | filter (input : LogicalOp S) (predicate : Expr S)
  | correlatedJoin (input right : LogicalOp S) (sameMatch : Bool)
  | leftOuterJoin (input right : LogicalOp S) (optionalAliases : List String)
      (optFilter : Option (Expr S))
  | union (inputs : List (LogicalOp S)) (all : Bool)
  | rows (op : RowOp S) (input : LogicalOp S)
  | source (op : SourceOp S)

end GraphDbLite.QueryPlan
