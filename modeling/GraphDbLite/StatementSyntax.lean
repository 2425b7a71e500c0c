import GraphDbLite.PropertySetters
import GraphDbLite.QueryPlan

/-!
# Statements of the query language

The trees that the parser builds from a query text. The clauses of every statement form
keep their order. A full existential subquery contains a statement, so statements are
built level by level: those of level zero do not exist, and those of the next level have
subqueries of the level below. Every statement has a level.
-/

namespace GraphDbLite.StatementSyntax

open WriteOperators PropertySetters CypherSyntax QueryPlan

variable (S : Type)

/-- Items of a `RETURN`. -/
structure ReturnClause where
  /-- Items in written order. -/
  items : List (ReturnItem S)
  /-- Whether duplicates are dropped. -/
  distinct : Bool

/-- `OPTIONAL MATCH`. -/
structure OptionalMatch where
  /-- Patterns of the clause. -/
  patterns : List (Pattern S)
  /-- Condition of the clause. -/
  whereClause : Option (Expr S)

/-- `WITH`. -/
structure WithClause where
  /-- Items in written order. -/
  items : List (ReturnItem S)
  /-- Whether duplicates are dropped. -/
  distinct : Bool
  /-- Sort columns. -/
  orderBy : List (SortItem S)
  /-- Number of rows to leave out. -/
  skip : Option (Expr S)
  /-- Number of rows to keep. -/
  limit : Option (Expr S)
  /-- Condition on the rows. -/
  whereClause : Option (Expr S)

/-- `UNWIND` inside a statement. -/
structure UnwindClause where
  /-- List that is unwound. -/
  expr : Expr S
  /-- Variable of its items. -/
  itemAlias : String

/-- `MATCH` after a `WITH`. -/
structure IntermediateMatch where
  /-- Patterns of the clause. -/
  patterns : List (Pattern S)
  /-- Its optional matches. -/
  optionalPatterns : List (OptionalMatch S)
  /-- Condition of the clause. -/
  whereClause : Option (Expr S)

/-- Clauses between the first one and the `RETURN`. -/
inductive IntermediateClause where
  | withClause (w : WithClause S)
  | unwind (u : UnwindClause S)
  | match (m : IntermediateMatch S)

/-- `MATCH ... RETURN`. -/
structure MatchStatement where
  /-- Patterns of the first clause. -/
  patterns : List (Pattern S)
  /-- Optional matches after it. -/
  optionalPatterns : List (OptionalMatch S)
  /-- Condition of the first clause. -/
  whereClause : Option (Expr S)
  /-- Clauses before the `RETURN`. -/
  intermediateClauses : List (IntermediateClause S)
  /-- Items of the `RETURN`. -/
  returnClause : ReturnClause S
  /-- Sort columns. -/
  orderBy : List (SortItem S)
  /-- Number of rows to leave out. -/
  skip : Option (Expr S)
  /-- Number of rows to keep. -/
  limit : Option (Expr S)

/-- An optional `RETURN` with its order and bounds. -/
structure ReturnTail where
  /-- Items of the `RETURN`. -/
  returnClause : Option (ReturnClause S)
  /-- Sort columns. -/
  orderBy : List (SortItem S)
  /-- Number of rows to leave out. -/
  skip : Option (Expr S)
  /-- Number of rows to keep. -/
  limit : Option (Expr S)

/-- `CREATE`. -/
structure CreateStatement where
  /-- Created patterns. -/
  patterns : List (Pattern S)
  /-- What is returned. -/
  tail : ReturnTail S

/-- `MATCH ... CREATE`. -/
structure MatchCreateStatement where
  /-- Matched patterns. -/
  patterns : List (Pattern S)
  /-- Condition of the match. -/
  whereClause : Option (Expr S)
  /-- Created patterns. -/
  createPatterns : List (Pattern S)
  /-- What is returned. -/
  tail : ReturnTail S

/-- `MATCH ... MERGE`. -/
structure MatchMergeStatement where
  /-- Matched patterns. -/
  patterns : List (Pattern S)
  /-- Condition of the match. -/
  whereClause : Option (Expr S)
  /-- Merged pattern. -/
  mergePattern : Pattern S
  /-- Items set on creation. -/
  onCreate : List (SetItem (Expr S))
  /-- Items set on a match. -/
  onMatch : List (SetItem (Expr S))
  /-- What is returned. -/
  tail : ReturnTail S

/-- `MATCH ... DELETE`. -/
structure DeleteStatement where
  /-- Matched patterns. -/
  patterns : List (Pattern S)
  /-- Optional matches. -/
  optionalPatterns : List (OptionalMatch S)
  /-- Condition of the match. -/
  whereClause : Option (Expr S)
  /-- Whether relationships go with their nodes. -/
  detach : Bool
  /-- What is deleted. -/
  exprs : List (Expr S)
  /-- What is returned. -/
  tail : ReturnTail S

/-- `MATCH ... SET`. -/
structure SetStatement where
  /-- Matched patterns. -/
  patterns : List (Pattern S)
  /-- Optional matches. -/
  optionalPatterns : List (OptionalMatch S)
  /-- Condition of the match. -/
  whereClause : Option (Expr S)
  /-- Items set. -/
  items : List (SetItem (Expr S))
  /-- Clauses before the `RETURN`. -/
  intermediateClauses : List (IntermediateClause S)
  /-- What is returned. -/
  tail : ReturnTail S

/-- `MATCH ... REMOVE`. -/
structure RemoveStatement where
  /-- Matched patterns. -/
  patterns : List (Pattern S)
  /-- Optional matches. -/
  optionalPatterns : List (OptionalMatch S)
  /-- Condition of the match. -/
  whereClause : Option (Expr S)
  /-- Items removed. -/
  items : List RemoveItem
  /-- What is returned. -/
  tail : ReturnTail S

/-- `MERGE`. -/
structure MergeStatement where
  /-- Merged pattern. -/
  pattern : Pattern S
  /-- Items set on creation. -/
  onCreate : List (SetItem (Expr S))
  /-- Items set on a match. -/
  onMatch : List (SetItem (Expr S))
  /-- What is returned. -/
  tail : ReturnTail S

/-- What follows an `UNWIND`. -/
inductive UnwindBody where
  | return (whereClause : Option (Expr S)) (intermediateClauses : List (IntermediateClause S))
      (returnClause : ReturnClause S) (orderBy : List (SortItem S)) (skip limit : Option (Expr S))
  | create (patterns : List (Pattern S)) (intermediateClauses : List (IntermediateClause S))
      (tail : ReturnTail S)

/-- `UNWIND` at the start of a statement. -/
structure UnwindStatement where
  /-- List that is unwound. -/
  expr : Expr S
  /-- Variable of its items. -/
  itemAlias : String
  /-- What follows. -/
  body : UnwindBody S

/-- `RETURN` alone. -/
structure ReturnStatement where
  /-- Items in written order. -/
  returnClause : ReturnClause S
  /-- Sort columns. -/
  orderBy : List (SortItem S)
  /-- Number of rows to leave out. -/
  skip : Option (Expr S)
  /-- Number of rows to keep. -/
  limit : Option (Expr S)

/-- A procedure call. -/
structure CallClause where
  /-- Name of the procedure. -/
  procedureName : String
  /-- Written arguments. -/
  args : List (Expr S)
  /-- Whether the call is written without parentheses. -/
  implicitArgs : Bool
  /-- Columns taken, with their names; none without `YIELD`. -/
  yieldItems : Option (List (String×Option String))
  /-- Whether all columns are taken. -/
  yieldStar : Bool

/-- Clauses of a statement of several clauses. -/
inductive Clause where
  | match (patterns : List (Pattern S)) (optionalPatterns : List (OptionalMatch S))
      (whereClause : Option (Expr S))
  | create (patterns : List (Pattern S))
  | merge (pattern : Pattern S) (onCreate onMatch : List (SetItem (Expr S)))
  | withClause (w : WithClause S)
  | unwind (u : UnwindClause S)
  | set (items : List (SetItem (Expr S)))
  | remove (items : List RemoveItem)
  | call (c : CallClause S)
  | delete (exprs : List (Expr S)) (detach : Bool)

/-- Clauses in any order with an optional `RETURN`. -/
structure MultiClauseStatement where
  /-- Clauses in written order. -/
  clauses : List (Clause S)
  /-- What is returned. -/
  tail : ReturnTail S

/-- Statements with subqueries of a given type. -/
inductive StatementOf where
  | match (m : MatchStatement S)
  | create (c : CreateStatement S)
  | matchCreate (mc : MatchCreateStatement S)
  | matchMerge (mm : MatchMergeStatement S)
  | delete (d : DeleteStatement S)
  | set (s : SetStatement S)
  | remove (r : RemoveStatement S)
  | merge (m : MergeStatement S)
  | unwind (u : UnwindStatement S)
  | return (r : ReturnStatement S)
  | multiClause (mc : MultiClauseStatement S)
  | explain (inner : StatementOf)
  | union (statements : List StatementOf) (all : Bool)
  | createIndex (label : String) (properties : List String)
  | dropIndex (label : String) (properties : List String)
  | call (c : CallClause S) (tail : ReturnTail S)

/-- Statements of a level: their subqueries are of the levels below. -/
def StatementAt : Nat → Type
  | 0 => Empty
  | level+1 => StatementOf (StatementAt level)

end GraphDbLite.StatementSyntax
