import GraphDbLite.EdgeStorage

/-!
# Expressions and patterns of the query language

The syntax trees that the planner reads. Spans only name positions in the query
text and take no part in equality, so they are left out. Inline properties are
the entries of a hash map in its order of iteration. The statement inside a full
existential subquery is a type given from outside.
-/

namespace GraphDbLite.CypherSyntax

open EdgeStorage

/-- Literal values of a query text. -/
inductive LiteralValue where
  | null
  | bool (b : Bool)
  | i64 (n : Int64)
  | f64 (bits : UInt64)
  | string (text : String)
  deriving DecidableEq

/-- Binary operators. -/
inductive BinOp where
  | eq
  | neq
  | lt
  | gt
  | lte
  | gte
  | and
  | or
  | xor
  | startsWith
  | endsWith
  | contains
  | regexMatch
  | in
  | add
  | sub
  | mul
  | div
  | mod
  | pow
  deriving DecidableEq

/-- Quantifier predicates over a list. -/
inductive QuantifierKind where
  | none
  | single
  | any
  | all
  deriving DecidableEq

/-- Direction in which a relationship pattern is written. -/
inductive RelDirection where
  | outgoing
  | incoming
  | undirected
  deriving DecidableEq

/-- Whether a pattern asks for shortest paths. -/
inductive ShortestPathMode where
  | none
  | single
  | all
  deriving DecidableEq

/-- Node of a pattern over an arbitrary expression type. -/
structure NodePatternOf (E : Type) where
  /-- Variable of the node, if it is named. -/
  var : Option String
  /-- Required labels. -/
  labels : List String
  /-- Inline properties. -/
  properties : List (String×E)

/-- Relationship of a pattern over an arbitrary expression type. -/
structure RelPatternOf (E : Type) where
  /-- Variable of the relationship, if it is named. -/
  var : Option String
  /-- Accepted types; none means any. -/
  relTypes : List String
  /-- Inline properties. -/
  properties : List (String×E)
  /-- Direction of the arrow. -/
  direction : RelDirection
  /-- Bounds of a variable-length relationship. -/
  varLength : Option (UInt32×UInt32)

/-- One element of a pattern. -/
inductive PatternElementOf (E : Type) where
  | node (n : NodePatternOf E)
  | relationship (r : RelPatternOf E)

/-- A chain of nodes and relationships. -/
structure PatternOf (E : Type) where
  /-- Elements in written order. -/
  elements : List (PatternElementOf E)
  /-- Variable of the whole path, if it is named. -/
  pathVar : Option String
  /-- Whether shortest paths are asked for. -/
  shortestPathMode : ShortestPathMode

/-- Expressions; `S` is the type of embedded statements. -/
inductive Expr (S : Type) where
  | literal (l : LiteralValue)
  | property (var prop : String)
  | var (name : String)
  | parameter (name : String)
  | binaryOp (left : Expr S) (op : BinOp) (right : Expr S)
  | not (inner : Expr S)
  | isNull (inner : Expr S)
  | isNotNull (inner : Expr S)
  | functionCall (name : String) (args : List (Expr S)) (distinct : Bool)
      (originalText : Option String)
  | case (operand : Option (Expr S)) (alternatives : List (Expr S×Expr S)) (default : Option (Expr S))
  | list (items : List (Expr S))
  | listComprehension (var : String) (listExpr : Expr S) (filter mapExpr : Option (Expr S))
  | patternComprehension (pathVar : Option String) (pattern : PatternOf (Expr S))
      (whereClause : Option (Expr S)) (mapExpr : Expr S)
  | exists (patterns : List (PatternOf (Expr S))) (whereClause : Option (Expr S))
  | existsSubquery (stmt : S)
  | mapLiteral (pairs : List (String×Expr S))
  | index (expr index : Expr S)
  | dotAccess (expr : Expr S) (key : String)
  | slice (expr : Expr S) (start stop : Option (Expr S))
  | quantifier (kind : QuantifierKind) (var : String) (listExpr predicate : Expr S)
  | hasLabel (var : String) (labels : List String)
  | patternPredicate (pattern : PatternOf (Expr S))
  | star

/-- Node patterns of the language. -/
abbrev NodePattern (S : Type) := NodePatternOf (Expr S)

/-- Relationship patterns of the language. -/
abbrev RelPattern (S : Type) := RelPatternOf (Expr S)

/-- Pattern elements of the language. -/
abbrev PatternElement (S : Type) := PatternElementOf (Expr S)

/-- Patterns of the language. -/
abbrev Pattern (S : Type) := PatternOf (Expr S)

/-- Direction in which a written arrow is followed. -/
def RelDirection.follow : RelDirection → Direction
  | .outgoing => .outgoing
  | .incoming => .incoming
  | .undirected => .both

end GraphDbLite.CypherSyntax
