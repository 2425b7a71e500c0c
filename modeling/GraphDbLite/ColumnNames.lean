import GraphDbLite.QueryPlan

/-!
# Column names

A column without a name is called after its expression. The printed form is not
faithful: CASE and the remaining forms are printed alike, and a text literal may
hold any characters. Numbers in floating point are printed by a function from
outside.
-/

namespace GraphDbLite.ColumnNames

open CypherSyntax QueryPlan CypherEval

variable {S : Type}

/-- Precedence of a binary operator. -/
def binopPrecedence : BinOp → Nat
  | .or => 1
  | .xor => 2
  | .and => 3
  | .eq => 5
  | .neq => 5
  | .lt => 5
  | .gt => 5
  | .lte => 5
  | .gte => 5
  | .in => 5
  | .startsWith => 5
  | .endsWith => 5
  | .contains => 5
  | .regexMatch => 5
  | .add => 6
  | .sub => 6
  | .mul => 7
  | .div => 7
  | .mod => 7
  | .pow => 8

/-- Printed form of a binary operator. -/
def binopText : BinOp → String
  | .add => " + "
  | .sub => " - "
  | .mul => " * "
  | .div => " / "
  | .mod => " % "
  | .pow => " ^ "
  | .eq => " = "
  | .neq => " <> "
  | .lt => " < "
  | .gt => " > "
  | .lte => " <= "
  | .gte => " >= "
  | .and => " AND "
  | .or => " OR "
  | .xor => " XOR "
  | .in => " IN "
  | .startsWith => " STARTS WITH "
  | .endsWith => " ENDS WITH "
  | .contains => " CONTAINS "
  | .regexMatch => " =~ "

/-- Printed form of a literal. -/
def literalText (floatText : UInt64 → String) : LiteralValue → String
  | .null => "null"
  | .bool b => if b=true then "true" else "false"
  | .i64 n => toString n
  | .f64 bits => floatText bits
  | .string text => "'"++(text++ "'")

/-- Whether an operand is put in parentheses: it binds weaker, or as strongly and
stands on the right. -/
def needsParens (child : Expr S) (parentPrec : Nat) (isLeft : Bool) : Bool :=
  match child with
  | .binaryOp _ op _ => binopPrecedence op<parentPrec || (binopPrecedence op=parentPrec && !isLeft)
  | _ => false

/-- A text, in parentheses if asked for. -/
def parenthesize (parens : Bool) (text : String) : String :=
  if parens=true then "("++(text++ ")") else text

/-- Whether the base of a property access is printed without parentheses. -/
def isPathExpr : Expr S → Bool
  | .var _ => true
  | .dotAccess _ _ => true
  | .property _ _ => true
  | _ => false

/-- Whether a call has no arguments or a star. -/
def isStarCall : List (Expr S) → Bool
  | [] => true
  | .star::_ => true
  | _ => false

mutual

/-- Name of the column of an expression. -/
def exprToColumnName (floatText : UInt64 → String) : Expr S → String
  | .var name => name
  | .property var prop => var++("."++prop)
  | .functionCall name args distinct originalText =>
    match originalText with
    | some text => text
    | none =>
      if isStarCall args=true then name++"(*)"
      else name++("("++((if distinct=true then "DISTINCT " else "")++
        (String.intercalate ", " (columnNames floatText args)++ ")")))
  | .star => "*"
  | .literal l => literalText floatText l
  | .case _ _ _ => "CASE"
  | .list items => "["++(String.intercalate ", " (columnNames floatText items)++ "]")
  | .index expr index =>
    exprToColumnName floatText expr++("["++(exprToColumnName floatText index++ "]"))
  | .dotAccess expr key =>
    parenthesize (!isPathExpr expr) (exprToColumnName floatText expr)++("."++key)
  | .slice expr start stop =>
    exprToColumnName floatText expr++("["++(optionalName floatText start++
      (".."++(optionalName floatText stop++ "]"))))
  | .binaryOp left op right =>
    parenthesize (needsParens left (binopPrecedence op) true) (exprToColumnName floatText left)++
      (binopText op++
        parenthesize (needsParens right (binopPrecedence op) false) (exprToColumnName floatText right))
  | .isNull inner => exprToColumnName floatText inner++" IS NULL"
  | .isNotNull inner => exprToColumnName floatText inner++" IS NOT NULL"
  | .not inner => "NOT "++exprToColumnName floatText inner
  | .patternComprehension _ _ _ _ => "_expr"
  | .parameter name => "$"++name
  | .hasLabel var labels => "("++(var++(String.join (labels.map fun l => ":"++l)++ ")"))
  | .mapLiteral pairs => "\x7b"++(String.intercalate ", " (pairNames floatText pairs)++ "\x7d")
  | _ => "_expr"
termination_by structural expr => expr

/-- Names of expressions. -/
def columnNames (floatText : UInt64 → String) : List (Expr S) → List String
  | [] => []
  | expr::rest => exprToColumnName floatText expr::columnNames floatText rest
termination_by structural exprs => exprs

/-- Name of an optional expression, empty when there is none. -/
def optionalName (floatText : UInt64 → String) : Option (Expr S) → String
  | none => ""
  | some expr => exprToColumnName floatText expr
termination_by structural expr => expr

/-- Printed entries of a map literal. -/
def pairNames (floatText : UInt64 → String) : List (String×Expr S) → List String
  | [] => []
  | pair::rest => pairName floatText pair::pairNames floatText rest
termination_by structural pairs => pairs

/-- Printed entry of a map literal. -/
def pairName (floatText : UInt64 → String) : String×Expr S → String
  | (key,expr) => key++(": "++exprToColumnName floatText expr)
termination_by structural pair => pair

end

/-- Column of an item. -/
def columnNameForItem (floatText : UInt64 → String) (item : ReturnItem S) : String :=
  item.columnAlias.getD (exprToColumnName floatText item.expr)

/-- Names of the aggregate functions, in lower case. -/
def aggregateNames : List String :=
  ["count","sum","avg","min","max","collect","percentiledisc","percentilecont","stdev","stdevp"]

/-- Whether an expression is a call of an aggregate function. -/
def isAggregateCall : Expr S → Bool
  | .functionCall name _ _ _ => asciiLower name∈aggregateNames
  | _ => false

end GraphDbLite.ColumnNames
