import GraphDbLite.PatternPlan
import GraphDbLite.ParameterCheck

/-!
# Variables of expressions

The free variables of an expression, where comprehensions, quantifiers and patterns bind.
The planner checks variables with walkers that do not enter the bodies of comprehensions
and quantifiers, nor patterns and subqueries. Each check succeeds exactly when the
variables that it looks at are in scope, and those are free variables of the expression.
-/

namespace GraphDbLite.FreeVariables

open GraphTypes CypherSyntax PatternPlan
  ParameterCheck

/-- Variables other than some bound ones. -/
def without (bound vars : List String) : List String := vars.filter fun v => v∉bound

section Free

variable {S : Type} (sub : S → List String)

mutual

/-- Free variables of an expression, given those of a subquery. -/
def freeVars : Expr S → List String
  | .var name => [name]
  | .property var _ => [var]
  | .hasLabel var _ => [var]
  | .binaryOp left _ right => freeVars left++freeVars right
  | .not inner => freeVars inner
  | .isNull inner => freeVars inner
  | .isNotNull inner => freeVars inner
  | .functionCall _ args _ _ => freeOfExprs args
  | .case operand alternatives default =>
    freeOfOption operand++(freeOfAlternatives alternatives++freeOfOption default)
  | .list items => freeOfExprs items
  | .listComprehension var listExpr filter mapExpr =>
    freeVars listExpr++without [var] (freeOfOption filter++freeOfOption mapExpr)
  | .patternComprehension pathVar pattern whereClause mapExpr =>
    without (pathVar.toList++patternVariables pattern)
      (freeOfPattern pattern++(freeOfOption whereClause++freeVars mapExpr))
  | .quantifier _ var listExpr predicate => freeVars listExpr++without [var] (freeVars predicate)
  | .exists patterns whereClause =>
    without (collectPatternVariables patterns) (freeOfPatterns patterns++freeOfOption whereClause)
  | .existsSubquery stmt => sub stmt
  | .mapLiteral pairs => freeOfEntries pairs
  | .index expr index => freeVars expr++freeVars index
  | .dotAccess expr _ => freeVars expr
  | .slice expr start stop => freeVars expr++(freeOfOption start++freeOfOption stop)
  | .patternPredicate pattern => pattern.elements.filterMap elementVar++freeOfPattern pattern
  | .literal _ => []
  | .parameter _ => []
  | .star => []
termination_by structural expr => expr

def freeOfExprs : List (Expr S) → List String
  | [] => []
  | expr::rest => freeVars expr++freeOfExprs rest
termination_by structural exprs => exprs

def freeOfOption : Option (Expr S) → List String
  | none => []
  | some expr => freeVars expr
termination_by structural expr => expr

def freeOfAlternatives : List (Expr S×Expr S) → List String
  | [] => []
  | alternative::rest => freeOfAlternative alternative++freeOfAlternatives rest
termination_by structural alternatives => alternatives

def freeOfAlternative : Expr S×Expr S → List String
  | (cond,result) => freeVars cond++freeVars result
termination_by structural alternative => alternative

def freeOfEntries : List (String×Expr S) → List String
  | [] => []
  | entry::rest => freeOfEntry entry++freeOfEntries rest
termination_by structural entries => entries

def freeOfEntry : String×Expr S → List String
  | (_,expr) => freeVars expr
termination_by structural entry => entry

/-- Free variables in the properties of a node. -/
def freeOfNode : NodePattern S → List String
  | ⟨_,_,properties⟩ => freeOfEntries properties
termination_by structural n => n

/-- Free variables in the properties of a relationship. -/
def freeOfRelationship : RelPattern S → List String
  | ⟨_,_,properties,_,_⟩ => freeOfEntries properties
termination_by structural r => r

def freeOfElement : PatternElement S → List String
  | .node n => freeOfNode n
  | .relationship r => freeOfRelationship r
termination_by structural element => element

def freeOfElements : List (PatternElement S) → List String
  | [] => []
  | element::rest => freeOfElement element++freeOfElements rest
termination_by structural elements => elements

def freeOfPattern : Pattern S → List String
  | ⟨elements,_,_⟩ => freeOfElements elements
termination_by structural pattern => pattern

def freeOfPatterns : List (Pattern S) → List String
  | [] => []
  | pattern::rest => freeOfPattern pattern++freeOfPatterns rest
termination_by structural patterns => patterns

end

end Free

/-- The error about a variable that is not in scope. -/
def undefinedVariableError (name : String) : GraphError :=
  .query .syntaxError .parse .undefinedVariable name

/-- Reject a variable that is not in scope. -/
def requireInScope (scope : List String) (name : String) : Result Unit :=
  if name∈scope then .ok () else .error (undefinedVariableError name)

section Walker

variable {S : Type} (scope : List String)

mutual

/-- Reject a variable of an expression that is not in scope. -/
def checkExprVariables : Expr S → Result Unit
  | .var name => requireInScope scope name
  | .property var _ => requireInScope scope var
  | .binaryOp left _ right => do
    checkExprVariables left
    checkExprVariables right
  | .not inner => checkExprVariables inner
  | .isNull inner => checkExprVariables inner
  | .isNotNull inner => checkExprVariables inner
  | .functionCall _ args _ _ => checkExprs args
  | .case operand alternatives default => do
    checkOption operand
    checkAlternatives alternatives
    checkOption default
  | .list items => checkExprs items
  | .mapLiteral pairs => checkEntries pairs
  | .index expr index => do
    checkExprVariables expr
    checkExprVariables index
  | .slice expr start stop => do
    checkExprVariables expr
    checkOption start
    checkOption stop
  | .literal _ => .ok ()
  | .parameter _ => .ok ()
  | .star => .ok ()
  | .listComprehension _ listExpr _ _ => checkExprVariables listExpr
  | .quantifier _ _ listExpr _ => checkExprVariables listExpr
  | .exists _ _ => .ok ()
  | .existsSubquery _ => .ok ()
  | .patternPredicate _ => .ok ()
  | .patternComprehension _ _ _ _ => .ok ()
  | .dotAccess expr _ => checkExprVariables expr
  | .hasLabel var _ => requireInScope scope var
termination_by structural expr => expr

def checkExprs : List (Expr S) → Result Unit
  | [] => .ok ()
  | expr::rest => do
    checkExprVariables expr
    checkExprs rest
termination_by structural exprs => exprs

def checkOption : Option (Expr S) → Result Unit
  | none => .ok ()
  | some expr => checkExprVariables expr
termination_by structural expr => expr

def checkAlternatives : List (Expr S×Expr S) → Result Unit
  | [] => .ok ()
  | alternative::rest => do
    checkAlternative alternative
    checkAlternatives rest
termination_by structural alternatives => alternatives

def checkAlternative : Expr S×Expr S → Result Unit
  | (cond,result) => do
    checkExprVariables cond
    checkExprVariables result
termination_by structural alternative => alternative

def checkEntries : List (String×Expr S) → Result Unit
  | [] => .ok ()
  | entry::rest => do
    checkEntry entry
    checkEntries rest
termination_by structural entries => entries

def checkEntry : String×Expr S → Result Unit
  | (_,expr) => checkExprVariables expr
termination_by structural entry => entry

end

end Walker

section Looked

variable {S : Type}

mutual

/-- Variables that the check looks at. -/
def checkedVars : Expr S → List String
  | .var name => [name]
  | .property var _ => [var]
  | .hasLabel var _ => [var]
  | .binaryOp left _ right => checkedVars left++checkedVars right
  | .not inner => checkedVars inner
  | .isNull inner => checkedVars inner
  | .isNotNull inner => checkedVars inner
  | .functionCall _ args _ _ => checkedOfExprs args
  | .case operand alternatives default =>
    checkedOfOption operand++(checkedOfAlternatives alternatives++checkedOfOption default)
  | .list items => checkedOfExprs items
  | .mapLiteral pairs => checkedOfEntries pairs
  | .index expr index => checkedVars expr++checkedVars index
  | .slice expr start stop => checkedVars expr++(checkedOfOption start++checkedOfOption stop)
  | .listComprehension _ listExpr _ _ => checkedVars listExpr
  | .quantifier _ _ listExpr _ => checkedVars listExpr
  | .dotAccess expr _ => checkedVars expr
  | _ => []
termination_by structural expr => expr

def checkedOfExprs : List (Expr S) → List String
  | [] => []
  | expr::rest => checkedVars expr++checkedOfExprs rest
termination_by structural exprs => exprs

def checkedOfOption : Option (Expr S) → List String
  | none => []
  | some expr => checkedVars expr
termination_by structural expr => expr

def checkedOfAlternatives : List (Expr S×Expr S) → List String
  | [] => []
  | alternative::rest => checkedOfAlternative alternative++checkedOfAlternatives rest
termination_by structural alternatives => alternatives

def checkedOfAlternative : Expr S×Expr S → List String
  | (cond,result) => checkedVars cond++checkedVars result
termination_by structural alternative => alternative

def checkedOfEntries : List (String×Expr S) → List String
  | [] => []
  | entry::rest => checkedOfEntry entry++checkedOfEntries rest
termination_by structural entries => entries

def checkedOfEntry : String×Expr S → List String
  | (_,expr) => checkedVars expr
termination_by structural entry => entry

end

/-- Pattern predicates that the check of `WHERE` reaches. -/
def reachedPredicates : Expr S → List (Pattern S)
  | .patternPredicate pattern => [pattern]
  | .binaryOp left _ right => reachedPredicates left++reachedPredicates right
  | .not inner => reachedPredicates inner
  | .isNull inner => reachedPredicates inner
  | .isNotNull inner => reachedPredicates inner
  | _ => []

/-- Variables of the elements of a pattern. -/
def elementVars (pattern : Pattern S) : List String := pattern.elements.filterMap elementVar

/-- Variables in the pattern predicates that the check reaches. -/
def predicateVars (expr : Expr S) : List String := (reachedPredicates expr).flatMap elementVars

end Looked

section Lists

variable {α : Type}

theorem forAll_ok_iff (check : α → Result Unit) (xs : List α) :
    forAll check xs=.ok () ↔ ∀ x∈xs,check x=.ok () := by
  induction xs with
  | nil => simp [forAll]
  | cons x rest ih =>
    rw [forAll,List.forall_mem_cons,←ih]
    cases check x with
    | error e | ok u => simp [bind,Except.bind]

theorem both_ok_iff (first second : Result Unit) :
    (do
      first
      second)=Except.ok () ↔ first=.ok () ∧ second=.ok () := by
  cases first with
  | error e | ok u => simp [bind,Except.bind]

end Lists

theorem requireInScope_ok_iff (scope : List String) (name : String) :
    requireInScope scope name=.ok () ↔ name∈scope := by
  rw [requireInScope]
  by_cases h : name∈scope
  · simp [h]
  · simp [h]

section Checks

variable {scope : List String}

/-- A check accepts exactly when the variables that it looks at are in scope, and those
are free variables. -/
structure Looked (scope : List String) (outcome : Result Unit) (checked free : List String) : Prop where
  /-- Acceptance. -/
  accepts : outcome=.ok () ↔ ∀ v∈checked,v∈scope
  /-- The variables. -/
  included : ∀ v∈checked,v∈free

theorem looked_nil (free : List String) : Looked scope (.ok ()) [] free :=
  ⟨⟨fun _ _ hv => absurd hv List.not_mem_nil,fun _ => rfl⟩,fun _ hv => absurd hv List.not_mem_nil⟩

theorem looked_var (name : String) : Looked scope (requireInScope scope name) [name] [name] :=
  ⟨(requireInScope_ok_iff scope name).trans List.forall_mem_singleton.symm,fun _ hv => hv⟩

theorem Looked.both {first second : Result Unit} {a b c d : List String} (hfirst : Looked scope first a c)
    (hsecond : Looked scope second b d) : Looked scope (first >>= fun _ => second) (a++b) (c++d) := by
  refine ⟨?_,?_⟩
  · rw [List.forall_mem_append,←hfirst.accepts,←hsecond.accepts]
    exact both_ok_iff first second
  · intro v hv
    rcases List.mem_append.mp hv with ha|hb
    · exact List.mem_append_left d (hfirst.included v ha)
    · exact List.mem_append_right c (hsecond.included v hb)

theorem Looked.more {outcome : Result Unit} {checked free : List String} (h : Looked scope outcome checked free)
    (others : List String) : Looked scope outcome checked (free++others) :=
  ⟨h.accepts,fun v hv => List.mem_append_left others (h.included v hv)⟩

variable {S : Type} (sub : S → List String)

mutual

theorem looked_expr : ∀ expr : Expr S,
    Looked scope (checkExprVariables scope expr) (checkedVars expr) (freeVars sub expr)
  | .var name => looked_var name
  | .property var _ | .hasLabel var _ => looked_var var
  | .binaryOp left _ right => (looked_expr left).both (looked_expr right)
  | .not inner | .isNull inner | .isNotNull inner => looked_expr inner
  | .functionCall _ args _ _ => looked_exprs args
  | .case operand alternatives default =>
    (looked_option operand).both ((looked_alternatives alternatives).both (looked_option default))
  | .list items => looked_exprs items
  | .mapLiteral pairs => looked_entries pairs
  | .index expr index => (looked_expr expr).both (looked_expr index)
  | .slice expr start stop => (looked_expr expr).both ((looked_option start).both (looked_option stop))
  | .listComprehension _ listExpr _ _ | .quantifier _ _ listExpr _ => (looked_expr listExpr).more _
  | .dotAccess expr _ => looked_expr expr
  | .literal _ | .parameter _ | .star | .exists _ _ | .existsSubquery _ | .patternPredicate _
  | .patternComprehension _ _ _ _ => looked_nil _

theorem looked_exprs : ∀ exprs : List (Expr S),
    Looked scope (checkExprs scope exprs) (checkedOfExprs exprs) (freeOfExprs sub exprs)
  | [] => looked_nil _
  | expr::rest => (looked_expr expr).both (looked_exprs rest)

theorem looked_option : ∀ expr : Option (Expr S),
    Looked scope (checkOption scope expr) (checkedOfOption expr) (freeOfOption sub expr)
  | none => looked_nil _
  | some expr => looked_expr expr

theorem looked_alternatives : ∀ alternatives : List (Expr S×Expr S),
    Looked scope (checkAlternatives scope alternatives) (checkedOfAlternatives alternatives)
      (freeOfAlternatives sub alternatives)
  | [] => looked_nil _
  | alternative::rest => (looked_alternative alternative).both (looked_alternatives rest)

theorem looked_alternative : ∀ alternative : Expr S×Expr S,
    Looked scope (checkAlternative scope alternative) (checkedOfAlternative alternative)
      (freeOfAlternative sub alternative)
  | (cond,result) => (looked_expr cond).both (looked_expr result)

theorem looked_entries : ∀ entries : List (String×Expr S),
    Looked scope (checkEntries scope entries) (checkedOfEntries entries) (freeOfEntries sub entries)
  | [] => looked_nil _
  | entry::rest => (looked_entry entry).both (looked_entries rest)

theorem looked_entry : ∀ entry : String×Expr S,
    Looked scope (checkEntry scope entry) (checkedOfEntry entry) (freeOfEntry sub entry)
  | (_,expr) => looked_expr expr

end

/-- The check accepts an expression when the variables that it looks at are in scope. -/
theorem checkExprVariables_ok_iff (expr : Expr S) :
    checkExprVariables scope expr=.ok () ↔ ∀ v∈checkedVars expr,v∈scope :=
  (looked_expr (fun _ => []) expr).accepts

theorem checkedVars_free (expr : Expr S) : ∀ v∈checkedVars expr,v∈freeVars sub expr :=
  (looked_expr sub expr : Looked [] _ _ _).included

theorem reachedPredicates_free (expr : Expr S) :
    ∀ pattern∈reachedPredicates expr,∀ v∈elementVars pattern,v∈freeVars sub expr := by
  induction expr using reachedPredicates.induct with
  | case1 pattern =>
    intro other hother v hv
    have hpattern := List.mem_singleton.mp hother
    rw [hpattern] at hv
    exact List.mem_append_left _ hv
  | case2 left op right ihleft ihright =>
    intro pattern hpattern v hv
    rcases List.mem_append.mp hpattern with hleft|hright
    · exact List.mem_append_left _ (ihleft pattern hleft v hv)
    · exact List.mem_append_right _ (ihright pattern hright v hv)
  | case3 inner ih | case4 inner ih | case5 inner ih => exact ih
  | case6 expr hpredicate hbinary hnot hnull hnotNull =>
    rw [reachedPredicates.eq_6 expr hpredicate hbinary hnot hnull hnotNull]
    exact fun pattern hpattern => absurd hpattern List.not_mem_nil

theorem predicateVars_free (expr : Expr S) : ∀ v∈predicateVars expr,v∈freeVars sub expr := by
  intro v hv
  have hreached := List.mem_flatMap.mp hv
  cases hreached with
  | intro pattern hpattern => exact reachedPredicates_free sub expr pattern hpattern.1 v hpattern.2

end Checks

end GraphDbLite.FreeVariables
