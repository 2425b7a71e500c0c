import GraphDbLite.IndexAccess
import GraphDbLite.StatementSyntax

/-!
# The parameter check

Before a statement is planned, every parameter that the check finds in it must be given.
The check walks all clauses and expressions, but takes a pattern predicate for a leaf.
It succeeds exactly when all parameters outside pattern predicates are given, and so it
is complete exactly when those inside are given with them. A parameter that is given is
never missing when it is evaluated.
-/

namespace GraphDbLite.ParameterCheck

open GraphTypes WriteOperators PropertySetters CypherSyntax CypherEval QueryPlan StatementSyntax

/-- Where parameters are collected: everywhere, or only outside or inside of pattern
predicates. -/
inductive Places where
  | everywhere
  | outside
  | inside
  deriving DecidableEq

/-- Reject a parameter that is not given. -/
def checkParam (given : String → Bool) (name : String) : Result Unit :=
  if given name=true then .ok ()
  else .error (.query .argumentError .semanticAnalysis .other ("missing parameter: $"++name))

/-- Reject the first of some parameters that is not given. -/
def requireAll (given : String → Bool) : List String → Result Unit
  | [] => .ok ()
  | name::rest => do
    checkParam given name
    requireAll given rest

/-- Check all elements in order. -/
def forAll {α : Type} (check : α → Result Unit) : List α → Result Unit
  | [] => .ok ()
  | x::rest => do
    check x
    forAll check rest

/-- Check an element if there is one. -/
def ifSome {α : Type} (check : α → Result Unit) : Option α → Result Unit
  | none => .ok ()
  | some x => check x

section Walker

variable {S : Type} (check : S → Result Unit) (given : String → Bool)

mutual

/-- Reject a missing parameter of an expression. -/
def validateExpr : Expr S → Result Unit
  | .parameter name => checkParam given name
  | .binaryOp left _ right => do
    validateExpr left
    validateExpr right
  | .not inner => validateExpr inner
  | .isNull inner => validateExpr inner
  | .isNotNull inner => validateExpr inner
  | .functionCall _ args _ _ => validateExprs args
  | .case operand alternatives default => do
    validateOption operand
    validateAlternatives alternatives
    validateOption default
  | .list items => validateExprs items
  | .listComprehension _ listExpr filter mapExpr => do
    validateExpr listExpr
    validateOption filter
    validateOption mapExpr
  | .patternComprehension _ pattern whereClause mapExpr => do
    validatePattern pattern
    validateOption whereClause
    validateExpr mapExpr
  | .quantifier _ _ listExpr predicate => do
    validateExpr listExpr
    validateExpr predicate
  | .exists patterns whereClause => do
    validatePatterns patterns
    validateOption whereClause
  | .existsSubquery stmt => check stmt
  | .mapLiteral pairs => validateProps pairs
  | .index expr index => do
    validateExpr expr
    validateExpr index
  | .dotAccess expr _ => validateExpr expr
  | .slice expr start stop => do
    validateExpr expr
    validateOption start
    validateOption stop
  | .literal _ => .ok ()
  | .property _ _ => .ok ()
  | .var _ => .ok ()
  | .hasLabel _ _ => .ok ()
  | .patternPredicate _ => .ok ()
  | .star => .ok ()
termination_by structural expr => expr

def validateExprs : List (Expr S) → Result Unit
  | [] => .ok ()
  | expr::rest => do
    validateExpr expr
    validateExprs rest
termination_by structural exprs => exprs

def validateOption : Option (Expr S) → Result Unit
  | none => .ok ()
  | some expr => validateExpr expr
termination_by structural expr => expr

def validateAlternatives : List (Expr S×Expr S) → Result Unit
  | [] => .ok ()
  | alternative::rest => do
    validateAlternative alternative
    validateAlternatives rest
termination_by structural alternatives => alternatives

def validateAlternative : Expr S×Expr S → Result Unit
  | (cond,result) => do
    validateExpr cond
    validateExpr result
termination_by structural alternative => alternative

def validateProps : List (String×Expr S) → Result Unit
  | [] => .ok ()
  | entry::rest => do
    validateEntry entry
    validateProps rest
termination_by structural entries => entries

def validateEntry : String×Expr S → Result Unit
  | (_,expr) => validateExpr expr
termination_by structural entry => entry

def validateNode : NodePattern S → Result Unit
  | ⟨_,_,properties⟩ => validateProps properties
termination_by structural n => n

def validateRelationship : RelPattern S → Result Unit
  | ⟨_,_,properties,_,_⟩ => validateProps properties
termination_by structural r => r

def validateElement : PatternElement S → Result Unit
  | .node n => validateNode n
  | .relationship r => validateRelationship r
termination_by structural element => element

def validateElements : List (PatternElement S) → Result Unit
  | [] => .ok ()
  | element::rest => do
    validateElement element
    validateElements rest
termination_by structural elements => elements

def validatePattern : Pattern S → Result Unit
  | ⟨elements,_,_⟩ => validateElements elements
termination_by structural pattern => pattern

def validatePatterns : List (Pattern S) → Result Unit
  | [] => .ok ()
  | pattern::rest => do
    validatePattern pattern
    validatePatterns rest
termination_by structural patterns => patterns

end

/-- The same for an optional match. -/
def validateOptionalMatch (om : OptionalMatch S) : Result Unit := do
  validatePatterns check given om.patterns
  validateOption check given om.whereClause

/-- The same for an item of a `SET`. -/
def validateSetItem : SetItem (Expr S) → Result Unit
  | .property a => validateExpr check given a.value
  | .mapOverwrite _ value => validateExpr check given value
  | .mapMerge _ value => validateExpr check given value
  | .label _ _ => .ok ()

/-- The same for the items of a `SET`. -/
def validateSetItems (items : List (SetItem (Expr S))) : Result Unit :=
  forAll (validateSetItem check given) items

/-- The same for the items of a `RETURN`. -/
def validateReturnItems (items : List (ReturnItem S)) : Result Unit :=
  forAll (fun item => validateExpr check given item.expr) items

/-- The same for sort columns. -/
def validateSortItems (items : List (SortItem S)) : Result Unit :=
  forAll (fun item => validateExpr check given item.expr) items

/-- The same for an optional `RETURN`. -/
def validateReturnTail (tail : ReturnTail S) : Result Unit := do
  ifSome (fun rc => validateReturnItems check given rc.items) tail.returnClause
  validateSortItems check given tail.orderBy
  validateOption check given tail.skip
  validateOption check given tail.limit

/-- The same for a `WITH`. -/
def validateWith (w : WithClause S) : Result Unit := do
  validateReturnItems check given w.items
  validateSortItems check given w.orderBy
  validateOption check given w.skip
  validateOption check given w.limit
  validateOption check given w.whereClause

/-- The same for a clause before the `RETURN`. -/
def validateIntermediateClause : IntermediateClause S → Result Unit
  | .withClause w => validateWith check given w
  | .unwind u => validateExpr check given u.expr
  | .match m => do
    validatePatterns check given m.patterns
    forAll (validateOptionalMatch check given) m.optionalPatterns
    validateOption check given m.whereClause

/-- The same for the clauses before the `RETURN`. -/
def validateIntermediateClauses (clauses : List (IntermediateClause S)) : Result Unit :=
  forAll (validateIntermediateClause check given) clauses

/-- The same for a clause of a statement of several clauses. -/
def validateClause : Clause S → Result Unit
  | .match patterns optionalPatterns whereClause => do
    validatePatterns check given patterns
    forAll (validateOptionalMatch check given) optionalPatterns
    validateOption check given whereClause
  | .create patterns => validatePatterns check given patterns
  | .merge pattern onCreate onMatch => do
    validatePattern check given pattern
    validateSetItems check given onCreate
    validateSetItems check given onMatch
  | .withClause w => validateWith check given w
  | .unwind u => validateExpr check given u.expr
  | .set items => validateSetItems check given items
  | .remove _ => .ok ()
  | .call c => validateExprs check given c.args
  | .delete exprs _ => validateExprs check given exprs

/-- The same for what follows an `UNWIND`. -/
def validateUnwindBody : UnwindBody S → Result Unit
  | .return whereClause intermediateClauses returnClause orderBy skip limit => do
    validateOption check given whereClause
    validateIntermediateClauses check given intermediateClauses
    validateReturnItems check given returnClause.items
    validateSortItems check given orderBy
    validateOption check given skip
    validateOption check given limit
  | .create patterns intermediateClauses tail => do
    validatePatterns check given patterns
    validateIntermediateClauses check given intermediateClauses
    validateReturnTail check given tail

mutual

/-- The check of a statement, given that of its subqueries. -/
def validateStatement : StatementOf S → Result Unit
  | .match m => do
    validatePatterns check given m.patterns
    forAll (validateOptionalMatch check given) m.optionalPatterns
    validateOption check given m.whereClause
    validateIntermediateClauses check given m.intermediateClauses
    validateReturnItems check given m.returnClause.items
    validateSortItems check given m.orderBy
    validateOption check given m.skip
    validateOption check given m.limit
  | .create c => do
    validatePatterns check given c.patterns
    validateReturnTail check given c.tail
  | .matchCreate mc => do
    validatePatterns check given mc.patterns
    validateOption check given mc.whereClause
    validatePatterns check given mc.createPatterns
    validateReturnTail check given mc.tail
  | .matchMerge mm => do
    validatePatterns check given mm.patterns
    validateOption check given mm.whereClause
    validatePattern check given mm.mergePattern
    validateSetItems check given mm.onCreate
    validateSetItems check given mm.onMatch
    validateReturnTail check given mm.tail
  | .delete d => do
    validatePatterns check given d.patterns
    forAll (validateOptionalMatch check given) d.optionalPatterns
    validateOption check given d.whereClause
    validateExprs check given d.exprs
    validateReturnTail check given d.tail
  | .set s => do
    validatePatterns check given s.patterns
    forAll (validateOptionalMatch check given) s.optionalPatterns
    validateOption check given s.whereClause
    validateSetItems check given s.items
    validateIntermediateClauses check given s.intermediateClauses
    validateReturnTail check given s.tail
  | .remove r => do
    validatePatterns check given r.patterns
    forAll (validateOptionalMatch check given) r.optionalPatterns
    validateOption check given r.whereClause
    validateReturnTail check given r.tail
  | .merge m => do
    validatePattern check given m.pattern
    validateSetItems check given m.onCreate
    validateSetItems check given m.onMatch
    validateReturnTail check given m.tail
  | .unwind u => do
    validateExpr check given u.expr
    validateUnwindBody check given u.body
  | .return r => do
    validateReturnItems check given r.returnClause.items
    validateSortItems check given r.orderBy
    validateOption check given r.skip
    validateOption check given r.limit
  | .multiClause mc => do
    forAll (validateClause check given) mc.clauses
    validateReturnTail check given mc.tail
  | .explain inner => validateStatement inner
  | .union statements _ => validateStatements statements
  | .createIndex _ _ => .ok ()
  | .dropIndex _ _ => .ok ()
  | .call c tail => do
    validateExprs check given c.args
    validateReturnTail check given tail
termination_by structural stmt => stmt

def validateStatements : List (StatementOf S) → Result Unit
  | [] => .ok ()
  | stmt::rest => do
    validateStatement stmt
    validateStatements rest
termination_by structural statements => statements

end

end Walker

/-- The parameter check of a statement. -/
def validateParams (given : String → Bool) : (level : Nat) → StatementAt level → Result Unit
  | 0,stmt => nomatch stmt
  | level+1,stmt => validateStatement (validateParams given level) given stmt

section Collection

variable {S : Type} (sub : S → Places → List String)

mutual

/-- Parameters of an expression. -/
def paramsOfExpr : Expr S → Places → List String
  | .parameter name,places => if places=.inside then [] else [name]
  | .binaryOp left _ right,places => paramsOfExpr left places++paramsOfExpr right places
  | .not inner,places => paramsOfExpr inner places
  | .isNull inner,places => paramsOfExpr inner places
  | .isNotNull inner,places => paramsOfExpr inner places
  | .functionCall _ args _ _,places => paramsOfExprs args places
  | .case operand alternatives default,places =>
    paramsOfOption operand places++(paramsOfAlternatives alternatives places++paramsOfOption default places)
  | .list items,places => paramsOfExprs items places
  | .listComprehension _ listExpr filter mapExpr,places =>
    paramsOfExpr listExpr places++(paramsOfOption filter places++paramsOfOption mapExpr places)
  | .patternComprehension _ pattern whereClause mapExpr,places =>
    paramsOfPattern pattern places++(paramsOfOption whereClause places++paramsOfExpr mapExpr places)
  | .quantifier _ _ listExpr predicate,places => paramsOfExpr listExpr places++paramsOfExpr predicate places
  | .exists patterns whereClause,places => paramsOfPatterns patterns places++paramsOfOption whereClause places
  | .existsSubquery stmt,places => sub stmt places
  | .mapLiteral pairs,places => paramsOfProps pairs places
  | .index expr index,places => paramsOfExpr expr places++paramsOfExpr index places
  | .dotAccess expr _,places => paramsOfExpr expr places
  | .slice expr start stop,places =>
    paramsOfExpr expr places++(paramsOfOption start places++paramsOfOption stop places)
  | .patternPredicate pattern,places => if places=.outside then [] else paramsOfPattern pattern .everywhere
  | .literal _,_ => []
  | .property _ _,_ => []
  | .var _,_ => []
  | .hasLabel _ _,_ => []
  | .star,_ => []
termination_by structural expr => expr

def paramsOfExprs : List (Expr S) → Places → List String
  | [],_ => []
  | expr::rest,places => paramsOfExpr expr places++paramsOfExprs rest places
termination_by structural exprs => exprs

def paramsOfOption : Option (Expr S) → Places → List String
  | none,_ => []
  | some expr,places => paramsOfExpr expr places
termination_by structural expr => expr

def paramsOfAlternatives : List (Expr S×Expr S) → Places → List String
  | [],_ => []
  | alternative::rest,places => paramsOfAlternative alternative places++paramsOfAlternatives rest places
termination_by structural alternatives => alternatives

def paramsOfAlternative : Expr S×Expr S → Places → List String
  | (cond,result),places => paramsOfExpr cond places++paramsOfExpr result places
termination_by structural alternative => alternative

def paramsOfProps : List (String×Expr S) → Places → List String
  | [],_ => []
  | entry::rest,places => paramsOfEntry entry places++paramsOfProps rest places
termination_by structural entries => entries

def paramsOfEntry : String×Expr S → Places → List String
  | (_,expr),places => paramsOfExpr expr places
termination_by structural entry => entry

def paramsOfNode : NodePattern S → Places → List String
  | ⟨_,_,properties⟩,places => paramsOfProps properties places
termination_by structural n => n

def paramsOfRelationship : RelPattern S → Places → List String
  | ⟨_,_,properties,_,_⟩,places => paramsOfProps properties places
termination_by structural r => r

def paramsOfElement : PatternElement S → Places → List String
  | .node n,places => paramsOfNode n places
  | .relationship r,places => paramsOfRelationship r places
termination_by structural element => element

def paramsOfElements : List (PatternElement S) → Places → List String
  | [],_ => []
  | element::rest,places => paramsOfElement element places++paramsOfElements rest places
termination_by structural elements => elements

def paramsOfPattern : Pattern S → Places → List String
  | ⟨elements,_,_⟩,places => paramsOfElements elements places
termination_by structural pattern => pattern

def paramsOfPatterns : List (Pattern S) → Places → List String
  | [],_ => []
  | pattern::rest,places => paramsOfPattern pattern places++paramsOfPatterns rest places
termination_by structural patterns => patterns

end

def paramsOfOptionalMatch (om : OptionalMatch S) (places : Places) : List String :=
  paramsOfPatterns sub om.patterns places++paramsOfOption sub om.whereClause places

def paramsOfOptionalMatches (oms : List (OptionalMatch S)) (places : Places) : List String :=
  oms.flatMap fun om => paramsOfOptionalMatch sub om places

def paramsOfSetItem : SetItem (Expr S) → Places → List String
  | .property a,places => paramsOfExpr sub a.value places
  | .mapOverwrite _ value,places => paramsOfExpr sub value places
  | .mapMerge _ value,places => paramsOfExpr sub value places
  | .label _ _,_ => []

def paramsOfSetItems (items : List (SetItem (Expr S))) (places : Places) : List String :=
  items.flatMap fun item => paramsOfSetItem sub item places

def paramsOfReturnItems (items : List (ReturnItem S)) (places : Places) : List String :=
  items.flatMap fun item => paramsOfExpr sub item.expr places

def paramsOfSortItems (items : List (SortItem S)) (places : Places) : List String :=
  items.flatMap fun item => paramsOfExpr sub item.expr places

def paramsOfReturnTail (tail : ReturnTail S) (places : Places) : List String :=
  (tail.returnClause.elim [] fun rc => paramsOfReturnItems sub rc.items places)++
    (paramsOfSortItems sub tail.orderBy places++
      (paramsOfOption sub tail.skip places++paramsOfOption sub tail.limit places))

def paramsOfWith (w : WithClause S) (places : Places) : List String :=
  paramsOfReturnItems sub w.items places++(paramsOfSortItems sub w.orderBy places++
    (paramsOfOption sub w.skip places++(paramsOfOption sub w.limit places++
      paramsOfOption sub w.whereClause places)))

def paramsOfIntermediateClause : IntermediateClause S → Places → List String
  | .withClause w,places => paramsOfWith sub w places
  | .unwind u,places => paramsOfExpr sub u.expr places
  | .match m,places =>
    paramsOfPatterns sub m.patterns places++(paramsOfOptionalMatches sub m.optionalPatterns places++
      paramsOfOption sub m.whereClause places)

def paramsOfIntermediateClauses (clauses : List (IntermediateClause S)) (places : Places) : List String :=
  clauses.flatMap fun clause => paramsOfIntermediateClause sub clause places

def paramsOfClause : Clause S → Places → List String
  | .match patterns optionalPatterns whereClause,places =>
    paramsOfPatterns sub patterns places++(paramsOfOptionalMatches sub optionalPatterns places++
      paramsOfOption sub whereClause places)
  | .create patterns,places => paramsOfPatterns sub patterns places
  | .merge pattern onCreate onMatch,places =>
    paramsOfPattern sub pattern places++(paramsOfSetItems sub onCreate places++
      paramsOfSetItems sub onMatch places)
  | .withClause w,places => paramsOfWith sub w places
  | .unwind u,places => paramsOfExpr sub u.expr places
  | .set items,places => paramsOfSetItems sub items places
  | .remove _,_ => []
  | .call c,places => paramsOfExprs sub c.args places
  | .delete exprs _,places => paramsOfExprs sub exprs places

def paramsOfUnwindBody : UnwindBody S → Places → List String
  | .return whereClause intermediateClauses returnClause orderBy skip limit,places =>
    paramsOfOption sub whereClause places++(paramsOfIntermediateClauses sub intermediateClauses places++
      (paramsOfReturnItems sub returnClause.items places++(paramsOfSortItems sub orderBy places++
        (paramsOfOption sub skip places++paramsOfOption sub limit places))))
  | .create patterns intermediateClauses tail,places =>
    paramsOfPatterns sub patterns places++(paramsOfIntermediateClauses sub intermediateClauses places++
      paramsOfReturnTail sub tail places)

mutual

/-- Parameters of a statement, given those of its subqueries. -/
def paramsOfStatement : StatementOf S → Places → List String
  | .match m,places =>
    paramsOfPatterns sub m.patterns places++(paramsOfOptionalMatches sub m.optionalPatterns places++
      (paramsOfOption sub m.whereClause places++(paramsOfIntermediateClauses sub m.intermediateClauses places++
        (paramsOfReturnItems sub m.returnClause.items places++(paramsOfSortItems sub m.orderBy places++
          (paramsOfOption sub m.skip places++paramsOfOption sub m.limit places))))))
  | .create c,places => paramsOfPatterns sub c.patterns places++paramsOfReturnTail sub c.tail places
  | .matchCreate mc,places =>
    paramsOfPatterns sub mc.patterns places++(paramsOfOption sub mc.whereClause places++
      (paramsOfPatterns sub mc.createPatterns places++paramsOfReturnTail sub mc.tail places))
  | .matchMerge mm,places =>
    paramsOfPatterns sub mm.patterns places++(paramsOfOption sub mm.whereClause places++
      (paramsOfPattern sub mm.mergePattern places++(paramsOfSetItems sub mm.onCreate places++
        (paramsOfSetItems sub mm.onMatch places++paramsOfReturnTail sub mm.tail places))))
  | .delete d,places =>
    paramsOfPatterns sub d.patterns places++(paramsOfOptionalMatches sub d.optionalPatterns places++
      (paramsOfOption sub d.whereClause places++(paramsOfExprs sub d.exprs places++
        paramsOfReturnTail sub d.tail places)))
  | .set s,places =>
    paramsOfPatterns sub s.patterns places++(paramsOfOptionalMatches sub s.optionalPatterns places++
      (paramsOfOption sub s.whereClause places++(paramsOfSetItems sub s.items places++
        (paramsOfIntermediateClauses sub s.intermediateClauses places++
          paramsOfReturnTail sub s.tail places))))
  | .remove r,places =>
    paramsOfPatterns sub r.patterns places++(paramsOfOptionalMatches sub r.optionalPatterns places++
      (paramsOfOption sub r.whereClause places++paramsOfReturnTail sub r.tail places))
  | .merge m,places =>
    paramsOfPattern sub m.pattern places++(paramsOfSetItems sub m.onCreate places++
      (paramsOfSetItems sub m.onMatch places++paramsOfReturnTail sub m.tail places))
  | .unwind u,places => paramsOfExpr sub u.expr places++paramsOfUnwindBody sub u.body places
  | .return r,places =>
    paramsOfReturnItems sub r.returnClause.items places++(paramsOfSortItems sub r.orderBy places++
      (paramsOfOption sub r.skip places++paramsOfOption sub r.limit places))
  | .multiClause mc,places =>
    (mc.clauses.flatMap fun clause => paramsOfClause sub clause places)++paramsOfReturnTail sub mc.tail places
  | .explain inner,places => paramsOfStatement inner places
  | .union statements _,places => paramsOfStatements statements places
  | .createIndex _ _,_ => []
  | .dropIndex _ _,_ => []
  | .call c tail,places => paramsOfExprs sub c.args places++paramsOfReturnTail sub tail places
termination_by structural stmt => stmt

def paramsOfStatements : List (StatementOf S) → Places → List String
  | [],_ => []
  | stmt::rest,places => paramsOfStatement stmt places++paramsOfStatements rest places
termination_by structural statements => statements

end

end Collection

/-- Parameters of a statement. -/
def paramsOf : (level : Nat) → StatementAt level → Places → List String
  | 0,stmt,_ => nomatch stmt
  | level+1,stmt,places => paramsOfStatement (paramsOf level) stmt places

section Requirements

variable {given : String → Bool}

theorem requireAll_append (front back : List String) :
    requireAll given (front++back)=(requireAll given front >>= fun _ => requireAll given back) := by
  induction front with
  | nil => rfl
  | cons name rest ih =>
    rw [List.cons_append,requireAll,requireAll,ih]
    cases checkParam given name with
    | error e | ok u => rfl

theorem requireAll_ok_iff (names : List String) :
    requireAll given names=.ok () ↔ ∀ name∈names,given name=true := by
  induction names with
  | nil => simp [requireAll]
  | cons name rest ih =>
    rw [requireAll,List.forall_mem_cons,← ih,checkParam]
    split_ifs with hgiven
    · simp [hgiven,bind,Except.bind]
    · simp [hgiven,bind,Except.bind]

/-- A check requires the names outside pattern predicates, and the names everywhere are
those outside and those inside. -/
structure Checked (given : String → Bool) (outcome : Result Unit) (names : Places → List String) : Prop where
  /-- The check. -/
  requires : outcome=requireAll given (names .outside)
  /-- The names. -/
  splits : ∀ name,name∈names .everywhere ↔ name∈names .outside ∨ name∈names .inside

theorem checked_nil : Checked given (.ok ()) fun _ => [] := by
  refine ⟨rfl,?_⟩
  intro name
  simp

theorem Checked.bind {a b : Result Unit} {f g : Places → List String} (hf : Checked given a f)
    (hg : Checked given b g) : Checked given (a >>= fun _ => b) fun places => f places++g places := by
  refine ⟨?_,?_⟩
  · rw [hf.requires,hg.requires,requireAll_append]
  · intro name
    rw [List.mem_append,List.mem_append,List.mem_append,hf.splits name,hg.splits name]
    tauto

theorem checked_forAll {α : Type} {check : α → Result Unit} {f : α → Places → List String}
    (h : ∀ x,Checked given (check x) (f x)) (xs : List α) :
    Checked given (forAll check xs) fun places => xs.flatMap fun x => f x places := by
  induction xs with
  | nil => exact checked_nil
  | cons x rest ih => exact (h x).bind ih

end Requirements

section Agreement

set_option linter.unusedSectionVars false

variable {S : Type} {check : S → Result Unit} {given : String → Bool} {sub : S → Places → List String}
  (h : ∀ stmt,Checked given (check stmt) (sub stmt))

include h

mutual

/-- The check of an expression requires its parameters outside pattern predicates. -/
theorem checked_expr : ∀ expr : Expr S,Checked given (validateExpr check given expr) (paramsOfExpr sub expr)
  | .parameter name => by
    refine ⟨?_,fun other => by simp [paramsOfExpr]⟩
    rw [validateExpr,paramsOfExpr,if_neg (by simp),requireAll]
    cases checkParam given name with
    | error e | ok u => rfl
  | .binaryOp left _ right => (checked_expr left).bind (checked_expr right)
  | .not inner | .isNull inner | .isNotNull inner => checked_expr inner
  | .functionCall _ args _ _ => checked_exprs args
  | .case operand alternatives default =>
    (checked_option operand).bind ((checked_alternatives alternatives).bind (checked_option default))
  | .list items => checked_exprs items
  | .listComprehension _ listExpr filter mapExpr =>
    (checked_expr listExpr).bind ((checked_option filter).bind (checked_option mapExpr))
  | .patternComprehension _ pattern whereClause mapExpr =>
    (checked_pattern pattern).bind ((checked_option whereClause).bind (checked_expr mapExpr))
  | .quantifier _ _ listExpr predicate => (checked_expr listExpr).bind (checked_expr predicate)
  | .exists patterns whereClause => (checked_patterns patterns).bind (checked_option whereClause)
  | .existsSubquery stmt => h stmt
  | .mapLiteral pairs => checked_props pairs
  | .index expr index => (checked_expr expr).bind (checked_expr index)
  | .dotAccess expr _ => checked_expr expr
  | .slice expr start stop => (checked_expr expr).bind ((checked_option start).bind (checked_option stop))
  | .patternPredicate pattern => ⟨rfl,fun name => by simp [paramsOfExpr]⟩
  | .literal _ | .property _ _ | .var _ | .hasLabel _ _ | .star => checked_nil

theorem checked_exprs : ∀ exprs : List (Expr S),
    Checked given (validateExprs check given exprs) (paramsOfExprs sub exprs)
  | [] => checked_nil
  | expr::rest => (checked_expr expr).bind (checked_exprs rest)

theorem checked_option : ∀ expr : Option (Expr S),
    Checked given (validateOption check given expr) (paramsOfOption sub expr)
  | none => checked_nil
  | some expr => checked_expr expr

theorem checked_alternatives : ∀ alternatives : List (Expr S×Expr S),
    Checked given (validateAlternatives check given alternatives) (paramsOfAlternatives sub alternatives)
  | [] => checked_nil
  | alternative::rest => (checked_alternative alternative).bind (checked_alternatives rest)

theorem checked_alternative : ∀ alternative : Expr S×Expr S,
    Checked given (validateAlternative check given alternative) (paramsOfAlternative sub alternative)
  | (cond,result) => (checked_expr cond).bind (checked_expr result)

theorem checked_props : ∀ entries : List (String×Expr S),
    Checked given (validateProps check given entries) (paramsOfProps sub entries)
  | [] => checked_nil
  | entry::rest => (checked_entry entry).bind (checked_props rest)

theorem checked_entry : ∀ entry : String×Expr S,
    Checked given (validateEntry check given entry) (paramsOfEntry sub entry)
  | (_,expr) => checked_expr expr

theorem checked_node : ∀ n : NodePattern S,Checked given (validateNode check given n) (paramsOfNode sub n)
  | ⟨_,_,properties⟩ => checked_props properties

theorem checked_relationship : ∀ r : RelPattern S,
    Checked given (validateRelationship check given r) (paramsOfRelationship sub r)
  | ⟨_,_,properties,_,_⟩ => checked_props properties

theorem checked_element : ∀ element : PatternElement S,
    Checked given (validateElement check given element) (paramsOfElement sub element)
  | .node n => checked_node n
  | .relationship r => checked_relationship r

theorem checked_elements : ∀ elements : List (PatternElement S),
    Checked given (validateElements check given elements) (paramsOfElements sub elements)
  | [] => checked_nil
  | element::rest => (checked_element element).bind (checked_elements rest)

theorem checked_pattern : ∀ pattern : Pattern S,
    Checked given (validatePattern check given pattern) (paramsOfPattern sub pattern)
  | ⟨elements,_,_⟩ => checked_elements elements

theorem checked_patterns : ∀ patterns : List (Pattern S),
    Checked given (validatePatterns check given patterns) (paramsOfPatterns sub patterns)
  | [] => checked_nil
  | pattern::rest => (checked_pattern pattern).bind (checked_patterns rest)

end

theorem checked_optionalMatch (om : OptionalMatch S) :
    Checked given (validateOptionalMatch check given om) (paramsOfOptionalMatch sub om) :=
  (checked_patterns h om.patterns).bind (checked_option h om.whereClause)

theorem checked_optionalMatches (oms : List (OptionalMatch S)) :
    Checked given (forAll (validateOptionalMatch check given) oms) (paramsOfOptionalMatches sub oms) :=
  checked_forAll (checked_optionalMatch h) oms

theorem checked_setItem (item : SetItem (Expr S)) :
    Checked given (validateSetItem check given item) (paramsOfSetItem sub item) := by
  cases item with
  | property a => exact checked_expr h a.value
  | mapOverwrite var value | mapMerge var value => exact checked_expr h value
  | label var labels => exact checked_nil

theorem checked_setItems (items : List (SetItem (Expr S))) :
    Checked given (validateSetItems check given items) (paramsOfSetItems sub items) :=
  checked_forAll (checked_setItem h) items

theorem checked_returnItems (items : List (ReturnItem S)) :
    Checked given (validateReturnItems check given items) (paramsOfReturnItems sub items) :=
  checked_forAll (fun item : ReturnItem S => checked_expr h item.expr) items

theorem checked_sortItems (items : List (SortItem S)) :
    Checked given (validateSortItems check given items) (paramsOfSortItems sub items) :=
  checked_forAll (fun item : SortItem S => checked_expr h item.expr) items

theorem checked_returnTail (tail : ReturnTail S) :
    Checked given (validateReturnTail check given tail) (paramsOfReturnTail sub tail) := by
  have hclause : Checked given (ifSome (fun rc => validateReturnItems check given rc.items) tail.returnClause)
      fun places => tail.returnClause.elim [] fun rc => paramsOfReturnItems sub rc.items places := by
    cases tail.returnClause with
    | none => exact checked_nil
    | some rc => exact checked_returnItems h rc.items
  exact hclause.bind ((checked_sortItems h tail.orderBy).bind
    ((checked_option h tail.skip).bind (checked_option h tail.limit)))

theorem checked_with (w : WithClause S) : Checked given (validateWith check given w) (paramsOfWith sub w) :=
  (checked_returnItems h w.items).bind ((checked_sortItems h w.orderBy).bind
    ((checked_option h w.skip).bind ((checked_option h w.limit).bind (checked_option h w.whereClause))))

theorem checked_intermediateClause (clause : IntermediateClause S) :
    Checked given (validateIntermediateClause check given clause) (paramsOfIntermediateClause sub clause) := by
  cases clause with
  | withClause w => exact checked_with h w
  | unwind u => exact checked_expr h u.expr
  | «match» m =>
    exact (checked_patterns h m.patterns).bind ((checked_optionalMatches h m.optionalPatterns).bind
      (checked_option h m.whereClause))

theorem checked_intermediateClauses (clauses : List (IntermediateClause S)) :
    Checked given (validateIntermediateClauses check given clauses) (paramsOfIntermediateClauses sub clauses) :=
  checked_forAll (checked_intermediateClause h) clauses

theorem checked_clause (clause : Clause S) :
    Checked given (validateClause check given clause) (paramsOfClause sub clause) := by
  cases clause with
  | «match» patterns optionalPatterns whereClause =>
    exact (checked_patterns h patterns).bind ((checked_optionalMatches h optionalPatterns).bind
      (checked_option h whereClause))
  | create patterns => exact checked_patterns h patterns
  | merge pattern onCreate onMatch =>
    exact (checked_pattern h pattern).bind ((checked_setItems h onCreate).bind (checked_setItems h onMatch))
  | withClause w => exact checked_with h w
  | unwind u => exact checked_expr h u.expr
  | set items => exact checked_setItems h items
  | remove items => exact checked_nil
  | call c => exact checked_exprs h c.args
  | delete exprs detach => exact checked_exprs h exprs

theorem checked_unwindBody (body : UnwindBody S) :
    Checked given (validateUnwindBody check given body) (paramsOfUnwindBody sub body) := by
  cases body with
  | «return» whereClause intermediateClauses returnClause orderBy skip limit =>
    exact (checked_option h whereClause).bind ((checked_intermediateClauses h intermediateClauses).bind
      ((checked_returnItems h returnClause.items).bind ((checked_sortItems h orderBy).bind
        ((checked_option h skip).bind (checked_option h limit)))))
  | create patterns intermediateClauses tail =>
    exact (checked_patterns h patterns).bind ((checked_intermediateClauses h intermediateClauses).bind
      (checked_returnTail h tail))

mutual

/-- The check of a statement requires its parameters outside pattern predicates. -/
theorem checked_statement : ∀ stmt : StatementOf S,
    Checked given (validateStatement check given stmt) (paramsOfStatement sub stmt)
  | .match m =>
    (checked_patterns h m.patterns).bind ((checked_optionalMatches h m.optionalPatterns).bind
      ((checked_option h m.whereClause).bind ((checked_intermediateClauses h m.intermediateClauses).bind
        ((checked_returnItems h m.returnClause.items).bind ((checked_sortItems h m.orderBy).bind
          ((checked_option h m.skip).bind (checked_option h m.limit)))))))
  | .create c => (checked_patterns h c.patterns).bind (checked_returnTail h c.tail)
  | .matchCreate mc =>
    (checked_patterns h mc.patterns).bind ((checked_option h mc.whereClause).bind
      ((checked_patterns h mc.createPatterns).bind (checked_returnTail h mc.tail)))
  | .matchMerge mm =>
    (checked_patterns h mm.patterns).bind ((checked_option h mm.whereClause).bind
      ((checked_pattern h mm.mergePattern).bind ((checked_setItems h mm.onCreate).bind
        ((checked_setItems h mm.onMatch).bind (checked_returnTail h mm.tail)))))
  | .delete d =>
    (checked_patterns h d.patterns).bind ((checked_optionalMatches h d.optionalPatterns).bind
      ((checked_option h d.whereClause).bind ((checked_exprs h d.exprs).bind
        (checked_returnTail h d.tail))))
  | .set s =>
    (checked_patterns h s.patterns).bind ((checked_optionalMatches h s.optionalPatterns).bind
      ((checked_option h s.whereClause).bind ((checked_setItems h s.items).bind
        ((checked_intermediateClauses h s.intermediateClauses).bind (checked_returnTail h s.tail)))))
  | .remove r =>
    (checked_patterns h r.patterns).bind ((checked_optionalMatches h r.optionalPatterns).bind
      ((checked_option h r.whereClause).bind (checked_returnTail h r.tail)))
  | .merge m =>
    (checked_pattern h m.pattern).bind ((checked_setItems h m.onCreate).bind
      ((checked_setItems h m.onMatch).bind (checked_returnTail h m.tail)))
  | .unwind u => (checked_expr h u.expr).bind (checked_unwindBody h u.body)
  | .return r =>
    (checked_returnItems h r.returnClause.items).bind ((checked_sortItems h r.orderBy).bind
      ((checked_option h r.skip).bind (checked_option h r.limit)))
  | .multiClause mc => (checked_forAll (checked_clause h) mc.clauses).bind (checked_returnTail h mc.tail)
  | .explain inner => checked_statement inner
  | .union statements _ => checked_statements statements
  | .createIndex _ _ | .dropIndex _ _ => checked_nil
  | .call c tail => (checked_exprs h c.args).bind (checked_returnTail h tail)

theorem checked_statements : ∀ statements : List (StatementOf S),
    Checked given (validateStatements check given statements) (paramsOfStatements sub statements)
  | [] => checked_nil
  | stmt::rest => (checked_statement stmt).bind (checked_statements rest)

end

end Agreement

theorem checked_params (given : String → Bool) : ∀ (level : Nat) (stmt : StatementAt level),
    Checked given (validateParams given level stmt) (paramsOf level stmt)
  | 0,stmt => nomatch stmt
  | level+1,stmt => checked_statement (checked_params given level) stmt

section Completeness

variable {S : Type} (env : EvalEnv S)

/-- The names that a parameter map has. -/
def givenBy (params : String → Option Value) (name : String) : Bool := (params name).isSome

/-- The check accepts exactly the statements whose parameters are all given, and no
parameter of an accepted statement is missing when it is evaluated. -/
structure CompleteFor (level : Nat) (stmt : StatementAt level) : Prop where
  /-- Acceptance. -/
  accepts : validateParams (givenBy env.params) level stmt=.ok () ↔
    ∀ name∈paramsOf level stmt .everywhere,givenBy env.params name=true
  /-- Evaluation. -/
  evaluates : validateParams (givenBy env.params) level stmt=.ok () →
    ∀ name∈paramsOf level stmt .everywhere,∀ rec : NamedRecord,∃ val,evalParameter env name rec=.ok val

theorem evalParameter_ok_iff (name : String) (rec : NamedRecord) :
    (∃ val,evalParameter env name rec=.ok val) ↔ givenBy env.params name=true := by
  rw [evalParameter,givenBy]
  cases env.params name with
  | none | some val => simp

/-- The check is complete exactly when the parameters inside pattern predicates are given,
or some parameter outside is not. -/
theorem completeFor_iff (level : Nat) (stmt : StatementAt level) :
    CompleteFor env level stmt ↔
      (∀ name∈paramsOf level stmt .inside,givenBy env.params name=true) ∨
        ∃ name∈paramsOf level stmt .outside,givenBy env.params name=false := by
  have hchecked := checked_params (givenBy env.params) level stmt
  have hsplit := hchecked.splits
  have hcheck : validateParams (givenBy env.params) level stmt=.ok () ↔
      ∀ name∈paramsOf level stmt .outside,givenBy env.params name=true := by
    rw [hchecked.requires,requireAll_ok_iff]
  constructor
  · intro hcomplete
    by_cases houtside : ∀ name∈paramsOf level stmt .outside,givenBy env.params name=true
    · have hall := hcomplete.accepts.mp (hcheck.mpr houtside)
      exact Or.inl fun name hname => hall name ((hsplit name).mpr (Or.inr hname))
    · have hmissing : ∃ name∈paramsOf level stmt .outside,givenBy env.params name=false := by
        simpa using houtside
      exact Or.inr hmissing
  · intro hcase
    have haccepts : validateParams (givenBy env.params) level stmt=.ok () ↔
        ∀ name∈paramsOf level stmt .everywhere,givenBy env.params name=true := by
      rw [hcheck]
      constructor
      · intro houtside name hname
        rcases (hsplit name).mp hname with hout|hin
        · exact houtside name hout
        · rcases hcase with hinside|⟨other,hother,hmissing⟩
          · exact hinside name hin
          · exact absurd (houtside other hother) (by simp [hmissing])
      · exact fun hall name hname => hall name ((hsplit name).mpr (Or.inl hname))
    exact ⟨haccepts,fun hok name hname rec => (evalParameter_ok_iff env name rec).mpr
      (haccepts.mp hok name hname)⟩

/-- `MATCH (n) WHERE (n)-->({x: $p}) RETURN n`. -/
def predicateQuery : StatementAt 1 :=
  .match ⟨[⟨[.node ⟨some "n",[],[]⟩],none,.none⟩],[],
    some (.patternPredicate ⟨[.node ⟨some "n",[],[]⟩,.relationship ⟨none,[],[],.outgoing,none⟩,
      .node ⟨none,[],[("x",.parameter "p")]⟩],none,.none⟩),
    [],⟨[⟨.var "n",none⟩],false⟩,[],none,none⟩

/-- The query is accepted without its parameter. -/
theorem predicateQuery_incomplete : ¬CompleteFor IndexAccess.plainEval 1 predicateQuery := by
  intro hcomplete
  have hall := hcomplete.accepts.mp rfl "p" List.mem_cons_self
  exact absurd hall (by decide)

end Completeness

end GraphDbLite.ParameterCheck
