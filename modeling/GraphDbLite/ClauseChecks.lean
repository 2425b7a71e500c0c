import GraphDbLite.FreeVariables

/-!
# Variable checks of clauses

The planner checks the variables of `WHERE`, of the items of `RETURN`, of the properties
that are created and of those that are set. Some of these checks also demand a shape,
which no scope has a part in. Each check succeeds exactly when its shape is right and the
names that it looks up are in scope.
-/

namespace GraphDbLite.ClauseChecks

open GraphTypes PropertySetters CypherSyntax QueryPlan PatternPlan ParameterCheck
  FreeVariables

/-- What an item asks of a scope: a variable, or any variable at all. -/
inductive Mention where
  | named (name : String)
  | star
  deriving DecidableEq

/-- A scope has what is asked for. -/
def Found (scope : List String) : Mention → Prop
  | .named name => name∈scope
  | .star => scope≠[]

instance decidableFound (scope : List String) (mention : Mention) : Decidable (Found scope mention) :=
  match mention with
  | .named name => inferInstanceAs (Decidable (name∈scope))
  | .star => inferInstanceAs (Decidable (scope≠[]))

theorem found_named_iff {scope names : List String} :
    (∀ m∈names.map Mention.named,Found scope m) ↔ ∀ v∈names,v∈scope := List.forall_mem_map

section Predicates

variable {S : Type} (scope : List String)

/-- Reject a pattern predicate that is one bound node. -/
def rejectSelfPattern (pattern : Pattern S) : Result Unit :=
  match pattern.elements with
  | [.node n] =>
    if n.var.any (fun v => v∈scope)=true then
      .error (.query .typeError .semanticAnalysis .invalidArgumentType
        "a single node pattern is not a valid predicate")
    else .ok ()
  | _ => .ok ()

/-- Check the variables of the pattern predicates of a condition. -/
def validatePatternPredicateVars : Expr S → Result Unit
  | .patternPredicate pattern => do
    rejectSelfPattern scope pattern
    forAll (requireInScope scope) (elementVars pattern)
  | .binaryOp left _ right => do
    validatePatternPredicateVars left
    validatePatternPredicateVars right
  | .not inner => validatePatternPredicateVars inner
  | .isNull inner => validatePatternPredicateVars inner
  | .isNotNull inner => validatePatternPredicateVars inner
  | _ => .ok ()

/-- A pattern is a chain unless it is one named node. -/
def isChain (pattern : Pattern S) : Bool :=
  match pattern.elements with
  | [.node n] => n.var.isNone
  | _ => true

variable {scope}

theorem patternPredicate_ok_iff (pattern : Pattern S) :
    (do
      rejectSelfPattern scope pattern
      forAll (requireInScope scope) (elementVars pattern))=Except.ok () ↔
      isChain pattern=true ∧ ∀ v∈elementVars pattern,v∈scope := by
  have hvars : forAll (requireInScope scope) (elementVars pattern)=.ok () ↔
      ∀ v∈elementVars pattern,v∈scope := by
    rw [forAll_ok_iff]
    exact forall₂_congr fun v _ => requireInScope_ok_iff scope v
  rw [both_ok_iff,hvars]
  refine and_congr_left fun hscope => ?_
  rcases pattern with ⟨elements,pathVar,mode⟩
  match elements with
  | [] | [.relationship r] | first::second::rest => simp [rejectSelfPattern,isChain]
  | [.node n] =>
    cases hn : n.var with
    | none => simp [rejectSelfPattern,isChain,hn]
    | some v =>
      have hv : v∈scope := hscope v (by simp [elementVars,elementVar,hn])
      simp [rejectSelfPattern,isChain,hn,hv]

/-- The check of a condition accepts when it accepts every pattern predicate that it
reaches. -/
theorem validatePatternPredicateVars_each (expr : Expr S) :
    validatePatternPredicateVars scope expr=.ok () ↔ ∀ pattern∈reachedPredicates expr,
      isChain pattern=true ∧ ∀ v∈elementVars pattern,v∈scope := by
  induction expr using reachedPredicates.induct with
  | case1 pattern =>
    rw [validatePatternPredicateVars,patternPredicate_ok_iff,reachedPredicates,List.forall_mem_singleton]
  | case2 left op right ihleft ihright =>
    rw [validatePatternPredicateVars,both_ok_iff,reachedPredicates,List.forall_mem_append]
    exact and_congr ihleft ihright
  | case3 inner ih | case4 inner ih | case5 inner ih => exact ih
  | case6 expr hpredicate hbinary hnot hnull hnotNull =>
    rw [reachedPredicates.eq_6 expr hpredicate hbinary hnot hnull hnotNull,
      validatePatternPredicateVars.eq_6 scope expr hpredicate hbinary hnot hnull hnotNull]
    simp

/-- The pattern predicates of a condition are accepted when they are chains of variables in
scope. -/
theorem validatePatternPredicateVars_ok_iff (expr : Expr S) :
    validatePatternPredicateVars scope expr=.ok () ↔
      (∀ pattern∈reachedPredicates expr,isChain pattern=true) ∧ ∀ v∈predicateVars expr,v∈scope := by
  have hflat : (∀ v∈predicateVars expr,v∈scope) ↔
      ∀ pattern∈reachedPredicates expr,∀ v∈elementVars pattern,v∈scope := List.forall_mem_flatMap
  rw [validatePatternPredicateVars_each,hflat,←forall₂_and]

end Predicates

section Items

variable {S : Type} (sub : S → List String) (scope : List String)

/-- Whether an item is `*`. -/
def isStar : Expr S → Bool
  | .star => true
  | _ => false

/-- Check the variables of an item of a `RETURN`. -/
def validateReturnItem (item : ReturnItem S) : Result Unit :=
  if isStar item.expr=true then
    if scope=[] then
      .error (.query .syntaxError .parse .other
        "RETURN * is not allowed when there are no variables in scope")
    else .ok ()
  else checkExprVariables scope item.expr

/-- Check the variables of the items of a `RETURN`. -/
def validateReturnVariables (items : List (ReturnItem S)) : Result Unit :=
  forAll (validateReturnItem scope) items

/-- What an item asks for, given variables of its expression. -/
def itemMentions (vars : Expr S → List String) (item : ReturnItem S) : List Mention :=
  if isStar item.expr=true then [.star] else (vars item.expr).map .named

theorem itemMentions_mono {looked needed : Expr S → List String}
    (h : ∀ expr,∀ v∈looked expr,v∈needed expr) (item : ReturnItem S) :
    ∀ m∈itemMentions looked item,m∈itemMentions needed item := by
  rw [itemMentions,itemMentions]
  by_cases hstar : isStar item.expr=true
  · rw [if_pos hstar,if_pos hstar]
    exact fun m hm => hm
  · rw [if_neg hstar,if_neg hstar]
    exact List.map_subset _ (h item.expr)

variable {scope}

/-- An item is accepted when what it asks for, as far as the check looks, is in scope. -/
theorem validateReturnItem_ok_iff (item : ReturnItem S) :
    validateReturnItem scope item=.ok () ↔ ∀ m∈itemMentions checkedVars item,Found scope m := by
  rw [validateReturnItem,itemMentions]
  by_cases hstar : isStar item.expr=true
  · rw [if_pos hstar,if_pos hstar,List.forall_mem_singleton]
    by_cases hscope : scope=[]
    · simp [hscope,Found]
    · simp [hscope,Found]
  · rw [if_neg hstar,if_neg hstar,checkExprVariables_ok_iff,found_named_iff]

end Items

section Created

variable {S : Type}

/-- Expressions of the properties of an element. -/
def elementProps : PatternElement S → List (Expr S)
  | .node n => n.properties.map Prod.snd
  | .relationship r => r.properties.map Prod.snd

/-- Expressions of the properties of patterns. -/
def patternProps (patterns : List (Pattern S)) : List (Expr S) :=
  patterns.flatMap fun pattern => pattern.elements.flatMap elementProps

/-- Reject a relationship without exactly one type. -/
def requireOneType (place : String) (relTypes : List String) : Result Unit :=
  if relTypes.length=1 then .ok ()
  else .error (.query .syntaxError .parse .noSingleRelationshipType
    ("a relationship must have exactly one type in "++place))

/-- Reject a relationship without a direction. -/
def requireDirected (direction : RelDirection) : Result Unit :=
  if direction=.undirected then
    .error (.query .syntaxError .parse .requiresDirectedRelationship
      "only directed relationships are supported in CREATE")
  else .ok ()

/-- Demand what `CREATE` needs of a relationship. -/
def validateCreateShape : PatternElement S → Result Unit
  | .node _ => .ok ()
  | .relationship r => do
    requireOneType "CREATE" r.relTypes
    requireDirected r.direction

/-- Check an element that is created. -/
def validateCreateElement (scope : List String) (element : PatternElement S) : Result Unit := do
  validateCreateShape element
  forAll (checkExprVariables scope) (elementProps element)

/-- Check elements that are created; each one is in scope of those after it. -/
def validateCreateElements : List String → List (PatternElement S) → Result Unit
  | _,[] => .ok ()
  | scope,element::rest => do
    validateCreateElement scope element
    validateCreateElements ((elementVar element).toList++scope) rest

/-- Check patterns that are created. -/
def validateCreatePatterns (patterns : List (Pattern S)) (scope : List String) : Result Unit :=
  validateCreateElements scope (patterns.flatMap fun pattern => pattern.elements)

/-- The properties of an element are accepted when their variables are in scope. -/
theorem validateCreateElement_ok_iff (scope : List String) (element : PatternElement S) :
    validateCreateElement scope element=.ok () ↔ validateCreateShape element=.ok () ∧
      ∀ expr∈elementProps element,∀ v∈checkedVars expr,v∈scope := by
  rw [validateCreateElement,both_ok_iff,forAll_ok_iff]
  exact and_congr_right fun _ => forall₂_congr fun expr _ => checkExprVariables_ok_iff expr

end Created

section Merged

variable {S : Type}

/-- Demand what `MERGE` needs of a relationship. -/
def validateMergeShape : PatternElement S → Result Unit
  | .node _ => .ok ()
  | .relationship r => requireOneType "MERGE" r.relTypes

/-- Check the variables of an assignment. -/
def validateAssigned (scope : List String) : SetItem (Expr S) → Result Unit
  | .property a => do
    requireInScope scope a.var
    checkExprVariables scope a.value
  | .label var _ => requireInScope scope var
  | .mapOverwrite var value => do
    requireInScope scope var
    checkExprVariables scope value
  | .mapMerge var value => do
    requireInScope scope var
    checkExprVariables scope value

/-- Check a merged pattern and its assignments. -/
def validateMergePattern (pattern : Pattern S) (scope : List String)
    (onCreate onMatch : List (SetItem (Expr S))) : Result Unit := do
  forAll validateMergeShape pattern.elements
  forAll (validateAssigned (scope++elementVars pattern)) (onCreate++onMatch)

mutual

/-- Reject a pattern predicate outside of `WHERE`. -/
def rejectPatternPredicates : Expr S → Result Unit
  | .patternPredicate _ =>
    .error (.query .syntaxError .parse .unexpectedSyntax "pattern expressions are not allowed here")
  | .functionCall _ args _ _ => rejectInExprs args
  | .binaryOp left _ right => do
    rejectPatternPredicates left
    rejectPatternPredicates right
  | .not inner => rejectPatternPredicates inner
  | .isNull inner => rejectPatternPredicates inner
  | .isNotNull inner => rejectPatternPredicates inner
  | .list items => rejectInExprs items
  | .index expr index => do
    rejectPatternPredicates expr
    rejectPatternPredicates index
  | .dotAccess expr _ => rejectPatternPredicates expr
  | .case operand alternatives default => do
    rejectInOption operand
    rejectInAlternatives alternatives
    rejectInOption default
  | _ => .ok ()
termination_by structural expr => expr

def rejectInExprs : List (Expr S) → Result Unit
  | [] => .ok ()
  | expr::rest => do
    rejectPatternPredicates expr
    rejectInExprs rest
termination_by structural exprs => exprs

def rejectInOption : Option (Expr S) → Result Unit
  | none => .ok ()
  | some expr => rejectPatternPredicates expr
termination_by structural expr => expr

def rejectInAlternatives : List (Expr S×Expr S) → Result Unit
  | [] => .ok ()
  | alternative::rest => do
    rejectInAlternative alternative
    rejectInAlternatives rest
termination_by structural alternatives => alternatives

def rejectInAlternative : Expr S×Expr S → Result Unit
  | (cond,result) => do
    rejectPatternPredicates cond
    rejectPatternPredicates result
termination_by structural alternative => alternative

end

/-- Demand what `SET` needs of an assigned value. -/
def validateSetShape : SetItem (Expr S) → Result Unit
  | .property a => rejectPatternPredicates a.value
  | .label _ _ => .ok ()
  | .mapOverwrite _ _ => .ok ()
  | .mapMerge _ _ => .ok ()

/-- Check an assignment of a `SET`. -/
def validateSetVariable (scope : List String) (item : SetItem (Expr S)) : Result Unit := do
  validateAssigned scope item
  validateSetShape item

/-- Check the assignments of a `SET`. -/
def validateSetVariables (items : List (SetItem (Expr S))) (scope : List String) : Result Unit :=
  forAll (validateSetVariable scope) items

/-- Variables that an assignment mentions, given those of its value. -/
def assignedVars (vars : Expr S → List String) : SetItem (Expr S) → List String
  | .property a => a.var::vars a.value
  | .label var _ => [var]
  | .mapOverwrite var value => var::vars value
  | .mapMerge var value => var::vars value

theorem assignedVars_mono {looked needed : Expr S → List String}
    (h : ∀ expr,∀ v∈looked expr,v∈needed expr) (item : SetItem (Expr S)) :
    ∀ v∈assignedVars looked item,v∈assignedVars needed item := by
  cases item with
  | property a => exact List.cons_subset_cons _ (h a.value)
  | label var labels => exact fun v hv => hv
  | mapOverwrite var value | mapMerge var value => exact List.cons_subset_cons _ (h value)

theorem target_ok_iff {scope : List String} (var : String) (value : Expr S) :
    (do
      requireInScope scope var
      checkExprVariables scope value)=Except.ok () ↔ ∀ v∈var::checkedVars value,v∈scope := by
  rw [both_ok_iff,requireInScope_ok_iff,checkExprVariables_ok_iff,List.forall_mem_cons]

theorem validateAssigned_ok_iff (scope : List String) (item : SetItem (Expr S)) :
    validateAssigned scope item=.ok () ↔ ∀ v∈assignedVars checkedVars item,v∈scope := by
  cases item with
  | property a => exact target_ok_iff a.var a.value
  | label var labels =>
    rw [validateAssigned,assignedVars,requireInScope_ok_iff,List.forall_mem_singleton]
  | mapOverwrite var value | mapMerge var value => exact target_ok_iff var value

/-- The assignments of a `SET` are accepted when their variables are in scope and no value
holds a pattern predicate. -/
theorem validateSetVariables_ok_iff (items : List (SetItem (Expr S))) (scope : List String) :
    validateSetVariables items scope=.ok () ↔ (∀ item∈items,validateSetShape item=.ok ()) ∧
      ∀ item∈items,∀ v∈assignedVars checkedVars item,v∈scope := by
  rw [validateSetVariables,forAll_ok_iff,←forall₂_and]
  refine forall₂_congr fun item _ => ?_
  rw [validateSetVariable,both_ok_iff,validateAssigned_ok_iff,and_comm]

/-- A merged pattern is accepted when its relationships have one type and the variables of
its assignments are in scope. -/
theorem validateMergePattern_ok_iff (pattern : Pattern S) (scope : List String)
    (onCreate onMatch : List (SetItem (Expr S))) :
    validateMergePattern pattern scope onCreate onMatch=.ok () ↔
      (∀ element∈pattern.elements,validateMergeShape element=.ok ()) ∧
        ∀ item∈onCreate++onMatch,∀ v∈assignedVars checkedVars item,v∈scope++elementVars pattern := by
  rw [validateMergePattern,both_ok_iff,forAll_ok_iff,forAll_ok_iff]
  exact and_congr_right fun _ => forall₂_congr fun item _ => validateAssigned_ok_iff _ item

end Merged

end GraphDbLite.ClauseChecks
