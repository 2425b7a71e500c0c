import GraphDbLite.Aggregation
import GraphDbLite.ClauseChecks
import GraphDbLite.ScopeChecks

/-!
# The static scope check

Planning follows the variables in scope from clause to clause, and checks expressions
against them. It does so for the condition of the first `MATCH`, for the items of the
`RETURN`, and for what is created and set. It does not enter every part of an expression,
does not check the other conditions and properties at all, and its scopes are not always
those of the language: a `WITH *` brings back the variables of the first `MATCH`, and
drops what came after it. The check is exact unless it misses or refuses a variable.
-/

namespace GraphDbLite.StatementScopes

open GraphTypes WriteOperators PropertySetters CypherSyntax QueryPlan PatternPlan ParameterCheck
  StatementSyntax FreeVariables ClauseChecks ScopeChecks

section Tracking

variable {S : Type}

/-- Variables of optional matches. -/
def optionalVariables (oms : List (OptionalMatch S)) : List String :=
  oms.flatMap fun om => collectPatternVariables om.patterns

/-- Name under which an item of a `WITH` is tracked: its alias, or its variable. -/
def aliasOrVariable (item : ReturnItem S) : Option String :=
  match item.columnAlias,item.expr with
  | some name,_ => some name
  | none,.var name => some name
  | _,_ => none

/-- Name of the column of an item of a `WITH`. -/
def columnName (item : ReturnItem S) : Option String :=
  match item.columnAlias,item.expr with
  | some name,_ => some name
  | none,.var name => some name
  | none,.property var prop => some (var++("."++prop))
  | _,_ => none

/-- Scope tracked after the items of a `WITH`; a `*` starts again from kept variables. -/
def trackItems (kept : List String) (nameOf : ReturnItem S → Option String)
    (items : List (ReturnItem S)) : List String :=
  items.foldl (fun scope item =>
    if isStar item.expr=true then kept else (nameOf item).toList++scope) []

/-- Variables of the first clause and of its optional matches. -/
def boundVars (m : MatchStatement S) : List String :=
  m.optionalPatterns.foldl (fun bound om => bound++optionalAliases om.patterns bound)
    (collectPatternVariables m.patterns)

/-- Scope tracked after a clause of a `MATCH` statement. -/
def trackIntermediate (bound scope : List String) : IntermediateClause S → List String
  | .withClause w => trackItems bound aliasOrVariable w.items
  | .unwind u => u.itemAlias::scope
  | .match im => scope++(collectPatternVariables im.patterns++optionalVariables im.optionalPatterns)

/-- Scope tracked when the `RETURN` of a `MATCH` statement is reached. -/
def trackedAtReturn (m : MatchStatement S) : List String :=
  m.intermediateClauses.foldl (trackIntermediate (boundVars m)) (boundVars m)

/-- Check the condition of the first clause. -/
def checkWhere (subquery : Bool) (bound : List String) (predicate : Expr S) : Result Unit := do
  checkExprVariables bound predicate
  if subquery=true then .ok () else validatePatternPredicateVars bound predicate

/-- The scope checks of a `MATCH` statement. -/
def planMatch (subquery : Bool) (m : MatchStatement S) : Result Unit := do
  ifSome (checkWhere subquery (boundVars m)) m.whereClause
  validateReturnVariables (trackedAtReturn m) m.returnClause.items

/-- Names that a `CALL` binds; none without `YIELD`, and none that are known for `YIELD *`. -/
def yieldedNames (c : CallClause S) : List String :=
  if c.yieldStar=true then [] else (c.yieldItems.getD []).map fun entry => entry.2.getD entry.1

/-- Scope tracked after a clause of a statement of several clauses. -/
def trackClause (scope : List String) : Clause S → List String
  | .match patterns optionalPatterns _ =>
    scope++(collectPatternVariables patterns++optionalVariables optionalPatterns)
  | .create patterns => scope++collectPatternVariables patterns
  | .merge pattern _ _ => scope++patternVariables pattern
  | .withClause w => trackItems scope columnName w.items
  | .unwind u => u.itemAlias::scope
  | .set _ => scope
  | .remove _ => scope
  | .call c => yieldedNames c++scope
  | .delete _ _ => scope

/-- The scope checks of a clause. -/
def checkClause (scope : List String) : Clause S → Result Unit
  | .create patterns => validateCreatePatterns patterns scope
  | .merge pattern onCreate onMatch => validateMergePattern pattern scope onCreate onMatch
  | .set items => validateSetVariables items scope
  | _ => .ok ()

/-- The scope checks of clauses in order. -/
def checkClauses : List String → List (Clause S) → Result Unit
  | _,[] => .ok ()
  | scope,clause::rest => do
    checkClause scope clause
    checkClauses (trackClause scope clause) rest

/-- The scope check of a `RETURN` after several clauses. -/
def checkTail (scope : List String) (rc : ReturnClause S) : Result Unit :=
  if scope=[] then .ok () else validateReturnVariables scope rc.items

/-- The scope checks of a statement of several clauses. -/
def planMultiClause (mc : MultiClauseStatement S) : Result Unit := do
  checkClauses [] mc.clauses
  ifSome (checkTail (mc.clauses.foldl trackClause [])) mc.tail.returnClause

/-- Statements whose scopes are followed: those of a `MATCH`, also in a subquery, and those
of several clauses. -/
inductive Planned (S : Type) where
  | matched (subquery : Bool) (m : MatchStatement S)
  | clauses (mc : MultiClauseStatement S)

/-- The scope checks of a statement. -/
def planScopes : Planned S → Result Unit
  | .matched subquery m => planMatch subquery m
  | .clauses mc => planMultiClause mc

end Tracking

section Language

variable {S : Type} (columns : String → List String)

/-- Scope after the items of a `WITH`: exactly the items, and with `*` also what was in
scope. -/
def scopeOfItems (scope : List String) (items : List (ReturnItem S)) : List String :=
  items.flatMap fun item => if isStar item.expr=true then scope else (columnName item).toList

/-- Scope of the condition of a `WITH`: its items, and what was in scope unless rows are
merged. -/
def scopeOfCondition (scope : List String) (w : WithClause S) : List String :=
  if w.distinct || w.items.any (fun item => Aggregation.isAggregateFn item.expr) then
    scopeOfItems scope w.items
  else scopeOfItems scope w.items++scope

/-- Scope after a clause of a `MATCH` statement. -/
def scopeAfterIntermediate (scope : List String) : IntermediateClause S → List String
  | .withClause w => scopeOfItems scope w.items
  | .unwind u => u.itemAlias::scope
  | .match im => scope++(collectPatternVariables im.patterns++optionalVariables im.optionalPatterns)

/-- Names that a `CALL` brings into scope, given the columns of each procedure. -/
def yieldScope (c : CallClause S) : List String :=
  if c.yieldStar=true then columns c.procedureName
  else (c.yieldItems.getD []).map fun entry => entry.2.getD entry.1

/-- Scope after a clause of a statement of several clauses. -/
def scopeAfter (scope : List String) : Clause S → List String
  | .match patterns optionalPatterns _ =>
    scope++(collectPatternVariables patterns++optionalVariables optionalPatterns)
  | .create patterns => scope++collectPatternVariables patterns
  | .merge pattern _ _ => scope++patternVariables pattern
  | .withClause w => scopeOfItems scope w.items
  | .unwind u => u.itemAlias::scope
  | .set _ => scope
  | .remove _ => scope
  | .call c => yieldScope columns c++scope
  | .delete _ _ => scope

end Language

section Places

variable {S : Type} (columns : String → List String) (sub : S → List String)

/-- Places with the mentions that they need. -/
abbrev ScopePlace := Place Mention (List String)

/-- A place that is not checked. -/
def unchecked (needed : List Mention) (scope : List String) : ScopePlace :=
  ⟨needed,[],[],scope,fun _ href => absurd href List.not_mem_nil⟩

/-- An expression that is not checked. -/
def uncheckedExpr (scope : List String) (expr : Expr S) : ScopePlace :=
  unchecked ((freeVars sub expr).map .named) scope

/-- An expression whose variables are checked. -/
def checkedExpr (tracked scope : List String) (expr : Expr S) : ScopePlace :=
  ⟨(freeVars sub expr).map .named,(checkedVars expr).map .named,tracked,scope,
    List.map_subset _ (checkedVars_free sub expr)⟩

/-- Variables that the check of a condition looks at. -/
def conditionVars (subquery : Bool) (expr : Expr S) : List String :=
  checkedVars expr++if subquery=true then [] else predicateVars expr

theorem conditionVars_free (subquery : Bool) (expr : Expr S) :
    ∀ v∈conditionVars subquery expr,v∈freeVars sub expr := by
  intro v hv
  rcases List.mem_append.mp hv with hchecked|hpredicate
  · exact checkedVars_free sub expr v hchecked
  · cases subquery with
    | true => exact absurd hpredicate List.not_mem_nil
    | false => exact predicateVars_free sub expr v hpredicate

/-- The condition of the first clause. -/
def checkedCondition (subquery : Bool) (tracked scope : List String) (expr : Expr S) : ScopePlace :=
  ⟨(freeVars sub expr).map .named,(conditionVars subquery expr).map .named,tracked,scope,
    List.map_subset _ (conditionVars_free sub subquery expr)⟩

/-- An item of a `RETURN`. -/
def returnedItem (tracked scope : List String) (item : ReturnItem S) : ScopePlace :=
  ⟨itemMentions (freeVars sub) item,itemMentions checkedVars item,tracked,scope,
    itemMentions_mono (checkedVars_free sub) item⟩

/-- An assignment. -/
def assignedItem (tracked scope : List String) (item : SetItem (Expr S)) : ScopePlace :=
  ⟨(assignedVars (freeVars sub) item).map .named,(assignedVars checkedVars item).map .named,tracked,scope,
    List.map_subset _ (assignedVars_mono (checkedVars_free sub) item)⟩

/-- Optional matches: their properties and conditions. -/
def optionalPlaces : List String → List (OptionalMatch S) → List ScopePlace
  | _,[] => []
  | scope,om::rest =>
    let after := scope++collectPatternVariables om.patterns
    (patternProps om.patterns++om.whereClause.toList).map (uncheckedExpr sub after)++
      optionalPlaces after rest

/-- A `MATCH` after the first clause: its properties and conditions. -/
def matchPlaces (scope : List String) (patterns : List (Pattern S))
    (optionalPatterns : List (OptionalMatch S)) (whereClause : Option (Expr S)) : List ScopePlace :=
  let after := scope++collectPatternVariables patterns
  (patternProps patterns++whereClause.toList).map (uncheckedExpr sub after)++
    optionalPlaces sub after optionalPatterns

/-- The condition of a `WITH`. -/
def withPlaces (scope : List String) (w : WithClause S) : List ScopePlace :=
  w.whereClause.toList.map (uncheckedExpr sub (scopeOfCondition scope w))

/-- A clause of a `MATCH` statement. -/
def intermediatePlaces (scope : List String) : IntermediateClause S → List ScopePlace
  | .withClause w => withPlaces sub scope w
  | .unwind _ => []
  | .match im => matchPlaces sub scope im.patterns im.optionalPatterns im.whereClause

/-- Clauses of a `MATCH` statement. -/
def intermediatesPlaces : List String → List (IntermediateClause S) → List ScopePlace
  | _,[] => []
  | scope,clause::rest =>
    intermediatePlaces sub scope clause++intermediatesPlaces (scopeAfterIntermediate scope clause) rest

/-- A `MATCH` statement: properties, conditions and returned items. The outer variables are
those that a subquery sees. -/
def placesOfMatch (subquery : Bool) (outer : List String) (m : MatchStatement S) : List ScopePlace :=
  let first := outer++collectPatternVariables m.patterns
  let start := first++optionalVariables m.optionalPatterns
  (patternProps m.patterns).map (uncheckedExpr sub first)++
    (m.whereClause.toList.map (checkedCondition sub subquery (boundVars m) first)++
      (optionalPlaces sub first m.optionalPatterns++
        (intermediatesPlaces sub start m.intermediateClauses++
          m.returnClause.items.map (returnedItem sub (trackedAtReturn m)
            (m.intermediateClauses.foldl scopeAfterIntermediate start)))))

/-- Elements that are created; each one is in scope of those after it. -/
def createdPlaces : List String → List String → List (PatternElement S) → List ScopePlace
  | _,_,[] => []
  | tracked,scope,element::rest =>
    (elementProps element).map (checkedExpr sub tracked scope)++
      createdPlaces ((elementVar element).toList++tracked) ((elementVar element).toList++scope) rest

/-- A clause of a statement of several clauses. -/
def clausePlaces (tracked scope : List String) : Clause S → List ScopePlace
  | .match patterns optionalPatterns whereClause => matchPlaces sub scope patterns optionalPatterns whereClause
  | .create patterns => createdPlaces sub tracked scope (patterns.flatMap fun pattern => pattern.elements)
  | .merge pattern onCreate onMatch =>
    (patternProps [pattern]).map (uncheckedExpr sub scope)++
      (onCreate++onMatch).map (assignedItem sub (tracked++elementVars pattern) (scope++patternVariables pattern))
  | .withClause w => withPlaces sub scope w
  | .set items => items.map (assignedItem sub tracked scope)
  | .unwind _ => []
  | .remove _ => []
  | .call _ => []
  | .delete _ _ => []

/-- Clauses of a statement. -/
def clausesPlaces : List String → List String → List (Clause S) → List ScopePlace
  | _,_,[] => []
  | tracked,scope,clause::rest =>
    clausePlaces sub tracked scope clause++
      clausesPlaces (trackClause tracked clause) (scopeAfter columns scope clause) rest

/-- The items of a `RETURN` after several clauses; they are not checked when no variable is
tracked. -/
def tailPlaces (tracked scope : List String) (rc : ReturnClause S) : List ScopePlace :=
  if tracked=[] then rc.items.map fun item => unchecked (itemMentions (freeVars sub) item) scope
  else rc.items.map (returnedItem sub tracked scope)

/-- A statement of several clauses. -/
def placesOfClauses (outer : List String) (mc : MultiClauseStatement S) : List ScopePlace :=
  clausesPlaces columns sub [] outer mc.clauses++
    mc.tail.returnClause.toList.flatMap (tailPlaces sub (mc.clauses.foldl trackClause [])
      (mc.clauses.foldl (scopeAfter columns) outer))

/-- The places of a statement. -/
def placesOf (outer : List String) : Planned S → List ScopePlace
  | .matched subquery m => placesOfMatch sub subquery outer m
  | .clauses mc => placesOfClauses columns sub outer mc

end Places

section Shapes

variable {S : Type}

/-- What a clause demands apart from its variables. -/
def clauseShape : Clause S → Prop
  | .create patterns => ∀ element∈patterns.flatMap fun pattern => pattern.elements,validateCreateShape element=.ok ()
  | .merge pattern _ _ => ∀ element∈pattern.elements,validateMergeShape element=.ok ()
  | .set items => ∀ item∈items,validateSetShape item=.ok ()
  | _ => True

/-- What a statement demands apart from its variables: chains in the pattern predicates of
the first condition, one type and a direction for what is created, one type for what is
merged, and no pattern predicates in what is set. -/
def WellShaped : Planned S → Prop
  | .matched subquery m =>
    subquery=false → ∀ predicate∈m.whereClause.toList,∀ pattern∈reachedPredicates predicate,isChain pattern=true
  | .clauses mc => ∀ clause∈mc.clauses,clauseShape clause

end Shapes

section Acceptance

variable {S : Type} {columns : String → List String} {sub : S → List String}

theorem uncheckedExpr_unlooked (scope : List String) (exprs : List (Expr S)) :
    ∀ p∈exprs.map (uncheckedExpr sub scope),p.looked=[] :=
  List.forall_mem_map.mpr fun _ _ => rfl

theorem optionalPlaces_unlooked (scope : List String) (oms : List (OptionalMatch S)) :
    ∀ p∈optionalPlaces sub scope oms,p.looked=[] := by
  induction oms generalizing scope with
  | nil => exact fun p hp => absurd hp List.not_mem_nil
  | cons om rest ih => exact List.forall_mem_append.mpr ⟨uncheckedExpr_unlooked _ _,ih _⟩

theorem matchPlaces_unlooked (scope : List String) (patterns : List (Pattern S))
    (optionalPatterns : List (OptionalMatch S)) (whereClause : Option (Expr S)) :
    ∀ p∈matchPlaces sub scope patterns optionalPatterns whereClause,p.looked=[] :=
  List.forall_mem_append.mpr ⟨uncheckedExpr_unlooked _ _,optionalPlaces_unlooked _ _⟩

theorem intermediatesPlaces_unlooked (scope : List String) (clauses : List (IntermediateClause S)) :
    ∀ p∈intermediatesPlaces sub scope clauses,p.looked=[] := by
  induction clauses generalizing scope with
  | nil => exact fun p hp => absurd hp List.not_mem_nil
  | cons clause rest ih =>
    have hclause : ∀ p∈intermediatePlaces sub scope clause,p.looked=[] := by
      cases clause with
      | withClause w => exact uncheckedExpr_unlooked _ _
      | unwind u => exact fun p hp => absurd hp List.not_mem_nil
      | «match» im => exact matchPlaces_unlooked _ _ _ _
    exact List.forall_mem_append.mpr ⟨hclause,ih _⟩

theorem ifSome_ok_iff {α : Type} (check : α → Result Unit) (part : Option α) :
    ifSome check part=.ok () ↔ ∀ x∈part.toList,check x=.ok () := by
  cases part with
  | none | some x => simp [ifSome]

/-- The condition of the first clause is accepted when its pattern predicates are chains and
the variables that the check looks at are in scope. -/
theorem checkWhere_ok_iff (subquery : Bool) (bound : List String) (predicate : Expr S) :
    checkWhere subquery bound predicate=.ok () ↔
      (subquery=false → ∀ pattern∈reachedPredicates predicate,isChain pattern=true) ∧
        ∀ v∈conditionVars subquery predicate,v∈bound := by
  rw [checkWhere,both_ok_iff,checkExprVariables_ok_iff,conditionVars,List.forall_mem_append]
  cases subquery with
  | true => simp
  | false =>
    rw [if_neg Bool.false_ne_true,if_neg Bool.false_ne_true,validatePatternPredicateVars_ok_iff]
    tauto

theorem validateReturnVariables_ok_iff (tracked scope : List String) (items : List (ReturnItem S)) :
    validateReturnVariables tracked items=.ok () ↔
      Passed Found (items.map (returnedItem sub tracked scope)) := by
  rw [validateReturnVariables,forAll_ok_iff,Passed,List.forall_mem_map]
  exact forall₂_congr fun item _ => validateReturnItem_ok_iff item

/-- A `MATCH` statement is accepted when it is well shaped and its places pass. -/
theorem planMatch_ok_iff (subquery : Bool) (outer : List String) (m : MatchStatement S) :
    planMatch subquery m=.ok () ↔
      WellShaped (.matched subquery m) ∧ Passed Found (placesOfMatch sub subquery outer m) := by
  have hwhere (scope : List String) : ifSome (checkWhere subquery (boundVars m)) m.whereClause=.ok () ↔
      WellShaped (.matched subquery m) ∧
        Passed Found (m.whereClause.toList.map (checkedCondition sub subquery (boundVars m) scope)) := by
    rw [ifSome_ok_iff,Passed,List.forall_mem_map,WellShaped]
    have hlooked (predicate : Expr S) :
        (∀ ref∈(checkedCondition sub subquery (boundVars m) scope predicate).looked,
          Found (checkedCondition sub subquery (boundVars m) scope predicate).tracked ref) ↔
        ∀ v∈conditionVars subquery predicate,v∈boundVars m := found_named_iff
    simp only [checkWhere_ok_iff,hlooked]
    constructor
    · intro h
      exact ⟨fun hsub predicate hp => (h predicate hp).1 hsub,fun predicate hp => (h predicate hp).2⟩
    · intro h predicate hp
      exact ⟨fun hsub => h.1 hsub predicate hp,h.2 predicate hp⟩
  rw [planMatch,both_ok_iff,placesOfMatch,passed_append,passed_append,passed_append,passed_append]
  have hprops (scope : List String) :
      Passed Found ((patternProps m.patterns).map (uncheckedExpr sub scope)) :=
    passed_of_unlooked (uncheckedExpr_unlooked _ _)
  have hoptional (scope : List String) : Passed Found (optionalPlaces sub scope m.optionalPatterns) :=
    passed_of_unlooked (optionalPlaces_unlooked _ _)
  have hclauses (scope : List String) :
      Passed Found (intermediatesPlaces sub scope m.intermediateClauses) :=
    passed_of_unlooked (intermediatesPlaces_unlooked _ _)
  simp only [hprops,hoptional,hclauses,true_and]
  rw [←and_assoc]
  exact and_congr (hwhere _) (validateReturnVariables_ok_iff _ _ _)

/-- Created elements are accepted when they are well shaped and their places pass. -/
theorem validateCreateElements_ok_iff (elements : List (PatternElement S)) (tracked scope : List String) :
    validateCreateElements tracked elements=.ok () ↔
      (∀ element∈elements,validateCreateShape element=.ok ()) ∧
        Passed Found (createdPlaces sub tracked scope elements) := by
  induction elements generalizing tracked scope with
  | nil => simp [validateCreateElements,createdPlaces,passed_nil]
  | cons element rest ih =>
    have hprops : Passed Found ((elementProps element).map (checkedExpr sub tracked scope)) ↔
        ∀ expr∈elementProps element,∀ v∈checkedVars expr,v∈tracked := by
      rw [Passed,List.forall_mem_map]
      exact forall₂_congr fun expr _ => found_named_iff
    rw [validateCreateElements,both_ok_iff,validateCreateElement_ok_iff,createdPlaces,passed_append,hprops,
      List.forall_mem_cons,ih _ ((elementVar element).toList++scope)]
    tauto

theorem passed_assigned (tracked scope : List String) (items : List (SetItem (Expr S))) :
    Passed Found (items.map (assignedItem sub tracked scope)) ↔
      ∀ item∈items,∀ v∈assignedVars checkedVars item,v∈tracked := by
  rw [Passed,List.forall_mem_map]
  exact forall₂_congr fun item _ => found_named_iff

theorem checkClause_ok_iff (tracked scope : List String) (clause : Clause S) :
    checkClause tracked clause=.ok () ↔
      clauseShape clause ∧ Passed Found (clausePlaces sub tracked scope clause) := by
  have hok {places : List ScopePlace} (h : ∀ p∈places,p.looked=[]) :
      (Except.ok () : Result Unit)=.ok () ↔ True ∧ Passed Found places :=
    iff_of_true rfl ⟨trivial,passed_of_unlooked h⟩
  have hnone : ∀ p∈([] : List ScopePlace),p.looked=[] := fun p hp => absurd hp List.not_mem_nil
  cases clause with
  | «match» patterns optionalPatterns whereClause => exact hok (matchPlaces_unlooked _ _ _ _)
  | create patterns => exact validateCreateElements_ok_iff _ tracked scope
  | merge pattern onCreate onMatch =>
    have hprops : Passed Found ((patternProps [pattern]).map (uncheckedExpr sub scope)) :=
      passed_of_unlooked (uncheckedExpr_unlooked _ _)
    rw [checkClause,validateMergePattern_ok_iff,clausePlaces,passed_append,passed_assigned,clauseShape]
    tauto
  | withClause w => exact hok (uncheckedExpr_unlooked _ _)
  | unwind u => exact hok hnone
  | set items => rw [checkClause,validateSetVariables_ok_iff,clausePlaces,passed_assigned,clauseShape]
  | remove items | call c | delete exprs detach => exact hok hnone

theorem checkClauses_ok_iff (columns : String → List String) (sub : S → List String)
    (clauses : List (Clause S)) (tracked scope : List String) :
    checkClauses tracked clauses=.ok () ↔ (∀ clause∈clauses,clauseShape clause) ∧
      Passed Found (clausesPlaces columns sub tracked scope clauses) := by
  induction clauses generalizing tracked scope with
  | nil => simp [checkClauses,clausesPlaces,passed_nil]
  | cons clause rest ih =>
    rw [checkClauses,both_ok_iff,checkClause_ok_iff tracked scope clause,
      ih _ (scopeAfter columns scope clause),clausesPlaces,passed_append,List.forall_mem_cons]
    tauto

theorem checkTail_ok_iff (tracked scope : List String) (rc : ReturnClause S) :
    checkTail tracked rc=.ok () ↔ Passed Found (tailPlaces sub tracked scope rc) := by
  rw [checkTail,tailPlaces]
  by_cases htracked : tracked=[]
  · rw [if_pos htracked,if_pos htracked]
    have hunlooked : ∀ p∈rc.items.map fun item => unchecked (itemMentions (freeVars sub) item) scope,
        p.looked=[] := List.forall_mem_map.mpr fun _ _ => rfl
    exact iff_of_true rfl (passed_of_unlooked hunlooked)
  · rw [if_neg htracked,if_neg htracked]
    exact validateReturnVariables_ok_iff tracked scope rc.items

/-- A statement of several clauses is accepted when it is well shaped and its places pass. -/
theorem planMultiClause_ok_iff (outer : List String) (mc : MultiClauseStatement S) :
    planMultiClause mc=.ok () ↔
      WellShaped (.clauses mc) ∧ Passed Found (placesOfClauses columns sub outer mc) := by
  have htail (tracked scope : List String) : ifSome (checkTail tracked) mc.tail.returnClause=.ok () ↔
      Passed Found (mc.tail.returnClause.toList.flatMap (tailPlaces sub tracked scope)) := by
    cases mc.tail.returnClause with
    | none => exact iff_of_true rfl passed_nil
    | some rc =>
      have hflat : (some rc).toList.flatMap (tailPlaces sub tracked scope)=tailPlaces sub tracked scope rc :=
        List.flatMap_singleton _ _
      rw [hflat]
      exact checkTail_ok_iff tracked scope rc
  rw [planMultiClause,both_ok_iff,checkClauses_ok_iff columns sub mc.clauses [] outer,
    htail _ (mc.clauses.foldl (scopeAfter columns) outer),placesOfClauses,passed_append,WellShaped,and_assoc]

theorem planScopes_ok_iff (outer : List String) (p : Planned S) :
    planScopes p=.ok () ↔ WellShaped p ∧ Passed Found (placesOf columns sub outer p) := by
  cases p with
  | matched subquery m => exact planMatch_ok_iff subquery outer m
  | clauses mc => exact planMultiClause_ok_iff outer mc

end Acceptance

section Exactness

variable {S : Type} (columns : String → List String) (sub : S → List String)

/-- The check is exact: a well-shaped statement is accepted just when all variables that it
needs are in scope, and then a row with the variables in scope has all of them. -/
structure Exact (outer : List String) (p : Planned S) : Prop where
  /-- Acceptance. -/
  accepts : planScopes p=.ok () ↔ WellShaped p ∧ Scoped Found (placesOf columns sub outer p)
  /-- Evaluation. -/
  binds : planScopes p=.ok () → ∀ q∈placesOf columns sub outer p,∀ rec : NamedRecord,
    (∀ v∈q.scope,(rec.get v).isSome=true) → ∀ v,.named v∈q.needed → (rec.get v).isSome=true

/-- `MATCH (n) UNWIND [1] AS x WITH * RETURN x`. -/
def starQuery : Planned Empty :=
  .matched false ⟨[⟨[.node ⟨some "n",[],[]⟩],none,.none⟩],[],none,
    [.unwind ⟨.list [.literal (.i64 1)],"x"⟩,
      .withClause ⟨[⟨.star,none⟩],false,[],none,none,none⟩],
    ⟨[⟨.var "x",none⟩],false⟩,[],none,none⟩

end Exactness

end GraphDbLite.StatementScopes
