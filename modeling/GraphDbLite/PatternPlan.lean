import GraphDbLite.IndexChoice

/-!
# Planning patterns

A pattern is planned from left to right: the first node becomes a scan or an index
lookup, every relationship an expansion followed by filters for the labels and inline
properties of the node it reaches and for its own properties. Elements without a
variable get a numbered one. The patterns of a clause are ordered by their estimated
rows and joined from left to right, under the bindings of the left side when they
share a variable and independently otherwise.
-/

namespace GraphDbLite.PatternPlan

open GraphTypes GraphStore CypherSyntax QueryPlan IndexChoice

variable {S : Type}

/-- A plan that is built, with the names given to the elements and the next number. -/
structure PlanState (S : Type) where
  /-- The plan of the elements read so far. -/
  op : Option (LogicalOp S)
  /-- Variables of the elements by their position. -/
  elementAliases : List (Nat×String)
  /-- Next number of an element without a variable. -/
  counter : Nat

/-- The variable of an element, or a numbered one. -/
def nameOr (var : Option String) (start : String) (counter : Nat) : String×Nat :=
  match var with
  | some name => (name,counter)
  | none => (start++toString counter,counter+1)

/-- The variable of the node that a plan reaches last. -/
def getLastAlias : LogicalOp S → String
  | .scan _ nodeAlias => nodeAlias
  | .indexLookup _ nodeAlias _ _ _ => nodeAlias
  | .expand _ spec => spec.dstAlias
  | .filter input _ => getLastAlias input
  | _ => "_unknown"
termination_by structural plan => plan

/-- The expansion of a relationship. -/
def expandSpec (rel : RelPattern S) (srcAlias dstAlias relAlias : String) : ExpandSpec S where
  srcAlias := srcAlias
  dstAlias := dstAlias
  relAlias := some relAlias
  edgeTypes := rel.relTypes
  direction := rel.direction.follow
  minHops := (rel.varLength.getD (1,1)).1
  maxHops := (rel.varLength.getD (1,1)).2
  varLength := rel.varLength.isSome
  varLengthPropFilters := if rel.varLength.isSome=true then rel.properties else []
  resultCap := none

/-- Tests on the node and the relationship of an expansion; the properties of a
variable-length relationship are checked at its hops. -/
def expandFilters (rel : RelPattern S) (dst : NodePattern S) (dstAlias relAlias : String) :
    List (Expr S) :=
  (dst.labels.filter fun label => label ≠ "").map (labelFilter dstAlias)++
    ((propertiesToFilter dstAlias dst.properties).toList++
      if rel.varLength.isNone=true then (propertiesToFilter relAlias rel.properties).toList else [])

/-- The name of a relationship: its variable, else one by its place in a named path or
by number. -/
def relationshipName (rel : RelPattern S) (named : Bool) (place counter : Nat) : String×Nat :=
  if named=true then (rel.var.getD ("_path_rel_"++toString place),counter)
  else nameOr rel.var "_anon_rel_" counter

/-- Plan the elements of a pattern from a place on. -/
def planElements (st : Store) (named : Bool) :
    List (PatternElement S) → Nat → PlanState S → Result (PlanState S)
  | [],_,s => .ok s
  | .node node::rest,place,s =>
    match s.op with
    | some _ => planElements st named rest (place+1) s
    | none =>
      let name := nameOr node.var "_anon_" s.counter
      planElements st named rest (place+1)
        ⟨some (planNodeScan st node name.1),s.elementAliases++[(place,name.1)],name.2⟩
  | .relationship rel::.node dst::rest,place,s =>
    match s.op with
    | none => .error (.semantic "pattern must start with a node")
    | some input =>
      let dstName := nameOr dst.var "_anon_" s.counter
      let relName := relationshipName rel named place dstName.2
      planElements st named rest (place+2)
        ⟨some (withFilters (expandFilters rel dst dstName.1 relName.1)
            (.expand input (expandSpec rel (getLastAlias input) dstName.1 relName.1))),
          s.elementAliases++[(place+1,dstName.1),(place,relName.1)],relName.2⟩
  | .relationship _::_,_,_ => .error (.semantic "relationship must be followed by a node pattern")

/-- The name of an element of a named path: the one it was planned with, else its
variable, else one by its place. -/
def elementAlias (elementAliases : List (Nat×String)) (place : Nat) (var : Option String)
    (start : String) : String :=
  (((elementAliases.find? fun entry => entry.1=place).map Prod.snd).or var).getD (start++toString place)

/-- Names of the nodes of a pattern. -/
def nodeAliases (elementAliases : List (Nat×String)) (elements : List (PatternElement S)) : List String :=
  elements.zipIdx.filterMap fun entry =>
    match entry.1 with
    | .node n => some (elementAlias elementAliases entry.2 n.var "_anon_")
    | .relationship _ => none

/-- Names of the relationships of a pattern. -/
def relAliases (elementAliases : List (Nat×String)) (elements : List (PatternElement S)) : List String :=
  elements.zipIdx.filterMap fun entry =>
    match entry.1 with
    | .node _ => none
    | .relationship r => some (elementAlias elementAliases entry.2 r.var "_path_rel_")

/-- Plan one pattern, with the next free number. -/
def planSinglePattern (st : Store) (pattern : Pattern S) (counter : Nat) : Result (LogicalOp S×Nat) := do
  let s ← planElements st pattern.pathVar.isSome pattern.elements 0 ⟨none,[],counter⟩
  match s.op with
  | none => .error (.semantic "empty pattern")
  | some op =>
    match pattern.pathVar with
    | none => pure (op,s.counter)
    | some pathVar =>
      pure (.rows (.materializePath pathVar (nodeAliases s.elementAliases pattern.elements)
        (relAliases s.elementAliases pattern.elements)) op,s.counter)

/-- The variable of an element. -/
def elementVar : PatternElement S → Option String
  | .node n => n.var
  | .relationship r => r.var

/-- Variables of a pattern: of its path and of its elements. -/
def patternVariables (pattern : Pattern S) : List String :=
  pattern.pathVar.toList++pattern.elements.filterMap elementVar

/-- Variables of patterns. -/
def collectPatternVariables (patterns : List (Pattern S)) : List String :=
  patterns.flatMap patternVariables

/-- Join a further pattern: under the bindings of the left side when a variable is
shared, independently otherwise. -/
def joinPattern (left right : LogicalOp S) (shared : Bool) : LogicalOp S :=
  if shared=true then .correlatedJoin left right true else .crossProduct left right true

/-- Plan patterns in the given order after a plan that binds some variables. -/
def planRegular (st : Store) : List (Pattern S) → Option (LogicalOp S) → List String → Nat →
    Result (Option (LogicalOp S)×Nat)
  | [],op,_,counter => .ok (op,counter)
  | pattern::rest,op,bound,counter => do
    let right ← planSinglePattern st pattern counter
    let vars := patternVariables pattern
    let shared := vars.any fun v => bound.contains v
    planRegular st rest
      (some (match op with
        | none => right.1
        | some left => joinPattern left right.1 shared)) (bound++vars) right.2

/-- Estimated rows of a pattern with the next free number; planning failures come
last. -/
def patternCost (st : Store) (estimate : LogicalOp S → Nat) (pattern : Pattern S) (counter : Nat) :
    Nat×Nat :=
  match planSinglePattern st pattern counter with
  | .ok (plan,next) => (estimate plan,next)
  | .error _ => (2^64,counter)

/-- Patterns with their estimated rows. -/
def patternCosts (st : Store) (estimate : LogicalOp S → Nat) :
    List (Pattern S) → Nat → List (Pattern S×Nat)×Nat
  | [],counter => ([],counter)
  | pattern::rest,counter =>
    let cost := patternCost st estimate pattern counter
    let more := patternCosts st estimate rest cost.2
    ((pattern,cost.1)::more.1,more.2)

/-- Patterns by their estimated rows, in written order where these are equal. -/
def reorderPatterns (st : Store) (estimate : LogicalOp S → Nat) (patterns : List (Pattern S))
    (counter : Nat) : List (Pattern S)×Nat :=
  if patterns.length≤1 then (patterns,counter)
  else
    let costs := patternCosts st estimate patterns counter
    ((costs.1.insertionSort fun a b => a.2≤b.2).map Prod.fst,costs.2)

/-- Plan a shortest-path pattern over a plan or over the scans of its ends. -/
def planShortestPathPattern (st : Store) (pattern : Pattern S) (existing : Option (LogicalOp S)) :
    Result (LogicalOp S) :=
  match pattern.elements with
  | [.node src,.relationship rel,.node dst] =>
    let srcAlias := src.var.getD "_sp_src"
    let dstAlias := dst.var.getD "_sp_dst"
    let input := existing.getD
      (.crossProduct (planNodeScan st src srcAlias) (planNodeScan st dst dstAlias) false)
    .ok (.rows (.shortestPath srcAlias dstAlias (pattern.pathVar.getD "_path") rel.relTypes.head?
      rel.direction.follow (rel.varLength.getD (1,4294967295)).2
      (pattern.shortestPathMode=.all)) input)
  | [.relationship _,_,_] => .error (.semantic "shortestPath pattern must start with a node")
  | [.node _,.node _,_] => .error (.semantic "shortestPath pattern must have a relationship")
  | [.node _,.relationship _,.relationship _] =>
    .error (.semantic "shortestPath pattern must end with a node")
  | _ => .error (.semantic "shortestPath pattern must be (a)-[*..N]->(b)")

/-- Plan shortest-path patterns one after another. -/
def planShortest (st : Store) : List (Pattern S) → Option (LogicalOp S) → Result (Option (LogicalOp S))
  | [],op => .ok op
  | pattern::rest,op => do
    let plan ← planShortestPathPattern st pattern op
    planShortest st rest (some plan)

/-- Plan the patterns of a clause. -/
def planPatterns (st : Store) (estimate : LogicalOp S → Nat) (patterns : List (Pattern S))
    (counter : Nat) : Result (LogicalOp S×Nat) :=
  if patterns.isEmpty=true then .ok (.emptyRow,counter)
  else do
    let regular := patterns.filter fun p => p.shortestPathMode=.none
    let shortest := patterns.filter fun p => p.shortestPathMode≠.none
    let ordered := reorderPatterns st estimate regular counter
    let joined ← planRegular st ordered.1 none [] ordered.2
    match ← planShortest st shortest joined.1 with
    | some plan => pure (plan,joined.2)
    | none => .error (.semantic "empty patterns")

/-- Add a variable that is neither bound nor listed. -/
def addAlias (bound aliases : List String) (var : String) : List String :=
  if var∈bound ∨ var∈aliases then aliases else aliases++[var]

/-- Variables that optional patterns introduce. -/
def optionalAliases (patterns : List (Pattern S)) (bound : List String) : List String :=
  (collectPatternVariables patterns).foldl (addAlias bound) []

/-- Plan an OPTIONAL MATCH: its patterns, the variables it introduces and its
filter. -/
def planOptionalMatch (st : Store) (estimate : LogicalOp S → Nat) (patterns : List (Pattern S))
    (whereClause : Option (Expr S)) (bound : List String) (counter : Nat) :
    Result (LogicalOp S×List String×Option (Expr S)) := do
  let planned ← planPatterns st estimate patterns counter
  pure (planned.1,optionalAliases patterns bound,whereClause)

/-- A list of new variables holds the ones that are neither bound nor listed before. -/
theorem mem_foldl_addAlias {bound vars aliases : List String} {v : String} :
    v∈vars.foldl (addAlias bound) aliases ↔ v∈aliases ∨ (v∈vars ∧ v∉bound) := by
  induction vars generalizing aliases with
  | nil => simp
  | cons w rest ih =>
    rw [List.foldl_cons,ih,List.mem_cons]
    unfold addAlias
    by_cases hskip : w∈bound ∨ w∈aliases
    · rw [if_pos hskip]
      constructor
      · intro h
        exact h.imp_right fun hr => ⟨Or.inr hr.1,hr.2⟩
      · intro h
        cases h with
        | inl ha => exact Or.inl ha
        | inr hr =>
          cases hr.1 with
          | inr hin => exact Or.inr ⟨hin,hr.2⟩
          | inl heq =>
            rw [heq] at hr ⊢
            exact Or.inl (hskip.resolve_left hr.2)
    · rw [if_neg hskip,List.mem_append,List.mem_singleton]
      have hnot := not_or.mp hskip
      constructor
      · intro h
        cases h with
        | inl ha =>
          cases ha with
          | inl hin => exact Or.inl hin
          | inr heq =>
            rw [heq]
            exact Or.inr ⟨Or.inl rfl,hnot.1⟩
        | inr hr => exact Or.inr ⟨Or.inr hr.1,hr.2⟩
      · intro h
        cases h with
        | inl hin => exact Or.inl (Or.inl hin)
        | inr hr =>
          cases hr.1 with
          | inl heq => exact Or.inl (Or.inr heq)
          | inr hin => exact Or.inr ⟨hin,hr.2⟩

/-- An optional match introduces the variables of its patterns that are not bound. -/
theorem mem_optionalAliases {patterns : List (Pattern S)} {bound : List String} {v : String} :
    v∈optionalAliases patterns bound ↔ v∈collectPatternVariables patterns ∧ v∉bound := by
  unfold optionalAliases
  rw [mem_foldl_addAlias]
  simp

end GraphDbLite.PatternPlan
