import GraphDbLite.IndexAccess

/-!
# Choosing an index

The planner turns equalities with literals and parameters into the keys of an
index lookup. Among the indexes of the label it takes the one whose leading
columns are covered longest. An inline node pattern gives a lookup with the other
properties as residual filter; a WHERE clause gives a lookup below a filter with
the conjuncts that the lookup did not take.
-/

namespace GraphDbLite.IndexChoice

open GraphTypes OrderedTable StatefulActions GraphStore NodeStorage SecondaryIndex
open WriteOperators CypherSyntax CypherValues CypherEval QueryPlan FallibleLists QueryExecutor
open NodeRecords IndexAccess

variable {S : Type}

/-- The key of an expression that an index can look up. -/
def lookupKeyOf : Expr S → Option LookupKey
  | .literal l => some (.literal l)
  | .parameter name => some (.param name)
  | _ => none

/-- Equalities that inline properties give. -/
def equalityPreds (properties : List (String×Expr S)) : List (String×LookupKey) :=
  properties.filterMap fun entry => (lookupKeyOf entry.2).map fun key => (entry.1,key)

/-- The key an equality requires of a property. -/
def keyFor (preds : List (String×LookupKey)) (p : String) : Option LookupKey :=
  (preds.find? fun entry => entry.1=p).map Prod.snd

/-- Leading columns covered by equalities. -/
def coveredColumns (preds : List (String×LookupKey)) (properties : List String) : List String :=
  properties.takeWhile fun p => (keyFor preds p).isSome

/-- The better of two candidates: more covered columns, then fewer columns, then
the smaller name. -/
def preferIndex (current candidate : IndexInfo×Nat) : IndexInfo×Nat :=
  if current.2<candidate.2 then candidate
  else if candidate.2<current.2 then current
  else if candidate.1.properties.length<current.1.properties.length then candidate
  else if current.1.properties.length<candidate.1.properties.length then current
  else if String.intercalate "," candidate.1.properties<String.intercalate "," current.1.properties then
    candidate
  else current

/-- Take one more candidate into account. -/
def pickStep (preds : List (String×LookupKey)) (best : Option (IndexInfo×Nat)) (info : IndexInfo) :
    Option (IndexInfo×Nat) :=
  let k := (coveredColumns preds info.properties).length
  if k=0 then best
  else
    match best with
    | none => some (info,k)
    | some current => some (preferIndex current (info,k))

/-- The index with the longest covered prefix. -/
def pickIndexForEqualityPreds (candidates : List IndexInfo) (preds : List (String×LookupKey)) :
    Option (IndexInfo×Nat) := candidates.foldl (pickStep preds) none

/-- Keys of the covered columns, in column order. -/
def lookupsFor (preds : List (String×LookupKey)) (columns : List String) : List (String×LookupKey) :=
  columns.filterMap fun p => (keyFor preds p).map fun key => (p,key)

/-- Conjunction of expressions; there is none of no expressions. -/
def rebuildConjunction : List (Expr S) → Option (Expr S)
  | [] => none
  | first::rest => some (rest.foldl (fun acc c => .binaryOp acc .and c) first)

/-- Equality of a property with an inline value. -/
def propertyEquality (var : String) (entry : String×Expr S) : Expr S :=
  .binaryOp (.property var entry.1) .eq entry.2

/-- Conjunction of the equalities of inline properties. -/
def propertiesToFilter (var : String) (properties : List (String×Expr S)) : Option (Expr S) :=
  rebuildConjunction (properties.map (propertyEquality var))

/-- Test for a further label. -/
def labelFilter (var label : String) : Expr S :=
  .binaryOp (.literal (.string label)) .in (.property var "__labels")

/-- Put a filter on a plan for each predicate. -/
def withFilters (predicates : List (Expr S)) (plan : LogicalOp S) : LogicalOp S :=
  predicates.foldl LogicalOp.filter plan

/-- First label of a node pattern; empty when there is none. -/
def scanLabel (node : NodePattern S) : String := node.labels.head?.getD ""

/-- Tests that a label scan of a pattern needs. -/
def scanFilters (node : NodePattern S) (nodeAlias : String) : List (Expr S) :=
  node.labels.tail.map (labelFilter nodeAlias)++(propertiesToFilter nodeAlias node.properties).toList

/-- Inline properties that an index lookup leaves to a filter. -/
def remainingProperties (used : List String) (properties : List (String×Expr S)) :
    List (String×Expr S) :=
  properties.filter fun entry => (lookupKeyOf entry.2).isNone || entry.1∉used

/-- The lookup of a pattern through an index of which the first columns are covered. -/
def inlineLookup (node : NodePattern S) (nodeAlias : String) (info : IndexInfo) (k : Nat) :
    LogicalOp S :=
  .indexLookup (scanLabel node) nodeAlias info.properties
    (lookupsFor (equalityPreds node.properties) (info.properties.take k))
    (propertiesToFilter nodeAlias (remainingProperties (info.properties.take k) node.properties))

/-- The index chosen for a node pattern. -/
def chosenIndex (indexes : List IndexInfo) (node : NodePattern S) : Option (IndexInfo×Nat) :=
  if node.properties.isEmpty=true ∨ scanLabel node = "" then none
  else pickIndexForEqualityPreds indexes (equalityPreds node.properties)

/-- Plan of a node pattern when the given indexes are declared on its first label. -/
def planNodeScanWith (indexes : List IndexInfo) (node : NodePattern S) (nodeAlias : String) :
    LogicalOp S :=
  match chosenIndex indexes node with
  | some (info,k) => inlineLookup node nodeAlias info k
  | none => withFilters (scanFilters node nodeAlias) (.scan (scanLabel node) nodeAlias)

/-- Plan of a node pattern. -/
def planNodeScan (st : Store) (node : NodePattern S) (nodeAlias : String) : LogicalOp S :=
  planNodeScanWith (listIndexesForLabel st (scanLabel node)) node nodeAlias

/-- Conjuncts of a predicate. -/
def decomposeConjuncts : Expr S → List (Expr S)
  | .binaryOp left .and right => decomposeConjuncts left++decomposeConjuncts right
  | expr => [expr]
termination_by structural expr => expr

/-- Variable, property and key of an equality that an index can look up. -/
def extractEqPropertyPredicate : Expr S → Option (String×String×LookupKey)
  | .binaryOp (.property a p) .eq (.literal l) => some (a,p,.literal l)
  | .binaryOp (.literal l) .eq (.property a p) => some (a,p,.literal l)
  | .binaryOp (.property a p) .eq (.parameter name) => some (a,p,.param name)
  | .binaryOp (.parameter name) .eq (.property a p) => some (a,p,.param name)
  | _ => none

/-- Equality of keys; numbers compare as numbers. -/
def sameKey : LookupKey → LookupKey → Bool
  | .literal (.f64 a),.literal (.f64 b) => f64Eq a b
  | a,b => a=b

/-- Equalities of the conjuncts on one variable, and the properties that carry two
different ones. -/
structure Candidates where
  /-- Keys by property. -/
  keys : List (String×LookupKey)
  /-- Properties with contradictory keys. -/
  conflicted : List String

/-- Take one equality into account. -/
def Candidates.add (c : Candidates) (prop : String) (key : LookupKey) : Candidates :=
  match keyFor c.keys prop with
  | some present =>
    if sameKey present key=true then
      {c with keys := c.keys.map fun entry => if entry.1=prop then (prop,key) else entry}
    else {c with conflicted := prop::c.conflicted}
  | none => {c with keys := c.keys++[(prop,key)]}

/-- Equalities on a variable among conjuncts. -/
def collectCandidates (nodeAlias : String) (conjuncts : List (Expr S)) : Candidates :=
  conjuncts.foldl (fun c conj =>
    match extractEqPropertyPredicate conj with
    | some (a,prop,key) => if a=nodeAlias then c.add prop key else c
    | none => c) ⟨[],[]⟩

/-- Equalities on a variable that an index may look up. -/
def indexCandidates (nodeAlias : String) (conjuncts : List (Expr S)) : List (String×LookupKey) :=
  let c := collectCandidates nodeAlias conjuncts
  c.keys.filter fun entry => entry.1∉c.conflicted

/-- Replace the scan of a variable by an index lookup; also the properties used. -/
def tryReplaceScanMulti (st : Store) (nodeAlias : String) (candidates : List (String×LookupKey)) :
    LogicalOp S → Option (LogicalOp S×List String)
  | .scan label scanAlias =>
    if candidates.isEmpty=true ∨ scanAlias≠nodeAlias ∨ label = "" then none
    else
      (pickIndexForEqualityPreds (listIndexesForLabel st label) candidates).map fun choice =>
        (.indexLookup label nodeAlias choice.1.properties
          (lookupsFor candidates (choice.1.properties.take choice.2)) none,
          choice.1.properties.take choice.2)
  | .filter input predicate =>
    (tryReplaceScanMulti st nodeAlias candidates input).map fun replaced =>
      (.filter replaced.1 predicate,replaced.2)
  | .expand input spec =>
    (tryReplaceScanMulti st nodeAlias candidates input).map fun replaced =>
      (.expand replaced.1 spec,replaced.2)
  | .crossProduct left right sameMatch =>
    match tryReplaceScanMulti st nodeAlias candidates left with
    | some replaced => some (.crossProduct replaced.1 right sameMatch,replaced.2)
    | none =>
      (tryReplaceScanMulti st nodeAlias candidates right).map fun replaced =>
        (.crossProduct left replaced.1 sameMatch,replaced.2)
  | _ => none
termination_by structural plan => plan

/-- Variables with equalities, in increasing order. -/
def candidateAliases (conjuncts : List (Expr S)) : List String :=
  (conjuncts.filterMap fun conj => (extractEqPropertyPredicate conj).map Prod.fst).dedup.insertionSort
    (· ≤ ·)

/-- Replace the scan of one more variable. -/
def replaceStep (st : Store) (conjuncts : List (Expr S))
    (acc : LogicalOp S×List (String×String)) (nodeAlias : String) : LogicalOp S×List (String×String) :=
  match tryReplaceScanMulti st nodeAlias (indexCandidates nodeAlias conjuncts) acc.1 with
  | some (plan,used) => (plan,acc.2++used.map fun p => (nodeAlias,p))
  | none => acc

/-- Whether a lookup took a conjunct. -/
def isConsumed (consumed : List (String×String)) (conj : Expr S) : Bool :=
  match extractEqPropertyPredicate conj with
  | some (a,prop,_) => decide ((a,prop)∈consumed)
  | none => false

/-- Put the conjuncts that no lookup took on a plan. -/
def withConjuncts (conjuncts : List (Expr S)) (plan : LogicalOp S) : LogicalOp S :=
  withFilters (rebuildConjunction conjuncts).toList plan

/-- Plan of a WHERE clause over the plan of the patterns. -/
def planWhere (st : Store) (predicate : Expr S) (plan : LogicalOp S) : LogicalOp S :=
  let conjuncts := decomposeConjuncts predicate
  let replaced := (candidateAliases conjuncts).foldl (replaceStep st conjuncts) (plan,[])
  withConjuncts (conjuncts.filter fun conj => !isConsumed replaced.2 conj) replaced.1

/-- What is known of a candidate taken so far. -/
def Picked (candidates : List IndexInfo) (preds : List (String×LookupKey)) (choice : IndexInfo×Nat) :
    Prop :=
  choice.1∈candidates ∧ choice.2=(coveredColumns preds choice.1.properties).length ∧ 0<choice.2

theorem preferIndex_eq (current candidate : IndexInfo×Nat) :
    preferIndex current candidate=current ∨ preferIndex current candidate=candidate := by
  unfold preferIndex
  split_ifs <;> simp

theorem pickIndexForEqualityPreds_spec {candidates : List IndexInfo}
    {preds : List (String×LookupKey)} {choice : IndexInfo×Nat}
    (h : pickIndexForEqualityPreds candidates preds=some choice) : Picked candidates preds choice := by
  have hfold : ∀ (rest : List IndexInfo) (best : Option (IndexInfo×Nat)),
      (∀ info∈rest,info∈candidates) → (∀ c,best=some c → Picked candidates preds c) →
      ∀ c,rest.foldl (pickStep preds) best=some c → Picked candidates preds c := by
    intro rest
    induction rest with
    | nil =>
      intro best _ hbest c hc
      exact hbest c hc
    | cons info rest ih =>
      intro best hin hbest c hc
      have hinfo := hin info List.mem_cons_self
      have hstep : ∀ c,pickStep preds best info=some c → Picked candidates preds c := by
        intro c hc
        unfold pickStep at hc
        dsimp only at hc
        by_cases hk : (coveredColumns preds info.properties).length=0
        · rw [if_pos hk] at hc
          exact hbest c hc
        · rw [if_neg hk] at hc
          have hnew : Picked candidates preds (info,(coveredColumns preds info.properties).length) :=
            ⟨hinfo,rfl,by omega⟩
          cases best with
          | none =>
            rw [←Option.some.inj hc]
            exact hnew
          | some current =>
            rw [←Option.some.inj hc]
            cases preferIndex_eq current (info,(coveredColumns preds info.properties).length) with
            | inl hleft =>
              rw [hleft]
              exact hbest current rfl
            | inr hright =>
              rw [hright]
              exact hnew
      exact ih _ (fun i hi => hin i (List.mem_cons_of_mem info hi)) hstep c hc
  exact hfold candidates none (fun _ hi => hi) (fun _ hnone => absurd hnone (by simp)) choice h

theorem Picked.take_eq {candidates : List IndexInfo} {preds : List (String×LookupKey)}
    {choice : IndexInfo×Nat} (h : Picked candidates preds choice) :
    choice.1.properties.take choice.2=coveredColumns preds choice.1.properties := by
  rw [h.2.1]
  unfold coveredColumns
  have hsplit : (choice.1.properties.takeWhile fun p => (keyFor preds p).isSome)++
      (choice.1.properties.dropWhile fun p => (keyFor preds p).isSome)=choice.1.properties :=
    List.takeWhile_append_dropWhile
  calc choice.1.properties.take (choice.1.properties.takeWhile _).length
      =((choice.1.properties.takeWhile fun p => (keyFor preds p).isSome)++
        (choice.1.properties.dropWhile fun p => (keyFor preds p).isSome)).take
          (choice.1.properties.takeWhile fun p => (keyFor preds p).isSome).length := by rw [hsplit]
    _=choice.1.properties.takeWhile fun p => (keyFor preds p).isSome := List.take_left

theorem Picked.covered {candidates : List IndexInfo} {preds : List (String×LookupKey)}
    {choice : IndexInfo×Nat} (h : Picked candidates preds choice) {p : String}
    (hp : p∈choice.1.properties.take choice.2) : ∃ key,keyFor preds p=some key := by
  rw [h.take_eq] at hp
  have hsome := List.mem_takeWhile_imp hp
  exact Option.isSome_iff_exists.mp hsome

theorem lookupsFor_fst {preds : List (String×LookupKey)} {columns : List String}
    (h : ∀ p∈columns,∃ key,keyFor preds p=some key) :
    (lookupsFor preds columns).map Prod.fst=columns := by
  unfold lookupsFor
  induction columns with
  | nil => rfl
  | cons p rest ih =>
    have ⟨key,hkey⟩ := h p List.mem_cons_self
    have hrest := ih fun q hq => h q (List.mem_cons_of_mem p hq)
    rw [List.filterMap_cons,hkey]
    dsimp only [Option.map_some]
    rw [List.map_cons,hrest]

theorem mem_lookupsFor {preds : List (String×LookupKey)} {columns : List String}
    {entry : String×LookupKey} :
    entry∈lookupsFor preds columns ↔ entry.1∈columns ∧ keyFor preds entry.1=some entry.2 := by
  unfold lookupsFor
  rw [List.mem_filterMap]
  constructor
  · intro h
    have ⟨p,hp,hmap⟩ := h
    have ⟨key,hkey,heq⟩ := Option.map_eq_some_iff.mp hmap
    rw [←heq]
    exact ⟨hp,hkey⟩
  · intro h
    refine ⟨entry.1,h.1,?_⟩
    rw [h.2]
    rfl

theorem usable_of_picked {st : Store} (hnames : WellNamed st) {label : String}
    {preds : List (String×LookupKey)} {choice : IndexInfo×Nat}
    (h : Picked (listIndexesForLabel st label) preds choice) :
    Usable st label choice.1.properties (lookupsFor preds (choice.1.properties.take choice.2)) where
  defined := ((mem_listIndexesForLabel hnames).mp h.1).2.1
  exists_ := ((mem_listIndexesForLabel hnames).mp h.1).2.2
  leading := by
    refine ⟨choice.1.properties.drop choice.2,?_⟩
    rw [lookupsFor_fst fun p hp => h.covered hp,List.take_append_drop]

section Conjunctions

variable {env : EvalEnv S} {st : Store} {rec : NamedRecord}
variable {predicate : Expr S} {left right : Expr S}

theorem evalPredicate_true_iff :
    evalPredicate env st predicate rec=.ok true ↔ evalExpr env st predicate rec=.ok (.bool true) := by
  unfold evalPredicate
  cases evalExpr env st predicate rec with
  | error e => simp [Except.map]
  | ok v =>
    cases v with
    | bool b => simp [Except.map,CypherEval.isTrue]
    | _ => simp [Except.map,CypherEval.isTrue]

theorem fails_evalPredicate : Fails (evalPredicate env st predicate rec) ↔ Fails (evalExpr env st predicate rec) := by
  unfold evalPredicate
  cases evalExpr env st predicate rec with
  | error e | ok v => simp [Except.map]

theorem evalExpr_and (left right : Expr S) :
    evalExpr env st (.binaryOp left .and right) rec=(do
      let l ← evalExpr env st left rec
      let r ← evalExpr env st right rec
      evalLogic triAnd l r) := by
  rw [evalExpr,evalBinary]
  rfl

theorem evalExpr_and_true : evalExpr env st (.binaryOp left .and right) rec=.ok (.bool true) ↔
    evalExpr env st left rec=.ok (.bool true) ∧ evalExpr env st right rec=.ok (.bool true) := by
  rw [evalExpr_and]
  cases evalExpr env st left rec with
  | error e => simp [bind,Except.bind]
  | ok l =>
    cases evalExpr env st right rec with
    | error e => simp [bind,Except.bind]
    | ok r =>
      unfold evalLogic
      cases l with
      | bool a =>
        cases r with
        | bool b => cases a <;> cases b <;> simp [bind,Except.bind,pure,Except.pure,toTribool,triAnd,triValue]
        | null => cases a <;> simp [bind,Except.bind,pure,Except.pure,toTribool,triAnd,triValue]
        | _ => simp [bind,Except.bind,toTribool]
      | null =>
        cases r with
        | bool b => cases b <;> simp [bind,Except.bind,pure,Except.pure,toTribool,triAnd,triValue]
        | null => simp [bind,Except.bind,pure,Except.pure,toTribool,triAnd,triValue]
        | _ => simp [bind,Except.bind,toTribool]
      | _ => simp [bind,Except.bind,toTribool]

theorem evalExpr_true_iff_conjuncts (predicate : Expr S) :
    evalExpr env st predicate rec=.ok (.bool true) ↔
      ∀ c∈decomposeConjuncts predicate,evalExpr env st c rec=.ok (.bool true) := by
  induction predicate using decomposeConjuncts.induct with
  | case1 left right ihl ihr =>
    rw [evalExpr_and_true,ihl,ihr,decomposeConjuncts,List.forall_mem_append]
  | case2 expr hexpr =>
    rw [decomposeConjuncts]
    · simp
    · exact hexpr

theorem rebuildConjunction_true {conjuncts : List (Expr S)} (h : rebuildConjunction conjuncts=some predicate) :
    evalExpr env st predicate rec=.ok (.bool true) ↔ ∀ c∈conjuncts,evalExpr env st c rec=.ok (.bool true) := by
  have hfold : ∀ (rest : List (Expr S)) (first : Expr S),
      evalExpr env st (rest.foldl (fun acc c => .binaryOp acc .and c) first) rec=.ok (.bool true) ↔
        evalExpr env st first rec=.ok (.bool true) ∧
          ∀ c∈rest,evalExpr env st c rec=.ok (.bool true) := by
    intro rest
    induction rest with
    | nil => simp
    | cons c rest ih =>
      intro first
      rw [List.foldl_cons,ih,evalExpr_and_true,List.forall_mem_cons,and_assoc]
  cases conjuncts with
  | nil => cases h
  | cons first rest =>
    rw [rebuildConjunction] at h
    rw [←Option.some.inj h,hfold,List.forall_mem_cons]

/-- An operand that makes a conjunction fail: it fails itself, or is no truth value. -/
def Unfit (r : Result Value) : Prop := Fails r ∨ ∃ v,r=.ok v ∧ Fails (toTribool v)

/-- A conjunction fails exactly when an operand is unfit, and is fit otherwise. -/
theorem unfit_and :
    (Fails (evalExpr env st (.binaryOp left .and right) rec) ↔
        Unfit (evalExpr env st left rec) ∨ Unfit (evalExpr env st right rec)) ∧
      (Unfit (evalExpr env st (.binaryOp left .and right) rec) ↔
        Fails (evalExpr env st (.binaryOp left .and right) rec)) := by
  have htri : ∀ x,toTribool (triValue x)=.ok x := by
    intro x
    cases x with
    | none | some b => rfl
  rw [evalExpr_and]
  unfold Unfit
  cases evalExpr env st left rec with
  | error e => simp [bind,Except.bind]
  | ok l =>
    cases evalExpr env st right rec with
    | error e => simp [bind,Except.bind]
    | ok r =>
      rw [bind_of_ok rfl,bind_of_ok rfl]
      unfold evalLogic
      cases hl : toTribool l with
      | error e => simp [bind,Except.bind,hl]
      | ok a =>
        cases hr : toTribool r with
        | error e => simp [bind,Except.bind,hr]
        | ok b => simp [bind,Except.bind,pure,Except.pure,htri,hl,hr]

/-- Splitting a predicate keeps it or gives unfit conjuncts exactly for a failure. -/
theorem decomposeConjuncts_cases (predicate : Expr S) :
    decomposeConjuncts predicate=[predicate] ∨
      (2≤(decomposeConjuncts predicate).length ∧ ∀ rec,(Fails (evalExpr env st predicate rec) ↔
        ∃ c∈decomposeConjuncts predicate,Unfit (evalExpr env st c rec)) ∧
        (Unfit (evalExpr env st predicate rec) ↔ Fails (evalExpr env st predicate rec))) := by
  induction predicate using decomposeConjuncts.induct with
  | case1 left right ihl ihr =>
    have hpos : ∀ e : Expr S,decomposeConjuncts e=[e] ∨ 2≤(decomposeConjuncts e).length →
        1≤(decomposeConjuncts e).length := by
      intro e he
      cases he with
      | inl hone =>
        rw [hone]
        exact Nat.le_refl 1
      | inr htwo => omega
    have hunfit : ∀ (e : Expr S) (rec : NamedRecord),decomposeConjuncts e=[e] ∨
        (2≤(decomposeConjuncts e).length ∧ ∀ rec,(Fails (evalExpr env st e rec) ↔
          ∃ c∈decomposeConjuncts e,Unfit (evalExpr env st c rec)) ∧
          (Unfit (evalExpr env st e rec) ↔ Fails (evalExpr env st e rec))) →
        (Unfit (evalExpr env st e rec) ↔ ∃ c∈decomposeConjuncts e,Unfit (evalExpr env st c rec)) := by
      intro e rec he
      cases he with
      | inl hone =>
        rw [hone]
        simp
      | inr htwo => exact ((htwo.2 rec).2).trans (htwo.2 rec).1
    have hl := hpos left (ihl.imp_right And.left)
    have hr := hpos right (ihr.imp_right And.left)
    rw [decomposeConjuncts]
    refine Or.inr ⟨?_,fun rec => ⟨?_,unfit_and.2⟩⟩
    · rw [List.length_append]
      omega
    · rw [unfit_and.1,hunfit left rec ihl,hunfit right rec ihr]
      simp only [List.mem_append,or_and_right,exists_or]
  | case2 expr hexpr =>
    rw [decomposeConjuncts]
    · exact Or.inl rfl
    · exact hexpr

theorem fails_rebuildConjunction_iff {first second : Expr S} {rest : List (Expr S)}
    (h : rebuildConjunction (first::second::rest)=some predicate) :
    Fails (evalExpr env st predicate rec) ↔ ∃ c∈first::second::rest,Unfit (evalExpr env st c rec) := by
  have hfold : ∀ (rest : List (Expr S)) (left right : Expr S),
      Fails (evalExpr env st (rest.foldl (fun acc c => .binaryOp acc .and c)
        (.binaryOp left .and right)) rec) ↔
        Unfit (evalExpr env st left rec) ∨ Unfit (evalExpr env st right rec) ∨
          ∃ c∈rest,Unfit (evalExpr env st c rec) := by
    intro rest
    induction rest with
    | nil =>
      intro left right
      rw [List.foldl_nil,unfit_and.1]
      simp
    | cons c rest ih =>
      intro left right
      rw [List.foldl_cons,ih,unfit_and.2,unfit_and.1,List.exists_mem_cons_iff,or_assoc]
  rw [rebuildConjunction,List.foldl_cons] at h
  rw [←Option.some.inj h,hfold,List.exists_mem_cons_iff,List.exists_mem_cons_iff]

theorem rebuild_decompose {predicate rebuilt : Expr S}
    (h : rebuildConjunction (decomposeConjuncts predicate)=some rebuilt) :
    (evalPredicate env st rebuilt rec=.ok true ↔ evalPredicate env st predicate rec=.ok true) ∧
      (Fails (evalPredicate env st rebuilt rec) ↔ Fails (evalPredicate env st predicate rec)) := by
  constructor
  · rw [evalPredicate_true_iff,evalPredicate_true_iff,rebuildConjunction_true h,
      evalExpr_true_iff_conjuncts predicate]
  · rw [fails_evalPredicate,fails_evalPredicate]
    cases @decomposeConjuncts_cases S env st predicate with
    | inl hone =>
      rw [hone,rebuildConjunction] at h
      rw [←Option.some.inj h]
      rfl
    | inr htwo =>
      have hfails := (htwo.2 rec).1
      have hlong := htwo.1
      cases hlist : decomposeConjuncts predicate with
      | nil =>
        rw [hlist] at hlong
        cases hlong
      | cons first tail =>
        cases tail with
        | nil =>
          rw [hlist] at hlong
          exact absurd hlong (by simp)
        | cons second rest =>
          rw [hlist] at h hfails
          rw [hfails,fails_rebuildConjunction_iff h]

theorem rebuild_decompose_isSome (predicate : Expr S) :
    ∃ rebuilt,rebuildConjunction (decomposeConjuncts predicate)=some rebuilt := by
  have hne : decomposeConjuncts predicate≠[] := by
    induction predicate using decomposeConjuncts.induct with
    | case1 left right ihl ihr =>
      rw [decomposeConjuncts]
      exact List.append_ne_nil_of_left_ne_nil ihl _
    | case2 expr hexpr =>
      rw [decomposeConjuncts]
      · simp
      · exact hexpr
  cases hlist : decomposeConjuncts predicate with
  | nil => exact absurd hlist hne
  | cons first rest => exact ⟨_,rfl⟩

/-- A truth value of three-valued logic. -/
def IsLogical (r : Result Value) : Prop := ∀ v,r=.ok v → ∃ x,v=triValue x

/-- A conjunction of logical values fails exactly when a side does, and is logical. -/
theorem evalExpr_and_logical (hl : IsLogical (evalExpr env st left rec))
    (hr : IsLogical (evalExpr env st right rec)) :
    IsLogical (evalExpr env st (.binaryOp left .and right) rec) ∧
      (Fails (evalExpr env st (.binaryOp left .and right) rec) ↔
        Fails (evalExpr env st left rec) ∨ Fails (evalExpr env st right rec)) := by
  have htri : ∀ x,toTribool (triValue x)=.ok x := by
    intro x
    cases x with
    | none | some b => rfl
  rw [evalExpr_and]
  cases hleft : evalExpr env st left rec with
  | error e => simp [bind,Except.bind,IsLogical]
  | ok l =>
    have ⟨x,hx⟩ := hl l hleft
    cases hright : evalExpr env st right rec with
    | error e => simp [bind,Except.bind,IsLogical]
    | ok r =>
      have ⟨y,hy⟩ := hr r hright
      have hval : evalLogic triAnd l r=.ok (triValue (triAnd x y)) := by
        rw [hx,hy,evalLogic,htri,htri]
        rfl
      dsimp only [bind,Except.bind]
      rw [hval]
      refine ⟨fun v hv => ⟨triAnd x y,(Except.ok.inj hv).symm⟩,?_⟩
      simp

theorem fails_rebuildConjunction {conjuncts : List (Expr S)} (h : rebuildConjunction conjuncts=some predicate)
    (hlogical : ∀ c∈conjuncts,IsLogical (evalExpr env st c rec)) :
    Fails (evalExpr env st predicate rec) ↔ ∃ c∈conjuncts,Fails (evalExpr env st c rec) := by
  have hfold : ∀ (rest : List (Expr S)) (first : Expr S),IsLogical (evalExpr env st first rec) →
      (∀ c∈rest,IsLogical (evalExpr env st c rec)) →
      (Fails (evalExpr env st (rest.foldl (fun acc c => .binaryOp acc .and c) first) rec) ↔
        Fails (evalExpr env st first rec) ∨ ∃ c∈rest,Fails (evalExpr env st c rec)) := by
    intro rest
    induction rest with
    | nil => simp
    | cons c rest ih =>
      intro first hfirst hrest
      have hand := evalExpr_and_logical hfirst (hrest c List.mem_cons_self)
      rw [List.foldl_cons,ih _ hand.1 fun d hd => hrest d (List.mem_cons_of_mem c hd),hand.2,
        List.exists_mem_cons_iff,or_assoc]
  cases conjuncts with
  | nil => cases h
  | cons first rest =>
    rw [rebuildConjunction] at h
    rw [←Option.some.inj h,hfold rest first (hlogical first List.mem_cons_self) fun c hc =>
      hlogical c (List.mem_cons_of_mem first hc),List.exists_mem_cons_iff]

end Conjunctions

section Filters

variable {env : QueryEnv S} {st : Store}

theorem run_withFilters {plan : LogicalOp S} {r : Result Rows} (h : exec env plan st=(r,st))
    (predicates : List (Expr S)) :
    exec env (withFilters predicates plan) st=
      (r >>= sieves (predicates.map fun p => evalPredicate env.eval st p),st) := by
  induction predicates generalizing plan r with
  | nil =>
    cases r with
    | error e | ok rows => exact h
  | cons p rest ih =>
    have hone : exec env (.filter plan p) st=(r >>= sieve (evalPredicate env.eval st p),st) := by
      unfold exec at h ⊢
      rw [QueryExecutor.run,bind_apply,h]
      cases r with
      | error e | ok rows => rfl
    have hrest := ih hone
    unfold withFilters at hrest ⊢
    rw [List.foldl_cons,hrest]
    cases r with
    | error e => rfl
    | ok rows =>
      rw [bind_of_ok rfl,bind_of_ok rfl,List.map_cons,sieves]
      cases sieve (evalPredicate env.eval st p) rows with
      | error e | ok kept => rfl

/-- Whether a label scan exceeds the row limit. -/
def ExceedsLimit (env : QueryEnv S) (st : Store) (label : String) : Prop :=
  0<env.maxResultRows ∧ env.maxResultRows<(findNodesByLabel st label).length

/-- Filters over a label scan, as tests on the nodes. -/
def nodeTests (env : QueryEnv S) (st : Store) (nodeAlias : String) (predicates : List (Expr S)) :
    List (Node → Result Bool) :=
  predicates.map fun p n => evalPredicate env.eval st p (nodeToRecord n nodeAlias)

theorem passes_nodeTests (nodeAlias : String) (predicates : List (Expr S)) (n : Node) :
    passes (predicates.map fun p => evalPredicate env.eval st p) (nodeToRecord n nodeAlias)=
      passes (nodeTests env st nodeAlias predicates) n := by
  unfold nodeTests
  induction predicates with
  | nil => rfl
  | cons p rest ih =>
    rw [List.map_cons,List.map_cons,passes,passes,ih]

theorem fails_filteredScan (label nodeAlias : String) (predicates : List (Expr S)) :
    Fails (exec env (withFilters predicates (.scan label nodeAlias)) st).1 ↔
      ExceedsLimit env st label ∨
      ∃ n∈findNodesByLabel st label,Fails (passes (nodeTests env st nodeAlias predicates) n) := by
  have hscan : exec env (.scan label nodeAlias) st=(execScan env st label nodeAlias,st) := rfl
  rw [run_withFilters hscan]
  dsimp only
  unfold execScan checkRowLimit
  rw [List.length_map]
  by_cases hlimit : ExceedsLimit env st label
  · have hif := hlimit
    unfold ExceedsLimit at hif
    rw [if_pos hif]
    exact iff_of_true (fails_bind_error (fails_error _)) (Or.inl hlimit)
  · have hif := hlimit
    unfold ExceedsLimit at hif
    rw [if_neg hif,bind_of_ok rfl,fails_sieves]
    constructor
    · intro h
      have ⟨r,hr,hfail⟩ := h
      have ⟨n,hn,hrow⟩ := List.mem_map.mp hr
      rw [←hrow,passes_nodeTests] at hfail
      exact Or.inr ⟨n,hn,hfail⟩
    · intro h
      have ⟨n,hn,hfail⟩ := h.resolve_left hlimit
      rw [←passes_nodeTests] at hfail
      exact ⟨_,List.mem_map.mpr ⟨n,hn,rfl⟩,hfail⟩

section Filtered

variable {label nodeAlias : String} {predicates : List (Expr S)} {rows : Rows} (h : (exec env (withFilters predicates (.scan label nodeAlias)) st).1=.ok rows)

include h

theorem mem_filteredScan (r : NamedRecord) :
    r∈rows ↔ ∃ n∈findNodesByLabel st label,passes (nodeTests env st nodeAlias predicates) n=.ok true ∧
      r=nodeToRecord n nodeAlias := by
  have hscan : exec env (.scan label nodeAlias) st=(execScan env st label nodeAlias,st) := rfl
  have hok : ¬ExceedsLimit env st label := by
    intro hlimit
    have hfails : Fails (exec env (withFilters predicates (.scan label nodeAlias)) st).1 :=
      (fails_filteredScan label nodeAlias predicates).mpr (Or.inl hlimit)
    rw [h] at hfails
    exact not_fails_ok rows hfails
  unfold ExceedsLimit at hok
  rw [run_withFilters hscan] at h
  dsimp only at h
  unfold execScan checkRowLimit at h
  rw [List.length_map,if_neg hok,bind_of_ok rfl] at h
  rw [mem_sieves h]
  constructor
  · intro hr
    have ⟨n,hn,hrow⟩ := List.mem_map.mp hr.1
    refine ⟨n,hn,?_,hrow.symm⟩
    rw [←passes_nodeTests,hrow]
    exact hr.2
  · intro hr
    have ⟨n,hn,hpass,hrow⟩ := hr
    rw [hrow,passes_nodeTests]
    exact ⟨List.mem_map.mpr ⟨n,hn,rfl⟩,hpass⟩

theorem nodup_filteredScan : rows.Nodup := by
  have hscan : exec env (.scan label nodeAlias) st=(execScan env st label nodeAlias,st) := rfl
  rw [run_withFilters hscan] at h
  dsimp only at h
  unfold execScan checkRowLimit at h
  split_ifs at h with hlimit
  · cases h
  · rw [bind_of_ok rfl] at h
    exact (sieves_sublist h).nodup (nodup_scan st label nodeAlias)

end Filtered

end Filters

end GraphDbLite.IndexChoice
