import GraphDbLite.SameOutcomes
import GraphDbLite.IndexChoice

/-!
# Turning identifier filters into lookups

The planner replaces a filter `id(n) = e` over the scan of all nodes by a lookup
of the node that `e` names, at the top of a clause and on the right of a correlated
join. The rewritten plan runs like the written one as long as, wherever it is
reached, the comparison on each stored node says that the value of `e` in the outer
record is the identifier of that node.
-/

namespace GraphDbLite.IdRewrite

open GraphTypes OrderedTable StatefulActions GraphStore NodeStorage WriteOperators
open CypherSyntax CypherEval QueryPlan FallibleLists QueryExecutor NodeRecords
open IndexAccess IndexChoice SameOutcomes

variable {S : Type}

mutual

/-- Whether an expression mentions a variable, in the forms the planner looks at. -/
def exprReferencesVar (name : String) : Expr S → Bool
  | .var v => v=name
  | .property v _ => v=name
  | .binaryOp left _ right => exprReferencesVar name left || exprReferencesVar name right
  | .not inner => exprReferencesVar name inner
  | .isNull inner => exprReferencesVar name inner
  | .isNotNull inner => exprReferencesVar name inner
  | .functionCall _ args _ _ => exprsReferenceVar name args
  | .case operand alternatives default =>
    optionReferencesVar name operand || pairsReferenceVar name alternatives ||
      optionReferencesVar name default
  | .list items => exprsReferenceVar name items
  | _ => false
termination_by structural expr => expr

/-- Whether one of some expressions mentions a variable. -/
def exprsReferenceVar (name : String) : List (Expr S) → Bool
  | [] => false
  | expr::rest => exprReferencesVar name expr || exprsReferenceVar name rest
termination_by structural exprs => exprs

/-- Whether an optional expression mentions a variable. -/
def optionReferencesVar (name : String) : Option (Expr S) → Bool
  | none => false
  | some expr => exprReferencesVar name expr
termination_by structural expr => expr

/-- Whether an alternative of a CASE mentions a variable. -/
def pairsReferenceVar (name : String) : List (Expr S×Expr S) → Bool
  | [] => false
  | pair::rest => pairReferencesVar name pair || pairsReferenceVar name rest
termination_by structural pairs => pairs

/-- Whether a condition or its result mentions a variable. -/
def pairReferencesVar (name : String) : Expr S×Expr S → Bool
  | (condition,result) => exprReferencesVar name condition || exprReferencesVar name result
termination_by structural pair => pair

end

/-- Whether an expression is the identifier of a variable. -/
def matchesIdOfAlias (nodeAlias : String) : Expr S → Bool
  | .functionCall name [.var v] _ _ => asciiLower name = "id" && v=nodeAlias
  | _ => false

/-- The other side of an equality with the identifier of a variable. -/
def extractIdEqAlias (nodeAlias : String) : Expr S → Option (Expr S)
  | .binaryOp left .eq right =>
    if matchesIdOfAlias nodeAlias left=true then some right
    else if matchesIdOfAlias nodeAlias right=true then some left
    else none
  | _ => none

/-- The value to look up when a filter over a scan is replaced. -/
def idTarget (label nodeAlias : String) (predicate : Expr S) : Option (Expr S) :=
  if label = "" then
    (extractIdEqAlias nodeAlias predicate).filter fun e => !exprReferencesVar nodeAlias e
  else none

/-- A filter over an input, replaced when the input is a scan of all nodes or joins
one. -/
def rewriteIdFilter (input : LogicalOp S) (predicate : Expr S) : LogicalOp S :=
  match input with
  | .scan label nodeAlias =>
    match idTarget label nodeAlias predicate with
    | some valueExpr => .idLookup nodeAlias valueExpr
    | none => .filter (.scan label nodeAlias) predicate
  | .correlatedJoin joinInput (.scan label nodeAlias) sameMatch =>
    match idTarget label nodeAlias predicate with
    | some valueExpr => .correlatedJoin joinInput (.idLookup nodeAlias valueExpr) sameMatch
    | none => .filter (.correlatedJoin joinInput (.scan label nodeAlias) sameMatch) predicate
  | input => .filter input predicate

mutual

/-- Replace identifier filters by lookups, inner plans first. -/
def rewriteIdFilterToLookup : LogicalOp S → LogicalOp S
  | .expand input spec => .expand (rewriteIdFilterToLookup input) spec
  | .filter input predicate => rewriteIdFilter (rewriteIdFilterToLookup input) predicate
  | .rows op input => .rows op (rewriteIdFilterToLookup input)
  | .crossProduct left right sameMatch =>
    .crossProduct (rewriteIdFilterToLookup left) (rewriteIdFilterToLookup right) sameMatch
  | .correlatedJoin input right sameMatch =>
    .correlatedJoin (rewriteIdFilterToLookup input) (rewriteIdFilterToLookup right) sameMatch
  | .leftOuterJoin input right optionalAliases optFilter =>
    .leftOuterJoin (rewriteIdFilterToLookup input) (rewriteIdFilterToLookup right) optionalAliases
      optFilter
  | .union inputs all => .union (rewriteIdFilters inputs) all
  | .singleRow => .singleRow
  | .emptyRow => .emptyRow
  | .scan label nodeAlias => .scan label nodeAlias
  | .idLookup nodeAlias valueExpr => .idLookup nodeAlias valueExpr
  | .indexLookup label nodeAlias indexProperties lookups remaining =>
    .indexLookup label nodeAlias indexProperties lookups remaining
  | .fullTextLookup label nodeAlias property op term remaining =>
    .fullTextLookup label nodeAlias property op term remaining
  | .source op => .source op
termination_by structural plan => plan

/-- Replace identifier filters in the inputs of a union. -/
def rewriteIdFilters : List (LogicalOp S) → List (LogicalOp S)
  | [] => []
  | plan::rest => rewriteIdFilterToLookup plan::rewriteIdFilters rest
termination_by structural plans => plans

end

section Sites

variable (env : QueryEnv S) (st : Store)

/-- A lookup finds what the comparison on every stored node selects. -/
structure LookupSafe (record : NamedRecord) (nodeAlias : String) (valueExpr predicate : Expr S)
    (kept : NamedRecord → Bool) (view : NamedRecord → NamedRecord) : Prop where
  /-- The scan is refused or a comparison fails exactly when the value does. -/
  errors : (ExceedsLimit env st "" ∨ ∃ n∈findNodesByLabel st "",
      kept (nodeToRecord n nodeAlias)=true ∧
        Fails (evalPredicate env.eval st predicate (view (nodeToRecord n nodeAlias)))) ↔
    Fails (evalExpr env.eval st valueExpr record)
  /-- The comparison holds on a node exactly when the value is its identifier. -/
  selects : ∀ v,evalExpr env.eval st valueExpr record=.ok v → ∀ n∈findNodesByLabel st "",
    kept (nodeToRecord n nodeAlias)=true →
    (evalPredicate env.eval st predicate (view (nodeToRecord n nodeAlias))=.ok true ↔
      v=.i64 n.id.toInt64 ∧ 0≤n.id.toInt64.toInt)

/-- A filter over a scan that may be replaced in the given scope: a variable that is
already bound satisfies the filter, a variable bound to null is left alone, and for a
variable that is not bound the lookup finds what the filter selects. -/
def SiteSafe (scope : Option NamedRecord) (nodeAlias : String) (valueExpr predicate : Expr S)
    (kept : NamedRecord → Bool) (view : NamedRecord → NamedRecord) : Prop :=
  match scope.bind fun outer => boundNode outer nodeAlias with
  | some id => ∀ n,getNode st id=.ok n → kept (nodeToRecord n nodeAlias)=true →
      evalPredicate env.eval st predicate (view (nodeToRecord n nodeAlias))=.ok true
  | none => (scope.any fun outer => boundNull outer nodeAlias)=true ∨
      LookupSafe env st (scope.getD emptyRecord) nodeAlias valueExpr predicate kept view

variable {env st} {nodeAlias : String} {valueExpr predicate : Expr S}

theorem mem_findNodesByLabel_empty {n : Node} : n∈findNodesByLabel st "" ↔ Stored st n := by
  constructor
  · exact stored_of_mem_findNodesByLabel
  · intro h
    have ⟨row,hget,hn⟩ := getNode_ok h
    unfold findNodesByLabel
    rw [List.mem_map]
    refine ⟨(n.id,row),List.mem_filter.mpr ⟨get_eq_some.mp hget,by simp⟩,?_⟩
    exact hn.symm

theorem getNode_missing {id : NodeId} (h : ∀ n,getNode st id≠.ok n) :
    ∃ hint,getNode st id=.error (.nodeNotFound id hint) := by
  unfold getNode getRecord at h ⊢
  cases hget : get st.nodes id with
  | none => exact ⟨_,rfl⟩
  | some row =>
    rw [hget] at h
    exact absurd rfl (h _)

theorem execIdLookup_spec {record : NamedRecord} {v : Value}
    (h : evalExpr env.eval st valueExpr record=.ok v) :
    ∃ rows,execIdLookup env st nodeAlias valueExpr record=.ok rows ∧ rows.length≤1 ∧
      ∀ r,r∈rows ↔ ∃ n,Stored st n ∧ v=.i64 n.id.toInt64 ∧ 0≤n.id.toInt64.toInt ∧
        r=nodeToRecord n nodeAlias := by
  unfold execIdLookup
  rw [bind_of_ok h]
  have hother : (∀ n,v≠.i64 n) → ∀ r,r∈([] : Rows) ↔ ∃ n,Stored st n ∧ v=.i64 n.id.toInt64 ∧
      0≤n.id.toInt64.toInt ∧ r=nodeToRecord n nodeAlias := by
    intro hne r
    constructor
    · intro hr
      exact absurd hr List.not_mem_nil
    · intro hr
      have ⟨n,_,hv,_,_⟩ := hr
      exact absurd hv (hne _)
  cases v with
  | i64 k =>
    dsimp only
    by_cases hneg : k.toInt<0
    · rw [if_pos hneg]
      refine ⟨[],rfl,Nat.zero_le 1,fun r => ?_⟩
      constructor
      · intro hr
        exact absurd hr List.not_mem_nil
      · intro hr
        have ⟨n,_,hv,hpos,_⟩ := hr
        rw [Value.i64.inj hv] at hneg
        omega
    · rw [if_neg hneg]
      by_cases hstored : ∃ n,getNode st k.toUInt64=.ok n
      · have ⟨n,hn⟩ := hstored
        have ⟨row,_,hid⟩ := getNode_ok hn
        have hnid : n.id=k.toUInt64 := by rw [hid]
        have hk : k=n.id.toInt64 := by rw [hnid,Int64.toInt64_toUInt64]
        have hself : Stored st n := stored_of_getNode hn
        rw [hn]
        refine ⟨[nodeToRecord n nodeAlias],rfl,Nat.le_refl 1,fun r => ?_⟩
        rw [List.mem_singleton]
        constructor
        · intro hr
          refine ⟨n,hself,by rw [←hk],?_,hr⟩
          rw [←hk]
          omega
        · intro hr
          have ⟨m,hm,hv,_,hrow⟩ := hr
          have hsame : n.id=m.id := by
            have hback := congrArg Int64.toUInt64 (hk.symm.trans (Value.i64.inj hv))
            rw [UInt64.toUInt64_toInt64,UInt64.toUInt64_toInt64] at hback
            exact hback
          unfold Stored at hself hm
          rw [hsame,hm] at hself
          rw [hrow,Except.ok.inj hself]
      · have ⟨hint,herr⟩ := @getNode_missing st k.toUInt64 fun n hn => hstored ⟨n,hn⟩
        rw [herr]
        refine ⟨[],rfl,Nat.zero_le 1,fun r => ?_⟩
        constructor
        · intro hr
          exact absurd hr List.not_mem_nil
        · intro hr
          have ⟨n,hn,hv,_,_⟩ := hr
          refine absurd ⟨n,?_⟩ hstored
          rw [Value.i64.inj hv,UInt64.toUInt64_toInt64]
          exact hn
  | _ => exact ⟨[],rfl,Nat.zero_le 1,hother (by simp)⟩

variable {kept : NamedRecord → Bool}

theorem mem_keptScan {r : NamedRecord} :
    r∈((findNodesByLabel st "").map fun n => nodeToRecord n nodeAlias).filter kept ↔
    ∃ n∈findNodesByLabel st "",kept (nodeToRecord n nodeAlias)=true ∧ r=nodeToRecord n nodeAlias := by
  rw [List.mem_filter,List.mem_map]
  constructor
  · intro hr
    have ⟨⟨n,hn,hrow⟩,hkept⟩ := hr
    rw [←hrow] at hkept
    exact ⟨n,hn,hkept,hrow.symm⟩
  · intro hr
    have ⟨n,hn,hkept,hrow⟩ := hr
    rw [hrow]
    exact ⟨⟨n,hn,rfl⟩,hkept⟩

theorem filteredScan_outcome (nodeAlias : String) (predicate : Expr S) (kept : NamedRecord → Bool)
    (view : NamedRecord → NamedRecord) :
    (Fails ((execScan env st "" nodeAlias).map (List.filter kept) >>=
        sieve fun r => evalPredicate env.eval st predicate (view r)) ↔
      ExceedsLimit env st "" ∨ ∃ n∈findNodesByLabel st "",kept (nodeToRecord n nodeAlias)=true ∧
        Fails (evalPredicate env.eval st predicate (view (nodeToRecord n nodeAlias)))) ∧
      ∀ selected,((execScan env st "" nodeAlias).map (List.filter kept) >>=
        sieve fun r => evalPredicate env.eval st predicate (view r))=.ok selected →
        selected.Nodup ∧ ∀ r,r∈selected ↔ ∃ n∈findNodesByLabel st "",
          kept (nodeToRecord n nodeAlias)=true ∧ r=nodeToRecord n nodeAlias ∧
          evalPredicate env.eval st predicate (view r)=.ok true := by
  by_cases hlimit : ExceedsLimit env st ""
  · have hif := hlimit
    unfold ExceedsLimit at hif
    unfold execScan checkRowLimit
    rw [List.length_map,if_pos hif]
    exact ⟨iff_of_true ⟨_,rfl⟩ (Or.inl hlimit),fun selected h => by simp [Except.map,bind,Except.bind] at h⟩
  · have hif := hlimit
    unfold ExceedsLimit at hif
    have hscan : (execScan env st "" nodeAlias).map (List.filter kept)=
        .ok (((findNodesByLabel st "").map fun n => nodeToRecord n nodeAlias).filter kept) := by
      unfold execScan checkRowLimit
      rw [List.length_map,if_neg hif]
      rfl
    rw [hscan,bind_of_ok rfl,fails_sieve]
    constructor
    · constructor
      · intro h
        have ⟨r,hr,hfail⟩ := h
        have ⟨n,hn,hkept,hrow⟩ := mem_keptScan.mp hr
        rw [hrow] at hfail
        exact Or.inr ⟨n,hn,hkept,hfail⟩
      · intro h
        have ⟨n,hn,hkept,hfail⟩ := h.resolve_left hlimit
        exact ⟨_,mem_keptScan.mpr ⟨n,hn,hkept,rfl⟩,hfail⟩
    · intro selected h
      refine ⟨(sieve_sublist h).nodup ((nodup_scan st "" nodeAlias).filter _),fun r => ?_⟩
      rw [mem_sieve h,mem_keptScan]
      constructor
      · intro hr
        have ⟨⟨n,hn,hkept,hrow⟩,htrue⟩ := hr
        exact ⟨n,hn,hkept,hrow,htrue⟩
      · intro hr
        have ⟨n,hn,hkept,hrow,htrue⟩ := hr
        exact ⟨⟨n,hn,hkept,hrow⟩,htrue⟩

theorem keptLookup_outcome (nodeAlias : String) (valueExpr : Expr S) (record : NamedRecord)
    (kept : NamedRecord → Bool) :
    (Fails ((execIdLookup env st nodeAlias valueExpr record).map (List.filter kept)) ↔
      Fails (evalExpr env.eval st valueExpr record)) ∧
      ∀ v,evalExpr env.eval st valueExpr record=.ok v → ∃ found,
        (execIdLookup env st nodeAlias valueExpr record).map (List.filter kept)=.ok found ∧
        found.length≤1 ∧ found.Nodup ∧ ∀ r,r∈found ↔ ∃ n∈findNodesByLabel st "",
          kept (nodeToRecord n nodeAlias)=true ∧ r=nodeToRecord n nodeAlias ∧
          v=.i64 n.id.toInt64 ∧ 0≤n.id.toInt64.toInt := by
  have hrows : ∀ v,evalExpr env.eval st valueExpr record=.ok v → ∃ found,
      (execIdLookup env st nodeAlias valueExpr record).map (List.filter kept)=.ok found ∧
      found.length≤1 ∧ found.Nodup ∧ ∀ r,r∈found ↔ ∃ n∈findNodesByLabel st "",
        kept (nodeToRecord n nodeAlias)=true ∧ r=nodeToRecord n nodeAlias ∧
        v=.i64 n.id.toInt64 ∧ 0≤n.id.toInt64.toInt := by
    intro v hv
    have ⟨rows,hrows,hshort,hmem⟩ := @execIdLookup_spec S env st nodeAlias valueExpr record v hv
    have hlen : (rows.filter kept).length≤1 :=
      Nat.le_trans (List.length_filter_le kept rows) hshort
    have hnodup : (rows.filter kept).Nodup := by
      cases hlist : rows.filter kept with
      | nil => exact List.nodup_nil
      | cons x rest =>
        rw [hlist,List.length_cons] at hlen
        rw [List.eq_nil_of_length_eq_zero (by omega : rest.length=0)]
        exact List.nodup_singleton x
    refine ⟨rows.filter kept,by rw [hrows]; rfl,hlen,hnodup,fun r => ?_⟩
    rw [List.mem_filter,hmem]
    constructor
    · intro hr
      have ⟨⟨n,hn,hid,hpos,hrow⟩,hkept⟩ := hr
      rw [hrow] at hkept
      exact ⟨n,mem_findNodesByLabel_empty.mpr hn,hkept,hrow,hid,hpos⟩
    · intro hr
      have ⟨n,hn,hkept,hrow,hid,hpos⟩ := hr
      rw [hrow]
      exact ⟨⟨n,mem_findNodesByLabel_empty.mp hn,hid,hpos,rfl⟩,hkept⟩
  refine ⟨⟨fun hfail => ?_,fun hfail => ?_⟩,hrows⟩
  · cases fails_or_ok (evalExpr env.eval st valueExpr record) with
    | inl hvalue => exact hvalue
    | inr hok =>
      have ⟨v,hv⟩ := hok
      have ⟨found,hfound,_,_,_⟩ := hrows v hv
      rw [hfound] at hfail
      exact absurd hfail (not_fails_ok found)
  · have ⟨e,he⟩ : Fails (execIdLookup env st nodeAlias valueExpr record) := by
      unfold execIdLookup
      exact fails_bind_error hfail
    exact ⟨e,by rw [he]; rfl⟩

/-- A variable that is not bound: the lookup ends like the filtered scan exactly when
it finds what the comparisons select. -/
theorem lookupSafe_iff_sameOutcome {record : NamedRecord}
    {view : NamedRecord → NamedRecord} :
    SameOutcome ((execIdLookup env st nodeAlias valueExpr record).map (List.filter kept))
      ((execScan env st "" nodeAlias).map (List.filter kept) >>=
        sieve fun r => evalPredicate env.eval st predicate (view r)) ↔
      LookupSafe env st record nodeAlias valueExpr predicate kept view := by
  have ⟨hscanFails,hscanRows⟩ := @filteredScan_outcome S env st nodeAlias predicate kept view
  have ⟨hlookupFails,hlookupRows⟩ := @keptLookup_outcome S env st nodeAlias valueExpr record kept
  constructor
  · intro h
    refine ⟨hscanFails.symm.trans (h.fails_iff.symm.trans hlookupFails),fun v hv n hn hkept => ?_⟩
    have ⟨found,hfound,_,_,hmem⟩ := hlookupRows v hv
    have hselected := h.symm.eq_of_ok hfound
    rw [hfound] at hselected
    have hboth := ((hscanRows found hselected).2 (nodeToRecord n nodeAlias)).symm.trans
      (hmem (nodeToRecord n nodeAlias))
    constructor
    · intro htrue
      have ⟨m,hm,_,hrow,hid,hpos⟩ := hboth.mp ⟨n,hn,hkept,rfl,htrue⟩
      rw [(stored_of_mem_findNodesByLabel hn).eq_of_record (stored_of_mem_findNodesByLabel hm) hrow]
      exact ⟨hid,hpos⟩
    · intro hid
      have ⟨m,hm,_,hrow,htrue⟩ := hboth.mpr ⟨n,hn,hkept,rfl,hid.1,hid.2⟩
      exact htrue
  · intro h
    have hfails := hlookupFails.trans (h.errors.symm.trans hscanFails.symm)
    by_cases hvalue : Fails (evalExpr env.eval st valueExpr record)
    · exact Or.inr ⟨hlookupFails.mpr hvalue,hfails.mp (hlookupFails.mpr hvalue)⟩
    · have ⟨v,hv⟩ := (fails_or_ok _).resolve_left hvalue
      have ⟨found,hfound,hshort,hnodup,hmem⟩ := hlookupRows v hv
      have ⟨selected,hselected⟩ := (fails_or_ok _).resolve_left fun hbad =>
        hvalue (hlookupFails.mp (hfails.mpr hbad))
      have ⟨hselNodup,hselMem⟩ := hscanRows selected hselected
      have hsame : ∀ r,r∈selected ↔ r∈found := by
        intro r
        rw [hselMem,hmem]
        refine exists_congr fun n => and_congr_right fun hn => and_congr_right fun hkept =>
          and_congr_right fun hrow => ?_
        rw [hrow]
        exact h.selects v hv n hn hkept
      have hperm := (List.perm_ext_iff_of_nodup hselNodup hnodup).mpr hsame
      rw [hfound,hselected,eq_of_perm_short hperm hshort]
      exact SameOutcome.refl _

theorem siteSafe_iff_sameOutcome {scope : Option NamedRecord}
    {view : NamedRecord → NamedRecord} :
    SameOutcome ((idLookupRows env st nodeAlias valueExpr scope).map (List.filter kept))
      ((scanRows env st "" nodeAlias scope).map (List.filter kept) >>=
        sieve fun r => evalPredicate env.eval st predicate (view r)) ↔
      SiteSafe env st scope nodeAlias valueExpr predicate kept view := by
  unfold SiteSafe
  cases scope with
  | none =>
    dsimp only [Option.bind_none,Option.any_none,Option.getD_none]
    simp only [Bool.false_eq_true,false_or]
    exact lookupSafe_iff_sameOutcome
  | some outer =>
    rw [Option.bind_some,Option.any_some,Option.getD_some]
    unfold idLookupRows scanRows
    dsimp only
    cases hbound : boundNode outer nodeAlias with
    | some id =>
      dsimp only
      cases hnode : getNode st id with
      | error e => exact iff_of_true (Or.inr ⟨⟨e,rfl⟩,⟨e,rfl⟩⟩) fun n hn => by simp at hn
      | ok n =>
        have hall : (do
            let n ← (.ok n : Result Node)
            if "" ≠ "" ∧ ""∉n.labels then pure [] else pure [nodeToRecord n nodeAlias])=
            (.ok [nodeToRecord n nodeAlias] : Result Rows) := by
          rw [bind_of_ok rfl,if_neg fun hboth => hboth.1 rfl]
          rfl
        rw [hall,bind_of_ok rfl]
        cases hkept : kept (nodeToRecord n nodeAlias) with
        | false =>
          refine iff_of_true (Or.inl ?_) fun m hm hkm => ?_
          · simp [Except.map,pure,Except.pure,hkept,bind,Except.bind,sieve]
          · rw [←Except.ok.inj hm,hkept] at hkm
            cases hkm
        | true =>
          have hone : (Except.ok [nodeToRecord n nodeAlias] : Result Rows).map (List.filter kept)=
              .ok [nodeToRecord n nodeAlias] := by simp [Except.map,hkept]
          have hpure : (pure [nodeToRecord n nodeAlias] : Result Rows)=.ok [nodeToRecord n nodeAlias] := rfl
          rw [hpure,hone,bind_of_ok rfl,sieve,sieve]
          constructor
          · intro h m hm _
            rw [←Except.ok.inj hm]
            have heq := h.symm.eq_of_ok rfl
            cases htest : evalPredicate env.eval st predicate (view (nodeToRecord n nodeAlias)) with
            | error e =>
              rw [htest] at heq
              cases heq
            | ok b =>
              rw [htest] at heq
              cases b with
              | true => rfl
              | false => cases heq
          · intro h
            rw [h n rfl hkept]
            exact SameOutcome.refl _
    | none =>
      dsimp only
      cases hnull : boundNull outer nodeAlias with
      | true =>
        rw [if_pos rfl,if_pos rfl]
        exact iff_of_true (SameOutcome.refl _) (Or.inl rfl)
      | false =>
        rw [if_neg (by simp),if_neg (by simp)]
        simp only [Bool.false_eq_true,false_or]
        exact lookupSafe_iff_sameOutcome

end Sites

section Plans

variable (env : QueryEnv S)

/-- The filters over an input that may be replaced, in the scope and the states in
which a run reaches them. -/
def FilterSafe (input : LogicalOp S) (predicate : Expr S) (outer : Option NamedRecord) (st : Store) :
    Prop :=
  match input with
  | .scan label nodeAlias => ∀ valueExpr,idTarget label nodeAlias predicate=some valueExpr →
      SiteSafe env st outer nodeAlias valueExpr predicate (fun _ => true) (filterScope outer)
  | .correlatedJoin joinInput (.scan label nodeAlias) sameMatch =>
      ∀ valueExpr,idTarget label nodeAlias predicate=some valueExpr →
      ∀ lefts st',run env joinInput outer st=(.ok lefts,st') → ∀ l∈lefts,
        SiteSafe env st' (some (joinScope outer l)) nodeAlias valueExpr predicate
          (fun r => !(sameMatch && hasDuplicateRelationships (NamedRecord.fillFrom l r)))
          fun r => filterScope outer (NamedRecord.fillFrom l r)
  | _ => True

mutual

/-- Every filter that is replaced is safe wherever a run of the plan reaches it. -/
def IdSafe : LogicalOp S → Option NamedRecord → Store → Prop
  | .expand input _,outer,st => IdSafe input outer st
  | .filter input predicate,outer,st => IdSafe input outer st ∧ FilterSafe env input predicate outer st
  | .rows op input,outer,st => IdSafe input (if op.correlates=true then outer else none) st
  | .crossProduct left right sameMatch,none,st => IdSafe left none st ∧
      ∀ lefts st',run env left none st=(.ok lefts,st') →
        AlongFold (fun done l => do
            let rights ← run env right none
            inspect fun _ => limitProduct env done (productRows sameMatch l rights))
          (fun _ s => IdSafe right none s) lefts [] st'
  | .crossProduct left right sameMatch,some outer,st => IdSafe left (some outer) st ∧
      ∀ lefts st',run env left (some outer) st=(.ok lefts,st') →
        AlongMap (fun l => do
            let rights ← run env right (some (NamedRecord.overlay outer l))
            pure (productRows sameMatch l rights))
          (fun l s => IdSafe right (some (NamedRecord.overlay outer l)) s) lefts st'
  | .correlatedJoin input right sameMatch,outer,st => IdSafe input outer st ∧
      ∀ lefts st',run env input outer st=(.ok lefts,st') →
        AlongMap (fun l => do
            let rights ← run env right (some (joinScope outer l))
            pure (joinRows sameMatch l rights))
          (fun l s => IdSafe right (some (joinScope outer l)) s) lefts st'
  | .leftOuterJoin input right optionalAliases optFilter,_,st => IdSafe input none st ∧
      ∀ lefts st',run env input none st=(.ok lefts,st') →
        AlongMap (fun l => do
            let rights ← run env right (some l)
            inspect fun st => leftOuterRows env st optionalAliases optFilter l rights)
          (fun l s => IdSafe right (some l) s) lefts st'
  | .union inputs _,_,st => IdSafeAll inputs st
  | .singleRow,_,_ => True
  | .emptyRow,_,_ => True
  | .scan _ _,_,_ => True
  | .idLookup _ _,_,_ => True
  | .indexLookup _ _ _ _ _,_,_ => True
  | .fullTextLookup _ _ _ _ _ _,_,_ => True
  | .source _,_,_ => True
termination_by structural plan => plan

/-- The inputs of a union are safe in the states in which they run. -/
def IdSafeAll : List (LogicalOp S) → Store → Prop
  | [],_ => True
  | plan::rest,st => IdSafe plan none st ∧
      ∀ rows st',run env plan none st=(.ok rows,st') → IdSafeAll rest st'
termination_by structural plans => plans

end

variable {env}
variable {predicate : Expr S} {outer : Option NamedRecord} {st : Store} {label nodeAlias : String}
  {sameMatch : Bool}
variable {input joinInput plan : LogicalOp S} {predicate valueExpr : Expr S} {st st' : Store}

theorem rewriteIdFilter_other (hscan : ∀ label nodeAlias,input≠.scan label nodeAlias)
    (hjoin : ∀ j label nodeAlias sameMatch, input≠.correlatedJoin j (.scan label nodeAlias) sameMatch) :
    rewriteIdFilter input predicate=.filter input predicate := by
  unfold rewriteIdFilter
  split
  · exact absurd rfl (hscan _ _)
  · exact absurd rfl (hjoin _ _ _ _)
  · rfl

theorem sameRun_filter {input' : LogicalOp S} (h : SameRun (run env input' outer st) (run env input outer st)) :
    SameRun (run env (.filter input' predicate) outer st) (run env (.filter input predicate) outer st) := by
  rw [run_filter,run_filter]
  exact SameRun.bind h fun _ _ _ => SameRun.refl _

theorem map_filter_true (x : Result Rows) : x.map (List.filter fun _ => true)=x := by
  cases x with
  | error e => rfl
  | ok rows => simp [Except.map]

theorem run_filterScan (label nodeAlias : String) (predicate : Expr S) (outer : Option NamedRecord)
    (st : Store) :
    run env (.filter (.scan label nodeAlias) predicate) outer st=
      (scanRows env st label nodeAlias outer >>= sieve fun r =>
        evalPredicate env.eval st predicate (filterScope outer r),st) := by
  have hscan : run env (.scan label nodeAlias) outer st=(scanRows env st label nodeAlias outer,st) := rfl
  rw [run_filter,bind_apply,hscan]
  cases scanRows env st label nodeAlias outer with
  | error e | ok rows => rfl

/-- A replaced filter over a scan runs like the written one exactly at a safe site. -/
theorem sameRun_scanSite (htarget : idTarget label nodeAlias predicate=some valueExpr) :
    SameRun (run env (.idLookup nodeAlias valueExpr) outer st)
    (run env (.filter (.scan label nodeAlias) predicate) outer st) ↔
    SiteSafe env st outer nodeAlias valueExpr predicate (fun _ => true) (filterScope outer) := by
  have hlabel : label = "" := by
    unfold idTarget at htarget
    split_ifs at htarget with hl
    exact hl
  have hlookup : run env (.idLookup nodeAlias valueExpr) outer st=
      (idLookupRows env st nodeAlias valueExpr outer,st) := rfl
  rw [←siteSafe_iff_sameOutcome,map_filter_true,map_filter_true,hlookup,hlabel,run_filterScan]
  exact and_iff_right rfl

theorem run_joinLeaf {joinInput right : LogicalOp S} {sameMatch : Bool} {outer : Option NamedRecord}
    {st st' : Store} {lefts : Rows} {leaf : NamedRecord → Result Rows}
    (hleft : run env joinInput outer st=(.ok lefts,st'))
    (hright : ∀ record,run env right (some record) st'=(leaf record,st')) :
    run env (.correlatedJoin joinInput right sameMatch) outer st=
      (gather (fun l => (leaf (joinScope outer l)).map (joinRows sameMatch l)) lefts,st') := by
  rw [run_correlatedJoin,bind_ok hleft]
  refine mapEach_reads fun l _ => ?_
  rw [bind_apply,hright]
  cases leaf (joinScope outer l) with
  | error e | ok rows => rfl

theorem joinRows_eq (sameMatch : Bool) (l : NamedRecord) (rows : Rows) :
    joinRows sameMatch l rows=
      (rows.filter fun r => !(sameMatch && hasDuplicateRelationships (NamedRecord.fillFrom l r))).map
        fun r => NamedRecord.fillFrom l r := by
  unfold joinRows uniqueWithin
  rw [List.filter_map]
  rfl

theorem map_joinRows (sameMatch : Bool) (l : NamedRecord) (x : Result Rows) :
    x.map (joinRows sameMatch l)=
      (x.map (List.filter fun r =>
        !(sameMatch && hasDuplicateRelationships (NamedRecord.fillFrom l r)))).map
        (List.map fun r => NamedRecord.fillFrom l r) := by
  cases x with
  | error e => rfl
  | ok rows =>
    dsimp only [Except.map]
    rw [joinRows_eq]

theorem bind_sieve_map (x : Result Rows) (f : NamedRecord → NamedRecord)
    (p : NamedRecord → Result Bool) :
    (x.map (List.map f) >>= sieve p)=(x >>= sieve fun r => p (f r)).map (List.map f) := by
  cases x with
  | error e => rfl
  | ok rows =>
    dsimp only [Except.map]
    rw [bind_of_ok rfl,bind_of_ok rfl,sieve_map]
    rfl

theorem run_filterJoinScan {lefts : Rows}
    (hrun : run env joinInput outer st=(.ok lefts,st')) :
    run env (.filter (.correlatedJoin joinInput (.scan label nodeAlias) sameMatch) predicate) outer st=
      (gather (fun l => (scanRows env st' label nodeAlias (some (joinScope outer l))).map
        (joinRows sameMatch l)) lefts >>= sieve fun r =>
          evalPredicate env.eval st' predicate (filterScope outer r),st') := by
  have hold := @run_joinLeaf S env joinInput (.scan label nodeAlias) sameMatch outer st st'
    lefts (fun record => scanRows env st' label nodeAlias (some record)) hrun fun _ => rfl
  rw [run_filter,bind_apply,hold]
  cases gather (fun l => (scanRows env st' label nodeAlias (some (joinScope outer l))).map
      (joinRows sameMatch l)) lefts with
  | error e | ok rows => rfl

theorem run_filterJoin_error {right : LogicalOp S} {e : GraphError}
    (hrun : run env joinInput outer st=(.error e,st')) :
    run env (.filter (.correlatedJoin joinInput right sameMatch) predicate) outer st=(.error e,st') := by
  have hjoin : run env (.correlatedJoin joinInput right sameMatch) outer st=(.error e,st') := by
    rw [run_correlatedJoin,bind_error hrun]
  rw [run_filter,bind_error hjoin]

theorem sameRun_joinSite {joinInput' : LogicalOp S}
    (htarget : idTarget label nodeAlias predicate=some valueExpr)
    (hinput : SameRun (run env joinInput' outer st) (run env joinInput outer st))
    (h : ∀ lefts st',run env joinInput outer st=(.ok lefts,st') → ∀ l∈lefts,
      SiteSafe env st' (some (joinScope outer l)) nodeAlias valueExpr predicate
        (fun r => !(sameMatch && hasDuplicateRelationships (NamedRecord.fillFrom l r)))
        fun r => filterScope outer (NamedRecord.fillFrom l r)) :
    SameRun (run env (.correlatedJoin joinInput' (.idLookup nodeAlias valueExpr) sameMatch) outer st)
      (run env (.filter (.correlatedJoin joinInput (.scan label nodeAlias) sameMatch) predicate)
        outer st) := by
  have hlabel : label = "" := by
    unfold idTarget at htarget
    split_ifs at htarget with hl
    exact hl
  cases hrun : run env joinInput outer st with
  | mk out st' =>
    cases out with
    | error e =>
      rw [hrun] at hinput
      have ⟨e',he'⟩ := hinput.2.fails_iff.mpr (fails_error e)
      have hfirst : run env joinInput' outer st=(.error e',st') := Prod.ext he' hinput.1
      rw [run_correlatedJoin,bind_error hfirst,run_filterJoin_error hrun]
      exact ⟨rfl,Or.inr ⟨fails_error e',fails_error e⟩⟩
    | ok lefts =>
      rw [hrun] at hinput
      have hfirst : run env joinInput' outer st=(.ok lefts,st') :=
        Prod.ext (hinput.2.eq_of_ok rfl) hinput.1
      have hnew := @run_joinLeaf S env joinInput' (.idLookup nodeAlias valueExpr) sameMatch outer st st'
        lefts (fun record => idLookupRows env st' nodeAlias valueExpr (some record)) hfirst fun _ => rfl
      rw [hnew,run_filterJoinScan hrun]
      have hparts : ∀ l∈lefts,SameOutcome
          ((idLookupRows env st' nodeAlias valueExpr (some (joinScope outer l))).map (joinRows sameMatch l))
          ((scanRows env st' label nodeAlias (some (joinScope outer l))).map (joinRows sameMatch l) >>=
            sieve fun r => evalPredicate env.eval st' predicate (filterScope outer r)) := by
        intro l hl
        have hsite := (siteSafe_iff_sameOutcome.mpr (h lefts st' hrun l hl)).map
          (List.map fun r => NamedRecord.fillFrom l r)
        rw [map_joinRows,map_joinRows,hlabel,bind_sieve_map]
        exact hsite
      exact ⟨rfl,(sameOutcome_gather hparts).trans (gather_sieve _ _ lefts).symm⟩

theorem rewriteIdFilter_noScan (input : LogicalOp S) (predicate : Expr S) :
    (∀ label nodeAlias,rewriteIdFilter input predicate≠.scan label nodeAlias) ∧
      ∀ j label nodeAlias sameMatch,
        rewriteIdFilter input predicate≠.correlatedJoin j (.scan label nodeAlias) sameMatch := by
  unfold rewriteIdFilter
  split
  · split
    · exact ⟨fun _ _ h => by simp at h,fun _ _ _ _ h => by simp at h⟩
    · exact ⟨fun _ _ h => by simp at h,fun _ _ _ _ h => by simp at h⟩
  · split
    · exact ⟨fun _ _ h => by simp at h,fun _ _ _ _ h => by simp at h⟩
    · exact ⟨fun _ _ h => by simp at h,fun _ _ _ _ h => by simp at h⟩
  · exact ⟨fun _ _ h => by simp at h,fun _ _ _ _ h => by simp at h⟩

theorem eq_scan_of_rewrite (h : rewriteIdFilterToLookup plan=.scan label nodeAlias) : plan=.scan label nodeAlias := by
  cases plan with
  | filter input predicate => exact absurd h ((rewriteIdFilter_noScan _ _).1 _ _)
  | scan l a =>
    rw [rewriteIdFilterToLookup] at h
    exact h
  | _ => simp [rewriteIdFilterToLookup] at h

theorem eq_join_of_rewrite {j : LogicalOp S}
    (h : rewriteIdFilterToLookup plan=.correlatedJoin j (.scan label nodeAlias) sameMatch) :
    ∃ joinInput,plan=.correlatedJoin joinInput (.scan label nodeAlias) sameMatch ∧
    j=rewriteIdFilterToLookup joinInput := by
  cases plan with
  | filter input predicate => exact absurd h ((rewriteIdFilter_noScan _ _).2 _ _ _ _)
  | correlatedJoin input right same =>
    rw [rewriteIdFilterToLookup] at h
    have ⟨hj,hright,hsame⟩ := LogicalOp.correlatedJoin.inj h
    refine ⟨input,?_,hj.symm⟩
    rw [eq_scan_of_rewrite hright,hsame]
  | _ => simp [rewriteIdFilterToLookup] at h

mutual

/-- A plan whose replaced filters are safe runs like the written one, plain and
under every outer record. -/
theorem sameRun_rewrite (plan : LogicalOp S) (outer : Option NamedRecord) (st : Store)
    (h : IdSafe env plan outer st) :
    SameRun (run env (rewriteIdFilterToLookup plan) outer st) (run env plan outer st) := by
  cases plan with
  | expand input spec =>
    rw [IdSafe] at h
    rw [rewriteIdFilterToLookup,run_expand,run_expand]
    exact SameRun.bind (sameRun_rewrite input outer st h) fun _ _ _ => SameRun.refl _
  | filter input predicate =>
    rw [IdSafe] at h
    have hinput := sameRun_rewrite input outer st h.1
    rw [rewriteIdFilterToLookup]
    by_cases hscan : ∃ label nodeAlias,input=.scan label nodeAlias
    · have ⟨label,nodeAlias,hin⟩ := hscan
      subst hin
      rw [rewriteIdFilterToLookup,rewriteIdFilter]
      cases htarget : idTarget label nodeAlias predicate with
      | none => exact SameRun.refl _
      | some valueExpr => exact (sameRun_scanSite htarget).mpr (h.2 valueExpr htarget)
    · by_cases hjoin : ∃ j label nodeAlias sameMatch,
          input=.correlatedJoin j (.scan label nodeAlias) sameMatch
      · have ⟨j,label,nodeAlias,sameMatch,hin⟩ := hjoin
        subst hin
        rw [IdSafe] at h
        have hj := sameRun_rewrite j outer st h.1.1
        rw [rewriteIdFilterToLookup,rewriteIdFilterToLookup] at hinput ⊢
        rw [rewriteIdFilter]
        cases htarget : idTarget label nodeAlias predicate with
        | none => exact sameRun_filter hinput
        | some valueExpr => exact sameRun_joinSite htarget hj (h.2 valueExpr htarget)
      · rw [rewriteIdFilter_other
          (fun label nodeAlias heq => hscan ⟨label,nodeAlias,eq_scan_of_rewrite heq⟩)
          fun j label nodeAlias sameMatch heq => hjoin (by
            have ⟨joinInput,hin,_⟩ := eq_join_of_rewrite heq
            exact ⟨joinInput,label,nodeAlias,sameMatch,hin⟩)]
        exact sameRun_filter hinput
  | rows op input =>
    rw [IdSafe] at h
    rw [rewriteIdFilterToLookup,run_rows,run_rows]
    exact SameRun.bind (sameRun_rewrite input _ st h) fun _ _ _ => SameRun.refl _
  | crossProduct left right sameMatch =>
    cases outer with
    | none =>
      rw [IdSafe] at h
      rw [rewriteIdFilterToLookup,run_crossProduct_plain,run_crossProduct_plain]
      refine SameRun.bind (sameRun_rewrite left none st h.1) fun lefts st' hrun => ?_
      refine sameRun_foldEach (fun done l s hs => ?_) (h.2 lefts st' hrun)
      exact SameRun.bind (sameRun_rewrite right none s hs) fun _ _ _ => SameRun.refl _
    | some record =>
      rw [IdSafe] at h
      rw [rewriteIdFilterToLookup,run_crossProduct_outer,run_crossProduct_outer]
      refine SameRun.bind (sameRun_rewrite left (some record) st h.1)
        fun lefts st' hrun => ?_
      refine SameRun.bind (sameRun_mapEach (fun l s hs => ?_) (h.2 lefts st' hrun))
        fun _ _ _ => SameRun.refl _
      exact SameRun.bind (sameRun_rewrite right _ s hs) fun _ _ _ => SameRun.refl _
  | correlatedJoin input right sameMatch =>
    rw [IdSafe] at h
    rw [rewriteIdFilterToLookup,run_correlatedJoin,run_correlatedJoin]
    refine SameRun.bind (sameRun_rewrite input outer st h.1) fun lefts st' hrun => ?_
    refine SameRun.bind (sameRun_mapEach (fun l s hs => ?_) (h.2 lefts st' hrun))
      fun _ _ _ => SameRun.refl _
    exact SameRun.bind (sameRun_rewrite right _ s hs) fun _ _ _ => SameRun.refl _
  | leftOuterJoin input right optionalAliases optFilter =>
    rw [IdSafe] at h
    rw [rewriteIdFilterToLookup,run_leftOuterJoin,run_leftOuterJoin]
    refine SameRun.bind (sameRun_rewrite input none st h.1) fun lefts st' hrun => ?_
    refine SameRun.bind (sameRun_mapEach (fun l s hs => ?_) (h.2 lefts st' hrun))
      fun _ _ _ => SameRun.refl _
    exact SameRun.bind (sameRun_rewrite right _ s hs) fun _ _ _ => SameRun.refl _
  | union inputs all =>
    rw [IdSafe] at h
    rw [rewriteIdFilterToLookup,run_union,run_union]
    exact SameRun.bind (sameRun_rewriteAll inputs st h) fun _ _ _ => SameRun.refl _
  | _ =>
    rw [rewriteIdFilterToLookup]
    exact SameRun.refl _
termination_by sizeOf plan

theorem sameRun_rewriteAll (plans : List (LogicalOp S)) (st : Store)
    (h : IdSafeAll env plans st) :
    SameRun (runAll env (rewriteIdFilters plans) st) (runAll env plans st) := by
  cases plans with
  | nil =>
    rw [rewriteIdFilters]
    exact SameRun.refl _
  | cons plan rest =>
    rw [IdSafeAll] at h
    rw [rewriteIdFilters,runAll_cons,runAll_cons]
    refine SameRun.bind (sameRun_rewrite plan none st h.1) fun rows st' hrun => ?_
    exact SameRun.bind (sameRun_rewriteAll rest st' (h.2 rows st' hrun)) fun _ _ _ =>
      SameRun.refl _
termination_by sizeOf plans

end

/-- A plan whose replaced filters are safe wherever a run reaches them runs like the
written one, with the same rows in the same order, plain and under every outer
record. For a single filter over a scan this is exact. -/
theorem rewriteIdFilterToLookup_sameRun (plan : LogicalOp S) (outer : Option NamedRecord) (st : Store) :
    (IdSafe env plan outer st →
      SameRun (run env (rewriteIdFilterToLookup plan) outer st) (run env plan outer st)) ∧
    ∀ label nodeAlias predicate,plan=.filter (.scan label nodeAlias) predicate →
      SameRun (run env (rewriteIdFilterToLookup plan) outer st) (run env plan outer st) →
      IdSafe env plan outer st := by
  refine ⟨sameRun_rewrite plan outer st,fun label nodeAlias predicate hplan hsame => ?_⟩
  subst hplan
  rw [rewriteIdFilterToLookup,rewriteIdFilterToLookup,rewriteIdFilter] at hsame
  rw [IdSafe]
  refine ⟨trivial,fun valueExpr htarget => ?_⟩
  rw [htarget] at hsame
  exact (sameRun_scanSite htarget).mp hsame

end Plans

/-- The scan of all nodes with the filter that its identifier is the value of an
expression. -/
def idFilterPlan (e : Expr Empty) : LogicalOp Empty :=
  .filter (.scan "" "n") (.binaryOp (.functionCall "id" [.var "n"] false none) .eq e)

/-- The node of the sample database. -/
def personNode : Node := ⟨1,["Person"],[("name",.string "x")]⟩

theorem idFilterPlan_safe : IdSafe plainEnv (idFilterPlan (.literal (.i64 1))) none personStore := by
  have hnodes : findNodesByLabel personStore ""=[personNode] := rfl
  have hvalue : evalExpr plainEnv.eval personStore (.literal (.i64 1)) emptyRecord=.ok (.i64 1) := rfl
  have htest : evalPredicate plainEnv.eval personStore
      (.binaryOp (.functionCall "id" [.var "n"] false none) .eq (.literal (.i64 1)))
      (filterScope none (nodeToRecord personNode "n"))=.ok true := rfl
  rw [idFilterPlan,IdSafe]
  refine ⟨trivial,fun valueExpr htarget => Or.inr ?_⟩
  have hexpr : valueExpr=.literal (.i64 1) := by
    have hfound : idTarget "" "n" (.binaryOp (.functionCall "id" [.var "n"] false none) .eq
        (.literal (.i64 1) : Expr Empty))=some (.literal (.i64 1)) := rfl
    rw [hfound] at htarget
    exact (Option.some.inj htarget).symm
  rw [hexpr]
  refine ⟨iff_of_false ?_ ?_,fun v hv n hn _ => ?_⟩
  · intro h
    cases h with
    | inl hlimit => exact absurd hlimit.1 (Nat.lt_irrefl 0)
    | inr hfail =>
      have ⟨n,hn,_,hbad⟩ := hfail
      rw [hnodes] at hn
      rw [List.mem_singleton.mp hn,htest] at hbad
      exact not_fails_ok true hbad
  · intro h
    change Fails (evalExpr plainEnv.eval personStore (.literal (.i64 1)) emptyRecord) at h
    rw [hvalue] at h
    exact not_fails_ok _ h
  · have hsame : Value.i64 1=v := Except.ok.inj (hvalue.symm.trans hv)
    rw [hnodes] at hn
    rw [List.mem_singleton.mp hn,htest,←hsame]
    exact iff_of_true rfl ⟨rfl,by decide⟩

/-- The rewritten lookup of the first identifier runs like the filter. -/
theorem idFilterPlan_sameRun :
    IdSafe plainEnv (idFilterPlan (.literal (.i64 1))) none personStore ∧
      SameRun (run plainEnv (rewriteIdFilterToLookup (idFilterPlan (.literal (.i64 1)))) none personStore)
        (run plainEnv (idFilterPlan (.literal (.i64 1))) none personStore) :=
  ⟨idFilterPlan_safe,
    (rewriteIdFilterToLookup_sameRun _ none personStore).1 idFilterPlan_safe⟩

/-- An expression that names the node inside an indexed list is moved out of the
scan and loses the node; and a variable that is already bound escapes the filter. -/
theorem rewriteIdFilterToLookup_changes_rows :
    ¬SameRows (exec plainEnv (rewriteIdFilterToLookup (idFilterPlan
          (.index (.list [.functionCall "id" [.var "n"] false none]) (.literal (.i64 0))))) personStore).1
        (exec plainEnv (idFilterPlan
          (.index (.list [.functionCall "id" [.var "n"] false none]) (.literal (.i64 0)))) personStore).1 ∧
      ¬SameRows (execCorrelated plainEnv (rewriteIdFilterToLookup (idFilterPlan (.literal (.i64 2))))
          ⟨[("n",.i64 1)]⟩ personStore).1
        (execCorrelated plainEnv (idFilterPlan (.literal (.i64 2))) ⟨[("n",.i64 1)]⟩ personStore).1 := by
  have hlost : rowCount (exec plainEnv (rewriteIdFilterToLookup (idFilterPlan
      (.index (.list [.functionCall "id" [.var "n"] false none]) (.literal (.i64 0)))))
      personStore)=some 0 := by decide
  have hkept : rowCount (exec plainEnv (idFilterPlan
      (.index (.list [.functionCall "id" [.var "n"] false none]) (.literal (.i64 0))))
      personStore)=some 1 := by decide
  have hescaped : rowCount (execCorrelated plainEnv
      (rewriteIdFilterToLookup (idFilterPlan (.literal (.i64 2)))) ⟨[("n",.i64 1)]⟩ personStore)=
        some 1 := by decide
  have hfiltered : rowCount (execCorrelated plainEnv (idFilterPlan (.literal (.i64 2)))
      ⟨[("n",.i64 1)]⟩ personStore)=some 0 := by decide
  exact ⟨not_sameRows_of_rowCount (by decide) hlost hkept,
    not_sameRows_of_rowCount (by decide) hescaped hfiltered⟩

end GraphDbLite.IdRewrite
