import Mathlib.Data.List.Dedup
import GraphDbLite.IndexChoice

/-!
# Index lookups for WHERE clauses

A filter over a label scan against the plan in which the equalities of the WHERE
clause on leading columns became an index lookup. Nodes that lack a later column
are in the scan and not in the index; the remaining differences are those between
bytes and values, between labels and the label column, and between the errors that
the two plans raise.
-/

namespace GraphDbLite.WhereIndex

open GraphTypes OrderedTable GraphStore NodeStorage SecondaryIndex
open CypherSyntax CypherEval QueryPlan FallibleLists QueryExecutor
open NodeView NodeRecords IndexMirror IndexAccess IndexChoice

variable {S : Type}

/-- The index chosen for the scan of a variable under a WHERE clause. -/
def whereIndex (st : Store) (label nodeAlias : String) (predicate : Expr S) : Option (IndexInfo×Nat) :=
  let candidates := indexCandidates nodeAlias (decomposeConjuncts predicate)
  if candidates.isEmpty=true ∨ label = "" then none
  else pickIndexForEqualityPreds (listIndexesForLabel st label) candidates

/-- Whether the lookup on the given columns took a conjunct. -/
def taken (nodeAlias : String) (used : List String) (conj : Expr S) : Bool :=
  isConsumed (used.map fun p => (nodeAlias,p)) conj

/-- The conjuncts left to the filter. -/
def leftConjuncts (nodeAlias : String) (used : List String) (predicate : Expr S) : List (Expr S) :=
  (decomposeConjuncts predicate).filter fun conj => !taken nodeAlias used conj

/-- The keys of the lookup. -/
def whereLookups (nodeAlias : String) (used : List String) (predicate : Expr S) :
    List (String×LookupKey) :=
  lookupsFor (indexCandidates nodeAlias (decomposeConjuncts predicate)) used

theorem tryReplaceScanMulti_scan {st : Store} {label nodeAlias other : String}
    {candidates : List (String×LookupKey)} (h : nodeAlias≠other) :
    tryReplaceScanMulti st other candidates (.scan label nodeAlias : LogicalOp S)=none := by
  rw [tryReplaceScanMulti,if_pos (Or.inr (Or.inl h))]

theorem tryReplaceScanMulti_self (st : Store) (label nodeAlias : String) (predicate : Expr S) :
    tryReplaceScanMulti st nodeAlias (indexCandidates nodeAlias (decomposeConjuncts predicate))
        (.scan label nodeAlias : LogicalOp S)=
      (whereIndex st label nodeAlias predicate).map fun choice =>
        (.indexLookup label nodeAlias choice.1.properties
          (whereLookups nodeAlias (choice.1.properties.take choice.2) predicate) none,
          choice.1.properties.take choice.2) := by
  rw [tryReplaceScanMulti]
  unfold whereIndex whereLookups
  by_cases hskip : (indexCandidates nodeAlias (decomposeConjuncts predicate)).isEmpty=true ∨ label = ""
  · have hthree : (indexCandidates nodeAlias (decomposeConjuncts predicate)).isEmpty=true ∨
        nodeAlias≠nodeAlias ∨ label = "" := by
      cases hskip with
      | inl hempty => exact Or.inl hempty
      | inr hlabel => exact Or.inr (Or.inr hlabel)
    rw [if_pos hthree,if_pos hskip]
    rfl
  · have hthree : ¬((indexCandidates nodeAlias (decomposeConjuncts predicate)).isEmpty=true ∨
        nodeAlias≠nodeAlias ∨ label = "") := by
      intro h
      obtain hempty | hself | hlabel := h
      · exact hskip (Or.inl hempty)
      · exact hself rfl
      · exact hskip (Or.inr hlabel)
    rw [if_neg hthree,if_neg hskip]

theorem indexCandidates_nil {nodeAlias : String} {conjuncts : List (Expr S)}
    (h : nodeAlias∉candidateAliases conjuncts) : indexCandidates nodeAlias conjuncts=[] := by
  have hnone : ∀ conj∈conjuncts,∀ a p key,extractEqPropertyPredicate conj=some (a,p,key) → a≠nodeAlias := by
    intro conj hconj a p key heq hsame
    refine h ?_
    unfold candidateAliases
    rw [List.mem_insertionSort,List.mem_dedup,List.mem_filterMap]
    refine ⟨conj,hconj,?_⟩
    rw [heq,←hsame]
    rfl
  have hkeep : collectCandidates nodeAlias conjuncts=⟨[],[]⟩ := by
    unfold collectCandidates
    clear h
    induction conjuncts with
    | nil => rfl
    | cons conj rest ih =>
      have hrest := ih fun c hc => hnone c (List.mem_cons_of_mem conj hc)
      rw [List.foldl_cons]
      cases hext : extractEqPropertyPredicate conj with
      | none => exact hrest
      | some found =>
        have ⟨a,p,key⟩ := found
        dsimp only
        rw [if_neg (hnone conj List.mem_cons_self a p key hext)]
        exact hrest
  unfold indexCandidates
  rw [hkeep]
  rfl

theorem planWhere_scan (st : Store) (label nodeAlias : String) (predicate : Expr S) :
    planWhere st predicate (.scan label nodeAlias)=
      match whereIndex st label nodeAlias predicate with
      | some (info,k) => withConjuncts (leftConjuncts nodeAlias (info.properties.take k) predicate)
          (.indexLookup label nodeAlias info.properties
            (whereLookups nodeAlias (info.properties.take k) predicate) none)
      | none => withConjuncts (decomposeConjuncts predicate) (.scan label nodeAlias) := by
  have hself := tryReplaceScanMulti_self st label nodeAlias predicate
  have hlookup : ∀ (aliases : List String) (props : List String) (lookups : List (String×LookupKey))
      (consumed : List (String×String)),
      aliases.foldl (replaceStep st (decomposeConjuncts predicate))
        (.indexLookup label nodeAlias props lookups none,consumed)=
        (.indexLookup label nodeAlias props lookups none,consumed) := by
    intro aliases props lookups consumed
    induction aliases with
    | nil => rfl
    | cons a rest ih =>
      rw [List.foldl_cons]
      exact ih
  have hfold : ∀ aliases : List String,
      aliases.foldl (replaceStep st (decomposeConjuncts predicate)) (.scan label nodeAlias,[])=
        if nodeAlias∈aliases then
          replaceStep st (decomposeConjuncts predicate) (.scan label nodeAlias,[]) nodeAlias
        else (.scan label nodeAlias,[]) := by
    intro aliases
    induction aliases with
    | nil => rfl
    | cons a rest ih =>
      rw [List.foldl_cons]
      by_cases ha : nodeAlias=a
      · rw [if_pos (by rw [ha]; exact List.mem_cons_self),←ha]
        unfold replaceStep
        dsimp only
        rw [hself]
        cases hindex : whereIndex st label nodeAlias predicate with
        | none =>
          dsimp only [Option.map_none]
          have hih := ih
          unfold replaceStep at hih
          dsimp only at hih
          rw [hself,hindex] at hih
          dsimp only [Option.map_none] at hih
          rw [ite_self] at hih
          exact hih
        | some choice =>
          dsimp only [Option.map_some]
          exact hlookup rest _ _ _
      · have hstep : replaceStep st (decomposeConjuncts predicate) (.scan label nodeAlias,[]) a=
            (.scan label nodeAlias,[]) := by
          unfold replaceStep
          rw [tryReplaceScanMulti_scan ha]
        rw [hstep,ih]
        simp only [List.mem_cons,ha,false_or]
  unfold planWhere
  dsimp only
  rw [hfold]
  by_cases hin : nodeAlias∈candidateAliases (decomposeConjuncts predicate)
  · rw [if_pos hin]
    unfold replaceStep
    dsimp only
    rw [hself]
    cases hindex : whereIndex st label nodeAlias predicate with
    | none =>
      dsimp only [Option.map_none]
      congr 1
      rw [List.filter_eq_self]
      intro conj _
      unfold isConsumed
      split <;> simp
    | some choice => rfl
  · rw [if_neg hin]
    have hindex : whereIndex st label nodeAlias predicate=none := by
      unfold whereIndex
      rw [indexCandidates_nil hin]
      rfl
    rw [hindex]
    dsimp only
    congr 1
    rw [List.filter_eq_self]
    intro conj _
    unfold isConsumed
    split <;> simp

section Agreement

variable (env : QueryEnv S) (st : Store) (label nodeAlias : String) (predicate : Expr S)

/-- Value of an expression on the record of a node. -/
def onNode (n : Node) (expr : Expr S) : Result Value :=
  evalExpr env.eval st expr (nodeToRecord n nodeAlias)

/-- When the filter over the label scan raises an error. -/
def FilterRaises : Prop :=
  ExceedsLimit env st label ∨
    ∃ n∈findNodesByLabel st label,Fails (onNode env st nodeAlias n predicate)

/-- A scanned node on which every conjunct holds. -/
def Satisfies (n : Node) : Prop :=
  ∀ c∈decomposeConjuncts predicate,onNode env st nodeAlias n c=.ok (.bool true)

/-- A node found by the lookup on the given columns. -/
def LookedFor (info : IndexInfo) (used : List String) (n : Node) : Prop :=
  Looked env st label info.properties (whereLookups nodeAlias used predicate) n

/-- A node on which the conjuncts left to the filter hold. -/
def SatisfiesRest (used : List String) (n : Node) : Prop :=
  ∀ c∈decomposeConjuncts predicate,taken nodeAlias used c=false →
    onNode env st nodeAlias n c=.ok (.bool true)

/-- When the lookup with the filter over it raises an error. -/
def PrefixLookupRaises (info : IndexInfo) (used : List String) : Prop :=
  (∃ entry∈whereLookups nodeAlias used predicate,Fails (resolveLookupKey env entry.2)) ∨
    ∃ n,LookedFor env st label nodeAlias predicate info used n ∧
      Fails (passesFilter env st (rebuildConjunction (leftConjuncts nodeAlias used predicate))
        (nodeToRecord n nodeAlias))

/-- Nothing in the store tells the lookup on the leading columns from the scan. -/
structure PrefixAgrees (info : IndexInfo) (used : List String) : Prop where
  /-- Errors are raised alike. -/
  errors : PrefixLookupRaises env st label nodeAlias predicate info used ↔
    FilterRaises env st label nodeAlias predicate
  /-- The conjuncts taken by the lookup hold of what it finds by its bytes. -/
  values : ¬FilterRaises env st label nodeAlias predicate →
    ∀ n,LookedFor env st label nodeAlias predicate info used n →
      SatisfiesRest env st nodeAlias predicate used n →
      ∀ c∈decomposeConjuncts predicate,taken nodeAlias used c=true →
        onNode env st nodeAlias n c=.ok (.bool true)
  /-- What the scan finds has the label, not only a label column that matches it. -/
  carried : ¬FilterRaises env st label nodeAlias predicate → ∀ n∈findNodesByLabel st label,
    Satisfies env st nodeAlias predicate n → label∈n.labels
  /-- What the scan finds has a value for every column of the index, the columns
  after the equalities included. -/
  columns : ¬FilterRaises env st label nodeAlias predicate → ∀ n∈findNodesByLabel st label,
    Satisfies env st nodeAlias predicate n → ∀ p∈info.properties,(getProp n.properties p).isSome=true
  /-- What the scan finds serializes the leading columns like the keys. -/
  bytes : ¬FilterRaises env st label nodeAlias predicate → ∀ n∈findNodesByLabel st label,
    Satisfies env st nodeAlias predicate n → ∀ entry∈whereLookups nodeAlias used predicate,
      ∃ v,resolveLookupKey env entry.2=.ok v ∧
        (getProp n.properties entry.1).map env.enc=some (env.enc v)

/-- No index is chosen, or the chosen one cannot be told from the scan. -/
def WhereAgrees : Prop :=
  ∀ info k,whereIndex st label nodeAlias predicate=some (info,k) →
    PrefixAgrees env st label nodeAlias predicate info (info.properties.take k)

variable {env st label nodeAlias predicate}

/-- A node that the lookup and the filter over it return. -/
def PrefixReturns (env : QueryEnv S) (st : Store) (label nodeAlias : String) (predicate : Expr S)
    (info : IndexInfo) (used : List String) (n : Node) : Prop :=
  LookedFor env st label nodeAlias predicate info used n ∧ SatisfiesRest env st nodeAlias predicate used n

/-- A node that the filter over the scan returns. -/
def FilterReturns (env : QueryEnv S) (st : Store) (label nodeAlias : String) (predicate : Expr S)
    (n : Node) : Prop :=
  n∈findNodesByLabel st label ∧ Satisfies env st nodeAlias predicate n

theorem filter_scan_eq : (.filter (.scan label nodeAlias) predicate : LogicalOp S)=
    withFilters [predicate] (.scan label nodeAlias) := rfl

theorem passes_singleton (n : Node) :
    passes (nodeTests env st nodeAlias [predicate]) n=
      evalPredicate env.eval st predicate (nodeToRecord n nodeAlias) := by
  unfold nodeTests
  rw [List.map_cons,List.map_nil,passes]
  cases evalPredicate env.eval st predicate (nodeToRecord n nodeAlias) with
  | error e => rfl
  | ok b => cases b <;> rfl

theorem filterScan_spec :
    (Fails (exec env (.filter (.scan label nodeAlias) predicate) st).1 ↔
        FilterRaises env st label nodeAlias predicate) ∧
      ∀ rows,(exec env (.filter (.scan label nodeAlias) predicate) st).1=.ok rows →
        rows.Nodup ∧ ∀ r,r∈rows ↔
          ∃ n,FilterReturns env st label nodeAlias predicate n ∧ r=nodeToRecord n nodeAlias := by
  rw [filter_scan_eq,fails_filteredScan]
  constructor
  · unfold FilterRaises onNode
    simp only [passes_singleton,fails_evalPredicate]
  · intro rows hrows
    refine ⟨nodup_filteredScan hrows,fun r => ?_⟩
    rw [mem_filteredScan hrows r]
    unfold FilterReturns Satisfies onNode
    simp only [passes_singleton,evalPredicate_true_iff,evalExpr_true_iff_conjuncts predicate,and_assoc]

/-- The plan with a lookup fails or returns rows as the lookup and the filter do. -/
theorem lookupPlan_spec (henc : SelfDelimiting env.enc) (hmirror : IndexesMirror env.enc st)
    {info : IndexInfo} {used : List String}
    (huse : Usable st label info.properties (whereLookups nodeAlias used predicate)) :
    (Fails (exec env (withConjuncts (leftConjuncts nodeAlias used predicate)
        (.indexLookup label nodeAlias info.properties (whereLookups nodeAlias used predicate) none)) st).1 ↔
        PrefixLookupRaises env st label nodeAlias predicate info used) ∧
      ∀ rows,(exec env (withConjuncts (leftConjuncts nodeAlias used predicate)
        (.indexLookup label nodeAlias info.properties (whereLookups nodeAlias used predicate)
          none)) st).1=.ok rows → rows.Nodup ∧ ∀ r,r∈rows ↔
          ∃ n,PrefixReturns env st label nodeAlias predicate info used n ∧ r=nodeToRecord n nodeAlias := by
  have hrun : exec env (.indexLookup label nodeAlias info.properties
      (whereLookups nodeAlias used predicate) none) st=
      (execIndexLookup env st label nodeAlias info.properties
        (whereLookups nodeAlias used predicate) none,st) := rfl
  have hfails := @fails_execIndexLookup S env st label nodeAlias info.properties
    (whereLookups nodeAlias used predicate) none henc hmirror huse
  have hrest : ∀ n,passesFilter env st (rebuildConjunction (leftConjuncts nodeAlias used predicate))
      (nodeToRecord n nodeAlias)=.ok true ↔ SatisfiesRest env st nodeAlias predicate used n := by
    intro n
    have hleft : SatisfiesRest env st nodeAlias predicate used n ↔
        ∀ c∈leftConjuncts nodeAlias used predicate,
          evalExpr env.eval st c (nodeToRecord n nodeAlias)=.ok (.bool true) := by
      unfold SatisfiesRest onNode leftConjuncts
      simp only [List.mem_filter,and_imp,Bool.not_eq_true']
    rw [hleft]
    cases hconj : rebuildConjunction (leftConjuncts nodeAlias used predicate) with
    | none =>
      have hnil : leftConjuncts nodeAlias used predicate=[] := by
        cases hlist : leftConjuncts nodeAlias used predicate with
        | nil => rfl
        | cons first rest =>
          rw [hlist] at hconj
          cases hconj
      rw [hnil]
      simp [passesFilter]
    | some residual =>
      rw [passesFilter,evalPredicate_true_iff,rebuildConjunction_true hconj]
  have htest : ∀ n,passes (((rebuildConjunction (leftConjuncts nodeAlias used predicate)).toList).map
      fun p => evalPredicate env.eval st p) (nodeToRecord n nodeAlias)=
      passesFilter env st (rebuildConjunction (leftConjuncts nodeAlias used predicate))
        (nodeToRecord n nodeAlias) := by
    intro n
    cases rebuildConjunction (leftConjuncts nodeAlias used predicate) with
    | none => rfl
    | some residual =>
      have hsingle := @passes_singleton S env st nodeAlias residual n
      rw [←passes_nodeTests] at hsingle
      exact hsingle
  unfold withConjuncts
  rw [run_withFilters hrun]
  dsimp only
  cases hlookup : execIndexLookup env st label nodeAlias info.properties
      (whereLookups nodeAlias used predicate) none with
  | error e =>
    have hkeys : ∃ entry∈whereLookups nodeAlias used predicate,
        Fails (resolveLookupKey env entry.2) := by
      rw [hlookup] at hfails
      cases hfails.mp (fails_error e) with
      | inl hkeys => exact hkeys
      | inr hnode =>
        have ⟨n,_,hfail⟩ := hnode
        exact absurd hfail (not_fails_ok true)
    refine ⟨iff_of_true (fails_bind_error (fails_error e)) (Or.inl hkeys),fun rows hrows => ?_⟩
    cases hrows
  | ok found =>
    have hmem := mem_execIndexLookup henc hmirror huse hlookup
    have hin : ∀ r,r∈found ↔ ∃ n,LookedFor env st label nodeAlias predicate info used n ∧
        r=nodeToRecord n nodeAlias := by
      intro r
      rw [hmem r]
      unfold LookedFor
      simp [passesFilter]
    have hresolve : ¬∃ entry∈whereLookups nodeAlias used predicate,
        Fails (resolveLookupKey env entry.2) := by
      intro hkeys
      have hbad := hfails.mpr (Or.inl hkeys)
      rw [hlookup] at hbad
      exact not_fails_ok found hbad
    rw [bind_of_ok rfl]
    constructor
    · rw [fails_sieves]
      unfold PrefixLookupRaises
      constructor
      · intro h
        have ⟨r,hr,hfail⟩ := h
        have ⟨n,hn,hrow⟩ := (hin r).mp hr
        rw [hrow,htest] at hfail
        exact Or.inr ⟨n,hn,hfail⟩
      · intro h
        have ⟨n,hn,hfail⟩ := h.resolve_left hresolve
        refine ⟨nodeToRecord n nodeAlias,(hin _).mpr ⟨n,hn,rfl⟩,?_⟩
        rw [htest]
        exact hfail
    · intro rows hrows
      refine ⟨(sieves_sublist hrows).nodup (nodup_execIndexLookup henc hmirror huse hlookup),fun r => ?_⟩
      rw [mem_sieves hrows,hin]
      unfold PrefixReturns
      constructor
      · intro h
        have ⟨⟨n,hn,hrow⟩,hpass⟩ := h
        rw [hrow,htest,hrest] at hpass
        exact ⟨n,⟨hn,hpass⟩,hrow⟩
      · intro h
        have ⟨n,⟨hn,hpass⟩,hrow⟩ := h
        refine ⟨⟨n,hn,hrow⟩,?_⟩
        rw [hrow,htest,hrest]
        exact hpass

theorem splitFilter_agrees :
    SameRows (exec env (withConjuncts (decomposeConjuncts predicate) (.scan label nodeAlias)) st).1
      (exec env (.filter (.scan label nodeAlias) predicate) st).1 := by
  have ⟨rebuilt,hrebuilt⟩ := rebuild_decompose_isSome predicate
  have hplan : withConjuncts (decomposeConjuncts predicate) (.scan label nodeAlias : LogicalOp S)=
      .filter (.scan label nodeAlias) rebuilt := by
    unfold withConjuncts
    rw [hrebuilt]
    rfl
  have hone := @filterScan_spec S env st label nodeAlias rebuilt
  have htwo := @filterScan_spec S env st label nodeAlias predicate
  have hfails : FilterRaises env st label nodeAlias rebuilt ↔
      FilterRaises env st label nodeAlias predicate := by
    unfold FilterRaises onNode
    refine or_congr_right (exists_congr fun n => and_congr_right fun _ => ?_)
    have hsame := (@rebuild_decompose S env.eval st (nodeToRecord n nodeAlias) predicate rebuilt hrebuilt).2
    rw [fails_evalPredicate,fails_evalPredicate] at hsame
    exact hsame
  have htrue : ∀ n,FilterReturns env st label nodeAlias rebuilt n ↔
      FilterReturns env st label nodeAlias predicate n := by
    intro n
    unfold FilterReturns Satisfies onNode
    have hsame := (@rebuild_decompose S env.eval st (nodeToRecord n nodeAlias) predicate rebuilt hrebuilt).1
    rw [evalPredicate_true_iff,evalPredicate_true_iff,evalExpr_true_iff_conjuncts rebuilt,
      evalExpr_true_iff_conjuncts predicate] at hsame
    exact and_congr_right fun _ => hsame
  rw [hplan,sameRows_iff_agree (fun rows hrows => (hone.2 rows hrows).1) fun rows hrows =>
    (htwo.2 rows hrows).1,agree_iff_of_mem (fun rows hrows => (hone.2 rows hrows).2) fun rows hrows =>
    (htwo.2 rows hrows).2,hone.1,htwo.1]
  refine ⟨hfails,fun _ r => ?_⟩
  simp only [htrue]

/-- The two plans return the same nodes exactly when the kinds of difference are
absent. -/
theorem prefixAgrees_iff (hnodes : NodesOk st) (hlabel : isValidName label=true) {info : IndexInfo}
    {used : List String} :
    PrefixAgrees env st label nodeAlias predicate info used ↔
      (PrefixLookupRaises env st label nodeAlias predicate info used ↔
        FilterRaises env st label nodeAlias predicate) ∧
      (¬PrefixLookupRaises env st label nodeAlias predicate info used →
        ∀ n,PrefixReturns env st label nodeAlias predicate info used n ↔
          FilterReturns env st label nodeAlias predicate n) := by
  constructor
  · intro h
    refine ⟨h.errors,fun hraise n => ?_⟩
    have hquiet : ¬FilterRaises env st label nodeAlias predicate := fun hfilter =>
      hraise (h.errors.mpr hfilter)
    constructor
    · intro hret
      refine ⟨scanned_of_carries hnodes hlabel hret.1.stored hret.1.carries,fun c hc => ?_⟩
      cases htaken : taken nodeAlias used c with
      | true => exact h.values hquiet n hret.1 hret.2 c hc htaken
      | false => exact hret.2 c hc htaken
    · intro hret
      exact ⟨⟨stored_of_mem_findNodesByLabel hret.1,h.carried hquiet n hret.1 hret.2,
        h.columns hquiet n hret.1 hret.2,h.bytes hquiet n hret.1 hret.2⟩,fun c hc _ => hret.2 c hc⟩
  · intro h
    have hsame : ¬FilterRaises env st label nodeAlias predicate →
        ∀ n,PrefixReturns env st label nodeAlias predicate info used n ↔
          FilterReturns env st label nodeAlias predicate n :=
      fun hquiet => h.2 fun hraise => hquiet (h.1.mp hraise)
    have hright : ¬FilterRaises env st label nodeAlias predicate → ∀ n∈findNodesByLabel st label,
        Satisfies env st nodeAlias predicate n →
        LookedFor env st label nodeAlias predicate info used n :=
      fun hquiet n hin hsat => ((hsame hquiet n).mpr ⟨hin,hsat⟩).1
    exact ⟨h.1,fun hquiet n hlooked hrest c hc _ => ((hsame hquiet n).mp ⟨hlooked,hrest⟩).2 c hc,
      fun hquiet n hin hsat => (hright hquiet n hin hsat).carries,
      fun hquiet n hin hsat => (hright hquiet n hin hsat).columns,
      fun hquiet n hin hsat => (hright hquiet n hin hsat).keys⟩

/-- The plan of a WHERE clause over a label scan gives the rows of the filter over
the scan exactly when no index is chosen or the chosen one cannot be told from the
scan. -/
theorem planWhere_sameRows_iff (henc : SelfDelimiting env.enc) (hmirror : IndexesMirror env.enc st)
    (hnodes : NodesOk st) (label nodeAlias : String) (predicate : Expr S) :
    SameRows (exec env (planWhere st predicate (.scan label nodeAlias)) st).1
        (exec env (.filter (.scan label nodeAlias) predicate) st).1 ↔
      WhereAgrees env st label nodeAlias predicate := by
  rw [planWhere_scan]
  cases hindex : whereIndex st label nodeAlias predicate with
  | none =>
    refine iff_of_true splitFilter_agrees fun info k hk => ?_
    rw [hindex] at hk
    cases hk
  | some choice =>
    have ⟨info,k⟩ := choice
    have hpick : Picked (listIndexesForLabel st label)
        (indexCandidates nodeAlias (decomposeConjuncts predicate)) (info,k) := by
      have hfound := hindex
      unfold whereIndex at hfound
      dsimp only at hfound
      split_ifs at hfound
      exact pickIndexForEqualityPreds_spec hfound
    have huse : Usable st label info.properties
        (whereLookups nodeAlias (info.properties.take k) predicate) :=
      usable_of_picked hmirror.names hpick
    have hlookup := lookupPlan_spec henc hmirror huse
    have hfilter := @filterScan_spec S env st label nodeAlias predicate
    have hchoice : WhereAgrees env st label nodeAlias predicate ↔
        PrefixAgrees env st label nodeAlias predicate info (info.properties.take k) := by
      constructor
      · intro h
        exact h info k hindex
      · intro h other j hj
        rw [hindex] at hj
        have heq := Prod.mk.inj (Option.some.inj hj)
        rw [←heq.1,←heq.2]
        exact h
    dsimp only
    rw [hchoice,sameRows_iff_agree (fun rows hrows => (hlookup.2 rows hrows).1) fun rows hrows =>
      (hfilter.2 rows hrows).1,agree_iff_of_mem (fun rows hrows => (hlookup.2 rows hrows).2)
      fun rows hrows => (hfilter.2 rows hrows).2,hlookup.1,hfilter.1,
      prefixAgrees_iff hnodes huse.defined.label,
      nodeRows_iff (fun n hn => hn.1.stored) fun n hn => stored_of_mem_findNodesByLabel hn.1]

end Agreement

/-- The WHERE clause that asks for a name. -/
def nameIs (name : String) : Expr Empty :=
  .binaryOp (.property "n" "name") .eq (.literal (.string name))

/-- For a name that is not stored the lookup on the first of two columns gives the
rows of the scan, and so nothing in the store tells them apart. -/
theorem planWhere_sameRows_missing_name :
    SelfDelimiting plainEnv.enc ∧ IndexesMirror plainEnv.enc (personIndex ["name","age"]) ∧
      NodesOk (personIndex ["name","age"]) ∧
      WhereAgrees plainEnv (personIndex ["name","age"]) "Person" "n" (nameIs "y") := by
  have hinv := personIndex_inv ["name","age"]
  have hlookup : rowCount (exec plainEnv (planWhere (personIndex ["name","age"]) (nameIs "y")
      (.scan "Person" "n")) (personIndex ["name","age"]))=some 0 := by decide +kernel
  have hscan : rowCount (exec plainEnv (.filter (.scan "Person" "n") (nameIs "y"))
      (personIndex ["name","age"]))=some 0 := by decide +kernel
  exact ⟨shortFrame_selfDelimiting,hinv.mirror,hinv.nodes,
    (planWhere_sameRows_iff shortFrame_selfDelimiting hinv.mirror hinv.nodes "Person" "n"
      (nameIs "y")).mp (sameRows_of_rowCount hlookup hscan)⟩

/-- The person without an age is in the scan and not in the index on name and age. -/
theorem planWhere_loses_sparse_node :
    IndexesMirror plainEnv.enc (personIndex ["name","age"]) ∧
      ¬SameRows (exec plainEnv (planWhere (personIndex ["name","age"]) (nameIs "x")
          (.scan "Person" "n")) (personIndex ["name","age"])).1
        (exec plainEnv (.filter (.scan "Person" "n") (nameIs "x")) (personIndex ["name","age"])).1 := by
  have hlookup : rowCount (exec plainEnv (planWhere (personIndex ["name","age"]) (nameIs "x")
      (.scan "Person" "n")) (personIndex ["name","age"]))=some 0 := by decide +kernel
  have hscan : rowCount (exec plainEnv (.filter (.scan "Person" "n") (nameIs "x"))
      (personIndex ["name","age"]))=some 1 := by decide +kernel
  exact ⟨(personIndex_inv ["name","age"]).mirror,not_sameRows_of_rowCount (by decide) hlookup hscan⟩

end GraphDbLite.WhereIndex
