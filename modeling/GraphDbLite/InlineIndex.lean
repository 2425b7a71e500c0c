import GraphDbLite.IndexChoice

/-!
# Index lookups for inline node patterns

The plan of a node pattern with an index against the plan without one. The lookup
keeps only the first label and compares serialized values, and it finds only nodes
with a value for every column of the index. The two plans give the same nodes
exactly when none of this shows in the store.
-/

namespace GraphDbLite.InlineIndex

open GraphTypes OrderedTable GraphStore NodeStorage SecondaryIndex
open WriteOperators CypherSyntax CypherValues CypherEval QueryPlan FallibleLists QueryExecutor
open NodeView NodeRecords IndexMirror IndexAccess IndexChoice

section Values

variable {S : Type} (env : QueryEnv S)

/-- Value of an inline literal or parameter; a missing parameter has none. -/
def inlineValue : Expr S → Option Value
  | .literal l => some (literalToValue l)
  | .parameter name => env.eval.params name
  | _ => none

/-- A node has the value of an inline property, in the equality of the language. -/
def PropertyHolds (n : Node) (entry : String×Expr S) : Prop :=
  ∃ v,inlineValue env entry.2=some v ∧ valuesEqual (columnValue n entry.1) v=some true

/-- The stored property serializes like the inline value. -/
def BytesMatch (n : Node) (entry : String×Expr S) : Prop :=
  ∃ v,inlineValue env entry.2=some v ∧ (getProp n.properties entry.1).map env.enc=some (env.enc v)

variable {env} {st : Store} {n : Node} {nodeAlias : String}

theorem evalExpr_inline {e : Expr S} (he : (lookupKeyOf e).isSome=true) (rec : NamedRecord) :
    (Fails (evalExpr env.eval st e rec) ∧ inlineValue env e=none) ∨
      ∃ v,evalExpr env.eval st e rec=.ok v ∧ inlineValue env e=some v := by
  cases e with
  | literal l =>
    refine Or.inr ⟨literalToValue l,?_,rfl⟩
    rw [evalExpr]
  | parameter name =>
    rw [evalExpr,evalParameter,inlineValue]
    cases env.eval.params name with
    | none => exact Or.inl ⟨fails_error _,rfl⟩
    | some v => exact Or.inr ⟨v,rfl,rfl⟩
  | _ => cases he

theorem resolveLookupKey_inline {e : Expr S} {key : LookupKey} (he : lookupKeyOf e=some key) :
    (Fails (resolveLookupKey env key) ↔ inlineValue env e=none) ∧
      ∀ v,resolveLookupKey env key=.ok v ↔ inlineValue env e=some v := by
  cases e with
  | literal l =>
    rw [lookupKeyOf] at he
    rw [←Option.some.inj he,resolveLookupKey,inlineValue]
    simp
  | parameter name =>
    rw [lookupKeyOf] at he
    rw [←Option.some.inj he,resolveLookupKey,inlineValue]
    cases env.eval.params name with
    | none | some v => simp
  | _ => cases he

theorem propertyEquality_spec (hn : Stored st n) {entry : String×Expr S}
    (he : (lookupKeyOf entry.2).isSome=true) :
    IsLogical (evalExpr env.eval st (propertyEquality nodeAlias entry) (nodeToRecord n nodeAlias)) ∧
      (Fails (evalExpr env.eval st (propertyEquality nodeAlias entry) (nodeToRecord n nodeAlias)) ↔
        markedDeleted n=true ∨ inlineValue env entry.2=none) ∧
      (evalExpr env.eval st (propertyEquality nodeAlias entry) (nodeToRecord n nodeAlias)=
          .ok (.bool true) ↔ markedDeleted n=false ∧ PropertyHolds env n entry) := by
  have hread := evalProperty_nodeToRecord env.eval hn nodeAlias entry.1
  have heval : evalExpr env.eval st (propertyEquality nodeAlias entry) (nodeToRecord n nodeAlias)=
      (do
        let l ← evalProperty env.eval st nodeAlias entry.1 (nodeToRecord n nodeAlias)
        let r ← evalExpr env.eval st entry.2 (nodeToRecord n nodeAlias)
        .ok (triValue (valuesEqual l r))) := by
    rw [propertyEquality,evalExpr,evalBinary,evalExpr]
    rfl
  rw [heval,hread]
  by_cases hmark : markedDeleted n=true
  · rw [if_pos hmark]
    refine ⟨fun v hv => absurd hv (by simp [bind,Except.bind]),?_,?_⟩
    · exact iff_of_true (fails_bind_error (fails_error _)) (Or.inl hmark)
    · simp [bind,Except.bind,hmark]
  · have hfalse : markedDeleted n=false := by simpa using hmark
    rw [if_neg hmark,bind_of_ok rfl]
    cases evalExpr_inline he (nodeToRecord n nodeAlias) with
    | inl hmissing =>
      obtain ⟨⟨e,herr⟩,hnone⟩ := hmissing
      rw [herr]
      refine ⟨fun v hv => absurd hv (by simp [bind,Except.bind]),?_,?_⟩
      · exact iff_of_true (fails_bind_error (fails_error _)) (Or.inr hnone)
      · simp [bind,Except.bind,PropertyHolds,hnone]
    | inr hpresent =>
      have ⟨v,hv,hsome⟩ := hpresent
      rw [hv,bind_of_ok rfl]
      refine ⟨fun w hw => ⟨_,(Except.ok.inj hw).symm⟩,?_,?_⟩
      · simp [hfalse,hsome]
      · unfold PropertyHolds
        rw [hsome]
        cases hval : valuesEqual (columnValue n entry.1) v with
        | none => simp [triValue,hval]
        | some b => cases b <;> simp [triValue,hval,hfalse]

theorem passesFilter_inline (hn : Stored st n) {properties : List (String×Expr S)}
    (he : ∀ entry∈properties,(lookupKeyOf entry.2).isSome=true) :
    (Fails (passesFilter env st (propertiesToFilter nodeAlias properties) (nodeToRecord n nodeAlias)) ↔
        ∃ entry∈properties,markedDeleted n=true ∨ inlineValue env entry.2=none) ∧
      (passesFilter env st (propertiesToFilter nodeAlias properties) (nodeToRecord n nodeAlias)=
          .ok true ↔ ∀ entry∈properties,markedDeleted n=false ∧ PropertyHolds env n entry) := by
  unfold propertiesToFilter
  cases hconj : rebuildConjunction (properties.map (propertyEquality nodeAlias)) with
  | none =>
    have hempty : properties=[] := by
      cases properties with
      | nil => rfl
      | cons entry rest => cases hconj
    rw [hempty,passesFilter]
    simp
  | some predicate =>
    have hlogical : ∀ c∈properties.map (propertyEquality nodeAlias),
        IsLogical (evalExpr env.eval st c (nodeToRecord n nodeAlias)) := by
      intro c hc
      have ⟨entry,hentry,hceq⟩ := List.mem_map.mp hc
      rw [←hceq]
      exact (propertyEquality_spec hn (he entry hentry)).1
    rw [passesFilter]
    constructor
    · rw [fails_evalPredicate,fails_rebuildConjunction hconj hlogical]
      constructor
      · intro h
        have ⟨c,hc,hfail⟩ := h
        have ⟨entry,hentry,hceq⟩ := List.mem_map.mp hc
        rw [←hceq] at hfail
        exact ⟨entry,hentry,(propertyEquality_spec hn (he entry hentry)).2.1.mp hfail⟩
      · intro h
        have ⟨entry,hentry,hfail⟩ := h
        exact ⟨propertyEquality nodeAlias entry,List.mem_map_of_mem hentry,
          (propertyEquality_spec hn (he entry hentry)).2.1.mpr hfail⟩
    · rw [evalPredicate_true_iff,rebuildConjunction_true hconj,List.forall_mem_map]
      constructor
      · intro h entry hentry
        exact (propertyEquality_spec hn (he entry hentry)).2.2.mp (h entry hentry)
      · intro h entry hentry
        exact (propertyEquality_spec hn (he entry hentry)).2.2.mpr (h entry hentry)

theorem anyKnown_labels (label : String) (labels : List String) :
    anyKnown false ((labels.map Value.string).map (valuesEqual (.string label)))=
      some (decide (label∈labels)) := by
  induction labels with
  | nil => rfl
  | cons l rest ih =>
    rw [List.map_cons,List.map_cons,valuesEqual]
    by_cases h : label=l
    · simp [h,anyKnown]
    · simp only [h,decide_false,anyKnown]
      rw [ih]
      simp [h]

theorem labelFilter_spec (hn : Stored st n) (label : String) :
    (markedDeleted n=true →
      Fails (evalPredicate env.eval st (labelFilter nodeAlias label) (nodeToRecord n nodeAlias))) ∧
      (markedDeleted n=false →
        evalPredicate env.eval st (labelFilter nodeAlias label) (nodeToRecord n nodeAlias)=
          .ok (decide (label∈n.labels))) := by
  have hread := evalProperty_nodeToRecord env.eval hn nodeAlias "__labels"
  have hcolumn : columnValue n "__labels"=labelList n.labels := by
    unfold columnValue nodeField
    rw [if_neg (by decide),if_pos rfl]
    rfl
  have heval : evalExpr env.eval st (labelFilter nodeAlias label) (nodeToRecord n nodeAlias)=
      (do
        let r ← evalProperty env.eval st nodeAlias "__labels" (nodeToRecord n nodeAlias)
        evalIn (.string label) r) := by
    rw [labelFilter,evalExpr,evalBinary,evalExpr,evalExpr]
    rfl
  unfold evalPredicate
  rw [heval,hread,hcolumn]
  constructor
  · intro hmark
    rw [if_pos hmark]
    exact ⟨_,rfl⟩
  · intro hmark
    rw [if_neg (by simp [hmark]),bind_of_ok rfl,labelList,evalIn,anyKnown_labels]
    · rfl
    · simp

end Values

section Plans

variable {S : Type} (env : QueryEnv S) (st : Store) (node : NodePattern S)

/-- The pattern as its first label and its inline values. -/
structure LiteralPattern (node : NodePattern S) : Prop where
  /-- Property names are the keys of a map. -/
  distinct : (node.properties.map Prod.fst).Nodup
  /-- Values are literals or parameters. -/
  literal : ∀ entry∈node.properties,(lookupKeyOf entry.2).isSome=true

/-- A node carries the labels after the first. -/
def CarriesOthers (n : Node) : Prop := ∀ l∈node.labels.tail,l∈n.labels

/-- When the label scan with its filters raises an error. -/
def ScanRaises : Prop :=
  ExceedsLimit env st (scanLabel node) ∨
    ∃ n∈findNodesByLabel st (scanLabel node),markedDeleted n=true ∨
      (CarriesOthers node n ∧ ∃ entry∈node.properties,inlineValue env entry.2=none)

/-- A node found by looking up the leading columns of an index. -/
structure FoundBy (info : IndexInfo) (used : List String) (n : Node) : Prop where
  /-- The node is stored. -/
  stored : Stored st n
  /-- The node carries the first label. -/
  carries : scanLabel node∈n.labels
  /-- Every column of the index has a value. -/
  columns : ∀ p∈info.properties,(getProp n.properties p).isSome=true
  /-- The leading columns serialize like the inline values. -/
  bytes : ∀ entry∈node.properties,entry.1∈used → BytesMatch env n entry

/-- The properties left to the residual filter hold. -/
def RestHolds (used : List String) (n : Node) : Prop :=
  ∀ entry∈node.properties,entry.1∉used → PropertyHolds env n entry

/-- When the lookup with its residual filter raises an error. -/
def LookupRaises (info : IndexInfo) (used : List String) : Prop :=
  (∃ entry∈node.properties,entry.1∈used ∧ inlineValue env entry.2=none) ∨
    ∃ n,FoundBy env st node info used n ∧ ∃ entry∈node.properties,entry.1∉used ∧
      (markedDeleted n=true ∨ inlineValue env entry.2=none)

/-- Nothing in the store tells the lookup from the scan. -/
structure IndexAgrees (info : IndexInfo) (used : List String) : Prop where
  /-- Errors are raised alike. -/
  errors : LookupRaises env st node info used ↔ ScanRaises env st node
  /-- What the lookup finds carries the labels it does not look at. -/
  labels : ¬ScanRaises env st node → ∀ n,FoundBy env st node info used n →
    RestHolds env node used n → CarriesOthers node n
  /-- What the lookup finds by its bytes is equal in the language. -/
  values : ¬ScanRaises env st node → ∀ n,FoundBy env st node info used n →
    RestHolds env node used n → ∀ entry∈node.properties,entry.1∈used → PropertyHolds env n entry
  /-- What the scan finds has the label, not only a label column that matches it. -/
  carried : ¬ScanRaises env st node → ∀ n∈findNodesByLabel st (scanLabel node),
    CarriesOthers node n → (∀ entry∈node.properties,PropertyHolds env n entry) →
    scanLabel node∈n.labels
  /-- What the scan finds has a value for every column of the index. -/
  columns : ¬ScanRaises env st node → ∀ n∈findNodesByLabel st (scanLabel node),
    CarriesOthers node n → (∀ entry∈node.properties,PropertyHolds env n entry) →
    ∀ p∈info.properties,(getProp n.properties p).isSome=true
  /-- What the scan finds as equal has the same bytes. -/
  bytes : ¬ScanRaises env st node → ∀ n∈findNodesByLabel st (scanLabel node),
    CarriesOthers node n → (∀ entry∈node.properties,PropertyHolds env n entry) →
    ∀ entry∈node.properties,entry.1∈used → BytesMatch env n entry

/-- No index is chosen, or the chosen one cannot be told from the scan. -/
def ChoiceAgrees : Prop :=
  ∀ info k,chosenIndex (listIndexesForLabel st (scanLabel node)) node=some (info,k) →
    IndexAgrees env st node info (info.properties.take k)

variable {env st node}

theorem keyFor_equalityPreds {properties : List (String×Expr S)}
    (hdistinct : (properties.map Prod.fst).Nodup) {p : String} {key : LookupKey} :
    keyFor (equalityPreds properties) p=some key ↔
      ∃ entry∈properties,entry.1=p ∧ lookupKeyOf entry.2=some key := by
  induction properties with
  | nil => simp [equalityPreds,keyFor]
  | cons first rest ih =>
    rw [List.map_cons,List.nodup_cons] at hdistinct
    have hih := ih hdistinct.2
    rw [List.exists_mem_cons_iff]
    unfold equalityPreds at hih ⊢
    rw [List.filterMap_cons]
    cases hfirst : lookupKeyOf first.2 with
    | none =>
      dsimp only [Option.map_none]
      rw [hih]
      simp
    | some other =>
      dsimp only [Option.map_some]
      unfold keyFor at hih ⊢
      by_cases hp : first.1=p
      · rw [List.find?_cons_of_pos (by simpa using hp)]
        dsimp only [Option.map_some]
        constructor
        · intro h
          exact Or.inl ⟨hp,h⟩
        · intro h
          cases h with
          | inl hhere => exact hhere.2
          | inr hthere =>
            have ⟨entry,hentry,hname,_⟩ := hthere
            have hin : first.1∈rest.map Prod.fst := by
              rw [hp,←hname]
              exact List.mem_map_of_mem hentry
            exact absurd hin hdistinct.1
      · rw [List.find?_cons_of_neg (by simpa using hp),hih]
        simp [hp]

variable {used : List String} {info : IndexInfo} {n : Node}

theorem mem_remainingProperties (hlit : LiteralPattern node) {entry : String×Expr S} :
    entry∈remainingProperties used node.properties ↔ entry∈node.properties ∧ entry.1∉used := by
  unfold remainingProperties
  rw [List.mem_filter]
  constructor
  · intro h
    have hkey := hlit.literal entry h.1
    refine ⟨h.1,?_⟩
    have htest := h.2
    rw [Bool.or_eq_true,Option.isNone_iff_eq_none] at htest
    cases htest with
    | inl hnone =>
      rw [hnone] at hkey
      cases hkey
    | inr hnot => exact of_decide_eq_true hnot
  · intro h
    exact ⟨h.1,by simp [h.2]⟩

/-- Statements about the keys of a lookup are statements about inline entries. -/
theorem forall_lookupsFor (hlit : LiteralPattern node)
    (hcovered : ∀ p∈used,∃ key,keyFor (equalityPreds node.properties) p=some key) (n : Node) :
    (∀ entry∈lookupsFor (equalityPreds node.properties) used,∃ v,
        resolveLookupKey env entry.2=.ok v ∧ (getProp n.properties entry.1).map env.enc=some (env.enc v)) ↔
      ∀ entry∈node.properties,entry.1∈used → BytesMatch env n entry := by
  constructor
  · intro h entry hentry hused
    have ⟨key,hkey⟩ := hcovered entry.1 hused
    have ⟨v,hres,hbytes⟩ := h (entry.1,key) (mem_lookupsFor.mpr ⟨hused,hkey⟩)
    have ⟨ekey,hekey⟩ := Option.isSome_iff_exists.mp (hlit.literal entry hentry)
    have hsame := (keyFor_equalityPreds hlit.distinct).mpr ⟨entry,hentry,rfl,hekey⟩
    rw [hkey] at hsame
    rw [←Option.some.inj hsame] at hekey
    exact ⟨v,((resolveLookupKey_inline hekey).2 v).mp hres,hbytes⟩
  · intro h entry hentry
    have ⟨hused,hkey⟩ := mem_lookupsFor.mp hentry
    have ⟨inline,hinline,hname,hikey⟩ := (keyFor_equalityPreds hlit.distinct).mp hkey
    rw [←hname] at hused
    have ⟨v,hv,hbytes⟩ := h inline hinline hused
    refine ⟨v,((resolveLookupKey_inline hikey).2 v).mpr hv,?_⟩
    rw [←hname]
    exact hbytes

theorem exists_lookupsFor_fails (hlit : LiteralPattern node) :
    (∃ entry∈lookupsFor (equalityPreds node.properties) used,Fails (resolveLookupKey env entry.2)) ↔
    ∃ entry∈node.properties,entry.1∈used ∧ inlineValue env entry.2=none := by
  constructor
  · intro h
    have ⟨entry,hentry,hfail⟩ := h
    have ⟨hused,hkey⟩ := mem_lookupsFor.mp hentry
    have ⟨inline,hinline,hname,hikey⟩ := (keyFor_equalityPreds hlit.distinct).mp hkey
    rw [←hname] at hused
    exact ⟨inline,hinline,hused,(resolveLookupKey_inline hikey).1.mp hfail⟩
  · intro h
    have ⟨inline,hinline,hused,hnone⟩ := h
    have ⟨key,hkey⟩ := Option.isSome_iff_exists.mp (hlit.literal inline hinline)
    have hfor := (keyFor_equalityPreds hlit.distinct).mpr ⟨inline,hinline,rfl,hkey⟩
    exact ⟨(inline.1,key),mem_lookupsFor.mpr ⟨hused,hfor⟩,(resolveLookupKey_inline hkey).1.mpr hnone⟩

theorem looked_iff_foundBy (hlit : LiteralPattern node)
    (hcovered : ∀ p∈used,∃ key,keyFor (equalityPreds node.properties) p=some key) :
    Looked env st (scanLabel node) info.properties (lookupsFor (equalityPreds node.properties) used) n ↔
    FoundBy env st node info used n := by
  constructor
  · intro h
    exact ⟨h.stored,h.carries,h.columns,(forall_lookupsFor hlit hcovered n).mp h.keys⟩
  · intro h
    exact ⟨h.stored,h.carries,h.columns,(forall_lookupsFor hlit hcovered n).mpr h.bytes⟩

theorem residual_spec (hlit : LiteralPattern node)
    (hn : Stored st n) (nodeAlias : String) :
    (Fails (passesFilter env st (propertiesToFilter nodeAlias
        (remainingProperties used node.properties)) (nodeToRecord n nodeAlias)) ↔
      ∃ entry∈node.properties,entry.1∉used ∧
        (markedDeleted n=true ∨ inlineValue env entry.2=none)) ∧
      (passesFilter env st (propertiesToFilter nodeAlias
        (remainingProperties used node.properties)) (nodeToRecord n nodeAlias)=.ok true ↔
      ∀ entry∈node.properties,entry.1∉used → markedDeleted n=false ∧ PropertyHolds env n entry) := by
  have hspec := @passesFilter_inline S env st n nodeAlias hn (remainingProperties used node.properties)
    fun entry hentry => hlit.literal entry ((mem_remainingProperties hlit).mp hentry).1
  constructor
  · rw [hspec.1]
    simp only [mem_remainingProperties hlit,and_assoc]
  · rw [hspec.2]
    simp only [mem_remainingProperties hlit,and_imp]

theorem passes_labels {n : Node} (hn : Stored st n) (hmark : markedDeleted n=false)
    (nodeAlias : String) (labels : List String) (more : List (Expr S)) :
    ((∀ l∈labels,l∈n.labels) →
      passes (nodeTests env st nodeAlias (labels.map (labelFilter nodeAlias)++more)) n=
        passes (nodeTests env st nodeAlias more) n) ∧
    ((¬∀ l∈labels,l∈n.labels) →
      passes (nodeTests env st nodeAlias (labels.map (labelFilter nodeAlias)++more)) n=.ok false) := by
  induction labels with
  | nil => exact ⟨fun _ => rfl,fun h => absurd (fun _ hl => absurd hl List.not_mem_nil) h⟩
  | cons l rest ih =>
    have htest := (@labelFilter_spec S env st n nodeAlias hn l).2 hmark
    rw [List.forall_mem_cons]
    unfold nodeTests at ih ⊢
    rw [List.map_cons,List.cons_append,List.map_cons,passes,htest]
    by_cases hl : l∈n.labels
    · rw [decide_eq_true hl]
      dsimp only
      refine ⟨fun h => ih.1 h.2,fun h => ih.2 fun hrest => h ⟨hl,hrest⟩⟩
    · rw [decide_eq_false hl]
      exact ⟨fun h => absurd h.1 hl,fun _ => rfl⟩

theorem passes_toList (nodeAlias : String) (filter : Option (Expr S)) (n : Node) :
    passes (nodeTests env st nodeAlias filter.toList) n=
      passesFilter env st filter (nodeToRecord n nodeAlias) := by
  cases filter with
  | none => rfl
  | some p =>
    unfold nodeTests
    rw [Option.toList_some,List.map_cons,List.map_nil,passes,passesFilter]
    cases evalPredicate env.eval st p (nodeToRecord n nodeAlias) with
    | error e => rfl
    | ok b => cases b <;> rfl

theorem passes_scanFilters (hlit : LiteralPattern node) (hne : node.properties≠[])
    (hn : Stored st n) (nodeAlias : String) :
    (Fails (passes (nodeTests env st nodeAlias (scanFilters node nodeAlias)) n) ↔
      markedDeleted n=true ∨
        (CarriesOthers node n ∧ ∃ entry∈node.properties,inlineValue env entry.2=none)) ∧
    (passes (nodeTests env st nodeAlias (scanFilters node nodeAlias)) n=.ok true ↔
      markedDeleted n=false ∧ CarriesOthers node n ∧
        ∀ entry∈node.properties,PropertyHolds env n entry) := by
  have hspec := @passesFilter_inline S env st n nodeAlias hn node.properties hlit.literal
  have hlast := @passes_toList S env st nodeAlias (propertiesToFilter nodeAlias node.properties) n
  have ⟨first,hfirst⟩ := List.exists_mem_of_ne_nil node.properties hne
  by_cases hmark : markedDeleted n=true
  · have hfails : Fails (passes (nodeTests env st nodeAlias (scanFilters node nodeAlias)) n) := by
      unfold scanFilters
      cases node.labels.tail with
      | nil =>
        rw [List.map_nil,List.nil_append,hlast,hspec.1]
        exact ⟨first,hfirst,Or.inl hmark⟩
      | cons l rest =>
        have ⟨e,he⟩ := (@labelFilter_spec S env st n nodeAlias hn l).1 hmark
        unfold nodeTests
        rw [List.map_cons,List.cons_append,List.map_cons,passes,he]
        exact fails_error e
    refine ⟨iff_of_true hfails (Or.inl hmark),?_⟩
    have ⟨e,he⟩ := hfails
    rw [he]
    simp [hmark]
  · have hfalse : markedDeleted n=false := by simpa using hmark
    have hlabels := @passes_labels S env st n hn hfalse nodeAlias node.labels.tail
      (propertiesToFilter nodeAlias node.properties).toList
    unfold scanFilters CarriesOthers
    by_cases hcarries : ∀ l∈node.labels.tail,l∈n.labels
    · rw [hlabels.1 hcarries,hlast,hspec.1,hspec.2]
      simp only [hfalse,true_and,Bool.false_eq_true,false_or]
      exact ⟨(and_iff_right hcarries).symm,(and_iff_right hcarries).symm⟩
    · rw [hlabels.2 hcarries]
      simp [hfalse,hcarries]

theorem planNodeScan_none {nodeAlias : String}
    (h : chosenIndex (listIndexesForLabel st (scanLabel node)) node=none) :
    planNodeScan st node nodeAlias=planNodeScanWith [] node nodeAlias := by
  have hempty : chosenIndex [] node=none := by
    unfold chosenIndex pickIndexForEqualityPreds
    rw [List.foldl_nil,ite_self]
  unfold planNodeScan planNodeScanWith
  rw [h,hempty]

theorem chosenIndex_spec {indexes : List IndexInfo} {choice : IndexInfo×Nat}
    (h : chosenIndex indexes node=some choice) :
    node.properties≠[] ∧ Picked indexes (equalityPreds node.properties) choice := by
  unfold chosenIndex at h
  by_cases hskip : node.properties.isEmpty=true ∨ scanLabel node = ""
  · rw [if_pos hskip] at h
    cases h
  · rw [if_neg hskip] at h
    refine ⟨fun hnil => hskip (Or.inl ?_),pickIndexForEqualityPreds_spec h⟩
    rw [hnil]
    rfl

/-- A node that the lookup returns. -/
def LookupReturns (env : QueryEnv S) (st : Store) (node : NodePattern S) (info : IndexInfo)
    (used : List String) (n : Node) : Prop :=
  FoundBy env st node info used n ∧
    ∀ entry∈node.properties,entry.1∉used → markedDeleted n=false ∧ PropertyHolds env n entry

/-- A node that the filtered scan returns. -/
def ScanReturns (env : QueryEnv S) (st : Store) (node : NodePattern S) (n : Node) : Prop :=
  n∈findNodesByLabel st (scanLabel node) ∧ markedDeleted n=false ∧ CarriesOthers node n ∧
    ∀ entry∈node.properties,PropertyHolds env n entry

theorem inlineLookup_spec (henc : SelfDelimiting env.enc) (hmirror : IndexesMirror env.enc st)
    (hlit : LiteralPattern node) {k : Nat}
    (hpick : Picked (listIndexesForLabel st (scanLabel node)) (equalityPreds node.properties) (info,k))
    (nodeAlias : String) :
    (Fails (exec env (inlineLookup node nodeAlias info k) st).1 ↔
        LookupRaises env st node info (info.properties.take k)) ∧
      ∀ rows,(exec env (inlineLookup node nodeAlias info k) st).1=.ok rows → ∀ r,r∈rows ↔
        ∃ n,LookupReturns env st node info (info.properties.take k) n ∧ r=nodeToRecord n nodeAlias := by
  have huse := usable_of_picked hmirror.names hpick
  have hcovered : ∀ p∈info.properties.take k,
      ∃ key,keyFor (equalityPreds node.properties) p=some key := fun p hp => hpick.covered hp
  have hlookup : (exec env (inlineLookup node nodeAlias info k) st).1=
      execIndexLookup env st (scanLabel node) nodeAlias info.properties
        (lookupsFor (equalityPreds node.properties) (info.properties.take k))
        (propertiesToFilter nodeAlias
          (remainingProperties (info.properties.take k) node.properties)) := rfl
  rw [hlookup,fails_execIndexLookup henc hmirror huse,exists_lookupsFor_fails hlit]
  constructor
  · unfold LookupRaises
    refine or_congr_right (exists_congr fun n => ?_)
    rw [looked_iff_foundBy hlit hcovered]
    exact and_congr_right fun hfound => (residual_spec hlit hfound.stored nodeAlias).1
  · intro rows hrows r
    rw [mem_execIndexLookup henc hmirror huse hrows r]
    refine exists_congr fun n => ?_
    rw [looked_iff_foundBy hlit hcovered,LookupReturns,and_assoc]
    exact and_congr_right fun hfound =>
      and_congr_left fun _ => (residual_spec hlit hfound.stored nodeAlias).2

theorem filteredScan_spec (hlit : LiteralPattern node) (hne : node.properties≠[]) (nodeAlias : String) :
    (Fails (exec env (withFilters (scanFilters node nodeAlias) (.scan (scanLabel node) nodeAlias)) st).1 ↔
        ScanRaises env st node) ∧
      ∀ rows,(exec env (withFilters (scanFilters node nodeAlias)
        (.scan (scanLabel node) nodeAlias)) st).1=.ok rows → ∀ r,r∈rows ↔
        ∃ n,ScanReturns env st node n ∧ r=nodeToRecord n nodeAlias := by
  constructor
  · rw [fails_filteredScan]
    unfold ScanRaises
    refine or_congr_right (exists_congr fun n => and_congr_right fun hn => ?_)
    exact (passes_scanFilters hlit hne (stored_of_mem_findNodesByLabel hn) nodeAlias).1
  · intro rows hrows r
    rw [mem_filteredScan hrows r]
    refine exists_congr fun n => ?_
    rw [ScanReturns,and_assoc]
    exact and_congr_right fun hn => and_congr_left fun _ =>
      (passes_scanFilters hlit hne (stored_of_mem_findNodesByLabel hn) nodeAlias).2

/-- The two plans return the same nodes exactly when the kinds of difference are
absent. -/
theorem indexAgrees_iff (hnodes : NodesOk st) (hlabel : isValidName (scanLabel node)=true) :
    IndexAgrees env st node info used ↔ (LookupRaises env st node info used ↔ ScanRaises env st node) ∧
    (¬LookupRaises env st node info used → ∀ n,LookupReturns env st node info used n ↔ ScanReturns env st node n) := by
  have hclean : ¬ScanRaises env st node → ∀ n∈findNodesByLabel st (scanLabel node),
      markedDeleted n=false := by
    intro hquiet n hn
    have hmark : ¬markedDeleted n=true := fun hmark => hquiet (Or.inr ⟨n,hn,Or.inl hmark⟩)
    simpa using hmark
  constructor
  · intro h
    refine ⟨h.errors,fun hraise n => ?_⟩
    have hquiet : ¬ScanRaises env st node := fun hscan => hraise (h.errors.mpr hscan)
    constructor
    · intro hret
      have hrest : RestHolds env node used n := fun entry hentry hnot =>
        (hret.2 entry hentry hnot).2
      have hin := scanned_of_carries hnodes hlabel hret.1.stored hret.1.carries
      refine ⟨hin,hclean hquiet n hin,h.labels hquiet n hret.1 hrest,fun entry hentry => ?_⟩
      by_cases hused : entry.1∈used
      · exact h.values hquiet n hret.1 hrest entry hentry hused
      · exact hrest entry hentry hused
    · intro hret
      have ⟨hin,hmark,hothers,hprops⟩ := hret
      exact ⟨⟨stored_of_mem_findNodesByLabel hin,h.carried hquiet n hin hothers hprops,
        h.columns hquiet n hin hothers hprops,h.bytes hquiet n hin hothers hprops⟩,
        fun entry hentry _ => ⟨hmark,hprops entry hentry⟩⟩
  · intro h
    have hsame : ¬ScanRaises env st node →
        ∀ n,LookupReturns env st node info used n ↔ ScanReturns env st node n :=
      fun hquiet => h.2 fun hraise => hquiet (h.1.mp hraise)
    have hleft : ¬ScanRaises env st node → ∀ n,FoundBy env st node info used n →
        RestHolds env node used n → ScanReturns env st node n := by
      intro hquiet n hfound hrest
      have hin := scanned_of_carries hnodes hlabel hfound.stored hfound.carries
      have hmark := hclean hquiet n hin
      exact (hsame hquiet n).mp ⟨hfound,fun entry hentry hnot => ⟨hmark,hrest entry hentry hnot⟩⟩
    have hright : ¬ScanRaises env st node → ∀ n∈findNodesByLabel st (scanLabel node),
        CarriesOthers node n → (∀ entry∈node.properties,PropertyHolds env n entry) →
        FoundBy env st node info used n := by
      intro hquiet n hin hothers hprops
      exact ((hsame hquiet n).mpr ⟨hin,hclean hquiet n hin,hothers,hprops⟩).1
    exact ⟨h.1,fun hquiet n hfound hrest => (hleft hquiet n hfound hrest).2.2.1,
      fun hquiet n hfound hrest entry hentry _ => (hleft hquiet n hfound hrest).2.2.2 entry hentry,
      fun hquiet n hin hothers hprops => (hright hquiet n hin hothers hprops).carries,
      fun hquiet n hin hothers hprops => (hright hquiet n hin hothers hprops).columns,
      fun hquiet n hin hothers hprops => (hright hquiet n hin hothers hprops).bytes⟩

/-- The plan with the indexes gives the nodes of the plan without any exactly when
no index is chosen or the chosen one cannot be told from the scan. -/
theorem planNodeScan_agrees_iff (henc : SelfDelimiting env.enc) (hmirror : IndexesMirror env.enc st)
    (hnodes : NodesOk st) (hlit : LiteralPattern node) (nodeAlias : String) :
    Agree (exec env (planNodeScan st node nodeAlias) st).1
        (exec env (planNodeScanWith [] node nodeAlias) st).1 ↔ ChoiceAgrees env st node := by
  cases hchosen : chosenIndex (listIndexesForLabel st (scanLabel node)) node with
  | none =>
    rw [planNodeScan_none hchosen]
    refine iff_of_true (agree_iff.mpr ⟨Iff.rfl,fun a b ha hb r => ?_⟩) fun info k hk => ?_
    · rw [ha] at hb
      rw [Except.ok.inj hb]
    · rw [hchosen] at hk
      cases hk
  | some choice =>
    have ⟨info,k⟩ := choice
    have ⟨hne,hpick⟩ := chosenIndex_spec hchosen
    have hlookup := inlineLookup_spec henc hmirror hlit hpick nodeAlias
    have hscan := @filteredScan_spec S env st node hlit hne nodeAlias
    have hlabel : isValidName (scanLabel node)=true := (usable_of_picked hmirror.names hpick).defined.label
    have hempty : chosenIndex [] node=none := by
      unfold chosenIndex pickIndexForEqualityPreds
      rw [List.foldl_nil,ite_self]
    have hplan : planNodeScan st node nodeAlias=inlineLookup node nodeAlias info k := by
      unfold planNodeScan planNodeScanWith
      rw [hchosen]
    have hplain : planNodeScanWith [] node nodeAlias=
        withFilters (scanFilters node nodeAlias) (.scan (scanLabel node) nodeAlias) := by
      unfold planNodeScanWith
      rw [hempty]
    have hchoice : ChoiceAgrees env st node ↔
        IndexAgrees env st node info (info.properties.take k) := by
      constructor
      · intro h
        exact h info k hchosen
      · intro h other j hj
        rw [hchosen] at hj
        have heq := Prod.mk.inj (Option.some.inj hj)
        rw [←heq.1,←heq.2]
        exact h
    rw [hplan,hplain,hchoice,agree_iff_of_mem hlookup.2 hscan.2,hlookup.1,hscan.1,
      indexAgrees_iff hnodes hlabel,
      nodeRows_iff (fun n hn => hn.1.stored) fun n hn => stored_of_mem_findNodesByLabel hn.1]

end Plans

/-- The pattern of two labels and a name. -/
def adminPattern (name : String) : NodePattern Empty :=
  ⟨some "n",["Person","Admin"],[("name",.literal (.string name))]⟩

theorem adminPattern_literal (name : String) : LiteralPattern (adminPattern name) where
  distinct := List.nodup_singleton _
  literal entry hentry := by
    rw [List.mem_singleton.mp hentry]
    rfl

/-- For a name that is not stored the two plans agree, and so nothing in the store
tells them apart. -/
theorem planNodeScan_agrees_missing_name :
    SelfDelimiting plainEnv.enc ∧ IndexesMirror plainEnv.enc (personIndex ["name"]) ∧ NodesOk (personIndex ["name"]) ∧
      LiteralPattern (adminPattern "y") ∧ ChoiceAgrees plainEnv (personIndex ["name"]) (adminPattern "y") := by
  have hmirror : IndexesMirror plainEnv.enc (personIndex ["name"]) := (personIndex_inv ["name"]).mirror
  have hlookup : rowCount (exec plainEnv (planNodeScan (personIndex ["name"]) (adminPattern "y") "n")
      (personIndex ["name"]))=some 0 := by decide +kernel
  have hscan : rowCount (exec plainEnv (planNodeScanWith [] (adminPattern "y") "n")
      (personIndex ["name"]))=some 0 := by decide +kernel
  exact ⟨shortFrame_selfDelimiting,hmirror,(personIndex_inv ["name"]).nodes,adminPattern_literal "y",
    (planNodeScan_agrees_iff shortFrame_selfDelimiting hmirror (personIndex_inv ["name"]).nodes
      (adminPattern_literal "y") "n").mp (sameRows_of_rowCount hlookup hscan).agree⟩

/-- The stored person is no admin: the lookup returns it for the pattern of both
labels, the scan does not. -/
theorem planNodeScan_drops_label :
    IndexesMirror plainEnv.enc (personIndex ["name"]) ∧
      ¬Agree (exec plainEnv (planNodeScan (personIndex ["name"]) (adminPattern "x") "n") (personIndex ["name"])).1
        (exec plainEnv (planNodeScanWith [] (adminPattern "x") "n") (personIndex ["name"])).1 := by
  have hlookup : rowCount (exec plainEnv (planNodeScan (personIndex ["name"]) (adminPattern "x") "n")
      (personIndex ["name"]))=some 1 := by decide +kernel
  have hscan : rowCount (exec plainEnv (planNodeScanWith [] (adminPattern "x") "n")
      (personIndex ["name"]))=some 0 := by decide +kernel
  exact ⟨(personIndex_inv ["name"]).mirror,not_agree_of_rowCount hlookup hscan⟩

end GraphDbLite.InlineIndex
