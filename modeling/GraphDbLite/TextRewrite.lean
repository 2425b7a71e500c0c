import GraphDbLite.FullTextLookup

/-!
# Turning text filters into full-text lookups

The planner replaces a filter over a label scan by a full-text lookup when one
conjunct compares a property of the scanned variable with CONTAINS, STARTS WITH or
ENDS WITH and a trigram index covers the property, and by a union of lookups when
all disjuncts do. The replaced plan evaluates the term and the other conjuncts
without the row of the node and the outer record, ignores a variable that is
already bound, and compares letters as the index does or as they are written,
whichever step decides. It returns the rows of the filter exactly when none of this
shows.
-/

namespace GraphDbLite.TextRewrite

open ByteStrings GraphTypes OrderedTable StatefulActions GraphStore WriteOperators FullText
open CypherSyntax CypherValues CypherEval QueryPlan FallibleLists QueryExecutor NodeView NodeRecords
open IndexAccess IndexChoice SameOutcomes IdRewrite FullTextMirror FullTextLookup

variable {S : Type}

/-- The argument of `toLower`. -/
def unwrapTolower : Expr S → Option (Expr S)
  | .functionCall name [arg] _ _ => if asciiLower name = "tolower" then some arg else none
  | _ => none

/-- The property of a variable inside `toLower`. -/
def unwrapTolowerOfProperty (nodeAlias : String) (e : Expr S) : Option String :=
  match unwrapTolower e with
  | some (.property var prop) => if var=nodeAlias then some prop else none
  | _ => none

/-- The text comparisons of the language. -/
def fullTextOp : BinOp → Option FullTextOp
  | .contains => some .contains
  | .startsWith => some .startsWith
  | .endsWith => some .endsWith
  | _ => none

/-- A comparison of a property of the variable, plain or lower-cased on both sides. -/
def matchFtsBinop (nodeAlias : String) : Expr S → Option (MatchedFts S)
  | .binaryOp left op right =>
    match fullTextOp op with
    | none => none
    | some ftsOp =>
      match unwrapTolowerOfProperty nodeAlias left,unwrapTolower right with
      | some prop,some inner => some ⟨prop,ftsOp,inner,true⟩
      | _,_ =>
        match left with
        | .property var prop => if var=nodeAlias then some ⟨prop,ftsOp,right,false⟩ else none
        | _ => none
  | _ => none

/-- The first conjunct that can be looked up, with the others. -/
def extractFirst (nodeAlias : String) (before : List (Expr S)) :
    List (Expr S) → Option (MatchedFts S×List (Expr S))
  | [] => none
  | c::after =>
    match matchFtsBinop nodeAlias c with
    | some matched => some (matched,before++after)
    | none => extractFirst nodeAlias (before++[c]) after

/-- A comparison that can be looked up and the residual filter. -/
def extractFtsPredicate (nodeAlias : String) (predicate : Expr S) :
    Option (MatchedFts S×Option (Expr S)) :=
  (extractFirst nodeAlias [] (decomposeConjuncts predicate)).map fun found =>
    (found.1,rebuildConjunction found.2)

/-- Disjuncts of a predicate. -/
def flattenTopLevelOr : Expr S → List (Expr S)
  | .binaryOp left .or right => flattenTopLevelOr left++flattenTopLevelOr right
  | expr => [expr]
termination_by structural expr => expr

/-- Whether the index of a property may answer a comparison: lower-cased ones need a
case-insensitive index, plain ones take any trigram index. -/
def ftsRewriteIsUsable (st : Store) (label property : String) (needsCi : Bool) : Bool :=
  match ftsTokenizerKind st label property with
  | .ok .trigramCaseInsensitive => true
  | .ok .trigramCaseSensitive => !needsCi
  | _ => false

/-- The lookups of a list of disjuncts, when all can be looked up. -/
def matchDisjuncts (st : Store) (label nodeAlias : String) :
    List (Expr S) → Option (List (MatchedFts S))
  | [] => some []
  | d::rest =>
    match matchFtsBinop nodeAlias d with
    | none => none
    | some matched =>
      if ftsRewriteIsUsable st label matched.property matched.needsCi=true then
        (matchDisjuncts st label nodeAlias rest).map (matched::·)
      else none

/-- The lookup of a comparison. -/
def ftsLookup (label nodeAlias : String) (matched : MatchedFts S) (residual : Option (Expr S)) :
    LogicalOp S :=
  .fullTextLookup label nodeAlias matched.property matched.op matched.term residual

/-- A union of lookups for a disjunction. -/
def tryRewriteOrChainToUnion (st : Store) (label nodeAlias : String) (predicate : Expr S) :
    Option (LogicalOp S) :=
  if (flattenTopLevelOr predicate).length<2 then none
  else
    (matchDisjuncts st label nodeAlias (flattenTopLevelOr predicate)).map fun matched =>
      .union (matched.map fun m => ftsLookup label nodeAlias m none) false

/-- The comparison and residual filter that replace a filter over a scan. -/
def ftsTarget (st : Store) (label nodeAlias : String) (predicate : Expr S) :
    Option (MatchedFts S×Option (Expr S)) :=
  if label = "" then none
  else
    (extractFtsPredicate nodeAlias predicate).filter fun found =>
      ftsRewriteIsUsable st label found.1.property found.1.needsCi

/-- A filter over an input, replaced when the input is a label scan or joins one. -/
def rewriteTextFilter (st : Store) (input : LogicalOp S) (predicate : Expr S) : LogicalOp S :=
  match input with
  | .scan label nodeAlias =>
    match ftsTarget st label nodeAlias predicate with
    | some (matched,residual) => ftsLookup label nodeAlias matched residual
    | none =>
      if label = "" then .filter (.scan label nodeAlias) predicate
      else
        (tryRewriteOrChainToUnion st label nodeAlias predicate).getD
          (.filter (.scan label nodeAlias) predicate)
  | .correlatedJoin joinInput (.scan label nodeAlias) sameMatch =>
    match ftsTarget st label nodeAlias predicate with
    | some (matched,residual) =>
      .correlatedJoin joinInput (ftsLookup label nodeAlias matched residual) sameMatch
    | none => .filter (.correlatedJoin joinInput (.scan label nodeAlias) sameMatch) predicate
  | input => .filter input predicate

mutual

/-- Replace text filters by full-text lookups, inner plans first. -/
def rewriteTextFilterToFts (st : Store) : LogicalOp S → LogicalOp S
  | .expand input spec => .expand (rewriteTextFilterToFts st input) spec
  | .filter input predicate => rewriteTextFilter st (rewriteTextFilterToFts st input) predicate
  | .rows op input => .rows op (rewriteTextFilterToFts st input)
  | .crossProduct left right sameMatch =>
    .crossProduct (rewriteTextFilterToFts st left) (rewriteTextFilterToFts st right) sameMatch
  | .correlatedJoin input right sameMatch =>
    .correlatedJoin (rewriteTextFilterToFts st input) (rewriteTextFilterToFts st right) sameMatch
  | .leftOuterJoin input right optionalAliases optFilter =>
    .leftOuterJoin (rewriteTextFilterToFts st input) (rewriteTextFilterToFts st right) optionalAliases
      optFilter
  | .union inputs all => .union (rewriteTextFilters st inputs) all
  | plan => plan
termination_by structural plan => plan

/-- Replace text filters in the inputs of a union. -/
def rewriteTextFilters (st : Store) : List (LogicalOp S) → List (LogicalOp S)
  | [] => []
  | plan::rest => rewriteTextFilterToFts st plan::rewriteTextFilters st rest
termination_by structural plans => plans

end

section Safety

variable (env : QueryEnv S) (st : Store)

/-- A comparison to look up and the filter that remains. -/
abbrev TextLookup (S : Type) := MatchedFts S×Option (Expr S)

/-- Rows of a lookup that evaluates its term in a record. -/
def lookupRows (label nodeAlias : String) (record : NamedRecord) (lookup : TextLookup S) : Result Rows :=
  execFulltextLookup env st label nodeAlias lookup.1.property lookup.1.op lookup.1.term lookup.2 record

/-- A node that a lookup returns. -/
def Returned (label nodeAlias : String) (record : NamedRecord) (lookup : TextLookup S) (n : Node) :
    Prop :=
  ∃ term,evalExpr env.eval st lookup.1.term record=.ok (.string term) ∧
    LookupFinds env st label lookup.1 term n ∧ passesFilter env st lookup.2
      (scoredRecord env st label nodeAlias lookup.1.property term n)=.ok true

/-- Lookups find what a filter selects in a scope. The terms and the remaining filters
are evaluated in the record that the lookups see. -/
structure LookupsSafe (scope : Option NamedRecord) (record : NamedRecord) (label nodeAlias : String)
    (lookups : List (TextLookup S)) (predicate : Expr S) (kept : NamedRecord → Bool)
    (view : NamedRecord → NamedRecord) : Prop where
  /-- Every term is a text or null. -/
  terms : ∀ lookup∈lookups,evalExpr env.eval st lookup.1.term record=.ok .null ∨
    ∃ term,evalExpr env.eval st lookup.1.term record=.ok (.string term)
  /-- The remaining filters do not fail on a found node. -/
  tests : ∀ lookup∈lookups,∀ term,evalExpr env.eval st lookup.1.term record=.ok (.string term) →
    ∀ n,LookupFinds env st label lookup.1 term n → ¬Fails (passesFilter env st lookup.2
      (scoredRecord env st label nodeAlias lookup.1.property term n))
  /-- A returned node is in scope and satisfies the filter. -/
  sound : ∀ lookup∈lookups,∀ n,Returned env st label nodeAlias record lookup n →
    kept (nodeToRecord n nodeAlias)=true → InScope st scope label nodeAlias n ∧
      evalPredicate env.eval st predicate (view (nodeToRecord n nodeAlias))=.ok true
  /-- A node in scope that satisfies the filter is returned. -/
  complete : ∀ n,InScope st scope label nodeAlias n → kept (nodeToRecord n nodeAlias)=true →
    evalPredicate env.eval st predicate (view (nodeToRecord n nodeAlias))=.ok true →
    ∃ lookup∈lookups,Returned env st label nodeAlias record lookup n

/-- A filter that may be replaced by lookups: it fails, or the lookups find what it
selects. -/
def TextSiteSafe (scope : Option NamedRecord) (record : NamedRecord) (label nodeAlias : String)
    (lookups : List (TextLookup S)) (predicate : Expr S) (kept : NamedRecord → Bool)
    (view : NamedRecord → NamedRecord) : Prop :=
  (ScanFails env st scope label nodeAlias ∨ ∃ n,InScope st scope label nodeAlias n ∧
    kept (nodeToRecord n nodeAlias)=true ∧
    Fails (evalPredicate env.eval st predicate (view (nodeToRecord n nodeAlias)))) ∨
  LookupsSafe env st scope record label nodeAlias lookups predicate kept view

variable {env st} {label nodeAlias : String} {record : NamedRecord} {lookup : TextLookup S}

/-- A lookup fails when its term is neither a text nor null or the remaining filter
fails on a found node. -/
theorem fails_lookupRows (htrigram : TrigramExact env) (hmirror : SearchTablesMirror st)
    (hkind : kindOf st label lookup.1.property≠.word) :
    Fails (lookupRows env st label nodeAlias record lookup) ↔
      ¬(evalExpr env.eval st lookup.1.term record=.ok .null ∨
        ∃ term,evalExpr env.eval st lookup.1.term record=.ok (.string term)) ∨
      ∃ term,evalExpr env.eval st lookup.1.term record=.ok (.string term) ∧
        ∃ n,LookupFinds env st label lookup.1 term n ∧ Fails (passesFilter env st lookup.2
          (scoredRecord env st label nodeAlias lookup.1.property term n)) := by
  by_cases htext : ∃ term,evalExpr env.eval st lookup.1.term record=.ok (.string term)
  · have ⟨term,hterm⟩ := htext
    have hfinds := @findsRows_execFulltextLookup S env st label nodeAlias lookup.1 lookup.2 htrigram
      hmirror hkind record term hterm
    unfold lookupRows
    rw [hfinds.1]
    constructor
    · intro h
      exact Or.inr ⟨term,hterm,h⟩
    · intro h
      cases h with
      | inl hnot => exact absurd (Or.inr ⟨term,hterm⟩) hnot
      | inr hex =>
        have ⟨other,hother,hn⟩ := hex
        rw [hterm] at hother
        rw [Value.string.inj (Except.ok.inj hother)]
        exact hn
  · have hfalse : ¬∃ term,evalExpr env.eval st lookup.1.term record=.ok (.string term) ∧
        ∃ n,LookupFinds env st label lookup.1 term n ∧ Fails (passesFilter env st lookup.2
          (scoredRecord env st label nodeAlias lookup.1.property term n)) := fun h => by
      have ⟨term,hterm,_⟩ := h
      exact htext ⟨term,hterm⟩
    rw [or_iff_left hfalse]
    unfold lookupRows execFulltextLookup
    cases heval : evalExpr env.eval st lookup.1.term record with
    | error e => exact iff_of_true (fails_error e) (by simp)
    | ok v =>
      rw [bind_of_ok rfl]
      cases v with
      | null => exact iff_of_false (not_fails_ok []) (by simp)
      | string term => exact absurd ⟨term,heval⟩ htext
      | _ => exact iff_of_true (fails_error _) (by simp)

theorem mem_lookupRows (htrigram : TrigramExact env) (hmirror : SearchTablesMirror st)
    (hkind : kindOf st label lookup.1.property≠.word) {rows : Rows}
    (h : lookupRows env st label nodeAlias record lookup=.ok rows) (r : NamedRecord) :
    r∈rows ↔ ∃ term,evalExpr env.eval st lookup.1.term record=.ok (.string term) ∧
      ∃ n,LookupFinds env st label lookup.1 term n ∧ passesFilter env st lookup.2
        (scoredRecord env st label nodeAlias lookup.1.property term n)=.ok true ∧
        r=scoredRecord env st label nodeAlias lookup.1.property term n := by
  by_cases htext : ∃ term,evalExpr env.eval st lookup.1.term record=.ok (.string term)
  · have ⟨term,hterm⟩ := htext
    have hfinds := @findsRows_execFulltextLookup S env st label nodeAlias lookup.1 lookup.2 htrigram
      hmirror hkind record term hterm
    rw [hfinds.2 rows h r]
    constructor
    · intro hr
      exact ⟨term,hterm,hr⟩
    · intro hr
      have ⟨other,hother,hn⟩ := hr
      rw [hterm] at hother
      rw [Value.string.inj (Except.ok.inj hother)]
      exact hn
  · have hempty : rows=[] := by
      unfold lookupRows execFulltextLookup at h
      obtain ⟨v,heval,h⟩ := exists_of_bind h
      cases v with
      | null => exact (Except.ok.inj h).symm
      | string term => exact absurd ⟨term,heval⟩ htext
      | _ => cases h
    rw [hempty]
    refine iff_of_false List.not_mem_nil fun hr => ?_
    have ⟨term,hterm,_⟩ := hr
    exact htext ⟨term,hterm⟩

theorem eq_of_dropScores {n m : Node} (hn : Stored st n) (hm : Stored st m)
    (h : dropScores (nodeToRecord n nodeAlias)=dropScores (nodeToRecord m nodeAlias)) : n=m := by
  have hid : isFtsScore (nodeAlias++("."++"__id"))=false :=
    isFtsScore_append_false (by decide) (by decide)
  have hfield : ∀ x : Node,(dropScores (nodeToRecord x nodeAlias)).get (nodeAlias++("."++"__id"))=
      some (.i64 x.id.toInt64) := by
    intro x
    rw [get_dropScores hid,get_nodeToRecord_dotted]
    rfl
  have hvalue := hfield n
  rw [h,hfield m] at hvalue
  have hsame := toInt64_inj.mp (Value.i64.inj (Option.some.inj hvalue))
  unfold Stored at hn hm
  rw [←hsame,hm] at hn
  exact (Except.ok.inj hn).symm

theorem Returned.stored {n : Node} (h : Returned env st label nodeAlias record lookup n) :
    Stored st n := by
  have ⟨term,_,hfound,_⟩ := h
  exact hfound.stored

variable {lookups : List (TextLookup S)} {kept : NamedRecord → Bool}

/-- Lookups succeed exactly when every term is a text or null and no remaining filter
fails. -/
theorem not_fails_lookups (htrigram : TrigramExact env) (hmirror : SearchTablesMirror st)
    (hkinds : ∀ lookup∈lookups,kindOf st label lookup.1.property≠.word) :
    ¬Fails (gather (lookupRows env st label nodeAlias record) lookups) ↔
      (∀ lookup∈lookups,evalExpr env.eval st lookup.1.term record=.ok .null ∨
        ∃ term,evalExpr env.eval st lookup.1.term record=.ok (.string term)) ∧
      ∀ lookup∈lookups,∀ term,evalExpr env.eval st lookup.1.term record=.ok (.string term) →
        ∀ n,LookupFinds env st label lookup.1 term n → ¬Fails (passesFilter env st lookup.2
          (scoredRecord env st label nodeAlias lookup.1.property term n)) := by
  rw [fails_gather]
  constructor
  · intro h
    constructor
    · intro lookup hin
      by_contra hnot
      exact h ⟨lookup,hin,(fails_lookupRows htrigram hmirror (hkinds lookup hin)).mpr (Or.inl hnot)⟩
    · intro lookup hin term hterm n hn hfail
      exact h ⟨lookup,hin,(fails_lookupRows htrigram hmirror (hkinds lookup hin)).mpr
        (Or.inr ⟨term,hterm,n,hn,hfail⟩)⟩
  · intro h hfails
    have ⟨lookup,hin,hfail⟩ := hfails
    cases (fails_lookupRows htrigram hmirror (hkinds lookup hin)).mp hfail with
    | inl hnot => exact hnot (h.1 lookup hin)
    | inr hex =>
      have ⟨term,hterm,n,hn,hbad⟩ := hex
      exact h.2 lookup hin term hterm n hn hbad

theorem mem_keptLookups (htrigram : TrigramExact env) (hmirror : SearchTablesMirror st)
    (hkinds : ∀ lookup∈lookups,kindOf st label lookup.1.property≠.word)
    (hkept : ∀ r s,dropScores r=dropScores s → kept r=kept s) {rows : Rows}
    (h : gather (lookupRows env st label nodeAlias record) lookups=.ok rows) (r : NamedRecord) :
    r∈(rows.filter kept).map dropScores ↔ ∃ lookup∈lookups,∃ n,
      Returned env st label nodeAlias record lookup n ∧ kept (nodeToRecord n nodeAlias)=true ∧
      r=dropScores (nodeToRecord n nodeAlias) := by
  rw [List.mem_map]
  constructor
  · intro hr
    have ⟨row,hrow,hdrop⟩ := hr
    have ⟨hin,hkeep⟩ := List.mem_filter.mp hrow
    have ⟨lookup,hlookup,part,hpart,hmem⟩ := (mem_gather h).mp hin
    have ⟨term,hterm,n,hfound,hpass,heq⟩ :=
      (mem_lookupRows htrigram hmirror (hkinds lookup hlookup) hpart row).mp hmem
    have hscore := @dropScores_scoredRecord S env st label nodeAlias lookup.1.property term n
    rw [←heq] at hscore
    refine ⟨lookup,hlookup,n,⟨term,hterm,hfound,hpass⟩,?_,?_⟩
    · rw [←hkept _ _ hscore]
      exact hkeep
    · rw [←hdrop,hscore]
  · intro hr
    have ⟨lookup,hlookup,n,⟨term,hterm,hfound,hpass⟩,hkeep,heq⟩ := hr
    have hscore := @dropScores_scoredRecord S env st label nodeAlias lookup.1.property term n
    have ⟨part,hpart⟩ := (fails_or_ok (lookupRows env st label nodeAlias record lookup)).resolve_left
      fun hfail => by
        have hbad : Fails (gather (lookupRows env st label nodeAlias record) lookups) :=
          fails_gather.mpr ⟨lookup,hlookup,hfail⟩
        rw [h] at hbad
        exact not_fails_ok rows hbad
    refine ⟨scoredRecord env st label nodeAlias lookup.1.property term n,
      List.mem_filter.mpr ⟨(mem_gather h).mpr ⟨lookup,hlookup,part,hpart,?_⟩,?_⟩,?_⟩
    · exact (mem_lookupRows htrigram hmirror (hkinds lookup hlookup) hpart _).mpr
        ⟨term,hterm,n,hfound,hpass,rfl⟩
    · rw [hkept _ _ hscore]
      exact hkeep
    · rw [heq,hscore]

/-- Lookups cover a filter over a scan exactly when the filter fails or the lookups
find what it selects. -/
theorem covers_lookups_iff (htrigram : TrigramExact env) (hmirror : SearchTablesMirror st)
    (hkinds : ∀ lookup∈lookups,kindOf st label lookup.1.property≠.word)
    (hkept : ∀ r s,dropScores r=dropScores s → kept r=kept s) (scope : Option NamedRecord)
    (predicate : Expr S) (view : NamedRecord → NamedRecord) :
    Covers ((gather (lookupRows env st label nodeAlias record) lookups).map (List.filter kept))
        ((scanRows env st label nodeAlias scope).map (List.filter kept) >>=
          sieve fun r => evalPredicate env.eval st predicate (view r)) ↔
      TextSiteSafe env st scope record label nodeAlias lookups predicate kept view := by
  have ⟨hfails,hmem⟩ := @filteredScope_outcome S env st scope label nodeAlias predicate kept view
  unfold Covers TextSiteSafe
  rw [←hfails]
  cases hold : ((scanRows env st label nodeAlias scope).map (List.filter kept) >>=
      sieve fun r => evalPredicate env.eval st predicate (view r)) with
  | error e => exact iff_of_true (fun rows h => by simp at h) (Or.inl (fails_error e))
  | ok selected =>
    have hselected : ∀ r,r∈selected.map dropScores ↔ ∃ n,InScope st scope label nodeAlias n ∧
        kept (nodeToRecord n nodeAlias)=true ∧
        evalPredicate env.eval st predicate (view (nodeToRecord n nodeAlias))=.ok true ∧
        r=dropScores (nodeToRecord n nodeAlias) := by
      intro r
      rw [List.mem_map]
      constructor
      · intro hr
        have ⟨row,hrow,hdrop⟩ := hr
        have ⟨n,hn,hkeep,htrue,heq⟩ := (hmem selected hold row).mp hrow
        exact ⟨n,hn,hkeep,htrue,by rw [←hdrop,heq]⟩
      · intro hr
        have ⟨n,hn,hkeep,htrue,heq⟩ := hr
        exact ⟨nodeToRecord n nodeAlias,(hmem selected hold _).mpr ⟨n,hn,hkeep,htrue,rfl⟩,heq.symm⟩
    rw [or_iff_right (not_fails_ok selected)]
    constructor
    · intro h
      have ⟨rows',hnew,hsame⟩ := h selected rfl
      obtain ⟨rows,hgather,hnew⟩ := exists_of_bind hnew
      rw [←Except.ok.inj hnew] at hsame
      have hreturned := mem_keptLookups htrigram hmirror hkinds hkept hgather
      have hnot : ¬Fails (gather (lookupRows env st label nodeAlias record) lookups) := by
        rw [hgather]
        exact not_fails_ok rows
      have ⟨hterms,htests⟩ := (not_fails_lookups htrigram hmirror hkinds).mp hnot
      refine ⟨hterms,htests,fun lookup hlookup n hn hkeep => ?_,fun n hn hkeep htrue => ?_⟩
      · have hin := (hsame _).mp ((hreturned _).mpr ⟨lookup,hlookup,n,hn,hkeep,rfl⟩)
        have ⟨m,hm,_,htrue,heq⟩ := (hselected _).mp hin
        rw [eq_of_dropScores hn.stored hm.stored heq]
        exact ⟨hm,htrue⟩
      · have hin := (hsame _).mpr ((hselected _).mpr ⟨n,hn,hkeep,htrue,rfl⟩)
        have ⟨lookup,hlookup,m,hm,_,heq⟩ := (hreturned _).mp hin
        rw [eq_of_dropScores hn.stored hm.stored heq]
        exact ⟨lookup,hlookup,hm⟩
    · intro h rows hrows
      have ⟨all,hall⟩ := (fails_or_ok _).resolve_left
        ((not_fails_lookups htrigram hmirror hkinds).mpr ⟨h.terms,h.tests⟩)
      rw [hall,←Except.ok.inj hrows]
      refine ⟨all.filter kept,rfl,fun r => ?_⟩
      rw [mem_keptLookups htrigram hmirror hkinds hkept hall,hselected]
      constructor
      · intro hr
        have ⟨lookup,hlookup,n,hn,hkeep,heq⟩ := hr
        have ⟨hscope,htrue⟩ := h.sound lookup hlookup n hn hkeep
        exact ⟨n,hscope,hkeep,htrue,heq⟩
      · intro hr
        have ⟨n,hn,hkeep,htrue,heq⟩ := hr
        have ⟨lookup,hlookup,hret⟩ := h.complete n hn hkeep htrue
        exact ⟨lookup,hlookup,n,hret,hkeep,heq⟩

end Safety

section Coverage

variable {env : QueryEnv S} {st : Store} {label nodeAlias : String}

theorem Covers.refl (x : Result Rows) : Covers x x := fun rows h => ⟨rows,h,fun _ => Iff.rfl⟩

theorem Covers.of_sameOutcome {x y z : Result Rows} (h : Covers x y) (hsame : SameOutcome y z) :
    Covers x z := by
  intro rows hz
  exact h rows ((hsame.eq_of_ok hz).trans hz)

theorem Covers.map {x y : Result Rows} (h : Covers x y) {f : NamedRecord → NamedRecord}
    (hf : ∀ r s,dropScores r=dropScores s → dropScores (f r)=dropScores (f s)) :
    Covers (x.map (List.map f)) (y.map (List.map f)) := by
  intro mapped hmapped
  cases y with
  | error e => cases hmapped
  | ok rows =>
    have ⟨rows',hx,hsame⟩ := h rows rfl
    refine ⟨rows'.map f,by rw [hx]; rfl,fun r => ?_⟩
    rw [←Except.ok.inj hmapped]
    have hdir : ∀ a b : Rows,(∀ r,r∈a.map dropScores → r∈b.map dropScores) →
        r∈(a.map f).map dropScores → r∈(b.map f).map dropScores := by
      intro a b hab hr
      have ⟨s,hs,hrs⟩ := List.mem_map.mp hr
      have ⟨u,hu,hus⟩ := List.mem_map.mp hs
      have ⟨v,hv,hvu⟩ := List.mem_map.mp (hab _ (List.mem_map_of_mem hu))
      refine List.mem_map.mpr ⟨f v,List.mem_map_of_mem hv,?_⟩
      rw [hf v u hvu,hus,hrs]
    exact ⟨hdir rows' rows fun s => (hsame s).mp,hdir rows rows' fun s => (hsame s).mpr⟩

theorem covers_gather {f g : NamedRecord → Result Rows} {items : Rows}
    (h : ∀ l∈items,Covers (f l) (g l)) : Covers (gather f items) (gather g items) := by
  intro rows hrows
  have hok : ∀ l∈items,∃ part,g l=.ok part := fun l hl => (fails_or_ok (g l)).resolve_left fun hfail => by
    have hbad : Fails (gather g items) := fails_gather.mpr ⟨l,hl,hfail⟩
    rw [hrows] at hbad
    exact not_fails_ok rows hbad
  have ⟨rows',hrows'⟩ := (fails_or_ok (gather f items)).resolve_left fun hfail => by
    have ⟨l,hl,hbad⟩ := fails_gather.mp hfail
    have ⟨part,hpart⟩ := hok l hl
    have ⟨part',hpart',_⟩ := h l hl part hpart
    rw [hpart'] at hbad
    exact not_fails_ok part' hbad
  refine ⟨rows',hrows',fun r => ?_⟩
  rw [List.mem_map,List.mem_map]
  constructor
  · intro hr
    have ⟨s,hs,hrs⟩ := hr
    have ⟨l,hl,part',hpart',hin⟩ := (mem_gather hrows').mp hs
    have ⟨part,hpart⟩ := hok l hl
    have ⟨other,hother,hsame⟩ := h l hl part hpart
    rw [hpart'] at hother
    rw [Except.ok.inj hother] at hin
    have ⟨u,hu,hus⟩ := List.mem_map.mp ((hsame _).mp (List.mem_map_of_mem hin))
    exact ⟨u,(mem_gather hrows).mpr ⟨l,hl,part,hpart,hu⟩,hus.trans hrs⟩
  · intro hr
    have ⟨s,hs,hrs⟩ := hr
    have ⟨l,hl,part,hpart,hin⟩ := (mem_gather hrows).mp hs
    have ⟨part',hpart',hsame⟩ := h l hl part hpart
    have ⟨u,hu,hus⟩ := List.mem_map.mp ((hsame _).mpr (List.mem_map_of_mem hin))
    exact ⟨u,(mem_gather hrows').mpr ⟨l,hl,part',hpart',hu⟩,hus.trans hrs⟩

/-- Removing rows that equal an earlier one loses none when equal rows have the same
fields. -/
theorem mem_dedupRows {seen all : Rows}
    (h : ∀ a∈seen++all,∀ b∈all,unionRowsEqual a b=true → dropScores a=dropScores b) (r : NamedRecord) :
    r∈(seen++dedupRows seen all).map dropScores ↔ r∈(seen++all).map dropScores := by
  induction all generalizing seen with
  | nil => rfl
  | cons x rest ih =>
    rw [dedupRows]
    split_ifs with hseen
    · have ⟨other,hother,heq⟩ := List.any_eq_true.mp hseen
      have hsame := h other (List.mem_append_left _ hother) x List.mem_cons_self heq
      rw [ih fun a ha b hb => h a (by
          cases List.mem_append.mp ha with
          | inl hs => exact List.mem_append_left _ hs
          | inr hr => exact List.mem_append_right _ (List.mem_cons_of_mem x hr)) b
        (List.mem_cons_of_mem x hb)]
      rw [List.map_append,List.map_append,List.map_cons,List.mem_append,List.mem_append,List.mem_cons]
      constructor
      · intro hr
        cases hr with
        | inl hs => exact Or.inl hs
        | inr hr => exact Or.inr (Or.inr hr)
      · intro hr
        cases hr with
        | inl hs => exact Or.inl hs
        | inr hr =>
          cases hr with
          | inl hx =>
            rw [hx,←hsame]
            exact Or.inl (List.mem_map_of_mem hother)
          | inr hr => exact Or.inr hr
    · have hstep := @ih (seen++[x]) fun a ha b hb => h a (by
          rw [List.append_assoc] at ha
          exact ha) b (List.mem_cons_of_mem x hb)
      rw [List.append_assoc,List.append_assoc] at hstep
      exact hstep

theorem dropScores_of_unionRowsEqual {n m : Node} {a b : NamedRecord} (hn : Stored st n)
    (hm : Stored st m) (ha : dropScores a=dropScores (nodeToRecord n nodeAlias))
    (hb : dropScores b=dropScores (nodeToRecord m nodeAlias)) (h : unionRowsEqual a b=true) :
    dropScores a=dropScores b := by
  have hscore : isFtsScore (nodeAlias++("."++"__id"))=false :=
    isFtsScore_append_false (by decide) (by decide)
  have hfield : ∀ (x : Node) (c : NamedRecord),dropScores c=dropScores (nodeToRecord x nodeAlias) →
      c.get (nodeAlias++("."++"__id"))=some (.i64 x.id.toInt64) := by
    intro x c hc
    rw [←get_dropScores hscore,hc,get_dropScores hscore,get_nodeToRecord_dotted]
    rfl
  have hget := hfield n a ha
  unfold NamedRecord.get getProp at hget
  have ⟨field,hfind,hvalue⟩ := Option.map_eq_some_iff.mp hget
  have hkey : field.1=nodeAlias++("."++"__id") := by simpa using List.find?_some hfind
  have hin : field∈a.fields.filter fun field => !isFtsScore field.1 := by
    refine List.mem_filter.mpr ⟨List.mem_of_find?_eq_some hfind,?_⟩
    rw [hkey,hscore,Bool.not_false]
  unfold unionRowsEqual at h
  have hall := (Bool.and_eq_true_iff.mp h).2
  have heq := List.all_eq_true.mp hall field hin
  rw [hkey,hfield m b hb,hvalue] at heq
  have hids : m.id.toInt64=n.id.toInt64 := by simpa [valueEq] using heq
  have hsame := toInt64_inj.mp hids
  unfold Stored at hn hm
  rw [hsame,hn] at hm
  rw [ha,hb,Except.ok.inj hm]

end Coverage

section Sites

variable (env : QueryEnv S)

/-- A store whose trigram tables mirror the nodes and whose indexes are those of the
store at planning. -/
structure Indexed (planned st : Store) : Prop where
  /-- The tables of the trigram indexes mirror the nodes. -/
  mirror : SearchTablesMirror st
  /-- The indexes are the planned ones. -/
  kinds : ∀ label property,kindOf st label property=kindOf planned label property

/-- A filter over an input whose replacement finds what it selects, in the scope and
the states in which a run reaches it. -/
def TextSafe (planned : Store) (input : LogicalOp S) (predicate : Expr S)
    (outer : Option NamedRecord) (st : Store) : Prop :=
  match input with
  | .scan label nodeAlias =>
    match ftsTarget planned label nodeAlias predicate with
    | some lookup => TextSiteSafe env st outer (outer.getD emptyRecord) label nodeAlias [lookup] predicate
        (fun _ => true) (filterScope outer)
    | none => label = "" ∨ ∀ matched,2≤(flattenTopLevelOr predicate).length →
        matchDisjuncts planned label nodeAlias (flattenTopLevelOr predicate)=some matched →
        TextSiteSafe env st outer emptyRecord label nodeAlias (matched.map fun m => (m,none)) predicate
          (fun _ => true) (filterScope outer)
  | .correlatedJoin joinInput (.scan label nodeAlias) sameMatch =>
    ∀ lookup,ftsTarget planned label nodeAlias predicate=some lookup →
      ∀ lefts st',run env joinInput outer st=(.ok lefts,st') → ∀ l∈lefts,
        TextSiteSafe env st' (some (joinScope outer l)) (joinScope outer l) label nodeAlias [lookup]
          predicate (fun r => !(sameMatch && hasDuplicateRelationships (NamedRecord.fillFrom l r)))
          fun r => filterScope outer (NamedRecord.fillFrom l r)
  | _ => True

variable {env} {planned st : Store} {label nodeAlias : String} {predicate : Expr S}
  {outer : Option NamedRecord}

theorem kindOf_of_usable {property : String} {needsCi : Bool}
    (h : ftsRewriteIsUsable st label property needsCi=true) : kindOf st label property≠.word := by
  unfold ftsRewriteIsUsable at h
  unfold kindOf
  cases hkind : ftsTokenizerKind st label property with
  | error e =>
    rw [hkind] at h
    cases h
  | ok kind =>
    rw [hkind] at h
    cases kind with
    | trigramCaseInsensitive | trigramCaseSensitive => exact fun hword => absurd hword (by simp [Except.toOption])
    | word => cases h

theorem kindOf_of_ftsTarget {lookup : TextLookup S}
    (h : ftsTarget planned label nodeAlias predicate=some lookup) :
    kindOf planned label lookup.1.property≠.word := by
  unfold ftsTarget at h
  split_ifs at h with hlabel
  exact kindOf_of_usable (Option.filter_eq_some_iff.mp h).2

theorem kindOf_of_matchDisjuncts {disjuncts : List (Expr S)} {matched : List (MatchedFts S)}
    (h : matchDisjuncts planned label nodeAlias disjuncts=some matched) :
    ∀ m∈matched,kindOf planned label m.property≠.word := by
  induction disjuncts generalizing matched with
  | nil =>
    rw [matchDisjuncts] at h
    rw [←Option.some.inj h]
    exact fun m hm => absurd hm List.not_mem_nil
  | cons d rest ih =>
    rw [matchDisjuncts] at h
    cases hmatch : matchFtsBinop nodeAlias d with
    | none =>
      rw [hmatch] at h
      cases h
    | some first =>
      rw [hmatch] at h
      dsimp only at h
      split_ifs at h with husable
      have ⟨others,hothers,hall⟩ := Option.map_eq_some_iff.mp h
      intro m hm
      rw [←hall] at hm
      cases List.mem_cons.mp hm with
      | inl heq =>
        rw [heq]
        exact kindOf_of_usable husable
      | inr hin => exact ih hothers m hin

theorem run_ftsLookup (lookup : TextLookup S) :
    run env (ftsLookup label nodeAlias lookup.1 lookup.2) outer st=
      (gather (lookupRows env st label nodeAlias (outer.getD emptyRecord)) [lookup],st) := by
  have hleaf : run env (ftsLookup label nodeAlias lookup.1 lookup.2) outer st=
      (lookupRows env st label nodeAlias (outer.getD emptyRecord) lookup,st) := rfl
  rw [hleaf,gather,gather]
  cases lookupRows env st label nodeAlias (outer.getD emptyRecord) lookup with
  | error e => rfl
  | ok rows =>
    dsimp only
    rw [List.append_nil]

theorem runAll_lookups (label nodeAlias : String) (matched : List (MatchedFts S)) (st : Store) :
    ∃ parts : Result (List Rows),
      runAll env (matched.map fun m => ftsLookup label nodeAlias m none) st=(parts,st) ∧
      parts.map List.flatten=gather (lookupRows env st label nodeAlias emptyRecord)
        (matched.map fun m => (m,none)) := by
  induction matched with
  | nil => exact ⟨.ok [],rfl,rfl⟩
  | cons m rest ih =>
    have ⟨parts,hrun,hparts⟩ := ih
    have hleaf : run env (ftsLookup label nodeAlias m none) none st=
        (lookupRows env st label nodeAlias emptyRecord (m,none),st) := rfl
    rw [List.map_cons,List.map_cons,runAll_cons,gather,←hparts]
    cases hfirst : lookupRows env st label nodeAlias emptyRecord (m,none) with
    | error e =>
      rw [hfirst] at hleaf
      exact ⟨.error e,by rw [bind_error hleaf],rfl⟩
    | ok rows =>
      rw [hfirst] at hleaf
      rw [bind_ok hleaf,bind_apply,hrun]
      cases parts with
      | error e => exact ⟨.error e,rfl,rfl⟩
      | ok more => exact ⟨.ok (rows::more),rfl,rfl⟩

theorem run_lookupUnion (matched : List (MatchedFts S)) :
    run env (.union (matched.map fun m => ftsLookup label nodeAlias m none) false) outer st=
      ((gather (lookupRows env st label nodeAlias emptyRecord) (matched.map fun m => (m,none))).map
        (dedupRows []),st) := by
  have ⟨parts,hrun,hparts⟩ := @runAll_lookups S env label nodeAlias matched st
  rw [run_union,bind_apply,hrun,←hparts]
  cases parts with
  | error e | ok more => rfl

theorem stored_of_lookups (htrigram : TrigramExact env) (hmirror : SearchTablesMirror st)
    {record : NamedRecord} {lookups : List (TextLookup S)}
    (hkinds : ∀ lookup∈lookups,kindOf st label lookup.1.property≠.word) {rows : Rows}
    (h : gather (lookupRows env st label nodeAlias record) lookups=.ok rows) :
    ∀ r∈rows,∃ n,Stored st n ∧ dropScores r=dropScores (nodeToRecord n nodeAlias) := by
  intro r hr
  have ⟨lookup,hlookup,part,hpart,hin⟩ := (mem_gather h).mp hr
  have ⟨term,_,n,hfound,_,heq⟩ :=
    (mem_lookupRows htrigram hmirror (hkinds lookup hlookup) hpart r).mp hin
  refine ⟨n,hfound.stored,?_⟩
  rw [heq]
  exact dropScores_scoredRecord label nodeAlias lookup.1.property term n

theorem covers_dedup_iff (htrigram : TrigramExact env) (hmirror : SearchTablesMirror st)
    {record : NamedRecord} {lookups : List (TextLookup S)}
    (hkinds : ∀ lookup∈lookups,kindOf st label lookup.1.property≠.word) (y : Result Rows) :
    Covers ((gather (lookupRows env st label nodeAlias record) lookups).map (dedupRows [])) y ↔
      Covers (gather (lookupRows env st label nodeAlias record) lookups) y := by
  cases hx : gather (lookupRows env st label nodeAlias record) lookups with
  | error e => rfl
  | ok all =>
    have hstored := stored_of_lookups htrigram hmirror hkinds hx
    have hsame : ∀ r,r∈(dedupRows [] all).map dropScores ↔ r∈all.map dropScores := by
      refine @mem_dedupRows [] all fun a ha b hb heq => ?_
      have ⟨n,hn,han⟩ := hstored a ha
      have ⟨m,hm,hbm⟩ := hstored b hb
      exact dropScores_of_unionRowsEqual hn hm han hbm heq
    constructor
    · intro h rows hy
      have ⟨rows',hrows',hmem⟩ := h rows hy
      refine ⟨all,rfl,fun r => ?_⟩
      rw [←Except.ok.inj hrows'] at hmem
      exact (hsame r).symm.trans (hmem r)
    · intro h rows hy
      have ⟨rows',hrows',hmem⟩ := h rows hy
      refine ⟨dedupRows [] all,rfl,fun r => ?_⟩
      rw [←Except.ok.inj hrows'] at hmem
      exact (hsame r).trans (hmem r)

/-- Lookups in place of a filter over a scan cover it exactly when they are safe. -/
theorem covers_scanSite (htrigram : TrigramExact env) {record : NamedRecord}
    {lookups : List (TextLookup S)}
    (hindexed : ∀ rows,scanRows env st label nodeAlias outer=.ok rows → Indexed planned st)
    (hkinds : ∀ lookup∈lookups,kindOf planned label lookup.1.property≠.word) :
    (Covers (gather (lookupRows env st label nodeAlias record) lookups)
        (run env (.filter (.scan label nodeAlias) predicate) outer st).1 ↔
      TextSiteSafe env st outer record label nodeAlias lookups predicate (fun _ => true)
        (filterScope outer)) ∧
    (Covers ((gather (lookupRows env st label nodeAlias record) lookups).map (dedupRows []))
        (run env (.filter (.scan label nodeAlias) predicate) outer st).1 ↔
      TextSiteSafe env st outer record label nodeAlias lookups predicate (fun _ => true)
        (filterScope outer)) := by
  rw [run_filterScan]
  cases hscan : scanRows env st label nodeAlias outer with
  | error e =>
    have hfails : ScanFails env st outer label nodeAlias :=
      (scanRows_outcome outer label nodeAlias).1.mp ⟨e,hscan⟩
    have hvacuous : ∀ x,Covers x ((Except.error e : Result Rows) >>= sieve fun r =>
        evalPredicate env.eval st predicate (filterScope outer r)) :=
      fun x rows h => by simp [bind,Except.bind] at h
    exact ⟨iff_of_true (hvacuous _) (Or.inl (Or.inl hfails)),
      iff_of_true (hvacuous _) (Or.inl (Or.inl hfails))⟩
  | ok rows =>
    have hidx := hindexed rows hscan
    have hkinds' : ∀ lookup∈lookups,kindOf st label lookup.1.property≠.word := by
      intro lookup hlookup
      rw [hidx.kinds]
      exact hkinds lookup hlookup
    have hsite := @covers_lookups_iff S env st label nodeAlias record lookups (fun _ => true) htrigram
      hidx.mirror hkinds' (fun _ _ _ => rfl) outer predicate (filterScope outer)
    rw [map_filter_true,map_filter_true,hscan] at hsite
    exact ⟨hsite,(covers_dedup_iff htrigram hidx.mirror hkinds' _).trans hsite⟩

theorem covers_joinSite (htrigram : TrigramExact env) {joinInput : LogicalOp S} {sameMatch : Bool}
    {lookup : TextLookup S}
    (hindexed : ∀ rows st',run env (.correlatedJoin joinInput (.scan label nodeAlias) sameMatch) outer st=
      (.ok rows,st') → Indexed planned st')
    (hkind : kindOf planned label lookup.1.property≠.word)
    (hsafe : ∀ lefts st',run env joinInput outer st=(.ok lefts,st') → ∀ l∈lefts,
      TextSiteSafe env st' (some (joinScope outer l)) (joinScope outer l) label nodeAlias [lookup]
        predicate (fun r => !(sameMatch && hasDuplicateRelationships (NamedRecord.fillFrom l r)))
        fun r => filterScope outer (NamedRecord.fillFrom l r)) :
    Covers (run env (.correlatedJoin joinInput (ftsLookup label nodeAlias lookup.1 lookup.2) sameMatch)
        outer st).1
      (run env (.filter (.correlatedJoin joinInput (.scan label nodeAlias) sameMatch) predicate)
        outer st).1 := by
  cases hrun : run env joinInput outer st with
  | mk out st' =>
    cases out with
    | error e =>
      rw [run_filterJoin_error hrun]
      exact fun rows h => by simp at h
    | ok lefts =>
      have hnew := @run_joinLeaf S env joinInput (ftsLookup label nodeAlias lookup.1 lookup.2) sameMatch
        outer st st' lefts
        (fun record => gather (lookupRows env st' label nodeAlias record) [lookup]) hrun
        fun record => @run_ftsLookup S env st' label nodeAlias (some record) lookup
      have hscan := @run_joinLeaf S env joinInput (.scan label nodeAlias) sameMatch outer st st'
        lefts (fun record => scanRows env st' label nodeAlias (some record)) hrun fun _ => rfl
      rw [hnew,run_filterJoinScan hrun]
      cases hrows : gather (fun l => (scanRows env st' label nodeAlias (some (joinScope outer l))).map
          (joinRows sameMatch l)) lefts with
      | error e => exact fun rows h => by simp [bind,Except.bind] at h
      | ok rows =>
        rw [hrows] at hscan
        have hidx := hindexed rows st' hscan
        have hkinds : ∀ other∈[lookup],kindOf st' label other.1.property≠.word := by
          intro other hother
          rw [List.mem_singleton.mp hother,hidx.kinds]
          exact hkind
        rw [←hrows]
        refine Covers.of_sameOutcome (covers_gather fun l hl => ?_) (gather_sieve _ _ lefts).symm
        have hfill : ∀ r s,dropScores r=dropScores s →
            dropScores (NamedRecord.fillFrom l r)=dropScores (NamedRecord.fillFrom l s) := by
          intro r s hrs
          rw [dropScores_fillFrom,dropScores_fillFrom,hrs]
        have hkept : ∀ r s,dropScores r=dropScores s →
            (!(sameMatch && hasDuplicateRelationships (NamedRecord.fillFrom l r)))=
              !(sameMatch && hasDuplicateRelationships (NamedRecord.fillFrom l s)) := by
          intro r s hrs
          unfold hasDuplicateRelationships collectFlatEdgeIds
          rw [←flatEdges_dropScores (NamedRecord.fillFrom l r),hfill r s hrs,flatEdges_dropScores]
        rw [map_joinRows,map_joinRows,bind_sieve_map]
        exact Covers.map ((covers_lookups_iff htrigram hidx.mirror hkinds hkept _ _ _).mpr
          (hsafe lefts st' hrun l hl)) hfill

/-- A replaced filter over a scan covers the written one exactly when it is safe. -/
theorem textSafe_scan_iff (htrigram : TrigramExact env) (label nodeAlias : String)
    (predicate : Expr S) (outer : Option NamedRecord)
    (hindexed : ∀ rows,scanRows env st label nodeAlias outer=.ok rows → Indexed planned st) :
    TextSafe env planned (.scan label nodeAlias) predicate outer st ↔
      Covers (run env (rewriteTextFilter planned (.scan label nodeAlias) predicate) outer st).1
        (run env (.filter (.scan label nodeAlias) predicate) outer st).1 := by
  rw [TextSafe,rewriteTextFilter]
  cases htarget : ftsTarget planned label nodeAlias predicate with
  | some lookup =>
    dsimp only
    rw [run_ftsLookup]
    refine (covers_scanSite htrigram hindexed fun other hother => ?_).1.symm
    rw [List.mem_singleton.mp hother]
    exact kindOf_of_ftsTarget htarget
  | none =>
    dsimp only
    by_cases hlabel : label = ""
    · rw [if_pos hlabel]
      exact iff_of_true (Or.inl hlabel) (Covers.refl _)
    · rw [if_neg hlabel,or_iff_right hlabel]
      unfold tryRewriteOrChainToUnion
      by_cases hlen : (flattenTopLevelOr predicate).length<2
      · rw [if_pos hlen,Option.getD_none]
        exact iff_of_true (fun matched hlong => by omega) (Covers.refl _)
      · rw [if_neg hlen]
        cases hmatched : matchDisjuncts planned label nodeAlias (flattenTopLevelOr predicate) with
        | none =>
          rw [Option.map_none,Option.getD_none]
          exact iff_of_true (fun matched _ h => by simp at h) (Covers.refl _)
        | some matched =>
          rw [Option.map_some,Option.getD_some,run_lookupUnion]
          have hsite := (@covers_scanSite S env planned st label nodeAlias predicate outer htrigram
            emptyRecord (matched.map fun m => (m,none)) hindexed fun lookup hlookup => by
              obtain ⟨m,hm,heq⟩ := List.mem_map.mp hlookup
              rw [←heq]
              exact kindOf_of_matchDisjuncts hmatched m hm).2
          rw [hsite]
          constructor
          · intro h
            exact h matched (by omega) rfl
          · intro h other _ hother
            rw [←Option.some.inj hother]
            exact h

theorem rewriteTextFilter_other {inner : LogicalOp S}
    (hscan : ¬∃ label nodeAlias,inner=.scan label nodeAlias)
    (hjoin : ¬∃ j label nodeAlias sameMatch,inner=.correlatedJoin j (.scan label nodeAlias) sameMatch) :
    rewriteTextFilter planned inner predicate=.filter inner predicate := by
  unfold rewriteTextFilter
  split
  · exact absurd ⟨_,_,rfl⟩ hscan
  · exact absurd ⟨_,_,_,_,rfl⟩ hjoin
  · rfl

/-- Replacing a filter of a plan by full-text lookups, over a scan or a join with one,
covers the filter when the lookups find what it selects wherever a run reaches it. Over
a scan this is exact. -/
theorem rewriteTextFilterToFts_covers (htrigram : TrigramExact env) (input : LogicalOp S)
    (predicate : Expr S) (outer : Option NamedRecord) (planned st : Store)
    (hindexed : ∀ rows st',run env (rewriteTextFilterToFts planned input) outer st=(.ok rows,st') →
      Indexed planned st') :
    (TextSafe env planned (rewriteTextFilterToFts planned input) predicate outer st →
      Covers (run env (rewriteTextFilterToFts planned (.filter input predicate)) outer st).1
        (run env (.filter (rewriteTextFilterToFts planned input) predicate) outer st).1) ∧
    ((∃ label nodeAlias,rewriteTextFilterToFts planned input=.scan label nodeAlias) →
      Covers (run env (rewriteTextFilterToFts planned (.filter input predicate)) outer st).1
        (run env (.filter (rewriteTextFilterToFts planned input) predicate) outer st).1 →
      TextSafe env planned (rewriteTextFilterToFts planned input) predicate outer st) := by
  rw [rewriteTextFilterToFts]
  generalize rewriteTextFilterToFts planned input=inner at hindexed ⊢
  have hscan : ∀ label nodeAlias,inner=.scan label nodeAlias →
      (TextSafe env planned inner predicate outer st ↔
        Covers (run env (rewriteTextFilter planned inner predicate) outer st).1
          (run env (.filter inner predicate) outer st).1) := by
    intro label nodeAlias hinner
    subst hinner
    have hleaf : run env (.scan label nodeAlias) outer st=(scanRows env st label nodeAlias outer,st) :=
      rfl
    refine textSafe_scan_iff htrigram label nodeAlias predicate outer fun rows h => ?_
    rw [h] at hleaf
    exact hindexed rows st hleaf
  refine ⟨fun hsafe => ?_,fun hex hcovers => ?_⟩
  · by_cases hplain : ∃ label nodeAlias,inner=.scan label nodeAlias
    · obtain ⟨label,nodeAlias,hinner⟩ := hplain
      exact (hscan label nodeAlias hinner).mp hsafe
    · by_cases hjoin : ∃ j label nodeAlias sameMatch,
          inner=.correlatedJoin j (.scan label nodeAlias) sameMatch
      · obtain ⟨j,label,nodeAlias,sameMatch,hinner⟩ := hjoin
        subst hinner
        rw [TextSafe] at hsafe
        rw [rewriteTextFilter]
        cases htarget : ftsTarget planned label nodeAlias predicate with
        | none => exact Covers.refl _
        | some lookup =>
          exact covers_joinSite htrigram hindexed (kindOf_of_ftsTarget htarget)
            (hsafe lookup htarget)
      · rw [rewriteTextFilter_other hplain hjoin]
        exact Covers.refl _
  · obtain ⟨label,nodeAlias,hinner⟩ := hex
    exact (hscan label nodeAlias hinner).mpr hcovers

end Sites

/-- Execution whose full-text module compares substrings, in lower case where the index
ignores case. -/
def trigramEnv : QueryEnv Empty :=
  {plainEnv with ftsMatches := fun kind term text =>
    match kind with
    | .trigramCaseInsensitive => containsText (asciiLower term) (asciiLower text)
    | _ => containsText term text}

theorem trigramEnv_exact : TrigramExact trigramEnv := fun _ _ _ => ⟨rfl,rfl⟩

/-- The only node of the sample database. -/
def adaNode : Node := ⟨1,["Person"],[("name",.string "Ada")]⟩

/-- The table of the index on the names of persons. -/
def adaTable (kind : FtsTokenizerKind) : FtsTable :=
  ⟨["content"],kind,[(1,[some "Ada"])],shadowSuffixes⟩

/-- A database with one person and a full-text index on the name. -/
def adaStore (kind : FtsTokenizerKind) : Store :=
  {(execCreateNode plainWrites ["Person"] (some "n") [("name",.string "Ada")] freshStore).2 with
    ftsTables := put freshStore.ftsTables "node_fts$Person$name" (adaTable kind)}

set_option maxRecDepth 4000 in
theorem adaStore_kindOf (kind : FtsTokenizerKind) (label property : String) :
    kindOf (adaStore kind) label property=
      if label = "Person" ∧ property = "name" then kind else .word := by
  have hlist : listAllFulltextIndexes (adaStore kind)=
      [⟨"Person",["name"],kind,"node_fts$Person$name"⟩] := by
    cases kind with
    | trigramCaseSensitive | trigramCaseInsensitive | word => rfl
  unfold kindOf ftsTokenizerKind
  rw [hlist]
  by_cases hboth : label = "Person" ∧ property = "name"
  · rw [if_pos hboth,hboth.1,hboth.2]
    rfl
  · rw [if_neg hboth]
    have hnone : ([⟨"Person",["name"],kind,"node_fts$Person$name"⟩] : List FtsIndexInfo).find?
        (fun info => info.label=label && property∈info.properties)=none := by
      rw [List.find?_eq_none]
      intro info hinfo
      rw [List.mem_singleton.mp hinfo]
      intro htrue
      have hparts := Bool.and_eq_true_iff.mp htrue
      exact hboth ⟨(of_decide_eq_true hparts.1).symm,
        List.mem_singleton.mp (of_decide_eq_true hparts.2)⟩
    rw [hnone]
    rfl

theorem adaStore_recordAt (kind : FtsTokenizerKind) (id : NodeId) :
    recordAt (adaStore kind) id=if id=1 then some ⟨["Person"],[("name",.string "Ada")]⟩ else none := by
  by_cases hid : id=1
  · rw [if_pos hid,hid]
    rfl
  · rw [if_neg hid]
    unfold recordAt
    have hget : get (adaStore kind).nodes id=none := by
      have hrows : (adaStore kind).nodes.rows=[(1,⟨"Person",⟨["Person"],[("name",.string "Ada")]⟩⟩)] := rfl
      cases hrow : get (adaStore kind).nodes id with
      | none => rfl
      | some row =>
        have hmem := get_eq_some.mp hrow
        rw [hrows] at hmem
        exact absurd (Prod.mk.inj (List.mem_singleton.mp hmem)).1 hid
    rw [hget]
    rfl

theorem adaStore_mirrors (kind : FtsTokenizerKind) : SearchTablesMirror (adaStore kind) := by
  intro label property hkind
  rw [adaStore_kindOf] at hkind
  by_cases hboth : label = "Person" ∧ property = "name"
  · rw [hboth.1,hboth.2]
    refine ⟨"node_fts$Person$name",adaTable kind,rfl,rfl,rfl,rfl,?_,fun id => ?_⟩
    · rw [adaStore_kindOf,if_pos ⟨rfl,rfl⟩]
      rfl
    · rw [adaStore_recordAt]
      by_cases hid : id=1
      · rw [if_pos hid,hid]
        rfl
      · rw [if_neg hid]
        unfold rowsOf expectedRows
        have hne : ¬(1 : Int64)=id.toInt64 := fun heq => hid (toInt64_inj.mp heq.symm)
        have hnone : (adaTable kind).rows.filter (fun row => row.1=id.toInt64)=[] := by
          unfold adaTable
          rw [List.filter_cons_of_neg (by simpa using hne)]
          rfl
        rw [hnone]
        rfl
  · rw [if_neg hboth] at hkind
    exact absurd rfl hkind

/-- A filter over the scan of persons. -/
def personFilter (predicate : Expr Empty) : LogicalOp Empty := .filter (.scan "Person" "n") predicate

/-- The comparison of the name with a term. -/
def nameContains (term : Expr Empty) : Expr Empty := .binaryOp (.property "n" "name") .contains term

/-- The comparison of the name with a term in lower case. -/
def lowerNameContains (term : Expr Empty) : Expr Empty :=
  .binaryOp (.functionCall "toLower" [.property "n" "name"] false none) .contains
    (.functionCall "toLower" [term] false none)

theorem stored_adaStore {kind : FtsTokenizerKind} {n : Node} :
    Stored (adaStore kind) n ↔ n=adaNode := by
  rw [stored_iff,adaStore_recordAt]
  constructor
  · intro h
    split_ifs at h with hid
    have ⟨id,labels,properties⟩ := n
    have hrecord := NodeRecord.mk.inj (Option.some.inj h)
    dsimp only at hid hrecord
    rw [hid,←hrecord.1,←hrecord.2]
    rfl
  · intro h
    rw [h]
    rfl

set_option maxRecDepth 4000 in
theorem nameContains_safe :
    TextSafe trigramEnv (adaStore .trigramCaseSensitive) (.scan "Person" "n")
      (nameContains (.literal (.string "Ada"))) none (adaStore .trigramCaseSensitive) := by
  have htarget : ftsTarget (adaStore .trigramCaseSensitive) "Person" "n"
      (nameContains (.literal (.string "Ada")))=
        some (⟨"name",.contains,.literal (.string "Ada"),false⟩,none) := rfl
  have hkind : kindOf (adaStore .trigramCaseSensitive) "Person" "name"=.trigramCaseSensitive := by
    rw [adaStore_kindOf,if_pos ⟨rfl,rfl⟩]
  have htest : evalPredicate trigramEnv.eval (adaStore .trigramCaseSensitive)
      (nameContains (.literal (.string "Ada"))) (filterScope none (nodeToRecord adaNode "n"))=.ok true :=
    rfl
  rw [TextSafe,htarget]
  refine Or.inr ⟨fun lookup h => ?_,fun lookup h term _ n _ hfail => ?_,fun lookup h n hn _ => ?_,
    fun n hn _ _ => ?_⟩
  · rw [List.mem_singleton.mp h]
    exact Or.inr ⟨"Ada",rfl⟩
  · rw [List.mem_singleton.mp h] at hfail
    exact not_fails_ok true hfail
  · rw [stored_adaStore.mp hn.stored]
    exact ⟨⟨rfl,List.mem_singleton.mpr rfl⟩,htest⟩
  · rw [stored_adaStore.mp hn.stored]
    refine ⟨_,List.mem_singleton.mpr rfl,"Ada",rfl,⟨"Ada",rfl,?_⟩,rfl⟩
    rw [if_neg (by decide)]
    refine ⟨stored_adaStore.mpr rfl,List.mem_singleton.mpr rfl,?_,Or.inl rfl⟩
    dsimp only
    rw [hkind]
    decide

set_option maxRecDepth 4000 in
/-- The lookup of the full name covers the filter. -/
theorem nameContains_covers :
    TextSafe trigramEnv (adaStore .trigramCaseSensitive) (.scan "Person" "n")
        (nameContains (.literal (.string "Ada"))) none (adaStore .trigramCaseSensitive) ∧
      Covers (exec trigramEnv (rewriteTextFilterToFts (adaStore .trigramCaseSensitive)
          (personFilter (nameContains (.literal (.string "Ada"))))) (adaStore .trigramCaseSensitive)).1
        (exec trigramEnv (personFilter (nameContains (.literal (.string "Ada"))))
          (adaStore .trigramCaseSensitive)).1 := by
  have hplan := rewriteTextFilterToFts_covers trigramEnv_exact (.scan "Person" "n")
    (nameContains (.literal (.string "Ada"))) none (adaStore .trigramCaseSensitive)
    (adaStore .trigramCaseSensitive) fun rows st' h => by
      have hst : st'=adaStore .trigramCaseSensitive := (Prod.mk.inj h).2.symm
      rw [hst]
      exact ⟨adaStore_mirrors _,fun _ _ => rfl⟩
  exact ⟨nameContains_safe,hplan.1 nameContains_safe⟩

theorem not_covers_of_rowCount {x y : Result Rows×Store} {n m : Nat} (hne : n=0 ↔ m≠0)
    (hx : rowCount x=some n) (hy : rowCount y=some m) : ¬Covers x.1 y.1 := by
  have ⟨a,ha,hlen⟩ := rowCount_eq_some hx
  have ⟨b,hb,hlen'⟩ := rowCount_eq_some hy
  intro h
  have ⟨a',ha',hsame⟩ := h b hb
  rw [ha] at ha'
  rw [←Except.ok.inj ha'] at hsame
  cases a with
  | nil =>
    cases b with
    | nil =>
      have hn : n=0 := hlen.symm
      exact hne.mp hn hlen'.symm
    | cons r rest =>
      have hin := (hsame (dropScores r)).mpr List.mem_cons_self
      exact absurd hin List.not_mem_nil
  | cons r rest =>
    cases b with
    | nil =>
      have hin := (hsame (dropScores r)).mp List.mem_cons_self
      exact absurd hin List.not_mem_nil
    | cons s more =>
      have hm : m≠0 := fun hzero => by
        rw [hzero] at hlen'
        cases hlen'
      have hn := hne.mpr hm
      rw [hn] at hlen
      cases hlen

theorem not_covers_of_fails {x y : Result Rows×Store} {m : Nat} (hx : rowCount x=none)
    (hy : rowCount y=some m) : ¬Covers x.1 y.1 := by
  have ⟨b,hb,_⟩ := rowCount_eq_some hy
  intro h
  have ⟨a,ha,_⟩ := h b hb
  unfold rowCount at hx
  rw [ha] at hx
  cases hx

/-- On databases whose tables mirror the nodes, a short term that differs in case is
lost, a term that is not a text raises an error that the filter does not, and a variable
that is bound to null finds a node. -/
theorem rewriteTextFilterToFts_changes_rows :
    (SearchTablesMirror (adaStore .trigramCaseInsensitive) ∧
      SearchTablesMirror (adaStore .trigramCaseSensitive)) ∧
    ¬Covers (exec trigramEnv (rewriteTextFilterToFts (adaStore .trigramCaseInsensitive)
          (personFilter (lowerNameContains (.literal (.string "AD"))))) (adaStore .trigramCaseInsensitive)).1
        (exec trigramEnv (personFilter (lowerNameContains (.literal (.string "AD"))))
          (adaStore .trigramCaseInsensitive)).1 ∧
    ¬Covers (exec trigramEnv (rewriteTextFilterToFts (adaStore .trigramCaseSensitive)
          (personFilter (nameContains (.literal (.i64 5))))) (adaStore .trigramCaseSensitive)).1
        (exec trigramEnv (personFilter (nameContains (.literal (.i64 5))))
          (adaStore .trigramCaseSensitive)).1 ∧
    ¬Covers (execCorrelated trigramEnv (rewriteTextFilterToFts (adaStore .trigramCaseSensitive)
          (personFilter (nameContains (.literal (.string "Ada"))))) ⟨[("n",.null)]⟩
          (adaStore .trigramCaseSensitive)).1
        (execCorrelated trigramEnv (personFilter (nameContains (.literal (.string "Ada"))))
          ⟨[("n",.null)]⟩ (adaStore .trigramCaseSensitive)).1 := by
  refine ⟨⟨adaStore_mirrors _,adaStore_mirrors _⟩,?_,?_,?_⟩
  · exact @not_covers_of_rowCount _ _ 0 1 (by decide) (by decide +kernel) (by decide +kernel)
  · exact @not_covers_of_fails _ _ 0 (by decide +kernel) (by decide +kernel)
  · exact @not_covers_of_rowCount _ _ 1 0 (by decide) (by decide +kernel) (by decide +kernel)

end GraphDbLite.TextRewrite
