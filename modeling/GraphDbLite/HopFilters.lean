import GraphDbLite.PatternPlan
import GraphDbLite.RecordFields
import GraphDbLite.SingleHop
import GraphDbLite.TrailSearch

/-!
# Inline properties of variable-length relationships

An expansion over several hops keeps only the literals among the inline properties of its
pattern and checks them at every hop. Every relationship of a returned path has the literal
values; parameters and variables are not looked at, and neither is any property of a
pattern whose variable is already bound to relationships.
-/

namespace GraphDbLite.HopFilters

open GraphTypes OrderedTable GraphStore EdgeStorage WriteOperators CypherSyntax CypherValues CypherEval
open Traversal QueryPlan QueryExecutor PatternPlan FallibleLists EdgeConsistency NodeRecords IndexAccess
open StepCandidates SingleHop CappedTraversal TrailSearch
open RecordFields ValueEquality

section Search

variable (st : Store) (direction : Direction) (search : PathSearch)

/-- A step that leads away from some node and passes the filters. -/
def Passed (step : PathStep) : Prop :=
  ∃ u label props,(step,props)∈stepsAlong st direction u label ∧ search.passes props=true

/-- Every step of every reported path and of every opened frame passes. -/
structure AllPassed (s : SearchState) (opened : List (NodeId×List PathStep)) : Prop where
  /-- Reported paths. -/
  results : ∀ path∈s.results,∀ step∈path.2,Passed st direction search step
  /-- Opened frames. -/
  frames : ∀ frame∈opened,∀ step∈frame.2,Passed st direction search step

variable {st direction search} {labels : List String}
variable {candidate : PathStep×Properties}
variable {path : List PathStep} {p p' : SearchState×List (NodeId×List PathStep)} {u : NodeId}

theorem visitStep_passed {label : String} (hcandidate : candidate∈stepsAlong st direction u label)
    (hpath : ∀ step∈path,Passed st direction search step) (hp : AllPassed st direction search p.1 p.2)
    (h : visitStep search path p candidate=.ok p') : AllPassed st direction search p'.1 p'.2 := by
  have hextended : ∀ frame∈extended search path candidate,∀ step∈frame.2,Passed st direction search step := by
    intro frame hframe step hstep
    have ⟨hpasses,heq⟩ := of_mem_extended hframe
    rw [heq] at hstep
    cases List.mem_append.mp hstep with
    | inl hin => exact hpath step hin
    | inr hnew =>
      rw [List.mem_singleton.mp hnew]
      exact ⟨u,label,candidate.2,hcandidate,hpasses⟩
  have ⟨hresults,hframes⟩ := visitStep_frames h
  exact ⟨fun frame hframe => (hresults frame hframe).elim (hp.results frame) (hextended frame),
    fun frame hframe => (hframes frame hframe).elim (hp.frames frame) (hextended frame)⟩

theorem mem_candidateSteps {candidates : List (PathStep×Properties)}
    (h : candidateSteps st labels direction u=.ok candidates) (hin : candidate∈candidates) :
    ∃ label,candidate∈stepsAlong st direction u label := by
  have hnames : ∃ names : List String,candidates=names.flatMap (stepsAlong st direction u) := by
    unfold candidateSteps at h
    by_cases hany : labels=[]
    · rw [if_pos hany] at h
      obtain ⟨names,hlabels,h⟩ := exists_of_bind h
      exact ⟨names,(Except.ok.inj h).symm⟩
    · rw [if_neg hany] at h
      exact ⟨labels,(Except.ok.inj h).symm⟩
  have ⟨names,hall⟩ := hnames
  rw [hall] at hin
  have ⟨label,_,hmem⟩ := List.mem_flatMap.mp hin
  exact ⟨label,hmem⟩

theorem explore_passed {hops : Nat} {frame : NodeId×List PathStep} {s s' : SearchState}
    (hframe : ∀ step∈frame.2,Passed st direction search step) (hs : AllPassed st direction search s [])
    (h : explore st labels direction search hops frame s=.ok s') : AllPassed st direction search s' [] := by
  induction hops generalizing frame s s' with
  | zero =>
    rw [explore] at h
    rw [←Except.ok.inj h]
    exact hs
  | succ hops ih =>
    cases hstop : s.stopped with
    | true =>
      rw [explore,if_pos hstop] at h
      rw [←Except.ok.inj h]
      exact hs
    | false =>
      obtain ⟨candidates,visited,hcandidates,hvisit,hopened⟩ := (explore_succ_iff hstop).mp h
      obtain ⟨_,_,hvisited⟩ := foldlM_relates
        (R:=fun (p : SearchState×List (NodeId×List PathStep)) (_ : Unit) => AllPassed st direction search p.1 p.2)
        (g:=fun _ _ => .ok ()) (c:=()) (fun candidate hin p _ p' hp hstep =>
          ⟨(),rfl,(mem_candidateSteps hcandidates hin).elim fun _ hmem => visitStep_passed hmem hframe hp hstep⟩) hs hvisit
      obtain ⟨_,_,hend⟩ := foldlM_relates
        (R:=fun (s : SearchState) (_ : Unit) => AllPassed st direction search s [])
        (g:=fun _ _ => .ok ()) (c:=()) (fun opened hin s _ s' hs hstep =>
          ⟨(),rfl,ih (hvisited.frames opened (List.mem_reverse.mp hin)) hs hstep⟩)
        ⟨hvisited.results,fun _ hin => absurd hin List.not_mem_nil⟩ hopened
      exact hend

theorem traversePaths_passed {start : NodeId} {paths : List (NodeId×List PathStep)}
    (h : traversePaths st start labels direction search=.ok paths) :
    ∀ path∈paths,∀ step∈path.2,Passed st direction search step := by
  have hinitial : ∀ path∈(if search.minHops=0 then [(start,([] : List PathStep))] else []),∀ step∈path.2,
      Passed st direction search step := by
    intro path hpath step hstep
    split_ifs at hpath
    · rw [List.mem_singleton.mp hpath] at hstep
      cases hstep
    · cases hpath
  unfold traversePaths at h
  dsimp only at h
  generalize (if search.minHops=0 then [(start,([] : List PathStep))] else [])=initial at h hinitial
  by_cases hfull : search.minHops=0 ∧ search.full 1=true
  · rw [if_pos hfull] at h
    rw [←Except.ok.inj h]
    exact hinitial
  · rw [if_neg hfull] at h
    obtain ⟨s,hrun,h⟩ := exists_of_bind h
    rw [←Except.ok.inj h]
    exact (explore_passed (fun _ hin => absurd hin List.not_mem_nil)
      ⟨hinitial,fun _ hin => absurd hin List.not_mem_nil⟩ hrun).results

end Search

section Rows

variable {S : Type}

/-- The expansion of a variable-length pattern under a cap on its rows. -/
def patternSpec (rel : RelPattern S) (srcAlias dstAlias relAlias : String) (cap : Option UInt64) : ExpandSpec S :=
  {expandSpec rel srcAlias dstAlias relAlias with resultCap := cap}

/-- Rows of the expansion as an iterator, which expands one input row after another. -/
def expandIter (env : QueryEnv S) (st : Store) (spec : ExpandSpec S) (records : Rows) : Result Rows :=
  gather (expandRecord env st spec none) records

/-- Every relationship bound to the variable has values equal to those of the filters. -/
def EdgesPass (eval : EvalEnv S) (st : Store) (filters : List (String×Expr S)) (scope : NamedRecord)
    (relAlias : String) (row : NamedRecord) : Prop :=
  ∀ items e,row.get relAlias=some (.list items) → Value.edge e∈items → ∀ filter∈filters,∃ value stored,
    evalExpr eval st filter.2 scope=.ok value ∧ getProp e.properties filter.1=some stored ∧
      valuesEqual stored value=some true

/-- Filters that are literals which equal themselves, so neither null nor a float that is no number. -/
def LiteralFilters (filters : List (String×Expr S)) : Prop :=
  ∀ filter∈filters,∃ l,filter.2=.literal l ∧ valuesEqual (literalToValue l) (literalToValue l)=some true

variable {env : QueryEnv S} {st : Store} {rel : RelPattern S} {srcAlias dstAlias relAlias : String}
  {cap : Option UInt64} {filters : List (String×Expr S)}
variable {value : Value} {l : LiteralValue} {key : String} {direction : Direction} {search : PathSearch}
  {rec : NamedRecord} {rows : Rows}

theorem eq_of_valueEq_literal (h : valueEq value (literalToValue l)=true) : value=literalToValue l := by
  cases l with
  | null =>
    cases value with
    | null => rfl
    | _ => cases h
  | bool b =>
    cases value with
    | bool c => exact congrArg Value.bool (of_decide_eq_true h)
    | _ => cases h
  | i64 n =>
    cases value with
    | i64 m => exact congrArg Value.i64 (of_decide_eq_true h)
    | _ => cases h
  | f64 bits =>
    cases value with
    | f64 other => exact congrArg Value.f64 (of_decide_eq_true h)
    | _ => cases h
  | string text =>
    cases value with
    | string other => exact congrArg Value.string (of_decide_eq_true h)
    | _ => cases h

theorem mem_literalFilters (h : (key,.literal l)∈filters) : (key,literalToValue l)∈literalFilters filters :=
  List.mem_filterMap.mpr ⟨(key,.literal l),h,rfl⟩

theorem of_mem_literalFilters (h : (key,value)∈literalFilters filters) :
    ∃ l,(key,.literal l)∈filters ∧ value=literalToValue l := by
  have ⟨entry,hentry,hlit⟩ := List.mem_filterMap.mp h
  have ⟨name,expr⟩ := entry
  cases expr with
  | literal l =>
    have heq := Prod.mk.inj (Option.some.inj hlit)
    rw [←heq.1]
    exact ⟨l,hentry,heq.2.symm⟩
  | _ => cases hlit

theorem nodup_literalFilters (h : (filters.map Prod.fst).Nodup) : ((literalFilters filters).map Prod.fst).Nodup := by
  induction filters with
  | nil => exact List.nodup_nil
  | cons entry rest ih =>
    rw [List.map_cons,List.nodup_cons] at h
    have ⟨key,expr⟩ := entry
    cases expr with
    | literal l =>
      have hnew : key∉(literalFilters rest).map Prod.fst := by
        intro hin
        have ⟨checked,hchecked,heq⟩ := List.mem_map.mp hin
        have ⟨other,hother,_⟩ := of_mem_literalFilters hchecked
        rw [heq] at hother
        exact h.1 (List.mem_map.mpr ⟨_,hother,rfl⟩)
      exact List.nodup_cons.mpr ⟨hnew,ih h.2⟩
    | _ => exact ih h.2

theorem valueEq_literalFilters {filter : String×Value} (h : filter∈literalFilters filters) :
    valueEq filter.2 filter.2=true := by
  have ⟨l,_,heq⟩ := of_mem_literalFilters h
  rw [heq]
  cases l with
  | null => rfl
  | _ => exact decide_eq_true rfl

/-- The relationship of a step that passed has the values of the literal filters. -/
theorem edgesPass_of_passed (h : TablesAgree st) (hfilters : LiteralFilters filters)
    (hsearch : search.filters=literalFilters filters) {steps : List PathStep}
    (hpassed : ∀ step∈steps,Passed st direction search step) (scope row : NamedRecord)
    (hrow : row.get relAlias=some (stepList st steps)) : EdgesPass env.eval st filters scope relAlias row := by
  intro items e hitems he filter hfilter
  rw [hrow] at hitems
  have hlist : steps.map (fun step => Value.edge ⟨step.edgeSrc,step.edgeDst,step.edgeLabel,
      getEdgePropertiesAt st step.edgeSrc step.edgeDst step.edgeLabel step.edgeSeq⟩)=items :=
    Value.list.inj (Option.some.inj hitems)
  rw [←hlist] at he
  obtain ⟨step,hstep,hedge⟩ := List.mem_map.mp he
  obtain ⟨u,label,props,hcandidate,hpasses⟩ := hpassed step hstep
  have hstored := ((h.mem_stepsAlong direction u label).mp hcandidate).2.1
  have hprops : e.properties=props := by
    rw [←Value.edge.inj hedge,getEdgePropertiesAt,hstored]
    rfl
  obtain ⟨l,hl,hself⟩ := hfilters filter hfilter
  have hin : (filter.1,literalToValue l)∈search.filters := by
    rw [hsearch]
    exact mem_literalFilters (by rw [←hl]; exact hfilter)
  obtain ⟨value,hvalue,hequal⟩ := (passes_iff props).mp hpasses _ hin
  rw [eq_of_valueEq_literal hequal] at hvalue
  have heval : evalExpr env.eval st filter.2 scope=.ok (literalToValue l) := by
    rw [hl]
    rfl
  exact ⟨literalToValue l,literalToValue l,heval,by rw [hprops]; exact hvalue,hself⟩

theorem edgesPass_of_paths (h : TablesAgree st) (hfilters : LiteralFilters rel.properties) (hsearch : search.filters=literalFilters rel.properties) {scope : NamedRecord}
    {paths : List (NodeId×List PathStep)}
    (hpaths : ∀ path∈paths,∀ step∈path.2,Passed st direction search step)
    (hrows : gather (fun path => (pathRecord st (patternSpec rel srcAlias dstAlias relAlias cap) rec path).map
      fun r => [r]) paths=.ok rows) : ∀ row∈rows,EdgesPass env.eval st rel.properties scope relAlias row := by
  intro row hrow
  have ⟨path,hpath,part,hpart,hin⟩ := (mem_gather hrows).mp hrow
  cases hfetch : fetchAndPopulate st rec path.1 dstAlias with
  | error e =>
    have hrecord : pathRecord st (patternSpec rel srcAlias dstAlias relAlias cap) rec path=.error e := by
      have hcall : fetchAndPopulate st rec path.1 (patternSpec rel srcAlias dstAlias relAlias cap).dstAlias=.error e := hfetch
      rw [pathRecord,hcall]
      rfl
    rw [hrecord] at hpart
    cases hpart
  | ok reached =>
    have hrecord : pathRecord st (patternSpec rel srcAlias dstAlias relAlias cap) rec path=
        .ok (reached.set relAlias (stepList st path.2)) := by
      have hcall : fetchAndPopulate st rec path.1 (patternSpec rel srcAlias dstAlias relAlias cap).dstAlias=
        .ok reached := hfetch
      rw [pathRecord,hcall]
      rfl
    rw [hrecord] at hpart
    have hsingle : [reached.set relAlias (stepList st path.2)]=part := Except.ok.inj hpart
    rw [←hsingle] at hin
    rw [List.mem_singleton.mp hin]
    exact edgesPass_of_passed h hfilters hsearch (hpaths path hpath) scope _ (get_set_self _ _ _)

theorem expandSearch_filters (hvar : rel.varLength.isSome=true) (limit : Option Nat) :
    (expandSearch env (patternSpec rel srcAlias dstAlias relAlias cap) limit).filters=literalFilters rel.properties := by
  have hspec : (patternSpec rel srcAlias dstAlias relAlias cap).varLengthPropFilters=rel.properties := if_pos hvar
  rw [expandSearch,hspec]

theorem expandRecord_pass (h : TablesAgree st) (hvar : rel.varLength.isSome=true)
    (hfilters : LiteralFilters rel.properties) {limit : Option Nat}
    (hrows : expandRecord env st (patternSpec rel srcAlias dstAlias relAlias cap) limit rec=.ok rows) :
    ∀ row∈rows,EdgesPass env.eval st rel.properties rec relAlias row := by
  have hlength : (patternSpec rel srcAlias dstAlias relAlias cap).varLength=true := hvar
  unfold expandRecord at hrows
  cases hsrc : boundNode rec (patternSpec rel srcAlias dstAlias relAlias cap).srcAlias with
  | none =>
    rw [hsrc] at hrows
    rw [←Except.ok.inj hrows]
    exact fun row hrow => absurd hrow List.not_mem_nil
  | some srcId =>
    rw [hsrc] at hrows
    dsimp only at hrows
    obtain ⟨labels,hlabels,hrows⟩ := exists_of_bind hrows
    simp only [bind,Except.bind] at hrows
    rw [if_pos hlength] at hrows
    obtain ⟨paths,hpaths,hrows⟩ := exists_of_bind hrows
    have hpassed := traversePaths_passed hpaths
    exact edgesPass_of_paths h hfilters (expandSearch_filters hvar limit)
      (fun path hpath => hpassed path (List.mem_of_mem_filter hpath)) hrows

theorem expandRecords_pass (h : TablesAgree st) (hvar : rel.varLength.isSome=true)
    (hfilters : LiteralFilters rel.properties) {records done : Rows} {all : Rows} (hall : ∀ rec∈records,rec∈all)
    (hdone : ∀ row∈done,∃ rec∈all,EdgesPass env.eval st rel.properties rec relAlias row)
    (hrows : expandRecords env st (patternSpec rel srcAlias dstAlias relAlias cap) records done=.ok rows) :
    ∀ row∈rows,∃ rec∈all,EdgesPass env.eval st rel.properties rec relAlias row := by
  induction records generalizing done with
  | nil =>
    rw [expandRecords] at hrows
    rw [←Except.ok.inj hrows]
    exact hdone
  | cons rec rest ih =>
    have hmore : ∀ limit more,expandRecord env st (patternSpec rel srcAlias dstAlias relAlias cap) limit rec=.ok more →
        ∀ row∈done++more,∃ rec∈all,EdgesPass env.eval st rel.properties rec relAlias row := by
      intro limit more hrun row hrow
      cases List.mem_append.mp hrow with
      | inl hin => exact hdone row hin
      | inr hnew => exact ⟨rec,hall rec List.mem_cons_self,expandRecord_pass h hvar hfilters hrun row hnew⟩
    have hrest : ∀ other∈rest,other∈all := fun other hother => hall other (List.mem_cons_of_mem _ hother)
    have hcap : (patternSpec rel srcAlias dstAlias relAlias cap).resultCap=cap := rfl
    rw [expandRecords,hcap] at hrows
    cases cap with
    | none =>
      dsimp only at hrows
      obtain ⟨more,hrun,hrows⟩ := exists_of_bind hrows
      exact ih hrest (hmore none more hrun) hrows
    | some count =>
      dsimp only at hrows
      by_cases hfull : count.toNat≤done.length
      · rw [if_pos hfull] at hrows
        rw [←Except.ok.inj hrows]
        exact hdone
      · rw [if_neg hfull] at hrows
        obtain ⟨more,hrun,hrows⟩ := exists_of_bind hrows
        exact ih hrest (hmore _ more hrun) hrows

/-- Rows of a record under an outer record whose relationships are not bound yet. -/
theorem expandCorrelated_pass (h : TablesAgree st) (hvar : rel.varLength.isSome=true)
    (hfilters : LiteralFilters rel.properties) {outer : NamedRecord}
    (hfree : boundEdgeList (patternSpec rel srcAlias dstAlias relAlias cap) outer rec=none)
    (hrows : expandCorrelated env st (patternSpec rel srcAlias dstAlias relAlias cap) outer rec=.ok rows) :
    ∀ row∈rows,EdgesPass env.eval st rel.properties (filterScope (some outer) rec) relAlias row := by
  have hlength : (patternSpec rel srcAlias dstAlias relAlias cap).varLength=true := hvar
  unfold expandCorrelated at hrows
  cases hsrc : boundNode rec (patternSpec rel srcAlias dstAlias relAlias cap).srcAlias with
  | none =>
    rw [hsrc] at hrows
    rw [←Except.ok.inj hrows]
    exact fun row hrow => absurd hrow List.not_mem_nil
  | some srcId =>
    rw [hsrc] at hrows
    dsimp only at hrows
    obtain ⟨labels,hlabels,hrows⟩ := exists_of_bind hrows
    rw [if_pos hlength,hfree,expandPaths] at hrows
    dsimp only at hrows
    obtain ⟨paths,hpaths,hrows⟩ := exists_of_bind hrows
    have hpassed := traversePaths_passed hpaths
    exact edgesPass_of_paths h hfilters (expandSearch_filters hvar none)
      (fun path hpath => hpassed path (List.mem_of_mem_filter hpath)) hrows

end Rows

section Exactness

variable {S : Type} (env : QueryEnv S)

/-- No filter of a property map is dropped, over every database, pattern and row. -/
structure Kept (filters : List (String×Expr S)) : Prop where
  /-- The expansion of all rows at once. -/
  materialised : ∀ st (rel : RelPattern S) srcAlias dstAlias relAlias cap records rows,TablesAgree st →
    rel.varLength.isSome=true → rel.properties=filters →
      execExpand env st (patternSpec rel srcAlias dstAlias relAlias cap) records=.ok rows →
        ∀ row∈rows,∃ rec∈records,EdgesPass env.eval st filters rec relAlias row
  /-- The expansion of rows held in slots. -/
  slots : ∀ st (rel : RelPattern S) srcAlias dstAlias relAlias cap records rows,TablesAgree st →
    rel.varLength.isSome=true → rel.properties=filters →
      expandIter env st (patternSpec rel srcAlias dstAlias relAlias cap) records=.ok rows →
        ∀ row∈rows,∃ rec∈records,EdgesPass env.eval st filters rec relAlias row
  /-- The expansion under an outer row that does not bind the relationships. -/
  correlated : ∀ st (rel : RelPattern S) srcAlias dstAlias relAlias cap outer rec rows,TablesAgree st →
    rel.varLength.isSome=true → rel.properties=filters →
      boundEdgeList (patternSpec rel srcAlias dstAlias relAlias cap) outer rec=none →
        expandCorrelated env st (patternSpec rel srcAlias dstAlias relAlias cap) outer rec=.ok rows →
          ∀ row∈rows,EdgesPass env.eval st filters (filterScope (some outer) rec) relAlias row

/-- No filter is dropped under an outer row that binds the relationships already. -/
def KeptRebound (filters : List (String×Expr S)) : Prop :=
  ∀ st (rel : RelPattern S) srcAlias dstAlias relAlias cap outer rec rows,TablesAgree st →
    rel.varLength.isSome=true → rel.properties=filters →
      (boundEdgeList (patternSpec rel srcAlias dstAlias relAlias cap) outer rec).isSome=true →
        expandCorrelated env st (patternSpec rel srcAlias dstAlias relAlias cap) outer rec=.ok rows →
          ∀ row∈rows,EdgesPass env.eval st filters (filterScope (some outer) rec) relAlias row

variable {env} {filters : List (String×Expr S)}

theorem kept_of_literals (hfilters : LiteralFilters filters) : Kept env filters := by
  constructor
  · intro st rel srcAlias dstAlias relAlias cap records rows h hvar hrel hrun
    rw [←hrel] at hfilters ⊢
    unfold execExpand at hrun
    obtain ⟨found,hexpand,hrun⟩ := exists_of_bind hrun
    have hlimit : checkRowLimit env found=.ok rows := hrun
    have hsame : found=rows := by
      unfold checkRowLimit at hlimit
      split_ifs at hlimit
      exact Except.ok.inj hlimit
    rw [←hsame]
    exact expandRecords_pass h hvar hfilters (fun _ hrec => hrec) (fun _ hrow => absurd hrow List.not_mem_nil) hexpand
  · intro st rel srcAlias dstAlias relAlias cap records rows h hvar hrel hrun row hrow
    rw [←hrel] at hfilters ⊢
    have ⟨rec,hrec,part,hpart,hin⟩ := (mem_gather hrun).mp hrow
    exact ⟨rec,hrec,expandRecord_pass h hvar hfilters hpart row hin⟩
  · intro st rel srcAlias dstAlias relAlias cap outer rec rows h hvar hrel hfree hrun
    rw [←hrel] at hfilters ⊢
    exact expandCorrelated_pass h hvar hfilters hfree hrun

/-- A node with a relationship to another, with those properties. -/
def hopStore (props : Properties) : Store :=
  {addEdge freshStore 1 2 "R" props with nodes := put (put empty 1 ⟨"",⟨[],[]⟩⟩) 2 ⟨"",⟨[],[]⟩⟩}

theorem tablesAgree_hopStore (props : Properties) : TablesAgree (hopStore props) := by
  have hname : isValidName "R"=true := by decide
  have h := tablesAgree_of_edgeInv (edgeInv_freshStore.addEdge 1 2 hname props (by decide))
  exact ⟨h.adjOut,h.adjIn,h.rows,h.out,h.inc⟩

/-- The step over its relationship. -/
def hopStep : PathStep := ⟨1,2,"R",0,2⟩

theorem candidateSteps_hopStore (props : Properties) :
    candidateSteps (hopStore props) ["R"] .outgoing 1=.ok [(hopStep,props)] := rfl

/-- A pattern of one hop with those inline properties. -/
def hopPattern (filters : List (String×Expr S)) : RelPattern S := ⟨some "r",["R"],filters,.outgoing,some (1,1)⟩

/-- The row of the relationship. -/
def hopRow (props : Properties) : NamedRecord :=
  (populateNodeBindings startRecord ⟨2,[],[]⟩ "b").set "r" (stepList (hopStore props) [hopStep])

theorem expandRecord_hopStore {props : Properties}
    (hpasses : (expandSearch env (patternSpec (hopPattern filters) "a" "b" "r" none) none).passes props=true) :
    expandRecord env (hopStore props) (patternSpec (hopPattern filters) "a" "b" "r" none) none startRecord=
      .ok [hopRow props] := by
  have hwork : env.maxTraversalWork=0 ∨ [(hopStep,props)].length≤env.maxTraversalWork.toNat := by
    by_cases hzero : env.maxTraversalWork=0
    · exact .inl hzero
    · have hne : env.maxTraversalWork.toNat≠0 := fun heq => hzero (UInt64.toNat_inj.mp heq)
      exact .inr (Nat.one_le_iff_ne_zero.mpr hne)
  have hpaths := traversePaths_one (expandSearch env (patternSpec (hopPattern filters) "a" "b" "r" none) none)
    rfl rfl rfl (candidateSteps_hopStore props) (fun c hc => by rw [List.mem_singleton.mp hc]; exact hpasses) hwork
  have hrun : expandRecord env (hopStore props) (patternSpec (hopPattern filters) "a" "b" "r" none) none startRecord=
      (traversePaths (hopStore props) 1 ["R"] .outgoing
        (expandSearch env (patternSpec (hopPattern filters) "a" "b" "r" none) none) >>= fun paths =>
          gather (fun path => (pathRecord (hopStore props) (patternSpec (hopPattern filters) "a" "b" "r" none)
            startRecord path).map fun r => [r]) (paths.filter fun path => reaches none path.1)) := rfl
  rw [hrun,hpaths]
  rfl

theorem literals_of_kept (hkeys : (filters.map Prod.fst).Nodup) (h : Kept env filters) : LiteralFilters filters := by
  have hpasses : (expandSearch env (patternSpec (hopPattern filters) "a" "b" "r" none) none).passes
      (literalFilters filters)=true := by
    rw [passes_iff,expandSearch_filters rfl]
    intro filter hfilter
    exact ⟨filter.2,getProp_of_distinct (nodup_literalFilters hkeys) hfilter,valueEq_literalFilters hfilter⟩
  have hrun : expandIter env (hopStore (literalFilters filters)) (patternSpec (hopPattern filters) "a" "b" "r" none)
      [startRecord]=.ok [hopRow (literalFilters filters)] := by
    rw [expandIter,gather,expandRecord_hopStore hpasses]
    rfl
  have ⟨rec,hrec,hpass⟩ := h.slots _ _ _ _ _ _ _ _ (tablesAgree_hopStore _) rfl rfl hrun _ List.mem_cons_self
  have hrow : (hopRow (literalFilters filters)).get "r"=some (.list [.edge ⟨1,2,"R",literalFilters filters⟩]) := rfl
  intro filter hfilter
  have ⟨value,stored,heval,hstored,hequal⟩ := hpass _ _ hrow List.mem_cons_self filter hfilter
  have ⟨l,hl,hstoredL⟩ := of_mem_literalFilters (mem_of_getProp hstored)
  have hsame : (filter.1,.literal l)=filter := List.inj_on_of_nodup_map hkeys hl hfilter rfl
  rw [←hsame] at heval
  rw [hstoredL,←Except.ok.inj heval] at hequal
  exact ⟨l,(congrArg Prod.snd hsame).symm,hequal⟩

/-- A row that binds the relationship already. -/
def reboundRecord : NamedRecord := ⟨[("r",.list [.edge ⟨1,2,"R",[]⟩])]⟩

theorem keptRebound_iff : KeptRebound env filters ↔ filters=[] := by
  constructor
  · intro h
    have hrun : expandCorrelated env (hopStore []) (patternSpec (hopPattern filters) "a" "b" "r" none) reboundRecord
        startRecord=.ok [hopRow []] := rfl
    have hbound : (boundEdgeList (patternSpec (hopPattern filters) "a" "b" "r" none) reboundRecord
        startRecord).isSome=true := rfl
    have hpass := h _ _ _ _ _ _ _ _ _ (tablesAgree_hopStore []) rfl rfl hbound hrun _ List.mem_cons_self
    have hrow : (hopRow []).get "r"=some (.list [.edge ⟨1,2,"R",[]⟩]) := rfl
    cases filters with
    | nil => rfl
    | cons filter rest =>
      have ⟨_,_,_,hstored,_⟩ := hpass _ _ hrow List.mem_cons_self filter List.mem_cons_self
      cases hstored
  · intro h st rel srcAlias dstAlias relAlias cap outer rec rows _ _ _ _ _ row _ items e _ _ filter hfilter
    rw [h] at hfilter
    cases hfilter

/-- The inline properties of variable-length patterns are kept exactly when each is a literal
that equals itself, and under a row that binds the relationships when there are none. -/
theorem kept_iff (hkeys : (filters.map Prod.fst).Nodup) :
    (Kept env filters ↔ LiteralFilters filters) ∧ (KeptRebound env filters ↔ filters=[]) :=
  ⟨⟨literals_of_kept hkeys,kept_of_literals⟩,keptRebound_iff⟩

/-- A year as inline property. -/
def yearFilter : List (String×Expr Empty) := [("since",.literal (.i64 2020))]

/-- A year is kept as long as the relationships are not bound yet. -/
theorem kept_iff_year : (yearFilter.map Prod.fst).Nodup ∧ (Kept plainEnv yearFilter ↔ LiteralFilters yearFilter) ∧
    (KeptRebound plainEnv yearFilter ↔ yearFilter=[]) := by
  have hkeys : (yearFilter.map Prod.fst).Nodup := List.nodup_singleton "since"
  exact ⟨hkeys,kept_iff hkeys⟩

/-- Execution with a parameter. -/
def yearEnv : QueryEnv Empty := {plainEnv with eval := {plainEval with params := fun _ => some (.i64 2020)}}

/-- A year as parameter is dropped. -/
theorem parameter_dropped : ¬Kept yearEnv [("since",.parameter "year")] := by
  intro h
  have hkeys : (([("since",.parameter "year")] : List (String×Expr Empty)).map Prod.fst).Nodup :=
    List.nodup_singleton "since"
  have ⟨_,hliteral,_⟩ := literals_of_kept hkeys h _ List.mem_cons_self
  cases hliteral

end Exactness

end GraphDbLite.HopFilters
