import GraphDbLite.IndexAccess
import GraphDbLite.StepCandidates

/-!
# A single hop and a path of one step

Expanding one hop lists the neighbours of a node once and guesses one orientation for
each of them; a path search of one step enumerates both. The rows of the hop are those of
the steps in the guessed orientation whose relationship no other binding of the row shows.
Nothing is lost exactly when, in undirected patterns, no neighbour is related both ways
along one type, and no fields disguise a step.
-/

namespace GraphDbLite.SingleHop

open GraphTypes OrderedTable GraphStore EdgeStorage NodeStorage
open EdgeConsistency EntityDeletion WriteOperators Traversal QueryPlan QueryExecutor
open FallibleLists NodeView NodeRecords IndexAccess NeighbourSearch StepCandidates

/-- A database whose relationship tables agree and whose relationships join stored nodes. -/
structure Joined (st : Store) : Prop where
  /-- The relationship tables agree. -/
  tables : TablesAgree st
  /-- Sources are stored nodes. -/
  sources : ∀ s d l,HasEdge st s d l → (recordAt st s).isSome=true
  /-- Destinations are stored nodes. -/
  destinations : ∀ s d l,HasEdge st s d l → (recordAt st d).isSome=true

/-- The node stored under an identifier. -/
def nodeAt (st : Store) (id : NodeId) : Node :=
  match recordAt st id with
  | some r => ⟨id,r.labels,r.properties⟩
  | none => ⟨id,[],[]⟩

section Steps

variable {S : Type} (env : QueryEnv S) (st : Store) (spec : ExpandSpec S) (rec : NamedRecord) (relAlias : String)

/-- The expansion as a plain hop. -/
def singleHop : ExpandSpec S := {spec with varLength := false}

/-- The expansion as a path of one step without property filters. -/
def pathHop : ExpandSpec S := {spec with varLength := true,minHops := 1,maxHops := 1,varLengthPropFilters := []}

/-- A stored relationship of an accepted type leads from a node to one the record allows. -/
structure Incident (u : NodeId) (step : PathStep) (props : Properties) : Prop where
  /-- The type is accepted. -/
  accepted : spec.edgeTypes=[] ∨ step.edgeLabel∈spec.edgeTypes
  /-- The relationship is stored and leads away from the node. -/
  stored : StoredStep st spec.direction u step props
  /-- A bound destination is the reached node. -/
  allowed : reaches (boundNode rec spec.dstAlias) step.dst=true

/-- The record with the fields of the node that a step reaches. -/
def reached (step : PathStep) : NamedRecord := populateNodeBindings rec (nodeAt st step.dst) spec.dstAlias

/-- The row of a hop over a relationship. -/
def hopRow (s : PathStep×Properties) : NamedRecord :=
  bindProperties ((bindRelationship (reached st spec rec s.1) relAlias s.1.edgeLabel s.1.edgeSrc s.1.edgeDst).set
    (relAlias++".__edge_seq") (.i64 s.1.edgeSeq.toInt64)) relAlias s.2

/-- The row of a path of one step. -/
def pathRow (s : PathStep×Properties) : NamedRecord :=
  (reached st spec rec s.1).set relAlias
    (.list [.edge ⟨s.1.edgeSrc,s.1.edgeDst,s.1.edgeLabel,s.2⟩])

/-- Whether a step has the orientation guessed for its neighbour. -/
def guessed (u : NodeId) (step : PathStep) : Bool :=
  orientation st u step.dst step.edgeLabel spec.direction=(step.edgeSrc,step.edgeDst)

/-- Whether another binding of the row shows the relationship of a step. -/
def disguised (step : PathStep) : Bool :=
  clashes (reached st spec rec step) relAlias
    (edgeKey step.edgeSrc.toInt64 step.edgeDst.toInt64 step.edgeLabel step.edgeSeq)

/-- Fields that identify the relationship of a step. -/
def identityFields (step : PathStep) : List (String×Value) :=
  [("__src",.i64 step.edgeSrc.toInt64),("__dst",.i64 step.edgeDst.toInt64),("__type",.string step.edgeLabel),
    ("__edge_seq",.i64 step.edgeSeq.toInt64)]

/-- No property of a relationship replaces a field of its identity. -/
def Unmasked (step : PathStep) (props : Properties) : Prop :=
  ∀ entry∈identityFields step,∀ v,getProp props entry.1=some v → v=entry.2

/-- A row shows the identity and the properties of a relationship. -/
structure Shows (row : NamedRecord) (step : PathStep) (props : Properties) : Prop where
  /-- The identity. -/
  identity : ∀ entry∈identityFields step,row.get (relAlias++("."++entry.1))=some entry.2
  /-- The properties. -/
  properties : ∀ p v,getProp props p=some v → row.get (relAlias++("."++p))=some v

/-- Both expansions return one row for each of the listed relationships, and the rows of the
hop show them. -/
structure RowsOf (steps : List (PathStep×Properties)) : Prop where
  /-- The hop has one row for each. -/
  hop : ∃ rows,expandRecord env st (singleHop spec) none rec=.ok rows ∧
    rows.Perm (steps.map (hopRow st spec rec relAlias))
  /-- The rows show the relationships. -/
  shown : ∀ s∈steps,Shows relAlias (hopRow st spec rec relAlias s) s.1 s.2
  /-- The path search has one row for each. -/
  path : ∃ rows,expandRecord env st (pathHop spec) none rec=.ok rows ∧
    rows.Perm (steps.map (pathRow st spec rec relAlias))

/-- The hop and the path search return the incident relationships, each once. -/
def HopAgrees (u : NodeId) : Prop :=
  ∃ steps : List (PathStep×Properties),(steps.map Prod.fst).Nodup ∧
    (∀ step props,(step,props)∈steps ↔ Incident st spec rec u step props) ∧ RowsOf env st spec rec relAlias steps

/-- No incident relationship is lost or hidden. -/
structure Transparent (u : NodeId) : Prop where
  /-- In an undirected pattern no neighbour is related both ways along one type. -/
  oneWay : spec.direction=.both → ∀ v l,v≠u → (spec.edgeTypes=[] ∨ l∈spec.edgeTypes) →
    reaches (boundNode rec spec.dstAlias) v=true → ¬(HasEdge st u v l ∧ HasEdge st v u l)
  /-- No other fields of a row read as the relationship. -/
  undisguised : ∀ step props,Incident st spec rec u step props → disguised st spec rec relAlias step=false
  /-- No property replaces a field of the identity. -/
  unmasked : ∀ step props,Incident st spec rec u step props → Unmasked step props

end Steps


section Neighbours

variable {st : Store} {u v : NodeId} {l : String}

theorem getNode_nodeAt {id : NodeId} (h : (recordAt st id).isSome=true) : getNode st id=.ok (nodeAt st id) := by
  have ⟨r,hr⟩ := Option.isSome_iff_exists.mp h
  rw [getNode_of_recordAt hr,nodeAt,hr]

theorem Joined.stored (h : Joined st) {direction : Direction} (hlink : Linked st l direction u v) :
    (recordAt st v).isSome=true := by
  cases direction with
  | outgoing => exact h.destinations u v l hlink
  | incoming => exact h.sources v u l hlink
  | both =>
    cases hlink with
    | inl hout => exact h.destinations u v l hout
    | inr hin => exact h.sources v u l hin

theorem linked_of_storedStep {direction : Direction} {step : PathStep} {props : Properties}
    (h : StoredStep st direction u step props) : Linked st step.edgeLabel direction u step.dst := by
  have hedge : HasEdge st step.edgeSrc step.edgeDst step.edgeLabel := ⟨step.edgeSeq,mem_keys.mpr ⟨props,h.1⟩⟩
  have hends := h.2
  cases direction with
  | outgoing | incoming =>
    rw [hends.1,hends.2] at hedge
    exact hedge
  | both =>
    cases hends with
    | inl hout =>
      rw [hout.1,hout.2] at hedge
      exact Or.inl hedge
    | inr hin =>
      rw [hin.1,hin.2] at hedge
      exact Or.inr hedge

theorem parallelEdges_eq (h : TablesAgree st) {s d : NodeId} (hedge : HasEdge st s d l) :
    parallelEdges st s d l=getAllEdgeProps st s d l := by
  have ⟨e,he⟩ := h.exists_parallel hedge
  rw [parallelEdges]
  exact if_neg fun hempty => List.ne_nil_of_mem he (List.isEmpty_iff.mp hempty)

/-- The step over a parallel relationship to a neighbour. -/
def stepTo (l : String) (v : NodeId) (e : NodeId×NodeId×UInt64×Properties) : PathStep×Properties :=
  (⟨e.1,e.2.1,l,e.2.2.1,v⟩,e.2.2.2)

/-- Undirected patterns guess the stored orientation away from the node if there is one. -/
theorem orientation_both (h : TablesAgree st) : (HasEdge st u v l → orientation st u v l .both=(u,v)) ∧
    (¬HasEdge st u v l → orientation st u v l .both=(v,u)) := by
  have hexists : edgeExists st u v l=true ↔ HasEdge st u v l := by
    rw [edgeExists,decide_eq_true_eq]
    exact h.out u v l
  rw [orientation]
  exact ⟨fun hout => if_pos (hexists.mpr hout),fun hout => if_neg fun hfound => hout (hexists.mp hfound)⟩

/-- The relationships of the guessed pair are the steps to the neighbour in the guessed
orientation. -/
theorem guessed_steps {S : Type} {spec : ExpandSpec S} (h : TablesAgree st)
    (hlink : Linked st l spec.direction u v) :
    (parallelEdges st (orientation st u v l spec.direction).1 (orientation st u v l spec.direction).2 l).map
        (fun e => stepTo l v ((orientation st u v l spec.direction).1,(orientation st u v l spec.direction).2,e.1,e.2))=
      ((directedEdges st u v l spec.direction).map (stepTo l v)).filter fun s => guessed st spec u s.1 := by
  rw [h.directedEdges_eq spec.direction hlink]
  have hone : ∀ s d : NodeId,(s,d)=orientation st u v l spec.direction →
      ((getAllEdgeProps st s d l).map fun e => stepTo l v (s,d,e.1,e.2)).filter (fun s => guessed st spec u s.1)=
        (getAllEdgeProps st s d l).map fun e => stepTo l v (s,d,e.1,e.2) := by
    intro s d hends
    rw [List.filter_eq_self]
    intro x hx
    have ⟨e,_,hxe⟩ := List.mem_map.mp hx
    rw [←hxe]
    exact decide_eq_true hends.symm
  have hother : ∀ s d : NodeId,(s,d)≠orientation st u v l spec.direction →
      ((getAllEdgeProps st s d l).map fun e => stepTo l v (s,d,e.1,e.2)).filter (fun s => guessed st spec u s.1)=
        [] := by
    intro s d hends
    rw [List.filter_eq_nil_iff]
    intro x hx
    have ⟨e,_,hxe⟩ := List.mem_map.mp hx
    rw [←hxe]
    exact fun hguess => hends (of_decide_eq_true hguess).symm
  cases hdirection : spec.direction with
  | outgoing =>
    rw [hdirection] at hone hlink
    rw [between,List.map_map]
    exact (congrArg (List.map _) (parallelEdges_eq h hlink)).trans (hone u v rfl).symm
  | incoming =>
    rw [hdirection] at hone hlink
    rw [between,List.map_map]
    exact (congrArg (List.map _) (parallelEdges_eq h hlink)).trans (hone v u rfl).symm
  | both =>
    rw [hdirection] at hone hother hlink
    have hguess := orientation_both (l:=l) (u:=u) (v:=v) h
    rw [between]
    by_cases hsame : u=v
    · have hloop : HasEdge st u v l := by
        cases hlink with
        | inl hout => exact hout
        | inr hin =>
          rw [hsame] at hin ⊢
          exact hin
      rw [if_pos hsame,hguess.1 hloop,parallelEdges_eq h hloop,List.map_map]
      exact (hone u v (hguess.1 hloop).symm).symm
    · rw [if_neg hsame,List.map_append,List.map_map,List.map_map,List.filter_append]
      by_cases hout : HasEdge st u v l
      · have hback := hother v u fun heq => hsame (Prod.mk.inj (heq.trans (hguess.1 hout))).2
        have hforth := hone u v (hguess.1 hout).symm
        rw [hguess.1 hout,parallelEdges_eq h hout]
        exact ((congrArg₂ (· ++ ·) hforth hback).trans (List.append_nil _)).symm
      · have hin := hlink.resolve_left hout
        have hforth := hother u v fun heq => hsame (Prod.mk.inj (heq.trans (hguess.2 hout))).1
        have hback := hone v u (hguess.2 hout).symm
        rw [hguess.2 hout,parallelEdges_eq h hin]
        exact (congrArg₂ (· ++ ·) hforth hback).symm

end Neighbours

section Lists

variable {α β : Type}

theorem filter_flatMap_of {g : α → List β} {p : β → Bool} {q : α → Bool} (h : ∀ a,∀ b∈g a,p b=q a) (l : List α) :
    (l.flatMap g).filter p=(l.filter q).flatMap g := by
  induction l with
  | nil => rfl
  | cons a rest ih =>
    rw [List.flatMap_cons,List.filter_append,ih]
    cases hq : q a with
    | true =>
      have hall : (g a).filter p=g a := List.filter_eq_self.mpr fun b hb => (h a b hb).trans hq
      rw [List.filter_cons_of_pos hq,List.flatMap_cons,hall]
    | false =>
      have hnone : (g a).filter p=[] := by
        rw [List.filter_eq_nil_iff]
        intro b hb hp
        exact Bool.false_ne_true (hq.symm.trans ((h a b hb).symm.trans hp))
      rw [List.filter_cons_of_neg (by simp [hq]),hnone,List.nil_append]

theorem flatMap_dropped (p : α → Bool) (f : α → β) (l : List α) :
    l.flatMap (fun a => if p a=true then [] else [f a])=(l.filter fun a => !p a).map f := by
  induction l with
  | nil => rfl
  | cons a rest ih =>
    rw [List.flatMap_cons,ih]
    cases hp : p a with
    | true | false => simp [hp]

end Lists

section Expansions

variable {S : Type} {env : QueryEnv S} {st : Store} {spec : ExpandSpec S} {rec : NamedRecord} {relAlias : String}
  {u : NodeId}

/-- The rows of a neighbour are those of its steps in the guessed orientation that no other
binding shows. -/
theorem expandNeighbor_eq (h : Joined st) (halias : spec.relAlias=some relAlias) {v : NodeId} {l : String}
    (hlink : Linked st l spec.direction u v) :
    expandNeighbor st spec rec u l v=.ok ((((directedEdges st u v l spec.direction).map (stepTo l v)).filter
      fun s => !disguised st spec rec relAlias s.1 && guessed st spec u s.1).map (hopRow st spec rec relAlias)) := by
  have hfetch : fetchAndPopulate st rec v spec.dstAlias=.ok (populateNodeBindings rec (nodeAt st v) spec.dstAlias) := by
    rw [fetchAndPopulate,getNode_nodeAt (h.stored hlink)]
    rfl
  have hrows : ∀ (s d : NodeId) (entries : List (UInt64×Properties)),
      entries.flatMap (relationshipRecord (populateNodeBindings rec (nodeAt st v) spec.dstAlias) relAlias l s d)=
        ((entries.map fun e => stepTo l v (s,d,e.1,e.2)).filter
          fun x => !disguised st spec rec relAlias x.1).map (hopRow st spec rec relAlias) := by
    intro s d entries
    rw [List.filter_map,List.map_map]
    exact flatMap_dropped (fun e => disguised st spec rec relAlias (stepTo l v (s,d,e.1,e.2)).1)
      (fun e => hopRow st spec rec relAlias (stepTo l v (s,d,e.1,e.2))) entries
  rw [expandNeighbor,hfetch,halias,←List.filter_filter,←guessed_steps h.tables hlink]
  exact congrArg Except.ok (hrows _ _ _)

variable {candidates : List (PathStep×Properties)}

theorem expandLabels_of_candidates (h : candidateSteps st spec.edgeTypes spec.direction u=.ok candidates) :
    ∃ labels,expandLabels st spec u=.ok labels ∧ candidates=labels.flatMap (stepsAlong st spec.direction u) := by
  rw [candidateSteps] at h
  rw [expandLabels]
  by_cases hall : spec.edgeTypes=[]
  · rw [if_pos hall] at h ⊢
    cases hfound : discoverLabels st u spec.direction with
    | error e =>
      rw [hfound] at h
      exact by cases h
    | ok labels =>
      rw [hfound] at h
      exact ⟨labels,rfl,(Except.ok.inj h).symm⟩
  · rw [if_neg hall] at h ⊢
    exact ⟨_,rfl,(Except.ok.inj h).symm⟩

/-- The rows of a hop are those of the allowed steps in the guessed orientation that no
other binding shows. -/
theorem expandRecord_singleHop (h : Joined st) (halias : spec.relAlias=some relAlias)
    (hsrc : boundNode rec spec.srcAlias=some u)
    (hcandidates : candidateSteps st spec.edgeTypes spec.direction u=.ok candidates) :
    expandRecord env st (singleHop spec) none rec=
      .ok (((candidates.filter fun s => reaches (boundNode rec spec.dstAlias) s.1.dst).filter
        fun s => !disguised st spec rec relAlias s.1 && guessed st spec u s.1).map (hopRow st spec rec relAlias)) := by
  have ⟨labels,hlabels,hsteps⟩ := expandLabels_of_candidates hcandidates
  have hneighbor : ∀ l,gather (expandNeighbor st (singleHop spec) rec u l)
      ((getNeighbors st u l spec.direction).filter fun id => reaches (boundNode rec spec.dstAlias) id)=
        .ok (((getNeighbors st u l spec.direction).filter fun id => reaches (boundNode rec spec.dstAlias) id).flatMap
          fun v => (((directedEdges st u v l spec.direction).map (stepTo l v)).filter fun s =>
            !disguised st spec rec relAlias s.1 && guessed st spec u s.1).map (hopRow st spec rec relAlias)) := by
    intro l
    refine gather_ok fun v hv => ?_
    have hlink := (h.tables.mem_neighbors spec.direction).mp (List.mem_of_mem_filter hv)
    exact @expandNeighbor_eq S st (singleHop spec) rec relAlias u h halias v l hlink
  have hlists : ∀ l,(stepsAlong st spec.direction u l).filter (fun s => reaches (boundNode rec spec.dstAlias) s.1.dst)=
      ((getNeighbors st u l spec.direction).filter fun id => reaches (boundNode rec spec.dstAlias) id).flatMap
        fun v => (directedEdges st u v l spec.direction).map (stepTo l v) := by
    intro l
    refine filter_flatMap_of (fun v s hs => ?_) _
    have ⟨e,_,he⟩ := List.mem_map.mp hs
    rw [←he]
  have hrun : expandRecord env st (singleHop spec) none rec=(expandLabels st spec u >>= fun labels =>
      gather (fun label => gather (expandNeighbor st (singleHop spec) rec u label)
        ((getNeighbors st u label spec.direction).filter fun id => reaches (boundNode rec spec.dstAlias) id))
        labels) := by
    have hbound : boundNode rec (singleHop spec).srcAlias=some u := hsrc
    rw [expandRecord,hbound]
    rfl
  rw [hrun,hlabels]
  refine (gather_ok fun l _ => hneighbor l).trans (congrArg Except.ok ?_)
  rw [hsteps,List.filter_flatMap,List.filter_flatMap,List.map_flatMap]
  refine congrArg (fun f => labels.flatMap f) (funext fun l => ?_)
  rw [hlists,List.filter_flatMap,List.map_flatMap]

/-- A search of one step reports every candidate when all pass and the budget covers them. -/
theorem visitSteps_one (search : PathSearch) (hmin : search.minHops=1) (hmax : search.maxHops=1)
    (hresults : search.maxResults=none) (candidates : List (PathStep×Properties))
    (hfilters : ∀ c∈candidates,search.passes c.2=true) {s : SearchState} (hgoing : s.stopped=false)
    (hwork : search.maxWork=0 ∨ candidates.length≤ s.fuel.toNat) :
    ∃ fuel,candidates.foldlM (visitStep search []) (s,[])=
      .ok (⟨s.results++candidates.map fun c => (c.1.dst,[c.1]),fuel,false⟩,[]) := by
  induction candidates generalizing s with
  | nil => exact ⟨s.fuel,by rw [List.foldlM_nil,List.map_nil,List.append_nil,←hgoing]; rfl⟩
  | cons c rest ih =>
    have hfull : ∀ n,search.full n=false := fun n => by rw [PathSearch.full,hresults]
    have hpasses := hfilters c List.mem_cons_self
    have hbudget : ¬(search.maxWork≠0 ∧ s.fuel=0) := by
      intro h
      have hlength := hwork.resolve_left h.1
      rw [h.2] at hlength
      exact Nat.not_succ_le_zero _ hlength
    have hstep : visitStep search [] (s,[]) c=
        .ok (⟨s.results++[(c.1.dst,[c.1])],if search.maxWork=0 then s.fuel else s.fuel-1,false⟩,[]) := by
      have hnew : ¬c.1.key∈([] : List PathStep).map PathStep.key := List.not_mem_nil
      have hreport : search.minHops≤([]++[c.1]).length := by rw [hmin]; rfl
      have hlast : ¬(false=false ∧ ([]++[c.1]).length< search.maxHops) := by
        rw [hmax]
        exact fun h => Nat.lt_irrefl 1 h.2
      unfold visitStep
      dsimp only
      rw [if_neg (by rw [hgoing]; exact Bool.false_ne_true),if_neg hbudget,if_neg hnew,
        if_neg (by rw [hpasses]; exact Bool.true_eq_false_eq_False),hfull,if_pos hreport,if_neg hlast]
      rfl
    have hleft : search.maxWork=0 ∨
        rest.length≤(if search.maxWork=0 then s.fuel else s.fuel-1).toNat := by
      by_cases hnone : search.maxWork=0
      · exact Or.inl hnone
      · have hlength : rest.length+1≤ s.fuel.toNat := hwork.resolve_left hnone
        have hone : (1 : UInt64)≤ s.fuel := by
          rw [UInt64.le_iff_toNat_le,UInt64.toNat_one]
          omega
        rw [if_neg hnone,UInt64.toNat_sub_of_le _ _ hone,UInt64.toNat_one]
        exact Or.inr (by omega)
    have ⟨fuel,hrest⟩ := ih (fun other hother => hfilters other (List.mem_cons_of_mem c hother))
      (s:=⟨s.results++[(c.1.dst,[c.1])],if search.maxWork=0 then s.fuel else s.fuel-1,false⟩) rfl hleft
    refine ⟨fuel,?_⟩
    have hsplit : s.results++(c::rest).map (fun c => (c.1.dst,[c.1]))=
        (s.results++[(c.1.dst,[c.1])])++rest.map fun c => (c.1.dst,[c.1]) := by
      rw [List.map_cons,List.append_cons]
    rw [List.foldlM_cons,hstep,hsplit]
    exact hrest

theorem traversePaths_one (search : PathSearch) (hmin : search.minHops=1) (hmax : search.maxHops=1)
    (hresults : search.maxResults=none) {labels : List String} {direction : Direction}
    (hcandidates : candidateSteps st labels direction u=.ok candidates)
    (hfilters : ∀ c∈candidates,search.passes c.2=true)
    (hwork : search.maxWork=0 ∨ candidates.length≤ search.maxWork.toNat) :
    traversePaths st u labels direction search=.ok (candidates.map fun c => (c.1.dst,[c.1])) := by
  have hsome : ¬search.minHops=0 := by
    rw [hmin]
    exact Nat.one_ne_zero
  have ⟨fuel,hvisit⟩ := visitSteps_one search hmin hmax hresults candidates hfilters
    (s:=⟨[],search.maxWork,false⟩) rfl hwork
  have hexplore : explore st labels direction search 1 (u,[]) ⟨[],search.maxWork,false⟩=
      .ok ⟨candidates.map fun c => (c.1.dst,[c.1]),fuel,false⟩ := by
    rw [explore,if_neg Bool.false_ne_true,hcandidates]
    exact congrArg (fun outcome : Result (SearchState×List (NodeId×List PathStep)) => outcome >>= fun visited =>
      visited.2.reverse.foldlM (fun s opened => explore st labels direction search 0 opened s) visited.1) hvisit
  rw [traversePaths,if_neg hsome,if_neg (fun h => hsome h.1),hmax,hexplore]
  rfl

theorem expandRecord_pathHop (h : Joined st) (halias : spec.relAlias=some relAlias)
    (hsrc : boundNode rec spec.srcAlias=some u)
    (hcandidates : candidateSteps st spec.edgeTypes spec.direction u=.ok candidates)
    (hstored : ∀ s∈candidates,StoredStep st spec.direction u s.1 s.2)
    (hwork : env.maxTraversalWork=0 ∨ candidates.length≤env.maxTraversalWork.toNat) :
    expandRecord env st (pathHop spec) none rec= .ok
    ((candidates.filter fun s => reaches (boundNode rec spec.dstAlias) s.1.dst).map (pathRow st spec rec relAlias)) := by
  have ⟨labels,hlabels,_⟩ := expandLabels_of_candidates hcandidates
  have hpaths := traversePaths_one (expandSearch env (pathHop spec) none) rfl rfl rfl hcandidates
    (fun _ _ => rfl) hwork
  have hrun : expandRecord env st (pathHop spec) none rec=(expandLabels st spec u >>= fun _ =>
      traversePaths st u spec.edgeTypes spec.direction (expandSearch env (pathHop spec) none) >>= fun paths =>
        gather (fun path => (pathRecord st (pathHop spec) rec path).map fun r => [r])
          (paths.filter fun path => reaches (boundNode rec spec.dstAlias) path.1)) := by
    have hbound : boundNode rec (pathHop spec).srcAlias=some u := hsrc
    rw [expandRecord,hbound]
    rfl
  have hrow : ∀ s∈candidates,pathRecord st (pathHop spec) rec (s.1.dst,[s.1])=.ok (pathRow st spec rec relAlias s) := by
    intro s hs
    have hfetch : fetchAndPopulate st rec s.1.dst spec.dstAlias=.ok (reached st spec rec s.1) := by
      rw [fetchAndPopulate,getNode_nodeAt (h.stored (linked_of_storedStep (hstored s hs)))]
      rfl
    have hprops : getEdgePropertiesAt st s.1.edgeSrc s.1.edgeDst s.1.edgeLabel s.1.edgeSeq=s.2 := by
      rw [getEdgePropertiesAt,(hstored s hs).1]
      rfl
    have hrelated : (pathHop spec).relAlias=some relAlias := halias
    have hlist : stepList st [s.1]=.list [.edge ⟨s.1.edgeSrc,s.1.edgeDst,s.1.edgeLabel,s.2⟩] := by
      rw [←hprops]
      rfl
    have hcall : fetchAndPopulate st rec (s.1.dst,[s.1]).1 (pathHop spec).dstAlias=.ok (reached st spec rec s.1) := hfetch
    rw [pathRecord,hcall,hrelated,hlist]
    rfl
  have hfilter : (candidates.map fun c => (c.1.dst,[c.1])).filter
      (fun path => reaches (boundNode rec spec.dstAlias) path.1)=
        (candidates.filter fun s => reaches (boundNode rec spec.dstAlias) s.1.dst).map fun c => (c.1.dst,[c.1]) := by
    rw [List.filter_map]
    rfl
  have hall : gather (fun path => (pathRecord st (pathHop spec) rec path).map fun r => [r])
      ((candidates.filter fun s => reaches (boundNode rec spec.dstAlias) s.1.dst).map fun c => (c.1.dst,[c.1]))=
        .ok ((candidates.filter fun s => reaches (boundNode rec spec.dstAlias) s.1.dst).flatMap
          fun s => [pathRow st spec rec relAlias s]) := by
    rw [gather_map]
    refine gather_ok fun s hs => ?_
    rw [hrow s (List.mem_of_mem_filter hs)]
    rfl
  rw [hrun,hlabels]
  refine Eq.trans (congrArg (fun outcome : Result (List (NodeId×List PathStep)) => outcome >>= fun paths =>
    gather (fun path => (pathRecord st (pathHop spec) rec path).map fun r => [r])
      (paths.filter fun path => reaches (boundNode rec spec.dstAlias) path.1)) hpaths) ?_
  refine (congrArg (gather fun path => (pathRecord st (pathHop spec) rec path).map fun r => [r]) hfilter).trans ?_
  rw [hall,List.map_eq_flatMap]

end Expansions

section Agreement

variable {S : Type} {env : QueryEnv S} {st : Store} {spec : ExpandSpec S} {rec : NamedRecord} {relAlias : String}
  {u : NodeId}

/-- The fields of a row under its variable: properties in front of the identity. -/
theorem hopRow_fields (s : PathStep×Properties) : ∃ base : NamedRecord,
    (∀ entry∈identityFields s.1,base.get (relAlias++("."++entry.1))=some entry.2) ∧
      ∀ p,(hopRow st spec rec relAlias s).get (relAlias++("."++p))=
        (getProp s.2 p).or (base.get (relAlias++("."++p))) := by
  have hseq : ".__edge_seq" = "."++"__edge_seq" := by decide
  have hsrc : ".__src" = "."++"__src" := by decide
  have hdst : ".__dst" = "."++"__dst" := by decide
  have htype : ".__type" = "."++"__type" := by decide
  refine ⟨(bindRelationship (reached st spec rec s.1) relAlias s.1.edgeLabel s.1.edgeSrc s.1.edgeDst).set
    (relAlias++".__edge_seq") (.i64 s.1.edgeSeq.toInt64),?_,fun p => get_bindProperties_dotted _ relAlias p s.2⟩
  simp only [identityFields,List.forall_mem_cons,bindRelationship,hseq,hsrc,hdst,htype,get_set,dotted_inj]
  simp

/-- A row shows its relationship unless a property replaces a field of the identity. -/
theorem shows_hopRow_iff (s : PathStep×Properties) :
    Shows relAlias (hopRow st spec rec relAlias s) s.1 s.2 ↔ Unmasked s.1 s.2 := by
  have ⟨base,hbase,hget⟩ := @hopRow_fields S st spec rec relAlias s
  constructor
  · intro h entry hentry v hv
    have hfield := h.identity entry hentry
    rw [hget,hv,Option.some_or] at hfield
    exact Option.some.inj hfield
  · intro h
    constructor
    · intro entry hentry
      rw [hget]
      cases hv : getProp s.2 entry.1 with
      | none =>
        rw [Option.none_or]
        exact hbase entry hentry
      | some v =>
        rw [Option.some_or,h entry hentry v hv]
    · intro p v hv
      rw [hget,hv,Option.some_or]

/-- Without neighbours related both ways the orientation of every allowed step is guessed. -/
theorem guessed_of_oneWay (h : TablesAgree st) (hclear : Transparent st spec rec relAlias u) {step : PathStep}
    {props : Properties} (hstep : Incident st spec rec u step props) : guessed st spec u step=true := by
  have hedge : HasEdge st step.edgeSrc step.edgeDst step.edgeLabel :=
    ⟨step.edgeSeq,mem_keys.mpr ⟨props,hstep.stored.1⟩⟩
  have hends := hstep.stored.2
  have hone := hclear.oneWay
  refine decide_eq_true ?_
  cases hdirection : spec.direction with
  | outgoing =>
    rw [hdirection] at hends
    exact Prod.ext hends.1.symm hends.2.symm
  | incoming =>
    rw [hdirection] at hends
    exact Prod.ext hends.2.symm hends.1.symm
  | both =>
    rw [hdirection] at hends
    have hguess := orientation_both (u:=u) (v:=step.dst) (l:=step.edgeLabel) h
    cases hends with
    | inl hout =>
      rw [hout.1,hout.2] at hedge ⊢
      exact hguess.1 hedge
    | inr hin =>
      rw [hin.1,hin.2] at hedge ⊢
      by_cases hloop : step.dst=u
      · rw [hloop] at hedge hguess ⊢
        exact hguess.1 hedge
      · exact hguess.2 fun hout => hone hdirection step.dst step.edgeLabel hloop hstep.accepted hstep.allowed
          ⟨hout,hedge⟩

/-- Both expansions run over the incident steps: the path search returns all of them, the hop
those in the guessed orientation that no other binding shows. -/
theorem expansions_eq (h : Joined st) (halias : spec.relAlias=some relAlias)
    (hsrc : boundNode rec spec.srcAlias=some u) (htypes : spec.edgeTypes.Nodup)
    (hwork : env.maxTraversalWork=0 ∨ ∀ candidates,candidateSteps st spec.edgeTypes spec.direction u=.ok candidates →
      candidates.length≤env.maxTraversalWork.toNat) :
    ∃ steps : List (PathStep×Properties),(steps.map Prod.fst).Nodup ∧
      (∀ step props,(step,props)∈steps ↔ Incident st spec rec u step props) ∧
      expandRecord env st (singleHop spec) none rec=.ok ((steps.filter fun s =>
        !disguised st spec rec relAlias s.1 && guessed st spec u s.1).map (hopRow st spec rec relAlias)) ∧
      expandRecord env st (pathHop spec) none rec=.ok (steps.map (pathRow st spec rec relAlias)) := by
  have ⟨candidates,hcandidates,hnodup,hmem⟩ := h.tables.candidateSteps_spec spec.direction u htypes
  have hbudget : env.maxTraversalWork=0 ∨ candidates.length≤env.maxTraversalWork.toNat :=
    hwork.imp_right fun hall => hall candidates hcandidates
  refine ⟨candidates.filter fun s => reaches (boundNode rec spec.dstAlias) s.1.dst,
    hnodup.sublist (List.filter_sublist.map _),fun step props => ?_,expandRecord_singleHop h halias hsrc hcandidates,
    expandRecord_pathHop h halias hsrc hcandidates (fun s hs => ((hmem s.1 s.2).mp hs).2) hbudget⟩
  rw [List.mem_filter,hmem]
  constructor
  · intro hparts
    exact ⟨hparts.1.1,hparts.1.2,hparts.2⟩
  · intro hstep
    exact ⟨⟨hstep.accepted,hstep.stored⟩,hstep.allowed⟩

theorem transparent_of_agrees (h : Joined st) (halias : spec.relAlias=some relAlias)
    (hsrc : boundNode rec spec.srcAlias=some u) (htypes : spec.edgeTypes.Nodup)
    (hwork : env.maxTraversalWork=0 ∨ ∀ candidates,candidateSteps st spec.edgeTypes spec.direction u=.ok candidates →
      candidates.length≤env.maxTraversalWork.toNat)
    (hagrees : HopAgrees env st spec rec relAlias u) : Transparent st spec rec relAlias u := by
  have ⟨all,hdistinct,hall,hhop,_⟩ := expansions_eq h halias hsrc htypes hwork
  have ⟨steps,hsteps,hincident,hrows⟩ := hagrees
  have ⟨rows,hrun,hperm⟩ := hrows.hop
  have hsame : steps.Perm all := by
    rw [List.perm_ext_iff_of_nodup (List.Nodup.of_map _ hsteps) (List.Nodup.of_map _ hdistinct)]
    intro s
    exact (hincident s.1 s.2).trans (hall s.1 s.2).symm
  have hlength := hperm.length_eq
  rw [←Except.ok.inj (hhop.symm.trans hrun),List.length_map,List.length_map,hsame.length_eq] at hlength
  have hkept := List.filter_eq_self.mp (List.filter_sublist.eq_of_length hlength)
  have htest : ∀ step props,Incident st spec rec u step props →
      disguised st spec rec relAlias step=false ∧ guessed st spec u step=true := by
    intro step props hstep
    have hboth := Bool.and_eq_true_iff.mp (hkept (step,props) ((hall step props).mpr hstep))
    exact ⟨by simpa using hboth.1,hboth.2⟩
  refine ⟨fun hdirection v l hne htype hreach hboth => ?_,fun step props hstep => (htest step props hstep).1,
    fun step props hstep => ?_⟩
  · have ⟨q,hq⟩ := hboth.2
    have ⟨props,hget⟩ := mem_keys.mp hq
    have hleads : Leads spec.direction u ⟨v,u,l,q,v⟩ := by
      rw [hdirection]
      exact Or.inr ⟨rfl,rfl⟩
    have hguess := of_decide_eq_true (htest ⟨v,u,l,q,v⟩ props ⟨htype,⟨hget,hleads⟩,hreach⟩).2
    rw [hdirection,(orientation_both h.tables).1 hboth.1] at hguess
    exact hne (Prod.mk.inj hguess).2
  · exact (shows_hopRow_iff (step,props)).mp (hrows.shown (step,props) ((hincident step props).mpr hstep))

/-- A single hop agrees with a path of one step exactly when no incident relationship is lost
or hidden: undirected patterns see no neighbour related both ways along one type, no other
fields read as the relationship, and no property replaces a field of its identity. -/
theorem hopAgrees_iff (h : Joined st) (halias : spec.relAlias=some relAlias)
    (hsrc : boundNode rec spec.srcAlias=some u) (htypes : spec.edgeTypes.Nodup)
    (hwork : env.maxTraversalWork=0 ∨ ∀ candidates,candidateSteps st spec.edgeTypes spec.direction u=.ok candidates →
      candidates.length≤env.maxTraversalWork.toNat) :
    HopAgrees env st spec rec relAlias u ↔ Transparent st spec rec relAlias u := by
  constructor
  · exact transparent_of_agrees h halias hsrc htypes hwork
  · intro hclear
    have ⟨steps,hdistinct,hincident,hhop,hpath⟩ := expansions_eq h halias hsrc htypes hwork
    have hkept : (steps.filter fun s => !disguised st spec rec relAlias s.1 && guessed st spec u s.1)=steps := by
      rw [List.filter_eq_self]
      intro s hs
      have hstep := (hincident s.1 s.2).mp hs
      rw [hclear.undisguised s.1 s.2 hstep,guessed_of_oneWay h.tables hclear hstep]
      rfl
    rw [hkept] at hhop
    refine ⟨steps,hdistinct,hincident,⟨_,hhop,List.Perm.refl _⟩,fun s hs => ?_,⟨_,hpath,List.Perm.refl _⟩⟩
    exact (shows_hopRow_iff s).mpr (hclear.unmasked s.1 s.2 ((hincident s.1 s.2).mp hs))

end Agreement

section Pair

/-- Two stored nodes with a relationship in either direction. -/
def pairStore : Store :=
  {mutualStore with nodes := put (put empty 1 ⟨"",⟨[],[]⟩⟩) 2 ⟨"",⟨[],[]⟩⟩}

theorem joined_pairStore : Joined pairStore := by
  have htables := tablesAgree_of_edgeInv edgeInv_mutualStore
  have hfirst : (recordAt pairStore 1).isSome=true := rfl
  have hsecond : (recordAt pairStore 2).isSome=true := rfl
  refine ⟨⟨htables.adjOut,htables.adjIn,htables.rows,htables.out,htables.inc⟩,fun s d l hedge => ?_,
    fun s d l hedge => ?_⟩
  · cases (hasEdge_mutualStore s d l).mp hedge with
    | inl hback =>
      rw [hback.1]
      exact hsecond
    | inr hforth =>
      rw [hforth.1]
      exact hfirst
  · cases (hasEdge_mutualStore s d l).mp hedge with
    | inl hback =>
      rw [hback.2.1]
      exact hfirst
    | inr hforth =>
      rw [hforth.2.1]
      exact hsecond

/-- A hop of any type between two variables. -/
def anyHop (direction : Direction) : ExpandSpec Empty := ⟨"a","b",some "r",[],direction,1,1,false,[],none⟩

/-- A record of the first node. -/
def startRecord : NamedRecord := ⟨[("a",.i64 1)]⟩

/-- Execution without a budget of relationship visits. -/
def unboundedEnv : QueryEnv Empty := {plainEnv with maxTraversalWork := 0}

/-- Following outgoing relationships loses nothing. -/
theorem hopAgrees_outgoing : HopAgrees unboundedEnv pairStore (anyHop .outgoing) startRecord "r" 1 := by
  have hempty : ∀ row∈pairStore.edgeProps.rows,row.2=[] := by
    have hall : pairStore.edgeProps.rows.all (fun row => row.2.isEmpty)=true := rfl
    intro row hrow
    exact List.isEmpty_iff.mp (List.all_eq_true.mp hall row hrow)
  refine (hopAgrees_iff joined_pairStore rfl rfl List.nodup_nil (Or.inl rfl)).mpr ⟨fun h => absurd h (by decide),?_,?_⟩
  · intro step props hstep
    have hedge : HasEdge mutualStore step.edgeSrc step.edgeDst step.edgeLabel :=
      ⟨step.edgeSeq,mem_keys.mpr ⟨props,hstep.stored.1⟩⟩
    have hends : step.edgeSrc=1 ∧ step.edgeDst=step.dst := hstep.stored.2
    have hdst : step.dst=2 := by
      cases (hasEdge_mutualStore _ _ _).mp hedge with
      | inl hback => exact absurd (hends.1.symm.trans hback.1) (by decide)
      | inr hforth => exact hends.2.symm.trans hforth.2.1
    have hnone : flatEdges (reached pairStore (anyHop .outgoing) startRecord step)=[] := by
      rw [reached,hdst]
      rfl
    rw [disguised,clashes,hnone]
    rfl
  · intro step props hstep entry _ v hv
    have hnone : props=[] := hempty _ (get_eq_some.mp hstep.stored.1)
    rw [hnone] at hv
    exact nomatch hv

/-- Without a direction the relationship back is lost. -/
theorem hop_loses_relationship : ¬∀ (st : Store) (spec : ExpandSpec Empty) (rec : NamedRecord) (relAlias : String)
    (u : NodeId),Joined st → spec.relAlias=some relAlias → boundNode rec spec.srcAlias=some u →
      spec.edgeTypes.Nodup → (∀ edge∈flatEdges rec,edge.1=relAlias) →
        HopAgrees unboundedEnv st spec rec relAlias u := by
  intro h
  have hagrees := h pairStore (anyHop .both) startRecord "r" 1 joined_pairStore rfl rfl List.nodup_nil
    fun edge hedge => absurd hedge List.not_mem_nil
  have hclear := transparent_of_agrees joined_pairStore rfl rfl List.nodup_nil (Or.inl rfl) hagrees
  exact hclear.oneWay rfl 2 "R" (by decide) (Or.inl rfl) rfl
    ⟨(hasEdge_mutualStore 1 2 "R").mpr (Or.inr ⟨rfl,rfl,rfl⟩),(hasEdge_mutualStore 2 1 "R").mpr (Or.inl ⟨rfl,rfl,rfl⟩)⟩

end Pair

end GraphDbLite.SingleHop
