import GraphDbLite.CappedTraversal
import GraphDbLite.StepCandidates

/-!
# Trails found by the path search

The path search takes frames from a stack. A frame that is taken is followed by everything
below it before the frames under it, so the loop returns what the recursive search returns.
Without a cap and a budget the paths below a frame are its extensions by stored steps that
pass the filters and repeat no relationship: each node of the search tree is one trail, and
the search reports those whose length is in the range, each once.
-/

namespace GraphDbLite.TrailSearch

open GraphTypes GraphStore EdgeStorage
open CypherValues Traversal CappedTraversal NeighbourSearch LoopRuns StepCandidates

/-- State of the loop. -/
structure LoopState where
  /-- Frames to follow, the one pushed last in front. -/
  stack : List (NodeId×List PathStep)
  /-- Results and remaining visits. -/
  progress : SearchState

section Loop

variable (st : Store) (labels : List String) (direction : Direction) (search : PathSearch)

/-- A round takes a frame from the stack. -/
def pathRound (s : LoopState) : LoopState⊕Result (List (NodeId×List PathStep)) :=
  match s.stack with
  | [] => .inr (.ok s.progress.results)
  | (current,path)::rest =>
    if search.maxHops≤path.length then .inl ⟨rest,s.progress⟩
    else
      match candidateSteps st labels direction current with
      | .error e => .inr (.error e)
      | .ok candidates =>
        match candidates.foldlM (visitStep search path) (s.progress,[]) with
        | .error e => .inr (.error e)
        | .ok visited =>
          if visited.1.stopped=true then .inr (.ok visited.1.results)
          else .inl ⟨visited.2.reverse++rest,visited.1⟩

/-- All paths from a node within the bounds, without a repeated relationship. -/
def traversePathsLoop (start : NodeId) (n : Nat) : Option (Result (List (NodeId×List PathStep))) :=
  let initial : List (NodeId×List PathStep) := if search.minHops=0 then [(start,[])] else []
  if search.minHops=0 ∧ search.full 1=true then some (.ok initial)
  else if search.maxHops=0 then some (.ok initial)
  else rounds (pathRound st labels direction search) n ⟨[(start,[])],⟨initial,search.maxWork,false⟩⟩

/-- What the loop returns after a search from a frame, with frames left on the stack. -/
def Continues (rest : List (NodeId×List PathStep)) (outcome : Result SearchState)
    (result : Result (List (NodeId×List PathStep))) : Prop :=
  match outcome with
  | .error e => result=.error e
  | .ok s =>
    if s.stopped=true then result=.ok s.results
    else Returns (pathRound st labels direction search) ⟨rest,s⟩ result

variable {st labels direction search}
variable {path : List PathStep} {s s' : SearchState×List (NodeId×List PathStep)}
  {rest : List (NodeId×List PathStep)} {result : Result (List (NodeId×List PathStep))}

theorem visitStep_opened {candidate : PathStep×Properties} (h : visitStep search path s candidate=.ok s')
    (hs : ∀ f∈s.2,f.2.length=path.length+1) : ∀ f∈s'.2,f.2.length=path.length+1 := by
  intro f hf
  rcases (visitStep_frames h).2 f hf with hold|hnew
  · exact hs f hold
  · rw [(of_mem_extended hnew).2,List.length_append]
    rfl

theorem visitSteps_opened {candidates : List (PathStep×Properties)}
    (h : candidates.foldlM (visitStep search path) s=.ok s') (hs : ∀ f∈s.2,f.2.length=path.length+1) :
    ∀ f∈s'.2,f.2.length=path.length+1 := by
  induction candidates generalizing s with
  | nil => exact Except.ok.inj h▸hs
  | cons candidate rest ih =>
    rw [List.foldlM_cons] at h
    cases hfirst : visitStep search path s candidate with
    | error e =>
      rw [hfirst] at h
      exact nomatch h
    | ok s₁ =>
      rw [hfirst] at h
      exact ih h (visitStep_opened hfirst hs)

variable {hops : Nat} {s : SearchState}

theorem exploreAll_stopped (h : s.stopped=true) (frames : List (NodeId×List PathStep)) :
    frames.foldlM (fun s opened => explore st labels direction search hops opened s) s=.ok s := by
  induction frames with
  | nil => rfl
  | cons frame rest ih =>
    rw [List.foldlM_cons,explore_stopped h]
    exact ih

theorem frames_loop
    (hone : ∀ (frame : NodeId×List PathStep) (below : List (NodeId×List PathStep)) (s : SearchState),
      frame.2.length+hops=search.maxHops → s.stopped=false →
      Continues st labels direction search below (explore st labels direction search hops frame s) result →
      Returns (pathRound st labels direction search) ⟨frame::below,s⟩ result)
    {frames : List (NodeId×List PathStep)} (hlengths : ∀ f∈frames,f.2.length+hops=search.maxHops)
    (hs : s.stopped=false) (h : Continues st labels direction search rest
      (frames.foldlM (fun s opened => explore st labels direction search hops opened s) s) result) :
    Returns (pathRound st labels direction search) ⟨frames++rest,s⟩ result := by
  induction frames generalizing s with
  | nil =>
    have hreturns : if s.stopped=true then result=.ok s.results
        else Returns (pathRound st labels direction search) ⟨rest,s⟩ result := h
    rw [if_neg (by rw [hs]; exact Bool.false_ne_true)] at hreturns
    exact hreturns
  | cons frame more ih =>
    refine hone frame (more++rest) s (hlengths frame List.mem_cons_self) hs ?_
    rw [List.foldlM_cons] at h
    cases hfirst : explore st labels direction search hops frame s with
    | error e =>
      rw [hfirst] at h
      exact h
    | ok s₁ =>
      rw [hfirst] at h
      by_cases hstop : s₁.stopped=true
      · have hrest : more.foldlM (fun s opened => explore st labels direction search hops opened s) s₁=.ok s₁ :=
          exploreAll_stopped hstop more
        have hafter : Continues st labels direction search rest
            (more.foldlM (fun s opened => explore st labels direction search hops opened s) s₁) result := h
        rw [hrest,Continues,if_pos hstop] at hafter
        rw [Continues,if_pos hstop]
        exact hafter
      · rw [Continues,if_neg hstop]
        exact ih (fun f hf => hlengths f (List.mem_cons_of_mem _ hf)) (Bool.not_eq_true _ ▸ hstop) h

theorem explore_loop {frame : NodeId×List PathStep} (hlength : frame.2.length+hops=search.maxHops)
    (hs : s.stopped=false)
    (h : Continues st labels direction search rest (explore st labels direction search hops frame s) result) :
    Returns (pathRound st labels direction search) ⟨frame::rest,s⟩ result := by
  have hgoing : ¬s.stopped=true := by
    rw [hs]
    exact Bool.false_ne_true
  induction hops generalizing frame rest s with
  | zero =>
    have hdeep : search.maxHops≤frame.2.length := by omega
    have hround : pathRound st labels direction search ⟨frame::rest,s⟩=.inl ⟨rest,s⟩ := by
      rw [pathRound]
      exact if_pos hdeep
    rw [explore,Continues,if_neg hgoing] at h
    exact returns_step hround h
  | succ hops ih =>
    have hshallow : ¬search.maxHops≤frame.2.length := by omega
    rw [explore,if_neg hgoing] at h
    cases hcandidates : candidateSteps st labels direction frame.1 with
    | error e =>
      rw [hcandidates] at h
      have hround : pathRound st labels direction search ⟨frame::rest,s⟩=.inr (.error e) := by
        rw [pathRound]
        dsimp only
        rw [if_neg hshallow,hcandidates]
      have hresult : result=.error e := h
      rw [hresult]
      exact returns_done hround
    | ok candidates =>
      rw [hcandidates] at h
      cases hvisit : candidates.foldlM (visitStep search frame.2) (s,[]) with
      | error e =>
        have hround : pathRound st labels direction search ⟨frame::rest,s⟩=.inr (.error e) := by
          rw [pathRound]
          dsimp only
          rw [if_neg hshallow,hcandidates]
          dsimp only
          rw [hvisit]
        have hresult : result=.error e := by
          have hfails : Continues st labels direction search rest
              (candidates.foldlM (visitStep search frame.2) (s,[]) >>= fun visited =>
                visited.2.reverse.foldlM (fun s opened => explore st labels direction search hops opened s) visited.1)
              result := h
          rw [hvisit] at hfails
          exact hfails
        rw [hresult]
        exact returns_done hround
      | ok visited =>
        have hafter : Continues st labels direction search rest
            (visited.2.reverse.foldlM (fun s opened => explore st labels direction search hops opened s) visited.1)
            result := by
          have hbind : Continues st labels direction search rest
              (candidates.foldlM (visitStep search frame.2) (s,[]) >>= fun visited =>
                visited.2.reverse.foldlM (fun s opened => explore st labels direction search hops opened s) visited.1)
              result := h
          rw [hvisit] at hbind
          exact hbind
        by_cases hstop : visited.1.stopped=true
        · have hround : pathRound st labels direction search ⟨frame::rest,s⟩=.inr (.ok visited.1.results) := by
            rw [pathRound]
            dsimp only
            rw [if_neg hshallow,hcandidates]
            dsimp only
            rw [hvisit]
            exact if_pos hstop
          rw [exploreAll_stopped hstop,Continues,if_pos hstop] at hafter
          rw [hafter]
          exact returns_done hround
        · have hround : pathRound st labels direction search ⟨frame::rest,s⟩=
              .inl ⟨visited.2.reverse++rest,visited.1⟩ := by
            rw [pathRound]
            dsimp only
            rw [if_neg hshallow,hcandidates]
            dsimp only
            rw [hvisit]
            exact if_neg hstop
          have hopened := visitSteps_opened hvisit (fun f hf => absurd hf List.not_mem_nil)
          refine returns_step hround (frames_loop (fun frame below s hlen hgo hcont => ?_) (fun f hf => ?_)
            (Bool.not_eq_true _ ▸ hstop) hafter)
          · exact ih hlen hgo hcont (by rw [hgo]; exact Bool.false_ne_true)
          · have hlen := hopened f (List.mem_reverse.mp hf)
            omega

theorem traversePathsLoop_returns (st : Store) (labels : List String) (direction : Direction) (search : PathSearch)
    (start : NodeId) : ∃ n,traversePathsLoop st labels direction search start n=
      some (traversePaths st start labels direction search) := by
  rw [traversePaths]
  by_cases hfull : search.minHops=0 ∧ search.full 1=true
  · refine ⟨0,?_⟩
    rw [traversePathsLoop,if_pos hfull,if_pos hfull]
  · by_cases hzero : search.maxHops=0
    · refine ⟨0,?_⟩
      rw [traversePathsLoop,if_neg hfull,if_pos hzero,if_neg hfull,hzero]
      rfl
    · have hcontinues : ∀ s : SearchState,Continues st labels direction search []
          (explore st labels direction search search.maxHops (start,[]) s)
          ((explore st labels direction search search.maxHops (start,[]) s).map SearchState.results) := by
        intro s
        cases hexplore : explore st labels direction search search.maxHops (start,[]) s with
        | error e => rfl
        | ok s' =>
          rw [Continues]
          by_cases hstop : s'.stopped=true
          · rw [if_pos hstop]
            rfl
          · rw [if_neg hstop]
            exact returns_done rfl
      have ⟨n,hn⟩ := explore_loop (by exact Nat.zero_add _) rfl (hcontinues
        ⟨if search.minHops=0 then [(start,[])] else [],search.maxWork,false⟩)
      refine ⟨n,?_⟩
      rw [traversePathsLoop,if_neg hfull,if_neg hzero,if_neg hfull]
      exact hn

end Loop

section Tree

variable (search : PathSearch)

/-- Relationships of steps are compared lawfully. -/
local instance lawfulKeys : LawfulBEq (NodeId×NodeId×String×UInt64) := inferInstance

/-- The steps that extend a path: their relationships are new and pass the filters. -/
def accepted (path : List PathStep) (candidates : List (PathStep×Properties)) : List PathStep :=
  (candidates.filter fun c => decide (c.1.key∉path.map PathStep.key) && search.passes c.2).map Prod.fst

/-- The frames of a path and the steps that extend it. -/
def extensions (path : List PathStep) (steps : List PathStep) : List (NodeId×List PathStep) :=
  steps.map fun step => (step.dst,path++[step])

/-- Report paths. -/
def addResults (s : SearchState) (frames : List (NodeId×List PathStep)) : SearchState :=
  ⟨s.results++frames,s.fuel,s.stopped⟩

/-- Open frames. -/
def openedFrames (path : List PathStep) (steps : List PathStep) : List (NodeId×List PathStep) :=
  if path.length+1< search.maxHops then extensions path steps else []

/-- Reported frames. -/
def reportedFrames (path : List PathStep) (steps : List PathStep) : List (NodeId×List PathStep) :=
  if search.minHops≤path.length+1 then extensions path steps else []

/-- The paths that are reported below a frame, in order. -/
def below (candidates : NodeId → List (PathStep×Properties)) : Nat → NodeId×List PathStep → List (NodeId×List PathStep)
  | 0,_ => []
  | hops+1,frame =>
    reportedFrames search frame.2 (accepted search frame.2 (candidates frame.1))++
      (extensions frame.2 (accepted search frame.2 (candidates frame.1))).reverse.flatMap (below candidates hops)

variable {search}

theorem extensions_cons (path : List PathStep) (candidate : PathStep×Properties) (rest : List (PathStep×Properties)) :
    extensions path (accepted search path (candidate::rest))=
      extended search path candidate++extensions path (accepted search path rest) := by
  unfold accepted
  rw [extended_eq,List.filter_cons]
  by_cases hseen : candidate.1.key∈path.map PathStep.key
  · rw [if_pos hseen,decide_eq_false (not_not.mpr hseen),Bool.false_and,if_neg Bool.false_ne_true]
    rfl
  · rw [if_neg hseen,decide_eq_true hseen,Bool.true_and]
    cases search.passes candidate.2 with
    | true | false => rfl

theorem visitSteps_eq (hresults : search.maxResults=none) (hwork : search.maxWork=0) (path : List PathStep)
    (candidates : List (PathStep×Properties)) {s : SearchState×List (NodeId×List PathStep)}
    (hs : s.1.stopped=false) : candidates.foldlM (visitStep search path) s=
      .ok (addResults s.1 (reportedFrames search path (accepted search path candidates)),
        s.2++openedFrames search path (accepted search path candidates)) := by
  have hfull : ∀ count,search.full count=false := fun count => by rw [PathSearch.full,hresults]
  induction candidates generalizing s with
  | nil =>
    have hnone : accepted search path []=[] := rfl
    rw [List.foldlM_nil,hnone,reportedFrames,openedFrames,extensions,List.map_nil,ite_self,ite_self,addResults,
      List.append_nil,List.append_nil]
    rfl
  | cons candidate rest ih =>
    have hstep : visitStep search path s candidate=.ok (afterVisit search path s candidate) :=
      visitStep_eq hs fun hspent => hspent.1 hwork
    have hstopped : (afterVisit search path s candidate).1.stopped=false := by
      unfold afterVisit
      rw [hfull,Bool.and_false]
    rw [List.foldlM_cons,hstep]
    refine (ih hstopped).trans ?_
    unfold afterVisit addResults reported reportedFrames openedFrames
    rw [extensions_cons,hfull,Bool.and_false,hs,if_pos hwork]
    simp only [true_and]
    split_ifs <;> simp

variable {st : Store} {labels : List String} {direction : Direction} {candidates : NodeId → List (PathStep×Properties)}

theorem explore_eq (hresults : search.maxResults=none) (hwork : search.maxWork=0)
    (hcandidates : ∀ u,candidateSteps st labels direction u=.ok (candidates u)) {hops : Nat}
    {frame : NodeId×List PathStep} {s : SearchState} (hlength : frame.2.length+hops=search.maxHops)
    (hs : s.stopped=false) : explore st labels direction search hops frame s=
      .ok (addResults s (below search candidates hops frame)) := by
  induction hops generalizing frame s with
  | zero =>
    rw [explore,below,addResults,List.append_nil]
  | succ hops ih =>
    have hall : ∀ (frames : List (NodeId×List PathStep)) (s : SearchState),s.stopped=false →
        (∀ f∈frames,f.2.length+hops=search.maxHops) →
        frames.foldlM (fun s opened => explore st labels direction search hops opened s) s=
          .ok (addResults s (frames.flatMap (below search candidates hops))) := by
      intro frames
      induction frames with
      | nil =>
        intro s _ _
        rw [List.foldlM_nil,List.flatMap_nil,addResults,List.append_nil]
        rfl
      | cons first more ihframes =>
        intro s hgo hlens
        rw [List.foldlM_cons,ih (hlens first List.mem_cons_self) hgo]
        refine (ihframes (addResults s (below search candidates hops first)) hgo
          fun f hf => hlens f (List.mem_cons_of_mem _ hf)).trans ?_
        rw [List.flatMap_cons,addResults,addResults,addResults,List.append_assoc]
    have hgoing : ¬s.stopped=true := by
      rw [hs]
      exact Bool.false_ne_true
    have hvisit := visitSteps_eq hresults hwork frame.2 (candidates frame.1) (s:=(s,[])) hs
    rw [List.nil_append] at hvisit
    have hopened : ∀ f∈(openedFrames search frame.2 (accepted search frame.2 (candidates frame.1))).reverse,
        f.2.length+hops=search.maxHops := by
      intro f hf
      have hmem := List.mem_reverse.mp hf
      rw [openedFrames] at hmem
      by_cases hopen : frame.2.length+1< search.maxHops
      · rw [if_pos hopen] at hmem
        obtain ⟨step,_,hstep⟩ := List.mem_map.mp hmem
        rw [←hstep,List.length_append,List.length_singleton]
        omega
      · rw [if_neg hopen] at hmem
        exact absurd hmem List.not_mem_nil
    have hdeeper : (openedFrames search frame.2 (accepted search frame.2 (candidates frame.1))).reverse.flatMap
        (below search candidates hops)=(extensions frame.2 (accepted search frame.2 (candidates frame.1))).reverse.flatMap
          (below search candidates hops) := by
      rw [openedFrames]
      by_cases hopen : frame.2.length+1< search.maxHops
      · rw [if_pos hopen]
      · have hlast : hops=0 := by omega
        have hnone : ∀ frames : List (NodeId×List PathStep),frames.flatMap (below search candidates hops)=[] := by
          intro frames
          rw [hlast]
          exact List.flatMap_eq_nil_iff.mpr fun _ _ => rfl
        rw [hnone,hnone]
    have hafter := hall _ (addResults s (reportedFrames search frame.2 (accepted search frame.2 (candidates frame.1))))
      hs hopened
    rw [hdeeper] at hafter
    have hround : explore st labels direction search (hops+1) frame s=
        (openedFrames search frame.2 (accepted search frame.2 (candidates frame.1))).reverse.foldlM
          (fun s opened => explore st labels direction search hops opened s)
          (addResults s (reportedFrames search frame.2 (accepted search frame.2 (candidates frame.1)))) := by
      rw [explore,if_neg hgoing,hcandidates]
      exact congrArg (fun outcome : Result (SearchState×List (NodeId×List PathStep)) => outcome >>= fun visited =>
        visited.2.reverse.foldlM (fun s opened => explore st labels direction search hops opened s) visited.1) hvisit
    rw [hround,hafter,below,addResults,addResults,addResults,List.append_assoc]

theorem traversePaths_eq (hresults : search.maxResults=none) (hwork : search.maxWork=0)
    (hcandidates : ∀ u,candidateSteps st labels direction u=.ok (candidates u)) (start : NodeId) :
    traversePaths st start labels direction search=
      .ok ((if search.minHops=0 then [(start,[])] else [])++below search candidates search.maxHops (start,[])) := by
  have hfull : ¬(search.minHops=0 ∧ search.full 1=true) := by
    rw [PathSearch.full,hresults]
    exact fun h => Bool.false_ne_true h.2
  have hexplore : explore st labels direction search search.maxHops (start,[])
      ⟨if search.minHops=0 then [(start,[])] else [],search.maxWork,false⟩=
        .ok (addResults ⟨if search.minHops=0 then [(start,[])] else [],search.maxWork,false⟩
          (below search candidates search.maxHops (start,[]))) :=
    explore_eq hresults hwork hcandidates (Nat.zero_add _) rfl
  rw [traversePaths,if_neg hfull,hexplore]
  rfl

end Tree

section Trails

variable (st : Store) (labels : List String) (direction : Direction) (filters : List (String×Value))

/-- A step of an allowed type follows a stored relationship whose properties pass the filters. -/
def FollowsEdge (u : NodeId) (step : PathStep) : Prop :=
  (labels=[] ∨ step.edgeLabel∈labels) ∧ ∃ props,StoredStep st direction u step props ∧
    ∀ filter∈filters,∃ value,getProp props filter.1=some value ∧ valueEq value filter.2=true

/-- Steps follow one another from a node. -/
def FollowsEdges : NodeId → List PathStep → Prop
  | _,[] => True
  | u,step::rest => FollowsEdge st labels direction filters u step ∧ FollowsEdges step.dst rest

/-- A trail follows relationships from a node and repeats none. -/
def Trail (u : NodeId) (path : List PathStep) : Prop :=
  FollowsEdges st labels direction filters u path ∧ (path.map PathStep.key).Nodup

/-- The node at the end of a path. -/
def endOf (u : NodeId) : List PathStep → NodeId
  | [] => u
  | step::rest => endOf step.dst rest

/-- The loop returns the trails whose length is in the range with their ends, each once. -/
def TrailsExact (start : NodeId) (minHops maxHops : Nat) : Prop :=
  ∃ n results,traversePathsLoop st labels direction ⟨minHops,maxHops,filters,none,0⟩ start n=some (.ok results) ∧
    results.Nodup ∧ ∀ node path,(node,path)∈results ↔
      Trail st labels direction filters start path ∧ minHops≤path.length ∧ path.length≤ maxHops ∧
        node=endOf start path

variable {st labels direction filters} {search : PathSearch} {candidates : NodeId → List (PathStep×Properties)}

theorem passes_iff (props : Properties) : search.passes props=true ↔
    ∀ filter∈search.filters,∃ value,getProp props filter.1=some value ∧ valueEq value filter.2=true := by
  rw [PathSearch.passes,List.all_eq_true]
  refine forall_congr' fun filter => imp_congr_right fun _ => ?_
  cases hvalue : getProp props filter.1 with
  | none => exact iff_of_false Bool.false_ne_true fun h => h.elim fun _ hv => nomatch hv.1
  | some value =>
    constructor
    · exact fun hequal => ⟨value,rfl,hequal⟩
    · rintro ⟨found,hfound,hequal⟩
      rw [Option.some.inj hfound]
      exact hequal

variable {hops : Nat} {path : List PathStep}

theorem below_extends {frame entry : NodeId×List PathStep} (h : entry∈below search candidates hops frame) :
    ∃ step∈accepted search frame.2 (candidates frame.1),∃ rest,entry.2=frame.2++step::rest := by
  induction hops generalizing frame with
  | zero => exact absurd h List.not_mem_nil
  | succ hops ih =>
    rw [below] at h
    rcases List.mem_append.mp h with hreported|hdeeper
    · have hnext : entry∈extensions frame.2 (accepted search frame.2 (candidates frame.1)) := by
        rw [reportedFrames] at hreported
        by_cases hmin : search.minHops≤frame.2.length+1
        · rw [if_pos hmin] at hreported
          exact hreported
        · rw [if_neg hmin] at hreported
          exact absurd hreported List.not_mem_nil
      have ⟨step,hstep,hentry⟩ := List.mem_map.mp hnext
      exact ⟨step,hstep,[],by rw [←hentry]⟩
    · have ⟨next,hnext,hin⟩ := List.mem_flatMap.mp hdeeper
      have ⟨step,hstep,hframe⟩ := List.mem_map.mp (List.mem_reverse.mp hnext)
      have ⟨more,_,rest,hentry⟩ := ih hin
      refine ⟨step,hstep,more::rest,?_⟩
      rw [hentry,←hframe,List.append_assoc]
      rfl

theorem nodup_below (hnodup : ∀ u,((candidates u).map Prod.fst).Nodup) {frame : NodeId×List PathStep} :
    (below search candidates hops frame).Nodup := by
  induction hops generalizing frame with
  | zero => exact List.nodup_nil
  | succ hops ih =>
    have haccepted : (accepted search frame.2 (candidates frame.1)).Nodup :=
      (hnodup frame.1).sublist (List.filter_sublist.map _)
    have hnext : (extensions frame.2 (accepted search frame.2 (candidates frame.1))).Nodup :=
      haccepted.map fun a b hab => (List.cons.inj (List.append_cancel_left (Prod.mk.inj hab).2)).1
    have hdeeper : ∀ entry∈(extensions frame.2 (accepted search frame.2 (candidates frame.1))).reverse.flatMap
        (below search candidates hops),∃ step∈accepted search frame.2 (candidates frame.1),∃ more rest,
          entry.2=frame.2++step::more::rest := by
      intro entry hentry
      have ⟨next,hin,hbelow⟩ := List.mem_flatMap.mp hentry
      have ⟨step,hstep,hframe⟩ := List.mem_map.mp (List.mem_reverse.mp hin)
      have ⟨more,_,rest,hpath⟩ := below_extends hbelow
      refine ⟨step,hstep,more,rest,?_⟩
      rw [hpath,←hframe,List.append_assoc]
      rfl
    rw [below]
    refine List.nodup_append.mpr ⟨?_,?_,fun a ha b hb heq => ?_⟩
    · rw [reportedFrames]
      by_cases hmin : search.minHops≤frame.2.length+1
      · rw [if_pos hmin]
        exact hnext
      · rw [if_neg hmin]
        exact List.nodup_nil
    · refine List.nodup_flatMap.mpr ⟨fun _ _ => ih,?_⟩
      have hdistinct : (accepted search frame.2 (candidates frame.1)).reverse.Pairwise (·≠·) :=
        List.nodup_reverse.mpr haccepted
      rw [extensions,←List.map_reverse]
      refine List.pairwise_map.mpr (hdistinct.imp fun hne entry hleft hright => hne ?_)
      have ⟨_,_,_,hpath⟩ := below_extends hleft
      have ⟨_,_,_,hpath'⟩ := below_extends hright
      rw [hpath] at hpath'
      dsimp only at hpath'
      rw [List.append_assoc,List.append_assoc] at hpath'
      exact (List.cons.inj (List.append_cancel_left hpath')).1
    · have hshort : a∈extensions frame.2 (accepted search frame.2 (candidates frame.1)) := by
        rw [reportedFrames] at ha
        by_cases hmin : search.minHops≤frame.2.length+1
        · rw [if_pos hmin] at ha
          exact ha
        · rw [if_neg hmin] at ha
          exact absurd ha List.not_mem_nil
      have ⟨step,_,hstep⟩ := List.mem_map.mp hshort
      have ⟨step',_,more,rest,hpath⟩ := hdeeper b hb
      have hlengths := congrArg List.length ((congrArg Prod.snd (hstep.trans heq)).trans hpath)
      simp at hlengths

theorem mem_accepted {found : List (PathStep×Properties)} {step : PathStep} : step∈accepted search path found ↔
    step.key∉path.map PathStep.key ∧ ∃ props,(step,props)∈found ∧ search.passes props=true := by
  rw [accepted,List.mem_map]
  constructor
  · rintro ⟨⟨_,props⟩,hin,hstep⟩
    obtain ⟨hmem,htest⟩ := List.mem_filter.mp hin
    have hparts := Bool.and_eq_true_iff.mp htest
    dsimp only at hstep
    rw [←hstep]
    exact ⟨of_decide_eq_true hparts.1,props,hmem,hparts.2⟩
  · rintro ⟨hnew,props,hmem,hpass⟩
    refine ⟨(step,props),List.mem_filter.mpr ⟨hmem,?_⟩,rfl⟩
    rw [decide_eq_true hnew,hpass]
    rfl

section Listed

variable (hcandidates : ∀ u step props,(step,props)∈candidates u ↔ (labels=[] ∨ step.edgeLabel∈labels) ∧ StoredStep st direction u step props)

include hcandidates

/-- The candidates that extend a path follow a relationship that is not on it. -/
theorem mem_accepted_iff {u : NodeId} {step : PathStep} :
    step∈accepted search path (candidates u) ↔ step.key∉path.map PathStep.key ∧
      FollowsEdge st labels direction search.filters u step := by
  rw [mem_accepted]
  refine and_congr_right fun _ => ?_
  constructor
  · rintro ⟨props,hmem,hpass⟩
    have hparts := (hcandidates u step props).mp hmem
    exact ⟨hparts.1,props,hparts.2,(passes_iff props).mp hpass⟩
  · rintro ⟨hlabel,props,hstored,hpass⟩
    exact ⟨props,(hcandidates u step props).mpr ⟨hlabel,hstored⟩,(passes_iff props).mpr hpass⟩

/-- The paths below a frame are its extensions by steps that follow one another and repeat no relationship. -/
theorem mem_below {u node : NodeId} {found : List PathStep} (hpath : (path.map PathStep.key).Nodup) :
    (node,found)∈below search candidates hops (u,path) ↔ ∃ rest,rest≠[] ∧ found=path++rest ∧
      rest.length≤hops ∧ search.minHops≤found.length ∧
      FollowsEdges st labels direction search.filters u rest ∧ (found.map PathStep.key).Nodup ∧
      node=endOf u rest := by
  induction hops generalizing u path with
  | zero =>
    refine iff_of_false List.not_mem_nil ?_
    rintro ⟨rest,hne,-,hlength,-⟩
    exact hne (List.eq_nil_of_length_eq_zero (Nat.le_zero.mp hlength))
  | succ hops ih =>
    have hlonger : ∀ step : PathStep,step.key∉path.map PathStep.key →
        ((path++[step]).map PathStep.key).Nodup := by
      intro step hnew
      rw [List.map_append]
      exact List.nodup_append.mpr ⟨hpath,List.nodup_singleton _,fun a ha b hb heq => hnew
        (by rw [←List.mem_singleton.mp hb,←heq]; exact ha)⟩
    rw [below,List.mem_append]
    constructor
    · rintro (hreported|hdeeper)
      · rw [reportedFrames] at hreported
        by_cases hmin : search.minHops≤path.length+1
        · rw [if_pos hmin] at hreported
          have ⟨step,hstep,hentry⟩ := List.mem_map.mp hreported
          have ⟨hnew,hfollows⟩ := (mem_accepted_iff hcandidates).mp hstep
          have hfound : path++[step]=found := congrArg Prod.snd hentry
          have hnode : step.dst=node := congrArg Prod.fst hentry
          rw [←hfound,←hnode]
          refine ⟨[step],List.cons_ne_nil _ _,rfl,Nat.succ_le_succ (Nat.zero_le _),?_,⟨hfollows,trivial⟩,
            hlonger step hnew,rfl⟩
          rw [List.length_append]
          exact hmin
        · rw [if_neg hmin] at hreported
          exact absurd hreported List.not_mem_nil
      · have ⟨next,hnext,hin⟩ := List.mem_flatMap.mp hdeeper
        have ⟨step,hstep,hframe⟩ := List.mem_map.mp (List.mem_reverse.mp hnext)
        have ⟨hnew,hfollows⟩ := (mem_accepted_iff hcandidates).mp hstep
        rw [←hframe] at hin
        have ⟨rest,hne,hfound,hlength,hmin,hrest,hkeys,hnode⟩ := (ih (hlonger step hnew)).mp hin
        refine ⟨step::rest,List.cons_ne_nil _ _,?_,Nat.succ_le_succ hlength,hmin,⟨hfollows,hrest⟩,hkeys,hnode⟩
        rw [hfound,List.append_assoc]
        rfl
    · rintro ⟨rest,hne,hfound,hlength,hmin,hfollows,hkeys,hnode⟩
      cases rest with
      | nil => exact absurd rfl hne
      | cons step more =>
        have hnew : step.key∉path.map PathStep.key := by
          rw [hfound,List.map_append] at hkeys
          exact fun hin => (List.nodup_append.mp hkeys).2.2 step.key hin step.key List.mem_cons_self rfl
        have hstep : step∈accepted search path (candidates u) :=
          (mem_accepted_iff hcandidates).mpr ⟨hnew,hfollows.1⟩
        cases more with
        | nil =>
          have hlen : found.length=path.length+1 := by
            rw [hfound,List.length_append]
            rfl
          rw [hlen] at hmin
          refine Or.inl ?_
          rw [reportedFrames,if_pos hmin,hnode,hfound]
          exact List.mem_map.mpr ⟨step,hstep,rfl⟩
        | cons second others =>
          refine Or.inr (List.mem_flatMap.mpr ⟨(step.dst,path++[step]),List.mem_reverse.mpr
            (List.mem_map.mpr ⟨step,hstep,rfl⟩),(ih (hlonger step hnew)).mpr ⟨second::others,
              List.cons_ne_nil _ _,?_,Nat.le_of_succ_le_succ hlength,hmin,hfollows.2,hkeys,hnode⟩⟩)
          rw [hfound,List.append_assoc]
          rfl

end Listed

/-- Without a cap and a budget the loop ends and returns exactly the trails in the range. -/
theorem trailsExact_of_agree (h : TablesAgree st) (hlabels : labels.Nodup) (direction : Direction)
    (filters : List (String×Value)) (start : NodeId) (minHops maxHops : Nat) :
    TrailsExact st labels direction filters start minHops maxHops := by
  have hspec := fun u => h.candidateSteps_spec direction u hlabels
  let candidates : NodeId → List (PathStep×Properties) := fun u => (hspec u).choose
  have hsteps : ∀ u,candidateSteps st labels direction u=.ok (candidates u) := fun u => (hspec u).choose_spec.1
  have hnodup : ∀ u,((candidates u).map Prod.fst).Nodup := fun u => (hspec u).choose_spec.2.1
  have hmem := fun u => (hspec u).choose_spec.2.2
  let search : PathSearch := ⟨minHops,maxHops,filters,none,0⟩
  have hresult : traversePaths st start labels direction search=
      .ok ((if minHops=0 then [(start,[])] else [])++below search candidates maxHops (start,[])) :=
    traversePaths_eq rfl rfl hsteps start
  have ⟨n,hn⟩ := traversePathsLoop_returns st labels direction search start
  rw [hresult] at hn
  have hbelow : ∀ node path,(node,path)∈below search candidates maxHops (start,[]) ↔ path≠[] ∧
      Trail st labels direction filters start path ∧ minHops≤path.length ∧ path.length≤ maxHops ∧
        node=endOf start path := by
    intro node path
    have hempty : (([] : List PathStep).map PathStep.key).Nodup := List.nodup_nil
    refine (mem_below hmem hempty).trans ?_
    constructor
    · rintro ⟨rest,hne,hfound,hlength,hmin,hfollows,hkeys,hnode⟩
      have hsame : path=rest := hfound
      rw [hsame] at hmin hkeys ⊢
      exact ⟨hne,⟨hfollows,hkeys⟩,hmin,hlength,hnode⟩
    · rintro ⟨hne,htrail,hmin,hlength,hnode⟩
      exact ⟨path,hne,rfl,hlength,hmin,htrail.1,htrail.2,hnode⟩
  refine ⟨n,_,hn,?_,fun node path => ?_⟩
  · refine List.nodup_append.mpr ⟨?_,nodup_below hnodup,fun a ha b hb heq => ?_⟩
    · by_cases hzero : minHops=0
      · rw [if_pos hzero]
        exact List.nodup_singleton _
      · rw [if_neg hzero]
        exact List.nodup_nil
    · by_cases hzero : minHops=0
      · rw [if_pos hzero] at ha
        have hempty : b=(start,[]) := heq.symm.trans (List.mem_singleton.mp ha)
        rw [hempty] at hb
        exact ((hbelow start []).mp hb).1 rfl
      · rw [if_neg hzero] at ha
        exact absurd ha List.not_mem_nil
  · rw [List.mem_append,hbelow]
    cases path with
    | nil =>
      rw [or_iff_left fun h => h.1 rfl]
      by_cases hzero : minHops=0
      · rw [if_pos hzero,List.mem_singleton,Prod.mk.injEq]
        constructor
        · rintro ⟨hnode,-⟩
          exact ⟨⟨trivial,List.nodup_nil⟩,Nat.le_of_eq hzero,Nat.zero_le _,hnode⟩
        · rintro ⟨-,-,-,hnode⟩
          exact ⟨hnode,rfl⟩
      · rw [if_neg hzero]
        refine iff_of_false List.not_mem_nil ?_
        rintro ⟨-,hmin,-⟩
        exact hzero (Nat.le_zero.mp hmin)
    | cons step rest =>
      have hlong : (node,step::rest)∉if minHops=0 then [(start,([] : List PathStep))] else [] := by
        by_cases hzero : minHops=0
        · rw [if_pos hzero,List.mem_singleton]
          exact fun heq => List.cons_ne_nil _ _ (congrArg Prod.snd heq)
        · rw [if_neg hzero]
          exact List.not_mem_nil
      rw [or_iff_right hlong,and_iff_right (List.cons_ne_nil _ _)]

/-- The trails between two nodes with relationships in both directions, of all types. -/
theorem trailsExact_mutualStore : TrailsExact mutualStore [] .both [] 1 0 3 :=
  trailsExact_of_agree (tablesAgree_of_edgeInv edgeInv_mutualStore) List.nodup_nil .both [] 1 0 3

end Trails

end GraphDbLite.TrailSearch
