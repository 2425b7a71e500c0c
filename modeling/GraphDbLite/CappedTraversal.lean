import GraphDbLite.FallibleLists
import GraphDbLite.Traversal

/-!
# Path search with a cap

A path search that stops after a number of paths reports the first of the paths
that the search without that cap reports. Up to the last path both are in the same
state; from then on the capped search stands still and the other one only appends.
-/

namespace GraphDbLite.CappedTraversal

open GraphTypes GraphStore FallibleLists Traversal

/-- The search with a cap. -/
def capped (search : PathSearch) (cap : Nat) : PathSearch := {search with maxResults := some cap}

/-- Frames that a search opens. -/
abbrev Frames := List (NodeId×List PathStep)

/-- Where a capped search stands when the other one is in a state: in the same state
before the last path, or stopped with the first paths. -/
def Behind (cap : Nat) (all first : SearchState) : Prop :=
  (all=first ∧ first.stopped=false ∧ first.results.length<cap) ∨
    (first.stopped=true ∧ first.results.length=cap ∧ first.results<+:all.results)

/-- The same with the frames opened so far. -/
def BehindFrames (cap : Nat) (all first : SearchState×Frames) : Prop :=
  (all=first ∧ first.1.stopped=false ∧ first.1.results.length<cap) ∨
    (first.1.stopped=true ∧ first.1.results.length=cap ∧ first.1.results<+:all.1.results)

section Steps

variable {search : PathSearch} {path : List PathStep}
variable {candidate : PathStep×Properties}

/-- Frames that extend a path by a step: none if its relationship is not new or fails the
filters. -/
def extended (search : PathSearch) (path : List PathStep) (candidate : PathStep×Properties) : Frames :=
  if (path.any fun step => step.key=candidate.1.key)=true then []
  else if search.passes candidate.2=false then []
  else [(candidate.1.dst,path++[candidate.1])]

theorem extended_eq (search : PathSearch) (path : List PathStep) (candidate : PathStep×Properties) :
    extended search path candidate=if candidate.1.key∈path.map PathStep.key then []
      else if search.passes candidate.2=false then [] else [(candidate.1.dst,path++[candidate.1])] := by
  have hany : (path.any fun step => step.key=candidate.1.key)=true ↔ candidate.1.key∈path.map PathStep.key := by
    simp
  unfold extended
  simp only [hany]

/-- Frames that a visit reports. -/
def reported (search : PathSearch) (path : List PathStep) (candidate : PathStep×Properties) : Frames :=
  if search.minHops≤path.length+1 then extended search path candidate else []

theorem reported_length (search : PathSearch) (path : List PathStep) (candidate : PathStep×Properties) :
    (reported search path candidate).length≤1 := by
  unfold reported extended
  split_ifs <;> simp

/-- State after a visit. -/
def afterVisit (search : PathSearch) (path : List PathStep) (s : SearchState×Frames)
    (candidate : PathStep×Properties) : SearchState×Frames :=
  let last := !(reported search path candidate).isEmpty && search.full (s.1.results.length+1)
  (⟨s.1.results++reported search path candidate,if search.maxWork=0 then s.1.fuel else s.1.fuel-1,last⟩,
    s.2++if last=false ∧ path.length+1< search.maxHops then extended search path candidate else [])

theorem visitStep_eq {s : SearchState×Frames} (hs : s.1.stopped=false)
    (hleft : ¬(search.maxWork≠0 ∧ s.1.fuel=0)) :
    visitStep search path s candidate=.ok (afterVisit search path s candidate) := by
  have hlength : (path++[candidate.1]).length=path.length+1 := List.length_append
  have hgoing : ¬s.1.stopped=true := by simp [hs]
  unfold visitStep
  dsimp only
  rw [if_neg hgoing,if_neg hleft,hlength]
  unfold afterVisit reported
  rw [extended_eq]
  by_cases hseen : candidate.1.key∈path.map PathStep.key
  · simp [hseen,hs]
  · by_cases hfails : search.passes candidate.2=false
    · simp [hseen,hfails,hs]
    · by_cases hreport : search.minHops≤path.length+1
      · simp only [if_neg hseen,if_neg hfails,if_pos hreport,List.isEmpty_cons,Bool.not_false,Bool.true_and]
        split_ifs <;> simp
      · simp only [if_neg hseen,if_neg hfails,if_neg hreport,List.isEmpty_nil,Bool.not_true,Bool.false_and,hs]
        split_ifs <;> simp

theorem visitStep_ok {s s' : SearchState×Frames} (h : visitStep search path s candidate=.ok s') :
    s.1.stopped=true ∧ s'=s ∨
      s.1.stopped=false ∧ ¬(search.maxWork≠0 ∧ s.1.fuel=0) ∧ s'=afterVisit search path s candidate := by
  cases hs : s.1.stopped with
  | true =>
    rw [visitStep,if_pos hs] at h
    exact .inl ⟨rfl,(Except.ok.inj h).symm⟩
  | false =>
    by_cases hleft : search.maxWork≠0 ∧ s.1.fuel=0
    · rw [visitStep,if_neg (by simp [hs]),if_pos hleft] at h
      cases h
    · rw [visitStep_eq hs hleft] at h
      exact .inr ⟨rfl,hleft,(Except.ok.inj h).symm⟩

theorem visitStep_frames {s s' : SearchState×Frames} (h : visitStep search path s candidate=.ok s') :
    (∀ f∈s'.1.results,f∈s.1.results ∨ f∈extended search path candidate) ∧
      ∀ f∈s'.2,f∈s.2 ∨ f∈extended search path candidate := by
  rcases visitStep_ok h with ⟨_,heq⟩|⟨_,_,heq⟩
  · rw [heq]
    exact ⟨fun _ hf => .inl hf,fun _ hf => .inl hf⟩
  · rw [heq]
    have hpart : ∀ (p : Prop) [Decidable p],∀ f∈if p then extended search path candidate else [],
        f∈extended search path candidate := by
      intro p _ f hf
      split_ifs at hf
      · exact hf
      · cases hf
    exact ⟨fun f hf => (List.mem_append.mp hf).imp_right (hpart _ f),
      fun f hf => (List.mem_append.mp hf).imp_right (hpart _ f)⟩

theorem of_mem_extended {f : NodeId×List PathStep} (h : f∈extended search path candidate) :
    search.passes candidate.2=true ∧ f=(candidate.1.dst,path++[candidate.1]) := by
  unfold extended at h
  split_ifs at h with hseen hfails
  · cases h
  · cases h
  · exact ⟨Bool.not_eq_false _ ▸ hfails,List.mem_singleton.mp h⟩

theorem visitStep_appends {s s' : SearchState×Frames} (h : visitStep search path s candidate=.ok s') :
    s.1.results<+:s'.1.results := by
  rcases visitStep_ok h with ⟨_,heq⟩|⟨_,_,heq⟩
  · exact heq ▸ List.prefix_refl s.1.results
  · rw [heq]
    exact List.prefix_append _ _

theorem visitStep_stopped {s : SearchState×Frames} (h : s.1.stopped=true) : visitStep search path s candidate=.ok s := by
  unfold visitStep
  rw [if_pos h]

theorem full_of_capped {cap count : Nat} (hcap : ∀ k∈search.maxResults,cap≤k)
    (h : (capped search cap).full count=false) : search.full count=false := by
  have hbelow : ¬cap≤count := of_decide_eq_false h
  unfold PathSearch.full
  cases hmax : search.maxResults with
  | none => rfl
  | some k =>
    have hle := hcap k hmax
    have hfew : ¬k≤count := by omega
    exact decide_eq_false hfew

theorem visitStep_behind {cap : Nat} (hcap : ∀ k∈search.maxResults,cap≤k) {all first all' : SearchState×Frames}
    (hbehind : BehindFrames cap all first) (h : visitStep search path all candidate=.ok all') :
    ∃ first',visitStep (capped search cap) path first candidate=.ok first' ∧ BehindFrames cap all' first' := by
  cases hbehind with
  | inr hstopped =>
    have ⟨hstop,hlen,hfront⟩ := hstopped
    exact ⟨first,visitStep_stopped hstop,Or.inr ⟨hstop,hlen,hfront.trans (visitStep_appends h)⟩⟩
  | inl hsame =>
    have ⟨heq,hstop,hlen⟩ := hsame
    rw [heq] at h
    rcases visitStep_ok h with ⟨hover,_⟩|⟨_,hleft,hafter⟩
    · rw [hstop] at hover
      cases hover
    · refine ⟨_,visitStep_eq hstop hleft,?_⟩
      have hsame : reported (capped search cap) path candidate=reported search path candidate := rfl
      have hlength := reported_length search path candidate
      rw [hafter]
      unfold BehindFrames afterVisit
      rw [hsame]
      cases hnew : reported search path candidate with
      | nil => exact .inl ⟨rfl,rfl,by rwa [List.append_nil]⟩
      | cons f rest =>
        rw [hnew,List.length_cons] at hlength
        have hadded : (first.1.results++f::rest).length=first.1.results.length+1 := by
          rw [List.length_append,List.length_cons]
          omega
        cases hfull : (capped search cap).full (first.1.results.length+1) with
        | false =>
          have hbelow : ¬cap≤first.1.results.length+1 := of_decide_eq_false hfull
          rw [full_of_capped hcap hfull]
          exact .inl ⟨rfl,rfl,by dsimp only; omega⟩
        | true =>
          have habove : cap≤first.1.results.length+1 := of_decide_eq_true hfull
          exact .inr ⟨rfl,by dsimp only; omega,List.prefix_refl _⟩

end Steps

section Search

variable {st : Store} {labels : List String} {direction : EdgeStorage.Direction} {search : PathSearch}
variable {hops : Nat} {frame : NodeId×List PathStep}

/-- A search that is not stopped visits the steps of its frame and then searches the
opened frames, the last one first. -/
theorem explore_succ_iff {s s' : SearchState} (hstop : s.stopped=false) :
    explore st labels direction search (hops+1) frame s=.ok s' ↔
    ∃ candidates visited,candidateSteps st labels direction frame.1=.ok candidates ∧
    candidates.foldlM (visitStep search frame.2) (s,[])=.ok visited ∧
    visited.2.reverse.foldlM (fun s opened => explore st labels direction search hops opened s) visited.1=.ok s' := by
  rw [explore,if_neg (by simp [hstop])]
  cases hcandidates : candidateSteps st labels direction frame.1 with
  | error e => simp [bind,Except.bind]
  | ok candidates =>
    cases hvisited : candidates.foldlM (visitStep search frame.2) (s,[]) with
    | error e => simp [bind,Except.bind,hvisited]
    | ok visited =>
      constructor
      · intro h
        exact ⟨candidates,visited,rfl,hvisited,by simpa [bind,Except.bind,hvisited] using h⟩
      · intro h
        have ⟨others,reached,hsame,hreached,hrest⟩ := h
        rw [←Except.ok.inj hsame,hvisited] at hreached
        rw [←Except.ok.inj hreached] at hrest
        simpa [bind,Except.bind,hvisited] using hrest

theorem explore_stopped {s : SearchState} (h : s.stopped=true) :
    explore st labels direction search hops frame s=.ok s := by
  cases hops with
  | zero => rfl
  | succ hops =>
    rw [explore,if_pos h]

theorem explore_appends {s s' : SearchState} (h : explore st labels direction search hops frame s=.ok s') :
    s.results<+:s'.results := by
  induction hops generalizing frame s s' with
  | zero =>
    rw [explore] at h
    exact Except.ok.inj h▸List.prefix_refl _
  | succ hops ih =>
    cases hstop : s.stopped with
    | true =>
      rw [explore_stopped hstop] at h
      exact Except.ok.inj h▸List.prefix_refl _
    | false =>
      have ⟨candidates,visited,_,hvisit,hopened⟩ := (explore_succ_iff hstop).mp h
      have hfirst := foldlM_relates (R := fun (p : SearchState×Frames) (_ : Unit) => s.results<+:p.1.results)
        (g := fun _ _ => .ok ()) (c := ()) (fun candidate _ p _ p' hp hstep =>
          ⟨(),rfl,hp.trans (visitStep_appends hstep)⟩) (List.prefix_refl _) hvisit
      have ⟨_,_,hmid⟩ := hfirst
      have hlast := foldlM_relates (R := fun (p : SearchState) (_ : Unit) => s.results<+:p.results)
        (g := fun _ _ => .ok ()) (c := ()) (fun opened _ p _ p' hp hstep =>
          ⟨(),rfl,hp.trans (ih hstep)⟩) hmid hopened
      have ⟨_,_,hend⟩ := hlast
      exact hend

theorem explore_behind {cap : Nat} (hcap : ∀ k∈search.maxResults,cap≤k) {all first all' : SearchState}
    (hbehind : Behind cap all first) (h : explore st labels direction search hops frame all=.ok all') :
    ∃ first',explore st labels direction (capped search cap) hops frame first=.ok first' ∧ Behind cap all' first' := by
  induction hops generalizing frame all first all' with
  | zero =>
    rw [explore] at h
    exact ⟨first,rfl,Except.ok.inj h▸hbehind⟩
  | succ hops ih =>
    cases hbehind with
    | inr hstopped =>
      have ⟨hstop,hlen,hfront⟩ := hstopped
      exact ⟨first,explore_stopped hstop,Or.inr ⟨hstop,hlen,hfront.trans (explore_appends h)⟩⟩
    | inl hsame =>
      have ⟨heq,hstop,hlen⟩ := hsame
      rw [heq] at h
      have ⟨candidates,visited,hcandidates,hvisit,hopened⟩ := (explore_succ_iff hstop).mp h
      have hstart : BehindFrames cap (first,[]) (first,[]) := Or.inl ⟨rfl,hstop,hlen⟩
      have ⟨visited',hvisit',hframes⟩ := foldlM_relates (f := visitStep search frame.2)
        (fun candidate _ p q p' hpq hstep => visitStep_behind hcap hpq hstep) hstart hvisit
      have hnext : ∃ first',visited'.2.reverse.foldlM
          (fun s opened => explore st labels direction (capped search cap) hops opened s) visited'.1=
            .ok first' ∧ Behind cap all' first' := by
        cases hframes with
        | inl hpair =>
          have ⟨hpair,hstop',hlen'⟩ := hpair
          rw [←hpair] at hstop' hlen' ⊢
          exact foldlM_relates
            (f := fun s opened => explore st labels direction search hops opened s)
            (fun opened _ p q p' hpq hstep => ih hpq hstep) (Or.inl ⟨rfl,hstop',hlen'⟩) hopened
        | inr hdone =>
          have hall : ∀ {frames : Frames},frames.foldlM
              (fun s opened => explore st labels direction (capped search cap) hops opened s) visited'.1=
                .ok visited'.1 := by
            intro frames
            induction frames with
            | nil => rfl
            | cons opened rest ihrest =>
              rw [List.foldlM_cons,explore_stopped hdone.1]
              exact ihrest
          have hgrow := foldlM_relates
            (R := fun (p : SearchState) (_ : Unit) => visited.1.results<+:p.results)
            (g := fun _ _ => .ok ()) (c := ()) (fun opened _ p _ p' hp hstep =>
              ⟨(),rfl,hp.trans (explore_appends hstep)⟩) (List.prefix_refl _) hopened
          have ⟨_,_,hend⟩ := hgrow
          exact ⟨visited'.1,hall,Or.inr ⟨hdone.1,hdone.2.1,hdone.2.2.trans hend⟩⟩
      have ⟨first',hrest,hbehind'⟩ := hnext
      exact ⟨first',(explore_succ_iff hstop).mpr ⟨candidates,visited',hcandidates,hvisit',hrest⟩,hbehind'⟩

theorem behind_results {cap : Nat} {all first : SearchState} (h : Behind cap all first) :
    first.results=all.results.take cap := by
  cases h with
  | inl hsame =>
    rw [hsame.1,List.take_of_length_le (Nat.le_of_lt hsame.2.2)]
  | inr hdone =>
    rw [←hdone.2.1]
    exact List.prefix_iff_eq_take.mp hdone.2.2

theorem traversePaths_capped {cap : Nat} (hcap : ∀ k∈search.maxResults,cap≤k) (hpos : 0<cap)
    {start : NodeId} {paths : List (NodeId×List PathStep)}
    (h : traversePaths st start labels direction search=.ok paths) :
    traversePaths st start labels direction (capped search cap)=.ok (paths.take cap) := by
  have hmin : (capped search cap).minHops=search.minHops := rfl
  have hmax : (capped search cap).maxHops=search.maxHops := rfl
  have hwork : (capped search cap).maxWork=search.maxWork := rfl
  unfold traversePaths at h ⊢
  dsimp only at h ⊢
  rw [hmin,hmax,hwork]
  have hsearch : ∀ {initial : Frames},initial.length<cap →
      (explore st labels direction search search.maxHops (start,[]) ⟨initial,search.maxWork,false⟩).map
        SearchState.results=.ok paths →
      (explore st labels direction (capped search cap) search.maxHops (start,[])
        ⟨initial,search.maxWork,false⟩).map SearchState.results=.ok (paths.take cap) := by
    intro initial hlen hrun
    obtain ⟨all',hall,hrun⟩ := exists_of_bind hrun
    have ⟨first',hfirst,hbehind⟩ := explore_behind hcap (Or.inl ⟨rfl,rfl,hlen⟩) hall
    rw [hfirst,←Except.ok.inj hrun,←behind_results hbehind]
    rfl
  by_cases hzero : search.minHops=0
  · rw [if_pos hzero] at h ⊢
    have hfull : (capped search cap).full 1=decide (cap≤1) := rfl
    by_cases hone : cap≤1
    · rw [if_pos ⟨hzero,by rw [hfull]; exact decide_eq_true hone⟩]
      have hcapOne : cap=1 := by omega
      by_cases hover : search.minHops=0 ∧ search.full 1=true
      · rw [if_pos hover] at h
        rw [←Except.ok.inj h,hcapOne]
        rfl
      · rw [if_neg hover] at h
        obtain ⟨all',hall,h⟩ := exists_of_bind h
        have hfront := List.prefix_iff_eq_take.mp (explore_appends hall)
        rw [←Except.ok.inj h,hcapOne]
        exact congrArg Except.ok hfront
    · have hnot : search.full 1=false := full_of_capped hcap (by rw [hfull]; exact decide_eq_false hone)
      rw [if_neg (by simp [hnot])] at h
      rw [if_neg (by rw [hfull]; simp [hone])]
      exact hsearch (by simp only [List.length_singleton]; omega) h
  · rw [if_neg hzero] at h ⊢
    rw [if_neg (fun hboth => hzero hboth.1)] at h ⊢
    exact hsearch hpos h

end Search

end GraphDbLite.CappedTraversal
