import GraphDbLite.TrailSearch

/-!
# A path search with a budget of visits

Without a budget the search counts its relationship visits; with a budget it takes the same
steps until the budget is used up and fails at the next visit. The reported paths are those of
the free search or none, and a larger budget only fails later.
-/

namespace GraphDbLite.WorkBudget

open GraphTypes GraphStore EdgeStorage FallibleLists Traversal CappedTraversal StepCandidates NeighbourSearch

section Meter

variable {σ τ ε α : Type} (budget : Nat) (err : ε) (R : σ → Nat → τ → Prop)

/-- A computation with a budget follows a free one that counts: it arrives where the free one does
if the count stays within the budget, and else it fails. -/
def Follows (count : Nat) (free : Except ε (σ×Nat)) (limited : Except ε τ) : Prop :=
  ∀ s n,free=.ok (s,n) → count≤n ∧ (n≤budget → ∃ t,limited=.ok t ∧ R s n t) ∧ (budget<n → limited=.error err)

variable {budget err R} {count : Nat} {s : σ} {t : τ}

theorem follows_ok (h : R s count t) (hle : count≤budget) : Follows budget err R count (.ok (s,count)) (.ok t) := by
  intro s' n heq
  have hs := congrArg Prod.fst (Except.ok.inj heq)
  have hn := congrArg Prod.snd (Except.ok.inj heq)
  dsimp only at hs hn
  rw [←hs,←hn]
  exact ⟨le_rfl,fun _ => ⟨t,rfl,h⟩,fun hlt => by omega⟩

theorem Follows.bind {σ' τ' : Type} {R' : σ' → Nat → τ' → Prop} {free : Except ε (σ×Nat)} {limited : Except ε τ}
    {f : σ×Nat → Except ε (σ'×Nat)} {g : τ → Except ε τ'} (h : Follows budget err R count free limited)
    (hnext : ∀ s n t,R s n t → n≤budget → Follows budget err R' n (f (s,n)) (g t))
    (hgrow : ∀ s n s' n',f (s,n)=.ok (s',n') → n≤n') : Follows budget err R' count (free >>= f) (limited >>= g) := by
  intro s' n' hrun
  obtain ⟨⟨s,n⟩,hfree,hf⟩ := exists_of_bind hrun
  obtain ⟨hcount,hok,herr⟩ := h s n hfree
  have hle := hgrow s n s' n' hf
  by_cases hn : n≤budget
  · obtain ⟨t,ht,hR⟩ := hok hn
    obtain ⟨_,hok',herr'⟩ := hnext s n t hR hn s' n' hf
    rw [ht]
    exact ⟨by omega,hok',herr'⟩
  · have hfail := herr (by omega)
    rw [hfail]
    exact ⟨by omega,fun hbelow => by omega,fun _ => rfl⟩

theorem foldlM_grows {f : σ×Nat → α → Except ε (σ×Nat)} {items : List α}
    (hgrow : ∀ a s n s' n',f (s,n) a=.ok (s',n') → n≤n') {s s' : σ} {n n' : Nat}
    (h : items.foldlM f (s,n)=.ok (s',n')) : n≤n' := by
  induction items generalizing s n with
  | nil => exact (congrArg Prod.snd (Except.ok.inj h)).le
  | cons a rest ih =>
    rw [List.foldlM_cons] at h
    obtain ⟨⟨s₁,n₁⟩,hfirst,hrest⟩ := exists_of_bind h
    exact (hgrow a s n s₁ n₁ hfirst).trans (ih hrest)

theorem foldlM_fst {f : σ×Nat → α → Except ε (σ×Nat)} {g : σ → α → Except ε σ}
    (hstep : ∀ a s n,(f (s,n) a).map Prod.fst=g s a) (items : List α) (s : σ) (n : Nat) :
    (items.foldlM f (s,n)).map Prod.fst=items.foldlM g s := by
  induction items generalizing s n with
  | nil => rfl
  | cons a rest ih =>
    rw [List.foldlM_cons,List.foldlM_cons,←hstep a s n]
    cases f (s,n) a with
    | error e => rfl
    | ok next => exact ih next.1 next.2

theorem foldlM_total {g : τ → α → Except ε τ} (h : ∀ t a,∃ t',g t a=.ok t') (items : List α) (t : τ) :
    ∃ t',items.foldlM g t=.ok t' := by
  induction items generalizing t with
  | nil => exact ⟨t,rfl⟩
  | cons a rest ih =>
    obtain ⟨next,hnext⟩ := h t a
    rw [List.foldlM_cons,hnext]
    exact ih next

theorem follows_foldlM {f : σ×Nat → α → Except ε (σ×Nat)} {g : τ → α → Except ε τ} {items : List α}
    (hstep : ∀ a s n t,R s n t → n≤budget → Follows budget err R n (f (s,n) a) (g t a))
    (hgrow : ∀ a s n s' n',f (s,n) a=.ok (s',n') → n≤n') (h : R s count t) (hle : count≤budget) :
    Follows budget err R count (items.foldlM f (s,count)) (items.foldlM g t) := by
  induction items generalizing s count t with
  | nil => exact follows_ok h hle
  | cons a rest ih =>
    rw [List.foldlM_cons,List.foldlM_cons]
    exact (hstep a s count t h hle).bind (fun s n t hR hn => ih hR hn) fun _ _ _ _ => foldlM_grows hgrow

end Meter

/-- The search with a budget. -/
def within (search : PathSearch) (work : UInt64) : PathSearch := {search with maxWork := work}

section Search

variable (st : Store) (labels : List String) (direction : Direction) (search : PathSearch)

/-- A visit that is counted. -/
def visitCounted (path : List PathStep) (s : (SearchState×Frames)×Nat) (candidate : PathStep×Properties) :
    Result ((SearchState×Frames)×Nat) :=
  (visitStep (within search 0) path s.1 candidate).map fun t => (t,if s.1.1.stopped=true then s.2 else s.2+1)

/-- The free search from a frame with a count of its visits. -/
def exploreCounted : Nat → NodeId×List PathStep → SearchState×Nat → Result (SearchState×Nat)
  | 0,_,s => .ok s
  | hops+1,frame,s =>
    if s.1.stopped=true then .ok s
    else do
      let candidates ← candidateSteps st labels direction frame.1
      let visited ← candidates.foldlM (visitCounted search frame.2) ((s.1,[]),s.2)
      visited.1.2.reverse.foldlM (fun s opened => exploreCounted hops opened s) (visited.1.1,visited.2)

/-- Number of relationship visits of the search without a budget. -/
def edgeVisits (start : NodeId) : Result Nat :=
  let initial : Frames := if search.minHops=0 then [(start,[])] else []
  if search.minHops=0 ∧ search.full 1=true then .ok 0
  else (exploreCounted st labels direction search search.maxHops (start,[]) (⟨initial,0,false⟩,0)).map Prod.snd

variable {st labels direction search} {work : UInt64} {path : List PathStep} {frame : NodeId×List PathStep} {hops : Nat}

/-- A state of the limited search beside one of the free search. -/
def Beside (work : UInt64) (s : SearchState) (n : Nat) (t : SearchState) : Prop :=
  t.results=s.results ∧ t.stopped=s.stopped ∧ t.fuel.toNat+n=work.toNat

/-- The same with the opened frames. -/
def BesideFrames (work : UInt64) (s : SearchState×Frames) (n : Nat) (t : SearchState×Frames) : Prop :=
  Beside work s.1 n t.1 ∧ t.2=s.2

/-- What a search fails with when its budget is used up. -/
def overBudget (work : UInt64) : GraphError :=
  .sizeLimit "variable-length traversal work" work.toNat work.toNat
    (some "narrow the hop range, add property predicates, LIMIT the result, or raise Config::max_traversal_work")

theorem visitStep_within (search : PathSearch) (path : List PathStep) (candidate : PathStep×Properties)
    (results : Frames) (work fuel any : UInt64) (frames : Frames) :
    visitStep (within search work) path (⟨results,fuel,false⟩,frames) candidate=
      if work≠0 ∧ fuel=0 then .error (overBudget work)
      else (visitStep (within search 0) path (⟨results,any,false⟩,frames) candidate).map fun t =>
        ({t.1 with fuel := if work=0 then fuel else fuel-1},t.2) := by
  by_cases hspent : work≠0 ∧ fuel=0
  · rw [if_pos hspent,visitStep,if_neg Bool.false_ne_true]
    exact if_pos hspent
  · rw [if_neg hspent,visitStep_eq rfl hspent,visitStep_eq rfl fun hfree => hfree.1 rfl]
    rfl

theorem visit_follows (hwork : work≠0) {candidate : PathStep×Properties} {s t : SearchState×Frames} {n : Nat}
    (h : BesideFrames work s n t) (hle : n≤ work.toNat) : Follows work.toNat (overBudget work) (BesideFrames work) n
      (visitCounted search path (s,n) candidate) (visitStep (within search work) path t candidate) := by
  obtain ⟨⟨hresults,hstopped,hfuel⟩,hframes⟩ := h
  rw [visitCounted]
  dsimp only
  cases hstop : s.1.stopped with
  | true =>
    rw [visitStep_stopped hstop,visitStep_stopped (hstopped.trans hstop)]
    exact follows_ok ⟨⟨hresults,hstopped,hfuel⟩,hframes⟩ hle
  | false =>
    have hs : s=(⟨s.1.results,s.1.fuel,false⟩,s.2) := by rw [←hstop]
    have ht : t=(⟨s.1.results,t.1.fuel,false⟩,s.2) := by rw [←hresults,←hframes,←hstop,←hstopped]
    rw [ht,visitStep_within search path candidate s.1.results work t.1.fuel s.1.fuel s.2,←hs]
    intro s' n' hrun
    obtain ⟨visited,hfree,hmap⟩ := exists_of_map hrun
    have hs' : visited=s' := congrArg Prod.fst hmap
    have hn' : n+1=n' := congrArg Prod.snd hmap
    rw [hfree,hs',←hn']
    refine ⟨Nat.le_succ n,fun hbelow => ?_,fun habove => ?_⟩
    · have hleft : t.1.fuel≠0 := by
        intro hzero
        rw [hzero] at hfuel
        have hnone : (0 : UInt64).toNat=0 := rfl
        omega
      rw [if_neg (fun hboth => hleft hboth.2),if_neg hwork]
      have hpos : 1≤t.1.fuel.toNat := by omega
      have hspent : (t.1.fuel-1).toNat=t.1.fuel.toNat-1 :=
        UInt64.toNat_sub_of_le _ _ (UInt64.le_iff_toNat_le.mpr hpos)
      exact ⟨_,rfl,⟨rfl,rfl,by dsimp only; omega⟩,rfl⟩
    · have hzero : t.1.fuel=0 := by
        refine UInt64.toNat_inj.mp ?_
        have hnone : (0 : UInt64).toNat=0 := rfl
        omega
      rw [if_pos ⟨hwork,hzero⟩]

theorem visitCounted_grows {candidate : PathStep×Properties} {s s' : SearchState×Frames} {n n' : Nat}
    (h : visitCounted search path (s,n) candidate=.ok (s',n')) : n≤n' := by
  obtain ⟨visited,-,hmap⟩ := exists_of_map h
  have hcount := congrArg Prod.snd hmap
  dsimp only at hcount
  split_ifs at hcount <;> omega

theorem exploreCounted_grows {s s' : SearchState} {n n' : Nat}
    (h : exploreCounted st labels direction search hops frame (s,n)=.ok (s',n')) : n≤n' := by
  induction hops generalizing frame s s' n n' with
  | zero => exact (congrArg Prod.snd (Except.ok.inj h)).le
  | succ hops ih =>
    rw [exploreCounted] at h
    by_cases hstop : s.stopped=true
    · rw [if_pos hstop] at h
      exact (congrArg Prod.snd (Except.ok.inj h)).le
    · rw [if_neg hstop] at h
      obtain ⟨candidates,-,hrest⟩ := exists_of_bind h
      obtain ⟨⟨visited,count⟩,hvisit,hopened⟩ := exists_of_bind hrest
      have hfirst := foldlM_grows (fun _ _ _ _ _ => visitCounted_grows) hvisit
      exact hfirst.trans (foldlM_grows (fun _ _ _ _ _ => ih) hopened)

theorem exploreCounted_fst (s : SearchState) (n : Nat) :
    (exploreCounted st labels direction search hops frame (s,n)).map Prod.fst=
      explore st labels direction (within search 0) hops frame s := by
  induction hops generalizing frame s n with
  | zero => rfl
  | succ hops ih =>
    rw [exploreCounted,explore]
    by_cases hstop : s.stopped=true
    · rw [if_pos hstop,if_pos hstop]
      rfl
    · rw [if_neg hstop,if_neg hstop]
      cases candidateSteps st labels direction frame.1 with
      | error e => rfl
      | ok candidates =>
        have hvisit := foldlM_fst (f := visitCounted search frame.2) (g := visitStep (within search 0) frame.2)
          (fun candidate s n => by
            rw [visitCounted]
            cases visitStep (within search 0) frame.2 s candidate <;> rfl) candidates (s,[]) n
        cases hvisited : candidates.foldlM (visitCounted search frame.2) ((s,[]),n) with
        | error e =>
          rw [hvisited] at hvisit
          simp only [bind,Except.bind,hvisited,←hvisit]
          rfl
        | ok visited =>
          rw [hvisited] at hvisit
          simp only [bind,Except.bind,hvisited,←hvisit]
          exact foldlM_fst (fun opened s n => ih s n) visited.1.2.reverse visited.1.1 visited.2

theorem explore_follows (hwork : work≠0) {s t : SearchState} {n : Nat} (h : Beside work s n t)
    (hle : n≤ work.toNat) : Follows work.toNat (overBudget work) (Beside work) n
      (exploreCounted st labels direction search hops frame (s,n))
      (explore st labels direction (within search work) hops frame t) := by
  induction hops generalizing frame s n t with
  | zero => exact follows_ok h hle
  | succ hops ih =>
    rw [exploreCounted,explore,h.2.1]
    by_cases hstop : s.stopped=true
    · rw [if_pos hstop,if_pos hstop]
      exact follows_ok h hle
    · rw [if_neg hstop,if_neg hstop]
      cases candidateSteps st labels direction frame.1 with
      | error e =>
        intro s' n' hrun
        cases hrun
      | ok candidates =>
        have hvisits : Follows work.toNat (overBudget work) (BesideFrames work) n
            (candidates.foldlM (visitCounted search frame.2) ((s,[]),n))
            (candidates.foldlM (visitStep (within search work) frame.2) (t,[])) := follows_foldlM (fun _ _ _ _ hR hn => visit_follows hwork hR hn)
          (fun _ _ _ _ _ => visitCounted_grows) ⟨h,rfl⟩ hle
        refine hvisits.bind (fun visited n t hR hn => ?_) (fun visited n s' n' hrun => ?_)
        · rw [hR.2]
          exact follows_foldlM (fun _ _ _ _ hR hn => ih hR hn) (fun _ _ _ _ _ => exploreCounted_grows) hR.1 hn
        · exact foldlM_grows (fun _ _ _ _ _ => exploreCounted_grows) hrun

/-- A search with a budget reports what the free search does if the free search keeps within the budget. -/
theorem traversePaths_within (search : PathSearch) (hwork : work≠0) (start : NodeId) {paths : List (NodeId×List PathStep)}
    (h : traversePaths st start labels direction (within search 0)=.ok paths) :
    ∃ visits,edgeVisits st labels direction search start=.ok visits ∧
      (visits≤ work.toNat → traversePaths st start labels direction (within search work)=.ok paths) ∧
      (work.toNat<visits → traversePaths st start labels direction (within search work)=.error (overBudget work)) := by
  have hfull : (within search work).full 1=search.full 1 := rfl
  have hfree : (within search 0).full 1=search.full 1 := rfl
  have hmin : ∀ work,(within search work).minHops=search.minHops := fun _ => rfl
  have hmax : ∀ work,(within search work).maxHops=search.maxHops := fun _ => rfl
  rw [traversePaths] at h ⊢
  simp only [hmin,hmax,hfull,hfree,edgeVisits] at h ⊢
  by_cases hfirst : search.minHops=0 ∧ search.full 1=true
  · rw [if_pos hfirst] at h ⊢
    rw [if_pos hfirst]
    exact ⟨0,rfl,fun _ => h,fun hlt => absurd hlt (Nat.not_lt_zero _)⟩
  · rw [if_neg hfirst] at h ⊢
    rw [if_neg hfirst]
    obtain ⟨reached,hrun,hpaths⟩ := exists_of_map h
    rw [←exploreCounted_fst _ 0] at hrun
    obtain ⟨⟨counted,visits⟩,hcounted,hsame⟩ := exists_of_map hrun
    have hstart : Beside work ⟨if search.minHops=0 then [(start,[])] else [],0,false⟩ 0
        ⟨if search.minHops=0 then [(start,[])] else [],work,false⟩ := ⟨rfl,rfl,rfl⟩
    obtain ⟨-,hwithin,habove⟩ := explore_follows hwork hstart (Nat.zero_le _) counted visits hcounted
    refine ⟨visits,?_,fun hle => ?_,fun hlt => ?_⟩
    · exact congrArg (Except.map Prod.snd) hcounted
    · obtain ⟨limited,hlimited,hbeside⟩ := hwithin hle
      have hresult := congrArg (Except.map SearchState.results) hlimited
      refine hresult.trans (congrArg Except.ok ?_)
      rw [←hpaths,←hsame]
      exact hbeside.1
    · exact congrArg (Except.map SearchState.results) (habove hlt)

theorem visitStep_total (search : PathSearch) (path : List PathStep) (s : SearchState×Frames) (candidate : PathStep×Properties) :
    ∃ s',visitStep (within search 0) path s candidate=.ok s' := by
  cases hs : s.1.stopped with
  | true => exact ⟨s,visitStep_stopped hs⟩
  | false => exact ⟨_,visitStep_eq hs fun hfree => hfree.1 rfl⟩

theorem explore_total (hsteps : ∀ u,∃ candidates,candidateSteps st labels direction u=.ok candidates)
    (search : PathSearch) (hops : Nat) (frame : NodeId×List PathStep) (s : SearchState) : ∃ s',explore st labels direction (within search 0) hops frame s=.ok s' := by
  induction hops generalizing frame s with
  | zero => exact ⟨s,rfl⟩
  | succ hops ih =>
    rw [explore]
    by_cases hstop : s.stopped=true
    · rw [if_pos hstop]
      exact ⟨s,rfl⟩
    · rw [if_neg hstop]
      obtain ⟨candidates,hcandidates⟩ := hsteps frame.1
      obtain ⟨visited,hvisited⟩ := foldlM_total (visitStep_total search frame.2) candidates (s,[])
      obtain ⟨s',hs'⟩ := foldlM_total (fun s opened => ih opened s) visited.2.reverse visited.1
      refine ⟨s',?_⟩
      rw [hcandidates]
      simp only [bind,Except.bind,hvisited]
      exact hs'

/-- Limits only cut a path search: a cap on the paths keeps the first of them; a budget of visits changes
nothing if the search without a budget needs no more visits, and else makes the search fail; a larger budget
does not fail where a smaller one does not. -/
def LimitsCut (st : Store) (start : NodeId) (labels : List String) (direction : Direction) (minHops maxHops : Nat)
    (filters : List (String×Value)) : Prop :=
  let run := fun maxResults work => traversePaths st start labels direction ⟨minHops,maxHops,filters,maxResults,work⟩
  ∃ paths,run none 0=.ok paths ∧ (∀ k,1≤k → run (some k) 0=.ok (paths.take k)) ∧
    ∀ maxResults,∃ visits,edgeVisits st labels direction ⟨minHops,maxHops,filters,maxResults,0⟩ start=.ok visits ∧
      (∀ work : UInt64,work≠0 → (visits≤ work.toNat → run maxResults work=run maxResults 0) ∧
        (work.toNat<visits → run maxResults work=.error (overBudget work))) ∧
      ∀ (work more : UInt64) found,work≠0 → work≤ more → run maxResults work=.ok found → run maxResults more=.ok found

/-- The limits of a path search on every store with consistent tables. -/
theorem traversePaths_limits (h : TablesAgree st) (start : NodeId) (labels : List String) (direction : Direction)
    (minHops maxHops : Nat) (filters : List (String×Value)) :
    LimitsCut st start labels direction minHops maxHops filters := by
  have hsteps : ∀ u,∃ candidates,candidateSteps st labels direction u=.ok candidates := fun u => by
    by_cases hall : labels=[]
    · obtain ⟨found,hfound,-⟩ := h.discoverLabels_spec direction u
      exact ⟨_,by rw [candidateSteps,if_pos hall,hfound]; rfl⟩
    · exact ⟨_,by rw [candidateSteps,if_neg hall]; rfl⟩
  have htotal : ∀ maxResults,∃ paths,
      traversePaths st start labels direction ⟨minHops,maxHops,filters,maxResults,0⟩=.ok paths := fun maxResults => by
    rw [traversePaths]
    dsimp only
    by_cases hfirst : minHops=0 ∧ PathSearch.full ⟨minHops,maxHops,filters,maxResults,0⟩ 1=true
    · rw [if_pos hfirst]
      exact ⟨_,rfl⟩
    · rw [if_neg hfirst]
      obtain ⟨reached,hreached⟩ := explore_total hsteps ⟨minHops,maxHops,filters,maxResults,0⟩ maxHops
        (start,[]) ⟨if minHops=0 then [(start,[])] else [],0,false⟩
      exact ⟨reached.results,congrArg (Except.map SearchState.results) hreached⟩
  obtain ⟨paths,hpaths⟩ := htotal none
  refine ⟨paths,hpaths,fun k hk => ?_,fun maxResults => ?_⟩
  · have hnone : ∀ k'∈(none : Option Nat),k≤k' := fun k' hk' => by cases hk'
    exact traversePaths_capped hnone hk hpaths
  · obtain ⟨free,hfree⟩ := htotal maxResults
    obtain ⟨visits,hvisits,-⟩ := traversePaths_within ⟨minHops,maxHops,filters,maxResults,0⟩
      (by decide : (1 : UInt64)≠0) start hfree
    have hrun : ∀ work : UInt64,work≠0 →
        (visits≤ work.toNat → traversePaths st start labels direction ⟨minHops,maxHops,filters,maxResults,work⟩=.ok free) ∧
        (work.toNat<visits → traversePaths st start labels direction ⟨minHops,maxHops,filters,maxResults,work⟩=
          .error (overBudget work)) := fun work hwork => by
      obtain ⟨visits',hvisits',hwithin,habove⟩ :=
        traversePaths_within ⟨minHops,maxHops,filters,maxResults,0⟩ hwork start hfree
      rw [hvisits] at hvisits'
      rw [←Except.ok.inj hvisits'] at hwithin habove
      exact ⟨hwithin,habove⟩
    refine ⟨visits,hvisits,fun work hwork => ⟨fun hle => ((hrun work hwork).1 hle).trans hfree.symm,
      (hrun work hwork).2⟩,fun work more found hwork hmore hfound => ?_⟩
    have hle : work.toNat≤ more.toNat := UInt64.le_iff_toNat_le.mp hmore
    have hmoreNe : more≠0 := by
      rintro rfl
      exact hwork (UInt64.toNat_inj.mp (Nat.le_zero.mp hle))
    have hvisitsLe : visits≤ work.toNat := by
      by_contra hlt
      have hfails := ((hrun work hwork).2 (by omega)).symm.trans hfound
      cases hfails
    have hsame := ((hrun work hwork).1 hvisitsLe).symm.trans hfound
    rw [←Except.ok.inj hsame]
    exact (hrun more hmoreNe).1 (hvisitsLe.trans hle)

/-- The limits of a search over two relationships between the same nodes. -/
theorem limits_mutualStore : LimitsCut mutualStore 1 [] .both 0 3 [] :=
  traversePaths_limits (tablesAgree_of_edgeInv edgeInv_mutualStore) 1 [] .both 0 3 []

end Search

end GraphDbLite.WorkBudget
