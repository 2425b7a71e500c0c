import GraphDbLite.ShortestPaths
import Mathlib.Order.Bounds.Defs

/-!
# Depths of traversals

A traversal reports a node at the depth of the first look at it within the range: the least
depth in the range that is one more than the distance of a predecessor. Depths do not fall
along the result. From one hop on they are distances, the lengths of the paths that the
search for a shortest path finds.
-/

namespace GraphDbLite.TraversalDepths

open GraphTypes GraphStore EdgeStorage EdgeConsistency Traversal LoopRuns BreadthFirst NeighbourSearch ShortestPaths

section Mapped

variable {ρ ρ' : Type} (f : ρ → ρ') (entry : NodeId → Nat → ρ) (st : Store) (start : NodeId) (label : String)
  (direction : Direction) (minHops maxHops : Nat) (maxResults : Option Nat)

/-- A search with other entries for the reported nodes. -/
def relabel (s : BfsState ρ) : BfsState ρ' := ⟨s.visited,s.result.map f,s.inResult,s.queue⟩

theorem relabel_enqueue (s : BfsState ρ) (v : NodeId) (depth : Nat) :
    (relabel f s).enqueue v depth=relabel f (s.enqueue v depth) := by
  by_cases hseen : v∈s.visited
  · have hkept := enqueue_visited (s := relabel f s) depth hseen
    rw [hkept,enqueue_visited depth hseen]
  · have hfresh := enqueue_fresh (s := relabel f s) depth hseen
    rw [hfresh,enqueue_fresh depth hseen]
    rfl

theorem lookAt_map (depth : Nat) (s : BfsState ρ) (v : NodeId) :
    lookAt (fun v d => f (entry v d)) start minHops maxResults depth (relabel f s) v=
      (lookAt entry start minHops maxResults depth s v).map (relabel f) (List.map f) := by
  have hreport : (relabel f s).report (fun v d => f (entry v d)) v depth=relabel f (s.report entry v depth) := by
    rw [relabel,BfsState.report,BfsState.report,relabel,List.map_append]
    rfl
  have hlength : (relabel f (s.report entry v depth)).result.length=(s.report entry v depth).result.length :=
    List.length_map _
  have hin : (relabel f s).inResult=s.inResult := rfl
  by_cases hrange : minHops≤depth ∧ v≠start ∧ s.inResult.contains v=false
  · rw [lookAt,lookAt,hin,if_pos hrange,if_pos hrange]
    dsimp only
    rw [hreport,hlength]
    by_cases hcap : reachesCap maxResults (s.report entry v depth).result.length=true
    · rw [if_pos hcap,if_pos hcap]
      rfl
    · rw [if_neg hcap,if_neg hcap,relabel_enqueue]
      rfl
  · rw [lookAt,lookAt,hin,if_neg hrange,if_neg hrange,relabel_enqueue]
    rfl

theorem lookAtAll_map (depth : Nat) (neighbors : List NodeId) (s : BfsState ρ) :
    lookAtAll (fun v d => f (entry v d)) start minHops maxResults depth neighbors (relabel f s)=
      (lookAtAll entry start minHops maxResults depth neighbors s).map (relabel f) (List.map f) := by
  induction neighbors generalizing s with
  | nil => rfl
  | cons v rest ih =>
    rw [lookAtAll,lookAtAll,lookAt_map]
    cases lookAt entry start minHops maxResults depth s v with
    | inl s' => exact ih s'
    | inr result => rfl

/-- The entries of a search do not change what it does. -/
theorem bfs_map (n : Nat) : bfs (fun v d => f (entry v d)) st start label direction minHops maxHops maxResults n=
    (bfs entry st start label direction minHops maxHops maxResults n).map (List.map f) := by
  refine rounds_map (relabel f) (List.map f) (fun s => ?_) n (bfsInitial start)
  cases hqueue : s.queue with
  | nil =>
    rw [bfsRound,bfsRound,show (relabel f s).queue=[] from hqueue,hqueue]
    rfl
  | cons first rest =>
    rw [bfsRound,bfsRound,show (relabel f s).queue=first::rest from hqueue,hqueue]
    dsimp only
    by_cases hdeep : maxHops≤first.2
    · rw [if_pos hdeep,if_pos hdeep]
      rfl
    · rw [if_neg hdeep,if_neg hdeep]
      exact lookAtAll_map f entry start minHops maxResults _ _ {s with queue := rest}

end Mapped

section Depths

variable (st : Store) (start : NodeId) (label : String) (direction : Direction) (minHops maxHops : Nat)

/-- The depths in the range that are one more than the distance of a predecessor. -/
def LookDepths (v : NodeId) : Set Nat :=
  {depth | minHops≤depth ∧ depth≤ maxHops ∧ ∃ u d,depth=d+1 ∧ AtDistance (Linked st label direction) start d u ∧
    Linked st label direction u v}

/-- What holds of the depths that a search has reported. -/
structure DepthInv (s : BfsState (NodeId×Nat)) : Prop where
  /-- Nodes are reported at the least depth in the range. -/
  least : ∀ p∈s.result,IsLeast (LookDepths st start label direction minHops maxHops p.1) p.2
  /-- Depths do not fall. -/
  ordered : s.result.Pairwise fun p q => p.2≤q.2
  /-- Later reports are as deep. -/
  bounded : ∀ p∈s.result,∀ first∈s.queue,p.2≤first.2+1

variable {st start label direction minHops maxHops} {s s' : BfsState (NodeId×Nat)} {current neighbor : NodeId}
  {depth : Nat}

theorem enqueue_result (s : BfsState (NodeId×Nat)) (v : NodeId) (depth : Nat) :
    (s.enqueue v depth).result=s.result := by
  by_cases hseen : v∈s.visited
  · rw [enqueue_visited depth hseen]
  · rw [enqueue_fresh depth hseen]

theorem DepthInv.report (h : DepthInv st start label direction minHops maxHops (s.holding current depth))
    (hinv : BfsInv Prod.fst st start label direction minHops maxHops (s.holding current depth))
    (hlink : Linked st label direction current neighbor) (hmin : minHops≤depth+1) (hmax : depth< maxHops)
    (hne : neighbor≠start) (hnew : neighbor∉s.inResult) : DepthInv st start label direction minHops maxHops
      ((s.report (fun v d => (v,d)) neighbor (depth+1)).holding current depth) := by
  have hfirst := (hinv.searched.queued (current,depth) List.mem_cons_self).2
  have hleast : IsLeast (LookDepths st start label direction minHops maxHops neighbor) (depth+1) := by
    refine ⟨⟨hmin,hmax,current,depth,rfl,hfirst,hlink⟩,?_⟩
    rintro k ⟨hlow,hhigh,u,d,hk,hu,hstep⟩
    -- a nearer predecessor has left the queue, so its successors are reported
    by_contra hshort
    have hseen : u∈s.visited := hinv.searched.seen_of_near hu (by omega)
    have hgone : (u,d)∉(current,depth)::s.queue := fun hin => by
      have hle := (hinv.searched.first_le hin).1
      omega
    rw [hk] at hlow hhigh
    exact hnew (hinv.complete u d neighbor hseen hu hgone hstep hlow hhigh hne)
  refine ⟨fun p hp => ?_,?_,fun p hp first hqueued => ?_⟩
  · rcases List.mem_append.mp hp with hold|hlast
    · exact h.least p hold
    · rw [List.mem_singleton.mp hlast]
      exact hleast
  · refine List.pairwise_append.mpr ⟨h.ordered,List.pairwise_singleton _ _,fun p hp q hq => ?_⟩
    rw [List.mem_singleton.mp hq]
    exact h.bounded p hp (current,depth) List.mem_cons_self
  · rcases List.mem_append.mp hp with hold|hlast
    · exact h.bounded p hold first hqueued
    · rw [List.mem_singleton.mp hlast]
      exact Nat.succ_le_succ (hinv.searched.first_le hqueued).1

theorem DepthInv.enqueue (h : DepthInv st start label direction minHops maxHops (s.holding current depth))
    (neighbor : NodeId) : DepthInv st start label direction minHops maxHops
      ((s.enqueue neighbor (depth+1)).holding current depth) := by
  have hresult : ((s.enqueue neighbor (depth+1)).holding current depth).result=s.result :=
    enqueue_result s neighbor (depth+1)
  have hbounded : ∀ p∈s.result,∀ first∈(current,depth)::(s.enqueue neighbor (depth+1)).queue,p.2≤first.2+1 := by
    intro p hp first hfirst
    obtain ⟨fresh,-,hqueue⟩ := enqueue_queue s neighbor (depth+1)
    rw [hqueue,←List.cons_append] at hfirst
    rcases List.mem_append.mp hfirst with hold|hnew
    · exact h.bounded p hp first hold
    · obtain ⟨v,-,hv⟩ := List.mem_map.mp hnew
      rw [←hv]
      exact Nat.le_succ_of_le (h.bounded p hp (current,depth) List.mem_cons_self)
  constructor
  · rw [hresult]
    exact h.least
  · rw [hresult]
    exact h.ordered
  · rw [hresult]
    exact hbounded

theorem lookAt_depths (h : DepthInv st start label direction minHops maxHops (s.holding current depth))
    (hinv : BfsInv Prod.fst st start label direction minHops maxHops (s.holding current depth))
    (hlink : Linked st label direction current neighbor) (hmax : depth< maxHops)
    (hlook : lookAt (fun v d => (v,d)) start minHops none (depth+1) s neighbor=.inl s') :
    DepthInv st start label direction minHops maxHops (s'.holding current depth) := by
  by_cases hrange : minHops≤depth+1 ∧ neighbor≠start ∧ s.inResult.contains neighbor=false
  · rw [lookAt,if_pos hrange] at hlook
    rw [←Sum.inl.inj hlook]
    have hreport := h.report hinv hlink hrange.1 hmax hrange.2.1 (contains_eq_false_iff.mp hrange.2.2)
    exact hreport.enqueue neighbor
  · rw [lookAt,if_neg hrange] at hlook
    rw [←Sum.inl.inj hlook]
    exact h.enqueue neighbor

theorem lookAtAll_depths {neighbors : List NodeId}
    (h : DepthInv st start label direction minHops maxHops (s.holding current depth))
    (hinv : BfsInv Prod.fst st start label direction minHops maxHops (s.holding current depth))
    (hlinks : ∀ v∈neighbors,Linked st label direction current v) (hmax : depth< maxHops)
    (hlook : lookAtAll (fun v d => (v,d)) start minHops none (depth+1) neighbors s=.inl s') :
    DepthInv st start label direction minHops maxHops (s'.holding current depth) := by
  induction neighbors generalizing s with
  | nil =>
    rw [←Sum.inl.inj hlook]
    exact h
  | cons v rest ih =>
    have hlink := hlinks v List.mem_cons_self
    have hnode : ∀ v d,((fun v d => (v,d) : NodeId → Nat → NodeId×Nat) v d).1=v := fun _ _ => rfl
    obtain ⟨s₁,hfirst,hlooked⟩ := lookAt_spec hnode hinv hlink hmax
    rw [lookAtAll,hfirst] at hlook
    exact ih (lookAt_depths h hinv hlink hmax hfirst) hlooked.inv
      (fun w hw => hlinks w (List.mem_cons_of_mem _ hw)) hlook

/-- A round that goes on keeps the invariant of the depths. -/
theorem bfsRound_depths (hst : EdgeConsistent st) (h : DepthInv st start label direction minHops maxHops s)
    (hinv : BfsInv Prod.fst st start label direction minHops maxHops s)
    (hround : bfsRound (fun v d => (v,d)) st start label direction minHops maxHops none s=.inl s') :
    DepthInv st start label direction minHops maxHops s' := by
  have hrelease : ∀ {s₁ : BfsState (NodeId×Nat)} {u : NodeId} {d : Nat},
      DepthInv st start label direction minHops maxHops (s₁.holding u d) →
        DepthInv st start label direction minHops maxHops s₁ := fun hheld =>
    ⟨hheld.least,hheld.ordered,fun p hp first hfirst => hheld.bounded p hp first (List.mem_cons_of_mem _ hfirst)⟩
  cases hqueue : s.queue with
  | nil =>
    rw [bfsRound,hqueue] at hround
    cases hround
  | cons first rest =>
    rw [←holding_rest hqueue] at h hinv
    rw [bfsRound_cons hqueue] at hround
    by_cases hdeep : maxHops≤first.2
    · rw [if_pos hdeep] at hround
      rw [←Sum.inl.inj hround]
      exact hrelease h
    · rw [if_neg hdeep] at hround
      exact hrelease (lookAtAll_depths h hinv (fun v hv => (mem_getNeighbors hst label direction first.1 v).mp hv)
        (Nat.not_le.mp hdeep) hround)

theorem bfsRound_done (hst : EdgeConsistent st) {pairs : List (NodeId×Nat)}
    (hinv : BfsInv Prod.fst st start label direction minHops maxHops s)
    (hround : bfsRound (fun v d => (v,d)) st start label direction minHops maxHops none s=.inr pairs) :
    pairs=s.result := by
  cases hqueue : s.queue with
  | nil =>
    rw [bfsRound,hqueue] at hround
    exact (Sum.inr.inj hround).symm
  | cons first rest =>
    rw [←holding_rest hqueue] at hinv
    rw [bfsRound_cons hqueue] at hround
    by_cases hdeep : maxHops≤first.2
    · rw [if_pos hdeep] at hround
      cases hround
    · rw [if_neg hdeep] at hround
      have hnode : ∀ v d,((fun v d => (v,d) : NodeId → Nat → NodeId×Nat) v d).1=v := fun _ _ => rfl
      obtain ⟨s₁,hlook,-⟩ := lookAtAll_spec hnode hinv
        (fun v hv => (mem_getNeighbors hst label direction first.1 v).mp hv) (Nat.not_le.mp hdeep)
      rw [hlook] at hround
      cases hround

/-- A search reports each node at the least depth in the range, and no others. -/
theorem search_depths (hst : EdgeConsistent st) (start : NodeId) (label : String) (direction : Direction)
    (minHops maxHops : Nat) : ∃ pairs,
      Returns (bfsRound (fun v d => (v,d)) st start label direction minHops maxHops none) (bfsInitial start) pairs ∧
        (pairs.map Prod.fst).Nodup ∧ pairs.Pairwise (fun p q => p.2≤q.2) ∧
        ∀ v d,(v,d)∈pairs ↔ v≠start ∧ IsLeast (LookDepths st start label direction minHops maxHops v) d := by
  have hnode : ∀ v d,((fun v d => (v,d) : NodeId → Nat → NodeId×Nat) v d).1=v := fun _ _ => rfl
  have hinitial : DepthInv st start label direction minHops maxHops (bfsInitial start) :=
    ⟨fun p hp => absurd hp List.not_mem_nil,List.Pairwise.nil,fun p hp => absurd hp List.not_mem_nil⟩
  refine returns_of_measure
    (fun s => BfsInv Prod.fst st start label direction minHops maxHops s ∧
      DepthInv st start label direction minHops maxHops s)
    (fun s => queueCost (getNeighbors st · label direction) maxHops s.queue) ?_ ?_ ⟨bfsInv_initial,hinitial⟩
  · rintro s s' ⟨hinv,hdepths⟩ hround
    have hstep := bfsRound_step hnode hst hinv hround
    exact ⟨⟨hstep.1,bfsRound_depths hst hdepths hinv hround⟩,hstep.2⟩
  · rintro s pairs ⟨hinv,hdepths⟩ hround
    obtain ⟨hnodup,hmem⟩ := bfsRound_end hnode hst hinv hround
    have hresult := bfsRound_done hst hinv hround
    have hleasts : ∀ p∈pairs,IsLeast (LookDepths st start label direction minHops maxHops p.1) p.2 := by
      rw [hresult]
      exact hdepths.least
    have hordered : pairs.Pairwise fun p q => p.2≤q.2 := by
      rw [hresult]
      exact hdepths.ordered
    refine ⟨hnodup,hordered,fun v d => ⟨fun hp => ?_,?_⟩⟩
    · exact ⟨((hmem v).mp (List.mem_map_of_mem hp)).1,hleasts (v,d) hp⟩
    · rintro ⟨hne,hleast⟩
      obtain ⟨hlow,hhigh,u,k,hk,hu,hstep⟩ := hleast.1
      rw [hk] at hlow hhigh
      obtain ⟨⟨w,e⟩,hin,hw⟩ := List.mem_map.mp ((hmem v).mpr ⟨hne,u,k,hu,hstep,hlow,hhigh⟩)
      rw [show w=v from hw] at hin
      rw [hleast.unique (hleasts (v,e) hin)]
      exact hin

/-- From one hop on, the least depth in the range is the distance. -/
theorem isLeast_lookDepths_iff (hmin : minHops≤1) {v : NodeId} (hne : v≠start) (d : Nat) :
    IsLeast (LookDepths st start label direction minHops maxHops v) d ↔
      d≤ maxHops ∧ AtDistance (Linked st label direction) start d v := by
  have hlook : ∀ k,k≤ maxHops → AtDistance (Linked st label direction) start k v →
      k∈LookDepths st start label direction minHops maxHops v := by
    intro k hhigh hdist
    cases k with
    | zero => exact absurd (eq_of_atDistance_zero hdist) hne
    | succ k =>
      obtain ⟨u,hu,hstep⟩ := exists_pred hdist
      exact ⟨by omega,hhigh,u,k,rfl,hu,hstep⟩
  constructor
  · rintro ⟨⟨-,hhigh,u,k,hk,hu,hstep⟩,hlower⟩
    obtain ⟨j,hj,hdist⟩ := exists_atDistance_succ hu hstep
    have hle : d≤j := hlower (hlook j (by omega) hdist)
    rw [show d=j by omega]
    exact ⟨by omega,hdist⟩
  · rintro ⟨hhigh,hdist⟩
    refine ⟨hlook d hhigh hdist,?_⟩
    rintro e ⟨-,-,u,k,hk,hu,hstep⟩
    obtain ⟨j,hj,hnear⟩ := exists_atDistance_succ hu hstep
    rw [hk,atDistance_unique hdist hnear]
    exact hj

end Depths

section Agreement

variable {st : Store} (start : NodeId) (label : String) (direction : Direction)

/-- A traversal reports each node once, at the least depth in the range, by rising depth,
and the one without depths reports the same nodes in the same order. -/
theorem traversal_depths (hst : EdgeConsistent st) (minHops maxHops : Nat) : ∃ n,∃ pairs : List (NodeId×Nat),
    traverseWithDepth st start label direction minHops maxHops none n=some pairs ∧
      traverse st start label direction minHops maxHops none n=some (pairs.map Prod.fst) ∧
      (∀ v d,(v,d)∈pairs ↔ v≠start ∧ IsLeast (LookDepths st start label direction minHops maxHops v) d) ∧
      (pairs.map Prod.fst).Nodup ∧ pairs.Pairwise fun p q => p.2≤q.2 := by
  obtain ⟨pairs,⟨n,hn⟩,hnodup,hordered,hmem⟩ := search_depths hst start label direction minHops maxHops
  have hids := bfs_map Prod.fst (fun v d => (v,d)) st start label direction minHops maxHops none n
  exact ⟨n,pairs,hn,hids.trans (congrArg (Option.map (List.map Prod.fst)) hn),hmem,hnodup,hordered⟩

theorem traversal_depths_mutualStore : ∃ n,∃ pairs : List (NodeId×Nat),
    traverseWithDepth mutualStore 1 "R" .both 0 2 none n=some pairs ∧
      traverse mutualStore 1 "R" .both 0 2 none n=some (pairs.map Prod.fst) ∧
      (∀ v d,(v,d)∈pairs ↔ v≠1 ∧ IsLeast (LookDepths mutualStore 1 "R" .both 0 2 v) d) ∧
      (pairs.map Prod.fst).Nodup ∧ pairs.Pairwise fun p q => p.2≤q.2 :=
  traversal_depths 1 "R" .both edgeConsistent_mutualStore 0 2

/-- A traversal from one hop on reports a node at the length of the shortest path to it, and
only when one is found. -/
theorem traversal_shortestPath (hst : EdgeConsistent st) {target : NodeId} (hne : start≠target) {minHops : Nat}
    (hmin : minHops≤1) (maxHops : Nat) : ∃ n found pairs,
      shortestPath st start target label direction maxHops n=some (.ok found) ∧
        traverseWithDepth st start label direction minHops maxHops none n=some pairs ∧
        ∀ d,(target,d)∈pairs ↔ ∃ path,found=some path ∧ path.length=d+1 := by
  obtain ⟨result,⟨n,hn⟩,found,hresult,hpaths,hfound⟩ := @shortestPath_spec st start target label direction maxHops hst hne
  obtain ⟨pairs,⟨m,hm⟩,-,-,hmem⟩ := search_depths hst start label direction minHops maxHops
  rw [hresult] at hn
  refine ⟨n+m,found,pairs,?_,?_,fun d => ?_⟩
  · rw [shortestPath,if_neg hne]
    exact rounds_mono hn m
  · rw [Nat.add_comm]
    exact rounds_mono hm n
  · rw [hmem,and_iff_right hne.symm,isLeast_lookDepths_iff hmin hne.symm]
    constructor
    · intro hdist
      obtain ⟨path,hpath⟩ := Option.ne_none_iff_exists'.mp (hfound.mpr ⟨d,hdist⟩)
      obtain ⟨k,-,hk,-,hlength⟩ := hpaths path hpath
      rw [atDistance_unique hdist.2 hk]
      exact ⟨path,hpath,hlength⟩
    · rintro ⟨path,hpath,hlength⟩
      obtain ⟨k,hk,hdist,-,hsteps⟩ := hpaths path hpath
      rw [show d=k by omega]
      exact ⟨hk,hdist⟩

theorem traversal_shortestPath_mutualStore : ∃ n found pairs,
    shortestPath mutualStore 1 2 "R" .both 2 n=some (.ok found) ∧
      traverseWithDepth mutualStore 1 "R" .both 1 2 none n=some pairs ∧
      ∀ d,(2,d)∈pairs ↔ ∃ path,found=some path ∧ path.length=d+1 :=
  traversal_shortestPath 1 "R" .both edgeConsistent_mutualStore (by decide) le_rfl 2

end Agreement

end GraphDbLite.TraversalDepths
