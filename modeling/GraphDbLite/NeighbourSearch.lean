import GraphDbLite.BreadthFirst
import GraphDbLite.EdgeConsistency
import GraphDbLite.LoopRuns
import GraphDbLite.Traversal

/-!
# Reachable nodes within a range of hops

The breadth-first searches queue every node once, at its distance from the start, and
report the neighbours of the nodes they take from the queue at the next depth. A node is
thus reported when one of its predecessors has a distance one below the range or within it.
A longer walk to a node that was seen before is not looked for, so the result is the set of
ends of walks in the range exactly when all of these have such a predecessor, as they have
when the range starts at most at one hop.
-/

namespace GraphDbLite.NeighbourSearch

open ByteStrings GraphTypes OrderedTable GraphStore AdjacencyEncoding EdgeStorage
open EdgeConsistency Traversal LoopRuns BreadthFirst

section Neighbours

/-- A stored relationship of a type leads from a node to another in a direction. -/
def Linked (st : Store) (label : String) : Direction → NodeId → NodeId → Prop
  | .outgoing,u,v => HasEdge st u v label
  | .incoming,u,v => HasEdge st v u label
  | .both,u,v => HasEdge st u v label ∨ HasEdge st v u label

theorem mem_addMissing (more base : List NodeId) (v : NodeId) :
    v∈more.foldl (fun result nid => if nid∈result then result else result++[nid]) base ↔ v∈base ∨ v∈more := by
  induction more generalizing base with
  | nil => simp
  | cons nid rest ih =>
    rw [List.foldl_cons,ih]
    by_cases hin : nid∈base
    · rw [if_pos hin,List.mem_cons]
      constructor
      · exact fun h => h.imp_right Or.inr
      · rintro (hbase|heq|hrest)
        · exact Or.inl hbase
        · exact Or.inl (heq ▸ hin)
        · exact Or.inr hrest
    · rw [if_neg hin,List.mem_append,List.mem_singleton,List.mem_cons,or_assoc]

theorem nodup_addMissing (more : List NodeId) {base : List NodeId} (h : base.Nodup) :
    (more.foldl (fun result nid => if nid∈result then result else result++[nid]) base).Nodup := by
  induction more generalizing base with
  | nil => exact h
  | cons nid rest ih =>
    rw [List.foldl_cons]
    by_cases hin : nid∈base
    · rw [if_pos hin]
      exact ih h
    · rw [if_neg hin]
      exact ih (List.nodup_append.mpr ⟨h,List.nodup_singleton nid,fun a ha b hb heq => hin
        (by rw [←List.mem_singleton.mp hb,←heq]; exact ha)⟩)

theorem nodup_adjIds {t : Table Bytes Bytes} (h : ∀ k data,get t k=some data →
    decodeIdList data≠[] ∧ (decodeIdList data).Pairwise (·<·)) (n : NodeId) (label : String) :
    (adjIds t n label).Nodup := by
  unfold adjIds
  cases hget : get t (adjKey n label) with
  | none => exact List.nodup_nil
  | some data => exact (h _ data hget).2.imp fun hlt => (ne_of_lt hlt)

variable {st : Store}

theorem mem_getNeighbors_of (hout : ∀ s d l,d∈adjIds st.adjOut s l ↔ HasEdge st s d l)
    (hin : ∀ s d l,s∈adjIds st.adjIn d l ↔ HasEdge st s d l) (label : String) (direction : Direction)
    (u v : NodeId) : v∈getNeighbors st u label direction ↔ Linked st label direction u v := by
  cases direction with
  | outgoing => exact hout u v label
  | incoming => exact hin v u label
  | both =>
    rw [getNeighbors,mem_addMissing,hout,hin]
    exact Iff.rfl

theorem nodup_getNeighbors_of (hout : ∀ k data,get st.adjOut k=some data →
      decodeIdList data≠[] ∧ (decodeIdList data).Pairwise (·<·))
    (hin : ∀ k data,get st.adjIn k=some data → decodeIdList data≠[] ∧ (decodeIdList data).Pairwise (·<·))
    (label : String) (direction : Direction) (u : NodeId) : (getNeighbors st u label direction).Nodup := by
  cases direction with
  | outgoing => exact nodup_adjIds hout u label
  | incoming => exact nodup_adjIds hin u label
  | both => exact nodup_addMissing _ (nodup_adjIds hout u label)

theorem mem_getNeighbors (h : EdgeConsistent st) (label : String) (direction : Direction) (u v : NodeId) :
    v∈getNeighbors st u label direction ↔ Linked st label direction u v :=
  mem_getNeighbors_of (fun s d l => (h.linked s d l).trans (h.stored s d l)) h.stored label direction u v

theorem nodup_getNeighbors (h : EdgeConsistent st) (label : String) (direction : Direction) (u : NodeId) :
    (getNeighbors st u label direction).Nodup :=
  nodup_getNeighbors_of h.outLists h.inLists label direction u

end Neighbours

/-- State of a breadth-first search. -/
structure BfsState (ρ : Type) where
  /-- Nodes that were queued. -/
  visited : List NodeId
  /-- Reported entries. -/
  result : List ρ
  /-- Nodes of the reported entries. -/
  inResult : List NodeId
  /-- Nodes to look at, with their depths. -/
  queue : List (NodeId×Nat)

section Search

variable {ρ : Type} (entry : NodeId → Nat → ρ) (st : Store) (start : NodeId) (label : String)
  (direction : Direction) (minHops maxHops : Nat) (maxResults : Option Nat)

/-- Queue a node that was not visited yet. -/
def BfsState.enqueue (s : BfsState ρ) (neighbor : NodeId) (depth : Nat) : BfsState ρ :=
  if s.visited.contains neighbor=true then s
  else {s with visited := s.visited++[neighbor],queue := s.queue++[(neighbor,depth)]}

/-- Report a node. -/
def BfsState.report (s : BfsState ρ) (neighbor : NodeId) (depth : Nat) : BfsState ρ :=
  {s with result := s.result++[entry neighbor depth],inResult := s.inResult++[neighbor]}

/-- Whether a number of results reaches the cap. -/
def reachesCap (count : Nat) : Bool :=
  match maxResults with
  | some cap => decide (cap≤ count)
  | none => false

/-- Look at one neighbour at a depth. -/
def lookAt (nextDepth : Nat) (s : BfsState ρ) (neighbor : NodeId) : BfsState ρ⊕List ρ :=
  if minHops≤nextDepth ∧ neighbor≠start ∧ s.inResult.contains neighbor=false then
    let reported := s.report entry neighbor nextDepth
    if reachesCap maxResults reported.result.length=true then .inr reported.result
    else .inl (reported.enqueue neighbor nextDepth)
  else .inl (s.enqueue neighbor nextDepth)

/-- Look at neighbours in order. -/
def lookAtAll (nextDepth : Nat) : List NodeId → BfsState ρ → BfsState ρ⊕List ρ
  | [],s => .inl s
  | neighbor::rest,s =>
    match lookAt entry start minHops maxResults nextDepth s neighbor with
    | .inl s' => lookAtAll nextDepth rest s'
    | .inr result => .inr result

/-- Take a node from the queue. -/
def bfsRound (s : BfsState ρ) : BfsState ρ⊕List ρ :=
  match s.queue with
  | [] => .inr s.result
  | (current,depth)::rest =>
    if maxHops≤depth then .inl {s with queue := rest}
    else lookAtAll entry start minHops maxResults (depth+1) (getNeighbors st current label direction)
      {s with queue := rest}

/-- The state before the search. -/
def bfsInitial : BfsState ρ := ⟨[start],[],[],[(start,0)]⟩

/-- Search with a bound on the rounds. -/
def bfs (n : Nat) : Option (List ρ) :=
  rounds (bfsRound entry st start label direction minHops maxHops maxResults) n (bfsInitial start)

/-- Nodes reachable within a range of hops. -/
def traverse (n : Nat) : Option (List NodeId) :=
  bfs (fun neighbor _ => neighbor) st start label direction minHops maxHops maxResults n

/-- The same with the depths at which they are found. -/
def traverseWithDepth (n : Nat) : Option (List (NodeId×Nat)) :=
  bfs (fun neighbor depth => (neighbor,depth)) st start label direction minHops maxHops maxResults n

end Search

section Meaning

variable (st : Store) (start : NodeId) (label : String) (direction : Direction) (minHops maxHops : Nat)

/-- A node other than the start that a walk in the range ends at. -/
def InRange (v : NodeId) : Prop :=
  v≠start ∧ ∃ k,minHops≤k ∧ k≤ maxHops ∧ Walk (Linked st label direction) start k v

/-- Both searches return the nodes in the range, each once. -/
structure TraversesRange : Prop where
  /-- Without depths. -/
  ids : ∃ n ids,NeighbourSearch.traverse st start label direction minHops maxHops none n=some ids ∧ ids.Nodup ∧
    ∀ v,v∈ids ↔ InRange st start label direction minHops maxHops v
  /-- With depths. -/
  depths : ∃ n pairs,traverseWithDepth st start label direction minHops maxHops none n=some pairs ∧
    (pairs.map Prod.fst).Nodup ∧ ∀ v,v∈pairs.map Prod.fst ↔ InRange st start label direction minHops maxHops v

/-- A relationship leads to a node from one whose distance plus one is in the range. -/
def HasNearPredecessor (v : NodeId) : Prop :=
  ∃ u d,AtDistance (Linked st label direction) start d u ∧ Linked st label direction u v ∧
    minHops≤d+1 ∧ d+1≤ maxHops

/-- All nodes in the range have such a predecessor. -/
def NearPredecessors : Prop :=
  ∀ v,InRange st start label direction minHops maxHops v →
    HasNearPredecessor st start label direction minHops maxHops v

end Meaning

section Invariant

variable {ρ : Type} (node : ρ → NodeId) (st : Store) (start : NodeId) (label : String)
  (direction : Direction) (minHops maxHops : Nat)

/-- What holds of a search between its rounds. -/
structure BfsInv (s : BfsState ρ) : Prop where
  /-- The visited nodes and the queue. -/
  searched : Searched (Linked st label direction) start maxHops (·∈s.visited) s.queue
  /-- The reported nodes are those of the entries. -/
  entries : s.inResult=s.result.map node
  /-- Nodes are reported once. -/
  distinct : s.inResult.Nodup
  /-- Reported nodes have a predecessor at a suitable distance. -/
  sound : ∀ v∈s.inResult,v≠start ∧ HasNearPredecessor st start label direction minHops maxHops v
  /-- Successors of nodes that have left the queue are reported in the range. -/
  complete : ∀ u d v,u∈s.visited → AtDistance (Linked st label direction) start d u → (u,d)∉s.queue →
    Linked st label direction u v → minHops≤d+1 → d+1≤ maxHops → v≠start → v∈s.inResult

/-- A search while the neighbours of a node from its queue are looked at. -/
def BfsState.holding (s : BfsState ρ) (current : NodeId) (depth : Nat) : BfsState ρ :=
  {s with queue := (current,depth)::s.queue}

variable {node st start label direction minHops maxHops} {s : BfsState ρ}

theorem bfsInv_initial : BfsInv node st start label direction minHops maxHops (bfsInitial start : BfsState ρ) := by
  have hseen : (fun v => v∈(bfsInitial start : BfsState ρ).visited)=fun v => v=start :=
    funext fun v => propext List.mem_singleton
  have hsearched : Searched (Linked st label direction) start maxHops
      (fun v => v∈(bfsInitial start : BfsState ρ).visited) [(start,0)] := by
    rw [hseen]
    exact searched_initial
  have hcomplete : ∀ u d v,u∈[start] → AtDistance (Linked st label direction) start d u → (u,d)∉[(start,0)] →
      Linked st label direction u v → minHops≤d+1 → d+1≤ maxHops → v≠start → v∈([] : List NodeId) := by
    intro u d v hu hdist hout
    rw [List.mem_singleton.mp hu] at hdist hout
    rw [atDistance_unique hdist atDistance_zero] at hout
    exact absurd List.mem_cons_self hout
  exact ⟨hsearched,rfl,List.nodup_nil,fun v hv => absurd hv List.not_mem_nil,hcomplete⟩

section Neighbour

variable {current neighbor : NodeId} {depth : Nat}

theorem contains_eq_false_iff {nodes : List NodeId} {v : NodeId} : nodes.contains v=false ↔ v∉nodes := by
  rw [←Bool.not_eq_true,List.contains_iff_mem]

theorem enqueue_visited (depth : Nat) (h : neighbor∈s.visited) : s.enqueue neighbor depth=s := by
  rw [BfsState.enqueue,if_pos (List.contains_iff_mem.mpr h)]

theorem enqueue_fresh (depth : Nat) (h : neighbor∉s.visited) : s.enqueue neighbor depth=
    {s with visited := s.visited++[neighbor],queue := s.queue++[(neighbor,depth)]} := by
  rw [BfsState.enqueue,if_neg (fun hin => h (List.contains_iff_mem.mp hin))]

theorem BfsInv.report {entry : NodeId → Nat → ρ} (hnode : ∀ v d,node (entry v d)=v)
    (h : BfsInv node st start label direction minHops maxHops (s.holding current depth))
    (hlink : Linked st label direction current neighbor) (hmin : minHops≤depth+1) (hmax : depth< maxHops)
    (hne : neighbor≠start) (hnew : neighbor∉s.inResult) :
    BfsInv node st start label direction minHops maxHops
      ((s.report entry neighbor (depth+1)).holding current depth) := by
  have hentries : s.inResult++[neighbor]=(s.result++[entry neighbor (depth+1)]).map node := by
    rw [List.map_append,←show s.inResult=s.result.map node from h.entries]
    rw [List.map_cons,List.map_nil,hnode]
  have hdistinct : (s.inResult++[neighbor]).Nodup := by
    refine List.nodup_append.mpr ⟨h.distinct,List.nodup_singleton neighbor,fun a ha b hb heq => hnew ?_⟩
    rw [←List.mem_singleton.mp hb,←heq]
    exact ha
  have hsound : ∀ v∈s.inResult++[neighbor],
      v≠start ∧ HasNearPredecessor st start label direction minHops maxHops v := by
    intro v hv
    rcases List.mem_append.mp hv with hold|hlast
    · exact h.sound v hold
    · rw [List.mem_singleton.mp hlast]
      have hfirst := (h.searched.queued (current,depth) List.mem_cons_self).2
      exact ⟨hne,current,depth,hfirst,hlink,hmin,hmax⟩
  exact ⟨h.searched,hentries,hdistinct,hsound,fun u d v hu hdist hout hstep hlow hhigh hv =>
    List.mem_append_left _ (h.complete u d v hu hdist hout hstep hlow hhigh hv)⟩

theorem BfsInv.enqueue (h : BfsInv node st start label direction minHops maxHops (s.holding current depth))
    (hlink : Linked st label direction current neighbor) (hmax : depth< maxHops) :
    BfsInv node st start label direction minHops maxHops
      ((s.enqueue neighbor (depth+1)).holding current depth) := by
  by_cases hseen : neighbor∈s.visited
  · rw [enqueue_visited _ hseen]
    exact h
  · rw [enqueue_fresh _ hseen]
    have hsearched : Searched (Linked st label direction) start maxHops (fun v => v∈s.visited++[neighbor])
        ((current,depth)::s.queue++[(neighbor,depth+1)]) :=
      h.searched.push hlink hseen hmax fun v => List.mem_append.trans (or_congr_right List.mem_singleton)
    have hfresh := h.searched.fresh_distance hlink hseen
    have hcomplete : ∀ u d v,u∈s.visited++[neighbor] → AtDistance (Linked st label direction) start d u →
        (u,d)∉(current,depth)::s.queue++[(neighbor,depth+1)] → Linked st label direction u v →
        minHops≤d+1 → d+1≤ maxHops → v≠start → v∈s.inResult := by
      intro u d v hu hdist hout
      rcases List.mem_append.mp hu with hold|hlast
      · exact h.complete u d v hold hdist fun hin => hout (List.mem_append_left _ hin)
      · rw [List.mem_singleton.mp hlast] at hdist hout
        rw [atDistance_unique hdist hfresh] at hout
        exact absurd (List.mem_append_right _ List.mem_cons_self) hout
    exact ⟨hsearched,h.entries,h.distinct,h.sound,hcomplete⟩

theorem mem_enqueue (s : BfsState ρ) (neighbor : NodeId) (depth : Nat) :
    neighbor∈(s.enqueue neighbor depth).visited := by
  by_cases hseen : neighbor∈s.visited
  · rw [enqueue_visited _ hseen]
    exact hseen
  · rw [enqueue_fresh _ hseen]
    exact List.mem_append_right _ List.mem_cons_self

theorem enqueue_keeps (s : BfsState ρ) (neighbor : NodeId) (depth : Nat) :
    s.visited⊆(s.enqueue neighbor depth).visited ∧ (s.enqueue neighbor depth).inResult=s.inResult := by
  by_cases hseen : neighbor∈s.visited
  · rw [enqueue_visited _ hseen]
    exact ⟨List.Subset.refl _,rfl⟩
  · rw [enqueue_fresh _ hseen]
    exact ⟨List.subset_append_left _ _,rfl⟩

theorem enqueue_queue (s : BfsState ρ) (neighbor : NodeId) (depth : Nat) : ∃ fresh : List NodeId,
    fresh.Sublist [neighbor] ∧ (s.enqueue neighbor depth).queue=s.queue++fresh.map fun v => (v,depth) := by
  by_cases hseen : neighbor∈s.visited
  · rw [enqueue_visited _ hseen]
    exact ⟨[],List.nil_sublist _,(List.append_nil _).symm⟩
  · rw [enqueue_fresh _ hseen]
    exact ⟨[neighbor],List.Sublist.refl _,rfl⟩

end Neighbour

section Round

variable {entry : NodeId → Nat → ρ} {current : NodeId} {depth : Nat}

/-- What looking at some neighbours of a node comes to. -/
structure LookedAt (node : ρ → NodeId) (st : Store) (start : NodeId) (label : String) (direction : Direction)
    (minHops maxHops : Nat) (current : NodeId) (depth : Nat) (neighbors : List NodeId) (s s' : BfsState ρ) : Prop where
  /-- The invariant holds again. -/
  inv : BfsInv node st start label direction minHops maxHops (s'.holding current depth)
  /-- The neighbours are visited. -/
  visited : ∀ v∈neighbors,v∈s'.visited
  /-- The neighbours are reported in the range. -/
  reported : minHops≤depth+1 → ∀ v∈neighbors,v≠start → v∈s'.inResult
  /-- Visited nodes stay. -/
  visitedStay : s.visited⊆s'.visited
  /-- Reported nodes stay. -/
  reportedStay : s.inResult⊆s'.inResult
  /-- The queue grows by some of the neighbours. -/
  grown : ∃ fresh : List NodeId,fresh.Sublist neighbors ∧ s'.queue=s.queue++fresh.map fun v => (v,depth+1)

theorem lookAt_spec (hnode : ∀ v d,node (entry v d)=v) {neighbor : NodeId}
    (h : BfsInv node st start label direction minHops maxHops (s.holding current depth))
    (hlink : Linked st label direction current neighbor) (hmax : depth< maxHops) :
    ∃ s',lookAt entry start minHops none (depth+1) s neighbor=.inl s' ∧
      LookedAt node st start label direction minHops maxHops current depth [neighbor] s s' := by
  by_cases hreport : minHops≤depth+1 ∧ neighbor≠start ∧ s.inResult.contains neighbor=false
  · have hkeeps := enqueue_keeps (s.report entry neighbor (depth+1)) neighbor (depth+1)
    have hin : neighbor∈((s.report entry neighbor (depth+1)).enqueue neighbor (depth+1)).inResult := by
      rw [hkeeps.2]
      exact List.mem_append_right _ List.mem_cons_self
    refine ⟨(s.report entry neighbor (depth+1)).enqueue neighbor (depth+1),?_,?_⟩
    · rw [lookAt,if_pos hreport]
      rfl
    · have hstay : s.inResult⊆((s.report entry neighbor (depth+1)).enqueue neighbor (depth+1)).inResult := by
        rw [hkeeps.2]
        exact List.subset_append_left _ _
      exact ⟨(h.report hnode hlink hreport.1 hmax hreport.2.1
          (contains_eq_false_iff.mp hreport.2.2)).enqueue hlink hmax,
        fun v hv => by rw [List.mem_singleton.mp hv]; exact mem_enqueue _ _ _,
        fun _ v hv _ => by rw [List.mem_singleton.mp hv]; exact hin,
        hkeeps.1,hstay,enqueue_queue _ _ _⟩
  · have hkeeps := enqueue_keeps s neighbor (depth+1)
    have hin : minHops≤depth+1 → ∀ v∈[neighbor],v≠start → v∈(s.enqueue neighbor (depth+1)).inResult := by
      intro hmin v hv hne
      rw [List.mem_singleton.mp hv] at hne ⊢
      rw [hkeeps.2]
      exact not_not.mp fun hnot => hreport ⟨hmin,hne,contains_eq_false_iff.mpr hnot⟩
    refine ⟨s.enqueue neighbor (depth+1),?_,?_⟩
    · rw [lookAt,if_neg hreport]
    · have hstay : s.inResult⊆(s.enqueue neighbor (depth+1)).inResult := by
        rw [hkeeps.2]
        exact List.Subset.refl _
      exact ⟨h.enqueue hlink hmax,fun v hv => by rw [List.mem_singleton.mp hv]; exact mem_enqueue _ _ _,
        hin,hkeeps.1,hstay,enqueue_queue _ _ _⟩

theorem lookAtAll_spec (hnode : ∀ v d,node (entry v d)=v) {neighbors : List NodeId}
    (h : BfsInv node st start label direction minHops maxHops (s.holding current depth))
    (hlinks : ∀ v∈neighbors,Linked st label direction current v) (hmax : depth< maxHops) :
    ∃ s',lookAtAll entry start minHops none (depth+1) neighbors s=.inl s' ∧
      LookedAt node st start label direction minHops maxHops current depth neighbors s s' := by
  induction neighbors generalizing s with
  | nil =>
    exact ⟨s,rfl,h,fun v hv => absurd hv List.not_mem_nil,fun _ v hv => absurd hv List.not_mem_nil,
      List.Subset.refl _,List.Subset.refl _,[],List.Sublist.refl _,(List.append_nil _).symm⟩
  | cons neighbor rest ih =>
    cases lookAt_spec hnode h (hlinks neighbor List.mem_cons_self) hmax with
    | intro s₁ hfirst =>
      cases ih hfirst.2.inv (fun v hv => hlinks v (List.mem_cons_of_mem _ hv)) with
      | intro s₂ hrest =>
        refine ⟨s₂,?_,hrest.2.inv,?_,?_,List.Subset.trans hfirst.2.visitedStay hrest.2.visitedStay,
          List.Subset.trans hfirst.2.reportedStay hrest.2.reportedStay,?_⟩
        · rw [lookAtAll,hfirst.1]
          exact hrest.1
        · intro v hv
          rcases List.mem_cons.mp hv with heq|hin
          · exact hrest.2.visitedStay (hfirst.2.visited v (heq ▸ List.mem_cons_self))
          · exact hrest.2.visited v hin
        · intro hmin v hv hne
          rcases List.mem_cons.mp hv with heq|hin
          · exact hrest.2.reportedStay (hfirst.2.reported hmin v (heq ▸ List.mem_cons_self) hne)
          · exact hrest.2.reported hmin v hin hne
        · have ⟨fresh₁,hsub₁,hqueue₁⟩ := hfirst.2.grown
          have ⟨fresh₂,hsub₂,hqueue₂⟩ := hrest.2.grown
          refine ⟨fresh₁++fresh₂,hsub₁.append hsub₂,?_⟩
          rw [hqueue₂,hqueue₁,List.map_append,List.append_assoc]

theorem BfsInv.release (h : BfsInv node st start label direction minHops maxHops (s.holding current depth))
    (hseen : depth< maxHops → ∀ v,Linked st label direction current v → v∈s.visited)
    (hreported : depth< maxHops → minHops≤depth+1 → ∀ v,Linked st label direction current v → v≠start →
      v∈s.inResult) : BfsInv node st start label direction minHops maxHops s := by
  have hcomplete : ∀ u d v,u∈s.visited → AtDistance (Linked st label direction) start d u → (u,d)∉s.queue →
      Linked st label direction u v → minHops≤d+1 → d+1≤ maxHops → v≠start → v∈s.inResult := by
    intro u d v hu hdist hout hstep hmin hmax hne
    by_cases hsame : (u,d)=(current,depth)
    · have hnode := congrArg Prod.fst hsame
      have hdepth := congrArg Prod.snd hsame
      dsimp only at hnode hdepth
      rw [hnode] at hstep
      rw [hdepth] at hmin hmax
      exact hreported hmax hmin v hstep hne
    · have hheld : (u,d)∉(current,depth)::s.queue := fun hin => (List.mem_cons.mp hin).elim hsame hout
      exact h.complete u d v hu hdist hheld hstep hmin hmax hne
  exact ⟨h.searched.pop hseen,h.entries,h.distinct,h.sound,hcomplete⟩

theorem holding_rest {first : NodeId×Nat} {rest : List (NodeId×Nat)} (hqueue : s.queue=first::rest) :
    BfsState.holding {s with queue := rest} first.1 first.2=s := by
  rw [BfsState.holding,←hqueue]

theorem bfsRound_cons {first : NodeId×Nat} {rest : List (NodeId×Nat)} (hqueue : s.queue=first::rest) :
    bfsRound entry st start label direction minHops maxHops none s=
      if maxHops≤first.2 then .inl {s with queue := rest}
      else lookAtAll entry start minHops none (first.2+1) (getNeighbors st first.1 label direction)
        {s with queue := rest} := by
  rw [bfsRound,hqueue]

variable (hnode : ∀ v d,node (entry v d)=v) (hst : EdgeConsistent st)

include hnode hst

/-- A round that goes on keeps the invariant and lowers the cost of the queue. -/
theorem bfsRound_step {s' : BfsState ρ} (h : BfsInv node st start label direction minHops maxHops s)
    (hround : bfsRound entry st start label direction minHops maxHops none s=.inl s') :
    BfsInv node st start label direction minHops maxHops s' ∧
      queueCost (getNeighbors st · label direction) maxHops s'.queue<
        queueCost (getNeighbors st · label direction) maxHops s.queue := by
  cases hqueue : s.queue with
  | nil =>
    rw [bfsRound,hqueue] at hround
    exact nomatch hround
  | cons first rest =>
    have hheld : BfsInv node st start label direction minHops maxHops
        (BfsState.holding {s with queue := rest} first.1 first.2) := by
      rw [holding_rest hqueue]
      exact h
    rw [bfsRound_cons hqueue] at hround
    by_cases hdeep : maxHops≤first.2
    · rw [if_pos hdeep] at hround
      rw [←Sum.inl.inj hround]
      exact ⟨hheld.release (fun hlt => absurd hdeep (Nat.not_le.mpr hlt))
        (fun hlt => absurd hdeep (Nat.not_le.mpr hlt)),queueCost_drop maxHops first rest⟩
    · rw [if_neg hdeep] at hround
      have hlt : first.2< maxHops := Nat.not_le.mp hdeep
      have hmem := mem_getNeighbors hst label direction first.1
      cases lookAtAll_spec hnode hheld (fun v hv => (hmem v).mp hv) hlt with
      | intro s₁ hlook =>
        rw [hlook.1] at hround
        rw [←Sum.inl.inj hround]
        have ⟨fresh,hsub,hgrown⟩ := hlook.2.grown
        refine ⟨hlook.2.inv.release (fun _ v hv => hlook.2.visited v ((hmem v).mpr hv))
          (fun _ hmin v hv hne => hlook.2.reported hmin v ((hmem v).mpr hv) hne),?_⟩
        rw [hgrown]
        exact queueCost_expand hlt first.1 rest hsub

/-- A round that ends the search returns the nodes with a suitable predecessor. -/
theorem bfsRound_end {result : List ρ} (h : BfsInv node st start label direction minHops maxHops s)
    (hround : bfsRound entry st start label direction minHops maxHops none s=.inr result) :
    (result.map node).Nodup ∧ ∀ v,v∈result.map node ↔
      v≠start ∧ HasNearPredecessor st start label direction minHops maxHops v := by
  cases hqueue : s.queue with
  | nil =>
    rw [bfsRound,hqueue] at hround
    rw [←Sum.inr.inj hround,←h.entries]
    have hsearched := h.searched
    rw [hqueue] at hsearched
    refine ⟨h.distinct,fun v => ⟨h.sound v,?_⟩⟩
    rintro ⟨hne,u,d,hdist,hlink,hmin,hmax⟩
    have hseen : u∈s.visited := (hsearched.seen_iff u).mpr ⟨d,Nat.le_of_succ_le hmax,hdist⟩
    exact h.complete u d v hseen hdist (by rw [hqueue]; exact List.not_mem_nil) hlink hmin hmax hne
  | cons first rest =>
    have hheld : BfsInv node st start label direction minHops maxHops
        (BfsState.holding {s with queue := rest} first.1 first.2) := by
      rw [holding_rest hqueue]
      exact h
    rw [bfsRound_cons hqueue] at hround
    by_cases hdeep : maxHops≤first.2
    · rw [if_pos hdeep] at hround
      exact nomatch hround
    · rw [if_neg hdeep] at hround
      have hmem := mem_getNeighbors hst label direction first.1
      cases lookAtAll_spec hnode hheld (fun v hv => (hmem v).mp hv) (Nat.not_le.mp hdeep) with
      | intro s₁ hlook =>
        rw [hlook.1] at hround
        exact nomatch hround

variable (start label direction minHops maxHops)

/-- A search without a cap returns the nodes with a suitable predecessor, each once. -/
theorem bfs_spec : ∃ result,
    Returns (bfsRound entry st start label direction minHops maxHops none) (bfsInitial start) result ∧
      (result.map node).Nodup ∧ ∀ v,v∈result.map node ↔
        v≠start ∧ HasNearPredecessor st start label direction minHops maxHops v :=
  returns_of_measure (BfsInv node st start label direction minHops maxHops)
    (fun s => queueCost (getNeighbors st · label direction) maxHops s.queue)
    (fun _ _ h hround => bfsRound_step hnode hst h hround) (fun _ _ h hround => bfsRound_end hnode hst h hround)
    bfsInv_initial

end Round

end Invariant

section Exactness

variable {st : Store} {start : NodeId} {label : String} {direction : Direction} {minHops maxHops : Nat}

theorem inRange_of_nearPredecessor {v : NodeId} (hne : v≠start)
    (h : HasNearPredecessor st start label direction minHops maxHops v) :
    InRange st start label direction minHops maxHops v := by
  have ⟨u,d,hdist,hlink,hmin,hmax⟩ := h
  exact ⟨hne,d+1,hmin,hmax,u,hdist.1,hlink⟩

theorem traverse_spec (hst : EdgeConsistent st) (start : NodeId) (label : String) (direction : Direction)
    (minHops maxHops : Nat) : ∃ ids,
      Returns (bfsRound (fun neighbor _ => neighbor) st start label direction minHops maxHops none)
        (bfsInitial start) ids ∧ ids.Nodup ∧ ∀ v,v∈ids ↔
          v≠start ∧ HasNearPredecessor st start label direction minHops maxHops v := by
  have hnode : ∀ neighbor depth,id ((fun v _ => v : NodeId → Nat → NodeId) neighbor depth)=neighbor :=
    fun _ _ => rfl
  have hspec := bfs_spec start label direction minHops maxHops hnode hst
  simp only [List.map_id] at hspec
  exact hspec

theorem traverseWithDepth_spec (hst : EdgeConsistent st) (start : NodeId) (label : String)
    (direction : Direction) (minHops maxHops : Nat) : ∃ pairs,
      Returns (bfsRound (fun neighbor depth => (neighbor,depth)) st start label direction minHops maxHops none)
        (bfsInitial start) pairs ∧ (pairs.map Prod.fst).Nodup ∧ ∀ v,v∈pairs.map Prod.fst ↔
          v≠start ∧ HasNearPredecessor st start label direction minHops maxHops v := by
  have hnode : ∀ neighbor depth,((fun v d => (v,d) : NodeId → Nat → NodeId×Nat) neighbor depth).1=neighbor :=
    fun _ _ => rfl
  exact bfs_spec start label direction minHops maxHops hnode hst

/-- A search that returns the nodes in the range finds a suitable predecessor for each. -/
theorem nearPredecessors_of_traversesRange (hst : EdgeConsistent st)
    (h : TraversesRange st start label direction minHops maxHops) :
    NearPredecessors st start label direction minHops maxHops := by
  intro v hv
  have ⟨n,ids,hrun,_,hids⟩ := h.ids
  have ⟨result,hreturns,_,hresult⟩ := traverse_spec hst start label direction minHops maxHops
  have hsame : ids=result := returns_unique ⟨n,hrun⟩ hreturns
  have hin : v∈result := by
    rw [←hsame]
    exact (hids v).mpr hv
  exact ((hresult v).mp hin).2

/-- Searches return the nodes in the range when each has a suitable predecessor. -/
theorem traversesRange_of_nearPredecessors (hst : EdgeConsistent st)
    (h : NearPredecessors st start label direction minHops maxHops) :
    TraversesRange st start label direction minHops maxHops := by
  have hrange : ∀ v,InRange st start label direction minHops maxHops v ↔
      v≠start ∧ HasNearPredecessor st start label direction minHops maxHops v := fun v =>
    ⟨fun hv => ⟨hv.1,h v hv⟩,fun hv => inRange_of_nearPredecessor hv.1 hv.2⟩
  constructor
  · have ⟨ids,⟨n,hrun⟩,hnodup,hids⟩ := traverse_spec hst start label direction minHops maxHops
    exact ⟨n,ids,hrun,hnodup,fun v => (hids v).trans (hrange v).symm⟩
  · have ⟨pairs,⟨n,hrun⟩,hnodup,hpairs⟩ := traverseWithDepth_spec hst start label direction minHops maxHops
    exact ⟨n,pairs,hrun,hnodup,fun v => (hpairs v).trans (hrange v).symm⟩

/-- Both searches return the ends of the walks in the range, each once, exactly when every
such node follows one whose distance plus one is in the range. -/
theorem traversesRange_iff (hst : EdgeConsistent st) (start : NodeId) (label : String) (direction : Direction)
    (minHops maxHops : Nat) : TraversesRange st start label direction minHops maxHops ↔
      NearPredecessors st start label direction minHops maxHops :=
  ⟨nearPredecessors_of_traversesRange hst,traversesRange_of_nearPredecessors hst⟩

theorem nearPredecessors_of_le_one (hmin : minHops≤1) : NearPredecessors st start label direction minHops maxHops := by
  rintro v ⟨hne,k,-,hmax,hwalk⟩
  cases exists_atDistance hwalk with
  | intro d hd =>
    cases d with
    | zero => exact absurd (eq_of_atDistance_zero hd.2) hne
    | succ d =>
      cases exists_pred hd.2 with
      | intro u hu => exact ⟨u,d,hu.1,hu.2,by omega,by omega⟩

end Exactness

section Cycle

/-- Two nodes with a relationship in either direction. -/
def mutualStore : Store := addEdge (addEdge freshStore 1 2 "R" []) 2 1 "R" []

theorem hasEdge_mutualStore (s d : NodeId) (l : String) :
    HasEdge mutualStore s d l ↔ (s=2 ∧ d=1 ∧ l="R") ∨ s=1 ∧ d=2 ∧ l="R" := by
  have hnone : ¬HasEdge freshStore s d l := fun h => h.elim fun _ hq => absurd hq List.not_mem_nil
  have hone : HasEdge (addEdge freshStore 1 2 "R" []) s d l ↔ s=1 ∧ d=2 ∧ l="R" :=
    (hasEdge_addEdge _ _ _ _ _ _ _ _).trans (or_iff_left hnone)
  exact (hasEdge_addEdge _ _ _ _ _ _ _ _).trans (or_congr_right hone)

theorem edgeInv_mutualStore : EdgeInv mutualStore := by
  have hname : isValidName "R"=true := by decide
  have hfirst := edgeInv_freshStore.addEdge 1 2 hname [] (by decide)
  have hcounter : edgeSeqCounter (addEdge freshStore 1 2 "R" [])≠0xFFFFFFFFFFFFFFFF := by
    rw [edgeSeqCounter_addEdge]
    decide
  exact hfirst.addEdge 2 1 hname [] hcounter

theorem edgeConsistent_mutualStore : EdgeConsistent mutualStore := edgeInv_mutualStore.consistent

/-- Within one and two hops the other node is found. -/
theorem traversesRange_mutualStore : TraversesRange mutualStore 1 "R" .both 1 2 :=
  (traversesRange_iff edgeConsistent_mutualStore 1 "R" .both 1 2).mpr (nearPredecessors_of_le_one le_rfl)

/-- At three hops it is not found. -/
theorem traverse_misses_longer_walk : ¬∀ st start label direction minHops maxHops,EdgeConsistent st →
    minHops≤ maxHops → TraversesRange st start label direction minHops maxHops := by
  intro h
  have hnear := nearPredecessors_of_traversesRange edgeConsistent_mutualStore
    (h mutualStore 1 "R" .outgoing 3 3 edgeConsistent_mutualStore le_rfl)
  have hthere : Linked mutualStore "R" .outgoing 1 2 := (hasEdge_mutualStore 1 2 "R").mpr (Or.inr ⟨rfl,rfl,rfl⟩)
  have hback : Linked mutualStore "R" .outgoing 2 1 := (hasEdge_mutualStore 2 1 "R").mpr (Or.inl ⟨rfl,rfl,rfl⟩)
  have hwalk : Walk (Linked mutualStore "R" .outgoing) 1 3 2 := ⟨1,⟨2,⟨1,rfl,hthere⟩,hback⟩,hthere⟩
  have ⟨u,d,hdist,hlink,hmin,_⟩ := hnear 2 ⟨by decide,3,le_rfl,le_rfl,hwalk⟩
  have hu : u=1 := by
    rcases (hasEdge_mutualStore u 2 "R").mp hlink with ⟨-,h21,-⟩|⟨hone,-,-⟩
    · exact absurd h21 (by decide)
    · exact hone
  rw [hu] at hdist
  have hzero := atDistance_unique hdist atDistance_zero
  omega

end Cycle

end GraphDbLite.NeighbourSearch
