import GraphDbLite.NeighbourSearch
import GraphDbLite.ShortestWalks
import Mathlib.Data.Prod.Lex

/-!
# Shortest paths between two nodes

The search for one path records the node from which each node was first seen, stops at the
target and follows the records back. The search for all paths records all nodes one step
nearer, no longer queues nodes once the target was seen, and follows the records back with
a stack. The target's distance bounds both searches, so the paths they return are the
shortest ones: one of them, and each of them once.
-/

namespace GraphDbLite.ShortestPaths

open GraphTypes StatefulActions GraphStore EdgeStorage
open EdgeConsistency Traversal LoopRuns BreadthFirst ShortestWalks NeighbourSearch

/-- A map without the key that is looked up. -/
structure MissingKey where
  /-- The key. -/
  key : NodeId

/-- Phases of the search for one path. -/
inductive PathPhase where
  /-- Nodes are taken from the queue. -/
  | searching (parent : NodeId → Option NodeId) (queue : List (NodeId×Nat))
  /-- The records are followed from the target. -/
  | tracing (parent : NodeId → Option NodeId) (cur : NodeId) (path : List NodeId)

/-- State of the search for all paths. -/
structure AllState where
  /-- Depths of the seen nodes. -/
  depthOf : NodeId → Option Nat
  /-- Nodes from which they are reached. -/
  parents : NodeId → Option (List NodeId)
  /-- Nodes to look at, with their depths. -/
  queue : List (NodeId×Nat)
  /-- Depth of the target when it was seen. -/
  foundDepth : Option Nat

/-- Phases of the search for all paths. -/
inductive AllPhase where
  /-- Nodes are taken from the queue. -/
  | searching (s : AllState)
  /-- Paths are completed from a stack. -/
  | collecting (parents : NodeId → Option (List NodeId)) (stack : List (NodeId×List NodeId))
    (paths : List (List NodeId))

section Searches

variable (st : Store) (start target : NodeId) (label : String) (direction : Direction) (maxHops : Nat)

/-- Record and queue unseen neighbours until the target is met. -/
def meet (current : NodeId) (depth : Nat) : List NodeId → (NodeId → Option NodeId) → List (NodeId×Nat) → PathPhase
  | [],parent,queue => .searching parent queue
  | neighbor::rest,parent,queue =>
    if (parent neighbor).isSome=true then meet current depth rest parent queue
    else if neighbor=target then .tracing (Function.update parent neighbor (some current)) target [target]
    else meet current depth rest (Function.update parent neighbor (some current)) (queue++[(neighbor,depth+1)])

/-- A round of the search for one path. -/
def pathRound : PathPhase → PathPhase⊕Except MissingKey (Option (List NodeId))
  | .searching _ [] => .inr (.ok none)
  | .searching parent ((current,depth)::rest) =>
    if maxHops≤depth then .inl (.searching parent rest)
    else .inl (meet target current depth (getNeighbors st current label direction) parent rest)
  | .tracing parent cur path =>
    if cur=start then .inr (.ok (some path.reverse))
    else
      match parent cur with
      | some next => .inl (.tracing parent next (path++[next]))
      | none => .inr (.error ⟨cur⟩)

/-- The state before the search for one path; the start is its own parent. -/
def pathInitial : PathPhase := .searching (Function.update (fun _ => none) start (some start)) [(start,0)]

/-- One shortest path. -/
def shortestPath (n : Nat) : Option (Except MissingKey (Option (List NodeId))) :=
  if start=target then some (.ok (some [start]))
  else rounds (pathRound st start target label direction maxHops) n (pathInitial start)

/-- Record a neighbour. -/
def AllState.visit (target current : NodeId) (nextDepth : Nat) (s : AllState) (neighbor : NodeId) : AllState :=
  match s.depthOf neighbor with
  | some existing =>
    if existing=nextDepth then
      {s with parents := Function.update s.parents neighbor (some ((s.parents neighbor).getD []++[current]))}
    else s
  | none =>
    let seen := {s with
      depthOf := Function.update s.depthOf neighbor (some nextDepth),
      parents := Function.update s.parents neighbor (some [current])}
    if neighbor=target then {seen with foundDepth := some nextDepth}
    else if s.foundDepth=none then {seen with queue := s.queue++[(neighbor,nextDepth)]}
    else seen

/-- Whether the target was seen at a depth or before. -/
def AllState.foundBy (s : AllState) (depth : Nat) : Bool :=
  match s.foundDepth with
  | some found => decide (found≤depth)
  | none => false

/-- A round of the search for all paths. The last entry of the stack comes first. -/
def allRound : AllPhase → AllPhase⊕List (List NodeId)
  | .searching s =>
    match s.queue with
    | [] => if s.depthOf target=none then .inr [] else .inl (.collecting s.parents [(target,[target])] [])
    | (current,depth)::rest =>
      if s.foundBy depth=true then .inl (.searching {s with queue := rest})
      else if maxHops≤depth then .inl (.searching {s with queue := rest})
      else .inl (.searching ((getNeighbors st current label direction).foldl
        (AllState.visit target current (depth+1)) {s with queue := rest}))
  | .collecting _ [] paths => .inr paths
  | .collecting parents ((node,path)::rest) paths =>
    if node=start then .inl (.collecting parents rest (paths++[path.reverse]))
    else
      match parents node with
      | some pars => .inl (.collecting parents (pars.foldl (fun stack p => (p,path++[p])::stack) rest) paths)
      | none => .inl (.collecting parents rest paths)

/-- The state before the search for all paths. -/
def allInitial : AllPhase :=
  .searching ⟨Function.update (fun _ => none) start (some 0),Function.update (fun _ => none) start (some []),
    [(start,0)],none⟩

/-- All shortest paths. -/
def allShortestPaths (n : Nat) : Option (List (List NodeId)) :=
  if start=target then some [[start]]
  else rounds (allRound st start target label direction maxHops) n (allInitial start)

/-- A sequence of neighbours from the start to the target whose length is their distance, within the limit. -/
def IsShortest (path : List NodeId) : Prop :=
  ∃ m,m≤ maxHops ∧ AtDistance (Linked st label direction) start m target ∧
    PathTo (Linked st label direction) start path target ∧ path.length=m+1

/-- Both searches are exact. -/
structure ShortestExact : Prop where
  /-- All shortest paths are returned, each once. -/
  all : ∃ n paths,allShortestPaths st start target label direction maxHops n=some paths ∧ paths.Nodup ∧
    ∀ path,path∈paths ↔ IsShortest st start target label direction maxHops path
  /-- One of them is returned, without a missing key, when there is one. -/
  one : ∃ n found,shortestPath st start target label direction maxHops n=some (.ok found) ∧
    (∀ path,found=some path → IsShortest st start target label direction maxHops path) ∧
    (found≠none ↔ ∃ m,m≤ maxHops ∧ AtDistance (Linked st label direction) start m target)
  /-- Nodes on the stack have records. -/
  recorded : ∀ parents stack paths,
    Reaches (allRound st start target label direction maxHops) (allInitial start) (.collecting parents stack paths) →
      ∀ entry∈stack,parents entry.1≠none

end Searches

section OnePath

variable (st : Store) (start target : NodeId) (label : String) (direction : Direction) (maxHops : Nat)

/-- Recorded nodes have a nearer recorded parent. -/
def Recorded (parent : NodeId → Option NodeId) : Prop :=
  ∀ v p,parent v=some p → v≠start → parent p≠none ∧ Nearer (Linked st label direction) start p v

/-- What holds between the rounds of the search for one path. -/
def PathInv : PathPhase → Prop
  | .searching parent queue =>
    Searched (Linked st label direction) start maxHops (fun v => parent v≠none) queue ∧
      parent target=none ∧ Recorded st start label direction parent
  | .tracing parent cur path =>
    Recorded st start label direction parent ∧ parent cur≠none ∧
      PathTo (Linked st label direction) cur path.reverse target ∧
      ∃ m d,m≤ maxHops ∧ AtDistance (Linked st label direction) start m target ∧
        AtDistance (Linked st label direction) start d cur ∧ path.length+d=m+1

/-- What the search for one path has left to do. -/
def pathMeasure : PathPhase → Nat
  | .searching _ queue => queueCost (getNeighbors st · label direction) maxHops queue+maxHops+1
  | .tracing _ _ path => maxHops+1-path.length

/-- What the search for one path returns. -/
def PathResult (result : Except MissingKey (Option (List NodeId))) : Prop :=
  ∃ found,result=.ok found ∧
    (∀ path,found=some path → IsShortest st start target label direction maxHops path) ∧
    (found≠none ↔ ∃ m,m≤ maxHops ∧ AtDistance (Linked st label direction) start m target)

variable {st start target label direction maxHops}

theorem pathTo_cons {step : NodeId → NodeId → Prop} {u v w : NodeId} {path : List NodeId} (h : PathTo step v path w)
    (hstep : step u v) : PathTo step u (u::path) w := by
  cases path with
  | nil => exact nomatch h.1
  | cons x rest =>
    have hx : x=v := Option.some.inj h.1
    have hlast : (u::x::rest).getLast?=some w := by
      rw [List.getLast?_cons_cons]
      exact h.2.1
    have hfirst : step u x := by
      rw [hx]
      exact hstep
    exact ⟨rfl,hlast,List.isChain_cons_cons.mpr ⟨hfirst,h.2.2⟩⟩

theorem Recorded.update {parent : NodeId → Option NodeId} {u v : NodeId}
    (h : Recorded st start label direction parent) (hu : parent u≠none) (hv : parent v=none)
    (hnear : Nearer (Linked st label direction) start u v) :
    Recorded st start label direction (Function.update parent v (some u)) := by
  have hkeep : ∀ p,parent p≠none → Function.update parent v (some u) p≠none := by
    intro p hp
    by_cases hpv : p=v
    · rw [hpv] at hp
      exact absurd hv hp
    · rw [Function.update_of_ne hpv]
      exact hp
  intro w p hw hne
  by_cases hwv : w=v
  · rw [hwv,Function.update_self] at hw
    rw [hwv,←Option.some.inj hw]
    exact ⟨hkeep u hu,hnear⟩
  · rw [Function.update_of_ne hwv] at hw
    have hold := h w p hw hne
    exact ⟨hkeep p hold.1,hold.2⟩

theorem update_ne_none {β : Type} (f : NodeId → Option β) (w : NodeId) (b : β) (v : NodeId) :
    Function.update f w (some b) v≠none ↔ f v≠none ∨ v=w := by
  by_cases hv : v=w
  · rw [hv,Function.update_self]
    exact iff_of_true nofun (Or.inr rfl)
  · rw [Function.update_of_ne hv]
    exact (or_iff_left hv).symm

section Meet

variable {current : NodeId} {depth : Nat} {parent : NodeId → Option NodeId} {queue : List (NodeId×Nat)}

theorem meet_spec {neighbors : List NodeId}
    (hs : Searched (Linked st label direction) start maxHops (fun v => parent v≠none) ((current,depth)::queue))
    (htarget : parent target=none) (hrec : Recorded st start label direction parent)
    (hlinks : ∀ v∈neighbors,Linked st label direction current v) (hlt : depth< maxHops) :
    (∃ parent',meet target current depth neighbors parent queue=.tracing parent' target [target] ∧
      PathInv st start target label direction maxHops (.tracing parent' target [target])) ∨
    ∃ parent',∃ fresh : List NodeId,meet target current depth neighbors parent queue=
        .searching parent' (queue++fresh.map fun v => (v,depth+1)) ∧ fresh.Sublist neighbors ∧
      Searched (Linked st label direction) start maxHops (fun v => parent' v≠none)
        ((current,depth)::queue++fresh.map fun v => (v,depth+1)) ∧
      parent' target=none ∧ Recorded st start label direction parent' ∧
      (∀ v,parent v≠none → parent' v≠none) ∧ ∀ v∈neighbors,parent' v≠none := by
  induction neighbors generalizing parent queue with
  | nil =>
    refine Or.inr ⟨parent,[],?_,List.Sublist.refl _,?_,htarget,hrec,fun _ h => h,fun v hv => absurd hv List.not_mem_nil⟩
    · rw [meet,List.map_nil,List.append_nil]
    · rw [List.map_nil,List.append_nil]
      exact hs
  | cons neighbor rest ih =>
    have hlink := hlinks neighbor List.mem_cons_self
    have hrest : ∀ v∈rest,Linked st label direction current v := fun v hv => hlinks v (List.mem_cons_of_mem _ hv)
    by_cases hseen : (parent neighbor).isSome=true
    · have hskip : meet target current depth (neighbor::rest) parent queue=
          meet target current depth rest parent queue := by rw [meet,if_pos hseen]
      rw [hskip]
      rcases ih hs htarget hrec hrest with hfound|⟨parent',fresh,hmeet,hsub,hs',htarget',hrec',hkeep,hall⟩
      · exact Or.inl hfound
      · refine Or.inr ⟨parent',fresh,hmeet,hsub.cons neighbor,hs',htarget',hrec',hkeep,fun v hv => ?_⟩
        rcases List.mem_cons.mp hv with heq|hin
        · rw [heq]
          exact hkeep neighbor (Option.isSome_iff_ne_none.mp hseen)
        · exact hall v hin
    · have hnone : parent neighbor=none := Option.not_isSome_iff_eq_none.mp hseen
      have hfresh : ¬(fun v => parent v≠none) neighbor := not_not_intro hnone
      have hdist := hs.fresh_distance hlink hfresh
      have hfirst := hs.queued (current,depth) List.mem_cons_self
      have hnear : Nearer (Linked st label direction) start current neighbor := ⟨depth,hfirst.2,hdist,hlink⟩
      have hrec' := hrec.update hfirst.1 hnone hnear
      by_cases htarg : neighbor=target
      · have hfind : meet target current depth (neighbor::rest) parent queue=
            .tracing (Function.update parent neighbor (some current)) target [target] := by
          rw [meet,if_neg hseen,if_pos htarg]
        have hknown : Function.update parent neighbor (some current) target≠none :=
          (update_ne_none parent neighbor current target).mpr (Or.inr htarg.symm)
        rw [htarg] at hdist
        exact Or.inl ⟨_,hfind,hrec',hknown,pathTo_singleton,depth+1,depth+1,hlt,hdist,hdist,Nat.add_comm _ _⟩
      · have hstep : meet target current depth (neighbor::rest) parent queue=
            meet target current depth rest (Function.update parent neighbor (some current))
              (queue++[(neighbor,depth+1)]) := by rw [meet,if_neg hseen,if_neg htarg]
        have hpush : Searched (Linked st label direction) start maxHops
            (fun v => Function.update parent neighbor (some current) v≠none)
            ((current,depth)::(queue++[(neighbor,depth+1)])) :=
          hs.push hlink hfresh hlt (update_ne_none parent neighbor current)
        have htarget' : Function.update parent neighbor (some current) target=none := by
          rw [Function.update_of_ne (Ne.symm htarg)]
          exact htarget
        rw [hstep]
        rcases ih hpush htarget' hrec' hrest with hfound|⟨parent',fresh,hmeet,hsub,hs',htarg',hrec'',hkeep,hall⟩
        · exact Or.inl hfound
        · have hqueue : queue++[(neighbor,depth+1)]++fresh.map (fun v => (v,depth+1))=
              queue++(neighbor::fresh).map fun v => (v,depth+1) := by rw [List.append_assoc]; rfl
          rw [List.cons_append,hqueue] at hs'
          rw [hqueue] at hmeet
          refine Or.inr ⟨parent',neighbor::fresh,hmeet,hsub.cons_cons neighbor,hs',htarg',hrec'',fun v hv => ?_,
            fun v hv => ?_⟩
          · exact hkeep v ((update_ne_none parent neighbor current v).mpr (Or.inl hv))
          · rcases List.mem_cons.mp hv with heq|hin
            · exact hkeep v ((update_ne_none parent neighbor current v).mpr (Or.inr heq))
            · exact hall v hin

end Meet

theorem pathRound_step (hst : EdgeConsistent st) {s s' : PathPhase} (h : PathInv st start target label direction maxHops s)
    (hround : pathRound st start target label direction maxHops s=.inl s') :
    PathInv st start target label direction maxHops s' ∧
      pathMeasure st label direction maxHops s'<pathMeasure st label direction maxHops s := by
  cases s with
  | searching parent queue =>
    cases queue with
    | nil => exact nomatch hround
    | cons first rest =>
      have ⟨hs,htarget,hrec⟩ := h
      rw [pathRound] at hround
      by_cases hdeep : maxHops≤first.2
      · rw [if_pos hdeep] at hround
        rw [←Sum.inl.inj hround]
        have hdrop : queueCost (getNeighbors st · label direction) maxHops rest<
            queueCost (getNeighbors st · label direction) maxHops (first::rest) := queueCost_drop maxHops first rest
        refine ⟨⟨hs.pop fun hlt => absurd hdeep (Nat.not_le.mpr hlt),htarget,hrec⟩,?_⟩
        simp only [pathMeasure]
        omega
      · rw [if_neg hdeep] at hround
        rw [←Sum.inl.inj hround]
        have hlt : first.2< maxHops := Nat.not_le.mp hdeep
        have hmem := mem_getNeighbors hst label direction first.1
        rcases meet_spec hs htarget hrec (fun v hv => (hmem v).mp hv) hlt with
          ⟨parent',hfound,hinv⟩|⟨parent',fresh,hmeet,hsub,hs',htarget',hrec',-,hall⟩
        · rw [hfound]
          refine ⟨hinv,?_⟩
          simp only [pathMeasure,List.length_singleton]
          omega
        · rw [hmeet]
          have hexpand : queueCost (getNeighbors st · label direction) maxHops (rest++fresh.map fun v => (v,first.2+1))<
              queueCost (getNeighbors st · label direction) maxHops (first::rest) :=
            queueCost_expand hlt first.1 rest hsub
          refine ⟨⟨hs'.pop fun _ v hv => hall v ((hmem v).mpr hv),htarget',hrec'⟩,?_⟩
          simp only [pathMeasure]
          omega
  | tracing parent cur path =>
    have ⟨hrec,hcur,hpath,m,d,hm,htarget,hdist,hlength⟩ := h
    rw [pathRound] at hround
    by_cases hstart : cur=start
    · rw [if_pos hstart] at hround
      exact nomatch hround
    · rw [if_neg hstart] at hround
      cases hparent : parent cur with
      | none => exact absurd hparent hcur
      | some p =>
        rw [hparent] at hround
        rw [←Sum.inl.inj hround]
        have ⟨hp,hnear⟩ := hrec cur p hparent hstart
        cases d with
        | zero => exact absurd (eq_of_atDistance_zero hdist) hstart
        | succ d =>
          have hpd := hnear.distance hdist
          have ⟨_,_,_,hstep⟩ := hnear
          have hlonger : (path++[p]).length+d=m+1 := by
            rw [List.length_append,List.length_singleton]
            omega
          have hpath' : PathTo (Linked st label direction) p (path++[p]).reverse target := by
            rw [List.reverse_append]
            exact pathTo_cons hpath hstep
          refine ⟨⟨hrec,hp,hpath',m,d,hm,htarget,hpd,hlonger⟩,?_⟩
          simp only [pathMeasure,List.length_append,List.length_singleton]
          omega

/-- A round that ends the search returns a shortest path, or none beyond the limit. -/
theorem pathRound_end {s : PathPhase} {result : Except MissingKey (Option (List NodeId))}
    (h : PathInv st start target label direction maxHops s)
    (hround : pathRound st start target label direction maxHops s=.inr result) :
    PathResult st start target label direction maxHops result := by
  cases s with
  | searching parent queue =>
    cases queue with
    | nil =>
      have ⟨hs,htarget,_⟩ := h
      rw [←Sum.inr.inj hround]
      refine ⟨none,rfl,nofun,iff_of_false (not_not_intro rfl) ?_⟩
      exact fun hnear => (hs.seen_iff target).mpr hnear htarget
    | cons first rest =>
      rw [pathRound] at hround
      by_cases hdeep : maxHops≤first.2
      · rw [if_pos hdeep] at hround
        exact nomatch hround
      · rw [if_neg hdeep] at hround
        exact nomatch hround
  | tracing parent cur path =>
    have ⟨hrec,hcur,hpath,m,d,hm,htarget,hdist,hlength⟩ := h
    rw [pathRound] at hround
    by_cases hstart : cur=start
    · rw [if_pos hstart] at hround
      rw [←Sum.inr.inj hround]
      rw [hstart] at hpath hdist
      have hzero := atDistance_unique hdist atDistance_zero
      refine ⟨some path.reverse,rfl,fun found hfound => ?_,iff_of_true nofun ⟨m,hm,htarget⟩⟩
      rw [←Option.some.inj hfound]
      refine ⟨m,hm,htarget,hpath,?_⟩
      rw [List.length_reverse]
      omega
    · rw [if_neg hstart] at hround
      cases hparent : parent cur with
      | none => exact absurd hparent hcur
      | some p =>
        rw [hparent] at hround
        exact nomatch hround

/-- The search for one path returns a shortest one when the target is within the limit. -/
theorem shortestPath_spec (hst : EdgeConsistent st) (hne : start≠target) : ∃ result,
    Returns (pathRound st start target label direction maxHops) (pathInitial start) result ∧
      PathResult st start target label direction maxHops result := by
  have hinitial : PathInv st start target label direction maxHops (pathInitial start) := by
    have hseen : (fun v => Function.update (fun _ => none) start (some start) v≠none)=fun v => v=start :=
      funext fun v => propext ((update_ne_none _ start start v).trans (or_iff_right (not_not_intro rfl)))
    have hrec : Recorded st start label direction (Function.update (fun _ => none) start (some start)) := by
      intro v p hv hstart
      rw [Function.update_of_ne hstart] at hv
      exact nomatch hv
    refine ⟨?_,Function.update_of_ne hne.symm _ _,hrec⟩
    rw [hseen]
    exact searched_initial
  exact returns_of_measure (PathInv st start target label direction maxHops)
    (pathMeasure st label direction maxHops) (fun _ _ h hround => pathRound_step hst h hround)
    (fun _ _ h hround => pathRound_end h hround) hinitial

end OnePath

section AllPaths

variable (st : Store) (start target : NodeId) (label : String) (direction : Direction) (maxHops : Nat)

/-- The depth that the search for all paths goes to: the target's distance, or the limit. -/
def DepthLimit (lim : Nat) : Prop :=
  lim≤ maxHops ∧ (AtDistance (Linked st label direction) start lim target ∨
    lim=maxHops ∧ ∀ m,m≤ maxHops → ¬AtDistance (Linked st label direction) start m target)

/-- What holds of a search for all paths. -/
structure AllInv (lim : Nat) (s : AllState) (queue : List (NodeId×Nat)) (extra : NodeId → NodeId → Prop) :
    Prop where
  /-- The seen nodes and the queue. -/
  searched : Searched (Linked st label direction) start lim (fun v => s.depthOf v≠none) queue
  /-- Depths are distances. -/
  depths : ∀ v d,s.depthOf v=some d → AtDistance (Linked st label direction) start d v
  /-- The recorded parents. -/
  parented : Parented (Linked st label direction) start (fun v => s.depthOf v≠none) queue extra s.parents
  /-- The target was seen at the limit, from the last depth. -/
  found : ∀ d,s.foundDepth=some d → d=lim ∧ ∀ entry∈queue,lim≤entry.2+1
  /-- It was not seen otherwise. -/
  unfound : s.foundDepth=none ↔ s.depthOf target=none

variable {st start target label direction maxHops}

variable (st start target label direction maxHops) in
theorem exists_depthLimit : ∃ lim,DepthLimit st start target label direction maxHops lim := by
  by_cases hnear : ∃ m,m≤ maxHops ∧ AtDistance (Linked st label direction) start m target
  · cases hnear with
    | intro m hm => exact ⟨m,hm.1,Or.inl hm.2⟩
  · exact ⟨maxHops,le_rfl,Or.inr ⟨rfl,fun m hm hdist => hnear ⟨m,hm,hdist⟩⟩⟩

variable {lim : Nat}

theorem DepthLimit.eq (h : DepthLimit st start target label direction maxHops lim) {m : Nat} (hm : m≤ maxHops)
    (hdist : AtDistance (Linked st label direction) start m target) : m=lim := by
  rcases h.2 with hlim|hfar
  · exact atDistance_unique hdist hlim
  · exact absurd hdist (hfar.2 m hm)

section Visit

variable {s : AllState} {current neighbor : NodeId} {depth : Nat} {looked : NodeId → Prop}

/-- What recording some neighbours of a node comes to. -/
structure Visited (st : Store) (start target : NodeId) (label : String) (direction : Direction) (lim : Nat)
    (current : NodeId) (depth : Nat) (looked : NodeId → Prop) (neighbors : List NodeId) (s s' : AllState) : Prop where
  /-- The invariant holds again. -/
  inv : AllInv st start target label direction lim s' ((current,depth)::s'.queue)
    fun p v => p=current ∧ (looked v ∨ v∈neighbors)
  /-- Seen nodes stay seen. -/
  stay : ∀ v,s.depthOf v≠none → s'.depthOf v≠none
  /-- The neighbours are seen. -/
  seen : ∀ v∈neighbors,s'.depthOf v≠none
  /-- The queue grows by some of the neighbours. -/
  grown : ∃ fresh : List NodeId,fresh.Sublist neighbors ∧ s'.queue=s.queue++fresh.map fun v => (v,depth+1)

theorem AllInv.visit (h : AllInv st start target label direction lim s ((current,depth)::s.queue)
      fun p v => p=current ∧ looked v)
    (hlimit : DepthLimit st start target label direction maxHops lim)
    (hlink : Linked st label direction current neighbor) (hlt : depth<lim) (hnew : ¬looked neighbor) :
    Visited st start target label direction lim current depth looked [neighbor] s
      (s.visit target current (depth+1) neighbor) := by
  have hlooked : (fun p v => p=current ∧ (looked v ∨ v=neighbor))=fun p v => p=current ∧ (looked v ∨ v∈[neighbor]) :=
    funext fun p => funext fun v => by rw [List.mem_singleton]
  cases hdepth : s.depthOf neighbor with
  | some existing =>
    have hexisting := h.depths neighbor existing hdepth
    have hseen : ∀ v∈[neighbor],s.depthOf v≠none := by
      intro v hv
      rw [List.mem_singleton.mp hv,hdepth]
      exact Option.some_ne_none existing
    have hgrown : ∃ fresh : List NodeId,fresh.Sublist [neighbor] ∧
        s.queue=s.queue++fresh.map fun v => (v,depth+1) := ⟨[],List.nil_sublist _,(List.append_nil _).symm⟩
    by_cases hsame : existing=depth+1
    · rw [hsame] at hexisting
      have hvisit : s.visit target current (depth+1) neighbor={s with
          parents := Function.update s.parents neighbor (some ((s.parents neighbor).getD []++[current]))} := by
        simp only [AllState.visit,hdepth,if_pos hsame]
      rw [hvisit]
      have hparented := h.parented.again h.searched hlink hexisting hnew
        (Function.update_self neighbor (some ((s.parents neighbor).getD []++[current])) s.parents)
        fun v hv => Function.update_of_ne hv _ _
      rw [hlooked] at hparented
      exact ⟨⟨h.searched,h.depths,hparented,h.found,h.unfound⟩,fun _ hv => hv,hseen,hgrown⟩
    · have hvisit : s.visit target current (depth+1) neighbor=s := by
        simp only [AllState.visit,hdepth,if_neg hsame]
      rw [hvisit]
      have hparented := h.parented.skip h.searched fun hdist => hsame (atDistance_unique hexisting hdist)
      rw [hlooked] at hparented
      exact ⟨⟨h.searched,h.depths,hparented,h.found,h.unfound⟩,fun _ hv => hv,hseen,hgrown⟩
  | none =>
    have hfresh : ¬(fun v => s.depthOf v≠none) neighbor := not_not_intro hdepth
    have hdist := h.searched.fresh_distance hlink hfresh
    have hseen' := update_ne_none s.depthOf neighbor (depth+1)
    have hdepths : ∀ v d,Function.update s.depthOf neighbor (some (depth+1)) v=some d →
        AtDistance (Linked st label direction) start d v := by
      intro v d hv
      by_cases hvn : v=neighbor
      · rw [hvn,Function.update_self] at hv
        rw [hvn,←Option.some.inj hv]
        exact hdist
      · rw [Function.update_of_ne hvn] at hv
        exact h.depths v d hv
    have hstay : ∀ v,s.depthOf v≠none → Function.update s.depthOf neighbor (some (depth+1)) v≠none :=
      fun v hv => (hseen' v).mpr (Or.inl hv)
    have hseen : ∀ v∈[neighbor],Function.update s.depthOf neighbor (some (depth+1)) v≠none :=
      fun v hv => (hseen' v).mpr (Or.inr (List.mem_singleton.mp hv))
    have hparents := Function.update_self neighbor (some [current]) s.parents
    have hothers : ∀ v,v≠neighbor → Function.update s.parents neighbor (some [current]) v=s.parents v :=
      fun v hv => Function.update_of_ne hv _ _
    have hkept : ∃ fresh : List NodeId,fresh.Sublist [neighbor] ∧
        s.queue=s.queue++fresh.map fun v => (v,depth+1) := ⟨[],List.nil_sublist _,(List.append_nil _).symm⟩
    by_cases htarget : neighbor=target
    · have hvisit : s.visit target current (depth+1) neighbor={s with
          depthOf := Function.update s.depthOf neighbor (some (depth+1)),
          parents := Function.update s.parents neighbor (some [current]),
          foundDepth := some (depth+1)} := by
        simp only [AllState.visit,hdepth,if_pos htarget]
      rw [hvisit]
      have hlast : depth+1=lim := by
        rw [htarget] at hdist
        exact hlimit.eq (le_trans hlt hlimit.1) hdist
      have hparented := h.parented.fresh h.searched hlink hfresh hlt hseen' (Or.inr ⟨rfl,hlast⟩) hparents hothers
      rw [hlooked] at hparented
      have hfound : ∀ d,some (depth+1)=some d → d=lim ∧ ∀ entry∈(current,depth)::s.queue,lim≤entry.2+1 := by
        intro d hd
        refine ⟨(Option.some.inj hd).symm.trans hlast,fun entry hentry => ?_⟩
        rw [←hlast]
        exact Nat.succ_le_succ (h.searched.first_le hentry).1
      have hunfound : some (depth+1)=none ↔ Function.update s.depthOf neighbor (some (depth+1)) target=none := by
        rw [htarget,Function.update_self]
      exact ⟨⟨h.searched.see hlink hfresh hlast hseen',hdepths,hparented,hfound,hunfound⟩,hstay,hseen,hkept⟩
    · have hunfound : s.foundDepth=none ↔ Function.update s.depthOf neighbor (some (depth+1)) target=none := by
        rw [Function.update_of_ne (Ne.symm htarget)]
        exact h.unfound
      cases hfd : s.foundDepth with
      | none =>
        have hvisit : s.visit target current (depth+1) neighbor={s with
            depthOf := Function.update s.depthOf neighbor (some (depth+1)),
            parents := Function.update s.parents neighbor (some [current]),
            queue := s.queue++[(neighbor,depth+1)]} := by
          simp only [AllState.visit,hdepth,if_neg htarget,if_pos hfd]
        rw [hvisit]
        have hparented := h.parented.fresh h.searched hlink hfresh hlt hseen' (Or.inl rfl) hparents hothers
        rw [hlooked] at hparented
        have hfound : ∀ d,s.foundDepth=some d →
            d=lim ∧ ∀ entry∈(current,depth)::(s.queue++[(neighbor,depth+1)]),lim≤entry.2+1 := by
          intro d hd
          rw [hfd] at hd
          exact nomatch hd
        exact ⟨⟨h.searched.push hlink hfresh hlt hseen',hdepths,hparented,hfound,hunfound⟩,hstay,hseen,
          [neighbor],List.Sublist.refl _,rfl⟩
      | some d =>
        have hvisit : s.visit target current (depth+1) neighbor={s with
            depthOf := Function.update s.depthOf neighbor (some (depth+1)),
            parents := Function.update s.parents neighbor (some [current])} := by
          have hsome : ¬s.foundDepth=none := by
            rw [hfd]
            exact Option.some_ne_none d
          simp only [AllState.visit,hdepth,if_neg htarget,if_neg hsome]
        rw [hvisit]
        have hlast : depth+1=lim := by
          have hle : lim≤depth+1 := (h.found d hfd).2 (current,depth) List.mem_cons_self
          omega
        have hparented := h.parented.fresh h.searched hlink hfresh hlt hseen' (Or.inr ⟨rfl,hlast⟩) hparents hothers
        rw [hlooked] at hparented
        exact ⟨⟨h.searched.see hlink hfresh hlast hseen',hdepths,hparented,h.found,hunfound⟩,hstay,hseen,hkept⟩

theorem AllInv.visitAll {neighbors : List NodeId}
    (h : AllInv st start target label direction lim s ((current,depth)::s.queue) fun p v => p=current ∧ looked v)
    (hlimit : DepthLimit st start target label direction maxHops lim)
    (hlinks : ∀ v∈neighbors,Linked st label direction current v) (hlt : depth<lim)
    (hnew : ∀ v∈neighbors,¬looked v) (hnodup : neighbors.Nodup) :
    Visited st start target label direction lim current depth looked neighbors s
      (neighbors.foldl (AllState.visit target current (depth+1)) s) := by
  induction neighbors generalizing s looked with
  | nil =>
    have hlooked : (fun p v => p=current ∧ looked v)=fun p v => p=current ∧ (looked v ∨ v∈([] : List NodeId)) :=
      funext fun p => funext fun v => by rw [or_iff_left List.not_mem_nil]
    rw [hlooked] at h
    exact ⟨h,fun _ hv => hv,fun v hv => absurd hv List.not_mem_nil,[],List.Sublist.refl _,(List.append_nil _).symm⟩
  | cons neighbor rest ih =>
    have hfirst := h.visit hlimit (hlinks neighbor List.mem_cons_self) hlt (hnew neighbor List.mem_cons_self)
    have hparts := List.nodup_cons.mp hnodup
    have hnew' : ∀ v∈rest,¬(looked v ∨ v∈[neighbor]) := by
      rintro v hv (hl|hn)
      · exact hnew v (List.mem_cons_of_mem _ hv) hl
      · rw [List.mem_singleton.mp hn] at hv
        exact hparts.1 hv
    have hrest := ih hfirst.inv (fun v hv => hlinks v (List.mem_cons_of_mem _ hv)) hnew' hparts.2
    have hlooked : (fun p v => p=current ∧ ((looked v ∨ v∈[neighbor]) ∨ v∈rest))=
        fun p v => p=current ∧ (looked v ∨ v∈neighbor::rest) :=
      funext fun p => funext fun v => by rw [or_assoc,List.mem_singleton,List.mem_cons]
    have hinv := hrest.inv
    rw [hlooked] at hinv
    refine ⟨hinv,fun v hv => hrest.stay v (hfirst.stay v hv),fun v hv => ?_,?_⟩
    · rcases List.mem_cons.mp hv with heq|hin
      · exact hrest.stay v (hfirst.seen v (List.mem_singleton.mpr heq))
      · exact hrest.seen v hin
    · have ⟨fresh₁,hsub₁,hqueue₁⟩ := hfirst.grown
      have ⟨fresh₂,hsub₂,hqueue₂⟩ := hrest.grown
      refine ⟨fresh₁++fresh₂,hsub₁.append hsub₂,?_⟩
      rw [List.foldl_cons,hqueue₂,hqueue₁,List.map_append,List.append_assoc]

end Visit

section Rounds

variable (st : Store) (start target : NodeId) (label : String) (direction : Direction) (maxHops : Nat)

/-- Recorded parents as lists. -/
def parentList (parents : NodeId → Option (List NodeId)) (v : NodeId) : List NodeId := (parents v).getD []

/-- The paths that an entry of the stack will be completed to. -/
def completions (parents : NodeId → Option (List NodeId)) (lim : Nat) (entry : NodeId×List NodeId) :
    List (List NodeId) :=
  (suffixes (parentList parents) (lim+1-entry.2.length) entry.1).map fun s => (entry.2++s).reverse

/-- What holds between the rounds of the search for all paths. -/
def PhaseInv (lim : Nat) : AllPhase → Prop
  | .searching s => AllInv st start target label direction lim s s.queue fun _ _ => False
  | .collecting parents stack paths =>
    Complete (Linked st label direction) start lim (parentList parents) ∧
      AtDistance (Linked st label direction) start lim target ∧
      (∀ k v,k≤lim → AtDistance (Linked st label direction) start k v → parents v≠none) ∧
      (∀ entry∈stack,∃ d,AtDistance (Linked st label direction) start d entry.1 ∧ entry.2.length+d=lim+1 ∧ d≤lim) ∧
      paths++stack.flatMap (completions parents lim)=completions parents lim (target,[target])

/-- What the search for all paths has left to do. -/
def phaseMeasure (lim : Nat) : AllPhase → Lex (Nat×Nat)
  | .searching s => toLex (queueCost (getNeighbors st · label direction) lim s.queue+1,0)
  | .collecting parents stack _ =>
    toLex (0,queueCost (parentList parents) (lim+1) (stack.map fun entry => (entry.1,entry.2.length)))

variable {st start target label direction maxHops} {lim : Nat}

theorem foldl_push (path pars : List NodeId) (stack : List (NodeId×List NodeId)) :
    pars.foldl (fun stack p => (p,path++[p])::stack) stack=(pars.map fun p => (p,path++[p])).reverse++stack := by
  induction pars generalizing stack with
  | nil => rfl
  | cons p rest ih =>
    rw [List.foldl_cons,ih,List.map_cons,List.reverse_cons,List.append_assoc]
    rfl

variable {parents : NodeId → Option (List NodeId)} {s : AllState} {queue : List (NodeId×Nat)} {current : NodeId}
  {depth : Nat}

theorem completions_start {path : List NodeId} (h : path.length=lim+1) :
    completions parents lim (start,path)=[path.reverse] := by
  have hzero : lim+1-path.length=0 := by omega
  rw [completions,hzero,suffixes,List.map_singleton,List.append_nil]

theorem completions_parents {node : NodeId} {path pars : List NodeId} {d : Nat} (h : path.length+(d+1)=lim+1)
    (hpars : parents node=some pars) : completions parents lim (node,path)=
    (pars.map fun p => (p,path++[p])).reverse.flatMap (completions parents lim) := by
  have hlong : lim+1-path.length=d+1 := by omega
  have hnext : ∀ p,completions parents lim (p,path++[p])=
      (suffixes (parentList parents) d p).map fun s => (path++p::s).reverse := by
    intro p
    have hshort : lim+1-(path++[p]).length=d := by
      rw [List.length_append,List.length_singleton]
      omega
    rw [completions,hshort]
    simp only [List.append_assoc,List.singleton_append]
  have hlist : parentList parents node=pars := by rw [parentList,hpars]; rfl
  rw [completions,hlong,suffixes,hlist,List.map_flatMap,←List.map_reverse,List.flatMap_map]
  refine List.flatMap_congr fun p _ => ?_
  rw [hnext,List.map_map]
  rfl

theorem AllInv.before_limit
    (h : AllInv st start target label direction lim s ((current,depth)::queue) fun _ _ => False)
    (hlimit : DepthLimit st start target label direction maxHops lim) (hfound : ¬s.foundBy depth=true)
    (hdeep : ¬maxHops≤depth) : depth<lim := by
  by_contra hnot
  have hle : lim≤depth := Nat.not_lt.mp hnot
  rcases hlimit.2 with hat|hfar
  · have hseen : s.depthOf target≠none := h.searched.seen_of_near hat hle
    cases hfd : s.foundDepth with
    | none => exact hseen (h.unfound.mp hfd)
    | some found =>
      refine hfound ?_
      rw [AllState.foundBy,hfd,(h.found found hfd).1]
      exact decide_eq_true hle
  · rw [hfar.1] at hle
    exact hdeep hle

theorem AllInv.at_limit {extra : NodeId → NodeId → Prop}
    (h : AllInv st start target label direction lim s queue extra)
    (hlimit : DepthLimit st start target label direction maxHops lim)
    (hdrop : s.foundBy depth=true ∨ maxHops≤depth) : lim≤depth := by
  rcases hdrop with hfound|hdeep
  · rw [AllState.foundBy] at hfound
    cases hfd : s.foundDepth with
    | none =>
      rw [hfd] at hfound
      exact nomatch hfound
    | some found =>
      rw [hfd] at hfound
      rw [←(h.found found hfd).1]
      exact of_decide_eq_true hfound
  · exact le_trans hlimit.1 hdeep

/-- A node leaves the queue when its neighbours were looked at, or at the limit. -/
theorem AllInv.release {looked : NodeId → Prop}
    (h : AllInv st start target label direction lim s ((current,depth)::queue) fun p v => p=current ∧ looked v)
    (hseen : depth<lim → ∀ v,Linked st label direction current v → s.depthOf v≠none)
    (hlooked : depth<lim → ∀ v,Linked st label direction current v → looked v) :
    AllInv st start target label direction lim s queue fun _ _ => False :=
  ⟨h.searched.pop hseen,h.depths,h.parented.pop h.searched hlooked,fun d hd =>
    ⟨(h.found d hd).1,fun entry hentry => (h.found d hd).2 entry (List.mem_cons_of_mem _ hentry)⟩,h.unfound⟩

theorem AllInv.begin (h : AllInv st start target label direction lim s ((current,depth)::queue) fun _ _ => False)
    : AllInv st start target label direction lim {s with queue := queue}
    ((current,depth)::queue) fun p v => p=current ∧ (fun _ => False) v := by
  have hextra : (fun p (v : NodeId) => p=current ∧ (fun _ => False) v)=fun _ _ => False :=
    funext fun p => funext fun v => eq_false And.right
  rw [hextra]
  exact ⟨h.searched,h.depths,h.parented,h.found,h.unfound⟩

theorem allRound_searching (hst : EdgeConsistent st) {next : AllPhase}
    (hlimit : DepthLimit st start target label direction maxHops lim)
    (h : PhaseInv st start target label direction lim (.searching s))
    (hround : allRound st start target label direction maxHops (.searching s)=.inl next) :
    PhaseInv st start target label direction lim next ∧
    phaseMeasure st label direction lim next<phaseMeasure st label direction lim (.searching s) := by
  have hinv : AllInv st start target label direction lim s s.queue fun _ _ => False := h
  cases hqueue : s.queue with
  | nil =>
    rw [hqueue] at hinv
    by_cases hnone : s.depthOf target=none
    · rw [allRound,hqueue] at hround
      dsimp only at hround
      rw [if_pos hnone] at hround
      exact nomatch hround
    · rw [allRound,hqueue] at hround
      dsimp only at hround
      rw [if_neg hnone] at hround
      rw [←Sum.inl.inj hround]
      have hdist : AtDistance (Linked st label direction) start lim target := by
        have ⟨d,hd,hat⟩ := (hinv.searched.seen_iff target).mp hnone
        rw [←hlimit.eq (le_trans hd hlimit.1) hat]
        exact hat
      have hrecorded : ∀ k v,k≤lim → AtDistance (Linked st label direction) start k v → s.parents v≠none := by
        intro k v hk hv
        have ⟨ps,hps,_⟩ := hinv.parented v ((hinv.searched.seen_iff v).mpr ⟨k,hk,hv⟩)
        rw [hps]
        exact Option.some_ne_none ps
      have hstack : ∀ entry∈[(target,[target])],∃ d,
          AtDistance (Linked st label direction) start d entry.1 ∧ entry.2.length+d=lim+1 ∧ d≤lim := by
        intro entry hentry
        rw [List.mem_singleton.mp hentry]
        exact ⟨lim,hdist,Nat.add_comm 1 lim,le_rfl⟩
      refine ⟨⟨hinv.parented.complete hinv.searched,hdist,hrecorded,hstack,?_⟩,?_⟩
      · rw [List.nil_append,List.flatMap_singleton]
      · exact Prod.Lex.toLex_lt_toLex.mpr (Or.inl (Nat.succ_pos _))
  | cons first rest =>
    rw [hqueue] at hinv
    rw [allRound,hqueue] at hround
    dsimp only at hround
    have hdropped : lim≤first.2 → PhaseInv st start target label direction lim (.searching {s with queue := rest}) ∧
        phaseMeasure st label direction lim (.searching {s with queue := rest})<
          phaseMeasure st label direction lim (.searching s) := by
      intro hle
      refine ⟨(hinv.begin).release (fun hlt => absurd hle (Nat.not_le.mpr hlt))
        (fun hlt => absurd hle (Nat.not_le.mpr hlt)),Prod.Lex.toLex_lt_toLex.mpr (Or.inl ?_)⟩
      dsimp only
      rw [hqueue]
      exact Nat.succ_lt_succ (queueCost_drop lim first rest)
    by_cases hfound : s.foundBy first.2=true
    · rw [if_pos hfound] at hround
      rw [←Sum.inl.inj hround]
      exact hdropped (hinv.at_limit hlimit (Or.inl hfound))
    · rw [if_neg hfound] at hround
      by_cases hdeep : maxHops≤first.2
      · rw [if_pos hdeep] at hround
        rw [←Sum.inl.inj hround]
        exact hdropped (hinv.at_limit hlimit (Or.inr hdeep))
      · rw [if_neg hdeep] at hround
        rw [←Sum.inl.inj hround]
        have hlt := hinv.before_limit hlimit hfound hdeep
        have hmem := mem_getNeighbors hst label direction first.1
        have hvisited := hinv.begin.visitAll hlimit (fun v hv => (hmem v).mp hv) hlt (fun _ _ => id)
          (nodup_getNeighbors hst label direction first.1)
        refine ⟨hvisited.inv.release (fun _ v hv => hvisited.seen v ((hmem v).mpr hv))
          (fun _ v hv => Or.inr ((hmem v).mpr hv)),Prod.Lex.toLex_lt_toLex.mpr (Or.inl ?_)⟩
        have ⟨fresh,hsub,hgrown⟩ := hvisited.grown
        dsimp only
        rw [hgrown,hqueue]
        exact Nat.succ_lt_succ (queueCost_expand hlt first.1 rest hsub)

theorem allRound_collecting {stack : List (NodeId×List NodeId)} {paths : List (List NodeId)} {next : AllPhase}
    (h : PhaseInv st start target label direction lim (.collecting parents stack paths))
    (hround : allRound st start target label direction maxHops (.collecting parents stack paths)=.inl next) :
    PhaseInv st start target label direction lim next ∧
    phaseMeasure st label direction lim next<phaseMeasure st label direction lim (.collecting parents stack paths) := by
  cases stack with
  | nil => exact nomatch hround
  | cons entry rest =>
    have ⟨hcomplete,htarget,hrecorded,hstack,htotal⟩ := h
    have ⟨d,hdist,hlength,hle⟩ := hstack entry List.mem_cons_self
    rw [List.flatMap_cons] at htotal
    rw [allRound] at hround
    by_cases hstart : entry.1=start
    · rw [if_pos hstart] at hround
      rw [←Sum.inl.inj hround]
      rw [hstart] at hdist
      have hzero := atDistance_unique hdist atDistance_zero
      have hown : completions parents lim entry=[entry.2.reverse] :=
        completions_start (by omega)
      rw [hown,←List.append_assoc] at htotal
      refine ⟨⟨hcomplete,htarget,hrecorded,fun e he => hstack e (List.mem_cons_of_mem _ he),htotal⟩,?_⟩
      exact Prod.Lex.toLex_lt_toLex.mpr (Or.inr ⟨rfl,queueCost_drop (lim+1) (entry.1,entry.2.length) _⟩)
    · rw [if_neg hstart] at hround
      cases d with
      | zero => exact absurd (eq_of_atDistance_zero hdist) hstart
      | succ d =>
        cases hpars : parents entry.1 with
        | none => exact absurd hpars (hrecorded (d+1) entry.1 hle hdist)
        | some pars =>
          rw [hpars] at hround
          rw [←Sum.inl.inj hround,foldl_push]
          have hlist : parentList parents entry.1=pars := by rw [parentList,hpars]; rfl
          have hentries : ∀ e∈(pars.map fun p => (p,entry.2++[p])).reverse++rest,∃ k,
              AtDistance (Linked st label direction) start k e.1 ∧ e.2.length+k=lim+1 ∧ k≤lim := by
            intro e he
            rcases List.mem_append.mp he with hnew|hold
            · have ⟨p,hp,hpe⟩ := List.mem_map.mp (List.mem_reverse.mp hnew)
              rw [←hlist] at hp
              have hnear := (hcomplete.nearer (d+1) entry.1 hle hdist p).mp hp
              rw [←hpe]
              refine ⟨d,hnear.distance hdist,?_,Nat.le_of_succ_le hle⟩
              rw [List.length_append,List.length_singleton]
              omega
            · exact hstack e (List.mem_cons_of_mem _ hold)
          have hsplit : completions parents lim entry=
              (pars.map fun p => (p,entry.2++[p])).reverse.flatMap (completions parents lim) :=
            completions_parents hlength hpars
          rw [hsplit,←List.flatMap_append] at htotal
          refine ⟨⟨hcomplete,htarget,hrecorded,hentries,htotal⟩,Prod.Lex.toLex_lt_toLex.mpr (Or.inr ⟨rfl,?_⟩)⟩
          have hqueue : ((pars.map fun p => (p,entry.2++[p])).reverse++rest).map (fun e => (e.1,e.2.length))=
              (pars.map fun p => (p,entry.2.length+1)).reverse++rest.map fun e => (e.1,e.2.length) := by
            rw [List.map_append,List.map_reverse,List.map_map]
            simp only [Function.comp_def,List.length_append,List.length_singleton]
          have hperm : ((pars.map fun p => (p,entry.2.length+1)).reverse++rest.map fun e => (e.1,e.2.length)).Perm
              ((rest.map fun e => (e.1,e.2.length))++pars.map fun p => (p,entry.2.length+1)) :=
            List.perm_append_comm.trans ((List.reverse_perm _).append_left _)
          have hlt : entry.2.length<lim+1 := by omega
          have hcost := queueCost_expand hlt entry.1 (rest.map fun e => (e.1,e.2.length))
            (List.Sublist.refl (parentList parents entry.1))
          rw [hlist] at hcost
          rw [hqueue,queueCost_perm hperm]
          exact hcost

/-- A round of the search for all paths keeps the invariant and leaves less to do. -/
theorem allRound_step (hst : EdgeConsistent st) (hlimit : DepthLimit st start target label direction maxHops lim)
    {phase next : AllPhase} (h : PhaseInv st start target label direction lim phase)
    (hround : allRound st start target label direction maxHops phase=.inl next) :
    PhaseInv st start target label direction lim next ∧
      phaseMeasure st label direction lim next<phaseMeasure st label direction lim phase := by
  cases phase with
  | searching s => exact allRound_searching hst hlimit h hround
  | collecting parents stack paths => exact allRound_collecting h hround

theorem completions_target (hlimit : DepthLimit st start target label direction maxHops lim)
    (hcomplete : Complete (Linked st label direction) start lim (parentList parents))
    (hdist : AtDistance (Linked st label direction) start lim target) :
    (completions parents lim (target,[target])).Nodup ∧ ∀ path, path∈completions parents lim (target,[target]) ↔
    IsShortest st start target label direction maxHops path := by
  have hall : completions parents lim (target,[target])=
      (suffixes (parentList parents) lim target).map fun s => (target::s).reverse := rfl
  rw [hall]
  refine ⟨(hcomplete.nodup_suffixes le_rfl hdist).map fun a b hab => ?_,fun path => ?_⟩
  · exact (List.cons.inj (List.reverse_injective hab)).2
  · rw [List.mem_map]
    constructor
    · rintro ⟨s,hs,hpath⟩
      have ⟨hlength,hto⟩ := (hcomplete.mem_suffixes le_rfl hdist s).mp hs
      rw [←hpath]
      refine ⟨lim,hlimit.1,hdist,hto,?_⟩
      rw [List.length_reverse,List.length_cons,hlength]
    · rintro ⟨m,hm,hat,hto,hlength⟩
      rw [hlimit.eq hm hat] at hlength
      have hlast : path.reverse.head?=some target := by
        rw [List.head?_reverse]
        exact hto.2.1
      cases hback : path.reverse with
      | nil =>
        rw [hback] at hlast
        exact nomatch hlast
      | cons x s =>
        rw [hback] at hlast
        have hx : x=target := Option.some.inj hlast
        rw [hx] at hback
        have hpath : (target::s).reverse=path := by rw [←hback,List.reverse_reverse]
        have hcount := congrArg List.length hback
        rw [List.length_reverse,hlength,List.length_cons] at hcount
        refine ⟨s,(hcomplete.mem_suffixes le_rfl hdist s).mpr ⟨(Nat.succ.inj hcount).symm,?_⟩,hpath⟩
        rw [hpath]
        exact hto

theorem allRound_end (hlimit : DepthLimit st start target label direction maxHops lim) {phase : AllPhase}
    {paths : List (List NodeId)} (h : PhaseInv st start target label direction lim phase)
    (hround : allRound st start target label direction maxHops phase=.inr paths) :
    paths.Nodup ∧ ∀ path,path∈paths ↔ IsShortest st start target label direction maxHops path := by
  cases phase with
  | searching s =>
    have hinv : AllInv st start target label direction lim s s.queue fun _ _ => False := h
    rw [allRound] at hround
    cases hqueue : s.queue with
    | nil =>
      rw [hqueue] at hround hinv
      dsimp only at hround
      by_cases hnone : s.depthOf target=none
      · rw [if_pos hnone] at hround
        rw [←Sum.inr.inj hround]
        refine ⟨List.nodup_nil,fun path => iff_of_false List.not_mem_nil ?_⟩
        rintro ⟨m,hm,hat,-⟩
        have hle : m≤lim := le_of_eq (hlimit.eq hm hat)
        exact (hinv.searched.seen_iff target).mpr ⟨m,hle,hat⟩ hnone
      · rw [if_neg hnone] at hround
        exact nomatch hround
    | cons first rest =>
      rw [hqueue] at hround
      dsimp only at hround
      split_ifs at hround
  | collecting parents stack collected =>
    have ⟨hcomplete,hdist,_,_,htotal⟩ := h
    cases stack with
    | nil =>
      rw [List.flatMap_nil,List.append_nil] at htotal
      rw [←Sum.inr.inj (show Sum.inr collected=Sum.inr paths from hround),htotal]
      exact completions_target hlimit hcomplete hdist
    | cons entry rest =>
      rw [allRound] at hround
      by_cases hstart : entry.1=start
      · rw [if_pos hstart] at hround
        exact nomatch hround
      · rw [if_neg hstart] at hround
        cases hpars : parents entry.1 with
        | none | some pars =>
          rw [hpars] at hround
          exact nomatch hround

theorem phaseInv_initial (hne : start≠target) : PhaseInv st start target label direction lim (allInitial start) := by
  have hseen : (fun v => Function.update (fun _ => none) start (some 0) v≠none)=fun v => v=start :=
    funext fun v => propext ((update_ne_none _ start 0 v).trans (or_iff_right (not_not_intro rfl)))
  have hdepths : ∀ v d,Function.update (fun _ => none) start (some 0) v=some d →
      AtDistance (Linked st label direction) start d v := by
    intro v d hv
    by_cases hvs : v=start
    · rw [hvs,Function.update_self] at hv
      rw [hvs,←Option.some.inj hv]
      exact atDistance_zero
    · rw [Function.update_of_ne hvs] at hv
      exact nomatch hv
  have hunseen : Function.update (fun _ => none) start (some 0) target=none := Function.update_of_ne hne.symm _ _
  have hparented : Parented (Linked st label direction) start (fun v => v=start) [(start,0)] (fun _ _ => False)
      (Function.update (fun _ => none) start (some [])) := by
    intro v hv
    rw [hv]
    refine ⟨[],Function.update_self _ _ _,List.nodup_nil,fun p => iff_of_false List.not_mem_nil ?_⟩
    rintro ⟨⟨d,-,hd,-⟩,-⟩
    exact absurd (atDistance_unique hd atDistance_zero) (Nat.succ_ne_zero d)
  refine ⟨?_,hdepths,?_,nofun,iff_of_true rfl hunseen⟩
  · rw [hseen]
    exact searched_initial
  · rw [hseen]
    exact hparented

end Rounds

end AllPaths

section Exactness

variable {st : Store} {start target : NodeId}

/-- The search for all shortest paths returns each of them once, the search for one returns
one exactly when the target is within the limit, and all records that are followed exist. -/
theorem shortestExact_of_consistent (hst : EdgeConsistent st) (hne : start≠target) (label : String)
    (direction : Direction) (maxHops : Nat) : ShortestExact st start target label direction maxHops := by
  have ⟨lim,hlimit⟩ := exists_depthLimit st start target label direction maxHops
  have hinitial : PhaseInv st start target label direction lim (allInitial start) := phaseInv_initial hne
  constructor
  · have ⟨paths,⟨n,hrun⟩,hpaths⟩ := returns_of_measure (PhaseInv st start target label direction lim)
      (phaseMeasure st label direction lim) (fun _ _ h hround => allRound_step hst hlimit h hround)
      (fun _ _ h hround => allRound_end hlimit h hround) hinitial
    refine ⟨n,paths,?_,hpaths⟩
    rw [allShortestPaths,if_neg hne]
    exact hrun
  · have hspec : ∃ result,Returns (pathRound st start target label direction maxHops) (pathInitial start) result ∧
        PathResult st start target label direction maxHops result := shortestPath_spec hst hne
    have ⟨result,⟨n,hrun⟩,found,hfound,hresult⟩ := hspec
    refine ⟨n,found,?_,hresult⟩
    rw [shortestPath,if_neg hne,←hfound]
    exact hrun
  · intro parents stack paths hreached entry hentry
    have hinv := hreached.inv (fun _ _ h hround => (allRound_step hst hlimit h hround).1) hinitial
    have ⟨_,_,hrecorded,hstack,_⟩ := hinv
    have ⟨d,hdist,_,hle⟩ := hstack entry hentry
    exact hrecorded d entry.1 hle hdist

/-- Both searches between two nodes with relationships in both directions. -/
theorem shortestExact_mutualStore : ShortestExact mutualStore 1 2 "R" .both 3 :=
  shortestExact_of_consistent edgeConsistent_mutualStore (by decide) "R" .both 3

end Exactness

end GraphDbLite.ShortestPaths
