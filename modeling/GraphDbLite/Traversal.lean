import GraphDbLite.CypherValues

/-!
# Reading and walking relationships

Neighbours come from the adjacency tables, parallel relationships from the
properties table. The path search of variable-length patterns pops a frame,
appends the paths it completes and pushes the frames it opens, so the frame
pushed last is searched first together with everything below it; the remaining
number of hops bounds the search. The breadth-first search visits one level
after the other. Work is bounded by a budget of relationship visits.
-/

namespace GraphDbLite.Traversal

open GraphTypes GraphStore EdgeStorage CypherValues

/-- Identifiers of the neighbours of a node along one type. -/
def getNeighbors (st : Store) (id : NodeId) (label : String) : Direction → List NodeId
  | .outgoing => adjIds st.adjOut id label
  | .incoming => adjIds st.adjIn id label
  | .both => (adjIds st.adjIn id label).foldl
      (fun result nid => if nid∈result then result else result++[nid]) (adjIds st.adjOut id label)

/-- Whether a relationship is in the outgoing list of its source. -/
def edgeExists (st : Store) (src dst : NodeId) (label : String) : Bool :=
  decide (dst∈adjIds st.adjOut src label)

/-- Sequence numbers and properties of all parallel relationships. -/
def getAllEdgeProps (st : Store) (src dst : NodeId) (label : String) : List (UInt64×Properties) :=
  let start := edgePropsPrefix src dst label
  (scanPrefix st.edgeProps start).map fun entry => (edgeSeqFromKey entry.1 start.length,entry.2)

/-- Properties of the first parallel relationship. -/
def getEdgeProperties (st : Store) (src dst : NodeId) (label : String) : Properties :=
  match scanPrefix st.edgeProps (edgePropsPrefix src dst label) with
  | entry::_ => entry.2
  | [] => []

/-- Types found at a node in a direction. -/
def discoverLabels (st : Store) (id : NodeId) (direction : Direction) : Result (List String) :=
  (getAllEdgeLabels st id direction).map fun entries => entries.map Prod.fst

/-- Source and destination of the relationship behind a neighbour. -/
def orientation (st : Store) (current neighbor : NodeId) (label : String) :
    Direction → NodeId×NodeId
  | .incoming => (neighbor,current)
  | .outgoing => (current,neighbor)
  | .both => if edgeExists st current neighbor label=true then (current,neighbor) else (neighbor,current)

/-- One step of a path. -/
structure PathStep where
  /-- Stored source. -/
  edgeSrc : NodeId
  /-- Stored destination. -/
  edgeDst : NodeId
  /-- Relationship type. -/
  edgeLabel : String
  /-- Sequence number of the parallel relationship. -/
  edgeSeq : UInt64
  /-- Node reached by the step. -/
  dst : NodeId
  deriving DecidableEq

/-- Identity of the relationship of a step. -/
def PathStep.key (step : PathStep) : NodeId×NodeId×String×UInt64 :=
  (step.edgeSrc,step.edgeDst,step.edgeLabel,step.edgeSeq)

/-- Stored relationships between a node and a neighbour along a direction. -/
def directedEdges (st : Store) (current neighbor : NodeId) (label : String) (direction : Direction) :
    List (NodeId×NodeId×UInt64×Properties) :=
  let forward := (getAllEdgeProps st current neighbor label).map fun e => (current,neighbor,e.1,e.2)
  let backward := (getAllEdgeProps st neighbor current label).map fun e => (neighbor,current,e.1,e.2)
  let stored : List (NodeId×NodeId×UInt64×Properties) := match direction with
    | .outgoing => forward
    | .incoming => backward
    | .both => if current=neighbor then forward else forward++backward
  if stored.isEmpty=true then
    let ends := orientation st current neighbor label direction
    [(ends.1,ends.2,0,[])]
  else stored

/-- Steps that leave a node along one type, with their properties. -/
def stepsAlong (st : Store) (direction : Direction) (current : NodeId) (label : String) :
    List (PathStep×Properties) :=
  (getNeighbors st current label direction).flatMap fun neighbor =>
    (directedEdges st current neighbor label direction).map fun e =>
      (⟨e.1,e.2.1,label,e.2.2.1,neighbor⟩,e.2.2.2)

/-- Steps that leave a node; without types all types of the node are followed. -/
def candidateSteps (st : Store) (labels : List String) (direction : Direction) (current : NodeId) :
    Result (List (PathStep×Properties)) := do
  let labels ← if labels=[] then discoverLabels st current direction else .ok labels
  pure (labels.flatMap (stepsAlong st direction current))

/-- Bounds of a path search. -/
structure PathSearch where
  /-- Fewest steps of a reported path. -/
  minHops : Nat
  /-- Most steps of a path. -/
  maxHops : Nat
  /-- Property values that every step must have. -/
  filters : List (String×Value)
  /-- Number of paths after which the search stops. -/
  maxResults : Option Nat
  /-- Budget of relationship visits; zero means none. -/
  maxWork : UInt64

/-- Progress of a path search. -/
structure SearchState where
  /-- Reported paths with their end nodes. -/
  results : List (NodeId×List PathStep)
  /-- Remaining visits. -/
  fuel : UInt64
  /-- Whether enough paths were found. -/
  stopped : Bool

/-- Whether a number of results reaches the cap. -/
def PathSearch.full (search : PathSearch) (count : Nat) : Bool :=
  match search.maxResults with
  | some cap => decide (cap ≤ count)
  | none => false

/-- Whether the properties of a step pass the filters. -/
def PathSearch.passes (search : PathSearch) (props : Properties) : Bool :=
  search.filters.all fun filter =>
    match getProp props filter.1 with
    | some value => valueEq value filter.2
    | none => false

/-- Visit one step from a frame; the second part collects the frames it opens. -/
def visitStep (search : PathSearch) (path : List PathStep)
    (s : SearchState×List (NodeId×List PathStep)) (candidate : PathStep×Properties) :
    Result (SearchState×List (NodeId×List PathStep)) :=
  if s.1.stopped=true then .ok s
  else if search.maxWork≠0 ∧ s.1.fuel=0 then
    .error (.sizeLimit "variable-length traversal work" search.maxWork.toNat search.maxWork.toNat
      (some "narrow the hop range, add property predicates, LIMIT the result, or raise Config::max_traversal_work"))
  else
    let spent := {s.1 with fuel := if search.maxWork=0 then s.1.fuel else s.1.fuel-1}
    if candidate.1.key∈path.map PathStep.key then .ok (spent,s.2)
    else if search.passes candidate.2=false then .ok (spent,s.2)
    else
      let extended := path++[candidate.1]
      let frame := (candidate.1.dst,extended)
      let found := if search.minHops≤extended.length then
          {spent with
            results := spent.results++[frame]
            stopped := search.full (spent.results.length+1)}
        else spent
      if found.stopped=false ∧ extended.length< search.maxHops then .ok (found,s.2++[frame])
      else .ok (found,s.2)

/-- Search from a frame with the given number of hops left. -/
def explore (st : Store) (labels : List String) (direction : Direction) (search : PathSearch) :
    Nat → NodeId×List PathStep → SearchState → Result SearchState
  | 0,_,s => .ok s
  | hops+1,frame,s =>
    if s.stopped=true then .ok s
    else do
      let candidates ← candidateSteps st labels direction frame.1
      let visited ← candidates.foldlM (visitStep search frame.2) (s,[])
      visited.2.reverse.foldlM (fun s opened => explore st labels direction search hops opened s)
        visited.1

/-- All paths from a node within the bounds, without a repeated relationship. -/
def traversePaths (st : Store) (start : NodeId) (labels : List String) (direction : Direction)
    (search : PathSearch) : Result (List (NodeId×List PathStep)) :=
  let initial : List (NodeId×List PathStep) := if search.minHops=0 then [(start,[])] else []
  if search.minHops=0 ∧ search.full 1=true then .ok initial
  else
    (explore st labels direction search search.maxHops (start,[]) ⟨initial,search.maxWork,false⟩).map
      SearchState.results

/-- Progress of a breadth-first search: visited nodes, reported nodes and the next
level, each in order. -/
structure LevelState where
  /-- Nodes that were queued. -/
  visited : List NodeId
  /-- Reported nodes. -/
  result : List NodeId
  /-- Nodes of the next level. -/
  next : List NodeId

/-- Look at one neighbour at a depth. -/
def visitNeighbor (start : NodeId) (report : Bool) (s : LevelState) (neighbor : NodeId) : LevelState :=
  let reported := if report=true ∧ neighbor≠start ∧ neighbor∉s.result then
      {s with result := s.result++[neighbor]}
    else s
  if neighbor∈reported.visited then reported
  else {reported with visited := reported.visited++[neighbor],next := reported.next++[neighbor]}

/-- Search level after level with the given number of hops left. -/
def levels (st : Store) (start : NodeId) (label : String) (direction : Direction) (minHops : Nat) :
    Nat → Nat → List NodeId → LevelState → List NodeId
  | 0,_,_,s => s.result
  | _+1,_,[],s => s.result
  | hops+1,depth,current::rest,s =>
    let reached := (current::rest).foldl
      (fun s id => (getNeighbors st id label direction).foldl (visitNeighbor start (minHops≤depth+1)) s)
      {s with next := []}
    levels st start label direction minHops hops (depth+1) reached.next reached

/-- Distinct nodes other than the start that a walk within the bounds reaches. -/
def traverse (st : Store) (start : NodeId) (label : String) (direction : Direction)
    (minHops maxHops : Nat) : List NodeId :=
  levels st start label direction minHops maxHops 0 [start] ⟨[start],[],[]⟩

end GraphDbLite.Traversal
