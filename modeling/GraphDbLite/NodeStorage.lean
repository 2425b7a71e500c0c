import GraphDbLite.EdgeStorage
import GraphDbLite.LikePattern

/-!
# Node storage

A node is a row of the nodes table: its serialized record and a label column
with the labels joined by colons. Creation checks the names, allocates an
identifier and counts every label of the sorted list. Deletion first removes
the relationships of the node in both directions. The other operations read a
record, change it and write it back.
-/

namespace GraphDbLite.NodeStorage

open ByteStrings GraphTypes OrderedTable StatefulActions GraphStore EdgeStorage LikePattern

/-- Record of a stored node. -/
def getRecord (st : Store) (id : NodeId) : Result NodeRecord :=
  match get st.nodes id with
  | some row => .ok row.value
  | none => .error (.nodeNotFound id none)

/-- Insert or replace a node row with its label column. -/
def putNode (st : Store) (id : NodeId) (record : NodeRecord) : Store :=
  {st with nodes := put st.nodes id ⟨String.intercalate ":" record.labels,record⟩}

/-- Create a node: the identifier is allocated before anything is written. -/
def createNode (labels : List String) (properties : Properties) : Db NodeId := do
  inspect fun _ => validateNames labels
  inspect fun _ => validateNames (properties.map Prod.fst)
  let id ← nextNodeId
  let sortedLabels := labels.insertionSort (· ≤ ·)
  update fun st => putNode st id ⟨sortedLabels,properties⟩
  update fun st => sortedLabels.foldl incrementLabelCount st
  pure id

/-- A stored node with its identifier. -/
def getNode (st : Store) (id : NodeId) : Result Node := do
  let record ← getRecord st id
  pure ⟨id,record.labels,record.properties⟩

/-- Whether a node exists. -/
def nodeExists (st : Store) (id : NodeId) : Bool := contains st.nodes id

/-- Whether a node has a relationship in either direction. -/
def nodeHasEdges (st : Store) (id : NodeId) : Result Bool := do
  let out ← getAllEdgeLabels st id .outgoing
  if out≠[] then pure true
  else
    let inc ← getAllEdgeLabels st id .incoming
    pure (!inc.isEmpty)

/-- Delete the listed outgoing relationships of a node. -/
def deleteOutEdges (id : NodeId) (outEdges : List (String×List UInt64)) (st : Store) : Store :=
  outEdges.foldl (fun st entry => entry.2.foldl (fun st dst => deleteEdge st id dst entry.1) st) st

/-- Delete the listed incoming relationships of a node. -/
def deleteInEdges (id : NodeId) (inEdges : List (String×List UInt64)) (st : Store) : Store :=
  inEdges.foldl (fun st entry => entry.2.foldl (fun st src => deleteEdge st src id entry.1) st) st

/-- Delete a node and all its relationships. -/
def deleteNode (id : NodeId) : Db Unit := do
  let node ← inspect fun st => getNode st id
  let outEdges ← inspect fun st => getAllEdgeLabels st id .outgoing
  update (deleteOutEdges id outEdges)
  let inEdges ← inspect fun st => getAllEdgeLabels st id .incoming
  update (deleteInEdges id inEdges)
  update fun st => {st with nodes := delete st.nodes id}
  update fun st => node.labels.foldl decrementLabelCount st

/-- Properties with one changed; null removes. -/
def withProperty (props : Properties) (property : String) (val : Value) : Properties :=
  if val.isNull=true then removeProp props property else insertProp props property val

/-- Set one property of a node; null removes it. -/
def setNodeProperty (id : NodeId) (key : String) (value : Value) : Db Unit := do
  inspect fun _ => validateName key
  let record ← inspect fun st => getRecord st id
  update fun st => putNode st id {record with properties := withProperty record.properties key value}

/-- Remove one property of a node. -/
def removeNodeProperty (id : NodeId) (key : String) : Db Unit := do
  let record ← inspect fun st => getRecord st id
  update fun st => putNode st id {record with properties := removeProp record.properties key}

/-- Remove a label; every copy leaves the list and one is uncounted. -/
def removeNodeLabel (id : NodeId) (label : String) : Db Unit := do
  let record ← inspect fun st => getRecord st id
  if label∉record.labels then pure ()
  else
    update fun st => putNode st id {record with labels := record.labels.filter (· ≠ label)}
    update fun st => decrementLabelCount st label

/-- Add a label unless it is already present. -/
def addNodeLabel (id : NodeId) (label : String) : Db Unit := do
  let record ← inspect fun st => getRecord st id
  if label∈record.labels then pure ()
  else
    update fun st =>
      putNode st id {record with labels := (record.labels++[label]).insertionSort (· ≤ ·)}
    update fun st => incrementLabelCount st label

/-- Replace the property map of a node. -/
def setAllNodeProperties (id : NodeId) (properties : Properties) : Db Unit := do
  let record ← inspect fun st => getRecord st id
  update fun st => putNode st id {record with properties := properties}

/-- The row filter of a label scan: the column equals the label, or contains it
between colons in the sense of LIKE. -/
def labelColumnMatches (label column : String) : Bool :=
  column=label ||
    likeMatch ('%' :: ':'::(label.toList++[':','%'])) (':'::(column.toList++[':']))

/-- Nodes found by the label column, in identifier order; the empty label finds
every node. -/
def findNodesByLabel (st : Store) (label : String) : List Node :=
  (st.nodes.rows.filter fun row => label = "" || labelColumnMatches label row.2.label).map
    fun row => ⟨row.1,row.2.value.labels,row.2.value.properties⟩

variable {st : Store} {labels : List String} {properties : Properties}

theorem getRecord_ok {id : NodeId} {record : NodeRecord} (h : getRecord st id=.ok record) :
    ∃ row,get st.nodes id=some row ∧ row.value=record := by
  unfold getRecord at h
  cases hget : get st.nodes id with
  | none =>
    rw [hget] at h
    cases h
  | some row =>
    rw [hget] at h
    exact ⟨row,rfl,by simpa using h⟩

theorem getNode_ok {id : NodeId} {node : Node} (h : getNode st id=.ok node) :
    ∃ row,get st.nodes id=some row ∧ node=⟨id,row.value.labels,row.value.properties⟩ := by
  unfold getNode getRecord at h
  cases hget : get st.nodes id with
  | none =>
    rw [hget] at h
    cases h
  | some row =>
    rw [hget] at h
    refine ⟨row,rfl,?_⟩
    simpa [bind,Except.bind,pure,Except.pure,eq_comm] using h

/-- Names checked before a creation writes anything. -/
def CheckedNode (labels : List String) (properties : Properties) : Prop :=
  (∀ l∈labels,isValidName l=true) ∧ ∀ key∈properties.map Prod.fst,isValidName key=true

/-- All writes of a node creation. -/
def addNode (st : Store) (labels : List String) (properties : Properties) : Store :=
  let sortedLabels := labels.insertionSort (· ≤ ·)
  sortedLabels.foldl incrementLabelCount
    (putNode {st with metadata := put st.metadata nextNodeIdKey (toBeBytes (nodeIdCounter st+1))}
      (nodeIdCounter st) ⟨sortedLabels,properties⟩)

theorem createNode_rejected (h : ¬CheckedNode labels properties) (st : Store) :
    ∃ e,createNode labels properties st=(.error e,st) := by
  cases hlabels : validateNames labels with
  | error e =>
    refine ⟨e,?_⟩
    rw [createNode,inspect_error (by exact hlabels)]
  | ok u =>
    cases hprops : validateNames (properties.map Prod.fst) with
    | error e =>
      refine ⟨e,?_⟩
      rw [createNode,inspect_ok (by exact hlabels),
        inspect_error (by exact hprops)]
    | ok v => exact absurd ⟨validateNames_ok_iff.mp hlabels,validateNames_ok_iff.mp hprops⟩ h

theorem createNode_checked
    (h : CheckedNode labels properties) (st : Store) :
    createNode labels properties st=
      (nextNodeId >>= fun id =>
        update (fun st => putNode st id ⟨labels.insertionSort (· ≤ ·),properties⟩) >>= fun _ =>
          update (fun st => (labels.insertionSort (· ≤ ·)).foldl incrementLabelCount st) >>= fun _ =>
            pure id) st := by
  have hlabels : validateNames labels=.ok () := validateNames_ok_iff.mpr h.1
  have hprops : validateNames (properties.map Prod.fst)=.ok () := validateNames_ok_iff.mpr h.2
  rw [createNode,inspect_ok (by exact hlabels),inspect_ok (by exact hprops)]

theorem createNode_exhausted (h : CheckedNode labels properties) {raw : Bytes}
    (hget : get st.metadata nextNodeIdKey=some raw) (hlen : 8 ≤ raw.length)
    (hc : nodeIdCounter st=0xFFFFFFFFFFFFFFFF) :
    createNode labels properties st=(.error (.transaction "node ID space exhausted" none),st) := by
  rw [createNode_checked h,bind_error (nextNodeId_exhausted hget hlen hc)]

theorem createNode_ok (h : CheckedNode labels properties) {raw : Bytes}
    (hget : get st.metadata nextNodeIdKey=some raw) (hlen : 8 ≤ raw.length)
    (hc : nodeIdCounter st≠0xFFFFFFFFFFFFFFFF) :
    createNode labels properties st=(.ok (nodeIdCounter st),addNode st labels properties) := by
  rw [createNode_checked h,bind_ok (nextNodeId_ok hget hlen hc)]
  rfl

end GraphDbLite.NodeStorage
