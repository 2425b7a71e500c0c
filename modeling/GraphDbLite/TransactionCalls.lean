import GraphDbLite.MergeOperators

/-!
# Calls of a write transaction

A write transaction checks the sizes that it is opened with before it creates a node or
a relationship or sets a property, and of the labels of a node only the first. It is
the only caller that looks for the ends of a relationship before it creates one.
-/

namespace GraphDbLite.TransactionCalls

open GraphTypes StatefulActions GraphStore EdgeStorage NodeStorage SecondaryIndex FullText
open WriteOperators PropertySetters MergeOperators

section Calls

variable {E : Type} (env : ExecEnv E) (limits : Limits)

/-- Create a node with several labels. -/
def txCreateNodeWithLabels (labels : List String) (properties : Properties) :
    Action Store Failure NodeId := do
  inspect fun _ => validateProperties (labels.head?.getD "") properties limits
  raising (createIndexedNode env labels properties)

/-- Create a node with one label, or with none when the label is empty. -/
def txCreateNode (label : String) (properties : Properties) : Action Store Failure NodeId :=
  txCreateNodeWithLabels env limits (labelsOf label) properties

/-- Delete a node and all its relationships. -/
def txDeleteNode (id : NodeId) : Action Store Failure Unit := raising do
  let n ← inspect fun st => getNode st id
  removeIndexesForNode env.enc id n.labels n.properties
  removeFtsForNode id n.labels n.properties
  deleteNode id

/-- Remove a property of a node. -/
def txRemoveNodeProperty (id : NodeId) (key : String) : Action Store Failure Unit := raising do
  let old ← inspect fun st => getNode st id
  removeIndexedProperty env id old key

/-- Refuse a node that is not stored. -/
def requireNode (st : Store) (id : NodeId) : Except Failure Unit :=
  if nodeExists st id=true then .ok () else .error (.error (.nodeNotFound id none))

/-- Create a relationship between stored nodes. -/
def txCreateEdge (src dst : NodeId) (label : String) (properties : Properties) :
    Action Store Failure Unit := do
  inspect fun _ => validateProperties label properties limits
  inspect fun st => requireNode st src
  inspect fun st => requireNode st dst
  raising (createEdge src dst label properties)

/-- Delete the relationships between two nodes. -/
def txDeleteEdge (src dst : NodeId) (label : String) : Action Store Failure Unit :=
  update fun st => deleteEdge st src dst label

/-- The writes of a transaction. -/
inductive TxCall where
  | createNodeWithLabels (labels : List String) (properties : Properties)
  | createNode (label : String) (properties : Properties)
  | deleteNode (id : NodeId)
  | setNodeProperty (id : NodeId) (key : String) (value : Value)
  | removeNodeProperty (id : NodeId) (key : String)
  | createEdge (src dst : NodeId) (label : String) (properties : Properties)
  | deleteEdge (src dst : NodeId) (label : String)

/-- Return nothing. -/
def withoutResult {α : Type} (x : Action Store Failure α) : Action Store Failure Unit := do
  let _ ← x
  pure ()

/-- Make one write. -/
def TxCall.run : TxCall → Action Store Failure Unit
  | .createNodeWithLabels labels properties =>
    withoutResult (txCreateNodeWithLabels env limits labels properties)
  | .createNode label properties => withoutResult (txCreateNode env limits label properties)
  | .deleteNode id => txDeleteNode env id
  | .setNodeProperty id key value => txSetNodeProperty env limits id key value
  | .removeNodeProperty id key => txRemoveNodeProperty env id key
  | .createEdge src dst label properties => txCreateEdge limits src dst label properties
  | .deleteEdge src dst label => txDeleteEdge src dst label

end Calls

theorem raising_state {α : Type} (x : Db α) (st : Store) : (raising x st).2=(x st).2 :=
  congrArg Prod.snd (settled_raising x st)

theorem withoutResult_state {α : Type} (x : Action Store Failure α) (st : Store) :
    (withoutResult x st).2=(x st).2 :=
  congrArg Prod.snd (settled_then_pure x (fun _ => ()) st)

end GraphDbLite.TransactionCalls
