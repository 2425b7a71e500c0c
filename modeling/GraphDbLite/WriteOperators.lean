import GraphDbLite.FullText

/-!
# Write operators of query execution

The operators take the records of their input and apply the writes of a clause
to each of them in order. A variable of a record is a relationship when the
record has its source, destination and type under it, and a node when it holds
an integer. Every operator maintains the secondary and the full-text indexes of
the nodes it writes. Expression evaluation reads the store and a record.
-/

namespace GraphDbLite.WriteOperators

open ByteStrings GraphTypes OrderedTable StatefulActions GraphStore EdgeStorage NodeStorage
open SecondaryIndex FullText

/-- One result row: named values in insertion order. -/
structure NamedRecord where
  /-- Fields, one for each name. -/
  fields : List (String×Value)

/-- Look up a field. -/
def NamedRecord.get (rec : NamedRecord) (key : String) : Option Value := getProp rec.fields key

/-- Insert or replace a field, keeping the place of a present one. -/
def NamedRecord.set (rec : NamedRecord) (key : String) (value : Value) : NamedRecord :=
  if (rec.get key).isSome=true then
    ⟨rec.fields.map fun field => if field.1=key then (key,value) else field⟩
  else ⟨rec.fields++[(key,value)]⟩

/-- Remove a field; the last field takes its place. -/
def NamedRecord.remove (rec : NamedRecord) (key : String) : NamedRecord :=
  match rec.fields.findIdx? (fun field => field.1=key),rec.fields.getLast? with
  | some i,some last => ⟨(rec.fields.set i last).dropLast⟩
  | _,_ => rec

/-- What the operators take from the rest of the executor. -/
structure ExecEnv (E : Type) where
  /-- Evaluate an expression on a record. -/
  eval : Store → E → NamedRecord → Result Value
  /-- Serialize a value. -/
  enc : Value → Bytes
  /-- The virtual-table module. -/
  engine : FtsEngine

/-- Source, destination and type of a relationship variable. -/
def edgeIdentity (rec : NamedRecord) (var : String) : Option (NodeId×NodeId×String) :=
  match rec.get (var++".__src"),rec.get (var++".__dst"),rec.get (var++".__type") with
  | some (.i64 src),some (.i64 dst),some (.string label) => some (src.toUInt64,dst.toUInt64,label)
  | _,_,_ => none

/-- Sequence number of a relationship variable. -/
def edgeSeqField (rec : NamedRecord) (var : String) : Option UInt64 :=
  match rec.get (var++".__edge_seq") with
  | some (.i64 seq) => some seq.toUInt64
  | _ => none

/-- Identifier of a node variable. -/
def nodeIdField (rec : NamedRecord) (var : String) : Option NodeId :=
  match rec.get var with
  | some (.i64 id) => some id.toUInt64
  | _ => none

mutual

/-- Whether a value may be stored as a property. -/
def isStorable : Value → Bool
  | .map _ => false
  | .node _ => false
  | .edge _ => false
  | .path _ => false
  | .list items => areStorable items
  | _ => true

/-- Whether all values of a list may be stored. -/
def areStorable : List Value → Bool
  | [] => true
  | item::rest => isStorable item && areStorable rest

end

/-- Reject a value that may not be stored as a property. -/
def validatePropertyValue (val : Value) : Result Unit :=
  if isStorable val=true then .ok ()
  else .error (.query .typeError .runtime .invalidPropertyType
    "maps, nodes, relationships, and paths cannot be stored as properties")

/-- Show a written property downstream. -/
def showProperty (rec : NamedRecord) (var property : String) (val : Value) : NamedRecord :=
  if val.isNull=true then rec.remove (var++("."++property)) else rec.set (var++("."++property)) val

/-- Show a replaced property map downstream. -/
def showProperties (rec : NamedRecord) (var : String) (old new : Properties) : NamedRecord :=
  new.foldl (fun rec entry => rec.set (var++("."++entry.1)) entry.2)
    (old.foldl (fun rec entry => rec.remove (var++("."++entry.1))) rec)

/-- One assignment of a SET clause. -/
structure Assignment (E : Type) where
  /-- Variable whose property is set. -/
  var : String
  /-- Property name. -/
  property : String
  /-- Expression of the new value. -/
  value : E

/-- One item of a REMOVE clause. -/
inductive RemoveItem where
  | property (var property : String)
  | label (var : String) (labels : List String)

/-- One part of a CREATE clause. -/
inductive CreateOp (E : Type) where
  | node (labels : List String) (nodeAlias : Option String) (properties : List (String×E))
  | edge (srcAlias dstAlias edgeType : String) (relAlias : Option String)
      (properties : List (String×E))

/-- One expression of a DELETE clause; variables are treated by name. -/
inductive DeleteExpr (E : Type) where
  | var (var : String)
  | other (expr : E)

/-- Lay the entries of a map over properties; only merging removes. -/
def overlayEntries (check : Value → Result Unit) (merge : Bool) (props : Properties) :
    List (String×Value) → Result Properties
  | [] => .ok props
  | (key,val)::rest =>
    if val.isNull=true then
      overlayEntries check merge (if merge=true then removeProp props key else props) rest
    else
      match check val with
      | .ok () => overlayEntries check merge (insertProp props key val) rest
      | .error e => .error e

/-- Properties after a map is merged into the old ones or replaces them. -/
def overlayMap (check : Value → Result Unit) (merge : Bool) (old : Properties)
    (entries : List (String×Value)) : Result Properties :=
  overlayEntries check merge (if merge=true then old else []) entries

/-- The entries of a map value; null gives nothing. -/
def mapEntries : Value → Result (Option (List (String×Value)))
  | .map entries => .ok (some entries)
  | .null => .ok none
  | _ => .error (.semantic "SET properties requires a map value")

/-- Join the labels of a label list field. -/
def labelStrings (labels : List Value) : List String :=
  labels.filterMap fun value =>
    match value with
    | .string s => some s
    | _ => none

/-- Sort key of a label list field. -/
def labelText : Value → String
  | .string s => s
  | _ => ""

/-- Show added labels downstream. -/
def showAddedLabels (rec : NamedRecord) (var : String) (labels : List String) : NamedRecord :=
  match rec.get (var++".__labels") with
  | some (.list current) =>
    let updated := labels.foldl
      (fun updated label => if label∈labelStrings updated then updated else updated++[.string label])
      current
    let sorted := updated.insertionSort fun a b => labelText a≤labelText b
    (rec.set (var++".__label") (.string (String.intercalate ":" (labelStrings sorted)))).set
      (var++".__labels") (.list sorted)
  | _ => rec

/-- Show removed labels downstream. -/
def showRemovedLabels (rec : NamedRecord) (var : String) (labels : List String) : NamedRecord :=
  match rec.get (var++".__labels") with
  | some (.list current) =>
    rec.set (var++".__labels") (.list (current.filter fun value =>
      match value with
      | .string s => decide (s∉labels)
      | _ => true))
  | _ => rec

/-- Relationships and nodes collected for deletion. -/
structure DeleteTargets where
  /-- Relationships; without a sequence number all parallel ones are meant. -/
  edges : List (NodeId×NodeId×String×Option UInt64)
  /-- Nodes. -/
  nodes : List NodeId

mutual

/-- Collect the entities of a value. -/
def collectValueEntities (targets : DeleteTargets) : Value → DeleteTargets
  | .node n => {targets with nodes := targets.nodes++[n.id]}
  | .edge e => {targets with edges := targets.edges++[(e.src,e.dst,e.label,none)]}
  | .path p =>
    ⟨targets.edges++p.edges.map fun e => (e.src,e.dst,e.label,none),
      targets.nodes++p.nodes.map fun n => n.id⟩
  | .i64 id => {targets with nodes := targets.nodes++[id.toUInt64]}
  | .list items => collectItemEntities targets items
  | _ => targets

/-- Collect the entities of the items of a list. -/
def collectItemEntities (targets : DeleteTargets) : List Value → DeleteTargets
  | [] => targets
  | item::rest => collectItemEntities (collectValueEntities targets item) rest

end

/-- Collect the entities of a variable. -/
def collectVarEntities (rec : NamedRecord) (var : String) (targets : DeleteTargets) :
    DeleteTargets :=
  match edgeIdentity rec var with
  | some (src,dst,label) =>
    {targets with edges := targets.edges++[(src,dst,label,edgeSeqField rec var)]}
  | none =>
    match nodeIdField rec var with
    | some id => {targets with nodes := targets.nodes++[id]}
    | none =>
      match rec.get var with
      | some val => collectValueEntities targets val
      | none => targets

/-- Delete one collected relationship. -/
def deleteEdgeTarget (st : Store) (target : NodeId×NodeId×String×Option UInt64) : Store :=
  match target with
  | (src,dst,label,some seq) => deleteSingleEdge st src dst label seq
  | (src,dst,label,none) => deleteEdge st src dst label

/-- Variables bound to nodes while a CREATE clause runs, and the record so far. -/
structure CreateState where
  /-- Identifiers by variable. -/
  bindings : List (String×NodeId)
  /-- Record that the clause extends. -/
  record : NamedRecord

/-- Identifier bound to a variable. -/
def CreateState.bound (s : CreateState) (nodeAlias : String) : Option NodeId :=
  (s.bindings.find? fun entry => entry.1=nodeAlias).map Prod.snd

/-- Identifier of a variable an edge needs. -/
def CreateState.endpoint (s : CreateState) (nodeAlias : String) : Result NodeId :=
  match s.bound nodeAlias with
  | some id => .ok id
  | none => .error (.semantic ("unbound variable: "++nodeAlias))

/-- Bind a created node. -/
def CreateState.bindNode (s : CreateState) (nodeAlias : Option String) (id : NodeId)
    (props : Properties) : CreateState :=
  match nodeAlias with
  | none => s
  | some nodeAlias =>
    let rec₁ := (s.record.set nodeAlias (.i64 id.toInt64)).set (nodeAlias++".__id") (.i64 id.toInt64)
    ⟨(nodeAlias,id)::s.bindings.filter fun entry => entry.1≠nodeAlias,
      props.foldl (fun rec entry => rec.set (nodeAlias++("."++entry.1)) entry.2) rec₁⟩

/-- Bind a created relationship. -/
def CreateState.bindEdge (s : CreateState) (relAlias : Option String) (src dst : NodeId)
    (edgeType : String) (props : Properties) : CreateState :=
  match relAlias with
  | none => s
  | some nodeAlias =>
    let rec₁ := (s.record.set nodeAlias (.string edgeType)).set (nodeAlias++".__src") (.i64 src.toInt64)
    let rec₂ := (rec₁.set (nodeAlias++".__dst") (.i64 dst.toInt64)).set (nodeAlias++".__type")
      (.string edgeType)
    {s with record := props.foldl (fun rec entry => rec.set (nodeAlias++("."++entry.1)) entry.2) rec₂}

/-- Bindings of the undotted integer fields of an input record. -/
def seedBindings (rec : NamedRecord) : List (String×NodeId) :=
  rec.fields.filterMap fun field =>
    if '.'∈field.1.toList then none
    else
      match field.2 with
      | .i64 id => some (field.1,id.toUInt64)
      | _ => none

section Operators

variable {E : Type} (env : ExecEnv E)

/-- Evaluate the properties of a CREATE pattern, leaving out nulls. -/
def evalProperties (rec : NamedRecord) (st : Store) (props : Properties) :
    List (String×E) → Result Properties
  | [] => .ok props
  | (key,expr)::rest =>
    match env.eval st expr rec with
    | .error e => .error e
    | .ok val =>
      evalProperties rec st (if val.isNull=true then props else insertProp props key val) rest

/-- Maintain the secondary and the full-text indexes of a node. -/
def maintainNode (id : NodeId) (labels : List String) (old : Option Properties) (new : Properties) :
    Db Unit := do
  updateIndexesForNode env.enc id labels old new
  updateFtsForNode env.engine id labels old new

/-- Create a node and index it. -/
def createIndexedNode (labels : List String) (props : Properties) : Db NodeId := do
  let id ← createNode labels props
  maintainNode env id labels none props
  pure id

/-- Create the node of a CREATE pattern on the given record. -/
def createNodeOp (rec : NamedRecord) (s : CreateState) (labels : List String) (nodeAlias : Option String)
    (properties : List (String×E)) : Db CreateState := do
  let props ← inspect fun st => evalProperties env rec st [] properties
  let id ← createIndexedNode env labels props
  pure (s.bindNode nodeAlias id props)

/-- Create the relationship of a CREATE pattern on the given record. -/
def createEdgeOp (rec : NamedRecord) (s : CreateState) (srcAlias dstAlias edgeType : String)
    (relAlias : Option String) (properties : List (String×E)) : Db CreateState := do
  let src ← inspect fun _ => s.endpoint srcAlias
  let dst ← inspect fun _ => s.endpoint dstAlias
  let props ← inspect fun st => evalProperties env rec st [] properties
  createEdge src dst edgeType props
  pure (s.bindEdge relAlias src dst edgeType props)

/-- One part of a standalone CREATE clause; expressions see the record so far. -/
def createSequenceOp (s : CreateState) : CreateOp E → Db CreateState
  | .node labels nodeAlias properties => createNodeOp env s.record s labels nodeAlias properties
  | .edge srcAlias dstAlias edgeType relAlias properties =>
    createEdgeOp env s.record s srcAlias dstAlias edgeType relAlias properties

/-- One part of a CREATE clause after a match; expressions see the input record
and bound variables are not created again. -/
def matchCreateOp (rec : NamedRecord) (s : CreateState) : CreateOp E → Db CreateState
  | .node labels nodeAlias properties =>
    if (nodeAlias.bind s.bound).isSome=true then pure s
    else createNodeOp env rec s labels nodeAlias properties
  | .edge srcAlias dstAlias edgeType relAlias properties =>
    createEdgeOp env rec s srcAlias dstAlias edgeType relAlias properties

/-- `CREATE` of one node. -/
def execCreateNode (labels : List String) (nodeAlias : Option String) (properties : List (String×E)) :
    Db (List NamedRecord) := do
  let s ← createNodeOp env ⟨[]⟩ ⟨[],⟨[]⟩⟩ labels nodeAlias properties
  pure [s.record]

/-- `CREATE` of a pattern. -/
def execCreateSequence (ops : List (CreateOp E)) : Db (List NamedRecord) := do
  let s ← foldEach ops ⟨[],⟨[]⟩⟩ (createSequenceOp env)
  pure [s.record]

/-- `CREATE` after a match. -/
def execMatchCreate (records : List NamedRecord) (ops : List (CreateOp E)) :
    Db (List NamedRecord) :=
  mapEach records fun rec => do
    let s ← foldEach ops ⟨seedBindings rec,rec⟩ (matchCreateOp env rec)
    pure s.record

/-- Collect the entities of one DELETE expression. -/
def collectExpr (acc : NamedRecord×DeleteTargets) : DeleteExpr E → Db (NamedRecord×DeleteTargets)
  | .var var =>
    pure (acc.1.set (var++".__deleted") (.bool true),collectVarEntities acc.1 var acc.2)
  | .other expr => do
    let val ← inspect fun st => env.eval st expr acc.1
    pure (acc.1,collectValueEntities acc.2 val)

/-- Collect the entities of one record. -/
def collectRecord (exprs : List (DeleteExpr E)) (acc : List NamedRecord×DeleteTargets)
    (rec : NamedRecord) : Db (List NamedRecord×DeleteTargets) := do
  let done ← foldEach exprs (rec,acc.2) (collectExpr env)
  pure (acc.1++[done.1],done.2)

/-- Refuse a plain DELETE of a node that still has relationships. -/
def checkDetached (detach : Bool) (id : NodeId) : Db Unit :=
  if detach=true then pure ()
  else do
    let connected ← inspect fun st => nodeHasEdges st id
    if connected=true then
      fail (.query .constraintViolation .runtime .deleteConnectedNode
        ("cannot delete node NodeId("++(toString id.toNat++
          ") because it still has relationships. Use DETACH DELETE.")))
    else pure ()

/-- Take a node out of all indexes; a missing node and errors are ignored. -/
def clearNode (id : NodeId) : Db Unit := fun st =>
  match getNode st id with
  | .error _ => (.ok (),st)
  | .ok n =>
    (attempt (removeIndexesForNode env.enc id n.labels n.properties) >>= fun _ =>
      attempt (removeFtsForNode id n.labels n.properties)) st

/-- Delete one collected node. -/
def deleteNodeTarget (detach : Bool) (id : NodeId) : Db Unit := do
  checkDetached detach id
  clearNode env id
  attempt (deleteNode id)

/-- `DELETE`: collect everything, then delete relationships, then nodes. -/
def execDelete (records : List NamedRecord) (exprs : List (DeleteExpr E)) (detach : Bool) :
    Db (List NamedRecord) := do
  let acc ← foldEach records ([],⟨[],[]⟩) (collectRecord env exprs)
  update fun st => acc.2.edges.foldl deleteEdgeTarget st
  forEach acc.2.nodes (deleteNodeTarget env detach)
  pure acc.1

/-- Write one property of a relationship, by sequence number when there is one. -/
def writeEdgeProperty (rec : NamedRecord) (var : String) (src dst : NodeId) (label property : String)
    (val : Value) (st : Store) : Store :=
  match edgeSeqField rec var with
  | some seq => setEdgePropertyAt st src dst label seq property val
  | none => setEdgeProperty st src dst label property val

/-- Write one property of a node and its index entries. -/
def setIndexedProperty (id : NodeId) (old : Node) (property : String) (val : Value) : Db Unit := do
  setNodeProperty id property val
  maintainNode env id old.labels (some old.properties) (withProperty old.properties property val)

/-- One assignment of a SET clause on one record. -/
def setPropertyItem (rec : NamedRecord) (a : Assignment E) : Db NamedRecord :=
  match edgeIdentity rec a.var with
  | some (src,dst,label) => do
    let val ← inspect fun st => env.eval st a.value rec
    inspect fun _ => validatePropertyValue val
    update (writeEdgeProperty rec a.var src dst label a.property val)
    pure (showProperty rec a.var a.property val)
  | none =>
    match nodeIdField rec a.var with
    | some id => do
      let old ← inspect fun st => getNode st id
      let val ← inspect fun st => env.eval st a.value rec
      inspect fun _ => validatePropertyValue val
      setIndexedProperty env id old a.property val
      pure (showProperty rec a.var a.property val)
    | none => pure rec

/-- `SET n.p = v, ...`. -/
def execSetProperty (records : List NamedRecord) (assignments : List (Assignment E)) :
    Db (List NamedRecord) :=
  mapEach records fun rec => foldEach assignments rec (setPropertyItem env)

/-- `SET n:L` on one record. -/
def setLabelRecord (var : String) (labels : List String) (rec : NamedRecord) : Db NamedRecord :=
  match nodeIdField rec var with
  | none => pure rec
  | some id => do
    forEach labels (addNodeLabel id)
    let new ← inspect fun st => getNode st id
    maintainNode env id new.labels none new.properties
    pure (showAddedLabels rec var labels)

/-- `SET n:L`. -/
def execSetLabel (records : List NamedRecord) (var : String) (labels : List String) :
    Db (List NamedRecord) :=
  mapEach records (setLabelRecord env var labels)

/-- Sequence number a map write to a relationship goes to. -/
def edgeSeqOf (rec : NamedRecord) (var : String) (src dst : NodeId) (label : String) (st : Store) :
    UInt64 :=
  match edgeSeqField rec var with
  | some seq => seq
  | none => firstEdgeSeq st src dst label

/-- `SET r = map` and `SET r += map` on a relationship of one record. -/
def setEdgeMap (rec : NamedRecord) (var : String) (src dst : NodeId) (label : String) (expr : E)
    (merge : Bool) : Db NamedRecord := do
  let seq ← inspect fun st => .ok (edgeSeqOf rec var src dst label st)
  let value ← inspect fun st => env.eval st expr rec
  let entries ← inspect fun _ => mapEntries value
  match entries with
  | none => pure rec
  | some entries => do
    let old ← inspect fun st => .ok (getEdgePropertiesAt st src dst label seq)
    let new ← inspect fun _ => overlayMap validatePropertyValue merge old entries
    update fun st => setAllEdgePropertiesAt st src dst label seq new
    pure (showProperties rec var old new)

/-- Replace the property map of a node and its index entries. -/
def setIndexedProperties (id : NodeId) (old : Node) (new : Properties) : Db Unit := do
  setAllNodeProperties id new
  maintainNode env id old.labels (some old.properties) new

/-- `SET n = map` and `SET n += map` on a node of one record. -/
def setNodeMap (rec : NamedRecord) (var : String) (id : NodeId) (expr : E) (merge : Bool) :
    Db NamedRecord := do
  let value ← inspect fun st => env.eval st expr rec
  let entries ← inspect fun _ => mapEntries value
  match entries with
  | none => pure rec
  | some entries => do
    let old ← inspect fun st => getNode st id
    let new ← inspect fun _ => overlayMap (fun _ => .ok ()) merge old.properties entries
    setIndexedProperties env id old new
    pure (showProperties rec var old.properties new)

/-- `SET x = map` and `SET x += map` on one record. -/
def setPropertiesRecord (var : String) (expr : E) (merge : Bool) (rec : NamedRecord) :
    Db NamedRecord :=
  match edgeIdentity rec var with
  | some (src,dst,label) => setEdgeMap env rec var src dst label expr merge
  | none =>
    match nodeIdField rec var with
    | some id => setNodeMap env rec var id expr merge
    | none => pure rec

/-- `SET x = map` and `SET x += map`. -/
def execSetProperties (records : List NamedRecord) (var : String) (expr : E) (merge : Bool) :
    Db (List NamedRecord) :=
  mapEach records (setPropertiesRecord env var expr merge)

/-- Take one label from a node and the node from the indexes of the label. -/
def removeIndexedLabel (id : NodeId) (props : Properties) (label : String) : Db Unit := do
  removeIndexesForLabel env.enc id label props
  removeFtsForLabel id label props
  removeNodeLabel id label

/-- Remove one property of a node and its index entries. -/
def removeIndexedProperty (id : NodeId) (old : Node) (property : String) : Db Unit := do
  removeNodeProperty id property
  maintainNode env id old.labels (some old.properties) (removeProp old.properties property)

/-- One item of a REMOVE clause on one record. -/
def removeItem (rec : NamedRecord) : RemoveItem → Db NamedRecord
  | .property var property =>
    match edgeIdentity rec var with
    | some (src,dst,label) => do
      update (writeEdgeProperty rec var src dst label property .null)
      pure (rec.remove (var++("."++property)))
    | none =>
      match nodeIdField rec var with
      | some id => do
        let old ← inspect fun st => getNode st id
        removeIndexedProperty env id old property
        pure (rec.remove (var++("."++property)))
      | none => pure rec
  | .label var labels =>
    match nodeIdField rec var with
    | some id => do
      let old ← inspect fun st => getNode st id
      forEach labels (removeIndexedLabel env id old.properties)
      pure (showRemovedLabels rec var labels)
    | none => pure rec

/-- `REMOVE`. -/
def execRemove (records : List NamedRecord) (items : List RemoveItem) : Db (List NamedRecord) :=
  mapEach records fun rec => foldEach items rec (removeItem env)

/-- A write clause with the records of its input. -/
inductive WriteClause (E : Type) where
  | createNode (labels : List String) (nodeAlias : Option String) (properties : List (String×E))
  | createSequence (ops : List (CreateOp E))
  | matchCreate (records : List NamedRecord) (ops : List (CreateOp E))
  | setProperty (records : List NamedRecord) (assignments : List (Assignment E))
  | setProperties (records : List NamedRecord) (var : String) (expr : E) (merge : Bool)
  | setLabel (records : List NamedRecord) (var : String) (labels : List String)
  | remove (records : List NamedRecord) (items : List RemoveItem)
  | delete (records : List NamedRecord) (exprs : List (DeleteExpr E)) (detach : Bool)

/-- Run a write clause. -/
def execClause : WriteClause E → Db (List NamedRecord)
  | .createNode labels nodeAlias properties => execCreateNode env labels nodeAlias properties
  | .createSequence ops => execCreateSequence env ops
  | .matchCreate records ops => execMatchCreate env records ops
  | .setProperty records assignments => execSetProperty env records assignments
  | .setProperties records var expr merge => execSetProperties env records var expr merge
  | .setLabel records var labels => execSetLabel env records var labels
  | .remove records items => execRemove env records items
  | .delete records exprs detach => execDelete env records exprs detach

end Operators

/-- MessagePack frame of a short text. -/
def shortText (text : String) : Bytes := UInt8.ofNat (160+(asBytes text).length)::asBytes text

/-- MessagePack frames of null, of small numbers and of short texts. -/
def frame : Value → Bytes
  | .null => shortText "Null"
  | .i64 n => 129::(shortText "I64"++[n.toInt8.toUInt8])
  | .string s => 129::(shortText "String"++shortText s)
  | _ => []

/-- Literal expressions, the frames above and a refusing full-text module. -/
def literalEnv : ExecEnv Value where
  eval _ value _ := .ok value
  enc := frame
  engine := ⟨fun _ _ => true,.refuse⟩

theorem keeps_collectRecord {I : Store → Prop} (exprs : List (DeleteExpr E)) (acc : List NamedRecord×DeleteTargets)
    (rec : NamedRecord) : Keeps I (collectRecord env exprs acc rec) := by
  refine keeps_bind (keeps_foldEach fun done expr _ => ?_) fun done => keeps_pure _ _
  cases expr with
  | var var => exact keeps_pure _ _
  | other expr => exact keeps_reading fun val => keeps_pure _ _

theorem keeps_checkDetached {I : Store → Prop} (detach : Bool) (id : NodeId) : Keeps I (checkDetached detach id) := by
  unfold checkDetached
  split_ifs
  · exact keeps_pure _ _
  · refine keeps_reading fun connected => ?_
    split_ifs
    · exact keeps_fail _ _
    · exact keeps_pure _ _

section IndexFrames

variable {I : Store → Prop}
  (hI : ∀ st indexTables,I st → I {st with indexTables := indexTables})

include hI

theorem keeps_kvPut (table : String) (key : Bytes) : Keeps I (kvPut table key) := by
  intro st hst
  unfold kvPut
  cases get st.indexTables table with
  | none => exact hst
  | some t => exact hI st _ hst

theorem keeps_kvDelete (table : String) (key : Bytes) : Keeps I (kvDelete table key) := by
  intro st hst
  unfold kvDelete
  cases get st.indexTables table with
  | none => exact hst
  | some t => exact hI st _ hst

theorem keeps_deleteEntry (enc : Value → Bytes) (table : String) (id : NodeId)
    (properties : List String) (props : Properties) :
    Keeps I (deleteEntry enc table id properties props) := by
  unfold deleteEntry
  cases collectValues props properties with
  | none => exact keeps_pure I ()
  | some values => exact keeps_kvDelete hI table _

theorem keeps_insertEntry (enc : Value → Bytes) (table : String) (id : NodeId)
    (properties : List String) (props : Properties) :
    Keeps I (insertEntry enc table id properties props) := by
  unfold insertEntry
  cases collectValues props properties with
  | none => exact keeps_pure I ()
  | some values => exact keeps_kvPut hI table _

theorem keeps_updateIndexesForNode (enc : Value → Bytes) (id : NodeId) (labels : List String)
    (old : Option Properties) (new : Properties) :
    Keeps I (updateIndexesForNode enc id labels old new) := by
  refine keeps_forEach fun label _ => ?_
  refine keeps_reading fun infos => ?_
  refine keeps_forEach fun info _ => ?_
  refine keeps_reading fun table => ?_
  refine keeps_bind ?_ fun _ => keeps_insertEntry hI enc table id info.properties new
  cases old with
  | none => exact keeps_pure I ()
  | some props => exact keeps_deleteEntry hI enc table id info.properties props

theorem keeps_removeIndexesForLabel (enc : Value → Bytes) (id : NodeId) (label : String)
    (props : Properties) : Keeps I (removeIndexesForLabel enc id label props) := by
  refine keeps_reading fun infos => ?_
  refine keeps_forEach fun info _ => ?_
  exact keeps_reading fun table =>
    keeps_deleteEntry hI enc table id info.properties props

theorem keeps_removeIndexesForNode (enc : Value → Bytes) (id : NodeId) (labels : List String)
    (props : Properties) : Keeps I (removeIndexesForNode enc id labels props) :=
  keeps_forEach fun label _ => keeps_removeIndexesForLabel hI enc id label props

end IndexFrames

section FullTextFrames

variable {I : Store → Prop} (hI : ∀ st ftsTables,I st → I {st with ftsTables := ftsTables})

include hI

theorem keeps_ftsInsert (engine : FtsEngine) (table : String) (rowid : Int64)
    (texts : List (Option String)) : Keeps I (ftsInsert engine table rowid texts) := by
  intro st hst
  unfold ftsInsert
  cases get st.ftsTables table with
  | none => exact hst
  | some t =>
    dsimp only
    split_ifs
    · exact hst
    · exact hst
    · exact hI st _ hst

theorem keeps_ftsDelete (table : String) (rowid : Int64) : Keeps I (ftsDelete table rowid) := by
  intro st hst
  unfold ftsDelete
  cases get st.ftsTables table with
  | none => exact hst
  | some t =>
    dsimp only
    split_ifs
    · exact hst
    · exact hI st _ hst

theorem keeps_deleteOldTexts (table : String) (id : NodeId) (texts : List (Option String)) :
    Keeps I (deleteOldTexts table id texts) := by
  unfold deleteOldTexts
  split_ifs
  · exact keeps_ftsDelete hI table _
  · exact keeps_pure I ()

theorem keeps_insertNewTexts (engine : FtsEngine) (table : String) (id : NodeId)
    (texts : List (Option String)) : Keeps I (insertNewTexts engine table id texts) := by
  unfold insertNewTexts
  split_ifs
  · exact keeps_ftsInsert hI engine table _ _
  · exact keeps_ftsInsert hI engine table _ _
  · exact keeps_pure I ()

theorem keeps_updateFtsForNode (engine : FtsEngine) (id : NodeId) (labels : List String)
    (old : Option Properties) (new : Properties) :
    Keeps I (updateFtsForNode engine id labels old new) := by
  refine keeps_forEach fun label _ => ?_
  refine keeps_reading fun infos => ?_
  refine keeps_forEach fun info _ => ?_
  unfold updateFtsForNodeOneIndex
  dsimp only
  split_ifs
  · exact keeps_pure I ()
  · exact keeps_bind (keeps_deleteOldTexts hI _ _ _) fun _ => keeps_insertNewTexts hI engine _ _ _

theorem keeps_removeFtsForLabel (id : NodeId) (label : String) (props : Properties) :
    Keeps I (removeFtsForLabel id label props) := by
  refine keeps_reading fun infos => ?_
  exact keeps_forEach fun info _ => keeps_deleteOldTexts hI _ _ _

theorem keeps_removeFtsForNode (id : NodeId) (labels : List String) (props : Properties) :
    Keeps I (removeFtsForNode id labels props) :=
  keeps_forEach fun label _ => keeps_removeFtsForLabel hI id label props

end FullTextFrames

theorem keeps_maintainNode {I : Store → Prop}
    (hindex : ∀ st indexTables,I st → I {st with indexTables := indexTables})
    (hfts : ∀ st ftsTables,I st → I {st with ftsTables := ftsTables}) {E : Type} (env : ExecEnv E)
    (id : NodeId) (labels : List String) (old : Option Properties) (new : Properties) :
    Keeps I (maintainNode env id labels old new) :=
  keeps_bind (keeps_updateIndexesForNode hindex env.enc id labels old new) fun _ =>
    keeps_updateFtsForNode hfts env.engine id labels old new

end GraphDbLite.WriteOperators
