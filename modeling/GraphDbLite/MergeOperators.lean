import GraphDbLite.PropertySetters
import GraphDbLite.Traversal

/-!
# MERGE

MERGE looks for the entities of its pattern and creates them when it finds none. Nodes
are found through an index on one inline property or by a label scan, relationships
between two nodes among the parallel ones. Inline properties are evaluated first and
compared as stored values. SET items follow a creation or a match.
-/

namespace GraphDbLite.MergeOperators

open ByteStrings GraphTypes OrderedTable StatefulActions GraphStore EdgeStorage NodeStorage
open SecondaryIndex WriteOperators PropertySetters CypherSyntax CypherValues Traversal

/-- Whether properties hold every expected value. -/
def hasProperties (props expected : Properties) : Bool :=
  expected.all fun entry =>
    match getProp props entry.1 with
    | some val => valueEq val entry.2
    | none => false

/-- The inline properties that an index of the label on one property covers. -/
def indexedProperty (st : Store) (label : String) (props : Properties) : Option (String×Value) :=
  let indexed := (listIndexesForLabel st label).filterMap fun info =>
    match info.properties with
    | [property] => some property
    | _ => none
  props.find? fun entry => indexed.contains entry.1

section Finders

variable {E : Type} (env : ExecEnv E) (st : Store)

/-- Evaluate the inline properties of a pattern; null is refused. -/
def mergeProperties (rec : NamedRecord) (props : Properties) : List (String×E) → Result Properties
  | [] => .ok props
  | (key,expr)::rest =>
    match env.eval st expr rec with
    | .error e => .error e
    | .ok val =>
      if val.isNull=true then
        .error (.query .semanticError .semanticAnalysis .mergeReadOwnWrites "MERGE with null property value")
      else mergeProperties rec (insertProp props key val) rest

/-- Nodes that the index of one property lists for a value. -/
def indexLookup (label property : String) (value : Value) : Result (List NodeId) := do
  let table ← resolveIndexTable st label [property]
  match get st.indexTables table with
  | none => .error (.indexNotFound label [property] none)
  | some t =>
    pure (((scanPrefix t (env.enc value)).filter fun row => 8 ≤ row.1.length).map fun row =>
      fromBeBytes (row.1.drop (row.1.length-8)))

/-- Listed nodes that hold the properties. -/
def listedMatches (props : Properties) : List NodeId → Result (List Node)
  | [] => .ok []
  | id::rest => do
    let n ← getNode st id
    let more ← listedMatches props rest
    pure (if hasProperties n.properties props=true then n::more else more)

/-- The first listed node that holds the properties; later ones are not read. -/
def firstListedMatch (props : Properties) : List NodeId → Result (Option Node)
  | [] => .ok none
  | id::rest => do
    let n ← getNode st id
    if hasProperties n.properties props=true then pure (some n) else firstListedMatch props rest

/-- All nodes of a label that hold the properties; a node found through an index is
not tested for the label. -/
def findMergeMatchesByLabelAndProps (label : String) (props : Properties) : Result (List Node) :=
  match indexedProperty st label props with
  | some (key,value) => do
    let ids ← indexLookup env st label key value
    listedMatches st props ids
  | none => .ok ((findNodesByLabel st label).filter fun n => hasProperties n.properties props)

/-- All nodes that match evaluated properties. -/
def findMergeMatchesEvaluated (label : String) (props : Properties) : Result (List Node) :=
  findMergeMatchesByLabelAndProps env st label props

/-- The first node that matches evaluated properties. -/
def findMergeMatchEvaluated (label : String) (props : Properties) : Result (Option Node) :=
  match indexedProperty st label props with
  | some (key,value) => do
    let ids ← indexLookup env st label key value
    firstListedMatch st props ids
  | none => .ok ((findNodesByLabel st label).find? fun n => hasProperties n.properties props)

/-- The first node that matches the properties and carries all labels. -/
def findMergeMatchMultiLabel (labels : List String) (props : Properties) : Result (Option Node) := do
  let candidates ← findMergeMatchesByLabelAndProps env st (labels.head?.getD "") props
  pure (candidates.find? fun n => labels.all fun label => n.labels.contains label)

end Finders

/-- Show a merged node downstream, and the path of a named pattern. -/
def bindMergedNode (rec : NamedRecord) (nodeAlias : String) (pathVar : Option String) (n : Node) :
    NamedRecord :=
  let rec₁ := (rec.set nodeAlias (.i64 n.id.toInt64)).set (nodeAlias++".__id") (.i64 n.id.toInt64)
  let rec₂ := n.properties.foldl (fun rec entry => rec.set (nodeAlias++("."++entry.1)) entry.2) rec₁
  match pathVar with
  | some pathVar => rec₂.set pathVar (.path ⟨[n],[]⟩)
  | none => rec₂

/-- Show a variable of an end of a relationship pattern. -/
def bindEnd (rec : NamedRecord) (var : Option String) (id : NodeId) : NamedRecord :=
  match var with
  | some var => rec.set var (.i64 id.toInt64)
  | none => rec

/-- A relationship found or created, with its sequence number when it was found. -/
structure MergedEdge where
  /-- Source. -/
  src : NodeId
  /-- Destination. -/
  dst : NodeId
  /-- Type. -/
  label : String
  /-- Sequence number. -/
  seq : Option UInt64

/-- Properties of a merged relationship; without a sequence number those of the first
parallel one. -/
def MergedEdge.properties (e : MergedEdge) (st : Store) : Properties :=
  match e.seq with
  | some seq => getEdgePropertiesAt st e.src e.dst e.label seq
  | none => getEdgeProperties st e.src e.dst e.label

/-- Show a merged relationship downstream. -/
def bindMergedEdge (rec : NamedRecord) (var : Option String) (e : MergedEdge) (st : Store) : NamedRecord :=
  match var with
  | none => rec
  | some var =>
    let rec₁ := (rec.set var (.string e.label)).set (var++".__src") (.i64 e.src.toInt64)
    let rec₂ := (rec₁.set (var++".__dst") (.i64 e.dst.toInt64)).set (var++".__type") (.string e.label)
    let rec₃ := match e.seq with
      | some seq => rec₂.set (var++".__edge_seq") (.i64 seq.toInt64)
      | none => rec₂
    (e.properties st).foldl (fun rec entry => rec.set (var++("."++entry.1)) entry.2) rec₃

/-- Show the path of a named relationship pattern. -/
def bindMergedPath (rec : NamedRecord) (pathVar : Option String) (e : MergedEdge) (st : Store) :
    Result NamedRecord :=
  match pathVar with
  | none => .ok rec
  | some pathVar => do
    let src ← getNode st e.src
    let dst ← getNode st e.dst
    pure (rec.set pathVar (.path ⟨[src,dst],[⟨e.src,e.dst,e.label,e.properties st⟩]⟩))

section Operators

variable {E : Type} (env : ExecEnv E)

/-- Apply one SET item of MERGE to a relationship that is read and written in a given way. -/
def applySetItemToEdge (read : Store → Properties) (write : String → Value → Store → Store)
    (item : SetItem E) (rec : NamedRecord) : Db Unit :=
  match item with
  | .property a => do
    let val ← inspect fun st => env.eval st a.value rec
    update (write a.property val)
  | .label _ _ => pure ()
  | .mapMerge _ value => do
    let map ← inspect fun st => resolveToMap env st value rec
    update fun st => map.foldl (fun st entry => write entry.1 entry.2 st) st
  | .mapOverwrite _ value => do
    let map ← inspect fun st => resolveToMap env st value rec
    let old ← inspect fun st => .ok (read st)
    update fun st => old.foldl (fun st entry => write entry.1 .null st) st
    update fun st => map.foldl (fun st entry => write entry.1 entry.2 st) st

/-- Apply one SET item of MERGE to the first parallel relationship. -/
def applyMergeSetItemEdge (item : SetItem E) (src dst : NodeId) (label : String) (rec : NamedRecord) :
    Db Unit :=
  applySetItemToEdge env (fun st => getEdgeProperties st src dst label)
    (fun key value st => setEdgeProperty st src dst label key value) item rec

/-- Apply one SET item of MERGE to one parallel relationship. -/
def applyMergeSetItemEdgeAt (item : SetItem E) (src dst : NodeId) (label : String) (seq : UInt64)
    (rec : NamedRecord) : Db Unit :=
  applySetItemToEdge env (fun st => getEdgePropertiesAt st src dst label seq)
    (fun key value st => setEdgePropertyAt st src dst label seq key value) item rec

/-- Find the node of a pattern or create it, and apply the SET items of the case. -/
def mergeNode (node : NodePatternOf E) (onCreate onMatch : List (SetItem E)) : Db NodeId := do
  let props ← inspect fun st => mergeProperties env st ⟨[]⟩ [] node.properties
  let found ← inspect fun st => findMergeMatchMultiLabel env st node.labels props
  match found with
  | some n => do
    forEach onMatch fun item => applyMergeSetItemNode env item n.id ⟨[]⟩
    pure n.id
  | none => do
    let id ← createIndexedNode env node.labels props
    forEach onCreate fun item => applyMergeSetItemNode env item id ⟨[]⟩
    pure id

/-- Single-node MERGE. -/
def execMergeNode (node : NodePatternOf E) (pathVar : Option String) (onCreate onMatch : List (SetItem E)) :
    Db (List NamedRecord) := do
  let id ← mergeNode env node onCreate onMatch
  let resolved ← inspect fun st => getNode st id
  pure [bindMergedNode ⟨[]⟩ (node.var.getD "_merge") pathVar resolved]

/-- The labels a node is created with when only the first label of its pattern counts. -/
def firstLabel (node : NodePatternOf E) : String := node.labels.head?.getD ""

/-- Labels of a node created under one label. -/
def labelsOf (label : String) : List String := if label="" then [] else [label]

/-- Find an end of a relationship pattern or create it. -/
def findOrCreateMergeNode (label : String) (properties : List (String×E)) : Db NodeId := do
  let props ← inspect fun st => mergeProperties env st ⟨[]⟩ [] properties
  let found ← inspect fun st => findMergeMatchEvaluated env st label props
  match found with
  | some n => pure n.id
  | none => createIndexedNode env (labelsOf label) props

/-- The type of a relationship pattern. -/
def edgeTypeOf (rel : RelPatternOf E) : String := rel.relTypes.head?.getD ""

/-- Whether a relationship exists and the first parallel one holds the properties. -/
def firstEdgeMatches (st : Store) (src dst : NodeId) (label : String) (props : Properties) : Bool :=
  edgeExists st src dst label && hasProperties (getEdgeProperties st src dst label) props

/-- Find the relationship between two nodes or create it, and apply the SET items of the
case. -/
def mergeEdge (rel : RelPatternOf E) (onCreate onMatch : List (SetItem E)) (srcId dstId : NodeId)
    (rec : NamedRecord) : Db Unit := do
  let label := edgeTypeOf rel
  let props ← inspect fun st => mergeProperties env st ⟨[]⟩ [] rel.properties
  let found ← inspect fun st => .ok (firstEdgeMatches st srcId dstId label props)
  if found=true then
    forEach onMatch fun item => applyMergeSetItemEdge env item srcId dstId label rec
  else do
    createEdge srcId dstId label props
    forEach onCreate fun item => applyMergeSetItemEdge env item srcId dstId label rec

/-- Relationship MERGE without an input; the direction of the arrow is not read. -/
def execMergeRelationship (src : NodePatternOf E) (rel : RelPatternOf E) (dst : NodePatternOf E)
    (pathVar : Option String) (onCreate onMatch : List (SetItem E)) : Db (List NamedRecord) := do
  let srcId ← findOrCreateMergeNode env (firstLabel src) src.properties
  let dstId ← findOrCreateMergeNode env (firstLabel dst) dst.properties
  let rec_ := bindEnd (bindEnd ⟨[]⟩ src.var srcId) dst.var dstId
  mergeEdge env rel onCreate onMatch srcId dstId rec_
  let out ← inspect fun st => bindMergedPath rec_ pathVar ⟨srcId,dstId,edgeTypeOf rel,none⟩ st
  pure [out]

/-- `MERGE` without an input; the parser builds only patterns that alternate between
nodes and relationships, and of a longer one the first three elements are merged. -/
def execMerge (pattern : PatternOf E) (onCreate onMatch : List (SetItem E)) : Db (List NamedRecord) :=
  match pattern.elements with
  | [.node node] => execMergeNode env node pattern.pathVar onCreate onMatch
  | .node src::.relationship rel::.node dst::_ =>
    execMergeRelationship env src rel dst pattern.pathVar onCreate onMatch
  | _ => fail (.semantic "MERGE pattern validated at plan time")

/-- The row of one matching node. -/
def matchedNodeRow (nodeAlias : String) (pathVar : Option String) (onMatch : List (SetItem E))
    (rec : NamedRecord) (n : Node) : Db NamedRecord := do
  forEach onMatch fun item => applyMergeSetItemNode env item n.id rec
  let resolved ← inspect fun st => getNode st n.id
  pure (bindMergedNode rec nodeAlias pathVar resolved)

/-- Single-node MERGE on one record: one row for every match. -/
def matchMergeNode (node : NodePatternOf E) (pathVar : Option String) (onCreate onMatch : List (SetItem E))
    (rec : NamedRecord) : Db (List NamedRecord) := do
  let label := firstLabel node
  let nodeAlias := node.var.getD "_merge"
  let props ← inspect fun st => mergeProperties env st rec [] node.properties
  let found ← inspect fun st => findMergeMatchesEvaluated env st label props
  if found.isEmpty=true then do
    let id ← createIndexedNode env (labelsOf label) props
    forEach onCreate fun item => applyMergeSetItemNode env item id rec
    let resolved ← inspect fun st => getNode st id
    pure [bindMergedNode rec nodeAlias pathVar resolved]
  else mapEach found (matchedNodeRow env nodeAlias pathVar onMatch rec)

/-- Parallel relationships that hold the properties. -/
def findMatchingEdges (st : Store) (src dst : NodeId) (label : String) (props : Properties) :
    List MergedEdge :=
  ((getAllEdgeProps st src dst label).filter fun e => hasProperties e.2 props).map fun e =>
    ⟨src,dst,label,some e.1⟩

/-- Relationships that a pattern matches between two nodes; an undirected pattern also
looks in the other direction. -/
def matchedEdges (st : Store) (direction : RelDirection) (src dst : NodeId) (label : String)
    (props : Properties) : List MergedEdge :=
  findMatchingEdges st src dst label props++
    if direction=.undirected then findMatchingEdges st dst src label props else []

/-- Apply the SET items of a match to one relationship. -/
def setMatchedEdge (onMatch : List (SetItem E)) (rec : NamedRecord) (e : MergedEdge) : Db Unit :=
  forEach onMatch fun item => applyMergeSetItemEdgeAt env item e.src e.dst e.label (e.seq.getD 0) rec

/-- Relationship MERGE between the two nodes of one record: one row for every match. -/
def matchMergeEdge (rel : RelPatternOf E) (pathVar : Option String) (onCreate onMatch : List (SetItem E))
    (srcId dstId : NodeId) (rec : NamedRecord) : Db (List NamedRecord) := do
  let label := edgeTypeOf rel
  let props ← inspect fun st => mergeProperties env st rec [] rel.properties
  let found ← inspect fun st => .ok (matchedEdges st rel.direction srcId dstId label props)
  if found.isEmpty=true then do
    createEdge srcId dstId label props
    forEach onCreate fun item => applyMergeSetItemEdge env item srcId dstId label rec
    let out ← inspect fun st =>
      bindMergedPath (bindMergedEdge rec rel.var ⟨srcId,dstId,label,none⟩ st) pathVar
        ⟨srcId,dstId,label,none⟩ st
    pure [out]
  else do
    forEach found (setMatchedEdge env onMatch rec)
    mapEach found fun e => inspect fun st =>
      bindMergedPath (bindMergedEdge rec rel.var e st) pathVar e st

/-- Relationship MERGE on one record; a record without both ends gives no row. -/
def matchMergeRelationship (srcVar dstVar : String) (rel : RelPatternOf E) (pathVar : Option String)
    (onCreate onMatch : List (SetItem E)) (rec : NamedRecord) : Db (List NamedRecord) :=
  match nodeIdField rec srcVar,nodeIdField rec dstVar with
  | some srcId,some dstId => matchMergeEdge env rel pathVar onCreate onMatch srcId dstId rec
  | _,_ => pure []

/-- The variable of an end of a relationship pattern. -/
def endVariable (node : NodePatternOf E) (message : String) : Result String :=
  match node.var with
  | some var => .ok var
  | none => .error (.semantic message)

theorem endVariable_ok {node : NodePatternOf E} {message var : String} (h : endVariable node message=.ok var) :
    node.var=some var := by
  unfold endVariable at h
  cases hvar : node.var with
  | none =>
    rw [hvar] at h
    cases h
  | some v =>
    rw [hvar] at h
    rw [Except.ok.inj h]

/-- `MERGE` on the records of its input. -/
def execMatchMerge (records : List NamedRecord) (pattern : PatternOf E)
    (onCreate onMatch : List (SetItem E)) : Db (List NamedRecord) :=
  match pattern.elements with
  | [.node node] => do
    let rows ← mapEach records (matchMergeNode env node pattern.pathVar onCreate onMatch)
    pure rows.flatten
  | [.node src,.relationship rel,.node dst] => do
    let srcVar ← inspect fun _ => endVariable src "MERGE relationship source must have a variable"
    let dstVar ← inspect fun _ => endVariable dst "MERGE relationship target must have a variable"
    let rows ← mapEach records
      (matchMergeRelationship env srcVar dstVar rel pattern.pathVar onCreate onMatch)
    pure rows.flatten
  | [.node _,.node _,_] => fail (.semantic "expected relationship pattern")
  | [_,_,_] => fail (.semantic "expected node pattern")
  | _ => fail (.semantic "MERGE pattern must be a single node or (node)-[rel]->(node)")

end Operators

end GraphDbLite.MergeOperators
