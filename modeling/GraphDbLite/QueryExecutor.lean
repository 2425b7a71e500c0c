import GraphDbLite.QueryPlan
import GraphDbLite.FallibleLists

/-!
# Query execution

Leaves produce one flat record for each node they find. An expansion follows the
relationships of one node of a record; it has one implementation for plain runs
and one for runs under the bindings of an outer record. A run under an outer
record looks at the bound variables in the leaves, adds the outer fields to the
records that filters see, and falls back to a plain run for the operators that do
not take part in it.
-/

namespace GraphDbLite.QueryExecutor

open ByteStrings GraphTypes OrderedTable StatefulActions GraphStore EdgeStorage NodeStorage
open SecondaryIndex FullText WriteOperators CypherSyntax CypherValues CypherEval Traversal QueryPlan
open FallibleLists

/-- Rows of a result. -/
abbrev Rows := List NamedRecord

/-- What query execution takes from the rest of the library. -/
structure QueryEnv (S : Type) where
  /-- Expression evaluation. -/
  eval : EvalEnv S
  /-- Serialized form of a value. -/
  enc : Value → Bytes
  /-- Whether a text matches a quoted term under a tokenizer. -/
  ftsMatches : FtsTokenizerKind → String → String → Bool
  /-- Negated relevance of a matching row. -/
  ftsScore : FtsTable → String → Int64 → UInt64
  /-- Most rows that scans, expansions and products may return; zero means any. -/
  maxResultRows : Nat
  /-- Budget of relationship visits of a path search. -/
  maxTraversalWork : UInt64
  /-- Operators on the rows of their input, plain or under an outer record. -/
  rowOp : RowOp S → Option NamedRecord → Rows → Db Rows
  /-- Operators without an input. -/
  sourceOp : SourceOp S → Db Rows

/-- The record without fields. -/
def emptyRecord : NamedRecord := ⟨[]⟩

/-- Identifier held by a field: a flat binding or a node value. -/
def valueToNodeId : Value → Option NodeId
  | .i64 id => some id.toUInt64
  | .node n => some n.id
  | _ => none

/-- Identifier bound to a variable. -/
def boundNode (rec : NamedRecord) (var : String) : Option NodeId := (rec.get var).bind valueToNodeId

/-- Whether a variable is bound to null. -/
def boundNull (rec : NamedRecord) (var : String) : Bool :=
  match rec.get var with
  | some .null => true
  | _ => false

/-- Write properties under a variable. -/
def bindProperties (rec : NamedRecord) (var : String) (props : Properties) : NamedRecord :=
  props.foldr (fun entry rec => rec.set (var++("."++entry.1)) entry.2) rec

/-- Write the flat fields of a node under a variable. -/
def populateNodeBindings (rec : NamedRecord) (n : Node) (nodeAlias : String) : NamedRecord :=
  let named := rec.set nodeAlias (.i64 n.id.toInt64)
  let filled := bindProperties named nodeAlias n.properties
  let labelled := filled.set (nodeAlias++".__label") (.string (String.intercalate ":" n.labels))
  let listed := labelled.set (nodeAlias++".__labels") (labelList n.labels)
  listed.set (nodeAlias++".__id") (.i64 n.id.toInt64)

/-- The record of a node under a variable. -/
def nodeToRecord (n : Node) (nodeAlias : String) : NamedRecord :=
  populateNodeBindings emptyRecord n nodeAlias

/-- Read a node and write its fields under a variable. -/
def fetchAndPopulate (st : Store) (rec : NamedRecord) (id : NodeId) (nodeAlias : String) :
    Result NamedRecord := do
  let n ← getNode st id
  pure (populateNodeBindings rec n nodeAlias)

/-- Copy fields that the record does not have. -/
def NamedRecord.fillFrom (rec other : NamedRecord) : NamedRecord :=
  other.fields.foldl (fun rec field => if (rec.get field.1).isSome=true then rec
    else rec.set field.1 field.2) rec

/-- Copy all fields, replacing present ones. -/
def NamedRecord.overlay (rec other : NamedRecord) : NamedRecord :=
  other.fields.foldl (fun rec field => rec.set field.1 field.2) rec

/-- The rest of a text before a literal end. -/
def stripEnd (back text : String) : Option String :=
  if back.toList.isSuffixOf text.toList=true then
    some (String.ofList (text.toList.take (text.toList.length-back.toList.length)))
  else none

/-- Identity of a relationship without its direction. -/
def edgeKey (src dst : Int64) (label : String) (seq : UInt64) : Int64×Int64×String×UInt64 :=
  if src.toInt≤dst.toInt then (src,dst,label,seq) else (dst,src,label,seq)

/-- Flat relationship bindings of a record with their identities. -/
def flatEdges (rec : NamedRecord) : List (String×(Int64×Int64×String×UInt64)) :=
  rec.fields.filterMap fun field =>
    match stripEnd ".__src" field.1 with
    | none => none
    | some relAlias =>
      match rec.get field.1,rec.get (relAlias++".__dst"),rec.get (relAlias++".__type") with
      | some (.i64 src),some (.i64 dst),some (.string label) =>
        some (relAlias,edgeKey src dst label ((edgeSeqField rec relAlias).getD 0))
      | _,_,_ => none

/-- Identities of the flat relationship bindings of a record. -/
def collectFlatEdgeIds (rec : NamedRecord) : List (Int64×Int64×String×UInt64) :=
  (flatEdges rec).map Prod.snd

/-- Whether two bindings of a record are the same relationship. -/
def hasDuplicateRelationships (rec : NamedRecord) : Bool := !decide (collectFlatEdgeIds rec).Nodup

/-- Whether another binding of a record is the given relationship. -/
def clashes (rec : NamedRecord) (relAlias : String) (key : Int64×Int64×String×UInt64) : Bool :=
  (flatEdges rec).any fun edge => edge.1≠relAlias && edge.2=key

/-- Write the identity of a relationship under a variable. -/
def bindRelationship (rec : NamedRecord) (relAlias label : String) (src dst : NodeId) : NamedRecord :=
  let named := rec.set relAlias (.string label)
  let sourced := named.set (relAlias++".__src") (.i64 src.toInt64)
  let reached := sourced.set (relAlias++".__dst") (.i64 dst.toInt64)
  reached.set (relAlias++".__type") (.string label)

/-- The relationships of a path as a list value. -/
def stepList (st : Store) (steps : List PathStep) : Value :=
  .list (steps.map fun step => .edge ⟨step.edgeSrc,step.edgeDst,step.edgeLabel,
    getEdgePropertiesAt st step.edgeSrc step.edgeDst step.edgeLabel step.edgeSeq⟩)

/-- Literal values of inline property filters; other expressions are not checked. -/
def literalFilters {S : Type} (filters : List (String×Expr S)) : List (String×Value) :=
  filters.filterMap fun entry =>
    match entry.2 with
    | .literal l => some (entry.1,literalToValue l)
    | _ => none

/-- Whether a reached node is the required one. -/
def reaches (required : Option NodeId) (id : NodeId) : Bool :=
  match required with
  | some other => id=other
  | none => true

section Operators

variable {S : Type} (env : QueryEnv S) (st : Store)

/-- Refuse more rows than allowed. -/
def checkRowLimit (rows : Rows) : Result Rows :=
  if 0<env.maxResultRows ∧ env.maxResultRows < rows.length then
    .error (.query .constraintViolation .runtime .other
      ("result set exceeded maximum of "++(toString env.maxResultRows++ " rows")))
  else .ok rows

/-- One row for each node of a label. -/
def execScan (label nodeAlias : String) : Result Rows :=
  checkRowLimit env ((findNodesByLabel st label).map fun n => nodeToRecord n nodeAlias)

/-- The row of the node whose identifier an expression gives. -/
def execIdLookup (nodeAlias : String) (valueExpr : Expr S) (rec : NamedRecord) : Result Rows := do
  match ← evalExpr env.eval st valueExpr rec with
  | .i64 n =>
    if n.toInt<0 then pure []
    else
      match getNode st n.toUInt64 with
      | .ok node => pure [nodeToRecord node nodeAlias]
      | .error (.nodeNotFound _ _) => pure []
      | .error e => .error e
  | _ => pure []

/-- Value of a lookup key. -/
def resolveLookupKey : LookupKey → Result Value
  | .literal l => .ok (literalToValue l)
  | .param name =>
    match env.eval.params name with
    | some v => .ok v
    | none => .error (.query .argumentError .runtime .missingParameter ("missing parameter: $"++name))

/-- Values of the lookup keys in order. -/
def resolveLookups : List (String×LookupKey) → Result (List Value)
  | [] => .ok []
  | entry::rest => do
    let v ← resolveLookupKey env entry.2
    let vs ← resolveLookups rest
    pure (v::vs)

/-- Identifiers of the index rows that start with the given values. -/
def compositeIndexPrefixLookup (label : String) (properties : List String) (values : List Value) :
    Result (List NodeId) := do
  let table ← resolveIndexTable st label properties
  match get st.indexTables table with
  | none => .error (.storage ("no such table: "++table) none)
  | some t =>
    pure (((scanPrefix t (values.flatMap env.enc)).filter fun row => 8 ≤ row.1.length).map fun row =>
      fromBeBytes (row.1.drop (row.1.length-8)))

/-- Identifiers found by an index lookup. -/
def indexLookupIds (label : String) (indexProperties : List String) (lookups : List (String×LookupKey)) :
    Result (List NodeId) := do
  let values ← resolveLookups env lookups
  compositeIndexPrefixLookup env st label indexProperties values

/-- Whether a record passes an optional filter. -/
def passesFilter (filter : Option (Expr S)) (rec : NamedRecord) : Result Bool :=
  match filter with
  | some predicate => evalPredicate env.eval st predicate rec
  | none => .ok true

/-- The row of one index entry, if it passes. -/
def indexRow (label nodeAlias : String) (remainingFilters : Option (Expr S)) (id : NodeId) :
    Result Rows := do
  let n ← getNode st id
  if label ≠ "" ∧ label∉n.labels then pure []
  else do
    let keep ← passesFilter env st remainingFilters (nodeToRecord n nodeAlias)
    pure (if keep=true then [nodeToRecord n nodeAlias] else [])

/-- Rows of an index lookup. -/
def execIndexLookup (label nodeAlias : String) (indexProperties : List String)
    (lookups : List (String×LookupKey)) (remainingFilters : Option (Expr S)) : Result Rows := do
  let ids ← indexLookupIds env st label indexProperties lookups
  gather (indexRow env st label nodeAlias remainingFilters) ids

/-- Whether the expected values of an index lookup are the fields of a record. -/
def lookupsMatch (nodeAlias : String) (rec : NamedRecord) : List (String×LookupKey) → Result Bool
  | [] => .ok true
  | (property,key)::rest => do
    let expected ← resolveLookupKey env key
    match rec.get (nodeAlias++("."++property)) with
    | some actual => if valueEq actual expected=true then lookupsMatch nodeAlias rec rest else pure false
    | none => pure false

/-- An index lookup of a variable that is already bound. -/
def indexLookupBound (label nodeAlias : String) (lookups : List (String×LookupKey))
    (remainingFilters : Option (Expr S)) (id : NodeId) : Result Rows := do
  let n ← getNode st id
  if label ≠ "" ∧ label∉n.labels then pure []
  else do
    let rec_ := nodeToRecord n nodeAlias
    if (← lookupsMatch env nodeAlias rec_ lookups)=false then pure []
    else do
      let keep ← passesFilter env st remainingFilters rec_
      pure (if keep=true then [rec_] else [])

/-- Texts of the content column that match a term, with their scores. -/
def ftsQuery (t : FtsTable) (term : String) : List (NodeId×UInt64) :=
  t.rows.filterMap fun row =>
    match ((t.columns.zip row.2).find? fun cell => cell.1 = "content").bind Prod.snd with
    | some text =>
      if env.ftsMatches t.kind term text=true then some (row.1.toUInt64,env.ftsScore t term row.1)
      else none
    | none => none

/-- Nodes and scores of a full-text query; nothing below three characters. -/
def fulltextLookup (label property term : String) : Result (Option (List (NodeId×UInt64))) :=
  if term.toList.length<3 then .ok none
  else do
    let table ← resolveFtsTable st label property
    match get st.ftsTables table with
    | some t =>
      if t.shadows≠shadowSuffixes then .error (.storage "database disk image is malformed" none)
      else pure (some (ftsQuery env t term))
    | none => .error (.indexNotFound label [property]
        (some "no fulltext index on this (label, property)"))

/-- Position check of a text predicate. -/
def textOpHolds (op : FullTextOp) (text term : String) : Bool :=
  match op with
  | .contains => containsText term text
  | .startsWith => startsWithText text term
  | .endsWith => endsWithText text term

/-- Check on a candidate of a full-text query; containment is not checked again. -/
def ftsAnchorMatches (properties : Properties) (property : String) (op : FullTextOp) (term : String) :
    Bool :=
  match textOf properties property with
  | none => false
  | some text =>
    match op with
    | .contains => true
    | _ => textOpHolds op text term

/-- The row of a candidate, if it passes. -/
def ftsRow (nodeAlias : String) (remainingFilters : Option (Expr S)) (n : Node) (score : UInt64) :
    Result Rows := do
  let rec_ := (nodeToRecord n nodeAlias).set (nodeAlias++".__fts_score") (.f64 score)
  let keep ← passesFilter env st remainingFilters rec_
  pure (if keep=true then [rec_] else [])

/-- Rows of a label scan whose property satisfies the text predicate. -/
def execFulltextFallback (label nodeAlias property : String) (op : FullTextOp) (term : String)
    (remainingFilters : Option (Expr S)) : Result Rows :=
  gather (fun n =>
    match textOf n.properties property with
    | none => .ok []
    | some text =>
      if textOpHolds op text term=true then ftsRow env st nodeAlias remainingFilters n 0 else .ok [])
    (findNodesByLabel st label)

/-- Rows of a full-text lookup. -/
def execFulltextLookup (label nodeAlias property : String) (op : FullTextOp) (termExpr : Expr S)
    (remainingFilters : Option (Expr S)) (rec : NamedRecord) : Result Rows := do
  match ← evalExpr env.eval st termExpr rec with
  | .string term => do
    match ← fulltextLookup env st label property term with
    | none => execFulltextFallback env st label nodeAlias property op term remainingFilters
    | some candidates =>
      gather (fun candidate => do
        let n ← getNode st candidate.1
        if ftsAnchorMatches n.properties property op term=true then
          ftsRow env st nodeAlias remainingFilters n candidate.2
        else pure []) candidates
  | .null => pure []
  | other => .error (.query .typeError .runtime .other
      ("fulltext predicate on '"++(property++("' requires a String term, got "++valueTypeName other))))

/-- Bounds of the path search of a variable-length expansion. -/
def expandSearch (spec : ExpandSpec S) (cap : Option Nat) : PathSearch :=
  ⟨spec.minHops.toNat,spec.maxHops.toNat,literalFilters spec.varLengthPropFilters,cap,
    env.maxTraversalWork⟩

/-- Types an expansion follows from a node. -/
def expandLabels (spec : ExpandSpec S) (srcId : NodeId) : Result (List String) :=
  if spec.edgeTypes=[] then discoverLabels st srcId spec.direction else .ok spec.edgeTypes

/-- Record reached over a path. -/
def pathRecord (spec : ExpandSpec S) (rec : NamedRecord) (path : NodeId×List PathStep) :
    Result NamedRecord := do
  let reached ← fetchAndPopulate st rec path.1 spec.dstAlias
  pure (match spec.relAlias with
    | some relAlias => reached.set relAlias (stepList st path.2)
    | none => reached)

/-- Record reached over one parallel relationship, unless the record already uses
it. -/
def relationshipRecord (rec : NamedRecord) (relAlias label : String) (src dst : NodeId)
    (entry : UInt64×Properties) : Rows :=
  if clashes rec relAlias (edgeKey src.toInt64 dst.toInt64 label entry.1)=true then []
  else
    let bound := (bindRelationship rec relAlias label src dst).set (relAlias++".__edge_seq")
      (.i64 entry.1.toInt64)
    [bindProperties bound relAlias entry.2]

/-- Parallel relationships of a pair; a pair without rows counts once. -/
def parallelEdges (src dst : NodeId) (label : String) : List (UInt64×Properties) :=
  let all := getAllEdgeProps st src dst label
  if all.isEmpty=true then [(0,[])] else all

/-- Rows of one neighbour of a plain expansion. -/
def expandNeighbor (spec : ExpandSpec S) (rec : NamedRecord) (srcId : NodeId) (label : String)
    (dstId : NodeId) : Result Rows := do
  let reached ← fetchAndPopulate st rec dstId spec.dstAlias
  pure (match spec.relAlias with
    | none => [reached]
    | some relAlias =>
      let ends := orientation st srcId dstId label spec.direction
      (parallelEdges st ends.1 ends.2 label).flatMap
        (relationshipRecord reached relAlias label ends.1 ends.2))

/-- Rows of one record of a plain expansion. -/
def expandRecord (spec : ExpandSpec S) (cap : Option Nat) (rec : NamedRecord) : Result Rows :=
  match boundNode rec spec.srcAlias with
  | none => .ok []
  | some srcId => do
    let labels ← expandLabels st spec srcId
    let required := boundNode rec spec.dstAlias
    if spec.varLength=true then do
      let paths ← traversePaths st srcId spec.edgeTypes spec.direction (expandSearch env spec cap)
      gather (fun path => (pathRecord st spec rec path).map fun r => [r])
        (paths.filter fun path => reaches required path.1)
    else
      gather (fun label =>
        gather (expandNeighbor st spec rec srcId label)
          ((getNeighbors st srcId label spec.direction).filter fun id => reaches required id)) labels

/-- Rows of a plain expansion; a cap stops it early. -/
def expandRecords (spec : ExpandSpec S) : Rows → Rows → Result Rows
  | [],done => .ok done
  | rec::rest,done =>
    match spec.resultCap with
    | none => do
      let more ← expandRecord env st spec none rec
      expandRecords spec rest (done++more)
    | some cap =>
      if cap.toNat≤done.length then .ok done
      else do
        let more ← expandRecord env st spec (some (cap.toNat-done.length)) rec
        expandRecords spec rest (done++more)

/-- Rows of a plain expansion within the row limit. -/
def execExpand (spec : ExpandSpec S) (records : Rows) : Result Rows := do
  let rows ← expandRecords env st spec records []
  checkRowLimit env rows

/-- Node at the other end of a relationship, when it leaves from the current one. -/
def followEdge (direction : Direction) (current : NodeId) (e : EdgeOf Value) : Option NodeId :=
  match direction with
  | .outgoing => if e.src=current then some e.dst else none
  | .incoming => if e.dst=current then some e.src else none
  | .both => if e.src=current then some e.dst else if e.dst=current then some e.src else none

/-- Node reached by walking a chain of relationships. -/
def followEdges (direction : Direction) : NodeId → List (EdgeOf Value) → Option NodeId
  | current,[] => some current
  | current,e::rest => (followEdge direction current e).bind fun next => followEdges direction next rest

/-- The relationships of a list that holds only relationships. -/
def edgeItems : List Value → Option (List (EdgeOf Value))
  | [] => some []
  | .edge e::rest => (edgeItems rest).map (e::·)
  | _ => none

/-- The relationships a variable-length variable is already bound to. -/
def boundEdgeList (spec : ExpandSpec S) (outer rec : NamedRecord) : Option (List (EdgeOf Value)) :=
  match spec.relAlias with
  | none => none
  | some relAlias =>
    match (outer.get relAlias).or (rec.get relAlias) with
    | some (.list items) =>
      match edgeItems items with
      | some (e::rest) => some (e::rest)
      | _ => none
    | _ => none

/-- Rows of a variable-length expansion over relationships already bound. -/
def expandBoundList (spec : ExpandSpec S) (rec : NamedRecord) (srcId : NodeId)
    (required : Option NodeId) (edges : List (EdgeOf Value)) : Result Rows :=
  match followEdges spec.direction srcId edges with
  | none => .ok []
  | some dstId =>
    if reaches required dstId=true then do
      let reached ← fetchAndPopulate st rec dstId spec.dstAlias
      pure [match spec.relAlias with
        | some relAlias => reached.set relAlias (.list (edges.map Value.edge))
        | none => reached]
    else pure []

/-- Whether a path uses a pair of endpoints and type that a record already has. -/
def overlaps (rec : NamedRecord) (path : NodeId×List PathStep) : Bool :=
  path.2.any fun step =>
    let key := edgeKey step.edgeSrc.toInt64 step.edgeDst.toInt64 step.edgeLabel 0
    (collectFlatEdgeIds rec).any fun edge => edge.1=key.1 && edge.2.1=key.2.1 && edge.2.2.1=key.2.2.1

/-- Rows of a variable-length expansion under an outer record. -/
def expandPaths (spec : ExpandSpec S) (rec : NamedRecord) (srcId : NodeId)
    (required : Option NodeId) : Result Rows := do
  let paths ← traversePaths st srcId spec.edgeTypes spec.direction (expandSearch env spec none)
  gather (fun path => (pathRecord st spec rec path).map fun r => [r])
    (paths.filter fun path => reaches required path.1 && !overlaps rec path)

/-- The relationship a variable is already bound to in an outer record. -/
def boundRelationship (outer : NamedRecord) (relAlias : Option String) :
    Option (NodeId×NodeId×String×UInt64) :=
  relAlias.bind fun relAlias => (edgeIdentity outer relAlias).map fun edge =>
    (edge.1,edge.2.1,edge.2.2,(edgeSeqField outer relAlias).getD 0)

/-- Node reached over a relationship already bound. -/
def boundTarget (direction : Direction) (srcId relSrc relDst : NodeId) : Option NodeId :=
  match direction with
  | .incoming => if srcId=relDst then some relSrc else none
  | .outgoing => if srcId=relSrc then some relDst else none
  | .both => if srcId=relSrc then some relDst else if srcId=relDst then some relSrc else none

/-- Rows of an expansion over a relationship already bound. -/
def expandBoundRelationship (spec : ExpandSpec S) (rec : NamedRecord) (srcId : NodeId)
    (edge : NodeId×NodeId×String×UInt64) : Result Rows :=
  if spec.edgeTypes≠[] ∧ edge.2.2.1∉spec.edgeTypes then .ok []
  else
    match boundTarget spec.direction srcId edge.1 edge.2.1 with
    | none => .ok []
    | some dstId => do
      let reached ← fetchAndPopulate st rec dstId spec.dstAlias
      pure [match spec.relAlias with
        | some relAlias => (bindRelationship reached relAlias edge.2.2.1 edge.1 edge.2.1).set
            (relAlias++".__edge_seq") (.i64 edge.2.2.2.toInt64)
        | none => reached]

/-- Rows of one neighbour of an expansion under an outer record: one row, without
a sequence number and with the properties of the first parallel relationship. -/
def expandNeighborCorrelated (spec : ExpandSpec S) (rec : NamedRecord) (srcId : NodeId) (label : String)
    (dstId : NodeId) : Result Rows := do
  let reached ← fetchAndPopulate st rec dstId spec.dstAlias
  match spec.relAlias with
  | none => pure [reached]
  | some relAlias =>
    let ends := orientation st srcId dstId label spec.direction
    if clashes reached relAlias (edgeKey ends.1.toInt64 ends.2.toInt64 label 0)=true then pure []
    else pure [bindProperties (bindRelationship reached relAlias label ends.1 ends.2) relAlias
      (getEdgeProperties st ends.1 ends.2 label)]

/-- Neighbours of a fixed-length expansion under an outer record. -/
def correlatedNeighbors (spec : ExpandSpec S) (srcId : NodeId) (label : String) : List NodeId :=
  if spec.minHops=1 ∧ spec.maxHops=1 then getNeighbors st srcId label spec.direction
  else traverse st srcId label spec.direction spec.minHops.toNat spec.maxHops.toNat

/-- Rows of one record of an expansion under an outer record. -/
def expandCorrelated (spec : ExpandSpec S) (outer rec : NamedRecord) : Result Rows :=
  match boundNode rec spec.srcAlias with
  | none => .ok []
  | some srcId => do
    let labels ← expandLabels st spec srcId
    let required := (boundNode outer spec.dstAlias).or (boundNode rec spec.dstAlias)
    if spec.varLength=true then
      match boundEdgeList spec outer rec with
      | some edges => expandBoundList st spec rec srcId required edges
      | none => expandPaths env st spec rec srcId required
    else
      match boundRelationship outer spec.relAlias with
      | some edge => expandBoundRelationship st spec rec srcId edge
      | none =>
        gather (fun label =>
          gather (expandNeighborCorrelated st spec rec srcId label)
            ((correlatedNeighbors st spec srcId label).filter fun id => reaches required id)) labels

/-- Rows of an expansion, plain or under an outer record. -/
def expandRows (spec : ExpandSpec S) (outer : Option NamedRecord) (records : Rows) : Result Rows :=
  match outer with
  | none => execExpand env st spec records
  | some outer => do
    let rows ← gather (expandCorrelated env st spec outer) records
    checkRowLimit env rows

/-- Rows of a scan, plain or under an outer record. -/
def scanRows (label nodeAlias : String) (outer : Option NamedRecord) : Result Rows :=
  match outer with
  | none => execScan env st label nodeAlias
  | some outer =>
    match boundNode outer nodeAlias with
    | some id => do
      let n ← getNode st id
      if label ≠ "" ∧ label∉n.labels then pure [] else pure [nodeToRecord n nodeAlias]
    | none => if boundNull outer nodeAlias=true then .ok [] else execScan env st label nodeAlias

/-- Rows of an identifier lookup, plain or under an outer record. -/
def idLookupRows (nodeAlias : String) (valueExpr : Expr S) (outer : Option NamedRecord) : Result Rows :=
  match outer with
  | none => execIdLookup env st nodeAlias valueExpr emptyRecord
  | some outer =>
    match boundNode outer nodeAlias with
    | some id => do
      let n ← getNode st id
      pure [nodeToRecord n nodeAlias]
    | none =>
      if boundNull outer nodeAlias=true then .ok [] else execIdLookup env st nodeAlias valueExpr outer

/-- Rows of an index lookup, plain or under an outer record. -/
def indexLookupRows (label nodeAlias : String) (indexProperties : List String)
    (lookups : List (String×LookupKey)) (remainingFilters : Option (Expr S))
    (outer : Option NamedRecord) : Result Rows :=
  match outer.bind fun outer => boundNode outer nodeAlias with
  | some id => indexLookupBound env st label nodeAlias lookups remainingFilters id
  | none => execIndexLookup env st label nodeAlias indexProperties lookups remainingFilters

/-- Rows of a full-text lookup; a bound variable is not looked at. -/
def fullTextRows (label nodeAlias property : String) (op : FullTextOp) (term : Expr S)
    (remainingFilters : Option (Expr S)) (outer : Option NamedRecord) : Result Rows :=
  execFulltextLookup env st label nodeAlias property op term remainingFilters (outer.getD emptyRecord)

/-- The record that a filter sees. -/
def filterScope (outer : Option NamedRecord) (rec : NamedRecord) : NamedRecord :=
  match outer with
  | none => rec
  | some outer => NamedRecord.fillFrom rec outer

/-- Rows of a filter. -/
def filterRows (predicate : Expr S) (outer : Option NamedRecord) (records : Rows) : Result Rows :=
  sieve (fun rec => evalPredicate env.eval st predicate (filterScope outer rec)) records

/-- Drop combined rows that use a relationship twice within one clause. -/
def uniqueWithin (sameMatch : Bool) (rows : Rows) : Rows :=
  rows.filter fun rec => !(sameMatch && hasDuplicateRelationships rec)

/-- Left row overwritten by each right row. -/
def productRows (sameMatch : Bool) (left : NamedRecord) (right : Rows) : Rows :=
  uniqueWithin sameMatch (right.map fun rec => NamedRecord.overlay left rec)

/-- Left row filled from each right row. -/
def joinRows (sameMatch : Bool) (left : NamedRecord) (right : Rows) : Rows :=
  uniqueWithin sameMatch (right.map fun rec => NamedRecord.fillFrom left rec)

/-- Append product rows within the row limit. -/
def limitProduct (done more : Rows) : Result Rows :=
  if 0<env.maxResultRows ∧ env.maxResultRows<done.length+more.length then
    .error (.query .constraintViolation .runtime .other
      ("cross product exceeded maximum of "++(toString env.maxResultRows++ " rows")))
  else .ok (done++more)

/-- Left row with nulls for the variables of an optional pattern. -/
def nullFill (optionalAliases : List String) (left : NamedRecord) : NamedRecord :=
  optionalAliases.foldl (fun rec var =>
    ["__id","__labels","__src","__dst","__type"].foldl
      (fun rec suffix => rec.set (var++("."++suffix)) .null) (rec.set var .null)) left

/-- Rows of an optional match for one left row. -/
def leftOuterRows (optionalAliases : List String) (optFilter : Option (Expr S)) (left : NamedRecord)
    (right : Rows) : Result Rows := do
  let passed ← sieve (passesFilter env st optFilter) (right.map fun rec => NamedRecord.fillFrom left rec)
  pure (if passed.isEmpty=true then [nullFill optionalAliases left] else passed)

/-- Whether a field is the score of a full-text lookup. -/
def isFtsScore (key : String) : Bool := (stripEnd ".__fts_score" key).isSome

/-- Equality of rows for a union, without scores. -/
def unionRowsEqual (a b : NamedRecord) : Bool :=
  let left := a.fields.filter fun field => !isFtsScore field.1
  let right := b.fields.filter fun field => !isFtsScore field.1
  left.length=right.length && left.all fun field =>
    match b.get field.1 with
    | some value => valueEq value field.2
    | none => false

/-- Rows without those equal to an earlier one. -/
def dedupRows : Rows → Rows → Rows
  | _,[] => []
  | seen,rec::rest =>
    if (seen.any fun other => unionRowsEqual other rec)=true then dedupRows seen rest
    else rec::dedupRows (seen++[rec]) rest

/-- The record that the right side of a correlated join runs under. -/
def joinScope (outer : Option NamedRecord) (l : NamedRecord) : NamedRecord :=
  match outer with
  | none => l
  | some outer => NamedRecord.overlay outer l

mutual

/-- Run a plan, plain or under an outer record. -/
def run : LogicalOp S → Option NamedRecord → Db Rows
  | .singleRow,_ => pure [emptyRecord]
  | .emptyRow,_ => pure [emptyRecord]
  | .scan label nodeAlias,outer => inspect fun st => scanRows env st label nodeAlias outer
  | .idLookup nodeAlias valueExpr,outer => inspect fun st => idLookupRows env st nodeAlias valueExpr outer
  | .indexLookup label nodeAlias indexProperties lookups remaining,outer => inspect fun st =>
    indexLookupRows env st label nodeAlias indexProperties lookups remaining outer
  | .fullTextLookup label nodeAlias property op term remaining,outer => inspect fun st =>
    fullTextRows env st label nodeAlias property op term remaining outer
  | .expand input spec,outer => do
    let records ← run input outer
    inspect fun st => expandRows env st spec outer records
  | .filter input predicate,outer => do
    let records ← run input outer
    inspect fun st => filterRows env st predicate outer records
  | .crossProduct left right sameMatch,none => do
    let lefts ← run left none
    foldEach lefts [] fun done l => do
      let rights ← run right none
      inspect fun _ => limitProduct env done (productRows sameMatch l rights)
  | .crossProduct left right sameMatch,some outer => do
    let lefts ← run left (some outer)
    let parts ← mapEach lefts fun l => do
      let rights ← run right (some (NamedRecord.overlay outer l))
      pure (productRows sameMatch l rights)
    pure parts.flatten
  | .correlatedJoin input right sameMatch,outer => do
    let lefts ← run input outer
    let parts ← mapEach lefts fun l => do
      let rights ← run right (some (joinScope outer l))
      pure (joinRows sameMatch l rights)
    pure parts.flatten
  | .leftOuterJoin input right optionalAliases optFilter,_ => do
    let lefts ← run input none
    let parts ← mapEach lefts fun l => do
      let rights ← run right (some l)
      inspect fun st => leftOuterRows env st optionalAliases optFilter l rights
    pure parts.flatten
  | .union inputs all,_ => do
    let parts ← runAll inputs
    pure (if all=true then parts.flatten else dedupRows [] parts.flatten)
  | .rows op input,outer =>
    if op.correlates=true then do
      let records ← run input outer
      env.rowOp op outer records
    else do
      let records ← run input none
      env.rowOp op none records
  | .source op,_ => env.sourceOp op
termination_by structural plan => plan

/-- Run the inputs of a union in order. -/
def runAll : List (LogicalOp S) → Db (List Rows)
  | [] => pure []
  | plan::rest => do
    let rows ← run plan none
    let more ← runAll rest
    pure (rows::more)
termination_by structural plans => plans

end

/-- Plain run of a plan. -/
def exec (plan : LogicalOp S) : Db Rows := run env plan none

/-- Run of a plan under the bindings of an outer record. -/
def execCorrelated (plan : LogicalOp S) (outer : NamedRecord) : Db Rows := run env plan (some outer)

variable {env}

theorem run_filter (input : LogicalOp S) (predicate : Expr S) (outer : Option NamedRecord) :
    run env (.filter input predicate) outer=(do
      let records ← run env input outer
      inspect fun st => filterRows env st predicate outer records) := rfl

theorem run_expand (input : LogicalOp S) (spec : ExpandSpec S) (outer : Option NamedRecord) :
    run env (.expand input spec) outer=(do
      let records ← run env input outer
      inspect fun st => expandRows env st spec outer records) := rfl

theorem run_correlatedJoin (input right : LogicalOp S) (sameMatch : Bool) (outer : Option NamedRecord) :
    run env (.correlatedJoin input right sameMatch) outer=(do
      let lefts ← run env input outer
      let parts ← mapEach lefts fun l => do
        let rights ← run env right (some (joinScope outer l))
        pure (joinRows sameMatch l rights)
      pure parts.flatten) := rfl

theorem run_crossProduct_plain (left right : LogicalOp S) (sameMatch : Bool) :
    run env (.crossProduct left right sameMatch) none=(do
      let lefts ← run env left none
      foldEach lefts [] fun done l => do
        let rights ← run env right none
        inspect fun _ => limitProduct env done (productRows sameMatch l rights)) := rfl

theorem run_crossProduct_outer (left right : LogicalOp S) (sameMatch : Bool) (outer : NamedRecord) :
    run env (.crossProduct left right sameMatch) (some outer)=(do
      let lefts ← run env left (some outer)
      let parts ← mapEach lefts fun l => do
        let rights ← run env right (some (NamedRecord.overlay outer l))
        pure (productRows sameMatch l rights)
      pure parts.flatten) := rfl

theorem run_leftOuterJoin (input right : LogicalOp S) (optionalAliases : List String)
    (optFilter : Option (Expr S)) (outer : Option NamedRecord) :
    run env (.leftOuterJoin input right optionalAliases optFilter) outer=(do
      let lefts ← run env input none
      let parts ← mapEach lefts fun l => do
        let rights ← run env right (some l)
        inspect fun st => leftOuterRows env st optionalAliases optFilter l rights
      pure parts.flatten) := rfl

theorem run_union (inputs : List (LogicalOp S)) (all : Bool) (outer : Option NamedRecord) :
    run env (.union inputs all) outer=(do
      let parts ← runAll env inputs
      pure (if all=true then parts.flatten else dedupRows [] parts.flatten)) := rfl

theorem runAll_cons (plan : LogicalOp S) (rest : List (LogicalOp S)) :
    runAll env (plan::rest)=(do
      let rows ← run env plan none
      let more ← runAll env rest
      pure (rows::more)) := rfl

/-- Running an operator on rows; only some hand the outer record to their input. -/
theorem run_rows (op : RowOp S) (input : LogicalOp S) (outer : Option NamedRecord) :
    run env (.rows op input) outer=(do
      let records ← run env input (if op.correlates=true then outer else none)
      env.rowOp op (if op.correlates=true then outer else none) records) := by
  rw [run]
  split_ifs with h
  · rfl
  · rfl

end Operators

end GraphDbLite.QueryExecutor
