import GraphDbLite.EdgeStorage

/-!
# Schema initialisation and migration

Opening a database creates missing tables, seeds the counters and migrates older
layouts. The statements commit one by one, so a run that stops leaves one of the
intermediate states behind. Layouts that already have the label column are
migrated from every such state. The first batch creates an index on the label
column before any migration has run, and therefore fails on the oldest layout.
-/

namespace GraphDbLite.SchemaMigration

open ByteStrings GraphTypes OrderedTable StatefulActions GraphStore EdgeStorage

variable {Blob : Type}

/-- Node row with a label column. -/
structure LabelledRow (Blob : Type) where
  /-- Label column. -/
  label : String
  /-- Serialized record. -/
  value : Blob

/-- The nodes table in either layout. -/
inductive NodesTable (Blob : Type) where
  | v1 (rows : Table NodeId Blob)
  | v2 (rows : Table NodeId (LabelledRow Blob))

/-- Keys and values of the nodes table, in key order. -/
def NodesTable.contents : NodesTable Blob → List (NodeId×Blob)
  | .v1 rows => rows.rows
  | .v2 rows => rows.rows.map fun row => (row.1,row.2.value)

/-- A database file before it is opened: any table may be missing. -/
structure RawDb (Blob : Type) where
  /-- Nodes in either layout. -/
  nodes : Option (NodesTable Blob)
  /-- Whether the index on the label column exists. -/
  labelIndex : Bool
  /-- Copy of the nodes made by an unfinished migration. -/
  nodesV2 : Option (Table NodeId (LabelledRow Blob))
  /-- Outgoing neighbours. -/
  adjOut : Option (Table Bytes Bytes)
  /-- Incoming neighbours. -/
  adjIn : Option (Table Bytes Bytes)
  /-- Relationship rows. -/
  edgeProps : Option (Table Bytes Properties)
  /-- Counters and statistics. -/
  metadata : Option (Table String Bytes)

/-- Current schema version. -/
def schemaVersion : UInt64 := 3

/-- A run of statements over the file, with the states committed so far. -/
abbrev Init (Blob α : Type) := Action (RawDb Blob×List (RawDb Blob)) GraphError α

/-- Execute one statement that commits by itself; a failed one changes nothing. -/
def statement (f : RawDb Blob → Result (RawDb Blob)) : Init Blob Unit := fun s =>
  match f s.1 with
  | .ok db => (.ok (),(db,s.2++[db]))
  | .error e => (.error e,s)

/-- Read the file. -/
def query {α : Type} (f : RawDb Blob → Result α) : Init Blob α := inspect fun s => f s.1

/-- The transaction that creates the missing tables and the label index. -/
def createTables (db : RawDb Blob) : Result (RawDb Blob) :=
  let nodes := db.nodes.getD (.v2 empty)
  match db.labelIndex,nodes with
  | false,.v1 _ => .error (.storage "no such column: label" none)
  | _,_ => .ok
    {db with
      nodes := some nodes
      labelIndex := true
      adjOut := some (db.adjOut.getD empty)
      adjIn := some (db.adjIn.getD empty)
      edgeProps := some (db.edgeProps.getD empty)
      metadata := some (db.metadata.getD empty)}

/-- Change the metadata table, which must exist. -/
def withMetadata (f : Table String Bytes → Table String Bytes) (db : RawDb Blob) :
    Result (RawDb Blob) :=
  match db.metadata with
  | some m => .ok {db with metadata := some (f m)}
  | none => .error (.storage "no such table: metadata" none)

/-- Insert a metadata row unless it exists. -/
def insertOrIgnore (key : String) (value : UInt64) (db : RawDb Blob) : Result (RawDb Blob) :=
  withMetadata (fun m => if contains m key=true then m else put m key (toBeBytes value)) db

/-- Insert or replace a metadata row. -/
def insertOrReplace (key : String) (value : UInt64) (db : RawDb Blob) : Result (RawDb Blob) :=
  withMetadata (fun m => put m key (toBeBytes value)) db

/-- Stored schema version; zero when missing or malformed. -/
def storedVersion (db : RawDb Blob) : UInt64 :=
  match db.metadata.bind fun m => get m schemaVersionKey with
  | some raw => if raw.length=8 then fromBeBytes raw else 0
  | none => 0

/-- Create the copy table unless it exists. -/
def createNodesV2 (db : RawDb Blob) : Result (RawDb Blob) :=
  .ok {db with nodesV2 := some (db.nodesV2.getD empty)}

/-- Rows read for the migration. -/
def readNodes (db : RawDb Blob) : Result (List (NodeId×Blob)) :=
  match db.nodes with
  | some nodes => .ok nodes.contents
  | none => .error (.storage "no such table: nodes" none)

/-- Label column computed from a serialized record; unreadable records get none. -/
def labelOf (fromSlice : Blob → Option NodeRecord) (value : Blob) : String :=
  match fromSlice value with
  | some record => String.intercalate ":" record.labels
  | none => ""

/-- Copy one node; a key that is already there is a constraint violation. -/
def copyNode (fromSlice : Blob → Option NodeRecord) (row : NodeId×Blob) (db : RawDb Blob) :
    Result (RawDb Blob) :=
  match db.nodesV2 with
  | none => .error (.storage "no such table: nodes_v2" none)
  | some rows =>
    if contains rows row.1=true then .error (.storage "UNIQUE constraint failed: nodes_v2.key" none)
    else .ok {db with nodesV2 := some (put rows row.1 ⟨labelOf fromSlice row.2,row.2⟩)}

/-- Drop the nodes table together with its index. -/
def dropNodes (db : RawDb Blob) : Result (RawDb Blob) :=
  match db.nodes with
  | some _ => .ok {db with nodes := none,labelIndex := false}
  | none => .error (.storage "no such table: nodes" none)

/-- Rename the copy to nodes. -/
def renameNodesV2 (db : RawDb Blob) : Result (RawDb Blob) :=
  match db.nodesV2,db.nodes with
  | some rows,none => .ok {db with nodes := some (.v2 rows),nodesV2 := none}
  | some _,some _ => .error (.storage "there is already another table or index with this name: nodes" none)
  | none,_ => .error (.storage "no such table: nodes_v2" none)

/-- Create the label index. -/
def createLabelIndex (db : RawDb Blob) : Result (RawDb Blob) :=
  if db.labelIndex=true then .error (.storage "index idx_nodes_label already exists" none)
  else .ok {db with labelIndex := true}

/-- Recreate the nodes table with a label column. -/
def migrateV1ToV2 (fromSlice : Blob → Option NodeRecord) : Init Blob Unit := do
  statement createNodesV2
  let rows ← query readNodes
  forEach rows fun row => statement (copyNode fromSlice row)
  statement dropNodes
  statement renameNodesV2
  statement createLabelIndex
  statement (insertOrReplace schemaVersionKey 2)

/-- Number of rows for each type, from the keys of the rows. -/
def countTypes : List Bytes → Table String UInt64 → Result (Table String UInt64)
  | [],counts => .ok counts
  | key::rest,counts =>
    match labelFromEdgePropsKey key with
    | none => .error (.serialization "migrate_v2_to_v3"
        ("malformed edge_props key (len="++(toString key.length++")")) none)
    | some label => countTypes rest (put counts label ((get counts label).getD 0+1))

/-- Read the counts of the stored relationships. -/
def readCounts (db : RawDb Blob) : Result (List (String×UInt64)) :=
  match db.edgeProps with
  | some rows => do
    let counts ← countTypes (keys rows) empty
    pure counts.rows
  | none => .error (.storage "no such table: edge_props" none)

/-- Write the type counters, in the order in which the hash map yields them. -/
def migrateV2ToV3 (hashOrder : List (String×UInt64) → List (String×UInt64)) : Init Blob Unit := do
  let counts ← query readCounts
  forEach (hashOrder counts) fun entry => statement (insertOrReplace (edgeTypeCountKey entry.1) entry.2)
  statement (insertOrReplace schemaVersionKey 3)

/-- The migrations that a stored version needs, one after the other. -/
def runMigrations (fromSlice : Blob → Option NodeRecord)
    (hashOrder : List (String×UInt64) → List (String×UInt64)) (dbVersion : UInt64) : Init Blob Unit :=
  (if dbVersion=1 then migrateV1ToV2 fromSlice else pure ()) >>= fun _ =>
    if dbVersion≤2 then migrateV2ToV3 hashOrder else pure ()

/-- Initialise the schema: create, seed, check the version, migrate. -/
def initSchema (fromSlice : Blob → Option NodeRecord)
    (hashOrder : List (String×UInt64) → List (String×UInt64)) : Init Blob Unit := do
  statement createTables
  statement (insertOrIgnore schemaVersionKey schemaVersion)
  statement (insertOrIgnore nextNodeIdKey 1)
  statement (insertOrIgnore nextEdgeSeqKey 0)
  let dbVersion ← query fun db => .ok (storedVersion db)
  if schemaVersion<dbVersion then fail (.schemaMismatch dbVersion schemaVersion none)
  else runMigrations fromSlice hashOrder dbVersion

/-- Result and file after initialisation. -/
def runInit (fromSlice : Blob → Option NodeRecord)
    (hashOrder : List (String×UInt64) → List (String×UInt64)) (db : RawDb Blob) :
    Result Unit×RawDb Blob :=
  let r := initSchema fromSlice hashOrder (db,[])
  (r.1,r.2.1)

/-- Files that an initialisation of this file can leave when it stops: the file
itself, or the file after any of the statements that commit. -/
def stoppedStates (fromSlice : Blob → Option NodeRecord)
    (hashOrder : List (String×UInt64) → List (String×UInt64)) (db : RawDb Blob) : List (RawDb Blob) :=
  db::(initSchema fromSlice hashOrder (db,[])).2.2

/-- Type counter read from a metadata table. -/
def countIn (m : Table String Bytes) (t : String) : UInt64 :=
  match get m (edgeTypeCountKey t) with
  | some raw => if raw.length=8 then fromBeBytes raw else 0
  | none => 0

/-- Number of stored relationships of a type, as a word. -/
def typeCount (db : RawDb Blob) (t : String) : UInt64 :=
  UInt64.ofNat (countKeys (db.edgeProps.getD empty) (isOfType t))

/-- The label column holds the joined labels of every node. -/
def LabelColumnOk (fromSlice : Blob → Option NodeRecord) (db : RawDb Blob) : Prop :=
  ∃ rows,db.nodes=some (.v2 rows) ∧
    ∀ id row,get rows id=some row → row.label=labelOf fromSlice row.value

/-- Whether the nodes table has a label column. -/
def hasLabelColumn (db : RawDb Blob) : Bool :=
  match db.nodes with
  | some (.v2 _) => true
  | _ => false

/-- What every complete layout has: all tables, readable relationship keys and a
version row. -/
structure Tables (db : RawDb Blob) (version : UInt64) : Prop where
  /-- Outgoing neighbours exist. -/
  adjOut : db.adjOut.isSome=true
  /-- Incoming neighbours exist. -/
  adjIn : db.adjIn.isSome=true
  /-- Relationship rows exist and their types are readable. -/
  edgeProps : ∃ rows,db.edgeProps=some rows ∧ ∀ k∈keys rows,∃ t,labelFromEdgePropsKey k=some t
  /-- The version row. -/
  metadata : ∃ m,db.metadata=some m ∧ get m schemaVersionKey=some (toBeBytes version)

/-- Oldest layout: nodes without a label column. -/
structure IsV1 (db : RawDb Blob) : Prop where
  /-- All tables, at version one. -/
  tables : Tables db 1
  /-- Nodes have no label column. -/
  nodes : ∃ rows,db.nodes=some (.v1 rows)
  /-- Hence no index on it. -/
  labelIndex : db.labelIndex=false

/-- Second layout: a label column, no type counters. -/
structure IsV2 (fromSlice : Blob → Option NodeRecord) (db : RawDb Blob) : Prop where
  /-- All tables, at version two. -/
  tables : Tables db 2
  /-- The label column is filled. -/
  labels : LabelColumnOk fromSlice db
  /-- No type counter exists yet. -/
  counts : ∀ m,db.metadata=some m → ∀ t,get m (edgeTypeCountKey t)=none

/-- Current layout: type counters are exact. -/
structure IsV3 (fromSlice : Blob → Option NodeRecord) (db : RawDb Blob) : Prop where
  /-- All tables, at version three. -/
  tables : Tables db 3
  /-- The label column is filled. -/
  labels : LabelColumnOk fromSlice db
  /-- Type counters are exact. -/
  counts : ∀ m,db.metadata=some m → ∀ t,countIn m t=typeCount db t

/-- Files left behind by initialisations of a file that stopped, any number of
times and each with its own hash order. -/
inductive LeftBy (fromSlice : Blob → Option NodeRecord) (orig : RawDb Blob) : RawDb Blob → Prop where
  | start : LeftBy fromSlice orig orig
  | stopped {db left : RawDb Blob} {hashOrder : List (String×UInt64) → List (String×UInt64)} :
      LeftBy fromSlice orig db → (∀ entries,(hashOrder entries).Perm entries) →
      left∈stoppedStates fromSlice hashOrder db → LeftBy fromSlice orig left

/-- Initialisation succeeded and ended at the current version with the contents
of the original file, a filled label column and exact type counters. -/
structure Migrated (fromSlice : Blob → Option NodeRecord) (orig : RawDb Blob)
    (r : Result Unit×RawDb Blob) : Prop where
  /-- It succeeded. -/
  success : r.1=.ok ()
  /-- Current version. -/
  version : storedVersion r.2=3
  /-- Same nodes. -/
  nodes : r.2.nodes.map NodesTable.contents=orig.nodes.map NodesTable.contents
  /-- Same outgoing neighbours. -/
  adjOut : r.2.adjOut=orig.adjOut
  /-- Same incoming neighbours. -/
  adjIn : r.2.adjIn=orig.adjIn
  /-- Same relationships. -/
  edgeProps : r.2.edgeProps=orig.edgeProps
  /-- Filled label column. -/
  labels : LabelColumnOk fromSlice r.2
  /-- Exact type counters. -/
  counts : ∃ m,r.2.metadata=some m ∧ ∀ t,countIn m t=typeCount orig t

variable {db orig : RawDb Blob}

theorem statement_ok {f : RawDb Blob → Result (RawDb Blob)} {db' : RawDb Blob} {log : List (RawDb Blob)}
    (h : f db=.ok db') : statement f (db,log)=(.ok (),(db',log++[db'])) := by
  simp only [statement,h]

theorem countTypes_spec {ks : List Bytes} (hkeys : ∀ k∈ks,∃ t,labelFromEdgePropsKey k=some t)
    (counts : Table String UInt64) :
    ∃ counts',countTypes ks counts=.ok counts' ∧
      ∀ t,(get counts' t=none ↔ get counts t=none ∧ ks.countP (isOfType t)=0) ∧
        (get counts' t).getD 0=(get counts t).getD 0+UInt64.ofNat (ks.countP (isOfType t)) := by
  induction ks generalizing counts with
  | nil => exact ⟨counts,rfl,fun t => ⟨by simp,by simp⟩⟩
  | cons k rest ih =>
    have ⟨l,hl⟩ := hkeys k List.mem_cons_self
    have ⟨counts',hrun,hspec⟩ := ih (fun other ho => hkeys other (List.mem_cons_of_mem _ ho))
      (put counts l ((get counts l).getD 0+1))
    refine ⟨counts',?_,fun t => ?_⟩
    · rw [countTypes,hl]
      exact hrun
    · have ⟨hnone,hvalue⟩ := hspec t
      have htype : isOfType t k=true ↔ t=l := by
        unfold isOfType
        rw [hl]
        simp [eq_comm]
      rw [List.countP_cons]
      simp only [htype]
      by_cases ht : t=l
      · rw [ht,get_put_self] at hnone hvalue
        rw [if_pos ht,ht]
        refine ⟨?_,?_⟩
        · rw [hnone]
          simp
        · rw [hvalue,Option.getD_some,UInt64.ofNat_add,UInt64.add_assoc]
          congr 1
          exact UInt64.add_comm _ _
      · rw [get_put_ne ht] at hnone hvalue
        rw [if_neg ht,Nat.add_zero]
        exact ⟨hnone,hvalue⟩

/-- The counts read from readable rows list every present type with its number. -/
theorem readCounts_spec {rows : Table Bytes Properties} (hrows : db.edgeProps=some rows)
    (hkeys : ∀ k∈keys rows,∃ t,labelFromEdgePropsKey k=some t) : ∃ entries,readCounts db=.ok entries ∧
    (∀ entry∈entries,entry.2=typeCount db entry.1) ∧ ∀ t,(∃ n,(t,n)∈entries) ∨ typeCount db t=0 := by
  have ⟨counts,hrun,hspec⟩ := countTypes_spec hkeys empty
  have hcount : ∀ t,typeCount db t=UInt64.ofNat ((keys rows).countP (isOfType t)) := by
    intro t
    rw [typeCount,hrows]
    rfl
  refine ⟨counts.rows,?_,?_,?_⟩
  · simp only [readCounts,hrows,hrun]
    rfl
  · rintro ⟨t,n⟩ hentry
    have hget : get counts t=some n := get_eq_some.mpr hentry
    have hvalue := (hspec t).2
    rw [hget,get_empty,Option.getD_some,Option.getD_none,UInt64.zero_add] at hvalue
    rw [hcount]
    exact hvalue
  · intro t
    cases hget : get counts t with
    | some n => exact Or.inl ⟨n,get_eq_some.mp hget⟩
    | none =>
      have hzero := ((hspec t).1.mp hget).2
      refine Or.inr ?_
      rw [hcount,hzero]
      rfl

theorem countIn_put (m : Table String Bytes) (key t : String) (n : UInt64) :
    countIn (put m key (toBeBytes n)) t=if edgeTypeCountKey t=key then n else countIn m t := by
  unfold countIn
  rw [get_put]
  by_cases h : edgeTypeCountKey t=key
  · rw [if_pos h,if_pos h]
    simp
  · rw [if_neg h,if_neg h]

/-- Metadata of a file on its way from the second layout to the third. -/
def MetadataOk (orig : RawDb Blob) (m : Table String Bytes) : Prop :=
  (get m schemaVersionKey=some (toBeBytes 3) ∧ ∀ t,countIn m t=typeCount orig t) ∨
    (get m schemaVersionKey=some (toBeBytes 2) ∧
      ∀ t,get m (edgeTypeCountKey t)=none ∨ countIn m t=typeCount orig t)

/-- Files from which initialisation completes: the contents of the original with
a label column, and metadata on its way. -/
structure Resumable (orig db : RawDb Blob) : Prop where
  /-- Same nodes. -/
  nodes : db.nodes=orig.nodes
  /-- Same outgoing neighbours. -/
  adjOut : db.adjOut=orig.adjOut
  /-- Same incoming neighbours. -/
  adjIn : db.adjIn=orig.adjIn
  /-- Same relationships. -/
  edgeProps : db.edgeProps=orig.edgeProps
  /-- Metadata on its way. -/
  metadata : ∃ m,db.metadata=some m ∧ MetadataOk orig m

variable {fromSlice : Blob → Option NodeRecord} {m : Table String Bytes} {orig db : RawDb Blob} {version : UInt64}
  {hashOrder : List (String×UInt64) → List (String×UInt64)}

theorem IsV2.resumable (h : IsV2 fromSlice db) : Resumable db db := by
  have ⟨m,hm,hversion⟩ := h.tables.metadata
  exact ⟨rfl,rfl,rfl,rfl,m,hm,Or.inr ⟨hversion,fun t => Or.inl (h.counts m hm t)⟩⟩

theorem IsV3.resumable (h : IsV3 fromSlice db) : Resumable db db := by
  have ⟨m,hm,hversion⟩ := h.tables.metadata
  exact ⟨rfl,rfl,rfl,rfl,m,hm,Or.inl ⟨hversion,h.counts m hm⟩⟩

/-- A run all of whose committed states can be resumed. -/
def AllResumable (orig : RawDb Blob) (s : RawDb Blob×List (RawDb Blob)) : Prop :=
  Resumable orig s.1 ∧ ∀ db∈s.2,Resumable orig db

theorem AllResumable.snoc {db' : RawDb Blob} {s : RawDb Blob×List (RawDb Blob)} (h : AllResumable orig s)
    (hdb : Resumable orig db') : AllResumable orig (db',s.2++[db']) := by
  refine ⟨hdb,fun db hm => ?_⟩
  rcases List.mem_append.mp hm with hold|hnew
  · exact h.2 db hold
  · rw [List.mem_singleton.mp hnew]
    exact hdb

theorem MetadataOk.put_other (h : MetadataOk orig m) {key : String} (raw : Bytes)
    (hversion : schemaVersionKey≠key) (hcount : ∀ t,edgeTypeCountKey t≠key) : MetadataOk orig (put m key raw) := by
  have hread : ∀ t,countIn (put m key raw) t=countIn m t := by
    intro t
    unfold countIn
    rw [get_put_ne (hcount t)]
  unfold MetadataOk
  rw [get_put_ne hversion]
  simp only [hread,get_put_ne (hcount _)]
  exact h

theorem insertOrIgnore_resumable (h : Resumable orig db) (key : String) (value : UInt64)
    (hkey : key=schemaVersionKey ∨ (schemaVersionKey≠key ∧ ∀ t,edgeTypeCountKey t≠key)) :
    ∃ db',insertOrIgnore key value db=.ok db' ∧ Resumable orig db' := by
  have ⟨m,hm,hok⟩ := h.metadata
  have hrun : insertOrIgnore key value db=
      .ok {db with metadata := some (if contains m key=true then m else put m key (toBeBytes value))} := by
    simp only [insertOrIgnore,withMetadata,hm]
  refine ⟨_,hrun,h.nodes,h.adjOut,h.adjIn,h.edgeProps,_,rfl,?_⟩
  by_cases hc : contains m key=true
  · rw [if_pos hc]
    exact hok
  · rw [if_neg hc]
    rcases hkey with hversion|⟨hversion,hcount⟩
    · have hpresent : contains m key=true := by
        rw [hversion]
        rcases hok with ⟨hv,-⟩|⟨hv,-⟩
        · rw [contains,hv]
          rfl
        · rw [contains,hv]
          rfl
      exact absurd hpresent hc
    · exact hok.put_other _ hversion hcount

theorem createTables_resumable (h : Resumable orig db) (htables : Tables orig version)
    (hlabel : hasLabelColumn orig=true) : ∃ db',createTables db=.ok db' ∧ Resumable orig db' := by
  have ⟨rows,hrows⟩ : ∃ rows,orig.nodes=some (.v2 rows) := by
    unfold hasLabelColumn at hlabel
    split at hlabel
    · rename_i rows hrows
      exact ⟨rows,hrows⟩
    · cases hlabel
  have ⟨props,hprops,_⟩ := htables.edgeProps
  have ⟨out,hout⟩ := Option.isSome_iff_exists.mp htables.adjOut
  have ⟨inc,hinc⟩ := Option.isSome_iff_exists.mp htables.adjIn
  have ⟨m,hm,hok⟩ := h.metadata
  have hnodes : db.nodes=some (.v2 rows) := h.nodes.trans hrows
  have hrun : createTables db=.ok {db with
      nodes := some (.v2 rows)
      labelIndex := true
      adjOut := some (db.adjOut.getD empty)
      adjIn := some (db.adjIn.getD empty)
      edgeProps := some (db.edgeProps.getD empty)
      metadata := some (db.metadata.getD empty)} := by
    unfold createTables
    rw [hnodes]
    cases db.labelIndex with
    | true | false => rfl
  refine ⟨_,hrun,?_,?_,?_,?_,m,?_,hok⟩
  · exact hrows.symm
  · rw [h.adjOut,hout]
    rfl
  · rw [h.adjIn,hinc]
    rfl
  · rw [h.edgeProps,hprops]
    rfl
  · rw [hm]
    rfl

theorem storedVersion_of_row {v : UInt64} (hm : db.metadata=some m)
    (hv : get m schemaVersionKey=some (toBeBytes v)) : storedVersion db=v := by
  simp only [storedVersion,hm,Option.bind_some,hv,toBeBytes_length,if_true,fromBeBytes_toBeBytes]

theorem insertOrReplace_ok (hm : db.metadata=some m) (key : String) (value : UInt64) :
    insertOrReplace key value db=.ok {db with metadata := some (put m key (toBeBytes value))} := by
  simp only [insertOrReplace,withMetadata,hm]

/-- The loop over the type counters keeps every committed state resumable and
leaves the written counters exact. -/
theorem writeCounts_spec {entries : List (String×UInt64)}
    (hentries : ∀ entry∈entries,entry.2=typeCount orig entry.1) : ∀ {s : RawDb Blob×List (RawDb Blob)}
    {m : Table String Bytes},AllResumable orig s → s.1.metadata=some m →
    get m schemaVersionKey=some (toBeBytes 2) → ∃ s' m',forEach entries
    (fun entry => statement (insertOrReplace (edgeTypeCountKey entry.1) entry.2)) s=(.ok (),s') ∧
    AllResumable orig s' ∧ s'.1.metadata=some m' ∧ get m' schemaVersionKey=some (toBeBytes 2) ∧
    ∀ t,(countIn m t=typeCount orig t ∨ ∃ n,(t,n)∈entries) → countIn m' t=typeCount orig t := by
  induction entries with
  | nil =>
    intro s m hs hm hv
    refine ⟨s,m,rfl,hs,hm,hv,fun t ht => ?_⟩
    rcases ht with ht|⟨n,hn⟩
    · exact ht
    · exact absurd hn List.not_mem_nil
  | cons entry rest ih =>
    intro s m hs hm hv
    have hvalue := hentries entry List.mem_cons_self
    have hne : schemaVersionKey≠edgeTypeCountKey entry.1 :=
      (edgeTypeCountKey_ne_schemaVersionKey entry.1).symm
    let m₁ := put m (edgeTypeCountKey entry.1) (toBeBytes entry.2)
    let db₁ : RawDb Blob := {s.1 with metadata := some m₁}
    have hrun : statement (insertOrReplace (edgeTypeCountKey entry.1) entry.2) s=
        (.ok (),(db₁,s.2++[db₁])) := statement_ok (insertOrReplace_ok hm _ _)
    have hv₁ : get m₁ schemaVersionKey=some (toBeBytes 2) := (get_put_ne hne).trans hv
    have hread : ∀ t,countIn m₁ t=if t=entry.1 then entry.2 else countIn m t := by
      intro t
      have hput := countIn_put m (edgeTypeCountKey entry.1) t entry.2
      simp only [edgeTypeCountKey_inj] at hput
      exact hput
    have hok₁ : MetadataOk orig m₁ := by
      refine Or.inr ⟨hv₁,fun t => ?_⟩
      rw [hread]
      by_cases ht : t=entry.1
      · rw [if_pos ht,ht]
        exact Or.inr hvalue
      · rw [if_neg ht,get_put_ne (fun hx => ht (edgeTypeCountKey_inj.mp hx))]
        have ⟨m₀,hm₀,hok⟩ := hs.1.metadata
        have hsame : m₀=m := Option.some.inj (hm₀.symm.trans hm)
        rw [hsame] at hok
        rcases hok with ⟨hthree,-⟩|⟨-,hstarted⟩
        · rw [hv] at hthree
          exact absurd (toBeBytes_inj.mp (Option.some.inj hthree)) (by decide)
        · exact hstarted t
    have hs₁ : AllResumable orig (db₁,s.2++[db₁]) :=
      hs.snoc ⟨hs.1.nodes,hs.1.adjOut,hs.1.adjIn,hs.1.edgeProps,m₁,rfl,hok₁⟩
    have ⟨s',m',hloop,hs',hm',hv',hcounts⟩ :=
      ih (fun other ho => hentries other (List.mem_cons_of_mem _ ho)) hs₁ rfl hv₁
    refine ⟨s',m',?_,hs',hm',hv',fun t ht => hcounts t ?_⟩
    · rw [forEach,bind_ok hrun]
      exact hloop
    · rw [hread]
      by_cases hname : t=entry.1
      · rw [if_pos hname,hname]
        exact Or.inl hvalue
      · rw [if_neg hname]
        rcases ht with ht|⟨n,hn⟩
        · exact Or.inl ht
        · rcases List.mem_cons.mp hn with hhead|hrest
          · exact absurd (congrArg Prod.fst hhead) hname
          · exact Or.inr ⟨n,hrest⟩

/-- From a resumable state of the second layout the counters are filled and the
version is raised. -/
theorem migrateV2ToV3_spec (htables : Tables orig version) (hperm : ∀ entries,(hashOrder entries).Perm entries)
    {s : RawDb Blob×List (RawDb Blob)} (hs : AllResumable orig s) (hm : s.1.metadata=some m)
    (hv : get m schemaVersionKey=some (toBeBytes 2)) : ∃ s' m',migrateV2ToV3 hashOrder s=(.ok (),s') ∧
    AllResumable orig s' ∧ s'.1.metadata=some m' ∧ get m' schemaVersionKey=some (toBeBytes 3) := by
  have ⟨rows,hrows,hkeys⟩ := htables.edgeProps
  have hsame : s.1.edgeProps=some rows := hs.1.edgeProps.trans hrows
  have hcount : ∀ t,typeCount s.1 t=typeCount orig t := by
    intro t
    rw [typeCount,typeCount,hs.1.edgeProps]
  have ⟨entries,hread,hvalues,hcomplete⟩ := readCounts_spec hsame hkeys
  have horder : ∀ entry∈hashOrder entries,entry.2=typeCount orig entry.1 := by
    intro entry he
    rw [←hcount]
    exact hvalues entry ((hperm entries).mem_iff.mp he)
  have ⟨s₁,m₁,hloop,hs₁,hm₁,hv₁,hexact⟩ := writeCounts_spec horder hs hm hv
  have hall : ∀ t,countIn m₁ t=typeCount orig t := by
    intro t
    rcases hcomplete t with ⟨n,hn⟩|hzero
    · exact hexact t (Or.inr ⟨n,(hperm entries).mem_iff.mpr hn⟩)
    · have ⟨m₀,hm₀,hok⟩ := hs₁.1.metadata
      have hm₀₁ : m₀=m₁ := Option.some.inj (hm₀.symm.trans hm₁)
      rw [hm₀₁] at hok
      rcases hok with ⟨-,hfull⟩|⟨-,hstarted⟩
      · exact hfull t
      · rcases hstarted t with hnone|hsome
        · rw [countIn,hnone,←hcount,hzero]
        · exact hsome
  let m₂ := put m₁ schemaVersionKey (toBeBytes 3)
  let db₂ : RawDb Blob := {s₁.1 with metadata := some m₂}
  have hok₂ : MetadataOk orig m₂ := by
    refine Or.inl ⟨get_put_self _ _ _,fun t => ?_⟩
    rw [countIn_put,if_neg (edgeTypeCountKey_ne_schemaVersionKey t)]
    exact hall t
  refine ⟨(db₂,s₁.2++[db₂]),m₂,?_,?_,rfl,get_put_self _ _ _⟩
  · have hquery : query readCounts s=(.ok entries,s) := by
      rw [query,inspect_apply,hread]
    rw [migrateV2ToV3,bind_ok hquery,bind_ok hloop]
    exact statement_ok (insertOrReplace_ok hm₁ _ _)
  · exact hs₁.snoc ⟨hs₁.1.nodes,hs₁.1.adjOut,hs₁.1.adjIn,hs₁.1.edgeProps,m₂,rfl,hok₂⟩

/-- Initialisation completes from every resumable file, through resumable files
only. -/
theorem initSchema_completes (htables : Tables orig version) (hlabel : hasLabelColumn orig=true)
    (fromSlice : Blob → Option NodeRecord) (hperm : ∀ entries,(hashOrder entries).Perm entries)
    (h : Resumable orig db) : ∃ s m,initSchema fromSlice hashOrder (db,[])=(.ok (),s) ∧ AllResumable orig s ∧
    s.1.metadata=some m ∧ get m schemaVersionKey=some (toBeBytes 3) := by
  have hstart : AllResumable orig (db,[]) := ⟨h,fun other ho => absurd ho List.not_mem_nil⟩
  have ⟨db₁,hrun₁,hr₁⟩ := createTables_resumable h htables hlabel
  have hs₁ := hstart.snoc hr₁
  have ⟨db₂,hrun₂,hr₂⟩ := insertOrIgnore_resumable hr₁ schemaVersionKey schemaVersion (Or.inl rfl)
  have hs₂ := hs₁.snoc hr₂
  have ⟨db₃,hrun₃,hr₃⟩ := insertOrIgnore_resumable hr₂ nextNodeIdKey 1
    (Or.inr ⟨by decide,edgeTypeCountKey_ne_nextNodeIdKey⟩)
  have hs₃ := hs₂.snoc hr₃
  have ⟨db₄,hrun₄,hr₄⟩ := insertOrIgnore_resumable hr₃ nextEdgeSeqKey 0
    (Or.inr ⟨by decide,edgeTypeCountKey_ne_nextEdgeSeqKey⟩)
  have hs₄ := hs₃.snoc hr₄
  have ⟨m,hm,hok⟩ := hr₄.metadata
  rw [initSchema,bind_ok (statement_ok hrun₁),bind_ok (statement_ok hrun₂),
    bind_ok (statement_ok hrun₃),bind_ok (statement_ok hrun₄)]
  rcases hok with ⟨hv,-⟩|⟨hv,-⟩
  · have hversion := storedVersion_of_row hm hv
    refine ⟨_,m,?_,hs₄,hm,hv⟩
    rw [bind_ok (show query (fun db => .ok (storedVersion db)) _=(.ok 3,_) by
      rw [query,inspect_apply,hversion])]
    rfl
  · have hversion := storedVersion_of_row hm hv
    have ⟨s',m',hmigrate,hs',hm',hv'⟩ := migrateV2ToV3_spec htables hperm hs₄ hm hv
    refine ⟨s',m',?_,hs',hm',hv'⟩
    rw [bind_ok (show query (fun db => .ok (storedVersion db)) _=(.ok 2,_) by
      rw [query,inspect_apply,hversion])]
    exact hmigrate

theorem initSchema_v1 (h : IsV1 db) (fromSlice : Blob → Option NodeRecord)
    (hashOrder : List (String×UInt64) → List (String×UInt64)) :
    initSchema fromSlice hashOrder (db,[])= (.error (.storage "no such column: label" none),(db,[])) := by
  have ⟨rows,hrows⟩ := h.nodes
  have hcreate : createTables db=.error (.storage "no such column: label" none) := by
    simp [createTables,hrows,h.labelIndex]
  have hfails : statement createTables (db,[])=
      (.error (.storage "no such column: label" none),(db,[])) := by
    simp only [statement,hcreate]
  rw [initSchema,bind_error hfails]

theorem leftBy_v1 (h : IsV1 orig) (hleft : LeftBy fromSlice orig db) : db=orig := by
  induction hleft with
  | start => rfl
  | stopped _ _ hmem ih =>
    rw [ih,stoppedStates,initSchema_v1 h] at hmem
    exact List.mem_singleton.mp hmem

/-- Files left by initialisations of a layout with a label column are resumable. -/
theorem leftBy_resumable (htables : Tables orig version) (hlabel : hasLabelColumn orig=true)
    (hstart : Resumable orig orig) (hleft : LeftBy fromSlice orig db) : Resumable orig db := by
  induction hleft with
  | start => exact hstart
  | stopped _ hperm hmem ih =>
    have ⟨s,m,hrun,hs,_⟩ := initSchema_completes htables hlabel fromSlice hperm ih
    rw [stoppedStates,hrun] at hmem
    rcases List.mem_cons.mp hmem with hsame|hlog
    · rw [hsame]
      exact ih
    · exact hs.2 _ hlog

theorem LabelColumnOk.hasLabelColumn (h : LabelColumnOk fromSlice db) : hasLabelColumn db=true := by
  have ⟨rows,hrows,_⟩ := h
  unfold SchemaMigration.hasLabelColumn
  rw [hrows]

theorem migrated_of_resumable (htables : Tables orig version) (hlabels : LabelColumnOk fromSlice orig)
    (hperm : ∀ entries,(hashOrder entries).Perm entries) (h : Resumable orig db) :
    Migrated fromSlice orig (runInit fromSlice hashOrder db) := by
  have ⟨s,m,hrun,hs,hm,hv⟩ :=
    initSchema_completes htables hlabels.hasLabelColumn fromSlice hperm h
  have hresult : runInit fromSlice hashOrder db=(.ok (),s.1) := by
    simp only [runInit,hrun]
  rw [hresult]
  refine ⟨rfl,storedVersion_of_row hm hv,?_,hs.1.adjOut,hs.1.adjIn,hs.1.edgeProps,?_,m,hm,?_⟩
  · rw [hs.1.nodes]
  · have ⟨rows,hrows,hcolumn⟩ := hlabels
    exact ⟨rows,hs.1.nodes.trans hrows,hcolumn⟩
  · have ⟨m₀,hm₀,hok⟩ := hs.1.metadata
    have hsame : m₀=m := Option.some.inj (hm₀.symm.trans hm)
    rw [hsame] at hok
    rcases hok with ⟨-,hcounts⟩|⟨htwo,-⟩
    · exact hcounts
    · rw [hv] at htwo
      exact absurd (toBeBytes_inj.mp (Option.some.inj htwo)) (by decide)

/-- Every layout, and every file an interrupted initialisation of it left, is
migrated exactly when its nodes table has a label column. -/
theorem initSchema_migrates_iff (fromSlice : Blob → Option NodeRecord) {orig db : RawDb Blob}
    (horig : IsV1 orig ∨ IsV2 fromSlice orig ∨ IsV3 fromSlice orig)
    (hleft : LeftBy fromSlice orig db)
    {hashOrder : List (String×UInt64) → List (String×UInt64)}
    (hperm : ∀ entries,(hashOrder entries).Perm entries) :
    Migrated fromSlice orig (runInit fromSlice hashOrder db) ↔ hasLabelColumn orig=true := by
  rcases horig with h|h|h
  · have ⟨rows,hrows⟩ := h.nodes
    constructor
    · intro hmigrated
      have hsuccess := hmigrated.success
      rw [runInit,leftBy_v1 h hleft,initSchema_v1 h] at hsuccess
      cases hsuccess
    · intro hlabel
      unfold hasLabelColumn at hlabel
      rw [hrows] at hlabel
      cases hlabel
  · have hcolumn := h.labels.hasLabelColumn
    have hresume := leftBy_resumable h.tables hcolumn h.resumable hleft
    exact ⟨fun _ => hcolumn,fun _ => migrated_of_resumable h.tables h.labels hperm hresume⟩
  · have hcolumn := h.labels.hasLabelColumn
    have hresume := leftBy_resumable h.tables hcolumn h.resumable hleft
    exact ⟨fun _ => hcolumn,fun _ => migrated_of_resumable h.tables h.labels hperm hresume⟩

/-- A file of the second layout with one node and one relationship. -/
def sampleV2 : RawDb NodeRecord where
  nodes := some (.v2 (put empty 1 ⟨"Person",["Person"],[]⟩))
  labelIndex := true
  nodesV2 := none
  adjOut := some empty
  adjIn := some empty
  edgeProps := some (put empty (edgePropsKey 1 1 "KNOWS" 0) [("since",.i64 2020)])
  metadata := some (put empty schemaVersionKey (toBeBytes 2))

theorem sampleV2_isV2 : IsV2 some sampleV2 := by
  have hrows : ∃ rows,sampleV2.edgeProps=some rows ∧ ∀ k∈keys rows,∃ t,labelFromEdgePropsKey k=some t := by
    refine ⟨put empty (edgePropsKey 1 1 "KNOWS" 0) [("since",.i64 2020)],rfl,fun k hk => ?_⟩
    rcases mem_keys_put.mp hk with hkey|hold
    · rw [hkey]
      exact ⟨"KNOWS",labelFromEdgePropsKey_edgePropsKey (by decide)⟩
    · exact absurd hold List.not_mem_nil
  have hversion : ∃ m,sampleV2.metadata=some m ∧ get m schemaVersionKey=some (toBeBytes 2) :=
    ⟨put empty schemaVersionKey (toBeBytes 2),rfl,get_put_self _ _ _⟩
  have htables : Tables sampleV2 2 := ⟨rfl,rfl,hrows,hversion⟩
  refine ⟨htables,⟨_,rfl,?_⟩,?_⟩
  · intro id row hget
    rw [get_put,get_empty] at hget
    split_ifs at hget with hid
    rw [←Option.some.inj hget]
    rfl
  · intro m hm t
    rw [←Option.some.inj hm,get_put_ne (edgeTypeCountKey_ne_schemaVersionKey t),get_empty]

/-- The sample is migrated after a first attempt stopped anywhere. -/
theorem initSchema_migrates_sample :
    (stoppedStates some id sampleV2).Forall fun left => Migrated some sampleV2 (runInit some id left) := by
  have hperm : ∀ entries : List (String×UInt64),(id entries).Perm entries :=
    fun entries => List.Perm.refl entries
  have hall : ∀ left∈stoppedStates some id sampleV2,Migrated some sampleV2 (runInit some id left) := fun left hmem =>
    (initSchema_migrates_iff some (Or.inr (Or.inl sampleV2_isV2)) (.stopped .start hperm hmem) hperm).mpr rfl
  rw [List.forall_iff_forall_mem]
  exact hall

/-- A file of the oldest layout. -/
def sampleV1 : RawDb NodeRecord where
  nodes := some (.v1 (put empty 1 ⟨["Person"],[]⟩))
  labelIndex := false
  nodesV2 := none
  adjOut := some empty
  adjIn := some empty
  edgeProps := some empty
  metadata := some (put empty schemaVersionKey (toBeBytes 1))

/-- The oldest layout is not migrated. -/
theorem initSchema_fails_on_v1 : IsV1 sampleV1 ∧ ¬Migrated some sampleV1 (runInit some id sampleV1) := by
  have hrows : ∃ rows,sampleV1.edgeProps=some rows ∧ ∀ k∈keys rows,∃ t,labelFromEdgePropsKey k=some t :=
    ⟨empty,rfl,fun k hk => absurd hk List.not_mem_nil⟩
  have hversion : ∃ m,sampleV1.metadata=some m ∧ get m schemaVersionKey=some (toBeBytes 1) :=
    ⟨put empty schemaVersionKey (toBeBytes 1),rfl,get_put_self _ _ _⟩
  have hv1 : IsV1 sampleV1 := ⟨⟨rfl,rfl,hrows,hversion⟩,⟨_,rfl⟩,rfl⟩
  refine ⟨hv1,fun hmigrated => ?_⟩
  have hsuccess := hmigrated.success
  rw [runInit,initSchema_v1 hv1] at hsuccess
  cases hsuccess

end GraphDbLite.SchemaMigration
