import Mathlib.Data.String.Basic
import GraphDbLite.GraphTypes
import GraphDbLite.OrderedTable
import GraphDbLite.StatefulActions

/-!
# The stored database

One record holds the tables of an opened database: nodes, the two adjacency
tables, relationship properties, metadata, and the secondary and full-text
index tables by name. Blob keys and counters are bytes as on disk; node records
and property maps stand for their serialized form. This module has the key-value
scan, the identifier counters and the statistics rows.
-/

namespace GraphDbLite.GraphStore

open ByteStrings GraphTypes OrderedTable StatefulActions

/-- Serialized content of a node row. -/
structure NodeRecord where
  /-- Labels, sorted when written by the library. -/
  labels : List String
  /-- Property map. -/
  properties : Properties

/-- Row of the nodes table. -/
structure NodeRow where
  /-- The label column: labels joined by a colon. -/
  label : String
  /-- The value column. -/
  value : NodeRecord

/-- Tokenizer of a full-text table. -/
inductive FtsTokenizerKind where
  | trigramCaseSensitive
  | trigramCaseInsensitive
  | word
  deriving DecidableEq

/-- A full-text table: its declared columns and its rows in insertion order. -/
structure FtsTable where
  /-- Declared content columns. -/
  columns : List String
  /-- Tokenizer given when the table was created. -/
  kind : FtsTokenizerKind
  /-- Row identifiers with one text, or nothing, for each column. -/
  rows : List (Int64×List (Option String))
  /-- Suffixes of the shadow tables that still exist beside it. -/
  shadows : List String
  deriving DecidableEq

/-- The tables of an opened database. -/
structure Store where
  /-- Node rows by identifier; the stored key is the big-endian identifier. -/
  nodes : Table NodeId NodeRow
  /-- Outgoing neighbours by source and type. -/
  adjOut : Table Bytes Bytes
  /-- Incoming neighbours by destination and type. -/
  adjIn : Table Bytes Bytes
  /-- One row for each relationship. -/
  edgeProps : Table Bytes Properties
  /-- Counters and statistics. -/
  metadata : Table String Bytes
  /-- Secondary index tables by table name. -/
  indexTables : Table String (Table Bytes Unit)
  /-- Full-text tables by table name. -/
  ftsTables : Table String FtsTable

/-- Suffixes of the tables that the full-text module keeps beside a virtual one. -/
def shadowSuffixes : List String := ["_data","_idx","_content","_docsize","_config"]

/-- Names of the tables that every database has. -/
def baseTableNames : List String := ["nodes","adj_out","adj_in","edge_props","metadata"]

/-- Names of all tables in the catalogue, shadow tables included. -/
def tableNames (st : Store) : List String :=
  baseTableNames++(keys st.indexTables++
    st.ftsTables.rows.flatMap fun row => row.1::row.2.shadows.map (row.1++·))

/-- Whether the catalogue has a table of exactly this name. -/
def tableExists (st : Store) (name : String) : Bool := decide (name∈tableNames st)

/-- Whether creating a table fails: names are compared up to letter case. -/
def nameTaken (st : Store) (name : String) : Bool :=
  (tableNames st).any fun other => other.toLower=name.toLower

/-- Drop an index table, a virtual table with its shadow tables, or a single
shadow table. -/
def dropTable (st : Store) (name : String) : Store :=
  {st with
    indexTables := delete st.indexTables name,
    ftsTables := mapRows
      (fun table t => {t with shadows := t.shadows.filter fun suffix => table++suffix≠name})
      (delete st.ftsTables name)}

/-- A storage or execution step on the database. -/
abbrev Db (α : Type) := Action Store GraphError α

/-- Increment the last byte below 255, dropping trailing bytes 255. -/
def prefixUpperBoundLoop : Bytes → Option Bytes
  | [] => none
  | last::before => if last<0xFF then some ((last+1)::before).reverse else prefixUpperBoundLoop before

/-- Exclusive upper bound of a prefix scan; none when every byte is 255. -/
def prefixUpperBound (bytes : Bytes) : Option Bytes := prefixUpperBoundLoop bytes.reverse

/-- Rows whose key lies between the prefix and its upper bound, in key order. -/
def scanPrefix {α : Type} (t : Table Bytes α) (start : Bytes) : List (Bytes×α) :=
  match prefixUpperBound start with
  | some upper => scan t fun key => start≤key && key<upper
  | none => scan t fun key => start≤key

theorem rangeEnd_append_singleton (front : Bytes) (b : UInt8) :
    rangeEnd (front++[b])=if b<0xFF then some (front++[b+1]) else rangeEnd front := by
  induction front with
  | nil => rfl
  | cons a front ih =>
    rw [List.cons_append,rangeEnd,ih]
    by_cases h : b<0xFF
    · rw [if_pos h,if_pos h]
      rfl
    · rw [if_neg h,if_neg h]
      rfl

theorem prefixUpperBound_eq (bytes : Bytes) : prefixUpperBound bytes=rangeEnd bytes := by
  have hloop : ∀ rev : Bytes,prefixUpperBoundLoop rev=rangeEnd rev.reverse := by
    intro rev
    induction rev with
    | nil => rfl
    | cons last before ih =>
      rw [prefixUpperBoundLoop,List.reverse_cons,List.reverse_cons,rangeEnd_append_singleton,ih]
  rw [prefixUpperBound,hloop,List.reverse_reverse]

theorem scanPrefix_eq_scan {α : Type} (t : Table Bytes α) (start : Bytes) :
    scanPrefix t start=scan t fun key => start.isPrefixOf key := by
  have htest : ∀ key : Bytes,start.isPrefixOf key=true ↔
      start≤key ∧ ∀ upper∈rangeEnd start,key<upper := by
    intro key
    rw [List.isPrefixOf_iff_prefix,prefix_iff_range]
  rw [scanPrefix,prefixUpperBound_eq]
  cases hend : rangeEnd start with
  | none =>
    have hf : (fun key => decide (start≤key))=fun key => start.isPrefixOf key := by
      funext key
      have ht := htest key
      rw [hend] at ht
      rw [Bool.eq_iff_iff,ht]
      simp
    exact congrArg (scan t) hf
  | some upper =>
    have hf : (fun key => decide (start≤key) && decide (key<upper))=fun key => start.isPrefixOf key := by
      funext key
      have ht := htest key
      rw [hend] at ht
      rw [Bool.eq_iff_iff,ht]
      simp
    exact congrArg (scan t) hf

/-- Metadata key of the node identifier counter. -/
def nextNodeIdKey : String := "next_node_id"

/-- Metadata key of the relationship sequence counter. -/
def nextEdgeSeqKey : String := "next_edge_seq"

/-- Advance a counter whose row holds the given bytes; the code allocates the
old value and refuses to pass the last word. -/
def advanceCounter (key corrupt exhausted : String) (raw : Bytes) : Db UInt64 :=
  if raw.length<8 then fail (.serialization "" corrupt none)
  else
    let current := fromBeBytes (raw.take 8)
    if current=0xFFFFFFFFFFFFFFFF then fail (.transaction exhausted none)
    else do
      update fun st => {st with metadata := put st.metadata key (toBeBytes (current+1))}
      pure current

/-- Allocate the next node identifier; the counter row must exist. -/
def nextNodeId : Db NodeId := fun st =>
  match get st.metadata nextNodeIdKey with
  | none => fail (.storage "Query returned no rows" none) st
  | some raw => advanceCounter nextNodeIdKey "corrupt node ID bytes" "node ID space exhausted" raw st

/-- Allocate the next relationship sequence number; a missing counter row is
first written as zero. -/
def nextEdgeSeq : Db UInt64 := fun st =>
  match get st.metadata nextEdgeSeqKey with
  | none =>
    let seeded := {st with metadata := put st.metadata nextEdgeSeqKey (toBeBytes 0)}
    advanceCounter nextEdgeSeqKey "corrupt edge seq bytes" "edge sequence space exhausted"
      (toBeBytes 0) seeded
  | some raw =>
    advanceCounter nextEdgeSeqKey "corrupt edge seq bytes" "edge sequence space exhausted" raw st

/-- Value of a counter row; a missing row counts zero. -/
def counterValue (st : Store) (key : String) : UInt64 :=
  match get st.metadata key with
  | some raw => fromBeBytes (raw.take 8)
  | none => 0

/-- A counter row, when present, holds at least one word. -/
def CounterRow (st : Store) (key : String) : Prop := ∀ raw,get st.metadata key=some raw → 8 ≤ raw.length

/-- Next relationship sequence number. -/
def edgeSeqCounter (st : Store) : UInt64 := counterValue st nextEdgeSeqKey

/-- Next node identifier. -/
def nodeIdCounter (st : Store) : UInt64 := counterValue st nextNodeIdKey

/-- Metadata key of the schema version. -/
def schemaVersionKey : String := "schema_version"

/-- The store of a database that was just created. -/
def freshStore : Store where
  nodes := empty
  adjOut := empty
  adjIn := empty
  edgeProps := empty
  metadata := put (put (put empty schemaVersionKey (toBeBytes 3)) nextNodeIdKey (toBeBytes 1))
    nextEdgeSeqKey (toBeBytes 0)
  indexTables := empty
  ftsTables := empty

/-- Count stored in a statistics row; a missing or malformed row counts zero. -/
def getCount (st : Store) (key : String) : UInt64 :=
  match get st.metadata key with
  | some data => if data.length=8 then fromBeBytes data else 0
  | none => 0

/-- Write a statistics row. -/
def setCount (st : Store) (key : String) (count : UInt64) : Store :=
  {st with metadata := put st.metadata key (toBeBytes count)}

/-- Add one to a statistics row. -/
def incrementCount (st : Store) (key : String) : Store := setCount st key (getCount st key+1)

/-- Subtract, stopping at zero, and drop a row that reaches zero. -/
def decrementCountBy (st : Store) (key : String) (n : UInt64) : Store :=
  let count := getCount st key
  let newCount := if count≤n then 0 else count-n
  if newCount=0 then {st with metadata := delete st.metadata key} else setCount st key newCount

/-- Statistics key of a node label. -/
def labelCountKey (label : String) : String := "stats:label_count:"++label

/-- Statistics key of a relationship type. -/
def edgeTypeCountKey (typeName : String) : String := "stats:edge_type_count:"++typeName

/-- Recorded number of nodes with a label. -/
def getLabelCount (st : Store) (label : String) : UInt64 := getCount st (labelCountKey label)

/-- Count one more node with a label. -/
def incrementLabelCount (st : Store) (label : String) : Store := incrementCount st (labelCountKey label)

/-- Count one node with a label less. -/
def decrementLabelCount (st : Store) (label : String) : Store := decrementCountBy st (labelCountKey label) 1

/-- Recorded number of relationships of a type. -/
def getEdgeTypeCount (st : Store) (typeName : String) : UInt64 := getCount st (edgeTypeCountKey typeName)

/-- Count one more relationship of a type. -/
def incrementEdgeTypeCount (st : Store) (typeName : String) : Store :=
  incrementCount st (edgeTypeCountKey typeName)

/-- Count some relationships of a type less. -/
def decrementEdgeTypeCountBy (st : Store) (typeName : String) (n : UInt64) : Store :=
  decrementCountBy st (edgeTypeCountKey typeName) n

variable {a b key corrupt exhausted : String} {c : UInt64}

theorem labelCountKey_inj : labelCountKey a=labelCountKey b ↔ a=b :=
  String.append_right_inj _

theorem edgeTypeCountKey_inj : edgeTypeCountKey a=edgeTypeCountKey b ↔ a=b :=
  String.append_right_inj _

theorem labelCountKey_ne_edgeTypeCountKey (a b : String) : labelCountKey a≠edgeTypeCountKey b :=
  append_ne_of_take 7 (by decide) (by decide) (by decide) a b

theorem countKey_ne_of_take {p : String} (hp : 1≤p.toList.length) (hk : 1≤key.toList.length)
    (h : p.toList.take 1≠key.toList.take 1) (a : String) : p++a≠key := by
  have hne := append_ne_of_take 1 hp hk h a ""
  rwa [String.append_empty] at hne

theorem labelCountKey_ne_nextNodeIdKey (a : String) : labelCountKey a≠nextNodeIdKey :=
  countKey_ne_of_take (by decide) (by decide) (by decide) a

theorem labelCountKey_ne_nextEdgeSeqKey (a : String) : labelCountKey a≠nextEdgeSeqKey :=
  countKey_ne_of_take (by decide) (by decide) (by decide) a

theorem edgeTypeCountKey_ne_nextNodeIdKey (a : String) : edgeTypeCountKey a≠nextNodeIdKey :=
  countKey_ne_of_take (by decide) (by decide) (by decide) a

theorem edgeTypeCountKey_ne_nextEdgeSeqKey (a : String) : edgeTypeCountKey a≠nextEdgeSeqKey :=
  countKey_ne_of_take (by decide) (by decide) (by decide) a

theorem edgeTypeCountKey_ne_schemaVersionKey (a : String) : edgeTypeCountKey a≠schemaVersionKey := by
  have hne := append_ne_of_take (p:="stats:edge_type_count:") (q:="schema_version") 2 (by decide)
    (by decide) (by decide) a ""
  rwa [String.append_empty] at hne

theorem labelCountKey_ne_schemaVersionKey (a : String) : labelCountKey a≠schemaVersionKey := by
  have hne := append_ne_of_take (p:="stats:label_count:") (q:="schema_version") 2 (by decide)
    (by decide) (by decide) a ""
  rwa [String.append_empty] at hne

theorem nextNodeIdKey_ne_nextEdgeSeqKey : nextNodeIdKey≠nextEdgeSeqKey := by decide

theorem getCount_setCount (st : Store) (key other : String) (count : UInt64) :
    getCount (setCount st key count) other=if other=key then count else getCount st other := by
  simp only [getCount,setCount,get_put]
  split_ifs with h
  · simp
  · rfl

theorem getCount_incrementCount (st : Store) (key other : String) :
    getCount (incrementCount st key) other=
      if other=key then getCount st key+1 else getCount st other := by
  rw [incrementCount,getCount_setCount]

/-- Reading a statistics row after a decrement; dropping the row at zero does
not show. -/
theorem getCount_decrementCountBy (st : Store) (key other : String) (n : UInt64) :
    getCount (decrementCountBy st key n) other=
      if other=key then (if getCount st key≤n then 0 else getCount st key-n)
      else getCount st other := by
  have hdel : getCount {st with metadata := delete st.metadata key} other=
      if other=key then 0 else getCount st other := by
    simp only [getCount,get_delete]
    split_ifs with h <;> rfl
  unfold decrementCountBy
  dsimp only
  generalize (if getCount st key≤n then 0 else getCount st key-n)=newCount
  by_cases hz : newCount=0
  · rw [if_pos hz,hdel,hz]
  · rw [if_neg hz,getCount_setCount]

theorem counterValue_put (st : Store) (key : String) (n : UInt64) :
    counterValue {st with metadata := put st.metadata key (toBeBytes n)} key=n := by
  simp only [counterValue,get_put_self]
  rw [List.take_of_length_le (by simp),fromBeBytes_toBeBytes]

variable {raw : Bytes} {st : Store}

theorem advanceCounter_ok (hlen : 8 ≤ raw.length)
    (hc : fromBeBytes (raw.take 8)≠0xFFFFFFFFFFFFFFFF) (st : Store) :
    advanceCounter key corrupt exhausted raw st=(.ok (fromBeBytes (raw.take 8)),
      {st with metadata := put st.metadata key (toBeBytes (fromBeBytes (raw.take 8)+1))}) := by
  have hlong : ¬raw.length<8 := by omega
  rw [advanceCounter,if_neg hlong,if_neg hc]
  rfl

theorem advanceCounter_exhausted (hlen : 8 ≤ raw.length) (hc : fromBeBytes (raw.take 8)=0xFFFFFFFFFFFFFFFF)
    (st : Store) : advanceCounter key corrupt exhausted raw st=(.error (.transaction exhausted none),st) := by
  have hlong : ¬raw.length<8 := by omega
  rw [advanceCounter,if_neg hlong,if_pos hc]
  rfl

theorem advanceCounter_cases (key corrupt exhausted : String) (raw : Bytes) (st : Store) :
    (∃ e,advanceCounter key corrupt exhausted raw st=(.error e,st)) ∨
      ∃ n,advanceCounter key corrupt exhausted raw st=
        (.ok n,{st with metadata := put st.metadata key (toBeBytes (n+1))}) := by
  by_cases hlen : raw.length<8
  · refine Or.inl ⟨.serialization "" corrupt none,?_⟩
    rw [advanceCounter,if_pos hlen]
    rfl
  · rw [advanceCounter,if_neg hlen]
    by_cases hc : fromBeBytes (raw.take 8)=0xFFFFFFFFFFFFFFFF
    · refine Or.inl ⟨.transaction exhausted none,?_⟩
      rw [if_pos hc]
      rfl
    · refine Or.inr ⟨fromBeBytes (raw.take 8),?_⟩
      rw [if_neg hc]
      rfl

theorem nextNodeId_cases (st : Store) :
    (∃ e,nextNodeId st=(.error e,st)) ∨
      ∃ n,nextNodeId st=(.ok n,{st with metadata := put st.metadata nextNodeIdKey (toBeBytes (n+1))}) := by
  unfold nextNodeId
  cases get st.metadata nextNodeIdKey with
  | none => exact Or.inl ⟨_,rfl⟩
  | some raw => exact advanceCounter_cases _ _ _ raw st

theorem nextEdgeSeq_frame (st : Store) :
    ∃ m,(nextEdgeSeq st).2={st with metadata := m} ∧
      ∀ other,other≠nextEdgeSeqKey → get m other=get st.metadata other := by
  have hadvance : ∀ (raw : Bytes) (st : Store),
      ∃ m,(advanceCounter nextEdgeSeqKey "corrupt edge seq bytes" "edge sequence space exhausted"
          raw st).2={st with metadata := m} ∧
        ∀ other,other≠nextEdgeSeqKey → get m other=get st.metadata other := by
    intro raw st
    rcases advanceCounter_cases nextEdgeSeqKey "corrupt edge seq bytes"
      "edge sequence space exhausted" raw st with ⟨e,herror⟩|⟨n,hok⟩
    · rw [herror]
      exact ⟨st.metadata,rfl,fun _ _ => rfl⟩
    · rw [hok]
      exact ⟨_,rfl,fun other ho => get_put_ne ho⟩
  unfold nextEdgeSeq
  cases get st.metadata nextEdgeSeqKey with
  | none =>
    have ⟨m,hstore,hframe⟩ := hadvance (toBeBytes 0)
      {st with metadata := put st.metadata nextEdgeSeqKey (toBeBytes 0)}
    exact ⟨m,hstore,fun other ho => (hframe other ho).trans (get_put_ne ho)⟩
  | some raw => exact hadvance raw st

theorem decrementCountBy_cases (st : Store) (key : String) (n : UInt64) :
    decrementCountBy st key n={st with metadata := delete st.metadata key} ∨
      ∃ count,decrementCountBy st key n=setCount st key count := by
  unfold decrementCountBy
  dsimp only
  generalize (if getCount st key≤n then 0 else getCount st key-n)=newCount
  by_cases hz : newCount=0
  · rw [if_pos hz]
    exact Or.inl rfl
  · rw [if_neg hz]
    exact Or.inr ⟨newCount,rfl⟩

theorem decrementCountBy_frame (st : Store) (key : String) (n : UInt64) :
    ∃ m,decrementCountBy st key n={st with metadata := m} ∧
      ∀ other,other≠key → get m other=get st.metadata other := by
  rcases decrementCountBy_cases st key n with hdrop|⟨count,hset⟩
  · exact ⟨_,hdrop,fun other ho => get_delete_ne ho⟩
  · exact ⟨_,hset,fun other ho => get_put_ne ho⟩

theorem toNat_succ (h : c.toNat+1<2^64) : (c+1).toNat=c.toNat+1 := by
  rw [UInt64.toNat_add]
  exact Nat.mod_eq_of_lt h

theorem succ_lt_of_ne_max (h : c≠0xFFFFFFFFFFFFFFFF) : c.toNat+1<2^64 := by
  have hne : c.toNat≠2^64-1 := by
    intro heq
    exact h (UInt64.toNat_inj.mp heq)
  have hlt := c.toNat_lt
  omega

theorem toNat_saturatingSub (a n : UInt64) :
    (if a≤n then 0 else a-n).toNat=a.toNat-n.toNat := by
  by_cases h : a≤n
  · have hle : a.toNat≤n.toNat := UInt64.le_iff_toNat_le.mp h
    rw [if_pos h]
    change 0=a.toNat-n.toNat
    omega
  · have hle : n≤a := (UInt64.le_total n a).resolve_right h
    rw [if_neg h,UInt64.toNat_sub_of_le _ _ hle]

theorem nextEdgeSeq_ok (hrow : CounterRow st nextEdgeSeqKey)
    (hc : edgeSeqCounter st≠0xFFFFFFFFFFFFFFFF) :
    nextEdgeSeq st=(.ok (edgeSeqCounter st),
      {st with metadata := put st.metadata nextEdgeSeqKey (toBeBytes (edgeSeqCounter st+1))}) := by
  unfold nextEdgeSeq
  cases hget : get st.metadata nextEdgeSeqKey with
  | none =>
    have hzero : edgeSeqCounter st=0 := by
      unfold edgeSeqCounter counterValue
      rw [hget]
    have hread : fromBeBytes ((toBeBytes 0).take 8)=0 := by decide
    dsimp only
    rw [advanceCounter_ok (toBeBytes_length 0).ge (by rw [hread]; decide),hread,hzero]
    dsimp only
    rw [put_put]
  | some raw =>
    have hval : edgeSeqCounter st=fromBeBytes (raw.take 8) := by
      unfold edgeSeqCounter counterValue
      rw [hget]
    rw [hval] at hc ⊢
    exact advanceCounter_ok (hrow raw hget) hc st

theorem nextNodeId_ok (hget : get st.metadata nextNodeIdKey=some raw)
    (hlen : 8 ≤ raw.length) (hc : nodeIdCounter st≠0xFFFFFFFFFFFFFFFF) :
    nextNodeId st=(.ok (nodeIdCounter st),
      {st with metadata := put st.metadata nextNodeIdKey (toBeBytes (nodeIdCounter st+1))}) := by
  have hval : nodeIdCounter st=fromBeBytes (raw.take 8) := by
    unfold nodeIdCounter counterValue
    rw [hget]
  unfold nextNodeId
  rw [hget]
  rw [hval] at hc ⊢
  exact advanceCounter_ok hlen hc st

theorem nextNodeId_exhausted (hget : get st.metadata nextNodeIdKey=some raw) (hlen : 8 ≤ raw.length)
    (hc : nodeIdCounter st=0xFFFFFFFFFFFFFFFF) :
    nextNodeId st=(.error (.transaction "node ID space exhausted" none),st) := by
  unfold nodeIdCounter counterValue at hc
  rw [hget] at hc
  unfold nextNodeId
  rw [hget]
  exact advanceCounter_exhausted hlen hc st

theorem nextEdgeSeq_exhausted (hrow : CounterRow st nextEdgeSeqKey) (hc : edgeSeqCounter st=0xFFFFFFFFFFFFFFFF) :
    nextEdgeSeq st=(.error (.transaction "edge sequence space exhausted" none),st) := by
  unfold edgeSeqCounter counterValue at hc
  unfold nextEdgeSeq
  cases hget : get st.metadata nextEdgeSeqKey with
  | none =>
    rw [hget] at hc
    exact absurd hc (by decide)
  | some raw =>
    rw [hget] at hc
    exact advanceCounter_exhausted (hrow raw hget) hc st

end GraphDbLite.GraphStore
