import Mathlib.Data.Nat.Pairing
import Mathlib.Logic.Equiv.List
import GraphDbLite.IndexAccess
import GraphDbLite.MergeOperators
import GraphDbLite.PrefixScans
import GraphDbLite.ValueEquality

/-!
# Storage lookups in an index are exact

A composite lookup reads the rows from the serialized values up to the next prefix, a
lookup of one property scans the prefix. Serialized values form a prefix-free code, so
the values in front of a row can be read off it whatever the identifier behind them looks
like: both lookups list exactly the nodes that hold the values.
-/

namespace GraphDbLite.IndexLookups

open ByteStrings GraphTypes OrderedTable GraphStore SecondaryIndex
open WriteOperators PrefixScans NodeView NodeRecords IndexMirror IndexAccess MergeOperators ValueEquality

/-- A serialization that tells values apart and never starts another one. -/
structure PrefixCode (enc : Value → Bytes) : Prop where
  /-- Different values are serialized differently. -/
  injective : Function.Injective enc
  /-- No serialized value is a proper start of another one. -/
  prefixFree : ∀ v w,enc v<+:enc w → enc v=enc w

/-- Keys of a table from a prefix on, below its next prefix if there is one. -/
def keysFrom (t : Table Bytes Unit) (front : Bytes) : List Bytes :=
  match nextPrefix front with
  | some upper => (scan t fun key => front≤key && key<upper).map Prod.fst
  | none => (scan t fun key => front≤key).map Prod.fst

section Lookups

variable (enc : Value → Bytes) (st : Store)

/-- Identifiers of the index rows that start with the given values, in scan order. Nothing
when more values than columns are given, which the assertion of the source rules out. -/
def compositeIndexPrefixLookup (label : String) (properties : List String) (values : List Value) :
    Option (Result (List NodeId)) :=
  if values.length ≤ properties.length then
    some do
      let table ← resolveIndexTable st label properties
      match get st.indexTables table with
      | none => .error (.storage ("no such table: "++table) none)
      | some t =>
        pure (((keysFrom t (values.flatMap enc)).filter fun key => 8 ≤ key.length).map fun key =>
          fromBeBytes (key.drop (key.length-8)))
  else none

/-- The index table of a definition holds exactly the rows of the stored nodes. -/
structure TableMirrors (label : String) (properties : List String) (name : String)
    (t : Table Bytes Unit) : Prop where
  /-- The definition is backed by the table of that name. -/
  resolved : resolveIndexTable st label properties=.ok name
  /-- The table exists. -/
  table : get st.indexTables name=some t
  /-- No row is stale, missing or phantom. -/
  rows : ∀ key,key∈keys t ↔ ∃ id,nodeRow enc id (recordAt st id) label properties=some key

/-- A node that carries the label and has every column, the leading ones with the given
values. -/
structure Holds (label : String) (properties : List String) (values : List Value) (n : Node) : Prop where
  /-- The node is stored. -/
  stored : Stored st n
  /-- The node carries the label. -/
  carries : label∈n.labels
  /-- Every column has a value. -/
  columns : ∀ p∈properties,(getProp n.properties p).isSome=true
  /-- The leading columns have the given values. -/
  leading : ∀ pair∈properties.zip values,getProp n.properties pair.1=some pair.2

variable {enc st} {label : String} {properties : List String} {values : List Value}

theorem PrefixCode.selfDelimiting (h : PrefixCode enc) : SelfDelimiting enc := by
  intro v w s t happ
  have hv : enc v<+:enc w++t := by
    rw [←happ]
    exact List.prefix_append _ _
  have hcases := List.prefix_or_prefix_of_prefix hv (List.prefix_append (enc w) t)
  cases hcases with
  | inl hleft => exact h.prefixFree v w hleft
  | inr hright => exact (h.prefixFree w v hright).symm

theorem keysFrom_eq (t : Table Bytes Unit) (front : Bytes) :
    keysFrom t front=(scanPrefix t front).map Prod.fst := by
  have hbound : nextPrefix front=prefixUpperBound front := by rw [nextPrefix_eq,prefixUpperBound_eq]
  unfold keysFrom scanPrefix
  rw [hbound]
  cases prefixUpperBound front with
  | none | some upper => rfl

theorem map_keysFrom (t : Table Bytes Unit) (front : Bytes) :
    (((keysFrom t front).filter fun key => 8 ≤ key.length).map fun key =>
      fromBeBytes (key.drop (key.length-8)))=prefixIds t front := by
  rw [keysFrom_eq,List.filter_map,List.map_map]
  rfl

theorem compositeIndexPrefixLookup_ok {name : String} {t : Table Bytes Unit}
    (hmirror : TableMirrors enc st label properties name t) (hlen : values.length ≤ properties.length) :
    compositeIndexPrefixLookup enc st label properties values=
      some (.ok (prefixIds t (values.flatMap enc))) := by
  unfold compositeIndexPrefixLookup
  rw [if_pos hlen,bind_of_ok hmirror.resolved,hmirror.table]
  dsimp only
  rw [map_keysFrom]
  rfl

theorem compositeIndexPrefixLookup_executor {S : Type} (env : QueryExecutor.QueryEnv S)
    (hlen : values.length ≤ properties.length) :
    compositeIndexPrefixLookup env.enc st label properties values=
      some (QueryExecutor.compositeIndexPrefixLookup env st label properties values) := by
  unfold compositeIndexPrefixLookup QueryExecutor.compositeIndexPrefixLookup
  rw [if_pos hlen]
  simp only [map_keysFrom]
  rfl

/-- The row of a node starts with the serialized values exactly when the node holds them. -/
theorem holds_iff (hcode : PrefixCode enc) (hlen : values.length ≤ properties.length) {n : Node} :
    Holds st label properties values n ↔ Stored st n ∧ label∈n.labels ∧
      ∃ cols,collectValues n.properties properties=some cols ∧
        values.flatMap enc<+:cols.flatMap enc++toBeBytes n.id := by
  have hvalue : ∀ (held : Option Value) (v : Value),held.map enc=some (enc v) ↔ held=some v := by
    intro held v
    cases held with
    | none => simp
    | some w =>
      rw [Option.map_some,Option.some.injEq,Option.some.injEq]
      constructor
      · intro h
        exact hcode.injective h
      · intro h
        rw [h]
  constructor
  · intro h
    have ⟨cols,hcols⟩ := collectValues_isSome.mpr h.columns
    have hkeys : values.flatMap enc<+:cols.flatMap enc++toBeBytes n.id :=
      (keys_prefix_iff hcode.selfDelimiting hcols hlen).mpr fun pair hpair =>
        (hvalue _ _).mpr (h.leading pair hpair)
    exact ⟨h.stored,h.carries,cols,hcols,hkeys⟩
  · intro h
    have ⟨hstored,hcarries,cols,hcols,hpre⟩ := h
    have hkeys := (keys_prefix_iff hcode.selfDelimiting hcols hlen).mp hpre
    exact ⟨hstored,hcarries,collectValues_isSome.mp ⟨cols,hcols⟩,fun pair hpair =>
      (hvalue _ _).mp (hkeys pair hpair)⟩

end Lookups

section Frames

/-- Number of a text. -/
def textNumber (text : String) : Nat := Encodable.encode (text.toList.map Char.toNat)

mutual

/-- Number of a value: its kind paired with its contents. -/
def valueNumber : Value → Nat
  | .null => Nat.pair 0 0
  | .bool b => Nat.pair 1 b.toNat
  | .i64 n => Nat.pair 2 (Encodable.encode n.toInt)
  | .f64 bits => Nat.pair 3 bits.toNat
  | .string text => Nat.pair 4 (textNumber text)
  | .list items => Nat.pair 5 (itemsNumber items)
  | .node n => Nat.pair 6 (nodeNumber n)
  | .edge e => Nat.pair 7 (edgeNumber e)
  | .path p => Nat.pair 8 (pathNumber p)
  | .map entries => Nat.pair 9 (entriesNumber entries)
  | .date days => Nat.pair 10 (Encodable.encode days)
  | .localTime nanos => Nat.pair 11 nanos
  | .time nanos offset => Nat.pair 12 (Encodable.encode (nanos,offset))
  | .localDateTime days nanos => Nat.pair 13 (Encodable.encode (days,nanos))
  | .dateTime days nanos offset zone =>
    Nat.pair 14 (Encodable.encode (days,nanos,offset,zone.map textNumber))
  | .duration months days seconds nanos => Nat.pair 15 (Encodable.encode (months,days,seconds,nanos))
termination_by structural value => value

/-- Number of a node. -/
def nodeNumber : NodeOf Value → Nat
  | ⟨id,labels,properties⟩ =>
    Nat.pair (Encodable.encode (id.toNat,labels.map textNumber)) (entriesNumber properties)
termination_by structural n => n

/-- Number of a relationship. -/
def edgeNumber : EdgeOf Value → Nat
  | ⟨src,dst,label,properties⟩ =>
    Nat.pair (Encodable.encode (src.toNat,dst.toNat,textNumber label)) (entriesNumber properties)
termination_by structural e => e

/-- Number of a path. -/
def pathNumber : PathOf Value → Nat
  | ⟨nodes,edges⟩ => Nat.pair (nodesNumber nodes) (edgesNumber edges)
termination_by structural p => p

/-- Number of a list of values. -/
def itemsNumber : List Value → Nat
  | [] => 0
  | item::rest => Nat.pair (valueNumber item) (itemsNumber rest)+1
termination_by structural items => items

/-- Number of a list of entries. -/
def entriesNumber : List (String×Value) → Nat
  | [] => 0
  | entry::rest => Nat.pair (entryNumber entry) (entriesNumber rest)+1
termination_by structural entries => entries

/-- Number of an entry. -/
def entryNumber : String×Value → Nat
  | (key,value) => Nat.pair (textNumber key) (valueNumber value)
termination_by structural entry => entry

/-- Number of a list of nodes. -/
def nodesNumber : List (NodeOf Value) → Nat
  | [] => 0
  | n::rest => Nat.pair (nodeNumber n) (nodesNumber rest)+1
termination_by structural nodes => nodes

/-- Number of a list of relationships. -/
def edgesNumber : List (EdgeOf Value) → Nat
  | [] => 0
  | e::rest => Nat.pair (edgeNumber e) (edgesNumber rest)+1
termination_by structural edges => edges

end

theorem textNumber_inj {a b : String} : textNumber a=textNumber b ↔ a=b := by
  constructor
  · intro h
    have hlist : a.toList.map Char.toNat=b.toList.map Char.toNat := Encodable.encode_injective h
    have hchars : Function.Injective Char.toNat := fun c d hcd => Char.toNat_inj.mp hcd
    exact String.toList_inj.mp (List.map_injective_iff.mpr hchars hlist)
  · intro h
    rw [h]

theorem map_textNumber_inj {a b : List String} : a.map textNumber=b.map textNumber ↔ a=b := by
  have htext : Function.Injective textNumber := fun x y h => textNumber_inj.mp h
  exact (List.map_injective_iff.mpr htext).eq_iff

theorem optionNumber_inj {a b : Option String} : a.map textNumber=b.map textNumber ↔ a=b := by
  have htext : Function.Injective textNumber := fun x y h => textNumber_inj.mp h
  exact (Option.map_injective htext).eq_iff

theorem boolNumber_inj {a b : Bool} : a.toNat=b.toNat ↔ a=b := by
  cases a with
  | false | true => cases b <;> simp

theorem listNumber_inj {α : Type} {number : α → Nat} (all : List α → Nat) (hnil : all []=0)
    (hcons : ∀ x xs,all (x::xs)=Nat.pair (number x) (all xs)+1) {a b : List α}
    (helements : ∀ x∈a,∀ y,number x=number y → x=y) (h : all a=all b) : a=b := by
  induction a generalizing b with
  | nil =>
    cases b with
    | nil => rfl
    | cons y ys => simp [hnil,hcons] at h
  | cons x xs ih =>
    cases b with
    | nil => simp [hnil,hcons] at h
    | cons y ys =>
      simp only [hcons,Nat.add_right_cancel_iff,Nat.pair_eq_pair] at h
      rw [helements x List.mem_cons_self y h.1,ih (fun x hx => helements x (List.mem_cons_of_mem _ hx)) h.2]

/-- Whether the numbers of the values in a map are different from those of other values. -/
def NumberedApart (entries : Properties) : Prop :=
  ∀ entry∈entries,∀ value,valueNumber entry.2=valueNumber value → entry.2=value

theorem entriesNumber_inj {p q : Properties} (hp : NumberedApart p) (h : entriesNumber p=entriesNumber q) : p=q := by
  refine listNumber_inj entriesNumber rfl (fun _ _ => rfl) (fun entry hentry other hother => ?_) h
  obtain ⟨key,value⟩ := entry
  obtain ⟨key',value'⟩ := other
  simp only [entryNumber,Nat.pair_eq_pair,textNumber_inj] at hother
  exact Prod.ext hother.1 (hp _ hentry value' hother.2)

theorem nodeNumber_inj {n m : NodeOf Value} (hp : NumberedApart n.properties) (h : nodeNumber n=nodeNumber m) : n=m := by
  obtain ⟨id,labels,properties⟩ := n
  obtain ⟨id',labels',properties'⟩ := m
  simp only [nodeNumber,Nat.pair_eq_pair,Encodable.encode_inj,Prod.mk.injEq,UInt64.toNat_inj,
    map_textNumber_inj] at h
  have hsame : properties=properties' := entriesNumber_inj hp h.2
  rw [h.1.1,h.1.2,hsame]

theorem edgeNumber_inj {e f : EdgeOf Value} (hp : NumberedApart e.properties) (h : edgeNumber e=edgeNumber f) : e=f := by
  obtain ⟨src,dst,label,properties⟩ := e
  obtain ⟨src',dst',label',properties'⟩ := f
  simp only [edgeNumber,Nat.pair_eq_pair,Encodable.encode_inj,Prod.mk.injEq,UInt64.toNat_inj,
    textNumber_inj] at h
  have hsame : properties=properties' := entriesNumber_inj hp h.2
  rw [h.1.1,h.1.2.1,h.1.2.2,hsame]

theorem valueNumber_inj (a b : Value) (h : valueNumber a=valueNumber b) : a=b := by
  induction a using value_induct generalizing b with
  | h a hitems hmaps =>
    cases a with
    | list items =>
      cases b with
      | list others =>
        simp only [valueNumber,Nat.pair_eq_pair,true_and] at h
        exact congrArg Value.list (listNumber_inj itemsNumber rfl (fun _ _ => rfl) hitems h)
      | _ => simp [valueNumber,Nat.pair_eq_pair] at h
    | node n =>
      cases b with
      | node k =>
        simp only [valueNumber,Nat.pair_eq_pair,true_and] at h
        rw [nodeNumber_inj (hmaps _ List.mem_cons_self) h]
      | _ => simp [valueNumber,Nat.pair_eq_pair] at h
    | edge e =>
      cases b with
      | edge f =>
        simp only [valueNumber,Nat.pair_eq_pair,true_and] at h
        rw [edgeNumber_inj (hmaps _ List.mem_cons_self) h]
      | _ => simp [valueNumber,Nat.pair_eq_pair] at h
    | path p =>
      cases b with
      | path q =>
        obtain ⟨nodes,edges⟩ := p
        obtain ⟨nodes',edges'⟩ := q
        simp only [valueNumber,pathNumber,Nat.pair_eq_pair,true_and] at h
        have hnodes : nodes=nodes' := listNumber_inj nodesNumber rfl (fun _ _ => rfl) (fun n hn k => nodeNumber_inj
          (hmaps _ (List.mem_append_left _ (List.mem_map_of_mem hn)))) h.1
        have hedges : edges=edges' := listNumber_inj edgesNumber rfl (fun _ _ => rfl) (fun e he k => edgeNumber_inj
          (hmaps _ (List.mem_append_right _ (List.mem_map_of_mem he)))) h.2
        rw [hnodes,hedges]
      | _ => simp [valueNumber,Nat.pair_eq_pair] at h
    | map entries =>
      cases b with
      | map others =>
        simp only [valueNumber,Nat.pair_eq_pair,true_and] at h
        rw [entriesNumber_inj (hmaps _ List.mem_cons_self) h]
      | _ => simp [valueNumber,Nat.pair_eq_pair] at h
    | _ =>
      cases b with
      | _ =>
        simp [valueNumber,Nat.pair_eq_pair,Encodable.encode_inj,boolNumber_inj,textNumber_inj,optionNumber_inj,
          Int64.toInt_inj,UInt64.toNat_inj] at h ⊢ <;> exact h

/-- Read a short frame back. -/
def readShort : Bytes → Option Value
  | 164::_ => some .null
  | 129::163::_::_::_::b::_ => some (.i64 b.toInt8.toInt64)
  | 129::166::_::_::_::_::_::_::_::text => (fromUtf8 text).map .string
  | _ => none

theorem readShort_shortFrame {v : Value} (hshort : shortFrame v≠[193]) :
    readShort (shortFrame v)=some v := by
  cases v with
  | null => rfl
  | i64 n =>
    rw [shortFrame] at hshort ⊢
    split_ifs at hshort ⊢ with hn
    · have hread : readShort (frame (.i64 n))=some (.i64 n.toInt8.toUInt8.toInt8.toInt64) := rfl
      have hback : n.toInt8.toInt64=n := by
        rw [←Int64.toInt_inj,Int8.toInt_toInt64,Int64.toInt_toInt8]
        exact Int.bmod_eq_of_le (by omega) (by omega)
      rw [hread,Int8.toInt8_toUInt8,hback]
    · exact absurd rfl hshort
  | string text =>
    rw [shortFrame] at hshort ⊢
    split_ifs at hshort ⊢ with hn
    · have hread : readShort (frame (.string text))=(fromUtf8 (asBytes text)).map .string := rfl
      rw [hread,fromUtf8_asBytes]
      rfl
    · exact absurd rfl hshort
  | _ => exact absurd rfl hshort

/-- Short frames as they are; behind the reserved byte the number of the value in unary. -/
def wideFrame (v : Value) : Bytes :=
  if shortFrame v=[193] then 193::(List.replicate (valueNumber v) 1++[0]) else shortFrame v

/-- Length of the wide frame at the start of some bytes. -/
def wideLength : Bytes → Nat
  | 193::rest => 2+(rest.takeWhile fun b => b=1).length
  | bytes => frameLength bytes

theorem takeWhile_unary (n : Nat) (t : Bytes) :
    ((List.replicate n (1 : UInt8)++0::t).takeWhile fun b => b=1)=List.replicate n 1 := by
  induction n with
  | zero => rfl
  | succ n ih => rw [List.replicate_succ,List.cons_append,List.takeWhile_cons_of_pos (by decide),ih]

theorem wideLength_shortFrame {v : Value} (hshort : shortFrame v≠[193]) (t : Bytes) :
    wideLength (shortFrame v++t)=frameLength (shortFrame v++t) := by
  obtain hv | ⟨b,hv⟩ | ⟨n,text,-,-,hv⟩ | hv := shortFrame_forms v
  · rw [hv]
    rfl
  · rw [hv]
    rfl
  · rw [hv]
    rfl
  · exact absurd hv hshort

theorem wideFrame_selfDelimiting : SelfDelimiting wideFrame := by
  refine selfDelimiting_of_length wideLength fun v t => ?_
  rw [wideFrame]
  split_ifs with hshort
  · have hread : wideLength (193::(List.replicate (valueNumber v) 1++0::t))=2+valueNumber v := by
      rw [wideLength,takeWhile_unary,List.length_replicate]
    rw [List.cons_append,List.append_assoc,List.singleton_append,hread,List.length_cons,
      List.length_append,List.length_replicate,List.length_singleton]
    omega
  · rw [wideLength_shortFrame hshort,frameLength_shortFrame]

theorem shortFrame_ne_reserved {v : Value} (hshort : shortFrame v≠[193]) (rest : Bytes) :
    shortFrame v≠193::rest := by
  intro h
  obtain hv | ⟨b,hv⟩ | ⟨n,text,-,-,hv⟩ | hv := shortFrame_forms v
  · rw [hv] at h
    exact absurd (List.cons.inj h).1 (by decide)
  · rw [hv] at h
    exact absurd (List.cons.inj h).1 (by decide)
  · rw [hv] at h
    exact absurd (List.cons.inj h).1 (by decide)
  · exact hshort hv

theorem wideFrame_prefixCode : PrefixCode wideFrame := by
  constructor
  · intro v w h
    rw [wideFrame,wideFrame] at h
    split_ifs at h with hv hw hw
    · have hunary := List.append_cancel_right (List.cons.inj h).2
      have hnumber := congrArg List.length hunary
      rw [List.length_replicate,List.length_replicate] at hnumber
      exact valueNumber_inj v w hnumber
    · exact absurd h.symm (shortFrame_ne_reserved hw _)
    · exact absurd h (shortFrame_ne_reserved hv _)
    · have hread := readShort_shortFrame hv
      rw [h,readShort_shortFrame hw] at hread
      exact (Option.some.inj hread).symm
  · intro v w h
    have ⟨t,ht⟩ := h
    have happ : wideFrame v++t=wideFrame w++[] := by rw [ht,List.append_nil]
    exact wideFrame_selfDelimiting v w t [] happ

/-- The index row of one person. -/
def namedRows : Table Bytes Unit := put empty (wideFrame (.string "x")++toBeBytes 1) ()

/-- A database with that person, indexed by name. -/
def namedStore : Store :=
  {personStore with indexTables := put empty (indexTableName "Person" ["name"]) namedRows}

theorem namedStore_mirrors : TableMirrors wideFrame namedStore "Person" ["name"]
    (indexTableName "Person" ["name"]) namedRows := by
  have hdef : IndexDef "Person" ["name"] := ⟨by decide,by decide,by decide,by decide⟩
  have htable : get namedStore.indexTables (indexTableName "Person" ["name"])=
      some namedRows := get_put_self _ _ _
  have hrecord : ∀ id r,recordAt namedStore id=some r ↔
      id=1 ∧ r=⟨["Person"],[("name",.string "x")]⟩ := by
    intro id r
    have hrows : namedStore.nodes.rows=[(1,⟨"Person",⟨["Person"],[("name",.string "x")]⟩⟩)] := rfl
    rw [recordAt,Option.map_eq_some_iff]
    constructor
    · intro h
      obtain ⟨row,hget,hr⟩ := h
      have hmem := get_eq_some.mp hget
      rw [hrows] at hmem
      obtain ⟨hid,hrow⟩ := Prod.mk.inj (List.mem_singleton.mp hmem)
      rw [←hr,hrow]
      exact ⟨hid,rfl⟩
    · intro h
      rw [h.1,h.2]
      exact ⟨_,get_eq_some.mpr (List.mem_singleton_self _),rfl⟩
  refine ⟨resolveIndexTable_ok hdef (mem_keys.mpr ⟨_,htable⟩),htable,fun key => ?_⟩
  rw [namedRows,mem_keys_put]
  constructor
  · intro h
    cases h with
    | inl hnew =>
      refine ⟨1,nodeRow_eq_some.mpr ⟨_,[.string "x"],(hrecord 1 _).mpr ⟨rfl,rfl⟩,List.mem_singleton_self _,rfl,?_⟩⟩
      rw [hnew,List.flatMap_singleton]
    | inr hold => exact absurd hold List.not_mem_nil
  · intro h
    obtain ⟨id,hnode⟩ := h
    obtain ⟨r,cols,hrec,_,hcols,hkey⟩ := nodeRow_eq_some.mp hnode
    obtain ⟨hid,hr⟩ := (hrecord id r).mp hrec
    rw [hr] at hcols
    have hone : [.string "x"]=cols := Option.some.inj hcols
    rw [←hkey,←hone,hid,List.flatMap_singleton]
    exact Or.inl rfl

/-- Write operators with wide frames. -/
def wideWrites : ExecEnv Value := {literalEnv with enc := wideFrame}

end Frames

section Exact

variable {st : Store} {label : String} {properties : List String} {values : List Value}

/-- Index lookups are exact: on a table that mirrors the nodes a composite lookup lists,
each once, the nodes that hold the values in the leading columns, and with one column the
lookup of that property lists the same nodes. -/
theorem lookups_exact {E : Type} (env : ExecEnv E) (hcode : PrefixCode env.enc) {name : String}
    {t : Table Bytes Unit} (hmirror : TableMirrors env.enc st label properties name t)
    (hlen : values.length ≤ properties.length) :
    ∃ ids,compositeIndexPrefixLookup env.enc st label properties values=some (.ok ids) ∧ ids.Nodup ∧
      (∀ id,id∈ids ↔ ∃ n,n.id=id ∧ Holds st label properties values n) ∧
      ∀ p v,properties=[p] → values=[v] →
        ∃ listed,indexLookup env st label p v=.ok listed ∧ listed.Perm ids := by
  have ⟨hnodup,hmem⟩ := prefixIds_spec hmirror.rows (values.flatMap env.enc)
  refine ⟨prefixIds t (values.flatMap env.enc),compositeIndexPrefixLookup_ok hmirror hlen,hnodup,
    fun id => ?_,fun p v hp hv => ?_⟩
  · rw [hmem]
    constructor
    · intro h
      have ⟨r,cols,hrec,hlabel,hcols,hpre⟩ := h
      exact ⟨⟨id,r.labels,r.properties⟩,rfl,(holds_iff hcode hlen).mpr
        ⟨stored_iff.mpr hrec,hlabel,cols,hcols,hpre⟩⟩
    · intro h
      have ⟨n,hid,hholds⟩ := h
      have ⟨hstored,hlabel,cols,hcols,hpre⟩ := (holds_iff hcode hlen).mp hholds
      rw [←hid]
      exact ⟨_,cols,stored_iff.mp hstored,hlabel,hcols,hpre⟩
  · have hresolve := hmirror.resolved
    rw [hp] at hresolve
    refine ⟨prefixIds t (values.flatMap env.enc),?_,List.Perm.refl _⟩
    unfold indexLookup
    rw [bind_of_ok hresolve,hmirror.table,hv,List.flatMap_singleton]
    rfl

end Exact

/-- The person is found by name, whose frame is the real one. -/
theorem lookups_exact_named :
    wideFrame (.string "x")=frame (.string "x") ∧
    ∃ ids,compositeIndexPrefixLookup wideFrame namedStore "Person" ["name"] [.string "x"]=
        some (.ok ids) ∧ ids.Nodup ∧
      (∀ id,id∈ids ↔ ∃ n,n.id=id ∧ Holds namedStore "Person" ["name"] [.string "x"] n) ∧
      ∀ p v,["name"]=[p] → [Value.string "x"]=[v] →
        ∃ listed,indexLookup wideWrites namedStore "Person" p v=.ok listed ∧ listed.Perm ids :=
  ⟨rfl,lookups_exact wideWrites wideFrame_prefixCode namedStore_mirrors (by decide)⟩

end GraphDbLite.IndexLookups
