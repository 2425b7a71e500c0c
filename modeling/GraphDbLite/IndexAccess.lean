import GraphDbLite.NodeRecords
import GraphDbLite.IndexMirror

/-!
# What an index lookup finds

A lookup scans the rows of an index that start with the serialized keys. When the
index mirrors the nodes and serialized values end where they say they end, the
nodes found are those that carry the label, have a value for every column, and
serialize the leading columns like the keys. A label scan finds the nodes whose
label column matches.
-/

namespace GraphDbLite.IndexAccess

open ByteStrings GraphTypes OrderedTable StatefulActions GraphStore NodeStorage SecondaryIndex
open WriteOperators CypherSyntax CypherEval QueryPlan FallibleLists QueryExecutor
open NodeView NodeRecords IndexMirror

/-- A serialized value ends where it says it ends. -/
def SelfDelimiting (enc : Value → Bytes) : Prop := ∀ v w s t,enc v++s=enc w++t → enc v=enc w

theorem fails_bind_error {α β : Type} {x : Result α} {f : α → Result β} (h : Fails x) :
    Fails (x >>= f) := by
  have ⟨e,he⟩ := h
  rw [he]
  exact ⟨e,rfl⟩

theorem bind_of_ok {α β : Type} {x : Result α} {f : α → Result β} {a : α} (h : x=.ok a) :
    (x >>= f)=f a := by
  rw [h]
  rfl

variable {properties : List String} {enc : Value → Bytes}

theorem collectValues_isSome {props : Properties} :
    (∃ cols,collectValues props properties=some cols) ↔ ∀ p∈properties,(getProp props p).isSome=true := by
  induction properties with
  | nil => simp [collectValues]
  | cons p rest ih =>
    rw [List.forall_mem_cons,←ih,collectValues]
    cases getProp props p with
    | none => simp
    | some v =>
      dsimp only
      rw [Option.isSome_some]
      simp only [true_and]
      constructor
      · intro h
        have ⟨cols,hcols⟩ := h
        have ⟨more,hmore,_⟩ := Option.map_eq_some_iff.mp hcols
        exact ⟨more,hmore⟩
      · intro h
        have ⟨more,hmore⟩ := h
        exact ⟨v::more,Option.map_eq_some_iff.mpr ⟨more,hmore,rfl⟩⟩

/-- A row starts with serialized keys exactly when the leading columns serialize
like them. -/
theorem keys_prefix_iff (henc : SelfDelimiting enc) {props : Properties} {cols values : List Value}
    {tail : Bytes} (hcols : collectValues props properties=some cols) (hlen : values.length≤properties.length) :
    values.flatMap enc<+:cols.flatMap enc++tail ↔
    ∀ pair∈properties.zip values,(getProp props pair.1).map enc=some (enc pair.2) := by
  induction properties generalizing cols values with
  | nil =>
    have hvalues : values=[] := List.eq_nil_of_length_eq_zero (by simpa using hlen)
    rw [hvalues]
    simp
  | cons p rest ih =>
    cases values with
    | nil => simp
    | cons v values =>
      rw [collectValues] at hcols
      cases hp : getProp props p with
      | none =>
        rw [hp] at hcols
        cases hcols
      | some w =>
        rw [hp] at hcols
        have ⟨more,hmore,hcons⟩ := Option.map_eq_some_iff.mp hcols
        have hshort : values.length ≤ rest.length := by simpa using hlen
        have hih := ih hmore hshort
        rw [←hcons,List.flatMap_cons,List.flatMap_cons,List.zip_cons_cons,List.forall_mem_cons,←hih,hp,
          Option.map_some,List.append_assoc]
        constructor
        · intro h
          have ⟨t,ht⟩ := h
          rw [List.append_assoc] at ht
          have heq := henc v w _ _ ht
          rw [heq] at ht
          exact ⟨by rw [heq],t,List.append_cancel_left ht⟩
        · intro h
          have ⟨heq,t,ht⟩ := h
          rw [Option.some.inj heq,←ht,←List.append_assoc]
          exact List.prefix_append _ _

theorem rowId_append (front : Bytes) (id : NodeId) :
    fromBeBytes ((front++toBeBytes id).drop ((front++toBeBytes id).length-8))=id := by
  rw [List.length_append,toBeBytes_length,Nat.add_sub_cancel,List.drop_left,fromBeBytes_toBeBytes]

theorem nodeRow_eq_some {id : NodeId} {record : Option NodeRecord} {key : Bytes} :
    nodeRow enc id record label properties=some key ↔ ∃ r cols,record=some r ∧ label∈r.labels ∧
    collectValues r.properties properties=some cols ∧ cols.flatMap enc++toBeBytes id=key := by
  cases record with
  | none => simp [nodeRow]
  | some r =>
    unfold nodeRow
    dsimp only
    by_cases hlabel : label∈r.labels
    · rw [if_pos hlabel,rowOf,Option.bind_some,Option.map_eq_some_iff]
      constructor
      · intro h
        obtain ⟨cols,hcols,hkey⟩ := h
        exact ⟨r,cols,rfl,hlabel,hcols,hkey⟩
      · intro h
        obtain ⟨other,cols,hother,_,hcols,hkey⟩ := h
        rw [Option.some.inj hother]
        exact ⟨cols,hcols,hkey⟩
    · rw [if_neg hlabel]
      constructor
      · intro h
        cases h
      · intro h
        obtain ⟨other,cols,hother,hin,_,_⟩ := h
        rw [Option.some.inj hother] at hlabel
        exact absurd hin hlabel

/-- Identifiers of the rows that start with given bytes. -/
def prefixIds (t : Table Bytes Unit) (front : Bytes) : List NodeId :=
  ((scanPrefix t front).filter fun row => 8 ≤ row.1.length).map fun row =>
    fromBeBytes (row.1.drop (row.1.length-8))

/-- A table that mirrors the nodes lists each node whose row starts with the bytes
once, and no other. -/
theorem prefixIds_spec {st : Store} {label : String} {t : Table Bytes Unit}
    (hrows : ∀ key,key∈keys t ↔ ∃ id,nodeRow enc id (recordAt st id) label properties=some key) (front : Bytes) :
    (prefixIds t front).Nodup ∧ ∀ id,id∈prefixIds t front ↔ ∃ r cols,recordAt st id=some r ∧ label∈r.labels ∧
    collectValues r.properties properties=some cols ∧ front<+:cols.flatMap enc++toBeBytes id := by
  have hrow : ∀ row∈(scanPrefix t front).filter fun row => 8 ≤ row.1.length,
      front<+:row.1 ∧ nodeRow enc (fromBeBytes (row.1.drop (row.1.length-8)))
        (recordAt st (fromBeBytes (row.1.drop (row.1.length-8)))) label properties=some row.1 := by
    intro row hmem
    have hscan := (List.mem_filter.mp hmem).1
    rw [scanPrefix_eq_scan] at hscan
    have ⟨hget,hpre⟩ := mem_scan.mp hscan
    have ⟨id,hnode⟩ := (hrows row.1).mp (mem_keys.mpr ⟨row.2,hget⟩)
    have ⟨r,cols,_,_,_,hkey⟩ := nodeRow_eq_some.mp hnode
    have hid : fromBeBytes (row.1.drop (row.1.length-8))=id := by
      rw [←hkey]
      exact rowId_append _ id
    rw [hid]
    exact ⟨List.isPrefixOf_iff_prefix.mp hpre,hnode⟩
  have hnodup : ((scanPrefix t front).filter fun row => 8 ≤ row.1.length).Nodup := by
    rw [scanPrefix_eq_scan]
    exact ((rows_nodup t).filter _).filter _
  constructor
  · refine hnodup.map_on fun x hx y hy hxy => ?_
    have hkey := (hrow x hx).2
    rw [hxy,(hrow y hy).2] at hkey
    exact Prod.ext (Option.some.inj hkey).symm rfl
  · intro id
    rw [prefixIds,List.mem_map]
    constructor
    · intro h
      have ⟨row,hmem,hid⟩ := h
      have ⟨hpre,hnode⟩ := hrow row hmem
      rw [hid] at hnode
      have ⟨r,cols,hrec,hlabel,hcols,hkey⟩ := nodeRow_eq_some.mp hnode
      rw [←hkey] at hpre
      exact ⟨r,cols,hrec,hlabel,hcols,hpre⟩
    · intro h
      have ⟨r,cols,hrec,hlabel,hcols,hpre⟩ := h
      have ⟨cell,hget⟩ := mem_keys.mp
        ((hrows _).mpr ⟨id,nodeRow_eq_some.mpr ⟨r,cols,hrec,hlabel,hcols,rfl⟩⟩)
      refine ⟨(cols.flatMap enc++toBeBytes id,cell),List.mem_filter.mpr ⟨?_,?_⟩,rowId_append _ id⟩
      · rw [scanPrefix_eq_scan]
        exact mem_scan.mpr ⟨hget,List.isPrefixOf_iff_prefix.mpr hpre⟩
      · rw [decide_eq_true_eq,List.length_append,toBeBytes_length]
        omega

section Lookup

variable {S : Type} (env : QueryEnv S) (st : Store)

/-- A node that an index lookup finds. -/
structure Looked (label : String) (indexProperties : List String) (lookups : List (String×LookupKey))
    (n : Node) : Prop where
  /-- The node is stored. -/
  stored : Stored st n
  /-- The node carries the label. -/
  carries : label∈n.labels
  /-- Every column of the index has a value. -/
  columns : ∀ p∈indexProperties,(getProp n.properties p).isSome=true
  /-- The leading columns serialize like the keys. -/
  keys : ∀ entry∈lookups,∃ v,resolveLookupKey env entry.2=.ok v ∧
    (getProp n.properties entry.1).map env.enc=some (env.enc v)

variable {env st} {label nodeAlias : String} {indexProperties : List String}
  {lookups : List (String×LookupKey)} {remaining : Option (Expr S)}

theorem fails_resolveLookups :
    Fails (resolveLookups env lookups) ↔ ∃ entry∈lookups,Fails (resolveLookupKey env entry.2) := by
  induction lookups with
  | nil => simp [resolveLookups]
  | cons entry rest ih =>
    rw [List.exists_mem_cons_iff,←ih,resolveLookups]
    cases resolveLookupKey env entry.2 with
    | error e => simp [bind,Except.bind]
    | ok v =>
      cases resolveLookups env rest with
      | error e => simp [bind,Except.bind]
      | ok vs => simp [bind,Except.bind,pure,Except.pure]

variable {values : List Value} {n : Node}

theorem resolveLookups_forall (h : resolveLookups env lookups=.ok values) (P : String → Value → Prop) :
    (∀ pair∈(lookups.map Prod.fst).zip values,P pair.1 pair.2) ↔
    ∀ entry∈lookups,∃ v,resolveLookupKey env entry.2=.ok v ∧ P entry.1 v := by
  induction lookups generalizing values with
  | nil => simp
  | cons entry rest ih =>
    rw [resolveLookups] at h
    obtain ⟨v,hkey,h⟩ := exists_of_bind h
    obtain ⟨vs,hrest,h⟩ := exists_of_bind h
    rw [←Except.ok.inj h,List.map_cons,List.zip_cons_cons,List.forall_mem_cons,List.forall_mem_cons,ih hrest,hkey]
    simp

theorem resolveLookups_length (h : resolveLookups env lookups=.ok values) : values.length=lookups.length := by
  induction lookups generalizing values with
  | nil =>
    rw [resolveLookups] at h
    rw [←Except.ok.inj h]
    rfl
  | cons entry rest ih =>
    rw [resolveLookups] at h
    obtain ⟨v,hkey,h⟩ := exists_of_bind h
    obtain ⟨vs,hrest,h⟩ := exists_of_bind h
    rw [←Except.ok.inj h,List.length_cons,List.length_cons,ih hrest]

theorem stored_iff : Stored st n ↔ recordAt st n.id=some ⟨n.labels,n.properties⟩ := by
  constructor
  · intro h
    have ⟨row,hget,hn⟩ := getNode_ok h
    have hlabels : row.value.labels=n.labels := by rw [hn]
    have hprops : row.value.properties=n.properties := by rw [hn]
    rw [recordAt,hget,Option.map_some,←hlabels,←hprops]
  · intro h
    exact getNode_of_recordAt h

theorem scanned_of_carries (hnodes : NodesOk st) (hlabel : isValidName label=true) (hstored : Stored st n)
    (hcarries : label∈n.labels) : n∈findNodesByLabel st label := by
  have ⟨row,hget,hn⟩ := getNode_ok hstored
  have hmatch := labelColumnMatches_of_mem hcarries
  have hlabels : n.labels=row.value.labels := by rw [hn]
  rw [hlabels,←hnodes.columns n.id row hget] at hmatch
  exact (mem_findNodesByLabel hlabel).mpr ⟨row,hget,hmatch,hn⟩

/-- The index that a lookup uses is declared, and the keys are its leading columns. -/
structure Usable (st : Store) (label : String) (indexProperties : List String)
    (lookups : List (String×LookupKey)) : Prop where
  /-- The definition is checked. -/
  defined : IndexDef label indexProperties
  /-- Its table exists. -/
  exists_ : indexTableName label indexProperties∈keys st.indexTables
  /-- The keys are the leading columns. -/
  leading : ∃ rest,indexProperties=lookups.map Prod.fst++rest

theorem Usable.zip_eq (huse : Usable st label indexProperties lookups)
    (hvalues : resolveLookups env lookups=.ok values) :
    values.length ≤ indexProperties.length ∧ indexProperties.zip values=(lookups.map Prod.fst).zip values := by
  have hlen := resolveLookups_length hvalues
  have ⟨rest,hleading⟩ := huse.leading
  have hmap : (lookups.map Prod.fst).length=values.length := by rw [List.length_map,hlen]
  constructor
  · rw [hleading,List.length_append,List.length_map]
    omega
  · have happend : (lookups.map Prod.fst++rest).zip (values++[])=
        (lookups.map Prod.fst).zip values++rest.zip [] := List.zip_append hmap
    rw [List.append_nil,List.zip_nil_right,List.append_nil] at happend
    rw [hleading]
    exact happend

/-- The row of a found node starts with the serialized keys, and so do no others. -/
theorem looked_iff (henc : SelfDelimiting env.enc) (huse : Usable st label indexProperties lookups)
    (hvalues : resolveLookups env lookups=.ok values) : Looked env st label indexProperties lookups n ↔
    Stored st n ∧ label∈n.labels ∧ ∃ cols,collectValues n.properties indexProperties=some cols ∧
    values.flatMap env.enc<+:cols.flatMap env.enc++toBeBytes n.id := by
  have ⟨hshort,hzip⟩ := huse.zip_eq hvalues
  have hforall := resolveLookups_forall hvalues fun p v =>
    (getProp n.properties p).map env.enc=some (env.enc v)
  constructor
  · intro h
    have ⟨cols,hcols⟩ := collectValues_isSome.mpr h.columns
    have hkeys := hforall.mpr h.keys
    rw [←hzip] at hkeys
    exact ⟨h.stored,h.carries,cols,hcols,(keys_prefix_iff henc hcols hshort).mpr hkeys⟩
  · intro h
    have ⟨hstored,hcarries,cols,hcols,hpre⟩ := h
    have hkeys := (keys_prefix_iff henc hcols hshort).mp hpre
    rw [hzip] at hkeys
    exact ⟨hstored,hcarries,collectValues_isSome.mp ⟨cols,hcols⟩,hforall.mp hkeys⟩

theorem compositeIndexPrefixLookup_ok (henc : SelfDelimiting env.enc) (hmirror : IndexesMirror env.enc st)
    (huse : Usable st label indexProperties lookups) (hvalues : resolveLookups env lookups=.ok values) :
    ∃ ids,compositeIndexPrefixLookup env st label indexProperties values=.ok ids ∧ ids.Nodup ∧ ∀ id,id∈ids ↔
    ∃ n,n.id=id ∧ Looked env st label indexProperties lookups n := by
  have hresolve := resolveIndexTable_ok huse.defined huse.exists_
  have ⟨t,ht⟩ := mem_keys.mp huse.exists_
  have ⟨hnodup,hmem⟩ := prefixIds_spec (hmirror.rows label indexProperties t huse.defined ht)
    (values.flatMap env.enc)
  unfold compositeIndexPrefixLookup
  rw [bind_of_ok hresolve,ht]
  refine ⟨prefixIds t (values.flatMap env.enc),rfl,hnodup,fun id => ?_⟩
  rw [hmem]
  constructor
  · intro h
    have ⟨r,cols,hrec,hlabel,hcols,hpre⟩ := h
    exact ⟨⟨id,r.labels,r.properties⟩,rfl,(looked_iff henc huse hvalues).mpr
      ⟨stored_iff.mpr hrec,hlabel,cols,hcols,hpre⟩⟩
  · intro h
    have ⟨n,hid,hlooked⟩ := h
    have ⟨hstored,hlabel,cols,hcols,hpre⟩ := (looked_iff henc huse hvalues).mp hlooked
    rw [←hid]
    exact ⟨_,cols,stored_iff.mp hstored,hlabel,hcols,hpre⟩

theorem indexRow_looked (h : Looked env st label indexProperties lookups n) :
    indexRow env st label nodeAlias remaining n.id=
    (passesFilter env st remaining (nodeToRecord n nodeAlias)).map fun keep => if keep=true then
    [nodeToRecord n nodeAlias] else [] := by
  unfold indexRow
  rw [bind_of_ok h.stored,if_neg fun hboth => hboth.2 h.carries]
  cases passesFilter env st remaining (nodeToRecord n nodeAlias) with
  | error e | ok keep => rfl

variable (henc : SelfDelimiting env.enc) (hmirror : IndexesMirror env.enc st)
  (huse : Usable st label indexProperties lookups)

include henc hmirror huse

theorem indexLookupIds_ok
    (hkeys : ¬∃ entry∈lookups,Fails (resolveLookupKey env entry.2)) :
    ∃ ids,indexLookupIds env st label indexProperties lookups=.ok ids ∧ ids.Nodup ∧
      ∀ id,id∈ids ↔ ∃ n,n.id=id ∧ Looked env st label indexProperties lookups n := by
  have ⟨values,hvalues⟩ := (fails_or_ok (resolveLookups env lookups)).resolve_left fun hfail =>
    hkeys (fails_resolveLookups.mp hfail)
  unfold indexLookupIds
  rw [bind_of_ok hvalues]
  exact compositeIndexPrefixLookup_ok henc hmirror huse hvalues

/-- A lookup fails when a key does not resolve or the residual test fails on a
found node. -/
theorem fails_execIndexLookup :
    Fails (execIndexLookup env st label nodeAlias indexProperties lookups remaining) ↔
      (∃ entry∈lookups,Fails (resolveLookupKey env entry.2)) ∨
      ∃ n,Looked env st label indexProperties lookups n ∧
        Fails (passesFilter env st remaining (nodeToRecord n nodeAlias)) := by
  by_cases hkeys : ∃ entry∈lookups,Fails (resolveLookupKey env entry.2)
  · refine iff_of_true ?_ (Or.inl hkeys)
    unfold execIndexLookup indexLookupIds
    exact fails_bind_error (fails_bind_error (fails_resolveLookups.mpr hkeys))
  · have ⟨ids,hids,_,hmem⟩ := indexLookupIds_ok henc hmirror huse hkeys
    unfold execIndexLookup
    rw [bind_of_ok hids,fails_gather]
    constructor
    · intro h
      have ⟨id,hid,e,he⟩ := h
      have ⟨n,hn,hlooked⟩ := (hmem id).mp hid
      rw [←hn,indexRow_looked hlooked] at he
      refine Or.inr ⟨n,hlooked,?_⟩
      cases hpass : passesFilter env st remaining (nodeToRecord n nodeAlias) with
      | error e' => exact fails_error e'
      | ok keep =>
        rw [hpass] at he
        cases he
    · intro h
      have ⟨n,hlooked,e,he⟩ := h.resolve_left hkeys
      refine ⟨n.id,(hmem n.id).mpr ⟨n,rfl,hlooked⟩,e,?_⟩
      rw [indexRow_looked hlooked,he]
      rfl

section Succeeds

variable {rows : Rows} (h : execIndexLookup env st label nodeAlias indexProperties lookups remaining=.ok rows)

include h

theorem keys_of_ok :
    ¬∃ entry∈lookups,Fails (resolveLookupKey env entry.2) := by
  intro hfail
  have hfails : Fails (execIndexLookup env st label nodeAlias indexProperties lookups remaining) :=
    (fails_execIndexLookup henc hmirror huse).mpr (Or.inl hfail)
  rw [h] at hfails
  exact not_fails_ok rows hfails

theorem mem_execIndexLookup
   
    (r : NamedRecord) : r∈rows ↔ ∃ n,Looked env st label indexProperties lookups n ∧
      passesFilter env st remaining (nodeToRecord n nodeAlias)=.ok true ∧
      r=nodeToRecord n nodeAlias := by
  have ⟨ids,hids,_,hmem⟩ := indexLookupIds_ok henc hmirror huse (keys_of_ok henc hmirror huse h)
  unfold execIndexLookup at h
  rw [bind_of_ok hids] at h
  rw [mem_gather h]
  constructor
  · intro hr
    have ⟨id,hid,part,hpart,hin⟩ := hr
    have ⟨n,hn,hlooked⟩ := (hmem id).mp hid
    rw [←hn,indexRow_looked hlooked] at hpart
    obtain ⟨keep,hpass,hpart⟩ := exists_of_bind hpart
    rw [←Except.ok.inj hpart] at hin
    cases keep with
    | false => cases hin
    | true => exact ⟨n,hlooked,hpass,by simpa using hin⟩
  · intro hr
    have ⟨n,hlooked,hpass,hrow⟩ := hr
    refine ⟨n.id,(hmem n.id).mpr ⟨n,rfl,hlooked⟩,[nodeToRecord n nodeAlias],?_,by simp [hrow]⟩
    rw [indexRow_looked hlooked,hpass]
    rfl

theorem nodup_execIndexLookup :
    rows.Nodup := by
  have ⟨ids,hids,hnodup,hmem⟩ := indexLookupIds_ok henc hmirror huse (keys_of_ok henc hmirror huse h)
  unfold execIndexLookup at h
  rw [bind_of_ok hids] at h
  have hpart : ∀ id∈ids,∀ part,indexRow env st label nodeAlias remaining id=.ok part →
      part=[] ∨ ∃ n,n.id=id ∧ part=[nodeToRecord n nodeAlias] := by
    intro id hid part hpart
    have ⟨n,hn,hlooked⟩ := (hmem id).mp hid
    rw [←hn,indexRow_looked hlooked] at hpart
    obtain ⟨keep,hpass,hpart⟩ := exists_of_bind hpart
    rw [←Except.ok.inj hpart]
    cases keep with
    | false => exact Or.inl rfl
    | true => exact Or.inr ⟨n,hn,rfl⟩
  refine nodup_gather h hnodup (fun id hid part hp => ?_) fun id hid other hother x y r hx hy hrx hry => ?_
  · cases hpart id hid part hp with
    | inl hnil =>
      rw [hnil]
      exact List.nodup_nil
    | inr hone =>
      have ⟨n,_,hrow⟩ := hone
      rw [hrow]
      exact List.nodup_singleton _
  · cases hpart id hid x hx with
    | inl hnil =>
      rw [hnil] at hrx
      exact absurd hrx List.not_mem_nil
    | inr hone =>
      have ⟨n,hn,hrow⟩ := hone
      cases hpart other hother y hy with
      | inl hnil =>
        rw [hnil] at hry
        exact absurd hry List.not_mem_nil
      | inr htwo =>
        have ⟨m,hm,hrow'⟩ := htwo
        rw [hrow] at hrx
        rw [hrow'] at hry
        have heq := (List.mem_singleton.mp hrx).symm.trans (List.mem_singleton.mp hry)
        rw [←hn,←hm]
        exact id_of_nodeToRecord heq

end Succeeds

end Lookup

/-- Frames of null, small numbers and short texts; one reserved byte for the rest. -/
def shortFrame : Value → Bytes
  | .null => frame .null
  | .i64 n => if -32≤n.toInt ∧ n.toInt<128 then frame (.i64 n) else [193]
  | .string s => if (asBytes s).length<32 then frame (.string s) else [193]
  | _ => [193]

theorem shortFrame_forms (v : Value) :
    shortFrame v=164::asBytes "Null" ∨ (∃ b,shortFrame v=129::163::(asBytes "I64"++[b])) ∨
      (∃ n text,n<32 ∧ text.length=n ∧
        shortFrame v=129::166::(asBytes "String"++UInt8.ofNat (160+n)::text)) ∨ shortFrame v=[193] := by
  cases v with
  | null => exact Or.inl rfl
  | i64 n =>
    rw [shortFrame]
    split_ifs with h
    · exact Or.inr (Or.inl ⟨n.toInt8.toUInt8,rfl⟩)
    · exact Or.inr (Or.inr (Or.inr rfl))
  | string s =>
    rw [shortFrame]
    split_ifs with h
    · exact Or.inr (Or.inr (Or.inl ⟨(asBytes s).length,asBytes s,h,rfl,rfl⟩))
    · exact Or.inr (Or.inr (Or.inr rfl))
  | _ => exact Or.inr (Or.inr (Or.inr rfl))

/-- Length of the frame at the start of some bytes. -/
def frameLength : Bytes → Nat
  | 164::_ => 5
  | 129::163::_ => 6
  | 129::166::_::_::_::_::_::_::size::_ => 9+(size.toNat-160)
  | _ => 1

theorem selfDelimiting_of_length {enc : Value → Bytes} (len : Bytes → Nat)
    (h : ∀ v t,len (enc v++t)=(enc v).length) : SelfDelimiting enc := by
  intro v w s t happ
  have hlen := congrArg len happ
  rw [h,h] at hlen
  exact (List.append_inj happ hlen).1

theorem frameLength_shortFrame (v : Value) (t : Bytes) :
    frameLength (shortFrame v++t)=(shortFrame v).length := by
  obtain hv | ⟨b,hv⟩ | ⟨n,text,hn,hlen,hv⟩ | hv := shortFrame_forms v
  · rw [hv]
    rfl
  · rw [hv]
    rfl
  · have hsize : (UInt8.ofNat (160+n)).toNat=160+n := by
      rw [UInt8.toNat_ofNat']
      omega
    have hread : frameLength (129::166::(asBytes "String"++UInt8.ofNat (160+n)::text)++t)=
        9+((UInt8.ofNat (160+n)).toNat-160) := rfl
    have htext : (129::166::(asBytes "String"++UInt8.ofNat (160+n)::text)).length=9+text.length := by
      have hname : (asBytes "String").length=6 := by decide
      rw [List.length_cons,List.length_cons,List.length_append,List.length_cons,hname]
      omega
    rw [hv,hread,htext,hsize,hlen]
    omega
  · rw [hv]
    rfl

theorem shortFrame_selfDelimiting : SelfDelimiting shortFrame :=
  selfDelimiting_of_length frameLength frameLength_shortFrame

/-- Evaluation without parameters, subqueries or further functions. -/
def plainEval : EvalEnv Empty where
  params _ := none
  arithmetic _ _ _ := .ok .null
  temporalAccessor _ _ := none
  toLowercase := asciiLower
  function _ _ _ _ _ := .ok .null
  existsPatterns _ _ _ _ := .ok (.bool false)
  patternComprehension _ _ _ _ _ _ := .ok (.list [])
  existsSubquery _ stmt _ := stmt.elim

/-- Execution with short frames, substring matching and no limits. -/
def plainEnv : QueryEnv Empty where
  eval := plainEval
  enc := shortFrame
  ftsMatches _ term text := containsText term text
  ftsScore _ _ _ := 0
  maxResultRows := 0
  maxTraversalWork := 1000000
  rowOp _ _ rows := pure rows
  sourceOp _ := pure []

/-- Write operators with the same frames. -/
def plainWrites : ExecEnv Value := {literalEnv with enc := shortFrame}

/-- A database with one person of that name. -/
def personStore : Store :=
  (execCreateNode plainWrites ["Person"] (some "n") [("name",.string "x")] freshStore).2

/-- The database with an index on persons. -/
def personIndex (properties : List String) : Store :=
  (createCompositeIndex shortFrame "Person" properties personStore).2

theorem personIndex_inv (properties : List String) : IndexInv shortFrame (personIndex properties) := by
  have hkeeps : Keeps (IndexInv plainWrites.enc)
      (execClause plainWrites (.createNode ["Person"] (some "n") [("name",.string "x")])) :=
    keeps_execClause _
  have hcreated : IndexInv shortFrame personStore := hkeeps freshStore indexInv_freshStore
  have hrows : personStore.nodes.rows=[(1,⟨"Person",⟨["Person"],[("name",.string "x")]⟩⟩)] := rfl
  have hexact : BackfillExact personStore "Person" properties := by
    intro _ id row hnode _ _
    have hmem := get_eq_some.mp hnode
    rw [hrows] at hmem
    have hrow : row=⟨"Person",⟨["Person"],[("name",.string "x")]⟩⟩ :=
      (Prod.mk.inj (List.mem_singleton.mp hmem)).2
    rw [hrow]
    exact List.mem_singleton_self _
  exact hcreated.createCompositeIndex hexact

/-- Number of rows of a run that succeeds. -/
def rowCount (outcome : Result Rows×Store) : Option Nat := outcome.1.toOption.map List.length

theorem rowCount_eq_some {outcome : Result Rows×Store} {n : Nat} (h : rowCount outcome=some n) :
    ∃ rows,outcome.1=.ok rows ∧ rows.length=n := by
  unfold rowCount at h
  cases hres : outcome.1 with
  | error e =>
    rw [hres] at h
    cases h
  | ok rows =>
    rw [hres] at h
    exact ⟨rows,rfl,Option.some.inj h⟩

variable {x y : Result Rows×Store}

theorem sameRows_of_rowCount (hx : rowCount x=some 0) (hy : rowCount y=some 0) : SameRows x.1 y.1 := by
  have ⟨a,ha,hlen⟩ := rowCount_eq_some hx
  have ⟨b,hb,hlen'⟩ := rowCount_eq_some hy
  refine Or.inr ⟨a,b,ha,hb,?_⟩
  rw [List.eq_nil_of_length_eq_zero hlen,List.eq_nil_of_length_eq_zero hlen']

theorem not_sameRows_of_rowCount {n m : Nat} (hne : n≠m) (hx : rowCount x=some n) (hy : rowCount y=some m) :
    ¬SameRows x.1 y.1 := by
  have ⟨a,ha,hlen⟩ := rowCount_eq_some hx
  have ⟨b,hb,hlen'⟩ := rowCount_eq_some hy
  intro hsame
  cases hsame with
  | inl hfails =>
    rw [ha] at hfails
    exact not_fails_ok a hfails.1
  | inr hrows =>
    have ⟨a',b',ha',hb',hperm⟩ := hrows
    rw [ha] at ha'
    rw [hb] at hb'
    rw [←Except.ok.inj ha',←Except.ok.inj hb'] at hperm
    exact hne (hlen.symm.trans (hperm.length_eq.trans hlen'))

theorem not_agree_of_rowCount {n : Nat} (hx : rowCount x=some (n+1)) (hy : rowCount y=some 0) : ¬Agree x.1 y.1 := by
  have ⟨a,ha,hlen⟩ := rowCount_eq_some hx
  have ⟨b,hb,hlen'⟩ := rowCount_eq_some hy
  intro hagree
  have hmem := (agree_iff.mp hagree).2 a b ha hb
  cases a with
  | nil => cases hlen
  | cons r rest =>
    have hin := (hmem r).mp List.mem_cons_self
    rw [List.eq_nil_of_length_eq_zero hlen'] at hin
    exact absurd hin List.not_mem_nil

end GraphDbLite.IndexAccess
