import GraphDbLite.IndexMirror

/-!
# Three ways to set one property of a node

A property is set by the transaction call, by a SET clause and by the SET items
of a MERGE clause. Each of them computes on its own the properties that it hands
to index maintenance. They leave the same state unless the value breaks a size
limit that only the call knows, is not storable, which only the clause tests,
or is null on an index that the other covered properties complete.
-/

namespace GraphDbLite.PropertySetters

open ByteStrings GraphTypes OrderedTable StatefulActions GraphStore NodeStorage SecondaryIndex
open FullText WriteOperators NodeView IndexMirror

/-- Size limits of a transaction. -/
structure Limits where
  /-- Longest name in bytes. -/
  maxNameBytes : Nat
  /-- Largest value in estimated bytes. -/
  maxPropertyValueBytes : Nat

/-- Length of a text in bytes. -/
def byteLength (text : String) : Nat := (asBytes text).length

mutual

/-- Estimated size of a property value. -/
def valueByteSize : Value → Nat
  | .null => 8
  | .bool _ => 8
  | .i64 _ => 8
  | .f64 _ => 8
  | .string s => byteLength s
  | .list items => itemsByteSize items
  | .node n => nodeByteSize n
  | .edge e => edgeByteSize e
  | .path p => pathByteSize p
  | .map entries => entriesByteSize entries
  | .date _ => 12
  | .localTime _ => 16
  | .time _ _ => 20
  | .localDateTime _ _ => 20
  | .dateTime _ _ _ _ => 28
  | .duration _ _ _ _ => 32

/-- Estimated size of the items of a list. -/
def itemsByteSize : List Value → Nat
  | [] => 0
  | item::rest => valueByteSize item+itemsByteSize rest

/-- Estimated size of the entries of a map. -/
def entriesByteSize : List (String×Value) → Nat
  | [] => 0
  | entry::rest => entryByteSize entry+entriesByteSize rest

/-- Estimated size of one entry of a map. -/
def entryByteSize : String×Value → Nat
  | (key,val) => byteLength key+valueByteSize val

/-- Estimated size of a node value. -/
def nodeByteSize : NodeOf Value → Nat
  | ⟨_,labels,properties⟩ => 8+(labels.map byteLength).sum+entriesByteSize properties

/-- Estimated size of a relationship value. -/
def edgeByteSize : EdgeOf Value → Nat
  | ⟨_,_,label,properties⟩ => 16+byteLength label+entriesByteSize properties

/-- Estimated size of a path value. -/
def pathByteSize : PathOf Value → Nat
  | ⟨nodes,edges⟩ => nodesByteSize nodes+edgesByteSize edges

/-- Estimated size of the nodes of a path. -/
def nodesByteSize : List (NodeOf Value) → Nat
  | [] => 0
  | n::rest => nodeByteSize n+nodesByteSize rest

/-- Estimated size of the relationships of a path. -/
def edgesByteSize : List (EdgeOf Value) → Nat
  | [] => 0
  | e::rest => edgeByteSize e+edgesByteSize rest

end

/-- Why a call does not return a value. -/
inductive Failure where
  | error (e : GraphError)
  | panic (message : String)

/-- Text of the first bytes of a name; nothing inside a character. -/
def leadingBytes (count : Nat) : List Char → Option (List Char)
  | [] => if count=0 then some [] else none
  | c::rest =>
    if count=0 then some []
    else if c.utf8Size ≤ count then (leadingBytes (count-c.utf8Size) rest).map (c::·)
    else none

/-- Reject a name that is too long. The error quotes at most 32 bytes of it, and
quoting panics when the last byte is inside a character. -/
def validateNameLength (name : String) (maxBytes : Nat) : Except Failure Unit :=
  if maxBytes<byteLength name then
    match leadingBytes (min maxBytes 32) name.toList with
    | some chars =>
      .error (.error (.sizeLimit ("name '"++(String.ofList chars++"...'")) maxBytes
        (byteLength name) none))
    | none => .error (.panic "byte index is not a char boundary")
  else .ok ()

/-- Reject the first property with a name or a value that is too large. -/
def validateEntries (limits : Limits) : Properties → Except Failure Unit
  | [] => .ok ()
  | (key,val)::rest => do
    validateNameLength key limits.maxNameBytes
    if limits.maxPropertyValueBytes<valueByteSize val then
      .error (.error (.sizeLimit ("property '"++(key++"' value")) limits.maxPropertyValueBytes
        (valueByteSize val) none))
    else validateEntries limits rest

/-- Check the sizes of a label and of properties. -/
def validateProperties (label : String) (properties : Properties) (limits : Limits) :
    Except Failure Unit := do
  validateNameLength label limits.maxNameBytes
  validateEntries limits properties

/-- Run a storage action in a call that may also panic. -/
def raising {α : Type} (x : Db α) : Action Store Failure α := fun st =>
  match x st with
  | (.ok a,st') => (.ok a,st')
  | (.error e,st') => (.error (.error e),st')

section Setters

variable {E : Type} (env : ExecEnv E)

/-- Write one property and maintain the indexes with the value inserted, null or
not. -/
def insertIndexedProperty (id : NodeId) (old : Node) (property : String) (val : Value) : Db Unit := do
  setNodeProperty id property val
  maintainNode env id old.labels (some old.properties) (insertProp old.properties property val)

/-- The transaction call `set_node_property`. -/
def txSetNodeProperty (limits : Limits) (id : NodeId) (key : String) (value : Value) :
    Action Store Failure Unit := do
  inspect fun _ => validateProperties "_" [(key,value)] limits
  raising do
    let old ← inspect fun st => getNode st id
    insertIndexedProperty env id old key value

/-- One item of the SET clauses of MERGE. -/
inductive SetItem (E : Type) where
  | property (assignment : Assignment E)
  | label (var : String) (labels : List String)
  | mapMerge (var : String) (value : E)
  | mapOverwrite (var : String) (value : E)

/-- The entries that a map item of MERGE assigns: those of a map, or the
properties of a node or relationship, also given by its identifier. -/
def resolveToMap (st : Store) (expr : E) (rec : NamedRecord) : Result Properties := do
  let val ← env.eval st expr rec
  match val with
  | .map entries => pure entries
  | .node n => pure n.properties
  | .edge e => pure e.properties
  | .i64 id =>
    match getNode st id.toUInt64 with
    | .ok n => pure n.properties
    | .error _ => pure []
  | _ => pure []

/-- Apply one SET item of MERGE to a node. -/
def applyMergeSetItemNode (item : SetItem E) (id : NodeId) (rec : NamedRecord) : Db Unit :=
  match item with
  | .property a => do
    let old ← inspect fun st => getNode st id
    let val ← inspect fun st => env.eval st a.value (rec.set a.var (.i64 id.toInt64))
    insertIndexedProperty env id old a.property val
  | .label _ labels => do
    forEach labels (addNodeLabel id)
    let new ← inspect fun st => getNode st id
    maintainNode env id new.labels none new.properties
  | .mapMerge _ value => do
    let map ← inspect fun st => resolveToMap env st value rec
    let old ← inspect fun st => getNode st id
    forEach map fun entry => setNodeProperty id entry.1 entry.2
    maintainNode env id old.labels (some old.properties)
      (map.foldl (fun props entry => withProperty props entry.1 entry.2) old.properties)
  | .mapOverwrite _ value => do
    let map ← inspect fun st => resolveToMap env st value rec
    let old ← inspect fun st => getNode st id
    forEach old.properties fun entry => setNodeProperty id entry.1 .null
    forEach map fun entry => setNodeProperty id entry.1 entry.2
    maintainNode env id old.labels (some old.properties)
      (map.foldl (fun props entry => if entry.2.isNull=true then props
        else insertProp props entry.1 entry.2) [])

end Setters

/-- Stored row of a node with its properties as a map. -/
def rowView (st : Store) (id : NodeId) : Option (String×List String×(String → Option Value)) :=
  (get st.nodes id).map fun row => (row.label,row.value.labels,getProp row.value.properties)

/-- Two states with the same node rows and the same contents of all secondary
and full-text index tables. -/
structure SameState (a b : Store) : Prop where
  /-- The same node rows. -/
  rows : ∀ id,rowView a id=rowView b id
  /-- The same secondary indexes. -/
  indexTables : a.indexTables=b.indexTables
  /-- The same full-text indexes. -/
  ftsTables : a.ftsTables=b.ftsTables

/-- Two calls that both succeed or both fail, and leave the same state. -/
def Alike (x y : Bool×Store) : Prop := x.1=y.1 ∧ SameState x.2 y.2

theorem SameState.refl (st : Store) : SameState st st := ⟨fun _ => rfl,rfl,rfl⟩

variable {x y : Bool×Store} {val : Value} {new props : Properties} {properties : List String}

theorem Alike.of_eq (h : x=y) : Alike x y := by
  rw [h]
  exact ⟨rfl,SameState.refl y.2⟩

theorem Alike.trans {z : Bool×Store} (hxy : Alike x y) (hyz : Alike y z) : Alike x z :=
  ⟨hxy.1.trans hyz.1,fun id => (hxy.2.rows id).trans (hyz.2.rows id),
    hxy.2.indexTables.trans hyz.2.indexTables,hxy.2.ftsTables.trans hyz.2.ftsTables⟩

/-- The name and the value of a property are within the limits, and so is the
one-byte name that the call checks first. -/
def Fits (limits : Limits) (property : String) (val : Value) : Prop :=
  1≤limits.maxNameBytes ∧ byteLength property≤limits.maxNameBytes ∧
    valueByteSize val≤limits.maxPropertyValueBytes

theorem validateNameLength_ok_iff (name : String) (maxBytes : Nat) :
    validateNameLength name maxBytes=.ok () ↔ byteLength name ≤ maxBytes := by
  unfold validateNameLength
  by_cases hlong : maxBytes<byteLength name
  · rw [if_pos hlong]
    have hne : ¬byteLength name ≤ maxBytes := by omega
    cases leadingBytes (min maxBytes 32) name.toList with
    | none | some chars => simp [hne]
  · rw [if_neg hlong]
    have hle : byteLength name ≤ maxBytes := by omega
    simp [hle]

variable {property : String}

theorem validateProperties_ok_iff {limits : Limits} :
    validateProperties "_" [(property,val)] limits=.ok () ↔ Fits limits property val := by
  have hone : byteLength "_"=1 := by decide
  have hlabel := validateNameLength_ok_iff "_" limits.maxNameBytes
  have hname := validateNameLength_ok_iff property limits.maxNameBytes
  rw [hone] at hlabel
  unfold validateProperties Fits
  rw [←hlabel,←hname]
  cases validateNameLength "_" limits.maxNameBytes with
  | error e => simp [bind,Except.bind]
  | ok u =>
    simp only [validateEntries,bind,Except.bind]
    cases validateNameLength property limits.maxNameBytes with
    | error e => simp
    | ok u =>
      simp only [true_and]
      split_ifs with hlarge
      · have hne : ¬valueByteSize val≤limits.maxPropertyValueBytes := by omega
        simp [hne]
      · have hle : valueByteSize val≤limits.maxPropertyValueBytes := by omega
        simp [hle]

/-- The state after the node row is written. -/
def written (st : Store) (id : NodeId) (record : NodeRecord) (property : String) (val : Value) :
    Store :=
  putNode st id {record with properties := withProperty record.properties property val}

theorem setNodeProperty_written {st : Store} {id : NodeId} {record : NodeRecord}
    (hrec : recordAt st id=some record) (hname : isValidName property=true) (val : Value) :
    setNodeProperty id property val st=(.ok (),written st id record property val) := by
  unfold setNodeProperty
  rw [inspect_ok (by exact validateName_ok_iff.mpr hname)]
  rw [inspect_ok (by exact getRecord_of_recordAt hrec)]
  rfl

theorem setNodeProperty_unnamed (hname : isValidName property=false) (id : NodeId) (val : Value) (st : Store) :
    setNodeProperty id property val st=(.error (.invalidName property none),st) := by
  have hbad : validateName property=.error (.invalidName property none) := by
    rw [validateName,if_neg (by rw [hname]; simp)]
  unfold setNodeProperty
  rw [inspect_error (by exact hbad)]

theorem eq_null_of_isNull (h : val.isNull=true) : val=.null := by
  cases val with
  | null => rfl
  | _ => cases h

theorem textOf_insertProp (props : Properties) (property : String) (val : Value) :
    textOf (insertProp props property val)=textOf (withProperty props property val) := by
  funext q
  unfold withProperty
  split_ifs with hnull
  · rw [textOf,textOf,getProp_insertProp,getProp_removeProp,eq_null_of_isNull hnull]
    split_ifs
    · rfl
    · rfl
  · rfl

theorem updateFtsForNode_congr (engine : FtsEngine) (id : NodeId) (labels : List String)
    (old : Option Properties) {new' : Properties} (h : textOf new=textOf new') :
    updateFtsForNode engine id labels old new=updateFtsForNode engine id labels old new' := by
  have htexts : textsOf (some new)=textsOf (some new') := by
    funext properties
    simp only [textsOf,Option.bind_some,h]
  have hone : updateFtsForNodeOneIndex engine id old new=updateFtsForNodeOneIndex engine id old new' := by
    funext info
    unfold updateFtsForNodeOneIndex
    rw [htexts]
  unfold updateFtsForNode updateFtsForLabel
  rw [hone]

theorem updateFtsForNode_same (engine : FtsEngine) (id : NodeId) (labels : List String) {old : Properties}
    (h : textOf new=textOf old) (st : Store) : updateFtsForNode engine id labels (some old) new st=(.ok (),st) := by
  rw [updateFtsForNode_congr engine id labels (some old) h]
  have hone : ∀ info,updateFtsForNodeOneIndex engine id (some old) old info=pure () := by
    intro info
    rw [updateFtsForNodeOneIndex,if_pos rfl]
  have hloop : ∀ infos,forEach infos (updateFtsForNodeOneIndex engine id (some old) old) st=
      (.ok (),st) := by
    intro infos
    induction infos with
    | nil => rfl
    | cons info rest ih =>
      rw [forEach,hone,bind_ok (pure_apply () st)]
      exact ih
  unfold updateFtsForNode
  induction labels with
  | nil => rfl
  | cons label rest ih =>
    have hlabel : updateFtsForLabel engine id label (some old) old st=(.ok (),st) := by
      unfold updateFtsForLabel
      rw [inspect_ok (by rfl)]
      exact hloop _
    rw [forEach,bind_ok hlabel]
    exact ih

theorem collectValues_isSome :
    (collectValues props properties).isSome=true ↔ ∀ q∈properties,(getProp props q).isSome=true := by
  induction properties with
  | nil => simp [collectValues]
  | cons q rest ih =>
    rw [List.forall_mem_cons,←ih,collectValues]
    cases getProp props q with
    | none | some value => simp

theorem collectValues_congr {props' : Properties} (h : ∀ q∈properties,getProp props q=getProp props' q) :
    collectValues props properties=collectValues props' properties := by
  induction properties with
  | nil => rfl
  | cons q rest ih =>
    have ⟨hq,hrest⟩ := List.forall_mem_cons.mp h
    rw [collectValues,collectValues,hq,ih hrest]

/-- An index on a label of the node covers the property, and the node has all
other covered properties. -/
def CompletesIndex (st : Store) (id : NodeId) (property : String) : Prop :=
  ∃ record label properties,recordAt st id=some record ∧ label∈record.labels ∧
    IndexDef label properties ∧ indexTableName label properties∈keys st.indexTables ∧
    property∈properties ∧ ∀ q∈properties,q≠property → (getProp record.properties q).isSome=true

section Maintenance

variable {E : Type} {env : ExecEnv E}
variable {id : NodeId} {property : String}
variable {enc : Value → Bytes} {properties : List String} {st st₁ : Store} {record : NodeRecord}

/-- Index rows with null inserted and with the property removed agree on every
index that the other properties do not complete. -/
theorem rowOf_insert_null {props : Properties}
    (h : property∈properties → ∃ q∈properties,q≠property ∧ getProp props q=none) :
    rowOf enc id properties (some (insertProp props property .null))= rowOf enc id properties
    (some (removeProp props property)) := by
  unfold rowOf
  rw [Option.bind_some,Option.bind_some]
  by_cases hmem : property∈properties
  · have ⟨q,hq,hne,hnone⟩ := h hmem
    have hinsert : collectValues (insertProp props property .null) properties=none := by
      rw [←Option.not_isSome_iff_eq_none,collectValues_isSome]
      intro hall
      have hsome := hall q hq
      rw [getProp_insertProp,if_neg hne,hnone] at hsome
      cases hsome
    have hremove : collectValues (removeProp props property) properties=none := by
      rw [←Option.not_isSome_iff_eq_none,collectValues_isSome]
      intro hall
      have hsome := hall property hmem
      rw [getProp_removeProp,if_pos rfl] at hsome
      cases hsome
    rw [hinsert,hremove]
  · have hsame : ∀ q∈properties,getProp (insertProp props property .null) q=
        getProp (removeProp props property) q := by
      intro q hq
      have hne : q≠property := fun he => hmem (he ▸ hq)
      rw [getProp_insertProp,getProp_removeProp,if_neg hne,if_neg hne]
    rw [collectValues_congr hsame]

theorem refreshRows_congr {old new new' : Option Properties}
    (h : rowOf enc id properties new=rowOf enc id properties new') (t : Table Bytes Unit) :
    refreshRows enc id old new properties t=refreshRows enc id old new' properties t := by
  refine ext_keys fun key => ?_
  rw [mem_keys_refreshRows,mem_keys_refreshRows,h]

theorem Refreshed.unique {sel : String → List String → Bool}
    {f g : List String → Table Bytes Unit → Table Bytes Unit} {a b : Store} (hnames : WellNamed st)
    (ha : Refreshed sel f st a) (hb : Refreshed sel g st b)
    (hsame : ∀ label properties t,IndexDef label properties →
      get st.indexTables (indexTableName label properties)=some t → sel label properties=true →
      f properties t=g properties t) : a=b := by
  have htables : a.indexTables=b.indexTables := by
    refine ext_get fun name => ?_
    by_cases hname : name∈keys st.indexTables
    · have ⟨label,properties,hdef,heq⟩ := hnames name hname
      rw [heq,ha.tables label properties hdef,hb.tables label properties hdef]
      cases hget : get st.indexTables (indexTableName label properties) with
      | none => rfl
      | some t =>
        rw [Option.map_some,Option.map_some]
        split_ifs with hsel
        · rw [hsame label properties t hdef hget hsel]
        · rfl
    · rw [get_eq_none.mpr fun h => hname ((ha.names name).mp h),
        get_eq_none.mpr fun h => hname ((hb.names name).mp h)]
  rw [ha.rest,hb.rest,htables]

/-- Maintenance with null inserted and with the property removed do the same
unless null completes an index. -/
theorem maintainNode_null (hnames : WellNamed st) (hrec : recordAt st id=some record)
    (h : ¬CompletesIndex st id property) (htables : st₁.indexTables=st.indexTables) :
    maintainNode env id record.labels (some record.properties)
    (insertProp record.properties property .null) st₁= maintainNode env id record.labels (some record.properties)
    (removeProp record.properties property) st₁ := by
  have hnames₁ : WellNamed st₁ := by
    intro name hname
    rw [htables] at hname
    exact hnames name hname
  have ⟨a,hruna,hrefa⟩ := @updateIndexesForNode_ok env.enc st₁ hnames₁ id record.labels
    (some record.properties) (insertProp record.properties property .null)
  have ⟨b,hrunb,hrefb⟩ := @updateIndexesForNode_ok env.enc st₁ hnames₁ id record.labels
    (some record.properties) (removeProp record.properties property)
  have hab : a=b := by
    refine Refreshed.unique hnames₁ hrefa hrefb fun label properties t hdef hget hsel => ?_
    refine refreshRows_congr (rowOf_insert_null fun hmem => ?_) t
    have hpresent : indexTableName label properties∈keys st.indexTables := by
      rw [←htables]
      exact mem_keys.mpr ⟨t,hget⟩
    have hlabel : label∈record.labels := by simpa using hsel
    by_contra hall
    refine h ⟨record,label,properties,hrec,hlabel,hdef,hpresent,hmem,fun q hq hne => ?_⟩
    rw [Option.isSome_iff_ne_none]
    exact fun hnone => hall ⟨q,hq,hne,hnone⟩
  have htexts : textOf (insertProp record.properties property .null)=
      textOf (removeProp record.properties property) := textOf_insertProp _ _ .null
  unfold maintainNode
  rw [bind_ok hruna,bind_ok hrunb,hab,updateFtsForNode_congr _ _ _ _ htexts]

theorem updateFtsForNode_indexTables (engine : FtsEngine) (id : NodeId) (labels : List String)
    (old : Option Properties) (new : Properties) (st : Store) :
    (updateFtsForNode engine id labels old new st).2.indexTables=st.indexTables := by
  have hkeeps : Keeps (fun other : Store => other.indexTables=st.indexTables)
      (updateFtsForNode engine id labels old new) :=
    keeps_updateFtsForNode (fun _ _ h => h) engine id labels old new
  exact hkeeps st rfl

/-- When null completes an index, inserting it leaves a row there that removing
the property does not. -/
theorem maintainNode_null_ne (hmirror : IndexesMirror env.enc st) (hrec : recordAt st id=some record)
    (h : CompletesIndex st id property) (htables : st₁.indexTables=st.indexTables) :
    (maintainNode env id record.labels (some record.properties)
        (insertProp record.properties property .null) st₁).2.indexTables≠
      (maintainNode env id record.labels (some record.properties)
        (removeProp record.properties property) st₁).2.indexTables := by
  have hnames₁ : WellNamed st₁ := by
    intro name hname
    rw [htables] at hname
    exact hmirror.names name hname
  obtain ⟨a,hruna,hrefa⟩ := @updateIndexesForNode_ok env.enc st₁ hnames₁ id record.labels
    (some record.properties) (insertProp record.properties property .null)
  obtain ⟨b,hrunb,hrefb⟩ := @updateIndexesForNode_ok env.enc st₁ hnames₁ id record.labels
    (some record.properties) (removeProp record.properties property)
  obtain ⟨same,label,properties,hsame,hlabel,hdef,hpresent,hmem,hothers⟩ := h
  rw [hrec] at hsame
  rw [←Option.some.inj hsame] at hlabel hothers
  obtain ⟨t,hget⟩ := mem_keys.mp hpresent
  have hsel : decide (label∈record.labels)=true := decide_eq_true hlabel
  have hgeta := hrefa.tables label properties hdef
  have hgetb := hrefb.tables label properties hdef
  rw [htables,hget,Option.map_some,if_pos hsel] at hgeta hgetb
  have hvalues : (collectValues (insertProp record.properties property .null) properties).isSome=true := by
    refine collectValues_isSome.mpr fun q hq => ?_
    rw [getProp_insertProp]
    split_ifs with hq'
    · rfl
    · exact hothers q hq hq'
  obtain ⟨values,hvalues⟩ := Option.isSome_iff_exists.mp hvalues
  have hrow : rowOf env.enc id properties (some (insertProp record.properties property .null))=
      some (compositeIndexKey env.enc values id) := by
    rw [rowOf,Option.bind_some,hvalues,Option.map_some]
  have hnone : rowOf env.enc id properties (some (removeProp record.properties property))=none := by
    rw [rowOf,Option.bind_some,Option.map_eq_none_iff,←Option.not_isSome_iff_eq_none,
      collectValues_isSome]
    intro hall
    have hsome := hall property hmem
    rw [getProp_removeProp,if_pos rfl] at hsome
    cases hsome
  unfold maintainNode
  rw [bind_ok hruna,bind_ok hrunb,updateFtsForNode_indexTables,updateFtsForNode_indexTables]
  intro heq
  rw [heq,hgetb] at hgeta
  have hkeys : compositeIndexKey env.enc values id∈keys (refreshRows env.enc id
      (some record.properties) (some (insertProp record.properties property .null)) properties t) :=
    mem_keys_refreshRows.mpr (Or.inl hrow)
  rw [←Option.some.inj hgeta] at hkeys
  rcases mem_keys_refreshRows.mp hkeys with hnew|⟨hold,hbefore⟩
  · rw [hnone] at hnew
    cases hnew
  · obtain ⟨other,hother⟩ := (hmirror.rows label properties t hdef hget _).mp hbefore
    obtain ⟨props,hprops⟩ := rowOf_of_nodeRow hother
    rw [rowOf_id hprops hrow,hrec,nodeRow,if_pos hlabel] at hother
    exact hold hother

theorem maintainNode_changes {st : Store} (hnames : WellNamed st) {id : NodeId} {record : NodeRecord}
    (hrec : recordAt st id=some record) (property : String) (val : Value) :
    ¬Alike (false,st) (settled (maintainNode env id record.labels (some record.properties)
      (insertProp record.properties property val) (written st id record property val))) := by
  intro halike
  have ⟨hfail,hstate⟩ := halike
  have ⟨st₂,hrun,href⟩ := @updateIndexesForNode_ok env.enc (written st id record property val)
    hnames id record.labels (some record.properties) (insertProp record.properties property val)
  have hnodes : Keeps (fun other : Store => other.nodes=(written st id record property val).nodes)
      (maintainNode env id record.labels (some record.properties)
        (insertProp record.properties property val)) :=
    keeps_maintainNode (fun _ _ h => h) (fun _ _ h => h) env id record.labels _ _
  have hview := hstate.rows id
  have ⟨row,hrow,hvalue⟩ := Option.map_eq_some_iff.mp hrec
  have hafter := hnodes (written st id record property val) rfl
  rw [rowView,rowView,settled,hafter,hrow,written,putNode,get_put_self,Option.map_some,
    Option.map_some,hvalue] at hview
  have hprops : getProp record.properties=getProp (withProperty record.properties property val) :=
    congrArg (fun view => view.2.2) (Option.some.inj hview)
  have htexts : textOf (insertProp record.properties property val)=textOf record.properties := by
    rw [textOf_insertProp]
    funext q
    rw [textOf,textOf,hprops]
  unfold maintainNode at hfail
  rw [bind_ok hrun,updateFtsForNode_same _ _ _ htexts] at hfail
  cases hfail

end Maintenance

/-- An assignment on a record sets a property of a node: its variable is bound to
the node, and its expression has the value on the record, also after the variable
is bound again. -/
structure SetsNode {E : Type} (env : ExecEnv E) (st : Store) (rec : NamedRecord) (a : Assignment E)
    (id : NodeId) (val : Value) : Prop where
  /-- The variable is not a relationship. -/
  noEdge : edgeIdentity rec a.var=none
  /-- The variable is the node. -/
  node : nodeIdField rec a.var=some id
  /-- The value of the expression. -/
  value : env.eval st a.value rec=.ok val
  /-- The value after binding the variable. -/
  rebound : env.eval st a.value (rec.set a.var (.i64 id.toInt64))=.ok val

section Paths

variable {E : Type} {env : ExecEnv E} {limits : Limits} {st : Store} {rec : NamedRecord}
  {a : Assignment E} {id : NodeId} {val : Value}

theorem settled_raising {α : Type} (x : Db α) (st : Store) :
    settled (raising x st)=settled (x st) := by
  unfold raising
  cases x st with
  | mk outcome st' =>
    cases outcome with
    | ok u | error e => rfl

theorem txSetNodeProperty_large (key : String) (h : ¬Fits limits key val) :
    settled (txSetNodeProperty env limits id key val st)=(false,st) := by
  unfold txSetNodeProperty
  cases hcheck : validateProperties "_" [(key,val)] limits with
  | ok u => exact absurd (validateProperties_ok_iff.mp hcheck) h
  | error e =>
    rw [inspect_error (by rfl)]
    rfl

theorem txSetNodeProperty_fits (key : String) (h : Fits limits key val) :
    settled (txSetNodeProperty env limits id key val st)=
      settled ((inspect (fun st => getNode st id) >>= fun old =>
        insertIndexedProperty env id old key val) st) := by
  unfold txSetNodeProperty
  rw [inspect_ok (by exact validateProperties_ok_iff.mpr h)]
  exact settled_raising _ st

theorem applyMergeSetItemNode_property (h : SetsNode env st rec a id val) :
    applyMergeSetItemNode env (.property a) id rec st=
      (inspect (fun st => getNode st id) >>= fun old =>
        insertIndexedProperty env id old a.property val) st := by
  unfold applyMergeSetItemNode
  dsimp only
  cases hnode : getNode st id with
  | error e => rw [inspect_error (by exact hnode),inspect_error (by exact hnode)]
  | ok old =>
    rw [inspect_ok (by exact hnode),inspect_ok (by exact h.rebound)]
    rw [inspect_ok (by exact hnode)]

theorem execSetProperty_settled (h : SetsNode env st rec a id val) :
    settled (execSetProperty env [rec] [a] st)=
      settled ((inspect (fun st => getNode st id) >>= fun old =>
        inspect (fun _ => validatePropertyValue val) >>= fun _ =>
          setIndexedProperty env id old a.property val) st) := by
  refine (settled_single a rec (setPropertyItem env) st).trans ?_
  unfold setPropertyItem
  rw [h.noEdge,h.node]
  dsimp only
  cases hnode : getNode st id with
  | error e =>
    rw [inspect_error (by exact hnode),inspect_error (by exact hnode)]
    rfl
  | ok old =>
    rw [inspect_ok (by exact hnode),inspect_ok (by exact h.value)]
    cases hcheck : validatePropertyValue val with
    | error e =>
      rw [inspect_error (by rfl),inspect_ok (by exact hnode)]
      rw [inspect_error (by rfl)]
      rfl
    | ok u =>
      rw [inspect_ok (by rfl)]
      refine (settled_then_pure _ _ st).trans ?_
      rw [inspect_ok (by exact hnode),inspect_ok (by rfl)]

theorem getNode_stops {α : Type} (hrec : recordAt st id=none) (next : Node → Db α) :
    settled ((inspect (fun st => getNode st id) >>= next) st)=(false,st) := by
  rw [inspect_error (by exact getNode_of_missing hrec)]
  rfl

variable {record : NodeRecord}

theorem insertIndexedProperty_present (hrec : recordAt st id=some record)
    {property : String} (hname : isValidName property=true) :
    (inspect (fun st => getNode st id) >>= fun old => insertIndexedProperty env id old property val) st=
      maintainNode env id record.labels (some record.properties)
        (insertProp record.properties property val) (written st id record property val) := by
  rw [inspect_ok (by exact getNode_of_recordAt hrec)]
  unfold insertIndexedProperty
  rw [bind_ok (setNodeProperty_written hrec hname val)]

theorem insertIndexedProperty_unnamed (hrec : recordAt st id=some record) {property : String}
    (hname : isValidName property=false) : settled
    ((inspect (fun st => getNode st id) >>= fun old => insertIndexedProperty env id old property val) st)=(false,st) := by
  rw [inspect_ok (by exact getNode_of_recordAt hrec)]
  unfold insertIndexedProperty
  rw [bind_error (setNodeProperty_unnamed hname id val st)]
  rfl

theorem execSetProperty_unstorable (h : SetsNode env st rec a id val) (hrec : recordAt st id=some record)
    (hval : isStorable val=false) : settled (execSetProperty env [rec] [a] st)=(false,st) := by
  rw [execSetProperty_settled h,inspect_ok (by exact getNode_of_recordAt hrec)]
  rw [bind_error (by rw [inspect_apply,validatePropertyValue,if_neg (by rw [hval]; simp)])]
  rfl

theorem execSetProperty_storable (h : SetsNode env st rec a id val) (hrec : recordAt st id=some record)
    (hval : isStorable val=true) : settled (execSetProperty env [rec] [a] st)= settled
    (setIndexedProperty env id ⟨id,record.labels,record.properties⟩ a.property val st) := by
  rw [execSetProperty_settled h,inspect_ok (by exact getNode_of_recordAt hrec)]
  rw [inspect_ok (by rw [validatePropertyValue,if_pos hval])]

/-- When the three paths agree: the node is missing, or the name is refused, or
the value is within the limits and storable, and is not null on an index that the
other covered properties complete. -/
def Uniform (limits : Limits) (st : Store) (id : NodeId) (property : String) (val : Value) : Prop :=
  recordAt st id=none ∨ isValidName property=false ∨
    Fits limits property val ∧ isStorable val=true ∧
      (val.isNull=true → ¬CompletesIndex st id property)

/-- The three ways to set a property settle alike exactly when nothing that only
one of them looks at is at stake. -/
theorem propertySetters_alike_iff (hmirror : IndexesMirror env.enc st)
    (hsets : SetsNode env st rec a id val) :
    (Alike (settled (txSetNodeProperty env limits id a.property val st))
        (settled (execSetProperty env [rec] [a] st)) ∧
      Alike (settled (execSetProperty env [rec] [a] st))
        (settled (applyMergeSetItemNode env (.property a) id rec st))) ↔
      Uniform limits st id a.property val := by
  rw [applyMergeSetItemNode_property hsets]
  cases hrec : recordAt st id with
  | none =>
    have htx : settled (txSetNodeProperty env limits id a.property val st)=(false,st) := by
      by_cases hfits : Fits limits a.property val
      · rw [txSetNodeProperty_fits a.property hfits,getNode_stops hrec]
      · exact txSetNodeProperty_large a.property hfits
    rw [htx,execSetProperty_settled hsets,getNode_stops hrec,getNode_stops hrec]
    exact ⟨fun _ => Or.inl hrec,fun _ => ⟨Alike.of_eq rfl,Alike.of_eq rfl⟩⟩
  | some record =>
    cases hname : isValidName a.property with
    | false =>
      have hcommon : settled ((inspect (fun st => getNode st id) >>= fun old =>
          insertIndexedProperty env id old a.property val) st)=(false,st) :=
        insertIndexedProperty_unnamed hrec hname
      have htx : settled (txSetNodeProperty env limits id a.property val st)=(false,st) := by
        by_cases hfits : Fits limits a.property val
        · rw [txSetNodeProperty_fits a.property hfits,hcommon]
        · exact txSetNodeProperty_large a.property hfits
      have hset : settled (execSetProperty env [rec] [a] st)=(false,st) := by
        cases hval : isStorable val with
        | false => exact execSetProperty_unstorable hsets hrec hval
        | true =>
          rw [execSetProperty_storable hsets hrec hval,setIndexedProperty,
            bind_error (setNodeProperty_unnamed hname id val st)]
          rfl
      rw [htx,hset,hcommon]
      exact ⟨fun _ => Or.inr (Or.inl hname),fun _ => ⟨Alike.of_eq rfl,Alike.of_eq rfl⟩⟩
    | true =>
      rw [insertIndexedProperty_present hrec hname]
      have hchanges := @maintainNode_changes E env st hmirror.names id record hrec a.property val
      constructor
      · intro hagree
        have ⟨htx,hset⟩ := hagree
        have hfits : Fits limits a.property val := by
          by_contra hlarge
          rw [txSetNodeProperty_large a.property hlarge] at htx
          exact hchanges (htx.trans hset)
        have hval : isStorable val=true := by
          by_contra hbad
          rw [execSetProperty_unstorable hsets hrec (by simpa using hbad)] at hset
          exact hchanges hset
        refine Or.inr (Or.inr ⟨hfits,hval,fun hnull hcompletes => ?_⟩)
        have hnone : val=.null := eq_null_of_isNull hnull
        rw [execSetProperty_storable hsets hrec hval,setIndexedProperty,
          bind_ok (setNodeProperty_written hrec hname val),hnone] at hset
        have htables : (written st id record a.property .null).indexTables=st.indexTables := rfl
        exact maintainNode_null_ne hmirror hrec hcompletes htables hset.2.indexTables.symm
      · intro huniform
        rcases huniform with hmissing|hunnamed|⟨hfits,hval,hnull⟩
        · rw [hrec] at hmissing
          cases hmissing
        · rw [hname] at hunnamed
          cases hunnamed
        · rw [txSetNodeProperty_fits a.property hfits,insertIndexedProperty_present hrec hname,
            execSetProperty_storable hsets hrec hval,setIndexedProperty,
            bind_ok (setNodeProperty_written hrec hname val)]
          have hsame : maintainNode env id record.labels (some record.properties)
                (insertProp record.properties a.property val) (written st id record a.property val)=
              maintainNode env id record.labels (some record.properties)
                (withProperty record.properties a.property val)
                (written st id record a.property val) := by
            cases hisNull : val.isNull with
            | false => rw [withProperty,if_neg (by rw [hisNull]; simp)]
            | true =>
              have hnone : val=.null := eq_null_of_isNull hisNull
              rw [withProperty,if_pos hisNull,hnone]
              exact maintainNode_null hmirror.names hrec (hnull hisNull) rfl
          rw [hsame]
          exact ⟨Alike.of_eq rfl,Alike.of_eq rfl⟩

end Paths

/-- A database with one node of label A, `x` being 1. -/
def oneNodeStore : Store :=
  (execCreateNode literalEnv ["A"] (some "n") [("x",.i64 1)] freshStore).2

/-- The database with an index on `:A(x)`. -/
def indexedStore : Store := (createCompositeIndex literalEnv.enc "A" ["x"] oneNodeStore).2

theorem indexedStore_mirrors : IndexesMirror literalEnv.enc indexedStore := by
  have hkeeps : Keeps (IndexInv literalEnv.enc)
      (execClause literalEnv (.createNode ["A"] (some "n") [("x",.i64 1)])) := keeps_execClause _
  have hcreated : IndexInv literalEnv.enc oneNodeStore := hkeeps freshStore indexInv_freshStore
  have hrows : oneNodeStore.nodes.rows=[(1,⟨"A",⟨["A"],[("x",.i64 1)]⟩⟩)] := rfl
  have hexact : BackfillExact oneNodeStore "A" ["x"] := by
    intro _ id row hnode _ _
    have hmem := get_eq_some.mp hnode
    rw [hrows] at hmem
    have hrow : row=⟨"A",⟨["A"],[("x",.i64 1)]⟩⟩ := (Prod.mk.inj (List.mem_singleton.mp hmem)).2
    rw [hrow]
    exact List.mem_singleton_self _
  exact (hcreated.createCompositeIndex hexact).mirror

/-- The record that binds `n` to the node. -/
def indexedRecord : NamedRecord := ⟨[("n",.i64 1)]⟩

theorem indexedRecord_sets (val : Value) :
    SetsNode literalEnv indexedStore indexedRecord ⟨"n","x",val⟩ 1 val :=
  ⟨rfl,rfl,rfl,rfl⟩

/-- Setting `x` to a string on the indexed node settles alike on all paths. -/
theorem propertySetters_alike_sample :
    Alike (settled (txSetNodeProperty literalEnv ⟨256,1048576⟩ 1 "x" (.string "s") indexedStore))
        (settled (execSetProperty literalEnv [indexedRecord] [⟨"n","x",.string "s"⟩] indexedStore)) ∧
      Alike (settled (execSetProperty literalEnv [indexedRecord] [⟨"n","x",.string "s"⟩] indexedStore))
        (settled (applyMergeSetItemNode literalEnv (.property ⟨"n","x",.string "s"⟩) 1 indexedRecord
          indexedStore)) := by
  refine (propertySetters_alike_iff indexedStore_mirrors (indexedRecord_sets _)).mpr ?_
  refine Or.inr (Or.inr ⟨⟨by decide,by decide,by decide⟩,rfl,fun hnull => ?_⟩)
  exact absurd hnull (by decide)

/-- Setting `x` to null leaves a row in the index on every path but the clause. -/
theorem propertySetters_differ_on_null :
    IndexesMirror literalEnv.enc indexedStore ∧
      SetsNode literalEnv indexedStore indexedRecord ⟨"n","x",.null⟩ 1 .null ∧
      ¬(Alike (settled (txSetNodeProperty literalEnv ⟨256,1048576⟩ 1 "x" .null indexedStore))
          (settled (execSetProperty literalEnv [indexedRecord] [⟨"n","x",.null⟩] indexedStore)) ∧
        Alike (settled (execSetProperty literalEnv [indexedRecord] [⟨"n","x",.null⟩] indexedStore))
          (settled (applyMergeSetItemNode literalEnv (.property ⟨"n","x",.null⟩) 1 indexedRecord
            indexedStore))) := by
  refine ⟨indexedStore_mirrors,indexedRecord_sets _,fun hagree => ?_⟩
  have htables := congrArg (fun tables => (get tables "node_idx$A$x").map keys)
    hagree.2.2.indexTables
  revert htables
  decide +kernel

end GraphDbLite.PropertySetters
