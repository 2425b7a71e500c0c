import GraphDbLite.NodeStorage

/-!
# Secondary indexes

An index on a label and a list of properties is a table named after them. A row
of it is the serialized values of the properties followed by the identifier of
a node. Creation fills the table from the label scan; afterwards every node
write maintains the tables of the labels it names. One lemma says what a
maintenance call does to every table.
-/

namespace GraphDbLite.SecondaryIndex

open ByteStrings GraphTypes OrderedTable StatefulActions GraphStore NodeStorage LikePattern

/-- Metadata of one secondary index. -/
structure IndexInfo where
  /-- Label the index is declared on. -/
  label : String
  /-- Covered properties in declared order. -/
  properties : List String

/-- Check the names of a property list and that none repeats. -/
def checkIndexProperties (seen : List String) : List String → Result Unit
  | [] => .ok ()
  | p::rest => do
    validateName p
    if p∈seen then
      .error (.invalidIndexDefinition ("duplicate property in composite index: "++p) none)
    else checkIndexProperties (p::seen) rest

/-- Canonical table name: label and properties between dollar signs. -/
@[grind] def indexTableName (label : String) (properties : List String) : String :=
  "node_idx$"++(label++("$"++String.intercalate (String.ofList ['$']) properties))

/-- Canonical table name of a checked definition. -/
def compositeIndexTableName (label : String) (properties : List String) : Result String :=
  if properties=[] then .error (.invalidIndexDefinition "property list cannot be empty" none)
  else do
    validateName label
    checkIndexProperties [] properties
    pure (indexTableName label properties)

/-- Table name of a single-property index in older databases. -/
def legacySingleIndexTableName (label property : String) : Result String := do
  validateName label
  validateName property
  pure ("node_idx_"++(label++("_"++property)))

/-- The physical table of an index: the canonical one, else an existing legacy
one, else the canonical name. -/
def resolveIndexTable (st : Store) (label : String) (properties : List String) : Result String := do
  let canonical ← compositeIndexTableName label properties
  if tableExists st canonical=true then pure canonical
  else
    match properties with
    | [property] => do
      let legacy ← legacySingleIndexTableName label property
      if tableExists st legacy=true then pure legacy else pure canonical
    | _ => pure canonical

/-- Insert a row into an index table. -/
def kvPut (table : String) (key : Bytes) : Db Unit := fun st =>
  match get st.indexTables table with
  | some t => (.ok (),{st with indexTables := put st.indexTables table (put t key ())})
  | none => (.error (.storage ("no such table: "++table) none),st)

/-- Delete a row from an index table. -/
def kvDelete (table : String) (key : Bytes) : Db Unit := fun st =>
  match get st.indexTables table with
  | some t => (.ok (),{st with indexTables := put st.indexTables table (delete t key)})
  | none => (.error (.storage ("no such table: "++table) none),st)

/-- Create an empty index table. -/
def createIndexTable (table : String) : Db Unit := fun st =>
  if nameTaken st table=true then
    (.error (.storage ("table \""++table++"\" already exists") none),st)
  else (.ok (),{st with indexTables := put st.indexTables table empty})

/-- Properties of an index table name of the given label. -/
def parseCompositeTableName (name expectedLabel : String) : Option (List String) := do
  let rest ← stripPrefix "node_idx$" name
  let afterLabel ← stripPrefix (expectedLabel++"$") rest
  let props := splitOnChar '$' afterLabel
  if props=[] then none else some props

/-- Indexes declared on a label, read off the table names. Only index tables
have names that the two patterns can select. -/
def listIndexesForLabel (st : Store) (label : String) : List IndexInfo :=
  if isValidName label=true then
    let singlePrefix := "node_idx_"++(label++"_")
    let compositePrefix := "node_idx$"++(label++"$")
    let names := (keys st.indexTables).filter fun name =>
      likeMatch (singlePrefix.toList++['%']) name.toList ||
        likeMatch (compositePrefix.toList++['%']) name.toList
    names.filterMap fun name =>
      match parseCompositeTableName name label with
      | some props => some ⟨label,props⟩
      | none => (stripPrefix singlePrefix name).map fun property => ⟨label,[property]⟩
  else []

/-- Values of all covered properties, or nothing when one is missing. -/
def collectValues (props : Properties) : List String → Option (List Value)
  | [] => some []
  | p::rest =>
    match getProp props p with
    | none => none
    | some value => (collectValues props rest).map (value::·)

section Encoded

variable (enc : Value → Bytes)

/-- Index row: serialized values, then the identifier. -/
def compositeIndexKey (values : List Value) (id : NodeId) : Bytes := values.flatMap enc++toBeBytes id

/-- Delete the row of a node in one index, if its properties give one. -/
def deleteEntry (table : String) (id : NodeId) (properties : List String) (props : Properties) :
    Db Unit :=
  match collectValues props properties with
  | some values => kvDelete table (compositeIndexKey enc values id)
  | none => pure ()

/-- Delete the row given by the previous properties; a new node has none. -/
def deleteOldEntry (table : String) (id : NodeId) (properties : List String)
    (old : Option Properties) : Db Unit :=
  match old with
  | some props => deleteEntry enc table id properties props
  | none => pure ()

/-- Insert the row of a node in one index, if its properties give one. -/
def insertEntry (table : String) (id : NodeId) (properties : List String) (props : Properties) :
    Db Unit :=
  match collectValues props properties with
  | some values => kvPut table (compositeIndexKey enc values id)
  | none => pure ()

/-- Whether the table of a definition exists under either name. -/
def indexTableTaken (st : Store) (table label : String) (properties : List String) : Result Bool :=
  if tableExists st table=true then .ok true
  else
    match properties with
    | [property] => do
      let legacy ← legacySingleIndexTableName label property
      pure (tableExists st legacy)
    | _ => .ok false

/-- Create an index and fill it from the nodes that the label scan finds. -/
def createCompositeIndex (label : String) (properties : List String) : Db Unit := do
  let table ← inspect fun _ => compositeIndexTableName label properties
  let already ← inspect fun st => indexTableTaken st table label properties
  if already=true then fail (.indexAlreadyExists label properties none)
  else
    createIndexTable table
    let nodes ← inspect fun st => .ok (findNodesByLabel st label)
    forEach nodes fun n => insertEntry enc table n.id properties n.properties

/-- Drop an index. -/
def dropCompositeIndex (label : String) (properties : List String) : Db Unit := do
  let table ← inspect fun st => resolveIndexTable st label properties
  let present ← inspect fun st => .ok (tableExists st table)
  if present=true then update fun st => dropTable st table
  else fail (.indexNotFound label properties none)

/-- Replace the rows of a node in one index. -/
def updateIndexEntry (id : NodeId) (label : String) (old : Option Properties) (new : Properties)
    (info : IndexInfo) : Db Unit := do
  let table ← inspect fun st => resolveIndexTable st label info.properties
  deleteOldEntry enc table id info.properties old
  insertEntry enc table id info.properties new

/-- Maintain the indexes of one label after a write. -/
def updateIndexesForLabel (id : NodeId) (label : String) (old : Option Properties)
    (new : Properties) : Db Unit := do
  let infos ← inspect fun st => .ok (listIndexesForLabel st label)
  forEach infos (updateIndexEntry enc id label old new)

/-- Maintain the indexes of all labels of a node after a write. -/
def updateIndexesForNode (id : NodeId) (labels : List String) (old : Option Properties)
    (new : Properties) : Db Unit :=
  forEach labels fun label => updateIndexesForLabel enc id label old new

/-- Remove the row of a node from one index. -/
def removeIndexEntry (id : NodeId) (label : String) (props : Properties) (info : IndexInfo) :
    Db Unit := do
  let table ← inspect fun st => resolveIndexTable st label info.properties
  deleteEntry enc table id info.properties props

/-- Remove the rows of a node from the indexes of one label. -/
def removeIndexesForLabel (id : NodeId) (label : String) (props : Properties) : Db Unit := do
  let infos ← inspect fun st => .ok (listIndexesForLabel st label)
  forEach infos (removeIndexEntry enc id label props)

/-- Remove the rows of a node from the indexes of all its labels. -/
def removeIndexesForNode (id : NodeId) (labels : List String) (props : Properties) : Db Unit :=
  forEach labels fun label => removeIndexesForLabel enc id label props

end Encoded

/-- A definition that passes the checks of creation. -/
structure IndexDef (label : String) (properties : List String) : Prop where
  /-- The label is a checked name. -/
  label : isValidName label=true
  /-- At least one property is covered. -/
  nonempty : properties≠[]
  /-- The properties are checked names. -/
  names : ∀ p∈properties,isValidName p=true
  /-- No property is listed twice. -/
  nodup : properties.Nodup

variable {properties : List String} {label name other : String} {st : Store}

theorem checkIndexProperties_ok_iff {seen : List String} : checkIndexProperties seen properties=.ok () ↔
    (∀ p∈properties,isValidName p=true) ∧ properties.Nodup ∧ ∀ p∈properties,p∉seen := by
  induction properties generalizing seen with
  | nil => simp [checkIndexProperties]
  | cons p rest ih =>
    rw [checkIndexProperties,List.forall_mem_cons,List.forall_mem_cons,List.nodup_cons,
      ←validateName_ok_iff]
    cases hname : validateName p with
    | error e => simp [bind,Except.bind]
    | ok u =>
      simp only [bind,Except.bind]
      by_cases hseen : p∈seen
      · simp [hseen]
      · have hrest : (∀ q∈rest,q∉p::seen) ↔ p∉rest ∧ ∀ q∈rest,q∉seen := by
          simp only [List.mem_cons,not_or]
          constructor
          · intro h
            exact ⟨fun hp => (h p hp).1 rfl,fun q hq => (h q hq).2⟩
          · intro h q hq
            exact ⟨fun heq => h.1 (heq ▸ hq),h.2 q hq⟩
        rw [if_neg hseen,ih,hrest]
        tauto

variable {properties : List String}

theorem compositeIndexTableName_ok_iff : compositeIndexTableName label properties=.ok name ↔
    IndexDef label properties ∧ name=indexTableName label properties := by
  unfold compositeIndexTableName
  by_cases hnil : properties=[]
  · rw [if_pos hnil]
    constructor
    · intro h
      cases h
    · intro h
      exact absurd hnil h.1.nonempty
  · rw [if_neg hnil]
    cases hlabel : validateName label with
    | error e =>
      have hbad : ¬isValidName label=true := by
        rw [←validateName_ok_iff,hlabel]
        simp
      constructor
      · intro h
        cases h
      · intro h
        exact absurd h.1.label hbad
    | ok u =>
      have hgood := validateName_ok_iff.mp hlabel
      cases hprops : checkIndexProperties [] properties with
      | error e =>
        constructor
        · intro h
          cases h
        · intro h
          have hok := checkIndexProperties_ok_iff.mpr ⟨h.1.names,h.1.nodup,fun p _ => List.not_mem_nil⟩
          cases hprops.symm.trans hok
      | ok v =>
        have hall := checkIndexProperties_ok_iff.mp hprops
        simp only [bind,Except.bind,pure,Except.pure,Except.ok.injEq]
        constructor
        · intro h
          exact ⟨⟨hgood,hnil,hall.1,hall.2.1⟩,h.symm⟩
        · intro h
          exact h.2.symm

theorem dollar_notMem (h : isValidName name=true) : '$'∉name.toList :=
  notMem_of_validName h (by decide)

theorem parseCompositeTableName_indexTableName
    (h : IndexDef label properties) (hother : isValidName other=true) :
    parseCompositeTableName (indexTableName label properties) other=
      if other=label then some properties else none := by
  unfold parseCompositeTableName indexTableName
  rw [stripPrefix_append]
  dsimp only [bind,Option.bind]
  by_cases heq : other=label
  · have hsplit := splitOnChar_intercalate h.nonempty fun p hp => dollar_notMem (h.names p hp)
    rw [if_pos heq,heq,←String.append_assoc,stripPrefix_append]
    dsimp only
    rw [hsplit,if_neg h.nonempty]
  · have hnone : stripPrefix (other++"$")
        (label++("$"++String.intercalate (String.ofList ['$']) properties))=none := by
      cases hstrip : stripPrefix (other++"$")
          (label++("$"++String.intercalate (String.ofList ['$']) properties)) with
      | none => rfl
      | some rest =>
        have htext := congrArg String.toList (stripPrefix_eq_some.mp hstrip)
        simp only [String.toList_append] at htext
        have hprefix : other.toList++['$']<+:
            label.toList++('$'::(String.intercalate (String.ofList ['$']) properties).toList) :=
          ⟨rest.toList,htext.symm⟩
        have hlists := (terminated_front_iff (dollar_notMem hother) (dollar_notMem h.label)).mp hprefix
        exact absurd (String.toList_inj.mp hlists) heq
    rw [if_neg heq,hnone]

theorem indexTableName_inj {more : List String} (h : IndexDef label properties) (ho : IndexDef other more)
    (heq : indexTableName label properties=indexTableName other more) : label=other ∧ properties=more := by
  have hleft := parseCompositeTableName_indexTableName h h.label
  have hright := parseCompositeTableName_indexTableName ho h.label
  rw [if_pos rfl,heq,hright] at hleft
  by_cases hl : label=other
  · rw [if_pos hl] at hleft
    exact ⟨hl,(Option.some.inj hleft).symm⟩
  · rw [if_neg hl] at hleft
    cases hleft

theorem stripPrefix_legacy (label : String) (properties : List String) (x : String) :
    stripPrefix ("node_idx_"++x) (indexTableName label properties)=none := by
  cases hstrip : stripPrefix ("node_idx_"++x) (indexTableName label properties) with
  | none => rfl
  | some rest =>
    have htext := stripPrefix_eq_some.mp hstrip
    rw [indexTableName,String.append_assoc] at htext
    exact absurd htext (append_ne_of_take 9 (by decide) (by decide) (by decide) _ _)

/-- Every index table has the name of a checked definition. -/
def WellNamed (st : Store) : Prop :=
  ∀ name∈keys st.indexTables,∃ label properties,IndexDef label properties ∧
    name=indexTableName label properties

theorem mem_listIndexesForLabel (hnames : WellNamed st) {info : IndexInfo} : info∈listIndexesForLabel st label ↔
    info.label=label ∧ IndexDef label info.properties ∧ indexTableName label info.properties∈keys st.indexTables := by
  unfold listIndexesForLabel
  by_cases hlabel : isValidName label=true
  · rw [if_pos hlabel]
    dsimp only
    rw [List.mem_filterMap]
    constructor
    · intro h
      have ⟨name,hname,hparse⟩ := h
      have hmem := List.mem_of_mem_filter hname
      have ⟨other,properties,hdef,heq⟩ := hnames name hmem
      rw [heq,parseCompositeTableName_indexTableName hdef hlabel,stripPrefix_legacy] at hparse
      by_cases hl : label=other
      · rw [if_pos hl] at hparse
        have hinfo := Option.some.inj hparse
        rw [←hinfo,hl]
        exact ⟨rfl,hdef,heq ▸ hmem⟩
      · rw [if_neg hl] at hparse
        cases hparse
    · intro h
      refine ⟨indexTableName label info.properties,List.mem_filter.mpr ⟨h.2.2,?_⟩,?_⟩
      · have htext : (indexTableName label info.properties).toList=
            ("node_idx$"++(label++"$")).toList++
              (String.intercalate (String.ofList ['$']) info.properties).toList := by
          simp only [indexTableName,String.toList_append,List.append_assoc]
        rw [htext,likeMatch_append (likeMatch_self _) (likeMatch_any _),Bool.or_true]
      · rw [parseCompositeTableName_indexTableName h.2.1 hlabel,if_pos rfl]
        have hlab := h.1
        cases info
        dsimp only at hlab ⊢
        rw [hlab]
  · rw [if_neg hlabel]
    constructor
    · intro h
      exact absurd h List.not_mem_nil
    · intro h
      exact absurd h.2.1.label hlabel

theorem resolveIndexTable_ok (hdef : IndexDef label properties)
    (hkey : indexTableName label properties∈keys st.indexTables) :
    resolveIndexTable st label properties=.ok (indexTableName label properties) := by
  have hname := compositeIndexTableName_ok_iff.mpr ⟨hdef,rfl⟩
  have hexists : tableExists st (indexTableName label properties)=true :=
    decide_eq_true (List.mem_append_right _ (List.mem_append_left _ hkey))
  unfold resolveIndexTable
  rw [hname]
  dsimp only [bind,Except.bind]
  rw [if_pos hexists]
  rfl

section Maintenance

variable (enc : Value → Bytes)

/-- A table without the row that the given properties produce. -/
def dropRow (id : NodeId) (properties : List String) (props : Option Properties)
    (t : Table Bytes Unit) : Table Bytes Unit :=
  match props.bind fun props => collectValues props properties with
  | some values => delete t (compositeIndexKey enc values id)
  | none => t

/-- A table with the row that the given properties produce. -/
def addRow (id : NodeId) (properties : List String) (props : Option Properties)
    (t : Table Bytes Unit) : Table Bytes Unit :=
  match props.bind fun props => collectValues props properties with
  | some values => put t (compositeIndexKey enc values id) ()
  | none => t

/-- A table in which the old row of a node gave way to its new row. -/
def refreshRows (id : NodeId) (old new : Option Properties) (properties : List String)
    (t : Table Bytes Unit) : Table Bytes Unit :=
  addRow enc id properties new (dropRow enc id properties old t)

/-- The row that the given properties produce in an index. -/
def rowOf (id : NodeId) (properties : List String) (props : Option Properties) : Option Bytes :=
  (props.bind fun props => collectValues props properties).map fun values =>
    compositeIndexKey enc values id

variable {enc}
variable {t : Table Bytes Unit} {f : List String → Table Bytes Unit → Table Bytes Unit} {st : Store}
  {label : String} {table : String}
variable {properties : List String} {one two : String → List String → Bool} {st st' : Store} {info : IndexInfo}

theorem mem_keys_refreshRows {id : NodeId} {old new : Option Properties} {key : Bytes} :
    key∈keys (refreshRows enc id old new properties t) ↔
    rowOf enc id properties new=some key ∨ rowOf enc id properties old≠some key ∧ key∈keys t := by
  have hdrop : key∈keys (dropRow enc id properties old t) ↔
      rowOf enc id properties old≠some key ∧ key∈keys t := by
    unfold dropRow rowOf
    cases old.bind fun props => collectValues props properties with
    | none => simp
    | some values =>
      rw [mem_keys_delete]
      simp [eq_comm]
  unfold refreshRows addRow
  rw [←hdrop,rowOf]
  cases new.bind fun props => collectValues props properties with
  | none => simp
  | some values =>
    rw [mem_keys_put]
    simp [eq_comm]

theorem refreshRows_idem (id : NodeId) (old new : Option Properties) (properties : List String)
    (t : Table Bytes Unit) :
    refreshRows enc id old new properties (refreshRows enc id old new properties t)=
      refreshRows enc id old new properties t := by
  refine ext_keys fun key => ?_
  rw [mem_keys_refreshRows,mem_keys_refreshRows]
  tauto

/-- What a maintenance call does: the selected index tables are rewritten, all
else stays. -/
structure Refreshed (sel : String → List String → Bool)
    (f : List String → Table Bytes Unit → Table Bytes Unit) (st st' : Store) : Prop where
  /-- Only index tables change. -/
  rest : st'={st with indexTables := st'.indexTables}
  /-- No index table appears or disappears. -/
  names : ∀ name,name∈keys st'.indexTables ↔ name∈keys st.indexTables
  /-- Exactly the selected tables are rewritten. -/
  tables : ∀ label properties,IndexDef label properties →
    get st'.indexTables (indexTableName label properties)=
      (get st.indexTables (indexTableName label properties)).map fun t =>
        if sel label properties=true then f properties t else t

theorem Refreshed.refl (f : List String → Table Bytes Unit → Table Bytes Unit) (st : Store) :
    Refreshed (fun _ _ => false) f st st :=
  ⟨rfl,fun _ => Iff.rfl,fun label properties _ => by simp⟩

theorem Refreshed.trans (hf : ∀ p t,f p (f p t)=f p t) {a b c : Store}
    (hab : Refreshed one f a b) (hbc : Refreshed two f b c) :
    Refreshed (fun label properties => one label properties || two label properties) f a c := by
  refine ⟨?_,fun name => (hbc.names name).trans (hab.names name),fun label properties hdef => ?_⟩
  · rw [hbc.rest,hab.rest]
  · rw [hbc.tables label properties hdef,hab.tables label properties hdef,Option.map_map]
    congr 1
    funext t
    cases one label properties with
    | false => simp
    | true =>
      cases two label properties with
      | false => simp
      | true => simp [hf]

theorem Refreshed.congr
    (h : Refreshed one f st st') (hsame : ∀ label properties,IndexDef label properties →
      indexTableName label properties∈keys st.indexTables → one label properties=two label properties) :
    Refreshed two f st st' := by
  refine ⟨h.rest,h.names,fun label properties hdef => ?_⟩
  rw [h.tables label properties hdef]
  cases hget : get st.indexTables (indexTableName label properties) with
  | none => rfl
  | some t => rw [hsame label properties hdef (mem_keys.mpr ⟨t,hget⟩)]

theorem Refreshed.wellNamed {sel : String → List String → Bool} (h : Refreshed sel f st st')
    (hnames : WellNamed st) : WellNamed st' :=
  fun name hname => hnames name ((h.names name).mp hname)

theorem forEach_refreshed {ι : Type} {body : ι → Db Unit} {g : ι → String → List String → Bool}
    (hf : ∀ p t,f p (f p t)=f p t) {Q : ι → Store → Prop}
    (hbody : ∀ i st,Q i st → ∃ st',body i st=(.ok (),st') ∧ Refreshed (g i) f st st')
    (hmove : ∀ i st st',(∀ name,name∈keys st'.indexTables ↔ name∈keys st.indexTables) → Q i st → Q i st')
    (items : List ι) (st : Store) (hq : ∀ i∈items,Q i st) : ∃ st',forEach items body st=(.ok (),st') ∧
    Refreshed (fun label properties => items.any fun i => g i label properties) f st st' := by
  induction items generalizing st with
  | nil => exact ⟨st,rfl,Refreshed.refl f st⟩
  | cons i rest ih =>
    have ⟨mid,hrun,hmid⟩ := hbody i st (hq i List.mem_cons_self)
    have hrest : ∀ j∈rest,Q j mid := fun j hj =>
      hmove j st mid hmid.names (hq j (List.mem_cons_of_mem _ hj))
    have ⟨last,hloop,hlast⟩ := ih mid hrest
    refine ⟨last,?_,hmid.trans hf hlast⟩
    rw [forEach,bind_ok hrun]
    exact hloop

theorem refreshed_put (hdef : IndexDef label properties)
    (hget : get st.indexTables (indexTableName label properties)=some t) :
    Refreshed (fun l p => decide (l=label ∧ p=properties)) f st
    {st with indexTables := put st.indexTables (indexTableName label properties) (f properties t)} := by
  refine ⟨rfl,fun name => ?_,fun l p hother => ?_⟩
  · rw [keys_put_present (mem_keys.mpr ⟨t,hget⟩)]
  · dsimp only
    rw [get_put]
    by_cases hsame : indexTableName l p=indexTableName label properties
    · have hparts := indexTableName_inj hother hdef hsame
      rw [if_pos hsame,hsame,hget,hparts.1,hparts.2]
      simp
    · have hparts : ¬(l=label ∧ p=properties) := by
        intro hx
        exact hsame (by rw [hx.1,hx.2])
      rw [if_neg hsame]
      simp [hparts]

theorem deleteEntry_ok (hget : get st.indexTables table=some t) (id : NodeId) (properties : List String)
    (props : Properties) : deleteEntry enc table id properties props st=
    (.ok (),{st with indexTables := put st.indexTables table (dropRow enc id properties (some props) t)}) := by
  unfold deleteEntry dropRow
  rw [Option.bind_some]
  cases collectValues props properties with
  | none =>
    dsimp only
    rw [put_same hget]
    rfl
  | some values =>
    dsimp only
    rw [kvDelete,hget]

theorem insertEntry_ok (hget : get st.indexTables table=some t) (id : NodeId) (properties : List String)
    (props : Properties) : insertEntry enc table id properties props st=
    (.ok (),{st with indexTables := put st.indexTables table (addRow enc id properties (some props) t)}) := by
  unfold insertEntry addRow
  rw [Option.bind_some]
  cases collectValues props properties with
  | none =>
    dsimp only
    rw [put_same hget]
    rfl
  | some values =>
    dsimp only
    rw [kvPut,hget]

theorem deleteOldEntry_ok (hget : get st.indexTables table=some t) (id : NodeId) (properties : List String)
    (old : Option Properties) : deleteOldEntry enc table id properties old st=
    (.ok (),{st with indexTables := put st.indexTables table (dropRow enc id properties old t)}) := by
  cases old with
  | none =>
    change (Except.ok (),st)=_
    rw [dropRow,Option.bind_none]
    dsimp only
    rw [put_same hget]
  | some props => exact deleteEntry_ok hget id properties props

theorem updateIndexEntry_ok (hdef : IndexDef label info.properties)
    (hkey : indexTableName label info.properties∈keys st.indexTables) (id : NodeId) (old : Option Properties)
    (new : Properties) : ∃ st',updateIndexEntry enc id label old new info st=(.ok (),st') ∧
    Refreshed (fun l p => decide (l=label ∧ p=info.properties)) (refreshRows enc id old (some new)) st st' := by
  have ⟨t,hget⟩ := mem_keys.mp hkey
  have hresolve := resolveIndexTable_ok hdef hkey
  refine ⟨_,?_,refreshed_put hdef hget⟩
  unfold updateIndexEntry
  rw [inspect_ok (by exact hresolve),bind_ok (deleteOldEntry_ok hget id info.properties old)]
  have hmid : get (put st.indexTables (indexTableName label info.properties)
      (dropRow enc id info.properties old t)) (indexTableName label info.properties)=
        some (dropRow enc id info.properties old t) := get_put_self _ _ _
  rw [insertEntry_ok hmid id info.properties new]
  dsimp only
  rw [put_put]
  rfl

theorem removeIndexEntry_ok (hdef : IndexDef label info.properties)
    (hkey : indexTableName label info.properties∈keys st.indexTables) (id : NodeId) (props : Properties) :
    ∃ st',removeIndexEntry enc id label props info st=(.ok (),st') ∧
    Refreshed (fun l p => decide (l=label ∧ p=info.properties)) (refreshRows enc id (some props) none) st st' := by
  have ⟨t,hget⟩ := mem_keys.mp hkey
  have hresolve := resolveIndexTable_ok hdef hkey
  refine ⟨_,?_,refreshed_put hdef hget⟩
  unfold removeIndexEntry
  rw [inspect_ok (by exact hresolve),deleteEntry_ok hget id info.properties props]
  rfl

theorem listed_refreshed {body : IndexInfo → Db Unit} (hf : ∀ p t,f p (f p t)=f p t)
    (hbody : ∀ info st,IndexDef label info.properties →
      indexTableName label info.properties∈keys st.indexTables →
      ∃ st',body info st=(.ok (),st') ∧
        Refreshed (fun l p => decide (l=label ∧ p=info.properties)) f st st') (hnames : WellNamed st) :
    ∃ st',forEach (listIndexesForLabel st label) body st=(.ok (),st') ∧
      Refreshed (fun l _ => decide (l=label)) f st st' := by
  let Q : IndexInfo → Store → Prop := fun info st =>
    IndexDef label info.properties ∧ indexTableName label info.properties∈keys st.indexTables
  have hstep : ∀ info st,Q info st → ∃ st',body info st=(.ok (),st') ∧
      Refreshed (fun l p => decide (l=label ∧ p=info.properties)) f st st' :=
    fun info st hq => hbody info st hq.1 hq.2
  have hmove : ∀ info st st',(∀ name,name∈keys st'.indexTables ↔ name∈keys st.indexTables) →
      Q info st → Q info st' := fun info st st' hsame hq => ⟨hq.1,(hsame _).mpr hq.2⟩
  have ⟨st',hrun,href⟩ := forEach_refreshed hf hstep hmove (listIndexesForLabel st label) st
    fun info hinfo => ((mem_listIndexesForLabel hnames).mp hinfo).2
  refine ⟨st',hrun,href.congr fun l p hdef hkey => ?_⟩
  rw [Bool.eq_iff_iff,List.any_eq_true,decide_eq_true_iff]
  constructor
  · intro h
    have ⟨info,_,hinfo⟩ := h
    exact (decide_eq_true_iff.mp hinfo).1
  · intro hl
    rw [hl] at hdef hkey
    have hmem : (⟨label,p⟩ : IndexInfo)∈listIndexesForLabel st label :=
      (mem_listIndexesForLabel hnames).mpr ⟨rfl,hdef,hkey⟩
    exact ⟨⟨label,p⟩,hmem,decide_eq_true ⟨hl,rfl⟩⟩

theorem updateIndexesForLabel_ok (hnames : WellNamed st) (id : NodeId) (label : String) (old : Option Properties)
    (new : Properties) : ∃ st',updateIndexesForLabel enc id label old new st=(.ok (),st') ∧
    Refreshed (fun l _ => decide (l=label)) (refreshRows enc id old (some new)) st st' :=
  listed_refreshed (refreshRows_idem id old (some new))
    (fun _ _ hdef hkey => updateIndexEntry_ok hdef hkey id old new) hnames

theorem removeIndexesForLabel_ok {st : Store} (hnames : WellNamed st) (id : NodeId) (label : String)
    (props : Properties) :
    ∃ st',removeIndexesForLabel enc id label props st=(.ok (),st') ∧
      Refreshed (fun l _ => decide (l=label)) (refreshRows enc id (some props) none) st st' :=
  listed_refreshed (refreshRows_idem id (some props) none)
    (fun _ _ hdef hkey => removeIndexEntry_ok hdef hkey id props) hnames

theorem labels_refreshed {body : String → Db Unit} (hf : ∀ p t,f p (f p t)=f p t)
    (hbody : ∀ label st,WellNamed st → ∃ st',body label st=(.ok (),st') ∧
      Refreshed (fun l _ => decide (l=label)) f st st') (hnames : WellNamed st) (labels : List String) :
    ∃ st',forEach labels body st=(.ok (),st') ∧
      Refreshed (fun l _ => decide (l∈labels)) f st st' := by
  have ⟨st',hrun,href⟩ := forEach_refreshed (g:=fun label l _ => decide (l=label)) hf
    (Q:=fun _ st => WellNamed st) hbody
    (fun _ st st' hsame hq name hname => hq name ((hsame name).mp hname)) labels st
    (fun _ _ => hnames)
  refine ⟨st',hrun,href.congr fun l _ _ _ => ?_⟩
  rw [Bool.eq_iff_iff,List.any_eq_true,decide_eq_true_iff]
  constructor
  · intro h
    have ⟨label,hmem,heq⟩ := h
    rw [decide_eq_true_iff.mp heq]
    exact hmem
  · intro hl
    exact ⟨l,hl,decide_eq_true rfl⟩

theorem updateIndexesForNode_ok {st : Store} (hnames : WellNamed st) (id : NodeId)
    (labels : List String) (old : Option Properties) (new : Properties) :
    ∃ st',updateIndexesForNode enc id labels old new st=(.ok (),st') ∧
      Refreshed (fun l _ => decide (l∈labels)) (refreshRows enc id old (some new)) st st' :=
  labels_refreshed (refreshRows_idem id old (some new))
    (fun label _ hn => updateIndexesForLabel_ok hn id label old new) hnames labels

theorem removeIndexesForNode_ok {st : Store} (hnames : WellNamed st) (id : NodeId)
    (labels : List String) (props : Properties) :
    ∃ st',removeIndexesForNode enc id labels props st=(.ok (),st') ∧
      Refreshed (fun l _ => decide (l∈labels)) (refreshRows enc id (some props) none) st st' :=
  labels_refreshed (refreshRows_idem id (some props) none)
    (fun label _ hn => removeIndexesForLabel_ok hn id label props) hnames labels

end Maintenance

end GraphDbLite.SecondaryIndex
