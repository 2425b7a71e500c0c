import GraphDbLite.Projection

/-!
# Rows by slot

Most plans run on rows that keep their values in slots. A schema lists the names of the
slots and finds the slot of a name. Expressions read such a row by name through a view, and
at the borders of the executor it becomes a named record or is filled from one. A slot
outside the row is a panic.
-/

namespace GraphDbLite.SlotRecords

open GraphTypes WriteOperators QueryExecutor NodeRecords CypherEval Projection

/-- Names of the slots of a row. -/
structure RecordSchema where
  /-- Slot of each name. -/
  byName : List (String×Nat)
  /-- Names in slot order. -/
  names : List String
  /-- The slot of a name is its place. -/
  indexed : byName=names.zipIdx
  /-- Names are listed once. -/
  nodup : names.Nodup

/-- The schema without slots. -/
@[grind] def RecordSchema.new : RecordSchema := ⟨[],[],rfl,List.nodup_nil⟩

/-- Slot of a name. -/
@[grind] def RecordSchema.slot (schema : RecordSchema) (name : String) : Option Nat :=
  (schema.byName.find? fun entry => entry.1=name).map Prod.snd

theorem find_zipIdx (names : List String) (name : String) (k : Nat) :
    ((names.zipIdx k).find? fun entry => entry.1=name).isSome=true ↔ name∈names := by
  rw [List.find?_isSome]
  constructor
  · rintro ⟨entry,hentry,hname⟩
    exact of_decide_eq_true hname ▸ List.fst_mem_of_mem_zipIdx hentry
  · intro hin
    obtain ⟨i,hi,hget⟩ := List.mem_iff_getElem.mp hin
    exact ⟨(name,k+i),List.mk_add_mem_zipIdx_iff_getElem?.mpr (hget ▸ List.getElem?_eq_getElem hi),decide_eq_true rfl⟩

theorem slot_none {schema : RecordSchema} {name : String} : schema.slot name=none ↔ name∉schema.names := by
  rw [RecordSchema.slot,schema.indexed,Option.map_eq_none_iff,←find_zipIdx _ _ 0,Bool.not_eq_true,Option.isSome_eq_false_iff,
    Option.isNone_iff_eq_none]

theorem indexed_add {schema : RecordSchema} (name : String) :
    schema.byName++[(name,schema.names.length)]=(schema.names++[name]).zipIdx := by
  rw [schema.indexed,List.zipIdx_append,Nat.zero_add]
  rfl

theorem nodup_add {schema : RecordSchema} {name : String} (h : schema.slot name=none) :
    (schema.names++[name]).Nodup :=
  List.nodup_append.mpr ⟨schema.nodup,List.nodup_singleton name,
    fun _ ha _ hb heq => slot_none.mp h (List.mem_singleton.mp hb ▸ heq ▸ ha)⟩

/-- Slot of a name, after a new one if it has none. -/
@[grind] def RecordSchema.add (schema : RecordSchema) (name : String) : Nat×RecordSchema :=
  match h : schema.slot name with
  | some slot => (slot,schema)
  | none => (schema.names.length,⟨schema.byName++[(name,schema.names.length)],schema.names++[name],indexed_add name,nodup_add h⟩)

/-- Values in slot order. -/
abbrev SlotRecord := List Value

/-- A row of nulls. -/
@[grind] def withCapacity (n : Nat) : SlotRecord := List.replicate n .null

/-- Write a slot. -/
@[grind] def setSlot (rec : SlotRecord) (slot : Nat) (v : Value) : Option SlotRecord :=
  if slot < rec.length then some (rec.set slot v) else none

/-- Read a name through the view of a row. -/
@[grind] def viewGet (schema : RecordSchema) (rec : SlotRecord) (name : String) : Option (Option Value) :=
  match schema.slot name with
  | none => some none
  | some slot => rec[slot]?.map some

/-- Names and values that the view of a row visits. -/
@[grind] def visitFields (schema : RecordSchema) (rec : SlotRecord) : Option (List (String×Value)) :=
  schema.names.zipIdx.mapM fun entry => rec[entry.2]?.map (Prod.mk entry.1)

/-- The named record of a row. -/
@[grind] def materializeNamed (schema : RecordSchema) (rec : SlotRecord) : Option NamedRecord :=
  schema.names.zipIdx.foldlM (fun nr entry => rec[entry.2]?.map (nr.set entry.1)) emptyRecord

/-- The row of a named record. -/
@[grind] def namedToSlot (schema : RecordSchema) (named : NamedRecord) : Option SlotRecord :=
  schema.names.zipIdx.foldlM (fun rec entry =>
    match named.get entry.1 with
    | some v => setSlot rec entry.2 v
    | none => some rec) (withCapacity schema.names.length)

/-- Write a value under a name that may have a slot. -/
@[grind] def setNamed (schema : RecordSchema) (rec : SlotRecord) (field : String×Value) : Option SlotRecord :=
  match schema.slot field.1 with
  | some slot => setSlot rec slot field.2
  | none => some rec

/-- Flat fields of a node under a variable, in the order in which a row takes them. -/
@[grind] def slotFields (n : Node) (nodeAlias : String) : List (String×Value) :=
  [(nodeAlias,.i64 n.id.toInt64),(nodeAlias++".__id",.i64 n.id.toInt64),
    (nodeAlias++".__label",.string (String.intercalate ":" n.labels)),(nodeAlias++".__labels",labelList n.labels)]++
  n.properties.reverse.map fun entry => (nodeAlias++("."++entry.1),entry.2)

/-- The row of a node. -/
@[grind] def nodeToSlotRecord (n : Node) (nodeAlias : String) (schema : RecordSchema) : Option SlotRecord :=
  (slotFields n nodeAlias).foldlM (setNamed schema) (withCapacity schema.names.length)

/-- What remains of a named record under a schema. -/
@[grind] def restrict (names : List String) (named : NamedRecord) : NamedRecord :=
  ⟨names.map fun name => (name,(named.get name).getD .null)⟩

variable {schema : RecordSchema} {rec : SlotRecord} {named : NamedRecord} {name : String}

/-- A row has a value for each slot of the schema. -/
@[grind] def Fits (schema : RecordSchema) (rec : SlotRecord) : Prop := rec.length=schema.names.length

theorem slot_some {i : Nat} : schema.slot name=some i ↔ schema.names[i]?=some name := by
  have hplace {j : Nat} (h : schema.slot name=some j) : schema.names[j]?=some name := by
    obtain ⟨entry,hentry,hj⟩ := Option.map_eq_some_iff.mp h
    have hname : entry.1=name := by simpa using List.find?_some hentry
    rw [schema.indexed] at hentry
    rw [←hj,←hname]
    exact List.mem_zipIdx_iff_getElem?.mp (List.mem_of_find?_eq_some hentry)
  refine ⟨hplace,fun h => ?_⟩
  cases hslot : schema.slot name with
  | none => exact absurd (List.mem_of_getElem? h) (slot_none.mp hslot)
  | some j =>
    obtain ⟨hi,_⟩ := List.getElem?_eq_some_iff.mp h
    exact congrArg some ((List.getElem?_inj hi schema.nodup).mp (h.trans (hplace hslot).symm)).symm

theorem get_zip (names : List String) (rec : SlotRecord) {i : Nat} (hnodup : names.Nodup) (h : names[i]?=some name) :
    getProp (names.zip rec) name=rec[i]? := by
  induction names generalizing rec i with
  | nil => cases h
  | cons first rest ih =>
    obtain ⟨hnot,hrest⟩ := List.nodup_cons.mp hnodup
    cases rec with
    | nil => rfl
    | cons v more =>
      rw [List.zip_cons_cons,getProp,List.find?_cons]
      cases i with
      | zero =>
        rw [decide_eq_true (Option.some.inj h)]
        rfl
      | succ i =>
        have hne : first≠name := fun heq => hnot (heq.symm ▸ List.mem_of_getElem? h)
        rw [decide_eq_false hne]
        exact ih more hrest h

theorem foldlM_materialize (names : List String) (rec : SlotRecord) (k : Nat) (nr : NamedRecord)
    (hlen : k+names.length≤ rec.length) (hnodup : names.Nodup) (hfresh : ∀ name∈names,nr.get name=none) :
    (names.zipIdx k).foldlM (fun nr entry => rec[entry.2]?.map (nr.set entry.1)) nr=
      some ⟨nr.fields++names.zip (rec.drop k)⟩ := by
  induction names generalizing k nr with
  | nil => simp
  | cons first rest ih =>
    obtain ⟨hnot,hrest⟩ := List.nodup_cons.mp hnodup
    rw [List.length_cons] at hlen
    have hk : k < rec.length := by omega
    have hset : nr.set first rec[k]=⟨nr.fields++[(first,rec[k])]⟩ := by
      rw [NamedRecord.set,hfresh first List.mem_cons_self]
      rfl
    have htail : ∀ name∈rest,(nr.set first rec[k]).get name=none := fun name hin =>
      (get_set_ne fun heq : name=first => hnot (heq ▸ hin)).trans (hfresh name (List.mem_cons_of_mem first hin))
    rw [List.zipIdx_cons,List.foldlM_cons,List.getElem?_eq_getElem hk,Option.map_some,Option.bind_eq_bind,Option.bind_some,
      ih (k+1) _ (by omega) hrest htail,hset,List.drop_eq_getElem_cons hk,List.zip_cons_cons,List.append_assoc]
    rfl

/-- The named record of a row is the row seen as a record. -/
theorem materializeNamed_fits (h : Fits schema rec) : materializeNamed schema rec=some (SlotRow.view ⟨schema.names,rec,h⟩) := by
  rw [materializeNamed,foldlM_materialize schema.names rec 0 emptyRecord (by rw [h]; omega) schema.nodup fun _ _ => rfl]
  rfl

theorem foldlM_namedToSlot (named : NamedRecord) (names : List String) (front : SlotRecord) :
    (names.zipIdx front.length).foldlM (fun rec entry =>
      match named.get entry.1 with
      | some v => setSlot rec entry.2 v
      | none => some rec) (front++withCapacity names.length)=
      some (front++names.map fun name => (named.get name).getD .null) := by
  induction names generalizing front with
  | nil => rfl
  | cons first rest ih =>
    have hnext := ih (front++[(named.get first).getD .null])
    rw [List.length_append,List.append_assoc,List.append_assoc] at hnext
    rw [List.zipIdx_cons,List.foldlM_cons,List.map_cons]
    refine Eq.trans ?_ hnext
    cases hget : named.get first with
    | none => rfl
    | some v =>
      have hlen : front.length < (front++withCapacity (first::rest).length).length := by simp [withCapacity]
      have hset : (front++withCapacity (first::rest).length).set front.length v=front++(v::withCapacity rest.length) := by
        rw [List.set_append_right _ _ (Nat.le_refl _),Nat.sub_self]
        rfl
      dsimp only
      rw [setSlot,if_pos hlen,hset]
      rfl

/-- The row of a named record has its values, and null where it has none. -/
theorem namedToSlot_eq (schema : RecordSchema) (named : NamedRecord) :
    namedToSlot schema named=some (schema.names.map fun name => (named.get name).getD .null) :=
  foldlM_namedToSlot named schema.names []

theorem namedToSlot_empty (schema : RecordSchema) :
    namedToSlot schema emptyRecord=some (withCapacity schema.names.length) :=
  (namedToSlot_eq schema emptyRecord).trans (congrArg some List.map_const')

theorem viewGet_fits (h : Fits schema rec) (name : String) :
    viewGet schema rec name=some (getProp (schema.names.zip rec) name) := by
  unfold viewGet
  cases hslot : schema.slot name with
  | none =>
    have hnone : getProp (schema.names.zip rec) name=none := by
      rw [getProp,Option.map_eq_none_iff,List.find?_eq_none]
      intro entry hentry hname
      exact slot_none.mp hslot (of_decide_eq_true hname ▸ (List.of_mem_zip hentry).1)
    exact congrArg some hnone.symm
  | some i =>
    have hplace := slot_some.mp hslot
    obtain ⟨hi,_⟩ := List.getElem?_eq_some_iff.mp hplace
    rw [get_zip schema.names rec schema.nodup hplace]
    dsimp only
    rw [List.getElem?_eq_getElem (h ▸ hi)]
    rfl

theorem mapM_visit (names : List String) (rec : SlotRecord) (k : Nat) (hlen : k+names.length≤ rec.length) :
    (names.zipIdx k).mapM (fun entry => rec[entry.2]?.map (Prod.mk entry.1))=some (names.zip (rec.drop k)) := by
  induction names generalizing k with
  | nil => rfl
  | cons first rest ih =>
    rw [List.length_cons] at hlen
    have hk : k < rec.length := by omega
    rw [List.zipIdx_cons,List.mapM_cons,List.getElem?_eq_getElem hk,ih (k+1) (by omega),List.drop_eq_getElem_cons hk,
      List.zip_cons_cons]
    rfl

/-- A field that is written into a row is written into the named record that the row was filled from. -/
theorem setNamed_namedToSlot (h : namedToSlot schema named=some rec) (field : String×Value) :
    setNamed schema rec field=namedToSlot schema (named.set field.1 field.2) := by
  rw [namedToSlot_eq] at h ⊢
  rw [←Option.some.inj h]
  unfold setNamed
  cases hslot : schema.slot field.1 with
  | none =>
    refine congrArg some (List.map_congr_left fun name hin => ?_)
    rw [get_set_ne fun heq : name=field.1 => slot_none.mp hslot (heq ▸ hin)]
  | some i =>
    have hplace := slot_some.mp hslot
    obtain ⟨hi,hname⟩ := List.getElem?_eq_some_iff.mp hplace
    dsimp only
    rw [setSlot,if_pos (by rwa [List.length_map])]
    refine congrArg some (List.ext_getElem (by simp) fun j hj hj' => ?_)
    rw [List.length_map] at hj'
    rw [List.getElem_set,List.getElem_map,List.getElem_map,get_set]
    by_cases heq : i=j
    · subst heq
      rw [if_pos rfl,if_pos hname]
      rfl
    · rw [if_neg heq,if_neg fun hsame => heq (schema.nodup.getElem_inj_iff.mp (hname.trans hsame.symm))]

theorem foldlM_setNamed (fields : List (String×Value)) (h : namedToSlot schema named=some rec) :
    fields.foldlM (setNamed schema) rec=namedToSlot schema (fields.foldl (fun nr field => nr.set field.1 field.2) named) := by
  induction fields generalizing rec named with
  | nil => exact h.symm
  | cons field rest ih =>
    rw [List.foldlM_cons,List.foldl_cons,setNamed_namedToSlot h,namedToSlot_eq]
    exact ih (namedToSlot_eq _ _)

/-- The row of a node is that of its fields written in the order of the row. -/
theorem nodeToSlotRecord_eq (n : Node) (nodeAlias : String) (schema : RecordSchema) :
    nodeToSlotRecord n nodeAlias schema=namedToSlot schema
      ((slotFields n nodeAlias).foldl (fun nr field => nr.set field.1 field.2) emptyRecord) :=
  foldlM_setNamed _ (namedToSlot_empty schema)

/-- A named record that goes into slots and back keeps what has a slot. -/
theorem materializeNamed_namedToSlot (schema : RecordSchema) (named : NamedRecord) :
    (namedToSlot schema named).bind (materializeNamed schema)=some (restrict schema.names named) := by
  have hfits : Fits schema (schema.names.map fun name => (named.get name).getD .null) := List.length_map _
  have hzip := List.zip_map' (f := id) (g := fun name => (named.get name).getD .null) (l := schema.names)
  rw [List.map_id] at hzip
  rw [namedToSlot_eq]
  exact (materializeNamed_fits hfits).trans (congrArg some (congrArg NamedRecord.mk hzip))

theorem restrict_set {names : List String} {key : String} (hin : key∈names) (named : NamedRecord) (v : Value) :
    (restrict names named).set key v=restrict names (named.set key v) := by
  have hsome : ((restrict names named).get key).isSome=true := by
    rw [NamedRecord.get,getProp,Option.isSome_map,List.find?_isSome]
    exact ⟨_,List.mem_map_of_mem hin,decide_eq_true rfl⟩
  rw [NamedRecord.set,if_pos hsome]
  refine congrArg NamedRecord.mk ?_
  rw [restrict,List.map_map]
  refine List.map_congr_left fun name _ => ?_
  rw [get_set]
  by_cases heq : name=key
  · rw [if_pos heq,heq]
    exact if_pos rfl
  · rw [if_neg heq]
    exact if_neg heq

/-- Columns written into a row of nulls are those written into a record of nulls. -/
theorem written_columns {columns : List (String×Value)} (h : ∀ column∈columns,column.1∈schema.names) :
    (columns.foldlM (setNamed schema) (withCapacity schema.names.length)).bind (materializeNamed schema)=
      some (setAll ⟨schema.names.map fun name => (name,.null)⟩ columns) := by
  have hset : ∀ named,restrict schema.names (setAll named columns)=setAll (restrict schema.names named) columns := by
    induction columns with
    | nil => exact fun _ => rfl
    | cons column rest ih =>
      intro named
      have hrest := ih (fun other hin => h other (List.mem_cons_of_mem column hin)) (named.set column.1 column.2)
      rw [←restrict_set (h column List.mem_cons_self)] at hrest
      exact hrest
  rw [foldlM_setNamed columns (namedToSlot_empty schema),materializeNamed_namedToSlot]
  exact congrArg some (hset emptyRecord)

theorem foldl_slotFields (n : Node) (nodeAlias : String) :
    (slotFields n nodeAlias).foldl (fun nr field => nr.set field.1 field.2) emptyRecord=
      bindProperties ((((emptyRecord.set nodeAlias (.i64 n.id.toInt64)).set (nodeAlias++".__id") (.i64 n.id.toInt64)).set
        (nodeAlias++".__label") (.string (String.intercalate ":" n.labels))).set (nodeAlias++".__labels") (labelList n.labels))
        nodeAlias n.properties := by
  rw [slotFields,List.foldl_append,List.foldl_map,List.foldl_reverse]
  rfl

theorem get_slotFields_dotted (n : Node) (nodeAlias p : String) :
    ((slotFields n nodeAlias).foldl (fun nr field => nr.set field.1 field.2) emptyRecord).get (nodeAlias++("."++p))=
      (getProp n.properties p).or (nodeField n p) := by
  have hid : ".__id" = "."++"__id" := by decide
  have hlabels : ".__labels" = "."++"__labels" := by decide
  have hlabel : ".__label" = "."++"__label" := by decide
  rw [foldl_slotFields,get_bindProperties_dotted,hid,hlabels,hlabel,get_set,get_set,get_set,get_set_ne (dotted_ne_self nodeAlias p)]
  simp only [dotted_inj]
  have hempty : emptyRecord.get (nodeAlias++("."++p))=none := rfl
  by_cases h1 : p = "__id"
  · subst h1
    rfl
  · by_cases h2 : p = "__labels"
    · subst h2
      rfl
    · by_cases h3 : p = "__label"
      · subst h3
        rfl
      · rw [nodeField,if_neg h1,if_neg h2,if_neg h3,if_neg h1,if_neg h2,if_neg h3,hempty,Option.or_none,Option.or_self]

/-- The row of a node is the restricted record of the node exactly when no property hides its metadata
in a slot of the schema. -/
theorem node_row_iff (n : Node) (nodeAlias : String) (schema : RecordSchema) :
    nodeToSlotRecord n nodeAlias schema=namedToSlot schema (nodeToRecord n nodeAlias) ↔
      ∀ p∈["__id","__label","__labels"],nodeAlias++("."++p)∈schema.names →
        ∀ v,getProp n.properties p=some v → nodeField n p=some v := by
  have hid : ".__id" = "."++"__id" := by decide
  have hlabels : ".__labels" = "."++"__labels" := by decide
  have hlabel : ".__label" = "."++"__label" := by decide
  have hfield {p : String} (hp : p∉["__id","__label","__labels"]) : nodeField n p=getProp n.properties p := by
    simp only [List.mem_cons,List.not_mem_nil,or_false,not_or] at hp
    rw [nodeField,if_neg hp.1,if_neg hp.2.2,if_neg hp.2.1]
  have hmeta {p : String} (hp : p∈["__id","__label","__labels"]) : ∃ v,nodeField n p=some v := by
    simp only [List.mem_cons,List.not_mem_nil,or_false] at hp
    rcases hp with rfl|rfl|rfl <;> exact ⟨_,rfl⟩
  rw [nodeToSlotRecord_eq,namedToSlot_eq,namedToSlot_eq,Option.some_inj,List.map_inj_left]
  constructor
  · intro h p hp hin v hv
    have hname := h _ hin
    obtain ⟨w,hw⟩ := hmeta hp
    rw [get_slotFields_dotted,get_nodeToRecord_dotted,hv,hw] at hname
    rw [hw]
    exact congrArg some hname.symm
  · intro h name hin
    by_cases hdotted : ∃ p,name=nodeAlias++("."++p)
    · obtain ⟨p,hp⟩ := hdotted
      rw [hp,get_slotFields_dotted,get_nodeToRecord_dotted]
      cases hget : getProp n.properties p with
      | none => rfl
      | some v =>
        by_cases hmem : p∈["__id","__label","__labels"]
        · rw [h p hmem (hp ▸ hin) v hget]
          rfl
        · rw [hfield hmem,hget]
          rfl
    · have hother : ∀ p,name≠nodeAlias++("."++p) := fun p heq => hdotted ⟨p,heq⟩
      by_cases hself : name=nodeAlias
      · have hne := fun p => (dotted_ne_self nodeAlias p).symm
        rw [hself,get_nodeToRecord_self,foldl_slotFields,get_bindProperties_other hne,hid,hlabels,hlabel,get_set_ne (hne _),
          get_set_ne (hne _),get_set_ne (hne _),get_set_self]
      · rw [get_nodeToRecord_other hself hother,foldl_slotFields,get_bindProperties_other hother,hid,hlabels,hlabel,
          get_set_ne (hother _),get_set_ne (hother _),get_set_ne (hother _),get_set_ne hself]
        rfl

/-- A row that fits and its named record hold the same: the view reads and visits the fields of the record, from
which the row is filled again; a named record keeps under a schema what has a slot, and columns written into a row of
nulls are those written into a record of nulls. -/
theorem slot_row_views (h : Fits schema rec) :
    (∃ nr,materializeNamed schema rec=some nr ∧ (∀ name,viewGet schema rec name=some (nr.get name)) ∧
      visitFields schema rec=some nr.fields ∧ (nr.fields.map Prod.fst).Nodup ∧ namedToSlot schema nr=some rec) ∧
    (∀ other,∃ row,namedToSlot schema other=some row ∧ Fits schema row ∧
      materializeNamed schema row=some (restrict schema.names other)) ∧
    ∀ columns,(∀ column∈columns,column.1∈schema.names) →
      (columns.foldlM (setNamed schema) (withCapacity schema.names.length)).bind (materializeNamed schema)=
        some (setAll ⟨schema.names.map fun name => (name,.null)⟩ columns) := by
  refine ⟨?_,fun other => ?_,fun columns hin => written_columns hin⟩
  · refine ⟨⟨schema.names.zip rec⟩,materializeNamed_fits h,viewGet_fits h,?_,?_,?_⟩
    · exact mapM_visit schema.names rec 0 (by rw [h]; omega)
    · rw [List.map_fst_zip (Nat.le_of_eq h.symm)]
      exact schema.nodup
    · rw [namedToSlot_eq]
      refine congrArg some (List.ext_getElem (by rw [List.length_map,h]) fun i hi hi' => ?_)
      rw [List.length_map] at hi
      have hget : NamedRecord.get ⟨schema.names.zip rec⟩ schema.names[i]=some rec[i] :=
        (get_zip schema.names rec schema.nodup (List.getElem?_eq_getElem hi)).trans (List.getElem?_eq_getElem hi')
      rw [List.getElem_map,hget]
      rfl
  · exact ⟨_,namedToSlot_eq schema other,List.length_map _,
      by rw [←materializeNamed_namedToSlot,namedToSlot_eq,Option.bind_some]⟩

/-- The slots of two names, the first of which is added again. -/
def sampleSchema : RecordSchema := (((RecordSchema.new.add "n.x").2.add "n").2.add "n.x").2

/-- The view of a row finds the names of its two slots and no other. -/
theorem slot_row_views_sample : ∃ nr,materializeNamed sampleSchema [.i64 7,.i64 1]=some nr ∧
    nr.get "n.x"=some (.i64 7) ∧ nr.get "n"=some (.i64 1) ∧ nr.get "n.y"=none := by
  have hfits : Fits sampleSchema [.i64 7,.i64 1] := by
    unfold Fits
    rfl
  obtain ⟨⟨nr,hnamed,hget,_⟩,_⟩ := slot_row_views hfits
  exact ⟨nr,hnamed,Option.some.inj (hget "n.x").symm,Option.some.inj (hget "n").symm,Option.some.inj (hget "n.y").symm⟩

end GraphDbLite.SlotRecords
