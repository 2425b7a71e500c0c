import GraphDbLite.RecordFields
import GraphDbLite.EdgePropertyFrame
import GraphDbLite.PropertySetters

/-!
# Single property writes of the operators

SET, SET with a map and REMOVE are runs of single writes: one assignment, one map
or one removal on one row. Each goes to the entity of a variable of the row, a
relationship when the row has its source, destination and type under it and else
a node, replaces the properties of the entity and refreshes the fields of the
written names under that variable. Whether it gets that far is decided by the
row and the database before.
-/

namespace GraphDbLite.PropertyCopies

open ByteStrings GraphTypes OrderedTable StatefulActions GraphStore EdgeStorage NodeStorage NodeView
open WriteOperators RecordFields EdgePropertyFrame

/-- A stored entity. -/
inductive Entity where
  | node (id : NodeId)
  | edge (key : Bytes)
  deriving DecidableEq

/-- Properties stored for an entity, when it is stored. -/
def storedOf (st : Store) : Entity → Option Properties
  | .node id => (recordAt st id).map NodeRecord.properties
  | .edge key => get st.edgeProps key

/-- Properties stored for an entity. -/
def propsOf (st : Store) (e : Entity) : Properties := (storedOf st e).getD []

/-- The entity that a write to a variable goes to. -/
def entityAt (st : Store) (rec : NamedRecord) (var : String) : Option Entity :=
  match edgeIdentity rec var with
  | some (src,dst,label) => some (.edge (addressedRow st rec var src dst label))
  | none => (nodeIdField rec var).map .node

/-- One write of an operator to a row. -/
inductive RowWrite (E : Type) where
  | assign (a : Assignment E)
  | overlay (var : String) (expr : E) (merge : Bool)
  | erase (var property : String)

/-- Variable that a write goes through. -/
def RowWrite.var {E : Type} : RowWrite E → String
  | .assign a => a.var
  | .overlay var _ _ => var
  | .erase var _ => var

/-- An operator that writes properties for all rows. -/
inductive RowOperator (E : Type) where
  | setProperty (assignments : List (Assignment E))
  | setProperties (var : String) (expr : E) (merge : Bool)
  | removeProperties (items : List (String×String))

/-- What a write changes: properties of one entity, shown under one variable. -/
structure Writing where
  /-- The variable. -/
  var : String
  /-- The entity. -/
  entity : Entity
  /-- Names whose copies are refreshed. -/
  names : List String
  /-- All properties after the write. -/
  props : Properties

section Operators

variable {E : Type} (env : ExecEnv E)

/-- Run one write on a row. -/
def runWrite (rec : NamedRecord) : RowWrite E → Db NamedRecord
  | .assign a => setPropertyItem env rec a
  | .overlay var expr merge => setPropertiesRecord env var expr merge rec
  | .erase var property => removeItem env rec (.property var property)

/-- Run an operator on rows. -/
def execRowOperator (records : List NamedRecord) : RowOperator E → Db (List NamedRecord)
  | .setProperty assignments => execSetProperty env records assignments
  | .setProperties var expr merge => execSetProperties env records var expr merge
  | .removeProperties items => execRemove env records (items.map fun item => .property item.1 item.2)

/-- The writes of an operator to each row. -/
def RowOperator.writes : RowOperator E → List (RowWrite E)
  | .setProperty assignments => assignments.map .assign
  | .setProperties var expr merge => [.overlay var expr merge]
  | .removeProperties items => items.map fun item => .erase item.1 item.2

/-- What a write changes in a state, if it gets that far. -/
def writing (st : Store) (rec : NamedRecord) : RowWrite E → Option Writing
  | .assign a =>
    match entityAt st rec a.var,env.eval st a.value rec with
    | some e,.ok val => some ⟨a.var,e,[a.property],withProperty (propsOf st e) a.property val⟩
    | _,_ => none
  | .overlay var expr merge =>
    match entityAt st rec var,env.eval st expr rec with
    | some e,.ok (.map entries) =>
      match overlayMap (fun _ => .ok ()) merge (propsOf st e) entries with
      | .ok new => some ⟨var,e,(propsOf st e).map Prod.fst++new.map Prod.fst,new⟩
      | .error _ => none
    | _,_ => none
  | .erase var property =>
    (entityAt st rec var).map fun e => ⟨var,e,[property],removeProp (propsOf st e) property⟩

end Operators

/-- What a write leaves in the database. -/
structure Rewrites (w : Writing) (st st' : Store) : Prop where
  /-- Only the properties of the entity change. -/
  stored : ∀ e,storedOf st' e=if e=w.entity then some w.props else storedOf st e
  /-- The same relationships are stored. -/
  sameEdges : keys st'.edgeProps=keys st.edgeProps

/-- What a write leaves in the row. -/
structure Refreshes (w : Writing) (rec rec' : NamedRecord) : Prop where
  /-- The names of the write show the new properties. -/
  shown : ∀ p∈w.names,rec'.get (w.var++("."++p))=getProp w.props p
  /-- Other fields stay. -/
  other : ∀ key,(∀ p∈w.names,key≠w.var++("."++p)) → rec'.get key=rec.get key
  /-- The names of the fields stay distinct. -/
  distinct : DistinctNames rec'.fields

/-- What a write does that changes something. -/
structure WritesThrough (w : Writing) (st : Store) (rec : NamedRecord) (st' : Store)
    (rec' : NamedRecord) : Prop where
  /-- The entity is the one of the variable. -/
  addressed : entityAt st rec w.var=some w.entity
  /-- The entity was stored. -/
  present : (storedOf st w.entity).isSome=true
  /-- Properties under other names stay. -/
  kept : ∀ p∉w.names,getProp w.props p=getProp (propsOf st w.entity) p
  /-- The names of the new properties are distinct. -/
  distinct : DistinctNames w.props
  /-- The database. -/
  rewrites : Rewrites w st st'
  /-- The row. -/
  refreshes : Refreshes w rec rec'

section Writes

theorem firstEdgeSeq_congr {a b : Store} (h : keys a.edgeProps=keys b.edgeProps) (src dst : NodeId)
    (label : String) : firstEdgeSeq a src dst label=firstEdgeSeq b src dst label := by
  have hscan : ∀ p : Bytes → Bool,(scan a.edgeProps p).map Prod.fst=(scan b.edgeProps p).map Prod.fst := by
    intro p
    rw [scan_keys,scan_keys,h]
  have hkeys : (scanPrefix a.edgeProps (edgePropsPrefix src dst label)).map Prod.fst=
      (scanPrefix b.edgeProps (edgePropsPrefix src dst label)).map Prod.fst := by
    unfold scanPrefix
    cases prefixUpperBound (edgePropsPrefix src dst label) with
    | none | some upper => exact hscan _
  unfold firstEdgeSeq
  dsimp only
  cases ha : scanPrefix a.edgeProps (edgePropsPrefix src dst label) with
  | nil =>
    rw [ha] at hkeys
    rw [List.map_eq_nil_iff.mp hkeys.symm]
  | cons first rest =>
    rw [ha] at hkeys
    cases hb : scanPrefix b.edgeProps (edgePropsPrefix src dst label) with
    | nil =>
      rw [hb] at hkeys
      cases hkeys
    | cons other more =>
      rw [hb] at hkeys
      have hkey : first.1=other.1 := (List.cons.inj hkeys).1
      dsimp only
      rw [hkey]

variable {st st' : Store} {id : NodeId} {record : NodeRecord} {new : Properties} {rec : NamedRecord}

theorem rewrites_node {var : String} {names : List String}
    (hnodes : st'.nodes=(putNode st id {record with properties := new}).nodes)
    (hedges : st'.edgeProps=st.edgeProps) : Rewrites ⟨var,.node id,names,new⟩ st st' := by
  refine ⟨fun e => ?_,by rw [hedges]⟩
  cases e with
  | node other =>
    unfold storedOf recordAt
    rw [hnodes,putNode]
    dsimp only
    rw [get_put]
    by_cases hsame : other=id
    · rw [if_pos hsame,if_pos (by rw [hsame])]
      rfl
    · rw [if_neg hsame,if_neg fun heq => hsame (Entity.node.inj heq)]
  | edge key =>
    rw [if_neg (by simp)]
    unfold storedOf
    rw [hedges]

variable {st : Store} {labels : List String} {old : Option Properties} {new props : Properties} {p : String}

theorem rewrites_edge {key : Bytes} (hkey : key∈keys st.edgeProps) (var : String) (names : List String)
    (new : Properties) : Rewrites ⟨var,.edge key,names,new⟩ st {st with edgeProps := put st.edgeProps key new} := by
  refine ⟨fun e => ?_,keys_put_present hkey⟩
  cases e with
  | node other =>
    rw [if_neg (by simp)]
    rfl
  | edge other =>
    unfold storedOf
    dsimp only
    rw [get_put]
    by_cases hsame : other=key
    · rw [if_pos hsame,if_pos (by rw [hsame])]
    · rw [if_neg hsame,if_neg fun heq => hsame (Entity.edge.inj heq)]

variable {E : Type} {env : ExecEnv E}

theorem maintainNode_same (h : maintainNode env id labels old new st=(.ok (),st')) :
    st'.nodes=st.nodes ∧ st'.edgeProps=st.edgeProps := by
  have hkeeps : Keeps (fun other : Store => other.nodes=st.nodes ∧ other.edgeProps=st.edgeProps)
      (maintainNode env id labels old new) :=
    keeps_maintainNode (fun _ _ h => h) (fun _ _ h => h) env id labels old new
  have hdone := hkeeps st ⟨rfl,rfl⟩
  rw [h] at hdone
  exact hdone

theorem rewrites_then_maintain (var : String) (names : List String)
    (h : maintainNode env id labels old new (putNode st id {record with properties := props})= (.ok (),st')) :
    Rewrites ⟨var,.node id,names,props⟩ st st' := by
  have ⟨hnodes,hedges⟩ := maintainNode_same h
  exact rewrites_node hnodes hedges

theorem recordAt_of_getNode {old : Node} (h : getNode st id=.ok old) :
    ∃ record,recordAt st id=some record ∧ old=⟨id,record.labels,record.properties⟩ := by
  cases hrec : recordAt st id with
  | none =>
    rw [getNode_of_missing hrec] at h
    cases h
  | some record =>
    rw [getNode_of_recordAt hrec] at h
    exact ⟨record,rfl,(Except.ok.inj h).symm⟩

theorem recordAt_of_getRecord (h : getRecord st id=.ok record) : recordAt st id=some record := by
  cases hrec : recordAt st id with
  | none =>
    rw [getRecord_of_missing hrec] at h
    cases h
  | some other =>
    rw [getRecord_of_recordAt hrec] at h
    rw [Except.ok.inj h]

theorem rewriteRecord_ok {f : NodeRecord → NodeRecord} {u : Unit} {st₁ : Store} (hrec : recordAt st id=some record)
    (h : (inspect (fun st => getRecord st id) >>= fun record =>
      update fun st => putNode st id (f record) : Db Unit) st=(.ok u,st₁)) : putNode st id (f record)=st₁ := by
  have ⟨record',hrecord',hwrite⟩ := ok_of_inspect h
  rw [Option.some.inj (hrec.symm.trans (recordAt_of_getRecord hrecord'))]
  exact (Prod.mk.inj hwrite).2

theorem refreshes_showProperty (h : DistinctNames rec.fields) (var property : String)
    (e : Entity) (props : Properties) (val : Value) :
    Refreshes ⟨var,e,[property],withProperty props property val⟩ rec
      (showProperty rec var property val) := by
  refine ⟨fun p hp => ?_,fun key hkey => ?_,distinct_showProperty h var property val⟩
  · rw [List.mem_singleton.mp hp,get_showProperty h,if_pos rfl,withProperty]
    split_ifs
    · rw [getProp_removeProp,if_pos rfl]
    · rw [getProp_insertProp,if_pos rfl]
  · rw [get_showProperty h,if_neg (hkey property (List.mem_singleton_self _))]

theorem refreshes_remove (h : DistinctNames rec.fields) (var property : String) (e : Entity)
    (props : Properties) : Refreshes ⟨var,e,[property],removeProp props property⟩ rec
    (rec.remove (var++("."++property))) := by
  refine ⟨fun p hp => ?_,fun key hkey => ?_,distinct_remove h _⟩
  · rw [List.mem_singleton.mp hp,get_remove h,if_pos rfl,getProp_removeProp,if_pos rfl]
  · rw [get_remove h,if_neg (hkey property (List.mem_singleton_self _))]

theorem refreshes_showProperties (h : DistinctNames rec.fields) (var : String) (e : Entity) (old : Properties)
    (hnew : DistinctNames new) : Refreshes ⟨var,e,old.map Prod.fst++new.map Prod.fst,new⟩ rec
    (showProperties rec var old new) :=
  ⟨fun _ hp => get_showProperties h hnew hp,fun _ hkey => get_showProperties_other h hkey,
    distinct_showProperties h var old new⟩

theorem getProp_withProperty_other {property : String} (h : p∉[property]) (val : Value) :
    getProp (withProperty props property val) p=getProp props p := by
  have hne : p≠property := fun heq => h (heq ▸ List.mem_singleton_self _)
  unfold withProperty
  split_ifs
  · rw [getProp_removeProp,if_neg hne]
  · rw [getProp_insertProp,if_neg hne]

theorem getProp_outside {old : Properties} (h : p∉old.map Prod.fst++new.map Prod.fst) : getProp new p=getProp old p := by
  have hmissing : ∀ props : Properties,p∉props.map Prod.fst → getProp props p=none := by
    intro props hp
    cases hget : getProp props p with
    | none => rfl
    | some value =>
      exact absurd (List.mem_map.mpr ⟨(p,value),ValueEquality.mem_of_getProp hget,rfl⟩) hp
  rw [hmissing new fun hp => h (List.mem_append_right _ hp),
    hmissing old fun hp => h (List.mem_append_left _ hp)]

end Writes

/-- Maps of the database: all property maps have distinct names. -/
def PropsDistinct (st : Store) : Prop := ∀ e props,storedOf st e=some props → DistinctNames props

theorem PropsDistinct.propsOf {st : Store} (h : PropsDistinct st) (e : Entity) :
    DistinctNames (propsOf st e) := by
  unfold PropertyCopies.propsOf
  cases hprops : storedOf st e with
  | none => exact List.nodup_nil
  | some props => exact h e props hprops

/-- A relationship write goes to a stored row. -/
def InPlaceAt (st : Store) (rec : NamedRecord) (var : String) : Prop :=
  ∀ key,entityAt st rec var=some (.edge key) → key∈keys st.edgeProps

section Effects

variable {E : Type} {env : ExecEnv E} {st st' : Store} {rec rec' : NamedRecord}
variable {var : String} {id : NodeId} {done : Writing} {st st' : Store} {rec rec' : NamedRecord}

theorem entityAt_edge (st : Store) {src dst : NodeId} {label : String}
    (h : edgeIdentity rec var=some (src,dst,label)) :
    entityAt st rec var=some (.edge (addressedRow st rec var src dst label)) := by
  rw [entityAt,h]

theorem entityAt_node (st : Store) (hedge : edgeIdentity rec var=none) (h : nodeIdField rec var=some id) :
    entityAt st rec var=some (.node id) := by
  rw [entityAt,hedge]
  dsimp only
  rw [h]
  rfl

theorem entityAt_none (st : Store) (hedge : edgeIdentity rec var=none) (h : nodeIdField rec var=none) :
    entityAt st rec var=none := by
  rw [entityAt,hedge]
  dsimp only
  rw [h]
  rfl

variable {record : NodeRecord} {w : RowWrite E} {new : Properties} {value : Value} {entries : List (String×Value)}
  {merge : Bool}

theorem propsOf_node (h : recordAt st id=some record) :
    storedOf st (.node id)=some record.properties ∧ propsOf st (.node id)=record.properties := by
  have hstored : storedOf st (.node id)=some record.properties := by
    rw [storedOf,h]
    rfl
  exact ⟨hstored,by rw [propsOf,hstored]; rfl⟩

theorem propsOf_edge (var : String) (src dst : NodeId) (label : String) :
    propsOf st (.edge (addressedRow st rec var src dst label))=
      getEdgePropertiesAt st src dst label (edgeSeqOf rec var src dst label st) := rfl

theorem writeEdgeProperty_eq (var : String) (src dst : NodeId) (label property : String)
    (val : Value) : writeEdgeProperty rec var src dst label property val st=
      {st with edgeProps := put st.edgeProps (addressedRow st rec var src dst label) (withProperty
        (propsOf st (.edge (addressedRow st rec var src dst label))) property val)} := by
  unfold writeEdgeProperty addressedRow edgeSeqOf
  cases edgeSeqField rec var with
  | some seq | none => rfl

theorem writesThrough_edge {w : Writing} {key : Bytes} (hentity : w.entity=.edge key)
    (haddressed : entityAt st rec w.var=some w.entity) (hplace : InPlaceAt st rec w.var)
    (hkept : ∀ p∉w.names,getProp w.props p=getProp (propsOf st w.entity) p)
    (hdistinct : DistinctNames w.props)
    (hst : st'={st with edgeProps := put st.edgeProps key w.props}) (hrec : Refreshes w rec rec') :
    WritesThrough w st rec st' rec' := by
  have hkey : key∈keys st.edgeProps := hplace key (hentity ▸ haddressed)
  have ⟨props,hprops⟩ := mem_keys.mp hkey
  refine ⟨haddressed,?_,hkept,hdistinct,?_,hrec⟩
  · rw [hentity,storedOf,hprops]
    rfl
  · have ⟨var,entity,names,new⟩ := w
    dsimp only at hentity hst
    rw [hst,hentity]
    exact rewrites_edge hkey var names new

theorem writesThrough_node {w : Writing} (hentity : w.entity=.node id) (hrecord : recordAt st id=some record)
    (haddressed : entityAt st rec w.var=some w.entity)
    (hkept : ∀ p∉w.names,getProp w.props p=getProp (propsOf st w.entity) p) (hdistinct : DistinctNames w.props)
    {labels : List String} {old : Option Properties}
    (hst : maintainNode env id labels old new (putNode st id {record with properties := w.props})= (.ok (),st'))
    (hrec : Refreshes w rec rec') : WritesThrough w st rec st' rec' := by
  refine ⟨haddressed,?_,hkept,hdistinct,?_,hrec⟩
  · rw [hentity,(propsOf_node hrecord).1]
    rfl
  · have ⟨var,entity,names,props⟩ := w
    dsimp only at hentity hst
    rw [hentity]
    exact rewrites_then_maintain var names hst

/-- What a write does: nothing when it does not get to an entity, else it writes
through to the entity. -/
def Effect (env : ExecEnv E) (w : RowWrite E) (st : Store) (rec : NamedRecord) (st' : Store)
    (rec' : NamedRecord) : Prop :=
  (writing env st rec w=none ∧ rec'=rec ∧ st'=st) ∨
    ∃ done,writing env st rec w=some done ∧ WritesThrough done st rec st' rec'

theorem effect_assign {a : Assignment E} (hrec : DistinctNames rec.fields) (hst : PropsDistinct st)
    (hplace : InPlaceAt st rec a.var) (h : setPropertyItem env rec a st=(.ok rec',st')) :
    Effect env (.assign a) st rec st' rec' := by
  unfold setPropertyItem at h
  cases hedge : edgeIdentity rec a.var with
  | some identity =>
    have ⟨src,dst,label⟩ := identity
    rw [hedge] at h
    have ⟨val,hval,h⟩ := ok_of_inspect h
    have ⟨_,_,h⟩ := ok_of_inspect h
    have ⟨hrow,hstore⟩ := Prod.mk.inj h
    have hentity := entityAt_edge st hedge
    refine Or.inr ⟨_,by rw [writing,hentity,hval],?_⟩
    rw [writeEdgeProperty_eq] at hstore
    rw [←Except.ok.inj hrow]
    exact writesThrough_edge rfl hentity hplace (fun p hp => getProp_withProperty_other hp val)
      ((hst.propsOf _).withProperty _ _) hstore.symm (refreshes_showProperty hrec _ _ _ _ val)
  | none =>
    rw [hedge] at h
    dsimp only at h
    cases hnode : nodeIdField rec a.var with
    | none =>
      rw [hnode] at h
      have ⟨hrow,hstore⟩ := Prod.mk.inj h
      exact Or.inl ⟨by rw [writing,entityAt_none st hedge hnode],(Except.ok.inj hrow).symm,hstore.symm⟩
    | some id =>
      rw [hnode] at h
      have ⟨old,hold,h⟩ := ok_of_inspect h
      have ⟨val,hval,h⟩ := ok_of_inspect h
      have ⟨_,_,h⟩ := ok_of_inspect h
      have ⟨u,st₂,hset,hlast⟩ := ok_of_bind h
      have ⟨hrow,hstore⟩ := Prod.mk.inj hlast
      have ⟨record,hrecord,hold'⟩ := recordAt_of_getNode hold
      have ⟨u',st₁,hwrite,hmaintain⟩ := ok_of_bind hset
      have ⟨_,_,hwrite⟩ := ok_of_inspect hwrite
      have hput := rewriteRecord_ok hrecord hwrite
      have hentity := entityAt_node st hedge hnode
      refine Or.inr ⟨_,by rw [writing,hentity,hval],?_⟩
      rw [←hput,←(propsOf_node hrecord).2,hstore] at hmaintain
      rw [←Except.ok.inj hrow]
      exact writesThrough_node rfl hrecord hentity (fun p hp => getProp_withProperty_other hp val)
        ((hst.propsOf _).withProperty _ _) hmaintain (refreshes_showProperty hrec _ _ _ _ val)

theorem effect_erase {var property : String} (hrec : DistinctNames rec.fields) (hst : PropsDistinct st)
    (hplace : InPlaceAt st rec var) (h : removeItem env rec (.property var property) st=(.ok rec',st')) :
    Effect env (.erase var property) st rec st' rec' := by
  have hkept : ∀ (e : Entity),∀ p∉[property],
      getProp (removeProp (propsOf st e) property) p=getProp (propsOf st e) p := by
    intro e p hp
    have hne : p≠property := fun heq => hp (heq ▸ List.mem_singleton_self _)
    rw [getProp_removeProp,if_neg hne]
  unfold removeItem at h
  dsimp only at h
  cases hedge : edgeIdentity rec var with
  | some identity =>
    have ⟨src,dst,label⟩ := identity
    rw [hedge] at h
    have ⟨hrow,hstore⟩ := Prod.mk.inj h
    have hentity := entityAt_edge st hedge
    refine Or.inr ⟨_,by rw [writing,hentity,Option.map_some],?_⟩
    rw [writeEdgeProperty_eq] at hstore
    rw [←Except.ok.inj hrow]
    exact writesThrough_edge rfl hentity hplace (hkept _) ((hst.propsOf _).removeProp _) hstore.symm
      (refreshes_remove hrec _ _ _ _)
  | none =>
    rw [hedge] at h
    dsimp only at h
    cases hnode : nodeIdField rec var with
    | none =>
      rw [hnode] at h
      have ⟨hrow,hstore⟩ := Prod.mk.inj h
      exact Or.inl ⟨by rw [writing,entityAt_none st hedge hnode,Option.map_none],
        (Except.ok.inj hrow).symm,hstore.symm⟩
    | some id =>
      rw [hnode] at h
      have ⟨old,hold,h⟩ := ok_of_inspect h
      have ⟨u,st₂,hset,hlast⟩ := ok_of_bind h
      have ⟨hrow,hstore⟩ := Prod.mk.inj hlast
      have ⟨record,hrecord,hold'⟩ := recordAt_of_getNode hold
      have ⟨u',st₁,hwrite,hmaintain⟩ := ok_of_bind hset
      have hput := rewriteRecord_ok hrecord hwrite
      have hentity := entityAt_node st hedge hnode
      refine Or.inr ⟨_,by rw [writing,hentity,Option.map_some],?_⟩
      rw [←hput,←(propsOf_node hrecord).2,hstore] at hmaintain
      rw [←Except.ok.inj hrow]
      exact writesThrough_node rfl hrecord hentity (hkept _) ((hst.propsOf _).removeProp _) hmaintain
        (refreshes_remove hrec _ _ _ _)

theorem map_of_mapEntries (h : mapEntries value=.ok (some entries)) : value=.map entries := by
  cases value with
  | map other => rw [Option.some.inj (Except.ok.inj h)]
  | _ => cases h

theorem null_of_mapEntries (h : mapEntries value=.ok none) : value=.null := by
  cases value with
  | null => rfl
  | _ => cases h

theorem distinct_overlayMap {check : Value → Result Unit} {old : Properties} (h : DistinctNames old)
    (hrun : overlayMap check merge old entries=.ok new) : DistinctNames new := by
  unfold overlayMap at hrun
  cases merge with
  | true => exact DistinctNames.overlay h hrun
  | false => exact DistinctNames.overlay (show DistinctNames [] from List.nodup_nil) hrun

theorem effect_overlay {expr : E} (hrec : DistinctNames rec.fields) (hst : PropsDistinct st)
    (hplace : InPlaceAt st rec var) (h : setPropertiesRecord env var expr merge rec st=(.ok rec',st')) :
    Effect env (.overlay var expr merge) st rec st' rec' := by
  unfold setPropertiesRecord at h
  cases hedge : edgeIdentity rec var with
  | some identity =>
    have ⟨src,dst,label⟩ := identity
    rw [hedge] at h
    have ⟨seq,hseq,h⟩ := ok_of_inspect h
    have ⟨value,hvalue,h⟩ := ok_of_inspect h
    have ⟨found,hfound,h⟩ := ok_of_inspect h
    have hentity := entityAt_edge st hedge
    cases found with
    | none =>
      have ⟨hrow,hstore⟩ := Prod.mk.inj h
      exact Or.inl ⟨by rw [writing,hentity,hvalue,null_of_mapEntries hfound],
        (Except.ok.inj hrow).symm,hstore.symm⟩
    | some entries =>
      have ⟨old,hold,h⟩ := ok_of_inspect h
      have ⟨new,hnew,h⟩ := ok_of_inspect h
      have ⟨hrow,hstore⟩ := Prod.mk.inj h
      have hprops : old=propsOf st (.edge (addressedRow st rec var src dst label)) := by
        rw [propsOf_edge,←Except.ok.inj hold,←Except.ok.inj hseq]
      rw [hprops] at hnew hrow
      have hlaid : overlayMap (fun _ => .ok ()) merge
          (propsOf st (.edge (addressedRow st rec var src dst label))) entries=.ok new :=
        overlayEntries_unchecked hnew
      have hdistinct := distinct_overlayMap (hst.propsOf _) hlaid
      have hwriting : writing env st rec (.overlay var expr merge)=
          some ⟨var,.edge (addressedRow st rec var src dst label),
            (propsOf st (.edge (addressedRow st rec var src dst label))).map Prod.fst++new.map Prod.fst,
            new⟩ := by
        rw [writing,hentity,hvalue,map_of_mapEntries hfound]
        dsimp only
        rw [hlaid]
      refine Or.inr ⟨_,hwriting,?_⟩
      rw [←Except.ok.inj hseq] at hstore
      rw [←Except.ok.inj hrow]
      exact writesThrough_edge rfl hentity hplace (fun p hp => getProp_outside hp) hdistinct
        hstore.symm (refreshes_showProperties hrec _ _ _ hdistinct)
  | none =>
    rw [hedge] at h
    dsimp only at h
    cases hnode : nodeIdField rec var with
    | none =>
      rw [hnode] at h
      have ⟨hrow,hstore⟩ := Prod.mk.inj h
      exact Or.inl ⟨by rw [writing,entityAt_none st hedge hnode],(Except.ok.inj hrow).symm,hstore.symm⟩
    | some id =>
      rw [hnode] at h
      have ⟨value,hvalue,h⟩ := ok_of_inspect h
      have ⟨found,hfound,h⟩ := ok_of_inspect h
      have hentity := entityAt_node st hedge hnode
      cases found with
      | none =>
        have ⟨hrow,hstore⟩ := Prod.mk.inj h
        exact Or.inl ⟨by rw [writing,hentity,hvalue,null_of_mapEntries hfound],
          (Except.ok.inj hrow).symm,hstore.symm⟩
      | some entries =>
        have ⟨old,hold,h⟩ := ok_of_inspect h
        have ⟨new,hnew,h⟩ := ok_of_inspect h
        have ⟨u,st₂,hset,hlast⟩ := ok_of_bind h
        have ⟨hrow,hstore⟩ := Prod.mk.inj hlast
        have ⟨record,hrecord,hold'⟩ := recordAt_of_getNode hold
        have ⟨u',st₁,hwrite,hmaintain⟩ := ok_of_bind hset
        have hput := rewriteRecord_ok hrecord hwrite
        have hprops : old.properties=propsOf st (.node id) := by
          rw [hold',(propsOf_node hrecord).2]
        rw [hprops] at hnew hrow
        have hdistinct := distinct_overlayMap (hst.propsOf _) hnew
        have hwriting : writing env st rec (.overlay var expr merge)=
            some ⟨var,.node id,(propsOf st (.node id)).map Prod.fst++new.map Prod.fst,new⟩ := by
          rw [writing,hentity,hvalue,map_of_mapEntries hfound]
          dsimp only
          rw [hnew]
        refine Or.inr ⟨_,hwriting,?_⟩
        rw [←hput,hstore] at hmaintain
        rw [←Except.ok.inj hrow]
        exact writesThrough_node rfl hrecord hentity (fun p hp => getProp_outside hp) hdistinct
          hmaintain (refreshes_showProperties hrec _ _ _ hdistinct)

theorem runWrite_effect (hrec : DistinctNames rec.fields) (hst : PropsDistinct st)
    (hplace : InPlaceAt st rec w.var) (h : runWrite env rec w st=(.ok rec',st')) : Effect env w st rec st' rec' := by
  cases w with
  | assign a => exact effect_assign hrec hst hplace h
  | overlay var expr merge => exact effect_overlay hrec hst hplace h
  | erase var property => exact effect_erase hrec hst hplace h

theorem writing_var {st : Store} {rec : NamedRecord} (h : writing env st rec w=some done) : done.var=w.var := by
  unfold writing at h
  cases w with
  | assign a =>
    dsimp only at h
    split at h
    · rw [←Option.some.inj h]
      rfl
    · cases h
  | overlay var expr merge =>
    dsimp only at h
    split at h
    · split at h
      · rw [←Option.some.inj h]
        rfl
      · cases h
    · cases h
  | erase var property =>
    have ⟨e,_,hdone⟩ := Option.map_eq_some_iff.mp h
    rw [←hdone]
    rfl

theorem WritesThrough.stored (h : WritesThrough done st rec st' rec') (e : Entity) :
    (storedOf st' e).isSome=(storedOf st e).isSome := by
  rw [h.rewrites.stored]
  by_cases he : e=done.entity
  · rw [if_pos he,he,h.present]
    rfl
  · rw [if_neg he]

theorem WritesThrough.propsOf_self (h : WritesThrough done st rec st' rec') : propsOf st' done.entity=done.props := by
  rw [propsOf,h.rewrites.stored,if_pos rfl]
  rfl

theorem WritesThrough.propsOf_other (h : WritesThrough done st rec st' rec') {e : Entity} {p : String}
    (hout : e=done.entity → p∉done.names) : getProp (propsOf st' e) p=getProp (propsOf st e) p := by
  by_cases he : e=done.entity
  · rw [he,h.propsOf_self,h.kept p (hout he)]
  · unfold propsOf
    rw [h.rewrites.stored,if_neg he]

end Effects

end GraphDbLite.PropertyCopies
