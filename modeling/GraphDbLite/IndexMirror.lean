import GraphDbLite.NodeView
import GraphDbLite.WriteOperators

/-!
# Secondary indexes mirror the node store

Every index table should hold exactly one row for each stored node that carries
its label and has all covered properties. All write operators keep this, in any
order and on any records, also when they stop with an error. Creating an index
fills it from the label scan, which compares with LIKE: it keeps the mirror
exactly when every node it finds with all covered properties carries the label.
-/

namespace GraphDbLite.IndexMirror

open ByteStrings GraphTypes OrderedTable StatefulActions GraphStore NodeStorage
open LikePattern SecondaryIndex FullText WriteOperators NodeView

section Mirror

variable (enc : Value → Bytes)

/-- The row that a node record gives in an index: the record carries the label
and has a value for every covered property. -/
def nodeRow (id : NodeId) (record : Option NodeRecord) (label : String) (properties : List String) :
    Option Bytes :=
  match record with
  | none => none
  | some r => if label∈r.labels then rowOf enc id properties (some r.properties) else none

/-- Every index table holds exactly the rows of a collection of records. -/
structure Mirrors (st : Store) (view : NodeId → Option NodeRecord) : Prop where
  /-- Index tables are named after checked definitions. -/
  names : WellNamed st
  /-- No row is stale, missing or phantom. -/
  rows : ∀ label properties t,IndexDef label properties →
    get st.indexTables (indexTableName label properties)=some t →
    ∀ key,key∈keys t ↔ ∃ id,nodeRow enc id (view id) label properties=some key

/-- Every index table holds exactly the rows of the stored nodes. -/
def IndexesMirror (st : Store) : Prop := Mirrors enc st (recordAt st)

variable {enc}

theorem rowOf_id {id other : NodeId} {p q : List String} {x y : Option Properties} {key : Bytes}
    (hid : rowOf enc id p x=some key) (hother : rowOf enc other q y=some key) : id=other := by
  unfold rowOf at hid hother
  have ⟨values,_,hkey⟩ := Option.map_eq_some_iff.mp hid
  have ⟨more,_,hsame⟩ := Option.map_eq_some_iff.mp hother
  rw [←hsame,compositeIndexKey,compositeIndexKey] at hkey
  have htail := (List.append_inj' hkey (by rw [toBeBytes_length,toBeBytes_length])).2
  exact toBeBytes_inj.mp htail

theorem rowOf_of_nodeRow {id : NodeId} {record : Option NodeRecord} {label : String}
    {properties : List String} {key : Bytes} (h : nodeRow enc id record label properties=some key) :
    ∃ props,rowOf enc id properties props=some key := by
  cases record with
  | none => cases h
  | some r =>
    unfold nodeRow at h
    dsimp only at h
    split_ifs at h
    exact ⟨_,h⟩

variable {st st' : Store}

theorem Mirrors.refreshed {view : NodeId → Option NodeRecord}
    (h : Mirrors enc st view) {id : NodeId} {labels : List String} {old new : Option Properties}
    {r : Option NodeRecord}
    (href : Refreshed (fun l _ => decide (l∈labels)) (refreshRows enc id old new) st st')
    (hin : ∀ l p,l∈labels → ∀ key,nodeRow enc id r l p=some key ↔
      rowOf enc id p new=some key ∨
        rowOf enc id p old≠some key ∧ nodeRow enc id (view id) l p=some key)
    (hout : ∀ l p,l∉labels → nodeRow enc id r l p=nodeRow enc id (view id) l p) :
    Mirrors enc st' fun other => if other=id then r else view other := by
  refine ⟨href.wellNamed h.names,fun label properties t' hdef hget key => ?_⟩
  rw [href.tables label properties hdef] at hget
  have ⟨t,ht,hmap⟩ := Option.map_eq_some_iff.mp hget
  have hrows := h.rows label properties t hdef ht key
  by_cases hl : label∈labels
  · rw [if_pos (decide_eq_true hl)] at hmap
    rw [←hmap,mem_keys_refreshRows,hrows]
    constructor
    · intro hkey
      rcases hkey with hnew|⟨hold,other,hother⟩
      · exact ⟨id,by rw [if_pos rfl]; exact (hin label properties hl key).mpr (Or.inl hnew)⟩
      · by_cases hid : other=id
        · rw [hid] at hother
          exact ⟨id,by rw [if_pos rfl]; exact (hin label properties hl key).mpr (Or.inr ⟨hold,hother⟩)⟩
        · exact ⟨other,by rw [if_neg hid]; exact hother⟩
    · intro hkey
      have ⟨other,hother⟩ := hkey
      by_cases hid : other=id
      · rw [hid,if_pos rfl] at hother
        rcases (hin label properties hl key).mp hother with hnew|⟨hold,hbefore⟩
        · exact Or.inl hnew
        · exact Or.inr ⟨hold,id,hbefore⟩
      · rw [if_neg hid] at hother
        have ⟨props,hrow⟩ := rowOf_of_nodeRow hother
        exact Or.inr ⟨fun hold => hid (rowOf_id hrow hold),other,hother⟩
  · rw [if_neg (by simpa using hl)] at hmap
    rw [←hmap,hrows]
    have hsame : ∀ other,nodeRow enc other (if other=id then r else view other) label properties=
        nodeRow enc other (view other) label properties := by
      intro other
      by_cases hid : other=id
      · rw [if_pos hid,hid]
        exact hout label properties hl
      · rw [if_neg hid]
    simp only [hsame]

theorem Mirrors.congr {view view' : NodeId → Option NodeRecord} (h : Mirrors enc st view)
    (htables : st'.indexTables=st.indexTables) (hview : ∀ id,view' id=view id) : Mirrors enc st' view' := by
  have hsame : view'=view := funext hview
  refine ⟨?_,?_⟩
  · intro name hname
    rw [htables] at hname
    exact h.names name hname
  · rw [hsame,htables]
    exact h.rows

/-- The inductive invariant: a well-formed database without full-text tables
whose indexes mirror the nodes. -/
structure IndexInv (enc : Value → Bytes) (st : Store) : Prop where
  /-- The node tables are well formed. -/
  nodes : NodesOk st
  /-- There is no full-text index. -/
  noFts : st.ftsTables=empty
  /-- The indexes mirror the nodes. -/
  mirror : IndexesMirror enc st

theorem indexInv_freshStore : IndexInv enc freshStore := by
  refine ⟨nodesOk_freshStore,rfl,⟨?_,?_⟩⟩
  · intro name hname
    exact absurd hname List.not_mem_nil
  · intro label properties t _ hget
    rw [freshStore,get_empty] at hget
    cases hget

theorem IndexInv.of_unseen (h : IndexInv enc st) (hsame : Unseen st st') : IndexInv enc st' :=
  ⟨h.nodes.of_unseen hsame,hsame.ftsTables.trans h.noFts,
    h.mirror.congr hsame.indexTables hsame.recordAt⟩

end Mirror

variable {st : Store}

theorem updateFtsForNode_noFts (h : st.ftsTables=empty) (engine : FtsEngine) (id : NodeId) (labels : List String)
    (old : Option Properties) (new : Properties) : updateFtsForNode engine id labels old new st=(.ok (),st) := by
  have hlist : ∀ label,listFulltextIndexesForLabel st label=[] := by
    intro label
    rw [listFulltextIndexesForLabel,listAllFulltextIndexes,h]
    rfl
  unfold updateFtsForNode
  induction labels with
  | nil => rfl
  | cons label rest ih =>
    have hone : updateFtsForLabel engine id label old new st=(.ok (),st) := by
      unfold updateFtsForLabel
      rw [inspect_ok (by rfl),hlist]
      rfl
    rw [forEach,bind_ok hone]
    exact ih

theorem removeFtsForLabel_noFts (h : st.ftsTables=empty) (id : NodeId) (label : String) (props : Properties) :
    removeFtsForLabel id label props st=(.ok (),st) := by
  have hlist : listFulltextIndexesForLabel st label=[] := by
    rw [listFulltextIndexesForLabel,listAllFulltextIndexes,h]
    rfl
  unfold removeFtsForLabel
  rw [inspect_ok (by rfl),hlist]
  rfl

theorem removeFtsForNode_noFts (h : st.ftsTables=empty) (id : NodeId) (labels : List String)
    (props : Properties) : removeFtsForNode id labels props st=(.ok (),st) := by
  unfold removeFtsForNode
  induction labels with
  | nil => rfl
  | cons label rest ih =>
    rw [forEach,bind_ok (removeFtsForLabel_noFts h id label props)]
    exact ih

section Operators

variable {E : Type} {env : ExecEnv E}
variable {id : NodeId} {st : Store} {old : Node}

/-- A node write followed by its maintenance succeeds and keeps the invariant. -/
theorem IndexInv.maintained {st st₁ : Store} (h : IndexInv env.enc st)
    {record : Option NodeRecord} (hw : RecordWritten id record st st₁) {labels : List String}
    {old : Option Properties} {new : Properties}
    (hin : ∀ l p,l∈labels → ∀ key,nodeRow env.enc id record l p=some key ↔
      rowOf env.enc id p (some new)=some key ∨
        rowOf env.enc id p old≠some key ∧ nodeRow env.enc id (recordAt st id) l p=some key)
    (hout : ∀ l p,l∉labels →
      nodeRow env.enc id record l p=nodeRow env.enc id (recordAt st id) l p) :
    IndexInv env.enc (maintainNode env id labels old new st₁).2 := by
  have hbefore : Mirrors env.enc st₁ (recordAt st) := h.mirror.congr hw.indexTables fun _ => rfl
  obtain ⟨st₂,hrun,href⟩ := updateIndexesForNode_ok hbefore.names id labels old new
  have hafter := hbefore.refreshed href hin hout
  have hfts : st₂.ftsTables=empty := by
    rw [href.rest]
    exact hw.ftsTables.trans h.noFts
  have hnodes : st₂.nodes=st₁.nodes := by rw [href.rest]
  have hrest : NodesOk st₂ := by
    rw [href.rest]
    exact ⟨hw.ok.ids,hw.ok.counter,hw.ok.columns,hw.ok.adjOut,hw.ok.adjIn⟩
  unfold maintainNode
  rw [bind_ok hrun,updateFtsForNode_noFts hfts]
  refine ⟨hrest,hfts,hafter.congr rfl fun other => ?_⟩
  rw [recordAt,hnodes]
  exact hw.view other

/-- A node write that keeps the labels and is maintained with the old and new
properties keeps the invariant. -/
theorem IndexInv.rewritten {st st₁ : Store} (h : IndexInv env.enc st) {id : NodeId}
    {record : NodeRecord} (hrec : recordAt st id=some record) {new : Properties}
    (hw : RecordWritten id (some {record with properties := new}) st st₁) :
    IndexInv env.enc (maintainNode env id record.labels (some record.properties) new st₁).2 := by
  refine h.maintained hw ?_ ?_
  · intro l p hl key
    rw [hrec,nodeRow,nodeRow]
    dsimp only
    rw [if_pos hl,if_pos hl]
    constructor
    · intro hkey
      exact Or.inl hkey
    · intro hkey
      rcases hkey with hnew|⟨hold,hbefore⟩
      · exact hnew
      · exact absurd hbefore hold
  · intro l p hl
    rw [hrec,nodeRow,nodeRow]
    dsimp only
    rw [if_neg hl,if_neg hl]

theorem IndexInv.createIndexedNode (h : IndexInv env.enc st) (labels : List String) (props : Properties) :
    IndexInv env.enc (createIndexedNode env labels props st).2 := by
  unfold WriteOperators.createIndexedNode
  rcases createNode_spec h.nodes labels props with ⟨e,herror⟩|⟨id,st₁,hrun,hfresh,hw⟩
  · rw [bind_error herror]
    exact h
  · have hmem : ∀ l,l∈labels.insertionSort (· ≤ ·) ↔ l∈labels :=
      fun l => (List.perm_insertionSort _ labels).mem_iff
    have hkept : IndexInv env.enc (maintainNode env id labels none props st₁).2 := by
      refine h.maintained hw ?_ ?_
      · intro l p hl key
        rw [hfresh,nodeRow,nodeRow]
        dsimp only
        rw [if_pos ((hmem l).mpr hl)]
        simp
      · intro l p hl
        rw [hfresh,nodeRow,nodeRow]
        dsimp only
        rw [if_neg fun hx => hl ((hmem l).mp hx)]
    rw [bind_ok hrun]
    exact keeps_then_pure hkept _

theorem keeps_createNodeOp (rec : NamedRecord) (s : CreateState) (labels : List String)
    (nodeAlias : Option String) (properties : List (String×E)) :
    Keeps (IndexInv env.enc) (createNodeOp env rec s labels nodeAlias properties) := by
  refine keeps_reading fun props => ?_
  exact keeps_bind (fun st h => h.createIndexedNode labels props) fun id => keeps_pure _ _

theorem keeps_createEdgeOp (rec : NamedRecord) (s : CreateState) (srcAlias dstAlias edgeType : String)
    (relAlias : Option String) (properties : List (String×E)) :
    Keeps (IndexInv env.enc) (createEdgeOp env rec s srcAlias dstAlias edgeType relAlias properties) := by
  refine keeps_reading fun src => ?_
  refine keeps_reading fun dst => ?_
  refine keeps_reading fun props => ?_
  exact keeps_bind (fun st h => h.of_unseen (unseen_createEdge st src dst edgeType props)) fun _ =>
    keeps_pure _ _

/-- Rewriting the properties of a node, with the indexes, keeps the invariant. -/
theorem IndexInv.rewriteRecord (h : IndexInv env.enc st) (hold : getNode st id=.ok old)
    (f : Properties → Properties) :
    IndexInv env.enc (((inspect (fun st => getRecord st id) >>= fun record =>
      update fun st => putNode st id {record with properties := f record.properties}) >>= fun _ =>
        maintainNode env id old.labels (some old.properties) (f old.properties) : Db Unit) st).2 := by
  have hspec := rewriteRecord_spec h.nodes id fun record => {record with properties := f record.properties}
  rcases hspec with ⟨-,herror⟩|⟨record,hrec,hrun,hw⟩
  · rw [bind_error herror]
    exact h
  · have hnode : old=⟨id,record.labels,record.properties⟩ :=
      Except.ok.inj (hold.symm.trans (getNode_of_recordAt hrec))
    rw [bind_ok hrun,hnode]
    exact h.rewritten hrec hw

theorem IndexInv.setIndexedProperty (h : IndexInv env.enc st) (hold : getNode st id=.ok old) (property : String)
    (val : Value) : IndexInv env.enc (setIndexedProperty env id old property val st).2 := by
  unfold WriteOperators.setIndexedProperty
  rcases setNodeProperty_spec h.nodes id property val with ⟨e,herror⟩|⟨record,st₁,hrec,hrun,hw⟩
  · rw [bind_error herror]
    exact h
  · have hnode : old=⟨id,record.labels,record.properties⟩ :=
      Except.ok.inj (hold.symm.trans (getNode_of_recordAt hrec))
    rw [bind_ok hrun,hnode]
    exact h.rewritten hrec hw

theorem IndexInv.setIndexedProperties (h : IndexInv env.enc st) (hold : getNode st id=.ok old)
    (new : Properties) : IndexInv env.enc (setIndexedProperties env id old new st).2 :=
  h.rewriteRecord hold fun _ => new

theorem IndexInv.removeIndexedProperty (h : IndexInv env.enc st) (hold : getNode st id=.ok old)
    (property : String) : IndexInv env.enc (removeIndexedProperty env id old property st).2 :=
  h.rewriteRecord hold fun props => removeProp props property

theorem keeps_setLabelRecord (var : String) (labels : List String) (rec : NamedRecord) :
    Keeps (IndexInv env.enc) (setLabelRecord env var labels rec) := by
  intro st h
  unfold setLabelRecord
  cases nodeIdField rec var with
  | none => exact h
  | some id =>
    dsimp only
    cases hrec : recordAt st id with
    | none =>
      have hmissing := addNodeLabels_missing hrec labels
      rcases hmissing with hfail|hnone
      · rw [bind_error hfail]
        exact h
      · rw [bind_ok hnone,inspect_error (by exact getNode_of_missing hrec)]
        exact h
    | some record =>
      have ⟨st₁,added,hrun,hw,hmem,_⟩ := addNodeLabels_spec h.nodes id labels hrec
      have hrec₁ : recordAt st₁ id=some {record with labels := added} := by
        rw [hw.view id,if_pos rfl]
      have hkept : IndexInv env.enc (maintainNode env id added none record.properties st₁).2 := by
        refine h.maintained hw ?_ ?_
        · intro l p hl key
          rw [hrec,nodeRow,nodeRow]
          dsimp only
          rw [if_pos hl]
          constructor
          · intro hkey
            exact Or.inl hkey
          · intro hkey
            rcases hkey with hnew|⟨-,hbefore⟩
            · exact hnew
            · split_ifs at hbefore
              exact hbefore
        · intro l p hl
          rw [hrec,nodeRow,nodeRow]
          dsimp only
          rw [if_neg hl,if_neg fun hx => hl ((hmem l).mpr (Or.inl hx))]
      rw [bind_ok hrun,inspect_ok (by exact getNode_of_recordAt hrec₁)]
      exact keeps_then_pure hkept _

/-- Taking a label from a node whose properties are known keeps the invariant
and the properties. -/
theorem keeps_removeIndexedLabel (id : NodeId) (props : Properties) (label : String) :
    Keeps (fun st => IndexInv env.enc st ∧ ∃ labels,recordAt st id=some ⟨labels,props⟩)
      (removeIndexedLabel env id props label) := by
  intro st hst
  obtain ⟨h,labels,hrec⟩ := hst
  obtain ⟨st₁,hrun,href⟩ := removeIndexesForLabel_ok h.mirror.names id label props
  have hfts : st₁.ftsTables=empty := by
    rw [href.rest]
    exact h.noFts
  have hnodes : NodesOk st₁ := by
    rw [href.rest]
    exact ⟨h.nodes.ids,h.nodes.counter,h.nodes.columns,h.nodes.adjOut,h.nodes.adjIn⟩
  have hrec₁ : recordAt st₁ id=some ⟨labels,props⟩ := by
    rw [href.rest]
    exact hrec
  have ⟨st₂,hrun₂,hw⟩ := removeNodeLabel_spec hnodes id label hrec₁
  have hsel : Refreshed (fun l _ => decide (l∈[label])) (refreshRows env.enc id (some props) none)
      st st₁ := href.congr fun l p _ _ => by simp
  have hmirror := h.mirror.refreshed (r:=some ⟨labels.filter (· ≠ label),props⟩) hsel
    (fun l p hl key => by
      have hlabel : l=label := List.mem_singleton.mp hl
      rw [hrec,nodeRow,nodeRow,hlabel]
      dsimp only
      rw [if_neg (by simp)]
      constructor
      · intro hkey
        cases hkey
      · intro hkey
        rcases hkey with hnew|⟨hold,hbefore⟩
        · cases hnew
        · split_ifs at hbefore
          exact absurd hbefore hold)
    (fun l p hl => by
      have hlabel : l≠label := fun heq => hl (List.mem_singleton.mpr heq)
      have hmem : l∈labels.filter (· ≠ label) ↔ l∈labels := by simp [hlabel]
      rw [hrec,nodeRow,nodeRow]
      dsimp only
      by_cases hx : l∈labels
      · rw [if_pos hx,if_pos (hmem.mpr hx)]
      · rw [if_neg hx,if_neg fun hy => hx (hmem.mp hy)])
  unfold removeIndexedLabel
  rw [bind_ok hrun,bind_ok (removeFtsForLabel_noFts hfts id label props),hrun₂]
  refine ⟨⟨hw.ok,hw.ftsTables.trans hfts,hmirror.congr hw.indexTables fun other => ?_⟩,
    labels.filter (· ≠ label),?_⟩
  · rw [hw.view other]
    split_ifs with hid
    · rfl
    · rw [href.rest]
      rfl
  · rw [hw.view id,if_pos rfl]

theorem keeps_deleteNodeTarget (detach : Bool) (id : NodeId) :
    Keeps (IndexInv env.enc) (deleteNodeTarget env detach id) := by
  refine keeps_bind (keeps_checkDetached detach id) fun _ => ?_
  · intro st h
    cases hrec : recordAt st id with
    | none =>
      have hclear : clearNode env id st=(.ok (),st) := by
        rw [clearNode,getNode_of_missing hrec]
      rw [bind_ok hclear,attempt_apply,deleteNode_missing hrec]
      exact h
    | some record =>
      obtain ⟨st₁,hrun,href⟩ :=
        removeIndexesForNode_ok h.mirror.names id record.labels record.properties
      have hfts : st₁.ftsTables=empty := by
        rw [href.rest]
        exact h.noFts
      have hnodes : NodesOk st₁ := by
        rw [href.rest]
        exact ⟨h.nodes.ids,h.nodes.counter,h.nodes.columns,h.nodes.adjOut,h.nodes.adjIn⟩
      have hrec₁ : recordAt st₁ id=some record := by
        rw [href.rest]
        exact hrec
      have ⟨st₂,hrun₂,hw⟩ := deleteNode_spec hnodes hrec₁
      have hclear : clearNode env id st=(.ok (),st₁) := by
        rw [clearNode,getNode_of_recordAt hrec]
        dsimp only
        rw [bind_ok (show attempt _ st=(.ok (),st₁) by rw [attempt_apply,hrun]),attempt_apply,
          removeFtsForNode_noFts hfts]
      have hmirror := h.mirror.refreshed (r:=none) href
        (fun l p hl key => by
          rw [hrec,nodeRow,nodeRow,if_pos hl]
          constructor
          · intro hkey
            cases hkey
          · intro hkey
            rcases hkey with hnew|⟨hold,hbefore⟩
            · cases hnew
            · exact absurd hbefore hold)
        (fun l p hl => by
          rw [hrec,nodeRow,nodeRow,if_neg hl])
      rw [bind_ok hclear,attempt_apply,hrun₂]
      refine ⟨hw.ok,hw.ftsTables.trans hfts,hmirror.congr hw.indexTables fun other => ?_⟩
      rw [hw.view other]
      split_ifs with hid
      · rfl
      · rw [href.rest]
        rfl

theorem IndexInv.of_edgeProps (h : IndexInv env.enc st) (rows : Table Bytes Properties) :
    IndexInv env.enc {st with edgeProps := rows} :=
  h.of_unseen ⟨rfl,rfl,rfl,rfl,fun h => h,fun h => h⟩

theorem keeps_setPropertyItem (rec : NamedRecord) (a : Assignment E) :
    Keeps (IndexInv env.enc) (setPropertyItem env rec a) := by
  unfold setPropertyItem
  cases edgeIdentity rec a.var with
  | some identity =>
    refine keeps_reading fun val => ?_
    refine keeps_reading fun _ => ?_
    refine keeps_bind (keeps_update fun st h => ?_) fun _ => keeps_pure _ _
    unfold writeEdgeProperty
    cases edgeSeqField rec a.var with
    | some seq | none => exact h.of_edgeProps _
  | none =>
    cases nodeIdField rec a.var with
    | none => exact keeps_pure _ _
    | some id =>
      intro st h
      refine inspect_bind h fun old hold => inspect_bind h fun val _ => inspect_bind h fun _ _ => ?_
      exact keeps_then_pure (h.setIndexedProperty hold a.property val) _

theorem keeps_setPropertiesRecord (var : String) (expr : E) (merge : Bool) (rec : NamedRecord) :
    Keeps (IndexInv env.enc) (setPropertiesRecord env var expr merge rec) := by
  unfold setPropertiesRecord
  cases edgeIdentity rec var with
  | some identity =>
    refine keeps_reading fun seq => ?_
    refine keeps_reading fun value => ?_
    refine keeps_reading fun found => ?_
    cases found with
    | none => exact keeps_pure _ _
    | some entries =>
      refine keeps_reading fun old => ?_
      refine keeps_reading fun new => ?_
      exact keeps_bind (keeps_update fun st h => h.of_edgeProps _) fun _ => keeps_pure _ _
  | none =>
    cases nodeIdField rec var with
    | none => exact keeps_pure _ _
    | some id =>
      refine keeps_reading fun value => ?_
      refine keeps_reading fun found => ?_
      cases found with
      | none => exact keeps_pure _ _
      | some entries =>
        intro st h
        refine inspect_bind h fun old hold => inspect_bind h fun new _ => ?_
        exact keeps_then_pure (h.setIndexedProperties hold new) _

theorem keeps_removeItem (rec : NamedRecord) (item : RemoveItem) :
    Keeps (IndexInv env.enc) (removeItem env rec item) := by
  cases item with
  | property var property =>
    unfold removeItem
    dsimp only
    cases edgeIdentity rec var with
    | some identity =>
      refine keeps_bind (keeps_update fun st h => ?_) fun _ => keeps_pure _ _
      unfold writeEdgeProperty
      cases edgeSeqField rec var with
      | some seq | none => exact h.of_edgeProps _
    | none =>
      cases nodeIdField rec var with
      | none => exact keeps_pure _ _
      | some id =>
        intro st h
        refine inspect_bind h fun old hold => ?_
        exact keeps_then_pure (h.removeIndexedProperty hold property) _
  | label var labels =>
    unfold removeItem
    dsimp only
    cases nodeIdField rec var with
    | none => exact keeps_pure _ _
    | some id =>
      intro st h
      refine inspect_bind h fun old hold => ?_
      have ⟨row,hget,hold'⟩ := getNode_ok hold
      have hrec : recordAt st id=some ⟨row.value.labels,old.properties⟩ := by
        rw [recordAt,hget,Option.map_some,hold']
      let kept : Store → Prop :=
        fun st => IndexInv env.enc st ∧ ∃ labels,recordAt st id=some ⟨labels,old.properties⟩
      have hloop : Keeps kept (forEach labels (removeIndexedLabel env id old.properties)) :=
        keeps_forEach fun label _ => keeps_removeIndexedLabel id old.properties label
      exact keeps_then_pure (hloop st ⟨h,_,hrec⟩).1 _

theorem unseen_deleteTargets (st : Store) (targets : List (NodeId×NodeId×String×Option UInt64)) :
    Unseen st (targets.foldl deleteEdgeTarget st) := by
  refine unseen_foldl (fun st target => ?_) targets st
  have ⟨src,dst,label,seq⟩ := target
  cases seq with
  | some seq => exact unseen_deleteSingleEdge st src dst label seq
  | none => exact unseen_deleteEdge st src dst label

theorem keeps_execDelete (records : List NamedRecord) (exprs : List (DeleteExpr E)) (detach : Bool) :
    Keeps (IndexInv env.enc) (execDelete env records exprs detach) := by
  refine keeps_bind (keeps_foldEach fun acc rec _ => keeps_collectRecord exprs acc rec) fun acc => ?_
  refine keeps_bind (keeps_update fun st h => h.of_unseen (unseen_deleteTargets st acc.2.edges)) fun _ => ?_
  refine keeps_bind (keeps_forEach fun id _ => ?_) fun _ => keeps_pure _ _
  exact keeps_deleteNodeTarget detach id

end Operators

variable {enc : Value → Bytes} {properties : List String} {label : String} {st : Store}

theorem mem_keys_addRow {id : NodeId} {props : Properties} {t : Table Bytes Unit} {key : Bytes} :
    key∈keys (addRow enc id properties (some props) t) ↔ rowOf enc id properties (some props)=some key ∨ key∈keys t := by
  have hrefresh : key∈keys (refreshRows enc id none (some props) properties t) ↔ _ :=
    mem_keys_refreshRows
  have hnone : rowOf enc id properties none≠some key := by simp [rowOf]
  simp only [hnone,ne_eq,not_false_iff,true_and] at hrefresh
  exact hrefresh

theorem fill_ok {table : String} (properties : List String) (nodes : List Node) (st : Store)
    {t : Table Bytes Unit} (hget : get st.indexTables table=some t) :
    ∃ t',forEach nodes (fun n => insertEntry enc table n.id properties n.properties) st=
    (.ok (),{st with indexTables := put st.indexTables table t'}) ∧ ∀ key,key∈keys t' ↔
    key∈keys t ∨ ∃ n∈nodes,rowOf enc n.id properties (some n.properties)=some key := by
  induction nodes generalizing st t with
  | nil =>
    refine ⟨t,?_,fun key => by simp⟩
    rw [put_same hget]
    rfl
  | cons n rest ih =>
    have hone : insertEntry enc table n.id properties n.properties st=_ :=
      insertEntry_ok hget n.id properties n.properties
    let t₁ := addRow enc n.id properties (some n.properties) t
    have ⟨t',hloop,hkeys⟩ := ih {st with indexTables := put st.indexTables table t₁}
      (get_put_self _ _ _)
    refine ⟨t',?_,fun key => ?_⟩
    · rw [forEach,bind_ok hone,hloop]
      dsimp only
      rw [put_put]
    · rw [hkeys key,mem_keys_addRow]
      simp only [List.mem_cons,exists_eq_or_imp]
      tauto

theorem infix_of_mem_labels {labels : List String} (h : label∈labels) :
    ∃ before after,':'::((String.intercalate ":" labels).toList++[':'])=
    before++((':'::(label.toList++[':']))++after) := by
  have hcolon : (":" : String).toList=[':'] := by decide
  rw [String.toList_intercalate,hcolon]
  induction labels with
  | nil => exact absurd h List.not_mem_nil
  | cons first rest ih =>
    cases rest with
    | nil =>
      have hlabel : label=first := List.mem_singleton.mp h
      exact ⟨[],[],by rw [hlabel]; simp⟩
    | cons second rest =>
      have hjoin : ∀ x : List Char,[':'].intercalate ((x::second.toList::rest.map String.toList))=
          x++(':'::[':'].intercalate (second.toList::rest.map String.toList)) := by
        intro x
        simp [List.intercalate]
      rw [List.map_cons,List.map_cons,hjoin]
      rcases List.mem_cons.mp h with hlabel|hrest
      · refine ⟨[],[':'].intercalate (second.toList::rest.map String.toList)++[':'],?_⟩
        rw [hlabel]
        simp
      · have ⟨before,after,hsplit⟩ := ih hrest
        refine ⟨':'::(first.toList++before),after,?_⟩
        rw [List.map_cons] at hsplit
        rw [List.append_assoc,List.cons_append,hsplit]
        simp

theorem labelColumnMatches_of_mem {labels : List String} (h : label∈labels) :
    labelColumnMatches label (String.intercalate ":" labels)=true := by
  have ⟨before,after,hsplit⟩ := infix_of_mem_labels h
  unfold labelColumnMatches
  have hinfix := likeMatch_infix before (':'::(label.toList++[':'])) after
  rw [List.cons_append,List.append_assoc] at hinfix
  rw [hsplit,Bool.or_eq_true]
  exact Or.inr hinfix

/-- A creation that is accepted: the definition is checked, and neither its table
nor one of the same name up to letter case exists. -/
def Creates (st : Store) (label : String) (properties : List String) : Prop :=
  IndexDef label properties ∧
    indexTableTaken st (indexTableName label properties) label properties=.ok false ∧
    nameTaken st (indexTableName label properties)=false

/-- Every node that the scan for an accepted creation finds with all covered
properties carries the label. -/
def BackfillExact (st : Store) (label : String) (properties : List String) : Prop :=
  Creates st label properties → ∀ id row,get st.nodes id=some row →
    labelColumnMatches label row.label=true →
    (collectValues row.value.properties properties).isSome=true → label∈row.value.labels

theorem createCompositeIndex_error (h : ¬Creates st label properties) :
    ∃ e,createCompositeIndex enc label properties st=(.error e,st) := by
  unfold createCompositeIndex
  cases hname : compositeIndexTableName label properties with
  | error e => exact ⟨e,by rw [inspect_error (by rfl)]⟩
  | ok table =>
    have ⟨hdef,htable⟩ := compositeIndexTableName_ok_iff.mp hname
    rw [inspect_ok (by rfl)]
    cases htaken : indexTableTaken st table label properties with
    | error e => exact ⟨e,by rw [inspect_error (by exact htaken)]⟩
    | ok already =>
      rw [inspect_ok (by exact htaken)]
      cases already with
      | true => exact ⟨_,rfl⟩
      | false =>
        have hclash : nameTaken st table=true := by
          cases hx : nameTaken st table with
          | true => rfl
          | false =>
            rw [htable] at htaken hx
            exact absurd ⟨hdef,htaken,hx⟩ h
        have hcreate : createIndexTable table st=
            (.error (.storage ("table \""++table++"\" already exists") none),st) := by
          rw [createIndexTable,if_pos hclash]
        exact ⟨_,by rw [if_neg (by simp),bind_error hcreate]⟩

theorem createCompositeIndex_refused (h : ¬Creates st label properties) :
    (createCompositeIndex enc label properties st).2=st := by
  obtain ⟨e,herror⟩ := createCompositeIndex_error h
  rw [herror]

theorem createCompositeIndex_accepted (h : Creates st label properties) :
    ∃ t,createCompositeIndex enc label properties st=
    (.ok (),{st with indexTables := put st.indexTables (indexTableName label properties) t}) ∧ ∀ key,key∈keys t ↔
    ∃ n∈findNodesByLabel st label, rowOf enc n.id properties (some n.properties)=some key := by
  have ⟨hdef,htaken,hclash⟩ := h
  have hname := compositeIndexTableName_ok_iff.mpr ⟨hdef,rfl⟩
  have hcreate : createIndexTable (indexTableName label properties) st=
      (.ok (),{st with indexTables := put st.indexTables (indexTableName label properties) empty}) := by
    rw [createIndexTable,if_neg (by rw [hclash]; simp)]
  obtain ⟨t,hfill,hkeys⟩ := fill_ok properties (findNodesByLabel st label)
    {st with indexTables := put st.indexTables (indexTableName label properties) empty}
    (get_put_self _ _ _)
  refine ⟨t,?_,fun key => ?_⟩
  · unfold createCompositeIndex
    rw [inspect_ok (by exact hname),inspect_ok (by exact htaken)]
    rw [if_neg (by simp),bind_ok hcreate,inspect_ok (by rfl)]
    refine hfill.trans ?_
    dsimp only
    rw [put_put]
  · rw [hkeys key]
    constructor
    · intro hx
      rcases hx with hempty|hnode
      · exact absurd hempty List.not_mem_nil
      · exact hnode
    · exact Or.inr

theorem mem_findNodesByLabel (hlabel : isValidName label=true) {n : Node} : n∈findNodesByLabel st label ↔
    ∃ row,get st.nodes n.id=some row ∧ labelColumnMatches label row.label=true ∧
    n=⟨n.id,row.value.labels,row.value.properties⟩ := by
  have hne := ne_empty_of_validName hlabel
  unfold findNodesByLabel
  rw [List.mem_map]
  constructor
  · intro h
    have ⟨⟨id,row⟩,hrow,hn⟩ := h
    have ⟨hmem,htest⟩ := List.mem_filter.mp hrow
    have hmatch : labelColumnMatches label row.label=true := by simpa [hne] using htest
    rw [←hn]
    exact ⟨row,get_eq_some.mpr hmem,hmatch,rfl⟩
  · intro h
    have ⟨row,hget,hmatch,hn⟩ := h
    refine ⟨(n.id,row),List.mem_filter.mpr ⟨get_eq_some.mp hget,?_⟩,hn.symm⟩
    simp [hmatch]

/-- The steps of a run: index definitions and write clauses. -/
inductive IndexStep (E : Type) where
  | createIndex (label : String) (properties : List String)
  | dropIndex (label : String) (properties : List String)
  | clause (clause : WriteClause E)

/-- The store after a step, successful or not. -/
def applyIndexStep {E : Type} (env : ExecEnv E) (st : Store) : IndexStep E → Store
  | .createIndex label properties => (createCompositeIndex env.enc label properties st).2
  | .dropIndex label properties => (dropCompositeIndex label properties st).2
  | .clause clause => (execClause env clause st).2

/-- Creations find only nodes that carry their label; all other steps are free. -/
def ScansExactly {E : Type} (st : Store) : IndexStep E → Prop
  | .createIndex label properties => BackfillExact st label properties
  | _ => True

section Steps

variable {E : Type} {env : ExecEnv E}
variable {st : Store}

theorem IndexInv.createCompositeIndex {enc : Value → Bytes} (h : IndexInv enc st) {label : String}
    {properties : List String} (hexact : BackfillExact st label properties) :
    IndexInv enc (createCompositeIndex enc label properties st).2 := by
  by_cases hcreates : Creates st label properties
  · obtain ⟨t,hrun,hkeys⟩ := createCompositeIndex_accepted hcreates
    have hdef := hcreates.1
    rw [hrun]
    refine ⟨⟨h.nodes.ids,h.nodes.counter,h.nodes.columns,h.nodes.adjOut,h.nodes.adjIn⟩,h.noFts,⟨?_,?_⟩⟩
    · intro name hname
      rcases mem_keys_put.mp hname with hnew|hold
      · exact ⟨label,properties,hdef,hnew⟩
      · exact h.mirror.names name hold
    · intro l p t' hother hget key
      dsimp only at hget
      rw [get_put] at hget
      by_cases hsame : indexTableName l p=indexTableName label properties
      · rw [if_pos hsame] at hget
        obtain ⟨hl,hp⟩ := indexTableName_inj hother hdef hsame
        rw [←Option.some.inj hget,hkeys key,hl,hp]
        constructor
        · intro hx
          obtain ⟨n,hn,hrow⟩ := hx
          obtain ⟨row,hnode,hmatch,hnrow⟩ := (mem_findNodesByLabel hdef.label).mp hn
          have hprops : n.properties=row.value.properties := by rw [hnrow]
          have hsome : (collectValues row.value.properties properties).isSome=true := by
            rw [hprops] at hrow
            unfold rowOf at hrow
            obtain ⟨values,hvalues,_⟩ := Option.map_eq_some_iff.mp hrow
            rw [Option.bind_some] at hvalues
            rw [hvalues]
            rfl
          have hcarries := hexact hcreates n.id row hnode hmatch hsome
          refine ⟨n.id,?_⟩
          change nodeRow enc n.id (recordAt st n.id) label properties=some key
          rw [recordAt,hnode,Option.map_some,nodeRow,if_pos hcarries,←hprops]
          exact hrow
        · intro hx
          obtain ⟨id,hrow⟩ := hx
          change nodeRow enc id (recordAt st id) label properties=some key at hrow
          cases hnode : get st.nodes id with
          | none =>
            rw [recordAt,hnode,Option.map_none,nodeRow] at hrow
            cases hrow
          | some row =>
            rw [recordAt,hnode,Option.map_some,nodeRow] at hrow
            split_ifs at hrow with hcarries
            have hmatch := labelColumnMatches_of_mem hcarries
            rw [←h.nodes.columns id row hnode] at hmatch
            exact ⟨⟨id,row.value.labels,row.value.properties⟩,
              (mem_findNodesByLabel hdef.label).mpr ⟨row,hnode,hmatch,rfl⟩,hrow⟩
      · rw [if_neg hsame] at hget
        exact h.mirror.rows l p t' hother hget key
  · rw [createCompositeIndex_refused hcreates]
    exact h

theorem IndexInv.dropCompositeIndex {enc : Value → Bytes} (h : IndexInv enc st) (label : String)
    (properties : List String) : IndexInv enc (dropCompositeIndex label properties st).2 := by
  have hdrop : ∀ table,IndexInv enc (dropTable st table) := by
    intro table
    refine ⟨⟨h.nodes.ids,h.nodes.counter,h.nodes.columns,h.nodes.adjOut,h.nodes.adjIn⟩,?_,⟨?_,?_⟩⟩
    · rw [dropTable,h.noFts]
      rfl
    · intro name hname
      exact h.mirror.names name (mem_keys_delete.mp hname).2
    · intro l p t hdef hget
      rw [dropTable,get_delete] at hget
      split_ifs at hget with hsame
      exact h.mirror.rows l p t hdef hget
  refine inspect_bind h fun table _ => inspect_bind h fun present _ => ?_
  cases present with
  | true => exact hdrop table
  | false => exact h

theorem keeps_execClause (clause : WriteClause E) : Keeps (IndexInv env.enc) (execClause env clause) := by
  have hcreate : ∀ (rec : NamedRecord) (s : CreateState) (labels : List String)
      (nodeAlias : Option String) (properties : List (String×E)),
      Keeps (IndexInv env.enc) (createNodeOp env rec s labels nodeAlias properties) :=
    keeps_createNodeOp
  intro st h
  cases clause with
  | createNode labels nodeAlias properties => exact keeps_then_pure (hcreate _ _ _ _ _ st h) _
  | createSequence ops =>
    have hops : Keeps (IndexInv env.enc) (foldEach ops ⟨[],⟨[]⟩⟩ (createSequenceOp env)) := by
      refine keeps_foldEach fun s op _ => ?_
      cases op with
      | node labels nodeAlias properties => exact hcreate _ _ _ _ _
      | edge src dst edgeType relAlias properties => exact keeps_createEdgeOp _ _ _ _ _ _ _
    exact keeps_then_pure (hops st h) _
  | matchCreate records ops =>
    refine keeps_mapEach (fun rec _ => ?_) st h
    refine keeps_bind (keeps_foldEach fun s op _ => ?_) fun s => keeps_pure _ _
    cases op with
    | node labels nodeAlias properties =>
      unfold matchCreateOp
      dsimp only
      split_ifs
      · exact keeps_pure _ _
      · exact hcreate _ _ _ _ _
    | edge src dst edgeType relAlias properties => exact keeps_createEdgeOp _ _ _ _ _ _ _
  | setProperty records assignments =>
    exact keeps_mapEach (fun rec _ => keeps_foldEach fun rec a _ => keeps_setPropertyItem rec a) st h
  | setProperties records var expr merge =>
    exact keeps_mapEach (fun rec _ => keeps_setPropertiesRecord var expr merge rec) st h
  | setLabel records var labels =>
    exact keeps_mapEach (fun rec _ => keeps_setLabelRecord var labels rec) st h
  | remove records items =>
    exact keeps_mapEach (fun rec _ => keeps_foldEach fun rec item _ => keeps_removeItem rec item) st h
  | delete records exprs detach => exact keeps_execDelete records exprs detach st h

theorem IndexInv.step (h : IndexInv env.enc st) {step : IndexStep E} (hexact : ScansExactly st step) :
    IndexInv env.enc (applyIndexStep env st step) := by
  cases step with
  | createIndex label properties => exact h.createCompositeIndex hexact
  | dropIndex label properties => exact h.dropCompositeIndex label properties
  | clause clause => exact keeps_execClause clause st h

/-- A creation whose scan finds a node that does not carry the label leaves a
phantom row. -/
theorem not_mirror_of_phantom {step : IndexStep E} (hphantom : ¬ScansExactly st step) :
    ¬IndexesMirror env.enc (applyIndexStep env st step) := by
  cases step with
  | createIndex label properties =>
    intro hmirror
    apply hphantom
    intro hcreates id row hnode hmatch hsome
    obtain ⟨t,hrun,hkeys⟩ := createCompositeIndex_accepted hcreates
    obtain ⟨values,hvalues⟩ := Option.isSome_iff_exists.mp hsome
    have hrow : rowOf env.enc id properties (some row.value.properties)=
        some (compositeIndexKey env.enc values id) := by
      rw [rowOf,Option.bind_some,hvalues,Option.map_some]
    have hfound : (⟨id,row.value.labels,row.value.properties⟩ : Node)∈findNodesByLabel st label :=
      (mem_findNodesByLabel hcreates.1.label).mpr ⟨row,hnode,hmatch,rfl⟩
    have hin := (hkeys _).mpr ⟨_,hfound,hrow⟩
    change Mirrors env.enc (createCompositeIndex env.enc label properties st).2 _ at hmirror
    have hrows := hmirror.rows label properties t hcreates.1
      (by rw [hrun]; exact get_put_self _ _ _)
    obtain ⟨other,hother⟩ := (hrows _).mp hin
    obtain ⟨props,hprops⟩ := rowOf_of_nodeRow hother
    have hid : other=id := rowOf_id hprops hrow
    change nodeRow env.enc other (recordAt (createCompositeIndex env.enc label properties st).2 other)
      label properties=_ at hother
    rw [hrun,hid] at hother
    change nodeRow env.enc id (recordAt st id) label properties=_ at hother
    rw [recordAt,hnode,Option.map_some,nodeRow] at hother
    split_ifs at hother with hcarries
    exact hcarries
  | dropIndex label properties | clause clause => exact absurd trivial hphantom

/-- The indexes mirror the nodes in every state reached from a new database
exactly when every accepted creation scans only nodes that carry its label. -/
theorem indexesMirror_reached_iff (env : ExecEnv E) (steps : List (IndexStep E)) :
    (∀ first,first<+:steps → IndexesMirror env.enc (run (applyIndexStep env) freshStore first)) ↔
      Guarded (applyIndexStep env) ScansExactly freshStore steps :=
  guarded_iff_reached (I:=IndexInv env.enc) (p:=fun _ => True) (fun _ _ _ h hexact => h.step hexact)
    (fun _ h => h.mirror) (fun _ _ _ _ hphantom => not_mirror_of_phantom hphantom)
    (fun _ _ => trivial) indexInv_freshStore

end Steps

/-- `CREATE (n:person {name: 'x'})` and then an index on `:Person(name)`. -/
def phantomRun : List (IndexStep Value) :=
  [.clause (.createNode ["person"] (some "n") [("name",.string "x")]),.createIndex "Person" ["name"]]

/-- The index on `:Person` lists the node of label `person`. -/
theorem indexesMirror_run_fails :
    ¬∀ steps : List (IndexStep Value),
      IndexesMirror literalEnv.enc (run (applyIndexStep literalEnv) freshStore steps) := by
  intro hall
  let st := run (applyIndexStep literalEnv) freshStore (phantomRun.take 1)
  have hbad : ¬ScansExactly (E:=Value) st (.createIndex "Person" ["name"]) := by
    intro hexact
    have hdef : IndexDef "Person" ["name"] :=
      ⟨by decide,by simp,by decide,by decide⟩
    have hcreates : Creates st "Person" ["name"] := ⟨hdef,rfl,by decide +kernel⟩
    have hnode : get st.nodes 1=some ⟨"person",⟨["person"],[("name",.string "x")]⟩⟩ := by rfl
    have hcarries := hexact hcreates 1 _ hnode (by decide) (by decide)
    exact absurd hcarries (by decide)
  exact not_mirror_of_phantom hbad (hall phantomRun)

end GraphDbLite.IndexMirror
