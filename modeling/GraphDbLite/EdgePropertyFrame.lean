import GraphDbLite.EdgeConsistency
import GraphDbLite.WriteOperators

/-!
# Property writes and the set of relationships

Setting, replacing or removing properties of a relationship should change the
value of its row and nothing else. The writes are inserts-or-replacements keyed
by what the record says, so a write to a relationship that was deleted earlier
in the statement brings its row back. The set of rows stays the same exactly
when every write that is reached addresses a row that is there.
-/

namespace GraphDbLite.EdgePropertyFrame

open ByteStrings GraphTypes OrderedTable StatefulActions GraphStore EdgeStorage NodeStorage
open WriteOperators EdgeConsistency

/-- Where an item writes: a relationship row, or some other table. -/
inductive Touch where
  | edgeRow (key : Bytes)
  | elsewhere

/-- The relationships are the same and only marked rows have other values. -/
structure EdgesFramed (marks : List Touch) (st st' : Store) : Prop where
  /-- The same rows are present. -/
  present : keys st'.edgeProps=keys st.edgeProps
  /-- The outgoing table is the same. -/
  adjOut : st'.adjOut=st.adjOut
  /-- The incoming table is the same. -/
  adjIn : st'.adjIn=st.adjIn
  /-- The type counters are the same. -/
  counts : ∀ typeName,get st'.metadata (edgeTypeCountKey typeName)=
    get st.metadata (edgeTypeCountKey typeName)
  /-- Rows that are not marked have the same value. -/
  rows : ∀ key,Touch.edgeRow key∉marks → get st'.edgeProps key=get st.edgeProps key
  /-- Without other marks nothing else changes. -/
  others : Touch.elsewhere∉marks → st'={st with edgeProps := st'.edgeProps}

/-- What property writes always do: rows may appear, but only marked ones. -/
structure EdgesGrow (marks : List Touch) (st st' : Store) : Prop where
  /-- No row disappears. -/
  present : ∀ key∈keys st.edgeProps,key∈keys st'.edgeProps
  /-- The outgoing table is the same. -/
  adjOut : st'.adjOut=st.adjOut
  /-- The incoming table is the same. -/
  adjIn : st'.adjIn=st.adjIn
  /-- The type counters are the same. -/
  counts : ∀ typeName,get st'.metadata (edgeTypeCountKey typeName)=
    get st.metadata (edgeTypeCountKey typeName)
  /-- Rows that are not marked have the same value. -/
  rows : ∀ key,Touch.edgeRow key∉marks → get st'.edgeProps key=get st.edgeProps key
  /-- Without other marks nothing else changes. -/
  others : Touch.elsewhere∉marks → st'={st with edgeProps := st'.edgeProps}

theorem EdgesGrow.refl (marks : List Touch) (st : Store) : EdgesGrow marks st st :=
  ⟨fun _ hk => hk,rfl,rfl,fun _ => rfl,fun _ _ => rfl,fun _ => rfl⟩

theorem EdgesGrow.trans {m n : List Touch} {a b c : Store} (hab : EdgesGrow m a b)
    (hbc : EdgesGrow n b c) : EdgesGrow (m++n) a c where
  present key hk := hbc.present key (hab.present key hk)
  adjOut := hbc.adjOut.trans hab.adjOut
  adjIn := hbc.adjIn.trans hab.adjIn
  counts typeName := (hbc.counts typeName).trans (hab.counts typeName)
  rows key hk := by
    rw [hbc.rows key fun hm => hk (List.mem_append_right _ hm),
      hab.rows key fun hm => hk (List.mem_append_left _ hm)]
  others h := by
    rw [hbc.others fun hm => h (List.mem_append_right _ hm),
      hab.others fun hm => h (List.mem_append_left _ hm)]

theorem EdgesGrow.of_same {st st' : Store} (h : SameEdges st st') :
    EdgesGrow [.elsewhere] st st' where
  present key hk := by
    rw [h.edgeProps]
    exact hk
  adjOut := h.adjOut
  adjIn := h.adjIn
  counts := h.counts
  rows key _ := by rw [h.edgeProps]
  others hno := absurd List.mem_cons_self hno

theorem edgesGrow_put (st : Store) (key : Bytes) (props : Properties) :
    EdgesGrow [.edgeRow key] st {st with edgeProps := put st.edgeProps key props} where
  present other hk := mem_keys_put.mpr (Or.inr hk)
  adjOut := rfl
  adjIn := rfl
  counts _ := rfl
  rows other hother := by
    have hne : other≠key := by
      intro heq
      rw [heq] at hother
      exact hother List.mem_cons_self
    exact get_put_ne hne
  others _ := rfl

/-- Number of relationship rows. -/
def edgeRows (st : Store) : Nat := (keys st.edgeProps).length

theorem EdgesGrow.edgeRows_le {marks : List Touch} {st st' : Store} (h : EdgesGrow marks st st') :
    edgeRows st≤edgeRows st' :=
  (List.subperm_of_subset (keys_nodup st.edgeProps) h.present).length_le

theorem EdgesGrow.framed_iff {marks : List Touch} {st st' : Store} (h : EdgesGrow marks st st') :
    EdgesFramed marks st st' ↔ edgeRows st'=edgeRows st := by
  constructor
  · intro hframed
    rw [edgeRows,hframed.present,edgeRows]
  · intro hcount
    have hsub := List.subperm_of_subset (keys_nodup st.edgeProps) h.present
    have hperm := hsub.perm_of_length_le hcount.le
    have hkeys : keys st'.edgeProps=keys st.edgeProps := by
      refine (hperm.eq_of_pairwise ?_ (keys_ordered _) (keys_ordered _)).symm
      intro a b _ _ hab hba
      exact absurd (hab.trans hba) (lt_irrefl _)
    exact ⟨hkeys,h.adjOut,h.adjIn,h.counts,h.rows,h.others⟩

theorem edgeRows_put (st : Store) (key : Bytes) (props : Properties) :
    edgeRows {st with edgeProps := put st.edgeProps key props}=edgeRows st ↔
      key∈keys st.edgeProps := by
  unfold edgeRows
  dsimp only
  constructor
  · intro hcount
    by_contra hnew
    have hlen := (keys_put_fresh (v:=props) hnew).length_eq
    rw [List.length_cons] at hlen
    omega
  · intro hkey
    rw [keys_put_present hkey]

section Items

variable {E : Type} (env : ExecEnv E)

/-- The row of a relationship variable that a property write addresses. -/
def addressedRow (st : Store) (rec : NamedRecord) (var : String) (src dst : NodeId)
    (label : String) : Bytes :=
  edgePropsKey src dst label (edgeSeqOf rec var src dst label st)

/-- The relationship row that an assignment writes, if it gets that far. -/
def assignedRow (st : Store) (rec : NamedRecord) (a : Assignment E) : Option Bytes :=
  match edgeIdentity rec a.var with
  | none => none
  | some (src,dst,label) =>
    match env.eval st a.value rec with
    | .error _ => none
    | .ok val => if isStorable val=true then some (addressedRow st rec a.var src dst label) else none

/-- The relationship row that a map assignment writes, if it gets that far. -/
def mappedRow (var : String) (expr : E) (merge : Bool) (st : Store) (rec : NamedRecord) :
    Option Bytes :=
  match edgeIdentity rec var with
  | none => none
  | some (src,dst,label) =>
    match env.eval st expr rec with
    | .error _ => none
    | .ok value =>
      match mapEntries value with
      | .error _ => none
      | .ok none => none
      | .ok (some entries) =>
        let old := getEdgePropertiesAt st src dst label (edgeSeqOf rec var src dst label st)
        match overlayMap validatePropertyValue merge old entries with
        | .ok _ => some (addressedRow st rec var src dst label)
        | .error _ => none

/-- The relationship row that an item of a REMOVE clause writes. -/
def removedRow (st : Store) (rec : NamedRecord) : RemoveItem → Option Bytes
  | .property var _ =>
    (edgeIdentity rec var).map fun identity =>
      addressedRow st rec var identity.1 identity.2.1 identity.2.2
  | .label _ _ => none

/-- The row that is written, if any, is present. -/
def InPlace (st : Store) (row : Option Bytes) : Prop := ∀ key∈row,key∈keys st.edgeProps

/-- Marks of an item on a relationship variable, or elsewhere. -/
def marksOf (isEdge : Bool) (row : Option Bytes) : List Touch :=
  match row with
  | some key => [.edgeRow key]
  | none => if isEdge=true then [] else [.elsewhere]

/-- Marks of an assignment. -/
def assignmentMarks (st : Store) (rec : NamedRecord) (a : Assignment E) : List Touch :=
  marksOf (edgeIdentity rec a.var).isSome (assignedRow env st rec a)

/-- Marks of a map assignment. -/
def mapMarks (var : String) (expr : E) (merge : Bool) (st : Store) (rec : NamedRecord) : List Touch :=
  marksOf (edgeIdentity rec var).isSome (mappedRow env var expr merge st rec)

/-- Marks of an item of a REMOVE clause. -/
def removalMarks (st : Store) (rec : NamedRecord) (item : RemoveItem) : List Touch :=
  marksOf false (removedRow st rec item)

/-- What an item does when it writes at most the given relationship row. -/
structure ItemWrites (isEdge : Bool) (row : Option Bytes) (st st' : Store) : Prop where
  /-- Only the marked row is written. -/
  grows : EdgesGrow (marksOf isEdge row) st st'
  /-- The number of rows stays exactly when the row was there. -/
  exact : InPlace st row ↔ edgeRows st'=edgeRows st

theorem itemWrites_put (isEdge : Bool) (st : Store) (key : Bytes) (props : Properties) :
    ItemWrites isEdge (some key) st {st with edgeProps := put st.edgeProps key props} := by
  refine ⟨edgesGrow_put st key props,?_⟩
  rw [edgeRows_put]
  exact ⟨fun h => h key rfl,fun h other ho => by rw [←Option.some.inj ho]; exact h⟩

theorem itemWrites_none {isEdge : Bool} {st st' : Store} (h : EdgesGrow (marksOf isEdge none) st st')
    (hsame : st'.edgeProps=st.edgeProps) : ItemWrites isEdge none st st' := by
  refine ⟨h,fun _ => ?_,fun _ key hk => absurd hk (by simp)⟩
  rw [edgeRows,hsame,edgeRows]

theorem itemWrites_stop (isEdge : Bool) (st : Store) : ItemWrites isEdge none st st :=
  itemWrites_none (EdgesGrow.refl _ st) rfl

theorem itemWrites_elsewhere {st st' : Store} (h : SameEdges st st') :
    ItemWrites false none st st' :=
  itemWrites_none (EdgesGrow.of_same h) h.edgeProps

theorem sameEdges_indexTables (base : Store) : ∀ st indexTables,SameEdges base st →
    SameEdges base {st with indexTables := indexTables} :=
  fun _ _ h => ⟨h.adjOut,h.adjIn,h.edgeProps,h.seq,h.counts⟩

theorem sameEdges_ftsTables (base : Store) : ∀ st ftsTables,SameEdges base st →
    SameEdges base {st with ftsTables := ftsTables} :=
  fun _ _ h => ⟨h.adjOut,h.adjIn,h.edgeProps,h.seq,h.counts⟩

theorem keepsEdges_maintainNode (base : Store) (id : NodeId) (labels : List String)
    (old : Option Properties) (new : Properties) :
    Keeps (SameEdges base) (maintainNode env id labels old new) :=
  keeps_maintainNode (sameEdges_indexTables base) (sameEdges_ftsTables base) env id labels old new

theorem keeps_putNode (base : Store) (id : NodeId) (record : NodeRecord) :
    Keeps (SameEdges base) (update fun st => putNode st id record : Db Unit) :=
  keeps_update fun st h => h.trans (sameEdges_putNode st id record)

theorem keeps_setIndexedProperty (base : Store) (id : NodeId) (old : Node) (property : String)
    (val : Value) : Keeps (SameEdges base) (setIndexedProperty env id old property val) := by
  refine keeps_bind ?_ fun _ => keepsEdges_maintainNode env base id _ _ _
  refine keeps_reading fun _ => ?_
  exact keeps_reading fun record => keeps_putNode base id _

theorem keeps_setIndexedProperties (base : Store) (id : NodeId) (old : Node) (new : Properties) :
    Keeps (SameEdges base) (setIndexedProperties env id old new) := by
  refine keeps_bind ?_ fun _ => keepsEdges_maintainNode env base id _ _ _
  exact keeps_reading fun record => keeps_putNode base id _

theorem keeps_removeIndexedProperty (base : Store) (id : NodeId) (old : Node) (property : String) :
    Keeps (SameEdges base) (removeIndexedProperty env id old property) := by
  refine keeps_bind ?_ fun _ => keepsEdges_maintainNode env base id _ _ _
  exact keeps_reading fun record => keeps_putNode base id _

theorem keeps_removeIndexedLabel (base : Store) (id : NodeId) (props : Properties) (label : String) :
    Keeps (SameEdges base) (removeIndexedLabel env id props label) := by
  refine keeps_bind (keeps_removeIndexesForLabel (sameEdges_indexTables base) _ _ _ _) fun _ => ?_
  refine keeps_bind (keeps_removeFtsForLabel (sameEdges_ftsTables base) _ _ _) fun _ => ?_
  unfold removeNodeLabel
  refine keeps_reading fun record => ?_
  split_ifs
  · refine keeps_bind (keeps_putNode base id _) fun _ => ?_
    exact keeps_update fun st h => h.trans (sameEdges_decrementLabelCount st label)
  · exact keeps_pure _ ()

theorem writeEdgeProperty_put (rec : NamedRecord) (var : String) (src dst : NodeId)
    (label property : String) (val : Value) (st : Store) :
    ∃ props,writeEdgeProperty rec var src dst label property val st=
      {st with edgeProps := put st.edgeProps (addressedRow st rec var src dst label) props} := by
  unfold writeEdgeProperty addressedRow edgeSeqOf
  cases edgeSeqField rec var with
  | some seq | none => exact ⟨_,rfl⟩

theorem setPropertyItem_writes (st : Store) (rec : NamedRecord) (a : Assignment E) :
    ItemWrites (edgeIdentity rec a.var).isSome (assignedRow env st rec a) st
      (setPropertyItem env rec a st).2 := by
  unfold setPropertyItem assignedRow
  cases hid : edgeIdentity rec a.var with
  | some identity =>
    have ⟨src,dst,label⟩ := identity
    dsimp only
    cases heval : env.eval st a.value rec with
    | error e =>
      rw [inspect_error (by exact heval)]
      exact itemWrites_stop _ st
    | ok val =>
      rw [inspect_ok (by exact heval)]
      dsimp only
      by_cases hval : isStorable val=true
      · have hok : validatePropertyValue val=.ok () := if_pos hval
        have ⟨props,hwrite⟩ := writeEdgeProperty_put rec a.var src dst label a.property val st
        rw [if_pos hval,inspect_ok (by exact hok),bind_ok (by rw [update_apply]),hwrite]
        exact itemWrites_put _ st _ props
      · have hbad : ∃ e,validatePropertyValue val=.error e := ⟨_,if_neg hval⟩
        have ⟨e,he⟩ := hbad
        rw [if_neg hval,inspect_error (by exact he)]
        exact itemWrites_stop _ st
  | none =>
    dsimp only
    cases nodeIdField rec a.var with
    | none => exact itemWrites_elsewhere (SameEdges.refl st)
    | some id =>
      have hkeeps : Keeps (SameEdges st) (inspect (fun st => getNode st id) >>= fun old =>
          inspect (fun st => env.eval st a.value rec) >>= fun val =>
            inspect (fun _ => validatePropertyValue val) >>= fun _ =>
              setIndexedProperty env id old a.property val >>= fun _ =>
                pure (showProperty rec a.var a.property val)) := by
        refine keeps_reading fun old => ?_
        refine keeps_reading fun val => ?_
        refine keeps_reading fun _ => ?_
        exact keeps_bind (keeps_setIndexedProperty env st id old a.property val) fun _ =>
          keeps_pure _ _
      exact itemWrites_elsewhere (hkeeps st (SameEdges.refl st))

theorem setPropertiesRecord_writes (var : String) (expr : E) (merge : Bool) (st : Store)
    (rec : NamedRecord) :
    ItemWrites (edgeIdentity rec var).isSome (mappedRow env var expr merge st rec) st
      (setPropertiesRecord env var expr merge rec st).2 := by
  unfold setPropertiesRecord mappedRow
  cases hid : edgeIdentity rec var with
  | some identity =>
    have ⟨src,dst,label⟩ := identity
    dsimp only
    unfold setEdgeMap
    rw [inspect_ok (by rfl)]
    cases heval : env.eval st expr rec with
    | error e =>
      rw [inspect_error (by exact heval)]
      exact itemWrites_stop _ st
    | ok value =>
      rw [inspect_ok (by exact heval)]
      dsimp only
      cases hentries : mapEntries value with
      | error e =>
        rw [inspect_error (by rfl)]
        exact itemWrites_stop _ st
      | ok found =>
        rw [inspect_ok (by rfl)]
        cases found with
        | none => exact itemWrites_stop _ st
        | some entries =>
          dsimp only
          rw [inspect_ok (by rfl)]
          cases hover : overlayMap validatePropertyValue merge
              (getEdgePropertiesAt st src dst label (edgeSeqOf rec var src dst label st)) entries with
          | error e =>
            rw [inspect_error (by rfl)]
            exact itemWrites_stop _ st
          | ok new =>
            rw [inspect_ok (by rfl),bind_ok (by rw [update_apply])]
            exact itemWrites_put _ st _ new
  | none =>
    dsimp only
    cases nodeIdField rec var with
    | none => exact itemWrites_elsewhere (SameEdges.refl st)
    | some id =>
      have hkeeps : Keeps (SameEdges st) (setNodeMap env rec var id expr merge) := by
        refine keeps_reading fun value => ?_
        refine keeps_reading fun found => ?_
        cases found with
        | none => exact keeps_pure _ _
        | some entries =>
          refine keeps_reading fun old => ?_
          refine keeps_reading fun new => ?_
          exact keeps_bind (keeps_setIndexedProperties env st id old new) fun _ => keeps_pure _ _
      exact itemWrites_elsewhere (hkeeps st (SameEdges.refl st))

theorem removeItem_writes (st : Store) (rec : NamedRecord) (item : RemoveItem) :
    ItemWrites false (removedRow st rec item) st (removeItem env rec item st).2 := by
  cases item with
  | property var property =>
    unfold removeItem removedRow
    dsimp only
    cases hid : edgeIdentity rec var with
    | some identity =>
      have ⟨src,dst,label⟩ := identity
      have ⟨props,hwrite⟩ := writeEdgeProperty_put rec var src dst label property .null st
      dsimp only
      rw [bind_ok (by rw [update_apply]),hwrite]
      exact itemWrites_put _ st _ props
    | none =>
      cases nodeIdField rec var with
      | none => exact itemWrites_elsewhere (SameEdges.refl st)
      | some id =>
        have hkeeps : Keeps (SameEdges st) (inspect (fun st => getNode st id) >>= fun old =>
            removeIndexedProperty env id old property >>= fun _ =>
              pure (rec.remove (var++("."++property)))) := by
          refine keeps_reading fun old => ?_
          exact keeps_bind (keeps_removeIndexedProperty env st id old property) fun _ =>
            keeps_pure _ _
        exact itemWrites_elsewhere (hkeeps st (SameEdges.refl st))
  | label var labels =>
    unfold removeItem removedRow
    dsimp only
    cases nodeIdField rec var with
    | none => exact itemWrites_elsewhere (SameEdges.refl st)
    | some id =>
      have hkeeps : Keeps (SameEdges st) (inspect (fun st => getNode st id) >>= fun old =>
          forEach labels (removeIndexedLabel env id old.properties) >>= fun _ =>
            pure (showRemovedLabels rec var labels)) := by
        refine keeps_reading fun old => ?_
        refine keeps_bind (keeps_forEach fun label _ => ?_) fun _ => keeps_pure _ _
        exact keeps_removeIndexedLabel env st id old.properties label
      exact itemWrites_elsewhere (hkeeps st (SameEdges.refl st))

/-- Every assignment of a SET clause that is reached writes in place. -/
def SetsInPlace (records : List NamedRecord) (assignments : List (Assignment E)) (st : Store) : Prop :=
  MapMeets
    (fun st rec => FoldMeets (fun st rec a => InPlace st (assignedRow env st rec a))
      (setPropertyItem env) assignments rec st)
    (fun rec => foldEach assignments rec (setPropertyItem env)) records st

/-- Every map assignment that is reached writes in place. -/
def SetsMapsInPlace (records : List NamedRecord) (var : String) (expr : E) (merge : Bool)
    (st : Store) : Prop :=
  MapMeets (fun st rec => InPlace st (mappedRow env var expr merge st rec))
    (setPropertiesRecord env var expr merge) records st

/-- Every item of a REMOVE clause that is reached writes in place. -/
def RemovesInPlace (records : List NamedRecord) (items : List RemoveItem) (st : Store) : Prop :=
  MapMeets
    (fun st rec => FoldMeets (fun st rec item => InPlace st (removedRow st rec item))
      (removeItem env) items rec st)
    (fun rec => foldEach items rec (removeItem env)) records st

/-- Places that a SET clause writes. -/
def setMarks (records : List NamedRecord) (assignments : List (Assignment E)) (st : Store) :
    List Touch :=
  mapTrace (fun st rec => foldTrace (assignmentMarks env) (setPropertyItem env) assignments rec st)
    (fun rec => foldEach assignments rec (setPropertyItem env)) records st

/-- Places that a map assignment writes. -/
def setMapMarks (records : List NamedRecord) (var : String) (expr : E) (merge : Bool) (st : Store) :
    List Touch :=
  mapTrace (mapMarks env var expr merge) (setPropertiesRecord env var expr merge) records st

/-- Places that a REMOVE clause writes. -/
def removeMarks (records : List NamedRecord) (items : List RemoveItem) (st : Store) : List Touch :=
  mapTrace (fun st rec => foldTrace removalMarks (removeItem env) items rec st)
    (fun rec => foldEach items rec (removeItem env)) records st

/-- Property writes through SET and REMOVE keep the relationships, and change at
most the values of the rows they address, exactly when every write that is
reached addresses a present row. -/
theorem propertyWrites_frame_iff (records : List NamedRecord) (assignments : List (Assignment E))
    (var : String) (expr : E) (merge : Bool) (items : List RemoveItem) (st : Store) :
    (EdgesFramed (setMarks env records assignments st) st (execSetProperty env records assignments st).2 ↔
      SetsInPlace env records assignments st) ∧
    (EdgesFramed (setMapMarks env records var expr merge st) st
        (execSetProperties env records var expr merge st).2 ↔
      SetsMapsInPlace env records var expr merge st) ∧
    (EdgesFramed (removeMarks env records items st) st (execRemove env records items st).2 ↔
      RemovesInPlace env records items st) := by
  refine ⟨?_,?_,?_⟩
  · have hfold := fun st rec => foldMeets_iff_const (φ:=edgeRows)
      (fun st rec a => (setPropertyItem_writes env st rec a).grows.edgeRows_le)
      (fun st rec a => (setPropertyItem_writes env st rec a).exact) assignments rec st
    have hmap := mapMeets_iff_const (φ:=edgeRows) (fun st rec => (hfold st rec).1)
      (fun st rec => (hfold st rec).2) records st
    have hgrow := mapTrace_relates (R:=EdgesGrow) (EdgesGrow.refl []) EdgesGrow.trans
      (fun st rec => foldTrace_relates (R:=EdgesGrow) (EdgesGrow.refl []) EdgesGrow.trans
        (fun st rec a => (setPropertyItem_writes env st rec a).grows) assignments rec st) records st
    rw [SetsInPlace,hmap.2]
    exact hgrow.framed_iff
  · have hmap := mapMeets_iff_const (φ:=edgeRows)
      (fun st rec => (setPropertiesRecord_writes env var expr merge st rec).grows.edgeRows_le)
      (fun st rec => (setPropertiesRecord_writes env var expr merge st rec).exact) records st
    have hgrow := mapTrace_relates (R:=EdgesGrow) (EdgesGrow.refl []) EdgesGrow.trans
      (fun st rec => (setPropertiesRecord_writes env var expr merge st rec).grows) records st
    rw [SetsMapsInPlace,hmap.2]
    exact hgrow.framed_iff
  · have hfold := fun st rec => foldMeets_iff_const (φ:=edgeRows)
      (fun st rec item => (removeItem_writes env st rec item).grows.edgeRows_le)
      (fun st rec item => (removeItem_writes env st rec item).exact) items rec st
    have hmap := mapMeets_iff_const (φ:=edgeRows) (fun st rec => (hfold st rec).1)
      (fun st rec => (hfold st rec).2) records st
    have hgrow := mapTrace_relates (R:=EdgesGrow) (EdgesGrow.refl []) EdgesGrow.trans
      (fun st rec => foldTrace_relates (R:=EdgesGrow) (EdgesGrow.refl []) EdgesGrow.trans
        (fun st rec item => (removeItem_writes env st rec item).grows) items rec st) records st
    rw [RemovesInPlace,hmap.2]
    exact hgrow.framed_iff

end Items

/-- A database with one relationship of type R from 1 to 2. -/
def oneEdgeStore : Store := (createEdge 1 2 "R" [] freshStore).2

/-- The record of that relationship as a match binds it. -/
def oneEdgeRecord : NamedRecord :=
  ⟨[("r.__src",.i64 1),("r.__dst",.i64 2),("r.__type",.string "R"),("r.__edge_seq",.i64 0)]⟩

/-- The records and the database after `DELETE r`. -/
def afterDelete : Except GraphError (List NamedRecord)×Store :=
  execDelete literalEnv [oneEdgeRecord] [.var "r"] false oneEdgeStore

/-- `MATCH ()-[r]->() DELETE r SET r.p = 1` brings the deleted row back. -/
theorem set_after_delete_restores_row :
    ∃ records,afterDelete.1=.ok records ∧ records.length=1 ∧ keys afterDelete.2.edgeProps=[] ∧
      ¬EdgesFramed (setMarks literalEnv records [⟨"r","p",.i64 1⟩] afterDelete.2) afterDelete.2
        (execSetProperty literalEnv records [⟨"r","p",.i64 1⟩] afterDelete.2).2 := by
  refine ⟨[⟨oneEdgeRecord.fields++[("r.__deleted",.bool true)]⟩],rfl,rfl,by decide,?_⟩
  intro hframed
  have hkeys := hframed.present
  revert hkeys
  decide

end GraphDbLite.EdgePropertyFrame
