import GraphDbLite.LabelScan
import GraphDbLite.NameValidity

/-!
# Label counters and scans along statements

Write statements and calls of a transaction reach the nodes through the storage calls, so
that the counters of labels stay exact along every run of them whose creations name no
label twice. The scan of a label then returns at least as many nodes as its counter says,
and as many exactly when no node can be misread as carrying it.
-/

namespace GraphDbLite.StatementCounts

open GraphTypes OrderedTable StatefulActions GraphStore EdgeStorage NodeStorage LabelStatistics
open StorageCalls StoredContents NameValidity LabelScan IndexMirror WriteOperators PropertySetters

/-- Label columns join the labels. -/
def Columns (st : Store) : Prop := ∀ id row,get st.nodes id=some row → row.label=String.intercalate ":" row.value.labels

/-- The counters are exact and the label columns are in line. -/
structure CountsInv (st : Store) : Prop where
  /-- Counters, labels and identifiers. -/
  labels : LabelInv st
  /-- Label columns. -/
  columns : Columns st

/-- A creation that takes place is given a list without repetition. -/
def DistinctGiven (st : Store) : StorageCall → Prop
  | .createNode labels properties => DistinctLabels st (.createNode labels properties)
  | _ => True

variable {st st' : Store}

/-- A written row has its labels joined. -/
theorem Columns.put (h : Columns st) {id : NodeId} {record : NodeRecord}
    (hnodes : st'.nodes=put st.nodes id ⟨String.intercalate ":" record.labels,record⟩) : Columns st' := by
  intro other row hget
  rw [hnodes,get_put] at hget
  split_ifs at hget
  · rw [←Option.some.inj hget]
  · exact h other row hget

theorem CountsInv.of_same (h : CountsInv st) (hsame : SameNodes st st') : CountsInv st' := by
  refine ⟨h.labels.of_same hsame,fun id row hget => ?_⟩
  rw [hsame.nodes] at hget
  exact h.columns id row hget

/-- New properties of a node change no counter. -/
theorem CountsInv.putProperties (h : CountsInv st) {id : NodeId} {record : NodeRecord}
    (hrecord : getRecord st id=.ok record) (properties : Properties) :
    CountsInv (putNode st id {record with properties := properties}) := by
  have ⟨row,hget,hvalue⟩ := getRecord_ok hrecord
  refine ⟨h.labels.putPresent hget rfl rfl ?_ ?_ fun l => ?_,h.columns.put rfl⟩
  · exact hvalue ▸ h.labels.exact.sorted id row hget
  · exact hvalue ▸ h.labels.exact.nodup id row hget
  · rw [hvalue]
    rfl

theorem CountsInv.createNode (h : CountsInv st) {labels : List String} {properties : Properties}
    (hdistinct : DistinctGiven st (.createNode labels properties)) :
    CountsInv (NodeStorage.createNode labels properties st).2 := by
  refine ⟨@LabelInv.step _ h.labels (.createNode labels properties) hdistinct,?_⟩
  have ⟨raw,hget,hlen⟩ := h.labels.counter
  by_cases hnames : CheckedNode labels properties
  · by_cases hc : nodeIdCounter st=0xFFFFFFFFFFFFFFFF
    · rw [createNode_exhausted hnames hget hlen hc]
      exact h.columns
    · rw [createNode_ok hnames hget hlen hc]
      exact h.columns.put (foldl_labelCounts_frame incrementLabelCount_frame _ _).1
  · have ⟨e,herror⟩ := createNode_rejected hnames st
    rw [herror]
    exact h.columns

theorem CountsInv.deleteNode (h : CountsInv st) (id : NodeId) : CountsInv (deleteNode id st).2 := by
  refine ⟨h.labels.deleteNode id,?_⟩
  refine inspect_bind h.columns fun node hnode => inspect_bind h.columns fun outEdges _ => ?_
  have hafterOut : Columns (deleteOutEdges id outEdges st) := (h.of_same (sameNodes_deleteOutEdges id outEdges st)).columns
  change Columns ((inspect (fun st => getAllEdgeLabels st id .incoming) >>= _)
    (deleteOutEdges id outEdges st)).2
  refine inspect_bind hafterOut fun inEdges _ => ?_
  have hsame := (sameNodes_deleteOutEdges id outEdges st).trans (sameNodes_deleteInEdges id inEdges (deleteOutEdges id outEdges st))
  intro other row hget
  have hnodes := (foldl_labelCounts_frame decrementLabelCount_frame node.labels
    {deleteInEdges id inEdges (deleteOutEdges id outEdges st) with
      nodes := delete (deleteInEdges id inEdges (deleteOutEdges id outEdges st)).nodes id}).1
  have hleft : get (delete st.nodes id) other=some row := by
    rw [←hsame.nodes]
    exact (congrArg (fun t => get t other) hnodes).symm.trans hget
  rw [get_delete] at hleft
  split_ifs at hleft
  exact h.columns other row hleft

theorem sameNodes_decrementEdgeTypeCountBy (st : Store) (label : String) (n : UInt64) :
    SameNodes st (decrementEdgeTypeCountBy st label n) := by
  have ⟨m,hstore,hframe⟩ := decrementCountBy_frame st (edgeTypeCountKey label) n
  rw [decrementEdgeTypeCountBy,hstore]
  exact ⟨rfl,hframe _ (edgeTypeCountKey_ne_nextNodeIdKey label).symm,
    fun name => hframe _ (labelCountKey_ne_edgeTypeCountKey name label)⟩

theorem sameNodes_deleteSingleEdge (st : Store) (src dst : NodeId) (label : String) (seq : UInt64) :
    SameNodes st (deleteSingleEdge st src dst label seq) := by
  let base : Store := {st with edgeProps := delete st.edgeProps (edgePropsKey src dst label seq)}
  have hbase : SameNodes st base := ⟨rfl,rfl,fun _ => rfl⟩
  have huncounted := hbase.trans (sameNodes_decrementEdgeTypeCountBy base label 1)
  unfold deleteSingleEdge
  dsimp only
  split_ifs
  · exact huncounted.trans ⟨rfl,rfl,fun _ => rfl⟩
  · exact huncounted
  · exact ⟨rfl,rfl,fun _ => rfl⟩
  · exact hbase

theorem CountsInv.call (h : CountsInv st) {c : StorageCall} (hdistinct : DistinctGiven st c) :
    CountsInv (c.run st).2 := by
  cases c with
  | createNode labels properties => exact keeps_then_pure (h.createNode hdistinct) fun _ => ()
  | createEdge src dst label properties => exact h.of_same (sameNodes_createEdge st src dst label properties)
  | setNodeProperty id key val =>
    exact inspect_bind h fun _ _ => inspect_bind h fun record hrecord => h.putProperties hrecord _
  | setAllNodeProperties id properties =>
    exact inspect_bind h fun record hrecord => h.putProperties hrecord _
  | addNodeLabel id label =>
    refine ⟨h.labels.addNodeLabel id label,?_⟩
    change Columns (NodeStorage.addNodeLabel id label st).2
    unfold NodeStorage.addNodeLabel
    refine inspect_bind h.columns fun record _ => ?_
    split_ifs
    · exact h.columns
    · exact h.columns.put rfl
  | setEdgeProperty src dst label seq key val => exact h.of_same ⟨rfl,rfl,fun _ => rfl⟩
  | setAllEdgeProperties src dst label seq properties => exact h.of_same ⟨rfl,rfl,fun _ => rfl⟩

theorem keeps_removal (r : Removal) : Keeps CountsInv r.run := by
  intro st h
  cases r with
  | nodeProperty id key => exact inspect_bind h fun record hrecord => h.putProperties hrecord _
  | clearNodeProperty id key =>
    exact inspect_bind h fun _ _ => inspect_bind h fun record hrecord => h.putProperties hrecord _
  | nodeLabel id label =>
    refine ⟨h.labels.removeNodeLabel id label,?_⟩
    change Columns (removeNodeLabel id label st).2
    unfold removeNodeLabel
    refine inspect_bind h.columns fun record _ => ?_
    by_cases habsent : label∉record.labels
    · rw [if_pos habsent]
      exact h.columns
    · rw [if_neg habsent]
      exact h.columns.put (decrementLabelCount_frame _ label).1
  | node id => exact h.deleteNode id
  | edges src dst label => exact h.of_same (sameNodes_deleteEdge st src dst label)
  | edge src dst label seq => exact h.of_same (sameNodes_deleteSingleEdge st src dst label seq)

theorem keptBy_distinct : KeptBy DistinctGiven CountsInv where
  call _ _ h hdistinct := h.call hdistinct
  removal := keeps_removal
  indexTables _ _ h := h.of_same ⟨rfl,rfl,fun _ => rfl⟩
  ftsTables _ _ h := h.of_same ⟨rfl,rfl,fun _ => rfl⟩

theorem countsInv_freshStore : CountsInv freshStore :=
  ⟨labelInv_freshStore,fun id row hget => absurd hget (by rw [freshStore,get_empty]; simp)⟩

section Scan

variable {label : String}

/-- What a scan of a label compares with its counter: rows whose column matches. -/
theorem findNodesByLabel_length (hlabel : label≠"") (st : Store) :
    (findNodesByLabel st label).length=(st.nodes.rows.filter fun row => labelColumnMatches label row.2.label).length := by
  unfold findNodesByLabel
  rw [List.length_map]
  simp [hlabel]

/-- The scan of a label is never shorter than its counter says, and as long exactly when no stored
node can be misread as carrying it. -/
def ScanCounts (st : Store) (label : String) : Prop :=
  (getLabelCount st label).toNat≤(findNodesByLabel st label).length ∧
    ((findNodesByLabel st label).length=(getLabelCount st label).toNat ↔
      ∀ id row,get st.nodes id=some row → Reads label row.value.labels → label∈row.value.labels)

theorem scan_length (h : CountsInv st) (hnames : ValidNames st) (hlabel : isValidName label=true) :
    ScanCounts st label := by
  have hrow : ∀ row∈st.nodes.rows,get st.nodes row.1=some row.2 := fun row hin => get_eq_some.mpr hin
  have hcarried : ∀ row∈st.nodes.rows,carries label row.1 row.2=true → labelColumnMatches label row.2.label=true := by
    intro row hin hcarries
    rw [h.columns row.1 row.2 (hrow row hin)]
    exact labelColumnMatches_of_mem (of_decide_eq_true hcarries)
  have hmatches : ∀ row∈st.nodes.rows,labelColumnMatches label row.2.label=true ↔ Reads label row.2.value.labels := by
    intro row hin
    rw [h.columns row.1 row.2 (hrow row hin)]
    exact labelColumnMatches_iff hlabel (hnames.labels row.1 row.2 (hrow row hin))
  have hfilter : (st.nodes.rows.filter fun row => carries label row.1 row.2)=
      (st.nodes.rows.filter fun row => labelColumnMatches label row.2.label).filter fun row => carries label row.1 row.2 := by
    rw [List.filter_filter]
    refine List.filter_congr fun row hin => ?_
    have himp := hcarried row hin
    revert himp
    cases carries label row.1 row.2 <;> simp
  have hsub := List.filter_sublist (p := fun row : NodeId×NodeRow => carries label row.1 row.2)
    (l := st.nodes.rows.filter fun row => labelColumnMatches label row.2.label)
  rw [←hfilter] at hsub
  rw [ScanCounts,h.labels.exact.counts,findNodesByLabel_length (ne_empty_of_validName hlabel),nodesWithLabel,countRows,
    List.countP_eq_length_filter]
  refine ⟨hsub.length_le,fun heq id row hget hreads => ?_,fun hread => ?_⟩
  · have hsame := hsub.eq_of_length heq.symm
    have hin := get_eq_some.mp hget
    have hfound : (id,row)∈st.nodes.rows.filter fun row => labelColumnMatches label row.2.label :=
      List.mem_filter.mpr ⟨hin,(hmatches (id,row) hin).mpr hreads⟩
    rw [←hsame] at hfound
    exact of_decide_eq_true (List.mem_filter.mp hfound).2
  · refine congrArg List.length (List.filter_congr fun row hin => Bool.eq_iff_iff.mpr ⟨fun hmatch => ?_,hcarried row hin⟩)
    exact decide_eq_true (hread row.1 row.2 (hrow row hin) ((hmatches row hin).mp hmatch))

end Scan

/-- `CREATE (n:A:B)` and a relationship of the node with itself. -/
def countedSteps : List (WriteStep Value) :=
  [.clause (.createNode ["A","B"] (some "n") []),.call (.createEdge 1 1 "R" [])]

end GraphDbLite.StatementCounts
