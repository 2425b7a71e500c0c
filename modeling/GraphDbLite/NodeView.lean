import GraphDbLite.LabelStatistics

/-!
# What writes do to the stored node records

The indexes depend on the node records only. Here every storage call is
described by the record it writes: identifiers are fresh when they are handed
out, the label column follows the labels, and deletion cannot fail half way
because the adjacency tables hold checked types. Relationship writes and
statistics are invisible at this level.
-/

namespace GraphDbLite.NodeView

open ByteStrings GraphTypes OrderedTable StatefulActions GraphStore EdgeStorage NodeStorage
open AdjacencyEncoding LabelStatistics

/-- The record stored for a node. -/
def recordAt (st : Store) (id : NodeId) : Option NodeRecord := (get st.nodes id).map NodeRow.value

/-- The part of a well-formed database on which node writes depend. -/
structure NodesOk (st : Store) : Prop where
  /-- Stored identifiers were handed out. -/
  ids : ∀ id∈keys st.nodes,id<nodeIdCounter st
  /-- The identifier counter exists and holds a word. -/
  counter : ∃ raw,get st.metadata nextNodeIdKey=some raw ∧ 8 ≤ raw.length
  /-- The label column joins the labels. -/
  columns : ∀ id row,get st.nodes id=some row → row.label=String.intercalate ":" row.value.labels
  /-- The outgoing table holds checked types. -/
  adjOut : AdjOk st.adjOut
  /-- The incoming table holds checked types. -/
  adjIn : AdjOk st.adjIn

theorem nodesOk_freshStore : NodesOk freshStore where
  ids id hid := absurd hid List.not_mem_nil
  counter := labelInv_freshStore.counter
  columns id row hget := absurd hget (by rw [freshStore,get_empty]; simp)
  adjOut key data hget := absurd hget (by rw [freshStore,get_empty]; simp)
  adjIn key data hget := absurd hget (by rw [freshStore,get_empty]; simp)

/-- A write that neither the node records nor the indexes see. -/
structure Unseen (st st' : Store) : Prop where
  /-- Same node rows. -/
  nodes : st'.nodes=st.nodes
  /-- Same identifier counter row. -/
  next : get st'.metadata nextNodeIdKey=get st.metadata nextNodeIdKey
  /-- Same index tables. -/
  indexTables : st'.indexTables=st.indexTables
  /-- Same full-text tables. -/
  ftsTables : st'.ftsTables=st.ftsTables
  /-- The outgoing table stays well formed. -/
  adjOut : AdjOk st.adjOut → AdjOk st'.adjOut
  /-- The incoming table stays well formed. -/
  adjIn : AdjOk st.adjIn → AdjOk st'.adjIn

theorem Unseen.refl (st : Store) : Unseen st st := ⟨rfl,rfl,rfl,rfl,fun h => h,fun h => h⟩

variable {a b c : Store} {st : Store} {id : NodeId} {record : NodeRecord}

theorem Unseen.trans (hab : Unseen a b) (hbc : Unseen b c) : Unseen a c :=
  ⟨hbc.nodes.trans hab.nodes,hbc.next.trans hab.next,hbc.indexTables.trans hab.indexTables,
    hbc.ftsTables.trans hab.ftsTables,fun h => hbc.adjOut (hab.adjOut h),
    fun h => hbc.adjIn (hab.adjIn h)⟩

theorem unseen_foldl {ι : Type} {f : Store → ι → Store} (h : ∀ st i,Unseen st (f st i))
    (items : List ι) (st : Store) : Unseen st (items.foldl f st) := by
  induction items generalizing st with
  | nil => exact Unseen.refl st
  | cons i items ih => exact (h st i).trans (ih _)

theorem unseen_metadata {m : Table String Bytes} (h : get m nextNodeIdKey=get st.metadata nextNodeIdKey) :
    Unseen st {st with metadata := m} :=
  ⟨rfl,h,rfl,rfl,fun h => h,fun h => h⟩

theorem unseen_incrementLabelCount (st : Store) (label : String) :
    Unseen st (incrementLabelCount st label) :=
  unseen_metadata (get_put_ne (labelCountKey_ne_nextNodeIdKey label).symm)

theorem unseen_decrementLabelCount (st : Store) (label : String) :
    Unseen st (decrementLabelCount st label) := by
  have ⟨m,hstore,hframe⟩ := decrementCountBy_frame st (labelCountKey label) 1
  rw [decrementLabelCount,hstore]
  exact unseen_metadata (hframe _ (labelCountKey_ne_nextNodeIdKey label).symm)

theorem unseen_decrementEdgeTypeCountBy (st : Store) (typeName : String) (n : UInt64) :
    Unseen st (decrementEdgeTypeCountBy st typeName n) := by
  have ⟨m,hstore,hframe⟩ := decrementCountBy_frame st (edgeTypeCountKey typeName) n
  rw [decrementEdgeTypeCountBy,hstore]
  exact unseen_metadata (hframe _ (edgeTypeCountKey_ne_nextNodeIdKey typeName).symm)

theorem unseen_adjRemove (st : Store) (src dst : NodeId) (label : String) :
    Unseen st {st with
      adjOut := adjRemove st.adjOut src label dst,adjIn := adjRemove st.adjIn dst label src} :=
  ⟨rfl,rfl,rfl,rfl,fun h => (adjRemove_spec h src dst label).1,
    fun h => (adjRemove_spec h dst src label).1⟩

theorem unseen_deleteEdge (st : Store) (src dst : NodeId) (label : String) :
    Unseen st (deleteEdge st src dst label) := by
  have hrows : Unseen st {st with
      adjOut := adjRemove st.adjOut src label dst,
      adjIn := adjRemove st.adjIn dst label src,
      edgeProps := deleteAll st.edgeProps
        ((scanPrefix st.edgeProps (edgePropsPrefix src dst label)).map Prod.fst)} :=
    (unseen_adjRemove st src dst label).trans ⟨rfl,rfl,rfl,rfl,fun h => h,fun h => h⟩
  unfold deleteEdge
  dsimp only
  split_ifs
  · exact hrows.trans (unseen_decrementEdgeTypeCountBy _ label _)
  · exact hrows

theorem unseen_deleteSingleEdge (st : Store) (src dst : NodeId) (label : String) (seq : UInt64) :
    Unseen st (deleteSingleEdge st src dst label seq) := by
  have hrow : Unseen st {st with
      edgeProps := delete st.edgeProps (edgePropsKey src dst label seq)} :=
    ⟨rfl,rfl,rfl,rfl,fun h => h,fun h => h⟩
  have hcount : Unseen st
      (if contains st.edgeProps (edgePropsKey src dst label seq)=true then
        decrementEdgeTypeCountBy
          {st with edgeProps := delete st.edgeProps (edgePropsKey src dst label seq)} label 1
      else {st with edgeProps := delete st.edgeProps (edgePropsKey src dst label seq)}) := by
    split_ifs
    · exact hrow.trans (unseen_decrementEdgeTypeCountBy _ label 1)
    · exact hrow
  unfold deleteSingleEdge
  dsimp only
  split_ifs at hcount ⊢
  · exact hcount.trans (unseen_adjRemove _ src dst label)
  · exact hcount
  · exact hcount.trans (unseen_adjRemove _ src dst label)
  · exact hcount

theorem unseen_createEdge (st : Store) (src dst : NodeId) (label : String) (props : Properties) :
    Unseen st (createEdge src dst label props st).2 := by
  by_cases hnames : CheckedNames label props
  · have hlink : Unseen st (linkEdge st src dst label) :=
      ⟨rfl,rfl,rfl,rfl,fun h => adjOk_adjInsert h src dst hnames.1,
        fun h => adjOk_adjInsert h dst src hnames.1⟩
    have hkeeps : Keeps (Unseen st) (nextEdgeSeq >>= fun seq =>
        update (fun st => {st with edgeProps := put st.edgeProps (edgePropsKey src dst label seq) props}) >>=
          fun _ => update fun st => incrementEdgeTypeCount st label) := by
      refine keeps_bind ?_ fun seq => ?_
      · intro mid hmid
        have ⟨m,hstore,hframe⟩ := nextEdgeSeq_frame mid
        rw [hstore]
        exact hmid.trans (unseen_metadata (hframe _ nextNodeIdKey_ne_nextEdgeSeqKey))
      · refine keeps_bind (keeps_update fun mid hmid => ?_) fun _ => keeps_update fun mid hmid => ?_
        · exact hmid.trans ⟨rfl,rfl,rfl,rfl,fun h => h,fun h => h⟩
        · exact hmid.trans (unseen_metadata
            (get_put_ne (edgeTypeCountKey_ne_nextNodeIdKey label).symm))
    rw [createEdge_checked hnames]
    exact hkeeps _ hlink
  · obtain ⟨e,herror⟩ := createEdge_rejected hnames st
    rw [herror]
    exact Unseen.refl st

theorem Unseen.recordAt {st st' : Store} (h : Unseen st st') (id : NodeId) :
    recordAt st' id=recordAt st id := by
  rw [NodeView.recordAt,h.nodes,NodeView.recordAt]

theorem NodesOk.of_unseen {st st' : Store} (h : NodesOk st) (hsame : Unseen st st') : NodesOk st' := by
  have hcounter : nodeIdCounter st'=nodeIdCounter st := by
    unfold nodeIdCounter counterValue
    rw [hsame.next]
  refine ⟨?_,?_,?_,hsame.adjOut h.adjOut,hsame.adjIn h.adjIn⟩
  · rw [hsame.nodes,hcounter]
    exact h.ids
  · rw [hsame.next]
    exact h.counter
  · rw [hsame.nodes]
    exact h.columns

theorem NodesOk.withTables (h : NodesOk st) (indexTables : Table String (Table Bytes Unit))
    (ftsTables : Table String FtsTable) : NodesOk {st with indexTables := indexTables,ftsTables := ftsTables} :=
  ⟨h.ids,h.counter,h.columns,h.adjOut,h.adjIn⟩

/-- A call that writes the record of one node, or deletes it. -/
structure RecordWritten (id : NodeId) (record : Option NodeRecord) (st st' : Store) : Prop where
  /-- Only the record of that node changes. -/
  view : ∀ other,recordAt st' other=if other=id then record else recordAt st other
  /-- Same index tables. -/
  indexTables : st'.indexTables=st.indexTables
  /-- Same full-text tables. -/
  ftsTables : st'.ftsTables=st.ftsTables
  /-- The database stays well formed. -/
  ok : NodesOk st'

theorem RecordWritten.unseen {record : Option NodeRecord} (h : RecordWritten id record a b) (hbc : Unseen b c) :
    RecordWritten id record a c :=
  ⟨fun other => (hbc.recordAt other).trans (h.view other),hbc.indexTables.trans h.indexTables,
    hbc.ftsTables.trans h.ftsTables,h.ok.of_unseen hbc⟩

theorem Unseen.written {record : Option NodeRecord} (hab : Unseen a b) (h : RecordWritten id record b c) :
    RecordWritten id record a c :=
  ⟨fun other => by rw [h.view other,hab.recordAt other],h.indexTables.trans hab.indexTables,
    h.ftsTables.trans hab.ftsTables,h.ok⟩

theorem recordWritten_putNode (h : NodesOk st) (hid : id<nodeIdCounter st) (record : NodeRecord) :
    RecordWritten id (some record) st (putNode st id record) := by
  refine ⟨fun other => ?_,rfl,rfl,⟨?_,h.counter,?_,h.adjOut,h.adjIn⟩⟩
  · unfold recordAt putNode
    rw [get_put]
    split_ifs <;> rfl
  · intro other hother
    rcases mem_keys_put.mp hother with hnew|hold
    · rw [hnew]
      exact hid
    · exact h.ids other hold
  · intro other row hget
    rw [putNode,get_put] at hget
    split_ifs at hget with hsame
    · rw [←Option.some.inj hget]
    · exact h.columns other row hget

theorem getRecord_of_recordAt (h : recordAt st id=some record) : getRecord st id=.ok record := by
  have ⟨row,hget,hvalue⟩ := Option.map_eq_some_iff.mp h
  rw [getRecord,hget]
  exact congrArg Except.ok hvalue

theorem getRecord_of_missing (h : recordAt st id=none) : getRecord st id=.error (.nodeNotFound id none) := by
  rw [getRecord,Option.map_eq_none_iff.mp h]

theorem getNode_of_recordAt (h : recordAt st id=some record) :
    getNode st id=.ok ⟨id,record.labels,record.properties⟩ := by
  rw [getNode,getRecord_of_recordAt h]
  rfl

theorem getNode_of_missing (h : recordAt st id=none) : getNode st id=.error (.nodeNotFound id none) := by
  rw [getNode,getRecord_of_missing h]
  rfl

theorem NodesOk.id_lt (h : NodesOk st) (hrec : recordAt st id=some record) : id<nodeIdCounter st := by
  have ⟨row,hget,_⟩ := Option.map_eq_some_iff.mp hrec
  exact h.ids id (mem_keys.mpr ⟨row,hget⟩)

theorem rewriteRecord_spec (h : NodesOk st) (id : NodeId) (f : NodeRecord → NodeRecord) :
    (recordAt st id=none ∧
      (inspect (fun st => getRecord st id) >>= fun record =>
        update fun st => putNode st id (f record) : Db Unit) st=(.error (.nodeNotFound id none),st)) ∨
    ∃ record,recordAt st id=some record ∧
      (inspect (fun st => getRecord st id) >>= fun record =>
        update fun st => putNode st id (f record) : Db Unit) st=(.ok (),putNode st id (f record)) ∧
      RecordWritten id (some (f record)) st (putNode st id (f record)) := by
  cases hrec : recordAt st id with
  | none =>
    refine Or.inl ⟨rfl,?_⟩
    rw [inspect_error (by exact getRecord_of_missing hrec)]
  | some record =>
    refine Or.inr ⟨record,rfl,?_,recordWritten_putNode h (h.id_lt hrec) (f record)⟩
    rw [inspect_ok (by exact getRecord_of_recordAt hrec),update_apply]

theorem createNode_spec (h : NodesOk st) (labels : List String) (properties : Properties) :
    (∃ e,createNode labels properties st=(.error e,st)) ∨ ∃ id st',createNode labels properties st=(.ok id,st') ∧
    recordAt st id=none ∧ RecordWritten id (some ⟨labels.insertionSort (· ≤ ·),properties⟩) st st' := by
  by_cases hnames : CheckedNode labels properties
  · have ⟨raw,hraw,hlen⟩ := h.counter
    by_cases hc : nodeIdCounter st=0xFFFFFFFFFFFFFFFF
    · exact Or.inl ⟨_,createNode_exhausted hnames hraw hlen hc⟩
    · refine Or.inr ⟨nodeIdCounter st,_,createNode_ok hnames hraw hlen hc,?_,?_⟩
      · cases hget : get st.nodes (nodeIdCounter st) with
        | none => rw [recordAt,hget,Option.map_none]
        | some row => exact absurd (h.ids _ (mem_keys.mpr ⟨row,hget⟩)) (lt_irrefl _)
      · let next : Store :=
          {st with metadata := put st.metadata nextNodeIdKey (toBeBytes (nodeIdCounter st+1))}
        have hcounter : nodeIdCounter next=nodeIdCounter st+1 := by
          unfold nodeIdCounter counterValue
          rw [get_put_self]
          dsimp only
          rw [List.take_of_length_le (by simp),fromBeBytes_toBeBytes]
          rfl
        have hsucc := toNat_succ (succ_lt_of_ne_max hc)
        have hnext : NodesOk next := by
          refine ⟨?_,⟨_,get_put_self _ _ _,(toBeBytes_length _).ge⟩,h.columns,h.adjOut,h.adjIn⟩
          intro id hid
          have hlt := UInt64.lt_iff_toNat_lt.mp (h.ids id hid)
          rw [hcounter,UInt64.lt_iff_toNat_lt,hsucc]
          omega
        have hroom : nodeIdCounter st<nodeIdCounter next := by
          rw [hcounter,UInt64.lt_iff_toNat_lt,hsucc]
          omega
        have hput := recordWritten_putNode hnext hroom ⟨labels.insertionSort (· ≤ ·),properties⟩
        have hcounts := unseen_foldl unseen_incrementLabelCount (labels.insertionSort (· ≤ ·))
          (putNode next (nodeIdCounter st) ⟨labels.insertionSort (· ≤ ·),properties⟩)
        have hall := hput.unseen hcounts
        exact ⟨hall.view,hall.indexTables,hall.ftsTables,hall.ok⟩
  · have ⟨e,herror⟩ := createNode_rejected hnames st
    exact Or.inl ⟨e,herror⟩

/-- A property write is refused without a trace, or writes the changed record. -/
theorem setNodeProperty_spec (h : NodesOk st) (id : NodeId) (key : String) (value : Value) :
    (∃ e,setNodeProperty id key value st=(.error e,st)) ∨ ∃ record st',recordAt st id=some record ∧
    setNodeProperty id key value st=(.ok (),st') ∧
    RecordWritten id (some {record with properties := withProperty record.properties key value}) st st' := by
  unfold setNodeProperty
  cases hname : validateName key with
  | error e =>
    refine Or.inl ⟨e,?_⟩
    rw [inspect_error (by rfl)]
  | ok u =>
    rw [inspect_ok (by rfl)]
    have hspec := rewriteRecord_spec h id fun record =>
      {record with properties := withProperty record.properties key value}
    rcases hspec with ⟨-,herror⟩|⟨record,hrec,hrun,hwritten⟩
    · exact Or.inl ⟨_,herror⟩
    · exact Or.inr ⟨record,_,hrec,hrun,hwritten⟩

theorem removeNodeLabel_spec (h : NodesOk st) (id : NodeId) (label : String)
    (hrec : recordAt st id=some record) : ∃ st',removeNodeLabel id label st=(.ok (),st') ∧
    RecordWritten id (some {record with labels := record.labels.filter (· ≠ label)}) st st' := by
  have hread : getRecord st id=.ok record := getRecord_of_recordAt hrec
  unfold removeNodeLabel
  rw [inspect_ok (by exact hread)]
  by_cases hmem : label∉record.labels
  · rw [if_pos hmem]
    have hsame : record.labels.filter (· ≠ label)=record.labels := by
      apply List.filter_eq_self.mpr
      intro other hother
      exact decide_eq_true fun heq => hmem (heq ▸ hother)
    refine ⟨st,rfl,fun other => ?_,rfl,rfl,h⟩
    rw [hsame]
    split_ifs with hid
    · rw [hid,hrec]
    · rfl
  · rw [if_neg hmem]
    have hput := recordWritten_putNode h (h.id_lt hrec)
      {record with labels := record.labels.filter (· ≠ label)}
    exact ⟨_,rfl,hput.unseen (unseen_decrementLabelCount _ label)⟩

theorem addNodeLabel_spec (h : NodesOk st) (id : NodeId) (label : String) (hrec : recordAt st id=some record) :
    ∃ st' labels,addNodeLabel id label st=(.ok (),st') ∧
    RecordWritten id (some {record with labels := labels}) st st' ∧
    labels=if label∈record.labels then record.labels else (record.labels++[label]).insertionSort (· ≤ ·) := by
  have hread : getRecord st id=.ok record := getRecord_of_recordAt hrec
  unfold addNodeLabel
  rw [inspect_ok (by exact hread)]
  by_cases hmem : label∈record.labels
  · rw [if_pos hmem,if_pos hmem]
    refine ⟨st,record.labels,rfl,⟨fun other => ?_,rfl,rfl,h⟩,rfl⟩
    split_ifs with hid
    · rw [hid,hrec]
    · rfl
  · rw [if_neg hmem,if_neg hmem]
    have hput := recordWritten_putNode h (h.id_lt hrec)
      {record with labels := (record.labels++[label]).insertionSort (· ≤ ·)}
    exact ⟨_,_,rfl,hput.unseen (unseen_incrementLabelCount _ label),rfl⟩

theorem addNodeLabel_missing (hrec : recordAt st id=none) (label : String) :
    addNodeLabel id label st=(.error (.nodeNotFound id none),st) := by
  unfold addNodeLabel
  rw [inspect_error (by exact getRecord_of_missing hrec)]

theorem RecordWritten.trans {one two : Option NodeRecord} (hab : RecordWritten id one a b)
    (hbc : RecordWritten id two b c) : RecordWritten id two a c := by
  refine ⟨fun other => ?_,hbc.indexTables.trans hab.indexTables,hbc.ftsTables.trans hab.ftsTables,
    hbc.ok⟩
  rw [hbc.view other,hab.view other]
  split_ifs <;> rfl

theorem recordWritten_refl (h : NodesOk st) {record : Option NodeRecord} (hrec : recordAt st id=record) :
    RecordWritten id record st st := by
  refine ⟨fun other => ?_,rfl,rfl,h⟩
  split_ifs with hid
  · rw [hid,hrec]
  · rfl

theorem addNodeLabels_spec (h : NodesOk st) (id : NodeId) (labels : List String)
    (hrec : recordAt st id=some record) : ∃ st' added,forEach labels (addNodeLabel id) st=(.ok (),st') ∧
    RecordWritten id (some {record with labels := added}) st st' ∧ (∀ l,l∈added ↔ l∈record.labels ∨ l∈labels) ∧
    ∀ l,added.count l ≤ max (record.labels.count l) 1 := by
  induction labels generalizing st record with
  | nil => exact ⟨st,record.labels,rfl,recordWritten_refl h hrec,fun l => by simp,fun l => by omega⟩
  | cons label rest ih =>
    have ⟨st₁,one,hrun,hw,hone⟩ := addNodeLabel_spec h id label hrec
    have hrec₁ : recordAt st₁ id=some {record with labels := one} := by
      rw [hw.view id,if_pos rfl]
    have ⟨st₂,added,hloop,hw₂,hmem,hcount⟩ := ih hw.ok hrec₁
    have hmemOne : ∀ l,l∈one ↔ l∈record.labels ∨ l=label := by
      intro l
      rw [hone]
      split_ifs with hl
      · constructor
        · exact Or.inl
        · intro hx
          rcases hx with hx|hx
          · exact hx
          · rw [hx]
            exact hl
      · rw [(List.perm_insertionSort _ _).mem_iff]
        simp
    have hcountOne : ∀ l,one.count l ≤ max (record.labels.count l) 1 := by
      intro l
      rw [hone]
      split_ifs with hl
      · omega
      · rw [(List.perm_insertionSort _ _).count_eq,List.count_append]
        by_cases hx : label=l
        · have hzero : record.labels.count l=0 := List.count_eq_zero.mpr (hx ▸ hl)
          have hsingle : [label].count l≤1 := List.count_le_length
          omega
        · have hzero : [label].count l=0 := by simp [hx]
          omega
    refine ⟨st₂,added,?_,hw.trans hw₂,fun l => ?_,fun l => ?_⟩
    · rw [forEach,bind_ok hrun]
      exact hloop
    · rw [hmem l,hmemOne l,List.mem_cons,or_assoc]
    · have hfirst := hcountOne l
      have hsecond := hcount l
      dsimp only at hsecond
      omega

theorem addNodeLabels_missing (hrec : recordAt st id=none) (labels : List String) :
    forEach labels (addNodeLabel id) st=(.error (.nodeNotFound id none),st) ∨ forEach labels (addNodeLabel id)
    st=(.ok (),st) := by
  cases labels with
  | nil => exact Or.inr rfl
  | cons label rest => exact Or.inl (bind_error (addNodeLabel_missing hrec label))

theorem edgeLabelEntries_ok {t : Table Bytes Bytes} (h : AdjOk t) (node : NodeId) :
    ∃ entries,edgeLabelEntries t node=.ok entries := by
  have hrows : ∀ row∈(scanPrefix t (toBeBytes node)).filter fun entry => 8<entry.1.length,
      ∃ m l,isValidName l=true ∧ row.1=adjKey m l := by
    intro row hrow
    rw [scanPrefix_eq_scan] at hrow
    exact (h row.1 row.2 (mem_scan.mp (List.mem_of_mem_filter hrow)).1).1
  unfold edgeLabelEntries
  generalize (scanPrefix t (toBeBytes node)).filter (fun entry => 8<entry.1.length)=rows at hrows
  induction rows with
  | nil => exact ⟨[],rfl⟩
  | cons row rows ih =>
    have ⟨m,l,hl,hkey⟩ := hrows row List.mem_cons_self
    have ⟨entries,hentries⟩ := ih fun other ho => hrows other (List.mem_cons_of_mem _ ho)
    have hdrop : row.1.drop 8=asBytes l := by
      rw [hkey,adjKey]
      exact List.drop_left' (by simp)
    refine ⟨(l,decodeIdList row.2)::entries,?_⟩
    rw [List.mapM_cons,hentries,hdrop,fromUtf8_asBytes]
    rfl

theorem deleteNode_spec (h : NodesOk st) (hrec : recordAt st id=some record) :
    ∃ st',deleteNode id st=(.ok (),st') ∧ RecordWritten id none st st' := by
  have ⟨outEdges,hout⟩ := edgeLabelEntries_ok h.adjOut id
  have hunseenOut : Unseen st (deleteOutEdges id outEdges st) := by
    refine unseen_foldl (fun st entry => ?_) outEdges st
    exact unseen_foldl (f:=fun st dst => deleteEdge st id dst entry.1)
      (fun st dst => unseen_deleteEdge st id dst entry.1) entry.2 st
  have hmid := h.of_unseen hunseenOut
  have ⟨inEdges,hin⟩ := edgeLabelEntries_ok hmid.adjIn id
  have hunseenIn : Unseen (deleteOutEdges id outEdges st)
      (deleteInEdges id inEdges (deleteOutEdges id outEdges st)) := by
    refine unseen_foldl (fun st entry => ?_) inEdges _
    exact unseen_foldl (f:=fun st src => deleteEdge st src id entry.1)
      (fun st src => unseen_deleteEdge st src id entry.1) entry.2 st
  have hunseen := hunseenOut.trans hunseenIn
  have hclean := h.of_unseen hunseen
  generalize hlast : deleteInEdges id inEdges (deleteOutEdges id outEdges st)=last at hunseen hclean
  have hdrop : RecordWritten id none last {last with nodes := delete last.nodes id} := by
    refine ⟨fun other => ?_,rfl,rfl,⟨?_,hclean.counter,?_,hclean.adjOut,hclean.adjIn⟩⟩
    · unfold recordAt
      rw [get_delete]
      split_ifs <;> rfl
    · intro other hother
      exact hclean.ids other (mem_keys_delete.mp hother).2
    · intro other row hget
      rw [get_delete] at hget
      split_ifs at hget with hsame
      exact hclean.columns other row hget
  refine ⟨_,?_,hunseen.written (hdrop.unseen (unseen_foldl unseen_decrementLabelCount record.labels _))⟩
  unfold deleteNode
  rw [inspect_ok (by exact getNode_of_recordAt hrec),
    bind_ok (show inspect (fun st => getAllEdgeLabels st id .outgoing) st=(.ok outEdges,st) by
      rw [inspect_apply,getAllEdgeLabels,hout]),
    bind_ok (by rw [update_apply]),
    bind_ok (show inspect (fun st => getAllEdgeLabels st id .incoming) (deleteOutEdges id outEdges st)=
      (.ok inEdges,deleteOutEdges id outEdges st) by rw [inspect_apply,getAllEdgeLabels,hin]),
    bind_ok (by rw [update_apply]),hlast]
  rfl

theorem deleteNode_missing (hrec : recordAt st id=none) : deleteNode id st=(.error (.nodeNotFound id none),st) := by
  unfold deleteNode
  rw [inspect_error (by exact getNode_of_missing hrec)]

end GraphDbLite.NodeView
