import GraphDbLite.NodeStorage

/-!
# Label statistics

The counter of a label should equal the number of stored nodes that carry it,
and stored label lists should be sorted without repetition. Deletion, adding and
removing a label keep this. Creation counts the list it is given and stores it
with its repetitions, so it keeps the statistics exactly when the list has none.
-/

namespace GraphDbLite.LabelStatistics

open ByteStrings GraphTypes OrderedTable StatefulActions GraphStore EdgeStorage NodeStorage

/-- Whether a node row carries a label. -/
def carries (l : String) (_ : NodeId) (row : NodeRow) : Bool := decide (l∈row.value.labels)

/-- Number of stored nodes whose label list contains a label. -/
def nodesWithLabel (st : Store) (l : String) : Nat := countRows st.nodes (carries l)

/-- Counters are exact and stored label lists are sorted without repetition. -/
structure LabelsExact (st : Store) : Prop where
  /-- The counter of a label counts the nodes that carry it. -/
  counts : ∀ l,(getLabelCount st l).toNat=nodesWithLabel st l
  /-- Stored lists are sorted. -/
  sorted : ∀ id row,get st.nodes id=some row → row.value.labels.Pairwise (·≤·)
  /-- Stored lists have no repetition. -/
  nodup : ∀ id row,get st.nodes id=some row → row.value.labels.Nodup

/-- The inductive invariant: exactness, and identifiers below the counter. -/
structure LabelInv (st : Store) : Prop where
  /-- The statistics are exact. -/
  exact : LabelsExact st
  /-- Stored identifiers were handed out. -/
  ids : ∀ id∈keys st.nodes,id<nodeIdCounter st
  /-- No more nodes than identifiers handed out. -/
  bound : (keys st.nodes).length≤(nodeIdCounter st).toNat
  /-- The identifier counter exists and holds a word. -/
  counter : ∃ raw,get st.metadata nextNodeIdKey=some raw ∧ 8 ≤ raw.length

theorem labelInv_freshStore : LabelInv freshStore := by
  have hempty : ∀ id,get freshStore.nodes id=none := fun id => get_empty id
  refine ⟨⟨?_,?_,?_⟩,?_,Nat.zero_le _,?_⟩
  · intro l
    have hseq : labelCountKey l≠nextEdgeSeqKey := labelCountKey_ne_nextEdgeSeqKey l
    have hnode : labelCountKey l≠nextNodeIdKey := labelCountKey_ne_nextNodeIdKey l
    have hversion : labelCountKey l≠schemaVersionKey := labelCountKey_ne_schemaVersionKey l
    simp only [getLabelCount,getCount,freshStore]
    rw [get_put_ne hseq,get_put_ne hnode,get_put_ne hversion]
    rfl
  · intro id row hget
    rw [hempty] at hget
    cases hget
  · intro id row hget
    rw [hempty] at hget
    cases hget
  · intro id hid
    exact absurd hid List.not_mem_nil
  · refine ⟨toBeBytes 1,?_,(toBeBytes_length 1).ge⟩
    rw [freshStore,get_put_ne nextNodeIdKey_ne_nextEdgeSeqKey,get_put_self]

/-- Two stores with the same nodes, identifier counter and label counters. -/
structure SameNodes (st st' : Store) : Prop where
  /-- Same node rows. -/
  nodes : st'.nodes=st.nodes
  /-- Same identifier counter row. -/
  next : get st'.metadata nextNodeIdKey=get st.metadata nextNodeIdKey
  /-- Same label counter rows. -/
  counts : ∀ l,get st'.metadata (labelCountKey l)=get st.metadata (labelCountKey l)

theorem SameNodes.refl (st : Store) : SameNodes st st := ⟨rfl,rfl,fun _ => rfl⟩

theorem SameNodes.trans {a b c : Store} (hab : SameNodes a b) (hbc : SameNodes b c) :
    SameNodes a c :=
  ⟨hbc.nodes.trans hab.nodes,hbc.next.trans hab.next,fun l => (hbc.counts l).trans (hab.counts l)⟩

theorem LabelInv.of_same {st st' : Store} (hsame : SameNodes st st') (h : LabelInv st) :
    LabelInv st' := by
  have hnext : nodeIdCounter st'=nodeIdCounter st := by
    unfold nodeIdCounter counterValue
    rw [hsame.next]
  refine ⟨⟨?_,?_,?_⟩,?_,?_,?_⟩
  · intro l
    have hcount : getLabelCount st' l=getLabelCount st l := by
      unfold getLabelCount getCount
      rw [hsame.counts]
    rw [hcount,nodesWithLabel,hsame.nodes]
    exact h.exact.counts l
  · rw [hsame.nodes]
    exact h.exact.sorted
  · rw [hsame.nodes]
    exact h.exact.nodup
  · rw [hsame.nodes,hnext]
    exact h.ids
  · rw [hsame.nodes,hnext]
    exact h.bound
  · rw [hsame.next]
    exact h.counter

theorem sameNodes_deleteEdge (st : Store) (s d : NodeId) (l : String) :
    SameNodes st (deleteEdge st s d l) := by
  have hnext := (edgeTypeCountKey_ne_nextNodeIdKey l).symm
  have hcount := fun name => labelCountKey_ne_edgeTypeCountKey name l
  unfold deleteEdge
  dsimp only
  split_ifs
  · have ⟨m,hstore,hframe⟩ := decrementCountBy_frame
      {st with
        adjOut := adjRemove st.adjOut s l d,
        adjIn := adjRemove st.adjIn d l s,
        edgeProps := deleteAll st.edgeProps
          ((scanPrefix st.edgeProps (edgePropsPrefix s d l)).map Prod.fst)}
      (edgeTypeCountKey l)
      (UInt64.ofNat (scanPrefix st.edgeProps (edgePropsPrefix s d l)).length)
    rw [decrementEdgeTypeCountBy,hstore]
    exact ⟨rfl,hframe _ hnext,fun name => hframe _ (hcount name)⟩
  · exact ⟨rfl,rfl,fun _ => rfl⟩

theorem sameNodes_foldl {ι : Type} {f : Store → ι → Store}
    (h : ∀ st i,SameNodes st (f st i)) (items : List ι) (st : Store) :
    SameNodes st (items.foldl f st) := by
  induction items generalizing st with
  | nil => exact SameNodes.refl st
  | cons i items ih => exact (h st i).trans (ih _)

theorem sameNodes_createEdge (st : Store) (s d : NodeId) (l : String) (props : Properties) :
    SameNodes st (createEdge s d l props st).2 := by
  have hkeeps : Keeps (fun st' => SameNodes st st') (createEdge s d l props) := by
    unfold createEdge
    refine keeps_reading fun _ => ?_
    refine keeps_reading fun _ => ?_
    refine keeps_bind (keeps_update fun st' h => h.trans ⟨rfl,rfl,fun _ => rfl⟩) fun _ => ?_
    refine keeps_bind (keeps_update fun st' h => h.trans ⟨rfl,rfl,fun _ => rfl⟩) fun _ => ?_
    refine keeps_bind (fun st' h => ?_) fun seq => ?_
    · have ⟨m,hstore,hframe⟩ := nextEdgeSeq_frame st'
      rw [hstore]
      exact h.trans ⟨rfl,hframe _ nextNodeIdKey_ne_nextEdgeSeqKey,
        fun name => hframe _ (labelCountKey_ne_nextEdgeSeqKey name)⟩
    · refine keeps_bind (keeps_update fun st' h => h.trans ⟨rfl,rfl,fun _ => rfl⟩) fun _ => ?_
      refine keeps_update fun st' h => h.trans ⟨rfl,?_,fun name => ?_⟩
      · exact get_put_ne (edgeTypeCountKey_ne_nextNodeIdKey l).symm
      · exact get_put_ne (labelCountKey_ne_edgeTypeCountKey name l)
  exact hkeeps st (SameNodes.refl st)

theorem getLabelCount_incrementLabelCount (st : Store) (label l : String) :
    getLabelCount (incrementLabelCount st label) l=
      if l=label then getLabelCount st label+1 else getLabelCount st l := by
  have hinc := getCount_incrementCount st (labelCountKey label) (labelCountKey l)
  simp only [labelCountKey_inj] at hinc
  exact hinc

theorem getLabelCount_decrementLabelCount (st : Store) (label l : String) :
    getLabelCount (decrementLabelCount st label) l=
      if l=label then (if getLabelCount st label≤1 then 0 else getLabelCount st label-1)
      else getLabelCount st l := by
  have hdec := getCount_decrementCountBy st (labelCountKey label) (labelCountKey l) 1
  simp only [labelCountKey_inj] at hdec
  exact hdec

theorem getLabelCount_increments (labels : List String) (l : String) (st : Store)
    (h : (getLabelCount st l).toNat+labels.count l<2^64) :
    (getLabelCount (labels.foldl incrementLabelCount st) l).toNat=
      (getLabelCount st l).toNat+labels.count l := by
  induction labels generalizing st with
  | nil => rfl
  | cons label rest ih =>
    have hone := getLabelCount_incrementLabelCount st label l
    rw [List.count_cons] at h ⊢
    by_cases hl : l=label
    · rw [if_pos hl] at hone
      have hbeq : (label==l)=true := by simp [hl]
      rw [if_pos hbeq] at h ⊢
      have hsucc : (getLabelCount (incrementLabelCount st label) l).toNat=
          (getLabelCount st l).toNat+1 := by
        rw [hone,hl]
        exact toNat_succ (by rw [hl] at h; omega)
      have hrest := ih (incrementLabelCount st label) (by omega)
      rw [List.foldl_cons,hrest]
      omega
    · rw [if_neg hl] at hone
      have hbeq : ¬(label==l)=true := by simpa using fun h => hl h.symm
      rw [if_neg hbeq] at h ⊢
      have hrest := ih (incrementLabelCount st label) (by rw [hone]; omega)
      rw [List.foldl_cons,hrest,hone]
      omega

theorem getLabelCount_decrements (labels : List String) (l : String) (st : Store) :
    (getLabelCount (labels.foldl decrementLabelCount st) l).toNat=
      (getLabelCount st l).toNat-labels.count l := by
  induction labels generalizing st with
  | nil => rfl
  | cons label rest ih =>
    have hone := getLabelCount_decrementLabelCount st label l
    rw [List.foldl_cons,ih,hone,List.count_cons]
    by_cases hl : l=label
    · have hbeq : (label==l)=true := by simp [hl]
      rw [if_pos hl,if_pos hbeq,toNat_saturatingSub,hl]
      change (getLabelCount st label).toNat-1-_=_
      omega
    · have hbeq : ¬(label==l)=true := by simpa using fun h => hl h.symm
      rw [if_neg hl,if_neg hbeq]
      rfl

theorem foldl_labelCounts_frame {step : Store → String → Store}
    (h : ∀ st label,(step st label).nodes=st.nodes ∧
      get (step st label).metadata nextNodeIdKey=get st.metadata nextNodeIdKey)
    (labels : List String) (st : Store) :
    (labels.foldl step st).nodes=st.nodes ∧
      get (labels.foldl step st).metadata nextNodeIdKey=get st.metadata nextNodeIdKey := by
  induction labels generalizing st with
  | nil => exact ⟨rfl,rfl⟩
  | cons label rest ih =>
    have ⟨hnodes,hnext⟩ := ih (step st label)
    have ⟨hnodes',hnext'⟩ := h st label
    exact ⟨hnodes.trans hnodes',hnext.trans hnext'⟩

theorem incrementLabelCount_frame (st : Store) (label : String) :
    (incrementLabelCount st label).nodes=st.nodes ∧
      get (incrementLabelCount st label).metadata nextNodeIdKey=get st.metadata nextNodeIdKey :=
  ⟨rfl,get_put_ne (labelCountKey_ne_nextNodeIdKey label).symm⟩

theorem decrementLabelCount_frame (st : Store) (label : String) :
    (decrementLabelCount st label).nodes=st.nodes ∧
      get (decrementLabelCount st label).metadata nextNodeIdKey=get st.metadata nextNodeIdKey := by
  have ⟨m,hstore,hframe⟩ := decrementCountBy_frame st (labelCountKey label) 1
  rw [decrementLabelCount,hstore]
  exact ⟨rfl,hframe _ (labelCountKey_ne_nextNodeIdKey label).symm⟩

variable {st : Store}

theorem LabelInv.count_le (h : LabelInv st) (l : String) : (getLabelCount st l).toNat≤(nodeIdCounter st).toNat := by
  rw [h.exact.counts l]
  exact le_trans (countRows_le _ _) h.bound

theorem count_of_nodup {labels : List String} (h : labels.Nodup) (l : String) :
    labels.count l=if l∈labels then 1 else 0 := by
  by_cases hl : l∈labels
  · rw [if_pos hl,List.count_eq_one_of_mem h hl]
  · rw [if_neg hl,List.count_eq_zero_of_not_mem hl]

theorem LabelInv.addNode (h : LabelInv st) {labels : List String} (hnodup : labels.Nodup)
    (properties : Properties) (hc : nodeIdCounter st≠0xFFFFFFFFFFFFFFFF) : LabelInv (addNode st labels properties) := by
  let sortedLabels := labels.insertionSort (· ≤ ·)
  let record : NodeRecord := ⟨sortedLabels,properties⟩
  let base := putNode
    {st with metadata := put st.metadata nextNodeIdKey (toBeBytes (nodeIdCounter st+1))}
    (nodeIdCounter st) record
  have hroom := succ_lt_of_ne_max hc
  have hsucc : (nodeIdCounter st+1).toNat=(nodeIdCounter st).toNat+1 := toNat_succ hroom
  have hperm : sortedLabels.Perm labels := List.perm_insertionSort _ labels
  have hsortedNodup : sortedLabels.Nodup := hperm.nodup_iff.mpr hnodup
  have hfresh : nodeIdCounter st∉keys st.nodes := fun hm => absurd (h.ids _ hm) (lt_irrefl _)
  have ⟨hnodes,hnext⟩ := foldl_labelCounts_frame incrementLabelCount_frame sortedLabels base
  have hnodes' : (NodeStorage.addNode st labels properties).nodes=
      put st.nodes (nodeIdCounter st) ⟨String.intercalate ":" sortedLabels,record⟩ := hnodes
  have hraw : get (NodeStorage.addNode st labels properties).metadata nextNodeIdKey=
      some (toBeBytes (nodeIdCounter st+1)) := hnext.trans (get_put_self _ _ _)
  have hcounter : nodeIdCounter (NodeStorage.addNode st labels properties)=nodeIdCounter st+1 := by
    unfold nodeIdCounter counterValue
    rw [hraw]
    change fromBeBytes ((toBeBytes (nodeIdCounter st+1)).take 8)=_
    rw [List.take_of_length_le (by simp),fromBeBytes_toBeBytes]
    rfl
  have hbase : ∀ l,getLabelCount base l=getLabelCount st l := by
    intro l
    simp only [getLabelCount,getCount]
    rw [show base.metadata=put st.metadata nextNodeIdKey (toBeBytes (nodeIdCounter st+1)) from rfl,
      get_put_ne (labelCountKey_ne_nextNodeIdKey l)]
  refine ⟨⟨?_,?_,?_⟩,?_,?_,?_⟩
  · intro l
    have hle := h.count_le l
    have hmult := count_of_nodup hsortedNodup l
    have hone : sortedLabels.count l≤1 := by
      rw [hmult]
      split_ifs <;> omega
    have hadd := getLabelCount_increments sortedLabels l base (by rw [hbase]; omega)
    have hput := countRows_put_fresh (v:=⟨String.intercalate ":" sortedLabels,record⟩) hfresh (carries l)
    have hcarries : carries l (nodeIdCounter st) ⟨String.intercalate ":" sortedLabels,record⟩=true ↔
        l∈sortedLabels := decide_eq_true_iff
    rw [hbase,h.exact.counts l,hmult] at hadd
    simp only [hcarries] at hput
    rw [nodesWithLabel,hnodes',hput]
    exact hadd
  · intro id row hget
    rw [hnodes',get_put] at hget
    split_ifs at hget with hid
    · rw [←Option.some.inj hget]
      exact List.pairwise_insertionSort _ labels
    · exact h.exact.sorted id row hget
  · intro id row hget
    rw [hnodes',get_put] at hget
    split_ifs at hget with hid
    · rw [←Option.some.inj hget]
      exact hsortedNodup
    · exact h.exact.nodup id row hget
  · intro id hid
    rw [hnodes'] at hid
    rw [hcounter,UInt64.lt_iff_toNat_lt,hsucc]
    rcases mem_keys_put.mp hid with hnew|hold
    · rw [hnew]
      omega
    · have hlt := UInt64.lt_iff_toNat_lt.mp (h.ids id hold)
      omega
  · have hlen := (keys_put_fresh (v:=⟨String.intercalate ":" sortedLabels,record⟩) hfresh).length_eq
    have hbound := h.bound
    rw [hnodes',hcounter,hsucc,hlen,List.length_cons]
    omega
  · exact ⟨_,hraw,(toBeBytes_length _).ge⟩

/-- Rewriting one node row keeps the invariant when the counters follow the
change of its label list. -/
theorem LabelInv.putPresent {st st' : Store} (h : LabelInv st) {id : NodeId} {row new : NodeRow}
    (hget : get st.nodes id=some row) (hnodes : st'.nodes=put st.nodes id new)
    (hnext : get st'.metadata nextNodeIdKey=get st.metadata nextNodeIdKey)
    (hsorted : new.value.labels.Pairwise (·≤·)) (hnodup : new.value.labels.Nodup)
    (hcounts : ∀ l,(getLabelCount st' l).toNat+(if l∈row.value.labels then 1 else 0)=
      (getLabelCount st l).toNat+if l∈new.value.labels then 1 else 0) : LabelInv st' := by
  have hcounter : nodeIdCounter st'=nodeIdCounter st := by
    unfold nodeIdCounter counterValue
    rw [hnext]
  have hkeys : keys (put st.nodes id new)=keys st.nodes :=
    keys_put_present (mem_keys.mpr ⟨row,hget⟩)
  refine ⟨⟨?_,?_,?_⟩,?_,?_,?_⟩
  · intro l
    have hrows := countRows_put_present (v:=new) hget (carries l)
    have hold := h.exact.counts l
    have hmove := hcounts l
    have hcarries : ∀ r : NodeRow,carries l id r=true ↔ l∈r.value.labels :=
      fun r => decide_eq_true_iff
    simp only [hcarries] at hrows
    unfold nodesWithLabel at hold ⊢
    rw [hnodes]
    omega
  · intro a r hr
    rw [hnodes,get_put] at hr
    split_ifs at hr with ha
    · rw [←Option.some.inj hr]
      exact hsorted
    · exact h.exact.sorted a r hr
  · intro a r hr
    rw [hnodes,get_put] at hr
    split_ifs at hr with ha
    · rw [←Option.some.inj hr]
      exact hnodup
    · exact h.exact.nodup a r hr
  · intro a ha
    rw [hnodes,hkeys] at ha
    rw [hcounter]
    exact h.ids a ha
  · rw [hnodes,hkeys,hcounter]
    exact h.bound
  · rw [hnext]
    exact h.counter

theorem LabelInv.addNodeLabel (h : LabelInv st) (id : NodeId) (label : String) :
    LabelInv (addNodeLabel id label st).2 := by
  refine inspect_bind h fun record hrecord => ?_
  have ⟨row,hget,hvalue⟩ := getRecord_ok hrecord
  by_cases hl : label∈record.labels
  · rw [if_pos hl]
    exact h
  · rw [if_neg hl]
    let sortedLabels := (record.labels++[label]).insertionSort (· ≤ ·)
    let new : NodeRow := ⟨String.intercalate ":" sortedLabels,{record with labels := sortedLabels}⟩
    let base : Store := {st with nodes := put st.nodes id new}
    have hperm : sortedLabels.Perm (record.labels++[label]) := List.perm_insertionSort _ _
    have hold : record.labels.Nodup := hvalue ▸ h.exact.nodup id row hget
    have hnodup : sortedLabels.Nodup := by
      refine hperm.nodup_iff.mpr (List.nodup_append.mpr ⟨hold,List.nodup_singleton _,?_⟩)
      intro a ha b hb hab
      rw [List.mem_singleton.mp hb] at hab
      exact hl (hab ▸ ha)
    change LabelInv (incrementLabelCount base label)
    have ⟨hnodes,hnext⟩ := incrementLabelCount_frame base label
    refine h.putPresent hget hnodes hnext (List.pairwise_insertionSort _ _) hnodup fun l => ?_
    have hbase : ∀ l,getLabelCount base l=getLabelCount st l := fun _ => rfl
    have hmem : l∈sortedLabels ↔ l∈record.labels ∨ l=label := by
      rw [hperm.mem_iff,List.mem_append,List.mem_singleton]
    rw [getLabelCount_incrementLabelCount,hbase,hbase,hvalue]
    change _=_+if l∈sortedLabels then 1 else 0
    by_cases hll : l=label
    · have hcount := h.exact.counts l
      have hrow : carries l id row=false := by
        unfold carries
        rw [hvalue,hll]
        exact decide_eq_false hl
      have hdel := countRows_delete_present hget (carries l)
      have hkeys := (keys_delete_present (mem_keys.mpr ⟨row,hget⟩)).length_eq
      have hless := countRows_le (delete st.nodes id) (carries l)
      have hbound := h.bound
      have hlast := (nodeIdCounter st).toNat_lt
      rw [hrow] at hdel
      simp only [Bool.false_eq_true,if_false] at hdel
      rw [List.length_cons] at hkeys
      unfold nodesWithLabel at hcount
      have hroom : (getLabelCount st label).toNat+1<2^64 := by
        rw [←hll]
        omega
      rw [if_pos hll,toNat_succ hroom,if_neg (hll ▸ hl),if_pos (hmem.mpr (Or.inr hll)),hll]
    · rw [if_neg hll]
      simp only [hmem,hll,or_false]

theorem LabelInv.removeNodeLabel (h : LabelInv st) (id : NodeId) (label : String) :
    LabelInv (removeNodeLabel id label st).2 := by
  refine inspect_bind h fun record hrecord => ?_
  have ⟨row,hget,hvalue⟩ := getRecord_ok hrecord
  by_cases hl : label∉record.labels
  · rw [if_pos hl]
    exact h
  · have hin : label∈record.labels := not_not.mp hl
    rw [if_neg hl]
    let left := record.labels.filter (· ≠ label)
    let new : NodeRow := ⟨String.intercalate ":" left,{record with labels := left}⟩
    let base : Store := {st with nodes := put st.nodes id new}
    have hsorted : record.labels.Pairwise (·≤·) := hvalue ▸ h.exact.sorted id row hget
    have hnodup : record.labels.Nodup := hvalue ▸ h.exact.nodup id row hget
    change LabelInv (decrementLabelCount base label)
    have ⟨hnodes,hnext⟩ := decrementLabelCount_frame base label
    refine h.putPresent hget hnodes hnext (hsorted.filter _) (hnodup.filter _) fun l => ?_
    have hbase : ∀ l,getLabelCount base l=getLabelCount st l := fun _ => rfl
    have hmem : l∈left ↔ l∈record.labels ∧ l≠label := by
      simp [left,List.mem_filter]
    rw [getLabelCount_decrementLabelCount,hbase,hbase,hvalue]
    change _=_+if l∈left then 1 else 0
    by_cases hll : l=label
    · have hcount := h.exact.counts l
      have hrow : carries l id row=true := by
        unfold carries
        rw [hvalue,hll]
        exact decide_eq_true hin
      have hdel := countRows_delete_present hget (carries l)
      rw [if_pos hrow] at hdel
      unfold nodesWithLabel at hcount
      have hleft : ¬l∈left := fun hm => (hmem.mp hm).2 hll
      rw [if_pos hll,toNat_saturatingSub,if_pos (hll ▸ hin),if_neg hleft]
      change (getLabelCount st label).toNat-1+1=_
      rw [←hll]
      omega
    · rw [if_neg hll]
      simp [hmem,hll]

theorem sameNodes_deleteOutEdges (id : NodeId) (outEdges : List (String×List UInt64)) (st : Store) :
    SameNodes st (deleteOutEdges id outEdges st) := by
  refine sameNodes_foldl (fun st entry => ?_) outEdges st
  exact sameNodes_foldl (f:=fun st dst => deleteEdge st id dst entry.1)
    (fun st dst => sameNodes_deleteEdge st id dst entry.1) entry.2 st

theorem sameNodes_deleteInEdges (id : NodeId) (inEdges : List (String×List UInt64)) (st : Store) :
    SameNodes st (deleteInEdges id inEdges st) := by
  refine sameNodes_foldl (fun st entry => ?_) inEdges st
  exact sameNodes_foldl (f:=fun st src => deleteEdge st src id entry.1)
    (fun st src => sameNodes_deleteEdge st src id entry.1) entry.2 st

theorem LabelInv.dropNode (h : LabelInv st) {id : NodeId} {row : NodeRow} (hrow : get st.nodes id=some row) :
    LabelInv (row.value.labels.foldl decrementLabelCount {st with nodes := delete st.nodes id}) := by
  let base : Store := {st with nodes := delete st.nodes id}
  have ⟨hnodes,hnext⟩ := foldl_labelCounts_frame decrementLabelCount_frame row.value.labels base
  have hcounter : nodeIdCounter (row.value.labels.foldl decrementLabelCount base)=
      nodeIdCounter st := by
    unfold nodeIdCounter counterValue
    rw [hnext]
  have hread : ∀ a r,get (row.value.labels.foldl decrementLabelCount base).nodes a=some r →
      get st.nodes a=some r := by
    intro a r hr
    rw [hnodes] at hr
    change get (delete st.nodes id) a=some r at hr
    rw [get_delete] at hr
    split_ifs at hr with ha
    exact hr
  refine ⟨⟨?_,?_,?_⟩,?_,?_,?_⟩
  · intro l
    have hdec := getLabelCount_decrements row.value.labels l base
    have hdel := countRows_delete_present hrow (carries l)
    have hcount := h.exact.counts l
    have hbase : getLabelCount base l=getLabelCount st l := rfl
    have hcarries : carries l id row=true ↔ l∈row.value.labels := decide_eq_true_iff
    simp only [hcarries] at hdel
    rw [hdec,nodesWithLabel,hnodes,hbase,count_of_nodup (h.exact.nodup id row hrow) l]
    unfold nodesWithLabel at hcount
    change _=countRows (delete st.nodes id) (carries l)
    omega
  · exact fun a r hr => h.exact.sorted a r (hread a r hr)
  · exact fun a r hr => h.exact.nodup a r (hread a r hr)
  · intro a ha
    rw [hnodes] at ha
    rw [hcounter]
    exact h.ids a (mem_keys_delete.mp ha).2
  · have hperm := (keys_delete_present (mem_keys.mpr ⟨row,hrow⟩)).length_eq
    have hbound := h.bound
    rw [List.length_cons] at hperm
    rw [hnodes,hcounter]
    change (keys (delete st.nodes id)).length≤_
    omega
  · rw [hnext]
    exact h.counter

theorem LabelInv.deleteNode (h : LabelInv st) (id : NodeId) : LabelInv (deleteNode id st).2 := by
  refine inspect_bind h fun node hnode => inspect_bind h fun outEdges _ => ?_
  have ⟨row,hget,hvalue⟩ := getNode_ok hnode
  have hsameOut := sameNodes_deleteOutEdges id outEdges st
  have hafterOut : LabelInv (deleteOutEdges id outEdges st) := h.of_same hsameOut
  change LabelInv ((inspect (fun st => getAllEdgeLabels st id .incoming) >>= _)
    (deleteOutEdges id outEdges st)).2
  refine inspect_bind hafterOut fun inEdges _ => ?_
  have hsameIn := sameNodes_deleteInEdges id inEdges (deleteOutEdges id outEdges st)
  have hsame := hsameOut.trans hsameIn
  have hrow : get (deleteInEdges id inEdges (deleteOutEdges id outEdges st)).nodes id=some row := by
    rw [hsame.nodes]
    exact hget
  rw [hvalue]
  exact (h.of_same hsame).dropNode hrow

/-- The storage calls of a run. -/
inductive NodeStep where
  | createNode (labels : List String) (properties : Properties)
  | deleteNode (id : NodeId)
  | addNodeLabel (id : NodeId) (label : String)
  | removeNodeLabel (id : NodeId) (label : String)
  | createEdge (src dst : NodeId) (label : String) (properties : Properties)

/-- The store after a call, successful or not. -/
def applyNodeStep (st : Store) : NodeStep → Store
  | .createNode labels properties => (createNode labels properties st).2
  | .deleteNode id => (deleteNode id st).2
  | .addNodeLabel id label => (addNodeLabel id label st).2
  | .removeNodeLabel id label => (removeNodeLabel id label st).2
  | .createEdge src dst label properties => (createEdge src dst label properties st).2

/-- A creation that gets past its name checks and finds an identifier is given
a list without repetition. -/
def DistinctLabels (st : Store) : NodeStep → Prop
  | .createNode labels properties =>
      CheckedNode labels properties → nodeIdCounter st≠0xFFFFFFFFFFFFFFFF → labels.Nodup
  | _ => True

theorem LabelInv.step (h : LabelInv st) {step : NodeStep} (hdistinct : DistinctLabels st step) :
    LabelInv (applyNodeStep st step) := by
  cases step with
  | createNode labels properties =>
    have ⟨raw,hget,hlen⟩ := h.counter
    change LabelInv (NodeStorage.createNode labels properties st).2
    by_cases hnames : CheckedNode labels properties
    · by_cases hc : nodeIdCounter st=0xFFFFFFFFFFFFFFFF
      · rw [createNode_exhausted hnames hget hlen hc]
        exact h
      · rw [createNode_ok hnames hget hlen hc]
        exact h.addNode (hdistinct hnames hc) properties hc
    · have ⟨e,herror⟩ := createNode_rejected hnames st
      rw [herror]
      exact h
  | deleteNode id => exact h.deleteNode id
  | addNodeLabel id label => exact h.addNodeLabel id label
  | removeNodeLabel id label => exact h.removeNodeLabel id label
  | createEdge src dst label properties =>
    exact h.of_same (sameNodes_createEdge st src dst label properties)

theorem LabelInv.not_exact_of_repeated (h : LabelInv st) {step : NodeStep}
    (hdistinct : ¬DistinctLabels st step) : ¬LabelsExact (applyNodeStep st step) := by
  cases step with
  | createNode labels properties =>
    have hparts : CheckedNode labels properties ∧ nodeIdCounter st≠0xFFFFFFFFFFFFFFFF ∧
        ¬labels.Nodup := by
      simpa [DistinctLabels] using hdistinct
    have ⟨hnames,hc,hrepeated⟩ := hparts
    have ⟨raw,hget,hlen⟩ := h.counter
    have hresult : applyNodeStep st (.createNode labels properties)=
        NodeStorage.addNode st labels properties := by
      change (NodeStorage.createNode labels properties st).2=_
      rw [createNode_ok hnames hget hlen hc]
    let sortedLabels := labels.insertionSort (· ≤ ·)
    have hnodes := (foldl_labelCounts_frame incrementLabelCount_frame sortedLabels
      (putNode {st with metadata := put st.metadata nextNodeIdKey (toBeBytes (nodeIdCounter st+1))}
        (nodeIdCounter st) ⟨sortedLabels,properties⟩)).1
    have hstored : get (NodeStorage.addNode st labels properties).nodes (nodeIdCounter st)=
        some ⟨String.intercalate ":" sortedLabels,⟨sortedLabels,properties⟩⟩ :=
      (congrArg (fun t => get t (nodeIdCounter st)) hnodes).trans (get_put_self _ _ _)
    rw [hresult]
    intro hexact
    have hsorted : sortedLabels.Nodup := hexact.nodup _ _ hstored
    exact hrepeated ((List.perm_insertionSort _ labels).nodup_iff.mp hsorted)
  | deleteNode id | addNodeLabel id label | removeNodeLabel id label | createEdge src dst label properties => exact absurd trivial hdistinct

/-- Label statistics are exact in every state reached from a new database
exactly when no successful creation is given a repeated label. -/
theorem labelsExact_reached_iff (steps : List NodeStep) :
    (∀ first,first<+:steps → LabelsExact (run applyNodeStep freshStore first)) ↔
      Guarded applyNodeStep DistinctLabels freshStore steps :=
  guarded_iff_reached (I:=LabelInv) (p:=fun _ => True)
    (fun _ _ _ h hdistinct => h.step hdistinct) (fun _ h => h.exact)
    (fun _ _ _ h hdistinct => h.not_exact_of_repeated hdistinct) (fun _ _ => trivial)
    labelInv_freshStore

/-- One creation with a repeated label already breaks the statistics. -/
theorem labelsExact_run_fails :
    ¬∀ steps : List NodeStep,LabelsExact (run applyNodeStep freshStore steps) := by
  intro hall
  have hbad : ¬DistinctLabels freshStore (.createNode ["A","A"] []) := by
    intro hdistinct
    have hnames : CheckedNode ["A","A"] [] := by
      refine ⟨?_,fun key hk => absurd hk List.not_mem_nil⟩
      decide
    exact absurd (hdistinct hnames (by decide)) (by decide)
  exact labelInv_freshStore.not_exact_of_repeated hbad (hall [.createNode ["A","A"] []])

end GraphDbLite.LabelStatistics
