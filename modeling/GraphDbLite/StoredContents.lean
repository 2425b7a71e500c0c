import GraphDbLite.StorageCalls

/-!
# What the tables of nodes and relationships may contain

An admission says which labels, relationship types and properties may be stored. The
tables keep to it as long as every call brings in only what is admitted; removals bring
in nothing.
-/

namespace GraphDbLite.StoredContents

open ByteStrings GraphTypes OrderedTable StatefulActions GraphStore EdgeStorage NodeStorage
open EdgeConsistency StorageCalls

/-- The labels, relationship types and properties that may be stored. -/
structure Admission where
  /-- Labels. -/
  label : String → Prop
  /-- Relationship types. -/
  relType : String → Prop
  /-- Properties. -/
  entry : String×Value → Prop

/-- Admitted properties. -/
def Admission.Props (A : Admission) (props : Properties) : Prop := ∀ entry∈props,A.entry entry

/-- Everything stored is admitted. -/
structure Admitted (A : Admission) (st : Store) : Prop where
  /-- Labels of nodes. -/
  labels : ∀ id row,get st.nodes id=some row → ∀ l∈row.value.labels,A.label l
  /-- Properties of nodes. -/
  nodes : ∀ id row,get st.nodes id=some row → A.Props row.value.properties
  /-- Properties of relationships. -/
  edges : ∀ key props,get st.edgeProps key=some props → A.Props props
  /-- Types of relationships. -/
  types : ∀ key∈keys st.edgeProps,∃ s d l q,A.relType l ∧ key=edgePropsKey s d l q
  /-- Types of outgoing neighbours. -/
  outTypes : ∀ key∈keys st.adjOut,∃ n l,A.relType l ∧ key=adjKey n l
  /-- Types of incoming neighbours. -/
  inTypes : ∀ key∈keys st.adjIn,∃ n l,A.relType l ∧ key=adjKey n l

/-- Nothing is stored that was not stored before. -/
structure Fewer (st st' : Store) : Prop where
  /-- Labels and properties of nodes. -/
  nodes : ∀ id row,get st'.nodes id=some row → ∃ old,get st.nodes id=some old ∧
    (∀ l∈row.value.labels,l∈old.value.labels) ∧ ∀ e∈row.value.properties,e∈old.value.properties
  /-- Relationships. -/
  edges : ∀ key props,get st'.edgeProps key=some props → get st.edgeProps key=some props
  /-- Outgoing neighbours. -/
  outKeys : ∀ key∈keys st'.adjOut,key∈keys st.adjOut
  /-- Incoming neighbours. -/
  inKeys : ∀ key∈keys st'.adjIn,key∈keys st.adjIn

variable {st st' : Store}

theorem Fewer.of_eq (hnodes : st'.nodes=st.nodes) (hedges : st'.edgeProps=st.edgeProps)
    (hout : st'.adjOut=st.adjOut) (hin : st'.adjIn=st.adjIn) : Fewer st st' := by
  refine ⟨fun id row hrow => ?_,fun key props hprops => ?_,fun key hkey => ?_,fun key hkey => ?_⟩
  · rw [hnodes] at hrow
    exact ⟨row,hrow,fun _ hl => hl,fun _ he => he⟩
  · rwa [←hedges]
  · rwa [←hout]
  · rwa [←hin]

theorem Fewer.refl (st : Store) : Fewer st st := Fewer.of_eq rfl rfl rfl rfl

theorem Fewer.trans {a b c : Store} (hab : Fewer a b) (hbc : Fewer b c) : Fewer a c := by
  refine ⟨fun id row hrow => ?_,fun key props h => hab.edges key props (hbc.edges key props h),
    fun key h => hab.outKeys key (hbc.outKeys key h),fun key h => hab.inKeys key (hbc.inKeys key h)⟩
  have ⟨mid,hmid,hlabels,hprops⟩ := hbc.nodes id row hrow
  have ⟨old,hold,hlabels',hprops'⟩ := hab.nodes id mid hmid
  exact ⟨old,hold,fun l hl => hlabels' l (hlabels l hl),fun e he => hprops' e (hprops e he)⟩

theorem Admitted.of_fewer {A : Admission} (h : Admitted A st) (hfewer : Fewer st st') : Admitted A st' := by
  refine ⟨fun id row hrow l hl => ?_,fun id row hrow e he => ?_,?_,fun key hkey => ?_,?_,?_⟩
  · have ⟨old,hold,hlabels,_⟩ := hfewer.nodes id row hrow
    exact h.labels id old hold l (hlabels l hl)
  · have ⟨old,hold,_,hprops⟩ := hfewer.nodes id row hrow
    exact h.nodes id old hold e (hprops e he)
  · exact fun key props hprops => h.edges key props (hfewer.edges key props hprops)
  · have ⟨props,hprops⟩ := mem_keys.mp hkey
    exact h.types key (mem_keys.mpr ⟨props,hfewer.edges key props hprops⟩)
  · exact fun key hkey => h.outTypes key (hfewer.outKeys key hkey)
  · exact fun key hkey => h.inTypes key (hfewer.inKeys key hkey)

theorem fewer_foldl {ι : Type} {f : Store → ι → Store} (hf : ∀ st i,Fewer st (f st i)) (items : List ι)
    (st : Store) : Fewer st (items.foldl f st) := by
  induction items generalizing st with
  | nil => exact Fewer.refl st
  | cons i rest ih => exact (hf st i).trans (ih (f st i))

theorem mem_keys_adjRemove {t : Table Bytes Bytes} {n m : NodeId} {l : String} {key : Bytes}
    (h : key∈keys (adjRemove t n l m)) : key∈keys t := by
  unfold adjRemove at h
  cases hget : get t (adjKey n l) with
  | none =>
    rw [hget] at h
    exact h
  | some data =>
    rw [hget] at h
    dsimp only at h
    split_ifs at h
    · exact (mem_keys_delete.mp h).2
    · rcases mem_keys_put.mp h with heq|hold
      · rw [heq]
        exact mem_keys.mpr ⟨data,hget⟩
      · exact hold
    · exact h

theorem fewer_uncountEdges (st : Store) (l : String) (n : UInt64) : Fewer st (uncountEdges st l n) := by
  have ⟨m,hstore,_⟩ := uncountEdges_frame st l n
  rw [hstore]
  exact Fewer.of_eq rfl rfl rfl rfl

theorem fewer_decrementLabelCount (st : Store) (label : String) : Fewer st (decrementLabelCount st label) := by
  have ⟨m,hstore,_⟩ := decrementCountBy_frame st (labelCountKey label) 1
  unfold decrementLabelCount
  rw [hstore]
  exact Fewer.of_eq rfl rfl rfl rfl

theorem fewer_deleteEdge (st : Store) (src dst : NodeId) (label : String) :
    Fewer st (deleteEdge st src dst label) := by
  let entries := scanPrefix st.edgeProps (edgePropsPrefix src dst label)
  let base : Store := {st with
    adjOut := adjRemove st.adjOut src label dst,
    adjIn := adjRemove st.adjIn dst label src,
    edgeProps := deleteAll st.edgeProps (entries.map Prod.fst)}
  have hdef : deleteEdge st src dst label=uncountEdges base label (UInt64.ofNat entries.length) := rfl
  have hbase : Fewer st base := by
    refine ⟨(Fewer.refl st).nodes,fun key props hprops => ?_,fun _ h => mem_keys_adjRemove h,
      fun _ h => mem_keys_adjRemove h⟩
    change get (deleteAll st.edgeProps _) key=some props at hprops
    rw [get_deleteAll] at hprops
    split_ifs at hprops
    exact hprops
  rw [hdef]
  exact hbase.trans (fewer_uncountEdges base label _)

theorem fewer_deleteSingleEdge (st : Store) (src dst : NodeId) (label : String) (seq : UInt64) :
    Fewer st (deleteSingleEdge st src dst label seq) := by
  have ⟨hnodes,hout,hin,hedges,_⟩ := withoutRow_tables st src dst label seq
  have hmid : Fewer st (withoutRow st src dst label seq) := by
    refine ⟨?_,fun other props hprops => ?_,?_,?_⟩
    · rw [hnodes]
      exact (Fewer.refl st).nodes
    · rw [hedges,get_delete] at hprops
      split_ifs at hprops
      exact hprops
    · rw [hout]
      exact fun _ hkey => hkey
    · rw [hin]
      exact fun _ hkey => hkey
  rw [deleteSingleEdge_eq]
  split_ifs
  · exact ⟨hmid.nodes,hmid.edges,fun _ h => hmid.outKeys _ (mem_keys_adjRemove h),
      fun _ h => hmid.inKeys _ (mem_keys_adjRemove h)⟩
  · exact hmid

theorem fewer_deleteOutEdges (st : Store) (id : NodeId) (outEdges : List (String×List UInt64)) :
    Fewer st (deleteOutEdges id outEdges st) := by
  refine fewer_foldl (fun st entry => ?_) outEdges st
  exact fewer_foldl (f:=fun st dst => deleteEdge st id dst entry.1)
    (fun st dst => fewer_deleteEdge st id dst entry.1) entry.2 st

theorem fewer_deleteInEdges (st : Store) (id : NodeId) (inEdges : List (String×List UInt64)) :
    Fewer st (deleteInEdges id inEdges st) := by
  refine fewer_foldl (fun st entry => ?_) inEdges st
  exact fewer_foldl (f:=fun st src => deleteEdge st src id entry.1)
    (fun st src => fewer_deleteEdge st src id entry.1) entry.2 st

theorem fewer_deleteNode (st : Store) (id : NodeId) : Fewer st (deleteNode id st).2 := by
  have hkeeps : Keeps (Fewer st) (deleteNode id) := by
    unfold deleteNode
    refine keeps_reading fun node => keeps_reading fun outEdges => ?_
    refine keeps_bind (keeps_update fun st' h => h.trans (fewer_deleteOutEdges st' id outEdges)) fun _ => ?_
    refine keeps_reading fun inEdges => ?_
    refine keeps_bind (keeps_update fun st' h => h.trans (fewer_deleteInEdges st' id inEdges)) fun _ => ?_
    refine keeps_bind (keeps_update fun st' h => h.trans ?_) fun _ => keeps_update fun st' h => h.trans ?_
    · refine ⟨fun other row hrow => ?_,fun _ _ h => h,fun _ h => h,fun _ h => h⟩
      change get (delete st'.nodes id) other=some row at hrow
      rw [get_delete] at hrow
      split_ifs at hrow
      exact ⟨row,hrow,fun _ hl => hl,fun _ he => he⟩
    · exact fewer_foldl fewer_decrementLabelCount node.labels st'
  exact hkeeps st (Fewer.refl st)

theorem fewer_putNode {st : Store} {id : NodeId} {record : NodeRecord} (hrecord : getRecord st id=.ok record)
    (new : NodeRecord) (hlabels : ∀ l∈new.labels,l∈record.labels)
    (hprops : ∀ e∈new.properties,e∈record.properties) : Fewer st (putNode st id new) := by
  have ⟨old,hold,hvalue⟩ := getRecord_ok hrecord
  refine ⟨fun other row hrow => ?_,fun _ _ h => h,fun _ h => h,fun _ h => h⟩
  change get (put st.nodes id _) other=some row at hrow
  rw [get_put] at hrow
  split_ifs at hrow with hother
  · rw [←Option.some.inj hrow,hother]
    refine ⟨old,hold,?_,?_⟩
    · rw [hvalue]
      exact hlabels
    · rw [hvalue]
      exact hprops
  · exact ⟨row,hrow,fun _ hl => hl,fun _ he => he⟩

theorem fewer_removal (r : Removal) (st : Store) : Fewer st (r.run st).2 := by
  have hrefl := Fewer.refl st
  cases r with
  | nodeProperty id key =>
    unfold Removal.run removeNodeProperty
    refine inspect_bind (I:=Fewer st) hrefl fun record hrecord => ?_
    exact fewer_putNode hrecord _ (fun _ hl => hl) fun _ he => List.mem_of_mem_filter he
  | clearNodeProperty id key =>
    unfold Removal.run setNodeProperty
    refine inspect_bind (I:=Fewer st) hrefl fun _ _ =>
      inspect_bind (I:=Fewer st) hrefl fun record hrecord => ?_
    exact fewer_putNode hrecord _ (fun _ hl => hl) fun _ he => List.mem_of_mem_filter he
  | nodeLabel id label =>
    unfold Removal.run removeNodeLabel
    refine inspect_bind (I:=Fewer st) hrefl fun record hrecord => ?_
    by_cases habsent : label∉record.labels
    · rw [if_pos habsent]
      exact hrefl
    · rw [if_neg habsent]
      have hput := fewer_putNode hrecord {record with labels := record.labels.filter (· ≠ label)}
        (fun _ hl => List.mem_of_mem_filter hl) fun _ he => he
      exact hput.trans (fewer_decrementLabelCount _ label)
  | node id => exact fewer_deleteNode st id
  | edges src dst label => exact fewer_deleteEdge st src dst label
  | edge src dst label seq => exact fewer_deleteSingleEdge st src dst label seq

/-- A call passes its own checks. -/
def Accepted (st : Store) : StorageCall → Prop
  | .createNode labels properties => CheckedNode labels properties
  | .createEdge _ _ label properties => CheckedNames label properties
  | .setNodeProperty id key _ => isValidName key=true ∧ nodeExists st id=true
  | .setAllNodeProperties id _ => nodeExists st id=true
  | .addNodeLabel id _ => nodeExists st id=true
  | .setEdgeProperty _ _ _ _ _ _ => True
  | .setAllEdgeProperties _ _ _ _ _ => True

theorem getRecord_missing {st : Store} {id : NodeId} (h : ¬nodeExists st id=true) :
    getRecord st id=.error (.nodeNotFound id none) := by
  have hnone : get st.nodes id=none := by
    rw [nodeExists,contains,Bool.not_eq_true,Option.isSome_eq_false_iff] at h
    exact Option.isNone_iff_eq_none.mp h
  unfold getRecord
  rw [hnone]

theorem rejected_of_not_accepted {st : Store} {c : StorageCall} (h : ¬Accepted st c) :
    ∃ e,c.run st=(.error e,st) := by
  cases c with
  | createNode labels properties =>
    have ⟨e,herror⟩ := createNode_rejected h st
    exact ⟨e,bind_error herror⟩
  | createEdge src dst label properties => exact createEdge_rejected h st
  | setNodeProperty id key val =>
    cases hname : validateName key with
    | error e => exact ⟨e,inspect_error (by exact hname)⟩
    | ok u =>
      have hmissing : ¬nodeExists st id=true := fun hexists => h ⟨validateName_ok_iff.mp hname,hexists⟩
      refine ⟨.nodeNotFound id none,?_⟩
      change setNodeProperty id key val st=_
      rw [setNodeProperty,inspect_ok (by exact hname),
        inspect_error (by exact getRecord_missing hmissing)]
  | setAllNodeProperties id properties | addNodeLabel id label =>
    exact ⟨.nodeNotFound id none,inspect_error (by exact getRecord_missing h)⟩
  | setEdgeProperty src dst label seq key val | setAllEdgeProperties src dst label seq properties => exact absurd trivial h

theorem accepted_of_ok {c : StorageCall} (h : c.run st=(.ok (),st')) : Accepted st c := by
  by_contra hnot
  have ⟨e,herror⟩ := rejected_of_not_accepted hnot
  exact absurd (Prod.mk.inj (herror.symm.trans h)).1 (by simp)

/-- What a call brings in is admitted; null brings in nothing, and the row of a stored
relationship no type. -/
def Brings (A : Admission) (st : Store) : StorageCall → Prop
  | .createNode labels properties => (∀ l∈labels,A.label l) ∧ A.Props properties
  | .createEdge _ _ label properties => A.relType label ∧ A.Props properties
  | .setNodeProperty _ key val => val.isNull=false → A.entry (key,val)
  | .setAllNodeProperties _ properties => A.Props properties
  | .addNodeLabel _ label => A.label label
  | .setEdgeProperty src dst label seq key val =>
    (edgePropsKey src dst label seq∉keys st.edgeProps → A.relType label) ∧
      (val.isNull=false → A.entry (key,val))
  | .setAllEdgeProperties src dst label seq properties =>
    (edgePropsKey src dst label seq∉keys st.edgeProps → A.relType label) ∧ A.Props properties

section Kept

variable {A : Admission} {st : Store}
variable {props : Properties} {label : String}

theorem Admission.withProperty (h : A.Props props) {key : String} {val : Value}
    (hval : val.isNull=false → A.entry (key,val)) : A.Props (withProperty props key val) := by
  unfold NodeStorage.withProperty
  intro entry hentry
  split_ifs at hentry with hnull
  · exact h entry (List.mem_of_mem_filter hentry)
  · rcases List.mem_cons.mp hentry with heq|hold
    · rw [heq]
      exact hval (Bool.eq_false_iff.mpr hnull)
    · exact h entry (List.mem_of_mem_filter hold)

theorem Admitted.putNode (h : Admitted A st) (id : NodeId) {record : NodeRecord}
    (hlabels : ∀ l∈record.labels,A.label l) (hprops : A.Props record.properties) :
    Admitted A (putNode st id record) := by
  have hrows : ∀ {other : NodeId} {row},get (NodeStorage.putNode st id record).nodes other=some row →
      row.value=record ∨ get st.nodes other=some row := by
    intro other row hrow
    change get (put st.nodes id _) other=some row at hrow
    rw [get_put] at hrow
    split_ifs at hrow
    · exact Or.inl (congrArg NodeRow.value (Option.some.inj hrow)).symm
    · exact Or.inr hrow
  refine ⟨fun other row hrow => ?_,fun other row hrow => ?_,h.edges,h.types,h.outTypes,h.inTypes⟩
  · rcases hrows hrow with hnew|hold
    · rw [hnew]
      exact hlabels
    · exact h.labels other row hold
  · rcases hrows hrow with hnew|hold
    · rw [hnew]
      exact hprops
    · exact h.nodes other row hold

theorem Admitted.putEdge (h : Admitted A st) {src dst : NodeId} {seq : UInt64}
    (htype : edgePropsKey src dst label seq∉keys st.edgeProps → A.relType label) (hprops : A.Props props) :
    Admitted A {st with edgeProps := put st.edgeProps (edgePropsKey src dst label seq) props} := by
  refine ⟨h.labels,h.nodes,fun key row hrow => ?_,fun key hkey => ?_,h.outTypes,h.inTypes⟩
  · rw [get_put] at hrow
    split_ifs at hrow
    · rw [←Option.some.inj hrow]
      exact hprops
    · exact h.edges key row hrow
  · by_cases hold : key∈keys st.edgeProps
    · exact h.types key hold
    · rcases mem_keys_put.mp hkey with hnew|hmem
      · rw [hnew] at hold
        exact ⟨src,dst,label,seq,htype hold,hnew⟩
      · exact absurd hmem hold

theorem Admitted.record (h : Admitted A st) {id : NodeId} {record : NodeRecord}
    (hrecord : getRecord st id=.ok record) : (∀ l∈record.labels,A.label l) ∧ A.Props record.properties := by
  have ⟨row,hrow,heq⟩ := getRecord_ok hrecord
  rw [←heq]
  exact ⟨h.labels id row hrow,h.nodes id row hrow⟩

theorem Admitted.edgePropertiesAt (h : Admitted A st) (src dst : NodeId) (label : String) (seq : UInt64) :
    A.Props (getEdgePropertiesAt st src dst label seq) := by
  unfold getEdgePropertiesAt
  cases hget : get st.edgeProps (edgePropsKey src dst label seq) with
  | none => exact fun entry hentry => absurd hentry List.not_mem_nil
  | some props => exact h.edges _ props hget

theorem Admitted.createNode (h : Admitted A st) {labels : List String} (hlabels : ∀ l∈labels,A.label l)
    (hprops : A.Props props) : Admitted A (createNode labels props st).2 := by
  have hnext : Fewer st (nextNodeId st).2 := by
    unfold nextNodeId
    cases get st.metadata nextNodeIdKey with
    | none => exact Fewer.refl st
    | some raw =>
      dsimp only
      rcases advanceCounter_cases nextNodeIdKey "corrupt node ID bytes" "node ID space exhausted" raw st
        with herror|hok
      · have ⟨e,herror⟩ := herror
        rw [herror]
        exact Fewer.refl st
      · have ⟨n,hok⟩ := hok
        rw [hok]
        exact Fewer.of_eq rfl rfl rfl rfl
  unfold NodeStorage.createNode
  refine inspect_bind h fun _ _ => inspect_bind h fun _ _ => ?_
  refine bind_keeps (h.of_fewer hnext) fun id st₁ _ h₁ => ?_
  have hsorted : ∀ l∈labels.insertionSort (· ≤ ·),A.label l := by
    intro l hl
    exact hlabels l ((List.mem_insertionSort (· ≤ ·)).mp hl)
  have h₂ : Admitted A (NodeStorage.putNode st₁ id ⟨labels.insertionSort (· ≤ ·),props⟩) :=
    h₁.putNode id hsorted hprops
  exact h₂.of_fewer (fewer_foldl (f:=incrementLabelCount) (fun _ _ => Fewer.of_eq rfl rfl rfl rfl)
    (labels.insertionSort (· ≤ ·)) _)

theorem outTypes_adjInsert {t : Table Bytes Bytes} (h : ∀ key∈keys t,∃ n l,A.relType l ∧ key=adjKey n l)
    {n m : NodeId} (htype : A.relType label) : ∀ key∈keys (adjInsert t n label m),∃ n l,A.relType l ∧ key=adjKey n l := by
  intro key hkey
  rcases mem_keys_put.mp hkey with hnew|hold
  · exact ⟨n,label,htype,hnew⟩
  · exact h key hold

theorem Admitted.createEdge (h : Admitted A st) {src dst : NodeId} (htype : A.relType label)
    (hprops : A.Props props) : Admitted A (createEdge src dst label props st).2 := by
  unfold EdgeStorage.createEdge
  refine inspect_bind h fun _ _ => inspect_bind h fun _ _ => ?_
  have hout : Admitted A {st with adjOut := adjInsert st.adjOut src label dst} :=
    ⟨h.labels,h.nodes,h.edges,h.types,outTypes_adjInsert h.outTypes htype,h.inTypes⟩
  refine bind_keeps hout fun _ st₁ _ h₁ => ?_
  have hin : Admitted A {st₁ with adjIn := adjInsert st₁.adjIn dst label src} :=
    ⟨h₁.labels,h₁.nodes,h₁.edges,h₁.types,h₁.outTypes,outTypes_adjInsert h₁.inTypes htype⟩
  refine bind_keeps hin fun _ st₂ _ h₂ => ?_
  have hseq : Fewer st₂ (nextEdgeSeq st₂).2 := by
    have ⟨m,hstore,_⟩ := nextEdgeSeq_frame st₂
    rw [hstore]
    exact Fewer.of_eq rfl rfl rfl rfl
  refine bind_keeps (h₂.of_fewer hseq) fun seq st₃ _ h₃ => ?_
  have hrow : Admitted A
      {st₃ with edgeProps := put st₃.edgeProps (edgePropsKey src dst label seq) props} :=
    h₃.putEdge (fun _ => htype) hprops
  refine bind_keeps hrow fun _ st₄ _ h₄ => ?_
  exact h₄.of_fewer (Fewer.of_eq rfl rfl rfl rfl)

theorem Admitted.addNodeLabel (h : Admitted A st) (id : NodeId) (hlabel : A.label label) :
    Admitted A (addNodeLabel id label st).2 := by
  unfold NodeStorage.addNodeLabel
  refine inspect_bind h fun record hrecord => ?_
  have ⟨hlabels,hprops⟩ := h.record hrecord
  split_ifs
  · exact h
  · have hsorted : ∀ l∈(record.labels++[label]).insertionSort (· ≤ ·),A.label l := by
      intro l hl
      rcases List.mem_append.mp ((List.mem_insertionSort (· ≤ ·)).mp hl) with hold|hnew
      · exact hlabels l hold
      · rw [List.mem_singleton.mp hnew]
        exact hlabel
    have hput : Admitted A (NodeStorage.putNode st id
        {record with labels := (record.labels++[label]).insertionSort (· ≤ ·)}) :=
      h.putNode id hsorted hprops
    exact hput.of_fewer (Fewer.of_eq rfl rfl rfl rfl)

theorem Admitted.call (h : Admitted A st) {c : StorageCall} (hbrings : Brings A st c) :
    Admitted A (c.run st).2 := by
  cases c with
  | createNode labels properties => exact keeps_then_pure (h.createNode hbrings.1 hbrings.2) fun _ => ()
  | createEdge src dst label properties => exact h.createEdge hbrings.1 hbrings.2
  | setNodeProperty id key val =>
    unfold StorageCall.run setNodeProperty
    refine inspect_bind h fun _ _ => inspect_bind h fun record hrecord => ?_
    have ⟨hlabels,hprops⟩ := h.record hrecord
    exact h.putNode id hlabels (Admission.withProperty hprops hbrings)
  | setAllNodeProperties id properties =>
    unfold StorageCall.run setAllNodeProperties
    refine inspect_bind h fun record hrecord => ?_
    exact h.putNode id (h.record hrecord).1 hbrings
  | addNodeLabel id label => exact h.addNodeLabel id hbrings
  | setEdgeProperty src dst label seq key val =>
    exact h.putEdge hbrings.1 (Admission.withProperty (h.edgePropertiesAt src dst label seq) hbrings.2)
  | setAllEdgeProperties src dst label seq properties => exact h.putEdge hbrings.1 hbrings.2

/-- What is stored stays admitted when every call that passes its checks brings in only
what is admitted. -/
theorem keptBy_admitted (A : Admission) :
    KeptBy (fun st c => Accepted st c → Brings A st c) (Admitted A) where
  call st c h hbrings := by
    by_cases haccepted : Accepted st c
    · exact h.call (hbrings haccepted)
    · have ⟨e,herror⟩ := rejected_of_not_accepted haccepted
      rw [herror]
      exact h
  removal r st h := h.of_fewer (fewer_removal r st)
  indexTables _ _ h := h.of_fewer (Fewer.of_eq rfl rfl rfl rfl)
  ftsTables _ _ h := h.of_fewer (Fewer.of_eq rfl rfl rfl rfl)

theorem admitted_freshStore (A : Admission) : Admitted A freshStore where
  labels _ _ hrow := absurd hrow (by simp [freshStore])
  nodes _ _ hrow := absurd hrow (by simp [freshStore])
  edges _ _ hrow := absurd hrow (by simp [freshStore])
  types _ hkey := absurd hkey List.not_mem_nil
  outTypes _ hkey := absurd hkey List.not_mem_nil
  inTypes _ hkey := absurd hkey List.not_mem_nil

end Kept

end GraphDbLite.StoredContents
