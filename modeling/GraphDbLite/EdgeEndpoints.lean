import GraphDbLite.StoredContents

/-!
# Ends of stored relationships

A node takes its listed relationships with it when it is deleted. So the ends of stored
relationships are stored nodes as long as every relationship that is created has stored
ends, and properties are written only to relationships that are still listed: a write to
another one would store its row again.
-/

namespace GraphDbLite.EdgeEndpoints

open ByteStrings GraphTypes OrderedTable StatefulActions GraphStore EdgeStorage
open NodeStorage WriteOperators PropertySetters EdgeConsistency EntityDeletion
open StorageCalls

/-- Both ends of every stored relationship are stored nodes. -/
structure EndsStored (st : Store) : Prop where
  /-- Rows of relationships. -/
  rows : ∀ s d l q,edgePropsKey s d l q∈keys st.edgeProps → nodeExists st s=true ∧ nodeExists st d=true
  /-- Outgoing neighbours. -/
  out : ∀ s d l,d∈adjIds st.adjOut s l → nodeExists st s=true ∧ nodeExists st d=true
  /-- Incoming neighbours. -/
  inc : ∀ s d l,s∈adjIds st.adjIn d l → nodeExists st s=true ∧ nodeExists st d=true

/-- The inductive invariant behind it. -/
structure EndsInv (st : Store) : Prop where
  /-- The outgoing table is well formed. -/
  adjOut : AdjOk st.adjOut
  /-- The incoming table is well formed. -/
  adjIn : AdjOk st.adjIn
  /-- The pair of a row is listed. -/
  listed : ∀ s d l,HasEdge st s d l → d∈adjIds st.adjOut s l
  /-- Both tables list the same pairs. -/
  mirrored : ∀ s d l,d∈adjIds st.adjOut s l ↔ s∈adjIds st.adjIn d l
  /-- Listed pairs are pairs of stored nodes. -/
  ends : ∀ s d l,d∈adjIds st.adjOut s l → s∈keys st.nodes ∧ d∈keys st.nodes

theorem EndsInv.endsStored {st : Store} (h : EndsInv st) : EndsStored st := by
  have hexists : ∀ {s d l},d∈adjIds st.adjOut s l → nodeExists st s=true ∧ nodeExists st d=true := by
    intro s d l hlisted
    have ⟨hs,hd⟩ := h.ends s d l hlisted
    exact ⟨contains_iff.mpr hs,contains_iff.mpr hd⟩
  exact ⟨fun s d l q hkey => hexists (h.listed s d l ⟨q,hkey⟩),fun s d l hlisted => hexists hlisted,
    fun s d l hlisted => hexists ((h.mirrored s d l).mpr hlisted)⟩

theorem endsInv_freshStore : EndsInv freshStore where
  adjOut := edgeInv_freshStore.adjOut
  adjIn := edgeInv_freshStore.adjIn
  listed s d l hhas := (edgeInv_freshStore.out s d l).mpr hhas
  mirrored s d l := (edgeInv_freshStore.out s d l).trans (edgeInv_freshStore.inc s d l).symm
  ends _ _ _ hlisted := absurd hlisted List.not_mem_nil

section Steps

variable {st st' : Store}

theorem EndsInv.of_eq (h : EndsInv st) (hout : st'.adjOut=st.adjOut) (hin : st'.adjIn=st.adjIn)
    (hedges : st'.edgeProps=st.edgeProps) (hnodes : ∀ id∈keys st.nodes,id∈keys st'.nodes) : EndsInv st' := by
  refine ⟨?_,?_,fun s d l hhas => ?_,fun s d l => ?_,fun s d l hlisted => ?_⟩
  · rw [hout]
    exact h.adjOut
  · rw [hin]
    exact h.adjIn
  · rw [hout]
    have ⟨q,hkey⟩ := hhas
    rw [hedges] at hkey
    exact h.listed s d l ⟨q,hkey⟩
  · rw [hout,hin]
    exact h.mirrored s d l
  · rw [hout] at hlisted
    have ⟨hs,hd⟩ := h.ends s d l hlisted
    exact ⟨hnodes s hs,hnodes d hd⟩

theorem EndsInv.putNode (h : EndsInv st) (id : NodeId) (record : NodeRecord) :
    EndsInv (putNode st id record) :=
  h.of_eq rfl rfl rfl fun _ hkey => mem_keys_put.mpr (Or.inr hkey)

variable {src dst : NodeId} {label : String}

theorem EndsInv.putRow (h : EndsInv st) (hlisted : dst∈adjIds st.adjOut src label) (seq : UInt64)
    (props : Properties) : EndsInv {st with edgeProps := put st.edgeProps (edgePropsKey src dst label seq) props} := by
  refine ⟨h.adjOut,h.adjIn,fun s d l hhas => ?_,h.mirrored,h.ends⟩
  have ⟨q,hkey⟩ := hhas
  rcases mem_keys_put.mp hkey with hnew|hold
  · have ⟨hs,hd,hl,_⟩ := edgePropsKey_inj.mp hnew
    rw [hs,hd,hl]
    exact hlisted
  · exact h.listed s d l ⟨q,hold⟩

theorem EndsInv.linkEdge (h : EndsInv st) (hl : isValidName label=true) (hsrc : src∈keys st.nodes)
    (hdst : dst∈keys st.nodes) : EndsInv (linkEdge st src dst label) ∧
    dst∈adjIds (linkEdge st src dst label).adjOut src label := by
  have hout : ∀ s d l,d∈adjIds (adjInsert st.adjOut src label dst) s l ↔
      (s=src ∧ l=label ∧ d=dst) ∨ d∈adjIds st.adjOut s l := fun s d l =>
    mem_adjIds_adjInsert h.adjOut src dst s d label l
  have hin : ∀ s d l,s∈adjIds (adjInsert st.adjIn dst label src) d l ↔
      (d=dst ∧ l=label ∧ s=src) ∨ s∈adjIds st.adjIn d l := fun s d l =>
    mem_adjIds_adjInsert h.adjIn dst src d s label l
  refine ⟨⟨adjOk_adjInsert h.adjOut src dst hl,adjOk_adjInsert h.adjIn dst src hl,?_,?_,?_⟩,
    (hout src dst label).mpr (Or.inl ⟨rfl,rfl,rfl⟩)⟩
  · exact fun s d l hhas => (hout s d l).mpr (Or.inr (h.listed s d l hhas))
  · intro s d l
    have hold := h.mirrored s d l
    have hnew : (s=src ∧ l=label ∧ d=dst) ↔ (d=dst ∧ l=label ∧ s=src) := by tauto
    exact (hout s d l).trans ((or_congr hnew hold).trans (hin s d l).symm)
  · intro s d l hlisted
    rcases (hout s d l).mp hlisted with ⟨hs,-,hd⟩|hold
    · rw [hs,hd]
      exact ⟨hsrc,hdst⟩
    · exact h.ends s d l hold

theorem EndsInv.unlink (h : EndsInv st) {src dst : NodeId} {label : String}
    (hout : st'.adjOut=adjRemove st.adjOut src label dst) (hin : st'.adjIn=adjRemove st.adjIn dst label src)
    (hnodes : st'.nodes=st.nodes) (hrows : ∀ key∈keys st'.edgeProps,key∈keys st.edgeProps)
    (hnone : ¬HasEdge st' src dst label) :
    EndsInv st' ∧ ∀ s d l,d∈adjIds st'.adjOut s l ↔
      ¬(s=src ∧ l=label ∧ d=dst) ∧ d∈adjIds st.adjOut s l := by
  have ⟨hokOut,hmemOut⟩ := adjRemove_spec h.adjOut src dst label
  have ⟨hokIn,hmemIn⟩ := adjRemove_spec h.adjIn dst src label
  rw [←hout] at hokOut hmemOut
  rw [←hin] at hokIn hmemIn
  refine ⟨⟨hokOut,hokIn,fun s d l hhas => ?_,fun s d l => ?_,fun s d l hlisted => ?_⟩,
    fun s d l => hmemOut s d l⟩
  · have ⟨q,hkey⟩ := hhas
    refine (hmemOut s d l).mpr ⟨?_,h.listed s d l ⟨q,hrows _ hkey⟩⟩
    rintro ⟨hs,hl,hd⟩
    rw [hs,hl,hd] at hkey
    exact hnone ⟨q,hkey⟩
  · have hnew : ¬(s=src ∧ l=label ∧ d=dst) ↔ ¬(d=dst ∧ l=label ∧ s=src) := by tauto
    exact (hmemOut s d l).trans ((and_congr hnew (h.mirrored s d l)).trans (hmemIn d s l).symm)
  · rw [hnodes]
    exact h.ends s d l ((hmemOut s d l).mp hlisted).2

theorem uncountEdges_tables (st : Store) (label : String) (n : UInt64) :
    (uncountEdges st label n).nodes=st.nodes ∧ (uncountEdges st label n).adjOut=st.adjOut ∧
      (uncountEdges st label n).adjIn=st.adjIn ∧ (uncountEdges st label n).edgeProps=st.edgeProps := by
  have ⟨m,hstore,_⟩ := uncountEdges_frame st label n
  rw [hstore]
  exact ⟨rfl,rfl,rfl,rfl⟩

theorem exists_scanPrefix {t : Table Bytes Properties} {q : UInt64} (h : edgePropsKey src dst label q∈keys t) :
    ∃ props,(edgePropsKey src dst label q,props)∈scanPrefix t (edgePropsPrefix src dst label) := by
  have ⟨props,hget⟩ := mem_keys.mp h
  have hprefix : edgePropsPrefix src dst label<+:edgePropsKey src dst label q := by
    refine ⟨toBeBytes q,?_⟩
    simp [edgePropsPrefix,edgePropsKey]
  refine ⟨props,?_⟩
  rw [scanPrefix_eq_scan]
  exact mem_scan.mpr ⟨hget,List.isPrefixOf_iff_prefix.mpr hprefix⟩

theorem EndsInv.deleteEdge (h : EndsInv st) (src dst : NodeId) (label : String) :
    EndsInv (deleteEdge st src dst label) ∧ (deleteEdge st src dst label).nodes=st.nodes ∧
      ∀ s d l,d∈adjIds (deleteEdge st src dst label).adjOut s l ↔
        ¬(s=src ∧ l=label ∧ d=dst) ∧ d∈adjIds st.adjOut s l := by
  let entries := scanPrefix st.edgeProps (edgePropsPrefix src dst label)
  let base : Store := {st with
    adjOut := adjRemove st.adjOut src label dst,
    adjIn := adjRemove st.adjIn dst label src,
    edgeProps := deleteAll st.edgeProps (entries.map Prod.fst)}
  have hdef : EdgeStorage.deleteEdge st src dst label=
    uncountEdges base label (UInt64.ofNat entries.length) := rfl
  have ⟨hnodes,hout,hin,hedges⟩ := uncountEdges_tables base label (UInt64.ofNat entries.length)
  have hkeys : ∀ key,key∈keys (uncountEdges base label (UInt64.ofNat entries.length)).edgeProps ↔
      key∉entries.map Prod.fst ∧ key∈keys st.edgeProps := by
    intro key
    rw [hedges]
    exact mem_keys_deleteAll
  rw [hdef]
  have hunlinked := h.unlink hout hin hnodes (fun key hkey => ((hkeys key).mp hkey).2) ?_
  · exact ⟨hunlinked.1,hnodes,hunlinked.2⟩
  · rintro ⟨q,hkey⟩
    have ⟨habsent,hstored⟩ := (hkeys _).mp hkey
    have ⟨props,hscan⟩ := exists_scanPrefix hstored
    exact habsent (List.mem_map_of_mem hscan)

theorem EndsInv.deleteSingleEdge (h : EndsInv st) (src dst : NodeId) (label : String) (seq : UInt64) :
    EndsInv (deleteSingleEdge st src dst label seq) := by
  have ⟨hnodes,hout,hin,hedges,_⟩ := withoutRow_tables st src dst label seq
  rw [deleteSingleEdge_eq]
  generalize withoutRow st src dst label seq=mid at *
  have hrows : ∀ other∈keys mid.edgeProps,other∈keys st.edgeProps := by
    intro other hother
    rw [hedges] at hother
    exact (mem_keys_delete.mp hother).2
  split_ifs with hempty
  · rw [hout,hin]
    have hunlinked := @EndsInv.unlink st {mid with
      adjOut := adjRemove st.adjOut src label dst,adjIn := adjRemove st.adjIn dst label src}
      h src dst label rfl rfl hnodes hrows ?_
    · exact hunlinked.1
    · rintro ⟨q,hkey⟩
      have ⟨props,hscan⟩ := exists_scanPrefix hkey
      exact List.ne_nil_of_mem hscan hempty
  · refine ⟨?_,?_,fun s d l hhas => ?_,fun s d l => ?_,fun s d l hlisted => ?_⟩
    · rw [hout]
      exact h.adjOut
    · rw [hin]
      exact h.adjIn
    · have ⟨q,hkey⟩ := hhas
      rw [hout]
      exact h.listed s d l ⟨q,hrows _ hkey⟩
    · rw [hout,hin]
      exact h.mirrored s d l
    · rw [hout] at hlisted
      rw [hnodes]
      exact h.ends s d l hlisted

theorem EndsInv.deleteListed {targets : List (NodeId×NodeId×String)} (h : EndsInv st)
    (hst : st'=targets.foldl (fun st t => EdgeStorage.deleteEdge st t.1 t.2.1 t.2.2) st) :
    EndsInv st' ∧ st'.nodes=st.nodes ∧ ∀ s d l,d∈adjIds st'.adjOut s l ↔
      (s,d,l)∉targets ∧ d∈adjIds st.adjOut s l := by
  induction targets generalizing st with
  | nil =>
    rw [hst]
    exact ⟨h,rfl,fun s d l => ⟨fun hlisted => ⟨List.not_mem_nil,hlisted⟩,And.right⟩⟩
  | cons t rest ih =>
    have ⟨hone,hnodes,hmem⟩ := h.deleteEdge t.1 t.2.1 t.2.2
    have ⟨hrest,hnodesRest,hmemRest⟩ := ih hone hst
    refine ⟨hrest,hnodesRest.trans hnodes,fun s d l => ?_⟩
    rw [hmemRest s d l,hmem s d l,List.mem_cons,not_or]
    have hsame : (s,d,l)=t ↔ s=t.1 ∧ l=t.2.2 ∧ d=t.2.1 := by
      rw [Prod.ext_iff,Prod.ext_iff]
      tauto
    rw [hsame]
    tauto

theorem EndsInv.deleteEntries {entries : List (String×List UInt64)} (pair : NodeId → NodeId×NodeId)
    (h : EndsInv st) (hst : st'=entries.foldl (fun st entry => entry.2.foldl
      (fun st n => EdgeStorage.deleteEdge st (pair n).1 (pair n).2 entry.1) st) st) :
    EndsInv st' ∧ st'.nodes=st.nodes ∧ ∀ s d l,d∈adjIds st'.adjOut s l ↔
      (∀ ids n,(l,ids)∈entries → n∈ids → pair n≠(s,d)) ∧ d∈adjIds st.adjOut s l := by
  let targets : List (NodeId×NodeId×String) := entries.flatMap fun entry =>
    entry.2.map fun n => ((pair n).1,(pair n).2,entry.1)
  have hfold : st'=targets.foldl (fun st t => EdgeStorage.deleteEdge st t.1 t.2.1 t.2.2) st := by
    rw [hst,List.foldl_flatMap]
    refine List.foldl_ext _ _ _ fun s entry _ => ?_
    rw [List.foldl_map]
  have ⟨hinv,hnodes,hmem⟩ := h.deleteListed hfold
  refine ⟨hinv,hnodes,fun s d l => (hmem s d l).trans (and_congr_left fun _ => ?_)⟩
  constructor
  · intro hnot ids n hentry hn hpair
    refine hnot (List.mem_flatMap.mpr ⟨(l,ids),hentry,List.mem_map.mpr ⟨n,hn,?_⟩⟩)
    rw [hpair]
  · intro hall hmem
    have ⟨entry,hentry,hin⟩ := List.mem_flatMap.mp hmem
    have ⟨n,hn,heq⟩ := List.mem_map.mp hin
    have ⟨hs,hrest⟩ := Prod.mk.inj heq
    have ⟨hd,hl⟩ := Prod.mk.inj hrest
    rw [←hl] at hall
    exact hall entry.2 n hentry hn (Prod.ext hs hd)

theorem EndsInv.uncounted (h : EndsInv st) (label : String) : EndsInv (decrementLabelCount st label) := by
  have hsame := sameEdges_decrementLabelCount st label
  refine h.of_eq hsame.adjOut hsame.adjIn hsame.edgeProps fun id hid => ?_
  have hnodes : (decrementLabelCount st label).nodes=st.nodes := nodes_decrementLabels [label] st
  rw [hnodes]
  exact hid

theorem EndsInv.deleteNode (h : EndsInv st) (id : NodeId) : EndsInv (deleteNode id st).2 := by
  unfold NodeStorage.deleteNode
  refine inspect_bind h fun node _ => inspect_bind h fun outs houts => ?_
  have ⟨hmid,hmidNodes,hmidMem⟩ := h.deleteEntries (fun dst => (id,dst))
    (show deleteOutEdges id outs st=_ from rfl)
  have houtNone : ∀ d l,d∉adjIds (deleteOutEdges id outs st).adjOut id l := by
    intro d l hlisted
    have ⟨hnone,hold⟩ := (hmidMem id d l).mp hlisted
    have ⟨entries,hentries,hall⟩ := edgeLabelEntries_complete h.adjOut id
    rw [Except.ok.inj (hentries.symm.trans houts)] at hall
    have ⟨ids,hentry,hd⟩ := hall l d hold
    exact hnone ids d hentry hd rfl
  refine bind_keeps hmid fun _ mid hrun h₁ => ?_
  rw [←(Prod.mk.inj hrun).2] at h₁ ⊢
  refine inspect_bind h₁ fun ins hins => ?_
  have ⟨hend,hendNodes,hendMem⟩ := h₁.deleteEntries (fun src => (src,id))
    (show deleteInEdges id ins (deleteOutEdges id outs st)=_ from rfl)
  refine bind_keeps hend fun _ last hrun h₂ => ?_
  rw [←(Prod.mk.inj hrun).2] at h₂ ⊢
  have hinNone : ∀ s l,id∉adjIds (deleteInEdges id ins (deleteOutEdges id outs st)).adjOut s l := by
    intro s l hlisted
    have ⟨hnone,hold⟩ := (hendMem s id l).mp hlisted
    have ⟨entries,hentries,hall⟩ := edgeLabelEntries_complete h₁.adjIn id
    rw [Except.ok.inj (hentries.symm.trans hins)] at hall
    have ⟨ids,hentry,hs⟩ := hall l s ((h₁.mirrored s id l).mp hold)
    exact hnone ids s hentry hs rfl
  generalize hlast : deleteInEdges id ins (deleteOutEdges id outs st)=last' at *
  have hgone : EndsInv {last' with nodes := delete last'.nodes id} := by
    refine ⟨h₂.adjOut,h₂.adjIn,h₂.listed,h₂.mirrored,fun s d l hlisted => ?_⟩
    have ⟨hs,hd⟩ := h₂.ends s d l hlisted
    have hne : s≠id := by
      intro heq
      rw [heq] at hlisted
      exact houtNone d l ((hendMem id d l).mp hlisted).2
    have hne' : d≠id := by
      intro heq
      rw [heq] at hlisted
      exact hinNone s l hlisted
    exact ⟨mem_keys_delete.mpr ⟨hne,hs⟩,mem_keys_delete.mpr ⟨hne',hd⟩⟩
  refine bind_keeps hgone fun _ final hrun h₃ => ?_
  have hlabels : ∀ (labels : List String) {st : Store},EndsInv st →
      EndsInv (labels.foldl decrementLabelCount st) := by
    intro labels
    induction labels with
    | nil => exact fun hst => hst
    | cons label rest ih => exact fun hst => ih (hst.uncounted label)
  exact hlabels node.labels h₃

end Steps

/-- A relationship is created between stored nodes, and properties are written to listed
relationships. -/
def EndsGiven (st : Store) : StorageCall → Prop
  | .createEdge src dst label properties =>
    CheckedNames label properties → nodeExists st src=true ∧ nodeExists st dst=true
  | .setEdgeProperty src dst label _ _ _ => dst∈adjIds st.adjOut src label
  | .setAllEdgeProperties src dst label _ _ => dst∈adjIds st.adjOut src label
  | .createNode _ _ => True
  | .setNodeProperty _ _ _ => True
  | .setAllNodeProperties _ _ => True
  | .addNodeLabel _ _ => True

section Calls

variable {st : Store}

theorem EndsInv.createNode (h : EndsInv st) (labels : List String) (props : Properties) :
    EndsInv (createNode labels props st).2 := by
  have hnext : EndsInv (nextNodeId st).2 := by
    have hsame := sameEdges_nextNodeId st
    refine h.of_eq hsame.adjOut hsame.adjIn hsame.edgeProps fun id hid => ?_
    unfold nextNodeId
    cases get st.metadata nextNodeIdKey with
    | none => exact hid
    | some raw =>
      dsimp only
      rcases advanceCounter_cases nextNodeIdKey "corrupt node ID bytes" "node ID space exhausted" raw st
        with herror|hok
      · have ⟨e,herror⟩ := herror
        rw [herror]
        exact hid
      · have ⟨n,hok⟩ := hok
        rw [hok]
        exact hid
  unfold NodeStorage.createNode
  refine inspect_bind h fun _ _ => inspect_bind h fun _ _ => ?_
  refine bind_keeps hnext fun id st₁ _ h₁ => ?_
  have hrow : EndsInv (NodeStorage.putNode st₁ id ⟨labels.insertionSort (· ≤ ·),props⟩) := h₁.putNode id _
  have hcount : ∀ (labels : List String) {st : Store},EndsInv st →
      EndsInv (labels.foldl incrementLabelCount st) := by
    intro labels
    induction labels with
    | nil => exact fun hst => hst
    | cons label rest ih => exact fun hst => ih (hst.of_eq rfl rfl rfl fun _ hid => hid)
  exact hcount _ hrow

theorem EndsInv.createEdge (h : EndsInv st) {src dst : NodeId} {label : String} {props : Properties}
    (hends : EndsGiven st (.createEdge src dst label props)) :
    EndsInv (createEdge src dst label props st).2 := by
  by_cases hnames : CheckedNames label props
  · have ⟨hsrc,hdst⟩ := hends hnames
    have hlinked := h.linkEdge hnames.1 (contains_iff.mp hsrc) (contains_iff.mp hdst)
    have hkept : EndsInv (EdgeStorage.createEdge src dst label props st).2 ∧
        dst∈adjIds (EdgeStorage.createEdge src dst label props st).2.adjOut src label := by
      rw [createEdge_checked hnames]
      have ⟨m,hstore,_⟩ := nextEdgeSeq_frame (EdgeStorage.linkEdge st src dst label)
      have hseq : EndsInv (nextEdgeSeq (EdgeStorage.linkEdge st src dst label)).2 ∧
          dst∈adjIds (nextEdgeSeq (EdgeStorage.linkEdge st src dst label)).2.adjOut src label := by
        rw [hstore]
        exact ⟨hlinked.1.of_eq rfl rfl rfl fun _ hid => hid,hlinked.2⟩
      refine bind_keeps (I:=fun st => EndsInv st ∧ dst∈adjIds st.adjOut src label) hseq
        fun seq st₁ _ h₁ => ?_
      have hrow := h₁.1.putRow h₁.2 seq props
      exact ⟨hrow.of_eq rfl rfl rfl fun _ hid => hid,h₁.2⟩
    exact hkept.1
  · have ⟨e,herror⟩ := createEdge_rejected (s:=src) (d:=dst) hnames st
    rw [herror]
    exact h

theorem EndsInv.call (h : EndsInv st) {c : StorageCall} (hends : EndsGiven st c) : EndsInv (c.run st).2 := by
  cases c with
  | createNode labels properties => exact keeps_then_pure (h.createNode labels properties) fun _ => ()
  | createEdge src dst label properties => exact h.createEdge hends
  | setNodeProperty id key val =>
    exact inspect_bind h fun _ _ => inspect_bind h fun record _ => h.putNode id _
  | setAllNodeProperties id properties => exact inspect_bind h fun record _ => h.putNode id _
  | addNodeLabel id label =>
    change EndsInv (addNodeLabel id label st).2
    unfold addNodeLabel
    refine inspect_bind h fun record _ => ?_
    split_ifs
    · exact h
    · exact (h.putNode id _).of_eq rfl rfl rfl fun _ hid => hid
  | setEdgeProperty src dst label seq key val => exact h.putRow hends seq _
  | setAllEdgeProperties src dst label seq properties => exact h.putRow hends seq properties

theorem keeps_removal (r : Removal) : Keeps EndsInv r.run := by
  intro st h
  cases r with
  | nodeProperty id key => exact inspect_bind h fun record _ => h.putNode id _
  | clearNodeProperty id key =>
    exact inspect_bind h fun _ _ => inspect_bind h fun record _ => h.putNode id _
  | nodeLabel id label =>
    change EndsInv (removeNodeLabel id label st).2
    unfold removeNodeLabel
    refine inspect_bind h fun record _ => ?_
    by_cases habsent : label∉record.labels
    · rw [if_pos habsent]
      exact h
    · rw [if_neg habsent]
      have hput : EndsInv (NodeStorage.putNode st id
          {record with labels := record.labels.filter (· ≠ label)}) := h.putNode id _
      exact hput.uncounted label
  | node id => exact h.deleteNode id
  | edges src dst label => exact (h.deleteEdge src dst label).1
  | edge src dst label seq => exact h.deleteSingleEdge src dst label seq

theorem keptBy_endsGiven : KeptBy EndsGiven EndsInv where
  call _ _ h hends := h.call hends
  removal := keeps_removal
  indexTables _ _ h := h.of_eq rfl rfl rfl fun _ hid => hid
  ftsTables _ _ h := h.of_eq rfl rfl rfl fun _ hid => hid

end Calls

/-- Along every run in which relationships are created between stored nodes, and
properties are written only to listed relationships, both ends of every stored
relationship are stored nodes. -/
theorem endsStored_reached {E : Type} (env : ExecEnv E) (limits : Limits) (steps : List (WriteStep E))
    (hguard : Guarded (applyWriteStep env limits) (StepMeets EndsGiven env limits) freshStore steps)
    (first : List (WriteStep E)) (hfirst : first<+:steps) :
    EndsStored (StatefulActions.run (applyWriteStep env limits) freshStore first) :=
  (keptBy_endsGiven.reached endsInv_freshStore hguard hfirst).endsStored

/-- `MATCH (a), (b)` on two nodes. -/
def pairRecord : NamedRecord := ⟨[("a",.i64 1),("b",.i64 2)]⟩

/-- The parts of `CREATE (a)-[:R]->(b)`. -/
def pairOps : List (CreateOp Value) :=
  [.node [] (some "a") [],.node [] (some "b") [],.edge "a" "b" "R" none []]

/-- `CREATE (a:A), (b:B)`, `CREATE (a)-[:R]->(b)` between them, a relationship by the
transaction call, and `DETACH DELETE a`. -/
def endsSteps : List (WriteStep Value) :=
  [.clause (.createSequence [.node ["A"] (some "a") [],.node ["B"] (some "b") []]),
    .clause (.matchCreate [pairRecord] pairOps),.call (.createEdge 2 1 "S" []),
    .clause (.delete [pairRecord] [.var "a"] true)]

/-- Ends are stored after that run. -/
theorem endsStored_sample :
    EndsStored (StatefulActions.run (applyWriteStep literalEnv ⟨256,65536⟩) freshStore endsSteps) := by
  refine endsStored_reached literalEnv ⟨256,65536⟩ endsSteps ⟨?_,?_,?_,?_,trivial⟩ endsSteps
    List.prefix_rfl
  · exact ⟨fun _ _ => trivial,fun _ _ _ => ⟨fun _ _ => trivial,fun _ _ _ => trivial⟩⟩
  · refine ⟨⟨fun hfree => absurd hfree (by decide),fun s st hrun => ?_⟩,fun _ _ _ => trivial⟩
    have ⟨hs,hst⟩ := Prod.mk.inj hrun
    rw [←Except.ok.inj hs,←hst]
    refine ⟨fun hfree => absurd hfree (by decide),fun s st hrun => ?_⟩
    have ⟨hs,hst⟩ := Prod.mk.inj hrun
    rw [←Except.ok.inj hs,←hst]
    refine ⟨fun _ src dst props hsrc hdst _ _ => ?_,fun _ _ _ => trivial⟩
    rw [←Except.ok.inj hsrc,←Except.ok.inj hdst]
    exact ⟨by decide,by decide⟩
  · exact fun _ hsrc hdst _ => ⟨hsrc,hdst⟩
  · trivial

/-- `MATCH (a), (b) DETACH DELETE a CREATE (a)-[:R]->(b)` stores a relationship from a node
that is gone. -/
theorem endsStored_run_fails :
    ¬∀ steps : List (WriteStep Value),
      EndsStored (StatefulActions.run (applyWriteStep literalEnv ⟨256,65536⟩) freshStore steps) := by
  intro hall
  have hstored := hall [.clause (.createSequence [.node ["A"] (some "a") [],.node ["B"] (some "b") []]),
    .clause (.delete [pairRecord] [.var "a"] true),
    .clause (.matchCreate [pairRecord.set "a.__deleted" (.bool true)] pairOps)]
  have hrow := hstored.rows 1 2 "R" 0 (by decide)
  exact absurd hrow.1 (by decide)

end GraphDbLite.EdgeEndpoints
