import GraphDbLite.EdgeConsistency
import GraphDbLite.FallibleLists
import GraphDbLite.WriteOperators

/-!
# Deleting entities

DELETE collects the entities of every row first and then deletes relationships and
nodes. A relationship that lost its sequence number stands for all parallel ones, and
an integer stands for the node of that number. Apart from these the deleted entities
are those that the rows bind.
-/

namespace GraphDbLite.EntityDeletion

open ByteStrings GraphTypes OrderedTable StatefulActions GraphStore EdgeStorage NodeStorage
open AdjacencyEncoding EdgeConsistency FallibleLists WriteOperators

/-- Identity of a relationship. -/
abbrev EdgeId := NodeId×NodeId×String×UInt64

/-- A relationship collected for deletion. -/
abbrev EdgeTarget := NodeId×NodeId×String×Option UInt64

/-- Whether a relationship has a row. -/
def StoredEdge (st : Store) (e : EdgeId) : Prop := edgePropsKey e.1 e.2.1 e.2.2.1 e.2.2.2∈keys st.edgeProps

/-- Whether a relationship is deleted for a target. -/
def Covers (target : EdgeTarget) (e : EdgeId) : Prop :=
  target.1=e.1 ∧ target.2.1=e.2.1 ∧ target.2.2.1=e.2.2.1 ∧ ∀ q∈target.2.2.2,q=e.2.2.2

/-- Whether a relationship starts or ends at a node. -/
def Incident (e : EdgeId) (id : NodeId) : Prop := e.1=id ∨ e.2.1=id

section Storage

variable {st : Store}

theorem stored_deleteEdge (h : EdgeInv st) {s d : NodeId} {l : String} (hl : isValidName l=true)
    (e : EdgeId) :
    (StoredEdge (deleteEdge st s d l) e ↔ StoredEdge st e ∧ ¬Covers (s,d,l,none) e) ∧
      (deleteEdge st s d l).nodes=st.nodes := by
  let entries := scanPrefix st.edgeProps (edgePropsPrefix s d l)
  let base : Store := {st with
    adjOut := adjRemove st.adjOut s l d,
    adjIn := adjRemove st.adjIn d l s,
    edgeProps := deleteAll st.edgeProps (entries.map Prod.fst)}
  have hdef : deleteEdge st s d l=uncountEdges base l (UInt64.ofNat entries.length) := rfl
  have ⟨m,hstore,_⟩ := uncountEdges_frame base l (UInt64.ofNat entries.length)
  rw [hdef,hstore]
  refine ⟨?_,rfl⟩
  change edgePropsKey e.1 e.2.1 e.2.2.1 e.2.2.2∈keys (deleteAll st.edgeProps (entries.map Prod.fst)) ↔ _
  have hentries : entries=scan st.edgeProps (parallelKey s d l) := scanPrefix_eq_scan _ _
  rw [hentries,keys_deleteAll_scan,List.mem_filter]
  refine and_congr_right fun hstored => ?_
  rw [Bool.not_eq_true',Bool.eq_false_iff,ne_eq,not_iff_not]
  refine (h.prefix_iff hl hstored).trans ?_
  constructor
  · intro hq
    have ⟨q,hkey⟩ := hq
    have ⟨hs,hd,hll,_⟩ := edgePropsKey_inj.mp hkey
    exact ⟨hs.symm,hd.symm,hll.symm,by simp⟩
  · intro hc
    have ⟨hs,hd,hll,_⟩ := hc
    exact ⟨e.2.2.2,edgePropsKey_inj.mpr ⟨hs.symm,hd.symm,hll.symm,rfl⟩⟩

theorem stored_deleteSingleEdge (s d : NodeId) (l : String) (q : UInt64) (e : EdgeId) :
    (StoredEdge (deleteSingleEdge st s d l q) e ↔ StoredEdge st e ∧ ¬Covers (s,d,l,some q) e) ∧
      (deleteSingleEdge st s d l q).nodes=st.nodes := by
  have ⟨hnodes,_,_,hedges,_⟩ := withoutRow_tables st s d l q
  have hrows : (deleteSingleEdge st s d l q).edgeProps=delete st.edgeProps (edgePropsKey s d l q) ∧
      (deleteSingleEdge st s d l q).nodes=st.nodes := by
    rw [deleteSingleEdge_eq]
    split_ifs
    · exact ⟨hedges,hnodes⟩
    · exact ⟨hedges,hnodes⟩
  refine ⟨?_,hrows.2⟩
  unfold StoredEdge
  rw [hrows.1,mem_keys_delete,and_comm]
  refine and_congr_right fun _ => not_congr ?_
  rw [edgePropsKey_inj]
  unfold Covers
  simp only [Option.mem_def,Option.some.injEq,forall_eq']
  constructor
  · intro hsame
    exact ⟨hsame.1.symm,hsame.2.1.symm,hsame.2.2.1.symm,hsame.2.2.2.symm⟩
  · intro hsame
    exact ⟨hsame.1.symm,hsame.2.1.symm,hsame.2.2.1.symm,hsame.2.2.2.symm⟩

theorem stored_deleteTargets {targets : List EdgeTarget}
    (hvalid : ∀ target∈targets,isValidName target.2.2.1=true) (h : EdgeInv st) :
    EdgeInv (targets.foldl deleteEdgeTarget st) ∧ (targets.foldl deleteEdgeTarget st).nodes=st.nodes ∧
      ∀ e,StoredEdge (targets.foldl deleteEdgeTarget st) e ↔
        StoredEdge st e ∧ ∀ target∈targets,¬Covers target e := by
  induction targets generalizing st with
  | nil =>
    refine ⟨h,rfl,fun e => ?_⟩
    simp
  | cons target rest ih =>
    have hl := hvalid target List.mem_cons_self
    have hone : EdgeInv (deleteEdgeTarget st target) ∧
        ∀ e,(StoredEdge (deleteEdgeTarget st target) e ↔ StoredEdge st e ∧ ¬Covers target e) ∧
          (deleteEdgeTarget st target).nodes=st.nodes := by
      have ⟨s,d,l,seq⟩ := target
      cases seq with
      | none => exact ⟨(h.deleteEdge s d hl).1,stored_deleteEdge h hl⟩
      | some q => exact ⟨h.deleteSingleEdge s d hl q,stored_deleteSingleEdge s d l q⟩
    have ⟨hinv,hnodes,hstored⟩ := ih (fun other hin => hvalid other (List.mem_cons_of_mem _ hin)) hone.1
    rw [List.foldl_cons]
    refine ⟨hinv,hnodes.trans (hone.2 (0,0,"",0)).2,fun e => ?_⟩
    rw [hstored,(hone.2 e).1,List.forall_mem_cons,and_assoc]

variable {t : Table Bytes Bytes} {id : NodeId}

theorem edgeLabelEntries_rows (h : AdjOk t) (n : NodeId) : ∃ entries,edgeLabelEntries t n=.ok entries ∧
    ∀ row∈(scanPrefix t (toBeBytes n)).filter fun entry => 8<entry.1.length, ∀ m l,row.1=adjKey m l →
    (l,decodeIdList row.2)∈entries := by
  have hrows : ∀ row∈(scanPrefix t (toBeBytes n)).filter fun entry => 8<entry.1.length,
      ∃ m l,isValidName l=true ∧ row.1=adjKey m l := by
    intro row hrow
    rw [scanPrefix_eq_scan] at hrow
    exact (h row.1 row.2 (mem_scan.mp (List.mem_of_mem_filter hrow)).1).1
  have hdrop : ∀ (m : NodeId) (l : String),(adjKey m l).drop 8=asBytes l := fun m l =>
    List.drop_left' (by simp)
  unfold edgeLabelEntries
  generalize (scanPrefix t (toBeBytes n)).filter (fun entry => 8<entry.1.length)=rows at hrows ⊢
  induction rows with
  | nil => exact ⟨[],rfl,fun row hrow => absurd hrow List.not_mem_nil⟩
  | cons row rest ih =>
    have ⟨entries,hentries,hall⟩ := ih fun other hin => hrows other (List.mem_cons_of_mem _ hin)
    have ⟨m,l,_,hkey⟩ := hrows row List.mem_cons_self
    refine ⟨(l,decodeIdList row.2)::entries,?_,fun other hin m' l' hkey' => ?_⟩
    · rw [List.mapM_cons,hkey,hdrop,fromUtf8_asBytes,hentries]
      rfl
    · rcases List.mem_cons.mp hin with heq | hrest
      · rw [heq,hkey] at hkey'
        rw [heq,(adjKey_inj.mp hkey').2]
        exact List.mem_cons_self
      · exact List.mem_cons_of_mem _ (hall other hrest m' l' hkey')

theorem edgeLabelEntries_complete (h : AdjOk t) (n : NodeId) :
    ∃ entries,edgeLabelEntries t n=.ok entries ∧ ∀ l m,m∈adjIds t n l → ∃ ids,(l,ids)∈entries ∧ m∈ids := by
  have ⟨entries,hentries,hall⟩ := edgeLabelEntries_rows h n
  refine ⟨entries,hentries,fun l m hm => ?_⟩
  have hl := validName_of_mem_adjIds h hm
  unfold adjIds at hm
  cases hget : get t (adjKey n l) with
  | none =>
    rw [hget] at hm
    exact absurd hm List.not_mem_nil
  | some data =>
    rw [hget] at hm
    have hscan : (adjKey n l,data)∈scanPrefix t (toBeBytes n) := by
      rw [scanPrefix_eq_scan]
      exact mem_scan.mpr ⟨hget,List.isPrefixOf_iff_prefix.mpr (List.prefix_append _ _)⟩
    have hlong : 8<(adjKey n l).length := by
      have hne : l≠"" := by
        intro heq
        rw [heq] at hl
        exact absurd hl (by decide)
      have hbytes : asBytes l≠[] := fun heq => hne (asBytes_inj.mp (heq.trans rfl))
      rw [adjKey,List.length_append,toBeBytes_length]
      have hpos := List.length_pos_iff.mpr hbytes
      omega
    exact ⟨decodeIdList data,
      hall _ (List.mem_filter.mpr ⟨hscan,decide_eq_true hlong⟩) n l rfl,hm⟩

theorem stored_deleteListed {st' : Store} {entries : List (String×List UInt64)}
    (pair : NodeId → NodeId×NodeId)
    (hvalid : ∀ entry∈entries,isValidName entry.1=true) (h : EdgeInv st)
    (hst : st'=entries.foldl
      (fun st entry => entry.2.foldl (fun st n => deleteEdge st (pair n).1 (pair n).2 entry.1) st) st) :
    EdgeInv st' ∧ st'.nodes=st.nodes ∧ ∀ e,StoredEdge st' e ↔ StoredEdge st e ∧
      ∀ entry∈entries,∀ n∈entry.2,¬Covers ((pair n).1,(pair n).2,entry.1,none) e := by
  let targets : List EdgeTarget := entries.flatMap fun entry =>
    entry.2.map fun n => ((pair n).1,(pair n).2,entry.1,none)
  have hfold : st'=targets.foldl deleteEdgeTarget st := by
    rw [hst,List.foldl_flatMap]
    refine List.foldl_ext _ _ _ fun s entry _ => ?_
    rw [List.foldl_map]
    rfl
  have hnames : ∀ target∈targets,isValidName target.2.2.1=true := by
    intro target htarget
    have ⟨entry,hentry,hin⟩ := List.mem_flatMap.mp htarget
    have ⟨n,_,heq⟩ := List.mem_map.mp hin
    rw [←heq]
    exact hvalid entry hentry
  have ⟨hinv,hnodes,hstored⟩ := stored_deleteTargets hnames h
  rw [hfold]
  refine ⟨hinv,hnodes,fun e => (hstored e).trans (and_congr_right fun _ => ?_)⟩
  constructor
  · intro hall entry hentry n hn
    exact hall _ (List.mem_flatMap.mpr ⟨entry,hentry,List.mem_map_of_mem hn⟩)
  · intro hall target htarget
    have ⟨entry,hentry,hin⟩ := List.mem_flatMap.mp htarget
    have ⟨n,hn,heq⟩ := List.mem_map.mp hin
    rw [←heq]
    exact hall entry hentry n hn

theorem nodes_decrementLabels (labels : List String) (st : Store) :
    (labels.foldl decrementLabelCount st).nodes=st.nodes := by
  induction labels generalizing st with
  | nil => rfl
  | cons label rest ih =>
    have ⟨m,hstore,_⟩ := decrementCountBy_frame st (labelCountKey label) 1
    have hone : (decrementLabelCount st label).nodes=st.nodes := by
      unfold decrementLabelCount
      rw [hstore]
    rw [List.foldl_cons,ih,hone]

theorem deleteNode_stored (h : EdgeInv st) (hid : id∈keys st.nodes) : ∃ st',deleteNode id st=(.ok (),st') ∧
    EdgeInv st' ∧ (∀ n,n∈keys st'.nodes ↔ n∈keys st.nodes ∧ n≠id) ∧ ∀ e,StoredEdge st' e ↔ StoredEdge st e ∧
    ¬Incident e id := by
  have ⟨row,hrow⟩ := mem_keys.mp hid
  have hread : getNode st id=.ok ⟨id,row.value.labels,row.value.properties⟩ := by
    unfold getNode getRecord
    rw [hrow]
    rfl
  have ⟨outs,houts,houtAll⟩ := edgeLabelEntries_complete h.adjOut id
  have ⟨hmid,hmidNodes,hmidStored⟩ := stored_deleteListed (fun dst => (id,dst))
    (validName_of_edgeLabelEntries h.adjOut houts) h (show deleteOutEdges id outs st=_ from rfl)
  have ⟨ins,hins,hinAll⟩ := edgeLabelEntries_complete hmid.adjIn id
  have ⟨hend,hendNodes,hendStored⟩ := stored_deleteListed (fun src => (src,id))
    (validName_of_edgeLabelEntries hmid.adjIn hins) hmid
    (show deleteInEdges id ins (deleteOutEdges id outs st)=_ from rfl)
  let mid := deleteOutEdges id outs st
  let bare := deleteInEdges id ins mid
  let gone : Store := {bare with nodes := delete bare.nodes id}
  let final := row.value.labels.foldl decrementLabelCount gone
  have hrun : deleteNode id st=(.ok (),final) := by
    unfold deleteNode
    rw [inspect_ok (by exact hread),
      bind_ok (show inspect (fun st => getAllEdgeLabels st id .outgoing) st=(.ok outs,st) by
        rw [inspect_apply,getAllEdgeLabels,houts]),
      bind_ok (by rw [update_apply]),
      bind_ok (show inspect (fun st => getAllEdgeLabels st id .incoming) mid=(.ok ins,mid) by
        rw [inspect_apply,getAllEdgeLabels]
        exact congrArg (fun r => (r,mid)) hins),
      bind_ok (by rw [update_apply])]
    rfl
  have hgone : SameEdges bare gone := ⟨rfl,rfl,rfl,rfl,fun _ => rfl⟩
  have hsame : SameEdges bare final := hgone.trans (sameEdges_foldl sameEdges_decrementLabelCount _ gone)
  have hnodes : final.nodes=delete st.nodes id := by
    have hlabels : final.nodes=gone.nodes := nodes_decrementLabels row.value.labels gone
    have hbare : bare.nodes=st.nodes := hendNodes.trans hmidNodes
    rw [hlabels]
    change delete bare.nodes id=_
    rw [hbare]
  refine ⟨final,hrun,hend.of_same hsame,fun n => ?_,fun e => ?_⟩
  · rw [hnodes,mem_keys_delete,and_comm]
  · have hrows : StoredEdge final e ↔ StoredEdge bare e := by
      unfold StoredEdge
      rw [hsame.edgeProps]
    rw [hrows]
    refine (hendStored e).trans ?_
    rw [hmidStored,and_assoc]
    refine and_congr_right fun hstored => ?_
    constructor
    · intro hclear hincident
      have ⟨hout,hin⟩ := hclear
      rcases hincident with hsrc | hdst
      · have hlisted : e.2.1∈adjIds st.adjOut id e.2.2.1 :=
          (h.out id e.2.1 e.2.2.1).mpr ⟨e.2.2.2,hsrc▸hstored⟩
        have ⟨ids,hentry,hmem⟩ := houtAll _ _ hlisted
        exact hout _ hentry _ hmem ⟨hsrc.symm,rfl,rfl,by simp⟩
      · have hmidRow : StoredEdge mid e := (hmidStored e).mpr ⟨hstored,hout⟩
        unfold StoredEdge at hmidRow
        rw [hdst] at hmidRow
        have hlisted : e.1∈adjIds mid.adjIn id e.2.2.1 :=
          (hmid.inc e.1 id e.2.2.1).mpr ⟨e.2.2.2,hmidRow⟩
        have ⟨ids,hentry,hmem⟩ := hinAll _ _ hlisted
        exact hin _ hentry _ hmem ⟨rfl,hdst.symm,rfl,by simp⟩
    · intro hnot
      exact ⟨fun _ _ _ _ hc => hnot (Or.inl hc.1.symm),fun _ _ _ _ hc => hnot (Or.inr hc.2.1.symm)⟩

theorem not_incident_of_detached (h : EdgeInv st) (hnone : nodeHasEdges st id=.ok false) {e : EdgeId}
    (he : StoredEdge st e) : ¬Incident e id := by
  have ⟨outs,houts,houtAll⟩ := edgeLabelEntries_complete h.adjOut id
  have ⟨ins,hins,hinAll⟩ := edgeLabelEntries_complete h.adjIn id
  unfold nodeHasEdges getAllEdgeLabels at hnone
  rw [houts,hins] at hnone
  dsimp only [bind,Except.bind,pure,Except.pure] at hnone
  split_ifs at hnone with hempty
  · exact absurd (Except.ok.inj hnone) (by simp)
  · have hno : outs=[] := not_not.mp hempty
    have hni : ins=[] := by simpa using Except.ok.inj hnone
    intro hincident
    rcases hincident with hsrc | hdst
    · have hlisted : e.2.1∈adjIds st.adjOut id e.2.2.1 :=
        (h.out id e.2.1 e.2.2.1).mpr ⟨e.2.2.2,hsrc▸he⟩
      have ⟨ids,hentry,_⟩ := houtAll _ _ hlisted
      rw [hno] at hentry
      exact absurd hentry List.not_mem_nil
    · unfold StoredEdge at he
      rw [hdst] at he
      have ⟨ids,hentry,_⟩ := hinAll _ _ ((h.inc e.1 id e.2.2.1).mpr ⟨e.2.2.2,he⟩)
      rw [hni] at hentry
      exact absurd hentry List.not_mem_nil

end Storage

/-- Two stores with the same nodes and relationships. -/
structure SameEntities (st st' : Store) : Prop where
  /-- Same relationships. -/
  edges : SameEdges st st'
  /-- Same nodes. -/
  nodes : st'.nodes=st.nodes

section Targets

variable {E : Type} {env : ExecEnv E} {st : Store}

theorem sameEntities_clearNode (id : NodeId) : SameEntities st (clearNode env id st).2 := by
  have hindex : ∀ st' indexTables,SameEntities st st' →
      SameEntities st {st' with indexTables := indexTables} := fun _ _ h =>
    ⟨⟨h.edges.adjOut,h.edges.adjIn,h.edges.edgeProps,h.edges.seq,h.edges.counts⟩,h.nodes⟩
  have hfts : ∀ st' ftsTables,SameEntities st st' →
      SameEntities st {st' with ftsTables := ftsTables} := fun _ _ h =>
    ⟨⟨h.edges.adjOut,h.edges.adjIn,h.edges.edgeProps,h.edges.seq,h.edges.counts⟩,h.nodes⟩
  have hrefl : SameEntities st st := ⟨SameEdges.refl st,rfl⟩
  unfold clearNode
  cases hread : getNode st id with
  | error e => exact hrefl
  | ok n =>
    have hindexes := keeps_attempt (keeps_removeIndexesForNode hindex env.enc id n.labels n.properties)
    have htexts := keeps_attempt (keeps_removeFtsForNode hfts id n.labels n.properties)
    exact keeps_bind hindexes (fun _ => htexts) st hrefl

/-- What a deletion of nodes leaves. -/
structure NodesGone (detach : Bool) (gone : NodeId → Prop) (st st' : Store) : Prop where
  /-- The tables agree. -/
  inv : EdgeInv st'
  /-- The nodes that stay. -/
  nodes : ∀ n,n∈keys st'.nodes ↔ n∈keys st.nodes ∧ ¬gone n
  /-- The relationships that stay. -/
  edges : ∀ e,StoredEdge st' e ↔ StoredEdge st e ∧
    ¬(detach=true ∧ ∃ id∈keys st.nodes,gone id ∧ Incident e id)

variable {detach : Bool} {st' : Store}

theorem checkDetached_ok {id : NodeId} (hrun : checkDetached detach id st=(.ok (),st')) :
    st'=st ∧ (detach=false → nodeHasEdges st id=.ok false) := by
  unfold checkDetached at hrun
  cases detach with
  | true => exact ⟨(Prod.mk.inj hrun).2.symm,fun h => absurd h (by simp)⟩
  | false =>
    rw [if_neg (by simp)] at hrun
    have ⟨connected,s,hread,htest⟩ := ok_of_bind hrun
    have ⟨hvalue,hstate⟩ := Prod.mk.inj hread
    cases connected with
    | true => exact absurd (Prod.mk.inj htest).1 (by simp)
    | false => exact ⟨(Prod.mk.inj htest).2.symm.trans hstate.symm,fun _ => hvalue⟩

theorem deleteNodeTarget_gone (h : EdgeInv st) {id : NodeId}
    (hrun : deleteNodeTarget env detach id st=(.ok (),st')) : NodesGone detach (fun n => n=id) st st' := by
  unfold deleteNodeTarget at hrun
  have ⟨_,s,hcheck,hthen⟩ := ok_of_bind hrun
  have ⟨hs,hdetached⟩ := checkDetached_ok hcheck
  rw [hs] at hthen
  have hclear := @sameEntities_clearNode E env st id
  have ⟨_,mid,hclearRun,hdelete⟩ := ok_of_bind hthen
  rw [hclearRun] at hclear
  have hmid : EdgeInv mid := h.of_same hclear.edges
  have hrows : ∀ e,StoredEdge mid e ↔ StoredEdge st e := fun e => by
    unfold StoredEdge
    rw [hclear.edges.edgeProps]
  have hkeys : ∀ n,n∈keys mid.nodes ↔ n∈keys st.nodes := fun n => by rw [hclear.nodes]
  have hend : (deleteNode id mid).2=st' := (Prod.mk.inj hdelete).2
  by_cases hid : id∈keys st.nodes
  · have ⟨final,hfinal,hinv,hnodes,hedges⟩ := deleteNode_stored hmid ((hkeys id).mpr hid)
    rw [hfinal] at hend
    rw [←hend]
    refine ⟨hinv,fun n => by rw [hnodes,hkeys],fun e => ?_⟩
    rw [hedges,hrows]
    refine and_congr_right fun he => ?_
    cases detach with
    | true => simp [hid]
    | false => simp [not_incident_of_detached h (hdetached rfl) he]
  · have hmissing : getNode mid id=.error (.nodeNotFound id none) := by
      have hnone : get mid.nodes id=none := get_eq_none.mpr fun hin => hid ((hkeys id).mp hin)
      unfold getNode getRecord
      rw [hnone]
      rfl
    have hkept : (deleteNode id mid).2=mid := by
      unfold deleteNode
      rw [inspect_error (by exact hmissing)]
    rw [←hend,hkept]
    refine ⟨hmid,fun n => ?_,fun e => ?_⟩
    · rw [hkeys]
      constructor
      · intro hn
        exact ⟨hn,fun heq => hid (heq▸hn)⟩
      · exact And.left
    · rw [hrows]
      constructor
      · intro he
        refine ⟨he,fun hgone => ?_⟩
        have ⟨_,n,hn,heq,_⟩ := hgone
        exact hid (heq▸hn)
      · exact And.left

theorem deleteNodeTargets_gone {ids : List NodeId} (h : EdgeInv st)
    (hrun : forEach ids (deleteNodeTarget env detach) st=(.ok (),st')) : NodesGone detach (fun n => n∈ids) st st' := by
  induction ids generalizing st with
  | nil =>
    rw [←(Prod.mk.inj hrun).2]
    exact ⟨h,by simp,by simp⟩
  | cons id rest ih =>
    have ⟨_,mid,hone,hrest⟩ := ok_of_bind hrun
    have hfirst := deleteNodeTarget_gone h hone
    have hthen := ih hfirst.inv hrest
    refine ⟨hthen.inv,fun n => ?_,fun e => ?_⟩
    · rw [hthen.nodes,hfirst.nodes,List.mem_cons,not_or,and_assoc]
    · rw [hthen.edges,hfirst.edges,and_assoc]
      refine and_congr_right fun _ => ?_
      constructor
      · intro hclear hgone
        have ⟨hdetach,n,hn,hin,hincident⟩ := hgone
        by_cases heq : n=id
        · exact hclear.1 ⟨hdetach,n,hn,heq,hincident⟩
        · exact hclear.2 ⟨hdetach,n,(hfirst.nodes n).mpr ⟨hn,heq⟩,
            (List.mem_cons.mp hin).resolve_left heq,hincident⟩
      · intro hclear
        refine ⟨fun hgone => ?_,fun hgone => ?_⟩
        · have ⟨hdetach,n,hn,heq,hincident⟩ := hgone
          exact hclear ⟨hdetach,n,hn,List.mem_cons.mpr (Or.inl heq),hincident⟩
        · have ⟨hdetach,n,hn,hin,hincident⟩ := hgone
          exact hclear ⟨hdetach,n,((hfirst.nodes n).mp hn).1,List.mem_cons_of_mem _ hin,hincident⟩

end Targets

/-- What an expression of DELETE gives on a row: a variable of the row, or a value. -/
inductive Bound where
  | var (rec : NamedRecord) (var : String)
  | value (v : Value)

section Rows

variable {E : Type} (env : ExecEnv E) (st : Store)

/-- What the expressions give on a row; a variable is marked as deleted for the
expressions after it. -/
def boundExprs : List (DeleteExpr E) → NamedRecord → Result (List Bound)
  | [],_ => .ok []
  | .var var::rest,rec =>
    (boundExprs rest (rec.set (var++".__deleted") (.bool true))).map (.var rec var::·)
  | .other expr::rest,rec => do
    let val ← env.eval st expr rec
    let more ← boundExprs rest rec
    pure (.value val::more)

/-- What the expressions give on the rows. -/
def boundRows (exprs : List (DeleteExpr E)) (records : List NamedRecord) : Result (List Bound) :=
  gather (boundExprs env st exprs) records

end Rows

mutual

/-- Relationships of a value; none of them has a sequence number. -/
def valueEdges : Value → List EdgeTarget
  | .edge e => [(e.src,e.dst,e.label,none)]
  | .path p => p.edges.map fun e => (e.src,e.dst,e.label,none)
  | .list items => itemEdges items
  | _ => []

/-- Relationships of the items of a list. -/
def itemEdges : List Value → List EdgeTarget
  | [] => []
  | item::rest => valueEdges item++itemEdges rest

end

mutual

/-- Nodes of a value. -/
def valueNodes : Value → List NodeId
  | .node n => [n.id]
  | .path p => p.nodes.map fun n => n.id
  | .list items => itemNodes items
  | _ => []

/-- Nodes of the items of a list. -/
def itemNodes : List Value → List NodeId
  | [] => []
  | item::rest => valueNodes item++itemNodes rest

end

mutual

/-- Integers of a value, read as identifiers. -/
def valueIntegers : Value → List NodeId
  | .i64 id => [id.toUInt64]
  | .list items => itemIntegers items
  | _ => []

/-- Integers of the items of a list. -/
def itemIntegers : List Value → List NodeId
  | [] => []
  | item::rest => valueIntegers item++itemIntegers rest

end

/-- Whether an integer variable carries the metadata of the node of that number. -/
def isNodeVariable (rec : NamedRecord) (var : String) (id : Int64) : Bool :=
  match rec.get (var++".__id") with
  | some (.i64 n) => decide (n=id)
  | _ => false

/-- Relationships that are bound. -/
def boundEdges : Bound → List EdgeTarget
  | .var rec var =>
    match edgeIdentity rec var with
    | some (src,dst,label) => [(src,dst,label,edgeSeqField rec var)]
    | none => ((rec.get var).map valueEdges).getD []
  | .value v => valueEdges v

/-- Nodes that are bound. -/
def boundNodes : Bound → List NodeId
  | .var rec var =>
    match edgeIdentity rec var with
    | some _ => []
    | none =>
      match rec.get var with
      | some (.i64 id) => if isNodeVariable rec var id=true then [id.toUInt64] else []
      | some v => valueNodes v
      | none => []
  | .value v => valueNodes v

/-- Integers that are no nodes. -/
def boundIntegers : Bound → List NodeId
  | .var rec var =>
    match edgeIdentity rec var with
    | some _ => []
    | none =>
      match rec.get var with
      | some (.i64 id) => if isNodeVariable rec var id=true then [] else [id.toUInt64]
      | some v => valueIntegers v
      | none => []
  | .value v => valueIntegers v

/-- Collect what an expression gave. -/
def collectBound (targets : DeleteTargets) : Bound → DeleteTargets
  | .var rec var => collectVarEntities rec var targets
  | .value v => collectValueEntities targets v

mutual

theorem collectValueEntities_spec (targets : DeleteTargets) (v : Value) :
    (collectValueEntities targets v).edges=targets.edges++valueEdges v ∧
      ∀ id,id∈(collectValueEntities targets v).nodes ↔
        id∈targets.nodes ∨ id∈valueNodes v ∨ id∈valueIntegers v := by
  cases v with
  | list items =>
    rw [collectValueEntities,valueEdges,valueNodes,valueIntegers]
    exact collectItemEntities_spec targets items
  | _ =>
    rw [collectValueEntities,valueEdges,valueNodes,valueIntegers]
    all_goals simp
termination_by sizeOf v

theorem collectItemEntities_spec (targets : DeleteTargets) (items : List Value) :
    (collectItemEntities targets items).edges=targets.edges++itemEdges items ∧
      ∀ id,id∈(collectItemEntities targets items).nodes ↔
        id∈targets.nodes ∨ id∈itemNodes items ∨ id∈itemIntegers items := by
  cases items with
  | nil =>
    rw [collectItemEntities,itemEdges,itemNodes,itemIntegers]
    simp
  | cons item rest =>
    have ⟨hedges,hnodes⟩ := collectValueEntities_spec targets item
    have ⟨hedges',hnodes'⟩ := collectItemEntities_spec (collectValueEntities targets item) rest
    rw [collectItemEntities,itemEdges,itemNodes,itemIntegers]
    refine ⟨by rw [hedges',hedges,List.append_assoc],fun id => ?_⟩
    rw [hnodes',hnodes,List.mem_append,List.mem_append]
    tauto
termination_by sizeOf items

end

theorem collectBound_spec (targets : DeleteTargets) (b : Bound) :
    (collectBound targets b).edges=targets.edges++boundEdges b ∧
      ∀ id,id∈(collectBound targets b).nodes ↔
        id∈targets.nodes ∨ id∈boundNodes b ∨ id∈boundIntegers b := by
  cases b with
  | value v => exact collectValueEntities_spec targets v
  | var rec var =>
    unfold collectBound collectVarEntities boundEdges boundNodes boundIntegers nodeIdField
    cases hedge : edgeIdentity rec var with
    | some edge => simp [hedge]
    | none =>
      cases hself : rec.get var with
      | none => simp [hedge,hself]
      | some v =>
        cases v with
        | i64 id =>
          by_cases hnode : isNodeVariable rec var id=true
          · simp [hedge,hself,hnode,valueEdges]
          · simp [hedge,hself,hnode,valueEdges]
        | _ =>
          simp only [hedge,hself]
          exact collectValueEntities_spec targets _

theorem collectBounds_spec (targets : DeleteTargets) (bounds : List Bound) :
    (bounds.foldl collectBound targets).edges=targets.edges++bounds.flatMap boundEdges ∧
      ∀ id,id∈(bounds.foldl collectBound targets).nodes ↔
        id∈targets.nodes ∨ id∈bounds.flatMap boundNodes ∨ id∈bounds.flatMap boundIntegers := by
  induction bounds generalizing targets with
  | nil => simp
  | cons b rest ih =>
    have ⟨hedges,hnodes⟩ := collectBound_spec targets b
    have ⟨hedges',hnodes'⟩ := ih (collectBound targets b)
    rw [List.foldl_cons]
    refine ⟨by rw [hedges',hedges,List.flatMap_cons,List.append_assoc],fun id => ?_⟩
    rw [hnodes',hnodes,List.flatMap_cons,List.flatMap_cons,List.mem_append,List.mem_append]
    tauto

section Runs

variable {E : Type} {env : ExecEnv E} {st : Store}
variable {exprs : List (DeleteExpr E)} {st' : Store}

theorem collectExprs_ok {acc done : NamedRecord×DeleteTargets}
    (hrun : foldEach exprs acc (collectExpr env) st=(.ok done,st')) :
    st'=st ∧ ∃ bounds,boundExprs env st exprs acc.1=.ok bounds ∧ done.2=bounds.foldl collectBound acc.2 := by
  induction exprs generalizing acc with
  | nil =>
    have ⟨hdone,hst⟩ := Prod.mk.inj hrun
    exact ⟨hst.symm,[],rfl,by rw [←Except.ok.inj hdone]; rfl⟩
  | cons expr rest ih =>
    have ⟨next,s,hone,hrest⟩ := ok_of_bind hrun
    cases expr with
    | var var =>
      have ⟨hnext,hs⟩ := Prod.mk.inj hone
      rw [←hs,←Except.ok.inj hnext] at hrest
      have ⟨hst,bounds,hbounds,hdone⟩ := ih hrest
      refine ⟨hst,.var acc.1 var::bounds,?_,hdone⟩
      rw [boundExprs,hbounds]
      rfl
    | other expr =>
      have ⟨val,s₁,hval,hpure⟩ := ok_of_bind hone
      have ⟨hvalue,hs₁⟩ := Prod.mk.inj hval
      have ⟨hnext,hs⟩ := Prod.mk.inj hpure
      rw [←hs,←hs₁,←Except.ok.inj hnext] at hrest
      have ⟨hst,bounds,hbounds,hdone⟩ := ih hrest
      refine ⟨hst,.value val::bounds,?_,hdone⟩
      have heval : env.eval st expr acc.1=.ok val := hvalue
      dsimp only at hbounds
      simp only [boundExprs,heval,hbounds,bind,Except.bind]
      rfl

theorem collectRecords_ok {records : List NamedRecord} {acc done : List NamedRecord×DeleteTargets}
    (hrun : foldEach records acc (collectRecord env exprs) st=(.ok done,st')) :
    st'=st ∧ ∃ bounds,boundRows env st exprs records=.ok bounds ∧ done.2=bounds.foldl collectBound acc.2 := by
  induction records generalizing acc with
  | nil =>
    have ⟨hdone,hst⟩ := Prod.mk.inj hrun
    exact ⟨hst.symm,[],rfl,by rw [←Except.ok.inj hdone]; rfl⟩
  | cons rec rest ih =>
    have ⟨next,s,hone,hrest⟩ := ok_of_bind hrun
    have ⟨row,s₁,hrow,hpure⟩ := ok_of_bind hone
    have ⟨hs₁,front,hfront,hcollected⟩ := collectExprs_ok hrow
    have ⟨hnext,hs⟩ := Prod.mk.inj hpure
    rw [←hs,hs₁,←Except.ok.inj hnext] at hrest
    have ⟨hst,back,hback,hdone⟩ := ih hrest
    refine ⟨hst,front++back,?_,?_⟩
    · unfold boundRows at hback ⊢
      rw [gather,hfront,hback]
    · rw [hdone,List.foldl_append]
      exact congrArg (fun targets => back.foldl collectBound targets) hcollected

theorem execDelete_gone (h : EdgeInv st) {records : List NamedRecord}
    {detach : Bool} {out : List NamedRecord}
    (hrun : execDelete env records exprs detach st=(.ok out,st')) :
    ∃ bounds,boundRows env st exprs records=.ok bounds ∧
      ((∀ target∈bounds.flatMap boundEdges,isValidName target.2.2.1=true) →
        (∀ n,n∈keys st'.nodes ↔ n∈keys st.nodes ∧
          ¬(n∈bounds.flatMap boundNodes ∨ n∈bounds.flatMap boundIntegers)) ∧
        ∀ e,StoredEdge st' e ↔ StoredEdge st e ∧ (∀ target∈bounds.flatMap boundEdges,¬Covers target e) ∧
          ¬(detach=true ∧ ∃ id∈keys st.nodes,
            (id∈bounds.flatMap boundNodes ∨ id∈bounds.flatMap boundIntegers) ∧ Incident e id)) := by
  unfold execDelete at hrun
  have ⟨done,s,hcollect,hthen⟩ := ok_of_bind hrun
  have ⟨hs,bounds,hbounds,htargets⟩ := collectRecords_ok hcollect
  rw [hs] at hthen
  refine ⟨bounds,hbounds,fun hvalid => ?_⟩
  have ⟨hedges,hnodes⟩ := collectBounds_spec ⟨[],[]⟩ bounds
  dsimp only at htargets
  rw [←htargets,List.nil_append] at hedges
  rw [←htargets] at hnodes
  have ⟨_,mid,hupdate,hrest⟩ := ok_of_bind hthen
  have hmid : done.2.edges.foldl deleteEdgeTarget st=mid := (Prod.mk.inj hupdate).2
  have ⟨_,last,hloop,hpure⟩ := ok_of_bind hrest
  have hlast : last=st' := (Prod.mk.inj hpure).2
  rw [hlast] at hloop
  rw [←hedges] at hvalid ⊢
  have ⟨hinv,hsame,hstored⟩ := stored_deleteTargets hvalid h
  rw [hmid] at hinv hsame hstored
  have hgone := deleteNodeTargets_gone hinv hloop
  have hids : ∀ n,n∈done.2.nodes ↔ n∈bounds.flatMap boundNodes ∨ n∈bounds.flatMap boundIntegers :=
    fun n => (hnodes n).trans (or_iff_right List.not_mem_nil)
  refine ⟨fun n => ?_,fun e => ?_⟩
  · rw [hgone.nodes,hsame,hids]
  · rw [hgone.edges,hstored,hsame,and_assoc]
    simp only [hids]

end Runs

/-- What DELETE promises: it deletes the bound relationships and nodes, with DETACH
also the relationships of deleted nodes, and nothing else. -/
structure DeletesExactly (detach : Bool) (identities : List EdgeId) (bound : List NodeId)
    (st st' : Store) : Prop where
  /-- The relationships that stay. -/
  edges : ∀ e,StoredEdge st' e ↔ StoredEdge st e ∧ e∉identities ∧
    ¬(detach=true ∧ ∃ id∈keys st.nodes,id∈bound ∧ Incident e id)
  /-- The nodes that stay. -/
  nodes : ∀ n,n∈keys st'.nodes ↔ n∈keys st.nodes ∧ n∉bound

/-- When DELETE can keep its promise: a relationship without a sequence number has no
parallel ones that stay, and no integer is the number of a node that stays. -/
structure DeleteSafe (detach : Bool) (targets : List EdgeTarget) (identities : List EdgeId)
    (bound integers : List NodeId) (st : Store) : Prop where
  /-- Parallel relationships are bound too, or end at a node that goes. -/
  parallel : ∀ target∈targets,target.2.2.2=none → ∀ e,StoredEdge st e → Covers target e →
    e∈identities ∨ detach=true ∧ ∃ id∈keys st.nodes,id∈bound ∧ Incident e id
  /-- Integers of stored nodes are bound nodes. -/
  integers : ∀ id∈integers,id∈keys st.nodes → id∈bound

theorem eq_of_covers {target : EdgeTarget} {e e' : EdgeId} (hseq : target.2.2.2≠none)
    (he : Covers target e) (he' : Covers target e') : e=e' := by
  have ⟨s,d,l,seq⟩ := target
  cases seq with
  | none => exact absurd rfl hseq
  | some q =>
    have ⟨hs,hd,hl,hq⟩ := he
    have ⟨hs',hd',hl',hq'⟩ := he'
    have hnumber := (hq q rfl).symm.trans (hq' q rfl)
    exact Prod.ext (hs.symm.trans hs') (Prod.ext (hd.symm.trans hd') (Prod.ext (hl.symm.trans hl') hnumber))

variable {targets : List EdgeTarget} {identities : List EdgeId}

theorem validName_of_covers (hbound : List.Forall₂ Covers targets identities)
    (hvalid : ∀ e∈identities,isValidName e.2.2.1=true) : ∀ target∈targets,isValidName target.2.2.1=true := by
  induction hbound with
  | nil => exact fun _ hin => absurd hin List.not_mem_nil
  | cons hone _ ih =>
    intro target hin
    rcases List.mem_cons.mp hin with heq | hrest
    · rw [heq,hone.2.2.1]
      exact hvalid _ List.mem_cons_self
    · exact ih (fun e he => hvalid e (List.mem_cons_of_mem _ he)) target hrest

theorem exists_identity (hbound : List.Forall₂ Covers targets identities) :
    (∀ target∈targets,∃ e∈identities,Covers target e) ∧ ∀ e∈identities,∃ target∈targets,Covers target e := by
  induction hbound with
  | nil => exact ⟨fun _ hin => absurd hin List.not_mem_nil,fun _ hin => absurd hin List.not_mem_nil⟩
  | cons hone _ ih =>
    refine ⟨fun target hin => ?_,fun e hin => ?_⟩
    · rcases List.mem_cons.mp hin with heq | hrest
      · exact ⟨_,List.mem_cons_self,heq▸hone⟩
      · have ⟨e,he,hcover⟩ := ih.1 target hrest
        exact ⟨e,List.mem_cons_of_mem _ he,hcover⟩
    · rcases List.mem_cons.mp hin with heq | hrest
      · exact ⟨_,List.mem_cons_self,heq▸hone⟩
      · have ⟨target,htarget,hcover⟩ := ih.2 e hrest
        exact ⟨target,List.mem_cons_of_mem _ htarget,hcover⟩

/-- Two nodes and two parallel relationships of type R. -/
def parallelSteps : List EdgeStep :=
  [.createNode ["A"] [],.createNode ["A"] [],.createEdge 1 2 "R" [],.createEdge 1 2 "R" []]

/-- The database with these entities. -/
def parallelStore : Store := StatefulActions.run applyEdgeStep freshStore parallelSteps

theorem edgeInv_parallelStore : EdgeInv parallelStore := by
  have hguarded : Guarded applyEdgeStep (fun st step => step.checked=true ∧ SequenceLeft st step)
      freshStore parallelSteps := by
    refine ⟨⟨rfl,trivial⟩,⟨rfl,trivial⟩,⟨?_,fun _ => Or.inl ?_⟩,⟨?_,fun _ => Or.inl ?_⟩,trivial⟩
    all_goals decide
  exact run_invariant (fun st step hst hguard => hst.step hguard.1 hguard.2) edgeInv_freshStore hguarded

/-- The record of the first relationship as a match binds it. -/
def firstEdgeRecord : NamedRecord :=
  ⟨[("r.__src",.i64 1),("r.__dst",.i64 2),("r.__type",.string "R"),("r.__edge_seq",.i64 0)]⟩

/-- The records and the database after `DELETE` of some expressions on one record. -/
def afterDelete (rec : NamedRecord) (expr : DeleteExpr Value) : Except GraphError (List NamedRecord)×Store :=
  execDelete literalEnv [rec] [expr] false parallelStore

/-- The first relationship as a value. -/
def firstEdgeValue : Value := .edge ⟨1,2,"R",[]⟩

end GraphDbLite.EntityDeletion
