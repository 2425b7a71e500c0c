import GraphDbLite.EntityDeletion
import GraphDbLite.NeighbourSearch

/-!
# Steps that leave a node

The candidates of a path search at a node are the stored relationships of an allowed type
that lead away from it in the allowed direction, each once: types, neighbours and parallel
relationships are listed without duplicates, a self-loop counts once in either direction,
and every listed neighbour has a stored relationship.
-/

namespace GraphDbLite.StepCandidates

open ByteStrings GraphTypes OrderedTable GraphStore AdjacencyEncoding EdgeStorage
open EdgeConsistency EntityDeletion Traversal NeighbourSearch

/-- The adjacency tables and the properties table describe the same relationships of checked types. -/
structure TablesAgree (st : Store) : Prop where
  /-- The outgoing table is well formed. -/
  adjOut : AdjOk st.adjOut
  /-- The incoming table is well formed. -/
  adjIn : AdjOk st.adjIn
  /-- Rows belong to relationships of checked types. -/
  rows : ∀ k∈keys st.edgeProps,∃ s d l q,isValidName l=true ∧ k=edgePropsKey s d l q
  /-- Outgoing neighbours are the destinations with a row. -/
  out : ∀ s d l,d∈adjIds st.adjOut s l ↔ HasEdge st s d l
  /-- Incoming neighbours are the sources with a row. -/
  inc : ∀ s d l,s∈adjIds st.adjIn d l ↔ HasEdge st s d l

theorem tablesAgree_of_edgeInv {st : Store} (h : EdgeInv st) : TablesAgree st := by
  have hrows : ∀ k∈keys st.edgeProps,∃ s d l q,isValidName l=true ∧ k=edgePropsKey s d l q := by
    intro k hk
    have ⟨s,d,l,q,hl,hkey,_⟩ := h.rows k hk
    exact ⟨s,d,l,q,hl,hkey⟩
  exact ⟨h.adjOut,h.adjIn,hrows,h.out,h.inc⟩

/-- A step leads away from a node in a direction. -/
def Leads : Direction → NodeId → PathStep → Prop
  | .outgoing,u,step => step.edgeSrc=u ∧ step.edgeDst=step.dst
  | .incoming,u,step => step.edgeDst=u ∧ step.edgeSrc=step.dst
  | .both,u,step => (step.edgeSrc=u ∧ step.edgeDst=step.dst) ∨ step.edgeDst=u ∧ step.edgeSrc=step.dst

/-- A step follows a stored relationship with properties away from a node. -/
def StoredStep (st : Store) (direction : Direction) (u : NodeId) (step : PathStep) (props : Properties) : Prop :=
  get st.edgeProps (edgePropsKey step.edgeSrc step.edgeDst step.edgeLabel step.edgeSeq)=some props ∧
    Leads direction u step

section Parallel

variable {st : Store} {s d u v : NodeId} {l : String}

section Agreeing

variable (h : TablesAgree st)

include h

theorem TablesAgree.validName (he : HasEdge st s d l) : isValidName l=true := by
  have ⟨q,hq⟩ := he
  have ⟨s',d',l',q',hl,hkey⟩ := h.rows _ hq
  rw [(edgePropsKey_inj.mp hkey).2.2.1]
  exact hl

theorem TablesAgree.mem_getAllEdgeProps (hl : isValidName l=true) {q : UInt64}
    {props : Properties} :
    (q,props)∈getAllEdgeProps st s d l ↔ get st.edgeProps (edgePropsKey s d l q)=some props := by
  have hkeys : ∀ k∈keys st.edgeProps,(edgePropsPrefix s d l).isPrefixOf k=true → ∃ q,k=edgePropsKey s d l q := by
    intro k hk hfront
    have ⟨s',d',l',q,hl',hkey⟩ := h.rows k hk
    rw [List.isPrefixOf_iff_prefix,hkey,edgePropsPrefix_iff hl hl'] at hfront
    exact ⟨q,by rw [hkey,hfront.1,hfront.2.1,hfront.2.2]⟩
  rw [getAllEdgeProps,scanPrefix_eq_scan,List.mem_map]
  constructor
  · rintro ⟨⟨k,found⟩,hrow,heq⟩
    have ⟨hget,hfront⟩ := mem_scan.mp hrow
    have ⟨q',hk⟩ := hkeys k (mem_keys.mpr ⟨found,hget⟩) hfront
    have hseq := congrArg Prod.fst heq
    have hfound := congrArg Prod.snd heq
    dsimp only at hseq hfound
    rw [hk,edgeSeqFromKey_edgePropsKey] at hseq
    rw [←hseq,←hfound,←hk]
    exact hget
  · intro hget
    have hfront : (edgePropsPrefix s d l).isPrefixOf (edgePropsKey s d l q)=true := by
      rw [List.isPrefixOf_iff_prefix,edgePropsPrefix_iff hl hl]
      exact ⟨rfl,rfl,rfl⟩
    exact ⟨(edgePropsKey s d l q,props),mem_scan.mpr ⟨hget,hfront⟩,by rw [edgeSeqFromKey_edgePropsKey]⟩

theorem TablesAgree.nodup_getAllEdgeProps (hl : isValidName l=true) :
    ((getAllEdgeProps st s d l).map Prod.fst).Nodup := by
  have hrows : ((scanPrefix st.edgeProps (edgePropsPrefix s d l)).map Prod.fst).Nodup := by
    rw [scanPrefix_eq_scan,scan_keys]
    exact (keys_nodup st.edgeProps).filter _
  rw [getAllEdgeProps,List.map_map]
  refine (List.pairwise_map.mp hrows).imp_of_mem ?_ |> List.pairwise_map.mpr
  intro a b ha hb hne heq
  have hkey : ∀ e∈scanPrefix st.edgeProps (edgePropsPrefix s d l),
      e.1=edgePropsKey s d l (edgeSeqFromKey e.1 (edgePropsPrefix s d l).length) := by
    intro e he
    rw [scanPrefix_eq_scan] at he
    have ⟨hget,hfront⟩ := mem_scan.mp he
    have ⟨s',d',l',q,hl',hk⟩ := h.rows e.1 (mem_keys.mpr ⟨e.2,hget⟩)
    rw [List.isPrefixOf_iff_prefix,hk,edgePropsPrefix_iff hl hl'] at hfront
    rw [hk,←hfront.1,←hfront.2.1,←hfront.2.2,edgeSeqFromKey_edgePropsKey]
  refine hne ?_
  rw [hkey a ha,hkey b hb]
  exact congrArg (edgePropsKey s d l) heq

theorem TablesAgree.exists_parallel (he : HasEdge st s d l) :
    ∃ e,e∈getAllEdgeProps st s d l := by
  have ⟨q,hq⟩ := he
  have ⟨props,hget⟩ := mem_keys.mp hq
  exact ⟨(q,props),(h.mem_getAllEdgeProps (h.validName ⟨q,hq⟩)).mpr hget⟩

theorem TablesAgree.mem_neighbors (direction : Direction) :
    v∈getNeighbors st u l direction ↔ Linked st l direction u v :=
  mem_getNeighbors_of h.out h.inc l direction u v

theorem TablesAgree.nodup_neighbors (u : NodeId) (l : String) (direction : Direction) :
    (getNeighbors st u l direction).Nodup :=
  nodup_getNeighbors_of (fun k data hget => (h.adjOut k data hget).2) (fun k data hget => (h.adjIn k data hget).2)
    l direction u

/-- The relationships between a node and a neighbour as they are stored. -/
def between (st : Store) (current neighbor : NodeId) (label : String) : Direction →
    List (NodeId×NodeId×UInt64×Properties)
  | .outgoing => (getAllEdgeProps st current neighbor label).map fun e => (current,neighbor,e.1,e.2)
  | .incoming => (getAllEdgeProps st neighbor current label).map fun e => (neighbor,current,e.1,e.2)
  | .both =>
    if current=neighbor then (getAllEdgeProps st current neighbor label).map fun e => (current,neighbor,e.1,e.2)
    else (getAllEdgeProps st current neighbor label).map (fun e => (current,neighbor,e.1,e.2))++
      (getAllEdgeProps st neighbor current label).map fun e => (neighbor,current,e.1,e.2)

theorem TablesAgree.directedEdges_eq (direction : Direction) (hlink : Linked st l direction u v) :
    directedEdges st u v l direction=between st u v l direction := by
  have hne : between st u v l direction≠[] := by
    cases direction with
    | outgoing | incoming =>
      have ⟨e,he⟩ := h.exists_parallel hlink
      exact List.ne_nil_of_mem (List.mem_map.mpr ⟨e,he,rfl⟩)
    | both =>
      rw [between]
      by_cases hsame : u=v
      · rw [if_pos hsame]
        have hlink' : HasEdge st u v l := by
          rcases hlink with hout|hin
          · exact hout
          · rw [hsame] at hin ⊢
            exact hin
        have ⟨e,he⟩ := h.exists_parallel hlink'
        exact List.ne_nil_of_mem (List.mem_map.mpr ⟨e,he,rfl⟩)
      · rw [if_neg hsame]
        rcases hlink with hout|hin
        · have ⟨e,he⟩ := h.exists_parallel hout
          exact List.ne_nil_of_mem (List.mem_append_left _ (List.mem_map.mpr ⟨e,he,rfl⟩))
        · have ⟨e,he⟩ := h.exists_parallel hin
          exact List.ne_nil_of_mem (List.mem_append_right _ (List.mem_map.mpr ⟨e,he,rfl⟩))
  have hfull : ¬(between st u v l direction).isEmpty=true := by
    rw [List.isEmpty_iff]
    exact hne
  cases direction with
  | outgoing | incoming | both => exact if_neg hfull

theorem TablesAgree.mem_between (hl : isValidName l=true) (direction : Direction)
    {q : UInt64} {props : Properties} : (s,d,q,props)∈between st u v l direction ↔
      StoredStep st direction u ⟨s,d,l,q,v⟩ props := by
  have hforward : (s,d,q,props)∈(getAllEdgeProps st u v l).map (fun e => (u,v,e.1,e.2)) ↔
      get st.edgeProps (edgePropsKey s d l q)=some props ∧ s=u ∧ d=v := by
    rw [List.mem_map]
    constructor
    · rintro ⟨⟨q',props'⟩,he,heq⟩
      have ⟨hs,hd,hq,hp⟩ : u=s ∧ v=d ∧ q'=q ∧ props'=props := by simpa using heq
      rw [hq,hp,h.mem_getAllEdgeProps hl,hs,hd] at he
      exact ⟨he,hs.symm,hd.symm⟩
    · rintro ⟨hget,hs,hd⟩
      rw [hs,hd] at hget ⊢
      exact ⟨(q,props),(h.mem_getAllEdgeProps hl).mpr hget,rfl⟩
  have hbackward : (s,d,q,props)∈(getAllEdgeProps st v u l).map (fun e => (v,u,e.1,e.2)) ↔
      get st.edgeProps (edgePropsKey s d l q)=some props ∧ d=u ∧ s=v := by
    rw [List.mem_map]
    constructor
    · rintro ⟨⟨q',props'⟩,he,heq⟩
      have ⟨hs,hd,hq,hp⟩ : v=s ∧ u=d ∧ q'=q ∧ props'=props := by simpa using heq
      rw [hq,hp,h.mem_getAllEdgeProps hl,hs,hd] at he
      exact ⟨he,hd.symm,hs.symm⟩
    · rintro ⟨hget,hd,hs⟩
      rw [hs,hd] at hget ⊢
      exact ⟨(q,props),(h.mem_getAllEdgeProps hl).mpr hget,rfl⟩
  cases direction with
  | outgoing => exact hforward
  | incoming => exact hbackward
  | both =>
    rw [between]
    by_cases hsame : u=v
    · rw [if_pos hsame,hforward]
      constructor
      · rintro ⟨hget,hends⟩
        exact ⟨hget,Or.inl hends⟩
      · rintro ⟨hget,hends|hends⟩
        · exact ⟨hget,hends⟩
        · exact ⟨hget,hends.2.trans hsame.symm,hends.1.trans hsame⟩
    · rw [if_neg hsame,List.mem_append,hforward,hbackward]
      exact and_or_left.symm

theorem TablesAgree.nodup_between (hl : isValidName l=true) (direction : Direction)
    (u v : NodeId) : ((between st u v l direction).map fun e => (e.1,e.2.1,e.2.2.1)).Nodup := by
  have hone : ∀ s d : NodeId,(((getAllEdgeProps st s d l).map fun e => (s,d,e.1,e.2)).map
      fun e : NodeId×NodeId×UInt64×Properties => (e.1,e.2.1,e.2.2.1)).Nodup := by
    intro s d
    have hsame : ((getAllEdgeProps st s d l).map fun e => (s,d,e.1,e.2)).map
        (fun e : NodeId×NodeId×UInt64×Properties => (e.1,e.2.1,e.2.2.1))=
          ((getAllEdgeProps st s d l).map Prod.fst).map fun q => (s,d,q) := by
      rw [List.map_map,List.map_map]
      rfl
    rw [hsame]
    exact (h.nodup_getAllEdgeProps hl).map fun a b hab => (Prod.mk.inj (Prod.mk.inj hab).2).2
  cases direction with
  | outgoing => exact hone u v
  | incoming => exact hone v u
  | both =>
    rw [between]
    by_cases hsame : u=v
    · rw [if_pos hsame]
      exact hone u v
    · rw [if_neg hsame,List.map_append]
      refine List.nodup_append.mpr ⟨hone u v,hone v u,fun a ha b hb heq => hsame ?_⟩
      have ⟨e,he,hea⟩ := List.mem_map.mp ha
      have ⟨f,hf,hfb⟩ := List.mem_map.mp hb
      have ⟨_,_,he'⟩ := List.mem_map.mp he
      have ⟨_,_,hf'⟩ := List.mem_map.mp hf
      have hfirst := congrArg Prod.fst (hea.trans (heq.trans hfb.symm))
      rw [←he',←hf'] at hfirst
      exact hfirst

end Agreeing

end Parallel

section Candidates

variable {st : Store}

theorem TablesAgree.mem_stepsAlong (h : TablesAgree st) (direction : Direction) (u : NodeId) (l : String)
    {step : PathStep} {props : Properties} : (step,props)∈stepsAlong st direction u l ↔
      step.edgeLabel=l ∧ StoredStep st direction u step props := by
  rw [stepsAlong,List.mem_flatMap]
  constructor
  · rintro ⟨v,hv,hstep⟩
    have hlink := (h.mem_neighbors direction).mp hv
    rw [h.directedEdges_eq direction hlink] at hstep
    have ⟨⟨s,d,q,found⟩,he,heq⟩ := List.mem_map.mp hstep
    have hl : isValidName l=true := by
      cases direction with
      | outgoing | incoming => exact h.validName hlink
      | both => exact hlink.elim h.validName h.validName
    have hstored := (h.mem_between hl direction).mp he
    have hsame := Prod.mk.inj heq
    rw [←hsame.1,←hsame.2]
    exact ⟨rfl,hstored⟩
  · rintro ⟨hlabel,hstored⟩
    have hedge : HasEdge st step.edgeSrc step.edgeDst l := by
      rw [←hlabel]
      exact ⟨step.edgeSeq,mem_keys.mpr ⟨props,hstored.1⟩⟩
    have hlink : Linked st l direction u step.dst := by
      have hends := hstored.2
      cases direction with
      | outgoing | incoming =>
        rw [hends.1,hends.2] at hedge
        exact hedge
      | both =>
        rcases hends with hout|hin
        · rw [hout.1,hout.2] at hedge
          exact Or.inl hedge
        · rw [hin.1,hin.2] at hedge
          exact Or.inr hedge
    refine ⟨step.dst,(h.mem_neighbors direction).mpr hlink,?_⟩
    rw [h.directedEdges_eq direction hlink]
    have hsame : step=⟨step.edgeSrc,step.edgeDst,l,step.edgeSeq,step.dst⟩ := by rw [←hlabel]
    rw [hsame] at hstored
    exact List.mem_map.mpr ⟨(step.edgeSrc,step.edgeDst,step.edgeSeq,props),
      (h.mem_between (h.validName hedge) direction).mpr hstored,by rw [←hlabel]⟩

theorem TablesAgree.nodup_stepsAlong (h : TablesAgree st) (direction : Direction) (u : NodeId) (l : String) :
    ((stepsAlong st direction u l).map Prod.fst).Nodup := by
  rw [stepsAlong,List.map_flatMap,List.nodup_flatMap]
  constructor
  · intro v hv
    have hlink := (h.mem_neighbors direction).mp hv
    have hl : isValidName l=true := by
      cases direction with
      | outgoing | incoming => exact h.validName hlink
      | both => exact hlink.elim h.validName h.validName
    rw [h.directedEdges_eq direction hlink]
    have hsame : ((between st u v l direction).map fun e => ((⟨e.1,e.2.1,l,e.2.2.1,v⟩ : PathStep),e.2.2.2)).map
        Prod.fst=((between st u v l direction).map fun e => (e.1,e.2.1,e.2.2.1)).map
          fun e => (⟨e.1,e.2.1,l,e.2.2,v⟩ : PathStep) := by
      rw [List.map_map,List.map_map]
      rfl
    rw [hsame]
    refine (h.nodup_between hl direction u v).map fun a b hab => ?_
    have ⟨hs,hd,_,hq,_⟩ := PathStep.mk.inj hab
    exact Prod.ext hs (Prod.ext hd hq)
  · refine (h.nodup_neighbors u l direction).imp fun hne step hstep hstep' => hne ?_
    have ⟨e,he,heq⟩ := List.mem_map.mp hstep
    have ⟨_,_,he'⟩ := List.mem_map.mp he
    have ⟨f,hf,hfq⟩ := List.mem_map.mp hstep'
    have ⟨_,_,hf'⟩ := List.mem_map.mp hf
    have hleft := congrArg PathStep.dst heq
    have hright := congrArg PathStep.dst hfq
    rw [←he'] at hleft
    rw [←hf'] at hright
    exact hleft.trans hright.symm

theorem contains_labels_eq_false_iff {labels : List String} {l : String} : labels.contains l=false ↔ l∉labels := by
  rw [←Bool.not_eq_true,List.contains_iff_mem]

theorem mapM_ok {α β : Type} {f : α → Result β} {g : α → β} {l : List α} (h : ∀ a∈l,f a=.ok (g a)) :
    l.mapM f=.ok (l.map g) := by
  induction l with
  | nil => rfl
  | cons a rest ih =>
    rw [List.mapM_cons,h a List.mem_cons_self,ih fun b hb => h b (List.mem_cons_of_mem _ hb)]
    rfl

/-- The types listed at a node in one adjacency table: each once, with all that have neighbours. -/
theorem edgeLabelEntries_labels {t : Table Bytes Bytes} (h : AdjOk t) (n : NodeId) :
    ∃ entries,edgeLabelEntries t n=.ok entries ∧ (entries.map Prod.fst).Nodup ∧
      ∀ l m,m∈adjIds t n l → l∈entries.map Prod.fst := by
  have hrows : ∀ row∈(scanPrefix t (toBeBytes n)).filter fun entry => 8<entry.1.length,
      row.1=adjKey n ((fromUtf8 (row.1.drop 8)).getD "") := by
    intro row hrow
    have hscan := List.mem_of_mem_filter hrow
    rw [scanPrefix_eq_scan] at hscan
    obtain ⟨hget,hfront⟩ := mem_scan.mp hscan
    obtain ⟨⟨m,l,_,hkey⟩,_⟩ := h row.1 row.2 hget
    have hdrop : row.1.drop 8=asBytes l := by
      rw [hkey,adjKey]
      exact List.drop_left' (by simp)
    have hsame : n=m := by
      have hfront' : toBeBytes n++[]<+:toBeBytes m++asBytes l := by
        rw [List.append_nil,←adjKey,←hkey,←List.isPrefixOf_iff_prefix]
        exact hfront
      exact (toBeBytes_prefix_iff.mp hfront').1
    rw [hdrop,fromUtf8_asBytes,hsame]
    exact hkey
  have hentries : edgeLabelEntries t n=.ok (((scanPrefix t (toBeBytes n)).filter fun entry => 8<entry.1.length).map
      fun row => ((fromUtf8 (row.1.drop 8)).getD "",decodeIdList row.2)) := by
    refine mapM_ok fun row hrow => ?_
    have hdrop : row.1.drop 8=asBytes ((fromUtf8 (row.1.drop 8)).getD "") := by
      have hkey := congrArg (List.drop 8) (hrows row hrow)
      rw [adjKey,List.drop_left' (by simp)] at hkey
      exact hkey
    rw [hdrop,fromUtf8_asBytes]
    rfl
  obtain ⟨entries,hentries',hcomplete⟩ := edgeLabelEntries_complete h n
  have hsame := Except.ok.inj (hentries.symm.trans hentries')
  refine ⟨entries,hentries',?_,fun l m hm => ?_⟩
  · rw [←hsame,List.map_map]
    have hkeys : (((scanPrefix t (toBeBytes n)).filter fun entry => 8<entry.1.length).map Prod.fst).Nodup := by
      have hall : ((scanPrefix t (toBeBytes n)).map Prod.fst).Nodup := by
        rw [scanPrefix_eq_scan,scan_keys]
        exact (keys_nodup t).filter _
      exact hall.sublist (List.filter_sublist.map _)
    refine List.pairwise_map.mpr ((List.pairwise_map.mp hkeys).imp_of_mem fun ha hb hne heq => hne ?_)
    rw [hrows _ ha,hrows _ hb]
    exact congrArg (adjKey n) heq
  · obtain ⟨ids,hin,_⟩ := hcomplete l m hm
    exact List.mem_map.mpr ⟨(l,ids),hin,rfl⟩

/-- The types found at a node: each once, with all of the stored steps that leave it. -/
theorem TablesAgree.discoverLabels_spec (h : TablesAgree st) (direction : Direction) (u : NodeId) :
    ∃ labels,discoverLabels st u direction=.ok labels ∧ labels.Nodup ∧
      ∀ step props,StoredStep st direction u step props → step.edgeLabel∈labels := by
  obtain ⟨outs,houts,hnodupOut,hallOut⟩ := edgeLabelEntries_labels h.adjOut u
  obtain ⟨ins,hins,hnodupIn,hallIn⟩ := edgeLabelEntries_labels h.adjIn u
  have hedge : ∀ (step : PathStep) props,
      get st.edgeProps (edgePropsKey step.edgeSrc step.edgeDst step.edgeLabel step.edgeSeq)=some props →
      HasEdge st step.edgeSrc step.edgeDst step.edgeLabel := fun step props hget =>
    ⟨step.edgeSeq,mem_keys.mpr ⟨props,hget⟩⟩
  have hleaves : ∀ (step : PathStep) props,
      get st.edgeProps (edgePropsKey step.edgeSrc step.edgeDst step.edgeLabel step.edgeSeq)=some props →
      step.edgeSrc=u → step.edgeLabel∈outs.map Prod.fst := by
    intro step props hget hsrc
    have hlisted := (h.out _ _ _).mpr (hedge step props hget)
    rw [hsrc] at hlisted
    exact hallOut _ _ hlisted
  have henters : ∀ (step : PathStep) props,
      get st.edgeProps (edgePropsKey step.edgeSrc step.edgeDst step.edgeLabel step.edgeSeq)=some props →
      step.edgeDst=u → step.edgeLabel∈ins.map Prod.fst := by
    intro step props hget hdst
    have hlisted := (h.inc _ _ _).mpr (hedge step props hget)
    rw [hdst] at hlisted
    exact hallIn _ _ hlisted
  cases direction with
  | outgoing =>
    exact ⟨outs.map Prod.fst,by rw [discoverLabels,getAllEdgeLabels,houts]; rfl,hnodupOut,
      fun step props hstep => hleaves step props hstep.1 hstep.2.1⟩
  | incoming =>
    exact ⟨ins.map Prod.fst,by rw [discoverLabels,getAllEdgeLabels,hins]; rfl,hnodupIn,
      fun step props hstep => henters step props hstep.1 hstep.2.1⟩
  | both =>
    refine ⟨(outs++ins.filter fun entry => !(outs.map Prod.fst).contains entry.1).map Prod.fst,?_,?_,?_⟩
    · rw [discoverLabels,getAllEdgeLabels,houts,hins]
      rfl
    · rw [List.map_append]
      refine List.nodup_append.mpr ⟨hnodupOut,hnodupIn.sublist (List.filter_sublist.map _),?_⟩
      intro a ha b hb heq
      obtain ⟨entry,hentry,hb'⟩ := List.mem_map.mp hb
      have hnew := (List.mem_filter.mp hentry).2
      rw [Bool.not_eq_true',contains_labels_eq_false_iff,hb',←heq] at hnew
      exact hnew ha
    · rintro step props ⟨hget,hends⟩
      rw [List.map_append,List.mem_append]
      by_cases hout : step.edgeLabel∈outs.map Prod.fst
      · exact Or.inl hout
      · rcases hends with hsrc|hdst
        · exact absurd (hleaves step props hget hsrc.1) hout
        · obtain ⟨entry,hentry,hlabel⟩ := List.mem_map.mp (henters step props hget hdst.1)
          refine Or.inr (List.mem_map.mpr ⟨entry,List.mem_filter.mpr ⟨hentry,?_⟩,hlabel⟩)
          rw [Bool.not_eq_true',contains_labels_eq_false_iff,hlabel]
          exact hout

/-- The candidates at a node are the stored steps of an allowed type that leave it, each once. -/
theorem TablesAgree.candidateSteps_spec (h : TablesAgree st) (direction : Direction) (u : NodeId)
    {labels : List String} (hlabels : labels.Nodup) :
    ∃ candidates,candidateSteps st labels direction u=.ok candidates ∧ (candidates.map Prod.fst).Nodup ∧
      ∀ step props,(step,props)∈candidates ↔
        (labels=[] ∨ step.edgeLabel∈labels) ∧ StoredStep st direction u step props := by
  have hdistinct : ∀ allowed : List String,allowed.Nodup →
      ((allowed.flatMap (stepsAlong st direction u)).map Prod.fst).Nodup := by
    intro allowed hnodup
    rw [List.map_flatMap,List.nodup_flatMap]
    refine ⟨fun l _ => h.nodup_stepsAlong direction u l,hnodup.imp fun hne step hstep hstep' => hne ?_⟩
    have ⟨⟨_,props⟩,he,heq⟩ := List.mem_map.mp hstep
    have ⟨⟨_,props'⟩,hf,hfq⟩ := List.mem_map.mp hstep'
    have hleft := ((h.mem_stepsAlong direction u _).mp he).1
    have hright := ((h.mem_stepsAlong direction u _).mp hf).1
    dsimp only at heq hfq
    rw [heq] at hleft
    rw [hfq] at hright
    exact hleft.symm.trans hright
  by_cases hall : labels=[]
  · have ⟨found,hfound,hnodup,hcomplete⟩ := h.discoverLabels_spec direction u
    refine ⟨found.flatMap (stepsAlong st direction u),?_,hdistinct found hnodup,fun step props => ?_⟩
    · rw [candidateSteps,if_pos hall,hfound]
      rfl
    · rw [List.mem_flatMap]
      constructor
      · rintro ⟨l,-,hstep⟩
        exact ⟨Or.inl hall,((h.mem_stepsAlong direction u l).mp hstep).2⟩
      · rintro ⟨-,hstored⟩
        exact ⟨step.edgeLabel,hcomplete step props hstored,(h.mem_stepsAlong direction u _).mpr ⟨rfl,hstored⟩⟩
  · refine ⟨labels.flatMap (stepsAlong st direction u),?_,hdistinct labels hlabels,fun step props => ?_⟩
    · rw [candidateSteps,if_neg hall]
      rfl
    · rw [List.mem_flatMap,or_iff_right hall]
      constructor
      · rintro ⟨l,hl,hstep⟩
        have hparts := (h.mem_stepsAlong direction u l).mp hstep
        rw [hparts.1]
        exact ⟨hl,hparts.2⟩
      · rintro ⟨hl,hstored⟩
        exact ⟨step.edgeLabel,hl,(h.mem_stepsAlong direction u _).mpr ⟨rfl,hstored⟩⟩

end Candidates

end GraphDbLite.StepCandidates
