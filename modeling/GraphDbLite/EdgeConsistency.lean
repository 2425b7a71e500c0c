import GraphDbLite.NodeStorage

/-!
# Consistency of the relationship tables

The two adjacency tables, the properties table and the type counters describe
one set of relationships. The invariant says which keys occur, that sequence
numbers stay below the counter, and that the tables agree. Creation keeps it as
long as a sequence number can be allocated, deletion always keeps it, and
operations on nodes alone do not touch it. Creation links the adjacency tables
before it allocates the number, so at the end of the sequence space the tables
of a new pair fall apart; this is the only step that breaks them.
-/

namespace GraphDbLite.EdgeConsistency

open ByteStrings GraphTypes OrderedTable StatefulActions GraphStore AdjacencyEncoding EdgeStorage
open NodeStorage

/-- Some relationship of the type leads from the source to the destination. -/
def HasEdge (st : Store) (s d : NodeId) (l : String) : Prop :=
  ∃ q,edgePropsKey s d l q∈keys st.edgeProps

/-- The tables agree: both adjacency tables list the pairs that have a row, no
stored list is empty or out of order, and the type counters count the rows. -/
structure EdgeConsistent (st : Store) : Prop where
  /-- Outgoing and incoming neighbours describe the same pairs. -/
  linked : ∀ s d l,d∈adjIds st.adjOut s l ↔ s∈adjIds st.adjIn d l
  /-- Linked pairs are those with a row. -/
  stored : ∀ s d l,s∈adjIds st.adjIn d l ↔ HasEdge st s d l
  /-- Outgoing lists are nonempty and strictly increasing. -/
  outLists : ∀ k data,get st.adjOut k=some data →
    decodeIdList data≠[] ∧ (decodeIdList data).Pairwise (·<·)
  /-- Incoming lists are nonempty and strictly increasing. -/
  inLists : ∀ k data,get st.adjIn k=some data →
    decodeIdList data≠[] ∧ (decodeIdList data).Pairwise (·<·)
  /-- Counters are exact. -/
  counts : ∀ l,(getEdgeTypeCount st l).toNat=countKeys st.edgeProps (isOfType l)

/-- The inductive invariant behind consistency. -/
structure EdgeInv (st : Store) : Prop where
  /-- The outgoing table is well formed. -/
  adjOut : AdjOk st.adjOut
  /-- The incoming table is well formed. -/
  adjIn : AdjOk st.adjIn
  /-- Rows have a checked type and a sequence number already handed out. -/
  rows : ∀ k∈keys st.edgeProps,∃ s d l q,
    isValidName l=true ∧ k=edgePropsKey s d l q ∧ q<edgeSeqCounter st
  /-- Outgoing neighbours are the destinations with a row. -/
  out : ∀ s d l,d∈adjIds st.adjOut s l ↔ HasEdge st s d l
  /-- Incoming neighbours are the sources with a row. -/
  inc : ∀ s d l,s∈adjIds st.adjIn d l ↔ HasEdge st s d l
  /-- Counters are exact. -/
  counts : ∀ l,(getEdgeTypeCount st l).toNat=countKeys st.edgeProps (isOfType l)
  /-- No more rows than numbers handed out. -/
  bound : (keys st.edgeProps).length≤(edgeSeqCounter st).toNat
  /-- The sequence counter holds a word. -/
  counter : CounterRow st nextEdgeSeqKey

theorem EdgeInv.consistent {st : Store} (h : EdgeInv st) : EdgeConsistent st where
  linked s d l := (h.out s d l).trans (h.inc s d l).symm
  stored := h.inc
  outLists k data hget := (h.adjOut k data hget).2
  inLists k data hget := (h.adjIn k data hget).2
  counts := h.counts

theorem edgeInv_freshStore : EdgeInv freshStore where
  adjOut := by
    intro k data hget
    cases hget
  adjIn := by
    intro k data hget
    cases hget
  rows := by
    intro k hk
    exact absurd hk List.not_mem_nil
  out := by
    intro s d l
    constructor
    · intro h
      exact absurd h List.not_mem_nil
    · rintro ⟨q,hq⟩
      exact absurd hq List.not_mem_nil
  inc := by
    intro s d l
    constructor
    · intro h
      exact absurd h List.not_mem_nil
    · rintro ⟨q,hq⟩
      exact absurd hq List.not_mem_nil
  counts := by
    intro l
    have hseq : edgeTypeCountKey l≠nextEdgeSeqKey := edgeTypeCountKey_ne_nextEdgeSeqKey l
    have hnode : edgeTypeCountKey l≠nextNodeIdKey := edgeTypeCountKey_ne_nextNodeIdKey l
    have hversion : edgeTypeCountKey l≠schemaVersionKey := edgeTypeCountKey_ne_schemaVersionKey l
    simp only [getEdgeTypeCount,getCount,freshStore]
    rw [get_put_ne hseq,get_put_ne hnode,get_put_ne hversion]
    rfl
  bound := Nat.zero_le _
  counter := by
    intro raw hget
    rw [freshStore,get_put_self] at hget
    rw [←Option.some.inj hget,toBeBytes_length]

/-- Two stores with the same relationship tables, sequence counter and type
counters. -/
structure SameEdges (st st' : Store) : Prop where
  /-- Same outgoing table. -/
  adjOut : st'.adjOut=st.adjOut
  /-- Same incoming table. -/
  adjIn : st'.adjIn=st.adjIn
  /-- Same rows. -/
  edgeProps : st'.edgeProps=st.edgeProps
  /-- Same sequence counter row. -/
  seq : get st'.metadata nextEdgeSeqKey=get st.metadata nextEdgeSeqKey
  /-- Same type counter rows. -/
  counts : ∀ l,get st'.metadata (edgeTypeCountKey l)=get st.metadata (edgeTypeCountKey l)

theorem SameEdges.refl (st : Store) : SameEdges st st := ⟨rfl,rfl,rfl,rfl,fun _ => rfl⟩

theorem SameEdges.trans {a b c : Store} (hab : SameEdges a b) (hbc : SameEdges b c) :
    SameEdges a c where
  adjOut := hbc.adjOut.trans hab.adjOut
  adjIn := hbc.adjIn.trans hab.adjIn
  edgeProps := hbc.edgeProps.trans hab.edgeProps
  seq := hbc.seq.trans hab.seq
  counts l := (hbc.counts l).trans (hab.counts l)

variable {st st' : Store}

theorem EdgeInv.of_same (hsame : SameEdges st st') (h : EdgeInv st) : EdgeInv st' := by
  have hseq : edgeSeqCounter st'=edgeSeqCounter st := by
    unfold edgeSeqCounter counterValue
    rw [hsame.seq]
  have hhas : ∀ s d l,HasEdge st' s d l ↔ HasEdge st s d l := by
    intro s d l
    unfold HasEdge
    rw [hsame.edgeProps]
  constructor
  · rw [hsame.adjOut]
    exact h.adjOut
  · rw [hsame.adjIn]
    exact h.adjIn
  · rw [hsame.edgeProps,hseq]
    exact h.rows
  · intro s d l
    rw [hsame.adjOut,hhas]
    exact h.out s d l
  · intro s d l
    rw [hsame.adjIn,hhas]
    exact h.inc s d l
  · intro l
    have hcount : getEdgeTypeCount st' l=getEdgeTypeCount st l := by
      unfold getEdgeTypeCount getCount
      rw [hsame.counts]
    rw [hcount,hsame.edgeProps]
    exact h.counts l
  · rw [hsame.edgeProps,hseq]
    exact h.bound
  · intro raw hget
    rw [hsame.seq] at hget
    exact h.counter raw hget

/-- Writing a metadata row outside the relationship counters changes nothing
for relationships. -/
theorem sameEdges_putMeta (st : Store) {key : String} (raw : Bytes) (hseq : nextEdgeSeqKey≠key)
    (hcount : ∀ l,edgeTypeCountKey l≠key) :
    SameEdges st {st with metadata := put st.metadata key raw} :=
  ⟨rfl,rfl,rfl,get_put_ne hseq,fun l => get_put_ne (hcount l)⟩

theorem sameEdges_deleteMeta (st : Store) {key : String} (hseq : nextEdgeSeqKey≠key)
    (hcount : ∀ l,edgeTypeCountKey l≠key) :
    SameEdges st {st with metadata := delete st.metadata key} :=
  ⟨rfl,rfl,rfl,get_delete_ne hseq,fun l => get_delete_ne (hcount l)⟩

theorem sameEdges_incrementLabelCount (st : Store) (label : String) :
    SameEdges st (incrementLabelCount st label) :=
  sameEdges_putMeta st _ (labelCountKey_ne_nextEdgeSeqKey label).symm
    fun l => (labelCountKey_ne_edgeTypeCountKey label l).symm

theorem sameEdges_decrementLabelCount (st : Store) (label : String) :
    SameEdges st (decrementLabelCount st label) := by
  have hseq := (labelCountKey_ne_nextEdgeSeqKey label).symm
  have hcount := fun l => (labelCountKey_ne_edgeTypeCountKey label l).symm
  rw [decrementLabelCount]
  rcases decrementCountBy_cases st (labelCountKey label) 1 with hdrop|⟨count,hset⟩
  · rw [hdrop]
    exact sameEdges_deleteMeta st hseq hcount
  · rw [hset]
    exact sameEdges_putMeta st _ hseq hcount

theorem sameEdges_foldl {ι : Type} {step : Store → ι → Store}
    (h : ∀ st i,SameEdges st (step st i)) (items : List ι) (st : Store) :
    SameEdges st (items.foldl step st) := by
  induction items generalizing st with
  | nil => exact SameEdges.refl st
  | cons i items ih => exact (h st i).trans (ih _)

theorem sameEdges_putNode (st : Store) (id : NodeId) (record : NodeRecord) :
    SameEdges st (putNode st id record) :=
  ⟨rfl,rfl,rfl,rfl,fun _ => rfl⟩

theorem sameEdges_nextNodeId (st : Store) : SameEdges st (nextNodeId st).2 := by
  have hseq := nextNodeIdKey_ne_nextEdgeSeqKey.symm
  have hcount := edgeTypeCountKey_ne_nextNodeIdKey
  rcases nextNodeId_cases st with ⟨e,herror⟩|⟨n,hok⟩
  · rw [herror]
    exact SameEdges.refl st
  · rw [hok]
    exact sameEdges_putMeta st _ hseq hcount

theorem EdgeInv.validName_of_hasEdge {st : Store} (h : EdgeInv st) {s d : NodeId} {l : String}
    (he : HasEdge st s d l) : isValidName l=true :=
  validName_of_mem_adjIds h.adjOut ((h.out s d l).mpr he)

theorem EdgeInv.fresh {st : Store} (h : EdgeInv st) (s d : NodeId) (l : String) :
    edgePropsKey s d l (edgeSeqCounter st)∉keys st.edgeProps := by
  intro hm
  have ⟨s',d',l',q,_,hkey,hlt⟩ := h.rows _ hm
  have hq := (edgePropsKey_inj.mp hkey).2.2.2
  rw [hq] at hlt
  exact absurd hlt (lt_irrefl q)

theorem EdgeInv.count_le {st : Store} (h : EdgeInv st) (p : Bytes → Bool) :
    countKeys st.edgeProps p≤(edgeSeqCounter st).toNat :=
  le_trans List.countP_le_length h.bound

theorem edgeSeqCounter_addEdge (st : Store) (s d : NodeId) (l : String) (props : Properties) :
    edgeSeqCounter (addEdge st s d l props)=edgeSeqCounter st+1 := by
  have hne : nextEdgeSeqKey≠edgeTypeCountKey l := (edgeTypeCountKey_ne_nextEdgeSeqKey l).symm
  have hframe : edgeSeqCounter (addEdge st s d l props)=
      counterValue
        {st with metadata := put st.metadata nextEdgeSeqKey (toBeBytes (edgeSeqCounter st+1))}
        nextEdgeSeqKey := by
    unfold edgeSeqCounter counterValue
    simp only [addEdge,incrementEdgeTypeCount,incrementCount,setCount]
    rw [get_put_ne hne]
    rfl
  rw [hframe,counterValue_put]

theorem getEdgeTypeCount_addEdge (st : Store) (s d : NodeId) (l l' : String) (props : Properties) :
    getEdgeTypeCount (addEdge st s d l props) l'=
      if l'=l then getEdgeTypeCount st l+1 else getEdgeTypeCount st l' := by
  have hframe : ∀ name,getEdgeTypeCount {linkEdge st s d l with
      metadata := put st.metadata nextEdgeSeqKey (toBeBytes (edgeSeqCounter st+1)),
      edgeProps := put st.edgeProps (edgePropsKey s d l (edgeSeqCounter st)) props} name=
        getEdgeTypeCount st name := by
    intro name
    simp only [getEdgeTypeCount,getCount]
    rw [get_put_ne (edgeTypeCountKey_ne_nextEdgeSeqKey name)]
  have hinc := getCount_incrementCount {linkEdge st s d l with
      metadata := put st.metadata nextEdgeSeqKey (toBeBytes (edgeSeqCounter st+1)),
      edgeProps := put st.edgeProps (edgePropsKey s d l (edgeSeqCounter st)) props}
    (edgeTypeCountKey l) (edgeTypeCountKey l')
  have hl := hframe l
  have hl' := hframe l'
  unfold getEdgeTypeCount at hl hl' ⊢
  rw [addEdge,incrementEdgeTypeCount,hinc,hl,hl']
  simp only [edgeTypeCountKey_inj]

theorem hasEdge_addEdge (st : Store) (s d s' d' : NodeId) (l l' : String) (props : Properties) :
    HasEdge (addEdge st s d l props) s' d' l' ↔
      (s'=s ∧ d'=d ∧ l'=l) ∨ HasEdge st s' d' l' := by
  have hkeys : ∀ k,k∈keys (addEdge st s d l props).edgeProps ↔
      k=edgePropsKey s d l (edgeSeqCounter st) ∨ k∈keys st.edgeProps := fun k => mem_keys_put
  constructor
  · rintro ⟨q,hq⟩
    rcases (hkeys _).mp hq with hnew|hold
    · have ⟨hs,hd,hl,_⟩ := edgePropsKey_inj.mp hnew
      exact Or.inl ⟨hs,hd,hl⟩
    · exact Or.inr ⟨q,hold⟩
  · rintro (⟨hs,hd,hl⟩|⟨q,hq⟩)
    · refine ⟨edgeSeqCounter st,(hkeys _).mpr (Or.inl ?_)⟩
      rw [hs,hd,hl]
    · exact ⟨q,(hkeys _).mpr (Or.inr hq)⟩

theorem EdgeInv.addEdge {st : Store} (h : EdgeInv st) (s d : NodeId) {l : String}
    (hl : isValidName l=true) (props : Properties) (hc : edgeSeqCounter st≠0xFFFFFFFFFFFFFFFF) :
    EdgeInv (addEdge st s d l props) := by
  have hroom := succ_lt_of_ne_max hc
  have hsucc : (edgeSeqCounter st+1).toNat=(edgeSeqCounter st).toNat+1 := toNat_succ hroom
  have hfresh := h.fresh s d l
  constructor
  · exact adjOk_adjInsert h.adjOut s d hl
  · exact adjOk_adjInsert h.adjIn d s hl
  · intro k hk
    rw [edgeSeqCounter_addEdge]
    rcases mem_keys_put.mp hk with hnew|hold
    · refine ⟨s,d,l,edgeSeqCounter st,hl,hnew,?_⟩
      rw [UInt64.lt_iff_toNat_lt,hsucc]
      omega
    · have ⟨s',d',l',q,hl',hkey,hlt⟩ := h.rows k hold
      refine ⟨s',d',l',q,hl',hkey,?_⟩
      rw [UInt64.lt_iff_toNat_lt] at hlt ⊢
      omega
  · intro s' d' l'
    rw [hasEdge_addEdge]
    have hmem := mem_adjIds_adjInsert h.adjOut s d s' d' l l'
    have hold := h.out s' d' l'
    change d'∈adjIds (adjInsert st.adjOut s l d) s' l' ↔ _
    rw [hmem,hold]
    tauto
  · intro s' d' l'
    rw [hasEdge_addEdge]
    have hmem := mem_adjIds_adjInsert h.adjIn d s d' s' l l'
    have hold := h.inc s' d' l'
    change s'∈adjIds (adjInsert st.adjIn d l s) d' l' ↔ _
    rw [hmem,hold]
    tauto
  · intro l'
    have hcount : countKeys (EdgeStorage.addEdge st s d l props).edgeProps (isOfType l')=
        countKeys st.edgeProps (isOfType l')+if l'=l then 1 else 0 := by
      have hput := countKeys_put_fresh (v:=props) hfresh (isOfType l')
      have htype : isOfType l' (edgePropsKey s d l (edgeSeqCounter st))=true ↔ l'=l := by
        unfold isOfType
        rw [labelFromEdgePropsKey_edgePropsKey hl]
        simp [eq_comm]
      simp only [htype] at hput
      exact hput
    have hle := h.count_le (isOfType l)
    have hold := h.counts l
    rw [getEdgeTypeCount_addEdge,hcount]
    by_cases hll : l'=l
    · rw [if_pos hll,if_pos hll,toNat_succ (by omega),hold,hll]
    · rw [if_neg hll,if_neg hll]
      exact h.counts l'
  · have hperm := (keys_put_fresh (v:=props) hfresh).length_eq
    have hbound := h.bound
    rw [edgeSeqCounter_addEdge,hsucc]
    change (keys (put st.edgeProps _ props)).length≤_
    rw [hperm,List.length_cons]
    omega
  · intro raw hget
    have hne : nextEdgeSeqKey≠edgeTypeCountKey l := (edgeTypeCountKey_ne_nextEdgeSeqKey l).symm
    simp only [EdgeStorage.addEdge,incrementEdgeTypeCount,incrementCount,setCount] at hget
    rw [get_put_ne hne,get_put_self] at hget
    rw [←Option.some.inj hget,toBeBytes_length]

theorem EdgeInv.linkEdge {st : Store} (h : EdgeInv st) {s d : NodeId} {l : String}
    (he : HasEdge st s d l) : EdgeInv (linkEdge st s d l) := by
  have hl := h.validName_of_hasEdge he
  constructor
  · exact adjOk_adjInsert h.adjOut s d hl
  · exact adjOk_adjInsert h.adjIn d s hl
  · exact h.rows
  · intro s' d' l'
    have hmem := mem_adjIds_adjInsert h.adjOut s d s' d' l l'
    change d'∈adjIds (adjInsert st.adjOut s l d) s' l' ↔ HasEdge st s' d' l'
    rw [hmem,h.out s' d' l']
    constructor
    · rintro (⟨hs,hl',hd⟩|hold)
      · rw [hs,hl',hd]
        exact he
      · exact hold
    · exact Or.inr
  · intro s' d' l'
    have hmem := mem_adjIds_adjInsert h.adjIn d s d' s' l l'
    change s'∈adjIds (adjInsert st.adjIn d l s) d' l' ↔ HasEdge st s' d' l'
    rw [hmem,h.inc s' d' l']
    constructor
    · rintro (⟨hd,hl',hs⟩|hold)
      · rw [hs,hl',hd]
        exact he
      · exact hold
    · exact Or.inr
  · exact h.counts
  · exact h.bound
  · exact h.counter

theorem EdgeInv.prefix_iff {st : Store} (h : EdgeInv st) {s d : NodeId} {l : String}
    (hl : isValidName l=true) {k : Bytes} (hk : k∈keys st.edgeProps) :
    (edgePropsPrefix s d l).isPrefixOf k=true ↔ ∃ q,k=edgePropsKey s d l q := by
  have ⟨s',d',l',q,hl',hkey,_⟩ := h.rows k hk
  rw [List.isPrefixOf_iff_prefix,hkey,edgePropsPrefix_iff hl hl']
  constructor
  · rintro ⟨hs,hd,hll⟩
    exact ⟨q,by rw [hs,hd,hll]⟩
  · rintro ⟨q',hq⟩
    have ⟨hs,hd,hll,_⟩ := edgePropsKey_inj.mp hq
    exact ⟨hs.symm,hd.symm,hll.symm⟩

/-- Dropping rows of one type, uncounting them and adjusting the adjacency
tables to the pairs left keeps the invariant. -/
theorem EdgeInv.removeRows (h : EdgeInv st) {l : String} {p : Bytes → Bool}
    {n : UInt64} (hkeys : keys st'.edgeProps=(keys st.edgeProps).filter fun k => !p k)
    (hp : ∀ k∈keys st.edgeProps,p k=true → isOfType l k=true)
    (hn : n.toNat=countKeys st.edgeProps p)
    (hseq : get st'.metadata nextEdgeSeqKey=get st.metadata nextEdgeSeqKey)
    (hcount : ∀ l',getEdgeTypeCount st' l'=
      if l'=l then (if getEdgeTypeCount st l≤n then 0 else getEdgeTypeCount st l-n)
      else getEdgeTypeCount st l')
    (hadjOut : AdjOk st'.adjOut) (hadjIn : AdjOk st'.adjIn)
    (hout : ∀ s d l,d∈adjIds st'.adjOut s l ↔ HasEdge st' s d l)
    (hinc : ∀ s d l,s∈adjIds st'.adjIn d l ↔ HasEdge st' s d l) : EdgeInv st' := by
  have hcounter : edgeSeqCounter st'=edgeSeqCounter st := by
    unfold edgeSeqCounter counterValue
    rw [hseq]
  have hsub : ∀ k∈keys st'.edgeProps,k∈keys st.edgeProps := by
    intro k hk
    rw [hkeys] at hk
    exact List.mem_of_mem_filter hk
  refine ⟨hadjOut,hadjIn,?_,hout,hinc,?_,?_,?_⟩
  · intro k hk
    rw [hcounter]
    exact h.rows k (hsub k hk)
  · intro l'
    have hsplit := countKeys_of_filter hkeys (isOfType l')
    rw [hcount]
    by_cases hl : l'=l
    · have hall : countKeys st.edgeProps (fun k => p k && isOfType l' k)=countKeys st.edgeProps p := by
        refine List.countP_congr fun k hk => ?_
        have himp := hp k hk
        rw [hl,Bool.and_eq_true]
        exact ⟨And.left,fun hpk => ⟨hpk,himp hpk⟩⟩
      rw [if_pos hl,toNat_saturatingSub,h.counts l,hn]
      rw [hall,hl] at hsplit
      rw [hl]
      omega
    · have hnone : countKeys st.edgeProps (fun k => p k && isOfType l' k)=0 := by
        refine List.countP_eq_zero.mpr fun k hk hboth => ?_
        have ⟨hpk,htype⟩ := Bool.and_eq_true_iff.mp hboth
        have hsame := hp k hk hpk
        unfold isOfType at htype hsame
        rw [decide_eq_true_eq] at htype hsame
        rw [htype] at hsame
        exact hl (Option.some.inj hsame)
      rw [if_neg hl,h.counts l']
      omega
  · have hle : (keys st'.edgeProps).length≤(keys st.edgeProps).length := by
      rw [hkeys]
      exact List.length_filter_le _ _
    rw [hcounter]
    exact le_trans hle h.bound
  · intro raw hget
    rw [hseq] at hget
    exact h.counter raw hget

theorem EdgeInv.unlink {st : Store} (h : EdgeInv st) (st' : Store) {s d : NodeId} {l : String}
    (hadjOut : st'.adjOut=adjRemove st.adjOut s l d) (hadjIn : st'.adjIn=adjRemove st.adjIn d l s)
    (hhas : ∀ s' d' l',HasEdge st' s' d' l' ↔ ¬(s'=s ∧ d'=d ∧ l'=l) ∧ HasEdge st s' d' l') :
    AdjOk st'.adjOut ∧ AdjOk st'.adjIn ∧
      (∀ s d l,d∈adjIds st'.adjOut s l ↔ HasEdge st' s d l) ∧
      ∀ s d l,s∈adjIds st'.adjIn d l ↔ HasEdge st' s d l := by
  have ⟨hokOut,hmemOut⟩ := adjRemove_spec h.adjOut s d l
  have ⟨hokIn,hmemIn⟩ := adjRemove_spec h.adjIn d s l
  rw [hadjOut,hadjIn]
  refine ⟨hokOut,hokIn,?_,?_⟩
  · intro s' d' l'
    rw [hmemOut,hhas,h.out s' d' l']
    tauto
  · intro s' d' l'
    rw [hmemIn,hhas,h.inc s' d' l']
    tauto

/-- Pairs left after dropping the rows that a test selects among the rows of one
pair. -/
theorem hasEdge_filter {p : Bytes → Bool} (hkeys : keys st'.edgeProps=(keys st.edgeProps).filter fun k => !p k)
    (s d : NodeId) (l : String) : HasEdge st' s d l ↔ ∃ q,edgePropsKey s d l q∈keys st.edgeProps ∧
    p (edgePropsKey s d l q)=false := by
  unfold HasEdge
  rw [hkeys]
  simp [List.mem_filter]

/-- Take removed rows from a type counter, if there are any. -/
def uncountEdges (st : Store) (l : String) (n : UInt64) : Store :=
  if 0<n then decrementEdgeTypeCountBy st l n else st

theorem uncountEdges_frame (st : Store) (l : String) (n : UInt64) :
    ∃ m,uncountEdges st l n={st with metadata := m} ∧
      ∀ other,other≠edgeTypeCountKey l → get m other=get st.metadata other := by
  unfold uncountEdges
  by_cases hpos : 0<n
  · rw [if_pos hpos]
    exact decrementCountBy_frame st (edgeTypeCountKey l) n
  · rw [if_neg hpos]
    exact ⟨st.metadata,rfl,fun _ _ => rfl⟩

theorem getEdgeTypeCount_uncountEdges (st : Store) (l l' : String) (n : UInt64) :
    getEdgeTypeCount (uncountEdges st l n) l'=
      if l'=l then (if getEdgeTypeCount st l≤n then 0 else getEdgeTypeCount st l-n)
      else getEdgeTypeCount st l' := by
  unfold uncountEdges
  by_cases hpos : 0<n
  · have hdec := getCount_decrementCountBy st (edgeTypeCountKey l) (edgeTypeCountKey l') n
    simp only [edgeTypeCountKey_inj] at hdec
    rw [if_pos hpos]
    exact hdec
  · have hzero : n=0 := UInt64.le_zero_iff.mp (UInt64.not_lt.mp hpos)
    have hsub : (if getEdgeTypeCount st l≤0 then 0 else getEdgeTypeCount st l-0)=
        getEdgeTypeCount st l := by
      apply UInt64.toNat_inj.mp
      rw [toNat_saturatingSub]
      rfl
    rw [if_neg hpos,hzero,hsub]
    by_cases hll : l'=l
    · rw [if_pos hll,hll]
    · rw [if_neg hll]

/-- The rows of a pair that a deletion drops. -/
def parallelKey (s d : NodeId) (l : String) (k : Bytes) : Bool := (edgePropsPrefix s d l).isPrefixOf k

theorem EdgeInv.isOfType_of_parallelKey {st : Store} (h : EdgeInv st) {s d : NodeId} {l : String}
    (hl : isValidName l=true) :
    ∀ k∈keys st.edgeProps,parallelKey s d l k=true → isOfType l k=true := by
  intro k hk hpk
  have ⟨q,hq⟩ := (h.prefix_iff hl hk).mp hpk
  unfold isOfType
  rw [hq,labelFromEdgePropsKey_edgePropsKey hl]
  simp

theorem EdgeInv.hasEdge_of_parallel (h : EdgeInv st) {s d : NodeId} {l : String} (hl : isValidName l=true)
    (hkeys : keys st'.edgeProps=(keys st.edgeProps).filter fun k => !parallelKey s d l k) (s' d' : NodeId)
    (l' : String) : HasEdge st' s' d' l' ↔ ¬(s'=s ∧ d'=d ∧ l'=l) ∧ HasEdge st s' d' l' := by
  rw [hasEdge_filter hkeys]
  constructor
  · rintro ⟨q,hq,hpq⟩
    refine ⟨?_,q,hq⟩
    rintro ⟨hs,hd,hll⟩
    have hsel : parallelKey s d l (edgePropsKey s' d' l' q)=true :=
      (h.prefix_iff hl hq).mpr ⟨q,by rw [hs,hd,hll]⟩
    rw [hpq] at hsel
    cases hsel
  · rintro ⟨hne,q,hq⟩
    refine ⟨q,hq,Bool.eq_false_iff.mpr fun hsel => ?_⟩
    have ⟨q',hq'⟩ := (h.prefix_iff hl hq).mp hsel
    have ⟨hs,hd,hll,_⟩ := edgePropsKey_inj.mp hq'
    exact hne ⟨hs,hd,hll⟩

/-- Deleting all parallel relationships of a pair keeps the invariant, leaves no
row of the pair and does not move the sequence. -/
theorem EdgeInv.deleteEdge {st : Store} (h : EdgeInv st) (s d : NodeId) {l : String}
    (hl : isValidName l=true) :
    EdgeInv (deleteEdge st s d l) ∧ ¬HasEdge (deleteEdge st s d l) s d l ∧
      edgeSeqCounter (deleteEdge st s d l)=edgeSeqCounter st := by
  let p := parallelKey s d l
  let entries := scanPrefix st.edgeProps (edgePropsPrefix s d l)
  let n := UInt64.ofNat entries.length
  let base : Store := {st with
    adjOut := adjRemove st.adjOut s l d,
    adjIn := adjRemove st.adjIn d l s,
    edgeProps := deleteAll st.edgeProps (entries.map Prod.fst)}
  have hdef : EdgeStorage.deleteEdge st s d l=uncountEdges base l n := rfl
  have hentries : entries=scan st.edgeProps p := scanPrefix_eq_scan _ _
  have hlen : entries.length=countKeys st.edgeProps p := by rw [hentries,scan_length]
  have hlt : countKeys st.edgeProps p<2^64 :=
    lt_of_le_of_lt (h.count_le p) (edgeSeqCounter st).toNat_lt
  have hn : n.toNat=countKeys st.edgeProps p := by
    rw [UInt64.toNat_ofNat',hlen]
    exact Nat.mod_eq_of_lt hlt
  have ⟨m,hstore,hmeta⟩ := uncountEdges_frame base l n
  rw [hdef]
  have hkeys : keys (uncountEdges base l n).edgeProps=(keys st.edgeProps).filter fun k => !p k := by
    rw [hstore]
    change keys (deleteAll st.edgeProps (entries.map Prod.fst))=_
    rw [hentries]
    exact keys_deleteAll_scan st.edgeProps p
  have hhas := h.hasEdge_of_parallel hl hkeys
  have hseq : get (uncountEdges base l n).metadata nextEdgeSeqKey=get st.metadata nextEdgeSeqKey := by
    rw [hstore]
    exact hmeta _ (edgeTypeCountKey_ne_nextEdgeSeqKey l).symm
  have ⟨hokOut,hokIn,hout,hinc⟩ :=
    h.unlink (uncountEdges base l n) (by rw [hstore]) (by rw [hstore]) hhas
  refine ⟨?_,?_,?_⟩
  · exact h.removeRows hkeys (h.isOfType_of_parallelKey hl) hn hseq
      (fun l' => getEdgeTypeCount_uncountEdges base l l' n) hokOut hokIn hout hinc
  · intro he
    exact ((hhas s d l).mp he).1 ⟨rfl,rfl,rfl⟩
  · unfold edgeSeqCounter counterValue
    rw [hseq]

/-- A scan over some of the rows finds nothing exactly when the pair has no row
among them. -/
theorem EdgeInv.scanPrefix_eq_nil {st mid : Store} (h : EdgeInv st) {s d : NodeId} {l : String}
    (hl : isValidName l=true) (hsub : ∀ k∈keys mid.edgeProps,k∈keys st.edgeProps) :
    scanPrefix mid.edgeProps (edgePropsPrefix s d l)=[] ↔ ¬HasEdge mid s d l := by
  rw [scanPrefix_eq_scan,scan_eq_nil]
  constructor
  · rintro hall ⟨q,hq⟩
    have hsel := (h.prefix_iff (s:=s) (d:=d) hl (hsub _ hq)).mpr ⟨q,rfl⟩
    rw [hall _ hq] at hsel
    cases hsel
  · intro hnone k hk
    refine Bool.eq_false_iff.mpr fun hsel => hnone ?_
    have ⟨q,hq⟩ := (h.prefix_iff hl (hsub k hk)).mp hsel
    exact ⟨q,hq ▸ hk⟩

theorem uncountEdges_of_removed (st : Store) (l : String) (removed : Bool) :
    (if removed=true then decrementEdgeTypeCountBy st l 1 else st)=
      uncountEdges st l (if removed=true then 1 else 0) := by
  cases removed with
  | true | false => rfl

/-- A relationship row is taken away and uncounted. -/
def withoutRow (st : Store) (src dst : NodeId) (label : String) (seq : UInt64) : Store :=
  uncountEdges {st with edgeProps := delete st.edgeProps (edgePropsKey src dst label seq)} label
    (if contains st.edgeProps (edgePropsKey src dst label seq)=true then 1 else 0)

theorem withoutRow_tables (st : Store) (src dst : NodeId) (label : String) (seq : UInt64) :
    (withoutRow st src dst label seq).nodes=st.nodes ∧
      (withoutRow st src dst label seq).adjOut=st.adjOut ∧
      (withoutRow st src dst label seq).adjIn=st.adjIn ∧
      (withoutRow st src dst label seq).edgeProps=
        delete st.edgeProps (edgePropsKey src dst label seq) ∧
      get (withoutRow st src dst label seq).metadata nextEdgeSeqKey=get st.metadata nextEdgeSeqKey := by
  have ⟨m,hstore,hmeta⟩ := uncountEdges_frame
    {st with edgeProps := delete st.edgeProps (edgePropsKey src dst label seq)} label
    (if contains st.edgeProps (edgePropsKey src dst label seq)=true then 1 else 0)
  unfold withoutRow
  rw [hstore]
  exact ⟨rfl,rfl,rfl,rfl,hmeta _ (edgeTypeCountKey_ne_nextEdgeSeqKey label).symm⟩

/-- Deleting one relationship takes its row away, and unlinks the pair when no parallel
row is left. -/
theorem deleteSingleEdge_eq (st : Store) (src dst : NodeId) (label : String) (seq : UInt64) :
    deleteSingleEdge st src dst label seq=
      if scanPrefix (withoutRow st src dst label seq).edgeProps (edgePropsPrefix src dst label)=[] then
        {withoutRow st src dst label seq with
          adjOut := adjRemove (withoutRow st src dst label seq).adjOut src label dst,
          adjIn := adjRemove (withoutRow st src dst label seq).adjIn dst label src}
      else withoutRow st src dst label seq := by
  unfold withoutRow
  rw [←uncountEdges_of_removed _ label (contains st.edgeProps (edgePropsKey src dst label seq))]
  rfl

/-- Deleting one relationship keeps the invariant: the last parallel row takes
the adjacency entries with it, any other row leaves them. -/
theorem EdgeInv.deleteSingleEdge {st : Store} (h : EdgeInv st) (s d : NodeId) {l : String}
    (hl : isValidName l=true) (q : UInt64) : EdgeInv (deleteSingleEdge st s d l q) := by
  let key := edgePropsKey s d l q
  let p : Bytes → Bool := fun k => decide (k=key)
  let n : UInt64 := if contains st.edgeProps key=true then 1 else 0
  let mid := withoutRow st s d l q
  have hn : n.toNat=countKeys st.edgeProps p := by
    rw [countKeys_key st.edgeProps key p (by simp [p])]
    change (if contains st.edgeProps key=true then (1 : UInt64) else 0).toNat=_
    split_ifs <;> rfl
  have hp : ∀ k∈keys st.edgeProps,p k=true → isOfType l k=true := by
    intro k _ hpk
    have hk : k=edgePropsKey s d l q := of_decide_eq_true hpk
    unfold isOfType
    rw [hk,labelFromEdgePropsKey_edgePropsKey hl]
    simp
  have ⟨_,hadjOut,hadjIn,hrows,hseq⟩ := withoutRow_tables st s d l q
  have hkeys : keys mid.edgeProps=(keys st.edgeProps).filter fun k => !p k := by
    rw [hrows,keys_delete]
    exact List.filter_congr fun k _ => by simp [p,key]
  have hcount := fun l' => getEdgeTypeCount_uncountEdges {st with edgeProps := delete st.edgeProps key} l l' n
  have hother : ∀ s' d' l',¬(s'=s ∧ d'=d ∧ l'=l) → (HasEdge mid s' d' l' ↔ HasEdge st s' d' l') := by
    intro s' d' l' hne
    rw [hasEdge_filter hkeys]
    constructor
    · rintro ⟨q',hq',-⟩
      exact ⟨q',hq'⟩
    · rintro ⟨q',hq'⟩
      refine ⟨q',hq',decide_eq_false fun heq => ?_⟩
      have ⟨hs,hd,hll,_⟩ := edgePropsKey_inj.mp heq
      exact hne ⟨hs,hd,hll⟩
  have hsub : ∀ k∈keys mid.edgeProps,k∈keys st.edgeProps := by
    intro k hk
    rw [hkeys] at hk
    exact List.mem_of_mem_filter hk
  have hremaining := h.scanPrefix_eq_nil (s:=s) (d:=d) hl hsub
  rw [deleteSingleEdge_eq]
  by_cases hlast : scanPrefix mid.edgeProps (edgePropsPrefix s d l)=[]
  · have hgone := hremaining.mp hlast
    let final : Store :=
      {mid with adjOut := adjRemove mid.adjOut s l d,adjIn := adjRemove mid.adjIn d l s}
    have hhas : ∀ s' d' l',HasEdge final s' d' l' ↔
        ¬(s'=s ∧ d'=d ∧ l'=l) ∧ HasEdge st s' d' l' := by
      intro s' d' l'
      change HasEdge mid s' d' l' ↔ _
      by_cases hsame : s'=s ∧ d'=d ∧ l'=l
      · rw [hsame.1,hsame.2.1,hsame.2.2]
        simp [hgone]
      · rw [hother s' d' l' hsame]
        simp [hsame]
    have ⟨hokOut,hokIn,hout,hinc⟩ := h.unlink final
      (congrArg (fun t => adjRemove t s l d) hadjOut) (congrArg (fun t => adjRemove t d l s) hadjIn) hhas
    rw [if_pos hlast]
    have hfinal : EdgeInv final := h.removeRows hkeys hp hn hseq hcount hokOut hokIn hout hinc
    exact hfinal
  · have hstays : HasEdge mid s d l := by
      by_contra hnone
      exact hlast (hremaining.mpr hnone)
    have hhas : ∀ s' d' l',HasEdge mid s' d' l' ↔ HasEdge st s' d' l' := by
      intro s' d' l'
      by_cases hsame : s'=s ∧ d'=d ∧ l'=l
      · have ⟨q',hq'⟩ := hstays
        rw [hsame.1,hsame.2.1,hsame.2.2]
        exact ⟨fun _ => ⟨q',hsub _ hq'⟩,fun _ => ⟨q',hq'⟩⟩
      · exact hother s' d' l' hsame
    rw [if_neg hlast]
    refine h.removeRows hkeys hp hn hseq hcount ?_ ?_ ?_ ?_
    · rw [hadjOut]
      exact h.adjOut
    · rw [hadjIn]
      exact h.adjIn
    · intro s' d' l'
      rw [hadjOut,hhas]
      exact h.out s' d' l'
    · intro s' d' l'
      rw [hadjIn,hhas]
      exact h.inc s' d' l'

theorem sameEdges_createNode (st : Store) (labels : List String) (properties : Properties) :
    SameEdges st (createNode labels properties st).2 := by
  have hkeeps : Keeps (fun st' => SameEdges st st') (createNode labels properties) := by
    unfold createNode
    refine keeps_reading fun _ => ?_
    refine keeps_reading fun _ => ?_
    refine keeps_bind (fun st' h => h.trans (sameEdges_nextNodeId st')) fun id => ?_
    refine keeps_bind (keeps_update fun st' h => h.trans (sameEdges_putNode st' id _)) fun _ => ?_
    refine keeps_bind (keeps_update fun st' h => ?_) fun _ => keeps_pure _ id
    exact h.trans (sameEdges_foldl sameEdges_incrementLabelCount _ st')
  exact hkeeps st (SameEdges.refl st)

/-- A loop of deletions over listed pairs of checked types keeps the invariant. -/
theorem edgeInv_foldl {pairs : List (String×List UInt64)} {step : Store → String → UInt64 → Store}
    (hstep : ∀ st l n,isValidName l=true → EdgeInv st → EdgeInv (step st l n))
    (hvalid : ∀ entry∈pairs,isValidName entry.1=true) {st : Store} (h : EdgeInv st) :
    EdgeInv (pairs.foldl (fun st entry => entry.2.foldl (fun st n => step st entry.1 n) st) st) := by
  induction pairs generalizing st with
  | nil => exact h
  | cons entry rest ih =>
    have hl := hvalid entry List.mem_cons_self
    have hinner : ∀ (ns : List UInt64) {st : Store},EdgeInv st →
        EdgeInv (ns.foldl (fun st n => step st entry.1 n) st) := by
      intro ns
      induction ns with
      | nil => exact fun h => h
      | cons n ns ihn => exact fun h => ihn (hstep _ entry.1 n hl h)
    exact ih (fun other ho => hvalid other (List.mem_cons_of_mem _ ho)) (hinner entry.2 h)

/-- Deleting a node with its relationships keeps the invariant, whether it
succeeds or not. -/
theorem EdgeInv.deleteNode {st : Store} (h : EdgeInv st) (id : NodeId) :
    EdgeInv (deleteNode id st).2 := by
  have hout : ∀ st l n,isValidName l=true → EdgeInv st → EdgeInv (EdgeStorage.deleteEdge st id n l) :=
    fun st l n hl h => (h.deleteEdge id n hl).1
  have hin : ∀ st l n,isValidName l=true → EdgeInv st → EdgeInv (EdgeStorage.deleteEdge st n id l) :=
    fun st l n hl h => (h.deleteEdge n id hl).1
  refine inspect_bind h fun node _ => inspect_bind h fun outEdges houtEdges => ?_
  have hafterOut : EdgeInv (deleteOutEdges id outEdges st) :=
    edgeInv_foldl hout (validName_of_edgeLabelEntries h.adjOut houtEdges) h
  change EdgeInv ((inspect (fun st => getAllEdgeLabels st id .incoming) >>= _)
    (deleteOutEdges id outEdges st)).2
  refine inspect_bind hafterOut fun inEdges hinEdges => ?_
  have hafterIn : EdgeInv (deleteInEdges id inEdges (deleteOutEdges id outEdges st)) :=
    edgeInv_foldl hin (validName_of_edgeLabelEntries hafterOut.adjIn hinEdges) hafterOut
  have hnode : SameEdges (deleteInEdges id inEdges (deleteOutEdges id outEdges st))
      {deleteInEdges id inEdges (deleteOutEdges id outEdges st) with
        nodes := delete (deleteInEdges id inEdges (deleteOutEdges id outEdges st)).nodes id} :=
    ⟨rfl,rfl,rfl,rfl,fun _ => rfl⟩
  exact hafterIn.of_same (hnode.trans (sameEdges_foldl sameEdges_decrementLabelCount node.labels _))

/-- The storage calls of a run. -/
inductive EdgeStep where
  | createEdge (src dst : NodeId) (label : String) (properties : Properties)
  | deleteEdge (src dst : NodeId) (label : String)
  | deleteSingleEdge (src dst : NodeId) (label : String) (seq : UInt64)
  | createNode (labels : List String) (properties : Properties)
  | deleteNode (id : NodeId)

/-- The store after a call, successful or not. -/
def applyEdgeStep (st : Store) : EdgeStep → Store
  | .createEdge src dst label properties => (createEdge src dst label properties st).2
  | .deleteEdge src dst label => deleteEdge st src dst label
  | .deleteSingleEdge src dst label seq => deleteSingleEdge st src dst label seq
  | .createNode labels properties => (createNode labels properties st).2
  | .deleteNode id => (deleteNode id st).2

/-- The type given to the call is a checked name. -/
def EdgeStep.checked : EdgeStep → Bool
  | .createEdge _ _ label _ => isValidName label
  | .deleteEdge _ _ label => isValidName label
  | .deleteSingleEdge _ _ label _ => isValidName label
  | _ => true

/-- A creation whose names pass finds a sequence number left, or its pair
already has a row. -/
def SequenceLeft (st : Store) : EdgeStep → Prop
  | .createEdge src dst label properties => CheckedNames label properties →
      edgeSeqCounter st≠0xFFFFFFFFFFFFFFFF ∨ HasEdge st src dst label
  | _ => True

/-- Every call but a creation at the end of the sequence space keeps the
invariant. -/
theorem EdgeInv.step {st : Store} (h : EdgeInv st) {step : EdgeStep} (hchecked : step.checked=true)
    (hleft : SequenceLeft st step) : EdgeInv (applyEdgeStep st step) := by
  cases step with
  | createEdge src dst label properties =>
    change EdgeInv (EdgeStorage.createEdge src dst label properties st).2
    by_cases hnames : CheckedNames label properties
    · by_cases hc : edgeSeqCounter st=0xFFFFFFFFFFFFFFFF
      · have hhas : HasEdge st src dst label := (hleft hnames).resolve_left fun hne => hne hc
        rw [createEdge_exhausted hnames h.counter hc]
        exact h.linkEdge hhas
      · rw [createEdge_ok hnames h.counter hc]
        exact h.addEdge src dst hnames.1 properties hc
    · have ⟨e,herror⟩ := createEdge_rejected (s:=src) (d:=dst) hnames st
      rw [herror]
      exact h
  | deleteEdge src dst label => exact (h.deleteEdge src dst hchecked).1
  | deleteSingleEdge src dst label seq => exact h.deleteSingleEdge src dst hchecked seq
  | createNode labels properties => exact h.of_same (sameEdges_createNode st labels properties)
  | deleteNode id => exact h.deleteNode id

/-- A creation at the end of the sequence space lists a neighbour without a row. -/
theorem EdgeInv.not_consistent_of_exhausted {st : Store} (h : EdgeInv st) {step : EdgeStep}
    (hleft : ¬SequenceLeft st step) : ¬EdgeConsistent (applyEdgeStep st step) := by
  cases step with
  | createEdge src dst label properties =>
    have hparts : CheckedNames label properties ∧ edgeSeqCounter st=0xFFFFFFFFFFFFFFFF ∧
        ¬HasEdge st src dst label := by
      simpa [SequenceLeft] using hleft
    have ⟨hnames,hc,hnone⟩ := hparts
    have hresult : applyEdgeStep st (.createEdge src dst label properties)=
        EdgeStorage.linkEdge st src dst label := by
      change (EdgeStorage.createEdge src dst label properties st).2=_
      rw [createEdge_exhausted hnames h.counter hc]
    rw [hresult]
    intro hcons
    have hlisted : dst∈adjIds (EdgeStorage.linkEdge st src dst label).adjOut src label :=
      (mem_adjIds_adjInsert h.adjOut src dst src dst label label).mpr (Or.inl ⟨rfl,rfl,rfl⟩)
    exact hnone ((hcons.stored src dst label).mp ((hcons.linked src dst label).mp hlisted))
  | deleteEdge src dst label | deleteSingleEdge src dst label seq | createNode labels properties | deleteNode id => exact absurd trivial hleft

/-- The relationship tables agree in every state reached from a new database
exactly when no creation runs out of sequence numbers for a new pair. -/
theorem edgeConsistent_reached_iff (steps : List EdgeStep) (hchecked : ∀ step∈steps,step.checked=true) :
    (∀ first,first<+:steps → EdgeConsistent (run applyEdgeStep freshStore first)) ↔
      Guarded applyEdgeStep SequenceLeft freshStore steps :=
  guarded_iff_reached (I:=EdgeInv) (p:=fun step => step.checked=true)
    (fun _ _ hok h hleft => h.step hok hleft) (fun _ h => h.consistent)
    (fun _ _ _ h hleft => h.not_consistent_of_exhausted hleft) hchecked edgeInv_freshStore

/-- A run with parallel relationships, a self-loop and all deletions. -/
theorem edgeConsistent_reached_sample :
    let steps : List EdgeStep :=
      [.createNode ["A"] [],.createEdge 1 1 "R" [],.createEdge 1 1 "R" [],.createEdge 2 1 "S" [],
        .deleteSingleEdge 1 1 "R" 0,.deleteEdge 2 1 "S",.deleteNode 1]
    ∀ first,first<+:steps → EdgeConsistent (run applyEdgeStep freshStore first) := by
  intro steps
  refine (edgeConsistent_reached_iff steps ?_).mpr ?_
  · decide
  · exact ⟨trivial,fun _ => Or.inl (by decide),fun _ => Or.inl (by decide),
      fun _ => Or.inl (by decide),trivial,trivial,trivial,trivial⟩

theorem run_replicate_createEdge (s d : NodeId) {l : String} (hl : isValidName l=true) (n : Nat)
    (hn : n<2^64) :
    EdgeInv (run applyEdgeStep freshStore (List.replicate n (.createEdge s d l []))) ∧
      (edgeSeqCounter
        (run applyEdgeStep freshStore (List.replicate n (.createEdge s d l [])))).toNat=n := by
  induction n with
  | zero =>
    have hzero : (edgeSeqCounter freshStore).toNat=0 := by decide
    exact ⟨edgeInv_freshStore,hzero⟩
  | succ n ih =>
    have ⟨hinv,hcount⟩ := ih (by omega)
    have hnames : CheckedNames l [] := ⟨hl,fun key hk => absurd hk List.not_mem_nil⟩
    rw [List.replicate_succ',run_append]
    generalize run applyEdgeStep freshStore (List.replicate n (.createEdge s d l []))=st at hinv hcount
    have hroom : edgeSeqCounter st≠0xFFFFFFFFFFFFFFFF := by
      intro hmax
      have hval : (edgeSeqCounter st).toNat=2^64-1 := by
        rw [hmax]
        rfl
      omega
    have hstep : run applyEdgeStep st [.createEdge s d l []]=addEdge st s d l [] := by
      change (createEdge s d l [] st).2=_
      rw [createEdge_ok hnames hinv.counter hroom]
    rw [hstep,edgeSeqCounter_addEdge,toNat_succ (succ_lt_of_ne_max hroom),hcount]
    exact ⟨hinv.addEdge s d hl [] hroom,rfl⟩

/-- Use up some sequence numbers on one pair, delete it, create it once more. -/
def deleteThenCreate (n : Nat) : List EdgeStep :=
  List.replicate n (.createEdge 1 2 "R" [])++[.deleteEdge 1 2 "R",.createEdge 1 2 "R" []]

theorem deleteThenCreate_checked (n : Nat) : ∀ step∈deleteThenCreate n,step.checked=true := by
  have hl : isValidName "R"=true := by decide
  intro step hstep
  rcases List.mem_append.mp hstep with hcreate|hlast
  · rw [List.eq_of_mem_replicate hcreate]
    exact hl
  · rcases List.mem_cons.mp hlast with hdel|hlast
    · rw [hdel]
      exact hl
    · rw [List.mem_singleton.mp hlast]
      exact hl

/-- Once the sequence is used up, such a run leaves a neighbour without a row. -/
theorem deleteThenCreate_breaks {n : Nat} (hn : n+1=2^64) :
    ¬EdgeConsistent (run applyEdgeStep freshStore (deleteThenCreate n)) := by
  intro hcons
  have hl : isValidName "R"=true := by decide
  have ⟨hinv,hcount⟩ := run_replicate_createEdge 1 2 hl n (by omega)
  rw [deleteThenCreate,run_append] at hcons
  generalize run applyEdgeStep freshStore (List.replicate n (.createEdge 1 2 "R" []))=st
    at hinv hcount hcons
  have hmax : edgeSeqCounter st=0xFFFFFFFFFFFFFFFF := by
    apply UInt64.toNat_inj.mp
    change (edgeSeqCounter st).toNat=2^64-1
    omega
  have ⟨hdeleted,hnone,hkept⟩ := hinv.deleteEdge 1 2 hl
  have hleft : SequenceLeft (applyEdgeStep st (.deleteEdge 1 2 "R")) (.createEdge 1 2 "R" []) :=
    Classical.byContradiction fun hnot => hdeleted.not_consistent_of_exhausted hnot hcons
  rcases hleft ⟨hl,fun key hk => absurd hk List.not_mem_nil⟩ with hne|hhas
  · exact hne (hkept.trans hmax)
  · exact hnone hhas

/-- Not every run leaves the tables in agreement. -/
theorem edgeConsistent_run_fails :
    ¬∀ steps : List EdgeStep,(∀ step∈steps,step.checked=true) →
      EdgeConsistent (run applyEdgeStep freshStore steps) := by
  intro hall
  exact deleteThenCreate_breaks (n:=2^64-1) (by decide)
    (hall (deleteThenCreate (2^64-1)) (deleteThenCreate_checked (2^64-1)))

end GraphDbLite.EdgeConsistency
