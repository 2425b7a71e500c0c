import GraphDbLite.EdgePropertyFrame
import GraphDbLite.IndexAccess
import GraphDbLite.MergeOperators
import GraphDbLite.ValueEquality

/-!
# What MERGE finds and what it creates

The searches of MERGE run through an index on one inline property when there is one and
through a label scan otherwise. Both list their candidates in the order of identifiers:
stored nodes with the tested properties that pass the label test of the search. A node
that MERGE creates is a candidate of its own search and comes after all others.
-/

namespace GraphDbLite.MergeSearch

open ByteStrings GraphTypes OrderedTable StatefulActions GraphStore EdgeStorage NodeStorage
open SecondaryIndex FullText WriteOperators CypherSyntax CypherValues NodeView NodeRecords
open IndexMirror IndexAccess MergeOperators EdgeConsistency EdgePropertyFrame Traversal

/-- A database whose node tables are well formed and whose indexes mirror the nodes. -/
structure Indexed (enc : Value → Bytes) (st : Store) : Prop where
  /-- The node tables are well formed. -/
  nodes : NodesOk st
  /-- The indexes mirror the nodes. -/
  mirror : IndexesMirror enc st

/-- Tested values are serialized like every value the library holds equal to them. -/
def SameBytes (enc : Value → Bytes) (props : Properties) : Prop :=
  ∀ entry∈props,∀ value,valueEq value entry.2=true → enc value=enc entry.2

/-- Some tested property has an index of its own for the label. -/
def Covered (st : Store) (label : String) (props : Properties) : Prop :=
  ∃ entry∈props,IndexDef label [entry.1] ∧ indexTableName label [entry.1]∈keys st.indexTables

/-- The label test of a search: an index lists carriers of the label, a scan compares the
label column with LIKE, and the empty label finds every node. -/
structure LabelPasses (st : Store) (label : String) (props : Properties) (labels : List String) : Prop where
  /-- Through an index. -/
  index : Covered st label props → label∈labels
  /-- Through a scan. -/
  scan : ¬Covered st label props → label = "" ∨
    labelColumnMatches label (String.intercalate ":" labels)=true

/-- A node that a search of MERGE lists. -/
structure Candidate (st : Store) (label : String) (props : Properties) (n : Node) : Prop where
  /-- The node is stored. -/
  stored : Stored st n
  /-- It has the tested properties. -/
  properties : hasProperties n.properties props=true
  /-- It passes the label test. -/
  label : LabelPasses st label props n.labels

theorem stored_inj {st : Store} {n m : Node} (hn : Stored st n) (hm : Stored st m) (h : n.id=m.id) :
    n=m := by
  unfold Stored at hn hm
  rw [h,hm] at hn
  exact (Except.ok.inj hn).symm

section Finders

variable {E : Type} {env : ExecEnv E} {st : Store} {label : String} {props : Properties}

theorem hasProperties_iff {found : Properties} :
    hasProperties found props=true ↔
      ∀ entry∈props,∃ value,getProp found entry.1=some value ∧ valueEq value entry.2=true := by
  unfold hasProperties
  rw [List.all_eq_true]
  constructor
  · intro h entry hentry
    have htest := h entry hentry
    cases hread : getProp found entry.1 with
    | none =>
      rw [hread] at htest
      cases htest
    | some value =>
      rw [hread] at htest
      exact ⟨value,rfl,htest⟩
  · intro h entry hentry
    have ⟨value,hread,hequal⟩ := h entry hentry
    rw [hread]
    exact hequal

theorem indexedProperty_spec (hnames : WellNamed st) (label : String) (props : Properties) :
    (∀ entry,indexedProperty st label props=some entry → entry∈props ∧ IndexDef label [entry.1] ∧
      indexTableName label [entry.1]∈keys st.indexTables) ∧
    (indexedProperty st label props=none → ¬Covered st label props) := by
  have hsingles : ∃ single : IndexInfo → Option String,
      (∀ info property,single info=some property ↔ info.properties=[property]) ∧
      indexedProperty st label props=props.find? fun entry =>
        ((listIndexesForLabel st label).filterMap single).contains entry.1 := by
    refine ⟨_,fun info property => ?_,rfl⟩
    constructor
    · intro hsingle
      split at hsingle
      · next other hother => rw [hother,Option.some.inj hsingle]
      · exact nomatch hsingle
    · intro hproperties
      rw [hproperties]
  have ⟨single,hsingle,hchoice⟩ := hsingles
  have hindexed : ∀ property,property∈(listIndexesForLabel st label).filterMap single ↔
      IndexDef label [property] ∧ indexTableName label [property]∈keys st.indexTables := by
    intro property
    rw [List.mem_filterMap]
    constructor
    · intro h
      have ⟨info,hinfo,hproperty⟩ := h
      have ⟨_,hdef,hkey⟩ := (mem_listIndexesForLabel hnames).mp hinfo
      rw [(hsingle info property).mp hproperty] at hdef hkey
      exact ⟨hdef,hkey⟩
    · intro h
      exact ⟨⟨label,[property]⟩,(mem_listIndexesForLabel hnames).mpr ⟨rfl,h⟩,(hsingle _ property).mpr rfl⟩
  rw [hchoice]
  constructor
  · intro entry h
    have hcontains := List.find?_some h
    rw [List.contains_iff_mem] at hcontains
    exact ⟨List.mem_of_find?_eq_some h,(hindexed entry.1).mp hcontains⟩
  · intro h hcovered
    have ⟨entry,hentry,hindex⟩ := hcovered
    have hnot := List.find?_eq_none.mp h entry hentry
    rw [List.contains_iff_mem] at hnot
    exact hnot ((hindexed entry.1).mpr hindex)

/-- Stored nodes whose property is serialized like the looked up value. -/
def Hit (enc : Value → Bytes) (st : Store) (property : String) (value : Value) (id : NodeId) : Prop :=
  ∃ n,Stored st n ∧ n.id=id ∧ ∃ held,getProp n.properties property=some held ∧ enc held=enc value

/-- An index lookup lists carriers of the label, among them all whose property is
serialized alike, and those in the order of identifiers. -/
theorem indexLookup_ok (hmirror : IndexesMirror env.enc st) {property : String} (value : Value)
    (hdef : IndexDef label [property]) (hkey : indexTableName label [property]∈keys st.indexTables) :
    ∃ ids,indexLookup env st label property value=.ok ids ∧
      (∀ id∈ids,∃ n,Stored st n ∧ n.id=id ∧ label∈n.labels) ∧
      (∀ n,Stored st n → label∈n.labels → Hit env.enc st property value n.id → n.id∈ids) ∧
      ids.Pairwise fun a b => Hit env.enc st property value a → Hit env.enc st property value b → a<b := by
  obtain ⟨t,ht⟩ := mem_keys.mp hkey
  have hrows := hmirror.rows label [property] t hdef ht
  have hrow : ∀ key∈keys t,∃ n held,Stored st n ∧ label∈n.labels ∧
      getProp n.properties property=some held ∧ key=env.enc held++toBeBytes n.id := by
    intro key hmem
    obtain ⟨id,hnode⟩ := (hrows key).mp hmem
    obtain ⟨r,cols,hrec,hlabel,hcols,hbytes⟩ := nodeRow_eq_some.mp hnode
    obtain ⟨held,hread,hlist⟩ : ∃ held,getProp r.properties property=some held ∧ cols=[held] := by
      unfold collectValues at hcols
      cases hread : getProp r.properties property with
      | none =>
        rw [hread] at hcols
        cases hcols
      | some held =>
        rw [hread] at hcols
        exact ⟨held,rfl,by simpa [collectValues,eq_comm] using hcols⟩
    rw [hlist,List.flatMap_singleton] at hbytes
    exact ⟨⟨id,r.labels,r.properties⟩,held,stored_iff.mpr hrec,hlabel,hread,hbytes.symm⟩
  have hlisted : ∀ row∈(scanPrefix t (env.enc value)).filter fun row => 8 ≤ row.1.length,
      row.1∈keys t := by
    intro row hmem
    have hscan := List.mem_of_mem_filter hmem
    rw [scanPrefix_eq_scan] at hscan
    exact mem_keys.mpr ⟨row.2,(mem_scan.mp hscan).1⟩
  unfold indexLookup
  rw [bind_of_ok (resolveIndexTable_ok hdef hkey),ht]
  refine ⟨_,rfl,?_,?_,?_⟩
  · intro id hid
    obtain ⟨row,hmem,hidrow⟩ := List.mem_map.mp hid
    obtain ⟨n,held,hstored,hlabel,_,hbytes⟩ := hrow row.1 (hlisted row hmem)
    rw [hbytes,rowId_append] at hidrow
    exact ⟨n,hstored,hidrow,hlabel⟩
  · intro n hstored hlabel hhit
    obtain ⟨other,hother,hid,held,hread,hbytes⟩ := hhit
    rw [stored_inj hother hstored hid] at hread
    have hnode : nodeRow env.enc n.id (recordAt st n.id) label [property]=
        some (env.enc held++toBeBytes n.id) :=
      nodeRow_eq_some.mpr ⟨_,[held],stored_iff.mp hstored,hlabel,by simp [collectValues,hread],
        by rw [List.flatMap_singleton]⟩
    obtain ⟨cell,hcell⟩ := mem_keys.mp ((hrows _).mpr ⟨n.id,hnode⟩)
    refine List.mem_map.mpr ⟨(env.enc held++toBeBytes n.id,cell),List.mem_filter.mpr ⟨?_,?_⟩,rowId_append _ _⟩
    · rw [scanPrefix_eq_scan]
      refine mem_scan.mpr ⟨hcell,List.isPrefixOf_iff_prefix.mpr ?_⟩
      rw [hbytes]
      exact List.prefix_append _ _
    · rw [decide_eq_true_eq,List.length_append,toBeBytes_length]
      omega
  · rw [List.pairwise_map,scanPrefix_eq_scan]
    have hordered : ((scan t fun key => (env.enc value).isPrefixOf key).filter fun row =>
        8 ≤ row.1.length).Pairwise fun a b => a.1<b.1 := (t.ordered.filter _).filter _
    rw [←scanPrefix_eq_scan] at hordered ⊢
    refine hordered.imp_of_mem fun ha hb hlt => ?_
    obtain ⟨n,held,hstored,_,hread,hbytes⟩ := hrow _ (hlisted _ ha)
    obtain ⟨m,more,hstored',_,hread',hbytes'⟩ := hrow _ (hlisted _ hb)
    rw [hbytes,hbytes',rowId_append,rowId_append]
    intro hn hm
    have hvalue : ∀ x held,Stored st x → getProp x.properties property=some held →
        Hit env.enc st property value x.id → env.enc held=env.enc value := by
      intro x held hx hread hhit
      obtain ⟨y,hy,hid,found,hfound,henc⟩ := hhit
      rw [stored_inj hy hx hid,hread] at hfound
      rw [Option.some.inj hfound]
      exact henc
    rw [hbytes,hbytes',hvalue n held hstored hread hn,hvalue m more hstored' hread' hm] at hlt
    exact lt_of_toBeBytes_lt (append_lt_append_iff.mp hlt)

variable {ids : List NodeId} {n : Node}

theorem listedMatches_ok (props : Properties) (hids : ∀ id∈ids,∃ n,Stored st n ∧ n.id=id) :
    ∃ ns,listedMatches st props ids=.ok ns ∧ ∀ n,n∈ns ↔ Stored st n ∧ n.id∈ids ∧
    hasProperties n.properties props=true := by
  induction ids with
  | nil => exact ⟨[],rfl,fun n => by simp⟩
  | cons id rest ih =>
    have ⟨ns,hns,hmem⟩ := ih fun other hother => hids other (List.mem_cons_of_mem _ hother)
    have ⟨m,hm,hid⟩ := hids id List.mem_cons_self
    have hread : getNode st id=.ok m := by
      rw [←hid]
      exact hm
    have hhead : ∀ n,Stored st n → n.id=id → n=m := fun n hn hsame =>
      stored_inj hn hm (hsame.trans hid.symm)
    refine ⟨if hasProperties m.properties props=true then m::ns else ns,?_,fun n => ?_⟩
    · rw [listedMatches,bind_of_ok hread,bind_of_ok hns]
      rfl
    · rw [List.mem_cons]
      split_ifs with htest
      · rw [List.mem_cons,hmem]
        constructor
        · intro h
          rcases h with hn|⟨hn,hin,hprops⟩
          · rw [hn]
            exact ⟨hm,Or.inl hid,htest⟩
          · exact ⟨hn,Or.inr hin,hprops⟩
        · intro h
          have ⟨hn,hin,hprops⟩ := h
          rcases hin with hsame|hin
          · exact Or.inl (hhead n hn hsame)
          · exact Or.inr ⟨hn,hin,hprops⟩
      · rw [hmem]
        constructor
        · intro h
          exact ⟨h.1,Or.inr h.2.1,h.2.2⟩
        · intro h
          have ⟨hn,hin,hprops⟩ := h
          rcases hin with hsame|hin
          · rw [hhead n hn hsame] at hprops
            exact absurd hprops htest
          · exact ⟨hn,hin,hprops⟩

/-- The node with the least identifier among those of a kind, or none when there is none. -/
structure Least (kind : Node → Prop) (found : Option Node) : Prop where
  /-- A found node is of the kind and comes first. -/
  some_ : ∀ n,found=some n → kind n ∧ ∀ m,kind m → n.id≤ m.id
  /-- Without one there is none of the kind. -/
  none_ : found=none → ∀ m,¬kind m

theorem firstListedMatch_ok {Q : NodeId → Prop} (hids : ∀ id∈ids,∃ n,Stored st n ∧ n.id=id)
    (hmatch : ∀ n,Stored st n → hasProperties n.properties props=true → Q n.id)
    (hordered : ids.Pairwise fun a b => Q a → Q b → a<b) : ∃ found,firstListedMatch st props ids=.ok found ∧
    Least (fun n => Stored st n ∧ n.id∈ids ∧ hasProperties n.properties props=true) found := by
  induction ids with
  | nil => exact ⟨none,rfl,fun _ h => absurd h (by simp),fun _ m hm => absurd hm.2.1 List.not_mem_nil⟩
  | cons id rest ih =>
    have ⟨hfront,hrest⟩ := List.pairwise_cons.mp hordered
    have ⟨found,hfound,hleast⟩ := ih (fun other hother => hids other (List.mem_cons_of_mem _ hother)) hrest
    have ⟨m,hm,hid⟩ := hids id List.mem_cons_self
    have hread : getNode st id=.ok m := by
      rw [←hid]
      exact hm
    have hhead : ∀ n,Stored st n → n.id=id → n=m := fun n hn hsame =>
      stored_inj hn hm (hsame.trans hid.symm)
    rw [firstListedMatch,bind_of_ok hread]
    by_cases htest : hasProperties m.properties props=true
    · rw [if_pos htest]
      refine ⟨some m,rfl,fun n hn => ?_,fun h => absurd h (by simp)⟩
      rw [←Option.some.inj hn]
      refine ⟨⟨hm,hid ▸ List.mem_cons_self,htest⟩,fun other hother => ?_⟩
      have ⟨hstored,hin,hprops⟩ := hother
      rcases List.mem_cons.mp hin with hsame|hin
      · rw [hid,hsame]
      · rw [hid]
        exact (hfront other.id hin (hid ▸ hmatch m hm htest) (hmatch other hstored hprops)).le
    · rw [if_neg htest]
      have hkind : ∀ n,(Stored st n ∧ n.id∈id::rest ∧ hasProperties n.properties props=true) ↔
          Stored st n ∧ n.id∈rest ∧ hasProperties n.properties props=true := by
        intro n
        rw [List.mem_cons]
        constructor
        · intro h
          have ⟨hn,hin,hprops⟩ := h
          rcases hin with hsame|hin
          · rw [hhead n hn hsame] at hprops
            exact absurd hprops htest
          · exact ⟨hn,hin,hprops⟩
        · intro h
          exact ⟨h.1,Or.inr h.2.1,h.2.2⟩
      simp only [hkind]
      exact ⟨found,hfound,hleast⟩

theorem mem_labelScan (hnodes : NodesOk st) : n∈findNodesByLabel st label ↔ Stored st n ∧
    (label = "" ∨ labelColumnMatches label (String.intercalate ":" n.labels)=true) := by
  unfold findNodesByLabel
  rw [List.mem_map]
  constructor
  · intro h
    obtain ⟨⟨id,row⟩,hrow,hn⟩ := h
    obtain ⟨hmem,htest⟩ := List.mem_filter.mp hrow
    have hget : get st.nodes id=some row := get_eq_some.mpr hmem
    have hcolumn := hnodes.columns id row hget
    rw [←hn]
    constructor
    · rw [stored_iff,recordAt,hget]
      rfl
    · rw [←hcolumn]
      simpa using htest
  · intro h
    obtain ⟨hstored,htest⟩ := h
    obtain ⟨row,hget,hn⟩ := getNode_ok hstored
    have hlabels : n.labels=row.value.labels := by rw [hn]
    rw [hlabels,←hnodes.columns n.id row hget] at htest
    exact ⟨(n.id,row),List.mem_filter.mpr ⟨get_eq_some.mp hget,by simpa using htest⟩,hn.symm⟩

theorem labelScan_ordered (st : Store) (label : String) :
    (findNodesByLabel st label).Pairwise fun a b => a.id<b.id := by
  unfold findNodesByLabel
  rw [List.pairwise_map]
  exact st.nodes.ordered.filter _

theorem least_of_find {l : List Node} (hordered : l.Pairwise fun a b => a.id<b.id) (p : Node → Bool) :
    Least (fun n => n∈l ∧ p n=true) (l.find? p) := by
  induction l with
  | nil => exact ⟨fun _ h => absurd h (by simp),fun _ m hm => absurd hm.1 List.not_mem_nil⟩
  | cons head rest ih =>
    have ⟨hfront,hrest⟩ := List.pairwise_cons.mp hordered
    by_cases htest : p head=true
    · rw [List.find?_cons_of_pos htest]
      refine ⟨fun n hn => ?_,fun h => absurd h (by simp)⟩
      rw [←Option.some.inj hn]
      refine ⟨⟨List.mem_cons_self,htest⟩,fun m hm => ?_⟩
      rcases List.mem_cons.mp hm.1 with hsame|hin
      · rw [hsame]
      · exact (hfront m hin).le
    · rw [List.find?_cons_of_neg htest]
      have hkind : ∀ n,(n∈head::rest ∧ p n=true) ↔ n∈rest ∧ p n=true := by
        intro n
        rw [List.mem_cons]
        constructor
        · intro h
          rcases h.1 with hsame|hin
          · exact absurd (hsame ▸ h.2) htest
          · exact ⟨hin,h.2⟩
        · intro h
          exact ⟨Or.inr h.1,h.2⟩
      simp only [hkind]
      exact ih hrest

/-- Without an index the candidates are the scanned nodes with the properties. -/
theorem candidate_of_scan (hnodes : NodesOk st) (hplain : ¬Covered st label props) :
    Candidate st label props n ↔ n∈findNodesByLabel st label ∧ hasProperties n.properties props=true := by
  rw [mem_labelScan hnodes]
  constructor
  · intro h
    exact ⟨⟨h.stored,h.label.scan hplain⟩,h.properties⟩
  · intro h
    exact ⟨h.1.1,h.2,fun hcovered => absurd hcovered hplain,fun _ => h.1.2⟩

theorem candidate_of_lookup (hbytes : SameBytes env.enc props) {entry : String×Value} (hentry : entry∈props)
    (hcovered : Covered st label props) (hcarry : ∀ id∈ids,∃ n,Stored st n ∧ n.id=id ∧ label∈n.labels)
    (hall : ∀ n,Stored st n → label∈n.labels → Hit env.enc st entry.1 entry.2 n.id → n.id∈ids) :
    Candidate st label props n ↔ Stored st n ∧ n.id∈ids ∧ hasProperties n.properties props=true := by
  constructor
  · intro h
    have ⟨held,hread,hequal⟩ := hasProperties_iff.mp h.properties entry hentry
    exact ⟨h.stored,hall n h.stored (h.label.index hcovered)
      ⟨n,h.stored,rfl,held,hread,hbytes entry hentry held hequal⟩,h.properties⟩
  · intro h
    have ⟨hstored,hin,hprops⟩ := h
    have ⟨m,hm,hid,hlabel⟩ := hcarry n.id hin
    rw [stored_inj hm hstored hid] at hlabel
    exact ⟨hstored,hprops,fun _ => hlabel,fun hplain => absurd hcovered hplain⟩

theorem findMergeMatches_ok (h : Indexed env.enc st) (hbytes : SameBytes env.enc props) (label : String) :
    ∃ ns,findMergeMatchesByLabelAndProps env st label props=.ok ns ∧
      ∀ n,n∈ns ↔ Candidate st label props n := by
  have ⟨hsome,hnone⟩ := indexedProperty_spec h.mirror.names label props
  unfold findMergeMatchesByLabelAndProps
  cases hchoice : indexedProperty st label props with
  | none =>
    refine ⟨_,rfl,fun n => ?_⟩
    rw [List.mem_filter,candidate_of_scan h.nodes (hnone hchoice)]
  | some entry =>
    have ⟨key,value⟩ := entry
    have ⟨hentry,hdef,hkey⟩ := hsome _ hchoice
    have ⟨ids,hids,hcarry,hall,_⟩ := indexLookup_ok h.mirror value hdef hkey
    have ⟨ns,hns,hmem⟩ := listedMatches_ok props fun id hid =>
      (hcarry id hid).imp fun n hn => ⟨hn.1,hn.2.1⟩
    refine ⟨ns,?_,fun n => ?_⟩
    · dsimp only
      rw [bind_of_ok hids,hns]
    · rw [hmem,candidate_of_lookup hbytes hentry ⟨_,hentry,hdef,hkey⟩ hcarry hall]

theorem findMergeMatchEvaluated_ok (h : Indexed env.enc st) (hbytes : SameBytes env.enc props) (label : String) :
    ∃ found,findMergeMatchEvaluated env st label props=.ok found ∧
      Least (Candidate st label props) found := by
  have ⟨hsome,hnone⟩ := indexedProperty_spec h.mirror.names label props
  unfold findMergeMatchEvaluated
  cases hchoice : indexedProperty st label props with
  | none =>
    have hkind : ∀ n,Candidate st label props n ↔ _ := fun n =>
      candidate_of_scan h.nodes (hnone hchoice)
    refine ⟨_,rfl,?_⟩
    have hleast := least_of_find (labelScan_ordered st label) fun n => hasProperties n.properties props
    exact ⟨fun n hn => ⟨(hkind n).mpr (hleast.some_ n hn).1,fun m hm =>
      (hleast.some_ n hn).2 m ((hkind m).mp hm)⟩,fun hn m hm => hleast.none_ hn m ((hkind m).mp hm)⟩
  | some entry =>
    have ⟨key,value⟩ := entry
    have ⟨hentry,hdef,hkey⟩ := hsome _ hchoice
    have ⟨ids,hids,hcarry,hall,hordered⟩ := indexLookup_ok h.mirror value hdef hkey
    have hkind : ∀ n,Candidate st label props n ↔ _ := fun n =>
      candidate_of_lookup hbytes hentry ⟨_,hentry,hdef,hkey⟩ hcarry hall
    have hmatch : ∀ n,Stored st n → hasProperties n.properties props=true →
        Hit env.enc st key value n.id := by
      intro n hn hprops
      have ⟨held,hread,hequal⟩ := hasProperties_iff.mp hprops _ hentry
      exact ⟨n,hn,rfl,held,hread,hbytes _ hentry held hequal⟩
    have ⟨found,hfound,hleast⟩ := firstListedMatch_ok
      (fun id hid => (hcarry id hid).imp fun n hn => ⟨hn.1,hn.2.1⟩) hmatch hordered
    refine ⟨found,?_,?_⟩
    · dsimp only
      rw [bind_of_ok hids,hfound]
    · exact ⟨fun n hn => ⟨(hkind n).mpr (hleast.some_ n hn).1,fun m hm =>
        (hleast.some_ n hn).2 m ((hkind m).mp hm)⟩,fun hn m hm => hleast.none_ hn m ((hkind m).mp hm)⟩

/-- The search for a node with all labels returns a candidate with them when there is one. -/
theorem findMergeMatchMultiLabel_ok (h : Indexed env.enc st) (hbytes : SameBytes env.enc props)
    (labels : List String) :
    ∃ found,findMergeMatchMultiLabel env st labels props=.ok found ∧
      (∀ n,found=some n → Candidate st (labels.head?.getD "") props n ∧ ∀ l∈labels,l∈n.labels) ∧
      (found=none → ∀ n,Candidate st (labels.head?.getD "") props n → ¬∀ l∈labels,l∈n.labels) := by
  have ⟨ns,hns,hmem⟩ := findMergeMatches_ok h hbytes (labels.head?.getD "")
  have htest : ∀ n : Node,(labels.all fun label => n.labels.contains label)=true ↔ ∀ l∈labels,l∈n.labels := by
    intro n
    simp
  unfold findMergeMatchMultiLabel
  refine ⟨_,by rw [bind_of_ok hns]; rfl,fun n hn => ?_,fun hn n hcandidate => ?_⟩
  · have hall := List.find?_some hn
    exact ⟨(hmem n).mp (List.mem_of_find?_eq_some hn),(htest n).mp hall⟩
  · rw [←htest n]
    exact List.find?_eq_none.mp hn n ((hmem n).mpr hcandidate)

end Finders

section Creation

variable {E : Type} {env : ExecEnv E} {st st' : Store} {labels : List String} {props : Properties}

/-- The node that a creation stores. -/
def newNode (st : Store) (labels : List String) (props : Properties) : Node :=
  ⟨nodeIdCounter st,labels.insertionSort (· ≤ ·),props⟩

/-- A creation adds one node after all others and leaves the relationships. -/
structure NodeAdded (enc : Value → Bytes) (labels : List String) (props : Properties) (st st' : Store) :
    Prop where
  /-- The names were checked. -/
  checked : CheckedNode labels props
  /-- Exactly one node is added. -/
  stored : ∀ n,Stored st' n ↔ Stored st n ∨ n=newNode st labels props
  /-- Stored identifiers were handed out before. -/
  older : ∀ n,Stored st n → n.id<nodeIdCounter st
  /-- One identifier is handed out. -/
  next : nodeIdCounter st'=nodeIdCounter st+1
  /-- No index appears or disappears. -/
  indexes : ∀ name,name∈keys st'.indexTables ↔ name∈keys st.indexTables
  /-- The relationships stay. -/
  edges : SameEdges st st'
  /-- The indexes mirror the nodes again. -/
  ok : Indexed enc st'

variable {id : NodeId} {st₁ : Store} {found : List String}

theorem createNode_written (h : NodesOk st) (hrun : createNode labels props st=(.ok id,st₁)) :
    CheckedNode labels props ∧ id=nodeIdCounter st ∧ recordAt st id=none ∧ nodeIdCounter st₁=nodeIdCounter st+1 ∧
    RecordWritten id (some ⟨labels.insertionSort (· ≤ ·),props⟩) st st₁ := by
  have hchecked : CheckedNode labels props := by
    by_contra hnames
    obtain ⟨e,herror⟩ := createNode_rejected hnames st
    rw [hrun] at herror
    cases herror
  obtain ⟨raw,hraw,hlen⟩ := h.counter
  have hroom : nodeIdCounter st≠0xFFFFFFFFFFFFFFFF := by
    intro hfull
    rw [createNode_exhausted hchecked hraw hlen hfull] at hrun
    cases hrun
  have hadd := createNode_ok hchecked hraw hlen hroom
  rw [hrun] at hadd
  obtain ⟨hid,hst⟩ : id=nodeIdCounter st ∧ st₁=addNode st labels props := by simpa using hadd
  have hcounter : nodeIdCounter st₁=nodeIdCounter st+1 := by
    have hnext := (unseen_foldl unseen_incrementLabelCount (labels.insertionSort (· ≤ ·))
      (putNode {st with metadata := put st.metadata nextNodeIdKey (toBeBytes (nodeIdCounter st+1))}
        (nodeIdCounter st) ⟨labels.insertionSort (· ≤ ·),props⟩)).next
    have hmeta : (putNode {st with metadata := put st.metadata nextNodeIdKey (toBeBytes (nodeIdCounter st+1))}
        (nodeIdCounter st) ⟨labels.insertionSort (· ≤ ·),props⟩).metadata=
        put st.metadata nextNodeIdKey (toBeBytes (nodeIdCounter st+1)) := rfl
    rw [hst,addNode,nodeIdCounter,counterValue,hnext,hmeta,get_put_self]
    dsimp only
    rw [List.take_of_length_le (by simp),fromBeBytes_toBeBytes]
  rcases createNode_spec h labels props with ⟨e,herror⟩|⟨other,st₂,hspec,hfresh,hwritten⟩
  · rw [hrun] at herror
    cases herror
  · rw [hrun] at hspec
    obtain ⟨hother,hst₂⟩ : id=other ∧ st₁=st₂ := by simpa using hspec
    rw [←hother] at hfresh hwritten
    rw [←hst₂] at hwritten
    exact ⟨hchecked,hid,hfresh,hcounter,hwritten⟩

/-- Maintenance rewrites the index tables of the labels and touches full-text tables. -/
theorem maintainNode_written (env : ExecEnv E) (hnames : WellNamed st₁) (id : NodeId) (labels : List String)
    (old : Option Properties) (new : Properties) : ∃ st₂,Refreshed (fun l _ => decide (l∈labels))
    (refreshRows env.enc id old (some new)) st₁ st₂ ∧
    (maintainNode env id labels old new st₁).2=
    {st₂ with ftsTables := (maintainNode env id labels old new st₁).2.ftsTables} := by
  have ⟨st₂,hrun,href⟩ : ∃ st₂,updateIndexesForNode env.enc id labels old new st₁=(.ok (),st₂) ∧
      Refreshed (fun l _ => decide (l∈labels)) (refreshRows env.enc id old (some new)) st₁ st₂ :=
    updateIndexesForNode_ok hnames id labels old new
  have hkeeps : Keeps (fun other : Store => other={st₂ with ftsTables := other.ftsTables})
      (updateFtsForNode env.engine id labels old new) := by
    refine keeps_updateFtsForNode (fun other ftsTables hother => ?_) env.engine id labels old new
    rw [hother]
  refine ⟨st₂,href,?_⟩
  unfold maintainNode
  rw [bind_ok hrun]
  exact hkeeps st₂ rfl

theorem createIndexedNode_added (h : Indexed env.enc st)
    (hrun : createIndexedNode env labels props st=(.ok id,st')) :
    id=nodeIdCounter st ∧ NodeAdded env.enc labels props st st' := by
  unfold createIndexedNode at hrun
  obtain ⟨other,st₁,hcreate,hrest⟩ := ok_of_bind hrun
  obtain ⟨u,st₂,hmaintain,hpure⟩ := ok_of_bind hrest
  obtain ⟨hid,hst⟩ : other=id ∧ st₂=st' := by simpa using hpure
  rw [hid] at hcreate hmaintain
  rw [hst] at hmaintain
  obtain ⟨hchecked,hcounter,hfresh,hnext,hw⟩ := createNode_written h.nodes hcreate
  have hbefore : Mirrors env.enc st₁ (recordAt st) := h.mirror.congr hw.indexTables fun _ => rfl
  obtain ⟨st₃,href,hfts⟩ := maintainNode_written env hbefore.names id labels none props
  rw [hmaintain] at hfts
  dsimp only at hfts
  have hmem : ∀ l,l∈labels.insertionSort (· ≤ ·) ↔ l∈labels :=
    fun l => (List.perm_insertionSort _ labels).mem_iff
  have hafter := hbefore.refreshed (r:=some ⟨labels.insertionSort (· ≤ ·),props⟩) href
    (fun l p hl key => by
      rw [hfresh,nodeRow,nodeRow]
      dsimp only
      rw [if_pos ((hmem l).mpr hl)]
      simp)
    (fun l p hl => by
      rw [hfresh,nodeRow,nodeRow]
      dsimp only
      rw [if_neg fun hx => hl ((hmem l).mp hx)])
  have hnodes : st'.nodes=st₁.nodes := by rw [hfts,href.rest]
  have hmeta : st'.metadata=st₁.metadata := by rw [hfts,href.rest]
  have htables : st'.indexTables=st₃.indexTables := by rw [hfts]
  have hrecord : ∀ other,recordAt st' other=
      if other=id then some ⟨labels.insertionSort (· ≤ ·),props⟩ else recordAt st other := by
    intro other
    rw [recordAt,hnodes]
    exact hw.view other
  have hok : NodesOk st' := by
    rw [hfts,href.rest]
    exact hw.ok.withTables _ _
  have hedges : SameEdges st st' := by
    have hcreated := sameEdges_createNode st labels props
    rw [hcreate] at hcreated
    have hkept := keepsEdges_maintainNode env st id labels none props st₁ hcreated
    rw [hmaintain] at hkept
    exact hkept
  refine ⟨hcounter,hchecked,fun n => ?_,fun n hn => ?_,?_,fun name => ?_,hedges,hok,?_⟩
  · rw [stored_iff,stored_iff,hrecord]
    constructor
    · intro hn
      by_cases hsame : n.id=id
      · rw [if_pos hsame] at hn
        obtain ⟨hlabels,hprops⟩ : labels.insertionSort (· ≤ ·)=n.labels ∧ props=n.properties := by
          simpa using hn
        right
        rw [newNode,hlabels,hprops,←hcounter,←hsame]
      · rw [if_neg hsame] at hn
        exact Or.inl hn
    · intro hn
      rcases hn with hn|hn
      · have hne : n.id≠id := by
          intro hsame
          rw [hsame,hfresh] at hn
          cases hn
        rw [if_neg hne]
        exact hn
      · have hsame : n.id=id := by rw [hn,hcounter,newNode]
        rw [if_pos hsame,hn,newNode]
  · exact h.nodes.id_lt (stored_iff.mp hn)
  · rw [nodeIdCounter,counterValue,hmeta]
    exact hnext
  · rw [htables,href.names,hw.indexTables]
  · exact hafter.congr htables hrecord

theorem not_covered_empty (st : Store) (tested : Properties) : ¬Covered st "" tested := by
  intro hcovered
  have ⟨entry,_,hdef,_⟩ := hcovered
  exact ne_empty_of_validName hdef.label rfl

theorem NodeAdded.covered (h : NodeAdded env.enc labels props st st') (label : String) (tested : Properties) :
    Covered st' label tested ↔ Covered st label tested := by
  unfold Covered
  simp only [h.indexes]

variable {label : String} {tested : Properties}

theorem NodeAdded.labelPasses (h : NodeAdded env.enc labels props st st') :
    LabelPasses st' label tested found ↔ LabelPasses st label tested found := by
  have hcovered := h.covered label tested
  constructor
  · intro hpasses
    exact ⟨fun hc => hpasses.index (hcovered.mpr hc),fun hc => hpasses.scan fun hx => hc (hcovered.mp hx)⟩
  · intro hpasses
    exact ⟨fun hc => hpasses.index (hcovered.mp hc),fun hc => hpasses.scan fun hx => hc (hcovered.mpr hx)⟩

theorem NodeAdded.candidate (h : NodeAdded env.enc labels props st st') {n : Node} :
    Candidate st' label tested n ↔ (Stored st n ∨ n=newNode st labels props) ∧
    hasProperties n.properties tested=true ∧ LabelPasses st label tested n.labels := by
  constructor
  · intro hn
    exact ⟨(h.stored n).mp hn.stored,hn.properties,h.labelPasses.mp hn.label⟩
  · intro hn
    exact ⟨(h.stored n).mpr hn.1,hn.2.1,h.labelPasses.mpr hn.2.2⟩

/-- Carriers of the label pass every search for it, and every node passes without a label. -/
theorem labelPasses_of_carries (hlabel : label = "" ∨ label∈found) : LabelPasses st label tested found := by
  rcases hlabel with hempty|hcarries
  · rw [hempty]
    exact ⟨fun hcovered => absurd hcovered (not_covered_empty st tested),fun _ => Or.inl rfl⟩
  · exact ⟨fun _ => hcarries,fun _ => Or.inr (labelColumnMatches_of_mem hcarries)⟩

theorem NodeAdded.own (h : NodeAdded env.enc labels props st st') (hself : hasProperties props props=true)
    (hlabel : label = "" ∨ label∈labels) : Candidate st' label props (newNode st labels props) := by
  refine h.candidate.mpr ⟨Or.inr rfl,hself,labelPasses_of_carries ?_⟩
  rcases hlabel with hempty|hcarries
  · exact Or.inl hempty
  · exact Or.inr ((List.perm_insertionSort _ labels).mem_iff.mpr hcarries)

end Creation

section Relationships

variable {st st' : Store} {s d : NodeId} {l : String} {props : Properties}

/-- A relationship of the type joins the nodes and holds the properties. -/
def Joined (st : Store) (s d : NodeId) (l : String) (props : Properties) : Prop :=
  ∃ q found,get st.edgeProps (edgePropsKey s d l q)=some found ∧ hasProperties found props=true

theorem edgePropsKey_eq (s d : NodeId) (l : String) (q : UInt64) :
    edgePropsKey s d l q=edgePropsPrefix s d l++toBeBytes q := by
  simp [edgePropsKey,edgePropsPrefix]

variable {key : Bytes} {found : Properties} {a b : NodeId}

theorem mem_parallelRows (h : EdgeInv st) (hl : isValidName l=true) :
    (key,found)∈scanPrefix st.edgeProps (edgePropsPrefix s d l) ↔ get st.edgeProps key=some found ∧
    ∃ q,key=edgePropsKey s d l q := by
  rw [scanPrefix_eq_scan,mem_scan]
  constructor
  · intro hrow
    exact ⟨hrow.1,(h.prefix_iff hl (mem_keys.mpr ⟨found,hrow.1⟩)).mp hrow.2⟩
  · intro hrow
    exact ⟨hrow.1,(h.prefix_iff hl (mem_keys.mpr ⟨found,hrow.1⟩)).mpr hrow.2⟩

theorem findMatchingEdges_iff (h : EdgeInv st) (hl : isValidName l=true) :
    findMatchingEdges st s d l props≠[] ↔ Joined st s d l props := by
  unfold findMatchingEdges getAllEdgeProps
  dsimp only
  rw [ne_eq,List.map_eq_nil_iff,List.filter_eq_nil_iff,not_forall]
  constructor
  · intro hfound
    have ⟨e,hfound⟩ := hfound
    have ⟨hmem,htest⟩ := Classical.not_imp.mp hfound
    have ⟨⟨key,found⟩,hrow,he⟩ := List.mem_map.mp hmem
    have ⟨hget,q,hkey⟩ := (mem_parallelRows h hl).mp hrow
    rw [hkey] at hget
    rw [←he] at htest
    exact ⟨q,found,hget,not_not.mp htest⟩
  · intro hjoined
    have ⟨q,found,hget,hprops⟩ := hjoined
    refine ⟨(edgeSeqFromKey (edgePropsKey s d l q) (edgePropsPrefix s d l).length,found),fun hnot => ?_⟩
    exact hnot (List.mem_map.mpr ⟨_,(mem_parallelRows h hl).mpr ⟨hget,q,rfl⟩,rfl⟩) hprops

theorem matchedEdges_iff (h : EdgeInv st) (hl : isValidName l=true) (direction : RelDirection) :
    matchedEdges st direction s d l props≠[] ↔
      Joined st s d l props ∨ direction=.undirected ∧ Joined st d s l props := by
  have hforward : findMatchingEdges st s d l props≠[] ↔ _ := findMatchingEdges_iff h hl
  have hbackward : findMatchingEdges st d s l props≠[] ↔ _ := findMatchingEdges_iff h hl
  unfold matchedEdges
  rw [ne_eq,List.append_eq_nil_iff,←hforward,←hbackward]
  split_ifs with hdirection
  · simp only [hdirection,true_and]
    tauto
  · simp [hdirection]

theorem ends_of_matchedEdges {direction : RelDirection} {e : MergedEdge}
    (h : e∈matchedEdges st direction s d l props) : e.src=s ∧ e.dst=d ∨ e.src=d ∧ e.dst=s := by
  have hends : ∀ {a b : NodeId},e∈findMatchingEdges st a b l props → e.src=a ∧ e.dst=b := by
    intro a b hmem
    have ⟨found,_,he⟩ := List.mem_map.mp hmem
    rw [←he]
    exact ⟨rfl,rfl⟩
  rcases List.mem_append.mp h with hforward|hbackward
  · exact Or.inl (hends hforward)
  · split_ifs at hbackward
    · exact Or.inr (hends hbackward)
    · exact absurd hbackward List.not_mem_nil

theorem createEdge_added (h : EdgeInv st) (hrun : createEdge s d l props st=(.ok (),st')) :
    isValidName l=true ∧ edgeSeqCounter st≠0xFFFFFFFFFFFFFFFF ∧ st'=addEdge st s d l props := by
  by_cases hnames : CheckedNames l props
  · by_cases hfull : edgeSeqCounter st=0xFFFFFFFFFFFFFFFF
    · rw [createEdge_exhausted hnames h.counter hfull] at hrun
      exact absurd (Prod.mk.inj hrun).1 (by simp)
    · rw [createEdge_ok hnames h.counter hfull] at hrun
      exact ⟨hnames.1,hfull,(Prod.mk.inj hrun).2.symm⟩
  · obtain ⟨e,herror⟩ := createEdge_rejected hnames st
    rw [herror] at hrun
    exact absurd (Prod.mk.inj hrun).1 (by simp)

theorem get_addEdge (st : Store) (s d : NodeId) (l : String) (props : Properties) (key : Bytes) :
    get (addEdge st s d l props).edgeProps key=
      if key=edgePropsKey s d l (edgeSeqCounter st) then some props else get st.edgeProps key := by
  change get (put st.edgeProps (edgePropsKey s d l (edgeSeqCounter st)) props) key=_
  rw [get_put]
  split_ifs <;> rfl

theorem get_addEdge_old (h : EdgeInv st) (hget : get st.edgeProps key=some found) :
    get (addEdge st s d l props).edgeProps key=some found := by
  have hne : key≠edgePropsKey s d l (edgeSeqCounter st) := by
    intro hkey
    rw [hkey] at hget
    exact h.fresh s d l (mem_keys.mpr ⟨found,hget⟩)
  rw [get_addEdge,if_neg hne]
  exact hget

theorem Joined.added (h : EdgeInv st) {other tested : _} (hjoined : Joined st a b other tested) :
    Joined (addEdge st s d l props) a b other tested := by
  have ⟨q,found,hget,hprops⟩ := hjoined
  exact ⟨q,found,get_addEdge_old h hget,hprops⟩

theorem joined_addEdge (st : Store) (s d : NodeId) (l : String) (hself : hasProperties props props=true) :
    Joined (addEdge st s d l props) s d l props :=
  ⟨edgeSeqCounter st,props,by rw [get_addEdge,if_pos rfl],hself⟩

/-- The sequence number that is used without one is the least, and the properties that are
read without one are stored there. -/
theorem firstEdgeSeq_spec (h : EdgeInv st) (hl : isValidName l=true) (hedge : HasEdge st s d l) :
    get st.edgeProps (edgePropsKey s d l (firstEdgeSeq st s d l))=some (getEdgeProperties st s d l) ∧
      ∀ other found,get st.edgeProps (edgePropsKey s d l other)=some found → firstEdgeSeq st s d l≤other := by
  have ⟨q₀,hq₀⟩ := hedge
  have ⟨found₀,hget₀⟩ := mem_keys.mp hq₀
  have hmem : (edgePropsKey s d l q₀,found₀)∈scanPrefix st.edgeProps (edgePropsPrefix s d l) :=
    (mem_parallelRows h hl).mpr ⟨hget₀,q₀,rfl⟩
  have hordered : (scanPrefix st.edgeProps (edgePropsPrefix s d l)).Pairwise fun a b => a.1<b.1 := by
    rw [scanPrefix_eq_scan]
    exact st.edgeProps.ordered.filter _
  cases hrows : scanPrefix st.edgeProps (edgePropsPrefix s d l) with
  | nil =>
    rw [hrows] at hmem
    exact absurd hmem List.not_mem_nil
  | cons first rest =>
    rw [hrows] at hordered
    have ⟨key,found⟩ := first
    have hfirst : (key,found)∈scanPrefix st.edgeProps (edgePropsPrefix s d l) := by
      rw [hrows]
      exact List.mem_cons_self
    have ⟨hget,q,hkey⟩ := (mem_parallelRows h hl).mp hfirst
    have hread : getEdgeProperties st s d l=found := by
      rw [getEdgeProperties,hrows]
    have hseq : firstEdgeSeq st s d l=q := by
      rw [firstEdgeSeq,hrows]
      dsimp only
      rw [hkey,edgeSeqFromKey_edgePropsKey]
    rw [hkey] at hget
    rw [hseq,hread]
    refine ⟨hget,fun other found' hother => ?_⟩
    have hin : (edgePropsKey s d l other,found')∈scanPrefix st.edgeProps (edgePropsPrefix s d l) :=
      (mem_parallelRows h hl).mpr ⟨hother,other,rfl⟩
    rw [hrows] at hin
    rcases List.mem_cons.mp hin with hhead|htail
    · rw [hkey] at hhead
      exact (edgePropsKey_inj.mp (Prod.mk.inj hhead).1).2.2.2.ge
    · have hlt := (List.pairwise_cons.mp hordered).1 _ htail
      rw [hkey,edgePropsKey_eq,edgePropsKey_eq] at hlt
      exact (lt_of_toBeBytes_lt (append_lt_append_iff.mp hlt)).le

theorem firstEdgeSeq_addEdge_old (h : EdgeInv st) (hl : isValidName l=true)
    (hroom : edgeSeqCounter st≠0xFFFFFFFFFFFFFFFF) (props : Properties) {k : String} (hedge : HasEdge st a b k) :
    firstEdgeSeq (addEdge st s d l props) a b k=firstEdgeSeq st a b k := by
  have hk := h.validName_of_hasEdge hedge
  have hnew : HasEdge (addEdge st s d l props) a b k := (hasEdge_addEdge st s d a b l k props).mpr (Or.inr hedge)
  have ⟨hget,hfirst⟩ := firstEdgeSeq_spec (h.addEdge s d hl props hroom) hk hnew
  have ⟨hget₀,hfirst₀⟩ := firstEdgeSeq_spec h hk hedge
  have hle := hfirst _ _ (get_addEdge_old h hget₀)
  have ⟨s',d',l',q',_,hkey,hlt⟩ := h.rows _ (mem_keys.mpr ⟨_,hget₀⟩)
  rw [←(edgePropsKey_inj.mp hkey).2.2.2] at hlt
  have hne : edgePropsKey a b k (firstEdgeSeq (addEdge st s d l props) a b k)≠
      edgePropsKey s d l (edgeSeqCounter st) := by
    intro hsame
    rw [(edgePropsKey_inj.mp hsame).2.2.2] at hle
    exact absurd (lt_of_lt_of_le hlt hle) (lt_irrefl _)
  rw [get_addEdge,if_neg hne] at hget
  exact le_antisymm hle (hfirst₀ _ _ hget)

theorem firstEdgeSeq_addEdge (h : EdgeInv st) (hl : isValidName l=true)
    (hroom : edgeSeqCounter st≠0xFFFFFFFFFFFFFFFF) (props : Properties) (hnone : ¬HasEdge st s d l) :
    firstEdgeSeq (addEdge st s d l props) s d l=edgeSeqCounter st := by
  have hnew : HasEdge (addEdge st s d l props) s d l := by
    rw [hasEdge_addEdge]
    exact Or.inl ⟨rfl,rfl,rfl⟩
  have ⟨hget,_⟩ := firstEdgeSeq_spec (h.addEdge s d hl props hroom) hl hnew
  rw [get_addEdge] at hget
  split_ifs at hget with hsame
  · exact (edgePropsKey_inj.mp hsame).2.2.2
  · exact absurd ⟨_,mem_keys.mpr ⟨_,hget⟩⟩ hnone

/-- A new relationship is read without a sequence number only when it is the first one. -/
theorem getEdgeProperties_addEdge (h : EdgeInv st) (hl : isValidName l=true)
    (hroom : edgeSeqCounter st≠0xFFFFFFFFFFFFFFFF) (props : Properties) :
    (HasEdge st s d l → getEdgeProperties (addEdge st s d l props) s d l=getEdgeProperties st s d l) ∧
      (¬HasEdge st s d l → getEdgeProperties (addEdge st s d l props) s d l=props) := by
  have hnew : HasEdge (addEdge st s d l props) s d l := by
    rw [hasEdge_addEdge]
    exact Or.inl ⟨rfl,rfl,rfl⟩
  have ⟨hget,_⟩ := firstEdgeSeq_spec (h.addEdge s d hl props hroom) hl hnew
  constructor
  · intro hedge
    rw [firstEdgeSeq_addEdge_old h hl hroom props hedge,get_addEdge_old h (firstEdgeSeq_spec h hl hedge).1] at hget
    exact (Option.some.inj hget).symm
  · intro hnone
    rw [firstEdgeSeq_addEdge h hl hroom props hnone,get_addEdge,if_pos rfl] at hget
    exact (Option.some.inj hget).symm

/-- The test of MERGE without an input sees the first parallel relationship only. -/
theorem firstEdgeMatches_iff (h : EdgeInv st) :
    firstEdgeMatches st s d l props=true ↔
      HasEdge st s d l ∧ hasProperties (getEdgeProperties st s d l) props=true := by
  unfold firstEdgeMatches edgeExists
  rw [Bool.and_eq_true,decide_eq_true_eq,h.out]

end Relationships

end GraphDbLite.MergeSearch
