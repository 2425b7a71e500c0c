import GraphDbLite.FreshRows
import GraphDbLite.MergeSearch
import GraphDbLite.PropertyReads

/-!
# Writes to a bound relationship

CREATE and MERGE bind a variable to a relationship, and the items of ON CREATE SET and
ON MATCH SET write it at once. The row of a created relationship has no sequence number,
so that reads and writes through it find the first parallel one. They stay on the created
one when nothing joined its ends before and no item reads the variable.
-/

namespace GraphDbLite.RelationshipWrites

open ByteStrings GraphTypes OrderedTable StatefulActions LastWrites GraphStore EdgeStorage NodeStorage WriteOperators
open PropertySetters MergeOperators MergeSearch EdgeConsistency EdgePropertyFrame CypherSyntax CypherEval QueryExecutor
open FallibleLists NodeRecords RecordFields PropertyCopies Projection ValueEquality Quantifiers FreshRows Traversal
open PropertyReads (PlainComponents Described shown_of_binds access_shown get_foldl_props)

/-- A relationship with other properties. -/
def putEdge (st : Store) (key : Bytes) (props : Properties) : Store :=
  {st with edgeProps := put st.edgeProps key props}

/-- No name is one that rows use for metadata. -/
def Plain (props : Properties) : Prop := ∀ entry∈props,isInternal entry.1=false

section Items

variable {E : Type} (env : ExecEnv E)

/-- Properties with the entries of a map assigned one by one. -/
def assignAll (props entries : Properties) : Properties :=
  entries.foldl (fun props entry => withProperty props entry.1 entry.2) props

/-- The properties of a relationship after a SET item that is evaluated on a row. -/
def itemProps (st : Store) (row : NamedRecord) (props : Properties) : SetItem E → Result Properties
  | .property a => do
    let val ← env.eval st a.value row
    pure (withProperty props a.property val)
  | .label _ _ => .ok props
  | .mapMerge _ value => do
    let map ← resolveToMap env st value row
    pure (assignAll props map)
  | .mapOverwrite _ value => do
    let map ← resolveToMap env st value row
    pure (assignAll [] map)

variable (row : Store → NamedRecord) (key : Bytes)

/-- SET items on one relationship, each evaluated on the row of its time. -/
def setItems : List (SetItem E) → Store → Result Store
  | [],st => .ok st
  | item::rest,st => do
    let new ← itemProps env st (row st) (propsOf st (.edge key)) item
    setItems rest (putEdge st key new)

/-- SET items have the same values on the given row, and store no metadata names. -/
def ItemsMeet (rec : NamedRecord) : List (SetItem E) → Store → Prop
  | [],_ => True
  | item::rest,st =>
    itemProps env st rec (propsOf st (.edge key)) item=itemProps env st (row st) (propsOf st (.edge key)) item ∧
      ∀ new,itemProps env st (row st) (propsOf st (.edge key)) item=.ok new →
        Plain new ∧ ItemsMeet rec rest (putEdge st key new)

variable {env row key} {st st' : Store} {rec : NamedRecord}

theorem propsOf_putEdge (st : Store) (key : Bytes) (props : Properties) :
    propsOf (putEdge st key props) (.edge key)=props := by
  rw [propsOf,storedOf,putEdge]
  dsimp only
  rw [get_put_self]
  rfl

theorem putEdge_twice (st : Store) (key : Bytes) (props new : Properties) :
    putEdge (putEdge st key props) key new=putEdge st key new := by
  rw [putEdge,putEdge,putEdge]
  dsimp only
  rw [put_put]

variable {props : Properties}

theorem putEdge_same (h : get st.edgeProps key=some props) : putEdge st key props=st := by
  rw [putEdge,put_same h]

theorem removeAll_eq_nil {names : Properties} (h : ∀ entry∈props,entry.1∈names.map Prod.fst) :
    names.foldl (fun props entry => withProperty props entry.1 .null) props=[] := by
  induction names generalizing props with
  | nil => exact List.eq_nil_iff_forall_not_mem.mpr fun entry hentry => List.not_mem_nil (h entry hentry)
  | cons first rest ih =>
    apply ih
    intro entry hentry
    have ⟨hmem,hne⟩ := List.mem_filter.mp (show entry∈removeProp props first.1 from hentry)
    cases List.mem_cons.mp (h entry hmem) with
    | inl heq => exact absurd heq (by simpa using hne)
    | inr hrest => exact hrest

theorem applySetItem_spec {read : Store → Properties} {write : String → Value → Store → Store} {item : SetItem E}
    (hread : read (putEdge st key props)=props)
    (hwrite : ∀ old p v,write p v (putEdge st key old)=putEdge st key (withProperty old p v))
    (hrun : applySetItemToEdge env read write item rec (putEdge st key props)=(.ok (),st')) :
    ∃ new,itemProps env (putEdge st key props) rec props item=.ok new ∧ st'=putEdge st key new := by
  have hfold : ∀ (val : String×Value → Value) (entries old : Properties),
      entries.foldl (fun st entry => write entry.1 (val entry) st) (putEdge st key old)=
        putEdge st key (entries.foldl (fun props entry => withProperty props entry.1 (val entry)) old) := by
    intro val entries
    induction entries with
    | nil => exact fun _ => rfl
    | cons entry rest ih =>
      intro old
      rw [List.foldl_cons,hwrite,ih,List.foldl_cons]
  cases item with
  | property a =>
    have ⟨val,hval,hset⟩ := ok_of_inspect hrun
    refine ⟨withProperty props a.property val,?_,?_⟩
    · rw [itemProps,hval]
      rfl
    · exact (Prod.mk.inj hset).2.symm.trans (hwrite props a.property val)
  | label var labels => exact ⟨props,rfl,(Prod.mk.inj hrun).2.symm⟩
  | mapMerge var value =>
    have ⟨map,hmap,hset⟩ := ok_of_inspect hrun
    refine ⟨assignAll props map,?_,?_⟩
    · rw [itemProps,hmap]
      rfl
    · exact (Prod.mk.inj hset).2.symm.trans (hfold Prod.snd map props)
  | mapOverwrite var value =>
    have ⟨map,hmap,hrest⟩ := ok_of_inspect hrun
    have ⟨old,hold,hset⟩ := ok_of_inspect hrest
    have ⟨_,mid,hclear,hassign⟩ := ok_of_bind hset
    refine ⟨assignAll [] map,?_,?_⟩
    · rw [itemProps,hmap]
      rfl
    · have hnames : old=props := (Except.ok.inj hold).symm.trans hread
      have hmid : putEdge st key []=mid := by
        have hnone : props.foldl (fun props entry => withProperty props entry.1 .null) props=[] :=
          removeAll_eq_nil fun entry hentry => List.mem_map_of_mem hentry
        rw [←hnone,←hfold (fun _ => .null),←(Prod.mk.inj hclear).2,hnames]
      rw [←(Prod.mk.inj hassign).2,←hmid]
      exact hfold Prod.snd map []

theorem distinct_itemProps {new : Properties} {item : SetItem E} (h : DistinctNames props)
    (hitem : itemProps env st rec props item=.ok new) : DistinctNames new := by
  have hall : ∀ entries old,DistinctNames old → DistinctNames (assignAll old entries) := by
    intro entries
    induction entries with
    | nil => exact fun _ hold => hold
    | cons entry rest ih => exact fun old hold => ih _ (hold.withProperty entry.1 entry.2)
  cases item with
  | property a =>
    have ⟨val,_,hnew⟩ := exists_of_bind hitem
    rw [←Except.ok.inj hnew]
    exact h.withProperty _ _
  | label var labels =>
    rw [←Except.ok.inj hitem]
    exact h
  | mapMerge var value =>
    have ⟨map,_,hnew⟩ := exists_of_bind hitem
    rw [←Except.ok.inj hnew]
    exact hall map props h
  | mapOverwrite var value =>
    have ⟨map,_,hnew⟩ := exists_of_bind hitem
    rw [←Except.ok.inj hnew]
    exact hall map [] List.nodup_nil

/-- The SET items of the code, when they give the relationship the properties of the items. -/
theorem setItems_spec {body : SetItem E → Db Unit} {items : List (SetItem E)}
    (hbody : ∀ old item s,body item (putEdge st key old)=(.ok (),s) →
      ∃ new,itemProps env (putEdge st key old) rec old item=.ok new ∧ s=putEdge st key new)
    (hdistinct : DistinctNames props) (hplain : Plain props)
    (hmeet : ItemsMeet env row key rec items (putEdge st key props))
    (hrun : forEach items body (putEdge st key props)=(.ok (),st')) :
    setItems env row key items (putEdge st key props)=.ok st' ∧
      ∃ new,st'=putEdge st key new ∧ DistinctNames new ∧ Plain new := by
  induction items generalizing props with
  | nil =>
    have hst := (Prod.mk.inj hrun).2
    exact ⟨congrArg Except.ok hst,props,hst.symm,hdistinct,hplain⟩
  | cons item rest ih =>
    have ⟨_,mid,hfirst,hrest⟩ := ok_of_bind hrun
    have ⟨new,hnew,hmid⟩ := hbody props item mid hfirst
    have ⟨hsame,hnext⟩ := hmeet
    rw [propsOf_putEdge] at hsame hnext
    have hrow := hsame.symm.trans hnew
    have ⟨hnewPlain,hmeets⟩ := hnext new hrow
    rw [putEdge_twice] at hmeets
    rw [hmid] at hrest
    have ⟨hset,hresult⟩ := ih (distinct_itemProps hdistinct hnew) hnewPlain hmeets hrest
    refine ⟨?_,hresult⟩
    rw [setItems,propsOf_putEdge,hrow]
    change setItems env row key rest (putEdge (putEdge st key props) key new)=_
    rw [putEdge_twice]
    exact hset

end Items

section Stores

variable {st st' : Store} {key : Bytes}

/-- A database whose tables are well formed. -/
structure Ready (st : Store) : Prop where
  /-- The relationship tables agree. -/
  edges : EdgeInv st
  /-- Properties are maps. -/
  props : PropsDistinct st

theorem edgeInv_putEdge (h : EdgeInv st) (hkey : key∈keys st.edgeProps) (new : Properties) :
    EdgeInv (putEdge st key new) := by
  have hkeys : keys (putEdge st key new).edgeProps=keys st.edgeProps := keys_put_present hkey
  have hhas : ∀ s d l,HasEdge (putEdge st key new) s d l ↔ HasEdge st s d l := by
    intro s d l
    unfold HasEdge
    rw [hkeys]
  refine ⟨h.adjOut,h.adjIn,?_,fun s d l => (h.out s d l).trans (hhas s d l).symm,
    fun s d l => (h.inc s d l).trans (hhas s d l).symm,fun l => ?_,?_,h.counter⟩
  · rw [hkeys]
    exact h.rows
  · have hcount := h.counts l
    rw [countKeys] at hcount ⊢
    rw [hkeys]
    exact hcount
  · rw [hkeys]
    exact h.bound

/-- The first parallel relationship is still the first and has the properties that it was given. -/
theorem first_putEdge (h : EdgeInv st) {s d : NodeId} {l : String}
    (hfirst : edgePropsKey s d l (firstEdgeSeq st s d l)=key) (hkey : key∈keys st.edgeProps) (new : Properties) :
    firstEdgeSeq (putEdge st key new) s d l=firstEdgeSeq st s d l ∧
      getEdgeProperties (putEdge st key new) s d l=new := by
  have hkeys : keys (putEdge st key new).edgeProps=keys st.edgeProps := keys_put_present hkey
  have hsame := firstEdgeSeq_congr hkeys s d l
  have hhas : HasEdge (putEdge st key new) s d l := ⟨_,by rw [hkeys,hfirst]; exact hkey⟩
  have hinv := edgeInv_putEdge h hkey new
  have ⟨hget,_⟩ := firstEdgeSeq_spec hinv (hinv.validName_of_hasEdge hhas) hhas
  have hself : get (putEdge st key new).edgeProps key=some new := get_put_self _ _ _
  rw [hsame,hfirst,hself] at hget
  exact ⟨hsame,(Option.some.inj hget).symm⟩

theorem Ready.putEdge (h : Ready st) (hkey : key∈keys st.edgeProps) {new : Properties} (hnew : DistinctNames new) :
    Ready (putEdge st key new) := by
  refine ⟨edgeInv_putEdge h.edges hkey new,fun e props hprops => ?_⟩
  have hstored : storedOf (RelationshipWrites.putEdge st key new) e=_ := (rewrites_edge hkey "" [] new).stored e
  rw [hprops] at hstored
  split_ifs at hstored
  · rw [Option.some.inj hstored]
    exact hnew
  · exact h.props e props hstored.symm

theorem Ready.addEdge (h : Ready st) (s d : NodeId) {l : String} (hl : isValidName l=true)
    (hroom : edgeSeqCounter st≠0xFFFFFFFFFFFFFFFF) {new : Properties} (hnew : DistinctNames new) :
    Ready (addEdge st s d l new) := by
  refine ⟨h.edges.addEdge s d hl new hroom,fun e props hprops => ?_⟩
  cases e with
  | node id => exact h.props (.node id) props hprops
  | edge key =>
    rw [storedOf,get_addEdge] at hprops
    split_ifs at hprops
    · rw [←Option.some.inj hprops]
      exact hnew
    · exact h.props (.edge key) props hprops

theorem addEdge_eq_putEdge (st : Store) (s d : NodeId) (l : String) (props : Properties) :
    putEdge (addEdge st s d l props) (edgePropsKey s d l (edgeSeqCounter st)) props=addEdge st s d l props :=
  putEdge_same (by rw [get_addEdge,if_pos rfl])

end Stores

section Rows

variable {S : Type} (cypher : EvalEnv S) (r : String)

/-- A row is bound to a stored relationship and reads its properties. -/
structure Tied (st : Store) (row : NamedRecord) (key : Bytes) : Prop where
  /-- It is bound. -/
  bound : BoundTo st row r (.edge key)
  /-- It reads what is stored. -/
  reads : ∀ p,Readable p → evalProperty cypher st r p row=.ok (propOrNull (propsOf st (.edge key)) p)
  /-- It is a map. -/
  distinct : DistinctNames row.fields

variable {cypher r} {st st' : Store} {row rec : NamedRecord} {key : Bytes}

/-- A row stays tied when the same relationship is addressed and has the same properties. -/
theorem Tied.persists (h : Tied cypher r st row key) (hentity : entityAt st' row r=entityAt st row r)
    (hsame : storedOf st' (.edge key)=storedOf st (.edge key)) : Tied cypher r st' row key := by
  have hbound : BoundTo st' row r (.edge key) :=
    ⟨hentity.trans h.bound.addressed,by rw [hsame]; exact h.bound.stored,h.bound.alive,h.bound.present,
      h.bound.identified⟩
  have hprops : propsOf st' (.edge key)=propsOf st (.edge key) := by
    rw [propsOf,hsame,propsOf]
  refine ⟨hbound,fun p hp => ?_,h.distinct⟩
  rw [hbound.reads_iff cypher hp.notLabels,hprops]
  exact (h.bound.reads_iff cypher hp.notLabels).mp (h.reads p hp)

theorem Tied.addEdge (h : Tied cypher r st row key) (hst : Ready st) {s d : NodeId} {l : String}
    (hl : isValidName l=true) (hroom : edgeSeqCounter st≠0xFFFFFFFFFFFFFFFF) (props : Properties) :
    Tied cypher r (addEdge st s d l props) row key := by
  have ⟨old,hold⟩ := Option.isSome_iff_exists.mp h.bound.stored
  have haddressed := h.bound.addressed
  refine h.persists ?_ ((get_addEdge_old hst.edges hold).trans hold.symm)
  unfold entityAt at haddressed ⊢
  cases hedge : edgeIdentity row r with
  | none => rfl
  | some identity =>
    have ⟨a,b,k⟩ := identity
    rw [hedge] at haddressed
    have hkey := Entity.edge.inj (Option.some.inj haddressed)
    have hseq : edgeSeqOf row r a b k (EdgeStorage.addEdge st s d l props)=edgeSeqOf row r a b k st := by
      unfold edgeSeqOf
      cases edgeSeqField row r with
      | some seq => rfl
      | none =>
        have hhas : HasEdge st a b k := ⟨_,by rw [←addressedRow,hkey]; exact mem_keys.mpr ⟨old,hold⟩⟩
        exact firstEdgeSeq_addEdge_old hst.edges hl hroom props hhas
    dsimp only
    rw [addressedRow,hseq,addressedRow]

theorem Tied.rewrite (h : Tied cypher r st row key) (hkeys : keys st'.edgeProps=keys st.edgeProps)
    (hsame : get st'.edgeProps key=get st.edgeProps key) : Tied cypher r st' row key :=
  h.persists ((SameMetadata.refl row r).entityAt hkeys) hsame

theorem Tied.set (h : Tied cypher r st row key) {name : String} (hself : name≠r) (hunder : ∀ p,name≠r++("."++p))
    (value : Value) : Tied cypher r st (row.set name value) key := by
  have hget : ∀ p,(row.set name value).get (r++("."++p))=row.get (r++("."++p)) := fun p => get_set_ne (hunder p).symm
  have hmeta : SameMetadata row (row.set name value) r := ⟨get_set_ne hself.symm,fun p _ => hget p⟩
  have hbound := hmeta.boundTo rfl (fun _ => rfl) h.bound
  refine ⟨hbound,fun p hp => ?_,distinct_set h.distinct name value⟩
  rw [hbound.reads_iff cypher hp.notLabels,hget,hmeta.shows cypher]
  exact (h.bound.reads_iff cypher hp.notLabels).mp (h.reads p hp)

theorem get_bindMergedEdge (hbare : Bare rec r) (e : MergedEdge) (hdistinct : DistinctNames (e.properties st)) :
    (bindMergedEdge rec (some r) e st).get r=some (.string e.label) ∧
      ∀ p,(bindMergedEdge rec (some r) e st).get (r++("."++p))=(getProp (e.properties st) p).or
        (if p = "__edge_seq" then e.seq.map fun seq => .i64 seq.toInt64
          else if p = "__type" then some (.string e.label)
          else if p = "__dst" then some (.i64 e.dst.toInt64)
          else if p = "__src" then some (.i64 e.src.toInt64) else none) := by
  have hsrc : ".__src" = "."++"__src" := by decide
  have hdst : ".__dst" = "."++"__dst" := by decide
  have htype : ".__type" = "."++"__type" := by decide
  have hseq : ".__edge_seq" = "."++"__edge_seq" := by decide
  have hout : r∉(e.properties st).map fun entry => r++("."++entry.1) := by
    intro hin
    have ⟨entry,_,heq⟩ := List.mem_map.mp hin
    exact dotted_ne_self r entry.1 heq
  have hne : ∀ p,r≠r++("."++p) := fun p => (dotted_ne_self r p).symm
  rw [bindMergedEdge,hsrc,hdst,htype,hseq]
  cases e.seq with
  | none =>
    refine ⟨?_,fun p => ?_⟩
    · rw [get_foldl_set_other hout,get_set_ne (hne _),get_set_ne (hne _),get_set_ne (hne _),get_set_self]
    · rw [get_foldl_props hdistinct]
      simp only [get_set,dotted_inj,dotted_ne_self,if_false,hbare p,Option.map_none]
      by_cases hname : p = "__edge_seq"
      · rw [hname]
        rfl
      · rw [if_neg hname]
  | some seq =>
    refine ⟨?_,fun p => ?_⟩
    · rw [get_foldl_set_other hout,get_set_ne (hne _),get_set_ne (hne _),get_set_ne (hne _),get_set_ne (hne _),
        get_set_self]
    · rw [get_foldl_props hdistinct]
      simp only [get_set,dotted_inj,dotted_ne_self,if_false,hbare p,Option.map_some]

theorem tied_bindMergedEdge (hplain : PlainComponents cypher) (hbare : Bare rec r) (hrec : DistinctNames rec.fields)
    {e : MergedEdge} {props : Properties} (hprops : e.properties st=props) (hrow : get st.edgeProps key=some props)
    (hkey : edgePropsKey e.src e.dst e.label (e.seq.getD (firstEdgeSeq st e.src e.dst e.label))=key)
    (hdistinct : DistinctNames props) (hnames : Plain props) :
    Tied cypher r st (bindMergedEdge rec (some r) e st) key := by
  rw [←hprops] at hdistinct hnames hrow
  have ⟨hself,hfields⟩ := get_bindMergedEdge hbare e hdistinct
  have hinternal : ∀ p,isInternal p=true → getProp (e.properties st) p=none := by
    intro p hp
    cases hget : getProp (e.properties st) p with
    | none => rfl
    | some value =>
      have hfalse := hnames (p,value) (mem_of_getProp hget)
      rw [hp] at hfalse
      cases hfalse
  have hmeta : ∀ p,isInternal p=true → (bindMergedEdge rec (some r) e st).get (r++("."++p))=_ := fun p hp =>
    (hfields p).trans (by rw [hinternal p hp,Option.none_or])
  have hsrc : (bindMergedEdge rec (some r) e st).get (r++".__src")=some (.i64 e.src.toInt64) := hmeta "__src" (by decide)
  have hdst : (bindMergedEdge rec (some r) e st).get (r++".__dst")=some (.i64 e.dst.toInt64) := hmeta "__dst" (by decide)
  have htype : (bindMergedEdge rec (some r) e st).get (r++".__type")=some (.string e.label) := hmeta "__type" (by decide)
  have hseq : (bindMergedEdge rec (some r) e st).get (r++".__edge_seq")=e.seq.map fun seq => .i64 seq.toInt64 :=
    hmeta "__edge_seq" (by decide)
  have hid : (bindMergedEdge rec (some r) e st).get (r++".__id")=none := hmeta "__id" (by decide)
  have hdeleted : (bindMergedEdge rec (some r) e st).get (r++".__deleted")=none := hmeta "__deleted" (by decide)
  have hidentity : edgeIdentity (bindMergedEdge rec (some r) e st) r=some (e.src,e.dst,e.label) := by
    rw [edgeIdentity,hsrc,hdst,htype]
    dsimp only
    rw [UInt64.toUInt64_toInt64,UInt64.toUInt64_toInt64]
  have hentity : entityAt st (bindMergedEdge rec (some r) e st) r=some (.edge key) := by
    rw [entityAt_edge st hidentity,addressedRow,edgeSeqOf,edgeSeqField,hseq,←hkey]
    cases e.seq with
    | none => rfl
    | some seq =>
      dsimp only [Option.map_some,Option.getD_some]
      rw [UInt64.toUInt64_toInt64]
  have hstored : storedOf st (.edge key)=some (e.properties st) := hrow
  have hbound : BoundTo st (bindMergedEdge rec (some r) e st) r (.edge key) :=
    ⟨hentity,by rw [hstored]; rfl,by rw [hdeleted]; simp,by rw [hself]; simp,hid⟩
  refine ⟨hbound,fun p hp => ?_,?_⟩
  · have hbinds : PropertyReads.Binds cypher (fun _ => "") st (bindMergedEdge rec (some r) e st) r (e.properties st) :=
      .mergedEdge hbare e hdistinct
    have hshown := shown_of_binds hbinds
    have hread : evalProperty cypher st r p (bindMergedEdge rec (some r) e st)=_ :=
      access_shown hplain hshown (.inl (.inl (by rw [hidentity]; rfl))) hbound.alive
    have hnode : PropertyReads.readNode st (bindMergedEdge rec (some r) e st) r=none := by
      rw [PropertyReads.readNode,storedNode,hid,hself]
    rw [hread,hfields,PropertyReads.fallback,hnode,propsOf,hstored]
    have hnone : ∀ name,isInternal name=true → p≠name := by
      intro name hname heq
      rw [←heq,hp.noMetadata] at hname
      cases hname
    rw [if_neg (hnone _ (by decide)),if_neg (hnone _ (by decide)),if_neg (hnone _ (by decide)),
      if_neg (hnone _ (by decide)),Option.or_none]
    dsimp only [Option.getD_some]
    rw [propOrNull]
    cases getProp (e.properties st) p <;> rfl
  · rw [bindMergedEdge]
    have hbase := distinct_set (distinct_set (distinct_set (distinct_set hrec r (.string e.label))
      (r++".__src") (.i64 e.src.toInt64)) (r++".__dst") (.i64 e.dst.toInt64)) (r++".__type") (.string e.label)
    cases e.seq with
    | none => exact distinct_foldl_set hbase r _
    | some seq => exact distinct_foldl_set (distinct_set hbase (r++".__edge_seq") _) r _

theorem tied_bindMergedPath (h : Tied cypher r st row key) {pathVar : Option String}
    (hpath : ∀ name∈pathVar,name≠r ∧ ∀ p,name≠r++("."++p)) {e : MergedEdge} {out : NamedRecord}
    (hrun : bindMergedPath row pathVar e st=.ok out) : Tied cypher r st out key := by
  cases pathVar with
  | none =>
    rw [←Except.ok.inj hrun]
    exact h
  | some name =>
    have ⟨hself,hunder⟩ := hpath name rfl
    have ⟨src,_,hdst⟩ := exists_of_bind hrun
    have ⟨dst,_,hout⟩ := exists_of_bind hdst
    rw [←Except.ok.inj hout]
    exact h.set hself hunder _

end Rows

section Bindings

variable {E : Type} (env : ExecEnv E) (r : String)

/-- One record on which a clause binds the variable. -/
inductive Binding (E : Type) where
  /-- `CREATE` of the relationship, with the bindings and the row of the parts before. -/
  | created (rec : NamedRecord) (s : CreateState) (srcAlias dstAlias edgeType : String) (properties : List (String×E))
  /-- `MERGE` of the relationship between bound nodes. -/
  | merged (rec : NamedRecord) (srcVar dstVar : String) (rel : RelPatternOf E) (pathVar : Option String)
    (onCreate onMatch : List (SetItem E))

/-- The row that the clause extends. -/
def Binding.row {E : Type} : Binding E → NamedRecord
  | .created _ s _ _ _ _ => s.record
  | .merged rec _ _ _ _ _ _ => rec

/-- The rows that the clause gives for a record. -/
def Binding.run : Binding E → Db (List NamedRecord)
  | .created rec s srcAlias dstAlias edgeType properties => do
    let s ← createEdgeOp env rec s srcAlias dstAlias edgeType (some r) properties
    pure [s.record]
  | .merged rec srcVar dstVar rel pathVar onCreate onMatch =>
    matchMergeRelationship env srcVar dstVar {rel with var := some r} pathVar onCreate onMatch rec

/-- The key of a relationship with a sequence number. -/
def keyOf (e : MergedEdge) : Bytes := edgePropsKey e.src e.dst e.label (e.seq.getD 0)

/-- The items of a match on all matched relationships. -/
def setMatched (rec : NamedRecord) (onMatch : List (SetItem E)) : List MergedEdge → Store → Result Store
  | [],st => .ok st
  | e::rest,st => do
    let mid ← setItems env (bindMergedEdge rec (some r) e) (keyOf e) onMatch st
    setMatched rec onMatch rest mid

/-- What MERGE between two nodes is for. -/
def mergeIdeal (st : Store) (rec : NamedRecord) (rel : RelPatternOf E) (onCreate onMatch : List (SetItem E))
    (src dst : NodeId) : Result (List Bytes×Store) := do
  let props ← mergeProperties env st rec [] rel.properties
  let found := matchedEdges st rel.direction src dst (edgeTypeOf rel) props
  if found.isEmpty=true then do
    let key := edgePropsKey src dst (edgeTypeOf rel) (edgeSeqCounter st)
    let st' ← setItems env (bindMergedEdge rec (some r) ⟨src,dst,edgeTypeOf rel,none⟩) key onCreate
      (addEdge st src dst (edgeTypeOf rel) props)
    pure ([key],st')
  else do
    let st' ← setMatched env r rec onMatch found st
    pure (found.map keyOf,st')

/-- What a clause is for: the relationships that it binds, and the store in which only these
were created or given the properties of the items. -/
def Binding.ideal (st : Store) : Binding E → Result (List Bytes×Store)
  | .created rec s srcAlias dstAlias edgeType properties => do
    let src ← s.endpoint srcAlias
    let dst ← s.endpoint dstAlias
    let props ← evalProperties env rec st [] properties
    pure ([edgePropsKey src dst edgeType (edgeSeqCounter st)],addEdge st src dst edgeType props)
  | .merged rec srcVar dstVar rel _ onCreate onMatch =>
    match nodeIdField rec srcVar,nodeIdField rec dstVar with
    | some src,some dst => mergeIdeal env r st rec rel onCreate onMatch src dst
    | _,_ => .ok ([],st)

/-- The items of a match have the same values on the rows of the relationships. -/
def MatchedMeet (rec : NamedRecord) (onMatch : List (SetItem E)) : List MergedEdge → Store → Prop
  | [],_ => True
  | e::rest,st => ItemsMeet env (bindMergedEdge rec (some r) e) (keyOf e) rec onMatch st ∧
    ∀ mid,setItems env (bindMergedEdge rec (some r) e) (keyOf e) onMatch st=.ok mid →
      MatchedMeet rec onMatch rest mid

/-- Conditions on a MERGE between two nodes, with the relationships that other rows are bound to. -/
structure MergeMeets (bound : List Bytes) (st : Store) (rec : NamedRecord) (src dst : NodeId)
    (rel : RelPatternOf E) (props : Properties) (onCreate onMatch : List (SetItem E)) : Prop where
  /-- The type has a valid name. -/
  name : isValidName (edgeTypeOf rel)=true
  /-- Without a match nothing joins the nodes, and the items do not read the variable. -/
  created : matchedEdges st rel.direction src dst (edgeTypeOf rel) props=[] →
    ¬HasEdge st src dst (edgeTypeOf rel) ∧ Plain props ∧
      ItemsMeet env (bindMergedEdge rec (some r) ⟨src,dst,edgeTypeOf rel,none⟩)
        (edgePropsKey src dst (edgeTypeOf rel) (edgeSeqCounter st)) rec onCreate
        (addEdge st src dst (edgeTypeOf rel) props)
  /-- The matched relationships have plain names, and items neither read the variable nor write
  a relationship of another row. -/
  matched : (∀ e∈matchedEdges st rel.direction src dst (edgeTypeOf rel) props,
      Plain (propsOf st (.edge (keyOf e))) ∧ (onMatch=[] ∨ keyOf e∉bound)) ∧
    MatchedMeet env r rec onMatch (matchedEdges st rel.direction src dst (edgeTypeOf rel) props) st

/-- Conditions under which a clause binds the relationship that it creates or matches. -/
def Binding.Meets (bound : List Bytes) (st : Store) : Binding E → Prop
  | .created rec s srcAlias dstAlias edgeType properties => ∀ src dst props,s.endpoint srcAlias=.ok src →
    s.endpoint dstAlias=.ok dst → evalProperties env rec st [] properties=.ok props →
    ¬HasEdge st src dst edgeType ∧ Plain props
  | .merged rec srcVar dstVar rel pathVar onCreate onMatch => (∀ name∈pathVar,name≠r ∧ ∀ p,name≠r++("."++p)) ∧
    ∀ src dst props,nodeIdField rec srcVar=some src → nodeIdField rec dstVar=some dst →
      mergeProperties env st rec [] rel.properties=.ok props →
      MergeMeets env r bound st rec src dst rel props onCreate onMatch

variable {S : Type} (cypher : EvalEnv S)

/-- What a clause does to rows that were bound before and to other relationships. -/
structure Bound (bound : List Bytes) (st st' : Store) (rows : List NamedRecord) (bindings : List Bytes) : Prop where
  /-- The tables are well formed. -/
  ready : Ready st'
  /-- Every row is tied to its relationship. -/
  tied : List.Forall₂ (Tied cypher r st') rows bindings
  /-- Rows that were bound stay tied. -/
  kept : ∀ row,∀ key∈bound,Tied cypher r st row key → Tied cypher r st' row key
  /-- Other relationships keep their properties. -/
  others : ∀ key∉bindings,get st'.edgeProps key=get st.edgeProps key

variable {env r cypher} {st st' : Store} {rec : NamedRecord} {bound : List Bytes} {rows : List NamedRecord}
variable {props : Properties} {s d : NodeId} {l : String}

theorem distinct_evalProperties {inline : List (String×E)} {old : Properties} (h : DistinctNames old)
    (heval : evalProperties env rec st old inline=.ok props) : DistinctNames props := by
  induction inline generalizing old with
  | nil =>
    rw [←Except.ok.inj heval]
    exact h
  | cons entry rest ih =>
    rw [evalProperties] at heval
    split at heval
    · cases heval
    · split_ifs at heval
      · exact ih h heval
      · exact ih (h.insertProp _ _) heval

theorem distinct_mergeProperties {inline : List (String×E)} {old : Properties} (h : DistinctNames old)
    (heval : mergeProperties env st rec old inline=.ok props) : DistinctNames props := by
  induction inline generalizing old with
  | nil =>
    rw [←Except.ok.inj heval]
    exact h
  | cons entry rest ih =>
    rw [mergeProperties] at heval
    split at heval
    · cases heval
    · split_ifs at heval
      exact ih (h.insertProp _ _) heval

theorem setEdgePropertyAt_putEdge (st : Store) (s d : NodeId) (l : String) (q : UInt64) (old : Properties) (p : String)
    (v : Value) : setEdgePropertyAt (putEdge st (edgePropsKey s d l q) old) s d l q p v=
      putEdge st (edgePropsKey s d l q) (withProperty old p v) := by
  have hprops : getEdgePropertiesAt (putEdge st (edgePropsKey s d l q) old) s d l q=old := propsOf_putEdge st _ old
  have hwrite : setEdgePropertyAt (putEdge st (edgePropsKey s d l q) old) s d l q p v=
      putEdge (putEdge st (edgePropsKey s d l q) old) (edgePropsKey s d l q)
        (withProperty (getEdgePropertiesAt (putEdge st (edgePropsKey s d l q) old) s d l q) p v) := rfl
  rw [hwrite,hprops,putEdge_twice]

theorem applyAt_spec {e : MergedEdge} (old : Properties) (item : SetItem E) (s : Store)
    (hrun : applyMergeSetItemEdgeAt env item e.src e.dst e.label (e.seq.getD 0) rec (putEdge st (keyOf e) old)=(.ok (),s)) :
    ∃ new,itemProps env (putEdge st (keyOf e) old) rec old item=.ok new ∧ s=putEdge st (keyOf e) new :=
  applySetItem_spec (propsOf_putEdge st _ old) (setEdgePropertyAt_putEdge st _ _ _ _) hrun

theorem applyFirst_spec (h : EdgeInv st) {key : Bytes} (hfirst : edgePropsKey s d l (firstEdgeSeq st s d l)=key)
    (hkey : key∈keys st.edgeProps) (old : Properties) (item : SetItem E) (s' : Store)
    (hrun : applyMergeSetItemEdge env item s d l rec (putEdge st key old)=(.ok (),s')) :
    ∃ new,itemProps env (putEdge st key old) rec old item=.ok new ∧ s'=putEdge st key new := by
  refine applySetItem_spec (first_putEdge h hfirst hkey old).2 (fun other p v => ?_) hrun
  rw [setEdgeProperty,(first_putEdge h hfirst hkey other).1,←hfirst]
  exact setEdgePropertyAt_putEdge st s d l _ other p v

/-- The row of a relationship that was created where none was, and then given other properties. -/
theorem created_binds (hplain : PlainComponents cypher) (h : Ready st) (hbound : ∀ key∈bound,key∈keys st.edgeProps)
    (hbare : Bare rec r) (hrec : DistinctNames rec.fields) (hl : isValidName l=true)
    (hroom : edgeSeqCounter st≠0xFFFFFFFFFFFFFFFF) (halone : ¬HasEdge st s d l) {new : Properties}
    (hprops : DistinctNames props) (hnew : DistinctNames new) (hnames : Plain new) (hst : st'=
      putEdge (addEdge st s d l props) (edgePropsKey s d l (edgeSeqCounter st)) new) {out : NamedRecord}
    (hout : Tied cypher r st' (bindMergedEdge rec (some r) ⟨s,d,l,none⟩ st') (edgePropsKey s d l (edgeSeqCounter st)) →
      Tied cypher r st' out (edgePropsKey s d l (edgeSeqCounter st))) :
    Bound r cypher bound st st' [out] [edgePropsKey s d l (edgeSeqCounter st)] := by
  have hready := h.addEdge s d hl hroom hprops
  have hseq := firstEdgeSeq_addEdge h.edges hl hroom props halone
  have hget : get (addEdge st s d l props).edgeProps (edgePropsKey s d l (edgeSeqCounter st))=some props := by
    rw [get_addEdge,if_pos rfl]
  have hkey := mem_keys.mpr ⟨props,hget⟩
  have ⟨hfirst,hread⟩ := first_putEdge hready.edges (congrArg (edgePropsKey s d l) hseq) hkey new
  rw [←hst] at hfirst hread
  have hself : get st'.edgeProps (edgePropsKey s d l (edgeSeqCounter st))=some new := by
    rw [hst]
    exact get_put_self _ _ _
  have hother : ∀ key≠edgePropsKey s d l (edgeSeqCounter st),get st'.edgeProps key=
      get (addEdge st s d l props).edgeProps key := by
    intro key hne
    rw [hst]
    exact get_put_ne hne
  have hkeys : keys st'.edgeProps=keys (addEdge st s d l props).edgeProps := by
    rw [hst]
    exact keys_put_present hkey
  refine ⟨?_,.cons (hout ?_) .nil,fun row key hmem htied => ?_,fun key hne => ?_⟩
  · rw [hst]
    exact hready.putEdge hkey hnew
  · refine tied_bindMergedEdge hplain hbare hrec hread hself ?_ hnew hnames
    dsimp only [Option.getD_none]
    rw [hfirst,hseq]
  · have hold : key≠edgePropsKey s d l (edgeSeqCounter st) := fun heq => h.edges.fresh s d l (heq ▸ hbound key hmem)
    exact (htied.addEdge h hl hroom props).rewrite hkeys (hother key hold)
  · have hold : key≠edgePropsKey s d l (edgeSeqCounter st) := fun heq => hne (List.mem_singleton.mpr heq)
    rw [hother key hold,get_addEdge,if_neg hold]

theorem stored_of_matchedEdges (h : EdgeInv st) {direction : RelDirection} (hl : isValidName l=true)
    {e : MergedEdge} (hmem : e∈matchedEdges st direction s d l props) :
    e.seq.isSome=true ∧ keyOf e∈keys st.edgeProps := by
  have hstored : ∀ {a b : NodeId},e∈findMatchingEdges st a b l props → e.seq.isSome=true ∧ keyOf e∈keys st.edgeProps := by
    intro a b hin
    have ⟨found,hfound,he⟩ := List.mem_map.mp hin
    have ⟨⟨key,old⟩,hrow,hseq⟩ := List.mem_map.mp (List.mem_filter.mp hfound).1
    have ⟨hget,q,hkey⟩ := (mem_parallelRows h hl).mp hrow
    rw [hkey] at hget
    rw [←he,←hseq,hkey]
    dsimp only [keyOf,Option.getD_some]
    rw [edgeSeqFromKey_edgePropsKey]
    exact ⟨rfl,mem_keys.mpr ⟨old,hget⟩⟩
  cases List.mem_append.mp hmem with
  | inl hforward => exact hstored hforward
  | inr hbackward =>
    split_ifs at hbackward
    · exact hstored hbackward
    · exact absurd hbackward List.not_mem_nil

theorem setMatched_spec {onMatch : List (SetItem E)} {all found : List MergedEdge} (hsub : ∀ e∈found,e∈all)
    (h : Ready st) (hall : ∀ e∈all,keyOf e∈keys st.edgeProps ∧ Plain (propsOf st (.edge (keyOf e))))
    (hmeet : MatchedMeet env r rec onMatch found st)
    (hrun : forEach found (setMatchedEdge env onMatch rec) st=(.ok (),st')) :
    setMatched env r rec onMatch found st=.ok st' ∧ Ready st' ∧ keys st'.edgeProps=keys st.edgeProps ∧
      (∀ e∈all,Plain (propsOf st' (.edge (keyOf e)))) ∧
      ∀ key,(onMatch=[] ∨ key∉found.map keyOf) → get st'.edgeProps key=get st.edgeProps key := by
  induction found generalizing st with
  | nil =>
    have hst := (Prod.mk.inj hrun).2
    rw [←hst]
    exact ⟨rfl,h,rfl,fun e he => (hall e he).2,fun _ _ => rfl⟩
  | cons e rest ih =>
    obtain ⟨_,mid,hfirst,hrest⟩ := ok_of_bind hrun
    obtain ⟨hitems,hnext⟩ := hmeet
    obtain ⟨hkey,hold⟩ := hall e (hsub e List.mem_cons_self)
    obtain ⟨old,hget⟩ := mem_keys.mp hkey
    have hprops : propsOf st (.edge (keyOf e))=old := by
      rw [propsOf,storedOf,hget]
      rfl
    have hsame := putEdge_same hget
    rw [hprops] at hold
    have hloop : forEach onMatch (fun item => applyMergeSetItemEdgeAt env item e.src e.dst e.label (e.seq.getD 0) rec)
        (putEdge st (keyOf e) old)=(.ok (),mid) := by
      rw [hsame]
      exact hfirst
    have hmeets : ItemsMeet env (bindMergedEdge rec (some r) e) (keyOf e) rec onMatch (putEdge st (keyOf e) old) := by
      rw [hsame]
      exact hitems
    obtain ⟨hset,new,hmid,hnew,hplain⟩ :=
      setItems_spec applyAt_spec (h.props (.edge (keyOf e)) old hget) hold hmeets hloop
    rw [hsame] at hset
    have hkeys : keys mid.edgeProps=keys st.edgeProps := by
      rw [hmid]
      exact keys_put_present hkey
    have hother : ∀ key≠keyOf e,get mid.edgeProps key=get st.edgeProps key := by
      intro key hne
      rw [hmid]
      exact get_put_ne hne
    have hall' : ∀ e'∈all,keyOf e'∈keys mid.edgeProps ∧ Plain (propsOf mid (.edge (keyOf e'))) := by
      intro e' he'
      refine ⟨hkeys ▸ (hall e' he').1,?_⟩
      by_cases heq : keyOf e'=keyOf e
      · rw [heq,hmid,propsOf_putEdge]
        exact hplain
      · have hplain' := (hall e' he').2
        rw [propsOf,storedOf] at hplain' ⊢
        rw [hother _ heq]
        exact hplain'
    have hready : Ready mid := by
      rw [hmid]
      exact h.putEdge hkey hnew
    obtain ⟨hmore,hready',hkeys',hplain',hkept⟩ :=
      ih (fun e' he' => hsub e' (List.mem_cons_of_mem _ he')) hready hall' (hnext mid hset) hrest
    refine ⟨?_,hready',hkeys'.trans hkeys,hplain',fun key hcase => ?_⟩
    · rw [setMatched,hset]
      exact hmore
    · cases hcase with
      | inl hnil =>
        rw [hnil] at hset
        rw [hkept key (.inl hnil),Except.ok.inj hset]
      | inr hout =>
        have hne : key≠keyOf e := fun heq => hout (heq ▸ List.mem_cons_self)
        rw [hkept key (.inr fun hin => hout (List.mem_cons_of_mem _ hin)),hother key hne]

theorem tied_matched (hplain : PlainComponents cypher) (h : Ready st) (hbare : Bare rec r) (hrec : DistinctNames rec.fields)
    {pathVar : Option String} (hpath : ∀ name∈pathVar,name≠r ∧ ∀ p,name≠r++("."++p)) {found : List MergedEdge}
    (hfound : ∀ e∈found,(e.seq.isSome=true ∧ keyOf e∈keys st.edgeProps) ∧ Plain (propsOf st (.edge (keyOf e))))
    (hrun : mapEach found (fun e => inspect fun st => bindMergedPath (bindMergedEdge rec (some r) e st) pathVar e st) st=
      (.ok rows,st')) : st'=st ∧ List.Forall₂ (Tied cypher r st) rows (found.map keyOf) := by
  induction found generalizing rows st' with
  | nil =>
    have ⟨hrows,hst⟩ := Prod.mk.inj hrun
    rw [←Except.ok.inj hrows]
    exact ⟨hst.symm,.nil⟩
  | cons e rest ih =>
    have ⟨out,hout,hmore⟩ := ok_of_inspect hrun
    have ⟨others,mid,hrest,hlast⟩ := ok_of_bind hmore
    have ⟨hrows,hst⟩ := Prod.mk.inj hlast
    have ⟨hmid,htied⟩ := ih (fun e' he' => hfound e' (List.mem_cons_of_mem _ he')) hrest
    have ⟨⟨hseq,hkey⟩,hnames⟩ := hfound e List.mem_cons_self
    have ⟨q,hq⟩ := Option.isSome_iff_exists.mp hseq
    have ⟨old,hget⟩ := mem_keys.mp hkey
    have hprops : propsOf st (.edge (keyOf e))=old := by
      rw [propsOf,storedOf,hget]
      rfl
    have hread : e.properties st=old := by
      rw [MergedEdge.properties,hq,←hprops,keyOf,hq]
      rfl
    rw [hprops] at hnames
    have hself := tied_bindMergedEdge hplain hbare hrec hread hget (by rw [keyOf,hq]; rfl)
      (h.props (.edge (keyOf e)) old hget) hnames
    rw [←Except.ok.inj hrows]
    exact ⟨hst.symm.trans hmid,.cons (tied_bindMergedPath hself hpath hout) htied⟩

theorem matchMergeEdge_binds (hplain : PlainComponents cypher) (h : Ready st) (hbound : ∀ key∈bound,key∈keys st.edgeProps)
    (hbare : Bare rec r) (hrec : DistinctNames rec.fields) {pathVar : Option String}
    (hpath : ∀ name∈pathVar,name≠r ∧ ∀ p,name≠r++("."++p)) {rel : RelPatternOf E} {onCreate onMatch : List (SetItem E)}
    {src dst : NodeId} (hmeet : ∀ props,mergeProperties env st rec [] rel.properties=.ok props →
      MergeMeets env r bound st rec src dst rel props onCreate onMatch)
    (hrun : matchMergeEdge env {rel with var := some r} pathVar onCreate onMatch src dst rec st=(.ok rows,st')) :
    ∃ bindings,mergeIdeal env r st rec rel onCreate onMatch src dst=.ok (bindings,st') ∧
      Bound r cypher bound st st' rows bindings := by
  have ⟨props,hprops,hrest⟩ := ok_of_inspect hrun
  have ⟨found,hfound,hrest⟩ := ok_of_inspect hrest
  have hlist : matchedEdges st rel.direction src dst (edgeTypeOf rel) props=found := Except.ok.inj hfound
  have heval : mergeProperties env st rec [] rel.properties=.ok props := hprops
  have hmeets := hmeet props heval
  rw [mergeIdeal,heval]
  change ∃ bindings,(if (matchedEdges st rel.direction src dst (edgeTypeOf rel) props).isEmpty=true then _ else _)=_ ∧ _
  rw [hlist]
  by_cases hempty : found.isEmpty=true
  · rw [if_pos hempty] at hrest ⊢
    have ⟨_,mid,hcreate,hrest⟩ := ok_of_bind hrest
    have ⟨_,after,hitems,hrest⟩ := ok_of_bind hrest
    have ⟨out,hout,hlast⟩ := ok_of_inspect hrest
    have ⟨hrows,hst⟩ := Prod.mk.inj hlast
    have hcreate : createEdge src dst (edgeTypeOf rel) props st=(.ok (),mid) := hcreate
    have ⟨hl,hroom,hmid⟩ := createEdge_added h.edges hcreate
    have ⟨halone,hnames,hitemsMeet⟩ := hmeets.created (hlist.trans (List.isEmpty_iff.mp hempty))
    have hdistinct := distinct_mergeProperties (show DistinctNames [] from List.nodup_nil) heval
    have hready := h.addEdge src dst hl hroom hdistinct
    have hseq := firstEdgeSeq_addEdge h.edges hl hroom props halone
    have hkey : edgePropsKey src dst (edgeTypeOf rel) (edgeSeqCounter st)∈
        keys (addEdge st src dst (edgeTypeOf rel) props).edgeProps :=
      mem_keys.mpr ⟨props,by rw [get_addEdge,if_pos rfl]⟩
    have hsame := addEdge_eq_putEdge st src dst (edgeTypeOf rel) props
    rw [←hsame] at hitemsMeet
    have hloop : forEach onCreate (fun item => applyMergeSetItemEdge env item src dst (edgeTypeOf rel) rec)
        (putEdge (addEdge st src dst (edgeTypeOf rel) props)
          (edgePropsKey src dst (edgeTypeOf rel) (edgeSeqCounter st)) props)=(.ok (),after) := by
      rw [hsame,←hmid]
      exact hitems
    have ⟨hset,new,hafter,hnew,hplainNew⟩ := setItems_spec
      (applyFirst_spec hready.edges (congrArg (edgePropsKey src dst (edgeTypeOf rel)) hseq) hkey)
      hdistinct hnames hitemsMeet hloop
    rw [hsame,hst] at hset
    refine ⟨[edgePropsKey src dst (edgeTypeOf rel) (edgeSeqCounter st)],?_,?_⟩
    · rw [hset]
      rfl
    · rw [←Except.ok.inj hrows]
      rw [hst] at hafter hout
      exact created_binds hplain h hbound hbare hrec hl hroom halone hdistinct hnew hplainNew hafter fun htied =>
        tied_bindMergedPath htied hpath hout
  · rw [if_neg hempty] at hrest ⊢
    have ⟨_,mid,hloop,hrows⟩ := ok_of_bind hrest
    have hmatched := hmeets.matched
    rw [hlist] at hmatched
    have ⟨hall,hitems⟩ := hmatched
    have hstored : ∀ e∈found,e.seq.isSome=true ∧ keyOf e∈keys st.edgeProps := fun e he =>
      stored_of_matchedEdges h.edges hmeets.name (hlist ▸ he)
    have ⟨hset,hready,hkeys,hnames,hkept⟩ := setMatched_spec (fun _ he => he) h
      (fun e he => ⟨(hstored e he).2,(hall e he).1⟩) hitems hloop
    have ⟨hst,htied⟩ := tied_matched hplain hready hbare hrec hpath
      (fun e he => ⟨⟨(hstored e he).1,hkeys ▸ (hstored e he).2⟩,hnames e he⟩) hrows
    rw [hst]
    refine ⟨found.map keyOf,?_,hready,htied,fun row key hin h => h.rewrite hkeys (hkept key ?_),fun key hout =>
      hkept key (.inr hout)⟩
    · rw [hset]
      rfl
    · by_cases hnil : onMatch=[]
      · exact .inl hnil
      · refine .inr fun hkey => ?_
        have ⟨e,he,heq⟩ := List.mem_map.mp hkey
        exact (hall e he).2.elim hnil fun hfree => hfree (heq ▸ hin)

theorem Binding.step (hplain : PlainComponents cypher) (h : Ready st) (hbound : ∀ key∈bound,key∈keys st.edgeProps)
    {b : Binding E} (hbare : Bare b.row r) (hrec : DistinctNames b.row.fields) (hmeet : b.Meets env r bound st)
    (hrun : b.run env r st=(.ok rows,st')) :
    ∃ bindings,b.ideal env r st=.ok (bindings,st') ∧ Bound r cypher bound st st' rows bindings := by
  cases b with
  | created rec s srcAlias dstAlias l properties =>
    obtain ⟨s',mid,hop,hlast⟩ := ok_of_bind hrun
    obtain ⟨hrows,hst⟩ := Prod.mk.inj hlast
    obtain ⟨src,hsrc,hop⟩ := ok_of_inspect hop
    obtain ⟨dst,hdst,hop⟩ := ok_of_inspect hop
    obtain ⟨props,hprops,hop⟩ := ok_of_inspect hop
    obtain ⟨_,after,hcreate,hop⟩ := ok_of_bind hop
    obtain ⟨hstate,hmid⟩ := Prod.mk.inj hop
    obtain ⟨hl,hroom,hafter⟩ := createEdge_added h.edges hcreate
    obtain ⟨halone,hnames⟩ := hmeet src dst props hsrc hdst hprops
    have hst' : st'=addEdge st src dst l props := hst.symm.trans (hmid.symm.trans hafter)
    have hdistinct := distinct_evalProperties (show DistinctNames [] from List.nodup_nil) hprops
    refine ⟨[edgePropsKey src dst l (edgeSeqCounter st)],?_,?_⟩
    · rw [Binding.ideal,hsrc,hdst,hprops,hst']
      rfl
    · have hread : getEdgeProperties st' src dst l=props := by
        rw [hst']
        exact (getEdgeProperties_addEdge h.edges hl hroom props).2 halone
      have hrow : bindMergedEdge s.record (some r) ⟨src,dst,l,none⟩ st'=s'.record := by
        rw [←Except.ok.inj hstate,bindMergedEdge,MergedEdge.properties]
        dsimp only
        rw [hread]
        rfl
      rw [←Except.ok.inj hrows]
      refine created_binds hplain h hbound hbare hrec hl hroom halone hdistinct hdistinct hnames ?_ fun htied => ?_
      · rw [addEdge_eq_putEdge,hst']
      · rw [←hrow]
        exact htied
  | merged rec srcVar dstVar rel pathVar onCreate onMatch =>
    have hrest : matchMergeRelationship env srcVar dstVar {rel with var := some r} pathVar onCreate onMatch rec st=
        (.ok rows,st') := hrun
    have hnothing : (pure [] : Db (List NamedRecord)) st=(.ok rows,st') →
        ∃ bindings,(.ok ([],st) : Result (List Bytes×Store))=.ok (bindings,st') ∧
          Bound r cypher bound st st' rows bindings := by
      intro hnone
      obtain ⟨hrows,hst⟩ := Prod.mk.inj hnone
      rw [←Except.ok.inj hrows,←hst]
      exact ⟨[],rfl,h,.nil,fun _ _ _ htied => htied,fun _ _ => rfl⟩
    rw [matchMergeRelationship] at hrest
    rw [Binding.ideal]
    cases hsrc : nodeIdField rec srcVar with
    | none =>
      rw [hsrc] at hrest
      exact hnothing hrest
    | some src =>
      cases hdst : nodeIdField rec dstVar with
      | none =>
        rw [hsrc,hdst] at hrest
        exact hnothing hrest
      | some dst =>
        rw [hsrc,hdst] at hrest
        exact matchMergeEdge_binds hplain h hbound hbare hrec hmeet.1 (fun props => hmeet.2 src dst props hsrc hdst) hrest

/-- What the records of a clause are for. -/
def idealRun (env : ExecEnv E) (r : String) : List (Binding E) → Store → Result (List Bytes×Store)
  | [],st => .ok ([],st)
  | b::rest,st => do
    let first ← b.ideal env r st
    let others ← idealRun env r rest first.2
    pure (first.1++others.1,others.2)

/-- Every record meets its conditions in the state in which it is reached. -/
def RunMeets (env : ExecEnv E) (r : String) : List (Binding E) → List Bytes → Store → Prop
  | [],_,_ => True
  | b::rest,bound,st => b.Meets env r bound st ∧
    ∀ bindings mid,b.ideal env r st=.ok (bindings,mid) → RunMeets env r rest (bound++bindings) mid

/-- Something is related to every element, and it is enough to relate those that are listed. -/
theorem forall₂_mono {α β : Type} {R Q : α → β → Prop} {l : List α} {k : List β} (h : List.Forall₂ R l k) :
    (∀ b∈k,∃ a,R a b) ∧ ((∀ a,∀ b∈k,R a b → Q a b) → List.Forall₂ Q l k) := by
  induction h with
  | nil => exact ⟨fun _ hb => absurd hb List.not_mem_nil,fun _ => .nil⟩
  | @cons a b l k hone hrest ih =>
    refine ⟨List.forall_mem_cons.mpr ⟨⟨a,hone⟩,ih.1⟩,fun himp => ?_⟩
    exact .cons (himp a b List.mem_cons_self hone) (ih.2 fun a b hb => himp a b (List.mem_cons_of_mem _ hb))

theorem forall₂_set {α β : Type} {R Q : α → β → Prop} {l : List α} {k : List β} (h : List.Forall₂ R l k)
    {i : Nat} {a a' : α} (ha : l[i]?=some a) (hall : ∀ a b,R a b → Q a b) (hset : ∀ b,R a b → Q a' b) :
    (∃ b∈k,R a b) ∧ List.Forall₂ Q (l.set i a') k := by
  induction h generalizing i with
  | nil => cases ha
  | @cons first b l k hone hrest ih =>
    cases i with
    | zero =>
      have heq : first=a := Option.some.inj ha
      rw [heq] at hone
      exact ⟨⟨b,List.mem_cons_self,hone⟩,.cons (hset b hone) (hrest.imp hall)⟩
    | succ i =>
      have ⟨⟨b',hb',hrel⟩,hmore⟩ := ih ha
      exact ⟨⟨b',List.mem_cons_of_mem _ hb',hrel⟩,.cons (hall first b hone) hmore⟩

theorem run_binds (hplain : PlainComponents cypher) {bs : List (Binding E)} (h : Ready st)
    (hbound : ∀ key∈bound,key∈keys st.edgeProps) (hrows : ∀ b∈bs,Bare b.row r ∧ DistinctNames b.row.fields)
    (hmeet : RunMeets env r bs bound st) {out : List (List NamedRecord)}
    (hrun : mapEach bs (Binding.run env r) st=(.ok out,st')) :
    ∃ bindings,idealRun env r bs st=.ok (bindings,st') ∧ Bound r cypher bound st st' out.flatten bindings := by
  induction bs generalizing bound st st' out with
  | nil =>
    have ⟨hout,hst⟩ := Prod.mk.inj hrun
    rw [←Except.ok.inj hout,←hst]
    exact ⟨[],rfl,h,.nil,fun _ _ _ htied => htied,fun _ _ => rfl⟩
  | cons b rest ih =>
    have ⟨first,mid,hfirst,hmore⟩ := ok_of_bind hrun
    have ⟨others,after,hothers,hlast⟩ := ok_of_bind hmore
    have ⟨hout,hst⟩ := Prod.mk.inj hlast
    have ⟨hbare,hrec⟩ := hrows b List.mem_cons_self
    have ⟨bindings,hideal,hone⟩ := b.step hplain h hbound hbare hrec hmeet.1 hfirst
    have hstored : ∀ key∈bound++bindings,key∈keys mid.edgeProps := by
      intro key hkey
      by_cases hin : key∈bindings
      · have ⟨row,htied⟩ := (forall₂_mono (Q:=fun _ _ => True) hone.tied).1 key hin
        exact mem_keys.mpr (Option.isSome_iff_exists.mp htied.bound.stored)
      · have hold := (List.mem_append.mp hkey).resolve_right hin
        have ⟨props,hget⟩ := mem_keys.mp (hbound key hold)
        exact mem_keys.mpr ⟨props,(hone.others key hin).trans hget⟩
    have ⟨more,hmoreIdeal,htwo⟩ := ih hone.ready hstored (fun b' hb' => hrows b' (List.mem_cons_of_mem _ hb'))
      (hmeet.2 bindings mid hideal) hothers
    rw [hst] at hmoreIdeal htwo
    rw [←Except.ok.inj hout]
    refine ⟨bindings++more,?_,htwo.ready,?_,fun row key hkey htied => ?_,fun key hkey => ?_⟩
    · rw [idealRun,hideal]
      change (idealRun env r rest mid >>= _)=_
      rw [hmoreIdeal]
      rfl
    · have hkept : List.Forall₂ (Tied cypher r st') first bindings :=
        (forall₂_mono hone.tied).2 fun row key hkey => htwo.kept row key (List.mem_append_right _ hkey)
      rw [List.flatten_cons]
      exact List.rel_append hkept htwo.tied
    · exact htwo.kept row key (List.mem_append_left _ hkey) (hone.kept row key hkey htied)
    · have hout : key∉bindings ∧ key∉more := not_or.mp fun hin => hkey (List.mem_append.mpr hin)
      exact (htwo.others key hout.2).trans (hone.others key hout.1)

end Bindings

section Operators

variable {E S : Type} {env : ExecEnv E} {cypher : EvalEnv S} {r : String} {st st' : Store}

/-- Rows are bound to their relationships and read what is stored. -/
structure Served (cypher : EvalEnv S) (r : String) (st : Store) (rows : List NamedRecord) (bindings : List Bytes) :
    Prop where
  /-- They are bound. -/
  aligned : List.Forall₂ (fun row key => BoundTo st row r (.edge key)) rows bindings
  /-- They read what is stored. -/
  fresh : Fresh cypher (fun x => x=r) ⟨rows,st⟩
  /-- Rows and properties are maps. -/
  maps : MapsDistinct ⟨rows,st⟩

variable {rows : List NamedRecord} {bindings : List Bytes}

theorem served_of_tied (h : Ready st) (htied : List.Forall₂ (Tied cypher r st) rows bindings) :
    Served cypher r st rows bindings := by
  have hat : ∀ row∈rows,∃ key,Tied cypher r st row key := (forall₂_mono (Q:=fun _ _ => True) htied.flip).1
  refine ⟨htied.imp fun _ _ hone => hone.bound,?_,fun row hrow => (hat row hrow).elim fun _ hone => hone.distinct,h.props⟩
  intro e p hp i row hrow x hx hbound
  have ⟨key,hone⟩ := hat row (List.mem_of_getElem? hrow)
  rw [hx] at hbound ⊢
  have he : e=.edge key := Option.some.inj (hbound.addressed.symm.trans hone.bound.addressed)
  rw [he]
  exact hone.reads p hp

/-- An operator that goes through the variable keeps the rows bound and writes no other relationship. -/
theorem operator_served {out : List NamedRecord} {op : RowOperator E} (h : Served cypher r st rows bindings)
    (hclean : OperatorClean env (fun x => x=r) st rows op)
    (hlast : LastWritesShared env cypher (fun x => x=r) st rows op)
    (hrun : execRowOperator env rows op st=(.ok out,st')) :
    Served cypher r st' out bindings ∧ ∀ key∉bindings,get st'.edgeProps key=get st.edgeProps key := by
  have hapart : ∀ x y : String,x=r → y=r → x≠y → Apart x y := fun _ _ hx hy hne => absurd (hx.trans hy.symm) hne
  have ⟨hmaps,hfresh⟩ := operator_fresh_iff hapart h.maps h.fresh hclean hrun
  rw [execRowOperator_eq] at hrun
  have hsteps : runSteps (stepRow (runWrite env)) (schedule op.writes 0 rows.length) ⟨rows,st⟩=some ⟨out,st'⟩ :=
    mapEach_runSteps [] hrun
  have hkeep : ∀ b t b',(MapsDistinct b ∧ List.Forall₂ (fun row key => BoundTo b.state row r (.edge key)) b.rows bindings ∧
        ∀ key∉bindings,get b.state.edgeProps key=get st.edgeProps key) → Clean env (fun x => x=r) b t →
      stepRow (runWrite env) t b=some b' → MapsDistinct b' ∧
        List.Forall₂ (fun row key => BoundTo b'.state row r (.edge key)) b'.rows bindings ∧
        ∀ key∉bindings,get b'.state.edgeProps key=get st.edgeProps key := by
    intro b t b' hb hc hs
    have ⟨hdistinct,hbound,hsame⟩ := hb
    refine ⟨step_distinct hdistinct hc hs,?_⟩
    cases step_effect hdistinct hc hs with
    | inl hnone =>
      rw [hnone.1]
      exact ⟨hbound,hsame⟩
    | inr hdone =>
      have ⟨row,row',done,hrow,hwriting,hrows,hwrites⟩ := hdone
      have hvar : done.var=r := (writing_var hwriting).trans hc.known
      have hkeys := hwrites.rewrites.sameEdges
      have hmeta : SameMetadata row row' r :=
        sameMetadata_of_writes hwrites (hc.named row done hrow hwriting) fun hne => absurd hvar.symm hne
      have ⟨⟨key,hkey,hone⟩,hall⟩ := forall₂_set hbound hrow
        (fun other key hone => (SameMetadata.refl other r).boundTo hkeys hwrites.stored hone)
        (fun key hone => hmeta.boundTo hkeys hwrites.stored hone)
      have hentity : done.entity=.edge key := by
        have haddressed := hwrites.addressed
        rw [hvar,hone.addressed] at haddressed
        exact (Option.some.inj haddressed).symm
      rw [hrows]
      refine ⟨hall,fun other hother => ?_⟩
      have hne : Entity.edge other≠.edge key := by
        intro heq
        rw [Entity.edge.inj heq] at hother
        exact hother hkey
      have hstored := hwrites.rewrites.stored (.edge other)
      rw [hentity,if_neg hne] at hstored
      exact hstored.trans (hsame other hother)
  have ⟨_,hbound,hsame⟩ := runSteps_keeps hkeep ⟨h.maps,h.aligned,fun _ _ => rfl⟩ hclean hsteps
  exact ⟨⟨hbound,hfresh.mpr hlast,hmaps⟩,hsame⟩

/-- Operators through the variable that share their last writes. -/
def OperatorsMeet (env : ExecEnv E) (cypher : EvalEnv S) (r : String) (ops : List (RowOperator E))
    (rows : List NamedRecord) (st : Store) : Prop :=
  FoldMeets (fun st rows op => OperatorClean env (fun x => x=r) st rows op ∧
    LastWritesShared env cypher (fun x => x=r) st rows op) (execRowOperator env) ops rows st

theorem operators_served {out : List NamedRecord} {ops : List (RowOperator E)}
    (h : Served cypher r st rows bindings) (hmeet : OperatorsMeet env cypher r ops rows st)
    (hrun : foldEach ops rows (execRowOperator env) st=(.ok out,st')) :
    Served cypher r st' out bindings ∧ ∀ key∉bindings,get st'.edgeProps key=get st.edgeProps key := by
  induction ops generalizing rows st with
  | nil =>
    have ⟨hout,hst⟩ := Prod.mk.inj hrun
    rw [←Except.ok.inj hout,←hst]
    exact ⟨h,fun _ _ => rfl⟩
  | cons op rest ih =>
    have ⟨next,mid,hfirst,hrest⟩ := ok_of_bind hrun
    have ⟨⟨hclean,hlast⟩,hmore⟩ := hmeet
    have ⟨hserved,hsame⟩ := operator_served h hclean hlast hfirst
    have ⟨hdone,hsame'⟩ := ih hserved (hmore next mid hfirst) hrest
    exact ⟨hdone,fun key hkey => (hsame' key hkey).trans (hsame key hkey)⟩

end Operators

section Statements

variable {E S : Type} {env : ExecEnv E} {cypher : EvalEnv S} {r : String} {st st' : Store}

theorem execMergeRelationship_unbound {src dst : NodePatternOf E} {rel : RelPatternOf E} {pathVar : Option String}
    {onCreate onMatch : List (SetItem E)} {rows : List NamedRecord}
    (hrun : execMergeRelationship env src {rel with var := some r} dst pathVar onCreate onMatch st=(.ok rows,st')) :
    ∀ row∈rows,∀ key,entityAt st' row r≠some (.edge key) := by
  have hset : ∀ {rec : NamedRecord} {v : Value} (name : String),(∀ label,v≠.string label) →
      (∀ key label,rec.get key≠some (.string label)) → ∀ key label,(rec.set name v).get key≠some (.string label) := by
    intro rec v name hv hrec key label
    rw [get_set]
    split_ifs
    · exact fun heq => hv label (Option.some.inj heq)
    · exact hrec key label
  have hend : ∀ {rec : NamedRecord} (var : Option String) (id : NodeId),(∀ key label,rec.get key≠some (.string label)) →
      ∀ key label,(bindEnd rec var id).get key≠some (.string label) := by
    intro rec var id hrec
    cases var with
    | none => exact hrec
    | some name => exact hset name (fun _ heq => by cases heq) hrec
  obtain ⟨srcId,_,_,hrun⟩ := ok_of_bind hrun
  obtain ⟨dstId,_,_,hrun⟩ := ok_of_bind hrun
  obtain ⟨_,_,_,hrun⟩ := ok_of_bind hrun
  obtain ⟨out,hout,hlast⟩ := ok_of_inspect hrun
  have hempty : ∀ key label,(⟨[]⟩ : NamedRecord).get key≠some (.string label) := fun _ _ heq => by cases heq
  have hends := hend dst.var dstId (hend src.var srcId hempty)
  have htext : ∀ key label,out.get key≠some (.string label) := by
    cases pathVar with
    | none =>
      rw [←Except.ok.inj hout]
      exact hends
    | some name =>
      obtain ⟨a,_,hrest⟩ := exists_of_bind hout
      obtain ⟨b,_,hpath⟩ := exists_of_bind hrest
      rw [←Except.ok.inj hpath]
      exact hset name (fun _ heq => by cases heq) hends
  obtain ⟨hrows,hst⟩ := Prod.mk.inj hlast
  intro row hrow key
  rw [←Except.ok.inj hrows] at hrow
  rw [List.mem_singleton.mp hrow]
  have hidentity : edgeIdentity out r=none := by
    rw [edgeIdentity]
    split
    · rename_i label _ _ htype
      exact absurd htype (htext _ label)
    · rfl
  rw [entityAt,hidentity]
  cases nodeIdField out r with
  | none | some id => exact fun heq => by cases heq

end Statements

/-- `CREATE (a)-[r:R {x: 1}]->(b)` between two nodes. -/
def createOne : Binding Value := .created ⟨[]⟩ ⟨[("a",1),("b",2)],⟨[]⟩⟩ "a" "b" "R" [("x",.i64 1)]

/-- A database with one relationship between the nodes. -/
def joinedStore : Store := addEdge freshStore 1 2 "R" []

end GraphDbLite.RelationshipWrites
