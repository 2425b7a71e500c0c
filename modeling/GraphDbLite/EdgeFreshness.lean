import GraphDbLite.EdgeConsistency
import GraphDbLite.SchemaMigration

/-!
# Freshness of relationship keys

A creation writes its row under the next sequence number, and the write replaces
a row that is already there. The number is fresh in every later run exactly when
the counter of the opened file is ahead of all stored rows. Initialisation seeds
a missing counter with zero without looking at the rows.
-/

namespace GraphDbLite.EdgeFreshness

open ByteStrings GraphTypes OrderedTable StatefulActions GraphStore EdgeStorage NodeStorage
open EdgeConsistency SchemaMigration

/-- The store of an initialised file; initialisation does not look at the
secondary and full-text tables. -/
def openStore (db : RawDb NodeRecord) (indexTables : Table String (Table Bytes Unit))
    (ftsTables : Table String FtsTable) : Store where
  nodes :=
    match db.nodes with
    | some (.v2 rows) => mapValues (fun row => ⟨row.label,row.value⟩) rows
    | _ => empty
  adjOut := db.adjOut.getD empty
  adjIn := db.adjIn.getD empty
  edgeProps := db.edgeProps.getD empty
  metadata := db.metadata.getD empty
  indexTables := indexTables
  ftsTables := ftsTables

/-- A successful creation inserts its row under a new key: there is one row more
and every other row stays. -/
def CreatesFresh (st : Store) : EdgeStep → Prop
  | .createEdge src dst label properties =>
      (createEdge src dst label properties st).1=.ok () →
        ∃ seq,edgePropsKey src dst label seq∉keys st.edgeProps ∧
          get (createEdge src dst label properties st).2.edgeProps (edgePropsKey src dst label seq)=
            some properties ∧
          (keys (createEdge src dst label properties st).2.edgeProps).length=
            (keys st.edgeProps).length+1 ∧
          ∀ k props,get st.edgeProps k=some props →
            get (createEdge src dst label properties st).2.edgeProps k=some props
  | _ => True

/-- No creation can reach the number of a stored row: the counter row is
unreadable, or every row of a checked type is behind the counter or at the last
number, which is never handed out. -/
def SequenceAhead (counterRow : Option Bytes) (rows : Table Bytes Properties) : Prop :=
  (∃ raw,counterRow=some raw ∧ raw.length<8) ∨
    ∀ s d l q,isValidName l=true → edgePropsKey s d l q∈keys rows →
      q<((counterRow.map fun raw => fromBeBytes (raw.take 8)).getD 0) ∨ q=0xFFFFFFFFFFFFFFFF

/-- The condition on a store. -/
def StoreAhead (st : Store) : Prop := SequenceAhead (get st.metadata nextEdgeSeqKey) st.edgeProps

/-- The condition on a file that is not opened yet. -/
def FileAhead (db : RawDb NodeRecord) : Prop :=
  SequenceAhead (db.metadata.bind fun m => get m nextEdgeSeqKey) (db.edgeProps.getD empty)

variable {st : Store} {orig : RawDb NodeRecord}

theorem counterRow_of_not_short (h : ¬∃ raw,get st.metadata nextEdgeSeqKey=some raw ∧ raw.length<8) :
    CounterRow st nextEdgeSeqKey := by
  intro raw hget
  by_contra hlt
  exact h ⟨raw,hget,by omega⟩

theorem edgeSeqCounter_eq (st : Store) :
    edgeSeqCounter st=
      ((get st.metadata nextEdgeSeqKey).map fun raw => fromBeBytes (raw.take 8)).getD 0 := by
  unfold edgeSeqCounter counterValue
  cases get st.metadata nextEdgeSeqKey <;> rfl

theorem createEdge_short (h : ∃ raw,get st.metadata nextEdgeSeqKey=some raw ∧ raw.length<8) (s d : NodeId)
    (l : String) (props : Properties) : (∃ e,(createEdge s d l props st).1=.error e) ∧
    (createEdge s d l props st).2.edgeProps=st.edgeProps ∧
    get (createEdge s d l props st).2.metadata nextEdgeSeqKey=get st.metadata nextEdgeSeqKey := by
  obtain ⟨raw,hget,hshort⟩ := h
  by_cases hnames : CheckedNames l props
  · have hnext : nextEdgeSeq (linkEdge st s d l)=
        (.error (.serialization "" "corrupt edge seq bytes" none),linkEdge st s d l) := by
      unfold nextEdgeSeq
      rw [show get (linkEdge st s d l).metadata nextEdgeSeqKey=some raw from hget]
      dsimp only
      rw [advanceCounter,if_pos hshort]
      rfl
    rw [createEdge_checked hnames,bind_error hnext]
    exact ⟨⟨_,rfl⟩,rfl,rfl⟩
  · obtain ⟨e,herror⟩ := createEdge_rejected (s:=s) (d:=d) hnames st
    rw [herror]
    exact ⟨⟨e,rfl⟩,rfl,rfl⟩

/-- Rows only disappear and the counter stays. -/
structure Shrinks (st st' : Store) : Prop where
  /-- No new rows. -/
  keys : ∀ k∈keys st'.edgeProps,k∈keys st.edgeProps
  /-- Same counter row. -/
  seq : get st'.metadata nextEdgeSeqKey=get st.metadata nextEdgeSeqKey

theorem Shrinks.refl (st : Store) : Shrinks st st := ⟨fun _ h => h,rfl⟩

theorem Shrinks.trans {a b c : Store} (hab : Shrinks a b) (hbc : Shrinks b c) : Shrinks a c :=
  ⟨fun k hk => hab.keys k (hbc.keys k hk),hbc.seq.trans hab.seq⟩

variable {st st' : Store} {s d : NodeId} {l key : String} {f : RawDb NodeRecord → Result (RawDb NodeRecord)}

theorem SameEdges.shrinks (h : SameEdges st st') : Shrinks st st' := by
  refine ⟨fun k hk => ?_,h.seq⟩
  rw [h.edgeProps] at hk
  exact hk

theorem StoreAhead.of_shrinks (h : StoreAhead st) (hs : Shrinks st st') : StoreAhead st' := by
  unfold StoreAhead SequenceAhead
  rw [hs.seq]
  rcases h with hshort|hall
  · exact Or.inl hshort
  · exact Or.inr fun s d l q hl hk => hall s d l q hl (hs.keys _ hk)

theorem shrinks_deleteEdge (st : Store) (s d : NodeId) (l : String) :
    Shrinks st (deleteEdge st s d l) := by
  let base : Store := {st with
    adjOut := adjRemove st.adjOut s l d,
    adjIn := adjRemove st.adjIn d l s,
    edgeProps := deleteAll st.edgeProps
      ((scanPrefix st.edgeProps (edgePropsPrefix s d l)).map Prod.fst)}
  have hdef : deleteEdge st s d l=uncountEdges base l
      (UInt64.ofNat (scanPrefix st.edgeProps (edgePropsPrefix s d l)).length) := rfl
  have ⟨m,hstore,hframe⟩ := uncountEdges_frame base l
    (UInt64.ofNat (scanPrefix st.edgeProps (edgePropsPrefix s d l)).length)
  rw [hdef,hstore]
  exact ⟨fun k hk => (mem_keys_deleteAll.mp hk).2,
    hframe _ (edgeTypeCountKey_ne_nextEdgeSeqKey l).symm⟩

theorem shrinks_deleteSingleEdge (st : Store) (s d : NodeId) (l : String) (q : UInt64) :
    Shrinks st (deleteSingleEdge st s d l q) := by
  have ⟨_,_,_,hrows,hseq⟩ := withoutRow_tables st s d l q
  have hmid : Shrinks st (withoutRow st s d l q) := by
    refine ⟨fun k hk => ?_,hseq⟩
    rw [hrows] at hk
    exact (mem_keys_delete.mp hk).2
  rw [deleteSingleEdge_eq]
  split_ifs
  · exact ⟨hmid.keys,hmid.seq⟩
  · exact hmid

theorem shrinks_foldl {ι : Type} {f : Store → ι → Store} (h : ∀ st i,Shrinks st (f st i))
    (items : List ι) (st : Store) : Shrinks st (items.foldl f st) := by
  induction items generalizing st with
  | nil => exact Shrinks.refl st
  | cons i items ih => exact (h st i).trans (ih _)

theorem shrinks_deleteNode (st : Store) (id : NodeId) : Shrinks st (deleteNode id st).2 := by
  have hkeeps : Keeps (fun st' => Shrinks st st') (deleteNode id) := by
    unfold deleteNode
    refine keeps_reading fun node => ?_
    refine keeps_reading fun outEdges => ?_
    refine keeps_bind (keeps_update fun st' h => h.trans ?_) fun _ => ?_
    · refine shrinks_foldl (fun st entry => ?_) outEdges st'
      exact shrinks_foldl (f:=fun st dst => deleteEdge st id dst entry.1)
        (fun st dst => shrinks_deleteEdge st id dst entry.1) entry.2 st
    · refine keeps_reading fun inEdges => ?_
      refine keeps_bind (keeps_update fun st' h => h.trans ?_) fun _ => ?_
      · refine shrinks_foldl (fun st entry => ?_) inEdges st'
        exact shrinks_foldl (f:=fun st src => deleteEdge st src id entry.1)
          (fun st src => shrinks_deleteEdge st src id entry.1) entry.2 st
      · refine keeps_bind (keeps_update fun st' h => h.trans ⟨fun _ hk => hk,rfl⟩) fun _ => ?_
        refine keeps_update fun st' h => h.trans ?_
        exact SameEdges.shrinks (sameEdges_foldl sameEdges_decrementLabelCount node.labels st')
  exact hkeeps st (Shrinks.refl st)

/-- A creation under the next number, when that number is not stored for its
pair, is fresh. -/
theorem createsFresh_addEdge {props : Properties}
    (hrun : createEdge s d l props st=(.ok (),addEdge st s d l props))
    (hfresh : edgePropsKey s d l (edgeSeqCounter st)∉keys st.edgeProps) : CreatesFresh st (.createEdge s d l props) := by
  intro _
  rw [hrun]
  refine ⟨edgeSeqCounter st,hfresh,get_put_self _ _ _,?_,fun k old hget => ?_⟩
  · exact (keys_put_fresh hfresh).length_eq
  · have hne : k≠edgePropsKey s d l (edgeSeqCounter st) := by
      intro hk
      rw [hk] at hget
      exact hfresh (mem_keys.mpr ⟨old,hget⟩)
    exact (get_put_ne hne).trans hget

theorem StoreAhead.step (h : StoreAhead st) (step : EdgeStep) :
    CreatesFresh st step ∧ StoreAhead (applyEdgeStep st step) := by
  cases step with
  | createEdge s d l props =>
    by_cases hshort : ∃ raw,get st.metadata nextEdgeSeqKey=some raw ∧ raw.length<8
    · have ⟨⟨e,herror⟩,hrows,hseq⟩ := createEdge_short hshort s d l props
      refine ⟨fun hok => absurd (herror.symm.trans hok) (by simp),?_⟩
      exact Or.inl (hseq.symm ▸ hshort)
    · have hrow := counterRow_of_not_short hshort
      have hall := h.resolve_left hshort
      rw [←edgeSeqCounter_eq] at hall
      by_cases hnames : CheckedNames l props
      · by_cases hc : edgeSeqCounter st=0xFFFFFFFFFFFFFFFF
        · have hrun := createEdge_exhausted (s:=s) (d:=d) hnames hrow hc
          refine ⟨fun hok => absurd hok (by rw [hrun]; simp),?_⟩
          change StoreAhead (createEdge s d l props st).2
          rw [hrun]
          exact h
        · have hrun := createEdge_ok (s:=s) (d:=d) hnames hrow hc
          have hsucc := toNat_succ (succ_lt_of_ne_max hc)
          refine ⟨createsFresh_addEdge hrun fun hk => ?_,?_⟩
          · rcases hall s d l _ hnames.1 hk with hlt|hmax
            · exact absurd hlt (lt_irrefl _)
            · exact hc hmax
          · change StoreAhead (createEdge s d l props st).2
            rw [hrun]
            refine Or.inr fun s' d' l' q hl' hk => ?_
            rw [←edgeSeqCounter_eq,edgeSeqCounter_addEdge]
            rcases mem_keys_put.mp hk with hnew|hold
            · have hq := (edgePropsKey_inj.mp hnew).2.2.2
              refine Or.inl ?_
              rw [hq,UInt64.lt_iff_toNat_lt,hsucc]
              omega
            · rcases hall s' d' l' q hl' hold with hlt|hmax
              · refine Or.inl ?_
                rw [UInt64.lt_iff_toNat_lt] at hlt ⊢
                omega
              · exact Or.inr hmax
      · have ⟨e,herror⟩ := createEdge_rejected (s:=s) (d:=d) hnames st
        refine ⟨fun hok => absurd hok (by rw [herror]; simp),?_⟩
        change StoreAhead (createEdge s d l props st).2
        rw [herror]
        exact h
  | deleteEdge s d l => exact ⟨trivial,h.of_shrinks (shrinks_deleteEdge st s d l)⟩
  | deleteSingleEdge s d l q => exact ⟨trivial,h.of_shrinks (shrinks_deleteSingleEdge st s d l q)⟩
  | createNode labels props =>
    exact ⟨trivial,h.of_shrinks (SameEdges.shrinks (sameEdges_createNode st labels props))⟩
  | deleteNode id => exact ⟨trivial,h.of_shrinks (shrinks_deleteNode st id)⟩

/-- Repeated creation of the pair of a stored row that is not behind the counter
reaches that row. -/
theorem not_fresh_of_behind (hl : isValidName l=true) {q : UInt64} (hq : q≠0xFFFFFFFFFFFFFFFF) (n : Nat) :
    ∀ {st : Store},CounterRow st nextEdgeSeqKey → edgePropsKey s d l q∈keys st.edgeProps →
    (edgeSeqCounter st).toNat+n=q.toNat → ¬Guarded applyEdgeStep CreatesFresh st
    (List.replicate (n+1) (.createEdge s d l [])) := by
  have hnames : CheckedNames l [] := ⟨hl,fun key hk => absurd hk List.not_mem_nil⟩
  have hlast := succ_lt_of_ne_max hq
  induction n with
  | zero =>
    intro st hrow hmem hcount hguarded
    have hsame : edgeSeqCounter st=q := UInt64.toNat_inj.mp hcount
    have hrun := createEdge_ok (s:=s) (d:=d) hnames hrow (by rw [hsame]; exact hq)
    have hfresh := hguarded.1
    simp only [CreatesFresh,hrun,true_implies] at hfresh
    have ⟨seq,_,_,hlen,_⟩ := hfresh
    have hkeys : keys (addEdge st s d l []).edgeProps=keys st.edgeProps := by
      refine keys_put_present ?_
      rw [hsame]
      exact hmem
    rw [hkeys] at hlen
    omega
  | succ n ih =>
    intro st hrow hmem hcount hguarded
    have hroom : edgeSeqCounter st≠0xFFFFFFFFFFFFFFFF := by
      intro hmax
      have hval : (edgeSeqCounter st).toNat=2^64-1 := by
        rw [hmax]
        rfl
      omega
    have hrun := createEdge_ok (s:=s) (d:=d) hnames hrow hroom
    have hstep : applyEdgeStep st (.createEdge s d l [])=addEdge st s d l [] := by
      change (createEdge s d l [] st).2=_
      rw [hrun]
    have hrest := hguarded.2
    rw [hstep] at hrest
    refine ih ?_ ?_ ?_ hrest
    · intro raw hget
      have hne : nextEdgeSeqKey≠edgeTypeCountKey l := (edgeTypeCountKey_ne_nextEdgeSeqKey l).symm
      simp only [addEdge,incrementEdgeTypeCount,incrementCount,setCount] at hget
      rw [get_put_ne hne,get_put_self] at hget
      rw [←Option.some.inj hget,toBeBytes_length]
    · exact mem_keys_put.mpr (Or.inr hmem)
    · rw [edgeSeqCounter_addEdge,toNat_succ (succ_lt_of_ne_max hroom)]
      omega

theorem createsFresh_forall_iff (st : Store) :
    (∀ steps,Guarded applyEdgeStep CreatesFresh st steps) ↔ StoreAhead st := by
  constructor
  · intro hall
    by_cases hshort : ∃ raw,get st.metadata nextEdgeSeqKey=some raw ∧ raw.length<8
    · exact Or.inl hshort
    · refine Or.inr fun s d l q hl hk => ?_
      rw [←edgeSeqCounter_eq]
      by_contra hbehind
      have hparts : ¬q<edgeSeqCounter st ∧ q≠0xFFFFFFFFFFFFFFFF := by
        constructor
        · exact fun hlt => hbehind (Or.inl hlt)
        · exact fun hmax => hbehind (Or.inr hmax)
      have hle : (edgeSeqCounter st).toNat≤q.toNat := by
        have hnot := hparts.1
        rw [UInt64.lt_iff_toNat_lt] at hnot
        omega
      exact not_fresh_of_behind hl hparts.2 (q.toNat-(edgeSeqCounter st).toNat)
        (counterRow_of_not_short hshort) hk (by omega) (hall _)
  · intro h steps
    exact guarded_of_invariant (I:=StoreAhead) (fun st step h => h.step step) h steps

/-- Counter row of a file. -/
def seqRow (db : RawDb NodeRecord) : Option Bytes := db.metadata.bind fun m => get m nextEdgeSeqKey

/-- Initialisation keeps the rows and the counter row, or seeds a missing one
with zero. -/
def KeepsRows (orig db : RawDb NodeRecord) : Prop :=
  db.edgeProps.getD empty=orig.edgeProps.getD empty ∧
    (seqRow db=seqRow orig ∨ (seqRow orig=none ∧ seqRow db=some (toBeBytes 0)))

theorem keeps_statement {J : RawDb NodeRecord → Prop} (h : ∀ db db',J db → f db=.ok db' → J db') :
    Keeps (fun s => J s.1) (statement f) := by
  rintro ⟨db,log⟩ hdb
  unfold statement
  cases hf : f db with
  | ok db' => exact h db db' hdb hf
  | error e => exact hdb

theorem keepsRows_of_same (h : ∀ db db',f db=.ok db' → db'.edgeProps=db.edgeProps ∧ db'.metadata=db.metadata) :
    Keeps (fun s => KeepsRows orig s.1) (statement f) := by
  refine keeps_statement fun db db' hk hf => ?_
  have ⟨hrows,hmeta⟩ := h db db' hf
  unfold KeepsRows seqRow
  rw [hrows,hmeta]
  exact hk

theorem keepsRows_createTables (orig : RawDb NodeRecord) :
    Keeps (fun s => KeepsRows orig s.1) (statement createTables) := by
  refine keeps_statement fun db db' hk hf => ?_
  have hresult : db'.edgeProps=some (db.edgeProps.getD empty) ∧
      db'.metadata=some (db.metadata.getD empty) := by
    unfold createTables at hf
    dsimp only at hf
    split at hf
    · cases hf
    · rw [←Except.ok.inj hf]
      exact ⟨rfl,rfl⟩
  have hseq : seqRow db'=seqRow db := by
    unfold seqRow
    rw [hresult.2]
    cases db.metadata with
    | none | some m => rfl
  unfold KeepsRows
  rw [hresult.1,hseq]
  exact hk

theorem keepsRows_withMetadata {g : Table String Bytes → Table String Bytes}
    (hg : ∀ m,get (g m) nextEdgeSeqKey=get m nextEdgeSeqKey) :
    Keeps (fun s => KeepsRows orig s.1) (statement (withMetadata g)) := by
  refine keeps_statement fun db db' hk hf => ?_
  unfold withMetadata at hf
  cases hm : db.metadata with
  | none =>
    rw [hm] at hf
    cases hf
  | some m =>
    rw [hm] at hf
    have hseq : seqRow db'=seqRow db := by
      rw [←Except.ok.inj hf]
      unfold seqRow
      rw [hm]
      exact hg m
    unfold KeepsRows
    rw [hseq,←Except.ok.inj hf]
    exact hk

theorem keepsRows_seed (orig : RawDb NodeRecord) :
    Keeps (fun s => KeepsRows orig s.1) (statement (insertOrIgnore nextEdgeSeqKey 0)) := by
  refine keeps_statement fun db db' hk hf => ?_
  unfold insertOrIgnore withMetadata at hf
  cases hm : db.metadata with
  | none =>
    rw [hm] at hf
    cases hf
  | some m =>
    rw [hm] at hf
    have hrow : seqRow db=get m nextEdgeSeqKey := by
      unfold seqRow
      rw [hm]
      rfl
    refine ⟨?_,?_⟩
    · rw [←Except.ok.inj hf]
      exact hk.1
    · by_cases hc : contains m nextEdgeSeqKey=true
      · have hseq : seqRow db'=seqRow db := by
          rw [←Except.ok.inj hf,hrow]
          change get (if contains m nextEdgeSeqKey=true then m else _) nextEdgeSeqKey=_
          rw [if_pos hc]
        rw [hseq]
        exact hk.2
      · have hnone : get m nextEdgeSeqKey=none := by
          cases hget : get m nextEdgeSeqKey with
          | none => rfl
          | some raw => exact absurd (contains_iff.mpr (mem_keys.mpr ⟨raw,hget⟩)) hc
        have horig : seqRow orig=none := by
          rcases hk.2 with hsame|⟨hnil,-⟩
          · rw [←hsame,hrow,hnone]
          · exact hnil
        refine Or.inr ⟨horig,?_⟩
        rw [←Except.ok.inj hf]
        change get (if contains m nextEdgeSeqKey=true then m else _) nextEdgeSeqKey=_
        rw [if_neg hc]
        exact get_put_self _ _ _

theorem keepsRows_insertOrReplace (hkey : nextEdgeSeqKey≠key) (value : UInt64) :
    Keeps (fun s => KeepsRows orig s.1) (statement (insertOrReplace key value)) :=
  keepsRows_withMetadata fun _ => get_put_ne hkey

theorem keepsRows_insertOrIgnore (hkey : nextEdgeSeqKey≠key) (value : UInt64) :
    Keeps (fun s => KeepsRows orig s.1) (statement (insertOrIgnore key value)) := by
  refine keepsRows_withMetadata fun m => ?_
  split_ifs
  · rfl
  · exact get_put_ne hkey

theorem keepsRows_migrateV1ToV2 (orig : RawDb NodeRecord)
    (fromSlice : NodeRecord → Option NodeRecord) :
    Keeps (fun s => KeepsRows orig s.1) (migrateV1ToV2 fromSlice) := by
  unfold migrateV1ToV2
  refine keeps_bind (keepsRows_of_same fun db db' hf => ?_) fun _ => ?_
  · rw [←Except.ok.inj hf]
    exact ⟨rfl,rfl⟩
  refine keeps_reading fun rows => ?_
  refine keeps_bind (keeps_forEach fun row _ => keepsRows_of_same fun db db' hf => ?_) fun _ => ?_
  · unfold copyNode at hf
    split at hf
    · cases hf
    · split at hf
      · cases hf
      · rw [←Except.ok.inj hf]
        exact ⟨rfl,rfl⟩
  refine keeps_bind (keepsRows_of_same fun db db' hf => ?_) fun _ => ?_
  · unfold dropNodes at hf
    split at hf
    · rw [←Except.ok.inj hf]
      exact ⟨rfl,rfl⟩
    · cases hf
  refine keeps_bind (keepsRows_of_same fun db db' hf => ?_) fun _ => ?_
  · unfold renameNodesV2 at hf
    split at hf
    · rw [←Except.ok.inj hf]
      exact ⟨rfl,rfl⟩
    · cases hf
    · cases hf
  refine keeps_bind (keepsRows_of_same fun db db' hf => ?_) fun _ => ?_
  · unfold createLabelIndex at hf
    split at hf
    · cases hf
    · rw [←Except.ok.inj hf]
      exact ⟨rfl,rfl⟩
  exact keepsRows_insertOrReplace (by decide) 2

theorem keepsRows_migrateV2ToV3 (orig : RawDb NodeRecord)
    (hashOrder : List (String×UInt64) → List (String×UInt64)) :
    Keeps (fun s => KeepsRows orig s.1) (migrateV2ToV3 hashOrder) := by
  unfold migrateV2ToV3
  refine keeps_reading fun counts => ?_
  refine keeps_bind (keeps_forEach fun entry _ => ?_) fun _ => ?_
  · exact keepsRows_insertOrReplace (edgeTypeCountKey_ne_nextEdgeSeqKey entry.1).symm entry.2
  · exact keepsRows_insertOrReplace (by decide) 3

theorem keepsRows_initSchema (orig : RawDb NodeRecord) (fromSlice : NodeRecord → Option NodeRecord)
    (hashOrder : List (String×UInt64) → List (String×UInt64)) :
    KeepsRows orig (runInit fromSlice hashOrder orig).2 := by
  have hkeeps : Keeps (fun s => KeepsRows orig s.1) (initSchema fromSlice hashOrder) := by
    unfold initSchema
    refine keeps_bind (keepsRows_createTables orig) fun _ => ?_
    refine keeps_bind (keepsRows_insertOrIgnore (by decide) schemaVersion) fun _ => ?_
    refine keeps_bind (keepsRows_insertOrIgnore (by decide) 1) fun _ => ?_
    refine keeps_bind (keepsRows_seed orig) fun _ => ?_
    refine keeps_reading fun dbVersion => ?_
    split_ifs
    · exact keeps_fail _ _
    · unfold runMigrations
      refine keeps_bind ?_ fun _ => ?_
      · split_ifs
        · exact keepsRows_migrateV1ToV2 orig fromSlice
        · exact keeps_pure _ _
      · split_ifs
        · exact keepsRows_migrateV2ToV3 orig hashOrder
        · exact keeps_pure _ _
  exact hkeeps (orig,[]) ⟨rfl,Or.inl rfl⟩

theorem edgeProps_openStore (db : RawDb NodeRecord) (indexTables : Table String (Table Bytes Unit))
    (ftsTables : Table String FtsTable) : (openStore db indexTables ftsTables).edgeProps=db.edgeProps.getD empty := rfl

theorem get_openStore_seq (db : RawDb NodeRecord) (indexTables : Table String (Table Bytes Unit))
    (ftsTables : Table String FtsTable) :
    get (openStore db indexTables ftsTables).metadata nextEdgeSeqKey=seqRow db := by
  unfold seqRow
  simp only [openStore]
  cases db.metadata with
  | none | some m => rfl

theorem storeAhead_openStore {orig db : RawDb NodeRecord} (hk : KeepsRows orig db)
    (indexTables : Table String (Table Bytes Unit))
    (ftsTables : Table String FtsTable) :
    StoreAhead (openStore db indexTables ftsTables) ↔ FileAhead orig := by
  have hrow := get_openStore_seq db indexTables ftsTables
  have hrows : (openStore db indexTables ftsTables).edgeProps=orig.edgeProps.getD empty := hk.1
  unfold StoreAhead FileAhead
  rw [hrow,hrows]
  change SequenceAhead (seqRow db) _ ↔ SequenceAhead (seqRow orig) _
  rcases hk.2 with hsame|⟨hnone,hzero⟩
  · rw [hsame]
  · rw [hnone,hzero]
    unfold SequenceAhead
    have hread : fromBeBytes ((toBeBytes 0).take 8)=0 := by decide
    simp [hread]

/-- Creations are fresh in all runs over the opened file exactly when the counter
of the file, zero when missing, was ahead of its rows. -/
theorem createEdge_fresh_iff (db : RawDb NodeRecord)
    (hashOrder : List (String×UInt64) → List (String×UInt64))
    (indexTables : Table String (Table Bytes Unit)) (ftsTables : Table String FtsTable) :
    (∀ steps,Guarded applyEdgeStep CreatesFresh
        (openStore (runInit some hashOrder db).2 indexTables ftsTables) steps) ↔ FileAhead db := by
  rw [createsFresh_forall_iff]
  exact storeAhead_openStore (keepsRows_initSchema db some hashOrder) indexTables ftsTables

/-- A file with a relationship but no counter is accepted, and the first creation
of the same pair overwrites the relationship. -/
theorem createEdge_overwrites :
    (runInit some id sampleV2).1=.ok () ∧
      ¬Guarded applyEdgeStep CreatesFresh (openStore (runInit some id sampleV2).2 empty empty)
        [.createEdge 1 1 "KNOWS" []] := by
  have hperm : ∀ entries : List (String×UInt64),(id entries).Perm entries :=
    fun entries => List.Perm.refl entries
  have hmigrated : Migrated some sampleV2 (runInit some id sampleV2) :=
    migrated_of_resumable sampleV2_isV2.tables sampleV2_isV2.labels hperm sampleV2_isV2.resumable
  have hrow : seqRow (runInit some id sampleV2).2=some (toBeBytes 0) := by decide
  let st := openStore (runInit some id sampleV2).2 empty empty
  have hget : get st.metadata nextEdgeSeqKey=some (toBeBytes 0) :=
    (get_openStore_seq _ empty empty).trans hrow
  refine ⟨hmigrated.success,?_⟩
  have hbehind : CounterRow st nextEdgeSeqKey → edgePropsKey 1 1 "KNOWS" 0∈keys st.edgeProps → _ :=
    not_fresh_of_behind (q:=0) (by decide) (by decide) 0
  refine hbehind ?_ ?_ ?_
  · intro raw hraw
    rw [hget] at hraw
    rw [←Option.some.inj hraw,toBeBytes_length]
  · have hrows : st.edgeProps=put empty (edgePropsKey 1 1 "KNOWS" 0) [("since",.i64 2020)] := by
      have hopen : st.edgeProps=((runInit some id sampleV2).2.edgeProps).getD empty :=
        edgeProps_openStore _ empty empty
      rw [hopen,hmigrated.edgeProps]
      rfl
    rw [hrows]
    exact mem_keys_put.mpr (Or.inl rfl)
  · have hcounter : edgeSeqCounter st=0 := by
      rw [edgeSeqCounter_eq,hget]
      decide
    rw [hcounter]
    rfl

end GraphDbLite.EdgeFreshness
