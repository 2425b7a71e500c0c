import GraphDbLite.AdjacencyEncoding
import GraphDbLite.GraphStore

/-!
# Relationship storage

A relationship is a row of the properties table under its source, destination,
type and sequence number, and an entry of the two adjacency tables under its
type. Creation and deletion update the tables and the type counter one after
the other. The key layouts are injective, and the prefix of a source,
destination and checked type selects exactly the parallel relationships.
-/

namespace GraphDbLite.EdgeStorage

open ByteStrings GraphTypes OrderedTable StatefulActions GraphStore AdjacencyEncoding

/-- Traversal direction. -/
inductive Direction where
  | outgoing
  | incoming
  | both
  deriving DecidableEq

/-- Adjacency key: node identifier, then the type. -/
def adjKey (node : NodeId) (label : String) : Bytes := toBeBytes node++asBytes label

/-- Properties key: source, destination, type, zero byte, sequence number. -/
def edgePropsKey (src dst : NodeId) (label : String) (seq : UInt64) : Bytes :=
  toBeBytes src++(toBeBytes dst++(asBytes label++(0::toBeBytes seq)))

/-- Common front of the keys of parallel relationships. -/
def edgePropsPrefix (src dst : NodeId) (label : String) : Bytes :=
  toBeBytes src++(toBeBytes dst++(asBytes label++[0]))

/-- Sequence number at the end of a properties key; zero for a short key. -/
def edgeSeqFromKey (key : Bytes) (prefixLen : Nat) : UInt64 :=
  if prefixLen+8≤key.length then fromBeBytes ((key.drop prefixLen).take 8) else 0

/-- Type in a properties key: the bytes after the identifiers up to the first
zero byte, when they are valid text. -/
def labelFromEdgePropsKey (key : Bytes) : Option String :=
  if key.length<16 then none
  else
    let rest := key.drop 16
    match rest.findIdx? (fun b => b=0) with
    | none => none
    | some nul => fromUtf8 (rest.take nul)

/-- Whether a properties key carries a type. -/
def isOfType (l : String) (key : Bytes) : Bool := labelFromEdgePropsKey key=some l

/-- Neighbours stored for a node and type. -/
def adjIds (t : Table Bytes Bytes) (node : NodeId) (label : String) : List UInt64 :=
  match get t (adjKey node label) with
  | some data => decodeIdList data
  | none => []

/-- Read, extend and write back one neighbour list. -/
def adjInsert (t : Table Bytes Bytes) (node : NodeId) (label : String) (other : NodeId) :
    Table Bytes Bytes :=
  put t (adjKey node label) (encodeIdList (insertIntoSorted (adjIds t node label) other))

/-- Read, shrink and write back one neighbour list, dropping an emptied row. -/
def adjRemove (t : Table Bytes Bytes) (node : NodeId) (label : String) (other : NodeId) :
    Table Bytes Bytes :=
  match get t (adjKey node label) with
  | none => t
  | some data =>
    let (ids,removed) := removeFromSorted (decodeIdList data) other
    if removed=true then
      if ids=[] then delete t (adjKey node label) else put t (adjKey node label) (encodeIdList ids)
    else t

/-- Create a relationship. Names are checked first; the adjacency lists are
written before the sequence number is allocated. -/
def createEdge (src dst : NodeId) (label : String) (properties : Properties) : Db Unit := do
  inspect fun _ => validateName label
  inspect fun _ => validateNames (properties.map Prod.fst)
  update fun st => {st with adjOut := adjInsert st.adjOut src label dst}
  update fun st => {st with adjIn := adjInsert st.adjIn dst label src}
  let seq ← nextEdgeSeq
  update fun st => {st with edgeProps := put st.edgeProps (edgePropsKey src dst label seq) properties}
  update fun st => incrementEdgeTypeCount st label

/-- Delete all parallel relationships of a source, destination and type. -/
def deleteEdge (st : Store) (src dst : NodeId) (label : String) : Store :=
  let st := {st with adjOut := adjRemove st.adjOut src label dst}
  let st := {st with adjIn := adjRemove st.adjIn dst label src}
  let entries := scanPrefix st.edgeProps (edgePropsPrefix src dst label)
  let removed := UInt64.ofNat entries.length
  let st := {st with edgeProps := deleteAll st.edgeProps (entries.map Prod.fst)}
  if 0 < removed then decrementEdgeTypeCountBy st label removed else st

/-- Delete one relationship; the last parallel one also leaves the adjacency
lists. The counter moves only when a row was removed. -/
def deleteSingleEdge (st : Store) (src dst : NodeId) (label : String) (seq : UInt64) : Store :=
  let removed := contains st.edgeProps (edgePropsKey src dst label seq)
  let st := {st with edgeProps := delete st.edgeProps (edgePropsKey src dst label seq)}
  let st := if removed=true then decrementEdgeTypeCountBy st label 1 else st
  if scanPrefix st.edgeProps (edgePropsPrefix src dst label)=[] then
    let st := {st with adjOut := adjRemove st.adjOut src label dst}
    {st with adjIn := adjRemove st.adjIn dst label src}
  else st

/-- Properties of one parallel relationship; empty when it does not exist. -/
def getEdgePropertiesAt (st : Store) (src dst : NodeId) (label : String) (seq : UInt64) : Properties :=
  (get st.edgeProps (edgePropsKey src dst label seq)).getD []

/-- Replace the property map of one parallel relationship. -/
def setAllEdgePropertiesAt (st : Store) (src dst : NodeId) (label : String) (seq : UInt64)
    (properties : Properties) : Store :=
  {st with edgeProps := put st.edgeProps (edgePropsKey src dst label seq) properties}

/-- Set one property of one parallel relationship; null removes it. -/
def setEdgePropertyAt (st : Store) (src dst : NodeId) (label : String) (seq : UInt64)
    (key : String) (value : Value) : Store :=
  let props := getEdgePropertiesAt st src dst label seq
  let props := if value.isNull=true then removeProp props key else insertProp props key value
  {st with edgeProps := put st.edgeProps (edgePropsKey src dst label seq) props}

/-- Sequence number of the first parallel relationship, or zero. -/
def firstEdgeSeq (st : Store) (src dst : NodeId) (label : String) : UInt64 :=
  let start := edgePropsPrefix src dst label
  match scanPrefix st.edgeProps start with
  | (key,_)::_ => edgeSeqFromKey key start.length
  | [] => 0

/-- Set one property of the first parallel relationship. -/
def setEdgeProperty (st : Store) (src dst : NodeId) (label : String) (key : String) (value : Value) :
    Store :=
  setEdgePropertyAt st src dst label (firstEdgeSeq st src dst label) key value

/-- Types and neighbours stored for a node in one adjacency table. -/
def edgeLabelEntries (t : Table Bytes Bytes) (node : NodeId) : Result (List (String×List UInt64)) :=
  ((scanPrefix t (toBeBytes node)).filter fun entry => 8<entry.1.length).mapM fun entry =>
    match fromUtf8 (entry.1.drop 8) with
    | some label => .ok (label,decodeIdList entry.2)
    | none => .error (.serialization "" "invalid UTF-8 in edge label" none)

/-- Types and neighbours of a node in a direction. -/
def getAllEdgeLabels (st : Store) (node : NodeId) : Direction → Result (List (String×List UInt64))
  | .outgoing => edgeLabelEntries st.adjOut node
  | .incoming => edgeLabelEntries st.adjIn node
  | .both => do
    let result ← edgeLabelEntries st.adjOut node
    let incoming ← edgeLabelEntries st.adjIn node
    pure (result++incoming.filter fun entry => !(result.map Prod.fst).contains entry.1)

theorem adjKey_inj {a b : NodeId} {l m : String} : adjKey a l=adjKey b m ↔ a=b ∧ l=m := by
  rw [adjKey,adjKey,toBeBytes_append_inj,asBytes_inj]

/-- Property keys determine source, destination, type and sequence number: the
part after the type has a fixed length. -/
theorem edgePropsKey_inj {s d s' d' : NodeId} {l l' : String} {q q' : UInt64} :
    edgePropsKey s d l q=edgePropsKey s' d' l' q' ↔ s=s' ∧ d=d' ∧ l=l' ∧ q=q' := by
  rw [edgePropsKey,edgePropsKey,toBeBytes_append_inj,toBeBytes_append_inj]
  constructor
  · rintro ⟨hs,hd,hrest⟩
    have ⟨hl,hq⟩ := List.append_inj' hrest (by simp)
    exact ⟨hs,hd,asBytes_inj.mp hl,toBeBytes_inj.mp (List.cons.inj hq).2⟩
  · rintro ⟨rfl,rfl,rfl,rfl⟩
    exact ⟨rfl,rfl,rfl⟩

theorem edgePropsPrefix_iff {s d s' d' : NodeId} {l l' : String} {q : UInt64}
    (hl : isValidName l=true) (hl' : isValidName l'=true) :
    edgePropsPrefix s d l<+:edgePropsKey s' d' l' q ↔ s=s' ∧ d=d' ∧ l=l' := by
  rw [edgePropsPrefix,edgePropsKey,toBeBytes_prefix_iff,toBeBytes_prefix_iff,
    terminated_front_iff (zero_notMem_of_validName hl) (zero_notMem_of_validName hl'),asBytes_inj]

theorem findIdx_zero {x t : Bytes} (hx : 0∉x) :
    (x++(0::t)).findIdx? (fun b => b=0)=some x.length := by
  induction x with
  | nil => rfl
  | cons a x ih =>
    have ha : a≠0 := fun h => hx (h ▸ List.mem_cons_self)
    have hi := ih fun hm => hx (List.mem_cons_of_mem _ hm)
    rw [List.cons_append,List.findIdx?_cons]
    simp [ha,hi]

variable {s d : NodeId} {l : String} {t : Table Bytes Bytes} {props : Properties}

theorem labelFromEdgePropsKey_edgePropsKey {q : UInt64} (hl : isValidName l=true) :
    labelFromEdgePropsKey (edgePropsKey s d l q)=some l := by
  have hlen : ¬(edgePropsKey s d l q).length<16 := by
    simp only [edgePropsKey,List.length_append,toBeBytes_length]
    omega
  have hdrop : (edgePropsKey s d l q).drop 16=asBytes l++(0::toBeBytes q) := by
    rw [edgePropsKey,←List.append_assoc]
    exact List.drop_left' (by simp)
  simp only [labelFromEdgePropsKey,if_neg hlen,hdrop,findIdx_zero (zero_notMem_of_validName hl)]
  rw [List.take_left' rfl,fromUtf8_asBytes]

theorem edgeSeqFromKey_edgePropsKey (s d : NodeId) (l : String) (q : UInt64) :
    edgeSeqFromKey (edgePropsKey s d l q) (edgePropsPrefix s d l).length=q := by
  have hsplit : edgePropsKey s d l q=edgePropsPrefix s d l++toBeBytes q := by
    simp [edgePropsKey,edgePropsPrefix]
  rw [hsplit,edgeSeqFromKey,if_pos (by simp),List.drop_left,
    List.take_of_length_le (by simp),fromBeBytes_toBeBytes]

/-- Every stored neighbour list belongs to a checked type and decodes to a
nonempty strictly increasing list. -/
def AdjOk (t : Table Bytes Bytes) : Prop :=
  ∀ k data,get t k=some data → (∃ n l,isValidName l=true ∧ k=adjKey n l) ∧
    decodeIdList data≠[] ∧ (decodeIdList data).Pairwise (·<·)

theorem adjIds_sorted (h : AdjOk t) (n : NodeId) (l : String) : (adjIds t n l).Pairwise (·<·) := by
  unfold adjIds
  cases hget : get t (adjKey n l) with
  | none => exact List.Pairwise.nil
  | some data => exact (h _ _ hget).2.2

theorem validName_of_mem_adjIds (h : AdjOk t) {n m : NodeId} (hm : m∈adjIds t n l) : isValidName l=true := by
  unfold adjIds at hm
  cases hget : get t (adjKey n l) with
  | none =>
    rw [hget] at hm
    exact absurd hm List.not_mem_nil
  | some data =>
    have ⟨⟨n',l',hl',hkey⟩,_⟩ := h _ _ hget
    rw [(adjKey_inj.mp hkey).2]
    exact hl'

theorem adjIds_put (t : Table Bytes Bytes) (n n' : NodeId) (l l' : String) (ids : List UInt64) :
    adjIds (put t (adjKey n l) (encodeIdList ids)) n' l'=
      if n'=n ∧ l'=l then ids else adjIds t n' l' := by
  unfold adjIds
  rw [get_put]
  by_cases h : n'=n ∧ l'=l
  · rw [if_pos (adjKey_inj.mpr h),if_pos h]
    exact decodeIdList_encodeIdList ids
  · rw [if_neg (fun hk => h (adjKey_inj.mp hk)),if_neg h]

theorem adjIds_delete (t : Table Bytes Bytes) (n n' : NodeId) (l l' : String) :
    adjIds (delete t (adjKey n l)) n' l'=if n'=n ∧ l'=l then [] else adjIds t n' l' := by
  unfold adjIds
  rw [get_delete]
  by_cases h : n'=n ∧ l'=l
  · rw [if_pos (adjKey_inj.mpr h),if_pos h]
  · rw [if_neg (fun hk => h (adjKey_inj.mp hk)),if_neg h]

theorem adjOk_put (h : AdjOk t) (n : NodeId) (hl : isValidName l=true) {ids : List UInt64} (hne : ids≠[])
    (ho : ids.Pairwise (·<·)) : AdjOk (put t (adjKey n l) (encodeIdList ids)) := by
  intro k data hget
  rw [get_put] at hget
  split_ifs at hget with hk
  · have hdata : data=encodeIdList ids := (Option.some.inj hget).symm
    rw [hdata,decodeIdList_encodeIdList]
    exact ⟨⟨n,l,hl,hk⟩,hne,ho⟩
  · exact h k data hget

theorem adjOk_delete (h : AdjOk t) (k : Bytes) : AdjOk (delete t k) := by
  intro a data hget
  rw [get_delete] at hget
  split_ifs at hget with ha
  exact h a data hget

theorem adjOk_adjInsert (h : AdjOk t) (n m : NodeId) (hl : isValidName l=true) : AdjOk (adjInsert t n l m) := by
  have hspec := insertIntoSorted_spec (adjIds_sorted h n l) m
  have hm : m∈insertIntoSorted (adjIds t n l) m := (hspec.2 m).mpr (Or.inl rfl)
  exact adjOk_put h n hl (List.ne_nil_of_mem hm) hspec.1

theorem mem_adjIds_adjInsert (h : AdjOk t) (n m n' m' : NodeId) (l l' : String) :
    m'∈adjIds (adjInsert t n l m) n' l' ↔ (n'=n ∧ l'=l ∧ m'=m) ∨ m'∈adjIds t n' l' := by
  rw [adjInsert,adjIds_put]
  by_cases hk : n'=n ∧ l'=l
  · rw [if_pos hk,(insertIntoSorted_spec (adjIds_sorted h n l) m).2,hk.1,hk.2]
    simp
  · rw [if_neg hk]
    constructor
    · exact Or.inr
    · rintro (hx|hx)
      · exact absurd ⟨hx.1,hx.2.1⟩ hk
      · exact hx

theorem adjRemove_spec (h : AdjOk t) (n m : NodeId) (l : String) : AdjOk (adjRemove t n l m) ∧
    ∀ n' m' l',m'∈adjIds (adjRemove t n l m) n' l' ↔ ¬(n'=n ∧ l'=l ∧ m'=m) ∧ m'∈adjIds t n' l' := by
  have habsent : m∉adjIds t n l → ∀ n' m' l',m'∈adjIds t n' l' ↔
      ¬(n'=n ∧ l'=l ∧ m'=m) ∧ m'∈adjIds t n' l' := by
    intro hm n' m' l'
    constructor
    · intro hmem
      refine ⟨?_,hmem⟩
      rintro ⟨hn,hl,hm'⟩
      rw [hn,hl,hm'] at hmem
      exact hm hmem
    · exact And.right
  unfold adjRemove
  cases hget : get t (adjKey n l) with
  | none =>
    have hnil : adjIds t n l=[] := by
      unfold adjIds
      rw [hget]
    exact ⟨h,habsent (by rw [hnil]; exact List.not_mem_nil)⟩
  | some data =>
    have hids : adjIds t n l=decodeIdList data := by
      unfold adjIds
      rw [hget]
    have ⟨⟨n₀,l₀,hl₀,hkey⟩,_,ho⟩ := h _ _ hget
    have hl : isValidName l=true := by
      rw [(adjKey_inj.mp hkey).2]
      exact hl₀
    have ⟨hsorted,hmem,hfound⟩ := removeFromSorted_spec ho m
    dsimp only
    split_ifs with hremoved hempty
    · refine ⟨adjOk_delete h _,?_⟩
      intro n' m' l'
      rw [adjIds_delete]
      by_cases hk : n'=n ∧ l'=l
      · rw [if_pos hk,hk.1,hk.2,hids]
        have hnone := hmem m'
        rw [hempty] at hnone
        simpa using hnone
      · rw [if_neg hk]
        constructor
        · intro hx
          exact ⟨fun hall => hk ⟨hall.1,hall.2.1⟩,hx⟩
        · exact And.right
    · refine ⟨adjOk_put h n hl hempty hsorted,?_⟩
      intro n' m' l'
      rw [adjIds_put]
      by_cases hk : n'=n ∧ l'=l
      · rw [if_pos hk,hk.1,hk.2,hids,hmem]
        simp
      · rw [if_neg hk]
        constructor
        · intro hx
          exact ⟨fun hall => hk ⟨hall.1,hall.2.1⟩,hx⟩
        · exact And.right
    · refine ⟨h,habsent ?_⟩
      rw [hids]
      exact fun hx => hremoved (hfound.mpr hx)

theorem validName_of_edgeLabelEntries (h : AdjOk t) {n : NodeId} {entries : List (String×List UInt64)}
    (he : edgeLabelEntries t n=.ok entries) : ∀ entry∈entries,isValidName entry.1=true := by
  have hrows : ∀ row∈(scanPrefix t (toBeBytes n)).filter fun entry => 8<entry.1.length,
      ∃ m l,isValidName l=true ∧ row.1=adjKey m l := by
    rintro ⟨k,data⟩ hrow
    rw [scanPrefix_eq_scan] at hrow
    exact (h k data (mem_scan.mp (List.mem_of_mem_filter hrow)).1).1
  unfold edgeLabelEntries at he
  generalize (scanPrefix t (toBeBytes n)).filter (fun entry => 8<entry.1.length)=rows at he hrows
  induction rows generalizing entries with
  | nil =>
    have hnil : entries=[] := by simpa [pure,Except.pure] using he.symm
    rw [hnil]
    intro entry hm
    exact absurd hm List.not_mem_nil
  | cons row rows ih =>
    have ⟨m,l,hl,hkey⟩ := hrows row List.mem_cons_self
    have hdrop : row.1.drop 8=asBytes l := by
      rw [hkey,adjKey]
      exact List.drop_left' (by simp)
    rw [List.mapM_cons,hdrop,fromUtf8_asBytes] at he
    dsimp only [bind,Except.bind] at he
    split at he
    · cases he
    · rename_i rest hrest
      have hentries : entries=(l,decodeIdList row.2)::rest := by
        simpa [pure,Except.pure] using he.symm
      rw [hentries]
      intro entry hm
      rcases List.mem_cons.mp hm with hx|hx
      · rw [hx]
        exact hl
      · exact ih hrest (fun other ho => hrows other (List.mem_cons_of_mem _ ho)) entry hx

/-- Names checked before a creation writes anything. -/
def CheckedNames (l : String) (props : Properties) : Prop :=
  isValidName l=true ∧ ∀ key∈props.map Prod.fst,isValidName key=true

/-- The two adjacency writes of a creation. -/
def linkEdge (st : Store) (s d : NodeId) (l : String) : Store :=
  {st with adjOut := adjInsert st.adjOut s l d,adjIn := adjInsert st.adjIn d l s}

/-- All writes of a creation that could allocate its sequence number. -/
def addEdge (st : Store) (s d : NodeId) (l : String) (props : Properties) : Store :=
  incrementEdgeTypeCount
    {linkEdge st s d l with
      metadata := put st.metadata nextEdgeSeqKey (toBeBytes (edgeSeqCounter st+1)),
      edgeProps := put st.edgeProps (edgePropsKey s d l (edgeSeqCounter st)) props} l

theorem createEdge_rejected (h : ¬CheckedNames l props) (st : Store) : ∃ e,createEdge s d l props st=(.error e,st) := by
  cases hl : validateName l with
  | error e =>
    refine ⟨e,?_⟩
    rw [createEdge,inspect_error (by exact hl)]
  | ok u =>
    cases hprops : validateNames (props.map Prod.fst) with
    | error e =>
      refine ⟨e,?_⟩
      rw [createEdge,inspect_ok (by exact hl),inspect_error (by exact hprops)]
    | ok v => exact absurd ⟨validateName_ok_iff.mp hl,validateNames_ok_iff.mp hprops⟩ h

theorem createEdge_checked
    (h : CheckedNames l props) (st : Store) :
    createEdge s d l props st=
      (nextEdgeSeq >>= fun seq =>
        update (fun st => {st with edgeProps := put st.edgeProps (edgePropsKey s d l seq) props}) >>=
          fun _ => update fun st => incrementEdgeTypeCount st l) (linkEdge st s d l) := by
  have hl : validateName l=.ok () := validateName_ok_iff.mpr h.1
  have hprops : validateNames (props.map Prod.fst)=.ok () := validateNames_ok_iff.mpr h.2
  rw [createEdge,inspect_ok (by exact hl),inspect_ok (by exact hprops)]
  rfl

theorem createEdge_exhausted (h : CheckedNames l props) {st : Store} (hrow : CounterRow st nextEdgeSeqKey)
    (hc : edgeSeqCounter st=0xFFFFFFFFFFFFFFFF) :
    createEdge s d l props st= (.error (.transaction "edge sequence space exhausted" none),linkEdge st s d l) := by
  have hnext : nextEdgeSeq (linkEdge st s d l)=
      (.error (.transaction "edge sequence space exhausted" none),linkEdge st s d l) :=
    nextEdgeSeq_exhausted hrow hc
  rw [createEdge_checked h,bind_error hnext]

theorem createEdge_ok (h : CheckedNames l props) {st : Store} (hrow : CounterRow st nextEdgeSeqKey)
    (hc : edgeSeqCounter st≠0xFFFFFFFFFFFFFFFF) : createEdge s d l props st=(.ok (),addEdge st s d l props) := by
  have hnext : nextEdgeSeq (linkEdge st s d l)=_ := nextEdgeSeq_ok hrow hc
  rw [createEdge_checked h,bind_ok hnext]
  rfl

end GraphDbLite.EdgeStorage
