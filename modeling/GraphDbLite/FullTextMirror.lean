import GraphDbLite.IndexMirror

/-!
# Full-text indexes mirror the node store

A full-text table should hold one row for each stored node that carries its
label and has a text under a covered property, and no other row. Maintenance
deletes a row only when the old properties gave it one and then inserts, so it
keeps the mirror as long as every insertion finds the node without a row. All
loops of maintenance edit the rows of one node in the tables of some labels.
-/

namespace GraphDbLite.FullTextMirror

open ByteStrings GraphTypes OrderedTable StatefulActions GraphStore NodeStorage
open LikePattern SecondaryIndex FullText WriteOperators NodeView

/-- The texts of one row. -/
abbrev Texts := List (Option String)

/-- Texts of the rows that a table holds for a node. -/
def rowsOf (t : FtsTable) (id : NodeId) : List Texts :=
  (t.rows.filter fun row => row.1=id.toInt64).map Prod.snd

theorem toInt64_inj {a b : NodeId} : a.toInt64=b.toInt64 ↔ a=b := by
  constructor
  · intro h
    have hback := congrArg Int64.toUInt64 h
    rw [UInt64.toUInt64_toInt64,UInt64.toUInt64_toInt64] at hback
    exact hback
  · intro h
    rw [h]

theorem rowsOf_insert (t : FtsTable) (id other : NodeId) (texts : Texts) :
    rowsOf {t with rows := t.rows++[(id.toInt64,texts)]} other=
      rowsOf t other++(if other=id then [texts] else []) := by
  unfold rowsOf
  rw [List.filter_append,List.map_append]
  congr 1
  by_cases hid : other=id
  · rw [if_pos hid,hid]
    simp
  · have hne : ¬id.toInt64=other.toInt64 := fun h => hid (toInt64_inj.mp h).symm
    rw [if_neg hid]
    simp [hne]

theorem rowsOf_delete (t : FtsTable) (id other : NodeId) :
    rowsOf {t with rows := t.rows.filter fun row => row.1≠id.toInt64} other=
      if other=id then [] else rowsOf t other := by
  unfold rowsOf
  rw [List.filter_filter]
  by_cases hid : other=id
  · rw [if_pos hid,hid]
    simp
  · rw [if_neg hid]
    congr 1
    refine List.filter_congr fun row _ => ?_
    by_cases hrow : row.1=other.toInt64
    · have hne : ¬other.toInt64=id.toInt64 := fun h => hid (toInt64_inj.mp h)
      simp [hrow,hne]
    · simp [hrow]

variable {t : FtsTable} {info : FtsIndexInfo} {st : Store} {rows : FtsIndexInfo → NodeId → List Texts}

theorem notMem_of_rowsOf {id : NodeId} (h : rowsOf t id=[]) : id.toInt64∉t.rows.map Prod.fst := by
  intro hmem
  have ⟨row,hrow,heq⟩ := List.mem_map.mp hmem
  have hin : row.2∈rowsOf t id :=
    List.mem_map.mpr ⟨row,List.mem_filter.mpr ⟨hrow,by simpa using heq⟩,rfl⟩
  rw [h] at hin
  exact absurd hin List.not_mem_nil

/-- A table that the listing reads as an index. -/
structure TableOk (name : String) (t : FtsTable) (info : FtsIndexInfo) : Prop where
  /-- All shadow tables are there. -/
  shadows : t.shadows=shadowSuffixes
  /-- Its name and declaration describe the index. -/
  describes : ftsInfo name t=some info
  /-- The listing selects its name. -/
  listed : likeMatch "node_fts_%".toList name.toList=true
  /-- Only multi-property tables may have several columns. -/
  width : (stripPrefix "node_fts_multi_" name).isSome=true ∨ info.properties.length=1

/-- An index that is in the database. -/
def Listed (st : Store) (info : FtsIndexInfo) : Prop :=
  ∃ t,get st.ftsTables info.tableName=some t ∧ TableOk info.tableName t info

/-- Every full-text table is an index and holds exactly the given rows. -/
def FtsMirrors (st : Store) (rows : FtsIndexInfo → NodeId → List Texts) : Prop :=
  ∀ name t,get st.ftsTables name=some t →
    ∃ info,TableOk name t info ∧ ∀ id,rowsOf t id=rows info id

/-- The row that a node record gives in an index: the record carries the label
and has a text under a covered property. -/
def expectedRows (record : Option NodeRecord) (info : FtsIndexInfo) : List Texts :=
  match record with
  | none => []
  | some r =>
    let texts := textsOf (some r.properties) info.properties
    if info.label∈r.labels ∧ anyText texts=true then [texts] else []

theorem expectedRows_carried {r : NodeRecord} (h : info.label∈r.labels) :
    expectedRows (some r) info= if anyText (textsOf (some r.properties) info.properties)=true then
    [textsOf (some r.properties) info.properties] else [] := by
  unfold expectedRows
  simp only [h,true_and]

theorem expectedRows_free {r : NodeRecord} (h : info.label∉r.labels) : expectedRows (some r) info=[] := if_neg fun hx => h hx.1

/-- Every full-text table holds exactly the rows of the stored nodes. -/
def FullTextMirrors (st : Store) : Prop :=
  FtsMirrors st fun info id => expectedRows (recordAt st id) info

theorem ftsInfo_tableName {name : String} (h : ftsInfo name t=some info) : info.tableName=name := by
  unfold ftsInfo at h
  cases hsingle : stripPrefix "node_fts$" name with
  | some rest =>
    rw [hsingle] at h
    have ⟨parts,_,heq⟩ := Option.map_eq_some_iff.mp h
    rw [←heq]
  | none =>
    rw [hsingle] at h
    cases hmulti : stripPrefix "node_fts_multi_" name with
    | some rest =>
      rw [hmulti] at h
      have ⟨parts,_,heq⟩ := Option.map_eq_some_iff.mp h
      rw [←heq]
    | none =>
      rw [hmulti] at h
      cases hlegacy : stripPrefix "node_fts_" name with
      | some rest =>
        rw [hlegacy] at h
        have ⟨parts,_,heq⟩ := Option.map_eq_some_iff.mp h
        rw [←heq]
      | none =>
        rw [hlegacy] at h
        cases h

theorem TableOk.unique {name : String} {a b : FtsIndexInfo} (ha : TableOk name t a) (hb : TableOk name t b) : a=b := Option.some.inj (ha.describes.symm.trans hb.describes)

theorem FtsMirrors.congr {rows rows' : FtsIndexInfo → NodeId → List Texts} (h : FtsMirrors st rows)
    (hsame : ∀ info,Listed st info → ∀ id,rows info id=rows' info id) : FtsMirrors st rows' := by
  intro name t hget
  have ⟨info,hok,hrows⟩ := h name t hget
  have hname := ftsInfo_tableName hok.describes
  refine ⟨info,hok,fun id => (hrows id).trans (hsame info ⟨t,?_,?_⟩ id)⟩
  · rw [hname]
    exact hget
  · rw [hname]
    exact hok

theorem FtsMirrors.rowsOf_listed (h : FtsMirrors st rows) (hget : get st.ftsTables info.tableName=some t)
    (hok : TableOk info.tableName t info) (id : NodeId) : rowsOf t id=rows info id := by
  have ⟨other,hother,hrows⟩ := h info.tableName t hget
  rw [hok.unique hother]
  exact hrows id

theorem mem_listAllFulltextIndexes (h : FtsMirrors st rows) : info∈listAllFulltextIndexes st ↔ Listed st info := by
  unfold listAllFulltextIndexes
  rw [List.mem_filterMap]
  constructor
  · intro hmem
    have ⟨row,hrow,hinfo⟩ := hmem
    have hname := ftsInfo_tableName hinfo
    have hget : get st.ftsTables row.1=some row.2 := get_eq_some.mpr (List.mem_filter.mp hrow).1
    have ⟨other,hok,_⟩ := h row.1 row.2 hget
    have hsame : other=info := Option.some.inj (hok.describes.symm.trans hinfo)
    rw [hsame] at hok
    refine ⟨row.2,?_,?_⟩
    · rw [hname]
      exact hget
    · rw [hname]
      exact hok
  · intro hmem
    have ⟨t,hget,hok⟩ := hmem
    exact ⟨(info.tableName,t),List.mem_filter.mpr ⟨get_eq_some.mp hget,hok.listed⟩,hok.describes⟩

theorem mem_listFulltextIndexesForLabel (h : FtsMirrors st rows) {label : String} :
    info∈listFulltextIndexesForLabel st label ↔ Listed st info ∧ info.label=label := by
  unfold listFulltextIndexesForLabel
  rw [List.mem_filter,mem_listAllFulltextIndexes h,decide_eq_true_iff]

theorem listFulltextIndexesForLabel_distinct (st : Store) (label : String) :
    (listFulltextIndexesForLabel st label).Pairwise fun a b => a.tableName≠b.tableName := by
  unfold listFulltextIndexesForLabel listAllFulltextIndexes
  refine List.Pairwise.filter _ (List.pairwise_filterMap.mpr (List.Pairwise.filter _ ?_))
  have hnodup := List.pairwise_map.mp (keys_nodup st.ftsTables)
  refine hnodup.imp fun hne a ha b hb => ?_
  rw [ftsInfo_tableName ha,ftsInfo_tableName hb]
  exact hne

section Edits

variable {engine : FtsEngine} {st : Store} {id : NodeId}

/-- The store with one full-text table replaced. -/
def withTable (st : Store) (table : String) (t : FtsTable) : Store :=
  {st with ftsTables := put st.ftsTables table t}

theorem ftsDelete_ok {table : String} {t : FtsTable} (hget : get st.ftsTables table=some t)
    (hshadows : t.shadows=shadowSuffixes) (rowid : Int64) :
    ftsDelete table rowid st=
      (.ok (),withTable st table {t with rows := t.rows.filter fun row => row.1≠rowid}) := by
  unfold ftsDelete
  rw [hget]
  dsimp only
  rw [if_neg (by simpa using hshadows)]
  rfl

theorem ftsInsert_ok {table : String} {t : FtsTable} (hget : get st.ftsTables table=some t)
    (hshadows : t.shadows=shadowSuffixes) (hempty : rowsOf t id=[]) (texts : Texts) :
    ftsInsert engine table id.toInt64 texts st=
      (.ok (),withTable st table {t with rows := t.rows++[(id.toInt64,texts)]}) := by
  unfold ftsInsert
  rw [hget]
  dsimp only
  rw [if_neg (by simpa using hshadows),if_neg fun h => notMem_of_rowsOf hempty h.1]
  rfl

/-- An action on the table of one index that replaces the rows of a node there,
provided the rows meet a condition. -/
def Edits (id : NodeId) (pre : FtsIndexInfo → List Texts → Prop)
    (f : FtsIndexInfo → List Texts → List Texts) (body : FtsIndexInfo → Db Unit) : Prop :=
  ∀ st info t,get st.ftsTables info.tableName=some t → TableOk info.tableName t info →
    pre info (rowsOf t id) →
    ∃ t',body info st=(.ok (),withTable st info.tableName t') ∧ TableOk info.tableName t' info ∧
      ∀ other,rowsOf t' other=if other=id then f info (rowsOf t id) else rowsOf t other

/-- Rows of a node after the rows that a list of texts gives are deleted. -/
def clearedRows (texts : Texts) (rows : List Texts) : List Texts :=
  if anyText texts=true then [] else rows

theorem deleteOldTexts_edits (texts : FtsIndexInfo → Texts) :
    Edits id (fun _ _ => True) (fun info rows => clearedRows (texts info) rows)
      (fun info => deleteOldTexts info.tableName id (texts info)) := by
  intro st info t hget hok _
  change ∃ t',deleteOldTexts info.tableName id (texts info) st=_ ∧ _ ∧
    ∀ other,_=if other=id then clearedRows (texts info) (rowsOf t id) else rowsOf t other
  unfold deleteOldTexts clearedRows
  by_cases hany : anyText (texts info)=true
  · refine ⟨{t with rows := t.rows.filter fun row => row.1≠id.toInt64},?_,?_,fun other => ?_⟩
    · rw [if_pos hany,ftsDelete_ok hget hok.shadows]
    · exact ⟨hok.shadows,hok.describes,hok.listed,hok.width⟩
    · rw [rowsOf_delete,if_pos hany]
  · refine ⟨t,?_,hok,fun other => ?_⟩
    · rw [if_neg hany,withTable,put_same hget]
      rfl
    · rw [if_neg hany]
      split_ifs with hid
      · rw [hid]
      · rfl

theorem insertNewTexts_edits (properties : FtsIndexInfo → Texts)
    (hwidth : ∀ info,(properties info).length=info.properties.length) :
    Edits id (fun info rows => anyText (properties info)=true → rows=[])
      (fun info rows => if anyText (properties info)=true then [properties info] else rows)
      (fun info => insertNewTexts engine info.tableName id (properties info)) := by
  intro st info t hget hok hpre
  change ∃ t',insertNewTexts engine info.tableName id (properties info) st=_ ∧ _ ∧
    ∀ other,_=if other=id then (if anyText (properties info)=true then [properties info]
      else rowsOf t id) else rowsOf t other
  unfold insertNewTexts
  by_cases hany : anyText (properties info)=true
  · have hempty := hpre hany
    refine ⟨{t with rows := t.rows++[(id.toInt64,properties info)]},?_,?_,fun other => ?_⟩
    · rw [if_pos hany]
      by_cases hmulti : (stripPrefix "node_fts_multi_" info.tableName).isSome=true
      · rw [if_pos hmulti,ftsInsert_ok hget hok.shadows hempty]
      · have hone : info.properties.length=1 := by
          rcases hok.width with hm|hone
          · exact absurd hm hmulti
          · exact hone
        have htake : (properties info).take 1=properties info := by
          rw [List.take_of_length_le]
          rw [hwidth,hone]
        rw [if_neg hmulti,htake,ftsInsert_ok hget hok.shadows hempty]
    · exact ⟨hok.shadows,hok.describes,hok.listed,hok.width⟩
    · rw [rowsOf_insert,if_pos hany]
      split_ifs with hid
      · rw [hid,hempty]
        rfl
      · rw [List.append_nil]
  · refine ⟨t,?_,hok,fun other => ?_⟩
    · rw [if_neg hany,withTable,put_same hget]
      rfl
    · rw [if_neg hany]
      split_ifs with hid
      · rw [hid]
      · rfl

theorem Edits.bind {pre pre' : FtsIndexInfo → List Texts → Prop}
    {f g : FtsIndexInfo → List Texts → List Texts} {first second : FtsIndexInfo → Db Unit}
    (hf : Edits id pre f first) (hg : Edits id pre' g second) :
    Edits id (fun info rows => pre info rows ∧ pre' info (f info rows))
      (fun info rows => g info (f info rows)) (fun info => first info >>= fun _ => second info) := by
  intro st info t hget hok hpre
  have ⟨t₁,hrun₁,hok₁,hrows₁⟩ := hf st info t hget hok hpre.1
  have hmid : rowsOf t₁ id=f info (rowsOf t id) := by rw [hrows₁,if_pos rfl]
  have ⟨t₂,hrun₂,hok₂,hrows₂⟩ := hg (withTable st info.tableName t₁) info t₁
    (get_put_self _ _ _) hok₁ (by rw [hmid]; exact hpre.2)
  refine ⟨t₂,?_,hok₂,fun other => ?_⟩
  · change (first info >>= fun _ => second info) st=_
    rw [bind_ok hrun₁,hrun₂,withTable,withTable,put_put]
    rfl
  · rw [hrows₂,hmid,hrows₁]
    split_ifs with hid
    · rfl
    · rfl

/-- Whether an insertion of the new texts finds the node without a row: nothing
changes, or a row was deleted before, or there is none. -/
def Admits (old : Option Properties) (new : Properties) (info : FtsIndexInfo) (rows : List Texts) :
    Prop :=
  textsOf old info.properties=textsOf (some new) info.properties ∨
    anyText (textsOf old info.properties)=true ∨ rows=[]

/-- Rows of a node after maintenance. -/
def syncedRows (old : Option Properties) (new : Properties) (info : FtsIndexInfo) (rows : List Texts) :
    List Texts :=
  if textsOf old info.properties=textsOf (some new) info.properties then rows
  else if anyText (textsOf (some new) info.properties)=true then
    [textsOf (some new) info.properties]
  else []

theorem updateFtsForNodeOneIndex_edits (old : Option Properties) (new : Properties) :
    Edits id (Admits old new) (syncedRows old new) (updateFtsForNodeOneIndex engine id old new) := by
  have hdelete : Edits id _ _ _ := deleteOldTexts_edits fun info => textsOf old info.properties
  have hinsert : Edits id _ _ _ := @insertNewTexts_edits engine id
    (fun info => textsOf (some new) info.properties) fun info => by simp [textsOf]
  have hboth := hdelete.bind hinsert
  intro st info t hget hok hpre
  unfold updateFtsForNodeOneIndex syncedRows
  by_cases hsame : textsOf old info.properties=textsOf (some new) info.properties
  · refine ⟨t,?_,hok,fun other => ?_⟩
    · rw [if_pos hsame,withTable,put_same hget]
      rfl
    · rw [if_pos hsame]
      split_ifs with hid
      · rw [hid]
      · rfl
  · rw [if_neg hsame]
    have hcleared : clearedRows (textsOf old info.properties) (rowsOf t id)=[] := by
      unfold clearedRows
      rcases hpre with heq|hold|hempty
      · exact absurd heq hsame
      · rw [if_pos hold]
      · rw [hempty]
        split_ifs
        · rfl
        · rfl
    have ⟨t',hrun,hok',hrows⟩ := hboth st info t hget hok ⟨trivial,fun _ => hcleared⟩
    refine ⟨t',hrun,hok',fun other => ?_⟩
    rw [hrows,if_neg hsame]
    dsimp only
    rw [hcleared]

theorem removeTexts_edits (props : Properties) :
    Edits id (fun _ _ => True)
      (fun info rows => clearedRows (textsOf (some props) info.properties) rows)
      (removeTexts id props) :=
  deleteOldTexts_edits fun info => textsOf (some props) info.properties

/-- What a loop of edits leaves: only full-text rows change, and the same indexes
are there. -/
structure OnlyRows (st st' : Store) : Prop where
  /-- Only full-text tables change. -/
  rest : st'={st with ftsTables := st'.ftsTables}
  /-- The same indexes are there. -/
  listed : ∀ info,Listed st' info ↔ Listed st info

theorem OnlyRows.refl (st : Store) : OnlyRows st st := ⟨rfl,fun _ => Iff.rfl⟩

theorem OnlyRows.trans {a b c : Store} (hab : OnlyRows a b) (hbc : OnlyRows b c) : OnlyRows a c :=
  ⟨by rw [hbc.rest,hab.rest],fun info => (hbc.listed info).trans (hab.listed info)⟩

theorem onlyRows_withTable {info : FtsIndexInfo} {t t' : FtsTable}
    (hget : get st.ftsTables info.tableName=some t) (hok : TableOk info.tableName t info)
    (hok' : TableOk info.tableName t' info) : OnlyRows st (withTable st info.tableName t') := by
  refine ⟨rfl,fun other => ?_⟩
  unfold Listed withTable
  dsimp only
  by_cases hname : other.tableName=info.tableName
  · rw [hname,get_put_self,hget]
    constructor
    · intro h
      have ⟨s,hs,hother⟩ := h
      rw [←Option.some.inj hs] at hother
      rw [hother.unique hok']
      exact ⟨t,rfl,hok⟩
    · intro h
      have ⟨s,hs,hother⟩ := h
      rw [←Option.some.inj hs] at hother
      rw [hother.unique hok]
      exact ⟨t',rfl,hok'⟩
  · rw [get_put_ne hname]

theorem Listed.unique {a b : FtsIndexInfo} (ha : Listed st a) (hb : Listed st b)
    (hname : a.tableName=b.tableName) : a=b := by
  have ⟨s,hs,hoks⟩ := ha
  have ⟨t,ht,hokt⟩ := hb
  rw [hname] at hs hoks
  rw [ht] at hs
  rw [Option.some.inj hs] at hokt
  exact hoks.unique hokt

/-- Rows with those of one node replaced in the selected indexes. -/
def editRows (id : NodeId) (sel : FtsIndexInfo → Bool) (f : FtsIndexInfo → List Texts → List Texts)
    (rows : FtsIndexInfo → NodeId → List Texts) (info : FtsIndexInfo) (other : NodeId) : List Texts :=
  if other=id ∧ sel info=true then f info (rows info id) else rows info other

variable {pre : FtsIndexInfo → List Texts → Prop} {sel : FtsIndexInfo → Bool}
  {f : FtsIndexInfo → List Texts → List Texts} {body : FtsIndexInfo → Db Unit}
  {rows : FtsIndexInfo → NodeId → List Texts} {info : FtsIndexInfo}

theorem editRows_pos (h : sel info=true) : editRows id sel f rows info id=f info (rows info id) := by
  rw [editRows,if_pos ⟨rfl,h⟩]

theorem editRows_neg (h : ¬sel info=true) (other : NodeId) :
    editRows id sel f rows info other=rows info other := by
  rw [editRows,if_neg fun hx => h hx.2]

theorem editRows_ne {other : NodeId} (h : other≠id) :
    editRows id sel f rows info other=rows info other := by
  rw [editRows,if_neg fun hx => h hx.1]

theorem rows_ext (id : NodeId) {a b : NodeId → List Texts} (hid : a id=b id) (hne : ∀ other,other≠id → a other=b other)
    (other : NodeId) : a other=b other := by
  by_cases h : other=id
  · rw [h,hid]
  · exact hne other h

theorem FtsMirrors.edit_one (hbody : Edits id pre f body) (h : FtsMirrors st rows)
    (hlisted : Listed st info) (hpre : pre info (rows info id)) :
    ∃ st',body info st=(.ok (),st') ∧ OnlyRows st st' ∧
      FtsMirrors st' (editRows id (fun i => decide (i.tableName=info.tableName)) f rows) := by
  have ⟨t,hget,hok⟩ := hlisted
  have hrows := h.rowsOf_listed hget hok
  have ⟨t',hrun,hok',hedited⟩ := hbody st info t hget hok (by rw [hrows]; exact hpre)
  refine ⟨_,hrun,onlyRows_withTable hget hok hok',fun name s hs => ?_⟩
  rw [withTable,get_put] at hs
  split_ifs at hs with hname
  · rw [←Option.some.inj hs,hname]
    refine ⟨info,hok',rows_ext id ?_ fun other hne => ?_⟩
    · rw [hedited,if_pos rfl,hrows,editRows_pos (by simp)]
    · rw [hedited,if_neg hne,hrows,editRows_ne hne]
  · have ⟨i,hoki,hrowsi⟩ := h name s hs
    refine ⟨i,hoki,fun other => ?_⟩
    have hother : ¬decide (i.tableName=info.tableName)=true := by
      rw [ftsInfo_tableName hoki.describes]
      simpa using hname
    rw [hrowsi,editRows_neg hother]

theorem FtsMirrors.edit_list (hbody : Edits id pre f body) {infos : List FtsIndexInfo}
    (hdistinct : infos.Pairwise fun a b => a.tableName≠b.tableName) (h : FtsMirrors st rows)
    (hall : ∀ i∈infos,Listed st i ∧ pre i (rows i id)) :
    ∃ st',forEach infos body st=(.ok (),st') ∧ OnlyRows st st' ∧
      FtsMirrors st'
        (editRows id (fun i => decide (i.tableName∈infos.map FtsIndexInfo.tableName)) f rows) := by
  induction infos generalizing st rows with
  | nil => exact ⟨st,rfl,OnlyRows.refl st,h.congr fun i _ other => (editRows_neg (by simp) other).symm⟩
  | cons first rest ih =>
    obtain ⟨hne,hrest⟩ := List.pairwise_cons.mp hdistinct
    obtain ⟨hfirst,hothers⟩ := List.forall_mem_cons.mp hall
    obtain ⟨st₁,hrun₁,honly₁,hmirror₁⟩ := h.edit_one hbody hfirst.1 hfirst.2
    have hall₁ : ∀ i∈rest,Listed st₁ i ∧
        pre i (editRows id (fun i => decide (i.tableName=first.tableName)) f rows i id) := by
      intro i hi
      have hother : ¬decide (i.tableName=first.tableName)=true := by simpa using (hne i hi).symm
      rw [editRows_neg hother]
      exact ⟨(honly₁.listed i).mpr (hothers i hi).1,(hothers i hi).2⟩
    obtain ⟨st₂,hrun₂,honly₂,hmirror₂⟩ := ih hrest hmirror₁ hall₁
    refine ⟨st₂,?_,honly₁.trans honly₂,hmirror₂.congr fun i _ => rows_ext id ?_ ?_⟩
    · rw [forEach,bind_ok hrun₁,hrun₂]
    · by_cases hname : i.tableName=first.tableName
      · have hnot : ¬decide (i.tableName∈rest.map FtsIndexInfo.tableName)=true := by
          intro hmem
          obtain ⟨j,hj,hsame⟩ := List.mem_map.mp (of_decide_eq_true hmem)
          exact hne j hj (hname.symm.trans hsame.symm)
        rw [editRows_neg hnot,editRows_pos (by simpa using hname),editRows_pos (by simp [hname])]
      · by_cases hmem : i.tableName∈rest.map FtsIndexInfo.tableName
        · rw [editRows_pos (by simpa using hmem),editRows_neg (by simpa using hname),
            editRows_pos (by rw [List.map_cons]; exact decide_eq_true (List.mem_cons_of_mem _ hmem))]
        · have hnot : ¬decide (i.tableName∈(first::rest).map FtsIndexInfo.tableName)=true := by
            rw [decide_eq_true_iff,List.map_cons,List.mem_cons]
            exact fun hx => hx.elim hname hmem
          rw [editRows_neg (by simpa using hmem),editRows_neg (by simpa using hname),editRows_neg hnot]
    · intro other hother
      rw [editRows_ne hother,editRows_ne hother,editRows_ne hother]

/-- The edits of one label. -/
def editLabel (body : FtsIndexInfo → Db Unit) (label : String) : Db Unit := do
  let infos ← inspect fun st => .ok (listFulltextIndexesForLabel st label)
  forEach infos body

theorem FtsMirrors.edit_label (hbody : Edits id pre f body) (h : FtsMirrors st rows) (label : String)
    (hpre : ∀ i,Listed st i → i.label=label → pre i (rows i id)) :
    ∃ st',editLabel body label st=(.ok (),st') ∧ OnlyRows st st' ∧
      FtsMirrors st' (editRows id (fun i => decide (i.label=label)) f rows) := by
  have hall : ∀ i∈listFulltextIndexesForLabel st label,Listed st i ∧ pre i (rows i id) := by
    intro i hi
    have ⟨hlisted,hlabel⟩ := (mem_listFulltextIndexesForLabel h).mp hi
    exact ⟨hlisted,hpre i hlisted hlabel⟩
  have ⟨st',hrun,honly,hmirror⟩ :=
    h.edit_list hbody (listFulltextIndexesForLabel_distinct st label) hall
  refine ⟨st',?_,honly,hmirror.congr fun i hi => rows_ext id ?_ ?_⟩
  · unfold editLabel
    rw [inspect_ok (by rfl),hrun]
  · have hlisted := (honly.listed i).mp hi
    by_cases hlabel : i.label=label
    · have hmem := (mem_listFulltextIndexesForLabel h).mpr ⟨hlisted,hlabel⟩
      have hname := List.mem_map_of_mem (f:=FtsIndexInfo.tableName) hmem
      rw [editRows_pos (decide_eq_true hname),editRows_pos (decide_eq_true hlabel)]
    · have hnot : ¬decide (i.tableName∈(listFulltextIndexesForLabel st label).map
          FtsIndexInfo.tableName)=true := by
        intro hname
        have ⟨j,hj,hsame⟩ := List.mem_map.mp (of_decide_eq_true hname)
        have ⟨hlistedj,hlabelj⟩ := (mem_listFulltextIndexesForLabel h).mp hj
        rw [hlistedj.unique hlisted hsame] at hlabelj
        exact hlabel hlabelj
      rw [editRows_neg hnot,editRows_neg (by simpa using hlabel)]
  · intro other hother
    rw [editRows_ne hother,editRows_ne hother]

/-- The edits of a list of labels move the mirror in the indexes of the labels; a
repeated label needs the condition again after its first edit. -/
theorem FtsMirrors.edit_labels (hbody : Edits id pre f body)
    (hidem : ∀ i old,f i (f i old)=f i old) (h : FtsMirrors st rows) (labels : List String)
    (hfirst : ∀ i,Listed st i → i.label∈labels → pre i (rows i id))
    (hagain : ∀ i,Listed st i → 2≤labels.count i.label → pre i (f i (rows i id))) :
    ∃ st',forEach labels (editLabel body) st=(.ok (),st') ∧ OnlyRows st st' ∧
      FtsMirrors st' (editRows id (fun i => decide (i.label∈labels)) f rows) := by
  induction labels generalizing st rows with
  | nil => exact ⟨st,rfl,OnlyRows.refl st,h.congr fun i _ other => (editRows_neg (by simp) other).symm⟩
  | cons label rest ih =>
    have ⟨st₁,hrun₁,honly₁,hmirror₁⟩ := h.edit_label hbody label fun i hi hlabel =>
      hfirst i hi (by rw [hlabel]; exact List.mem_cons_self)
    have hfirst₁ : ∀ i,Listed st₁ i → i.label∈rest →
        pre i (editRows id (fun i => decide (i.label=label)) f rows i id) := by
      intro i hi hmem
      have hlisted := (honly₁.listed i).mp hi
      by_cases hlabel : i.label=label
      · rw [editRows_pos (decide_eq_true hlabel)]
        have hpos := List.count_pos_iff.mpr hmem
        refine hagain i hlisted ?_
        rw [hlabel] at hpos ⊢
        rw [List.count_cons_self]
        omega
      · rw [editRows_neg (by simpa using hlabel)]
        exact hfirst i hlisted (List.mem_cons_of_mem _ hmem)
    have hagain₁ : ∀ i,Listed st₁ i → 2 ≤ rest.count i.label →
        pre i (f i (editRows id (fun i => decide (i.label=label)) f rows i id)) := by
      intro i hi hcount
      have hlisted := (honly₁.listed i).mp hi
      have hmore := hagain i hlisted (Nat.le_trans hcount (List.count_le_count_cons))
      by_cases hlabel : i.label=label
      · rw [editRows_pos (decide_eq_true hlabel),hidem]
        exact hmore
      · rw [editRows_neg (by simpa using hlabel)]
        exact hmore
    have ⟨st₂,hrun₂,honly₂,hmirror₂⟩ := ih hmirror₁ hfirst₁ hagain₁
    refine ⟨st₂,?_,honly₁.trans honly₂,hmirror₂.congr fun i _ => rows_ext id ?_ ?_⟩
    · rw [forEach,bind_ok hrun₁,hrun₂]
    · by_cases hlabel : i.label=label
      · have hall : decide (i.label∈label::rest)=true := by
          rw [hlabel]
          exact decide_eq_true List.mem_cons_self
        by_cases hmem : i.label∈rest
        · rw [editRows_pos (decide_eq_true hmem),editRows_pos (decide_eq_true hlabel),hidem,
            editRows_pos hall]
        · rw [editRows_neg (by simpa using hmem),editRows_pos (decide_eq_true hlabel),
            editRows_pos hall]
      · by_cases hmem : i.label∈rest
        · rw [editRows_pos (decide_eq_true hmem),editRows_neg (by simpa using hlabel),
            editRows_pos (decide_eq_true (List.mem_cons_of_mem _ hmem))]
        · have hnot : ¬decide (i.label∈label::rest)=true := by
            rw [decide_eq_true_iff,List.mem_cons]
            exact fun hx => hx.elim hlabel hmem
          rw [editRows_neg (by simpa using hmem),editRows_neg (by simpa using hlabel),editRows_neg hnot]
    · intro other hother
      rw [editRows_ne hother,editRows_ne hother,editRows_ne hother]

end Edits

/-- The inductive invariant: a well-formed database whose full-text indexes
mirror the nodes. -/
structure FtsInv (st : Store) : Prop where
  /-- The node tables are well formed. -/
  nodes : NodesOk st
  /-- Index tables are named after checked definitions. -/
  names : WellNamed st
  /-- The full-text indexes mirror the nodes. -/
  mirror : FullTextMirrors st

variable {st st' : Store}

theorem FtsMirrors.of_ftsTables {rows : FtsIndexInfo → NodeId → List Texts} (h : FtsMirrors st rows)
    (htables : st'.ftsTables=st.ftsTables) : FtsMirrors st' rows := by
  unfold FtsMirrors
  rw [htables]
  exact h

theorem listed_iff (htables : st'.ftsTables=st.ftsTables) (info : FtsIndexInfo) : Listed st' info ↔ Listed st info := by
  unfold Listed
  rw [htables]

theorem wellNamed_of_indexTables (h : WellNamed st) (htables : st'.indexTables=st.indexTables) : WellNamed st' := by
  intro name hname
  rw [htables] at hname
  exact h name hname

theorem ftsInv_freshStore : FtsInv freshStore := by
  refine ⟨nodesOk_freshStore,?_,?_⟩
  · intro name hname
    exact absurd hname List.not_mem_nil
  · intro name t hget
    rw [freshStore,get_empty] at hget
    cases hget

theorem FtsInv.of_unseen (h : FtsInv st) (hsame : Unseen st st') : FtsInv st' := by
  refine ⟨h.nodes.of_unseen hsame,wellNamed_of_indexTables h.names hsame.indexTables,?_⟩
  refine (h.mirror.of_ftsTables hsame.ftsTables).congr fun info _ id => ?_
  rw [hsame.recordAt]

section Maintained

variable {E : Type} {env : ExecEnv E} {st st₁ : Store} {id : NodeId}

/-- Edits around a node write lead to the invariant when they turn the old rows
of the node into the new ones. -/
theorem ftsInv_edited (record : Option NodeRecord) {sel : FtsIndexInfo → Bool}
    {f : FtsIndexInfo → List Texts → List Texts}
    (hfts : FtsMirrors st₁ (editRows id sel f fun info id => expectedRows (recordAt st id) info))
    (hlisted : ∀ info,Listed st₁ info ↔ Listed st info) (hnames : WellNamed st₁) (hok : NodesOk st₁)
    (hview : ∀ other,recordAt st₁ other=if other=id then record else recordAt st other)
    (hrows : ∀ info,Listed st info → expectedRows record info=
      if sel info=true then f info (expectedRows (recordAt st id) info)
      else expectedRows (recordAt st id) info) : FtsInv st₁ := by
  refine ⟨hok,hnames,hfts.congr fun info hinfo => rows_ext id ?_ fun other hne => ?_⟩
  · rw [hview,if_pos rfl,hrows info ((hlisted info).mp hinfo)]
    by_cases hsel : sel info=true
    · rw [editRows_pos hsel,if_pos hsel]
    · rw [editRows_neg hsel,if_neg hsel]
  · rw [editRows_ne hne,hview,if_neg hne]

/-- A node write followed by its maintenance succeeds and keeps the invariant. -/
theorem FtsInv.maintained {record : Option NodeRecord} (h : FtsInv st)
    (hw : RecordWritten id record st st₁) {labels : List String} {old : Option Properties}
    {new : Properties}
    (hfirst : ∀ info,Listed st info → info.label∈labels →
      Admits old new info (expectedRows (recordAt st id) info))
    (hagain : ∀ info,Listed st info → 2≤labels.count info.label →
      Admits old new info (syncedRows old new info (expectedRows (recordAt st id) info)))
    (hrows : ∀ info,Listed st info → expectedRows record info=
      if decide (info.label∈labels)=true then
        syncedRows old new info (expectedRows (recordAt st id) info)
      else expectedRows (recordAt st id) info) :
    ∃ st₂,maintainNode env id labels old new st₁=(.ok (),st₂) ∧ FtsInv st₂ := by
  have ⟨st₂,hrun₂,href⟩ := @updateIndexesForNode_ok env.enc st₁
    (wellNamed_of_indexTables h.names hw.indexTables) id labels old new
  have htables : st₂.ftsTables=st.ftsTables := by
    rw [href.rest]
    exact hw.ftsTables
  have hlisted₂ := listed_iff htables
  have hidem : ∀ info rows,syncedRows old new info (syncedRows old new info rows)=
      syncedRows old new info rows := by
    intro info rows
    unfold syncedRows
    split_ifs
    · rfl
    · rfl
    · rfl
  have ⟨st₃,hrun₃,honly,hmirror⟩ := (h.mirror.of_ftsTables htables).edit_labels
    (@updateFtsForNodeOneIndex_edits env.engine id old new) hidem labels
    (fun info hinfo hlabel => hfirst info ((hlisted₂ info).mp hinfo) hlabel)
    (fun info hinfo hcount => hagain info ((hlisted₂ info).mp hinfo) hcount)
  refine ⟨st₃,?_,ftsInv_edited record hmirror ?_ ?_ ?_ ?_ hrows⟩
  · unfold maintainNode
    rw [bind_ok hrun₂]
    exact hrun₃
  · intro info
    rw [honly.listed,hlisted₂]
  · rw [honly.rest]
    exact href.wellNamed (wellNamed_of_indexTables h.names hw.indexTables)
  · rw [honly.rest,href.rest]
    exact hw.ok.withTables _ _
  · intro other
    rw [honly.rest,href.rest]
    exact hw.view other

theorem anyText_none (properties : List String) : anyText (textsOf none properties)=false := by
  unfold anyText textsOf
  rw [List.any_eq_false]
  intro text htext
  have ⟨p,_,hp⟩ := List.mem_map.mp htext
  rw [←hp]
  simp

theorem textsOf_none {props : Properties} {properties : List String}
    (h : anyText (textsOf (some props) properties)=false) :
    textsOf none properties=textsOf (some props) properties := by
  unfold anyText textsOf at h
  rw [List.any_map,List.any_eq_false] at h
  unfold textsOf
  refine List.map_congr_left fun p hp => ?_
  have hnone := h p hp
  rw [Function.comp,Option.bind_some] at hnone
  rw [Option.bind_none,Option.bind_some]
  exact (Option.not_isSome_iff_eq_none.mp hnone).symm

/-- A repeated label needs texts that are there before as soon as there are texts
afterwards: its second visit then deletes before it inserts. -/
def Refreshable (st : Store) (labels : List String) (old : Option Properties) (new : Properties) : Prop :=
  ∀ info∈listAllFulltextIndexes st,2≤labels.count info.label →
    anyText (textsOf (some new) info.properties)=true →
    anyText (textsOf old info.properties)=true

theorem FtsInv.admits_again {labels : List String} {old : Option Properties} {new : Properties}
    (h : FtsInv st) (hguard : Refreshable st labels old new) {info : FtsIndexInfo}
    (hinfo : Listed st info) (hcount : 2≤labels.count info.label) {rows : List Texts}
    (hrows : rows=[] ∨ anyText (textsOf old info.properties)=true) :
    Admits old new info (syncedRows old new info rows) := by
  have hmem := (mem_listAllFulltextIndexes h.mirror).mpr hinfo
  cases hold : anyText (textsOf old info.properties) with
  | true => exact Or.inr (Or.inl hold)
  | false =>
    have hnew : ¬anyText (textsOf (some new) info.properties)=true := by
      intro hnew
      have hsome := hguard info hmem hcount hnew
      rw [hold] at hsome
      cases hsome
    have hempty : rows=[] := by
      rcases hrows with hempty|hsome
      · exact hempty
      · rw [hold] at hsome
        cases hsome
    refine Or.inr (Or.inr ?_)
    unfold syncedRows
    rw [if_neg hnew,hempty]
    split_ifs
    · rfl
    · rfl

theorem FtsInv.rewritten (h : FtsInv st) {record : NodeRecord} (hrec : recordAt st id=some record)
    {new : Properties} (hw : RecordWritten id (some {record with properties := new}) st st₁)
    (hguard : Refreshable st record.labels (some record.properties) new) :
    ∃ st₂,maintainNode env id record.labels (some record.properties) new st₁=(.ok (),st₂) ∧
      FtsInv st₂ := by
  have hrowless : ∀ info : FtsIndexInfo,expectedRows (recordAt st id) info=[] ∨
      anyText (textsOf (some record.properties) info.properties)=true := by
    intro info
    rw [hrec,expectedRows]
    by_cases hcarries : info.label∈record.labels ∧
        anyText (textsOf (some record.properties) info.properties)=true
    · exact Or.inr hcarries.2
    · exact Or.inl (if_neg hcarries)
  refine h.maintained hw ?_ ?_ ?_
  · intro info _ _
    rcases hrowless info with hempty|hold
    · exact Or.inr (Or.inr hempty)
    · exact Or.inr (Or.inl hold)
  · intro info hinfo hcount
    exact h.admits_again hguard hinfo hcount (hrowless info)
  · intro info _
    rw [hrec]
    by_cases hlabel : info.label∈record.labels
    · have hsome : info.label∈({record with properties := new} : NodeRecord).labels := hlabel
      rw [if_pos (decide_eq_true hlabel),expectedRows_carried hlabel,expectedRows_carried hsome,
        syncedRows]
      by_cases hsame : textsOf (some record.properties) info.properties=
          textsOf (some new) info.properties
      · rw [if_pos hsame,hsame]
      · rw [if_neg hsame]
    · have hfree : info.label∉({record with properties := new} : NodeRecord).labels := hlabel
      rw [if_neg (by simpa using hlabel),expectedRows_free hlabel,expectedRows_free hfree]

theorem syncedRows_new (props : Properties) (info : FtsIndexInfo) :
    syncedRows none props info []=
      if anyText (textsOf (some props) info.properties)=true then
        [textsOf (some props) info.properties]
      else [] := by
  unfold syncedRows
  by_cases hsame : textsOf none info.properties=textsOf (some props) info.properties
  · rw [if_pos hsame,←hsame,if_neg (by rw [anyText_none]; simp)]
  · rw [if_neg hsame]

theorem FtsInv.created (h : FtsInv st) (hfresh : recordAt st id=none) {labels sorted : List String}
    (hsorted : ∀ l,l∈sorted ↔ l∈labels) {props : Properties}
    (hw : RecordWritten id (some ⟨sorted,props⟩) st st₁) (hguard : Refreshable st labels none props) :
    ∃ st₂,maintainNode env id labels none props st₁=(.ok (),st₂) ∧ FtsInv st₂ := by
  have hnone : ∀ info,expectedRows (recordAt st id) info=[] := by
    intro info
    rw [hfresh,expectedRows]
  refine h.maintained hw ?_ ?_ ?_
  · intro info _ _
    exact Or.inr (Or.inr (hnone info))
  · intro info hinfo hcount
    exact h.admits_again hguard hinfo hcount (Or.inl (hnone info))
  · intro info _
    rw [hnone]
    by_cases hlabel : info.label∈labels
    · have hcarried : info.label∈(⟨sorted,props⟩ : NodeRecord).labels := (hsorted _).mpr hlabel
      rw [if_pos (decide_eq_true hlabel),expectedRows_carried hcarried,syncedRows_new]
    · have hfree : info.label∉(⟨sorted,props⟩ : NodeRecord).labels :=
        fun hx => hlabel ((hsorted _).mp hx)
      rw [if_neg (by simpa using hlabel),expectedRows_free hfree]

/-- Adding labels that is maintained keeps the invariant, when no index on a
label that the node has already covers one of its texts. -/
theorem FtsInv.labelled (h : FtsInv st) {record : NodeRecord} (hrec : recordAt st id=some record)
    {added : List String} (hw : RecordWritten id (some {record with labels := added}) st st₁)
    (hsub : ∀ l∈record.labels,l∈added) (hcounts : ∀ l,added.count l ≤ max (record.labels.count l) 1)
    (hguard : ∀ info∈listAllFulltextIndexes st,info.label∈record.labels →
      anyText (textsOf (some record.properties) info.properties)=false) :
    ∃ st₂,maintainNode env id added none record.properties st₁=(.ok (),st₂) ∧ FtsInv st₂ := by
  have hcarried : ∀ info,Listed st info → info.label∈record.labels →
      textsOf none info.properties=textsOf (some record.properties) info.properties := by
    intro info hinfo hlabel
    exact textsOf_none (hguard info ((mem_listAllFulltextIndexes h.mirror).mpr hinfo) hlabel)
  have hfree : ∀ info : FtsIndexInfo,info.label∉record.labels →
      expectedRows (recordAt st id) info=[] := by
    intro info hlabel
    rw [hrec]
    exact expectedRows_free hlabel
  refine h.maintained hw ?_ ?_ ?_
  · intro info hinfo _
    by_cases hlabel : info.label∈record.labels
    · exact Or.inl (hcarried info hinfo hlabel)
    · exact Or.inr (Or.inr (hfree info hlabel))
  · intro info hinfo hcount
    by_cases hlabel : info.label∈record.labels
    · exact Or.inl (hcarried info hinfo hlabel)
    · have hzero := List.count_eq_zero_of_not_mem hlabel
      have hle := hcounts info.label
      omega
  · intro info hinfo
    by_cases hlabel : info.label∈record.labels
    · have hsame := hcarried info hinfo hlabel
      have hadded : info.label∈({record with labels := added} : NodeRecord).labels := hsub _ hlabel
      rw [if_pos (decide_eq_true (hsub _ hlabel)),syncedRows,if_pos hsame,hrec,
        expectedRows_carried hlabel,expectedRows_carried hadded]
    · rw [hfree info hlabel]
      by_cases hadded : info.label∈added
      · have hcarries : info.label∈({record with labels := added} : NodeRecord).labels := hadded
        rw [if_pos (decide_eq_true hadded),expectedRows_carried hcarries,syncedRows_new]
      · have hout : info.label∉({record with labels := added} : NodeRecord).labels := hadded
        rw [if_neg (by simpa using hadded),expectedRows_free hout]

theorem clearedRows_expected (labels : List String) (props : Properties) (info : FtsIndexInfo) :
    clearedRows (textsOf (some props) info.properties)
      (expectedRows (some ⟨labels,props⟩) info)=[] := by
  unfold clearedRows
  split_ifs with hany
  · rfl
  · exact if_neg fun hx => hany hx.2

/-- Texts that are edited before a node write, among the rows of the indexes, lead to the
invariant. -/
theorem FtsInv.afterEdits {pick : String → List String → Bool} {g : List String → Table Bytes Unit → Table Bytes Unit}
    {st₂ st₃ : Store} (h : FtsInv st) (href : Refreshed pick g st st₁) (honly : OnlyRows st₁ st₂)
    (record : Option NodeRecord) (hw : RecordWritten id record st₂ st₃)
    {sel : FtsIndexInfo → Bool} {f : FtsIndexInfo → List Texts → List Texts}
    (hmirror : FtsMirrors st₂ (editRows id sel f fun info id => expectedRows (recordAt st id) info))
    (hrows : ∀ info,Listed st info → expectedRows record info=
      if sel info=true then f info (expectedRows (recordAt st id) info)
      else expectedRows (recordAt st id) info) : FtsInv st₃ := by
  have htables : st₁.ftsTables=st.ftsTables := by rw [href.rest]
  refine ftsInv_edited record (hmirror.of_ftsTables hw.ftsTables) ?_ ?_ hw.ok ?_ hrows
  · intro info
    rw [listed_iff hw.ftsTables,honly.listed,listed_iff htables]
  · refine wellNamed_of_indexTables ?_ hw.indexTables
    rw [honly.rest]
    exact href.wellNamed h.names
  · intro other
    rw [hw.view]
    split_ifs with hid
    · rfl
    · rw [honly.rest,href.rest]
      rfl

/-- Taking a label from a node whose properties are known succeeds and keeps the
invariant. -/
theorem FtsInv.unlabelled (h : FtsInv st) {labels : List String} {props : Properties}
    (hrec : recordAt st id=some ⟨labels,props⟩) (label : String) :
    ∃ st₃,removeIndexedLabel env id props label st=(.ok (),st₃) ∧ FtsInv st₃ ∧
      recordAt st₃ id=some ⟨labels.filter (· ≠ label),props⟩ := by
  have ⟨st₁,hrun₁,href⟩ := @removeIndexesForLabel_ok env.enc st h.names id label props
  have htables : st₁.ftsTables=st.ftsTables := by rw [href.rest]
  have ⟨st₂,hrun₂,honly,hmirror⟩ := (h.mirror.of_ftsTables htables).edit_label
    (@removeTexts_edits id props) label fun _ _ _ => trivial
  have hrest : st₂={st with indexTables := st₁.indexTables,ftsTables := st₂.ftsTables} := by
    rw [honly.rest,href.rest]
  have hok : NodesOk st₂ := by
    rw [hrest]
    exact h.nodes.withTables _ _
  have hrec₂ : recordAt st₂ id=some ⟨labels,props⟩ := by
    rw [hrest]
    exact hrec
  have ⟨st₃,hrun₃,hw⟩ := removeNodeLabel_spec hok id label hrec₂
  refine ⟨st₃,?_,h.afterEdits href honly _ hw hmirror fun info _ => ?_,?_⟩
  · unfold removeIndexedLabel
    rw [bind_ok hrun₁]
    have hclear : removeFtsForLabel id label props st₁=(.ok (),st₂) := hrun₂
    rw [bind_ok hclear,hrun₃]
  · rw [hrec]
    by_cases hlabel : info.label=label
    · have hfree : info.label∉({labels := labels.filter (· ≠ label),properties := props} :
          NodeRecord).labels := by simp [hlabel]
      rw [if_pos (decide_eq_true hlabel),clearedRows_expected,expectedRows_free hfree]
    · rw [if_neg (by simpa using hlabel)]
      by_cases hmem : info.label∈labels
      · have hkept : info.label∈({labels := labels.filter (· ≠ label),properties := props} :
            NodeRecord).labels := by simp [hmem,hlabel]
        have hbefore : info.label∈({labels := labels,properties := props} : NodeRecord).labels := hmem
        rw [expectedRows_carried hkept,expectedRows_carried hbefore]
      · have hgone : info.label∉({labels := labels.filter (· ≠ label),properties := props} :
            NodeRecord).labels := by simp [hmem]
        have hbefore : info.label∉({labels := labels,properties := props} : NodeRecord).labels := hmem
        rw [expectedRows_free hgone,expectedRows_free hbefore]
  · rw [hw.view,if_pos rfl]

theorem FtsInv.deleted (h : FtsInv st) {record : NodeRecord} (hrec : recordAt st id=some record) :
    ∃ st₂ st₃,clearNode env id st=(.ok (),st₂) ∧ deleteNode id st₂=(.ok (),st₃) ∧ FtsInv st₃ := by
  have ⟨st₁,hrun₁,href⟩ :=
    @removeIndexesForNode_ok env.enc st h.names id record.labels record.properties
  have htables : st₁.ftsTables=st.ftsTables := by rw [href.rest]
  have hidem : ∀ (info : FtsIndexInfo) rows,
      clearedRows (textsOf (some record.properties) info.properties)
        (clearedRows (textsOf (some record.properties) info.properties) rows)=
      clearedRows (textsOf (some record.properties) info.properties) rows := by
    intro info rows
    unfold clearedRows
    split_ifs
    · rfl
    · rfl
  have ⟨st₂,hrun₂,honly,hmirror⟩ := (h.mirror.of_ftsTables htables).edit_labels
    (@removeTexts_edits id record.properties) hidem record.labels (fun _ _ _ => trivial)
    (fun _ _ _ => trivial)
  have hrest : st₂={st with indexTables := st₁.indexTables,ftsTables := st₂.ftsTables} := by
    rw [honly.rest,href.rest]
  have hok : NodesOk st₂ := by
    rw [hrest]
    exact h.nodes.withTables _ _
  have hrec₂ : recordAt st₂ id=some record := by
    rw [hrest]
    exact hrec
  have ⟨st₃,hrun₃,hw⟩ := deleteNode_spec hok hrec₂
  refine ⟨st₂,st₃,?_,hrun₃,h.afterEdits href honly none hw hmirror fun info _ => ?_⟩
  · have hclear : removeFtsForNode id record.labels record.properties st₁=(.ok (),st₂) := hrun₂
    rw [clearNode,getNode_of_recordAt hrec]
    dsimp only
    rw [bind_ok (show attempt _ st=(.ok (),st₁) by rw [attempt_apply,hrun₁]),attempt_apply,hclear]
  · rw [hrec]
    by_cases hlabel : info.label∈record.labels
    · rw [if_pos (decide_eq_true hlabel)]
      exact (clearedRows_expected record.labels record.properties info).symm
    · rw [if_neg (by simpa using hlabel),expectedRows_free hlabel]
      rfl

end Maintained

end GraphDbLite.FullTextMirror
