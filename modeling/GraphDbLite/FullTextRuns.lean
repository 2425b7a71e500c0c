import GraphDbLite.FullTextMirror

/-!
# Runs of full-text definitions and write clauses

Creating a full-text index fills a new table from the label scan, which compares
with LIKE; dropping one removes a table. Between them any write clauses run on any
records. The mirror holds in every state reached, and no insertion finds its row
already there, as long as scans find only nodes that carry the label, no label is
visited twice with new texts, labels that a node has are not set again over its
texts, and no shadow table is dropped.
-/

namespace GraphDbLite.FullTextRuns

open ByteStrings GraphTypes OrderedTable StatefulActions GraphStore EdgeStorage NodeStorage
open LikePattern SecondaryIndex FullText WriteOperators NodeView IndexMirror FullTextMirror

/-- Table name of a single-property index. -/
def singleTableName (label property : String) : String :=
  "node_fts$"++(label++(String.ofList ['$']++property))

/-- Older table name of a single-property index. -/
def legacyTableName (label property : String) : String := "node_fts_"++(label++("_"++property))

theorem ftsTableName_ok_iff {label property table : String} :
    ftsTableName label property=.ok table ↔
      isValidName label=true ∧ isValidName property=true ∧ table=singleTableName label property := by
  unfold ftsTableName
  rw [←validateName_ok_iff,←validateName_ok_iff]
  cases validateName label with
  | error e => simp [bind,Except.bind]
  | ok u =>
    cases validateName property with
    | error e => simp [bind,Except.bind]
    | ok v => simp [bind,Except.bind,pure,Except.pure,singleTableName,eq_comm]

theorem legacyFtsTableName_ok {label property : String} (hlabel : isValidName label=true)
    (hproperty : isValidName property=true) :
    legacyFtsTableName label property=.ok (legacyTableName label property) := by
  unfold legacyFtsTableName
  rw [validateName_ok_iff.mpr hlabel,validateName_ok_iff.mpr hproperty]
  rfl

theorem likeMatch_node_fts (c : Char) (rest : List Char) :
    likeMatch "node_fts_%".toList ("node_fts".toList++(c::rest))=true := by
  have hpattern : "node_fts_%".toList="node_fts".toList++['_','%'] := by simp
  rw [hpattern]
  refine likeMatch_append (likeMatch_self _) ?_
  exact (likeMatch_cons (by decide)).mpr ⟨Or.inl rfl,likeMatch_any rest⟩

theorem tableOk_single {label property : String} (hlabel : isValidName label=true)
    (t : FtsTable) (hshadows : t.shadows=shadowSuffixes) :
    TableOk (singleTableName label property) t
      ⟨label,[property],parseTokenizerKind (ftsSql (singleTableName label property) t),
        singleTableName label property⟩ := by
  have hdollar : '$'∉label.toList := dollar_notMem hlabel
  refine ⟨hshadows,?_,?_,Or.inr rfl⟩
  · unfold ftsInfo singleTableName
    dsimp only
    rw [stripPrefix_append]
    dsimp only
    rw [cutFirst_append hdollar,Option.map_some]
  · have hsplit : (singleTableName label property).toList=
        "node_fts".toList++('$'::(label++(String.ofList ['$']++property)).toList) := by
      have hfront : "node_fts$".toList="node_fts".toList++['$'] := by simp
      rw [singleTableName,String.toList_append,hfront,List.append_assoc,List.singleton_append]
    rw [hsplit]
    exact likeMatch_node_fts _ _

theorem underscore_notMem_toString (n : Nat) : '_'∉(toString n).toList := by
  intro hmem
  rw [Nat.toString_eq_repr,Nat.toList_repr] at hmem
  have hdigit := Nat.isDigit_of_mem_toDigits (by decide) (by decide) hmem
  exact absurd hdigit (by decide)

/-- Table name of a multi-property index. -/
def multiTableName (label : String) (n : Nat) : String :=
  "node_fts_multi_"++(label++(String.ofList ['_']++toString n))

theorem tableOk_multi (label : String) (n : Nat) (t : FtsTable) (hshadows : t.shadows=shadowSuffixes) :
    TableOk (multiTableName label n) t
      ⟨label,t.columns,parseTokenizerKind (ftsSql (multiTableName label n) t),
        multiTableName label n⟩ := by
  have hfront : "node_fts_multi_".toList="node_fts".toList++('_'::"multi_".toList) := by simp
  have hsingle : stripPrefix "node_fts$" (multiTableName label n)=none := by
    have hdollar : "node_fts$".toList="node_fts".toList++['$'] := by simp
    cases hstrip : stripPrefix "node_fts$" (multiTableName label n) with
    | none => rfl
    | some rest =>
      have htext := congrArg String.toList (stripPrefix_eq_some.mp hstrip)
      have hright : ("node_fts$"++rest).toList="node_fts".toList++('$'::rest.toList) := by
        rw [String.toList_append,hdollar,List.append_assoc,List.singleton_append]
      rw [hright,multiTableName,String.toList_append,hfront,List.append_assoc] at htext
      have htail := List.append_cancel_left htext
      exact absurd (List.head_eq_of_cons_eq htail) (by decide)
  refine ⟨hshadows,?_,?_,Or.inl ?_⟩
  · unfold ftsInfo
    dsimp only
    rw [hsingle]
    dsimp only
    rw [multiTableName,stripPrefix_append]
    dsimp only
    rw [cutLast_append label (underscore_notMem_toString n),Option.map_some]
  · have hsplit : (multiTableName label n).toList="node_fts".toList++('_'::("multi_".toList++
        (label++(String.ofList ['_']++toString n)).toList)) := by
      rw [multiTableName,String.toList_append,hfront,List.append_assoc]
      rfl
    rw [hsplit]
    exact likeMatch_node_fts _ _
  · rw [multiTableName,stripPrefix_append]
    rfl

theorem ftsMultiTableName_ok {st : Store} {label table : String}
    (h : ftsMultiTableName st label=.ok table) :
    isValidName label=true ∧ ∃ n,table=multiTableName label n := by
  unfold ftsMultiTableName at h
  cases hname : validateName label with
  | error e =>
    rw [hname] at h
    cases h
  | ok u =>
    rw [hname] at h
    refine ⟨validateName_ok_iff.mp hname,?_⟩
    have htable := Except.ok.inj h
    rw [String.append_assoc,String.append_assoc] at htable
    exact ⟨_,htable.symm⟩

section Fill

variable {engine : FtsEngine}

/-- The row that a node gives in a table with the given columns. -/
def rowFor (properties : List String) (props : Properties) : List Texts :=
  if anyText (textsOf (some props) properties)=true then [textsOf (some props) properties] else []

theorem insertTexts_ok {st : Store} {table : String} {t : FtsTable} {id : NodeId}
    (hget : get st.ftsTables table=some t) (hshadows : t.shadows=shadowSuffixes)
    (hempty : rowsOf t id=[]) (properties : List String) (props : Properties) :
    ∃ rows,insertTexts engine table id properties props st=
        (.ok (),withTable st table {t with rows := rows}) ∧
      ∀ other,rowsOf {t with rows := rows} other=
        if other=id then rowFor properties props else rowsOf t other := by
  unfold insertTexts rowFor
  by_cases hany : anyText (textsOf (some props) properties)=true
  · refine ⟨t.rows++[(id.toInt64,textsOf (some props) properties)],?_,fun other => ?_⟩
    · rw [if_pos hany,ftsInsert_ok hget hshadows hempty]
    · rw [rowsOf_insert,if_pos hany]
      split_ifs with hid
      · rw [hid,hempty]
        rfl
      · rw [List.append_nil]
  · refine ⟨t.rows,?_,fun other => ?_⟩
    · rw [if_neg hany,withTable,put_same hget]
      rfl
    · rw [if_neg hany]
      split_ifs with hid
      · rw [hid]
        exact hempty
      · rfl

theorem fillTexts_ok {table : String} (properties : List String) (nodes : List Node) {st : Store}
    {t : FtsTable} (hget : get st.ftsTables table=some t) (hshadows : t.shadows=shadowSuffixes)
    (hnodup : (nodes.map NodeOf.id).Nodup) (hempty : ∀ n∈nodes,rowsOf t n.id=[]) :
    ∃ rows,forEach nodes (fun n => insertTexts engine table n.id properties n.properties) st=
        (.ok (),withTable st table {t with rows := rows}) ∧
      (∀ n∈nodes,rowsOf {t with rows := rows} n.id=rowFor properties n.properties) ∧
      ∀ id,(∀ n∈nodes,n.id≠id) → rowsOf {t with rows := rows} id=rowsOf t id := by
  induction nodes generalizing st t with
  | nil =>
    refine ⟨t.rows,?_,fun n hn => absurd hn List.not_mem_nil,fun id _ => rfl⟩
    rw [withTable,put_same hget]
    rfl
  | cons n rest ih =>
    rw [List.map_cons,List.nodup_cons] at hnodup
    have hother : ∀ m∈rest,m.id≠n.id := by
      intro m hm heq
      exact hnodup.1 (heq ▸ List.mem_map_of_mem hm)
    obtain ⟨rows₁,hrun₁,hrows₁⟩ := @insertTexts_ok engine st table t n.id hget hshadows
      (hempty n List.mem_cons_self) properties n.properties
    have hempty₁ : ∀ m∈rest,rowsOf {t with rows := rows₁} m.id=[] := by
      intro m hm
      rw [hrows₁,if_neg (hother m hm)]
      exact hempty m (List.mem_cons_of_mem _ hm)
    obtain ⟨rows₂,hrun₂,hin,hout⟩ := @ih (withTable st table {t with rows := rows₁})
      {t with rows := rows₁} (get_put_self _ _ _) hshadows hnodup.2 hempty₁
    refine ⟨rows₂,?_,?_,?_⟩
    · rw [forEach,bind_ok hrun₁,hrun₂,withTable,withTable,put_put]
      rfl
    · intro m hm
      rcases List.mem_cons.mp hm with heq|hrest
      · have hkept := hout n.id fun m hm => hother m hm
        rw [hrows₁,if_pos rfl] at hkept
        rw [heq]
        exact hkept
      · exact hin m hrest
    · intro id hid
      have hkept := hout id fun m hm => hid m (List.mem_cons_of_mem _ hm)
      rw [hrows₁,if_neg fun heq => hid n List.mem_cons_self heq.symm] at hkept
      exact hkept

/-- Every node that the scan for a label finds with a covered text carries it. -/
def ScanExact (st : Store) (label : String) (properties : List String) : Prop :=
  ∀ id row,get st.nodes id=some row → labelColumnMatches label row.label=true →
    anyText (textsOf (some row.value.properties) properties)=true → label∈row.value.labels

theorem findNodesByLabel_nodup (st : Store) (label : String) :
    ((findNodesByLabel st label).map NodeOf.id).Nodup := by
  unfold findNodesByLabel
  rw [List.map_map]
  refine List.Nodup.sublist ?_ (keys_nodup st.nodes)
  exact List.Sublist.map _ List.filter_sublist

theorem ftsInv_filled {st : Store} (h : FtsInv st) {table label : String} {properties : List String}
    {t : FtsTable} {info : FtsIndexInfo} (hrows : t.rows=[])
    (hok : TableOk table t info) (hlabel : info.label=label) (hprops : info.properties=properties)
    (hvalid : isValidName label=true) (hexact : ScanExact st label properties) :
    ∃ st',forEach (findNodesByLabel st label)
        (fun n => insertTexts engine table n.id properties n.properties) (withTable st table t)=
      (.ok (),st') ∧ FtsInv st' := by
  have hnone : ∀ id,rowsOf t id=[] := by
    intro id
    rw [rowsOf,hrows]
    rfl
  obtain ⟨rows,hrun,hin,hout⟩ := @fillTexts_ok engine table properties (findNodesByLabel st label)
    (withTable st table t) t (get_put_self _ _ _) hok.shadows (findNodesByLabel_nodup st label)
    (fun n _ => hnone n.id)
  refine ⟨_,hrun,h.nodes.withTables _ _,h.names,fun name s hget => ?_⟩
  rw [withTable,withTable,get_put] at hget
  split_ifs at hget with hname
  · rw [←Option.some.inj hget,hname]
    have hok' : TableOk table {t with rows := rows} info :=
      ⟨hok.shadows,hok.describes,hok.listed,hok.width⟩
    refine ⟨info,hok',fun id => ?_⟩
    change rowsOf {t with rows := rows} id=expectedRows (recordAt st id) info
    cases hnode : get st.nodes id with
    | none =>
      rw [recordAt,hnode,Option.map_none]
      refine (hout id fun n hn heq => ?_).trans (hnone id)
      obtain ⟨row,hrow,_,_⟩ := (mem_findNodesByLabel hvalid).mp hn
      rw [heq,hnode] at hrow
      cases hrow
    | some row =>
      rw [recordAt,hnode,Option.map_some]
      have hfound : labelColumnMatches label row.label=true →
          rowsOf {t with rows := rows} id=rowFor properties row.value.properties := by
        intro hmatch
        exact hin ⟨id,row.value.labels,row.value.properties⟩
          ((mem_findNodesByLabel hvalid).mpr ⟨row,hnode,hmatch,rfl⟩)
      by_cases hcarries : label∈row.value.labels
      · have hmatch := labelColumnMatches_of_mem hcarries
        rw [←h.nodes.columns id row hnode] at hmatch
        rw [hfound hmatch,expectedRows_carried (by rw [hlabel]; exact hcarries),hprops]
        rfl
      · rw [expectedRows_free (by rw [hlabel]; exact hcarries)]
        by_cases hmatch : labelColumnMatches label row.label=true
        · rw [hfound hmatch,rowFor]
          exact if_neg fun hany => hcarries (hexact id row hnode hmatch hany)
        · refine (hout id fun n hn heq => ?_).trans (hnone id)
          obtain ⟨other,hother,hfoundOther,_⟩ := (mem_findNodesByLabel hvalid).mp hn
          rw [heq,hnode] at hother
          rw [←Option.some.inj hother] at hfoundOther
          exact hmatch hfoundOther
  · rw [get_put_ne hname] at hget
    exact h.mirror name s hget

/-- A declaration that the database and the module accept: no table of the name
or of a shadow table exists up to letter case. -/
def Declares (engine : FtsEngine) (st : Store) (table : String) (columns : List String) : Prop :=
  nameTaken st table=false ∧ (∀ suffix∈shadowSuffixes,nameTaken st (table++suffix)=false) ∧
    engine.accepts table columns=true

theorem createVirtualTable_cases (st : Store) (table : String) (columns : List String)
    (kind : FtsTokenizerKind) :
    (Declares engine st table columns ∧ createVirtualTable engine table columns kind st=
      (.ok (),withTable st table ⟨columns,kind,[],shadowSuffixes⟩)) ∨
    ∃ e,e≠duplicateRowid ∧ createVirtualTable engine table columns kind st=(.error e,st) := by
  unfold createVirtualTable
  by_cases htaken : (nameTaken st table ||
      shadowSuffixes.any fun suffix => nameTaken st (table++suffix))=true
  · refine Or.inr ⟨_,?_,if_pos htaken⟩
    intro heq
    have htext := congrArg String.toList (GraphError.storage.inj heq).1
    have hfront : "table \"".toList= 't' :: "able \"".toList := by simp
    have hright : "constraint failed".toList= 'c' :: "onstraint failed".toList := by simp
    rw [String.toList_append,String.toList_append,hfront,hright] at htext
    exact absurd (List.head_eq_of_cons_eq htext) (by decide)
  · rw [if_neg htaken]
    cases haccepts : engine.accepts table columns with
    | false =>
      refine Or.inr ⟨_,?_,if_pos rfl⟩
      decide
    | true =>
      refine Or.inl ⟨⟨?_,?_,haccepts⟩,if_neg (by simp)⟩
      · cases hname : nameTaken st table with
        | false => rfl
        | true => exact absurd (by rw [hname]; rfl) htaken
      · intro suffix hsuffix
        cases hname : nameTaken st (table++suffix) with
        | false => rfl
        | true =>
          refine absurd ?_ htaken
          rw [Bool.or_eq_true]
          exact Or.inr (List.any_eq_true.mpr ⟨suffix,hsuffix,hname⟩)

/-- A single-property creation that reaches the scan: the names are checked, the
index has no table under its current or older name, no other index covers the
property, and the declaration is accepted. -/
structure AcceptsSingle (engine : FtsEngine) (st : Store) (label property : String) : Prop where
  /-- Checked label. -/
  labelChecked : isValidName label=true
  /-- Checked property. -/
  propertyChecked : isValidName property=true
  /-- No table under the current name. -/
  current : tableExists st (singleTableName label property)=false
  /-- No table under the older name. -/
  legacy : tableExists st (legacyTableName label property)=false
  /-- No other index covers the property. -/
  uncovered : (ftsTokenizerKind st label property).isOk=false
  /-- The declaration is accepted. -/
  declared : Declares engine st (singleTableName label property) ["content"]

variable {label property : String} {e : GraphError} {st : Store}

theorem ftsTableName_error (h : ftsTableName label property=.error e) : e≠duplicateRowid := by
  unfold ftsTableName at h
  cases hlabel : validateName label with
  | error e' =>
    rw [hlabel] at h
    rw [←Except.error.inj h,validateName_error hlabel]
    simp [duplicateRowid]
  | ok u =>
    rw [hlabel] at h
    cases hproperty : validateName property with
    | error e' =>
      rw [hproperty] at h
      rw [←Except.error.inj h,validateName_error hproperty]
      simp [duplicateRowid]
    | ok v =>
      rw [hproperty] at h
      cases h

/-- Creating a single-property index keeps the invariant when its scan is exact. -/
theorem ends_createFulltextIndexImpl (h : FtsInv st)
    (hguard : AcceptsSingle engine st label property → ScanExact st label [property]) (kind : FtsTokenizerKind) :
    Ends FtsInv (· ≠ duplicateRowid) (createFulltextIndexImpl engine label property kind st) := by
  unfold createFulltextIndexImpl
  refine ends_inspect h (fun e he => ftsTableName_error he) fun table htable => ?_
  have ⟨hlabel,hproperty,htable⟩ := ftsTableName_ok_iff.mp htable
  have hlegacy := legacyFtsTableName_ok hlabel hproperty
  refine ends_inspect h (fun e he => absurd (he.symm.trans hlegacy) (by simp)) fun legacy hname => ?_
  have hlegacyName : legacy=legacyTableName label property :=
    Except.ok.inj (hname.symm.trans hlegacy)
  refine ends_inspect h (fun e he => absurd he (by simp)) fun present hpresent => ?_
  rw [←Except.ok.inj hpresent,hlegacyName,htable]
  cases hcurrent : tableExists st (singleTableName label property) with
  | true => exact ends_error h (by simp [duplicateRowid])
  | false =>
    cases hold : tableExists st (legacyTableName label property) with
    | true => exact ends_error h (by simp [duplicateRowid])
    | false =>
      rw [if_neg (by simp)]
      refine ends_inspect h (fun e he => absurd he (by simp)) fun covered hcovered => ?_
      rw [←Except.ok.inj hcovered]
      cases huncovered : (ftsTokenizerKind st label property).isOk with
      | true => exact ends_error h (by simp [duplicateRowid])
      | false =>
        rw [if_neg (by simp)]
        rcases @createVirtualTable_cases engine st (singleTableName label property) ["content"] kind
          with ⟨hdeclares,hrun⟩|⟨e,hne,hrun⟩
        · have hexact := hguard ⟨hlabel,hproperty,hcurrent,hold,huncovered,hdeclares⟩
          have ⟨st',hfill,hinv⟩ := @ftsInv_filled engine st h (singleTableName label property) label
            [property] ⟨["content"],kind,[],shadowSuffixes⟩ _ rfl (tableOk_single hlabel _ rfl) rfl rfl
            hlabel hexact
          rw [bind_ok hrun,inspect_ok (by rfl)]
          have hnodes : findNodesByLabel (withTable st (singleTableName label property)
            ⟨["content"],kind,[],shadowSuffixes⟩) label=findNodesByLabel st label := rfl
          rw [hnodes,hfill]
          exact ends_ok hinv
        · rw [bind_error hrun]
          exact ends_error h hne

/-- A multi-property creation that reaches the scan with its table. -/
structure AcceptsMulti (engine : FtsEngine) (st : Store) (label : String) (properties : List String)
    (table : String) : Prop where
  /-- The request is checked: properties, no repetition, none covered, checked names. -/
  checked : checkMultiRequest st label properties=.ok ()
  /-- The label is checked and the table has the next free number. -/
  named : ftsMultiTableName st label=.ok table
  /-- The declaration is accepted. -/
  declared : Declares engine st table properties

variable {label : String} {properties : List String}

theorem checkMultiRequest_error (h : checkMultiRequest st label properties=.error e) : e≠duplicateRowid := by
  unfold checkMultiRequest at h
  split_ifs at h
  · rw [←Except.error.inj h]
    simp [duplicateRowid]
  · cases hrepeated : firstRepeated [] properties with
    | some p =>
      rw [hrepeated] at h
      rw [←Except.error.inj h]
      simp [duplicateRowid]
    | none =>
      rw [hrepeated] at h
      dsimp only at h
      cases hcovered : properties.find? fun p => (ftsTokenizerKind st label p).isOk with
      | some p =>
        rw [hcovered] at h
        rw [←Except.error.inj h]
        simp [duplicateRowid]
      | none =>
        rw [hcovered] at h
        have ⟨name,hname⟩ := validateNames_error h
        rw [hname]
        simp [duplicateRowid]

theorem ftsMultiTableName_error (h : ftsMultiTableName st label=.error e) : e≠duplicateRowid := by
  unfold ftsMultiTableName at h
  cases hlabel : validateName label with
  | error e' =>
    rw [hlabel] at h
    rw [←Except.error.inj h,validateName_error hlabel]
    simp [duplicateRowid]
  | ok u =>
    rw [hlabel] at h
    cases h

/-- Creating a multi-property index keeps the invariant when its scan is exact. -/
theorem ends_createFulltextIndexWordMulti (h : FtsInv st)
    (hguard : ∀ table,AcceptsMulti engine st label properties table → ScanExact st label properties) :
    Ends FtsInv (· ≠ duplicateRowid) (createFulltextIndexWordMulti engine label properties st) := by
  unfold createFulltextIndexWordMulti createFulltextIndexMultiImpl
  refine ends_inspect h (fun e he => checkMultiRequest_error he) fun _ hchecked => ?_
  refine ends_inspect h (fun e he => ftsMultiTableName_error he) fun table hnamed => ?_
  have ⟨hlabel,n,htable⟩ := ftsMultiTableName_ok hnamed
  rcases @createVirtualTable_cases engine st table properties .word
    with ⟨hdeclares,hrun⟩|⟨e,hne,hrun⟩
  · have hexact := hguard table ⟨hchecked,hnamed,hdeclares⟩
    rw [htable] at hrun ⊢
    have ⟨st',hfill,hinv⟩ := @ftsInv_filled engine st h (multiTableName label n) label properties
      ⟨properties,.word,[],shadowSuffixes⟩ _ rfl (tableOk_multi label n _ rfl) rfl rfl hlabel hexact
    rw [bind_ok hrun,inspect_ok (by rfl)]
    have hnodes : findNodesByLabel (withTable st (multiTableName label n)
      ⟨properties,.word,[],shadowSuffixes⟩) label=findNodesByLabel st label := rfl
    rw [hnodes,hfill]
    exact ends_ok hinv
  · rw [bind_error hrun]
    exact ends_error h hne

/-- The table of a drop is not a shadow table. -/
def DropsWhole (st : Store) (label property : String) : Prop :=
  ∀ table,resolveFtsTable st label property=.ok table → ∀ name∈keys st.ftsTables,
    ∀ suffix∈shadowSuffixes,name++suffix≠table

theorem ftsInv_dropTable (h : FtsInv st) {table : String}
    (hwhole : ∀ name∈keys st.ftsTables,∀ suffix∈shadowSuffixes,name++suffix≠table) : FtsInv (dropTable st table) := by
  refine ⟨h.nodes.withTables _ _,?_,?_⟩
  · intro name hname
    exact h.names name (mem_keys_delete.mp hname).2
  · intro name t hget
    rw [GraphStore.dropTable,get_mapRows,get_delete] at hget
    split_ifs at hget with hname
    · cases hget
    · obtain ⟨s,hs,heq⟩ := Option.map_eq_some_iff.mp hget
      obtain ⟨info,hok,hrows⟩ := h.mirror name s hs
      have hsame : s.shadows.filter (fun suffix => name++suffix≠table)=s.shadows := by
        rw [List.filter_eq_self]
        intro suffix hsuffix
        rw [hok.shadows] at hsuffix
        simpa using hwhole name (mem_keys.mpr ⟨s,hs⟩) suffix hsuffix
      rw [←heq,hsame]
      exact ⟨info,hok,hrows⟩

theorem resolveFtsTable_error (h : resolveFtsTable st label property=.error e) : e≠duplicateRowid := by
  unfold resolveFtsTable at h
  cases hname : ftsTableName label property with
  | error e' =>
    rw [hname] at h
    rw [←Except.error.inj h]
    exact ftsTableName_error hname
  | ok table =>
    have ⟨hlabel,hproperty,_⟩ := ftsTableName_ok_iff.mp hname
    rw [hname] at h
    have hlegacy := legacyFtsTableName_ok hlabel hproperty
    simp only [bind,Except.bind,pure,Except.pure,hlegacy] at h
    split_ifs at h

theorem ends_dropFulltextIndex (h : FtsInv st) (hguard : DropsWhole st label property) :
    Ends FtsInv (· ≠ duplicateRowid) (dropFulltextIndex label property st) := by
  unfold dropFulltextIndex
  refine ends_inspect h (fun e he => resolveFtsTable_error he) fun table htable => ?_
  refine ends_inspect h (fun e he => absurd he (by simp)) fun present _ => ?_
  cases present with
  | true => exact ends_ok (ftsInv_dropTable h (hguard table htable))
  | false => exact ends_error h (by simp [duplicateRowid])

end Fill

section Clauses

variable {E : Type} {env : ExecEnv E}

/-- An error that does not report a row already present, unless evaluating an
expression reports it by itself. -/
def NoDuplicate (env : ExecEnv E) (e : GraphError) : Prop :=
  e=duplicateRowid → ∃ st expr rec,env.eval st expr rec=.error duplicateRowid

variable {e : GraphError} {st : Store} {rec : NamedRecord} {props : Properties}

theorem noDuplicate_of_ne (h : e≠duplicateRowid) : NoDuplicate env e :=
  fun heq => absurd heq h

variable {expr : E} {properties : List (String×E)} {val : Value} {merge : Bool} {var : String}

theorem noDuplicate_of_eval (h : env.eval st expr rec=.error e) : NoDuplicate env e :=
  fun heq => ⟨st,expr,rec,by rw [h,heq]⟩

theorem noDuplicate_of_evalProperties (h : evalProperties env rec st props properties=.error e) : NoDuplicate env e := by
  induction properties generalizing props with
  | nil => cases h
  | cons entry rest ih =>
    rw [evalProperties] at h
    cases hval : env.eval st entry.2 rec with
    | error e' =>
      rw [hval] at h
      have hsame : e'=e := Except.error.inj h
      rw [hsame] at hval
      exact noDuplicate_of_eval hval
    | ok val =>
      rw [hval] at h
      exact ih h

theorem noDuplicate_of_getNode {id : NodeId} (h : getNode st id=.error e) : NoDuplicate env e := by
  cases hrec : recordAt st id with
  | some record => exact absurd (h.symm.trans (getNode_of_recordAt hrec)) (by simp)
  | none =>
    have hsame := Except.error.inj (h.symm.trans (getNode_of_missing hrec))
    refine noDuplicate_of_ne ?_
    rw [hsame]
    simp [duplicateRowid]

theorem noDuplicate_of_names {names : List String} (h : validateNames names=.error e) : NoDuplicate env e := by
  have ⟨name,hname⟩ := validateNames_error h
  refine noDuplicate_of_ne ?_
  rw [hname]
  simp [duplicateRowid]

theorem raises_advanceCounter (key corrupt exhausted : String) (raw : Bytes) :
    Raises (NoDuplicate env) (advanceCounter key corrupt exhausted raw) := by
  intro st e h
  refine noDuplicate_of_ne ?_
  unfold advanceCounter at h
  dsimp only at h
  split_ifs at h
  · rw [←Except.error.inj h]
    simp [duplicateRowid]
  · rw [←Except.error.inj h]
    simp [duplicateRowid]
  · cases h

theorem raises_createNode (labels : List String) (props : Properties) :
    Raises (NoDuplicate env) (createNode labels props) := by
  refine raises_bind (raises_inspect fun _ _ h => noDuplicate_of_names h) fun _ => ?_
  refine raises_bind (raises_inspect fun _ _ h => noDuplicate_of_names h) fun _ => ?_
  refine raises_bind ?_ fun id => ?_
  · intro st e h
    unfold nextNodeId at h
    cases hget : get st.metadata nextNodeIdKey with
    | none =>
      rw [hget] at h
      refine noDuplicate_of_ne ?_
      rw [←Except.error.inj h]
      decide
    | some raw =>
      rw [hget] at h
      exact raises_advanceCounter _ _ _ raw st e h
  · refine raises_bind (raises_update _ _) fun _ => ?_
    exact raises_bind (raises_update _ _) fun _ => raises_pure _ _

theorem raises_createEdge (src dst : NodeId) (label : String) (props : Properties) :
    Raises (NoDuplicate env) (createEdge src dst label props) := by
  refine raises_bind (raises_inspect fun _ e h => noDuplicate_of_ne ?_) fun _ => ?_
  · rw [validateName_error h]
    simp [duplicateRowid]
  refine raises_bind (raises_inspect fun _ _ h => noDuplicate_of_names h) fun _ => ?_
  refine raises_bind (raises_update _ _) fun _ => raises_bind (raises_update _ _) fun _ => ?_
  refine raises_bind ?_ fun seq => raises_bind (raises_update _ _) fun _ => raises_update _ _
  intro st e h
  unfold nextEdgeSeq at h
  cases hget : get st.metadata nextEdgeSeqKey with
  | none =>
    rw [hget] at h
    exact raises_advanceCounter _ _ _ _ _ e h
  | some raw =>
    rw [hget] at h
    exact raises_advanceCounter _ _ _ raw st e h

/-- A CREATE pattern visits no label twice with texts, when the names are checked
and an identifier is left. -/
def CreatesFresh (env : ExecEnv E) (rec : NamedRecord) (labels : List String)
    (properties : List (String×E)) (st : Store) : Prop :=
  ∀ props,evalProperties env rec st [] properties=.ok props → CheckedNode labels props →
    nodeIdCounter st≠0xFFFFFFFFFFFFFFFF → Refreshable st labels none props

theorem ends_createIndexedNode {st : Store} (h : FtsInv st) {labels : List String} {props : Properties}
    (hguard : CheckedNode labels props → nodeIdCounter st≠0xFFFFFFFFFFFFFFFF →
      Refreshable st labels none props) :
    Ends FtsInv (NoDuplicate env) (createIndexedNode env labels props st) := by
  unfold createIndexedNode
  rcases createNode_spec h.nodes labels props with ⟨e,herror⟩|⟨id,st₁,hrun,hfresh,hw⟩
  · rw [bind_error herror]
    exact ends_error h (raises_createNode labels props st e (by rw [herror]))
  · have hnames : CheckedNode labels props := by
      by_contra hbad
      have ⟨e,herror⟩ := createNode_rejected hbad st
      rw [hrun] at herror
      exact absurd (Prod.mk.inj herror).1 (by simp)
    have hleft : nodeIdCounter st≠0xFFFFFFFFFFFFFFFF := by
      intro hmax
      have ⟨raw,hraw,hlen⟩ := h.nodes.counter
      have herror := createNode_exhausted hnames hraw hlen hmax
      rw [hrun] at herror
      exact absurd (Prod.mk.inj herror).1 (by simp)
    have hsorted : ∀ l,l∈labels.insertionSort (· ≤ ·) ↔ l∈labels :=
      fun l => (List.perm_insertionSort _ labels).mem_iff
    have ⟨st₂,hmaintain,hinv⟩ := @FtsInv.created E env st st₁ id h hfresh labels _ hsorted props hw
      (hguard hnames hleft)
    rw [bind_ok hrun,bind_ok hmaintain]
    exact ends_ok hinv

theorem ends_createNodeOp (h : FtsInv st) (s : CreateState) {labels : List String} (nodeAlias : Option String)
    (hguard : CreatesFresh env rec labels properties st) :
    Ends FtsInv (NoDuplicate env) (createNodeOp env rec s labels nodeAlias properties st) := by
  unfold createNodeOp
  refine ends_inspect h (fun e he => noDuplicate_of_evalProperties he) fun props hprops => ?_
  have hends := @ends_createIndexedNode E env st h labels props (hguard props hprops)
  refine ends_bind hends fun id st' hrun => ?_
  rw [hrun] at hends
  exact ends_ok hends.state

theorem ends_createEdgeOp (h : FtsInv st) (rec : NamedRecord) (s : CreateState)
    (srcAlias dstAlias edgeType : String) (relAlias : Option String) (properties : List (String×E)) :
    Ends FtsInv (NoDuplicate env) (createEdgeOp env rec s srcAlias dstAlias edgeType relAlias properties st) := by
  have hendpoint : ∀ nodeAlias e,s.endpoint nodeAlias=.error e → NoDuplicate env e := by
    intro nodeAlias e he
    refine noDuplicate_of_ne ?_
    unfold CreateState.endpoint at he
    cases hbound : s.bound nodeAlias with
    | some id =>
      rw [hbound] at he
      cases he
    | none =>
      rw [hbound] at he
      rw [←Except.error.inj he]
      simp [duplicateRowid,GraphError.semantic]
  unfold createEdgeOp
  refine ends_inspect h (fun e he => hendpoint _ e he) fun src _ => ?_
  refine ends_inspect h (fun e he => hendpoint _ e he) fun dst _ => ?_
  refine ends_inspect h (fun e he => noDuplicate_of_evalProperties he) fun props _ => ?_
  refine ends_bind ⟨h.of_unseen (unseen_createEdge st src dst edgeType props),?_⟩ fun _ st' hrun => ?_
  · exact fun e he => raises_createEdge src dst edgeType props st e he
  · refine ends_ok ?_
    have hinv := h.of_unseen (unseen_createEdge st src dst edgeType props)
    rw [hrun] at hinv
    exact hinv

/-- A SET assignment on a node visits no repeated label with texts that were not
there before. -/
def AssignsFresh (env : ExecEnv E) (st : Store) (rec : NamedRecord) (a : Assignment E) : Prop :=
  edgeIdentity rec a.var=none → ∀ id record val,nodeIdField rec a.var=some id →
    recordAt st id=some record → env.eval st a.value rec=.ok val → isStorable val=true →
    isValidName a.property=true →
    Refreshable st record.labels (some record.properties)
      (withProperty record.properties a.property val)

theorem FtsInv.of_edgeProps (h : FtsInv st) (rows : Table Bytes Properties) : FtsInv {st with edgeProps := rows} :=
  h.of_unseen ⟨rfl,rfl,rfl,rfl,fun h => h,fun h => h⟩

theorem ftsInv_writeEdgeProperty (h : FtsInv st) (rec : NamedRecord) (var : String) (src dst : NodeId)
    (label property : String) (val : Value) : FtsInv (writeEdgeProperty rec var src dst label property val st) := by
  unfold writeEdgeProperty
  cases edgeSeqField rec var with
  | some seq | none => exact FtsInv.of_edgeProps h _

theorem noDuplicate_of_value (h : validatePropertyValue val=.error e) : NoDuplicate env e := by
  refine noDuplicate_of_ne ?_
  unfold validatePropertyValue at h
  split_ifs at h
  rw [←Except.error.inj h]
  simp [duplicateRowid]

theorem ends_setPropertyItem (h : FtsInv st) {a : Assignment E} (hguard : AssignsFresh env st rec a) :
    Ends FtsInv (NoDuplicate env) (setPropertyItem env rec a st) := by
  unfold setPropertyItem
  cases hedge : edgeIdentity rec a.var with
  | some identity =>
    refine ends_inspect h (fun e he => noDuplicate_of_eval he) fun val _ => ?_
    refine ends_inspect h (fun e he => noDuplicate_of_value he) fun _ _ => ?_
    exact ends_ok (ftsInv_writeEdgeProperty h rec a.var _ _ _ a.property val)
  | none =>
    dsimp only
    cases hnode : nodeIdField rec a.var with
    | none => exact ends_ok h
    | some id =>
      refine ends_inspect h (fun e he => noDuplicate_of_getNode he) fun old hold => ?_
      refine ends_inspect h (fun e he => noDuplicate_of_eval he) fun val hval => ?_
      refine ends_inspect h (fun e he => noDuplicate_of_value he) fun _ hchecked => ?_
      have hstorable : isStorable val=true := by
        by_contra hbad
        rw [validatePropertyValue,if_neg hbad] at hchecked
        cases hchecked
      have hends : Ends FtsInv (NoDuplicate env) (setIndexedProperty env id old a.property val st) := by
        unfold setIndexedProperty
        cases hname : validateName a.property with
        | error e =>
          have hstop : setNodeProperty id a.property val st=(.error e,st) := by
            unfold setNodeProperty
            rw [inspect_error (by exact hname)]
          rw [bind_error hstop]
          refine ends_error h (noDuplicate_of_ne ?_)
          rw [validateName_error hname]
          simp [duplicateRowid]
        | ok u =>
          obtain ⟨row,hget,hold'⟩ := getNode_ok hold
          have hrec : recordAt st id=some row.value := by rw [recordAt,hget,Option.map_some]
          rcases setNodeProperty_spec h.nodes id a.property val with ⟨e,herror⟩|⟨record,st₁,hr,hrun,hw⟩
          · have hok : (setNodeProperty id a.property val st).1=.ok () := by
              unfold setNodeProperty
              rw [inspect_ok (by exact hname),
                inspect_ok (by exact getRecord_of_recordAt hrec),update_apply]
            rw [herror] at hok
            cases hok
          · have hsame : record=row.value := Option.some.inj (hr.symm.trans hrec)
            have hfresh := hguard hedge id record val hnode hr hval hstorable
              (validateName_ok_iff.mp hname)
            obtain ⟨st₂,hmaintain,hinv⟩ := @FtsInv.rewritten E env st st₁ id h record hr _ hw hfresh
            rw [bind_ok hrun,hold',←hsame,hmaintain]
            exact ends_ok hinv
      refine ends_bind hends fun _ st' hrun => ?_
      rw [hrun] at hends
      exact ends_ok hends.state

/-- A map assignment on a node visits no repeated label with texts that were not
there before. -/
def MapsFresh (env : ExecEnv E) (var : String) (expr : E) (merge : Bool) (st : Store)
    (rec : NamedRecord) : Prop :=
  edgeIdentity rec var=none → ∀ id record value entries new,nodeIdField rec var=some id →
    recordAt st id=some record → env.eval st expr rec=.ok value →
    mapEntries value=.ok (some entries) →
    overlayMap (fun _ => .ok ()) merge record.properties entries=.ok new →
    Refreshable st record.labels (some record.properties) new

theorem noDuplicate_of_mapEntries (h : mapEntries val=.error e) : NoDuplicate env e := by
  refine noDuplicate_of_ne ?_
  unfold mapEntries at h
  split at h
  · cases h
  · cases h
  · rw [←Except.error.inj h]
    simp [duplicateRowid,GraphError.semantic]

theorem noDuplicate_of_overlay {check : Value → Result Unit}
    (hcheck : ∀ val e,check val=.error e → NoDuplicate env e) {entries : List (String×Value)}
    (h : overlayEntries check merge props entries=.error e) : NoDuplicate env e := by
  induction entries generalizing props with
  | nil => cases h
  | cons entry rest ih =>
    rw [overlayEntries] at h
    split_ifs at h
    · exact ih h
    · exact ih h
    · cases hval : check entry.2 with
      | ok u =>
        rw [hval] at h
        exact ih h
      | error e' =>
        rw [hval] at h
        have hsame : e'=e := Except.error.inj h
        rw [hsame] at hval
        exact hcheck _ _ hval

theorem ends_setPropertiesRecord (h : FtsInv st) (hguard : MapsFresh env var expr merge st rec) :
    Ends FtsInv (NoDuplicate env) (setPropertiesRecord env var expr merge rec st) := by
  unfold setPropertiesRecord
  cases hedge : edgeIdentity rec var with
  | some identity =>
    refine ends_inspect h (fun e he => absurd he (by simp)) fun seq _ => ?_
    refine ends_inspect h (fun e he => noDuplicate_of_eval he) fun value _ => ?_
    refine ends_inspect h (fun e he => noDuplicate_of_mapEntries he) fun found _ => ?_
    cases found with
    | none => exact ends_ok h
    | some entries =>
      refine ends_inspect h (fun e he => absurd he (by simp)) fun old _ => ?_
      refine ends_inspect h (fun e he => ?_) fun new _ => ?_
      · exact noDuplicate_of_overlay (fun _ _ => noDuplicate_of_value) he
      · exact ends_ok (FtsInv.of_edgeProps h _)
  | none =>
    dsimp only
    cases hnode : nodeIdField rec var with
    | none => exact ends_ok h
    | some id =>
      refine ends_inspect h (fun e he => noDuplicate_of_eval he) fun value hvalue => ?_
      refine ends_inspect h (fun e he => noDuplicate_of_mapEntries he) fun found hfound => ?_
      cases found with
      | none => exact ends_ok h
      | some entries =>
        refine ends_inspect h (fun e he => noDuplicate_of_getNode he) fun old hold => ?_
        refine ends_inspect h (fun e he => ?_) fun new hnew => ?_
        · exact noDuplicate_of_overlay (fun _ _ hx => absurd hx (by simp)) he
        obtain ⟨row,hget,hold'⟩ := getNode_ok hold
        have hrec : recordAt st id=some row.value := by rw [recordAt,hget,Option.map_some]
        rw [hold'] at hnew ⊢
        have hfresh := hguard hedge id row.value value entries new hnode hrec hvalue hfound hnew
        have hends : Ends FtsInv (NoDuplicate env)
            (setIndexedProperties env id ⟨id,row.value.labels,row.value.properties⟩ new st) := by
          unfold setIndexedProperties setAllNodeProperties
          have hspec := rewriteRecord_spec h.nodes id fun record => {record with properties := new}
          rcases hspec with ⟨hmissing,-⟩|⟨record,hr,hrun,hw⟩
          · rw [hrec] at hmissing
            cases hmissing
          · have hsame : record=row.value := Option.some.inj (hr.symm.trans hrec)
            rw [hsame] at hrun hw
            obtain ⟨st₂,hmaintain,hinv⟩ := @FtsInv.rewritten E env st _ id h _ hrec new hw hfresh
            rw [bind_ok hrun,hmaintain]
            exact ends_ok hinv
        refine ends_bind hends fun _ st' hrun => ?_
        rw [hrun] at hends
        exact ends_ok hends.state

/-- No index on a label that the node has already covers one of its texts. -/
def LabelsFresh (var : String) (st : Store) (rec : NamedRecord) : Prop :=
  ∀ id record,nodeIdField rec var=some id → recordAt st id=some record →
    ∀ info∈listAllFulltextIndexes st,info.label∈record.labels →
      anyText (textsOf (some record.properties) info.properties)=false

theorem ends_setLabelRecord (h : FtsInv st) (labels : List String) (hguard : LabelsFresh var st rec) :
    Ends FtsInv (NoDuplicate env) (setLabelRecord env var labels rec st) := by
  unfold setLabelRecord
  cases hnode : nodeIdField rec var with
  | none => exact ends_ok h
  | some id =>
    dsimp only
    cases hrec : recordAt st id with
    | none =>
      have hmissing : NoDuplicate env (.nodeNotFound id none) :=
        noDuplicate_of_ne (by simp [duplicateRowid])
      rcases addNodeLabels_missing hrec labels with hfail|hnone
      · rw [bind_error hfail]
        exact ends_error h hmissing
      · rw [bind_ok hnone,inspect_error (by exact getNode_of_missing hrec)]
        exact ends_error h hmissing
    | some record =>
      have ⟨st₁,added,hrun,hw,hmem,hcounts⟩ := addNodeLabels_spec h.nodes id labels hrec
      have hrec₁ : recordAt st₁ id=some {record with labels := added} := by
        rw [hw.view id,if_pos rfl]
      have ⟨st₂,hmaintain,hinv⟩ := @FtsInv.labelled E env st st₁ id h record hrec added hw
        (fun l hl => (hmem l).mpr (Or.inl hl)) hcounts (hguard id record hnode hrec)
      rw [bind_ok hrun,inspect_ok (by exact getNode_of_recordAt hrec₁),bind_ok hmaintain]
      exact ends_ok hinv

theorem anyText_removeProp {property : String} {properties : List String}
    (h : anyText (textsOf (some (removeProp props property)) properties)=true) :
    anyText (textsOf (some props) properties)=true := by
  unfold anyText textsOf at h ⊢
  rw [List.any_map,List.any_eq_true] at h ⊢
  have ⟨p,hp,hsome⟩ := h
  refine ⟨p,hp,?_⟩
  rw [Function.comp,Option.bind_some,textOf,getProp_removeProp] at hsome
  rw [Function.comp,Option.bind_some,textOf]
  split_ifs at hsome
  · cases hsome
  · exact hsome

theorem ends_removeItem (h : FtsInv st) (rec : NamedRecord) (item : RemoveItem) :
    Ends FtsInv (NoDuplicate env) (removeItem env rec item st) := by
  cases item with
  | property var property =>
    unfold removeItem
    dsimp only
    cases edgeIdentity rec var with
    | some identity => exact ends_ok (ftsInv_writeEdgeProperty h rec var _ _ _ property .null)
    | none =>
      cases nodeIdField rec var with
      | none => exact ends_ok h
      | some id =>
        refine ends_inspect h (fun e he => noDuplicate_of_getNode he) fun old hold => ?_
        obtain ⟨row,hget,hold'⟩ := getNode_ok hold
        have hrec : recordAt st id=some row.value := by rw [recordAt,hget,Option.map_some]
        have hends : Ends FtsInv (NoDuplicate env) (removeIndexedProperty env id old property st) := by
          unfold removeIndexedProperty removeNodeProperty
          have hspec := rewriteRecord_spec h.nodes id fun record =>
            {record with properties := removeProp record.properties property}
          rcases hspec with ⟨hmissing,-⟩|⟨record,hr,hrun,hw⟩
          · rw [hrec] at hmissing
            cases hmissing
          · have hsame : record=row.value := Option.some.inj (hr.symm.trans hrec)
            have hfresh : Refreshable st record.labels (some record.properties)
              (removeProp record.properties property) := fun _ _ _ hany => anyText_removeProp hany
            obtain ⟨st₂,hmaintain,hinv⟩ := @FtsInv.rewritten E env st _ id h record hr _ hw hfresh
            rw [bind_ok hrun,hold',←hsame,hmaintain]
            exact ends_ok hinv
        refine ends_bind hends fun _ st' hrun => ?_
        rw [hrun] at hends
        exact ends_ok hends.state
  | label var labels =>
    unfold removeItem
    dsimp only
    cases nodeIdField rec var with
    | none => exact ends_ok h
    | some id =>
      refine ends_inspect h (fun e he => noDuplicate_of_getNode he) fun old hold => ?_
      obtain ⟨row,hget,hold'⟩ := getNode_ok hold
      have hrec : ∃ current,recordAt st id=some ⟨current,old.properties⟩ := by
        refine ⟨row.value.labels,?_⟩
        rw [recordAt,hget,Option.map_some,hold']
      have hloop : ∃ st',forEach labels (removeIndexedLabel env id old.properties) st=(.ok (),st') ∧
          FtsInv st' := by
        clear hold hget hold'
        induction labels generalizing st with
        | nil => exact ⟨st,rfl,h⟩
        | cons label rest ih =>
          obtain ⟨current,hcurrent⟩ := hrec
          obtain ⟨st₁,hrun₁,hinv₁,hrec₁⟩ := @FtsInv.unlabelled E env st id h _ _ hcurrent label
          obtain ⟨st₂,hrun₂,hinv₂⟩ := ih hinv₁ ⟨_,hrec₁⟩
          refine ⟨st₂,?_,hinv₂⟩
          rw [forEach,bind_ok hrun₁,hrun₂]
      obtain ⟨st',hrun,hinv⟩ := hloop
      rw [bind_ok hrun]
      exact ends_ok hinv

theorem nodeHasEdges_ok (h : NodesOk st) (id : NodeId) : ∃ b,nodeHasEdges st id=.ok b := by
  have ⟨out,hout⟩ := edgeLabelEntries_ok h.adjOut id
  have ⟨inc,hinc⟩ := edgeLabelEntries_ok h.adjIn id
  have houtgoing : getAllEdgeLabels st id .outgoing=.ok out := hout
  have hincoming : getAllEdgeLabels st id .incoming=.ok inc := hinc
  unfold nodeHasEdges
  rw [houtgoing,hincoming]
  simp only [bind,Except.bind,pure,Except.pure]
  split_ifs
  · exact ⟨_,rfl⟩
  · exact ⟨_,rfl⟩

theorem ends_deleteNodeTarget (h : FtsInv st) (detach : Bool) (id : NodeId) :
    Ends FtsInv (NoDuplicate env) (deleteNodeTarget env detach id st) := by
  have hdetached : Ends FtsInv (NoDuplicate env) (checkDetached detach id st) ∧
      (checkDetached detach id st).2=st := by
    unfold checkDetached
    split_ifs
    · exact ⟨ends_ok h,rfl⟩
    · obtain ⟨b,hb⟩ := nodeHasEdges_ok h.nodes id
      rw [inspect_ok (by exact hb)]
      split_ifs
      · exact ⟨ends_error h (noDuplicate_of_ne (by simp [duplicateRowid])),rfl⟩
      · exact ⟨ends_ok h,rfl⟩
  unfold deleteNodeTarget
  refine ends_bind hdetached.1 fun _ st' hrun => ?_
  have hsame : st'=st := by
    have hst := hdetached.2
    rw [hrun] at hst
    exact hst
  rw [hsame]
  cases hrec : recordAt st id with
  | none =>
    have hclear : clearNode env id st=(.ok (),st) := by
      rw [clearNode,getNode_of_missing hrec]
    rw [bind_ok hclear,attempt_apply,deleteNode_missing hrec]
    exact ends_ok h
  | some record =>
    obtain ⟨st₂,st₃,hclear,hdelete,hinv⟩ := @FtsInv.deleted E env st id h record hrec
    rw [bind_ok hclear,attempt_apply,hdelete]
    exact ends_ok hinv

theorem ends_execDelete (h : FtsInv st) (records : List NamedRecord) (exprs : List (DeleteExpr E))
    (detach : Bool) : Ends FtsInv (NoDuplicate env) (execDelete env records exprs detach st) := by
  have hcollect : ∀ (acc : List NamedRecord×DeleteTargets) (rec : NamedRecord),
      Raises (NoDuplicate env) (collectRecord env exprs acc rec) := by
    intro acc rec
    refine raises_bind (raises_foldEach fun done expr _ => ?_) fun done => raises_pure _ _
    cases expr with
    | var var => exact raises_pure _ _
    | other expr =>
      refine raises_bind (raises_inspect fun st e he => ?_) fun val => raises_pure _ _
      exact noDuplicate_of_eval he
  have hfirst : Ends FtsInv (NoDuplicate env)
      (foldEach records ([],⟨[],[]⟩) (collectRecord env exprs) st) :=
    ends_of_keeps (keeps_foldEach fun acc rec _ => keeps_collectRecord exprs acc rec)
      (raises_foldEach fun acc rec _ => hcollect acc rec) h
  unfold execDelete
  refine ends_bind hfirst fun acc st₁ hrun => ?_
  rw [hrun] at hfirst
  have hedges := hfirst.state.of_unseen (unseen_deleteTargets st₁ acc.2.edges)
  have hnodes : Ends FtsInv (NoDuplicate env) (forEach acc.2.nodes (deleteNodeTarget env detach)
      (acc.2.edges.foldl deleteEdgeTarget st₁)) :=
    ends_forEach (fun id _ _ hs => ends_deleteNodeTarget hs detach id) hedges
  rw [bind_ok (update_apply _ st₁)]
  refine ends_bind hnodes fun _ st₂ hrun₂ => ?_
  rw [hrun₂] at hnodes
  exact ends_ok hnodes.state

/-- A part of a CREATE clause visits no label twice with texts. -/
def CreateOpFresh (env : ExecEnv E) (rec : NamedRecord) (st : Store) : CreateOp E → Prop
  | .node labels _ properties => CreatesFresh env rec labels properties st
  | .edge _ _ _ _ _ => True

/-- The condition under which a write clause keeps the full-text mirror, along
the items that it reaches. -/
def ClauseFresh (env : ExecEnv E) (st : Store) : WriteClause E → Prop
  | .createNode labels _ properties => CreatesFresh env ⟨[]⟩ labels properties st
  | .createSequence ops =>
    FoldMeets (fun st s op => CreateOpFresh env s.record st op) (createSequenceOp env) ops
      ⟨[],⟨[]⟩⟩ st
  | .matchCreate records ops =>
    MapMeets
      (fun st rec => FoldMeets
        (fun st s op =>
          (∀ nodeAlias labels properties,op=.node labels nodeAlias properties →
            (nodeAlias.bind s.bound).isSome=false → CreatesFresh env rec labels properties st))
        (matchCreateOp env rec) ops ⟨seedBindings rec,rec⟩ st)
      (fun rec => do
        let s ← foldEach ops ⟨seedBindings rec,rec⟩ (matchCreateOp env rec)
        pure s.record)
      records st
  | .setProperty records assignments =>
    MapMeets (fun st rec => FoldMeets (AssignsFresh env) (setPropertyItem env) assignments rec st)
      (fun rec => foldEach assignments rec (setPropertyItem env)) records st
  | .setProperties records var expr merge =>
    MapMeets (MapsFresh env var expr merge) (setPropertiesRecord env var expr merge) records st
  | .setLabel records var labels =>
    MapMeets (LabelsFresh var) (setLabelRecord env var labels) records st
  | .remove _ _ => True
  | .delete _ _ _ => True

theorem ends_execClause (h : FtsInv st) {clause : WriteClause E} (hguard : ClauseFresh env st clause) :
    Ends FtsInv (NoDuplicate env) (execClause env clause st) := by
  cases clause with
  | createNode labels nodeAlias properties =>
    have hends := ends_createNodeOp h ⟨[],⟨[]⟩⟩ nodeAlias hguard
    refine ends_bind hends fun s st' hrun => ?_
    rw [hrun] at hends
    exact ends_ok hends.state
  | createSequence ops =>
    have hends : Ends FtsInv (NoDuplicate env) (foldEach ops ⟨[],⟨[]⟩⟩ (createSequenceOp env) st) := by
      refine foldMeets_ends (fun st s op hs hop => ?_) h hguard
      cases op with
      | node labels nodeAlias properties => exact ends_createNodeOp hs s nodeAlias hop
      | edge src dst edgeType relAlias properties =>
        exact ends_createEdgeOp hs s.record s src dst edgeType relAlias properties
    refine ends_bind hends fun s st' hrun => ?_
    rw [hrun] at hends
    exact ends_ok hends.state
  | matchCreate records ops =>
    refine mapMeets_ends (fun st rec hs hrec => ?_) h hguard
    have hends : Ends FtsInv (NoDuplicate env)
        (foldEach ops ⟨seedBindings rec,rec⟩ (matchCreateOp env rec) st) := by
      refine foldMeets_ends (fun st s op hs hop => ?_) hs hrec
      cases op with
      | node labels nodeAlias properties =>
        unfold matchCreateOp
        dsimp only
        cases hbound : (nodeAlias.bind s.bound).isSome with
        | true => exact ends_ok hs
        | false => exact ends_createNodeOp hs s nodeAlias (hop nodeAlias labels properties rfl hbound)
      | edge src dst edgeType relAlias properties =>
        exact ends_createEdgeOp hs rec s src dst edgeType relAlias properties
    refine ends_bind hends fun s st' hrun => ?_
    rw [hrun] at hends
    exact ends_ok hends.state
  | setProperty records assignments =>
    exact mapMeets_ends (fun st rec hs hrec =>
      foldMeets_ends (fun st rec a hs ha => ends_setPropertyItem hs ha) hs hrec) h hguard
  | setProperties records var expr merge =>
    exact mapMeets_ends (fun st rec hs hrec => ends_setPropertiesRecord hs hrec) h hguard
  | setLabel records var labels =>
    exact mapMeets_ends (fun st rec hs hrec => ends_setLabelRecord hs labels hrec) h hguard
  | remove records items =>
    have hitems : ∀ st rec,FoldMeets (fun _ _ _ => True) (removeItem env) items rec st :=
      fun st rec => foldMeets_of_forall (fun _ _ _ => trivial) _ items rec st
    have hrecords : MapMeets (fun _ _ => True) (fun rec => foldEach items rec (removeItem env))
      records st := mapMeets_of_forall (fun _ _ => trivial) _ records st
    refine mapMeets_ends (fun st rec hs _ => ?_) h hrecords
    exact foldMeets_ends (fun st rec item hs _ => ends_removeItem hs rec item) hs (hitems st rec)
  | delete records exprs detach => exact ends_execDelete h records exprs detach

end Clauses

/-- The steps of a run: full-text definitions and write clauses. -/
inductive FtsStep (E : Type) where
  | createIndex (kind : FtsTokenizerKind) (label property : String)
  | createIndexMulti (label : String) (properties : List String)
  | dropIndex (label property : String)
  | clause (clause : WriteClause E)

/-- The state of a run: the database, and the errors that steps have reported. -/
structure FtsRun where
  /-- The database. -/
  store : Store
  /-- Errors, in order. -/
  errors : List GraphError

/-- The state after an action, successful or not. -/
def FtsRun.after {α : Type} (s : FtsRun) (m : Db α) : FtsRun :=
  match m s.store with
  | (.ok _,st) => ⟨st,s.errors⟩
  | (.error e,st) => ⟨st,s.errors++[e]⟩

section Steps

variable {E : Type} (env : ExecEnv E)

/-- One step of a run. -/
def applyFtsStep (s : FtsRun) : FtsStep E → FtsRun
  | .createIndex kind label property =>
    s.after (createFulltextIndexImpl env.engine label property kind)
  | .createIndexMulti label properties =>
    s.after (createFulltextIndexWordMulti env.engine label properties)
  | .dropIndex label property => s.after (dropFulltextIndex label property)
  | .clause clause => s.after (execClause env clause)

/-- The condition under which a step keeps the full-text mirror. -/
def StepFresh (s : FtsRun) : FtsStep E → Prop
  | .createIndex _ label property =>
    AcceptsSingle env.engine s.store label property → ScanExact s.store label [property]
  | .createIndexMulti label properties => ∀ table,
    AcceptsMulti env.engine s.store label properties table → ScanExact s.store label properties
  | .dropIndex label property => DropsWhole s.store label property
  | .clause clause => ClauseFresh env s.store clause

/-- Every full-text table mirrors the nodes, and no step has met a row that was
already there. -/
def FullTextExact (s : FtsRun) : Prop :=
  FullTextMirrors s.store ∧ ∀ e∈s.errors,NoDuplicate env e

variable {env}

theorem after_ends {α : Type} {s : FtsRun} {m : Db α} (herrors : ∀ e∈s.errors,NoDuplicate env e)
    (h : Ends FtsInv (NoDuplicate env) (m s.store)) :
    FtsInv (s.after m).store ∧ ∀ e∈(s.after m).errors,NoDuplicate env e := by
  unfold FtsRun.after
  cases hrun : m s.store with
  | mk outcome st =>
    rw [hrun] at h
    cases outcome with
    | ok a => exact ⟨h.state,herrors⟩
    | error e =>
      refine ⟨h.state,fun e' he => ?_⟩
      rcases List.mem_append.mp he with hold|hnew
      · exact herrors e' hold
      · rw [List.mem_singleton.mp hnew]
        exact h.error e rfl

theorem ends_definition {α : Type} {r : Except GraphError α×Store}
    (h : Ends FtsInv (· ≠ duplicateRowid) r) : Ends FtsInv (NoDuplicate env) r :=
  ⟨h.state,fun e he => noDuplicate_of_ne (h.error e he)⟩

theorem ftsInv_step {s : FtsRun} (h : FtsInv s.store ∧ ∀ e∈s.errors,NoDuplicate env e)
    {step : FtsStep E} (hguard : StepFresh env s step) :
    FtsInv (applyFtsStep env s step).store ∧
      ∀ e∈(applyFtsStep env s step).errors,NoDuplicate env e := by
  cases step with
  | createIndex kind label property =>
    exact after_ends h.2 (ends_definition (ends_createFulltextIndexImpl h.1 hguard kind))
  | createIndexMulti label properties =>
    exact after_ends h.2 (ends_definition (ends_createFulltextIndexWordMulti h.1 hguard))
  | dropIndex label property =>
    exact after_ends h.2 (ends_definition (ends_dropFulltextIndex h.1 hguard))
  | clause clause => exact after_ends h.2 (ends_execClause h.1 hguard)

/-- Along every run whose steps meet their conditions, the full-text tables
mirror the nodes and no insertion meets a row already there, for every behaviour
of the virtual-table module. -/
theorem fullTextExact_reached (env : ExecEnv E) (steps : List (FtsStep E))
    (hguard : Guarded (applyFtsStep env) (StepFresh env) ⟨freshStore,[]⟩ steps) (first : List (FtsStep E))
    (hfirst : first<+:steps) : FullTextExact env (run (applyFtsStep env) ⟨freshStore,[]⟩ first) := by
  have hinv : FtsInv (run (applyFtsStep env) ⟨freshStore,[]⟩ first).store ∧
      ∀ e∈(run (applyFtsStep env) ⟨freshStore,[]⟩ first).errors,NoDuplicate env e := by
    refine run_invariant (I:=fun s : FtsRun => FtsInv s.store ∧ ∀ e∈s.errors,NoDuplicate env e)
      (fun s step h hstep => ftsInv_step h hstep) ?_ (guarded_of_isPrefix hfirst hguard)
    exact ⟨ftsInv_freshStore,fun e he => absurd he List.not_mem_nil⟩
  exact ⟨hinv.1.mirror,hinv.2⟩

end Steps

/-- A word index on `:A(x)` and `CREATE (n:A {x: 's'})`. -/
def indexedRun : List (FtsStep Value) :=
  [.createIndex .word "A" "x",.clause (.createNode ["A"] (some "n") [("x",.string "s")])]

/-- The mirror holds after that run. -/
theorem fullTextExact_sample :
    FullTextExact literalEnv (run (applyFtsStep literalEnv) ⟨freshStore,[]⟩ indexedRun) := by
  refine fullTextExact_reached literalEnv indexedRun ⟨?_,?_,trivial⟩ indexedRun (List.prefix_refl _)
  · intro _ id row hnode
    cases hnode
  · intro props _ _ _ info _ hcount
    have hone : ["A"].count info.label≤1 := List.count_le_length
    omega

/-- The same run followed by `SET n:A`. -/
def relabelRun : List (FtsStep Value) :=
  indexedRun++[.clause (.setLabel [⟨[("n",.i64 1)]⟩] "n" ["A"])]

/-- Setting a label that the node has already inserts its row again. -/
theorem fullTextExact_run_fails :
    ¬∀ steps : List (FtsStep Value),
      FullTextExact literalEnv (run (applyFtsStep literalEnv) ⟨freshStore,[]⟩ steps) := by
  intro hall
  have hreported : duplicateRowid∈
      (run (applyFtsStep literalEnv) ⟨freshStore,[]⟩ relabelRun).errors := by decide +kernel
  have ⟨st,expr,rec,heval⟩ := (hall relabelRun).2 duplicateRowid hreported rfl
  cases heval

end GraphDbLite.FullTextRuns
