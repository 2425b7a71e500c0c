import GraphDbLite.FullTextNames

/-!
# The full-text catalogue

Which full-text indexes are declared is known only from the tables of the database. Tables
of different indexes share one space of names with their shadow tables. The catalogue is
exact along the runs in which no tables of two indexes meet, no older name is taken, no
name is read as a tokenizer, and the full-text module accepts the columns.
-/

namespace GraphDbLite.FullTextCatalogue

open ByteStrings GraphTypes OrderedTable StatefulActions GraphStore NodeStorage LikePattern FullText
open FullTextMirror FullTextRuns FullTextNames

/-- A declared index. A multi-property index has a number among those of its label. -/
inductive FtsDeclaration where
  | single (label property : String) (kind : FtsTokenizerKind)
  | multi (label : String) (properties : List String) (number : Nat)
  deriving DecidableEq

/-- The label of a declaration. -/
def FtsDeclaration.label : FtsDeclaration → String
  | .single label _ _ => label
  | .multi label _ _ => label

/-- The properties of a declaration in order. -/
def FtsDeclaration.properties : FtsDeclaration → List String
  | .single _ property _ => [property]
  | .multi _ properties _ => properties

/-- The tokenizer of a declaration; multi-property indexes are word indexes. -/
def FtsDeclaration.kind : FtsDeclaration → FtsTokenizerKind
  | .single _ _ kind => kind
  | .multi _ _ _ => .word

/-- The virtual table of a declaration. -/
def FtsDeclaration.table : FtsDeclaration → String
  | .single label property _ => singleTableName label property
  | .multi label _ number => multiTableName label number

/-- The columns of the virtual table. -/
def FtsDeclaration.columns : FtsDeclaration → List String
  | .single _ _ _ => ["content"]
  | .multi _ properties _ => properties

/-- Whether a declaration is a single-property index on a pair. -/
def FtsDeclaration.isSingleOn (label property : String) : FtsDeclaration → Bool
  | .single other more _ => other=label && more=property
  | .multi _ _ _ => false

/-- Whether a declaration is a multi-property index of a label. -/
def FtsDeclaration.isMultiOf (label : String) : FtsDeclaration → Bool
  | .single _ _ _ => false
  | .multi other _ _ => other=label

/-- Number of multi-property indexes of a label. -/
def multiCount (declared : List FtsDeclaration) (label : String) : Nat :=
  declared.countP (FtsDeclaration.isMultiOf label)

/-- Whether a declared index covers a pair. -/
def covered (declared : List FtsDeclaration) (label property : String) : Bool :=
  declared.any fun d => d.label=label && property∈d.properties

/-- An operation on the catalogue. -/
inductive FtsStep where
  | createSingle (label property : String) (kind : FtsTokenizerKind)
  | createMulti (label : String) (properties : List String)
  | drop (label property : String)

/-- Whether an operation should succeed. -/
def expected (declared : List FtsDeclaration) : FtsStep → Bool
  | .createSingle label property _ => !covered declared label property
  | .createMulti label properties =>
    properties≠[] && decide properties.Nodup && properties.all fun p => !covered declared label p
  | .drop label property => declared.any (FtsDeclaration.isSingleOn label property)

/-- The declarations after an operation that should succeed. -/
def declaredBy (declared : List FtsDeclaration) : FtsStep → List FtsDeclaration
  | .createSingle label property kind => .single label property kind::declared
  | .createMulti label properties => .multi label properties (multiCount declared label+1)::declared
  | .drop label property => declared.filter fun d => !d.isSingleOn label property

/-- The declarations after an operation. -/
def declaredAfter (declared : List FtsDeclaration) (step : FtsStep) : List FtsDeclaration :=
  if expected declared step=true then declaredBy declared step else declared

/-- The index that the listing reads off the name of a table and its declaration. -/
def parsedInfo (name sql : String) : Option FtsIndexInfo :=
  let kind := parseTokenizerKind sql
  let properties := parseColumnList sql
  match stripPrefix "node_fts$" name with
  | some rest => (cutFirst '$' rest).map fun parts => ⟨parts.1,[parts.2],kind,name⟩
  | none =>
    match stripPrefix "node_fts_multi_" name with
    | some rest => (cutLast '_' rest).map fun parts => ⟨parts.1,properties,kind,name⟩
    | none =>
      match stripPrefix "node_fts_" name with
      | some rest => (cutFirst '_' rest).map fun parts => ⟨parts.1,[parts.2],kind,name⟩
      | none => none

/-- All full-text indexes, read off the catalogue. -/
def listIndexes (st : Store) : List FtsIndexInfo :=
  (st.ftsTables.rows.filter fun row => likeMatch "node_fts_%".toList row.1.toList).filterMap
    fun row => parsedInfo row.1 (storedSql row.1 row.2)

/-- Label, properties and tokenizer of a listed index. -/
def listedAs (info : FtsIndexInfo) : String×List String×FtsTokenizerKind := (info.label,info.properties,info.kind)

/-- Label, properties and tokenizer of a declared index. -/
def FtsDeclaration.listedAs (d : FtsDeclaration) : String×List String×FtsTokenizerKind := (d.label,d.properties,d.kind)

/-- A database and what is declared in it. -/
structure FtsState where
  /-- The tables. -/
  store : Store
  /-- The declared indexes. -/
  declared : List FtsDeclaration

/-- The listing gives exactly the declared indexes, each once. -/
def FtsListsExact (s : FtsState) : Prop :=
  ((listIndexes s.store).map listedAs).Perm (s.declared.map FtsDeclaration.listedAs)

/-- A database without full-text indexes; secondary indexes have names of their own. -/
structure FtsFree (st : Store) : Prop where
  /-- There is no full-text table. -/
  noTable : st.ftsTables=empty
  /-- Index tables are named by their own scheme. -/
  indexNames : ∀ name∈keys st.indexTables,∃ rest,name="node_idx"++rest

/-- Label and properties are names the library accepts. -/
def FtsNamesPass : FtsStep → Prop
  | .createSingle label property _ => isValidName label=true ∧ isValidName property=true
  | .createMulti label properties => isValidName label=true ∧ ∀ p∈properties,isValidName p=true
  | .drop label property => isValidName label=true ∧ isValidName property=true

section Engine

variable (engine : FtsEngine)

/-- The creation of a single-property index with a tokenizer. -/
def createSingle (label property : String) : FtsTokenizerKind → Db Unit
  | .trigramCaseSensitive => createFulltextIndex engine label property
  | .trigramCaseInsensitive => createFulltextIndexCi engine label property
  | .word => createFulltextIndexWord engine label property

/-- Run an operation on the catalogue. -/
def runFtsStep (st : Store) : FtsStep → Except GraphError Unit×Store
  | .createSingle label property kind => createSingle engine label property kind st
  | .createMulti label properties => createFulltextIndexWordMulti engine label properties st
  | .drop label property => dropFulltextIndex label property st

/-- The database and the declarations after an operation, successful or not. -/
def applyFtsStep (s : FtsState) (step : FtsStep) : FtsState :=
  ⟨(runFtsStep engine s.store step).2,declaredAfter s.declared step⟩

/-- An operation succeeds when it should, touches no index that stays declared and leaves
an exact listing. -/
structure FtsStepMeets (s : FtsState) (step : FtsStep) : Prop where
  /-- It succeeds exactly when it should. -/
  outcome : (runFtsStep engine s.store step).1=.ok () ↔ expected s.declared step=true
  /-- Indexes that were declared and stay declared keep their contents. -/
  others : ∀ d∈s.declared,d∈declaredAfter s.declared step →
    get (runFtsStep engine s.store step).2.ftsTables d.table=get s.store.ftsTables d.table
  /-- The listing is exact afterwards. -/
  lists : FtsListsExact (applyFtsStep engine s step)

/-- The tables of a new index meet no others and its declaration is read rightly; a drop of
what is not declared meets no table. Covered pairs are refused in any case. -/
def FtsClean (s : FtsState) : FtsStep → Prop
  | .createSingle label property kind => covered s.declared label property=false →
    (∀ other more k,.single other more k∈s.declared → ¬TablesClash label property other more) ∧
    (∀ other properties n,.multi other properties n∈s.declared → ¬LegacyClash label property other n) ∧
    (kind=.word ∨ ¬NamesWordTokenizer label property) ∧
    engine.accepts (singleTableName label property) ["content"]=true
  | .createMulti label properties => expected s.declared (.createMulti label properties)=true →
    (∀ other more n,.multi other more n∈s.declared → other.toLower=label.toLower → other=label) ∧
    multiCount s.declared label<2^64 ∧
    engine.accepts (multiTableName label (multiCount s.declared label+1)) properties=true
  | .drop label property => expected s.declared (.drop label property)=false →
    (∀ more k,.single label more k∈s.declared → ∀ ending∈shadowSuffixes,property≠more++ending) ∧
    ∀ other properties n,.multi other properties n∈s.declared → ¬LegacyClash label property other n

end Engine

/-- A declaration with checked names. -/
structure FtsChecked (d : FtsDeclaration) : Prop where
  /-- The label is a name. -/
  label : isValidName d.label=true
  /-- There are properties. -/
  nonempty : d.properties≠[]
  /-- The properties are names. -/
  properties : ∀ p∈d.properties,isValidName p=true

/-- The virtual table of a declaration with all its shadow tables. -/
structure TableOf (d : FtsDeclaration) (t : FtsTable) : Prop where
  /-- Its columns. -/
  columns : t.columns=d.columns
  /-- Its tokenizer. -/
  kind : t.kind=d.kind
  /-- Its shadow tables. -/
  shadows : t.shadows=shadowSuffixes

/-- The tokenizer that the listing reads for a declaration. -/
def FtsDeclaration.readKind (d : FtsDeclaration) : FtsTokenizerKind :=
  parseTokenizerKind (ftsSql d.table ⟨d.columns,d.kind,[],[]⟩)

/-- The index that the listing reads for a declaration. -/
def FtsDeclaration.info (d : FtsDeclaration) : FtsIndexInfo := ⟨d.label,d.properties,d.readKind,d.table⟩

section Reading

variable {d : FtsDeclaration} {t : FtsTable}

theorem ftsSql_tableOf (h : TableOf d t) : ftsSql d.table t=ftsSql d.table ⟨d.columns,d.kind,[],[]⟩ := by
  unfold ftsSql
  rw [h.columns,h.kind]

theorem tableOk_tableOf (hd : FtsChecked d) (h : TableOf d t) : TableOk d.table t d.info := by
  have hsql := ftsSql_tableOf h
  cases d with
  | single label property kind =>
    have hok := @tableOk_single label property hd.label t h.shadows
    rw [FtsDeclaration.info,FtsDeclaration.readKind,←hsql,FtsDeclaration.table,FtsDeclaration.label,
      FtsDeclaration.properties]
    exact hok
  | multi label properties n =>
    have hok := tableOk_multi label n t h.shadows
    have hcolumns : t.columns=properties := h.columns
    rw [hcolumns] at hok
    rw [FtsDeclaration.info,FtsDeclaration.readKind,←hsql,FtsDeclaration.table,FtsDeclaration.label,
      FtsDeclaration.properties]
    exact hok

theorem bracket_notMem_table (hd : FtsChecked d) : '('∉d.table.toList := by
  cases d with
  | single label property kind =>
    have hproperty : isValidName property=true := hd.properties property List.mem_cons_self
    intro hmem
    simp only [FtsDeclaration.table,singleTableName,String.toList_append,String.toList_ofList,List.mem_append] at hmem
    rcases hmem with hin|hin|hin|hin
    · exact absurd hin (by simp)
    · exact notMem_of_validName hd.label (by decide) hin
    · exact absurd hin (by decide)
    · exact notMem_of_validName hproperty (by decide) hin
  | multi label properties n =>
    intro hmem
    simp only [FtsDeclaration.table,multiTableName,String.toList_append,String.toList_ofList,List.mem_append] at hmem
    rcases hmem with hin|hin|hin|hin
    · exact absurd hin (by simp)
    · exact notMem_of_validName hd.label (by decide) hin
    · exact absurd hin (by decide)
    · exact absurd (isDigit_of_mem_toString hin) (by decide)

theorem stripPrefix_single (label property : String) :
    stripPrefix "node_fts_multi_" (singleTableName label property)=none := by
  refine Option.eq_none_iff_forall_ne_some.mpr fun rest hstrip => ?_
  exact single_ne_multi _ _ (stripPrefix_eq_some.mp hstrip)

theorem stripPrefix_multi (label : String) (n : Nat) : stripPrefix "node_fts$" (multiTableName label n)=none := by
  refine Option.eq_none_iff_forall_ne_some.mpr fun rest hstrip => ?_
  exact single_ne_multi _ _ (stripPrefix_eq_some.mp hstrip).symm

theorem readKind_multi (label : String) (properties : List String) (n : Nat) :
    (FtsDeclaration.multi label properties n).readKind=.word := by
  rw [FtsDeclaration.readKind,FtsDeclaration.table,FtsDeclaration.columns,FtsDeclaration.kind]
  exact @parseTokenizerKind_word (multiTableName label n) ⟨properties,.word,[],[]⟩ rfl

/-- The listing reads the index of a declaration off its table and its stored declaration. -/
theorem parsedInfo_tableOf (hd : FtsChecked d) (h : TableOf d t) :
    parsedInfo d.table (storedSql d.table t)=some d.info := by
  cases d with
  | single label property kind =>
    have hnone := stripPrefix_single label property
    have hsame : storedSql (singleTableName label property) t=ftsSql (singleTableName label property) t := by
      unfold storedSql declaredColumns
      rw [hnone]
      rfl
    have hkind : (FtsDeclaration.single label property kind).readKind=
        parseTokenizerKind (ftsSql (singleTableName label property) t) := by
      rw [FtsDeclaration.readKind,←ftsSql_tableOf h,FtsDeclaration.table]
    have hdollar : '$'∉label.toList := notMem_of_validName hd.label (by decide)
    have hread : parsedInfo (singleTableName label property) (storedSql (singleTableName label property) t)=
        some ⟨label,[property],parseTokenizerKind (ftsSql (singleTableName label property) t),
          singleTableName label property⟩ := by
      rw [hsame]
      unfold parsedInfo singleTableName
      dsimp only
      rw [stripPrefix_append]
      dsimp only
      rw [cutFirst_append hdollar,Option.map_some]
    rw [FtsDeclaration.info,hkind]
    exact hread
  | multi label properties n =>
    have hstrip : stripPrefix "node_fts_multi_" (multiTableName label n)=some (label++(String.ofList ['_']++toString n)) :=
      stripPrefix_append _ _
    have hcolumns : t.columns=properties := h.columns
    have hquoted : declaredColumns (multiTableName label n) t.columns=properties.map quoted := by
      unfold declaredColumns
      rw [hstrip,hcolumns]
      rfl
    have hmarks : (properties.map quoted).map String.toList=properties.map (marked ['"']) := by
      rw [List.map_map]
      refine List.map_congr_left fun p hp => ?_
      have hquote : "\"".toList=['"'] := by simp
      rw [Function.comp_apply,quoted,marked,String.toList_append,String.toList_append,hquote]
    have hparse : parseColumnList (storedSql (multiTableName label n) t)=properties := by
      unfold storedSql
      rw [hquoted]
      exact parseColumnList_ftsSql (bracket_notMem_table hd) hd.nonempty hd.properties
        (by simp) hmarks
    have hword : parseTokenizerKind (storedSql (multiTableName label n) t)=.word :=
      parseTokenizerKind_word _ h.kind
    have hkind := readKind_multi label properties n
    have hread : parsedInfo (multiTableName label n) (storedSql (multiTableName label n) t)=
        some ⟨label,properties,.word,multiTableName label n⟩ := by
      unfold parsedInfo
      rw [hparse,hword,stripPrefix_multi,hstrip]
      dsimp only
      rw [cutLast_append label (underscore_notMem_toString n),Option.map_some]
    rw [FtsDeclaration.info,hkind]
    exact hread

/-- The tokenizer of a declaration is read rightly exactly when it is a word tokenizer or
label and property do not name one. -/
theorem readKind_single_iff {label property : String} (hlabel : isValidName label=true)
    (hproperty : isValidName property=true) (kind : FtsTokenizerKind) :
    (FtsDeclaration.single label property kind).readKind=kind ↔ kind=.word ∨ ¬NamesWordTokenizer label property := by
  have hparse := @parseTokenizerKind_single label property hlabel hproperty ⟨["content"],kind,[],[]⟩ rfl
  have hread : (FtsDeclaration.single label property kind).readKind=
      parseTokenizerKind (ftsSql (singleTableName label property) ⟨["content"],kind,[],[]⟩) := by
    rw [FtsDeclaration.readKind,FtsDeclaration.table,FtsDeclaration.columns,FtsDeclaration.kind]
  rw [hread]
  constructor
  · intro hright
    by_cases hnames : NamesWordTokenizer label property
    · exact Or.inl (hright.symm.trans (hparse.1 hnames))
    · exact Or.inr hnames
  · intro hclean
    by_cases hnames : NamesWordTokenizer label property
    · have hword : kind=.word := hclean.resolve_right fun hn => hn hnames
      exact (hparse.1 hnames).trans hword.symm
    · exact hparse.2 hnames

end Reading

/-- The tables are exactly those of the declarations, apart from each other. -/
structure FtsTables (s : FtsState) : Prop where
  /-- Declarations passed the checks. -/
  checked : ∀ d∈s.declared,FtsChecked d
  /-- No declaration is listed twice. -/
  nodup : s.declared.Nodup
  /-- Tables of different declarations differ also up to letter case. -/
  apart : ∀ d∈s.declared,∀ e∈s.declared,∀ ending∈tableEndings,∀ more∈tableEndings,
    (d.table++ending).toLower=(e.table++more).toLower → d=e
  /-- A pair is covered once. -/
  once : ∀ d∈s.declared,∀ e∈s.declared,d.label=e.label → ∀ p∈d.properties,p∈e.properties → d=e
  /-- Every full-text table belongs to a declaration. -/
  owned : ∀ name∈keys s.store.ftsTables,∃ d∈s.declared,name=d.table
  /-- Every declaration has its tables. -/
  tables : ∀ d∈s.declared,∃ t,get s.store.ftsTables d.table=some t ∧ TableOf d t
  /-- The multi-property indexes of a label are numbered from one on. -/
  numbers : ∀ label n,(∃ properties,.multi label properties n∈s.declared) ↔ 1 ≤ n ∧ n ≤ multiCount s.declared label
  /-- Index tables are named by their own scheme. -/
  indexNames : ∀ name∈keys s.store.indexTables,∃ rest,name="node_idx"++rest

/-- Names of tables that belong to no full-text index. -/
def OtherName (st : Store) (name : String) : Prop := name∈baseTableNames ∨ name∈keys st.indexTables

section Tables

variable {s : FtsState} (h : FtsTables s)

theorem table_front (d : FtsDeclaration) {ending : String} (hending : ending∈tableEndings) :
    ∃ rest,(d.table++ending).toLower="node_fts"++rest := by
  have hsingle : "node_fts$"="node_fts"++"$" := rfl
  have hmulti : "node_fts_multi_"="node_fts"++"_multi_" := rfl
  cases d with
  | single label property kind =>
    rw [FtsDeclaration.table,single_toLower label property hending,hsingle,String.append_assoc]
    exact ⟨_,rfl⟩
  | multi label properties n =>
    rw [FtsDeclaration.table,multi_toLower label n hending,hmulti,String.append_assoc]
    exact ⟨_,rfl⟩

include h

theorem FtsTables.other_ne {name : String} (hname : OtherName s.store name) (rest : String) :
    name.toLower≠"node_fts"++rest :=
  IndexCatalogue.front_ne rfl rfl (by decide) (by decide) (Or.imp_right (h.indexNames name) hname) rest

theorem FtsTables.mem_tables {name : String} :
    name∈tableNames s.store ↔ OtherName s.store name ∨
      ∃ d∈s.declared,∃ ending∈tableEndings,name=d.table++ending := by
  rw [IndexCatalogue.mem_tableNames,OtherName,or_assoc]
  have hfts : name∈IndexCatalogue.ftsTableNames s.store ↔
      ∃ d∈s.declared,∃ ending∈tableEndings,name=d.table++ending := by
    constructor
    · intro hname
      have ⟨row,hrow,hmem⟩ := List.mem_flatMap.mp hname
      have hget : get s.store.ftsTables row.1=some row.2 := get_eq_some.mpr hrow
      have ⟨d,hd,htable⟩ := h.owned row.1 (mem_keys.mpr ⟨_,hget⟩)
      have ⟨t,ht,hof⟩ := h.tables d hd
      rw [htable] at hget
      have hrows : row.2=t := Option.some.inj (hget.symm.trans ht)
      rcases List.mem_cons.mp hmem with hself|hshadow
      · exact ⟨d,hd,"",List.mem_cons_self,by rw [hself,htable,String.append_empty]⟩
      · have ⟨ending,hending,heq⟩ := List.mem_map.mp hshadow
        rw [hrows,hof.shadows] at hending
        exact ⟨d,hd,ending,List.mem_cons_of_mem _ hending,by rw [←heq,htable]⟩
    · intro hdeclared
      have ⟨d,hd,ending,hending,heq⟩ := hdeclared
      have ⟨t,ht,hof⟩ := h.tables d hd
      refine List.mem_flatMap.mpr ⟨(d.table,t),get_eq_some.mp ht,?_⟩
      rcases List.mem_cons.mp hending with hempty|hshadow
      · rw [heq,hempty,String.append_empty]
        exact List.mem_cons_self
      · rw [heq]
        refine List.mem_cons_of_mem _ (List.mem_map.mpr ⟨ending,?_,rfl⟩)
        rw [hof.shadows]
        exact hshadow
  rw [hfts]

/-- The name of a full-text table is taken up to letter case exactly by a table of a
declared index. -/
theorem FtsTables.nameTaken_iff {name rest : String} (hfront : name.toLower="node_fts"++rest) :
    nameTaken s.store name=true ↔ ∃ d∈s.declared,∃ ending∈tableEndings,(d.table++ending).toLower=name.toLower := by
  unfold nameTaken
  rw [List.any_eq_true]
  constructor
  · intro htaken
    have ⟨other,hother,hsame⟩ := htaken
    have hlower : other.toLower=name.toLower := of_decide_eq_true hsame
    rcases h.mem_tables.mp hother with hbase|⟨d,hd,ending,hending,heq⟩
    · exact absurd (hlower.trans hfront) (h.other_ne hbase rest)
    · exact ⟨d,hd,ending,hending,by rw [←heq,hlower]⟩
  · intro hdeclared
    have ⟨d,hd,ending,hending,hlower⟩ := hdeclared
    exact ⟨d.table++ending,h.mem_tables.mpr (Or.inr ⟨d,hd,ending,hending,rfl⟩),decide_eq_true hlower⟩

/-- The name of a full-text table exists exactly as a table of a declared index. -/
theorem FtsTables.tableExists_iff {name rest : String} (hfront : name.toLower="node_fts"++rest) :
    tableExists s.store name=true ↔ ∃ d∈s.declared,∃ ending∈tableEndings,name=d.table++ending := by
  rw [tableExists,decide_eq_true_eq,h.mem_tables]
  constructor
  · intro hname
    exact hname.resolve_left fun hother => h.other_ne hother rest hfront
  · exact Or.inr

end Tables

section Listing

variable {s : FtsState} (h : FtsTables s)

include h

/-- What a reading of the tables gives when it reads the tables of declarations rightly. -/
theorem FtsTables.mem_listing (read : String → FtsTable → Option FtsIndexInfo)
    (hread : ∀ d∈s.declared,∀ t,TableOf d t → read d.table t=some d.info) {info : FtsIndexInfo} :
    info∈(s.store.ftsTables.rows.filter fun row => likeMatch "node_fts_%".toList row.1.toList).filterMap
      (fun row => read row.1 row.2) ↔ ∃ d∈s.declared,info=d.info := by
  rw [List.mem_filterMap]
  constructor
  · intro hlisted
    have ⟨row,hrow,hinfo⟩ := hlisted
    have hget : get s.store.ftsTables row.1=some row.2 := get_eq_some.mpr (List.mem_of_mem_filter hrow)
    have ⟨d,hd,htable⟩ := h.owned row.1 (mem_keys.mpr ⟨_,hget⟩)
    have ⟨t,ht,hof⟩ := h.tables d hd
    rw [htable] at hget hinfo
    rw [Option.some.inj (hget.symm.trans ht),hread d hd t hof] at hinfo
    exact ⟨d,hd,(Option.some.inj hinfo).symm⟩
  · intro hdeclared
    have ⟨d,hd,hinfo⟩ := hdeclared
    have ⟨t,ht,hof⟩ := h.tables d hd
    refine ⟨(d.table,t),List.mem_filter.mpr ⟨get_eq_some.mp ht,?_⟩,?_⟩
    · exact (tableOk_tableOf (h.checked d hd) hof).listed
    · rw [hread d hd t hof,hinfo]

theorem FtsTables.tokenizerKind_isOk (label property : String) :
    (ftsTokenizerKind s.store label property).isOk=covered s.declared label property := by
  have hread : ∀ d∈s.declared,∀ t,TableOf d t → ftsInfo d.table t=some d.info :=
    fun d hd t hof => (tableOk_tableOf (h.checked d hd) hof).describes
  have hmem : ∀ info,info∈listAllFulltextIndexes s.store ↔ ∃ d∈s.declared,info=d.info := fun info => h.mem_listing ftsInfo hread
  unfold ftsTokenizerKind
  cases hfind : (listAllFulltextIndexes s.store).find? fun info => info.label=label && property∈info.properties with
  | some info =>
    have ⟨d,hd,hinfo⟩ := (hmem info).mp (List.mem_of_find?_eq_some hfind)
    have hfound := List.find?_some hfind
    rw [hinfo] at hfound
    exact (List.any_eq_true.mpr ⟨d,hd,hfound⟩).symm
  | none =>
    have hnone := List.find?_eq_none.mp hfind
    refine (List.any_eq_false.mpr fun d hd => ?_).symm
    exact hnone d.info ((hmem d.info).mpr ⟨d,hd,rfl⟩)

theorem FtsTables.listIndexes_perm : (listIndexes s.store).Perm (s.declared.map FtsDeclaration.info) := by
  have hread : ∀ d∈s.declared,∀ t,TableOf d t → parsedInfo d.table (storedSql d.table t)=some d.info :=
    fun d hd t hof => parsedInfo_tableOf (h.checked d hd) hof
  have hinfos : (s.declared.map FtsDeclaration.info).Nodup := by
    refine List.Nodup.map_on (fun d hd e he hsame => ?_) h.nodup
    have htables : d.table=e.table := congrArg FtsIndexInfo.tableName hsame
    exact h.apart d hd e he "" List.mem_cons_self "" List.mem_cons_self (by rw [htables])
  have hlisting : (listIndexes s.store).Nodup := by
    have hkeys : s.store.ftsTables.rows.Pairwise fun row other => row.1≠other.1 := List.pairwise_map.mp (keys_nodup _)
    refine List.pairwise_filterMap.mpr (List.Pairwise.imp_of_mem ?_ (hkeys.filter _))
    intro row other hrow hother hne info hinfo more hmore hsame
    have hname : ∀ row∈s.store.ftsTables.rows.filter fun row => likeMatch "node_fts_%".toList row.1.toList,
        ∀ info,parsedInfo row.1 (storedSql row.1 row.2)=some info → info.tableName=row.1 := by
      intro row hrow info hinfo
      have hget : get s.store.ftsTables row.1=some row.2 := get_eq_some.mpr (List.mem_of_mem_filter hrow)
      have ⟨d,hd,htable⟩ := h.owned row.1 (mem_keys.mpr ⟨_,hget⟩)
      have ⟨t,ht,hof⟩ := h.tables d hd
      rw [htable] at hget hinfo
      rw [Option.some.inj (hget.symm.trans ht),hread d hd t hof] at hinfo
      rw [←Option.some.inj hinfo,htable]
      rfl
    exact hne ((hname row hrow info hinfo).symm.trans ((congrArg FtsIndexInfo.tableName hsame).trans (hname other hother more hmore)))
  refine (List.perm_ext_iff_of_nodup hlisting hinfos).mpr fun info => ?_
  rw [List.mem_map]
  refine (h.mem_listing (fun name t => parsedInfo name (storedSql name t)) hread).trans ?_
  exact ⟨fun ⟨d,hd,heq⟩ => ⟨d,hd,heq.symm⟩,fun ⟨d,hd,heq⟩ => ⟨d,hd,heq.symm⟩⟩

theorem FtsTables.listsExact_iff : FtsListsExact s ↔ ∀ d∈s.declared,d.readKind=d.kind := by
  have hperm : ((listIndexes s.store).map listedAs).Perm (s.declared.map fun d => (d.label,d.properties,d.readKind)) := by
    have hmap := h.listIndexes_perm.map listedAs
    have hcomp : listedAs∘FtsDeclaration.info=fun d => (d.label,d.properties,d.readKind) := by
      funext d
      rw [Function.comp_apply,listedAs,FtsDeclaration.info]
    rw [List.map_map,hcomp] at hmap
    exact hmap
  constructor
  · intro hexact d hd
    have hsame := hexact.symm.trans hperm
    have hmem : (d.label,d.properties,d.readKind)∈s.declared.map FtsDeclaration.listedAs :=
      hsame.mem_iff.mpr (List.mem_map.mpr ⟨d,hd,rfl⟩)
    have ⟨e,he,heq⟩ := List.mem_map.mp hmem
    have hparts : e.label=d.label ∧ e.properties=d.properties ∧ e.kind=d.readKind := by
      have hpair := Prod.mk.inj heq
      exact ⟨hpair.1,Prod.mk.inj hpair.2⟩
    have hne := (h.checked d hd).nonempty
    have ⟨p,hp⟩ := List.exists_mem_of_ne_nil _ hne
    have hself := h.once e he d hd hparts.1 p (hparts.2.1 ▸ hp) hp
    rw [←hparts.2.2,hself]
  · intro hread
    have hsame : s.declared.map (fun d => (d.label,d.properties,d.readKind))=s.declared.map FtsDeclaration.listedAs := by
      refine List.map_congr_left fun d hd => ?_
      rw [hread d hd,FtsDeclaration.listedAs]
    unfold FtsListsExact
    rw [←hsame]
    exact hperm

end Listing

section Creations

variable {engine : FtsEngine} {st : Store}

theorem fillNew (table label : String) (properties columns : List String) (kind : FtsTokenizerKind) :
    ∃ rows,forEach (findNodesByLabel st label) (fun n => insertTexts engine table n.id properties n.properties)
        (withTable st table ⟨columns,kind,[],shadowSuffixes⟩)=
      (.ok (),withTable st table ⟨columns,kind,rows,shadowSuffixes⟩) := by
  have ⟨rows,hrun,_,_⟩ := @fillTexts_ok engine table properties (findNodesByLabel st label)
    (withTable st table ⟨columns,kind,[],shadowSuffixes⟩) ⟨columns,kind,[],shadowSuffixes⟩ (get_put_self _ _ _) rfl
    (findNodesByLabel_nodup st label) fun n _ => rfl
  refine ⟨rows,hrun.trans ?_⟩
  rw [withTable,withTable,put_put]
  rfl

/-- A declaration is accepted exactly when its tables are free and the module accepts it. -/
theorem declares_iff {table : String} {columns : List String} : Declares engine st table columns ↔
    ¬(∃ ending∈tableEndings,nameTaken st (table++ending)=true) ∧ engine.accepts table columns=true := by
  rw [Declares,←and_assoc]
  refine and_congr_left fun _ => ?_
  simp only [tableEndings,not_exists,not_and,Bool.not_eq_true,List.forall_mem_cons,String.append_empty]

/-- A declaration that the database and the module accept makes an empty table. -/
theorem createVirtualTable_accepted {table : String} {columns : List String} (h : Declares engine st table columns)
    (kind : FtsTokenizerKind) : createVirtualTable engine table columns kind st=
      (.ok (),withTable st table ⟨columns,kind,[],shadowSuffixes⟩) := by
  have hshadows : (shadowSuffixes.any fun suffix => nameTaken st (table++suffix))=false := by
    rw [List.any_eq_false]
    intro suffix hsuffix
    rw [h.2.1 suffix hsuffix]
    simp
  unfold createVirtualTable
  rw [if_neg (by rw [h.1,hshadows]; simp),if_neg (by rw [h.2.2]; simp)]
  rfl

theorem createFulltextIndexImpl_cases (label property : String) (kind : FtsTokenizerKind) :
    (AcceptsSingle engine st label property ∧ ∃ rows,createFulltextIndexImpl engine label property kind st=
      (.ok (),withTable st (singleTableName label property) ⟨["content"],kind,rows,shadowSuffixes⟩)) ∨
    (¬AcceptsSingle engine st label property ∧ ∃ e,createFulltextIndexImpl engine label property kind st=(.error e,st)) := by
  cases hname : ftsTableName label property with
  | error e =>
    refine Or.inr ⟨fun haccepts => ?_,e,?_⟩
    · have hok := ftsTableName_ok_iff.mpr ⟨haccepts.labelChecked,haccepts.propertyChecked,rfl⟩
      cases hname.symm.trans hok
    · unfold createFulltextIndexImpl
      rw [inspect_error (by exact hname)]
  | ok table =>
    have ⟨hlabel,hproperty,htable⟩ := ftsTableName_ok_iff.mp hname
    have hlegacy := legacyFtsTableName_ok hlabel hproperty
    unfold createFulltextIndexImpl
    rw [inspect_ok (by exact hname),inspect_ok (by exact hlegacy),inspect_ok (by rfl),htable]
    cases hcurrent : tableExists st (singleTableName label property) with
    | true => exact Or.inr ⟨fun haccepts => absurd (haccepts.current.symm.trans hcurrent) (by simp),_,rfl⟩
    | false =>
      cases hold : tableExists st (legacyTableName label property) with
      | true => exact Or.inr ⟨fun haccepts => absurd (haccepts.legacy.symm.trans hold) (by simp),_,rfl⟩
      | false =>
        rw [if_neg (by simp),inspect_ok (by rfl)]
        cases huncovered : (ftsTokenizerKind st label property).isOk with
        | true => exact Or.inr ⟨fun haccepts => absurd (haccepts.uncovered.symm.trans huncovered) (by simp),_,rfl⟩
        | false =>
          rw [if_neg (by simp)]
          rcases @createVirtualTable_cases engine st (singleTableName label property) ["content"] kind
            with ⟨hdeclares,hrun⟩|⟨e,-,hrun⟩
          · have ⟨rows,hfill⟩ := @fillNew engine st (singleTableName label property) label [property] ["content"] kind
            refine Or.inl ⟨⟨hlabel,hproperty,hcurrent,hold,huncovered,hdeclares⟩,rows,?_⟩
            rw [bind_ok hrun,inspect_ok (by rfl)]
            exact hfill
          · refine Or.inr ⟨fun haccepts => ?_,e,by rw [bind_error hrun]⟩
            have hdeclared := createVirtualTable_accepted haccepts.declared kind
            cases hrun.symm.trans hdeclared

theorem createFulltextIndexWordMulti_cases (label : String) (properties : List String) :
    (∃ table,AcceptsMulti engine st label properties table ∧ ∃ rows,createFulltextIndexWordMulti engine label properties st=
      (.ok (),withTable st table ⟨properties,.word,rows,shadowSuffixes⟩)) ∨
    ((∀ table,¬AcceptsMulti engine st label properties table) ∧
      ∃ e,createFulltextIndexWordMulti engine label properties st=(.error e,st)) := by
  unfold createFulltextIndexWordMulti createFulltextIndexMultiImpl
  cases hchecked : checkMultiRequest st label properties with
  | error e =>
    refine Or.inr ⟨fun table haccepts => absurd (haccepts.checked.symm.trans hchecked) (by simp),e,?_⟩
    rw [inspect_error (by exact hchecked)]
  | ok u =>
    rw [inspect_ok (by exact hchecked)]
    cases hname : ftsMultiTableName st label with
    | error e =>
      refine Or.inr ⟨fun table haccepts => absurd (haccepts.named.symm.trans hname) (by simp),e,?_⟩
      rw [inspect_error (by exact hname)]
    | ok table =>
      rw [inspect_ok (by exact hname)]
      rcases @createVirtualTable_cases engine st table properties .word with ⟨hdeclares,hrun⟩|⟨e,-,hrun⟩
      · have ⟨rows,hfill⟩ := @fillNew engine st table label properties properties .word
        refine Or.inl ⟨table,⟨hchecked,hname,hdeclares⟩,rows,?_⟩
        rw [bind_ok hrun,inspect_ok (by rfl)]
        exact hfill
      · refine Or.inr ⟨fun other haccepts => ?_,e,by rw [bind_error hrun]⟩
        have hother : other=table := Except.ok.inj (haccepts.named.symm.trans hname)
        have hdeclared := createVirtualTable_accepted (hother ▸ haccepts.declared) .word
        cases hrun.symm.trans hdeclared

end Creations

section Requests

variable {engine : FtsEngine} {s : FtsState} (h : FtsTables s)

theorem firstRepeated_none_iff {seen properties : List String} :
    firstRepeated seen properties=none ↔ properties.Nodup ∧ ∀ p∈properties,p∉seen := by
  induction properties generalizing seen with
  | nil => simp [firstRepeated]
  | cons p rest ih =>
    rw [firstRepeated,List.nodup_cons]
    split_ifs with hp
    · constructor
      · intro hnone
        exact nomatch hnone
      · intro hall
        exact absurd hp (hall.2 p List.mem_cons_self)
    · rw [ih]
      constructor
      · intro hrest
        refine ⟨⟨fun hin => hrest.2 p hin List.mem_cons_self,hrest.1⟩,fun q hq => ?_⟩
        rcases List.mem_cons.mp hq with heq|hin
        · rw [heq]
          exact hp
        · exact fun hseen => hrest.2 q hin (List.mem_cons_of_mem _ hseen)
      · intro hall
        refine ⟨hall.1.2,fun q hq hin => ?_⟩
        rcases List.mem_cons.mp hin with heq|hseen
        · exact hall.1.1 (heq ▸ hq)
        · exact hall.2 q (List.mem_cons_of_mem _ hq) hseen

theorem legacy_front (label property : String) : ∃ rest,(legacyTableName label property).toLower="node_fts"++rest := by
  have hfront : "node_fts_".toLower="node_fts"++"_" := String.toList_inj.mp (IndexCatalogue.toLower_toList _)
  rw [legacyTableName,IndexCatalogue.toLower_append,hfront,String.append_assoc]
  exact ⟨_,rfl⟩

include h

/-- The older name of a pair exists exactly as a table of a multi-property index. -/
theorem FtsTables.legacyExists_iff (label property : String) : tableExists s.store (legacyTableName label property)=true ↔
    ∃ other properties n,.multi other properties n∈s.declared ∧ LegacyClash label property other n := by
  obtain ⟨rest,hfront⟩ := legacy_front label property
  rw [h.tableExists_iff hfront]
  constructor
  · intro hexists
    obtain ⟨d,hd,ending,hending,heq⟩ := hexists
    cases d with
    | single other more kind =>
      have hname : legacyTableName label property="node_fts$"++(other++(String.ofList ['$']++more)++ending) := by
        rw [heq,FtsDeclaration.table,singleTableName,String.append_assoc]
      exact absurd hname (legacy_ne_single _ _ _)
    | multi other properties n => exact ⟨other,properties,n,hd,legacyClash_iff.mpr ⟨ending,hending,heq⟩⟩
  · intro hclash
    obtain ⟨other,properties,n,hd,hclash⟩ := hclash
    obtain ⟨ending,hending,heq⟩ := legacyClash_iff.mp hclash
    exact ⟨_,hd,ending,hending,heq⟩

/-- A table of a new single-property index is taken exactly by a clash with a declared one. -/
theorem FtsTables.singleTaken_iff {label property : String} (hlabel : isValidName label=true) :
    (∃ ending∈tableEndings,nameTaken s.store (singleTableName label property++ending)=true) ↔
      ∃ other more k,.single other more k∈s.declared ∧ TablesClash label property other more := by
  constructor
  · intro htaken
    have ⟨ending,hending,htaken⟩ := htaken
    have ⟨rest,hfront⟩ := table_front (.single label property .word) hending
    have ⟨d,hd,ending',hending',hsame⟩ := (h.nameTaken_iff hfront).mp htaken
    cases d with
    | single other more kind =>
      have hother := (h.checked _ hd).label
      exact ⟨other,more,kind,hd,(tablesClash_iff hlabel hother).mpr ⟨ending,hending,ending',hending',hsame.symm⟩⟩
    | multi other properties n =>
      have hlower : (multiTableName other n++ending').toLower=(singleTableName label property++ending).toLower := hsame
      rw [multi_toLower other n hending',single_toLower label property hending] at hlower
      exact absurd hlower.symm (single_ne_multi _ _)
  · intro hclash
    have ⟨other,more,k,hd,hclash⟩ := hclash
    have hother := (h.checked _ hd).label
    have ⟨ending,hending,ending',hending',hsame⟩ := (tablesClash_iff hlabel hother).mp hclash
    have ⟨rest,hfront⟩ := table_front (.single label property .word) hending
    exact ⟨ending,hending,(h.nameTaken_iff hfront).mpr ⟨_,hd,ending',hending',hsame.symm⟩⟩

/-- A single-property creation is accepted exactly on a pair that no index covers, when no
table of its name exists in either scheme and the module accepts it. -/
theorem FtsTables.acceptsSingle_iff {label property : String} (hlabel : isValidName label=true)
    (hproperty : isValidName property=true) : AcceptsSingle engine s.store label property ↔
      covered s.declared label property=false ∧
      (∀ other more k,.single other more k∈s.declared → ¬TablesClash label property other more) ∧
      (∀ other properties n,.multi other properties n∈s.declared → ¬LegacyClash label property other n) ∧
      engine.accepts (singleTableName label property) ["content"]=true := by
  have hdeclares := @declares_iff engine s.store (singleTableName label property) ["content"]
  rw [h.singleTaken_iff hlabel] at hdeclares
  have hlegacy := h.legacyExists_iff label property
  rw [←not_iff_not,Bool.not_eq_true] at hlegacy
  simp only [not_exists,not_and] at hdeclares hlegacy
  constructor
  · intro haccepts
    have ⟨hfree,hengine⟩ := hdeclares.mp haccepts.declared
    exact ⟨(h.tokenizerKind_isOk label property).symm.trans haccepts.uncovered,hfree,hlegacy.mp haccepts.legacy,hengine⟩
  · intro hclean
    have ⟨huncovered,hsingle,hmulti,haccepts⟩ := hclean
    have hdeclared := hdeclares.mpr ⟨hsingle,haccepts⟩
    refine ⟨hlabel,hproperty,?_,hlegacy.mpr hmulti,(h.tokenizerKind_isOk label property).trans huncovered,hdeclared⟩
    rw [←Bool.not_eq_true]
    intro hexists
    have hmem : singleTableName label property∈tableNames s.store := of_decide_eq_true hexists
    have hname : nameTaken s.store (singleTableName label property)=true :=
      List.any_eq_true.mpr ⟨_,hmem,decide_eq_true rfl⟩
    cases hname.symm.trans hdeclared.1

/-- A number read behind the front of a label's multi-property tables is one of its numbers. -/
theorem FtsTables.readNumber {label name rest : String}
    (hname : name∈tableNames s.store) (htext : name="node_fts_multi_"++(label++(String.ofList ['_']++rest))) {j : Nat}
    (hread : parseU64 rest=some j) : (∃ properties,.multi label properties j∈s.declared) ∧ j<2^64 := by
  have hmulti : "node_fts_multi_".toLower="node_fts"++"_multi_" := String.toList_inj.mp (IndexCatalogue.toLower_toList _)
  have hfront : name.toLower="node_fts"++("_multi_"++(label++(String.ofList ['_']++rest)).toLower) := by
    rw [htext,IndexCatalogue.toLower_append,hmulti,String.append_assoc]
  rcases h.mem_tables.mp hname with hother|⟨d,hd,ending,hending,heq⟩
  · exact absurd hfront (h.other_ne hother _)
  · cases d with
    | single other more kind =>
      have hsingle : name="node_fts$"++(other++(String.ofList ['$']++more)++ending) := by
        rw [heq,FtsDeclaration.table,singleTableName,String.append_assoc]
      exact absurd (hsingle.symm.trans htext) (single_ne_multi _ _)
    | multi other properties n =>
      have htable : name="node_fts_multi_"++(other++(String.ofList ['_']++(toString n++ending))) := by
        rw [heq,FtsDeclaration.table,multiTableName]
        simp only [String.append_assoc]
      have hparts : label++(String.ofList ['_']++rest)=(other++(String.ofList ['_']++toString n))++ending := by
        have hsame := String.append_right_inj _ |>.mp (htext.symm.trans htable)
        simpa only [String.append_assoc] using hsame
      have hother : isValidName other=true := (h.checked _ hd).label
      have hplus : '+'∉rest.toList := by
        intro hin
        have hall : '+'∈((other++(String.ofList ['_']++toString n))++ending).toList := by
          rw [←hparts]
          simp [hin]
        simp only [String.toList_append,String.toList_ofList,List.mem_append] at hall
        rcases hall with (hin|hin|hin)|hin
        · exact notMem_of_validName hother (by decide) hin
        · exact absurd hin (by decide)
        · exact absurd (isDigit_of_mem_toString hin) (by decide)
        · have hnone : ∀ ending∈tableEndings,'+'∉ending.toList := by decide
          exact hnone ending hending hin
      have hdigits : ∀ c∈rest.toList,c.isDigit=true := fun c hc => isDigit_of_parseU64 hread hplus hc
      have hunderscore : '_'∉rest.toList := fun hin => absurd (hdigits _ hin) (by decide)
      have hcut := congrArg (cutLast '_') hparts
      rw [cutLast_append label hunderscore] at hcut
      rcases ending_cases hending with hempty|⟨word,hword,hplain,c,hc,hdigit⟩
      · rw [hempty,String.append_empty,cutLast_append other (underscore_notMem_toString n)] at hcut
        have hpair := Prod.mk.inj (Option.some.inj hcut)
        rw [hpair.2,parseU64_toString] at hread
        split_ifs at hread with hsmall
        rw [hpair.1,←Option.some.inj hread]
        exact ⟨⟨properties,hd⟩,hsmall⟩
      · rw [hword,cutLast_append _ hplain] at hcut
        have hpair := Prod.mk.inj (Option.some.inj hcut)
        rw [←hpair.2] at hc
        exact absurd ((hdigits c hc).symm.trans hdigit) (by decide)

theorem FtsTables.multiTableName_eq {label : String} (hlabel : isValidName label=true) :
    ftsMultiTableName s.store label=.ok (multiTableName label (min (multiCount s.declared label) (2^64-1)+1)) := by
  have hnumber : ∀ n,multiTableName label n=("node_fts_multi_"++(label++String.ofList ['_']))++toString n := by
    intro n
    rw [multiTableName]
    simp only [String.append_assoc]
  generalize hused : ((tableNames s.store).filter fun name =>
      likeMatch (("node_fts_multi_"++(label++String.ofList ['_'])).toList++['%']) name.toList).filterMap
        (fun name => (stripPrefix ("node_fts_multi_"++(label++String.ofList ['_'])) name).bind parseU64)=used
  have hmem : ∀ j,j∈used ↔ (∃ properties,.multi label properties j∈s.declared) ∧ j<2^64 := by
    intro j
    rw [←hused,List.mem_filterMap]
    constructor
    · intro hlisted
      obtain ⟨name,hname,hparse⟩ := hlisted
      obtain ⟨rest,hstrip,hread⟩ := Option.bind_eq_some_iff.mp hparse
      have htext : name="node_fts_multi_"++(label++(String.ofList ['_']++rest)) := by
        rw [stripPrefix_eq_some.mp hstrip]
        simp only [String.append_assoc]
      exact h.readNumber (List.mem_of_mem_filter hname) htext hread
    · intro hdeclared
      obtain ⟨⟨properties,hd⟩,hsmall⟩ := hdeclared
      refine ⟨multiTableName label j,List.mem_filter.mpr ⟨?_,?_⟩,?_⟩
      · exact h.mem_tables.mpr (Or.inr ⟨_,hd,"",List.mem_cons_self,String.append_empty.symm⟩)
      · have hlist : (multiTableName label j).toList=
            ("node_fts_multi_"++(label++String.ofList ['_'])).toList++(toString j).toList := by
          rw [hnumber,String.toList_append]
        rw [hlist]
        exact likeMatch_append (likeMatch_self _) (likeMatch_any _)
      · rw [hnumber,stripPrefix_append]
        exact (parseU64_toString j).trans (if_pos hsmall)
  have hnext : nextSuffix 1 (used.insertionSort (· ≤ ·))=min (multiCount s.declared label) (2^64-1)+1 := by
    refine nextSuffix_range (List.pairwise_insertionSort _ _) (by omega) (fun u hu => ?_) fun j hone hj => ?_
    · have hu' := (hmem u).mp (List.mem_insertionSort _ |>.mp hu)
      have hcount := (h.numbers label u).mp hu'.1
      omega
    · refine (List.mem_insertionSort _).mpr ((hmem j).mpr ⟨(h.numbers label j).mpr ⟨hone,by omega⟩,by omega⟩)
  unfold ftsMultiTableName
  rw [validateName_ok_iff.mpr hlabel]
  dsimp only [bind,Except.bind,pure,Except.pure]
  rw [hused,hnext,hnumber]

end Requests

section Outcomes

variable {engine : FtsEngine} {s : FtsState} (h : FtsTables s)

include h

/-- A multi-property request passes its checks exactly when the creation should succeed. -/
theorem FtsTables.checkMultiRequest_iff {label : String} {properties : List String}
    (hnames : ∀ p∈properties,isValidName p=true) :
    checkMultiRequest s.store label properties=.ok () ↔ expected s.declared (.createMulti label properties)=true := by
  have hvalid := validateNames_ok_iff.mpr hnames
  have hcovered : (fun p => (ftsTokenizerKind s.store label p).isOk)=fun p => covered s.declared label p :=
    funext fun p => h.tokenizerKind_isOk label p
  have hall : (properties.find? fun p => covered s.declared label p)=none ↔
      (properties.all fun p => !covered s.declared label p)=true := by
    rw [List.find?_eq_none,List.all_eq_true]
    simp only [Bool.not_eq_true,Bool.not_eq_true']
  unfold checkMultiRequest expected
  rw [hcovered,Bool.and_eq_true,Bool.and_eq_true,decide_eq_true_eq,decide_eq_true_eq]
  by_cases hne : properties=[]
  · rw [if_pos hne]
    exact ⟨fun hok => (nomatch hok),fun hok => absurd hne hok.1.1⟩
  · rw [if_neg hne]
    cases hrepeated : firstRepeated [] properties with
    | some p =>
      have hdup : ¬properties.Nodup := by
        intro hnodup
        have hnone : firstRepeated [] properties=none :=
          firstRepeated_none_iff.mpr ⟨hnodup,fun _ _ => List.not_mem_nil⟩
        cases hrepeated.symm.trans hnone
      exact ⟨fun hok => (nomatch hok),fun hok => absurd hok.1.2 hdup⟩
    | none =>
      have hnodup := (firstRepeated_none_iff.mp hrepeated).1
      cases hfind : properties.find? fun p => covered s.declared label p with
      | some p =>
        have hsome : ¬(properties.all fun p => !covered s.declared label p)=true := by
          rw [←hall,hfind]
          simp
        exact ⟨fun hok => (nomatch hok),fun hok => absurd hok.2 hsome⟩
      | none => exact ⟨fun _ => ⟨⟨hne,hnodup⟩,hall.mp hfind⟩,fun _ => hvalid⟩

/-- A table of a new multi-property index is taken exactly when an index of a label that
differs in letter case at most has its number. -/
theorem FtsTables.multiTaken_iff (label : String) (n : Nat) :
    (∃ ending∈tableEndings,nameTaken s.store (multiTableName label n++ending)=true) ↔
      ∃ other properties,.multi other properties n∈s.declared ∧ other.toLower=label.toLower := by
  constructor
  · intro htaken
    have ⟨ending,hending,htaken⟩ := htaken
    have ⟨rest,hfront⟩ := table_front (.multi label [] n) hending
    have ⟨d,hd,ending',hending',hsame⟩ := (h.nameTaken_iff hfront).mp htaken
    cases d with
    | single other more kind =>
      have hlower : (singleTableName other more++ending').toLower=(multiTableName label n++ending).toLower := hsame
      rw [multi_toLower label n hending,single_toLower other more hending'] at hlower
      exact absurd hlower (single_ne_multi _ _)
    | multi other properties k =>
      have hlower : (multiTableName other k++ending').toLower=(multiTableName label n++ending).toLower := hsame
      rw [multi_toLower label n hending,multi_toLower other k hending'] at hlower
      have ⟨hlabels,hnumbers,_⟩ := number_inj hending' hending (String.append_right_inj _ |>.mp hlower)
      exact ⟨other,properties,hnumbers ▸ hd,hlabels⟩
  · intro hdeclared
    have ⟨other,properties,hd,hlabels⟩ := hdeclared
    have ⟨rest,hfront⟩ := @table_front (.multi label [] n) "" List.mem_cons_self
    refine ⟨"",List.mem_cons_self,(h.nameTaken_iff hfront).mpr ⟨_,hd,"",List.mem_cons_self,?_⟩⟩
    have hlower : (multiTableName other n++"").toLower=(multiTableName label n++"").toLower := by
      rw [multi_toLower other n List.mem_cons_self,multi_toLower label n List.mem_cons_self,hlabels]
    exact hlower

/-- A multi-property creation is accepted exactly when it should succeed, no multi-property
index has a label that differs in letter case only, its number fits in 64 bits and the
module accepts it. -/
theorem FtsTables.acceptsMulti_iff {label : String} (hlabel : isValidName label=true) {properties : List String}
    (hnames : ∀ p∈properties,isValidName p=true) : (∃ table,AcceptsMulti engine s.store label properties table) ↔
      expected s.declared (.createMulti label properties)=true ∧
      (∀ other more n,.multi other more n∈s.declared → other.toLower=label.toLower → other=label) ∧
      multiCount s.declared label<2^64 ∧
      engine.accepts (multiTableName label (multiCount s.declared label+1)) properties=true := by
  have hnamed := h.multiTableName_eq hlabel
  have hone : ∀ other more n,.multi other more n∈s.declared → ∃ first,.multi other first 1∈s.declared := by
    intro other more n hd
    have hcount := (h.numbers other n).mp ⟨more,hd⟩
    exact (h.numbers other 1).mpr (by omega)
  constructor
  · intro haccepts
    have ⟨table,haccepts⟩ := haccepts
    have htable : table=multiTableName label (min (multiCount s.declared label) (2^64-1)+1) :=
      (Except.ok.inj (hnamed.symm.trans haccepts.named)).symm
    have hfree : ∀ other more n,n=min (multiCount s.declared label) (2^64-1)+1 → .multi other more n∈s.declared →
        other.toLower≠label.toLower := by
      intro other more n hn hd hsame
      rw [hn] at hd
      have hfree := (declares_iff.mp haccepts.declared).1
      rw [htable] at hfree
      exact hfree ((h.multiTaken_iff label _).mpr ⟨other,more,hd,hsame⟩)
    have hsmall : multiCount s.declared label<2^64 := by
      by_contra hlarge
      have ⟨more,hd⟩ := (h.numbers label (2^64)).mpr (by omega)
      exact hfree label more (2^64) (by omega) hd rfl
    have hmin : min (multiCount s.declared label) (2^64-1)=multiCount s.declared label := by omega
    rw [hmin] at htable hfree
    refine ⟨(h.checkMultiRequest_iff hnames).mp haccepts.checked,?_,hsmall,htable ▸ haccepts.declared.2.2⟩
    intro other more n hd hsame
    have ⟨first,hfirst⟩ := hone other more n hd
    by_cases hzero : multiCount s.declared label=0
    · exact absurd hsame (hfree other first 1 (by omega) hfirst)
    · have ⟨second,hsecond⟩ := (h.numbers label 1).mpr (by omega)
      have hlower : (multiTableName other 1++"").toLower=(multiTableName label 1++"").toLower := by
        rw [multi_toLower other 1 List.mem_cons_self,multi_toLower label 1 List.mem_cons_self,hsame]
      have hself := h.apart _ hfirst _ hsecond "" List.mem_cons_self "" List.mem_cons_self hlower
      exact (FtsDeclaration.multi.inj hself).1
  · intro hclean
    have ⟨hexpected,hlabels,hsmall,haccepts⟩ := hclean
    have hmin : min (multiCount s.declared label) (2^64-1)=multiCount s.declared label := by omega
    rw [hmin] at hnamed
    refine ⟨_,(h.checkMultiRequest_iff hnames).mpr hexpected,hnamed,declares_iff.mpr ⟨?_,haccepts⟩⟩
    rw [h.multiTaken_iff label]
    rintro ⟨other,more,hd,hsame⟩
    rw [hlabels other more _ hd hsame] at hd
    have hcount := (h.numbers label _).mp ⟨more,hd⟩
    omega

end Outcomes

section Preservation

variable {s : FtsState} (h : FtsTables s)

theorem dropFulltextIndex_eq {st : Store} {label property : String} (hlabel : isValidName label=true)
    (hproperty : isValidName property=true) :
    ((tableExists st (singleTableName label property) || tableExists st (legacyTableName label property))=true →
      (dropFulltextIndex label property st).1=.ok ()) ∧
    (tableExists st (singleTableName label property)=true →
      dropFulltextIndex label property st=(.ok (),dropTable st (singleTableName label property))) ∧
    ((tableExists st (singleTableName label property) || tableExists st (legacyTableName label property))=false →
      ∃ e,dropFulltextIndex label property st=(.error e,st)) := by
  have hname : ftsTableName label property=.ok (singleTableName label property) :=
    ftsTableName_ok_iff.mpr ⟨hlabel,hproperty,rfl⟩
  have hlegacy := legacyFtsTableName_ok hlabel hproperty
  have hresolve : ∀ table,resolveFtsTable st label property=.ok table →
      dropFulltextIndex label property st=if tableExists st table=true then (.ok (),dropTable st table)
        else (.error (.indexNotFound label [property] (some "no fulltext index on this (label, property)")),st) := by
    intro table htable
    unfold dropFulltextIndex
    rw [inspect_ok (by exact htable),inspect_ok (by rfl)]
    split <;> rfl
  have htables : resolveFtsTable st label property=.ok (if tableExists st (singleTableName label property)=true
      then singleTableName label property else if tableExists st (legacyTableName label property)=true
        then legacyTableName label property else singleTableName label property) := by
    unfold resolveFtsTable
    rw [hname]
    dsimp only [bind,Except.bind]
    rw [hlegacy]
    split_ifs with hcurrent hold
    · rfl
    · dsimp only
      rw [if_pos hold]
      rfl
    · dsimp only
      rw [if_neg hold]
      rfl
  have hdrop := hresolve _ htables
  have hno : ¬false=true := by simp
  cases hcurrent : tableExists st (singleTableName label property) with
  | true =>
    rw [hcurrent,if_pos rfl,if_pos hcurrent] at hdrop
    exact ⟨fun _ => congrArg Prod.fst hdrop,fun _ => hdrop,fun hnone => (nomatch hnone)⟩
  | false =>
    rw [hcurrent,if_neg hno] at hdrop
    cases hold : tableExists st (legacyTableName label property) with
    | true =>
      rw [hold,if_pos rfl,if_pos hold] at hdrop
      exact ⟨fun _ => congrArg Prod.fst hdrop,fun hsome => (nomatch hsome),fun hnone => (nomatch hnone)⟩
    | false =>
      rw [hold,if_neg hno,hcurrent,if_neg hno] at hdrop
      exact ⟨fun hsome => (nomatch hsome),fun hsome => (nomatch hsome),fun _ => ⟨_,hdrop⟩⟩

include h

/-- The current name of a pair exists exactly as a table of a single-property index of the
label. -/
theorem FtsTables.currentExists_iff {label property : String} (hlabel : isValidName label=true) :
    tableExists s.store (singleTableName label property)=true ↔
      ∃ more k,.single label more k∈s.declared ∧ ∃ ending∈tableEndings,property=more++ending := by
  obtain ⟨rest,hfront⟩ := @table_front (.single label property .word) "" List.mem_cons_self
  rw [String.append_empty,FtsDeclaration.table] at hfront
  rw [h.tableExists_iff hfront]
  constructor
  · intro hexists
    obtain ⟨d,hd,ending,hending,heq⟩ := hexists
    cases d with
    | single other more kind =>
      have hother := (h.checked _ hd).label
      have hshape : "node_fts$"++(label++(String.ofList ['$']++property))=
          "node_fts$"++(other++(String.ofList ['$']++(more++ending))) := by
        simpa only [FtsDeclaration.table,singleTableName,String.append_assoc] using heq
      have hparts := dollar_inj (SecondaryIndex.dollar_notMem hlabel) (SecondaryIndex.dollar_notMem hother) hshape
      rw [hparts.1]
      exact ⟨more,kind,hd,ending,hending,hparts.2⟩
    | multi other properties n =>
      have hname : singleTableName label property=
          "node_fts_multi_"++(other++(String.ofList ['_']++toString n)++ending) := by
        rw [heq,FtsDeclaration.table,multiTableName,String.append_assoc]
      exact absurd hname (single_ne_multi _ _)
  · intro hdeclared
    obtain ⟨more,k,hd,ending,hending,heq⟩ := hdeclared
    refine ⟨_,hd,ending,hending,?_⟩
    rw [heq,FtsDeclaration.table,singleTableName,singleTableName]
    simp only [String.append_assoc]

theorem FtsTables.created {d : FtsDeclaration} (hd : FtsChecked d)
    (hfree : ∀ e∈s.declared,∀ ending∈tableEndings,∀ more∈tableEndings,
      (d.table++ending).toLower≠(e.table++more).toLower)
    (huncovered : ∀ p∈d.properties,covered s.declared d.label p=false)
    (hnumber : ∀ label properties n,d=.multi label properties n → n=multiCount s.declared label+1) {t : FtsTable}
    (ht : TableOf d t) : FtsTables ⟨withTable s.store d.table t,d::s.declared⟩ ∧
      ∀ e∈s.declared,get (withTable s.store d.table t).ftsTables e.table=get s.store.ftsTables e.table := by
  have hother : ∀ e∈s.declared,∀ p∈d.properties,d.label=e.label → p∉e.properties := by
    intro e he p hp hlabel hin
    have hcovered : covered s.declared d.label p=true := List.any_eq_true.mpr ⟨e,he,by simp [hlabel,hin]⟩
    exact absurd (hcovered.symm.trans (huncovered p hp)) (by simp)
  have hnew : d∉s.declared := by
    intro hin
    obtain ⟨p,hp⟩ := List.exists_mem_of_ne_nil _ hd.nonempty
    exact hother d hin p hp rfl hp
  have htable : ∀ e∈s.declared,e.table≠d.table := by
    intro e he hsame
    exact hfree e he "" List.mem_cons_self "" List.mem_cons_self (by rw [hsame])
  refine ⟨⟨?_,List.nodup_cons.mpr ⟨hnew,h.nodup⟩,?_,?_,?_,?_,?_,h.indexNames⟩,fun e he => get_put_ne (htable e he)⟩
  · intro e he
    rcases List.mem_cons.mp he with heq|hold
    · rw [heq]
      exact hd
    · exact h.checked e hold
  · intro e he f hf ending hending more hmore hsame
    rcases List.mem_cons.mp he with heq|hold
    · rcases List.mem_cons.mp hf with heq'|hold'
      · rw [heq,heq']
      · rw [heq] at hsame
        exact absurd hsame (hfree f hold' ending hending more hmore)
    · rcases List.mem_cons.mp hf with heq'|hold'
      · rw [heq'] at hsame
        exact absurd hsame.symm (hfree e hold more hmore ending hending)
      · exact h.apart e hold f hold' ending hending more hmore hsame
  · intro e he f hf hlabel p hp hp'
    rcases List.mem_cons.mp he with heq|hold
    · rcases List.mem_cons.mp hf with heq'|hold'
      · rw [heq,heq']
      · rw [heq] at hlabel hp
        exact absurd hp' (hother f hold' p hp hlabel)
    · rcases List.mem_cons.mp hf with heq'|hold'
      · rw [heq'] at hlabel hp'
        exact absurd hp (hother e hold p hp' hlabel.symm)
      · exact h.once e hold f hold' hlabel p hp hp'
  · intro name hname
    rcases mem_keys_put.mp hname with heq|hold
    · exact ⟨d,List.mem_cons_self,heq⟩
    · obtain ⟨e,he,heq⟩ := h.owned name hold
      exact ⟨e,List.mem_cons_of_mem _ he,heq⟩
  · intro e he
    rcases List.mem_cons.mp he with heq|hold
    · rw [heq]
      exact ⟨t,get_put_self _ _ _,ht⟩
    · obtain ⟨u,hu,hof⟩ := h.tables e hold
      refine ⟨u,?_,hof⟩
      rw [withTable,get_put_ne (htable e hold)]
      exact hu
  · intro label n
    have hold := h.numbers label n
    cases d with
    | single other property kind =>
      have hcount : multiCount (.single other property kind::s.declared) label=multiCount s.declared label :=
        List.countP_cons_of_neg (by simp [FtsDeclaration.isMultiOf])
      rw [hcount,←hold]
      simp only [List.mem_cons,reduceCtorEq,false_or]
    | multi other properties k =>
      have hk := hnumber other properties k rfl
      by_cases hlabel : other=label
      · have hcount : multiCount (.multi other properties k::s.declared) label=multiCount s.declared label+1 :=
          List.countP_cons_of_pos (by simp [FtsDeclaration.isMultiOf,hlabel])
        rw [hlabel] at hk
        rw [hcount]
        constructor
        · intro hmem
          obtain ⟨more,hmem⟩ := hmem
          rcases List.mem_cons.mp hmem with heq|hin
          · have hn : n=k := (FtsDeclaration.multi.inj heq).2.2
            omega
          · have hrange := hold.mp ⟨more,hin⟩
            omega
        · intro hrange
          by_cases hn : n=k
          · rw [hn,←hlabel]
            exact ⟨properties,List.mem_cons_self⟩
          · obtain ⟨more,hin⟩ := hold.mpr (by omega)
            exact ⟨more,List.mem_cons_of_mem _ hin⟩
      · have hcount : multiCount (.multi other properties k::s.declared) label=multiCount s.declared label :=
          List.countP_cons_of_neg (by simp [FtsDeclaration.isMultiOf,hlabel])
        rw [hcount,←hold]
        constructor
        · intro hmem
          obtain ⟨more,hmem⟩ := hmem
          rcases List.mem_cons.mp hmem with heq|hin
          · exact absurd (FtsDeclaration.multi.inj heq).1.symm hlabel
          · exact ⟨more,hin⟩
        · rintro ⟨more,hin⟩
          exact ⟨more,List.mem_cons_of_mem _ hin⟩

theorem FtsTables.isSingleOn_iff {label property : String} {k : FtsTokenizerKind}
    (hd : .single label property k∈s.declared) {e : FtsDeclaration} (he : e∈s.declared) :
    e.isSingleOn label property=true ↔ e=.single label property k := by
  constructor
  · intro hsingle
    cases e with
    | single other more kind =>
      have hparts : other=label ∧ more=property := by simpa [FtsDeclaration.isSingleOn] using hsingle
      refine h.once _ he _ hd hparts.1 more List.mem_cons_self ?_
      rw [hparts.2]
      exact List.mem_cons_self
    | multi other properties n => cases hsingle
  · intro heq
    rw [heq]
    simp [FtsDeclaration.isSingleOn]

/-- A dropped index is one declaration less, and the tables of the others stay. -/
theorem FtsTables.dropped {label property : String} {k : FtsTokenizerKind} (hd : .single label property k∈s.declared) :
    FtsTables ⟨dropTable s.store (singleTableName label property),
      s.declared.filter fun d => !d.isSingleOn label property⟩ ∧
    ∀ e∈s.declared,e.isSingleOn label property=false →
      get (dropTable s.store (singleTableName label property)).ftsTables e.table=get s.store.ftsTables e.table := by
  have hkept : ∀ e,e∈(s.declared.filter fun d => !d.isSingleOn label property) ↔
      e∈s.declared ∧ e≠.single label property k := by
    intro e
    rw [List.mem_filter,Bool.not_eq_true',←Bool.not_eq_true]
    exact and_congr_right fun he => not_congr (h.isSingleOn_iff hd he)
  have hget : ∀ name,get (dropTable s.store (singleTableName label property)).ftsTables name=
      (if name=singleTableName label property then none else get s.store.ftsTables name).map fun t =>
        {t with shadows := t.shadows.filter fun suffix => name++suffix≠singleTableName label property} := by
    intro name
    rw [GraphStore.dropTable,get_mapRows,get_delete]
  have hothers : ∀ e∈s.declared,e.isSingleOn label property=false →
      get (dropTable s.store (singleTableName label property)).ftsTables e.table=get s.store.ftsTables e.table := by
    intro e he hnot
    have hne : e≠.single label property k := by
      intro heq
      exact absurd (((h.isSingleOn_iff hd he).mpr heq).symm.trans hnot) (by simp)
    have hnames : ∀ ending∈tableEndings,e.table++ending≠singleTableName label property := by
      intro ending hending hsame
      refine hne (h.apart e he _ hd ending hending "" List.mem_cons_self ?_)
      rw [hsame,String.append_empty]
      rfl
    have htable := hnames "" List.mem_cons_self
    rw [String.append_empty] at htable
    obtain ⟨t,ht,hof⟩ := h.tables e he
    have hshadows : (t.shadows.filter fun suffix => e.table++suffix≠singleTableName label property)=t.shadows := by
      rw [List.filter_eq_self]
      intro suffix hsuffix
      rw [hof.shadows] at hsuffix
      exact decide_eq_true (hnames suffix (List.mem_cons_of_mem _ hsuffix))
    rw [hget,if_neg htable,ht,Option.map_some,hshadows]
  refine ⟨⟨?_,h.nodup.filter _,?_,?_,?_,?_,?_,?_⟩,hothers⟩
  · exact fun e he => h.checked e ((hkept e).mp he).1
  · exact fun e he f hf => h.apart e ((hkept e).mp he).1 f ((hkept f).mp hf).1
  · exact fun e he f hf => h.once e ((hkept e).mp he).1 f ((hkept f).mp hf).1
  · intro name hname
    obtain ⟨t,ht⟩ := mem_keys.mp hname
    rw [hget] at ht
    split_ifs at ht with heq
    · exact (by cases ht)
    · obtain ⟨u,hu,_⟩ := Option.map_eq_some_iff.mp ht
      obtain ⟨e,he,htable⟩ := h.owned name (mem_keys.mpr ⟨u,hu⟩)
      refine ⟨e,(hkept e).mpr ⟨he,fun hself => heq ?_⟩,htable⟩
      rw [htable,hself]
      rfl
  · intro e he
    have hin := List.mem_filter.mp he
    rw [hothers e hin.1 (by simpa using hin.2)]
    exact h.tables e hin.1
  · intro other n
    have hcount : multiCount (s.declared.filter fun d => !d.isSingleOn label property) other=multiCount s.declared other := by
      unfold multiCount
      rw [List.countP_filter]
      refine List.countP_congr fun e _ => ?_
      cases e with
      | single a b c => simp [FtsDeclaration.isMultiOf]
      | multi a b c => simp [FtsDeclaration.isMultiOf,FtsDeclaration.isSingleOn]
    rw [hcount,←h.numbers other n]
    simp only [hkept,ne_eq,reduceCtorEq,not_false_eq_true,and_true]
  · intro name hname
    exact h.indexNames name (mem_keys_delete.mp hname).2

end Preservation

/-- The tables are those of the declarations, and every tokenizer is read rightly. -/
structure FtsInv (s : FtsState) : Prop where
  /-- The tables. -/
  tables : FtsTables s
  /-- The tokenizers. -/
  readable : ∀ d∈s.declared,d.readKind=d.kind

section Steps

variable {engine : FtsEngine} {s : FtsState} {step : FtsStep}

theorem createSingle_eq (label property : String) (kind : FtsTokenizerKind) :
    createSingle engine label property kind=createFulltextIndexImpl engine label property kind := by
  cases kind <;> rfl

variable (engine s step) in
/-- The operation meets the contract exactly when it is clean, and then keeps the invariant. -/
def StepExact : Prop :=
  (FtsStepMeets engine s step ↔ FtsClean engine s step) ∧
    (FtsClean engine s step → FtsInv (applyFtsStep engine s step))

theorem FtsInv.refused (h : FtsInv s) (hexpected : expected s.declared step=false) {e : GraphError}
    (hrun : runFtsStep engine s.store step=(.error e,s.store)) (hclean : FtsClean engine s step) :
    StepExact engine s step := by
  have hsame : applyFtsStep engine s step=s := by
    rw [applyFtsStep,hrun,declaredAfter,hexpected]
    rfl
  have hmeets : FtsStepMeets engine s step := by
    refine ⟨?_,?_,?_⟩
    · rw [hrun,hexpected]
      exact ⟨fun hok => (nomatch hok),fun hok => (nomatch hok)⟩
    · intro d hd hkept
      rw [hrun]
    · rw [hsame]
      exact h.tables.listsExact_iff.mpr h.readable
  exact ⟨iff_of_true hmeets hclean,fun _ => hsame.symm ▸ h⟩

theorem FtsInv.accepted (hexpected : expected s.declared step=true) {st' : Store}
    (hrun : runFtsStep engine s.store step=(.ok (),st')) (htables : FtsTables ⟨st',declaredBy s.declared step⟩)
    (hothers : ∀ d∈s.declared,d∈declaredBy s.declared step → get st'.ftsTables d.table=get s.store.ftsTables d.table)
    (hread : (∀ d∈declaredBy s.declared step,d.readKind=d.kind) ↔ FtsClean engine s step) :
    StepExact engine s step := by
  have hafter : declaredAfter s.declared step=declaredBy s.declared step := if_pos hexpected
  have happly : applyFtsStep engine s step=⟨st',declaredBy s.declared step⟩ := by
    rw [applyFtsStep,hrun,hafter]
  rw [StepExact,←hread,happly]
  refine ⟨⟨?_,?_⟩,fun hread => ⟨htables,hread⟩⟩
  · intro hmeets
    have hlists := hmeets.lists
    rw [happly] at hlists
    exact htables.listsExact_iff.mp hlists
  · intro hread
    refine ⟨?_,?_,?_⟩
    · rw [hrun,hexpected]
      exact ⟨fun _ => rfl,fun _ => rfl⟩
    · intro d hd hkept
      rw [hrun]
      exact hothers d hd (hafter ▸ hkept)
    · rw [happly]
      exact htables.listsExact_iff.mpr hread

theorem stepExact_of_broken (hbroken : ¬((runFtsStep engine s.store step).1=.ok () ↔ expected s.declared step=true))
    (hunclean : ¬FtsClean engine s step) : StepExact engine s step :=
  ⟨iff_of_false (fun hmeets => hbroken hmeets.outcome) hunclean,fun hclean => absurd hclean hunclean⟩

theorem FtsInv.createSingle_step (h : FtsInv s) {label property : String} {kind : FtsTokenizerKind}
    (hlabel : isValidName label=true) (hproperty : isValidName property=true) :
    StepExact engine s (.createSingle label property kind) := by
  have hiff := @FtsTables.acceptsSingle_iff engine s h.tables label property hlabel hproperty
  have hrun : runFtsStep engine s.store (.createSingle label property kind)=
      createFulltextIndexImpl engine label property kind s.store := by
    rw [runFtsStep,createSingle_eq]
  cases hcovered : covered s.declared label property with
  | true =>
    have hexpected : expected s.declared (.createSingle label property kind)=false := by
      rw [expected,hcovered]
      rfl
    have hclean : FtsClean engine s (.createSingle label property kind) := by
      intro huncovered
      cases hcovered.symm.trans huncovered
    rcases @createFulltextIndexImpl_cases engine s.store label property kind with ⟨haccepts,-⟩|⟨-,e,herror⟩
    · exact absurd (hcovered.symm.trans (hiff.mp haccepts).1) (by simp)
    · exact h.refused hexpected (hrun.trans herror) hclean
  | false =>
    have hexpected : expected s.declared (.createSingle label property kind)=true := by
      rw [expected,hcovered]
      rfl
    have hkind := readKind_single_iff hlabel hproperty kind
    rcases @createFulltextIndexImpl_cases engine s.store label property kind with ⟨haccepts,rows,hok⟩|⟨hrefused,e,herror⟩
    · have ⟨_,hsingle,hmulti,hengine⟩ := hiff.mp haccepts
      have hchecked : FtsChecked (.single label property kind) := by
        refine ⟨hlabel,List.cons_ne_nil _ _,fun p hp => ?_⟩
        rw [List.mem_singleton.mp hp]
        exact hproperty
      have hfree : ∀ e∈s.declared,∀ ending∈tableEndings,∀ more∈tableEndings,
          ((FtsDeclaration.single label property kind).table++ending).toLower≠(e.table++more).toLower := by
        intro e he ending hending more hmore hsame
        cases e with
        | single other more' k =>
          have hclash := (tablesClash_iff hlabel (h.tables.checked _ he).label).mpr ⟨ending,hending,more,hmore,hsame⟩
          exact hsingle other more' k he hclash
        | multi other properties n =>
          have hlower : (singleTableName label property++ending).toLower=(multiTableName other n++more).toLower := hsame
          rw [multi_toLower other n hmore,single_toLower label property hending] at hlower
          exact absurd hlower (single_ne_multi _ _)
      have huncovered : ∀ p∈(FtsDeclaration.single label property kind).properties,covered s.declared label p=false := by
        intro p hp
        rw [List.mem_singleton.mp hp]
        exact hcovered
      have ⟨htables,hothers⟩ := @FtsTables.created s h.tables (.single label property kind) hchecked hfree huncovered
        (fun _ _ _ heq => (nomatch heq)) ⟨["content"],kind,rows,shadowSuffixes⟩ ⟨rfl,rfl,rfl⟩
      have hread : (∀ d∈declaredBy s.declared (.createSingle label property kind),d.readKind=d.kind) ↔
          kind=.word ∨ ¬NamesWordTokenizer label property := by
        rw [←hkind]
        constructor
        · exact fun hall => hall _ List.mem_cons_self
        · intro hnew d hd
          rcases List.mem_cons.mp hd with heq|hold
          · rw [heq]
            exact hnew
          · exact h.readable d hold
      have hclean : FtsClean engine s (.createSingle label property kind) ↔
          kind=.word ∨ ¬NamesWordTokenizer label property :=
        ⟨fun hclean => (hclean hcovered).2.2.1,fun hnames _ => ⟨hsingle,hmulti,hnames,hengine⟩⟩
      exact FtsInv.accepted hexpected (hrun.trans hok) htables (fun d hd _ => hothers d hd) (hread.trans hclean.symm)
    · have hunclean : ¬FtsClean engine s (.createSingle label property kind) := by
        intro hclean
        have ⟨hsingle,hmulti,_,hengine⟩ := hclean hcovered
        exact hrefused (hiff.mpr ⟨hcovered,hsingle,hmulti,hengine⟩)
      refine stepExact_of_broken ?_ hunclean
      rw [hrun,herror,hexpected]
      simp

theorem FtsInv.createMulti_step (h : FtsInv s) {label : String} {properties : List String}
    (hlabel : isValidName label=true) (hnames : ∀ p∈properties,isValidName p=true) :
    StepExact engine s (.createMulti label properties) := by
  have hiff := @FtsTables.acceptsMulti_iff engine s h.tables label hlabel properties hnames
  cases hexpected : expected s.declared (.createMulti label properties) with
  | false =>
    have hclean : FtsClean engine s (.createMulti label properties) := by
      intro hsucceeds
      cases hexpected.symm.trans hsucceeds
    rcases @createFulltextIndexWordMulti_cases engine s.store label properties with ⟨table,haccepts,-⟩|⟨-,e,herror⟩
    · exact absurd (hexpected.symm.trans (hiff.mp ⟨table,haccepts⟩).1) (by simp)
    · exact h.refused hexpected herror hclean
  | true =>
    rcases @createFulltextIndexWordMulti_cases engine s.store label properties with
      ⟨table,haccepts,rows,hok⟩|⟨hrefused,e,herror⟩
    · have ⟨_,hlabels,hsmall,hengine⟩ := hiff.mp ⟨table,haccepts⟩
      have hmin : min (multiCount s.declared label) (2^64-1)=multiCount s.declared label := by omega
      have htable : table=multiTableName label (multiCount s.declared label+1) := by
        have hnamed := h.tables.multiTableName_eq hlabel
        rw [hmin] at hnamed
        exact (Except.ok.inj (hnamed.symm.trans haccepts.named)).symm
      rw [htable] at hok
      have hparts : (properties≠[] ∧ properties.Nodup) ∧ ∀ p∈properties,covered s.declared label p=false := by
        rw [expected,Bool.and_eq_true,Bool.and_eq_true,decide_eq_true_eq,decide_eq_true_eq,List.all_eq_true] at hexpected
        exact ⟨hexpected.1,fun p hp => by simpa using hexpected.2 p hp⟩
      have hchecked : FtsChecked (.multi label properties (multiCount s.declared label+1)) :=
        ⟨hlabel,hparts.1.1,hnames⟩
      have hfree : ∀ e∈s.declared,∀ ending∈tableEndings,∀ more∈tableEndings,
          ((FtsDeclaration.multi label properties (multiCount s.declared label+1)).table++ending).toLower≠
            (e.table++more).toLower := by
        intro e he ending hending more hmore hsame
        cases e with
        | single other more' k =>
          have hlower : (multiTableName label (multiCount s.declared label+1)++ending).toLower=
              (singleTableName other more'++more).toLower := hsame
          rw [multi_toLower label _ hending,single_toLower other more' hmore] at hlower
          exact absurd hlower.symm (single_ne_multi _ _)
        | multi other properties' n =>
          have hlower : (multiTableName label (multiCount s.declared label+1)++ending).toLower=
              (multiTableName other n++more).toLower := hsame
          rw [multi_toLower label _ hending,multi_toLower other n hmore] at hlower
          have ⟨hsame,hn,_⟩ := number_inj hending hmore (String.append_right_inj _ |>.mp hlower)
          rw [hlabels other properties' n he hsame.symm] at he
          have hcount := (h.tables.numbers label n).mp ⟨properties',he⟩
          omega
      have hnumber : ∀ other more n,FtsDeclaration.multi label properties (multiCount s.declared label+1)=
          .multi other more n → n=multiCount s.declared other+1 := by
        intro other more n heq
        have ⟨hother,_,hn⟩ := FtsDeclaration.multi.inj heq
        rw [←hother,←hn]
      have ⟨htables,hothers⟩ := @FtsTables.created s h.tables _ hchecked hfree hparts.2 hnumber
        ⟨properties,.word,rows,shadowSuffixes⟩ ⟨rfl,rfl,rfl⟩
      have hread : ∀ d∈declaredBy s.declared (.createMulti label properties),d.readKind=d.kind := by
        intro d hd
        rcases List.mem_cons.mp hd with heq|hold
        · rw [heq]
          exact readKind_multi label properties _
        · exact h.readable d hold
      exact FtsInv.accepted hexpected hok htables (fun d hd _ => hothers d hd)
        (iff_of_true hread fun _ => ⟨hlabels,hsmall,hengine⟩)
    · have hunclean : ¬FtsClean engine s (.createMulti label properties) := by
        intro hclean
        have ⟨table,haccepts⟩ := hiff.mpr ⟨hexpected,hclean hexpected⟩
        exact hrefused table haccepts
      refine stepExact_of_broken ?_ hunclean
      rw [hexpected,runFtsStep,herror]
      simp

theorem FtsInv.drop_step (h : FtsInv s) {label property : String} (hlabel : isValidName label=true)
    (hproperty : isValidName property=true) :
    StepExact engine s (.drop label property) := by
  have ⟨hsome,hdeclared,hnone⟩ := @dropFulltextIndex_eq s.store label property hlabel hproperty
  have hcurrent := @FtsTables.currentExists_iff s h.tables label property hlabel
  have hlegacy := h.tables.legacyExists_iff label property
  cases hexpected : expected s.declared (.drop label property) with
  | true =>
    have ⟨d,hd,hsingle⟩ := List.any_eq_true.mp hexpected
    have hshape : ∃ k,d=.single label property k := by
      cases d with
      | single other more k =>
        have hparts : other=label ∧ more=property := by simpa [FtsDeclaration.isSingleOn] using hsingle
        exact ⟨k,by rw [hparts.1,hparts.2]⟩
      | multi other properties n => cases hsingle
    have ⟨k,hk⟩ := hshape
    rw [hk] at hd
    have hexists := hcurrent.mpr ⟨property,k,hd,"",List.mem_cons_self,String.append_empty.symm⟩
    have ⟨htables,hothers⟩ := h.tables.dropped hd
    have hread : ∀ d∈declaredBy s.declared (.drop label property),d.readKind=d.kind :=
      fun d hd => h.readable d (List.mem_of_mem_filter hd)
    have hclean : FtsClean engine s (.drop label property) := by
      intro hfails
      cases hexpected.symm.trans hfails
    refine FtsInv.accepted hexpected (hdeclared hexists) htables (fun e he hkept => ?_) (iff_of_true hread hclean)
    exact hothers e he (by simpa using (List.mem_filter.mp hkept).2)
  | false =>
    have hclean : FtsClean engine s (.drop label property) ↔
        (tableExists s.store (singleTableName label property) ||
          tableExists s.store (legacyTableName label property))=false := by
      rw [Bool.or_eq_false_iff,←Bool.not_eq_true,←Bool.not_eq_true,hcurrent,hlegacy]
      constructor
      · intro hclean
        have ⟨hshadow,hmulti⟩ := hclean hexpected
        constructor
        · intro hin
          have ⟨more,k,hd,ending,hending,heq⟩ := hin
          rcases List.mem_cons.mp hending with hempty|hmem
          · rw [hempty,String.append_empty] at heq
            have hfound : expected s.declared (.drop label property)=true :=
              List.any_eq_true.mpr ⟨_,hd,by simp [FtsDeclaration.isSingleOn,heq]⟩
            cases hexpected.symm.trans hfound
          · exact hshadow more k hd ending hmem heq
        · intro hin
          have ⟨other,properties,n,hd,hclash⟩ := hin
          exact hmulti other properties n hd hclash
      · intro hnames _
        refine ⟨fun more k hd ending hending heq => hnames.1 ?_,fun other properties n hd hclash => hnames.2 ?_⟩
        · exact ⟨more,k,hd,ending,List.mem_cons_of_mem _ hending,heq⟩
        · exact ⟨other,properties,n,hd,hclash⟩
    cases hexists : tableExists s.store (singleTableName label property) ||
        tableExists s.store (legacyTableName label property) with
    | true =>
      have hunclean : ¬FtsClean engine s (.drop label property) := by
        rw [hclean,hexists]
        simp
      refine stepExact_of_broken ?_ hunclean
      have hok : (runFtsStep engine s.store (.drop label property)).1=.ok () := hsome hexists
      rw [hok,hexpected]
      simp
    | false =>
      have ⟨e,herror⟩ := hnone hexists
      exact h.refused hexpected herror (hclean.mpr hexists)

/-- An operation meets the contract exactly when it is clean, and clean operations keep the
invariant. -/
theorem FtsInv.step_iff (h : FtsInv s) (hnames : FtsNamesPass step) :
    (FtsStepMeets engine s step ↔ FtsClean engine s step) ∧
      (FtsClean engine s step → FtsInv (applyFtsStep engine s step)) := by
  cases step with
  | createSingle label property kind => exact h.createSingle_step hnames.1 hnames.2
  | createMulti label properties => exact h.createMulti_step hnames.1 hnames.2
  | drop label property => exact h.drop_step hnames.1 hnames.2

end Steps

theorem ftsInv_of_free {st : Store} (h : FtsFree st) : FtsInv ⟨st,[]⟩ := by
  refine ⟨⟨?_,List.nodup_nil,?_,?_,?_,?_,?_,h.indexNames⟩,?_⟩
  · exact fun d hd => absurd hd List.not_mem_nil
  · exact fun d hd => absurd hd List.not_mem_nil
  · exact fun d hd => absurd hd List.not_mem_nil
  · intro name hname
    rw [h.noTable] at hname
    exact absurd hname List.not_mem_nil
  · exact fun d hd => absurd hd List.not_mem_nil
  · intro label n
    have hcount : multiCount [] label=0 := rfl
    rw [hcount]
    constructor
    · exact fun ⟨properties,hin⟩ => absurd hin List.not_mem_nil
    · intro hrange
      omega
  · exact fun d hd => absurd hd List.not_mem_nil

/-- From a database without full-text indexes every operation of a run meets the contract
exactly when every operation is clean. -/
theorem fulltext_catalogue_iff (engine : FtsEngine) {st : Store} (hfree : FtsFree st) {steps : List FtsStep}
    (hnames : ∀ step∈steps,FtsNamesPass step) :
    (FtsListsExact ⟨st,[]⟩ ∧ Guarded (applyFtsStep engine) (FtsStepMeets engine) ⟨st,[]⟩ steps) ↔
      Guarded (applyFtsStep engine) (FtsClean engine) ⟨st,[]⟩ steps := by
  have hstart := ftsInv_of_free hfree
  have hsame : Guarded (applyFtsStep engine) (FtsStepMeets engine) ⟨st,[]⟩ steps ↔
      Guarded (applyFtsStep engine) (FtsClean engine) ⟨st,[]⟩ steps :=
    guarded_congr_on (p:=FtsNamesPass) (I:=FtsInv) (fun _ _ hstep h hclean => (h.step_iff hstep).2 hclean)
      (fun _ _ hstep h => (h.step_iff hstep).1) hnames hstart
  rw [hsame]
  exact ⟨fun hboth => hboth.2,fun hclean => ⟨hstart.tables.listsExact_iff.mpr hstart.readable,hclean⟩⟩

theorem ftsFree_freshStore : FtsFree freshStore := ⟨rfl,fun _ hname => absurd hname List.not_mem_nil⟩

/-- A module that accepts every declaration. -/
def acceptingEngine : FtsEngine := ⟨fun _ _ => true,.refuse⟩

/-- A single-property index and a multi-property index of one label; the first is dropped. -/
def documentIndexes : List FtsStep :=
  [.createSingle "Doc" "title" .trigramCaseSensitive,.createMulti "Doc" ["body","tags"],.drop "Doc" "title"]

/-- The catalogue is exact in this run. -/
theorem fulltext_catalogue_documents : FtsListsExact ⟨freshStore,[]⟩ ∧
    Guarded (applyFtsStep acceptingEngine) (FtsStepMeets acceptingEngine) ⟨freshStore,[]⟩ documentIndexes := by
  have hlabel : isValidName "Doc"=true := by decide
  have htitle : isValidName "title"=true := by decide
  have hnames : ∀ step∈documentIndexes,FtsNamesPass step := by
    intro step hstep
    rcases List.mem_cons.mp hstep with heq|hstep
    · rw [heq]
      exact ⟨hlabel,htitle⟩
    · rcases List.mem_cons.mp hstep with heq|hstep
      · rw [heq]
        refine ⟨hlabel,?_⟩
        decide
      · rw [List.mem_singleton.mp hstep]
        exact ⟨hlabel,htitle⟩
  have hnone : ¬NamesWordTokenizer "Doc" "title" := by
    unfold NamesWordTokenizer
    decide
  have hclean : Guarded (applyFtsStep acceptingEngine) (FtsClean acceptingEngine) ⟨freshStore,[]⟩ documentIndexes := by
    refine ⟨fun _ => ⟨?_,?_,Or.inr hnone,rfl⟩,fun _ => ⟨?_,by decide,rfl⟩,fun hfails => ?_,trivial⟩
    · exact fun _ _ _ hd => absurd hd List.not_mem_nil
    · exact fun _ _ _ hd => absurd hd List.not_mem_nil
    · intro other more n hd
      exact absurd (List.mem_singleton.mp hd) (by simp)
    · exact absurd hfails (by decide)
  exact (fulltext_catalogue_iff acceptingEngine ftsFree_freshStore hnames).mpr hclean

/-- An index on a property that ends like a shadow table of the first. -/
def shadowName : List FtsStep :=
  [.createSingle "Doc" "name" .trigramCaseSensitive,.createSingle "Doc" "name_data" .trigramCaseSensitive]

/-- The second index is not declared, but its creation fails. -/
theorem fulltext_catalogue_shadow_fails :
    ¬Guarded (applyFtsStep acceptingEngine) (FtsStepMeets acceptingEngine) ⟨freshStore,[]⟩ shadowName := by
  intro hmeets
  have hlabel : isValidName "Doc"=true := by decide
  have hname : isValidName "name"=true := by decide
  have hmore : isValidName "name_data"=true := by decide
  have hfirst := @FtsInv.step_iff acceptingEngine ⟨freshStore,[]⟩ (.createSingle "Doc" "name" .trigramCaseSensitive)
    (ftsInv_of_free ftsFree_freshStore) ⟨hlabel,hname⟩
  have hinv := hfirst.2 (hfirst.1.mp hmeets.1)
  have hsecond := @FtsInv.step_iff acceptingEngine _ (.createSingle "Doc" "name_data" .trigramCaseSensitive) hinv
    ⟨hlabel,hmore⟩
  have hclean := hsecond.1.mp hmeets.2.1
  have hsingle := (hclean (by decide)).1 "Doc" "name" .trigramCaseSensitive List.mem_cons_self
  refine hsingle ⟨rfl,Or.inr ⟨"_data",List.mem_cons_self,Or.inl ?_⟩⟩
  decide +kernel

end GraphDbLite.FullTextCatalogue
