import GraphDbLite.IndexMirror

/-!
# The index catalogue

Indexes are declared only by the names of their tables. The database compares table names
up to the case of letters when a table is created, the library compares them exactly. The
catalogue is exact in every run that never declares an index under a name that differs from
a declared one in letter case only.
-/

namespace GraphDbLite.IndexCatalogue

open ByteStrings GraphTypes OrderedTable StatefulActions GraphStore LikePattern SecondaryIndex
open WriteOperators IndexMirror

/-- LIKE with an escape character, which takes the next pattern character literally. -/
def likeMatchEscape (escape : Char) : List Char → List Char → Bool
  | [],text => text.isEmpty
  | p::pattern,text =>
    if p=escape then
      match pattern,text with
      | q::pattern,c::text => q.toLower=c.toLower && likeMatchEscape escape pattern text
      | _,_ => false
    else if p = '%' then text.tails.any fun rest => likeMatchEscape escape pattern rest
    else
      match text with
      | [] => false
      | c::text => (p = '_' || p.toLower=c.toLower) && likeMatchEscape escape pattern text

/-- Names that the listing of all indexes selects. -/
def isIndexTable (name : String) : Bool :=
  likeMatchEscape '\\' "node_idx\\_%".toList name.toList || likeMatch "node_idx$%".toList name.toList

/-- Label and properties in the name of an index table; a name with underscores is split
at the first one. -/
def parseIndexTableName (name : String) : Option IndexInfo :=
  match stripPrefix "node_idx$" name with
  | some rest =>
    match splitOnChar '$' rest with
    | label::property::more => some ⟨label,property::more⟩
    | _ => none
  | none =>
    match stripPrefix "node_idx_" name with
    | some rest => (cutFirst '_' rest).map fun parts => ⟨parts.1,[parts.2]⟩
    | none => none

/-- All indexes, read off the table names. -/
def listAllIndexes (st : Store) : List IndexInfo :=
  ((tableNames st).filter isIndexTable).filterMap parseIndexTableName

/-- Names of the full-text tables and of the tables beside them. -/
def ftsTableNames (st : Store) : List String :=
  st.ftsTables.rows.flatMap fun row => row.1::row.2.shadows.map (row.1++·)

/-- The table that SQLite finds under a name. -/
def sqliteTable (st : Store) (name : String) : Option String :=
  (tableNames st).find? fun other => other.toLower=name.toLower

section Letters

theorem toLower_toList (text : String) : text.toLower.toList=text.toList.map Char.toLower := by
  have hmap : text.toLower=text.map Char.toLower := rfl
  rw [hmap,String.toList_map]

theorem toLower_append (front back : String) : (front++back).toLower=front.toLower++back.toLower := by
  apply String.toList_inj.mp
  simp [toLower_toList]

theorem eq_dollar_of_toLower {c : Char} (h : c.toLower = '$') : c = '$' := by
  unfold Char.toLower at h
  split_ifs at h with hupper
  · exfalso
    have hval : c.val+32=36 := congrArg Char.val h
    have hlow : 65 ≤ c.val := hupper.1
    have hhigh : c.val ≤ 90 := hupper.2
    have hnat : (c.val+32).toNat=36 := congrArg UInt32.toNat hval
    have hlow' : 65 ≤ c.val.toNat := UInt32.le_iff_toNat_le.mp hlow
    have hhigh' : c.val.toNat ≤ 90 := UInt32.le_iff_toNat_le.mp hhigh
    rw [UInt32.toNat_add] at hnat
    have hsmall : (32 : UInt32).toNat=32 := rfl
    omega
  · exact h

theorem dollar_notMem_toLower {name : String} (h : isValidName name=true) : '$'∉name.toLower.toList := by
  intro hmem
  rw [toLower_toList] at hmem
  have ⟨c,hc,hlower⟩ := List.mem_map.mp hmem
  rw [eq_dollar_of_toLower hlower] at hc
  exact dollar_notMem h hc

end Letters

/-- Label and properties of an index declaration. -/
abbrev Declaration := String×List String

/-- The table of a declaration. -/
def tableOf (d : Declaration) : String := indexTableName d.1 d.2

/-- Two declarations that agree up to the case of letters. -/
def SameLetters (d e : Declaration) : Prop :=
  d.1.toLower=e.1.toLower ∧ d.2.map String.toLower=e.2.map String.toLower

/-- The checks of a declaration. -/
def Checked (d : Declaration) : Prop := IndexDef d.1 d.2

section Names

variable {d e : Declaration}

theorem intercalate_cons (sep first : String) {rest : List String} (hrest : rest≠[]) :
    String.intercalate sep (first::rest)=first++(sep++String.intercalate sep rest) := by
  cases rest with
  | nil => exact absurd rfl hrest
  | cons second rest =>
    apply String.toList_inj.mp
    simp [String.toList_intercalate,List.intercalate]

theorem tableOf_toLower (d : Declaration) :
    (tableOf d).toLower="node_idx$"++(d.1.toLower++("$"++
      String.intercalate (String.ofList ['$']) (d.2.map String.toLower))) := by
  have hlower : ∀ text small : String,text.toList.map Char.toLower=small.toList → text.toLower=small :=
    fun text small h => String.toList_inj.mp ((toLower_toList text).trans h)
  have hfront : "node_idx$".toLower="node_idx$" := hlower _ _ rfl
  have hdollar : "$".toLower="$" := hlower _ _ rfl
  have hsep : (String.ofList ['$']).toLower=String.ofList ['$'] := hlower _ _ rfl
  have hjoin : ∀ parts : List String,(String.intercalate (String.ofList ['$']) parts).toLower=
      String.intercalate (String.ofList ['$']) (parts.map String.toLower) := by
    intro parts
    induction parts with
    | nil => exact hlower _ _ rfl
    | cons first rest ih =>
      cases rest with
      | nil => simp [String.intercalate_singleton]
      | cons second rest =>
        rw [List.map_cons,intercalate_cons _ _ (List.cons_ne_nil _ _),toLower_append,toLower_append,ih,hsep,
          intercalate_cons _ _ (by simp)]
  rw [tableOf,indexTableName,toLower_append,toLower_append,toLower_append,hjoin,hfront,hdollar]

theorem tableOf_front (d : Declaration) : ∃ rest,(tableOf d).toLower="node_idx"++rest := by
  have hsplit : "node_idx$"="node_idx"++"$" := rfl
  rw [tableOf_toLower,hsplit,String.append_assoc]
  exact ⟨_,rfl⟩

theorem tableOf_toLower_iff (hd : Checked d) (he : Checked e) :
    (tableOf d).toLower=(tableOf e).toLower ↔ SameLetters d e := by
  have hread : ∀ x : Declaration,Checked x →
      splitOnChar '$' (x.1.toLower++("$"++String.intercalate (String.ofList ['$']) (x.2.map String.toLower)))=
        x.1.toLower::x.2.map String.toLower := by
    intro x hx
    have hparts : ∀ part∈x.1.toLower::x.2.map String.toLower,'$'∉part.toList := by
      intro part hpart
      rcases List.mem_cons.mp hpart with hlabel|hprops
      · rw [hlabel]
        exact dollar_notMem_toLower hx.label
      · have ⟨p,hp,hlower⟩ := List.mem_map.mp hprops
        rw [←hlower]
        exact dollar_notMem_toLower (hx.names p hp)
    have hsplit := splitOnChar_intercalate (List.cons_ne_nil _ _) hparts
    have hne : x.2.map String.toLower≠[] := by simpa using hx.nonempty
    have hjoin : String.intercalate (String.ofList ['$']) (x.1.toLower::x.2.map String.toLower)=
        x.1.toLower++("$"++String.intercalate (String.ofList ['$']) (x.2.map String.toLower)) :=
      intercalate_cons _ _ hne
    rw [←hjoin]
    exact hsplit
  rw [tableOf_toLower,tableOf_toLower]
  constructor
  · intro h
    have hrest := String.append_right_inj _ |>.mp h
    have hlists := congrArg (splitOnChar '$') hrest
    rw [hread d hd,hread e he] at hlists
    exact List.cons.inj hlists
  · intro h
    rw [h.1,h.2]

theorem tableOf_inj (hd : Checked d) (he : Checked e) : tableOf d=tableOf e ↔ d=e := by
  constructor
  · intro h
    have hparts := indexTableName_inj hd he h
    exact Prod.ext hparts.1 hparts.2
  · intro h
    rw [h]

theorem parseIndexTableName_tableOf (hd : Checked d) : parseIndexTableName (tableOf d)=some ⟨d.1,d.2⟩ := by
  have hparts : ∀ part∈d.1::d.2,'$'∉part.toList := by
    intro part hpart
    rcases List.mem_cons.mp hpart with hlabel|hprops
    · rw [hlabel]
      exact dollar_notMem hd.label
    · exact dollar_notMem (hd.names part hprops)
  have hsplit := splitOnChar_intercalate (List.cons_ne_nil _ _) hparts
  have hne : d.2≠[] := hd.nonempty
  have ⟨label,properties⟩ := d
  cases properties with
  | nil => exact absurd rfl hne
  | cons p rest =>
    have hjoin : String.intercalate (String.ofList ['$']) (label::p::rest)=
        label++("$"++String.intercalate (String.ofList ['$']) (p::rest)) :=
      intercalate_cons _ _ (List.cons_ne_nil _ _)
    have hname : parseIndexTableName (tableOf (label,p::rest))=
        parseIndexTableName ("node_idx$"++(label++("$"++String.intercalate (String.ofList ['$']) (p::rest)))) := rfl
    rw [hname,parseIndexTableName,stripPrefix_append]
    dsimp only
    rw [←hjoin,hsplit]

theorem isIndexTable_tableOf (d : Declaration) : isIndexTable (tableOf d)=true := by
  have htext : (tableOf d).toList="node_idx$".toList++
      (d.1++("$"++String.intercalate (String.ofList ['$']) d.2)).toList := by
    rw [tableOf,indexTableName,String.toList_append]
  have hpattern : "node_idx$%".toList="node_idx$".toList++['%'] := rfl
  rw [isIndexTable,htext,hpattern,likeMatch_append (likeMatch_self _) (likeMatch_any _),Bool.or_true]

end Names

/-- A database without indexes; full-text tables have names of their own. -/
structure IndexFree (st : Store) : Prop where
  /-- There is no index table. -/
  noIndex : st.indexTables=empty
  /-- Full-text tables are named by their own scheme. -/
  ftsNames : ∀ name∈ftsTableNames st,∃ rest,name="node_fts"++rest

/-- An operation on the catalogue. -/
inductive CatalogueStep where
  | create (d : Declaration)
  | drop (d : Declaration)

/-- The declaration an operation is about. -/
def CatalogueStep.declaration : CatalogueStep → Declaration
  | .create d => d
  | .drop d => d

/-- A database and what is declared in it. -/
structure CatalogueState where
  /-- The tables. -/
  store : Store
  /-- The declared indexes. -/
  declared : List Declaration

/-- The declarations after an operation. -/
def declaredAfter (declared : List Declaration) : CatalogueStep → List Declaration
  | .create d => d::declared
  | .drop d => declared.filter fun e => e≠d

/-- What an operation should succeed on. -/
def Expected (declared : List Declaration) : CatalogueStep → Prop
  | .create d => d∉declared
  | .drop d => d∈declared

/-- Both listings give exactly the declarations, each once. -/
structure ListsExact (s : CatalogueState) : Prop where
  /-- The indexes of a label. -/
  forLabel : ∀ label info,info∈listIndexesForLabel s.store label ↔
    info.label=label ∧ (label,info.properties)∈s.declared
  /-- No index of a label is listed twice. -/
  forLabelOnce : ∀ label,(listIndexesForLabel s.store label).Nodup
  /-- All indexes. -/
  all : ∀ info,info∈listAllIndexes s.store ↔ (info.label,info.properties)∈s.declared
  /-- No index is listed twice. -/
  allOnce : (listAllIndexes s.store).Nodup

/-- A creation names a list of properties without repetition and no index that differs
from a declared one in letter case only. -/
def CleanStep (s : CatalogueState) : CatalogueStep → Prop
  | .create d => d.2≠[] ∧ d.2.Nodup ∧ ∀ e∈s.declared,SameLetters e d → e=d
  | .drop _ => True

/-- Label and properties are names the library accepts. -/
def NamesPass (d : Declaration) : Prop := isValidName d.1=true ∧ ∀ p∈d.2,isValidName p=true

/-- The tables are exactly those of the declarations. -/
structure CatalogueInv (s : CatalogueState) : Prop where
  /-- Declarations passed the checks. -/
  checked : ∀ d∈s.declared,Checked d
  /-- No two differ in letter case only. -/
  distinct : ∀ d∈s.declared,∀ e∈s.declared,SameLetters d e → d=e
  /-- There is a table for each. -/
  tables : ∀ name,name∈keys s.store.indexTables ↔ ∃ d∈s.declared,name=tableOf d
  /-- Full-text tables are named by their own scheme. -/
  ftsNames : ∀ name∈ftsTableNames s.store,∃ rest,name="node_fts"++rest

section Tables

variable {s : CatalogueState} (h : CatalogueInv s)
variable {name : String} {d : Declaration}

theorem mem_tableNames {st : Store} :
    name∈tableNames st ↔ name∈baseTableNames ∨ name∈keys st.indexTables ∨ name∈ftsTableNames st := by
  rw [tableNames,List.mem_append,List.mem_append,ftsTableNames]

/-- Base tables and the tables of another front start differently, also in small letters. -/
theorem front_ne {front other : String} (hfront : front.toList.length=8) (hother : other.toList.length=8)
    (hbases : ∀ base∈baseTableNames,(base.toList.map Char.toLower).take 8≠front.toList)
    (hne : other.toList.map Char.toLower≠front.toList)
    (hname : name∈baseTableNames ∨ ∃ rest,name=other++rest) (rest : String) : name.toLower≠front++rest := by
  intro hsame
  have htext := congrArg (fun text : String => text.toList.take 8) hsame
  simp only [toLower_toList,String.toList_append] at htext
  rw [List.take_left' hfront] at htext
  rcases hname with hbase|⟨back,hback⟩
  · exact hbases name hbase htext
  · have hlength : (other.toList.map Char.toLower).length=8 := (List.length_map _).trans hother
    rw [hback,String.toList_append,List.map_append,List.take_left' hlength] at htext
    exact hne htext

theorem other_ne (hname : name∈baseTableNames ∨ ∃ rest,name="node_fts"++rest) (rest : String) :
    name.toLower≠"node_idx"++rest :=
  front_ne rfl rfl (by decide) (by decide) hname rest

include h

theorem CatalogueInv.mem_tables :
    name∈tableNames s.store → (∃ d∈s.declared,name=tableOf d) ∨
      name∈baseTableNames ∨ ∃ rest,name="node_fts"++rest := by
  intro hname
  rcases mem_tableNames.mp hname with hbase|hindex|hfts
  · exact Or.inr (Or.inl hbase)
  · exact Or.inl ((h.tables name).mp hindex)
  · exact Or.inr (Or.inr (h.ftsNames name hfts))

theorem CatalogueInv.table_mem (hd : d∈s.declared) : tableOf d∈keys s.store.indexTables :=
  (h.tables _).mpr ⟨d,hd,rfl⟩

theorem CatalogueInv.wellNamed : WellNamed s.store := by
  intro name hname
  have ⟨d,hd,heq⟩ := (h.tables name).mp hname
  exact ⟨d.1,d.2,h.checked d hd,heq⟩

/-- A table of a name up to letter case exists exactly when such an index is declared. -/
theorem CatalogueInv.nameTaken_iff (hd : Checked d) :
    nameTaken s.store (tableOf d)=true ↔ ∃ e∈s.declared,SameLetters e d := by
  unfold nameTaken
  rw [List.any_eq_true]
  constructor
  · intro htaken
    have ⟨name,hname,hsame⟩ := htaken
    have hlower : name.toLower=(tableOf d).toLower := of_decide_eq_true hsame
    rcases h.mem_tables hname with ⟨e,he,heq⟩|hother
    · rw [heq,tableOf_toLower_iff (h.checked e he) hd] at hlower
      exact ⟨e,he,hlower⟩
    · have ⟨rest,hfront⟩ := tableOf_front d
      exact absurd (hlower.trans hfront) (other_ne hother rest)
  · intro hdeclared
    have ⟨e,he,hsame⟩ := hdeclared
    have hlower := (tableOf_toLower_iff (h.checked e he) hd).mpr hsame
    exact ⟨tableOf e,mem_tableNames.mpr (Or.inr (Or.inl (h.table_mem he))),decide_eq_true hlower⟩

theorem CatalogueInv.tableExists_iff (hd : Checked d) : tableExists s.store (tableOf d)=true ↔ d∈s.declared := by
  rw [tableExists,decide_eq_true_eq]
  constructor
  · intro hname
    rcases h.mem_tables hname with ⟨e,he,heq⟩|hother
    · rw [(tableOf_inj hd (h.checked e he)).mp heq]
      exact he
    · have ⟨rest,hfront⟩ := tableOf_front d
      exact absurd hfront (other_ne hother rest)
  · intro hdeclared
    exact mem_tableNames.mpr (Or.inr (Or.inl (h.table_mem hdeclared)))

theorem CatalogueInv.no_legacy (label property : String) :
    tableExists s.store ("node_idx_"++(label++("_"++property)))=false := by
  rw [tableExists,decide_eq_false_iff_not]
  intro hname
  rcases h.mem_tables hname with ⟨e,he,heq⟩|hother
  · have hnone := stripPrefix_legacy e.1 e.2 ""
    have hstrip : stripPrefix "node_idx_" ("node_idx_"++(label++("_"++property)))=
        some (label++("_"++property)) := stripPrefix_append _ _
    rw [heq] at hstrip
    cases hnone.symm.trans hstrip
  · have hfront : "node_idx_".toLower="node_idx"++"_" := String.toList_inj.mp (toLower_toList _)
    have hlower : ("node_idx_"++(label++("_"++property))).toLower=
        "node_idx"++("_"++(label++("_"++property)).toLower) := by
      rw [toLower_append,hfront,String.append_assoc]
    exact other_ne hother _ hlower

end Tables

section Operations

variable (enc : Value → Bytes)

/-- Run an operation on the catalogue. -/
def runStep (st : Store) : CatalogueStep → Except GraphError Unit×Store
  | .create d => createCompositeIndex enc d.1 d.2 st
  | .drop d => dropCompositeIndex d.1 d.2 st

/-- The database and the declarations after an operation, successful or not. -/
def applyStep (s : CatalogueState) (step : CatalogueStep) : CatalogueState :=
  ⟨(runStep enc s.store step).2,declaredAfter s.declared step⟩

/-- An operation succeeds when it should, touches no other index and leaves exact
listings. -/
structure StepMeets (s : CatalogueState) (step : CatalogueStep) : Prop where
  /-- It succeeds exactly when it should. -/
  outcome : (runStep enc s.store step).1=.ok () ↔ Expected s.declared step
  /-- Other indexes keep their contents. -/
  others : ∀ d,d≠step.declaration → Checked d →
    get (runStep enc s.store step).2.indexTables (tableOf d)=get s.store.indexTables (tableOf d)
  /-- The listings are exact afterwards. -/
  lists : ListsExact (applyStep enc s step)

variable {enc} {s : CatalogueState}

theorem legacyName_of_def {label property : String} {properties : List String}
    (hdef : IndexDef label properties) (hsingle : properties=[property]) :
    legacySingleIndexTableName label property=.ok ("node_idx_"++(label++("_"++property))) := by
  have hproperty : isValidName property=true := by
    apply hdef.names
    rw [hsingle]
    exact List.mem_singleton_self _
  rw [legacySingleIndexTableName,validateName_ok_iff.mpr hdef.label,validateName_ok_iff.mpr hproperty]
  rfl

/-- A creation is accepted exactly when the definition is checked and no index of the same
name up to letter case is declared. -/
theorem CatalogueInv.creates_iff (h : CatalogueInv s) (d : Declaration) :
    Creates s.store d.1 d.2 ↔ Checked d ∧ ∀ e∈s.declared,¬SameLetters e d := by
  constructor
  · intro hcreates
    have ⟨hdef,_,hfree⟩ := hcreates
    refine ⟨hdef,fun e he hsame => ?_⟩
    have htaken := (h.nameTaken_iff hdef).mpr ⟨e,he,hsame⟩
    cases htaken.symm.trans hfree
  · intro hfree
    have ⟨hdef,hnone⟩ := hfree
    have hfresh : nameTaken s.store (tableOf d)=false := by
      rw [←Bool.not_eq_true,h.nameTaken_iff hdef]
      intro htaken
      have ⟨e,he,hsame⟩ := htaken
      exact hnone e he hsame
    have habsent : ¬tableExists s.store (tableOf d)=true := by
      rw [h.tableExists_iff hdef]
      exact fun hd => hnone d hd ⟨rfl,rfl⟩
    refine ⟨hdef,?_,hfresh⟩
    change indexTableTaken s.store (tableOf d) d.1 d.2=_
    unfold indexTableTaken
    rw [if_neg habsent]
    split
    · next property hsingle =>
      rw [legacyName_of_def hdef hsingle]
      dsimp only [bind,Except.bind,pure,Except.pure]
      rw [h.no_legacy]
    · rfl

theorem CatalogueInv.drop_declared (h : CatalogueInv s) {d : Declaration} (hd : d∈s.declared) :
    dropCompositeIndex d.1 d.2 s.store=(.ok (),dropTable s.store (tableOf d)) := by
  have hdef := h.checked d hd
  have hresolve : resolveIndexTable s.store d.1 d.2=.ok (tableOf d) :=
    resolveIndexTable_ok hdef (h.table_mem hd)
  unfold dropCompositeIndex
  rw [inspect_ok (by exact hresolve),inspect_ok (by rfl)]
  rw [if_pos ((h.tableExists_iff hdef).mpr hd)]
  rfl

theorem CatalogueInv.drop_undeclared (h : CatalogueInv s) {d : Declaration} (hd : d∉s.declared) :
    ∃ e,dropCompositeIndex d.1 d.2 s.store=(.error e,s.store) := by
  unfold dropCompositeIndex
  cases hname : compositeIndexTableName d.1 d.2 with
  | error e =>
    have hresolve : resolveIndexTable s.store d.1 d.2=.error e := by
      rw [resolveIndexTable,hname]
      rfl
    exact ⟨e,by rw [inspect_error (by exact hresolve)]⟩
  | ok table =>
    have ⟨hdef,htable⟩ := compositeIndexTableName_ok_iff.mp hname
    have habsent : ¬tableExists s.store (tableOf d)=true := by
      rw [h.tableExists_iff hdef]
      exact hd
    have hresolve : resolveIndexTable s.store d.1 d.2=.ok (tableOf d) := by
      rw [resolveIndexTable,hname,htable]
      change (if tableExists s.store (tableOf d)=true then _ else _)=_
      rw [if_neg habsent]
      split
      · next property hsingle =>
        rw [legacyName_of_def hdef hsingle]
        dsimp only [bind,Except.bind]
        rw [if_neg (by rw [h.no_legacy]; simp)]
        rfl
      · rfl
    rw [inspect_ok (by exact hresolve),inspect_ok (by rfl),if_neg habsent]
    exact ⟨_,rfl⟩

theorem CatalogueInv.listsExact (h : CatalogueInv s) : ListsExact s := by
  have hread : ∀ name∈keys s.store.indexTables,∃ d∈s.declared,name=tableOf d ∧
      parseIndexTableName name=some ⟨d.1,d.2⟩ := by
    intro name hname
    have ⟨d,hd,heq⟩ := (h.tables name).mp hname
    exact ⟨d,hd,heq,by rw [heq,parseIndexTableName_tableOf (h.checked d hd)]⟩
  have hothers : ∀ names : List String,(∀ name∈names,name∈baseTableNames ∨ ∃ rest,name="node_fts"++rest) →
      (names.filter isIndexTable).filterMap parseIndexTableName=[] := by
    intro names hnames
    rw [List.filterMap_eq_nil_iff]
    intro name hname
    have hfront : ∀ back rest,stripPrefix ("node_idx"++back) name≠some rest := by
      intro back rest hstrip
      have htext := stripPrefix_eq_some.mp hstrip
      have hlower : name.toLower="node_idx"++(back++rest).toLower := by
        have hsmall : "node_idx".toLower="node_idx" := String.toList_inj.mp (toLower_toList _)
        rw [htext,String.append_assoc,toLower_append,hsmall]
      exact other_ne (hnames name (List.mem_of_mem_filter hname)) _ hlower
    have hnew : stripPrefix "node_idx$" name=none := Option.eq_none_iff_forall_ne_some.mpr (hfront "$")
    have hold : stripPrefix "node_idx_" name=none := Option.eq_none_iff_forall_ne_some.mpr (hfront "_")
    rw [parseIndexTableName,hnew,hold]
  have hall : listAllIndexes s.store=(keys s.store.indexTables).filterMap parseIndexTableName := by
    have hkeys : (keys s.store.indexTables).filter isIndexTable=keys s.store.indexTables := by
      rw [List.filter_eq_self]
      intro name hname
      have ⟨d,_,heq⟩ := (h.tables name).mp hname
      rw [heq,isIndexTable_tableOf]
    have hbase := hothers baseTableNames fun name hname => Or.inl hname
    have hfts := hothers (ftsTableNames s.store) fun name hname => Or.inr (h.ftsNames name hname)
    unfold ftsTableNames at hfts
    rw [listAllIndexes,tableNames,List.filter_append,List.filter_append,List.filterMap_append,
      List.filterMap_append,hbase,hfts,hkeys,List.nil_append,List.append_nil]
  refine ⟨fun label info => ?_,fun label => ?_,fun info => ?_,?_⟩
  · rw [mem_listIndexesForLabel h.wellNamed]
    constructor
    · intro hlisted
      have ⟨hlabel,hdef,hkey⟩ := hlisted
      have ⟨d,hd,heq⟩ := (h.tables _).mp hkey
      have hsame : (label,info.properties)=d := (tableOf_inj (d:=(label,info.properties)) hdef (h.checked d hd)).mp heq
      exact ⟨hlabel,hsame ▸ hd⟩
    · intro hdeclared
      exact ⟨hdeclared.1,h.checked _ hdeclared.2,h.table_mem hdeclared.2⟩
  · unfold listIndexesForLabel
    split_ifs with hlabel
    · refine List.pairwise_filterMap.mpr (List.Pairwise.imp_of_mem ?_ ((keys_nodup s.store.indexTables).filter _))
      intro name other hname hother hne info hinfo more hmore hsame
      have ⟨d,hd,heq⟩ := (h.tables name).mp (List.mem_of_mem_filter hname)
      have ⟨e,he,heq'⟩ := (h.tables other).mp (List.mem_of_mem_filter hother)
      have hcomposite : ∀ x∈s.declared,
          parseCompositeTableName (tableOf x) label=if label=x.1 then some x.2 else none := fun x hx =>
        parseCompositeTableName_indexTableName (h.checked x hx) hlabel
      have hlegacy : ∀ x : Declaration,stripPrefix ("node_idx_"++(label++"_")) (tableOf x)=none :=
        fun x => stripPrefix_legacy _ _ _
      rw [heq,hcomposite d hd,hlegacy d] at hinfo
      rw [heq',hcomposite e he,hlegacy e] at hmore
      by_cases hl : label=d.1
      · by_cases hl' : label=e.1
        · rw [if_pos hl] at hinfo
          rw [if_pos hl'] at hmore
          have hleft : (⟨label,d.2⟩ : IndexInfo)=info := Option.some.inj hinfo
          have hright : (⟨label,e.2⟩ : IndexInfo)=more := Option.some.inj hmore
          rw [←hleft,←hright] at hsame
          have hparts : d=e := Prod.ext (hl.symm.trans hl') (congrArg IndexInfo.properties hsame)
          exact hne (by rw [heq,heq',hparts])
        · rw [if_neg hl'] at hmore
          exact nomatch hmore
      · rw [if_neg hl] at hinfo
        exact nomatch hinfo
    · exact List.nodup_nil
  · rw [hall,List.mem_filterMap]
    constructor
    · intro hlisted
      have ⟨name,hname,hparse⟩ := hlisted
      have ⟨d,hd,_,hfound⟩ := hread name hname
      rw [hfound] at hparse
      rw [←Option.some.inj hparse]
      exact hd
    · intro hdeclared
      exact ⟨_,h.table_mem hdeclared,parseIndexTableName_tableOf (h.checked _ hdeclared)⟩
  · rw [hall]
    refine List.pairwise_filterMap.mpr (List.Pairwise.imp_of_mem ?_ (keys_nodup s.store.indexTables))
    intro name other hname hother hne info hinfo more hmore hsame
    have ⟨d,hd,heq,hfound⟩ := hread name hname
    have ⟨e,he,heq',hfound'⟩ := hread other hother
    rw [hfound] at hinfo
    rw [hfound'] at hmore
    rw [←Option.some.inj hinfo,←Option.some.inj hmore] at hsame
    have hparts : d=e := Prod.ext (congrArg IndexInfo.label hsame) (congrArg IndexInfo.properties hsame)
    exact hne (by rw [heq,heq',hparts])

theorem CatalogueInv.congr (h : CatalogueInv s) {declared : List Declaration}
    (hsame : ∀ d,d∈declared ↔ d∈s.declared) : CatalogueInv ⟨s.store,declared⟩ where
  checked d hd := h.checked d ((hsame d).mp hd)
  distinct d hd e he := h.distinct d ((hsame d).mp hd) e ((hsame e).mp he)
  tables name := by
    rw [h.tables name]
    simp only [hsame]
  ftsNames := h.ftsNames

theorem CatalogueInv.created (h : CatalogueInv s) {d : Declaration} (hd : Checked d)
    (hnone : ∀ e∈s.declared,¬SameLetters e d) (t : Table Bytes Unit) :
    CatalogueInv ⟨{s.store with indexTables := put s.store.indexTables (tableOf d) t},d::s.declared⟩ where
  checked e he := by
    rcases List.mem_cons.mp he with hnew|hold
    · rw [hnew]
      exact hd
    · exact h.checked e hold
  distinct e he f hf hsame := by
    rcases List.mem_cons.mp he with hnew|hold
    · rcases List.mem_cons.mp hf with hnew'|hold'
      · rw [hnew,hnew']
      · rw [hnew] at hsame
        exact absurd ⟨hsame.1.symm,hsame.2.symm⟩ (hnone f hold')
    · rcases List.mem_cons.mp hf with hnew'|hold'
      · rw [hnew'] at hsame
        exact absurd hsame (hnone e hold)
      · exact h.distinct e hold f hold' hsame
  tables name := by
    rw [mem_keys_put,h.tables name]
    simp only [List.exists_mem_cons_iff]
  ftsNames := h.ftsNames

theorem ftsTableNames_dropTable {st : Store} {table name : String}
    (hname : name∈ftsTableNames (dropTable st table)) : name∈ftsTableNames st := by
  have ⟨row,hrow,hmem⟩ := List.mem_flatMap.mp hname
  have ⟨kept,hkept,heq⟩ := List.mem_map.mp hrow
  have hold : kept∈st.ftsTables.rows := List.mem_of_mem_filter hkept
  refine List.mem_flatMap.mpr ⟨kept,hold,?_⟩
  rw [←heq] at hmem
  rcases List.mem_cons.mp hmem with hself|hshadow
  · rw [hself]
    exact List.mem_cons_self
  · have ⟨suffix,hsuffix,hshape⟩ := List.mem_map.mp hshadow
    rw [←hshape]
    exact List.mem_cons_of_mem _ (List.mem_map_of_mem (List.mem_of_mem_filter hsuffix))

theorem CatalogueInv.dropped (h : CatalogueInv s) {d : Declaration} (hd : d∈s.declared) :
    CatalogueInv ⟨dropTable s.store (tableOf d),s.declared.filter fun e => e≠d⟩ where
  checked e he := h.checked e (List.mem_of_mem_filter he)
  distinct e he f hf := h.distinct e (List.mem_of_mem_filter he) f (List.mem_of_mem_filter hf)
  tables name := by
    have hkeys : name∈keys (dropTable s.store (tableOf d)).indexTables ↔
        name≠tableOf d ∧ name∈keys s.store.indexTables := mem_keys_delete
    rw [hkeys,h.tables name]
    constructor
    · intro hname
      have ⟨hne,e,he,heq⟩ := hname
      refine ⟨e,List.mem_filter.mpr ⟨he,decide_eq_true fun hsame => hne ?_⟩,heq⟩
      rw [heq,hsame]
    · intro hname
      have ⟨e,he,heq⟩ := hname
      have ⟨hdeclared,hne⟩ := List.mem_filter.mp he
      refine ⟨fun hsame => of_decide_eq_true hne ?_,e,hdeclared,heq⟩
      exact (tableOf_inj (h.checked e hdeclared) (h.checked d hd)).mp (heq.symm.trans hsame)
  ftsNames name hname := h.ftsNames name (ftsTableNames_dropTable hname)

/-- A clean operation keeps the invariant, succeeds when it should and touches no other
index. -/
theorem CatalogueInv.step (h : CatalogueInv s) (enc : Value → Bytes) {step : CatalogueStep} (hnames : NamesPass step.declaration)
    (hclean : CleanStep s step) :
    CatalogueInv (applyStep enc s step) ∧
      ((runStep enc s.store step).1=.ok () ↔ Expected s.declared step) ∧
      ∀ d,d≠step.declaration → Checked d →
        get (runStep enc s.store step).2.indexTables (tableOf d)=get s.store.indexTables (tableOf d) := by
  cases step with
  | create d =>
    have ⟨hne,hnodup,honly⟩ := hclean
    by_cases hd : d∈s.declared
    · have hrefused : ¬Creates s.store d.1 d.2 := by
        rw [h.creates_iff]
        exact fun hfree => hfree.2 d hd ⟨rfl,rfl⟩
      obtain ⟨e,herror⟩ : ∃ e,runStep enc s.store (.create d)=(.error e,s.store) :=
        createCompositeIndex_error hrefused
      have hsame : ∀ e,e∈d::s.declared ↔ e∈s.declared := by
        intro e
        rw [List.mem_cons]
        exact ⟨fun he => he.elim (fun heq => heq ▸ hd) id,Or.inr⟩
      have hkept := h.congr hsame
      rw [applyStep,herror]
      exact ⟨hkept,⟨fun hok => absurd hok (by simp),fun hx => absurd hd hx⟩,fun _ _ _ => rfl⟩
    · have hdef : Checked d := ⟨hnames.1,hne,hnames.2,hnodup⟩
      have hnone : ∀ e∈s.declared,¬SameLetters e d := fun e he hsame => hd (honly e he hsame ▸ he)
      have hcreates := (h.creates_iff d).mpr ⟨hdef,hnone⟩
      have ⟨t,hstep⟩ : ∃ t,runStep enc s.store (.create d)=
          (.ok (),{s.store with indexTables := put s.store.indexTables (tableOf d) t}) :=
        (createCompositeIndex_accepted hcreates).imp fun _ ht => ht.1
      rw [applyStep,hstep]
      refine ⟨h.created hdef hnone t,⟨fun _ => hd,fun _ => rfl⟩,fun e he hother => ?_⟩
      have hne : tableOf e≠tableOf d := fun hsame => he ((tableOf_inj hother hdef).mp hsame)
      dsimp only
      rw [get_put,if_neg hne]
  | drop d =>
    by_cases hd : d∈s.declared
    · have hrun : runStep enc s.store (.drop d)=(.ok (),dropTable s.store (tableOf d)) := h.drop_declared hd
      rw [applyStep,hrun]
      refine ⟨h.dropped hd,⟨fun _ => hd,fun _ => rfl⟩,fun e he hother => ?_⟩
      have hne : tableOf e≠tableOf d := fun hsame => he ((tableOf_inj hother (h.checked d hd)).mp hsame)
      exact get_delete_ne hne
    · obtain ⟨e,herror⟩ : ∃ e,runStep enc s.store (.drop d)=(.error e,s.store) := h.drop_undeclared hd
      have hsame : ∀ e,e∈(s.declared.filter fun e => e≠d) ↔ e∈s.declared := by
        intro e
        rw [List.mem_filter,decide_eq_true_eq]
        exact ⟨fun he => he.1,fun he => ⟨he,fun heq => hd (heq ▸ he)⟩⟩
      have hkept := h.congr hsame
      rw [applyStep,herror]
      exact ⟨hkept,⟨fun hok => absurd hok (by simp),fun hx => absurd hx hd⟩,fun _ _ _ => rfl⟩

theorem CatalogueInv.meets_iff (h : CatalogueInv s) {step : CatalogueStep}
    (hnames : NamesPass step.declaration) : StepMeets enc s step ↔ CleanStep s step := by
  constructor
  · intro hmeets
    cases step with
    | drop d => trivial
    | create d =>
      have hdeclared : ¬Creates s.store d.1 d.2 → d∈s.declared := by
        intro hrefused
        obtain ⟨e,herror⟩ : ∃ e,runStep enc s.store (.create d)=(.error e,s.store) :=
          createCompositeIndex_error hrefused
        by_contra hd
        have hok := hmeets.outcome.mpr hd
        rw [herror] at hok
        exact absurd hok (by simp)
      have hdef : Checked d := by
        by_cases hcreates : Creates s.store d.1 d.2
        · exact hcreates.1
        · exact h.checked d (hdeclared hcreates)
      refine ⟨hdef.nonempty,hdef.nodup,fun e he hsame => ?_⟩
      have hrefused : ¬Creates s.store d.1 d.2 := by
        rw [h.creates_iff]
        exact fun hfree => hfree.2 e he hsame
      exact h.distinct e he d (hdeclared hrefused) hsame
  · intro hclean
    have ⟨hafter,houtcome,hothers⟩ := h.step enc hnames hclean
    exact ⟨houtcome,hothers,hafter.listsExact⟩

/-- In a state of the catalogue SQLite finds under the name of an index exactly its table. -/
theorem CatalogueInv.sqliteTable_eq (h : CatalogueInv s) {d : Declaration} (hd : d∈s.declared) :
    sqliteTable s.store (tableOf d)=some (tableOf d) := by
  have hmem : tableOf d∈tableNames s.store := mem_tableNames.mpr (Or.inr (Or.inl (h.table_mem hd)))
  unfold sqliteTable
  cases hfind : (tableNames s.store).find? fun other => other.toLower=(tableOf d).toLower with
  | none =>
    have hnot := List.find?_eq_none.mp hfind _ hmem
    exact absurd (decide_eq_true rfl) hnot
  | some name =>
    have hlower : name.toLower=(tableOf d).toLower := by simpa using List.find?_some hfind
    rcases h.mem_tables (List.mem_of_find?_eq_some hfind) with ⟨e,he,heq⟩|hother
    · rw [heq,tableOf_toLower_iff (h.checked e he) (h.checked d hd)] at hlower
      rw [heq,h.distinct e he d hd hlower]
    · have ⟨rest,hfront⟩ := tableOf_front d
      exact absurd (hlower.trans hfront) (other_ne hother rest)

end Operations

theorem catalogueInv_of_free {st : Store} (h : IndexFree st) : CatalogueInv ⟨st,[]⟩ where
  checked d hd := absurd hd List.not_mem_nil
  distinct d hd := absurd hd List.not_mem_nil
  tables name := by
    rw [h.noIndex]
    exact ⟨fun hname => absurd hname List.not_mem_nil,fun hname => absurd hname (by simp)⟩
  ftsNames := h.ftsNames

/-- From a database without indexes every operation of a run meets the contract exactly
when every creation names distinct properties and no index that differs from a declared
one in letter case only. -/
theorem catalogue_exact_iff (enc : Value → Bytes) {st : Store} (hfree : IndexFree st)
    {steps : List CatalogueStep} (hnames : ∀ step∈steps,NamesPass step.declaration) :
    (ListsExact ⟨st,[]⟩ ∧ Guarded (applyStep enc) (StepMeets enc) ⟨st,[]⟩ steps) ↔
      Guarded (applyStep enc) CleanStep ⟨st,[]⟩ steps := by
  have hstart := catalogueInv_of_free hfree
  have hsame : Guarded (applyStep enc) (StepMeets enc) ⟨st,[]⟩ steps ↔
      Guarded (applyStep enc) CleanStep ⟨st,[]⟩ steps :=
    guarded_congr_on (p:=fun step => NamesPass step.declaration) (I:=CatalogueInv)
      (fun _ _ hstep h hclean => (h.step enc hstep hclean).1) (fun _ _ hstep h => h.meets_iff hstep) hnames hstart
  rw [hsame]
  exact ⟨fun hboth => hboth.2,fun hclean => ⟨hstart.listsExact,hclean⟩⟩

theorem indexFree_freshStore : IndexFree freshStore :=
  ⟨rfl,fun _ hname => absurd hname List.not_mem_nil⟩

/-- Two indexes of one label, of which the first is dropped. -/
def twoIndexes : List CatalogueStep :=
  [.create ("Person",["name"]),.create ("Person",["name","age"]),.drop ("Person",["name"])]

/-- The catalogue is exact in this run. -/
theorem catalogue_exact_two :
    ListsExact ⟨freshStore,[]⟩ ∧ Guarded (applyStep frame) (StepMeets frame) ⟨freshStore,[]⟩ twoIndexes := by
  have hnames : ∀ step∈twoIndexes,NamesPass step.declaration := by
    have hall : ∀ step∈twoIndexes,isValidName step.declaration.1=true ∧
        ∀ p∈step.declaration.2,isValidName p=true := by decide
    exact hall
  have hdistinct : ¬SameLetters ("Person",["name"]) ("Person",["name","age"]) := fun hsame =>
    absurd (congrArg List.length hsame.2) (by decide)
  have hclean : Guarded (applyStep frame) CleanStep ⟨freshStore,[]⟩ twoIndexes := by
    refine ⟨⟨by simp,by decide,fun e he => absurd he List.not_mem_nil⟩,⟨by simp,by decide,fun e he hsame => ?_⟩,
      trivial,trivial⟩
    rw [List.mem_singleton.mp he] at hsame
    exact absurd hsame hdistinct
  exact (catalogue_exact_iff frame indexFree_freshStore hnames).mpr hclean

/-- Two labels that differ in letter case only. -/
def letterCase : List CatalogueStep := [.create ("Person",["name"]),.create ("person",["name"])]

/-- The catalogue after the first of them. -/
def personCatalogue : CatalogueState := applyStep frame ⟨freshStore,[]⟩ (.create ("Person",["name"]))

/-- The second index is not declared, but its creation fails. -/
theorem catalogue_letter_case_fails :
    ¬Guarded (applyStep frame) (StepMeets frame) ⟨freshStore,[]⟩ letterCase := by
  intro hmeets
  have hstart := catalogueInv_of_free indexFree_freshStore
  have hnames : NamesPass (CatalogueStep.create ("Person",["name"])).declaration :=
    ⟨by decide,by decide⟩
  have hclean : CleanStep ⟨freshStore,[]⟩ (.create ("Person",["name"])) :=
    ⟨by simp,by decide,fun e he => absurd he List.not_mem_nil⟩
  have hinv : CatalogueInv personCatalogue := (hstart.step frame hnames hclean).1
  have hsame : SameLetters ("Person",["name"]) ("person",["name"]) := ⟨by decide +kernel,rfl⟩
  have hrefused : ¬Creates personCatalogue.store "person" ["name"] := by
    intro hcreates
    have hfree := (hinv.creates_iff ("person",["name"])).mp hcreates
    exact hfree.2 ("Person",["name"]) List.mem_cons_self hsame
  obtain ⟨e,herror⟩ : ∃ e,runStep frame personCatalogue.store (.create ("person",["name"]))=
      (.error e,personCatalogue.store) := createCompositeIndex_error hrefused
  have hexpected : Expected personCatalogue.declared (.create ("person",["name"])) := by
    change ("person",["name"])∉[("Person",["name"])]
    decide
  have hok : (runStep frame personCatalogue.store (.create ("person",["name"]))).1=.ok () :=
    hmeets.2.1.outcome.mpr hexpected
  rw [herror] at hok
  exact absurd hok (by simp)

end GraphDbLite.IndexCatalogue
