import GraphDbLite.SecondaryIndex

/-!
# Full-text indexes

A full-text index is a virtual table whose rows are node identifiers with the
texts of the covered properties. Label and properties are read off the table
name. Creation fills the table from the label scan; afterwards a node write
replaces rows by comparing the old texts with the new ones. The virtual-table
module is a parameter: it may refuse a declaration, and it may refuse or keep a
second row of one identifier.
-/

namespace GraphDbLite.FullText

open ByteStrings GraphTypes OrderedTable StatefulActions GraphStore NodeStorage LikePattern

/-- What the virtual-table module does with a row identifier already present. -/
inductive DuplicateRowid where
  | secondCopy
  | refuse
  deriving DecidableEq

/-- The behaviour of the virtual-table module that is not fixed by the library. -/
structure FtsEngine where
  /-- Whether a table of this name may be declared with these columns. -/
  accepts : String → List String → Bool
  /-- Treatment of a present row identifier. -/
  duplicates : DuplicateRowid

/-- Description of one full-text index. -/
structure FtsIndexInfo where
  /-- Label the index is attached to. -/
  label : String
  /-- Covered properties. -/
  properties : List String
  /-- Tokenizer recovered from the declaration. -/
  kind : FtsTokenizerKind
  /-- Name of the virtual table. -/
  tableName : String

/-- Tokenizer clause of a declaration. -/
def tokenizeClause : FtsTokenizerKind → String
  | .trigramCaseSensitive => "trigram case_sensitive 1"
  | .trigramCaseInsensitive => "trigram case_sensitive 0"
  | .word => "unicode61"

/-- Text of the declaration of a virtual table. -/
def ftsSql (name : String) (t : FtsTable) : String :=
  "CREATE VIRTUAL TABLE \""++name++"\" USING fts5("++String.intercalate ", " t.columns++
    ", tokenize='"++tokenizeClause t.kind++"')"

/-- Recover the tokenizer from the text of a declaration. -/
def parseTokenizerKind (sql : String) : FtsTokenizerKind :=
  if containsText "unicode61" sql=true then .word
  else if containsText "case_sensitive 0" sql=true then .trigramCaseInsensitive
  else .trigramCaseSensitive

/-- Canonical name of a single-property table. -/
def ftsTableName (label property : String) : Result String := do
  validateName label
  validateName property
  pure ("node_fts$"++(label++(String.ofList ['$']++property)))

/-- Name of a single-property table in older databases. -/
def legacyFtsTableName (label property : String) : Result String := do
  validateName label
  validateName property
  pure ("node_fts_"++(label++("_"++property)))

/-- The physical table of a single-property index. -/
def resolveFtsTable (st : Store) (label property : String) : Result String := do
  let canonical ← ftsTableName label property
  if tableExists st canonical=true then pure canonical
  else do
    let legacy ← legacyFtsTableName label property
    if tableExists st legacy=true then pure legacy else pure canonical

/-- Label and properties of a virtual table, by its naming scheme. -/
def ftsInfo (name : String) (t : FtsTable) : Option FtsIndexInfo :=
  let kind := parseTokenizerKind (ftsSql name t)
  match stripPrefix "node_fts$" name with
  | some rest => (cutFirst '$' rest).map fun parts => ⟨parts.1,[parts.2],kind,name⟩
  | none =>
    match stripPrefix "node_fts_multi_" name with
    | some rest => (cutLast '_' rest).map fun parts => ⟨parts.1,t.columns,kind,name⟩
    | none =>
      match stripPrefix "node_fts_" name with
      | some rest => (cutFirst '_' rest).map fun parts => ⟨parts.1,[parts.2],kind,name⟩
      | none => none

/-- Every full-text index of the database. Only virtual tables are selected. -/
def listAllFulltextIndexes (st : Store) : List FtsIndexInfo :=
  (st.ftsTables.rows.filter fun row => likeMatch "node_fts_%".toList row.1.toList).filterMap
    fun row => ftsInfo row.1 row.2

/-- The full-text indexes of a label. -/
def listFulltextIndexesForLabel (st : Store) (label : String) : List FtsIndexInfo :=
  (listAllFulltextIndexes st).filter fun info => info.label=label

/-- Tokenizer of the index that covers a label and a property. -/
def ftsTokenizerKind (st : Store) (label property : String) : Result FtsTokenizerKind :=
  match (listAllFulltextIndexes st).find? fun info => info.label=label && property∈info.properties with
  | some info => .ok info.kind
  | none => .error (.indexNotFound label [property]
      (some "no fulltext index covers this (label, property)"))

/-- The string value of a property. -/
def textOf (props : Properties) (p : String) : Option String :=
  match getProp props p with
  | some (.string s) => some s
  | _ => none

/-- Texts of the covered properties; nothing for a new node. -/
def textsOf (props : Option Properties) (properties : List String) : List (Option String) :=
  properties.map fun p => props.bind fun props => textOf props p

/-- Whether one of the covered properties has a text. -/
def anyText (texts : List (Option String)) : Bool := texts.any Option.isSome

/-- Error of the virtual-table module for a present row identifier. -/
def duplicateRowid : GraphError := .storage "constraint failed" none

/-- Insert a row into a full-text table. -/
def ftsInsert (engine : FtsEngine) (table : String) (rowid : Int64) (texts : List (Option String)) :
    Db Unit := fun st =>
  match get st.ftsTables table with
  | none => (.error (.storage ("no such table: "++table) none),st)
  | some t =>
    if t.shadows≠shadowSuffixes then (.error (.storage "database disk image is malformed" none),st)
    else if rowid∈t.rows.map Prod.fst ∧ engine.duplicates=.refuse then (.error duplicateRowid,st)
    else (.ok (),{st with ftsTables := put st.ftsTables table {t with rows := t.rows++[(rowid,texts)]}})

/-- Delete the rows of an identifier from a full-text table. -/
def ftsDelete (table : String) (rowid : Int64) : Db Unit := fun st =>
  match get st.ftsTables table with
  | none => (.error (.storage ("no such table: "++table) none),st)
  | some t =>
    if t.shadows≠shadowSuffixes then (.error (.storage "database disk image is malformed" none),st)
    else (.ok (),{st with
      ftsTables := put st.ftsTables table {t with rows := t.rows.filter fun row => row.1≠rowid}})

/-- Declare a virtual table together with its shadow tables. -/
def createVirtualTable (engine : FtsEngine) (table : String) (columns : List String)
    (kind : FtsTokenizerKind) : Db Unit := fun st =>
  if (nameTaken st table || shadowSuffixes.any fun suffix => nameTaken st (table++suffix))=true then
    (.error (.storage ("table \""++table++"\" already exists") none),st)
  else if engine.accepts table columns=false then
    (.error (.storage "vtable constructor failed" none),st)
  else (.ok (),{st with ftsTables := put st.ftsTables table ⟨columns,kind,[],shadowSuffixes⟩})

/-- Insert the row of a node unless it has no text to index. -/
def insertTexts (engine : FtsEngine) (table : String) (id : NodeId) (properties : List String)
    (props : Properties) : Db Unit :=
  let texts := textsOf (some props) properties
  if anyText texts=true then ftsInsert engine table id.toInt64 texts else pure ()

/-- Create a single-property index and fill it from the label scan. -/
def createFulltextIndexImpl (engine : FtsEngine) (label property : String)
    (kind : FtsTokenizerKind) : Db Unit := do
  let table ← inspect fun _ => ftsTableName label property
  let legacy ← inspect fun _ => legacyFtsTableName label property
  let exists_ ← inspect fun st => .ok (tableExists st table || tableExists st legacy)
  if exists_=true then
    fail (.indexAlreadyExists label [property]
      (some "a fulltext index on this (label, property) already exists"))
  else
    let covered ← inspect fun st => .ok (ftsTokenizerKind st label property).isOk
    if covered=true then
      fail (.indexAlreadyExists label [property]
        (some "a multi-property fulltext index already covers this (label, property)"))
    else
      createVirtualTable engine table ["content"] kind
      let nodes ← inspect fun st => .ok (findNodesByLabel st label)
      forEach nodes fun n => insertTexts engine table n.id [property] n.properties

/-- Case-sensitive substring index. -/
def createFulltextIndex (engine : FtsEngine) (label property : String) : Db Unit :=
  createFulltextIndexImpl engine label property .trigramCaseSensitive

/-- Case-insensitive substring index. -/
def createFulltextIndexCi (engine : FtsEngine) (label property : String) : Db Unit :=
  createFulltextIndexImpl engine label property .trigramCaseInsensitive

/-- Word index. -/
def createFulltextIndexWord (engine : FtsEngine) (label property : String) : Db Unit :=
  createFulltextIndexImpl engine label property .word

/-- Read an unsigned number of 64 bits. -/
def parseU64 (text : String) : Option Nat :=
  let digits := match text.toList with
    | '+'::rest => rest
    | other => other
  if digits=[] ∨ digits.all Char.isDigit=false then none
  else
    let n := digits.foldl (fun n c => n*10+(c.toNat-48)) 0
    if n<2^64 then some n else none

/-- Smallest number from the start on that the sorted list does not use. -/
def nextSuffix (n : Nat) : List Nat → Nat
  | [] => n
  | u::rest => if u=n then nextSuffix (n+1) rest else if n<u then n else nextSuffix n rest

/-- Fresh name of a multi-property table of a label. -/
def ftsMultiTableName (st : Store) (label : String) : Result String := do
  validateName label
  let start := "node_fts_multi_"++(label++String.ofList ['_'])
  let names := (tableNames st).filter fun name => likeMatch (start.toList++['%']) name.toList
  let used := names.filterMap fun name => (stripPrefix start name).bind parseU64
  pure (start++toString (nextSuffix 1 (used.insertionSort (· ≤ ·))))

/-- First property of a list that repeats an earlier one. -/
def firstRepeated (seen : List String) : List String → Option String
  | [] => none
  | p::rest => if p∈seen then some p else firstRepeated (p::seen) rest

/-- Create a multi-property word index and fill it from the label scan. -/
def createFulltextIndexMultiImpl (engine : FtsEngine) (label : String) (properties : List String)
    (kind : FtsTokenizerKind) : Db Unit := do
  let table ← inspect fun st => ftsMultiTableName st label
  createVirtualTable engine table properties kind
  let nodes ← inspect fun st => .ok (findNodesByLabel st label)
  forEach nodes fun n => insertTexts engine table n.id properties n.properties

/-- Checks made before a multi-property index is created. -/
def checkMultiRequest (st : Store) (label : String) (properties : List String) : Result Unit :=
  if properties=[] then
    .error (.indexAlreadyExists label []
      (some "create_fulltext_index_word_multi requires at least one property"))
  else
    match firstRepeated [] properties with
    | some p => .error (.indexAlreadyExists label [p]
        (some "duplicate property in multi-prop index list"))
    | none =>
      match properties.find? fun p => (ftsTokenizerKind st label p).isOk with
      | some p => .error (.indexAlreadyExists label [p]
          (some "another fulltext index already covers (label, property)"))
      | none => validateNames properties

/-- Create a multi-property word index. -/
def createFulltextIndexWordMulti (engine : FtsEngine) (label : String) (properties : List String) :
    Db Unit := do
  inspect fun st => checkMultiRequest st label properties
  createFulltextIndexMultiImpl engine label properties .word

/-- Drop a single-property index. -/
def dropFulltextIndex (label property : String) : Db Unit := do
  let table ← inspect fun st => resolveFtsTable st label property
  let present ← inspect fun st => .ok (tableExists st table)
  if present=true then update fun st => dropTable st table
  else fail (.indexNotFound label [property] (some "no fulltext index on this (label, property)"))

/-- Delete the row of a node when its previous texts gave it one. -/
def deleteOldTexts (table : String) (id : NodeId) (texts : List (Option String)) : Db Unit :=
  if anyText texts=true then ftsDelete table id.toInt64 else pure ()

/-- Insert the new row of a node when it has a text; a single-property table has
one column. -/
def insertNewTexts (engine : FtsEngine) (table : String) (id : NodeId)
    (texts : List (Option String)) : Db Unit :=
  if anyText texts=true then
    if (stripPrefix "node_fts_multi_" table).isSome=true then
      ftsInsert engine table id.toInt64 texts
    else ftsInsert engine table id.toInt64 (texts.take 1)
  else pure ()

/-- Bring one full-text index in line with a node write. -/
def updateFtsForNodeOneIndex (engine : FtsEngine) (id : NodeId) (old : Option Properties)
    (new : Properties) (info : FtsIndexInfo) : Db Unit :=
  let oldVals := textsOf old info.properties
  let newVals := textsOf (some new) info.properties
  if oldVals=newVals then pure ()
  else do
    deleteOldTexts info.tableName id oldVals
    insertNewTexts engine info.tableName id newVals

/-- Bring the full-text indexes of one label in line with a node write. -/
def updateFtsForLabel (engine : FtsEngine) (id : NodeId) (label : String) (old : Option Properties)
    (new : Properties) : Db Unit := do
  let infos ← inspect fun st => .ok (listFulltextIndexesForLabel st label)
  forEach infos (updateFtsForNodeOneIndex engine id old new)

/-- Bring the full-text indexes of all labels in line with a node write. -/
def updateFtsForNode (engine : FtsEngine) (id : NodeId) (labels : List String)
    (old : Option Properties) (new : Properties) : Db Unit :=
  forEach labels fun label => updateFtsForLabel engine id label old new

/-- Remove the row of a node from one full-text index, if it had a text. -/
def removeTexts (id : NodeId) (props : Properties) (info : FtsIndexInfo) : Db Unit :=
  deleteOldTexts info.tableName id (textsOf (some props) info.properties)

/-- Remove the rows of a node from the full-text indexes of one label. -/
def removeFtsForLabel (id : NodeId) (label : String) (props : Properties) : Db Unit := do
  let infos ← inspect fun st => .ok (listFulltextIndexesForLabel st label)
  forEach infos (removeTexts id props)

/-- Remove the rows of a node from the full-text indexes of all its labels. -/
def removeFtsForNode (id : NodeId) (labels : List String) (props : Properties) : Db Unit :=
  forEach labels fun label => removeFtsForLabel id label props

end GraphDbLite.FullText
