import Mathlib.Data.List.Basic
import GraphDbLite.ByteStrings

/-!
# Values, properties, errors and names

The data model shared by storage and query execution. A value carries scalars,
lists, maps, runtime entities and temporal payloads. Properties are finite maps
from names to values. Names that reach the storage layer are checked byte by
byte; a checked name has no separator byte and no separator character.
-/

namespace GraphDbLite.GraphTypes

open ByteStrings

/-- Identifier of a stored node. -/
abbrev NodeId := UInt64

/-- A node value over an arbitrary value type. -/
structure NodeOf (V : Type) where
  /-- Identifier of the node. -/
  id : NodeId
  /-- Labels in stored order. -/
  labels : List String
  /-- Property map. -/
  properties : List (String×V)

/-- A relationship value over an arbitrary value type. -/
structure EdgeOf (V : Type) where
  /-- Source node. -/
  src : NodeId
  /-- Destination node. -/
  dst : NodeId
  /-- Relationship type. -/
  label : String
  /-- Property map. -/
  properties : List (String×V)

/-- A path value over an arbitrary value type. -/
structure PathOf (V : Type) where
  /-- Visited nodes. -/
  nodes : List (NodeOf V)
  /-- Traversed relationships. -/
  edges : List (EdgeOf V)

/-- Dynamic values. Floats are their 64-bit pattern; nodes, relationships and
paths are runtime-only. -/
inductive Value where
  | null
  | bool (b : Bool)
  | i64 (n : Int64)
  | f64 (bits : UInt64)
  | string (text : String)
  | list (items : List Value)
  | node (n : NodeOf Value)
  | edge (e : EdgeOf Value)
  | path (p : PathOf Value)
  | map (entries : List (String×Value))
  | date (days : Int)
  | localTime (nanos : Nat)
  | time (nanos : Nat) (offset : Int)
  | localDateTime (days : Int) (nanos : Nat)
  | dateTime (days : Int) (nanos : Nat) (offset : Int) (zone : Option String)
  | duration (months days seconds nanos : Int)

/-- A node value. -/
abbrev Node := NodeOf Value

/-- Whether a value is the null value, the only equality the write paths test. -/
@[grind] def Value.isNull : Value → Bool
  | .null => true
  | _ => false

/-- Property map of a node or relationship. -/
abbrev Properties := List (String×Value)

/-- Read a property. -/
@[grind] def getProp (props : Properties) (key : String) : Option Value :=
  (props.find? fun entry => entry.1=key).map Prod.snd

/-- Insert or replace a property. -/
@[grind] def insertProp (props : Properties) (key : String) (value : Value) : Properties :=
  (key,value)::props.filter fun entry => entry.1≠key

/-- Remove a property. -/
@[grind] def removeProp (props : Properties) (key : String) : Properties :=
  props.filter fun entry => entry.1≠key

theorem getProp_cons (entry : String×Value) (rest : Properties) (name : String) :
    getProp (entry::rest) name=if entry.1=name then some entry.2 else getProp rest name := by
  unfold getProp
  split_ifs with h
  · rw [List.find?_cons_of_pos (by simpa using h)]
    rfl
  · rw [List.find?_cons_of_neg (by simpa using h)]

theorem getProp_filter_key (accepts : String → Bool) (props : Properties) (name : String) :
    getProp (props.filter fun entry => accepts entry.1) name=
      if accepts name=true then getProp props name else none := by
  induction props with
  | nil => simp [getProp]
  | cons entry rest ih =>
    rw [getProp_cons]
    by_cases haccepts : accepts entry.1=true
    · rw [List.filter_cons_of_pos (by simpa using haccepts),getProp_cons,ih]
      by_cases hname : entry.1=name
      · rw [if_pos hname,if_pos hname,if_pos (hname ▸ haccepts)]
      · rw [if_neg hname,if_neg hname]
    · rw [List.filter_cons_of_neg (by simpa using haccepts),ih]
      by_cases hname : entry.1=name
      · rw [if_neg (hname ▸ haccepts),if_neg (hname ▸ haccepts)]
      · rw [if_neg hname]

theorem getProp_removeProp (props : Properties) (key name : String) :
    getProp (removeProp props key) name=if name=key then none else getProp props name := by
  rw [removeProp,getProp_filter_key fun other => other≠key]
  by_cases hn : name=key
  · simp [hn]
  · simp [hn]

theorem getProp_insertProp (props : Properties) (key name : String) (value : Value) :
    getProp (insertProp props key value) name=if name=key then some value else getProp props name := by
  have hrest := getProp_removeProp props key name
  rw [removeProp] at hrest
  rw [insertProp,getProp_cons,hrest]
  by_cases hn : name=key
  · rw [if_pos hn.symm,if_pos hn]
  · rw [if_neg (Ne.symm hn),if_neg hn,if_neg hn]

/-- Phase of query processing in which an error was raised. -/
inductive QueryPhase where
  | parse
  | semanticAnalysis
  | runtime
  deriving DecidableEq

/-- Specific codes attached by the planner, the operators and the evaluator. -/
inductive ErrorCode where
  | other
  | deleteConnectedNode
  | invalidPropertyType
  | invalidArgumentType
  | mapElementAccessByNonString
  | missingParameter
  | numberOutOfRange
  | mergeReadOwnWrites
  | nonConstantExpression
  | ambiguousAggregationExpression
  | undefinedVariable
  | noSingleRelationshipType
  | requiresDirectedRelationship
  | unexpectedSyntax
  deriving DecidableEq

/-- Broad kinds of query errors raised by the operators and the evaluator. -/
inductive QueryErrorKind where
  | syntaxError
  | typeError
  | semanticError
  | entityNotFound
  | argumentError
  | constraintViolation
  deriving DecidableEq

/-- Errors returned by the library, with their texts. -/
inductive GraphError where
  | storage (source : String) (hint : Option String)
  | serialization (context source : String) (hint : Option String)
  | query (kind : QueryErrorKind) (phase : QueryPhase) (code : ErrorCode) (message : String)
  | nodeNotFound (id : NodeId) (hint : Option String)
  | transaction (message : String) (hint : Option String)
  | indexAlreadyExists (label : String) (properties : List String) (hint : Option String)
  | indexNotFound (label : String) (properties : List String) (hint : Option String)
  | invalidIndexDefinition (reason : String) (hint : Option String)
  | invalidName (name : String) (hint : Option String)
  | sizeLimit (what : String) (limit actual : Nat) (hint : Option String)
  | schemaMismatch (found supported : UInt64) (hint : Option String)
  deriving DecidableEq

/-- Semantic error without a specific code. -/
@[grind] def GraphError.semantic (message : String) : GraphError :=
  .query .semanticError .semanticAnalysis .other message

/-- Outcome of a library call. -/
abbrev Result (α : Type) := Except GraphError α

/-- Letters, digits and the underscore. -/
@[grind] def isNameByte (b : UInt8) : Bool :=
  (48≤b && b≤57) || (65≤b && b≤90) || (97≤b && b≤122) || b=95

/-- The test of `validate_name`: a nonempty text of name bytes. -/
@[grind] def isValidName (name : String) : Bool := name ≠ "" && (asBytes name).all isNameByte

/-- Reject a name with a forbidden byte. -/
@[grind] def validateName (name : String) : Result Unit :=
  if isValidName name=true then .ok () else .error (.invalidName name none)

/-- Reject the first forbidden name of a list. -/
@[grind] def validateNames : List String → Result Unit
  | [] => .ok ()
  | name::rest =>
    match validateName name with
    | .ok () => validateNames rest
    | .error e => .error e

variable {name : String} {c : Char}

theorem validateName_ok_iff : validateName name=.ok () ↔ isValidName name=true := by
  unfold validateName
  split_ifs with h <;> simp [h]

theorem validateName_error {e : GraphError} (h : validateName name=.error e) : e=.invalidName name none := by
  unfold validateName at h
  split_ifs at h
  exact (Except.error.inj h).symm

theorem validateNames_ok_iff {names : List String} :
    validateNames names=.ok () ↔ ∀ name∈names,isValidName name=true := by
  induction names with
  | nil => simp [validateNames]
  | cons name rest ih =>
    rw [validateNames,List.forall_mem_cons,←validateName_ok_iff]
    cases h : validateName name with
    | ok u => simpa using ih
    | error e => simp

theorem validateNames_error {names : List String} {e : GraphError} (h : validateNames names=.error e) :
    ∃ name,e=.invalidName name none := by
  induction names with
  | nil => cases h
  | cons name rest ih =>
    rw [validateNames] at h
    cases hname : validateName name with
    | ok u =>
      rw [hname] at h
      exact ih h
    | error e' =>
      rw [hname] at h
      exact ⟨name,(Except.error.inj h).symm.trans (validateName_error hname)⟩

theorem asBytes_eq_flatMap (text : String) :
    asBytes text=text.toList.flatMap String.utf8EncodeChar := by
  rw [asBytes,←String.utf8Encode_toList,List.utf8Encode]
  simp

/-- Bytes from 192 on, which start the encoding of every other character, are
not name bytes. -/
theorem isNameByte_of_large {b : UInt8} (h : 192≤b.toNat) : isNameByte b=false := by
  have h57 : ¬b≤57 := by
    rw [UInt8.le_iff_toNat_le]
    change ¬b.toNat≤57
    omega
  have h90 : ¬b≤90 := by
    rw [UInt8.le_iff_toNat_le]
    change ¬b.toNat≤90
    omega
  have h122 : ¬b≤122 := by
    rw [UInt8.le_iff_toNat_le]
    change ¬b.toNat≤122
    omega
  have h95 : b≠95 := by
    rintro rfl
    exact absurd h (by decide)
  simp [isNameByte,h57,h90,h122,h95]

theorem utf8EncodeChar_of_name (h : ∀ b∈String.utf8EncodeChar c,isNameByte b=true) :
    String.utf8EncodeChar c=[UInt8.ofNat c.toNat] ∧ c.toNat≤127 := by
  have hlarge : ∀ n,192≤n → n<256 → isNameByte (UInt8.ofNat n)=true → False := by
    intro n hn hlt hname
    have hlo : 192≤(UInt8.ofNat n).toNat := by
      rw [UInt8.toNat_ofNat']
      omega
    rw [isNameByte_of_large hlo] at hname
    exact absurd hname (by decide)
  unfold String.utf8EncodeChar at h ⊢
  dsimp only at h ⊢
  split_ifs at h ⊢ with h1 h2 h3
  · exact ⟨rfl,h1⟩
  · exact (hlarge _ (by omega) (by omega) (h _ List.mem_cons_self)).elim
  · exact (hlarge _ (by omega) (by omega) (h _ List.mem_cons_self)).elim
  · exact (hlarge _ (by omega) (by omega) (h _ List.mem_cons_self)).elim

theorem char_of_validName (h : isValidName name=true) (hc : c∈name.toList) :
    String.utf8EncodeChar c=[UInt8.ofNat c.toNat] ∧ c.toNat≤127 ∧ isNameByte (UInt8.ofNat c.toNat)=true := by
  have hall : (asBytes name).all isNameByte=true := (Bool.and_eq_true_iff.mp h).2
  have hbytes : ∀ b∈String.utf8EncodeChar c,isNameByte b=true := by
    intro b hb
    apply List.all_eq_true.mp hall b
    rw [asBytes_eq_flatMap]
    exact List.mem_flatMap.mpr ⟨c,hc,hb⟩
  have hone := utf8EncodeChar_of_name hbytes
  refine ⟨hone.1,hone.2,hbytes _ ?_⟩
  rw [hone.1]
  exact List.mem_singleton_self _

theorem notMem_of_validName (h : isValidName name=true) (hc : isNameByte (UInt8.ofNat c.toNat)=false) :
    c∉name.toList := by
  intro hm
  have hname := (char_of_validName h hm).2.2
  rw [hc] at hname
  exact absurd hname (by decide)

theorem zero_notMem_of_validName (h : isValidName name=true) : 0∉asBytes name := by
  intro hm
  have hall : (asBytes name).all isNameByte=true := (Bool.and_eq_true_iff.mp h).2
  exact absurd (List.all_eq_true.mp hall 0 hm) (by decide)

theorem ne_empty_of_validName (h : isValidName name=true) : name ≠ "" := by
  simpa using (Bool.and_eq_true_iff.mp h).1

end GraphDbLite.GraphTypes
