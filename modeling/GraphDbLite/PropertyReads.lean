import GraphDbLite.MergeOperators
import GraphDbLite.PropertyNames
import GraphDbLite.Quantifiers
import GraphDbLite.RecordFields

/-!
# Ways of reading a property

A property of a bound entity is read by name, by index, from the value of the variable and
from its property map, and listed among its keys. Every way tries other fields of the row
first. They agree exactly when the fields describe the entity, the name is not one of the
internal ones, and the node that the row names lists what the entity has.
-/

namespace GraphDbLite.PropertyReads

open GraphTypes GraphStore WriteOperators MergeOperators CypherSyntax CypherValues CypherEval
open QueryPlan ColumnNames QueryExecutor NodeRecords Projection PropertyNames RecordFields ValueEquality Quantifiers ByteStrings

section Reading

variable {S : Type} (env : EvalEnv S) (st : Store) (row : NamedRecord) (x p : String) (props : Properties)

/-- All ways of reading a name give the property of the entity, null when it has none, and
the keys list the name exactly when that is not null. -/
structure ReadsAgree : Prop where
  /-- By property access. -/
  access : evalExpr env st (.property x p) row=.ok (propOrNull props p)
  /-- By an index with the name. -/
  index : evalExpr env st (.index (.var x) (.literal (.string p))) row=.ok (propOrNull props p)
  /-- From the value of the variable. -/
  dot : evalExpr env st (.dotAccess (.var x) p) row=.ok (propOrNull props p)
  /-- From the property map. -/
  map : evalDotAccess env (evalEntityCall env st "properties" [.var x] none) p row=.ok (propOrNull props p)
  /-- Among the keys. -/
  keys : ∃ names,evalEntityCall env st "keys" [.var x] none row=.ok (.list names) ∧
    (.string p∈names ↔ propOrNull props p≠.null)

/-- The fields describe a relationship or a node. -/
def Described : Prop := (edgeIdentity row x).isSome=true ∨
  ∃ id label,row.get (x++".__id")=some (.i64 id) ∧ row.get (x++".__label")=some (.string label)

/-- The entity that the fields describe. -/
def flatEntity : Option Value :=
  match edgeIdentity row x with
  | some (src,dst,label) => some (.edge ⟨src,dst,label,boundProperties row x⟩)
  | none =>
    match row.get (x++".__id"),row.get (x++".__label") with
    | some (.i64 id),some (.string label) =>
      some (.node ⟨id.toUInt64,if label = "" then [] else splitOnChar ':' label,boundProperties row x⟩)
    | _,_ => none

/-- A node or a relationship with those properties. -/
def HasProps (v : Value) : Prop :=
  (∃ n,v=.node n ∧ n.properties=props) ∨ ∃ e,v=.edge e ∧ e.properties=props

/-- The variable itself is bound to the entity. -/
def Carries : Prop := ∃ v,row.get x=some v ∧ HasProps props v

/-- The node that a property access reads when there is no field of the name. -/
def readNode : Option Node :=
  match storedNode st row x with
  | some n => some n
  | none =>
    match row.get x with
    | some (.node n) => some n
    | _ => none

/-- The keys list the name: those of the node that the row names, else those of the entity. -/
def Listed : Prop :=
  match storedNode st row x with
  | some n => (getProp n.properties p).isSome=true
  | none => (getProp props p).isSome=true ∧ (isInternal p=true → ¬Described row x)

/-- Conditions under which all ways of reading a name agree. -/
structure Readable : Prop where
  /-- The row does not mark the entity as deleted. -/
  alive : row.get (x++".__deleted")≠some (.bool true)
  /-- The value of the variable is the entity. -/
  described : Described row x ∨ Carries row x props
  /-- An internal name that the value leaves out is not a property. -/
  hidden : isInternal p=true → Described row x → propOrNull props p=.null
  /-- A field of the name holds the property. -/
  own : ∀ w,row.get (x++("."++p))=some w → w=propOrNull props p
  /-- The name that stands for the labels is a field, or the property holds the labels. -/
  labels : p = "labels" → row.get (x++("."++p))=none → ∀ n,readNode st row x=some n →
    labelList n.labels=propOrNull props p
  /-- The keys list the name when the property is not null. -/
  listed : Listed st row x p props ↔ propOrNull props p≠.null

/-- The fields of a variable that a clause bound to an entity. -/
structure Shown : Prop where
  /-- The variable is bound to an identifier, a type or the entity. -/
  value : (∃ id,row.get x=some (.i64 id)) ∨ (∃ label,row.get x=some (.string label)) ∨ Carries row x props
  /-- Fields without an internal name are properties. -/
  sound : ∀ key w,isInternal key=false → row.get (x++("."++key))=some w → getProp props key=some w
  /-- All properties have a field, or there is no field at all. -/
  covers : (∀ key,row.get (x++("."++key))=none → getProp props key=none) ∨ Bare row x

variable {env st row x p props}

theorem covers_of_described (hshown : Shown row x props) (h : Described row x) :
    ∀ key,row.get (x++("."++key))=none → getProp props key=none := by
  have hsrc : ".__src" = "."++"__src" := by decide
  have hid : ".__id" = "."++"__id" := by decide
  refine hshown.covers.resolve_right fun hbare => ?_
  cases h with
  | inl hedge =>
    rw [edgeIdentity,hsrc,hbare] at hedge
    cases hedge
  | inr hnode =>
    obtain ⟨id,_,hget,_⟩ := hnode
    rw [hid,hbare] at hget
    cases hget

variable {n : Node}

/-- A name without field is a name without property where the row names a node. -/
theorem covers_of_storedNode (hshown : Shown row x props) (h : storedNode st row x=some n) :
    ∀ key,row.get (x++("."++key))=none → getProp props key=none := by
  have hid : ".__id" = "."++"__id" := by decide
  refine hshown.covers.resolve_right fun hbare => ?_
  rw [storedNode,hid,hbare] at h
  cases h

/-- A variable that a clause bound has a value that is neither a list, a path, a map nor null. -/
theorem value_kind (hshown : Shown row x props) : ∃ v,row.get x=some v ∧ ((∃ id,v=.i64 id) ∨
    (∃ label,v=.string label) ∨ HasProps props v) := by
  cases hshown.value with
  | inl hid =>
    have ⟨id,hget⟩ := hid
    exact ⟨_,hget,.inl ⟨id,rfl⟩⟩
  | inr hrest =>
    cases hrest with
    | inl htext =>
      have ⟨label,hget⟩ := htext
      exact ⟨_,hget,.inr (.inl ⟨label,rfl⟩)⟩
    | inr hentity =>
      have ⟨v,hget,hprops⟩ := hentity
      exact ⟨v,hget,.inr (.inr hprops)⟩

theorem compound_of_shown (hshown : Shown row x props) : buildCompoundBinding row x=flatEntity row x := by
  obtain ⟨v,hget,hkind⟩ := value_kind hshown
  rw [buildCompoundBinding,hget]
  cases hkind with
  | inl hid =>
    obtain ⟨id,heq⟩ := hid
    rw [heq]
    rfl
  | inr hrest =>
    cases hrest with
    | inl htext =>
      obtain ⟨label,heq⟩ := htext
      rw [heq]
      rfl
    | inr hentity =>
      cases hentity with
      | inl hnode =>
        obtain ⟨n,heq,_⟩ := hnode
        rw [heq]
        rfl
      | inr hedge =>
        obtain ⟨e,heq,_⟩ := hedge
        rw [heq]
        rfl

theorem flatEntity_of_described (h : Described row x) :
    ∃ v,flatEntity row x=some v ∧ HasProps (boundProperties row x) v := by
  rw [flatEntity]
  cases hedge : edgeIdentity row x with
  | some identity => exact ⟨_,rfl,.inr ⟨_,rfl,rfl⟩⟩
  | none =>
    cases h with
    | inl hsome =>
      rw [hedge] at hsome
      cases hsome
    | inr hnode =>
      have ⟨id,label,hid,hlabel⟩ := hnode
      rw [hid,hlabel]
      exact ⟨_,rfl,.inl ⟨_,rfl,rfl⟩⟩

theorem flatEntity_of_not_described (h : ¬Described row x) : flatEntity row x=none := by
  rw [flatEntity]
  cases hedge : edgeIdentity row x with
  | some identity => exact absurd (.inl (by rw [hedge]; rfl)) h
  | none =>
    cases hid : row.get (x++".__id") with
    | none => rfl
    | some idValue =>
      cases idValue with
      | i64 id =>
        cases hlabel : row.get (x++".__label") with
        | none => rfl
        | some labelValue =>
          cases labelValue with
          | string label => exact absurd (.inr ⟨id,label,hid,hlabel⟩) h
          | _ => rfl
      | _ => rfl

/-- The properties of a described entity are the fields without an internal name. -/
theorem boundProperties_shown (hshown : Shown row x props) (h : Described row x) (key : String) :
    getProp (boundProperties row x) key=if isInternal key=true then none else getProp props key := by
  rw [getProp_boundProperties]
  by_cases hkey : isInternal key=true
  · rw [if_pos hkey,if_pos hkey]
  · rw [if_neg hkey,if_neg hkey]
    cases hget : row.get (x++("."++key)) with
    | none => exact (covers_of_described hshown h key hget).symm
    | some w => exact (hshown.sound key w (Bool.eq_false_iff.mpr hkey) hget).symm

/-- The value of a variable that describes or carries its entity: an entity whose properties
are those of the fields, or all of them. -/
theorem bound_value (hshown : Shown row x props) (h : Described row x ∨ Carries row x props) :
    ∃ v shown,HasProps shown v ∧ (buildCompoundBinding row x=some v ∨
      buildCompoundBinding row x=none ∧ row.get x=some v) ∧
      (Described row x → ∀ key,getProp shown key=if isInternal key=true then none else getProp props key) ∧
      (¬Described row x → shown=props) := by
  rw [compound_of_shown hshown]
  by_cases hdescribed : Described row x
  · have ⟨v,hflat,hprops⟩ := flatEntity_of_described hdescribed
    exact ⟨v,boundProperties row x,hprops,.inl hflat,fun _ => boundProperties_shown hshown hdescribed,
      fun hnot => absurd hdescribed hnot⟩
  · have ⟨v,hget,hprops⟩ := h.resolve_left hdescribed
    exact ⟨v,props,hprops,.inr ⟨flatEntity_of_not_described hdescribed,hget⟩,
      fun hyes => absurd hyes hdescribed,fun _ => rfl⟩

/-- The value that a variable shows, with its properties. -/
structure Shows (row : NamedRecord) (x : String) (v : Value) (shown : Properties) : Prop where
  /-- It is an entity. -/
  entity : HasProps shown v
  /-- It is described by the fields or bound to the variable. -/
  bound : buildCompoundBinding row x=some v ∨ buildCompoundBinding row x=none ∧ row.get x=some v

variable {v : Value} {shown : Properties}

theorem Shows.variable (h : Shows row x v shown) : evalVariable x row=.ok v := by
  rw [evalVariable]
  cases h.bound with
  | inl hcompound => rw [hcompound]
  | inr hown =>
    rw [hown.1,hown.2]
    rfl

theorem Shows.dot (h : Shows row x v shown) :
    evalExpr env st (.dotAccess (.var x) p) row=.ok (propOrNull shown p) := by
  have hrun : evalExpr env st (.dotAccess (.var x) p) row=evalDotAccess env (evalVariable x) p row := rfl
  rw [hrun,evalDotAccess,h.variable]
  cases h.entity with
  | inl hnode =>
    have ⟨n,heq,hprops⟩ := hnode
    rw [heq,←hprops]
    rfl
  | inr hedge =>
    have ⟨e,heq,hprops⟩ := hedge
    rw [heq,←hprops]
    rfl

theorem Shows.properties (h : Shows row x v shown) (halive : row.get (x++".__deleted")≠some (.bool true)) :
    evalEntityCall env st "properties" [.var x] none row=.ok (.map shown) := by
  have hrun : evalEntityCall env st "properties" [.var x] none row=
      (refuseDeleted "properties" [(.var x : Expr S)] row >>= fun _ =>
        evalPropertyMap [(.var x : Expr S)] [evalVariable x] row) := rfl
  have hmap : evalPropertyMap [(.var x : Expr S)] [evalVariable x] row=.ok (.map shown) := by
    have harg : (argVariable [(.var x : Expr S)]).bind (propertiesField row)=propertiesField row x := rfl
    rw [evalPropertyMap,harg,propertiesField]
    cases h.bound with
    | inl hcompound =>
      rw [hcompound]
      cases h.entity with
      | inl hnode =>
        have ⟨n,heq,hprops⟩ := hnode
        rw [heq,←hprops]
      | inr hedge =>
        have ⟨e,heq,hprops⟩ := hedge
        rw [heq,←hprops]
    | inr hown =>
      have hsingle : evalSingleArg [evalVariable x] row=.ok v := h.variable
      rw [hown.1,hown.2]
      cases h.entity with
      | inl hnode =>
        have ⟨n,heq,hprops⟩ := hnode
        rw [heq] at hsingle ⊢
        dsimp only
        rw [hsingle,←hprops]
        rfl
      | inr hedge =>
        have ⟨e,heq,hprops⟩ := hedge
        rw [heq] at hsingle ⊢
        dsimp only
        rw [hsingle,←hprops]
        rfl
  rw [hrun,refuseDeleted_ok halive,hmap]
  rfl

theorem Shows.map (h : Shows row x v shown) (halive : row.get (x++".__deleted")≠some (.bool true)) :
    evalDotAccess env (evalEntityCall env st "properties" [.var x] none) p row=.ok (propOrNull shown p) := by
  rw [evalDotAccess,h.properties halive]
  rfl

/-- The properties whose keys are listed: those of the node that the row names, else those
of the value. -/
def keyedProps (st : Store) (row : NamedRecord) (x : String) (shown : Properties) : Properties :=
  match storedNode st row x with
  | some n => n.properties
  | none => shown

section Shown

variable (hshown : Shown row x props)

include hshown

theorem not_map_of_shown (entries : List (String×Value)) :
    row.get x≠some (.map entries) := by
  have ⟨w,hget,hkind⟩ := value_kind hshown
  intro hmap
  rw [hget] at hmap
  have heq := Option.some.inj hmap
  cases hkind with
  | inl hid =>
    have ⟨id,hid⟩ := hid
    rw [hid] at heq
    cases heq
  | inr hrest =>
    cases hrest with
    | inl htext =>
      have ⟨label,htext⟩ := htext
      rw [htext] at heq
      cases heq
    | inr hentity =>
      cases hentity with
      | inl hnode =>
        have ⟨n,hnode,_⟩ := hnode
        rw [hnode] at heq
        cases heq
      | inr hedge =>
        have ⟨e,hedge,_⟩ := hedge
        rw [hedge] at heq
        cases heq

/-- Without a node that the row names, the keys of a variable are those of its relationship or none. -/
theorem keysField_of_shown (h : Shows row x v shown) (hnamed : storedNode st row x=none) :
    keysField st row x=some (sortedKeys shown) ∨ keysField st row x=none := by
  rw [keysField,hnamed]
  dsimp only
  split
  · rename_i e hflag hcompound
    have hv : v=.edge e := by
      cases h.bound with
      | inl hbound => exact (Option.some.inj (hcompound.symm.trans hbound)).symm
      | inr hbound =>
        rw [hbound.1] at hcompound
        cases hcompound
    cases h.entity with
    | inl hnode =>
      have ⟨n,heq,_⟩ := hnode
      rw [hv] at heq
      cases heq
    | inr hedge =>
      have ⟨f,heq,hprops⟩ := hedge
      rw [←hprops,←Value.edge.inj (hv.symm.trans heq)]
      exact .inl rfl
  · split
    · rename_i entries hget
      exact absurd hget (not_map_of_shown hshown entries)
    · exact .inr rfl

theorem Shows.keys (h : Shows row x v shown)
    (halive : row.get (x++".__deleted")≠some (.bool true)) :
    evalEntityCall env st "keys" [.var x] none row=.ok (sortedKeys (keyedProps st row x shown)) := by
  have hrun : evalEntityCall env st "keys" [.var x] none row=
      (refuseDeleted "keys" [(.var x : Expr S)] row >>= fun _ =>
        evalKeys st [(.var x : Expr S)] [evalVariable x] row) := rfl
  have hkeys : evalKeys st [(.var x : Expr S)] [evalVariable x] row=.ok (sortedKeys (keyedProps st row x shown)) := by
    have harg : (argVariable [(.var x : Expr S)]).bind (keysField st row)=keysField st row x := rfl
    have hsingle : evalSingleArg [evalVariable x] row=.ok v := h.variable
    have hvalue : keysOfValue st v=.ok (sortedKeys shown) := by
      cases h.entity with
      | inl hnode =>
        have ⟨n,heq,hprops⟩ := hnode
        rw [heq,←hprops]
        rfl
      | inr hedge =>
        have ⟨e,heq,hprops⟩ := hedge
        rw [heq,←hprops]
        rfl
    rw [evalKeys,harg,keyedProps]
    cases hnamed : storedNode st row x with
    | some n =>
      rw [keysField,hnamed]
    | none =>
      cases keysField_of_shown hshown h hnamed with
      | inl hfield => rw [hfield]
      | inr hfield =>
        rw [hfield]
        dsimp only
        rw [hsingle]
        exact hvalue
  rw [hrun,refuseDeleted_ok halive,hkeys]
  rfl

theorem not_null_of_shown : row.get x≠some .null := by
  have ⟨w,hget,hkind⟩ := value_kind hshown
  intro hnull
  rw [hget] at hnull
  have heq := Option.some.inj hnull
  rw [heq] at hkind
  cases hkind with
  | inl hid => exact hid.elim fun _ h => nomatch h
  | inr hrest =>
    cases hrest with
    | inl htext => exact htext.elim fun _ h => nomatch h
    | inr hentity =>
      cases hentity with
      | inl hnode => exact hnode.elim fun _ h => nomatch h.1
      | inr hedge => exact hedge.elim fun _ h => nomatch h.1

theorem dynamicProperty_shown : dynamicProperty st row x p=
    (row.get (x++("."++p))).or ((storedNode st row x).map fun n => propOrNull n.properties p) := by
  rw [dynamicProperty]
  cases hfield : row.get (x++("."++p)) with
  | some w => rfl
  | none =>
    rw [Option.none_or]
    dsimp only
    split
    · rename_i hnull
      exact absurd hnull (not_null_of_shown hshown)
    · rename_i entries hmap
      exact absurd hmap (not_map_of_shown hshown entries)
    · rfl

/-- An index with the name: a field, else a property of the node that the row names, else
one of the value. -/
theorem Shows.index (h : Shows row x v shown) :
    evalExpr env st (.index (.var x) (.literal (.string p))) row=
      .ok ((row.get (x++("."++p))).getD (propOrNull (keyedProps st row x shown) p)) := by
  have hbase : indexValue v (.string p)=.ok (propOrNull shown p) := by
    cases h.entity with
    | inl hnode =>
      have ⟨n,heq,hprops⟩ := hnode
      rw [heq,←hprops]
      rfl
    | inr hedge =>
      have ⟨e,heq,hprops⟩ := hedge
      rw [heq,←hprops]
      rfl
  simp only [evalExpr,asVariable,literalToValue,evalIndex]
  change ((Except.ok (dynamicProperty st row x p)) >>= _)=_
  rw [dynamicProperty_shown hshown,keyedProps]
  cases row.get (x++("."++p)) with
  | some w => rfl
  | none =>
    cases storedNode st row x with
    | some n => rfl
    | none =>
      change (evalVariable x row >>= _)=_
      rw [h.variable]
      exact hbase

end Shown

/-- Numbers, texts, lists and booleans have no components. -/
def PlainComponents (env : EvalEnv S) : Prop := ∀ value prop,refusesProperty value=true → env.temporalAccessor value prop=none

/-- The property that an access reads where there is no field of the name. -/
def fallback (st : Store) (row : NamedRecord) (x p : String) (props : Properties) : Value :=
  match readNode st row x with
  | some n => nodeProperty n p
  | none => propOrNull props p

theorem hasMetadata_of_described (h : Described row x) : hasMetadata row x=true := by
  rw [hasMetadata]
  cases h with
  | inl hedge =>
    rw [edgeIdentity] at hedge
    cases hsrc : row.get (x++".__src") with
    | none =>
      rw [hsrc] at hedge
      cases hedge
    | some src => simp
  | inr hnode =>
    obtain ⟨id,_,hid,_⟩ := hnode
    rw [hid]
    rfl

/-- A scalar variable that describes its entity has no property without a field. -/
theorem described_of_scalar (hshown : Shown row x props) (h : Described row x ∨ Carries row x props) {value : Value}
    (hscalar : refusesProperty value=true) (hget : row.get x=some value)
    (hfield : row.get (x++("."++p))=none) : propOrNull props p=.null ∧ hasMetadata row x=true := by
  have hdescribed : Described row x := by
    refine h.resolve_right fun hcarries => ?_
    have ⟨v,hv,hprops⟩ := hcarries
    rw [hget] at hv
    rw [←Option.some.inj hv] at hprops
    cases hprops with
    | inl hnode =>
      have ⟨n,heq,_⟩ := hnode
      rw [heq] at hscalar
      cases hscalar
    | inr hedge =>
      have ⟨e,heq,_⟩ := hedge
      rw [heq] at hscalar
      cases hscalar
  constructor
  · rw [propOrNull,covers_of_described hshown hdescribed p hfield]
    rfl
  · exact hasMetadata_of_described hdescribed

/-- A property access without a field of the name and without a node that the row names. -/
theorem valueProperty_shown (hplain : PlainComponents env) (hshown : Shown row x props)
    (h : Described row x ∨ Carries row x props) (hfield : row.get (x++("."++p))=none)
    (hnamed : storedNode st row x=none) : valueProperty env row x p=.ok (fallback st row x p props) := by
  rw [fallback,readNode,hnamed,valueProperty]
  cases hshown.value with
  | inl hid =>
    have ⟨id,hget⟩ := hid
    have ⟨hnull,hmeta⟩ := described_of_scalar hshown h rfl hget hfield
    rw [hget]
    dsimp only
    rw [hplain (.i64 id) p rfl,hmeta,hnull]
    rfl
  | inr hrest =>
    cases hrest with
    | inl htext =>
      have ⟨label,hget⟩ := htext
      have ⟨hnull,hmeta⟩ := described_of_scalar hshown h rfl hget hfield
      rw [hget]
      dsimp only
      rw [hplain (.string label) p rfl,hmeta,hnull]
      rfl
    | inr hcarries =>
      have ⟨v,hget,hprops⟩ := hcarries
      rw [hget]
      cases hprops with
      | inl hnode =>
        have ⟨n,heq,_⟩ := hnode
        rw [heq]
      | inr hedge =>
        have ⟨e,heq,hsame⟩ := hedge
        rw [heq,←hsame]

theorem access_shown (hplain : PlainComponents env) (hshown : Shown row x props)
    (h : Described row x ∨ Carries row x props) (halive : row.get (x++".__deleted")≠some (.bool true)) :
    evalExpr env st (.property x p) row=.ok ((row.get (x++("."++p))).getD (fallback st row x p props)) := by
  have hrun : evalExpr env st (.property x p) row=evalProperty env st x p row := rfl
  rw [hrun,evalProperty]
  split
  · rename_i hdeleted
    exact absurd hdeleted halive
  · split
    · rename_i hnull
      exact absurd hnull (not_null_of_shown hshown)
    · cases hfield : row.get (x++("."++p)) with
      | some w => rfl
      | none =>
        cases hnamed : storedNode st row x with
        | some n =>
          dsimp only
          rw [fallback,readNode,hnamed]
          rfl
        | none => exact valueProperty_shown hplain hshown h hfield hnamed

theorem mem_sortedKeys {entries : Properties} {names : List Value} (h : sortedKeys entries=.list names) :
    .string p∈names ↔ (getProp entries p).isSome=true := by
  rw [←Value.list.inj h,List.mem_map]
  have hkey : (∃ key∈(entries.map Prod.fst).insertionSort fun a b => a≤b,Value.string key=.string p) ↔
      p∈entries.map Prod.fst := by
    constructor
    · intro hex
      have ⟨key,hin,heq⟩ := hex
      rw [←Value.string.inj heq]
      exact (List.perm_insertionSort _ _).mem_iff.mp hin
    · intro hin
      exact ⟨p,(List.perm_insertionSort _ _).mem_iff.mpr hin,rfl⟩
  rw [hkey,getProp,Option.isSome_map,List.find?_isSome,List.mem_map]
  constructor
  · intro hex
    have ⟨entry,hin,heq⟩ := hex
    exact ⟨entry,hin,decide_eq_true heq⟩
  · intro hex
    have ⟨entry,hin,heq⟩ := hex
    exact ⟨entry,hin,of_decide_eq_true heq⟩

/-- A variable that neither describes nor carries an entity has no property map. -/
theorem map_of_not_described (hshown : Shown row x props) (h : ¬(Described row x ∨ Carries row x props))
    (value : Value) :
    evalDotAccess env (evalEntityCall env st "properties" [.var x] none) p row≠.ok value := by
  have hcompound : buildCompoundBinding row x=none := by
    rw [compound_of_shown hshown]
    exact flatEntity_of_not_described fun hdescribed => h (.inl hdescribed)
  have hother : ∀ w,row.get x=some w → propertiesOfValue w=.error (invalidArgumentType "properties()" w) →
      evalPropertyMap [(.var x : Expr S)] [evalVariable x] row=.error (invalidArgumentType "properties()" w) := by
    intro w hget hfails
    have harg : (argVariable [(.var x : Expr S)]).bind (propertiesField row)=propertiesField row x := rfl
    have hnone : propertiesField row x=none := by
      rw [propertiesField,hcompound]
      dsimp only
      split
      · rename_i hnull
        exact absurd hnull (not_null_of_shown hshown)
      · rfl
    have hsingle : evalSingleArg [evalVariable x] row=.ok w := by
      have hvariable : evalVariable x row=.ok w := by
        rw [evalVariable,hcompound,hget]
        rfl
      exact hvariable
    rw [evalPropertyMap,harg,hnone]
    dsimp only
    rw [hsingle]
    exact hfails
  have hfails : ∃ e,evalPropertyMap [(.var x : Expr S)] [evalVariable x] row=.error e := by
    cases hshown.value with
    | inl hid =>
      obtain ⟨id,hget⟩ := hid
      exact ⟨_,hother _ hget rfl⟩
    | inr hrest =>
      obtain ⟨label,hget⟩ := hrest.resolve_right fun hcarries => h (.inr hcarries)
      exact ⟨_,hother _ hget rfl⟩
  obtain ⟨e,hmap⟩ := hfails
  have hrun : evalEntityCall env st "properties" [.var x] none row=
      (refuseDeleted "properties" [(.var x : Expr S)] row >>= fun _ =>
        evalPropertyMap [(.var x : Expr S)] [evalVariable x] row) := rfl
  intro hread
  rw [evalDotAccess,hrun,hmap] at hread
  cases hrefuse : refuseDeleted "properties" [(.var x : Expr S)] row with
  | error e | ok u =>
    rw [hrefuse] at hread
    cases hread

theorem propOrNull_shown (hvisible : Described row x → ∀ key,
      getProp shown key=if isInternal key=true then none else getProp props key)
    (hown : ¬Described row x → shown=props)
    (hhidden : isInternal p=true → Described row x → propOrNull props p=.null) :
    propOrNull shown p=propOrNull props p := by
  by_cases hdescribed : Described row x
  · by_cases hkey : isInternal p=true
    · rw [hhidden hkey hdescribed,propOrNull,hvisible hdescribed,if_pos hkey]
      rfl
    · rw [propOrNull,hvisible hdescribed,if_neg hkey]
      rfl
  · rw [hown hdescribed]

theorem listed_iff (hvisible : Described row x → ∀ key,
      getProp shown key=if isInternal key=true then none else getProp props key)
    (hown : ¬Described row x → shown=props) :
    Listed st row x p props ↔ (getProp (keyedProps st row x shown) p).isSome=true := by
  rw [Listed,keyedProps]
  cases storedNode st row x with
  | some n => exact Iff.rfl
  | none =>
    dsimp only
    by_cases hdescribed : Described row x
    · rw [hvisible hdescribed]
      by_cases hkey : isInternal p=true
      · rw [if_pos hkey]
        exact ⟨fun h => absurd hdescribed (h.2 hkey),fun h => (by cases h)⟩
      · rw [if_neg hkey]
        exact ⟨fun h => h.1,fun h => ⟨h,fun hyes => absurd hyes hkey⟩⟩
    · rw [hown hdescribed]
      exact ⟨fun h => h.1,fun h => ⟨h,fun _ => hdescribed⟩⟩

/-- A node that the row names has the property of the entity where there is no field. -/
theorem propOrNull_named (hshown : Shown row x props)
    (hlisted : Listed st row x p props ↔ propOrNull props p≠.null) (hfield : row.get (x++("."++p))=none)
    (hnamed : storedNode st row x=some n) : propOrNull n.properties p=propOrNull props p := by
  have hnull : propOrNull props p=.null := by
    rw [propOrNull,covers_of_storedNode hshown hnamed p hfield]
    rfl
  rw [Listed,hnamed] at hlisted
  have hnone : getProp n.properties p=none := by
    cases hget : getProp n.properties p with
    | none => rfl
    | some w =>
      have hsome : (getProp n.properties p).isSome=true := by
        rw [hget]
        rfl
      exact absurd hnull (hlisted.mp hsome)
  rw [hnull,propOrNull,hnone]
  rfl

theorem propOrNull_readNode (hshown : Shown row x props)
    (hlisted : Listed st row x p props ↔ propOrNull props p≠.null) (hfield : row.get (x++("."++p))=none)
    (hread : readNode st row x=some n) : propOrNull n.properties p=propOrNull props p := by
  rw [readNode] at hread
  cases hnamed : storedNode st row x with
  | some m =>
    rw [hnamed] at hread
    rw [←Option.some.inj hread]
    exact propOrNull_named hshown hlisted hfield hnamed
  | none =>
    rw [hnamed] at hread
    have ⟨v,hget,hkind⟩ := value_kind hshown
    rw [hget] at hread
    cases hkind with
    | inl hid =>
      have ⟨id,heq⟩ := hid
      rw [heq] at hread
      cases hread
    | inr hrest =>
      cases hrest with
      | inl htext =>
        have ⟨label,heq⟩ := htext
        rw [heq] at hread
        cases hread
      | inr hentity =>
        cases hentity with
        | inl hnode =>
          have ⟨m,heq,hprops⟩ := hnode
          rw [heq] at hread
          rw [←Option.some.inj hread,hprops]
        | inr hedge =>
          have ⟨e,heq,_⟩ := hedge
          rw [heq] at hread
          cases hread

/-- The ways of reading a name of a bound variable agree exactly when it is readable. -/
theorem readsAgree_of_shown (hplain : PlainComponents env) (hshown : Shown row x props) :
    ReadsAgree env st row x p props ↔ Readable st row x p props := by
  constructor
  · intro h
    have halive : row.get (x++".__deleted")≠some (.bool true) := not_deleted_of_access h.access
    have hdescribed : Described row x ∨ Carries row x props :=
      not_not.mp fun hnot => map_of_not_described hshown hnot _ h.map
    obtain ⟨v,shown,hentity,hbound,hvisible,hown⟩ := bound_value hshown hdescribed
    have hshows : Shows row x v shown := ⟨hentity,hbound⟩
    have haccess := (access_shown hplain hshown hdescribed halive).symm.trans h.access
    refine ⟨halive,hdescribed,?_,?_,?_,?_⟩
    · intro hkey hyes
      have hmap := (hshows.map halive).symm.trans h.map
      rw [←Except.ok.inj hmap,propOrNull,hvisible hyes,if_pos hkey]
      rfl
    · intro w hfield
      rw [hfield] at haccess
      exact Except.ok.inj haccess
    · intro hlabels hfield n hread
      have hvalue : fallback st row x p props=labelList n.labels := by
        rw [fallback,hread]
        exact if_pos hlabels
      rw [hfield,hvalue] at haccess
      exact Except.ok.inj haccess
    · obtain ⟨names,hkeys,hlist⟩ := h.keys
      have hnames := Except.ok.inj ((Shows.keys hshown hshows halive).symm.trans hkeys)
      rw [listed_iff hvisible hown,←mem_sortedKeys hnames]
      exact hlist
  · intro h
    obtain ⟨v,shown,hentity,hbound,hvisible,hown⟩ := bound_value hshown h.described
    have hshows : Shows row x v shown := ⟨hentity,hbound⟩
    have hsame := propOrNull_shown hvisible hown h.hidden
    have hkeyed : row.get (x++("."++p))=none → propOrNull (keyedProps st row x shown) p=propOrNull props p := by
      intro hfield
      rw [keyedProps]
      cases hnamed : storedNode st row x with
      | some n => exact propOrNull_named hshown h.listed hfield hnamed
      | none => exact hsame
    have hfallback : row.get (x++("."++p))=none → fallback st row x p props=propOrNull props p := by
      intro hfield
      rw [fallback]
      cases hread : readNode st row x with
      | none => rfl
      | some n =>
        have hproperty : p≠"labels" → propOrNull n.properties p=propOrNull props p := fun _ =>
          propOrNull_readNode hshown h.listed hfield hread
        by_cases hlabels : p = "labels"
        · exact (if_pos hlabels).trans (h.labels hlabels hfield n hread)
        · exact (if_neg hlabels).trans (hproperty hlabels)
    have hread : ∀ other,(row.get (x++("."++p))=none → other=propOrNull props p) →
        (row.get (x++("."++p))).getD other=propOrNull props p := by
      intro other hother
      cases hfield : row.get (x++("."++p)) with
      | some w => exact h.own w hfield
      | none => exact hother hfield
    refine ⟨?_,?_,?_,?_,_,Shows.keys hshown hshows h.alive,?_⟩
    · rw [access_shown hplain hshown h.described h.alive,hread _ hfallback]
    · rw [Shows.index hshown hshows,hread _ hkeyed]
    · rw [hshows.dot,hsame]
    · rw [hshows.map h.alive,hsame]
    · rw [mem_sortedKeys rfl,←listed_iff hvisible hown]
      exact h.listed

end Reading

section Bindings

/-- A matched relationship, with its sequence number where the expansion knows it. -/
def matchedEdgeRow (rec : NamedRecord) (x : String) (e : EdgeOf Value) : Option UInt64 → NamedRecord
  | some seq => bindProperties ((bindRelationship rec x e.label e.src e.dst).set (x++".__edge_seq") (.i64 seq.toInt64))
    x e.properties
  | none => bindProperties (bindRelationship rec x e.label e.src e.dst) x e.properties

/-- The row of an unwound item. -/
def unwindRow (rec : NamedRecord) (x : String) : Value → NamedRecord
  | .node n => NamedRecord.overlay rec (nodeToRecord n x)
  | .edge e =>
    let sourced := (rec.set x (.edge e)).set (x++".__src") (.i64 e.src.toInt64)
    let typed := (sourced.set (x++".__dst") (.i64 e.dst.toInt64)).set (x++".__type") (.string e.label)
    e.properties.foldl (fun rec entry => rec.set (x++("."++entry.1)) entry.2) typed
  | item => rec.set x item

variable {S : Type}

/-- Rows in which a clause bound a variable to an entity with those properties. -/
inductive Binds (env : EvalEnv S) (floatText : UInt64 → String) (st : Store) :
    NamedRecord → String → Properties → Prop
  /-- A node found by MATCH. -/
  | matchedNode {rec : NamedRecord} {x : String} {n : Node} (hfresh : Bare rec x) (hstored : Stored st n) :
    Binds env floatText st (populateNodeBindings rec n x) x n.properties
  /-- A relationship found by MATCH. -/
  | matchedEdge {rec : NamedRecord} {x : String} (hfresh : Bare rec x) (e : EdgeOf Value) (seq : Option UInt64) :
    Binds env floatText st (matchedEdgeRow rec x e seq) x e.properties
  /-- A node made by CREATE. -/
  | createdNode {s : CreateState} {x : String} {n : Node} (hfresh : Bare s.record x) (hstored : Stored st n)
      (hprops : DistinctNames n.properties) :
    Binds env floatText st (s.bindNode (some x) n.id n.properties).record x n.properties
  /-- A relationship made by CREATE. -/
  | createdEdge {s : CreateState} {x : String} (hfresh : Bare s.record x) (e : EdgeOf Value)
      (hprops : DistinctNames e.properties) :
    Binds env floatText st (s.bindEdge (some x) e.src e.dst e.label e.properties).record x e.properties
  /-- A node found or made by MERGE. -/
  | mergedNode {rec : NamedRecord} {x : String} {n : Node} (hfresh : Bare rec x) (hstored : Stored st n)
      (hprops : DistinctNames n.properties) : Binds env floatText st (bindMergedNode rec x none n) x n.properties
  /-- An end of a relationship of a MERGE without an input. -/
  | mergedEnd {rec : NamedRecord} {x : String} {n : Node} (hfresh : Bare rec x) (hstored : Stored st n) :
    Binds env floatText st (bindEnd rec (some x) n.id) x n.properties
  /-- A relationship found or made by MERGE. -/
  | mergedEdge {rec : NamedRecord} {x : String} (hfresh : Bare rec x) (e : MergedEdge)
      (hprops : DistinctNames (e.properties st)) :
    Binds env floatText st (bindMergedEdge rec (some x) e st) x (e.properties st)
  /-- An element of a list that a comprehension or a quantifier runs over. -/
  | element {rec : NamedRecord} {x : String} {v : Value} {props : Properties} (hfresh : Bare rec x)
      (hentity : HasProps props v) : Binds env floatText st (rec.set x v) x props
  /-- An unwound element of a list. -/
  | unwound {rec : NamedRecord} {x : String} {v : Value} {props : Properties} (hfresh : Bare rec x)
      (hentity : HasProps props v) (hprops : DistinctNames props) : Binds env floatText st (unwindRow rec x v) x props
  /-- A variable in a row that has more fields. -/
  | other {row : NamedRecord} {x key : String} {props : Properties} (value : Value)
      (hbound : Binds env floatText st row x props) (hself : key≠x) (hdotted : ∀ field,key≠x++("."++field)) :
    Binds env floatText st (row.set key value) x props
  /-- A variable under the name that WITH gives it. -/
  | carried {rec row : NamedRecord} {x y : String} {props : Properties} {keeps : NamedRecord → String → Bool}
      {value : NamedRecord → ReturnItem S → Result Value} {items earlier later : List (ReturnItem S)}
      {item : ReturnItem S} (hbound : Binds env floatText st rec x props) (hitems : items=earlier++item::later)
      (hexpr : item.expr=.var x) (hcolumn : columnNameForItem floatText item=y)
      (hothers : ∀ other∈earlier++later,isStar other.expr=false ∧ Apart y (columnNameForItem floatText other))
      (hnames : DistinctNames rec.fields)
      (hrun : projectRow env floatText st keeps value items false rec=.ok row) : Binds env floatText st row y props

variable {env : EvalEnv S} {floatText : UInt64 → String} {st : Store} {row : NamedRecord} {x : String}
  {props : Properties}

theorem shown_congr {other : NamedRecord} {y : String} (h : Shown row x props) (hself : other.get y=row.get x)
    (hfields : ∀ key,other.get (y++("."++key))=row.get (x++("."++key))) : Shown other y props := by
  refine ⟨?_,?_,?_⟩
  · have hvalue := h.value
    unfold Carries at hvalue ⊢
    rw [hself]
    exact hvalue
  · intro key w hkey hget
    rw [hfields] at hget
    exact h.sound key w hkey hget
  · cases h.covers with
    | inl hcovers =>
      left
      intro key hget
      rw [hfields] at hget
      exact hcovers key hget
    | inr hbare =>
      right
      intro key
      rw [hfields]
      exact hbare key

theorem shown_of_fields (hvalue : (∃ id,row.get x=some (.i64 id)) ∨ (∃ label,row.get x=some (.string label)) ∨
      Carries row x props)
    (hvisible : ∀ key,isInternal key=false → row.get (x++("."++key))=getProp props key)
    (hcovers : ∀ key,row.get (x++("."++key))=none → getProp props key=none) : Shown row x props :=
  ⟨hvalue,fun key _ hkey hget => (hvisible key hkey).symm.trans hget,.inl hcovers⟩

/-- A variable with a value and no field but metadata. -/
structure MetadataOnly (row : NamedRecord) (x : String) (v : Value) : Prop where
  /-- The variable itself. -/
  self : row.get x=some v
  /-- No field without an internal name. -/
  internal : ∀ key,isInternal key=false → row.get (x++("."++key))=none

variable {rec : NamedRecord} {v : Value} {base : NamedRecord}

theorem metadataOnly_set (h : Bare rec x) (v : Value) : MetadataOnly (rec.set x v) x v :=
  ⟨get_set_self rec x v,fun key _ => by rw [get_set_ne (dotted_ne_self x key),h]⟩

theorem MetadataOnly.set (h : MetadataOnly row x v) (name : String) (hname : isInternal name=true) (w : Value) :
    MetadataOnly (row.set (x++("."++name)) w) x v := by
  refine ⟨?_,fun key hkey => ?_⟩
  · rw [get_set_ne (dotted_ne_self x name).symm]
    exact h.self
  · have hne : x++("."++key)≠x++("."++name) := by
      intro heq
      rw [dotted_inj.mp heq,hname] at hkey
      cases hkey
    rw [get_set_ne hne]
    exact h.internal key hkey

theorem get_foldl_props (hprops : DistinctNames props) (key : String) :
    (props.foldl (fun rec entry => rec.set (x++("."++entry.1)) entry.2) rec).get (x++("."++key))=
    (getProp props key).or (rec.get (x++("."++key))) := by
  cases hget : getProp props key with
  | some w => exact get_foldl_set hprops (mem_of_getProp hget)
  | none =>
    have hout : x++("."++key)∉props.map fun entry => x++("."++entry.1) := by
      intro hin
      have ⟨entry,hentry,heq⟩ := List.mem_map.mp hin
      have hkey : entry=(key,entry.2) := Prod.ext (dotted_inj.mp heq) rfl
      rw [hkey] at hentry
      exact not_mem_of_getProp_none hget entry.2 hentry
    rw [get_foldl_set_other hout,Option.none_or]

theorem shown_of_metadata (hbase : MetadataOnly base x v)
    (hkind : (∃ id,v=.i64 id) ∨ (∃ label,v=.string label) ∨ HasProps props v) (hself : row.get x=base.get x)
    (hfields : ∀ key,row.get (x++("."++key))=(getProp props key).or (base.get (x++("."++key)))) : Shown row x props := by
  have hget : row.get x=some v := hself.trans hbase.self
  apply shown_of_fields
  · cases hkind with
    | inl hid =>
      have ⟨id,heq⟩ := hid
      exact .inl ⟨id,by rw [hget,heq]⟩
    | inr hrest =>
      cases hrest with
      | inl htext =>
        have ⟨label,heq⟩ := htext
        exact .inr (.inl ⟨label,by rw [hget,heq]⟩)
      | inr hentity => exact .inr (.inr ⟨v,hget,hentity⟩)
  · intro key hkey
    rw [hfields,hbase.internal key hkey,Option.or_none]
  · intro key hnone
    rw [hfields] at hnone
    exact (Option.or_eq_none_iff.mp hnone).1

theorem shown_of_foldl (hbase : MetadataOnly base x v)
    (hkind : (∃ id,v=.i64 id) ∨ (∃ label,v=.string label) ∨ HasProps props v) (hprops : DistinctNames props) :
    Shown (props.foldl (fun rec entry => rec.set (x++("."++entry.1)) entry.2) base) x props := by
  have hout : x∉props.map fun entry => x++("."++entry.1) := by
    intro hin
    have ⟨entry,_,heq⟩ := List.mem_map.mp hin
    exact dotted_ne_self x entry.1 heq
  exact shown_of_metadata hbase hkind (get_foldl_set_other hout) (get_foldl_props hprops)

theorem shown_of_bindProperties (hbase : MetadataOnly base x v)
    (hkind : (∃ id,v=.i64 id) ∨ (∃ label,v=.string label) ∨ HasProps props v) :
    Shown (bindProperties base x props) x props :=
  shown_of_metadata hbase hkind (get_bindProperties_other fun p => (dotted_ne_self x p).symm)
    (fun key => get_bindProperties_dotted base x key props)

theorem metadataOnly_edge (h : Bare rec x) (v : Value) (src dst : Value) (label : Value) :
    MetadataOnly ((((rec.set x v).set (x++".__src") src).set (x++".__dst") dst).set (x++".__type") label) x v := by
  have hsource := (metadataOnly_set h v).set "__src" (by decide) src
  have htarget := hsource.set "__dst" (by decide) dst
  exact htarget.set "__type" (by decide) label

theorem getProp_of_nodeField_none {n : Node} {key : String} (h : nodeField n key=none) :
    getProp n.properties key=none := by
  unfold nodeField at h
  split_ifs at h
  exact h

theorem get_overlay_distinct {other : NamedRecord} (h : DistinctNames other.fields) (rec : NamedRecord)
    (name : String) : (NamedRecord.overlay rec other).get name=(other.get name).or (rec.get name) := by
  have hlast : ∀ fields : List (String×Value),DistinctNames fields → lastValue name fields=getProp fields name := by
    intro fields
    induction fields with
    | nil => exact fun _ => rfl
    | cons field rest ih =>
      intro hnames
      have ⟨hnew,hrest⟩ := List.nodup_cons.mp hnames
      rw [lastValue,ih hrest,getProp_cons]
      by_cases hname : field.1=name
      · have habsent : getProp rest name=none := by
          cases hget : getProp rest name with
          | none => rfl
          | some w =>
            rw [←hname] at hget
            exact absurd (List.mem_map_of_mem (mem_of_getProp hget)) hnew
        rw [habsent,if_pos hname]
        rfl
      · rw [if_neg hname,Option.or_none,if_neg hname]
  have hrun : NamedRecord.overlay rec other=setAll rec other.fields := rfl
  rw [hrun,get_setAll,hlast other.fields h]
  rfl

theorem shown_of_binds (h : Binds env floatText st row x props) : Shown row x props := by
  induction h with
  | @matchedNode rec x n hfresh hstored =>
    refine shown_of_fields (.inl ⟨_,get_populateNodeBindings_self rec n x⟩) ?_ ?_
    · intro key hkey
      rw [get_populated_visible hkey,hfresh,Option.or_none]
    · intro key hnone
      rw [get_populateNodeBindings_dotted] at hnone
      exact getProp_of_nodeField_none (Option.or_eq_none_iff.mp hnone).1
  | @matchedEdge rec x hfresh e seq =>
    have hbase := metadataOnly_edge hfresh (.string e.label) (.i64 e.src.toInt64) (.i64 e.dst.toInt64) (.string e.label)
    cases seq with
    | none => exact shown_of_bindProperties hbase (.inr (.inl ⟨e.label,rfl⟩))
    | some seq =>
      have hseq := hbase.set "__edge_seq" (by decide) (.i64 seq.toInt64)
      exact shown_of_bindProperties hseq (.inr (.inl ⟨e.label,rfl⟩))
  | @createdNode s x n hfresh hstored hprops =>
    have hbase := (metadataOnly_set hfresh (.i64 n.id.toInt64)).set "__id" (by decide) (.i64 n.id.toInt64)
    exact shown_of_foldl hbase (.inl ⟨n.id.toInt64,rfl⟩) hprops
  | @createdEdge s x hfresh e hprops =>
    have hbase := metadataOnly_edge hfresh (.string e.label) (.i64 e.src.toInt64) (.i64 e.dst.toInt64) (.string e.label)
    exact shown_of_foldl hbase (.inr (.inl ⟨e.label,rfl⟩)) hprops
  | @mergedNode rec x n hfresh hstored hprops =>
    have hbase := (metadataOnly_set hfresh (.i64 n.id.toInt64)).set "__id" (by decide) (.i64 n.id.toInt64)
    exact shown_of_foldl hbase (.inl ⟨n.id.toInt64,rfl⟩) hprops
  | @mergedEnd rec x n hfresh hstored =>
    have hbare : ∀ key,(bindEnd rec (some x) n.id).get (x++("."++key))=none := by
      intro key
      have hset : (rec.set x (.i64 n.id.toInt64)).get (x++("."++key))=none := by
        rw [get_set_ne (dotted_ne_self x key),hfresh]
      exact hset
    exact ⟨.inl ⟨n.id.toInt64,get_set_self rec x _⟩,fun key w _ hget => (by rw [hbare] at hget; cases hget),.inr hbare⟩
  | @mergedEdge rec x hfresh e hprops =>
    have hbase := metadataOnly_edge hfresh (.string e.label) (.i64 e.src.toInt64) (.i64 e.dst.toInt64) (.string e.label)
    rw [bindMergedEdge]
    cases hseq : e.seq with
    | none => exact shown_of_foldl hbase (.inr (.inl ⟨e.label,rfl⟩)) hprops
    | some seq =>
      have hmore := hbase.set "__edge_seq" (by decide) (.i64 seq.toInt64)
      exact shown_of_foldl hmore (.inr (.inl ⟨e.label,rfl⟩)) hprops
  | @element rec x v props hfresh hentity =>
    have hbare : ∀ key,(rec.set x v).get (x++("."++key))=none := by
      intro key
      rw [get_set_ne (dotted_ne_self x key),hfresh]
    exact ⟨.inr (.inr ⟨v,get_set_self rec x v,hentity⟩),fun key w _ hget => (by rw [hbare] at hget; cases hget),
      .inr hbare⟩
  | @unwound rec x v props hfresh hentity hprops =>
    cases hentity with
    | inl hnode =>
      obtain ⟨n,heq,hsame⟩ := hnode
      rw [heq,←hsame]
      have hnames : DistinctNames (nodeToRecord n x).fields :=
        distinct_populateNodeBindings (show DistinctNames [] from List.nodup_nil) n x
      have hget : ∀ name,(NamedRecord.overlay rec (nodeToRecord n x)).get name=
          ((nodeToRecord n x).get name).or (rec.get name) := fun name => get_overlay_distinct hnames rec name
      have hfield : ∀ key,(unwindRow rec x (.node n)).get (x++("."++key))=nodeField n key := by
        intro key
        have hrow : (nodeToRecord n x).get (x++("."++key))=nodeField n key := by
          rw [nodeToRecord,get_populateNodeBindings_dotted]
          exact Option.or_none
        exact (hget _).trans (by rw [hrow,hfresh,Option.or_none])
      refine shown_of_fields (.inl ⟨n.id.toInt64,?_⟩) ?_ ?_
      · have hself : (nodeToRecord n x).get x=some (.i64 n.id.toInt64) := get_populateNodeBindings_self _ n x
        exact (hget x).trans (by rw [hself]; rfl)
      · intro key hkey
        rw [hfield]
        exact nodeField_visible hkey
      · intro key hnone
        rw [hfield] at hnone
        exact getProp_of_nodeField_none hnone
    | inr hedge =>
      obtain ⟨e,heq,hsame⟩ := hedge
      rw [heq,←hsame]
      rw [←hsame] at hprops
      have hbase := metadataOnly_edge hfresh (.edge e) (.i64 e.src.toInt64) (.i64 e.dst.toInt64) (.string e.label)
      exact shown_of_foldl hbase (.inr (.inr (.inr ⟨e,rfl,rfl⟩))) hprops
  | @other row x key props value hbound hself hdotted ih =>
    exact shown_congr ih (get_set_ne hself.symm) fun field => get_set_ne (hdotted field).symm
  | @carried rec row x y props keeps value items earlier later item hbound hitems hexpr hcolumn hothers hnames hrun ih =>
    have hpresent : (rec.get x).isSome=true := by
      obtain ⟨w,hget,_⟩ := value_kind ih
      rw [hget]
      rfl
    obtain ⟨hself,hfields⟩ := carried_fields hitems hexpr hcolumn hothers hnames hpresent hrun
    exact shown_congr ih hself fun key => by rw [get_dotted,get_dotted,hfields]

end Bindings

/-- The row that `CREATE (n:A {x: 1})` returns. -/
def createdRow : NamedRecord := ⟨[("n",.i64 1),("n.__id",.i64 1),("n.x",.i64 1)]⟩

end GraphDbLite.PropertyReads
