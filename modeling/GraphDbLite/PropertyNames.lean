import GraphDbLite.Projection

/-!
# Property names and metadata

A node is bound to a variable as flat fields: its properties and its metadata stand
side by side under the variable, the metadata under names that start with two
underscores. A property may have such a name too. Every reader of the variable looks
for the fields it knows: first those of a relationship, then those of a node. The
readers take the variable for the stored node exactly when no property has a name
of that form and the row has no other field under the variable that they read.
-/

namespace GraphDbLite.PropertyNames

open ByteStrings GraphTypes OrderedTable StatefulActions GraphStore NodeStorage WriteOperators
open CypherSyntax CypherValues CypherEval QueryExecutor NodeRecords Projection

/-- Refusal of an argument of the wrong kind. -/
def invalidArgumentType (funcName : String) (value : Value) : GraphError :=
  .query .typeError .runtime .other (funcName++(": invalid argument type "++valueTypeName value))

/-- Keys of a property map in order. -/
def sortedKeys (props : Properties) : Value :=
  .list (((props.map Prod.fst).insertionSort fun a b => a≤b).map Value.string)

section Functions

variable {S : Type} (env : EvalEnv S) (st : Store)

/-- The variable that a call gets as its first argument. -/
def argVariable (args : List (Expr S)) : Option String := args.head?.bind asVariable

/-- Refuse a function of a variable that is marked as deleted. -/
def refuseDeleted (name : String) (args : List (Expr S)) (rec : NamedRecord) : Result Unit :=
  match argVariable args with
  | none => .ok ()
  | some var =>
    match rec.get (var++".__deleted") with
    | some (.bool true) =>
      .error (.query .entityNotFound .runtime .other
        ("DeletedEntityAccess: cannot call "++(name++("() on deleted entity `"++(var++ "`")))))
    | _ => .ok ()

/-- Keys of a variable from the stored node, a relationship or a map. -/
def keysField (rec : NamedRecord) (var : String) : Option Value :=
  match storedNode st rec var with
  | some n => some (sortedKeys n.properties)
  | none =>
    match (rec.get (var++".__type")).isSome && (rec.get (var++".__src")).isSome,
        buildCompoundBinding rec var with
    | true,some (.edge e) => some (sortedKeys e.properties)
    | _,_ =>
      match rec.get var with
      | some (.map entries) => some (sortedKeys entries)
      | _ => none

/-- Keys of a value. -/
def keysOfValue : Value → Result Value
  | .node n => .ok (sortedKeys n.properties)
  | .edge e => .ok (sortedKeys e.properties)
  | .map entries => .ok (sortedKeys entries)
  | .i64 id => (getNode st id.toUInt64).map fun n => sortedKeys n.properties
  | _ => .ok .null

/-- The function `keys`. -/
def evalKeys (args : List (Expr S)) (cells : List Cell) : Cell := fun rec =>
  match (argVariable args).bind (keysField st rec) with
  | some keys => .ok keys
  | none => evalSingleArg cells rec >>= keysOfValue st

/-- Labels of a variable from its list field or the stored node. -/
def labelsField (rec : NamedRecord) (var : String) : Option Value :=
  match rec.get (var++".__labels") with
  | some (.list labels) => some (.list labels)
  | _ =>
    match (rec.get (var++".__id")).or (rec.get var) with
    | some (.i64 id) => (getNode st id.toUInt64).toOption.map fun n => labelList n.labels
    | _ => none

/-- Labels of a value. -/
def labelsOfValue : Value → Result Value
  | .node n => .ok (labelList n.labels)
  | .null => .ok .null
  | other => .error (invalidArgumentType "labels()" other)

/-- The function `labels`. -/
def evalLabels (args : List (Expr S)) (cells : List Cell) : Cell := fun rec =>
  match (argVariable args).bind (labelsField st rec) with
  | some labels => .ok labels
  | none => evalSingleArg cells rec >>= labelsOfValue

/-- Type of a variable from its field or the flat record of a relationship. -/
def typeField (rec : NamedRecord) (var : String) : Option Value :=
  match rec.get (var++".__type") with
  | some (.string label) => some (.string label)
  | _ =>
    match rec.get var with
    | some .null => some .null
    | some (.string label) => if (rec.get (var++".__src")).isSome=true then some (.string label) else none
    | _ => none

/-- Type of a value. -/
def typeOfValue : Value → Result Value
  | .edge e => .ok (.string e.label)
  | .null => .ok .null
  | other => .error (invalidArgumentType "type()" other)

/-- The function `type`. -/
def evalType (args : List (Expr S)) (cells : List Cell) : Cell := fun rec =>
  match (argVariable args).bind (typeField rec) with
  | some label => .ok label
  | none => evalSingleArg cells rec >>= typeOfValue

/-- Property map of a variable from its fields. -/
def propertiesField (rec : NamedRecord) (var : String) : Option Value :=
  match buildCompoundBinding rec var with
  | some (.node n) => some (.map n.properties)
  | some (.edge e) => some (.map e.properties)
  | some _ => some .null
  | none =>
    match rec.get var with
    | some .null => some .null
    | _ => none

/-- Property map of a value. -/
def propertiesOfValue : Value → Result Value
  | .node n => .ok (.map n.properties)
  | .edge e => .ok (.map e.properties)
  | .map entries => .ok (.map entries)
  | .null => .ok .null
  | other => .error (invalidArgumentType "properties()" other)

/-- The function `properties`. -/
def evalPropertyMap (args : List (Expr S)) (cells : List Cell) : Cell := fun rec =>
  match (argVariable args).bind (propertiesField rec) with
  | some entries => .ok entries
  | none => evalSingleArg cells rec >>= propertiesOfValue

/-- The functions of an entity; names are compared without case and a deleted entity has
no labels, keys and properties. -/
def evalEntityCall (name : String) (args : List (Expr S)) (originalText : Option String) : Cell :=
  let cells := evalExprs env st args
  fun rec =>
    if asciiLower name = "labels" then refuseDeleted name args rec >>= fun _ => evalLabels st args cells rec
    else if asciiLower name = "keys" then refuseDeleted name args rec >>= fun _ => evalKeys st args cells rec
    else if asciiLower name = "properties" then
      refuseDeleted name args rec >>= fun _ => evalPropertyMap args cells rec
    else if asciiLower name = "type" then evalType args cells rec
    else evalFunctionCall env st name args cells originalText rec

end Functions

section Statements

variable {E : Type} (env : ExecEnv E)

/-- One assignment of a SET clause to a node. -/
def assignToNode (id : NodeId) (rec : NamedRecord) (a : Assignment E) : Db NamedRecord := do
  let old ← inspect fun st => getNode st id
  let val ← inspect fun st => env.eval st a.value rec
  inspect fun _ => validatePropertyValue val
  setIndexedProperty env id old a.property val
  pure (showProperty rec a.var a.property val)

/-- One item of a REMOVE clause on a node. -/
def removeFromNode (id : NodeId) (rec : NamedRecord) (var property : String) : Db NamedRecord := do
  let old ← inspect fun st => getNode st id
  removeIndexedProperty env id old property
  pure (rec.remove (var++("."++property)))

end Statements

/-- A variable of a row that every reader takes for a node with its properties. -/
structure TreatedAsNode {S E : Type} (env : EvalEnv S) (writes : ExecEnv E) (st : Store) (row : NamedRecord)
    (n : Node) (var : String) : Prop where
  /-- The variable has the value of the node. -/
  value : ∃ bound : Node,evalExpr env st (.var var) row=.ok (.node bound) ∧ bound.id=n.id ∧
    bound.labels=n.labels ∧ ∀ key,getProp bound.properties key=getProp n.properties key
  /-- Its identifier. -/
  identifier : ∀ name originalText,asciiLower name = "id" →
    evalEntityCall env st name [.var var] originalText row=.ok (.i64 n.id.toInt64)
  /-- Its labels. -/
  labels : ∀ name originalText,asciiLower name = "labels" →
    evalEntityCall env st name [.var var] originalText row=.ok (labelList n.labels)
  /-- Its property map. -/
  properties : ∀ name originalText,asciiLower name = "properties" →
    ∃ entries,evalEntityCall env st name [.var var] originalText row=.ok (.map entries) ∧
      ∀ key,getProp entries key=getProp n.properties key
  /-- The keys of its property map. -/
  keys : ∀ name originalText,asciiLower name = "keys" →
    evalEntityCall env st name [.var var] originalText row=.ok (sortedKeys n.properties)
  /-- It has no relationship type. -/
  untyped : ∀ name originalText,asciiLower name = "type" →
    evalEntityCall env st name [.var var] originalText row=.error (invalidArgumentType "type()" (.node n))
  /-- Label predicates test its labels. -/
  hasLabel : ∀ labels,evalExpr env st (.hasLabel var labels) row=
    .ok (.bool (labels.all fun l => l∈n.labels))
  /-- SET of a property writes to the node. -/
  assigned : ∀ property value,setPropertyItem writes row ⟨var,property,value⟩=
    assignToNode writes n.id row ⟨var,property,value⟩
  /-- SET of the property map writes to the node. -/
  mapped : ∀ expr merge,setPropertiesRecord writes var expr merge row=
    setNodeMap writes row var n.id expr merge
  /-- REMOVE of a property writes to the node. -/
  removed : ∀ property,removeItem writes row (.property var property)=
    removeFromNode writes n.id row var property
  /-- DELETE collects the node. -/
  collected : ∀ targets,collectVarEntities row var targets={targets with nodes := targets.nodes++[n.id]}

/-- A name is read as the property of the node, null when the node does not have it. -/
structure ReadsProperty {S : Type} (env : EvalEnv S) (st : Store) (row : NamedRecord) (n : Node)
    (var property : String) : Prop where
  /-- By property access. -/
  access : evalExpr env st (.property var property) row=.ok (propOrNull n.properties property)
  /-- By an index with the name. -/
  index : evalExpr env st (.index (.var var) (.literal (.string property))) row=
    .ok (propOrNull n.properties property)

/-- No property of a node, no field of the row and not the name that is read meet the
metadata under a variable. -/
structure NamesApart (rec : NamedRecord) (n : Node) (var property : String) : Prop where
  /-- No property has an internal name. -/
  keys : ∀ key,isInternal key=true → getProp n.properties key=none
  /-- No label has the separator of the joined labels. -/
  labels : ∀ label∈n.labels,':' ∉ label.toList
  /-- The empty label is not the only one. -/
  nonempty : n.labels≠[""]
  /-- Fields that the row already has under the variable are written again. -/
  fresh : ∀ key,isInternal key=false → (rec.get (var++("."++key))).isSome=true →
    (getProp n.properties key).isSome=true
  /-- The row has no relationship under the variable. -/
  notEdge : edgeIdentity rec var=none
  /-- The row has no deletion mark under the variable. -/
  notDeleted : rec.get (var++".__deleted")≠some (.bool true)
  /-- The row has no relationship type under the variable. -/
  untyped : ∀ label,rec.get (var++".__type")≠some (.string label)
  /-- An internal name that is read is not a metadata field of a node and has no value. -/
  internal : isInternal property=true → property∉["__id","__label","__labels"] ∧
    (rec.get (var++("."++property))).getD .null=.null
  /-- The name that stands for the labels is a property of the node. -/
  labelsName : property = "labels" → (getProp n.properties property).isSome=true

section Fields

/-- A property of the entity under a variable is a field without an internal name. -/
theorem getProp_boundProperties (rec : NamedRecord) (var key : String) :
    getProp (boundProperties rec var) key=
      if isInternal key=true then none else rec.get (var++("."++key)) := by
  rw [boundProperties_eq,getProp_filter_key (fun key => (stripPrefix "__" key).isNone),get_dotted]
  unfold isInternal
  cases stripPrefix "__" key <;> rfl

/-- The labels are recovered from their joined text exactly when none has the separator and
the empty label is not the only one. -/
theorem splitLabels_iff (labels : List String) :
    (if String.intercalate ":" labels = "" then [] else splitOnChar ':' (String.intercalate ":" labels))=labels ↔
      (∀ label∈labels,':' ∉ label.toList) ∧ labels≠[""] := by
  have hsep : ":" = String.ofList [':'] := by decide
  constructor
  · intro h
    split_ifs at h with hempty
    · rw [←h]
      exact ⟨fun _ hlabel => absurd hlabel List.not_mem_nil,by simp⟩
    · constructor
      · intro label hlabel
        rw [←h] at hlabel
        exact not_mem_of_mem_splitOnChar hlabel
      · intro hone
        rw [hone] at hempty
        exact hempty (by decide)
  · intro h
    have ⟨hlabels,hone⟩ := h
    cases hlist : labels with
    | nil => rw [if_pos (by decide)]
    | cons first rest =>
      rw [hlist] at hlabels hone
      have hjoin := splitOnChar_intercalate (List.cons_ne_nil first rest) hlabels
      rw [←hsep] at hjoin
      split_ifs with hempty
      · rw [hempty] at hjoin
        have hblank : splitOnChar ':' "" = [""] := by decide
        rw [hblank] at hjoin
        exact absurd hjoin.symm hone
      · exact hjoin

end Fields

section Binding

variable {S E : Type} {env : EvalEnv S} {writes : ExecEnv E} {st : Store} {rec : NamedRecord} {n : Node}
  {var : String}

theorem get_populated_internal (h : ∀ key,isInternal key=true → getProp n.properties key=none) {key : String}
    (hkey : isInternal key=true) (hfield : key∉["__id","__label","__labels"]) :
    (populateNodeBindings rec n var).get (var++("."++key))=rec.get (var++("."++key)) := by
  have hnone : nodeField n key=none := by
    unfold nodeField
    simp only [List.mem_cons,List.not_mem_nil,or_false,not_or] at hfield
    rw [if_neg hfield.1,if_neg hfield.2.2,if_neg hfield.2.1,h key hkey]
  rw [get_populateNodeBindings_dotted,hnone,Option.none_or]

theorem nodeField_visible {key : String} (hkey : isInternal key=false) : nodeField n key=getProp n.properties key := by
  unfold nodeField
  rw [if_neg,if_neg,if_neg]
  all_goals
    intro heq
    rw [heq] at hkey
    exact absurd hkey (by decide)

theorem get_populated_visible {key : String} (hkey : isInternal key=false) :
    (populateNodeBindings rec n var).get (var++("."++key))=
      (getProp n.properties key).or (rec.get (var++("."++key))) := by
  rw [get_populateNodeBindings_dotted,nodeField_visible hkey]

theorem get_populated_id : (populateNodeBindings rec n var).get (var++".__id")=some (.i64 n.id.toInt64) := by
  have hid : ".__id" = "."++"__id" := by decide
  rw [hid,get_populateNodeBindings_dotted]
  rfl

theorem get_populated_label : (populateNodeBindings rec n var).get (var++".__label")=
    some (.string (String.intercalate ":" n.labels)) := by
  have hlabel : ".__label" = "."++"__label" := by decide
  rw [hlabel,get_populateNodeBindings_dotted]
  rfl

theorem get_populated_labels : (populateNodeBindings rec n var).get (var++".__labels")=
    some (labelList n.labels) := by
  have hlabels : ".__labels" = "."++"__labels" := by decide
  rw [hlabels,get_populateNodeBindings_dotted]
  rfl

theorem storedNode_populated (h : Stored st n) : storedNode st (populateNodeBindings rec n var) var=some n := by
  unfold storedNode
  rw [get_populated_id]
  dsimp only
  rw [UInt64.toUInt64_toInt64,h]
  rfl

/-- The node that the fields of a bound node describe. -/
def describedNode (rec : NamedRecord) (n : Node) (var : String) : Node :=
  ⟨n.id,if String.intercalate ":" n.labels = "" then [] else splitOnChar ':' (String.intercalate ":" n.labels),
    boundProperties (populateNodeBindings rec n var) var⟩

theorem buildCompoundBinding_populated : buildCompoundBinding (populateNodeBindings rec n var) var=
    some (((edgeIdentity (populateNodeBindings rec n var) var).map fun identity =>
      Value.edge ⟨identity.1,identity.2.1,identity.2.2,boundProperties (populateNodeBindings rec n var) var⟩).getD
        (.node (describedNode rec n var))) := by
  unfold buildCompoundBinding
  rw [get_populateNodeBindings_self]
  dsimp only
  cases hedge : edgeIdentity (populateNodeBindings rec n var) var with
  | some identity => rfl
  | none =>
    rw [get_populated_id,get_populated_label]
    dsimp only
    rw [UInt64.toUInt64_toInt64]
    rfl

/-- The value of a bound node is a node exactly when its fields describe no relationship. -/
theorem evalVariable_populated_node {bound : Node}
    (h : evalVariable var (populateNodeBindings rec n var)=.ok (.node bound)) :
    edgeIdentity (populateNodeBindings rec n var) var=none ∧ bound=describedNode rec n var := by
  unfold evalVariable at h
  rw [buildCompoundBinding_populated] at h
  cases hedge : edgeIdentity (populateNodeBindings rec n var) var with
  | some identity =>
    rw [hedge] at h
    exact absurd (Except.ok.inj h) (by simp)
  | none =>
    rw [hedge] at h
    exact ⟨rfl,(Value.node.inj (Except.ok.inj h)).symm⟩

/-- Without fields of a relationship the value of a bound node is the described node. -/
theorem buildCompoundBinding_node (h : edgeIdentity (populateNodeBindings rec n var) var=none) :
    buildCompoundBinding (populateNodeBindings rec n var) var=some (.node (describedNode rec n var)) := by
  rw [buildCompoundBinding_populated,h]
  rfl

end Binding


section Treatment

variable {S E : Type} {env : EvalEnv S} {writes : ExecEnv E} {st : Store} {rec : NamedRecord} {n : Node}
  {var : String}

theorem edgeIdentity_populated (h : ∀ key,isInternal key=true → getProp n.properties key=none) :
    edgeIdentity (populateNodeBindings rec n var) var=edgeIdentity rec var := by
  have hsrc : ".__src" = "."++"__src" := by decide
  have hdst : ".__dst" = "."++"__dst" := by decide
  have htype : ".__type" = "."++"__type" := by decide
  unfold edgeIdentity
  rw [hsrc,hdst,htype,get_populated_internal h (by decide) (by decide),
    get_populated_internal h (by decide) (by decide),get_populated_internal h (by decide) (by decide)]

/-- The described properties are those of the node exactly when no property has an
internal name and the other fields of the row are written again. -/
theorem described_properties_iff :
    (∀ key,getProp (describedNode rec n var).properties key=getProp n.properties key) ↔
      (∀ key,isInternal key=true → getProp n.properties key=none) ∧
        ∀ key,isInternal key=false → (rec.get (var++("."++key))).isSome=true →
          (getProp n.properties key).isSome=true := by
  have hdescribed : ∀ key,getProp (describedNode rec n var).properties key=
      if isInternal key=true then none else (populateNodeBindings rec n var).get (var++("."++key)) :=
    fun key => getProp_boundProperties _ var key
  constructor
  · intro h
    constructor
    · intro key hkey
      rw [←h key,hdescribed,if_pos hkey]
    · intro key hkey hrow
      have hsame := h key
      rw [hdescribed,if_neg (by simp [hkey]),get_populated_visible hkey] at hsame
      cases hprop : getProp n.properties key with
      | some v => rfl
      | none =>
        rw [hprop,Option.none_or] at hsame
        rw [hsame] at hrow
        cases hrow
  · intro h key
    have ⟨hkeys,hfresh⟩ := h
    rw [hdescribed]
    by_cases hkey : isInternal key=true
    · rw [if_pos hkey,hkeys key hkey]
    · have hvisible : isInternal key=false := by simpa using hkey
      rw [if_neg hkey,get_populated_visible hvisible]
      cases hprop : getProp n.properties key with
      | some v => rfl
      | none =>
        rw [Option.none_or]
        cases hrow : rec.get (var++("."++key)) with
        | none => rfl
        | some v =>
          have hsome := hfresh key hvisible (by rw [hrow]; rfl)
          rw [hprop] at hsome
          cases hsome

theorem evalProperty_populated (h : Stored st n)
    (hdel : (populateNodeBindings rec n var).get (var++".__deleted")≠some (.bool true)) (property : String) :
    evalProperty env st var property (populateNodeBindings rec n var)=
      .ok (((populateNodeBindings rec n var).get (var++("."++property))).getD (nodeProperty n property)) := by
  unfold evalProperty
  split
  · rename_i heq
    exact absurd heq hdel
  · rw [get_populateNodeBindings_self,storedNode_populated h]
    dsimp only
    cases (populateNodeBindings rec n var).get (var++("."++property)) <;> rfl

/-- A property access that succeeds is on a node that is not marked as deleted. -/
theorem not_deleted_of_access {row : NamedRecord} {property : String} {value : Value}
    (h : evalProperty env st var property row=.ok value) : row.get (var++".__deleted")≠some (.bool true) := by
  intro hdel
  unfold evalProperty at h
  rw [hdel] at h
  cases h

theorem evalIndex_populated (h : Stored st n) (property : String) :
    evalExpr env st (.index (.var var) (.literal (.string property))) (populateNodeBindings rec n var)=
      .ok (((populateNodeBindings rec n var).get (var++("."++property))).getD
        (propOrNull n.properties property)) := by
  have hdynamic : dynamicProperty st (populateNodeBindings rec n var) var property=
      some (((populateNodeBindings rec n var).get (var++("."++property))).getD
        (propOrNull n.properties property)) := by
    unfold dynamicProperty
    rw [get_populateNodeBindings_self,storedNode_populated h]
    dsimp only
    cases (populateNodeBindings rec n var).get (var++("."++property)) <;> rfl
  simp only [evalExpr,asVariable,literalToValue,evalIndex]
  change ((Except.ok (dynamicProperty st (populateNodeBindings rec n var) var property)) >>= _)=_
  rw [hdynamic]
  rfl

/-- A field of a bound node reads as the property exactly when the name is not one of the
metadata fields and, for the name of the labels, the node has the property. -/
theorem fieldValue_iff (hkeys : ∀ key,isInternal key=true → getProp n.properties key=none)
    (hfresh : ∀ key,isInternal key=false → (rec.get (var++("."++key))).isSome=true →
      (getProp n.properties key).isSome=true) (property : String) :
    ((populateNodeBindings rec n var).get (var++("."++property))).getD (nodeProperty n property)=
        propOrNull n.properties property ↔
      (isInternal property=true → property∉["__id","__label","__labels"] ∧
          (rec.get (var++("."++property))).getD .null=.null) ∧
        (property = "labels" → (getProp n.properties property).isSome=true) := by
  by_cases hkey : isInternal property=true
  · have hnull : propOrNull n.properties property=.null := by rw [propOrNull,hkeys property hkey]; rfl
    have hlabels : property≠"labels" := by
      intro heq
      rw [heq] at hkey
      exact absurd hkey (by decide)
    have hnode : nodeProperty n property=.null := by rw [nodeProperty,if_neg hlabels,hnull]
    rw [hnull,hnode]
    by_cases hfield : property∈["__id","__label","__labels"]
    · refine iff_of_false ?_ fun h => (h.1 hkey).1 hfield
      rw [get_populateNodeBindings_dotted]
      simp only [List.mem_cons,List.not_mem_nil,or_false] at hfield
      rcases hfield with heq | heq | heq
      all_goals
        rw [heq]
        simp [nodeField,labelList]
    · rw [get_populated_internal hkeys hkey hfield]
      exact ⟨fun h => ⟨fun _ => ⟨hfield,h⟩,fun heq => absurd heq hlabels⟩,fun h => (h.1 hkey).2⟩
  · have hvisible : isInternal property=false := by simpa using hkey
    have hinternal : (isInternal property=true → property∉["__id","__label","__labels"] ∧
        (rec.get (var++("."++property))).getD .null=.null) := fun htrue => absurd htrue hkey
    rw [and_iff_right hinternal,get_populated_visible hvisible]
    unfold nodeProperty propOrNull
    cases hprop : getProp n.properties property with
    | some v => simp
    | none =>
      have hrow : rec.get (var++("."++property))=none := by
        cases hget : rec.get (var++("."++property)) with
        | none => rfl
        | some v =>
          have hsome := hfresh property hvisible (by rw [hget]; rfl)
          rw [hprop] at hsome
          cases hsome
      rw [hrow]
      split_ifs with hlabels
      · simp [labelList,hlabels]
      · simp [hlabels]

theorem refuseDeleted_ok {row : NamedRecord} (h : row.get (var++".__deleted")≠some (.bool true))
    (name : String) : refuseDeleted name [(.var var : Expr S)] row=.ok () := by
  have harg : argVariable [(.var var : Expr S)]=some var := rfl
  unfold refuseDeleted
  rw [harg]
  dsimp only
  split
  · rename_i heq
    exact absurd heq h
  · rfl

/-- A function that is not refused is of a variable that is not marked as deleted. -/
theorem not_deleted_of_labels {row : NamedRecord} {value : Value}
    (h : evalEntityCall env st "labels" [.var var] none row=.ok value) :
    row.get (var++".__deleted")≠some (.bool true) := by
  intro hdel
  have hrefused : ∃ e,refuseDeleted "labels" [(.var var : Expr S)] row=.error e := by
    have harg : argVariable [(.var var : Expr S)]=some var := rfl
    unfold refuseDeleted
    rw [harg]
    dsimp only
    rw [hdel]
    exact ⟨_,rfl⟩
  have ⟨e,he⟩ := hrefused
  unfold evalEntityCall at h
  rw [if_pos (by decide),he] at h
  cases h

theorem evalHasLabel_populated (labels : List String) :
    evalHasLabel st var labels (populateNodeBindings rec n var)=
      .ok (.bool (labels.all fun l => l∈n.labels)) := by
  unfold evalHasLabel
  rw [get_populateNodeBindings_self,get_populated_labels]
  dsimp only [labelList]
  have hany : ∀ l : String,((n.labels.map Value.string).any (valueEq (.string l)))=decide (l∈n.labels) := by
    intro l
    rw [List.any_map,Bool.eq_iff_iff,List.any_eq_true,decide_eq_true_eq]
    constructor
    · intro h
      have ⟨label,hlabel,heq⟩ := h
      have hsame : l=label := by simpa [valueEq] using heq
      rw [hsame]
      exact hlabel
    · intro hl
      exact ⟨l,hl,by simp [valueEq]⟩
  simp only [hany]

/-- When the fields of a bound node describe no relationship and no deletion, carry no
type and give its labels and properties, every reader takes it for the node. -/
theorem treatedAsNode_populated (h : Stored st n)
    (hedge : edgeIdentity (populateNodeBindings rec n var) var=none)
    (hdel : (populateNodeBindings rec n var).get (var++".__deleted")≠some (.bool true))
    (htype : ∀ label,(populateNodeBindings rec n var).get (var++".__type")≠some (.string label))
    (hlabels : (describedNode rec n var).labels=n.labels)
    (hprops : ∀ key,getProp (describedNode rec n var).properties key=getProp n.properties key) :
    TreatedAsNode env writes st (populateNodeBindings rec n var) n var := by
  have hcompound := buildCompoundBinding_node hedge
  have hvariable : evalVariable var (populateNodeBindings rec n var)=.ok (.node (describedNode rec n var)) := by
    unfold evalVariable
    rw [hcompound]
  have hnode : nodeIdField (populateNodeBindings rec n var) var=some n.id := by
    unfold nodeIdField
    rw [get_populateNodeBindings_self]
    dsimp only
    rw [UInt64.toUInt64_toInt64]
  have harg : argVariable [(.var var : Expr S)]=some var := rfl
  have hrefuse : ∀ name,refuseDeleted name [(.var var : Expr S)] (populateNodeBindings rec n var)=.ok () :=
    fun name => refuseDeleted_ok hdel name
  constructor
  case value => exact ⟨_,hvariable,rfl,hlabels,hprops⟩
  case identifier =>
    intro name originalText hname
    unfold evalEntityCall evalFunctionCall
    rw [if_neg (by rw [hname]; decide),if_neg (by rw [hname]; decide),
      if_neg (by rw [hname]; decide),if_neg (by rw [hname]; decide),if_pos hname]
    unfold evalId
    change (match (populateNodeBindings rec n var).get (var++".__id") with | some (.i64 id) => _ | _ => _)=_
    rw [get_populated_id]
  case labels =>
    intro name originalText hname
    have hfield : labelsField st (populateNodeBindings rec n var) var=some (labelList n.labels) := by
      unfold labelsField
      rw [get_populated_labels]
      rfl
    unfold evalEntityCall evalLabels
    rw [if_pos hname,hrefuse,harg,Option.bind_some,hfield]
    rfl
  case properties =>
    intro name originalText hname
    have hfield : propertiesField (populateNodeBindings rec n var) var=
        some (.map (describedNode rec n var).properties) := by
      unfold propertiesField
      rw [hcompound]
    refine ⟨(describedNode rec n var).properties,?_,hprops⟩
    unfold evalEntityCall evalPropertyMap
    rw [if_neg (by rw [hname]; decide),if_neg (by rw [hname]; decide),if_pos hname,hrefuse,harg,
      Option.bind_some,hfield]
    rfl
  case keys =>
    intro name originalText hname
    have hfield : keysField st (populateNodeBindings rec n var) var=some (sortedKeys n.properties) := by
      unfold keysField
      rw [storedNode_populated h]
    unfold evalEntityCall evalKeys
    rw [if_neg (by rw [hname]; decide),if_pos hname,hrefuse,harg,Option.bind_some,hfield]
    rfl
  case untyped =>
    intro name originalText hname
    have hfield : typeField (populateNodeBindings rec n var) var=none := by
      unfold typeField
      rw [get_populateNodeBindings_self]
      split
      · rename_i label heq
        exact absurd heq (htype label)
      · rfl
    unfold evalEntityCall evalType
    rw [if_neg (by rw [hname]; decide),if_neg (by rw [hname]; decide),
      if_neg (by rw [hname]; decide),if_pos hname,harg,Option.bind_some,hfield]
    simp only [evalExprs,evalExpr,evalSingleArg]
    rw [hvariable]
    rfl
  case hasLabel =>
    intro labels
    simp only [evalExpr]
    exact evalHasLabel_populated labels
  case assigned =>
    intro property value
    unfold setPropertyItem
    rw [hedge,hnode]
    rfl
  case mapped =>
    intro expr merge
    unfold setPropertiesRecord
    rw [hedge,hnode]
  case removed =>
    intro property
    unfold removeItem
    dsimp only
    rw [hedge,hnode]
    rfl
  case collected =>
    intro targets
    unfold collectVarEntities
    rw [hedge,hnode]

end Treatment

/-- The database after `CREATE (:A {x: 1})`. -/
def plainNodeStore : Store := (execCreateNode literalEnv ["A"] none [("x",.i64 1)] freshStore).2

/-- Its node. -/
def plainNode : Node := ⟨1,["A"],[("x",.i64 1)]⟩

/-- The database after `CREATE ({__src: 1, __dst: 1, __type: 'R'})` and
`CREATE ({__deleted: true})`. -/
def disguisedStore : Store :=
  (execCreateNode literalEnv [] none [("__deleted",.bool true)]
    (execCreateNode literalEnv [] none [("__src",.i64 1),("__dst",.i64 1),("__type",.string "R")]
      freshStore).2).2

/-- The node with properties named like the fields of a relationship. -/
def disguisedNode : Node := ⟨1,[],[("__type",.string "R"),("__dst",.i64 1),("__src",.i64 1)]⟩

/-- The node with a property named like the deletion mark. -/
def markedNode : Node := ⟨2,[],[("__deleted",.bool true)]⟩

end GraphDbLite.PropertyNames
