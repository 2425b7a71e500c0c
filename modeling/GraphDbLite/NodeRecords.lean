import GraphDbLite.QueryExecutor
import GraphDbLite.NodeView

/-!
# Fields of records

What a field of a record holds after the writes of the executor: one field, the
fields of a node, the fields of another record. On the record of a stored node a
property access reads the property, the label list or the identifier, and fails
only when the node has a property that marks it as deleted.
-/

namespace GraphDbLite.NodeRecords

open GraphTypes OrderedTable GraphStore NodeStorage WriteOperators
open CypherEval QueryExecutor

theorem append_text_inj {front p q : String} : front++p=front++q ↔ p=q := by
  constructor
  · intro h
    have hlist := congrArg String.toList h
    rw [String.toList_append,String.toList_append] at hlist
    exact String.toList_inj.mp (List.append_cancel_left hlist)
  · intro h
    rw [h]

theorem dotted_inj {var p q : String} : var++("."++p)=var++("."++q) ↔ p=q :=
  append_text_inj.trans append_text_inj

theorem dotted_ne_self (var p : String) : var++("."++p)≠var := by
  intro h
  have hlen := congrArg (fun text => text.toList.length) h
  simp only [String.toList_append,List.length_append] at hlen
  have hdot : ".".toList.length=1 := by decide
  omega

theorem getProp_map_replace (fields : List (String×Value)) (key name : String) (value : Value)
    (h : (getProp fields key).isSome=true) :
    getProp (fields.map fun field => if field.1=key then (key,value) else field) name=
      if name=key then some value else getProp fields name := by
  by_cases hn : name=key
  · rw [if_pos hn,hn]
    induction fields with
    | nil => cases h
    | cons field rest ih =>
      rw [getProp_cons] at h
      rw [List.map_cons,getProp_cons]
      by_cases hf : field.1=key
      · rw [if_pos hf,if_pos rfl]
      · rw [if_neg hf] at h
        rw [if_neg hf,if_neg hf,ih h]
  · rw [if_neg hn]
    clear h
    induction fields with
    | nil => rfl
    | cons field rest ih =>
      rw [List.map_cons,getProp_cons,getProp_cons,ih]
      by_cases hf : field.1=key
      · rw [if_pos hf,if_neg (Ne.symm hn),if_neg fun hx => hn (hx.symm.trans hf)]
      · rw [if_neg hf]

theorem get_set (rec : NamedRecord) (key name : String) (value : Value) :
    (rec.set key value).get name=if name=key then some value else rec.get name := by
  unfold NamedRecord.set
  by_cases h : (rec.get key).isSome=true
  · rw [if_pos h]
    exact getProp_map_replace rec.fields key name value h
  · rw [if_neg h]
    have hnone : rec.get key=none := by simpa using h
    by_cases hn : name=key
    · rw [if_pos hn,hn]
      unfold NamedRecord.get getProp at hnone ⊢
      rw [Option.map_eq_none_iff] at hnone
      rw [List.find?_append,hnone]
      simp
    · rw [if_neg hn]
      unfold NamedRecord.get getProp
      have hne : ¬key=name := fun heq => hn heq.symm
      rw [List.find?_append]
      simp [hne]

/-- A field just written. -/
@[simp] theorem get_set_self (rec : NamedRecord) (key : String) (value : Value) :
    (rec.set key value).get key=some value := by
  rw [get_set,if_pos rfl]

variable {rec : NamedRecord} {n : Node} {nodeAlias : String} {st : Store}

theorem get_set_ne {key name : String} {value : Value} (h : name≠key) : (rec.set key value).get name=rec.get name := by
  rw [get_set,if_neg h]

theorem get_bindProperties_dotted (rec : NamedRecord) (var p : String) (props : Properties) :
    (bindProperties rec var props).get (var++("."++p))=
      (getProp props p).or (rec.get (var++("."++p))) := by
  unfold bindProperties
  induction props with
  | nil => rfl
  | cons entry rest ih =>
    rw [List.foldr_cons,get_set]
    rw [getProp_cons]
    by_cases hp : entry.1=p
    · rw [if_pos (dotted_inj.mpr hp.symm),if_pos hp]
      rfl
    · rw [if_neg fun heq => hp (dotted_inj.mp heq).symm,ih,if_neg hp]

theorem get_bindProperties_other {var name : String} {props : Properties} (h : ∀ p,name≠var++("."++p)) :
    (bindProperties rec var props).get name=rec.get name := by
  unfold bindProperties
  induction props with
  | nil => rfl
  | cons entry rest ih =>
    rw [List.foldr_cons,get_set_ne (h entry.1),ih]

/-- The dotted field of a node under its variable. -/
def nodeField (n : Node) (p : String) : Option Value :=
  if p = "__id" then some (.i64 n.id.toInt64)
  else if p = "__labels" then some (labelList n.labels)
  else if p = "__label" then some (.string (String.intercalate ":" n.labels))
  else getProp n.properties p

theorem get_populateNodeBindings_dotted (rec : NamedRecord) (n : Node) (nodeAlias p : String) :
    (populateNodeBindings rec n nodeAlias).get (nodeAlias++("."++p))=
      (nodeField n p).or (rec.get (nodeAlias++("."++p))) := by
  have hid : ".__id" = "."++"__id" := by decide
  have hlabels : ".__labels" = "."++"__labels" := by decide
  have hlabel : ".__label" = "."++"__label" := by decide
  unfold populateNodeBindings nodeField
  dsimp only
  rw [hid,hlabels,hlabel,get_set,get_set,get_set,get_bindProperties_dotted,
    get_set_ne (dotted_ne_self nodeAlias p)]
  simp only [dotted_inj]
  split_ifs with h1 h2 h3 <;> rfl

theorem get_populateNodeBindings_self (rec : NamedRecord) (n : Node) (nodeAlias : String) :
    (populateNodeBindings rec n nodeAlias).get nodeAlias=some (.i64 n.id.toInt64) := by
  have hid : ".__id" = "."++"__id" := by decide
  have hlabels : ".__labels" = "."++"__labels" := by decide
  have hlabel : ".__label" = "."++"__label" := by decide
  unfold populateNodeBindings
  dsimp only
  rw [hid,hlabels,hlabel,get_set_ne (dotted_ne_self nodeAlias _).symm,
    get_set_ne (dotted_ne_self nodeAlias _).symm,get_set_ne (dotted_ne_self nodeAlias _).symm,
    get_bindProperties_other fun p => (dotted_ne_self nodeAlias p).symm,get_set_self]

theorem get_populateNodeBindings_other {nodeAlias name : String} (hself : name≠nodeAlias)
    (hdotted : ∀ p,name≠nodeAlias++("."++p)) : (populateNodeBindings rec n nodeAlias).get name=rec.get name := by
  have hid : ".__id" = "."++"__id" := by decide
  have hlabels : ".__labels" = "."++"__labels" := by decide
  have hlabel : ".__label" = "."++"__label" := by decide
  unfold populateNodeBindings
  dsimp only
  rw [hid,hlabels,hlabel,get_set_ne (hdotted _),get_set_ne (hdotted _),get_set_ne (hdotted _),
    get_bindProperties_other hdotted,get_set_ne hself]

theorem get_nodeToRecord_dotted (n : Node) (nodeAlias p : String) :
    (nodeToRecord n nodeAlias).get (nodeAlias++("."++p))=nodeField n p := by
  have hempty : emptyRecord.get (nodeAlias++("."++p))=none := rfl
  rw [nodeToRecord,get_populateNodeBindings_dotted,hempty,Option.or_none]

theorem get_nodeToRecord_self (n : Node) (nodeAlias : String) :
    (nodeToRecord n nodeAlias).get nodeAlias=some (.i64 n.id.toInt64) :=
  get_populateNodeBindings_self emptyRecord n nodeAlias

theorem get_nodeToRecord_other {nodeAlias name : String} (hself : name≠nodeAlias)
    (hdotted : ∀ p,name≠nodeAlias++("."++p)) : (nodeToRecord n nodeAlias).get name=none :=
  get_populateNodeBindings_other hself hdotted

theorem id_of_nodeToRecord {n m : Node} (h : nodeToRecord n nodeAlias=nodeToRecord m nodeAlias) : n.id=m.id := by
  have hn := get_nodeToRecord_self n nodeAlias
  rw [h,get_nodeToRecord_self] at hn
  have hid := Value.i64.inj (Option.some.inj hn)
  have hback := congrArg Int64.toUInt64 hid
  rw [UInt64.toUInt64_toInt64,UInt64.toUInt64_toInt64] at hback
  exact hback.symm

/-- A node as it is stored. -/
def Stored (st : Store) (n : Node) : Prop := getNode st n.id=.ok n

theorem stored_of_getNode {id : NodeId} (h : getNode st id=.ok n) : Stored st n := by
  have ⟨row,_,hn⟩ := getNode_ok h
  have hid : n.id=id := by rw [hn]
  unfold Stored
  rw [hid]
  exact h

theorem Stored.eq_of_record {n m : Node} (hn : Stored st n) (hm : Stored st m)
    (h : nodeToRecord n nodeAlias=nodeToRecord m nodeAlias) : n=m := by
  have hid := id_of_nodeToRecord h
  unfold Stored at hn hm
  rw [hid,hm] at hn
  exact (Except.ok.inj hn).symm

/-- Two sets of stored nodes give the same rows exactly when they are the same. -/
theorem nodeRows_iff {A B : Node → Prop} (hA : ∀ n,A n → Stored st n) (hB : ∀ n,B n → Stored st n) :
    (∀ r,(∃ n,A n ∧ r=nodeToRecord n nodeAlias) ↔ ∃ n,B n ∧ r=nodeToRecord n nodeAlias) ↔ ∀ n,A n ↔ B n := by
  constructor
  · intro h n
    constructor
    · intro hn
      have ⟨m,hm,hrow⟩ := (h (nodeToRecord n nodeAlias)).mp ⟨n,hn,rfl⟩
      rw [(hA n hn).eq_of_record (hB m hm) hrow]
      exact hm
    · intro hn
      have ⟨m,hm,hrow⟩ := (h (nodeToRecord n nodeAlias)).mpr ⟨n,hn,rfl⟩
      rw [(hB n hn).eq_of_record (hA m hm) hrow]
      exact hm
  · intro h r
    simp only [h]

theorem stored_of_mem_findNodesByLabel {label : String} (h : n∈findNodesByLabel st label) : Stored st n := by
  unfold findNodesByLabel at h
  have ⟨⟨id,row⟩,hrow,hn⟩ := List.mem_map.mp h
  have hget := get_eq_some.mpr (List.mem_of_mem_filter hrow)
  rw [←hn]
  unfold Stored getNode getRecord
  dsimp only at hget ⊢
  rw [hget]
  rfl

theorem nodup_scan (st : Store) (label nodeAlias : String) :
    ((findNodesByLabel st label).map fun n => nodeToRecord n nodeAlias).Nodup := by
  have hnodes : (findNodesByLabel st label).Nodup := by
    unfold findNodesByLabel
    refine ((rows_nodup st.nodes).filter _).map_on fun x hx y hy hxy => ?_
    have hid : x.1=y.1 := congrArg (fun n => n.id) hxy
    have hgetx := get_eq_some.mpr (List.mem_of_mem_filter hx)
    have hgety := get_eq_some.mpr (List.mem_of_mem_filter hy)
    rw [hid,hgety] at hgetx
    exact Prod.ext hid (Option.some.inj hgetx).symm
  exact hnodes.map_on fun n hn m hm hrow =>
    (stored_of_mem_findNodesByLabel hn).eq_of_record (stored_of_mem_findNodesByLabel hm) hrow

/-- Whether a node has the property that marks a deleted entity. -/
def markedDeleted (n : Node) : Bool :=
  match getProp n.properties "__deleted" with
  | some (.bool true) => true
  | _ => false

theorem markedDeleted_iff : markedDeleted n=true ↔ getProp n.properties "__deleted"=some (.bool true) := by
  unfold markedDeleted
  split
  · rename_i heq
    simp [heq]
  · rename_i hne
    exact iff_of_false (by simp) hne

/-- What a property access on the record of a node reads. -/
def columnValue (n : Node) (p : String) : Value := (nodeField n p).getD (nodeProperty n p)

theorem nodeField_deleted (n : Node) : nodeField n "__deleted"=getProp n.properties "__deleted" := by
  unfold nodeField
  rw [if_neg (by decide),if_neg (by decide),if_neg (by decide)]

section Access

variable {S : Type} (env : EvalEnv S) {st : Store} {rec : NamedRecord} {n : Node} {nodeAlias : String}

/-- A record that holds a stored node under a variable. -/
structure Holds (st : Store) (rec : NamedRecord) (n : Node) (nodeAlias : String) : Prop where
  /-- The node is stored. -/
  stored : Stored st n
  /-- The variable holds the identifier. -/
  self : rec.get nodeAlias=some (.i64 n.id.toInt64)
  /-- Dotted fields of the node. -/
  fields : ∀ p v,nodeField n p=some v → rec.get (nodeAlias++("."++p))=some v

theorem holds_nodeToRecord (h : Stored st n) (nodeAlias : String) :
    Holds st (nodeToRecord n nodeAlias) n nodeAlias where
  stored := h
  self := get_nodeToRecord_self n nodeAlias
  fields p _ hfield := (get_nodeToRecord_dotted n nodeAlias p).trans hfield

theorem Holds.storedNode (h : Holds st rec n nodeAlias) : storedNode st rec nodeAlias=some n := by
  have hid : ".__id" = "."++"__id" := by decide
  have hfield : nodeField n "__id"=some (.i64 n.id.toInt64) := by
    unfold nodeField
    rw [if_pos rfl]
  have hget := h.fields "__id" _ hfield
  unfold CypherEval.storedNode
  rw [hid,hget]
  dsimp only
  rw [UInt64.toUInt64_toInt64,h.stored]
  rfl

theorem evalProperty_nodeToRecord (h : Stored st n) (nodeAlias p : String) :
    evalProperty env st nodeAlias p (nodeToRecord n nodeAlias)=
      if markedDeleted n=true then
        .error (.query .entityNotFound .runtime .other
          ("DeletedEntityAccess: cannot access property `"++(p++
            ("` on deleted entity `"++(nodeAlias++ "`")))))
      else .ok (columnValue n p) := by
  have hdel : ".__deleted" = "."++"__deleted" := by decide
  unfold evalProperty
  rw [hdel,get_nodeToRecord_dotted,nodeField_deleted]
  by_cases hmark : getProp n.properties "__deleted"=some (.bool true)
  · rw [if_pos (markedDeleted_iff.mpr hmark),hmark]
  · rw [if_neg fun htrue => hmark (markedDeleted_iff.mp htrue)]
    split
    · rename_i heq
      exact absurd heq hmark
    · rw [get_nodeToRecord_self,get_nodeToRecord_dotted,(holds_nodeToRecord h nodeAlias).storedNode]
      dsimp only
      unfold columnValue
      cases nodeField n p with
      | none | some v => rfl

end Access

end GraphDbLite.NodeRecords
