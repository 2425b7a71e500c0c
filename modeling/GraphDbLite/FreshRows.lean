import GraphDbLite.LastWrites
import GraphDbLite.PropertyCopies
import GraphDbLite.Projection

/-!
# Property values that rows serve after writes

The rows of a query keep copies of the properties of the entities that their
variables are bound to, and a property access reads such a copy first. SET and
REMOVE write the database and refresh the copy under the written variable of the
current row only. All rows serve what is stored after every operator exactly
when the last write of each property is already shown by every other variable
that is bound to the same entity, in this row and in the others.
-/

namespace GraphDbLite.FreshRows

open ByteStrings GraphTypes OrderedTable StatefulActions GraphStore NodeView
open WriteOperators CypherEval QueryExecutor NodeRecords IndexAccess RecordFields EdgePropertyFrame
open PropertySetters PropertyCopies LastWrites Projection

/-- Whether the identifier field of a variable agrees with the kind of its entity. -/
def Identified (rec : NamedRecord) (var : String) : Entity → Prop
  | .node _ => rec.get (var++".__id")=rec.get var
  | .edge _ => rec.get (var++".__id")=none

/-- A variable of a row is bound to a stored entity. -/
structure BoundTo (st : Store) (rec : NamedRecord) (var : String) (e : Entity) : Prop where
  /-- Writes to the variable go to the entity. -/
  addressed : entityAt st rec var=some e
  /-- The entity is stored. -/
  stored : (storedOf st e).isSome=true
  /-- The variable was not deleted. -/
  alive : rec.get (var++".__deleted")≠some (.bool true)
  /-- The variable is not null. -/
  present : rec.get var≠some .null
  /-- Its identifier field agrees. -/
  identified : Identified rec var e

/-- A name that a property access on a row means as a property: no metadata, and
not the name under which the labels of a node are read. -/
structure Readable (p : String) : Prop where
  /-- It is no metadata. -/
  noMetadata : isInternal p=false
  /-- It does not read the labels. -/
  notLabels : p≠"labels"

section Reading

/-- Two rows with the same variable and metadata fields. -/
structure SameMetadata (rec rec' : NamedRecord) (var : String) : Prop where
  /-- The same variable. -/
  self : rec'.get var=rec.get var
  /-- The same metadata. -/
  internal : ∀ p,isInternal p=true → rec'.get (var++("."++p))=rec.get (var++("."++p))

theorem SameMetadata.refl (rec : NamedRecord) (var : String) : SameMetadata rec rec var :=
  ⟨rfl,fun _ _ => rfl⟩

theorem SameMetadata.symm {rec rec' : NamedRecord} {var : String} (h : SameMetadata rec rec' var) :
    SameMetadata rec' rec var := ⟨h.self.symm,fun p hp => (h.internal p hp).symm⟩

variable {rec rec' : NamedRecord} {var : String}

theorem SameMetadata.edgeIdentity (h : SameMetadata rec rec' var) :
    edgeIdentity rec' var=edgeIdentity rec var := by
  have hsrc : rec'.get (var++".__src")=rec.get (var++".__src") := h.internal "__src" (by decide)
  have hdst : rec'.get (var++".__dst")=rec.get (var++".__dst") := h.internal "__dst" (by decide)
  have htype : rec'.get (var++".__type")=rec.get (var++".__type") := h.internal "__type" (by decide)
  unfold WriteOperators.edgeIdentity
  rw [hsrc,hdst,htype]

theorem SameMetadata.id (h : SameMetadata rec rec' var) :
    rec'.get (var++".__id")=rec.get (var++".__id") := h.internal "__id" (by decide)

variable {st st' : Store}

theorem SameMetadata.edgeSeqOf (h : SameMetadata rec rec' var) (hkeys : keys st'.edgeProps=keys st.edgeProps)
    (src dst : NodeId) (label : String) : edgeSeqOf rec' var src dst label st'=edgeSeqOf rec var src dst label st := by
  have hseq : rec'.get (var++".__edge_seq")=rec.get (var++".__edge_seq") :=
    h.internal "__edge_seq" (by decide)
  have hfield : edgeSeqField rec' var=edgeSeqField rec var := by
    unfold edgeSeqField
    rw [hseq]
  unfold WriteOperators.edgeSeqOf
  rw [hfield,firstEdgeSeq_congr hkeys]

theorem SameMetadata.entityAt (h : SameMetadata rec rec' var) (hkeys : keys st'.edgeProps=keys st.edgeProps) :
    entityAt st' rec' var=entityAt st rec var := by
  have hrow : ∀ src dst label,addressedRow st' rec' var src dst label=addressedRow st rec var src dst label := by
    intro src dst label
    rw [addressedRow,h.edgeSeqOf hkeys,addressedRow]
  have hnode : nodeIdField rec' var=nodeIdField rec var := by
    unfold nodeIdField
    rw [h.self]
  unfold PropertyCopies.entityAt
  rw [h.edgeIdentity,hnode]
  cases WriteOperators.edgeIdentity rec var with
  | none => rfl
  | some identity =>
    dsimp only
    rw [hrow]

theorem SameMetadata.boundTo (h : SameMetadata rec rec' var) (hkeys : keys st'.edgeProps=keys st.edgeProps)
    (hstored : ∀ e,(storedOf st' e).isSome=(storedOf st e).isSome) {e : Entity} (hbound : BoundTo st rec var e) :
    BoundTo st' rec' var e := by
  have hdeleted : rec'.get (var++".__deleted")=rec.get (var++".__deleted") :=
    h.internal "__deleted" (by decide)
  refine ⟨(h.entityAt hkeys).trans hbound.addressed,(hstored e).trans hbound.stored,?_,?_,?_⟩
  · rw [hdeleted]
    exact hbound.alive
  · rw [h.self]
    exact hbound.present
  · have hidentified := hbound.identified
    cases e with
    | node id =>
      unfold Identified at hidentified ⊢
      rw [h.id,h.self]
      exact hidentified
    | edge key =>
      unfold Identified at hidentified ⊢
      rw [h.id]
      exact hidentified

variable {S : Type} (cypher : EvalEnv S)

theorem SameMetadata.valueProperty (h : SameMetadata rec rec' var) (p : String) :
    valueProperty cypher rec' var p=valueProperty cypher rec var p := by
  have hsrc : rec'.get (var++".__src")=rec.get (var++".__src") := h.internal "__src" (by decide)
  have htype : rec'.get (var++".__type")=rec.get (var++".__type") := h.internal "__type" (by decide)
  unfold CypherEval.valueProperty hasMetadata
  rw [h.self,h.id,hsrc,htype]

/-- A copy, or the place that is read when there is none, shows a value: nodes are
read from the database and relationships from the value of the variable. -/
def Shows (rec : NamedRecord) (var : String) (e : Entity) (p : String) (copy : Option Value)
    (val : Value) : Prop :=
  match copy,e with
  | some v,_ => v=val
  | none,.node _ => True
  | none,.edge _ => valueProperty cypher rec var p=.ok val

theorem SameMetadata.shows (h : SameMetadata rec rec' var) (e : Entity) (p : String)
    (copy : Option Value) (val : Value) :
    Shows cypher rec' var e p copy val ↔ Shows cypher rec var e p copy val := by
  unfold Shows
  cases copy with
  | some v => exact Iff.rfl
  | none =>
    cases e with
    | node id => exact Iff.rfl
    | edge key =>
      dsimp only
      rw [h.valueProperty cypher]

theorem get_of_entityAt_node {st : Store} {id : NodeId} (h : entityAt st rec var=some (.node id)) :
    ∃ n : Int64,rec.get var=some (.i64 n) ∧ n.toUInt64=id := by
  unfold entityAt at h
  cases hedge : edgeIdentity rec var with
  | some identity =>
    rw [hedge] at h
    cases h
  | none =>
    rw [hedge] at h
    have ⟨other,hother,hsame⟩ := Option.map_eq_some_iff.mp h
    have hid : other=id := Entity.node.inj hsame
    unfold nodeIdField at hother
    split at hother
    · rename_i n hget
      exact ⟨n,hget,(Option.some.inj hother).trans hid⟩
    · cases hother

theorem BoundTo.reads_iff {st : Store} {e : Entity} (h : BoundTo st rec var e) {p : String}
    (hp : p≠"labels") :
    evalProperty cypher st var p rec=.ok (propOrNull (propsOf st e) p) ↔
      Shows cypher rec var e p (rec.get (var++("."++p))) (propOrNull (propsOf st e) p) := by
  unfold evalProperty
  split
  · rename_i hdeleted
    exact absurd hdeleted h.alive
  · split
    · rename_i hnull
      exact absurd hnull h.present
    · cases hcopy : rec.get (var++("."++p)) with
      | some v => exact ⟨fun heq => Except.ok.inj heq,fun heq => congrArg Except.ok heq⟩
      | none =>
        dsimp only
        have hidentified := h.identified
        cases e with
        | node id =>
          have ⟨n,hget,hn⟩ := get_of_entityAt_node h.addressed
          have ⟨props,hprops⟩ := Option.isSome_iff_exists.mp h.stored
          have ⟨record,hrecord,_⟩ := Option.map_eq_some_iff.mp hprops
          have hidField : rec.get (var++".__id")=some (.i64 n) := Eq.trans hidentified hget
          have hnode : storedNode st rec var=some ⟨id,record.labels,record.properties⟩ := by
            unfold storedNode
            rw [hidField]
            dsimp only
            rw [hn,getNode_of_recordAt hrecord]
            rfl
          rw [hnode,(propsOf_node hrecord).2]
          dsimp only
          rw [nodeProperty,if_neg hp]
          exact ⟨fun _ => trivial,fun _ => rfl⟩
        | edge key =>
          have hidField : rec.get (var++".__id")=none := hidentified
          have hnode : storedNode st rec var=none := by
            unfold storedNode
            rw [hidField]
          rw [hnode]
          exact Iff.rfl

end Reading

section Runs

variable {E S : Type} (env : ExecEnv E) (cypher : EvalEnv S) (isVariable : String → Prop)

/-- Rows and properties are maps: their names are distinct. -/
structure MapsDistinct (b : Batch Store NamedRecord) : Prop where
  /-- The fields of each row. -/
  rows : ∀ rec∈b.rows,DistinctNames rec.fields
  /-- The stored properties. -/
  props : PropsDistinct b.state

/-- All rows serve what is stored for a property of an entity. -/
def Serves (b : Batch Store NamedRecord) (cell : Entity×String) : Prop :=
  ∀ (i : Nat) rec,b.rows[i]?=some rec → ∀ var,isVariable var → BoundTo b.state rec var cell.1 →
    evalProperty cypher b.state var cell.2 rec=.ok (propOrNull (propsOf b.state cell.1) cell.2)

/-- All rows serve what is stored. -/
def Fresh (b : Batch Store NamedRecord) : Prop :=
  ∀ e p,Readable p → Serves cypher isVariable b (e,p)

/-- A write goes through a variable of the query, to a stored row when it is a
relationship, and to no name that the rows use for metadata. -/
structure Clean (b : Batch Store NamedRecord) (t : Nat×RowWrite E) : Prop where
  /-- The variable. -/
  known : isVariable t.2.var
  /-- The relationship is stored. -/
  inPlace : ∀ rec,b.rows[t.1]?=some rec → InPlaceAt b.state rec t.2.var
  /-- The names are no metadata. -/
  named : ∀ rec done,b.rows[t.1]?=some rec → writing env b.state rec t.2=some done →
    ∀ p∈done.names,isInternal p=false

/-- A write refreshes a property of an entity. -/
def Writes (b : Batch Store NamedRecord) (t : Nat×RowWrite E) (cell : Entity×String) : Prop :=
  ∃ rec done,b.rows[t.1]?=some rec ∧ writing env b.state rec t.2=some done ∧ done.entity=cell.1 ∧
    cell.2∈done.names

/-- Every variable of every row that is bound to the entity of a write shows the
new value: the written one through its refreshed copy, the others through the
copies that they have. -/
def Shared (b : Batch Store NamedRecord) (t : Nat×RowWrite E) (cell : Entity×String) : Prop :=
  ∀ rec done,b.rows[t.1]?=some rec → writing env b.state rec t.2=some done →
    ∀ (i : Nat) other,b.rows[i]?=some other → ∀ var,isVariable var → BoundTo b.state other var cell.1 →
      Shows cypher other var cell.1 cell.2
        (if i=t.1 ∧ var=done.var then getProp done.props cell.2 else other.get (var++("."++cell.2)))
        (propOrNull done.props cell.2)

variable {env cypher isVariable}

theorem dotted_apart {var other : String} (h : Apart var other) (p : String) :
    other++("."++p)≠var ∧ ∀ q,other++("."++p)≠var++("."++q) := by
  have ⟨hself,hunder⟩ := h.under p
  refine ⟨hself,fun q heq => ?_⟩
  rw [heq,←String.append_assoc,stripPrefix_append] at hunder
  cases hunder

variable {done : Writing} {rec rec' : NamedRecord}

theorem sameMetadata_of_writes {st st' : Store} (h : WritesThrough done st rec st' rec')
    (hnames : ∀ p∈done.names,isInternal p=false) {var : String} (hapart : var≠done.var → Apart var done.var) :
    SameMetadata rec rec' var := by
  constructor
  · refine h.refreshes.other var fun p _ heq => ?_
    by_cases hvar : var=done.var
    · rw [hvar] at heq
      exact dotted_ne_self done.var p heq.symm
    · exact (dotted_apart (hapart hvar) p).1 heq.symm
  · intro m hm
    refine h.refreshes.other _ fun p hp heq => ?_
    by_cases hvar : var=done.var
    · rw [hvar] at heq
      have hsame : m=p := dotted_inj.mp heq
      rw [hsame,hnames p hp] at hm
      cases hm
    · exact (dotted_apart (hapart hvar) p).2 m heq.symm

theorem copy_of_writes {st st' : Store} (h : WritesThrough done st rec st' rec') {var : String}
    (hapart : var≠done.var → Apart var done.var) (p : String) : rec'.get (var++("."++p))= if var=done.var ∧
    p∈done.names then getProp done.props p else rec.get (var++("."++p)) := by
  by_cases hboth : var=done.var ∧ p∈done.names
  · rw [if_pos hboth,hboth.1]
    exact h.refreshes.shown p hboth.2
  · rw [if_neg hboth]
    refine h.refreshes.other _ fun q hq heq => ?_
    by_cases hvar : var=done.var
    · rw [hvar] at heq
      have hsame : p=q := dotted_inj.mp heq
      exact hboth ⟨hvar,hsame ▸ hq⟩
    · exact (dotted_apart (hapart hvar) q).2 p heq.symm

theorem serves_after
    (hapart : ∀ var other,isVariable var → isVariable other → var≠other → Apart var other)
    {b b' : Batch Store NamedRecord} {t : Nat×RowWrite E} (hclean : Clean env isVariable b t) (hrow : b.rows[t.1]?=some rec)
    (hdone : writing env b.state rec t.2=some done) (hrows : b'.rows=b.rows.set t.1 rec')
    (hwrites : WritesThrough done b.state rec b'.state rec') {e : Entity} {p : String}
    (hp : Readable p) : Serves cypher isVariable b' (e,p) ↔
      ∀ (i : Nat) other,b.rows[i]?=some other → ∀ var,isVariable var → BoundTo b.state other var e →
        Shows cypher other var e p
          (if i=t.1 ∧ var=done.var ∧ p∈done.names then getProp done.props p
            else other.get (var++("."++p)))
          (propOrNull (propsOf b'.state e) p) := by
  have hvar : done.var=t.2.var := writing_var hdone
  have hknown : isVariable done.var := hvar ▸ hclean.known
  have hnamed := hclean.named rec done hrow hdone
  have hstored : ∀ e,(storedOf b'.state e).isSome=(storedOf b.state e).isSome := hwrites.stored
  have hkeys := hwrites.rewrites.sameEdges
  unfold Serves
  rw [hrows,forall_rows_set hrow]
  refine forall_congr' fun i => forall_congr' fun other => forall_congr' fun hother => ?_
  refine forall_congr' fun var => forall_congr' fun hisVar => ?_
  have hap : var≠done.var → Apart var done.var := hapart var done.var hisVar hknown
  by_cases hi : i=t.1
  · rw [if_pos hi]
    have hsame : rec=other := by
      rw [hi] at hother
      exact Option.some.inj (hrow.symm.trans hother)
    have hmeta := sameMetadata_of_writes hwrites hnamed hap
    rw [hsame] at hmeta
    have hcopy := copy_of_writes hwrites hap p
    rw [hsame] at hcopy
    have hif : (if i=t.1 ∧ var=done.var ∧ p∈done.names then getProp done.props p
        else other.get (var++("."++p)))=rec'.get (var++("."++p)) := by
      rw [hcopy]
      simp only [hi,true_and]
    rw [hif]
    constructor
    · intro h hbound
      have hafter := hmeta.boundTo hkeys hstored hbound
      exact (hmeta.shows cypher e p _ _).mp ((hafter.reads_iff cypher hp.notLabels).mp (h hafter))
    · intro h hafter
      have hbound := hmeta.symm.boundTo hkeys.symm (fun e => (hstored e).symm) hafter
      exact (hafter.reads_iff cypher hp.notLabels).mpr ((hmeta.shows cypher e p _ _).mpr (h hbound))
  · rw [if_neg hi,if_neg fun hboth => hi hboth.1]
    have hmeta := SameMetadata.refl other var
    constructor
    · intro h hbound
      have hafter := hmeta.boundTo hkeys hstored hbound
      exact (hafter.reads_iff cypher hp.notLabels).mp (h hafter)
    · intro h hafter
      have hbound := hmeta.boundTo hkeys.symm (fun e => (hstored e).symm) hafter
      exact (hafter.reads_iff cypher hp.notLabels).mpr (h hbound)

section Steps

variable (hapart : ∀ var other,isVariable var → isVariable other → var≠other → Apart var other)
  {b b' : Batch Store NamedRecord} {t : Nat×RowWrite E} (hb : MapsDistinct b)
  (hclean : Clean env isVariable b t) (hstep : stepRow (runWrite env) t b=some b')

include hb hclean hstep

theorem step_effect : b'=b ∧ (∀ rec,b.rows[t.1]?=some rec → writing env b.state rec t.2=none) ∨
    ∃ rec rec' done,b.rows[t.1]?=some rec ∧ writing env b.state rec t.2=some done ∧
      b'.rows=b.rows.set t.1 rec' ∧ WritesThrough done b.state rec b'.state rec' := by
  have ⟨rec,rec',st',hrow,hrun,hb'⟩ := stepRow_cases hstep
  have hrec := hb.rows rec (List.mem_of_getElem? hrow)
  rcases runWrite_effect hrec hb.props (hclean.inPlace rec hrow) hrun with ⟨hnone,hsame,hst⟩|⟨done,hdone,hwrites⟩
  · refine Or.inl ⟨?_,fun other hother => ?_⟩
    · have ⟨hlt,hget⟩ := List.getElem?_eq_some_iff.mp hrow
      rw [hb',hsame,hst,←hget,List.set_getElem_self]
    · rw [←Option.some.inj (hrow.symm.trans hother)]
      exact hnone
  · rw [hb']
    exact Or.inr ⟨rec,rec',done,hrow,hdone,rfl,hwrites⟩

theorem step_distinct : MapsDistinct b' := by
  rcases step_effect hb hclean hstep with ⟨hsame,-⟩|⟨rec,rec',done,hrow,hdone,hrows,hwrites⟩
  · rw [hsame]
    exact hb
  · constructor
    · intro other hother
      rw [hrows] at hother
      rcases List.mem_or_eq_of_mem_set hother with hold|hnew
      · exact hb.rows other hold
      · rw [hnew]
        exact hwrites.refreshes.distinct
    · intro e props hprops
      rw [hwrites.rewrites.stored] at hprops
      split_ifs at hprops
      · rw [←Option.some.inj hprops]
        exact hwrites.distinct
      · exact hb.props e props hprops

include hapart

theorem serves_unwritten {cell : Entity×String} (hp : Readable cell.2)
    (hnot : ¬Writes env b t cell) :
    Serves cypher isVariable b' cell ↔ Serves cypher isVariable b cell := by
  rcases step_effect hb hclean hstep with ⟨hsame,-⟩|⟨rec,rec',done,hrow,hdone,hrows,hwrites⟩
  · rw [hsame]
  · have ⟨e,p⟩ := cell
    have hout : e=done.entity → p∉done.names := fun he hin =>
      hnot ⟨rec,done,hrow,hdone,he.symm,hin⟩
    have hsame : propOrNull (propsOf b'.state e) p=propOrNull (propsOf b.state e) p := by
      rw [propOrNull,hwrites.propsOf_other hout,propOrNull]
    rw [serves_after hapart hclean hrow hdone hrows hwrites hp,hsame]
    unfold Serves
    refine forall_congr' fun i => forall_congr' fun other => forall_congr' fun hother => ?_
    refine forall_congr' fun var => forall_congr' fun _ => forall_congr' fun hbound => ?_
    have hif : ¬(i=t.1 ∧ var=done.var ∧ p∈done.names) := by
      rintro ⟨hi,hvar,hin⟩
      rw [hi] at hother
      have hsame : rec=other := Option.some.inj (hrow.symm.trans hother)
      have haddressed := hwrites.addressed
      rw [hsame,←hvar,hbound.addressed] at haddressed
      exact hout (Option.some.inj haddressed) hin
    rw [if_neg hif]
    exact (hbound.reads_iff cypher hp.notLabels).symm

/-- After a step that writes a property the rows serve it exactly when it is
shared. -/
theorem serves_written {cell : Entity×String} (hp : Readable cell.2) (hw : Writes env b t cell) :
    Serves cypher isVariable b' cell ↔ Shared env cypher isVariable b t cell := by
  have ⟨e,p⟩ := cell
  have ⟨rec₀,done₀,hrow₀,hdone₀,he₀,hin₀⟩ := hw
  rcases step_effect hb hclean hstep with ⟨-,hnone⟩|⟨rec,rec',done,hrow,hdone,hrows,hwrites⟩
  · rw [hnone rec₀ hrow₀] at hdone₀
    cases hdone₀
  · have hrec : rec=rec₀ := Option.some.inj (hrow.symm.trans hrow₀)
    rw [hrec] at hrow hdone hwrites
    have hsame : done=done₀ := Option.some.inj (hdone.symm.trans hdone₀)
    rw [hsame] at hdone hwrites
    have he : e=done₀.entity := he₀.symm
    rw [serves_after hapart hclean hrow hdone hrows hwrites hp]
    unfold Shared
    dsimp only
    rw [he,hwrites.propsOf_self]
    constructor
    · intro h other₀ done₁ hother₀ hdone₁
      have hrec₁ : rec₀=other₀ := Option.some.inj (hrow.symm.trans hother₀)
      rw [←hrec₁] at hdone₁
      have hdone₂ : done₀=done₁ := Option.some.inj (hdone.symm.trans hdone₁)
      rw [←hdone₂]
      intro i other hother var hvar hbound
      have hone := h i other hother var hvar hbound
      have hin : p∈done₀.names := hin₀
      simpa only [hin,and_true] using hone
    · intro h i other hother var hvar hbound
      have hone := h rec₀ done₀ hrow hdone i other hother var hvar hbound
      have hin : p∈done₀.names := hin₀
      simpa only [hin,and_true] using hone

end Steps

end Runs

section Operators

variable {E S : Type} {env : ExecEnv E} {cypher : EvalEnv S} {isVariable : String → Prop}

theorem foldEach_map {σ ε α ι κ : Type} (f : κ → ι) (body : α → ι → Action σ ε α) (items : List κ)
    (a : α) : foldEach (items.map f) a body=foldEach items a fun a item => body a (f item) := by
  induction items generalizing a with
  | nil => rfl
  | cons item rest ih =>
    rw [List.map_cons,foldEach,foldEach]
    exact congrArg _ (funext fun next => ih next)

theorem foldEach_single {σ ε α ι : Type} (item : ι) (a : α) (body : α → ι → Action σ ε α) :
    foldEach [item] a body=body a item := by
  funext s
  rw [foldEach,bind_apply]
  cases body a item s with
  | mk outcome s' => cases outcome <;> rfl

theorem execRowOperator_eq (records : List NamedRecord) (op : RowOperator E) :
    execRowOperator env records op=mapEach records fun rec => foldEach op.writes rec (runWrite env) := by
  cases op with
  | setProperty assignments =>
    have hrow : ∀ rec,foldEach (assignments.map RowWrite.assign) rec (runWrite env)=
        foldEach assignments rec (setPropertyItem env) := fun rec => foldEach_map _ _ assignments rec
    unfold execRowOperator execSetProperty RowOperator.writes
    dsimp only
    rw [funext hrow]
  | setProperties var expr merge =>
    have hrow : ∀ rec,foldEach [RowWrite.overlay var expr merge] rec (runWrite env)=
        setPropertiesRecord env var expr merge rec := fun rec => foldEach_single _ rec _
    unfold execRowOperator execSetProperties RowOperator.writes
    dsimp only
    rw [funext hrow]
  | removeProperties items =>
    have hrow : ∀ rec,foldEach (items.map fun item => RowWrite.erase item.1 item.2) rec (runWrite env)=
        foldEach (items.map fun item => RemoveItem.property item.1 item.2) rec (removeItem env) := by
      intro rec
      rw [foldEach_map,foldEach_map]
      rfl
    unfold execRowOperator execRemove RowOperator.writes
    dsimp only
    rw [funext hrow]

variable (env isVariable)

/-- All writes of an operator are clean. -/
def OperatorClean (st : Store) (records : List NamedRecord) (op : RowOperator E) : Prop :=
  StepsMeet (stepRow (runWrite env)) (Clean env isVariable) (schedule op.writes 0 records.length)
    ⟨records,st⟩

variable (cypher)

/-- The last write of an operator to each property is shared. -/
def LastWritesShared (st : Store) (records : List NamedRecord) (op : RowOperator E) : Prop :=
  ∀ e p,Readable p → LastShown (stepRow (runWrite env)) (Writes env) (Shared env cypher isVariable)
    (e,p) (schedule op.writes 0 records.length) ⟨records,st⟩

variable {env isVariable cypher}
variable (hapart : ∀ var other,isVariable var → isVariable other → var≠other → Apart var other)

include hapart

/-- After one operator all rows are fresh exactly when its last writes are shared. -/
theorem operator_fresh_iff {st st' : Store} {records out : List NamedRecord} {op : RowOperator E}
    (hmaps : MapsDistinct ⟨records,st⟩) (hfresh : Fresh cypher isVariable ⟨records,st⟩)
    (hclean : OperatorClean env isVariable st records op)
    (hrun : execRowOperator env records op st=(.ok out,st')) :
    MapsDistinct ⟨out,st'⟩ ∧ (Fresh cypher isVariable ⟨out,st'⟩ ↔
      LastWritesShared env cypher isVariable st records op) := by
  rw [execRowOperator_eq] at hrun
  have hsteps : runSteps (stepRow (runWrite env)) (schedule op.writes 0 records.length) ⟨records,st⟩=
      some ⟨out,st'⟩ := mapEach_runSteps [] hrun
  have hkeep : ∀ b t b',MapsDistinct b → Clean env isVariable b t →
      stepRow (runWrite env) t b=some b' → MapsDistinct b' :=
    fun b t b' hb hc hs => step_distinct hb hc hs
  refine ⟨runSteps_keeps hkeep hmaps hclean hsteps,?_⟩
  refine forall_congr' fun e => forall_congr' fun p => forall_congr' fun hp => ?_
  have hreadable : Readable (e,p).2 := hp
  exact runSteps_good_iff hkeep
    (fun b t b' hb hc hs hnot => serves_unwritten hapart hb hc hs hreadable hnot)
    (fun b t b' hb hc hs hw => serves_written hapart hb hc hs hreadable hw)
    hmaps hclean hsteps (Or.inl (hfresh e p hp))

/-- In a sequence of SET and REMOVE operators whose writes are clean, on rows that
serve what is stored, all rows serve what is stored after every operator exactly
when the last write of each operator to each property is shared by all variables
of all rows that are bound to the same entity. -/
theorem rows_fresh_iff {st : Store} {records : List NamedRecord} {ops : List (RowOperator E)}
    (hmaps : MapsDistinct ⟨records,st⟩) (hfresh : Fresh cypher isVariable ⟨records,st⟩)
    (hclean : FoldMeets (OperatorClean env isVariable) (execRowOperator env) ops records st) :
    (∀ first rest out st',ops=first++rest →
        foldEach first records (execRowOperator env) st=(.ok out,st') →
        Fresh cypher isVariable ⟨out,st'⟩) ↔
      FoldMeets (fun st records op => (execRowOperator env records op st).1.isOk=true →
        LastWritesShared env cypher isVariable st records op) (execRowOperator env) ops records st :=
  reached_good_iff (I := fun records st => MapsDistinct ⟨records,st⟩)
    (fun _ _ _ _ _ hmaps hfresh hclean hrun => operator_fresh_iff hapart hmaps hfresh hclean hrun)
    hmaps hfresh hclean

end Operators

section Scans

variable {S : Type} {cypher : EvalEnv S} {st : Store} {n : Node} {rec : NamedRecord} {var : String}

/-- A variable whose fields are those of a stored node is bound to it and serves
what is stored. -/
theorem reads_nodeFields (hstored : Stored st n)
    (hnames : ∀ key,isInternal key=true → getProp n.properties key=none)
    (hfields : ∀ p,rec.get (var++("."++p))=nodeField n p)
    (hself : rec.get var=some (.i64 n.id.toInt64)) {e : Entity} (hbound : BoundTo st rec var e)
    {p : String} (hp : Readable p) :
    evalProperty cypher st var p rec=.ok (propOrNull (propsOf st e) p) := by
  have hinternal : ∀ p,isInternal p=true → p≠"__id" → p≠"__labels" → p≠"__label" →
      rec.get (var++("."++p))=none := by
    intro p hp hid hlabels hlabel
    rw [hfields,nodeField,if_neg hid,if_neg hlabels,if_neg hlabel,hnames p hp]
  have hsrc : rec.get (var++".__src")=none :=
    hinternal "__src" (by decide) (by decide) (by decide) (by decide)
  have hedge : edgeIdentity rec var=none := by
    unfold edgeIdentity
    rw [hsrc]
  have hnode : nodeIdField rec var=some n.id := by
    unfold nodeIdField
    rw [hself]
    exact congrArg some (UInt64.toUInt64_toInt64 n.id)
  have he : e=.node n.id := by
    have haddressed := hbound.addressed
    rw [entityAt_node st hedge hnode] at haddressed
    exact (Option.some.inj haddressed).symm
  have ⟨record,hrecord,hn⟩ := recordAt_of_getNode hstored
  have hprops : propsOf st e=n.properties := by
    rw [he,(propsOf_node hrecord).2,hn]
  refine (hbound.reads_iff cypher hp.notLabels).mpr ?_
  have hmeta : ∀ name,isInternal name=true → p≠name := by
    intro name hname heq
    rw [←heq,hp.noMetadata] at hname
    cases hname
  rw [hprops,hfields,nodeField,if_neg (hmeta _ (by decide)),if_neg (hmeta _ (by decide)),
    if_neg (hmeta _ (by decide)),he]
  unfold Shows propOrNull
  cases getProp n.properties p with
  | some v => rfl
  | none => trivial

theorem fresh_scan {nodes : List Node} (hstored : ∀ n∈nodes,Stored st n)
    (hnames : ∀ n∈nodes,∀ key,isInternal key=true → getProp n.properties key=none) :
    Fresh cypher (fun x => x=var) ⟨nodes.map fun n => nodeToRecord n var,st⟩ := by
  intro e p hp i rec hrow x hx hbound
  have ⟨n,hn,hrec⟩ := List.mem_map.mp (List.mem_of_getElem? hrow)
  rw [hx] at hbound ⊢
  rw [←hrec] at hbound ⊢
  exact reads_nodeFields (hstored n hn) (hnames n hn) (get_nodeToRecord_dotted n var)
    (get_nodeToRecord_self n var) hbound hp

theorem distinct_scan (nodes : List Node) (var : String) :
    ∀ rec∈nodes.map fun n => nodeToRecord n var,DistinctNames rec.fields := by
  intro rec hrec
  have ⟨n,_,hn⟩ := List.mem_map.mp hrec
  rw [←hn]
  exact distinct_populateNodeBindings (show DistinctNames [] from List.nodup_nil) n var

end Scans

/-- The node of the sample database. -/
def sampleNode : Node := ⟨1,["A"],[("x",.i64 1)]⟩

theorem oneNodeStore_distinct : PropsDistinct oneNodeStore := by
  have hrows : oneNodeStore.nodes.rows=[(1,⟨"A",⟨["A"],[("x",.i64 1)]⟩⟩)] := rfl
  have hedges : oneNodeStore.edgeProps=empty := rfl
  intro e props hprops
  cases e with
  | edge key =>
    rw [storedOf,hedges] at hprops
    cases hprops
  | node id =>
    obtain ⟨record,hrecord,hsame⟩ := Option.map_eq_some_iff.mp hprops
    obtain ⟨row,hget,hvalue⟩ := Option.map_eq_some_iff.mp hrecord
    have hmem := get_eq_some.mp hget
    rw [hrows] at hmem
    have hrow : row=⟨"A",⟨["A"],[("x",.i64 1)]⟩⟩ := (Prod.mk.inj (List.mem_singleton.mp hmem)).2
    rw [←hsame,←hvalue,hrow]
    exact List.nodup_singleton _

theorem sampleNode_stored : Stored oneNodeStore sampleNode ∧
    ∀ key,isInternal key=true → getProp sampleNode.properties key=none := by
  refine ⟨rfl,fun key hkey => ?_⟩
  by_cases hx : "x"=key
  · rw [←hx] at hkey
    exact absurd hkey (by decide)
  · rw [sampleNode,getProp_cons,if_neg hx]
    rfl

/-- On the row of a scan of one node, `SET n.x = 2` keeps the row fresh exactly
when its write is shared. -/
theorem rows_fresh_sample :
    (∀ first rest out st',[RowOperator.setProperty [⟨"n","x",.i64 2⟩]]=first++rest →
        foldEach first [nodeToRecord sampleNode "n"] (execRowOperator literalEnv) oneNodeStore=
          (.ok out,st') → Fresh plainEval (fun x => x="n") ⟨out,st'⟩) ↔
      FoldMeets (fun st records op => (execRowOperator literalEnv records op st).1.isOk=true →
        LastWritesShared literalEnv plainEval (fun x => x="n") st records op)
        (execRowOperator literalEnv) [.setProperty [⟨"n","x",.i64 2⟩]] [nodeToRecord sampleNode "n"]
        oneNodeStore := by
  have hfresh : Fresh plainEval (fun x => x="n") ⟨[nodeToRecord sampleNode "n"],oneNodeStore⟩ := by
    have hscan : Fresh plainEval (fun x => x="n")
        ⟨[sampleNode].map fun n => nodeToRecord n "n",oneNodeStore⟩ :=
      fresh_scan (fun n hn => List.mem_singleton.mp hn ▸ sampleNode_stored.1)
        (fun n hn => List.mem_singleton.mp hn ▸ sampleNode_stored.2)
    exact hscan
  have hentity : entityAt oneNodeStore (nodeToRecord sampleNode "n") "n"=some (.node 1) := rfl
  have hclean : Clean literalEnv (fun x => x="n") ⟨[nodeToRecord sampleNode "n"],oneNodeStore⟩
      (0,.assign ⟨"n","x",.i64 2⟩) := by
    refine ⟨rfl,fun rec hrec key hkey => ?_,fun rec done hrec hdone p hp => ?_⟩
    · have hrow : nodeToRecord sampleNode "n"=rec := Option.some.inj hrec
      have hother : entityAt oneNodeStore rec "n"=some (.edge key) := hkey
      rw [←hrow,hentity] at hother
      cases hother
    · have hrow : nodeToRecord sampleNode "n"=rec := Option.some.inj hrec
      dsimp only at hdone
      rw [←hrow,writing,hentity] at hdone
      rw [←Option.some.inj hdone] at hp
      rw [List.mem_singleton.mp hp]
      decide
  exact rows_fresh_iff (fun var other hvar hother hne => absurd (hvar.trans hother.symm) hne)
    ⟨distinct_scan [sampleNode] "n",oneNodeStore_distinct⟩ hfresh
    ⟨⟨hclean,fun _ _ => trivial⟩,fun _ _ _ => trivial⟩

/-- One row with the sample node under two variables. -/
def aliasedRow : NamedRecord := populateNodeBindings (nodeToRecord sampleNode "a") sampleNode "b"

theorem fresh_aliasedRow : Fresh plainEval (fun x => x="a" ∨ x="b") ⟨[aliasedRow],oneNodeStore⟩ := by
  have hapart : Apart "a" "b" := ⟨by decide,by decide,by decide⟩
  have hback : Apart "b" "a" := ⟨by decide,by decide,by decide⟩
  have hfirst : ∀ p,aliasedRow.get ("a"++("."++p))=nodeField sampleNode p := by
    intro p
    have hout : ∀ q,"a"++("."++p)≠"b"++("."++q) := (dotted_apart hback p).2
    rw [aliasedRow,get_populateNodeBindings_other (dotted_apart hback p).1 hout]
    exact get_nodeToRecord_dotted sampleNode "a" p
  have hsecond : ∀ p,aliasedRow.get ("b"++("."++p))=nodeField sampleNode p := by
    intro p
    rw [aliasedRow,get_populateNodeBindings_dotted,
      get_nodeToRecord_other (dotted_apart hapart p).1 (dotted_apart hapart p).2,Option.or_none]
  intro e p hp i rec hrow x hx hbound
  have hrec : rec=aliasedRow := List.mem_singleton.mp (List.mem_of_getElem? hrow)
  rw [hrec] at hbound ⊢
  rcases hx with hx|hx
  · rw [hx] at hbound ⊢
    exact reads_nodeFields sampleNode_stored.1 sampleNode_stored.2 hfirst rfl hbound hp
  · rw [hx] at hbound ⊢
    exact reads_nodeFields sampleNode_stored.1 sampleNode_stored.2 hsecond rfl hbound hp

/-- `MATCH (a),(b) WHERE a = b SET a.x = 2`: the row is fresh before, and after it
`b.x` still serves 1. -/
theorem aliased_row_stale :
    Fresh plainEval (fun x => x="a" ∨ x="b") ⟨[aliasedRow],oneNodeStore⟩ ∧
      ∃ row st',execRowOperator literalEnv [aliasedRow] (.setProperty [⟨"a","x",.i64 2⟩]) oneNodeStore=
          (.ok [row],st') ∧ BoundTo st' row "b" (.node 1) ∧
        propOrNull (propsOf st' (.node 1)) "x"=.i64 2 ∧
        evalProperty plainEval st' "b" "x" row=.ok (.i64 1) := by
  have halive : (showProperty aliasedRow "a" "x" (.i64 2)).get ("b"++".__deleted")=none := rfl
  have hpresent : (showProperty aliasedRow "a" "x" (.i64 2)).get "b"=some (.i64 1) := rfl
  refine ⟨fresh_aliasedRow,_,_,rfl,⟨rfl,rfl,?_,?_,rfl⟩,rfl,rfl⟩
  · intro hdeleted
    cases halive.symm.trans hdeleted
  · intro hnull
    cases hpresent.symm.trans hnull

end GraphDbLite.FreshRows
