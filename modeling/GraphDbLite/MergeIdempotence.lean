import GraphDbLite.EntityDeletion
import GraphDbLite.MergeSearch

/-!
# When MERGE establishes its pattern and does nothing the second time

MERGE without actions on a node or on one relationship, alone or on the records of its
input. Matching a pattern is stated on the stored nodes and relationships: all labels, all
inline properties for the query equality, the direction of the arrow, one end for one
variable, and the ends that a record binds.
-/

namespace GraphDbLite.MergeIdempotence

open ByteStrings GraphTypes OrderedTable StatefulActions GraphStore EdgeStorage NodeStorage
open WriteOperators PropertySetters CypherSyntax CypherValues ValueEquality NodeView
open NodeRecords IndexMirror IndexAccess EdgeConsistency Traversal MergeOperators MergeSearch

/-- The pattern of a MERGE: a node, or a relationship between two nodes. -/
inductive MergePattern (E : Type) where
  | node (n : NodePatternOf E)
  | relationship (src : NodePatternOf E) (rel : RelPatternOf E) (dst : NodePatternOf E)

/-- The pattern as the operators take it. -/
def MergePattern.pattern {E : Type} (pathVar : Option String) : MergePattern E → PatternOf E
  | .node n => ⟨[.node n],pathVar,.none⟩
  | .relationship src rel dst => ⟨[.node src,.relationship rel,.node dst],pathVar,.none⟩

/-- MERGE without actions, alone or on the records of its input. -/
def merge {E : Type} (env : ExecEnv E) (input : Option (List NamedRecord)) (pattern : PatternOf E) :
    Db (List NamedRecord) :=
  match input with
  | none => execMerge env pattern [] []
  | some records => execMatchMerge env records pattern [] []

section Matching

variable {E : Type} (value : E → Value)

/-- Properties that equal the inline properties of a pattern. -/
def HoldsAll (found : Properties) (inline : List (String×E)) : Prop :=
  ∀ entry∈inline,∃ held,getProp found entry.1=some held ∧ valuesEqual held (value entry.2)=some true

/-- A node with the labels and the properties of a pattern. -/
structure NodeFits (n : Node) (pattern : NodePatternOf E) : Prop where
  /-- It carries all labels. -/
  labels : ∀ l∈pattern.labels,l∈n.labels
  /-- It has all properties. -/
  properties : HoldsAll value n.properties pattern.properties

/-- A value that stands for a node. -/
def Denotes (held : Value) (id : NodeId) : Prop :=
  (∃ i : Int64,held=.i64 i ∧ i.toUInt64=id) ∨ ∃ n : Node,held=.node n ∧ n.id=id

/-- A record that leaves a variable free or binds it to the node. -/
def Allows (rec : NamedRecord) (var : Option String) (id : NodeId) : Prop :=
  ∀ name held,var=some name → rec.get name=some held → Denotes held id

/-- Two nodes that fit the ends of a relationship pattern. -/
structure EndsFit (rec : NamedRecord) (a b : Node) (src dst : NodePatternOf E) : Prop where
  /-- The source fits. -/
  source : NodeFits value a src
  /-- The destination fits. -/
  target : NodeFits value b dst
  /-- One variable names one node. -/
  same : src.var≠none → src.var=dst.var → a=b
  /-- The record allows the source. -/
  srcAllowed : Allows rec src.var a.id
  /-- The record allows the destination. -/
  dstAllowed : Allows rec dst.var b.id

/-- A relationship between two nodes that fits a pattern along its arrow, or along either
direction when there is no arrow. -/
structure RelationshipFits (rec : NamedRecord) (a b : Node) (label : String) (props : Properties)
    (src : NodePatternOf E) (rel : RelPatternOf E) (dst : NodePatternOf E) : Prop where
  /-- The type is accepted. -/
  label : label∈rel.relTypes
  /-- It has all properties. -/
  properties : HoldsAll value props rel.properties
  /-- The ends fit. -/
  ends : rel.direction≠.incoming ∧ EndsFit value rec a b src dst ∨
    rel.direction≠.outgoing ∧ EndsFit value rec b a src dst

/-- A stored relationship between known nodes that a pattern matches. -/
def RelationshipMatches (known : Node → Prop) (st : Store) (rec : NamedRecord) (src : NodePatternOf E)
    (rel : RelPatternOf E) (dst : NodePatternOf E) : Prop :=
  ∃ a b label seq props,known a ∧ known b ∧ get st.edgeProps (edgePropsKey a.id b.id label seq)=some props ∧
    RelationshipFits value rec a b label props src rel dst

/-- A MATCH of the pattern on a record has a row. A variable of a single node is not bound
by the record, the planner refuses it. -/
def Matches (st : Store) (rec : NamedRecord) : MergePattern E → Prop
  | .node pattern => ∃ n,Stored st n ∧ NodeFits value n pattern
  | .relationship src rel dst => RelationshipMatches value (Stored st) st rec src rel dst

/-- The inline properties of a pattern as they are evaluated. -/
def inlineProperties (inline : List (String×E)) : Properties :=
  inline.foldl (fun props entry => insertProp props entry.1 (value entry.2)) []

/-- Inline values that equal themselves for the query equality. -/
def KnowThemselves (inline : List (String×E)) : Prop :=
  ∀ entry∈inline,valuesEqual (value entry.2) (value entry.2)=some true

/-- Inline properties are literals or parameters, one for each name. -/
structure Constants (env : ExecEnv E) (inline : List (String×E)) : Prop where
  /-- They have one value on all records. -/
  evaluates : ∀ entry∈inline,∀ st rec,env.eval st entry.2 rec=.ok (value entry.2)
  /-- Names are distinct. -/
  names : (inline.map Prod.fst).Nodup
  /-- Maps in them are finite maps. -/
  finite : ∀ entry∈inline,finiteMaps (value entry.2)=true
  /-- Equal values are serialized alike. -/
  bytes : ∀ entry∈inline,∀ held,valueEq held (value entry.2)=true → env.enc held=env.enc (value entry.2)

/-- Inline properties of a whole pattern. -/
def PatternConstants (env : ExecEnv E) : MergePattern E → Prop
  | .node n => Constants value env n.properties
  | .relationship src rel dst => Constants value env src.properties ∧
      Constants value env rel.properties ∧ Constants value env dst.properties ∧
      rel.relTypes=[edgeTypeOf rel]

end Matching

/-- A database with mirrored indexes and consistent relationships whose stored maps are
finite maps. -/
structure MergeStore (enc : Value → Bytes) (st : Store) : Prop where
  /-- The indexes mirror the nodes. -/
  indexed : Indexed enc st
  /-- The relationship tables agree. -/
  edges : EdgeInv st
  /-- Property values of nodes. -/
  nodeValues : ∀ n,Stored st n → ∀ entry∈n.properties,finiteMaps entry.2=true
  /-- Property values of relationships. -/
  edgeValues : ∀ key props,get st.edgeProps key=some props → ∀ entry∈props,finiteMaps entry.2=true

section Inline

variable {E : Type} {value : E → Value} {env : ExecEnv E} {inline : List (String×E)}

theorem mergeProperties_eq (h : Constants value env inline) {st : Store} {rec : NamedRecord}
    {props : Properties} (heval : mergeProperties env st rec [] inline=.ok props) :
    props=inlineProperties value inline := by
  have hloop : ∀ (rest : List (String×E)) (acc : Properties),(∀ entry∈rest,entry∈inline) →
      mergeProperties env st rec acc rest=.ok props →
      props=rest.foldl (fun props entry => insertProp props entry.1 (value entry.2)) acc := by
    intro rest
    induction rest with
    | nil => exact fun acc _ hacc => (Except.ok.inj hacc).symm
    | cons entry rest ih =>
      intro acc hsub hacc
      rw [mergeProperties,h.evaluates entry (hsub entry List.mem_cons_self) st rec] at hacc
      dsimp only at hacc
      split_ifs at hacc
      exact ih _ (fun other hother => hsub other (List.mem_cons_of_mem _ hother)) hacc
  exact hloop inline [] (fun _ hentry => hentry) heval

theorem mergeProperties_again (h : Constants value env inline) (st st' : Store) (rec rec' : NamedRecord)
    (acc : Properties) : mergeProperties env st rec acc inline=mergeProperties env st' rec' acc inline := by
  have hloop : ∀ (rest : List (String×E)) (acc : Properties),(∀ entry∈rest,entry∈inline) →
      mergeProperties env st rec acc rest=mergeProperties env st' rec' acc rest := by
    intro rest
    induction rest with
    | nil => exact fun _ _ => rfl
    | cons entry rest ih =>
      intro acc hsub
      have hentry := h.evaluates entry (hsub entry List.mem_cons_self)
      rw [mergeProperties,mergeProperties,hentry st rec,hentry st' rec']
      dsimp only
      rw [ih _ fun other hother => hsub other (List.mem_cons_of_mem _ hother)]
  exact hloop inline acc fun _ hentry => hentry

theorem inline_of_run (h : Constants value env inline) {α : Type} {st st' : Store} {rec : NamedRecord}
    {f : Properties → Db α} {a : α}
    (hrun : (inspect (fun s => mergeProperties env s rec [] inline) >>= f) st=(.ok a,st')) :
    f (inlineProperties value inline) st=(.ok a,st') ∧
      mergeProperties env st' rec [] inline=.ok (inlineProperties value inline) := by
  have ⟨props,heval,hrest⟩ := ok_of_inspect hrun
  rw [mergeProperties_eq h heval] at hrest heval
  exact ⟨hrest,(mergeProperties_again h st' st rec rec []).trans heval⟩

theorem getProp_inlineProperties (hnames : (inline.map Prod.fst).Nodup) {entry : String×E}
    (hentry : entry∈inline) : getProp (inlineProperties value inline) entry.1=some (value entry.2) := by
  have hloop : ∀ (rest : List (String×E)) (acc : Properties),(rest.map Prod.fst).Nodup → ∀ key,
      getProp (rest.foldl (fun props entry => insertProp props entry.1 (value entry.2)) acc) key=
        ((rest.find? fun entry => entry.1=key).map fun entry => value entry.2).or (getProp acc key) := by
    intro rest
    induction rest with
    | nil => exact fun acc _ key => rfl
    | cons head rest ih =>
      intro acc hnodup key
      rw [List.map_cons,List.nodup_cons] at hnodup
      rw [List.foldl_cons,ih _ hnodup.2 key,getProp_insertProp]
      by_cases hkey : head.1=key
      · have hnone : (rest.find? fun entry => entry.1=key)=none := by
          apply List.find?_eq_none.mpr
          intro other hother hsame
          apply hnodup.1
          rw [hkey,←of_decide_eq_true hsame]
          exact List.mem_map_of_mem hother
        rw [hnone,List.find?_cons_of_pos (by simpa using hkey),if_pos hkey.symm]
        rfl
      · rw [List.find?_cons_of_neg (by simpa using hkey),if_neg fun hx => hkey hx.symm]
  have hfind : (inline.find? fun other => other.1=entry.1)=some entry := by
    cases hsearch : inline.find? fun other => other.1=entry.1 with
    | none =>
      have hnot := List.find?_eq_none.mp hsearch entry hentry
      simp at hnot
    | some other =>
      have hsame : other.1=entry.1 := by simpa using List.find?_some hsearch
      rw [List.inj_on_of_nodup_map hnames (List.mem_of_find?_eq_some hsearch) hentry hsame]
  rw [inlineProperties,hloop inline [] hnames entry.1,hfind]
  rfl

theorem mem_inlineProperties {held : String×Value} (h : held∈inlineProperties value inline) :
    ∃ entry∈inline,held=(entry.1,value entry.2) := by
  have hloop : ∀ (rest : List (String×E)) (acc : Properties),
      held∈rest.foldl (fun props entry => insertProp props entry.1 (value entry.2)) acc →
      held∈acc ∨ ∃ entry∈rest,held=(entry.1,value entry.2) := by
    intro rest
    induction rest with
    | nil => exact fun acc hacc => Or.inl hacc
    | cons head rest ih =>
      intro acc hacc
      rcases ih _ hacc with hold|⟨entry,hentry,hheld⟩
      · rcases List.mem_cons.mp hold with hnew|hkept
        · exact Or.inr ⟨head,List.mem_cons_self,hnew⟩
        · exact Or.inl (List.mem_of_mem_filter hkept)
      · exact Or.inr ⟨entry,List.mem_cons_of_mem _ hentry,hheld⟩
  rcases hloop inline [] h with hnil|hentry
  · exact absurd hnil List.not_mem_nil
  · exact hentry

variable {found : Properties}

theorem hasProperties_inline (hnames : (inline.map Prod.fst).Nodup) :
    hasProperties found (inlineProperties value inline)=true ↔
    ∀ entry∈inline,∃ held,getProp found entry.1=some held ∧ valueEq held (value entry.2)=true := by
  rw [hasProperties_iff]
  constructor
  · intro h entry hentry
    exact h (entry.1,value entry.2) (mem_of_getProp (getProp_inlineProperties hnames hentry))
  · intro h held hheld
    have ⟨entry,hentry,hsame⟩ := mem_inlineProperties hheld
    rw [hsame]
    exact h entry hentry

section Inline

variable (h : Constants value env inline)

include h

theorem hasProperties_self :
    hasProperties (inlineProperties value inline) (inlineProperties value inline)=true := by
  rw [hasProperties_inline h.names]
  intro entry hentry
  exact ⟨_,getProp_inlineProperties h.names hentry,valueEq_refl _ (h.finite entry hentry)⟩

theorem Constants.sameBytes :
    SameBytes env.enc (inlineProperties value inline) := by
  intro held hheld other hother
  have ⟨entry,hentry,hsame⟩ := mem_inlineProperties hheld
  rw [hsame] at hother ⊢
  exact h.bytes entry hentry other hother

/-- Properties that the library holds equal to values that know themselves equal them. -/
theorem holdsAll_of_hasProperties (hself : KnowThemselves value inline)
    (hfound : ∀ entry∈found,finiteMaps entry.2=true)
    (hprops : hasProperties found (inlineProperties value inline)=true) : HoldsAll value found inline := by
  intro entry hentry
  have ⟨held,hread,hequal⟩ := (hasProperties_inline h.names).mp hprops entry hentry
  exact ⟨held,hread,valuesEqual_of_valueEq held _ (hfound _ (mem_of_getProp hread)) (h.finite entry hentry) hequal
    (hself entry hentry)⟩

theorem knowThemselves_of_holdsAll (hholds : HoldsAll value found inline) :
    KnowThemselves value inline := by
  intro entry hentry
  have ⟨held,_,hequal⟩ := hholds entry hentry
  exact valuesEqual_self held _ (h.finite entry hentry) hequal

theorem holdsAll_inline :
    HoldsAll value (inlineProperties value inline) inline ↔ KnowThemselves value inline := by
  constructor
  · exact knowThemselves_of_holdsAll h
  · intro hself entry hentry
    exact ⟨_,getProp_inlineProperties h.names hentry,hself entry hentry⟩

theorem finite_inlineProperties :
    ∀ entry∈inlineProperties value inline,finiteMaps entry.2=true := by
  intro held hheld
  have ⟨entry,hentry,hsame⟩ := mem_inlineProperties hheld
  rw [hsame]
  exact h.finite entry hentry

end Inline

end Inline

section Nodes

variable {E : Type} {value : E → Value} {env : ExecEnv E} {st st' : Store}

theorem MergeStore.added (h : MergeStore env.enc st) {labels : List String} {props : Properties}
    (hadd : NodeAdded env.enc labels props st st') (hprops : ∀ entry∈props,finiteMaps entry.2=true) :
    MergeStore env.enc st' := by
  refine ⟨hadd.ok,EdgeInv.of_same hadd.edges h.edges,fun n hn => ?_,?_⟩
  · rcases (hadd.stored n).mp hn with hold|hnew
    · exact h.nodeValues n hold
    · rw [hnew]
      exact hprops
  · rw [hadd.edges.edgeProps]
    exact h.edgeValues

theorem firstLabel_cases (node : NodePatternOf E) : firstLabel node = "" ∨ firstLabel node∈node.labels := by
  unfold firstLabel
  cases node.labels with
  | nil => exact Or.inl rfl
  | cons l rest => exact Or.inr List.mem_cons_self

theorem labelsOf_cases (label : String) : label = "" ∨ label∈labelsOf label := by
  unfold labelsOf
  split_ifs with hempty
  · exact Or.inl hempty
  · exact Or.inr (List.mem_singleton_self label)

variable {node : NodePatternOf E} {pathVar : Option String} {rows : List NamedRecord}

/-- A candidate with all labels fits the pattern when the inline values know themselves. -/
theorem nodeFits_of_candidate (h : MergeStore env.enc st) (hc : Constants value env node.properties)
    (hself : KnowThemselves value node.properties) {label : String} {n : Node}
    (hn : Candidate st label (inlineProperties value node.properties) n) (hlabels : ∀ l∈node.labels,l∈n.labels) :
    NodeFits value n node :=
  ⟨hlabels,holdsAll_of_hasProperties hc hself (h.nodeValues n hn.stored) hn.properties⟩

theorem mergeNode_found (h : MergeStore env.enc st) (hc : Constants value env node.properties) {id : NodeId}
    (hrun : mergeNode env node [] [] st=(.ok id,st')) : MergeStore env.enc st' ∧
    mergeProperties env st' ⟨[]⟩ [] node.properties= .ok (inlineProperties value node.properties) ∧
    ∃ n,Candidate st' (firstLabel node) (inlineProperties value node.properties) n ∧ ∀ l∈node.labels,l∈n.labels := by
  unfold mergeNode at hrun
  have ⟨hrest,hagain⟩ := inline_of_run hc hrun
  have ⟨found,hsearch,hsome,hnone⟩ := findMergeMatchMultiLabel_ok h.indexed hc.sameBytes node.labels
  rw [inspect_ok (by exact hsearch)] at hrest
  cases found with
  | some n =>
    have ⟨_,hst⟩ := Prod.mk.inj hrest
    rw [←hst] at hagain ⊢
    exact ⟨h,hagain,n,hsome n rfl⟩
  | none =>
    have ⟨new,st₂,hcreate,hlast⟩ := ok_of_bind hrest
    have ⟨_,hst⟩ := Prod.mk.inj hlast
    rw [hst] at hcreate
    have ⟨_,hadd⟩ := createIndexedNode_added h.indexed hcreate
    refine ⟨h.added hadd (finite_inlineProperties hc),hagain,_,
      hadd.own (hasProperties_self hc) (firstLabel_cases node),fun l hl => ?_⟩
    exact (List.perm_insertionSort _ _).mem_iff.mpr hl

theorem mergeNode_rests (h : MergeStore env.enc st) (hc : Constants value env node.properties)
    (heval : mergeProperties env st ⟨[]⟩ [] node.properties=.ok (inlineProperties value node.properties))
    {n : Node} (hn : Candidate st (firstLabel node) (inlineProperties value node.properties) n)
    (hlabels : ∀ l∈node.labels,l∈n.labels) : ∃ m,Stored st m ∧ mergeNode env node [] [] st=(.ok m.id,st) := by
  have ⟨found,hsearch,hsome,hnone⟩ := findMergeMatchMultiLabel_ok h.indexed hc.sameBytes node.labels
  cases found with
  | none => exact absurd hlabels (hnone rfl n hn)
  | some m =>
    refine ⟨m,(hsome m rfl).1.stored,?_⟩
    unfold mergeNode
    rw [inspect_ok (by exact heval),inspect_ok (by exact hsearch)]
    rfl

/-- MERGE of a node alone establishes its pattern exactly when the inline values know
themselves, and never creates a second time. -/
theorem execMergeNode_established (h : MergeStore env.enc st) (hc : Constants value env node.properties)
    (hrun : execMergeNode env node pathVar [] [] st=(.ok rows,st')) :
    ((∃ n,Stored st' n ∧ NodeFits value n node) ↔ KnowThemselves value node.properties) ∧
    Rests (execMergeNode env node pathVar [] []) st' := by
  unfold execMergeNode at hrun
  have ⟨id,st₁,hmerge,hrest⟩ := ok_of_bind hrun
  have ⟨resolved,_,hlast⟩ := ok_of_inspect hrest
  rw [(Prod.mk.inj hlast).2] at hmerge
  have ⟨h',heval,n,hn,hlabels⟩ := mergeNode_found h hc hmerge
  constructor
  · constructor
    · intro hmatch
      have ⟨m,_,hfits⟩ := hmatch
      exact knowThemselves_of_holdsAll hc hfits.properties
    · intro hself
      exact ⟨n,hn.stored,nodeFits_of_candidate h' hc hself hn hlabels⟩
  · have ⟨m,hm,hagain⟩ := mergeNode_rests h' hc heval hn hlabels
    have hnode : getNode st' m.id=.ok m := hm
    refine ⟨[bindMergedNode ⟨[]⟩ (node.var.getD "_merge") pathVar m],?_⟩
    unfold execMergeNode
    rw [bind_ok hagain,inspect_ok (by exact hnode)]
    rfl

/-- MERGE of a node on a record finds candidates and leaves the state, or creates the
first one. -/
theorem matchMergeNode_step (h : MergeStore env.enc st)
    (hc : Constants value env node.properties) {rec : NamedRecord} (hrun : matchMergeNode env node pathVar [] [] rec st=(.ok rows,st')) :
    mergeProperties env st' rec [] node.properties=.ok (inlineProperties value node.properties) ∧
    (∃ n,Candidate st' (firstLabel node) (inlineProperties value node.properties) n) ∧
    (st'=st ∨ (∀ n,¬Candidate st (firstLabel node) (inlineProperties value node.properties) n) ∧
      NodeAdded env.enc (labelsOf (firstLabel node)) (inlineProperties value node.properties) st st') := by
  unfold matchMergeNode at hrun
  have ⟨hrest,hagain⟩ := inline_of_run hc hrun
  have ⟨found,hsearch,hmem⟩ := findMergeMatches_ok h.indexed hc.sameBytes (firstLabel node)
  have hsearch' : findMergeMatchesEvaluated env st (firstLabel node) (inlineProperties value node.properties)=
      .ok found := hsearch
  rw [inspect_ok (by exact hsearch')] at hrest
  cases found with
  | nil =>
    rw [if_pos List.isEmpty_nil] at hrest
    have ⟨id,st₂,hcreate,hmore⟩ := ok_of_bind hrest
    have ⟨u,st₃,hset,hread⟩ := ok_of_bind hmore
    have ⟨_,hst₃⟩ := Prod.mk.inj hset
    have ⟨resolved,hget,hlast⟩ := ok_of_inspect hread
    rw [hst₃,(Prod.mk.inj hlast).2] at hcreate
    have ⟨_,hadd⟩ := createIndexedNode_added h.indexed hcreate
    exact ⟨hagain,⟨_,hadd.own (hasProperties_self hc) (labelsOf_cases _)⟩,
      Or.inr ⟨fun n hn => absurd ((hmem n).mpr hn) List.not_mem_nil,hadd⟩⟩
  | cons n others =>
    rw [if_neg (show ¬(n::others).isEmpty=true by simp)] at hrest
    have hkeeps : Keeps (fun s => s=st)
        (mapEach (n::others) (matchedNodeRow env (node.var.getD "_merge") pathVar [] rec)) :=
      keeps_mapEach fun m _ => keeps_bind (keeps_pure _ _) fun _ =>
        keeps_reading fun _ => keeps_pure _ _
    have hst := hkeeps st rfl
    rw [hrest] at hst
    have hsame : st'=st := hst
    rw [hsame] at hagain ⊢
    exact ⟨hagain,⟨n,(hmem n).mp List.mem_cons_self⟩,Or.inl rfl⟩

theorem matchMergeNode_rests (h : MergeStore env.enc st) (hc : Constants value env node.properties)
    (pathVar : Option String) {rec : NamedRecord}
    (heval : mergeProperties env st rec [] node.properties=.ok (inlineProperties value node.properties))
    (hn : ∃ n,Candidate st (firstLabel node) (inlineProperties value node.properties) n) :
    Rests (matchMergeNode env node pathVar [] [] rec) st := by
  have ⟨found,hsearch,hmem⟩ := findMergeMatches_ok h.indexed hc.sameBytes (firstLabel node)
  have hsearch' : findMergeMatchesEvaluated env st (firstLabel node) (inlineProperties value node.properties)=
      .ok found := hsearch
  have hsome : found.isEmpty≠true := by
    have ⟨n,hn⟩ := hn
    have hin := (hmem n).mpr hn
    intro hempty
    rw [List.isEmpty_iff.mp hempty] at hin
    exact absurd hin List.not_mem_nil
  unfold matchMergeNode
  refine Rests.after (by rw [inspect_apply,heval]) ?_
  refine Rests.after (by rw [inspect_apply,hsearch']) ?_
  rw [if_neg hsome]
  refine rests_mapEach fun m hm => ?_
  have hnode : getNode st m.id=.ok m := ((hmem m).mp hm).stored
  refine ⟨bindMergedNode rec (node.var.getD "_merge") pathVar m,?_⟩
  unfold matchedNodeRow
  rw [bind_ok (show forEach [] (fun item => applyMergeSetItemNode env item m.id rec) st=(.ok (),st) from rfl),
    inspect_ok (by exact hnode)]
  rfl

/-- On records MERGE of a node establishes its pattern exactly when a node fits it already,
or when there is no candidate, the first label is the only one and the inline values know
themselves; it never creates a second time. -/
theorem matchMergeNodes_established (h : MergeStore env.enc st)
    (hc : Constants value env node.properties) {records : List NamedRecord}
    (hrun : execMatchMerge env records ((MergePattern.node node).pattern pathVar) [] [] st=(.ok rows,st')) :
    ((∀ rec∈records,∃ n,Stored st' n ∧ NodeFits value n node) ↔
      records=[] ∨ (∃ n,Stored st n ∧ NodeFits value n node) ∨
        (∀ n,¬Candidate st (firstLabel node) (inlineProperties value node.properties) n) ∧
        (∀ l∈node.labels,l∈labelsOf (firstLabel node)) ∧ KnowThemselves value node.properties) ∧
      Rests (execMatchMerge env records ((MergePattern.node node).pattern pathVar) [] []) st' := by
  let I : Store → Prop := fun s => MergeStore env.enc s ∧ (s=st ∨
    (∀ n,¬Candidate st (firstLabel node) (inlineProperties value node.properties) n) ∧
    NodeAdded env.enc (labelsOf (firstLabel node)) (inlineProperties value node.properties) st s)
  let done : NamedRecord → Store → Prop := fun rec s =>
    mergeProperties env s rec [] node.properties=.ok (inlineProperties value node.properties) ∧
      ∃ n,Candidate s (firstLabel node) (inlineProperties value node.properties) n
  have hstep : ∀ rec∈records,∀ s out s',I s → matchMergeNode env node pathVar [] [] rec s=(.ok out,s') →
      I s' ∧ done rec s' ∧ ∀ other,done other s → done other s' := by
    intro rec _ s out s' hs hbody
    have ⟨heval,hfound,hcases⟩ := matchMergeNode_step hs.1 hc hbody
    have hdone : ∀ other,done other s → done other s' := fun other hother =>
      ⟨(mergeProperties_again hc s' s other other []).trans hother.1,hfound⟩
    rcases hcases with hsame|⟨hnone,hadd⟩
    · exact ⟨hsame ▸ hs,⟨heval,hfound⟩,hdone⟩
    · refine ⟨⟨hs.1.added hadd (finite_inlineProperties hc),?_⟩,⟨heval,hfound⟩,hdone⟩
      rcases hs.2 with hstart|⟨-,hadded⟩
      · rw [hstart] at hnone hadd
        exact Or.inr ⟨hnone,hadd⟩
      · exact absurd (hadded.own (hasProperties_self hc) (labelsOf_cases _)) (hnone _)
  have hloop : ∃ out,mapEach records (matchMergeNode env node pathVar [] []) st=(.ok out,st') := by
    have ⟨out,s₁,hmap,hlast⟩ := ok_of_bind hrun
    rw [(Prod.mk.inj hlast).2] at hmap
    exact ⟨out,hmap⟩
  have ⟨out,hmap⟩ := hloop
  have ⟨hend,hall,_⟩ := mapEach_settles (I:=I) hstep ⟨h,Or.inl rfl⟩ hmap
  constructor
  · constructor
    · intro hmatch
      cases hrecords : records with
      | nil => exact Or.inl rfl
      | cons rec rest =>
        right
        have ⟨n,hn,hfits⟩ := hmatch rec (by rw [hrecords]; exact List.mem_cons_self)
        rcases hend.2 with hsame|⟨hnone,hadd⟩
        · rw [hsame] at hn
          exact Or.inl ⟨n,hn,hfits⟩
        · rcases (hadd.stored n).mp hn with hold|hnew
          · exact Or.inl ⟨n,hold,hfits⟩
          · rw [hnew] at hfits
            exact Or.inr ⟨hnone,fun l hl => (List.perm_insertionSort _ _).mem_iff.mp (hfits.labels l hl),
              (holdsAll_inline hc).mp hfits.properties⟩
    · intro hmeets rec hrec
      rcases hmeets with hempty|⟨n,hn,hfits⟩|⟨hnone,hlabels,hself⟩
      · rw [hempty] at hrec
        exact absurd hrec List.not_mem_nil
      · rcases hend.2 with hsame|⟨-,hadd⟩
        · rw [hsame]
          exact ⟨n,hn,hfits⟩
        · exact ⟨n,(hadd.stored n).mpr (Or.inl hn),hfits⟩
      · rcases hend.2 with hsame|⟨-,hadd⟩
        · have ⟨n,hn⟩ := (hall rec hrec).2
          rw [hsame] at hn
          exact absurd hn (hnone n)
        · exact ⟨_,(hadd.stored _).mpr (Or.inr rfl),
            fun l hl => (List.perm_insertionSort _ _).mem_iff.mpr (hlabels l hl),(holdsAll_inline hc).mpr hself⟩
  · refine Rests.bind (rests_mapEach fun rec hrec => ?_) fun rows _ => ⟨_,rfl⟩
    exact matchMergeNode_rests hend.1 hc pathVar (hall rec hrec).1 (hall rec hrec).2

end Nodes

section Relationships

variable {E : Type} {value : E → Value} {env : ExecEnv E} {st st' : Store}
variable {a b : NodeId} {rec : NamedRecord} {pathVar : Option String} {rel : RelPatternOf E}
  {rows : List NamedRecord} {src dst : NodePatternOf E}

theorem MergeStore.addEdge (h : MergeStore env.enc st) {l : String} (hl : isValidName l=true)
    (hroom : edgeSeqCounter st≠0xFFFFFFFFFFFFFFFF) {props : Properties}
    (hprops : ∀ entry∈props,finiteMaps entry.2=true) : MergeStore env.enc (addEdge st a b l props) := by
  have hnames : CheckedNames l [] := ⟨hl,fun _ hkey => absurd hkey List.not_mem_nil⟩
  have hunseen : Unseen st (EdgeStorage.addEdge st a b l props) := by
    have hlink : Unseen st (linkEdge st a b l) :=
      ⟨rfl,rfl,rfl,rfl,fun hx => adjOk_adjInsert hx a b hnames.1,fun hx => adjOk_adjInsert hx b a hnames.1⟩
    refine hlink.trans ⟨rfl,?_,rfl,rfl,fun hx => hx,fun hx => hx⟩
    change get (put (put st.metadata nextEdgeSeqKey _) (edgeTypeCountKey l) _) nextNodeIdKey=_
    rw [get_put_ne (edgeTypeCountKey_ne_nextNodeIdKey l).symm,get_put_ne nextNodeIdKey_ne_nextEdgeSeqKey]
    rfl
  refine ⟨⟨h.indexed.nodes.of_unseen hunseen,h.indexed.mirror.congr hunseen.indexTables hunseen.recordAt⟩,
    h.edges.addEdge a b hl props hroom,h.nodeValues,fun key found hget => ?_⟩
  rw [get_addEdge] at hget
  split_ifs at hget
  · rw [←Option.some.inj hget]
    exact hprops
  · exact h.edgeValues key found hget

theorem bindMergedPath_iff {e : MergedEdge} : (∃ out,bindMergedPath rec pathVar e st=.ok out) ↔
    (pathVar≠none → (∃ n,getNode st e.src=.ok n) ∧ ∃ n,getNode st e.dst=.ok n) := by
  unfold bindMergedPath
  cases pathVar with
  | none => simp
  | some path =>
    dsimp only
    constructor
    · intro h _
      have ⟨out,hout⟩ := h
      cases hsrc : getNode st e.src with
      | error x =>
        rw [hsrc] at hout
        cases hout
      | ok n =>
        cases hdst : getNode st e.dst with
        | error x =>
          rw [hsrc,hdst] at hout
          cases hout
        | ok m => exact ⟨⟨n,rfl⟩,m,rfl⟩
    · intro h
      have ⟨⟨n,hn⟩,m,hm⟩ := h (by simp)
      rw [bind_of_ok hn,bind_of_ok hm]
      exact ⟨_,rfl⟩

theorem setMatchedEdges_rest (rec : NamedRecord) (found : List MergedEdge) (st : Store) :
    forEach found (setMatchedEdge env [] rec) st=(.ok (),st) := by
  induction found with
  | nil => rfl
  | cons e rest ih =>
    rw [forEach,bind_ok (show setMatchedEdge env [] rec e st=(.ok (),st) from rfl)]
    exact ih

/-- MERGE of a relationship between two nodes finds matches and leaves the state, or
creates one. -/
theorem matchMergeEdge_step (h : MergeStore env.enc st)
    (hc : Constants value env rel.properties) (hrun : matchMergeEdge env rel pathVar [] [] a b rec st=(.ok rows,st')) :
    mergeProperties env st' rec [] rel.properties=.ok (inlineProperties value rel.properties) ∧
    (pathVar≠none → (∃ n,getNode st' a=.ok n) ∧ ∃ n,getNode st' b=.ok n) ∧
    (st'=st ∧ matchedEdges st rel.direction a b (edgeTypeOf rel) (inlineProperties value rel.properties)≠[] ∨
      isValidName (edgeTypeOf rel)=true ∧ edgeSeqCounter st≠0xFFFFFFFFFFFFFFFF ∧
        st'=addEdge st a b (edgeTypeOf rel) (inlineProperties value rel.properties)) := by
  unfold matchMergeEdge at hrun
  have ⟨hrest,hagain⟩ := inline_of_run hc hrun
  have ⟨found,hfound,hmore⟩ := ok_of_inspect hrest
  have hlist : matchedEdges st rel.direction a b (edgeTypeOf rel) (inlineProperties value rel.properties)=found :=
    Except.ok.inj hfound
  cases found with
  | nil =>
    rw [if_pos List.isEmpty_nil] at hmore
    have ⟨u,st₃,hcreate,hset⟩ := ok_of_bind hmore
    have ⟨v,st₄,hnone,hbind⟩ := ok_of_bind hset
    have ⟨out,st₅,hpath,hlast⟩ := ok_of_bind hbind
    rw [←(Prod.mk.inj hnone).2] at hpath
    have hst : st₃=st' := (Prod.mk.inj hpath).2.trans (Prod.mk.inj hlast).2
    have hread := bindMergedPath_iff.mp ⟨out,(Prod.mk.inj hpath).1⟩
    rw [hst] at hcreate hread
    have ⟨hl,hroom,hadd⟩ := createEdge_added h.edges hcreate
    exact ⟨hagain,hread,Or.inr ⟨hl,hroom,hadd⟩⟩
  | cons e others =>
    rw [if_neg (show ¬(e::others).isEmpty=true by simp),bind_ok (setMatchedEdges_rest rec _ st)] at hmore
    have ⟨first,hfirst,htail⟩ := ok_of_inspect hmore
    have hkeeps : Keeps (fun s => s=st) (mapEach others fun e => inspect fun st =>
        bindMergedPath (bindMergedEdge rec rel.var e st) pathVar e st) :=
      keeps_mapEach fun m _ => keeps_inspect _ _
    have ⟨rest,st₄,hloop,hlast⟩ := ok_of_bind htail
    have hkept := hkeeps st rfl
    rw [hloop] at hkept
    have hst : st'=st := (Prod.mk.inj hlast).2.symm.trans hkept
    have hread := bindMergedPath_iff.mp ⟨first,hfirst⟩
    have hends := ends_of_matchedEdges (hlist.symm ▸ List.mem_cons_self : e∈matchedEdges st rel.direction a b _ _)
    rw [hst] at hagain ⊢
    refine ⟨hagain,fun hpath => ?_,Or.inl ⟨rfl,by rw [hlist]; simp⟩⟩
    rcases hends with ⟨hsrc,hdst⟩|⟨hsrc,hdst⟩
    · rw [hsrc,hdst] at hread
      exact hread hpath
    · rw [hsrc,hdst] at hread
      exact (hread hpath).symm

theorem matchMergeEdge_rests
    (heval : mergeProperties env st rec [] rel.properties=.ok (inlineProperties value rel.properties))
    (hread : pathVar≠none → (∃ n,getNode st a=.ok n) ∧ ∃ n,getNode st b=.ok n)
    (hfound : matchedEdges st rel.direction a b (edgeTypeOf rel) (inlineProperties value rel.properties)≠[]) :
    Rests (matchMergeEdge env rel pathVar [] [] a b rec) st := by
  unfold matchMergeEdge
  refine Rests.after (by rw [inspect_apply,heval]) ?_
  refine Rests.after rfl ?_
  rw [if_neg (fun hempty => hfound (List.isEmpty_iff.mp hempty))]
  refine Rests.bind ⟨_,setMatchedEdges_rest rec _ st⟩ fun _ _ => rests_mapEach fun e he => ?_
  have hends : pathVar≠none → (∃ n,getNode st e.src=.ok n) ∧ ∃ n,getNode st e.dst=.ok n := by
    intro hpath
    rcases ends_of_matchedEdges he with ⟨hsrc,hdst⟩|⟨hsrc,hdst⟩
    · rw [hsrc,hdst]
      exact hread hpath
    · rw [hsrc,hdst]
      exact (hread hpath).symm
  have hbind : ∃ out,bindMergedPath (bindMergedEdge rec rel.var e st) pathVar e st=.ok out :=
    bindMergedPath_iff.mpr hends
  have ⟨out,hout⟩ := hbind
  exact ⟨out,by rw [inspect_apply,hout]⟩

/-- A record binds both ends of a relationship pattern. -/
def BindsEnds (rec : NamedRecord) (src dst : NodePatternOf E) (a b : NodeId) : Prop :=
  ∃ v w,src.var=some v ∧ dst.var=some w ∧ nodeIdField rec v=some a ∧ nodeIdField rec w=some b

/-- Relationships were added between nodes that records bind. -/
structure EdgesAdded (records : List NamedRecord) (src dst : NodePatternOf E) (l : String)
    (props : Properties) (st st' : Store) : Prop where
  /-- Same nodes. -/
  nodes : ∀ n,Stored st' n ↔ Stored st n
  /-- Relationships stay. -/
  kept : ∀ key found,get st.edgeProps key=some found → get st'.edgeProps key=some found
  /-- New ones join bound nodes and hold the inline properties. -/
  added : ∀ key found,get st'.edgeProps key=some found → get st.edgeProps key=some found ∨
    isValidName l=true ∧ found=props ∧
      ∃ rec∈records,∃ a b q,BindsEnds rec src dst a b ∧ key=edgePropsKey a b l q

/-- The ends that a record binds are joined by a match, and can be read for a path. -/
def EdgeSettled (env : ExecEnv E) (value : E → Value) (src : NodePatternOf E) (rel : RelPatternOf E)
    (dst : NodePatternOf E) (pathVar : Option String) (rec : NamedRecord) (st : Store) : Prop :=
  ∀ a b,BindsEnds rec src dst a b →
    mergeProperties env st rec [] rel.properties=.ok (inlineProperties value rel.properties) ∧
    (pathVar≠none → (∃ n,getNode st a=.ok n) ∧ ∃ n,getNode st b=.ok n) ∧
    matchedEdges st rel.direction a b (edgeTypeOf rel) (inlineProperties value rel.properties)≠[]

theorem EdgeSettled.added (h : EdgeInv st) (hc : Constants value env rel.properties)
    (hsettled : EdgeSettled env value src rel dst pathVar rec st) (hl : isValidName (edgeTypeOf rel)=true)
    (hroom : edgeSeqCounter st≠0xFFFFFFFFFFFFFFFF) (props : Properties) :
    EdgeSettled env value src rel dst pathVar rec (addEdge st a b (edgeTypeOf rel) props) := by
  intro x y hbinds
  have ⟨heval,hread,hfound⟩ := hsettled x y hbinds
  refine ⟨(mergeProperties_again hc _ st rec rec []).trans heval,hread,?_⟩
  rw [matchedEdges_iff (h.addEdge a b hl props hroom) hl]
  rcases (matchedEdges_iff h hl rel.direction).mp hfound with hforward|⟨hdirection,hbackward⟩
  · exact Or.inl (hforward.added h)
  · exact Or.inr ⟨hdirection,hbackward.added h⟩

/-- MERGE of a relationship on one record settles the record and no other is unsettled. -/
theorem matchMergeRelationship_step {records : List NamedRecord} {s s' : Store} (h : MergeStore env.enc s) (hc : Constants value env rel.properties) {srcVar dstVar : String} (hsrc : src.var=some srcVar)
    (hdst : dst.var=some dstVar) (hrec : rec∈records)
    (hadded : EdgesAdded records src dst (edgeTypeOf rel) (inlineProperties value rel.properties) st s)
    (hrun : matchMergeRelationship env srcVar dstVar rel pathVar [] [] rec s=(.ok rows,s')) :
    (MergeStore env.enc s' ∧
      EdgesAdded records src dst (edgeTypeOf rel) (inlineProperties value rel.properties) st s') ∧
    EdgeSettled env value src rel dst pathVar rec s' ∧
    ∀ other,EdgeSettled env value src rel dst pathVar other s →
      EdgeSettled env value src rel dst pathVar other s' := by
  unfold matchMergeRelationship at hrun
  have hfree : (∀ a b,nodeIdField rec srcVar=some a → nodeIdField rec dstVar=some b → False) →
      EdgeSettled env value src rel dst pathVar rec s := by
    intro hnone a b hbinds
    have ⟨v,w,hv,hw,ha,hb⟩ := hbinds
    rw [hsrc] at hv
    rw [hdst] at hw
    rw [←Option.some.inj hv] at ha
    rw [←Option.some.inj hw] at hb
    exact absurd hb (fun hb => hnone a b ha hb)
  cases ha : nodeIdField rec srcVar with
  | none =>
    rw [ha] at hrun
    rw [←(Prod.mk.inj hrun).2]
    exact ⟨⟨h,hadded⟩,hfree fun a b hx _ => absurd (ha.symm.trans hx) (by simp),fun _ hother => hother⟩
  | some a =>
    cases hb : nodeIdField rec dstVar with
    | none =>
      rw [ha,hb] at hrun
      rw [←(Prod.mk.inj hrun).2]
      exact ⟨⟨h,hadded⟩,hfree fun x y _ hx => absurd (hb.symm.trans hx) (by simp),fun _ hother => hother⟩
    | some b =>
      rw [ha,hb] at hrun
      have ⟨heval,hread,hcases⟩ := matchMergeEdge_step h hc hrun
      have hbound : BindsEnds rec src dst a b := ⟨srcVar,dstVar,hsrc,hdst,ha,hb⟩
      have hown : matchedEdges s' rel.direction a b (edgeTypeOf rel)
          (inlineProperties value rel.properties)≠[] → EdgeSettled env value src rel dst pathVar rec s' := by
        intro hfound x y hbinds
        have ⟨v,w,hv,hw,hx,hy⟩ := hbinds
        rw [hsrc] at hv
        rw [hdst] at hw
        rw [←Option.some.inj hv,ha] at hx
        rw [←Option.some.inj hw,hb] at hy
        rw [←Option.some.inj hx,←Option.some.inj hy]
        exact ⟨heval,hread,hfound⟩
      rcases hcases with ⟨hsame,hfound⟩|⟨hl,hroom,hadd⟩
      · rw [hsame] at hown ⊢
        exact ⟨⟨h,hadded⟩,hown hfound,fun _ hother => hother⟩
      · rw [hadd] at hown ⊢
        have hstore := h.addEdge (a:=a) (b:=b) hl hroom (finite_inlineProperties hc)
        refine ⟨⟨hstore,hadded.nodes,fun key found hget => ?_,fun key found hget => ?_⟩,?_,fun _ hother => ?_⟩
        · exact get_addEdge_old h.edges (hadded.kept key found hget)
        · rw [get_addEdge] at hget
          split_ifs at hget with hkey
          · exact Or.inr ⟨hl,(Option.some.inj hget).symm,rec,hrec,a,b,_,hbound,hkey⟩
          · exact hadded.added key found hget
        · apply hown
          rw [matchedEdges_iff hstore.edges hl]
          exact Or.inl (joined_addEdge s a b _ (hasProperties_self hc))
        · exact hother.added h.edges hc hl hroom _

/-- A relationship that joins two nodes fits when its ends do and the values know
themselves. -/
theorem relationshipMatches_of_joined (h : MergeStore env.enc st) {a b : Node} (hc : Constants value env rel.properties)
    (ha : Stored st a) (hb : Stored st b)
    (hfits : RelationshipFits value rec a b (edgeTypeOf rel) (inlineProperties value rel.properties) src rel dst)
    (hjoined : Joined st a.id b.id (edgeTypeOf rel) (inlineProperties value rel.properties) ∨
      rel.direction=.undirected ∧
        Joined st b.id a.id (edgeTypeOf rel) (inlineProperties value rel.properties)) :
    RelationshipMatches value (Stored st) st rec src rel dst := by
  have hself := (holdsAll_inline hc).mp hfits.properties
  have hholds : ∀ {key found},get st.edgeProps key=some found →
      hasProperties found (inlineProperties value rel.properties)=true → HoldsAll value found rel.properties :=
    fun hget hprops => holdsAll_of_hasProperties hc hself (h.edgeValues _ _ hget) hprops
  rcases hjoined with ⟨q,found,hget,hprops⟩|⟨hdirection,q,found,hget,hprops⟩
  · exact ⟨a,b,_,q,found,ha,hb,hget,hfits.label,hholds hget hprops,hfits.ends⟩
  · refine ⟨b,a,_,q,found,hb,ha,hget,hfits.label,hholds hget hprops,?_⟩
    rcases hfits.ends with ⟨-,hends⟩|⟨-,hends⟩
    · exact Or.inr ⟨by rw [hdirection]; simp,hends⟩
    · exact Or.inl ⟨by rw [hdirection]; simp,hends⟩

/-- On records MERGE of a relationship establishes its pattern exactly when on every record
it matches already, or nodes bound by some record fit it with a relationship along the
written order; it never creates a second time. -/
theorem matchMergeRelationships_established (h : MergeStore env.enc st) (hc : Constants value env rel.properties)
    {records : List NamedRecord}
    (hrun : execMatchMerge env records ((MergePattern.relationship src rel dst).pattern pathVar) [] [] st=
      (.ok rows,st')) :
    ((∀ rec∈records,RelationshipMatches value (Stored st') st' rec src rel dst) ↔
      ∀ rec∈records,RelationshipMatches value (Stored st) st rec src rel dst ∨
        isValidName (edgeTypeOf rel)=true ∧ ∃ other∈records,∃ a b,
          BindsEnds other src dst a.id b.id ∧ Stored st a ∧ Stored st b ∧
          RelationshipFits value rec a b (edgeTypeOf rel) (inlineProperties value rel.properties) src rel dst) ∧
      Rests (execMatchMerge env records ((MergePattern.relationship src rel dst).pattern pathVar) [] []) st' := by
  have hloop : ∃ srcVar dstVar out,src.var=some srcVar ∧ dst.var=some dstVar ∧
      mapEach records (matchMergeRelationship env srcVar dstVar rel pathVar [] []) st=(.ok out,st') := by
    have ⟨srcVar,hsrc,hmore⟩ := ok_of_inspect hrun
    have ⟨dstVar,hdst,hmap⟩ := ok_of_inspect hmore
    have ⟨out,s₃,hout,hlast⟩ := ok_of_bind hmap
    rw [(Prod.mk.inj hlast).2] at hout
    exact ⟨srcVar,dstVar,out,endVariable_ok hsrc,endVariable_ok hdst,hout⟩
  have ⟨srcVar,dstVar,out,hsrc,hdst,hmap⟩ := hloop
  let I : Store → Prop := fun s => MergeStore env.enc s ∧
    EdgesAdded records src dst (edgeTypeOf rel) (inlineProperties value rel.properties) st s
  have hstart : I st := ⟨h,fun n => Iff.rfl,fun _ _ hget => hget,fun _ _ hget => Or.inl hget⟩
  have ⟨⟨hend,hadded⟩,hall,_⟩ := mapEach_settles (I:=I)
    (fun rec hrec s out s' hs hbody => matchMergeRelationship_step hs.1 hc hsrc hdst hrec hs.2 hbody) hstart hmap
  constructor
  · constructor
    · intro hmatch rec hrec
      have ⟨a,b,label,q,found,ha,hb,hget,hfits⟩ := hmatch rec hrec
      rcases hadded.added _ _ hget with hold|⟨hl,hfound,other,hother,x,y,q',hbinds,hkey⟩
      · exact Or.inl ⟨a,b,label,q,found,(hadded.nodes a).mp ha,(hadded.nodes b).mp hb,hold,hfits⟩
      · have ⟨hx,hy,hlabel,_⟩ := edgePropsKey_inj.mp hkey
        rw [hlabel,hfound] at hfits
        rw [←hx,←hy] at hbinds
        exact Or.inr ⟨hl,other,hother,a,b,hbinds,(hadded.nodes a).mp ha,(hadded.nodes b).mp hb,hfits⟩
    · intro hmeets rec hrec
      rcases hmeets rec hrec with ⟨a,b,label,q,found,ha,hb,hget,hfits⟩|⟨hl,other,hother,a,b,hbinds,ha,hb,hfits⟩
      · exact ⟨a,b,label,q,found,(hadded.nodes a).mpr ha,(hadded.nodes b).mpr hb,hadded.kept _ _ hget,hfits⟩
      · have hfound := (hall other hother a.id b.id hbinds).2.2
        exact relationshipMatches_of_joined hend hc ((hadded.nodes a).mpr ha) ((hadded.nodes b).mpr hb) hfits
          ((matchedEdges_iff hend.edges hl rel.direction).mp hfound)
  · have hsrcVar : ∀ message,endVariable src message=.ok srcVar := by
      intro message
      rw [endVariable,hsrc]
    have hdstVar : ∀ message,endVariable dst message=.ok dstVar := by
      intro message
      rw [endVariable,hdst]
    refine Rests.after (by rw [inspect_apply,hsrcVar]) (Rests.after (by rw [inspect_apply,hdstVar]) ?_)
    refine Rests.bind (rests_mapEach fun rec hrec => ?_) fun rows _ => ⟨_,rfl⟩
    unfold matchMergeRelationship
    cases ha : nodeIdField rec srcVar with
    | none => exact ⟨_,rfl⟩
    | some a =>
      cases hb : nodeIdField rec dstVar with
      | none => exact ⟨_,rfl⟩
      | some b =>
        have ⟨heval,hread,hfound⟩ := hall rec hrec a b ⟨srcVar,dstVar,hsrc,hdst,ha,hb⟩
        exact matchMergeEdge_rests heval hread hfound

end Relationships

section Ends

variable {E : Type} {value : E → Value} {env : ExecEnv E} {st st' : Store}

/-- The node with the least identifier of a kind, or a fresh one when there is none. -/
def Chosen (kind : Node → Prop) (fresh n : Node) : Prop :=
  (kind n ∧ ∀ m,kind m → n.id≤ m.id) ∨ (∀ m,¬kind m) ∧ n=fresh

variable {n m : Node} {inline : List (String×E)} {props tested : Properties} {rec : NamedRecord}

theorem Chosen.unique {kind : Node → Prop} {fresh : Node} (hinj : ∀ x y,kind x → kind y → x.id=y.id → x=y)
    (hn : Chosen kind fresh n) (hm : Chosen kind fresh m) : n=m := by
  rcases hn with ⟨hn,hleast⟩|⟨hnone,hn⟩
  · rcases hm with ⟨hm,hleast'⟩|⟨hnone,-⟩
    · exact hinj n m hn hm (le_antisymm (hleast m hm) (hleast' n hn))
    · exact absurd hn (hnone n)
  · rcases hm with ⟨hm,-⟩|⟨-,hm⟩
    · exact absurd hm (hnone m)
    · rw [hn,hm]

/-- The identifier handed out next when an end was chosen. -/
def counterAfter (st : Store) (n : Node) : NodeId :=
  if n.id=nodeIdCounter st then nodeIdCounter st+1 else nodeIdCounter st

/-- An end of a relationship pattern was found or created. -/
structure EndChosen (label : String) (props : Properties) (n : Node) (st st' : Store) : Prop where
  /-- It is the least candidate or the new node. -/
  chosen : Chosen (Candidate st label props) (newNode st (labelsOf label) props) n
  /-- No other node is added. -/
  stored : ∀ m,Stored st' m ↔ Stored st m ∨ m=n
  /-- The label tests stay. -/
  tests : ∀ l tested found,LabelPasses st' l tested found ↔ LabelPasses st l tested found
  /-- At most one identifier is handed out. -/
  counter : nodeIdCounter st'=counterAfter st n
  /-- The relationships stay. -/
  edges : SameEdges st st'
  /-- The end is a candidate. -/
  own : Candidate st' label props n

variable {label : String} {n : Node} {a b : NodeId} {rel : RelPatternOf E}

theorem findOrCreateMergeNode_chosen (h : MergeStore env.enc st) (hc : Constants value env inline) {id : NodeId}
    (hrun : findOrCreateMergeNode env label inline st=(.ok id,st')) : MergeStore env.enc st' ∧
    mergeProperties env st' ⟨[]⟩ [] inline=.ok (inlineProperties value inline) ∧ ∃ n,n.id=id ∧
    EndChosen label (inlineProperties value inline) n st st' := by
  unfold findOrCreateMergeNode at hrun
  have ⟨hrest,hagain⟩ := inline_of_run hc hrun
  have ⟨found,hsearch,hleast⟩ := findMergeMatchEvaluated_ok h.indexed hc.sameBytes label
  rw [inspect_ok (by exact hsearch)] at hrest
  cases found with
  | some n =>
    have ⟨hcandidate,hfirst⟩ := hleast.some_ n rfl
    have hid : n.id=id := Except.ok.inj (Prod.mk.inj hrest).1
    rw [←(Prod.mk.inj hrest).2] at hagain ⊢
    have hlt := h.indexed.nodes.id_lt (stored_iff.mp hcandidate.stored)
    refine ⟨h,hagain,n,hid,Or.inl ⟨hcandidate,hfirst⟩,fun m => ?_,fun _ _ _ => Iff.rfl,?_,
      SameEdges.refl st,hcandidate⟩
    · constructor
      · exact Or.inl
      · intro hm
        rcases hm with hm|hm
        · exact hm
        · rw [hm]
          exact hcandidate.stored
    · rw [counterAfter,if_neg hlt.ne]
  | none =>
    have ⟨hid,hadd⟩ := createIndexedNode_added h.indexed hrest
    refine ⟨h.added hadd (finite_inlineProperties hc),hagain,_,hid.symm,
      Or.inr ⟨hleast.none_ rfl,rfl⟩,hadd.stored,fun _ _ _ => hadd.labelPasses,?_,hadd.edges,
      hadd.own (hasProperties_self hc) (labelsOf_cases label)⟩
    rw [counterAfter,if_pos (show (newNode st (labelsOf label) (inlineProperties value inline)).id=
      nodeIdCounter st from rfl),hadd.next]

theorem EndChosen.least (h : EndChosen label props n st st') (hm : Candidate st' label props m) : n.id≤ m.id := by
  rcases (h.stored m).mp hm.stored with hold|hnew
  · have hbefore : Candidate st label props m := ⟨hold,hm.properties,(h.tests _ _ _).mp hm.label⟩
    rcases h.chosen with ⟨-,hleast⟩|⟨hnone,-⟩
    · exact hleast m hbefore
    · exact absurd hbefore (hnone m)
  · rw [hnew]

theorem EndChosen.keeps_least (hnodes : NodesOk st) {label other : String} {d : Node}
    (h : EndChosen other tested d st st') (hn : Candidate st label props n)
    (hleast : ∀ m,Candidate st label props m → n.id≤ m.id) :
    Candidate st' label props n ∧ ∀ m,Candidate st' label props m → n.id≤ m.id := by
  refine ⟨⟨(h.stored n).mpr (Or.inl hn.stored),hn.properties,(h.tests _ _ _).mpr hn.label⟩,fun m hm => ?_⟩
  have hstored : Stored st m → n.id≤ m.id := fun hold =>
    hleast m ⟨hold,hm.properties,(h.tests _ _ _).mp hm.label⟩
  rcases (h.stored m).mp hm.stored with hold|hnew
  · exact hstored hold
  · rcases h.chosen with ⟨hd,-⟩|⟨-,hd⟩
    · rw [←hnew] at hd
      exact hstored hd.stored
    · rw [hnew,hd]
      exact (hnodes.id_lt (stored_iff.mp hn.stored)).le

theorem findOrCreateMergeNode_rests (h : MergeStore env.enc st) (hc : Constants value env inline)
    (heval : mergeProperties env st ⟨[]⟩ [] inline=.ok (inlineProperties value inline))
    (hn : Candidate st label (inlineProperties value inline) n)
    (hleast : ∀ m,Candidate st label (inlineProperties value inline) m → n.id≤ m.id) :
    findOrCreateMergeNode env label inline st=(.ok n.id,st) := by
  have ⟨found,hsearch,hfound⟩ := findMergeMatchEvaluated_ok h.indexed hc.sameBytes label
  unfold findOrCreateMergeNode
  rw [inspect_ok (by exact heval),inspect_ok (by exact hsearch)]
  cases found with
  | none => exact absurd hn (hfound.none_ rfl n)
  | some m =>
    have ⟨hm,hfirst⟩ := hfound.some_ m rfl
    have hid : m.id=n.id := le_antisymm (hfirst n hn) (hleast m hm)
    rw [←hid]
    rfl

theorem candidate_addEdge {l : String} :
    Candidate (addEdge st a b l props) label tested n ↔ Candidate st label tested n :=
  ⟨fun h => ⟨h.stored,h.properties,h.label.index,h.label.scan⟩,
    fun h => ⟨h.stored,h.properties,h.label.index,h.label.scan⟩⟩

/-- MERGE of a relationship between chosen ends leaves the state or creates one. -/
theorem mergeEdge_step (h : MergeStore env.enc st)
    (hc : Constants value env rel.properties)
    (hrun : mergeEdge env rel [] [] a b rec st=(.ok (),st')) :
    mergeProperties env st' ⟨[]⟩ [] rel.properties=.ok (inlineProperties value rel.properties) ∧
    (firstEdgeMatches st a b (edgeTypeOf rel) (inlineProperties value rel.properties)=true ∧ st'=st ∨
      firstEdgeMatches st a b (edgeTypeOf rel) (inlineProperties value rel.properties)≠true ∧
        isValidName (edgeTypeOf rel)=true ∧ edgeSeqCounter st≠0xFFFFFFFFFFFFFFFF ∧
        st'=addEdge st a b (edgeTypeOf rel) (inlineProperties value rel.properties)) := by
  unfold mergeEdge at hrun
  have ⟨hrest,hagain⟩ := inline_of_run hc hrun
  refine ⟨hagain,?_⟩
  have ⟨found,hfound,hmore⟩ := ok_of_inspect hrest
  have htest : firstEdgeMatches st a b (edgeTypeOf rel) (inlineProperties value rel.properties)=found :=
    Except.ok.inj hfound
  cases found with
  | true =>
    rw [if_pos rfl] at hmore
    exact Or.inl ⟨htest,(Prod.mk.inj hmore).2.symm⟩
  | false =>
    rw [if_neg (by simp)] at hmore
    have ⟨u,st₃,hcreate,hset⟩ := ok_of_bind hmore
    have hst : st₃=st' := (Prod.mk.inj hset).2
    rw [hst] at hcreate
    exact Or.inr ⟨by rw [htest]; simp,createEdge_added h.edges hcreate⟩

theorem firstEdgeMatches_after (h : MergeStore env.enc st)
    (hc : Constants value env rel.properties)
    (hrun : mergeEdge env rel [] [] a b rec st=(.ok (),st')) :
    firstEdgeMatches st' a b (edgeTypeOf rel) (inlineProperties value rel.properties)=true ↔
      ¬(HasEdge st a b (edgeTypeOf rel) ∧ hasProperties (getEdgeProperties st a b (edgeTypeOf rel))
        (inlineProperties value rel.properties)≠true) := by
  obtain ⟨-,⟨hfirst,hsame⟩|⟨hfirst,hl,hroom,hadd⟩⟩ := mergeEdge_step h hc hrun
  · rw [hsame,hfirst]
    simp only [true_iff]
    exact fun hbad => hbad.2 ((firstEdgeMatches_iff h.edges).mp hfirst).2
  · have ⟨hkept,hnew⟩ := getEdgeProperties_addEdge (s:=a) (d:=b) h.edges hl hroom
      (inlineProperties value rel.properties)
    have hedge : HasEdge st' a b (edgeTypeOf rel) := by
      rw [hadd,hasEdge_addEdge]
      exact Or.inl ⟨rfl,rfl,rfl⟩
    have hstore := h.addEdge (a:=a) (b:=b) hl hroom (finite_inlineProperties hc)
    rw [hadd] at hedge ⊢
    rw [firstEdgeMatches_iff hstore.edges]
    by_cases hbefore : HasEdge st a b (edgeTypeOf rel)
    · rw [hkept hbefore]
      have hnot : hasProperties (getEdgeProperties st a b (edgeTypeOf rel))
          (inlineProperties value rel.properties)≠true := fun hprops =>
        hfirst ((firstEdgeMatches_iff h.edges).mpr ⟨hbefore,hprops⟩)
      constructor
      · intro hx
        exact absurd hx.2 hnot
      · intro hx
        exact absurd ⟨hbefore,hnot⟩ hx
    · rw [hnew hbefore]
      constructor
      · intro _ hbad
        exact hbefore hbad.1
      · intro _
        exact ⟨hedge,hasProperties_self hc⟩

/-- A relationship found between the chosen ends, or created there. -/
structure RelationshipRun (env : ExecEnv E) (value : E → Value) (src : NodePatternOf E) (rel : RelPatternOf E)
    (dst : NodePatternOf E) (s d : Node) (st st₁ st₂ st' : Store) : Prop where
  /-- The source was chosen. -/
  source : EndChosen (firstLabel src) (inlineProperties value src.properties) s st st₁
  /-- The destination was chosen after it. -/
  target : EndChosen (firstLabel dst) (inlineProperties value dst.properties) d st₁ st₂
  /-- The database is kept by the first choice. -/
  first : MergeStore env.enc st₁
  /-- The database is kept by the second choice. -/
  second : MergeStore env.enc st₂
  /-- The properties of the source evaluate. -/
  sourceProps : mergeProperties env st' ⟨[]⟩ [] src.properties=.ok (inlineProperties value src.properties)
  /-- The properties of the destination evaluate. -/
  targetProps : mergeProperties env st' ⟨[]⟩ [] dst.properties=.ok (inlineProperties value dst.properties)
  /-- The relationship was found or created. -/
  edge : ∃ rec,mergeEdge env rel [] [] s.id d.id rec st₂=(.ok (),st')

theorem execMergeRelationship_run (h : MergeStore env.enc st) {src dst : NodePatternOf E}
    (hsrc : Constants value env src.properties) (hdst : Constants value env dst.properties)
    {pathVar : Option String} {rows : List NamedRecord}
    (hrun : execMergeRelationship env src rel dst pathVar [] [] st=(.ok rows,st')) :
    ∃ s d st₁ st₂,RelationshipRun env value src rel dst s d st st₁ st₂ st' := by
  unfold execMergeRelationship at hrun
  have ⟨srcId,st₁,hfirst,hrest⟩ := ok_of_bind hrun
  have ⟨dstId,st₂,hsecond,hmore⟩ := ok_of_bind hrest
  have ⟨u,st₃,hedge,hpath⟩ := ok_of_bind hmore
  have ⟨out,st₄,hbind,hlast⟩ := ok_of_bind hpath
  have hst : st₃=st' := (Prod.mk.inj hbind).2.trans (Prod.mk.inj hlast).2
  rw [hst] at hedge
  have ⟨h₁,heval₁,s,hs,hsource⟩ := findOrCreateMergeNode_chosen h hsrc hfirst
  have ⟨h₂,heval₂,d,hd,htarget⟩ := findOrCreateMergeNode_chosen h₁ hdst hsecond
  have hsourceProps := (mergeProperties_again hsrc st' st₁ ⟨[]⟩ ⟨[]⟩ []).trans heval₁
  have htargetProps := (mergeProperties_again hdst st' st₂ ⟨[]⟩ ⟨[]⟩ []).trans heval₂
  rw [←hs,←hd] at hedge
  exact ⟨s,d,st₁,st₂,hsource,htarget,h₁,h₂,hsourceProps,htargetProps,_,hedge⟩

section RelationshipRun

variable {src dst : NodePatternOf E} {rel : RelPatternOf E} {s d : Node} {st₁ st₂ : Store}
  (h : RelationshipRun env value src rel dst s d st st₁ st₂ st')

include h

theorem RelationshipRun.stored (n : Node) :
    Stored st₂ n ↔ Stored st n ∨ n=s ∨ n=d := by
  rw [h.target.stored,h.source.stored,or_assoc]

theorem RelationshipRun.cases (hrel : Constants value env rel.properties) :
    mergeProperties env st' ⟨[]⟩ [] rel.properties=.ok (inlineProperties value rel.properties) ∧
    (firstEdgeMatches st₂ s.id d.id (edgeTypeOf rel) (inlineProperties value rel.properties)=true ∧ st'=st₂ ∨
      firstEdgeMatches st₂ s.id d.id (edgeTypeOf rel) (inlineProperties value rel.properties)≠true ∧
        isValidName (edgeTypeOf rel)=true ∧ edgeSeqCounter st₂≠0xFFFFFFFFFFFFFFFF ∧
        st'=addEdge st₂ s.id d.id (edgeTypeOf rel) (inlineProperties value rel.properties)) := by
  have ⟨rec,hedge⟩ := h.edge
  exact mergeEdge_step h.second hrel hedge

theorem RelationshipRun.edgeProps :
    st₂.edgeProps=st.edgeProps := h.target.edges.edgeProps.trans h.source.edges.edgeProps

theorem RelationshipRun.after (hrel : Constants value env rel.properties) :
    MergeStore env.enc st' ∧ (∀ n,Stored st' n ↔ Stored st n ∨ n=s ∨ n=d) ∧
      ∀ label props n,Candidate st' label props n ↔ Candidate st₂ label props n := by
  obtain ⟨-,⟨-,hsame⟩|⟨-,hl,hroom,hadd⟩⟩ := h.cases hrel
  · rw [hsame]
    exact ⟨h.second,h.stored,fun _ _ _ => Iff.rfl⟩
  · rw [hadd]
    exact ⟨h.second.addEdge hl hroom (finite_inlineProperties hrel),h.stored,fun _ _ _ => candidate_addEdge⟩

/-- A MATCH after the run finds a relationship that fitted before between the nodes known
now, or the one between the chosen ends. -/
theorem RelationshipRun.matches_iff (hrel : Constants value env rel.properties) :
    RelationshipMatches value (Stored st') st' ⟨[]⟩ src rel dst ↔
      RelationshipMatches value (fun n => Stored st n ∨ n=s ∨ n=d) st ⟨[]⟩ src rel dst ∨
        RelationshipFits value ⟨[]⟩ s d (edgeTypeOf rel) (inlineProperties value rel.properties) src rel dst := by
  have ⟨hstore,hstored,_⟩ := h.after hrel
  have hkept : ∀ key found,get st.edgeProps key=some found → get st'.edgeProps key=some found := by
    intro key found hget
    rw [←h.edgeProps] at hget
    obtain ⟨-,⟨-,hsame⟩|⟨-,-,-,hadd⟩⟩ := h.cases hrel
    · rw [hsame]
      exact hget
    · rw [hadd]
      exact get_addEdge_old h.second.edges hget
  have hs : Stored st' s := (hstored s).mpr (Or.inr (Or.inl rfl))
  have hd : Stored st' d := (hstored d).mpr (Or.inr (Or.inr rfl))
  have hjoined : Joined st' s.id d.id (edgeTypeOf rel) (inlineProperties value rel.properties) := by
    obtain ⟨-,⟨hfirst,hsame⟩|⟨-,-,-,hadd⟩⟩ := h.cases hrel
    · have ⟨hedge,hprops⟩ := (firstEdgeMatches_iff h.second.edges).mp hfirst
      have hl : isValidName (edgeTypeOf rel)=true := by
        have ⟨q,hq⟩ := hedge
        have ⟨x,y,l,other,hl,hkey,_⟩ := h.second.edges.rows _ hq
        rw [(edgePropsKey_inj.mp hkey).2.2.1]
        exact hl
      rw [hsame]
      exact ⟨_,_,(firstEdgeSeq_spec h.second.edges hl hedge).1,hprops⟩
    · rw [hadd]
      exact joined_addEdge _ _ _ _ (hasProperties_self hrel)
  constructor
  · intro hmatch
    have ⟨a,b,label,q,found,ha,hb,hget,hfits⟩ := hmatch
    obtain ⟨-,⟨-,hsame⟩|⟨-,-,-,hadd⟩⟩ := h.cases hrel
    · rw [hsame,h.edgeProps] at hget
      exact Or.inl ⟨a,b,label,q,found,(hstored a).mp ha,(hstored b).mp hb,hget,hfits⟩
    · rw [hadd,get_addEdge] at hget
      split_ifs at hget with hkey
      · have ⟨hsrc,hdst,hlabel,_⟩ := edgePropsKey_inj.mp hkey
        rw [stored_inj ha hs hsrc,stored_inj hb hd hdst,hlabel,←Option.some.inj hget] at hfits
        exact Or.inr hfits
      · rw [h.edgeProps] at hget
        exact Or.inl ⟨a,b,label,q,found,(hstored a).mp ha,(hstored b).mp hb,hget,hfits⟩
  · intro hmeets
    rcases hmeets with ⟨a,b,label,q,found,ha,hb,hget,hfits⟩|hfits
    · exact ⟨a,b,label,q,found,(hstored a).mpr ha,(hstored b).mpr hb,hkept _ _ hget,hfits⟩
    · exact relationshipMatches_of_joined hstore hrel hs hd hfits (Or.inl hjoined)

theorem RelationshipRun.chooses_again
    (hsrc : Constants value env src.properties) (hdst : Constants value env dst.properties)
    (hrel : Constants value env rel.properties) :
    findOrCreateMergeNode env (firstLabel src) src.properties st'=(.ok s.id,st') ∧
      findOrCreateMergeNode env (firstLabel dst) dst.properties st'=(.ok d.id,st') := by
  have ⟨hstore,_,hcandidate⟩ := h.after hrel
  have ⟨hs,hsleast⟩ := h.target.keeps_least h.first.indexed.nodes h.source.own fun m hm => h.source.least hm
  have hfirst := findOrCreateMergeNode_rests hstore hsrc h.sourceProps ((hcandidate _ _ s).mpr hs)
    fun m hm => hsleast m ((hcandidate _ _ m).mp hm)
  have hsecond := findOrCreateMergeNode_rests hstore hdst h.targetProps ((hcandidate _ _ d).mpr h.target.own)
    fun m hm => h.target.least ((hcandidate _ _ m).mp hm)
  exact ⟨hfirst,hsecond⟩

/-- The second run changes nothing exactly when it finds the first parallel relationship. -/
theorem RelationshipRun.rests_iff
    (hsrc : Constants value env src.properties) (hdst : Constants value env dst.properties)
    (hrel : Constants value env rel.properties) (pathVar : Option String) :
    Rests (execMergeRelationship env src rel dst pathVar [] []) st' ↔
      firstEdgeMatches st' s.id d.id (edgeTypeOf rel) (inlineProperties value rel.properties)=true := by
  have ⟨hstore,hstored,_⟩ := h.after hrel
  have ⟨hfirst,hsecond⟩ := h.chooses_again hsrc hdst hrel
  have heval := (h.cases hrel).1
  constructor
  · intro hrests
    have ⟨rows,hrun⟩ := hrests
    unfold execMergeRelationship at hrun
    rw [bind_ok hfirst,bind_ok hsecond] at hrun
    have ⟨u,st₃,hedge,hpath⟩ := ok_of_bind hrun
    have ⟨out,st₄,hbind,hlast⟩ := ok_of_bind hpath
    have hst : st₃=st' := (Prod.mk.inj hbind).2.trans (Prod.mk.inj hlast).2
    rw [hst] at hedge
    obtain ⟨-,⟨hfound,-⟩|⟨-,hl,hroom,hadd⟩⟩ := mergeEdge_step hstore hrel hedge
    · exact hfound
    · have hnew : get st'.edgeProps (edgePropsKey s.id d.id (edgeTypeOf rel) (edgeSeqCounter st'))=
          some (inlineProperties value rel.properties) := by
        nth_rewrite 1 [hadd]
        rw [get_addEdge,if_pos rfl]
      exact absurd (mem_keys.mpr ⟨_,hnew⟩) (hstore.edges.fresh _ _ _)
  · intro hfound
    have hends : pathVar≠none → (∃ n,getNode st' s.id=.ok n) ∧ ∃ n,getNode st' d.id=.ok n := fun _ =>
      ⟨⟨s,(hstored s).mpr (Or.inr (Or.inl rfl))⟩,d,(hstored d).mpr (Or.inr (Or.inr rfl))⟩
    unfold execMergeRelationship
    refine Rests.after hfirst (Rests.after hsecond ?_)
    refine Rests.bind ?_ fun _ _ => Rests.bind ?_ fun out _ => ⟨[out],rfl⟩
    · unfold mergeEdge
      refine Rests.after (by rw [inspect_apply,heval]) ?_
      refine Rests.after rfl ?_
      rw [if_pos hfound]
      exact ⟨(),rfl⟩
    · have hbind : ∃ out,bindMergedPath (bindEnd (bindEnd ⟨[]⟩ src.var s.id) dst.var d.id) pathVar
          ⟨s.id,d.id,edgeTypeOf rel,none⟩ st'=.ok out := bindMergedPath_iff.mpr hends
      have ⟨out,hout⟩ := hbind
      exact ⟨out,by rw [inspect_apply,hout]⟩

end RelationshipRun

/-- The ends that MERGE of a relationship alone chooses. -/
structure MergeEnds (value : E → Value) (st : Store) (src dst : NodePatternOf E) (s d : Node) : Prop where
  /-- The source is the least candidate or the next node. -/
  source : Chosen (Candidate st (firstLabel src) (inlineProperties value src.properties))
    (newNode st (labelsOf (firstLabel src)) (inlineProperties value src.properties)) s
  /-- The destination is the least candidate, the source included, or the node after. -/
  target : Chosen (fun n => (Stored st n ∨ n=s) ∧
      hasProperties n.properties (inlineProperties value dst.properties)=true ∧
      LabelPasses st (firstLabel dst) (inlineProperties value dst.properties) n.labels)
    ⟨counterAfter st s,(labelsOf (firstLabel dst)).insertionSort (· ≤ ·),inlineProperties value dst.properties⟩ d

variable {src dst : NodePatternOf E} {rel : RelPatternOf E}

theorem RelationshipRun.ends_iff {s d : Node} {st₁ st₂ : Store}
    (h : RelationshipRun env value src rel dst s d st st₁ st₂ st') {a b : Node} :
    MergeEnds value st src dst a b ↔ a=s ∧ b=d := by
  have hkind : ∀ n,Candidate st₁ (firstLabel dst) (inlineProperties value dst.properties) n ↔
      (Stored st n ∨ n=s) ∧ hasProperties n.properties (inlineProperties value dst.properties)=true ∧
        LabelPasses st (firstLabel dst) (inlineProperties value dst.properties) n.labels := by
    intro n
    constructor
    · intro hn
      exact ⟨(h.source.stored n).mp hn.stored,hn.properties,(h.source.tests _ _ _).mp hn.label⟩
    · intro hn
      exact ⟨(h.source.stored n).mpr hn.1,hn.2.1,(h.source.tests _ _ _).mpr hn.2.2⟩
  have hfresh : newNode st₁ (labelsOf (firstLabel dst)) (inlineProperties value dst.properties)=
      ⟨counterAfter st s,(labelsOf (firstLabel dst)).insertionSort (· ≤ ·),
        inlineProperties value dst.properties⟩ := by
    rw [newNode,h.source.counter]
  have htarget : Chosen (fun n => (Stored st n ∨ n=s) ∧
      hasProperties n.properties (inlineProperties value dst.properties)=true ∧
      LabelPasses st (firstLabel dst) (inlineProperties value dst.properties) n.labels)
      ⟨counterAfter st s,(labelsOf (firstLabel dst)).insertionSort (· ≤ ·),
        inlineProperties value dst.properties⟩ d := by
    rw [←hfresh]
    rcases h.target.chosen with ⟨hd,hleast⟩|⟨hnone,hd⟩
    · exact Or.inl ⟨(hkind d).mp hd,fun m hm => hleast m ((hkind m).mpr hm)⟩
    · exact Or.inr ⟨fun m hm => hnone m ((hkind m).mpr hm),hd⟩
  constructor
  · intro hends
    have hsource : a=s := Chosen.unique (fun x y hx hy hid => stored_inj hx.stored hy.stored hid)
      hends.source h.source.chosen
    have hother := hends.target
    rw [hsource] at hother
    exact ⟨hsource,Chosen.unique (fun x y hx hy hid => stored_inj ((h.source.stored x).mpr hx.1)
      ((h.source.stored y).mpr hy.1) hid) hother htarget⟩
  · intro hsame
    rw [hsame.1,hsame.2]
    exact ⟨h.source.chosen,htarget⟩

/-- The ends chosen for a relationship pattern fit it, or another relationship does, and no
first parallel relationship between them hides the pattern. -/
def EndsMeet (value : E → Value) (st : Store) (src : NodePatternOf E) (rel : RelPatternOf E)
    (dst : NodePatternOf E) : Prop :=
  ∃ s d,MergeEnds value st src dst s d ∧
    (RelationshipMatches value (fun n => Stored st n ∨ n=s ∨ n=d) st ⟨[]⟩ src rel dst ∨
      RelationshipFits value ⟨[]⟩ s d (edgeTypeOf rel) (inlineProperties value rel.properties) src rel dst) ∧
    ¬(HasEdge st s.id d.id (edgeTypeOf rel) ∧ hasProperties
      (getEdgeProperties st s.id d.id (edgeTypeOf rel)) (inlineProperties value rel.properties)≠true)

/-- MERGE of a relationship alone establishes its pattern and does nothing the second time
exactly when the chosen ends meet the pattern. -/
theorem execMergeRelationship_established (h : MergeStore env.enc st) (hsrc : Constants value env src.properties)
    (hdst : Constants value env dst.properties) (hrel : Constants value env rel.properties)
    {pathVar : Option String} {rows : List NamedRecord}
    (hrun : execMergeRelationship env src rel dst pathVar [] [] st=(.ok rows,st')) :
    (RelationshipMatches value (Stored st') st' ⟨[]⟩ src rel dst ∧
      Rests (execMergeRelationship env src rel dst pathVar [] []) st') ↔ EndsMeet value st src rel dst := by
  obtain ⟨s,d,st₁,st₂,hends⟩ := execMergeRelationship_run h hsrc hdst hrun
  obtain ⟨rec,hedge⟩ := hends.edge
  have hedges : (HasEdge st₂ s.id d.id (edgeTypeOf rel) ↔ HasEdge st s.id d.id (edgeTypeOf rel)) ∧
      getEdgeProperties st₂ s.id d.id (edgeTypeOf rel)=getEdgeProperties st s.id d.id (edgeTypeOf rel) := by
    rw [HasEdge,HasEdge,getEdgeProperties,getEdgeProperties,hends.edgeProps]
    exact ⟨Iff.rfl,rfl⟩
  rw [hends.rests_iff hsrc hdst hrel,firstEdgeMatches_after hends.second hrel hedge,hends.matches_iff hrel,
    hedges.1,hedges.2]
  constructor
  · intro hboth
    exact ⟨s,d,hends.ends_iff.mpr ⟨rfl,rfl⟩,hboth⟩
  · intro hmeet
    obtain ⟨a,b,hchosen,hboth⟩ := hmeet
    obtain ⟨ha,hb⟩ := hends.ends_iff.mp hchosen
    rw [ha,hb] at hboth
    exact hboth

end Ends

/-- After MERGE the pattern matches on every record, and the same MERGE succeeds without
any change. -/
structure Established {E : Type} (env : ExecEnv E) (value : E → Value) (input : Option (List NamedRecord))
    (pattern : MergePattern E) (pathVar : Option String) (st : Store) : Prop where
  /-- A MATCH has a row for every record. -/
  matched : ∀ rec∈input.getD [⟨[]⟩],Matches value st rec pattern
  /-- The second MERGE changes nothing. -/
  again : Rests (merge env input (pattern.pattern pathVar)) st

/-- When MERGE meets its contract, for each form of the pattern with and without input. -/
def MergeMeets {E : Type} (value : E → Value) (st : Store) : Option (List NamedRecord) → MergePattern E → Prop
  | none,.node n => KnowThemselves value n.properties
  | some records,.node node => records=[] ∨ (∃ n,Stored st n ∧ NodeFits value n node) ∨
      (∀ n,¬Candidate st (firstLabel node) (inlineProperties value node.properties) n) ∧
      (∀ l∈node.labels,l∈labelsOf (firstLabel node)) ∧ KnowThemselves value node.properties
  | none,.relationship src rel dst => EndsMeet value st src rel dst
  | some records,.relationship src rel dst => ∀ rec∈records,
      RelationshipMatches value (Stored st) st rec src rel dst ∨
      isValidName (edgeTypeOf rel)=true ∧ ∃ other∈records,∃ a b,
        BindsEnds other src dst a.id b.id ∧ Stored st a ∧ Stored st b ∧
        RelationshipFits value rec a b (edgeTypeOf rel) (inlineProperties value rel.properties) src rel dst

theorem mergeStore_freshStore (enc : Value → Bytes) : MergeStore enc freshStore := by
  have hindex : IndexInv enc freshStore := indexInv_freshStore
  refine ⟨⟨nodesOk_freshStore,hindex.mirror⟩,edgeInv_freshStore,fun n hn => ?_,fun key found hget => ?_⟩
  · have ⟨row,hget,_⟩ := getNode_ok hn
    rw [freshStore,get_empty] at hget
    cases hget
  · rw [freshStore,get_empty] at hget
    cases hget

/-- A node pattern with one property. -/
def personPattern : MergePattern Value := .node ⟨some "n",["Person"],[("name",.string "Ann")]⟩

/-- A node pattern with two labels. -/
def twoLabels : MergePattern Value := .node ⟨some "n",["A","B"],[]⟩

/-- A record in front of MERGE. -/
def oneRecord : List NamedRecord := [⟨[("x",.i64 1)]⟩]

/-- The database after MERGE of two labels on a record. -/
def twoLabelStore : Store := (merge literalEnv (some oneRecord) (twoLabels.pattern none) freshStore).2

end GraphDbLite.MergeIdempotence
