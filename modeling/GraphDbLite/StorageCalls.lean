import GraphDbLite.EntityDeletion
import GraphDbLite.TransactionCalls

/-!
# What writes hand to the storage

A write clause, a MERGE or a call of a transaction reaches the storage through a few
calls: seven that bring in names, values or relationships, and the removals. A condition
on the first kind is met by a step when every such call that the step reaches meets it
in the state in which it is made. An invariant of the tables that these calls keep under
the condition, and that removals and index maintenance keep always, holds along every
run whose steps meet the condition.
-/

namespace GraphDbLite.StorageCalls

open GraphTypes StatefulActions GraphStore EdgeStorage NodeStorage
open WriteOperators PropertySetters CypherSyntax Traversal MergeOperators TransactionCalls

/-- A call that brings names, values or a relationship into the tables. -/
inductive StorageCall where
  | createNode (labels : List String) (properties : Properties)
  | createEdge (src dst : NodeId) (label : String) (properties : Properties)
  | setNodeProperty (id : NodeId) (key : String) (val : Value)
  | setAllNodeProperties (id : NodeId) (properties : Properties)
  | addNodeLabel (id : NodeId) (label : String)
  | setEdgeProperty (src dst : NodeId) (label : String) (seq : UInt64) (key : String) (val : Value)
  | setAllEdgeProperties (src dst : NodeId) (label : String) (seq : UInt64) (properties : Properties)

/-- Make a call. -/
def StorageCall.run : StorageCall → Db Unit
  | .createNode labels properties => do
    let _ ← NodeStorage.createNode labels properties
    pure ()
  | .createEdge src dst label properties => EdgeStorage.createEdge src dst label properties
  | .setNodeProperty id key val => NodeStorage.setNodeProperty id key val
  | .setAllNodeProperties id properties => NodeStorage.setAllNodeProperties id properties
  | .addNodeLabel id label => NodeStorage.addNodeLabel id label
  | .setEdgeProperty src dst label seq key val =>
    update fun st => setEdgePropertyAt st src dst label seq key val
  | .setAllEdgeProperties src dst label seq properties =>
    update fun st => setAllEdgePropertiesAt st src dst label seq properties

/-- A call that only takes something away. -/
inductive Removal where
  | nodeProperty (id : NodeId) (key : String)
  | clearNodeProperty (id : NodeId) (key : String)
  | nodeLabel (id : NodeId) (label : String)
  | node (id : NodeId)
  | edges (src dst : NodeId) (label : String)
  | edge (src dst : NodeId) (label : String) (seq : UInt64)

/-- Make a removal. -/
def Removal.run : Removal → Db Unit
  | .nodeProperty id key => removeNodeProperty id key
  | .clearNodeProperty id key => setNodeProperty id key .null
  | .nodeLabel id label => removeNodeLabel id label
  | .node id => deleteNode id
  | .edges src dst label => update fun st => deleteEdge st src dst label
  | .edge src dst label seq => update fun st => deleteSingleEdge st src dst label seq

/-- An invariant of the tables that calls keep under a condition, and everything else
always. -/
structure KeptBy (G : Store → StorageCall → Prop) (I : Store → Prop) : Prop where
  /-- Calls that meet the condition. -/
  call : ∀ st c,I st → G st c → I (c.run st).2
  /-- Removals. -/
  removal : ∀ r : Removal,Keeps I r.run
  /-- Writes to index tables. -/
  indexTables : ∀ st indexTables,I st → I {st with indexTables := indexTables}
  /-- Writes to full-text tables. -/
  ftsTables : ∀ st ftsTables,I st → I {st with ftsTables := ftsTables}

section Conditions

variable {E : Type} (G : Store → StorageCall → Prop) (env : ExecEnv E) (limits : Limits)

/-- The call that one part of CREATE makes meets the condition. -/
def CreateOpMeets (rec : NamedRecord) (st : Store) (s : CreateState) : CreateOp E → Prop
  | .node labels _ properties =>
    ∀ props,evalProperties env rec st [] properties=.ok props → G st (.createNode labels props)
  | .edge srcAlias dstAlias edgeType _ properties =>
    ∀ src dst props,s.endpoint srcAlias=.ok src → s.endpoint dstAlias=.ok dst →
      evalProperties env rec st [] properties=.ok props → G st (.createEdge src dst edgeType props)

/-- Whether a part of CREATE after a match names a variable that is bound already. -/
def isBoundNode (s : CreateState) : CreateOp E → Bool
  | .node _ nodeAlias _ => (nodeAlias.bind s.bound).isSome
  | .edge _ _ _ _ _ => false

/-- The calls that CREATE makes for one record of its input meet the condition. -/
def CreateRowMeets (ops : List (CreateOp E)) (st : Store) (rec : NamedRecord) : Prop :=
  FoldMeets (fun st s op => isBoundNode s op=false → CreateOpMeets G env rec st s op)
    (matchCreateOp env rec) ops ⟨seedBindings rec,rec⟩ st

/-- The call of one assignment meets the condition. -/
def AssignmentMeets (st : Store) (rec : NamedRecord) (a : Assignment E) : Prop :=
  ∀ val,env.eval st a.value rec=.ok val → isStorable val=true →
    (∀ src dst label,edgeIdentity rec a.var=some (src,dst,label) →
        G st (.setEdgeProperty src dst label (edgeSeqOf rec a.var src dst label st) a.property val)) ∧
      (edgeIdentity rec a.var=none → ∀ id,nodeIdField rec a.var=some id →
        G st (.setNodeProperty id a.property val))

/-- The call of SET by a map meets the condition. -/
def SetMapMeets (var : String) (expr : E) (merge : Bool) (st : Store) (rec : NamedRecord) : Prop :=
  ∀ value entries new,env.eval st expr rec=.ok value → mapEntries value=.ok (some entries) →
    (∀ src dst label seq,edgeIdentity rec var=some (src,dst,label) →
        seq=edgeSeqOf rec var src dst label st →
        overlayMap validatePropertyValue merge (getEdgePropertiesAt st src dst label seq) entries=.ok new →
        G st (.setAllEdgeProperties src dst label seq new)) ∧
      (edgeIdentity rec var=none → ∀ id old,nodeIdField rec var=some id → getNode st id=.ok old →
        overlayMap (fun _ => .ok ()) merge old.properties entries=.ok new →
        G st (.setAllNodeProperties id new))

/-- The calls that add labels to a node meet the condition. -/
def LabelsMeet (id : NodeId) (labels : List String) (st : Store) : Prop :=
  EachMeets (fun st label => G st (.addNodeLabel id label)) (addNodeLabel id) labels st

/-- The call that clears a property of a relationship meets the condition. -/
def RemoveItemMeets (st : Store) (rec : NamedRecord) : RemoveItem → Prop
  | .property var property => ∀ src dst label,edgeIdentity rec var=some (src,dst,label) →
      G st (.setEdgeProperty src dst label (edgeSeqOf rec var src dst label st) property .null)
  | .label _ _ => True

/-- The calls that a write clause reaches meet the condition. -/
def ClauseMeets (st : Store) : WriteClause E → Prop
  | .createNode labels nodeAlias properties =>
    CreateOpMeets G env ⟨[]⟩ st ⟨[],⟨[]⟩⟩ (.node labels nodeAlias properties)
  | .createSequence ops =>
    FoldMeets (fun st s op => CreateOpMeets G env s.record st s op) (createSequenceOp env) ops
      ⟨[],⟨[]⟩⟩ st
  | .matchCreate records ops =>
    MapMeets (CreateRowMeets G env ops)
      (fun rec => do
        let s ← foldEach ops ⟨seedBindings rec,rec⟩ (matchCreateOp env rec)
        pure s.record)
      records st
  | .setProperty records assignments =>
    MapMeets (fun st rec => FoldMeets (AssignmentMeets G env) (setPropertyItem env) assignments rec st)
      (fun rec => foldEach assignments rec (setPropertyItem env)) records st
  | .setProperties records var expr merge =>
    MapMeets (SetMapMeets G env var expr merge) (setPropertiesRecord env var expr merge) records st
  | .setLabel records var labels =>
    MapMeets (fun st rec => ∀ id,nodeIdField rec var=some id → LabelsMeet G id labels st)
      (setLabelRecord env var labels) records st
  | .remove records items =>
    MapMeets (fun st rec => FoldMeets (RemoveItemMeets G) (removeItem env) items rec st)
      (fun rec => foldEach items rec (removeItem env)) records st
  | .delete _ _ _ => True

/-- The calls that assign the entries of a map to a node meet the condition. -/
def NodeEntriesMeet (id : NodeId) (map : Properties) (st : Store) : Prop :=
  EachMeets (fun st entry => G st (.setNodeProperty id entry.1 entry.2))
    (fun entry => setNodeProperty id entry.1 entry.2) map st

/-- The calls of a SET item of MERGE on a node meet the condition. -/
def NodeItemMeets (id : NodeId) (rec : NamedRecord) (st : Store) : SetItem E → Prop
  | .property a => ∀ val,env.eval st a.value (rec.set a.var (.i64 id.toInt64))=.ok val →
      G st (.setNodeProperty id a.property val)
  | .label _ labels => LabelsMeet G id labels st
  | .mapMerge _ value => ∀ map,resolveToMap env st value rec=.ok map → NodeEntriesMeet G id map st
  | .mapOverwrite _ value => ∀ map old,resolveToMap env st value rec=.ok map → getNode st id=.ok old →
      Then (forEach old.properties fun entry => setNodeProperty id entry.1 .null)
        (fun _ => NodeEntriesMeet G id map) st

/-- The calls of the SET items of MERGE that reach a node meet the condition. -/
def NodeItemsMeet (items : List (SetItem E)) (rec : NamedRecord) (id : NodeId) (st : Store) : Prop :=
  EachMeets (NodeItemMeets G env id rec) (fun item => applyMergeSetItemNode env item id rec) items st

/-- The calls that assign entries one after the other meet the condition. -/
def EdgeEntriesMeet (call : Store → String → Value → StorageCall) : Properties → Store → Prop
  | [],_ => True
  | entry::rest,st =>
    G st (call st entry.1 entry.2) ∧ EdgeEntriesMeet call rest ((call st entry.1 entry.2).run st).2

/-- The calls that clear listed properties. -/
def cleared (props : Properties) : Properties := props.map fun entry => (entry.1,.null)

/-- The calls of a SET item of MERGE on a relationship meet the condition. -/
def EdgeItemMeets (read : Store → Properties) (call : Store → String → Value → StorageCall)
    (rec : NamedRecord) (st : Store) : SetItem E → Prop
  | .property a => ∀ val,env.eval st a.value rec=.ok val → G st (call st a.property val)
  | .label _ _ => True
  | .mapMerge _ value => ∀ map,resolveToMap env st value rec=.ok map → EdgeEntriesMeet G call map st
  | .mapOverwrite _ value => ∀ map,resolveToMap env st value rec=.ok map →
      EdgeEntriesMeet G call (cleared (read st)++map) st

/-- The call that sets a property of the first parallel relationship. -/
def firstEdgeCall (src dst : NodeId) (label : String) (st : Store) (key : String) (val : Value) :
    StorageCall := .setEdgeProperty src dst label (firstEdgeSeq st src dst label) key val

/-- The call that sets a property of one parallel relationship. -/
def edgeCallAt (src dst : NodeId) (label : String) (seq : UInt64) (_st : Store) (key : String)
    (val : Value) : StorageCall := .setEdgeProperty src dst label seq key val

/-- The calls of the SET items of MERGE that reach the first parallel relationship meet
the condition. -/
def EdgeItemsMeet (items : List (SetItem E)) (rec : NamedRecord) (src dst : NodeId) (label : String)
    (st : Store) : Prop :=
  EachMeets (EdgeItemMeets G env (fun st => getEdgeProperties st src dst label)
      (firstEdgeCall src dst label) rec)
    (fun item => applyMergeSetItemEdge env item src dst label rec) items st

/-- The calls of the SET items of MERGE that reach a matched relationship meet the
condition. -/
def MatchedItemsMeet (items : List (SetItem E)) (rec : NamedRecord) (st : Store) (e : MergedEdge) : Prop :=
  EachMeets (EdgeItemMeets G env (fun st => getEdgePropertiesAt st e.src e.dst e.label (e.seq.getD 0))
      (edgeCallAt e.src e.dst e.label (e.seq.getD 0)) rec)
    (fun item => applyMergeSetItemEdgeAt env item e.src e.dst e.label (e.seq.getD 0) rec) items st

/-- The call that creates a missing end of a relationship pattern meets the condition. -/
def EndMeets (label : String) (properties : List (String×E)) (st : Store) : Prop :=
  ∀ props,mergeProperties env st ⟨[]⟩ [] properties=.ok props →
    findMergeMatchEvaluated env st label props=.ok none → G st (.createNode (labelsOf label) props)

/-- The calls of single-node MERGE meet the condition. -/
def MergeNodeMeets (node : NodePatternOf E) (onCreate onMatch : List (SetItem E)) (st : Store) : Prop :=
  ∀ props found,mergeProperties env st ⟨[]⟩ [] node.properties=.ok props →
    findMergeMatchMultiLabel env st node.labels props=.ok found →
      (∀ n∈found,NodeItemsMeet G env onMatch ⟨[]⟩ n.id st) ∧
        (found=none → G st (.createNode node.labels props) ∧
          Then (createIndexedNode env node.labels props) (NodeItemsMeet G env onCreate ⟨[]⟩) st)

/-- The calls of relationship MERGE between its ends meet the condition. -/
def MergeEdgeMeets (rel : RelPatternOf E) (onCreate onMatch : List (SetItem E)) (srcId dstId : NodeId)
    (rec : NamedRecord) (st : Store) : Prop :=
  ∀ props,mergeProperties env st ⟨[]⟩ [] rel.properties=.ok props →
    (firstEdgeMatches st srcId dstId (edgeTypeOf rel) props=true →
        EdgeItemsMeet G env onMatch rec srcId dstId (edgeTypeOf rel) st) ∧
      (firstEdgeMatches st srcId dstId (edgeTypeOf rel) props=false →
        G st (.createEdge srcId dstId (edgeTypeOf rel) props) ∧
          Then (createEdge srcId dstId (edgeTypeOf rel) props)
            (fun _ => EdgeItemsMeet G env onCreate rec srcId dstId (edgeTypeOf rel)) st)

/-- The calls of MERGE without an input meet the condition. -/
def MergeMeets (pattern : PatternOf E) (onCreate onMatch : List (SetItem E)) (st : Store) : Prop :=
  match pattern.elements with
  | [.node node] => MergeNodeMeets G env node onCreate onMatch st
  | .node src::.relationship rel::.node dst::_ =>
    EndMeets G env (firstLabel src) src.properties st ∧
      Then (findOrCreateMergeNode env (firstLabel src) src.properties) (fun srcId st =>
        EndMeets G env (firstLabel dst) dst.properties st ∧
          Then (findOrCreateMergeNode env (firstLabel dst) dst.properties) (fun dstId =>
            MergeEdgeMeets G env rel onCreate onMatch srcId dstId
              (bindEnd (bindEnd ⟨[]⟩ src.var srcId) dst.var dstId)) st) st
  | _ => True

/-- The calls of single-node MERGE for one record meet the condition. -/
def MatchMergeNodeMeets (node : NodePatternOf E) (pathVar : Option String)
    (onCreate onMatch : List (SetItem E)) (st : Store) (rec : NamedRecord) : Prop :=
  ∀ props found,mergeProperties env st rec [] node.properties=.ok props →
    findMergeMatchesEvaluated env st (firstLabel node) props=.ok found →
      MapMeets (fun st n => NodeItemsMeet G env onMatch rec n.id st)
          (matchedNodeRow env (node.var.getD "_merge") pathVar onMatch rec) found st ∧
        (found=[] → G st (.createNode (labelsOf (firstLabel node)) props) ∧
          Then (createIndexedNode env (labelsOf (firstLabel node)) props)
            (NodeItemsMeet G env onCreate rec) st)

/-- The calls of relationship MERGE for one record meet the condition. -/
def MatchMergeEdgeMeets (srcVar dstVar : String) (rel : RelPatternOf E)
    (onCreate onMatch : List (SetItem E)) (st : Store) (rec : NamedRecord) : Prop :=
  ∀ srcId dstId,nodeIdField rec srcVar=some srcId → nodeIdField rec dstVar=some dstId →
    ∀ props found,mergeProperties env st rec [] rel.properties=.ok props →
      matchedEdges st rel.direction srcId dstId (edgeTypeOf rel) props=found →
        EachMeets (MatchedItemsMeet G env onMatch rec) (setMatchedEdge env onMatch rec) found st ∧
          (found=[] → G st (.createEdge srcId dstId (edgeTypeOf rel) props) ∧
            Then (createEdge srcId dstId (edgeTypeOf rel) props)
              (fun _ => EdgeItemsMeet G env onCreate rec srcId dstId (edgeTypeOf rel)) st)

/-- The calls of MERGE on the records of its input meet the condition. -/
def MatchMergeMeets (records : List NamedRecord) (pattern : PatternOf E)
    (onCreate onMatch : List (SetItem E)) (st : Store) : Prop :=
  match pattern.elements with
  | [.node node] =>
    MapMeets (MatchMergeNodeMeets G env node pattern.pathVar onCreate onMatch)
      (matchMergeNode env node pattern.pathVar onCreate onMatch) records st
  | [.node src,.relationship rel,.node dst] =>
    ∀ srcVar dstVar,src.var=some srcVar → dst.var=some dstVar →
      MapMeets (MatchMergeEdgeMeets G env srcVar dstVar rel onCreate onMatch)
        (matchMergeRelationship env srcVar dstVar rel pattern.pathVar onCreate onMatch) records st
  | _ => True

/-- The storage call that a call of a transaction reaches meets the condition. -/
def TxMeets (st : Store) : TxCall → Prop
  | .createNodeWithLabels labels properties =>
    validateProperties (labels.head?.getD "") properties limits=.ok () →
      G st (.createNode labels properties)
  | .createNode label properties =>
    validateProperties ((labelsOf label).head?.getD "") properties limits=.ok () →
      G st (.createNode (labelsOf label) properties)
  | .setNodeProperty id key value =>
    validateProperties "_" [(key,value)] limits=.ok () → G st (.setNodeProperty id key value)
  | .createEdge src dst label properties =>
    validateProperties label properties limits=.ok () → nodeExists st src=true →
      nodeExists st dst=true → G st (.createEdge src dst label properties)
  | .deleteNode _ => True
  | .removeNodeProperty _ _ => True
  | .deleteEdge _ _ _ => True

/-- The steps of a run: write clauses, MERGE and calls of a transaction. -/
inductive WriteStep (E : Type) where
  | clause (clause : WriteClause E)
  | merge (pattern : PatternOf E) (onCreate onMatch : List (SetItem E))
  | matchMerge (records : List NamedRecord) (pattern : PatternOf E) (onCreate onMatch : List (SetItem E))
  | call (call : TxCall)

/-- The store after a step, successful or not. -/
def applyWriteStep (st : Store) : WriteStep E → Store
  | .clause clause => (execClause env clause st).2
  | .merge pattern onCreate onMatch => (execMerge env pattern onCreate onMatch st).2
  | .matchMerge records pattern onCreate onMatch =>
    (execMatchMerge env records pattern onCreate onMatch st).2
  | .call call => (call.run env limits st).2

/-- Every call that a step reaches meets the condition in the state in which it is
made. -/
def StepMeets (st : Store) : WriteStep E → Prop
  | .clause clause => ClauseMeets G env st clause
  | .merge pattern onCreate onMatch => MergeMeets G env pattern onCreate onMatch st
  | .matchMerge records pattern onCreate onMatch =>
    MatchMergeMeets G env records pattern onCreate onMatch st
  | .call call => TxMeets G limits st call

end Conditions

theorem isStorable_of_validated {val : Value} (h : validatePropertyValue val=.ok ()) :
    isStorable val=true := by
  unfold validatePropertyValue at h
  split_ifs at h with hval
  exact hval

section Walk

variable {E : Type} {G : Store → StorageCall → Prop} {I : Store → Prop} {env : ExecEnv E}
  {limits : Limits} {st : Store}
variable {labels : List String} {rec : NamedRecord} {s : CreateState} {op : CreateOp E} {id : NodeId}
  {node : NodePatternOf E} {onCreate onMatch : List (SetItem E)}
variable {props map : Properties} {var label : String} {items : List (SetItem E)} {rel : RelPatternOf E}
  {pattern : PatternOf E} {pathVar : Option String}

theorem KeptBy.createNode (hI : KeptBy G I) (h : I st) (hg : G st (.createNode labels props)) :
    I (createNode labels props st).2 := by
  have hrun : ((StorageCall.createNode labels props).run st).2=(NodeStorage.createNode labels props st).2 :=
    congrArg Prod.snd (settled_then_pure (NodeStorage.createNode labels props) (fun _ => ()) st)
  rw [←hrun]
  exact hI.call st _ h hg

theorem KeptBy.maintain (hI : KeptBy G I) (env : ExecEnv E) (id : NodeId) (labels : List String)
    (old : Option Properties) (new : Properties) : Keeps I (maintainNode env id labels old new) :=
  keeps_maintainNode hI.indexTables hI.ftsTables env id labels old new

theorem KeptBy.createIndexedNode (hI : KeptBy G I) (h : I st) (hg : G st (.createNode labels props)) :
    I (createIndexedNode env labels props st).2 := by
  unfold WriteOperators.createIndexedNode
  refine bind_keeps (hI.createNode h hg) fun id st₁ _ h₁ => ?_
  exact keeps_then_pure (hI.maintain env id labels none props st₁ h₁) fun _ => id

theorem KeptBy.createOp (hI : KeptBy G I) (h : I st)
    (hg : CreateOpMeets G env rec st s op) :
    (∀ labels nodeAlias properties,op=.node labels nodeAlias properties →
        I (createNodeOp env rec s labels nodeAlias properties st).2) ∧
      ∀ src dst edgeType relAlias properties,op=.edge src dst edgeType relAlias properties →
        I (createEdgeOp env rec s src dst edgeType relAlias properties st).2 := by
  constructor
  · intro labels nodeAlias properties hop
    rw [hop] at hg
    unfold createNodeOp
    refine inspect_bind h fun props hprops => ?_
    exact keeps_then_pure (hI.createIndexedNode h (hg props hprops)) fun id => s.bindNode nodeAlias id props
  · intro src dst edgeType relAlias properties hop
    rw [hop] at hg
    unfold createEdgeOp
    refine inspect_bind h fun srcId hsrc => inspect_bind h fun dstId hdst =>
      inspect_bind h fun props hprops => ?_
    exact keeps_then_pure (hI.call st _ h (hg srcId dstId props hsrc hdst hprops)) fun _ =>
      s.bindEdge relAlias srcId dstId edgeType props

theorem KeptBy.createSequenceOp (hI : KeptBy G I) (h : I st) (hg : CreateOpMeets G env s.record st s op) :
    I (createSequenceOp env s op st).2 := by
  have ⟨hnode,hedge⟩ := hI.createOp h hg
  cases op with
  | node labels nodeAlias properties => exact hnode labels nodeAlias properties rfl
  | edge src dst edgeType relAlias properties => exact hedge src dst edgeType relAlias properties rfl

theorem KeptBy.matchCreateOp (hI : KeptBy G I) (h : I st)
    (hg : isBoundNode s op=false → CreateOpMeets G env rec st s op) : I (matchCreateOp env rec s op st).2 := by
  cases op with
  | node labels nodeAlias properties =>
    unfold WriteOperators.matchCreateOp
    dsimp only
    split_ifs with hbound
    · exact h
    · have hfree : isBoundNode s (.node labels nodeAlias properties : CreateOp E)=false :=
        Bool.eq_false_iff.mpr hbound
      exact (hI.createOp h (hg hfree)).1 labels nodeAlias properties rfl
  | edge src dst edgeType relAlias properties =>
    exact (hI.createOp h (hg rfl)).2 src dst edgeType relAlias properties rfl

theorem writeEdgeProperty_eq (rec : NamedRecord) (var : String) (src dst : NodeId) (label property : String)
    (val : Value) (st : Store) : writeEdgeProperty rec var src dst label property val st=
      setEdgePropertyAt st src dst label (edgeSeqOf rec var src dst label st) property val := by
  unfold writeEdgeProperty edgeSeqOf
  cases edgeSeqField rec var with
  | some seq | none => rfl

section Kept

variable (hI : KeptBy G I)

include hI

theorem KeptBy.setPropertyItem (h : I st) {a : Assignment E}
    (hg : AssignmentMeets G env st rec a) : I (setPropertyItem env rec a st).2 := by
  unfold WriteOperators.setPropertyItem
  cases hedge : edgeIdentity rec a.var with
  | some identity =>
    have ⟨src,dst,label⟩ := identity
    refine inspect_bind h fun val hval => inspect_bind h fun _ hchecked => ?_
    refine keeps_then_pure (m:=update (writeEdgeProperty rec a.var src dst label a.property val)) ?_ fun _ => _
    change I (writeEdgeProperty rec a.var src dst label a.property val st)
    rw [writeEdgeProperty_eq]
    exact hI.call st _ h ((hg val hval (isStorable_of_validated hchecked)).1 src dst label hedge)
  | none =>
    dsimp only
    cases hnode : nodeIdField rec a.var with
    | none => exact h
    | some id =>
      refine inspect_bind h fun old _ => inspect_bind h fun val hval => inspect_bind h fun _ hchecked => ?_
      refine keeps_then_pure (m:=setIndexedProperty env id old a.property val) ?_ fun _ => _
      unfold setIndexedProperty
      refine bind_keeps (hI.call st (.setNodeProperty id a.property val) h
        ((hg val hval (isStorable_of_validated hchecked)).2 hedge id hnode)) fun _ st₁ _ h₁ => ?_
      exact hI.maintain env id old.labels _ _ st₁ h₁

theorem KeptBy.setPropertiesRecord (h : I st) {expr : E} {merge : Bool}
    (hg : SetMapMeets G env var expr merge st rec) : I (setPropertiesRecord env var expr merge rec st).2 := by
  unfold WriteOperators.setPropertiesRecord
  cases hedge : edgeIdentity rec var with
  | some identity =>
    have ⟨src,dst,label⟩ := identity
    refine inspect_bind h fun seq hseq => inspect_bind h fun value hvalue =>
      inspect_bind h fun found hfound => ?_
    cases found with
    | none => exact h
    | some entries =>
      refine inspect_bind h fun old hold => inspect_bind h fun new hnew => ?_
      rw [←Except.ok.inj hold] at hnew
      have hcall := (hg value entries new hvalue hfound).1 src dst label seq hedge
        (Except.ok.inj hseq).symm hnew
      exact hI.call st (.setAllEdgeProperties src dst label seq new) h hcall
  | none =>
    dsimp only
    cases hnode : nodeIdField rec var with
    | none => exact h
    | some id =>
      refine inspect_bind h fun value hvalue => inspect_bind h fun found hfound => ?_
      cases found with
      | none => exact h
      | some entries =>
        refine inspect_bind h fun old hold => inspect_bind h fun new hnew => ?_
        refine keeps_then_pure (m:=setIndexedProperties env id old new) ?_ fun _ => _
        unfold setIndexedProperties
        have hcall := (hg value entries new hvalue hfound).2 hedge id old hnode hold hnew
        refine bind_keeps (hI.call st (.setAllNodeProperties id new) h hcall) fun _ st₁ _ h₁ => ?_
        exact hI.maintain env id old.labels _ new st₁ h₁

theorem KeptBy.addLabels (h : I st) (hg : LabelsMeet G id labels st) :
    I (forEach labels (addNodeLabel id) st).2 :=
  eachMeets_keeps (I:=I) (fun st label hst hlabel => hI.call st (.addNodeLabel id label) hst hlabel) h hg

theorem KeptBy.setLabelRecord (h : I st)
    (hg : ∀ id,nodeIdField rec var=some id → LabelsMeet G id labels st) : I (setLabelRecord env var labels rec st).2 := by
  unfold WriteOperators.setLabelRecord
  cases hnode : nodeIdField rec var with
  | none => exact h
  | some id =>
    refine bind_keeps (hI.addLabels h (hg id hnode)) fun _ st₁ _ h₁ => inspect_bind h₁ fun new _ => ?_
    exact keeps_then_pure (hI.maintain env id new.labels none new.properties st₁ h₁) fun _ => _

theorem KeptBy.removeItem (h : I st) {item : RemoveItem} (hg : RemoveItemMeets G st rec item) :
    I (removeItem env rec item st).2 := by
  cases item with
  | property var property =>
    unfold WriteOperators.removeItem
    dsimp only
    cases hedge : edgeIdentity rec var with
    | some identity =>
      have ⟨src,dst,label⟩ := identity
      refine keeps_then_pure (m:=update (writeEdgeProperty rec var src dst label property .null)) ?_ fun _ => _
      change I (writeEdgeProperty rec var src dst label property .null st)
      rw [writeEdgeProperty_eq]
      exact hI.call st _ h (hg src dst label hedge)
    | none =>
      dsimp only
      cases nodeIdField rec var with
      | none => exact h
      | some id =>
        refine inspect_bind h fun old _ => ?_
        refine keeps_then_pure (m:=removeIndexedProperty env id old property) ?_ fun _ => _
        unfold removeIndexedProperty
        refine bind_keeps (hI.removal (.nodeProperty id property) st h) fun _ st₁ _ h₁ => ?_
        exact hI.maintain env id old.labels _ _ st₁ h₁
  | label var labels =>
    unfold WriteOperators.removeItem
    dsimp only
    cases nodeIdField rec var with
    | none => exact h
    | some id =>
      refine inspect_bind h fun old _ => ?_
      refine keeps_then_pure (m:=forEach labels (removeIndexedLabel env id old.properties)) ?_ fun _ => _
      have hkeeps : Keeps I (forEach labels (removeIndexedLabel env id old.properties)) := by
        refine keeps_forEach fun label _ => ?_
        unfold removeIndexedLabel
        refine keeps_bind (keeps_removeIndexesForLabel hI.indexTables env.enc id label old.properties)
          fun _ => ?_
        exact keeps_bind (keeps_removeFtsForLabel hI.ftsTables id label old.properties) fun _ =>
          hI.removal (.nodeLabel id label)
      exact hkeeps st h

theorem KeptBy.clearNode (env : ExecEnv E) (id : NodeId) : Keeps I (clearNode env id) := by
  intro st h
  unfold WriteOperators.clearNode
  cases getNode st id with
  | error e => exact h
  | ok n =>
    have hindexes := keeps_removeIndexesForNode hI.indexTables env.enc id n.labels n.properties
    have hfts := keeps_removeFtsForNode hI.ftsTables id n.labels n.properties
    exact keeps_bind (keeps_attempt hindexes) (fun _ => keeps_attempt hfts) st h

theorem KeptBy.deleteEdgeTargets (h : I st)
    (targets : List (NodeId×NodeId×String×Option UInt64)) : I (targets.foldl deleteEdgeTarget st) := by
  induction targets generalizing st with
  | nil => exact h
  | cons target rest ih =>
    have ⟨src,dst,label,seq⟩ := target
    cases seq with
    | some seq => exact ih (hI.removal (.edge src dst label seq) st h)
    | none => exact ih (hI.removal (.edges src dst label) st h)

theorem KeptBy.execDelete (env : ExecEnv E) (records : List NamedRecord)
    (exprs : List (DeleteExpr E)) (detach : Bool) : Keeps I (execDelete env records exprs detach) := by
  unfold WriteOperators.execDelete
  refine keeps_bind (keeps_foldEach fun acc rec _ => keeps_collectRecord exprs acc rec) fun acc => ?_
  refine keeps_bind (keeps_update fun st h => hI.deleteEdgeTargets h acc.2.edges) fun _ => ?_
  refine keeps_bind (keeps_forEach fun id _ => ?_) fun _ => keeps_pure _ _
  unfold deleteNodeTarget
  exact keeps_bind (keeps_checkDetached detach id) fun _ => keeps_bind (hI.clearNode env id) fun _ =>
    keeps_attempt (hI.removal (.node id))

theorem KeptBy.createRow (h : I st) {ops : List (CreateOp E)}
    (hg : CreateRowMeets G env ops st rec) :
    I (foldEach ops ⟨seedBindings rec,rec⟩ (WriteOperators.matchCreateOp env rec) st).2 :=
  foldMeets_keeps (I:=I) (fun _ _ _ hs hop => hI.matchCreateOp hs hop) h hg

theorem KeptBy.execClause (h : I st) {clause : WriteClause E}
    (hg : ClauseMeets G env st clause) : I (execClause env clause st).2 := by
  cases clause with
  | createNode labels nodeAlias properties =>
    unfold ClauseMeets at hg
    have hnode := (hI.createOp h hg).1 labels nodeAlias properties rfl
    exact keeps_then_pure hnode fun s => [s.record]
  | createSequence ops =>
    have hops : I (foldEach ops ⟨[],⟨[]⟩⟩ (WriteOperators.createSequenceOp env) st).2 :=
      foldMeets_keeps (I:=I) (fun _ _ _ hs hop => hI.createSequenceOp hs hop) h hg
    exact keeps_then_pure hops fun s => [s.record]
  | matchCreate records ops =>
    exact mapMeets_keeps (I:=I)
      (fun _ _ hs hrec => keeps_then_pure (hI.createRow hs hrec) fun s => s.record) h hg
  | setProperty records assignments =>
    refine mapMeets_keeps (I:=I) (fun st rec hs hrec => ?_) h hg
    exact foldMeets_keeps (I:=I) (fun _ _ _ hs ha => hI.setPropertyItem hs ha) hs hrec
  | setProperties records var expr merge =>
    exact mapMeets_keeps (I:=I) (fun _ _ hs hrec => hI.setPropertiesRecord hs hrec) h hg
  | setLabel records var labels =>
    exact mapMeets_keeps (I:=I) (fun _ _ hs hrec => hI.setLabelRecord hs hrec) h hg
  | remove records items =>
    refine mapMeets_keeps (I:=I) (fun st rec hs hrec => ?_) h hg
    exact foldMeets_keeps (I:=I) (fun _ _ _ hs hitem => hI.removeItem hs hitem) hs hrec
  | delete records exprs detach => exact hI.execDelete env records exprs detach st h

theorem KeptBy.nodeEntries (h : I st) (hg : NodeEntriesMeet G id map st) :
    I (forEach map (fun entry => setNodeProperty id entry.1 entry.2) st).2 :=
  eachMeets_keeps (I:=I)
    (fun st entry hst hentry => hI.call st (.setNodeProperty id entry.1 entry.2) hst hentry) h hg

theorem KeptBy.nodeItem (h : I st) {item : SetItem E}
    (hg : NodeItemMeets G env id rec st item) : I (applyMergeSetItemNode env item id rec st).2 := by
  cases item with
  | property a =>
    unfold applyMergeSetItemNode
    refine inspect_bind h fun old _ => inspect_bind h fun val hval => ?_
    unfold insertIndexedProperty
    refine bind_keeps (hI.call st (.setNodeProperty id a.property val) h (hg val hval)) fun _ st₁ _ h₁ => ?_
    exact hI.maintain env id old.labels _ _ st₁ h₁
  | label var labels =>
    unfold applyMergeSetItemNode
    refine bind_keeps (hI.addLabels h hg) fun _ st₁ _ h₁ => inspect_bind h₁ fun new _ => ?_
    exact hI.maintain env id new.labels none new.properties st₁ h₁
  | mapMerge var value =>
    unfold applyMergeSetItemNode
    refine inspect_bind h fun map hmap => inspect_bind h fun old _ => ?_
    refine bind_keeps (hI.nodeEntries h (hg map hmap)) fun _ st₁ _ h₁ => ?_
    exact hI.maintain env id old.labels _ _ st₁ h₁
  | mapOverwrite var value =>
    unfold applyMergeSetItemNode
    refine inspect_bind h fun map hmap => inspect_bind h fun old hold => ?_
    have hclear : Keeps I (forEach old.properties fun entry => setNodeProperty id entry.1 .null) :=
      keeps_forEach fun entry _ => hI.removal (.clearNodeProperty id entry.1)
    refine bind_keeps (hclear st h) fun _ st₁ hrun h₁ => ?_
    refine bind_keeps (hI.nodeEntries h₁ (hg map old hmap hold () st₁ hrun)) fun _ st₂ _ h₂ => ?_
    exact hI.maintain env id old.labels _ _ st₂ h₂

theorem KeptBy.nodeItems (h : I st) (hg : NodeItemsMeet G env items rec id st) :
    I (forEach items (fun item => applyMergeSetItemNode env item id rec) st).2 :=
  eachMeets_keeps (I:=I) (fun _ _ hst hitem => hI.nodeItem hst hitem) h hg

theorem KeptBy.edgeEntries (h : I st) {write : String → Value → Store → Store}
    {call : Store → String → Value → StorageCall}
    (hwrite : ∀ key val st,write key val st=((call st key val).run st).2) (hg : EdgeEntriesMeet G call map st) :
    I (map.foldl (fun st entry => write entry.1 entry.2 st) st) := by
  induction map generalizing st with
  | nil => exact h
  | cons entry rest ih =>
    rw [List.foldl_cons,hwrite]
    exact ih (hI.call st _ h hg.1) hg.2

theorem KeptBy.edgeItem (h : I st) {read : Store → Properties}
    {write : String → Value → Store → Store} {call : Store → String → Value → StorageCall}
    (hwrite : ∀ key val st,write key val st=((call st key val).run st).2) {item : SetItem E}
    (hg : EdgeItemMeets G env read call rec st item) : I (applySetItemToEdge env read write item rec st).2 := by
  cases item with
  | property a =>
    unfold applySetItemToEdge
    refine inspect_bind h fun val hval => ?_
    change I (write a.property val st)
    rw [hwrite]
    exact hI.call st _ h (hg val hval)
  | label var labels => exact h
  | mapMerge var value =>
    unfold applySetItemToEdge
    exact inspect_bind h fun map hmap => hI.edgeEntries h hwrite (hg map hmap)
  | mapOverwrite var value =>
    unfold applySetItemToEdge
    refine inspect_bind h fun map hmap => inspect_bind h fun old hold => ?_
    have hall := hI.edgeEntries h hwrite (hg map hmap)
    rw [List.foldl_append,cleared,List.foldl_map,Except.ok.inj hold] at hall
    exact hall

theorem KeptBy.edgeItems (h : I st) {src dst : NodeId}
    (hg : EdgeItemsMeet G env items rec src dst label st) :
    I (forEach items (fun item => applyMergeSetItemEdge env item src dst label rec) st).2 :=
  eachMeets_keeps (I:=I) (fun _ _ hst hitem => hI.edgeItem hst (fun _ _ _ => rfl) hitem) h hg

theorem KeptBy.matchedEdge (h : I st) {items : List (SetItem E)} {rec : NamedRecord}
    {e : MergedEdge} (hg : MatchedItemsMeet G env items rec st e) :
    I (setMatchedEdge env items rec e st).2 :=
  eachMeets_keeps (I:=I) (fun _ _ hst hitem => hI.edgeItem hst (fun _ _ _ => rfl) hitem) h hg

theorem KeptBy.findOrCreateMergeNode (h : I st) {properties : List (String×E)}
    (hg : EndMeets G env label properties st) : I (findOrCreateMergeNode env label properties st).2 := by
  unfold MergeOperators.findOrCreateMergeNode
  refine inspect_bind h fun props hprops => inspect_bind h fun found hfound => ?_
  cases found with
  | some n => exact h
  | none => exact hI.createIndexedNode h (hg props hprops hfound)

theorem KeptBy.mergeNode (h : I st) (hg : MergeNodeMeets G env node onCreate onMatch st) :
    I (mergeNode env node onCreate onMatch st).2 := by
  unfold MergeOperators.mergeNode
  refine inspect_bind h fun props hprops => inspect_bind h fun found hfound => ?_
  have ⟨hmatched,hcreated⟩ := hg props found hprops hfound
  cases found with
  | some n => exact keeps_then_pure (hI.nodeItems h (hmatched n rfl)) fun _ => n.id
  | none =>
    have ⟨hcall,hitems⟩ := hcreated rfl
    refine bind_keeps (hI.createIndexedNode h hcall) fun id st₁ hrun h₁ => ?_
    exact keeps_then_pure (hI.nodeItems h₁ (hitems id st₁ hrun)) fun _ => id

theorem KeptBy.mergeEdge (h : I st) {srcId dstId : NodeId}
    (hg : MergeEdgeMeets G env rel onCreate onMatch srcId dstId rec st) :
    I (mergeEdge env rel onCreate onMatch srcId dstId rec st).2 := by
  unfold MergeOperators.mergeEdge
  refine inspect_bind h fun props hprops => inspect_bind h fun found hfound => ?_
  have ⟨hmatched,hcreated⟩ := hg props hprops
  have hcase := Except.ok.inj hfound
  cases found with
  | true => exact hI.edgeItems h (hmatched hcase)
  | false =>
    have ⟨hcall,hitems⟩ := hcreated hcase
    refine bind_keeps (hI.call st _ h hcall) fun _ st₁ hrun h₁ => ?_
    exact hI.edgeItems h₁ (hitems () st₁ hrun)

theorem KeptBy.execMerge (h : I st) (hg : MergeMeets G env pattern onCreate onMatch st) :
    I (execMerge env pattern onCreate onMatch st).2 := by
  unfold MergeMeets at hg
  fun_cases MergeOperators.execMerge env pattern onCreate onMatch
  · rename_i node helements
    rw [helements] at hg
    exact bind_keeps (hI.mergeNode h hg) fun _ _ _ h₁ => inspect_bind h₁ fun _ _ => h₁
  · rename_i src rel dst _ helements
    rw [helements] at hg
    unfold execMergeRelationship
    refine bind_keeps (hI.findOrCreateMergeNode h hg.1) fun srcId st₁ hsrc h₁ => ?_
    have ⟨hend,hrest⟩ := hg.2 srcId st₁ hsrc
    refine bind_keeps (hI.findOrCreateMergeNode h₁ hend) fun dstId st₂ hdst h₂ => ?_
    refine bind_keeps (hI.mergeEdge h₂ (hrest dstId st₂ hdst)) fun _ _ _ h₃ => ?_
    exact inspect_bind h₃ fun _ _ => h₃
  · exact h

theorem KeptBy.matchMergeNode (h : I st)
    (hg : MatchMergeNodeMeets G env node pathVar onCreate onMatch st rec) :
    I (matchMergeNode env node pathVar onCreate onMatch rec st).2 := by
  unfold MergeOperators.matchMergeNode
  refine inspect_bind h fun props hprops => inspect_bind h fun found hfound => ?_
  have ⟨hmatched,hcreated⟩ := hg props found hprops hfound
  split_ifs with hempty
  · have ⟨hcall,hitems⟩ := hcreated (List.isEmpty_iff.mp hempty)
    refine bind_keeps (hI.createIndexedNode h hcall) fun id st₁ hrun h₁ => ?_
    refine bind_keeps (hI.nodeItems h₁ (hitems id st₁ hrun)) fun _ _ _ h₂ => ?_
    exact inspect_bind h₂ fun _ _ => h₂
  · refine mapMeets_keeps (I:=I) (fun st n hst hn => ?_) h hmatched
    exact bind_keeps (hI.nodeItems hst hn) fun _ _ _ h₁ => inspect_bind h₁ fun _ _ => h₁

theorem KeptBy.matchMergeRelationship (h : I st) {srcVar dstVar : String}
    (hg : MatchMergeEdgeMeets G env srcVar dstVar rel onCreate onMatch st rec) :
    I (matchMergeRelationship env srcVar dstVar rel pathVar onCreate onMatch rec st).2 := by
  unfold MergeOperators.matchMergeRelationship
  cases hsrc : nodeIdField rec srcVar with
  | none => exact h
  | some srcId =>
    cases hdst : nodeIdField rec dstVar with
    | none => exact h
    | some dstId =>
      dsimp only
      unfold matchMergeEdge
      refine inspect_bind h fun props hprops => inspect_bind h fun found hfound => ?_
      have ⟨hmatched,hcreated⟩ := hg srcId dstId hsrc hdst props found hprops (Except.ok.inj hfound)
      split_ifs with hempty
      · have ⟨hcall,hitems⟩ := hcreated (List.isEmpty_iff.mp hempty)
        refine bind_keeps (hI.call st _ h hcall) fun _ st₁ hrun h₁ => ?_
        refine bind_keeps (hI.edgeItems h₁ (hitems () st₁ hrun)) fun _ _ _ h₂ => ?_
        exact inspect_bind h₂ fun _ _ => h₂
      · refine bind_keeps (eachMeets_keeps (I:=I) (fun _ _ hst he => hI.matchedEdge hst he) h hmatched)
          fun _ st₁ _ h₁ => ?_
        have hkeeps : Keeps I (mapEach found fun e => inspect fun st =>
            bindMergedPath (bindMergedEdge rec rel.var e st) pathVar e st) :=
          keeps_mapEach fun e _ => keeps_inspect _ _
        exact hkeeps st₁ h₁

theorem KeptBy.execMatchMerge (h : I st) {records : List NamedRecord}
    (hg : MatchMergeMeets G env records pattern onCreate onMatch st) :
    I (execMatchMerge env records pattern onCreate onMatch st).2 := by
  unfold MatchMergeMeets at hg
  fun_cases MergeOperators.execMatchMerge env records pattern onCreate onMatch
  · rename_i node helements
    rw [helements] at hg
    have hrows := mapMeets_keeps (I:=I) (fun _ _ hst hrec => hI.matchMergeNode hst hrec) h hg
    exact keeps_then_pure hrows List.flatten
  · rename_i src rel dst helements
    rw [helements] at hg
    refine inspect_bind h fun srcVar hsrc => inspect_bind h fun dstVar hdst => ?_
    have hmeets := hg srcVar dstVar (endVariable_ok hsrc) (endVariable_ok hdst)
    have hrows := mapMeets_keeps (I:=I) (fun _ _ hst hrec => hI.matchMergeRelationship hst hrec) h hmeets
    exact keeps_then_pure hrows List.flatten
  · exact h
  · exact h
  · exact h

theorem KeptBy.txCreateNodeWithLabels (h : I st)
    {properties : Properties}
    (hg : validateProperties (labels.head?.getD "") properties limits=.ok () →
      G st (.createNode labels properties)) :
    I (withoutResult (txCreateNodeWithLabels env limits labels properties) st).2 := by
  rw [withoutResult_state]
  unfold TransactionCalls.txCreateNodeWithLabels
  refine inspect_bind h fun _ hchecked => ?_
  rw [raising_state]
  exact hI.createIndexedNode h (hg hchecked)

theorem KeptBy.txCall (h : I st) {call : TxCall} (hg : TxMeets G limits st call) :
    I (call.run env limits st).2 := by
  cases call with
  | createNodeWithLabels labels properties | createNode label properties => exact hI.txCreateNodeWithLabels h hg
  | deleteNode id =>
    unfold TxCall.run txDeleteNode
    rw [raising_state]
    refine inspect_bind h fun n _ => ?_
    have hindexes := keeps_removeIndexesForNode hI.indexTables env.enc id n.labels n.properties
    have hfts := keeps_removeFtsForNode hI.ftsTables id n.labels n.properties
    exact keeps_bind hindexes (fun _ => keeps_bind hfts fun _ => hI.removal (.node id)) st h
  | setNodeProperty id key value =>
    unfold TxCall.run txSetNodeProperty
    refine inspect_bind h fun _ hchecked => ?_
    rw [raising_state]
    refine inspect_bind h fun old _ => ?_
    unfold insertIndexedProperty
    refine bind_keeps (hI.call st (.setNodeProperty id key value) h (hg hchecked)) fun _ st₁ _ h₁ => ?_
    exact hI.maintain env id old.labels _ _ st₁ h₁
  | removeNodeProperty id key =>
    unfold TxCall.run txRemoveNodeProperty
    rw [raising_state]
    refine inspect_bind h fun old _ => ?_
    unfold removeIndexedProperty
    refine bind_keeps (hI.removal (.nodeProperty id key) st h) fun _ st₁ _ h₁ => ?_
    exact hI.maintain env id old.labels _ _ st₁ h₁
  | createEdge src dst label properties =>
    unfold TxCall.run txCreateEdge
    refine inspect_bind h fun _ hchecked => inspect_bind h fun _ hsrc => inspect_bind h fun _ hdst => ?_
    have hstored : ∀ {id : NodeId} {u : Unit},requireNode st id=.ok u → nodeExists st id=true := by
      intro id u hfound
      unfold requireNode at hfound
      split_ifs at hfound with hexists
      exact hexists
    rw [raising_state]
    exact hI.call st (.createEdge src dst label properties) h (hg hchecked (hstored hsrc) (hstored hdst))
  | deleteEdge src dst label => exact hI.removal (.edges src dst label) st h

theorem KeptBy.step (h : I st) {step : WriteStep E}
    (hg : StepMeets G env limits st step) : I (applyWriteStep env limits st step) := by
  cases step with
  | clause clause => exact hI.execClause h hg
  | merge pattern onCreate onMatch => exact hI.execMerge h hg
  | matchMerge records pattern onCreate onMatch => exact hI.execMatchMerge h hg
  | call call => exact hI.txCall h hg

/-- Along every run whose steps meet the condition, the invariant holds in every state
reached. -/
theorem KeptBy.reached (h : I st) {steps first : List (WriteStep E)}
    (hg : Guarded (applyWriteStep env limits) (StepMeets G env limits) st steps) (hfirst : first<+:steps) :
    I (StatefulActions.run (applyWriteStep env limits) st first) :=
  run_invariant (I:=I) (fun _ _ hst hstep => hI.step hst hstep) h (guarded_of_isPrefix hfirst hg)

end Kept

end Walk

section Success

variable {E : Type} {G H : Store → StorageCall → Prop} {env : ExecEnv E} {limits : Limits} {st st' : Store}

/-- A call that meets one condition and succeeds meets another. -/
def Checks (G H : Store → StorageCall → Prop) : Prop :=
  ∀ st c st',G st c → c.run st=(.ok (),st') → H st c

variable {labels : List String} {id : NodeId} {rec : NamedRecord} {op : CreateOp E} {out : List NamedRecord}
  {onCreate onMatch : List (SetItem E)}

section Checks

variable (h : Checks G H)

include h

theorem Checks.createNode {props : Properties} (hg : G st (.createNode labels props))
    (hrun : NodeStorage.createNode labels props st=(.ok id,st')) : H st (.createNode labels props) := by
  have hcall : (StorageCall.createNode labels props).run st=(.ok (),st') := bind_ok hrun
  exact h st _ st' hg hcall

theorem Checks.createIndexedNode {props : Properties} (hg : G st (.createNode labels props))
    (hrun : WriteOperators.createIndexedNode env labels props st=(.ok id,st')) : H st (.createNode labels props) := by
  have ⟨id₁,st₁,hcreate,_⟩ := ok_of_bind hrun
  exact h.createNode hg hcreate

theorem Checks.createOp {s : CreateState}
    (hg : CreateOpMeets G env rec st s op) {s' : CreateState}
    (hrun : (∃ labels nodeAlias properties,op=.node labels nodeAlias properties ∧
        createNodeOp env rec s labels nodeAlias properties st=(.ok s',st')) ∨
      ∃ src dst edgeType relAlias properties,op=.edge src dst edgeType relAlias properties ∧
        createEdgeOp env rec s src dst edgeType relAlias properties st=(.ok s',st')) :
    CreateOpMeets H env rec st s op := by
  rcases hrun with ⟨labels,nodeAlias,properties,hop,hrun⟩|⟨src,dst,edgeType,relAlias,properties,hop,hrun⟩
  · rw [hop] at hg ⊢
    intro props hprops
    have hrest := after_inspect hrun hprops
    have ⟨id,st₁,hcreate,_⟩ := ok_of_bind hrest
    exact h.createIndexedNode (hg props hprops) hcreate
  · rw [hop] at hg ⊢
    intro srcId dstId props hsrc hdst hprops
    have hrest := after_inspect hrun hsrc
    have hrest := after_inspect hrest hdst
    have hrest := after_inspect hrest hprops
    have ⟨u,st₁,hcreate,_⟩ := ok_of_bind hrest
    exact h st _ st₁ (hg srcId dstId props hsrc hdst hprops) hcreate

theorem Checks.createSequenceOp {s s' : CreateState} (hg : CreateOpMeets G env s.record st s op)
    (hrun : WriteOperators.createSequenceOp env s op st=(.ok s',st')) : CreateOpMeets H env s.record st s op := by
  cases op with
  | node labels nodeAlias properties =>
    exact h.createOp hg (Or.inl ⟨labels,nodeAlias,properties,rfl,hrun⟩)
  | edge src dst edgeType relAlias properties =>
    exact h.createOp hg (Or.inr ⟨src,dst,edgeType,relAlias,properties,rfl,hrun⟩)

theorem Checks.matchCreateOp {s s' : CreateState}
    (hg : isBoundNode s op=false → CreateOpMeets G env rec st s op)
    (hrun : WriteOperators.matchCreateOp env rec s op st=(.ok s',st')) :
    isBoundNode s op=false → CreateOpMeets H env rec st s op := by
  intro hfree
  cases op with
  | node labels nodeAlias properties =>
    unfold WriteOperators.matchCreateOp at hrun
    have hunbound : (nodeAlias.bind s.bound).isSome=false := hfree
    dsimp only at hrun
    rw [hunbound,if_neg (by simp)] at hrun
    exact h.createOp (hg hfree) (Or.inl ⟨labels,nodeAlias,properties,rfl,hrun⟩)
  | edge src dst edgeType relAlias properties =>
    exact h.createOp (hg hfree) (Or.inr ⟨src,dst,edgeType,relAlias,properties,rfl,hrun⟩)

theorem Checks.createRow {ops : List (CreateOp E)} {s : CreateState}
    (hg : CreateRowMeets G env ops st rec)
    (hrun : foldEach ops ⟨seedBindings rec,rec⟩ (WriteOperators.matchCreateOp env rec) st=(.ok s,st')) :
    CreateRowMeets H env ops st rec :=
  foldMeets_of_ok (fun hop hrun => h.matchCreateOp hop hrun) hg hrun

theorem Checks.setPropertyItem {rec out : NamedRecord} {a : Assignment E}
    (hg : AssignmentMeets G env st rec a)
    (hrun : WriteOperators.setPropertyItem env rec a st=(.ok out,st')) : AssignmentMeets H env st rec a := by
  intro val hval hstorable
  have ⟨hgedge,hgnode⟩ := hg val hval hstorable
  constructor
  · intro src dst label hedge
    exact h st _ _ (hgedge src dst label hedge) rfl
  · intro hedge id hnode
    unfold WriteOperators.setPropertyItem at hrun
    rw [hedge,hnode] at hrun
    have ⟨old,_,hrest⟩ := ok_of_inspect hrun
    have hrest := after_inspect hrest hval
    have ⟨u,_,hrest⟩ := ok_of_inspect hrest
    have ⟨u,st₁,hset,_⟩ := ok_of_bind hrest
    have ⟨u,st₂,hcall,_⟩ := ok_of_bind hset
    exact h st _ st₂ (hgnode hedge id hnode) hcall

theorem Checks.setPropertiesRecord {var : String} {expr : E} {merge : Bool}
    {rec out : NamedRecord} (hg : SetMapMeets G env var expr merge st rec)
    (hrun : WriteOperators.setPropertiesRecord env var expr merge rec st=(.ok out,st')) :
    SetMapMeets H env var expr merge st rec := by
  intro value entries new hvalue hentries
  have ⟨hgedge,hgnode⟩ := hg value entries new hvalue hentries
  constructor
  · intro src dst label seq hedge hseq hnew
    exact h st _ _ (hgedge src dst label seq hedge hseq hnew) rfl
  · intro hedge id old hnode hold hnew
    unfold WriteOperators.setPropertiesRecord at hrun
    rw [hedge,hnode] at hrun
    have hrest := after_inspect hrun hvalue
    have ⟨found,hfound,hrest⟩ := ok_of_inspect hrest
    rw [hentries] at hfound
    rw [←Except.ok.inj hfound] at hrest
    have hrest := after_inspect hrest hold
    have hrest := after_inspect hrest hnew
    have ⟨u,st₁,hset,_⟩ := ok_of_bind hrest
    have ⟨u,st₂,hcall,_⟩ := ok_of_bind hset
    exact h st _ st₂ (hgnode hedge id old hnode hold hnew) hcall

theorem Checks.addLabels (hg : LabelsMeet G id labels st)
    (hrun : forEach labels (addNodeLabel id) st=(.ok (),st')) : LabelsMeet H id labels st :=
  eachMeets_of_ok (fun {s i s'} hlabel hrun => h s (.addNodeLabel id i) s' hlabel hrun) hg hrun

theorem Checks.setLabelRecord {var : String} {rec out : NamedRecord}
    (hg : ∀ id,nodeIdField rec var=some id → LabelsMeet G id labels st)
    (hrun : WriteOperators.setLabelRecord env var labels rec st=(.ok out,st')) :
    ∀ id,nodeIdField rec var=some id → LabelsMeet H id labels st := by
  intro id hnode
  unfold WriteOperators.setLabelRecord at hrun
  rw [hnode] at hrun
  have ⟨u,st₁,hlabels,_⟩ := ok_of_bind hrun
  exact h.addLabels (hg id hnode) hlabels

theorem Checks.removeItem {item : RemoveItem} (hg : RemoveItemMeets G st rec item) :
    RemoveItemMeets H st rec item := by
  cases item with
  | property var property => exact fun src dst label hedge => h st _ _ (hg src dst label hedge) rfl
  | label var labels => trivial

theorem Checks.execClause {clause : WriteClause E} (hg : ClauseMeets G env st clause)
    (hrun : WriteOperators.execClause env clause st=(.ok out,st')) : ClauseMeets H env st clause := by
  cases clause with
  | createNode labels nodeAlias properties =>
    unfold ClauseMeets at hg ⊢
    have ⟨s,st₁,hop,_⟩ := ok_of_bind hrun
    exact h.createOp hg (Or.inl ⟨labels,nodeAlias,properties,rfl,hop⟩)
  | createSequence ops =>
    have ⟨s,st₁,hops,_⟩ := ok_of_bind hrun
    exact foldMeets_of_ok (fun hop hrun => h.createSequenceOp hop hrun) hg hops
  | matchCreate records ops =>
    refine mapMeets_of_ok (fun {s rec a s'} hrec hrow => ?_) hg hrun
    have ⟨final,st₁,hops,_⟩ := ok_of_bind hrow
    exact h.createRow hrec hops
  | setProperty records assignments =>
    refine mapMeets_of_ok (fun {s rec a s'} hrec hrow => ?_) hg hrun
    exact foldMeets_of_ok (fun hone hrun => h.setPropertyItem hone hrun) hrec hrow
  | setProperties records var expr merge =>
    exact mapMeets_of_ok (fun hrec hrow => h.setPropertiesRecord hrec hrow) hg hrun
  | setLabel records var labels =>
    exact mapMeets_of_ok (fun hrec hrow => h.setLabelRecord hrec hrow) hg hrun
  | remove records items =>
    refine mapMeets_of_ok (fun {s rec a s'} hrec hrow => ?_) hg hrun
    exact foldMeets_of_ok (fun hone _ => h.removeItem hone) hrec hrow
  | delete records exprs detach => trivial

theorem Checks.nodeEntries {map : Properties} (hg : NodeEntriesMeet G id map st)
    (hrun : forEach map (fun entry => setNodeProperty id entry.1 entry.2) st=(.ok (),st')) :
    NodeEntriesMeet H id map st :=
  eachMeets_of_ok (fun {s i s'} hentry hrun => h s (.setNodeProperty id i.1 i.2) s' hentry hrun) hg hrun

theorem Checks.nodeItem {item : SetItem E} (hg : NodeItemMeets G env id rec st item)
    (hrun : applyMergeSetItemNode env item id rec st=(.ok (),st')) : NodeItemMeets H env id rec st item := by
  cases item with
  | property a =>
    intro val hval
    have ⟨old,_,hrest⟩ := ok_of_inspect hrun
    have hrest := after_inspect hrest hval
    have ⟨u,st₁,hcall,_⟩ := ok_of_bind hrest
    exact h st _ st₁ (hg val hval) hcall
  | label var labels =>
    have ⟨u,st₁,hlabels,_⟩ := ok_of_bind hrun
    exact h.addLabels hg hlabels
  | mapMerge var value =>
    intro map hmap
    have hrest := after_inspect hrun hmap
    have ⟨old,_,hrest⟩ := ok_of_inspect hrest
    have ⟨u,st₁,hentries,_⟩ := ok_of_bind hrest
    exact h.nodeEntries (hg map hmap) hentries
  | mapOverwrite var value =>
    intro map old hmap hold u st₁ hclear
    have hrest := after_inspect hrun hmap
    have hrest := after_inspect hrest hold
    have ⟨u₂,st₂,hclear₂,hrest⟩ := ok_of_bind hrest
    have ⟨_,hsame⟩ := Prod.mk.inj (hclear₂.symm.trans hclear)
    have ⟨u₃,st₃,hentries,_⟩ := ok_of_bind hrest
    rw [hsame] at hentries
    exact h.nodeEntries (hg map old hmap hold u st₁ hclear) hentries

theorem Checks.nodeItems {items : List (SetItem E)} (hg : NodeItemsMeet G env items rec id st)
    (hrun : forEach items (fun item => applyMergeSetItemNode env item id rec) st=(.ok (),st')) :
    NodeItemsMeet H env items rec id st :=
  eachMeets_of_ok (fun hitem hrun => h.nodeItem hitem hrun) hg hrun

theorem Checks.edgeEntries {call : Store → String → Value → StorageCall}
    (hcall : ∀ st key val,((call st key val).run st).1=.ok ()) {map : Properties}
    (hg : EdgeEntriesMeet G call map st) : EdgeEntriesMeet H call map st := by
  induction map generalizing st with
  | nil => trivial
  | cons entry rest ih =>
    have hrun : (call st entry.1 entry.2).run st=(.ok (),((call st entry.1 entry.2).run st).2) :=
      Prod.ext (hcall st entry.1 entry.2) rfl
    exact ⟨h st _ _ hg.1 hrun,ih hg.2⟩

theorem Checks.edgeItem {read : Store → Properties}
    {call : Store → String → Value → StorageCall} (hcall : ∀ st key val,((call st key val).run st).1=.ok ())
    {item : SetItem E} (hg : EdgeItemMeets G env read call rec st item) : EdgeItemMeets H env read call rec st item := by
  cases item with
  | property a =>
    intro val hval
    have hrun : (call st a.property val).run st=(.ok (),((call st a.property val).run st).2) :=
      Prod.ext (hcall st a.property val) rfl
    exact h st _ _ (hg val hval) hrun
  | label var labels => trivial
  | mapMerge var value | mapOverwrite var value => exact fun map hmap => h.edgeEntries hcall (hg map hmap)

theorem Checks.edgeItems {items : List (SetItem E)} {src dst : NodeId} {label : String}
    (hg : EdgeItemsMeet G env items rec src dst label st)
    (hrun : forEach items (fun item => applyMergeSetItemEdge env item src dst label rec) st=(.ok (),st')) :
    EdgeItemsMeet H env items rec src dst label st :=
  eachMeets_of_ok (fun hitem _ => h.edgeItem (fun _ _ _ => rfl) hitem) hg hrun

theorem Checks.matchedEdge {items : List (SetItem E)} {rec : NamedRecord} {e : MergedEdge}
    (hg : MatchedItemsMeet G env items rec st e) (hrun : setMatchedEdge env items rec e st=(.ok (),st')) :
    MatchedItemsMeet H env items rec st e :=
  eachMeets_of_ok (fun hitem _ => h.edgeItem (fun _ _ _ => rfl) hitem) hg hrun

theorem Checks.findOrCreateMergeNode {label : String} {properties : List (String×E)}
    (hg : EndMeets G env label properties st)
    (hrun : MergeOperators.findOrCreateMergeNode env label properties st=(.ok id,st')) :
    EndMeets H env label properties st := by
  intro props hprops hnone
  have hrest := after_inspect hrun hprops
  have hrest := after_inspect hrest hnone
  exact h.createIndexedNode (hg props hprops hnone) hrest

theorem Checks.mergeNode {node : NodePatternOf E}
    (hg : MergeNodeMeets G env node onCreate onMatch st)
    (hrun : MergeOperators.mergeNode env node onCreate onMatch st=(.ok id,st')) :
    MergeNodeMeets H env node onCreate onMatch st := by
  intro props found hprops hfound
  have ⟨hmatched,hcreated⟩ := hg props found hprops hfound
  have hrest := after_inspect hrun hprops
  have hrest := after_inspect hrest hfound
  constructor
  · intro n hn
    rw [hn] at hrest
    have ⟨u,st₁,hitems,_⟩ := ok_of_bind hrest
    exact h.nodeItems (hmatched n hn) hitems
  · intro hnone
    rw [hnone] at hrest
    have ⟨hcall,hitems⟩ := hcreated hnone
    have ⟨id₁,st₁,hcreate,hrest⟩ := ok_of_bind hrest
    refine ⟨h.createIndexedNode hcall hcreate,fun id₂ st₂ hsame => ?_⟩
    have ⟨hid,hst⟩ := Prod.mk.inj (hcreate.symm.trans hsame)
    rw [Except.ok.inj hid,hst] at hrest
    have ⟨u,st₃,hrun₃,_⟩ := ok_of_bind hrest
    exact h.nodeItems (hitems id₂ st₂ hsame) hrun₃

theorem Checks.mergeEdge {rel : RelPatternOf E} {srcId dstId : NodeId}
    (hg : MergeEdgeMeets G env rel onCreate onMatch srcId dstId rec st)
    (hrun : MergeOperators.mergeEdge env rel onCreate onMatch srcId dstId rec st=(.ok (),st')) :
    MergeEdgeMeets H env rel onCreate onMatch srcId dstId rec st := by
  intro props hprops
  have ⟨hmatched,hcreated⟩ := hg props hprops
  have hrest := after_inspect hrun hprops
  have ⟨found,hfound,hrest⟩ := ok_of_inspect hrest
  have hcase := Except.ok.inj hfound
  constructor
  · intro htrue
    rw [←hcase,htrue,if_pos rfl] at hrest
    exact h.edgeItems (hmatched htrue) hrest
  · intro hfalse
    rw [←hcase,hfalse,if_neg (by simp)] at hrest
    have ⟨hcall,hitems⟩ := hcreated hfalse
    have ⟨u,st₁,hcreate,hrest⟩ := ok_of_bind hrest
    refine ⟨h st _ st₁ hcall hcreate,fun u₂ st₂ hsame => ?_⟩
    rw [(Prod.mk.inj (hcreate.symm.trans hsame)).2] at hrest
    exact h.edgeItems (hitems u₂ st₂ hsame) hrest

theorem Checks.execMerge {pattern : PatternOf E}
    (hg : MergeMeets G env pattern onCreate onMatch st)
    (hrun : MergeOperators.execMerge env pattern onCreate onMatch st=(.ok out,st')) :
    MergeMeets H env pattern onCreate onMatch st := by
  unfold MergeMeets at hg ⊢
  revert hrun
  fun_cases MergeOperators.execMerge env pattern onCreate onMatch
  · rename_i node helements
    intro hrun
    rw [helements] at hg ⊢
    have ⟨id,st₁,hnode,_⟩ := ok_of_bind hrun
    exact h.mergeNode hg hnode
  · rename_i src rel dst _ helements
    intro hrun
    rw [helements] at hg ⊢
    have ⟨srcId,st₁,hsrc,hrest⟩ := ok_of_bind hrun
    have ⟨dstId,st₂,hdst,hrest⟩ := ok_of_bind hrest
    have ⟨u,st₃,hedge,_⟩ := ok_of_bind hrest
    refine ⟨h.findOrCreateMergeNode hg.1 hsrc,fun srcId' st₁' hsame => ?_⟩
    have ⟨hid,hst⟩ := Prod.mk.inj (hsrc.symm.trans hsame)
    rw [Except.ok.inj hid] at hedge
    rw [hst] at hdst
    have ⟨hend,hbetween⟩ := hg.2 srcId' st₁' hsame
    refine ⟨h.findOrCreateMergeNode hend hdst,fun dstId' st₂' hsame' => ?_⟩
    have ⟨hid',hst'⟩ := Prod.mk.inj (hdst.symm.trans hsame')
    rw [Except.ok.inj hid',hst'] at hedge
    exact h.mergeEdge (hbetween dstId' st₂' hsame') hedge
  · exact fun hrun => absurd (Prod.mk.inj hrun).1 (by simp)

theorem Checks.matchMergeNode {node : NodePatternOf E} {pathVar : Option String}
    (hg : MatchMergeNodeMeets G env node pathVar onCreate onMatch st rec)
    (hrun : MergeOperators.matchMergeNode env node pathVar onCreate onMatch rec st=(.ok out,st')) :
    MatchMergeNodeMeets H env node pathVar onCreate onMatch st rec := by
  intro props found hprops hfound
  have ⟨hmatched,hcreated⟩ := hg props found hprops hfound
  have hrest := after_inspect hrun hprops
  have hrest := after_inspect hrest hfound
  by_cases hempty : found=[]
  · rw [hempty,List.isEmpty_nil,if_pos rfl] at hrest
    have ⟨hcall,hitems⟩ := hcreated hempty
    have ⟨id₁,st₁,hcreate,hrest⟩ := ok_of_bind hrest
    refine ⟨?_,fun _ => ⟨h.createIndexedNode hcall hcreate,fun id₂ st₂ hsame => ?_⟩⟩
    · rw [hempty]
      trivial
    · have ⟨hid,hst⟩ := Prod.mk.inj (hcreate.symm.trans hsame)
      rw [Except.ok.inj hid,hst] at hrest
      have ⟨u,st₃,hrun₃,_⟩ := ok_of_bind hrest
      exact h.nodeItems (hitems id₂ st₂ hsame) hrun₃
  · rw [if_neg (fun hnil => hempty (List.isEmpty_iff.mp hnil))] at hrest
    refine ⟨mapMeets_of_ok (fun {s n a s'} hn hrow => ?_) hmatched hrest,fun hnil => absurd hnil hempty⟩
    have ⟨u,st₁,hitems,_⟩ := ok_of_bind hrow
    exact h.nodeItems hn hitems

theorem Checks.matchMergeRelationship {srcVar dstVar : String} {rel : RelPatternOf E}
    {pathVar : Option String} (hg : MatchMergeEdgeMeets G env srcVar dstVar rel onCreate onMatch st rec)
    (hrun : MergeOperators.matchMergeRelationship env srcVar dstVar rel pathVar onCreate onMatch rec st=
      (.ok out,st')) : MatchMergeEdgeMeets H env srcVar dstVar rel onCreate onMatch st rec := by
  intro srcId dstId hsrc hdst props found hprops hfound
  have ⟨hmatched,hcreated⟩ := hg srcId dstId hsrc hdst props found hprops hfound
  unfold MergeOperators.matchMergeRelationship at hrun
  rw [hsrc,hdst] at hrun
  have hrest := after_inspect hrun hprops
  have ⟨found₁,hfound₁,hrest⟩ := ok_of_inspect hrest
  rw [←Except.ok.inj hfound₁,hfound] at hrest
  by_cases hempty : found=[]
  · rw [hempty,List.isEmpty_nil,if_pos rfl] at hrest
    have ⟨hcall,hitems⟩ := hcreated hempty
    have ⟨u₁,st₁,hcreate,hrest⟩ := ok_of_bind hrest
    refine ⟨?_,fun _ => ⟨h st _ st₁ hcall hcreate,fun u₂ st₂ hsame => ?_⟩⟩
    · rw [hempty]
      trivial
    · rw [(Prod.mk.inj (hcreate.symm.trans hsame)).2] at hrest
      have ⟨u,st₃,hrun₃,_⟩ := ok_of_bind hrest
      exact h.edgeItems (hitems u₂ st₂ hsame) hrun₃
  · rw [if_neg (fun hnil => hempty (List.isEmpty_iff.mp hnil))] at hrest
    have ⟨u,st₁,hedges,_⟩ := ok_of_bind hrest
    exact ⟨eachMeets_of_ok (fun he hrun => h.matchedEdge he hrun) hmatched hedges,
      fun hnil => absurd hnil hempty⟩

theorem Checks.execMatchMerge {records : List NamedRecord} {pattern : PatternOf E}
    (hg : MatchMergeMeets G env records pattern onCreate onMatch st)
    (hrun : MergeOperators.execMatchMerge env records pattern onCreate onMatch st=(.ok out,st')) :
    MatchMergeMeets H env records pattern onCreate onMatch st := by
  unfold MatchMergeMeets at hg ⊢
  revert hrun
  fun_cases MergeOperators.execMatchMerge env records pattern onCreate onMatch
  · rename_i node helements
    intro hrun
    rw [helements] at hg ⊢
    have ⟨rows,st₁,hrows,_⟩ := ok_of_bind hrun
    exact mapMeets_of_ok (fun hrec hrow => h.matchMergeNode hrec hrow) hg hrows
  · rename_i src rel dst helements
    intro hrun
    rw [helements] at hg ⊢
    intro srcVar dstVar hsrc hdst
    have ⟨srcVar₁,hsrc₁,hrest⟩ := ok_of_inspect hrun
    have ⟨dstVar₁,hdst₁,hrest⟩ := ok_of_inspect hrest
    have ⟨rows,st₁,hrows,_⟩ := ok_of_bind hrest
    rw [Option.some.inj ((endVariable_ok hsrc₁).symm.trans hsrc),
      Option.some.inj ((endVariable_ok hdst₁).symm.trans hdst)] at hrows
    exact mapMeets_of_ok (fun hrec hrow => h.matchMergeRelationship hrec hrow)
      (hg srcVar dstVar hsrc hdst) hrows
  · exact fun hrun => absurd (Prod.mk.inj hrun).1 (by simp)
  · exact fun hrun => absurd (Prod.mk.inj hrun).1 (by simp)
  · exact fun hrun => absurd (Prod.mk.inj hrun).1 (by simp)

end Checks

theorem ok_of_raising {α : Type} {x : Db α} {a : α} (hrun : raising x st=(.ok a,st')) : x st=(.ok a,st') := by
  unfold raising at hrun
  cases hx : x st with
  | mk outcome st₁ =>
    rw [hx] at hrun
    cases outcome with
    | ok b =>
      have ⟨hb,hst⟩ := Prod.mk.inj hrun
      rw [Except.ok.inj hb,hst]
    | error e => exact absurd (Prod.mk.inj hrun).1 (by simp)

theorem Checks.txCreateNodeWithLabels (h : Checks G H) {properties : Properties}
    (hg : validateProperties (labels.head?.getD "") properties limits=.ok () →
      G st (.createNode labels properties))
    (hrun : withoutResult (TransactionCalls.txCreateNodeWithLabels env limits labels properties) st=
      (.ok (),st')) :
    validateProperties (labels.head?.getD "") properties limits=.ok () →
      H st (.createNode labels properties) := by
  intro hchecked
  have ⟨id,st₁,htx,_⟩ := ok_of_bind hrun
  have ⟨u,_,hcreate⟩ := ok_of_inspect htx
  exact h.createIndexedNode (hg hchecked) (ok_of_raising hcreate)

theorem Checks.txCall (h : Checks G H) {call : TxCall} (hg : TxMeets G limits st call)
    (hrun : call.run env limits st=(.ok (),st')) : TxMeets H limits st call := by
  cases call with
  | createNodeWithLabels labels properties | createNode label properties => exact h.txCreateNodeWithLabels hg hrun
  | setNodeProperty id key value =>
    intro hchecked
    have ⟨u,_,hrest⟩ := ok_of_inspect hrun
    have ⟨old,_,hset⟩ := ok_of_inspect (ok_of_raising hrest)
    have ⟨u,st₁,hcall,_⟩ := ok_of_bind hset
    exact h st _ st₁ (hg hchecked) hcall
  | createEdge src dst label properties =>
    intro hchecked hsrc hdst
    have ⟨u,_,hrest⟩ := ok_of_inspect hrun
    have ⟨u,_,hrest⟩ := ok_of_inspect hrest
    have ⟨u,_,hcall⟩ := ok_of_inspect hrest
    exact h st _ st' (hg hchecked hsrc hdst) (ok_of_raising hcall)
  | deleteNode id | removeNodeProperty id key | deleteEdge src dst label => trivial

variable (env limits st) in
/-- A step returns no error. -/
def Succeeds : WriteStep E → Prop
  | .clause clause => ∃ out st',WriteOperators.execClause env clause st=(.ok out,st')
  | .merge pattern onCreate onMatch =>
    ∃ out st',MergeOperators.execMerge env pattern onCreate onMatch st=(.ok out,st')
  | .matchMerge records pattern onCreate onMatch =>
    ∃ out st',MergeOperators.execMatchMerge env records pattern onCreate onMatch st=(.ok out,st')
  | .call call => ∃ st',call.run env limits st=(.ok (),st')

theorem Checks.step (h : Checks G H) {step : WriteStep E} (hg : StepMeets G env limits st step)
    (hok : Succeeds env limits st step) : StepMeets H env limits st step := by
  cases step with
  | clause clause =>
    have ⟨out,st',hrun⟩ := hok
    exact h.execClause hg hrun
  | merge pattern onCreate onMatch =>
    have ⟨out,st',hrun⟩ := hok
    exact h.execMerge hg hrun
  | matchMerge records pattern onCreate onMatch =>
    have ⟨out,st',hrun⟩ := hok
    exact h.execMatchMerge hg hrun
  | call call =>
    have ⟨st',hrun⟩ := hok
    exact h.txCall hg hrun

end Success

end GraphDbLite.StorageCalls
