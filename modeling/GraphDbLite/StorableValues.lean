import GraphDbLite.StoredContents

/-!
# What is stored as a property

Maps, nodes, relationships and paths are not storable, and null means that there is
no property. SET of a property and SET of a relationship by a map check the values
that they write. CREATE, SET of a node by a map and MERGE write what their expressions
give, so what is stored depends on the values that these expressions take.
-/

namespace GraphDbLite.StorableValues

open GraphTypes OrderedTable StatefulActions GraphStore EdgeStorage NodeStorage
open WriteOperators PropertySetters CypherSyntax
open MergeOperators StorageCalls StoredContents

/-- Properties without a value that may not be stored. -/
def AllStorable (props : Properties) : Prop := ∀ entry∈props,isStorable entry.2=true

/-- Properties as they may be stored: no forbidden value and no null. -/
def StorableProps (props : Properties) : Prop :=
  ∀ entry∈props,isStorable entry.2=true ∧ entry.2.isNull=false

/-- Every stored property may be stored. -/
structure StoresStorable (st : Store) : Prop where
  /-- Properties of nodes. -/
  nodes : ∀ id row,get st.nodes id=some row → StorableProps row.value.properties
  /-- Properties of relationships. -/
  edges : ∀ key props,get st.edgeProps key=some props → StorableProps props

variable {val : Value} {E : Type} {env : ExecEnv E} {rec : NamedRecord} {properties : List (String×E)}
  {done : Properties} {check : Value → Result Unit} {merge : Bool} {entries : List (String×Value)}

theorem StorableProps.insert {props : Properties} (h : StorableProps props) {key : String}
    (hval : isStorable val=true) (hnull : val.isNull=false) : StorableProps (insertProp props key val) := by
  intro entry hentry
  rcases List.mem_cons.mp hentry with heq | hold
  · rw [heq]
    exact ⟨hval,hnull⟩
  · exact h entry (List.mem_of_mem_filter hold)

theorem StorableProps.remove {props : Properties} (h : StorableProps props) (key : String) :
    StorableProps (removeProp props key) := fun entry hentry => h entry (List.mem_of_mem_filter hentry)

theorem storableProps_nil : StorableProps [] := fun _ h => absurd h List.not_mem_nil

variable {st : Store}

theorem storableProps_of_evalProperties {props : Properties} (hnull : ∀ entry∈props,entry.2.isNull=false)
    (h : evalProperties env rec st props properties=.ok done) (hdone : AllStorable done) : StorableProps done := by
  have hkept : ∀ entry∈done,entry.2.isNull=false := by
    clear hdone
    induction properties generalizing props with
    | nil =>
      rw [evalProperties] at h
      rw [←Except.ok.inj h]
      exact hnull
    | cons entry rest ih =>
      rw [evalProperties] at h
      cases hval : env.eval st entry.2 rec with
      | error e =>
        rw [hval] at h
        cases h
      | ok val =>
        rw [hval] at h
        refine ih ?_ h
        split_ifs with hempty
        · exact hnull
        · intro other hother
          rcases List.mem_cons.mp hother with heq | hold
          · rw [heq]
            exact Bool.eq_false_iff.mpr hempty
          · exact hnull other (List.mem_of_mem_filter hold)
  exact fun entry hentry => ⟨hdone entry hentry,hkept entry hentry⟩

theorem evalProperties_of_mergeProperties {props : Properties}
    (h : mergeProperties env st rec props properties=.ok done) : evalProperties env rec st props properties=.ok done := by
  induction properties generalizing props with
  | nil => exact h
  | cons entry rest ih =>
    rw [mergeProperties] at h
    rw [evalProperties]
    cases hval : env.eval st entry.2 rec with
    | error e =>
      rw [hval] at h
      cases h
    | ok val =>
      rw [hval] at h
      dsimp only at h
      split_ifs at h with hnull
      dsimp only
      rw [if_neg hnull]
      exact ih h

theorem storableProps_of_overlayEntries {props : Properties} (hprops : StorableProps props)
    (hentries : ∀ entry∈entries,check entry.2=.ok () → isStorable entry.2=true)
    (h : overlayEntries check merge props entries=.ok done) : StorableProps done := by
  induction entries generalizing props with
  | nil =>
    rw [overlayEntries] at h
    rw [←Except.ok.inj h]
    exact hprops
  | cons entry rest ih =>
    have ⟨key,val⟩ := entry
    have ⟨hone,hrest⟩ := List.forall_mem_cons.mp hentries
    rw [overlayEntries] at h
    split_ifs at h with hnull hmerge
    · exact ih (hprops.remove key) hrest h
    · exact ih hprops hrest h
    · cases hcheck : check val with
      | error e =>
        rw [hcheck] at h
        cases h
      | ok u =>
        rw [hcheck] at h
        exact ih (hprops.insert (hone hcheck) (Bool.eq_false_iff.mpr hnull)) hrest h

theorem storableProps_of_overlayMap {old : Properties} (hold : StorableProps old)
    (hentries : ∀ entry∈entries,check entry.2=.ok () → isStorable entry.2=true)
    (h : overlayMap check merge old entries=.ok done) : StorableProps done := by
  refine storableProps_of_overlayEntries ?_ hentries h
  split_ifs
  · exact hold
  · exact storableProps_nil

/-- What may be stored: any labels and types, and values that are storable. -/
def storableContents : Admission where
  label _ := True
  relType _ := True
  entry e := isStorable e.2=true ∧ e.2.isNull=false

/-- A call on such a database brings in only what may be stored. -/
def BringsStorable (st : Store) (c : StorageCall) : Prop :=
  Admitted storableContents st → Brings storableContents st c

theorem keptBy_storable : KeptBy BringsStorable (Admitted storableContents) where
  call _ _ h hbrings := h.call (hbrings h)
  removal := (keptBy_admitted storableContents).removal
  indexTables := (keptBy_admitted storableContents).indexTables
  ftsTables := (keptBy_admitted storableContents).ftsTables

theorem storesStorable_of_admitted (h : Admitted storableContents st) : StoresStorable st :=
  ⟨h.nodes,h.edges⟩

theorem bringsStorable_setEdgeProperty (src dst : NodeId) (label : String) (seq : UInt64) (key : String)
    (hval : isStorable val=true) : BringsStorable st (.setEdgeProperty src dst label seq key val) :=
  fun _ => ⟨fun _ => trivial,fun hnull => ⟨hval,hnull⟩⟩

section Clauses

variable {E : Type} {env : ExecEnv E} {st : Store}

/-- Inline properties of CREATE evaluate to storable values. -/
def CreatesStorable (env : ExecEnv E) (rec : NamedRecord) (st : Store) (properties : List (String×E)) : Prop :=
  ∀ props,evalProperties env rec st [] properties=.ok props → AllStorable props

/-- The inline properties of one part of a CREATE clause evaluate to storable values. -/
def CreateOpStorable (env : ExecEnv E) (rec : NamedRecord) (st : Store) : CreateOp E → Prop
  | .node _ _ properties => CreatesStorable env rec st properties
  | .edge _ _ _ _ properties => CreatesStorable env rec st properties

/-- The entries of a map that SET writes to a node are storable. -/
def MapStorable (env : ExecEnv E) (var : String) (expr : E) (st : Store) (rec : NamedRecord) : Prop :=
  edgeIdentity rec var=none → ∀ id,nodeIdField rec var=some id →
    ∀ value entries,env.eval st expr rec=.ok value → mapEntries value=.ok (some entries) →
      ∀ entry∈entries,isStorable entry.2=true

/-- What a write clause stores without a check is storable, along the items that it
reaches: inline properties of CREATE and maps that SET writes to nodes. -/
def ClauseStorable (env : ExecEnv E) (st : Store) : WriteClause E → Prop
  | .createNode _ _ properties => CreatesStorable env ⟨[]⟩ st properties
  | .createSequence ops =>
    FoldMeets (fun st s op => CreateOpStorable env s.record st op) (createSequenceOp env) ops
      ⟨[],⟨[]⟩⟩ st
  | .matchCreate records ops =>
    MapMeets
      (fun st rec => FoldMeets (fun st _ op => CreateOpStorable env rec st op) (matchCreateOp env rec) ops
        ⟨seedBindings rec,rec⟩ st)
      (fun rec => do
        let s ← foldEach ops ⟨seedBindings rec,rec⟩ (matchCreateOp env rec)
        pure s.record)
      records st
  | .setProperty _ _ => True
  | .setProperties records var expr merge =>
    MapMeets (MapStorable env var expr) (setPropertiesRecord env var expr merge) records st
  | .setLabel _ _ _ => True
  | .remove _ _ => True
  | .delete _ _ _ => True

theorem createOp_meets {rec : NamedRecord} (s : CreateState) (op : CreateOp E)
    (h : CreateOpStorable env rec st op) : CreateOpMeets BringsStorable env rec st s op := by
  have hnone : ∀ entry∈([] : Properties),entry.2.isNull=false := fun entry hentry => absurd hentry List.not_mem_nil
  cases op with
  | node labels nodeAlias properties =>
    intro props hprops _
    exact ⟨fun _ _ => trivial,storableProps_of_evalProperties hnone hprops (h props hprops)⟩
  | edge srcAlias dstAlias edgeType relAlias properties =>
    intro src dst props _ _ hprops _
    exact ⟨trivial,storableProps_of_evalProperties hnone hprops (h props hprops)⟩

theorem assignment_meets (st : Store) (rec : NamedRecord) (a : Assignment E) :
    AssignmentMeets BringsStorable env st rec a := by
  intro val _ hval
  exact ⟨fun src dst label _ => bringsStorable_setEdgeProperty src dst label _ a.property hval,
    fun _ _ _ _ hnull => ⟨hval,hnull⟩⟩

theorem setMap_meets {var : String} {expr : E} {merge : Bool} {rec : NamedRecord}
    (h : MapStorable env var expr st rec) : SetMapMeets BringsStorable env var expr merge st rec := by
  intro value entries new hvalue hentries
  refine ⟨fun src dst label seq _ _ hnew hst => ⟨fun _ => trivial,?_⟩,fun hedge id old hnode hold hnew hst => ?_⟩
  · exact storableProps_of_overlayMap (hst.edgePropertiesAt src dst label seq)
      (fun _ _ hchecked => isStorable_of_validated hchecked) hnew
  · have ⟨row,hrow,heq⟩ := getNode_ok hold
    have hprops : StorableProps old.properties := by
      rw [heq]
      exact hst.nodes id row hrow
    exact storableProps_of_overlayMap hprops (fun entry hentry _ => h hedge id hnode value entries hvalue hentries entry hentry)
      hnew

theorem labels_meet (id : NodeId) (labels : List String) (st : Store) : LabelsMeet BringsStorable id labels st := by
  have hcall : ∀ label∈labels,∀ s,BringsStorable s (.addNodeLabel id label) := fun _ _ _ _ => trivial
  exact eachMeets_of_mem hcall _ st

theorem removeItem_meets (st : Store) (rec : NamedRecord) (item : RemoveItem) :
    RemoveItemMeets BringsStorable st rec item := by
  cases item with
  | property var property => exact fun src dst label _ => bringsStorable_setEdgeProperty src dst label _ property rfl
  | label var labels => trivial

theorem clause_meets {clause : WriteClause E} (h : ClauseStorable env st clause) :
    ClauseMeets BringsStorable env st clause := by
  cases clause with
  | createNode labels nodeAlias properties =>
    exact createOp_meets ⟨[],⟨[]⟩⟩ (.node labels nodeAlias properties) h
  | createSequence ops => exact FoldMeets.mono (fun _ s op hop => createOp_meets s op hop) h
  | matchCreate records ops =>
    refine MapMeets.mono (fun st rec hops => ?_) h
    have hop : ∀ st s op,CreateOpStorable env rec st op → isBoundNode s op=false →
        CreateOpMeets BringsStorable env rec st s op := fun _ s op hop _ => createOp_meets s op hop
    exact FoldMeets.mono hop hops
  | setProperty records assignments =>
    exact mapMeets_of_forall (fun st rec => foldMeets_of_forall assignment_meets _ assignments rec st) _ records st
  | setProperties records var expr merge => exact MapMeets.mono (fun _ _ hmap => setMap_meets hmap) h
  | setLabel records var labels =>
    exact mapMeets_of_forall (fun st _ id _ => labels_meet id labels st) _ records st
  | remove records items =>
    exact mapMeets_of_forall (fun st rec => foldMeets_of_forall removeItem_meets _ items rec st) _ records st
  | delete records exprs detach => trivial

end Clauses

section Merging

variable {E : Type} {env : ExecEnv E} {st : Store}

/-- Inline properties of MERGE evaluate to storable values. -/
def MergesStorable (env : ExecEnv E) (rec : NamedRecord) (st : Store) (properties : List (String×E)) : Prop :=
  ∀ props,mergeProperties env st rec [] properties=.ok props → AllStorable props

/-- What a SET item of MERGE assigns is storable; an assignment is evaluated on the
record `target` gives for it. -/
def ItemStorable (env : ExecEnv E) (target : Assignment E → NamedRecord) (rec : NamedRecord) (st : Store) :
    SetItem E → Prop
  | .property a => ∀ val,env.eval st a.value (target a)=.ok val → isStorable val=true
  | .label _ _ => True
  | .mapMerge _ value => ∀ map,resolveToMap env st value rec=.ok map → AllStorable map
  | .mapOverwrite _ value => ∀ map,resolveToMap env st value rec=.ok map → AllStorable map

/-- The SET items of MERGE that reach a node assign storable values. -/
def NodeItemsStorable (env : ExecEnv E) (items : List (SetItem E)) (rec : NamedRecord) (id : NodeId)
    (st : Store) : Prop :=
  EachMeets (fun st item => ItemStorable env (fun a => rec.set a.var (.i64 id.toInt64)) rec st item)
    (fun item => applyMergeSetItemNode env item id rec) items st

/-- The SET items of MERGE that reach a created relationship assign storable values. -/
def EdgeItemsStorable (env : ExecEnv E) (items : List (SetItem E)) (rec : NamedRecord) (src dst : NodeId)
    (label : String) (st : Store) : Prop :=
  EachMeets (fun st item => ItemStorable env (fun _ => rec) rec st item)
    (fun item => applyMergeSetItemEdge env item src dst label rec) items st

/-- The SET items of MERGE that reach a matched relationship assign storable values. -/
def MatchedItemsStorable (env : ExecEnv E) (items : List (SetItem E)) (rec : NamedRecord) (st : Store)
    (e : MergedEdge) : Prop :=
  EachMeets (fun st item => ItemStorable env (fun _ => rec) rec st item)
    (fun item => applyMergeSetItemEdgeAt env item e.src e.dst e.label (e.seq.getD 0) rec) items st

/-- What single-node MERGE stores is storable. -/
def MergeNodeStorable (env : ExecEnv E) (node : NodePatternOf E) (onCreate onMatch : List (SetItem E))
    (st : Store) : Prop :=
  MergesStorable env ⟨[]⟩ st node.properties ∧
    ∀ props found,mergeProperties env st ⟨[]⟩ [] node.properties=.ok props →
      findMergeMatchMultiLabel env st node.labels props=.ok found →
        (∀ n∈found,NodeItemsStorable env onMatch ⟨[]⟩ n.id st) ∧
          (found=none → Then (createIndexedNode env node.labels props)
            (NodeItemsStorable env onCreate ⟨[]⟩) st)

/-- What relationship MERGE stores between its ends is storable. -/
def MergeEdgeStorable (env : ExecEnv E) (rel : RelPatternOf E) (onCreate onMatch : List (SetItem E))
    (srcId dstId : NodeId) (rec : NamedRecord) (st : Store) : Prop :=
  MergesStorable env ⟨[]⟩ st rel.properties ∧
    ∀ props,mergeProperties env st ⟨[]⟩ [] rel.properties=.ok props →
      (firstEdgeMatches st srcId dstId (edgeTypeOf rel) props=true →
          EdgeItemsStorable env onMatch rec srcId dstId (edgeTypeOf rel) st) ∧
        (firstEdgeMatches st srcId dstId (edgeTypeOf rel) props=false →
          Then (createEdge srcId dstId (edgeTypeOf rel) props)
            (fun _ => EdgeItemsStorable env onCreate rec srcId dstId (edgeTypeOf rel)) st)

/-- What relationship MERGE without an input stores is storable. -/
def MergeRelationshipStorable (env : ExecEnv E) (src : NodePatternOf E) (rel : RelPatternOf E)
    (dst : NodePatternOf E) (onCreate onMatch : List (SetItem E)) (st : Store) : Prop :=
  MergesStorable env ⟨[]⟩ st src.properties ∧
    Then (findOrCreateMergeNode env (firstLabel src) src.properties) (fun srcId st =>
      MergesStorable env ⟨[]⟩ st dst.properties ∧
        Then (findOrCreateMergeNode env (firstLabel dst) dst.properties) (fun dstId =>
          MergeEdgeStorable env rel onCreate onMatch srcId dstId
            (bindEnd (bindEnd ⟨[]⟩ src.var srcId) dst.var dstId)) st) st

/-- What MERGE without an input stores is storable. -/
def MergeStorable (env : ExecEnv E) (pattern : PatternOf E) (onCreate onMatch : List (SetItem E))
    (st : Store) : Prop :=
  match pattern.elements with
  | [.node node] => MergeNodeStorable env node onCreate onMatch st
  | .node src::.relationship rel::.node dst::_ =>
    MergeRelationshipStorable env src rel dst onCreate onMatch st
  | _ => True

/-- What single-node MERGE stores for one record is storable. -/
def MatchMergeNodeStorable (env : ExecEnv E) (node : NodePatternOf E) (pathVar : Option String)
    (onCreate onMatch : List (SetItem E)) (st : Store) (rec : NamedRecord) : Prop :=
  MergesStorable env rec st node.properties ∧
    ∀ props found,mergeProperties env st rec [] node.properties=.ok props →
      findMergeMatchesEvaluated env st (firstLabel node) props=.ok found →
        MapMeets (fun st n => NodeItemsStorable env onMatch rec n.id st)
            (matchedNodeRow env (node.var.getD "_merge") pathVar onMatch rec) found st ∧
          (found=[] → Then (createIndexedNode env (labelsOf (firstLabel node)) props)
            (NodeItemsStorable env onCreate rec) st)

/-- What relationship MERGE stores for one record is storable. -/
def MatchMergeEdgeStorable (env : ExecEnv E) (srcVar dstVar : String) (rel : RelPatternOf E)
    (onCreate onMatch : List (SetItem E)) (st : Store) (rec : NamedRecord) : Prop :=
  ∀ srcId dstId,nodeIdField rec srcVar=some srcId → nodeIdField rec dstVar=some dstId →
    MergesStorable env rec st rel.properties ∧
      ∀ props,mergeProperties env st rec [] rel.properties=.ok props →
        EachMeets (MatchedItemsStorable env onMatch rec) (setMatchedEdge env onMatch rec)
            (matchedEdges st rel.direction srcId dstId (edgeTypeOf rel) props) st ∧
          (matchedEdges st rel.direction srcId dstId (edgeTypeOf rel) props=[] →
            Then (createEdge srcId dstId (edgeTypeOf rel) props)
              (fun _ => EdgeItemsStorable env onCreate rec srcId dstId (edgeTypeOf rel)) st)

/-- What MERGE stores for the records of its input is storable. -/
def MatchMergeStorable (env : ExecEnv E) (records : List NamedRecord) (pattern : PatternOf E)
    (onCreate onMatch : List (SetItem E)) (st : Store) : Prop :=
  match pattern.elements with
  | [.node node] =>
    MapMeets (MatchMergeNodeStorable env node pattern.pathVar onCreate onMatch)
      (matchMergeNode env node pattern.pathVar onCreate onMatch) records st
  | [.node src,.relationship rel,.node dst] =>
    ∀ srcVar dstVar,src.var=some srcVar → dst.var=some dstVar →
      MapMeets (MatchMergeEdgeStorable env srcVar dstVar rel onCreate onMatch)
        (matchMergeRelationship env srcVar dstVar rel pattern.pathVar onCreate onMatch) records st
  | _ => True

variable {rec : NamedRecord} {items : List (SetItem E)} {onCreate onMatch : List (SetItem E)}
variable {properties : List (String×E)} {call : Store → String → Value → StorageCall} {id : NodeId}
  {item : SetItem E} {label : String} {node : NodePatternOf E} {rel : RelPatternOf E} {pattern : PatternOf E}

theorem MergesStorable.props (h : MergesStorable env rec st properties) {props : Properties}
    (hprops : mergeProperties env st rec [] properties=.ok props) : StorableProps props :=
  storableProps_of_evalProperties (fun _ hentry => absurd hentry List.not_mem_nil)
    (evalProperties_of_mergeProperties hprops) (h props hprops)

theorem nodeEntries_meet (id : NodeId) {map : Properties} (hmap : AllStorable map) (st : Store) :
    NodeEntriesMeet BringsStorable id map st :=
  eachMeets_of_mem (fun entry hentry _ _ hnull => ⟨hmap entry hentry,hnull⟩) _ st

theorem edgeEntries_meet (hcall : ∀ st key val,isStorable val=true → BringsStorable st (call st key val))
    {entries : Properties} (hentries : AllStorable entries) (st : Store) :
    EdgeEntriesMeet BringsStorable call entries st := by
  induction entries generalizing st with
  | nil => trivial
  | cons entry rest ih =>
    have ⟨hone,hrest⟩ := List.forall_mem_cons.mp hentries
    exact ⟨hcall st entry.1 entry.2 hone,ih hrest _⟩

theorem nodeItem_meets (h : ItemStorable env (fun a => rec.set a.var (.i64 id.toInt64)) rec st item) :
    NodeItemMeets BringsStorable env id rec st item := by
  cases item with
  | property a => exact fun val hval _ hnull => ⟨h val hval,hnull⟩
  | label var labels => exact labels_meet id labels st
  | mapMerge var value => exact fun map hmap => nodeEntries_meet id (h map hmap) st
  | mapOverwrite var value => exact fun map old hmap _ _ s _ => nodeEntries_meet id (h map hmap) s

theorem edgeItem_meets {read : Store → Properties}
    (hcall : ∀ st key val,isStorable val=true → BringsStorable st (call st key val))
    (h : ItemStorable env (fun _ => rec) rec st item) : EdgeItemMeets BringsStorable env read call rec st item := by
  cases item with
  | property a => exact fun val hval => hcall st a.property val (h val hval)
  | label var labels => trivial
  | mapMerge var value => exact fun map hmap => edgeEntries_meet hcall (h map hmap) st
  | mapOverwrite var value =>
    refine fun map hmap => edgeEntries_meet hcall (List.forall_mem_append.mpr ⟨?_,h map hmap⟩) st
    exact List.forall_mem_map.mpr fun _ _ => rfl

theorem nodeItems_meet (h : NodeItemsStorable env items rec id st) :
    NodeItemsMeet BringsStorable env items rec id st :=
  EachMeets.mono (fun _ _ hitem => nodeItem_meets hitem) h

theorem edgeItems_meet {src dst : NodeId} (h : EdgeItemsStorable env items rec src dst label st) :
    EdgeItemsMeet BringsStorable env items rec src dst label st :=
  EachMeets.mono (fun _ _ hitem => edgeItem_meets
    (fun _ key _ hval => bringsStorable_setEdgeProperty src dst label _ key hval) hitem) h

theorem matchedItems_meet {e : MergedEdge} (h : MatchedItemsStorable env items rec st e) :
    MatchedItemsMeet BringsStorable env items rec st e :=
  EachMeets.mono (fun _ _ hitem => edgeItem_meets
    (fun _ key _ hval => bringsStorable_setEdgeProperty e.src e.dst e.label _ key hval) hitem) h

theorem end_meets (h : MergesStorable env ⟨[]⟩ st properties) : EndMeets BringsStorable env label properties st :=
  fun _ hprops _ _ => ⟨fun _ _ => trivial,h.props hprops⟩

theorem mergeNode_meets (h : MergeNodeStorable env node onCreate onMatch st) :
    MergeNodeMeets BringsStorable env node onCreate onMatch st := by
  intro props found hprops hfound
  have ⟨hmatched,hcreated⟩ := h.2 props found hprops hfound
  refine ⟨fun n hn => nodeItems_meet (hmatched n hn),fun hnone => ⟨fun _ => ⟨fun _ _ => trivial,h.1.props hprops⟩,?_⟩⟩
  exact fun id s hrun => nodeItems_meet (hcreated hnone id s hrun)

theorem mergeEdge_meets {srcId dstId : NodeId}
    (h : MergeEdgeStorable env rel onCreate onMatch srcId dstId rec st) :
    MergeEdgeMeets BringsStorable env rel onCreate onMatch srcId dstId rec st := by
  intro props hprops
  have ⟨hmatched,hcreated⟩ := h.2 props hprops
  refine ⟨fun hfound => edgeItems_meet (hmatched hfound),fun hnone => ⟨fun _ => ⟨trivial,h.1.props hprops⟩,?_⟩⟩
  exact fun u s hrun => edgeItems_meet (hcreated hnone u s hrun)

theorem merge_meets (h : MergeStorable env pattern onCreate onMatch st) :
    MergeMeets BringsStorable env pattern onCreate onMatch st := by
  unfold MergeStorable at h
  unfold MergeMeets
  split
  · rename_i node heq
    rw [heq] at h
    exact mergeNode_meets h
  · rename_i src rel dst rest heq
    rw [heq] at h
    refine ⟨end_meets h.1,fun srcId s hsrc => ?_⟩
    have ⟨hdst,hedge⟩ := h.2 srcId s hsrc
    exact ⟨end_meets hdst,fun dstId s' hrun => mergeEdge_meets (hedge dstId s' hrun)⟩
  · trivial

theorem matchMergeNode_meets {pathVar : Option String}
    (h : MatchMergeNodeStorable env node pathVar onCreate onMatch st rec) :
    MatchMergeNodeMeets BringsStorable env node pathVar onCreate onMatch st rec := by
  intro props found hprops hfound
  have ⟨hmatched,hcreated⟩ := h.2 props found hprops hfound
  refine ⟨MapMeets.mono (fun _ _ hitems => nodeItems_meet hitems) hmatched,fun hnone => ⟨fun _ => ?_,?_⟩⟩
  · exact ⟨fun _ _ => trivial,h.1.props hprops⟩
  · exact fun id s hrun => nodeItems_meet (hcreated hnone id s hrun)

theorem matchMergeEdge_meets {srcVar dstVar : String}
    (h : MatchMergeEdgeStorable env srcVar dstVar rel onCreate onMatch st rec) :
    MatchMergeEdgeMeets BringsStorable env srcVar dstVar rel onCreate onMatch st rec := by
  intro srcId dstId hsrc hdst props found hprops hfound
  have ⟨hinline,hrest⟩ := h srcId dstId hsrc hdst
  have ⟨hmatched,hcreated⟩ := hrest props hprops
  rw [←hfound]
  refine ⟨EachMeets.mono (fun _ _ hitems => matchedItems_meet hitems) hmatched,fun hnone => ⟨fun _ => ?_,?_⟩⟩
  · exact ⟨trivial,hinline.props hprops⟩
  · exact fun u s hrun => edgeItems_meet (hcreated hnone u s hrun)

theorem matchMerge_meets {records : List NamedRecord}
    (h : MatchMergeStorable env records pattern onCreate onMatch st) :
    MatchMergeMeets BringsStorable env records pattern onCreate onMatch st := by
  unfold MatchMergeStorable at h
  unfold MatchMergeMeets
  split
  · rename_i node heq
    rw [heq] at h
    exact MapMeets.mono (fun _ _ hrow => matchMergeNode_meets hrow) h
  · rename_i src rel dst heq
    rw [heq] at h
    exact fun srcVar dstVar hsrc hdst => MapMeets.mono (fun _ _ hrow => matchMergeEdge_meets hrow) (h srcVar dstVar hsrc hdst)
  · trivial

end Merging

/-- The steps of a run: write clauses and MERGE. -/
inductive StoreStep (E : Type) where
  | clause (clause : WriteClause E)
  | merge (pattern : PatternOf E) (onCreate onMatch : List (SetItem E))
  | matchMerge (records : List NamedRecord) (pattern : PatternOf E) (onCreate onMatch : List (SetItem E))

section Steps

variable {E : Type} (env : ExecEnv E)

/-- The store after a step, successful or not. -/
def applyStoreStep (st : Store) : StoreStep E → Store
  | .clause clause => (execClause env clause st).2
  | .merge pattern onCreate onMatch => (execMerge env pattern onCreate onMatch st).2
  | .matchMerge records pattern onCreate onMatch =>
    (execMatchMerge env records pattern onCreate onMatch st).2

/-- What a step stores without a check is storable. -/
def StepStorable (st : Store) : StoreStep E → Prop
  | .clause clause => ClauseStorable env st clause
  | .merge pattern onCreate onMatch => MergeStorable env pattern onCreate onMatch st
  | .matchMerge records pattern onCreate onMatch =>
    MatchMergeStorable env records pattern onCreate onMatch st

variable {env}

theorem admitted_step {st : Store} (h : Admitted storableContents st) {step : StoreStep E}
    (hguard : StepStorable env st step) : Admitted storableContents (applyStoreStep env st step) := by
  cases step with
  | clause clause => exact keptBy_storable.execClause h (clause_meets hguard)
  | merge pattern onCreate onMatch => exact keptBy_storable.execMerge h (merge_meets hguard)
  | matchMerge records pattern onCreate onMatch => exact keptBy_storable.execMatchMerge h (matchMerge_meets hguard)

end Steps

/-- `CREATE (n:A {x: [1, 's']})` and `MERGE (n:B {y: 2}) ON CREATE SET n.z = 3`. -/
def storableSteps : List (StoreStep Value) :=
  [.clause (.createNode ["A"] (some "n") [("x",.list [.i64 1,.string "s"])]),
    .merge ⟨[.node ⟨some "n",["B"],[("y",.i64 2)]⟩],none,.none⟩ [.property ⟨"n","z",.i64 3⟩] []]

end GraphDbLite.StorableValues
