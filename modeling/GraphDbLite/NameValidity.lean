import GraphDbLite.StoredContents

/-!
# Names in the tables

Creation of nodes and relationships and the write of one property of a node check the
names that they are given. Labels that are added, property maps that replace those of a
node and all writes to the properties of a relationship are not checked.
-/

namespace GraphDbLite.NameValidity

open GraphTypes OrderedTable StatefulActions GraphStore EdgeStorage NodeStorage WriteOperators
open PropertySetters StorageCalls StoredContents

/-- Labels, relationship types and property keys that pass the check of names. -/
def validNames : Admission :=
  ⟨fun l => isValidName l=true,fun l => isValidName l=true,fun entry => isValidName entry.1=true⟩

/-- Every stored label, relationship type and property key is a valid name. -/
def ValidNames (st : Store) : Prop := Admitted validNames st

/-- The calls that do not check names bring in only valid ones: labels added to a node,
maps that replace the properties of a node, and properties written to a relationship. -/
def UncheckedValid (st : Store) : StorageCall → Prop
  | .addNodeLabel id label => nodeExists st id=true → isValidName label=true
  | .setAllNodeProperties id properties =>
    nodeExists st id=true → ∀ entry∈properties,isValidName entry.1=true
  | .setEdgeProperty src dst label seq key val =>
    (edgePropsKey src dst label seq∉keys st.edgeProps → isValidName label=true) ∧
      (val.isNull=false → isValidName key=true)
  | .setAllEdgeProperties src dst label seq properties =>
    (edgePropsKey src dst label seq∉keys st.edgeProps → isValidName label=true) ∧
      ∀ entry∈properties,isValidName entry.1=true
  | .createNode _ _ => True
  | .createEdge _ _ _ _ => True
  | .setNodeProperty _ _ _ => True

/-- With valid names where nothing is checked, a call that passes its checks brings in
valid names. -/
theorem brings_of_unchecked {st : Store} {c : StorageCall} (hvalid : UncheckedValid st c)
    (haccepted : Accepted st c) : Brings validNames st c := by
  have hkeys : ∀ {props : Properties},(∀ key∈props.map Prod.fst,isValidName key=true) →
      validNames.Props props := fun h entry hentry => h entry.1 (List.mem_map_of_mem hentry)
  cases c with
  | createNode labels properties | createEdge src dst label properties => exact ⟨haccepted.1,hkeys haccepted.2⟩
  | setNodeProperty id key val => exact fun _ => haccepted.1
  | setAllNodeProperties id properties | addNodeLabel id label => exact hvalid haccepted
  | setEdgeProperty src dst label seq key val | setAllEdgeProperties src dst label seq properties => exact hvalid

theorem keptBy_unchecked : KeptBy UncheckedValid ValidNames where
  call st c h hvalid := (keptBy_admitted validNames).call st c h (brings_of_unchecked hvalid)
  removal := (keptBy_admitted validNames).removal
  indexTables := (keptBy_admitted validNames).indexTables
  ftsTables := (keptBy_admitted validNames).ftsTables

/-- With valid names where nothing is checked, a call that succeeds brings in valid
names. -/
theorem checks_unchecked : Checks UncheckedValid (Brings validNames) :=
  fun _ _ _ hvalid hrun => brings_of_unchecked hvalid (accepted_of_ok hrun)

/-- Along every run in which the unchecked calls bring in valid names, every stored name
is valid, and a step that would bring in another name fails. -/
theorem validNames_reached {E : Type} (env : ExecEnv E) (limits : Limits) (steps : List (WriteStep E))
    (hguard : Guarded (applyWriteStep env limits) (StepMeets UncheckedValid env limits) freshStore steps) :
    (∀ first,first<+:steps →
        ValidNames (StatefulActions.run (applyWriteStep env limits) freshStore first)) ∧
      Guarded (applyWriteStep env limits)
        (fun st step => Succeeds env limits st step → StepMeets (Brings validNames) env limits st step)
        freshStore steps := by
  constructor
  · exact fun first hfirst => keptBy_unchecked.reached (admitted_freshStore validNames) hguard hfirst
  · exact guarded_imp (I:=fun _ => True) (fun _ _ _ _ => trivial)
      (fun _ _ _ hmeets hok => checks_unchecked.step hmeets hok) trivial hguard

/-- Any limits. -/
def wideLimits : Limits := ⟨256,65536⟩

/-- `CREATE (n:A {x: 1})`, `SET n += {y: 2}` and `SET n:B` on it, and a relationship by
the transaction call. -/
def namedSteps : List (WriteStep Value) :=
  [.clause (.createNode ["A"] (some "n") [("x",.i64 1)]),
    .clause (.setProperties [⟨[("n",.i64 1)]⟩] "n" (.map [("y",.i64 2)]) true),
    .clause (.setLabel [⟨[("n",.i64 1)]⟩] "n" ["B"]),.call (.createEdge 1 1 "R" [("z",.i64 3)])]

/-- Names stay valid along that run. -/
theorem validNames_sample :
    (∀ first,first<+:namedSteps →
        ValidNames (StatefulActions.run (applyWriteStep literalEnv wideLimits) freshStore first)) ∧
      Guarded (applyWriteStep literalEnv wideLimits)
        (fun st step => Succeeds literalEnv wideLimits st step →
          StepMeets (Brings validNames) literalEnv wideLimits st step) freshStore namedSteps := by
  have hnoEdge : edgeIdentity ⟨[("n",.i64 1)]⟩ "n"=none := rfl
  refine validNames_reached literalEnv wideLimits namedSteps ⟨?_,?_,?_,?_,trivial⟩
  · exact fun _ _ => trivial
  · refine ⟨fun value entries new hvalue hentries => ⟨?_,?_⟩,fun _ _ _ => trivial⟩
    · intro src dst label seq hedge
      cases hnoEdge.symm.trans hedge
    · intro _ id old hnode hold hnew _ entry hentry
      rw [←Except.ok.inj hvalue] at hentries
      rw [←Option.some.inj (Except.ok.inj hentries)] at hnew
      rw [←Option.some.inj hnode] at hold
      rw [←Except.ok.inj hold] at hnew
      rw [←Except.ok.inj hnew] at hentry
      rcases List.mem_cons.mp hentry with hy|hx
      · rw [hy]
        decide
      · rw [List.mem_singleton.mp hx]
        decide
  · refine ⟨fun id _ => ⟨fun _ => by decide,fun _ _ => trivial⟩,fun _ _ _ => trivial⟩
  · exact fun _ _ _ => trivial

/-- `CREATE (n:A)` and then `SET n += $map` with a key `a.b` in the map store that key. -/
theorem validNames_run_fails :
    ¬∀ steps : List (WriteStep Value),
      ValidNames (StatefulActions.run (applyWriteStep literalEnv wideLimits) freshStore steps) := by
  intro hall
  have hstored := hall [.clause (.createNode ["A"] (some "n") []),
    .clause (.setProperties [⟨[("n",.i64 1)]⟩] "n" (.map [("a.b",.i64 1)]) true)]
  have hname : isValidName "a.b"=true :=
    hstored.nodes 1 ⟨"A",["A"],[("a.b",.i64 1)]⟩ rfl ("a.b",.i64 1) List.mem_cons_self
  exact absurd hname (by decide)

end GraphDbLite.NameValidity
