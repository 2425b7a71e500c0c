import GraphDbLite.FifoCache
import GraphDbLite.TransactionHandle
import GraphDbLite.IndexChoice
import Mathlib.Logic.Function.Basic

/-!
# The plan cache

Every handle on a database file keeps plans by query text and by an epoch of its own,
which it raises when it creates or drops an index. The epoch is not part of the
database: it does not go back when a transaction is rolled back, and other handles do
not see it. A cached plan therefore fits the database as long as every change of the
indexes that a handle sees comes with a new epoch of that handle, or finds no plan
cached at its epoch.
-/

namespace GraphDbLite.PlanCache

open GraphTypes OrderedTable StatefulActions GraphStore SecondaryIndex FullText WriteOperators
open TransactionHandle CypherSyntax QueryPlan FallibleLists QueryExecutor IndexAccess
open IndexChoice FifoCache

variable {S ι : Type}

/-- The indexes that the planner sees. -/
structure Schema where
  /-- Indexes on a label. -/
  indexes : String → List IndexInfo
  /-- Kind of the full-text index that covers a property. -/
  texts : String → String → Result FtsTokenizerKind

/-- The indexes of a database. -/
def schemaOf (st : Store) : Schema := ⟨listIndexesForLabel st,ftsTokenizerKind st⟩

/-- Planning of query texts: from the indexes and the recorded label counts. -/
structure Planner (S : Type) where
  /-- Whether the plan of a text may be cached. -/
  isPlanCacheable : String → Bool
  /-- Whether a text only asks for the plan. -/
  explains : String → Bool
  /-- The plan of a text. -/
  plan : Schema → (String → UInt64) → String → Result (LogicalOp S)

/-- Whether a plan creates or drops an index. -/
def isDdl : LogicalOp S → Bool
  | .source (.createIndex _ _) => true
  | .source (.dropIndex _ _) => true
  | _ => false

/-- The epoch after a plan ran: raised by one that creates or drops an index. -/
def epochAfter (plan : LogicalOp S) (epoch : UInt64) : UInt64 :=
  if isDdl plan=true then epoch+1 else epoch

/-- Whether an operator on rows writes nothing. -/
def rowOpReadOnly : RowOp S → Bool
  | .matchCreate _ => false
  | .delete _ _ => false
  | .setProperty _ => false
  | .setLabel _ _ => false
  | .setProperties _ _ _ => false
  | .remove _ => false
  | .matchMerge _ _ _ => false
  | _ => true

mutual

/-- Whether a plan writes nothing. -/
def isReadOnly : LogicalOp S → Bool
  | .filter input _ => isReadOnly input
  | .expand input _ => isReadOnly input
  | .rows op input => rowOpReadOnly op && isReadOnly input
  | .crossProduct left right _ => isReadOnly left && isReadOnly right
  | .correlatedJoin input right _ => isReadOnly input && isReadOnly right
  | .leftOuterJoin input right _ _ => isReadOnly input && isReadOnly right
  | .union inputs _ => areReadOnly inputs
  | .source _ => false
  | _ => true
termination_by structural plan => plan

/-- Whether plans write nothing. -/
def areReadOnly : List (LogicalOp S) → Bool
  | [] => true
  | plan::rest => isReadOnly plan && areReadOnly rest
termination_by structural plans => plans

end

/-- The transaction that a plan is wrapped in. -/
def txMode (plan : LogicalOp S) : TxState := if isReadOnly plan=true then .read else .write

mutual

/-- A plan only refers to indexes of a schema. -/
def RefersOnly (schema : Schema) : LogicalOp S → Prop
  | .indexLookup label _ indexProperties _ _ =>
    ∃ info∈schema.indexes label,info.properties=indexProperties
  | .fullTextLookup label _ property _ _ _ => (schema.texts label property).isOk=true
  | .filter input _ => RefersOnly schema input
  | .expand input _ => RefersOnly schema input
  | .rows _ input => RefersOnly schema input
  | .crossProduct left right _ => RefersOnly schema left ∧ RefersOnly schema right
  | .correlatedJoin input right _ => RefersOnly schema input ∧ RefersOnly schema right
  | .leftOuterJoin input right _ _ => RefersOnly schema input ∧ RefersOnly schema right
  | .union inputs _ => ReferOnly schema inputs
  | _ => True
termination_by structural plan => plan

/-- Plans only refer to indexes of a schema. -/
def ReferOnly (schema : Schema) : List (LogicalOp S) → Prop
  | [] => True
  | plan::rest => RefersOnly schema plan ∧ ReferOnly schema rest
termination_by structural plans => plans

end

/-- Cached plans by text and epoch. -/
abbrev Cache (S : Type) := Fifo (String×UInt64) (LogicalOp S)

/-- The cached plan of a text at an epoch, or a new one, which is then cached. -/
def getOrPlan (cache : Cache S) (cypher : String) (epoch : UInt64) (build : Result (LogicalOp S)) :
    Result (LogicalOp S)×Cache S := cache.getOrMake (cypher,epoch) build

/-- A database handle with its cache. -/
structure CachedHandle (S : Type) where
  /-- Transaction state kept by the handle. -/
  txState : TxState
  /-- Content that the open transaction sees. -/
  working : Store
  /-- Schema epoch of the handle. -/
  schemaEpoch : UInt64
  /-- Cached plans. -/
  planCache : Cache S

/-- A database file with the handles opened on it. -/
structure System (S ι : Type) where
  /-- Durable content. -/
  committed : Store
  /-- The handle that holds the write lock. -/
  writer : Option ι
  /-- The handles. -/
  handles : ι → CachedHandle S

/-- A handle that was just opened. -/
def openedHandle (st : Store) : CachedHandle S := ⟨.none,st,0,⟨[],128⟩⟩

/-- A database file on which no transaction is open and nothing is cached. -/
def openedSystem (st : Store) : System S ι := ⟨st,none,fun _ => openedHandle st⟩

/-- The content that a handle sees. -/
def visible (sys : System S ι) (i : ι) : Store :=
  if (sys.handles i).txState=.none then sys.committed else (sys.handles i).working

/-- The plan of a text on a database, from the cache where it may be cached. -/
def preparePlan (planner : Planner S) (h : CachedHandle S) (st : Store) (cypher : String) :
    Result (LogicalOp S)×Cache S :=
  if planner.isPlanCacheable cypher=true then
    getOrPlan h.planCache cypher h.schemaEpoch (planner.plan (schemaOf st) (getLabelCount st) cypher)
  else (planner.plan (schemaOf st) (getLabelCount st) cypher,h.planCache)

/-- Calls that create or drop an index. -/
inductive IndexChange where
  | createIndex (label property : String)
  | dropIndex (label property : String)
  | createCompositeIndex (label : String) (properties : List String)
  | dropCompositeIndex (label : String) (properties : List String)
  | createFulltextIndex (label property : String)
  | createFulltextIndexCi (label property : String)
  | createFulltextIndexWord (label property : String)
  | createFulltextIndexWordMulti (label : String) (properties : List String)
  | dropFulltextIndex (label property : String)

/-- Name of a call in its error. -/
def IndexChange.op : IndexChange → String
  | .createIndex _ _ => "create_index"
  | .dropIndex _ _ => "drop_index"
  | .createCompositeIndex _ _ => "create_composite_index"
  | .dropCompositeIndex _ _ => "drop_composite_index"
  | .createFulltextIndex _ _ => "create_fulltext_index"
  | .createFulltextIndexCi _ _ => "create_fulltext_index_ci"
  | .createFulltextIndexWord _ _ => "create_fulltext_index_word"
  | .createFulltextIndexWordMulti _ _ => "create_fulltext_index_word_multi"
  | .dropFulltextIndex _ _ => "drop_fulltext_index"

/-- What a call does to the database. -/
def IndexChange.perform (enc : Value → ByteStrings.Bytes) (engine : FtsEngine) : IndexChange → Db Unit
  | .createIndex label property => SecondaryIndex.createCompositeIndex enc label [property]
  | .dropIndex label property => SecondaryIndex.dropCompositeIndex label [property]
  | .createCompositeIndex label properties => SecondaryIndex.createCompositeIndex enc label properties
  | .dropCompositeIndex label properties => SecondaryIndex.dropCompositeIndex label properties
  | .createFulltextIndex label property => FullText.createFulltextIndex engine label property
  | .createFulltextIndexCi label property => FullText.createFulltextIndexCi engine label property
  | .createFulltextIndexWord label property => FullText.createFulltextIndexWord engine label property
  | .createFulltextIndexWordMulti label properties =>
    FullText.createFulltextIndexWordMulti engine label properties
  | .dropFulltextIndex label property => FullText.dropFulltextIndex label property

/-- Error of a write outside a write transaction. -/
def writeTxError (op : String) (state : TxState) : GraphError :=
  .transaction (op++(": requires an active write transaction (state: "++(state.text++ ")")))
    (some "call begin_write before this operation")

/-- Error of a begin while another handle writes. -/
def busyError : GraphError := .storage "database is locked" none

section Steps

variable (env : QueryEnv S) (engine : FtsEngine) (planner : Planner S)

/-- Run a query inside the active transaction. -/
def executeInTx (h : CachedHandle S) (cypher : String) : Result Rows×CachedHandle S :=
  let prepared := preparePlan planner h h.working cypher
  let h := {h with planCache := prepared.2}
  match prepared.1 with
  | .error e => (.error e,h)
  | .ok plan =>
    if planner.explains cypher=true then (.ok [],h)
    else if h.txState=.read ∧ isReadOnly plan=false then (.error readOnlyError,h)
    else
      match QueryExecutor.run env plan none h.working with
      | (.ok rows,st) => (.ok rows,{h with working := st,schemaEpoch := epochAfter plan h.schemaEpoch})
      | (.error e,st) => (.error e,{h with working := st})

/-- Create or drop an index inside the active write transaction. -/
def changeIndexes (h : CachedHandle S) (change : IndexChange) : Result Unit×CachedHandle S :=
  if h.txState≠.write then (.error (writeTxError change.op h.txState),h)
  else
    match change.perform env.enc engine h.working with
    | (.ok (),st) => (.ok (),{h with working := st,schemaEpoch := h.schemaEpoch+1})
    | (.error e,st) => (.error e,{h with working := st})

variable [DecidableEq ι]

/-- Replace a handle. -/
def System.put (sys : System S ι) (i : ι) (h : CachedHandle S) : System S ι :=
  {sys with handles := Function.update sys.handles i h}

/-- Run a query in its own transaction; the epoch is raised after the commit, and a
commit that fails leaves the transaction open. -/
def executeAuto (sys : System S ι) (i : ι) (cypher : String) (commits : Outcome) :
    Result Rows×System S ι :=
  let prepared := preparePlan planner (sys.handles i) sys.committed cypher
  let h := {sys.handles i with planCache := prepared.2}
  match prepared.1 with
  | .error e => (.error e,sys.put i h)
  | .ok plan =>
    if planner.explains cypher=true then (.ok [],sys.put i h)
    else if isReadOnly plan=false ∧ sys.writer.isSome=true then (.error busyError,sys.put i h)
    else
      match QueryExecutor.run env plan none sys.committed with
      | (.error e,_) => (.error e,sys.put i h)
      | (.ok rows,st) =>
        match commits with
        | .done =>
          (.ok rows,{sys.put i {h with schemaEpoch := epochAfter plan h.schemaEpoch} with
            committed := if isReadOnly plan=true then sys.committed else st})
        | .fails e =>
          (.error e,{sys.put i {h with working := st,txState := txMode plan} with
            writer := if isReadOnly plan=true then sys.writer else some i})

/-- Calls on the handles of a database file. -/
inductive Step (ι : Type) where
  | beginRead (i : ι)
  | beginWrite (i : ι)
  | commit (i : ι) (o : Outcome)
  | rollback (i : ι) (o : Outcome)
  | changeIndexes (i : ι) (change : IndexChange)
  | execute (i : ι) (cypher : String) (commits : Outcome)

/-- Begin a transaction on the durable content. -/
def beginHandle (sys : System S ι) (i : ι) (mode : TxState) : System S ι :=
  sys.put i {sys.handles i with txState := mode,working := sys.committed}

/-- The system after a call. -/
def step (sys : System S ι) : Step ι → System S ι
  | .beginRead i => if (sys.handles i).txState=.none then beginHandle sys i .read else sys
  | .beginWrite i =>
    if (sys.handles i).txState=.none ∧ sys.writer.isNone=true then
      {beginHandle sys i .write with writer := some i}
    else sys
  | .commit i o =>
    match (sys.handles i).txState,o with
    | .none,_ => sys
    | _,.fails _ => sys
    | .read,.done => sys.put i {sys.handles i with txState := .none}
    | .write,.done => {sys.put i {sys.handles i with txState := .none} with
        committed := (sys.handles i).working,writer := none}
  | .rollback i o =>
    match (sys.handles i).txState,o with
    | .none,_ => sys
    | _,.fails _ => sys
    | .read,.done => sys.put i {sys.handles i with txState := .none}
    | .write,.done => {sys.put i {sys.handles i with txState := .none} with writer := none}
  | .changeIndexes i change => sys.put i (changeIndexes env engine (sys.handles i) change).2
  | .execute i cypher commits =>
    if (sys.handles i).txState=.none then (executeAuto env planner sys i cypher commits).2
    else sys.put i (executeInTx env planner (sys.handles i) cypher).2

/-- The cached plan that a call is served, if any. -/
def served (sys : System S ι) : Step ι → Option (String×LogicalOp S×Store)
  | .execute i cypher _ =>
    if planner.isPlanCacheable cypher=true then
      ((sys.handles i).planCache.get (cypher,(sys.handles i).schemaEpoch)).map fun plan =>
        (cypher,plan,visible sys i)
    else none
  | _ => none

/-- A plan fits a database: it only refers to its indexes and returns the rows of a
plan that is built from it. -/
def FitsStore (st : Store) (cypher : String) (plan : LogicalOp S) : Prop :=
  RefersOnly (schemaOf st) plan ∧
    ∃ fresh,planner.plan (schemaOf st) (getLabelCount st) cypher=.ok fresh ∧
      SameRows (QueryExecutor.run env plan none st).1 (QueryExecutor.run env fresh none st).1

/-- The cached plan that a call is served fits the database that the handle sees. -/
def Coherent (sys : System S ι) (x : Step ι) : Prop :=
  ∀ cypher plan st,served planner sys x=some (cypher,plan,st) → FitsStore env planner st cypher plan

/-- No plan is cached at the epoch of the handle. -/
def Fresh (h : CachedHandle S) : Prop := ∀ entry∈h.planCache.entries,entry.1.2≠h.schemaEpoch

/-- The rows of a query do not depend on the label counts that it is planned with. -/
def CountsNeutral (st : Store) (cypher : String) : Prop :=
  ∀ counts plan,planner.plan (schemaOf st) counts cypher=.ok plan →
    ∃ fresh,planner.plan (schemaOf st) (getLabelCount st) cypher=.ok fresh ∧
      SameRows (QueryExecutor.run env plan none st).1 (QueryExecutor.run env fresh none st).1

/-- A change of the indexes that a handle makes: its epoch can be raised when the change
succeeds, and a failed one changes nothing or finds no cached plan. -/
def ChangeOk (h : CachedHandle S) (before after : Store) (succeeds : Bool) : Prop :=
  if succeeds=true then h.schemaEpoch.toNat+1<2^64 else schemaOf after=schemaOf before ∨ Fresh h

/-- The condition on a call: what it does to the indexes that a handle sees comes with a
new epoch of the handle or finds no cached plan, and the rows of a query do not depend
on the label counts. -/
def Quiet (sys : System S ι) : Step ι → Prop
  | .beginRead _ => True
  | .beginWrite _ => True
  | .commit i o => o=.done → (sys.handles i).txState≠.none →
      schemaOf (sys.handles i).working=schemaOf sys.committed ∨
        if (sys.handles i).txState=.write then ∀ j,j≠i → (sys.handles j).txState=.none → Fresh (sys.handles j)
        else Fresh (sys.handles i)
  | .rollback i o => o=.done → (sys.handles i).txState≠.none →
      schemaOf (sys.handles i).working=schemaOf sys.committed ∨ Fresh (sys.handles i)
  | .changeIndexes i change => (sys.handles i).txState=.write →
      ChangeOk (sys.handles i) (sys.handles i).working
        (change.perform env.enc engine (sys.handles i).working).2
        (change.perform env.enc engine (sys.handles i).working).1.isOk
  | .execute i cypher commits => CountsNeutral env planner (visible sys i) cypher ∧
      ∀ plan,planner.plan (schemaOf (visible sys i)) (getLabelCount (visible sys i)) cypher=.ok plan →
        isDdl plan=true →
        ChangeOk (sys.handles i) (visible sys i) (QueryExecutor.run env plan none (visible sys i)).2
          ((QueryExecutor.run env plan none (visible sys i)).1.isOk &&
            ((sys.handles i).txState≠.none || commits=.done)) ∧
        ((sys.handles i).txState=.none →
          schemaOf (QueryExecutor.run env plan none (visible sys i)).2=schemaOf (visible sys i) ∨
            ∀ j,j≠i → (sys.handles j).txState=.none → Fresh (sys.handles j))

/-- What the planner and the executor do: plans only refer to the indexes they are built
from, only plans that create or drop an index change the indexes, and these are not
cached. -/
structure PlannerOk : Prop where
  /-- Plans refer to the indexes they are built from. -/
  refers : ∀ schema counts cypher plan,planner.plan schema counts cypher=.ok plan →
    RefersOnly schema plan
  /-- Other plans keep the indexes. -/
  keeps : ∀ schema counts cypher plan,planner.plan schema counts cypher=.ok plan → isDdl plan=false →
    ∀ st,schemaOf (QueryExecutor.run env plan none st).2=schemaOf st
  /-- Plans that create or drop an index are not cached. -/
  uncached : ∀ schema counts cypher plan,planner.plan schema counts cypher=.ok plan →
    planner.isPlanCacheable cypher=true → isDdl plan=false

end Steps

theorem changeOk_of_succeeds {h : CachedHandle S} {before after : Store} {succeeds : Bool}
    (hsucceeds : succeeds=true) (hroom : h.schemaEpoch.toNat+1<2^64) :
    ChangeOk h before after succeeds := by
  unfold ChangeOk
  rw [if_pos hsucceeds]
  exact hroom

section Handles

variable {env : QueryEnv S} {planner : Planner S} {schema schema' : Schema} {h h' : CachedHandle S}

/-- The plans cached at the epoch of a handle are built from a schema, and no plan is
cached at a later epoch. -/
structure HandleInv (planner : Planner S) (schema : Schema) (h : CachedHandle S) : Prop where
  /-- Plans cached at the epoch are built from the schema. -/
  current : ∀ entry∈h.planCache.entries,entry.1.2=h.schemaEpoch →
    ∃ counts,planner.plan schema counts entry.1.1=.ok entry.2
  /-- Nothing is cached at a later epoch. -/
  bounded : ∀ entry∈h.planCache.entries,entry.1.2.toNat≤h.schemaEpoch.toNat
  /-- Only cacheable plans are cached. -/
  cacheable : ∀ entry∈h.planCache.entries,planner.isPlanCacheable entry.1.1=true

theorem HandleInv.congr (hinv : HandleInv planner schema h) (hcache : h'.planCache=h.planCache)
    (hepoch : h'.schemaEpoch=h.schemaEpoch) : HandleInv planner schema h' := by
  refine ⟨fun entry hin => ?_,fun entry hin => ?_,fun entry hin => ?_⟩
  · rw [hcache] at hin
    rw [hepoch]
    exact hinv.current entry hin
  · rw [hcache] at hin
    rw [hepoch]
    exact hinv.bounded entry hin
  · rw [hcache] at hin
    exact hinv.cacheable entry hin

/-- Another schema is as good when it is the same or no plan is cached at the epoch. -/
theorem HandleInv.of_schema (hinv : HandleInv planner schema h) (hsame : schema'=schema ∨ Fresh h) :
    HandleInv planner schema' h := by
  cases hsame with
  | inl heq =>
    rw [heq]
    exact hinv
  | inr hfresh =>
    exact ⟨fun entry hin hepoch => absurd hepoch (hfresh entry hin),hinv.bounded,hinv.cacheable⟩

theorem HandleInv.raise (hinv : HandleInv planner schema h) (hcache : h'.planCache=h.planCache)
    (hepoch : h'.schemaEpoch=h.schemaEpoch+1) (hroom : h.schemaEpoch.toNat+1<2^64) :
    HandleInv planner schema' h' := by
  have hnext : h'.schemaEpoch.toNat=h.schemaEpoch.toNat+1 := by
    rw [hepoch,UInt64.toNat_add]
    exact Nat.mod_eq_of_lt hroom
  refine ⟨fun entry hin heq => ?_,fun entry hin => ?_,fun entry hin => ?_⟩
  · rw [hcache] at hin
    have hbound := hinv.bounded entry hin
    have hsame := congrArg UInt64.toNat heq
    omega
  · rw [hcache] at hin
    have hbound := hinv.bounded entry hin
    omega
  · rw [hcache] at hin
    exact hinv.cacheable entry hin

variable {st : Store} {plan : LogicalOp S}

theorem HandleInv.prepare (hinv : HandleInv planner (schemaOf st) h) (cypher : String) :
    HandleInv planner (schemaOf st) {h with planCache := (preparePlan planner h st cypher).2} := by
  unfold preparePlan
  split_ifs with hcacheable
  · refine ⟨fun entry hin hepoch => ?_,fun entry hin => ?_,fun entry hin => ?_⟩
    · cases Fifo.mem_getOrMake hin with
      | inl hold => exact hinv.current entry hold hepoch
      | inr hnew =>
        have ⟨plan,hplan,heq⟩ := hnew
        rw [heq]
        exact ⟨getLabelCount st,hplan⟩
    · cases Fifo.mem_getOrMake hin with
      | inl hold => exact hinv.bounded entry hold
      | inr hnew =>
        have ⟨plan,_,heq⟩ := hnew
        rw [heq]
    · cases Fifo.mem_getOrMake hin with
      | inl hold => exact hinv.cacheable entry hold
      | inr hnew =>
        have ⟨plan,_,heq⟩ := hnew
        rw [heq]
        exact hcacheable
  · exact hinv

/-- A prepared plan is built from the schema of the database; one that creates or drops
an index is built now and not cached. -/
theorem preparePlan_ok (hok : PlannerOk env planner)
    (hinv : HandleInv planner (schemaOf st) h) {cypher : String}
    (hplan : (preparePlan planner h st cypher).1=.ok plan) :
    (∃ counts,planner.plan (schemaOf st) counts cypher=.ok plan) ∧ (isDdl plan=true →
      planner.plan (schemaOf st) (getLabelCount st) cypher=.ok plan ∧
        (preparePlan planner h st cypher).2=h.planCache) := by
  unfold preparePlan at hplan ⊢
  by_cases hcacheable : planner.isPlanCacheable cypher=true
  · rw [if_pos hcacheable] at hplan
    have hbuilt : ∃ counts,planner.plan (schemaOf st) counts cypher=.ok plan := by
      cases Fifo.getOrMake_ok hplan with
      | inl hold => exact hinv.current _ hold rfl
      | inr hnew => exact ⟨getLabelCount st,hnew⟩
    refine ⟨hbuilt,fun hddl => ?_⟩
    have ⟨counts,hcounts⟩ := hbuilt
    rw [hok.uncached _ _ _ _ hcounts hcacheable] at hddl
    cases hddl
  · rw [if_neg hcacheable] at hplan ⊢
    exact ⟨⟨_,hplan⟩,fun _ => ⟨hplan,rfl⟩⟩

/-- Running a prepared plan: the schema stays, or the plan creates or drops an index. -/
theorem schemaOf_run (hok : PlannerOk env planner) {counts : String → UInt64} {cypher : String}
    (hplan : planner.plan (schemaOf st) counts cypher=.ok plan) (hddl : isDdl plan=false) :
    schemaOf (QueryExecutor.run env plan none st).2=schemaOf st :=
  hok.keeps _ _ _ _ hplan hddl st

theorem epochAfter_false (hddl : isDdl plan=false) (epoch : UInt64) : epochAfter plan epoch=epoch := by
  unfold epochAfter
  rw [hddl]
  rfl

theorem epochAfter_true (hddl : isDdl plan=true) (epoch : UInt64) : epochAfter plan epoch=epoch+1 := by
  unfold epochAfter
  rw [if_pos hddl]

/-- A query inside a transaction keeps the cache in line with what the handle sees. -/
theorem HandleInv.executeInTx (hok : PlannerOk env planner)
    (hinv : HandleInv planner (schemaOf h.working) h) (cypher : String)
    (hquiet : ∀ plan,planner.plan (schemaOf h.working) (getLabelCount h.working) cypher=.ok plan →
      isDdl plan=true → ChangeOk h h.working (QueryExecutor.run env plan none h.working).2
        (QueryExecutor.run env plan none h.working).1.isOk) :
    HandleInv planner (schemaOf (executeInTx env planner h cypher).2.working)
        (executeInTx env planner h cypher).2 ∧
      (executeInTx env planner h cypher).2.txState=h.txState := by
  have hprepared := hinv.prepare cypher
  unfold PlanCache.executeInTx
  dsimp only
  cases hplan : (preparePlan planner h h.working cypher).1 with
  | error e => exact ⟨hprepared,rfl⟩
  | ok plan =>
    dsimp only
    have ⟨⟨counts,hbuilt⟩,hchange⟩ := preparePlan_ok hok hinv hplan
    split_ifs with hexplains hread
    · exact ⟨hprepared,rfl⟩
    · exact ⟨hprepared,rfl⟩
    · cases hddl : isDdl plan with
      | false =>
        have hschema := schemaOf_run hok hbuilt hddl
        cases hrun : QueryExecutor.run env plan none h.working with
        | mk out st =>
          rw [hrun] at hschema
          cases out with
          | ok rows =>
            exact ⟨(hprepared.of_schema (Or.inl hschema)).congr rfl (epochAfter_false hddl _),rfl⟩
          | error e => exact ⟨(hprepared.of_schema (Or.inl hschema)).congr rfl rfl,rfl⟩
      | true =>
        have ⟨hnow,hcache⟩ := hchange hddl
        have hcond := hquiet plan hnow hddl
        cases hrun : QueryExecutor.run env plan none h.working with
        | mk out st =>
          rw [hrun] at hcond
          cases out with
          | ok rows =>
            exact ⟨hinv.raise hcache (epochAfter_true hddl _) hcond,rfl⟩
          | error e => exact ⟨(hinv.of_schema hcond).congr hcache rfl,rfl⟩

/-- A change of the indexes keeps the cache in line with what the handle sees. -/
theorem HandleInv.changeIndexes {engine : FtsEngine} (hinv : HandleInv planner (schemaOf h.working) h)
    (change : IndexChange)
    (hquiet : h.txState=.write → ChangeOk h h.working (change.perform env.enc engine h.working).2
      (change.perform env.enc engine h.working).1.isOk) :
    HandleInv planner (schemaOf (changeIndexes env engine h change).2.working)
        (changeIndexes env engine h change).2 ∧
      (changeIndexes env engine h change).2.txState=h.txState := by
  unfold PlanCache.changeIndexes
  split_ifs with hwrite
  · exact ⟨hinv,rfl⟩
  · have hcond := hquiet (Classical.not_not.mp hwrite)
    cases hrun : change.perform env.enc engine h.working with
    | mk out st =>
      rw [hrun] at hcond
      cases out with
      | ok u => exact ⟨hinv.raise rfl rfl hcond,rfl⟩
      | error e => exact ⟨(hinv.of_schema hcond).congr rfl rfl,rfl⟩

end Handles

theorem schemaOf_left {st committed : Store} (readOnly : Bool) (h : schemaOf st=schemaOf committed) :
    schemaOf (if readOnly=true then committed else st)=schemaOf committed := by
  cases readOnly with
  | true => rfl
  | false => exact h

theorem txMode_ne_none (plan : LogicalOp S) : txMode plan≠.none := by
  unfold txMode
  split_ifs <;> simp

section ReadOnly

variable {env : QueryEnv S} {I : Store → Prop}

mutual

theorem keeps_run
    (hrows : ∀ op,rowOpReadOnly op=true → ∀ outer rows,Keeps I (env.rowOp op outer rows))
    (plan : LogicalOp S) (h : isReadOnly plan=true) (outer : Option NamedRecord) :
    Keeps I (QueryExecutor.run env plan outer) := by
  cases plan with
  | singleRow | emptyRow => exact keeps_pure I _
  | scan label nodeAlias | idLookup nodeAlias valueExpr
  | indexLookup label nodeAlias indexProperties lookups remaining
  | fullTextLookup label nodeAlias property op term remaining => exact keeps_inspect I _
  | expand input spec | filter input predicate =>
    rw [isReadOnly] at h
    exact keeps_bind (keeps_run hrows input h outer) fun _ => keeps_inspect I _
  | crossProduct left right sameMatch =>
    rw [isReadOnly,Bool.and_eq_true] at h
    cases outer with
    | none =>
      refine keeps_bind (keeps_run hrows left h.1 none) fun lefts => keeps_foldEach fun _ _ _ => ?_
      exact keeps_bind (keeps_run hrows right h.2 none) fun _ => keeps_inspect I _
    | some outer =>
      refine keeps_bind (keeps_run hrows left h.1 (some outer)) fun lefts => ?_
      refine keeps_bind (keeps_mapEach fun l _ => ?_) fun _ => keeps_pure I _
      exact keeps_bind (keeps_run hrows right h.2 _) fun _ => keeps_pure I _
  | correlatedJoin input right sameMatch =>
    rw [isReadOnly,Bool.and_eq_true] at h
    refine keeps_bind (keeps_run hrows input h.1 outer) fun lefts => ?_
    refine keeps_bind (keeps_mapEach fun l _ => ?_) fun _ => keeps_pure I _
    exact keeps_bind (keeps_run hrows right h.2 _) fun _ => keeps_pure I _
  | leftOuterJoin input right optionalAliases optFilter =>
    rw [isReadOnly,Bool.and_eq_true] at h
    refine keeps_bind (keeps_run hrows input h.1 none) fun lefts => ?_
    refine keeps_bind (keeps_mapEach fun l _ => ?_) fun _ => keeps_pure I _
    exact keeps_bind (keeps_run hrows right h.2 _) fun _ => keeps_inspect I _
  | union inputs all =>
    rw [isReadOnly] at h
    exact keeps_bind (keeps_runAll hrows inputs h) fun _ => keeps_pure I _
  | rows op input =>
    rw [isReadOnly,Bool.and_eq_true] at h
    rw [run_rows]
    exact keeps_bind (keeps_run hrows input h.2 _) fun records => hrows op h.1 _ records
  | source op =>
    rw [isReadOnly] at h
    cases h

theorem keeps_runAll
    (hrows : ∀ op,rowOpReadOnly op=true → ∀ outer rows,Keeps I (env.rowOp op outer rows))
    (plans : List (LogicalOp S)) (h : areReadOnly plans=true) :
    Keeps I (runAll env plans) := by
  cases plans with
  | nil => exact keeps_pure I _
  | cons plan rest =>
    rw [areReadOnly,Bool.and_eq_true] at h
    rw [runAll_cons]
    refine keeps_bind (keeps_run hrows plan h.1 none) fun _ => ?_
    exact keeps_bind (keeps_runAll hrows rest h.2) fun _ => keeps_pure I _

end

end ReadOnly

section Systems

variable {env : QueryEnv S} {engine : FtsEngine} {planner : Planner S} {sys : System S ι} {i : ι}

/-- Every cache is in line with what its handle sees. -/
def SystemInv (planner : Planner S) (sys : System S ι) : Prop :=
  ∀ j,HandleInv planner (schemaOf (visible sys j)) (sys.handles j)

theorem systemInv_opened (planner : Planner S) (st : Store) :
    SystemInv planner (openedSystem st : System S ι) := by
  intro j
  exact ⟨fun _ hin => absurd hin List.not_mem_nil,fun _ hin => absurd hin List.not_mem_nil,
    fun _ hin => absurd hin List.not_mem_nil⟩

theorem SystemInv.idle (hinv : SystemInv planner sys) (hnone : (sys.handles i).txState=.none) :
    HandleInv planner (schemaOf sys.committed) (sys.handles i) := by
  have hself := hinv i
  unfold visible at hself
  rw [if_pos hnone] at hself
  exact hself

theorem SystemInv.active (hinv : SystemInv planner sys) (hopen : (sys.handles i).txState≠.none) :
    HandleInv planner (schemaOf (sys.handles i).working) (sys.handles i) := by
  have hself := hinv i
  unfold visible at hself
  rw [if_neg hopen] at hself
  exact hself

theorem coherent_of_quiet (hok : PlannerOk env planner) (hinv : SystemInv planner sys) (x : Step ι)
    (hquiet : Quiet env engine planner sys x) : Coherent env planner sys x := by
  intro cypher plan st hserved
  cases x with
  | execute i text commits =>
    unfold served at hserved
    dsimp only at hserved
    split_ifs at hserved with hcacheable
    have ⟨cached,hget,heq⟩ := Option.map_eq_some_iff.mp hserved
    simp only [Prod.mk.injEq] at heq
    obtain ⟨rfl,rfl,rfl⟩ := heq
    have hentry := Fifo.mem_of_get hget
    have ⟨counts,hbuilt⟩ := (hinv i).current _ hentry rfl
    exact ⟨hok.refers _ _ _ _ hbuilt,hquiet.1 counts cached hbuilt⟩
  | beginRead i | beginWrite i | commit i o | rollback i o | changeIndexes i change => simp [served] at hserved

variable [DecidableEq ι]

theorem put_self (sys : System S ι) (i : ι) (h : CachedHandle S) : (sys.put i h).handles i=h := by
  unfold System.put
  exact Function.update_self ..

theorem put_ne {j : ι} (sys : System S ι) (h : CachedHandle S) (hne : j≠i) :
    (sys.put i h).handles j=sys.handles j := by
  unfold System.put
  exact Function.update_of_ne hne ..

section Steps

variable (hinv : SystemInv planner sys)

include hinv

/-- A step that changes one handle and perhaps the durable content: the handle is in line,
and the others do not notice or have nothing cached. -/
theorem systemInv_of {sys' : System S ι}
    (hothers : ∀ j,j≠i → sys'.handles j=sys.handles j)
    (hself : HandleInv planner (schemaOf (visible sys' i)) (sys'.handles i))
    (hcommitted : schemaOf sys'.committed=schemaOf sys.committed ∨
      ∀ j,j≠i → (sys.handles j).txState=.none → Fresh (sys.handles j)) : SystemInv planner sys' := by
  intro j
  by_cases hj : j=i
  · rw [hj]
    exact hself
  · have hold := hinv j
    have hsame := hothers j hj
    unfold visible at hold ⊢
    rw [hsame]
    by_cases hnone : (sys.handles j).txState=.none
    · rw [if_pos hnone] at hold ⊢
      exact hold.of_schema (hcommitted.imp_right fun hfresh => hfresh j hj hnone)
    · rw [if_neg hnone] at hold ⊢
      exact hold

theorem systemInv_replace {h : CachedHandle S} {committed : Store}
    (hself : HandleInv planner (schemaOf (if h.txState=.none then committed else h.working)) h)
    (hcommitted : schemaOf committed=schemaOf sys.committed ∨
      ∀ j,j≠i → (sys.handles j).txState=.none → Fresh (sys.handles j)) (writer : Option ι) :
    SystemInv planner {sys.put i h with committed := committed,writer := writer} := by
  refine systemInv_of hinv (fun j hj => put_ne sys h hj) ?_ hcommitted
  unfold visible
  dsimp only
  rw [put_self]
  exact hself

theorem systemInv_put {h : CachedHandle S}
    (hself : HandleInv planner (schemaOf (if h.txState=.none then sys.committed else h.working)) h) :
    SystemInv planner (sys.put i h) := systemInv_replace hinv hself (Or.inl rfl) sys.writer

theorem systemInv_begin (hnone : (sys.handles i).txState=.none)
    (mode : TxState) (writer : Option ι) :
    SystemInv planner {beginHandle sys i mode with writer := writer} := by
  have hidle := hinv.idle hnone
  refine systemInv_replace hinv ?_ (Or.inl rfl) writer
  dsimp only
  rw [ite_self]
  exact hidle.congr rfl rfl

theorem systemInv_end (hopen : (sys.handles i).txState≠.none)
    (hquiet : schemaOf (sys.handles i).working=schemaOf sys.committed ∨ Fresh (sys.handles i))
    (writer : Option ι) :
    SystemInv planner {sys.put i {sys.handles i with txState := .none} with writer := writer} := by
  have hactive := hinv.active hopen
  refine systemInv_replace hinv ?_ (Or.inl rfl) writer
  rw [if_pos rfl]
  exact (hactive.of_schema (hquiet.imp_left Eq.symm)).congr rfl rfl

theorem systemInv_commit (hopen : (sys.handles i).txState≠.none)
    (hquiet : schemaOf (sys.handles i).working=schemaOf sys.committed ∨
      ∀ j,j≠i → (sys.handles j).txState=.none → Fresh (sys.handles j)) (writer : Option ι) :
    SystemInv planner {sys.put i {sys.handles i with txState := .none} with
      committed := (sys.handles i).working,writer := writer} := by
  have hactive := hinv.active hopen
  refine systemInv_replace hinv ?_ hquiet writer
  rw [if_pos rfl]
  exact hactive.congr rfl rfl

end Steps

theorem systemInv_executeAuto (hok : PlannerOk env planner) (hinv : SystemInv planner sys)
    (hnone : (sys.handles i).txState=.none) (cypher : String) (commits : Outcome)
    (hquiet : ∀ plan,planner.plan (schemaOf sys.committed) (getLabelCount sys.committed) cypher=.ok plan →
      isDdl plan=true →
      ChangeOk (sys.handles i) sys.committed (QueryExecutor.run env plan none sys.committed).2
        ((QueryExecutor.run env plan none sys.committed).1.isOk && commits=.done) ∧
      (schemaOf (QueryExecutor.run env plan none sys.committed).2=schemaOf sys.committed ∨
        ∀ j,j≠i → (sys.handles j).txState=.none → Fresh (sys.handles j))) :
    SystemInv planner (executeAuto env planner sys i cypher commits).2 := by
  have hidle := hinv.idle hnone
  have hprepared := hidle.prepare cypher
  have hkept : SystemInv planner (sys.put i {sys.handles i with
      planCache := (preparePlan planner (sys.handles i) sys.committed cypher).2}) := by
    refine systemInv_put hinv ?_
    rw [if_pos hnone]
    exact hprepared
  unfold executeAuto
  dsimp only
  cases hplan : (preparePlan planner (sys.handles i) sys.committed cypher).1 with
  | error e => exact hkept
  | ok plan =>
    dsimp only
    have ⟨⟨counts,hbuilt⟩,hchange⟩ := preparePlan_ok hok hidle hplan
    by_cases hexplains : planner.explains cypher=true
    · rw [if_pos hexplains]
      exact hkept
    rw [if_neg hexplains]
    by_cases hbusy : isReadOnly plan=false ∧ sys.writer.isSome=true
    · rw [if_pos hbusy]
      exact hkept
    rw [if_neg hbusy]
    cases hrun : QueryExecutor.run env plan none sys.committed with
    | mk out st =>
      cases out with
      | error e => exact hkept
      | ok rows =>
        cases hddl : isDdl plan with
        | false =>
          have hschema := schemaOf_run hok hbuilt hddl
          rw [hrun] at hschema
          cases commits with
          | done =>
            have hleft := schemaOf_left (isReadOnly plan) hschema
            refine systemInv_replace hinv ?_ (Or.inl hleft) sys.writer
            rw [if_pos hnone]
            exact (hprepared.of_schema (Or.inl hleft)).congr rfl (epochAfter_false hddl _)
          | fails e =>
            refine systemInv_replace hinv ?_ (Or.inl rfl) _
            rw [if_neg (txMode_ne_none plan)]
            exact (hprepared.of_schema (Or.inl hschema)).congr rfl rfl
        | true =>
          have ⟨hnow,hcache⟩ := hchange hddl
          have ⟨hcond,hothers⟩ := hquiet plan hnow hddl
          rw [hrun] at hcond hothers
          cases commits with
          | done =>
            refine systemInv_replace hinv ?_ (hothers.imp_left (schemaOf_left _)) sys.writer
            exact hidle.raise hcache (epochAfter_true hddl _) hcond
          | fails e =>
            refine systemInv_replace hinv ?_ (Or.inl rfl) _
            rw [if_neg (txMode_ne_none plan)]
            exact (hidle.of_schema hcond).congr hcache rfl

theorem systemInv_step (hok : PlannerOk env planner) (hinv : SystemInv planner sys) (x : Step ι)
    (hquiet : Quiet env engine planner sys x) : SystemInv planner (step env engine planner sys x) := by
  cases x with
  | beginRead i =>
    unfold step
    dsimp only
    split_ifs with hnone
    · exact systemInv_begin hinv hnone .read sys.writer
    · exact hinv
  | beginWrite i =>
    unfold step
    dsimp only
    split_ifs with hnone
    · exact systemInv_begin hinv hnone.1 .write (some i)
    · exact hinv
  | commit i o =>
    unfold Quiet at hquiet
    unfold step
    dsimp only
    cases htx : (sys.handles i).txState with
    | none => exact hinv
    | read =>
      cases o with
      | fails e => exact hinv
      | done =>
        have hopen : (sys.handles i).txState≠.none := by simp [htx]
        have hcond := hquiet rfl hopen
        rw [if_neg (by simp [htx])] at hcond
        exact systemInv_end hinv hopen hcond sys.writer
    | write =>
      cases o with
      | fails e => exact hinv
      | done =>
        have hopen : (sys.handles i).txState≠.none := by simp [htx]
        have hcond := hquiet rfl hopen
        rw [if_pos htx] at hcond
        exact systemInv_commit hinv hopen hcond none
  | rollback i o =>
    unfold Quiet at hquiet
    unfold step
    dsimp only
    cases htx : (sys.handles i).txState with
    | none => exact hinv
    | read =>
      cases o with
      | fails e => exact hinv
      | done =>
        have hopen : (sys.handles i).txState≠.none := by simp [htx]
        exact systemInv_end hinv hopen (hquiet rfl hopen) sys.writer
    | write =>
      cases o with
      | fails e => exact hinv
      | done =>
        have hopen : (sys.handles i).txState≠.none := by simp [htx]
        exact systemInv_end hinv hopen (hquiet rfl hopen) none
  | changeIndexes i change =>
    unfold Quiet at hquiet
    unfold step
    dsimp only
    by_cases hopen : (sys.handles i).txState=.none
    · have hsame : (changeIndexes env engine (sys.handles i) change).2=sys.handles i := by
        unfold PlanCache.changeIndexes
        rw [if_pos (by simp [hopen])]
      rw [hsame]
      refine systemInv_put hinv ?_
      rw [if_pos hopen]
      exact hinv.idle hopen
    · have ⟨hself,htx⟩ := (hinv.active hopen).changeIndexes change hquiet
      refine systemInv_put hinv ?_
      rw [htx,if_neg hopen]
      exact hself
  | execute i cypher commits =>
    have ⟨_,hcond⟩ := hquiet
    unfold step
    dsimp only
    unfold visible at hcond
    split_ifs with hnone
    · simp only [if_pos hnone] at hcond
      refine systemInv_executeAuto hok hinv hnone cypher commits fun plan hplan hddl => ?_
      have ⟨hchange,hothers⟩ := hcond plan hplan hddl
      simp only [hnone,ne_eq,not_true_eq_false,decide_false,Bool.false_or] at hchange
      exact ⟨hchange,hothers hnone⟩
    · simp only [if_neg hnone] at hcond
      have hquiet : ∀ plan,planner.plan (schemaOf (sys.handles i).working)
          (getLabelCount (sys.handles i).working) cypher=.ok plan → isDdl plan=true →
          ChangeOk (sys.handles i) (sys.handles i).working
            (QueryExecutor.run env plan none (sys.handles i).working).2
            (QueryExecutor.run env plan none (sys.handles i).working).1.isOk := by
        intro plan hplan hddl
        have hchange := (hcond plan hplan hddl).1
        simp only [hnone,ne_eq,not_false_eq_true,decide_true,Bool.true_or,Bool.and_true] at hchange
        exact hchange
      have ⟨hself,htx⟩ := (hinv.active hnone).executeInTx hok cypher hquiet
      refine systemInv_put hinv ?_
      rw [htx,if_neg hnone]
      exact hself

end Systems

/-- The pattern of the persons of a name. -/
def namedPerson : NodePattern Empty := ⟨some "n",["Person"],[("name",.literal (.string "x"))]⟩

/-- A planner that plans every text as the query of the persons of the name. -/
def personPlanner : Planner Empty where
  isPlanCacheable _ := true
  explains _ := false
  plan schema _ _ := .ok (planNodeScanWith (schema.indexes "Person") namedPerson "n")

/-- An engine that accepts every table. -/
def plainEngine : FtsEngine := ⟨fun _ _ => true,.refuse⟩

/-- The plan of the query is a lookup of an index of the schema or a filtered scan. -/
theorem personPlan_cases (indexes : List IndexInfo) :
    (∃ info k,info∈indexes ∧
      planNodeScanWith indexes namedPerson "n"=inlineLookup namedPerson "n" info k) ∨
    planNodeScanWith indexes namedPerson "n"=
      withFilters (scanFilters namedPerson "n") (.scan "Person" "n") := by
  unfold planNodeScanWith
  cases hchosen : chosenIndex indexes namedPerson with
  | none => exact Or.inr rfl
  | some choice =>
    have ⟨info,k⟩ := choice
    have hpick : Picked indexes (equalityPreds namedPerson.properties) (info,k) := by
      unfold chosenIndex at hchosen
      split_ifs at hchosen
      exact pickIndexForEqualityPreds_spec hchosen
    exact Or.inl ⟨info,k,hpick.1,rfl⟩

theorem personPlanner_ok : PlannerOk plainEnv personPlanner := by
  have hplan : ∀ schema counts cypher plan,personPlanner.plan schema counts cypher=.ok plan →
      RefersOnly schema plan ∧ isReadOnly plan=true ∧ isDdl plan=false := by
    intro schema counts cypher plan h
    rw [←Except.ok.inj h]
    cases personPlan_cases (schema.indexes "Person") with
    | inl hlookup =>
      have ⟨info,k,hin,heq⟩ := hlookup
      rw [heq]
      exact ⟨⟨info,hin,rfl⟩,rfl,rfl⟩
    | inr hscan =>
      rw [hscan]
      exact ⟨trivial,rfl,rfl⟩
  refine ⟨fun schema counts cypher plan h => (hplan schema counts cypher plan h).1,
    fun schema counts cypher plan h _ st => ?_,
    fun schema counts cypher plan h _ => (hplan schema counts cypher plan h).2.2⟩
  have hkeeps : Keeps (fun s => schemaOf s=schemaOf st) (QueryExecutor.run plainEnv plan none) :=
    keeps_run (fun _ _ _ _ => keeps_pure _ _) plan (hplan schema counts cypher plan h).2.1 none
  exact hkeeps st rfl

theorem personPlanner_neutral (st : Store) (cypher : String) :
    CountsNeutral plainEnv personPlanner st cypher := by
  intro counts plan hplan
  exact ⟨plan,hplan,SameRows.refl _⟩

theorem not_coherent_of_rowCount {sys : System S ι} {x : Step ι} {env : QueryEnv S} {planner : Planner S}
    (h : (served planner sys x).map (fun s => (rowCount (QueryExecutor.run env s.2.1 none s.2.2),
      (planner.plan (schemaOf s.2.2) (getLabelCount s.2.2) s.1).toOption.bind fun fresh =>
        rowCount (QueryExecutor.run env fresh none s.2.2)))=some (none,some 1)) :
    ¬Coherent env planner sys x := by
  intro hcoherent
  have ⟨⟨cypher,plan,st⟩,hserved,heq⟩ := Option.map_eq_some_iff.mp h
  have ⟨hstale,hfresh⟩ := Prod.mk.inj heq
  have ⟨_,fresh,hplan,hsame⟩ := hcoherent cypher plan st hserved
  dsimp only at hstale hfresh
  rw [hplan] at hfresh
  have ⟨rows,hrows,_⟩ := rowCount_eq_some hfresh
  cases hsame with
  | inl hfails =>
    rw [hrows] at hfails
    exact not_fails_ok rows hfails.2
  | inr hboth =>
    have ⟨a,b,ha,_,_⟩ := hboth
    unfold rowCount at hstale
    rw [ha] at hstale
    cases hstale

end GraphDbLite.PlanCache
