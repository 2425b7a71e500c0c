import GraphDbLite.PlanCache
import GraphDbLite.SharedCache
import GraphDbLite.StatementSyntax
import Mathlib.Data.Prod.Lex

/-!
# Calls on the parse and plan caches

`get_or_parse` and `get_or_plan` look their key up and insert what they made under the
lock of their cache, and parse or plan outside of it.
-/

namespace GraphDbLite.CacheCalls

open GraphTypes StatementSyntax QueryPlan SharedCache PlanCache

/-- Text of a query and schema epoch. -/
abbrev PlanKey := String×ₗUInt64

/-- Calls of `get_or_parse`. -/
abbrev ParseCalls (ι S : Type) := Calls ι String (StatementOf S) GraphError

/-- Calls of `get_or_plan`. -/
abbrev PlanCalls (ι S : Type) := Calls ι PlanKey (LogicalOp S) GraphError

variable {ι S : Type} [DecidableEq ι] {bound : Nat}

theorem getOrPlan_alone {s : PlanCalls ι S} {i : ι} (h : Inv bound s) (hpos : 0<bound) (hnew : s.phase i=none)
    (cypher : String) (epoch : UInt64) (build : Result (LogicalOp S)) :
    ∃ acts s',run s (.lookup i (toLex (cypher,epoch))::acts)=some s' ∧ acts <+: [.build i build,.insert i] ∧
      s'.phase i=some (.returned (toLex (cypher,epoch)) (getOrPlan s.cache.fifo cypher epoch build).1) ∧
      s'.cache.fifo=(getOrPlan s.cache.fifo cypher epoch build).2 := by
  have hdec : (instDecidableEqProd : DecidableEq (String×UInt64))=
      (LinearOrder.toDecidableEq : DecidableEq PlanKey) := Subsingleton.elim _ _
  unfold getOrPlan
  rw [hdec]
  exact run_alone h hpos hnew (toLex (cypher,epoch)) build

/-- In every run both caches are bounded, list their keys once, return what was made for
the key, keep no failure and let the oldest key give way. -/
theorem caches_sound (hpos : 0<bound) :
    (∀ acts (s : ParseCalls ι S),run (initial bound) acts=some s → Sound bound s) ∧
    ∀ acts (s : PlanCalls ι S),run (initial bound) acts=some s → Sound bound s :=
  ⟨fun acts _ hrun => sound_run hpos acts hrun,fun acts _ hrun => sound_run hpos acts hrun⟩

/-- Two calls miss one key, whose plan gives way to that of a third. -/
theorem caches_sound_eviction : ∃ acts,∃ s : PlanCalls Nat Unit,run (initial 1) acts=some s ∧
    s.inserted=[toLex ("a",0),toLex ("b",0)] ∧ s.cache.order=[toLex ("b",0)] ∧ Sound 1 s := by
  let acts : List (Act Nat PlanKey (LogicalOp Unit) GraphError) :=
    [.lookup 0 (toLex ("a",0)),.lookup 1 (toLex ("a",0)),.build 0 (.ok .singleRow),.build 1 (.ok .emptyRow),
      .insert 0,.insert 1,.lookup 2 (toLex ("b",0)),.build 2 (.ok .singleRow),.insert 2]
  exact ⟨acts,_,rfl,rfl,rfl,(caches_sound Nat.one_pos).2 acts _ rfl⟩

/-- In every state that calls can reach in any order of steps, the plan cache is a queue of entries: a further call
whose steps follow each other returns and leaves what the sequential cache does. -/
theorem plan_call_sequential (hpos : 0<bound) {acts : List (Act ι PlanKey (LogicalOp S) GraphError)} {s : PlanCalls ι S}
    (hrun : run (initial bound) acts=some s) {i : ι} (hnew : s.phase i=none) (cypher : String) (epoch : UInt64)
    (build : Result (LogicalOp S)) :
    (∀ key,s.cache.fifo.get key=OrderedTable.get s.cache.map key) ∧ s.cache.fifo.entries.map Prod.fst=s.cache.order ∧
    ∃ more s',run (initial bound) (acts++.lookup i (toLex (cypher,epoch))::more)=some s' ∧ more <+: [.build i build,.insert i] ∧
      s'.phase i=some (.returned (toLex (cypher,epoch)) (getOrPlan s.cache.fifo cypher epoch build).1) ∧
      s'.cache.fifo=(getOrPlan s.cache.fifo cypher epoch build).2 := by
  have hinv := Inv.run hpos acts (inv_initial bound) hrun
  obtain ⟨more,s',hmore,hparts,houtcome,hcache⟩ := getOrPlan_alone hinv hpos hnew cypher epoch build
  refine ⟨get_fifo hinv.perm,fst_fifo hinv.perm,more,s',?_,hparts,houtcome,hcache⟩
  unfold run at hrun hmore ⊢
  rw [List.foldlM_append,hrun]
  exact hmore

/-- A plan that another call has cached is returned without the one that was made for it. -/
theorem plan_call_sequential_hit : ∃ more,∃ s : PlanCalls Nat Unit,run (initial 1)
      ([.lookup 0 (toLex ("a",0)),.build 0 (.ok .singleRow),.insert 0]++.lookup 1 (toLex ("a",0))::more)=some s ∧
    s.phase 1=some (.returned (toLex ("a",0)) (.ok .singleRow)) := by
  let acts : List (Act Nat PlanKey (LogicalOp Unit) GraphError) :=
    [.lookup 0 (toLex ("a",0)),.build 0 (.ok .singleRow),.insert 0]
  have hrun : run (initial 1) acts=some _ := rfl
  obtain ⟨_,_,more,s,hmore,_,houtcome,_⟩ := plan_call_sequential Nat.one_pos hrun (i := 1) rfl "a" 0 (.ok .emptyRow)
  exact ⟨more,s,hmore,houtcome.trans rfl⟩

end GraphDbLite.CacheCalls
