import GraphDbLite.RowIdentity

/-!
# Counts of groups

An aggregation divides the rows of its input into groups. Whatever the group keys evaluate to,
each row is in one group, and the counts of the groups are the numbers of their rows.
-/

namespace GraphDbLite.GroupCounts

open GraphTypes GraphStore CypherSyntax WriteOperators FallibleLists QueryPlan QueryExecutor
open Projection Aggregation Grouping RowIdentity

variable {S : Type} {env : AggregateEnv S} {st : Store} {agg : AggregateExpr S} {groupKeys : List (Expr S)}

/-- Each row is in one group, which keeps the order of the rows; only the group of all rows may be empty. -/
theorem groupsOf_partition (groupKeys : List (Expr S)) (records : Rows) :
    ((groupsOf env st groupKeys records).flatMap Prod.snd).Perm records ∧
      ∀ group∈groupsOf env st groupKeys records,group.2.Sublist records ∧ (groupKeys.isEmpty=false → group.2≠[]) := by
  cases hkeys : groupKeys.isEmpty with
  | true =>
    rw [groupsOf,if_pos hkeys]
    refine ⟨List.Perm.of_eq (List.append_nil records),fun group hgroup => ?_⟩
    rw [List.mem_singleton.mp hgroup]
    exact ⟨List.Sublist.refl records,fun hfalse => absurd hfalse (by decide)⟩
  | false =>
    rw [groupsOf_eq hkeys]
    exact ⟨perm_groupRows records,fun group hgroup =>
      ⟨(ordered_groupRows records group hgroup).2,fun _ => (ordered_groupRows records group hgroup).1⟩⟩

theorem computeAggregate_star (hcount : agg.function=.count) (hstar : isStar agg.input=true) (rows : Rows) :
    computeAggregate env st agg rows=.ok (.i64 (Int64.ofNat rows.length)) := by
  unfold computeAggregate
  simp only [hcount,hstar,Bool.true_eq_false,and_false,if_false,if_true]
  rfl

theorem get_groupRow {front : List (AggregateExpr S)} {group : List Value×Rows} {row : NamedRecord} {v : Value}
    (hvalue : computeAggregate env st agg group.2=.ok v) (h : groupRow env st groupKeys (front++[agg]) group=.ok row) :
    row.get (aggColName env agg)=some v := by
  unfold groupRow aggregateColumns at h
  cases hcolumns : gather (fun agg => (computeAggregate env st agg group.2).map fun v => [(aggColName env agg,v)]) (front++[agg]) with
  | error e =>
    rw [hcolumns] at h
    cases h
  | ok columns =>
    obtain ⟨before,last,_,hlast,hall⟩ := gather_append_ok hcolumns
    rw [gather,hvalue] at hlast
    rw [hcolumns] at h
    rw [←Except.ok.inj h,get_setAll,hall,lastValue_append,lastValue_append,←Except.ok.inj hlast]
    simp [lastValue]

end GraphDbLite.GroupCounts
