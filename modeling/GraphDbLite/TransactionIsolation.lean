import GraphDbLite.PlanCache

/-!
# Transactions among the calls of other handles

The calls on the handles of a database file come in any order. At most one handle writes at
a time. An open transaction sees what it would see if the other handles had made no call
since it began, and no other handle changes the durable content under a transaction that
writes: a commit replaces the content that its transaction began with, so that no commit
of another handle is lost.
-/

namespace GraphDbLite.TransactionIsolation

open GraphStore FullText QueryExecutor IndexAccess PlanCache
open TransactionHandle (TxState Outcome)

variable {S ι : Type}

/-- The handle that a call is made on. -/
@[grind] def handleOf : Step ι → ι
  | .beginRead i => i
  | .beginWrite i => i
  | .commit i _ => i
  | .rollback i _ => i
  | .changeIndexes i _ => i
  | .execute i _ _ => i

/-- What a call may do to the transaction of its handle, to the write lock and to the durable
content: a query may also write in a transaction of its own. -/
inductive Moves (i : ι) (writer : Option ι) (st : Store) : TxState → TxState → Option ι → Store → Prop
  | stays (tx : TxState) : Moves i writer st tx tx writer st
  | beginsRead : Moves i writer st .none .read writer st
  | beginsWrite : writer=none → Moves i writer st .none .write (some i) st
  | endsRead : Moves i writer st .read .none writer st
  | endsWrite (st' : Store) : Moves i writer st .write .none none st'
  | writesAlone (st' : Store) : writer=none → Moves i writer st .none .none writer st'

section Lock

variable {i : ι} {writer writer' : Option ι} {st st' : Store} {tx tx' : TxState}

/-- A move keeps the lock with the transaction that writes. -/
theorem Moves.exclusive (h : Moves i writer st tx tx' writer' st') (hself : tx=.write ↔ writer=some i) :
    (tx'=.write ↔ writer'=some i) ∧ ∀ j,j≠i → (writer'=some j ↔ writer=some j) := by
  cases h with
  | stays tx => exact ⟨hself,fun _ _ => Iff.rfl⟩
  | beginsRead | endsRead =>
    have hother : writer≠some i := fun heq => by cases hself.mpr heq
    exact ⟨⟨fun h => (by cases h),fun heq => absurd heq hother⟩,fun _ _ => Iff.rfl⟩
  | beginsWrite hfree =>
    refine ⟨⟨fun _ => rfl,fun _ => rfl⟩,fun j hj => ?_⟩
    rw [hfree]
    exact ⟨fun heq => absurd (Option.some.inj heq).symm hj,fun heq => by cases heq⟩
  | endsWrite st' =>
    have hheld := hself.mp rfl
    refine ⟨⟨fun h => (by cases h),fun h => (by cases h)⟩,fun j hj => ?_⟩
    rw [hheld]
    exact ⟨fun heq => (by cases heq),fun heq => absurd (Option.some.inj heq).symm hj⟩
  | writesAlone st' hfree =>
    rw [hfree]
    exact ⟨⟨fun h => (by cases h),fun h => (by cases h)⟩,fun _ _ => Iff.rfl⟩

/-- A call that opens a transaction changes nothing durable. -/
theorem Moves.opens (h : Moves i writer st .none tx' writer' st') (hopen : tx'≠.none) : st'=st := by
  cases h with
  | stays tx | writesAlone st' hfree => exact absurd rfl hopen
  | beginsRead | beginsWrite hfree => rfl

/-- A call in a transaction that leaves it open changes nothing durable. -/
theorem Moves.goesOn (h : Moves i writer st tx tx' writer' st') (hopen : tx≠.none) (hstill : tx'≠.none) : tx=tx' ∧ st'=st := by
  cases h with
  | stays tx => exact ⟨rfl,rfl⟩
  | beginsRead | beginsWrite hfree | writesAlone st' hfree => exact absurd rfl hopen
  | endsRead | endsWrite st' => exact absurd rfl hstill

/-- A move of a handle that does not hold the lock changes nothing durable. -/
theorem Moves.durable {j : ι} (h : Moves j (some i) st tx tx' writer' st') (hself : tx=.write ↔ some i=some j)
    (hne : j≠i) : st'=st := by
  cases h with
  | stays tx | beginsRead | endsRead => rfl
  | beginsWrite hfree | writesAlone st' hfree => cases hfree
  | endsWrite st' => exact absurd (Option.some.inj (hself.mp rfl)).symm hne

end Lock

section Calls

variable [DecidableEq ι] {env : QueryEnv S} {engine : FtsEngine} {planner : Planner S}
  {sys : System S ι} {i : ι}

/-- A query in a transaction leaves it open. -/
theorem executeInTx_txState (h : CachedHandle S) (cypher : String) :
    (executeInTx env planner h cypher).2.txState=h.txState := by
  unfold executeInTx
  dsimp only
  cases (preparePlan planner h h.working cypher).1 with
  | error e => rfl
  | ok plan =>
    dsimp only
    split_ifs
    · rfl
    · rfl
    · cases QueryExecutor.run env plan none h.working with
      | mk out st =>
        cases out with
        | error e | ok rows => rfl

/-- A change of the indexes leaves its transaction open. -/
theorem changeIndexes_txState (h : CachedHandle S) (change : IndexChange) :
    (changeIndexes env engine h change).2.txState=h.txState := by
  unfold PlanCache.changeIndexes
  split_ifs
  · rfl
  · cases change.perform env.enc engine h.working with
    | mk out st =>
      cases out with
      | error e | ok u => rfl

/-- A call changes its handle, the lock and the durable content by a move. -/
@[grind] def Stepped (sys : System S ι) (i : ι) (sys' : System S ι) : Prop :=
  ∃ h committed writer,sys'={sys.put i h with committed := committed,writer := writer} ∧
    Moves i sys.writer sys.committed (sys.handles i).txState h.txState writer committed

/-- A handle is replaced without opening or ending its transaction. -/
theorem stepped_put {h : CachedHandle S} (htx : h.txState=(sys.handles i).txState) : Stepped sys i (sys.put i h) :=
  ⟨h,sys.committed,sys.writer,rfl,htx ▸ .stays _⟩

theorem stepped_refl (sys : System S ι) (i : ι) : Stepped sys i sys := by
  have hsame : sys.put i (sys.handles i)=sys := by rw [System.put,Function.update_eq_self]
  have hput : Stepped sys i (sys.put i (sys.handles i)) := stepped_put rfl
  rw [hsame] at hput
  exact hput

/-- What a query in its own transaction does. -/
theorem executeAuto_stepped (hidle : (sys.handles i).txState=.none) (cypher : String) (commits : Outcome) :
    Stepped sys i (executeAuto env planner sys i cypher commits).2 := by
  unfold executeAuto
  dsimp only
  cases (preparePlan planner (sys.handles i) sys.committed cypher).1 with
  | error e => exact stepped_put rfl
  | ok plan =>
    dsimp only
    by_cases hexplains : planner.explains cypher=true
    · rw [if_pos hexplains]
      exact stepped_put rfl
    rw [if_neg hexplains]
    by_cases hbusy : isReadOnly plan=false ∧ sys.writer.isSome=true
    · rw [if_pos hbusy]
      exact stepped_put rfl
    rw [if_neg hbusy]
    have hfree : isReadOnly plan=false → sys.writer=none := fun hwrites => by simpa [hwrites] using hbusy
    cases QueryExecutor.run env plan none sys.committed with
    | mk out st =>
      cases out with
      | error e => exact stepped_put rfl
      | ok rows =>
        cases commits with
        | done =>
          refine ⟨_,_,sys.writer,rfl,?_⟩
          dsimp only
          rw [hidle]
          cases hread : isReadOnly plan with
          | true => exact .stays .none
          | false => exact .writesAlone st (hfree hread)
        | fails e =>
          refine ⟨_,sys.committed,_,rfl,?_⟩
          dsimp only [txMode]
          rw [hidle]
          cases hread : isReadOnly plan with
          | true => exact .beginsRead
          | false => exact .beginsWrite (hfree hread)

variable (env engine planner)

/-- What a call does. -/
theorem step_stepped (sys : System S ι) (x : Step ι) :
    Stepped sys (handleOf x) (step env engine planner sys x) := by
  cases x with
  | beginRead j =>
    unfold step handleOf
    dsimp only
    split_ifs with hidle
    · exact ⟨_,_,_,rfl,hidle ▸ .beginsRead⟩
    · exact stepped_refl sys j
  | beginWrite j =>
    unfold step handleOf
    dsimp only
    split_ifs with hidle
    · exact ⟨_,_,_,rfl,hidle.1 ▸ .beginsWrite (Option.isNone_iff_eq_none.mp hidle.2)⟩
    · exact stepped_refl sys j
  | commit j o | rollback j o =>
    unfold step handleOf
    dsimp only
    cases htx : (sys.handles j).txState with
    | none => exact stepped_refl sys j
    | read | write =>
      cases o with
      | fails e => exact stepped_refl sys j
      | done =>
        first
        | exact ⟨_,_,_,rfl,htx ▸ .endsRead⟩
        | exact ⟨_,_,_,rfl,htx ▸ .endsWrite _⟩
  | changeIndexes j change => exact stepped_put (changeIndexes_txState _ change)
  | execute j cypher commits =>
    unfold step handleOf
    dsimp only
    split_ifs with hidle
    · exact executeAuto_stepped hidle cypher commits
    · exact stepped_put (executeInTx_txState _ cypher)

/-- A call does not touch the other handles. -/
theorem step_other {x : Step ι} (hne : i≠handleOf x) : (step env engine planner sys x).handles i=sys.handles i := by
  have ⟨h,committed,writer,hstep,_⟩ := step_stepped env engine planner sys x
  rw [hstep]
  exact put_ne sys h hne

/-- What a call does to its transaction, the lock and the durable content. -/
theorem step_moves (sys : System S ι) (x : Step ι) :
    Moves (handleOf x) sys.writer sys.committed (sys.handles (handleOf x)).txState
      ((step env engine planner sys x).handles (handleOf x)).txState
      (step env engine planner sys x).writer (step env engine planner sys x).committed := by
  have ⟨h,committed,writer,hstep,hmoves⟩ := step_stepped env engine planner sys x
  rw [hstep]
  dsimp only
  rw [put_self]
  exact hmoves

/-- A call in a transaction depends only on its handle. -/
theorem step_own {sys' : System S ι} {x : Step ι} (hsame : sys'.handles (handleOf x)=sys.handles (handleOf x))
    (hopen : (sys.handles (handleOf x)).txState≠.none) :
    (step env engine planner sys' x).handles (handleOf x)=(step env engine planner sys x).handles (handleOf x) := by
  unfold handleOf at hsame hopen ⊢
  unfold step
  cases x with
  | beginRead j | beginWrite j =>
    dsimp only at hsame hopen ⊢
    rw [hsame]
    simp only [hopen,false_and,if_false,hsame]
  | commit j o | rollback j o =>
    dsimp only at hsame hopen ⊢
    rw [hsame]
    cases htx : (sys.handles j).txState with
    | none => exact absurd htx hopen
    | read | write =>
      cases o with
      | fails e => exact hsame
      | done =>
        dsimp only
        rw [put_self,put_self]
  | changeIndexes j change =>
    dsimp only at hsame ⊢
    rw [put_self,put_self,hsame]
  | execute j cypher commits =>
    dsimp only at hsame hopen ⊢
    rw [hsame,if_neg hopen,if_neg hopen,put_self,put_self]

/-- A transaction that writes is open on the handle that holds the lock and on no other. -/
@[grind] def Exclusive (sys : System S ι) : Prop := ∀ j,(sys.handles j).txState=.write ↔ sys.writer=some j

/-- Every call keeps the lock exclusive. -/
theorem exclusive_step (hexclusive : Exclusive sys) (x : Step ι) :
    Exclusive (step env engine planner sys x) := by
  have ⟨hself,hothers⟩ :=
    (step_moves env engine planner sys x).exclusive (hexclusive (handleOf x))
  intro j
  by_cases hj : j=handleOf x
  · rw [hj]
    exact hself
  · rw [step_other env engine planner hj,hothers j hj]
    exact hexclusive j

/-- While a handle writes, the calls on other handles leave the durable content alone. -/
theorem step_durable (hheld : sys.writer=some i) (hexclusive : Exclusive sys) {x : Step ι} (hne : handleOf x≠i) :
    (step env engine planner sys x).committed=sys.committed := by
  have hmoves := step_moves env engine planner sys x
  rw [hheld] at hmoves
  have hself := hexclusive (handleOf x)
  rw [hheld] at hself
  exact hmoves.durable hself hne

/-- The system after calls. -/
@[grind] def afterCalls (sys : System S ι) (calls : List (Step ι)) : System S ι :=
  calls.foldl (step env engine planner) sys

/-- An open transaction of a handle, the last one in the calls. -/
structure Isolated (sys : System S ι) (i : ι) (before : List (Step ι)) (start : Step ι) (during : List (Step ι)) :
    Prop where
  /-- A call on the handle, which had no transaction, began it. -/
  began : handleOf start=i ∧ ((afterCalls env engine planner sys before).handles i).txState=.none
  /-- The handle is as if only its own calls had been made since. -/
  alone : (afterCalls env engine planner sys (before++start::during)).handles i=
    (afterCalls env engine planner sys (before++start::during.filter fun x => handleOf x=i)).handles i
  /-- The durable content under a transaction that writes is the one from before it. -/
  durable : ((afterCalls env engine planner sys (before++start::during)).handles i).txState=.write →
    (afterCalls env engine planner sys (before++start::during)).committed=
      (afterCalls env engine planner sys before).committed

theorem afterCalls_snoc (calls : List (Step ι)) (x : Step ι) :
    afterCalls env engine planner sys (calls++[x])=step env engine planner (afterCalls env engine planner sys calls) x := by
  unfold afterCalls
  rw [List.foldl_append]
  rfl

theorem exclusive_run (st : Store) (calls : List (Step ι)) :
    Exclusive (afterCalls env engine planner (openedSystem st) calls) := by
  induction calls using List.reverseRecOn with
  | nil => exact fun j => ⟨fun h => (by cases h),fun h => (by cases h)⟩
  | append_singleton calls x ih =>
    rw [afterCalls_snoc]
    exact exclusive_step env engine planner ih x

variable {env engine planner}

/-- An open transaction stays isolated under one more call that leaves it open. -/
theorem Isolated.snoc {before during : List (Step ι)} {start x : Step ι}
    (hisolated : Isolated env engine planner sys i before start during)
    (hexclusive : Exclusive (afterCalls env engine planner sys (before++start::during)))
    (hopen : ((afterCalls env engine planner sys (before++start::during)).handles i).txState≠.none)
    (hstill : ((step env engine planner (afterCalls env engine planner sys (before++start::during)) x).handles i).txState≠.none) :
    Isolated env engine planner sys i before start (during++[x]) := by
  have hsnoc : ∀ l : List (Step ι),before++start::(l++[x])=(before++start::l)++[x] := fun l => by simp
  refine ⟨hisolated.began,?_,?_⟩
  · rw [hsnoc,afterCalls_snoc,List.filter_append]
    by_cases hown : handleOf x=i
    · rw [List.filter_singleton,decide_eq_true hown,cond_true,hsnoc,afterCalls_snoc,←hown]
      rw [←hown] at hopen
      have halone := hisolated.alone
      rw [←hown] at halone
      exact (step_own env engine planner halone.symm hopen).symm
    · rw [List.filter_singleton,decide_eq_false hown,cond_false,List.append_nil,step_other env engine planner (Ne.symm hown)]
      exact hisolated.alone
  · intro hwrites
    rw [hsnoc,afterCalls_snoc] at hwrites ⊢
    by_cases hown : handleOf x=i
    · have hmoves := step_moves env engine planner
        (afterCalls env engine planner sys (before++start::during)) x
      rw [hown] at hmoves
      have ⟨htx,hcommitted⟩ := hmoves.goesOn hopen hstill
      rw [hcommitted]
      exact hisolated.durable (htx.trans hwrites)
    · rw [step_other env engine planner (Ne.symm hown)] at hwrites
      rw [step_durable env engine planner ((hexclusive i).mp hwrites) hexclusive hown]
      exact hisolated.durable hwrites

end Calls

end GraphDbLite.TransactionIsolation
