import GraphDbLite.GraphTypes
import GraphDbLite.StatefulActions

/-!
# The transaction state of a database handle

A handle remembers whether it opened a transaction, and its connection is in or
out of one. Every statement sent to the connection may fail; a failed begin,
commit or rollback leaves the connection as it was. Outside an explicit
transaction a query is wrapped in its own begin and commit. The two halves stay
in step exactly as long as the commit and the clean-up rollback of these wrapped
queries succeed: after a failed commit the wrapping transaction stays open, and
after a failed rollback the handle forgets it.
-/

namespace GraphDbLite.TransactionHandle

open GraphTypes StatefulActions

variable {D : Type}

/-- Transaction state kept by the handle. -/
inductive TxState where
  | none
  | read
  | write
  deriving DecidableEq

/-- Debug text of a transaction state. -/
def TxState.text : TxState → String
  | .none => "None"
  | .read => "Read"
  | .write => "Write"

/-- How a statement sent to the connection ends when it is admissible. -/
inductive Outcome where
  | done
  | fails (e : GraphError)
  deriving DecidableEq

/-- A connection: in or out of a transaction, with the durable content and the
content that the open transaction sees. -/
structure Conn (D : Type) where
  /-- Whether a transaction is open. -/
  inTx : Bool
  /-- Durable content. -/
  committed : D
  /-- Content seen by the connection. -/
  working : D

/-- Open a transaction; there is no nesting. -/
def Conn.begin (c : Conn D) (o : Outcome) : Result Unit×Conn D :=
  if c.inTx=true then (.error (.storage "cannot start a transaction within a transaction" none),c)
  else
    match o with
    | .done => (.ok (),{c with inTx := true,working := c.committed})
    | .fails e => (.error e,c)

/-- Make the working content durable; on failure the transaction stays open. -/
def Conn.commit (c : Conn D) (o : Outcome) : Result Unit×Conn D :=
  if c.inTx=false then (.error (.storage "cannot commit - no transaction is active" none),c)
  else
    match o with
    | .done => (.ok (),{c with inTx := false,committed := c.working})
    | .fails e => (.error e,c)

/-- Drop the working content. -/
def Conn.rollback (c : Conn D) (o : Outcome) : Result Unit×Conn D :=
  if c.inTx=false then (.error (.storage "cannot rollback - no transaction is active" none),c)
  else
    match o with
    | .done => (.ok (),{c with inTx := false,working := c.committed})
    | .fails e => (.error e,c)

/-- Apply writes; outside a transaction they are durable at once. -/
def Conn.write (c : Conn D) (f : D → D) : Conn D :=
  if c.inTx=true then {c with working := f c.working}
  else {c with committed := f c.committed,working := f c.committed}

/-- What parsing, parameter checks and planning make of a query text. -/
inductive Prepared where
  | rejected (e : GraphError)
  | explain
  | plan (readOnly : Bool)

/-- A query: how it is prepared, what a complete execution writes and what an
execution that fails has written. -/
structure Statement (D : Type) where
  /-- Outcome of parsing and planning. -/
  prepared : Prepared
  /-- Writes of a complete execution. -/
  effect : D → D
  /-- Writes made before a failure. -/
  partialEffect : D → D

/-- Run a plan on the connection; read-only plans write nothing. -/
def Conn.execute (c : Conn D) (stmt : Statement D) (readOnly : Bool) (o : Outcome) :
    Result Unit×Conn D :=
  match o with
  | .done => (.ok (),if readOnly=true then c else c.write stmt.effect)
  | .fails e => (.error e,if readOnly=true then c else c.write stmt.partialEffect)

/-- A database handle. -/
structure Handle (D : Type) where
  /-- Transaction state kept by the handle. -/
  txState : TxState
  /-- The connection. -/
  conn : Conn D

/-- Error of beginning a transaction inside another one. -/
def nestedError (op : String) (state : TxState) : GraphError :=
  .transaction
    (op++(": a "++(state.text++" transaction is already active; nested transactions are not supported")))
    (some "commit or roll back the current transaction before beginning another")

/-- Error of a write inside a read transaction. -/
def readOnlyError : GraphError :=
  .transaction "write operations are not permitted inside a read transaction"
    (some "begin a write transaction with begin_write/write_tx, or remove the CREATE/SET/DELETE/MERGE/REMOVE clause")

/-- Begin an explicit transaction in a mode. -/
def beginTx (h : Handle D) (op : String) (mode : TxState) (o : Outcome) : Result Unit×Handle D :=
  if h.txState≠.none then (.error (nestedError op h.txState),h)
  else
    match h.conn.begin o with
    | (.ok (),conn) => (.ok (),⟨mode,conn⟩)
    | (.error e,conn) => (.error e,{h with conn := conn})

/-- Begin a read-write transaction. -/
def beginWrite (h : Handle D) (o : Outcome) : Result Unit×Handle D := beginTx h "begin_write" .write o

/-- Begin a read-only transaction. -/
def beginRead (h : Handle D) (o : Outcome) : Result Unit×Handle D := beginTx h "begin_read" .read o

/-- Commit the active transaction. -/
def commit (h : Handle D) (o : Outcome) : Result Unit×Handle D :=
  if h.txState=.none then (.error (.transaction "no active transaction to commit" none),h)
  else
    match h.conn.commit o with
    | (.ok (),conn) => (.ok (),⟨.none,conn⟩)
    | (.error e,conn) => (.error e,{h with conn := conn})

/-- Roll back the active transaction. -/
def rollback (h : Handle D) (o : Outcome) : Result Unit×Handle D :=
  if h.txState=.none then (.error (.transaction "no active transaction to roll back" none),h)
  else
    match h.conn.rollback o with
    | (.ok (),conn) => (.ok (),⟨.none,conn⟩)
    | (.error e,conn) => (.error e,{h with conn := conn})

/-- Outcomes of the statements that one query sends to the connection. -/
structure Outcomes where
  /-- The wrapping begin. -/
  begins : Outcome
  /-- The plan. -/
  runs : Outcome
  /-- The wrapping commit. -/
  commits : Outcome
  /-- The clean-up rollback. -/
  rollsBack : Outcome

/-- Run a query inside the active transaction. -/
def executeInTx (h : Handle D) (stmt : Statement D) (o : Outcomes) : Result Unit×Handle D :=
  match stmt.prepared with
  | .rejected e => (.error e,h)
  | .explain => (.ok (),h)
  | .plan readOnly =>
    if h.txState=.read ∧ readOnly=false then (.error readOnlyError,h)
    else
      match h.conn.execute stmt readOnly o.runs with
      | (result,conn) => (result,{h with conn := conn})

/-- Run a query in its own transaction. The commit error returns before the
state is reset; the rollback error is ignored. -/
def executeAuto (h : Handle D) (stmt : Statement D) (o : Outcomes) : Result Unit×Handle D :=
  match stmt.prepared with
  | .rejected e => (.error e,h)
  | .explain => (.ok (),h)
  | .plan readOnly =>
    match h.conn.begin o.begins with
    | (.error e,conn) => (.error e,{h with conn := conn})
    | (.ok (),conn) =>
      let state := if readOnly=true then TxState.read else TxState.write
      match conn.execute stmt readOnly o.runs with
      | (.ok (),conn) =>
        match conn.commit o.commits with
        | (.error e,conn) => (.error e,⟨state,conn⟩)
        | (.ok (),conn) => (.ok (),⟨.none,conn⟩)
      | (.error e,conn) => (.error e,⟨.none,(conn.rollback o.rollsBack).2⟩)

/-- Run a query. -/
def execute (h : Handle D) (stmt : Statement D) (o : Outcomes) : Result Unit×Handle D :=
  if h.txState≠.none then executeInTx h stmt o else executeAuto h stmt o

/-- Calls on a handle with the outcomes of the statements they send. -/
inductive Call (D : Type) where
  | beginRead (o : Outcome)
  | beginWrite (o : Outcome)
  | commit (o : Outcome)
  | rollback (o : Outcome)
  | execute (stmt : Statement D) (o : Outcomes)

/-- Result and handle after a call. -/
def call (h : Handle D) : Call D → Result Unit×Handle D
  | .beginRead o => beginRead h o
  | .beginWrite o => beginWrite h o
  | .commit o => commit h o
  | .rollback o => rollback h o
  | .execute stmt o => execute h stmt o

/-- Handle after a call. -/
def step (h : Handle D) (c : Call D) : Handle D := (call h c).2

/-- A handle that was just opened. -/
def opened (d : D) : Handle D := ⟨.none,⟨false,d,d⟩⟩

/-- The two halves agree. -/
def Sync (h : Handle D) : Prop := h.txState≠.none ↔ h.conn.inTx=true

/-- No transaction is active in either half. -/
def Idle (h : Handle D) : Prop := h.txState=.none ∧ h.conn.inTx=false

/-- Some calls lead back to the idle state. -/
def Recoverable (h : Handle D) : Prop := ∃ calls,Idle (run step h calls)

/-- A query outside an explicit transaction returns with no transaction open,
and an error leaves the durable content. -/
def AutoCommitOk (h : Handle D) : Call D → Prop
  | .execute stmt o => h.txState=.none →
      (execute h stmt o).2.conn.inTx=false ∧
        ∀ e,(execute h stmt o).1=.error e → (execute h stmt o).2.conn.committed=h.conn.committed
  | _ => True

/-- Commit and clean-up rollback of a wrapped query succeed when they are reached. -/
def CleansUp (h : Handle D) : Call D → Prop
  | .execute stmt o => h.txState=.none → (∃ readOnly,stmt.prepared=.plan readOnly) →
      o.begins=.done → (o.runs=.done → o.commits=.done) ∧ (o.runs≠.done → o.rollsBack=.done)
  | _ => True

variable {h : Handle D} {c : Conn D}

theorem Sync.out (hs : Sync h) (hnone : h.txState=.none) : h.conn.inTx=false :=
  Bool.eq_false_iff.mpr fun hin => (hs.mpr hin) hnone

theorem begin_done (hout : c.inTx=false) : c.begin .done=(.ok (),{c with inTx := true,working := c.committed}) := by
  simp [Conn.begin,hout]

theorem begin_fails (hout : c.inTx=false) (e : GraphError) : c.begin (.fails e)=(.error e,c) := by
  simp [Conn.begin,hout]

theorem begin_nested (hin : c.inTx=true) (o : Outcome) :
    c.begin o=(.error (.storage "cannot start a transaction within a transaction" none),c) := by
  simp [Conn.begin,hin]

theorem commit_done (hin : c.inTx=true) : c.commit .done=(.ok (),{c with inTx := false,committed := c.working}) := by
  simp [Conn.commit,hin]

theorem commit_fails (hin : c.inTx=true) (e : GraphError) : c.commit (.fails e)=(.error e,c) := by
  simp [Conn.commit,hin]

theorem rollback_done (hin : c.inTx=true) : c.rollback .done=(.ok (),{c with inTx := false,working := c.committed}) := by
  simp [Conn.rollback,hin]

theorem rollback_fails (hin : c.inTx=true) (e : GraphError) : c.rollback (.fails e)=(.error e,c) := by
  simp [Conn.rollback,hin]

theorem inTx_write (c : Conn D) (f : D → D) : (c.write f).inTx=c.inTx := by
  unfold Conn.write
  split_ifs <;> rfl

theorem inTx_execute (c : Conn D) (stmt : Statement D) (readOnly : Bool) (o : Outcome) :
    (c.execute stmt readOnly o).2.inTx=c.inTx := by
  unfold Conn.execute
  cases o with
  | done | fails e =>
    dsimp only
    split_ifs
    · rfl
    · exact inTx_write c _

theorem committed_execute (hin : c.inTx=true) (stmt : Statement D) (readOnly : Bool) (o : Outcome) :
    (c.execute stmt readOnly o).2.committed=c.committed := by
  have hwrite : ∀ f : D → D,(c.write f).committed=c.committed := by
    intro f
    rw [Conn.write,if_pos hin]
  unfold Conn.execute
  cases o with
  | done | fails e =>
    dsimp only
    split_ifs
    · rfl
    · exact hwrite _

theorem sync_beginTx (hs : Sync h) (op : String) {mode : TxState} (hmode : mode≠.none) (o : Outcome) :
    Sync (beginTx h op mode o).2 := by
  unfold beginTx
  by_cases hnone : h.txState=.none
  · have hout := hs.out hnone
    rw [if_neg (not_not.mpr hnone)]
    cases o with
    | done =>
      rw [begin_done hout]
      exact ⟨fun _ => rfl,fun _ => hmode⟩
    | fails e =>
      rw [begin_fails hout e]
      exact hs
  · rw [if_pos hnone]
    exact hs

theorem sync_commit (hs : Sync h) (o : Outcome) : Sync (commit h o).2 := by
  unfold commit
  by_cases hnone : h.txState=.none
  · rw [if_pos hnone]
    exact hs
  · have hin : h.conn.inTx=true := hs.mp hnone
    rw [if_neg hnone]
    cases o with
    | done =>
      rw [commit_done hin]
      exact ⟨fun hx => absurd rfl hx,fun hx => absurd hx (by simp)⟩
    | fails e =>
      rw [commit_fails hin e]
      exact hs

theorem sync_rollback (hs : Sync h) (o : Outcome) : Sync (rollback h o).2 := by
  unfold rollback
  by_cases hnone : h.txState=.none
  · rw [if_pos hnone]
    exact hs
  · have hin : h.conn.inTx=true := hs.mp hnone
    rw [if_neg hnone]
    cases o with
    | done =>
      rw [rollback_done hin]
      exact ⟨fun hx => absurd rfl hx,fun hx => absurd hx (by simp)⟩
    | fails e =>
      rw [rollback_fails hin e]
      exact hs

theorem sync_executeInTx (hs : Sync h) (stmt : Statement D) (o : Outcomes) : Sync (executeInTx h stmt o).2 := by
  unfold executeInTx
  cases stmt.prepared with
  | rejected e | explain => exact hs
  | plan readOnly =>
    dsimp only
    split_ifs
    · exact hs
    · have hin := inTx_execute h.conn stmt readOnly o.runs
      unfold Sync at hs ⊢
      rw [hs]
      dsimp only
      rw [hin]

theorem executeAuto_begun {stmt : Statement D} {o : Outcomes} {readOnly : Bool}
    (hout : h.conn.inTx=false) (hplan : stmt.prepared=.plan readOnly) (hbegin : o.begins=.done) :
    (o.runs=.done ∧ o.commits=.done ∧ (executeAuto h stmt o).1=.ok () ∧
        (executeAuto h stmt o).2.txState=.none ∧ (executeAuto h stmt o).2.conn.inTx=false) ∨
      (o.runs=.done ∧ o.commits≠.done ∧ (executeAuto h stmt o).2.conn.inTx=true) ∨
      (o.runs≠.done ∧ o.rollsBack=.done ∧ (executeAuto h stmt o).2.txState=.none ∧
        (executeAuto h stmt o).2.conn.inTx=false ∧
        (executeAuto h stmt o).2.conn.committed=h.conn.committed) ∨
      (o.runs≠.done ∧ o.rollsBack≠.done ∧ (executeAuto h stmt o).2.txState=.none ∧
        (executeAuto h stmt o).2.conn.inTx=true) := by
  let begun : Conn D := {h.conn with inTx := true,working := h.conn.committed}
  have hbegun : h.conn.begin .done=(.ok (),begun) := begin_done hout
  have hin := inTx_execute begun stmt readOnly o.runs
  have hkept := committed_execute (c:=begun) rfl stmt readOnly o.runs
  unfold executeAuto
  rw [hplan,hbegin]
  dsimp only
  rw [hbegun]
  dsimp only
  cases hruns : o.runs with
  | done =>
    rw [hruns] at hin
    have hresult : begun.execute stmt readOnly .done=
        (.ok (),(begun.execute stmt readOnly .done).2) := rfl
    rw [hresult]
    cases hcommits : o.commits with
    | done =>
      dsimp only
      rw [commit_done hin]
      exact Or.inl ⟨rfl,rfl,rfl,rfl,rfl⟩
    | fails e =>
      dsimp only
      rw [commit_fails hin e]
      exact Or.inr (Or.inl ⟨rfl,by simp,hin⟩)
  | fails e =>
    rw [hruns] at hin hkept
    have hresult : begun.execute stmt readOnly (.fails e)=
        (.error e,(begun.execute stmt readOnly (.fails e)).2) := rfl
    rw [hresult]
    cases hrolls : o.rollsBack with
    | done =>
      dsimp only
      rw [rollback_done hin]
      exact Or.inr (Or.inr (Or.inl ⟨by simp,rfl,rfl,rfl,hkept⟩))
    | fails e' =>
      dsimp only
      rw [rollback_fails hin e']
      exact Or.inr (Or.inr (Or.inr ⟨by simp,by simp,rfl,hin⟩))

theorem executeAuto_unbegun {stmt : Statement D} {o : Outcomes} (hout : h.conn.inTx=false)
    (hnot : (∃ readOnly,stmt.prepared=.plan readOnly) → o.begins≠.done) : (executeAuto h stmt o).2=h := by
  unfold executeAuto
  cases hprepared : stmt.prepared with
  | rejected e | explain => rfl
  | plan readOnly =>
    have hne := hnot ⟨readOnly,hprepared⟩
    cases hbegin : o.begins with
    | done => exact absurd hbegin hne
    | fails e =>
      dsimp only
      rw [begin_fails hout e]

/-- For handles in step, a query leaves no transaction behind exactly when its
commit or clean-up succeeds. -/
theorem autoCommitOk_iff_cleansUp (hs : Sync h) (c : Call D) : AutoCommitOk h c ↔ CleansUp h c := by
  cases c with
  | execute stmt o =>
    by_cases hnone : h.txState=.none
    · have hout := hs.out hnone
      have hauto : execute h stmt o=executeAuto h stmt o := by
        rw [execute,if_neg (not_not.mpr hnone)]
      simp only [AutoCommitOk,CleansUp,hauto,hnone,true_implies]
      by_cases hbegun : (∃ readOnly,stmt.prepared=.plan readOnly) ∧ o.begins=.done
      · have ⟨⟨readOnly,hplan⟩,hbegin⟩ := hbegun
        have hcases := executeAuto_begun hout hplan hbegin
        constructor
        · intro hok _ _
          rcases hcases with ⟨hr,hc,-⟩|⟨hr,hc,hopen⟩|⟨hr,hb,-⟩|⟨hr,hb,-,hopen⟩
          · exact ⟨fun _ => hc,fun hx => absurd hr hx⟩
          · exact absurd hopen (by simp [hok.1])
          · exact ⟨fun hx => absurd hx hr,fun _ => hb⟩
          · exact absurd hopen (by simp [hok.1])
        · intro hclean
          obtain ⟨hcommit,hrollback⟩ := hclean ⟨readOnly,hplan⟩ hbegin
          rcases hcases with ⟨-,-,hres,-,hclosed⟩|⟨hr,hc,-⟩|⟨-,-,-,hclosed,hkept⟩|⟨hr,hb,-⟩
          · exact ⟨hclosed,fun e he => absurd (hres.symm.trans he) (by simp)⟩
          · exact absurd (hcommit hr) hc
          · exact ⟨hclosed,fun _ _ => hkept⟩
          · exact absurd (hrollback hr) hb
      · have hsame : (executeAuto h stmt o).2=h :=
          executeAuto_unbegun hout fun hx hb => hbegun ⟨hx,hb⟩
        rw [hsame]
        constructor
        · intro _ hx hb
          exact absurd ⟨hx,hb⟩ hbegun
        · intro _
          exact ⟨hout,fun _ _ => rfl⟩
    · simp only [AutoCommitOk,CleansUp,hnone,false_implies]
  | beginRead o | beginWrite o | commit o | rollback o => exact Iff.rfl

theorem sync_step (hs : Sync h) (c : Call D) (hclean : CleansUp h c) : Sync (step h c) := by
  cases c with
  | beginRead o | beginWrite o => exact sync_beginTx hs _ (by simp) o
  | commit o => exact sync_commit hs o
  | rollback o => exact sync_rollback hs o
  | execute stmt o =>
    change Sync (execute h stmt o).2
    by_cases hnone : h.txState=.none
    · have hout := hs.out hnone
      rw [execute,if_neg (not_not.mpr hnone)]
      by_cases hbegun : (∃ readOnly,stmt.prepared=.plan readOnly) ∧ o.begins=.done
      · have ⟨⟨readOnly,hplan⟩,hbegin⟩ := hbegun
        have ⟨hcommit,hrollback⟩ := hclean hnone ⟨readOnly,hplan⟩ hbegin
        have hidle : (executeAuto h stmt o).2.txState=.none ∧
            (executeAuto h stmt o).2.conn.inTx=false := by
          rcases executeAuto_begun hout hplan hbegin with
            ⟨-,-,-,hstate,hclosed⟩|⟨hr,hc,-⟩|⟨-,-,hstate,hclosed,-⟩|⟨hr,hb,-⟩
          · exact ⟨hstate,hclosed⟩
          · exact absurd (hcommit hr) hc
          · exact ⟨hstate,hclosed⟩
          · exact absurd (hrollback hr) hb
        unfold Sync
        rw [hidle.1,hidle.2]
        simp
      · rw [executeAuto_unbegun hout fun hx hb => hbegun ⟨hx,hb⟩]
        exact hs
    · rw [execute,if_pos hnone]
      exact sync_executeInTx hs stmt o

theorem Sync.recoverable (hs : Sync h) : Recoverable h := by
  by_cases hnone : h.txState=.none
  · exact ⟨[],hnone,hs.out hnone⟩
  · refine ⟨[.rollback .done],?_⟩
    have hin : h.conn.inTx=true := hs.mp hnone
    have hroll : step h (.rollback .done)=
        ⟨.none,{h.conn with inTx := false,working := h.conn.committed}⟩ := by
      change (rollback h .done).2=_
      rw [rollback,if_neg hnone,rollback_done hin]
    change Idle (step h (.rollback .done))
    rw [hroll]
    exact ⟨rfl,rfl⟩

/-- Along every run from an opened handle, the halves are in step, the idle state
can be reached again and wrapped queries leave nothing behind, exactly when the
commit or clean-up rollback of every wrapped query succeeds. -/
theorem handle_in_step_iff (d : D) (calls : List (Call D)) :
    ((∀ first,first<+:calls →
        Sync (run step (opened d) first) ∧ Recoverable (run step (opened d) first)) ∧
      Guarded step AutoCommitOk (opened d) calls) ↔ Guarded step CleansUp (opened d) calls := by
  have hopened : Sync (opened d) := ⟨fun hx => absurd rfl hx,fun hx => absurd hx (by simp [opened])⟩
  have hsame : Guarded step AutoCommitOk (opened d) calls ↔ Guarded step CleansUp (opened d) calls :=
    guarded_congr (I:=Sync) (fun h c hs hclean => sync_step hs c hclean)
      (fun h c hs => autoCommitOk_iff_cleansUp hs c) hopened
  constructor
  · intro hall
    exact hsame.mp hall.2
  · intro hclean
    refine ⟨fun first hfirst => ?_,hsame.mpr hclean⟩
    have hs : Sync (run step (opened d) first) :=
      run_invariant (I:=Sync) (fun h c hs hc => sync_step hs c hc) hopened
        (guarded_of_isPrefix hfirst hclean)
    exact ⟨hs,hs.recoverable⟩

/-- A query that writes, over a store that counts writes. -/
def sampleWrite : Statement Nat := ⟨.plan false,fun n => n+1,fun n => n+1⟩

theorem stuck_step (hnone : h.txState=.none) (hin : h.conn.inTx=true) (c : Call D) : step h c=h := by
  have hbegin := begin_nested (c:=h.conn) hin
  cases c with
  | beginRead o =>
    change (beginTx h "begin_read" .read o).2=h
    rw [beginTx,if_neg (not_not.mpr hnone),hbegin]
  | beginWrite o =>
    change (beginTx h "begin_write" .write o).2=h
    rw [beginTx,if_neg (not_not.mpr hnone),hbegin]
  | commit o =>
    change (commit h o).2=h
    rw [commit,if_pos hnone]
  | rollback o =>
    change (rollback h o).2=h
    rw [rollback,if_pos hnone]
  | execute stmt o =>
    change (execute h stmt o).2=h
    rw [execute,if_neg (not_not.mpr hnone),executeAuto]
    cases stmt.prepared with
    | rejected e | explain => rfl
    | plan readOnly =>
      dsimp only
      rw [hbegin]

/-- A failed commit of a wrapped query leaves a transaction open, and a failed
clean-up rollback a handle that no calls bring back. -/
theorem handle_out_of_step :
    ¬(∀ calls : List (Call Nat),Guarded step AutoCommitOk (opened 0) calls) ∧
      ¬(∀ calls : List (Call Nat),Sync (run step (opened 0) calls)) ∧
      ¬∀ calls : List (Call Nat),Recoverable (run step (opened 0) calls) := by
  let e : GraphError := .storage "disk I/O error" none
  let badCommit : Call Nat := .execute sampleWrite ⟨.done,.done,.fails e,.done⟩
  let badRollback : Call Nat := .execute sampleWrite ⟨.done,.fails e,.done,.fails e⟩
  refine ⟨?_,?_,?_⟩
  · intro hall
    have hok := (hall [badCommit]).1 rfl
    exact absurd hok.1 (by decide)
  · intro hall
    have hs := hall [badRollback]
    exact absurd (hs.mpr rfl) (by decide)
  · intro hall
    have ⟨calls,hidle⟩ := hall [badRollback]
    have hstuck : ∀ calls : List (Call Nat),
        run step (run step (opened 0) [badRollback]) calls=run step (opened 0) [badRollback] := by
      intro calls
      induction calls with
      | nil => rfl
      | cons c rest ih =>
        have hone := stuck_step (h:=run step (opened 0) [badRollback]) rfl rfl c
        change run step (step (run step (opened 0) [badRollback]) c) rest=_
        rw [hone]
        exact ih
    rw [hstuck calls] at hidle
    exact absurd hidle.2 (by decide)

end GraphDbLite.TransactionHandle
