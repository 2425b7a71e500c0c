import GraphDbLite.CappedTraversal
import GraphDbLite.Projection
import GraphDbLite.SameOutcomes

/-!
# Limits pushed into expansions

A limit over projections of a variable-length expansion becomes a cap of the
expansion. The cap counts paths before those that miss a bound destination are
dropped, so rows may get lost; where no path that reaches its destination is behind a
path that does not, the capped plan returns the rows of the limit.
-/

namespace GraphDbLite.LimitPushdown

open GraphTypes StatefulActions GraphStore WriteOperators Traversal
open EdgeStorage NodeStorage QueryPlan QueryExecutor IndexAccess FallibleLists SameOutcomes CappedTraversal
open Projection

variable {S : Type}

/-- Change the variable-length expansion below projections. -/
def findPushdownTarget (change : ExpandSpec S → ExpandSpec S) : LogicalOp S → LogicalOp S
  | .rows (.project items emitCompound) input =>
    .rows (.project items emitCompound) (findPushdownTarget change input)
  | .expand input spec => if spec.varLength=true then .expand input (change spec) else .expand input spec
  | plan => plan

/-- The tighter of the cap of an expansion and a new one. -/
def tighten (count : UInt64) (spec : ExpandSpec S) : ExpandSpec S :=
  {spec with resultCap := some (match spec.resultCap with
    | some existing => if existing ≤ count then existing else count
    | none => count)}

/-- Push the count of a limit into its input; other operators push nothing. -/
def pushLimit : RowOp S → LogicalOp S → LogicalOp S
  | .limit count,input => findPushdownTarget (tighten count) input
  | _,input => input

mutual

/-- Push limits into variable-length expansions, everywhere in a plan. -/
def pushLimitIntoVarLengthExpand : LogicalOp S → LogicalOp S
  | .expand input spec => .expand (pushLimitIntoVarLengthExpand input) spec
  | .filter input predicate => .filter (pushLimitIntoVarLengthExpand input) predicate
  | .rows op input => .rows op (pushLimit op (pushLimitIntoVarLengthExpand input))
  | .crossProduct left right sameMatch =>
    .crossProduct (pushLimitIntoVarLengthExpand left) (pushLimitIntoVarLengthExpand right) sameMatch
  | .correlatedJoin input right sameMatch =>
    .correlatedJoin (pushLimitIntoVarLengthExpand input) (pushLimitIntoVarLengthExpand right) sameMatch
  | .leftOuterJoin input right optionalAliases optFilter =>
    .leftOuterJoin (pushLimitIntoVarLengthExpand input) (pushLimitIntoVarLengthExpand right)
      optionalAliases optFilter
  | .union inputs all => .union (pushLimits inputs) all
  | .singleRow => .singleRow
  | .emptyRow => .emptyRow
  | .scan label nodeAlias => .scan label nodeAlias
  | .idLookup nodeAlias valueExpr => .idLookup nodeAlias valueExpr
  | .indexLookup label nodeAlias indexProperties lookups remaining =>
    .indexLookup label nodeAlias indexProperties lookups remaining
  | .fullTextLookup label nodeAlias property op term remaining =>
    .fullTextLookup label nodeAlias property op term remaining
  | .source op => .source op
termination_by structural plan => plan

/-- Push limits in the inputs of a union. -/
def pushLimits : List (LogicalOp S) → List (LogicalOp S)
  | [] => []
  | plan::rest => pushLimitIntoVarLengthExpand plan::pushLimits rest
termination_by structural plans => plans

end

variable {change : ExpandSpec S → ExpandSpec S} {plan : LogicalOp S}

/-- Operators other than a projection or a variable-length expansion are no target. -/
theorem findPushdownTarget_other
    (hproject : ∀ items emitCompound input,plan=.rows (.project items emitCompound) input → False)
    (hexpand : ∀ input spec,plan=.expand input spec → False) : findPushdownTarget change plan=plan := by
  cases plan with
  | expand input spec => exact absurd rfl (hexpand input spec)
  | rows op input =>
    cases op with
    | project items emitCompound => exact absurd rfl (hproject items emitCompound input)
    | _ => rfl
  | _ => rfl

theorem findPushdownTarget_pushed
    (hproject : ∀ items emitCompound input,plan=.rows (.project items emitCompound) input → False)
    (hexpand : ∀ input spec,plan=.expand input spec → False) :
    findPushdownTarget change (pushLimitIntoVarLengthExpand plan)=pushLimitIntoVarLengthExpand plan := by
  apply findPushdownTarget_other
  · intro items emitCompound input heq
    cases plan with
    | rows op inner =>
      rw [pushLimitIntoVarLengthExpand] at heq
      have hop : op=.project items emitCompound := (LogicalOp.rows.inj heq).1
      exact hproject items emitCompound inner (by rw [hop])
    | _ =>
      rw [pushLimitIntoVarLengthExpand] at heq
      cases heq
  · intro input spec heq
    cases plan with
    | expand inner own => exact hexpand inner own rfl
    | _ =>
      rw [pushLimitIntoVarLengthExpand] at heq
      cases heq

/-- The environment with the projections and limits of the materialised executor. -/
def withProjections (env : QueryEnv S) (floatText : UInt64 → String) : QueryEnv S :=
  {env with rowOp := fun op outer rows =>
    match op,outer with
    | .project items emitCompound,none => inspect fun st =>
      execProject env.eval floatText st items emitCompound rows
    | .limit count,_ => pure (rows.take count.toNat)
    | op,outer => env.rowOp op outer rows}

section Records

variable (env : QueryEnv S) (st : Store)

/-- Paths that an expansion looks at from a record. -/
def recordPaths (spec : ExpandSpec S) (cap : Option Nat) (rec : NamedRecord) : Frames :=
  match boundNode rec spec.srcAlias with
  | none => []
  | some srcId =>
    (traversePaths st srcId spec.edgeTypes spec.direction (expandSearch env spec cap)).toOption.getD []

/-- Number of paths that end at the destination of a record, if it is bound. -/
def reachCount (spec : ExpandSpec S) (rec : NamedRecord) (paths : Frames) : Nat :=
  (paths.filter fun path => reaches (boundNode rec spec.dstAlias) path.1).length

/-- The cap that an expansion has left. -/
def remainingCap (spec : ExpandSpec S) (done : Nat) : Option Nat :=
  spec.resultCap.map fun cap => cap.toNat-done

/-- A cap at which no record loses rows: among the first paths of each record, up to the
rows that are missing, as many reach their destination as there are or as are missing. -/
def CapSafe (spec : ExpandSpec S) (n : Nat) : Rows → Nat → Prop
  | [],_ => True
  | rec::rest,done => n≤done ∨
    (min (n-done) (reachCount spec rec (recordPaths env st spec (remainingCap spec done) rec)) ≤
        reachCount spec rec ((recordPaths env st spec (remainingCap spec done) rec).take (n-done)) ∧
      CapSafe spec n rest (done+reachCount spec rec (recordPaths env st spec (remainingCap spec done) rec)))

/-- Number of rows of a capped expansion: paths beyond the missing rows are not looked
at. -/
def cappedCount (spec : ExpandSpec S) (n : Nat) : Rows → Nat → Nat
  | [],done => done
  | rec::rest,done =>
    if n≤done then done
    else cappedCount spec n rest
      (done+reachCount spec rec ((recordPaths env st spec none rec).take (n-done)))

/-- Number of rows of an expansion. -/
def fullCount (spec : ExpandSpec S) (records : Rows) : Nat :=
  (records.map fun rec => reachCount spec rec (recordPaths env st spec none rec)).sum

variable {env st} {spec : ExpandSpec S}

theorem filter_take_eq (p : NodeId×List PathStep → Bool) (paths : Frames) (c : Nat) :
    (paths.take c).filter p=(paths.filter p).take ((paths.take c).filter p).length := by
  have hfront : (paths.take c).filter p<+:paths.filter p := (List.take_prefix c paths).filter p
  exact List.prefix_iff_eq_take.mp hfront

variable {rec : NamedRecord} {rows out : Rows} {n : Nat}

theorem expandRecord_capped (hvar : spec.varLength=true) {cap : Option Nat} {c : Nat} (hcap : ∀ k∈cap,c≤k)
    (hpos : 0<c) (h : expandRecord env st spec cap rec=.ok rows) :
    expandRecord env st spec (some c) rec= .ok
    (rows.take (reachCount spec rec ((recordPaths env st spec cap rec).take c))) ∧
    rows.length=reachCount spec rec (recordPaths env st spec cap rec) := by
  unfold expandRecord at h ⊢
  unfold reachCount recordPaths
  cases hsrc : boundNode rec spec.srcAlias with
  | none =>
    rw [hsrc] at h
    rw [←Except.ok.inj h,List.take_nil]
    exact ⟨rfl,rfl⟩
  | some srcId =>
    rw [hsrc] at h
    dsimp only at h ⊢
    simp only [hvar,↓reduceIte] at h ⊢
    cases hlabels : expandLabels st spec srcId with
    | error e =>
      rw [hlabels] at h
      cases h
    | ok labels =>
      rw [hlabels] at h
      cases hpaths : traversePaths st srcId spec.edgeTypes spec.direction (expandSearch env spec cap) with
      | error e =>
        rw [hpaths] at h
        cases h
      | ok paths =>
        rw [hpaths] at h
        have hfirst : traversePaths st srcId spec.edgeTypes spec.direction (expandSearch env spec (some c))=
            .ok (paths.take c) := @traversePaths_capped st spec.edgeTypes spec.direction
              (expandSearch env spec cap) c hcap hpos srcId paths hpaths
        have hrows := gather_single (f := pathRecord st spec rec) h
        rw [hfirst]
        refine ⟨?_,hrows.1⟩
        have htake := hrows.2 ((paths.take c).filter fun path =>
          reaches (boundNode rec spec.dstAlias) path.1).length
        rw [←filter_take_eq] at htake
        exact htake

variable {records done all : Rows}

theorem expandRecords_appends (h : expandRecords env st spec records done=.ok all) : done<+:all := by
  induction records generalizing done with
  | nil => exact Except.ok.inj h▸List.prefix_refl _
  | cons rec rest ih =>
    rw [expandRecords] at h
    cases hcap : spec.resultCap with
    | none =>
      rw [hcap] at h
      dsimp only at h
      obtain ⟨more,hmore,h⟩ := exists_of_bind h
      exact (List.prefix_append done more).trans (ih h)
    | some cap =>
      rw [hcap] at h
      dsimp only at h
      by_cases hfull : cap.toNat≤done.length
      · rw [if_pos hfull] at h
        exact Except.ok.inj h▸List.prefix_refl _
      · rw [if_neg hfull] at h
        obtain ⟨more,hmore,h⟩ := exists_of_bind h
        exact (List.prefix_append done more).trans (ih h)

theorem expandRecords_cons {rest : Rows} (hfew : ∀ cap∈spec.resultCap,done.length<cap.toNat) :
    expandRecords env st spec (rec::rest) done=.ok all ↔
    ∃ more,expandRecord env st spec (remainingCap spec done.length) rec=.ok more ∧
    expandRecords env st spec rest (done++more)=.ok all := by
  have hbind : ∀ {x : Result Rows},(x >>= fun more => expandRecords env st spec rest (done++more))=.ok all ↔
      ∃ more,x=.ok more ∧ expandRecords env st spec rest (done++more)=.ok all := by
    intro x
    cases x with
    | error e | ok more => simp [bind,Except.bind]
  rw [expandRecords,remainingCap]
  cases hcap : spec.resultCap with
  | none => exact hbind
  | some cap =>
    have hbelow := hfew cap hcap
    dsimp only
    rw [if_neg (by omega)]
    exact hbind

theorem expandRecords_full {cap : UInt64} (hcap : spec.resultCap=some cap) (hfull : cap.toNat≤done.length) :
    expandRecords env st spec records done=.ok done := by
  cases records with
  | nil => rfl
  | cons rec rest =>
    rw [expandRecords,hcap]
    dsimp only
    rw [if_pos hfull]

/-- The expansion with another cap. -/
def withCap (spec : ExpandSpec S) (count : UInt64) : ExpandSpec S := {spec with resultCap := some count}

theorem expandRecords_capped (hvar : spec.varLength=true) {count : UInt64}
    (hcap : ∀ k∈spec.resultCap,count.toNat≤k.toNat) (hsafe : CapSafe env st spec count.toNat records done.length)
    (hdone : done.length≤count.toNat) (h : expandRecords env st spec records done=.ok all) :
    expandRecords env st (withCap spec count) records done=.ok (all.take count.toNat) := by
  have hnew : (withCap spec count).resultCap=some count := rfl
  induction records generalizing done with
  | nil =>
    rw [←Except.ok.inj h,List.take_of_length_le hdone]
    rfl
  | cons rec rest ih =>
    have hstop : ∀ {d : Rows},d.length=count.toNat → d<+:all → d=all.take count.toNat := by
      intro d hlen hfront
      rw [←hlen]
      exact List.prefix_iff_eq_take.mp hfront
    by_cases hfull : count.toNat≤done.length
    · rw [expandRecords_full hnew hfull,hstop (by omega) (expandRecords_appends h)]
    · have hfew : ∀ cap∈spec.resultCap,done.length<cap.toNat := fun cap hin => by
        have hle := hcap cap hin
        omega
      have ⟨more,hmore,hrest⟩ := (expandRecords_cons hfew).mp h
      have hleft : ∀ k∈remainingCap spec done.length,count.toNat-done.length≤k := by
        intro k hk
        have ⟨cap,hin,heq⟩ := Option.map_eq_some_iff.mp hk
        have hle := hcap cap hin
        omega
      have ⟨hfirst,hlen⟩ := expandRecord_capped hvar hleft (by omega) hmore
      rw [CapSafe,or_iff_right hfull,←hlen] at hsafe
      have ⟨hmeets,hothers⟩ := hsafe
      have hbound : reachCount spec rec ((recordPaths env st spec (remainingCap spec done.length) rec).take
          (count.toNat-done.length))≤count.toNat-done.length :=
        Nat.le_trans (List.length_filter_le _ _) (List.length_take_le _ _)
      have hnewFew : ∀ cap∈(withCap spec count).resultCap,done.length<cap.toNat := fun cap hin => by
        rw [hnew] at hin
        rw [←Option.some.inj hin]
        omega
      refine (expandRecords_cons hnewFew).mpr ⟨_,hfirst,?_⟩
      by_cases hsmall : more.length≤count.toNat-done.length
      · rw [Nat.min_eq_right hsmall] at hmeets
        rw [List.take_of_length_le hmeets]
        refine ih ?_ ?_ hrest
        · rw [List.length_append]
          exact hothers
        · rw [List.length_append]
          omega
      · rw [Nat.min_eq_left (by omega)] at hmeets
        have hreach : reachCount spec rec ((recordPaths env st spec (remainingCap spec done.length) rec).take
            (count.toNat-done.length))=count.toNat-done.length := by omega
        rw [hreach]
        have hcount : (done++more.take (count.toNat-done.length)).length=count.toNat := by
          rw [List.length_append,List.length_take]
          omega
        have hfront : done++more.take (count.toNat-done.length)<+:all :=
          ((List.prefix_append_right_inj done).mpr (List.take_prefix _ more)).trans
            (expandRecords_appends hrest)
        rw [expandRecords_full hnew (by omega),hstop hcount hfront]

theorem expandRecords_counts (hvar : spec.varLength=true) (hnone : spec.resultCap=none) (count : UInt64)
    (done : Rows) {doneAll : Rows} (h : expandRecords env st spec records doneAll=.ok all) :
    ∃ more kept,all=doneAll++more ∧ expandRecords env st (withCap spec count) records done=.ok (done++kept) ∧
    kept.Sublist more ∧ (done++kept).length=cappedCount env st spec count.toNat records done.length ∧
    more.length=fullCount env st spec records := by
  have hnew : (withCap spec count).resultCap=some count := rfl
  induction records generalizing doneAll done with
  | nil =>
    refine ⟨[],[],?_,by rw [List.append_nil]; rfl,List.Sublist.refl _,by rw [List.append_nil]; rfl,rfl⟩
    rw [List.append_nil]
    exact (Except.ok.inj h).symm
  | cons rec rest ih =>
    have ⟨more,hmore,hrest⟩ := (expandRecords_cons (by simp [hnone])).mp h
    have hremaining : remainingCap spec doneAll.length=none := by
      unfold remainingCap
      rw [hnone]
      rfl
    rw [hremaining] at hmore
    have ⟨others,_,hall,_,_,_,hothers⟩ := ih done hrest
    have hfull : ∀ {c : Nat},0<c → expandRecord env st spec (some c) rec=.ok (more.take
        (reachCount spec rec ((recordPaths env st spec none rec).take c))) ∧
        more.length=reachCount spec rec (recordPaths env st spec none rec) := fun {c} hc =>
      expandRecord_capped hvar (by simp) hc hmore
    have htotal : (more++others).length=fullCount env st spec (rec::rest) := by
      unfold fullCount at hothers ⊢
      rw [List.length_append,hothers,(hfull Nat.one_pos).2,List.map_cons,List.sum_cons]
    by_cases hstop : count.toNat≤done.length
    · refine ⟨more++others,[],?_,?_,List.nil_sublist _,?_,htotal⟩
      · rw [hall,List.append_assoc]
      · rw [List.append_nil,expandRecords_full hnew hstop]
      · rw [List.append_nil,cappedCount,if_pos hstop]
    · have hfew : ∀ cap∈(withCap spec count).resultCap,done.length<cap.toNat := fun cap hin => by
        rw [hnew] at hin
        rw [←Option.some.inj hin]
        omega
      have hone := (hfull (c := count.toNat-done.length) (by omega)).1
      have ⟨others',kept,hall',hkept,hsub,hlen,_⟩ := ih (done++more.take
        (reachCount spec rec ((recordPaths env st spec none rec).take (count.toNat-done.length)))) hrest
      have hsame : others=others' := List.append_cancel_left (hall.symm.trans hall')
      refine ⟨more++others,more.take (reachCount spec rec
        ((recordPaths env st spec none rec).take (count.toNat-done.length)))++kept,?_,?_,?_,?_,htotal⟩
      · rw [hall,List.append_assoc]
      · refine (expandRecords_cons hfew).mpr ⟨_,hone,?_⟩
        rw [hkept,List.append_assoc]
      · rw [hsame]
        exact (List.take_sublist _ more).append hsub
      · have hle : reachCount spec rec ((recordPaths env st spec none rec).take
            (count.toNat-done.length))≤ more.length := by
          rw [(hfull Nat.one_pos).2]
          exact ((List.take_sublist _ _).filter _).length_le
        rw [←List.append_assoc,hlen,List.length_append,List.length_take,Nat.min_eq_left hle,cappedCount,
          if_neg hstop]

theorem checkRowLimit_ok : checkRowLimit env rows=.ok out ↔
    ¬(0<env.maxResultRows ∧ env.maxResultRows< rows.length) ∧ out=rows := by
  unfold checkRowLimit
  by_cases hmany : 0<env.maxResultRows ∧ env.maxResultRows< rows.length
  · rw [if_pos hmany]
    simp [hmany]
  · rw [if_neg hmany]
    simp only [Except.ok.injEq,hmany,not_false_eq_true,true_and]
    exact eq_comm

theorem execExpand_ok : execExpand env st spec records=.ok out ↔ expandRecords env st spec records []=.ok out ∧
    ¬(0<env.maxResultRows ∧ env.maxResultRows<out.length) := by
  unfold execExpand
  cases hrows : expandRecords env st spec records [] with
  | error e => simp [bind,Except.bind]
  | ok rows =>
    have hbind : ((Except.ok rows : Result Rows) >>= checkRowLimit env)=checkRowLimit env rows := rfl
    rw [hbind,checkRowLimit_ok,Except.ok.injEq]
    constructor
    · intro h
      rw [h.2]
      exact ⟨rfl,h.1⟩
    · intro h
      rw [h.1]
      exact ⟨h.2,rfl⟩

theorem within_limit_of_le {m : Nat} (hle : n≤ m) (h : ¬(0<env.maxResultRows ∧ env.maxResultRows< m)) :
    ¬(0<env.maxResultRows ∧ env.maxResultRows<n) := by
  intro hmany
  exact h ⟨hmany.1,by omega⟩

theorem capSafe_of_unbound (h : ∀ rec∈records,boundNode rec spec.dstAlias=none) (done : Nat) :
    CapSafe env st spec n records done := by
  induction records generalizing done with
  | nil => trivial
  | cons rec rest ih =>
    have hfree := h rec List.mem_cons_self
    have hcount : ∀ paths : Frames,reachCount spec rec paths=paths.length := by
      intro paths
      unfold reachCount
      rw [hfree]
      exact congrArg List.length (List.filter_eq_self.mpr fun _ _ => rfl)
    refine Or.inr ⟨?_,ih (fun other hin => h other (List.mem_cons_of_mem _ hin)) _⟩
    rw [hcount,hcount,List.length_take]

end Records

section Plans

variable (env : QueryEnv S)

/-- A limit over a plan whose cap loses no rows of any record. -/
def CapSite (count : UInt64) : LogicalOp S → Store → Prop
  | .rows (.project _ _) input,st => CapSite count input st
  | .expand input spec,st => spec.varLength=true → (∀ k∈spec.resultCap,count.toNat≤k.toNat) →
      ∀ records st',run env input none st=(.ok records,st') → CapSafe env st' spec count.toNat records 0
  | _,_ => True

mutual

/-- Every cap that is pushed is safe wherever a run of the plan reaches it. -/
def LimitSafe : LogicalOp S → Option NamedRecord → Store → Prop
  | .expand input _,outer,st => LimitSafe input outer st
  | .filter input _,outer,st => LimitSafe input outer st
  | .rows op input,outer,st => LimitSafe input (if op.correlates=true then outer else none) st ∧
      ∀ count,op=.limit count → CapSite env count input st
  | .crossProduct left right sameMatch,none,st => LimitSafe left none st ∧
      ∀ lefts st',run env left none st=(.ok lefts,st') →
        AlongFold (fun done l => do
            let rights ← run env right none
            inspect fun _ => limitProduct env done (productRows sameMatch l rights))
          (fun _ s => LimitSafe right none s) lefts [] st'
  | .crossProduct left right sameMatch,some outer,st => LimitSafe left (some outer) st ∧
      ∀ lefts st',run env left (some outer) st=(.ok lefts,st') →
        AlongMap (fun l => do
            let rights ← run env right (some (NamedRecord.overlay outer l))
            pure (productRows sameMatch l rights))
          (fun l s => LimitSafe right (some (NamedRecord.overlay outer l)) s) lefts st'
  | .correlatedJoin input right sameMatch,outer,st => LimitSafe input outer st ∧
      ∀ lefts st',run env input outer st=(.ok lefts,st') →
        AlongMap (fun l => do
            let rights ← run env right (some (joinScope outer l))
            pure (joinRows sameMatch l rights))
          (fun l s => LimitSafe right (some (joinScope outer l)) s) lefts st'
  | .leftOuterJoin input right optionalAliases optFilter,_,st => LimitSafe input none st ∧
      ∀ lefts st',run env input none st=(.ok lefts,st') →
        AlongMap (fun l => do
            let rights ← run env right (some l)
            inspect fun st => leftOuterRows env st optionalAliases optFilter l rights)
          (fun l s => LimitSafe right (some l) s) lefts st'
  | .union inputs _,_,st => LimitSafeAll inputs st
  | .singleRow,_,_ => True
  | .emptyRow,_,_ => True
  | .scan _ _,_,_ => True
  | .idLookup _ _,_,_ => True
  | .indexLookup _ _ _ _ _,_,_ => True
  | .fullTextLookup _ _ _ _ _ _,_,_ => True
  | .source _,_,_ => True
termination_by structural plan => plan

/-- The inputs of a union are safe in the states in which they run. -/
def LimitSafeAll : List (LogicalOp S) → Store → Prop
  | [],_ => True
  | plan::rest,st => LimitSafe plan none st ∧
      ∀ rows st',run env plan none st=(.ok rows,st') → LimitSafeAll rest st'
termination_by structural plans => plans

end

/-- A run that returns all rows of another one, or the first of them. -/
def FollowsFirst (count : UInt64) (x y : Except GraphError Rows×Store) : Prop :=
  ∀ rows st',y=(.ok rows,st') →
    ∃ first,x=(.ok first,st') ∧ (first=rows ∨ first=rows.take count.toNat)

variable {count : UInt64} {input input' : LogicalOp S} {st : Store}

theorem FollowsFirst.of_follows {x y : Except GraphError Rows×Store} (h : Follows x y) : FollowsFirst count x y := fun rows st' hrun => ⟨rows,h rows st' hrun,Or.inl rfl⟩

variable (floatText : UInt64 → String) {env}

theorem run_project (items : List (ReturnItem S)) (emitCompound : Bool) (input : LogicalOp S) :
    run (withProjections env floatText) (.rows (.project items emitCompound) input) none=(do
      let records ← run (withProjections env floatText) input none
      inspect fun st => execProject env.eval floatText st items emitCompound records) := by
  rw [run_rows,ite_self]
  rfl

theorem run_limit (count : UInt64) (input : LogicalOp S) (outer : Option NamedRecord) :
    run (withProjections env floatText) (.rows (.limit count) input) outer=(do
      let records ← run (withProjections env floatText) input none
      pure (records.take count.toNat)) := by
  rw [run_rows]
  rfl

theorem followsFirst_project {items : List (ReturnItem S)} {emitCompound : Bool}
    (h : FollowsFirst count (run (withProjections env floatText) input' none st)
      (run (withProjections env floatText) input none st)) :
    FollowsFirst count (run (withProjections env floatText) (.rows (.project items emitCompound) input') none st)
      (run (withProjections env floatText) (.rows (.project items emitCompound) input) none st) := by
  intro rows st' hrun
  rw [run_project] at hrun ⊢
  have ⟨records,s,hinput,hproject⟩ := ok_of_bind hrun
  have ⟨first,hfirst,hrows⟩ := h records s hinput
  rw [bind_ok hfirst]
  have ⟨hvalue,hstate⟩ := Prod.mk.inj hproject
  rw [hstate] at hvalue ⊢
  cases hrows with
  | inl hall =>
    rw [hall]
    exact ⟨rows,Prod.ext hvalue rfl,Or.inl rfl⟩
  | inr hsome =>
    rw [hsome]
    exact ⟨rows.take count.toNat,Prod.ext ((gather_single hvalue).2 count.toNat) rfl,Or.inr rfl⟩

theorem followsFirst_expand {spec : ExpandSpec S} (hvar : spec.varLength=true)
    (hinput : Follows (run env input' none st) (run env input none st))
    (hsite : CapSite env count (.expand input spec) st) :
    FollowsFirst count (run env (.expand input' (tighten count spec)) none st)
    (run env (.expand input spec) none st) := by
  intro rows st' hrun
  rw [run_expand] at hrun ⊢
  have ⟨records,s,hrecords,hexpand⟩ := ok_of_bind hrun
  rw [bind_ok (hinput records s hrecords)]
  have ⟨hvalue,hstate⟩ := Prod.mk.inj hexpand
  rw [hstate] at hrecords hvalue ⊢
  by_cases hcap : ∀ k∈spec.resultCap,count.toNat≤k.toNat
  · have htight : tighten count spec=withCap spec count := by
      unfold tighten withCap
      cases hold : spec.resultCap with
      | none => rfl
      | some k =>
        dsimp only
        by_cases hle : k ≤ count
        · have hsame : k=count := UInt64.le_antisymm hle (UInt64.le_iff_toNat_le.mpr (hcap k hold))
          rw [if_pos hle,hsame]
        · rw [if_neg hle]
    have hsafe := hsite hvar hcap records st' hrecords
    have ⟨hrows,hlimit⟩ := execExpand_ok.mp hvalue
    have hfirst := expandRecords_capped hvar hcap hsafe (Nat.zero_le _) hrows
    rw [htight]
    refine ⟨rows.take count.toNat,Prod.ext (execExpand_ok.mpr ⟨hfirst,?_⟩) rfl,Or.inr rfl⟩
    exact within_limit_of_le (List.length_take_le' _ _) hlimit
  · have htight : tighten count spec=spec := by
      have ⟨k,hold,hless⟩ : ∃ k,spec.resultCap=some k ∧ ¬count.toNat≤k.toNat := by
        by_contra hnone
        exact hcap fun k hk => by_contra fun hless => hnone ⟨k,hk,hless⟩
      have hle : k ≤ count := UInt64.le_iff_toNat_le.mpr (by omega)
      unfold tighten
      rw [hold]
      dsimp only
      rw [if_pos hle,←hold]
    rw [htight]
    exact ⟨rows,Prod.ext hvalue rfl,Or.inl rfl⟩

mutual

theorem follows_push (plan : LogicalOp S) (outer : Option NamedRecord) (st : Store)
    (h : LimitSafe (withProjections env floatText) plan outer st) :
    Follows (run (withProjections env floatText) (pushLimitIntoVarLengthExpand plan) outer st)
      (run (withProjections env floatText) plan outer st) := by
  cases plan with
  | expand input spec =>
    rw [LimitSafe] at h
    rw [pushLimitIntoVarLengthExpand,run_expand,run_expand]
    exact Follows.bind (follows_push input outer st h) fun _ _ _ => Follows.refl _
  | filter input predicate =>
    rw [LimitSafe] at h
    rw [pushLimitIntoVarLengthExpand,run_filter,run_filter]
    exact Follows.bind (follows_push input outer st h) fun _ _ _ => Follows.refl _
  | rows op input =>
    rw [LimitSafe] at h
    rw [pushLimitIntoVarLengthExpand]
    by_cases hlimit : ∃ count,op=.limit count
    · have ⟨count,hop⟩ := hlimit
      have hsite := h.2 count hop
      rw [hop] at h ⊢
      have hfirst := followsFirst_push count input st h.1 hsite
      intro rows st' hrun
      rw [run_limit] at hrun ⊢
      have ⟨records,s,hinput,hpure⟩ := ok_of_bind hrun
      have ⟨first,hrunFirst,hrows⟩ := hfirst records s hinput
      rw [pushLimit,bind_ok hrunFirst,←hpure]
      cases hrows with
      | inl hall => rw [hall]
      | inr hsome => rw [hsome,List.take_take,Nat.min_self]
    · have hother : pushLimit op (pushLimitIntoVarLengthExpand input)=pushLimitIntoVarLengthExpand input := by
        cases op with
        | limit count => exact absurd ⟨count,rfl⟩ hlimit
        | _ => rfl
      rw [hother,run_rows,run_rows]
      exact Follows.bind (follows_push input _ st h.1) fun _ _ _ => Follows.refl _
  | crossProduct left right sameMatch =>
    cases outer with
    | none =>
      rw [LimitSafe] at h
      rw [pushLimitIntoVarLengthExpand,run_crossProduct_plain,run_crossProduct_plain]
      refine Follows.bind (follows_push left none st h.1) fun lefts st' hrun => ?_
      refine follows_foldEach (fun done l s hs => ?_) (h.2 lefts st' hrun)
      exact Follows.bind (follows_push right none s hs) fun _ _ _ => Follows.refl _
    | some record =>
      rw [LimitSafe] at h
      rw [pushLimitIntoVarLengthExpand,run_crossProduct_outer,run_crossProduct_outer]
      refine Follows.bind (follows_push left (some record) st h.1) fun lefts st' hrun => ?_
      refine Follows.bind (follows_mapEach (fun l s hs => ?_) (h.2 lefts st' hrun))
        fun _ _ _ => Follows.refl _
      exact Follows.bind (follows_push right _ s hs) fun _ _ _ => Follows.refl _
  | correlatedJoin input right sameMatch =>
    rw [LimitSafe] at h
    rw [pushLimitIntoVarLengthExpand,run_correlatedJoin,run_correlatedJoin]
    refine Follows.bind (follows_push input outer st h.1) fun lefts st' hrun => ?_
    refine Follows.bind (follows_mapEach (fun l s hs => ?_) (h.2 lefts st' hrun))
      fun _ _ _ => Follows.refl _
    exact Follows.bind (follows_push right _ s hs) fun _ _ _ => Follows.refl _
  | leftOuterJoin input right optionalAliases optFilter =>
    rw [LimitSafe] at h
    rw [pushLimitIntoVarLengthExpand,run_leftOuterJoin,run_leftOuterJoin]
    refine Follows.bind (follows_push input none st h.1) fun lefts st' hrun => ?_
    refine Follows.bind (follows_mapEach (fun l s hs => ?_) (h.2 lefts st' hrun))
      fun _ _ _ => Follows.refl _
    exact Follows.bind (follows_push right _ s hs) fun _ _ _ => Follows.refl _
  | union inputs all =>
    rw [LimitSafe] at h
    rw [pushLimitIntoVarLengthExpand,run_union,run_union]
    exact Follows.bind (follows_pushAll inputs st h) fun _ _ _ => Follows.refl _
  | _ =>
    rw [pushLimitIntoVarLengthExpand]
    exact Follows.refl _
termination_by (sizeOf plan,0)

theorem followsFirst_push (count : UInt64) (plan : LogicalOp S) (st : Store)
    (h : LimitSafe (withProjections env floatText) plan none st)
    (hsite : CapSite (withProjections env floatText) count plan st) :
    FollowsFirst count
      (run (withProjections env floatText)
        (findPushdownTarget (tighten count) (pushLimitIntoVarLengthExpand plan)) none st)
      (run (withProjections env floatText) plan none st) := by
  by_cases htarget : (∃ items emitCompound input,plan=.rows (.project items emitCompound) input) ∨
      ∃ input spec,plan=.expand input spec
  · rcases htarget with ⟨items,emitCompound,input,hplan⟩ | ⟨input,spec,hplan⟩
    · subst hplan
      rw [LimitSafe,ite_self] at h
      rw [CapSite] at hsite
      rw [pushLimitIntoVarLengthExpand]
      exact followsFirst_project floatText (followsFirst_push count input st h.1 hsite)
    · subst hplan
      have hinput : LimitSafe (withProjections env floatText) input none st := by
        rw [LimitSafe] at h
        exact h
      rw [pushLimitIntoVarLengthExpand,findPushdownTarget]
      by_cases hvar : spec.varLength=true
      · rw [if_pos hvar]
        exact followsFirst_expand hvar (follows_push input none st hinput) hsite
      · rw [if_neg hvar,run_expand,run_expand]
        exact FollowsFirst.of_follows
          (Follows.bind (follows_push input none st hinput) fun _ _ _ => Follows.refl _)
  · rw [findPushdownTarget_pushed (fun items emitCompound input heq =>
        htarget (Or.inl ⟨items,emitCompound,input,heq⟩))
      fun input spec heq => htarget (Or.inr ⟨input,spec,heq⟩)]
    exact FollowsFirst.of_follows (follows_push plan none st h)
termination_by (sizeOf plan,1)

theorem follows_pushAll (plans : List (LogicalOp S)) (st : Store)
    (h : LimitSafeAll (withProjections env floatText) plans st) :
    Follows (runAll (withProjections env floatText) (pushLimits plans) st)
      (runAll (withProjections env floatText) plans st) := by
  cases plans with
  | nil =>
    rw [pushLimits]
    exact Follows.refl _
  | cons plan rest =>
    rw [LimitSafeAll] at h
    rw [pushLimits,runAll_cons,runAll_cons]
    refine Follows.bind (follows_push plan none st h.1) fun rows st' hrun => ?_
    exact Follows.bind (follows_pushAll rest st' (h.2 rows st' hrun)) fun _ _ _ => Follows.refl _
termination_by (sizeOf plans,0)

end

/-- The variable-length expansion below projections, with its input. -/
def pushdownTarget : LogicalOp S → Option (LogicalOp S×ExpandSpec S)
  | .rows (.project _ _) input => pushdownTarget input
  | .expand input spec => if spec.varLength=true then some (input,spec) else none
  | _ => none

/-- A cap below projections returns a part of the rows, as many as its searches find. -/
theorem capped_counts (count : UInt64) {plan input : LogicalOp S} {spec : ExpandSpec S} {st : Store}
    (htarget : pushdownTarget plan=some (input,spec)) (hnone : spec.resultCap=none)
    (hinput : LimitSafe (withProjections env floatText) input none st) {all : Rows} {st' : Store}
    (hrun : run (withProjections env floatText) plan none st=(.ok all,st')) :
    ∃ records kept,run (withProjections env floatText) input none st=(.ok records,st') ∧
      run (withProjections env floatText)
        (findPushdownTarget (tighten count) (pushLimitIntoVarLengthExpand plan)) none st=(.ok kept,st') ∧
      kept.Sublist all ∧
      kept.length=cappedCount (withProjections env floatText) st' spec count.toNat records 0 ∧
      all.length=fullCount (withProjections env floatText) st' spec records := by
  induction plan using pushdownTarget.induct generalizing all with
  | case1 items emitCompound inner ih =>
    rw [pushdownTarget] at htarget
    rw [run_project] at hrun
    have ⟨rows,s,hinner,hproject⟩ := ok_of_bind hrun
    have ⟨hvalue,hstate⟩ := Prod.mk.inj hproject
    rw [hstate] at hinner hvalue
    have ⟨records,kept,hrecords,hkept,hsub,hcount,hfull⟩ := ih htarget hinner
    have ⟨out,hout,hsubOut,hlen⟩ := gather_single_sublist hsub hvalue
    have hsame : pushLimit (.project items emitCompound) (pushLimitIntoVarLengthExpand inner)=
        pushLimitIntoVarLengthExpand inner := rfl
    rw [pushLimitIntoVarLengthExpand,hsame,findPushdownTarget,run_project]
    refine ⟨records,out,hrecords,?_,hsubOut,hlen.trans hcount,(gather_single hvalue).1.trans hfull⟩
    rw [bind_ok hkept]
    exact Prod.ext hout rfl
  | case2 inner own hvar =>
    rw [pushdownTarget,if_pos hvar] at htarget
    have ⟨hin,hspec⟩ := Prod.mk.inj (Option.some.inj htarget)
    rw [hin,hspec,run_expand] at hrun
    rw [hin,hspec,pushLimitIntoVarLengthExpand,findPushdownTarget,if_pos (hspec▸hvar),run_expand]
    have ⟨records,s,hrecords,hexpand⟩ := ok_of_bind hrun
    have ⟨hvalue,hstate⟩ := Prod.mk.inj hexpand
    rw [hstate] at hrecords hvalue
    have ⟨hrows,hlimit⟩ := execExpand_ok.mp hvalue
    have ⟨more,kept,hall,hkept,hsub,hcount,hfull⟩ :=
      expandRecords_counts (hspec▸hvar) hnone count [] hrows
    rw [List.nil_append] at hall hkept hcount
    have htight : tighten count spec=withCap spec count := by
      unfold tighten withCap
      rw [hnone]
    refine ⟨records,kept,hrecords,?_,hall▸hsub,hcount,hall▸hfull⟩
    rw [bind_ok (follows_push floatText input none st hinput records st' hrecords),htight]
    refine Prod.ext (execExpand_ok.mpr ⟨hkept,within_limit_of_le (hall▸hsub.length_le) hlimit⟩) rfl
  | case3 inner own hvar =>
    rw [pushdownTarget,if_neg hvar] at htarget
    cases htarget
  | case4 plan hproject hexpand =>
    rw [pushdownTarget] at htarget
    · cases htarget
    · exact hproject
    · exact hexpand

/-- A plan whose caps lose no rows of any record where a run reaches them returns, with
its limits pushed, the rows it returned without, in the same order and leaving the same
state. A limit over a variable-length expansion returns with the cap a part of the rows
that the expansion has without, and as many as the limit lets through exactly when the
capped searches find as many paths to the destination as there are or as the limit
lets through. -/
theorem pushLimit_preserves_iff (env : QueryEnv S) (plan : LogicalOp S) (outer : Option NamedRecord)
    (st : Store) :
    (LimitSafe (withProjections env floatText) plan outer st → ∀ rows st',
      run (withProjections env floatText) plan outer st=(.ok rows,st') →
      run (withProjections env floatText) (pushLimitIntoVarLengthExpand plan) outer st=(.ok rows,st')) ∧
    ∀ count chain input spec,plan=.rows (.limit count) chain → pushdownTarget chain=some (input,spec) →
      spec.resultCap=none → LimitSafe (withProjections env floatText) input none st →
      ∀ all st',run (withProjections env floatText) chain none st=(.ok all,st') →
      ∃ records rows,run (withProjections env floatText) input none st=(.ok records,st') ∧
        run (withProjections env floatText) (pushLimitIntoVarLengthExpand plan) outer st=(.ok rows,st') ∧
        rows.Sublist all ∧
        (rows.length=min count.toNat all.length ↔
          min count.toNat (fullCount (withProjections env floatText) st' spec records) ≤
            cappedCount (withProjections env floatText) st' spec count.toNat records 0) := by
  refine ⟨fun h rows st' hrun => follows_push floatText plan outer st h rows st' hrun,?_⟩
  intro count chain input spec hplan htarget hnone hinput all st' hrun
  have ⟨records,kept,hrecords,hkept,hsub,hcount,hfull⟩ :=
    capped_counts floatText count htarget hnone hinput hrun
  refine ⟨records,kept.take count.toNat,hrecords,?_,(List.take_sublist _ kept).trans hsub,?_⟩
  · rw [hplan,pushLimitIntoVarLengthExpand,run_limit]
    exact bind_ok hkept
  · have hle := hsub.length_le
    rw [List.length_take,←hcount,←hfull]
    omega

end Plans

/-- Two nodes with a relationship each way. -/
def cycleStore : Store :=
  (createEdge 2 1 "R" [] (createEdge 1 2 "R" [] (createNode [] [] (createNode [] [] freshStore).2).2).2).2

/-- The first row of the nodes reached from a node over one or two relationships. -/
def walkPlan (dst : String) : LogicalOp Empty :=
  .rows (.limit 1) (.rows (.project [⟨.var "a",none⟩] true)
    (.expand (.scan "" "a") ⟨"a",dst,some "_anon_rel_0",[],.outgoing,1,2,true,[],none⟩))

/-- The sample environment with projections and limits. -/
def walkEnv : QueryEnv Empty := withProjections plainEnv fun _ => ""

/-- Rows of the scan of the two nodes. -/
def cycleRows : Rows := [nodeToRecord ⟨1,[],[]⟩ "a",nodeToRecord ⟨2,[],[]⟩ "a"]

theorem walkPlan_safe : LimitSafe walkEnv (walkPlan "b") none cycleStore := by
  rw [walkPlan,LimitSafe,LimitSafe,LimitSafe,LimitSafe]
  refine ⟨⟨trivial,fun count h => absurd h (by simp)⟩,fun count hcount => ?_⟩
  rw [CapSite,CapSite]
  intro _ _ records st' hrun
  have hrows : run walkEnv (.scan "" "a") none cycleStore=(.ok cycleRows,cycleStore) := rfl
  rw [hrows] at hrun
  rw [←Except.ok.inj (Prod.mk.inj hrun).1]
  apply capSafe_of_unbound
  intro rec hrec
  rcases List.mem_cons.mp hrec with heq | hrest
  · rw [heq]
    rfl
  · rw [List.mem_singleton.mp hrest]
    rfl

/-- The limit of the sample plan is kept. -/
theorem walkPlan_preserved : ∀ rows st',run walkEnv (walkPlan "b") none cycleStore=(.ok rows,st') →
    run walkEnv (pushLimitIntoVarLengthExpand (walkPlan "b")) none cycleStore=(.ok rows,st') :=
  (pushLimit_preserves_iff (fun _ => "") plainEnv (walkPlan "b") none cycleStore).1 walkPlan_safe

/-- With the start as the destination, the cap counts a path that misses it and the row
gets lost. -/
theorem pushLimit_loses_row :
    rowCount (run walkEnv (walkPlan "a") none cycleStore)=some 1 ∧
      rowCount (run walkEnv (pushLimitIntoVarLengthExpand (walkPlan "a")) none cycleStore)=some 0 := by
  have hall : rowCount (run walkEnv (walkPlan "a") none cycleStore)=some 1 := by decide
  have hpushed : rowCount (run walkEnv (pushLimitIntoVarLengthExpand (walkPlan "a")) none cycleStore)=
      some 0 := by decide
  exact ⟨hall,hpushed⟩

end GraphDbLite.LimitPushdown
