import GraphDbLite.PatternPlan
import GraphDbLite.IdRewrite

/-!
# Optional matches

An optional match runs its pattern under every row of its input and returns the
matches that pass its filter, or the row with nulls for the variables that the pattern
introduces. A variable that is null in the row matches nothing. Scans and identifier
lookups check this; index lookups, full-text lookups and expansions take such a
variable for an unbound one.
-/

namespace GraphDbLite.OptionalMatch

open GraphTypes OrderedTable StatefulActions GraphStore SecondaryIndex WriteOperators
open CypherSyntax QueryPlan FallibleLists QueryExecutor NodeRecords IndexAccess
open SameOutcomes IdRewrite PatternPlan

variable {S : Type}

/-- Whether a variable of a pattern is null in a row. -/
def nullShared (vars : List String) (l : NamedRecord) : Bool := vars.any fun v => boundNull l v

/-- A row extended by null for some variables. -/
structure NullExtension (vars : List String) (l row : NamedRecord) : Prop where
  /-- The variables are null. -/
  nulls : ∀ v∈vars,row.get v=some .null
  /-- Fields that do not belong to them are those of the row. -/
  others : ∀ key,(∀ v∈vars,key≠v ∧ ∀ suffix,key≠v++("."++suffix)) → row.get key=l.get key

/-- Fields that a missing match sets to null. -/
def nullKeys (optionalAliases : List String) : List String :=
  optionalAliases.flatMap fun v =>
    v::["__id","__labels","__src","__dst","__type"].map fun suffix => v++("."++suffix)

theorem nullFill_eq (optionalAliases : List String) (l : NamedRecord) :
    nullFill optionalAliases l=(nullKeys optionalAliases).foldl (fun rec key => rec.set key .null) l := by
  unfold nullFill nullKeys
  induction optionalAliases generalizing l with
  | nil => rfl
  | cons v rest ih =>
    rw [List.foldl_cons,ih,List.flatMap_cons,List.foldl_append]
    rfl

theorem get_foldl_null (keys : List String) (rec : NamedRecord) (name : String) :
    (keys.foldl (fun rec key => rec.set key .null) rec).get name=
      if name∈keys then some .null else rec.get name := by
  induction keys generalizing rec with
  | nil => rfl
  | cons key rest ih =>
    rw [List.foldl_cons,ih,get_set]
    by_cases hrest : name∈rest
    · rw [if_pos hrest,if_pos (List.mem_cons_of_mem key hrest)]
    · rw [if_neg hrest]
      by_cases hkey : name=key
      · rw [if_pos hkey,if_pos (List.mem_cons.mpr (Or.inl hkey))]
      · rw [if_neg hkey,if_neg fun hin => (List.mem_cons.mp hin).elim hkey hrest]

theorem nullFill_extends (optionalAliases : List String) (l : NamedRecord) :
    NullExtension optionalAliases l (nullFill optionalAliases l) := by
  rw [nullFill_eq]
  constructor
  · intro v hv
    rw [get_foldl_null,if_pos]
    exact List.mem_flatMap.mpr ⟨v,hv,List.mem_cons_self⟩
  · intro key hkey
    rw [get_foldl_null,if_neg]
    intro hin
    have ⟨v,hv,hof⟩ := List.mem_flatMap.mp hin
    cases List.mem_cons.mp hof with
    | inl heq => exact (hkey v hv).1 heq
    | inr hdotted =>
      have ⟨suffix,_,heq⟩ := List.mem_map.mp hdotted
      exact (hkey v hv).2 suffix heq.symm

section Rows

variable (env : QueryEnv S)

/-- Matches of a pattern for one row that pass the filter: the row filled from each
match. -/
def matchedRows (st : Store) (optFilter : Option (Expr S)) (l : NamedRecord) (rights : Rows) :
    Result Rows := sieve (passesFilter env st optFilter) (joinRows false l rights)

/-- What a mandatory match of the pattern returns for one row; there is no match for a
variable that is null. -/
def mandatoryRows (st : Store) (vars : List String) (optFilter : Option (Expr S)) (l : NamedRecord)
    (rights : Rows) : Result Rows :=
  (matchedRows env st optFilter l rights).map fun rows => if nullShared vars l=true then [] else rows

/-- What an optional match returns for one row: the mandatory matches, or the row with
nulls. -/
def optionalRow (right : LogicalOp S) (vars optionalAliases : List String) (optFilter : Option (Expr S))
    (l : NamedRecord) : Db Rows := do
  let rights ← run env right (some l)
  inspect fun st => (mandatoryRows env st vars optFilter l rights).map fun rows =>
    if rows.isEmpty=true then [nullFill optionalAliases l] else rows

/-- What the join computes for one row. -/
def outerRow (right : LogicalOp S) (optionalAliases : List String) (optFilter : Option (Expr S))
    (l : NamedRecord) : Db Rows := do
  let rights ← run env right (some l)
  inspect fun st => leftOuterRows env st optionalAliases optFilter l rights

/-- The pattern, run under a row, has no match that passes, or only the row with
nulls. -/
def Unmatched (right : LogicalOp S) (optionalAliases : List String) (optFilter : Option (Expr S))
    (l : NamedRecord) (st : Store) : Prop :=
  ∀ rights st',run env right (some l) st=(.ok rights,st') →
    ∀ rows,matchedRows env st' optFilter l rights=.ok rows →
      rows=[] ∨ rows=[nullFill optionalAliases l]

/-- A plan that reads a null variable through a scan or an identifier lookup before it
returns a row. -/
def NullStops : LogicalOp S → NamedRecord → Store → Prop
  | .scan _ nodeAlias,outer,_ => boundNull outer nodeAlias=true
  | .idLookup nodeAlias _,outer,_ => boundNull outer nodeAlias=true
  | .expand input _,outer,st => NullStops input outer st
  | .filter input _,outer,st => NullStops input outer st
  | .crossProduct left right sameMatch,outer,st => NullStops left outer st ∨
      ∀ lefts st',run env left (some outer) st=(.ok lefts,st') →
        AlongMap (fun l => do
            let rights ← run env right (some (NamedRecord.overlay outer l))
            pure (productRows sameMatch l rights))
          (fun l s => NullStops right (NamedRecord.overlay outer l) s) lefts st'
  | .correlatedJoin input right sameMatch,outer,st => NullStops input outer st ∨
      ∀ lefts st',run env input (some outer) st=(.ok lefts,st') →
        AlongMap (fun l => do
            let rights ← run env right (some (joinScope (some outer) l))
            pure (joinRows sameMatch l rights))
          (fun l s => NullStops right (joinScope (some outer) l) s) lefts st'
  | .rows op input,outer,st => op.correlates=true ∧ NullStops input outer st ∧
      ∀ s,env.rowOp op (some outer) [] s=(.ok [],s)
  | _,_,_ => False
termination_by structural plan => plan

variable {env} {st : Store}

theorem joinRows_false (l : NamedRecord) (rights : Rows) :
    joinRows false l rights=rights.map fun r => NamedRecord.fillFrom l r := by
  rw [joinRows_eq]
  simp

theorem run_mandatoryMatch {input right : LogicalOp S} {predicate : Expr S} {l : NamedRecord}
    {st' : Store} (h : run env input none st=(.ok [l],st')) :
    run env (.filter (.correlatedJoin input right false) predicate) none st=
      (do
        let rights ← run env right (some l)
        inspect fun s => matchedRows env s (some predicate) l rights : Db Rows) st' := by
  have hjoin : run env (.correlatedJoin input right false) none st=
      (do
        let rights ← run env right (some l)
        pure (joinRows false l rights) : Db Rows) st' := by
    have hscope : joinScope none l=l := rfl
    rw [run_correlatedJoin,bind_ok h,mapEach,mapEach]
    simp only [bind_apply,hscope]
    cases run env right (some l) st' with
    | mk out s =>
      cases out with
      | error e => rfl
      | ok rights =>
        have hflat : [joinRows false l rights].flatten=joinRows false l rights := by simp
        exact congrArg (fun rows => (Except.ok rows,s)) hflat
  rw [run_filter,bind_apply,hjoin]
  simp only [bind_apply]
  cases run env right (some l) st' with
  | mk out s =>
    cases out with
    | error e | ok rights => rfl

theorem leftOuterRows_eq (st : Store) (optionalAliases : List String) (optFilter : Option (Expr S))
    (l : NamedRecord) (rights : Rows) :
    leftOuterRows env st optionalAliases optFilter l rights=
      (matchedRows env st optFilter l rights).map fun rows =>
        if rows.isEmpty=true then [nullFill optionalAliases l] else rows := by
  unfold leftOuterRows matchedRows
  rw [joinRows_false]
  cases sieve (passesFilter env st optFilter) (rights.map fun r => NamedRecord.fillFrom l r) with
  | error e | ok rows => rfl

/-- The join returns for a row what an optional match returns exactly when no variable
of the pattern is null in the row or the pattern has no match there. -/
theorem outerRow_eq_iff (right : LogicalOp S) (vars optionalAliases : List String)
    (optFilter : Option (Expr S)) (l : NamedRecord) (st : Store) :
    outerRow env right optionalAliases optFilter l st=
        optionalRow env right vars optionalAliases optFilter l st ↔
      (nullShared vars l=true → Unmatched env right optionalAliases optFilter l st) := by
  unfold outerRow optionalRow Unmatched
  rw [bind_apply,bind_apply]
  cases hright : run env right (some l) st with
  | mk out st' =>
    cases out with
    | error e => exact iff_of_true rfl fun _ rights s h => absurd (Prod.mk.inj h).1 (by simp)
    | ok rights =>
      dsimp only [inspect]
      rw [leftOuterRows_eq]
      unfold mandatoryRows
      cases hmatched : matchedRows env st' optFilter l rights with
      | error e =>
        refine iff_of_true rfl fun _ other s h rows hrows => ?_
        have hsame := Prod.mk.inj h
        rw [←Except.ok.inj hsame.1,←hsame.2,hmatched] at hrows
        cases hrows
      | ok rows =>
        cases hnull : nullShared vars l with
        | false => exact iff_of_true rfl fun h => absurd h (by simp)
        | true =>
          constructor
          · intro heq _ other s h found hfound
            have hsame := Prod.mk.inj h
            rw [←Except.ok.inj hsame.1,←hsame.2,hmatched] at hfound
            rw [←Except.ok.inj hfound]
            have hrows := Except.ok.inj (Prod.mk.inj heq).1
            cases hempty : rows.isEmpty with
            | true => exact Or.inl (List.isEmpty_iff.mp hempty)
            | false =>
              dsimp only at hrows
              rw [if_neg (by rw [hempty]; simp)] at hrows
              exact Or.inr hrows
          · intro h
            cases h rfl rights st' rfl rows hmatched with
            | inl hnil =>
              rw [hnil]
              rfl
            | inr hone =>
              rw [hone]
              rfl

theorem boundNode_of_null {outer : NamedRecord} {var : String} (h : boundNull outer var=true) :
    boundNode outer var=none := by
  unfold boundNull at h
  unfold boundNode
  cases hget : outer.get var with
  | none => rfl
  | some v =>
    rw [hget] at h
    cases v with
    | null => rfl
    | _ => cases h

/-- A join whose left side has no rows, or whose right side stops at every left row,
has no rows. -/
theorem joined_nil {right : LogicalOp S} {scope : NamedRecord → NamedRecord}
    {combine : NamedRecord → Rows → Rows} (hcombine : ∀ l,combine l []=[])
    (hright : ∀ record s rights s',NullStops env right record s →
      run env right (some record) s=(.ok rights,s') → rights=[])
    {lefts : Rows} {s s' : Store}
    (hstop : lefts=[] ∨ AlongMap (fun l => do
        let rights ← run env right (some (scope l))
        pure (combine l rights)) (fun l s => NullStops env right (scope l) s) lefts s)
    {rows : Rows}
    (hrun : (do
      let parts ← mapEach lefts fun l => do
        let rights ← run env right (some (scope l))
        pure (combine l rights)
      pure parts.flatten : Db Rows) s=(.ok rows,s')) : rows=[] := by
  have ⟨parts,s₁,hparts,hpure⟩ := ok_of_bind hrun
  have hrows : parts.flatten=rows := Except.ok.inj (Prod.mk.inj hpure).1
  rw [←hrows]
  cases hstop with
  | inl hnil =>
    rw [hnil] at hparts
    rw [←Except.ok.inj (Prod.mk.inj hparts).1]
    rfl
  | inr halong =>
    refine flatten_mapEach_nil (fun l s₂ hl part s₃ hstep => ?_) halong hparts
    have ⟨rights,s₄,hrights,hpart⟩ := ok_of_bind hstep
    rw [hright (scope l) s₂ rights s₄ hl hrights,hcombine] at hpart
    exact (Except.ok.inj (Prod.mk.inj hpart).1).symm

theorem rows_of_nullStops (plan : LogicalOp S) {outer : NamedRecord} {st st' : Store} {rows : Rows}
    (h : NullStops env plan outer st) (hrun : run env plan (some outer) st=(.ok rows,st')) : rows=[] := by
  cases plan with
  | scan label nodeAlias =>
    rw [NullStops] at h
    have hleaf : scanRows env st label nodeAlias (some outer)=.ok rows := (Prod.mk.inj hrun).1
    unfold scanRows at hleaf
    dsimp only at hleaf
    rw [boundNode_of_null h,h] at hleaf
    exact (Except.ok.inj hleaf).symm
  | idLookup nodeAlias valueExpr =>
    rw [NullStops] at h
    have hleaf : idLookupRows env st nodeAlias valueExpr (some outer)=.ok rows := (Prod.mk.inj hrun).1
    unfold idLookupRows at hleaf
    dsimp only at hleaf
    rw [boundNode_of_null h,h] at hleaf
    exact (Except.ok.inj hleaf).symm
  | expand input spec =>
    rw [NullStops] at h
    rw [run_expand] at hrun
    have ⟨records,s,hinput,hrows⟩ := ok_of_bind hrun
    rw [rows_of_nullStops input h hinput] at hrows
    have hexpand : expandRows env s spec (some outer) []=.ok rows := (Prod.mk.inj hrows).1
    unfold expandRows gather checkRowLimit at hexpand
    dsimp only at hexpand
    rw [bind_of_ok rfl,if_neg (by simp)] at hexpand
    exact (Except.ok.inj hexpand).symm
  | filter input predicate =>
    rw [NullStops] at h
    rw [run_filter] at hrun
    have ⟨records,s,hinput,hrows⟩ := ok_of_bind hrun
    rw [rows_of_nullStops input h hinput] at hrows
    exact (Except.ok.inj (Prod.mk.inj hrows).1).symm
  | crossProduct left right sameMatch =>
    rw [NullStops] at h
    rw [run_crossProduct_outer] at hrun
    have ⟨lefts,s,hleft,hjoin⟩ := ok_of_bind hrun
    refine joined_nil (fun l => by simp [productRows,uniqueWithin])
      (fun record s₁ rights s₂ hs hr => rows_of_nullStops right hs hr) ?_ hjoin
    exact h.imp (fun hstop => rows_of_nullStops left hstop hleft) fun hstop => hstop lefts s hleft
  | correlatedJoin input right sameMatch =>
    rw [NullStops] at h
    rw [run_correlatedJoin] at hrun
    have ⟨lefts,s,hleft,hjoin⟩ := ok_of_bind hrun
    refine joined_nil (fun l => by simp [joinRows,uniqueWithin])
      (fun record s₁ rights s₂ hs hr => rows_of_nullStops right hs hr) ?_ hjoin
    exact h.imp (fun hstop => rows_of_nullStops input hstop hleft) fun hstop => hstop lefts s hleft
  | rows op input =>
    rw [NullStops] at h
    rw [run_rows,if_pos h.1] at hrun
    have ⟨records,s,hinput,hrows⟩ := ok_of_bind hrun
    rw [rows_of_nullStops input h.2.1 hinput,h.2.2 s] at hrows
    exact (Except.ok.inj (Prod.mk.inj hrows).1).symm
  | _ => exact False.elim h
termination_by sizeOf plan

theorem unmatched_of_nullStops {right : LogicalOp S} {optionalAliases : List String}
    {optFilter : Option (Expr S)} {l : NamedRecord} (h : NullStops env right l st) :
    Unmatched env right optionalAliases optFilter l st := by
  intro rights st' hrun rows hrows
  rw [rows_of_nullStops right h hrun] at hrows
  exact Or.inl (Except.ok.inj hrows).symm

/-- The rows of an optional match: for each row of the input in order, its matches or
the row with nulls. -/
def optionalMatch (env : QueryEnv S) (input right : LogicalOp S) (vars aliases : List String)
    (optFilter : Option (Expr S)) : Db Rows := do
  let lefts ← run env input none
  let parts ← mapEach lefts (optionalRow env right vars aliases optFilter)
  pure parts.flatten

end Rows

/-- A database with two persons of the same name and an index on the name. -/
def twinStore : Store :=
  (createCompositeIndex shortFrame "Person" ["name"]
    (execCreateNode plainWrites ["Person"] (some "n") [("name",.string "x")] personStore).2).2

/-- The pattern of a person with the given inline properties. -/
def personPattern (properties : List (String×Expr Empty)) : List (Pattern Empty) :=
  [⟨[.node ⟨some "n",["Person"],properties⟩],none,.none⟩]

/-- An input with one row in which the variable is null: an optional match that found
nothing. -/
def ghostInput : LogicalOp Empty := .leftOuterJoin .singleRow (.scan "Ghost" "n") ["n"] none

end GraphDbLite.OptionalMatch
