import GraphDbLite.StatefulActions

/-!
# Cells, their copies and the last write

A run takes steps on a state with cells. A step that leaves a cell alone leaves
its copies as good as they were, and a step that writes the cell makes them good
exactly when it is shown by all of them. After a run the copies of a cell are
then good exactly when its last write was shown. A loop over rows that rewrites
every row by the same items is such a run, one step for each row and item.
-/

namespace GraphDbLite.LastWrites

open StatefulActions

section Runs

variable {σ τ γ : Type} (step : τ → σ → Option σ)

/-- Take steps in order; a step that fails ends the run. -/
def runSteps : List τ → σ → Option σ
  | [],s => some s
  | t::rest,s => (step t s).bind (runSteps rest)

/-- Every step that a run reaches meets a condition. -/
def StepsMeet (guard : σ → τ → Prop) : List τ → σ → Prop
  | [],_ => True
  | t::rest,s => guard s t ∧ ∀ s',step t s=some s' → StepsMeet guard rest s'

/-- Some step of a run writes a cell. -/
def WrittenLater (writes : σ → τ → γ → Prop) (cell : γ) : List τ → σ → Prop
  | [],_ => False
  | t::rest,s => ∃ s',step t s=some s' ∧ (writes s t cell ∨ WrittenLater writes cell rest s')

/-- The last step of a run that writes a cell is shown by all copies. -/
def LastShown (writes shown : σ → τ → γ → Prop) (cell : γ) : List τ → σ → Prop
  | [],_ => True
  | t::rest,s => ∀ s',step t s=some s' →
    (writes s t cell → ¬WrittenLater step writes cell rest s' → shown s t cell) ∧
      LastShown writes shown cell rest s'

variable {step}

theorem runSteps_append {first second : List τ} {s s₁ : σ} (h : runSteps step first s=some s₁) :
    runSteps step (first++second) s=runSteps step second s₁ := by
  induction first generalizing s with
  | nil =>
    rw [List.nil_append,Option.some.inj h]
  | cons t rest ih =>
    have ⟨s',hstep,hrest⟩ := Option.bind_eq_some_iff.mp h
    rw [List.cons_append,runSteps,hstep,Option.bind_some]
    exact ih hrest

theorem runSteps_keeps {I : σ → Prop} {guard : σ → τ → Prop}
    (hkeep : ∀ s t s',I s → guard s t → step t s=some s' → I s') {steps : List τ} {s s' : σ}
    (hs : I s) (hmeet : StepsMeet step guard steps s) (h : runSteps step steps s=some s') : I s' := by
  induction steps generalizing s with
  | nil =>
    rw [←Option.some.inj h]
    exact hs
  | cons t rest ih =>
    have ⟨s₁,hstep,hrest⟩ := Option.bind_eq_some_iff.mp h
    exact ih (hkeep s t s₁ hs hmeet.1 hstep) (hmeet.2 s₁ hstep) hrest

section Copies

variable {I : σ → Prop} {guard : σ → τ → Prop} {writes shown : σ → τ → γ → Prop} {good : σ → γ → Prop}
  {cell : γ}

theorem runSteps_unwritten (hkeep : ∀ s t s',I s → guard s t → step t s=some s' → I s')
    (hsame : ∀ s t s',I s → guard s t → step t s=some s' → ¬writes s t cell →
      (good s' cell ↔ good s cell)) {steps : List τ} {s s' : σ} (hs : I s)
    (hmeet : StepsMeet step guard steps s) (h : runSteps step steps s=some s')
    (hnever : ¬WrittenLater step writes cell steps s) :
    (good s' cell ↔ good s cell) ∧ LastShown step writes shown cell steps s := by
  induction steps generalizing s with
  | nil =>
    rw [←Option.some.inj h]
    exact ⟨Iff.rfl,trivial⟩
  | cons t rest ih =>
    have ⟨s₁,hstep,hrest⟩ := Option.bind_eq_some_iff.mp h
    have hnow : ¬writes s t cell := fun hw => hnever ⟨s₁,hstep,Or.inl hw⟩
    have hlater : ¬WrittenLater step writes cell rest s₁ := fun hw => hnever ⟨s₁,hstep,Or.inr hw⟩
    have ⟨hgood,hlast⟩ := ih (hkeep s t s₁ hs hmeet.1 hstep) (hmeet.2 s₁ hstep) hrest hlater
    refine ⟨hgood.trans (hsame s t s₁ hs hmeet.1 hstep hnow),fun s₂ hs₂ => ?_⟩
    rw [←Option.some.inj (hstep.symm.trans hs₂)]
    exact ⟨fun hw => absurd hw hnow,hlast⟩

/-- After a run the copies of a cell are good exactly when its last write was
shown, provided they were good before or the cell is written at all. -/
theorem runSteps_good_iff (hkeep : ∀ s t s',I s → guard s t → step t s=some s' → I s')
    (hsame : ∀ s t s',I s → guard s t → step t s=some s' → ¬writes s t cell →
      (good s' cell ↔ good s cell))
    (hwrite : ∀ s t s',I s → guard s t → step t s=some s' → writes s t cell →
      (good s' cell ↔ shown s t cell)) {steps : List τ} {s s' : σ} (hs : I s)
    (hmeet : StepsMeet step guard steps s) (h : runSteps step steps s=some s')
    (hstart : good s cell ∨ WrittenLater step writes cell steps s) :
    good s' cell ↔ LastShown step writes shown cell steps s := by
  induction steps generalizing s with
  | nil =>
    rw [←Option.some.inj h]
    have hgood : good s cell := hstart.resolve_right fun hw => hw
    exact ⟨fun _ => trivial,fun _ => hgood⟩
  | cons t rest ih =>
    have ⟨s₁,hstep,hrest⟩ := Option.bind_eq_some_iff.mp h
    have hs₁ := hkeep s t s₁ hs hmeet.1 hstep
    have hmeet₁ := hmeet.2 s₁ hstep
    have hcons : LastShown step writes shown cell (t::rest) s ↔
        (writes s t cell → ¬WrittenLater step writes cell rest s₁ → shown s t cell) ∧
          LastShown step writes shown cell rest s₁ := by
      constructor
      · exact fun hall => hall s₁ hstep
      · intro hone s₂ hs₂
        rw [←Option.some.inj (hstep.symm.trans hs₂)]
        exact hone
    rw [hcons]
    by_cases hlater : WrittenLater step writes cell rest s₁
    · have htail := ih hs₁ hmeet₁ hrest (Or.inr hlater)
      exact ⟨fun hgood => ⟨fun _ hnot => absurd hlater hnot,htail.mp hgood⟩,
        fun hboth => htail.mpr hboth.2⟩
    · have hrun : (good s' cell ↔ good s₁ cell) ∧ LastShown step writes shown cell rest s₁ :=
        runSteps_unwritten hkeep hsame hs₁ hmeet₁ hrest hlater
      have ⟨hgood,hlast⟩ := hrun
      by_cases hw : writes s t cell
      · have hhead := hwrite s t s₁ hs hmeet.1 hstep hw
        exact ⟨fun h' => ⟨fun _ _ => hhead.mp (hgood.mp h'),hlast⟩,
          fun hboth => hgood.mpr (hhead.mpr (hboth.1 hw hlater))⟩
      · have hbefore : good s cell := hstart.resolve_right fun hlist => by
          have ⟨s₂,hs₂,hor⟩ := hlist
          rw [←Option.some.inj (hstep.symm.trans hs₂)] at hor
          exact hor.elim hw hlater
        have hhead := hsame s t s₁ hs hmeet.1 hstep hw
        exact ⟨fun _ => ⟨fun hw' => absurd hw' hw,hlast⟩,fun _ => hgood.mpr (hhead.mpr hbefore)⟩

end Copies

end Runs

section Batches

variable {σ ε α ι : Type}

/-- Rows with the state that they share. -/
structure Batch (σ α : Type) where
  /-- The rows. -/
  rows : List α
  /-- The shared state. -/
  state : σ

/-- Rewrite one row by one item. -/
def stepRow (body : α → ι → Action σ ε α) (t : Nat×ι) (b : Batch σ α) : Option (Batch σ α) :=
  match b.rows[t.1]? with
  | none => none
  | some row =>
    match body row t.2 b.state with
    | (.ok row',s') => some ⟨b.rows.set t.1 row',s'⟩
    | (.error _,_) => none

/-- All items on one row after the other. -/
def schedule (items : List ι) : Nat → Nat → List (Nat×ι)
  | _,0 => []
  | start,count+1 => items.map (fun item => (start,item))++schedule items (start+1) count

variable {body : α → ι → Action σ ε α}

theorem stepRow_cases {t : Nat×ι} {b b' : Batch σ α} (h : stepRow body t b=some b') :
    ∃ row row' s',b.rows[t.1]?=some row ∧ body row t.2 b.state=(.ok row',s') ∧
      b'=⟨b.rows.set t.1 row',s'⟩ := by
  unfold stepRow at h
  cases hrow : b.rows[t.1]? with
  | none =>
    rw [hrow] at h
    cases h
  | some row =>
    rw [hrow] at h
    dsimp only at h
    cases hrun : body row t.2 b.state with
    | mk outcome s' =>
      rw [hrun] at h
      cases outcome with
      | error e => cases h
      | ok row' => exact ⟨row,row',s',rfl,hrun,(Option.some.inj h).symm⟩

variable {rows before after : List α} {row row' : α} {s s' : σ} {items : List ι}

theorem forall_rows_set {i : Nat} (h : rows[i]?=some row) {P : Nat → α → Prop} :
    (∀ k r,(rows.set i row')[k]?=some r → P k r) ↔ ∀ k r,rows[k]?=some r → P k (if k=i then row' else r) := by
  have hlt : i< rows.length := (List.getElem?_eq_some_iff.mp h).1
  constructor
  · intro hall k r hr
    by_cases hk : k=i
    · rw [if_pos hk]
      exact hall k row' (by rw [hk,List.getElem?_set_self hlt])
    · rw [if_neg hk]
      exact hall k r (by rw [List.getElem?_set_ne (Ne.symm hk),hr])
  · intro hall k r hr
    by_cases hk : k=i
    · rw [hk,List.getElem?_set_self hlt] at hr
      have hone := hall i row h
      rw [if_pos rfl,Option.some.inj hr] at hone
      rw [hk]
      exact hone
    · rw [List.getElem?_set_ne (Ne.symm hk)] at hr
      have hone := hall k r hr
      rw [if_neg hk] at hone
      exact hone

theorem stepRow_at {item : ι} (h : body row item s=(.ok row',s')) :
    stepRow body (before.length,item) ⟨before++row::after,s⟩=some ⟨before++row'::after,s'⟩ := by
  unfold stepRow
  have hget : (before++row::after)[before.length]?=some row := by simp
  have hset : (before++row::after).set before.length row'=before++row'::after := by simp
  dsimp only
  rw [hget]
  dsimp only
  rw [h]
  dsimp only
  rw [hset]

theorem foldEach_runSteps {out : α} (h : foldEach items row body s=(.ok out,s')) : runSteps (stepRow body)
    (items.map fun item => (before.length,item)) ⟨before++row::after,s⟩= some ⟨before++out::after,s'⟩ := by
  induction items generalizing row s with
  | nil =>
    have ⟨hout,hst⟩ := Prod.mk.inj h
    rw [←Except.ok.inj hout,←hst]
    rfl
  | cons item rest ih =>
    have ⟨next,s₁,hfirst,hrest⟩ := ok_of_bind h
    rw [List.map_cons,runSteps,stepRow_at hfirst,Option.bind_some]
    exact ih hrest

theorem mapEach_runSteps (before : List α) {out : List α}
    (h : mapEach rows (fun row => foldEach items row body) s=(.ok out,s')) :
    runSteps (stepRow body) (schedule items before.length rows.length) ⟨before++rows,s⟩= some ⟨before++out,s'⟩ := by
  induction rows generalizing before s out with
  | nil =>
    have ⟨hout,hst⟩ := Prod.mk.inj h
    rw [←Except.ok.inj hout,←hst]
    rfl
  | cons row rest ih =>
    have ⟨first,s₁,hfirst,hmore⟩ := ok_of_bind h
    have ⟨others,s₂,hothers,hlast⟩ := ok_of_bind hmore
    have ⟨hout,hst⟩ := Prod.mk.inj hlast
    rw [hst] at hothers
    have hlen : (before++[first]).length=before.length+1 := by simp
    have htail : runSteps (stepRow body) (schedule items (before++[first]).length rest.length)
        ⟨(before++[first])++rest,s₁⟩=some ⟨(before++[first])++others,s'⟩ := ih (before++[first]) hothers
    rw [hlen,List.append_assoc,List.append_assoc] at htail
    rw [List.length_cons,schedule,runSteps_append (foldEach_runSteps hfirst),←Except.ok.inj hout]
    exact htail

end Batches

section Sequences

variable {σ ε α ι : Type} {I good : α → σ → Prop} {guard cond : σ → α → ι → Prop}
  {body : α → ι → Action σ ε α}

/-- Every state that a guarded sequence reaches is good exactly when all of its
steps that succeed meet the condition under which one step stays good. -/
theorem reached_good_iff
    (hstep : ∀ s a i a' s',I a s → good a s → guard s a i → body a i s=(.ok a',s') →
      I a' s' ∧ (good a' s' ↔ cond s a i)) {items : List ι} {a : α} {s : σ} (hI : I a s)
    (hgood : good a s) (hguard : FoldMeets guard body items a s) :
    (∀ first rest out s',items=first++rest → foldEach first a body s=(.ok out,s') → good out s') ↔
      FoldMeets (fun s a i => (body a i s).1.isOk=true → cond s a i) body items a s := by
  induction items generalizing a s with
  | nil =>
    refine ⟨fun _ => trivial,fun _ first rest out s' hsplit hrun => ?_⟩
    have hfirst : first=[] := (List.append_eq_nil_iff.mp hsplit.symm).1
    rw [hfirst] at hrun
    have ⟨hout,hs⟩ := Prod.mk.inj hrun
    rw [←Except.ok.inj hout,←hs]
    exact hgood
  | cons item more ih =>
    constructor
    · intro hall
      have hhead : ∀ a' s',body a item s=(.ok a',s') → I a' s' ∧ good a' s' ∧ cond s a item := by
        intro a' s' hrun
        have ⟨hI',hiff⟩ := hstep s a item a' s' hI hgood hguard.1 hrun
        have hone : foldEach [item] a body s=(.ok a',s') := by
          rw [foldEach_cons,hrun]
          rfl
        have hgood' := hall [item] more a' s' rfl hone
        exact ⟨hI',hgood',hiff.mp hgood'⟩
      refine ⟨fun hok => ?_,fun a' s' hrun => ?_⟩
      · cases hrun : body a item s with
        | mk outcome s' =>
          rw [hrun] at hok
          cases outcome with
          | error e => cases hok
          | ok a' => exact (hhead a' s' hrun).2.2
      · have ⟨hI',hgood',_⟩ := hhead a' s' hrun
        refine (ih hI' hgood' (hguard.2 a' s' hrun)).mp fun first rest out s'' hsplit hfold => ?_
        refine hall (item::first) rest out s'' (by rw [hsplit,List.cons_append]) ?_
        rw [foldEach_cons,hrun]
        exact hfold
    · intro hmeet first rest out s' hsplit hrun
      cases first with
      | nil =>
        have ⟨hout,hs⟩ := Prod.mk.inj hrun
        rw [←Except.ok.inj hout,←hs]
        exact hgood
      | cons other tail =>
        have ⟨hitem,htail⟩ := List.cons.inj hsplit
        rw [←hitem] at hrun
        have ⟨a',s₁,hfirst,hfold⟩ := ok_of_bind hrun
        have ⟨hI',hiff⟩ := hstep s a item a' s₁ hI hgood hguard.1 hfirst
        have hcond : cond s a item := hmeet.1 (by rw [hfirst]; rfl)
        exact (ih hI' (hiff.mpr hcond) (hguard.2 a' s₁ hfirst)).mpr (hmeet.2 a' s₁ hfirst) tail rest out s'
          htail hfold

end Sequences

end GraphDbLite.LastWrites
