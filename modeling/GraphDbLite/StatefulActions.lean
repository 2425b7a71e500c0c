import Mathlib.Logic.Basic

/-!
# Fallible actions on a state, and guarded runs

An action reads and writes a state and may stop with an error; the writes made
before the error stay. Sequencing stops at the first error. An invariant kept by
the parts of an action is kept by the action and by loops over it. A run applies
steps one after the other; an invariant kept by every step whose guard holds in
the state before it holds along every guarded run.
-/

namespace GraphDbLite.StatefulActions

variable {σ ε α β ι : Type}

/-- State transformer that returns a result or an error, always with a state. -/
def Action (σ ε α : Type) := σ → Except ε α×σ

/-- Return a value without touching the state. -/
def Action.pure (a : α) : Action σ ε α := fun s => (.ok a,s)

/-- Run one action, then the next on its result; an error skips the rest. -/
def Action.bind (m : Action σ ε α) (f : α → Action σ ε β) : Action σ ε β := fun s =>
  match m s with
  | (.ok a,s') => f a s'
  | (.error e,s') => (.error e,s')

/-- Actions compose by stopping at the first error. -/
instance : Monad (Action σ ε) where
  pure := Action.pure
  bind := Action.bind

/-- Stop with an error, keeping the state. -/
def fail (e : ε) : Action σ ε α := fun s => (.error e,s)

/-- Compute a result, or an error, from the state alone. -/
def inspect (f : σ → Except ε α) : Action σ ε α := fun s => (f s,s)

/-- Replace the state. -/
def update (f : σ → σ) : Action σ ε Unit := fun s => (.ok (),f s)

/-- Ignore the error of an action but keep what it wrote. -/
def attempt (m : Action σ ε α) : Action σ ε Unit := fun s => (.ok (),(m s).2)

/-- A returned value leaves the state. -/
@[simp] theorem pure_apply (a : α) (s : σ) : (Pure.pure a : Action σ ε α) s=(.ok a,s) := rfl

theorem bind_apply (m : Action σ ε α) (f : α → Action σ ε β) (s : σ) :
    (m >>= f) s=match m s with
      | (.ok a,s') => f a s'
      | (.error e,s') => (.error e,s') := rfl

variable {m : Action σ ε α} {f : α → Action σ ε β} {a : α} {g : α → Action σ ε β} {I : σ → Prop} {s : σ}
  {items : List ι} {body : α → ι → Action σ ε α} {Q : ε → Prop} {guard : σ → ι → Prop} {step : σ → ι → σ}
  {steps : List ι}

theorem bind_ok {s s' : σ} (h : m s=(.ok a,s')) : (m >>= f) s=f a s' := by
  rw [bind_apply,h]

theorem bind_error {s s' : σ} {e : ε} (h : m s=(.error e,s')) : (m >>= f) s=(.error e,s') := by
  rw [bind_apply,h]

theorem ok_of_bind {s s' : σ} {b : β} (h : (m >>= f) s=(.ok b,s')) : ∃ a s₁,m s=(.ok a,s₁) ∧ f a s₁=(.ok b,s') := by
  rw [bind_apply] at h
  cases hm : m s with
  | mk out s₁ =>
    rw [hm] at h
    cases out with
    | error e => exact absurd (Prod.mk.inj h).1 (by simp)
    | ok a => exact ⟨a,s₁,rfl,h⟩

/-- Running a failing action. -/
@[simp] theorem fail_apply (e : ε) (s : σ) : (fail e : Action σ ε α) s=(.error e,s) := rfl

/-- Running an inspection. -/
@[simp] theorem inspect_apply (f : σ → Except ε α) (s : σ) : inspect f s=(f s,s) := rfl

theorem inspect_ok {g : σ → Except ε α} {s : σ} {a : α} (h : g s=.ok a) : (inspect g >>= f) s=f a s :=
  bind_ok (by rw [inspect_apply,h])

theorem inspect_error {g : σ → Except ε α} {s : σ} {e : ε} (h : g s=.error e) : (inspect g >>= f) s=(.error e,s) :=
  bind_error (by rw [inspect_apply,h])

/-- Running an update. -/
@[simp] theorem update_apply (f : σ → σ) (s : σ) : (update f : Action σ ε Unit) s=(.ok (),f s) := rfl

theorem ok_of_inspect {f : σ → Except ε α} {s s' : σ} {b : β} (h : (inspect f >>= g) s=(.ok b,s')) :
    ∃ a,f s=.ok a ∧ g a s=(.ok b,s') := by
  have ⟨a,s₁,hfirst,hrest⟩ := ok_of_bind h
  have ⟨ha,hs⟩ := Prod.mk.inj hfirst
  rw [←hs] at hrest
  exact ⟨a,ha,hrest⟩

theorem after_inspect {f : σ → Except ε α} {s s' : σ} {a : α} {b : β} (h : (inspect f >>= g) s=(.ok b,s'))
    (ha : f s=.ok a) : g a s=(.ok b,s') := by
  have ⟨a₁,ha₁,hrest⟩ := ok_of_inspect h
  rw [←Except.ok.inj (ha₁.symm.trans ha)]
  exact hrest

/-- Running an action whose error is ignored. -/
@[simp] theorem attempt_apply (m : Action σ ε α) (s : σ) : attempt m s=(.ok (),(m s).2) := rfl

/-- Whether a run succeeded, and the state it left. -/
def settled (r : Except ε α×σ) : Bool×σ := (r.1.isOk,r.2)

theorem settled_then_pure (m : Action σ ε α) (f : α → β) (s : σ) :
    settled ((m >>= fun a => Pure.pure (f a)) s)=settled (m s) := by
  rw [bind_apply]
  cases m s with
  | mk outcome s' =>
    cases outcome with
    | ok a | error e => rfl

/-- An action keeps an invariant when no outcome leaves it, errors included. -/
def Keeps (I : σ → Prop) (m : Action σ ε α) : Prop := ∀ s,I s → I (m s).2

theorem keeps_pure (I : σ → Prop) (a : α) : Keeps I (Pure.pure a : Action σ ε α) := fun _ h => h

theorem keeps_fail (I : σ → Prop) (e : ε) : Keeps I (fail e : Action σ ε α) := fun _ h => h

theorem keeps_inspect (I : σ → Prop) (f : σ → Except ε α) : Keeps I (inspect f) := fun _ h => h

theorem keeps_update {f : σ → σ} (h : ∀ s,I s → I (f s)) : Keeps I (update f : Action σ ε Unit) := h

theorem keeps_bind (hm : Keeps I m) (hf : ∀ a,Keeps I (f a)) : Keeps I (m >>= f) := by
  intro s hs
  have hi := hm s hs
  rw [bind_apply]
  cases h : m s with
  | mk outcome s' =>
    rw [h] at hi
    cases outcome with
    | ok a => exact hf a s' hi
    | error e => exact hi

theorem inspect_bind {f : σ → Except ε α} (hs : I s) (h : ∀ a,f s=.ok a → I (g a s).2) : I ((inspect f >>= g) s).2 := by
  cases hf : f s with
  | ok a =>
    rw [bind_ok (show inspect f s=(.ok a,s) by rw [inspect_apply,hf])]
    exact h a hf
  | error e =>
    rw [bind_error (show inspect f s=(.error e,s) by rw [inspect_apply,hf])]
    exact hs

theorem bind_keeps (hm : I (m s).2) (hf : ∀ a s',m s=(.ok a,s') → I s' → I (f a s').2) : I ((m >>= f) s).2 := by
  rw [bind_apply]
  cases hrun : m s with
  | mk outcome s' =>
    rw [hrun] at hm
    cases outcome with
    | ok a => exact hf a s' hrun hm
    | error e => exact hm

theorem keeps_reading {g : σ → Except ε α} (h : ∀ a,Keeps I (f a)) : Keeps I (inspect g >>= f) :=
  keeps_bind (keeps_inspect I g) h

theorem keeps_then_pure (h : I (m s).2) (f : α → β) : I ((m >>= fun a => Pure.pure (f a)) s).2 := by
  rw [bind_apply]
  cases hm : m s with
  | mk outcome s' =>
    rw [hm] at h
    cases outcome with
    | ok a | error e => exact h

theorem keeps_attempt (hm : Keeps I m) : Keeps I (attempt m) := hm

/-- A loop over a list stops at the first error. -/
def forEach (items : List ι) (body : ι → Action σ ε Unit) : Action σ ε Unit :=
  match items with
  | [] => Pure.pure ()
  | item::rest => body item >>= fun _ => forEach rest body

theorem keeps_forEach {body : ι → Action σ ε Unit} (h : ∀ item∈items,Keeps I (body item)) :
    Keeps I (forEach items body) := by
  induction items with
  | nil => exact keeps_pure I ()
  | cons item rest ih =>
    apply keeps_bind (h item List.mem_cons_self)
    intro _
    exact ih fun other ho => h other (List.mem_cons_of_mem _ ho)

/-- A loop that rewrites every item and collects the results. -/
def mapEach (items : List ι) (body : ι → Action σ ε α) : Action σ ε (List α) :=
  match items with
  | [] => Pure.pure []
  | item::rest => do
    let first ← body item
    let others ← mapEach rest body
    Pure.pure (first::others)

theorem keeps_mapEach {body : ι → Action σ ε α} (h : ∀ item∈items,Keeps I (body item)) :
    Keeps I (mapEach items body) := by
  induction items with
  | nil => exact keeps_pure I []
  | cons item rest ih =>
    apply keeps_bind (h item List.mem_cons_self)
    intro first
    apply keeps_bind (ih fun other ho => h other (List.mem_cons_of_mem _ ho))
    intro others
    exact keeps_pure I _

/-- An action that returns and leaves the state as it is. -/
def Rests (m : Action σ ε α) (s : σ) : Prop := ∃ a,m s=(.ok a,s)

theorem Rests.bind (hm : Rests m s) (hf : ∀ a,m s=(.ok a,s) → Rests (f a) s) : Rests (m >>= f) s := by
  have ⟨a,ha⟩ := hm
  have ⟨b,hb⟩ := hf a ha
  exact ⟨b,by rw [bind_ok ha,hb]⟩

theorem Rests.after (hm : m s=(.ok a,s)) (hf : Rests (f a) s) : Rests (m >>= f) s := by
  refine Rests.bind ⟨a,hm⟩ fun b hb => ?_
  rw [←Except.ok.inj (Prod.mk.inj (hm.symm.trans hb)).1]
  exact hf

theorem rests_mapEach {body : ι → Action σ ε α} (h : ∀ item∈items,Rests (body item) s) :
    Rests (mapEach items body) s := by
  induction items with
  | nil => exact ⟨[],rfl⟩
  | cons item rest ih =>
    refine (h item List.mem_cons_self).bind fun first _ => ?_
    exact (ih fun other ho => h other (List.mem_cons_of_mem _ ho)).bind fun others _ => ⟨first::others,rfl⟩

/-- After a loop whose body settles its item and unsettles none, all items are settled. -/
theorem mapEach_settles {done : ι → σ → Prop} {body : ι → Action σ ε α}
    (hstep : ∀ i∈items,∀ s a s',I s → body i s=(.ok a,s') → I s' ∧ done i s' ∧ ∀ j,done j s → done j s')
    {s s' : σ} {out : List α} (hs : I s) (h : mapEach items body s=(.ok out,s')) :
    I s' ∧ (∀ i∈items,done i s') ∧ ∀ j,done j s → done j s' := by
  induction items generalizing s out with
  | nil =>
    have ⟨_,hst⟩ := Prod.mk.inj h
    rw [←hst]
    exact ⟨hs,fun _ hi => absurd hi List.not_mem_nil,fun _ hj => hj⟩
  | cons item rest ih =>
    have ⟨first,s₁,hfirst,hmore⟩ := ok_of_bind h
    have ⟨others,s₂,hothers,hlast⟩ := ok_of_bind hmore
    have ⟨_,hst⟩ := Prod.mk.inj hlast
    rw [hst] at hothers
    have ⟨hs₁,hdone,hkeep⟩ := hstep item List.mem_cons_self s first s₁ hs hfirst
    have ⟨hs',hall,hkeeps⟩ := ih (fun i hi => hstep i (List.mem_cons_of_mem _ hi)) hs₁ hothers
    refine ⟨hs',fun i hi => ?_,fun j hj => hkeeps j (hkeep j hj)⟩
    rcases List.mem_cons.mp hi with hhead|htail
    · rw [hhead]
      exact hkeeps item hdone
    · exact hall i htail

/-- A loop that threads an accumulator. -/
def foldEach (items : List ι) (start : α) (body : α → ι → Action σ ε α) : Action σ ε α :=
  match items with
  | [] => Pure.pure start
  | item::rest => body start item >>= fun next => foldEach rest next body

/-- A rewriting loop over an accumulating loop with one item each settles like
the item. -/
theorem settled_single (item : ι) (start : α) (body : α → ι → Action σ ε α) (s : σ) :
    settled (mapEach [start] (fun a => foldEach [item] a body) s)=settled (body start item s) :=
  (settled_then_pure _ _ s).trans (settled_then_pure _ _ s)

theorem keeps_foldEach {start : α} (h : ∀ a,∀ item∈items,Keeps I (body a item)) :
    Keeps I (foldEach items start body) := by
  induction items generalizing start with
  | nil => exact keeps_pure I start
  | cons item rest ih =>
    apply keeps_bind (h start item List.mem_cons_self)
    intro next
    exact ih fun a other ho => h a other (List.mem_cons_of_mem _ ho)

/-- Every item that an accumulating loop reaches meets a condition on the state
and accumulator in which it is reached. -/
def FoldMeets (guard : σ → α → ι → Prop) (body : α → ι → Action σ ε α) : List ι → α → σ → Prop
  | [],_,_ => True
  | item::rest,a,s =>
    guard s a item ∧ ∀ a' s',body a item s=(.ok a',s') → FoldMeets guard body rest a' s'

/-- Every item that a rewriting loop reaches meets a condition on the state in
which it is reached. -/
def MapMeets (guard : σ → ι → Prop) (body : ι → Action σ ε α) : List ι → σ → Prop
  | [],_ => True
  | item::rest,s => guard s item ∧ ∀ a s',body item s=(.ok a,s') → MapMeets guard body rest s'

/-- Every item that a loop reaches meets a condition on the state in which it is
reached. -/
def EachMeets (guard : σ → ι → Prop) (body : ι → Action σ ε Unit) : List ι → σ → Prop
  | [],_ => True
  | item::rest,s => guard s item ∧ ∀ s',body item s=(.ok (),s') → EachMeets guard body rest s'

/-- Whatever an action returns meets a condition with the state that it leaves. -/
def Then (m : Action σ ε α) (P : α → σ → Prop) (s : σ) : Prop := ∀ a s',m s=(.ok a,s') → P a s'

/-- Marks left by the items that an accumulating loop reaches. -/
def foldTrace {τ : Type} (mark : σ → α → ι → List τ) (body : α → ι → Action σ ε α) :
    List ι → α → σ → List τ
  | [],_,_ => []
  | item::rest,a,s => mark s a item++
    match body a item s with
    | (.ok a',s') => foldTrace mark body rest a' s'
    | (.error _,_) => []

/-- Marks left by the items that a rewriting loop reaches. -/
def mapTrace {τ : Type} (mark : σ → ι → List τ) (body : ι → Action σ ε α) : List ι → σ → List τ
  | [],_ => []
  | item::rest,s => mark s item++
    match body item s with
    | (.ok _,s') => mapTrace mark body rest s'
    | (.error _,_) => []

theorem foldEach_cons (item : ι) (rest : List ι) (a : α) (body : α → ι → Action σ ε α) (s : σ) :
    foldEach (item::rest) a body s=
      match body a item s with
      | (.ok a',s') => foldEach rest a' body s'
      | (.error e,s') => (.error e,s') := rfl

theorem mapEach_cons_snd (item : ι) (rest : List ι) (body : ι → Action σ ε α) (s : σ) :
    (mapEach (item::rest) body s).2=
      match body item s with
      | (.ok _,s') => (mapEach rest body s').2
      | (.error _,s') => s' := by
  cases hbody : body item s with
  | mk outcome s' =>
    cases outcome with
    | error e => rw [mapEach,bind_error hbody]
    | ok a =>
      rw [mapEach,bind_ok hbody]
      dsimp only
      cases hrest : mapEach rest body s' with
      | mk outcome' s'' =>
        cases outcome' with
        | error e => rw [bind_error hrest]
        | ok others => rw [bind_ok hrest,pure_apply]

/-- A run whose state and whose error, if there is one, meet conditions. -/
structure Ends (I : σ → Prop) (Q : ε → Prop) (r : Except ε α×σ) : Prop where
  /-- The state that is left. -/
  state : I r.2
  /-- The error that is raised. -/
  error : ∀ e,r.1=.error e → Q e

/-- An action all of whose errors meet a condition. -/
def Raises (Q : ε → Prop) (m : Action σ ε α) : Prop := ∀ s e,(m s).1=.error e → Q e

theorem raises_pure (Q : ε → Prop) (a : α) : Raises Q (Pure.pure a : Action σ ε α) :=
  fun _ _ h => absurd h (by simp)

theorem raises_inspect {f : σ → Except ε α} (h : ∀ s e,f s=.error e → Q e) : Raises Q (inspect f) := h

theorem raises_update (Q : ε → Prop) (f : σ → σ) : Raises Q (update f : Action σ ε Unit) :=
  fun _ _ h => absurd h (by simp)

theorem raises_bind (hm : Raises Q m) (hf : ∀ a,Raises Q (f a)) : Raises Q (m >>= f) := by
  intro s e h
  rw [bind_apply] at h
  cases hrun : m s with
  | mk outcome s' =>
    rw [hrun] at h
    cases outcome with
    | ok a => exact hf a s' e h
    | error e' =>
      have he : e'=e := Except.error.inj h
      exact hm s e (by rw [hrun,he])

theorem raises_foldEach {start : α} (h : ∀ a,∀ item∈items,Raises Q (body a item)) :
    Raises Q (foldEach items start body) := by
  induction items generalizing start with
  | nil => exact raises_pure Q start
  | cons item rest ih =>
    refine raises_bind (h start item List.mem_cons_self) fun next => ?_
    exact ih fun a other hother => h a other (List.mem_cons_of_mem _ hother)

theorem ends_of_keeps (hkeeps : Keeps I m) (hraises : Raises Q m) (hs : I s) : Ends I Q (m s) :=
  ⟨hkeeps s hs,fun e he => hraises s e he⟩

theorem ends_ok (hs : I s) : Ends I Q ((.ok a : Except ε α),s) := ⟨hs,fun _ h => absurd h (by simp)⟩

theorem ends_error {e : ε} (hs : I s) (he : Q e) : Ends I Q ((.error e : Except ε α),s) :=
  ⟨hs,fun e' h => by
    have hsame : e=e' := Except.error.inj h
    rw [←hsame]
    exact he⟩

theorem ends_bind (hm : Ends I Q (m s)) (hf : ∀ a s',m s=(.ok a,s') → Ends I Q (f a s')) : Ends I Q ((m >>= f) s) := by
  rw [bind_apply]
  cases hrun : m s with
  | mk outcome s' =>
    rw [hrun] at hm
    cases outcome with
    | ok a => exact hf a s' hrun
    | error e =>
      refine ⟨hm.state,fun e' he => ?_⟩
      have hsame : e=e' := Except.error.inj he
      exact hm.error e' (by rw [hsame])

theorem ends_inspect {f : σ → Except ε α} (hs : I s) (herror : ∀ e,f s=.error e → Q e)
    (h : ∀ a,f s=.ok a → Ends I Q (g a s)) : Ends I Q ((inspect f >>= g) s) := by
  refine ends_bind ⟨hs,herror⟩ fun a s' hrun => ?_
  have ⟨ha,hs'⟩ := Prod.mk.inj hrun
  rw [←hs']
  exact h a ha

/-- Items that end well under a condition make a loop that ends well when its
items meet the condition. -/
theorem foldMeets_ends {guard : σ → α → ι → Prop} (h : ∀ s a i,I s → guard s a i → Ends I Q (body a i s))
    (hs : I s) (hmeets : FoldMeets guard body items a s) : Ends I Q (foldEach items a body s) := by
  induction items generalizing a s with
  | nil => exact ends_ok hs
  | cons item rest ih =>
    have hone := h s a item hs hmeets.1
    refine ends_bind hone fun a' s' hrun => ?_
    rw [hrun] at hone
    exact ih hone.state (hmeets.2 a' s' hrun)

/-- Items that end well under a condition make a rewriting loop that ends well
when its items meet the condition. -/
theorem mapMeets_ends {body : ι → Action σ ε α} (h : ∀ s i,I s → guard s i → Ends I Q (body i s)) (hs : I s)
    (hmeets : MapMeets guard body items s) : Ends I Q (mapEach items body s) := by
  induction items generalizing s with
  | nil => exact ends_ok hs
  | cons item rest ih =>
    have hone := h s item hs hmeets.1
    refine ends_bind hone fun a s' hrun => ?_
    rw [hrun] at hone
    have hothers := ih hone.state (hmeets.2 a s' hrun)
    refine ends_bind hothers fun others s'' hrest => ?_
    rw [hrest] at hothers
    exact ends_ok hothers.state

/-- Items that keep an invariant under a condition make a loop that keeps it when its
items meet the condition. -/
theorem eachMeets_keeps {body : ι → Action σ ε Unit} (h : ∀ s i,I s → guard s i → I (body i s).2)
    {items : List ι} {s : σ} (hs : I s) (hmeets : EachMeets guard body items s) : I (forEach items body s).2 := by
  induction items generalizing s with
  | nil => exact hs
  | cons item rest ih =>
    refine bind_keeps (h s item hs hmeets.1) fun _ s' hrun hs' => ?_
    exact ih hs' (hmeets.2 s' hrun)

theorem foldMeets_keeps {guard : σ → α → ι → Prop} (h : ∀ s a i,I s → guard s a i → I (body a i s).2) (hs : I s)
    (hmeets : FoldMeets guard body items a s) : I (foldEach items a body s).2 := by
  induction items generalizing a s with
  | nil => exact hs
  | cons item rest ih =>
    refine bind_keeps (h s a item hs hmeets.1) fun a' s' hrun hs' => ?_
    exact ih hs' (hmeets.2 a' s' hrun)

theorem mapMeets_keeps {body : ι → Action σ ε α} (h : ∀ s i,I s → guard s i → I (body i s).2) (hs : I s)
    (hmeets : MapMeets guard body items s) : I (mapEach items body s).2 := by
  induction items generalizing s with
  | nil => exact hs
  | cons item rest ih =>
    refine bind_keeps (h s item hs hmeets.1) fun first s' hrun hs' => ?_
    exact bind_keeps (ih hs' (hmeets.2 first s' hrun)) fun _ _ _ hs'' => hs''

/-- Along an accumulating loop that succeeds, items meet what their success gives. -/
theorem foldMeets_of_ok {guard other : σ → α → ι → Prop}
    (h : ∀ {s a i a' s'},guard s a i → body a i s=(.ok a',s') → other s a i) {a out : α} {s s' : σ}
    (hmeets : FoldMeets guard body items a s) (hrun : foldEach items a body s=(.ok out,s')) :
    FoldMeets other body items a s := by
  induction items generalizing a s with
  | nil => trivial
  | cons item rest ih =>
    have ⟨a₁,s₁,hone,hrest⟩ := ok_of_bind hrun
    refine ⟨h hmeets.1 hone,fun a₂ s₂ hsame => ?_⟩
    have ⟨ha,hs⟩ := Prod.mk.inj (hone.symm.trans hsame)
    rw [←Except.ok.inj ha,←hs]
    exact ih (hmeets.2 a₁ s₁ hone) hrest

theorem mapMeets_of_ok {guard other : σ → ι → Prop} {body : ι → Action σ ε α}
    (h : ∀ {s i a s'},guard s i → body i s=(.ok a,s') → other s i) {out : List α} {s s' : σ}
    (hmeets : MapMeets guard body items s) (hrun : mapEach items body s=(.ok out,s')) : MapMeets other body items s := by
  induction items generalizing s s' out with
  | nil => trivial
  | cons item rest ih =>
    have ⟨a₁,s₁,hone,hrest⟩ := ok_of_bind hrun
    have ⟨others,s₂,hothers,_⟩ := ok_of_bind hrest
    refine ⟨h hmeets.1 hone,fun a₂ s₃ hsame => ?_⟩
    have ⟨_,hs⟩ := Prod.mk.inj (hone.symm.trans hsame)
    rw [←hs]
    exact ih (hmeets.2 a₁ s₁ hone) hothers

theorem eachMeets_of_ok {guard other : σ → ι → Prop} {body : ι → Action σ ε Unit}
    (h : ∀ {s i s'},guard s i → body i s=(.ok (),s') → other s i) {s s' : σ}
    (hmeets : EachMeets guard body items s) (hrun : forEach items body s=(.ok (),s')) : EachMeets other body items s := by
  induction items generalizing s with
  | nil => trivial
  | cons item rest ih =>
    have ⟨u,s₁,hone,hrest⟩ := ok_of_bind hrun
    refine ⟨h hmeets.1 hone,fun s₂ hsame => ?_⟩
    rw [←(Prod.mk.inj (hone.symm.trans hsame)).2]
    exact ih (hmeets.2 s₁ hone) hrest

theorem ends_forEach {body : ι → Action σ ε Unit} (h : ∀ item∈items,∀ s,I s → Ends I Q (body item s))
    (hs : I s) : Ends I Q (forEach items body s) := by
  induction items generalizing s with
  | nil => exact ends_ok hs
  | cons item rest ih =>
    have ⟨hitem,hrest⟩ := List.forall_mem_cons.mp h
    have hone := hitem s hs
    refine ends_bind hone fun _ s' hrun => ?_
    rw [hrun] at hone
    exact ih hrest hone.state

theorem foldMeets_of_forall {guard : σ → α → ι → Prop} (h : ∀ s a i,guard s a i)
    (body : α → ι → Action σ ε α) (items : List ι) (a : α) (s : σ) : FoldMeets guard body items a s := by
  induction items generalizing a s with
  | nil => trivial
  | cons item rest ih => exact ⟨h s a item,fun a' s' _ => ih a' s'⟩

theorem mapMeets_of_forall (h : ∀ s i,guard s i) (body : ι → Action σ ε α) (items : List ι) (s : σ) :
    MapMeets guard body items s := by
  induction items generalizing s with
  | nil => trivial
  | cons item rest ih => exact ⟨h s item,fun _ s' _ => ih s'⟩

theorem FoldMeets.mono {guard other : σ → α → ι → Prop} (h : ∀ s a i,guard s a i → other s a i)
    (hmeets : FoldMeets guard body items a s) : FoldMeets other body items a s := by
  induction items generalizing a s with
  | nil => trivial
  | cons item rest ih => exact ⟨h s a item hmeets.1,fun a' s' hrun => ih (hmeets.2 a' s' hrun)⟩

theorem MapMeets.mono {guard other : σ → ι → Prop} (h : ∀ s i,guard s i → other s i) {body : ι → Action σ ε α}
    (hmeets : MapMeets guard body items s) : MapMeets other body items s := by
  induction items generalizing s with
  | nil => trivial
  | cons item rest ih => exact ⟨h s item hmeets.1,fun a s' hrun => ih (hmeets.2 a s' hrun)⟩

theorem EachMeets.mono {guard other : σ → ι → Prop} (h : ∀ s i,guard s i → other s i)
    {body : ι → Action σ ε Unit} (hmeets : EachMeets guard body items s) : EachMeets other body items s := by
  induction items generalizing s with
  | nil => trivial
  | cons item rest ih => exact ⟨h s item hmeets.1,fun s' hrun => ih (hmeets.2 s' hrun)⟩

theorem eachMeets_of_mem (h : ∀ i∈items,∀ s,guard s i) (body : ι → Action σ ε Unit) (s : σ) :
    EachMeets guard body items s := by
  induction items generalizing s with
  | nil => trivial
  | cons item rest ih =>
    have ⟨hone,hrest⟩ := List.forall_mem_cons.mp h
    exact ⟨hone s,fun s' _ => ih hrest s'⟩

/-- A quantity that never decreases stays the same over a loop exactly when it
stays the same at every item reached. -/
theorem foldMeets_iff_const {φ : σ → Nat} {guard : σ → α → ι → Prop} (hmono : ∀ s a i,φ s≤φ (body a i s).2)
    (hguard : ∀ s a i,guard s a i ↔ φ (body a i s).2=φ s) (items : List ι) (a : α) (s : σ) :
    φ s≤φ (foldEach items a body s).2 ∧ (FoldMeets guard body items a s ↔ φ (foldEach items a body s).2=φ s) := by
  induction items generalizing a s with
  | nil => exact ⟨Nat.le_refl _,fun _ => rfl,fun _ => trivial⟩
  | cons item rest ih =>
    have hle := hmono s a item
    have hone := hguard s a item
    rw [foldEach_cons,FoldMeets,hone]
    cases hbody : body a item s with
    | mk outcome s' =>
      rw [hbody] at hle
      dsimp only at hle ⊢
      cases outcome with
      | error e => exact ⟨hle,fun h => h.1,fun h => ⟨h,fun _ _ hx => absurd hx (by simp)⟩⟩
      | ok a' =>
        have hih := ih a' s'
        refine ⟨Nat.le_trans hle hih.1,?_,?_⟩
        · intro h
          have hend := hih.2.mp (h.2 a' s' rfl)
          dsimp only
          rw [hend,h.1]
        · intro h
          dsimp only at h
          have hmid : φ s'=φ s := by omega
          refine ⟨hmid,fun b t hx => ?_⟩
          have hb : a'=b := Except.ok.inj (Prod.mk.inj hx).1
          have ht : s'=t := (Prod.mk.inj hx).2
          rw [←hb,←ht]
          exact hih.2.mpr (by omega)

/-- A quantity that never decreases stays the same over a loop exactly when it
stays the same at every item reached. -/
theorem mapMeets_iff_const {φ : σ → Nat} {body : ι → Action σ ε α} (hmono : ∀ s i,φ s≤φ (body i s).2)
    (hguard : ∀ s i,guard s i ↔ φ (body i s).2=φ s) (items : List ι) (s : σ) :
    φ s≤φ (mapEach items body s).2 ∧ (MapMeets guard body items s ↔ φ (mapEach items body s).2=φ s) := by
  induction items generalizing s with
  | nil => exact ⟨Nat.le_refl _,fun _ => rfl,fun _ => trivial⟩
  | cons item rest ih =>
    have hle := hmono s item
    have hone := hguard s item
    rw [mapEach_cons_snd,MapMeets,hone]
    cases hbody : body item s with
    | mk outcome s' =>
      rw [hbody] at hle
      dsimp only at hle ⊢
      cases outcome with
      | error e => exact ⟨hle,fun h => h.1,fun h => ⟨h,fun _ _ hx => absurd hx (by simp)⟩⟩
      | ok a =>
        have hih := ih s'
        refine ⟨Nat.le_trans hle hih.1,?_,?_⟩
        · intro h
          have hend := hih.2.mp (h.2 a s' rfl)
          dsimp only
          rw [hend,h.1]
        · intro h
          dsimp only at h
          have hmid : φ s'=φ s := by omega
          refine ⟨hmid,fun b t hx => ?_⟩
          have ht : s'=t := (Prod.mk.inj hx).2
          rw [←ht]
          exact hih.2.mpr (by omega)

theorem foldTrace_relates {τ : Type} {R : List τ → σ → σ → Prop} {mark : σ → α → ι → List τ}
    (hrefl : ∀ s,R [] s s) (htrans : ∀ {m n : List τ} {a b c : σ},R m a b → R n b c → R (m++n) a c)
    (hbody : ∀ s a i,R (mark s a i) s (body a i s).2) (items : List ι) (a : α) (s : σ) :
    R (foldTrace mark body items a s) s (foldEach items a body s).2 := by
  induction items generalizing a s with
  | nil => exact hrefl s
  | cons item rest ih =>
    have hone := hbody s a item
    rw [foldEach_cons,foldTrace]
    cases hrun : body a item s with
    | mk outcome s' =>
      rw [hrun] at hone
      cases outcome with
      | error e => exact htrans hone (hrefl s')
      | ok a' => exact htrans hone (ih a' s')

theorem mapTrace_relates {τ : Type} {R : List τ → σ → σ → Prop} {mark : σ → ι → List τ}
    {body : ι → Action σ ε α} (hrefl : ∀ s,R [] s s)
    (htrans : ∀ {m n : List τ} {a b c : σ},R m a b → R n b c → R (m++n) a c)
    (hbody : ∀ s i,R (mark s i) s (body i s).2) (items : List ι) (s : σ) :
    R (mapTrace mark body items s) s (mapEach items body s).2 := by
  induction items generalizing s with
  | nil => exact hrefl s
  | cons item rest ih =>
    have hone := hbody s item
    rw [mapEach_cons_snd,mapTrace]
    cases hrun : body item s with
    | mk outcome s' =>
      rw [hrun] at hone
      cases outcome with
      | error e => exact htrans hone (hrefl s')
      | ok a => exact htrans hone (ih s')

/-- Apply steps one after the other. -/
def run (step : σ → ι → σ) (s : σ) (steps : List ι) : σ := steps.foldl step s

/-- Every step of the run meets its guard in the state before it. -/
def Guarded (step : σ → ι → σ) (guard : σ → ι → Prop) : σ → List ι → Prop
  | _,[] => True
  | s,i::rest => guard s i ∧ Guarded step guard (step s i) rest

/-- An invariant kept by guarded steps holds at the end of every guarded run,
hence in every state reached: a prefix of a guarded run is guarded. -/
theorem run_invariant (hstep : ∀ s i,I s → guard s i → I (step s i)) (hs : I s)
    (hg : Guarded step guard s steps) : I (run step s steps) := by
  induction steps generalizing s with
  | nil => exact hs
  | cons i rest ih => exact ih (hstep s i hs hg.1) hg.2

theorem guarded_of_isPrefix {first steps : List ι} (h : first<+:steps) (hg : Guarded step guard s steps) :
    Guarded step guard s first := by
  induction first generalizing s steps with
  | nil => trivial
  | cons i first ih =>
    cases steps with
    | nil => exact absurd (List.prefix_nil.mp h) (by simp)
    | cons j steps =>
      have ⟨hij,hrest⟩ := List.cons_prefix_cons.mp h
      rw [hij]
      exact ⟨hg.1,ih hrest hg.2⟩

/-- Two guards that agree on the states of an invariant kept by one of them
guard the same runs of admitted steps. -/
theorem guarded_congr_on {guard other : σ → ι → Prop} {p : ι → Prop}
    (hstep : ∀ s i,p i → I s → guard s i → I (step s i)) (hsame : ∀ s i,p i → I s → (other s i ↔ guard s i))
    (hok : ∀ i∈steps,p i) (hs : I s) : Guarded step other s steps ↔ Guarded step guard s steps := by
  induction steps generalizing s with
  | nil => exact Iff.rfl
  | cons i rest ih =>
    have hi := hok i List.mem_cons_self
    have hrest : ∀ j∈rest,p j := fun j hj => hok j (List.mem_cons_of_mem _ hj)
    constructor
    · intro hg
      have hguard := (hsame s i hi hs).mp hg.1
      exact ⟨hguard,(ih hrest (hstep s i hi hs hguard)).mp hg.2⟩
    · intro hg
      exact ⟨(hsame s i hi hs).mpr hg.1,(ih hrest (hstep s i hi hs hg.1)).mpr hg.2⟩

/-- Two guards that agree on the states of an invariant kept by one of them
guard the same runs. -/
theorem guarded_congr {guard other : σ → ι → Prop} (hstep : ∀ s i,I s → guard s i → I (step s i))
    (hsame : ∀ s i,I s → (other s i ↔ guard s i)) (hs : I s) :
    Guarded step other s steps ↔ Guarded step guard s steps :=
  guarded_congr_on (p:=fun _ => True) (fun s i _ => hstep s i) (fun s i _ => hsame s i) (fun _ _ => trivial) hs

/-- When guarded steps keep an invariant that implies a property, and a step
whose guard fails breaks the property, the property holds in every state reached
exactly along the guarded runs. -/
theorem guarded_iff_reached {I P : σ → Prop} {p : ι → Prop} (hstep : ∀ s i,p i → I s → guard s i → I (step s i))
    (himp : ∀ s,I s → P s) (hbreak : ∀ s i,p i → I s → ¬guard s i → ¬P (step s i)) (hok : ∀ i∈steps,p i)
    (hs : I s) : (∀ first,first<+:steps → P (run step s first)) ↔ Guarded step guard s steps := by
  induction steps generalizing s with
  | nil =>
    refine ⟨fun _ => trivial,fun _ first hfirst => ?_⟩
    rw [List.prefix_nil.mp hfirst]
    exact himp s hs
  | cons i rest ih =>
    have hi := hok i List.mem_cons_self
    have hrest : ∀ j∈rest,p j := fun j hj => hok j (List.mem_cons_of_mem _ hj)
    constructor
    · intro hall
      have hg : guard s i := by
        have hone : [i]<+:i::rest := ⟨rest,rfl⟩
        exact Classical.byContradiction fun hn => hbreak s i hi hs hn (hall [i] hone)
      refine ⟨hg,(ih hrest (hstep s i hi hs hg)).mp fun first hfirst => ?_⟩
      have hcons : i::first<+:i::rest := List.cons_prefix_cons.mpr ⟨rfl,hfirst⟩
      exact hall (i::first) hcons
    · rintro ⟨hg,hguarded⟩ first hfirst
      cases first with
      | nil => exact himp s hs
      | cons j first =>
        have ⟨hj,hfirst⟩ := List.cons_prefix_cons.mp hfirst
        rw [hj]
        exact (ih hrest (hstep s i hi hs hg)).mpr hguarded first hfirst

theorem guarded_of_invariant (hstep : ∀ s i,I s → guard s i ∧ I (step s i)) (hs : I s) (steps : List ι) :
    Guarded step guard s steps := by
  induction steps generalizing s with
  | nil => trivial
  | cons i rest ih =>
    have ⟨hguard,hnext⟩ := hstep s i hs
    exact ⟨hguard,ih hnext⟩

theorem guarded_imp {guard other : σ → ι → Prop} (hstep : ∀ s i,I s → guard s i → I (step s i))
    (himp : ∀ s i,I s → guard s i → other s i) (hs : I s) (hg : Guarded step guard s steps) :
    Guarded step other s steps := by
  induction steps generalizing s with
  | nil => trivial
  | cons i rest ih => exact ⟨himp s i hs hg.1,ih (hstep s i hs hg.1) hg.2⟩

theorem run_append (step : σ → ι → σ) (s : σ) (first second : List ι) :
    run step s (first++second)=run step (run step s first) second :=
  List.foldl_append

end GraphDbLite.StatefulActions
