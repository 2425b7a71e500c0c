import GraphDbLite.StatefulActions
import GraphDbLite.FallibleLists

/-!
# Runs with the same outcome

Two outcomes are the same when they are equal or both failures, whatever the
errors are. Two runs are the same when they also leave the same state. Sequencing
and loops of runs that are the same step by step are the same.
-/

namespace GraphDbLite.SameOutcomes

open StatefulActions FallibleLists

variable {σ ε α β ι : Type}

/-- Equal outcomes, or two failures. -/
def SameOutcome (x y : Except ε α) : Prop := x=y ∨ (Fails x ∧ Fails y)

theorem SameOutcome.refl (x : Except ε α) : SameOutcome x x := Or.inl rfl

theorem SameOutcome.trans {x y z : Except ε α} (hxy : SameOutcome x y) (hyz : SameOutcome y z) :
    SameOutcome x z := by
  cases hxy with
  | inl heq =>
    rw [heq]
    exact hyz
  | inr hfails =>
    cases hyz with
    | inl heq =>
      rw [←heq]
      exact Or.inr hfails
    | inr hfails' => exact Or.inr ⟨hfails.1,hfails'.2⟩

variable {x y : Except ε α} {s : σ} {body body' : ι → Action σ ε α} {P : ι → σ → Prop} {items : List ι}

theorem SameOutcome.symm (h : SameOutcome x y) : SameOutcome y x := by
  cases h with
  | inl heq => exact Or.inl heq.symm
  | inr hfails => exact Or.inr ⟨hfails.2,hfails.1⟩

theorem SameOutcome.map (h : SameOutcome x y) (f : α → β) : SameOutcome (x.map f) (y.map f) := by
  cases h with
  | inl heq =>
    rw [heq]
    exact SameOutcome.refl _
  | inr hfails =>
    have ⟨⟨e,he⟩,⟨e',he'⟩⟩ := hfails
    rw [he,he']
    exact Or.inr ⟨⟨e,rfl⟩,⟨e',rfl⟩⟩

theorem SameOutcome.fails_iff (h : SameOutcome x y) : Fails x ↔ Fails y := by
  cases h with
  | inl heq => rw [heq]
  | inr hfails => exact iff_of_true hfails.1 hfails.2

theorem SameOutcome.eq_of_ok {a : α} (h : SameOutcome x y) (hy : y=.ok a) : x=y := by
  cases h with
  | inl heq => exact heq
  | inr hfails =>
    rw [hy] at hfails
    exact absurd hfails.2 (not_fails_ok a)

theorem sameOutcome_gather {f g : ι → Except ε (List β)} {l : List ι}
    (h : ∀ a∈l,SameOutcome (f a) (g a)) : SameOutcome (gather f l) (gather g l) := by
  by_cases hfails : ∃ a∈l,Fails (g a)
  · have ⟨a,ha,hfail⟩ := hfails
    have hleft : Fails (gather f l) := fails_gather.mpr ⟨a,ha,(h a ha).fails_iff.mpr hfail⟩
    exact Or.inr ⟨hleft,fails_gather.mpr ⟨a,ha,hfail⟩⟩
  · refine Or.inl (gather_congr fun a ha => ?_)
    have ⟨b,hb⟩ := (fails_or_ok (g a)).resolve_left fun hfail => hfails ⟨a,ha,hfail⟩
    exact (h a ha).eq_of_ok hb

theorem sieve_append (p : α → Except ε Bool) (a b : List α) :
    sieve p (a++b)=
      match sieve p a with
      | .error e => .error e
      | .ok front =>
        match sieve p b with
        | .error e => .error e
        | .ok back => .ok (front++back) := by
  induction a with
  | nil =>
    rw [List.nil_append,sieve]
    dsimp only
    cases sieve p b with
    | error e | ok back => rfl
  | cons x rest ih =>
    rw [List.cons_append,sieve,sieve,ih]
    cases p x with
    | error e => rfl
    | ok keep =>
      dsimp only
      cases sieve p rest with
      | error e => rfl
      | ok front =>
        dsimp only
        cases sieve p b with
        | error e => rfl
        | ok back => cases keep <;> rfl

theorem gather_sieve (f : ι → Except ε (List β)) (p : β → Except ε Bool) (l : List ι) :
    SameOutcome (gather f l >>= sieve p) (gather (fun a => f a >>= sieve p) l) := by
  by_cases hfails : ∃ a∈l,Fails (f a)
  · have ⟨a,ha,e,he⟩ := hfails
    have ⟨e',he'⟩ := fails_gather.mpr ⟨a,ha,e,he⟩
    refine Or.inr ⟨⟨e',by rw [he']; rfl⟩,fails_gather.mpr ⟨a,ha,e,?_⟩⟩
    rw [he]
    rfl
  · refine Or.inl ?_
    induction l with
    | nil => rfl
    | cons a rest ih =>
      have hrest := ih fun hmem => hfails (by
        have ⟨b,hb,hfail⟩ := hmem
        exact ⟨b,List.mem_cons_of_mem a hb,hfail⟩)
      have ⟨front,hfront⟩ := (fails_or_ok (f a)).resolve_left fun hfail =>
        hfails ⟨a,List.mem_cons_self,hfail⟩
      have ⟨back,hback⟩ := (fails_or_ok (gather f rest)).resolve_left fun hfail => by
        have ⟨b,hb,hbad⟩ := fails_gather.mp hfail
        exact hfails ⟨b,List.mem_cons_of_mem a hb,hbad⟩
      rw [hback] at hrest
      rw [gather,gather,hfront,hback,←hrest]
      exact sieve_append p front back

/-- Runs that leave the same state and end alike. -/
def SameRun (x y : Except ε α×σ) : Prop := x.2=y.2 ∧ SameOutcome x.1 y.1

theorem SameRun.refl (x : Except ε α×σ) : SameRun x x := ⟨rfl,SameOutcome.refl x.1⟩

theorem SameRun.bind {x y : Action σ ε α} {f g : α → Action σ ε β} (h : SameRun (x s) (y s))
    (hf : ∀ a s',y s=(.ok a,s') → SameRun (f a s') (g a s')) : SameRun ((x >>= f) s) ((y >>= g) s) := by
  rw [bind_apply,bind_apply]
  cases hy : y s with
  | mk out s' =>
    cases hx : x s with
    | mk out' s'' =>
      rw [hx,hy] at h
      have ⟨hstate,hout⟩ := h
      dsimp only at hstate hout
      rw [hstate]
      cases out with
      | error e =>
        have ⟨e',he'⟩ := hout.fails_iff.mpr (fails_error e)
        rw [he']
        exact ⟨rfl,Or.inr ⟨fails_error e',fails_error e⟩⟩
      | ok a =>
        rw [hout.eq_of_ok rfl]
        exact hf a s' hy

/-- A property of the items at the states in which a loop reaches them. -/
def AlongMap (body : ι → Action σ ε α) (P : ι → σ → Prop) : List ι → σ → Prop
  | [],_ => True
  | item::rest,s => P item s ∧ ∀ a s',body item s=(.ok a,s') → AlongMap body P rest s'

/-- A property of the items at the states in which an accumulating loop reaches them. -/
def AlongFold (body : α → ι → Action σ ε α) (P : ι → σ → Prop) : List ι → α → σ → Prop
  | [],_,_ => True
  | item::rest,start,s =>
    P item s ∧ ∀ next s',body start item s=(.ok next,s') → AlongFold body P rest next s'

theorem sameRun_mapEach (hbody : ∀ item s,P item s → SameRun (body' item s) (body item s))
    (h : AlongMap body P items s) : SameRun (mapEach items body' s) (mapEach items body s) := by
  induction items generalizing s with
  | nil => exact SameRun.refl _
  | cons item rest ih =>
    refine SameRun.bind (hbody item s h.1) fun a s' hstep => ?_
    refine SameRun.bind (ih (h.2 a s' hstep)) fun _ _ _ => SameRun.refl _

theorem mapEach_congr_along (h : AlongMap body (fun item s => body' item s=body item s) items s) :
    mapEach items body' s=mapEach items body s := by
  induction items generalizing s with
  | nil => rfl
  | cons item rest ih =>
    rw [mapEach,mapEach,bind_apply,bind_apply,h.1]
    cases hstep : body item s with
    | mk out s' =>
      cases out with
      | error e => rfl
      | ok a =>
        dsimp only
        rw [bind_apply,bind_apply,ih (h.2 a s' hstep)]

theorem AlongMap.imp {body : ι → Action σ ε α} {P Q : ι → σ → Prop} (hPQ : ∀ item s,P item s → Q item s)
    (h : AlongMap body P items s) : AlongMap body Q items s := by
  induction items generalizing s with
  | nil => trivial
  | cons item rest ih => exact ⟨hPQ item s h.1,fun a s' hstep => ih (h.2 a s' hstep)⟩

theorem flatten_mapEach_nil {body : ι → Action σ ε (List β)}
    (hbody : ∀ item s,P item s → ∀ part s',body item s=(.ok part,s') → part=[]) (h : AlongMap body P items s)
    {parts : List (List β)} {s' : σ} (hrun : mapEach items body s=(.ok parts,s')) : parts.flatten=[] := by
  induction items generalizing s parts with
  | nil =>
    have hparts := Except.ok.inj (Prod.mk.inj hrun).1
    rw [←hparts]
    rfl
  | cons item rest ih =>
    rw [mapEach] at hrun
    obtain ⟨part,s₁,hstep,hthen⟩ := ok_of_bind hrun
    obtain ⟨others,s₂,hrest,hpure⟩ := ok_of_bind hthen
    have hparts : part::others=parts := Except.ok.inj (Prod.mk.inj hpure).1
    have hs : s₂=s' := (Prod.mk.inj hpure).2
    rw [hs] at hrest
    rw [←hparts,List.flatten_cons,hbody item s h.1 part s₁ hstep,ih (h.2 part s₁ hstep) hrest,
      List.append_nil]

theorem sameRun_foldEach {body body' : α → ι → Action σ ε α}
    (hbody : ∀ start item s,P item s → SameRun (body' start item s) (body start item s)) {start : α}
    (h : AlongFold body P items start s) : SameRun (foldEach items start body' s) (foldEach items start body s) := by
  induction items generalizing start s with
  | nil => exact SameRun.refl _
  | cons item rest ih =>
    exact SameRun.bind (hbody start item s h.1) fun next s' hstep => ih (h.2 next s' hstep)

theorem mapEach_reads {body : ι → Action σ ε (List β)} {f : ι → Except ε (List β)}
    (h : ∀ item∈items,body item s=(f item,s)) :
    (mapEach items body >>= fun parts => Pure.pure parts.flatten) s=(gather f items,s) := by
  induction items with
  | nil => rfl
  | cons item rest ih =>
    have hrest := ih fun other hother => h other (List.mem_cons_of_mem item hother)
    rw [bind_apply] at hrest ⊢
    rw [mapEach,bind_apply,h item List.mem_cons_self,gather]
    cases f item with
    | error e => rfl
    | ok front =>
      dsimp only
      rw [bind_apply]
      cases hrun : mapEach rest body s with
      | mk out s' =>
        rw [hrun] at hrest
        cases out with
        | error e =>
          have hih := Prod.mk.inj hrest
          rw [←hih.1,hih.2]
        | ok parts =>
          have hih := Prod.mk.inj hrest
          rw [←hih.1,←hih.2]
          rfl

/-- A run that succeeds with the result and the state of another one whenever that one
succeeds. -/
def Follows (x y : Except ε α×σ) : Prop := ∀ a s',y=(.ok a,s') → x=(.ok a,s')

theorem Follows.refl (x : Except ε α×σ) : Follows x x := fun _ _ h => h

theorem Follows.bind {x y : Action σ ε α} {f g : α → Action σ ε β} (h : Follows (x s) (y s))
    (hf : ∀ a s',y s=(.ok a,s') → Follows (f a s') (g a s')) : Follows ((x >>= f) s) ((y >>= g) s) := by
  intro b s'' hrun
  have ⟨a,s',hy,hg⟩ := ok_of_bind hrun
  rw [bind_ok (h a s' hy)]
  exact hf a s' hy b s'' hg

theorem follows_mapEach (hbody : ∀ item s,P item s → Follows (body' item s) (body item s))
    (h : AlongMap body P items s) : Follows (mapEach items body' s) (mapEach items body s) := by
  induction items generalizing s with
  | nil => exact Follows.refl _
  | cons item rest ih =>
    refine Follows.bind (hbody item s h.1) fun a s' hstep => ?_
    exact Follows.bind (ih (h.2 a s' hstep)) fun _ _ _ => Follows.refl _

theorem follows_foldEach {body body' : α → ι → Action σ ε α}
    (hbody : ∀ start item s,P item s → Follows (body' start item s) (body start item s)) {start : α}
    (h : AlongFold body P items start s) : Follows (foldEach items start body' s) (foldEach items start body s) := by
  induction items generalizing start s with
  | nil => exact Follows.refl _
  | cons item rest ih =>
    exact Follows.bind (hbody start item s h.1) fun next s' hstep => ih (h.2 next s' hstep)

theorem eq_of_perm_short {a b : List α} (h : a.Perm b) (hshort : b.length≤1) : a=b := by
  cases b with
  | nil => exact h.eq_nil
  | cons x rest =>
    have hnil : rest=[] := by
      rw [List.length_cons] at hshort
      exact List.eq_nil_of_length_eq_zero (by omega)
    rw [hnil] at h ⊢
    exact List.perm_singleton.mp h

end GraphDbLite.SameOutcomes
