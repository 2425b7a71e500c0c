import Mathlib.Data.List.Basic

/-!
# Fallible passes over lists

Filtering with a test that may fail, and collecting the lists that a fallible
function returns. Both stop at the first failure. When no element fails they are
the ordinary filter and the ordinary concatenation, and they fail exactly when
some element does.
-/

namespace GraphDbLite.FallibleLists

variable {ε α β : Type}

/-- Keep the elements that pass a fallible test. -/
@[grind] def sieve (p : α → Except ε Bool) : List α → Except ε (List α)
  | [] => .ok []
  | a::rest =>
    match p a with
    | .error e => .error e
    | .ok keep =>
      match sieve p rest with
      | .error e => .error e
      | .ok kept => .ok (if keep=true then a::kept else kept)

/-- Concatenate the lists that a fallible function returns. -/
@[grind] def gather (f : α → Except ε (List β)) : List α → Except ε (List β)
  | [] => .ok []
  | a::rest =>
    match f a with
    | .error e => .error e
    | .ok front =>
      match gather f rest with
      | .error e => .error e
      | .ok back => .ok (front++back)

/-- Whether an outcome is a failure. -/
@[grind] def Fails (r : Except ε α) : Prop := ∃ e,r=.error e

theorem fails_or_ok (r : Except ε α) : Fails r ∨ ∃ a,r=.ok a := by
  cases r with
  | error e => exact Or.inl ⟨e,rfl⟩
  | ok a => exact Or.inr ⟨a,rfl⟩

/-- A success is not a failure. -/
@[simp] theorem not_fails_ok (a : α) : ¬Fails (.ok a : Except ε α) := by
  intro h
  have ⟨e,he⟩ := h
  cases he

/-- A failure is one. -/
@[simp] theorem fails_error (e : ε) : Fails (.error e : Except ε α) := ⟨e,rfl⟩

theorem exists_of_bind {x : Except ε α} {f : α → Except ε β} {b : β} (h : (x >>= f)=.ok b) :
    ∃ a,x=.ok a ∧ f a=.ok b := by
  cases x with
  | ok a => exact ⟨a,rfl,h⟩
  | error e => cases h

theorem exists_of_map {x : Except ε α} {f : α → β} {b : β} (h : x.map f=.ok b) : ∃ a,x=.ok a ∧ f a=b := by
  cases x with
  | ok a => exact ⟨a,rfl,Except.ok.inj h⟩
  | error e => cases h

variable {p : α → Except ε Bool} {l : List α} {f : α → Except ε (List β)} {all : List β} {γ : Type}
  {tests : List (α → Except ε Bool)} {x y : Except ε (List α)}

theorem fails_sieve : Fails (sieve p l) ↔ ∃ a∈l,Fails (p a) := by
  induction l with
  | nil => simp [sieve]
  | cons a rest ih =>
    rw [List.exists_mem_cons_iff,←ih,sieve]
    cases p a with
    | error e => simp
    | ok keep =>
      dsimp only
      cases sieve p rest with
      | error e | ok kept => simp

theorem sieve_cons_ok {a : α} {rest kept : List α} (h : sieve p (a::rest)=.ok kept) :
    ∃ keep more,p a=.ok keep ∧ sieve p rest=.ok more ∧ kept=if keep=true then a::more else more := by
  rw [sieve] at h
  cases hkeep : p a with
  | error e => simp [hkeep] at h
  | ok keep =>
    cases hmore : sieve p rest with
    | error e => simp [hkeep,hmore] at h
    | ok more =>
      rw [hkeep,hmore] at h
      exact ⟨keep,more,rfl,rfl,(Except.ok.inj h).symm⟩

theorem mem_sieve {l kept : List α} (h : sieve p l=.ok kept) {a : α} : a∈kept ↔ a∈l ∧ p a=.ok true := by
  induction l generalizing kept with
  | nil =>
    rw [sieve] at h
    rw [←Except.ok.inj h]
    simp
  | cons b rest ih =>
    have ⟨keep,more,hb,hrest,hkept⟩ := sieve_cons_ok h
    have hmore := ih hrest
    rw [hkept,List.mem_cons]
    cases keep with
    | true =>
      rw [if_pos rfl,List.mem_cons,hmore]
      constructor
      · intro hm
        cases hm with
        | inl heq => exact ⟨Or.inl heq,heq ▸ hb⟩
        | inr hin => exact ⟨Or.inr hin.1,hin.2⟩
      · intro hm
        cases hm.1 with
        | inl heq => exact Or.inl heq
        | inr hin => exact Or.inr ⟨hin,hm.2⟩
    | false =>
      rw [if_neg (by simp),hmore]
      constructor
      · intro hm
        exact ⟨Or.inr hm.1,hm.2⟩
      · intro hm
        cases hm.1 with
        | inl heq =>
          rw [heq,hb] at hm
          exact absurd hm.2 (by simp)
        | inr hin => exact ⟨hin,hm.2⟩

theorem gather_congr {f g : α → Except ε (List β)} (h : ∀ a∈l,f a=g a) : gather f l=gather g l := by
  induction l with
  | nil => rfl
  | cons a rest ih =>
    rw [gather,gather,h a List.mem_cons_self,ih fun b hb => h b (List.mem_cons_of_mem a hb)]

theorem gather_ok {g : α → List β} (h : ∀ a∈l,f a=.ok (g a)) : gather f l=.ok (l.flatMap g) := by
  induction l with
  | nil => rfl
  | cons a rest ih =>
    rw [gather,h a List.mem_cons_self,ih fun b hb => h b (List.mem_cons_of_mem a hb)]
    rfl

theorem gather_cons_ok {a : α} {rest : List α} (h : gather f (a::rest)=.ok all) :
    ∃ front back,f a=.ok front ∧ gather f rest=.ok back ∧ all=front++back := by
  rw [gather] at h
  cases hfront : f a with
  | error e => simp [hfront] at h
  | ok front =>
    cases hback : gather f rest with
    | error e => simp [hfront,hback] at h
    | ok back =>
      rw [hfront,hback] at h
      exact ⟨front,back,rfl,rfl,(Except.ok.inj h).symm⟩

theorem forall₂_of_gather {f : α → Except ε β} (h : gather (fun a => (f a).map fun b => [b]) l=.ok all) :
    List.Forall₂ (fun a b => f a=.ok b) l all := by
  induction l generalizing all with
  | nil =>
    rw [←Except.ok.inj h]
    exact List.Forall₂.nil
  | cons a rest ih =>
    have ⟨front,back,hfront,hback,hsplit⟩ := gather_cons_ok h
    have ⟨b,hitem,hsingle⟩ := exists_of_map hfront
    rw [hsplit,←hsingle]
    exact List.Forall₂.cons hitem (ih hback)

theorem gather_append_ok {l more : List α} (h : gather f (l++more)=.ok all) :
    ∃ front back,gather f l=.ok front ∧ gather f more=.ok back ∧ all=front++back := by
  induction l generalizing all with
  | nil => exact ⟨[],all,rfl,h,rfl⟩
  | cons a rest ih =>
    have ⟨head,tail,hhead,htail,heq⟩ := gather_cons_ok h
    have ⟨front,back,hfront,hback,hsplit⟩ := ih htail
    refine ⟨head++front,back,?_,hback,?_⟩
    · rw [gather,hhead,hfront]
    · rw [heq,hsplit,List.append_assoc]

theorem fails_gather : Fails (gather f l) ↔ ∃ a∈l,Fails (f a) := by
  induction l with
  | nil => simp [gather]
  | cons a rest ih =>
    rw [List.exists_mem_cons_iff,←ih,gather]
    cases f a with
    | error e => simp
    | ok front =>
      dsimp only
      cases gather f rest with
      | error e | ok back => simp

theorem mem_gather (h : gather f l=.ok all) {b : β} : b∈all ↔ ∃ a∈l,∃ part,f a=.ok part ∧ b∈part := by
  induction l generalizing all with
  | nil =>
    rw [gather] at h
    rw [←Except.ok.inj h]
    simp
  | cons a rest ih =>
    have ⟨front,back,ha,hrest,hall⟩ := gather_cons_ok h
    rw [hall,List.mem_append,ih hrest,List.exists_mem_cons_iff,ha]
    simp

/-- An element gives one candidate, which a test keeps or drops, or nothing. -/
@[grind] def Checks {γ : Type} (f : α → Except ε (List β)) (found : α → γ → Prop) (test : γ → Except ε Bool)
    (row : γ → β) (a : α) : Prop :=
  (f a=.ok [] ∧ ∀ c,¬found a c) ∨ ∃ c,(∀ d,found a d ↔ d=c) ∧
    f a=(test c).map fun keep => if keep=true then [row c] else []

theorem fails_gather_checked {found : α → γ → Prop} {test : γ → Except ε Bool} {row : γ → β}
    (h : ∀ a∈l,Checks f found test row a) : Fails (gather f l) ↔ ∃ a∈l,∃ c,found a c ∧ Fails (test c) := by
  rw [fails_gather]
  refine exists_congr fun a => and_congr_right fun ha => ?_
  cases h a ha with
  | inl hnone =>
    rw [hnone.1]
    refine iff_of_false (not_fails_ok []) fun hex => ?_
    have ⟨c,hc,_⟩ := hex
    exact hnone.2 c hc
  | inr hone =>
    have ⟨c,hfound,hf⟩ := hone
    rw [hf]
    constructor
    · intro hfail
      refine ⟨c,(hfound c).mpr rfl,?_⟩
      cases htest : test c with
      | error e => exact fails_error e
      | ok keep =>
        rw [htest] at hfail
        exact absurd hfail (not_fails_ok _)
    · intro hex
      have ⟨d,hd,e,he⟩ := hex
      rw [(hfound d).mp hd] at he
      rw [he]
      exact fails_error e

theorem mem_gather_checked {found : α → γ → Prop} {test : γ → Except ε Bool} {row : γ → β}
    (h : ∀ a∈l,Checks f found test row a) (hall : gather f l=.ok all) {b : β} :
    b∈all ↔ ∃ a∈l,∃ c,found a c ∧ test c=.ok true ∧ b=row c := by
  rw [mem_gather hall]
  refine exists_congr fun a => and_congr_right fun ha => ?_
  cases h a ha with
  | inl hnone =>
    constructor
    · intro hex
      have ⟨part,hpart,hb⟩ := hex
      rw [hnone.1] at hpart
      rw [←Except.ok.inj hpart] at hb
      exact absurd hb List.not_mem_nil
    · intro hex
      have ⟨c,hc,_⟩ := hex
      exact absurd hc (hnone.2 c)
  | inr hone =>
    have ⟨c,hfound,hf⟩ := hone
    rw [hf]
    constructor
    · intro hex
      have ⟨part,hpart,hb⟩ := hex
      have ⟨keep,htest,hkept⟩ := exists_of_map hpart
      rw [←hkept] at hb
      cases keep with
      | false => exact absurd hb List.not_mem_nil
      | true => exact ⟨c,(hfound c).mpr rfl,htest,List.mem_singleton.mp hb⟩
    · intro hex
      have ⟨d,hd,htest,hb⟩ := hex
      have hdc := (hfound d).mp hd
      rw [hdc] at htest hb
      refine ⟨[row c],?_,List.mem_singleton.mpr hb⟩
      rw [htest]
      rfl

theorem sieve_map (f : γ → α) (p : α → Except ε Bool) (l : List γ) :
    sieve p (l.map f)=(sieve (fun c => p (f c)) l).map (List.map f) := by
  induction l with
  | nil => rfl
  | cons c rest ih =>
    rw [List.map_cons,sieve,sieve,ih]
    cases p (f c) with
    | error e => rfl
    | ok keep =>
      dsimp only
      cases sieve (fun c => p (f c)) rest with
      | error e => rfl
      | ok kept => cases keep <;> rfl

theorem gather_map (g : γ → α) (f : α → Except ε (List β)) (l : List γ) :
    gather f (l.map g)=gather (fun c => f (g c)) l := by
  induction l with
  | nil => rfl
  | cons c rest ih => rw [List.map_cons,gather,gather,ih]

/-- Tests passed one after another, each on what the ones before kept. -/
@[grind] def sieves : List (α → Except ε Bool) → List α → Except ε (List α)
  | [],l => .ok l
  | p::rest,l =>
    match sieve p l with
    | .error e => .error e
    | .ok kept => sieves rest kept

/-- Tests on one element, up to the first that fails or does not hold. -/
@[grind] def passes : List (α → Except ε Bool) → α → Except ε Bool
  | [],_ => .ok true
  | p::rest,a =>
    match p a with
    | .error e => .error e
    | .ok false => .ok false
    | .ok true => passes rest a

theorem sieves_cons_ok {rest : List (α → Except ε Bool)} {kept : List α} (h : sieves (p::rest) l=.ok kept) :
    ∃ more,sieve p l=.ok more ∧ sieves rest more=.ok kept := by
  rw [sieves] at h
  cases hmore : sieve p l with
  | error e => simp [hmore] at h
  | ok more => exact ⟨more,rfl,by rwa [hmore] at h⟩

theorem fails_sieves : Fails (sieves tests l) ↔ ∃ a∈l,Fails (passes tests a) := by
  induction tests generalizing l with
  | nil => simp [sieves,passes]
  | cons p rest ih =>
    rw [sieves]
    cases hs : sieve p l with
    | error e =>
      have hfails : Fails (sieve p l) := ⟨e,hs⟩
      have ⟨a,ha,err,hp⟩ := fails_sieve.mp hfails
      refine iff_of_true (fails_error e) ⟨a,ha,err,?_⟩
      rw [passes,hp]
    | ok kept =>
      have hnone : ∀ a∈l,¬Fails (p a) := by
        intro a ha hfail
        have hfails := fails_sieve.mpr ⟨a,ha,hfail⟩
        rw [hs] at hfails
        exact not_fails_ok kept hfails
      dsimp only
      rw [ih]
      constructor
      · intro h
        have ⟨a,ha,hfail⟩ := h
        have hkept := (mem_sieve hs).mp ha
        refine ⟨a,hkept.1,?_⟩
        rw [passes,hkept.2]
        exact hfail
      · intro h
        have ⟨a,ha,hfail⟩ := h
        rw [passes] at hfail
        cases hp : p a with
        | error e => exact absurd ⟨e,hp⟩ (hnone a ha)
        | ok keep =>
          rw [hp] at hfail
          cases keep with
          | false => exact absurd hfail (not_fails_ok false)
          | true => exact ⟨a,(mem_sieve hs).mpr ⟨ha,hp⟩,hfail⟩

theorem mem_sieves {l kept : List α} (h : sieves tests l=.ok kept) {a : α} : a∈kept ↔ a∈l ∧ passes tests a=.ok true := by
  induction tests generalizing l with
  | nil =>
    rw [sieves] at h
    rw [←Except.ok.inj h,passes]
    simp
  | cons p rest ih =>
    have ⟨more,hs,hrest⟩ := sieves_cons_ok h
    rw [ih hrest,mem_sieve hs,passes]
    constructor
    · intro hm
      refine ⟨hm.1.1,?_⟩
      rw [hm.1.2]
      exact hm.2
    · intro hm
      cases hp : p a with
      | error e =>
        rw [hp] at hm
        exact absurd hm.2 (by simp)
      | ok keep =>
        rw [hp] at hm
        cases keep with
        | false => exact absurd hm.2 (by simp)
        | true => exact ⟨⟨hm.1,rfl⟩,hm.2⟩

/-- Two outcomes that both fail, or succeed with the same elements. -/
@[grind] def Agree (x y : Except ε (List α)) : Prop :=
  (Fails x ∧ Fails y) ∨ ∃ a b,x=.ok a ∧ y=.ok b ∧ ∀ r,r∈a ↔ r∈b

theorem agree_iff : Agree x y ↔ (Fails x ↔ Fails y) ∧ ∀ a b,x=.ok a → y=.ok b → ∀ r,r∈a ↔ r∈b := by
  cases x with
  | error e | ok a =>
    cases y with
    | error e' | ok b => simp [Agree]

theorem agree_iff_of_mem {P Q : α → Prop} (hx : ∀ a,x=.ok a → ∀ r,r∈a ↔ P r) (hy : ∀ b,y=.ok b → ∀ r,r∈b ↔ Q r) :
    Agree x y ↔ (Fails x ↔ Fails y) ∧ (¬Fails x → ∀ r,P r ↔ Q r) := by
  rw [agree_iff]
  constructor
  · intro h
    refine ⟨h.1,fun hok r => ?_⟩
    have ⟨a,ha⟩ := (fails_or_ok x).resolve_left hok
    have ⟨b,hb⟩ := (fails_or_ok y).resolve_left fun hfail => hok (h.1.mpr hfail)
    rw [←hx a ha r,←hy b hb r]
    exact h.2 a b ha hb r
  · intro h
    refine ⟨h.1,fun a b ha hb r => ?_⟩
    rw [hx a ha r,hy b hb r]
    refine h.2 ?_ r
    rw [ha]
    exact not_fails_ok a

theorem sieve_sublist {l kept : List α} (h : sieve p l=.ok kept) : kept.Sublist l := by
  induction l generalizing kept with
  | nil =>
    rw [sieve] at h
    rw [←Except.ok.inj h]
  | cons a rest ih =>
    have ⟨keep,more,_,hrest,hkept⟩ := sieve_cons_ok h
    rw [hkept]
    cases keep with
    | true => exact (ih hrest).cons_cons a
    | false => exact (ih hrest).cons a

theorem sieves_sublist {l kept : List α} (h : sieves tests l=.ok kept) : kept.Sublist l := by
  induction tests generalizing l with
  | nil =>
    rw [sieves] at h
    rw [Except.ok.inj h]
  | cons p rest ih =>
    have ⟨more,hs,hrest⟩ := sieves_cons_ok h
    exact (ih hrest).trans (sieve_sublist hs)

theorem nodup_gather (h : gather f l=.ok all) (hl : l.Nodup) (hparts : ∀ a∈l,∀ part,f a=.ok part → part.Nodup)
    (hapart : ∀ a∈l,∀ b∈l,∀ x y r,f a=.ok x → f b=.ok y → r∈x → r∈y → a=b) : all.Nodup := by
  induction l generalizing all with
  | nil =>
    rw [gather] at h
    rw [←Except.ok.inj h]
    exact List.nodup_nil
  | cons a rest ih =>
    have ⟨front,back,ha,hrest,hall⟩ := gather_cons_ok h
    rw [List.nodup_cons] at hl
    have hback := ih hrest hl.2 (fun b hb => hparts b (List.mem_cons_of_mem a hb))
      fun b hb c hc => hapart b (List.mem_cons_of_mem a hb) c (List.mem_cons_of_mem a hc)
    rw [hall]
    refine List.nodup_append.mpr ⟨hparts a List.mem_cons_self front ha,hback,fun r hr r' hr' hsame => ?_⟩
    rw [←hsame] at hr'
    have ⟨b,hb,part,hpart,hin⟩ := (mem_gather hrest).mp hr'
    have heq := hapart a List.mem_cons_self b (List.mem_cons_of_mem a hb) front part r ha hpart hr hin
    rw [heq] at hl
    exact hl.1 hb

/-- Two outcomes that both fail, or succeed with the same elements as often. -/
@[grind] def SameRows (x y : Except ε (List α)) : Prop :=
  (Fails x ∧ Fails y) ∨ ∃ a b,x=.ok a ∧ y=.ok b ∧ a.Perm b

theorem SameRows.refl (x : Except ε (List α)) : SameRows x x := by
  cases x with
  | error e => exact Or.inl ⟨fails_error e,fails_error e⟩
  | ok a => exact Or.inr ⟨a,a,rfl,rfl,List.Perm.refl a⟩

theorem SameRows.agree (h : SameRows x y) : Agree x y := by
  cases h with
  | inl hfails => exact Or.inl hfails
  | inr hrows =>
    have ⟨a,b,ha,hb,hperm⟩ := hrows
    exact Or.inr ⟨a,b,ha,hb,fun _ => hperm.mem_iff⟩

theorem sameRows_iff_agree (hx : ∀ a,x=.ok a → a.Nodup) (hy : ∀ b,y=.ok b → b.Nodup) : SameRows x y ↔ Agree x y := by
  unfold SameRows Agree
  refine or_congr_right (exists_congr fun a => exists_congr fun b => ?_)
  exact and_congr_right fun ha => and_congr_right fun hb =>
    List.perm_ext_iff_of_nodup (hx a ha) (hy b hb)

/-- A fold of fallible steps followed by a fold of others keeps a relation that every
step of the first has an answer to. -/
theorem foldlM_relates {R : β → γ → Prop} {f : β → α → Except ε β} {g : γ → α → Except ε γ}
    (hstep : ∀ a∈l,∀ b c b',R b c → f b a=.ok b' → ∃ c',g c a=.ok c' ∧ R b' c') {b b' : β} {c : γ} (hR : R b c)
    (h : l.foldlM f b=.ok b') : ∃ c',l.foldlM g c=.ok c' ∧ R b' c' := by
  induction l generalizing b c with
  | nil =>
    rw [List.foldlM_nil] at h
    exact ⟨c,rfl,Except.ok.inj h▸hR⟩
  | cons a rest ih =>
    rw [List.foldlM_cons] at h
    have ⟨mid,hf,hmid⟩ := exists_of_bind h
    have ⟨c',hg,hR'⟩ := hstep a List.mem_cons_self b c mid hR hf
    have ⟨c'',hrest,hR''⟩ := ih (fun x hx => hstep x (List.mem_cons_of_mem _ hx)) hR' hmid
    refine ⟨c'',?_,hR''⟩
    rw [List.foldlM_cons,hg]
    exact hrest

theorem gather_single {f : α → Except ε β} (h : gather (fun a => (f a).map fun b => [b]) l=.ok all) :
    all.length=l.length ∧ ∀ k,gather (fun a => (f a).map fun b => [b]) (l.take k)=.ok (all.take k) := by
  induction l generalizing all with
  | nil =>
    rw [←Except.ok.inj h]
    refine ⟨rfl,fun k => ?_⟩
    rw [List.take_nil,List.take_nil]
    rfl
  | cons a rest ih =>
    have ⟨front,back,hfront,hback,hall⟩ := gather_cons_ok h
    have ⟨b,hf,hsingle⟩ := exists_of_map hfront
    have ⟨hlen,htake⟩ := ih hback
    rw [hall,←hsingle,List.singleton_append]
    refine ⟨by rw [List.length_cons,List.length_cons,hlen],fun k => ?_⟩
    cases k with
    | zero => rfl
    | succ k =>
      rw [List.take_succ_cons,List.take_succ_cons,gather,hf,htake k]
      rfl

theorem gather_single_sublist {f : α → Except ε β} {l part : List α} (hpart : part.Sublist l)
    (h : gather (fun a => (f a).map fun b => [b]) l=.ok all) :
    ∃ kept,gather (fun a => (f a).map fun b => [b]) part=.ok kept ∧ kept.Sublist all ∧ kept.length=part.length := by
  induction hpart generalizing all with
  | slnil => exact ⟨[],rfl,List.nil_sublist all,rfl⟩
  | cons a hrest ih =>
    have ⟨front,back,hfront,hback,hall⟩ := gather_cons_ok h
    have ⟨kept,hkept,hsub,hlen⟩ := ih hback
    exact ⟨kept,hkept,hall▸hsub.trans (List.sublist_append_right front back),hlen⟩
  | cons_cons a hrest ih =>
    have ⟨front,back,hfront,hback,hall⟩ := gather_cons_ok h
    have ⟨kept,hkept,hsub,hlen⟩ := ih hback
    have ⟨b,hf,hsingle⟩ := exists_of_map hfront
    refine ⟨b::kept,?_,?_,by rw [List.length_cons,List.length_cons,hlen]⟩
    · rw [gather,hf,hkept]
      rfl
    · rw [hall,←hsingle,List.singleton_append]
      exact hsub.cons_cons b

end GraphDbLite.FallibleLists
