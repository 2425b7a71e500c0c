import GraphDbLite.FallibleLists
import Mathlib.Data.List.Infix
import Mathlib.Logic.Relation
import Mathlib.Order.RelClasses

/-!
# Pull-based iterators

An iterator hands out one element a call, or reports that there are no more, or fails. Its
elements run out, so that draining it ends. What it hands out until then, and how that
ends, is its trace. Iterators on iterators act on traces as passes act on whole lists,
except that a bound ends a trace before the failures that come later.
-/

namespace GraphDbLite.PullStreams

open FallibleLists

variable {ε α β σ τ : Type}

/-- Outcome of a call: an element and the state that it leaves, or no more, or a failure. -/
abbrev Call (ε α σ : Type) := Except ε (Option (α×σ))

/-- Go on with the element of a call. -/
@[grind] def Call.andThen (r : Call ε α σ) (k : α → σ → Call ε β τ) : Call ε β τ :=
  match r with
  | .error e => .error e
  | .ok none => .ok none
  | .ok (some (a,s)) => k a s

/-- A call hands out an element and leaves a state. -/
@[grind] def Steps (next : σ → Call ε α σ) (s' s : σ) : Prop := ∃ a,next s=.ok (some (a,s'))

/-- An iterator; nothing calls it after its end or a failure. -/
structure Pull (ε α σ : Type) where
  /-- State before the first call. -/
  start : σ
  /-- One call. -/
  next : σ → Call ε α σ
  /-- The elements run out. -/
  ends : WellFounded (Steps next)

/-- Elements and the failure that ends them, if any. -/
abbrev Trace (ε α : Type) := List α×Option ε

/-- Elements in front of a trace. -/
@[grind] def Trace.after (front : List α) (t : Trace ε α) : Trace ε α := (front++t.1,t.2)

/-- A call in front of a trace. -/
@[grind] def Trace.ofCall (rest : σ → Trace ε α) : Call ε α σ → Trace ε α
  | .error e => ([],some e)
  | .ok none => ([],none)
  | .ok (some (a,s)) => (rest s).after [a]

/-- The elements of a trace that does not fail. -/
@[grind] def Trace.collect (t : Trace ε α) : Except ε (List α) :=
  match t.2 with
  | some e => .error e
  | none => .ok t.1

/-- A pass over a trace. -/
@[grind] def Trace.pass (f : α → Except ε (List β)) : List α → Option ε → Trace ε β
  | [],fin => ([],fin)
  | a::rest,fin =>
    match f a with
    | .error e => ([],some e)
    | .ok front => (Trace.pass f rest fin).after front

section Calls

variable (it : Pull ε α σ)

/-- The elements that calls hand out, and how that ends. -/
def drain (s : σ) : Trace ε α :=
  match h : it.next s with
  | .error e => ([],some e)
  | .ok none => ([],none)
  | .ok (some (a,s')) => (drain s').after [a]
termination_by it.ends.wrap s
decreasing_by exact ⟨a,h⟩

/-- Call until an element passes. -/
def filterNext (keep : α → Except ε Bool) (s : σ) : Call ε α σ :=
  match h : it.next s with
  | .error e => .error e
  | .ok none => .ok none
  | .ok (some (a,s')) =>
    match keep a with
    | .error e => .error e
    | .ok true => .ok (some (a,s'))
    | .ok false => filterNext keep s'
termination_by it.ends.wrap s
decreasing_by exact ⟨a,h⟩

/-- Call past the elements that remain to be skipped. -/
@[grind] def skipNext : Nat → σ → Call ε α (Nat×σ)
  | 0,s => Call.andThen (it.next s) fun a s' => .ok (some (a,(0,s')))
  | n+1,s => Call.andThen (it.next s) fun _ s' => skipNext n s'

/-- Call while elements remain to be handed out. -/
@[grind] def limitNext : Nat → σ → Call ε α (Nat×σ)
  | 0,_ => .ok none
  | n+1,s => Call.andThen (it.next s) fun a s' => .ok (some (a,(n,s')))

/-- Hand out the elements that the last one was expanded to; call when there are none left. -/
def expandNext (f : α → Except ε (List β)) : List β → σ → Call ε β (List β×σ)
  | b::rest,s => .ok (some (b,(rest,s)))
  | [],s =>
    match h : it.next s with
    | .error e => .error e
    | .ok none => .ok none
    | .ok (some (a,s')) =>
      match f a with
      | .error e => .error e
      | .ok front => expandNext f front s'
termination_by _ s => it.ends.wrap s
decreasing_by exact ⟨a,h⟩

/-- Elements after some calls. -/
abbrev Later (s' s : σ) : Prop := Relation.TransGen (Steps it.next) s' s

variable {it} {s s' : σ} {keep : α → Except ε Bool} {f : α → Except ε (List β)}

theorem drain_eq (s : σ) : drain it s=Trace.ofCall (drain it) (it.next s) := by
  rw [drain]
  split <;> simp_all [Trace.ofCall]

theorem later_filter (h : Steps (filterNext it keep) s' s) : Later it s' s := by
  induction s using it.ends.induction with
  | h s ih =>
    have ⟨a,ha⟩ := h
    rw [filterNext] at ha
    split at ha
    · cases ha
    · cases ha
    · rename_i b s₁ hnext
      have hstep : Steps it.next s₁ s := ⟨b,hnext⟩
      split at ha
      · cases ha
      · cases ha
        exact .single hstep
      · exact (ih s₁ hstep ⟨a,ha⟩).tail hstep

theorem later_skip {n n' : Nat} {a : α} (h : skipNext it n s=.ok (some (a,(n',s')))) : Later it s' s := by
  induction n generalizing s with
  | zero =>
    unfold skipNext Call.andThen at h
    split at h <;> cases h
    exact .single ⟨a,by assumption⟩
  | succ n ih =>
    unfold skipNext Call.andThen at h
    split at h
    · cases h
    · cases h
    · rename_i b s₁ hnext
      exact (ih h).tail ⟨b,hnext⟩

theorem later_limit {n n' : Nat} {a : α} (h : limitNext it n s=.ok (some (a,(n',s')))) : Steps it.next s' s := by
  cases n with
  | zero => cases h
  | succ n =>
    rw [limitNext] at h
    unfold Call.andThen at h
    split at h <;> cases h
    exact ⟨a,by assumption⟩

/-- An expansion hands out an element that it holds, or calls. -/
theorem later_expand {held held' : List β} {b : β} (h : expandNext it f held s=.ok (some (b,(held',s')))) :
    (s'=s ∧ held=b::held') ∨ Later it s' s := by
  induction s using it.ends.induction generalizing held with
  | h s ih =>
    cases held with
    | cons c rest =>
      rw [expandNext] at h
      cases h
      exact Or.inl ⟨rfl,rfl⟩
    | nil =>
      rw [expandNext] at h
      split at h
      · cases h
      · cases h
      · rename_i a s₁ hnext
        have hstep : Steps it.next s₁ s := ⟨a,hnext⟩
        split at h
        · cases h
        · cases ih s₁ hstep h with
          | inl hheld =>
            rw [hheld.1]
            exact Or.inr (.single hstep)
          | inr hlater => exact Or.inr (hlater.tail hstep)

end Calls

section Iterators

/-- Elements of a list. -/
@[grind] def vecIter (l : List α) : Pull ε α (List α) where
  start := l
  next
    | [] => .ok none
    | a::rest => .ok (some (a,rest))
  ends := by
    refine Subrelation.wf ?_ (measure List.length).wf
    intro s' s h
    have ⟨a,ha⟩ := h
    cases s with
    | nil => cases ha
    | cons b rest =>
      cases ha
      exact Nat.lt_succ_self _

variable (it : Pull ε α σ)

/-- Elements that pass. -/
@[grind] def filterIter (keep : α → Except ε Bool) : Pull ε α σ :=
  ⟨it.start,filterNext it keep,Subrelation.wf later_filter it.ends.transGen⟩

/-- Elements without the first ones. -/
@[grind] def skipIter (count : Nat) : Pull ε α (Nat×σ) where
  start := (count,it.start)
  next s := skipNext it s.1 s.2
  ends := Subrelation.wf (fun h => h.elim fun _ => later_skip) (InvImage.wf Prod.snd it.ends.transGen)

/-- The first elements. -/
@[grind] def limitIter (count : Nat) : Pull ε α (Nat×σ) where
  start := (count,it.start)
  next s := limitNext it s.1 s.2
  ends := Subrelation.wf (fun h => h.elim fun _ => later_limit) (InvImage.wf Prod.snd it.ends)

/-- Elements that the elements are expanded to. -/
@[grind] def expandIter (f : α → Except ε (List β)) : Pull ε β (List β×σ) where
  start := ([],it.start)
  next s := expandNext it f s.1 s.2
  ends := by
    refine Subrelation.wf ?_ (InvImage.wf Prod.swap (WellFounded.prod_lex it.ends.transGen (measure List.length).wf))
    intro s' s h
    have ⟨b,hb⟩ := h
    have ⟨held,inner⟩ := s
    have ⟨held',inner'⟩ := s'
    cases later_expand hb with
    | inl hheld =>
      have ⟨hsame,hcons⟩ := hheld
      dsimp only at hsame hcons
      subst hsame hcons
      exact Prod.Lex.right _ (Nat.lt_succ_self _)
    | inr hlater => exact Prod.Lex.left _ _ hlater

end Iterators

section Traces

variable (it : Pull ε α σ)

theorem drain_vecIter (first l : List α) : drain (vecIter first : Pull ε α (List α)) l=(l,none) := by
  induction l with
  | nil =>
    rw [drain_eq]
    rfl
  | cons a rest ih =>
    rw [drain_eq]
    exact congrArg (Trace.after [a]) ih

/-- What a filter makes of an element. -/
@[grind] def kept (keep : α → Except ε Bool) (a : α) : Except ε (List α) :=
  (keep a).map fun passes => if passes=true then [a] else []

/-- A filter is a pass. -/
theorem drain_filterIter (keep : α → Except ε Bool) (s : σ) :
    drain (filterIter it keep) s=Trace.pass (kept keep) (drain it s).1 (drain it s).2 := by
  induction s using it.ends.induction with
  | h s ih =>
    rw [drain_eq,drain_eq s]
    change Trace.ofCall (drain (filterIter it keep)) (filterNext it keep s)=_
    rw [filterNext]
    split
    · rename_i e hnext
      rw [hnext]
      rfl
    · rename_i hnext
      rw [hnext]
      rfl
    · rename_i a s' hnext
      have hrest := ih s' ⟨a,hnext⟩
      rw [hnext]
      cases hkeep : keep a with
      | error e => simp [Trace.ofCall,Trace.after,Trace.pass,kept,hkeep,Except.map]
      | ok passes =>
        cases passes with
        | true => simp [Trace.ofCall,Trace.after,Trace.pass,kept,hkeep,Except.map,hrest]
        | false =>
          rw [drain_eq] at hrest
          change Trace.ofCall _ (filterNext it keep s')=_ at hrest
          simp [Trace.after,Trace.pass,Trace.ofCall,kept,hkeep,Except.map,←hrest]

/-- A bound from below drops elements. -/
theorem drain_skipIter (count n : Nat) (s : σ) :
    drain (skipIter it count) (n,s)=((drain it s).1.drop n,(drain it s).2) := by
  induction n generalizing s with
  | zero =>
    induction s using it.ends.induction with
    | h s ih =>
      rw [drain_eq,drain_eq s]
      change Trace.ofCall (drain (skipIter it count)) (skipNext it 0 s)=_
      rw [skipNext]
      unfold Call.andThen
      cases hnext : it.next s with
      | error e => rfl
      | ok out =>
        cases out with
        | none => rfl
        | some x =>
          have hrest := ih x.2 ⟨x.1,hnext⟩
          simp [Trace.ofCall,Trace.after,hrest]
  | succ n ih =>
    rw [drain_eq,drain_eq s]
    change Trace.ofCall (drain (skipIter it count)) (skipNext it (n+1) s)=_
    rw [skipNext]
    unfold Call.andThen
    cases it.next s with
    | error e => rfl
    | ok out =>
      cases out with
      | none => rfl
      | some x =>
        have hrest := ih x.2
        rw [drain_eq] at hrest
        exact hrest

/-- A bound takes elements, and none of what comes later. -/
theorem drain_limitIter (count n : Nat) (s : σ) : drain (limitIter it count) (n,s)=
    ((drain it s).1.take n,if n≤(drain it s).1.length then none else (drain it s).2) := by
  induction n generalizing s with
  | zero =>
    rw [drain_eq]
    simp [limitIter,limitNext,Trace.ofCall]
  | succ n ih =>
    rw [drain_eq,drain_eq s]
    change Trace.ofCall (drain (limitIter it count)) (limitNext it (n+1) s)=_
    rw [limitNext]
    unfold Call.andThen
    cases it.next s with
    | error e => simp [Trace.ofCall]
    | ok out =>
      cases out with
      | none => simp [Trace.ofCall]
      | some x =>
        have hrest := ih x.2
        simp [Trace.ofCall,Trace.after,hrest]

/-- An expansion is a pass, after the elements that it holds. -/
theorem drain_expandIter (f : α → Except ε (List β)) (held : List β) (s : σ) :
    drain (expandIter it f) (held,s)=(Trace.pass f (drain it s).1 (drain it s).2).after held := by
  induction s using it.ends.induction generalizing held with
  | h s ih =>
    induction held with
    | nil =>
      rw [drain_eq,drain_eq s]
      change Trace.ofCall (drain (expandIter it f)) (expandNext it f [] s)=_
      rw [expandNext]
      split
      · rename_i e hnext
        rw [hnext]
        rfl
      · rename_i hnext
        rw [hnext]
        rfl
      · rename_i a s' hnext
        rw [hnext]
        cases hf : f a with
        | error e => simp [Trace.ofCall,Trace.after,Trace.pass,hf]
        | ok front =>
          have hrest := ih s' ⟨a,hnext⟩ front
          rw [drain_eq] at hrest
          change Trace.ofCall _ (expandNext it f front s')=_ at hrest
          rw [hrest]
          simp [Trace.ofCall,Trace.after,Trace.pass,hf]
    | cons b rest hrest =>
      rw [drain_eq]
      change Trace.ofCall (drain (expandIter it f)) (expandNext it f (b::rest) s)=_
      rw [expandNext]
      simp [Trace.ofCall,Trace.after,hrest]

end Traces

section Pipelines

/-- Operators of a pipeline; a blocking one collects its input first. -/
inductive Stage (ε α : Type) where
  | filter (keep : α → Except ε Bool)
  | expand (f : α → Except ε (List α))
  | skip (count : Nat)
  | limit (count : Nat)
  | block (f : List α → Except ε (List α))

/-- An iterator of any states. -/
structure Boxed (ε α : Type) where
  /-- States. -/
  State : Type
  /-- The iterator. -/
  iter : Pull ε α State

/-- What an iterator hands out. -/
@[grind] def Boxed.trace (b : Boxed ε α) : Trace ε α := drain b.iter b.iter.start

/-- Collect an input and change it. -/
@[grind] def blocked (f : List α → Except ε (List α)) (t : Trace ε α) : Except ε (List α) := t.collect >>= f

/-- Build the iterators of a pipeline on an input. -/
@[grind] def build : List (Stage ε α) → Boxed ε α → Except ε (Boxed ε α)
  | [],b => .ok b
  | .filter keep::rest,b => build rest ⟨_,filterIter b.iter keep⟩
  | .expand f::rest,b => build rest ⟨_,expandIter b.iter f⟩
  | .skip count::rest,b => build rest ⟨_,skipIter b.iter count⟩
  | .limit count::rest,b => build rest ⟨_,limitIter b.iter count⟩
  | .block f::rest,b =>
    match blocked f b.trace with
    | .error e => .error e
    | .ok out => build rest ⟨_,vecIter out⟩

/-- What the iterators of a pipeline hand out. -/
@[grind] def built (stages : List (Stage ε α)) (b : Boxed ε α) : Except ε (Trace ε α) :=
  match build stages b with
  | .error e => .error e
  | .ok top => .ok top.trace

/-- Build a pipeline on a list and collect what it hands out. -/
@[grind] def pulled (stages : List (Stage ε α)) (l : List α) : Except ε (List α) :=
  built stages ⟨_,vecIter l⟩ >>= Trace.collect

/-- What a pipeline makes of a trace. -/
@[grind] def acts : List (Stage ε α) → Trace ε α → Except ε (Trace ε α)
  | [],t => .ok t
  | .filter keep::rest,t => acts rest (Trace.pass (kept keep) t.1 t.2)
  | .expand f::rest,t => acts rest (Trace.pass f t.1 t.2)
  | .skip count::rest,t => acts rest (t.1.drop count,t.2)
  | .limit count::rest,t => acts rest (t.1.take count,if count≤t.1.length then none else t.2)
  | .block f::rest,t => blocked f t >>= fun out => acts rest (out,none)

/-- Run the operators of a pipeline one after the other on whole lists. -/
@[grind] def batch : List (Stage ε α) → List α → Except ε (List α)
  | [],l => .ok l
  | .filter keep::rest,l => sieve keep l >>= batch rest
  | .expand f::rest,l => gather f l >>= batch rest
  | .skip count::rest,l => batch rest (l.drop count)
  | .limit count::rest,l => batch rest (l.take count)
  | .block f::rest,l => f l >>= batch rest

/-- Whether a stage is not a bound from above. -/
@[grind] def Stage.unbounded : Stage ε α → Bool
  | .limit _ => false
  | _ => true

/-- Whether a stage does not collect its input. -/
@[grind] def Stage.flows : Stage ε α → Bool
  | .block _ => false
  | _ => true

/-- The iterators of a pipeline hand out what it makes of the trace of their input. -/
theorem built_eq (stages : List (Stage ε α)) (b : Boxed ε α) : built stages b=acts stages b.trace := by
  induction stages generalizing b with
  | nil => rfl
  | cons stage rest ih =>
    cases stage with
    | filter keep =>
      exact (ih ⟨_,filterIter b.iter keep⟩).trans (congrArg (acts rest) (drain_filterIter b.iter keep _))
    | expand f => exact (ih ⟨_,expandIter b.iter f⟩).trans (congrArg (acts rest) (drain_expandIter b.iter f [] _))
    | skip count => exact (ih ⟨_,skipIter b.iter count⟩).trans (congrArg (acts rest) (drain_skipIter b.iter count count _))
    | limit count =>
      exact (ih ⟨_,limitIter b.iter count⟩).trans (congrArg (acts rest) (drain_limitIter b.iter count count _))
    | block f =>
      rw [acts,built,build]
      cases blocked f b.trace with
      | error e => rfl
      | ok out => exact (ih ⟨_,vecIter out⟩).trans (congrArg (acts rest) (drain_vecIter out out))

theorem pulled_eq (stages : List (Stage ε α)) (l : List α) :
    pulled stages l=acts stages (l,none) >>= Trace.collect :=
  congrArg (· >>= Trace.collect) ((built_eq stages ⟨_,vecIter l⟩).trans (congrArg (acts stages) (drain_vecIter l l)))

variable {f : α → Except ε (List β)} {l : List α} {all : List β} {fin : Option ε}

theorem collect_ok {t : Trace ε β} (h : t.collect=.ok all) : t=(all,none) := by
  have ⟨l,fin⟩ := t
  cases fin with
  | some e => cases h
  | none => exact congrArg (·,none) (Except.ok.inj h)

/-- A pass goes on after elements. -/
theorem pass_append (h : gather f l=.ok all) (more : List α) (fin : Option ε) :
    Trace.pass f (l++more) fin=(Trace.pass f more fin).after all := by
  induction l generalizing all with
  | nil =>
    rw [←Except.ok.inj h]
    rfl
  | cons a rest ih =>
    have ⟨front,back,ha,hrest,hall⟩ := gather_cons_ok h
    rw [List.cons_append,Trace.pass,ha,ih hrest,hall]
    simp [Trace.after]

/-- A pass over a trace that does not fail collects. -/
theorem pass_ok (h : gather f l=.ok all) : Trace.pass f l none=(all,none) := by
  have hpass := pass_append h [] none
  rw [List.append_nil] at hpass
  rw [hpass]
  exact Prod.ext (List.append_nil all) rfl

/-- A pass does not fail only if the trace does not and it collects. -/
theorem pass_none (h : Trace.pass f l fin=(all,none)) : fin=none ∧ gather f l=.ok all := by
  induction l generalizing all with
  | nil =>
    cases h
    exact ⟨rfl,rfl⟩
  | cons a rest ih =>
    rw [Trace.pass] at h
    rw [gather]
    cases ha : f a with
    | error e =>
      rw [ha] at h
      cases h
    | ok front =>
      rw [ha] at h
      have ⟨hall,hfin⟩ := Prod.mk.inj h
      have ⟨hnone,hrest⟩ := ih (Prod.ext rfl hfin)
      rw [hrest]
      exact ⟨hnone,congrArg Except.ok hall⟩

/-- A pass over the first elements of a trace hands out first elements. -/
theorem pass_front {front : List α} (h : gather f front=.ok all) (hfront : front<+:l) (fin : Option ε) :
    all<+:(Trace.pass f l fin).1 := by
  have ⟨more,hmore⟩ := hfront
  rw [←hmore,pass_append h]
  exact List.prefix_append all _

theorem gather_kept (keep : α → Except ε Bool) (l : List α) : gather (kept keep) l=sieve keep l := by
  induction l with
  | nil => rfl
  | cons a rest ih =>
    rw [gather,sieve,ih,kept]
    cases keep a with
    | error e => rfl
    | ok passes =>
      cases sieve keep rest with
      | error e | ok all => cases passes <;> rfl

variable {stages : List (Stage ε α)} {t : Trace ε α} {out : List α}

/-- A pipeline makes of a list what the operators return. -/
theorem acts_batch (h : batch stages l=.ok out) : acts stages (l,none)=.ok (out,none) := by
  induction stages generalizing l with
  | nil => exact congrArg (fun l => Except.ok (l,none)) (Except.ok.inj h)
  | cons stage rest ih =>
    cases stage with
    | filter keep =>
      have ⟨all,hall,hrest⟩ := exists_of_bind h
      rw [←gather_kept] at hall
      rw [acts,pass_ok hall]
      exact ih hrest
    | expand f =>
      have ⟨all,hall,hrest⟩ := exists_of_bind h
      rw [acts,pass_ok hall]
      exact ih hrest
    | skip count => exact ih h
    | limit count =>
      rw [acts,ite_self]
      exact ih h
    | block f =>
      have ⟨all,hall,hrest⟩ := exists_of_bind h
      rw [acts,blocked,Trace.collect]
      exact (congrArg (· >>= fun out => acts rest (out,none)) hall).trans (ih hrest)

/-- Without a bound, a pipeline that does not fail makes what the operators return of a list. -/
theorem batch_acts (hfree : ∀ stage∈stages,stage.unbounded=true) (h : acts stages t=.ok (out,none)) :
    t.2=none ∧ batch stages t.1=.ok out := by
  induction stages generalizing t with
  | nil =>
    rw [Except.ok.inj h]
    exact ⟨rfl,rfl⟩
  | cons stage rest ih =>
    have hrest := fun t => @ih t fun stage hin => hfree stage (List.mem_cons_of_mem _ hin)
    have hstage := hfree stage List.mem_cons_self
    cases stage with
    | filter keep =>
      have ⟨hnone,hbatch⟩ := hrest _ h
      have ⟨hfin,hall⟩ := pass_none (Prod.ext rfl hnone)
      rw [gather_kept] at hall
      exact ⟨hfin,(congrArg (· >>= batch rest) hall).trans hbatch⟩
    | expand f =>
      have ⟨hnone,hbatch⟩ := hrest _ h
      have ⟨hfin,hall⟩ := pass_none (Prod.ext rfl hnone)
      exact ⟨hfin,(congrArg (· >>= batch rest) hall).trans hbatch⟩
    | skip count => exact hrest _ h
    | limit count => cases hstage
    | block f =>
      have ⟨back,hback,hacts⟩ := exists_of_bind h
      have ⟨all,hall,hf⟩ := exists_of_bind hback
      rw [collect_ok hall]
      exact ⟨rfl,(congrArg (· >>= batch rest) hf).trans (hrest _ hacts).2⟩

/-- A bound on a pipeline without blocking operators is reached on the first elements of a
trace, whatever comes after them. -/
theorem acts_lazy {front : List α} {count : Nat} (hflows : ∀ stage∈stages,stage.flows=true)
    (hfront : front<+:t.1) (h : batch stages front=.ok out) (hcount : count≤out.length) :
    acts (stages++[.limit count]) t=.ok (out.take count,none) := by
  induction stages generalizing t front with
  | nil =>
    rw [←Except.ok.inj h] at hcount ⊢
    have hlength := Nat.le_trans hcount (List.IsPrefix.length_le hfront)
    have ⟨more,hmore⟩ := hfront
    rw [List.nil_append,acts,if_pos hlength,←hmore,List.take_append_of_le_length hcount]
    rfl
  | cons stage rest ih =>
    have hrest := fun t front => @ih t front fun stage hin => hflows stage (List.mem_cons_of_mem _ hin)
    have hstage := hflows stage List.mem_cons_self
    cases stage with
    | filter keep =>
      have ⟨all,hall,hout⟩ := exists_of_bind h
      rw [←gather_kept] at hall
      exact hrest _ all (pass_front hall hfront t.2) hout
    | expand f =>
      have ⟨all,hall,hout⟩ := exists_of_bind h
      exact hrest _ all (pass_front hall hfront t.2) hout
    | skip skipped => exact hrest _ _ (List.IsPrefix.drop hfront skipped) h
    | limit bound => exact hrest _ _ (List.IsPrefix.take hfront bound) h
    | block f => cases hstage

end Pipelines

end GraphDbLite.PullStreams
