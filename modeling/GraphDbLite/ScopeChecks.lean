import Mathlib.Logic.Basic
import Mathlib.Tactic.Common

/-!
# Checkers of references

A place of a program needs some references, which must be found in the scope of the place.
A checker looks at some of them only, and looks them up in a scope that it tracks itself.
It agrees with the scopes unless it refuses a reference that is in scope, or passes over
one that is not, and nothing else makes up for that.
-/

namespace GraphDbLite.ScopeChecks

/-- A place: what it needs and what the checker does there. -/
structure Place (Ref Scope : Type*) where
  /-- References that must be found. -/
  needed : List Ref
  /-- References that the checker looks at. -/
  looked : List Ref
  /-- Scope in which the checker looks. -/
  tracked : Scope
  /-- Scope of the place. -/
  scope : Scope
  /-- The checker only looks at what is needed. -/
  looked_needed : ∀ ref∈looked,ref∈needed

section Checker

variable {Ref Scope : Type*} (found : Scope → Ref → Prop)

/-- All references are in scope. -/
def Scoped (places : List (Place Ref Scope)) : Prop :=
  ∀ p∈places,∀ ref∈p.needed,found p.scope ref

/-- The checker finds all references that it looks at. -/
def Passed (places : List (Place Ref Scope)) : Prop :=
  ∀ p∈places,∀ ref∈p.looked,found p.tracked ref

/-- A reference is out of scope and the checker says so. -/
def Caught (places : List (Place Ref Scope)) : Prop :=
  ∃ p∈places,∃ ref∈p.looked,¬found p.tracked ref ∧ ¬found p.scope ref

/-- A reference is in scope but the checker does not find it. -/
def Refused (places : List (Place Ref Scope)) : Prop :=
  ∃ p∈places,∃ ref∈p.looked,¬found p.tracked ref ∧ found p.scope ref

/-- A reference is out of scope, and the checker does not look at it or finds it. -/
def Missed (places : List (Place Ref Scope)) : Prop :=
  ∃ p∈places,∃ ref∈p.needed,¬found p.scope ref ∧ (ref∈p.looked → found p.tracked ref)

variable {found} {places : List (Place Ref Scope)}

theorem passed_nil : Passed found [] := fun _ hp => absurd hp List.not_mem_nil

theorem passed_append (front back : List (Place Ref Scope)) :
    Passed found (front++back) ↔ Passed found front ∧ Passed found back :=
  List.forall_mem_append

theorem passed_of_unlooked (h : ∀ p∈places,p.looked=[]) : Passed found places := by
  intro p hp ref href
  rw [h p hp] at href
  exact absurd href List.not_mem_nil

theorem passed_iff : Passed found places ↔ ¬Caught found places ∧ ¬Refused found places := by
  constructor
  · intro hpassed
    have hcaught : ¬Caught found places := fun ⟨p,hp,ref,href,hlost,_⟩ => hlost (hpassed p hp ref href)
    have hrefused : ¬Refused found places := fun ⟨p,hp,ref,href,hlost,_⟩ => hlost (hpassed p hp ref href)
    exact ⟨hcaught,hrefused⟩
  · rintro ⟨hcaught,hrefused⟩ p hp ref href
    by_contra hlost
    by_cases hscope : found p.scope ref
    · exact hrefused ⟨p,hp,ref,href,hlost,hscope⟩
    · exact hcaught ⟨p,hp,ref,href,hlost,hscope⟩

theorem scoped_iff : Scoped found places ↔ ¬Caught found places ∧ ¬Missed found places := by
  constructor
  · intro hscoped
    have hcaught : ¬Caught found places :=
      fun ⟨p,hp,ref,href,_,hlost⟩ => hlost (hscoped p hp ref (p.looked_needed ref href))
    have hmissed : ¬Missed found places := fun ⟨p,hp,ref,href,hlost,_⟩ => hlost (hscoped p hp ref href)
    exact ⟨hcaught,hmissed⟩
  · rintro ⟨hcaught,hmissed⟩ p hp ref href
    by_contra hscope
    have htracked : ref∈p.looked → found p.tracked ref := by
      intro hlooked
      by_contra hlost
      exact hcaught ⟨p,hp,ref,hlooked,hlost,hscope⟩
    exact hmissed ⟨p,hp,ref,href,hscope,htracked⟩

/-- A checker that also demands a shape agrees with the scopes on the programs of another
shape, on those of which it catches a reference, and where it misses one exactly when it
refuses one. -/
theorem agrees_iff {shape : Prop} :
    (shape ∧ Passed found places ↔ shape ∧ Scoped found places) ↔
      ¬shape ∨ Caught found places ∨ (Missed found places ↔ Refused found places) := by
  rw [passed_iff,scoped_iff]
  tauto

end Checker

end GraphDbLite.ScopeChecks
