import Mathlib.Order.WellFounded
import Mathlib.Tactic.Common

/-!
# Loops that return

A round of a loop goes on with a new state or ends with a result. A loop returns a result
when some number of rounds reaches it; more rounds do not change it. A measure that every
round lowers makes a loop return, with a result that an invariant of the states describes.
-/

namespace GraphDbLite.LoopRuns

variable {σ ρ : Type}

/-- Rounds of a loop, at most a number of them. -/
@[grind] def rounds (step : σ → σ⊕ρ) : Nat → σ → Option ρ
  | 0,_ => none
  | n+1,s =>
    match step s with
    | .inl s' => rounds step n s'
    | .inr r => some r

/-- A loop returns a result from a state. -/
@[grind] def Returns (step : σ → σ⊕ρ) (s : σ) (r : ρ) : Prop := ∃ n,rounds step n s=some r

section Rounds

variable {step : σ → σ⊕ρ} {s s' : σ} {r r' : ρ}

theorem returns_done (h : step s=.inr r) : Returns step s r := ⟨1,by rw [rounds,h]⟩

theorem returns_step (h : step s=.inl s') (hrest : Returns step s' r) : Returns step s r := by
  cases hrest with
  | intro n hn => exact ⟨n+1,by rw [rounds,h]; exact hn⟩

theorem rounds_mono {n : Nat} (h : rounds step n s=some r) (more : Nat) : rounds step (n+more) s=some r := by
  induction n generalizing s with
  | zero => exact nomatch h
  | succ n ih =>
    rw [Nat.add_right_comm,rounds]
    rw [rounds] at h
    cases hstep : step s with
    | inl s₁ =>
      rw [hstep] at h
      exact ih h
    | inr r₁ =>
      rw [hstep] at h
      exact h

theorem returns_unique (h : Returns step s r) (h' : Returns step s r') : r=r' := by
  cases h with
  | intro n hn =>
    cases h' with
    | intro m hm =>
      have hfirst := rounds_mono hn m
      have hsecond := rounds_mono hm n
      rw [Nat.add_comm,hfirst] at hsecond
      exact Option.some.inj hsecond

theorem returns_of_measure {β : Type} [Preorder β] [WellFoundedLT β] (inv : σ → Prop) {post : ρ → Prop}
    (measure : σ → β) (hgo : ∀ s s',inv s → step s=.inl s' → inv s' ∧ measure s'< measure s)
    (hend : ∀ s r,inv s → step s=.inr r → post r) (hs : inv s) : ∃ r,Returns step s r ∧ post r := by
  induction hn : measure s using WellFoundedLT.induction generalizing s with
  | ind n ih =>
    cases hstep : step s with
    | inl s₁ =>
      have hnext := hgo s s₁ hs hstep
      rw [hn] at hnext
      cases ih (measure s₁) hnext.2 hnext.1 rfl with
      | intro r hr => exact ⟨r,returns_step hstep hr.1,hr.2⟩
    | inr r => exact ⟨r,returns_done hstep,hend s r hs hstep⟩

end Rounds

section Reached

variable {step : σ → σ⊕ρ} {s s' : σ}

/-- The states that the rounds of a loop go through. -/
inductive Reaches (step : σ → σ⊕ρ) (s : σ) : σ → Prop
  /-- The first state. -/
  | here : Reaches step s s
  /-- One more round. -/
  | round {s₁ s₂ : σ} : Reaches step s s₁ → step s₁=.inl s₂ → Reaches step s s₂

theorem Reaches.inv {inv : σ → Prop} (h : Reaches step s s') (hgo : ∀ s s',inv s → step s=.inl s' → inv s')
    (hs : inv s) : inv s' := by
  induction h with
  | here => exact hs
  | round _ hstep ih => exact hgo _ _ ih hstep

end Reached

section Related

variable {τ ρ' : Type}

theorem rounds_map {step : σ → σ⊕ρ} {step' : τ → τ⊕ρ'} (f : σ → τ) (g : ρ → ρ')
    (hstep : ∀ s,step' (f s)=(step s).map f g) (n : Nat) (s : σ) : rounds step' n (f s)=(rounds step n s).map g := by
  induction n generalizing s with
  | zero => rfl
  | succ n ih =>
    rw [rounds,rounds,hstep]
    cases step s with
    | inl s' => exact ih s'
    | inr r => rfl

end Related

end GraphDbLite.LoopRuns
