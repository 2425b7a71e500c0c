import Mathlib.Data.List.FinRange
import Mathlib.Data.List.Pairwise
import Mathlib.Tactic.Common

/-!
# Stable sorts by position

A sort is told how the elements at two positions compare, and answers with the positions
in their new order. When the comparison is a total preorder, the order is the stable one:
a later position comes first only if the comparison puts it strictly before. Otherwise the
order is not specified. Sorting by one comparison gives the stable order of another one,
whatever the sort does where it is free, exactly when the first is a total preorder that
has the same later positions strictly before earlier ones.
-/

namespace GraphDbLite.SortedPositions

/-- The stable order of two positions: the earlier one first unless it compares greater. -/
def Placed (cmp : Nat → Nat → Ordering) (i j : Nat) : Prop :=
  if i≤j then cmp i j≠.gt else cmp j i=.gt

instance decidablePlaced (cmp : Nat → Nat → Ordering) (i j : Nat) : Decidable (Placed cmp i j) :=
  inferInstanceAs (Decidable (if i≤j then cmp i j≠.gt else cmp j i=.gt))

/-- The positions below a number are in a total preorder. -/
structure TotalOn (cmp : Nat → Nat → Ordering) (n : Nat) : Prop where
  /-- The other way round. -/
  swap : ∀ i j,i<n → j<n → cmp j i=(cmp i j).swap
  /-- Transitivity. -/
  trans : ∀ i j k,i<n → j<n → k<n → cmp i j≠.gt → cmp j k≠.gt → cmp i k≠.gt

/-- What a sort promises: a permutation, in stable order under a total preorder. -/
structure Sorts (arrange : (Nat → Nat → Ordering) → Nat → List Nat) : Prop where
  /-- All positions, each once. -/
  perm : ∀ cmp n,(arrange cmp n).Perm (List.range n)
  /-- The stable order. -/
  placed : ∀ cmp n,TotalOn cmp n → (arrange cmp n).Pairwise (Placed cmp)

section Orders

variable {cmp : Nat → Nat → Ordering} {n : Nat}

theorem TotalOn.le_of_placed (h : TotalOn cmp n) {i j : Nat} (hi : i<n) (hj : j<n)
    (hplaced : Placed cmp i j) : cmp i j≠.gt := by
  rw [Placed] at hplaced
  by_cases hle : i≤j
  · rwa [if_pos hle] at hplaced
  · rw [if_neg hle] at hplaced
    rw [h.swap j i hj hi,hplaced]
    exact fun heq => nomatch heq

theorem TotalOn.placed_trans (h : TotalOn cmp n) {i j k : Nat} (hi : i<n) (hj : j<n) (hk : k<n)
    (hfirst : Placed cmp i j) (hsecond : Placed cmp j k) : Placed cmp i k := by
  have hij := h.le_of_placed hi hj hfirst
  have hjk := h.le_of_placed hj hk hsecond
  have hik := h.trans i j k hi hj hk hij hjk
  rw [Placed] at hfirst hsecond ⊢
  by_cases hle : i≤k
  · rw [if_pos hle]
    exact hik
  · rw [if_neg hle]
    by_contra hki
    by_cases hlate : i≤j
    · have hearly : ¬j≤k := by omega
      rw [if_neg hearly] at hsecond
      exact h.trans k i j hk hi hj hki hij hsecond
    · rw [if_neg hlate] at hfirst
      exact h.trans j k i hj hk hi hjk hki hfirst

theorem placed_total (cmp : Nat → Nat → Ordering) {i j : Nat} (hne : i≠j) :
    Placed cmp i j ∨ Placed cmp j i := by
  rw [Placed,Placed]
  by_cases hle : i≤j
  · have hnot : ¬j ≤ i := by omega
    rw [if_pos hle,if_neg hnot]
    exact ne_or_eq _ _
  · have hge : j ≤ i := by omega
    rw [if_neg hle,if_pos hge]
    exact (ne_or_eq _ _).symm

/-- A merge sort by the stable order. -/
def mergeArrange (cmp : Nat → Nat → Ordering) (n : Nat) : List Nat :=
  ((List.finRange n).mergeSort fun i j => decide (Placed cmp i j)).map Fin.val

theorem sorts_mergeArrange : Sorts mergeArrange := by
  have hperm (cmp : Nat → Nat → Ordering) (n : Nat) : (mergeArrange cmp n).Perm (List.range n) := by
    have hsorted := (List.mergeSort_perm (List.finRange n) fun i j => decide (Placed cmp i j)).map Fin.val
    rwa [List.map_coe_finRange_eq_range] at hsorted
  have hplaced (cmp : Nat → Nat → Ordering) (n : Nat) (h : TotalOn cmp n) :
      (mergeArrange cmp n).Pairwise (Placed cmp) := by
    have htrans : ∀ i j k : Fin n,decide (Placed cmp i j)=true → decide (Placed cmp j k)=true →
        decide (Placed cmp i k)=true := by
      intro i j k hij hjk
      exact decide_eq_true (h.placed_trans i.isLt j.isLt k.isLt (of_decide_eq_true hij) (of_decide_eq_true hjk))
    have htotal : ∀ i j : Fin n,(decide (Placed cmp i j) || decide (Placed cmp j i))=true := by
      intro i j
      rw [Bool.or_eq_true,decide_eq_true_iff,decide_eq_true_iff]
      by_cases heq : i=j
      · have hself := h.swap i i i.isLt i.isLt
        rw [heq,or_self,Placed,if_pos le_rfl]
        intro hgt
        rw [heq,hgt] at hself
        exact absurd hself (by decide)
      · exact placed_total cmp fun hval => heq (Fin.ext hval)
    have hsorted := List.pairwise_mergeSort htrans htotal (List.finRange n)
    exact List.pairwise_map.mpr (hsorted.imp of_decide_eq_true)
  exact ⟨hperm,hplaced⟩

end Orders

section Freedom

variable {arrange : (Nat → Nat → Ordering) → Nat → List Nat}

open Classical in
/-- A sort that falls back to a given order where it is free. -/
noncomputable def withFallback (fallback : List Nat → List Nat)
    (arrange : (Nat → Nat → Ordering) → Nat → List Nat) (cmp : Nat → Nat → Ordering) (n : Nat) : List Nat :=
  if TotalOn cmp n then arrange cmp n else fallback (List.range n)

theorem sorts_withFallback (h : Sorts arrange) (fallback : List Nat → List Nat)
    (hperm : ∀ l,(fallback l).Perm l) : Sorts (withFallback fallback arrange) := by
  have hall (cmp : Nat → Nat → Ordering) (n : Nat) :
      (withFallback fallback arrange cmp n).Perm (List.range n) := by
    rw [withFallback]
    by_cases htotal : TotalOn cmp n
    · rw [if_pos htotal]
      exact h.perm cmp n
    · rw [if_neg htotal]
      exact hperm _
  have hplaced (cmp : Nat → Nat → Ordering) (n : Nat) (htotal : TotalOn cmp n) :
      (withFallback fallback arrange cmp n).Pairwise (Placed cmp) := by
    rw [withFallback,if_pos htotal]
    exact h.placed cmp n htotal
  exact ⟨hall,hplaced⟩

end Freedom

section Agreement

variable {planned intended : Nat → Nat → Ordering} {n : Nat}

/-- Both comparisons put the same later positions strictly before earlier ones. -/
def SameInversions (planned intended : Nat → Nat → Ordering) (n : Nat) : Prop :=
  ∀ i j,i<j → j<n → (planned i j=.gt ↔ intended i j=.gt)

theorem placed_of_same (h : SameInversions planned intended n) {i j : Nat} (hi : i<n) (hj : j<n)
    (hne : i≠j) : Placed planned i j ↔ Placed intended i j := by
  rw [Placed,Placed]
  by_cases hle : i≤j
  · rw [if_pos hle,if_pos hle]
    exact not_congr (h i j (lt_of_le_of_ne hle hne) hj)
  · rw [if_neg hle,if_neg hle]
    exact h j i (by omega) hi

/-- The comparisons invert two positions alike. -/
def Alike (planned intended : Nat → Nat → Ordering) (i j : Nat) : Prop :=
  (i<j → (planned i j=.gt ↔ intended i j=.gt)) ∧ (j < i → (planned j i=.gt ↔ intended j i=.gt))

instance alikeSymm (planned intended : Nat → Nat → Ordering) : Std.Symm (Alike planned intended) :=
  ⟨fun _ _ h => ⟨h.2,h.1⟩⟩

theorem alike_of_placed {i j : Nat} (hplanned : Placed planned i j) (hintended : Placed intended i j) :
    Alike planned intended i j := by
  rw [Placed] at hplanned hintended
  constructor
  · intro hlt
    rw [if_pos (le_of_lt hlt)] at hplanned hintended
    exact iff_of_false hplanned hintended
  · intro hlt
    rw [if_neg (not_le_of_gt hlt)] at hplanned hintended
    exact iff_of_true hplanned hintended

theorem inverted_of_placed {l : List Nat} (hl : l.Perm (List.range n))
    (hplanned : l.Pairwise (Placed planned)) (hintended : l.Pairwise (Placed intended)) :
    SameInversions planned intended n := by
  intro i j hij hj
  have hmemi : i∈l := hl.mem_iff.mpr (List.mem_range.mpr (lt_trans hij hj))
  have hmemj : j∈l := hl.mem_iff.mpr (List.mem_range.mpr hj)
  have halike : l.Pairwise (Alike planned intended) :=
    (List.pairwise_and_iff.mpr ⟨hplanned,hintended⟩).imp fun h => alike_of_placed h.1 h.2
  exact (halike.forall hmemi hmemj (ne_of_lt hij)).1 hij

/-- A sort by one comparison gives the stable order of another one, whatever it does where it
is free, exactly for at most one position or when the first is a total preorder with the same
inversions. -/
theorem stable_iff :
    (∀ arrange,Sorts arrange → (arrange planned n).Pairwise (Placed intended)) ↔
      n≤1 ∨ (TotalOn planned n ∧ SameInversions planned intended n) := by
  constructor
  · intro h
    by_cases hsmall : n≤1
    · exact Or.inl hsmall
    · have htotal : TotalOn planned n := by
        by_contra hfree
        have hforward := h _ (sorts_withFallback sorts_mergeArrange id fun l => List.Perm.refl l)
        have hbackward := h _ (sorts_withFallback sorts_mergeArrange List.reverse List.reverse_perm)
        rw [withFallback,if_neg hfree] at hforward hbackward
        have hpairF := List.pairwise_iff_getElem.mp hforward 0 1 (by simp; omega) (by simp; omega) (by omega)
        have hpairB := List.pairwise_iff_getElem.mp (List.pairwise_reverse.mp hbackward) 0 1
          (by simp; omega) (by simp; omega) (by omega)
        simp only [id_eq,List.getElem_range,Placed] at hpairF hpairB
        exact hpairF hpairB
      have hintended := h _ sorts_mergeArrange
      exact Or.inr ⟨htotal,inverted_of_placed (sorts_mergeArrange.perm _ _)
        (sorts_mergeArrange.placed _ _ htotal) hintended⟩
  · intro h arrange hsorts
    have hperm := hsorts.perm planned n
    rcases h with hsmall|⟨htotal,hsame⟩
    · have hlength : (arrange planned n).length≤1 := by rw [hperm.length_eq,List.length_range]; exact hsmall
      match arrange planned n,hlength with
      | [],_ => exact List.Pairwise.nil
      | [i],_ => exact List.pairwise_singleton _ i
    · have hnodup : (arrange planned n).Nodup := hperm.nodup_iff.mpr List.nodup_range
      have hboth := List.pairwise_and_iff.mpr ⟨hsorts.placed planned n htotal,hnodup⟩
      refine hboth.imp_of_mem fun {i j} hi hj hij => ?_
      exact (placed_of_same hsame (List.mem_range.mp (hperm.mem_iff.mp hi))
        (List.mem_range.mp (hperm.mem_iff.mp hj)) hij.2).mp hij.1

end Agreement

end GraphDbLite.SortedPositions
