import Mathlib.Order.Compare
import Mathlib.Tactic.Common

/-!
# Laws of comparators

A comparator is a total preorder when a value equals itself, the two orders of a pair are
opposite and the three comparisons of a triple fit together. Comparators one after the
other, and of lists by their items, keep the laws. A loop that keeps the smaller value
ends with a least one.
-/

namespace GraphDbLite.ComparatorLaws

/-- The comparisons of a triple fit together: of the first with the second, of the second
with the third and of the first with the third. -/
def Chains (ab bc ac : Ordering) : Prop := (ab=.eq → ac=bc) ∧ (bc=.eq → ac=ab) ∧ (ab=bc → ac=ab)

/-- Whether comparisons fit together can be computed. -/
instance chainsDecidable (ab bc ac : Ordering) : Decidable (Chains ab bc ac) :=
  inferInstanceAs (Decidable (_ ∧ _ ∧ _))

/-- Comparators one after the other fit together, if the second ones do for values that the
first ones do not tell apart. -/
theorem chains_then {ab bc ac ab' bc' ac' : Ordering} (h : Chains ab bc ac)
    (h' : ab=.eq → bc=.eq → Chains ab' bc' ac') : Chains (ab.then ab') (bc.then bc') (ac.then ac') := by
  cases ab with
  | lt =>
    cases bc with
    | gt => exact ⟨fun h => (by cases h),fun h => (by cases h),fun h => (by cases h)⟩
    | lt =>
      rw [h.2.2 rfl]
      exact ⟨fun h => (by cases h),fun h => (by cases h),fun _ => rfl⟩
    | eq =>
      rw [h.2.1 rfl]
      exact ⟨fun h => (by cases h),fun _ => rfl,fun _ => rfl⟩
  | gt =>
    cases bc with
    | lt => exact ⟨fun h => (by cases h),fun h => (by cases h),fun h => (by cases h)⟩
    | gt =>
      rw [h.2.2 rfl]
      exact ⟨fun h => (by cases h),fun h => (by cases h),fun _ => rfl⟩
    | eq =>
      rw [h.2.1 rfl]
      exact ⟨fun h => (by cases h),fun _ => rfl,fun _ => rfl⟩
  | eq =>
    rw [h.1 rfl]
    cases bc with
    | lt | gt => exact ⟨fun _ => rfl,fun h => (by cases h),fun heq => heq.symm⟩
    | eq => exact h' rfl rfl

theorem then_swap (o o' : Ordering) : (o.then o').swap=o.swap.then o'.swap := by
  cases o with
  | lt | eq | gt => rfl

theorem chains_of_transCmp {α : Type} {cmp : α → α → Ordering} [Std.TransCmp cmp] (a b c : α) :
    Chains (cmp a b) (cmp b c) (cmp a c) := by
  refine ⟨fun h => Std.TransCmp.congr_left h,fun h => (Std.TransCmp.congr_right h).symm,fun h => ?_⟩
  cases hab : cmp a b with
  | lt => exact Std.TransCmp.lt_trans hab (h.symm.trans hab)
  | gt => exact Std.TransCmp.gt_trans hab (h.symm.trans hab)
  | eq => exact Std.TransCmp.eq_trans hab (h.symm.trans hab)

section Lists

variable {α : Type} {cmp : α → α → Ordering}

/-- Lists by their first different items, else by their lengths. -/
@[grind] def compareLists (cmp : α → α → Ordering) : List α → List α → Ordering
  | a::as,b::bs => (cmp a b).then (compareLists cmp as bs)
  | as,bs => compare as.length bs.length

theorem compareLists_self {as : List α} (h : ∀ a∈as,cmp a a=.eq) : compareLists cmp as as=.eq := by
  induction as with
  | nil => rfl
  | cons a as ih =>
    rw [compareLists,h a List.mem_cons_self,ih fun x hx => h x (List.mem_cons_of_mem _ hx)]
    rfl

theorem compareLists_swap {as bs : List α} (h : ∀ a∈as,∀ b∈bs,cmp b a=(cmp a b).swap) :
    compareLists cmp bs as=(compareLists cmp as bs).swap := by
  induction as generalizing bs with
  | nil =>
    cases bs with
    | nil => rfl
    | cons b bs => exact Std.OrientedOrd.eq_swap
  | cons a as ih =>
    cases bs with
    | nil => exact Std.OrientedOrd.eq_swap
    | cons b bs =>
      rw [compareLists,compareLists,then_swap,h a List.mem_cons_self b List.mem_cons_self,
        ih fun x hx y hy => h x (List.mem_cons_of_mem _ hx) y (List.mem_cons_of_mem _ hy)]

theorem compareLists_nil (b : α) (bs : List α) :
    compareLists cmp [] (b::bs)=.lt ∧ compareLists cmp (b::bs) []=.gt :=
  ⟨Nat.compare_eq_lt.mpr (Nat.succ_pos _),Nat.compare_eq_gt.mpr (Nat.succ_pos _)⟩

theorem chains_compareLists {as bs cs : List α}
    (h : ∀ a∈as,∀ b∈bs,∀ c∈cs,Chains (cmp a b) (cmp b c) (cmp a c)) :
    Chains (compareLists cmp as bs) (compareLists cmp bs cs) (compareLists cmp as cs) := by
  induction as generalizing bs cs with
  | nil =>
    cases bs with
    | nil => exact ⟨fun _ => rfl,fun heq => heq.trans rfl,fun heq => heq.symm.trans rfl⟩
    | cons b bs =>
      cases cs with
      | nil =>
        rw [(compareLists_nil b bs).1,(compareLists_nil b bs).2]
        exact ⟨fun h => (by cases h),fun h => (by cases h),fun h => (by cases h)⟩
      | cons c cs =>
        rw [(compareLists_nil b bs).1,(compareLists_nil c cs).1]
        exact ⟨fun h => (by cases h),fun _ => rfl,fun _ => rfl⟩
  | cons a as ih =>
    cases bs with
    | nil =>
      cases cs with
      | nil =>
        rw [(compareLists_nil a as).2]
        exact ⟨fun h => (by cases h),fun _ => rfl,fun _ => rfl⟩
      | cons c cs =>
        rw [(compareLists_nil a as).2,(compareLists_nil c cs).1]
        exact ⟨fun h => (by cases h),fun h => (by cases h),fun h => (by cases h)⟩
    | cons b bs =>
      cases cs with
      | nil =>
        rw [(compareLists_nil a as).2,(compareLists_nil b bs).2]
        exact ⟨fun _ => rfl,fun h => (by cases h),fun heq => heq.symm⟩
      | cons c cs =>
        rw [compareLists,compareLists,compareLists]
        exact chains_then (h a List.mem_cons_self b List.mem_cons_self c List.mem_cons_self)
          fun _ _ => ih fun x hx y hy z hz => h x (List.mem_cons_of_mem _ hx) y
            (List.mem_cons_of_mem _ hy) z (List.mem_cons_of_mem _ hz)

/-- Lists that are equal under a comparator that tells all items apart are the same. -/
theorem eq_of_compareLists [Std.LawfulEqCmp cmp] {as bs : List α} (h : compareLists cmp as bs=.eq) : as=bs := by
  induction as generalizing bs with
  | nil =>
    cases bs with
    | nil => rfl
    | cons b bs => cases (compareLists_nil b bs).1.symm.trans h
  | cons a as ih =>
    cases bs with
    | nil => cases (compareLists_nil a as).2.symm.trans h
    | cons b bs =>
      rw [compareLists,Ordering.then_eq_eq] at h
      rw [Std.LawfulEqCmp.eq_of_compare h.1,ih h.2]

end Lists

section Least

variable {α : Type} {dom : α → Prop} {cmp : α → α → Ordering}

/-- A comparator is a total preorder on some values. -/
structure PreorderOn (dom : α → Prop) (cmp : α → α → Ordering) : Prop where
  /-- A value equals itself. -/
  self : ∀ a,dom a → cmp a a=.eq
  /-- The two orders of a pair are opposite. -/
  swap : ∀ a b,dom a → dom b → cmp b a=(cmp a b).swap
  /-- The comparisons of a triple fit together. -/
  chains : ∀ a b c,dom a → dom b → dom c → Chains (cmp a b) (cmp b c) (cmp a c)

/-- The reversed comparator. -/
def reversed (cmp : α → α → Ordering) (a b : α) : Ordering := cmp b a

theorem PreorderOn.reversed (h : PreorderOn dom cmp) : PreorderOn dom (reversed cmp) := by
  refine ⟨h.self,fun a b ha hb => h.swap b a hb ha,fun a b c ha hb hc => ?_⟩
  have hchains := h.chains c b a hc hb ha
  exact ⟨fun heq => hchains.2.1 heq,fun heq => hchains.1 heq,
    fun heq => (hchains.2.2 heq.symm).trans heq.symm⟩

theorem PreorderOn.le_trans (h : PreorderOn dom cmp) {a b c : α} (ha : dom a) (hb : dom b) (hc : dom c)
    (hab : cmp a b≠.gt) (hbc : cmp b c≠.gt) : cmp a c≠.gt := by
  have hchains := h.chains a b c ha hb hc
  cases heq : cmp a b with
  | gt => exact absurd heq hab
  | eq =>
    rw [hchains.1 heq]
    exact hbc
  | lt =>
    cases heq' : cmp b c with
    | gt => exact absurd heq' hbc
    | eq =>
      rw [hchains.2.1 heq']
      exact hab
    | lt =>
      rw [hchains.2.2 (heq.trans heq'.symm)]
      exact hab

theorem PreorderOn.eq_of_le (h : PreorderOn dom cmp) {a b : α} (ha : dom a) (hb : dom b) (hab : cmp a b≠.gt)
    (hba : cmp b a≠.gt) : cmp a b=.eq := by
  rw [h.swap a b ha hb] at hba
  cases heq : cmp a b with
  | eq => rfl
  | gt => exact absurd heq hab
  | lt =>
    rw [heq] at hba
    exact absurd rfl hba

/-- Keep a value unless the next one is smaller. -/
def keepSmaller (cmp : α → α → Ordering) (best : Option α) (val : α) : Option α :=
  match best with
  | none => some val
  | some old => if cmp val old=.lt then some val else some old

/-- The value that a loop over some values keeps. -/
def smallest (cmp : α → α → Ordering) (best : Option α) (vals : List α) : Option α :=
  vals.foldl (keepSmaller cmp) best

theorem PreorderOn.smallest_some (h : PreorderOn dom cmp) {old : α} {vals : List α} (hold : dom old)
    (hvals : ∀ v∈vals,dom v) : ∃ m,smallest cmp (some old) vals=some m ∧ (m=old ∨ m∈vals) ∧
      cmp m old≠.gt ∧ ∀ v∈vals,cmp m v≠.gt := by
  induction vals generalizing old with
  | nil =>
    refine ⟨old,rfl,.inl rfl,?_,fun v hv => absurd hv List.not_mem_nil⟩
    rw [h.self old hold]
    exact fun heq => (by cases heq)
  | cons v vals ih =>
    have hv := hvals v List.mem_cons_self
    have hrest : ∀ x∈vals,dom x := fun x hx => hvals x (List.mem_cons_of_mem _ hx)
    by_cases hlt : cmp v old=.lt
    · have ⟨m,hm,hmem,hle,hall⟩ := ih hv hrest
      have hdom : dom m := by
        cases hmem with
        | inl heq => exact heq.symm ▸ hv
        | inr hx => exact hrest m hx
      refine ⟨m,?_,?_,?_,?_⟩
      · rw [smallest,List.foldl_cons,keepSmaller,if_pos hlt]
        exact hm
      · cases hmem with
        | inl heq => exact .inr (heq ▸ List.mem_cons_self)
        | inr hx => exact .inr (List.mem_cons_of_mem _ hx)
      · exact h.le_trans hdom hv hold hle (by rw [hlt]; exact fun heq => (by cases heq))
      · exact List.forall_mem_cons.mpr ⟨hle,hall⟩
    · have ⟨m,hm,hmem,hle,hall⟩ := ih hold hrest
      have hdom : dom m := by
        cases hmem with
        | inl heq => exact heq.symm ▸ hold
        | inr hx => exact hrest m hx
      have hback : cmp old v≠.gt := by
        intro hgt
        rw [h.swap old v hold hv,hgt] at hlt
        exact hlt rfl
      refine ⟨m,?_,?_,hle,?_⟩
      · rw [smallest,List.foldl_cons,keepSmaller,if_neg hlt]
        exact hm
      · cases hmem with
        | inl heq => exact .inl heq
        | inr hx => exact .inr (List.mem_cons_of_mem _ hx)
      · exact List.forall_mem_cons.mpr ⟨h.le_trans hdom hold hv hle hback,hall⟩

theorem PreorderOn.smallest_least (h : PreorderOn dom cmp) {vals : List α} (hne : vals≠[])
    (hvals : ∀ v∈vals,dom v) : ∃ m,smallest cmp none vals=some m ∧ m∈vals ∧ ∀ v∈vals,cmp m v≠.gt := by
  cases vals with
  | nil => exact absurd rfl hne
  | cons v vals =>
    have hv := hvals v List.mem_cons_self
    have ⟨m,hm,hmem,hle,hall⟩ := h.smallest_some hv fun x hx => hvals x (List.mem_cons_of_mem _ hx)
    exact ⟨m,hm,List.mem_cons.mpr hmem,List.forall_mem_cons.mpr ⟨hle,hall⟩⟩

end Least

end GraphDbLite.ComparatorLaws
