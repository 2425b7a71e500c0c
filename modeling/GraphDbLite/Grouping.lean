import Mathlib.Data.List.Induction
import Mathlib.Data.List.Pairwise
import Mathlib.Tactic.SplitIfs

/-!
# Groups and representatives under a test

Rows are grouped by their keys in the order of first rows, or only the first row of each
kind is kept. When the test is an equivalence on the admitted keys, two rows share a group,
and two rows share a representative, exactly when the test holds of them.
-/

namespace GraphDbLite.Grouping

variable {κ ρ : Type}

/-- A test that is an equivalence on the admitted keys. -/
structure EquivalenceOn (admitted : κ → Prop) (same : κ → κ → Bool) : Prop where
  /-- Every key passes with itself. -/
  refl : ∀ a,admitted a → same a a=true
  /-- The sides can be exchanged. -/
  symm : ∀ a b,admitted a → admitted b → same a b=true → same b a=true
  /-- Tests compose. -/
  trans : ∀ a b c,admitted a → admitted b → admitted c → same a b=true → same b c=true → same a c=true

/-- Add a row to the first group of its key, or open a group. -/
@[grind] def insertGroup (same : κ → κ → Bool) (key : κ) (row : ρ) : List (κ×List ρ) → List (κ×List ρ)
  | [] => [(key,[row])]
  | group::rest =>
    if same group.1 key=true then (group.1,group.2++[row])::rest
    else group::insertGroup same key row rest

/-- The groups of some rows in the order of their first rows. -/
@[grind] def groupRows (same : κ → κ → Bool) (key : ρ → κ) (rows : List ρ) : List (κ×List ρ) :=
  rows.foldl (fun groups row => insertGroup same (key row) row groups) []

/-- The rows that are the first of their kind, also among those seen before. -/
@[grind] def keepFirst (same : ρ → ρ → Bool) (seen : List ρ) : List ρ → List ρ
  | [] => []
  | row::rest =>
    if (seen.any fun old => same old row)=true then keepFirst same seen rest
    else row::keepFirst same (seen++[row]) rest

/-- Two rows in one group. -/
@[grind] def SameGroup (groups : List (κ×List ρ)) (x y : ρ) : Prop := ∃ group∈groups,x∈group.2 ∧ y∈group.2

/-- Groups of some rows: the keys of a group pass with its key, and keys of groups fail
with each other. -/
structure Grouped (admitted : κ → Prop) (same : κ → κ → Bool) (key : ρ → κ) (rows : List ρ)
    (groups : List (κ×List ρ)) : Prop where
  /-- Keys of groups are admitted. -/
  keys : ∀ group∈groups,admitted group.1
  /-- Rows of a group pass with its key. -/
  members : ∀ group∈groups,∀ row∈group.2,row∈rows ∧ same group.1 (key row)=true
  /-- Groups are apart. -/
  apart : (groups.map Prod.fst).Pairwise fun a b => same a b≠true
  /-- Every row is in a group. -/
  covered : ∀ row∈rows,∃ group∈groups,row∈group.2

section Groups

variable {admitted : κ → Prop} {same : κ → κ → Bool} {key : ρ → κ}

/-- A group after an insertion is an old one, an old one with the row, or the new one. -/
theorem mem_insertGroup {k : κ} {row : ρ} {groups : List (κ×List ρ)} {group : κ×List ρ}
    (h : group∈insertGroup same k row groups) :
    group∈groups ∨ (∃ old∈groups,same old.1 k=true ∧ group=(old.1,old.2++[row])) ∨ group=(k,[row]) := by
  induction groups with
  | nil => exact Or.inr (Or.inr (List.mem_singleton.mp h))
  | cons first rest ih =>
    rw [insertGroup] at h
    split_ifs at h with hsame
    · rcases List.mem_cons.mp h with hnew|hold
      · exact Or.inr (Or.inl ⟨first,List.mem_cons_self,hsame,hnew⟩)
      · exact Or.inl (List.mem_cons_of_mem _ hold)
    · rcases List.mem_cons.mp h with hfirst|hrest
      · rw [hfirst]
        exact Or.inl List.mem_cons_self
      · rcases ih hrest with hold|⟨old,hold,htest,hshape⟩|hnew
        · exact Or.inl (List.mem_cons_of_mem _ hold)
        · exact Or.inr (Or.inl ⟨old,List.mem_cons_of_mem _ hold,htest,hshape⟩)
        · exact Or.inr (Or.inr hnew)

theorem keys_insertGroup (same : κ → κ → Bool) (k : κ) (row : ρ) (groups : List (κ×List ρ)) :
    (insertGroup same k row groups).map Prod.fst=groups.map Prod.fst ∨
      (insertGroup same k row groups).map Prod.fst=groups.map Prod.fst++[k] ∧
        ∀ old∈groups.map Prod.fst,same old k≠true := by
  induction groups with
  | nil => exact Or.inr ⟨rfl,fun _ hold => absurd hold List.not_mem_nil⟩
  | cons first rest ih =>
    rw [insertGroup]
    split_ifs with hsame
    · exact Or.inl rfl
    · rw [List.map_cons,List.map_cons]
      rcases ih with hkept|⟨hadded,hapart⟩
      · exact Or.inl (by rw [hkept])
      · refine Or.inr ⟨by rw [hadded,List.cons_append],fun old hold => ?_⟩
        rcases List.mem_cons.mp hold with hfirst|hrest
        · rw [hfirst]
          exact hsame
        · exact hapart old hrest

theorem insertGroup_keeps (same : κ → κ → Bool) (k : κ) (row : ρ) {groups : List (κ×List ρ)} {group : κ×List ρ} (h : group∈groups) :
    ∃ larger∈insertGroup same k row groups,∀ x∈group.2,x∈larger.2 := by
  induction groups with
  | nil => exact absurd h List.not_mem_nil
  | cons first rest ih =>
    rw [insertGroup]
    split_ifs with hsame
    · rcases List.mem_cons.mp h with hfirst|hrest
      · rw [hfirst]
        exact ⟨_,List.mem_cons_self,fun x hx => List.mem_append_left _ hx⟩
      · exact ⟨group,List.mem_cons_of_mem _ hrest,fun x hx => hx⟩
    · rcases List.mem_cons.mp h with hfirst|hrest
      · rw [hfirst]
        exact ⟨first,List.mem_cons_self,fun x hx => hx⟩
      · have ⟨larger,hlarger,hkept⟩ := ih hrest
        exact ⟨larger,List.mem_cons_of_mem _ hlarger,hkept⟩

theorem insertGroup_adds (k : κ) (row : ρ) (groups : List (κ×List ρ)) :
    ∃ group∈insertGroup same k row groups,row∈group.2 := by
  induction groups with
  | nil => exact ⟨_,List.mem_cons_self,List.mem_singleton_self row⟩
  | cons first rest ih =>
    rw [insertGroup]
    split_ifs with hsame
    · exact ⟨_,List.mem_cons_self,List.mem_append_right _ (List.mem_singleton_self row)⟩
    · have ⟨group,hgroup,hrow⟩ := ih
      exact ⟨group,List.mem_cons_of_mem _ hgroup,hrow⟩

theorem covered_groupRows (rows : List ρ) {row : ρ} (h : row∈rows) :
    ∃ group∈groupRows same key rows,row∈group.2 := by
  have hloop : ∀ (rest : List ρ) (groups : List (κ×List ρ)) (x : ρ),
      (x∈rest ∨ ∃ group∈groups,x∈group.2) →
      ∃ group∈rest.foldl (fun groups row => insertGroup same (key row) row groups) groups,x∈group.2 := by
    intro rest
    induction rest with
    | nil =>
      intro groups x hx
      rcases hx with hin|hold
      · exact absurd hin List.not_mem_nil
      · exact hold
    | cons first rest ih =>
      intro groups x hx
      refine ih _ x ?_
      rcases hx with hin|hold
      · rcases List.mem_cons.mp hin with hfirst|hrest
        · rw [hfirst]
          exact Or.inr (insertGroup_adds _ _ _)
        · exact Or.inl hrest
      · have ⟨group,hgroup,hmem⟩ := hold
        have ⟨larger,hlarger,hkept⟩ := insertGroup_keeps same (key first) first hgroup
        exact Or.inr ⟨larger,hlarger,hkept x hmem⟩
  exact hloop rows [] row (Or.inl h)

theorem Grouped.insert (heq : EquivalenceOn admitted same) {rows : List ρ} {groups : List (κ×List ρ)}
    (h : Grouped admitted same key rows groups) {row : ρ} (hrow : admitted (key row)) :
    Grouped admitted same key (rows++[row]) (insertGroup same (key row) row groups) where
  keys group hgroup := by
    rcases mem_insertGroup hgroup with hold|⟨old,hold,-,hshape⟩|hnew
    · exact h.keys group hold
    · rw [hshape]
      exact h.keys old hold
    · rw [hnew]
      exact hrow
  members group hgroup x hx := by
    have hmember : ∀ old∈groups,∀ y∈old.2,y∈rows++[row] ∧ same old.1 (key y)=true := by
      intro old hold y hy
      have ⟨hmem,htest⟩ := h.members old hold y hy
      exact ⟨List.mem_append_left _ hmem,htest⟩
    have hlast : row∈rows++[row] := List.mem_append_right _ (List.mem_singleton_self row)
    rcases mem_insertGroup hgroup with hold|⟨old,hold,htest,hshape⟩|hnew
    · exact hmember group hold x hx
    · rw [hshape] at hx ⊢
      rcases List.mem_append.mp hx with hin|hin
      · exact hmember old hold x hin
      · rw [List.mem_singleton.mp hin]
        exact ⟨hlast,htest⟩
    · rw [hnew] at hx ⊢
      rw [List.mem_singleton.mp hx]
      exact ⟨hlast,heq.refl _ hrow⟩
  apart := by
    rcases keys_insertGroup same (key row) row groups with hkept|⟨hadded,hapart⟩
    · rw [hkept]
      exact h.apart
    · rw [hadded]
      exact List.pairwise_append.mpr ⟨h.apart,List.pairwise_singleton _ _,fun a ha b hb => by
        rw [List.mem_singleton.mp hb]
        exact hapart a ha⟩
  covered x hx := by
    rcases List.mem_append.mp hx with hold|hnew
    · have ⟨group,hgroup,hin⟩ := h.covered x hold
      have ⟨larger,hlarger,hkept⟩ := insertGroup_keeps same (key row) row hgroup
      exact ⟨larger,hlarger,hkept x hin⟩
    · rw [List.mem_singleton.mp hnew]
      exact insertGroup_adds _ _ _

theorem grouped_groupRows (heq : EquivalenceOn admitted same) {rows : List ρ}
    (hrows : ∀ row∈rows,admitted (key row)) :
    Grouped admitted same key rows (groupRows same key rows) := by
  have hloop : ∀ (rest front : List ρ) (groups : List (κ×List ρ)),(∀ row∈rest,admitted (key row)) →
      Grouped admitted same key front groups → Grouped admitted same key (front++rest)
        (rest.foldl (fun groups row => insertGroup same (key row) row groups) groups) := by
    intro rest
    induction rest with
    | nil =>
      intro front groups _ h
      rw [List.append_nil]
      exact h
    | cons row rest ih =>
      intro front groups hall h
      have hstep := ih (front++[row]) _ (fun other hother => hall other (List.mem_cons_of_mem _ hother))
        (h.insert heq (hall row List.mem_cons_self))
      rw [List.append_assoc,List.singleton_append] at hstep
      exact hstep
  have hempty : Grouped admitted same key [] [] :=
    ⟨fun _ h => absurd h List.not_mem_nil,fun _ h => absurd h List.not_mem_nil,List.Pairwise.nil,
      fun _ h => absurd h List.not_mem_nil⟩
  exact hloop rows [] [] hrows hempty

theorem sameGroup_iff (heq : EquivalenceOn admitted same) {rows : List ρ}
    (hrows : ∀ row∈rows,admitted (key row)) {x y : ρ} (hx : x∈rows) (hy : y∈rows) :
    SameGroup (groupRows same key rows) x y ↔ same (key x) (key y)=true := by
  have h := grouped_groupRows heq hrows
  constructor
  · intro hgroup
    have ⟨group,hmem,hxin,hyin⟩ := hgroup
    have hkey := h.keys group hmem
    have hleft := (h.members group hmem x hxin).2
    have hright := (h.members group hmem y hyin).2
    exact heq.trans _ _ _ (hrows x hx) hkey (hrows y hy) (heq.symm _ _ hkey (hrows x hx) hleft) hright
  · intro hsame
    have ⟨group,hmem,hxin⟩ := h.covered x hx
    have ⟨other,hother,hyin⟩ := h.covered y hy
    have hkey := h.keys group hmem
    have hkey' := h.keys other hother
    have hleft := (h.members group hmem x hxin).2
    have hright := (h.members other hother y hyin).2
    have hboth : same group.1 other.1=true := by
      have hmiddle := heq.trans _ _ _ hkey (hrows x hx) (hrows y hy) hleft hsame
      exact heq.trans _ _ _ hkey (hrows y hy) hkey' hmiddle (heq.symm _ _ hkey' (hrows y hy) hright)
    have hflip : Std.Symm fun g f : κ×List ρ => admitted g.1 → admitted f.1 → same g.1 f.1≠true :=
      ⟨fun g f hgf hf hg hsame => hgf hg hf (heq.symm _ _ hf hg hsame)⟩
    have hpairs : (groupRows same key rows).Pairwise fun g f =>
        admitted g.1 → admitted f.1 → same g.1 f.1≠true :=
      (List.pairwise_map.mp h.apart).imp fun hapart _ _ => hapart
    by_cases hone : group=other
    · exact ⟨group,hmem,hxin,hone ▸ hyin⟩
    · exact absurd hboth (hpairs.forall hmem hother hone hkey hkey')

theorem groupRows_append (rows : List ρ) (row : ρ) :
    groupRows same key (rows++[row])=insertGroup same (key row) row (groupRows same key rows) := by
  rw [groupRows,List.foldl_append]
  rfl

theorem perm_insertGroup (same : κ → κ → Bool) (k : κ) (row : ρ) (groups : List (κ×List ρ)) :
    ((insertGroup same k row groups).flatMap Prod.snd).Perm (groups.flatMap Prod.snd++[row]) := by
  induction groups with
  | nil => exact List.Perm.refl _
  | cons first rest ih =>
    rw [insertGroup]
    split_ifs
    · rw [List.flatMap_cons,List.flatMap_cons,List.append_assoc,List.append_assoc]
      exact List.perm_append_comm.append_left first.2
    · rw [List.flatMap_cons,List.flatMap_cons,List.append_assoc]
      exact ih.append_left first.2

theorem perm_groupRows (rows : List ρ) : ((groupRows same key rows).flatMap Prod.snd).Perm rows := by
  induction rows using List.reverseRecOn with
  | nil => exact List.Perm.refl _
  | append_singleton rows row ih =>
    rw [groupRows_append]
    exact (perm_insertGroup same (key row) row _).trans (ih.append_right [row])

theorem ordered_groupRows (rows : List ρ) : ∀ group∈groupRows same key rows,group.2≠[] ∧ group.2.Sublist rows := by
  induction rows using List.reverseRecOn with
  | nil => exact fun _ h => absurd h List.not_mem_nil
  | append_singleton rows row ih =>
    intro group hgroup
    rw [groupRows_append] at hgroup
    rcases mem_insertGroup hgroup with hold|⟨old,hold,-,hshape⟩|hnew
    · exact ⟨(ih group hold).1,(ih group hold).2.trans (List.sublist_append_left rows [row])⟩
    · rw [hshape]
      exact ⟨List.append_ne_nil_of_right_ne_nil _ (List.cons_ne_nil row []),(ih old hold).2.append (List.Sublist.refl [row])⟩
    · rw [hnew]
      exact ⟨List.cons_ne_nil row [],List.sublist_append_right rows [row]⟩

end Groups

section Representatives

variable {admitted : ρ → Prop} {same : ρ → ρ → Bool}

theorem mem_of_mem_keepFirst {seen rows : List ρ} {row : ρ} (h : row∈keepFirst same seen rows) : row∈rows := by
  induction rows generalizing seen with
  | nil => exact absurd h List.not_mem_nil
  | cons first rest ih =>
    rw [keepFirst] at h
    split_ifs at h
    · exact List.mem_cons_of_mem _ (ih h)
    · rcases List.mem_cons.mp h with hfirst|hrest
      · rw [hfirst]
        exact List.mem_cons_self
      · exact List.mem_cons_of_mem _ (ih hrest)

theorem represented_keepFirst (hrefl : ∀ a,admitted a → same a a=true) {rows : List ρ}
    (hrows : ∀ row∈rows,admitted row) (seen : List ρ) {row : ρ} (h : row∈rows) :
    ∃ kept∈seen++keepFirst same seen rows,same kept row=true := by
  induction rows generalizing seen with
  | nil => exact absurd h List.not_mem_nil
  | cons first rest ih =>
    have hrest : ∀ other∈rest,admitted other := fun other hother => hrows other (List.mem_cons_of_mem _ hother)
    rw [keepFirst]
    split_ifs with hseen
    · rcases List.mem_cons.mp h with hfirst|hin
      · have ⟨old,hold,htest⟩ := List.any_eq_true.mp hseen
        rw [hfirst]
        exact ⟨old,List.mem_append_left _ hold,htest⟩
      · exact ih hrest seen hin
    · rcases List.mem_cons.mp h with hfirst|hin
      · rw [hfirst]
        exact ⟨first,List.mem_append_right _ List.mem_cons_self,hrefl first (hrows first List.mem_cons_self)⟩
      · have ⟨kept,hkept,htest⟩ := ih hrest (seen++[first]) hin
        rw [List.append_assoc,List.singleton_append] at hkept
        exact ⟨kept,hkept,htest⟩

theorem sameRepresentative_iff (heq : EquivalenceOn admitted same) {rows : List ρ}
    (hrows : ∀ row∈rows,admitted row) {x y : ρ} (hx : x∈rows) (hy : y∈rows) :
    (∃ kept∈keepFirst same [] rows,same kept x=true ∧ same kept y=true) ↔ same x y=true := by
  constructor
  · intro hshared
    have ⟨kept,hkept,hleft,hright⟩ := hshared
    have hin := hrows kept (mem_of_mem_keepFirst hkept)
    exact heq.trans _ _ _ (hrows x hx) hin (hrows y hy) (heq.symm _ _ hin (hrows x hx) hleft) hright
  · intro hsame
    have ⟨kept,hkept,htest⟩ := represented_keepFirst heq.refl hrows [] hx
    have hin := hrows kept (mem_of_mem_keepFirst hkept)
    exact ⟨kept,hkept,htest,heq.trans _ _ _ hin (hrows x hx) (hrows y hy) htest hsame⟩

end Representatives

end GraphDbLite.Grouping
