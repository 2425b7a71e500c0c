import GraphDbLite.Grouping
import GraphDbLite.ValueEquality

/-!
# The library equality as an equivalence

The library equality is an equivalence on values built from finite maps. It agrees with
the query equality except where two values equal each other in different forms (an
integer and a float, the two zeros, two snapshots of one entity) or share a form that
does not equal itself.
-/

namespace GraphDbLite.ValueIdentity

open GraphTypes CypherValues ValueEquality Grouping

section Equivalence

theorem forall₂_trans {α : Type} {R S T : α → α → Prop} {a b c : List α} (hab : List.Forall₂ R a b)
    (hbc : List.Forall₂ S b c) (h : ∀ x∈a,∀ y z,R x y → S y z → T x z) : List.Forall₂ T a c := by
  induction hab generalizing c with
  | nil => cases hbc with
    | nil => exact List.Forall₂.nil
  | cons hhead _ ih => cases hbc with
    | cons hnext hrest =>
      exact List.Forall₂.cons (h _ List.mem_cons_self _ _ hhead hnext)
        (ih hrest fun x hx => h x (List.mem_cons_of_mem _ hx))

theorem valueEq_trans (a b c : Value) (hab : valueEq a b=true) (hbc : valueEq b c=true) : valueEq a c=true := by
  induction a using value_induct generalizing b c with
  | h a hitems hmaps =>
    have hfirst := valueEq_iff.mp hab
    have hnext := valueEq_iff.mp hbc
    refine valueEq_iff.mpr ⟨hfirst.skeletons.trans hnext.skeletons,
      forall₂_trans hfirst.items hnext.items fun x hx y z => hitems x hx y z,
      forall₂_trans hfirst.maps hnext.maps fun p hp q r hpq hqr => ⟨hpq.1.trans hqr.1,fun entry hentry => ?_⟩⟩
    obtain ⟨other,hother,hequal⟩ := hpq.2 entry hentry
    obtain ⟨last,hlast,hequal'⟩ := hqr.2 _ (mem_of_getProp hother)
    exact ⟨last,hlast,hmaps p hp entry hentry other last hequal hequal'⟩

theorem mapsRelated_symm {R S : Value → Value → Prop} {p q : Properties} (hp : finiteEntries p=true)
    (hq : finiteEntries q=true) (h : MapsRelated R p q)
    (hvalues : ∀ entry∈p,∀ other,finiteMaps other=true → R entry.2 other → S other entry.2) : MapsRelated S q p := by
  have hread : ∀ entry∈p,(getProp q entry.1).isSome=true := by
    intro entry hentry
    obtain ⟨other,hother,-⟩ := h.2 entry hentry
    rw [hother]
    rfl
  have hkeys := sameKeys_of_within hp h.1 hread
  rw [sameKeys,Bool.and_eq_true] at hkeys
  refine ⟨h.1.symm,fun entry hentry => ?_⟩
  obtain ⟨held,hheld⟩ := Option.isSome_iff_exists.mp (List.all_eq_true.mp hkeys.2 entry hentry)
  have hin := mem_of_getProp hheld
  obtain ⟨other,hother,hrelated⟩ := h.2 _ hin
  rw [getProp_of_mem hq hentry] at hother
  rw [←Option.some.inj hother] at hrelated
  exact ⟨held,hheld,hvalues _ hin _ (finiteMaps_of_mem hq hentry) hrelated⟩

theorem valueEq_symm (a b : Value) (ha : finiteMaps a=true) (hb : finiteMaps b=true) (h : valueEq a b=true) :
    valueEq b a=true := by
  induction a using value_induct generalizing b with
  | h a hitems hmaps =>
    obtain ⟨hfinite,hentries⟩ := finite_inside ha
    obtain ⟨hfinite',hentries'⟩ := finite_inside hb
    have hshaped := valueEq_iff.mp h
    refine valueEq_iff.mpr ⟨hshaped.skeletons.symm,List.Forall₂.flip (forall₂_of_mem hshaped.items
      fun x hx y hy hxy => hitems x hx y (hfinite x hx) (hfinite' y hy) hxy),
      List.Forall₂.flip (forall₂_of_mem hshaped.maps fun p hp q hq hpq => ?_)⟩
    exact mapsRelated_symm (hentries p hp) (hentries' q hq) hpq fun entry hentry other hother =>
      hmaps p hp entry hentry other (finiteMaps_of_mem (hentries p hp) hentry) hother

theorem equivalence_valueEq : EquivalenceOn (fun value => finiteMaps value=true) valueEq :=
  ⟨valueEq_refl,valueEq_symm,fun a b c _ _ _ => valueEq_trans a b c⟩

theorem equivalence_listEq : EquivalenceOn (fun items => finiteItems items=true) listEq :=
  ⟨fun items => valueEq_refl (.list items),fun a b => valueEq_symm (.list a) (.list b),
    fun a b c _ _ _ => valueEq_trans (.list a) (.list b) (.list c)⟩

end Equivalence

mutual

/-- Whether two values that equal each other have one form: numbers of one kind, zeros of
one sign, one snapshot of each entity. -/
def sameForm : Value → Value → Bool
  | .i64 _,.f64 _ => false
  | .f64 _,.i64 _ => false
  | .f64 a,.f64 b => a=b
  | .list a,.list b => sameForms a b
  | .map a,.map b => formsWithin a b
  | .node n,.node m => nodeEq n m
  | .path p,.path q => pathEq p q
  | _,_ => true
termination_by structural value => value

def sameForms : List Value → List Value → Bool
  | a::as,b::bs => sameForm a b && sameForms as bs
  | _,_ => true
termination_by structural items => items

def formsWithin : List (String×Value) → List (String×Value) → Bool
  | [],_ => true
  | entry::rest,b => formWithin entry b && formsWithin rest b
termination_by structural entries => entries

def formWithin : String×Value → List (String×Value) → Bool
  | (key,value),b =>
    match getProp b key with
    | some other => sameForm value other
    | none => true
termination_by structural entry => entry

end

section Forms

theorem sameForms_iff {a b : List Value} (h : a.length=b.length) :
    sameForms a b=true ↔ List.Forall₂ (fun x y => sameForm x y=true) a b := by
  induction a generalizing b with
  | nil =>
    cases b with
    | nil => exact iff_of_true rfl List.Forall₂.nil
    | cons y ys => cases h
  | cons x xs ih =>
    cases b with
    | nil => cases h
    | cons y ys => rw [sameForms,Bool.and_eq_true,List.forall₂_cons,ih (Nat.succ.inj h)]

theorem formsWithin_iff {a b : Properties} :
    formsWithin a b=true ↔ ∀ entry∈a,∀ other,getProp b entry.1=some other → sameForm entry.2 other=true := by
  induction a with
  | nil => simp [formsWithin]
  | cons entry rest ih =>
    obtain ⟨key,value⟩ := entry
    rw [formsWithin,Bool.and_eq_true,ih,List.forall_mem_cons,formWithin]
    refine and_congr_left fun _ => ?_
    cases getProp b key with
    | none | some other => simp

theorem sameForm_of_valueEq (a b : Value) (h : valueEq a b=true) : sameForm a b=true := by
  induction a using value_induct generalizing b with
  | h a hitems hmaps =>
    have hshaped := valueEq_iff.mp h
    cases a with
    | list items =>
      cases b with
      | list more =>
        exact (sameForms_iff hshaped.items.length_eq).mpr
          (forall₂_of_mem hshaped.items fun x hx y _ hxy => hitems x hx y hxy)
      | _ => cases h
    | map entries =>
      cases b with
      | map more =>
        refine formsWithin_iff.mpr fun entry hentry other hread => ?_
        obtain ⟨held,hheld,hequal⟩ := (List.forall₂_cons.mp hshaped.maps).1.2 entry hentry
        rw [hread] at hheld
        rw [←Option.some.inj hheld] at hequal
        exact hmaps entries List.mem_cons_self entry hentry other hequal
      | _ => cases h
    | _ =>
      cases b with
      | _ => first | exact h | rfl

theorem length_of_sameKeys {a b : List (String×Value)} (ha : finiteEntries a=true) (hb : finiteEntries b=true)
    (h : sameKeys a b=true) : a.length=b.length := by
  have hsub : ∀ x y : List (String×Value),finiteEntries x=true →
      (∀ entry∈x,(getProp y entry.1).isSome=true) → x.length≤y.length := by
    intro x y hx hread
    have hkeys : x.map Prod.fst ⊆ y.map Prod.fst := by
      intro key hkey
      have ⟨entry,hentry,hname⟩ := List.mem_map.mp hkey
      have ⟨value,hvalue⟩ := Option.isSome_iff_exists.mp (hread entry hentry)
      rw [←hname]
      exact List.mem_map.mpr ⟨_,mem_of_getProp hvalue,rfl⟩
    have hle := ((nodup_of_finiteEntries hx).subperm hkeys).length_le
    rwa [List.length_map,List.length_map] at hle
  rw [sameKeys,Bool.and_eq_true] at h
  have hleft := hsub a b ha (List.all_eq_true.mp h.1)
  have hright := hsub b a hb (List.all_eq_true.mp h.2)
  omega

theorem valueEq_of_sameForm (a b : Value) (ha : finiteMaps a=true) (hb : finiteMaps b=true)
    (h : valuesEqual a b=some true) (hform : sameForm a b=true) : valueEq a b=true := by
  induction a using value_induct generalizing b with
  | h a hitems hmaps =>
    obtain ⟨hfinite,-⟩ := finite_inside ha
    obtain ⟨hfinite',-⟩ := finite_inside hb
    cases a with
    | list items =>
      cases b with
      | list more =>
        have hequal := valuesEqual_list_iff.mp h
        have hforms := (sameForms_iff hequal.length_eq).mp hform
        refine valueEq_iff.mpr ⟨rfl,?_,List.Forall₂.nil⟩
        have himp := forall₂_of_mem hforms fun x hx y hy hxy heq => hitems x hx y (hfinite x hx) (hfinite' y hy) heq hxy
        exact List.Forall₂.mp (fun _ _ himp heq => himp heq) himp hequal
      | _ => cases h
    | map entries =>
      cases b with
      | map more =>
        rw [finiteMaps] at ha hb
        obtain ⟨hkeys,hequal⟩ := valuesEqual_map_iff.mp h
        refine valueEq_iff.mpr ⟨rfl,List.Forall₂.nil,List.forall₂_cons.mpr
          ⟨⟨length_of_sameKeys ha hb hkeys,fun entry hentry => ?_⟩,List.Forall₂.nil⟩⟩
        obtain ⟨other,hread,heq⟩ := hequal entry hentry
        exact ⟨other,hread,hmaps entries List.mem_cons_self entry hentry other (finiteMaps_of_mem ha hentry)
          (finiteMaps_of_mem hb (mem_of_getProp hread)) heq (formsWithin_iff.mp hform entry hentry other hread)⟩
      | _ => cases h
    | _ =>
      cases b with
      | _ => first | exact hform | exact Option.some.inj h | cases h

/-- The two equalities agree on two values exactly when values that equal each other have
one form and a value in the form of another one equals itself. -/
theorem equalities_agree_iff {a b : Value} (ha : finiteMaps a=true) (hb : finiteMaps b=true) :
    (valueEq a b=true ↔ valuesEqual a b=some true) ↔
      (valuesEqual a b=some true → sameForm a b=true) ∧
        (valueEq a b=true → valuesEqual b b=some true) := by
  constructor
  · intro hagree
    exact ⟨fun h => sameForm_of_valueEq a b (hagree.mpr h),
      fun h => valuesEqual_self a b hb (hagree.mp h)⟩
  · intro hmeets
    exact ⟨fun h => valuesEqual_of_valueEq a b ha hb h (hmeets.2 h),
      fun h => valueEq_of_sameForm a b ha hb h (hmeets.1 h)⟩

end Forms

end GraphDbLite.ValueIdentity
