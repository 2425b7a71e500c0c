import Mathlib.Data.List.Sort
import Mathlib.Data.List.Nodup

/-!
# Finite tables in key order

A table keeps its rows in strictly increasing key order, so a key occurs at
most once and a scan is a filter of the rows. Writing replaces or inserts one
row, deleting drops one row. Reads, membership, the key list and row counts are
related to each other for arbitrary linearly ordered keys and arbitrary values.
-/

namespace GraphDbLite.OrderedTable

variable {κ α : Type} [LinearOrder κ]

/-- Rows in strictly increasing key order, hence one row per key. -/
structure Table (κ α : Type) [LinearOrder κ] where
  /-- The physical rows, in the order in which a scan returns them. -/
  rows : List (κ×α)
  /-- Keys increase strictly along the rows. -/
  ordered : rows.Pairwise fun a b => a.1<b.1
  deriving DecidableEq

/-- The table without rows. -/
@[grind] def empty : Table κ α := ⟨[],List.Pairwise.nil⟩

/-- Insert a row at its place, replacing a row of the same key. -/
@[grind] def insertRow (k : κ) (v : α) : List (κ×α) → List (κ×α)
  | [] => [(k,v)]
  | row::rest =>
    if k < row.1 then (k,v)::row::rest
    else if k=row.1 then (k,v)::rest
    else row::insertRow k v rest

variable {k : κ} {v : α} {t : Table κ α} {p : κ → Bool}

/-- Membership after an ordered insertion: the new row, or an old row of
another key. -/
theorem mem_insertRow {rows : List (κ×α)} (ho : rows.Pairwise fun a b => a.1<b.1) {row : κ×α} :
    row∈insertRow k v rows ↔ row=(k,v) ∨ (row.1≠k ∧ row∈rows) := by
  induction rows with
  | nil => simp [insertRow]
  | cons head rest ih =>
    have ⟨hhead,hrest⟩ := List.pairwise_cons.mp ho
    rw [insertRow]
    split_ifs with hlt heq
    · have hne : ∀ r∈head::rest,r.1≠k := by
        intro r hr
        rcases List.mem_cons.mp hr with rfl|hr
        · exact hlt.ne'
        · exact (hlt.trans (hhead r hr)).ne'
      constructor
      · intro h
        rcases List.mem_cons.mp h with rfl|h
        · exact Or.inl rfl
        · exact Or.inr ⟨hne row h,h⟩
      · rintro (rfl|⟨-,h⟩)
        · exact List.mem_cons_self
        · exact List.mem_cons_of_mem _ h
    · subst heq
      constructor
      · intro h
        rcases List.mem_cons.mp h with rfl|h
        · exact Or.inl rfl
        · exact Or.inr ⟨(hhead row h).ne',List.mem_cons_of_mem _ h⟩
      · rintro (rfl|⟨hne,h⟩)
        · exact List.mem_cons_self
        · rcases List.mem_cons.mp h with rfl|h
          · exact absurd rfl hne
          · exact List.mem_cons_of_mem _ h
    · rw [List.mem_cons,ih hrest,List.mem_cons]
      have hk : head.1≠k := fun h => heq h.symm
      constructor
      · rintro (rfl|h|⟨hne,h⟩)
        · exact Or.inr ⟨hk,Or.inl rfl⟩
        · exact Or.inl h
        · exact Or.inr ⟨hne,Or.inr h⟩
      · rintro (h|⟨hne,rfl|h⟩)
        · exact Or.inr (Or.inl h)
        · exact Or.inl rfl
        · exact Or.inr (Or.inr ⟨hne,h⟩)

theorem insertRow_ordered {rows : List (κ×α)} (ho : rows.Pairwise fun a b => a.1<b.1) :
    (insertRow k v rows).Pairwise fun a b => a.1<b.1 := by
  induction rows with
  | nil => exact List.pairwise_singleton _ _
  | cons head rest ih =>
    have ⟨hhead,hrest⟩ := List.pairwise_cons.mp ho
    rw [insertRow]
    split_ifs with hlt heq
    · refine List.pairwise_cons.mpr ⟨?_,ho⟩
      intro r hr
      rcases List.mem_cons.mp hr with rfl|hr
      · exact hlt
      · exact hlt.trans (hhead r hr)
    · exact List.pairwise_cons.mpr ⟨fun r hr => heq ▸ hhead r hr,hrest⟩
    · refine List.pairwise_cons.mpr ⟨?_,ih hrest⟩
      intro r hr
      rcases (mem_insertRow hrest).mp hr with rfl|⟨-,hr⟩
      · exact lt_of_le_of_ne (not_lt.mp hlt) (fun h => heq h.symm)
      · exact hhead r hr

/-- Read the value stored under a key. -/
@[grind] def get (t : Table κ α) (k : κ) : Option α := (t.rows.find? fun row => row.1=k).map Prod.snd

/-- Insert or replace the row of a key. -/
@[grind] def put (t : Table κ α) (k : κ) (v : α) : Table κ α :=
  ⟨insertRow k v t.rows,insertRow_ordered t.ordered⟩

/-- Drop the row of a key, if there is one. -/
@[grind] def delete (t : Table κ α) (k : κ) : Table κ α :=
  ⟨t.rows.filter fun row => row.1≠k,t.ordered.filter _⟩

/-- Rows whose key satisfies a test, in key order. -/
@[grind] def scan (t : Table κ α) (p : κ → Bool) : List (κ×α) := t.rows.filter fun row => p row.1

/-- The keys in increasing order. -/
@[grind] def keys (t : Table κ α) : List κ := t.rows.map Prod.fst

/-- A key is present exactly when it has a value. -/
@[grind] def contains (t : Table κ α) (k : κ) : Bool := (get t k).isSome

theorem get_eq_some : get t k=some v ↔ (k,v)∈t.rows := by
  have hunique : ∀ rows : List (κ×α),(rows.Pairwise fun a b => a.1<b.1) →
      ((rows.find? fun row => row.1=k).map Prod.snd=some v ↔ (k,v)∈rows) := by
    intro rows ho
    induction rows with
    | nil => simp
    | cons head rest ih =>
      have ⟨hhead,hrest⟩ := List.pairwise_cons.mp ho
      by_cases hk : head.1=k
      · have hrestk : (k,v)∉rest := fun h => absurd (hhead _ h) (by simp [hk])
        rw [List.find?_cons_of_pos (by simpa using hk)]
        simp only [Option.map_some,Option.some.injEq,List.mem_cons,hrestk,or_false]
        constructor
        · rintro rfl
          exact Prod.ext hk.symm rfl
        · intro h
          exact (congrArg Prod.snd h).symm
      · rw [List.find?_cons_of_neg (by simpa using hk),ih hrest,List.mem_cons]
        constructor
        · exact Or.inr
        · rintro (h|h)
          · exact absurd (congrArg Prod.fst h).symm hk
          · exact h
  exact hunique t.rows t.ordered

/-- The empty table reads nothing. -/
@[simp] theorem get_empty (k : κ) : get (empty : Table κ α) k=none := rfl

theorem get_put (t : Table κ α) (k a : κ) (v : α) :
    get (put t k v) a=if a=k then some v else get t a := by
  ext w
  rw [get_eq_some,put,mem_insertRow t.ordered]
  split_ifs with h
  · subst h
    simp [eq_comm]
  · rw [get_eq_some]
    simp [h]

/-- Reading the written key. -/
@[simp] theorem get_put_self (t : Table κ α) (k : κ) (v : α) : get (put t k v) k=some v := by
  rw [get_put,if_pos rfl]

theorem get_put_ne {k a : κ} (h : a≠k) : get (put t k v) a=get t a := by
  rw [get_put,if_neg h]

theorem get_delete (t : Table κ α) (k a : κ) :
    get (delete t k) a=if a=k then none else get t a := by
  ext w
  rw [get_eq_some,delete,List.mem_filter]
  split_ifs with h
  · simp [h]
  · rw [get_eq_some]
    simp [h]

/-- Reading the deleted key. -/
@[simp] theorem get_delete_self (t : Table κ α) (k : κ) : get (delete t k) k=none := by
  rw [get_delete,if_pos rfl]

theorem get_delete_ne {k a : κ} (h : a≠k) : get (delete t k) a=get t a := by
  rw [get_delete,if_neg h]

theorem ext_get {s t : Table κ α} (h : ∀ k,get s k=get t k) : s=t := by
  have hmem : ∀ row,row∈s.rows ↔ row∈t.rows := by
    rintro ⟨k,v⟩
    rw [←get_eq_some,←get_eq_some,h]
  have hirr : ∀ rows : List (κ×α),(rows.Pairwise fun a b => a.1<b.1) → rows.Nodup := by
    intro rows ho
    exact ho.imp fun hab he => absurd hab (by simp [he])
  have hperm : s.rows.Perm t.rows :=
    (List.perm_ext_iff_of_nodup (hirr _ s.ordered) (hirr _ t.ordered)).mpr hmem
  have hrows : s.rows=t.rows := by
    refine hperm.eq_of_pairwise ?_ s.ordered t.ordered
    intro a b _ _ hab hba
    exact absurd (hab.trans hba) (lt_irrefl _)
  cases s
  cases t
  simp_all

theorem mem_keys : k∈keys t ↔ ∃ v,get t k=some v := by
  simp only [keys,List.mem_map,get_eq_some]
  constructor
  · rintro ⟨⟨a,v⟩,hm,rfl⟩
    exact ⟨v,hm⟩
  · rintro ⟨v,hm⟩
    exact ⟨(k,v),hm,rfl⟩

theorem ext_keys {s t : Table κ Unit} (h : ∀ k,k∈keys s ↔ k∈keys t) : s=t := by
  refine ext_get fun k => ?_
  have hunit : ∀ o : Option Unit,o=none ∨ o=some () := by
    intro o
    cases o with
    | none => exact Or.inl rfl
    | some u => exact Or.inr rfl
  rcases hunit (get t k) with ht|ht
  · have hs : k∉keys s := fun hk => by
      have ⟨u,hu⟩ := mem_keys.mp ((h k).mp hk)
      cases hu.symm.trans ht
    rcases hunit (get s k) with hn|hn
    · rw [hn,ht]
    · exact absurd (mem_keys.mpr ⟨(),hn⟩) hs
  · have ⟨u,hu⟩ := mem_keys.mp ((h k).mpr (mem_keys.mpr ⟨(),ht⟩))
    rw [hu,ht]

theorem mem_keys_iff_ne_none : k∈keys t ↔ get t k≠none := by
  rw [mem_keys,Option.ne_none_iff_exists']

theorem contains_iff : contains t k=true ↔ k∈keys t := by
  rw [contains,Option.isSome_iff_exists,mem_keys]

theorem get_eq_none : get t k=none ↔ k∉keys t := by
  rw [mem_keys_iff_ne_none,not_not]

theorem keys_ordered (t : Table κ α) : (keys t).Pairwise (·<·) :=
  List.pairwise_map.mpr t.ordered

theorem keys_nodup (t : Table κ α) : (keys t).Nodup := (keys_ordered t).imp fun h => h.ne

theorem mem_keys_put {k a : κ} : a∈keys (put t k v) ↔ a=k ∨ a∈keys t := by
  rw [mem_keys_iff_ne_none,get_put,mem_keys_iff_ne_none]
  split_ifs with h <;> simp [h]

theorem mem_keys_delete {k a : κ} : a∈keys (delete t k) ↔ a≠k ∧ a∈keys t := by
  rw [mem_keys_iff_ne_none,get_delete,mem_keys_iff_ne_none]
  split_ifs with h <;> simp [h]

theorem keys_put_fresh (h : k∉keys t) : (keys (put t k v)).Perm (k::keys t) := by
  refine (List.perm_ext_iff_of_nodup (keys_nodup _) (List.nodup_cons.mpr ⟨h,keys_nodup t⟩)).mpr ?_
  intro a
  rw [mem_keys_put,List.mem_cons]

theorem keys_put_present (h : k∈keys t) : keys (put t k v)=keys t := by
  have hp : (keys (put t k v)).Perm (keys t) := by
    refine (List.perm_ext_iff_of_nodup (keys_nodup _) (keys_nodup t)).mpr ?_
    intro a
    rw [mem_keys_put]
    constructor
    · rintro (rfl|ha)
      · exact h
      · exact ha
    · exact Or.inr
  refine hp.eq_of_pairwise ?_ (keys_ordered _) (keys_ordered t)
  intro a b _ _ hab hba
  exact absurd (hab.trans hba) (lt_irrefl _)

theorem keys_delete_present (h : k∈keys t) : (keys t).Perm (k::keys (delete t k)) := by
  refine (List.perm_ext_iff_of_nodup (keys_nodup t) (List.nodup_cons.mpr ⟨?_,keys_nodup _⟩)).mpr ?_
  · rw [mem_keys_delete]
    simp
  · intro a
    rw [List.mem_cons,mem_keys_delete]
    by_cases ha : a=k <;> simp [ha,h]

theorem put_same (h : get t k=some v) : put t k v=t := by
  refine ext_get fun a => ?_
  rw [get_put]
  split_ifs with ha
  · rw [ha,h]
  · rfl

theorem put_put (t : Table κ α) (k : κ) (v w : α) : put (put t k v) k w=put t k w := by
  refine ext_get fun a => ?_
  rw [get_put,get_put,get_put]
  split_ifs <;> rfl

theorem mem_scan : (k,v)∈scan t p ↔ get t k=some v ∧ p k=true := by
  rw [scan,List.mem_filter,get_eq_some]

theorem scan_keys (t : Table κ α) (p : κ → Bool) :
    (scan t p).map Prod.fst=(keys t).filter p := by
  simp only [scan,keys,List.filter_map]
  rfl

theorem scan_eq_nil : scan t p=[] ↔ ∀ k∈keys t,p k=false := by
  rw [←List.map_eq_nil_iff (f:=Prod.fst),scan_keys,List.filter_eq_nil_iff]
  simp

/-- Number of rows whose key satisfies a test. -/
@[grind] def countKeys (t : Table κ α) (p : κ → Bool) : Nat := (keys t).countP p

theorem scan_length (t : Table κ α) (p : κ → Bool) : (scan t p).length=countKeys t p := by
  rw [countKeys,List.countP_eq_length_filter,←scan_keys,List.length_map]

theorem countKeys_put_fresh (h : k∉keys t) (p : κ → Bool) :
    countKeys (put t k v) p=countKeys t p+if p k=true then 1 else 0 := by
  rw [countKeys,(keys_put_fresh h).countP_eq,List.countP_cons,countKeys]

theorem countKeys_delete_present (h : k∈keys t) (p : κ → Bool) :
    countKeys (delete t k) p+(if p k=true then 1 else 0)=countKeys t p := by
  rw [countKeys,countKeys,(keys_delete_present h).countP_eq,List.countP_cons]

/-- Delete the rows of a list of keys, one after the other. -/
@[grind] def deleteAll (t : Table κ α) (ks : List κ) : Table κ α := ks.foldl delete t

theorem get_deleteAll (t : Table κ α) (ks : List κ) (a : κ) :
    get (deleteAll t ks) a=if a∈ks then none else get t a := by
  induction ks generalizing t with
  | nil => simp [deleteAll]
  | cons k ks ih =>
    change get (deleteAll (delete t k) ks) a=_
    rw [ih,get_delete]
    by_cases h : a∈ks
    · simp [h]
    · by_cases ha : a=k <;> simp [h,ha]

theorem mem_keys_deleteAll {ks : List κ} {a : κ} : a∈keys (deleteAll t ks) ↔ a∉ks ∧ a∈keys t := by
  rw [mem_keys_iff_ne_none,get_deleteAll,mem_keys_iff_ne_none]
  split_ifs with h <;> simp [h]

theorem keys_deleteAll_scan (t : Table κ α) (p : κ → Bool) :
    keys (deleteAll t ((scan t p).map Prod.fst))=(keys t).filter fun k => !p k := by
  have hp : (keys (deleteAll t ((scan t p).map Prod.fst))).Perm ((keys t).filter fun k => !p k) := by
    refine (List.perm_ext_iff_of_nodup (keys_nodup _) ((keys_nodup t).filter _)).mpr ?_
    intro a
    rw [mem_keys_deleteAll,scan_keys,List.mem_filter,List.mem_filter]
    cases hpa : p a <;> simp
  refine hp.eq_of_pairwise ?_ (keys_ordered _) ((keys_ordered t).filter _)
  intro a b _ _ hab hba
  exact absurd (hab.trans hba) (lt_irrefl _)

theorem keys_delete (t : Table κ α) (k : κ) :
    keys (delete t k)=(keys t).filter fun a => !decide (a=k) := by
  simp only [keys,delete,List.filter_map]
  congr 2
  funext row
  simp

theorem countKeys_key (t : Table κ α) (k : κ) (p : κ → Bool) (hp : ∀ a,p a=true ↔ a=k) :
    countKeys t p=if contains t k=true then 1 else 0 := by
  by_cases hc : contains t k=true
  · have hcount := countKeys_delete_present (contains_iff.mp hc) p
    have hrest : countKeys (delete t k) p=0 := by
      refine List.countP_eq_zero.mpr fun a ha hpa => ?_
      exact (mem_keys_delete.mp ha).1 ((hp a).mp hpa)
    rw [if_pos ((hp k).mpr rfl),hrest] at hcount
    rw [if_pos hc,←hcount]
  · rw [if_neg hc]
    refine List.countP_eq_zero.mpr fun a ha hpa => hc (contains_iff.mpr ?_)
    rw [←(hp a).mp hpa]
    exact ha

theorem countKeys_of_filter {s t : Table κ α} (hkeys : keys s=(keys t).filter fun k => !p k) (q : κ → Bool) :
    countKeys s q+countKeys t (fun k => p k && q k)=countKeys t q := by
  rw [countKeys,hkeys,countKeys,countKeys,List.countP_filter]
  have hsplit := List.countP_eq_countP_filter_add (keys t) q p
  rw [List.countP_filter,List.countP_filter] at hsplit
  rw [hsplit,Nat.add_comm]
  congr 1
  exact List.countP_congr fun k _ => by cases p k <;> cases q k <;> simp

/-- Apply a function to every value. -/
@[grind] def mapValues {β : Type} (f : α → β) (t : Table κ α) : Table κ β :=
  ⟨t.rows.map fun row => (row.1,f row.2),List.pairwise_map.mpr t.ordered⟩

/-- Rewrite every value with its key at hand. -/
@[grind] def mapRows {β : Type} (f : κ → α → β) (t : Table κ α) : Table κ β :=
  ⟨t.rows.map fun row => (row.1,f row.1 row.2),List.pairwise_map.mpr t.ordered⟩

theorem get_mapRows {β : Type} (f : κ → α → β) (t : Table κ α) (k : κ) :
    get (mapRows f t) k=(get t k).map (f k) := by
  ext w
  rw [get_eq_some,mapRows,List.mem_map,Option.map_eq_some_iff]
  constructor
  · rintro ⟨⟨a,v⟩,hm,hrow⟩
    have ha : a=k := (Prod.mk.inj hrow).1
    have hv : f a v=w := (Prod.mk.inj hrow).2
    rw [ha] at hm hv
    exact ⟨v,get_eq_some.mpr hm,hv⟩
  · rintro ⟨v,hv,hw⟩
    exact ⟨(k,v),get_eq_some.mp hv,by rw [hw]⟩

theorem rows_nodup (t : Table κ α) : t.rows.Nodup :=
  t.ordered.imp fun hab he => absurd hab (by simp [he])

/-- Number of rows that pass a test on key and value. -/
@[grind] def countRows (t : Table κ α) (p : κ → α → Bool) : Nat := t.rows.countP fun row => p row.1 row.2

theorem countRows_le (t : Table κ α) (p : κ → α → Bool) : countRows t p≤(keys t).length := by
  rw [keys,List.length_map]
  exact List.countP_le_length

theorem countRows_put_fresh (h : k∉keys t) (p : κ → α → Bool) :
    countRows (put t k v) p=countRows t p+if p k v=true then 1 else 0 := by
  have hnew : (k,v)∉t.rows := fun hm => h (mem_keys.mpr ⟨v,get_eq_some.mpr hm⟩)
  have hperm : (put t k v).rows.Perm ((k,v)::t.rows) := by
    refine (List.perm_ext_iff_of_nodup (rows_nodup _) (List.nodup_cons.mpr ⟨hnew,rows_nodup t⟩)).mpr ?_
    rintro ⟨a,w⟩
    rw [←get_eq_some,get_put,List.mem_cons,←get_eq_some]
    by_cases ha : a=k
    · rw [if_pos ha,ha,get_eq_none.mpr h]
      simp [eq_comm]
    · rw [if_neg ha]
      simp [ha]
  rw [countRows,hperm.countP_eq,List.countP_cons,countRows]

theorem countRows_delete_present {w : α} (h : get t k=some w) (p : κ → α → Bool) :
    countRows (delete t k) p+(if p k w=true then 1 else 0)=countRows t p := by
  have hgone : k∉keys (delete t k) := get_eq_none.mp (get_delete_self t k)
  have hback : put (delete t k) k w=t := by
    refine ext_get fun a => ?_
    rw [get_put,get_delete]
    by_cases ha : a=k
    · rw [if_pos ha,ha,h]
    · rw [if_neg ha,if_neg ha]
  rw [←countRows_put_fresh hgone,hback]

theorem countRows_put_present {v w : α} (h : get t k=some w) (p : κ → α → Bool) :
    countRows (put t k v) p+(if p k w=true then 1 else 0)= countRows t p+if p k v=true then 1 else 0 := by
  have hgone : k∉keys (delete t k) := get_eq_none.mp (get_delete_self t k)
  have hsame : put (delete t k) k v=put t k v := by
    refine ext_get fun a => ?_
    rw [get_put,get_put,get_delete]
    by_cases ha : a=k
    · rw [if_pos ha,if_pos ha]
    · rw [if_neg ha,if_neg ha,if_neg ha]
  have hdel := countRows_delete_present h p
  have hput := countRows_put_fresh (v:=v) hgone p
  rw [hsame] at hput
  omega

end GraphDbLite.OrderedTable
