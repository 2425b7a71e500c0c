import Mathlib.Data.List.Nodup

/-!
# Caches that drop the least recently used entry

A cache keeps the values of a bounded number of keys in the order of their last use. A
missing value is made and appended, and the entry that was used longest ago gives way when the
cache is full. Failures are not kept. A use leaves the values of the keys that were used
last, and cannot tell a kept value from a made one.
-/

namespace GraphDbLite.LruCache

variable {κ ν ε : Type} [DecidableEq κ]

/-- Entries in the order of their last use, with the bound. -/
structure Lru (κ ν : Type) where
  /-- Keys and values, the last used ones at the end. -/
  entries : List (κ×ν)
  /-- Number of entries from which the first gives way. -/
  capacity : Nat

/-- Remove the first entry; there must be one. -/
@[grind] def evict : List (κ×ν) → Option (List (κ×ν))
  | [] => none
  | _::rest => some rest

/-- The kept value of a key, which moves to the end, or the made one, which is appended. -/
@[grind] def Lru.getOrMake (c : Lru κ ν) (k : κ) (made : Except ε ν) : Option (Except ε ν×Lru κ ν) :=
  match c.entries.find? fun entry => entry.1=k with
  | some entry => some (.ok entry.2,{c with entries := (c.entries.eraseP fun entry => entry.1=k)++[entry]})
  | none =>
    match made with
    | .error e => some (.error e,c)
    | .ok v =>
      if c.capacity≤c.entries.length then
        (evict c.entries).map fun rest => (.ok v,{c with entries := rest++[(k,v)]})
      else some (.ok v,{c with entries := c.entries++[(k,v)]})

/-- Whether a key has a value. -/
@[grind] def hasValue (make : κ → Except ε ν) (k : κ) : Bool :=
  match make k with
  | .ok _ => true
  | .error _ => false

/-- Keys with a value by their last use, the last one first, after one more use. -/
@[grind] def recentWith (make : κ → Except ε ν) (recent : List κ) (k : κ) : List κ :=
  if hasValue make k=true then k::recent.filter (·≠k) else recent

variable {make : κ → Except ε ν} {r : List κ} {k : κ} {c : Lru κ ν}

/-- A key among the last used ones leaves them one shorter. -/
theorem take_filter_mem (hr : r.Nodup) {n : Nat} (h : k∈r.take (n+1)) :
    (r.take (n+1)).filter (·≠k)=(r.filter (·≠k)).take n := by
  induction r generalizing n with
  | nil => exact absurd h List.not_mem_nil
  | cons a rest ih =>
    have ⟨hnot,hrest⟩ := List.nodup_cons.mp hr
    rw [List.take_succ_cons] at h ⊢
    by_cases ha : a=k
    · have hkeep : ∀ b∈rest,decide (b≠k)=true := fun b hb => decide_eq_true fun heq => hnot (ha.trans heq.symm ▸ hb)
      rw [List.filter_cons_of_neg (by simp [ha]),List.filter_cons_of_neg (by simp [ha]),List.filter_eq_self.mpr hkeep,
        List.filter_eq_self.mpr fun b hb => hkeep b (List.mem_of_mem_take hb)]
    · have hin : k∈rest.take n := (List.mem_cons.mp h).resolve_left (Ne.symm ha)
      rw [List.filter_cons_of_pos (by simp [ha]),List.filter_cons_of_pos (by simp [ha])]
      cases n with
      | zero => exact absurd hin List.not_mem_nil
      | succ n => rw [List.take_succ_cons,ih hrest hin]

/-- A key that is not among the last used ones does not change which are. -/
theorem take_filter_notMem {n : Nat} (h : k∉r.take (n+1)) : (r.filter (·≠k)).take n=r.take n := by
  induction r generalizing n with
  | nil => rfl
  | cons a rest ih =>
    rw [List.take_succ_cons,List.mem_cons,not_or] at h
    rw [List.filter_cons_of_pos (by simpa using Ne.symm h.1)]
    cases n with
    | zero => rfl
    | succ n => rw [List.take_succ_cons,List.take_succ_cons,ih h.2]

/-- A cache holds the values of the keys that were used last. -/
structure Holds (make : κ → Except ε ν) (recent : List κ) (c : Lru κ ν) : Prop where
  /-- Used keys are listed once. -/
  nodup : recent.Nodup
  /-- Keys of the entries, the last used one at the end. -/
  keys : c.entries.map Prod.fst=(recent.take c.capacity).reverse
  /-- Values of the entries. -/
  values : ∀ entry∈c.entries,make entry.1=.ok entry.2

/-- A key whose value is kept moves to the end. -/
theorem holds_hit {n : Nat} (h : Holds make r c) (hn : c.capacity=n+1) {entry : κ×ν} (hentry : entry∈c.entries) :
    Holds make (entry.1::r.filter (·≠entry.1))
      {c with entries := (c.entries.eraseP fun e => e.1=entry.1)++[entry]} := by
  have hkeys := h.keys
  rw [hn] at hkeys
  have hin : entry.1∈r.take (n+1) := List.mem_reverse.mp (hkeys ▸ List.mem_map_of_mem hentry)
  have hone : (c.entries.map Prod.fst).Nodup := hkeys ▸ List.nodup_reverse.mpr (h.nodup.sublist (List.take_sublist _ _))
  have herase : (c.entries.eraseP fun e => e.1=entry.1).map Prod.fst=(c.entries.map Prod.fst).erase entry.1 := by
    rw [List.erase_eq_eraseP',List.eraseP_map]
    rfl
  have hbne : (fun k : κ => k != entry.1)=fun k : κ => decide (k≠entry.1) := by
    funext k
    simp [bne,beq_eq_decide]
  refine ⟨List.nodup_cons.mpr ⟨by simp,h.nodup.filter _⟩,?_,?_⟩
  · rw [List.map_append,herase,hone.erase_eq_filter,hkeys,List.filter_reverse,hbne,take_filter_mem h.nodup hin,hn,
      List.take_succ_cons,List.reverse_cons]
    rfl
  · intro e he
    cases List.mem_append.mp he with
    | inl hold => exact h.values e (List.mem_of_mem_eraseP hold)
    | inr hnew => exact List.mem_singleton.mp hnew ▸ h.values entry hentry

/-- A made value is appended after what remains of the last used entries. -/
theorem holds_made {n : Nat} (h : Holds make r c) (hn : c.capacity=n+1) {v : ν} (hmade : make k=.ok v)
    (hnot : k∉r.take (n+1)) {kept : List (κ×ν)} (hsub : ∀ e∈kept,e∈c.entries)
    (hkept : kept.map Prod.fst=(r.take n).reverse) :
    Holds make (k::r.filter (·≠k)) {c with entries := kept++[(k,v)]} := by
  refine ⟨List.nodup_cons.mpr ⟨by simp,h.nodup.filter _⟩,?_,?_⟩
  · rw [List.map_append,hkept,hn,List.take_succ_cons,take_filter_notMem hnot,List.reverse_cons]
    rfl
  · intro e he
    cases List.mem_append.mp he with
    | inl hold => exact h.values e (hsub e hold)
    | inr hnew => exact List.mem_singleton.mp hnew ▸ hmade

/-- A use gives the made value, never removes from an empty cache, and keeps what the cache holds. -/
theorem getOrMake_holds (h : Holds make r c) (hpos : 0 < c.capacity) (k : κ) :
    ∃ c',c.getOrMake k (make k)=some (make k,c')∧c'.capacity=c.capacity∧Holds make (recentWith make r k) c' := by
  obtain ⟨n,hn⟩ := Nat.exists_eq_succ_of_ne_zero (Nat.ne_of_gt hpos)
  have hkeys := h.keys
  rw [hn] at hkeys
  unfold Lru.getOrMake
  cases hfind : c.entries.find? fun entry => entry.1=k with
  | some entry =>
    have hentry := List.mem_of_find?_eq_some hfind
    have hk : entry.1=k := by simpa using List.find?_some hfind
    subst hk
    have hval := h.values entry hentry
    refine ⟨{c with entries := (c.entries.eraseP fun e => e.1=entry.1)++[entry]},by rw [hval],rfl,?_⟩
    rw [recentWith,if_pos (by rw [hasValue,hval])]
    exact holds_hit h hn hentry
  | none =>
    have hnot : k∉r.take (n+1) := by
      intro hin
      obtain ⟨entry,hentry,hk⟩ := List.mem_map.mp (hkeys ▸ List.mem_reverse.mpr hin)
      exact List.find?_eq_none.mp hfind entry hentry (decide_eq_true hk)
    cases hmade : make k with
    | error e => exact ⟨c,rfl,rfl,by rw [recentWith,hasValue,hmade]; exact h⟩
    | ok v =>
      rw [recentWith,if_pos (by rw [hasValue,hmade])]
      have hlen : c.entries.length=(r.take (n+1)).length := by
        rw [← List.length_map Prod.fst,hkeys,List.length_reverse]
      by_cases hfull : c.capacity≤c.entries.length
      · have hlong : (r.take (n+1)).length=n+1 := by
          rw [hlen,hn] at hfull
          exact Nat.le_antisymm (List.length_take_le _ _) hfull
        cases hentries : c.entries with
        | nil => simp [hentries,hn] at hfull
        | cons e rest =>
          have hrest : rest.map Prod.fst=(r.take n).reverse := by
            have htail := congrArg List.tail hkeys
            rw [hentries,List.map_cons,List.tail_cons,List.tail_reverse,List.dropLast_eq_take,hlong,
              List.take_take,Nat.add_sub_cancel,Nat.min_eq_left (Nat.le_succ n)] at htail
            exact htail
          rw [hentries] at hfull
          exact ⟨{c with entries := rest++[(k,v)]},by simp only [if_pos hfull,evict,Option.map_some],rfl,
            holds_made h hn hmade hnot (fun a ha => hentries ▸ List.mem_cons_of_mem e ha) hrest⟩
      · have hshort : r.length≤n := by
          rw [hlen,List.length_take,hn] at hfull
          omega
        refine ⟨{c with entries := c.entries++[(k,v)]},by simp only [if_neg hfull],rfl,
          holds_made h hn hmade hnot (fun a ha => ha) ?_⟩
        rw [hkeys,List.take_of_length_le (Nat.le_succ_of_le hshort),List.take_of_length_le hshort]

omit [DecidableEq κ] in
/-- The empty cache holds the values of no key. -/
theorem holds_empty (make : κ → Except ε ν) (capacity : Nat) : Holds make [] ⟨[],capacity⟩ :=
  ⟨List.nodup_nil,by simp,fun _ h => absurd h List.not_mem_nil⟩

end GraphDbLite.LruCache
