import Mathlib.Data.List.Basic

/-!
# Bounded caches

A cache keeps the values of a bounded number of keys in the order in which they were
inserted. A value that is missing is made and inserted, and the oldest entry gives way
when the cache is full. Failures are not kept.
-/

namespace GraphDbLite.FifoCache

variable {κ β ε : Type} [DecidableEq κ]

/-- Entries in the order of insertion, with the bound. -/
structure Fifo (κ β : Type) where
  /-- Keys and values, oldest first. -/
  entries : List (κ×β)
  /-- Number of entries from which the oldest gives way. -/
  capacity : Nat

/-- The value kept for a key. -/
@[grind] def Fifo.get (c : Fifo κ β) (k : κ) : Option β := (c.entries.find? fun entry => entry.1=k).map Prod.snd

/-- Insert a value unless the key has one. -/
@[grind] def Fifo.insert (c : Fifo κ β) (k : κ) (v : β) : Fifo κ β :=
  if (c.get k).isSome=true then c
  else {c with entries := (if c.capacity ≤ c.entries.length then c.entries.tail else c.entries)++[(k,v)]}

/-- The kept value of a key, or the made one, which is then inserted. -/
@[grind] def Fifo.getOrMake (c : Fifo κ β) (k : κ) (made : Except ε β) : Except ε β×Fifo κ β :=
  match c.get k with
  | some v => (.ok v,c)
  | none =>
    match made with
    | .error e => (.error e,c)
    | .ok v => (.ok v,c.insert k v)

variable {c : Fifo κ β} {k : κ} {v : β}

theorem Fifo.mem_of_get (h : c.get k=some v) : (k,v)∈c.entries := by
  unfold Fifo.get at h
  have ⟨entry,hfind,hvalue⟩ := Option.map_eq_some_iff.mp h
  have hkey : entry.1=k := by simpa using List.find?_some hfind
  have hmem := List.mem_of_find?_eq_some hfind
  rw [←hkey,←hvalue]
  exact hmem

theorem Fifo.mem_insert {entry : κ×β} (h : entry∈(c.insert k v).entries) : entry∈c.entries ∨ entry=(k,v) := by
  unfold Fifo.insert at h
  split_ifs at h with hsome hfull
  · exact Or.inl h
  · cases List.mem_append.mp h with
    | inl hold => exact Or.inl (List.mem_of_mem_tail hold)
    | inr hnew => exact Or.inr (List.mem_singleton.mp hnew)
  · cases List.mem_append.mp h with
    | inl hold => exact Or.inl hold
    | inr hnew => exact Or.inr (List.mem_singleton.mp hnew)

theorem Fifo.mem_getOrMake {made : Except ε β} {entry : κ×β} (h : entry∈(c.getOrMake k made).2.entries) :
    entry∈c.entries ∨ ∃ v,made=.ok v ∧ entry=(k,v) := by
  unfold Fifo.getOrMake at h
  cases hget : c.get k with
  | some v =>
    rw [hget] at h
    exact Or.inl h
  | none =>
    rw [hget] at h
    cases made with
    | error e => exact Or.inl h
    | ok v => exact (Fifo.mem_insert h).imp_right fun heq => ⟨v,rfl,heq⟩

theorem Fifo.getOrMake_ok {made : Except ε β} (h : (c.getOrMake k made).1=.ok v) : (k,v)∈c.entries ∨ made=.ok v := by
  unfold Fifo.getOrMake at h
  cases hget : c.get k with
  | some w =>
    rw [hget] at h
    rw [←Except.ok.inj h]
    exact Or.inl (Fifo.mem_of_get hget)
  | none =>
    rw [hget] at h
    cases made with
    | error e => cases h
    | ok w =>
      rw [←Except.ok.inj h]
      exact Or.inr rfl

end GraphDbLite.FifoCache
