import GraphDbLite.EdgeConsistency

/-!
# Prefix scans over ordered byte keys

Two routines bound a prefix scan from above. The key-value layer pops bytes off
the end until one can grow, the index layer walks the indices down from the end
and cuts the prefix behind the byte that grew. Both compute the range end of the
prefix, so a scan returns exactly the rows whose key starts with it, and the
prefix of a relationship type selects the rows written under that type alone.
-/

namespace GraphDbLite.PrefixScans

open ByteStrings OrderedTable GraphTypes GraphStore EdgeStorage

/-- Walk the indices down; the first byte below 255 grows and ends the bound. -/
def nextPrefixLoop (out : Bytes) : Nat → Option Bytes
  | 0 => none
  | i+1 =>
    match out[i]? with
    | some byte =>
      if byte<0xFF then some ((out.set i (byte+1)).take (i+1)) else nextPrefixLoop out i
    | none => nextPrefixLoop out i

/-- Byte string after every extension of a prefix, none when all bytes are 255. -/
def nextPrefix (bytes : Bytes) : Option Bytes := nextPrefixLoop bytes bytes.length

/-- Growing the byte at an index and cutting behind it appends the grown byte
to the bytes before the index. -/
theorem take_set_succ {out : Bytes} {i : Nat} (h : i<out.length) (b : UInt8) :
    (out.set i b).take (i+1)=out.take i++[b] := by
  have hlen : i<(out.set i b).length := by simpa using h
  rw [List.take_succ_eq_append_getElem hlen,List.getElem_set_self,List.take_set_of_le le_rfl]

theorem nextPrefixLoop_eq (out : Bytes) {i : Nat} (h : i≤out.length) :
    nextPrefixLoop out i=rangeEnd (out.take i) := by
  induction i with
  | zero => rfl
  | succ i ih =>
    have hi : i<out.length := h
    have hsplit : out.take (i+1)=out.take i++[out[i]] := List.take_succ_eq_append_getElem hi
    rw [nextPrefixLoop,List.getElem?_eq_getElem hi,hsplit,rangeEnd_append_singleton]
    by_cases hbyte : out[i]<0xFF
    · simp only [if_pos hbyte,take_set_succ hi]
    · simp only [if_neg hbyte]
      exact ih hi.le

theorem nextPrefix_eq (bytes : Bytes) : nextPrefix bytes=rangeEnd bytes := by
  rw [nextPrefix,nextPrefixLoop_eq bytes le_rfl,List.take_length]

theorem between_bounds_iff (p k : Bytes) :
    (p≤k ∧ (prefixUpperBound p=none ∨ ∃ upper,prefixUpperBound p=some upper ∧ k<upper)) ↔ p<+:k := by
  rw [prefix_iff_range,prefixUpperBound_eq]
  cases hend : rangeEnd p with
  | none | some upper => simp

theorem mem_scanPrefix {α : Type} {t : Table Bytes α} {p k : Bytes} {v : α} :
    (k,v)∈scanPrefix t p ↔ get t k=some v ∧ p<+:k := by
  rw [scanPrefix_eq_scan,mem_scan,List.isPrefixOf_iff_prefix]

theorem scanPrefix_ordered {α : Type} (t : Table Bytes α) (p : Bytes) :
    (scanPrefix t p).Pairwise fun a b => a.1<b.1 := by
  rw [scanPrefix_eq_scan]
  exact t.ordered.filter _

/-- Rows of a relationship table, each written under a checked type. -/
def WrittenByType {α : Type} (t : Table Bytes α) : Prop :=
  ∀ k v,get t k=some v → ∃ src dst label seq,isValidName label=true ∧ k=edgePropsKey src dst label seq

theorem mem_scanPrefix_edgeProps {α : Type} {t : Table Bytes α} (h : WrittenByType t)
    {src dst : NodeId} {label : String} (hl : isValidName label=true) {k : Bytes} {v : α} :
    (k,v)∈scanPrefix t (edgePropsPrefix src dst label) ↔
      get t k=some v ∧ ∃ seq,k=edgePropsKey src dst label seq := by
  rw [mem_scanPrefix]
  constructor
  · rintro ⟨hget,hlead⟩
    have ⟨src',dst',label',seq,hl',hk⟩ := h k v hget
    rw [hk] at hlead
    have ⟨hs,hd,hlabel⟩ := (edgePropsPrefix_iff hl hl').mp hlead
    exact ⟨hget,seq,by rw [hk,hs,hd,hlabel]⟩
  · rintro ⟨hget,seq,hk⟩
    have hlead : edgePropsPrefix src dst label<+:edgePropsKey src dst label seq :=
      (edgePropsPrefix_iff hl hl).mpr ⟨rfl,rfl,rfl⟩
    exact ⟨hget,hk ▸ hlead⟩

/-- Scans by prefix are exact: the bounds cut out the extensions of the prefix,
the index layer computes the same upper bound, a scan of any table returns its
rows under the prefix in key order, and a checked type selects its own rows. -/
theorem prefix_scans_exact (p : Bytes) :
    (∀ k : Bytes,
      (p≤k ∧ (prefixUpperBound p=none ∨ ∃ upper,prefixUpperBound p=some upper ∧ k<upper)) ↔ p<+:k) ∧
    nextPrefix p=prefixUpperBound p ∧
    (∀ (α : Type) (t : Table Bytes α),
      ((scanPrefix t p).Pairwise fun a b => a.1<b.1) ∧
        ∀ k v,(k,v)∈scanPrefix t p ↔ (k,v)∈t.rows ∧ p<+:k) ∧
    (∀ (α : Type) (t : Table Bytes α) (src dst : NodeId) (label : String),
      WrittenByType t → isValidName label=true →
        ∀ k v,(k,v)∈scanPrefix t (edgePropsPrefix src dst label) ↔
          (k,v)∈t.rows ∧ ∃ seq,k=edgePropsKey src dst label seq) := by
  refine ⟨between_bounds_iff p,?_,?_,?_⟩
  · rw [nextPrefix_eq,prefixUpperBound_eq]
  · intro α t
    refine ⟨scanPrefix_ordered t p,fun k v => ?_⟩
    rw [mem_scanPrefix,get_eq_some]
  · intro α t src dst label ht hl k v
    rw [mem_scanPrefix_edgeProps ht hl,get_eq_some]

end GraphDbLite.PrefixScans
