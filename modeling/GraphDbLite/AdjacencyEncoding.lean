import Mathlib.Data.List.Nodup
import Mathlib.Data.List.TakeWhile
import Mathlib.Tactic.NormNum
import Mathlib.Tactic.Ring
import GraphDbLite.ByteStrings

/-!
# Delta-varint encoding of neighbour lists

A neighbour list is a strictly increasing list of node identifiers, stored as
the LEB128 encodings of its successive differences. The loops are those of the
storage code on 64-bit words: shifts and sums wrap. On strictly increasing lists
decoding inverts encoding, and the binary-search updates act as insertion into
and removal from a finite set.
-/

namespace GraphDbLite.AdjacencyEncoding

open ByteStrings

/-- Emit the low seven bits, with the continuation bit while more remain. A
64-bit word needs at most ten rounds. -/
@[grind] def encodeVarintLoop : Nat → UInt64 → Bytes
  | 0,_ => []
  | rounds+1,value =>
    let byte := (value &&& 0x7F).toUInt8
    let rest := value >>> 7
    if rest≠0 then (byte ||| 0x80)::encodeVarintLoop rounds rest else [byte]

/-- Unsigned LEB128 encoding of a word. -/
@[grind] def encodeVarint (value : UInt64) : Bytes := encodeVarintLoop 10 value

/-- Collect seven bits a byte until a byte without the continuation bit; the
word and the number of bytes read, or nothing on truncated input. -/
@[grind] def decodeVarintLoop (value shift : UInt64) (read : Nat) : Bytes → Option (UInt64×Nat)
  | [] => none
  | byte::rest =>
    let value := value ||| ((byte &&& 0x7F).toUInt64 <<< shift)
    if byte &&& 0x80=0 then some (value,read+1)
    else decodeVarintLoop value (shift+7) (read+1) rest

/-- Unsigned LEB128 decoding at the front of a buffer. -/
@[grind] def decodeVarint (data : Bytes) : Option (UInt64×Nat) := decodeVarintLoop 0 0 0 data

/-- Encode the differences of a sorted list. -/
@[grind] def encodeIdListLoop (prev : UInt64) : List UInt64 → Bytes
  | [] => []
  | id::ids => encodeVarint (id-prev)++encodeIdListLoop id ids

/-- Delta-varint encoding of a sorted identifier list. -/
@[grind] def encodeIdList (ids : List UInt64) : Bytes := encodeIdListLoop 0 ids

/-- Decode differences and sum them up; each round consumes at least one byte,
so the buffer length bounds the rounds. -/
@[grind] def decodeIdListLoop : Nat → UInt64 → Bytes → List UInt64
  | 0,_,_ => []
  | rounds+1,prev,data =>
    if data=[] then []
    else match decodeVarint data with
      | some (delta,read) => (prev+delta)::decodeIdListLoop rounds (prev+delta) (data.drop read)
      | none => []

/-- Decode a buffer to its identifiers, stopping at a truncated varint. -/
@[grind] def decodeIdList (data : Bytes) : List UInt64 := decodeIdListLoop data.length 0 data

/-- Position of an element of a sorted list, or its insertion point. -/
@[grind] def binarySearch (ids : List UInt64) (id : UInt64) : Except Nat Nat :=
  let pos := (ids.takeWhile fun other => other < id).length
  if ids[pos]?=some id then .ok pos else .error pos

/-- Insert into a sorted list unless already present. -/
@[grind] def insertIntoSorted (ids : List UInt64) (id : UInt64) : List UInt64 :=
  match binarySearch ids id with
  | .ok _ => ids
  | .error pos => ids.insertIdx pos id

/-- Remove from a sorted list, reporting whether the identifier was present. -/
@[grind] def removeFromSorted (ids : List UInt64) (id : UInt64) : List UInt64×Bool :=
  match binarySearch ids id with
  | .ok pos => (ids.eraseIdx pos,true)
  | .error _ => (ids,false)

theorem sevenBit_tests {b : UInt8} (h : b.toNat<128) :
    (b ||| 0x80) &&& 0x7F=b ∧ (b ||| 0x80) &&& 0x80≠0 ∧ b &&& 0x7F=b ∧ b &&& 0x80=0 := by
  have hall : ∀ n : Fin 128,let b := UInt8.ofNat n.val
      (b ||| 0x80) &&& 0x7F=b ∧ (b ||| 0x80) &&& 0x80≠0 ∧ b &&& 0x7F=b ∧ b &&& 0x80=0 := by
    decide
  have hb := hall ⟨b.toNat,h⟩
  simpa only [UInt8.ofNat_toNat] using hb

theorem lowByte_toNat (value : UInt64) : ((value &&& 0x7F).toUInt8).toNat=value.toNat%128 := by
  have hand : (value &&& 0x7F).toNat=value.toNat%128 := by
    rw [UInt64.toNat_and]
    exact Nat.and_two_pow_sub_one_eq_mod value.toNat 7
  rw [UInt64.toNat_toUInt8,hand]
  omega

theorem shiftRight_seven_toNat (value : UInt64) : (value >>> 7).toNat=value.toNat/128 := by
  rw [UInt64.toNat_shiftRight]
  exact Nat.shiftRight_eq_div_pow _ 7

theorem accumulate_toNat {value shift : UInt64} {b : UInt8}
    (hv : value.toNat<2^shift.toNat) (hs : shift.toNat<64) (hfit : b.toNat*2^shift.toNat<2^64) :
    (value ||| (b.toUInt64 <<< shift)).toNat=value.toNat+b.toNat*2^shift.toNat := by
  have hshift : (b.toUInt64 <<< shift).toNat=b.toNat*2^shift.toNat := by
    rw [UInt64.toNat_shiftLeft,Nat.mod_eq_of_lt hs,Nat.shiftLeft_eq,UInt8.toNat_toUInt64]
    exact Nat.mod_eq_of_lt hfit
  rw [UInt64.toNat_or,hshift,Nat.or_comm,Nat.mul_comm,←Nat.two_pow_add_eq_or_of_lt hv,Nat.add_comm]

/-- Decoding an encoded word adds it above the accumulated bits and reads
exactly its bytes, whatever follows. -/
theorem decodeVarintLoop_encodeVarintLoop (rounds : Nat) (v acc shift : UInt64) (read : Nat)
    (tail : Bytes) (hr : v.toNat<2^(7*rounds)) (hpos : 0 < rounds)
    (ha : acc.toNat<2^shift.toNat) (hs : shift.toNat<64) (hfit : v.toNat*2^shift.toNat<2^64) :
    ∃ word,decodeVarintLoop acc shift read (encodeVarintLoop rounds v++tail)=
        some (word,read+(encodeVarintLoop rounds v).length) ∧
      word.toNat=acc.toNat+v.toNat*2^shift.toNat := by
  induction rounds generalizing v acc shift read with
  | zero => exact absurd hpos (lt_irrefl 0)
  | succ rounds ih =>
    have hlow := lowByte_toNat v
    have hrest := shiftRight_seven_toNat v
    have hlt : ((v &&& 0x7F).toUInt8).toNat<128 := by omega
    have ⟨hmask,hcont,hsame,hstop⟩ := sevenBit_tests hlt
    have hsplit : v.toNat=v.toNat%128+128*(v.toNat/128) := by omega
    have hfitLow : ((v &&& 0x7F).toUInt8).toNat*2^shift.toNat<2^64 := by
      rw [hlow]
      exact lt_of_le_of_lt (Nat.mul_le_mul_right _ (Nat.mod_le _ _)) hfit
    have hacc := accumulate_toNat ha hs hfitLow
    by_cases hz : v >>> 7≠0
    · have hnz : v.toNat/128≠0 := by
        intro h
        exact hz (UInt64.toNat_inj.mp (by rw [hrest,h]; rfl))
      have hpow : (2 : Nat)^(shift.toNat+7)=2^shift.toNat*128 := pow_add _ _ _
      have hbig : v.toNat/128*2^(shift.toNat+7)≤v.toNat*2^shift.toNat := by
        rw [hpow]
        calc v.toNat/128*(2^shift.toNat*128)=(128*(v.toNat/128))*2^shift.toNat := by ring
          _≤v.toNat*2^shift.toNat := Nat.mul_le_mul_right _ (by omega)
      have hs7 : shift.toNat+7<64 := by
        by_contra hge
        have hge' : (2 : Nat)^64≤2^(shift.toNat+7) := Nat.pow_le_pow_right (by decide) (by omega)
        have hmul : 2^(shift.toNat+7)≤v.toNat/128*2^(shift.toNat+7) :=
          Nat.le_mul_of_pos_left _ (by omega)
        omega
      have hshift : (shift+7).toNat=shift.toNat+7 := by
        rw [UInt64.toNat_add]
        change (shift.toNat+7)%2^64=shift.toNat+7
        omega
      have hpos' : 0 < rounds := by
        rcases Nat.eq_zero_or_pos rounds with rfl|h
        · omega
        · exact h
      have hr' : (v >>> 7).toNat<2^(7*rounds) := by
        rw [hrest]
        have he : 2^(7*(rounds+1))=2^(7*rounds)*128 := by
          rw [Nat.mul_add,pow_add]
          rfl
        omega
      have hacc' : (acc ||| (((v &&& 0x7F).toUInt8).toUInt64 <<< shift)).toNat<2^(shift+7).toNat := by
        rw [hacc,hshift,hpow]
        nlinarith
      have hfit' : (v >>> 7).toNat*2^(shift+7).toNat<2^64 := by
        rw [hrest,hshift]
        omega
      have ⟨word,hword,hval⟩ := ih (v >>> 7)
        (acc ||| (((v &&& 0x7F).toUInt8).toUInt64 <<< shift)) (shift+7) (read+1) hr' hpos'
        hacc' (by omega) hfit'
      refine ⟨word,?_,?_⟩
      · rw [encodeVarintLoop,if_pos hz,List.cons_append,decodeVarintLoop,if_neg hcont,hmask,hword,
          List.length_cons]
        congr 2
        omega
      · rw [hval,hacc,hrest,hshift,hlow,hpow]
        have hd : v.toNat/128*(2^shift.toNat*128)=128*(v.toNat/128)*2^shift.toNat := by ring
        rw [hd,add_assoc,←add_mul,←hsplit]
    · have hz' : v >>> 7=0 := not_not.mp hz
      have hv : v.toNat/128=0 := by
        rw [←hrest,hz']
        rfl
      refine ⟨acc ||| (((v &&& 0x7F).toUInt8).toUInt64 <<< shift),?_,?_⟩
      · rw [encodeVarintLoop,if_neg hz,List.cons_append,List.nil_append,decodeVarintLoop,
          if_pos hstop,hsame]
        rfl
      · rw [hacc,hlow,Nat.mod_eq_of_lt (by omega)]

theorem decodeVarint_encodeVarint (v : UInt64) (tail : Bytes) :
    decodeVarint (encodeVarint v++tail)=some (v,(encodeVarint v).length) := by
  have hv := v.toNat_lt
  have ⟨word,hword,hval⟩ := decodeVarintLoop_encodeVarintLoop 10 v 0 0 0 tail
    (by have hp : (2 : Nat)^64≤2^(7*10) := by norm_num
        omega) (by decide) (by decide) (by decide) (by simpa using hv)
  have he : word=v := by
    apply UInt64.toNat_inj.mp
    simpa using hval
  rw [decodeVarint,encodeVarint,hword,he,Nat.zero_add]

theorem encodeVarint_ne_nil (v : UInt64) : encodeVarint v≠[] := by
  rw [encodeVarint,encodeVarintLoop]
  split_ifs <;> exact List.cons_ne_nil _ _

/-- Decoding an encoded list from its predecessor gives the list back. Sums do
not wrap because each difference was taken from a larger identifier. -/
theorem decodeIdListLoop_encodeIdListLoop (ids : List UInt64) (prev : UInt64) (rounds : Nat)
    (hr : (encodeIdListLoop prev ids).length ≤ rounds) :
    decodeIdListLoop rounds prev (encodeIdListLoop prev ids)=ids := by
  induction ids generalizing prev rounds with
  | nil =>
    cases rounds with
    | zero => rfl
    | succ rounds => simp [encodeIdListLoop,decodeIdListLoop]
  | cons id ids ih =>
    have hne := encodeVarint_ne_nil (id-prev)
    have hlen : 0<(encodeVarint (id-prev)).length := List.length_pos_iff.mpr hne
    rw [encodeIdListLoop,List.length_append] at hr
    cases rounds with
    | zero => omega
    | succ rounds =>
      have hsum : prev+(id-prev)=id := by
        rw [UInt64.add_comm]
        exact UInt64.sub_add_cancel id prev
      rw [encodeIdListLoop,decodeIdListLoop,if_neg (List.append_ne_nil_of_left_ne_nil hne _),
        decodeVarint_encodeVarint]
      dsimp only
      rw [hsum,List.drop_left,ih id rounds (by omega)]

/-- Decoding inverts encoding on every list. -/
@[simp] theorem decodeIdList_encodeIdList (ids : List UInt64) :
    decodeIdList (encodeIdList ids)=ids :=
  decodeIdListLoop_encodeIdListLoop ids 0 _ le_rfl

variable {ids : List UInt64}

/-- A strictly increasing list splits at the insertion point of an identifier
into the smaller ones, possibly the identifier, and the larger ones. -/
theorem split_at_search (ho : ids.Pairwise (·<·)) (id : UInt64) : ∃ small large,ids=small++large ∧
    small.length=(ids.takeWhile fun other => other < id).length ∧ (∀ a∈small,a < id) ∧ (∀ a∈large,id≤a) := by
  refine ⟨ids.takeWhile fun other => other < id,ids.dropWhile fun other => other < id,
    (List.takeWhile_append_dropWhile).symm,rfl,?_,?_⟩
  · intro a ha
    simpa using List.mem_takeWhile_imp ha
  · intro a ha
    cases hd : ids.dropWhile fun other => other < id with
    | nil =>
      rw [hd] at ha
      exact absurd ha List.not_mem_nil
    | cons first rest =>
      have hfirst : id≤first := by
        have hne : ids.dropWhile (fun other => decide (other < id))≠[] := by
          rw [hd]
          exact List.cons_ne_nil _ _
        have hn := List.head_dropWhile_not (fun other => decide (other < id)) hne
        simp only [hd,List.head_cons,decide_eq_false_iff_not,not_lt] at hn
        exact hn
      have hsub : (first::rest).Pairwise (·<·) := hd ▸ ho.sublist (List.dropWhile_sublist _)
      rw [hd] at ha
      rcases List.mem_cons.mp ha with rfl|hrest
      · exact hfirst
      · exact hfirst.trans ((List.pairwise_cons.mp hsub).1 a hrest).le

theorem binarySearch_ok_iff (ho : ids.Pairwise (·<·)) (id : UInt64) :
    (∃ pos,binarySearch ids id=.ok pos ∧ ids[pos]?=some id) ∨
    (binarySearch ids id=.error (ids.takeWhile fun other => other < id).length ∧ id∉ids) := by
  by_cases h : ids[(ids.takeWhile fun other => other < id).length]?=some id
  · exact Or.inl ⟨_,by simp only [binarySearch,if_pos h],h⟩
  · refine Or.inr ⟨by simp only [binarySearch,if_neg h],fun hm => h ?_⟩
    have ⟨small,large,he,hlen,hsmall,hlarge⟩ := split_at_search ho id
    have hml : id∈large := by
      rw [he] at hm
      rcases List.mem_append.mp hm with hs|hl
      · exact absurd (hsmall id hs) (lt_irrefl _)
      · exact hl
    rw [←hlen,he,List.getElem?_append_right le_rfl,Nat.sub_self]
    cases hlg : large with
    | nil => exact absurd (hlg ▸ hml) List.not_mem_nil
    | cons first rest =>
      have hsub : (first::rest).Pairwise (·<·) :=
        hlg ▸ ho.sublist (he ▸ List.sublist_append_right _ _)
      have hfirst := hlarge first (hlg ▸ List.mem_cons_self)
      rcases List.mem_cons.mp (hlg ▸ hml) with rfl|hrest
      · rfl
      · exact absurd ((List.pairwise_cons.mp hsub).1 id hrest) (not_lt.mpr hfirst)

theorem insertIdx_length_append (small large : List UInt64) (id : UInt64) :
    (small++large).insertIdx small.length id=small++id::large := by
  induction small with
  | nil => rfl
  | cons a small ih => rw [List.cons_append,List.length_cons,List.insertIdx_succ_cons,ih,List.cons_append]

theorem insertIntoSorted_spec (ho : ids.Pairwise (·<·)) (id : UInt64) :
    (insertIntoSorted ids id).Pairwise (·<·) ∧ ∀ a,a∈insertIntoSorted ids id ↔ a=id ∨ a∈ids := by
  rcases binarySearch_ok_iff ho id with ⟨pos,hs,hget⟩|⟨hs,hnot⟩
  · have hm : id∈ids := List.mem_of_getElem? hget
    simp only [insertIntoSorted,hs]
    refine ⟨ho,fun a => ⟨Or.inr,?_⟩⟩
    rintro (rfl|ha)
    · exact hm
    · exact ha
  · have ⟨small,large,he,hlen,hsmall,hlarge⟩ := split_at_search ho id
    have hins : insertIntoSorted ids id=small++id::large := by
      simp only [insertIntoSorted,hs]
      rw [←hlen,he,insertIdx_length_append]
    have hstrict : ∀ a∈large,id<a := by
      intro a ha
      refine lt_of_le_of_ne (hlarge a ha) ?_
      rintro rfl
      exact hnot (he ▸ List.mem_append_right _ ha)
    have hsub := List.pairwise_append.mp (he ▸ ho)
    rw [hins]
    refine ⟨List.pairwise_append.mpr ⟨hsub.1,List.pairwise_cons.mpr ⟨hstrict,hsub.2.1⟩,?_⟩,?_⟩
    · intro a ha b hb
      rcases List.mem_cons.mp hb with rfl|hb
      · exact hsmall a ha
      · exact hsub.2.2 a ha b hb
    · intro a
      rw [he,List.mem_append,List.mem_cons,List.mem_append]
      tauto

/-- Removal keeps a list strictly increasing, drops exactly its argument and
reports whether it was there. -/
theorem removeFromSorted_spec (ho : ids.Pairwise (·<·)) (id : UInt64) :
    (removeFromSorted ids id).1.Pairwise (·<·) ∧ (∀ a,a∈(removeFromSorted ids id).1 ↔ a≠id ∧ a∈ids) ∧
    ((removeFromSorted ids id).2=true ↔ id∈ids) := by
  rcases binarySearch_ok_iff ho id with ⟨pos,hs,hget⟩|⟨hs,hnot⟩
  · have hm : id∈ids := List.mem_of_getElem? hget
    simp only [removeFromSorted,hs]
    refine ⟨ho.sublist (List.eraseIdx_sublist _ _),?_,by simp [hm]⟩
    intro a
    have hnodup : ids.Nodup := ho.imp fun h => h.ne
    have hpos : pos < ids.length := (List.getElem?_eq_some_iff.mp hget).1
    have hval : ids[pos]=id := (List.getElem?_eq_some_iff.mp hget).2
    rw [List.mem_eraseIdx_iff_getElem]
    constructor
    · rintro ⟨i,hi,hne,rfl⟩
      refine ⟨fun h => hne ?_,List.getElem_mem _⟩
      rw [←hval] at h
      exact (List.Nodup.getElem_inj_iff hnodup).mp h
    · rintro ⟨hne,ha⟩
      obtain ⟨i,hi,rfl⟩ := List.getElem_of_mem ha
      exact ⟨i,hi,fun h => hne (by subst h; exact hval),rfl⟩
  · simp only [removeFromSorted,hs]
    refine ⟨ho,fun a => ⟨fun ha => ⟨?_,ha⟩,fun h => h.2⟩,by simp [hnot]⟩
    rintro rfl
    exact hnot ha

end GraphDbLite.AdjacencyEncoding
