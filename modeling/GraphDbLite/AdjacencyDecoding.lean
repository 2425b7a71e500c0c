import Mathlib.Data.Finset.Basic
import Mathlib.Data.Finset.Dedup
import GraphDbLite.AdjacencyEncoding

/-!
# Decoding arbitrary neighbour blobs

A blob from the database file splits into the varints that end in it and an
unfinished rest. The decoder is followed with every shift and sum checked: it
runs without a fault exactly when each varint has at most ten bytes and, like
the sum of all of them, a value below two to the sixty-fourth. Encoded lists
meet the condition, so editing, encoding and decoding act on a finite set.
-/

namespace GraphDbLite.AdjacencyDecoding

open ByteStrings AdjacencyEncoding

/-- What the word arithmetic of the decoder can run into. -/
inductive ArithmeticFault where
  | shiftOutOfRange
  | lostBits
  | sumOverflow
  deriving DecidableEq

/-- The varint loop with its shift range and the shifted-out bits checked. -/
@[grind] def decodeVarintCheckedLoop (value : UInt64) (shift read : Nat) :
    Bytes → Except ArithmeticFault (Option (UInt64×Nat))
  | [] => .ok none
  | byte::rest =>
    if 64≤ shift then .error .shiftOutOfRange
    else if 2^64≤(byte &&& 0x7F).toNat*2^shift then .error .lostBits
    else
      let value := value ||| ((byte &&& 0x7F).toUInt64 <<< UInt64.ofNat shift)
      if byte &&& 0x80=0 then .ok (some (value,read+1))
      else decodeVarintCheckedLoop value (shift+7) (read+1) rest

/-- Checked decoding of the varint at the front of a buffer. -/
@[grind] def decodeVarintChecked (data : Bytes) : Except ArithmeticFault (Option (UInt64×Nat)) :=
  decodeVarintCheckedLoop 0 0 0 data

/-- The list loop with its sum checked. -/
@[grind] def decodeIdListCheckedLoop : Nat → UInt64 → Bytes → Except ArithmeticFault (List UInt64)
  | 0,_,_ => .ok []
  | rounds+1,prev,data =>
    if data=[] then .ok []
    else match decodeVarintChecked data with
      | .error fault => .error fault
      | .ok none => .ok []
      | .ok (some (delta,read)) =>
        if 2^64≤prev.toNat+delta.toNat then .error .sumOverflow
        else match decodeIdListCheckedLoop rounds (prev+delta) (data.drop read) with
          | .error fault => .error fault
          | .ok ids => .ok ((prev+delta)::ids)

/-- Checked decoding of a buffer. -/
@[grind] def decodeIdListChecked (data : Bytes) : Except ArithmeticFault (List UInt64) :=
  decodeIdListCheckedLoop data.length 0 data

/-- The varints that end in a buffer, and the unfinished one behind them. -/
@[grind] def varints : Bytes → List Bytes×Bytes
  | [] => ([],[])
  | byte::rest =>
    if byte &&& 0x80=0 then ([byte]::(varints rest).1,(varints rest).2)
    else match (varints rest).1 with
      | [] => ([],byte::(varints rest).2)
      | next::others => ((byte::next)::others,(varints rest).2)

/-- Number that a varint stands for, without a bound on its size. -/
@[grind] def varintValue : Bytes → Nat
  | [] => 0
  | byte::rest => byte.toNat%128+128*varintValue rest

/-- Sums of the initial segments of a list, above a start. -/
@[grind] def runningSums (start : Nat) : List Nat → List Nat
  | [] => []
  | d::ds => (start+d)::runningSums (start+d) ds

/-- At most ten bytes, and a value that fits a word. -/
@[grind] def FitsWord (varint : Bytes) : Prop := varint.length≤10 ∧ varintValue varint<2^64

/-- Every byte moved to its place stays in the word. -/
@[grind] def BytesFit (shift : Nat) : Bytes → Prop
  | [] => True
  | byte::rest => shift<64 ∧ byte.toNat%128*2^shift<2^64 ∧ BytesFit (shift+7) rest

theorem payload_toNat (byte : UInt8) : (byte &&& 0x7F).toNat=byte.toNat%128 := by
  rw [UInt8.toNat_and]
  exact Nat.and_two_pow_sub_one_eq_mod byte.toNat 7

variable {bytes : Bytes} {parts : List Bytes} {prev : UInt64} {stored : Bool} {calls : List CodecCall}
  {list : Neighbours} {s : Finset UInt64}

/-- The bytes of a nonempty varint fit exactly when the last place is inside the
word and the shifted value is. -/
theorem bytesFit_iff (hne : bytes≠[]) (shift : Nat) :
    BytesFit shift bytes ↔ shift+7*bytes.length<71 ∧ varintValue bytes*2^shift<2^64 := by
  induction bytes generalizing shift with
  | nil => exact absurd rfl hne
  | cons byte rest ih =>
    have hbyte : byte.toNat%128<128 := Nat.mod_lt _ (by decide)
    have hp : 0<2^shift := Nat.two_pow_pos shift
    cases rest with
    | nil =>
      simp only [BytesFit,varintValue,List.length_cons,List.length_nil,and_true]
      constructor
      · intro h
        exact ⟨by omega,by simpa using h.2⟩
      · intro h
        exact ⟨by omega,by simpa using h.2⟩
    | cons next others =>
      have hrest := ih (List.cons_ne_nil next others) (shift+7)
      have hpow : (2 : Nat)^(shift+7)=128*2^shift := by
        rw [pow_add]
        omega
      have hvalue : varintValue (byte::next::others)*2^shift=
          byte.toNat%128*2^shift+varintValue (next::others)*2^(shift+7) := by
        rw [varintValue,hpow]
        ring
      rw [BytesFit,hrest,hvalue,@List.length_cons _ byte (next::others)]
      constructor
      · intro h
        have hlen := h.2.2.1
        have hplace : shift+7<64 := by
          simp only [List.length_cons] at hlen
          omega
        have hword : (2 : Nat)^64=2^(57-shift)*2^(shift+7) := by
          rw [←pow_add]
          congr 1
          omega
        have hbound : varintValue (next::others)<2^(57-shift) := by
          have h64 := h.2.2.2
          rw [hword] at h64
          exact Nat.lt_of_mul_lt_mul_right h64
        have htop : (varintValue (next::others)+1)*2^(shift+7)≤2^64 := by
          rw [hword]
          exact Nat.mul_le_mul_right _ hbound
        have hlow : byte.toNat%128*2^shift<2^(shift+7) := by
          rw [hpow]
          exact Nat.mul_lt_mul_of_pos_right hbyte hp
        rw [Nat.add_mul,Nat.one_mul] at htop
        exact ⟨by omega,by omega⟩
      · intro h
        have hlen := h.1
        simp only [List.length_cons] at hlen ⊢
        exact ⟨by omega,by omega,by omega,by omega⟩

/-- From the first place on the bytes fit exactly when the varint fits a word. -/
theorem bytesFit_zero_iff (bytes : Bytes) : BytesFit 0 bytes ↔ FitsWord bytes := by
  by_cases hne : bytes=[]
  · rw [hne]
    simp [BytesFit,FitsWord,varintValue]
  · rw [bytesFit_iff hne,FitsWord]
    constructor
    · intro h
      exact ⟨by omega,by simpa using h.2⟩
    · intro h
      exact ⟨by omega,by simpa using h.2⟩

/-- Buffers as varints followed by an unfinished one. -/
inductive Splits : Bytes → List Bytes → Bytes → Prop where
  | rest (tail : Bytes) (hcont : ∀ b∈tail,b &&& 0x80≠0) : Splits tail [] tail
  | varint (front : Bytes) (last : UInt8) {data : Bytes} {others : List Bytes} {tail : Bytes}
      (hcont : ∀ b∈front,b &&& 0x80≠0) (hlast : last &&& 0x80=0) (hrest : Splits data others tail) :
      Splits (front++last::data) ((front++[last])::others) tail

variable {data : Bytes} {tail : Bytes} {rounds : Nat} {ids : List UInt64}

/-- Putting a byte with the continuation bit in front extends the first varint,
or the unfinished one when there is no other. -/
theorem Splits.extend (h : Splits data parts tail) {byte : UInt8} (hb : byte &&& 0x80≠0) :
    (parts=[] ∧ Splits (byte::data) [] (byte::tail)) ∨ ∃ next others,parts=next::others ∧ Splits (byte::data)
    ((byte::next)::others) tail := by
  cases h with
  | rest tail hcont =>
    refine Or.inl ⟨rfl,Splits.rest _ ?_⟩
    intro b hmem
    rcases List.mem_cons.mp hmem with heq | hmem
    · rw [heq]
      exact hb
    · exact hcont b hmem
  | varint front last hcont hlast hrest =>
    refine Or.inr ⟨front++[last],_,rfl,?_⟩
    have hfront : ∀ b∈byte::front,b &&& 0x80≠0 := by
      intro b hmem
      rcases List.mem_cons.mp hmem with heq | hmem
      · rw [heq]
        exact hb
      · exact hcont b hmem
    exact Splits.varint (byte::front) last hfront hlast hrest

theorem splits_varints (data : Bytes) : Splits data (varints data).1 (varints data).2 := by
  induction data with
  | nil => exact Splits.rest [] fun b hb => absurd hb List.not_mem_nil
  | cons byte rest ih =>
    rw [varints]
    by_cases hstop : byte &&& 0x80=0
    · rw [if_pos hstop]
      exact Splits.varint [] byte (fun b hb => absurd hb List.not_mem_nil) hstop ih
    · rw [if_neg hstop]
      rcases ih.extend hstop with ⟨hnil,hsplit⟩ | ⟨next,others,hcons,hsplit⟩
      · rw [hnil]
        exact hsplit
      · rw [hcons]
        exact hsplit

/-- The checked loop faults inside a run of bytes that do not fit, and otherwise
passes it with its value above the accumulated bits. -/
theorem decodeVarintCheckedLoop_append {front : Bytes} (tail : Bytes) {value : UInt64} {shift : Nat}
    (read : Nat) (hcont : ∀ b∈front,b &&& 0x80≠0) (hv : value.toNat<2^shift) :
    (¬BytesFit shift front → ∃ fault,
      decodeVarintCheckedLoop value shift read (front++tail)=.error fault) ∧
    (BytesFit shift front → ∃ word : UInt64,word.toNat=value.toNat+varintValue front*2^shift ∧
      word.toNat<2^(shift+7*front.length) ∧
      decodeVarintCheckedLoop value shift read (front++tail)=
        decodeVarintCheckedLoop word (shift+7*front.length) (read+front.length) tail) := by
  induction front generalizing value shift read with
  | nil =>
    refine ⟨fun h => absurd trivial h,fun _ => ⟨value,?_,hv,rfl⟩⟩
    simp [varintValue]
  | cons byte front ih =>
    have hpay := payload_toNat byte
    have hbyte : byte.toNat%128<128 := Nat.mod_lt _ (by decide)
    have hgo := hcont byte List.mem_cons_self
    have hfront : ∀ b∈front,b &&& 0x80≠0 := fun b hb => hcont b (List.mem_cons_of_mem _ hb)
    have hpow : (2 : Nat)^(shift+7)=128*2^shift := by
      rw [pow_add]
      omega
    rw [List.cons_append,decodeVarintCheckedLoop,hpay]
    by_cases hshift : 64≤ shift
    · rw [if_pos hshift]
      exact ⟨fun _ => ⟨_,rfl⟩,fun h => absurd h.1 (not_lt.mpr hshift)⟩
    rw [if_neg hshift]
    by_cases hbits : 2^64≤byte.toNat%128*2^shift
    · rw [if_pos hbits]
      exact ⟨fun _ => ⟨_,rfl⟩,fun h => absurd h.2.1 (not_lt.mpr hbits)⟩
    rw [if_neg hbits,if_neg hgo]
    have hword : (UInt64.ofNat shift).toNat=shift := by
      rw [UInt64.toNat_ofNat']
      omega
    have hacc : (value ||| ((byte &&& 0x7F).toUInt64 <<< UInt64.ofNat shift)).toNat=
        value.toNat+byte.toNat%128*2^shift := by
      have h := @accumulate_toNat value (UInt64.ofNat shift) (byte &&& 0x7F)
        (by rw [hword]; exact hv) (by omega) (by rw [hword,hpay]; omega)
      rw [h,hword,hpay]
    have hbound : (value ||| ((byte &&& 0x7F).toUInt64 <<< UInt64.ofNat shift)).toNat<2^(shift+7) := by
      have hlow : (byte.toNat%128+1)*2^shift≤128*2^shift := Nat.mul_le_mul_right _ hbyte
      rw [Nat.add_mul,Nat.one_mul] at hlow
      omega
    have ⟨hfault,hpass⟩ := ih (read+1) hfront hbound
    refine ⟨fun h => ?_,fun h => ?_⟩
    · exact hfault fun hfit => h ⟨by omega,by omega,hfit⟩
    · have ⟨word,hvalue,hlt,hloop⟩ := hpass h.2.2
      have hplace : shift+7+7*front.length=shift+7*(byte::front).length := by
        rw [List.length_cons]
        omega
      refine ⟨word,?_,?_,?_⟩
      · rw [hvalue,hacc,varintValue,hpow]
        ring
      · rw [←hplace]
        exact hlt
      · rw [hloop,hplace,List.length_cons]
        congr 1
        omega

theorem bytesFit_append (front tail : Bytes) (shift : Nat) :
    BytesFit shift (front++tail) ↔ BytesFit shift front ∧ BytesFit (shift+7*front.length) tail := by
  induction front generalizing shift with
  | nil => simp [BytesFit]
  | cons byte front ih =>
    have hplace : shift+7+7*front.length=shift+7*(byte::front).length := by
      rw [List.length_cons]
      omega
    rw [List.cons_append,BytesFit,ih,BytesFit,hplace]
    simp only [and_assoc]

theorem varintValue_append (front tail : Bytes) :
    varintValue (front++tail)=varintValue front+varintValue tail*2^(7*front.length) := by
  induction front with
  | nil => simp [varintValue]
  | cons byte front ih =>
    have hpow : (2 : Nat)^(7*(byte::front).length)=128*2^(7*front.length) := by
      rw [List.length_cons,Nat.mul_add,pow_add]
      omega
    rw [List.cons_append,varintValue,ih,varintValue,hpow]
    ring

/-- An unfinished varint is read to the end of the buffer, without a fault
exactly when it fits. -/
theorem decodeVarintChecked_rest (hcont : ∀ b∈tail,b &&& 0x80≠0) :
    (¬FitsWord tail → ∃ fault,decodeVarintChecked tail=.error fault) ∧
    (FitsWord tail → decodeVarintChecked tail=.ok none) := by
  have hloop := @decodeVarintCheckedLoop_append tail [] 0 0 0 hcont (by decide)
  rw [bytesFit_zero_iff,List.append_nil] at hloop
  refine ⟨hloop.1,fun h => ?_⟩
  have ⟨word,_,_,heq⟩ := hloop.2 h
  rw [decodeVarintChecked,heq]
  rfl

/-- A finished varint is read to its last byte, without a fault exactly when it
fits, and gives its value. -/
theorem decodeVarintChecked_varint {front : Bytes} {last : UInt8} (data : Bytes)
    (hcont : ∀ b∈front,b &&& 0x80≠0) (hlast : last &&& 0x80=0) :
    (¬FitsWord (front++[last]) → ∃ fault,decodeVarintChecked (front++last::data)=.error fault) ∧
      (FitsWord (front++[last]) → ∃ word : UInt64,word.toNat=varintValue (front++[last]) ∧
        decodeVarintChecked (front++last::data)=.ok (some (word,front.length+1))) := by
  have hloop := @decodeVarintCheckedLoop_append front (last::data) 0 0 0 hcont (by decide)
  have hpay := payload_toNat last
  rw [←bytesFit_zero_iff,bytesFit_append]
  by_cases hfront : BytesFit 0 front
  · have ⟨word,hvalue,hlt,heq⟩ := hloop.2 hfront
    have hzero : (0 : UInt64).toNat=0 := rfl
    rw [Nat.zero_add] at hlt heq
    rw [decodeVarintChecked,heq,decodeVarintCheckedLoop,hpay,Nat.zero_add,Nat.zero_add]
    by_cases hshift : 64≤7*front.length
    · rw [if_pos hshift]
      exact ⟨fun _ => ⟨_,rfl⟩,fun h => absurd h.2.1 (not_lt.mpr hshift)⟩
    rw [if_neg hshift]
    by_cases hbits : 2^64≤last.toNat%128*2^(7*front.length)
    · rw [if_pos hbits]
      exact ⟨fun _ => ⟨_,rfl⟩,fun h => absurd h.2.2.1 (not_lt.mpr hbits)⟩
    rw [if_neg hbits,if_pos hlast]
    have hword : (UInt64.ofNat (7*front.length)).toNat=7*front.length := by
      rw [UInt64.toNat_ofNat']
      omega
    have hacc := @accumulate_toNat word (UInt64.ofNat (7*front.length))
      (last &&& 0x7F) (by rw [hword]; exact hlt) (by omega) (by rw [hword,hpay]; omega)
    rw [hword,hpay,hvalue,hzero] at hacc
    refine ⟨fun h => absurd ⟨hfront,by omega,by omega,trivial⟩ h,fun _ => ⟨_,?_,rfl⟩⟩
    rw [hacc,varintValue_append,varintValue,varintValue]
    ring
  · have ⟨fault,hfault⟩ := hloop.1 hfront
    exact ⟨fun _ => ⟨fault,hfault⟩,fun h => absurd h.1 hfront⟩

/-- What the checked decoder needs of the rest of a buffer, above the last
identifier read. -/
@[grind] def FitsFrom (prev : Nat) (parts : List Bytes) (tail : Bytes) : Prop :=
  (∀ part∈parts,FitsWord part) ∧ FitsWord tail ∧ prev+(parts.map varintValue).sum<2^64

/-- The checked list loop faults on a buffer that does not fit; on one that fits
it returns the running sums of its varints. -/
theorem decodeIdListCheckedLoop_splits
    (h : Splits data parts tail) (hr : data.length≤ rounds) (prev : UInt64) :
    (¬FitsFrom prev.toNat parts tail → ∃ fault,decodeIdListCheckedLoop rounds prev data=.error fault) ∧
      (FitsFrom prev.toNat parts tail → ∃ ids : List UInt64,
        ids.map UInt64.toNat=runningSums prev.toNat (parts.map varintValue) ∧
        decodeIdListCheckedLoop rounds prev data=.ok ids) := by
  induction h generalizing rounds prev with
  | rest tail hcont =>
    have hprev := prev.toNat_lt
    have hfits : FitsFrom prev.toNat [] tail ↔ FitsWord tail := by
      constructor
      · exact fun h => h.2.1
      · exact fun h => ⟨fun part hpart => absurd hpart List.not_mem_nil,h,by simpa using hprev⟩
    rw [hfits]
    have ⟨hfault,hpass⟩ := decodeVarintChecked_rest hcont
    cases rounds with
    | zero =>
      have hnil : tail=[] := List.length_eq_zero_iff.mp (Nat.le_zero.mp hr)
      have hempty : FitsWord ([] : Bytes) := by simp [FitsWord,varintValue]
      rw [hnil]
      exact ⟨fun hn => absurd hempty hn,fun _ => ⟨[],rfl,rfl⟩⟩
    | succ rounds =>
      rw [decodeIdListCheckedLoop]
      by_cases hnil : tail=[]
      · have hempty : FitsWord ([] : Bytes) := by simp [FitsWord,varintValue]
        rw [if_pos hnil,hnil]
        exact ⟨fun hn => absurd hempty hn,fun _ => ⟨[],rfl,rfl⟩⟩
      · rw [if_neg hnil]
        refine ⟨fun hn => ?_,fun hf => ?_⟩
        · have ⟨fault,heq⟩ := hfault hn
          exact ⟨fault,by rw [heq]⟩
        · rw [hpass hf]
          exact ⟨[],rfl,rfl⟩
  | @varint front last data others tail hcont hlast hrest ih =>
    have ⟨hfault,hpass⟩ := decodeVarintChecked_varint data hcont hlast
    have hne : front++last::data≠[] := List.append_ne_nil_of_right_ne_nil _ (List.cons_ne_nil _ _)
    have hlen : (front++last::data).length=front.length+1+data.length := by
      rw [List.length_append,List.length_cons]
      omega
    cases rounds with
    | zero => omega
    | succ rounds =>
      rw [decodeIdListCheckedLoop,if_neg hne]
      by_cases hword : FitsWord (front++[last])
      · have ⟨word,hvalue,heq⟩ := hpass hword
        have hdrop : (front++last::data).drop (front.length+1)=data := by
          have hsplit : front++last::data=(front++[last])++data := by simp
          rw [hsplit]
          exact List.drop_left' (by simp)
        rw [heq]
        simp only [hdrop,hvalue]
        by_cases hsum : 2^64≤prev.toNat+varintValue (front++[last])
        · rw [if_pos hsum]
          refine ⟨fun _ => ⟨_,rfl⟩,fun hf => ?_⟩
          have hall := hf.2.2
          rw [List.map_cons,List.sum_cons] at hall
          omega
        · rw [if_neg hsum]
          have hnext : (prev+word).toNat=prev.toNat+varintValue (front++[last]) := by
            rw [UInt64.toNat_add,hvalue]
            exact Nat.mod_eq_of_lt (by omega)
          have hfits : FitsFrom prev.toNat ((front++[last])::others) tail ↔
              FitsFrom (prev+word).toNat others tail := by
            rw [FitsFrom,FitsFrom,hnext,List.map_cons,List.sum_cons,List.forall_mem_cons,Nat.add_assoc]
            exact ⟨fun h => ⟨h.1.2,h.2⟩,fun h => ⟨⟨hword,h.1⟩,h.2⟩⟩
          have ⟨hbad,hgood⟩ := @ih rounds (by omega) (prev+word)
          rw [hfits]
          refine ⟨fun hn => ?_,fun hf => ?_⟩
          · have ⟨fault,hloop⟩ := hbad hn
            exact ⟨fault,by rw [hloop]⟩
          · have ⟨ids,hids,hloop⟩ := hgood hf
            refine ⟨(prev+word)::ids,?_,by rw [hloop]⟩
            rw [List.map_cons,hids,hnext,List.map_cons,runningSums]
      · have ⟨fault,heq⟩ := hfault hword
        rw [heq]
        exact ⟨fun _ => ⟨fault,rfl⟩,fun hf => absurd (hf.1 _ List.mem_cons_self) hword⟩

theorem decodeVarintLoop_of_checked {value : UInt64} {shift read : Nat} {result : Option (UInt64×Nat)}
    (h : decodeVarintCheckedLoop value shift read bytes=.ok result) :
    decodeVarintLoop value (UInt64.ofNat shift) read bytes=result := by
  induction bytes generalizing value shift read with
  | nil => exact Except.ok.inj h
  | cons byte rest ih =>
    rw [decodeVarintCheckedLoop] at h
    split_ifs at h with hshift hbits hstop
    · rw [decodeVarintLoop,if_pos hstop]
      exact Except.ok.inj h
    · have hnext : UInt64.ofNat shift+7=UInt64.ofNat (shift+7) := (UInt64.ofNat_add shift 7).symm
      rw [decodeVarintLoop,if_neg hstop,hnext]
      exact ih h

theorem decodeIdListLoop_of_checked (h : decodeIdListCheckedLoop rounds prev data=.ok ids) :
    decodeIdListLoop rounds prev data=ids := by
  induction rounds generalizing prev data ids with
  | zero => exact Except.ok.inj h
  | succ rounds ih =>
    rw [decodeIdListCheckedLoop] at h
    rw [decodeIdListLoop]
    by_cases hnil : data=[]
    · rw [if_pos hnil] at h ⊢
      exact Except.ok.inj h
    · rw [if_neg hnil] at h ⊢
      cases hvarint : decodeVarintChecked data with
      | error fault =>
        rw [hvarint] at h
        exact nomatch h
      | ok result =>
        have hplain : decodeVarint data=result := decodeVarintLoop_of_checked hvarint
        rw [hvarint] at h
        rw [hplain]
        cases result with
        | none => exact Except.ok.inj h
        | some read =>
          simp only at h
          split_ifs at h with hsum
          cases hrest : decodeIdListCheckedLoop rounds (prev+read.1) (data.drop read.2) with
          | error fault =>
            rw [hrest] at h
            exact nomatch h
          | ok others =>
            rw [hrest] at h
            have hids : (prev+read.1)::others=ids := Except.ok.inj h
            rw [←hids,←ih hrest]

theorem le_of_mem_runningSums {start n : Nat} {ds : List Nat} (h : n∈runningSums start ds) : start≤n := by
  induction ds generalizing start with
  | nil => exact absurd h List.not_mem_nil
  | cons d ds ih =>
    rcases List.mem_cons.mp h with heq | hrest
    · omega
    · exact (Nat.le_add_right start d).trans (ih hrest)

theorem runningSums_ordered (start : Nat) (ds : List Nat) : (runningSums start ds).Pairwise (·≤·) := by
  induction ds generalizing start with
  | nil => exact List.Pairwise.nil
  | cons d ds ih => exact List.pairwise_cons.mpr ⟨fun n hn => le_of_mem_runningSums hn,ih (start+d)⟩

/-- Decoding without a fault: no shift out of range, no bit lost in a shift and
no sum out of range; the list does not decrease, and each identifier is the sum
of the varints up to it, so nothing is read from a corrupt one. -/
structure DecodesSafely (data : Bytes) : Prop where
  /-- Every shift and sum is in range, and the checks change nothing. -/
  runs : decodeIdListChecked data=.ok (decodeIdList data)
  /-- Identifiers do not decrease. -/
  ordered : (decodeIdList data).Pairwise (·≤·)
  /-- Identifiers are the sums of the varints read. -/
  sums : (decodeIdList data).map UInt64.toNat=runningSums 0 ((varints data).1.map varintValue)

/-- Decoding is safe exactly when every varint of the buffer, finished or not,
has at most ten bytes and a value below two to the sixty-fourth, and so has the
sum of the finished ones. -/
theorem decodesSafely_iff (data : Bytes) :
    DecodesSafely data ↔
      (∀ part∈(varints data).1,part.length≤10 ∧ varintValue part<2^64) ∧
      ((varints data).2.length≤10 ∧ varintValue (varints data).2<2^64) ∧
      ((varints data).1.map varintValue).sum<2^64 := by
  have ⟨hfault,hpass⟩ := decodeIdListCheckedLoop_splits (splits_varints data) (le_refl data.length) 0
  have hfits : FitsFrom (0 : UInt64).toNat (varints data).1 (varints data).2 ↔
      (∀ part∈(varints data).1,part.length≤10 ∧ varintValue part<2^64) ∧
      ((varints data).2.length≤10 ∧ varintValue (varints data).2<2^64) ∧
      ((varints data).1.map varintValue).sum<2^64 := by
    have hzero : (0 : UInt64).toNat=0 := rfl
    rw [FitsFrom,hzero,Nat.zero_add]
    exact Iff.rfl
  rw [←hfits]
  constructor
  · intro h
    by_contra hn
    have ⟨fault,heq⟩ := hfault hn
    have hruns : decodeIdListCheckedLoop data.length 0 data=.ok (decodeIdList data) := h.runs
    rw [heq] at hruns
    exact nomatch hruns
  · intro h
    have ⟨ids,hids,hchecked⟩ := hpass h
    have hplain : decodeIdList data=ids := decodeIdListLoop_of_checked hchecked
    refine ⟨?_,?_,?_⟩
    · rw [hplain]
      exact hchecked
    · have hsums := runningSums_ordered (0 : UInt64).toNat ((varints data).1.map varintValue)
      rw [←hids] at hsums
      rw [hplain]
      exact (List.pairwise_map.mp hsums).imp fun hle => UInt64.le_iff_toNat_le.mpr hle
    · rw [hplain]
      exact hids

/-- Ten continuation bytes before the last one shift by seventy places, and a
difference of one above the greatest word wraps to a decreasing list. -/
theorem decodesSafely_fails :
    ¬DecodesSafely (List.replicate 10 0x80++[1]) ∧
    ¬DecodesSafely (List.replicate 9 0xFF++[1,1]) ∧
    decodeIdList (List.replicate 9 0xFF++[1,1])=[0xFFFFFFFFFFFFFFFF,0] := by
  have hshift : decodeIdListChecked (List.replicate 10 0x80++[1])=.error .shiftOutOfRange := by decide
  have hsum : decodeIdListChecked (List.replicate 9 0xFF++[1,1])=.error .sumOverflow := by decide
  refine ⟨fun h => ?_,fun h => ?_,by decide⟩
  · have hruns := h.runs
    rw [hshift] at hruns
    exact nomatch hruns
  · have hruns := h.runs
    rw [hsum] at hruns
    exact nomatch hruns

theorem encodeVarintLoop_form {v : UInt64} (hr : v.toNat<2^(7*rounds)) (hpos : 0 < rounds) :
    ∃ front last,encodeVarintLoop rounds v=front++[last] ∧ (∀ b∈front,b &&& 0x80≠0) ∧ last &&& 0x80=0 ∧
    front.length< rounds ∧ varintValue (front++[last])=v.toNat := by
  induction rounds generalizing v with
  | zero => exact absurd hpos (lt_irrefl 0)
  | succ rounds ih =>
    have hlow := lowByte_toNat v
    have hrest := shiftRight_seven_toNat v
    have hlt : ((v &&& 0x7F).toUInt8).toNat<128 := by omega
    have ⟨hmask,hcont,_,hstop⟩ := sevenBit_tests hlt
    rw [encodeVarintLoop]
    by_cases hz : v >>> 7=0
    · have hv : v.toNat/128=0 := by
        rw [←hrest,hz]
        rfl
      refine ⟨[],(v &&& 0x7F).toUInt8,?_,fun b hb => absurd hb List.not_mem_nil,hstop,?_,?_⟩
      · rw [if_neg (not_not.mpr hz)]
        rfl
      · exact Nat.succ_pos rounds
      · rw [List.nil_append,varintValue,varintValue,hlow]
        omega
    · have hnz : v.toNat/128≠0 := by
        intro h
        exact hz (UInt64.toNat_inj.mp (by rw [hrest,h]; rfl))
      have hbound : (v >>> 7).toNat<2^(7*rounds) := by
        rw [hrest]
        have he : 2^(7*(rounds+1))=2^(7*rounds)*128 := by
          rw [Nat.mul_add,pow_add]
          rfl
        omega
      have hmore : 0 < rounds := by
        by_contra hzero
        have heq : rounds=0 := by omega
        rw [heq] at hbound
        simp only [Nat.mul_zero,pow_zero] at hbound
        omega
      have ⟨front,last,heq,hfront,hlast,hlen,hvalue⟩ := ih hbound hmore
      refine ⟨((v &&& 0x7F).toUInt8 ||| 0x80)::front,last,?_,?_,hlast,?_,?_⟩
      · rw [if_pos hz,heq]
        rfl
      · intro b hb
        rcases List.mem_cons.mp hb with hb | hb
        · rw [hb]
          exact hcont
        · exact hfront b hb
      · rw [List.length_cons]
        omega
      · have hpay := payload_toNat ((v &&& 0x7F).toUInt8 ||| 0x80)
        rw [hmask,hlow] at hpay
        rw [List.cons_append,varintValue,hvalue,hrest,←hpay]
        omega

/-- An encoded sorted list splits into fitting varints with nothing left over. -/
theorem encodeIdListLoop_splits (ho : (prev::ids).Pairwise (·≤·)) :
    ∃ parts,Splits (encodeIdListLoop prev ids) parts [] ∧ FitsFrom prev.toNat parts [] := by
  induction ids generalizing prev with
  | nil =>
    have hempty : FitsWord ([] : Bytes) := by simp [FitsWord,varintValue]
    refine ⟨[],Splits.rest [] fun b hb => absurd hb List.not_mem_nil,?_⟩
    exact ⟨fun part hpart => absurd hpart List.not_mem_nil,hempty,by simpa using prev.toNat_lt⟩
  | cons id ids ih =>
    have ⟨hhead,hrest⟩ := List.pairwise_cons.mp ho
    have ⟨parts,hsplit,hfits⟩ := ih hrest
    have hle : prev≤ id := hhead id List.mem_cons_self
    have hsub : (id-prev).toNat=id.toNat-prev.toNat := UInt64.toNat_sub_of_le id prev hle
    have hnat := UInt64.le_iff_toNat_le.mp hle
    have hword := (id-prev).toNat_lt
    have hround : (id-prev).toNat<2^(7*10) := hword.trans (by norm_num)
    have ⟨front,last,heq,hfront,hlast,hlen,hvalue⟩ := encodeVarintLoop_form hround (by decide)
    refine ⟨(front++[last])::parts,?_,?_,hfits.2.1,?_⟩
    · rw [encodeIdListLoop,encodeVarint,heq,List.append_assoc]
      exact Splits.varint front last hfront hlast hsplit
    · rw [List.forall_mem_cons]
      refine ⟨⟨?_,?_⟩,hfits.1⟩
      · rw [List.length_append,List.length_singleton]
        omega
      · rw [hvalue]
        exact hword
    · have hsum := hfits.2.2
      rw [List.map_cons,List.sum_cons,hvalue,hsub]
      omega

theorem decodeIdListChecked_encodeIdList (ho : ids.Pairwise (·<·)) : decodeIdListChecked (encodeIdList ids)=.ok ids := by
  have hsorted : ((0 : UInt64)::ids).Pairwise (·≤·) := by
    refine List.pairwise_cons.mpr ⟨fun id _ => ?_,ho.imp le_of_lt⟩
    exact UInt64.le_iff_toNat_le.mpr (Nat.zero_le _)
  have ⟨parts,hsplit,hfits⟩ := encodeIdListLoop_splits hsorted
  have ⟨read,_,hchecked⟩ := (decodeIdListCheckedLoop_splits hsplit le_rfl 0).2 hfits
  have hplain : decodeIdList (encodeIdList ids)=read := decodeIdListLoop_of_checked hchecked
  have hread : ids=read := (decodeIdList_encodeIdList ids).symm.trans hplain
  exact hchecked.trans (congrArg Except.ok hread.symm)

/-- A neighbour list, in memory or as stored. -/
inductive Neighbours where
  | ids (ids : List UInt64)
  | blob (data : Bytes)
  deriving DecidableEq

/-- One call of the encoding module. -/
inductive CodecCall where
  | insert (id : UInt64)
  | remove (id : UInt64)
  | encode
  | decode

/-- A call on the form of list that it takes, with the report of a removal. -/
@[grind] def runCall : CodecCall → Neighbours → Option (Neighbours×List Bool)
  | .insert id,.ids ids => some (.ids (insertIntoSorted ids id),[])
  | .remove id,.ids ids => some (.ids (removeFromSorted ids id).1,[(removeFromSorted ids id).2])
  | .encode,.ids ids => some (.blob (encodeIdList ids),[])
  | .decode,.blob data => some (.ids (decodeIdList data),[])
  | _,_ => none

/-- Calls in turn, with the reports of their removals. -/
@[grind] def runCalls : List CodecCall → Neighbours → Option (Neighbours×List Bool)
  | [],list => some (list,[])
  | call::calls,list => do
    let (next,reports) ← runCall call list
    let (last,others) ← runCalls calls next
    return (last,reports++others)

/-- Whether each call of a sequence meets the form of list that it takes. -/
@[grind] def callsFit (stored : Bool) : List CodecCall → Bool
  | [] => true
  | .insert _::calls => !stored && callsFit false calls
  | .remove _::calls => !stored && callsFit false calls
  | .encode::calls => !stored && callsFit true calls
  | .decode::calls => stored && callsFit false calls

/-- What a call does to a finite set. -/
@[grind] def setCall (call : CodecCall) (s : Finset UInt64) : Finset UInt64×List Bool :=
  match call with
  | .insert id => (insert id s,[])
  | .remove id => (s.erase id,[decide (id∈s)])
  | .encode => (s,[])
  | .decode => (s,[])

/-- What calls in turn do to a finite set. -/
@[grind] def setCalls : List CodecCall → Finset UInt64 → Finset UInt64×List Bool
  | [],s => (s,[])
  | call::calls,s =>
    let (next,reports) := setCall call s
    let (last,others) := setCalls calls next
    (last,reports++others)

/-- The list, decoded or stored, is the strictly increasing list of the members
of the set. -/
@[grind] def Represents (stored : Bool) (list : Neighbours) (s : Finset UInt64) : Prop :=
  ∃ ids : List UInt64,ids.Pairwise (·<·) ∧ ids.toFinset=s ∧
    list=if stored=true then .blob (encodeIdList ids) else .ids ids

theorem insertIntoSorted_toFinset (ho : ids.Pairwise (·<·)) (id : UInt64) :
    (insertIntoSorted ids id).toFinset=insert id ids.toFinset := by
  ext a
  rw [List.mem_toFinset,(insertIntoSorted_spec ho id).2 a,Finset.mem_insert,List.mem_toFinset]

theorem removeFromSorted_toFinset (ho : ids.Pairwise (·<·)) (id : UInt64) :
    (removeFromSorted ids id).1.toFinset=ids.toFinset.erase id := by
  ext a
  rw [List.mem_toFinset,(removeFromSorted_spec ho id).2.1 a,Finset.mem_erase,List.mem_toFinset]

theorem removeFromSorted_report (ho : ids.Pairwise (·<·)) (id : UInt64) :
    (removeFromSorted ids id).2=decide (id∈ids.toFinset) := by
  rw [Bool.eq_iff_iff,(removeFromSorted_spec ho id).2.2,decide_eq_true_iff,List.mem_toFinset]

/-- A call that meets its form runs, reports what the set says and leaves the
changed set, in the form that the later calls are checked against. -/
theorem runCall_represents {call : CodecCall} (h : Represents stored list s)
    (hfit : callsFit stored (call::calls)=true) : ∃ next form,runCall call list=some (next,(setCall call s).2) ∧
    Represents form next (setCall call s).1 ∧ callsFit form calls=true := by
  have ⟨ids,ho,hset,hlist⟩ := h
  rw [hlist,←hset]
  cases stored with
  | false =>
    cases call with
    | insert id =>
      refine ⟨_,false,rfl,?_,hfit⟩
      exact ⟨_,(insertIntoSorted_spec ho id).1,insertIntoSorted_toFinset ho id,rfl⟩
    | remove id =>
      refine ⟨.ids (removeFromSorted ids id).1,false,?_,?_,hfit⟩
      · have hreport := removeFromSorted_report ho id
        exact congrArg (fun report => some (_,[report])) hreport
      · exact ⟨_,(removeFromSorted_spec ho id).1,removeFromSorted_toFinset ho id,rfl⟩
    | encode => exact ⟨_,true,rfl,⟨ids,ho,rfl,rfl⟩,hfit⟩
    | decode => exact nomatch hfit
  | true =>
    cases call with
    | decode =>
      refine ⟨.ids ids,false,?_,⟨ids,ho,rfl,rfl⟩,hfit⟩
      exact congrArg (fun read => some (Neighbours.ids read,[])) (decodeIdList_encodeIdList ids)
    | insert id | remove id | encode => exact nomatch hfit

theorem runCalls_represents (h : Represents stored list s) (hfit : callsFit stored calls=true) :
    ∃ last form,runCalls calls list=some (last,(setCalls calls s).2) ∧ Represents form last (setCalls calls s).1 := by
  induction calls generalizing stored list s with
  | nil => exact ⟨list,stored,rfl,h⟩
  | cons call calls ih =>
    have ⟨next,form,hcall,hnext,hrest⟩ := runCall_represents h hfit
    have ⟨last,final,hcalls,hlast⟩ := ih hnext hrest
    refine ⟨last,final,?_,hlast⟩
    rw [runCalls,hcall]
    simp only [Option.bind_eq_bind,Option.bind_some,hcalls]
    rfl

/-- The encoding round trip and the sorted updates on strictly increasing lists:
decoding an encoded list meets no fault and returns it, an update adds or drops
one member, and calls in any order act on a finite set and report its members. -/
theorem adjacency_encoding_exact (ids : List UInt64) (ho : ids.Pairwise (·<·)) :
    (decodeIdList (encodeIdList ids)=ids ∧ decodeIdListChecked (encodeIdList ids)=.ok ids) ∧
    (∀ x,(insertIntoSorted ids x).Pairwise (·<·) ∧
      (insertIntoSorted ids x).toFinset=insert x ids.toFinset) ∧
    (∀ x,(removeFromSorted ids x).1.Pairwise (·<·) ∧
      (removeFromSorted ids x).1.toFinset=ids.toFinset.erase x) ∧
    (∀ calls,callsFit false calls=true →
      ∃ last stored,runCalls calls (.ids ids)=some (last,(setCalls calls ids.toFinset).2) ∧
        Represents stored last (setCalls calls ids.toFinset).1) := by
  refine ⟨⟨decodeIdList_encodeIdList ids,decodeIdListChecked_encodeIdList ho⟩,?_,?_,?_⟩
  · exact fun x => ⟨(insertIntoSorted_spec ho x).1,insertIntoSorted_toFinset ho x⟩
  · exact fun x => ⟨(removeFromSorted_spec ho x).1,removeFromSorted_toFinset ho x⟩
  · exact fun calls hfit => runCalls_represents ⟨ids,ho,rfl,rfl⟩ hfit

/-- The least and the greatest word, with the greatest removed after a round trip. -/
theorem adjacency_encoding_exact_ends :
    ([0,0xFFFFFFFFFFFFFFFF] : List UInt64).Pairwise (·<·) ∧
    ∃ last stored,runCalls [.encode,.decode,.remove 0xFFFFFFFFFFFFFFFF] (.ids [0,0xFFFFFFFFFFFFFFFF])=
        some (last,[true]) ∧ Represents stored last {0} := by
  have ho : ([0,0xFFFFFFFFFFFFFFFF] : List UInt64).Pairwise (·<·) := by decide
  have hset : setCalls [.encode,.decode,.remove 0xFFFFFFFFFFFFFFFF]
      ([0,0xFFFFFFFFFFFFFFFF] : List UInt64).toFinset=({0},[true]) := by decide
  have hrun := (adjacency_encoding_exact [0,0xFFFFFFFFFFFFFFFF] ho).2.2.2
    [.encode,.decode,.remove 0xFFFFFFFFFFFFFFFF] rfl
  rw [hset] at hrun
  exact ⟨ho,hrun⟩

end GraphDbLite.AdjacencyDecoding
