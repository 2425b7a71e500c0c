import GraphDbLite.PropertyNames
import GraphDbLite.TextCuts

/-!
# String functions

The functions `left`, `right`, `substring` and `reverse` count characters, `size` and
`length` count bytes. The laws between them hold for a text of one-byte characters, and
for other texts only where `left` is asked for nothing or for as much as there are bytes.
-/

namespace GraphDbLite.StringFunctions

open ByteStrings GraphTypes WriteOperators CypherEval PropertyNames
open DurationText TextCuts TemporalRoundTrip

section Functions

/-- An argument of a call, when the call has it. -/
def argAt (cells : List Cell) (i : Nat) (rec : NamedRecord) : Result (Option Value) :=
  match cells[i]? with
  | none => .ok none
  | some cell => (cell rec).map some

/-- A number as a count, at least zero. -/
def atLeastZero (n : Int64) : Nat := n.toInt.toNat

/-- A count as a number. -/
def asI64 (n : Nat) : Int64 := Int64.ofNat n

/-- The function `length`. -/
def evalLength (cells : List Cell) : Cell := fun rec => do
  match ← argAt cells 0 rec with
  | some (.path p) => .ok (.i64 (asI64 p.edges.length))
  | some (.string s) => .ok (.i64 (asI64 s.utf8ByteSize))
  | some (.list items) => .ok (.i64 (asI64 items.length))
  | some .null => .ok .null
  | none => .ok .null
  | some other => .error (invalidArgumentType "length()" other)

/-- The function `size`. -/
def evalSize (cells : List Cell) : Cell := fun rec => do
  match ← evalSingleArg cells rec with
  | .list items => .ok (.i64 (asI64 items.length))
  | .string s => .ok (.i64 (asI64 s.utf8ByteSize))
  | _ => .ok .null

/-- Characters of a text from a position, at most a number of them. -/
def substringOf (s : String) (start : Nat) (len : Option Value) : String :=
  if s.toList.length≤ start then ""
  else
    match len with
    | some (.i64 l) => String.ofList ((s.toList.drop start).take (atLeastZero l))
    | _ => String.ofList (s.toList.drop start)

/-- The function `substring`. -/
def evalSubstring (cells : List Cell) : Cell := fun rec => do
  let s ← evalSingleArg cells rec
  let start ← argAt cells 1 rec
  let len ← argAt cells 2 rec
  match s,start with
  | .string s,some (.i64 start) => .ok (.string (substringOf s (atLeastZero start) len))
  | _,_ => .ok .null

/-- The function `left`. -/
def evalLeft (cells : List Cell) : Cell := fun rec => do
  let s ← evalSingleArg cells rec
  let len ← argAt cells 1 rec
  match s,len with
  | .string s,some (.i64 n) => .ok (.string (String.ofList (s.toList.take (atLeastZero n))))
  | _,_ => .ok .null

/-- The function `right`. -/
def evalRight (cells : List Cell) : Cell := fun rec => do
  let s ← evalSingleArg cells rec
  let len ← argAt cells 1 rec
  match s,len with
  | .string s,some (.i64 n) =>
    .ok (.string (String.ofList (s.toList.drop (s.toList.length-atLeastZero n))))
  | _,_ => .ok .null

/-- The function `reverse`. -/
def evalReverse (cells : List Cell) : Cell := fun rec => do
  match ← evalSingleArg cells rec with
  | .string s => .ok (.string (String.ofList s.toList.reverse))
  | .list items => .ok (.list items.reverse)
  | _ => .ok .null

end Functions

section Texts

theorem utf8ByteSize_eq (s : String) : s.utf8ByteSize=byteLength s.toList := by
  have hbytes : s.utf8ByteSize=(asBytes s).length := by
    rw [asBytes,Array.length_toList]
    rfl
  rw [hbytes,asBytes_eq_flatMap,List.length_flatMap]
  unfold byteLength
  congr 1
  apply List.map_congr_left
  intro c _
  exact String.length_utf8EncodeChar c

/-- Every character is one byte. -/
def OneByte (s : String) : Prop := ∀ c∈s.toList,c.val≤127

/-- A text has as many bytes as characters exactly when every character is one byte. -/
theorem byteLength_eq_iff (chars : List Char) :
    byteLength chars=chars.length ↔ ∀ c∈chars,c.val≤127 := by
  induction chars with
  | nil => exact ⟨fun _ c hc => absurd hc List.not_mem_nil,fun _ => rfl⟩
  | cons c chars ih =>
    have hpos := c.utf8Size_pos
    have hrest := length_le_byteLength chars
    rw [byteLength_cons,List.length_cons,List.forall_mem_cons,←ih,←Char.utf8Size_eq_one_iff]
    omega

theorem byteLength_take_le (chars : List Char) (n : Nat) : byteLength (chars.take n)≤byteLength chars := by
  have hsplit := byteLength_append (chars.take n) (chars.drop n)
  rw [List.take_append_drop] at hsplit
  omega

theorem byteLength_reverse (chars : List Char) : byteLength chars.reverse=byteLength chars := by
  unfold byteLength
  rw [List.map_reverse,List.sum_reverse]

end Texts

section Numbers

theorem asI64_toInt {n : Nat} (h : n<2^63) : (asI64 n).toInt=n := by
  exact Int64.toInt_ofNat_of_lt h

theorem eq_of_toInt {a b : Int64} (h : a.toInt=b.toInt) : a=b := Int64.toInt_inj.mp h

theorem min_toInt (a b : Int64) : (min a b).toInt=min a.toInt b.toInt := by
  have hmin : min a b=if a≤b then a else b := rfl
  rw [hmin]
  split_ifs with h
  · rw [Int.min_eq_left (Int64.le_iff_toInt_le.mp h)]
  · rw [Int64.le_iff_toInt_le] at h
    omega

end Numbers

section Laws

/-- An expression with a text as its value. -/
def text (s : String) : Cell := fun _ => .ok (.string s)

/-- An expression with a number as its value. -/
def number (n : Int64) : Cell := fun _ => .ok (.i64 n)

/-- The laws between the string functions for a text, a length and the bounds of a part. -/
structure Laws (rec : NamedRecord) (s : String) (n i k : Int64) : Prop where
  /-- The size of a left part. -/
  sizeLeft : ∃ size,evalSize [text s] rec=.ok (.i64 size) ∧
    evalSize [evalLeft [text s,number n]] rec=.ok (.i64 (min n size))
  /-- A left part and the right part of the rest of the size make up the text. -/
  leftRight : ∃ size,evalSize [text s] rec=.ok (.i64 size) ∧ (n≤ size →
    ∃ front back,evalLeft [text s,number n] rec=.ok (.string front) ∧
      evalRight [text s,number (size-n)] rec=.ok (.string back) ∧ front++back=s)
  /-- A left part and the part from there on make up the text. -/
  leftSubstring : ∃ front back,evalLeft [text s,number n] rec=.ok (.string front) ∧
    evalSubstring [text s,number n] rec=.ok (.string back) ∧ front++back=s
  /-- A bounded part is a left part of the part without a bound. -/
  substringLeft : evalSubstring [text s,number i,number k] rec=
    evalLeft [evalSubstring [text s,number i],number k] rec
  /-- Both names of the size agree. -/
  sizeLength : evalLength [text s] rec=evalSize [text s] rec
  /-- Reversing keeps the size. -/
  sizeReverse : evalSize [evalReverse [text s]] rec=evalSize [text s] rec
  /-- Reversing twice gives the text back. -/
  reverseReverse : evalReverse [evalReverse [text s]] rec=.ok (.string s)

variable {rec : NamedRecord} {s : String} {n i k : Int64}

theorem evalLeft_text : evalLeft [text s,number n] rec=
    .ok (.string (String.ofList (s.toList.take (atLeastZero n)))) := rfl

theorem evalRight_text : evalRight [text s,number n] rec=
    .ok (.string (String.ofList (s.toList.drop (s.toList.length-atLeastZero n)))) := rfl

theorem substringOf_none (start : Nat) : substringOf s start none=String.ofList (s.toList.drop start) := by
  unfold substringOf
  split_ifs with h
  · rw [List.drop_eq_nil_of_le h]
  · rfl

theorem substringOf_some (start : Nat) : substringOf s start (some (.i64 k))=
    String.ofList ((s.toList.drop start).take (atLeastZero k)) := by
  unfold substringOf
  split_ifs with h
  · rw [List.drop_eq_nil_of_le h,List.take_nil]
  · rfl

theorem left_substring : ∃ front back,evalLeft [text s,number n] rec=.ok (.string front) ∧
    evalSubstring [text s,number n] rec=.ok (.string back) ∧ front++back=s := by
  refine ⟨_,substringOf s (atLeastZero n) none,rfl,rfl,?_⟩
  rw [substringOf_none,←String.ofList_append,List.take_append_drop,String.ofList_toList]

theorem substring_left : evalSubstring [text s,number i,number k] rec=
    evalLeft [evalSubstring [text s,number i],number k] rec := by
  have hbounded : evalSubstring [text s,number i,number k] rec=
      .ok (.string (substringOf s (atLeastZero i) (some (.i64 k)))) := rfl
  have hleft : evalLeft [evalSubstring [text s,number i],number k] rec=.ok (.string
      (String.ofList ((substringOf s (atLeastZero i) none).toList.take (atLeastZero k)))) := rfl
  rw [hbounded,hleft,substringOf_none,substringOf_some,String.toList_ofList]

theorem size_reverse : evalSize [evalReverse [text s]] rec=evalSize [text s] rec := by
  have hreversed : evalSize [evalReverse [text s]] rec=
      .ok (.i64 (asI64 (String.ofList s.toList.reverse).utf8ByteSize)) := rfl
  have hplain : evalSize [text s] rec=.ok (.i64 (asI64 s.utf8ByteSize)) := rfl
  rw [hreversed,hplain,utf8ByteSize_eq,utf8ByteSize_eq,String.toList_ofList,byteLength_reverse]

theorem reverse_reverse : evalReverse [evalReverse [text s]] rec=.ok (.string s) := by
  have htwice : evalReverse [evalReverse [text s]] rec=
      .ok (.string (String.ofList (String.ofList s.toList.reverse).toList.reverse)) := rfl
  rw [htwice,String.toList_ofList,List.reverse_reverse,String.ofList_toList]

/-- The size of a left part is the smaller of both exactly when the part has one byte for each
character, or the length is at least the number of bytes. -/
theorem size_left_iff (hs : s.utf8ByteSize<2^63) (hn : 0≤n.toInt) :
    evalSize [evalLeft [text s,number n]] rec=.ok (.i64 (min n (asI64 s.utf8ByteSize))) ↔
      byteLength (s.toList.take (atLeastZero n))=min (atLeastZero n) s.utf8ByteSize := by
  have hvalue : evalSize [evalLeft [text s,number n]] rec=
      .ok (.i64 (asI64 (String.ofList (s.toList.take (atLeastZero n))).utf8ByteSize)) := rfl
  have hpart : (String.ofList (s.toList.take (atLeastZero n))).utf8ByteSize=
      byteLength (s.toList.take (atLeastZero n)) := by rw [utf8ByteSize_eq,String.toList_ofList]
  have hsmall := byteLength_take_le s.toList (atLeastZero n)
  rw [←utf8ByteSize_eq] at hsmall
  have hleft := asI64_toInt (Nat.lt_of_le_of_lt hsmall hs)
  have hright := min_toInt n (asI64 s.utf8ByteSize)
  rw [asI64_toInt hs] at hright
  have hzero : (atLeastZero n : Int)=n.toInt := Int.toNat_of_nonneg hn
  rw [hvalue,hpart]
  constructor
  · intro h
    have heq := congrArg Int64.toInt (Value.i64.inj (Except.ok.inj h))
    rw [hleft,hright] at heq
    omega
  · intro h
    refine congrArg (fun m => Except.ok (Value.i64 m)) (eq_of_toInt ?_)
    rw [hleft,hright]
    omega

/-- A left and a right part make up the text exactly when they have its characters in number. -/
theorem left_right_iff {chars : List Char} {a b : Nat} :
    String.ofList (chars.take a)++String.ofList (chars.drop (chars.length-b))=String.ofList chars ↔
      min a chars.length+min b chars.length=chars.length := by
  rw [←String.ofList_append,String.ofList_inj]
  constructor
  · intro h
    have hlength := congrArg List.length h
    rw [List.length_append,List.length_take,List.length_drop] at hlength
    omega
  · intro h
    by_cases ha : a≤chars.length
    · have heq : chars.length-b=a := by omega
      rw [heq,List.take_append_drop]
    · have heq : chars.length≤ chars.length-b := by omega
      rw [List.drop_eq_nil_of_le heq,List.append_nil,List.take_of_length_le (by omega)]

theorem atLeastZero_rest (hs : s.utf8ByteSize<2^63) (hn : 0≤n.toInt) (hle : atLeastZero n≤ s.utf8ByteSize) :
    atLeastZero (asI64 s.utf8ByteSize-n)=s.utf8ByteSize-atLeastZero n := by
  have hsize := asI64_toInt hs
  have hsub := Int64.toInt_sub (asI64 s.utf8ByteSize) n
  unfold atLeastZero at hle ⊢
  rw [hsize,Int.bmod_eq_of_le (by omega) (by omega)] at hsub
  rw [hsub]
  omega

/-- The laws hold exactly when every character is one byte, or the length is zero or at least
the number of bytes. -/
theorem laws_iff (rec : NamedRecord) (s : String) (n i k : Int64) (hs : s.utf8ByteSize<2^63) (hn : 0≤n) :
    Laws rec s n i k ↔ OneByte s ∨ n=0 ∨ (s.utf8ByteSize : Int)≤n.toInt := by
  have hn : 0≤n.toInt := Int64.le_iff_toInt_le.mp hn
  have hcount : (atLeastZero n : Int)=n.toInt := Int.toNat_of_nonneg hn
  have hsize : evalSize [text s] rec=.ok (.i64 (asI64 s.utf8ByteSize)) := rfl
  have hbytes := utf8ByteSize_eq s
  have hchars := length_le_byteLength s.toList
  have hone := byteLength_eq_iff s.toList
  have hle : n≤asI64 s.utf8ByteSize ↔ atLeastZero n≤ s.utf8ByteSize := by
    rw [Int64.le_iff_toInt_le,asI64_toInt hs]
    omega
  have hzero : n=0 ↔ atLeastZero n=0 := by
    constructor
    · intro h
      rw [h]
      rfl
    · intro h
      exact eq_of_toInt (by rw [←hcount,h]; rfl)
  have hright : ∀ front back,evalLeft [text s,number n] rec=.ok (.string front) →
      evalRight [text s,number (asI64 s.utf8ByteSize-n)] rec=.ok (.string back) →
      atLeastZero n≤ s.utf8ByteSize →
      (front++back=s ↔ min (atLeastZero n) s.toList.length+
        min (s.utf8ByteSize-atLeastZero n) s.toList.length=s.toList.length) := by
    intro front back hfront hback hfits
    rw [evalLeft_text] at hfront
    rw [evalRight_text,atLeastZero_rest hs hn hfits] at hback
    rw [←Value.string.inj (Except.ok.inj hfront),←Value.string.inj (Except.ok.inj hback)]
    have hiff := @left_right_iff s.toList (atLeastZero n) (s.utf8ByteSize-atLeastZero n)
    rw [String.ofList_toList] at hiff
    exact hiff
  constructor
  · intro h
    have ⟨size,hvalue,hparts⟩ := h.leftRight
    rw [hsize] at hvalue
    have hsame := Value.i64.inj (Except.ok.inj hvalue)
    rw [←hsame,hle] at hparts
    by_cases hb : byteLength s.toList=s.toList.length
    · exact .inl (hone.mp hb)
    · right
      rw [hzero]
      by_contra hmid
      have ⟨front,back,hfront,hback,heq⟩ := hparts (by omega)
      have hsum := (hright front back hfront hback (by omega)).mp heq
      have hempty : s.toList.length=0 → byteLength s.toList=0 :=
        fun hnil => byteLength_zero.mpr (List.eq_nil_of_length_eq_zero hnil)
      omega
  · intro h
    rw [hzero] at h
    refine ⟨⟨_,hsize,?_⟩,⟨_,hsize,?_⟩,left_substring,substring_left,rfl,size_reverse,reverse_reverse⟩
    · rw [size_left_iff hs hn]
      have htake := List.length_take (l:=s.toList) (i:=atLeastZero n)
      cases h with
      | inl h =>
        have hpart := (byteLength_eq_iff (s.toList.take (atLeastZero n))).mpr
          fun c hc => h c (List.mem_of_mem_take hc)
        have hall := hone.mpr h
        omega
      | inr h =>
        cases h with
        | inl h =>
          rw [h]
          exact (Nat.zero_min _).symm
        | inr h =>
          rw [List.take_of_length_le (by omega)]
          omega
    · intro hfits
      refine ⟨_,_,evalLeft_text,evalRight_text,?_⟩
      rw [hright _ _ evalLeft_text evalRight_text (hle.mp hfits)]
      have hfits := hle.mp hfits
      cases h with
      | inl h =>
        have hall := hone.mpr h
        omega
      | inr h => omega

/-- The laws hold for all of `Grüße`, which has seven bytes. -/
theorem laws_iff_greeting : (0 : Int64)≤8 ∧ (Laws ⟨[]⟩ "Grüße" 8 1 2 ↔
    OneByte "Grüße" ∨ (8 : Int64)=0 ∨ (("Grüße".utf8ByteSize : Nat) : Int)≤(8 : Int64).toInt) :=
  ⟨by decide,laws_iff ⟨[]⟩ "Grüße" 8 1 2 (by decide) (by decide)⟩

/-- The left part `é` of one character has two bytes. -/
theorem laws_fail : ¬∀ (rec : NamedRecord) (s : String) (n i k : Int64),s.utf8ByteSize<2^63 → 0≤n →
    0≤ i → 0≤k → Laws rec s n i k := by
  intro h
  have hlaws := h ⟨[]⟩ "é" 1 0 0 (by decide) (by decide) (by decide) (by decide)
  have ⟨size,hsize,hleft⟩ := hlaws.sizeLeft
  have hvalue : size=2 := (Value.i64.inj (Except.ok.inj hsize)).symm
  have hpart : evalSize [evalLeft [text "é",number 1]] ⟨[]⟩=.ok (.i64 2) := rfl
  rw [hpart,hvalue] at hleft
  exact absurd (Value.i64.inj (Except.ok.inj hleft)) (by decide)

end Laws

end GraphDbLite.StringFunctions
