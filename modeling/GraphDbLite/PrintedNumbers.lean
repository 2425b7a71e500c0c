import Mathlib.Data.List.TakeWhile
import GraphDbLite.DurationText

/-!
# Numbers printed and read

The digits of an integer are read back as that integer by both number parsers.
A fraction of a second is read from its first nine digits, so that it comes back
from its printed text when it has no more.
-/

namespace GraphDbLite.PrintedNumbers

open Binary64 DurationText

/-- All characters are digits. -/
def AllDigits (chars : List Char) : Prop := ∀ c∈chars,c.isDigit=true

theorem allDigits_toDigits (n : ℕ) : AllDigits (Nat.toDigits 10 n) :=
  fun _ hc => Nat.isDigit_of_mem_toDigits (by decide) (by decide) hc

theorem toNat_of_isDigit {c : Char} (h : c.isDigit=true) : 48≤c.toNat ∧ c.toNat≤57 := by
  simp only [Char.isDigit,Bool.and_eq_true,decide_eq_true_eq,UInt32.le_iff_toNat_le] at h
  have h0 : '0'.val.toNat=48 := rfl
  have h9 : '9'.val.toNat=57 := rfl
  have hc : c.toNat=c.val.toNat := rfl
  omega

theorem digit_ne {c d : Char} (h : c.isDigit=true) (hd : d.isDigit=false) : c≠d := by
  intro heq
  rw [heq,hd] at h
  cases h

theorem le_ofDigitChars (chars : List Char) (n : ℕ) : n≤Nat.ofDigitChars 10 chars n := by
  induction chars generalizing n with
  | nil => rw [Nat.ofDigitChars_nil]
  | cons c chars ih =>
    rw [Nat.ofDigitChars_cons]
    have hnext := ih (10*n+(c.toNat- '0'.toNat))
    omega

variable {chars : List Char}

/-- Digits behind a number are read to the number they make, with the sign in front. -/
theorem parseDigits_ok {low high : Int} {negative : Bool} {sign : Int} {n : ℕ}
    (hsign : sign=if negative=true then -1 else 1) (hdigits : AllDigits chars) (hlow : low≤0) (hhigh : 0≤high)
    (hrange : low≤ sign*(Nat.ofDigitChars 10 chars n : Int) ∧ sign*(Nat.ofDigitChars 10 chars n : Int)≤high) :
    parseDigits low high negative (sign*n) chars=.ok (sign*Nat.ofDigitChars 10 chars n) := by
  induction chars generalizing n with
  | nil => rw [parseDigits,Nat.ofDigitChars_nil]
  | cons c chars ih =>
    have hc := toNat_of_isDigit (hdigits c List.mem_cons_self)
    have h0 : '0'.toNat=48 := rfl
    rw [Nat.ofDigitChars_cons] at hrange ⊢
    have hle := le_ofDigitChars chars (10*n+(c.toNat- '0'.toNat))
    have hih := ih (fun x hx => hdigits x (List.mem_cons_of_mem c hx)) hrange
    have hnext : (if negative=true then sign*n*10-((c.toNat : Int)-48) else sign*n*10+((c.toNat : Int)-48))=
        sign*((10*n+(c.toNat- '0'.toNat) : ℕ) : Int) := by
      split_ifs at hsign ⊢ <;> rw [hsign,h0] <;> omega
    have hnotlow : ¬sign*((10*n+(c.toNat- '0'.toNat) : ℕ) : Int)<low := by
      split_ifs at hsign <;> rw [hsign] at hrange ⊢ <;> omega
    have hnothigh : ¬high< sign*((10*n+(c.toNat- '0'.toNat) : ℕ) : Int) := by
      split_ifs at hsign <;> rw [hsign] at hrange ⊢ <;> omega
    rw [parseDigits,if_pos (hdigits c List.mem_cons_self)]
    dsimp only
    rw [hnext,if_neg hnotlow,if_neg hnothigh]
    exact hih

theorem parseInt_digits {low high : Int} {chars : List Char} (hne : chars≠[]) (hlow : low≤0)
    (hdigits : AllDigits chars) (hhigh : (Nat.ofDigitChars 10 chars 0 : Int)≤high) :
    parseInt low high chars=.ok (Nat.ofDigitChars 10 chars 0) := by
  cases chars with
  | nil => exact absurd rfl hne
  | cons c rest =>
    have hc := hdigits c List.mem_cons_self
    have hminus : c≠ '-' := digit_ne hc (by decide)
    have hplus : c≠ '+' := digit_ne hc (by decide)
    have hparse : parseInt low high (c::rest)=parseDigits low high false 0 (c::rest) := by
      unfold parseInt
      split
      · next heq => cases heq
      · next heq => exact absurd (List.cons.inj heq).1 hminus
      · next heq => exact absurd (List.cons.inj heq).1 hplus
      · next heq => exact absurd (List.cons.inj heq).1 hminus
      · next heq => exact absurd (List.cons.inj heq).1 hplus
      · rfl
    rw [hparse]
    simpa using @parseDigits_ok _ low high false 1 0 rfl hdigits hlow (by omega) ⟨by omega,by omega⟩

theorem parseInt_minus {low high : Int} {chars : List Char} (hne : chars≠[]) (hneg : low<0) (hhigh : 0≤high)
    (hdigits : AllDigits chars) (hlow : low≤ -(Nat.ofDigitChars 10 chars 0 : Int)) :
    parseInt low high ('-'::chars)=.ok (-(Nat.ofDigitChars 10 chars 0 : Int)) := by
  have hparse : parseInt low high ('-'::chars)=parseDigits low high true 0 chars := by
    cases chars with
    | nil => exact absurd rfl hne
    | cons c rest =>
      unfold parseInt
      split
      · next heq => cases heq
      · next heq => cases heq
      · next heq => cases heq
      · next heq => rw [if_pos hneg,(List.cons.inj heq).2]
      · next heq => cases heq
      · next hfalse _ => exact absurd rfl (hfalse (c::rest))
  rw [hparse]
  simpa using @parseDigits_ok _ low high true (-1) 0 rfl hdigits (by omega) hhigh ⟨by omega,by omega⟩

theorem parseI64_intText {n : Int} (h : -9223372036854775808≤n ∧ n≤9223372036854775807) :
    parseI64 (intText n)=.ok n := by
  have hvalue : Nat.ofDigitChars 10 (Nat.toDigits 10 n.natAbs) 0=n.natAbs := Nat.ofDigitChars_ten_toDigits
  have hdigits := allDigits_toDigits n.natAbs
  unfold parseI64 intText
  split_ifs with hneg
  · have hparse := @parseInt_minus (-9223372036854775808) 9223372036854775807 _
      Nat.toDigits_ne_nil (by decide) (by decide) hdigits (by rw [hvalue]; omega)
    rw [hparse,hvalue]
    congr 1
    omega
  · have hparse := @parseInt_digits (-9223372036854775808) 9223372036854775807 _
      Nat.toDigits_ne_nil (by decide) hdigits (by rw [hvalue]; omega)
    rw [hparse,hvalue]
    congr 1
    omega

theorem cut_digits (hdigits : AllDigits chars) :
    chars.takeWhile (fun c => decide (c≠ '.'))=chars ∧ chars.dropWhile (fun c => decide (c≠ '.'))=[] := by
  have hpoint : ∀ c∈chars,decide (c≠ '.')=true :=
    fun c hc => decide_eq_true (digit_ne (hdigits c hc) (by decide))
  exact ⟨List.takeWhile_eq_self_iff.mpr hpoint,List.dropWhile_eq_nil_iff.mpr hpoint⟩

theorem digits_accepted (hne : chars≠[]) (hdigits : AllDigits chars) : ¬(chars=[] ∨ chars.all Char.isDigit=false) := by
  have hall : chars.all Char.isDigit=true := List.all_eq_true.mpr hdigits
  intro hor
  cases hor with
  | inl hnil => exact hne hnil
  | inr hfalse =>
    rw [hall] at hfalse
    cases hfalse

theorem parseF64_digits (hne : chars≠[]) (hdigits : AllDigits chars) :
    parseF64 chars=.ok (round (Nat.ofDigitChars 10 chars 0)) := by
  have hcut := cut_digits hdigits
  have haccepted := digits_accepted hne hdigits
  cases chars with
  | nil => exact absurd rfl hne
  | cons c rest =>
    have hc := hdigits c List.mem_cons_self
    have hminus : c≠ '-' := digit_ne hc (by decide)
    have hplus : c≠ '+' := digit_ne hc (by decide)
    have hsign : ¬(some c=some '-') := fun heq => hminus (Option.some.inj heq)
    simp only [parseF64,if_neg hne]
    split
    · next heq => exact absurd (List.cons.inj heq).1 hminus
    · next heq => exact absurd (List.cons.inj heq).1 hplus
    · simp only [hcut.1,hcut.2,List.drop_nil,List.append_nil,List.length_nil,if_neg haccepted,
        List.head?_cons,if_neg hsign,pow_zero,div_one]

theorem parseF64_minus (hne : chars≠[]) (hdigits : AllDigits chars) :
    parseF64 ('-'::chars)=.ok (round (-Nat.ofDigitChars 10 chars 0)) := by
  have hcut := cut_digits hdigits
  have haccepted := digits_accepted hne hdigits
  have hcons : ¬ '-'::chars=[] := List.cons_ne_nil _ _
  simp only [parseF64,hcut.1,hcut.2,List.drop_nil,List.append_nil,List.length_nil,if_neg hcons,
    if_neg haccepted,List.head?_cons,if_true,pow_zero,div_one]

theorem parseF64_intText {n : Int} (h : |n|<2^53) : parseF64 (intText n)=.ok (.finite n) := by
  have hdigits := allDigits_toDigits n.natAbs
  have hvalue : Nat.ofDigitChars 10 (Nat.toDigits 10 n.natAbs) 0=n.natAbs := Nat.ofDigitChars_ten_toDigits
  have hround := ofInt_eq h
  unfold ofInt at hround
  by_cases hneg : n<0
  · have hcast : -(n.natAbs : ℚ)=(n : ℚ) := by
      rw [←Int.cast_natCast,Int.ofNat_natAbs_of_nonpos hneg.le,Int.cast_neg,neg_neg]
    rw [intText,if_pos hneg,parseF64_minus Nat.toDigits_ne_nil hdigits,hvalue,hcast,hround]
  · have hcast : (n.natAbs : ℚ)=(n : ℚ) := by
      rw [←Int.cast_natCast,Int.natAbs_of_nonneg (not_lt.mp hneg)]
    rw [intText,if_neg hneg,parseF64_digits Nat.toDigits_ne_nil hdigits,hvalue,hcast,hround]

theorem utf8Size_digit {c : Char} (h : c.isDigit=true) : c.utf8Size=1 := by
  have hc := toNat_of_isDigit h
  have hval : c.val≤0x7F := by
    rw [UInt32.le_iff_toNat_le]
    have h7 : (0x7F : UInt32).toNat=127 := rfl
    have hnat : c.toNat=c.val.toNat := rfl
    omega
  exact if_pos hval

theorem byteLength_digits (hdigits : AllDigits chars) : byteLength chars=chars.length := by
  induction chars with
  | nil => rfl
  | cons c chars ih =>
    have hc := utf8Size_digit (hdigits c List.mem_cons_self)
    have hrest := ih (fun x hx => hdigits x (List.mem_cons_of_mem c hx))
    unfold byteLength at hrest ⊢
    rw [List.map_cons,List.sum_cons,hc,hrest,List.length_cons]
    omega

theorem truncateBytes_digits (n : ℕ) (hdigits : AllDigits chars) : truncateBytes n chars=.ok (chars.take n) := by
  induction chars generalizing n with
  | nil => rw [truncateBytes,List.take_nil]
  | cons c chars ih =>
    cases n with
    | zero => rw [truncateBytes,List.take_zero]
    | succ n =>
      have hc := utf8Size_digit (hdigits c List.mem_cons_self)
      have hrest := ih n (fun x hx => hdigits x (List.mem_cons_of_mem c hx))
      have hfits : c.utf8Size≤n+1 := by omega
      have hleft : n+1-c.utf8Size=n := by omega
      rw [truncateBytes,if_pos hfits,hleft,hrest]
      rfl

theorem ofDigitChars_lt (hdigits : AllDigits chars) : Nat.ofDigitChars 10 chars 0<10^chars.length := by
  induction chars with
  | nil => decide
  | cons c chars ih =>
    have hc := toNat_of_isDigit (hdigits c List.mem_cons_self)
    have hrest := ih (fun x hx => hdigits x (List.mem_cons_of_mem c hx))
    have h0 : '0'.toNat=48 := rfl
    rw [Nat.ofDigitChars_cons,Nat.ofDigitChars_eq_ofDigitChars_zero,List.length_cons,pow_succ]
    have hdigit : 10*0+(c.toNat- '0'.toNat)≤9 := by omega
    have hscaled := Nat.mul_le_mul_left (10^chars.length) hdigit
    omega

/-- The first nine digits of a fraction, filled up with zeros. -/
def nineDigits (frac : List Char) : List Char := (frac++List.replicate (9-frac.length) '0').take 9

theorem parseFracNanos_digits {frac : List Char} (hdigits : AllDigits frac) :
    parseFracNanos frac=.ok (Nat.ofDigitChars 10 (nineDigits frac) 0) ∧
      Nat.ofDigitChars 10 (nineDigits frac) 0<1000000000 := by
  have hpadded : AllDigits (frac++List.replicate (9-frac.length) '0') := by
    intro c hc
    cases List.mem_append.mp hc with
    | inl hfrac => exact hdigits c hfrac
    | inr hzero => rw [(List.mem_replicate.mp hzero).2]; rfl
  have hnine : AllDigits (nineDigits frac) := fun c hc => hpadded c (List.mem_of_mem_take hc)
  have hlength : (nineDigits frac).length=9 := by
    unfold nineDigits
    rw [List.length_take,List.length_append,List.length_replicate]
    omega
  have hne : nineDigits frac≠[] := by
    intro hnil
    rw [hnil] at hlength
    cases hlength
  have hlt := ofDigitChars_lt hnine
  rw [hlength] at hlt
  have hparse : parseU32 (nineDigits frac)=.ok (Nat.ofDigitChars 10 (nineDigits frac) 0) :=
    parseInt_digits hne (by decide) hnine (by omega)
  refine ⟨?_,hlt⟩
  rw [parseFracNanos,byteLength_digits hdigits,truncateBytes_digits 9 hpadded]
  exact hparse

theorem trimEndZeros_append (chars : List Char) :
    ∃ k,chars=trimEndZeros chars++List.replicate k '0' := by
  unfold trimEndZeros
  have hsplit : chars.reverse=chars.reverse.takeWhile (fun c => c = '0')++chars.reverse.dropWhile (fun c => c = '0') :=
    List.takeWhile_append_dropWhile.symm
  have hzeros : ∀ c∈chars.reverse.takeWhile (fun c => c = '0'),c = '0' := by
    intro c hc
    have hzero := List.mem_takeWhile_imp hc
    exact of_decide_eq_true hzero
  have hall := List.eq_replicate_iff.mpr ⟨rfl,hzeros⟩
  refine ⟨(chars.reverse.takeWhile (fun c => c = '0')).length,?_⟩
  calc
    chars=chars.reverse.reverse := chars.reverse_reverse.symm
    _=(chars.reverse.takeWhile (fun c => c = '0')++chars.reverse.dropWhile (fun c => c = '0')).reverse := by
        rw [←hsplit]
    _=(chars.reverse.dropWhile (fun c => c = '0')).reverse++
        (chars.reverse.takeWhile (fun c => c = '0')).reverse := List.reverse_append
    _=(chars.reverse.dropWhile (fun c => c = '0')).reverse++
        List.replicate (chars.reverse.takeWhile (fun c => c = '0')).length '0' := by
        rw [hall,List.length_replicate,List.reverse_replicate]

theorem allDigits_fracText (nanos : Int) : AllDigits (fracText nanos) := by
  intro c hc
  have ⟨k,hk⟩ := trimEndZeros_append (List.replicate (9-(Nat.toDigits 10 nanos.natAbs).length) '0'++
    Nat.toDigits 10 nanos.natAbs)
  have hmem : c∈List.replicate (9-(Nat.toDigits 10 nanos.natAbs).length) '0'++Nat.toDigits 10 nanos.natAbs := by
    rw [hk]
    exact List.mem_append_left _ hc
  cases List.mem_append.mp hmem with
  | inl hzero => rw [(List.mem_replicate.mp hzero).2]; rfl
  | inr hdigit => exact allDigits_toDigits _ c hdigit

theorem nineDigits_fracText {nanos : Int} (h : nanos.natAbs<1000000000) :
    Nat.ofDigitChars 10 (nineDigits (fracText nanos)) 0=nanos.natAbs := by
  have hshort : (Nat.toDigits 10 nanos.natAbs).length≤9 :=
    (Nat.length_toDigits_le_iff (by decide) (by decide)).mpr h
  have ⟨k,hk⟩ := trimEndZeros_append (List.replicate (9-(Nat.toDigits 10 nanos.natAbs).length) '0'++
    Nat.toDigits 10 nanos.natAbs)
  have hfrac : fracText nanos++List.replicate k '0'=
      List.replicate (9-(Nat.toDigits 10 nanos.natAbs).length) '0'++Nat.toDigits 10 nanos.natAbs := hk.symm
  have hlength := congrArg List.length hfrac
  rw [List.length_append,List.length_append,List.length_replicate,List.length_replicate] at hlength
  have hk9 : 9-(fracText nanos).length=k := by omega
  have hfull : nineDigits (fracText nanos)=
      List.replicate (9-(Nat.toDigits 10 nanos.natAbs).length) '0'++Nat.toDigits 10 nanos.natAbs := by
    rw [nineDigits,hk9,hfrac]
    apply List.take_of_length_le
    rw [List.length_append,List.length_replicate]
    omega
  rw [hfull,Nat.ofDigitChars_append,Nat.ofDigitChars_replicate_zero,Nat.mul_zero]
  exact Nat.ofDigitChars_ten_toDigits

end GraphDbLite.PrintedNumbers
