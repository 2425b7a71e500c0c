import Mathlib.Data.Int.Log
import Mathlib.Data.Rat.Floor
import Mathlib.Algebra.Order.Floor.Ring
import Mathlib.Tactic.NormNum
import Mathlib.Tactic.Ring
import Mathlib.Tactic.Linarith
import Mathlib.Tactic.FieldSimp

/-!
# Floating-point numbers of 64 bits

Finite floats are the rational numbers that they stand for, both zeros being
one. Arithmetic is that of rational numbers, rounded to the nearest mantissa of
53 bits, ties to even. Conversions to integers cut off and saturate. Integers
below two to the fifty-third are floats themselves.
-/

namespace GraphDbLite.Binary64

/-- A float of 64 bits. -/
inductive F64 where
  | nan
  | inf (negative : Bool)
  | finite (value : ℚ)
  deriving DecidableEq

/-- The nearest integer, the even one of two. -/
@[grind] def nearestEven (q : ℚ) : ℤ :=
  if q-⌊q⌋<1/2 then ⌊q⌋
  else if 1/2<q-⌊q⌋ then ⌊q⌋+1
  else if ⌊q⌋%2=0 then ⌊q⌋ else ⌊q⌋+1

/-- Exponent of the last place of the mantissa of a number. -/
@[grind] def lastPlace (q : ℚ) : ℤ := max (Int.log 2 |q|-52) (-1074)

/-- A number rounded to its mantissa. -/
@[grind] def toMantissa (q : ℚ) : ℚ := nearestEven (q/(2 : ℚ)^lastPlace q)*(2 : ℚ)^lastPlace q

/-- The float nearest to a number. -/
@[grind] def round (q : ℚ) : F64 :=
  if q=0 then .finite 0
  else if (2 : ℚ)^1024≤|toMantissa q| then .inf (decide (q<0))
  else .finite (toMantissa q)

/-- The float nearest to an integer. -/
@[grind] def ofInt (n : ℤ) : F64 := round n

/-- The float with a given pattern of 64 bits. -/
@[grind] def ofBits (bits : UInt64) : F64 :=
  let negative := 2^63≤bits.toNat
  let exponent : Nat := bits.toNat/2^52%2^11
  let fraction : Nat := bits.toNat%2^52
  if exponent=2047 then if fraction=0 then .inf (decide negative) else .nan
  else
    let magnitude : ℚ :=
      if exponent=0 then (fraction : ℚ)*(2 : ℚ)^(-1074 : ℤ)
      else ((2^52+fraction : Nat) : ℚ)*(2 : ℚ)^((exponent : ℤ)-1075)
    .finite (if negative then -magnitude else magnitude)

/-- The opposite float. -/
@[grind] def neg : F64 → F64
  | .nan => .nan
  | .inf negative => .inf (!negative)
  | .finite q => .finite (-q)

/-- The sum of two floats. -/
@[grind] def add : F64 → F64 → F64
  | .nan,_ => .nan
  | _,.nan => .nan
  | .inf s,.inf t => if s=t then .inf s else .nan
  | .inf s,.finite _ => .inf s
  | .finite _,.inf t => .inf t
  | .finite p,.finite q => round (p+q)

/-- The difference of two floats. -/
@[grind] def sub (x y : F64) : F64 := add x (neg y)

/-- The product of two floats. -/
@[grind] def mul : F64 → F64 → F64
  | .nan,_ => .nan
  | _,.nan => .nan
  | .inf s,.inf t => .inf (xor s t)
  | .inf s,.finite q => if q=0 then .nan else .inf (xor s (decide (q<0)))
  | .finite p,.inf t => if p=0 then .nan else .inf (xor (decide (p<0)) t)
  | .finite p,.finite q => round (p*q)

/-- The quotient of two floats; a zero divisor counts as positive. -/
@[grind] def div : F64 → F64 → F64
  | .nan,_ => .nan
  | _,.nan => .nan
  | .inf _,.inf _ => .nan
  | .inf s,.finite q => .inf (xor s (decide (q<0)))
  | .finite _,.inf _ => .finite 0
  | .finite p,.finite q =>
    if q=0 then if p=0 then .nan else .inf (decide (p<0)) else round (p/q)

/-- A number cut off at the point. -/
@[grind] def cutOff (q : ℚ) : ℤ := if 0≤q then ⌊q⌋ else ⌈q⌉

/-- The remainder of two floats, with the sign of the first. -/
@[grind] def rem : F64 → F64 → F64
  | .finite p,.finite q => if q=0 then .nan else .finite (p-q*cutOff (p/q))
  | .finite p,.inf _ => .finite p
  | _,_ => .nan

/-- The integral part of a float. -/
@[grind] def trunc : F64 → F64
  | .finite q => .finite (cutOff q)
  | other => other

/-- The nearest integral float, away from zero of two. -/
@[grind] def nearest : F64 → F64
  | .finite q => .finite (if 0≤q then ⌊q+1/2⌋ else ⌈q-1/2⌉)
  | other => other

/-- Conversion to an integer type with the given ends. -/
@[grind] def toInt (low high : ℤ) : F64 → ℤ
  | .nan => 0
  | .inf negative => if negative=true then low else high
  | .finite q => max low (min high (cutOff q))

/-- The float is a zero. -/
@[grind] def isZero : F64 → Bool
  | .finite q => q=0
  | _ => false

theorem nearestEven_intCast (n : ℤ) : nearestEven (n : ℚ)=n := by
  have hsmall : (n : ℚ)-(⌊(n : ℚ)⌋ : ℚ)<1/2 := by
    rw [Int.floor_intCast]
    norm_num
  unfold nearestEven
  rw [if_pos hsmall,Int.floor_intCast]

theorem lastPlace_nonpos {n : ℤ} (h : |n|<2^53) : lastPlace (n : ℚ)≤0 := by
  have hlog : Int.log 2 |(n : ℚ)|<53 := by
    by_cases hzero : n=0
    · rw [hzero]
      norm_num
    · have hpos : (0 : ℚ) < |(n : ℚ)| := abs_pos.mpr (by exact_mod_cast hzero)
      have hbound : |(n : ℚ)|<((2 : ℕ) : ℚ)^(53 : ℤ) := by
        have hcast : (|n| : ℚ)<2^53 := by exact_mod_cast h
        exact_mod_cast hcast
      exact (Int.lt_zpow_iff_log_lt (by decide) hpos).mp hbound
  unfold lastPlace
  omega

theorem ofInt_eq {n : ℤ} (h : |n|<2^53) : ofInt n=.finite n := by
  unfold ofInt round
  by_cases hzero : n=0
  · rw [hzero]
    simp
  · have hne : (n : ℚ)≠0 := by exact_mod_cast hzero
    have hplace := lastPlace_nonpos h
    have hmantissa : toMantissa (n : ℚ)=n := by
      have ⟨k,hk⟩ := Int.eq_ofNat_of_zero_le (show 0≤-lastPlace (n : ℚ) by omega)
      have hexp : lastPlace (n : ℚ)= -(k : ℤ) := by omega
      have hpow : (2 : ℚ)^lastPlace (n : ℚ)=((2 : ℚ)^k)⁻¹ := by
        rw [hexp,zpow_neg,zpow_natCast]
      have hp : (2 : ℚ)^k≠0 := pow_ne_zero k (by norm_num)
      have hscaled : (n : ℚ)/((2 : ℚ)^k)⁻¹=((n*2^k : ℤ) : ℚ) := by
        push_cast
        field_simp
      unfold toMantissa
      rw [hpow,hscaled,nearestEven_intCast]
      push_cast
      field_simp
    have hbelow : ¬(2 : ℚ)^1024≤|toMantissa (n : ℚ)| := by
      rw [hmantissa]
      have hcast : |(n : ℚ)|<2^53 := by
        have hint : (|n| : ℚ)<2^53 := by exact_mod_cast h
        exact_mod_cast hint
      have hbig : (2 : ℚ)^53≤2^1024 := pow_le_pow_right₀ (by norm_num) (by decide)
      exact not_le.mpr (hcast.trans_le hbig)
    rw [if_neg hne,if_neg hbelow,hmantissa]

/-- Small integers are not changed by cutting off. -/
@[simp] theorem cutOff_intCast (n : ℤ) : cutOff (n : ℚ)=n := by
  unfold cutOff
  split_ifs
  · exact Int.floor_intCast n
  · exact Int.ceil_intCast n

/-- A finite float less itself is zero. -/
@[simp] theorem sub_self_finite (q : ℚ) : sub (.finite q) (.finite q)=.finite 0 := by
  have hzero : q+ -q=0 := by ring
  simp [sub,neg,add,hzero,round]

/-- Zero times a finite float is zero. -/
@[simp] theorem mul_zero_finite (q : ℚ) : mul (.finite 0) (.finite q)=.finite 0 := by
  simp [mul,round]

theorem nearestEven_sign (q : ℚ) : (0≤q → 0≤nearestEven q) ∧ (q≤0 → nearestEven q≤0) := by
  have hfloor : (⌊q⌋ : ℚ)≤q := Int.floor_le q
  constructor
  · intro hq
    have hn : 0≤⌊q⌋ := Int.floor_nonneg.mpr hq
    unfold nearestEven
    split_ifs
    · exact hn
    · omega
    · exact hn
    · omega
  · intro hq
    have hn : ⌊q⌋≤0 := by
      have hcast : (⌊q⌋ : ℚ)≤0 := hfloor.trans hq
      exact_mod_cast hcast
    by_cases hzero : ⌊q⌋=0
    · have hq0 : q=0 := by
        rw [hzero] at hfloor
        exact le_antisymm hq (by simpa using hfloor)
      have heven := nearestEven_intCast 0
      rw [hq0]
      simpa using heven.le
    · unfold nearestEven
      split_ifs
      · exact hn
      · omega
      · exact hn
      · omega

theorem toMantissa_sign (q : ℚ) : (0≤q → 0≤toMantissa q) ∧ (q≤0 → toMantissa q≤0) := by
  have hscale : (0 : ℚ)<(2 : ℚ)^lastPlace q := zpow_pos (by norm_num) _
  have hsign := nearestEven_sign (q/(2 : ℚ)^lastPlace q)
  unfold toMantissa
  constructor
  · intro hq
    have hn : (0 : ℚ)≤nearestEven (q/(2 : ℚ)^lastPlace q) := by
      exact_mod_cast hsign.1 (div_nonneg hq hscale.le)
    exact mul_nonneg hn hscale.le
  · intro hq
    have hn : (nearestEven (q/(2 : ℚ)^lastPlace q) : ℚ)≤0 := by
      exact_mod_cast hsign.2 (div_nonpos_of_nonpos_of_nonneg hq hscale.le)
    exact mul_nonpos_of_nonpos_of_nonneg hn hscale.le

theorem cutOff_sign (q : ℚ) : (0≤q → 0≤cutOff q) ∧ (q≤0 → cutOff q≤0) := by
  unfold cutOff
  constructor
  · intro hq
    rw [if_pos hq]
    exact Int.floor_nonneg.mpr hq
  · intro hq
    split_ifs with hpos
    · have hzero : q=0 := le_antisymm hq hpos
      rw [hzero,Int.floor_zero]
    · exact Int.ceil_nonpos.mpr hq

theorem toInt_trunc_round_sign {low high : ℤ} (hlow : low≤0) (hhigh : 0≤high) (q : ℚ) :
    (0≤q → 0≤toInt low high (trunc (round q))) ∧ (q≤0 → toInt low high (trunc (round q))≤0) := by
  have hmantissa := toMantissa_sign q
  have hcut := cutOff_sign (toMantissa q)
  unfold round
  split_ifs with hzero hbig
  · have hcutzero : cutOff (cutOff 0 : ℚ)=0 := by simp [cutOff]
    simp only [trunc,toInt,hcutzero]
    constructor
    · intro _
      omega
    · intro _
      omega
  · simp only [trunc,toInt]
    constructor
    · intro hq
      have hneg : ¬q<0 := not_lt.mpr hq
      simp [hneg,hhigh]
    · intro hq
      have hneg : q<0 := lt_of_le_of_ne hq hzero
      simp [hneg,hlow]
  · simp only [trunc,toInt,cutOff_intCast]
    constructor
    · intro hq
      have hn := hcut.1 (hmantissa.1 hq)
      omega
    · intro hq
      have hn := hcut.2 (hmantissa.2 hq)
      omega

/-- The remainder by a positive number lies between zero and that number, on the
side of the number divided. -/
theorem rem_bounds (p : ℚ) {m : ℚ} (hm : 0< m) :
    (0≤p → 0≤p-m*cutOff (p/m) ∧ p-m*cutOff (p/m)< m) ∧
    (p≤0 → -m<p-m*cutOff (p/m) ∧ p-m*cutOff (p/m)≤0) := by
  have hp : p=m*(p/m) := (mul_div_cancel₀ p hm.ne').symm
  constructor
  · intro hpos
    have hq : 0≤p/m := div_nonneg hpos hm.le
    rw [cutOff,if_pos hq]
    have hlow : (⌊p/m⌋ : ℚ)≤p/m := Int.floor_le _
    have hhigh : p/m<⌊p/m⌋+1 := Int.lt_floor_add_one _
    constructor
    · nlinarith
    · nlinarith
  · intro hneg
    by_cases hzero : 0≤p/m
    · have hp0 : p=0 := by
        have hprod : 0≤ m*(p/m) := mul_nonneg hm.le hzero
        exact le_antisymm hneg (hp ▸ hprod)
      rw [hp0]
      simp [cutOff,hm]
    · rw [cutOff,if_neg hzero]
      have hlow : (⌈p/m⌉ : ℚ)<p/m+1 := Int.ceil_lt_add_one _
      have hhigh : p/m≤⌈p/m⌉ := Int.le_ceil _
      constructor
      · nlinarith
      · nlinarith

/-- Nearest integers of numbers from zero on: they stay below an integer exactly
for numbers more than a half below it. -/
theorem nearest_forward {r : ℚ} (hr : 0≤ r) (m : ℤ) :
    nearest (.finite r)=.finite (⌊r+1/2⌋ : ℤ) ∧ 0≤⌊r+1/2⌋ ∧ (⌊r+1/2⌋< m ↔ r< m-1/2) := by
  have hhalf : r+1/2< m ↔ r< m-1/2 := by
    constructor
    · intro h
      linarith
    · intro h
      linarith
  have hfloor : 0≤ r+1/2 := by linarith
  refine ⟨?_,Int.floor_nonneg.mpr hfloor,Int.floor_lt.trans hhalf⟩
  rw [nearest,if_pos hr]

/-- Nearest integers of numbers down from zero: they stay above an integer
exactly for numbers more than a half above it. -/
theorem nearest_back {r : ℚ} (hr : r<0) (m : ℤ) :
    nearest (.finite r)=.finite (⌈r-1/2⌉ : ℤ) ∧ ⌈r-1/2⌉≤0 ∧ (m<⌈r-1/2⌉ ↔ m+1/2< r) := by
  have hhalf : m< r-1/2 ↔ m+1/2< r := by
    constructor
    · intro h
      linarith
    · intro h
      linarith
  have hceil : r-1/2≤0 := by linarith
  refine ⟨?_,Int.ceil_nonpos.mpr hceil,Int.lt_ceil.trans hhalf⟩
  rw [nearest,if_neg (not_le.mpr hr)]

theorem toInt_intCast {low high n : ℤ} (h : low≤n ∧ n≤high) : toInt low high (.finite n)=n := by
  rw [toInt,cutOff_intCast]
  omega

end GraphDbLite.Binary64
