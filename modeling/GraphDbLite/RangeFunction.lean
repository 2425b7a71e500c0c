import Mathlib.Data.Set.Card
import GraphDbLite.LoopRuns
import GraphDbLite.StringFunctions

/-!
# The function `range`

The length of the progression is computed in words of 128 bits before the loop runs in
words of 64 bits, which is left when an addition overflows. Both agree: the loop pushes
the members of the progression between its bounds, as many as computed before.
-/

namespace GraphDbLite.RangeFunction

open GraphTypes WriteOperators CypherValues CypherEval LoopRuns StringFunctions

section Progressions

/-- A number lies between the bounds, in the direction of the step. -/
def Lies (s e d x : Int) : Prop := (0< d ∧ s≤ x ∧ x≤ e) ∨ (d<0 ∧ e≤ x ∧ x≤ s)

/-- A number has not passed the end. -/
def Within (e d x : Int) : Prop := (0< d ∧ x≤ e) ∨ (d<0 ∧ e≤ x)

/-- Whether a number has passed the end can be computed. -/
instance withinDecidable (e d x : Int) : Decidable (Within e d x) := inferInstanceAs (Decidable (_ ∨ _))

/-- Number of the members of a progression up to the end. -/
def members (s e d : Int) : Nat := if Within e d s then ((e-s).tdiv d).toNat+1 else 0

/-- The first members of a progression. -/
def elements (s d : Int) (n : Nat) : List Int := (List.range n).map fun i : Nat => s+i*d

theorem tdiv_of_within {s e d : Int} (h : Within e d s) : (e-s).tdiv d=(|e-s|)/|d| := by
  cases h with
  | inl h =>
    rw [abs_of_pos h.1,abs_of_nonneg (by omega),Int.tdiv_eq_ediv_of_nonneg (by omega)]
  | inr h =>
    have hneg : (e-s).tdiv d=(-(e-s)).tdiv (-d) := (Int.neg_tdiv_neg (e-s) d).symm
    rw [abs_of_neg h.1,abs_of_nonpos (by omega),hneg,Int.tdiv_eq_ediv_of_nonneg (by omega)]

theorem lies_iff (s e d : Int) (i : Nat) : Lies s e d (s+i*d) ↔ i< members s e d := by
  unfold members
  split_ifs with h
  · have hquot := tdiv_of_within h
    have hpos : 0< |d| := by
      cases h with
      | inl h | inr h => exact abs_pos.mpr (by omega)
    have hnonneg : 0≤|e-s|/|d| := Int.ediv_nonneg (abs_nonneg _) (abs_nonneg _)
    have hlast : (i : Int)≤|e-s|/|d| ↔ (i : Int)*|d|≤|e-s| := Int.le_ediv_iff_mul_le hpos
    have hcount : i<((e-s).tdiv d).toNat+1 ↔ (i : Int)*|d|≤|e-s| := by
      rw [hquot,←hlast]
      omega
    rw [hcount]
    cases h with
    | inl h =>
      have hstep : 0≤(i : Int)*d := Int.mul_nonneg (by omega) (by omega)
      rw [abs_of_pos h.1,abs_of_nonneg (show 0≤e-s by omega)]
      unfold Lies
      omega
    | inr h =>
      have hstep : 0≤(i : Int)* -d := Int.mul_nonneg (by omega) (by omega)
      have hmul : (i : Int)* -d= -((i : Int)*d) := Int.mul_neg _ _
      rw [abs_of_neg h.1,abs_of_nonpos (show e-s≤0 by omega)]
      unfold Lies
      omega
  · have hout : ¬Lies s e d (s+i*d) := by
      intro hlies
      cases hlies with
      | inl hl =>
        exact h (.inl ⟨hl.1,by omega⟩)
      | inr hl => exact h (.inr ⟨hl.1,by omega⟩)
    exact ⟨fun hlies => absurd hlies hout,fun hlt => absurd hlt (Nat.not_lt_zero _)⟩

theorem members_passed {s e d : Int} (h : ¬Within e d s) : members s e d=0 := if_neg h

theorem members_step {s e d : Int} (h : Within e d s) : members s e d=members (s+d) e d+1 := by
  have hsame : ∀ i : Nat,i+1< members s e d ↔ i< members (s+d) e d := by
    intro i
    rw [←lies_iff,←lies_iff]
    have hnext : s+((i+1 : Nat) : Int)*d=s+d+(i : Int)*d := by
      rw [Nat.cast_add,Nat.cast_one,Int.add_mul,Int.one_mul]
      omega
    have hup : 0< d → 0≤(i : Int)*d := fun hd => Int.mul_nonneg (by omega) (by omega)
    have hdown : d<0 → 0≤(i : Int)* -d := fun hd => Int.mul_nonneg (by omega) (by omega)
    have hmul : (i : Int)* -d= -((i : Int)*d) := Int.mul_neg _ _
    rw [hnext]
    unfold Lies
    omega
  have hfirst : 0< members s e d := by
    unfold members
    rw [if_pos h]
    omega
  have hlow := hsame (members (s+d) e d)
  have hhigh := hsame (members s e d-1)
  by_contra hne
  omega

theorem elements_succ (s d : Int) (n : Nat) : elements s d (n+1)=s::elements (s+d) d n := by
  unfold elements
  rw [List.range_succ_eq_map,List.map_cons,List.map_map]
  have hzero : s+((0 : Nat) : Int)*d=s := by omega
  rw [hzero]
  congr 1
  apply List.map_congr_left
  intro i _
  have hnext : s+((i+1 : Nat) : Int)*d=s+d+(i : Int)*d := by
    rw [Nat.cast_add,Nat.cast_one,Int.add_mul,Int.one_mul]
    omega
  exact hnext

end Progressions

section Functions

/-- Words of 128 bits. -/
abbrev I128 := BitVec 128

/-- A number as a word of 128 bits. -/
def widen (n : Int64) : I128 := n.toBitVec.signExtend 128

/-- Longest list that `range` makes. -/
def maxRangeLen : I128 := 10000000

/-- Addition, unless it overflows. -/
def checkedAdd (a b : Int64) : Option Int64 :=
  if a.toBitVec.saddOverflow b.toBitVec=true then none else some (a+b)

/-- Whether the loop runs at all. -/
def proceeds (s e step : Int64) : Bool := (0< step && s≤e) || (step<0 && e≤ s)

/-- The length computed before the loop. -/
def rangeLen (s e step : Int64) : I128 :=
  if proceeds s e step=true then (widen e-widen s).sdiv (widen step)+1 else 0

/-- A round of a loop: push the number and add the step. -/
def pushRound (inside : Int64 → Bool) (step : Int64) (run : Int64×List Value) : (Int64×List Value)⊕List Value :=
  if inside run.1=true then
    match checkedAdd run.1 step with
    | some n => .inl (n,run.2++[.i64 run.1])
    | none => .inr (run.2++[.i64 run.1])
  else .inr run.2

/-- A round of the loop with a positive step. -/
def ascend (e step : Int64) : Int64×List Value → (Int64×List Value)⊕List Value :=
  pushRound (fun i => i≤e) step

/-- A round of the loop with a negative step. -/
def descend (e step : Int64) : Int64×List Value → (Int64×List Value)⊕List Value :=
  pushRound (fun i => e≤ i) step

/-- The list of the loop, when a number of rounds is enough for it. -/
def rangeItems (fuel : Nat) (s e step : Int64) : Option (List Value) :=
  if proceeds s e step=true then
    if 0< step then rounds (ascend e step) fuel (s,[]) else rounds (descend e step) fuel (s,[])
  else some []

/-- Refusal of the step zero. -/
def zeroStep : GraphError :=
  .query .argumentError .runtime .other "NumberOutOfRange: step argument to range() cannot be zero"

/-- Refusal of a long list. -/
def tooLong (s e step : Int64) (len : I128) : GraphError :=
  .query .argumentError .runtime .numberOutOfRange
    ("NumberOutOfRange: range("++(toString s++(", "++(toString e++(", "++(toString step++(") would produce "++
      (toString len.toInt++(" elements, exceeding the "++(toString maxRangeLen.toInt++"-element cap"))))))))))

/-- The numbers from a start to an end by a step. -/
def rangeOf (fuel : Nat) (s e step : Int64) : Option (Result Value) :=
  if step=0 then some (.error zeroStep)
  else if maxRangeLen.slt (rangeLen s e step)=true then some (.error (tooLong s e step (rangeLen s e step)))
  else (rangeItems fuel s e step).map fun items => .ok (.list items)

/-- Refuse an argument that is neither an integer nor null. -/
def validateInteger (label : String) : Value → Result Unit
  | .i64 _ => .ok ()
  | .null => .ok ()
  | other => .error (.query .argumentError .runtime .other ("InvalidArgumentType: range() "++(label++
      (" argument must be an integer, got "++valueTypeName other))))

/-- Refuse a given argument that is neither an integer nor null. -/
def validateOptional (label : String) : Option Value → Result Unit
  | some val => validateInteger label val
  | none => .ok ()

/-- The arguments of `range`, in order, of a valid kind. -/
def rangeArgs (cells : List Cell) (rec : NamedRecord) : Result (Value×Option Value×Option Value) := do
  let start ← evalSingleArg cells rec
  let stop ← argAt cells 1 rec
  let step ← argAt cells 2 rec
  validateInteger "start" start
  validateOptional "end" stop
  validateOptional "step" step
  return (start,stop,step)

/-- The step, one when it is absent or null. -/
def stepOf : Option Value → Int64
  | some (.i64 step) => step
  | _ => 1

/-- The function `range`, when a number of rounds is enough for its loop. -/
def evalRange (fuel : Nat) (cells : List Cell) (rec : NamedRecord) : Option (Result Value) :=
  match rangeArgs cells rec with
  | .error err => some (.error err)
  | .ok (.i64 s,some (.i64 e),step) => rangeOf fuel s e (stepOf step)
  | .ok _ => some (.ok .null)

end Functions

section Words

theorem widen_toInt (n : Int64) : (widen n).toInt=n.toInt := by
  rw [widen,BitVec.toInt_signExtend_of_le (by omega),Int64.toInt_toBitVec]

theorem toInt_bounds (n : Int64) : -2^63≤n.toInt ∧ n.toInt<2^63 := ⟨Int64.le_toInt n,Int64.toInt_lt n⟩

theorem checkedAdd_none {a b : Int64} :
    checkedAdd a b=none ↔ 2^63≤a.toInt+b.toInt ∨ a.toInt+b.toInt< -2^63 := by
  unfold checkedAdd BitVec.saddOverflow
  rw [Int64.toInt_toBitVec,Int64.toInt_toBitVec]
  split_ifs with h
  · simpa using h
  · simpa using h

theorem checkedAdd_some {a b c : Int64} (h : checkedAdd a b=some c) : c.toInt=a.toInt+b.toInt := by
  have hin : ¬(2^63≤a.toInt+b.toInt ∨ a.toInt+b.toInt< -2^63) := by
    rw [←checkedAdd_none,h]
    intro hnone
    cases hnone
  unfold checkedAdd at h
  split_ifs at h
  rw [←Option.some.inj h,Int64.toInt_add]
  exact Int.bmod_eq_of_le (by omega) (by omega)

theorem proceeds_iff (s e step : Int64) :
    proceeds s e step=true ↔ Within e.toInt step.toInt s.toInt := by
  unfold proceeds Within
  rw [Bool.or_eq_true,Bool.and_eq_true,Bool.and_eq_true,decide_eq_true_iff,decide_eq_true_iff,
    decide_eq_true_iff,decide_eq_true_iff,Int64.lt_iff_toInt_lt,Int64.le_iff_toInt_le,
    Int64.lt_iff_toInt_lt,Int64.le_iff_toInt_le]
  rfl

/-- The subtraction, the division and the addition of the length stay in their words. -/
structure LengthExact (s e step : Int64) : Prop where
  /-- The difference of the bounds. -/
  difference : (widen e).ssubOverflow (widen s)=false
  /-- The quotient by the step. -/
  quotient : widen e-widen s≠BitVec.intMin 128 ∨ widen step≠ -1#128
  /-- The last member. -/
  last : ((widen e-widen s).sdiv (widen step)).saddOverflow 1=false

theorem difference_toInt (s e : Int64) :
    (widen e).ssubOverflow (widen s)=false ∧ (widen e-widen s).toInt=e.toInt-s.toInt := by
  have hs := toInt_bounds s
  have he := toInt_bounds e
  have hfits : (widen e).ssubOverflow (widen s)=false := by
    unfold BitVec.ssubOverflow
    rw [widen_toInt,widen_toInt]
    simp only [Bool.or_eq_false_iff,decide_eq_false_iff_not]
    omega
  have hsub := BitVec.toInt_sub_of_not_ssubOverflow (x:=widen e) (y:=widen s) (by rw [hfits]; exact Bool.false_ne_true)
  rw [widen_toInt,widen_toInt] at hsub
  exact ⟨hfits,hsub⟩

theorem difference_ne_intMin (s e : Int64) : widen e-widen s≠BitVec.intMin 128 := by
  intro h
  have hs := toInt_bounds s
  have he := toInt_bounds e
  have hsub := (difference_toInt s e).2
  rw [h] at hsub
  have hmin : (BitVec.intMin 128).toInt= -2^127 := by decide
  omega

theorem quotient_toInt (s e step : Int64) :
    ((widen e-widen s).sdiv (widen step)).toInt=(e.toInt-s.toInt).tdiv step.toInt := by
  rw [BitVec.toInt_sdiv_of_ne_or_ne _ _ (.inl (difference_ne_intMin s e)),(difference_toInt s e).2,widen_toInt]

theorem lengthExact (s e step : Int64) : LengthExact s e step := by
  have hs := toInt_bounds s
  have he := toInt_bounds e
  have hquot := Int.natAbs_tdiv_le_natAbs (e.toInt-s.toInt) step.toInt
  refine ⟨(difference_toInt s e).1,.inl (difference_ne_intMin s e),?_⟩
  have hone : (1 : I128).toInt=1 := by decide
  unfold BitVec.saddOverflow
  rw [quotient_toInt,hone]
  simp only [Bool.or_eq_false_iff,decide_eq_false_iff_not]
  omega

theorem rangeLen_toInt (s e step : Int64) :
    (rangeLen s e step).toInt=(members s.toInt e.toInt step.toInt : Int) := by
  have hlast := (lengthExact s e step).last
  have hone : (1 : I128).toInt=1 := by decide
  have hzero : (0 : I128).toInt=0 := by decide
  unfold rangeLen members
  by_cases h : Within e.toInt step.toInt s.toInt
  · have hnonneg : 0≤(e.toInt-s.toInt).tdiv step.toInt := by
      rw [tdiv_of_within h]
      exact Int.ediv_nonneg (abs_nonneg _) (abs_nonneg _)
    have hsum := BitVec.toInt_add_of_not_saddOverflow (x:=(widen e-widen s).sdiv (widen step)) (y:=1)
      (by rw [hlast]; exact Bool.false_ne_true)
    rw [if_pos ((proceeds_iff s e step).mpr h),if_pos h,hsum,quotient_toInt,hone]
    omega
  · rw [if_neg (fun hgo => h ((proceeds_iff s e step).mp hgo)),if_neg h,hzero]
    rfl

end Words

section Loops

variable {inside : Int64 → Bool} {e step : Int64}

theorem pushRound_returns (hinside : ∀ x,inside x=true ↔ Within e.toInt step.toInt x.toInt) (i : Int64)
    (acc : List Value) : ∃ items : List Int64,
      items.map Int64.toInt=elements i.toInt step.toInt (members i.toInt e.toInt step.toInt) ∧
      Returns (pushRound inside step) (i,acc) (acc++items.map Value.i64) := by
  induction hn : members i.toInt e.toInt step.toInt generalizing i acc with
  | zero =>
    have hout : ¬Within e.toInt step.toInt i.toInt := by
      intro h
      rw [members_step h] at hn
      omega
    refine ⟨[],rfl,?_⟩
    rw [List.map_nil,List.append_nil]
    apply returns_done
    rw [pushRound,if_neg (fun h => hout ((hinside i).mp h))]
  | succ n ih =>
    have hin : Within e.toInt step.toInt i.toInt := by
      by_contra h
      rw [members_passed h] at hn
      omega
    have hrest : members (i.toInt+step.toInt) e.toInt step.toInt=n := by
      have hstep := members_step hin
      omega
    cases hadd : checkedAdd i step with
    | some next =>
      have hnext := checkedAdd_some hadd
      rw [←hnext] at hrest
      have ⟨items,hitems,hreturns⟩ := ih next (acc++[.i64 i]) hrest
      refine ⟨i::items,?_,?_⟩
      · rw [List.map_cons,hitems,elements_succ,hnext]
      · rw [List.map_cons,List.append_cons]
        refine returns_step ?_ hreturns
        rw [pushRound,if_pos ((hinside i).mpr hin),hadd]
    | none =>
      -- Past the end of the word nothing is left inside the bounds.
      have hover := checkedAdd_none.mp hadd
      have he := toInt_bounds e
      have hi := toInt_bounds i
      have hout : ¬Within e.toInt step.toInt (i.toInt+step.toInt) := by
        intro h
        unfold Within at h hin
        omega
      rw [members_passed hout] at hrest
      rw [←hrest]
      refine ⟨[i],?_,?_⟩
      · rw [elements_succ]
        rfl
      · apply returns_done
        rw [pushRound,if_pos ((hinside i).mpr hin),hadd]
        rfl

theorem rangeItems_returns (s e step : Int64) : ∃ items : List Int64,
    items.map Int64.toInt=elements s.toInt step.toInt (members s.toInt e.toInt step.toInt) ∧
    ∃ fuel,∀ more,rangeItems (fuel+more) s e step=some (items.map Value.i64) := by
  by_cases hgo : Within e.toInt step.toInt s.toInt
  · have hproceeds := (proceeds_iff s e step).mpr hgo
    by_cases hup : 0< step
    · have hpos : 0< step.toInt := Int64.lt_iff_toInt_lt.mp hup
      have hinside : ∀ x : Int64,decide (x≤e)=true ↔ Within e.toInt step.toInt x.toInt := by
        intro x
        rw [decide_eq_true_iff,Int64.le_iff_toInt_le]
        unfold Within
        omega
      have ⟨items,hitems,n,hn⟩ := pushRound_returns hinside s []
      refine ⟨items,hitems,n,fun more => ?_⟩
      rw [rangeItems,if_pos hproceeds,if_pos hup]
      exact rounds_mono hn more
    · have hneg : ¬0< step.toInt := fun h => hup (Int64.lt_iff_toInt_lt.mpr h)
      have hdown : step.toInt<0 := by
        unfold Within at hgo
        omega
      have hinside : ∀ x : Int64,decide (e≤ x)=true ↔ Within e.toInt step.toInt x.toInt := by
        intro x
        rw [decide_eq_true_iff,Int64.le_iff_toInt_le]
        unfold Within
        omega
      have ⟨items,hitems,n,hn⟩ := pushRound_returns hinside s []
      refine ⟨items,hitems,n,fun more => ?_⟩
      rw [rangeItems,if_pos hproceeds,if_neg hup]
      exact rounds_mono hn more
  · refine ⟨[],by rw [members_passed hgo]; rfl,0,fun more => ?_⟩
    rw [rangeItems,if_neg (fun h => hgo ((proceeds_iff s e step).mp h))]
    rfl

end Loops

section Calls

/-- The outcome of `range` between two numbers by a step. -/
structure RangeExact (s e step : Int64) (outcome : Result Value) : Prop where
  /-- The computation of the length does not overflow. -/
  exact : LengthExact s e step
  /-- The call fails for the step zero and for more members than the longest list has. -/
  fails : (∃ err,outcome=.error err) ↔
    step=0 ∨ 10000000<Set.encard {i : Nat | Lies s.toInt e.toInt step.toInt (s.toInt+i*step.toInt)}
  /-- Else the list has the members between the bounds in order, as many as computed before. -/
  list : ∀ v,outcome=.ok v → ∃ items : List Int64,v=.list (items.map Value.i64) ∧
    items.map Int64.toInt=elements s.toInt step.toInt items.length ∧
    (∀ i : Nat,Lies s.toInt e.toInt step.toInt (s.toInt+i*step.toInt) ↔ i< items.length) ∧
    (rangeLen s e step).toInt=items.length

theorem encard_members (s e d : Int) : Set.encard {i : Nat | Lies s e d (s+i*d)}=(members s e d : ℕ∞) := by
  have hset : {i : Nat | Lies s e d (s+i*d)}=(Finset.range (members s e d) : Set Nat) := by
    ext i
    rw [Set.mem_ofPred_eq,lies_iff,Finset.mem_coe,Finset.mem_range]
  rw [hset,Set.encard_coe_eq_coe_finsetCard,Finset.card_range]

theorem tooLong_iff (s e step : Int64) : maxRangeLen.slt (rangeLen s e step)=true ↔
    10000000< members s.toInt e.toInt step.toInt := by
  have hcap : maxRangeLen.toInt=10000000 := by decide
  rw [BitVec.slt_eq_decide,decide_eq_true_iff,rangeLen_toInt,hcap]
  omega

theorem rangeOf_exact (s e step : Int64) : ∃ fuel outcome,
    (∀ more,rangeOf (fuel+more) s e step=some outcome) ∧ RangeExact s e step outcome := by
  have hcast : 10000000<Set.encard {i : Nat | Lies s.toInt e.toInt step.toInt (s.toInt+i*step.toInt)} ↔
      10000000< members s.toInt e.toInt step.toInt := by
    rw [encard_members]
    exact_mod_cast Iff.rfl
  by_cases hzero : step=0
  · refine ⟨0,.error zeroStep,fun more => by rw [rangeOf,if_pos hzero],lengthExact s e step,?_,?_⟩
    · exact ⟨fun _ => .inl hzero,fun _ => ⟨zeroStep,rfl⟩⟩
    · intro v h
      cases h
  · by_cases hlong : maxRangeLen.slt (rangeLen s e step)=true
    · refine ⟨0,.error (tooLong s e step (rangeLen s e step)),fun more => ?_,lengthExact s e step,?_,?_⟩
      · rw [rangeOf,if_neg hzero,if_pos hlong]
      · exact ⟨fun _ => .inr (hcast.mpr ((tooLong_iff s e step).mp hlong)),fun _ => ⟨_,rfl⟩⟩
      · intro v h
        cases h
    · have ⟨items,hitems,fuel,hfuel⟩ := rangeItems_returns s e step
      have hlength : items.length=members s.toInt e.toInt step.toInt := by
        have heq := congrArg List.length hitems
        rw [elements,List.length_map,List.length_map,List.length_range] at heq
        exact heq
      refine ⟨fuel,.ok (.list (items.map Value.i64)),fun more => ?_,lengthExact s e step,?_,?_⟩
      · rw [rangeOf,if_neg hzero,if_neg hlong,hfuel more]
        rfl
      · rw [hcast,←tooLong_iff]
        constructor
        · intro h
          cases h with
          | intro err herr => cases herr
        · intro h
          cases h with
          | inl h => exact absurd h hzero
          | inr h => exact absurd h hlong
      · intro v h
        cases h
        refine ⟨items,rfl,by rw [hlength,hitems],fun i => ?_,?_⟩
        · rw [hlength,lies_iff]
        · rw [hlength,rangeLen_toInt]

/-- A call of `range` with two numbers and a step, or none, is the progression between them. -/
theorem range_exact (cells : List Cell) (rec : NamedRecord) (s e : Int64) (step : Option Int64)
    (hcells : (cells.map fun cell => cell rec)=
      .ok (.i64 s)::.ok (.i64 e)::(step.map fun d => .ok (.i64 d)).toList) :
    ∃ fuel outcome,(∀ more,evalRange (fuel+more) cells rec=some outcome) ∧
      RangeExact s e (step.getD 1) outcome := by
  have hargs : rangeArgs cells rec=.ok (.i64 s,some (.i64 e),step.map Value.i64) := by
    have hat : ∀ i,argAt cells i rec=((cells.map fun cell => cell rec)[i]?).elim (.ok none)
        fun outcome => outcome.map some := by
      intro i
      rw [argAt,List.getElem?_map]
      cases cells[i]? with
      | none | some cell => rfl
    have hfirst : evalSingleArg cells rec=.ok (.i64 s) := by
      cases cells with
      | nil => cases hcells
      | cons cell rest => exact (List.cons.inj hcells).1
    rw [rangeArgs,hfirst,hat 1,hat 2,hcells]
    cases step with
    | none | some d => rfl
  have hstep : stepOf (step.map Value.i64)=step.getD 1 := by
    cases step with
    | none | some d => rfl
  have ⟨fuel,outcome,hreturns,hexact⟩ := rangeOf_exact s e (step.getD 1)
  refine ⟨fuel,outcome,fun more => ?_,hexact⟩
  rw [evalRange,hargs,←hreturns more,←hstep]

/-- `range(9223372036854775806, 9223372036854775807)` ends at the last number. -/
theorem range_exact_end : ([number 9223372036854775806,number 9223372036854775807].map fun cell => cell ⟨[]⟩)=
      [.ok (.i64 9223372036854775806),.ok (.i64 9223372036854775807)] ∧
    ∃ fuel outcome,(∀ more,evalRange (fuel+more) [number 9223372036854775806,number 9223372036854775807]
      ⟨[]⟩=some outcome) ∧ RangeExact 9223372036854775806 9223372036854775807 1 outcome :=
  ⟨rfl,range_exact _ ⟨[]⟩ 9223372036854775806 9223372036854775807 none rfl⟩

end Calls

end GraphDbLite.RangeFunction
