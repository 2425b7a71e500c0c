import GraphDbLite.DurationArithmetic
import GraphDbLite.DurationReading
import GraphDbLite.PrintedNumbers

/-!
# Durations printed and read

A duration is printed as its components behind their signs, and the loops of the
reader add them up again. Months, days and seconds come back when floats hold
them; nanoseconds come back when they are printed with at most nine digits and
the sign in front of the seconds is theirs.
-/

namespace GraphDbLite.DurationRoundTrip

open Binary64 TemporalValues DurationText DurationReading PrintedNumbers DurationArithmetic

variable {contribution : List Char → Char → Reading CypherDuration} {sum : CypherDuration}

theorem unitLoop_digits {digits : List Char} (num chars : List Char)
    (h : ∀ c∈digits,isNumberChar c=true) :
    unitLoop contribution sum num (digits++chars)=unitLoop contribution sum (num++digits) chars := by
  induction digits generalizing num with
  | nil => rw [List.nil_append,List.append_nil]
  | cons c digits ih =>
    have hc : (num=[] ∧ c = '-') ∨ isNumberChar c=true := .inr (h c List.mem_cons_self)
    have hrest := ih (num++[c]) (fun x hx => h x (List.mem_cons_of_mem c hx))
    rw [List.cons_append,unitLoop,if_pos hc,hrest,List.append_assoc]
    rfl

theorem unitLoop_number {number : List Char} (chars : List Char) (h : IsNumber number) :
    unitLoop contribution sum [] (number++chars)=unitLoop contribution sum number chars := by
  have ⟨sign,digits,heq,hsign,hdigits⟩ := h
  have hall := List.all_eq_true.mp hdigits
  cases hsign with
  | inl hempty =>
    rw [heq,hempty,List.nil_append]
    exact unitLoop_digits [] chars hall
  | inr hminus =>
    have hc : (([] : List Char)=[] ∧ '-'= '-') ∨ isNumberChar '-'=true := .inl ⟨rfl,rfl⟩
    rw [heq,hminus,List.append_assoc,List.singleton_append,unitLoop,if_pos hc]
    exact unitLoop_digits ['-'] chars hall

/-- Each component takes at most half of its word. -/
def Small (d : CypherDuration) : Prop :=
  (-4611686018427387904≤d.months ∧ d.months≤4611686018427387903) ∧
  (-4611686018427387904≤d.days ∧ d.days≤4611686018427387903) ∧
  (-4611686018427387904≤d.seconds ∧ d.seconds≤4611686018427387903) ∧
  -4611686018427387904≤d.nanos ∧ d.nanos≤4611686018427387903

theorem small_noDuration : Small noDuration := by
  simp only [Small,noDuration]
  omega

theorem addTo_small {a b : CypherDuration} (ha : Small a) (hb : Small b) : addTo a b=.ok (plus a b) := by
  unfold Small at ha hb
  have hmonths : word (a.months+b.months)=.ok (a.months+b.months) := word_of (by omega)
  have hdays : word (a.days+b.days)=.ok (a.days+b.days) := word_of (by omega)
  have hseconds : word (a.seconds+b.seconds)=.ok (a.seconds+b.seconds) := word_of (by omega)
  have hnanos : word (a.nanos+b.nanos)=.ok (a.nanos+b.nanos) := word_of (by omega)
  unfold addTo
  rw [hmonths,hdays,hseconds,hnanos]
  rfl

variable {unit : Char} {n : Int} {secs nanos : Int} {d : CypherDuration} {c : Char}

theorem unitLoop_unit {num : List Char} {part next : CypherDuration} (chars : List Char)
    (hnum : IsNumber num) (hunit : isNumberChar unit=false) (hminus : unit≠ '-')
    (hpart : contribution num unit=.ok part) (hadd : addTo sum part=.ok next) :
    unitLoop contribution sum [] (num++unit::chars)=unitLoop contribution next [] chars := by
  have hc : ¬((num=[] ∧ unit= '-') ∨ isNumberChar unit=true) := by
    intro hor
    cases hor with
    | inl hsign => exact hminus hsign.2
    | inr hdigit => rw [hunit] at hdigit; cases hdigit
  rw [unitLoop_number (unit::chars) hnum,unitLoop,if_neg hc,hpart]
  simp only [bind,Except.bind,hadd]

theorem isNumberChar_digits {chars : List Char} (h : AllDigits chars) : chars.all isNumberChar=true := by
  apply List.all_eq_true.mpr
  intro c hc
  rw [isNumberChar,h c hc]
  rfl

theorem isNumber_intText (n : Int) : IsNumber (intText n) := by
  have hdigits := isNumberChar_digits (allDigits_toDigits n.natAbs)
  unfold intText
  split_ifs
  · exact ⟨['-'],_,rfl,.inr rfl,hdigits⟩
  · exact ⟨[],_,rfl,.inl rfl,hdigits⟩

theorem unitLoop_component {f : Int → CypherDuration} (n : Int) (chars : List Char)
    (hunit : isNumberChar unit=false) (hminus : unit≠ '-') (hzero : f 0=noDuration)
    (hpart : contribution (intText n) unit=.ok (f n)) (hadd : addTo sum (f n)=.ok (plus sum (f n))) :
    unitLoop contribution sum [] (component n unit++chars)= unitLoop contribution (plus sum (f n)) [] chars := by
  unfold component
  split_ifs with hn
  · rw [List.append_assoc,List.singleton_append]
    exact unitLoop_unit chars (isNumber_intText n) hunit hminus hpart hadd
  · have hn0 : n=0 := not_not.mp hn
    rw [hn0,hzero,plus_noDuration,List.nil_append]

theorem cascadeFracMonths_zero : cascadeFracMonths (.finite 0)=noDuration := if_pos rfl

theorem cascadeFracDays_zero : cascadeFracDays (.finite 0)=noDuration := if_pos rfl

theorem toI64_intCast (h : |n|<2^53) : toI64 (.finite n)=n := by
  have hbounds := abs_lt.mp h
  exact toInt_intCast ⟨by omega,by omega⟩

/-- An integral float is its integral part, and nothing is left behind the point. -/
theorem trunc_intCast (n : Int) :
    trunc (.finite n)=.finite n ∧ sub (.finite n) (trunc (.finite n))=.finite 0 := by
  have htrunc : trunc (.finite n)=.finite n := by rw [trunc,cutOff_intCast]
  rw [htrunc]
  exact ⟨rfl,sub_self_finite n⟩

theorem dateContribution_years (h : |n|<2^53) : dateContribution (intText n) 'Y'=.ok ⟨n*12,0,0,0⟩ := by
  have hbounds := abs_lt.mp h
  have hword : word (n*12)=.ok (n*12) := word_of (by omega)
  have hparts := trunc_intCast n
  have hfrac : mul (.finite 0) (ofInt 12)=.finite 0 := by
    rw [ofInt_eq (by decide)]
    exact mul_zero_finite _
  have htrunc : trunc (.finite 0)=.finite 0 := by decide
  have hnone : sub (.finite 0) (.finite 0)=.finite 0 := sub_self_finite 0
  have hzero : toI64 (.finite 0)=0 := by decide
  have hupper : ('Y' : Char).toUpper= 'Y' := rfl
  unfold dateContribution
  rw [parseF64_intText h]
  simp only [bind,Except.bind,hupper,hparts.2]
  simp only [hparts.1,toI64_intCast h,hword,hfrac,htrunc,hnone,hzero,cascadeFracMonths_zero,
    plus_noDuration,add_zero]
  rfl

theorem dateContribution_months (h : |n|<2^53) : dateContribution (intText n) 'M'=.ok ⟨n,0,0,0⟩ := by
  have hparts := trunc_intCast n
  have hupper : ('M' : Char).toUpper= 'M' := rfl
  unfold dateContribution
  rw [parseF64_intText h]
  simp only [bind,Except.bind,hupper,hparts.2]
  simp only [hparts.1,toI64_intCast h,cascadeFracMonths_zero,plus_noDuration]
  rfl

theorem dateContribution_days (h : |n|<2^53) : dateContribution (intText n) 'D'=.ok ⟨0,n,0,0⟩ := by
  have hparts := trunc_intCast n
  have hupper : ('D' : Char).toUpper= 'D' := rfl
  unfold dateContribution
  rw [parseF64_intText h]
  simp only [bind,Except.bind,hupper,hparts.2]
  simp only [hparts.1,toI64_intCast h,cascadeFracDays_zero,plus_noDuration]
  rfl

theorem clockContribution_whole {n scale : Int} (h : |n|<2^53)
    (hword : -9223372036854775808≤n*scale ∧ n*scale≤9223372036854775807) :
    clockContribution (intText n) scale=.ok ⟨0,0,n*scale,0⟩ := by
  have hparts := trunc_intCast n
  have hzero : isZero (.finite 0)=true := rfl
  unfold clockContribution
  rw [parseF64_intText h]
  simp only [bind,Except.bind,hparts.2]
  simp only [hparts.1,toI64_intCast h,word_of hword,hzero,if_true,plus_noDuration]
  rfl

/-- The seconds are printed with a minus sign in front of their digits. -/
def PrintedBack (secs nanos : Int) : Prop := secs<0 ∨ (secs=0 ∧ nanos<0)

/-- Whether they are can be computed. -/
instance printedBackDecidable (secs nanos : Int) : Decidable (PrintedBack secs nanos) :=
  inferInstanceAs (Decidable (_ ∨ _))

/-- Nanoseconds that are read from the printed seconds. -/
def readNanos (secs nanos : Int) : Int :=
  if nanos=0 then 0
  else if PrintedBack secs nanos then -(Nat.ofDigitChars 10 (nineDigits (fracText nanos)) 0 : Int)
  else Nat.ofDigitChars 10 (nineDigits (fracText nanos)) 0

theorem cut_at {sep : Char} {before : List Char} (behind : List Char) (h : sep∉before) :
    (before++sep::behind).takeWhile (fun c => decide (c≠sep))=before ∧
      (before++sep::behind).dropWhile (fun c => decide (c≠sep))=sep::behind := by
  have hkeep : ∀ c∈before,decide (c≠sep)=true := by
    intro c hc
    exact decide_eq_true (fun heq => h (heq ▸ hc))
  constructor
  · rw [List.takeWhile_append_of_pos hkeep]
    simp
  · rw [List.dropWhile_append_of_pos hkeep]
    simp

theorem secondContribution_point {int frac : List Char} (hint : '.'∉int) :
    secondContribution (int++ '.'::frac)=
      ((if int=[] ∨ int=['-'] then .ok 0 else parseI64 int) >>= fun intVal =>
        parseFracNanos frac >>= fun fracNanos =>
          .ok ⟨0,0,intVal,if int.head?=some '-' then -fracNanos else fracNanos⟩) := by
  have hcut := cut_at frac hint
  have hmem : '.'∈int++ '.'::frac := List.mem_append_right int List.mem_cons_self
  unfold secondContribution
  rw [if_pos hmem]
  simp only [hcut.1,hcut.2,List.drop_one,List.tail_cons]
  by_cases hempty : int=[] ∨ int=['-']
  · rw [if_pos hempty,if_pos hempty]
    rfl
  · rw [if_neg hempty,if_neg hempty]
    rfl

theorem point_notMem_digits {chars : List Char} (h : AllDigits chars) : '.'∉chars := by
  intro hmem
  have hdigit := h '.' hmem
  cases hdigit

theorem isNumber_point {int frac : List Char} (hint : AllDigits int) (hfrac : AllDigits frac) :
    IsNumber (int++ '.'::frac) ∧ IsNumber ('-'::(int++ '.'::frac)) := by
  have hall : (int++ '.'::frac).all isNumberChar=true := by
    rw [List.all_append,List.all_cons,isNumberChar_digits hint,isNumberChar_digits hfrac]
    rfl
  exact ⟨⟨[],_,rfl,.inl rfl,hall⟩,⟨['-'],_,rfl,.inr rfl,hall⟩⟩

theorem secondContribution_whole (h : |n|<2^53) : timeContribution (intText n) 'S'=.ok ⟨0,0,n,0⟩ := by
  have hbounds := abs_lt.mp h
  have hpoint : '.'∉intText n := by
    have hdigits := point_notMem_digits (allDigits_toDigits n.natAbs)
    unfold intText
    split_ifs
    · intro hmem
      cases List.mem_cons.mp hmem with
      | inl heq => cases heq
      | inr hrest => exact hdigits hrest
    · exact hdigits
  have hsecond : timeContribution (intText n) 'S'=secondContribution (intText n) := rfl
  rw [hsecond,secondContribution,if_neg hpoint,parseI64_intText ⟨by omega,by omega⟩]
  rfl

/-- Seconds with a fraction add the seconds and the nanoseconds that are read. -/
theorem secondContribution_fraction (h : |secs|<2^53) (hnanos : nanos≠0) :
    timeContribution (if PrintedBack secs nanos then '-'::(Nat.toDigits 10 secs.natAbs++ '.'::fracText nanos)
      else intText secs++ '.'::fracText nanos) 'S'=.ok ⟨0,0,secs,readNanos secs nanos⟩ := by
  have hbounds := abs_lt.mp h
  have hdigits := allDigits_toDigits secs.natAbs
  have hvalue : Nat.ofDigitChars 10 (Nat.toDigits 10 secs.natAbs) 0=secs.natAbs := Nat.ofDigitChars_ten_toDigits
  have hfrac := (parseFracNanos_digits (allDigits_fracText nanos)).1
  have hsecond : ∀ num,timeContribution num 'S'=secondContribution num := fun _ => rfl
  have hne : Nat.toDigits 10 secs.natAbs≠[] := Nat.toDigits_ne_nil
  rw [hsecond]
  unfold readNanos
  rw [if_neg hnanos]
  split_ifs with hback
  · have hpoint : '.'∉ '-'::Nat.toDigits 10 secs.natAbs := by
      intro hmem
      cases List.mem_cons.mp hmem with
      | inl heq => cases heq
      | inr hrest => exact point_notMem_digits hdigits hrest
    have hfull : ¬('-'::Nat.toDigits 10 secs.natAbs=[] ∨ '-'::Nat.toDigits 10 secs.natAbs=['-']) := by
      intro hor
      cases hor with
      | inl hnil => cases hnil
      | inr hminus => exact hne (List.cons.inj hminus).2
    have hparse : parseI64 ('-'::Nat.toDigits 10 secs.natAbs)=.ok secs := by
      have hread := @parseInt_minus (-9223372036854775808) 9223372036854775807 _ hne (by decide) (by decide)
        hdigits (by rw [hvalue]; omega)
      have hsecs : -((secs.natAbs : ℕ) : Int)=secs := by
        unfold PrintedBack at hback
        omega
      rw [hvalue,hsecs] at hread
      exact hread
    have hcons : '-'::(Nat.toDigits 10 secs.natAbs++ '.'::fracText nanos)=
        ('-'::Nat.toDigits 10 secs.natAbs)++ '.'::fracText nanos := rfl
    rw [hcons,secondContribution_point hpoint,if_neg hfull,hparse,hfrac]
    rfl
  · have hpos : ¬secs<0 := fun hneg => hback (.inl hneg)
    have htext : intText secs=Nat.toDigits 10 secs.natAbs := if_neg hpos
    have hfull : ¬(Nat.toDigits 10 secs.natAbs=[] ∨ Nat.toDigits 10 secs.natAbs=['-']) := by
      intro hor
      cases hor with
      | inl hnil => exact hne hnil
      | inr hminus =>
        have hdigit := hdigits '-' (by rw [hminus]; exact List.mem_cons_self)
        cases hdigit
    have hparse := parseI64_intText (n:=secs) ⟨by omega,by omega⟩
    have hhead : (Nat.toDigits 10 secs.natAbs).head?≠some '-' := by
      intro hminus
      have hdigit := hdigits '-' (List.mem_of_mem_head? hminus)
      cases hdigit
    rw [htext] at hparse ⊢
    rw [secondContribution_point (point_notMem_digits hdigits),if_neg hfull,hparse,hfrac]
    simp only [bind,Except.bind,if_neg hhead]

theorem unitLoop_secondText (h : |secs|<2^53)
    (hadd : addTo sum ⟨0,0,secs,readNanos secs nanos⟩=.ok (plus sum ⟨0,0,secs,readNanos secs nanos⟩)) :
    unitLoop timeContribution sum [] (secondText secs nanos)= .ok (plus sum ⟨0,0,secs,readNanos secs nanos⟩) := by
  have hunit : isNumberChar 'S'=false := by decide
  have hminus : ('S' : Char)≠ '-' := by decide
  unfold secondText
  by_cases hnanos : nanos=0
  · have hread : readNanos secs nanos=0 := if_pos hnanos
    rw [hread] at hadd ⊢
    by_cases hsecs : secs=0
    · have hnone : ¬(secs≠0 ∨ nanos≠0) := fun hor => hor.elim (fun hs => hs hsecs) (fun hn => hn hnanos)
      rw [if_neg hnone,hsecs]
      exact congrArg Except.ok (plus_noDuration sum).symm
    · have hsome : secs≠0 ∨ nanos≠0 := .inl hsecs
      have hzero : ¬nanos≠0 := not_not.mpr hnanos
      rw [if_pos hsome,if_neg hzero,
        unitLoop_unit [] (isNumber_intText secs) hunit hminus (secondContribution_whole h) hadd]
      rfl
  · have hsome : secs≠0 ∨ nanos≠0 := .inr hnanos
    have hpart := secondContribution_fraction h hnanos
    have hdigits := allDigits_toDigits secs.natAbs
    have hnumber := isNumber_point hdigits (allDigits_fracText nanos)
    rw [if_pos hsome,if_pos hnanos]
    by_cases hback : PrintedBack secs nanos
    · have htext : '-'::(Nat.toDigits 10 secs.natAbs++ '.'::(fracText nanos++['S']))=
          ('-'::(Nat.toDigits 10 secs.natAbs++ '.'::fracText nanos))++ 'S'::[] := by simp
      rw [if_pos hback] at hpart
      have hback' : secs<0 ∨ (secs=0 ∧ nanos<0) := hback
      rw [if_pos hback',htext,unitLoop_unit [] hnumber.2 hunit hminus hpart hadd]
      rfl
    · have hback' : ¬(secs<0 ∨ (secs=0 ∧ nanos<0)) := hback
      have hpos : ¬secs<0 := fun hneg => hback (.inl hneg)
      have hint : intText secs=Nat.toDigits 10 secs.natAbs := if_neg hpos
      have htext : intText secs++ '.'::(fracText nanos++['S'])=
          (intText secs++ '.'::fracText nanos)++ 'S'::[] := by simp
      rw [if_neg hback] at hpart
      rw [←hint] at hnumber
      rw [if_neg hback',htext,unitLoop_unit [] hnumber.1 hunit hminus hpart hadd]
      rfl

/-- The date part of a printed duration. -/
def dateText (d : CypherDuration) : List Char :=
  component (d.months.tdiv 12) 'Y'++component (d.months.tmod 12) 'M'++component d.days 'D'

/-- The time part of a printed duration. -/
def timeText (seconds nanos : Int) : List Char :=
  component (seconds.tdiv 3600) 'H'++component ((seconds.tmod 3600).tdiv 60) 'M'++
    secondText ((seconds.tmod 3600).tmod 60) nanos

theorem parts_toward_zero (n k : Int) : n.tdiv k*k+n.tmod k=n := by
  have h := Int.mul_tdiv_add_tmod n k
  rw [Int.mul_comm] at h
  exact h

theorem abs_parts_le (n k : Int) : |n.tdiv k|≤|n| ∧ |n.tmod k|≤|n| := by
  have hdiv : (n.tdiv k).natAbs≤n.natAbs := by
    rw [Int.natAbs_tdiv]
    exact Nat.div_le_self _ _
  have hmod : (n.tmod k).natAbs≤n.natAbs := by
    rw [Int.natAbs_tmod]
    exact Nat.mod_le _ _
  rw [Int.abs_eq_natAbs,Int.abs_eq_natAbs,Int.abs_eq_natAbs]
  exact ⟨by omega,by omega⟩

theorem unitLoop_dateText (hmonths : |d.months|<2^53) (hdays : |d.days|<2^53) :
    unitLoop dateContribution noDuration [] (dateText d)=.ok ⟨d.months,d.days,0,0⟩ := by
  have hparts := abs_parts_le d.months 12
  have hwhole := parts_toward_zero d.months 12
  have hyears : |d.months.tdiv 12|<2^53 := hparts.1.trans_lt hmonths
  have hrest : |d.months.tmod 12|<2^53 := hparts.2.trans_lt hmonths
  unfold dateText
  generalize d.months.tdiv 12=years at hwhole hyears
  generalize d.months.tmod 12=months at hwhole hrest
  have byears := abs_lt.mp hyears
  have bmonths := abs_lt.mp hrest
  have bdays := abs_lt.mp hdays
  have hsmallyears : Small ⟨years*12,0,0,0⟩ := by
    simp only [Small]
    omega
  have hsmallmonths : Small ⟨months,0,0,0⟩ := by
    simp only [Small]
    omega
  have hsmalldays : Small ⟨0,d.days,0,0⟩ := by
    simp only [Small]
    omega
  have hsmallsum : Small (plus (plus noDuration ⟨years*12,0,0,0⟩) ⟨months,0,0,0⟩) := by
    simp only [Small,plus,noDuration]
    omega
  have hsum : plus (plus (plus noDuration ⟨years*12,0,0,0⟩) ⟨months,0,0,0⟩) ⟨0,d.days,0,0⟩=
      ⟨d.months,d.days,0,0⟩ := by
    simp only [plus,noDuration,CypherDuration.mk.injEq]
    omega
  have hfirst : Small (plus noDuration ⟨years*12,0,0,0⟩) := by
    rw [noDuration_plus]
    exact hsmallyears
  rw [List.append_assoc,
    unitLoop_component (f:=fun n => ⟨n*12,0,0,0⟩) years _ (by decide) (by decide) rfl
      (dateContribution_years hyears) (addTo_small small_noDuration hsmallyears),
    unitLoop_component (f:=fun n => ⟨n,0,0,0⟩) months _ (by decide) (by decide) rfl
      (dateContribution_months hrest) (addTo_small hfirst hsmallmonths),
    ←List.append_nil (component d.days 'D'),
    unitLoop_component (f:=fun n => ⟨0,n,0,0⟩) d.days [] (by decide) (by decide) rfl
      (dateContribution_days hdays) (addTo_small hsmallsum hsmalldays),hsum]
  rfl

theorem readNanos_bounds (secs nanos : Int) :
    -1000000000< readNanos secs nanos ∧ readNanos secs nanos<1000000000 := by
  have hlt := (parseFracNanos_digits (allDigits_fracText nanos)).2
  unfold readNanos
  split_ifs
  · omega
  · omega
  · omega

theorem unitLoop_timeText {months days seconds : Int} (nanos : Int) (hmonths : |months|<2^53)
    (hdays : |days|<2^53) (hseconds : |seconds|<2^53) :
    unitLoop timeContribution ⟨months,days,0,0⟩ [] (timeText seconds nanos)=
      .ok ⟨months,days,seconds,readNanos ((seconds.tmod 3600).tmod 60) nanos⟩ := by
  have hhours := abs_parts_le seconds 3600
  have hminutes := abs_parts_le (seconds.tmod 3600) 60
  have hwhole := parts_toward_zero seconds 3600
  have hrest := parts_toward_zero (seconds.tmod 3600) 60
  have hH : |seconds.tdiv 3600|<2^53 := hhours.1.trans_lt hseconds
  have hM : |(seconds.tmod 3600).tdiv 60|<2^53 := (hminutes.1.trans hhours.2).trans_lt hseconds
  have hS : |(seconds.tmod 3600).tmod 60|<2^53 := (hminutes.2.trans hhours.2).trans_lt hseconds
  unfold timeText
  generalize seconds.tmod 3600=behind at hwhole hrest hM hS
  generalize seconds.tdiv 3600=hours at hwhole hH
  generalize behind.tdiv 60=minutes at hrest hM
  generalize behind.tmod 60=secs at hrest hS
  have bmonths := abs_lt.mp hmonths
  have bdays := abs_lt.mp hdays
  have bseconds := abs_lt.mp hseconds
  have bH := abs_lt.mp hH
  have bM := abs_lt.mp hM
  have bS := abs_lt.mp hS
  have bnanos := readNanos_bounds secs nanos
  have hsmallH : Small ⟨0,0,hours*3600,0⟩ := by
    simp only [Small]
    omega
  have hsmallM : Small ⟨0,0,minutes*60,0⟩ := by
    simp only [Small]
    omega
  have hsmallS : Small ⟨0,0,secs,readNanos secs nanos⟩ := by
    simp only [Small]
    omega
  have hstart : Small ⟨months,days,0,0⟩ := by
    simp only [Small]
    omega
  have hfirst : Small (plus ⟨months,days,0,0⟩ ⟨0,0,hours*3600,0⟩) := by
    simp only [Small,plus]
    omega
  have hsecond : Small (plus (plus ⟨months,days,0,0⟩ ⟨0,0,hours*3600,0⟩) ⟨0,0,minutes*60,0⟩) := by
    simp only [Small,plus]
    omega
  have hsum : plus (plus (plus ⟨months,days,0,0⟩ ⟨0,0,hours*3600,0⟩) ⟨0,0,minutes*60,0⟩)
      ⟨0,0,secs,readNanos secs nanos⟩=⟨months,days,seconds,readNanos secs nanos⟩ := by
    simp only [plus,CypherDuration.mk.injEq]
    omega
  have hcontributionH : timeContribution (intText hours) 'H'=.ok ⟨0,0,hours*3600,0⟩ :=
    clockContribution_whole hH (by omega)
  have hcontributionM : timeContribution (intText minutes) 'M'=.ok ⟨0,0,minutes*60,0⟩ :=
    clockContribution_whole hM (by omega)
  rw [List.append_assoc,
    unitLoop_component (f:=fun n => ⟨0,0,n*3600,0⟩) hours _ (by decide) (by decide) rfl
      hcontributionH (addTo_small hstart hsmallH),
    unitLoop_component (f:=fun n => ⟨0,0,n*60,0⟩) minutes _ (by decide) (by decide) rfl
      hcontributionM (addTo_small hfirst hsmallM),
    unitLoop_secondText hS (addTo_small hsecond hsmallS),hsum]

theorem mem_intText (h : c∈intText n) : c.isDigit=true ∨ c = '-' := by
  unfold intText at h
  split_ifs at h
  · cases List.mem_cons.mp h with
    | inl hminus => exact .inr hminus
    | inr hdigit => exact .inl (allDigits_toDigits _ c hdigit)
  · exact .inl (allDigits_toDigits _ c h)

theorem mem_component {c unit : Char} (h : c∈component n unit) : c.isDigit=true ∨ c = '-' ∨ c=unit := by
  unfold component at h
  split_ifs at h
  · cases List.mem_append.mp h with
    | inl hint => exact (mem_intText hint).imp_right .inl
    | inr hunit => exact .inr (.inr (List.mem_singleton.mp hunit))
  · cases h

theorem unit_mem_component (h : component n unit≠[]) : unit∈component n unit := by
  unfold component at h ⊢
  split_ifs at h ⊢
  · exact List.mem_append_right _ (List.mem_singleton.mpr rfl)
  · exact absurd rfl h

theorem mem_dateText (h : c∈dateText d) : c.isDigit=true ∨ c = '-' ∨ c = 'Y' ∨ c = 'M' ∨ c = 'D' := by
  unfold dateText at h
  cases List.mem_append.mp h with
  | inl hrest =>
    cases List.mem_append.mp hrest with
    | inl hyears => exact (mem_component hyears).imp_right (Or.imp_right .inl)
    | inr hmonths => exact (mem_component hmonths).imp_right (Or.imp_right (fun hM => .inr (.inl hM)))
  | inr hdays => exact (mem_component hdays).imp_right (Or.imp_right (fun hD => .inr (.inr hD)))

theorem isDateFormat_dateText (h : dateText d≠[]) : isDateFormat (dateText d)=false := by
  have hletter : ∃ c∈dateText d,c.isAlpha=true := by
    unfold dateText at h ⊢
    by_cases hdays : component d.days 'D'=[]
    · by_cases hmonths : component (d.months.tmod 12) 'M'=[]
      · by_cases hyears : component (d.months.tdiv 12) 'Y'=[]
        · rw [hdays,hmonths,hyears] at h
          exact absurd rfl h
        · exact ⟨'Y',List.mem_append_left _ (List.mem_append_left _ (unit_mem_component hyears)),rfl⟩
      · exact ⟨'M',List.mem_append_left _ (List.mem_append_right _ (unit_mem_component hmonths)),rfl⟩
    · exact ⟨'D',List.mem_append_right _ (unit_mem_component hdays),rfl⟩
  have hany : (dateText d).any Char.isAlpha=true := List.any_eq_true.mpr hletter
  rw [isDateFormat,hany,Bool.not_true,Bool.and_false]

theorem readDatePart_dateText (hmonths : |d.months|<2^53) (hdays : |d.days|<2^53) :
    readDatePart (dateText d)=.ok ⟨d.months,d.days,0,0⟩ := by
  have hloop := unitLoop_dateText hmonths hdays
  by_cases hnil : dateText d=[]
  · rw [hnil] at hloop ⊢
    exact hloop
  · have hform : ¬isDateFormat (dateText d)=true := by
      rw [isDateFormat_dateText hnil]
      decide
    rw [readDatePart,if_neg hnil,if_neg hform]
    exact hloop

theorem splitTime_display (d : CypherDuration) (time : List Char) :
    splitTime (dateText d)=(dateText d,none) ∧ splitTime (dateText d++ 'T'::time)=(dateText d,some time) := by
  have hupper : 'T'∉dateText d := by
    intro hmem
    have hor := mem_dateText hmem
    revert hor
    decide
  have hlower : 't'∉dateText d := by
    intro hmem
    have hor := mem_dateText hmem
    revert hor
    decide
  have hcut := cut_at time hupper
  have hmem : 'T'∈dateText d++ 'T'::time := List.mem_append_right _ List.mem_cons_self
  constructor
  · simp only [splitTime,splitAtChar,if_neg hupper,if_neg hlower,Option.or]
  · simp only [splitTime,splitAtChar,if_pos hmem,hcut.1,hcut.2,Option.or,List.drop_one,List.tail_cons]

theorem mem_secondText (h : c∈secondText secs nanos) : c.isDigit=true ∨ c = '-' ∨ c = '.' ∨ c = 'S' := by
  have hfraction : c∈ '.'::(fracText nanos++['S']) → c.isDigit=true ∨ c = '-' ∨ c = '.' ∨ c = 'S' := by
    intro hc
    cases List.mem_cons.mp hc with
    | inl hpoint => exact .inr (.inr (.inl hpoint))
    | inr hrest =>
      cases List.mem_append.mp hrest with
      | inl hdigit => exact .inl (allDigits_fracText nanos c hdigit)
      | inr hunit => exact .inr (.inr (.inr (List.mem_singleton.mp hunit)))
  unfold secondText at h
  split_ifs at h
  · cases List.mem_cons.mp h with
    | inl hminus => exact .inr (.inl hminus)
    | inr hrest =>
      cases List.mem_append.mp hrest with
      | inl hdigit => exact .inl (allDigits_toDigits _ c hdigit)
      | inr hfrac => exact hfraction hfrac
  · cases List.mem_append.mp h with
    | inl hint => exact (mem_intText hint).imp_right .inl
    | inr hfrac => exact hfraction hfrac
  · cases List.mem_append.mp h with
    | inl hint => exact (mem_intText hint).imp_right .inl
    | inr hunit => exact .inr (.inr (.inr (List.mem_singleton.mp hunit)))
  · cases h

theorem colon_notMem_timeText (seconds nanos : Int) : ':'∉timeText seconds nanos := by
  intro hmem
  unfold timeText at hmem
  cases List.mem_append.mp hmem with
  | inl hrest =>
    cases List.mem_append.mp hrest with
    | inl hhours =>
      have hor := mem_component hhours
      revert hor
      decide
    | inr hminutes =>
      have hor := mem_component hminutes
      revert hor
      decide
  | inr hsecs =>
    have hor := mem_secondText hsecs
    revert hor
    decide

theorem readTimePart_timeText {months days seconds nanos : Int} (hmonths : |months|<2^53)
    (hdays : |days|<2^53) (hseconds : |seconds|<2^53) :
    readTimePart ⟨months,days,0,0⟩ (some (timeText seconds nanos))=
      .ok ⟨months,days,seconds,readNanos ((seconds.tmod 3600).tmod 60) nanos⟩ := by
  have hloop := unitLoop_timeText nanos hmonths hdays hseconds
  by_cases hnil : timeText seconds nanos=[]
  · rw [hnil] at hloop ⊢
    exact hloop
  · rw [readTimePart,if_neg hnil,if_neg (colon_notMem_timeText seconds nanos)]
    exact hloop

theorem fromIsoString_display (hmonths : |d.months|<2^53) (hdays : |d.days|<2^53)
    (hseconds : |(adjusted d).1|<2^53) : fromIsoString (displayDuration d)=.ok
    ⟨d.months,d.days,(adjusted d).1, readNanos (((adjusted d).1.tmod 3600).tmod 60) (adjusted d).2⟩ := by
  have hdate := readDatePart_dateText hmonths hdays
  have htime := @readTimePart_timeText d.months d.days (adjusted d).1 (adjusted d).2 hmonths hdays hseconds
  have hwhole := parts_toward_zero d.months 12
  have hhours := parts_toward_zero (adjusted d).1 3600
  have hminutes := parts_toward_zero ((adjusted d).1.tmod 3600) 60
  have hp : ('P' : Char) = 'P' ∨ ('P' : Char) = 'p' := .inl rfl
  unfold displayDuration
  generalize (adjusted d).1=seconds at *
  generalize (adjusted d).2=nanos at *
  by_cases hnone : ¬(d.months.tdiv 12≠0 ∨ d.months.tmod 12≠0 ∨ d.days≠0) ∧
      ¬(seconds.tdiv 3600≠0 ∨ (seconds.tmod 3600).tdiv 60≠0 ∨ (seconds.tmod 3600).tmod 60≠0 ∨ nanos≠0)
  · have hm : d.months=0 := by omega
    have hd : d.days=0 := by omega
    have hs : seconds=0 := by omega
    have hn : nanos=0 := by omega
    simp only [if_pos hnone]
    rw [hm,hd,hs,hn]
    decide
  · simp only [if_neg hnone]
    by_cases hhas : seconds.tdiv 3600≠0 ∨ (seconds.tmod 3600).tdiv 60≠0 ∨ (seconds.tmod 3600).tmod 60≠0 ∨ nanos≠0
    · have hsplit := (splitTime_display d (timeText seconds nanos)).2
      rw [if_pos hhas]
      have htext : component (d.months.tdiv 12) 'Y'++component (d.months.tmod 12) 'M'++component d.days 'D'++
          'T'::(component (seconds.tdiv 3600) 'H'++component ((seconds.tmod 3600).tdiv 60) 'M'++
            secondText ((seconds.tmod 3600).tmod 60) nanos)=dateText d++ 'T'::timeText seconds nanos := rfl
      rw [htext,fromIsoString,if_pos hp]
      simp only [hsplit]
      rw [hdate]
      exact htime
    · have hsplit := (splitTime_display d []).1
      have hs : seconds=0 := by omega
      have hn : nanos=0 := by omega
      have hread : readNanos ((seconds.tmod 3600).tmod 60) nanos=0 := if_pos hn
      rw [if_neg hhas,List.append_nil]
      have htext : component (d.months.tdiv 12) 'Y'++component (d.months.tmod 12) 'M'++component d.days 'D'=
          dateText d := rfl
      rw [htext,fromIsoString,if_pos hp]
      simp only [hsplit]
      rw [hdate,hread,hs]
      rfl

theorem adjusted_clock (d : CypherDuration) : (adjusted d).1*1000000000+(adjusted d).2=d.clock := by
  unfold adjusted CypherDuration.clock
  split_ifs
  · simp only
    omega
  · simp only
    omega
  · rfl

/-- The nanoseconds that are read are those printed exactly when they stay below a
second and the sign in front of the seconds is theirs. -/
theorem readNanos_eq_iff (secs nanos : Int) :
    readNanos secs nanos=nanos ↔ (-1000000000<nanos ∧ nanos<1000000000) ∧
      ¬(secs<0 ∧ 0<nanos) ∧ ¬(0< secs ∧ nanos<0) := by
  have hbounds := readNanos_bounds secs nanos
  by_cases hsmall : -1000000000<nanos ∧ nanos<1000000000
  · have hdigits := @nineDigits_fracText nanos (by omega)
    unfold readNanos PrintedBack
    rw [hdigits]
    split_ifs with hzero hback
    · omega
    · omega
    · omega
  · omega

/-- Nanoseconds below a second and not against the seconds; or against them by
less than two seconds, and by no more than one unless the seconds are a second
beside whole minutes. -/
def Printable (d : CypherDuration) : Prop :=
  if d.seconds<0 ∧ 0<d.nanos then d.nanos≤1000000000 ∨ (d.nanos<2000000000 ∧ 60∣d.seconds+1)
  else if 0<d.seconds ∧ d.nanos<0 then -1000000000≤d.nanos ∨ (-2000000000<d.nanos ∧ 60∣d.seconds-1)
  else -1000000000<d.nanos ∧ d.nanos<1000000000

/-- The printed duration is read, and loses nothing. -/
def ReadsBack (d : CypherDuration) : Prop :=
  ∃ d',fromIsoString (displayDuration d)=.ok d' ∧ d'.months=d.months ∧ d'.days=d.days ∧ d'.clock=d.clock

theorem printable_iff (d : CypherDuration) :
    (-1000000000<(adjusted d).2 ∧ (adjusted d).2<1000000000) ∧
      ¬(((adjusted d).1.tmod 3600).tmod 60<0 ∧ 0<(adjusted d).2) ∧
      ¬(0<((adjusted d).1.tmod 3600).tmod 60 ∧ (adjusted d).2<0) ↔ Printable d := by
  have hhours := towardZero (adjusted d).1 3600
  have hminutes := towardZero ((adjusted d).1.tmod 3600) 60
  unfold Printable
  unfold adjusted at hhours hminutes ⊢
  split_ifs at hhours hminutes ⊢ with hback hforward
  · simp only at hhours hminutes ⊢
    omega
  · simp only at hhours hminutes ⊢
    omega
  · simp only at hhours hminutes ⊢
    omega

/-- A duration whose months, days and seconds floats hold is read back from its
text exactly when its nanoseconds stay below a second and do not lead against its
seconds, or lead against them by no more than a second, or by less than two from
a second beside whole minutes. -/
theorem readsBack_iff {d : CypherDuration} (hmonths : |d.months|<2^53) (hdays : |d.days|<2^53)
    (hseconds : |d.seconds|<2^53) : ReadsBack d ↔ Printable d := by
  have bseconds := abs_lt.mp hseconds
  have hadjusted : |(adjusted d).1|<2^53 := by
    rw [abs_lt]
    unfold adjusted
    split_ifs
    · simp only
      omega
    · simp only
      omega
    · exact bseconds
  have hdisplay := fromIsoString_display hmonths hdays hadjusted
  have hclock := adjusted_clock d
  rw [←printable_iff d,←readNanos_eq_iff]
  constructor
  · intro h
    have ⟨d',hread,_,_,hsame⟩ := h
    rw [hdisplay] at hread
    cases hread
    rw [←hclock] at hsame
    unfold CypherDuration.clock at hsame
    simp only at hsame
    omega
  · intro h
    refine ⟨_,hdisplay,rfl,rfl,?_⟩
    rw [h]
    exact hclock

/-- Half a second doubled is printed as a tenth of a second. -/
theorem readsBack_fails :
    integerMultiple ⟨0,0,0,500000000⟩ 2=.ok ⟨0,0,0,1000000000⟩ ∧
    displayDuration ⟨0,0,0,1000000000⟩=['P','T','0','.','1','S'] ∧
    fromIsoString ['P','T','0','.','1','S']=.ok ⟨0,0,0,100000000⟩ ∧ ¬ReadsBack ⟨0,0,0,1000000000⟩ := by
  have hdisplay : displayDuration ⟨0,0,0,1000000000⟩=['P','T','0','.','1','S'] := by decide
  have hread : fromIsoString ['P','T','0','.','1','S']=.ok ⟨0,0,0,100000000⟩ := by decide
  refine ⟨rfl,hdisplay,hread,fun h => ?_⟩
  have ⟨d',hread',_,_,hsame⟩ := h
  rw [hdisplay,hread] at hread'
  cases hread'
  exact absurd hsame (by decide)

/-- A second and a half back is read back from its text. -/
theorem readsBack_iff_back : ReadsBack ⟨14,-3,-2,500000000⟩ ↔ Printable ⟨14,-3,-2,500000000⟩ :=
  readsBack_iff (by decide) (by decide) (by decide)

end GraphDbLite.DurationRoundTrip
