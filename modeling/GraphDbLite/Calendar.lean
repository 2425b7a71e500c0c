import Mathlib.Data.Int.Init
import Mathlib.Order.Monotone.Basic
import Mathlib.Logic.Function.Iterate
import Mathlib.Tactic.IntervalCases
import Mathlib.Tactic.Linarith

/-!
# The proleptic Gregorian calendar

Months are numbered through, twelve to a year, and a date is a day of a numbered
month. Every date has a day number; consecutive months follow each other without
a gap, so dates are ordered as their day numbers. Moving a date by months keeps
the day or takes the last day of a shorter month, moving it by days changes the
day number by that many.
-/

namespace GraphDbLite.Calendar

/-- Years with a leap day. -/
@[grind] def Leap (year : Int) : Prop := year%4=0 ∧ (year%100≠0 ∨ year%400=0)

/-- The rule can be evaluated. -/
instance leapDecidable (year : Int) : Decidable (Leap year) := inferInstanceAs (Decidable (_ ∧ _))

/-- Days before the first of January. -/
@[grind] def yearStart (year : Int) : Int := 365*(year-1)+(year-1)/4-(year-1)/100+(year-1)/400

/-- Days of a year before a month, counted from zero: from March on five months
in a row have 153 days. -/
@[grind] def monthOffset (year month : Int) : Int :=
  if month<2 then 31*month else (153*(month-2)+2)/5+59+if Leap year then 1 else 0

/-- Days before the first of a numbered month. -/
@[grind] def monthStart (index : Int) : Int := yearStart (index/12)+monthOffset (index/12) (index%12)

/-- Days of a numbered month. -/
@[grind] def monthLength (index : Int) : Int :=
  if index%12=1 then if Leap (index/12) then 29 else 28
  else if index%12=3 ∨ index%12=5 ∨ index%12=8 ∨ index%12=10 then 30
  else 31

theorem monthLength_bounds (index : Int) : 28≤ monthLength index ∧ monthLength index≤31 := by
  unfold monthLength
  split_ifs <;> omega

theorem monthStart_succ (index : Int) : monthStart (index+1)=monthStart index+monthLength index := by
  have hm : 0≤ index%12 ∧ index%12<12 := by omega
  by_cases hlast : index%12=11
  · have hyear : (index+1)/12=index/12+1 := by omega
    have hmonth : (index+1)%12=0 := by omega
    unfold monthStart monthLength monthOffset yearStart
    rw [hyear,hmonth,hlast]
    by_cases hleap : Leap (index/12)
    · rw [if_pos hleap]
      unfold Leap at hleap
      simp only [Int.reduceLT,if_true,if_false,Int.reduceEq,or_self,Int.reduceSub,Int.reduceMul,
        Int.reduceAdd,Int.reduceDiv]
      omega
    · rw [if_neg hleap]
      unfold Leap at hleap
      simp only [Int.reduceLT,if_true,if_false,Int.reduceEq,or_self,Int.reduceSub,Int.reduceMul,
        Int.reduceAdd,Int.reduceDiv]
      omega
  · have hyear : (index+1)/12=index/12 := by omega
    have hmonth : (index+1)%12=index%12+1 := by omega
    unfold monthStart monthLength
    rw [hyear,hmonth,Int.add_assoc]
    congr 1
    have hlow := hm.1
    have hhigh : index%12≤10 := by omega
    generalize index%12=month at hlow hhigh ⊢
    generalize index/12=year
    by_cases hleap : Leap year
    · interval_cases month <;> simp [monthOffset,hleap]
    · interval_cases month <;> simp [monthOffset,hleap]

theorem monthStart_gap {a b : Int} (h : a<b) : monthStart a+monthLength a≤ monthStart b := by
  have hstep : a+1≤b := h
  induction b,hstep using Int.leInduction with
  | base => exact (monthStart_succ a).ge
  | succ b hb ih =>
    have hlen := monthLength_bounds b
    rw [monthStart_succ b]
    have hprev := ih (by omega)
    omega

/-- A day of a numbered month. -/
structure Date where
  /-- Number of the month: twelve times the year, plus the month from zero. -/
  month : Int
  /-- Day of the month. -/
  day : Int
  /-- Days count from one. -/
  first : 1≤day
  /-- The month has the day. -/
  last : day≤ monthLength month
  deriving DecidableEq

/-- Days up to and including a date. -/
@[grind] def dayNumber (d : Date) : Int := monthStart d.month+d.day

theorem dayNumber_lt_of_month {a b : Date} (h : a.month<b.month) : dayNumber a<dayNumber b := by
  have hgap := monthStart_gap h
  have hlast := a.last
  have hfirst := b.first
  unfold dayNumber
  omega

theorem month_eq_of_dayNumber {a b : Date} (h : dayNumber a=dayNumber b) : a.month=b.month := by
  rcases lt_trichotomy a.month b.month with hlt | heq | hgt
  · have hnum := dayNumber_lt_of_month hlt
    omega
  · exact heq
  · have hnum := dayNumber_lt_of_month hgt
    omega

theorem Date.eq_of {a b : Date} (hmonth : a.month=b.month) (hday : a.day=b.day) : a=b := by
  cases a with
  | mk month day first last =>
    cases b with
    | mk month' day' first' last' =>
      simp only at hmonth hday
      cases hmonth
      cases hday
      rfl

theorem dayNumber_inj {a b : Date} : dayNumber a=dayNumber b ↔ a=b := by
  constructor
  · intro h
    have hmonth := month_eq_of_dayNumber h
    refine Date.eq_of hmonth ?_
    unfold dayNumber at h
    rw [hmonth] at h
    omega
  · intro h
    rw [h]

/-- Move a date by months, to the last day where the month is too short. -/
@[grind] def moveMonths (d : Date) (months : Int) : Date where
  month := d.month+months
  day := min d.day (monthLength (d.month+months))
  first := le_min d.first (by have h := monthLength_bounds (d.month+months); omega)
  last := min_le_right _ _

/-- Moving by no months changes nothing. -/
@[simp] theorem moveMonths_zero (d : Date) : moveMonths d 0=d := by
  have hmonth : d.month+0=d.month := Int.add_zero d.month
  refine Date.eq_of hmonth ?_
  have hlast := d.last
  simp only [moveMonths,hmonth]
  exact min_eq_left hlast

theorem first_le : (1 : Int)≤1 := le_rfl

/-- The day after a date. -/
@[grind] def nextDay (d : Date) : Date :=
  if h : d.day< monthLength d.month then
    ⟨d.month,d.day+1,by have hf := d.first; omega,h⟩
  else ⟨d.month+1,1,le_rfl,by have hl := monthLength_bounds (d.month+1); omega⟩

/-- The day before a date. -/
@[grind] def prevDay (d : Date) : Date :=
  if h : 1<d.day then
    ⟨d.month,d.day-1,by omega,by have hl := d.last; omega⟩
  else ⟨d.month-1,monthLength (d.month-1),by have hl := monthLength_bounds (d.month-1); omega,le_rfl⟩

theorem dayNumber_nextDay (d : Date) : dayNumber (nextDay d)=dayNumber d+1 := by
  have hlast := d.last
  unfold nextDay
  split_ifs with h
  · simp only [dayNumber]
    omega
  · simp only [dayNumber]
    rw [monthStart_succ]
    omega

theorem dayNumber_prevDay (d : Date) : dayNumber (prevDay d)=dayNumber d-1 := by
  have hfirst := d.first
  unfold prevDay
  split_ifs with h
  · simp only [dayNumber]
    omega
  · simp only [dayNumber]
    have hsucc := monthStart_succ (d.month-1)
    rw [sub_add_cancel] at hsucc
    omega

/-- Move a date by days. -/
@[grind] def moveDays (d : Date) : Int → Date
  | .ofNat n => nextDay^[n] d
  | .negSucc n => prevDay^[n+1] d

theorem dayNumber_moveDays (d : Date) (days : Int) : dayNumber (moveDays d days)=dayNumber d+days := by
  have hforward : ∀ n : Nat,dayNumber (nextDay^[n] d)=dayNumber d+n := by
    intro n
    induction n with
    | zero => simp
    | succ n ih =>
      rw [Function.iterate_succ_apply',dayNumber_nextDay,ih]
      omega
  have hback : ∀ n : Nat,dayNumber (prevDay^[n] d)=dayNumber d-n := by
    intro n
    induction n with
    | zero => simp
    | succ n ih =>
      rw [Function.iterate_succ_apply',dayNumber_prevDay,ih]
      omega
  cases days with
  | ofNat n => exact hforward n
  | negSucc n =>
    have hn := hback (n+1)
    simp only [moveDays]
    rw [hn]
    omega

theorem moveDays_eq {d e : Date} {days : Int} (h : dayNumber d+days=dayNumber e) : moveDays d days=e := by
  apply dayNumber_inj.mp
  rw [dayNumber_moveDays,h]

/-- Months that a date can be moved towards another one without passing it. -/
@[grind] def wholeMonths (a b : Date) : Int :=
  if 0<b.month-a.month ∧ dayNumber b<dayNumber (moveMonths a (b.month-a.month)) then b.month-a.month-1
  else if b.month-a.month<0 ∧ dayNumber (moveMonths a (b.month-a.month))<dayNumber b then
    b.month-a.month+1
  else b.month-a.month

/-- Days left to the other date after the whole months. -/
@[grind] def restDays (a b : Date) : Int := dayNumber b-dayNumber (moveMonths a (wholeMonths a b))

/-- A moved date is in the month it was moved to. -/
@[simp] theorem moveMonths_month (d : Date) (months : Int) : (moveMonths d months).month=d.month+months := rfl

theorem restDays_sign (a b : Date) :
    (0< wholeMonths a b → 0≤ restDays a b) ∧ (wholeMonths a b<0 → restDays a b≤0) := by
  unfold restDays wholeMonths
  split_ifs with hover hunder
  · have hmonth : (moveMonths a (b.month-a.month-1)).month<b.month := by
      rw [moveMonths_month]
      omega
    have hlt := dayNumber_lt_of_month hmonth
    constructor <;> intro h <;> omega
  · have hmonth : b.month<(moveMonths a (b.month-a.month+1)).month := by
      rw [moveMonths_month]
      omega
    have hlt := dayNumber_lt_of_month hmonth
    constructor <;> intro h <;> omega
  · constructor <;> intro h <;> omega

end GraphDbLite.Calendar
