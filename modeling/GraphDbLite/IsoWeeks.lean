import GraphDbLite.Calendar

/-!
# Weeks, ordinals and quarters of the calendar

Weeks begin on Mondays and belong to the year of their Thursday, so the year of
weeks begins with the week of the fourth of January and has 52 or 53 of them.
Days are also counted through a year and through a quarter. Every day has one
place in each of the three counts.
-/

namespace GraphDbLite.IsoWeeks

open Calendar

/-- Day of the week, Mondays zero. -/
@[grind] def weekday (number : Int) : Int := (number-1)%7

/-- The Monday of a week. -/
@[grind] def weekStart (number : Int) : Int := number-weekday number

/-- The first Monday of a year of weeks. -/
@[grind] def isoYearStart (year : Int) : Int := weekStart (yearStart year+4)

/-- Weeks of a year of weeks. -/
@[grind] def isoWeeks (year : Int) : Int := (isoYearStart (year+1)-isoYearStart year)/7

/-- The year of a date. -/
@[grind] def yearOf (d : Date) : Int := d.month/12

/-- The year of weeks of a date. -/
@[grind] def isoYear (d : Date) : Int :=
  if dayNumber d< isoYearStart (yearOf d) then yearOf d-1
  else if isoYearStart (yearOf d+1)≤dayNumber d then yearOf d+1
  else yearOf d

/-- The week of a date, from one. -/
@[grind] def isoWeek (d : Date) : Int := (dayNumber d-isoYearStart (isoYear d))/7+1

/-- The day number of a weekday of a week. -/
@[grind] def isoNumber (year week day : Int) : Int := isoYearStart year+(week-1)*7+day

/-- Days of a year. -/
@[grind] def yearLength (year : Int) : Int := yearStart (year+1)-yearStart year

/-- Day of the year, from one. -/
@[grind] def ordinal (d : Date) : Int := dayNumber d-yearStart (yearOf d)

/-- Day of the quarter, from one. -/
@[grind] def dayOfQuarter (d : Date) : Int := dayNumber d-monthStart (d.month/3*3)

theorem yearLength_bounds (year : Int) : 365≤yearLength year ∧ yearLength year≤366 := by
  unfold yearLength yearStart
  omega

theorem isoYearStart_near (year : Int) :
    yearStart year-2≤ isoYearStart year ∧ isoYearStart year≤yearStart year+4 := by
  unfold isoYearStart weekStart weekday
  omega

theorem isoYearStart_monday (year : Int) : (isoYearStart year-1)%7=0 := by
  unfold isoYearStart weekStart weekday
  omega

theorem isoWeeks_spec (year : Int) : isoYearStart (year+1)=isoYearStart year+7*isoWeeks year ∧
    (isoWeeks year=52 ∨ isoWeeks year=53) := by
  have hlength := yearLength_bounds year
  have hfirst := isoYearStart_near year
  have hnext := isoYearStart_near (year+1)
  have hmonday := isoYearStart_monday year
  have hmondayNext := isoYearStart_monday (year+1)
  unfold yearLength at hlength
  unfold isoWeeks
  omega

variable {a b year : Int} {d : Date}

theorem isoYearStart_gap (h : a<b) : isoYearStart (a+1)≤ isoYearStart b := by
  have hstep : a+1≤b := h
  induction b,hstep using Int.leInduction with
  | base => exact le_rfl
  | succ b hb ih =>
    have hprev := ih (by omega)
    have hweeks := isoWeeks_spec b
    omega

theorem monthStart_year (year : Int) : monthStart (12*year)=yearStart year := by
  have hdiv : 12*year/12=year := by omega
  have hmod : 12*year%12=0 := by omega
  unfold monthStart monthOffset
  rw [hdiv,hmod]
  omega

theorem monthStart_le (h : a≤b) : monthStart a≤ monthStart b := by
  rcases eq_or_lt_of_le h with heq | hlt
  · rw [heq]
  · have hgap := monthStart_gap hlt
    have hlength := monthLength_bounds a
    omega

theorem dayNumber_year (d : Date) : yearStart (yearOf d)<dayNumber d ∧ dayNumber d≤yearStart (yearOf d+1) := by
  have hfirst := d.first
  have hlast := d.last
  have hbefore : monthStart (12*yearOf d)≤ monthStart d.month := monthStart_le (by unfold yearOf; omega)
  have hafter : monthStart d.month+monthLength d.month≤ monthStart (12*(yearOf d+1)) :=
    monthStart_gap (by unfold yearOf; omega)
  rw [monthStart_year] at hbefore hafter
  unfold dayNumber
  omega

theorem dayNumber_isoYear (d : Date) :
    isoYearStart (isoYear d)≤dayNumber d ∧ dayNumber d< isoYearStart (isoYear d+1) := by
  have hyear := dayNumber_year d
  have hbefore := isoYearStart_near (yearOf d-1)
  have hsecond := isoYearStart_near (yearOf d+1+1)
  have hlength := yearLength_bounds (yearOf d-1)
  have hlengthAfter := yearLength_bounds (yearOf d+1)
  unfold yearLength at hlength hlengthAfter
  have hsame : yearOf d-1+1=yearOf d := by omega
  rw [hsame] at hlength
  unfold isoYear
  split_ifs with hearly hlate
  · rw [hsame]
    omega
  · omega
  · omega

theorem isoYear_eq (h : isoYearStart year≤dayNumber d ∧ dayNumber d< isoYearStart (year+1)) : isoYear d=year := by
  have hspec := dayNumber_isoYear d
  rcases lt_trichotomy (isoYear d) year with hlt | heq | hgt
  · have hgap := isoYearStart_gap hlt
    omega
  · exact heq
  · have hgap := isoYearStart_gap hgt
    omega

theorem isoNumber_self (d : Date) : isoNumber (isoYear d) (isoWeek d) (weekday (dayNumber d))=dayNumber d := by
  have hmonday := isoYearStart_monday (isoYear d)
  unfold isoNumber isoWeek weekday
  omega

theorem isoWeek_bounds (d : Date) : 1≤ isoWeek d ∧ isoWeek d≤ isoWeeks (isoYear d) := by
  have hspec := dayNumber_isoYear d
  have hweeks := isoWeeks_spec (isoYear d)
  unfold isoWeek
  omega

theorem of_isoNumber {week day : Int} (hweek : 1≤ week ∧ week≤ isoWeeks year) (hday : 0≤day ∧ day<7)
    (h : dayNumber d=isoNumber year week day) : isoYear d=year ∧ isoWeek d=week ∧ weekday (dayNumber d)=day := by
  have hmonday := isoYearStart_monday year
  have hweeks := isoWeeks_spec year
  unfold isoNumber at h
  have hyear : isoYear d=year := isoYear_eq (by omega)
  refine ⟨hyear,?_,?_⟩
  · unfold isoWeek
    rw [hyear]
    omega
  · unfold weekday
    omega

theorem ordinal_bounds (d : Date) : 1≤ordinal d ∧ ordinal d≤yearLength (yearOf d) := by
  have hyear := dayNumber_year d
  unfold ordinal yearLength
  omega

theorem yearStart_gap (h : a<b) : yearStart (a+1)≤yearStart b := by
  unfold yearStart
  omega

theorem of_ordinal {day : Int} (hday : 1≤day ∧ day≤yearLength year) (h : dayNumber d=yearStart year+day) :
    yearOf d=year ∧ ordinal d=day := by
  have hspec := dayNumber_year d
  have hbelow : dayNumber d≤yearStart (year+1) := by
    unfold yearLength at hday
    omega
  have hyear : yearOf d=year := by
    rcases lt_trichotomy (yearOf d) year with hlt | heq | hgt
    · have hgap := yearStart_gap hlt
      omega
    · exact heq
    · have hgap := yearStart_gap hgt
      omega
  refine ⟨hyear,?_⟩
  unfold ordinal
  rw [hyear]
  omega

/-- Days of a quarter. -/
@[grind] def quarterLength (quarter : Int) : Int := monthStart (quarter*3+3)-monthStart (quarter*3)

theorem dayOfQuarter_bounds (d : Date) : 1≤dayOfQuarter d ∧ dayOfQuarter d≤quarterLength (d.month/3) := by
  have hfirst := d.first
  have hlast := d.last
  have hbefore : monthStart (d.month/3*3)≤ monthStart d.month := monthStart_le (by omega)
  have hafter : monthStart d.month+monthLength d.month≤ monthStart (d.month/3*3+3) :=
    monthStart_gap (by omega)
  unfold dayOfQuarter quarterLength dayNumber
  omega

theorem of_dayOfQuarter {d : Date} {quarter day : Int} (hday : 1≤day ∧ day≤quarterLength quarter)
    (h : dayNumber d=monthStart (quarter*3)+day) : d.month/3=quarter ∧ dayOfQuarter d=day := by
  have hspec := dayOfQuarter_bounds d
  unfold quarterLength dayOfQuarter at hspec
  unfold quarterLength at hday
  have hquarter : d.month/3=quarter := by
    rcases lt_trichotomy (d.month/3) quarter with hlt | heq | hgt
    · have hgap : monthStart (d.month/3*3+3)≤ monthStart (quarter*3) := monthStart_le (by omega)
      omega
    · exact heq
    · have hgap : monthStart (quarter*3+3)≤ monthStart (d.month/3*3) := monthStart_le (by omega)
      omega
  refine ⟨hquarter,?_⟩
  unfold dayOfQuarter
  rw [hquarter]
  omega

end GraphDbLite.IsoWeeks
