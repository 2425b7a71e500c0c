import Mathlib.Data.List.DropRight
import GraphDbLite.DurationText

/-!
# What a duration text says

A part of units is cut into numbers with their letters and a rest behind the
last letter, which the loops drop. The colon form looks at no field behind the
third, and a text without any component counts as nothing. A text is read as
what it says exactly when no digit is in a dropped rest, no field is left over
and some component is there.
-/

namespace GraphDbLite.DurationReading

open TemporalValues DurationText

/-- A number, its unit and what it adds. -/
structure Component where
  /-- Text of the number. -/
  number : List Char
  /-- Letter behind it. -/
  unit : Char
  /-- What the two contribute. -/
  amount : CypherDuration

/-- Text of a component. -/
def Component.text (c : Component) : List Char := c.number++[c.unit]

/-- Sum of the amounts. -/
def total (comps : List Component) : CypherDuration :=
  comps.foldr (fun c sum => plus c.amount sum) noDuration

/-- Digits and points behind an optional minus sign. -/
def IsNumber (chars : List Char) : Prop :=
  ∃ sign digits, chars=sign++digits ∧ (sign=[] ∨ sign=['-']) ∧ digits.all isNumberChar=true

/-- A part is numbers with their units in order, and a rest without a unit. -/
structure Components (contribution : List Char → Char → Reading CypherDuration) (part : List Char)
    (comps : List Component) (rest : List Char) : Prop where
  /-- Nothing of the part is left out. -/
  covers : part=comps.flatMap Component.text++rest
  /-- Each number is one. -/
  numbers : ∀ c∈comps,IsNumber c.number
  /-- Each amount is what the code adds for its number and unit. -/
  contributes : ∀ c∈comps,contribution c.number c.unit=.ok c.amount
  /-- The rest would be a number too. -/
  rest : IsNumber rest

theorem isNumber_nil : IsNumber [] := ⟨[],[],rfl,.inl rfl,rfl⟩

variable {num : List Char} {contribution : List Char → Char → Reading CypherDuration} {unit : Char}
variable {c : Char} {part : CypherDuration} {comps : List Component}

theorem isNumber_push (hnum : IsNumber num) (hc : (num=[] ∧ c = '-') ∨ isNumberChar c=true) : IsNumber (num++[c]) := by
  cases hc with
  | inl hsign => exact ⟨['-'],[],by simp [hsign.1,hsign.2],.inr rfl,rfl⟩
  | inr hdigit =>
    have ⟨sign,digits,heq,hsign,hdigits⟩ := hnum
    have hall : (digits++[c]).all isNumberChar=true := by simp [List.all_append,hdigits,hdigit]
    exact ⟨sign,digits++[c],by rw [heq,List.append_assoc],hsign,hall⟩

theorem isAlpha_of_mem_number (hnum : IsNumber num) (hc : c∈num) : c.isAlpha=false := by
  have ⟨sign,digits,heq,hsign,hdigits⟩ := hnum
  rw [heq,List.mem_append] at hc
  cases hc with
  | inl hs =>
    cases hsign with
    | inl hempty => rw [hempty] at hs; cases hs
    | inr hminus =>
      rw [hminus,List.mem_singleton] at hs
      rw [hs]
      rfl
  | inr hd =>
    have hnumber := List.all_eq_true.mp hdigits c hd
    simp only [isNumberChar,Bool.or_eq_true,decide_eq_true_eq] at hnumber
    cases hnumber with
    | inl hdigit =>
      simp only [Char.isDigit,Bool.and_eq_true,decide_eq_true_eq] at hdigit
      have halpha : c.isAlpha=(decide (c.val≥ 'A'.val ∧ c.val≤ 'Z'.val) || (c.val≥ 'a'.val && c.val≤ 'z'.val)) := rfl
      simp only [halpha,Bool.or_eq_false_iff,Bool.and_eq_false_iff,decide_eq_false_iff_not,ge_iff_le,
        UInt32.le_iff_toNat_le] at hdigit ⊢
      have h9 : '9'.val.toNat=57 := rfl
      have hA : 'A'.val.toNat=65 := rfl
      have ha : 'a'.val.toNat=97 := rfl
      omega
    | inr hpoint => rw [hpoint]; rfl

theorem unitLoop_components {chars num : List Char} {sum d : CypherDuration} (hnum : IsNumber num)
    (h : unitLoop contribution sum num chars=.ok d) :
    ∃ comps rest,Components contribution (num++chars) comps rest ∧ d=plus sum (total comps) := by
  induction chars generalizing num sum with
  | nil =>
    cases h
    have hparts : Components contribution (num++[]) [] num :=
      ⟨by simp,fun _ hc => (nomatch hc),fun _ hc => (nomatch hc),hnum⟩
    exact ⟨[],num,hparts,(plus_noDuration d).symm⟩
  | cons c chars ih =>
    rw [unitLoop] at h
    by_cases hc : (num=[] ∧ c = '-') ∨ isNumberChar c=true
    · rw [if_pos hc] at h
      have ⟨comps,rest,hparts,hd⟩ := ih (isNumber_push hnum hc) h
      rw [List.append_assoc] at hparts
      exact ⟨comps,rest,hparts,hd⟩
    · rw [if_neg hc] at h
      have ⟨part,hpart,h⟩ := bind_ok.mp h
      have ⟨next,hnext,h⟩ := bind_ok.mp h
      have ⟨comps,rest,hparts,hd⟩ := ih isNumber_nil h
      have hall : Components contribution (num++c::chars) (⟨num,c,part⟩::comps) rest := by
        refine ⟨?_,?_,?_,hparts.rest⟩
        · have hcovers : chars=comps.flatMap Component.text++rest := hparts.covers
          rw [hcovers]
          simp [Component.text]
        · intro x hx
          cases List.mem_cons.mp hx with
          | inl heq => rw [heq]; exact hnum
          | inr hmem => exact hparts.numbers x hmem
        · intro x hx
          cases List.mem_cons.mp hx with
          | inl heq => rw [heq]; exact hpart
          | inr hmem => exact hparts.contributes x hmem
      have hsum : d=plus sum (total (⟨num,c,part⟩::comps)) := by
        rw [hd,addTo_ok hnext,plus_assoc]
        rfl
      exact ⟨⟨num,c,part⟩::comps,rest,hall,hsum⟩

theorem isAlpha_of_toUpper {u : Char} (h : c.toUpper=u) (hu : u.isAlpha=true) : c.isAlpha=true := by
  by_cases hc : 'a'.val≤c.val ∧ c.val≤ 'z'.val
  · have halpha : c.isAlpha=(c.isUpper || (c.val≥ 'a'.val && c.val≤ 'z'.val)) := rfl
    simp only [halpha,Bool.or_eq_true,Bool.and_eq_true,decide_eq_true_eq]
    exact .inr hc
  · have heq : c.toUpper=c := dif_neg hc
    rw [←heq,h]
    exact hu

theorem isAlpha_dateUnit (h : dateContribution num unit=.ok part) : unit.isAlpha=true := by
  have ⟨n,_,h⟩ := bind_ok.mp h
  simp only [] at h
  split at h
  · next hu => exact isAlpha_of_toUpper hu rfl
  · next hu => exact isAlpha_of_toUpper hu rfl
  · next hu => exact isAlpha_of_toUpper hu rfl
  · next hu => exact isAlpha_of_toUpper hu rfl
  · cases h

theorem isAlpha_timeUnit (h : timeContribution num unit=.ok part) : unit.isAlpha=true := by
  unfold timeContribution at h
  split at h
  · next hu => exact isAlpha_of_toUpper hu rfl
  · next hu => exact isAlpha_of_toUpper hu rfl
  · next hu => exact isAlpha_of_toUpper hu rfl
  · cases h

/-- Text behind the last letter. -/
def behindLetters (part : List Char) : List Char := part.rtakeWhile fun c => !c.isAlpha

theorem behindLetters_append {before rest : List Char} (hunit : unit.isAlpha=true)
    (hrest : ∀ c∈rest,c.isAlpha=false) : behindLetters (before++unit::rest)=rest := by
  have hkeep : ∀ c∈rest.reverse,(!c.isAlpha)=true := by
    intro c hc
    rw [hrest c (List.mem_reverse.mp hc)]
    rfl
  have hstop : ¬(!unit.isAlpha)=true := by
    rw [hunit]
    decide
  have hcut : (before++unit::rest).reverse=rest.reverse++unit::before.reverse := by simp
  have htake := @List.takeWhile_append_of_pos Char (fun c => !c.isAlpha) rest.reverse
    (unit::before.reverse) hkeep
  have hnone := @List.takeWhile_cons_of_neg Char (fun c => !c.isAlpha) unit before.reverse hstop
  rw [hnone,List.append_nil] at htake
  rw [behindLetters,List.rtakeWhile,hcut,htake,List.reverse_reverse]

theorem behindLetters_components {part rest : List Char} (hparts : Components contribution part comps rest)
    (hunits : ∀ c∈comps,c.unit.isAlpha=true) : behindLetters part=rest := by
  have hrest : ∀ c∈rest,c.isAlpha=false := fun c hc => isAlpha_of_mem_number hparts.rest hc
  have hcovers : part=comps.flatMap Component.text++rest := hparts.covers
  cases comps.eq_nil_or_concat with
  | inl hnil =>
    rw [hnil,List.flatMap_nil,List.nil_append] at hcovers
    rw [hcovers]
    exact List.rtakeWhile_eq_self_iff.mpr (fun c hc => by rw [hrest c hc]; rfl)
  | inr hconcat =>
    have ⟨init,last,heq⟩ := hconcat
    have hlast : last.unit.isAlpha=true := hunits last (by rw [heq]; simp)
    have hpart : part=(init.flatMap Component.text++last.number)++last.unit::rest := by
      rw [hcovers,heq]
      simp [Component.text]
    rw [hpart]
    exact behindLetters_append hlast hrest

theorem any_isAlpha_components {part rest : List Char} (hparts : Components contribution part comps rest)
    (hunits : ∀ c∈comps,c.unit.isAlpha=true) : part.any Char.isAlpha=true ↔ 0<comps.length := by
  rw [hparts.covers,List.any_append,Bool.or_eq_true]
  constructor
  · intro h
    cases h with
    | inl hcomp =>
      have ⟨c,hc,_⟩ := List.any_eq_true.mp hcomp
      have ⟨comp,hcomp,_⟩ := List.mem_flatMap.mp hc
      exact List.length_pos_of_mem hcomp
    | inr hrest =>
      have ⟨c,hc,halpha⟩ := List.any_eq_true.mp hrest
      rw [isAlpha_of_mem_number hparts.rest hc] at halpha
      cases halpha
  · intro h
    have ⟨comp,hcomp⟩ := List.exists_mem_of_length_pos h
    have hmem : comp.unit∈comps.flatMap Component.text := by
      rw [List.mem_flatMap]
      exact ⟨comp,hcomp,by simp [Component.text]⟩
    exact .inl (List.any_eq_true.mpr ⟨comp.unit,hmem,hunits comp hcomp⟩)

/-- The loop reads a part of units up to a rest without digits. -/
def UnitReads (contribution : List Char → Char → Reading CypherDuration) (part : List Char) (count : ℕ)
    (d : CypherDuration) : Prop :=
  ∃ comps rest,Components contribution part comps rest ∧ (∀ c∈rest,c.isDigit=false) ∧
    count=comps.length ∧ d=total comps

/-- The three fields of the date form. -/
def DateFormReads (part : List Char) (count : ℕ) (d : CypherDuration) : Prop :=
  ∃ year month day y m n,part.splitOn '-'=[year,month,day] ∧ parseI64 year=.ok y ∧
    parseI64 month=.ok m ∧ parseI64 day=.ok n ∧ count=3 ∧ d=⟨y*12+m,n,0,0⟩

/-- Hours and minutes, and seconds behind them, are all fields of the colon form. -/
def ColonReads (chars : List Char) (count : ℕ) (d : CypherDuration) : Prop :=
  ∃ hour minute h m,parseI64 hour=.ok h ∧ parseI64 minute=.ok m ∧
    ((chars.splitOn ':'=[hour,minute] ∧ count=2 ∧ d=⟨0,0,h*3600+m*60,0⟩) ∨
      ∃ second part,chars.splitOn ':'=[hour,minute,second] ∧ secondField second=.ok part ∧
        count=3 ∧ d=plus ⟨0,0,h*3600+m*60,0⟩ part)

/-- What the date part says, in so many components. -/
def DateReads (part : List Char) (count : ℕ) (d : CypherDuration) : Prop :=
  if isDateFormat part=true then DateFormReads part count d else UnitReads dateContribution part count d

/-- What the time part says, in so many components. -/
def TimeReads (chars : List Char) (count : ℕ) (d : CypherDuration) : Prop :=
  if ':'∈chars then ColonReads chars count d else UnitReads timeContribution chars count d

/-- Every digit of the text is in a component of its part, there is one, and the
duration is the sum of what all of them say. -/
def ReadsAll (s : List Char) (d : CypherDuration) : Prop :=
  ∃ c body,s=c::body ∧ (c = 'P' ∨ c = 'p') ∧ ∃ n k a b,DateReads (splitTime body).1 n a ∧
    TimeReads ((splitTime body).2.getD []) k b ∧ 0<n+k ∧ d=plus a b

/-- The date part has the date form, or no digit behind its last letter. -/
def DateWhole (part : List Char) : Prop :=
  isDateFormat part=true ∨ ∀ c∈behindLetters part,c.isDigit=false

/-- The time part has at most three fields between colons, or without colons no
digit behind its last letter. -/
def TimeWhole (chars : List Char) : Prop :=
  if ':'∈chars then (chars.splitOn ':').length≤3 else ∀ c∈behindLetters chars,c.isDigit=false

/-- The date part has a component. -/
def HasDate (part : List Char) : Prop := isDateFormat part=true ∨ part.any Char.isAlpha=true

/-- The time part has a component. -/
def HasTime (chars : List Char) : Prop := ':'∈chars ∨ chars.any Char.isAlpha=true

/-- The text drops nothing and has a component. -/
def Whole : List Char → Prop
  | [] => False
  | _::body => DateWhole (splitTime body).1 ∧ TimeWhole ((splitTime body).2.getD []) ∧
    (HasDate (splitTime body).1 ∨ HasTime ((splitTime body).2.getD []))

section Units

variable {contribution : List Char → Char → Reading CypherDuration}
  (hletters : ∀ num unit part,contribution num unit=.ok part → unit.isAlpha=true)
include hletters

theorem whole_of_unitReads {part : List Char} {n : ℕ} {d : CypherDuration}
    (h : UnitReads contribution part n d) :
    (∀ c∈behindLetters part,c.isDigit=false) ∧ (0<n ↔ part.any Char.isAlpha=true) := by
  have ⟨comps,rest,hparts,hdigits,hn,_⟩ := h
  have hunits : ∀ c∈comps,c.unit.isAlpha=true :=
    fun c hc => hletters c.number c.unit c.amount (hparts.contributes c hc)
  have hbehind := behindLetters_components hparts hunits
  have hany := any_isAlpha_components hparts hunits
  rw [hbehind,hn]
  exact ⟨hdigits,hany.symm⟩

theorem unitReads_of_whole {part : List Char} {sum d : CypherDuration}
    (h : unitLoop contribution sum [] part=.ok d) (hwhole : ∀ c∈behindLetters part,c.isDigit=false) :
    ∃ n b,UnitReads contribution part n b ∧ d=plus sum b := by
  have ⟨comps,rest,hparts,hd⟩ := unitLoop_components isNumber_nil h
  rw [List.nil_append] at hparts
  have hunits : ∀ c∈comps,c.unit.isAlpha=true :=
    fun c hc => hletters c.number c.unit c.amount (hparts.contributes c hc)
  rw [behindLetters_components hparts hunits] at hwhole
  exact ⟨comps.length,total comps,⟨comps,rest,hparts,hwhole,rfl,rfl⟩,hd⟩

end Units

variable {d : CypherDuration} {chars : List Char}
variable {part s : List Char} {n : ℕ} {sum d : CypherDuration}

theorem whole_of_dateReads (h : DateReads part n d) : DateWhole part ∧ (0<n ↔ HasDate part) := by
  unfold DateReads at h
  by_cases hform : isDateFormat part=true
  · rw [if_pos hform] at h
    have ⟨_,_,_,_,_,_,_,_,_,_,hn,_⟩ := h
    have hpos : 0<n := by omega
    exact ⟨.inl hform,fun _ => .inl hform,fun _ => hpos⟩
  · rw [if_neg hform] at h
    have ⟨hdigits,hn⟩ := whole_of_unitReads (fun _ _ _ => isAlpha_dateUnit) h
    exact ⟨.inr hdigits,fun hpos => .inr (hn.mp hpos),
      fun hhas => hn.mpr (hhas.resolve_left hform)⟩

theorem whole_of_timeReads (h : TimeReads chars n d) : TimeWhole chars ∧ (0<n ↔ HasTime chars) := by
  unfold TimeReads at h
  by_cases hcolon : ':'∈chars
  · rw [if_pos hcolon] at h
    have ⟨hour,minute,_,_,_,_,hfields⟩ := h
    have hlength : (chars.splitOn ':').length≤3 ∧ 0<n := by
      cases hfields with
      | inl htwo =>
        have hlen : (chars.splitOn ':').length=2 := by rw [htwo.1]; rfl
        omega
      | inr hthree =>
        have ⟨_,_,heq,_,hn,_⟩ := hthree
        have hlen : (chars.splitOn ':').length=3 := by rw [heq]; rfl
        omega
    have hwhole : TimeWhole chars := by
      rw [TimeWhole,if_pos hcolon]
      exact hlength.1
    exact ⟨hwhole,fun _ => .inl hcolon,fun _ => hlength.2⟩
  · rw [if_neg hcolon] at h
    have ⟨hdigits,hn⟩ := whole_of_unitReads (fun _ _ _ => isAlpha_timeUnit) h
    have hwhole : TimeWhole chars := by
      rw [TimeWhole,if_neg hcolon]
      exact hdigits
    exact ⟨hwhole,fun hpos => .inr (hn.mp hpos),fun hhas => hn.mpr (hhas.resolve_left hcolon)⟩

theorem whole_of_readsAll (h : ReadsAll s d) : Whole s := by
  have ⟨c,body,hs,_,n,k,a,b,hdate,htime,hpos,_⟩ := h
  have ⟨hdatewhole,hhasdate⟩ := whole_of_dateReads hdate
  have ⟨htimewhole,hhastime⟩ := whole_of_timeReads htime
  rw [hs]
  refine ⟨hdatewhole,htimewhole,?_⟩
  by_cases hn : 0<n
  · exact .inl (hhasdate.mp hn)
  · have hk : 0<k := by omega
    exact .inr (hhastime.mp hk)

theorem dateReads_of_whole (h : readDatePart part=.ok d) (hwhole : DateWhole part) : ∃ n,DateReads part n d := by
  by_cases hform : isDateFormat part=true
  · have hne : part≠[] := by
      intro hnil
      rw [hnil] at hform
      cases hform
    rw [readDatePart,if_neg hne,if_pos hform] at h
    have ⟨fields,hfields,h⟩ := bind_ok.mp h
    have hd : d=fields := by rw [addTo_ok h,noDuration_plus]
    refine ⟨3,?_⟩
    rw [DateReads,if_pos hform]
    unfold dateFields at hfields
    split at hfields
    · next year month day hsplit =>
      have ⟨y,hy,hfields⟩ := bind_ok.mp hfields
      have ⟨m,hm,hfields⟩ := bind_ok.mp hfields
      have ⟨n,hn,hfields⟩ := bind_ok.mp hfields
      have ⟨years,hyears,hfields⟩ := bind_ok.mp hfields
      have ⟨months,hmonths,hfields⟩ := bind_ok.mp hfields
      cases hfields
      rw [(word_ok hyears).1] at hmonths
      rw [(word_ok hmonths).1] at hd
      exact ⟨year,month,day,y,m,n,hsplit,hy,hm,hn,rfl,hd⟩
    · cases hfields
  · have hloop : unitLoop dateContribution noDuration [] part=.ok d := by
      by_cases hnil : part=[]
      · rw [readDatePart,if_pos hnil] at h
        rw [hnil]
        exact h
      · rw [readDatePart,if_neg hnil,if_neg hform] at h
        exact h
    have hdigits := hwhole.resolve_left hform
    have ⟨n,b,hreads,hd⟩ := unitReads_of_whole (fun _ _ _ => isAlpha_dateUnit) hloop hdigits
    refine ⟨n,?_⟩
    rw [DateReads,if_neg hform,hd,noDuration_plus]
    exact hreads

theorem two_le_fields (h : ':'∈chars) : 2≤(chars.splitOn ':').length := by
  have ⟨before,behind,heq⟩ := List.append_of_mem h
  have hbefore := List.length_pos_of_ne_nil (List.splitOn_ne_nil ':' before)
  have hbehind := List.length_pos_of_ne_nil (List.splitOn_ne_nil ':' behind)
  have hsplit : (before++ ':'::behind).splitOn ':'=before.splitOn ':'++behind.splitOn ':' :=
    List.splitOn_append_cons_self before behind
  rw [heq,hsplit,List.length_append]
  omega

theorem colonReads_of_whole (hcolon : ':'∈chars) (h : timeFields sum (chars.splitOn ':')=.ok d)
    (hwhole : (chars.splitOn ':').length≤3) : ∃ n b,ColonReads chars n b ∧ d=plus sum b := by
  have htwo := two_le_fields hcolon
  cases hsplit : chars.splitOn ':' with
  | nil => rw [hsplit] at htwo; cases htwo
  | cons hour others =>
    cases others with
    | nil =>
      rw [hsplit,List.length_singleton] at htwo
      omega
    | cons minute others =>
      rw [hsplit] at h
      have ⟨hours,hh,h⟩ := bind_ok.mp h
      have ⟨minutes,hm,h⟩ := bind_ok.mp h
      have ⟨x,hx,h⟩ := bind_ok.mp h
      have ⟨y,hy,h⟩ := bind_ok.mp h
      have ⟨clock,hclock,h⟩ := bind_ok.mp h
      have ⟨next,hnext,h⟩ := bind_ok.mp h
      rw [(word_ok hx).1,(word_ok hy).1] at hclock
      rw [(word_ok hclock).1] at hnext
      cases others with
      | nil =>
        cases h
        exact ⟨2,⟨0,0,hours*3600+minutes*60,0⟩,
          ⟨hour,minute,hours,minutes,hh,hm,.inl ⟨hsplit,rfl,rfl⟩⟩,addTo_ok hnext⟩
      | cons second others =>
        cases others with
        | nil =>
          have ⟨part,hpart,hpd⟩ := addSecondField_ok h
          have hd : d=plus sum (plus ⟨0,0,hours*3600+minutes*60,0⟩ part) := by
            rw [hpd,addTo_ok hnext,plus_assoc]
          exact ⟨3,plus ⟨0,0,hours*3600+minutes*60,0⟩ part,
            ⟨hour,minute,hours,minutes,hh,hm,.inr ⟨second,part,hsplit,hpart,rfl,rfl⟩⟩,hd⟩
        | cons surplus others =>
          rw [hsplit,List.length_cons,List.length_cons,List.length_cons,List.length_cons] at hwhole
          omega

theorem timeReads_of_whole {part : Option (List Char)} (h : readTimePart sum part=.ok d)
    (hwhole : TimeWhole (part.getD [])) : ∃ n b,TimeReads (part.getD []) n b ∧ d=plus sum b := by
  have hpart : readTimePart sum (some (part.getD []))=.ok d := by
    cases part with
    | none | some chars => exact h
  generalize part.getD []=chars at hwhole hpart
  by_cases hcolon : ':'∈chars
  · have hne : chars≠[] := List.ne_nil_of_mem hcolon
    rw [readTimePart,if_neg hne,if_pos hcolon] at hpart
    rw [TimeWhole,if_pos hcolon] at hwhole
    have ⟨n,b,hreads,hd⟩ := colonReads_of_whole hcolon hpart hwhole
    refine ⟨n,b,?_,hd⟩
    rw [TimeReads,if_pos hcolon]
    exact hreads
  · have hloop : unitLoop timeContribution sum [] chars=.ok d := by
      by_cases hnil : chars=[]
      · rw [readTimePart,if_pos hnil] at hpart
        rw [hnil]
        exact hpart
      · rw [readTimePart,if_neg hnil,if_neg hcolon] at hpart
        exact hpart
    rw [TimeWhole,if_neg hcolon] at hwhole
    have ⟨n,b,hreads,hd⟩ := unitReads_of_whole (fun _ _ _ => isAlpha_timeUnit) hloop hwhole
    refine ⟨n,b,?_,hd⟩
    rw [TimeReads,if_neg hcolon]
    exact hreads

theorem readsAll_of_whole (h : fromIsoString s=.ok d) (hwhole : Whole s) : ReadsAll s d := by
  cases s with
  | nil => exact absurd hwhole id
  | cons c body =>
    have ⟨hdatewhole,htimewhole,hhas⟩ := hwhole
    by_cases hp : c = 'P' ∨ c = 'p'
    · rw [fromIsoString,if_pos hp] at h
      have ⟨a,hdate,htime⟩ := bind_ok.mp h
      have ⟨n,hdatereads⟩ := dateReads_of_whole hdate hdatewhole
      have ⟨k,b,htimereads,hd⟩ := timeReads_of_whole htime htimewhole
      have hn := (whole_of_dateReads hdatereads).2
      have hk := (whole_of_timeReads htimereads).2
      have hpos : 0<n+k := by
        cases hhas with
        | inl hdatehas =>
          have hn' := hn.mpr hdatehas
          omega
        | inr htimehas =>
          have hk' := hk.mpr htimehas
          omega
      exact ⟨c,body,rfl,hp,n,k,a,b,hdatereads,htimereads,hpos,hd⟩
    · rw [fromIsoString,if_neg hp] at h
      cases h

/-- An accepted text is read in full exactly when its date part has the date form
or no digit behind its last letter, its time part has at most three fields
between colons or no digit behind its last letter, and there is a component. -/
theorem readsAll_iff {s : List Char} {d : CypherDuration} (h : fromIsoString s=.ok d) :
    ReadsAll s d ↔ Whole s := ⟨whole_of_readsAll,readsAll_of_whole h⟩

/-- Three hours and a half are read in full. -/
theorem readsAll_iff_hours : ReadsAll ['P','T','3','.','5','H'] ⟨0,0,12600,0⟩ ↔ Whole ['P','T','3','.','5','H'] :=
  readsAll_iff (by decide +kernel)

/-- A number without a unit, a text without components and fields behind the
seconds are accepted, and counted as nothing. -/
theorem readsAll_fails :
    (fromIsoString ['P','T','5']=.ok noDuration ∧ ¬ReadsAll ['P','T','5'] noDuration) ∧
    (fromIsoString ['P']=.ok noDuration ∧ ¬ReadsAll ['P'] noDuration) ∧
    fromIsoString ['P','T','1',':','2',':','3',':','4']=.ok ⟨0,0,3720,0⟩ ∧
      ¬ReadsAll ['P','T','1',':','2',':','3',':','4'] ⟨0,0,3720,0⟩ := by
  have hnumber : ¬Whole ['P','T','5'] := by
    intro h
    exact absurd (h.2.1 '5' (by decide)) (by decide)
  have hnone : ¬Whole ['P'] := by
    intro h
    cases h.2.2 with
    | inl hdate => exact absurd hdate (by unfold HasDate; decide)
    | inr htime => exact absurd htime (by unfold HasTime; decide)
  have hfields : ¬Whole ['P','T','1',':','2',':','3',':','4'] := by
    intro h
    have htime : TimeWhole ['1',':','2',':','3',':','4'] := h.2.1
    rw [TimeWhole,if_pos (by decide)] at htime
    exact absurd htime (by decide)
  exact ⟨⟨by decide,fun h => hnumber (whole_of_readsAll h)⟩,
    ⟨by decide,fun h => hnone (whole_of_readsAll h)⟩,
    by decide,fun h => hfields (whole_of_readsAll h)⟩

end GraphDbLite.DurationReading
