import GraphDbLite.DurationNormality
import GraphDbLite.TemporalPanics

/-!
# Panics while durations are read

The numbers of a duration are products with the length of their unit and are added
to running sums, each in a word of 64 bits. A text is read without a panic when the
products and sums stay in their words as far as its units are read, and the
fraction of its colon form is cut at the end of a character. The conditions of all
readers of temporal texts stand side by side at the end.
-/

namespace GraphDbLite.DurationPanics

open Binary64 TemporalValues DurationText DurationReading DurationNormality PrintedNumbers
  EpochInstants TemporalTexts TextCuts TemporalPanics

/-- Each component fits into its word. -/
structure Fits (d : CypherDuration) : Prop where
  /-- Months. -/
  months : InWord d.months
  /-- Days. -/
  days : InWord d.days
  /-- Seconds. -/
  seconds : InWord d.seconds
  /-- Nanoseconds. -/
  nanos : InWord d.nanos

theorem fits_noDuration : Fits noDuration := by
  have hzero : InWord 0 := by
    unfold InWord
    omega
  exact ⟨hzero,hzero,hzero,hzero⟩

variable {a b : CypherDuration} {num : List Char}

theorem noPanic_addTo : NoPanic (addTo a b) ↔ Fits (plus a b) := by
  unfold addTo
  rw [noPanic_bind,noPanic_word]
  constructor
  · intro h
    have hmonths := word_of h.1
    have hdays := h.2 _ hmonths
    rw [noPanic_bind,noPanic_word] at hdays
    have hseconds := hdays.2 _ (word_of hdays.1)
    rw [noPanic_bind,noPanic_word] at hseconds
    have hnanos := hseconds.2 _ (word_of hseconds.1)
    rw [noPanic_bind,noPanic_word] at hnanos
    exact ⟨h.1,hdays.1,hseconds.1,hnanos.1⟩
  · intro h
    refine ⟨h.months,fun _ _ => ?_⟩
    rw [noPanic_bind,noPanic_word]
    refine ⟨h.days,fun _ _ => ?_⟩
    rw [noPanic_bind,noPanic_word]
    refine ⟨h.seconds,fun _ _ => ?_⟩
    rw [noPanic_bind,noPanic_word]
    exact ⟨h.nanos,fun _ _ => noPanic_ok _⟩

theorem addTo_of_fits (h : Fits (plus a b)) : addTo a b=.ok (plus a b) := by
  unfold addTo
  have hmonths : word (a.months+b.months)=.ok (a.months+b.months) := word_of h.months
  have hdays : word (a.days+b.days)=.ok (a.days+b.days) := word_of h.days
  have hseconds : word (a.seconds+b.seconds)=.ok (a.seconds+b.seconds) := word_of h.seconds
  have hnanos : word (a.nanos+b.nanos)=.ok (a.nanos+b.nanos) := word_of h.nanos
  rw [hmonths,hdays,hseconds,hnanos]
  rfl

theorem fits_of_addTo {d : CypherDuration} (h : addTo a b=.ok d) : Fits d := by
  have hsum := addTo_ok h
  have hfits := noPanic_addTo (a:=a) (b:=b)
  rw [hsum]
  apply hfits.mp
  rw [h]
  exact noPanic_ok d

/-- The whole part of a number times the length of its unit fits. -/
def ProductFits (num : List Char) (scale : Int) : Prop :=
  ∀ n,parseF64 num=.ok n → InWord (toI64 (trunc n)*scale)

/-- Years in months fit. -/
def DateNumberFits (num : List Char) (unit : Char) : Prop := unit.toUpper= 'Y' → ProductFits num 12

/-- Hours and minutes in seconds fit. -/
structure TimeNumberFits (num : List Char) (unit : Char) : Prop where
  /-- Hours. -/
  hours : unit.toUpper= 'H' → ProductFits num 3600
  /-- Minutes. -/
  minutes : unit.toUpper= 'M' → ProductFits num 60

theorem noPanic_dateContribution (num : List Char) (unit : Char) :
    NoPanic (dateContribution num unit) ↔ DateNumberFits num unit := by
  unfold dateContribution DateNumberFits ProductFits
  rw [noPanic_bind]
  simp only
  constructor
  · intro h hunit n hn
    have hyears := h.2 n hn
    rw [hunit] at hyears
    simp only at hyears
    rw [noPanic_bind] at hyears
    exact noPanic_word.mp hyears.1
  · intro h
    refine ⟨noPanic_parseF64 num,?_⟩
    intro n hn
    split
    · next hunit =>
      rw [noPanic_bind]
      exact ⟨noPanic_word.mpr (h hunit n hn),fun _ _ => noPanic_ok _⟩
    · exact noPanic_ok _
    · exact noPanic_ok _
    · exact noPanic_ok _
    · exact noPanic_refuse _

theorem noPanic_clockContribution (num : List Char) (scale : Int) :
    NoPanic (clockContribution num scale) ↔ ProductFits num scale := by
  unfold clockContribution ProductFits
  rw [noPanic_bind]
  simp only
  constructor
  · intro h n hn
    have hwhole := h.2 n hn
    rw [noPanic_bind] at hwhole
    exact noPanic_word.mp hwhole.1
  · intro h
    refine ⟨noPanic_parseF64 num,?_⟩
    intro n hn
    rw [noPanic_bind]
    exact ⟨noPanic_word.mpr (h n hn),fun _ _ => noPanic_ok _⟩

theorem utf8Size_number (h : IsNumber num) : ∀ c∈num,c.utf8Size=1 := by
  have ⟨sign,digits,heq,hsign,hdigits⟩ := h
  intro c hc
  rw [heq] at hc
  cases List.mem_append.mp hc with
  | inl hfront =>
    cases hsign with
    | inl hnil => rw [hnil] at hfront; cases hfront
    | inr hminus =>
      rw [hminus] at hfront
      rw [List.mem_singleton.mp hfront]
      decide
  | inr hback =>
    have hnumber := List.all_eq_true.mp hdigits c hback
    simp only [isNumberChar,Bool.or_eq_true,decide_eq_true_eq] at hnumber
    cases hnumber with
    | inl hdigit => exact utf8Size_digit hdigit
    | inr hpoint => rw [hpoint]; decide

theorem fractionCut_of_bytes {frac : List Char} (h : ∀ c∈frac,c.utf8Size=1) : FractionCut frac := by
  intro hlong
  have hfront : ∀ c∈frac.take 9,c.utf8Size=1 := fun c hc => h c (List.mem_of_mem_take hc)
  have hbytes : ∀ chars : List Char,(∀ c∈chars,c.utf8Size=1) → byteLength chars=chars.length := by
    intro chars hchars
    have hmap : chars.map Char.utf8Size=List.replicate chars.length 1 := by
      rw [List.eq_replicate_iff]
      refine ⟨List.length_map _,?_⟩
      intro n hn
      have ⟨c,hc,heq⟩ := List.mem_map.mp hn
      rw [←heq]
      exact hchars c hc
    rw [byteLength,hmap,List.sum_replicate]
    simp
  have hall := hbytes frac h
  refine ⟨frac.take 9,frac.drop 9,(List.take_append_drop 9 frac).symm,?_⟩
  rw [hbytes _ hfront,List.length_take]
  omega

theorem noPanic_secondContribution (h : IsNumber num) : NoPanic (secondContribution num) := by
  have hbytes := utf8Size_number h
  have hfrac : FractionCut ((num.dropWhile fun c => decide (c≠ '.')).drop 1) := by
    apply fractionCut_of_bytes
    intro c hc
    exact hbytes c (List.dropWhile_subset _ (List.mem_of_mem_drop hc))
  have hend : ∀ intVal : Int,NoPanic (parseFracNanos ((num.dropWhile fun c => decide (c≠ '.')).drop 1) >>= fun fracNanos =>
      (pure ⟨0,0,intVal,if (num.takeWhile fun c => decide (c≠ '.')).head?=some '-' then -fracNanos else fracNanos⟩ :
        Reading CypherDuration)) := by
    intro intVal
    rw [noPanic_bind]
    exact ⟨noPanic_parseFracNanos.mpr hfrac,fun _ _ => noPanic_ok _⟩
  unfold secondContribution
  by_cases hpoint : '.'∈num
  · rw [if_pos hpoint]
    simp only
    by_cases hempty : num.takeWhile (fun c => decide (c≠ '.'))=[] ∨ num.takeWhile (fun c => decide (c≠ '.'))=['-']
    · rw [if_pos hempty]
      exact hend 0
    · rw [if_neg hempty,noPanic_bind]
      exact ⟨noPanic_parseInt _,fun intVal _ => hend intVal⟩
  · rw [if_neg hpoint,noPanic_bind]
    exact ⟨noPanic_parseInt _,fun _ _ => noPanic_ok _⟩

/-- A number of the time part contributes without a panic when its seconds fit. -/
theorem noPanic_timeContribution (unit : Char) (h : IsNumber num) :
    NoPanic (timeContribution num unit) ↔ TimeNumberFits num unit := by
  have hother : ∀ {u v : Char},unit.toUpper=u → u≠v → unit.toUpper≠v := fun hu huv heq => huv (hu.symm.trans heq)
  unfold timeContribution
  split
  · next hunit =>
    have hminute := hother hunit (show 'H'≠ 'M' by decide)
    rw [noPanic_clockContribution]
    exact ⟨fun h => ⟨fun _ => h,fun hm => absurd hm hminute⟩,fun h => h.hours hunit⟩
  · next hunit =>
    have hhour := hother hunit (show 'M'≠ 'H' by decide)
    rw [noPanic_clockContribution]
    exact ⟨fun h => ⟨fun hh => absurd hh hhour,fun _ => h⟩,fun h => h.minutes hunit⟩
  · next hunit =>
    have hhour := hother hunit (show 'S'≠ 'H' by decide)
    have hminute := hother hunit (show 'S'≠ 'M' by decide)
    exact ⟨fun _ => ⟨fun hh => absurd hh hhour,fun hm => absurd hm hminute⟩,fun _ => noPanic_secondContribution h⟩
  · next hhour hminute _ =>
    exact ⟨fun _ => ⟨fun hh => absurd hh hhour,fun hm => absurd hm hminute⟩,fun _ => noPanic_refuse _⟩

/-- Numbers and units of a part, as the loops cut it. -/
def unitTexts (num : List Char) : List Char → List (List Char×Char)
  | [] => []
  | c::rest =>
    if (num=[] ∧ c = '-') ∨ isNumberChar c=true then unitTexts (num++[c]) rest
    else (num,c)::unitTexts [] rest

section loops

variable (contribution : List Char → Char → Reading CypherDuration) (fits : List Char → Char → Prop)

/-- As far as the units are read, each number fits its unit, and the running sums
fit their words. -/
def UnitsFit : CypherDuration → List (List Char×Char) → Prop
  | _,[] => True
  | sum,text::texts => fits text.1 text.2 ∧ ∀ amount,contribution text.1 text.2=.ok amount →
    Fits (plus sum amount) ∧ UnitsFit (plus sum amount) texts

/-- Each unit is read. -/
def UnitsRead (texts : List (List Char×Char)) : Prop :=
  ∀ text∈texts,∃ amount,contribution text.1 text.2=.ok amount

variable {contribution fits} (hfits : ∀ num unit,IsNumber num → (NoPanic (contribution num unit) ↔ fits num unit))
variable {chars num : List Char} {sum : CypherDuration}
include hfits

theorem noPanic_unitLoop (hnum : IsNumber num) :
    NoPanic (unitLoop contribution sum num chars) ↔ UnitsFit contribution fits sum (unitTexts num chars) := by
  induction chars generalizing num sum with
  | nil =>
    rw [unitLoop,unitTexts]
    exact ⟨fun _ => trivial,fun _ => noPanic_ok sum⟩
  | cons c chars ih =>
    rw [unitLoop,unitTexts]
    by_cases hc : (num=[] ∧ c = '-') ∨ isNumberChar c=true
    · rw [if_pos hc,if_pos hc]
      exact ih (isNumber_push hnum hc)
    · rw [if_neg hc,if_neg hc,noPanic_bind,hfits num c hnum,UnitsFit]
      constructor
      · intro h
        refine ⟨h.1,?_⟩
        intro amount hamount
        have hrest := h.2 amount hamount
        rw [noPanic_bind,noPanic_addTo] at hrest
        exact ⟨hrest.1,(ih isNumber_nil).mp (hrest.2 _ (addTo_of_fits hrest.1))⟩
      · intro h
        refine ⟨h.1,?_⟩
        intro amount hamount
        have hrest := h.2 amount hamount
        rw [noPanic_bind,noPanic_addTo]
        refine ⟨hrest.1,?_⟩
        intro next hnext
        rw [addTo_ok hnext]
        exact (ih isNumber_nil).mpr hrest.2

omit hfits in
theorem unitLoop_read (h : UnitsFit contribution fits sum (unitTexts num chars)) :
    (∃ d,unitLoop contribution sum num chars=.ok d) ↔ UnitsRead contribution (unitTexts num chars) := by
  induction chars generalizing num sum with
  | nil =>
    rw [unitLoop,unitTexts]
    exact ⟨fun _ _ hmem => (by cases hmem),fun _ => ⟨sum,rfl⟩⟩
  | cons c chars ih =>
    rw [unitTexts] at h ⊢
    rw [unitLoop]
    by_cases hc : (num=[] ∧ c = '-') ∨ isNumberChar c=true
    · rw [if_pos hc] at h ⊢
      rw [if_pos hc]
      exact ih h
    · rw [if_neg hc] at h ⊢
      rw [if_neg hc]
      constructor
      · rintro ⟨d,hd⟩
        obtain ⟨amount,hamount,hd⟩ := bind_ok.mp hd
        obtain ⟨next,hnext,hd⟩ := bind_ok.mp hd
        have hrest := (h.2 amount hamount).2
        rw [addTo_ok hnext] at hd
        have hread := (ih hrest).mp ⟨d,hd⟩
        intro text htext
        cases List.mem_cons.mp htext with
        | inl heq => rw [heq]; exact ⟨amount,hamount⟩
        | inr hmem => exact hread text hmem
      · intro hread
        obtain ⟨amount,hamount⟩ := hread (num,c) List.mem_cons_self
        have hrest := h.2 amount hamount
        obtain ⟨d,hd⟩ := (ih hrest.2).mpr (fun text htext => hread text (List.mem_cons_of_mem _ htext))
        exact ⟨d,bind_ok.mpr ⟨amount,hamount,bind_ok.mpr ⟨_,addTo_of_fits hrest.1,hd⟩⟩⟩

omit hfits in
theorem fits_unitLoop {d : CypherDuration} (hsum : Fits sum) (h : unitLoop contribution sum num chars=.ok d) :
    Fits d := by
  induction chars generalizing num sum with
  | nil =>
    cases h
    exact hsum
  | cons c chars ih =>
    rw [unitLoop] at h
    by_cases hc : (num=[] ∧ c = '-') ∨ isNumberChar c=true
    · rw [if_pos hc] at h
      exact ih hsum h
    · rw [if_neg hc] at h
      obtain ⟨amount,_,h⟩ := bind_ok.mp h
      obtain ⟨next,hnext,h⟩ := bind_ok.mp h
      exact ih (fits_of_addTo hnext) h

end loops

/-- Years and months of the date form fit. -/
def DateFormFits (part : List Char) : Prop :=
  ∀ year month day y m n,part.splitOn '-'=[year,month,day] → parseI64 year=.ok y → parseI64 month=.ok m →
    parseI64 day=.ok n → InWord (y*12) ∧ InWord (y*12+m)

/-- The three fields of the date form are numbers. -/
def DateFormRead (part : List Char) : Prop :=
  ∃ year month day y m n,part.splitOn '-'=[year,month,day] ∧ parseI64 year=.ok y ∧ parseI64 month=.ok m ∧
    parseI64 day=.ok n

/-- Products and sums of the date part fit. -/
def DateFits (part : List Char) : Prop :=
  if isDateFormat part=true then DateFormFits part
  else UnitsFit dateContribution DateNumberFits noDuration (unitTexts [] part)

/-- The fields or units of the date part are read. -/
def DateRead (part : List Char) : Prop :=
  if isDateFormat part=true then DateFormRead part else UnitsRead dateContribution (unitTexts [] part)

section dateForm

variable {part : List Char}

theorem noPanic_dateFields : NoPanic (dateFields (part.splitOn '-') part) ↔ DateFormFits part := by
  unfold dateFields DateFormFits
  split
  · next year month day hsplit =>
    rw [noPanic_bind]
    constructor
    · intro h year' month' day' y m n heq hy hm hn
      rw [hsplit] at heq
      cases heq
      have hmonth := h.2 y hy
      rw [noPanic_bind] at hmonth
      have hday := hmonth.2 m hm
      rw [noPanic_bind] at hday
      have hyears := hday.2 n hn
      rw [noPanic_bind,noPanic_word] at hyears
      have hmonths := hyears.2 _ (word_of hyears.1)
      rw [noPanic_bind,noPanic_word] at hmonths
      exact ⟨hyears.1,hmonths.1⟩
    · intro h
      refine ⟨noPanic_parseInt _,?_⟩
      intro y hy
      rw [noPanic_bind]
      refine ⟨noPanic_parseInt _,?_⟩
      intro m hm
      rw [noPanic_bind]
      refine ⟨noPanic_parseInt _,?_⟩
      intro n hn
      have hfits := h year month day y m n hsplit hy hm hn
      rw [noPanic_bind,noPanic_word]
      refine ⟨hfits.1,?_⟩
      intro years hyears
      rw [(word_ok hyears).1,noPanic_bind,noPanic_word]
      exact ⟨hfits.2,fun _ _ => noPanic_ok _⟩
  · next hother =>
    refine ⟨fun _ => ?_,fun _ => noPanic_refuse _⟩
    intro year month day y m n hsplit
    exact absurd hsplit (hother year month day)

theorem fits_dateFields {fields : CypherDuration} (h : dateFields (part.splitOn '-') part=.ok fields) :
    Fits fields := by
  have hzero := fits_noDuration
  unfold dateFields at h
  split at h
  · have ⟨y,_,h⟩ := bind_ok.mp h
    have ⟨m,_,h⟩ := bind_ok.mp h
    have ⟨n,hn,h⟩ := bind_ok.mp h
    have ⟨years,_,h⟩ := bind_ok.mp h
    have ⟨months,hmonths,h⟩ := bind_ok.mp h
    cases h
    have hword := word_ok hmonths
    rw [←hword.1] at hword
    exact ⟨hword.2,parseInt_range (by decide) (by decide) hn,hzero.seconds,hzero.nanos⟩
  · cases h

theorem dateFields_read (h : DateFormFits part) :
    (∃ fields,dateFields (part.splitOn '-') part=.ok fields) ↔ DateFormRead part := by
  unfold DateFormRead
  constructor
  · intro ⟨fields,hfields⟩
    unfold dateFields at hfields
    split at hfields
    · next year month day hsplit =>
      have ⟨y,hy,hfields⟩ := bind_ok.mp hfields
      have ⟨m,hm,hfields⟩ := bind_ok.mp hfields
      have ⟨n,hn,_⟩ := bind_ok.mp hfields
      exact ⟨year,month,day,y,m,n,hsplit,hy,hm,hn⟩
    · cases hfields
  · intro ⟨year,month,day,y,m,n,hsplit,hy,hm,hn⟩
    have hfits := h year month day y m n hsplit hy hm hn
    have hyears : word (y*12)=.ok (y*12) := word_of hfits.1
    have hmonths : word (y*12+m)=.ok (y*12+m) := word_of hfits.2
    rw [hsplit,dateFields]
    simp only [hy,hm,hn,hyears,hmonths,bind,Except.bind]
    exact ⟨_,rfl⟩

theorem readDatePart_eq : readDatePart part=if isDateFormat part=true then
      dateFields (part.splitOn '-') part >>= addTo noDuration
    else unitLoop dateContribution noDuration [] part := by
  unfold readDatePart
  by_cases hnil : part=[]
  · rw [hnil]
    rfl
  · rw [if_neg hnil]
    rfl

theorem noPanic_readDatePart : NoPanic (readDatePart part) ↔ DateFits part := by
  rw [readDatePart_eq]
  unfold DateFits
  split_ifs
  · rw [noPanic_bind,noPanic_dateFields]
    refine ⟨fun h => h.1,fun h => ⟨h,fun fields hfields => ?_⟩⟩
    rw [noPanic_addTo,noDuration_plus]
    exact fits_dateFields hfields
  · exact noPanic_unitLoop (fun num unit _ => noPanic_dateContribution num unit) isNumber_nil

theorem readDatePart_read (h : DateFits part) : (∃ d,readDatePart part=.ok d) ↔ DateRead part := by
  rw [readDatePart_eq]
  unfold DateFits at h
  unfold DateRead
  split_ifs at h ⊢
  · rw [←dateFields_read h]
    constructor
    · intro ⟨d,hd⟩
      have ⟨fields,hfields,_⟩ := bind_ok.mp hd
      exact ⟨fields,hfields⟩
    · intro ⟨fields,hfields⟩
      have hfits : Fits (plus noDuration fields) := by
        rw [noDuration_plus]
        exact fits_dateFields hfields
      exact ⟨_,bind_ok.mpr ⟨fields,hfields,addTo_of_fits hfits⟩⟩
  · exact unitLoop_read h

theorem fits_readDatePart {d : CypherDuration} (h : readDatePart part=.ok d) : Fits d := by
  rw [readDatePart_eq] at h
  split_ifs at h
  · have ⟨fields,_,hadd⟩ := bind_ok.mp h
    exact fits_of_addTo hadd
  · exact fits_unitLoop fits_noDuration h

end dateForm

/-- The seconds of the colon form in front of their point. -/
def wholeSeconds (field : List Char) : Reading Int :=
  match splitAtChar '.' field with
  | some parts => if parts.1=[] then .ok 0 else parseI64 parts.1
  | none => parseI64 field

/-- The seconds fit behind a running sum, and where they are read their fraction is
cut and its nanoseconds fit. -/
def SecondFits (seconds nanos : Int) (field : List Char) : Prop :=
  ∀ whole,wholeSeconds field=.ok whole → InWord (seconds+whole) ∧
    ∀ int frac,splitAtChar '.' field=some (int,frac) →
      FractionCut frac ∧ ∀ n,parseFracNanos frac=.ok n → InWord (nanos+n)

/-- Hours and minutes in seconds fit, and so does the running sum with them. -/
structure ClockFits (sum : CypherDuration) (h m : Int) : Prop where
  /-- Hours. -/
  hours : InWord (h*3600)
  /-- Minutes. -/
  minutes : InWord (m*60)
  /-- Both. -/
  clock : InWord (h*3600+m*60)
  /-- The running sum. -/
  sum : InWord (sum.seconds+(h*3600+m*60))

/-- The fields of the colon form fit as far as they are read. -/
def ColonFits (sum : CypherDuration) (chars : List Char) : Prop :=
  ∀ hour min rest h m,chars.splitOn ':'=hour::min::rest → parseI64 hour=.ok h → parseI64 min=.ok m →
    ClockFits sum h m ∧ ∀ second,rest=[second] → SecondFits (sum.seconds+(h*3600+m*60)) sum.nanos second

/-- Products and sums of the time part fit behind a running sum. -/
def TimeFits (sum : CypherDuration) (chars : List Char) : Prop :=
  if ':'∈chars then ColonFits sum chars else UnitsFit timeContribution TimeNumberFits sum (unitTexts [] chars)

section timeForm

variable {sum : CypherDuration} {field chars : List Char}

/-- Seconds are added to a sum that fits without a panic when the seconds fit. -/
theorem fits_seconds (hsum : Fits sum) (n : Int) : Fits (plus sum ⟨0,0,n,0⟩) ↔ InWord (sum.seconds+n) := by
  constructor
  · intro h
    exact h.seconds
  · intro h
    refine ⟨?_,?_,h,?_⟩
    · simpa [plus] using hsum.months
    · simpa [plus] using hsum.days
    · simpa [plus] using hsum.nanos

/-- Nanoseconds are added to a sum that fits without a panic when the nanoseconds fit. -/
theorem fits_nanos (hsum : Fits sum) (n : Int) : Fits (plus sum ⟨0,0,0,n⟩) ↔ InWord (sum.nanos+n) := by
  constructor
  · intro h
    exact h.nanos
  · intro h
    refine ⟨?_,?_,?_,h⟩
    · simpa [plus] using hsum.months
    · simpa [plus] using hsum.days
    · simpa [plus] using hsum.seconds

theorem noPanic_addSecondField (hsum : Fits sum) :
    NoPanic (addSecondField sum field) ↔ SecondFits sum.seconds sum.nanos field := by
  unfold addSecondField SecondFits wholeSeconds splitAtChar
  by_cases hpoint : '.'∈field
  · rw [if_pos hpoint,if_pos hpoint]
    simp only
    rw [noPanic_bind]
    constructor
    · intro h whole hwhole
      have hadd := h.2 whole hwhole
      rw [noPanic_bind,noPanic_addTo,fits_seconds hsum] at hadd
      refine ⟨hadd.1,?_⟩
      intro int frac hparts
      cases hparts
      have hfits := (fits_seconds hsum whole).mpr hadd.1
      have hrest := hadd.2 _ (addTo_of_fits hfits)
      rw [noPanic_bind,noPanic_parseFracNanos] at hrest
      refine ⟨hrest.1,?_⟩
      intro n hn
      have hlast := hrest.2 n hn
      rw [noPanic_addTo,fits_nanos hfits] at hlast
      simpa [plus] using hlast
    · intro h
      refine ⟨?_,?_⟩
      · split_ifs
        · exact noPanic_ok 0
        · exact noPanic_parseInt _
      · intro whole hwhole
        have hfits := h whole hwhole
        rw [noPanic_bind,noPanic_addTo,fits_seconds hsum]
        refine ⟨hfits.1,?_⟩
        intro next hnext
        have hfrac := hfits.2 _ _ rfl
        rw [noPanic_bind,noPanic_parseFracNanos]
        refine ⟨hfrac.1,?_⟩
        intro n hn
        have hnano := hfrac.2 n hn
        rw [noPanic_addTo,addTo_ok hnext,fits_nanos ((fits_seconds hsum whole).mpr hfits.1)]
        simpa [plus] using hnano
  · rw [if_neg hpoint,if_neg hpoint]
    simp only
    rw [noPanic_bind]
    constructor
    · intro h whole hwhole
      have hadd := h.2 whole hwhole
      rw [noPanic_addTo,fits_seconds hsum] at hadd
      exact ⟨hadd,fun _ _ hparts => (by cases hparts)⟩
    · intro h
      refine ⟨noPanic_parseInt _,?_⟩
      intro whole hwhole
      rw [noPanic_addTo,fits_seconds hsum]
      exact (h whole hwhole).1

theorem noPanic_timeFields (hsum : Fits sum) :
    NoPanic (timeFields sum (chars.splitOn ':')) ↔ ColonFits sum chars := by
  unfold timeFields ColonFits
  split
  · next hour min rest hsplit =>
    rw [noPanic_bind]
    constructor
    · intro hread hour' min' rest' h m heq hh hm
      rw [hsplit] at heq
      cases heq
      have hminute := hread.2 h hh
      rw [noPanic_bind] at hminute
      have hhours := hminute.2 m hm
      rw [noPanic_bind,noPanic_word] at hhours
      have hminutes := hhours.2 _ (word_of hhours.1)
      rw [noPanic_bind,noPanic_word] at hminutes
      have hclock := hminutes.2 _ (word_of hminutes.1)
      rw [noPanic_bind,noPanic_word] at hclock
      have hadd := hclock.2 _ (word_of hclock.1)
      rw [noPanic_bind,noPanic_addTo,fits_seconds hsum] at hadd
      refine ⟨⟨hhours.1,hminutes.1,hclock.1,hadd.1⟩,?_⟩
      intro second hsecond
      have hfits := (fits_seconds hsum _).mpr hadd.1
      have hlast := hadd.2 _ (addTo_of_fits hfits)
      rw [hsecond] at hlast
      simp only at hlast
      rw [noPanic_addSecondField hfits] at hlast
      simpa [plus] using hlast
    · intro hfit
      refine ⟨noPanic_parseInt _,?_⟩
      intro h hh
      rw [noPanic_bind]
      refine ⟨noPanic_parseInt _,?_⟩
      intro m hm
      obtain ⟨hclock,hsecond⟩ := hfit hour min rest h m hsplit hh hm
      rw [noPanic_bind,noPanic_word]
      refine ⟨hclock.hours,?_⟩
      intro hours hhours
      rw [(word_ok hhours).1,noPanic_bind,noPanic_word]
      refine ⟨hclock.minutes,?_⟩
      intro minutes hminutes
      rw [(word_ok hminutes).1,noPanic_bind,noPanic_word]
      refine ⟨hclock.clock,?_⟩
      intro clock hclockWord
      rw [(word_ok hclockWord).1,noPanic_bind,noPanic_addTo,fits_seconds hsum]
      refine ⟨hclock.sum,?_⟩
      intro next hnext
      have hfits := (fits_seconds hsum _).mpr hclock.sum
      rw [addTo_ok hnext]
      split
      · next second =>
        have hlast := hsecond second rfl
        rw [noPanic_addSecondField hfits]
        simpa [plus] using hlast
      · exact noPanic_ok _
  · next hother =>
    refine ⟨fun _ => ?_,fun _ => noPanic_ok _⟩
    intro hour min rest h m hsplit
    exact absurd hsplit (hother hour min rest)

theorem noPanic_readTimePart (hsum : Fits sum) (part : Option (List Char)) :
    NoPanic (readTimePart sum part) ↔ TimeFits sum (part.getD []) := by
  have hempty : TimeFits sum [] := by
    have hnone : ¬ ':'∈([] : List Char) := List.not_mem_nil
    rw [TimeFits,if_neg hnone,unitTexts]
    exact trivial
  cases part with
  | none =>
    refine ⟨fun _ => hempty,fun _ => noPanic_ok sum⟩
  | some chars =>
    rw [Option.getD_some]
    by_cases hnil : chars=[]
    · rw [hnil,readTimePart,if_pos rfl]
      exact ⟨fun _ => hempty,fun _ => noPanic_ok sum⟩
    · rw [readTimePart,if_neg hnil]
      unfold TimeFits
      split_ifs
      · exact noPanic_timeFields hsum
      · exact noPanic_unitLoop (fun _ unit hnum => noPanic_timeContribution unit hnum) isNumber_nil

end timeForm

/-- The date part of the text fits and, where it is read, the time part fits behind
what the date part amounts to. -/
def DurationSafe (s : List Char) : Prop :=
  ∀ c body,s=c::body → (c = 'P' ∨ c = 'p') → DateFits (splitTime body).1 ∧
    (DateRead (splitTime body).1 →
      TimeFits (sumAmounts (dateAmounts (splitTime body).1)) ((splitTime body).2.getD []))

theorem noPanic_fromIsoString (s : List Char) : NoPanic (fromIsoString s) ↔ DurationSafe s := by
  unfold DurationSafe
  cases s with
  | nil => exact ⟨fun _ _ _ heq => (by cases heq),fun _ => noPanic_refuse _⟩
  | cons c body =>
    rw [fromIsoString]
    by_cases hp : c = 'P' ∨ c = 'p'
    · rw [if_pos hp]
      simp only
      rw [noPanic_bind,noPanic_readDatePart]
      constructor
      · intro h c' body' heq _
        cases heq
        refine ⟨h.1,?_⟩
        intro hread
        obtain ⟨d,hd⟩ := (readDatePart_read h.1).mpr hread
        rw [←readDatePart_amounts hd]
        exact (noPanic_readTimePart (fits_readDatePart hd) _).mp (h.2 d hd)
      · intro h
        have hsafe := h c body rfl hp
        refine ⟨hsafe.1,?_⟩
        intro d hd
        have htime := hsafe.2 ((readDatePart_read hsafe.1).mp ⟨d,hd⟩)
        rw [←readDatePart_amounts hd] at htime
        exact (noPanic_readTimePart (fits_readDatePart hd) _).mpr htime
    · rw [if_neg hp]
      refine ⟨fun _ c' body' heq hor => ?_,fun _ => noPanic_refuse _⟩
      cases heq
      exact absurd hor hp

/-- No reader of temporal texts panics on the text. -/
structure NeverPanics (zones : Zones) (s : List Char) : Prop where
  /-- Dates. -/
  date : NoPanic (parseDateStr s)
  /-- Local times. -/
  localTime : NoPanic (localTimeFromIsoString s)
  /-- Times with an offset. -/
  time : NoPanic (timeFromIsoString s)
  /-- Local date-times. -/
  localDateTime : NoPanic (localDateTimeFromIsoString s)
  /-- Date-times. -/
  dateTime : NoPanic (dateTimeFromIsoString zones s)
  /-- Durations. -/
  duration : NoPanic (fromIsoString s)
  /-- Offsets. -/
  offset : NoPanic (parseOffset s)

/-- The text is safe for each reader of temporal texts. -/
structure Safe (s : List Char) : Prop where
  /-- As a date. -/
  date : DateSafe s
  /-- As a local time. -/
  localTime : TimeSafe s
  /-- As a time with an offset. -/
  time : OffsetTimeSafe (splitTimeOffset s)
  /-- As a local date-time. -/
  localDateTime : SplitSafe s TimeSafe
  /-- As a date-time. -/
  dateTime : SplitSafe s fun time => OffsetTimeSafe (splitTimeOffset (splitZone time).1)
  /-- As a duration. -/
  duration : DurationSafe s
  /-- As an offset. -/
  offset : OffsetSafe s

/-- No reader panics on a text exactly when the text is safe for each of them. -/
theorem neverPanics_iff (zones : Zones) (s : List Char) : NeverPanics zones s ↔ Safe s := by
  constructor
  · intro h
    exact ⟨(noPanic_parseDateStr s).mp h.date,(noPanic_parseTimeStr s).mp h.localTime,
      (noPanic_timeFromIsoString s).mp h.time,(noPanic_localDateTimeFromIsoString s).mp h.localDateTime,
      (noPanic_dateTimeFromIsoString zones s).mp h.dateTime,(noPanic_fromIsoString s).mp h.duration,
      (noPanic_parseOffset s).mp h.offset⟩
  · intro h
    exact ⟨(noPanic_parseDateStr s).mpr h.date,(noPanic_parseTimeStr s).mpr h.localTime,
      (noPanic_timeFromIsoString s).mpr h.time,(noPanic_localDateTimeFromIsoString s).mpr h.localDateTime,
      (noPanic_dateTimeFromIsoString zones s).mpr h.dateTime,(noPanic_fromIsoString s).mpr h.duration,
      (noPanic_parseOffset s).mpr h.offset⟩

/-- A compact time whose second byte is inside a character panics. -/
theorem neverPanics_fails : ¬∀ (zones : Zones) (s : List Char),NeverPanics zones s := by
  intro hall
  have htime := (hall ⟨fun _ => false,fun _ _ => none,fun _ _ => utc⟩ ['1','é','1']).localTime
  exact htime (by decide)

end GraphDbLite.DurationPanics
