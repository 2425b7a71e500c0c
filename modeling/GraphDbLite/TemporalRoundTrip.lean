import GraphDbLite.DurationRoundTrip
import GraphDbLite.TemporalTexts

/-!
# Printed temporal values read again

Each printer is followed by its reader. Fields of a fixed width are read back as
numbers, and the splitters find the separators where the printer put them. Dates
before the year zero begin with a minus sign, at which their text is split too;
the fraction of a leap second has ten digits, of which the reader takes nine; and
brackets at the end of a zone name are dropped. Every other value comes back.
-/

namespace GraphDbLite.TemporalRoundTrip

open Calendar TemporalValues DurationText PrintedNumbers DurationRoundTrip DateFields TemporalMaps
  EpochInstants TemporalTexts

section fields

variable {n : Int} {width : Nat}

theorem allDigits_padded (h : 0≤n) : AllDigits (padded width n) := by
  have hneg : ¬n<0 := by omega
  intro c hc
  simp only [padded,if_neg hneg] at hc
  cases List.mem_append.mp hc with
  | inl hzero => rw [(List.mem_replicate.mp hzero).2]; rfl
  | inr hdigit => exact allDigits_toDigits _ c hdigit

theorem ofDigitChars_padded (h : 0≤n) : (Nat.ofDigitChars 10 (padded width n) 0 : Int)=n := by
  have hneg : ¬n<0 := by omega
  simp only [padded,if_neg hneg]
  rw [Nat.ofDigitChars_append,Nat.ofDigitChars_replicate_zero,Nat.mul_zero,Nat.ofDigitChars_ten_toDigits]
  omega

theorem padded_ne (h : 0≤n) : padded width n≠[] := by
  have hneg : ¬n<0 := by omega
  simp only [padded,if_neg hneg]
  intro hnil
  have hdigits := (List.append_eq_nil_iff.mp hnil).2
  exact Nat.toDigits_ne_nil hdigits

theorem length_padded_two (h : 0≤n ∧ n<100) : (padded 2 n).length=2 := by
  have hneg : ¬n<0 := by omega
  have hshort : (Nat.toDigits 10 n.natAbs).length≤2 :=
    (Nat.length_toDigits_le_iff (by decide) (by decide)).mpr (by omega)
  simp only [padded,if_neg hneg,List.length_append,List.length_replicate]
  omega

theorem parseInt_padded {low high : Int} (hlow : low≤0) (h : 0≤n) (hhigh : n≤high) :
    parseInt low high (padded width n)=.ok n := by
  have hvalue := @ofDigitChars_padded n width h
  have hread := @parseInt_digits low high (padded width n) (padded_ne h) hlow (allDigits_padded h)
    (by omega)
  rw [hread,hvalue]

theorem notMem_padded {c : Char} (h : 0≤n) (hc : c.isDigit=false) : c∉padded width n := by
  intro hmem
  have hdigit := allDigits_padded h c hmem
  rw [hc] at hdigit
  cases hdigit

end fields

theorem splitAtChar_append {sep : Char} {before : List Char} (behind : List Char) (h : sep∉before) :
    splitAtChar sep (before++sep::behind)=some (before,behind) := by
  have hcut := cut_at behind h
  have hmem : sep∈before++sep::behind := List.mem_append_right before List.mem_cons_self
  rw [splitAtChar,if_pos hmem,hcut.1,hcut.2,List.drop_one,List.tail_cons]

theorem splitAtChar_none {sep : Char} {chars : List Char} (h : sep∉chars) : splitAtChar sep chars=none :=
  if_neg h

theorem splitOn_one {sep : Char} {chars : List Char} (h : sep∉chars) : chars.splitOn sep=[chars] := by
  have hall : ∀ l∈[chars],sep∉l := by
    intro l hl
    rw [List.mem_singleton.mp hl]
    exact h
  have hsplit := List.splitOn_intercalate sep hall (List.cons_ne_nil chars [])
  rwa [List.intercalate_singleton] at hsplit

theorem splitOn_cons {sep : Char} {field : List Char} (behind : List Char) (h : sep∉field) :
    (field++sep::behind).splitOn sep=field::behind.splitOn sep := by
  rw [List.splitOn_append_cons_self,splitOn_one h,List.singleton_append]

section dates

variable (d : NaiveDate)

theorem date_bounds : (-262143≤d.year ∧ d.year≤262142) ∧ (1≤d.month ∧ d.month≤12) ∧ (1≤d.day ∧ d.day≤31) := by
  have habove := d.above
  have hbelow := d.below
  have hfirst := d.date.first
  have hlast := d.date.last
  have hlength := monthLength_bounds d.date.month
  unfold NaiveDate.year NaiveDate.month NaiveDate.day
  unfold minMonth minYear at habove
  unfold maxMonth maxYear at hbelow
  omega

theorem letter_notMem_displayDate {c : Char} (hdigit : c.isDigit=false) (hdash : c≠ '-') : c∉displayDate d := by
  have hbounds := date_bounds d
  have hmonth := @notMem_padded d.month 2 c (by omega) hdigit
  have hday := @notMem_padded d.day 2 c (by omega) hdigit
  have hyear : c∉padded 4 d.year := by
    by_cases hneg : d.year<0
    · simp only [padded,if_pos hneg]
      intro hmem
      cases List.mem_cons.mp hmem with
      | inl heq => exact hdash heq
      | inr hrest =>
        cases List.mem_append.mp hrest with
        | inl hzero =>
          rw [(List.mem_replicate.mp hzero).2] at hdigit
          cases hdigit
        | inr hmem =>
          rw [allDigits_toDigits _ c hmem] at hdigit
          cases hdigit
    · exact notMem_padded (by omega) hdigit
  unfold displayDate
  intro hmem
  cases List.mem_append.mp hmem with
  | inl hfront => exact hyear hfront
  | inr hback =>
    cases List.mem_cons.mp hback with
    | inl heq => exact hdash heq
    | inr hback =>
      cases List.mem_append.mp hback with
      | inl hmid => exact hmonth hmid
      | inr hlast => exact (List.mem_cons.mp hlast).elim hdash hday

theorem parseDateStr_dashed : parseDateStr (displayDate d)=parseDashedDate (displayDate d) := by
  have hweek : 'W'∉displayDate d := letter_notMem_displayDate d (by decide) (by decide)
  have hdash : '-'∈displayDate d := List.mem_append_right _ List.mem_cons_self
  rw [parseDateStr,if_neg hweek,if_pos hdash]

theorem splitOn_monthDay : (padded 2 d.month++ '-'::padded 2 d.day).splitOn '-'=
    [padded 2 d.month,padded 2 d.day] := by
  have hbounds := date_bounds d
  have hmonth := @notMem_padded d.month 2 '-' (by omega) (by decide)
  have hday := @notMem_padded d.day 2 '-' (by omega) (by decide)
  rw [splitOn_cons _ hmonth,splitOn_one hday]

theorem parseDateStr_self (h : 0≤d.year) : parseDateStr (displayDate d)=.ok d := by
  have hbounds := date_bounds d
  have hyear := @notMem_padded d.year 4 '-' h (by decide)
  have hfields : (displayDate d).splitOn '-'=[padded 4 d.year,padded 2 d.month,padded 2 d.day] := by
    rw [displayDate,splitOn_cons _ hyear,splitOn_monthDay]
  have hy : parseI32 (padded 4 d.year)=.ok d.year := parseInt_padded (by decide) h (by omega)
  have hm : parseU32 (padded 2 d.month)=.ok d.month := parseInt_padded (by decide) (by omega) (by omega)
  have hd : parseU32 (padded 2 d.day)=.ok d.day := parseInt_padded (by decide) (by omega) (by omega)
  rw [parseDateStr_dashed,parseDashedDate,hfields]
  simp only [hy,hm,hd,bind,Except.bind,DurationBetween.fromYmd_self,orRefuse]

theorem parseDateStr_before (h : d.year<0) :
    parseDateStr (displayDate d)=refuseText "invalid date: " (displayDate d) := by
  have ⟨digits,hyear,hdigits⟩ : ∃ digits,padded 4 d.year= '-'::digits ∧ '-'∉digits := by
    refine ⟨List.replicate (4-1-(Nat.toDigits 10 d.year.natAbs).length) '0'++Nat.toDigits 10 d.year.natAbs,?_,?_⟩
    · simp only [padded,if_pos h]
    · intro hmem
      cases List.mem_append.mp hmem with
      | inl hzero => cases (List.mem_replicate.mp hzero).2
      | inr hdigit => cases allDigits_toDigits _ '-' hdigit
  have hfields : (displayDate d).splitOn '-'=[[],digits,padded 2 d.month,padded 2 d.day] := by
    have hfront := @splitOn_cons '-' [] (digits++ '-'::(padded 2 d.month++ '-'::padded 2 d.day)) List.not_mem_nil
    rw [List.nil_append] at hfront
    rw [displayDate,hyear,List.cons_append,hfront,splitOn_cons _ hdigits,splitOn_monthDay]
  rw [parseDateStr_dashed,parseDashedDate,hfields]

theorem parseDateStr_iff : parseDateStr (displayDate d)=.ok d ↔ 0≤d.year := by
  constructor
  · intro hread
    by_contra hneg
    rw [parseDateStr_before d (by omega)] at hread
    cases hread
  · exact parseDateStr_self d

end dates

section times

variable (t : NaiveTime)

theorem time_words : parseU32 (padded 2 (hour t))=.ok (hour t) ∧ parseU32 (padded 2 (minute t))=.ok (minute t) ∧
    parseU32 (padded 2 (second t))=.ok (second t) := by
  have hfields := fields_bounds t
  exact ⟨parseInt_padded (by decide) (by omega) (by omega),parseInt_padded (by decide) (by omega) (by omega),
    parseInt_padded (by decide) (by omega) (by omega)⟩

theorem notMem_timeFields {c : Char} (hc : c.isDigit=false) :
    c∉padded 2 (hour t) ∧ c∉padded 2 (minute t) ∧ c∉padded 2 (second t) := by
  have hfields := fields_bounds t
  exact ⟨notMem_padded (by omega) hc,notMem_padded (by omega) hc,notMem_padded (by omega) hc⟩

theorem trimEndZeros_padded {n : Int} (h : 0≤n) : trimEndZeros (padded 9 n)=fracText n := by
  have hneg : ¬n<0 := by omega
  simp only [padded,if_neg hneg,fracText]

/-- The text of the seconds, with their fraction. -/
def secondsText : List Char := padded 2 (second t)++if t.frac≠0 then '.'::trimEndZeros (padded 9 t.frac) else []

theorem fmtLocalTime_seconds (h : second t≠0 ∨ t.frac≠0) :
    fmtLocalTime t=padded 2 (hour t)++ ':'::(padded 2 (minute t)++ ':'::secondsText t) := by
  rw [fmtLocalTime,if_pos h]
  rfl

theorem fmtLocalTime_minute (h : ¬(second t≠0 ∨ t.frac≠0)) :
    fmtLocalTime t=padded 2 (hour t)++ ':'::padded 2 (minute t) := by
  rw [fmtLocalTime,if_neg h,List.append_nil]

theorem colon_mem_fmtLocalTime : ':'∈fmtLocalTime t := List.mem_append_right _ List.mem_cons_self

theorem colonParts_fmtLocalTime : colonParts (fmtLocalTime t)=(padded 2 (hour t),padded 2 (minute t),
    if second t≠0 ∨ t.frac≠0 then some (secondsText t) else none) := by
  have hcolon := notMem_timeFields t (show (':' : Char).isDigit=false by decide)
  unfold colonParts
  by_cases hshown : second t≠0 ∨ t.frac≠0
  · rw [fmtLocalTime_seconds t hshown,if_pos hshown,splitAtChar_append _ hcolon.1]
    simp only
    rw [splitAtChar_append _ hcolon.2.1]
  · rw [fmtLocalTime_minute t hshown,if_neg hshown,splitAtChar_append _ hcolon.1]
    simp only
    rw [splitAtChar_none hcolon.2.1]

/-- The nanoseconds that are read from a printed time: the first nine digits. -/
def fracRead : Int := if t.frac=0 then 0 else Nat.ofDigitChars 10 (nineDigits (fracText t.frac)) 0

/-- They are of less than a second, and those of the time unless it is a leap second. -/
theorem fracRead_spec : (0≤fracRead t ∧ fracRead t<1000000000) ∧ (¬t.Leap → fracRead t=t.frac) := by
  have hfrac := t.second
  have hread := parseFracNanos_digits (allDigits_fracText t.frac)
  unfold fracRead NaiveTime.Leap
  by_cases hzero : t.frac=0
  · rw [if_pos hzero]
    omega
  · have hnine : ¬1000000000≤t.frac → Nat.ofDigitChars 10 (nineDigits (fracText t.frac)) 0=t.frac.natAbs :=
      fun hleap => nineDigits_fracText (by omega)
    rw [if_neg hzero]
    omega

theorem parseTimeStr_eq : parseTimeStr (fmtLocalTime t)=
    orRefuse ("invalid time: "++String.ofList (fmtLocalTime t))
      (fromHmsNano (hour t) (minute t) (second t) (fracRead t)) := by
  have hwords := time_words t
  have hpoint := (notMem_timeFields t (show ('.' : Char).isDigit=false by decide)).2.2
  rw [parseTimeStr,if_pos (colon_mem_fmtLocalTime t),parseColonTime,colonParts_fmtLocalTime]
  simp only [hwords.1,hwords.2.1,bind,Except.bind]
  by_cases hshown : second t≠0 ∨ t.frac≠0
  · rw [if_pos hshown]
    by_cases hzero : t.frac=0
    · have htext : secondsText t=padded 2 (second t) := by
        rw [secondsText,if_neg (not_not.mpr hzero),List.append_nil]
      have hread : fracRead t=0 := if_pos hzero
      simp only [htext,splitAtChar_none hpoint,hwords.2.2,hread]
      rfl
    · have htext : secondsText t=padded 2 (second t)++ '.'::fracText t.frac := by
        rw [secondsText,if_pos hzero,trimEndZeros_padded t.second.1]
      have hread : fracRead t=Nat.ofDigitChars 10 (nineDigits (fracText t.frac)) 0 := if_neg hzero
      have hparse := (parseFracNanos_digits (allDigits_fracText t.frac)).1
      simp only [htext,splitAtChar_append _ hpoint,hwords.2.2,hparse,hread]
  · have hsecond : second t=0 := by omega
    have hzero : t.frac=0 := by omega
    have hread : fracRead t=0 := if_pos hzero
    rw [if_neg hshown,hsecond,hread]
    rfl

theorem parseTimeStr_iff : parseTimeStr (fmtLocalTime t)=.ok t ↔ ¬t.Leap := by
  have hread := fracRead_spec t
  constructor
  · intro hback hleap
    rw [parseTimeStr_eq] at hback
    cases hsome : fromHmsNano (hour t) (minute t) (second t) (fracRead t) with
    | none => rw [hsome] at hback; cases hback
    | some back =>
      rw [hsome] at hback
      cases hback
      have hfrac := (fromHmsNano_eq hsome).2.2.2
      unfold NaiveTime.Leap at hleap
      omega
  · intro hleap
    have hself := @fromHmsNano_self t (fun h => absurd h hleap)
    rw [parseTimeStr_eq,hread.2 hleap,hself]
    rfl

theorem letter_notMem_fmtLocalTime {c : Char} (hdigit : c.isDigit=false) (hcolon : c≠ ':') (hpoint : c≠ '.') :
    c∉fmtLocalTime t := by
  have hfields := notMem_timeFields t hdigit
  have hfrac : c∉trimEndZeros (padded 9 t.frac) := by
    rw [trimEndZeros_padded t.second.1]
    intro hmem
    rw [allDigits_fracText t.frac c hmem] at hdigit
    cases hdigit
  have hseconds : c∉secondsText t := by
    intro hmem
    cases List.mem_append.mp hmem with
    | inl hfront => exact hfields.2.2 hfront
    | inr hback =>
      split_ifs at hback
      · exact (List.mem_cons.mp hback).elim hpoint hfrac
      · cases hback
  intro hmem
  by_cases hshown : second t≠0 ∨ t.frac≠0
  · rw [fmtLocalTime_seconds t hshown] at hmem
    cases List.mem_append.mp hmem with
    | inl hfront => exact hfields.1 hfront
    | inr hback =>
      cases List.mem_cons.mp hback with
      | inl heq => exact hcolon heq
      | inr hrest =>
        cases List.mem_append.mp hrest with
        | inl hmid => exact hfields.2.1 hmid
        | inr hlast => exact (List.mem_cons.mp hlast).elim hcolon hseconds
  · rw [fmtLocalTime_minute t hshown] at hmem
    cases List.mem_append.mp hmem with
    | inl hfront => exact hfields.1 hfront
    | inr hback => exact (List.mem_cons.mp hback).elim hcolon hfields.2.1

theorem fmtLocalTime_ne : fmtLocalTime t≠[] := by
  have hcolon := colon_mem_fmtLocalTime t
  intro hnil
  rw [hnil] at hcolon
  cases hcolon

end times

theorem cutAtLast_append {sep : Char} (before : List Char) {behind : List Char} (h : sep∉behind) :
    cutAtLast sep (before++sep::behind)=some (before,sep::behind) := by
  have hmem : sep∈before++sep::behind := List.mem_append_right before List.mem_cons_self
  have hreverse : (before++sep::behind).reverse=behind.reverse++sep::before.reverse := by simp
  have hcut := @cut_at sep behind.reverse before.reverse (by simpa using h)
  rw [cutAtLast,if_pos hmem,hreverse,hcut.1,hcut.2]
  simp

theorem splitBytes_front {front : List Char} (back : List Char) (h : ∀ c∈front,c.utf8Size=1) :
    splitBytes front.length (front++back)=.ok (front,back) := by
  induction front with
  | nil => rw [List.length_nil,List.nil_append,splitBytes]
  | cons c front ih =>
    have hc := h c List.mem_cons_self
    have hrest := ih (fun x hx => h x (List.mem_cons_of_mem c hx))
    have hfits : c.utf8Size≤front.length+1 := by omega
    have hleft : front.length+1-c.utf8Size=front.length := by omega
    rw [List.length_cons,List.cons_append,splitBytes,if_pos hfits,hleft,hrest]
    rfl

theorem charAtByte_front {front : List Char} (c : Char) (back : List Char) (h : ∀ c∈front,c.utf8Size=1) :
    charAtByte front.length (front++c::back)=some c := by
  induction front with
  | nil => rw [List.length_nil,List.nil_append,charAtByte]
  | cons b front ih =>
    have hb := h b List.mem_cons_self
    have hrest := ih (fun x hx => h x (List.mem_cons_of_mem b hx))
    have hfits : b.utf8Size≤front.length+1 := by omega
    have hleft : front.length+1-b.utf8Size=front.length := by omega
    rw [List.length_cons,List.cons_append,charAtByte,if_pos hfits,hleft,hrest]

theorem byteLength_append (a b : List Char) : byteLength (a++b)=byteLength a+byteLength b := by
  rw [byteLength,List.map_append,List.sum_append]
  rfl

theorem byteLength_colon (chars : List Char) : byteLength (':'::chars)=byteLength chars+1 := by
  have hcolon : (':' : Char).utf8Size=1 := by decide
  rw [byteLength,List.map_cons,List.sum_cons,hcolon,Nat.add_comm]
  rfl

section offsets

variable {h m s : Int}

theorem two_bytes (hrange : 0≤h ∧ h<100) : byteLength (padded 2 h)=2 ∧ (padded 2 h).length=2 ∧
    ∀ c∈padded 2 h,c.utf8Size=1 := by
  have hdigits := @allDigits_padded h 2 hrange.1
  have hlength := length_padded_two hrange
  have hbytes := byteLength_digits hdigits
  exact ⟨by omega,hlength,fun c hc => utf8Size_digit (hdigits c hc)⟩

theorem cut_twoDigits (hrange : 0≤h ∧ h<100) (back : List Char) :
    splitBytes 2 (padded 2 h++ ':'::back)=.ok (padded 2 h,':'::back) ∧
    splitBytes 3 (padded 2 h++ ':'::back)=.ok (padded 2 h++[':'],back) ∧
    charAtByte 2 (padded 2 h++ ':'::back)=some ':' := by
  have hbytes := two_bytes hrange
  have hcolon : ∀ c∈padded 2 h++[':'],c.utf8Size=1 := by
    intro c hc
    cases List.mem_append.mp hc with
    | inl hdigit => exact hbytes.2.2 c hdigit
    | inr hcolon => rw [List.mem_singleton.mp hcolon]; decide
  have htwo := splitBytes_front (':'::back) hbytes.2.2
  have hthree := splitBytes_front back hcolon
  have hchar := charAtByte_front ':' back hbytes.2.2
  rw [List.length_append,hbytes.2.1,List.append_assoc] at hthree
  rw [hbytes.2.1] at htwo hchar
  exact ⟨htwo,hthree,hchar⟩

theorem eastOpt_fields {text : List Char} {sign : Int} {off : FixedOffset} (hsign : sign=1 ∨ sign= -1)
    (hh : 0≤h ∧ h<100) (hm : 0≤ m ∧ m<100) (hs : 0≤ s ∧ s<100) (hoff : off.seconds=sign*(h*3600+m*60+s)) :
    eastOpt text sign h m s=.ok off := by
  have hbound := off.bound
  have hhours : wordI32 (h*3600)=.ok (h*3600) := if_pos (by omega)
  have hminutes : wordI32 (m*60)=.ok (m*60) := if_pos (by omega)
  have hclock : wordI32 (h*3600+m*60)=.ok (h*3600+m*60) := if_pos (by omega)
  have hall : wordI32 (h*3600+m*60+s)=.ok (h*3600+m*60+s) := if_pos (by omega)
  have htotal : wordI32 (sign*(h*3600+m*60+s))=.ok (sign*(h*3600+m*60+s)) := if_pos (by omega)
  rw [hoff] at hbound
  simp only [eastOpt,hhours,hminutes,hclock,hall,htotal,bind,Except.bind,dif_pos hbound]
  cases off with
  | mk seconds bound =>
    simp only at hoff
    cases hoff
    rfl

theorem offsetBody_minutes {text : List Char} {sign : Int} {off : FixedOffset} (hsign : sign=1 ∨ sign= -1)
    (hh : 0≤h ∧ h<100) (hm : 0≤ m ∧ m<100) (hoff : off.seconds=sign*(h*3600+m*60+0)) :
    offsetBody text sign (padded 2 h++ ':'::padded 2 m)=.ok off := by
  have hhour := two_bytes hh
  have hminute := two_bytes hm
  have hcut := cut_twoDigits hh (padded 2 m)
  have hbytes : byteLength (padded 2 h++ ':'::padded 2 m)=5 := by
    rw [byteLength_append,byteLength_colon,hhour.1,hminute.1]
  have hslice : sliceBytes 0 2 (padded 2 h++ ':'::padded 2 m)=.ok (padded 2 h) := by
    rw [sliceBytes,hcut.1]
    simp only [bind,Except.bind,splitBytes]
    rfl
  have hreadh : parseI32 (padded 2 h)=.ok h := parseInt_padded (by decide) hh.1 (by omega)
  have hreadm : parseI32 (padded 2 m)=.ok m := parseInt_padded (by decide) hm.1 (by omega)
  have heast := @eastOpt_fields h m 0 text sign off hsign hh hm (by decide) hoff
  have hform : byteLength (padded 2 h++ ':'::padded 2 m)=5 ∧
      charAtByte 2 (padded 2 h++ ':'::padded 2 m)=some ':' := ⟨hbytes,hcut.2.2⟩
  rw [offsetBody,if_neg (by omega),if_neg (by omega),if_pos hform]
  simp only [hslice,hcut.2.1,hreadh,hreadm,heast,bind,Except.bind]

theorem offsetBody_seconds {text : List Char} {sign : Int} {off : FixedOffset} (hsign : sign=1 ∨ sign= -1)
    (hh : 0≤h ∧ h<100) (hm : 0≤ m ∧ m<100) (hs : 0≤ s ∧ s<100) (hoff : off.seconds=sign*(h*3600+m*60+s)) :
    offsetBody text sign (padded 2 h++ ':'::(padded 2 m++ ':'::padded 2 s))=.ok off := by
  have hhour := two_bytes hh
  have hminute := two_bytes hm
  have hsecond := two_bytes hs
  have hcut := cut_twoDigits hh (padded 2 m++ ':'::padded 2 s)
  have hbytes : byteLength (padded 2 h++ ':'::(padded 2 m++ ':'::padded 2 s))=8 := by
    rw [byteLength_append,byteLength_colon,byteLength_append,byteLength_colon,hhour.1,hminute.1,hsecond.1]
  have hfront : ∀ c∈padded 2 h++ ':'::padded 2 m,c.utf8Size=1 := by
    intro c hc
    cases List.mem_append.mp hc with
    | inl hdigit => exact hhour.2.2 c hdigit
    | inr hrest =>
      cases List.mem_cons.mp hrest with
      | inl hcolon => rw [hcolon]; decide
      | inr hdigit => exact hminute.2.2 c hdigit
  have hfive := splitBytes_front (':'::padded 2 s) hfront
  have hchar := charAtByte_front ':' (padded 2 s) hfront
  have hthree := (cut_twoDigits hh (padded 2 m)).2.1
  rw [List.length_append,List.length_cons,hhour.2.1,hminute.2.1,List.append_assoc,List.cons_append] at hfive hchar
  have hsix : ∀ c∈padded 2 h++ ':'::(padded 2 m++[':']),c.utf8Size=1 := by
    intro c hc
    have heq : padded 2 h++ ':'::(padded 2 m++[':'])=(padded 2 h++ ':'::padded 2 m)++[':'] := by simp
    rw [heq] at hc
    cases List.mem_append.mp hc with
    | inl hmem => exact hfront c hmem
    | inr hcolon => rw [List.mem_singleton.mp hcolon]; decide
  have hall : ∀ c∈padded 2 h++ ':'::(padded 2 m++ ':'::padded 2 s),c.utf8Size=1 := by
    intro c hc
    have heq : padded 2 h++ ':'::(padded 2 m++ ':'::padded 2 s)=
        (padded 2 h++ ':'::(padded 2 m++[':']))++padded 2 s := by simp
    rw [heq] at hc
    exact (List.mem_append.mp hc).elim (hsix c) (hsecond.2.2 c)
  have height := splitBytes_front [] hall
  have hlast := splitBytes_front (padded 2 s) hsix
  simp only [List.length_append,List.length_cons,List.length_nil,hhour.2.1,hminute.2.1,hsecond.2.1,
    List.append_nil,List.append_assoc,List.cons_append,List.nil_append] at height hlast
  have hslice : sliceBytes 0 2 (padded 2 h++ ':'::(padded 2 m++ ':'::padded 2 s))=.ok (padded 2 h) := by
    rw [sliceBytes,hcut.1]
    simp only [bind,Except.bind,splitBytes]
    rfl
  have hmiddle : sliceBytes 3 5 (padded 2 h++ ':'::(padded 2 m++ ':'::padded 2 s))=.ok (padded 2 m) := by
    rw [sliceBytes,hfive]
    simp only [bind,Except.bind,hthree]
    rfl
  have hend : sliceBytes 6 8 (padded 2 h++ ':'::(padded 2 m++ ':'::padded 2 s))=.ok (padded 2 s) := by
    rw [sliceBytes,height]
    simp only [bind,Except.bind,hlast]
    rfl
  have hreadh : parseI32 (padded 2 h)=.ok h := parseInt_padded (by decide) hh.1 (by omega)
  have hreadm : parseI32 (padded 2 m)=.ok m := parseInt_padded (by decide) hm.1 (by omega)
  have hreads : parseI32 (padded 2 s)=.ok s := parseInt_padded (by decide) hs.1 (by omega)
  have hform : byteLength (padded 2 h++ ':'::(padded 2 m++ ':'::padded 2 s))=8 ∧
      charAtByte 2 (padded 2 h++ ':'::(padded 2 m++ ':'::padded 2 s))=some ':' ∧
      charAtByte 5 (padded 2 h++ ':'::(padded 2 m++ ':'::padded 2 s))=some ':' := ⟨hbytes,hcut.2.2,hchar⟩
  rw [offsetBody,if_neg (by omega),if_neg (by omega),if_neg (by omega),if_pos hform]
  simp only [hslice,hmiddle,hend,hreadh,hreadm,hreads,eastOpt_fields hsign hh hm hs hoff,bind,Except.bind]

end offsets

/-- A character of the text of an offset behind its sign. -/
def OffsetChar (c : Char) : Prop := c.isDigit=true ∨ c = ':'

theorem offsetChars_padded {n : Int} (h : 0≤n) : ∀ c∈padded 2 n,OffsetChar c :=
  fun c hc => .inl (allDigits_padded h c hc)

theorem offsetChars_colon {a b : List Char} (ha : ∀ c∈a,OffsetChar c) (hb : ∀ c∈b,OffsetChar c) :
    ∀ c∈a++ ':'::b,OffsetChar c := by
  intro c hc
  cases List.mem_append.mp hc with
  | inl hfront => exact ha c hfront
  | inr hback =>
    cases List.mem_cons.mp hback with
    | inl hcolon => exact .inr hcolon
    | inr hlast => exact hb c hlast

theorem parseOffset_sign (body : List Char) : parseOffset ('+'::body)=offsetBody ('+'::body) 1 body ∧
    parseOffset ('-'::body)=offsetBody ('-'::body) (-1) body := by
  unfold parseOffset
  simp

/-- An offset other than zero is printed as a sign and fields, and read from them. -/
theorem fmtOffset_signed (off : FixedOffset) (h : off.seconds≠0) : ∃ sign body,fmtOffset off=sign::body ∧
    (sign= '+' ∨ sign= '-') ∧ body≠[] ∧ (∀ c∈body,OffsetChar c) ∧ parseOffset (fmtOffset off)=.ok off := by
  have hbound := off.bound
  have hhour : 0≤(off.seconds.natAbs : Int)/3600 ∧ (off.seconds.natAbs : Int)/3600<100 := by omega
  have hminute : 0≤(off.seconds.natAbs : Int)%3600/60 ∧ (off.seconds.natAbs : Int)%3600/60<100 := by omega
  have hsecond : 0≤(off.seconds.natAbs : Int)%60 ∧ (off.seconds.natAbs : Int)%60<100 := by omega
  have hhours := offsetChars_padded hhour.1
  have hminutes := offsetChars_padded hminute.1
  have hseconds := offsetChars_padded hsecond.1
  have hne : ∀ back,padded 2 ((off.seconds.natAbs : Int)/3600)++ ':'::back≠[] := by
    intro back hnil
    exact List.cons_ne_nil _ _ (List.append_eq_nil_iff.mp hnil).2
  have hparse : ∀ body,fmtOffset off=(if off.seconds<0 then '-' else '+')::body →
      (0<off.seconds → offsetBody (fmtOffset off) 1 body=.ok off) →
      (off.seconds<0 → offsetBody (fmtOffset off) (-1) body=.ok off) → parseOffset (fmtOffset off)=.ok off := by
    intro body htext hplus hminus
    by_cases hneg : off.seconds<0
    · have hread := hminus hneg
      rw [if_pos hneg] at htext
      rw [htext] at hread ⊢
      rw [(parseOffset_sign body).2,hread]
    · have hread := hplus (by omega)
      rw [if_neg hneg] at htext
      rw [htext] at hread ⊢
      rw [(parseOffset_sign body).1,hread]
  have hsigns : (if off.seconds<0 then '-' else '+') = '+' ∨ (if off.seconds<0 then '-' else '+') = '-' := by
    split_ifs
    · exact .inr rfl
    · exact .inl rfl
  by_cases hs : (off.seconds.natAbs : Int)%60=0
  · have htext : fmtOffset off=(if off.seconds<0 then '-' else '+')::
        (padded 2 ((off.seconds.natAbs : Int)/3600)++ ':'::padded 2 ((off.seconds.natAbs : Int)%3600/60)) := by
      simp only [fmtOffset,if_neg h,if_neg (not_not.mpr hs)]
    refine ⟨_,_,htext,hsigns,hne _,offsetChars_colon hhours hminutes,hparse _ htext ?_ ?_⟩
    · exact fun hpos => offsetBody_minutes (.inl rfl) hhour hminute (by omega)
    · exact fun hneg => offsetBody_minutes (.inr rfl) hhour hminute (by omega)
  · have htext : fmtOffset off=(if off.seconds<0 then '-' else '+')::
        (padded 2 ((off.seconds.natAbs : Int)/3600)++ ':'::(padded 2 ((off.seconds.natAbs : Int)%3600/60)++ ':'::
          padded 2 ((off.seconds.natAbs : Int)%60))) := by
      simp only [fmtOffset,if_neg h,if_pos hs]
    refine ⟨_,_,htext,hsigns,hne _,offsetChars_colon hhours (offsetChars_colon hminutes hseconds),
      hparse _ htext ?_ ?_⟩
    · exact fun hpos => offsetBody_seconds (.inl rfl) hhour hminute hsecond (by omega)
    · exact fun hneg => offsetBody_seconds (.inr rfl) hhour hminute hsecond (by omega)

theorem fmtOffset_zero {off : FixedOffset} (h : off.seconds=0) : fmtOffset off=['Z'] ∧ off=utc := by
  constructor
  · simp only [fmtOffset,if_pos h]
  · cases off with
    | mk seconds bound =>
      simp only at h
      cases h
      rfl

theorem parseOffset_self (off : FixedOffset) : parseOffset (fmtOffset off)=.ok off := by
  by_cases hzero : off.seconds=0
  · have hutc := fmtOffset_zero hzero
    rw [hutc.1,hutc.2]
    rfl
  · have ⟨_,_,_,_,_,_,hparse⟩ := fmtOffset_signed off hzero
    exact hparse

theorem bracket_notMem_fmtOffset (off : FixedOffset) : '['∉fmtOffset off := by
  by_cases hzero : off.seconds=0
  · rw [(fmtOffset_zero hzero).1]
    decide
  · have ⟨sign,body,htext,hsign,_,hbody,_⟩ := fmtOffset_signed off hzero
    rw [htext]
    intro hmem
    cases List.mem_cons.mp hmem with
    | inl heq =>
      cases hsign with
      | inl hplus => rw [hplus] at heq; cases heq
      | inr hminus => rw [hminus] at heq; cases heq
    | inr hrest => cases hbody '[' hrest with
      | inl hdigit => cases hdigit
      | inr hcolon => cases hcolon

theorem splitTimeOffset_append {text : List Char} (off : FixedOffset) (hne : text≠[]) (hplus : '+'∉text) :
    splitTimeOffset (text++fmtOffset off)=(text,some (fmtOffset off)) := by
  by_cases hzero : off.seconds=0
  · rw [(fmtOffset_zero hzero).1,splitTimeOffset]
    simp
  · have ⟨sign,body,htext,hsign,hsome,hbody,_⟩ := fmtOffset_signed off hzero
    have hlast : ∀ c,c.isDigit=false → c≠ ':' → (text++sign::body).getLast?≠some c := by
      intro c hdigit hcolon heq
      have hbodyLast : (text++sign::body).getLast?=body.getLast? := by
        rw [List.getLast?_append_cons,List.getLast?_cons_of_ne_nil hsome]
      rw [hbodyLast] at heq
      cases hbody c (List.mem_of_getLast? heq) with
      | inl htrue => rw [hdigit] at htrue; cases htrue
      | inr heq => exact hcolon heq
    have hnone : ¬((text++sign::body).getLast?=some 'Z' ∨ (text++sign::body).getLast?=some 'z') := by
      intro hor
      exact hor.elim (hlast 'Z' (by decide) (by decide)) (hlast 'z' (by decide) (by decide))
    have hkeep : decide (text≠[])=true := decide_eq_true hne
    have habsent : ∀ c,c.isDigit=false → c≠ ':' → c∉body := by
      intro c hdigit hcolon hmem
      cases hbody c hmem with
      | inl htrue => rw [hdigit] at htrue; cases htrue
      | inr heq => exact hcolon heq
    rw [htext,splitTimeOffset,if_neg hnone]
    cases hsign with
    | inl heq =>
      have hcut : cutAtSign '+' (text++ '+'::body)=some (text,'+'::body) := by
        rw [cutAtSign,cutAtLast_append text (habsent '+' (by decide) (by decide)),Option.filter_some,if_pos hkeep]
      rw [heq,hcut]
      rfl
    | inr heq =>
      have hmiss : '+'∉text++ '-'::body := by
        intro hmem
        cases List.mem_append.mp hmem with
        | inl hfront => exact hplus hfront
        | inr hback =>
          cases List.mem_cons.mp hback with
          | inl hminus => cases hminus
          | inr hrest => exact habsent '+' (by decide) (by decide) hrest
      have hfirst : cutAtSign '+' (text++ '-'::body)=none := by
        rw [cutAtSign,cutAtLast,if_neg hmiss]
        rfl
      have hcut : cutAtSign '-' (text++ '-'::body)=some (text,'-'::body) := by
        rw [cutAtSign,cutAtLast_append text (habsent '-' (by decide) (by decide)),Option.filter_some,if_pos hkeep]
      rw [heq,hfirst,hcut]
      rfl

/-- A zone name as it is read: without brackets at its end. -/
def trimName (tz : String) : String := String.ofList (trimBrackets tz.toList)

/-- Zone names without a bracket at the end are the ones that are read as they are. -/
theorem trimName_iff (tz : String) : trimName tz=tz ↔ tz.toList.getLast?≠some ']' := by
  have hdrop : trimBrackets tz.toList=tz.toList.rdropWhile fun c => decide (c = ']') := rfl
  have hname : trimName tz=tz ↔ trimBrackets tz.toList=tz.toList := by
    rw [trimName,←String.toList_inj,String.toList_ofList]
  rw [hname,hdrop,List.rdropWhile_eq_self_iff]
  constructor
  · intro hkept hlast
    have hne : tz.toList≠[] := by
      intro hnil
      rw [hnil] at hlast
      cases hlast
    rw [List.getLast?_eq_getLast_of_ne_nil hne] at hlast
    exact hkept hne (decide_eq_true (Option.some.inj hlast))
  · intro hlast hne hbracket
    rw [List.getLast?_eq_getLast_of_ne_nil hne] at hlast
    exact hlast (congrArg some (of_decide_eq_true hbracket))

/-- The zone name behind a time and its offset is split off, without brackets at its end. -/
theorem splitZone_append {text : List Char} (zone : Option String) (h : '['∉text) :
    splitZone (text++displayZone zone)=(text,zone.map trimName) := by
  cases zone with
  | none =>
    rw [displayZone,List.append_nil,splitZone,splitAtChar_none h]
    rfl
  | some tz =>
    have htrim : trimBrackets (tz.toList++[']'])=trimBrackets tz.toList := by
      unfold trimBrackets
      simp
    rw [displayZone,splitZone,splitAtChar_append _ h]
    simp only [htrim]
    rfl

theorem splitDateTime_append (d : NaiveDate) (behind : List Char) :
    splitDateTime (displayDate d++ 'T'::behind)=.ok (displayDate d,behind) := by
  have hletter : 'T'∉displayDate d := letter_notMem_displayDate d (by decide) (by decide)
  rw [splitDateTime,splitAtChar_append _ hletter]
  rfl

theorem localDateTimeFromIsoString_iff (dt : NaiveDateTime) :
    localDateTimeFromIsoString (displayLocalDateTime dt)=.ok dt ↔ 0≤dt.date.year ∧ ¬dt.time.Leap := by
  rw [localDateTimeFromIsoString,displayLocalDateTime,splitDateTime_append]
  simp only [bind,Except.bind]
  constructor
  · intro hread
    have ⟨date,hdate,hread⟩ := bind_ok.mp hread
    have ⟨time,htime,hread⟩ := bind_ok.mp hread
    cases hread
    exact ⟨(parseDateStr_iff date).mp hdate,(parseTimeStr_iff time).mp htime⟩
  · intro h
    rw [(parseDateStr_iff dt.date).mpr h.1,(parseTimeStr_iff dt.time).mpr h.2]
    rfl

theorem timeFromIsoString_iff (t : NaiveTime) (off : FixedOffset) :
    timeFromIsoString (displayTime t off)=.ok (t,off) ↔ ¬t.Leap := by
  have hplus : '+'∉fmtLocalTime t := letter_notMem_fmtLocalTime t (by decide) (by decide) (by decide)
  rw [timeFromIsoString,displayTime,splitTimeOffset_append off (fmtLocalTime_ne t) hplus]
  simp only [parseOffset_self]
  constructor
  · intro hread
    have ⟨time,htime,hread⟩ := bind_ok.mp hread
    cases hread
    exact (parseTimeStr_iff t).mp htime
  · intro h
    rw [(parseTimeStr_iff t).mpr h]
    rfl

/-- Date-times are read from their date, their time, their offset and their zone name. -/
theorem dateTimeFromIsoString_iff (zones : Zones) (dt : NaiveDateTime) (off : FixedOffset) (zone : Option String) :
    dateTimeFromIsoString zones (displayDateTime dt off zone)=.ok (dt,off,zone) ↔
      0≤dt.date.year ∧ ¬dt.time.Leap ∧ zone.map trimName=zone := by
  have hplus : '+'∉fmtLocalTime dt.time := letter_notMem_fmtLocalTime dt.time (by decide) (by decide) (by decide)
  have hbracket : '['∉fmtLocalTime dt.time++fmtOffset off := by
    intro hmem
    cases List.mem_append.mp hmem with
    | inl hfront => exact letter_notMem_fmtLocalTime dt.time (by decide) (by decide) (by decide) hfront
    | inr hback => exact bracket_notMem_fmtOffset off hback
  have hzone := splitZone_append zone hbracket
  have htime := splitTimeOffset_append off (fmtLocalTime_ne dt.time) hplus
  rw [List.append_assoc] at hzone
  rw [dateTimeFromIsoString,displayDateTime,splitDateTime_append]
  simp only [bind,Except.bind,hzone,htime,parseOffset_self]
  constructor
  · intro hread
    have ⟨date,hdate,hread⟩ := bind_ok.mp hread
    have ⟨time,htime,hread⟩ := bind_ok.mp hread
    have hparts := Prod.mk.inj (Except.ok.inj hread)
    have hzones := (Prod.mk.inj hparts.2).2
    cases hparts.1
    exact ⟨(parseDateStr_iff date).mp hdate,(parseTimeStr_iff time).mp htime,hzones⟩
  · intro h
    rw [(parseDateStr_iff dt.date).mpr h.1,(parseTimeStr_iff dt.time).mpr h.2.1,h.2.2]
    rfl

/-- The text of a temporal value. -/
def displayTemporal : Temporal → List Char
  | .date d => displayDate d
  | .localTime t => fmtLocalTime t
  | .time t off => displayTime t off
  | .localDateTime dt => displayLocalDateTime dt
  | .dateTime dt off zone => displayDateTime dt off zone

/-- Read a text as a value of the type that another value has. -/
def fromIsoStringLike (zones : Zones) (s : List Char) : Temporal → Reading Temporal
  | .date _ => (parseDateStr s).map .date
  | .localTime _ => (localTimeFromIsoString s).map .localTime
  | .time _ _ => (timeFromIsoString s).map fun parts => .time parts.1 parts.2
  | .localDateTime _ => (localDateTimeFromIsoString s).map .localDateTime
  | .dateTime _ _ _ => (dateTimeFromIsoString zones s).map fun parts => .dateTime parts.1 parts.2.1 parts.2.2

/-- The parts of a temporal value that its text gives back: a date from the year
zero on, a time outside leap seconds, and a zone name without a bracket at its end. -/
structure Printable (v : Temporal) : Prop where
  /-- The year has no sign. -/
  year : ∀ d,extractDate v=some d → 0≤d.year
  /-- The time is not inside a leap second. -/
  time : ∀ t,extractTime v=some t → ¬t.Leap
  /-- The name does not end in a bracket. -/
  zone : ∀ tz,extractTzName v=some tz → tz.toList.getLast?≠some ']'

/-- A mapped reading is the value of an injective map where the reading is the value. -/
theorem map_ok_iff {α β : Type} {f : α → β} (hf : ∀ a b,f a=f b → a=b) (x : Reading α) (a : α) :
    x.map f=.ok (f a) ↔ x=.ok a := by
  cases x with
  | error e => simp [Except.map]
  | ok b =>
    constructor
    · intro heq
      exact congrArg Except.ok (hf b a (Except.ok.inj heq))
    · intro heq
      rw [heq]
      rfl

/-- A value is read back from its text when its parts are printable, and only then. -/
theorem reads_back_iff (zones : Zones) (v : Temporal) :
    fromIsoStringLike zones (displayTemporal v) v=.ok v ↔ Printable v := by
  cases v with
  | date d =>
    have hinj : ∀ a b,Temporal.date a=.date b → a=b := fun _ _ heq => Temporal.date.inj heq
    have hread := (map_ok_iff hinj (parseDateStr (displayDate d)) d).trans (parseDateStr_iff d)
    refine hread.trans ⟨fun h => ⟨?_,?_,?_⟩,fun h => h.year d rfl⟩
    · intro e he
      cases he
      exact h
    · intro t ht
      cases ht
      decide
    · intro tz htz
      cases htz
  | localTime t =>
    have hinj : ∀ a b,Temporal.localTime a=.localTime b → a=b := fun _ _ heq => Temporal.localTime.inj heq
    have hread := (map_ok_iff hinj (localTimeFromIsoString (fmtLocalTime t)) t).trans (parseTimeStr_iff t)
    refine hread.trans ⟨fun h => ⟨?_,?_,?_⟩,fun h => h.time t rfl⟩
    · intro d hd
      cases hd
    · intro u hu
      cases hu
      exact h
    · intro tz htz
      cases htz
  | time t off =>
    have hinj : ∀ a b : NaiveTime×FixedOffset,Temporal.time a.1 a.2=.time b.1 b.2 → a=b := by
      intro a b heq
      have hparts := Temporal.time.inj heq
      exact Prod.ext hparts.1 hparts.2
    have hread := (map_ok_iff hinj (timeFromIsoString (displayTime t off)) (t,off)).trans (timeFromIsoString_iff t off)
    refine hread.trans ⟨fun h => ⟨?_,?_,?_⟩,fun h => h.time t rfl⟩
    · intro d hd
      cases hd
    · intro u hu
      cases hu
      exact h
    · intro tz htz
      cases htz
  | localDateTime dt =>
    have hinj : ∀ a b,Temporal.localDateTime a=.localDateTime b → a=b := fun _ _ heq => Temporal.localDateTime.inj heq
    have hread := (map_ok_iff hinj (localDateTimeFromIsoString (displayLocalDateTime dt)) dt).trans
      (localDateTimeFromIsoString_iff dt)
    refine hread.trans ⟨fun h => ⟨?_,?_,?_⟩,fun h => ⟨h.year dt.date rfl,h.time dt.time rfl⟩⟩
    · intro d hd
      cases hd
      exact h.1
    · intro t ht
      cases ht
      exact h.2
    · intro tz htz
      cases htz
  | dateTime dt off zone =>
    have hinj : ∀ a b : NaiveDateTime×FixedOffset×Option String,
        Temporal.dateTime a.1 a.2.1 a.2.2=.dateTime b.1 b.2.1 b.2.2 → a=b := by
      intro a b heq
      have hparts := Temporal.dateTime.inj heq
      exact Prod.ext hparts.1 (Prod.ext hparts.2.1 hparts.2.2)
    have hread := (map_ok_iff hinj (dateTimeFromIsoString zones (displayDateTime dt off zone)) (dt,off,zone)).trans
      (dateTimeFromIsoString_iff zones dt off zone)
    refine hread.trans ⟨fun h => ⟨?_,?_,?_⟩,fun h => ⟨h.year dt.date rfl,h.time dt.time rfl,?_⟩⟩
    · intro d hd
      cases hd
      exact h.1
    · intro t ht
      cases ht
      exact h.2.1
    · intro tz htz
      have hzone : zone=some tz := htz
      have hname := h.2.2
      rw [hzone] at hname
      exact (trimName_iff tz).mp (Option.some.inj hname)
    · cases zone with
      | none => rfl
      | some tz => exact congrArg some ((trimName_iff tz).mpr (h.zone tz rfl))

/-- The first of January of the year before the year zero. -/
def beforeYearZero : NaiveDate := ⟨⟨-12,1,first_le,by decide⟩,by decide,by decide⟩

/-- That day is printed with four dashes, which is refused: values are not all read back. -/
theorem reads_back_fails : ¬∀ (zones : Zones) (v : Temporal),fromIsoStringLike zones (displayTemporal v) v=.ok v := by
  intro hall
  have hread := hall ⟨fun _ => false,fun _ _ => none,fun _ _ => utc⟩ (.date beforeYearZero)
  have hrefused := parseDateStr_before beforeYearZero (by decide)
  have heq : fromIsoStringLike ⟨fun _ => false,fun _ _ => none,fun _ _ => utc⟩
      (displayTemporal (.date beforeYearZero)) (.date beforeYearZero)=
      (parseDateStr (displayDate beforeYearZero)).map .date := rfl
  rw [heq,hrefused] at hread
  cases hread

end GraphDbLite.TemporalRoundTrip
