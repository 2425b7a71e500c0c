import GraphDbLite.TextCuts

/-!
# Panics while dates and times are read

Fields of an offset are too short to leave a word. What remains are the cuts in
compact dates, weeks, times and offsets, and behind the ninth byte of a fraction.
Each reader's condition looks at a cut only where the fields in front of it are
read, as the reader refuses before it comes to the cut otherwise.
-/

namespace GraphDbLite.TemporalPanics

open TemporalValues DurationText TemporalMaps TemporalTexts TemporalRoundTrip TextCuts

section offsets

variable {text body : List Char} {sign hh mm ss : Int}

theorem noPanic_eastOpt (hsign : sign=1 ∨ sign= -1) (hh2 : -99≤hh ∧ hh≤99) (hm2 : -99≤ mm ∧ mm≤99)
    (hs2 : -99≤ ss ∧ ss≤99) : NoPanic (eastOpt text sign hh mm ss) := by
  have hhours : wordI32 (hh*3600)=.ok (hh*3600) := if_pos (by omega)
  have hminutes : wordI32 (mm*60)=.ok (mm*60) := if_pos (by omega)
  have hclock : wordI32 (hh*3600+mm*60)=.ok (hh*3600+mm*60) := if_pos (by omega)
  have hall : wordI32 (hh*3600+mm*60+ss)=.ok (hh*3600+mm*60+ss) := if_pos (by omega)
  have htotal : wordI32 (sign*(hh*3600+mm*60+ss))=.ok (sign*(hh*3600+mm*60+ss)) := by
    cases hsign with
    | inl hplus => rw [hplus]; exact if_pos (by omega)
    | inr hminus => rw [hminus]; exact if_pos (by omega)
  simp only [eastOpt,hhours,hminutes,hclock,hall,htotal,bind,Except.bind]
  split_ifs
  · exact noPanic_ok _
  · exact noPanic_refuse _

/-- Four bytes behind a sign are cut in the middle. -/
def OffsetCut (body : List Char) : Prop := byteLength body=4 → Boundary 2 body

theorem noPanic_offsetFour (hsign : sign=1 ∨ sign= -1) (hlength : byteLength body=4) :
    NoPanic (offsetBody text sign body) ↔ Boundary 2 body := by
  have htwo : ¬byteLength body=2 := by omega
  rw [offsetBody,if_neg htwo,if_pos hlength,noPanic_bind,noPanic_splitBytes]
  refine ⟨fun h => h.1,fun h => ⟨h,?_⟩⟩
  intro parts hparts
  have hcut := splitBytes_ok.mp hparts
  have hbytes := byteLength_append parts.1 parts.2
  rw [←hcut.1] at hbytes
  rw [noPanic_bind]
  refine ⟨noPanic_parseInt _,?_⟩
  intro hour hhour
  rw [noPanic_bind]
  refine ⟨noPanic_parseInt _,?_⟩
  intro min hmin
  exact noPanic_eastOpt hsign (parseI32_two hcut.2 hhour) (parseI32_two (by omega) hmin) (by decide)

theorem noPanic_field {α : Type} {start : Nat} {next : Int → Reading α} (hstart : Boundary start body)
    (hend : Boundary (start+2) body) (hnext : ∀ n,-99≤n ∧ n≤99 → NoPanic (next n)) :
    NoPanic (do
      let n ← parseI32 (← sliceBytes start (start+2) body)
      next n) := by
  rw [noPanic_bind,noPanic_sliceBytes (by omega)]
  refine ⟨⟨hend,hstart⟩,?_⟩
  intro slice hslice
  obtain ⟨_,_,_,_,hbytes⟩ := (sliceBytes_ok (by omega)).mp hslice
  rw [noPanic_bind]
  exact ⟨noPanic_parseInt _,fun n hn => hnext n (parseI32_two (by omega) hn)⟩

theorem noPanic_offsetFive (hsign : sign=1 ∨ sign= -1) (hform : byteLength body=5 ∧ charAtByte 2 body=some ':') :
    NoPanic (offsetBody text sign body) := by
  have htwo : ¬byteLength body=2 := by omega
  have hfour : ¬byteLength body=4 := by omega
  have hcolon := boundary_charAtByte hform.2
  rw [offsetBody,if_neg htwo,if_neg hfour,if_pos hform]
  refine noPanic_field ⟨[],body,rfl,rfl⟩ hcolon.1 fun hour hhour => ?_
  rw [noPanic_bind,noPanic_splitBytes]
  refine ⟨hcolon.2,?_⟩
  intro parts hparts
  have hcut := splitBytes_ok.mp hparts
  have hbytes := byteLength_append parts.1 parts.2
  rw [←hcut.1] at hbytes
  rw [noPanic_bind]
  refine ⟨noPanic_parseInt _,?_⟩
  intro min hmin
  exact noPanic_eastOpt hsign hhour (parseI32_two (by omega) hmin) (by decide)

theorem noPanic_offsetEight (hsign : sign=1 ∨ sign= -1)
    (hform : byteLength body=8 ∧ charAtByte 2 body=some ':' ∧ charAtByte 5 body=some ':') :
    NoPanic (offsetBody text sign body) := by
  have htwo : ¬byteLength body=2 := by omega
  have hfour : ¬byteLength body=4 := by omega
  have hfive : ¬(byteLength body=5 ∧ charAtByte 2 body=some ':') := by omega
  have hfirst := boundary_charAtByte hform.2.1
  have hsecond := boundary_charAtByte hform.2.2
  have hwhole : Boundary 8 body := ⟨body,[],by rw [List.append_nil],hform.1⟩
  rw [offsetBody,if_neg htwo,if_neg hfour,if_neg hfive,if_pos hform]
  refine noPanic_field ⟨[],body,rfl,rfl⟩ hfirst.1 fun hour hhour => ?_
  refine noPanic_field hfirst.2 hsecond.1 fun min hmin => ?_
  exact noPanic_field hsecond.2 hwhole fun sec hsec => noPanic_eastOpt hsign hhour hmin hsec

/-- What stands behind the sign of an offset is read without a panic when its four
bytes are cut in the middle. -/
theorem noPanic_offsetBody (hsign : sign=1 ∨ sign= -1) :
    NoPanic (offsetBody text sign body) ↔ OffsetCut body := by
  unfold OffsetCut
  by_cases hfour : byteLength body=4
  · exact (noPanic_offsetFour hsign hfour).trans ⟨fun h _ => h,fun h => h hfour⟩
  · refine ⟨fun _ h => absurd h hfour,fun _ => ?_⟩
    by_cases hfive : byteLength body=5 ∧ charAtByte 2 body=some ':'
    · exact noPanic_offsetFive hsign hfive
    · by_cases height : byteLength body=8 ∧ charAtByte 2 body=some ':' ∧ charAtByte 5 body=some ':'
      · exact noPanic_offsetEight hsign height
      · by_cases htwo : byteLength body=2
        · rw [offsetBody,if_pos htwo,noPanic_bind]
          refine ⟨noPanic_parseInt _,?_⟩
          intro hour hhour
          exact noPanic_eastOpt hsign (parseI32_two htwo hhour) (by decide) (by decide)
        · rw [offsetBody,if_neg htwo,if_neg hfour,if_neg hfive,if_neg height]
          exact noPanic_refuse _

/-- An offset of four bytes behind its sign is cut in the middle of them. -/
def OffsetSafe (s : List Char) : Prop :=
  ∀ sign body,s=sign::body → (sign= '+' ∨ sign= '-') → OffsetCut body

theorem noPanic_parseOffset (s : List Char) : NoPanic (parseOffset s) ↔ OffsetSafe s := by
  unfold OffsetSafe
  cases s with
  | nil =>
    refine ⟨fun _ _ _ h => (nomatch h),fun _ => ?_⟩
    exact noPanic_refuse _
  | cons c body =>
    by_cases hplus : c = '+'
    · rw [hplus,(parseOffset_sign body).1,noPanic_offsetBody (.inl rfl)]
      constructor
      · intro h sign rest heq _
        rw [←(List.cons.inj heq).2]
        exact h
      · intro h
        exact h '+' body rfl (.inl rfl)
    · by_cases hminus : c = '-'
      · rw [hminus,(parseOffset_sign body).2,noPanic_offsetBody (.inr rfl)]
        constructor
        · intro h sign rest heq _
          rw [←(List.cons.inj heq).2]
          exact h
        · intro h
          exact h '-' body rfl (.inr rfl)
      · refine ⟨?_,fun _ => ?_⟩
        · intro _ sign rest heq hsign
          rw [←(List.cons.inj heq).1] at hsign
          exact absurd hsign (fun hor => hor.elim hplus hminus)
        · unfold parseOffset
          split_ifs
          · exact noPanic_ok _
          · split
            · next heq => exact absurd (List.cons.inj heq).1 hplus
            · next heq => exact absurd (List.cons.inj heq).1 hminus
            · exact noPanic_refuse _

end offsets

/-- The text is an unsigned number of 32 bits. -/
def IsU32 (chars : List Char) : Prop := ∃ n,parseU32 chars=.ok n

/-- The text is a signed number of 32 bits. -/
def IsI32 (chars : List Char) : Prop := ∃ n,parseI32 chars=.ok n

/-- A text is cut at one byte, and at a later one where a number stands in front of the first. -/
def StepCut (isNumber : List Char → Prop) (a b : Nat) (s : List Char) : Prop :=
  Boundary a s ∧ ∀ front back,s=front++back → byteLength front=a → isNumber front → Boundary b s

/-- Two slices next to each other are read without a panic when the text is cut at
both ends, at the second one where the first slice is a number. -/
theorem noPanic_twoSlices {β : Type} {read read' : List Char → Reading Int} {f : Int → Int → Reading β}
    {a b : Nat} {s : List Char} (hread : ∀ x,NoPanic (read x)) (hread' : ∀ x,NoPanic (read' x)) (hab : a≤b)
    (hf : Boundary b s → ∀ x y,NoPanic (f x y)) :
    NoPanic (sliceBytes 0 a s >>= fun p => read p >>= fun x => sliceBytes a b s >>= fun q =>
      read' q >>= fun y => f x y) ↔ StepCut (fun chars => ∃ n,read chars=.ok n) a b s := by
  have hzero : Boundary 0 s := ⟨[],s,rfl,rfl⟩
  rw [noPanic_bind,noPanic_sliceBytes (Nat.zero_le a)]
  constructor
  · intro h
    refine ⟨h.1.1,?_⟩
    intro front back heq hbytes ⟨n,hn⟩
    have hslice : sliceBytes 0 a s=.ok front :=
      (sliceBytes_ok (Nat.zero_le a)).mpr ⟨[],back,heq,rfl,hbytes⟩
    have hrest := h.2 front hslice
    rw [noPanic_bind] at hrest
    have hsecond := hrest.2 n hn
    rw [noPanic_bind,noPanic_sliceBytes hab] at hsecond
    exact hsecond.1.1
  · intro h
    refine ⟨⟨h.1,hzero⟩,?_⟩
    intro p hp
    have ⟨front,back,heq,hfront,hbytes⟩ := (sliceBytes_ok (Nat.zero_le a)).mp hp
    rw [byteLength_zero.mp hfront,List.nil_append] at heq
    rw [noPanic_bind]
    refine ⟨hread p,?_⟩
    intro x hx
    have hb := h.2 p back heq hbytes ⟨x,hx⟩
    rw [noPanic_bind,noPanic_sliceBytes hab]
    refine ⟨⟨hb,h.1⟩,?_⟩
    intro q _
    rw [noPanic_bind]
    exact ⟨hread' q,fun y _ => hf hb x y⟩

section dates

variable {s : List Char}

/-- A week, and a weekday behind it, are cut where the year is a number. -/
def WeekCut (s : List Char) : Prop :=
  ∀ year afterW,splitAtChar 'W' (s.filter fun c => decide (c≠ '-'))=some (year,afterW) → IsI32 year →
    3≤byteLength afterW → StepCut IsU32 2 3 afterW

theorem noPanic_weekFields {afterW : List Char} :
    NoPanic (weekFields s afterW) ↔ (3≤byteLength afterW → StepCut IsU32 2 3 afterW) := by
  have hread : ∀ x,NoPanic (parseU32 x) := fun x => noPanic_parseInt x
  have hlast : Boundary 3 afterW → ∀ x y : Int,NoPanic (pure (x,y) : Reading (Int×Int)) :=
    fun _ x y => noPanic_ok (x,y)
  unfold weekFields
  by_cases hlong : 3≤byteLength afterW
  · rw [if_pos hlong]
    exact (noPanic_twoSlices hread hread (by decide) hlast).trans ⟨fun h _ => h,fun h => h hlong⟩
  · refine ⟨fun _ h => absurd h hlong,fun _ => ?_⟩
    rw [if_neg hlong]
    by_cases htwo : byteLength afterW=2
    · have hone : ∀ wk : Int,NoPanic (pure (wk,1) : Reading (Int×Int)) := fun wk => noPanic_ok (wk,1)
      rw [if_pos htwo,noPanic_bind_of hone]
      exact hread afterW
    · rw [if_neg htwo]
      exact noPanic_refuse _

theorem noPanic_parseWeekDate : NoPanic (parseWeekDate s) ↔ WeekCut s := by
  have hend : ∀ (fields : Int×Int) year,NoPanic (if 1≤fields.2 ∧ fields.2≤7 then
      orRefuse ("invalid week date: "++String.ofList s) (DateFields.fromIsoywd year fields.1 (fields.2-1))
      else refuse (s!"invalid day of week {fields.2} in: "++String.ofList s)) := by
    intro fields year
    split_ifs
    · exact noPanic_orRefuse _ _
    · exact noPanic_refuse _
  unfold parseWeekDate WeekCut
  simp only
  rw [noPanic_bind]
  constructor
  · intro h year afterW hparts ⟨n,hn⟩
    have hyear := h.2 (year,afterW) (by rw [hparts]; rfl)
    rw [noPanic_bind] at hyear
    have hfields := hyear.2 n hn
    rw [noPanic_bind_of (fun fields => hend fields n),noPanic_weekFields] at hfields
    exact hfields
  · intro h
    refine ⟨noPanic_orRefuse _ _,?_⟩
    intro parts hparts
    cases hcut : splitAtChar 'W' (s.filter fun c => decide (c≠ '-')) with
    | none => rw [hcut] at hparts; cases hparts
    | some found =>
      rw [hcut] at hparts
      cases hparts
      rw [noPanic_bind]
      refine ⟨noPanic_parseInt _,?_⟩
      intro n hn
      rw [noPanic_bind_of (fun fields => hend fields n),noPanic_weekFields]
      exact h parts.1 parts.2 hcut ⟨n,hn⟩

theorem noPanic_parseDashedDate : NoPanic (parseDashedDate s) := by
  unfold parseDashedDate
  split
  · rw [noPanic_bind]
    refine ⟨noPanic_parseInt _,fun _ _ => ?_⟩
    rw [noPanic_bind]
    refine ⟨noPanic_parseInt _,fun _ _ => ?_⟩
    rw [noPanic_bind]
    exact ⟨noPanic_parseInt _,fun _ _ => noPanic_orRefuse _ _⟩
  · rw [noPanic_bind]
    refine ⟨noPanic_parseInt _,fun _ _ => ?_⟩
    rw [noPanic_bind]
    refine ⟨noPanic_parseInt _,fun _ _ => ?_⟩
    split_ifs
    · exact noPanic_orRefuse _ _
    · exact noPanic_orRefuse _ _
  · exact noPanic_refuse _

/-- A date of eight bytes is cut behind its year, and behind its month where the year
is a number; one of seven or six bytes behind its year. -/
structure CompactDateCut (s : List Char) : Prop where
  /-- Year, month and day. -/
  eight : byteLength s=8 → StepCut IsI32 4 6 s
  /-- Year and ordinal, or year and month. -/
  short : byteLength s=7 ∨ byteLength s=6 → Boundary 4 s

theorem noPanic_yearField {read : Int → Int → Option NaiveDate} {source : String} :
    NoPanic (splitBytes 4 s >>= fun parts => parseI32 parts.1 >>= fun y => parseU32 parts.2 >>= fun n =>
      orRefuse source (read y n)) ↔ Boundary 4 s := by
  rw [noPanic_bind,noPanic_splitBytes]
  refine ⟨fun h => h.1,fun h => ⟨h,fun parts _ => ?_⟩⟩
  rw [noPanic_bind]
  refine ⟨noPanic_parseInt _,fun _ _ => ?_⟩
  rw [noPanic_bind]
  exact ⟨noPanic_parseInt _,fun _ _ => noPanic_orRefuse _ _⟩

theorem noPanic_parseCompactDate : NoPanic (parseCompactDate s) ↔ CompactDateCut s := by
  unfold parseCompactDate
  by_cases height : byteLength s=8
  · have hlast : Boundary 6 s → ∀ y m : Int,NoPanic (splitBytes 6 s >>= fun parts => parseU32 parts.2 >>= fun d =>
        orRefuse ("invalid date: "++String.ofList s) (fromYmd y m d)) := by
      intro hcut y m
      rw [noPanic_bind,noPanic_splitBytes]
      refine ⟨hcut,fun parts _ => ?_⟩
      rw [noPanic_bind]
      exact ⟨noPanic_parseInt _,fun _ _ => noPanic_orRefuse _ _⟩
    rw [if_pos height]
    refine (noPanic_twoSlices (fun x => noPanic_parseInt x) (fun x => noPanic_parseInt x) (by decide) hlast).trans ?_
    exact ⟨fun h => ⟨fun _ => h,fun hshort => by omega⟩,fun h => h.eight height⟩
  · rw [if_neg height]
    by_cases hseven : byteLength s=7
    · rw [if_pos hseven]
      exact noPanic_yearField.trans ⟨fun h => ⟨fun h8 => absurd h8 height,fun _ => h⟩,fun h => h.short (.inl hseven)⟩
    · rw [if_neg hseven]
      by_cases hsix : byteLength s=6
      · rw [if_pos hsix]
        have hcut := @noPanic_yearField s (fun y m => fromYmd y m 1) ("invalid date: "++String.ofList s)
        exact hcut.trans ⟨fun h => ⟨fun h8 => absurd h8 height,fun _ => h⟩,fun h => h.short (.inr hsix)⟩
      · rw [if_neg hsix]
        refine ⟨fun _ => ⟨fun h8 => absurd h8 height,fun hshort => hshort.elim (absurd · hseven) (absurd · hsix)⟩,
          fun _ => ?_⟩
        split_ifs
        · rw [noPanic_bind]
          exact ⟨noPanic_parseInt _,fun _ _ => noPanic_orRefuse _ _⟩
        · exact noPanic_refuse _

/-- Weeks and compact dates are cut. -/
def DateSafe (s : List Char) : Prop := if 'W'∈s then WeekCut s else '-'∈s ∨ CompactDateCut s

theorem noPanic_parseDateStr (s : List Char) : NoPanic (parseDateStr s) ↔ DateSafe s := by
  unfold parseDateStr DateSafe
  by_cases hweek : 'W'∈s
  · rw [if_pos hweek,if_pos hweek]
    exact noPanic_parseWeekDate
  · rw [if_neg hweek,if_neg hweek]
    by_cases hdash : '-'∈s
    · rw [if_pos hdash]
      exact ⟨fun _ => .inl hdash,fun _ => noPanic_parseDashedDate⟩
    · rw [if_neg hdash]
      exact noPanic_parseCompactDate.trans ⟨.inr,fun h => h.resolve_left hdash⟩

end dates

section times

variable {s : List Char}

/-- Behind hours, minutes and seconds that are numbers the fraction is cut. -/
def ColonCut (s : List Char) : Prop :=
  IsU32 (colonParts s).1 → IsU32 (colonParts s).2.1 → ∀ sec int frac,(colonParts s).2.2=some sec →
    splitAtChar '.' sec=some (int,frac) → IsU32 int → FractionCut frac

theorem noPanic_parseColonTime : NoPanic (parseColonTime s) ↔ ColonCut s := by
  unfold parseColonTime ColonCut
  rw [noPanic_bind]
  constructor
  · intro h ⟨hour,hhour⟩ ⟨min,hmin⟩ sec int frac hsec hpoint ⟨n,hn⟩
    have hminute := h.2 hour hhour
    rw [noPanic_bind] at hminute
    have hsecond := hminute.2 min hmin
    simp only [hsec,hpoint] at hsecond
    rw [noPanic_bind] at hsecond
    have hfrac := hsecond.2 n hn
    rw [noPanic_bind] at hfrac
    exact noPanic_parseFracNanos.mp hfrac.1
  · intro h
    refine ⟨noPanic_parseInt _,?_⟩
    intro hour hhour
    rw [noPanic_bind]
    refine ⟨noPanic_parseInt _,?_⟩
    intro min hmin
    have hcut := h ⟨hour,hhour⟩ ⟨min,hmin⟩
    cases hsec : (colonParts s).2.2 with
    | none => exact noPanic_orRefuse _ _
    | some sec =>
      cases hpoint : splitAtChar '.' sec with
      | none =>
        simp only [hpoint]
        rw [noPanic_bind]
        exact ⟨noPanic_parseInt _,fun _ _ => noPanic_orRefuse _ _⟩
      | some parts =>
        simp only [hpoint]
        rw [noPanic_bind]
        refine ⟨noPanic_parseInt _,?_⟩
        intro n hn
        rw [noPanic_bind]
        refine ⟨noPanic_parseFracNanos.mpr (hcut sec parts.1 parts.2 hsec hpoint ⟨n,hn⟩),?_⟩
        exact fun _ _ => noPanic_orRefuse _ _

/-- Four digits are cut in the middle; six are cut behind the hour, and behind the
minute where the hour is a number. -/
structure DigitsCut (digits : List Char) : Prop where
  /-- Hour and minute. -/
  four : byteLength digits=4 → Boundary 2 digits
  /-- Hour, minute and second. -/
  six : byteLength digits=6 → StepCut IsU32 2 4 digits

/-- The digits are one, two or three fields of two bytes that are numbers. -/
def FieldsRead (digits : List Char) : Prop :=
  ∃ fields : List (List Char),(1≤fields.length ∧ fields.length≤3) ∧ digits=fields.flatten ∧
    ∀ field∈fields,byteLength field=2 ∧ IsU32 field

theorem noPanic_compactFields {digits : List Char} : NoPanic (compactFields s digits) ↔ DigitsCut digits := by
  unfold compactFields
  by_cases htwo : byteLength digits=2
  · have hlast : ∀ h : Int,NoPanic (pure (h,0,0) : Reading (Int×Int×Int)) := fun h => noPanic_ok (h,0,0)
    rw [if_pos htwo,noPanic_bind_of hlast]
    exact ⟨fun _ => ⟨fun h => by omega,fun h => by omega⟩,fun _ => noPanic_parseInt _⟩
  · rw [if_neg htwo]
    by_cases hfour : byteLength digits=4
    · rw [if_pos hfour,noPanic_bind,noPanic_splitBytes]
      refine ⟨fun h => ⟨fun _ => h.1,fun h6 => by omega⟩,fun h => ⟨h.four hfour,fun parts _ => ?_⟩⟩
      rw [noPanic_bind]
      refine ⟨noPanic_parseInt _,fun _ _ => ?_⟩
      rw [noPanic_bind]
      exact ⟨noPanic_parseInt _,fun _ _ => noPanic_ok _⟩
    · rw [if_neg hfour]
      by_cases hsix : byteLength digits=6
      · have hlast : Boundary 4 digits → ∀ hh mm : Int,NoPanic (splitBytes 4 digits >>= fun parts =>
            parseU32 parts.2 >>= fun ss => (pure (hh,mm,ss) : Reading (Int×Int×Int))) := by
          intro hcut hh mm
          rw [noPanic_bind,noPanic_splitBytes]
          refine ⟨hcut,fun parts _ => ?_⟩
          rw [noPanic_bind]
          exact ⟨noPanic_parseInt _,fun _ _ => noPanic_ok _⟩
        rw [if_pos hsix]
        refine (noPanic_twoSlices (fun x => noPanic_parseInt x) (fun x => noPanic_parseInt x)
          (by decide) hlast).trans ?_
        exact ⟨fun h => ⟨fun h4 => absurd h4 hfour,fun _ => h⟩,fun h => h.six hsix⟩
      · rw [if_neg hsix]
        exact ⟨fun _ => ⟨fun h => absurd h hfour,fun h => absurd h hsix⟩,fun _ => noPanic_refuse _⟩

theorem compactFields_ok {digits : List Char} : (∃ fields,compactFields s digits=.ok fields) ↔ FieldsRead digits := by
  unfold compactFields
  constructor
  · intro ⟨fields,h⟩
    split_ifs at h with htwo hfour hsix
    · have ⟨hh,hhour,_⟩ := bind_ok.mp h
      refine ⟨[digits],⟨by simp,by simp⟩,by simp,?_⟩
      intro field hfield
      rw [List.mem_singleton.mp hfield]
      exact ⟨htwo,hh,hhour⟩
    · have ⟨parts,hparts,h⟩ := bind_ok.mp h
      have ⟨hh,hhour,h⟩ := bind_ok.mp h
      have ⟨mm,hmin,_⟩ := bind_ok.mp h
      have hcut := splitBytes_ok.mp hparts
      have hbytes := byteLength_append parts.1 parts.2
      rw [←hcut.1] at hbytes
      refine ⟨[parts.1,parts.2],⟨by simp,by simp⟩,?_,?_⟩
      · rw [hcut.1]
        simp
      · intro field hfield
        cases List.mem_cons.mp hfield with
        | inl heq => rw [heq]; exact ⟨hcut.2,hh,hhour⟩
        | inr hrest =>
          rw [List.mem_singleton.mp hrest]
          exact ⟨by omega,mm,hmin⟩
    · have ⟨first,hfirst,h⟩ := bind_ok.mp h
      have ⟨hh,hhour,h⟩ := bind_ok.mp h
      have ⟨second,hsecond,h⟩ := bind_ok.mp h
      have ⟨mm,hmin,h⟩ := bind_ok.mp h
      have ⟨parts,hparts,h⟩ := bind_ok.mp h
      have ⟨ss,hsec,_⟩ := bind_ok.mp h
      have ⟨front,behind,heq,hfront,hfirstBytes⟩ := (sliceBytes_ok (by decide)).mp hfirst
      have ⟨front',back,heq',hfront',hsecondBytes⟩ := (sliceBytes_ok (by decide)).mp hsecond
      have hcut := splitBytes_ok.mp hparts
      rw [byteLength_zero.mp hfront,List.nil_append] at heq
      have hstart := front_unique (heq.symm.trans heq') (by omega)
      rw [hstart.2] at heq
      have hsplit : first++second++back=parts.1++parts.2 := by
        rw [List.append_assoc,←heq,hcut.1]
      have hparts := front_unique hsplit (by rw [byteLength_append]; omega)
      have hbytes := byteLength_append parts.1 parts.2
      rw [←hcut.1] at hbytes
      refine ⟨[first,second,parts.2],⟨by simp,by simp⟩,?_,?_⟩
      · rw [heq,←hparts.2]
        simp
      · intro field hfield
        cases List.mem_cons.mp hfield with
        | inl heq => rw [heq]; exact ⟨hfirstBytes,hh,hhour⟩
        | inr hrest =>
          cases List.mem_cons.mp hrest with
          | inl heq => rw [heq]; exact ⟨hsecondBytes,mm,hmin⟩
          | inr hlast =>
            rw [List.mem_singleton.mp hlast]
            exact ⟨by omega,ss,hsec⟩
    · cases h
  · intro ⟨fields,hcount,hflat,hfields⟩
    match fields,hcount,hflat,hfields with
    | [first],_,hflat,hfields =>
      have ⟨hbytes,hh,hhour⟩ := hfields first (by simp)
      rw [List.flatten_singleton] at hflat
      rw [hflat,if_pos hbytes,hhour]
      exact ⟨_,rfl⟩
    | [first,second],_,hflat,hfields =>
      have ⟨hbytes,hh,hhour⟩ := hfields first (by simp)
      have ⟨hbytes',mm,hmin⟩ := hfields second (by simp)
      have hflat : digits=first++second := by rw [hflat]; simp
      have hlength := byteLength_append first second
      rw [←hflat] at hlength
      have hcut : splitBytes 2 digits=.ok (first,second) := splitBytes_ok.mpr ⟨hflat,hbytes⟩
      rw [if_neg (by omega),if_pos (by omega),hcut]
      simp only [bind,Except.bind,hhour,hmin]
      exact ⟨_,rfl⟩
    | [first,second,third],_,hflat,hfields =>
      have ⟨hbytes,hh,hhour⟩ := hfields first (by simp)
      have ⟨hbytes',mm,hmin⟩ := hfields second (by simp)
      have ⟨hbytes'',ss,hsec⟩ := hfields third (by simp)
      have hflat : digits=first++(second++third) := by rw [hflat]; simp
      have hlength := byteLength_append first (second++third)
      rw [←hflat,byteLength_append] at hlength
      have hfirst : sliceBytes 0 2 digits=.ok first :=
        (sliceBytes_ok (by decide)).mpr ⟨[],second++third,hflat,rfl,hbytes⟩
      have hsecond : sliceBytes 2 4 digits=.ok second :=
        (sliceBytes_ok (by decide)).mpr ⟨first,third,hflat,hbytes,hbytes'⟩
      have hcut : splitBytes 4 digits=.ok (first++second,third) := by
        apply splitBytes_ok.mpr
        simp only [byteLength_append]
        exact ⟨by rw [hflat,List.append_assoc],by omega⟩
      rw [if_neg (by omega),if_neg (by omega),if_pos (by omega),hfirst]
      simp only [bind,Except.bind,hhour,hmin,hsecond,hcut,hsec]
      exact ⟨_,rfl⟩

/-- The digits of a compact time are cut, and behind fields that are numbers its fraction. -/
structure CompactTimeCut (s : List Char) : Prop where
  /-- The digits. -/
  digits : DigitsCut (compactParts s).1
  /-- The fraction. -/
  fraction : ∀ frac,(compactParts s).2=some frac → FieldsRead (compactParts s).1 → FractionCut frac

theorem noPanic_parseCompactTime : NoPanic (parseCompactTime s) ↔ CompactTimeCut s := by
  unfold parseCompactTime
  rw [noPanic_bind,noPanic_compactFields]
  constructor
  · intro h
    refine ⟨h.1,?_⟩
    intro frac hfrac hread
    have ⟨fields,hfields⟩ := (compactFields_ok (s:=s)).mpr hread
    have hnano := h.2 fields hfields
    simp only [hfrac] at hnano
    rw [noPanic_bind] at hnano
    exact noPanic_parseFracNanos.mp hnano.1
  · intro h
    refine ⟨h.digits,?_⟩
    intro fields hfields
    cases hfrac : (compactParts s).2 with
    | none => exact noPanic_orRefuse _ _
    | some frac =>
      have hcut := h.fraction frac hfrac (compactFields_ok.mp ⟨fields,hfields⟩)
      simp only
      rw [noPanic_bind]
      exact ⟨noPanic_parseFracNanos.mpr hcut,fun _ _ => noPanic_orRefuse _ _⟩

/-- Compact times and fractions are cut. -/
def TimeSafe (s : List Char) : Prop := if ':'∈s then ColonCut s else CompactTimeCut s

theorem noPanic_parseTimeStr (s : List Char) : NoPanic (parseTimeStr s) ↔ TimeSafe s := by
  unfold parseTimeStr TimeSafe
  by_cases hcolon : ':'∈s
  · rw [if_pos hcolon,if_pos hcolon]
    exact noPanic_parseColonTime
  · rw [if_neg hcolon,if_neg hcolon]
    exact noPanic_parseCompactTime

end times

/-- A date stands in the text. -/
def IsDate (s : List Char) : Prop := ∃ d,parseDateStr s=.ok d

/-- A time stands in the text. -/
def IsTime (s : List Char) : Prop := ∃ t,parseTimeStr s=.ok t

/-- The time is safe, and the offset behind a time that is one. -/
def OffsetTimeSafe (parts : List Char×Option (List Char)) : Prop :=
  TimeSafe parts.1 ∧ ∀ off,parts.2=some off → IsTime parts.1 → OffsetSafe off

/-- A time before what its offset decides is read without a panic when both are safe. -/
theorem noPanic_offsetTime {α : Type} {parts : List Char×Option (List Char)} {rest : NaiveTime → Reading α}
    (hnone : parts.2=none → ∀ t,NoPanic (rest t))
    (hsome : ∀ t off,parts.2=some off → (NoPanic (rest t) ↔ NoPanic (parseOffset off))) :
    NoPanic (parseTimeStr parts.1 >>= rest) ↔ OffsetTimeSafe parts := by
  rw [OffsetTimeSafe,noPanic_bind,noPanic_parseTimeStr]
  refine and_congr_right fun _ => ⟨?_,?_⟩
  · intro h off hoff ⟨t,ht⟩
    exact (noPanic_parseOffset off).mp ((hsome t off hoff).mp (h t ht))
  · intro h t ht
    cases hoff : parts.2 with
    | none => exact hnone hoff t
    | some off => exact (hsome t off hoff).mpr ((noPanic_parseOffset off).mpr (h off hoff ⟨t,ht⟩))

/-- Times with an offset are read without a panic when time and offset are safe. -/
theorem noPanic_timeFromIsoString (s : List Char) :
    NoPanic (timeFromIsoString s) ↔ OffsetTimeSafe (splitTimeOffset s) := by
  refine noPanic_offsetTime (fun hnone t => ?_) fun t off hoff => ?_
  · simp only [hnone]
    exact noPanic_ok _
  · simp only [hoff]
    exact noPanic_bind_of fun _ => noPanic_ok _

/-- Where the text has a separator, the date in front of it is safe, and what
stands behind a date that is one. -/
def SplitSafe (s : List Char) (behind : List Char → Prop) : Prop :=
  ∀ date time,(splitAtChar 'T' s).or (splitAtChar 't' s)=some (date,time) →
    DateSafe date ∧ (IsDate date → behind time)

/-- A date and what stands behind it are read without a panic when both are safe. -/
theorem noPanic_splitDateTime {β : Type} {s : List Char} {f : NaiveDate → List Char → Reading β}
    {behind : List Char → Prop} (hf : ∀ d time,NoPanic (f d time) ↔ behind time) :
    NoPanic (splitDateTime s >>= fun parts => parseDateStr parts.1 >>= fun d => f d parts.2) ↔
      SplitSafe s behind := by
  unfold splitDateTime SplitSafe
  rw [noPanic_bind]
  constructor
  · intro h date time hparts
    have hdate := h.2 (date,time) (by rw [hparts]; rfl)
    rw [noPanic_bind,noPanic_parseDateStr] at hdate
    refine ⟨hdate.1,?_⟩
    intro ⟨d,hd⟩
    exact (hf d time).mp (hdate.2 d hd)
  · intro h
    refine ⟨noPanic_orRefuse _ _,?_⟩
    intro parts hparts
    cases hcut : (splitAtChar 'T' s).or (splitAtChar 't' s) with
    | none => rw [hcut] at hparts; cases hparts
    | some found =>
      rw [hcut] at hparts
      cases hparts
      have hsafe := h parts.1 parts.2 hcut
      rw [noPanic_bind,noPanic_parseDateStr]
      exact ⟨hsafe.1,fun d hd => (hf d parts.2).mpr (hsafe.2 ⟨d,hd⟩)⟩

theorem noPanic_localDateTimeFromIsoString (s : List Char) :
    NoPanic (localDateTimeFromIsoString s) ↔ SplitSafe s TimeSafe := by
  have hbehind : ∀ (d : NaiveDate) time,NoPanic (parseTimeStr time >>= fun t =>
      (pure ⟨d,t⟩ : Reading NaiveDateTime)) ↔ TimeSafe time := by
    intro d time
    have hlast : ∀ t : NaiveTime,NoPanic (pure ⟨d,t⟩ : Reading NaiveDateTime) := fun t => noPanic_ok (NaiveDateTime.mk d t)
    rw [noPanic_bind_of hlast]
    exact noPanic_parseTimeStr time
  exact noPanic_splitDateTime hbehind

theorem noPanic_resolveTzNameAt (zones : Zones) (name : String) (dt : NaiveDateTime) :
    NoPanic (resolveTzNameAt zones name dt) := by
  unfold resolveTzNameAt
  split_ifs
  · exact noPanic_orRefuse _ _
  · exact noPanic_refuse _

/-- What is read behind the date of a date-time. -/
def readZoned (zones : Zones) (s : List Char) (date : NaiveDate) (text : List Char) :
    Reading (NaiveDateTime×FixedOffset×Option String) := do
  let zoned := splitZone text
  let timed := splitTimeOffset zoned.1
  let time ← parseTimeStr timed.1
  let off ← match timed.2,zoned.2 with
    | some o,_ => parseOffset o
    | none,some tz => resolveTzNameAt zones tz ⟨date,time⟩
    | none,none => refuseText "CypherDateTime requires an offset or timezone: " s
  return (⟨date,time⟩,off,zoned.2)

theorem noPanic_readZoned (zones : Zones) (s : List Char) (d : NaiveDate) (time : List Char) :
    NoPanic (readZoned zones s d time) ↔ OffsetTimeSafe (splitTimeOffset (splitZone time).1) := by
  refine noPanic_offsetTime (fun hnone t => ?_) fun t off hoff => ?_
  · simp only [hnone]
    cases hzone : (splitZone time).2 with
    | none => exact noPanic_refuse _
    | some tz =>
      simp only
      rw [noPanic_bind]
      exact ⟨noPanic_resolveTzNameAt zones tz _,fun _ _ => noPanic_ok _⟩
  · simp only [hoff]
    exact noPanic_bind_of fun _ => noPanic_ok _

theorem noPanic_dateTimeFromIsoString (zones : Zones) (s : List Char) :
    NoPanic (dateTimeFromIsoString zones s) ↔
      SplitSafe s fun time => OffsetTimeSafe (splitTimeOffset (splitZone time).1) :=
  noPanic_splitDateTime (noPanic_readZoned zones s)

end GraphDbLite.TemporalPanics
