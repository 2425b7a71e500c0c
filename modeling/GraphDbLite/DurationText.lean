import GraphDbLite.Binary64
import GraphDbLite.GraphTypes
import GraphDbLite.TemporalValues

/-!
# Texts of durations

A duration is printed with a sign at each component and read by two loops that
collect a number until a letter gives its unit. Each unit contributes months,
days, seconds and nanoseconds; fractions of a unit are carried down in floats.
Two other forms have fields between dashes or colons. Refusals carry the texts
of the number parsers. Sums that leave 64 bits, and a text cut inside a
character, are panics.
-/

namespace GraphDbLite.DurationText

open Binary64 GraphTypes TemporalValues

/-- Why a text is not read as a duration. -/
inductive DurationFault where
  | graph (e : GraphError)
  | panic
  deriving DecidableEq

/-- Outcome of reading a text. -/
abbrev Reading (α : Type) := Except DurationFault α

/-- Refuse a text with a reason. -/
def refuse {α : Type} (source : String) : Reading α := .error (.graph (.serialization "" source none))

/-- A sum or product in a word of 64 bits. -/
def word (n : Int) : Reading Int :=
  if -9223372036854775808≤n ∧ n≤9223372036854775807 then .ok n else .error .panic

/-- Read digits behind a number, downwards when it is negative. -/
def parseDigits (low high : Int) (negative : Bool) : Int → List Char → Reading Int
  | n,[] => .ok n
  | n,c::rest =>
    if c.isDigit=true then
      let digit : Int := c.toNat-48
      let next := if negative=true then n*10-digit else n*10+digit
      if next<low then refuse "number too small to fit in target type"
      else if high<next then refuse "number too large to fit in target type"
      else parseDigits low high negative next rest
    else refuse "invalid digit found in string"

/-- Read an integer between two ends; only a type with negative numbers takes a
minus sign. -/
def parseInt (low high : Int) (chars : List Char) : Reading Int :=
  match chars with
  | [] => refuse "cannot parse integer from empty string"
  | ['-'] => refuse "invalid digit found in string"
  | ['+'] => refuse "invalid digit found in string"
  | '-'::rest => if low<0 then parseDigits low high true 0 rest else refuse "invalid digit found in string"
  | '+'::rest => parseDigits low high false 0 rest
  | _ => parseDigits low high false 0 chars

/-- Read a word of 64 bits. -/
def parseI64 (chars : List Char) : Reading Int :=
  parseInt (-9223372036854775808) 9223372036854775807 chars

/-- Read an unsigned word of 32 bits. -/
def parseU32 (chars : List Char) : Reading Int := parseInt 0 4294967295 chars

/-- Read a float from a text of digits and points behind an optional sign. -/
def parseF64 (chars : List Char) : Reading F64 :=
  let negative := chars.head?=some '-'
  let body := match chars with
    | '-'::rest => rest
    | '+'::rest => rest
    | _ => chars
  let whole := body.takeWhile fun c => decide (c≠ '.')
  let frac := (body.dropWhile fun c => decide (c≠ '.')).drop 1
  if chars=[] then refuse "cannot parse float from empty string"
  else if whole++frac=[] ∨ (whole++frac).all Char.isDigit=false then refuse "invalid float literal"
  else
    let value : ℚ := Nat.ofDigitChars 10 (whole++frac) 0/10^frac.length
    .ok (round (if negative then -value else value))

/-- Bytes of a text. -/
def byteLength (chars : List Char) : Nat := (chars.map Char.utf8Size).sum

/-- Cut a text to a number of bytes, unless that is inside a character. -/
def truncateBytes : Nat → List Char → Reading (List Char)
  | _,[] => .ok []
  | 0,_::_ => .ok []
  | n+1,c::rest =>
    if c.utf8Size≤n+1 then (truncateBytes (n+1-c.utf8Size) rest).map (c::·) else .error .panic

/-- Read the digits of a fraction of a second, the first nine of them. -/
def parseFracNanos (frac : List Char) : Reading Int := do
  let padded ← truncateBytes 9 (frac++List.replicate (9-byteLength frac) '0')
  parseU32 padded

/-- Float to a word of 64 bits. -/
def toI64 (x : F64) : Int := toInt (-9223372036854775808) 9223372036854775807 x

/-- Component by component. -/
def plus (a b : CypherDuration) : CypherDuration :=
  ⟨a.months+b.months,a.days+b.days,a.seconds+b.seconds,a.nanos+b.nanos⟩

/-- Nothing. -/
def noDuration : CypherDuration := ⟨0,0,0,0⟩

/-- Nanoseconds as seconds and the rest, both towards zero. -/
def splitNanos (nanos : Int) : CypherDuration := ⟨0,0,nanos.tdiv 1000000000,nanos.tmod 1000000000⟩

/-- Carry a fraction of a day down to the clock. -/
def cascadeFracDays (frac : F64) : CypherDuration :=
  if isZero frac=true then noDuration
  else splitNanos (toI64 (nearest (mul (mul frac (ofInt 86400)) (ofInt 1000000000))))

/-- Carry a fraction of a month down to days and the clock. -/
def cascadeFracMonths (frac : F64) : CypherDuration :=
  if isZero frac=true then noDuration
  else
    let daysF := mul frac (round (30436875/1000000))
    plus ⟨0,toI64 (trunc daysF),0,0⟩ (cascadeFracDays (sub daysF (trunc daysF)))

/-- First byte of a character, as refusals print it. -/
def firstByte (c : Char) : Nat := ((String.utf8EncodeChar c).headD 0).toNat

/-- What a number with a unit of the date part contributes. -/
def dateContribution (num : List Char) (unit : Char) : Reading CypherDuration := do
  let n ← parseF64 num
  let intPart := toI64 (trunc n)
  let frac := sub n (trunc n)
  match unit.toUpper with
  | 'Y' =>
    let years ← word (intPart*12)
    let fracMonths := mul frac (ofInt 12)
    return plus ⟨years+toI64 (trunc fracMonths),0,0,0⟩
      (cascadeFracMonths (sub fracMonths (trunc fracMonths)))
  | 'M' => return plus ⟨intPart,0,0,0⟩ (cascadeFracMonths frac)
  | 'W' =>
    let daysF := mul n (ofInt 7)
    return plus ⟨0,toI64 (trunc daysF),0,0⟩ (cascadeFracDays (sub daysF (trunc daysF)))
  | 'D' => return plus ⟨0,intPart,0,0⟩ (cascadeFracDays frac)
  | _ => refuse s!"unexpected char '{firstByte unit}' in duration date part"

/-- What a number of hours or minutes contributes. -/
def clockContribution (num : List Char) (scale : Int) : Reading CypherDuration := do
  let n ← parseF64 num
  let frac := sub n (trunc n)
  let whole ← word (toI64 (trunc n)*scale)
  return plus ⟨0,0,whole,0⟩
    (if isZero frac=true then noDuration
     else splitNanos (toI64 (nearest (mul frac (ofInt (scale*1000000000))))))

/-- What a number of seconds contributes: the digits behind a point are its
nanoseconds, with the sign in front. -/
def secondContribution (num : List Char) : Reading CypherDuration :=
  if '.'∈num then do
    let intPart := num.takeWhile fun c => decide (c≠ '.')
    let fracPart := (num.dropWhile fun c => decide (c≠ '.')).drop 1
    let intVal ← if intPart=[] ∨ intPart=['-'] then .ok 0 else parseI64 intPart
    let fracNanos ← parseFracNanos fracPart
    return ⟨0,0,intVal,if intPart.head?=some '-' then -fracNanos else fracNanos⟩
  else do
    let n ← parseI64 num
    return ⟨0,0,n,0⟩

/-- What a number with a unit of the time part contributes. -/
def timeContribution (num : List Char) (unit : Char) : Reading CypherDuration :=
  match unit.toUpper with
  | 'H' => clockContribution num 3600
  | 'M' => clockContribution num 60
  | 'S' => secondContribution num
  | _ => refuse s!"unexpected char '{firstByte unit}' in duration time part"

/-- Add a contribution, each component in its word. -/
def addTo (sum part : CypherDuration) : Reading CypherDuration := do
  let months ← word (sum.months+part.months)
  let days ← word (sum.days+part.days)
  let seconds ← word (sum.seconds+part.seconds)
  let nanos ← word (sum.nanos+part.nanos)
  return ⟨months,days,seconds,nanos⟩

/-- The characters of a number behind its sign. -/
def isNumberChar (c : Char) : Bool := c.isDigit || c = '.'

/-- Read a part: collect a number, a minus sign only at its start, until another
character gives the unit. A number without a unit at the end is dropped. -/
def unitLoop (contribution : List Char → Char → Reading CypherDuration) (sum : CypherDuration)
    (num : List Char) : List Char → Reading CypherDuration
  | [] => .ok sum
  | c::rest =>
    if (num=[] ∧ c = '-') ∨ isNumberChar c=true then unitLoop contribution sum (num++[c]) rest
    else do
      let part ← contribution num c
      let sum ← addTo sum part
      unitLoop contribution sum [] rest

/-- Read the part before the time. -/
def parseDurationDatePart (sum : CypherDuration) (chars : List Char) : Reading CypherDuration :=
  unitLoop dateContribution sum [] chars

/-- Read the time part. -/
def parseDurationTimePart (sum : CypherDuration) (chars : List Char) : Reading CypherDuration :=
  unitLoop timeContribution sum [] chars

/-- The date part has the form of a date: dashes and no letters. -/
def isDateFormat (chars : List Char) : Bool := chars.contains '-' && !chars.any Char.isAlpha

/-- What the three fields of the date form contribute. -/
def dateFields (fields : List (List Char)) (part : List Char) : Reading CypherDuration :=
  match fields with
  | [year,month,day] => do
    let y ← parseI64 year
    let m ← parseI64 month
    let d ← parseI64 day
    let years ← word (y*12)
    let months ← word (years+m)
    return ⟨months,d,0,0⟩
  | _ => refuse ("invalid date-format duration: "++String.ofList part)

/-- What the seconds field of the colon form contributes. -/
def secondField (field : List Char) : Reading CypherDuration :=
  if '.'∈field then do
    let intPart := field.takeWhile fun c => decide (c≠ '.')
    let fracPart := (field.dropWhile fun c => decide (c≠ '.')).drop 1
    let intVal ← if intPart=[] then .ok 0 else parseI64 intPart
    let fracNanos ← parseFracNanos fracPart
    return ⟨0,0,intVal,fracNanos⟩
  else do
    let n ← parseI64 field
    return ⟨0,0,n,0⟩

/-- Add the seconds field of the colon form: its seconds are added before the
digits behind the point are read. -/
def addSecondField (sum : CypherDuration) (field : List Char) : Reading CypherDuration :=
  if '.'∈field then do
    let intPart := field.takeWhile fun c => decide (c≠ '.')
    let fracPart := (field.dropWhile fun c => decide (c≠ '.')).drop 1
    let intVal ← (if intPart=[] then .ok 0 else parseI64 intPart)
    let sum ← addTo sum ⟨0,0,intVal,0⟩
    let fracNanos ← parseFracNanos fracPart
    addTo sum ⟨0,0,0,fracNanos⟩
  else do
    let n ← parseI64 field
    addTo sum ⟨0,0,n,0⟩

/-- Add the fields of the colon form: hours, minutes, and seconds when there are
exactly three fields. -/
def timeFields (sum : CypherDuration) (fields : List (List Char)) : Reading CypherDuration :=
  match fields with
  | hour::minute::rest => do
    let h ← parseI64 hour
    let m ← parseI64 minute
    let hours ← word (h*3600)
    let minutes ← word (m*60)
    let clock ← word (hours+minutes)
    let sum ← addTo sum ⟨0,0,clock,0⟩
    match rest with
    | [second] => addSecondField sum second
    | _ => return sum
  | _ => .ok sum

/-- A text before and after the first occurrence of a character. -/
def splitAtChar (sep : Char) (chars : List Char) : Option (List Char×List Char) :=
  if sep∈chars then
    some (chars.takeWhile fun c => decide (c≠sep),(chars.dropWhile fun c => decide (c≠sep)).drop 1)
  else none

/-- The date part and, behind the first T, or t where there is no T, the time
part. -/
def splitTime (body : List Char) : List Char×Option (List Char) :=
  match (splitAtChar 'T' body).or (splitAtChar 't' body) with
  | some parts => (parts.1,some parts.2)
  | none => (body,none)

/-- Read the part before the time. -/
def readDatePart (part : List Char) : Reading CypherDuration :=
  if part=[] then .ok noDuration
  else if isDateFormat part=true then do
    let fields ← dateFields (part.splitOn '-') part
    addTo noDuration fields
  else parseDurationDatePart noDuration part

/-- Read the time part, when there is one. -/
def readTimePart (sum : CypherDuration) (part : Option (List Char)) : Reading CypherDuration :=
  match part with
  | none => .ok sum
  | some chars =>
    if chars=[] then .ok sum
    else if ':'∈chars then timeFields sum (chars.splitOn ':')
    else parseDurationTimePart sum chars

/-- Read a duration. -/
def fromIsoString (s : List Char) : Reading CypherDuration :=
  match s with
  | c::body =>
    if c = 'P' ∨ c = 'p' then do
      let parts := splitTime body
      let sum ← readDatePart parts.1
      readTimePart sum parts.2
    else refuse ("duration must start with 'P': "++String.ofList s)
  | [] => refuse "duration must start with 'P': "

/-- Digits of an integer behind its sign. -/
def intText (n : Int) : List Char :=
  if n<0 then '-'::Nat.toDigits 10 n.natAbs else Nat.toDigits 10 n.natAbs

/-- Seconds and nanoseconds brought to one sign, where they have opposite ones. -/
def adjusted (d : CypherDuration) : Int×Int :=
  if d.seconds<0 ∧ 0<d.nanos then (d.seconds+1,d.nanos-1000000000)
  else if 0<d.seconds ∧ d.nanos<0 then (d.seconds-1,d.nanos+1000000000)
  else (d.seconds,d.nanos)

/-- A component that is printed when it is not zero. -/
def component (n : Int) (unit : Char) : List Char := if n≠0 then intText n++[unit] else []

/-- Drop zeros at the end. -/
def trimEndZeros (chars : List Char) : List Char := (chars.reverse.dropWhile fun c => c = '0').reverse

/-- Digits of a fraction of a second, without the zeros at the end. -/
def fracText (nanos : Int) : List Char :=
  let digits := Nat.toDigits 10 nanos.natAbs
  trimEndZeros (List.replicate (9-digits.length) '0'++digits)

/-- The seconds of the clock with their fraction. -/
def secondText (secs nanos : Int) : List Char :=
  if secs≠0 ∨ nanos≠0 then
    if nanos≠0 then
      if secs<0 ∨ (secs=0 ∧ nanos<0) then
        '-'::(Nat.toDigits 10 secs.natAbs++ '.'::(fracText nanos++['S']))
      else intText secs++ '.'::(fracText nanos++['S'])
    else intText secs++['S']
  else []

/-- The text of a duration. -/
def displayDuration (d : CypherDuration) : List Char :=
  let years := d.months.tdiv 12
  let months := d.months.tmod 12
  let totalSeconds := (adjusted d).1
  let nanos := (adjusted d).2
  let hours := totalSeconds.tdiv 3600
  let minutes := (totalSeconds.tmod 3600).tdiv 60
  let secs := (totalSeconds.tmod 3600).tmod 60
  let hasDatePart := years≠0 ∨ months≠0 ∨ d.days≠0
  let hasTimePart := hours≠0 ∨ minutes≠0 ∨ secs≠0 ∨ nanos≠0
  if ¬hasDatePart ∧ ¬hasTimePart then ['P','T','0','S']
  else
    'P'::(component years 'Y'++component months 'M'++component d.days 'D'++
      if hasTimePart then 'T'::(component hours 'H'++component minutes 'M'++secondText secs nanos)
      else [])

theorem bind_ok {ε α β : Type} {x : Except ε α} {f : α → Except ε β} {b : β} :
    (x >>= f)=.ok b ↔ ∃ a, x=.ok a ∧ f a=.ok b := by
  cases x with
  | error e | ok a => simp [bind,Except.bind]

theorem word_ok {n m : Int} (h : word n=.ok m) : m=n ∧ -9223372036854775808≤n ∧ n≤9223372036854775807 := by
  unfold word at h
  split at h
  · next hn =>
    cases h
    exact ⟨rfl,hn⟩
  · cases h

theorem word_of {n : Int} (h : -9223372036854775808≤n ∧ n≤9223372036854775807) : word n=.ok n := if_pos h

theorem addTo_ok {a b d : CypherDuration} (h : addTo a b=.ok d) : d=plus a b := by
  have ⟨months,hmonths,h⟩ := bind_ok.mp h
  have ⟨days,hdays,h⟩ := bind_ok.mp h
  have ⟨seconds,hseconds,h⟩ := bind_ok.mp h
  have ⟨nanos,hnanos,h⟩ := bind_ok.mp h
  cases h
  rw [(word_ok hmonths).1,(word_ok hdays).1,(word_ok hseconds).1,(word_ok hnanos).1]
  rfl

theorem plus_assoc (a b c : CypherDuration) : plus (plus a b) c=plus a (plus b c) := by
  simp [plus,Int.add_assoc]

@[simp] theorem plus_noDuration (a : CypherDuration) : plus a noDuration=a := by simp [plus,noDuration]

@[simp] theorem noDuration_plus (a : CypherDuration) : plus noDuration a=a := by simp [plus,noDuration]

theorem secondField_point {field : List Char} (h : '.'∈field) : secondField field=
    ((if field.takeWhile (fun c => decide (c≠ '.'))=[] then .ok 0
      else parseI64 (field.takeWhile fun c => decide (c≠ '.'))) >>= fun intVal =>
      parseFracNanos ((field.dropWhile fun c => decide (c≠ '.')).drop 1) >>= fun fracNanos =>
        .ok ⟨0,0,intVal,fracNanos⟩) := by
  rw [secondField,if_pos h]
  by_cases hempty : field.takeWhile (fun c => decide (c≠ '.'))=[]
  · rw [if_pos hempty,if_pos hempty]
    rfl
  · rw [if_neg hempty,if_neg hempty]
    rfl

theorem addSecondField_ok {sum d : CypherDuration} {field : List Char} (h : addSecondField sum field=.ok d) :
    ∃ part,secondField field=.ok part ∧ d=plus sum part := by
  unfold addSecondField at h
  by_cases hpoint : '.'∈field
  · rw [if_pos hpoint] at h
    rw [secondField_point hpoint]
    have ⟨intVal,hint,h⟩ := bind_ok.mp h
    have ⟨next,hnext,h⟩ := bind_ok.mp h
    have ⟨fracNanos,hfrac,h⟩ := bind_ok.mp h
    refine ⟨⟨0,0,intVal,fracNanos⟩,bind_ok.mpr ⟨intVal,hint,?_⟩,?_⟩
    · exact bind_ok.mpr ⟨fracNanos,hfrac,rfl⟩
    · rw [addTo_ok h,addTo_ok hnext,plus_assoc]
      simp [plus]
  · rw [if_neg hpoint] at h
    rw [secondField,if_neg hpoint]
    have ⟨n,hn,h⟩ := bind_ok.mp h
    exact ⟨⟨0,0,n,0⟩,bind_ok.mpr ⟨n,hn,rfl⟩,addTo_ok h⟩

end GraphDbLite.DurationText
