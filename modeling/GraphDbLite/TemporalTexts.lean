import GraphDbLite.EpochInstants
import GraphDbLite.TemporalMaps

/-!
# Texts of temporal values

Dates, times and date-times are printed with fields of a fixed width, and read
from those texts, from compact ones that are cut at fixed bytes, and from texts
of weeks and ordinals. Offsets follow the time and zone names stand in brackets;
an offset that is not printed is looked up in the zone database, which is a
parameter.
-/

namespace GraphDbLite.TemporalTexts

open TemporalValues DurationText DateFields TemporalMaps EpochInstants

/-- The zone database: its names, and the offsets of a zone at local and at UTC
date-times. -/
structure Zones where
  /-- Names of zones. -/
  known : String → Bool
  /-- The earliest offset that a zone has at a local date-time. -/
  earliest : String → NaiveDateTime → Option FixedOffset
  /-- The offset that a zone has at a UTC date-time. -/
  atUtc : String → NaiveDateTime → FixedOffset

/-- Refuse a text with a reason that ends in the text. -/
def refuseText {α : Type} (reason : String) (s : List Char) : Reading α := refuse (reason++String.ofList s)

/-- The offset of a zone at a local date-time. -/
def resolveTzNameAt (zones : Zones) (name : String) (dt : NaiveDateTime) : Reading FixedOffset :=
  if zones.known name=true then
    orRefuse ("ambiguous or invalid datetime in timezone: "++name) (zones.earliest name dt)
  else refuse ("unknown timezone: "++name)

/-- Read a signed word of 32 bits. -/
def parseI32 (chars : List Char) : Reading Int := parseInt (-2147483648) 2147483647 chars

/-- A sum or product in a signed word of 32 bits. -/
def wordI32 (n : Int) : Reading Int := if -2147483648≤n ∧ n≤2147483647 then .ok n else .error .panic

/-- Cut a text at a byte, unless that is inside a character or behind the end. -/
def splitBytes : Nat → List Char → Reading (List Char×List Char)
  | 0,chars => .ok ([],chars)
  | _+1,[] => .error .panic
  | n+1,c::rest =>
    if c.utf8Size≤n+1 then (splitBytes (n+1-c.utf8Size) rest).map fun parts => (c::parts.1,parts.2)
    else .error .panic

/-- The bytes of a text from one place to a later one. -/
def sliceBytes (a b : Nat) (chars : List Char) : Reading (List Char) := do
  let front ← splitBytes b chars
  let parts ← splitBytes a front.1
  return parts.2

/-- The character that starts at a byte. -/
def charAtByte : Nat → List Char → Option Char
  | _,[] => none
  | 0,c::_ => some c
  | n+1,c::rest => if c.utf8Size≤n+1 then charAtByte (n+1-c.utf8Size) rest else none

/-- The offset of signed fields, when it is shorter than a day. -/
def eastOpt (s : List Char) (sign hh mm ss : Int) : Reading FixedOffset := do
  let hours ← wordI32 (hh*3600)
  let minutes ← wordI32 (mm*60)
  let clock ← wordI32 (hours+minutes)
  let all ← wordI32 (clock+ss)
  let total ← wordI32 (sign*all)
  if h : -86400<total ∧ total<86400 then .ok ⟨total,h⟩ else refuseText "offset out of range: " s

/-- The offset of a text behind its sign. -/
def offsetBody (s : List Char) (sign : Int) (body : List Char) : Reading FixedOffset :=
  if byteLength body=2 then do
    let h ← parseI32 body
    eastOpt s sign h 0 0
  else if byteLength body=4 then do
    let parts ← splitBytes 2 body
    let hh ← parseI32 parts.1
    let mm ← parseI32 parts.2
    eastOpt s sign hh mm 0
  else if byteLength body=5 ∧ charAtByte 2 body=some ':' then do
    let hh ← parseI32 (← sliceBytes 0 2 body)
    let parts ← splitBytes 3 body
    let mm ← parseI32 parts.2
    eastOpt s sign hh mm 0
  else if byteLength body=8 ∧ charAtByte 2 body=some ':' ∧ charAtByte 5 body=some ':' then do
    let hh ← parseI32 (← sliceBytes 0 2 body)
    let mm ← parseI32 (← sliceBytes 3 5 body)
    let ss ← parseI32 (← sliceBytes 6 8 body)
    eastOpt s sign hh mm ss
  else refuseText "invalid offset: " s

/-- Read an offset. -/
def parseOffset (s : List Char) : Reading FixedOffset :=
  if s=['Z'] ∨ s=['z'] then .ok utc
  else
    match s with
    | '+'::body => offsetBody s 1 body
    | '-'::body => offsetBody s (-1) body
    | _ => refuseText "invalid offset: " s

/-- A text before the last occurrence of a character, and from there on. -/
def cutAtLast (sep : Char) (chars : List Char) : Option (List Char×List Char) :=
  if sep∈chars then
    some (((chars.reverse.dropWhile fun c => decide (c≠sep)).drop 1).reverse,
      sep::(chars.reverse.takeWhile fun c => decide (c≠sep)).reverse)
  else none

/-- The cut in front of a sign that is not the first character. -/
def cutAtSign (sep : Char) (chars : List Char) : Option (List Char×List Char) :=
  (cutAtLast sep chars).filter fun parts => decide (parts.1≠[])

/-- A time and the offset behind it. -/
def splitTimeOffset (s : List Char) : List Char×Option (List Char) :=
  if s.getLast?=some 'Z' ∨ s.getLast?=some 'z' then (s.dropLast,s.getLast?.map fun c => [c])
  else
    match (cutAtSign '+' s).or (cutAtSign '-' s) with
    | some parts => (parts.1,some parts.2)
    | none => (s,none)

/-- Hours, minutes and, behind another colon, seconds. -/
def colonParts (s : List Char) : List Char×List Char×Option (List Char) :=
  match splitAtChar ':' s with
  | some parts =>
    match splitAtChar ':' parts.2 with
    | some rest => (parts.1,rest.1,some rest.2)
    | none => (parts.1,parts.2,none)
  | none => (s,[],none)

/-- Read a time with colons. -/
def parseColonTime (s : List Char) : Reading NaiveTime := do
  let h ← parseU32 (colonParts s).1
  let m ← parseU32 (colonParts s).2.1
  match (colonParts s).2.2 with
  | none => orRefuse ("invalid time: "++String.ofList s) (fromHms h m 0)
  | some secPart =>
    match splitAtChar '.' secPart with
    | some parts => do
      let sec ← parseU32 parts.1
      let nano ← parseFracNanos parts.2
      orRefuse ("invalid time: "++String.ofList s) (fromHmsNano h m sec nano)
    | none => do
      let sec ← parseU32 secPart
      orRefuse ("invalid time: "++String.ofList s) (fromHms h m sec)

/-- Fields of a time without colons: two, four or six bytes. -/
def compactFields (s digits : List Char) : Reading (Int×Int×Int) :=
  if byteLength digits=2 then do
    let h ← parseU32 digits
    return (h,0,0)
  else if byteLength digits=4 then do
    let parts ← splitBytes 2 digits
    let hh ← parseU32 parts.1
    let mm ← parseU32 parts.2
    return (hh,mm,0)
  else if byteLength digits=6 then do
    let hh ← parseU32 (← sliceBytes 0 2 digits)
    let mm ← parseU32 (← sliceBytes 2 4 digits)
    let parts ← splitBytes 4 digits
    let ss ← parseU32 parts.2
    return (hh,mm,ss)
  else refuseText "invalid compact time: " s

/-- Digits and fraction of a time without colons. -/
def compactParts (s : List Char) : List Char×Option (List Char) :=
  match splitAtChar '.' s with
  | some parts => (parts.1,some parts.2)
  | none => (s,none)

/-- Read a time without colons. -/
def parseCompactTime (s : List Char) : Reading NaiveTime := do
  let fields ← compactFields s (compactParts s).1
  let nano ← match (compactParts s).2 with
    | some frac => parseFracNanos frac
    | none => .ok 0
  orRefuse ("invalid time: "++String.ofList s) (fromHmsNano fields.1 fields.2.1 fields.2.2 nano)

/-- Read a time without an offset. -/
def parseTimeStr (s : List Char) : Reading NaiveTime :=
  if ':'∈s then parseColonTime s else parseCompactTime s

/-- Week and weekday of a text behind its W. -/
def weekFields (s afterW : List Char) : Reading (Int×Int) :=
  if 3≤byteLength afterW then do
    let wk ← parseU32 (← sliceBytes 0 2 afterW)
    let d ← parseU32 (← sliceBytes 2 3 afterW)
    return (wk,d)
  else if byteLength afterW=2 then do
    let wk ← parseU32 afterW
    return (wk,1)
  else refuseText "invalid week date: " s

/-- Read a date of a week. -/
def parseWeekDate (s : List Char) : Reading NaiveDate := do
  let compact := s.filter fun c => decide (c≠ '-')
  let parts ← orRefuse ("invalid week date: "++String.ofList s) (splitAtChar 'W' compact)
  let year ← parseI32 parts.1
  let fields ← weekFields s parts.2
  if 1≤fields.2 ∧ fields.2≤7 then
    orRefuse ("invalid week date: "++String.ofList s) (fromIsoywd year fields.1 (fields.2-1))
  else refuse (s!"invalid day of week {fields.2} in: "++String.ofList s)

/-- Read the fields of a date between dashes. -/
def parseDashedDate (s : List Char) : Reading NaiveDate :=
  match s.splitOn '-' with
  | [year,month,day] => do
    let y ← parseI32 year
    let m ← parseU32 month
    let d ← parseU32 day
    orRefuse ("invalid date: "++String.ofList s) (fromYmd y m d)
  | [year,second] => do
    let y ← parseI32 year
    let part2 ← parseU32 second
    if byteLength second=3 then orRefuse ("invalid ordinal date: "++String.ofList s) (fromYo y part2)
    else orRefuse ("invalid date: "++String.ofList s) (fromYmd y part2 1)
  | _ => refuseText "invalid date: " s

/-- Read a date without dashes: eight, seven, six or four bytes. -/
def parseCompactDate (s : List Char) : Reading NaiveDate :=
  if byteLength s=8 then do
    let y ← parseI32 (← sliceBytes 0 4 s)
    let m ← parseU32 (← sliceBytes 4 6 s)
    let parts ← splitBytes 6 s
    let d ← parseU32 parts.2
    orRefuse ("invalid date: "++String.ofList s) (fromYmd y m d)
  else if byteLength s=7 then do
    let parts ← splitBytes 4 s
    let y ← parseI32 parts.1
    let d ← parseU32 parts.2
    orRefuse ("invalid ordinal date: "++String.ofList s) (fromYo y d)
  else if byteLength s=6 then do
    let parts ← splitBytes 4 s
    let y ← parseI32 parts.1
    let m ← parseU32 parts.2
    orRefuse ("invalid date: "++String.ofList s) (fromYmd y m 1)
  else if byteLength s=4 then do
    let y ← parseI32 s
    orRefuse ("invalid date: "++String.ofList s) (fromYmd y 1 1)
  else refuseText "invalid date: " s

/-- Read a date. -/
def parseDateStr (s : List Char) : Reading NaiveDate :=
  if 'W'∈s then parseWeekDate s
  else if '-'∈s then parseDashedDate s
  else parseCompactDate s

/-- Read a local time. -/
def localTimeFromIsoString (s : List Char) : Reading NaiveTime := parseTimeStr s

/-- Read a time, of UTC where it has no offset. -/
def timeFromIsoString (s : List Char) : Reading (NaiveTime×FixedOffset) := do
  let t ← parseTimeStr (splitTimeOffset s).1
  let off ← match (splitTimeOffset s).2 with
    | some o => parseOffset o
    | none => .ok utc
  return (t,off)

/-- Date and time around the first T, or t where there is no T. -/
def splitDateTime (s : List Char) : Reading (List Char×List Char) :=
  orRefuse ("expected 'T' separator in: "++String.ofList s) ((splitAtChar 'T' s).or (splitAtChar 't' s))

/-- Read a local date-time. -/
def localDateTimeFromIsoString (s : List Char) : Reading NaiveDateTime := do
  let parts ← splitDateTime s
  let date ← parseDateStr parts.1
  let time ← parseTimeStr parts.2
  return ⟨date,time⟩

/-- Drop closing brackets at the end. -/
def trimBrackets (chars : List Char) : List Char :=
  (chars.reverse.dropWhile fun c => decide (c = ']')).reverse

/-- The time with its offset, and the zone name in brackets behind it. -/
def splitZone (s : List Char) : List Char×Option String :=
  match splitAtChar '[' s with
  | some parts => (parts.1,some (String.ofList (trimBrackets parts.2)))
  | none => (s,none)

/-- Read a date-time with an offset or a zone. -/
def dateTimeFromIsoString (zones : Zones) (s : List Char) :
    Reading (NaiveDateTime×FixedOffset×Option String) := do
  let parts ← splitDateTime s
  let date ← parseDateStr parts.1
  let zoned := splitZone parts.2
  let timed := splitTimeOffset zoned.1
  let time ← parseTimeStr timed.1
  let off ← match timed.2,zoned.2 with
    | some o,_ => parseOffset o
    | none,some tz => resolveTzNameAt zones tz ⟨date,time⟩
    | none,none => refuseText "CypherDateTime requires an offset or timezone: " s
  return (⟨date,time⟩,off,zoned.2)

/-- A number filled up with zeros to a width, in which a minus sign counts. -/
def padded (width : Nat) (n : Int) : List Char :=
  let digits := Nat.toDigits 10 n.natAbs
  if n<0 then '-'::(List.replicate (width-1-digits.length) '0'++digits)
  else List.replicate (width-digits.length) '0'++digits

/-- The text of a date. -/
def displayDate (d : NaiveDate) : List Char :=
  padded 4 d.year++ '-'::(padded 2 d.month++ '-'::padded 2 d.day)

/-- The text of a time, without seconds where they and their fraction are zero. -/
def fmtLocalTime (t : NaiveTime) : List Char :=
  padded 2 (hour t)++ ':'::(padded 2 (minute t)++
    if second t≠0 ∨ t.frac≠0 then
      ':'::(padded 2 (second t)++if t.frac≠0 then '.'::trimEndZeros (padded 9 t.frac) else [])
    else [])

/-- The text of an offset. -/
def fmtOffset (off : FixedOffset) : List Char :=
  let secs := off.seconds
  if secs=0 then ['Z']
  else
    let sign := if secs<0 then '-' else '+'
    let abs : Int := secs.natAbs
    let h := abs/3600
    let m := abs%3600/60
    let s := abs%60
    if s≠0 then sign::(padded 2 h++ ':'::(padded 2 m++ ':'::padded 2 s))
    else sign::(padded 2 h++ ':'::padded 2 m)

/-- The text of a local date-time. -/
def displayLocalDateTime (dt : NaiveDateTime) : List Char := displayDate dt.date++ 'T'::fmtLocalTime dt.time

/-- The text of a time. -/
def displayTime (t : NaiveTime) (off : FixedOffset) : List Char := fmtLocalTime t++fmtOffset off

/-- The text of a zone name. -/
def displayZone (zone : Option String) : List Char :=
  match zone with
  | some tz => '['::(tz.toList++[']'])
  | none => []

/-- The text of a date-time. -/
def displayDateTime (dt : NaiveDateTime) (off : FixedOffset) (zone : Option String) : List Char :=
  displayDate dt.date++ 'T'::(fmtLocalTime dt.time++(fmtOffset off++displayZone zone))

end GraphDbLite.TemporalTexts
