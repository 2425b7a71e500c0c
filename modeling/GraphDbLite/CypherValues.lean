import GraphDbLite.CypherSyntax

/-!
# Equality and order of values

Two equalities live side by side. The library equality compares floats by their
bits and is used on records and labels. The query equality is three-valued: a
null on either side makes the comparison unknown, integers and floats compare by
number, nodes by identifier. Floats are bit patterns, so both are computed on
integers; a conversion from an integer rounds to the nearest even mantissa.
-/

namespace GraphDbLite.CypherValues

open GraphTypes CypherSyntax

/-- Position of a float on the number line; NaN has none and both zeros share
one. -/
def f64Key (bits : UInt64) : Option Int :=
  let magnitude : Nat := bits.toNat%2^63
  if 0x7FF0000000000000 < magnitude then none
  else some (if bits.toNat<2^63 then (magnitude : Int) else -(magnitude : Int))

/-- Mantissa of a magnitude with the given exponent, rounded to nearest even. -/
def roundMantissa (magnitude exponent : Nat) : Nat :=
  if exponent≤52 then magnitude*2^(52-exponent)
  else
    let shift := exponent-52
    let floor := magnitude/2^shift
    let rest := magnitude%2^shift
    if 2^(shift-1) < rest ∨ (rest=2^(shift-1) ∧ floor%2=1) then floor+1 else floor

/-- Bits of the float nearest to an integer. -/
def i64ToF64 (n : Int64) : UInt64 :=
  let magnitude := n.toInt.natAbs
  if magnitude=0 then 0
  else
    let exponent := Nat.log2 magnitude
    let bits := (exponent+1022)*2^52+roundMantissa magnitude exponent
    UInt64.ofNat (if n.toInt<0 then bits+2^63 else bits)

/-- Floats of the same number; NaN equals nothing. -/
def f64Eq (a b : UInt64) : Bool :=
  match f64Key a,f64Key b with
  | some x,some y => x=y
  | _,_ => false

/-- Floats in the order of the numbers; NaN is not ordered. -/
def f64Cmp (a b : UInt64) : Option Ordering :=
  match f64Key a,f64Key b with
  | some x,some y => some (compare x y)
  | _,_ => none

mutual

/-- Library equality of values: floats by bits, maps by their entries. -/
def valueEq : Value → Value → Bool
  | .null,.null => true
  | .bool a,.bool b => a=b
  | .i64 a,.i64 b => a=b
  | .f64 a,.f64 b => a=b
  | .string a,.string b => a=b
  | .list a,.list b => listEq a b
  | .node a,.node b => nodeEq a b
  | .edge a,.edge b => edgeEq a b
  | .path a,.path b => pathEq a b
  | .map a,.map b => a.length=b.length && entriesWithin a b
  | .date a,.date b => a=b
  | .localTime a,.localTime b => a=b
  | .time a x,.time b y => a=b && x=y
  | .localDateTime a x,.localDateTime b y => a=b && x=y
  | .dateTime a x o z,.dateTime b y p w => a=b && x=y && o=p && z=w
  | .duration a x o z,.duration b y p w => a=b && x=y && o=p && z=w
  | _,_ => false
termination_by structural value => value

/-- Library equality of nodes. -/
def nodeEq : NodeOf Value → NodeOf Value → Bool
  | ⟨i,l,p⟩,⟨j,m,q⟩ => i=j && l=m && p.length=q.length && entriesWithin p q
termination_by structural n => n

/-- Library equality of relationships. -/
def edgeEq : EdgeOf Value → EdgeOf Value → Bool
  | ⟨s,d,l,p⟩,⟨t,e,m,q⟩ => s=t && d=e && l=m && p.length=q.length && entriesWithin p q
termination_by structural e => e

/-- Library equality of paths. -/
def pathEq : PathOf Value → PathOf Value → Bool
  | ⟨ns,es⟩,⟨ms,fs⟩ => nodesEq ns ms && edgesEq es fs
termination_by structural p => p

/-- Library equality of lists. -/
def listEq : List Value → List Value → Bool
  | [],[] => true
  | a::as,b::bs => valueEq a b && listEq as bs
  | _,_ => false
termination_by structural items => items

/-- Whether every entry of a finite map is found in another one. Maps of the same
size are equal when this holds. -/
def entriesWithin : List (String×Value) → List (String×Value) → Bool
  | [],_ => true
  | entry::rest,b => entryWithin entry b && entriesWithin rest b
termination_by structural entries => entries

/-- Whether an entry is found in a finite map with an equal value. -/
def entryWithin : String×Value → List (String×Value) → Bool
  | (key,value),b =>
    match getProp b key with
    | some other => valueEq value other
    | none => false
termination_by structural entry => entry

/-- Library equality of node lists. -/
def nodesEq : List (NodeOf Value) → List (NodeOf Value) → Bool
  | [],[] => true
  | a::as,b::bs => nodeEq a b && nodesEq as bs
  | _,_ => false
termination_by structural nodes => nodes

/-- Library equality of relationship lists. -/
def edgesEq : List (EdgeOf Value) → List (EdgeOf Value) → Bool
  | [],[] => true
  | a::as,b::bs => edgeEq a b && edgesEq as bs
  | _,_ => false
termination_by structural edges => edges

end

/-- Three-valued conjunction of a loop that stops at the first failure. -/
def allKnown (hasNull : Bool) : List (Option Bool) → Option Bool
  | [] => if hasNull=true then none else some true
  | some false::_ => some false
  | some true::rest => allKnown hasNull rest
  | none::rest => allKnown true rest

/-- Whether two maps have the same keys. -/
def sameKeys (a b : List (String×Value)) : Bool :=
  (a.all fun entry => (getProp b entry.1).isSome) && b.all fun entry => (getProp a entry.1).isSome

/-- Path equality by identifiers, endpoints and types. -/
def pathsEqual (a b : PathOf Value) : Bool :=
  (a.nodes.map fun n => n.id)=(b.nodes.map fun n => n.id) &&
    (a.edges.map fun e => (e.src,e.dst,e.label))=(b.edges.map fun e => (e.src,e.dst,e.label))

mutual

/-- Query equality of values; nothing stands for null. -/
@[grind] def valuesEqual : Value → Value → Option Bool
  | .null,_ => none
  | _,.null => none
  | .bool a,.bool b => some (a=b)
  | .i64 a,.i64 b => some (a=b)
  | .f64 a,.f64 b => some (f64Eq a b)
  | .i64 a,.f64 b => some (f64Eq (i64ToF64 a) b)
  | .f64 a,.i64 b => some (f64Eq a (i64ToF64 b))
  | .string a,.string b => some (a=b)
  | .list a,.list b => if a.length=b.length then allKnown false (itemsEqual a b) else some false
  | .map a,.map b => if sameKeys a b=true then allKnown false (entriesEqual a b) else some false
  | .node a,.node b => some (a.id=b.id)
  | .edge a,.edge b => some (edgeEq a b)
  | .date a,.date b => some (a=b)
  | .localTime a,.localTime b => some (a=b)
  | .time a x,.time b y => some (a=b && x=y)
  | .localDateTime a x,.localDateTime b y => some (a=b && x=y)
  | .dateTime a x o z,.dateTime b y p w => some (a=b && x=y && o=p && z=w)
  | .duration a x o z,.duration b y p w => some (a=b && x=y && o=p && z=w)
  | .path a,.path b => some (pathsEqual a b)
  | _,_ => some false
termination_by structural value => value

/-- Comparisons of the items of two lists in order. -/
def itemsEqual : List Value → List Value → List (Option Bool)
  | a::as,b::bs => valuesEqual a b::itemsEqual as bs
  | _,_ => []
termination_by structural items => items

/-- Comparisons of the entries of two maps with the same keys. -/
def entriesEqual : List (String×Value) → List (String×Value) → List (Option Bool)
  | [],_ => []
  | entry::rest,b => entryEqual entry b::entriesEqual rest b
termination_by structural entries => entries

/-- Comparison of an entry with the entry of the same key. -/
def entryEqual : String×Value → List (String×Value) → Option Bool
  | (key,value),b =>
    match getProp b key with
    | some other => valuesEqual value other
    | none => some false
termination_by structural entry => entry

end

/-- A three-valued truth as a value. -/
def triValue : Option Bool → Value
  | some b => .bool b
  | none => .null

/-- Instants of a day with an offset, in nanoseconds after midnight UTC, wrapped
to one day. -/
def utcNanos (nanos : Nat) (offset : Int) : Int := ((nanos : Int)-offset*1000000000)%86400000000000

/-- Instants with an offset, in nanoseconds. -/
def utcInstant (days : Int) (nanos : Nat) (offset : Int) : Int :=
  days*86400000000000+(nanos : Int)-offset*1000000000

/-- First difference of two rows of comparisons, or the comparison of their
lengths. -/
def firstDifference (lengths : Ordering) : List (Option Ordering) → Option Ordering
  | [] => some lengths
  | some .eq::rest => firstDifference lengths rest
  | other::_ => other

mutual

/-- Order of values; values of different kinds are not ordered. -/
def compareValues : Value → Value → Option Ordering
  | .bool a,.bool b => some (compare a b)
  | .i64 a,.i64 b => some (compare a b)
  | .f64 a,.f64 b => f64Cmp a b
  | .i64 a,.f64 b => f64Cmp (i64ToF64 a) b
  | .f64 a,.i64 b => f64Cmp a (i64ToF64 b)
  | .string a,.string b => some (compare a b)
  | .date a,.date b => some (compare a b)
  | .localTime a,.localTime b => some (compare a b)
  | .time a x,.time b y => some (compare (utcNanos a x) (utcNanos b y))
  | .localDateTime a x,.localDateTime b y => some ((compare a b).then (compare x y))
  | .dateTime a x o _,.dateTime b y p _ => some (compare (utcInstant a x o) (utcInstant b y p))
  | .list a,.list b => firstDifference (compare a.length b.length) (itemsCompare a b)
  | _,_ => none
termination_by structural value => value

/-- Comparisons of the items of two lists in order. -/
def itemsCompare : List Value → List Value → List (Option Ordering)
  | a::as,b::bs => compareValues a b::itemsCompare as bs
  | _,_ => []
termination_by structural items => items

end

/-- Integers and floats. -/
def isNumeric : Value → Bool
  | .i64 _ => true
  | .f64 _ => true
  | _ => false

/-- Comparison as a truth value: null when an operand is null or the kinds cannot
be ordered, false for NaN. -/
def compareToValue (a b : Value) (pred : Ordering → Bool) : Value :=
  if a.isNull=true ∨ b.isNull=true then .null
  else
    match compareValues a b with
    | some ord => .bool (pred ord)
    | none => if isNumeric a=true ∧ isNumeric b=true then .bool false else .null

/-- Name of the kind of a value. -/
def valueTypeName : Value → String
  | .bool _ => "Boolean"
  | .i64 _ => "Integer"
  | .f64 _ => "Float"
  | .string _ => "String"
  | .list _ => "List"
  | .map _ => "Map"
  | .null => "Null"
  | .node _ => "Node"
  | .edge _ => "Relationship"
  | .path _ => "Path"
  | .date _ => "Date"
  | .localTime _ => "LocalTime"
  | .time _ _ => "Time"
  | .localDateTime _ _ => "LocalDateTime"
  | .dateTime _ _ _ _ => "DateTime"
  | .duration _ _ _ _ => "Duration"

/-- A truth value, nothing for null; other kinds are refused. -/
def toTribool : Value → Result (Option Bool)
  | .bool b => .ok (some b)
  | .null => .ok none
  | v => .error (.query .syntaxError .runtime .other
      ("Type mismatch: expected Boolean but was "++valueTypeName v))

/-- Runtime value of a literal. -/
def literalToValue : LiteralValue → Value
  | .null => .null
  | .bool b => .bool b
  | .i64 n => .i64 n
  | .f64 bits => .f64 bits
  | .string text => .string text

end GraphDbLite.CypherValues
