import GraphDbLite.GraphTypes
import GraphDbLite.LruCache

/-!
# The cache of compiled regular expressions

A query compiles the patterns of its `=~` operators once as long as they stay in a cache of
bounded size. Patterns are anchored at both ends when they are compiled and kept under the
text of the query; a pattern that fails to compile is not kept. Outside a query each match
compiles its pattern anew.
-/

namespace GraphDbLite.CompiledPatterns

open GraphTypes LruCache

variable {R : Type}

/-- What the regular-expression library offers. -/
structure RegexLibrary (R : Type) where
  /-- A pattern compiled, or the text of its error. -/
  new : String → Except String R
  /-- Whether a text matches. -/
  isMatch : R → String → Bool

/-- A query error about the value of an argument. -/
structure InvalidArgumentValue where
  /-- Where the error arose. -/
  phase : QueryPhase
  /-- Text of the error. -/
  message : String
  deriving DecidableEq

/-- Outcome of a match or of compiling its pattern. -/
abbrev Matched (α : Type) := Except InvalidArgumentValue α

/-- Compiled patterns under the text of the query. -/
abbrev RegexCache (R : Type) := Lru String R

/-- The empty cache with a bound. -/
@[grind] def withCapacity (capacity : Nat) : RegexCache R := ⟨[],capacity⟩

/-- Bound of the cache of a query. -/
def defaultCapacity : Nat := 32

/-- A pattern compiled with anchors at both ends. -/
@[grind] def compile (lib : RegexLibrary R) (pat : String) : Matched R :=
  match lib.new ("^(?:"++pat++")$") with
  | .ok re => .ok re
  | .error err => .error ⟨.runtime,"invalid regex pattern `"++pat++"`: "++err⟩

/-- The compiled pattern from the cache, or compiled and kept. -/
@[grind] def getOrCompile (lib : RegexLibrary R) (cache : RegexCache R) (pat : String) :
    Option (Matched R×RegexCache R) :=
  cache.getOrMake pat (compile lib pat)

/-- A match against the cache of the running query. -/
@[grind] def matchIn (lib : RegexLibrary R) (cache : RegexCache R) : Value → Value → Option (Matched Value×RegexCache R)
  | .string l,.string r =>
    (getOrCompile lib cache r).map fun found => (found.1.map fun re => .bool (lib.isMatch re l),found.2)
  | _,_ => some (.ok .null,cache)

/-- A match outside a query, with a cache of its own. -/
@[grind] def matchAlone (lib : RegexLibrary R) (left right : Value) : Option (Matched Value) :=
  (matchIn lib (withCapacity defaultCapacity) left right).map Prod.fst

/-- Matches of a query one after the other. -/
@[grind] def matchAll (lib : RegexLibrary R) : List (Value×Value) → RegexCache R → Option (List (Matched Value)×RegexCache R)
  | [],cache => some ([],cache)
  | (left,right)::rest,cache => do
    let (out,cache) ← matchIn lib cache left right
    let (outs,cache) ← matchAll lib rest cache
    pure (out::outs,cache)

/-- A match that compiles its pattern. -/
@[grind] def plainMatch (lib : RegexLibrary R) : Value → Value → Matched Value
  | .string l,.string r => (compile lib r).map fun re => .bool (lib.isMatch re l)
  | _,_ => .ok .null

/-- The pattern that a match compiles. -/
@[grind] def patternOf : Value×Value → Option String
  | (.string _,.string r) => some r
  | _ => none

/-- Patterns with a compiled form by their last use in a query, the last one first. -/
@[grind] def recentPatterns (lib : RegexLibrary R) (pairs : List (Value×Value)) : List String :=
  (pairs.filterMap patternOf).foldl (recentWith (compile lib)) []

variable {lib : RegexLibrary R} {recent : List String} {cache : RegexCache R}

/-- A match without a pattern is null and leaves the cache. -/
theorem matchIn_null {left right : Value} (h : patternOf (left,right)=none) :
    matchIn lib cache left right=some (plainMatch lib left right,cache) := by
  unfold matchIn plainMatch
  split
  · simp only [patternOf,reduceCtorEq] at h
  · rfl

/-- A match gives what compiling its pattern gives, and the cache holds the patterns used last. -/
theorem matchIn_plain (h : Holds (compile lib) recent cache) (hpos : 0 < cache.capacity) (pair : Value×Value) :
    ∃ cache',matchIn lib cache pair.1 pair.2=some (plainMatch lib pair.1 pair.2,cache')∧cache'.capacity=cache.capacity∧
      Holds (compile lib) ((patternOf pair).toList.foldl (recentWith (compile lib)) recent) cache' := by
  cases hpat : patternOf pair with
  | none => exact ⟨cache,matchIn_null hpat,rfl,h⟩
  | some r =>
    obtain ⟨left,right⟩ := pair
    unfold patternOf at hpat
    split at hpat
    next l p heq =>
      cases hpat
      cases heq
      obtain ⟨cache',hget,hcap,hholds⟩ := getOrMake_holds h hpos r
      refine ⟨cache',?_,hcap,hholds⟩
      simp only [matchIn,getOrCompile,hget,Option.map_some,plainMatch]
    next => cases hpat

/-- Matches of a query give what compiling each pattern gives, from any cache that holds the patterns used last. -/
theorem matchAll_plain (pairs : List (Value×Value)) : ∀ {recent : List String} {cache : RegexCache R},
    Holds (compile lib) recent cache → 0 < cache.capacity →
    ∃ last,matchAll lib pairs cache=some (pairs.map fun pair => plainMatch lib pair.1 pair.2,last)∧
      last.capacity=cache.capacity∧
      Holds (compile lib) ((pairs.filterMap patternOf).foldl (recentWith (compile lib)) recent) last := by
  induction pairs with
  | nil => exact fun {_ cache} h _ => ⟨cache,rfl,rfl,h⟩
  | cons pair rest ih =>
    intro recent cache h hpos
    obtain ⟨mid,hstep,hcap,hmid⟩ := matchIn_plain h hpos pair
    obtain ⟨last,hrun,hlast,hholds⟩ := ih hmid (hcap ▸ hpos)
    refine ⟨last,by simp only [matchAll,hstep,Option.bind_eq_bind,Option.bind_some,hrun]; rfl,hlast.trans hcap,?_⟩
    rw [← List.foldl_append] at hholds
    rw [List.filterMap_cons]
    cases hpat : patternOf pair with
    | none => rwa [hpat] at hholds
    | some pat => rwa [hpat] at hholds

/-- Through the cache and outside a query every match gives what compiling its pattern anew gives, and
the cache ends with the compiled forms of the patterns used last. -/
theorem cached_matches {capacity : Nat} (hpos : 0 < capacity) (pairs : List (Value×Value)) :
    (∃ cache,matchAll lib pairs (withCapacity capacity)=some (pairs.map fun pair => plainMatch lib pair.1 pair.2,cache)∧
      cache.entries.map Prod.fst=((recentPatterns lib pairs).take capacity).reverse∧
      ∀ entry∈cache.entries,compile lib entry.1=.ok entry.2)∧
      ∀ pair∈pairs,matchAlone lib pair.1 pair.2=some (plainMatch lib pair.1 pair.2) := by
  constructor
  · obtain ⟨cache,hrun,hcap,hholds⟩ := matchAll_plain pairs (holds_empty (compile lib) capacity) hpos
    have hkeys := hholds.keys
    rw [hcap] at hkeys
    exact ⟨cache,hrun,hkeys,hholds.values⟩
  · intro pair _
    obtain ⟨cache,hone,_⟩ := matchIn_plain (holds_empty (compile lib) defaultCapacity) (Nat.zero_lt_succ 31) pair
    rw [matchAlone,withCapacity,hone]
    rfl

/-- A library whose patterns are their own compiled form, except for one open group, and match themselves. -/
def literalLibrary : RegexLibrary String :=
  ⟨fun pat => if pat="^(?:([unclosed)$" then .error "unclosed group" else .ok pat,fun re text => re="^(?:"++text++")$"⟩

/-- Matches of a query that uses a pattern again before a third one and tries one that fails. -/
def samplePairs : List (Value×Value) :=
  [(.string "a",.string "a"),(.string "b",.string "b"),(.string "a",.string "a"),(.string "x",.string "([unclosed"),
    (.null,.string "d"),(.string "b",.string "c")]

/-- In a cache of two patterns the one that is used again stays, and one that fails is not kept. -/
theorem cached_matches_recent : ∃ cache,matchAll literalLibrary samplePairs (withCapacity 2)=
      some ([.ok (.bool true),.ok (.bool true),.ok (.bool true),
        .error ⟨.runtime,"invalid regex pattern `([unclosed`: unclosed group"⟩,.ok .null,.ok (.bool false)],cache)∧
      cache.entries.map Prod.fst=["a","c"] := by
  have hmatches : (∃ cache,matchAll literalLibrary samplePairs (withCapacity 2)=some (_,cache)∧_)∧_ :=
    cached_matches (Nat.zero_lt_succ 1) samplePairs
  obtain ⟨⟨cache,hrun,hkeys,_⟩,_⟩ := hmatches
  refine ⟨cache,hrun.trans ?_,hkeys.trans ?_⟩
  · rfl
  · decide +kernel

end GraphDbLite.CompiledPatterns
