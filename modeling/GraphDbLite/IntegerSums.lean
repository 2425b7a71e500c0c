import Mathlib.Algebra.BigOperators.Group.List.Basic
import Mathlib.Data.List.Dedup
import GraphDbLite.RowIdentity

/-!
# Sums of integers

The sum of a group wraps around, where the operator `+` fails. The sum is exact or an error exactly
when the integers of the group add up within 64 bits, and the sums of two parts add up to it exactly
when the parts leave the range by opposite numbers of turns.
-/

namespace GraphDbLite.IntegerSums

open GraphTypes GraphStore CypherValues CypherEval WriteOperators FallibleLists QueryPlan QueryExecutor
open Projection Aggregation Grouping RowIdentity

section Wrapping

/-- Whether an integer fits in 64 bits. -/
def Fits (n : Int) : Prop := -2^63≤n ∧ n<2^63

/-- Turns by which an integer leaves the range of 64 bits. -/
def turns (n : Int) : Int := (n+2^63)/2^64

theorem fits_iff (n : Int) : Fits n ↔ turns n=0 := by
  unfold Fits turns
  omega

theorem bmod_turns (n : Int) : n.bmod (2^64)=n-2^64*turns n := by
  rw [Int.bmod_def,turns]
  split_ifs with h
  · omega
  · omega

/-- Mathematical sum of some integers. -/
def exactSum (ints : List Int64) : Int := (ints.map Int64.toInt).sum

theorem toInt_foldl (ints : List Int64) (start : Int64) :
    (ints.foldl (·+·) start).toInt=(start.toInt+exactSum ints).bmod (2^64) := by
  induction ints generalizing start with
  | nil => 
    rw [exactSum,List.map_nil,List.sum_nil,Int.add_zero]
    exact start.toInt_bmod.symm
  | cons n rest ih =>
    rw [List.foldl_cons,ih,Int64.toInt_add,Int.bmod_add_bmod,exactSum,exactSum,List.map_cons,List.sum_cons,Int.add_assoc]

end Wrapping

/-- The operator `+` on integers; its error is out of range. -/
def addIntegers (a b : Int64) : Except String Int64 :=
  let sum := a.toInt+b.toInt
  if -2^63≤ sum ∧ sum<2^63 then .ok (a+b) else .error s!"integer overflow: {a} + {b}"

section Sum

variable {S : Type} (env : AggregateEnv S) (st : Store) (addF64 : UInt64 → UInt64 → UInt64)

/-- Progress of a sum. -/
structure SumState where
  /-- Sum of the integers. -/
  intSum : Int64
  /-- Sum of all numbers as floats. -/
  floatSum : UInt64
  /-- Whether no float was seen. -/
  allInteger : Bool

/-- One value of a sum. -/
def sumStep (s : SumState) : Value → SumState
  | .i64 n => {s with intSum := s.intSum+n,floatSum := addF64 s.floatSum (i64ToF64 n)}
  | .f64 bits => {s with allInteger := false,floatSum := addF64 s.floatSum bits}
  | _ => s

/-- The sum of some values. -/
def sumValues (values : List Value) : Value :=
  let s := values.foldl (sumStep addF64) ⟨0,0,true⟩
  if s.allInteger=true then .i64 s.intSum else .f64 s.floatSum

/-- Aggregation with the sum of the source. -/
def withSum : AggregateEnv S :=
  {env with numeric := fun function second values =>
    if function=.sum then values.map (sumValues addF64) else env.numeric function second values}

/-- The integer of a value. -/
def integer : Value → Option Int64
  | .i64 n => some n
  | _ => none

/-- Integers that an input takes on some rows. -/
def integers (input : Cell) (rows : Rows) : List Int64 := rows.filterMap fun rec =>
  match input rec with
  | .ok val => integer val
  | .error _ => none

variable (agg : AggregateExpr S) (rows : Rows)

/-- The sum of an aggregate over some rows. -/
def computeSum (rows : Rows) : Result Value := computeAggregate (withSum env addF64) st agg rows

/-- Integers that an aggregate adds up. -/
def summands : List Int64 :=
  if agg.distinct=true then (integers (evalItem env st agg.input) rows).dedup
  else integers (evalItem env st agg.input) rows

/-- Whether the input is an integer or null on all rows. -/
def IntegerInput : Prop :=
  ∀ rec∈rows,evalItem env st agg.input rec=.ok .null ∨ ∃ n,evalItem env st agg.input rec=.ok (.i64 n)

/-- A sum that never wraps: exact or an error, and without duplicates dropped the sum of two parts by `+`
in every split and every order. -/
structure SumsExactly : Prop where
  /-- A sum that fits is returned. -/
  exact : Fits (exactSum (summands env st agg rows)) →
    ∃ r,computeSum env st addF64 agg rows=.ok (.i64 r) ∧ r.toInt=exactSum (summands env st agg rows)
  /-- A sum that does not fit is an error. -/
  fails : ¬Fits (exactSum (summands env st agg rows)) → ∃ e,computeSum env st addF64 agg rows=.error e
  /-- The sums of two parts add up to the whole. -/
  splits : agg.distinct=false → ∀ whole part rest : Rows,whole.Perm rows → (part++rest).Perm rows →
    ∀ a b c,computeSum env st addF64 agg part=.ok (.i64 a) → computeSum env st addF64 agg rest=.ok (.i64 b) →
      computeSum env st addF64 agg whole=.ok (.i64 c) → addIntegers a b=.ok c

end Sum

section Laws

variable {S : Type} {env : AggregateEnv S} {st : Store} {addF64 : UInt64 → UInt64 → UInt64} {agg : AggregateExpr S}
variable {rows : Rows}

theorem sum_foldl (addF64 : UInt64 → UInt64 → UInt64) {values : List Value} (h : ∀ val∈values,val=.null ∨ ∃ n,val=.i64 n) (s : SumState) :
    (values.foldl (sumStep addF64) s).intSum=(values.filterMap integer).foldl (·+·) s.intSum ∧
      (values.foldl (sumStep addF64) s).allInteger=s.allInteger := by
  induction values generalizing s with
  | nil => exact ⟨rfl,rfl⟩
  | cons val rest ih =>
    rw [List.forall_mem_cons] at h
    rw [List.foldl_cons]
    obtain ⟨hsum,hall⟩ := ih h.2 (sumStep addF64 s val)
    rw [hsum,hall]
    rcases h.1 with hnull|⟨n,hn⟩
    · rw [hnull]
      exact ⟨rfl,rfl⟩
    · rw [hn]
      exact ⟨rfl,rfl⟩

theorem sumValues_eq {values : List Value} (h : ∀ val∈values,val=.null ∨ ∃ n,val=.i64 n) :
    ∃ r,sumValues addF64 values=.i64 r ∧ r.toInt=(exactSum (values.filterMap integer)).bmod (2^64) := by
  obtain ⟨hsum,hall⟩ := sum_foldl addF64 h ⟨0,0,true⟩
  refine ⟨_,by rw [sumValues,if_pos hall],?_⟩
  rw [hsum,toInt_foldl]
  exact congrArg (Int.bmod · (2^64)) (Int.zero_add _)

theorem filter_integers {values : List Value} (h : ∀ val∈values,val=.null ∨ ∃ n,val=.i64 n) :
    (values.filter fun v => !v.isNull)=(values.filterMap integer).map Value.i64 := by
  induction values with
  | nil => rfl
  | cons val rest ih =>
    rw [List.forall_mem_cons] at h
    rcases h.1 with hnull|⟨n,hn⟩
    · rw [hnull]
      exact ih h.2
    · rw [hn]
      exact congrArg (Value.i64 n::·) (ih h.2)

theorem keepFirst_integers (ints seen : List Int64) : ∃ kept : List Int64,
    keepFirst valueEq (seen.map Value.i64) (ints.map Value.i64)=kept.map Value.i64 ∧ kept.Nodup ∧
      ∀ n,n∈kept ↔ n∈ints ∧ n∉seen := by
  induction ints generalizing seen with
  | nil => exact ⟨[],rfl,List.nodup_nil,by simp⟩
  | cons n rest ih =>
    have hany : ((seen.map Value.i64).any fun old => valueEq old (.i64 n))=true ↔ n∈seen := by
      simp [valueEq]
    rw [List.map_cons,keepFirst]
    by_cases hseen : n∈seen
    · rw [if_pos (hany.mpr hseen)]
      obtain ⟨kept,hkept,hnodup,hmem⟩ := ih seen
      refine ⟨kept,hkept,hnodup,fun k => (hmem k).trans ?_⟩
      rw [List.mem_cons]
      constructor
      · exact fun h => ⟨Or.inr h.1,h.2⟩
      · rintro ⟨hk|hk,hnot⟩
        · exact absurd (hk▸hseen) hnot
        · exact ⟨hk,hnot⟩
    · rw [if_neg fun h => hseen (hany.mp h)]
      obtain ⟨kept,hkept,hnodup,hmem⟩ := ih (seen++[n])
      rw [List.map_append,List.map_singleton] at hkept
      refine ⟨n::kept,by rw [hkept,List.map_cons],List.nodup_cons.mpr ⟨fun h => ?_,hnodup⟩,fun k => ?_⟩
      · exact ((hmem n).mp h).2 (List.mem_append_right _ List.mem_cons_self)
      · rw [List.mem_cons,hmem,List.mem_cons,List.mem_append,List.mem_singleton]
        by_cases hk : k=n
        · exact iff_of_true (Or.inl hk) ⟨Or.inl hk,hk▸hseen⟩
        · tauto

theorem computeSum_eq (hsum : agg.function=.sum) (h : IntegerInput env st agg rows) :
    ∃ r,computeSum env st addF64 agg rows=.ok (.i64 r) ∧ r.toInt=(exactSum (summands env st agg rows)).bmod (2^64) := by
  let val : NamedRecord → Value := fun rec => (evalItem env st agg.input rec).toOption.getD .null
  have hval : ∀ rec∈rows,evalItem env st agg.input rec=.ok (val rec) ∧ (val rec=.null ∨ ∃ n,val rec=.i64 n) := by
    intro rec hrec
    rcases h rec hrec with hnull|⟨n,hn⟩
    · have hv : val rec=.null := congrArg (fun r => r.toOption.getD .null) hnull
      exact ⟨hnull.trans (congrArg Except.ok hv.symm),Or.inl hv⟩
    · have hv : val rec=.i64 n := congrArg (fun r => r.toOption.getD .null) hn
      exact ⟨hn.trans (congrArg Except.ok hv.symm),Or.inr ⟨n,hv⟩⟩
  have hints : ∀ kept : Rows,(∀ rec∈kept,rec∈rows) →
      integers (evalItem env st agg.input) kept=(kept.map val).filterMap integer := by
    intro kept hkept
    rw [integers,List.filterMap_map]
    refine List.filterMap_congr fun rec hrec => ?_
    rw [(hval rec (hkept rec hrec)).1]
    rfl
  have hover : ∀ kept : Rows,(∀ rec∈kept,rec∈rows) → ∃ r,
      (withSum env addF64).numeric .sum none (inputValues (evalItem env st agg.input) kept)=.ok (.i64 r) ∧
        r.toInt=(exactSum ((kept.map val).filterMap integer)).bmod (2^64) := by
    intro kept hkept
    have hone : ∀ rec∈kept,((evalItem env st agg.input rec).map fun v => [v])=.ok [val rec] := fun rec hrec => by
      rw [(hval rec (hkept rec hrec)).1]
      rfl
    have hvalues : inputValues (evalItem env st agg.input) kept=.ok (kept.map val) := by
      rw [inputValues,gather_ok hone,List.map_eq_flatMap]
    have hnumbers : ∀ v∈kept.map val,v=.null ∨ ∃ n,v=.i64 n := fun v hv => by
      obtain ⟨rec,hrec,heq⟩ := List.mem_map.mp hv
      exact heq▸(hval rec (hkept rec hrec)).2
    obtain ⟨r,hr,hsumr⟩ := sumValues_eq hnumbers
    refine ⟨r,?_,hsumr⟩
    rw [hvalues]
    exact congrArg Except.ok hr
  have hcompute : ∀ kept : Rows,(∀ rec∈kept,rec∈rows) →
      (if agg.distinct=true ∧ isStar agg.input=false then dropDuplicates (evalItem env st agg.input) [] rows
        else .ok rows)=.ok kept → exactSum ((kept.map val).filterMap integer)=exactSum (summands env st agg rows) →
      ∃ r,computeSum env st addF64 agg rows=.ok (.i64 r) ∧
        r.toInt=(exactSum (summands env st agg rows)).bmod (2^64) := by
    intro kept hkept hrows hexact
    obtain ⟨r,hr,hsumr⟩ := hover kept hkept
    refine ⟨r,?_,hexact▸hsumr⟩
    have heval : evalItem (withSum env addF64) st agg.input=evalItem env st agg.input := rfl
    rw [computeSum,computeAggregate,heval,hrows,hsum]
    exact hr
  by_cases hdistinct : agg.distinct=true
  · cases hstar : isStar agg.input with
    | false =>
      obtain ⟨kept,hkept,hmem,hvalues⟩ := dropDuplicates_ok (fun rec hrec => (hval rec hrec).1) []
      obtain ⟨first,hfirst,hnodup,hdistincts⟩ := keepFirst_integers (integers (evalItem env st agg.input) rows) []
      have hnumbers : ∀ v∈rows.map val,v=.null ∨ ∃ n,v=.i64 n := fun v hv => by
        obtain ⟨rec,hrec,heq⟩ := List.mem_map.mp hv
        exact heq▸(hval rec hrec).2
      rw [List.map_nil,hints rows fun rec hrec => hrec,←filter_integers hnumbers,←hvalues] at hfirst
      refine hcompute kept (fun rec hrec => (hmem rec hrec).1) (by rw [if_pos ⟨hdistinct,hstar⟩]; exact hkept) ?_
      have hperm : first.Perm (integers (evalItem env st agg.input) rows).dedup :=
        (List.perm_ext_iff_of_nodup hnodup (List.nodup_dedup _)).mpr fun n => by
          rw [hdistincts,List.mem_dedup,and_iff_left List.not_mem_nil]
      have hread : (first.map Value.i64).filterMap integer=first := by
        rw [List.filterMap_map]
        exact List.filterMap_some
      rw [hfirst,hread,summands,if_pos hdistinct]
      exact (hperm.map _).sum_eq
    | true =>
      refine hcompute rows (fun rec hrec => hrec) (if_neg (by simp [hstar])) ?_
      have hnone : integers (evalItem env st agg.input) rows=[] := by
        rw [hints rows fun rec hrec => hrec,List.filterMap_eq_nil_iff]
        intro v hv
        obtain ⟨rec,hrec,heq⟩ := List.mem_map.mp hv
        obtain ⟨hok,hnumber⟩ := hval rec hrec
        rcases hnumber with hnull|⟨n,hn⟩
        · rw [←heq,hnull]
          rfl
        · rw [isStar_of_value hok (hn▸Value.noConfusion)] at hstar
          cases hstar
      rw [←hints rows fun rec hrec => hrec,summands,if_pos hdistinct,hnone,List.dedup_nil]
  · refine hcompute rows (fun rec hrec => hrec) (if_neg fun h => hdistinct h.1) ?_
    rw [←hints rows fun rec hrec => hrec,summands,if_neg hdistinct]

theorem exactSum_perm {whole : Rows} (h : whole.Perm rows) (input : Cell) :
    exactSum (integers input whole)=exactSum (integers input rows) := ((h.filterMap _).map _).sum_eq

theorem exactSum_parts {part rest : Rows} (h : (part++rest).Perm rows) (input : Cell) :
    exactSum (integers input part)+exactSum (integers input rest)=exactSum (integers input rows) := by
  rw [←exactSum_perm h]
  unfold exactSum integers
  rw [List.filterMap_append,List.map_append,List.sum_append]

/-- Wrapped sums of two parts add up without overflow exactly when their turns cancel, if the whole fits. -/
theorem addIntegers_iff {a b c : Int64} {p q : Int} (hfits : Fits (p+q)) (ha : a.toInt=p.bmod (2^64))
    (hb : b.toInt=q.bmod (2^64)) (hc : c.toInt=(p+q).bmod (2^64)) : addIntegers a b=.ok c ↔ turns p+turns q=0 := by
  have hturns := (fits_iff _).mp hfits
  rw [bmod_turns] at ha hb hc
  unfold addIntegers Fits at *
  dsimp only
  split_ifs with hrange
  · have hcancel : turns p+turns q=0 := by omega
    refine iff_of_true (congrArg Except.ok (Int64.toInt_inj.mp ?_)) hcancel
    rw [Int64.toInt_add,ha,hb,hc,bmod_turns]
    have hnone : turns (p-2^64*turns p+(q-2^64*turns q))=0 := (fits_iff _).mp (by unfold Fits; omega)
    omega
  · refine iff_of_false (fun h => by cases h) fun hcancel => hrange ?_
    omega

/-- A sum is exact or an error, and agrees with `+` on every split, exactly when the integers add up within 64 bits
and the parts of every split leave the range by opposite numbers of turns. -/
theorem sumsExactly_iff (hsum : agg.function=.sum) (h : IntegerInput env st agg rows) :
    SumsExactly env st addF64 agg rows ↔ Fits (exactSum (summands env st agg rows)) ∧
      (agg.distinct=false → ∀ part rest : Rows,(part++rest).Perm rows →
        turns (exactSum (integers (evalItem env st agg.input) part))+
          turns (exactSum (integers (evalItem env st agg.input) rest))=0) := by
  have hall : ∀ some : Rows,(∀ rec∈some,rec∈rows) → ∃ r,computeSum env st addF64 agg some=.ok (.i64 r) ∧
      r.toInt=(exactSum (summands env st agg some)).bmod (2^64) := fun some hsome =>
    computeSum_eq hsum fun rec hrec => h rec (hsome rec hrec)
  have hplain : agg.distinct=false → ∀ some,summands env st agg some=integers (evalItem env st agg.input) some :=
    fun hdistinct some => if_neg (by simp [hdistinct])
  obtain ⟨r,hr,hrsum⟩ := hall rows fun rec hrec => hrec
  have hlaw : ∀ part rest : Rows,agg.distinct=false → Fits (exactSum (summands env st agg rows)) → (part++rest).Perm rows →
      ∀ a b c : Int64,a.toInt=(exactSum (integers (evalItem env st agg.input) part)).bmod (2^64) →
        b.toInt=(exactSum (integers (evalItem env st agg.input) rest)).bmod (2^64) →
        c.toInt=(exactSum (integers (evalItem env st agg.input) rows)).bmod (2^64) →
        (addIntegers a b=.ok c ↔ turns (exactSum (integers (evalItem env st agg.input) part))+
          turns (exactSum (integers (evalItem env st agg.input) rest))=0) := by
    intro part rest hdistinct hfits hsplit a b c ha hb hc
    rw [hplain hdistinct] at hfits
    rw [←exactSum_parts hsplit] at hfits hc
    exact addIntegers_iff hfits ha hb hc
  constructor
  · intro hexact
    have hfits : Fits (exactSum (summands env st agg rows)) := by
      by_contra hnot
      obtain ⟨e,he⟩ := hexact.fails hnot
      rw [he] at hr
      cases hr
    refine ⟨hfits,fun hdistinct part rest hsplit => ?_⟩
    obtain ⟨a,ha,hasum⟩ := hall part fun rec hrec => hsplit.mem_iff.mp (List.mem_append_left _ hrec)
    obtain ⟨b,hb,hbsum⟩ := hall rest fun rec hrec => hsplit.mem_iff.mp (List.mem_append_right _ hrec)
    rw [hplain hdistinct] at hasum hbsum hrsum
    exact (hlaw part rest hdistinct hfits hsplit a b r hasum hbsum hrsum).mp
      (hexact.splits hdistinct rows part rest (List.Perm.refl _) hsplit a b r ha hb hr)
  · rintro ⟨hfits,hturns⟩
    refine ⟨fun _ => ⟨r,hr,?_⟩,fun hnot => absurd hfits hnot,
      fun hdistinct whole part rest hwhole hsplit a b c ha hb hc => ?_⟩
    · rw [hrsum,bmod_turns,(fits_iff _).mp hfits]
      omega
    · obtain ⟨a',ha',hasum⟩ := hall part fun rec hrec => hsplit.mem_iff.mp (List.mem_append_left _ hrec)
      obtain ⟨b',hb',hbsum⟩ := hall rest fun rec hrec => hsplit.mem_iff.mp (List.mem_append_right _ hrec)
      obtain ⟨c',hc',hcsum⟩ := hall whole fun rec hrec => hwhole.mem_iff.mp hrec
      rw [hplain hdistinct] at hasum hbsum hcsum
      rw [exactSum_perm hwhole] at hcsum
      rw [Value.i64.inj (Except.ok.inj (ha.symm.trans ha')),Value.i64.inj (Except.ok.inj (hb.symm.trans hb')),
        Value.i64.inj (Except.ok.inj (hc.symm.trans hc'))]
      exact (hlaw part rest hdistinct hfits hsplit a' b' c' hasum hbsum hcsum).mpr (hturns hdistinct part rest hsplit)

end Laws

/-- `sum(n.x)`. -/
def sumCall : AggregateExpr Empty := ⟨.sum,.property "n" "x",none,false,none,"sum",none⟩

/-- Rows with the largest integer and one. -/
def largestRows : Rows := [⟨[("n.x",.i64 Int64.maxValue)]⟩,⟨[("n.x",.i64 1)]⟩]

theorem integerInput_largestRows : IntegerInput plainAggregates freshStore sumCall largestRows := by
  intro rec hrec
  rcases List.mem_cons.mp hrec with hfirst|hrest
  · rw [hfirst]
    exact Or.inr ⟨_,rfl⟩
  · rw [List.mem_singleton.mp hrest]
    exact Or.inr ⟨_,rfl⟩

/-- Addition of floats as far as the largest rows need it: the first integer absorbs the second. -/
def absorb (a b : UInt64) : UInt64 := if a=0 then b else a

/-- The sum of the largest rows is not exact. -/
theorem sumsExactly_largestRows : SumsExactly plainAggregates freshStore absorb sumCall largestRows ↔
    Fits (exactSum (summands plainAggregates freshStore sumCall largestRows)) ∧
      (sumCall.distinct=false → ∀ part rest : Rows,(part++rest).Perm largestRows →
        turns (exactSum (integers (evalItem plainAggregates freshStore sumCall.input) part))+
          turns (exactSum (integers (evalItem plainAggregates freshStore sumCall.input) rest))=0) :=
  sumsExactly_iff rfl integerInput_largestRows

/-- The largest integer and one add up to the smallest integer. -/
theorem largestRows_wrap : ¬∀ (agg : AggregateExpr Empty) (rows : Rows),agg.function=.sum →
    IntegerInput plainAggregates freshStore agg rows → SumsExactly plainAggregates freshStore absorb agg rows := by
  intro h
  obtain ⟨e,he⟩ := (h sumCall largestRows rfl integerInput_largestRows).fails fun hfits => by
    have hlarge : exactSum (summands plainAggregates freshStore sumCall largestRows)=2^63 := rfl
    rw [hlarge] at hfits
    exact absurd hfits.2 (by decide)
  obtain ⟨r,hr,-⟩ := computeSum_eq (rfl : sumCall.function=.sum) integerInput_largestRows
  rw [hr] at he
  cases he

end GraphDbLite.IntegerSums
