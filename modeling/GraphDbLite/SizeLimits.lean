import GraphDbLite.NameValidity

/-!
# Size limits on what is stored

The calls of a transaction check the sizes of the names and values that they are given,
but of several labels only the first. Write clauses and MERGE check nothing. The check
of a name that is too long quotes its first bytes, and panics when they end inside a
character.
-/

namespace GraphDbLite.SizeLimits

open GraphTypes StatefulActions GraphStore EdgeStorage NodeStorage WriteOperators
open PropertySetters MergeOperators TransactionCalls StorageCalls StoredContents

/-- Labels, relationship types and property keys within the limit of names, and values
within the limit of values. -/
def withinLimits (limits : Limits) : Admission :=
  ⟨fun l => byteLength l≤limits.maxNameBytes,fun l => byteLength l≤limits.maxNameBytes,
    fun entry => byteLength entry.1≤limits.maxNameBytes ∧
      valueByteSize entry.2≤limits.maxPropertyValueBytes⟩

/-- Every stored label, relationship type, property key and value is within the
limits. -/
def WithinLimits (limits : Limits) (st : Store) : Prop := Admitted (withinLimits limits) st

/-- A panic. -/
def IsPanic {α : Type} (outcome : Except Failure α) : Prop := ∃ message,outcome=.error (.panic message)

/-- A number of bytes is the size of some first characters. -/
def IsCharBoundary (name : String) (count : Nat) : Prop :=
  ∃ front back,name.toList=front++back ∧ (front.map Char.utf8Size).sum=count

/-- A name that is within the limit, or whose quoted bytes end with a character. -/
def Quotable (maxBytes : Nat) (name : String) : Prop :=
  byteLength name≤ maxBytes ∨ IsCharBoundary name (min maxBytes 32)

theorem leadingBytes_isSome_iff {count : Nat} {chars : List Char} :
    (leadingBytes count chars).isSome=true ↔
      ∃ front back,chars=front++back ∧ (front.map Char.utf8Size).sum=count := by
  induction chars generalizing count with
  | nil =>
    rw [leadingBytes]
    constructor
    · intro h
      split_ifs at h with hzero
      · exact ⟨[],[],rfl,hzero.symm⟩
      · cases h
    · rintro ⟨front,back,hsplit,hsum⟩
      have ⟨hfront,_⟩ := List.append_eq_nil_iff.mp hsplit.symm
      rw [hfront] at hsum
      have hzero : count=0 := hsum.symm
      rw [if_pos hzero]
      rfl
  | cons c rest ih =>
    rw [leadingBytes]
    constructor
    · intro h
      split_ifs at h with hzero hfits
      · exact ⟨[],c::rest,rfl,hzero.symm⟩
      · rw [Option.isSome_map] at h
        have ⟨front,back,hsplit,hsum⟩ := ih.mp h
        refine ⟨c::front,back,by rw [hsplit]; rfl,?_⟩
        rw [List.map_cons,List.sum_cons,hsum]
        omega
      · cases h
    · rintro ⟨front,back,hsplit,hsum⟩
      cases front with
      | nil =>
        have hzero : count=0 := hsum.symm
        rw [if_pos hzero]
        rfl
      | cons first front =>
        have ⟨hc,hrest⟩ := List.cons.inj hsplit
        rw [List.map_cons,List.sum_cons,←hc] at hsum
        have hpos : 0<c.utf8Size := c.utf8Size_pos
        have hne : count≠0 := by omega
        have hfits : c.utf8Size≤count := by omega
        rw [if_neg hne,if_pos hfits,Option.isSome_map]
        exact ih.mpr ⟨front,back,hrest,by omega⟩

/-- The check of a name panics exactly when it is too long and its quoted bytes end
inside a character; otherwise a name that is too long gets a size error. -/
theorem validateNameLength_cases (name : String) (maxBytes : Nat) :
    (byteLength name≤ maxBytes ∧ validateNameLength name maxBytes=.ok ()) ∨
      (maxBytes<byteLength name ∧ Quotable maxBytes name ∧
        ∃ what,validateNameLength name maxBytes=
          .error (.error (.sizeLimit what maxBytes (byteLength name) none))) ∨
      (¬Quotable maxBytes name ∧ IsPanic (validateNameLength name maxBytes)) := by
  by_cases hlong : maxBytes<byteLength name
  · have hboundary : (leadingBytes (min maxBytes 32) name.toList).isSome=true ↔
        IsCharBoundary name (min maxBytes 32) := leadingBytes_isSome_iff
    rw [validateNameLength,if_pos hlong]
    cases hcut : leadingBytes (min maxBytes 32) name.toList with
    | some chars =>
      rw [hcut] at hboundary
      exact Or.inr (Or.inl ⟨hlong,Or.inr (hboundary.mp rfl),_,rfl⟩)
    | none =>
      rw [hcut] at hboundary
      refine Or.inr (Or.inr ⟨?_,_,rfl⟩)
      rintro (hshort|hcharacter)
      · omega
      · exact absurd (hboundary.mpr hcharacter) (by simp)
  · exact Or.inl ⟨by omega,(validateNameLength_ok_iff name maxBytes).mpr (by omega)⟩

/-- The names that a call checks. -/
def checkedNames (label : String) (properties : Properties) : List String :=
  label::properties.map Prod.fst

/-- A size error. -/
def IsSizeError {α : Type} (outcome : Except Failure α) : Prop :=
  ∃ what limit actual,outcome=.error (.error (.sizeLimit what limit actual none))

/-- Names and values within the limits, as the calls of a transaction check them. -/
def SizesFit (limits : Limits) (label : String) (properties : Properties) : Prop :=
  byteLength label≤limits.maxNameBytes ∧ (withinLimits limits).Props properties

variable {limits : Limits} {properties : Properties} {label : String} {α : Type}

theorem validateEntries_of_key {key : String} (val : Value) (rest : Properties)
    (h : validateNameLength key limits.maxNameBytes=.ok ()) :
    validateEntries limits ((key,val)::rest)= if limits.maxPropertyValueBytes<valueByteSize val then .error
    (.error (.sizeLimit ("property '"++(key++"' value")) limits.maxPropertyValueBytes (valueByteSize val) none))
    else validateEntries limits rest := by
  rw [validateEntries,h]
  rfl

theorem validateEntries_of_badKey {key : String} {e : Failure} (val : Value) (rest : Properties)
    (h : validateNameLength key limits.maxNameBytes=.error e) : validateEntries limits ((key,val)::rest)=.error e := by
  rw [validateEntries,h]
  rfl

/-- The check of properties with quotable keys passes within the limits and gives a size
error beyond them. -/
theorem validateEntries_cases (hnames : ∀ key∈properties.map Prod.fst,Quotable limits.maxNameBytes key) :
    ((withinLimits limits).Props properties ∧ validateEntries limits properties=.ok ()) ∨
    (¬(withinLimits limits).Props properties ∧ IsSizeError (validateEntries limits properties)) := by
  induction properties with
  | nil => exact Or.inl ⟨fun _ hentry => absurd hentry List.not_mem_nil,rfl⟩
  | cons entry rest ih =>
    have ⟨key,val⟩ := entry
    have ⟨hkey,hrest⟩ := List.forall_mem_cons.mp hnames
    rcases validateNameLength_cases key limits.maxNameBytes with
      ⟨hshort,hok⟩|⟨hlong,-,what,herror⟩|⟨hnot,-⟩
    · rw [validateEntries_of_key val rest hok]
      by_cases hlarge : limits.maxPropertyValueBytes<valueByteSize val
      · rw [if_pos hlarge]
        refine Or.inr ⟨fun hall => ?_,_,_,_,rfl⟩
        have hval : valueByteSize val≤limits.maxPropertyValueBytes := (hall (key,val) List.mem_cons_self).2
        omega
      · have hval : valueByteSize val≤limits.maxPropertyValueBytes := by omega
        rw [if_neg hlarge]
        rcases ih hrest with ⟨hfits,hpass⟩|⟨hbeyond,hfail⟩
        · exact Or.inl ⟨List.forall_mem_cons.mpr ⟨⟨hshort,hval⟩,hfits⟩,hpass⟩
        · exact Or.inr ⟨fun hall => hbeyond (List.forall_mem_cons.mp hall).2,hfail⟩
    · rw [validateEntries_of_badKey val rest herror]
      refine Or.inr ⟨fun hall => ?_,what,_,_,rfl⟩
      have hshort : byteLength key≤limits.maxNameBytes := (hall (key,val) List.mem_cons_self).1
      omega
    · exact absurd hkey hnot

/-- The check of a label and properties with quotable names passes within the limits and
gives a size error beyond them. -/
theorem validateProperties_cases
    (hnames : ∀ name∈checkedNames label properties,Quotable limits.maxNameBytes name) :
    (SizesFit limits label properties ∧ validateProperties label properties limits=.ok ()) ∨
      (¬SizesFit limits label properties ∧ IsSizeError (validateProperties label properties limits)) := by
  have ⟨hlabel,hkeys⟩ := List.forall_mem_cons.mp hnames
  unfold validateProperties
  rcases validateNameLength_cases label limits.maxNameBytes with
    ⟨hshort,hok⟩|⟨hlong,-,what,herror⟩|⟨hnot,-⟩
  · rw [hok]
    rcases validateEntries_cases hkeys with ⟨hfits,hpass⟩|⟨hbeyond,hfail⟩
    · exact Or.inl ⟨⟨hshort,hfits⟩,hpass⟩
    · exact Or.inr ⟨fun hall => hbeyond hall.2,hfail⟩
  · rw [herror]
    refine Or.inr ⟨fun hall => ?_,what,_,_,rfl⟩
    have hshort := hall.1
    omega
  · exact absurd hlabel hnot

theorem sizesFit_of_ok (h : validateProperties label properties limits=.ok ()) : SizesFit limits label properties := by
  have hentries : ∀ {props : Properties},validateEntries limits props=.ok () →
      (withinLimits limits).Props props := by
    intro props
    induction props with
    | nil => exact fun _ _ hentry => absurd hentry List.not_mem_nil
    | cons entry rest ih =>
      intro hok
      have ⟨key,val⟩ := entry
      cases hkey : validateNameLength key limits.maxNameBytes with
      | error e => exact absurd ((validateEntries_of_badKey val rest hkey).symm.trans hok) (by simp)
      | ok u =>
        rw [validateEntries_of_key val rest hkey] at hok
        split_ifs at hok with hlarge
        have hval : valueByteSize val≤limits.maxPropertyValueBytes := by omega
        exact List.forall_mem_cons.mpr ⟨⟨(validateNameLength_ok_iff key _).mp hkey,hval⟩,ih hok⟩
  unfold validateProperties at h
  cases hlabel : validateNameLength label limits.maxNameBytes with
  | error e =>
    rw [hlabel] at h
    cases h
  | ok u =>
    rw [hlabel] at h
    exact ⟨(validateNameLength_ok_iff label _).mp hlabel,hentries h⟩

/-- The check of a name panics exactly when its quoted bytes end inside a character. -/
theorem validateNameLength_panics_iff (name : String) (maxBytes : Nat) :
    IsPanic (validateNameLength name maxBytes) ↔ ¬Quotable maxBytes name := by
  rcases validateNameLength_cases name maxBytes with ⟨hshort,hok⟩|⟨-,hquotable,what,herror⟩|⟨hnot,hpanic⟩
  · constructor
    · rintro ⟨message,hpanic⟩
      cases hok.symm.trans hpanic
    · exact fun hnot => absurd (Or.inl hshort) hnot
  · constructor
    · rintro ⟨message,hpanic⟩
      cases herror.symm.trans hpanic
    · exact fun hnot => absurd hquotable hnot
  · exact ⟨fun _ => hnot,fun _ => hpanic⟩

theorem validateProperties_not_panic
    (hnames : ∀ name∈checkedNames label properties,Quotable limits.maxNameBytes name) :
    ¬IsPanic (validateProperties label properties limits) := by
  rintro ⟨message,hpanic⟩
  rcases validateProperties_cases hnames with ⟨-,hok⟩|⟨-,what,limit,actual,herror⟩
  · cases hok.symm.trans hpanic
  · cases herror.symm.trans hpanic

theorem raising_not_panic (x : Db α) (st : Store) : ¬IsPanic (raising x st).1 := by
  rintro ⟨message,hpanic⟩
  unfold raising at hpanic
  cases hx : x st with
  | mk outcome st' =>
    rw [hx] at hpanic
    cases outcome with
    | ok a => cases hpanic
    | error e => exact absurd (Except.error.inj hpanic) (by simp)

theorem withoutResult_error {x : Action Store Failure α} {st : Store} {e : Failure} :
    (withoutResult x st).1=.error e ↔ (x st).1=.error e := by
  unfold withoutResult
  rw [bind_apply]
  cases x st with
  | mk outcome st' =>
    cases outcome with
    | ok a | error e' => simp

/-- An action that checks quotable names first, and does not panic after that, does not
panic, and beyond the limits it gives a size error. -/
theorem refuses_of_checked
    (rest : Unit → Action Store Failure α) (st : Store)
    (hnames : ∀ name∈checkedNames label properties,Quotable limits.maxNameBytes name)
    (hrest : ∀ u,¬IsPanic (rest u st).1) :
    ¬IsPanic ((inspect (fun _ => validateProperties label properties limits) >>= rest) st).1 ∧
      (¬SizesFit limits label properties →
        IsSizeError ((inspect (fun _ => validateProperties label properties limits) >>= rest) st).1) := by
  rcases validateProperties_cases hnames with ⟨hfits,hok⟩|⟨hbeyond,what,limit,actual,herror⟩
  · rw [inspect_ok (by exact hok)]
    exact ⟨hrest (),fun hbeyond => absurd hfits hbeyond⟩
  · rw [inspect_error (by exact herror)]
    refine ⟨?_,fun _ => ⟨what,limit,actual,rfl⟩⟩
    rintro ⟨message,hpanic⟩
    exact absurd (Except.error.inj hpanic) (by simp)

theorem requireNode_not_panic {id : NodeId} {rest : Unit → Action Store Failure α} {st : Store}
    (hrest : ∀ u,¬IsPanic (rest u st).1) : ¬IsPanic ((inspect (fun st => requireNode st id) >>= rest) st).1 := by
  cases hrequired : requireNode st id with
  | ok u =>
    rw [inspect_ok (by exact hrequired)]
    exact hrest u
  | error e =>
    rw [inspect_error (by exact hrequired)]
    rintro ⟨message,hpanic⟩
    unfold requireNode at hrequired
    split_ifs at hrequired
    exact absurd ((Except.error.inj hrequired).trans (Except.error.inj hpanic)) (by simp)

/-- The names and values that a call of a transaction is given are within the limits. -/
def CallFits (limits : Limits) : TxCall → Prop
  | .createNodeWithLabels labels properties =>
    (∀ l∈labels,byteLength l≤limits.maxNameBytes) ∧ (withinLimits limits).Props properties
  | .createNode label properties => SizesFit limits label properties
  | .setNodeProperty _ key value => (withinLimits limits).Props [(key,value)]
  | .createEdge _ _ label properties => SizesFit limits label properties
  | .deleteNode _ => True
  | .removeNodeProperty _ _ => True
  | .deleteEdge _ _ _ => True

/-- The names that a call checks can be quoted, and the labels after the first, which it
does not check, are within the limit. -/
def CallWithin (limits : Limits) : TxCall → Prop
  | .createNodeWithLabels labels properties =>
    (∀ name∈checkedNames (labels.head?.getD "") properties,Quotable limits.maxNameBytes name) ∧
      ∀ l∈labels.tail,byteLength l≤limits.maxNameBytes
  | .createNode label properties =>
    ∀ name∈checkedNames label properties,Quotable limits.maxNameBytes name
  | .setNodeProperty _ key _ => Quotable limits.maxNameBytes key
  | .createEdge _ _ label properties =>
    ∀ name∈checkedNames label properties,Quotable limits.maxNameBytes name
  | .deleteNode _ => True
  | .removeNodeProperty _ _ => True
  | .deleteEdge _ _ _ => True

/-- What a call brings into the tables is within the limits, when it passes its own
checks. -/
def BringsWithin (limits : Limits) (st : Store) (c : StorageCall) : Prop :=
  Accepted st c → Brings (withinLimits limits) st c

section Runs

variable {E : Type} (env : ExecEnv E) (limits : Limits)

/-- A write clause or MERGE writes nothing beyond the limits, and a call of a transaction
leaves nothing unchecked that is beyond them. -/
def StepWithin (st : Store) : WriteStep E → Prop
  | .call call => CallWithin limits call
  | .clause clause => StepMeets (BringsWithin limits) env limits st (.clause clause)
  | .merge pattern onCreate onMatch =>
    StepMeets (BringsWithin limits) env limits st (.merge pattern onCreate onMatch)
  | .matchMerge records pattern onCreate onMatch =>
    StepMeets (BringsWithin limits) env limits st (.matchMerge records pattern onCreate onMatch)

/-- A call of a transaction does not panic, and beyond the limits it gives a size
error. -/
def Refuses (st : Store) : WriteStep E → Prop
  | .call call => ¬IsPanic (call.run env limits st).1 ∧
      (¬CallFits limits call → IsSizeError (call.run env limits st).1)
  | .clause _ => True
  | .merge _ _ _ => True
  | .matchMerge _ _ _ _ => True

variable {env limits}

/-- The labels of a node are within the limit when the first and the others are. -/
theorem labels_fit {labels : List String} (hfirst : byteLength (labels.head?.getD "")≤limits.maxNameBytes)
    (htail : ∀ l∈labels.tail,byteLength l≤limits.maxNameBytes) :
    ∀ l∈labels,byteLength l≤limits.maxNameBytes := by
  cases labels with
  | nil => exact fun _ hl => absurd hl List.not_mem_nil
  | cons first rest => exact List.forall_mem_cons.mpr ⟨hfirst,htail⟩

theorem head_labelsOf (label : String) : (labelsOf label).head?.getD ""=label := by
  unfold labelsOf
  split_ifs with hempty
  · exact hempty.symm
  · rfl

theorem tail_labelsOf (label : String) : (labelsOf label).tail=[] := by
  unfold labelsOf
  split_ifs <;> rfl

theorem quotable_underscore (maxBytes : Nat) : Quotable maxBytes "_" := by
  have hone : byteLength "_"=1 := by decide
  by_cases hzero : maxBytes=0
  · refine Or.inr ⟨[],"_".toList,rfl,?_⟩
    rw [hzero]
    rfl
  · refine Or.inl ?_
    omega

theorem stepMeets_of_within {st : Store} {step : WriteStep E} (h : StepWithin env limits st step) :
    StepMeets (BringsWithin limits) env limits st step := by
  cases step with
  | clause clause | merge pattern onCreate onMatch | matchMerge records pattern onCreate onMatch => exact h
  | call call =>
    cases call with
    | createNodeWithLabels labels properties =>
      intro hchecked _
      have ⟨hfirst,hprops⟩ := sizesFit_of_ok hchecked
      exact ⟨labels_fit hfirst h.2,hprops⟩
    | createNode label properties =>
      intro hchecked _
      have ⟨hfirst,hprops⟩ := sizesFit_of_ok hchecked
      refine ⟨labels_fit hfirst ?_,hprops⟩
      rw [tail_labelsOf]
      exact fun _ hl => absurd hl List.not_mem_nil
    | setNodeProperty id key value =>
      exact fun hchecked _ _ => (sizesFit_of_ok hchecked).2 (key,value) List.mem_cons_self
    | createEdge src dst label properties => exact fun hchecked _ _ _ => sizesFit_of_ok hchecked
    | deleteNode id | removeNodeProperty id key | deleteEdge src dst label => trivial

theorem refuses_createNode {st : Store} {labels : List String} {properties : Properties}
    (hnames : ∀ name∈checkedNames (labels.head?.getD "") properties,Quotable limits.maxNameBytes name) :
    ¬IsPanic (withoutResult (txCreateNodeWithLabels env limits labels properties) st).1 ∧
      (¬SizesFit limits (labels.head?.getD "") properties →
        IsSizeError (withoutResult (txCreateNodeWithLabels env limits labels properties) st).1) := by
  have hinner := refuses_of_checked (fun _ => raising (createIndexedNode env labels properties)) st
    hnames fun _ => raising_not_panic _ st
  constructor
  · rintro ⟨message,hpanic⟩
    exact hinner.1 ⟨message,withoutResult_error.mp hpanic⟩
  · intro hbeyond
    have ⟨what,limit,actual,herror⟩ := hinner.2 hbeyond
    exact ⟨what,limit,actual,withoutResult_error.mpr herror⟩

theorem refuses_of_within {st : Store} {step : WriteStep E} (h : StepWithin env limits st step) :
    Refuses env limits st step := by
  cases step with
  | clause clause | merge pattern onCreate onMatch | matchMerge records pattern onCreate onMatch => trivial
  | call call =>
    cases call with
    | createNodeWithLabels labels properties =>
      have ⟨hpanic,herror⟩ := @refuses_createNode E env limits st labels properties h.1
      refine ⟨hpanic,fun hbeyond => herror fun hfits => hbeyond ?_⟩
      exact ⟨labels_fit hfits.1 h.2,hfits.2⟩
    | createNode label properties =>
      have hnames : ∀ name∈checkedNames ((labelsOf label).head?.getD "") properties,
          Quotable limits.maxNameBytes name := by
        rw [head_labelsOf]
        exact h
      have hcall := @refuses_createNode E env limits st (labelsOf label) properties hnames
      rw [head_labelsOf] at hcall
      exact hcall
    | setNodeProperty id key value =>
      have hnames : ∀ name∈checkedNames "_" [(key,value)],Quotable limits.maxNameBytes name :=
        List.forall_mem_cons.mpr ⟨quotable_underscore _,List.forall_mem_singleton.mpr h⟩
      obtain ⟨hpanic,herror⟩ := refuses_of_checked _ st hnames fun _ => raising_not_panic _ st
      exact ⟨hpanic,fun hbeyond => herror fun hfits => hbeyond hfits.2⟩
    | createEdge src dst label properties =>
      refine refuses_of_checked _ st h fun _ => requireNode_not_panic fun _ => requireNode_not_panic fun _ => ?_
      exact raising_not_panic _ st
    | deleteNode id | removeNodeProperty id key => exact ⟨raising_not_panic _ st,fun hbeyond => absurd trivial hbeyond⟩
    | deleteEdge src dst label =>
      refine ⟨?_,fun hbeyond => absurd trivial hbeyond⟩
      rintro ⟨message,hpanic⟩
      cases hpanic

end Runs

/-- Along every run in which write clauses and MERGE write nothing beyond the limits and
the calls of a transaction leave nothing unchecked, everything stored is within the
limits, and the calls refuse what is beyond them without a panic. The check of a name
panics exactly when its quoted bytes end inside a character, and the check of properties
only on such a name. -/
theorem withinLimits_reached {E : Type} (env : ExecEnv E) (limits : Limits) (steps : List (WriteStep E))
    (hguard : Guarded (applyWriteStep env limits) (StepWithin env limits) freshStore steps) :
    (∀ first,first<+:steps →
        WithinLimits limits (StatefulActions.run (applyWriteStep env limits) freshStore first)) ∧
      Guarded (applyWriteStep env limits) (Refuses env limits) freshStore steps ∧
      (∀ name maxBytes,IsPanic (validateNameLength name maxBytes) ↔ ¬Quotable maxBytes name) ∧
      ∀ label properties,(∀ name∈checkedNames label properties,Quotable limits.maxNameBytes name) →
        ¬IsPanic (validateProperties label properties limits) := by
  refine ⟨fun first hfirst => ?_,?_,validateNameLength_panics_iff,fun _ _ => validateProperties_not_panic⟩
  · have hmeets : Guarded (applyWriteStep env limits) (StepMeets (BringsWithin limits) env limits)
        freshStore steps :=
      guarded_imp (I:=fun _ => True) (fun _ _ _ _ => trivial) (fun _ _ _ h => stepMeets_of_within h)
        trivial hguard
    exact (keptBy_admitted (withinLimits limits)).reached (admitted_freshStore _) hmeets hfirst
  · exact guarded_imp (I:=fun _ => True) (fun _ _ _ _ => trivial) (fun _ _ _ h => refuses_of_within h)
      trivial hguard

/-- Limits of four bytes for names and eight for values. -/
def narrowLimits : Limits := ⟨4,8⟩

/-- A node by the transaction call, one whose label is too long, and `CREATE (n:B {x: 1})`. -/
def limitedSteps : List (WriteStep Value) :=
  [.call (.createNodeWithLabels ["A","B"] [("key",.string "text")]),.call (.createNode "Label" []),
    .clause (.createNode ["B"] (some "n") [("x",.i64 1)])]

/-- Everything stored along that run is within the limits. -/
theorem withinLimits_sample :
    (∀ first,first<+:limitedSteps →
        WithinLimits narrowLimits
          (StatefulActions.run (applyWriteStep literalEnv narrowLimits) freshStore first)) ∧
      Guarded (applyWriteStep literalEnv narrowLimits) (Refuses literalEnv narrowLimits) freshStore
        limitedSteps ∧
      (∀ name maxBytes,IsPanic (validateNameLength name maxBytes) ↔ ¬Quotable maxBytes name) ∧
      ∀ label properties,(∀ name∈checkedNames label properties,Quotable narrowLimits.maxNameBytes name) →
        ¬IsPanic (validateProperties label properties narrowLimits) := by
  have hsizes : byteLength "A"≤4 ∧ byteLength "B"≤4 ∧ byteLength "key"≤4 ∧ byteLength "x"≤4 := by
    decide
  have ⟨hA,hB,hkey,hx⟩ := hsizes
  refine withinLimits_reached literalEnv narrowLimits limitedSteps ⟨⟨?_,?_⟩,?_,?_,trivial⟩
  · exact List.forall_mem_cons.mpr ⟨Or.inl hA,List.forall_mem_singleton.mpr (Or.inl hkey)⟩
  · exact List.forall_mem_singleton.mpr hB
  · exact List.forall_mem_singleton.mpr (Or.inr ⟨"Labe".toList,"l".toList,rfl,rfl⟩)
  · intro props hprops _
    rw [←Except.ok.inj hprops]
    exact ⟨List.forall_mem_singleton.mpr hB,List.forall_mem_singleton.mpr ⟨hx,by decide⟩⟩

/-- `CREATE (n:Label)` stores a label beyond the limit, and the check of a two-byte
character against a limit of one byte panics. -/
theorem withinLimits_run_fails :
    (¬∀ steps : List (WriteStep Value),WithinLimits narrowLimits
        (StatefulActions.run (applyWriteStep literalEnv narrowLimits) freshStore steps)) ∧
      IsPanic (validateNameLength "é" 1) := by
  constructor
  · intro hall
    have hstored := hall [.clause (.createNode ["Label"] (some "n") [])]
    have hlabel : byteLength "Label"≤4 :=
      hstored.labels 1 ⟨"Label",["Label"],[]⟩ rfl "Label" List.mem_cons_self
    exact absurd hlabel (by decide)
  · exact ⟨"byte index is not a char boundary",rfl⟩

end GraphDbLite.SizeLimits
