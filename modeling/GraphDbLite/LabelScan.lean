import GraphDbLite.IndexMirror

/-!
# The label scan as a pattern search

The scan compares the label column, the labels of a node joined by colons, with
a LIKE pattern built from the label. The pattern finds a label as it is written,
and everything else that it can be read as: an underscore stands for any one
character, a colon included, and letters stand for both cases. The scan is exact
on a store exactly when no node can be misread so.
-/

namespace GraphDbLite.LabelScan

open GraphTypes OrderedTable GraphStore NodeStorage LikePattern IndexMirror

/-- One character of a pattern without percent signs against one of a text. -/
def LikeChar (p c : Char) : Prop := p = '_' ∨ p.toLower=c.toLower

/-- A pattern without percent signs fixes the characters of its text one by one. -/
theorem likeMatch_front {pattern more text : List Char} (hp : '%'∉pattern) :
    likeMatch (pattern++more) text=true ↔
      ∃ front rest,text=front++rest ∧ List.Forall₂ LikeChar pattern front ∧ likeMatch more rest=true := by
  induction pattern generalizing text with
  | nil =>
    constructor
    · exact fun h => ⟨[],text,rfl,List.Forall₂.nil,h⟩
    · rintro ⟨front,rest,htext,hfront,hmore⟩
      have hnil : front=[] := by simpa using hfront
      rw [htext,hnil]
      exact hmore
  | cons p pattern ih =>
    have hne : p ≠ '%' := fun h => hp (h ▸ List.mem_cons_self)
    have hrest : '%'∉pattern := fun h => hp (List.mem_cons_of_mem _ h)
    constructor
    · intro h
      cases text with
      | nil =>
        rw [List.cons_append,likeMatch,if_neg hne] at h
        cases h
      | cons c text =>
        have ⟨hchar,htail⟩ := (likeMatch_cons hne).mp h
        have ⟨front,rest,htext,hfront,hmore⟩ := (ih hrest).mp htail
        exact ⟨c::front,rest,by rw [htext]; rfl,List.Forall₂.cons hchar hfront,hmore⟩
    · rintro ⟨front,rest,htext,hfront,hmore⟩
      cases hfront with
      | cons hchar hfront =>
        rw [htext]
        exact (likeMatch_cons hne).mpr ⟨hchar,(ih hrest).mpr ⟨_,_,rfl,hfront,hmore⟩⟩

theorem toLower_eq_colon {c : Char} (h : Char.toLower ':'=c.toLower) : c = ':' := by
  have hcolon : Char.toLower ':' = ':' := by decide
  rw [hcolon] at h
  unfold Char.toLower at h
  split_ifs at h with hupper
  · have hval := congrArg Char.toNat h
    have hrange := hupper
    simp only [Char.toNat] at hval
    have hlow : (':' : Char).val.toNat=58 := by decide
    rw [hlow] at hval
    have hge : 65≤c.val.toNat := by
      have h65 := UInt32.le_iff_toNat_le.mp hrange.1
      simpa using h65
    have hle : c.val.toNat≤90 := by
      have h90 := UInt32.le_iff_toNat_le.mp hrange.2
      simpa using h90
    have hadd : (c.val+( 'a'.val- 'A'.val)).toNat=c.val.toNat+32 := by
      rw [UInt32.toNat_add]
      have hdiff : (( 'a'.val : UInt32)- 'A'.val).toNat=32 := by decide
      rw [hdiff]
      omega
    omega
  · exact h.symm

theorem likeChar_colon {c : Char} : LikeChar ':' c ↔ c = ':' := by
  constructor
  · intro h
    rcases h with h | h
    · exact absurd h (by decide)
    · exact toLower_eq_colon h
  · intro h
    rw [h]
    exact Or.inr rfl

/-- The pattern of a label scan finds its label between two colons of the text,
read with wildcards and up to the case of letters. -/
theorem likeMatch_label {label text : List Char} (hp : '%'∉label) :
    likeMatch ('%' :: ':'::(label++[':','%'])) text=true ↔
      ∃ before word after,text=before++ ':'::(word++ ':'::after) ∧ List.Forall₂ LikeChar label word := by
  have hcolon : '%'∉[':'] := by decide
  have hpattern : ':'::(label++[':','%'])=[':']++(label++([':']++['%'])) := by simp
  rw [likeMatch_percent,hpattern]
  constructor
  · rintro ⟨rest,⟨before,hbefore⟩,hrest⟩
    have ⟨first,mid,hmid,hfirst,hmatch⟩ := (likeMatch_front hcolon).mp hrest
    have ⟨word,back,hback,hword,hmatch⟩ := (likeMatch_front hp).mp hmatch
    have ⟨last,after,hafter,hlast,_⟩ := (likeMatch_front hcolon).mp hmatch
    have hone : ∀ chars,List.Forall₂ LikeChar [':'] chars → chars=[':'] := by
      intro chars h
      cases h with
      | cons hchar hnil =>
        cases hnil
        rw [likeChar_colon.mp hchar]
    refine ⟨before,word,after,?_,hword⟩
    rw [←hbefore,hmid,hback,hafter,hone first hfirst,hone last hlast]
    simp
  · rintro ⟨before,word,after,htext,hword⟩
    have hself : List.Forall₂ LikeChar [':'] [':'] := List.Forall₂.cons (Or.inr rfl) List.Forall₂.nil
    refine ⟨':'::(word++ ':'::after),⟨before,htext.symm⟩,?_⟩
    refine (likeMatch_front hcolon).mpr ⟨[':'],word++ ':'::after,rfl,hself,?_⟩
    refine (likeMatch_front hp).mpr ⟨word,':'::after,rfl,hword,?_⟩
    exact (likeMatch_front hcolon).mpr ⟨[':'],after,rfl,hself,likeMatch_any after⟩

/-- Some labels next to each other, joined by colons, can be read as the label:
an underscore of it is any character, a letter of it is in either case. -/
def Reads (label : String) (labels : List String) : Prop :=
  ∃ run,run≠[] ∧ run<:+:labels ∧
    List.Forall₂ LikeChar label.toList (String.intercalate ":" run).toList

variable {labels : List String} {label : String}

/-- The label column between colons splits into the labels and two empty ends. -/
theorem splitOn_column (hne : labels≠[]) (hcolon : ∀ l∈labels,':'∉l.toList) :
    (':'::((String.intercalate ":" labels).toList++[':'])).splitOn ':'= []::(labels.map String.toList++[[]]) := by
  have hlists : ∀ chars∈labels.map String.toList,':'∉chars := by
    intro chars h
    have ⟨l,hl,heq⟩ := List.mem_map.mp h
    rw [←heq]
    exact hcolon l hl
  have hjoin : (String.intercalate ":" labels).toList=[':'].intercalate (labels.map String.toList) := by
    rw [String.toList_intercalate]
    rfl
  have hsplit := List.splitOn_intercalate ':' hlists (by simpa using hne)
  have hfront := List.splitOn_append_cons_self (a := ':') []
    ((String.intercalate ":" labels).toList++[':'])
  have hback := List.splitOn_append_cons_self (a := ':') (String.intercalate ":" labels).toList []
  rw [List.nil_append] at hfront
  rw [hfront,hback,hjoin,hsplit,List.splitOn_nil]
  rfl

theorem intercalate_closed {parts : List (List Char)} (hne : parts≠[]) :
    [':'].intercalate parts++[':']=parts.flatMap fun part => part++[':'] := by
  induction parts with
  | nil => exact absurd rfl hne
  | cons first rest ih =>
    cases rest with
    | nil => simp [List.intercalate]
    | cons second rest =>
      have hjoin : [':'].intercalate (first::second::rest)=
          first++(':'::[':'].intercalate (second::rest)) := by simp [List.intercalate]
      have hrest := ih (List.cons_ne_nil second rest)
      rw [hjoin,List.flatMap_cons,←hrest]
      simp

theorem column_closed (hne : labels≠[]) :
    (String.intercalate ":" labels).toList++[':']=labels.flatMap fun l => l.toList++[':'] := by
  have hcolon : (":" : String).toList=[':'] := by decide
  rw [String.toList_intercalate,hcolon,intercalate_closed (by simpa using hne),List.flatMap_map]

theorem ends_with_colon (labels : List String) :
    ∃ before,':'::(labels.flatMap fun l => l.toList++[':'])=before++[':'] := by
  rcases List.eq_nil_or_concat labels with hnil | ⟨front,last,hlast⟩
  · exact ⟨[],by rw [hnil]; rfl⟩
  · exact ⟨':'::((front.flatMap fun l => l.toList++[':'])++last.toList),by rw [hlast]; simp⟩

theorem column_infix {labels run : List String} (hne : run≠[]) (hrun : run<:+:labels) :
    ∃ before after,':'::((String.intercalate ":" labels).toList++[':'])=
      before++ ':'::((String.intercalate ":" run).toList++ ':'::after) := by
  have ⟨front,back,hlabels⟩ := hrun
  have hlabelsNe : labels≠[] := by
    intro hnil
    rw [hnil] at hlabels
    exact hne (List.append_eq_nil_iff.mp (List.append_eq_nil_iff.mp hlabels).1).2
  have ⟨before,hbefore⟩ := ends_with_colon front
  refine ⟨before,back.flatMap fun l => l.toList++[':'],?_⟩
  have hword : (String.intercalate ":" run).toList++ ':'::(back.flatMap fun l => l.toList++[':'])=
      (run.flatMap fun l => l.toList++[':'])++(back.flatMap fun l => l.toList++[':']) := by
    rw [←column_closed hne]
    simp
  have hsplit : ':'::(labels.flatMap fun l => l.toList++[':'])=
      (':'::(front.flatMap fun l => l.toList++[':']))++
        ((run.flatMap fun l => l.toList++[':'])++(back.flatMap fun l => l.toList++[':'])) := by
    rw [←hlabels]
    simp
  rw [column_closed hlabelsNe,hword,hsplit,hbefore]
  simp

/-- A text between two colons of the column is the join of some labels next to
each other. -/
theorem run_of_column (hne : labels≠[]) (hcolon : ∀ l∈labels,':'∉l.toList) {before word after : List Char}
    (htext : ':'::((String.intercalate ":" labels).toList++[':'])=before++ ':'::(word++ ':'::after)) :
    ∃ run,run≠[] ∧ run<:+:labels ∧ (String.intercalate ":" run).toList=word := by
  have hsplit := splitOn_column hne hcolon
  rw [htext,List.splitOn_append_cons_self,List.splitOn_append_cons_self] at hsplit
  have ⟨first,front,hfront⟩ := List.exists_cons_of_ne_nil (List.splitOn_ne_nil ':' before)
  have hafter := List.dropLast_append_getLast (List.splitOn_ne_nil ':' after)
  rw [hfront,←hafter,List.cons_append,←List.append_assoc,←List.append_assoc] at hsplit
  have hlists := (List.append_inj' (List.cons.inj hsplit).2 rfl).1
  have hlabels : labels=(front++word.splitOn ':'++(after.splitOn ':').dropLast).map String.ofList := by
    have hid : String.ofList∘String.toList=id := by
      funext l
      exact String.ofList_toList
    rw [hlists,List.map_map,hid,List.map_id]
  refine ⟨(word.splitOn ':').map String.ofList,?_,?_,?_⟩
  · intro hnil
    exact List.splitOn_ne_nil ':' word (List.map_eq_nil_iff.mp hnil)
  · refine ⟨front.map String.ofList,(after.splitOn ':').dropLast.map String.ofList,?_⟩
    rw [hlabels,List.map_append,List.map_append]
  · have hcolonText : (":" : String).toList=[':'] := by decide
    have hid : String.toList∘String.ofList=id := by
      funext l
      exact String.toList_ofList
    rw [String.toList_intercalate,hcolonText,List.map_map,hid,List.map_id,List.intercalate_splitOn]

theorem forall₂_likeChar_self (chars : List Char) : List.Forall₂ LikeChar chars chars := by
  induction chars with
  | nil => exact List.Forall₂.nil
  | cons c chars ih => exact List.Forall₂.cons (Or.inr rfl) ih

theorem no_marks (h : isValidName label=true) : '%'∉label.toList ∧ ':'∉label.toList :=
  ⟨notMem_of_validName h (by decide),notMem_of_validName h (by decide)⟩

/-- The row filter of the scan accepts exactly the labels that can be read so. -/
theorem labelColumnMatches_iff (hlabel : isValidName label=true) (hlabels : ∀ l∈labels,isValidName l=true) :
    labelColumnMatches label (String.intercalate ":" labels)=true ↔ Reads label labels := by
  have hempty : label≠"" := ne_empty_of_validName hlabel
  have hcolon : ∀ l∈labels,':'∉l.toList := fun l hl => (no_marks (hlabels l hl)).2
  unfold labelColumnMatches
  rw [Bool.or_eq_true,decide_eq_true_iff,likeMatch_label (no_marks hlabel).1]
  constructor
  · intro h
    by_cases hnil : labels=[]
    · rw [hnil] at h
      rcases h with heq | ⟨before,word,after,htext,hword⟩
      · exact absurd heq.symm hempty
      · have hlen := congrArg List.length htext
        have hword0 : word.length=0 := by
          have hjoin : (String.intercalate ":" []).toList=[] := by decide
          rw [hjoin] at hlen
          simp only [List.length_cons,List.length_append,List.length_nil] at hlen
          omega
        rw [List.length_eq_zero_iff.mp hword0] at hword
        have hchars : label.toList=[] := by simpa using hword
        exact absurd (String.toList_inj.mp (hchars.trans rfl)) hempty
    · rcases h with heq | ⟨before,word,after,htext,hword⟩
      · exact ⟨labels,hnil,List.infix_refl labels,heq ▸ forall₂_likeChar_self _⟩
      · have ⟨run,hne,hrun,hjoin⟩ := run_of_column hnil hcolon htext
        exact ⟨run,hne,hrun,hjoin ▸ hword⟩
  · rintro ⟨run,hne,hrun,hreads⟩
    have ⟨before,after,htext⟩ := column_infix hne hrun
    exact Or.inr ⟨before,_,after,htext,hreads⟩

/-- Rows of checked labels, with the labels joined in the label column. -/
def LabelRows (st : Store) : Prop :=
  ∀ id row,get st.nodes id=some row →
    row.label=String.intercalate ":" row.value.labels ∧ ∀ l∈row.value.labels,isValidName l=true

theorem findNodesByLabel_ordered (st : Store) (label : String) :
    ((findNodesByLabel st label).map fun n => n.id).Pairwise (·<·) := by
  unfold findNodesByLabel
  rw [List.map_map]
  exact List.pairwise_map.mpr (st.nodes.ordered.filter _)

/-- The nodes found are the stored nodes whose labels can be read as the label. -/
theorem mem_findNodesByLabel_iff {st : Store} (h : LabelRows st) (hlabel : isValidName label=true) {n : Node} :
    n∈findNodesByLabel st label ↔ ∃ row,get st.nodes n.id=some row ∧
    n=⟨n.id,row.value.labels,row.value.properties⟩ ∧ Reads label row.value.labels := by
  rw [mem_findNodesByLabel hlabel]
  constructor
  · rintro ⟨row,hget,hmatch,hn⟩
    rw [(h n.id row hget).1,labelColumnMatches_iff hlabel (h n.id row hget).2] at hmatch
    exact ⟨row,hget,hn,hmatch⟩
  · rintro ⟨row,hget,hn,hreads⟩
    rw [←labelColumnMatches_iff hlabel (h n.id row hget).2,←(h n.id row hget).1] at hreads
    exact ⟨row,hget,hreads,hn⟩

/-- The scan of a label returns exactly the stored nodes that carry it, in
increasing identifier order. -/
structure ScanExact (st : Store) (label : String) : Prop where
  /-- Identifiers increase strictly. -/
  ordered : ((findNodesByLabel st label).map fun n => n.id).Pairwise (·<·)
  /-- The nodes found are those that carry the label. -/
  carriers : ∀ n,n∈findNodesByLabel st label ↔ ∃ row,get st.nodes n.id=some row ∧
    n=⟨n.id,row.value.labels,row.value.properties⟩ ∧ label∈row.value.labels

/-- The scan of a checked label is exact exactly when every stored node with
labels that can be read as the label carries it. -/
theorem scanExact_iff {st : Store} (h : LabelRows st) {label : String} (hlabel : isValidName label=true) :
    ScanExact st label ↔
      ∀ id row,get st.nodes id=some row → Reads label row.value.labels → label∈row.value.labels := by
  constructor
  · intro hexact id row hget hreads
    have hfound : (⟨id,row.value.labels,row.value.properties⟩ : Node)∈findNodesByLabel st label :=
      (mem_findNodesByLabel_iff h hlabel).mpr ⟨row,hget,rfl,hreads⟩
    have ⟨other,hother,_,hcarries⟩ := (hexact.carriers _).mp hfound
    have hsame : row=other := Option.some.inj (hget.symm.trans hother)
    rw [hsame]
    exact hcarries
  · intro hread
    refine ⟨findNodesByLabel_ordered st label,fun n => ?_⟩
    rw [mem_findNodesByLabel_iff h hlabel]
    constructor
    · rintro ⟨row,hget,hn,hreads⟩
      exact ⟨row,hget,hn,hread n.id row hget hreads⟩
    · rintro ⟨row,hget,hn,hcarries⟩
      have hmatch := labelColumnMatches_of_mem hcarries
      exact ⟨row,hget,hn,(labelColumnMatches_iff hlabel (h n.id row hget).2).mp hmatch⟩

/-- Three nodes, none of them labelled A_B. -/
def lookalikes : Store :=
  {freshStore with nodes := put (put (put OrderedTable.empty 1 ⟨"AxB",⟨["AxB"],[]⟩⟩)
    2 ⟨"A:B",⟨["A","B"],[]⟩⟩) 3 ⟨"a_b",⟨["a_b"],[]⟩⟩}

theorem labelRows_lookalikes : LabelRows lookalikes := by
  intro id row hget
  have hrow : row∈lookalikes.nodes.rows.map Prod.snd :=
    List.mem_map.mpr ⟨(id,row),get_eq_some.mp hget,rfl⟩
  have hall : ∀ other∈lookalikes.nodes.rows.map Prod.snd,
      other.label=String.intercalate ":" other.value.labels ∧
        ∀ l∈other.value.labels,isValidName l=true := by
    decide
  exact hall row hrow

/-- A scan for A_B finds a node labelled AxB, one with the labels A and B, and
one labelled a_b, though none of them carries the label. -/
theorem scanExact_fails :
    LabelRows lookalikes ∧ isValidName "A_B"=true ∧
    ((findNodesByLabel lookalikes "A_B").map fun n => n.labels)=[["AxB"],["A","B"],["a_b"]] ∧
    ¬ScanExact lookalikes "A_B" := by
  have hfound : (findNodesByLabel lookalikes "A_B").map (fun n => n.labels)=[["AxB"],["A","B"],["a_b"]] := by
    decide
  refine ⟨labelRows_lookalikes,by decide,hfound,fun h => ?_⟩
  have hlabels : ["AxB"]∈(findNodesByLabel lookalikes "A_B").map fun n => n.labels := by
    rw [hfound]
    exact List.mem_cons_self
  have ⟨n,hn,heq⟩ := List.mem_map.mp hlabels
  have ⟨row,_,hnode,hcarries⟩ := (h.carriers n).mp hn
  have hsame : row.value.labels=["AxB"] := by
    rw [←heq,hnode]
  rw [hsame] at hcarries
  exact absurd hcarries (by decide)

/-- For AxB the scan of the same store is exact when nothing else reads so. -/
theorem scanExact_iff_lookalikes : LabelRows lookalikes ∧ isValidName "AxB"=true ∧
    (ScanExact lookalikes "AxB" ↔ ∀ id row,get lookalikes.nodes id=some row →
      Reads "AxB" row.value.labels → "AxB"∈row.value.labels) :=
  ⟨labelRows_lookalikes,by decide,scanExact_iff labelRows_lookalikes (by decide)⟩

end GraphDbLite.LabelScan
