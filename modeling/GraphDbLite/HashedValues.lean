import GraphDbLite.RowIdentity

/-!
# Values as keys of a hash table

A value feeds a sequence of words to a hasher. Equal values feed the same words, since the entries
of a map are fed in the order of their names. Groups found by hash and equality are thus the groups
found by equality, whatever the hasher does with the words.
-/

namespace GraphDbLite.HashedValues

open GraphTypes GraphStore CypherSyntax CypherValues QueryExecutor Aggregation ValueEquality
open Grouping ValueIdentity RowIdentity

/-- A write to a hasher. -/
inductive HashWord where
  | discriminant (n : Nat)
  | length (n : Nat)
  | u8 (n : Nat)
  | i32 (n : Int)
  | i64 (n : Int)
  | u64 (n : UInt64)
  | text (text : String)

/-- Words of the calendar library for dates and times of day. -/
structure ChronoWords where
  /-- Words of a date. -/
  date : Int → List HashWord
  /-- Words of a time of day. -/
  time : Nat → List HashWord
  /-- Words of a date with a time of day. -/
  dateTime : Int → Nat → List HashWord

/-- Words of named parts in the order of their names. -/
def sortedWords (entries : List (String×List HashWord)) : List HashWord :=
  (entries.mergeSort fun a b => decide (a.1≤b.1)).flatMap fun entry => .text entry.1::entry.2

section Groups

variable {κ ρ : Type} {admitted : κ → Prop} {same test : κ → κ → Bool} {key : ρ → κ}

theorem groupRows_congr (h : ∀ a b,admitted a → admitted b → same a b=test a b) {rows : List ρ}
    (hrows : ∀ row∈rows,admitted (key row)) : groupRows same key rows=groupRows test key rows := by
  have hinsert : ∀ (k : κ) (row : ρ) (groups : List (κ×List ρ)),admitted k → (∀ group∈groups,admitted group.1) →
      insertGroup same k row groups=insertGroup test k row groups ∧
        ∀ group∈insertGroup test k row groups,admitted group.1 := by
    intro k row groups hk hgroups
    induction groups with
    | nil => exact ⟨rfl,fun group hgroup => (List.mem_singleton.mp hgroup)▸hk⟩
    | cons group rest ih =>
      rw [List.forall_mem_cons] at hgroups
      obtain ⟨heq,hkeys⟩ := ih hgroups.2
      rw [insertGroup,insertGroup,h _ _ hgroups.1 hk]
      split_ifs
      · exact ⟨rfl,List.forall_mem_cons.mpr hgroups⟩
      · exact ⟨congrArg (group::·) heq,List.forall_mem_cons.mpr ⟨hgroups.1,hkeys⟩⟩
  have hloop : ∀ (rest : List ρ) (groups : List (κ×List ρ)),(∀ row∈rest,admitted (key row)) →
      (∀ group∈groups,admitted group.1) →
      rest.foldl (fun groups row => insertGroup same (key row) row groups) groups=
        rest.foldl (fun groups row => insertGroup test (key row) row groups) groups := by
    intro rest
    induction rest with
    | nil => exact fun _ _ _ => rfl
    | cons row rest ih =>
      intro groups hrest hgroups
      rw [List.forall_mem_cons] at hrest
      obtain ⟨heq,hkeys⟩ := hinsert (key row) row groups hrest.1 hgroups
      rw [List.foldl_cons,List.foldl_cons,heq]
      exact ih _ hrest.2 hkeys
  exact hloop rows [] hrows fun _ hnone => absurd hnone List.not_mem_nil

end Groups

section Words

variable (chrono : ChronoWords)

mutual

/-- Words of a value: its kind and its contents. -/
def hashWords : Value → List HashWord
  | .null => [.discriminant 0]
  | .bool b => [.discriminant 1,.u8 b.toNat]
  | .i64 n => [.discriminant 2,.i64 n.toInt]
  | .f64 bits => [.discriminant 3,.u64 bits]
  | .string text => [.discriminant 4,.text text]
  | .list items => .discriminant 5::.length items.length::hashItems items
  | .node n => .discriminant 6::hashNode n
  | .edge e => .discriminant 7::hashEdge e
  | .path p => .discriminant 8::hashPath p
  | .map entries => .discriminant 9::sortedWords (hashEntries entries)
  | .date days => .discriminant 10::chrono.date days
  | .localTime nanos => .discriminant 11::chrono.time nanos
  | .time nanos offset => .discriminant 12::chrono.time nanos++[.i32 offset]
  | .localDateTime days nanos => .discriminant 13::chrono.dateTime days nanos
  | .dateTime days nanos offset zone => .discriminant 14::chrono.dateTime days nanos++.i32 offset::
    match zone with
    | none => [.discriminant 0]
    | some name => [.discriminant 1,.text name]
  | .duration months days seconds nanos => [.discriminant 15,.i64 months,.i64 days,.i64 seconds,.i64 nanos]
termination_by structural value => value

/-- Words of a node. -/
def hashNode : NodeOf Value → List HashWord
  | ⟨id,labels,properties⟩ =>
    .u64 id::.length labels.length::labels.map .text++.length properties.length::sortedWords (hashEntries properties)
termination_by structural n => n

/-- Words of a relationship. -/
def hashEdge : EdgeOf Value → List HashWord
  | ⟨src,dst,label,properties⟩ =>
    [.u64 src,.u64 dst,.text label]++.length properties.length::sortedWords (hashEntries properties)
termination_by structural e => e

/-- Words of a path. -/
def hashPath : PathOf Value → List HashWord
  | ⟨nodes,edges⟩ => .length nodes.length::hashNodes nodes++.length edges.length::hashEdges edges
termination_by structural p => p

/-- Words of the items of a list. -/
def hashItems : List Value → List HashWord
  | [] => []
  | item::rest => hashWords item++hashItems rest
termination_by structural items => items

/-- Names of a map with the words of their values. -/
def hashEntries : List (String×Value) → List (String×List HashWord)
  | [] => []
  | entry::rest => hashEntry entry::hashEntries rest
termination_by structural entries => entries

/-- A name with the words of its value. -/
def hashEntry : String×Value → String×List HashWord
  | (key,value) => (key,hashWords value)
termination_by structural entry => entry

/-- Words of the nodes of a path. -/
def hashNodes : List (NodeOf Value) → List HashWord
  | [] => []
  | n::rest => hashNode n++hashNodes rest
termination_by structural nodes => nodes

/-- Words of the relationships of a path. -/
def hashEdges : List (EdgeOf Value) → List HashWord
  | [] => []
  | e::rest => hashEdge e++hashEdges rest
termination_by structural edges => edges

end

/-- Words of a property map. -/
def hashProperties (properties : Properties) : List HashWord :=
  .length properties.length::sortedWords (hashEntries chrono properties)

/-- Words of a group key. -/
def hashKey (vals : List Value) : List HashWord := .length vals.length::hashItems chrono vals

/-- Whether a hash table finds a key under another one: by its hash and then by equality. -/
def sameKey (hasher : List HashWord → UInt64) (a b : List Value) : Bool :=
  hasher (hashKey chrono a)=hasher (hashKey chrono b) && listEq a b

/-- Groups of an aggregation in a hash table. -/
def hashedGroups {S : Type} (hasher : List HashWord → UInt64) (env : AggregateEnv S) (st : Store)
    (groupKeys : List (Expr S)) (records : Rows) : Groups :=
  groupRows (sameKey chrono hasher) (keyValues env st groupKeys) records

variable {chrono}

theorem sortedWords_perm {p q : List (String×List HashWord)} (hnodup : (p.map Prod.fst).Nodup) (h : p.Perm q) :
    sortedWords p=sortedWords q := by
  have htrans : ∀ a b c : String×List HashWord,decide (a.1≤b.1)=true → decide (b.1≤c.1)=true →
      decide (a.1≤c.1)=true := fun a b c hab hbc =>
    decide_eq_true ((of_decide_eq_true hab).trans (of_decide_eq_true hbc))
  have htotal : ∀ a b : String×List HashWord,(decide (a.1≤b.1) || decide (b.1≤a.1))=true := fun a b => by
    rw [Bool.or_eq_true,decide_eq_true_eq,decide_eq_true_eq]
    exact le_total a.1 b.1
  have hsame : ∀ a∈p,∀ b∈p,a.1=b.1 → a=b := fun a ha b hb => List.inj_on_of_nodup_map hnodup ha hb
  have hp := List.mergeSort_perm p fun a b => decide (a.1≤b.1)
  have hq := List.mergeSort_perm q fun a b => decide (a.1≤b.1)
  have hsorted := List.Perm.eq_of_pairwise (fun a b ha hb hab hba => hsame a (hp.mem_iff.mp ha) b
      (h.mem_iff.mpr (hq.mem_iff.mp hb)) (le_antisymm (of_decide_eq_true hab) (of_decide_eq_true hba)))
    (List.pairwise_mergeSort htrans htotal p) (List.pairwise_mergeSort htrans htotal q) (hp.trans (h.trans hq.symm))
  rw [sortedWords,sortedWords,hsorted]

theorem hashEntries_eq (entries : Properties) :
    hashEntries chrono entries=entries.map fun entry => (entry.1,hashWords chrono entry.2) := by
  induction entries with
  | nil => rfl
  | cons entry rest ih => rw [hashEntries,ih,List.map_cons,hashEntry]

theorem sortedWords_related {p q : Properties} (hp : finiteEntries p=true)
    (h : MapsRelated (fun a b => hashWords chrono a=hashWords chrono b) p q) :
    sortedWords (hashEntries chrono p)=sortedWords (hashEntries chrono q) := by
  have hkeys := nodup_of_finiteEntries hp
  have hnames : ((hashEntries chrono p).map Prod.fst).Nodup := by
    rw [hashEntries_eq,List.map_map]
    exact hkeys
  have hsub : hashEntries chrono p⊆hashEntries chrono q := by
    rw [hashEntries_eq,hashEntries_eq]
    intro part hpart
    obtain ⟨entry,hentry,heq⟩ := List.mem_map.mp hpart
    obtain ⟨other,hread,hwords⟩ := h.2 entry hentry
    rw [←heq,hwords]
    exact List.mem_map_of_mem (mem_of_getProp hread)
  have hlen : (hashEntries chrono q).length≤(hashEntries chrono p).length := by
    rw [hashEntries_eq,hashEntries_eq,List.length_map,List.length_map,h.1]
  exact sortedWords_perm hnames ((hnames.of_map.subperm hsub).perm_of_length_le hlen)

theorem flatMap_parts {α β γ δ : Type} {f : α → β} {g : α → γ} {k : α → List δ}
    (hk : ∀ a b,f a=f b → g a=g b → k a=k b) {l m : List α} (hf : l.map f=m.map f) (hg : l.map g=m.map g) :
    l.flatMap k=m.flatMap k := by
  induction l generalizing m with
  | nil => rw [List.map_eq_nil_iff.mp hf.symm]
  | cons a rest ih =>
    cases m with
    | nil => cases hf
    | cons b more =>
      rw [List.map_cons,List.map_cons,List.cons.injEq] at hf hg
      rw [List.flatMap_cons,List.flatMap_cons,hk a b hf.1 hg.1,ih hf.2 hg.2]

theorem hashNode_eq {n m : NodeOf Value} (hbare : bareNode n=bareNode m)
    (h : hashProperties chrono n.properties=hashProperties chrono m.properties) : hashNode chrono n=hashNode chrono m := by
  obtain ⟨id,labels,p⟩ := n
  obtain ⟨id',labels',q⟩ := m
  obtain ⟨hid,hlabels,-⟩ := NodeOf.mk.inj hbare
  dsimp only at hid hlabels h
  rw [hid,hlabels]
  exact congrArg (HashWord.u64 id'::.length labels'.length::labels'.map .text++·) h

/-- Words of relationships of one skeleton whose properties feed the same words. -/
theorem hashEdge_eq {e f : EdgeOf Value} (hbare : bareEdge e=bareEdge f)
    (h : hashProperties chrono e.properties=hashProperties chrono f.properties) : hashEdge chrono e=hashEdge chrono f := by
  obtain ⟨src,dst,label,p⟩ := e
  obtain ⟨src',dst',label',q⟩ := f
  obtain ⟨hsrc,hdst,hlabel,-⟩ := EdgeOf.mk.inj hbare
  dsimp only at hsrc hdst hlabel h
  rw [hsrc,hdst,hlabel]
  exact congrArg ([HashWord.u64 src',.u64 dst',.text label']++·) h

theorem hashNodes_eq (nodes : List (NodeOf Value)) : hashNodes chrono nodes=nodes.flatMap (hashNode chrono) := by
  induction nodes with
  | nil => rfl
  | cons n rest ih => rw [hashNodes,ih,List.flatMap_cons]

theorem hashEdges_eq (edges : List (EdgeOf Value)) : hashEdges chrono edges=edges.flatMap (hashEdge chrono) := by
  induction edges with
  | nil => rfl
  | cons e rest ih => rw [hashEdges,ih,List.flatMap_cons]

theorem hashKey_related {vals more : List Value}
    (h : List.Forall₂ (fun a b => hashWords chrono a=hashWords chrono b) vals more) :
    hashKey chrono vals=hashKey chrono more := by
  have hwords : hashItems chrono vals=hashItems chrono more := by
    induction h with
    | nil => rfl
    | cons hhead _ ih => rw [hashItems,hashItems,hhead,ih]
  rw [hashKey,hashKey,hwords,h.length_eq]

theorem hashWords_eq (a b : Value) (ha : finiteMaps a=true) (hb : finiteMaps b=true) (h : valueEq a b=true) :
    hashWords chrono a=hashWords chrono b := by
  induction a using value_induct generalizing b with
  | h a hitems hmaps =>
    obtain ⟨hfinite,hentries⟩ := finite_inside ha
    obtain ⟨hfinite',hentries'⟩ := finite_inside hb
    have hshaped := valueEq_iff.mp h
    have hproperties : (heldMaps a).map (hashProperties chrono)=(heldMaps b).map (hashProperties chrono) := by
      rw [←List.forall₂_eq_eq_eq,List.forall₂_map_left_iff,List.forall₂_map_right_iff]
      refine forall₂_of_mem hshaped.maps fun p hp q hq hpq => ?_
      have hrelated : MapsRelated (fun x y => hashWords chrono x=hashWords chrono y) p q := by
        refine ⟨hpq.1,fun entry hentry => ?_⟩
        obtain ⟨other,hread,hequal⟩ := hpq.2 entry hentry
        exact ⟨other,hread,hmaps p hp entry hentry other (finiteMaps_of_mem (hentries p hp) hentry)
          (finiteMaps_of_mem (hentries' q hq) (mem_of_getProp hread)) hequal⟩
      rw [hashProperties,hashProperties,hpq.1,sortedWords_related (hentries p hp) hrelated]
    cases a with
    | list items =>
      cases b with
      | list more =>
        exact congrArg (HashWord.discriminant 5::·) (hashKey_related (forall₂_of_mem hshaped.items fun x hx y hy =>
          hitems x hx y (hfinite x hx) (hfinite' y hy)))
      | _ => cases h
    | node n =>
      cases b with
      | node m =>
        exact congrArg (HashWord.discriminant 6::·) (hashNode_eq (Value.node.inj hshaped.skeletons)
          (List.cons.inj hproperties).1)
      | _ => cases h
    | edge e =>
      cases b with
      | edge f =>
        exact congrArg (HashWord.discriminant 7::·) (hashEdge_eq (Value.edge.inj hshaped.skeletons)
          (List.cons.inj hproperties).1)
      | _ => cases h
    | path p =>
      cases b with
      | path q =>
        obtain ⟨ns,es⟩ := p
        obtain ⟨ms,fs⟩ := q
        obtain ⟨hnodes,hedges⟩ := PathOf.mk.inj (Value.path.inj hshaped.skeletons)
        have hlen := congrArg List.length hnodes
        have hlen' := congrArg List.length hedges
        simp only [List.length_map] at hlen hlen'
        simp only [heldMaps,List.map_append] at hproperties
        obtain ⟨hmapsNode,hmapsEdge⟩ := List.append_inj hproperties (by simp only [List.length_map,hlen])
        rw [List.map_map,List.map_map] at hmapsNode hmapsEdge
        rw [hashWords,hashWords,hashPath,hashPath,hashNodes_eq,hashNodes_eq,hashEdges_eq,hashEdges_eq,
          flatMap_parts (fun _ _ => hashNode_eq) hnodes hmapsNode,flatMap_parts (fun _ _ => hashEdge_eq) hedges hmapsEdge,
          hlen,hlen']
      | _ => cases h
    | map entries =>
      cases b with
      | map more =>
        have hsame := (List.cons.inj (List.cons.inj hproperties).1).2
        rw [hashWords,hashWords,hsame]
      | _ => cases h
    | _ =>
      cases b with
      | _ => first | exact congrArg (hashWords chrono) hshaped.skeletons | cases h

theorem sameKey_eq (hasher : List HashWord → UInt64) {a b : List Value} (ha : finiteItems a=true)
    (hb : finiteItems b=true) : sameKey chrono hasher a b=listEq a b := by
  rw [sameKey]
  cases h : listEq a b with
  | false => rw [Bool.and_false]
  | true =>
    have hwords : hashKey chrono a=hashKey chrono b :=
      (List.cons.inj (hashWords_eq (.list a) (.list b) ha hb h)).2
    rw [hwords,decide_eq_true rfl]
    rfl

/-- The library equality as the key of a hash table: an equivalence whose equal values feed the same words,
whatever the order of properties, so that a hash table groups rows by equality. -/
structure LawfulKey (chrono : ChronoWords) : Prop where
  /-- The equality is an equivalence. -/
  equivalence : EquivalenceOn (fun value => finiteMaps value=true) valueEq
  /-- Equal values feed the same words. -/
  words : ∀ a b : Value,finiteMaps a=true → finiteMaps b=true → valueEq a b=true →
    hashWords chrono a=hashWords chrono b
  /-- The order of properties does not count. -/
  order : ∀ p q : Properties,finiteEntries p=true → p.Perm q → hashProperties chrono p=hashProperties chrono q
  /-- Rows share a group of a hash table exactly when their keys are equal, as they do among the groups in order. -/
  groups : ∀ (S : Type) (hasher : List HashWord → UInt64) (env : AggregateEnv S) (st : Store)
    (groupKeys : List (Expr S)) (records : Rows),groupKeys.isEmpty=false →
    (∀ rec∈records,finiteItems (keyValues env st groupKeys rec)=true) →
    hashedGroups chrono hasher env st groupKeys records=groupsOf env st groupKeys records ∧
    ∀ x∈records,∀ y∈records,SameGroup (hashedGroups chrono hasher env st groupKeys records) x y ↔
      listEq (keyValues env st groupKeys x) (keyValues env st groupKeys y)=true

/-- Every value is a lawful key. -/
theorem lawfulKey (chrono : ChronoWords) : LawfulKey chrono := by
  refine ⟨equivalence_valueEq,hashWords_eq,fun p q hp hperm => ?_,
    fun S hasher env st groupKeys records hkeys hfinite => ?_⟩
  · have hnames : ((hashEntries chrono p).map Prod.fst).Nodup := by
      rw [hashEntries_eq,List.map_map]
      exact nodup_of_finiteEntries hp
    have hentries : (hashEntries chrono p).Perm (hashEntries chrono q) := by
      rw [hashEntries_eq,hashEntries_eq]
      exact hperm.map _
    rw [hashProperties,hashProperties,hperm.length_eq,sortedWords_perm hnames hentries]
  · have heq : hashedGroups chrono hasher env st groupKeys records=groupsOf env st groupKeys records := by
      have hsame : ∀ a b : List Value,finiteItems a=true → finiteItems b=true →
          sameKey chrono hasher a b=listEq a b := fun a b => sameKey_eq hasher
      rw [groupsOf_eq hkeys,hashedGroups]
      exact groupRows_congr hsame hfinite
    refine ⟨heq,fun x hx y hy => ?_⟩
    rw [heq,groupsOf_eq hkeys]
    exact sameGroup_iff equivalence_listEq hfinite hx hy

end Words

end GraphDbLite.HashedValues
