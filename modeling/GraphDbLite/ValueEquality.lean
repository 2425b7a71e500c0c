import Mathlib.Data.List.Forall2
import Mathlib.Data.List.Perm.Subperm
import GraphDbLite.CypherValues

/-!
# The two equalities of values agree where the query equality knows itself

A finite map has one value for a name. On values built from finite maps the library
equality is reflexive, and it implies the query equality as soon as the right side equals
itself for the query equality, which NaN and lists with null do not.
-/

namespace GraphDbLite.ValueEquality

open GraphTypes CypherValues

mutual

/-- Whether every map in a value has one value for each of its names. -/
def finiteMaps : Value → Bool
  | .list items => finiteItems items
  | .node n => finiteNode n
  | .edge e => finiteEdge e
  | .path p => finitePath p
  | .map entries => finiteEntries entries
  | _ => true
termination_by structural value => value

def finiteNode : NodeOf Value → Bool
  | ⟨_,_,properties⟩ => finiteEntries properties
termination_by structural n => n

def finiteEdge : EdgeOf Value → Bool
  | ⟨_,_,_,properties⟩ => finiteEntries properties
termination_by structural e => e

def finitePath : PathOf Value → Bool
  | ⟨nodes,edges⟩ => finiteNodes nodes && finiteEdges edges
termination_by structural p => p

def finiteItems : List Value → Bool
  | [] => true
  | item::rest => finiteMaps item && finiteItems rest
termination_by structural items => items

/-- Whether a map has one value for each name, and so have the maps in its values. -/
def finiteEntries : List (String×Value) → Bool
  | [] => true
  | entry::rest => finiteEntry entry && ((getProp rest entry.1).isNone && finiteEntries rest)
termination_by structural entries => entries

def finiteEntry : String×Value → Bool
  | (_,value) => finiteMaps value
termination_by structural entry => entry

def finiteNodes : List (NodeOf Value) → Bool
  | [] => true
  | n::rest => finiteNode n && finiteNodes rest
termination_by structural nodes => nodes

def finiteEdges : List (EdgeOf Value) → Bool
  | [] => true
  | e::rest => finiteEdge e && finiteEdges rest
termination_by structural edges => edges

end

variable {props : Properties} {key : String}

theorem mem_of_getProp {value : Value} (h : getProp props key=some value) : (key,value)∈props := by
  have ⟨entry,hfind,hvalue⟩ := Option.map_eq_some_iff.mp h
  have hkey : entry.1=key := by simpa using List.find?_some hfind
  have hentry : entry=(key,value) := Prod.ext hkey hvalue
  rw [←hentry]
  exact List.mem_of_find?_eq_some hfind

theorem not_mem_of_getProp_none (h : getProp props key=none) (value : Value) : (key,value)∉props := by
  intro hmem
  have hfind := List.find?_eq_none.mp (Option.map_eq_none_iff.mp h) _ hmem
  simp at hfind

theorem getProp_of_nodup (h : (props.map Prod.fst).Nodup) {value : Value} (hmem : (key,value)∈props) :
    getProp props key=some value := by
  induction props with
  | nil => exact absurd hmem List.not_mem_nil
  | cons entry rest ih =>
    have ⟨hfresh,hrest⟩ := List.nodup_cons.mp h
    rw [getProp_cons]
    rcases List.mem_cons.mp hmem with hhead|htail
    · rw [←hhead,if_pos rfl]
    · have hin : key∈rest.map Prod.fst := List.mem_map_of_mem htail
      rw [if_neg fun heq : entry.1=key => hfresh (heq ▸ hin)]
      exact ih hrest htail

theorem nodup_of_finiteEntries (h : finiteEntries props=true) : (props.map Prod.fst).Nodup := by
  induction props with
  | nil => exact List.nodup_nil
  | cons entry rest ih =>
    rw [finiteEntries] at h
    obtain ⟨-,hnone,hrest⟩ := by simpa only [Bool.and_eq_true] using h
    rw [List.map_cons,List.nodup_cons]
    refine ⟨fun hmem => ?_,ih hrest⟩
    obtain ⟨other,hother,hkey⟩ := List.mem_map.mp hmem
    have hin : (entry.1,other.2)∈rest := by rwa [←hkey]
    exact not_mem_of_getProp_none (Option.isNone_iff_eq_none.mp hnone) _ hin

theorem getProp_of_mem (h : finiteEntries props=true) {value : Value} (hmem : (key,value)∈props) :
    getProp props key=some value := getProp_of_nodup (nodup_of_finiteEntries h) hmem

theorem finiteMaps_of_mem {entries : List (String×Value)} (h : finiteEntries entries=true)
    {entry : String×Value} (hentry : entry∈entries) : finiteMaps entry.2=true := by
  induction entries with
  | nil => exact absurd hentry List.not_mem_nil
  | cons head rest ih =>
    rw [finiteEntries] at h
    obtain ⟨hhead,-,hrest⟩ := by simpa only [Bool.and_eq_true] using h
    rcases List.mem_cons.mp hentry with hsame|htail
    · rw [hsame]
      obtain ⟨key,value⟩ := head
      simpa only [finiteEntry] using hhead
    · exact ih hrest htail

section Shapes

/-- A node without its properties. -/
def bareNode (n : NodeOf Value) : NodeOf Value := ⟨n.id,n.labels,[]⟩

/-- A relationship without its properties. -/
def bareEdge (e : EdgeOf Value) : EdgeOf Value := ⟨e.src,e.dst,e.label,[]⟩

/-- A value without the values it is built from. -/
def skeleton : Value → Value
  | .list _ => .list []
  | .node n => .node (bareNode n)
  | .edge e => .edge (bareEdge e)
  | .path p => .path ⟨p.nodes.map bareNode,p.edges.map bareEdge⟩
  | .map _ => .map []
  | value => value

/-- Items of a value. -/
def heldItems : Value → List Value
  | .list items => items
  | _ => []

/-- Maps of a value. -/
def heldMaps : Value → List Properties
  | .node n => [n.properties]
  | .edge e => [e.properties]
  | .path p => (p.nodes.map fun n => n.properties)++p.edges.map fun e => e.properties
  | .map entries => [entries]
  | _ => []

/-- Maps of one size whose entries have related values in the other one. -/
def MapsRelated (R : Value → Value → Prop) (p q : Properties) : Prop :=
  p.length=q.length ∧ ∀ entry∈p,∃ other,getProp q entry.1=some other ∧ R entry.2 other

/-- Values of one skeleton that are built from related values. -/
structure Shaped (R : Value → Value → Prop) (a b : Value) : Prop where
  /-- What is left without the values inside. -/
  skeletons : skeleton a=skeleton b
  /-- Items in order. -/
  items : List.Forall₂ R (heldItems a) (heldItems b)
  /-- Maps in order. -/
  maps : List.Forall₂ (MapsRelated R) (heldMaps a) (heldMaps b)

/-- The library equality as a relation. -/
abbrev Same (a b : Value) : Prop := valueEq a b=true

variable {α : Type} {R S : α → α → Prop} {l m : List α} {a b value : Value}

theorem forall₂_of_mem (h : List.Forall₂ R l m) (himp : ∀ x∈l,∀ y∈m,R x y → S x y) : List.Forall₂ S l m := by
  induction h with
  | nil => exact List.Forall₂.nil
  | cons hhead _ ih =>
    refine List.Forall₂.cons (himp _ List.mem_cons_self _ List.mem_cons_self hhead) (ih fun x hx y hy => ?_)
    exact himp x (List.mem_cons_of_mem _ hx) y (List.mem_cons_of_mem _ hy)

theorem forall₂_of_fold {β γ : Type} {R : γ → γ → Prop} (same : α → α → Bool) (all : List α → List α → Bool)
    {f : α → β} {g : α → γ} (h : ∀ x y,same x y=true ↔ f x=f y ∧ R (g x) (g y))
    (hnil : all [] []=true) (hleft : ∀ x xs,all (x::xs) []=false) (hright : ∀ y ys,all [] (y::ys)=false)
    (hcons : ∀ x xs y ys,all (x::xs) (y::ys)=(same x y && all xs ys)) (l m : List α) :
    all l m=true ↔ l.map f=m.map f ∧ List.Forall₂ R (l.map g) (m.map g) := by
  induction l generalizing m with
  | nil =>
    cases m with
    | nil => simp [hnil]
    | cons y ys => simp [hright]
  | cons x xs ih =>
    cases m with
    | nil => simp [hleft]
    | cons y ys =>
      rw [hcons,Bool.and_eq_true,ih,h]
      simp only [List.map_cons,List.cons.injEq,List.forall₂_cons]
      tauto

theorem forall₂_append_iff {l' m' : List α} (h : l.length=m.length) :
    List.Forall₂ R (l++l') (m++m') ↔ List.Forall₂ R l m ∧ List.Forall₂ R l' m' := by
  induction l generalizing m with
  | nil =>
    cases m with
    | nil => simp
    | cons y ys => cases h
  | cons x xs ih =>
    cases m with
    | nil => cases h
    | cons y ys => simp [ih (Nat.succ.inj h),and_assoc]

theorem entryWithin_iff {b : Properties} {value : Value} :
    entryWithin (key,value) b=true ↔ ∃ other,getProp b key=some other ∧ valueEq value other=true := by
  rw [entryWithin]
  cases hread : getProp b key with
  | none | some other => simp

theorem mapEq_iff {p q : Properties} :
    (p.length=q.length ∧ entriesWithin p q=true) ↔ MapsRelated Same p q := by
  refine and_congr_right fun hlen => ?_
  clear hlen
  induction p with
  | nil => simp [entriesWithin]
  | cons entry rest ih => rw [entriesWithin,Bool.and_eq_true,ih,List.forall_mem_cons,←entryWithin_iff]

theorem nodeEq_iff (n m : NodeOf Value) :
    nodeEq n m=true ↔ bareNode n=bareNode m ∧ MapsRelated Same n.properties m.properties := by
  obtain ⟨i,l,p⟩ := n
  obtain ⟨j,k,q⟩ := m
  simp [nodeEq,bareNode,←mapEq_iff,and_assoc]

theorem edgeEq_iff (e f : EdgeOf Value) :
    edgeEq e f=true ↔ bareEdge e=bareEdge f ∧ MapsRelated Same e.properties f.properties := by
  obtain ⟨s,d,l,p⟩ := e
  obtain ⟨t,c,k,q⟩ := f
  simp [edgeEq,bareEdge,←mapEq_iff,and_assoc]

theorem valueEq_iff : valueEq a b=true ↔ Shaped Same a b := by
  have hshaped : Shaped Same a b ↔ skeleton a=skeleton b ∧ List.Forall₂ Same (heldItems a) (heldItems b) ∧
      List.Forall₂ (MapsRelated Same) (heldMaps a) (heldMaps b) :=
    ⟨fun h => ⟨h.1,h.2,h.3⟩,fun h => ⟨h.1,h.2.1,h.2.2⟩⟩
  have hitems := forall₂_of_fold valueEq listEq (f := fun _ => ()) (g := id) (R := Same) (fun _ _ => by simp) rfl
    (fun _ _ => rfl) (fun _ _ => rfl) fun _ _ _ _ => rfl
  rw [hshaped]
  cases a with
  | list items =>
    cases b with
    | list more => 
      rw [valueEq,hitems]
      simp [skeleton,heldItems,heldMaps]
      exact fun h => h.length_eq
    | _ => simp [valueEq,skeleton]
  | path p =>
    cases b with
    | path q =>
      obtain ⟨ns,es⟩ := p
      obtain ⟨ms,fs⟩ := q
      have hnodes := forall₂_of_fold nodeEq nodesEq nodeEq_iff rfl (fun _ _ => rfl) (fun _ _ => rfl)
        (fun _ _ _ _ => rfl) ns ms
      have hedges := forall₂_of_fold edgeEq edgesEq edgeEq_iff rfl (fun _ _ => rfl) (fun _ _ => rfl)
        (fun _ _ _ _ => rfl) es fs
      rw [valueEq,pathEq,Bool.and_eq_true,hnodes,hedges]
      simp only [skeleton,heldItems,heldMaps,Value.path.injEq,PathOf.mk.injEq]
      constructor
      · rintro ⟨⟨hns,hp⟩,hes,hq⟩
        exact ⟨⟨hns,hes⟩,List.Forall₂.nil,(forall₂_append_iff hp.length_eq).mpr ⟨hp,hq⟩⟩
      · rintro ⟨⟨hns,hes⟩,-,hmaps⟩
        have hlen := congrArg List.length hns
        rw [List.length_map,List.length_map] at hlen
        have hparts := (forall₂_append_iff (by rw [List.length_map,List.length_map,hlen])).mp hmaps
        exact ⟨⟨hns,hparts.1⟩,hes,hparts.2⟩
    | _ => simp [valueEq,skeleton]
  | _ =>
    cases b with
    | _ => simp [valueEq,skeleton,heldItems,heldMaps,nodeEq_iff,edgeEq_iff,mapEq_iff,and_assoc]

theorem sizeOf_entry {entries : Properties} {entry : String×Value} (h : entry∈entries) :
    sizeOf entry.2< sizeOf entries := by
  have hlt := List.sizeOf_lt_of_mem h
  obtain ⟨key,value⟩ := entry
  rw [Prod.mk.sizeOf_spec] at hlt
  dsimp only
  omega

theorem sizeOf_map {entries : Properties} (h : entries∈heldMaps value) : sizeOf entries< sizeOf value := by
  cases value with
  | node n =>
    rw [List.mem_singleton.mp h,Value.node.sizeOf_spec,NodeOf.mk.sizeOf_spec]
    omega
  | edge e =>
    rw [List.mem_singleton.mp h,Value.edge.sizeOf_spec,EdgeOf.mk.sizeOf_spec]
    omega
  | map entries =>
    rw [List.mem_singleton.mp h,Value.map.sizeOf_spec]
    omega
  | path p =>
    rw [Value.path.sizeOf_spec,PathOf.mk.sizeOf_spec]
    rcases List.mem_append.mp h with hnode|hedge
    · obtain ⟨n,hn,heq⟩ := List.mem_map.mp hnode
      have hlt := List.sizeOf_lt_of_mem hn
      rw [NodeOf.mk.sizeOf_spec] at hlt
      rw [←heq]
      omega
    · obtain ⟨e,he,heq⟩ := List.mem_map.mp hedge
      have hlt := List.sizeOf_lt_of_mem he
      rw [EdgeOf.mk.sizeOf_spec] at hlt
      rw [←heq]
      omega
  | _ => cases h

theorem value_induct {P : Value → Prop} (h : ∀ value,(∀ item∈heldItems value,P item) →
    (∀ entries∈heldMaps value,∀ entry∈entries,P entry.2) → P value) (value : Value) : P value := by
  refine h value (fun item hitem => ?_) (fun entries hentries entry hentry => ?_)
  · exact value_induct h item
  · exact value_induct h entry.2
termination_by sizeOf value
decreasing_by
  · cases value with
    | list items =>
      have hlt : sizeOf item< sizeOf items := List.sizeOf_lt_of_mem hitem
      rw [Value.list.sizeOf_spec]
      omega
    | _ => cases hitem
  · exact (sizeOf_entry hentry).trans (sizeOf_map hentries)

theorem finiteNode_eq (n : NodeOf Value) : finiteNode n=finiteEntries n.properties := by
  cases n
  rfl

theorem finiteEdge_eq (e : EdgeOf Value) : finiteEdge e=finiteEntries e.properties := by
  cases e
  rfl

theorem finite_inside (h : finiteMaps value=true) : (∀ item∈heldItems value,finiteMaps item=true) ∧
    ∀ entries∈heldMaps value,finiteEntries entries=true := by
  cases value with
  | list items =>
    rw [finiteMaps] at h
    refine ⟨fun item hitem => ?_,fun _ hnone => absurd hnone List.not_mem_nil⟩
    induction items with
    | nil => cases hitem
    | cons first rest ih =>
      rw [finiteItems,Bool.and_eq_true] at h
      rcases List.mem_cons.mp hitem with hfirst|hrest
      · exact hfirst▸h.1
      · exact ih h.2 hrest
  | path p =>
    obtain ⟨ns,es⟩ := p
    rw [finiteMaps,finitePath,Bool.and_eq_true] at h
    have hnodes : ∀ ns,finiteNodes ns=true → ∀ n∈ns,finiteEntries n.properties=true := by
      intro ns
      induction ns with
      | nil => simp
      | cons n rest ih =>
        rw [finiteNodes,Bool.and_eq_true,List.forall_mem_cons,finiteNode_eq]
        exact fun hall => ⟨hall.1,ih hall.2⟩
    have hedges : ∀ es,finiteEdges es=true → ∀ e∈es,finiteEntries e.properties=true := by
      intro es
      induction es with
      | nil => simp
      | cons e rest ih =>
        rw [finiteEdges,Bool.and_eq_true,List.forall_mem_cons,finiteEdge_eq]
        exact fun hall => ⟨hall.1,ih hall.2⟩
    refine ⟨fun _ hnone => absurd hnone List.not_mem_nil,fun entries hentries => ?_⟩
    rcases List.mem_append.mp hentries with hnode|hedge
    · obtain ⟨n,hn,heq⟩ := List.mem_map.mp hnode
      exact heq▸hnodes ns h.1 n hn
    · obtain ⟨e,he,heq⟩ := List.mem_map.mp hedge
      exact heq▸hedges es h.2 e he
  | _ =>
    refine ⟨fun _ hnone => absurd hnone List.not_mem_nil,fun entries hentries => ?_⟩
    first
      | exact absurd hentries List.not_mem_nil
      | (rw [List.mem_singleton.mp hentries]
         simpa only [finiteMaps,finiteNode_eq,finiteEdge_eq] using h)

theorem valueEq_refl (value : Value) (h : finiteMaps value=true) : valueEq value value=true := by
  induction value using value_induct with
  | h value hitems hmaps =>
    obtain ⟨hfinite,hentries⟩ := finite_inside h
    refine valueEq_iff.mpr ⟨rfl,List.forall₂_same.mpr fun item hitem => hitems item hitem (hfinite item hitem),
      List.forall₂_same.mpr fun entries hmem => ⟨rfl,fun entry hentry => ⟨entry.2,?_,?_⟩⟩⟩
    · exact getProp_of_mem (hentries entries hmem) hentry
    · exact hmaps entries hmem entry hentry (finiteMaps_of_mem (hentries entries hmem) hentry)

end Shapes

theorem allKnown_true_iff {parts : List (Option Bool)} :
    allKnown false parts=some true ↔ ∀ part∈parts,part=some true := by
  have hnull : ∀ parts,allKnown true parts≠some true := by
    intro parts
    induction parts with
    | nil => simp [allKnown]
    | cons part rest ih =>
      rcases part with _|_|_
      · exact ih
      · simp [allKnown]
      · exact ih
  induction parts with
  | nil => simp [allKnown]
  | cons part rest ih =>
    rw [List.forall_mem_cons]
    rcases part with _|_|_
    · have hrest := hnull rest
      simp [allKnown,hrest]
    · simp [allKnown]
    · simpa [allKnown] using ih

/-- The query equality as a relation. -/
abbrev Equal (a b : Value) : Prop := valuesEqual a b=some true

theorem valuesEqual_map_iff {a b : Properties} : Equal (.map a) (.map b) ↔
    sameKeys a b=true ∧ ∀ entry∈a,∃ other,getProp b entry.1=some other ∧ Equal entry.2 other := by
  have hparts : ∀ rest : Properties,(∀ part∈entriesEqual rest b,part=some true) ↔
      ∀ entry∈rest,∃ other,getProp b entry.1=some other ∧ Equal entry.2 other := by
    intro rest
    induction rest with
    | nil => simp [entriesEqual]
    | cons entry rest ih =>
      obtain ⟨key,value⟩ := entry
      rw [entriesEqual,List.forall_mem_cons,ih,List.forall_mem_cons,entryEqual]
      refine and_congr_left fun _ => ?_
      cases getProp b key with
      | none | some other => simp
  rw [Equal,valuesEqual,←hparts]
  split_ifs with hkeys
  · rw [allKnown_true_iff]
    simp [hkeys]
  · simp [hkeys]

theorem valuesEqual_list_iff {a b : List Value} : Equal (.list a) (.list b) ↔ List.Forall₂ Equal a b := by
  have hparts : (a.length=b.length ∧ ∀ part∈itemsEqual a b,part=some true) ↔ List.Forall₂ Equal a b := by
    induction a generalizing b with
    | nil => cases b <;> simp [itemsEqual]
    | cons x xs ih =>
      cases b with
      | nil => simp
      | cons y ys =>
        rw [List.forall₂_cons,←ih,itemsEqual,List.forall_mem_cons,List.length_cons,List.length_cons,Nat.succ_inj]
        exact and_left_comm
  rw [Equal,valuesEqual,←hparts]
  split_ifs with hlen
  · rw [allKnown_true_iff]
    simp [hlen]
  · simp [hlen]

theorem sameKeys_of_within {a b : List (String×Value)} (ha : finiteEntries a=true)
    (hlen : a.length=b.length) (hread : ∀ entry∈a,(getProp b entry.1).isSome=true) : sameKeys a b=true := by
  have hsub : a.map Prod.fst ⊆ b.map Prod.fst := by
    intro key hkey
    have ⟨entry,hentry,hname⟩ := List.mem_map.mp hkey
    have ⟨value,hvalue⟩ := Option.isSome_iff_exists.mp (hread entry hentry)
    rw [←hname]
    exact List.mem_map.mpr ⟨_,mem_of_getProp hvalue,rfl⟩
  have hperm : (a.map Prod.fst).Perm (b.map Prod.fst) := by
    apply ((nodup_of_finiteEntries ha).subperm hsub).perm_of_length_le
    rw [List.length_map,List.length_map,hlen]
  rw [sameKeys,Bool.and_eq_true]
  refine ⟨List.all_eq_true.mpr hread,List.all_eq_true.mpr fun entry hentry => ?_⟩
  have ⟨other,hother,hname⟩ := List.mem_map.mp (hperm.mem_iff.mpr (List.mem_map.mpr ⟨entry,hentry,rfl⟩))
  rw [←hname,getProp_of_mem ha hother]
  rfl

theorem valuesEqual_of_valueEq (a b : Value) (ha : finiteMaps a=true) (hb : finiteMaps b=true)
    (h : valueEq a b=true) (hself : valuesEqual b b=some true) : valuesEqual a b=some true := by
  induction a using value_induct generalizing b with
  | h a hitems hmaps =>
    obtain ⟨hfinite,-⟩ := finite_inside ha
    obtain ⟨hfinite',-⟩ := finite_inside hb
    have hshaped := valueEq_iff.mp h
    cases a with
    | list items =>
      cases b with
      | list more =>
        have hmore := List.forall₂_same.mp (valuesEqual_list_iff.mp hself)
        exact valuesEqual_list_iff.mpr (forall₂_of_mem hshaped.items fun x hx y hy hxy =>
          hitems x hx y (hfinite x hx) (hfinite' y hy) hxy (hmore y hy))
      | _ => cases h
    | map entries =>
      cases b with
      | map more =>
        rw [finiteMaps] at ha hb
        obtain ⟨hlen,hwithin⟩ := (List.forall₂_cons.mp hshaped.maps).1
        obtain ⟨-,hmore⟩ := valuesEqual_map_iff.mp hself
        refine valuesEqual_map_iff.mpr ⟨sameKeys_of_within ha hlen fun entry hentry => ?_,fun entry hentry => ?_⟩
        · obtain ⟨other,hread,-⟩ := hwithin entry hentry
          rw [hread]
          rfl
        · obtain ⟨other,hread,hequal⟩ := hwithin entry hentry
          have hin := mem_of_getProp hread
          obtain ⟨held,hheld,hknown⟩ := hmore _ hin
          rw [hread] at hheld
          rw [←Option.some.inj hheld] at hknown
          exact ⟨other,hread,hmaps entries List.mem_cons_self entry hentry other (finiteMaps_of_mem ha hentry)
            (finiteMaps_of_mem hb hin) hequal hknown⟩
      | _ => cases h
    | null => cases b <;> simp [valuesEqual,valueEq] at h hself
    | f64 bits =>
      cases b with
      | f64 more =>
        have hbits : bits=more := by simpa [valueEq] using h
        rw [hbits]
        exact hself
      | _ => cases h
    | node n =>
      cases b with
      | node m =>
        have hbare : bareNode n=bareNode m := Value.node.inj hshaped.skeletons
        have hids : (bareNode n).id=(bareNode m).id := congrArg NodeOf.id hbare
        exact congrArg some (decide_eq_true hids)
      | _ => cases h
    | path p =>
      cases b with
      | path q =>
        have hpaths := PathOf.mk.inj (Value.path.inj hshaped.skeletons)
        have hids := congrArg (List.map NodeOf.id) hpaths.1
        have hends := congrArg (List.map fun e => (e.src,e.dst,e.label)) hpaths.2
        rw [List.map_map,List.map_map] at hids hends
        have hsame : pathsEqual p q=true := by
          rw [pathsEqual,Bool.and_eq_true,decide_eq_true_eq,decide_eq_true_eq]
          exact ⟨hids,hends⟩
        rw [valuesEqual,hsame]
      | _ => cases h
    | _ =>
      cases b <;> simp [valueEq] at h
      simp [valuesEqual,h]

theorem f64Eq_self {a b : UInt64} (h : f64Eq a b=true) : f64Eq b b=true := by
  unfold f64Eq at h ⊢
  cases ha : f64Key a with
  | none =>
    rw [ha] at h
    cases h
  | some x =>
    cases hb : f64Key b with
    | none =>
      rw [ha,hb] at h
      cases h
    | some y => simp

theorem valuesEqual_self (a b : Value) (hb : finiteMaps b=true) (h : valuesEqual a b=some true) :
    valuesEqual b b=some true := by
  induction b using value_induct generalizing a with
  | h b hitems hmaps =>
    obtain ⟨hfinite,-⟩ := finite_inside hb
    cases b with
    | null => cases a <;> simp [valuesEqual] at h
    | f64 bits =>
      cases a with
      | i64 n =>
        have heq : f64Eq (i64ToF64 n) bits=true := by simpa only [valuesEqual,Option.some.injEq] using h
        rw [valuesEqual,f64Eq_self heq]
      | f64 other =>
        have heq : f64Eq other bits=true := by simpa only [valuesEqual,Option.some.injEq] using h
        rw [valuesEqual,f64Eq_self heq]
      | _ => simp [valuesEqual] at h
    | list more =>
      cases a with
      | list items =>
        have hself : List.Forall₂ (fun y x => Equal y y ∧ Equal x y) more items :=
          (forall₂_of_mem (valuesEqual_list_iff.mp h) fun x hx y hy hxy =>
            (⟨hitems y hy x (hfinite y hy) hxy,hxy⟩ : Equal y y ∧ Equal x y)).flip
        exact valuesEqual_list_iff.mpr (List.forall₂_same.mpr ((List.forall₂_and_left _ _).mp hself).1)
      | _ => simp [valuesEqual] at h
    | map more =>
      cases a with
      | map entries =>
        rw [finiteMaps] at hb
        obtain ⟨hkeys,hequal⟩ := valuesEqual_map_iff.mp h
        have hread : ∀ entry∈more,getProp more entry.1=some entry.2 := fun _ hentry => getProp_of_mem hb hentry
        refine valuesEqual_map_iff.mpr ⟨?_,fun entry hentry => ⟨entry.2,hread entry hentry,?_⟩⟩
        · rw [sameKeys,Bool.and_self]
          exact List.all_eq_true.mpr fun entry hentry => by rw [hread entry hentry]; rfl
        · have hback := List.all_eq_true.mp (Bool.and_eq_true_iff.mp hkeys).2 entry hentry
          obtain ⟨held,hheld⟩ := Option.isSome_iff_exists.mp hback
          obtain ⟨other,hother,heq⟩ := hequal _ (mem_of_getProp hheld)
          rw [hread entry hentry] at hother
          rw [←Option.some.inj hother] at heq
          exact hmaps more List.mem_cons_self entry hentry held (finiteMaps_of_mem hb hentry) heq
      | _ => simp [valuesEqual] at h
    | edge e => exact congrArg some (valueEq_refl (.edge e) hb)
    | _ => simp [valuesEqual,pathsEqual]

end GraphDbLite.ValueEquality
