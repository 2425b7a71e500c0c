import GraphDbLite.BreadthFirst

/-!
# Shortest walks through predecessors

A search that records with every seen node the predecessors it has met knows in the end all
predecessors that are one step nearer to the start. The sequences of nodes that follow such
predecessors back to the start are the shortest walks, each once.
-/

namespace GraphDbLite.ShortestWalks

open BreadthFirst

variable {α : Type}

section Back

variable (step : α → α → Prop) (start : α)

/-- A predecessor that is one step nearer to the start. -/
def Nearer (p v : α) : Prop := ∃ d,AtDistance step start d p ∧ AtDistance step start (d+1) v ∧ step p v

/-- The sequences of a number of predecessors that follow a node. -/
def suffixes (parents : α → List α) : Nat → α → List (List α)
  | 0,_ => [[]]
  | d+1,v => (parents v).reverse.flatMap fun p => (suffixes parents d p).map (p::·)

/-- The predecessors of all nodes within a limit. -/
structure Complete (limit : Nat) (parents : α → List α) : Prop where
  /-- Each is listed once. -/
  distinct : ∀ d v,d≤limit → AtDistance step start d v → (parents v).Nodup
  /-- They are one step nearer. -/
  nearer : ∀ d v,d≤limit → AtDistance step start d v → ∀ p,p∈parents v ↔ Nearer step start p v

variable {step start}

theorem Nearer.distance {p v : α} {d : Nat} (h : Nearer step start p v) (hv : AtDistance step start (d+1) v) :
    AtDistance step start d p := by
  have ⟨k,hp,hk,_⟩ := h
  rw [←Nat.succ.inj (atDistance_unique hk hv)]
  exact hp

theorem nearer_of_walk {p v : α} {d : Nat} (hwalk : Walk step start d p) (hv : AtDistance step start (d+1) v)
    (hstep : step p v) : Nearer step start p v := by
  have hshort : ∀ k<d,¬Walk step start k p := fun k hk hless => hv.2 (k+1) (Nat.succ_lt_succ hk) ⟨p,hless,hstep⟩
  exact ⟨d,⟨hwalk,hshort⟩,hv,hstep⟩

variable {limit : Nat} {parents : α → List α}

theorem Complete.mem_suffixes (h : Complete step start limit parents) {d : Nat} {v : α} (hd : d≤limit)
    (hv : AtDistance step start d v) (s : List α) :
    s∈suffixes parents d v ↔ s.length=d ∧ PathTo step start (v::s).reverse v := by
  induction d generalizing v s with
  | zero =>
    rw [suffixes,List.mem_singleton,List.length_eq_zero_iff]
    have hstart := eq_of_atDistance_zero hv
    constructor
    · intro hs
      rw [hs,hstart]
      exact ⟨rfl,pathTo_singleton⟩
    · exact And.left
  | succ d ih =>
    rw [suffixes,List.mem_flatMap]
    constructor
    · rintro ⟨p,hp,hs⟩
      have hnear := (h.nearer (d+1) v hd hv p).mp (List.mem_reverse.mp hp)
      have hpd := hnear.distance hv
      cases List.mem_map.mp hs with
      | intro rest hrest =>
        have hsame : s=p::rest := hrest.2.symm
        rw [hsame]
        have hback := (ih (Nat.le_of_succ_le hd) hpd rest).mp hrest.1
        have ⟨_,_,_,hstep⟩ := hnear
        rw [List.reverse_cons,List.length_cons,hback.1]
        exact ⟨rfl,hback.2.snoc hstep⟩
    · rintro ⟨hlength,hpath⟩
      cases s with
      | nil => exact nomatch hlength
      | cons p rest =>
        have hrest : rest.length=d := Nat.succ.inj hlength
        rw [List.reverse_cons,List.reverse_cons] at hpath
        have hparts := hpath.unsnoc
        have hwalk : Walk step start d p := hparts.1.walk (by simp [hrest])
        have hnear := nearer_of_walk hwalk hv hparts.2
        refine ⟨p,List.mem_reverse.mpr ((h.nearer (d+1) v hd hv p).mpr hnear),List.mem_map.mpr ⟨rest,?_,rfl⟩⟩
        refine (ih (Nat.le_of_succ_le hd) (hnear.distance hv) rest).mpr ⟨hrest,?_⟩
        rw [List.reverse_cons]
        exact hparts.1

theorem Complete.nodup_suffixes (h : Complete step start limit parents) {d : Nat} {v : α} (hd : d≤limit)
    (hv : AtDistance step start d v) : (suffixes parents d v).Nodup := by
  induction d generalizing v with
  | zero => exact List.nodup_singleton _
  | succ d ih =>
    rw [suffixes,List.nodup_flatMap]
    constructor
    · intro p hp
      have hnear := (h.nearer (d+1) v hd hv p).mp (List.mem_reverse.mp hp)
      exact (ih (Nat.le_of_succ_le hd) (hnear.distance hv)).map fun a b hab => (List.cons.inj hab).2
    · refine (List.nodup_reverse.mpr (h.distinct (d+1) v hd hv)).imp fun hne s hs hs' => ?_
      have ⟨rest,_,hrest⟩ := List.mem_map.mp hs
      have ⟨rest',_,hrest'⟩ := List.mem_map.mp hs'
      have hcons := hrest.trans hrest'.symm
      exact hne (List.cons.inj hcons).1

end Back

section Search

variable (step : α → α → Prop) (start : α)

/-- A seen node that has left the queue. -/
def Gone (seen : α → Prop) (queue : List (α×Nat)) (p : α) : Prop := seen p ∧ ∀ d,(p,d)∉queue

/-- Seen nodes list their nearer predecessors among those that have left the queue and, of the one whose
successors are looked at, among those that were. -/
def Parented (seen : α → Prop) (queue : List (α×Nat)) (extra : α → α → Prop) (parents : α → Option (List α)) : Prop :=
  ∀ v,seen v → ∃ ps,parents v=some ps ∧ ps.Nodup ∧
    ∀ p,p∈ps ↔ Nearer step start p v ∧ (Gone seen queue p ∨ extra p v)

variable {step start} {seen : α → Prop} {rest : List (α×Nat)} {u w : α} {d limit : Nat} {looked : α → Prop}
  {parents parents' : α → Option (List α)}

theorem distance_le {queue : List (α×Nat)} (h : Searched step start limit seen queue) {v : α} {k : Nat}
    (hseen : seen v) (hv : AtDistance step start k v) : k≤limit := by
  cases h.near v hseen with
  | intro j hj =>
    rw [atDistance_unique hv hj.2]
    exact hj.1

theorem not_gone_first : ¬Gone seen ((u,d)::rest) u := fun h => h.2 d List.mem_cons_self

section Visiting

variable (h : Parented step start seen ((u,d)::rest) (fun p v => p=u ∧ looked v) parents)

include h

theorem Parented.again (hs : Searched step start limit seen ((u,d)::rest)) (hstep : step u w)
    (hdist : AtDistance step start (d+1) w) (hnew : ¬looked w)
    (hw : parents' w=some ((parents w).getD []++[u])) (hother : ∀ v,v≠w → parents' v=parents v) :
    Parented step start seen ((u,d)::rest) (fun p v => p=u ∧ (looked v ∨ v=w)) parents' := by
  intro v hv
  have ⟨ps,hps,hnodup,hmem⟩ := h v hv
  by_cases hsame : v=w
  · rw [hsame] at hps hmem ⊢
    have hu : u∉ps := fun hin => ((hmem u).mp hin).2.elim not_gone_first fun hx => hnew hx.2
    have hnear : Nearer step start u w := ⟨d,(hs.queued (u,d) List.mem_cons_self).2,hdist,hstep⟩
    refine ⟨ps++[u],by rw [hw,hps]; rfl,?_,fun p => ?_⟩
    · exact List.nodup_append.mpr ⟨hnodup,List.nodup_singleton u,fun a ha b hb heq => hu
        (by rw [←List.mem_singleton.mp hb,←heq]; exact ha)⟩
    · rw [List.mem_append,hmem,List.mem_singleton]
      constructor
      · rintro (⟨hp,hgone|hx⟩|heq)
        · exact ⟨hp,Or.inl hgone⟩
        · exact ⟨hp,Or.inr ⟨hx.1,Or.inl hx.2⟩⟩
        · rw [heq]
          exact ⟨hnear,Or.inr ⟨rfl,Or.inr rfl⟩⟩
      · rintro ⟨hp,hgone|hx⟩
        · exact Or.inl ⟨hp,Or.inl hgone⟩
        · exact Or.inr hx.1
  · refine ⟨ps,(hother v hsame).trans hps,hnodup,fun p => ?_⟩
    dsimp only
    rw [hmem,or_iff_left hsame]

theorem Parented.skip (hs : Searched step start limit seen ((u,d)::rest)) (hdist : ¬AtDistance step start (d+1) w) :
    Parented step start seen ((u,d)::rest) (fun p v => p=u ∧ (looked v ∨ v=w)) parents := by
  intro v hv
  have ⟨ps,hps,hnodup,hmem⟩ := h v hv
  refine ⟨ps,hps,hnodup,fun p => ?_⟩
  rw [hmem]
  constructor
  · rintro ⟨hp,hgone|hx⟩
    · exact ⟨hp,Or.inl hgone⟩
    · exact ⟨hp,Or.inr ⟨hx.1,Or.inl hx.2⟩⟩
  · rintro ⟨hp,hgone|⟨hu,hlook|hw⟩⟩
    · exact ⟨hp,Or.inl hgone⟩
    · exact ⟨hp,Or.inr ⟨hu,hlook⟩⟩
    · rw [hu,hw] at hp
      have ⟨k,hk,hk',_⟩ := hp
      rw [atDistance_unique hk (hs.queued (u,d) List.mem_cons_self).2] at hk'
      exact absurd hk' hdist

/-- A fresh successor lists the node at the front; it is queued, or it is at the limit. -/
theorem Parented.fresh
    (hs : Searched step start limit seen ((u,d)::rest)) (hstep : step u w) (hfresh : ¬seen w) (hlt : d<limit)
    {seen' : α → Prop} (hseen : ∀ v,seen' v ↔ seen v ∨ v=w) {queue : List (α×Nat)}
    (hqueue : queue=(u,d)::rest++[(w,d+1)] ∨ queue=(u,d)::rest ∧ d+1=limit)
    (hw : parents' w=some [u]) (hother : ∀ v,v≠w → parents' v=parents v) :
    Parented step start seen' queue (fun p v => p=u ∧ (looked v ∨ v=w)) parents' := by
  have hdist := hs.fresh_distance hstep hfresh
  have hin : ∀ p k,p≠w → ((p,k)∈queue ↔ (p,k)∈(u,d)::rest) := by
    intro p k hne
    rcases hqueue with hpushed|hsame
    · rw [hpushed,List.mem_append,List.mem_singleton]
      exact or_iff_left fun heq => hne (congrArg Prod.fst heq)
    · rw [hsame.1]
  have hgone : ∀ p,p≠w → (Gone seen' queue p ↔ Gone seen ((u,d)::rest) p) := by
    intro p hne
    rw [Gone,Gone,hseen,or_iff_left hne]
    exact and_congr_right' (forall_congr' fun k => not_congr (hin p k hne))
  intro v hv
  by_cases hsame : v=w
  · rw [hsame]
    refine ⟨[u],hw,List.nodup_singleton u,fun p => ?_⟩
    rw [List.mem_singleton]
    constructor
    · intro hp
      rw [hp]
      exact ⟨⟨d,(hs.queued (u,d) List.mem_cons_self).2,hdist,hstep⟩,Or.inr ⟨rfl,Or.inr rfl⟩⟩
    · rintro ⟨hnear,hg|hx⟩
      · have hp := hnear.distance hdist
        have hne : p≠w := fun heq => by
          rw [heq] at hp
          exact absurd (atDistance_unique hp hdist) (Nat.ne_of_lt (Nat.lt_succ_self d))
        have hold := (hgone p hne).mp hg
        have ⟨_,_,_,hpw⟩ := hnear
        exact absurd (hs.closed p d hold.1 hp hlt (hold.2 d) w hpw) hfresh
      · exact hx.1
  · have hold : seen v := ((hseen v).mp hv).resolve_right hsame
    have ⟨ps,hps,hnodup,hmem⟩ := h v hold
    refine ⟨ps,(hother v hsame).trans hps,hnodup,fun p => ?_⟩
    dsimp only
    rw [hmem,or_iff_left hsame]
    refine and_congr_right fun hnear => or_congr_left ?_
    by_cases hpw : p=w
    · rw [hpw] at hnear ⊢
      have hleft : ¬Gone seen ((u,d)::rest) w := fun hg => hfresh hg.1
      have hright : ¬Gone seen' queue w := by
        intro hg
        rcases hqueue with hpushed|hstay
        · exact hg.2 (d+1) (by rw [hpushed]; exact List.mem_append_right _ List.mem_cons_self)
        · have ⟨k,hk,hk',_⟩ := hnear
          have hle := distance_le hs hold hk'
          rw [atDistance_unique hk hdist] at hle
          omega
      exact iff_of_false hleft hright
    · exact (hgone p hpw).symm

/-- The front leaves the queue when all its successors were looked at, or at the limit. -/
theorem Parented.pop (hs : Searched step start limit seen ((u,d)::rest)) (hdone : d<limit → ∀ v,step u v → looked v) :
    Parented step start seen rest (fun _ _ => False) parents := by
  have hfirst := hs.queued (u,d) List.mem_cons_self
  have hgone : ∀ p,Gone seen rest p ↔ Gone seen ((u,d)::rest) p ∨ p=u := by
    intro p
    constructor
    · intro hg
      by_cases hp : p=u
      · exact Or.inr hp
      · refine Or.inl ⟨hg.1,fun k hin => ?_⟩
        rcases List.mem_cons.mp hin with heq|hrest
        · exact hp (congrArg Prod.fst heq)
        · exact hg.2 k hrest
    · rintro (hg|hp)
      · exact ⟨hg.1,fun k hin => hg.2 k (List.mem_cons_of_mem _ hin)⟩
      · rw [hp]
        have hout := (List.nodup_cons.mp hs.distinct).1
        exact ⟨hfirst.1,fun k hin => hout (List.mem_map.mpr ⟨(u,k),hin,rfl⟩)⟩
  intro v hv
  have ⟨ps,hps,hnodup,hmem⟩ := h v hv
  refine ⟨ps,hps,hnodup,fun p => ?_⟩
  rw [hmem,or_false,hgone]
  refine and_congr_right fun hnear => or_congr_right ⟨And.left,fun hp => ⟨hp,?_⟩⟩
  rw [hp] at hnear
  have ⟨k,hk,hk',hstep⟩ := hnear
  rw [atDistance_unique hk hfirst.2] at hk'
  exact hdone (Nat.lt_of_succ_le (distance_le hs hv hk')) v hstep

end Visiting

theorem Parented.complete (h : Parented step start seen [] (fun _ _ => False) parents)
    (hs : Searched step start limit seen []) : Complete step start limit fun v => (parents v).getD [] := by
  have hlist : ∀ k v,k≤limit → AtDistance step start k v →
      ((parents v).getD []).Nodup ∧ ∀ p,p∈(parents v).getD [] ↔ Nearer step start p v := by
    intro k v hk hv
    have ⟨ps,hps,hnodup,hmem⟩ := h v ((hs.seen_iff v).mpr ⟨k,hk,hv⟩)
    rw [hps]
    refine ⟨hnodup,fun p => (hmem p).trans ⟨And.left,fun hnear => ⟨hnear,Or.inl ⟨?_,fun _ => List.not_mem_nil⟩⟩⟩⟩
    have ⟨j,hj,hj',_⟩ := hnear
    have hle := atDistance_unique hj' hv
    exact (hs.seen_iff p).mpr ⟨j,by omega,hj⟩
  exact ⟨fun k v hk hv => (hlist k v hk hv).1,fun k v hk hv => (hlist k v hk hv).2⟩

end Search

end GraphDbLite.ShortestWalks
