import Mathlib.Algebra.BigOperators.Group.List.Basic
import Mathlib.Algebra.GroupWithZero.Nat
import Mathlib.Algebra.Order.BigOperators.Group.List
import Mathlib.Algebra.Order.Group.Nat
import Mathlib.Data.List.Chain
import Mathlib.Data.List.Nodup
import Mathlib.Tactic.Common

/-!
# Breadth-first search

A search queues nodes with their depths and remembers which nodes it has seen. While it
takes nodes from the front, adds the unseen successors of the node at the front at the next
depth, and drops a node whose successors are all seen, the depths are distances: the
lengths of shortest walks from the start. In the end the nodes within the limit are seen.
The number of nodes that can still be queued bounds the search.
-/

namespace GraphDbLite.BreadthFirst

variable {α : Type}

section Walks

variable (step : α → α → Prop) (start : α)

/-- A walk from the start in a number of steps. -/
@[grind] def Walk : Nat → α → Prop
  | 0,v => v=start
  | n+1,v => ∃ u,Walk n u ∧ step u v

/-- The shortest walk to a node has a number of steps. -/
@[grind] def AtDistance (n : Nat) (v : α) : Prop := Walk step start n v ∧ ∀ k<n,¬Walk step start k v

variable {step start}

theorem atDistance_zero : AtDistance step start 0 start :=
  ⟨rfl,fun k hk => absurd hk (Nat.not_lt_zero k)⟩

variable {v : α} {n : Nat}

theorem eq_of_atDistance_zero (h : AtDistance step start 0 v) : v=start := h.1

theorem atDistance_unique {m : Nat} (hn : AtDistance step start n v) (hm : AtDistance step start m v) : n=m := by
  rcases Nat.lt_trichotomy n m with hlt|heq|hgt
  · exact absurd hn.1 (hm.2 n hlt)
  · exact heq
  · exact absurd hm.1 (hn.2 m hgt)

theorem exists_atDistance (h : Walk step start n v) : ∃ d,d≤n ∧ AtDistance step start d v := by
  induction n using Nat.strong_induction_on with
  | h n ih =>
    by_cases hshorter : ∃ k<n,Walk step start k v
    · cases hshorter with
      | intro k hk =>
        cases ih k hk.1 hk.2 with
        | intro d hd => exact ⟨d,le_trans hd.1 (le_of_lt hk.1),hd.2⟩
    · exact ⟨n,le_rfl,h,fun k hk hwalk => hshorter ⟨k,hk,hwalk⟩⟩

theorem exists_atDistance_succ {u : α} (hu : AtDistance step start n u) (hstep : step u v) :
    ∃ d,d≤n+1 ∧ AtDistance step start d v := exists_atDistance ⟨u,hu.1,hstep⟩

theorem exists_pred (h : AtDistance step start (n+1) v) : ∃ u,AtDistance step start n u ∧ step u v := by
  cases h.1 with
  | intro u hu =>
    have hnear : ∀ k<n,¬Walk step start k u := fun k hk hwalk =>
      h.2 (k+1) (Nat.succ_lt_succ hk) ⟨u,hwalk,hu.2⟩
    exact ⟨u,⟨hu.1,hnear⟩,hu.2⟩

end Walks

section Paths

variable {step : α → α → Prop} {start : α}

/-- A sequence of nodes that starts at the start and follows steps. -/
@[grind] def PathTo (step : α → α → Prop) (start : α) (path : List α) (v : α) : Prop :=
  path.head?=some start ∧ path.getLast?=some v ∧ path.IsChain step

theorem pathTo_singleton : PathTo step start [start] start := ⟨rfl,rfl,List.isChain_singleton start⟩

variable {path : List α} {u v : α}

theorem PathTo.snoc (h : PathTo step start path u) (hstep : step u v) : PathTo step start (path++[v]) v := by
  have hhead : (path++[v]).head?=some start := by rw [List.head?_append,h.1]; rfl
  have hchain : (path++[v]).IsChain step := by
    refine List.isChain_append.mpr ⟨h.2.2,List.isChain_singleton v,fun x hx y hy => ?_⟩
    rw [h.2.1] at hx
    rw [←Option.some.inj hx,←Option.some.inj hy]
    exact hstep
  exact ⟨hhead,List.getLast?_concat,hchain⟩

theorem PathTo.unsnoc (h : PathTo step start (path++[u]++[v]) v) : PathTo step start (path++[u]) u ∧ step u v := by
  have hchain := List.isChain_append.mp h.2.2
  have hhead : (path++[u]).head?=some start := by
    have hfull := h.1
    rw [List.head?_append] at hfull
    cases hpath : (path++[u]).head? with
    | none => exact absurd (List.head?_eq_none_iff.mp hpath) (by simp)
    | some x =>
      rw [hpath] at hfull
      exact hfull
  exact ⟨⟨hhead,List.getLast?_concat,hchain.1⟩,hchain.2.2 u List.getLast?_concat v rfl⟩

theorem PathTo.walk {n : Nat} (h : PathTo step start path v) (hlength : path.length=n+1) : Walk step start n v := by
  induction n generalizing path v with
  | zero =>
    cases List.length_eq_one_iff.mp hlength with
    | intro x hx =>
      rw [hx] at h
      have hstart := Option.some.inj h.1
      have hend := Option.some.inj h.2.1
      exact hend.symm.trans hstart
  | succ n ih =>
    have hsplit : ∃ front u,path=front++[u]++[v] := by
      have hne : path≠[] := fun hnil => by rw [hnil] at hlength; exact nomatch hlength
      have hlast : path.dropLast++[v]=path := by
        have hget := List.getLast?_eq_some_getLast hne
        rw [h.2.1] at hget
        rw [Option.some.inj hget]
        exact List.dropLast_append_getLast hne
      have hfront : path.dropLast≠[] := by
        intro hnil
        have hlen := congrArg List.length hnil
        rw [List.length_dropLast,hlength] at hlen
        exact nomatch hlen
      refine ⟨path.dropLast.dropLast,path.dropLast.getLast hfront,?_⟩
      rw [List.dropLast_append_getLast hfront,hlast]
    have ⟨front,u,hpath⟩ := hsplit
    rw [hpath] at h hlength
    have hparts := h.unsnoc
    have hfront : (front++[u]).length=n+1 := by
      rw [List.length_append] at hlength
      exact Nat.succ.inj hlength
    exact ⟨u,ih hparts.1 hfront,hparts.2⟩

end Paths

section Search

variable (step : α → α → Prop) (start : α) (limit : Nat)

/-- What a search knows: the seen nodes and the queued ones with their depths. -/
structure Searched (seen : α → Prop) (queue : List (α×Nat)) : Prop where
  /-- The start is seen. -/
  begun : seen start
  /-- Queued nodes are seen, and their depths are distances. -/
  queued : ∀ entry∈queue,seen entry.1 ∧ AtDistance step start entry.2 entry.1
  /-- Seen nodes are within the limit. -/
  near : ∀ v,seen v → ∃ d,d≤limit ∧ AtDistance step start d v
  /-- The queue covers at most two depths, in order. -/
  ordered : queue.Pairwise fun a b => a.2≤b.2 ∧ b.2≤a.2+1
  /-- Nodes are queued once. -/
  distinct : (queue.map Prod.fst).Nodup
  /-- All successors of nodes that have left the queue are seen. -/
  closed : ∀ u d,seen u → AtDistance step start d u → d<limit → (u,d)∉queue → ∀ v,step u v → seen v

variable {step start limit}

theorem searched_initial : Searched step start limit (fun v => v=start) [(start,0)] := by
  have hqueued : ∀ entry∈[(start,0)],entry.1=start ∧ AtDistance step start entry.2 entry.1 := by
    intro entry hentry
    rw [List.mem_singleton.mp hentry]
    exact ⟨rfl,atDistance_zero⟩
  have hclosed : ∀ u d,u=start → AtDistance step start d u → d<limit → (u,d)∉[(start,0)] →
      ∀ v,step u v → v=start := by
    intro u d hu hdist _ hqueue
    rw [hu] at hdist hqueue
    rw [atDistance_unique hdist atDistance_zero] at hqueue
    exact absurd List.mem_cons_self hqueue
  exact ⟨rfl,hqueued,fun v hv => ⟨0,Nat.zero_le _,hv ▸ atDistance_zero⟩,List.pairwise_singleton _ _,
    List.nodup_singleton _,hclosed⟩

section Invariant

variable {seen : α → Prop} {queue rest : List (α×Nat)} {u : α} {d : Nat}

theorem Searched.first_le (h : Searched step start limit seen ((u,d)::rest)) {entry : α×Nat}
    (hentry : entry∈(u,d)::rest) : d≤entry.2 ∧ entry.2≤d+1 := by
  rcases List.mem_cons.mp hentry with heq|hrest
  · rw [heq]
    exact ⟨le_rfl,Nat.le_succ d⟩
  · exact (List.pairwise_cons.mp h.ordered).1 entry hrest

theorem Searched.seen_of_near (h : Searched step start limit seen ((u,d)::rest)) {j : Nat} {v : α}
    (hv : AtDistance step start j v) (hj : j≤d) : seen v := by
  have hd : d≤limit := by
    have hfirst := h.queued (u,d) List.mem_cons_self
    cases h.near u hfirst.1 with
    | intro k hk =>
      have heq : k=d := atDistance_unique hk.2 hfirst.2
      rw [←heq]
      exact hk.1
  induction j generalizing v with
  | zero =>
    rw [eq_of_atDistance_zero hv]
    exact h.begun
  | succ j ih =>
    cases exists_pred hv with
    | intro p hp =>
      have hseen : seen p := ih hp.1 (Nat.le_of_succ_le hj)
      have hgone : (p,j)∉(u,d)::rest := fun hin => by
        have hle := (h.first_le hin).1
        omega
      exact h.closed p j hseen hp.1 (by omega) hgone v hp.2

theorem Searched.seen_iff (h : Searched step start limit seen []) (v : α) :
    seen v ↔ ∃ d,d≤limit ∧ AtDistance step start d v := by
  constructor
  · exact h.near v
  · rintro ⟨d,hd,hv⟩
    induction d generalizing v with
    | zero =>
      rw [eq_of_atDistance_zero hv]
      exact h.begun
    | succ d ih =>
      cases exists_pred hv with
      | intro p hp =>
        have hseen : seen p := ih p (Nat.le_of_succ_le hd) hp.1
        exact h.closed p d hseen hp.1 hd List.not_mem_nil v hp.2

section Visiting

variable (h : Searched step start limit seen ((u,d)::rest))

include h

theorem Searched.fresh_distance {w : α} (hstep : step u w)
    (hfresh : ¬seen w) : AtDistance step start (d+1) w := by
  have hfirst := (h.queued (u,d) List.mem_cons_self).2
  cases exists_atDistance_succ hfirst hstep with
  | intro k hk =>
    have hfar : ¬k≤d := fun hle => hfresh (h.seen_of_near hk.2 hle)
    have heq : k=d+1 := by
      omega
    rw [←heq]
    exact hk.2

theorem Searched.see {w : α} (hstep : step u w)
    (hfresh : ¬seen w) (hlimit : d+1=limit) {seen' : α → Prop} (hseen : ∀ v,seen' v ↔ seen v ∨ v=w) :
    Searched step start limit seen' ((u,d)::rest) := by
  have hdist := h.fresh_distance hstep hfresh
  have hnear : ∀ v,seen' v → ∃ k,k≤limit ∧ AtDistance step start k v := by
    intro v hv
    rcases (hseen v).mp hv with hold|hnew
    · exact h.near v hold
    · rw [hnew]
      exact ⟨d+1,le_of_eq hlimit,hdist⟩
  have hclosed : ∀ x k,seen' x → AtDistance step start k x → k<limit → (x,k)∉(u,d)::rest →
      ∀ v,step x v → seen' v := by
    intro x k hx hk hlt hout v hv
    rcases (hseen x).mp hx with hold|hnew
    · exact (hseen v).mpr (Or.inl (h.closed x k hold hk hlt hout v hv))
    · rw [hnew] at hk
      have heq := atDistance_unique hk hdist
      omega
  exact ⟨(hseen start).mpr (Or.inl h.begun),fun entry hentry =>
    ⟨(hseen _).mpr (Or.inl (h.queued entry hentry).1),(h.queued entry hentry).2⟩,hnear,h.ordered,h.distinct,hclosed⟩

theorem Searched.push {w : α} (hstep : step u w)
    (hfresh : ¬seen w) (hlimit : d<limit) {seen' : α → Prop} (hseen : ∀ v,seen' v ↔ seen v ∨ v=w) :
    Searched step start limit seen' ((u,d)::rest++[(w,d+1)]) := by
  have hdist := h.fresh_distance hstep hfresh
  have hqueued : ∀ entry∈(u,d)::rest++[(w,d+1)],seen' entry.1 ∧ AtDistance step start entry.2 entry.1 := by
    intro entry hentry
    rcases List.mem_append.mp hentry with hold|hnew
    · exact ⟨(hseen _).mpr (Or.inl (h.queued entry hold).1),(h.queued entry hold).2⟩
    · rw [List.mem_singleton.mp hnew]
      exact ⟨(hseen w).mpr (Or.inr rfl),hdist⟩
  have hnear : ∀ v,seen' v → ∃ k,k≤limit ∧ AtDistance step start k v := by
    intro v hv
    rcases (hseen v).mp hv with hold|hnew
    · exact h.near v hold
    · rw [hnew]
      exact ⟨d+1,hlimit,hdist⟩
  have hordered : ((u,d)::rest++[(w,d+1)]).Pairwise fun a b => a.2≤b.2 ∧ b.2≤a.2+1 := by
    refine List.pairwise_append.mpr ⟨h.ordered,List.pairwise_singleton _ _,fun a ha b hb => ?_⟩
    rw [List.mem_singleton.mp hb]
    have hbounds := h.first_le ha
    exact ⟨hbounds.2,Nat.succ_le_succ hbounds.1⟩
  have hdistinct : (((u,d)::rest++[(w,d+1)]).map Prod.fst).Nodup := by
    rw [List.map_append,List.nodup_append]
    refine ⟨h.distinct,List.nodup_singleton _,fun x hx y hy heq => ?_⟩
    rw [heq,List.mem_singleton.mp hy] at hx
    cases List.mem_map.mp hx with
    | intro entry hentry => exact hfresh (by rw [←show entry.1=w from hentry.2]; exact (h.queued entry hentry.1).1)
  have hclosed : ∀ x k,seen' x → AtDistance step start k x → k<limit → (x,k)∉(u,d)::rest++[(w,d+1)] →
      ∀ v,step x v → seen' v := by
    intro x k hx hk hlt hout v hv
    rcases (hseen x).mp hx with hold|hnew
    · exact (hseen v).mpr (Or.inl (h.closed x k hold hk hlt
        (fun hin => hout (List.mem_append_left _ hin)) v hv))
    · rw [hnew] at hk hout
      rw [atDistance_unique hk hdist] at hout
      exact absurd (List.mem_append_right _ List.mem_cons_self) hout
  exact ⟨(hseen start).mpr (Or.inl h.begun),hqueued,hnear,hordered,hdistinct,hclosed⟩

/-- Dropping the first of the queue when its successors are seen, or at the limit. -/
theorem Searched.pop (hdone : d<limit → ∀ v,step u v → seen v) : Searched step start limit seen rest := by
  have hclosed : ∀ x k,seen x → AtDistance step start k x → k<limit → (x,k)∉rest → ∀ v,step x v → seen v := by
    intro x k hx hk hlt hout v hv
    by_cases hsame : (x,k)=(u,d)
    · have hx' := congrArg Prod.fst hsame
      have hk' := congrArg Prod.snd hsame
      dsimp only at hx' hk'
      rw [hx'] at hv
      rw [hk'] at hlt
      exact hdone hlt v hv
    · refine h.closed x k hx hk hlt (fun hin => ?_) v hv
      exact (List.mem_cons.mp hin).elim hsame hout
  exact ⟨h.begun,fun entry hentry => h.queued entry (List.mem_cons_of_mem _ hentry),h.near,
    (List.pairwise_cons.mp h.ordered).2,(List.nodup_cons.mp h.distinct).2,hclosed⟩

end Visiting

end Invariant

end Search

section Measure

variable (next : α → List α)

/-- Nodes that a node can lead to within a number of steps, with repetitions. -/
@[grind] def cost : Nat → α → Nat
  | 0,_ => 1
  | n+1,v => 1+((next v).map (cost n)).sum

/-- The same for a queue. -/
@[grind] def queueCost (limit : Nat) (queue : List (α×Nat)) : Nat :=
  (queue.map fun entry => cost next (limit-entry.2) entry.1).sum

variable {next}

theorem cost_pos (n : Nat) (v : α) : 0<cost next n v := by
  cases n with
  | zero => exact Nat.one_pos
  | succ n =>
    rw [cost]
    omega

theorem queueCost_drop (limit : Nat) (entry : α×Nat) (rest : List (α×Nat)) :
    queueCost next limit rest<queueCost next limit (entry::rest) := by
  have hpos : 0<cost next (limit-entry.2) entry.1 := cost_pos _ _
  rw [queueCost,queueCost,List.map_cons,List.sum_cons]
  omega

theorem queueCost_perm {limit : Nat} {queue queue' : List (α×Nat)} (h : queue.Perm queue') :
    queueCost next limit queue=queueCost next limit queue' := (h.map _).sum_eq

/-- Replacing the first of the queue by some of its successors lowers the measure. -/
theorem queueCost_expand {limit d : Nat} (hd : d<limit) (u : α) (rest : List (α×Nat)) {fresh : List α}
    (hfresh : fresh.Sublist (next u)) :
    queueCost next limit (rest++fresh.map fun v => (v,d+1))<queueCost next limit ((u,d)::rest) := by
  have hsum : (fresh.map (cost next (limit-(d+1)))).sum≤((next u).map (cost next (limit-(d+1)))).sum :=
    (hfresh.map _).sum_le_sum fun n _ => Nat.zero_le n
  have hstep : limit-d=(limit-(d+1))+1 := by omega
  have hcost : cost next (limit-d) u=1+((next u).map (cost next (limit-(d+1)))).sum := by rw [hstep,cost]
  have hfront : queueCost next limit (fresh.map fun v => (v,d+1))=(fresh.map (cost next (limit-(d+1)))).sum := by
    rw [queueCost,List.map_map]
    rfl
  have hleft : queueCost next limit (rest++fresh.map fun v => (v,d+1))=
      queueCost next limit rest+queueCost next limit (fresh.map fun v => (v,d+1)) := by
    rw [queueCost,queueCost,queueCost,List.map_append,List.sum_append]
  have hright : queueCost next limit ((u,d)::rest)=cost next (limit-d) u+queueCost next limit rest := by
    rw [queueCost,queueCost,List.map_cons,List.sum_cons]
  rw [hleft,hright,hfront,hcost]
  omega

end Measure

end GraphDbLite.BreadthFirst
