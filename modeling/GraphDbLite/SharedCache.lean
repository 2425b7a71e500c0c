import GraphDbLite.FifoCache
import GraphDbLite.OrderedTable
import Mathlib.Logic.Function.Basic

/-!
# Calls that share a bounded cache

A lock protects a map of values and a queue of its keys. A call looks its key up under
the lock, makes a missing value outside of it, and inserts the value under it again, so
the steps of several calls interleave: two calls may miss one key, and a key may give way
and come back in between. A failure ends the call. The history records what was made and
what was inserted; no step reads it.
-/

namespace GraphDbLite.SharedCache

open OrderedTable FifoCache

variable {ι κ β ε : Type} [LinearOrder κ]

/-- What the lock protects. -/
structure Inner (κ β : Type) [LinearOrder κ] where
  /-- Cached values. -/
  map : Table κ β
  /-- Keys, oldest first. -/
  order : List κ
  /-- Number of values from which the oldest gives way. -/
  capacity : Nat

/-- The oldest key gives way when the map is full. -/
@[grind] def Inner.makeRoom (c : Inner κ β) : Inner κ β :=
  if c.capacity≤(keys c.map).length then
    match c.order with
    | [] => c
    | oldest::rest => {c with map := delete c.map oldest,order := rest}
  else c

/-- Insert a value unless the key has one. -/
@[grind] def Inner.insert (c : Inner κ β) (k : κ) (v : β) : Inner κ β :=
  if contains c.map k=true then c
  else {c.makeRoom with map := put c.makeRoom.map k v,order := c.makeRoom.order++[k]}

section Insertion

variable {c : Inner κ β} {k : κ} {v : β}

/-- Making room in a cache whose queue lists its keys: all keys stay, or the first of the
queue gives way. -/
theorem makeRoom_cases (hperm : c.order.Perm (keys c.map)) (hpos : 0<c.capacity) :
    c.makeRoom=c ∧ c.order.length<c.capacity ∨ c.capacity≤c.order.length ∧ ∃ oldest rest,c.order=oldest::rest ∧
      c.makeRoom={c with map := delete c.map oldest,order := rest} := by
  unfold Inner.makeRoom
  rw [←hperm.length_eq]
  split_ifs with hfull
  · cases horder : c.order with
    | nil =>
      rw [horder] at hfull
      exact absurd hfull (Nat.not_le.mpr hpos)
    | cons oldest rest => exact Or.inr ⟨horder ▸ hfull,oldest,rest,rfl,rfl⟩
  · exact Or.inl ⟨rfl,Nat.not_le.mp hfull⟩

theorem makeRoom_spec (hperm : c.order.Perm (keys c.map)) (hpos : 0<c.capacity)
    (hbound : c.order.length≤c.capacity) :
    c.makeRoom.order.Perm (keys c.makeRoom.map) ∧ c.makeRoom.order.length<c.capacity ∧
      c.makeRoom.order <:+ c.order ∧ c.makeRoom.capacity=c.capacity ∧
      ∀ a w,get c.makeRoom.map a=some w → get c.map a=some w := by
  rcases makeRoom_cases hperm hpos with ⟨hsame,hroom⟩|⟨-,oldest,rest,horder,hmade⟩
  · rw [hsame]
    exact ⟨hperm,hroom,List.suffix_rfl,rfl,fun _ _ h => h⟩
  · rw [horder] at hperm hbound
    have hold : oldest∈keys c.map := hperm.mem_iff.mp List.mem_cons_self
    have hrest := hperm.trans (keys_delete_present hold)
    rw [hmade,horder]
    refine ⟨(List.perm_cons oldest).mp hrest,hbound,List.suffix_cons oldest rest,rfl,fun a w hget => ?_⟩
    rw [get_delete] at hget
    split_ifs at hget
    exact hget

end Insertion

/-- The next step of a call after its lookup, or its outcome. -/
inductive Phase (κ β ε : Type) where
  | build (k : κ)
  | insert (k : κ) (v : β)
  | returned (k : κ) (outcome : Except ε β)

/-- What a call holds for its key. -/
@[grind] def Phase.held : Phase κ β ε → Option (κ×Except ε β)
  | .insert k v => some (k,.ok v)
  | .returned k outcome => some (k,outcome)
  | _ => none

/-- The calls on one cache. -/
structure Calls (ι κ β ε : Type) [LinearOrder κ] where
  /-- The shared cache. -/
  cache : Inner κ β
  /-- Calls that have looked up their key. -/
  phase : ι → Option (Phase κ β ε)
  /-- History of the builds, with the key that each was for. -/
  builds : List (κ×Except ε β)
  /-- History of the inserted keys, oldest first. -/
  inserted : List κ

/-- A value is inserted unless its key has one. -/
@[grind] def Calls.insert (s : Calls ι κ β ε) (k : κ) (v : β) : Calls ι κ β ε :=
  {s with
    cache := s.cache.insert k v,
    inserted := if contains s.cache.map k=true then s.inserted else s.inserted++[k]}

/-- An empty cache before all calls. -/
@[grind] def initial (capacity : Nat) : Calls ι κ β ε := ⟨⟨empty,[],capacity⟩,fun _ => none,[],[]⟩

/-- Steps of the calls, each atomic; a call begins with its lookup. -/
inductive Act (ι κ β ε : Type) where
  | lookup (i : ι) (k : κ)
  | build (i : ι) (outcome : Except ε β)
  | insert (i : ι)

/-- The queue and the map are in step, and all values were made for their keys. -/
structure Inv (bound : Nat) (s : Calls ι κ β ε) : Prop where
  /-- The bound stays. -/
  capacity : s.cache.capacity=bound
  /-- The queue is a permutation of the keys. -/
  perm : s.cache.order.Perm (keys s.cache.map)
  /-- The queue is bounded. -/
  bounded : s.cache.order.length≤bound
  /-- The queue ends the history of insertions. -/
  history : s.cache.order <:+ s.inserted
  /-- Cached values were made for their keys. -/
  stored : ∀ k v,get s.cache.map k=some v → (k,.ok v)∈s.builds
  /-- So were the values that calls hold. -/
  held : ∀ i p r,s.phase i=some p → p.held=some r → r∈s.builds

variable {bound : Nat} {s : Calls ι κ β ε} {k : κ} {v : β}

theorem inv_initial (bound : Nat) : Inv bound (initial bound : Calls ι κ β ε) :=
  ⟨rfl,List.Perm.refl _,Nat.zero_le _,List.suffix_rfl,fun _ _ h => absurd h (by simp [initial]),
    fun _ _ _ h => absurd h (by simp [initial])⟩

theorem Inv.build (h : Inv bound s) (r : κ×Except ε β) : Inv bound {s with builds := s.builds++[r]} :=
  ⟨h.capacity,h.perm,h.bounded,h.history,fun k v hget => List.mem_append_left _ (h.stored k v hget),
    fun i p r hphase hheld => List.mem_append_left _ (h.held i p r hphase hheld)⟩

theorem insert_present (h : k∈keys s.cache.map) (v : β) : s.insert k v=s := by
  rw [Calls.insert,Inner.insert,if_pos (contains_iff.mpr h),if_pos (contains_iff.mpr h)]

theorem insert_fresh (h : k∉keys s.cache.map) (v : β) : s.insert k v={s with
    cache := {s.cache.makeRoom with
      map := put s.cache.makeRoom.map k v,
      order := s.cache.makeRoom.order++[k]},
    inserted := s.inserted++[k]} := by
  have hnone : ¬contains s.cache.map k=true := fun hin => h (contains_iff.mp hin)
  rw [Calls.insert,Inner.insert,if_neg hnone,if_neg hnone]

theorem Inv.insert (h : Inv bound s) (hpos : 0<bound) (hmade : (k,.ok v)∈s.builds) : Inv bound (s.insert k v) := by
  by_cases hin : k∈keys s.cache.map
  · rw [insert_present hin]
    exact h
  · have hcap := h.capacity
    have hbounded := h.bounded
    have ⟨hperm,hroom,hsuffix,hsame,hkept⟩ := makeRoom_spec h.perm (by omega) (by omega)
    have hfresh : k∉keys s.cache.makeRoom.map := fun hk => by
      have ⟨w,hget⟩ := mem_keys.mp hk
      exact hin (mem_keys.mpr ⟨w,hkept k w hget⟩)
    rw [insert_fresh hin]
    refine ⟨hsame.trans hcap,?_,?_,?_,fun a w hget => ?_,h.held⟩
    · exact (List.perm_append_singleton k _).trans ((hperm.cons k).trans (keys_put_fresh hfresh).symm)
    · rw [List.length_append]
      exact hcap ▸ hroom
    · have ⟨front,hfront⟩ := hsuffix.trans h.history
      exact ⟨front,by rw [←hfront,List.append_assoc]⟩
    · rw [get_put] at hget
      split_ifs at hget with heq
      · rw [heq,←Option.some.inj hget]
        exact hmade
      · exact h.stored a w (hkept a w hget)

section Entries

variable {c : Inner κ β}

/-- Keys of a queue with their values. -/
@[grind] def entriesOf (m : Table κ β) (order : List κ) : List (κ×β) := order.filterMap fun k => (get m k).map (Prod.mk k)

/-- The cache as the entries of its queue. -/
@[grind] def Inner.fifo (c : Inner κ β) : Fifo κ β := ⟨entriesOf c.map c.order,c.capacity⟩

theorem fst_fifo (hperm : c.order.Perm (keys c.map)) : c.fifo.entries.map Prod.fst=c.order := by
  unfold Inner.fifo entriesOf
  rw [List.map_filterMap]
  refine (List.filterMap_congr fun a ha => ?_).trans List.filterMap_some
  have ⟨w,hget⟩ := mem_keys.mp (hperm.mem_iff.mp ha)
  rw [hget]
  rfl

theorem get_fifo (hperm : c.order.Perm (keys c.map)) (k : κ) : c.fifo.get k=get c.map k := by
  cases hfifo : c.fifo.get k with
  | some w =>
    have ⟨a,_,hentry⟩ := List.mem_filterMap.mp (Fifo.mem_of_get hfifo)
    have ⟨u,hget,heq⟩ := Option.map_eq_some_iff.mp hentry
    rw [←(Prod.mk.inj heq).1,←(Prod.mk.inj heq).2,hget]
  | none =>
    have hnone := List.find?_eq_none.mp (Option.map_eq_none_iff.mp hfifo)
    refine (get_eq_none.mpr fun hk => ?_).symm
    rw [←hperm.mem_iff,←fst_fifo hperm] at hk
    have ⟨entry,hentry,hkey⟩ := List.mem_map.mp hk
    exact hnone entry hentry (decide_eq_true hkey)

theorem entriesOf_congr {m m' : Table κ β} {order : List κ} (h : ∀ a∈order,get m a=get m' a) :
    entriesOf m order=entriesOf m' order := List.filterMap_congr fun a ha => by rw [h a ha]

theorem entriesOf_put {m : Table κ β} {order : List κ} (h : k∉order) (v : β) :
    entriesOf (put m k v) (order++[k])=entriesOf m order++[(k,v)] := by
  have hold : entriesOf (put m k v) order=entriesOf m order :=
    entriesOf_congr fun a ha => get_put_ne fun heq => h (heq ▸ ha)
  rw [←hold]
  unfold entriesOf
  rw [List.filterMap_append,List.filterMap_cons,get_put_self]
  rfl

theorem fifo_insert (h : Inv bound s) (hpos : 0<bound) (k : κ) (v : β) :
    (s.insert k v).cache.fifo=s.cache.fifo.insert k v := by
  have hlength : s.cache.fifo.entries.length=s.cache.order.length := by
    rw [←fst_fifo h.perm,List.length_map]
  have hkept : (s.cache.fifo.get k).isSome=true ↔ k∈keys s.cache.map := by
    rw [get_fifo h.perm]
    exact contains_iff
  have hcap := h.capacity
  by_cases hin : k∈keys s.cache.map
  · rw [insert_present hin,Fifo.insert,if_pos (hkept.mpr hin)]
  · have hout : k∉s.cache.order := fun hk => hin (h.perm.mem_iff.mp hk)
    rw [insert_fresh hin,Fifo.insert,if_neg fun hsome => hin (hkept.mp hsome),hlength]
    unfold Inner.fifo
    rcases makeRoom_cases h.perm (by omega) with ⟨hsame,hroom⟩|⟨hfull,oldest,rest,horder,hmade⟩
    · rw [if_neg (Nat.not_le.mpr hroom),hsame,entriesOf_put hout]
    · have hnodup := h.perm.nodup_iff.mpr (keys_nodup _)
      have ⟨w,hget⟩ := mem_keys.mp (h.perm.mem_iff.mp (horder ▸ List.mem_cons_self))
      rw [horder] at hout hnodup
      have hrest : entriesOf (delete s.cache.map oldest) rest=entriesOf s.cache.map rest :=
        entriesOf_congr fun a ha => get_delete_ne fun heq => (List.nodup_cons.mp hnodup).1 (heq ▸ ha)
      have htail : (entriesOf s.cache.map (oldest::rest)).tail=entriesOf s.cache.map rest := by
        unfold entriesOf
        rw [List.filterMap_cons,hget]
        rfl
      rw [if_pos hfull,hmade,entriesOf_put fun hk => hout (List.mem_cons_of_mem oldest hk),hrest,horder,htail]

end Entries

variable [DecidableEq ι]

/-- A call goes on. -/
@[grind] def Calls.goOn (s : Calls ι κ β ε) (i : ι) (p : Phase κ β ε) : Calls ι κ β ε :=
  {s with phase := Function.update s.phase i (some p)}

theorem goOn_phase (s : Calls ι κ β ε) (i : ι) (p : Phase κ β ε) : (s.goOn i p).phase i=some p := by
  simp [Calls.goOn]

/-- One step of one call, where it is the next. -/
@[grind] def step (s : Calls ι κ β ε) : Act ι κ β ε → Option (Calls ι κ β ε)
  | .lookup i k =>
    match s.phase i,get s.cache.map k with
    | none,some v => some (s.goOn i (.returned k (.ok v)))
    | none,none => some (s.goOn i (.build k))
    | some _,_ => none
  | .build i outcome =>
    match s.phase i with
    | some (.build k) =>
      match outcome with
      | .ok v => some (Calls.goOn {s with builds := s.builds++[(k,.ok v)]} i (.insert k v))
      | .error e => some (Calls.goOn {s with builds := s.builds++[(k,.error e)]} i (.returned k (.error e)))
    | _ => none
  | .insert i =>
    match s.phase i with
    | some (.insert k v) =>
      some ((s.insert k v).goOn i (.returned k (.ok v)))
    | _ => none

/-- A run of steps in any order. -/
@[grind] def run (s : Calls ι κ β ε) (acts : List (Act ι κ β ε)) : Option (Calls ι κ β ε) := acts.foldlM step s

/-- Whether a key was inserted before all the others of a list. -/
@[grind] def Oldest (inserted : List κ) (k : κ) (others : List κ) : Prop :=
  ∃ earlier later,inserted=earlier++k::later ∧ k∉later ∧ ∀ other∈others,other≠k → other∈later

/-- A cache of bounded size that holds and returns what was made for its keys. -/
structure Sound (bound : Nat) (s : Calls ι κ β ε) : Prop where
  /-- The queue lists the keys of the map. -/
  queue : ∀ k,k∈s.cache.order ↔ k∈keys s.cache.map
  /-- The queue lists a key once. -/
  once : s.cache.order.Nodup
  /-- The map is bounded. -/
  bounded : (keys s.cache.map).length≤bound
  /-- A returned value was made for its key. -/
  returned : ∀ i k v,s.phase i=some (.returned k (.ok v)) → (k,.ok v)∈s.builds
  /-- A failed build ends its call and leaves the cache. -/
  failed : ∀ i e s',step s (.build i (.error e))=some s' →
    s'.cache=s.cache ∧ ∃ k,s'.phase i=some (.returned k (.error e))
  /-- The key that gives way was inserted before the others. -/
  evicted : ∀ a s',step s a=some s' → ∀ k∈keys s.cache.map,k∉keys s'.cache.map →
    Oldest s.inserted k (keys s.cache.map)

section Runs

variable {s' : Calls ι κ β ε} {a : Act ι κ β ε} {p : Phase κ β ε}

/-- What one step does: a call goes on, finds a value, makes one or inserts it. -/
theorem step_cases (h : step s a=some s') :
    (∃ i p,p.held=none ∧ s'=s.goOn i p) ∨
    (∃ i k v,get s.cache.map k=some v ∧ s'=s.goOn i (.returned k (.ok v))) ∨
    (∃ i p r,p.held=some r ∧ s'=Calls.goOn {s with builds := s.builds++[r]} i p) ∨
    ∃ i k v,s.phase i=some (.insert k v) ∧ s'=(s.insert k v).goOn i (.returned k (.ok v)) := by
  cases a with
  | lookup i k =>
    dsimp only [step] at h
    split at h
    · exact Or.inr (Or.inl ⟨i,k,_,by assumption,(Option.some.inj h).symm⟩)
    · exact Or.inl ⟨i,_,rfl,(Option.some.inj h).symm⟩
    · cases h
  | build i outcome =>
    dsimp only [step] at h
    split at h
    · split at h
      · exact Or.inr (Or.inr (Or.inl ⟨i,_,_,rfl,(Option.some.inj h).symm⟩))
      · exact Or.inr (Or.inr (Or.inl ⟨i,_,_,rfl,(Option.some.inj h).symm⟩))
    · cases h
  | insert i =>
    dsimp only [step] at h
    split at h
    · exact Or.inr (Or.inr (Or.inr ⟨i,_,_,by assumption,(Option.some.inj h).symm⟩))
    · cases h

theorem Inv.goOn (h : Inv bound s) (i : ι) (hp : ∀ r,p.held=some r → r∈s.builds) : Inv bound (s.goOn i p) := by
  refine ⟨h.capacity,h.perm,h.bounded,h.history,h.stored,fun j q r hphase hheld => ?_⟩
  unfold Calls.goOn at hphase
  dsimp only at hphase
  rw [Function.update_apply] at hphase
  split_ifs at hphase
  · rw [←Option.some.inj hphase] at hheld
    exact hp r hheld
  · exact h.held j q r hphase hheld

theorem Inv.step (h : Inv bound s) (hpos : 0<bound) (hstep : step s a=some s') : Inv bound s' := by
  rcases step_cases hstep with ⟨i,p,hp,rfl⟩|⟨i,k,v,hget,rfl⟩|⟨i,p,r,hp,rfl⟩|⟨i,k,v,hphase,rfl⟩
  · refine h.goOn i fun r hr => ?_
    rw [hp] at hr
    cases hr
  · refine h.goOn i fun r hr => ?_
    rw [←Option.some.inj hr]
    exact h.stored k v hget
  · refine (h.build r).goOn i fun r' hr => ?_
    rw [hp] at hr
    rw [←Option.some.inj hr]
    exact List.mem_append_right _ List.mem_cons_self
  · have hmade := h.held i _ _ hphase rfl
    refine (h.insert hpos hmade).goOn i fun r hr => ?_
    rw [←Option.some.inj hr]
    exact hmade

theorem Inv.run (hpos : 0<bound) (acts : List (Act ι κ β ε)) (h : Inv bound s) (hrun : run s acts=some s') :
    Inv bound s' := by
  induction acts generalizing s with
  | nil => exact Option.some.inj hrun ▸ h
  | cons a rest ih =>
    have ⟨mid,hstep,hrest⟩ := Option.bind_eq_some_iff.mp hrun
    exact ih (h.step hpos hstep) hrest

theorem Inv.evicted (h : Inv bound s) (hpos : 0<bound) (hstep : SharedCache.step s a=some s') {gone : κ}
    (hin : gone∈keys s.cache.map) (hout : gone∉keys s'.cache.map) : Oldest s.inserted gone (keys s.cache.map) := by
  have hcap := h.capacity
  rcases step_cases hstep with ⟨i,p,-,rfl⟩|⟨i,k,v,-,rfl⟩|⟨i,p,r,-,rfl⟩|⟨i,k,v,-,rfl⟩
  · exact absurd hin hout
  · exact absurd hin hout
  · exact absurd hin hout
  · change gone∉keys (s.insert k v).cache.map at hout
    by_cases hk : k∈keys s.cache.map
    · rw [insert_present hk] at hout
      exact absurd hin hout
    · rw [insert_fresh hk,mem_keys_put,not_or] at hout
      rcases makeRoom_cases h.perm (by omega) with ⟨hsame,-⟩|⟨-,oldest,rest,horder,hmade⟩
      · rw [hsame] at hout
        exact absurd hin hout.2
      · rw [hmade,mem_keys_delete] at hout
        have hgone : gone=oldest := by
          by_contra hne
          exact hout.2 ⟨hne,hin⟩
        have ⟨front,hfront⟩ := h.history
        have hnodup := h.perm.nodup_iff.mpr (keys_nodup s.cache.map)
        rw [horder] at hfront hnodup
        refine ⟨front,rest,by rw [←hfront,hgone],hgone ▸ (List.nodup_cons.mp hnodup).1,fun other hother hne => ?_⟩
        have hmem := h.perm.mem_iff.mpr hother
        rw [horder] at hmem
        exact (List.mem_cons.mp hmem).resolve_left fun heq => hne (heq.trans hgone.symm)

theorem step_build_error {i : ι} {e : ε} (hstep : step s (.build i (.error e))=some s') :
    s'.cache=s.cache ∧ ∃ k,s'.phase i=some (.returned k (.error e)) := by
  dsimp only [step] at hstep
  split at hstep
  · rw [←Option.some.inj hstep]
    exact ⟨rfl,_,goOn_phase _ i _⟩
  · cases hstep

theorem sound_run (hpos : 0<bound) (acts : List (Act ι κ β ε)) (hrun : run (initial bound) acts=some s) :
    Sound bound s := by
  have h := Inv.run hpos acts (inv_initial bound) hrun
  exact ⟨fun k => h.perm.mem_iff,h.perm.nodup_iff.mpr (keys_nodup _),h.perm.length_eq ▸ h.bounded,
    fun i k v hphase => h.held i _ _ hphase rfl,fun i e s' hstep => step_build_error hstep,
    fun a s' hstep k hin hout => h.evicted hpos hstep hin hout⟩

theorem run_cons {acts : List (Act ι κ β ε)} (h : step s a=some s') :
    run s (a::acts)=run s' acts := by
  rw [run,List.foldlM_cons,h]
  rfl

/-- A call whose steps follow each other looks its key up or makes and inserts the value. -/
theorem run_alone {i : ι} (h : Inv bound s) (hpos : 0<bound) (hnew : s.phase i=none) (k : κ) (made : Except ε β) :
    ∃ acts s',run s (.lookup i k::acts)=some s' ∧ acts <+: [.build i made,.insert i] ∧
      s'.phase i=some (.returned k (s.cache.fifo.getOrMake k made).1) ∧
      s'.cache.fifo=(s.cache.fifo.getOrMake k made).2 := by
  unfold Fifo.getOrMake
  rw [get_fifo h.perm]
  cases hget : get s.cache.map k with
  | some v =>
    refine ⟨[],s.goOn i (.returned k (.ok v)),?_,List.nil_prefix,goOn_phase s i _,rfl⟩
    rw [run_cons (by rw [step,hnew,hget])]
    rfl
  | none =>
    let s₁ := fun outcome => ({s.goOn i (.build k) with builds := s.builds++[(k,outcome)]} : Calls ι κ β ε)
    cases made with
    | error e =>
      refine ⟨[.build i (.error e)],(s₁ (.error e)).goOn i (.returned k (.error e)),?_,⟨[.insert i],rfl⟩,goOn_phase _ i _,rfl⟩
      rw [run_cons (by rw [step,hnew,hget]),run_cons (by rw [step,goOn_phase])]
      rfl
    | ok v =>
      refine ⟨[.build i (.ok v),.insert i],(((s₁ (.ok v)).goOn i (.insert k v)).insert k v).goOn i (.returned k (.ok v)),
        ?_,List.prefix_rfl,goOn_phase _ i _,fifo_insert h hpos k v⟩
      rw [run_cons (by rw [step,hnew,hget]),run_cons (by rw [step,goOn_phase]),run_cons (by rw [step,goOn_phase])]
      rfl

end Runs

end GraphDbLite.SharedCache
