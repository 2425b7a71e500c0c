import GraphDbLite.NodeRecords
import GraphDbLite.ValueEquality

/-!
# Fields of a record and the copies of properties

The names of the fields of a record are distinct, and writing or removing a
field keeps them so. Removing puts the last field in the place of the removed
one and hides exactly its name. After a property was written the record has the
stored value under the dotted name, or no field when the property is gone, and
after a property map was replaced it has the new value under every dotted name
of the old and of the new map.
-/

namespace GraphDbLite.RecordFields

open GraphTypes WriteOperators QueryExecutor NodeRecords NodeStorage ValueEquality

/-- A map or a record whose names are distinct. -/
def DistinctNames (fields : List (String×Value)) : Prop := (fields.map Prod.fst).Nodup

variable {fields entries : List (String×Value)} {key var name p : String} {value : Value}
  {check : Value → Result Unit} {merge : Bool} {props new old : Properties}

theorem getProp_of_distinct (h : DistinctNames fields) (hmem : (key,value)∈fields) :
    getProp fields key=some value := getProp_of_nodup h hmem

theorem getProp_congr {other : List (String×Value)} (h : DistinctNames fields)
    (hsame : ∀ value,(key,value)∈fields ↔ (key,value)∈other) : getProp fields key=getProp other key := by
  cases hget : getProp other key with
  | some value => exact getProp_of_distinct h ((hsame value).mpr (mem_of_getProp hget))
  | none =>
    cases hfields : getProp fields key with
    | none => rfl
    | some value =>
      have hmem := (hsame value).mp (mem_of_getProp hfields)
      exact absurd hmem (not_mem_of_getProp_none hget value)

theorem DistinctNames.filter (h : DistinctNames fields) (keep : String×Value → Bool) :
    DistinctNames (fields.filter keep) :=
  h.sublist (List.filter_sublist.map Prod.fst)

variable {props : Properties} {rec : NamedRecord}

theorem DistinctNames.removeProp (h : DistinctNames props) (key : String) : DistinctNames (removeProp props key) := h.filter _

theorem DistinctNames.insertProp (h : DistinctNames props) (key : String) (value : Value) :
    DistinctNames (insertProp props key value) := by
  have hfresh : key∉(props.filter fun entry => entry.1≠key).map Prod.fst := by
    intro hin
    have ⟨entry,hentry,hkey⟩ := List.mem_map.mp hin
    have hne := (List.mem_filter.mp hentry).2
    simp [hkey] at hne
  exact List.nodup_cons.mpr ⟨hfresh,h.filter _⟩

theorem DistinctNames.withProperty (h : DistinctNames props) (key : String) (value : Value) :
    DistinctNames (withProperty props key value) := by
  unfold NodeStorage.withProperty
  split_ifs
  · exact h.removeProp key
  · exact h.insertProp key value

theorem DistinctNames.overlay (h : DistinctNames props)
    (hrun : overlayEntries check merge props entries=.ok new) : DistinctNames new := by
  induction entries generalizing props with
  | nil =>
    rw [←Except.ok.inj hrun]
    exact h
  | cons entry rest ih =>
    rw [overlayEntries] at hrun
    split_ifs at hrun
    · exact ih (h.removeProp entry.1) hrun
    · exact ih h hrun
    · cases hcheck : check entry.2 with
      | error e =>
        rw [hcheck] at hrun
        cases hrun
      | ok u =>
        rw [hcheck] at hrun
        exact ih (h.insertProp entry.1 entry.2) hrun

theorem overlayEntries_unchecked (hrun : overlayEntries check merge props entries=.ok new) :
    overlayEntries (fun _ => .ok ()) merge props entries=.ok new := by
  induction entries generalizing props with
  | nil => exact hrun
  | cons entry rest ih =>
    rw [overlayEntries] at hrun ⊢
    split_ifs at hrun ⊢
    · exact ih hrun
    · exact ih hrun
    · cases hcheck : check entry.2 with
      | error e =>
        rw [hcheck] at hrun
        cases hrun
      | ok u =>
        rw [hcheck] at hrun
        exact ih hrun

theorem distinct_set (h : DistinctNames rec.fields) (key : String) (value : Value) :
    DistinctNames (rec.set key value).fields := by
  unfold NamedRecord.set
  by_cases hpresent : (rec.get key).isSome=true
  · rw [if_pos hpresent]
    have hnames : (rec.fields.map fun field => if field.1=key then (key,value) else field).map Prod.fst=
        rec.fields.map Prod.fst := by
      rw [List.map_map]
      refine List.map_congr_left fun field _ => ?_
      dsimp only [Function.comp_apply]
      split_ifs with hkey
      · exact hkey.symm
      · rfl
    unfold DistinctNames
    dsimp only
    rw [hnames]
    exact h
  · rw [if_neg hpresent]
    have hnone : rec.get key=none := by simpa using hpresent
    unfold DistinctNames
    dsimp only
    rw [List.map_append]
    refine List.nodup_append.mpr ⟨h,List.nodup_singleton _,fun a ha b hb => ?_⟩
    have hb' : b=key := by simpa using hb
    rw [hb']
    intro heq
    have ⟨field,hfield,hname⟩ := List.mem_map.mp ha
    have hpair : field=(key,field.2) := Prod.ext (hname.trans heq) rfl
    exact not_mem_of_getProp_none hnone field.2 (hpair ▸ hfield)

/-- Putting the last entry in the place of one and shortening removes that one. -/
theorem swapRemove_perm {α : Type} (front back : List α) (a last : α)
    (hlast : (front++a::back).getLast?=some last) :
    ((front++a::back).set front.length last).dropLast.Perm (front++back) := by
  have hset : (front++a::back).set front.length last=front++last::back := by simp
  rw [hset]
  cases back using List.reverseRecOn with
  | nil =>
    rw [List.dropLast_concat,List.append_nil]
  | append_singleton mid l =>
    have hend : front++a::(mid++[l])=(front++a::mid)++[l] := by simp
    have hl : l=last := by
      rw [hend,List.getLast?_append_of_ne_nil _ (List.cons_ne_nil l [])] at hlast
      exact Option.some.inj hlast
    have hdrop : (front++last::(mid++[l])).dropLast=front++last::mid := by
      have hsplit : front++last::(mid++[l])=(front++last::mid)++[l] := by simp
      rw [hsplit,List.dropLast_concat]
    rw [hdrop,hl]
    exact List.Perm.append_left front (List.perm_append_singleton last mid).symm

section Removing

variable (h : DistinctNames rec.fields)

include h

theorem remove_perm (key : String) :
    (rec.remove key).fields.Perm (rec.fields.filter fun field => field.1≠key) := by
  have ⟨fields⟩ := rec
  unfold NamedRecord.remove
  dsimp only at h ⊢
  cases hfind : fields.findIdx? (fun field => field.1=key) with
  | none =>
    have hnone := List.findIdx?_eq_none_iff.mp hfind
    have hall : fields.filter (fun field => field.1≠key)=fields := by
      refine List.filter_eq_self.mpr fun field hfield => ?_
      have hne := hnone field hfield
      simpa using hne
    dsimp only
    rw [hall]
  | some i =>
    have ⟨hlt,hkey,_⟩ := List.findIdx?_eq_some_iff_getElem.mp hfind
    have hsplit : fields=fields.take i++fields[i]::fields.drop (i+1) := by simp
    have hlength : (fields.take i).length=i := List.length_take_of_le hlt.le
    have hname : fields[i].1=key := by simpa using hkey
    have hnodup := h
    rw [DistinctNames,hsplit,List.map_append,List.map_cons] at hnodup
    have ⟨_,hback,happart⟩ := List.nodup_append.mp hnodup
    have hfront : (fields.take i).filter (fun field => field.1≠key)=fields.take i := by
      refine List.filter_eq_self.mpr fun field hfield => ?_
      have hne := happart field.1 (List.mem_map_of_mem hfield) fields[i].1 List.mem_cons_self
      rw [hname] at hne
      simpa using hne
    have hrest : (fields.drop (i+1)).filter (fun field => field.1≠key)=fields.drop (i+1) := by
      refine List.filter_eq_self.mpr fun field hfield => ?_
      have hne : field.1≠key := fun heq =>
        (List.nodup_cons.mp hback).1 (hname ▸ heq ▸ List.mem_map_of_mem hfield)
      simpa using hne
    have hfilter : fields.filter (fun field => field.1≠key)=fields.take i++fields.drop (i+1) := by
      rw [hsplit,List.filter_append,List.filter_cons_of_neg (by simpa using hname)]
      rw [←hsplit,hfront,hrest]
    cases hlast : fields.getLast? with
    | none =>
      rw [List.getLast?_eq_none_iff.mp hlast] at hlt
      cases hlt
    | some last =>
      dsimp only
      rw [hfilter]
      have hswap := swapRemove_perm (fields.take i) (fields.drop (i+1)) fields[i] last (hsplit ▸ hlast)
      rw [hlength,←hsplit] at hswap
      exact hswap

theorem distinct_remove (key : String) : DistinctNames (rec.remove key).fields :=
  ((remove_perm h key).map Prod.fst).nodup_iff.mpr (h.filter _)

theorem get_remove (key name : String) :
    (rec.remove key).get name=if name=key then none else rec.get name := by
  have hread : getProp (rec.remove key).fields name=getProp (removeProp rec.fields key) name :=
    getProp_congr (distinct_remove h key) fun value => (remove_perm h key).mem_iff
  exact hread.trans (getProp_removeProp rec.fields key name)

theorem distinct_foldl_remove (var : String) (props : Properties) :
    DistinctNames (props.foldl (fun rec entry => rec.remove (var++("."++entry.1))) rec).fields := by
  induction props generalizing rec with
  | nil => exact h
  | cons entry rest ih => exact ih (distinct_remove h _)

theorem distinct_foldl_set (var : String) (props : Properties) :
    DistinctNames (props.foldl (fun rec entry => rec.set (var++("."++entry.1)) entry.2) rec).fields := by
  induction props generalizing rec with
  | nil => exact h
  | cons entry rest ih => exact ih (distinct_set h _ _)

theorem get_foldl_remove (var : String) (props : Properties) (name : String) :
    (props.foldl (fun rec entry => rec.remove (var++("."++entry.1))) rec).get name= if name∈props.map
    (fun entry => var++("."++entry.1)) then none else rec.get name := by
  induction props generalizing rec with
  | nil => simp
  | cons entry rest ih =>
    rw [List.foldl_cons,ih (distinct_remove h _),get_remove h]
    by_cases hrest : name∈rest.map (fun entry => var++("."++entry.1))
    · have hin : name∈(entry::rest).map (fun entry => var++("."++entry.1)) :=
        List.mem_cons_of_mem _ hrest
      rw [if_pos hrest,if_pos hin]
    · rw [if_neg hrest]
      by_cases hhead : name=var++("."++entry.1)
      · have hin : name∈(entry::rest).map (fun entry => var++("."++entry.1)) := by
          rw [hhead]
          exact List.mem_cons_self
        rw [if_pos hhead,if_pos hin]
      · have hout : name∉(entry::rest).map (fun entry => var++("."++entry.1)) := fun hin =>
          (List.mem_cons.mp hin).elim hhead hrest
        rw [if_neg hhead,if_neg hout]

end Removing

theorem get_foldl_set_other (h : name∉props.map (fun entry => var++("."++entry.1))) :
    (props.foldl (fun rec entry => rec.set (var++("."++entry.1)) entry.2) rec).get name=rec.get name := by
  induction props generalizing rec with
  | nil => rfl
  | cons entry rest ih =>
    have hhead : name≠var++("."++entry.1) := fun heq => h (heq ▸ List.mem_cons_self)
    rw [List.foldl_cons,ih fun hin => h (List.mem_cons_of_mem _ hin),get_set_ne hhead]

theorem get_foldl_set (hprops : DistinctNames props) (hmem : (p,value)∈props) :
    (props.foldl (fun rec entry => rec.set (var++("."++entry.1)) entry.2) rec).get (var++("."++p))= some value := by
  induction props generalizing rec with
  | nil => exact absurd hmem List.not_mem_nil
  | cons entry rest ih =>
    have ⟨hfresh,hrest⟩ := List.nodup_cons.mp hprops
    rw [List.foldl_cons]
    rcases List.mem_cons.mp hmem with hhead|htail
    · have hout : var++("."++p)∉rest.map (fun entry => var++("."++entry.1)) := by
        intro hin
        have ⟨other,hother,hname⟩ := List.mem_map.mp hin
        have hsame : other.1=p := dotted_inj.mp hname
        have hkey : entry.1=p := congrArg Prod.fst hhead.symm
        exact hfresh (List.mem_map.mpr ⟨other,hother,hsame.trans hkey.symm⟩)
      rw [get_foldl_set_other hout,←hhead,get_set_self]
    · exact ih hrest htail

section Showing

variable (h : DistinctNames rec.fields)

include h

theorem get_showProperty (var property : String) (val : Value) (name : String) :
    (showProperty rec var property val).get name= if name=var++("."++property) then
    (if val.isNull=true then none else some val) else rec.get name := by
  unfold showProperty
  split_ifs with hnull hname hname
  · rw [get_remove h,if_pos hname]
  · rw [get_remove h,if_neg hname]
  · rw [get_set,if_pos hname]
  · rw [get_set,if_neg hname]

/-- A record after the property map of a variable was replaced: names of either
map show the new map. -/
theorem get_showProperties (hnew : DistinctNames new)
    (hp : p∈old.map Prod.fst++new.map Prod.fst) : (showProperties rec var old new).get (var++("."++p))=getProp new p := by
  unfold showProperties
  cases hget : getProp new p with
  | some value => exact get_foldl_set hnew (mem_of_getProp hget)
  | none =>
    have habsent : p∉new.map Prod.fst := by
      intro hin
      have ⟨entry,hentry,hname⟩ := List.mem_map.mp hin
      have hpair : entry=(p,entry.2) := Prod.ext hname rfl
      exact not_mem_of_getProp_none hget entry.2 (hpair ▸ hentry)
    have hold : p∈old.map Prod.fst := (List.mem_append.mp hp).resolve_right habsent
    have hdotted : ∀ props : Properties,
        var++("."++p)∈props.map (fun entry => var++("."++entry.1)) ↔ p∈props.map Prod.fst := by
      intro props
      constructor
      · intro hin
        have ⟨entry,hentry,hname⟩ := List.mem_map.mp hin
        exact List.mem_map.mpr ⟨entry,hentry,dotted_inj.mp hname⟩
      · intro hin
        have ⟨entry,hentry,hname⟩ := List.mem_map.mp hin
        exact List.mem_map.mpr ⟨entry,hentry,dotted_inj.mpr hname⟩
    rw [get_foldl_set_other (mt (hdotted new).mp habsent),get_foldl_remove h,
      if_pos ((hdotted old).mpr hold)]

theorem get_showProperties_other (hname : ∀ p∈old.map Prod.fst++new.map Prod.fst,name≠var++("."++p)) :
    (showProperties rec var old new).get name=rec.get name := by
  have hout : ∀ props : Properties,(∀ p∈props.map Prod.fst,name≠var++("."++p)) →
      name∉props.map (fun entry => var++("."++entry.1)) := by
    intro props hall hin
    have ⟨entry,hentry,heq⟩ := List.mem_map.mp hin
    exact hall entry.1 (List.mem_map_of_mem hentry) heq.symm
  have hold := hout old fun p hp => hname p (List.mem_append_left _ hp)
  have hnew := hout new fun p hp => hname p (List.mem_append_right _ hp)
  rw [showProperties,get_foldl_set_other hnew,get_foldl_remove h,if_neg hold]

theorem distinct_showProperty (var property : String) (val : Value) :
    DistinctNames (showProperty rec var property val).fields := by
  unfold showProperty
  split_ifs
  · exact distinct_remove h _
  · exact distinct_set h _ _

theorem distinct_showProperties (var : String) (old new : Properties) :
    DistinctNames (showProperties rec var old new).fields :=
  distinct_foldl_set (distinct_foldl_remove h var old) var new

theorem distinct_populateNodeBindings (n : Node) (nodeAlias : String) :
    DistinctNames (populateNodeBindings rec n nodeAlias).fields := by
  have hprops : ∀ (props : Properties) {rec : NamedRecord},DistinctNames rec.fields →
      DistinctNames (bindProperties rec nodeAlias props).fields := by
    intro props rec hrec
    induction props with
    | nil => exact hrec
    | cons entry rest ih => exact distinct_set ih _ _
  unfold populateNodeBindings
  exact distinct_set (distinct_set (distinct_set (hprops n.properties (distinct_set h _ _)) _ _) _ _) _ _

end Showing

end GraphDbLite.RecordFields
