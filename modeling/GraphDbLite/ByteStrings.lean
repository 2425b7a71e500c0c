import Mathlib.Data.List.Lex
import Mathlib.Order.Lattice
import Mathlib.Tactic.Linarith

/-!
# Byte strings, their order and fixed-width words

Bytes and 64-bit words are linearly ordered, and byte strings carry the
lexicographic order in which a blob column is compared. The extensions of a
prefix form a half-open range of that order. Words are written big-endian in
eight bytes and read back exactly. Text is compared through its UTF-8 bytes, and
is cut at a literal front or at the separators of a join.
-/

namespace GraphDbLite.ByteStrings

/-- Bytes in numerical order. -/
instance byteOrder : LinearOrder UInt8 where
  le_refl := UInt8.le_refl
  le_trans _ _ _ := UInt8.le_trans
  le_antisymm _ _ := UInt8.le_antisymm
  le_total := UInt8.le_total
  lt_iff_le_not_ge a b := by
    rw [UInt8.le_iff_toNat_le,UInt8.le_iff_toNat_le,UInt8.lt_iff_toNat_lt]
    omega
  toDecidableLE := inferInstance
  toDecidableEq := inferInstance
  toDecidableLT := inferInstance

/-- Words in numerical order. -/
instance wordOrder : LinearOrder UInt64 where
  le_refl := UInt64.le_refl
  le_trans _ _ _ := UInt64.le_trans
  le_antisymm _ _ := UInt64.le_antisymm
  le_total := UInt64.le_total
  lt_iff_le_not_ge a b := by
    rw [UInt64.le_iff_toNat_le,UInt64.le_iff_toNat_le,UInt64.lt_iff_toNat_lt]
    omega
  toDecidableLE := inferInstance
  toDecidableEq := inferInstance
  toDecidableLT := inferInstance

/-- A blob, compared lexicographically. -/
abbrev Bytes := List UInt8

/-- Least byte string above every extension of a prefix; there is none when
all bytes of the prefix are 255. -/
@[grind] def rangeEnd : Bytes → Option Bytes
  | [] => none
  | b::p =>
    match rangeEnd p with
    | some u => some (b::u)
    | none => if b<255 then some [b+1] else none

theorem lt_succ_iff {b c : UInt8} (h : b<255) : c<b+1 ↔ c≤b := by
  rw [UInt8.lt_iff_toNat_lt] at h ⊢
  rw [UInt8.le_iff_toNat_le,UInt8.toNat_add]
  have h255 : (255 : UInt8).toNat=255 := rfl
  have h1 : (1 : UInt8).toNat=1 := rfl
  rw [h255] at h
  rw [h1]
  omega

theorem eq_max_of_not_lt {b : UInt8} (h : ¬b<255) : b=255 := by
  rw [UInt8.lt_iff_toNat_lt] at h
  have hb := b.toNat_lt
  have h255 : (255 : UInt8).toNat=255 := rfl
  exact UInt8.toNat_inj.mp (by omega)

theorem cons_le_cons {b c : UInt8} {p k : Bytes} : b::p ≤ c::k ↔ b<c ∨ b=c ∧ p≤k := by
  rw [←not_lt,List.cons_lt_cons_iff,←not_lt]
  constructor
  · intro h
    rcases lt_trichotomy b c with hlt|rfl|hgt
    · exact Or.inl hlt
    · exact Or.inr ⟨rfl,fun hk => h (Or.inr ⟨rfl,hk⟩)⟩
    · exact absurd (Or.inl hgt) h
  · rintro (hlt|⟨rfl,hk⟩) (h|⟨h,hk'⟩)
    · exact lt_asymm hlt h
    · exact lt_irrefl _ (h ▸ hlt)
    · exact lt_irrefl _ h
    · exact hk hk'

/-- The extensions of a prefix are exactly the strings from the prefix up to
its range end, or all strings from the prefix on when it has no range end. -/
theorem prefix_iff_range (p k : Bytes) : p<+:k ↔ p≤k ∧ ∀ u∈rangeEnd p,k<u := by
  induction p generalizing k with
  | nil => simp [rangeEnd,←not_lt]
  | cons b p ih =>
    cases k with
    | nil => simp [←not_lt]
    | cons c k =>
      rw [List.cons_prefix_cons,cons_le_cons,ih]
      cases hp : rangeEnd p with
      | some u =>
        simp only [rangeEnd,hp,Option.mem_def,Option.some.injEq,forall_eq',List.cons_lt_cons_iff]
        constructor
        · rintro ⟨rfl,hle,hlt⟩
          exact ⟨Or.inr ⟨rfl,hle⟩,Or.inr ⟨rfl,hlt⟩⟩
        · rintro ⟨hle,hlt⟩
          have hcb : c≤b := hlt.elim le_of_lt fun h => h.1.le
          rcases hle with h|⟨rfl,hle⟩
          · exact absurd h (not_lt.mpr hcb)
          · exact ⟨rfl,hle,hlt.elim (fun h => absurd h (lt_irrefl _)) fun h => h.2⟩
      | none =>
        by_cases hb : b<255
        · simp only [rangeEnd,hp,if_pos hb,Option.mem_def,Option.some.injEq,forall_eq',
            List.cons_lt_cons_iff,reduceCtorEq,false_implies,implies_true,and_true]
          constructor
          · rintro ⟨rfl,hle⟩
            exact ⟨Or.inr ⟨rfl,hle⟩,Or.inl ((lt_succ_iff hb).mpr le_rfl)⟩
          · rintro ⟨hle,hlt⟩
            have hcb : c≤b := by
              rcases hlt with h|⟨-,h⟩
              · exact (lt_succ_iff hb).mp h
              · exact absurd h (List.not_lt_nil _)
            rcases hle with h|h
            · exact absurd h (not_lt.mpr hcb)
            · exact h
        · have h255 := eq_max_of_not_lt hb
          simp only [rangeEnd,hp,if_neg hb,Option.mem_def,reduceCtorEq,false_implies,
            implies_true,and_true]
          constructor
          · exact Or.inr
          · rintro (h|h)
            · have hc := c.toNat_lt
              rw [h255,UInt8.lt_iff_toNat_lt] at h
              have hmax : (255 : UInt8).toNat=255 := rfl
              omega
            · exact h

/-- Eight bytes, most significant first. -/
@[grind] def toBeBytes (n : UInt64) : Bytes :=
  [UInt8.ofNat (n.toNat/2^56),UInt8.ofNat (n.toNat/2^48),UInt8.ofNat (n.toNat/2^40),
    UInt8.ofNat (n.toNat/2^32),UInt8.ofNat (n.toNat/2^24),UInt8.ofNat (n.toNat/2^16),
    UInt8.ofNat (n.toNat/2^8),UInt8.ofNat n.toNat]

/-- The word with the given big-endian bytes. -/
@[grind] def fromBeBytes (bytes : Bytes) : UInt64 :=
  UInt64.ofNat (bytes.foldl (fun word b => word*256+b.toNat) 0)

/-- Every word occupies eight bytes. -/
@[simp] theorem toBeBytes_length (n : UInt64) : (toBeBytes n).length=8 := rfl

/-- Reading back a written word. -/
@[simp] theorem fromBeBytes_toBeBytes (n : UInt64) : fromBeBytes (toBeBytes n)=n := by
  have hn := n.toNat_lt
  apply UInt64.toNat_inj.mp
  simp only [fromBeBytes,toBeBytes,List.foldl_cons,List.foldl_nil,UInt8.toNat_ofNat',
    UInt64.toNat_ofNat']
  omega

variable {a b : UInt64} {sep : Char}

theorem toBeBytes_inj : toBeBytes a=toBeBytes b ↔ a=b := by
  constructor
  · intro h
    rw [←fromBeBytes_toBeBytes a,h,fromBeBytes_toBeBytes]
  · rintro rfl
    rfl

theorem toBeBytes_append_inj {s t : Bytes} : toBeBytes a++s=toBeBytes b++t ↔ a=b ∧ s=t := by
  constructor
  · intro h
    have ⟨ha,hs⟩ := List.append_inj h rfl
    exact ⟨toBeBytes_inj.mp ha,hs⟩
  · rintro ⟨rfl,rfl⟩
    rfl

/-- A common word at the front does not affect whether one string extends another. -/
theorem toBeBytes_prefix_iff {s t : Bytes} : toBeBytes a++s<+:toBeBytes b++t ↔ a=b ∧ s<+:t := by
  constructor
  · rintro ⟨r,h⟩
    rw [List.append_assoc] at h
    have ⟨ha,hs⟩ := toBeBytes_append_inj.mp h
    exact ⟨ha,r,hs⟩
  · rintro ⟨rfl,r,rfl⟩
    exact ⟨r,List.append_assoc _ _ _⟩

theorem append_lt_append_iff {front p q : Bytes} : front++p<front++q ↔ p<q := by
  induction front with
  | nil => exact Iff.rfl
  | cons b front ih => rw [List.cons_append,List.cons_append,List.cons_lt_cons_self,ih]

theorem foldl_bytes_lt {p q : Bytes} (hlen : p.length=q.length) {w v : Nat}
    (h : w<v ∨ w=v ∧ p<q) :
    p.foldl (fun word b => word*256+b.toNat) w<q.foldl (fun word b => word*256+b.toNat) v := by
  induction p generalizing q w v with
  | nil =>
    have hq : q=[] := List.length_eq_zero_iff.mp hlen.symm
    rcases h with hlt|⟨-,hbytes⟩
    · rw [hq]
      exact hlt
    · rw [hq] at hbytes
      exact absurd hbytes (lt_irrefl _)
  | cons b p ih =>
    cases q with
    | nil => cases hlen
    | cons c q =>
      have hb := b.toNat_lt
      have hc := c.toNat_lt
      rw [List.foldl_cons,List.foldl_cons]
      apply ih (by simpa using hlen)
      rcases h with hlt|⟨heq,hbytes⟩
      · exact Or.inl (by omega)
      · rw [heq]
        rcases List.cons_lt_cons_iff.mp hbytes with hlt|⟨hsame,hrest⟩
        · have hnat := UInt8.lt_iff_toNat_lt.mp hlt
          exact Or.inl (by omega)
        · rw [hsame]
          exact Or.inr ⟨rfl,hrest⟩

theorem lt_of_toBeBytes_lt (h : toBeBytes a<toBeBytes b) : a<b := by
  have hvalue : ∀ n : UInt64,(toBeBytes n).foldl (fun word b => word*256+b.toNat) 0=n.toNat := by
    intro n
    have hn := n.toNat_lt
    simp only [toBeBytes,List.foldl_cons,List.foldl_nil,UInt8.toNat_ofNat']
    omega
  have hlt := foldl_bytes_lt (p:=toBeBytes a) (q:=toBeBytes b) (w:=0) (v:=0) rfl (Or.inr ⟨rfl,h⟩)
  rw [hvalue,hvalue] at hlt
  exact UInt64.lt_iff_toNat_lt.mpr hlt

/-- The UTF-8 bytes of a text. -/
@[grind] def asBytes (text : String) : Bytes := text.toByteArray.data.toList

theorem asBytes_inj {s t : String} : asBytes s=asBytes t ↔ s=t := by
  constructor
  · intro h
    apply String.toByteArray_inj.mp
    exact ByteArray.ext (Array.toList_inj.mp h)
  · rintro rfl
    rfl

/-- The text with the given bytes, when they are valid UTF-8. -/
@[grind] def fromUtf8 (bytes : Bytes) : Option String := String.fromUTF8? ⟨bytes.toArray⟩

/-- The bytes of a text decode to it. -/
@[simp] theorem fromUtf8_asBytes (text : String) : fromUtf8 (asBytes text)=some text := by
  have hb : (⟨(asBytes text).toArray⟩ : ByteArray)=text.toByteArray := by
    apply ByteArray.ext
    simp [asBytes]
  rw [fromUtf8,hb,String.fromUTF8?,dif_pos text.isValidUTF8]
  exact congrArg some (String.toByteArray_inj.mp rfl)

/-- Texts whose literal fronts differ within their first characters differ,
whatever is appended to the fronts. -/
theorem append_ne_of_take {p q : String} (n : Nat) (hp : n≤p.toList.length)
    (hq : n≤q.toList.length) (h : p.toList.take n≠q.toList.take n) (a b : String) :
    p++a≠q++b := by
  intro he
  have hl := congrArg (fun s : String => s.toList.take n) he
  simp only [String.toList_append] at hl
  rw [List.take_append_of_le_length hp,List.take_append_of_le_length hq] at hl
  exact h hl

/-- A text ended by a separator it does not contain starts only its own
continuations. -/
theorem terminated_front_iff {α : Type} {sep : α} {x y t : List α} (hx : sep∉x) (hy : sep∉y) :
    x++[sep]<+:y++(sep::t) ↔ x=y := by
  constructor
  · intro h
    induction x generalizing y with
    | nil =>
      cases y with
      | nil => rfl
      | cons b y =>
        have hb : sep=b := by simpa using h
        exact absurd (hb ▸ List.mem_cons_self) hy
    | cons a x ih =>
      cases y with
      | nil =>
        have ha : a=sep := by simpa using (List.cons_prefix_cons.mp h).1
        exact absurd (ha ▸ List.mem_cons_self) hx
      | cons b y =>
        have hab := (List.cons_prefix_cons.mp h).1
        have hrest := (List.cons_prefix_cons.mp h).2
        have hxy := ih (fun hm => hx (List.mem_cons_of_mem _ hm))
          (fun hm => hy (List.mem_cons_of_mem _ hm)) hrest
        rw [hab,hxy]
  · intro h
    rw [h]
    exact ⟨t,by simp⟩

/-- The rest of a text after a literal front. -/
@[grind] def stripPrefix (front text : String) : Option String :=
  if front.toList.isPrefixOf text.toList=true then some (String.ofList (text.toList.drop front.toList.length))
  else none

/-- The parts of a text between separators. -/
@[grind] def splitOnChar (sep : Char) (text : String) : List String :=
  (text.toList.splitOn sep).map String.ofList

/-- The front of a concatenation is stripped. -/
@[simp] theorem stripPrefix_append (front rest : String) : stripPrefix front (front++rest)=some rest := by
  have hfront : front.toList.isPrefixOf (front++rest).toList=true := by
    rw [String.toList_append,List.isPrefixOf_iff_prefix]
    exact List.prefix_append _ _
  rw [stripPrefix,if_pos hfront,String.toList_append,List.drop_left,String.ofList_toList]

theorem stripPrefix_eq_some {front text rest : String} :
    stripPrefix front text=some rest ↔ text=front++rest := by
  constructor
  · intro h
    unfold stripPrefix at h
    split_ifs at h with hfront
    have hprefix := List.isPrefixOf_iff_prefix.mp hfront
    have htext := List.prefix_iff_eq_append.mp hprefix
    apply String.toList_inj.mp
    rw [String.toList_append,←Option.some.inj h,String.toList_ofList]
    exact htext.symm
  · intro h
    rw [h,stripPrefix_append]

theorem splitOnChar_intercalate {parts : List String} (hne : parts≠[]) (hsep : ∀ part∈parts,sep∉part.toList) :
    splitOnChar sep (String.intercalate (String.ofList [sep]) parts)=parts := by
  have hlists : ∀ l∈parts.map String.toList,sep∉l := by
    intro l hl
    have ⟨part,hpart,heq⟩ := List.mem_map.mp hl
    rw [←heq]
    exact hsep part hpart
  rw [splitOnChar,String.toList_intercalate,String.toList_ofList,
    List.splitOn_intercalate sep hlists (by simpa using hne),List.map_map]
  have hid : String.ofList∘String.toList=id := by
    funext part
    exact String.ofList_toList
  rw [hid,List.map_id]

theorem not_mem_of_mem_splitOn {chars part : List Char} (h : part∈chars.splitOn sep) : sep∉part := by
  induction chars generalizing part with
  | nil =>
    rw [List.splitOn_nil,List.mem_singleton] at h
    rw [h]
    exact List.not_mem_nil
  | cons c rest ih =>
    rw [List.splitOn_cons_eq_if_modifyHead] at h
    split_ifs at h with hc
    · rcases List.mem_cons.mp h with heq | hrest
      · rw [heq]
        exact List.not_mem_nil
      · exact ih hrest
    · have ⟨front,back,hsplit⟩ := List.exists_cons_of_ne_nil (List.splitOn_ne_nil sep rest)
      rw [hsplit,List.modifyHead_cons] at h
      rcases List.mem_cons.mp h with heq | hback
      · have hfront : sep∉front := ih (hsplit ▸ List.mem_cons_self)
        rw [heq,List.mem_cons]
        intro hin
        rcases hin with heq' | hin
        · exact hc (by simp [heq'])
        · exact hfront hin
      · exact ih (hsplit ▸ List.mem_cons_of_mem front hback)

theorem not_mem_of_mem_splitOnChar {text part : String} (h : part∈splitOnChar sep text) : sep∉part.toList := by
  have ⟨chars,hchars,heq⟩ := List.mem_map.mp h
  rw [←heq,String.toList_ofList]
  exact not_mem_of_mem_splitOn hchars

/-- The texts before and after the first separator. -/
@[grind] def cutFirst (sep : Char) (text : String) : Option (String×String) :=
  match text.toList.dropWhile fun c => decide (c≠sep) with
  | _::back => some (String.ofList (text.toList.takeWhile fun c => decide (c≠sep)),String.ofList back)
  | [] => none

/-- The texts before and after the last separator. -/
@[grind] def cutLast (sep : Char) (text : String) : Option (String×String) :=
  match text.toList.reverse.dropWhile fun c => decide (c≠sep) with
  | _::front => some (String.ofList front.reverse,
      String.ofList (text.toList.reverse.takeWhile fun c => decide (c≠sep)).reverse)
  | [] => none

/-- Whether a text occurs inside another. -/
@[grind] def containsText (part text : String) : Bool :=
  text.toList.tails.any fun rest => part.toList.isPrefixOf rest

theorem takeWhile_dropWhile_sep {front : List Char} (h : sep∉front) (back : List Char) :
    (front++sep::back).takeWhile (fun c => decide (c≠sep))=front ∧
    (front++sep::back).dropWhile (fun c => decide (c≠sep))=sep::back := by
  have hall : ∀ c∈front,decide (c≠sep)=true := by
    intro c hc
    exact decide_eq_true fun heq => h (heq ▸ hc)
  rw [List.takeWhile_append_of_pos hall,List.dropWhile_append_of_pos hall]
  simp

theorem cutFirst_append {front : String} (h : sep∉front.toList) (back : String) :
    cutFirst sep (front++(String.ofList [sep]++back))=some (front,back) := by
  have hcut := takeWhile_dropWhile_sep h back.toList
  unfold cutFirst
  simp only [String.toList_append,String.toList_ofList,List.singleton_append]
  rw [hcut.2,hcut.1]
  simp only [String.ofList_toList]

theorem cutLast_append (front : String) {back : String} (h : sep∉back.toList) :
    cutLast sep (front++(String.ofList [sep]++back))=some (front,back) := by
  have hback : sep∉back.toList.reverse := by simpa using h
  have hcut := takeWhile_dropWhile_sep hback front.toList.reverse
  have hreverse : (front++(String.ofList [sep]++back)).toList.reverse=
      back.toList.reverse++sep::front.toList.reverse := by simp
  unfold cutLast
  rw [hreverse,hcut.2,hcut.1]
  simp only [List.reverse_reverse,String.ofList_toList]

end GraphDbLite.ByteStrings
