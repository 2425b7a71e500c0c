import GraphDbLite.TemporalRoundTrip

/-!
# Cuts of texts and panics

A reader panics where it cuts a text inside a character. Texts are cut without a
panic at the ends of characters, and the number parsers always read or refuse. A
number has at most as many places as its text.
-/

namespace GraphDbLite.TextCuts

open DurationText PrintedNumbers TemporalMaps TemporalTexts TemporalRoundTrip

/-- The outcome is a value or a refusal. -/
def NoPanic {α : Type} (x : Reading α) : Prop := x≠.error .panic

section outcomes

variable {α β : Type}

theorem noPanic_ok (a : α) : NoPanic (.ok a : Reading α) := by
  intro h
  cases h

theorem noPanic_refuse (source : String) : NoPanic (refuse source : Reading α) := by
  intro h
  cases h

theorem noPanic_orRefuse (source : String) (o : Option α) : NoPanic (orRefuse source o) := by
  cases o with
  | none => exact noPanic_refuse source
  | some a => exact noPanic_ok a

variable {x : Reading α}

/-- A step does not panic when it does not, and what follows does not for its value. -/
theorem noPanic_bind {f : α → Reading β} : NoPanic (x >>= f) ↔ NoPanic x ∧ ∀ a,x=.ok a → NoPanic (f a) := by
  cases x with
  | ok a =>
    constructor
    · intro h
      refine ⟨noPanic_ok a,?_⟩
      intro b hb
      cases hb
      exact h
    · intro h
      exact h.2 a rfl
  | error e =>
    constructor
    · intro h
      refine ⟨?_,?_⟩
      · intro heq
        cases heq
        exact h rfl
      · intro a ha
        cases ha
    · intro h heq
      cases heq
      exact h.1 rfl

theorem noPanic_bind_of {f : α → Reading β} (h : ∀ a,NoPanic (f a)) : NoPanic (x >>= f) ↔ NoPanic x := by
  rw [noPanic_bind]
  exact ⟨fun hx => hx.1,fun hx => ⟨hx,fun a _ => h a⟩⟩

theorem noPanic_map (f : α → β) : NoPanic (x.map f) ↔ NoPanic x := by
  cases x with
  | ok a => exact ⟨fun _ => noPanic_ok a,fun _ => noPanic_ok (f a)⟩
  | error e =>
    constructor
    · intro h heq
      cases heq
      exact h rfl
    · intro h heq
      cases heq
      exact h rfl

end outcomes

section numbers

variable {low high : Int}

theorem noPanic_parseDigits (negative : Bool) (n : Int) (chars : List Char) :
    NoPanic (parseDigits low high negative n chars) := by
  induction chars generalizing n with
  | nil =>
    rw [parseDigits]
    exact noPanic_ok n
  | cons c chars ih =>
    rw [parseDigits]
    simp only
    split_ifs
    · exact noPanic_refuse _
    · exact noPanic_refuse _
    · exact ih _
    · exact noPanic_refuse _
    · exact noPanic_refuse _
    · exact ih _
    · exact noPanic_refuse _

theorem noPanic_parseInt (chars : List Char) : NoPanic (parseInt low high chars) := by
  unfold parseInt
  split
  · exact noPanic_refuse _
  · exact noPanic_refuse _
  · exact noPanic_refuse _
  · split_ifs
    · exact noPanic_parseDigits _ _ _
    · exact noPanic_refuse _
  · exact noPanic_parseDigits _ _ _
  · exact noPanic_parseDigits _ _ _

theorem noPanic_parseF64 (chars : List Char) : NoPanic (parseF64 chars) := by
  unfold parseF64
  simp only
  split_ifs
  · exact noPanic_refuse _
  · exact noPanic_refuse _
  · exact noPanic_ok _
  · exact noPanic_ok _

/-- The number fits into a signed word of 64 bits. -/
def InWord (n : Int) : Prop := -9223372036854775808≤n ∧ n≤9223372036854775807

theorem noPanic_word {n : Int} : NoPanic (word n) ↔ InWord n := by
  unfold word InWord
  split_ifs with h
  · exact ⟨fun _ => h,fun _ => noPanic_ok n⟩
  · exact ⟨fun hp => absurd rfl hp,fun hn => absurd hn h⟩

end numbers

/-- Whether a number of bytes of a text ends where a character ends. -/
def Boundary (n : Nat) (chars : List Char) : Prop :=
  ∃ front back,chars=front++back ∧ byteLength front=n

theorem byteLength_cons (c : Char) (chars : List Char) : byteLength (c::chars)=c.utf8Size+byteLength chars := by
  rw [byteLength,List.map_cons,List.sum_cons]
  rfl

variable {chars : List Char} {n : Nat} {low high : Int} {m : Int}

theorem byteLength_zero : byteLength chars=0 ↔ chars=[] := by
  cases chars with
  | nil => exact ⟨fun _ => rfl,fun _ => rfl⟩
  | cons c chars =>
    have hpos := c.utf8Size_pos
    have hcons := byteLength_cons c chars
    constructor
    · intro h
      omega
    · intro h
      cases h

theorem splitBytes_ok {parts : List Char×List Char} :
    splitBytes n chars=.ok parts ↔ chars=parts.1++parts.2 ∧ byteLength parts.1=n := by
  induction chars generalizing n parts with
  | nil =>
    cases n with
    | zero =>
      constructor
      · intro h
        cases h
        exact ⟨rfl,rfl⟩
      · intro h
        have hnil := List.append_eq_nil_iff.mp h.1.symm
        rw [splitBytes]
        exact congrArg Except.ok (Prod.ext hnil.1.symm hnil.2.symm)
    | succ n =>
      constructor
      · intro h
        cases h
      · intro h
        have hnil := List.append_eq_nil_iff.mp h.1.symm
        rw [hnil.1] at h
        cases h.2
  | cons c chars ih =>
    cases n with
    | zero =>
      constructor
      · intro h
        cases h
        exact ⟨rfl,rfl⟩
      · intro h
        have hfront := byteLength_zero.mp h.2
        have hback := h.1
        rw [hfront,List.nil_append] at hback
        rw [splitBytes]
        exact congrArg Except.ok (Prod.ext hfront.symm hback)
    | succ n =>
      rw [splitBytes]
      constructor
      · intro h
        split_ifs at h with hfits
        cases hrest : splitBytes (n+1-c.utf8Size) chars with
        | error e => rw [hrest] at h; cases h
        | ok rest =>
          rw [hrest] at h
          cases h
          have hsplit := ih.mp hrest
          have hlength := byteLength_cons c rest.1
          have hbytes : byteLength (c::rest.1)=n+1 := by omega
          exact ⟨congrArg (c::·) hsplit.1,hbytes⟩
      · intro h
        obtain ⟨front,back⟩ := parts
        cases front with
        | nil => cases h.2
        | cons b front =>
          have heq := List.cons.inj h.1
          have hlength := byteLength_cons b front
          have hbytes : byteLength (b::front)=n+1 := h.2
          rw [←heq.1] at hlength hbytes ⊢
          have hfits : c.utf8Size≤n+1 := by omega
          have hleft : byteLength front=n+1-c.utf8Size := by omega
          have hrest : splitBytes (n+1-c.utf8Size) chars=.ok (front,back) := ih.mpr ⟨heq.2,hleft⟩
          rw [if_pos hfits,hrest]
          rfl

theorem noPanic_splitBytes : NoPanic (splitBytes n chars) ↔ Boundary n chars := by
  have hfault : ∀ e,splitBytes n chars=.error e → e=.panic := by
    intro e
    induction chars generalizing n with
    | nil =>
      intro h
      cases n with
      | zero => cases h
      | succ n => cases h; rfl
    | cons c chars ih =>
      intro h
      cases n with
      | zero => cases h
      | succ n =>
        rw [splitBytes] at h
        split_ifs at h
        · cases hrest : splitBytes (n+1-c.utf8Size) chars with
          | error e' =>
            rw [hrest] at h
            cases h
            exact ih hrest
          | ok rest => rw [hrest] at h; cases h
        · cases h
          rfl
  constructor
  · intro h
    cases hcut : splitBytes n chars with
    | error e =>
      rw [hcut,hfault e hcut] at h
      exact absurd rfl h
    | ok parts =>
      have hsplit := splitBytes_ok.mp hcut
      exact ⟨parts.1,parts.2,hsplit.1,hsplit.2⟩
  · rintro ⟨front,back,heq,hlength⟩
    have hcut : splitBytes n chars=.ok (front,back) := splitBytes_ok.mpr ⟨heq,hlength⟩
    rw [hcut]
    exact noPanic_ok _

theorem front_unique {front front' back back' : List Char} (h : front++back=front'++back')
    (hbytes : byteLength front=byteLength front') : front=front' ∧ back=back' := by
  have hcut : splitBytes (byteLength front) (front++back)=.ok (front,back) := splitBytes_ok.mpr ⟨rfl,rfl⟩
  have hcut' : splitBytes (byteLength front) (front++back)=.ok (front',back') :=
    splitBytes_ok.mpr ⟨h,hbytes.symm⟩
  rw [hcut] at hcut'
  have hparts := Prod.mk.inj (Except.ok.inj hcut')
  exact hparts

theorem sliceBytes_ok {a b : Nat} (hab : a≤b) {chars slice : List Char} : sliceBytes a b chars=.ok slice ↔
    ∃ front back,chars=front++(slice++back) ∧ byteLength front=a ∧ byteLength slice=b-a := by
  constructor
  · intro h
    have ⟨parts,hparts,h⟩ := bind_ok.mp h
    have ⟨inner,hinner,h⟩ := bind_ok.mp h
    cases h
    have hcut := splitBytes_ok.mp hparts
    have hslice := splitBytes_ok.mp hinner
    have hlength := hcut.2
    rw [hslice.1,byteLength_append] at hlength
    refine ⟨inner.1,parts.2,?_,hslice.2,by omega⟩
    rw [hcut.1,hslice.1,List.append_assoc]
  · intro ⟨front,back,heq,hfront,hslice⟩
    have hcut : splitBytes b chars=.ok (front++slice,back) := by
      apply splitBytes_ok.mpr
      simp only [byteLength_append,heq,List.append_assoc,true_and]
      omega
    have hinner : splitBytes a (front++slice)=.ok (front,slice) := splitBytes_ok.mpr ⟨rfl,hfront⟩
    rw [sliceBytes,hcut]
    simp only [bind,Except.bind,hinner]
    rfl

theorem noPanic_sliceBytes {a b : Nat} (hab : a≤b) :
    NoPanic (sliceBytes a b chars) ↔ Boundary b chars ∧ Boundary a chars := by
  have hlast : ∀ front : List Char×List Char,NoPanic (pure front.2 : Reading (List Char)) :=
    fun front => noPanic_ok front.2
  rw [sliceBytes,noPanic_bind,noPanic_splitBytes]
  constructor
  · intro h
    obtain ⟨front,back,heq,hbytes⟩ := h.1
    have hcut := h.2 (front,back) (splitBytes_ok.mpr ⟨heq,hbytes⟩)
    rw [noPanic_bind_of hlast,noPanic_splitBytes] at hcut
    obtain ⟨inner,rest,hinner,hlength⟩ := hcut
    refine ⟨h.1,inner,rest++back,?_,hlength⟩
    have hfront : front=inner++rest := hinner
    rw [heq,hfront,List.append_assoc]
  · intro h
    refine ⟨h.1,?_⟩
    intro parts hparts
    obtain ⟨front,back,heq,hbytes⟩ := h.2
    have hcut := splitBytes_ok.mp hparts
    rw [noPanic_bind_of hlast,noPanic_splitBytes]
    have hwhole : front++back=parts.1++parts.2 := heq.symm.trans hcut.1
    cases List.append_eq_append_iff.mp hwhole with
    | inl hlong =>
      obtain ⟨rest,hrest,_⟩ := hlong
      exact ⟨front,rest,hrest,hbytes⟩
    | inr hshort =>
      obtain ⟨rest,hrest,_⟩ := hshort
      have hlength := byteLength_append parts.1 rest
      rw [←hrest] at hlength
      have hzero : byteLength rest=0 := by omega
      rw [byteLength_zero.mp hzero,List.append_nil] at hrest
      exact ⟨front,[],by rw [hrest,List.append_nil],hbytes⟩

theorem boundary_charAtByte {c : Char} (h : charAtByte n chars=some c) :
    Boundary n chars ∧ Boundary (n+c.utf8Size) chars := by
  induction chars generalizing n with
  | nil => cases n with
    | zero | succ n => cases h
  | cons b chars ih =>
    cases n with
    | zero =>
      cases h
      refine ⟨⟨[],c::chars,rfl,rfl⟩,⟨[c],chars,rfl,?_⟩⟩
      rw [byteLength_cons,Nat.add_comm]
      rfl
    | succ n =>
      rw [charAtByte] at h
      split_ifs at h with hfits
      obtain ⟨⟨front,back,heq,hfront⟩,⟨front',back',heq',hfront'⟩⟩ := ih h
      have hlength := byteLength_cons b front
      have hlength' := byteLength_cons b front'
      exact ⟨⟨b::front,back,congrArg (List.cons b) heq,by omega⟩,⟨b::front',back',congrArg (List.cons b) heq',by omega⟩⟩

/-- A text is truncated without a panic when it is short enough, or at the end of a character. -/
theorem noPanic_truncateBytes : NoPanic (truncateBytes n chars) ↔ (n<byteLength chars → Boundary n chars) := by
  induction chars generalizing n with
  | nil =>
    have hnone : ¬n<byteLength [] := Nat.not_lt_zero n
    rw [truncateBytes]
    exact ⟨fun _ h => absurd h hnone,fun _ => noPanic_ok []⟩
  | cons c chars ih =>
    have hlength := byteLength_cons c chars
    cases n with
    | zero =>
      rw [truncateBytes]
      exact ⟨fun _ _ => ⟨[],c::chars,rfl,rfl⟩,fun _ => noPanic_ok []⟩
    | succ n =>
      rw [truncateBytes]
      split_ifs with hfits
      · rw [noPanic_map,ih]
        constructor
        · intro h hlong
          obtain ⟨front,back,heq,hfront⟩ := h (by omega)
          have hcons := byteLength_cons c front
          exact ⟨c::front,back,congrArg (c::·) heq,by omega⟩
        · intro h hlong
          obtain ⟨front,back,heq,hfront⟩ := h (by omega)
          cases front with
          | nil => cases hfront
          | cons b front =>
            have hparts := List.cons.inj heq
            have hcons := byteLength_cons b front
            rw [←hparts.1] at hcons hfront
            exact ⟨front,back,hparts.2,by omega⟩
      · constructor
        · intro h
          exact absurd rfl h
        · intro h
          obtain ⟨front,back,heq,hfront⟩ := h (by omega)
          cases front with
          | nil => cases hfront
          | cons b front =>
            have hcons := byteLength_cons b front
            rw [←(List.cons.inj heq).1] at hcons hfront
            omega

/-- The ninth byte of a longer fraction ends a character. -/
def FractionCut (frac : List Char) : Prop := 9<byteLength frac → Boundary 9 frac

theorem byteLength_zeros (k : Nat) : byteLength (List.replicate k '0')=k := by
  have hdigits : AllDigits (List.replicate k '0') := by
    intro c hc
    rw [(List.mem_replicate.mp hc).2]
    rfl
  rw [byteLength_digits hdigits,List.length_replicate]

theorem noPanic_parseFracNanos {frac : List Char} : NoPanic (parseFracNanos frac) ↔ FractionCut frac := by
  have hread : ∀ padded,NoPanic (parseU32 padded) := fun padded => noPanic_parseInt padded
  rw [parseFracNanos,noPanic_bind_of hread,noPanic_truncateBytes,byteLength_append,byteLength_zeros]
  unfold FractionCut
  by_cases hlong : 9<byteLength frac
  · have hnone : 9-byteLength frac=0 := by omega
    rw [hnone,List.replicate_zero,List.append_nil,Nat.add_zero]
  · constructor
    · intro _ h
      exact absurd h hlong
    · intro _ h
      omega

theorem parseDigits_bound {negative : Bool} {n m : Int} (h : parseDigits low high negative n chars=.ok m) :
    m.natAbs+1≤(n.natAbs+1)*10^chars.length := by
  induction chars generalizing n with
  | nil =>
    cases h
    rw [List.length_nil,pow_zero,mul_one]
  | cons c chars ih =>
    rw [parseDigits] at h
    by_cases hdigit : c.isDigit=true
    · have hc := toNat_of_isDigit hdigit
      rw [if_pos hdigit] at h
      simp only at h
      have hstep : ∀ next : Int,next.natAbs+1≤(n.natAbs+1)*10 → m.natAbs+1≤(next.natAbs+1)*10^chars.length →
          m.natAbs+1≤(n.natAbs+1)*10^(c::chars).length := by
        intro next hnext hrest
        have hscaled := Nat.mul_le_mul_right (10^chars.length) hnext
        rw [List.length_cons,pow_succ]
        calc
          m.natAbs+1≤(next.natAbs+1)*10^chars.length := hrest
          _≤(n.natAbs+1)*10*10^chars.length := hscaled
          _=(n.natAbs+1)*(10^chars.length*10) := by ring
      split_ifs at h
      · cases h
      · cases h
      · exact hstep _ (by omega) (ih h)
      · cases h
      · cases h
      · exact hstep _ (by omega) (ih h)
    · rw [if_neg hdigit] at h
      cases h

theorem parseInt_bound (h : parseInt low high chars=.ok m) : m.natAbs+1≤10^chars.length := by
  have hgrow : ∀ c (rest : List Char),m.natAbs+1≤(0+1)*10^rest.length → m.natAbs+1≤10^(c::rest : List Char).length := by
    intro c rest hrest
    have hpow : 10^rest.length≤10^(c::rest : List Char).length := Nat.pow_le_pow_right (by decide) (by simp)
    omega
  unfold parseInt at h
  split at h
  · cases h
  · cases h
  · cases h
  · split_ifs at h
    · exact hgrow _ _ (parseDigits_bound h)
    · cases h
  · exact hgrow _ _ (parseDigits_bound h)
  · have hbound := parseDigits_bound h
    rw [Int.natAbs_zero,Nat.zero_add,Nat.one_mul] at hbound
    exact hbound

theorem length_le_byteLength (chars : List Char) : chars.length≤byteLength chars := by
  induction chars with
  | nil => exact Nat.zero_le _
  | cons c chars ih =>
    have hpos := c.utf8Size_pos
    have hcons := byteLength_cons c chars
    rw [List.length_cons]
    omega

theorem parseI32_two (hbytes : byteLength chars=2) (h : parseI32 chars=.ok m) : -99≤ m ∧ m≤99 := by
  have hbound := parseInt_bound h
  have hlength := length_le_byteLength chars
  have hpow : 10^chars.length≤10^2 := Nat.pow_le_pow_right (by decide) (by omega)
  omega

theorem parseDigits_range {negative : Bool} {n m : Int} (hn : low≤n ∧ n≤high)
    (h : parseDigits low high negative n chars=.ok m) : low≤ m ∧ m≤high := by
  induction chars generalizing n with
  | nil =>
    cases h
    exact hn
  | cons c chars ih =>
    rw [parseDigits] at h
    simp only at h
    split_ifs at h with hdigit hneg hlow hhigh hlow hhigh
    · cases h
    · cases h
    · exact ih ⟨by omega,by omega⟩ h
    · cases h
    · cases h
    · exact ih ⟨by omega,by omega⟩ h
    · cases h

theorem parseInt_range (hlow : low≤0) (hhigh : 0≤high) (h : parseInt low high chars=.ok m) : low≤ m ∧ m≤high := by
  unfold parseInt at h
  split at h
  · cases h
  · cases h
  · cases h
  · split_ifs at h
    · exact parseDigits_range ⟨hlow,hhigh⟩ h
    · cases h
  · exact parseDigits_range ⟨hlow,hhigh⟩ h
  · exact parseDigits_range ⟨hlow,hhigh⟩ h

end GraphDbLite.TextCuts
