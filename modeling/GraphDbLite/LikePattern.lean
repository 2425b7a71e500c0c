import Mathlib.Data.List.Infix

/-!
# Text patterns of the LIKE operator

A percent sign stands for any text, an underscore for any one character, and
every other character for itself up to the case of the letters A to Z. A text
matches itself read as a pattern, and matches compose under concatenation.
-/

namespace GraphDbLite.LikePattern

/-- Whether a text, as characters, matches a pattern. -/
@[grind] def likeMatch : List Char → List Char → Bool
  | [],text => text.isEmpty
  | p::pattern,text =>
    if p = '%' then text.tails.any fun rest => likeMatch pattern rest
    else
      match text with
      | [] => false
      | c::text => (p = '_' || p.toLower=c.toLower) && likeMatch pattern text

theorem likeMatch_percent {pattern text : List Char} :
    likeMatch ('%'::pattern) text=true ↔ ∃ rest,rest<:+text ∧ likeMatch pattern rest=true := by
  rw [likeMatch.eq_def]
  simp only [if_true,List.any_eq_true,List.mem_tails]

theorem likeMatch_cons {p : Char} (hp : p ≠ '%') {pattern text : List Char} {c : Char} :
    likeMatch (p::pattern) (c::text)=true ↔
      (p = '_' ∨ p.toLower=c.toLower) ∧ likeMatch pattern text=true := by
  rw [likeMatch,if_neg hp]
  simp

theorem likeMatch_append {pattern more text rest : List Char}
    (hfront : likeMatch pattern text=true) (hback : likeMatch more rest=true) :
    likeMatch (pattern++more) (text++rest)=true := by
  induction pattern generalizing text with
  | nil =>
    have hnil : text=[] := by simpa [likeMatch] using hfront
    rw [hnil]
    exact hback
  | cons p pattern ih =>
    by_cases hp : p = '%'
    · rw [hp] at hfront ⊢
      have ⟨tail,⟨front,hsplit⟩,htail⟩ := likeMatch_percent.mp hfront
      refine likeMatch_percent.mpr ⟨tail++rest,⟨front,?_⟩,ih htail⟩
      rw [←List.append_assoc,hsplit]
    · cases text with
      | nil =>
        rw [likeMatch,if_neg hp] at hfront
        cases hfront
      | cons c text =>
        have ⟨hhead,htail⟩ := (likeMatch_cons hp).mp hfront
        exact (likeMatch_cons hp).mpr ⟨hhead,ih htail⟩

theorem likeMatch_self (text : List Char) : likeMatch text text=true := by
  induction text with
  | nil => rfl
  | cons c text ih =>
    by_cases hc : c = '%'
    · rw [hc]
      exact likeMatch_percent.mpr ⟨text,List.suffix_cons _ _,ih⟩
    · exact (likeMatch_cons hc).mpr ⟨Or.inr rfl,ih⟩

theorem likeMatch_any (text : List Char) : likeMatch ['%'] text=true :=
  likeMatch_percent.mpr ⟨[],List.nil_suffix,rfl⟩

theorem likeMatch_infix (before text after : List Char) :
    likeMatch ('%'::(text++['%'])) (before++(text++after))=true := by
  refine likeMatch_percent.mpr ⟨text++after,List.suffix_append _ _,?_⟩
  exact likeMatch_append (likeMatch_self text) (likeMatch_any after)

end GraphDbLite.LikePattern
