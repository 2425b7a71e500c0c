import GraphDbLite.FullTextRuns
import GraphDbLite.IndexCatalogue

/-!
# Names and declarations of full-text tables

A full-text index leaves its name and the text of its declaration in the catalogue. The
columns and the tokenizer are read back from that text. Tables of different indexes may
have one name up to letter case: through a property that ends like a shadow table, and
through the older naming scheme.
-/

namespace GraphDbLite.FullTextNames

open ByteStrings GraphTypes GraphStore FullText
open FullTextRuns IndexCatalogue

/-- Code points of the Unicode property White_Space. -/
def isWhiteSpaceCode (n : Nat) : Bool :=
  (9 ≤ n && n ≤ 13) || n=0x20 || n=0x85 || n=0xA0 || n=0x1680 || (0x2000 ≤ n && n ≤ 0x200A) || n=0x2028 ||
    n=0x2029 || n=0x202F || n=0x205F || n=0x3000

/-- Characters of white space. -/
def isWhiteSpace (c : Char) : Bool := isWhiteSpaceCode c.toNat

/-- Drop matching characters at the end. -/
def trimEndMatches (p : Char → Bool) (text : List Char) : List Char := (text.reverse.dropWhile p).reverse

/-- Drop matching characters at both ends. -/
def trimMatches (p : Char → Bool) (text : List Char) : List Char := trimEndMatches p (text.dropWhile p)

/-- Drop white space at both ends. -/
def trim (text : List Char) : List Char := trimMatches isWhiteSpace text

/-- The text before the first occurrence of another. -/
def beforeText (part : List Char) : List Char → Option (List Char)
  | [] => if part=[] then some [] else none
  | c::rest => if part.isPrefixOf (c::rest)=true then some [] else (beforeText part rest).map (c::·)

/-- One column of a declaration without its quotes. -/
def readColumn (text : List Char) : String :=
  String.ofList (trimMatches (· = '\'') (trimMatches (· = '"') (trim text)))

/-- The columns in the text of a declaration, up to the tokenizer or the last bracket. -/
def parseColumnList (sql : String) : List String :=
  match cutFirst '(' sql with
  | none => []
  | some (_,rest) =>
    let front := match beforeText "tokenize=".toList rest.toList with
      | some front => front
      | none => ((cutLast ')' rest).map fun parts => parts.1.toList).getD rest.toList
    let columns := trim (trimEndMatches (· = ',') (trim front))
    ((columns.splitOn ',').map readColumn).filter fun c => c≠""

/-- A column name in quotes. -/
def quoted (name : String) : String := "\""++(name++"\"")

/-- The columns as the creation writes them: the only column of a single-property table is
bare, the properties of a multi-property table are quoted. -/
def declaredColumns (name : String) (columns : List String) : List String :=
  if (stripPrefix "node_fts_multi_" name).isSome=true then columns.map quoted else columns

/-- The text of a declaration as the catalogue keeps it. -/
def storedSql (name : String) (t : FtsTable) : String :=
  ftsSql name {t with columns := declaredColumns name t.columns}

theorem trimEndMatches_append {p : Char → Bool} {text back : List Char} (hne : text≠[])
    (hlast : p (text.getLast hne)=false) (hback : ∀ c∈back,p c=true) : trimEndMatches p (text++back)=text := by
  have hreverse : text.reverse=text.getLast hne::text.dropLast.reverse := by
    have hsplit := List.dropLast_append_getLast hne
    rw [←List.singleton_append,←List.reverse_singleton,←List.reverse_append,hsplit]
  have hdrop : (text++back).reverse.dropWhile p=text.reverse := by
    rw [List.reverse_append,List.dropWhile_append_of_pos fun c hc => hback c (List.mem_reverse.mp hc),hreverse,
      List.dropWhile_cons_of_neg (by simp [hlast])]
  rw [trimEndMatches,hdrop,List.reverse_reverse]

/-- Matching characters around a text that begins and ends otherwise are dropped. -/
theorem trimMatches_around (p : Char → Bool) (front text back : List Char) (hfront : ∀ c∈front,p c=true)
    (hne : text≠[]) (hfirst : p (text.head hne)=false) (hlast : p (text.getLast hne)=false)
    (hback : ∀ c∈back,p c=true) : trimMatches p (front++(text++back))=text := by
  have hdrop : (front++(text++back)).dropWhile p=text++back := by
    have hhead : text=text.head hne::text.tail := (List.cons_head_tail hne).symm
    rw [List.dropWhile_append_of_pos hfront,hhead,List.cons_append,List.dropWhile_cons_of_neg (by simp [hfirst])]
  rw [trimMatches,hdrop,trimEndMatches_append hne hlast hback]

theorem trimMatches_none (p : Char → Bool) (front text back : List Char) (hfront : ∀ c∈front,p c=true)
    (hne : text≠[]) (htext : ∀ c∈text,p c=false) (hback : ∀ c∈back,p c=true) :
    trimMatches p (front++(text++back))=text :=
  trimMatches_around p front text back hfront hne (htext _ (List.head_mem hne)) (htext _ (List.getLast_mem hne)) hback

/-- A text that ends with a character found nowhere before is found where it stands. -/
theorem beforeText_append {body front : List Char} {c : Char} (hbody : c∉body) (hfront : c∉front)
    (rest : List Char) : beforeText (body++[c]) (front++((body++[c])++rest))=some front := by
  induction front with
  | nil =>
    have hlead : (body++[c]).isPrefixOf ((body++[c])++rest)=true :=
      List.isPrefixOf_iff_prefix.mpr (List.prefix_append _ _)
    cases hbodies : body with
    | nil =>
      rw [hbodies] at hlead
      rw [List.nil_append,List.nil_append,List.singleton_append,beforeText]
      rw [List.nil_append,List.singleton_append] at hlead
      rw [if_pos hlead]
    | cons b back =>
      rw [hbodies] at hlead
      rw [List.nil_append,List.cons_append,List.cons_append,beforeText]
      rw [List.cons_append,List.cons_append] at hlead
      rw [if_pos hlead]
  | cons x front ih =>
    have hnone : ¬(body++[c]).isPrefixOf (x::(front++((body++[c])++rest)))=true := by
      intro hlead
      have hlong := List.isPrefixOf_iff_prefix.mp hlead
      have hsplit : x::(front++((body++[c])++rest))=(x::(front++body))++([c]++rest) := by simp
      rw [hsplit] at hlong
      have hshort : body++[c]<+:x::(front++body) :=
        List.prefix_of_prefix_length_le hlong (List.prefix_append _ _) (by simp)
      have hmem : c∈x::(front++body) := hshort.subset (List.mem_append_right _ List.mem_cons_self)
      rcases List.mem_cons.mp hmem with hx|hmem
      · exact hfront (hx ▸ List.mem_cons_self)
      · rcases List.mem_append.mp hmem with hin|hin
        · exact hfront (List.mem_cons_of_mem _ hin)
        · exact hbody hin
    rw [List.cons_append,beforeText,if_neg hnone,ih fun hin => hfront (List.mem_cons_of_mem _ hin),
      Option.map_some]

variable {name : String} {marks : List Char}

theorem notWhiteSpace_of_validName (h : isValidName name=true) {c : Char} (hc : c∈name.toList) :
    isWhiteSpace c=false := by
  have ⟨_,hsmall,hbyte⟩ := char_of_validName h hc
  have hall : ∀ n<128,isNameByte (UInt8.ofNat n)=true → isWhiteSpaceCode n=false := by decide
  exact hall c.toNat (by omega) hbyte

/-- A character of a checked name differs from every character that is not a name byte. -/
theorem ne_of_validName (h : isValidName name=true) {c d : Char} (hc : c∈name.toList)
    (hd : isNameByte (UInt8.ofNat d.toNat)=false) : c≠d :=
  fun heq => notMem_of_validName h hd (heq ▸ hc)

theorem readColumn_marked (h : isValidName name=true) (space : List Char)
    (hspace : ∀ c∈space,isWhiteSpace c=true) (hmarks : ∀ c∈marks,c = '"') :
    readColumn (space++(marks++(name.toList++marks)))=name := by
  have hne : name.toList≠[] := fun hnil => ne_empty_of_validName h (String.toList_inj.mp (hnil.trans rfl))
  have hmark : ∀ c∈marks,decide (c = '"')=true := fun c hc => decide_eq_true (hmarks c hc)
  have houter : ∀ c∈marks++(name.toList++marks),isWhiteSpace c=false := by
    intro c hc
    rcases List.mem_append.mp hc with hc|hc
    · rw [hmarks c hc]
      rfl
    · rcases List.mem_append.mp hc with hc|hc
      · exact notWhiteSpace_of_validName h hc
      · rw [hmarks c hc]
        rfl
  have htrim : trim (space++(marks++(name.toList++marks)))=marks++(name.toList++marks) := by
    have hall := trimMatches_none isWhiteSpace space (marks++(name.toList++marks)) [] hspace (by simp [hne]) houter
      (fun c hc => absurd hc List.not_mem_nil)
    rw [List.append_nil] at hall
    exact hall
  have hquotes : trimMatches (· = '"') (marks++(name.toList++marks))=name.toList :=
    trimMatches_none _ marks name.toList marks hmark hne (fun c hc => decide_eq_false (ne_of_validName h hc (by decide))) hmark
  have happos : trimMatches (· = '\'') name.toList=name.toList := by
    have hall := trimMatches_none (fun c => decide (c = '\'')) [] name.toList []
      (fun c hc => absurd hc List.not_mem_nil) hne
      (fun c hc => decide_eq_false (ne_of_validName h hc (by decide))) (fun c hc => absurd hc List.not_mem_nil)
    rw [List.nil_append,List.append_nil] at hall
    exact hall
  rw [readColumn,htrim,hquotes,happos,String.ofList_toList]

/-- Joining with a comma and a blank puts the blank in front of every later part. -/
theorem intercalate_blank (first : List Char) (rest : List (List Char)) :
    List.intercalate [',',' '] (first::rest)=List.intercalate [','] (first::rest.map (' '::·)) := by
  induction rest generalizing first with
  | nil => simp [List.intercalate]
  | cons second rest ih =>
    have hleft : List.intercalate [',',' '] (first::second::rest)=
        first++([',',' ']++List.intercalate [',',' '] (second::rest)) := by simp [List.intercalate]
    have hblank : List.intercalate [','] ((' '::second)::rest.map (' '::·))=
        ' '::List.intercalate [','] (second::rest.map (' '::·)) := by
      cases rest with
      | nil | cons third rest => simp [List.intercalate]
    have hright : List.intercalate [','] (first::(second::rest).map (' '::·))=
        first++([',']++List.intercalate [','] ((' '::second)::rest.map (' '::·))) := by
      simp [List.intercalate]
    rw [hleft,hright,hblank,ih]
    simp

/-- A column between marks, as characters. -/
def marked (marks : List Char) (name : String) : List Char := marks++(name.toList++marks)

theorem marked_chars (h : isValidName name=true) (hmarks : ∀ c∈marks,c = '"') :
    marked marks name≠[] ∧ ∀ c∈marked marks name,isWhiteSpace c=false ∧ c ≠ ',' ∧ c ≠ '=' := by
  have hname : name.toList≠[] := fun hnil => ne_empty_of_validName h (String.toList_inj.mp (hnil.trans rfl))
  have hmark : ∀ c∈marks,isWhiteSpace c=false ∧ c ≠ ',' ∧ c ≠ '=' := by
    intro c hc
    rw [hmarks c hc]
    decide
  refine ⟨by simp [marked,hname],fun c hc => ?_⟩
  rcases List.mem_append.mp hc with hc|hc
  · exact hmark c hc
  · rcases List.mem_append.mp hc with hc|hc
    · exact ⟨notWhiteSpace_of_validName h hc,ne_of_validName h hc (by decide),ne_of_validName h hc (by decide)⟩
    · exact hmark c hc

/-- A join begins and ends with characters of its parts, and has only theirs and the separator's. -/
theorem intercalate_chars (sep : List Char) {Q : Char → Prop} {parts : List (List Char)} (hne : parts≠[])
    (hparts : ∀ part∈parts,part≠[] ∧ ∀ c∈part,Q c) :
    (∃ hfull : List.intercalate sep parts≠[],Q ((List.intercalate sep parts).head hfull) ∧
      Q ((List.intercalate sep parts).getLast hfull)) ∧
    ∀ c∈List.intercalate sep parts,c∈sep ∨ Q c := by
  induction parts with
  | nil => exact absurd rfl hne
  | cons first rest ih =>
    have ⟨hfirst,hchars⟩ := hparts first List.mem_cons_self
    cases rest with
    | nil =>
      have hone : List.intercalate sep [first]=first := by simp [List.intercalate]
      rw [hone]
      exact ⟨⟨hfirst,hchars _ (List.head_mem hfirst),hchars _ (List.getLast_mem hfirst)⟩,
        fun c hc => Or.inr (hchars c hc)⟩
    | cons second rest =>
      have ⟨⟨hfull,_,hlast⟩,hall⟩ := ih (List.cons_ne_nil _ _) fun part hpart => hparts part (List.mem_cons_of_mem _ hpart)
      have hsplit : List.intercalate sep (first::second::rest)=
          first++(sep++List.intercalate sep (second::rest)) := by simp [List.intercalate]
      rw [hsplit]
      have hback : sep++List.intercalate sep (second::rest)≠[] := by simp [hfull]
      refine ⟨⟨by simp [hfirst],?_,?_⟩,fun c hc => ?_⟩
      · rw [List.head_append_of_ne_nil hfirst]
        exact hchars _ (List.head_mem hfirst)
      · rw [List.getLast_append_of_ne_nil _ hback,List.getLast_append_of_ne_nil _ hfull]
        exact hlast
      · rcases List.mem_append.mp hc with hc|hc
        · exact Or.inr (hchars c hc)
        · rcases List.mem_append.mp hc with hc|hc
          · exact Or.inl hc
          · exact hall c hc

theorem readColumns {names : List String} (hne : names≠[]) (hnames : ∀ name∈names,isValidName name=true) (hmarks : ∀ c∈marks,c = '"') :
    (((List.intercalate [',',' '] (names.map (marked marks))).splitOn ',').map readColumn).filter (fun c => c≠"")=
      names := by
  have hcomma : ∀ name∈names,','∉marked marks name :=
    fun name hname hmem => ((marked_chars (hnames name hname) hmarks).2 _ hmem).2.1 rfl
  have hread : ∀ name∈names,readColumn (marked marks name)=name ∧ readColumn (' '::marked marks name)=name := by
    intro name hname
    have hvalid := hnames name hname
    refine ⟨?_,?_⟩
    · exact readColumn_marked hvalid [] (fun c hc => absurd hc List.not_mem_nil) hmarks
    · refine readColumn_marked hvalid [' '] (fun c hc => ?_) hmarks
      rw [List.mem_singleton.mp hc]
      rfl
  have hlist : ((List.intercalate [',',' '] (names.map (marked marks))).splitOn ',').map readColumn=names := by
    cases names with
    | nil => exact absurd rfl hne
    | cons first rest =>
      rw [List.map_cons,intercalate_blank,List.splitOn_intercalate,List.map_cons,List.map_map,List.map_map,
        (hread first List.mem_cons_self).1]
      · congr 1
        have hrest : ∀ name∈rest,((readColumn∘fun x => ' '::x)∘marked marks) name=name :=
          fun name hname => (hread name (List.mem_cons_of_mem _ hname)).2
        exact (List.map_congr_left hrest).trans (List.map_id rest)
      · intro part hpart
        rcases List.mem_cons.mp hpart with heq|hpart
        · rw [heq]
          exact hcomma first List.mem_cons_self
        · rw [List.map_map] at hpart
          have ⟨name,hname,heq⟩ := List.mem_map.mp hpart
          rw [←heq]
          intro hmem
          rcases List.mem_cons.mp hmem with hblank|hmem
          · exact absurd hblank (by decide)
          · exact hcomma name (List.mem_cons_of_mem _ hname) hmem
      · simp
  rw [hlist,List.filter_eq_self]
  intro name hname
  exact decide_eq_true (ne_empty_of_validName (hnames name hname))

/-- The columns of a declaration in front of its tokenizer are found and read back. -/
theorem parseColumnList_columns {before after : String} (hbefore : '('∉before.toList) {names : List String}
    (hne : names≠[]) (hnames : ∀ name∈names,isValidName name=true) {marks : List Char}
    (hmarks : ∀ c∈marks,c = '"') :
    parseColumnList (before++(String.ofList ['(']++(String.ofList
      (List.intercalate [',',' '] (names.map (marked marks)))++(", tokenize="++after))))=names := by
  have hcolumns := readColumns hne hnames hmarks
  have hparts : ∀ part∈names.map (marked marks),part≠[] ∧
      ∀ c∈part,isWhiteSpace c=false ∧ c ≠ ',' ∧ c ≠ '=' := by
    intro part hpart
    have ⟨name,hname,heq⟩ := List.mem_map.mp hpart
    rw [←heq]
    exact marked_chars (hnames name hname) hmarks
  have hchars := intercalate_chars [',',' '] (by simpa using hne) hparts
  generalize List.intercalate [',',' '] (names.map (marked marks))=text at hcolumns hchars ⊢
  have ⟨⟨hfull,hhead,hend⟩,hall⟩ := hchars
  have hfirst := hhead.1
  have hlast := hend.1
  have hcomma := hend.2.1
  have hplain : ∀ c∈text,c ≠ '=' := by
    intro c hc heq
    rcases hall c hc with hsep|hother
    · rw [heq] at hsep
      exact absurd hsep (by decide)
    · exact hother.2.2 heq
  have hfront : beforeText "tokenize=".toList (text++[',',' ']++("tokenize=".toList++after.toList))=
      some (text++[',',' ']) := by
    have hpart : "tokenize=".toList="tokenize".toList++['='] := by simp
    rw [hpart]
    refine beforeText_append (by simp) (fun hmem => ?_) _
    rcases List.mem_append.mp hmem with hin|hin
    · exact hplain _ hin rfl
    · exact absurd hin (by decide)
  have hrest : (String.ofList text++(", tokenize="++after)).toList=
      text++[',',' ']++("tokenize=".toList++after.toList) := by
    have hpart : ", tokenize=".toList=[',',' ']++"tokenize=".toList := by simp
    rw [String.toList_append,String.toList_append,String.toList_ofList,hpart]
    simp
  have hblank : trim (text++[',',' '])=text++[','] := by
    have hwhite := trimMatches_around isWhiteSpace [] (text++[',']) [' ']
      (fun c hc => absurd hc List.not_mem_nil) (by simp) (by rw [List.head_append_of_ne_nil hfull]; exact hfirst)
      (by rw [List.getLast_append_of_ne_nil _ (by simp)]; rfl) (by simp [isWhiteSpace,isWhiteSpaceCode])
    rw [List.nil_append,List.append_assoc] at hwhite
    exact hwhite
  have hcut : trimEndMatches (· = ',') (text++[','])=text :=
    trimEndMatches_append hfull (decide_eq_false hcomma) (by simp)
  have hself : trim text=text := by
    have hall := trimMatches_around isWhiteSpace [] text [] (fun c hc => absurd hc List.not_mem_nil)
      hfull hfirst hlast (fun c hc => absurd hc List.not_mem_nil)
    rw [List.nil_append,List.append_nil] at hall
    exact hall
  unfold parseColumnList
  rw [cutFirst_append hbefore]
  dsimp only
  rw [hrest,hfront]
  dsimp only
  rw [hblank,hcut,hself]
  exact hcolumns

/-- The columns of a declaration are read back when the table name has no bracket. -/
theorem parseColumnList_ftsSql {table : String} (htable : '('∉table.toList) {names : List String} (hne : names≠[])
    (hnames : ∀ name∈names,isValidName name=true) {marks : List Char} (hmarks : ∀ c∈marks,c = '"') {t : FtsTable}
    (hcolumns : t.columns.map String.toList=names.map (marked marks)) : parseColumnList (ftsSql table t)=names := by
  have hopen : "\" USING fts5(".toList="\" USING fts5".toList++['('] := by simp
  have htokenize : ", tokenize='".toList=", tokenize=".toList++"'".toList := by simp
  have hblank : ", ".toList=[',',' '] := by simp
  have hsql : ftsSql table t=("CREATE VIRTUAL TABLE \""++(table++"\" USING fts5"))++(String.ofList ['(']++(String.ofList
      (List.intercalate [',',' '] (names.map (marked marks)))++(", tokenize="++("'"++(tokenizeClause t.kind++"')"))))) := by
    apply String.toList_inj.mp
    unfold ftsSql
    simp only [String.toList_append,String.toList_intercalate,String.toList_ofList,hcolumns,hopen,htokenize,hblank,
      List.append_assoc]
  rw [hsql]
  refine parseColumnList_columns (fun hmem => ?_) hne hnames hmarks
  rw [String.toList_append,String.toList_append] at hmem
  rcases List.mem_append.mp hmem with hin|hin
  · exact absurd hin (by simp)
  · rcases List.mem_append.mp hin with hin|hin
    · exact htable hin
    · exact absurd hin (by simp)

theorem containsText_iff {part text : String} : containsText part text=true ↔ part.toList<:+:text.toList := by
  unfold containsText
  rw [List.any_eq_true]
  constructor
  · intro h
    have ⟨rest,hrest,hlead⟩ := h
    exact (List.isPrefixOf_iff_prefix.mp hlead).isInfix.trans ((List.mem_tails _ _).mp hrest).isInfix
  · intro h
    have ⟨before,after,heq⟩ := h
    refine ⟨part.toList++after,(List.mem_tails _ _).mpr ⟨before,by rw [←heq,List.append_assoc]⟩,?_⟩
    exact List.isPrefixOf_iff_prefix.mpr (List.prefix_append _ _)

theorem infix_split {part before after : List Char} {sep : Char} (hsep : sep∉part)
    (h : part<:+:before++sep::after) : part<:+:before ∨ part<:+:after := by
  have ⟨left,right,heq⟩ := h
  rw [List.append_assoc] at heq
  rcases List.append_eq_append_iff.mp heq with ⟨back,hbefore,hrest⟩|⟨back,hleft,hrest⟩
  · rcases List.append_eq_append_iff.mp hrest with ⟨more,hback,-⟩|⟨more,hpart,hafter⟩
    · exact Or.inl ⟨left,more,by rw [hbefore,hback,List.append_assoc]⟩
    · cases more with
      | nil =>
        rw [List.append_nil] at hpart
        exact Or.inl ⟨left,[],by rw [hbefore,hpart,List.append_nil]⟩
      | cons c more =>
        have hc : sep=c := List.head_eq_of_cons_eq hafter
        exact absurd (by rw [hpart,hc]; simp) hsep
  · cases back with
    | nil =>
      cases part with
      | nil => exact Or.inl (List.nil_infix)
      | cons c part =>
        have hc : sep=c := List.head_eq_of_cons_eq hrest
        exact absurd (by rw [hc]; simp) hsep
    | cons c back =>
      have hafter : after=back++(part++right) := List.tail_eq_of_cons_eq hrest
      exact Or.inr ⟨back,right,by rw [hafter,List.append_assoc]⟩

theorem parseTokenizerKind_word (table : String) {t : FtsTable} (hkind : t.kind=.word) :
    parseTokenizerKind (ftsSql table t)=.word := by
  have hclause : tokenizeClause t.kind="unicode61" := by
    rw [hkind]
    rfl
  have hparts : (ftsSql table t).toList=("CREATE VIRTUAL TABLE \""++table++"\" USING fts5("++
      String.intercalate ", " t.columns++", tokenize='").toList++"unicode61".toList++"')".toList := by
    unfold ftsSql
    rw [hclause,String.toList_append,String.toList_append]
  have hin : "unicode61".toList<:+:(ftsSql table t).toList := hparts ▸ List.infix_append _ _ _
  have hfound := containsText_iff.mpr hin
  exact if_pos hfound

/-- Label or property contain the name of the word tokenizer. -/
def NamesWordTokenizer (label property : String) : Prop :=
  containsText "unicode61" label=true ∨ containsText "unicode61" property=true

/-- The text after the table name of a single-property declaration. -/
def singleSqlBack (kind : FtsTokenizerKind) : List Char :=
  " USING fts5(content, tokenize='".toList++((tokenizeClause kind).toList++"')".toList)

theorem ftsSql_single (label property : String) {t : FtsTable} (hcolumns : t.columns=["content"]) :
    (ftsSql (singleTableName label property) t).toList="CREATE VIRTUAL TABLE \"node_fts".toList++ '$' ::(label.toList++
      '$' ::(property.toList++ '"' ::singleSqlBack t.kind)) := by
  have hfront : "CREATE VIRTUAL TABLE \"".toList++"node_fts$".toList="CREATE VIRTUAL TABLE \"node_fts".toList++['$'] := by
    simp
  have hback : "\" USING fts5(".toList++("content".toList++", tokenize='".toList)=
      '"' ::" USING fts5(content, tokenize='".toList := by simp
  unfold ftsSql singleTableName singleSqlBack
  rw [hcolumns,String.intercalate_singleton]
  simp only [String.toList_append,String.toList_ofList,List.append_assoc]
  rw [←List.append_assoc,hfront]
  simp only [List.append_assoc,List.cons_append,List.nil_append]
  have hall := congrArg (·++((tokenizeClause t.kind).toList++"')".toList)) hback
  simp only [List.append_assoc,List.cons_append] at hall
  rw [hall]

/-- The tokenizer of a single-property declaration is read as a word tokenizer when label
or property name one, and rightly otherwise. -/
theorem parseTokenizerKind_single {label property : String} (hlabel : isValidName label=true)
    (hproperty : isValidName property=true) {t : FtsTable} (hcolumns : t.columns=["content"]) :
    (NamesWordTokenizer label property → parseTokenizerKind (ftsSql (singleTableName label property) t)=.word) ∧
    (¬NamesWordTokenizer label property →
      parseTokenizerKind (ftsSql (singleTableName label property) t)=t.kind) := by
  have hsplit := ftsSql_single label property hcolumns
  have hpieces : ∀ part : String,'$'∉part.toList → '"'∉part.toList →
      containsText part (ftsSql (singleTableName label property) t)=true →
      ¬part.toList<:+:"CREATE VIRTUAL TABLE \"node_fts".toList →
      containsText part label=true ∨ containsText part property=true ∨ part.toList<:+:singleSqlBack t.kind := by
    intro part hdollar hquote hfound hfront
    rw [containsText_iff,hsplit] at hfound
    rw [containsText_iff,containsText_iff]
    rcases infix_split hdollar hfound with hin|hin
    · exact absurd hin hfront
    · rcases infix_split hdollar hin with hin|hin
      · exact Or.inl hin
      · exact Or.inr (infix_split hquote hin)
  have hfound : ∀ part : String,containsText part label=true ∨ containsText part property=true ∨
      part.toList<:+:singleSqlBack t.kind → containsText part (ftsSql (singleTableName label property) t)=true := by
    intro part hin
    apply containsText_iff.mpr
    have hafter : ∀ (c : Char) (front back : List Char),back<:+:front++c::back :=
      fun c front back => ((List.suffix_cons c back).trans (List.suffix_append front _)).isInfix
    rw [hsplit]
    rcases hin with hin|hin|hin
    · exact ((containsText_iff.mp hin).trans (List.prefix_append _ _).isInfix).trans (hafter _ _ _)
    · exact (((containsText_iff.mp hin).trans (List.prefix_append _ _).isInfix).trans (hafter _ _ _)).trans (hafter _ _ _)
    · exact ((hin.trans (hafter _ _ _)).trans (hafter _ _ _)).trans (hafter _ _ _)
  have hwords : "unicode61".toList<:+:singleSqlBack t.kind ↔ t.kind=.word := by
    cases t.kind <;> decide
  have hfolds : "case_sensitive 0".toList<:+:singleSqlBack t.kind ↔ t.kind=.trigramCaseInsensitive := by
    cases t.kind <;> decide
  constructor
  · intro hnames
    have hword := hfound "unicode61" (hnames.imp id Or.inl)
    rw [parseTokenizerKind,if_pos hword]
  · intro hnames
    have hblank : ∀ name : String,isValidName name=true → ¬containsText "case_sensitive 0" name=true := by
      intro name hname hin
      have hmem : ' '∈name.toList := (containsText_iff.mp hin).subset (by simp)
      exact notMem_of_validName hname (by decide) hmem
    have hword : containsText "unicode61" (ftsSql (singleTableName label property) t)=true ↔ t.kind=.word := by
      rw [←hwords]
      constructor
      · intro hin
        rcases hpieces _ (by decide) (by decide) hin (by decide) with hin|hin|hin
        · exact absurd (Or.inl hin) hnames
        · exact absurd (Or.inr hin) hnames
        · exact hin
      · exact fun hin => hfound _ (Or.inr (Or.inr hin))
    have hfold : containsText "case_sensitive 0" (ftsSql (singleTableName label property) t)=true ↔
        t.kind=.trigramCaseInsensitive := by
      rw [←hfolds]
      constructor
      · intro hin
        rcases hpieces _ (by decide) (by decide) hin (by decide) with hin|hin|hin
        · exact absurd hin (hblank label hlabel)
        · exact absurd hin (hblank property hproperty)
        · exact hin
      · exact fun hin => hfound _ (Or.inr (Or.inr hin))
    unfold parseTokenizerKind
    simp only [hword,hfold]
    cases t.kind <;> rfl

section Numbers

variable {m n : Nat} {c : Char} {text : String}

theorem toString_inj (h : toString m=toString n) : m=n := by
  have hdigits : Nat.toDigits 10 m=Nat.toDigits 10 n := by
    simpa only [Nat.toString_eq_repr,Nat.toList_repr] using congrArg String.toList h
  simpa using congrArg (fun digits => Nat.ofDigitChars 10 digits 0) hdigits

theorem isDigit_of_mem_toString (h : c∈(toString n).toList) : c.isDigit=true := by
  rw [Nat.toString_eq_repr,Nat.toList_repr] at h
  exact Nat.isDigit_of_mem_toDigits (by decide) (by decide) h

theorem parseU64_plain (hplus : '+'∉text.toList) :
    parseU64 text=if text.toList=[] ∨ text.toList.all Char.isDigit=false then none else if text.toList.foldl
    (fun n c => n*10+(c.toNat-48)) 0<2^64 then some (text.toList.foldl (fun n c => n*10+(c.toNat-48)) 0) else none := by
  unfold parseU64
  split
  · next rest heq =>
    rw [heq] at hplus
    exact absurd List.mem_cons_self hplus
  · rfl

theorem parseU64_toString (n : Nat) : parseU64 (toString n)=if n<2^64 then some n else none := by
  have hdigits : (toString n).toList=Nat.toDigits 10 n := by rw [Nat.toString_eq_repr,Nat.toList_repr]
  have hall : ∀ c∈Nat.toDigits 10 n,c.isDigit=true :=
    fun c hc => Nat.isDigit_of_mem_toDigits (by decide) (by decide) hc
  have hne : Nat.toDigits 10 n≠[] := Nat.toDigits_ne_nil
  have hvalue : (Nat.toDigits 10 n).foldl (fun n c => n*10+(c.toNat-48)) 0=n := by
    have hread := @Nat.ofDigitChars_ten_toDigits n
    rw [Nat.ofDigitChars_eq_foldl] at hread
    have hsame : (fun n (c : Char) => n*10+(c.toNat-48))=fun sofar c => 10*sofar+(c.toNat - '0'.toNat) := by
      funext sofar c
      rw [Nat.mul_comm]
      rfl
    rw [hsame]
    exact hread
  have hplus : '+'∉(toString n).toList := fun hin => absurd (isDigit_of_mem_toString hin) (by decide)
  rw [parseU64_plain hplus,hdigits,if_neg (by simp [hne,List.all_eq_true.mpr hall]),hvalue]

theorem isDigit_of_parseU64 (h : parseU64 text=some n) (hplus : '+'∉text.toList) (hc : c∈text.toList) :
    c.isDigit=true := by
  rw [parseU64_plain hplus] at h
  split_ifs at h with hbad
  have hall : text.toList.all Char.isDigit=true := by simpa using (not_or.mp hbad).2
  exact List.all_eq_true.mp hall c hc

/-- The smallest unused number after a sorted list that uses all numbers of a range and
none above it. -/
theorem nextSuffix_range {used : List Nat} (hsorted : used.Pairwise (· ≤ ·)) {k : Nat} (hk : k ≤ m+1)
    (hbound : ∀ u∈used,u ≤ m) (hall : ∀ j,k ≤ j → j ≤ m → j∈used) : nextSuffix k used=m+1 := by
  induction used generalizing k with
  | nil =>
    by_contra hne
    rw [nextSuffix] at hne
    exact absurd (hall k le_rfl (by omega)) List.not_mem_nil
  | cons u rest ih =>
    have hrest := List.pairwise_cons.mp hsorted
    have hlow : ∀ j,u<j → j ≤ m → k ≤ j → j∈rest := by
      intro j hlt hjm hkj
      rcases List.mem_cons.mp (hall j hkj hjm) with heq|hin
      · omega
      · exact hin
    have htail : ∀ j∈rest,j ≤ m := fun j hj => hbound j (List.mem_cons_of_mem _ hj)
    have hu := hbound u List.mem_cons_self
    rw [nextSuffix]
    split_ifs with heq hlt
    · exact ih hrest.2 (by omega) htail fun j hj hjm => hlow j (by omega) hjm (by omega)
    · by_contra hne
      rcases List.mem_cons.mp (hall k le_rfl (by omega)) with hsame|hin
      · omega
      · have hle := hrest.1 k hin
        omega
    · exact ih hrest.2 hk htail fun j hj hjm => hlow j (by omega) hjm hj

end Numbers

section Tables

/-- The endings of the tables of an index: its own and those of its shadow tables. -/
def tableEndings : List String := "" ::shadowSuffixes

variable {ending : String}

theorem ending_cases (h : ending∈tableEndings) :
    ending="" ∨ ∃ word,ending=String.ofList ['_']++word ∧ '_'∉word.toList ∧ ∃ c∈word.toList,c.isDigit=false := by
  have hall : ∀ ending∈tableEndings,ending="" ∨ ending=String.ofList ['_']++String.ofList (ending.toList.drop 1) ∧
      '_'∉ending.toList.drop 1 ∧ ∃ c∈ending.toList.drop 1,c.isDigit=false := by
    simp [tableEndings,shadowSuffixes]
  rcases hall ending h with hempty|⟨hsplit,hunderscore,hword⟩
  · exact Or.inl hempty
  · refine Or.inr ⟨_,hsplit,?_,?_⟩
    · rw [String.toList_ofList]
      exact hunderscore
    · rw [String.toList_ofList]
      exact hword

theorem ending_toLower (h : ending∈tableEndings) : ending.toLower=ending := by
  have hall : ∀ ending∈tableEndings,ending.toList.map Char.toLower=ending.toList := by
    simp [tableEndings,shadowSuffixes]
  exact String.toList_inj.mp ((toLower_toList _).trans (hall ending h))

variable {other ending more label property : String} {n : Nat}

/-- Two texts with endings are equal when the endings are, or one ends like a shadow table
of the other. -/
theorem append_ending_iff {text : String} (hending : ending∈tableEndings) (hmore : more∈tableEndings)
    (h : text++ending=other++more) : (text=other ∧ ending=more) ∨
    (ending="" ∧ text=other++more ∧ more∈shadowSuffixes) ∨ (more="" ∧ other=text++ending ∧ ending∈shadowSuffixes) := by
  have hshadow : ∀ ending∈tableEndings,ending≠"" → ending∈shadowSuffixes := by
    intro ending hending hne
    exact (List.mem_cons.mp hending).resolve_left hne
  rcases ending_cases hending with hempty|⟨word,hsplit,hword,-⟩
  · by_cases hnone : more=""
    · rw [hempty,hnone,String.append_empty,String.append_empty] at h
      exact Or.inl ⟨h,hempty.trans hnone.symm⟩
    · rw [hempty,String.append_empty] at h
      exact Or.inr (Or.inl ⟨hempty,h,hshadow more hmore hnone⟩)
  · rcases ending_cases hmore with hempty|⟨word',hsplit',hword',-⟩
    · have hne : ending≠"" := by
        intro hnone
        rw [hsplit] at hnone
        exact absurd (congrArg String.toList hnone) (by simp)
      rw [hempty,String.append_empty] at h
      exact Or.inr (Or.inr ⟨hempty,h.symm,hshadow ending hending hne⟩)
    · have hcut := congrArg (cutLast '_') h
      rw [hsplit,hsplit',cutLast_append text hword,cutLast_append other hword'] at hcut
      have hparts := Prod.mk.inj (Option.some.inj hcut)
      exact Or.inl ⟨hparts.1,by rw [hsplit,hsplit',hparts.2]⟩

theorem dollar_inj {rest : String} (hlabel : '$'∉label.toList) (hother : '$'∉other.toList)
    (h : "node_fts$"++(label++(String.ofList ['$']++rest))="node_fts$"++(other++(String.ofList ['$']++more))) :
    label=other ∧ rest=more := by
  have hcut := congrArg (cutFirst '$') (String.append_right_inj _ |>.mp h)
  rw [cutFirst_append hlabel,cutFirst_append hother] at hcut
  exact Prod.mk.inj (Option.some.inj hcut)

theorem number_inj {m : Nat} (hending : ending∈tableEndings) (hmore : more∈tableEndings)
    (h : label++(String.ofList ['_']++(toString m++ending))= other++(String.ofList ['_']++(toString n++more))) :
    label=other ∧ m=n ∧ ending=more := by
  have hsplit : (label++(String.ofList ['_']++toString m))++ending=(other++(String.ofList ['_']++toString n))++more := by
    simpa only [String.append_assoc] using h
  have hnumber : ∀ (front back : String) (k j : Nat) (end_ : String),end_∈shadowSuffixes →
      front++(String.ofList ['_']++toString k)≠(back++(String.ofList ['_']++toString j))++end_ := by
    intro front back k j end_ hend hsame
    rcases ending_cases (List.mem_cons_of_mem "" hend) with hempty|⟨word,hword,hunderscore,c,hc,hdigit⟩
    · rw [hempty] at hend
      exact absurd hend (by decide)
    · have hcut := congrArg (cutLast '_') hsame
      rw [hword,cutLast_append front (underscore_notMem_toString k),cutLast_append _ hunderscore] at hcut
      rw [←(Prod.mk.inj (Option.some.inj hcut)).2] at hc
      exact absurd ((isDigit_of_mem_toString hc).symm.trans hdigit) (by decide)
  rcases append_ending_iff hending hmore hsplit with ⟨hsame,hends⟩|⟨-,hsame,hshadow⟩|⟨-,hsame,hshadow⟩
  · have hcut := congrArg (cutLast '_') hsame
    rw [cutLast_append label (underscore_notMem_toString m),cutLast_append other (underscore_notMem_toString n)] at hcut
    have hparts := Prod.mk.inj (Option.some.inj hcut)
    exact ⟨hparts.1,toString_inj hparts.2,hends⟩
  · exact absurd hsame (hnumber _ _ _ _ _ hshadow)
  · exact absurd hsame (hnumber _ _ _ _ _ hshadow)

theorem single_toLower (label property : String) (hending : ending∈tableEndings) :
    (singleTableName label property++ending).toLower=
    "node_fts$"++(label.toLower++(String.ofList ['$']++(property.toLower++ending))) := by
  have hfront : "node_fts$".toLower="node_fts$" := String.toList_inj.mp (toLower_toList _)
  have hdollar : (String.ofList ['$']).toLower=String.ofList ['$'] := String.toList_inj.mp (toLower_toList _)
  rw [singleTableName,toLower_append,toLower_append,toLower_append,toLower_append,hfront,hdollar,ending_toLower hending]
  simp only [String.append_assoc]

theorem multi_toLower (label : String) (n : Nat) (hending : ending∈tableEndings) :
    (multiTableName label n++ending).toLower=
    "node_fts_multi_"++(label.toLower++(String.ofList ['_']++(toString n++ending))) := by
  have hfront : "node_fts_multi_".toLower="node_fts_multi_" := String.toList_inj.mp (toLower_toList _)
  have hunderscore : (String.ofList ['_']).toLower=String.ofList ['_'] := String.toList_inj.mp (toLower_toList _)
  have hnumber : (toString n).toLower=toString n := by
    refine String.toList_inj.mp ((toLower_toList _).trans ?_)
    have hsame : ∀ c∈(toString n).toList,c.toLower=c := by
      intro c hc
      have hdigit := isDigit_of_mem_toString hc
      have hrange : 48 ≤ c.val ∧ c.val ≤ 57 := by simpa [Char.isDigit] using hdigit
      unfold Char.toLower
      rw [dif_neg]
      intro hupper
      have hlow : 65 ≤ c.val := hupper.1
      exact absurd (UInt32.le_trans hlow hrange.2) (by decide)
    exact (List.map_congr_left hsame).trans (List.map_id _)
  rw [multiTableName,toLower_append,toLower_append,toLower_append,toLower_append,hfront,hunderscore,hnumber,
    ending_toLower hending]
  simp only [String.append_assoc]

theorem single_ne_multi (front back : String) : "node_fts$"++front≠"node_fts_multi_"++back := by
  intro h
  have htext := congrArg (fun text : String => text.toList.take 9) h
  simp only [String.toList_append] at htext
  have hleft : ("node_fts$".toList++front.toList).take 9="node_fts$".toList := List.take_left' rfl
  have hsplit : "node_fts_multi_".toList="node_fts_".toList++"multi_".toList := by simp
  have hright : ("node_fts_multi_".toList++back.toList).take 9="node_fts_".toList := by
    rw [hsplit,List.append_assoc]
    exact List.take_left' rfl
  rw [hleft,hright] at htext
  cases htext

/-- Two single-property indexes with a table of one name up to letter case: the labels
agree, and the properties do or one ends like a shadow table of the other. -/
def TablesClash (label property other more : String) : Prop :=
  label.toLower=other.toLower ∧ (property.toLower=more.toLower ∨
    ∃ ending∈shadowSuffixes,property.toLower=more.toLower++ending ∨ more.toLower=property.toLower++ending)

theorem tablesClash_iff (hlabel : isValidName label=true) (hother : isValidName other=true) :
    TablesClash label property other more ↔ ∃ ending∈tableEndings,∃ ending'∈tableEndings,
    (singleTableName label property++ending).toLower=(singleTableName other more++ending').toLower := by
  have hempty : ""∈tableEndings := List.mem_cons_self
  constructor
  · intro hclash
    have ⟨hlabels,hproperties⟩ := hclash
    rcases hproperties with hsame|⟨ending,hending,hfirst|hsecond⟩
    · refine ⟨"",hempty,"",hempty,?_⟩
      rw [single_toLower _ _ hempty,single_toLower _ _ hempty,hlabels,hsame]
    · have hmem : ending∈tableEndings := List.mem_cons_of_mem _ hending
      refine ⟨"",hempty,ending,hmem,?_⟩
      rw [single_toLower _ _ hempty,single_toLower _ _ hmem,hlabels,hfirst,String.append_empty]
    · have hmem : ending∈tableEndings := List.mem_cons_of_mem _ hending
      refine ⟨ending,hmem,"",hempty,?_⟩
      rw [single_toLower _ _ hempty,single_toLower _ _ hmem,hlabels,hsecond,String.append_empty]
  · intro htables
    have ⟨ending,hending,ending',hending',hsame⟩ := htables
    rw [single_toLower _ _ hending,single_toLower _ _ hending'] at hsame
    have ⟨hlabels,hrest⟩ := dollar_inj (dollar_notMem_toLower hlabel) (dollar_notMem_toLower hother) hsame
    refine ⟨hlabels,?_⟩
    rcases append_ending_iff hending hending' hrest with ⟨hsame,-⟩|⟨-,hsame,hshadow⟩|⟨-,hsame,hshadow⟩
    · exact Or.inl hsame
    · exact Or.inr ⟨_,hshadow,Or.inl hsame⟩
    · exact Or.inr ⟨_,hshadow,Or.inr hsame⟩

/-- The older name of a pair is the name of a table of a multi-property index. -/
def LegacyClash (label property other : String) (n : Nat) : Prop :=
  ∃ ending∈tableEndings,label++("_"++property)="multi_"++(other++("_"++(toString n++ending)))

theorem legacyClash_iff : LegacyClash label property other n ↔
    ∃ ending∈tableEndings,legacyTableName label property=multiTableName other n++ending := by
  have hfront : "node_fts_multi_"="node_fts_"++"multi_" := String.toList_inj.mp (by simp)
  have hunderscore : "_"=String.ofList ['_'] := String.toList_inj.mp (by simp)
  have hshape : ∀ ending : String,multiTableName other n++ending=
      "node_fts_"++("multi_"++(other++("_"++(toString n++ending)))) := by
    intro ending
    rw [multiTableName,hfront,hunderscore]
    simp only [String.append_assoc]
  simp only [LegacyClash,legacyTableName,hshape,String.append_right_inj]

theorem legacy_ne_single (label property rest : String) : legacyTableName label property≠"node_fts$"++rest := by
  intro h
  have htext := congrArg (fun text : String => text.toList.take 9) h
  simp only [legacyTableName,String.toList_append] at htext
  have hleft : ("node_fts_".toList++(label.toList++("_".toList++property.toList))).take 9="node_fts_".toList :=
    List.take_left' rfl
  have hright : ("node_fts$".toList++rest.toList).take 9="node_fts$".toList := List.take_left' rfl
  rw [hleft,hright] at htext
  cases htext

end Tables

end GraphDbLite.FullTextNames
