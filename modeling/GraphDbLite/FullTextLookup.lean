import GraphDbLite.IdRewrite
import GraphDbLite.FullTextMirror

/-!
# Full-text lookups

A full-text lookup finds the nodes whose text the index of a property matches, or,
for short terms, compares the texts of a label scan. When the table of the index
mirrors the nodes, its rows are the records of these nodes with a score. Rows are
compared without their scores, and no other field or relationship binding depends on
them.
-/

namespace GraphDbLite.FullTextLookup

open ByteStrings GraphTypes OrderedTable GraphStore NodeStorage WriteOperators FullText
open CypherSyntax CypherEval QueryPlan FallibleLists QueryExecutor NodeView NodeRecords
open IndexAccess IndexChoice FullTextMirror

variable {S : Type}

/-- A comparison that a full-text lookup can answer. -/
structure MatchedFts (S : Type) where
  /-- Compared property. -/
  property : String
  /-- Comparison. -/
  op : FullTextOp
  /-- Term, without its lower-casing. -/
  term : Expr S
  /-- Whether both sides are lower-cased. -/
  needsCi : Bool

/-- A record without the scores of full-text lookups. -/
def dropScores (rec : NamedRecord) : NamedRecord :=
  ⟨rec.fields.filter fun field => !isFtsScore field.1⟩

/-- A replaced plan covers the written one: when the written one returns rows, it
returns the same rows up to scores. -/
def Covers (new old : Result Rows) : Prop :=
  ∀ rows,old=.ok rows → ∃ rows',new=.ok rows' ∧
    ∀ r,r∈rows'.map dropScores ↔ r∈rows.map dropScores

section Scores

variable {back text front : String} {value : Value}

theorem stripEnd_isSome : (stripEnd back text).isSome=true ↔ ∃ front,text=front++back := by
  unfold stripEnd
  by_cases h : back.toList.isSuffixOf text.toList=true
  · rw [if_pos h]
    have ⟨front,hfront⟩ := List.isSuffixOf_iff_suffix.mp h
    refine iff_of_true rfl ⟨String.ofList front,?_⟩
    apply String.toList_inj.mp
    rw [String.toList_append,String.toList_ofList,hfront]
  · rw [if_neg h]
    refine iff_of_false (by simp) fun hex => ?_
    have ⟨front,hfront⟩ := hex
    refine h (List.isSuffixOf_iff_suffix.mpr ⟨front.toList,?_⟩)
    rw [hfront,String.toList_append]

theorem isFtsScore_append_false (hshort : back.toList.isSuffixOf ".__fts_score".toList=false)
    (hlong : ".__fts_score".toList.isSuffixOf back.toList=false) : isFtsScore (front++back)=false := by
  cases hscore : isFtsScore (front++back) with
  | false => rfl
  | true =>
    have ⟨other,hother⟩ := stripEnd_isSome.mp hscore
    have hback : back.toList <:+ (front++back).toList := by
      rw [String.toList_append]
      exact List.suffix_append _ _
    have hend : ".__fts_score".toList <:+ (front++back).toList := by
      rw [hother,String.toList_append]
      exact List.suffix_append _ _
    cases List.suffix_or_suffix_of_suffix hback hend with
    | inl h =>
      rw [List.isSuffixOf_iff_suffix.mpr h] at hshort
      exact absurd hshort (by decide)
    | inr h =>
      rw [List.isSuffixOf_iff_suffix.mpr h] at hlong
      exact absurd hlong (by decide)

theorem isFtsScore_field (nodeAlias : String) : isFtsScore (nodeAlias++".__fts_score")=true :=
  stripEnd_isSome.mpr ⟨nodeAlias,rfl⟩

theorem getProp_filter {fields : List (String×Value)} {keep : String → Bool} {key : String}
    (h : keep key=true) : getProp (fields.filter fun field => keep field.1) key=getProp fields key := by
  unfold getProp
  rw [List.find?_filter]
  congr 1
  refine congrArg (fun p => fields.find? p) (funext fun field => ?_)
  by_cases hk : field.1=key
  · rw [hk,h]
    simp
  · simp [hk]

variable {rec : NamedRecord} {key : String}

theorem get_dropScores (h : isFtsScore key=false) : (dropScores rec).get key=rec.get key := by
  have hkeep : (!isFtsScore key)=true := by rw [h,Bool.not_false]
  exact @getProp_filter rec.fields (fun k => !isFtsScore k) key hkeep

theorem dropScores_set_score (h : isFtsScore key=true) : dropScores (rec.set key value)=dropScores rec := by
  unfold dropScores NamedRecord.set
  split_ifs with hs
  · congr 1
    dsimp only
    clear hs
    induction rec.fields with
    | nil => rfl
    | cons field rest ih =>
      rw [List.map_cons]
      by_cases hf : field.1=key
      · rw [if_pos hf,List.filter_cons_of_neg (by simp [h]),List.filter_cons_of_neg (by simp [hf,h])]
        exact ih
      · rw [if_neg hf,List.filter_cons,List.filter_cons,ih]
  · congr 1
    rw [List.filter_append,List.filter_cons_of_neg (by simp [h]),List.filter_nil,List.append_nil]

theorem dropScores_set (h : isFtsScore key=false) : dropScores (rec.set key value)=(dropScores rec).set key value := by
  unfold NamedRecord.set
  rw [get_dropScores h]
  split_ifs with hs
  · unfold dropScores
    congr 1
    dsimp only
    clear hs
    induction rec.fields with
    | nil => rfl
    | cons field rest ih =>
      rw [List.map_cons]
      by_cases hf : field.1=key
      · rw [if_pos hf,List.filter_cons_of_pos (by simp [h]),List.filter_cons_of_pos (by simp [hf,h]),
          List.map_cons,if_pos hf,ih]
      · rw [if_neg hf]
        by_cases hscore : isFtsScore field.1=true
        · rw [List.filter_cons_of_neg (by simp [hscore]),List.filter_cons_of_neg (by simp [hscore]),ih]
        · rw [List.filter_cons_of_pos (by simpa using hscore),
            List.filter_cons_of_pos (by simpa using hscore),List.map_cons,if_neg hf,ih]
  · unfold dropScores
    congr 1
    rw [List.filter_append,List.filter_cons_of_pos (by simp [h]),List.filter_nil]

theorem dropScores_fillFrom (rec other : NamedRecord) :
    dropScores (NamedRecord.fillFrom rec other)=
      NamedRecord.fillFrom (dropScores rec) (dropScores other) := by
  have ⟨fields⟩ := other
  unfold NamedRecord.fillFrom
  induction fields generalizing rec with
  | nil => rfl
  | cons field rest ih =>
    have htail := ih (if (rec.get field.1).isSome=true then rec else rec.set field.1 field.2)
    dsimp only [dropScores] at htail ⊢
    rw [List.foldl_cons,htail]
    cases hscore : isFtsScore field.1 with
    | true =>
      rw [List.filter_cons_of_neg (by simp [hscore])]
      have hsame : dropScores (if (rec.get field.1).isSome=true then rec
          else rec.set field.1 field.2)=dropScores rec := by
        split_ifs with hs
        · rfl
        · exact dropScores_set_score hscore
      unfold dropScores at hsame
      rw [hsame]
    | false =>
      rw [List.filter_cons_of_pos (by simp [hscore]),List.foldl_cons]
      have hsame : dropScores (if (rec.get field.1).isSome=true then rec
          else rec.set field.1 field.2)=if ((dropScores rec).get field.1).isSome=true then dropScores rec
          else (dropScores rec).set field.1 field.2 := by
        rw [get_dropScores hscore]
        split_ifs with hs
        · rfl
        · exact dropScores_set hscore
      unfold dropScores at hsame
      rw [hsame]

theorem eq_of_stripEnd (h : stripEnd back text=some front) : text=front++back := by
  unfold stripEnd at h
  split_ifs at h with hs
  have ⟨rest,hrest⟩ := List.isSuffixOf_iff_suffix.mp hs
  have hfront := Option.some.inj h
  rw [←hrest,List.length_append,Nat.add_sub_cancel,List.take_left] at hfront
  apply String.toList_inj.mp
  rw [String.toList_append,←hfront,String.toList_ofList,hrest]

theorem flatEdges_dropScores (rec : NamedRecord) : flatEdges (dropScores rec)=flatEdges rec := by
  have hsrc : ∀ front,isFtsScore (front++".__src")=false := fun front =>
    isFtsScore_append_false (by decide) (by decide)
  have hdst : ∀ front,isFtsScore (front++".__dst")=false := fun front =>
    isFtsScore_append_false (by decide) (by decide)
  have htype : ∀ front,isFtsScore (front++".__type")=false := fun front =>
    isFtsScore_append_false (by decide) (by decide)
  have hseq : ∀ front,isFtsScore (front++".__edge_seq")=false := fun front =>
    isFtsScore_append_false (by decide) (by decide)
  unfold flatEdges
  rw [show (dropScores rec).fields=rec.fields.filter fun field => !isFtsScore field.1 from rfl,
    List.filterMap_filter]
  apply List.filterMap_congr
  intro field _
  cases hstrip : stripEnd ".__src" field.1 with
  | none =>
    cases isFtsScore field.1 with
    | false | true => rfl
  | some relAlias =>
    have hfield := eq_of_stripEnd hstrip
    have hkeep : isFtsScore field.1=false := by
      rw [hfield]
      exact hsrc relAlias
    rw [hkeep,Bool.not_false,if_pos rfl]
    dsimp only
    unfold edgeSeqField
    rw [get_dropScores hkeep,get_dropScores (hdst relAlias),get_dropScores (htype relAlias),
      get_dropScores (hseq relAlias)]

end Scores

section Lookups

variable (env : QueryEnv S) (st : Store)

/-- The assumption about the virtual-table module: a term of at least three characters
matches the texts that contain it, compared as written or in lower case. -/
def TrigramExact : Prop :=
  ∀ term text,3≤term.toList.length →
    env.ftsMatches .trigramCaseSensitive term text=containsText term text ∧
    env.ftsMatches .trigramCaseInsensitive term text=
      containsText (env.eval.toLowercase term) (env.eval.toLowercase text)

/-- Whether an index finds a text. -/
def indexFinds (kind : FtsTokenizerKind) (term text : String) : Bool :=
  match kind with
  | .trigramCaseSensitive => containsText term text
  | .trigramCaseInsensitive => containsText (env.eval.toLowercase term) (env.eval.toLowercase text)
  | .word => false

/-- The kind of the index of a property. -/
def kindOf (label property : String) : FtsTokenizerKind :=
  (ftsTokenizerKind st label property).toOption.getD .word

/-- The table that a lookup reads is intact and mirrors the nodes. -/
structure SearchTable (label property table : String) (t : FtsTable) : Prop where
  /-- The lookup resolves to the table. -/
  resolved : resolveFtsTable st label property=.ok table
  /-- The table exists. -/
  present : get st.ftsTables table=some t
  /-- Its shadow tables exist. -/
  shadows : t.shadows=shadowSuffixes
  /-- It has the one column of single-property tables. -/
  columns : t.columns=["content"]
  /-- Its tokenizer is the listed one. -/
  tokenizer : t.kind=kindOf st label property
  /-- It holds the text of each node with the label, and nothing else. -/
  rows : ∀ id,rowsOf t id=expectedRows (recordAt st id) ⟨label,[property],t.kind,table⟩

/-- The tables of all trigram indexes mirror the nodes. -/
def SearchTablesMirror : Prop :=
  ∀ label property,kindOf st label property≠.word → ∃ table t,SearchTable st label property table t

/-- A node that a lookup of a term finds: short terms are compared with every node of
the label, longer ones are searched in the index and their position is compared as
written. -/
def LookupFinds (label : String) (matched : MatchedFts S) (term : String) (n : Node) : Prop :=
  ∃ text,textOf n.properties matched.property=some text ∧
    if term.toList.length<3 then n∈findNodesByLabel st label ∧ textOpHolds matched.op text term=true
    else Stored st n ∧ label∈n.labels ∧
      indexFinds env (kindOf st label matched.property) term text=true ∧
      (matched.op=.contains ∨ textOpHolds matched.op text term=true)

/-- The score of a found node. -/
def lookupScore (label property term : String) (n : Node) : UInt64 :=
  if term.toList.length<3 then 0
  else
    match resolveFtsTable st label property with
    | .error _ => 0
    | .ok table =>
      match get st.ftsTables table with
      | some t => env.ftsScore t term n.id.toInt64
      | none => 0

/-- The record of a found node with its score. -/
def scoredRecord (label nodeAlias property term : String) (n : Node) : NamedRecord :=
  (nodeToRecord n nodeAlias).set (nodeAlias++".__fts_score")
    (.f64 (lookupScore env st label property term n))

variable {env st} {label nodeAlias : String} {matched : MatchedFts S} {residual : Option (Expr S)}
variable {term : String}

theorem LookupFinds.stored {n : Node} (h : LookupFinds env st label matched term n) : Stored st n := by
  have ⟨text,_,hfound⟩ := h
  by_cases hshort : term.toList.length<3
  · rw [if_pos hshort] at hfound
    exact stored_of_mem_findNodesByLabel hfound.1
  · rw [if_neg hshort] at hfound
    exact hfound.1

theorem dropScores_scoredRecord (label nodeAlias property term : String) (n : Node) :
    dropScores (scoredRecord env st label nodeAlias property term n)=
      dropScores (nodeToRecord n nodeAlias) :=
  dropScores_set_score (isFtsScore_field nodeAlias)

variable {kind : FtsTokenizerKind} {property table term : String} {t : FtsTable}

theorem ftsMatches_eq_indexFinds (htrigram : TrigramExact env) (hkind : kind≠.word)
    (hlong : 3≤term.toList.length) (text : String) : env.ftsMatches kind term text=indexFinds env kind term text := by
  cases kind with
  | trigramCaseSensitive => exact (htrigram term text hlong).1
  | trigramCaseInsensitive => exact (htrigram term text hlong).2
  | word => exact absurd rfl hkind

theorem mem_expectedRows_single {id : NodeId} {texts : Texts} :
    texts∈expectedRows (recordAt st id) ⟨label,[property],kind,table⟩ ↔ ∃ n text,Stored st n ∧ n.id=id ∧
    label∈n.labels ∧ textOf n.properties property=some text ∧ texts=[some text] := by
  unfold expectedRows
  cases hrecord : recordAt st id with
  | none =>
    refine iff_of_false List.not_mem_nil fun hex => ?_
    have ⟨n,_,hn,hid,_⟩ := hex
    rw [stored_iff,hid,hrecord] at hn
    cases hn
  | some r =>
    dsimp only
    have htexts : textsOf (some r.properties) [property]=[textOf r.properties property] := rfl
    rw [htexts]
    constructor
    · intro hmem
      split_ifs at hmem with hif
      · have heq := List.mem_singleton.mp hmem
        have hsome : (textOf r.properties property).isSome=true := by
          have hany := hif.2
          unfold anyText at hany
          simpa using hany
        have ⟨text,htext⟩ := Option.isSome_iff_exists.mp hsome
        refine ⟨⟨id,r.labels,r.properties⟩,text,?_,rfl,hif.1,htext,?_⟩
        · rw [stored_iff,hrecord]
        · rw [heq,htext]
      · exact absurd hmem List.not_mem_nil
    · intro hex
      have ⟨n,text,hn,hid,hlabel,htext,heq⟩ := hex
      rw [stored_iff,hid,hrecord] at hn
      have hr := Option.some.inj hn
      rw [hr]
      dsimp only
      rw [htext,heq]
      rw [if_pos ⟨hlabel,rfl⟩]
      exact List.mem_singleton.mpr rfl

theorem mem_ftsQuery (htable : SearchTable st label property table t) {c : NodeId×UInt64} :
    c∈ftsQuery env t term ↔ ∃ n text,Stored st n ∧ label∈n.labels ∧ textOf n.properties property=some text ∧
    env.ftsMatches t.kind term text=true ∧ c=(n.id,env.ftsScore t term n.id.toInt64) := by
  unfold ftsQuery
  rw [List.mem_filterMap,htable.columns]
  constructor
  · intro hex
    have ⟨row,hrow,hc⟩ := hex
    have hid : row.1.toUInt64.toInt64=row.1 := Int64.toInt64_toUInt64 row.1
    have htexts : row.2∈rowsOf t row.1.toUInt64 :=
      List.mem_map.mpr ⟨row,List.mem_filter.mpr ⟨hrow,by rw [hid]; simp⟩,rfl⟩
    rw [htable.rows,mem_expectedRows_single] at htexts
    have ⟨n,text,hn,hnid,hlabel,htext,heq⟩ := htexts
    rw [heq] at hc
    have hcell : ((["content"].zip [some text]).find? fun cell => decide (cell.1 = "content")).bind
        Prod.snd=some text := rfl
    rw [hcell] at hc
    dsimp only at hc
    split_ifs at hc with hmatch
    have hpair := Option.some.inj hc
    refine ⟨n,text,hn,hlabel,htext,hmatch,?_⟩
    rw [hnid,hid]
    exact hpair.symm
  · intro hex
    have ⟨n,text,hn,hlabel,htext,hmatch,hc⟩ := hex
    have hrows : [some text]∈rowsOf t n.id := by
      rw [htable.rows,mem_expectedRows_single]
      exact ⟨n,text,hn,rfl,hlabel,htext,rfl⟩
    have ⟨row,hrow,htexts⟩ := List.mem_map.mp hrows
    have ⟨hin,hid⟩ := List.mem_filter.mp hrow
    have hrowid : row.1=n.id.toInt64 := of_decide_eq_true hid
    refine ⟨row,hin,?_⟩
    rw [htexts]
    have hcell : ((["content"].zip [some text]).find? fun cell => decide (cell.1 = "content")).bind
        Prod.snd=some text := rfl
    rw [hcell]
    dsimp only
    rw [if_pos hmatch,hc,hrowid,UInt64.toUInt64_toInt64]

/-- The failures and rows of a lookup, by the nodes it finds. -/
def FindsRows (env : QueryEnv S) (st : Store) (label nodeAlias : String) (matched : MatchedFts S)
    (residual : Option (Expr S)) (term : String) (x : Result Rows) : Prop :=
  (Fails x ↔ ∃ n,LookupFinds env st label matched term n ∧
    Fails (passesFilter env st residual (scoredRecord env st label nodeAlias matched.property term n))) ∧
  ∀ rows,x=.ok rows → ∀ r,r∈rows ↔ ∃ n,LookupFinds env st label matched term n ∧
    passesFilter env st residual (scoredRecord env st label nodeAlias matched.property term n)=.ok true ∧
    r=scoredRecord env st label nodeAlias matched.property term n

theorem findsRows_gather {γ : Type} {term : String} {f : γ → Result Rows} {items : List γ}
    {found : γ → Node → Prop}
    (hfound : ∀ n,(∃ c∈items,found c n) ↔ LookupFinds env st label matched term n)
    (hchecks : ∀ c∈items,Checks f found (fun n => passesFilter env st residual
        (scoredRecord env st label nodeAlias matched.property term n))
      (scoredRecord env st label nodeAlias matched.property term) c) :
    FindsRows env st label nodeAlias matched residual term (gather f items) := by
  constructor
  · rw [fails_gather_checked hchecks]
    constructor
    · intro h
      have ⟨c,hc,n,hn,hfail⟩ := h
      exact ⟨n,(hfound n).mp ⟨c,hc,hn⟩,hfail⟩
    · intro h
      have ⟨n,hn,hfail⟩ := h
      have ⟨c,hc,hcn⟩ := (hfound n).mpr hn
      exact ⟨c,hc,n,hcn,hfail⟩
  · intro rows hrows r
    rw [mem_gather_checked hchecks hrows]
    constructor
    · intro h
      have ⟨c,hc,n,hn,htest⟩ := h
      exact ⟨n,(hfound n).mp ⟨c,hc,hn⟩,htest⟩
    · intro h
      have ⟨n,hn,htest⟩ := h
      have ⟨c,hc,hcn⟩ := (hfound n).mpr hn
      exact ⟨c,hc,n,hcn,htest⟩

theorem ftsRow_eq (nodeAlias : String) (residual : Option (Expr S)) (n : Node) (score : UInt64) :
    ftsRow env st nodeAlias residual n score=(passesFilter env st residual
      ((nodeToRecord n nodeAlias).set (nodeAlias++".__fts_score") (.f64 score))).map fun keep =>
        if keep=true then [(nodeToRecord n nodeAlias).set (nodeAlias++".__fts_score") (.f64 score)]
        else [] := by
  unfold ftsRow
  dsimp only
  cases passesFilter env st residual
      ((nodeToRecord n nodeAlias).set (nodeAlias++".__fts_score") (.f64 score)) with
  | error e | ok keep => rfl

theorem findsRows_fallback (hshort : term.toList.length<3) :
    FindsRows env st label nodeAlias matched residual term
    (execFulltextFallback env st label nodeAlias matched.property matched.op term residual) := by
  have hscore : ∀ n,scoredRecord env st label nodeAlias matched.property term n=
      (nodeToRecord n nodeAlias).set (nodeAlias++".__fts_score") (.f64 0) := by
    intro n
    unfold scoredRecord lookupScore
    rw [if_pos hshort]
  unfold execFulltextFallback
  refine @findsRows_gather S env st label nodeAlias matched residual Node term _ _
    (fun c n => n=c ∧ ∃ text,textOf c.properties matched.property=some text ∧
      textOpHolds matched.op text term=true) (fun n => ?_) fun c _ => ?_
  · constructor
    · intro h
      have ⟨c,hc,hn,text,htext,hop⟩ := h
      rw [hn]
      refine ⟨text,htext,?_⟩
      rw [if_pos hshort]
      exact ⟨hc,hop⟩
    · intro h
      have ⟨text,htext,hif⟩ := h
      rw [if_pos hshort] at hif
      exact ⟨n,hif.1,rfl,text,htext,hif.2⟩
  · unfold Checks
    dsimp only
    cases htext : textOf c.properties matched.property with
    | none =>
      refine Or.inl ⟨rfl,fun n hn => ?_⟩
      have ⟨_,text,hsome,_⟩ := hn
      cases hsome
    | some text =>
      dsimp only
      by_cases hop : textOpHolds matched.op text term=true
      · rw [if_pos hop]
        refine Or.inr ⟨c,fun d => ⟨fun hd => hd.1,fun hd => ⟨hd,text,rfl,hop⟩⟩,?_⟩
        rw [hscore]
        exact ftsRow_eq nodeAlias residual c 0
      · rw [if_neg hop]
        refine Or.inl ⟨rfl,fun n hn => ?_⟩
        have ⟨_,other,hother,hholds⟩ := hn
        rw [←Option.some.inj hother] at hholds
        exact hop hholds

theorem ftsAnchorMatches_iff {properties : Properties} {text : String} {op : FullTextOp}
    (htext : textOf properties property=some text) :
    ftsAnchorMatches properties property op term=true ↔ op=.contains ∨ textOpHolds op text term=true := by
  unfold ftsAnchorMatches
  rw [htext]
  cases op with
  | contains | startsWith | endsWith => simp

theorem findsRows_candidates (htrigram : TrigramExact env)
    (hkind : kindOf st label matched.property≠.word)
    (htable : SearchTable st label matched.property table t)
    (hlong : ¬term.toList.length<3) :
    FindsRows env st label nodeAlias matched residual term
      (gather (fun candidate => do
        let n ← getNode st candidate.1
        if ftsAnchorMatches n.properties matched.property matched.op term=true then
          ftsRow env st nodeAlias residual n candidate.2
        else pure []) (ftsQuery env t term)) := by
  have hscore : ∀ n,scoredRecord env st label nodeAlias matched.property term n=
      (nodeToRecord n nodeAlias).set (nodeAlias++".__fts_score")
        (.f64 (env.ftsScore t term n.id.toInt64)) := by
    intro n
    unfold scoredRecord lookupScore
    rw [if_neg hlong,htable.resolved]
    dsimp only
    rw [htable.present]
  have hmatches : ∀ text,env.ftsMatches t.kind term text=
      indexFinds env (kindOf st label matched.property) term text := by
    intro text
    rw [htable.tokenizer]
    exact ftsMatches_eq_indexFinds htrigram hkind (by omega) text
  refine @findsRows_gather S env st label nodeAlias matched residual (NodeId×UInt64) term _ _
    (fun c n => n.id=c.1 ∧ Stored st n ∧
      ftsAnchorMatches n.properties matched.property matched.op term=true) (fun n => ?_)
    fun c hc => ?_
  · constructor
    · intro h
      have ⟨c,hc,hid,hn,hanchor⟩ := h
      have ⟨m,text,hm,hlabel,htext,hmatch,hpair⟩ := (mem_ftsQuery htable).mp hc
      have hnm : n=m := by
        rw [hpair] at hid
        unfold Stored at hn hm
        rw [hid,hm] at hn
        exact (Except.ok.inj hn).symm
      rw [hnm] at hanchor ⊢
      refine ⟨text,htext,?_⟩
      rw [if_neg hlong,←hmatches]
      exact ⟨hm,hlabel,hmatch,(ftsAnchorMatches_iff htext).mp hanchor⟩
    · intro h
      have ⟨text,htext,hif⟩ := h
      rw [if_neg hlong,←hmatches] at hif
      exact ⟨_,(mem_ftsQuery htable).mpr ⟨n,text,hif.1,hif.2.1,htext,hif.2.2.1,rfl⟩,rfl,hif.1,
        (ftsAnchorMatches_iff htext).mpr hif.2.2.2⟩
  · have ⟨m,text,hm,_,_,_,hpair⟩ := (mem_ftsQuery htable).mp hc
    rw [hpair]
    unfold Checks
    have hget : getNode st m.id=.ok m := hm
    have honly : ∀ n,n.id=m.id → Stored st n → n=m := by
      intro n hid hn
      unfold Stored at hn
      rw [hid,hget] at hn
      exact (Except.ok.inj hn).symm
    dsimp only
    rw [bind_of_ok hget]
    by_cases hanchor : ftsAnchorMatches m.properties matched.property matched.op term=true
    · rw [if_pos hanchor]
      refine Or.inr ⟨m,fun d => ⟨fun hd => honly d hd.1 hd.2.1,fun hd => ?_⟩,?_⟩
      · rw [hd]
        exact ⟨rfl,hm,hanchor⟩
      · rw [hscore]
        exact ftsRow_eq nodeAlias residual m _
    · rw [if_neg hanchor]
      refine Or.inl ⟨rfl,fun n hn => ?_⟩
      have ⟨hid,hstored,hholds⟩ := hn
      rw [honly n hid hstored] at hholds
      exact hanchor hholds

theorem findsRows_execFulltextLookup (htrigram : TrigramExact env) (hmirror : SearchTablesMirror st)
    (hkind : kindOf st label matched.property≠.word) {record : NamedRecord} {term : String}
    (hterm : evalExpr env.eval st matched.term record=.ok (.string term)) :
    FindsRows env st label nodeAlias matched residual term
      (execFulltextLookup env st label nodeAlias matched.property matched.op matched.term residual
        record) := by
  unfold execFulltextLookup
  rw [bind_of_ok hterm]
  dsimp only
  by_cases hshort : term.toList.length<3
  · have hlookup : fulltextLookup env st label matched.property term=.ok none := by
      unfold fulltextLookup
      rw [if_pos hshort]
    rw [bind_of_ok hlookup]
    exact findsRows_fallback hshort
  · have ⟨table,t,htable⟩ := hmirror label matched.property hkind
    have hlookup : fulltextLookup env st label matched.property term=
        .ok (some (ftsQuery env t term)) := by
      unfold fulltextLookup
      rw [if_neg hshort,bind_of_ok htable.resolved]
      rw [htable.present]
      dsimp only
      rw [if_neg fun hne => hne htable.shadows]
      rfl
    rw [bind_of_ok hlookup]
    exact findsRows_candidates htrigram hkind htable hshort

end Lookups

section Scopes

variable (env : QueryEnv S) (st : Store)

/-- A node that a scan returns in a scope: the one its variable is bound to, none when
the variable is null, otherwise any of the label. -/
def InScope (scope : Option NamedRecord) (label nodeAlias : String) (n : Node) : Prop :=
  match scope.bind fun outer => boundNode outer nodeAlias with
  | some id => getNode st id=.ok n ∧ (label = "" ∨ label∈n.labels)
  | none => (scope.any fun outer => boundNull outer nodeAlias)=false ∧ n∈findNodesByLabel st label

/-- A scan fails in a scope when its variable is bound to a missing node, or is not
bound and there are too many nodes. -/
def ScanFails (scope : Option NamedRecord) (label nodeAlias : String) : Prop :=
  match scope.bind fun outer => boundNode outer nodeAlias with
  | some id => Fails (getNode st id)
  | none => (scope.any fun outer => boundNull outer nodeAlias)=false ∧ ExceedsLimit env st label

variable {env st} {scope : Option NamedRecord} {label nodeAlias : String}

theorem InScope.stored {n : Node} (h : InScope st scope label nodeAlias n) : Stored st n := by
  unfold InScope at h
  split at h
  · exact stored_of_getNode h.1
  · exact stored_of_mem_findNodesByLabel h.2

/-- A plain scan fails when there are too many nodes and returns those of the label. -/
theorem execScan_outcome (label nodeAlias : String) :
    (Fails (execScan env st label nodeAlias) ↔ ExceedsLimit env st label) ∧
      ∀ rows,execScan env st label nodeAlias=.ok rows → ∀ r,r∈rows ↔
        ∃ n∈findNodesByLabel st label,r=nodeToRecord n nodeAlias := by
  unfold execScan checkRowLimit ExceedsLimit
  rw [List.length_map]
  by_cases hlimit : 0<env.maxResultRows ∧ env.maxResultRows<(findNodesByLabel st label).length
  · rw [if_pos hlimit]
    exact ⟨iff_of_true (fails_error _) hlimit,fun rows h => by simp at h⟩
  · rw [if_neg hlimit]
    refine ⟨iff_of_false (not_fails_ok _) hlimit,fun rows h r => ?_⟩
    rw [←Except.ok.inj h,List.mem_map]
    exact exists_congr fun n => and_congr_right fun _ => eq_comm

theorem scanRows_outcome (scope : Option NamedRecord) (label nodeAlias : String) :
    (Fails (scanRows env st label nodeAlias scope) ↔ ScanFails env st scope label nodeAlias) ∧
      ∀ rows,scanRows env st label nodeAlias scope=.ok rows → ∀ r,r∈rows ↔
        ∃ n,InScope st scope label nodeAlias n ∧ r=nodeToRecord n nodeAlias := by
  unfold ScanFails InScope scanRows
  cases scope with
  | none =>
    obtain ⟨hfails,hmem⟩ := @execScan_outcome S env st label nodeAlias
    refine ⟨hfails.trans (by simp),fun rows h r => (hmem rows h r).trans ?_⟩
    simp
  | some outer =>
    simp only [Option.bind_some,Option.any_some]
    cases hbound : boundNode outer nodeAlias with
    | some id =>
      dsimp only
      cases hget : getNode st id with
      | error e => exact ⟨iff_of_true (fails_error e) (fails_error e),fun rows h => by simp [bind,Except.bind] at h⟩
      | ok n =>
        rw [bind_of_ok rfl]
        constructor
        · refine iff_of_false (fun hfail => ?_) (not_fails_ok n)
          split_ifs at hfail with hl
          · exact not_fails_ok _ hfail
          · exact not_fails_ok _ hfail
        · intro rows h r
          split_ifs at h with hl
          · rw [←Except.ok.inj h]
            refine iff_of_false List.not_mem_nil fun hex => ?_
            obtain ⟨m,⟨hm,hlabel⟩,_⟩ := hex
            rw [←Except.ok.inj hm] at hlabel
            exact hlabel.elim hl.1 hl.2
          · rw [←Except.ok.inj h,List.mem_singleton]
            constructor
            · intro hr
              refine ⟨n,⟨rfl,?_⟩,hr⟩
              by_cases hempty : label = ""
              · exact Or.inl hempty
              · exact Or.inr (Classical.not_not.mp fun hnot => hl ⟨hempty,hnot⟩)
            · intro hex
              obtain ⟨m,⟨hm,_⟩,hr⟩ := hex
              rw [hr,Except.ok.inj hm]
    | none =>
      dsimp only
      cases hnull : boundNull outer nodeAlias with
      | true =>
        rw [if_pos rfl]
        refine ⟨iff_of_false (not_fails_ok _) fun h => absurd h.1 (by simp),fun rows h r => ?_⟩
        rw [←Except.ok.inj h]
        refine iff_of_false List.not_mem_nil fun hex => ?_
        obtain ⟨n,⟨hfalse,_⟩,_⟩ := hex
        cases hfalse
      | false =>
        rw [if_neg (by simp)]
        obtain ⟨hfails,hmem⟩ := @execScan_outcome S env st label nodeAlias
        refine ⟨hfails.trans (by simp),fun rows h r => (hmem rows h r).trans ?_⟩
        simp

theorem filteredScope_outcome (scope : Option NamedRecord) (label nodeAlias : String)
    (predicate : Expr S) (kept : NamedRecord → Bool) (view : NamedRecord → NamedRecord) :
    (Fails ((scanRows env st label nodeAlias scope).map (List.filter kept) >>=
        sieve fun r => evalPredicate env.eval st predicate (view r)) ↔
      ScanFails env st scope label nodeAlias ∨ ∃ n,InScope st scope label nodeAlias n ∧
        kept (nodeToRecord n nodeAlias)=true ∧
        Fails (evalPredicate env.eval st predicate (view (nodeToRecord n nodeAlias)))) ∧
      ∀ selected,((scanRows env st label nodeAlias scope).map (List.filter kept) >>=
        sieve fun r => evalPredicate env.eval st predicate (view r))=.ok selected →
        ∀ r,r∈selected ↔ ∃ n,InScope st scope label nodeAlias n ∧
          kept (nodeToRecord n nodeAlias)=true ∧
          evalPredicate env.eval st predicate (view (nodeToRecord n nodeAlias))=.ok true ∧
          r=nodeToRecord n nodeAlias := by
  have ⟨hfails,hmem⟩ := @scanRows_outcome S env st scope label nodeAlias
  cases hscan : scanRows env st label nodeAlias scope with
  | error e =>
    have hscanFails := hfails.mp (by rw [hscan]; exact fails_error e)
    exact ⟨iff_of_true (fails_error e) (Or.inl hscanFails),fun selected h => by
      simp [Except.map,bind,Except.bind] at h⟩
  | ok rows =>
    have hnot : ¬ScanFails env st scope label nodeAlias := fun h => by
      have hbad := hfails.mpr h
      rw [hscan] at hbad
      exact not_fails_ok rows hbad
    have hrows := hmem rows hscan
    have hmap : (Except.ok rows : Result Rows).map (List.filter kept)=.ok (rows.filter kept) := rfl
    rw [hmap,bind_of_ok rfl,fails_sieve]
    constructor
    · constructor
      · intro h
        have ⟨r,hr,hfail⟩ := h
        have ⟨hin,hkept⟩ := List.mem_filter.mp hr
        have ⟨n,hn,hrow⟩ := (hrows r).mp hin
        rw [hrow] at hkept hfail
        exact Or.inr ⟨n,hn,hkept,hfail⟩
      · intro h
        have ⟨n,hn,hkept,hfail⟩ := h.resolve_left hnot
        exact ⟨_,List.mem_filter.mpr ⟨(hrows _).mpr ⟨n,hn,rfl⟩,hkept⟩,hfail⟩
    · intro selected h r
      rw [mem_sieve h,List.mem_filter,hrows]
      constructor
      · intro hr
        have ⟨⟨⟨n,hn,hrow⟩,hkept⟩,htrue⟩ := hr
        rw [hrow] at hkept htrue
        exact ⟨n,hn,hkept,htrue,hrow⟩
      · intro hr
        have ⟨n,hn,hkept,htrue,hrow⟩ := hr
        rw [hrow]
        exact ⟨⟨⟨n,hn,rfl⟩,hkept⟩,htrue⟩

end Scopes

end GraphDbLite.FullTextLookup
