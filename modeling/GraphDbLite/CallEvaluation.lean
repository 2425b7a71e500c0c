import GraphDbLite.ColumnNames

/-!
# Evaluation with a meaning for calls

Expressions are evaluated with the meaning of function calls as a parameter: it gets
the call as written and the outcomes of its arguments on the record. The evaluator of
the library is one instance. Two meanings give an expression the same value when they
agree on the calls that are evaluated on the record itself and no other call differs.
-/

namespace GraphDbLite.CallEvaluation

open GraphTypes GraphStore WriteOperators CypherSyntax CypherValues CypherEval

/-- Meaning of a call: its name, arguments, duplicate mark and text, the outcomes of the
arguments and the record. -/
abbrev CallMeaning (S : Type) :=
  String → List (Expr S) → Bool → Option String → List (Result Value) → NamedRecord → Result Value

section Evaluator

variable {S : Type} (env : EvalEnv S) (st : Store) (call : CallMeaning S)

mutual

/-- Value of an expression on a record under a meaning of calls. -/
def evalWith : Expr S → Cell
  | .literal l => fun _ => .ok (literalToValue l)
  | .var name => evalVariable name
  | .property var prop => evalProperty env st var prop
  | .list items => fun rec => (evalAll rec (evalsWith items)).map Value.list
  | .index expr index => evalIndex st (asVariable expr) (evalWith expr) (evalWith index)
  | .dotAccess expr key => evalDotAccess env (evalWith expr) key
  | .slice expr start stop => evalSlice (evalWith expr) (evalOptionWith start) (evalOptionWith stop)
  | .hasLabel var labels => evalHasLabel st var labels
  | .star => fun _ => .ok .null
  | .parameter name => evalParameter env name
  | .binaryOp left op right => evalBinary env (evalWith left) op (evalWith right)
  | .not inner => evalNot (evalWith inner)
  | .isNull inner => fun rec => (evalWith inner rec).map fun v => .bool v.isNull
  | .isNotNull inner => fun rec => (evalWith inner rec).map fun v => .bool !v.isNull
  | .case operand alternatives default =>
    evalCase (evalOptionWith operand) (evalPairsWith alternatives) (evalOptionWith default)
  | .listComprehension var listExpr filter mapExpr =>
    evalListComprehension var (evalWith listExpr) (evalOptionWith filter) (evalOptionWith mapExpr)
  | .quantifier kind var listExpr predicate =>
    evalQuantifier kind var (evalWith listExpr) (evalWith predicate)
  | .patternComprehension pathVar pattern whereClause mapExpr =>
    env.patternComprehension st pathVar pattern whereClause mapExpr
  | .exists patterns whereClause => env.existsPatterns st patterns whereClause
  | .patternPredicate pattern => env.existsPatterns st [pattern] none
  | .existsSubquery stmt => env.existsSubquery st stmt
  | .mapLiteral pairs => fun rec => (evalEntries rec [] (evalNamedWith pairs)).map Value.map
  | .functionCall name args distinct originalText => fun rec =>
    call name args distinct originalText ((evalsWith args).map fun cell => cell rec) rec
termination_by structural expr => expr

/-- Expressions of a list. -/
def evalsWith : List (Expr S) → List Cell
  | [] => []
  | expr::rest => evalWith expr::evalsWith rest
termination_by structural exprs => exprs

/-- An optional expression. -/
def evalOptionWith : Option (Expr S) → Option Cell
  | none => none
  | some expr => some (evalWith expr)
termination_by structural expr => expr

/-- Alternatives of a CASE. -/
def evalPairsWith : List (Expr S×Expr S) → List (Cell×Cell)
  | [] => []
  | pair::rest => evalPairWith pair::evalPairsWith rest
termination_by structural pairs => pairs

/-- One alternative of a CASE. -/
def evalPairWith : Expr S×Expr S → Cell×Cell
  | (condition,result) => (evalWith condition,evalWith result)
termination_by structural pair => pair

/-- Entries of a map literal. -/
def evalNamedWith : List (String×Expr S) → List (String×Cell)
  | [] => []
  | entry::rest => evalEntryWith entry::evalNamedWith rest
termination_by structural entries => entries

/-- One entry of a map literal. -/
def evalEntryWith : String×Expr S → String×Cell
  | (key,expr) => (key,evalWith expr)
termination_by structural entry => entry

end

end Evaluator

/-- The meaning of calls in the evaluator of the library. -/
def libraryCall {S : Type} (env : EvalEnv S) (st : Store) : CallMeaning S :=
  fun name args _ originalText results rec =>
    evalFunctionCall env st name args (results.map fun result _ => result) originalText rec

section Library

variable {S : Type} (env : EvalEnv S) (st : Store)

theorem evalFunctionCall_outcomes (name : String) (args : List (Expr S)) (cells : List Cell)
    (originalText : Option String) (rec : NamedRecord) :
    evalFunctionCall env st name args ((cells.map fun cell => cell rec).map fun result _ => result)
        originalText rec=evalFunctionCall env st name args cells originalText rec := by
  have hsingle : evalSingleArg ((cells.map fun cell => cell rec).map fun result _ => result) rec=
      evalSingleArg cells rec := by
    cases cells with
    | nil | cons cell rest => rfl
  unfold evalFunctionCall evalId evalToLower
  rw [hsingle]

mutual

theorem evalWith_library : ∀ expr : Expr S,evalWith env st (libraryCall env st) expr=evalExpr env st expr
  | .literal _ | .var _ | .property _ _ => rfl
  | .list items => by simp only [evalWith,evalExpr,evalsWith_library items]
  | .index expr index => by simp only [evalWith,evalExpr,evalWith_library expr,evalWith_library index]
  | .dotAccess expr _ => by simp only [evalWith,evalExpr,evalWith_library expr]
  | .slice expr start stop => by
    simp only [evalWith,evalExpr,evalWith_library expr,evalOptionWith_library start,
      evalOptionWith_library stop]
  | .hasLabel _ _ | .star | .parameter _ => rfl
  | .binaryOp left _ right => by simp only [evalWith,evalExpr,evalWith_library left,evalWith_library right]
  | .not inner | .isNull inner | .isNotNull inner => by simp only [evalWith,evalExpr,evalWith_library inner]
  | .case operand alternatives default => by
    simp only [evalWith,evalExpr,evalOptionWith_library operand,evalPairsWith_library alternatives,
      evalOptionWith_library default]
  | .listComprehension _ listExpr filter mapExpr => by
    simp only [evalWith,evalExpr,evalWith_library listExpr,evalOptionWith_library filter,
      evalOptionWith_library mapExpr]
  | .quantifier _ _ listExpr predicate => by
    simp only [evalWith,evalExpr,evalWith_library listExpr,evalWith_library predicate]
  | .patternComprehension _ _ _ _ | .exists _ _ | .patternPredicate _ | .existsSubquery _ => rfl
  | .mapLiteral pairs => by simp only [evalWith,evalExpr,evalNamedWith_library pairs]
  | .functionCall name args _ originalText => by
    funext rec
    simp only [evalWith,evalExpr,libraryCall,evalsWith_library args]
    exact evalFunctionCall_outcomes env st name args _ originalText rec

theorem evalsWith_library : ∀ exprs : List (Expr S),
    evalsWith env st (libraryCall env st) exprs=evalExprs env st exprs
  | [] => rfl
  | expr::rest => by simp only [evalsWith,evalExprs,evalWith_library expr,evalsWith_library rest]

theorem evalOptionWith_library : ∀ expr : Option (Expr S),
    evalOptionWith env st (libraryCall env st) expr=evalOption env st expr
  | none => rfl
  | some expr => by simp only [evalOptionWith,evalOption,evalWith_library expr]

theorem evalPairsWith_library : ∀ pairs : List (Expr S×Expr S),
    evalPairsWith env st (libraryCall env st) pairs=evalPairs env st pairs
  | [] => rfl
  | pair::rest => by simp only [evalPairsWith,evalPairs,evalPairWith_library pair,evalPairsWith_library rest]

theorem evalPairWith_library : ∀ pair : Expr S×Expr S,
    evalPairWith env st (libraryCall env st) pair=evalPair env st pair
  | (condition,result) => by
    simp only [evalPairWith,evalPair,evalWith_library condition,evalWith_library result]

theorem evalNamedWith_library : ∀ entries : List (String×Expr S),
    evalNamedWith env st (libraryCall env st) entries=evalNamed env st entries
  | [] => rfl
  | entry::rest => by
    simp only [evalNamedWith,evalNamed,evalEntryWith_library entry,evalNamedWith_library rest]

theorem evalEntryWith_library : ∀ entry : String×Expr S,
    evalEntryWith env st (libraryCall env st) entry=evalEntry env st entry
  | (_,expr) => by simp only [evalEntryWith,evalEntry,evalWith_library expr]

end

end Library

section Occurrences

variable {S : Type} (special : String → Bool)

mutual

/-- Whether an expression has a call of one of the special functions, in any place. -/
def mentionsCall : Expr S → Bool
  | .functionCall name args _ _ => special name || mentionsCalls args
  | .list items => mentionsCalls items
  | .index expr index => mentionsCall expr || mentionsCall index
  | .dotAccess expr _ => mentionsCall expr
  | .slice expr start stop => mentionsCall expr || optionMentionsCall start || optionMentionsCall stop
  | .binaryOp left _ right => mentionsCall left || mentionsCall right
  | .not inner => mentionsCall inner
  | .isNull inner => mentionsCall inner
  | .isNotNull inner => mentionsCall inner
  | .case operand alternatives default =>
    optionMentionsCall operand || pairsMentionCall alternatives || optionMentionsCall default
  | .listComprehension _ listExpr filter mapExpr =>
    mentionsCall listExpr || optionMentionsCall filter || optionMentionsCall mapExpr
  | .quantifier _ _ listExpr predicate => mentionsCall listExpr || mentionsCall predicate
  | .patternComprehension _ pattern whereClause mapExpr =>
    patternMentionsCall pattern || optionMentionsCall whereClause || mentionsCall mapExpr
  | .exists patterns whereClause => patternsMentionCall patterns || optionMentionsCall whereClause
  | .patternPredicate pattern => patternMentionsCall pattern
  | .mapLiteral pairs => namedMentionCall pairs
  | .literal _ => false
  | .property _ _ => false
  | .var _ => false
  | .parameter _ => false
  | .existsSubquery _ => false
  | .hasLabel _ _ => false
  | .star => false
termination_by structural expr => expr

def mentionsCalls : List (Expr S) → Bool
  | [] => false
  | expr::rest => mentionsCall expr || mentionsCalls rest
termination_by structural exprs => exprs

def optionMentionsCall : Option (Expr S) → Bool
  | none => false
  | some expr => mentionsCall expr
termination_by structural expr => expr

def pairsMentionCall : List (Expr S×Expr S) → Bool
  | [] => false
  | pair::rest => pairMentionsCall pair || pairsMentionCall rest
termination_by structural pairs => pairs

def pairMentionsCall : Expr S×Expr S → Bool
  | (condition,result) => mentionsCall condition || mentionsCall result
termination_by structural pair => pair

def namedMentionCall : List (String×Expr S) → Bool
  | [] => false
  | entry::rest => entryMentionsCall entry || namedMentionCall rest
termination_by structural entries => entries

def entryMentionsCall : String×Expr S → Bool
  | (_,expr) => mentionsCall expr
termination_by structural entry => entry

def patternsMentionCall : List (PatternOf (Expr S)) → Bool
  | [] => false
  | pattern::rest => patternMentionsCall pattern || patternsMentionCall rest
termination_by structural patterns => patterns

def patternMentionsCall : PatternOf (Expr S) → Bool
  | ⟨elements,_,_⟩ => elementsMentionCall elements
termination_by structural pattern => pattern

def elementsMentionCall : List (PatternElementOf (Expr S)) → Bool
  | [] => false
  | element::rest => elementMentionsCall element || elementsMentionCall rest
termination_by structural elements => elements

def elementMentionsCall : PatternElementOf (Expr S) → Bool
  | .node n => nodeMentionsCall n
  | .relationship r => relMentionsCall r
termination_by structural element => element

def nodeMentionsCall : NodePatternOf (Expr S) → Bool
  | ⟨_,_,properties⟩ => namedMentionCall properties
termination_by structural n => n

def relMentionsCall : RelPatternOf (Expr S) → Bool
  | ⟨_,_,properties,_,_⟩ => namedMentionCall properties
termination_by structural r => r

end

variable (own : String → List (Expr S) → Bool → Option String → Prop)

mutual

/-- All calls of special functions stand where they are evaluated on the record itself, below
operators, lists, maps, other calls and the lists of comprehensions, and have a property. -/
def Visible : Expr S → Prop
  | .functionCall name args distinct originalText =>
    (special name=true → own name args distinct originalText) ∧ (special name=false → VisibleAll args)
  | .binaryOp left _ right => Visible left ∧ Visible right
  | .not inner => Visible inner
  | .isNull inner => Visible inner
  | .isNotNull inner => Visible inner
  | .mapLiteral pairs => VisibleNamed pairs
  | .list items => VisibleAll items
  | .listComprehension _ listExpr filter mapExpr =>
    Visible listExpr ∧ optionMentionsCall special filter=false ∧ optionMentionsCall special mapExpr=false
  | .quantifier _ _ listExpr predicate => Visible listExpr ∧ mentionsCall special predicate=false
  | .case operand alternatives default =>
    mentionsCall special (.case operand alternatives default)=false
  | .index expr index => mentionsCall special (.index expr index)=false
  | .dotAccess expr key => mentionsCall special (.dotAccess expr key)=false
  | .slice expr start stop => mentionsCall special (.slice expr start stop)=false
  | .patternComprehension pathVar pattern whereClause mapExpr =>
    mentionsCall special (.patternComprehension pathVar pattern whereClause mapExpr)=false
  | .exists patterns whereClause => mentionsCall special (.exists patterns whereClause)=false
  | .patternPredicate pattern => mentionsCall special (.patternPredicate pattern)=false
  | .literal _ => True
  | .property _ _ => True
  | .var _ => True
  | .parameter _ => True
  | .existsSubquery _ => True
  | .hasLabel _ _ => True
  | .star => True
termination_by structural expr => expr

def VisibleAll : List (Expr S) → Prop
  | [] => True
  | expr::rest => Visible expr ∧ VisibleAll rest
termination_by structural exprs => exprs

def VisibleNamed : List (String×Expr S) → Prop
  | [] => True
  | entry::rest => VisibleEntry entry ∧ VisibleNamed rest
termination_by structural entries => entries

def VisibleEntry : String×Expr S → Prop
  | (_,expr) => Visible expr
termination_by structural entry => entry

end

end Occurrences

section Agreement

set_option linter.unusedSectionVars false

variable {S : Type} {env : EvalEnv S} {st : Store} {call other : CallMeaning S} {special : String → Bool}

theorem evalAll_outcomes {rec : NamedRecord} {cells others : List Cell}
    (h : (cells.map fun cell => cell rec)=others.map fun cell => cell rec) :
    evalAll rec cells=evalAll rec others := by
  induction cells generalizing others with
  | nil =>
    cases others with
    | nil => rfl
    | cons cell rest => cases h
  | cons cell rest ih =>
    cases others with
    | nil => cases h
    | cons cell' rest' =>
      rw [List.map_cons,List.map_cons,List.cons.injEq] at h
      rw [evalAll,evalAll,h.1,ih h.2]

theorem evalEntries_outcomes {rec : NamedRecord} {cells others : List (String×Cell)} {entries : Properties}
    (h : (cells.map fun entry => (entry.1,entry.2 rec))=others.map fun entry => (entry.1,entry.2 rec)) :
    evalEntries rec entries cells=evalEntries rec entries others := by
  induction cells generalizing others entries with
  | nil =>
    cases others with
    | nil => rfl
    | cons entry rest => cases h
  | cons entry rest ih =>
    cases others with
    | nil => cases h
    | cons entry' rest' =>
      rw [List.map_cons,List.map_cons,List.cons.injEq,Prod.mk.injEq] at h
      have ⟨⟨hkey,hvalue⟩,hrest⟩ := h
      have ⟨key,cell⟩ := entry
      have ⟨key',cell'⟩ := entry'
      dsimp only at hkey hvalue
      rw [evalEntries,evalEntries,hvalue,hkey]
      cases cell' rec with
      | error e => rfl
      | ok v => exact ih hrest

variable (h : ∀ name,special name=false → call name=other name)

include h

mutual

/-- Without calls of special functions the value does not depend on their meaning. -/
theorem evalWith_unmentioned :
    ∀ expr : Expr S,mentionsCall special expr=false → evalWith env st call expr=evalWith env st other expr
  | .functionCall name args _ _,hnone => by
    simp only [mentionsCall,Bool.or_eq_false_iff] at hnone
    simp only [evalWith,evalsWith_unmentioned args hnone.2,h name hnone.1]
  | .list items,hnone => by
    simp only [mentionsCall] at hnone
    simp only [evalWith,evalsWith_unmentioned items hnone]
  | .index expr index,hnone => by
    simp only [mentionsCall,Bool.or_eq_false_iff] at hnone
    simp only [evalWith,evalWith_unmentioned expr hnone.1,evalWith_unmentioned index hnone.2]
  | .dotAccess expr _,hnone => by
    simp only [mentionsCall] at hnone
    simp only [evalWith,evalWith_unmentioned expr hnone]
  | .slice expr start stop,hnone => by
    simp only [mentionsCall,Bool.or_eq_false_iff] at hnone
    simp only [evalWith,evalWith_unmentioned expr hnone.1.1,evalOptionWith_unmentioned start hnone.1.2,
      evalOptionWith_unmentioned stop hnone.2]
  | .binaryOp left _ right,hnone => by
    simp only [mentionsCall,Bool.or_eq_false_iff] at hnone
    simp only [evalWith,evalWith_unmentioned left hnone.1,evalWith_unmentioned right hnone.2]
  | .not inner,hnone | .isNull inner,hnone | .isNotNull inner,hnone => by
    simp only [mentionsCall] at hnone
    simp only [evalWith,evalWith_unmentioned inner hnone]
  | .case operand alternatives default,hnone => by
    simp only [mentionsCall,Bool.or_eq_false_iff] at hnone
    simp only [evalWith,evalOptionWith_unmentioned operand hnone.1.1,
      evalPairsWith_unmentioned alternatives hnone.1.2,evalOptionWith_unmentioned default hnone.2]
  | .listComprehension _ listExpr filter mapExpr,hnone => by
    simp only [mentionsCall,Bool.or_eq_false_iff] at hnone
    simp only [evalWith,evalWith_unmentioned listExpr hnone.1.1,
      evalOptionWith_unmentioned filter hnone.1.2,evalOptionWith_unmentioned mapExpr hnone.2]
  | .quantifier _ _ listExpr predicate,hnone => by
    simp only [mentionsCall,Bool.or_eq_false_iff] at hnone
    simp only [evalWith,evalWith_unmentioned listExpr hnone.1,evalWith_unmentioned predicate hnone.2]
  | .mapLiteral pairs,hnone => by
    simp only [mentionsCall] at hnone
    simp only [evalWith,evalNamedWith_unmentioned pairs hnone]
  | .patternComprehension _ _ _ _,_ | .exists _ _,_ | .patternPredicate _,_ | .existsSubquery _,_ | .literal _,_
  | .property _ _,_ | .var _,_ | .parameter _,_ | .hasLabel _ _,_ | .star,_ => rfl

theorem evalsWith_unmentioned : ∀ exprs : List (Expr S),mentionsCalls special exprs=false →
      evalsWith env st call exprs=evalsWith env st other exprs
  | [],_ => rfl
  | expr::rest,hnone => by
    simp only [mentionsCalls,Bool.or_eq_false_iff] at hnone
    simp only [evalsWith,evalWith_unmentioned expr hnone.1,evalsWith_unmentioned rest hnone.2]

theorem evalOptionWith_unmentioned : ∀ expr : Option (Expr S),optionMentionsCall special expr=false →
      evalOptionWith env st call expr=evalOptionWith env st other expr
  | none,_ => rfl
  | some expr,hnone => by
    simp only [optionMentionsCall] at hnone
    simp only [evalOptionWith,evalWith_unmentioned expr hnone]

theorem evalPairsWith_unmentioned : ∀ pairs : List (Expr S×Expr S),pairsMentionCall special pairs=false →
      evalPairsWith env st call pairs=evalPairsWith env st other pairs
  | [],_ => rfl
  | pair::rest,hnone => by
    simp only [pairsMentionCall,Bool.or_eq_false_iff] at hnone
    simp only [evalPairsWith,evalPairWith_unmentioned pair hnone.1,evalPairsWith_unmentioned rest hnone.2]

theorem evalPairWith_unmentioned : ∀ pair : Expr S×Expr S,pairMentionsCall special pair=false →
      evalPairWith env st call pair=evalPairWith env st other pair
  | (condition,result),hnone => by
    simp only [pairMentionsCall,Bool.or_eq_false_iff] at hnone
    simp only [evalPairWith,evalWith_unmentioned condition hnone.1,evalWith_unmentioned result hnone.2]

theorem evalNamedWith_unmentioned : ∀ entries : List (String×Expr S),namedMentionCall special entries=false →
      evalNamedWith env st call entries=evalNamedWith env st other entries
  | [],_ => rfl
  | entry::rest,hnone => by
    simp only [namedMentionCall,Bool.or_eq_false_iff] at hnone
    simp only [evalNamedWith,evalEntryWith_unmentioned entry hnone.1,evalNamedWith_unmentioned rest hnone.2]

theorem evalEntryWith_unmentioned : ∀ entry : String×Expr S,entryMentionsCall special entry=false →
      evalEntryWith env st call entry=evalEntryWith env st other entry
  | (_,expr),hnone => by
    simp only [entryMentionsCall] at hnone
    simp only [evalEntryWith,evalWith_unmentioned expr hnone]

end

variable {own : String → List (Expr S) → Bool → Option String → Prop} {rec : NamedRecord}
  (hown : ∀ name args distinct originalText results others,special name=true →
    own name args distinct originalText → call name args distinct originalText results rec=
      other name args distinct originalText others rec)

include hown

mutual

/-- When all calls of special functions are visible and have the same meaning on the
record, whatever their arguments give, the expression has the same value there. -/
theorem evalWith_visible :
    ∀ expr : Expr S,Visible special own expr → evalWith env st call expr rec=evalWith env st other expr rec
  | .functionCall name args _ _,hvisible => by
    simp only [Visible] at hvisible
    simp only [evalWith]
    by_cases hname : special name=true
    · exact hown name args _ _ _ _ hname (hvisible.1 hname)
    · have hfalse : special name=false := by simpa using hname
      rw [evalsWith_visible args (hvisible.2 hfalse),h name hfalse]
  | .binaryOp left _ right,hvisible => by
    simp only [Visible] at hvisible
    simp only [evalWith,evalBinary,evalWith_visible left hvisible.1,
      evalWith_visible right hvisible.2]
  | .not inner,hvisible => by
    simp only [Visible] at hvisible
    simp only [evalWith,evalNot,evalWith_visible inner hvisible]
  | .isNull inner,hvisible | .isNotNull inner,hvisible => by
    simp only [Visible] at hvisible
    simp only [evalWith,evalWith_visible inner hvisible]
  | .mapLiteral pairs,hvisible => by
    simp only [Visible] at hvisible
    simp only [evalWith,evalEntries_outcomes (evalNamedWith_visible pairs hvisible)]
  | .list items,hvisible => by
    simp only [Visible] at hvisible
    simp only [evalWith,evalAll_outcomes (evalsWith_visible items hvisible)]
  | .listComprehension _ listExpr filter mapExpr,hvisible => by
    simp only [Visible] at hvisible
    simp only [evalWith,evalListComprehension,evalWith_visible listExpr hvisible.1,
      evalOptionWith_unmentioned h filter hvisible.2.1,evalOptionWith_unmentioned h mapExpr hvisible.2.2]
  | .quantifier _ _ listExpr predicate,hvisible => by
    simp only [Visible] at hvisible
    simp only [evalWith,evalQuantifier,evalWith_visible listExpr hvisible.1,
      evalWith_unmentioned h predicate hvisible.2]
  | .case operand alternatives default,hvisible =>
    congrFun (evalWith_unmentioned h (.case operand alternatives default) hvisible) rec
  | .index expr index,hvisible => congrFun (evalWith_unmentioned h (.index expr index) hvisible) rec
  | .dotAccess expr key,hvisible => congrFun (evalWith_unmentioned h (.dotAccess expr key) hvisible) rec
  | .slice expr start stop,hvisible => congrFun (evalWith_unmentioned h (.slice expr start stop) hvisible) rec
  | .patternComprehension _ _ _ _,_ | .exists _ _,_ | .patternPredicate _,_ | .existsSubquery _,_ | .literal _,_
  | .property _ _,_ | .var _,_ | .parameter _,_ | .hasLabel _ _,_ | .star,_ => rfl

theorem evalsWith_visible : ∀ exprs : List (Expr S),VisibleAll special own exprs →
      ((evalsWith env st call exprs).map fun cell => cell rec)=
        (evalsWith env st other exprs).map fun cell => cell rec
  | [],_ => rfl
  | expr::rest,hvisible => by
    simp only [VisibleAll] at hvisible
    simp only [evalsWith,List.map_cons,evalWith_visible expr hvisible.1,
      evalsWith_visible rest hvisible.2]

theorem evalNamedWith_visible : ∀ entries : List (String×Expr S),VisibleNamed special own entries →
      ((evalNamedWith env st call entries).map fun entry => (entry.1,entry.2 rec))=
        (evalNamedWith env st other entries).map fun entry => (entry.1,entry.2 rec)
  | [],_ => rfl
  | entry::rest,hvisible => by
    simp only [VisibleNamed] at hvisible
    simp only [evalNamedWith,List.map_cons,evalEntryWith_visible entry hvisible.1,
      evalNamedWith_visible rest hvisible.2]

theorem evalEntryWith_visible : ∀ entry : String×Expr S,VisibleEntry special own entry →
      ((evalEntryWith env st call entry).1,(evalEntryWith env st call entry).2 rec)=
        ((evalEntryWith env st other entry).1,(evalEntryWith env st other entry).2 rec)
  | (_,expr),hvisible => by
    simp only [VisibleEntry] at hvisible
    simp only [evalEntryWith,evalWith_visible expr hvisible]

end

end Agreement

end GraphDbLite.CallEvaluation
