import GraphDbLite.CypherValues
import GraphDbLite.WriteOperators

/-!
# Expression evaluation

An expression is compiled into a function of the record. Records are flat: a node
variable holds its identifier under its own name, its properties under dotted
names, and its labels and identifier under dotted names with a double underscore.
Property access reads the dotted name first, then the stored node, then the value
of the variable. Arithmetic, temporal parts, the remaining scalar functions and
pattern subqueries come from outside.
-/

namespace GraphDbLite.CypherEval

open ByteStrings GraphTypes GraphStore NodeStorage WriteOperators CypherSyntax CypherValues

/-- What the evaluator takes from the rest of the library. -/
structure EvalEnv (S : Type) where
  /-- Parameters of the running query. -/
  params : String → Option Value
  /-- Arithmetic operators and regular expressions. -/
  arithmetic : BinOp → Value → Value → Result Value
  /-- Component of a temporal value. -/
  temporalAccessor : Value → String → Option Value
  /-- Unicode lower case of a text. -/
  toLowercase : String → String
  /-- Scalar functions other than `id` and `toLower`. -/
  function : Store → String → List (Expr S) → Option String → NamedRecord → Result Value
  /-- Existential pattern predicates. -/
  existsPatterns : Store → List (Pattern S) → Option (Expr S) → NamedRecord → Result Value
  /-- Pattern comprehensions. -/
  patternComprehension : Store → Option String → Pattern S → Option (Expr S) → Expr S →
    NamedRecord → Result Value
  /-- Full existential subqueries. -/
  existsSubquery : Store → S → NamedRecord → Result Value

/-- An expression as a function of the record. -/
abbrev Cell := NamedRecord → Result Value

/-- The text with ASCII letters in lower case. -/
def asciiLower (text : String) : String := String.ofList (text.toList.map Char.toLower)

/-- Fields under a variable, without metadata, as properties. -/
def boundProperties (rec : NamedRecord) (var : String) : Properties :=
  rec.fields.filterMap fun field =>
    match stripPrefix (var++".") field.1 with
    | some prop => if (stripPrefix "__" prop).isSome=true then none else some (prop,field.2)
    | none => none

/-- The entity that the flat fields of a variable describe. -/
def buildCompoundBinding (rec : NamedRecord) (var : String) : Option Value :=
  match rec.get var with
  | some (.list items) => some (.list items)
  | some (.path p) => some (.path p)
  | _ =>
    match edgeIdentity rec var with
    | some (src,dst,label) => some (.edge ⟨src,dst,label,boundProperties rec var⟩)
    | none =>
      match rec.get (var++".__id"),rec.get (var++".__label") with
      | some (.i64 id),some (.string label) =>
        some (.node ⟨id.toUInt64,if label = "" then [] else splitOnChar ':' label,
          boundProperties rec var⟩)
      | _,_ => none

/-- Labels as a list of texts. -/
def labelList (labels : List String) : Value := .list (labels.map Value.string)

/-- A property, null when it is missing. -/
def propOrNull (props : Properties) (key : String) : Value := (getProp props key).getD .null

/-- A node read for a property access. -/
def nodeProperty (n : Node) (prop : String) : Value :=
  if prop = "labels" then labelList n.labels else propOrNull n.properties prop

/-- Whether a variable has entity metadata in a record. -/
def hasMetadata (rec : NamedRecord) (var : String) : Bool :=
  (rec.get (var++".__id")).isSome || (rec.get (var++".__src")).isSome ||
    (rec.get (var++".__type")).isSome

/-- Whether a property of a plain value of this kind is refused. -/
def refusesProperty : Value → Bool
  | .bool _ => true
  | .i64 _ => true
  | .f64 _ => true
  | .string _ => true
  | .list _ => true
  | _ => false

/-- The stored node behind the identifier field of a variable. -/
def storedNode (st : Store) (rec : NamedRecord) (var : String) : Option Node :=
  match rec.get (var++".__id") with
  | some (.i64 id) => (getNode st id.toUInt64).toOption
  | _ => none

section Evaluator

variable {S : Type} (env : EvalEnv S) (st : Store)

/-- Property access on a value of a variable without a dotted field. -/
def valueProperty (rec : NamedRecord) (var prop : String) : Result Value :=
  match rec.get var with
  | none => .ok .null
  | some (.map entries) => .ok (propOrNull entries prop)
  | some (.node n) => .ok (nodeProperty n prop)
  | some (.edge e) => .ok (propOrNull e.properties prop)
  | some val =>
    match env.temporalAccessor val prop with
    | some part => .ok part
    | none =>
      if hasMetadata rec var=false ∧ refusesProperty val=true then
        .error (.query .typeError .runtime .invalidArgumentType ("property access on "++valueTypeName val))
      else .ok .null

/-- Property access. -/
def evalProperty (var prop : String) : Cell := fun rec =>
  match rec.get (var++".__deleted") with
  | some (.bool true) =>
    .error (.query .entityNotFound .runtime .other
      ("DeletedEntityAccess: cannot access property `"++(prop++ ("` on deleted entity `"++(var++ "`")))))
  | _ =>
    match rec.get var with
    | some .null => .ok .null
    | _ =>
      match rec.get (var++("."++prop)) with
      | some val => .ok val
      | none =>
        match storedNode st rec var with
        | some n => .ok (nodeProperty n prop)
        | none => valueProperty env rec var prop

/-- A variable: its entity, else its value. -/
def evalVariable (name : String) : Cell := fun rec =>
  match buildCompoundBinding rec name with
  | some compound => .ok compound
  | none => .ok ((rec.get name).getD .null)

/-- A parameter. -/
def evalParameter (name : String) : Cell := fun _ =>
  match env.params name with
  | some v => .ok v
  | none => .error (.query .argumentError .runtime .missingParameter ("unresolved parameter: $"++name))

/-- Three-valued conjunction. -/
def triAnd : Option Bool → Option Bool → Option Bool
  | some false,_ => some false
  | _,some false => some false
  | some true,some true => some true
  | _,_ => none

/-- Three-valued disjunction. -/
def triOr : Option Bool → Option Bool → Option Bool
  | some true,_ => some true
  | _,some true => some true
  | some false,some false => some false
  | _,_ => none

/-- Three-valued exclusive disjunction. -/
def triXor : Option Bool → Option Bool → Option Bool
  | some a,some b => some (a^^b)
  | _,_ => none

/-- A truth-functional operator on values. -/
def evalLogic (f : Option Bool → Option Bool → Option Bool) (left right : Value) : Result Value := do
  let a ← toTribool left
  let b ← toTribool right
  pure (triValue (f a b))

/-- A text operator; other kinds give null. -/
def evalText (f : String → String → Bool) : Value → Value → Value
  | .string l,.string r => .bool (f l r)
  | _,_ => .null

/-- Outcome of a membership test over the comparisons with the items. -/
def anyKnown (hasNull : Bool) : List (Option Bool) → Option Bool
  | [] => if hasNull=true then none else some false
  | some true::_ => some true
  | some false::rest => anyKnown hasNull rest
  | none::rest => anyKnown true rest

/-- Membership in a list. -/
def evalIn : Value → Value → Result Value
  | _,.null => .ok .null
  | .null,.list items => .ok (if items.isEmpty=true then .bool false else .null)
  | val,.list items => .ok (triValue (anyKnown false (items.map (valuesEqual val))))
  | _,rhs => .error (.query .typeError .runtime .invalidArgumentType
      ("IN requires a list on the right side, got "++valueTypeName rhs))

/-- Whether a text starts with another. -/
def startsWithText (text part : String) : Bool := part.toList.isPrefixOf text.toList

/-- Whether a text ends with another. -/
def endsWithText (text part : String) : Bool := part.toList.isSuffixOf text.toList

/-- A binary operator on values. -/
def evalBinop (left : Value) (op : BinOp) (right : Value) : Result Value :=
  match op with
  | .and => evalLogic triAnd left right
  | .xor => evalLogic triXor left right
  | .or => evalLogic triOr left right
  | .eq => .ok (triValue (valuesEqual left right))
  | .neq => .ok (triValue ((valuesEqual left right).map Bool.not))
  | .lt => .ok (compareToValue left right fun o => o == .lt)
  | .gt => .ok (compareToValue left right fun o => o == .gt)
  | .lte => .ok (compareToValue left right fun o => o != .gt)
  | .gte => .ok (compareToValue left right fun o => o != .lt)
  | .startsWith => .ok (evalText startsWithText left right)
  | .endsWith => .ok (evalText endsWithText left right)
  | .contains => .ok (evalText (fun l r => containsText r l) left right)
  | .in => evalIn left right
  | _ => env.arithmetic op left right

/-- A binary operator on expressions; both operands are evaluated. -/
def evalBinary (left : Cell) (op : BinOp) (right : Cell) : Cell := fun rec => do
  let l ← left rec
  let r ← right rec
  evalBinop env l op r

/-- Negation. -/
def evalNot (inner : Cell) : Cell := fun rec => do
  let v ← inner rec
  let b ← toTribool v
  pure (triValue (b.map Bool.not))

/-- The first matching alternative of a simple CASE. -/
def simpleCase (opVal : Value) (default : Cell) : List (Cell×Cell) → Cell
  | [],rec => default rec
  | (condition,result)::rest,rec => do
    let whenVal ← condition rec
    if valuesEqual opVal whenVal=some true then result rec else simpleCase opVal default rest rec

/-- Whether a condition evaluates to true. -/
def isTrue : Value → Bool
  | .bool b => b
  | _ => false

/-- The first true alternative of a searched CASE. -/
def searchedCase (default : Cell) : List (Cell×Cell) → Cell
  | [],rec => default rec
  | (condition,result)::rest,rec => do
    let v ← condition rec
    if isTrue v=true then result rec else searchedCase default rest rec

/-- CASE, with or without an operand. -/
def evalCase (operand : Option Cell) (alternatives : List (Cell×Cell)) (default : Option Cell) : Cell :=
  fun rec =>
    let default := default.getD fun _ => .ok .null
    match operand with
    | some op => do
      let opVal ← op rec
      simpleCase opVal default alternatives rec
    | none => searchedCase default alternatives rec

/-- Evaluate all cells in order. -/
def evalAll (rec : NamedRecord) : List Cell → Result (List Value)
  | [] => .ok []
  | cell::rest => do
    let v ← cell rec
    let vs ← evalAll rec rest
    pure (v::vs)

/-- Evaluate the entries of a map literal in order. -/
def evalEntries (rec : NamedRecord) (entries : Properties) : List (String×Cell) → Result Properties
  | [] => .ok entries
  | (key,cell)::rest => do
    let v ← cell rec
    evalEntries rec (insertProp entries key v) rest

/-- Items of a list comprehension that pass the filter, mapped. -/
def comprehendItems (var : String) (filter mapExpr : Option Cell) (rec : NamedRecord) :
    List Value → Result (List Value)
  | [] => .ok []
  | item::rest => do
    let inner := rec.set var item
    let keep ← (match filter with
      | some pred => (pred inner).map isTrue
      | none => .ok true)
    if keep=true then
      let v ← (match mapExpr with
        | some f => f inner
        | none => .ok item)
      let vs ← comprehendItems var filter mapExpr rec rest
      pure (v::vs)
    else comprehendItems var filter mapExpr rec rest

/-- List comprehension. -/
def evalListComprehension (var : String) (listExpr : Cell) (filter mapExpr : Option Cell) : Cell :=
  fun rec => do
    match ← listExpr rec with
    | .list items => (comprehendItems var filter mapExpr rec items).map Value.list
    | .null => pure (.list [])
    | _ => .error (.semantic "list comprehension requires a list input")

/-- Values of a quantified predicate on the items. -/
def quantifiedItems (var : String) (predicate : Cell) (rec : NamedRecord) :
    List Value → Result (List Value)
  | [] => .ok []
  | item::rest => do
    let v ← predicate (rec.set var item)
    let vs ← quantifiedItems var predicate rec rest
    pure (v::vs)

/-- Truth of a quantifier from the numbers of true, false and other outcomes. -/
def quantify (kind : QuantifierKind) (trues falses nulls : Nat) : Option Bool :=
  match kind with
  | .all => if 0<falses then some false else if 0<nulls then none else some true
  | .any => if 0<trues then some true else if 0<nulls then none else some false
  | .none => if 0<trues then some false else if 0<nulls then none else some true
  | .single =>
    if trues=1 ∧ nulls=0 then some true else if 0<nulls ∧ trues≤1 then none else some false

/-- Quantifier predicate. -/
def evalQuantifier (kind : QuantifierKind) (var : String) (listExpr predicate : Cell) : Cell :=
  fun rec => do
    match ← listExpr rec with
    | .list items =>
      let vs ← quantifiedItems var predicate rec items
      let trues := vs.countP fun v => match v with | .bool b => b | _ => false
      let falses := vs.countP fun v => match v with | .bool b => !b | _ => false
      pure (triValue (quantify kind trues falses (vs.length-trues-falses)))
    | .null => pure .null
    | _ => .error (.semantic "quantifier requires a list input")

/-- Element of a list; negative positions count from the end. -/
def listElement (items : List Value) (i : Int64) : Value :=
  let resolved := if i.toInt<0 then (items.length : Int)+i.toInt else i.toInt
  if resolved<0 then .null else items.getD resolved.toNat .null

/-- Indexing of evaluated operands. -/
def indexValue : Value → Value → Result Value
  | .list items,.i64 i => .ok (listElement items i)
  | .node n,.string key => .ok (propOrNull n.properties key)
  | .edge e,.string key => .ok (propOrNull e.properties key)
  | .map m,.string key => .ok (propOrNull m key)
  | .null,_ => .ok .null
  | _,.null => .ok .null
  | _,.i64 _ => .error (.query .typeError .runtime .invalidArgumentType "cannot index a non-list value")
  | .list _,_ => .error (.query .typeError .runtime .invalidArgumentType "list index must be an integer")
  | .map _,_ => .error (.query .typeError .runtime .mapElementAccessByNonString "map index must be a string")
  | .node _,_ => .error (.query .typeError .runtime .mapElementAccessByNonString "map index must be a string")
  | .edge _,_ => .error (.query .typeError .runtime .mapElementAccessByNonString "map index must be a string")
  | _,_ => .ok .null

/-- Dynamic property access on a variable, when one of its forms applies. -/
def dynamicProperty (rec : NamedRecord) (var key : String) : Option Value :=
  match rec.get (var++("."++key)) with
  | some val => some val
  | none =>
    match rec.get var with
    | some .null => some .null
    | some (.map entries) => some (propOrNull entries key)
    | _ => (storedNode st rec var).map fun n => propOrNull n.properties key

/-- Indexing; on a variable a text index is tried as a property first. -/
def evalIndex (baseVar : Option String) (base index : Cell) : Cell := fun rec => do
  let early ← (match baseVar with
    | none => .ok none
    | some var => (index rec).map fun i =>
      match i with
      | .string key => dynamicProperty st rec var key
      | _ => none)
  match early with
  | some val => pure val
  | none => do
    let b ← base rec
    let i ← index rec
    indexValue b i

/-- Property access on a computed value. -/
def evalDotAccess (base : Cell) (key : String) : Cell := fun rec => do
  match ← base rec with
  | .map entries => pure (propOrNull entries key)
  | .node n => pure (propOrNull n.properties key)
  | .edge e => pure (propOrNull e.properties key)
  | .null => pure .null
  | v => pure ((env.temporalAccessor v key).getD .null)

/-- Bound of a slice, clamped to the list. -/
def sliceBound (len : Nat) (default : Nat) : Option Value → Nat
  | some (.i64 i) => (max 0 (min (len : Int) (if i.toInt<0 then (len : Int)+i.toInt else i.toInt))).toNat
  | _ => default

/-- Optional operand of a slice. -/
def evalBound (bound : Option Cell) (rec : NamedRecord) : Result (Option Value) :=
  match bound with
  | none => .ok none
  | some cell => (cell rec).map some

/-- Whether a bound is present and null. -/
def boundIsNull : Option Value → Bool
  | some .null => true
  | _ => false

/-- Slice of a list. -/
def evalSlice (base : Cell) (start stop : Option Cell) : Cell := fun rec => do
  let b ← base rec
  let s ← evalBound start rec
  let e ← evalBound stop rec
  match b with
  | .list items =>
    if boundIsNull s=true ∨ boundIsNull e=true then pure .null
    else
      let lo := sliceBound items.length 0 s
      let hi := sliceBound items.length items.length e
      pure (.list ((items.take hi).drop lo))
  | _ => pure .null

/-- Label predicate. -/
def evalHasLabel (var : String) (labels : List String) : Cell := fun rec =>
  match rec.get var with
  | some .null => .ok .null
  | _ =>
    match rec.get (var++".__labels") with
    | some (.list present) => .ok (.bool (labels.all fun l => present.any (valueEq (.string l))))
    | _ =>
      match rec.get (var++".__type") with
      | some (.string relType) => .ok (.bool (labels.all fun l => l=relType))
      | _ =>
        match storedNode st rec var with
        | some n => .ok (.bool (labels.all fun l => l∈n.labels))
        | none => .ok (.bool false)

/-- The variable of an expression that is one. -/
def asVariable : Expr S → Option String
  | .var name => some name
  | _ => none

/-- First argument of a call, null when there is none. -/
def evalSingleArg (args : List Cell) (rec : NamedRecord) : Result Value :=
  match args with
  | [] => .ok .null
  | cell::_ => cell rec

/-- The function `id`: the identifier field of a variable, else of the value. -/
def evalId (args : List (Expr S)) (cells : List Cell) : Cell := fun rec =>
  match (args.head?.bind asVariable).bind fun var => rec.get (var++".__id") with
  | some (.i64 id) => .ok (.i64 id)
  | _ => (evalSingleArg cells rec).map fun v =>
    match v with
    | .i64 n => .i64 n
    | .node n => .i64 n.id.toInt64
    | _ => .null

/-- The function `toLower`. -/
def evalToLower (cells : List Cell) : Cell := fun rec =>
  (evalSingleArg cells rec).map fun v =>
    match v with
    | .string s => .string (env.toLowercase s)
    | _ => .null

/-- Function call; names are compared without case. -/
def evalFunctionCall (name : String) (args : List (Expr S)) (cells : List Cell)
    (originalText : Option String) : Cell := fun rec =>
  if asciiLower name = "id" then evalId args cells rec
  else if asciiLower name = "tolower" then evalToLower env cells rec
  else env.function st name args originalText rec

mutual

/-- Value of an expression on a record. -/
def evalExpr : Expr S → Cell
  | .literal l => fun _ => .ok (literalToValue l)
  | .var name => evalVariable name
  | .property var prop => evalProperty env st var prop
  | .list items => fun rec => (evalAll rec (evalExprs items)).map Value.list
  | .index expr index => evalIndex st (asVariable expr) (evalExpr expr) (evalExpr index)
  | .dotAccess expr key => evalDotAccess env (evalExpr expr) key
  | .slice expr start stop => evalSlice (evalExpr expr) (evalOption start) (evalOption stop)
  | .hasLabel var labels => evalHasLabel st var labels
  | .star => fun _ => .ok .null
  | .parameter name => evalParameter env name
  | .binaryOp left op right => evalBinary env (evalExpr left) op (evalExpr right)
  | .not inner => evalNot (evalExpr inner)
  | .isNull inner => fun rec => (evalExpr inner rec).map fun v => .bool v.isNull
  | .isNotNull inner => fun rec => (evalExpr inner rec).map fun v => .bool !v.isNull
  | .case operand alternatives default =>
    evalCase (evalOption operand) (evalPairs alternatives) (evalOption default)
  | .listComprehension var listExpr filter mapExpr =>
    evalListComprehension var (evalExpr listExpr) (evalOption filter) (evalOption mapExpr)
  | .quantifier kind var listExpr predicate =>
    evalQuantifier kind var (evalExpr listExpr) (evalExpr predicate)
  | .patternComprehension pathVar pattern whereClause mapExpr =>
    env.patternComprehension st pathVar pattern whereClause mapExpr
  | .exists patterns whereClause => env.existsPatterns st patterns whereClause
  | .patternPredicate pattern => env.existsPatterns st [pattern] none
  | .existsSubquery stmt => env.existsSubquery st stmt
  | .mapLiteral pairs => fun rec => (evalEntries rec [] (evalNamed pairs)).map Value.map
  | .functionCall name args _ originalText =>
    evalFunctionCall env st name args (evalExprs args) originalText
termination_by structural expr => expr

/-- Expressions of a list, compiled. -/
def evalExprs : List (Expr S) → List Cell
  | [] => []
  | expr::rest => evalExpr expr::evalExprs rest
termination_by structural exprs => exprs

/-- An optional expression, compiled. -/
def evalOption : Option (Expr S) → Option Cell
  | none => none
  | some expr => some (evalExpr expr)
termination_by structural expr => expr

/-- Alternatives of a CASE, compiled. -/
def evalPairs : List (Expr S×Expr S) → List (Cell×Cell)
  | [] => []
  | pair::rest => evalPair pair::evalPairs rest
termination_by structural pairs => pairs

/-- One alternative of a CASE, compiled. -/
def evalPair : Expr S×Expr S → Cell×Cell
  | (condition,result) => (evalExpr condition,evalExpr result)
termination_by structural pair => pair

/-- Entries of a map literal, compiled. -/
def evalNamed : List (String×Expr S) → List (String×Cell)
  | [] => []
  | entry::rest => evalEntry entry::evalNamed rest
termination_by structural entries => entries

/-- One entry of a map literal, compiled. -/
def evalEntry : String×Expr S → String×Cell
  | (key,expr) => (key,evalExpr expr)
termination_by structural entry => entry

end

/-- Whether a predicate evaluates to true. -/
def evalPredicate (predicate : Expr S) (rec : NamedRecord) : Result Bool :=
  (evalExpr env st predicate rec).map isTrue

end Evaluator

end GraphDbLite.CypherEval
