import ApexLayout.Grammar.Operators
import ApexLayout.Grammar.Type

/-!
Expressions.

Every level of an expression is a flat row: operators in front of an operand, steps behind it,
operands between binary operators, values between assignments. The rows are read first and folded
into trees afterwards, so the grammar calls itself only inside brackets, arguments and between
`?` and `:`.
-/

namespace ApexLayout

namespace Grammar

/-! ## Arguments and creators -/

/-- An argument list. -/
def arguments (expression : Grammar Expression) : Grammar (List Expression) := do
  symbol "("
  if ← takeSymbol ")" then
    return []
  else
    let items ← commaSeparated expression
    symbol ")"
    return items

/-- The value of a map entry, if an arrow is next. -/
def entryValue (expression : Grammar Expression) : Grammar (Option Expression) :=
  Reader.optional (takeSymbol "=>") expression

/-- A further entry of a map. -/
def entry (expression : Grammar Expression) : Grammar (Expression × Expression) := do
  let key ← expression
  symbol "=>"
  let value ← expression
  return (key, value)

/-- The inside of the braces of a collection, with the closing brace. The first item decides
whether it is a map. -/
def collection (expression : Grammar Expression) : Grammar CreatorBody := do
  if ← takeSymbol "\x7d" then
    return .elements []
  else
    let first ← expression
    match ← entryValue expression with
    | some value =>
      let others ← Reader.many (Reader.optional (takeSymbol ",") (entry expression))
      symbol "\x7d"
      return .entries ((first, value) :: others)
    | none =>
      let others ← Reader.many (Reader.optional (takeSymbol ",") expression)
      symbol "\x7d"
      return .elements (first :: others)

/-- What follows the type in a `new` expression. -/
def creatorBody (expression : Grammar Expression) : Grammar CreatorBody := do
  if ← atSymbol "(" then
    return .arguments (← arguments expression)
  else if ← takeSymbol "[" then
    let size ← expression
    symbol "]"
    return .arraySize size
  else if ← takeSymbol "\x7b" then
    collection expression
  else
    fail .creatorBody

/-- What follows `new`. -/
def creation (expression : Grammar Expression) : Grammar Expression := do
  let type ← typeRef
  let body ← creatorBody expression
  return .creation type body

/-! ## Primaries -/

/-- A query in brackets, as the source has it. -/
def query : Grammar Expression := do
  let position ← look (·.position)
  let tokens ← enclosure "[" "]" .queryEnd
  let text := (tokens.head?.map Token.text).getD [] ++ (tokens.tail.map Token.source).flatten
  return .primary (.query ⟨text, some position⟩)

/-- A dot, if an identifier stands behind it that is not called. -/
def dotBeforePathName : Grammar Bool := do
  let found ← look fun stream =>
    stream.symbolAt 0 "." && stream.identifierAt 1 && !stream.symbolAt 2 "("
  if found then skip 1
  return found

/-- A name and what it stands for: a class literal, a dotted path, a call or a variable. A name
right in front of arguments is left to the chain. -/
def named (expression : Grammar Expression) : Grammar Expression := do
  let names ← Reader.separated dotBeforePathName takeText
  if ← look fun stream => stream.symbolAt 0 "." && stream.wordAt 1 "class" then
    skip 2
    return .primary (.classLiteral (TypeRef.path names))
  else
    match names with
    | [name] =>
      if ← atSymbol "(" then
        return .call name (← arguments expression)
      else
        return .primary (.identifier name)
    | _ => return .primary (.path (TypeRef.path names))

/-- The object itself or its parent part, or a call of their constructor. -/
def selfReference (expression : Grammar Expression) (primary : Primary) : Grammar Expression := do
  let name ← takeText
  if ← atSymbol "(" then
    return .call name (← arguments expression)
  else
    return .primary primary

/-- An expression that begins with a word. -/
def wordPrimary (expression : Grammar Expression) : Grammar Expression := do
  let stream ← get
  if stream.wordInAt 0 Vocabulary.literals then
    return .primary (.literal (← takeText))
  else if stream.wordAt 0 "this" then
    selfReference expression .this
  else if stream.wordAt 0 "super" then
    selfReference expression .super
  else if ← takeWord "new" then
    creation expression
  else if stream.identifierAt 0 then
    named expression
  else
    fail .expression

/-- An expression without operators and steps. -/
def primary (expression : Grammar Expression) : Grammar Expression := do
  let stream ← get
  if stream.holds 0 fun token => token.kind == .number || token.kind == .string then
    return .primary (.literal (← takeText))
  else if stream.holds 0 (·.kind == .word) then
    wordPrimary expression
  else if ← takeSymbol "(" then
    let inner ← expression
    symbol ")"
    return .parenthesized inner
  else if stream.symbolAt 0 "[" then
    query
  else
    fail .expression

/-! ## Steps behind a primary -/

/-- A step behind an operand. -/
inductive Step
  | link (link : Link)
  | index (index : Expression)
  | operator (text : Text)

/-- The operand together with the step. -/
def Step.apply (operand : Expression) : Step → Expression
  | .link step => .chain operand step
  | .index position => .arrayAccess operand position
  | .operator text => .unary .trailing text operand

/-- The rest of a link, behind its dot. Any word but `class` names a member. -/
def link (expression : Grammar Expression) (navigation : Navigation) : Grammar Link := do
  require (!(← atWord "class")) .noClassLiteral
  require (← look (·.holds 0 (·.kind == .word))) .memberName
  let member ← takeText
  let called ← Reader.optional (atSymbol "(") (arguments expression)
  return ⟨navigation, member, called⟩

/-- The next step, if there is one. -/
def step (expression : Grammar Expression) : Grammar (Option Step) := do
  if ← takeSymbol "." then
    return some (.link (← link expression .dot))
  else if ← takeSymbol "?." then
    return some (.link (← link expression .safeDot))
  else if ← takeSymbol "[" then
    let index ← expression
    symbol "]"
    return some (.index index)
  else if ← look (·.symbolInAt 0 Operators.trailing) then
    return some (.operator (← takeText))
  else
    return none

/-- A primary with the steps behind it. -/
def stepped (expression : Grammar Expression) : Grammar Expression := do
  let first ← primary expression
  let steps ← Reader.many (step expression)
  return steps.foldl Step.apply first

/-! ## Operators in front of an operand -/

/-- What may stand in front of an operand. -/
inductive Front
  | operator (text : Text)
  | cast (type : TypeRef)

/-- The operand together with what stands in front of it. -/
def Front.apply (front : Front) (operand : Expression) : Expression :=
  match front with
  | .operator text => .unary .leading text operand
  | .cast type => .cast type operand

/-- Whether a token can begin the operand of a cast. -/
def castable (token : Token) : Bool :=
  match token.kind with
  | .word => !token.isWord "instanceof"
  | .number | .string => true
  | .symbol => token.isSymbolIn (["(", "!", "~"].map String.toList)

/-- A type in parentheses with something behind it that a cast can apply to. -/
def castType : Grammar TypeRef := do
  symbol "("
  let type ← typeRef
  symbol ")"
  require (← look (·.holds 0 castable)) .expression
  return type

/-- The next operator or cast in front of an operand, if there is one. -/
def front : Grammar (Option Front) := do
  if ← look (·.symbolInAt 0 Operators.leading) then
    return some (.operator (← takeText))
  else if ← atSymbol "(" then
    return (← Reader.attempt castType).map .cast
  else
    return none

/-- An operand with the operators around it. -/
def unary (expression : Grammar Expression) : Grammar Expression := do
  let fronts ← Reader.many front
  let operand ← stepped expression
  return fronts.foldr Front.apply operand

/-! ## Rows of operands -/

/-- The next binary operator with its right operand, or the next type test, if there is one. -/
def operation (expression : Grammar Expression) : Grammar (Option Operators.Operation) := do
  if ← takeWord "instanceof" then
    return some (.instanceOf (← typeRef))
  else
    match ← look Operators.binary? with
    | some (operator, count) =>
      skip count
      return some (.binary operator (← unary expression))
    | none => return none

/-- Operands between binary operators. -/
def binary (expression : Grammar Expression) : Grammar Expression := do
  let first ← unary expression
  let row ← Reader.many (operation expression)
  return Operators.assemble first row

/-- The two outcomes of a condition, if a question mark is next. -/
def outcomes (expression : Grammar Expression) : Grammar (Option (Expression × Expression)) := do
  if ← takeSymbol "?" then
    let thenValue ← expression
    symbol ":"
    let otherwise ← binary expression
    return some (thenValue, otherwise)
  else
    return none

/-- A row of conditions: each but the last has a value, and what follows the last is the value
when none holds. -/
def choose (first : Expression) : List (Expression × Expression) → Expression
  | [] => first
  | (thenValue, next) :: rest => .conditional first thenValue (choose next rest)

/-- A value, perhaps by conditions. -/
def conditional (expression : Grammar Expression) : Grammar Expression := do
  let first ← binary expression
  let row ← Reader.many (outcomes expression)
  return choose first row

/-- The next assignment operator with what is assigned, if there is one. -/
def assigned (expression : Grammar Expression) : Grammar (Option (Text × Expression)) := do
  match ← look Operators.assignment? with
  | some (operator, count) =>
    skip count
    return some (operator, ← conditional expression)
  | none => return none

/-- A row of assignments, the last value going into all targets before it. -/
def assign (target : Expression) : List (Text × Expression) → Expression
  | [] => target
  | (operator, next) :: rest => .assignment target operator (assign next rest)

/-- An expression, by what the expressions inside it are. -/
def expressionRule (expression : Grammar Expression) : Grammar Expression := do
  let first ← conditional expression
  let row ← Reader.many (assigned expression)
  return assign first row

/-- An expression. -/
def expression : Grammar Expression := Reader.recursive expressionRule

end Grammar

end ApexLayout
