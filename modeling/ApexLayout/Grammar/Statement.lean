import ApexLayout.Grammar.Expression
import ApexLayout.Tree.Statement

/-!
Statements.
-/

namespace ApexLayout

namespace Grammar

/-! ## Variables -/

/-- The rest of a declarator, behind its name. -/
def declarator (name : Text) : Grammar Declarator := do
  let initializer ← Reader.optional (takeSymbol "=") expression
  return ⟨name, initializer⟩

/-- The rest of the declarators, behind the first name. -/
def declarators (first : Text) : Grammar (List Declarator) := do
  let head ← declarator first
  let others ← Reader.many (Reader.optional (takeSymbol ",") (identifier >>= declarator))
  return head :: others

/-- Modifiers and a type with a name behind them that is being declared. -/
def variableHead : Grammar (List Modifier × TypeRef) := do
  let modifiers ← modifiers
  let type ← typeRef
  let declared ← look fun stream =>
    stream.identifierAt 0 && stream.symbolInAt 1 (["=", ";", ","].map String.toList)
  require declared .identifier
  return (modifiers, type)

/-- A declaration of local variables, if the next tokens look like one. -/
def localVariables : Grammar (Option VariableDeclaration) := do
  match ← Reader.attempt variableHead with
  | some (modifiers, type) =>
    let name ← identifier
    return some ⟨modifiers, type, ← declarators name⟩
  | none => return none

/-! ## Blocks and headers -/

/-- Statements between braces. -/
def blockOf (statement : Grammar Statement) : Grammar Block := do
  symbol "\x7b"
  let continues := look fun stream => !(stream.tokens.isEmpty || stream.symbolAt 0 "\x7d")
  let body ← Reader.many (Reader.optional continues statement)
  symbol "\x7d"
  return body

/-- An expression in parentheses. -/
def inParentheses : Grammar Expression := do
  symbol "("
  let inner ← expression
  symbol ")"
  return inner

/-- A variable that takes the elements of a collection in turn, with the colon behind it. -/
def eachHead : Grammar (List Modifier × TypeRef × Text) := do
  let modifiers ← modifiers
  let type ← typeRef
  let name ← identifier
  symbol ":"
  return (modifiers, type, name)

/-- What a counting loop begins with. -/
def forInit : Grammar (Option ForInit) := do
  if ← atSymbol ";" then
    return none
  else
    match ← localVariables with
    | some declaration => return some (.variables declaration)
    | none => return some (.expressions (← commaSeparated expression))

/-- An expression, unless the given symbol is next. -/
def expressionUnless (stop : Text) : Grammar (Option Expression) :=
  Reader.optional (return !(← atSymbol stop)) expression

/-- The header of a counting loop. -/
def countingControl : Grammar ForControl := do
  let init ← forInit
  symbol ";"
  let condition ← expressionUnless ";"
  symbol ";"
  let update ← Reader.optional (return !(← atSymbol ")")) (commaSeparated expression)
  return .counting init condition (update.getD [])

/-- The inside of the parentheses of a `for` loop. -/
def forControl : Grammar ForControl := do
  match ← Reader.attempt eachHead with
  | some (modifiers, type, name) => return .each modifiers type name (← expression)
  | none => countingControl

/-! ## Statements -/

/-- The rest of an `if` statement, behind its keyword. -/
def ifElse (statement : Grammar Statement) : Grammar Statement := do
  let condition ← inParentheses
  let thenBranch ← statement
  let elseBranch ← Reader.optional (takeWord "else") statement
  return .ifElse condition thenBranch elseBranch

/-- The rest of a `while` loop, behind its keyword. -/
def whileLoop (statement : Grammar Statement) : Grammar Statement := do
  let condition ← inParentheses
  let body ← statement
  return .whileLoop condition body

/-- The rest of a `for` loop, behind its keyword. -/
def forLoop (statement : Grammar Statement) : Grammar Statement := do
  symbol "("
  let control ← forControl
  symbol ")"
  let body ← statement
  return .forLoop control body

/-- The rest of a `catch` clause, behind its keyword. -/
def catchClause (statement : Grammar Statement) : Grammar CatchClause := do
  symbol "("
  let modifiers ← modifiers
  let type ← typeRef
  let name ← identifier
  symbol ")"
  let body ← blockOf statement
  return ⟨modifiers, type, name, body⟩

/-- The rest of a `try` statement, behind its keyword. -/
def tryCatch (statement : Grammar Statement) : Grammar Statement := do
  let body ← blockOf statement
  let catches ← Reader.many (Reader.optional (takeWord "catch") (catchClause statement))
  let cleanup ← Reader.optional (takeWord "finally") (blockOf statement)
  require (!catches.isEmpty || cleanup.isSome) .handler
  return .tryCatch body catches cleanup

/-- A statement that ends with a semicolon. -/
def ended (statement : Statement) : Grammar Statement := do
  symbol ";"
  return statement

/-- Whether a database operation with its operand comes next. The keyword alone may also be a
variable, a receiver or a method without arguments. -/
def dmlAhead (stream : TokenStream) : Bool :=
  stream.wordInAt 0 Vocabulary.dmlOperations &&
    (stream.holds 1 (·.kind == .word) || stream.symbolAt 1 "[" ||
      (stream.symbolAt 1 "(" && !stream.symbolAt 2 ")"))

/-- A database operation. -/
def dml : Grammar Statement := do
  let operation ← takeText
  let operand ← expression
  ended (.dml operation operand)

/-- A declaration of variables, or else an expression. -/
def simpleStatement : Grammar Statement := do
  match ← localVariables with
  | some declaration => ended (.variables declaration)
  | none => ended (.expression (← expression))

/-- A statement, by what the statements inside it are. -/
def statementRule (statement : Grammar Statement) : Grammar Statement := do
  if ← atSymbol "\x7b" then
    return .block (← blockOf statement)
  else if ← takeWord "if" then
    ifElse statement
  else if ← takeWord "while" then
    whileLoop statement
  else if ← takeWord "for" then
    forLoop statement
  else if ← takeWord "try" then
    tryCatch statement
  else if ← takeWord "return" then
    ended (.returnValue (← expressionUnless ";"))
  else if ← takeWord "throw" then
    ended (.throwValue (← expression))
  else if ← takeWord "break" then
    ended .breakLoop
  else if ← takeWord "continue" then
    ended .continueLoop
  else if ← look dmlAhead then
    dml
  else
    simpleStatement

/-- A statement. -/
def statement : Grammar Statement := Reader.recursive statementRule

/-- A block. -/
def block : Grammar Block := blockOf statement

end Grammar

end ApexLayout
