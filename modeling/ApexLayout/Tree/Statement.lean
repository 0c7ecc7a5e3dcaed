import ApexLayout.Tree.Expression

/-!
Statements.
-/

namespace ApexLayout

/-- One variable of a declaration, with its first value if it has one. -/
structure Declarator where
  name : Text
  initializer : Option Expression

/-- Variables of one type, declared together, in a class body or in a block. -/
structure VariableDeclaration where
  modifiers : List Modifier
  type : TypeRef
  declarators : List Declarator

/-- What a counting loop begins with. -/
inductive ForInit
  | variables (declaration : VariableDeclaration)
  | expressions (items : List Expression)

/-- The header of a `for` loop. -/
inductive ForControl
  /-- A loop over the elements of a collection. -/
  | each (modifiers : List Modifier) (type : TypeRef) (name : Text) (iterable : Expression)
  /-- A loop with a start, a condition and steps. -/
  | counting (init : Option ForInit) (condition : Option Expression) (update : List Expression)

mutual

/-- Statements. -/
inductive Statement
  | block (body : List Statement)
  | ifElse (condition : Expression) (thenBranch : Statement) (elseBranch : Option Statement)
  | whileLoop (condition : Expression) (body : Statement)
  | forLoop (control : ForControl) (body : Statement)
  | tryCatch (body : List Statement) (catches : List CatchClause)
      (cleanup : Option (List Statement))
  | returnValue (value : Option Expression)
  | throwValue (value : Expression)
  | breakLoop
  | continueLoop
  /-- A database operation; its keyword is kept as written. -/
  | dml (operation : Text) (operand : Expression)
  | variables (declaration : VariableDeclaration)
  | expression (expression : Expression)

/-- A `catch` clause. -/
structure CatchClause where
  modifiers : List Modifier
  type : TypeRef
  name : Text
  body : List Statement

end

/-- Statements between braces. -/
abbrev Block := List Statement

/-- The kind of a statement. -/
def Statement.kind : Statement → NodeKind
  | .block _ => .block
  | .ifElse .. => .ifStatement
  | .whileLoop .. => .whileStatement
  | .forLoop .. => .forStatement
  | .tryCatch .. => .tryStatement
  | .returnValue _ => .returnStatement
  | .throwValue _ => .throwStatement
  | .breakLoop => .breakStatement
  | .continueLoop => .continueStatement
  | .dml .. => .dml
  | .variables _ => .localVariable
  | .expression _ => .expressionStatement

end ApexLayout
