import ApexLayout.Layout.Expression
import ApexLayout.Tree.Statement

/-!
Printing of statements.

Headers keep their chains on one line. The body of an `if`, `while` or `for` always gets braces;
only another `if` may follow `else` without them.
-/

namespace ApexLayout

/-! ## Variables and headers -/

/-- The text of one declarator. -/
def Declarator.render (context : Context) (declarator : Declarator) : Rendered :=
  match declarator.initializer with
  | none => return declarator.name
  | some value => return declarator.name ++ " = " ++ (← value.render context)

/-- The text of the variables declared together by a node of the given kind. -/
def Declarator.renderList (context : Context) (kind : NodeKind) (declarators : List Declarator) :
    Rendered := do
  if declarators.isEmpty then
    throw (.malformed kind .declarators)
  else
    return Text.join ", " (← declarators.mapM (Declarator.render context))

/-- The text of a declaration of variables by a node of the given kind. -/
def VariableDeclaration.render (context : Context) (kind : NodeKind)
    (declaration : VariableDeclaration) : Rendered := do
  let typeText ← declaration.type.render
  let names ← Declarator.renderList context kind declaration.declarators
  return Modifier.renderAll declaration.modifiers ++ typeText ++ " " ++ names

/-- The text of what a counting loop begins with. -/
def ForInit.render (context : Context) : ForInit → Rendered
  | .variables declaration => declaration.render context .localVariable
  | .expressions items => return Text.join ", " (← Expression.renderAll context items)

/-- The text of a part of a header behind a semicolon: nothing, or a blank and the part. -/
def headerPart (part : Option Text) : Text :=
  match part with
  | none => []
  | some text => " " ++ text

/-- The text of the header of a `for` loop. -/
def ForControl.render (context : Context) : ForControl → Rendered
  | .each modifiers type name iterable => do
    let typeText ← type.render
    let iterableText ← iterable.render context
    return Modifier.renderAll modifiers ++ typeText ++ " " ++ name ++ " : " ++ iterableText
  | .counting init condition update => do
    let initText ← init.mapM (ForInit.render context)
    let conditionText ← condition.mapM (Expression.render context)
    let updateTexts ← Expression.renderAll context update
    let steps := if update.isEmpty then none else some (Text.join ", " updateTexts)
    return initText.getD [] ++ ";" ++ headerPart conditionText ++ ";" ++ headerPart steps

/-! ## Bodies -/

/-- Whether a statement is a block. -/
def Statement.isBlock : Statement → Bool
  | .block _ => true
  | _ => false

/-- Whether a statement is an `if`. -/
def Statement.isIf : Statement → Bool
  | .ifElse .. => true
  | _ => false

namespace Context

/-- The surroundings of a body, which is one level deeper unless it stands as it is. -/
def body (context : Context) (bare : Bool) : Context := if bare then context else context.deeper

/-- A body, between braces unless it stands as it is. -/
def enclose (context : Context) (bare : Bool) (text : Text) : Text :=
  if bare then text else context.braced text

/-- Lines between braces. -/
def block (context : Context) (texts : List Text) : Text := context.braced (Text.unlines texts)

end Context

/-! ## Statements -/

mutual

/-- The text of a statement. -/
def Statement.render (context : Context) : Statement → Rendered
  | .block body => return context.block (← Statement.renderAll context.deeper body)
  | .ifElse condition thenBranch elseBranch => do
    let conditionText ← condition.render context.inlined
    let thenText ← thenBranch.render (context.body thenBranch.isBlock)
    let header := "if (" ++ conditionText ++ ") " ++ context.enclose thenBranch.isBlock thenText
    match elseBranch with
    | none => return header
    | some branch =>
      let bare := branch.isBlock || branch.isIf
      let elseText ← branch.render (context.body bare)
      return header ++ " else " ++ context.enclose bare elseText
  | .whileLoop condition body => do
    let conditionText ← condition.render context.inlined
    let bodyText ← body.render (context.body body.isBlock)
    return "while (" ++ conditionText ++ ") " ++ context.enclose body.isBlock bodyText
  | .forLoop control body => do
    let controlText ← control.render context.inlined
    let bodyText ← body.render (context.body body.isBlock)
    return "for (" ++ controlText ++ ") " ++ context.enclose body.isBlock bodyText
  | .tryCatch body catches cleanup => do
    let bodyText := context.block (← Statement.renderAll context.deeper body)
    let catchesText ← CatchClause.renderAll context catches
    match cleanup with
    | none => return "try " ++ bodyText ++ catchesText
    | some block =>
      let cleanupText := context.block (← Statement.renderAll context.deeper block)
      return "try " ++ bodyText ++ catchesText ++ " finally " ++ cleanupText
  | .returnValue none => return "return;"
  | .returnValue (some value) => return "return " ++ (← value.render context) ++ ";"
  | .throwValue value => return "throw " ++ (← value.render context) ++ ";"
  | .breakLoop => return "break;"
  | .continueLoop => return "continue;"
  | .dml operation operand => return operation ++ " " ++ (← operand.render context) ++ ";"
  | .variables declaration => return (← declaration.render context .localVariable) ++ ";"
  | .expression value => return (← value.render context) ++ ";"

/-- The texts of statements. -/
def Statement.renderAll (context : Context) :
    List Statement → Except RenderError (List Text)
  | [] => return []
  | statement :: rest => do
    let first ← statement.render context
    let others ← Statement.renderAll context rest
    return first :: others

/-- The text of a `catch` clause, with a blank in front of it. -/
def CatchClause.render (context : Context) : CatchClause → Rendered
  | ⟨modifiers, type, name, body⟩ => do
    let typeText ← type.render
    let bodyText := context.block (← Statement.renderAll context.deeper body)
    return " catch (" ++ Modifier.renderAll modifiers ++ typeText ++ " " ++ name ++ ") " ++ bodyText

/-- The text of `catch` clauses. -/
def CatchClause.renderAll (context : Context) : List CatchClause → Rendered
  | [] => return []
  | clause :: rest => do
    let first ← clause.render context
    let others ← CatchClause.renderAll context rest
    return first ++ others

end

/-- The text of a block. -/
def Block.render (context : Context) (body : Block) : Rendered :=
  return context.block (← Statement.renderAll context.deeper body)

end ApexLayout
