import ApexLayout.Layout.Context
import ApexLayout.Layout.Type

/-!
Printing of expressions.

Arguments and what follows the type in a `new` expression keep their chains on one line. The
layout of a chain is chosen once, at its last link, and handed down to the links before.
-/

namespace ApexLayout

/-- A node that lacks its operator is refused. -/
def requireOperator (kind : NodeKind) (operator : Text) : Except RenderError Unit :=
  if operator.isEmpty then throw (.malformed kind .operator) else return ()

/-- An operator in front of its operand, with a blank where the two would read as one. -/
def leadingOperator (operator operand : Text) : Text :=
  let fuses := operator.getLast? = operand.head? ∧
    (operator.getLast? = some '+' ∨ operator.getLast? = some '-')
  if fuses then operator ++ " " ++ operand else operator ++ operand

/-- The text of a primary expression. -/
def Primary.render : Primary → Rendered
  | .literal text => return text
  | .identifier name => return name
  | .this => return "this"
  | .super => return "super"
  | .path type => type.render
  | .classLiteral type => return (← type.render) ++ ".class"
  | .query embedded => throw (.unsupported .embeddedQuery embedded.position)

/-- The surroundings of a link in a chain. -/
def Context.forLink (context : Context) : ChainLayout → Context
  | .inline => context
  | .exploded => context.deeper

/-- A link behind its receiver. -/
def Context.attach (context : Context) (layout : ChainLayout) (receiver link : Text) : Text :=
  match layout with
  | .inline => receiver ++ link
  | .exploded => receiver ++ ['\n'] ++ context.indent link

mutual

/-- The text of an expression; a chain that is the receiver of a longer one takes its layout. -/
def Expression.renderWithin (context : Context) (outer : Option ChainLayout) :
    Expression → Rendered
  | .assignment target operator value => do
    requireOperator .assignment operator
    let targetText ← target.renderWithin context none
    let valueText ← value.renderWithin context none
    return targetText ++ " " ++ operator ++ " " ++ valueText
  | .conditional condition thenValue elseValue => do
    let conditionText ← condition.renderWithin context none
    let thenText ← thenValue.renderWithin context none
    let elseText ← elseValue.renderWithin context none
    return conditionText ++ " ? " ++ thenText ++ " : " ++ elseText
  | .binary _ operator left right => do
    requireOperator .binary operator
    let leftText ← left.renderWithin context none
    let rightText ← right.renderWithin context none
    return leftText ++ " " ++ operator ++ " " ++ rightText
  | .unary fixity operator operand => do
    requireOperator .unary operator
    let operandText ← operand.renderWithin context none
    match fixity with
    | .leading => return leadingOperator operator operandText
    | .trailing => return operandText ++ operator
  | .cast type operand => do
    let typeText ← type.render
    let operandText ← operand.renderWithin context none
    return "(" ++ typeText ++ ")" ++ operandText
  | .instanceOf operand type => do
    let operandText ← operand.renderWithin context none
    let typeText ← type.render
    return operandText ++ " instanceof " ++ typeText
  | .creation type body => do
    let typeText ← type.render
    let bodyText ← body.render context.inlined
    return "new " ++ typeText ++ bodyText
  | .arrayAccess array index => do
    let arrayText ← array.renderWithin context none
    let indexText ← index.renderWithin context none
    return arrayText ++ "[" ++ indexText ++ "]"
  | .chain receiver link => do
    let calls := Expression.callCount (.chain receiver link)
    let layout := outer.getD (context.chainLayout calls)
    let receiverText ← receiver.renderWithin context (some layout)
    let linkText ← link.render (context.forLink layout)
    return context.attach layout receiverText linkText
  | .call name arguments => do
    let texts ← Expression.renderAll context.inlined arguments
    return name ++ "(" ++ Text.join ", " texts ++ ")"
  | .parenthesized inner => do
    let innerText ← inner.renderWithin context none
    return "(" ++ innerText ++ ")"
  | .primary leaf => leaf.render

/-- The text of a link. -/
def Link.render (context : Context) : Link → Rendered
  | ⟨navigation, member, arguments⟩ => do
    if member.isEmpty then
      throw (.malformed .chain .memberName)
    else
      match arguments with
      | none => return navigation.text ++ member
      | some arguments =>
        let texts ← Expression.renderAll context.inlined arguments
        return navigation.text ++ member ++ "(" ++ Text.join ", " texts ++ ")"

/-- The text of what follows the type in a `new` expression. -/
def CreatorBody.render (context : Context) : CreatorBody → Rendered
  | .arguments items => do
    let texts ← Expression.renderAll context items
    return "(" ++ Text.join ", " texts ++ ")"
  | .arraySize size => do
    let text ← size.renderWithin context none
    return "[" ++ text ++ "]"
  | .elements items => do
    let texts ← Expression.renderAll context items
    return ['{'] ++ Text.join ", " texts ++ ['}']
  | .entries items => do
    let texts ← Expression.renderEntries context items
    return ['{'] ++ Text.join ", " texts ++ ['}']

/-- The texts of expressions. -/
def Expression.renderAll (context : Context) :
    List Expression → Except RenderError (List Text)
  | [] => return []
  | expression :: rest => do
    let first ← expression.renderWithin context none
    let others ← Expression.renderAll context rest
    return first :: others

/-- The texts of map entries. -/
def Expression.renderEntries (context : Context) :
    List (Expression × Expression) → Except RenderError (List Text)
  | [] => return []
  | (key, value) :: rest => do
    let keyText ← key.renderWithin context none
    let valueText ← value.renderWithin context none
    let others ← Expression.renderEntries context rest
    return (keyText ++ " => " ++ valueText) :: others

end

/-- The text of an expression. -/
def Expression.render (context : Context) (expression : Expression) : Rendered :=
  expression.renderWithin context none

end ApexLayout
