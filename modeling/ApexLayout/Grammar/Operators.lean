import ApexLayout.Grammar.Vocabulary
import ApexLayout.Tree.Expression

/-!
Operators and how tightly they bind.

Operands and operators are first read as one flat row; `assemble` then groups the row. Operators
of one level group to the left, and `instanceof` applies to all that binds at least as tightly.
-/

namespace ApexLayout

/-- A binary operator: how it is written, its family and how tightly it binds. -/
structure BinaryOperator where
  text : Text
  kind : BinaryKind
  precedence : Nat
deriving DecidableEq

namespace BinaryOperator

/-- All binary operators, from the loosest to the tightest. -/
def all : List BinaryOperator :=
  [⟨"||", .logicalOr, 1⟩, ⟨"&&", .logicalAnd, 2⟩, ⟨"|", .bitOr, 3⟩, ⟨"^", .bitXor, 4⟩,
    ⟨"&", .bitAnd, 5⟩, ⟨"==", .comparison, 6⟩, ⟨"!=", .comparison, 6⟩, ⟨"===", .comparison, 6⟩,
    ⟨"!==", .comparison, 6⟩, ⟨"<", .comparison, 7⟩, ⟨">", .comparison, 7⟩, ⟨"<=", .comparison, 7⟩,
    ⟨">=", .comparison, 7⟩, ⟨"<<", .shift, 8⟩, ⟨">>", .shift, 8⟩, ⟨">>>", .shift, 8⟩,
    ⟨"+", .arithmetic, 9⟩, ⟨"-", .arithmetic, 9⟩, ⟨"*", .arithmetic, 10⟩, ⟨"/", .arithmetic, 10⟩,
    ⟨"%", .arithmetic, 10⟩]

/-- The operator that is written so. -/
def ofText? (text : Text) : Option BinaryOperator := all.find? (·.text == text)

end BinaryOperator

namespace Operators

/-- How tightly `instanceof` binds. -/
def instanceOfPrecedence : Nat := 7

/-- The operators that stand in front of their operand. -/
def leading : List Text := ["+", "-", "!", "~", "++", "--"].map String.toList

/-- The operators that stand behind their operand. -/
def trailing : List Text := ["++", "--"].map String.toList

/-- The assignment operators that are single symbols. -/
def assignments : List Text :=
  ["=", "+=", "-=", "*=", "/=", "&=", "|=", "^=", "<<="].map String.toList

/-! ## Operators in a token stream -/

/-- The operator that begins with `>`, and the number of its tokens: up to three `>` that touch,
and a `=` that touches the last of them. -/
def greater? (stream : TokenStream) : Option (Text × Nat) :=
  if stream.symbolAt 0 ">" then
    let count := 1 + (((stream.tokens.drop 1).take 2).takeWhile (·.touches ">")).length
    if stream.holds count (·.touches "=") then some (List.replicate count '>' ++ ['='], count + 1)
    else some (List.replicate count '>', count)
  else none

/-- The next operator, and the number of its tokens. -/
def symbol? (stream : TokenStream) : Option (Text × Nat) :=
  match greater? stream with
  | some found => some found
  | none =>
    match stream.tokens with
    | [] => none
    | token :: _ => if token.kind = .symbol then some (token.text, 1) else none

/-- The binary operator that comes next, and the number of its tokens. -/
def binary? (stream : TokenStream) : Option (BinaryOperator × Nat) := do
  let (text, count) ← symbol? stream
  return (← BinaryOperator.ofText? text, count)

/-- The assignment operator that comes next, and the number of its tokens. -/
def assignment? (stream : TokenStream) : Option (Text × Nat) := do
  let (text, count) ← symbol? stream
  if text ∈ assignments ∨ text ∈ [[ '>', '>', '=' ], [ '>', '>', '>', '=' ]] then
    return (text, count)
  else none

/-! ## Grouping -/

/-- What follows an operand in a flat row. -/
inductive Operation
  | binary (operator : BinaryOperator) (right : Expression)
  | instanceOf (type : TypeRef)

/-- A left operand with its operator, waiting for the right operand. -/
structure Pending where
  left : Expression
  operator : BinaryOperator

/-- The whole that a right operand completes. -/
def Pending.close (pending : Pending) (right : Expression) : Expression :=
  .binary pending.operator.kind pending.operator.text pending.left right

/-- Completes the innermost pending operands that bind at least as tightly as a level. -/
def reduce (level : Nat) : List Pending → Expression → List Pending × Expression
  | [], operand => ([], operand)
  | pending :: outer, operand =>
    if level ≤ pending.operator.precedence then reduce level outer (pending.close operand)
    else (pending :: outer, operand)

/-- Groups a row behind the pending operands, innermost first, and the operand read last. -/
def assembleFrom : List Pending → Expression → List Operation → Expression
  | stack, operand, [] => (reduce 0 stack operand).2
  | stack, operand, .binary operator right :: rest =>
    let (outer, left) := reduce operator.precedence stack operand
    assembleFrom (⟨left, operator⟩ :: outer) right rest
  | stack, operand, .instanceOf type :: rest =>
    let (outer, left) := reduce instanceOfPrecedence stack operand
    assembleFrom outer (.instanceOf left type) rest

/-- The expression of a flat row of operands. -/
def assemble (first : Expression) (row : List Operation) : Expression :=
  assembleFrom [] first row

end Operators

end ApexLayout
