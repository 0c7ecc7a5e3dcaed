import ApexLayout.Text.Position
import ApexLayout.Tree.Kind
import ApexLayout.Tree.Type

/-!
Expressions.

Parentheses are nodes of their own, so a tree fixes how its source groups operators. A chain
`receiver.a().b` leans to the left: each node adds one link to what stands in front of it.
-/

namespace ApexLayout

/-- The families of binary operators. -/
inductive BinaryKind
  | logicalAnd
  | logicalOr
  | bitAnd
  | bitOr
  | bitXor
  | shift
  | arithmetic
  | comparison
deriving DecidableEq

/-- Whether a unary operator stands in front of its operand or behind it. -/
inductive Fixity
  | leading
  | trailing
deriving DecidableEq

/-- How a link steps from its receiver: always, or only if there is one. -/
inductive Navigation
  | dot
  | safeDot
deriving DecidableEq

/-- A navigation as written. -/
def Navigation.text : Navigation → Text
  | .dot => "."
  | .safeDot => "?."

/-- A query in brackets, kept as written, and where it stands. -/
structure EmbeddedQuery where
  text : Text
  position : Option Position
deriving DecidableEq

/-- Expressions without parts of their own kind. -/
inductive Primary
  | literal (text : Text)
  | identifier (name : Text)
  | this
  | super
  /-- A dotted path of at least two names. -/
  | path (type : TypeRef)
  | classLiteral (type : TypeRef)
  | query (embedded : EmbeddedQuery)

mutual

/-- Expressions. -/
inductive Expression
  | assignment (target : Expression) (operator : Text) (value : Expression)
  | conditional (condition thenValue elseValue : Expression)
  | binary (kind : BinaryKind) (operator : Text) (left right : Expression)
  | unary (fixity : Fixity) (operator : Text) (operand : Expression)
  | cast (type : TypeRef) (operand : Expression)
  | instanceOf (operand : Expression) (type : TypeRef)
  | creation (type : TypeRef) (body : CreatorBody)
  | arrayAccess (array index : Expression)
  | chain (receiver : Expression) (link : Link)
  /-- A call without a receiver. -/
  | call (name : Text) (arguments : List Expression)
  | parenthesized (inner : Expression)
  | primary (leaf : Primary)

/-- One step of a chain: a member, and its arguments if it is called. -/
structure Link where
  navigation : Navigation
  member : Text
  arguments : Option (List Expression)

/-- What follows the type in a `new` expression. -/
inductive CreatorBody
  | arguments (items : List Expression)
  | arraySize (size : Expression)
  | elements (items : List Expression)
  | entries (items : List (Expression × Expression))

end

/-- The kind of a primary expression. -/
def Primary.kind : Primary → NodeKind
  | .literal _ => .literal
  | .identifier _ => .identifier
  | .this => .this
  | .super => .super
  | .path _ => .typeReference
  | .classLiteral _ => .classLiteral
  | .query _ => .embeddedQuery

/-- The kind of an expression. -/
def Expression.kind : Expression → NodeKind
  | .assignment .. => .assignment
  | .conditional .. => .conditional
  | .binary .. => .binary
  | .unary .. => .unary
  | .cast .. => .cast
  | .instanceOf .. => .instanceOf
  | .creation .. => .creation
  | .arrayAccess .. => .arrayAccess
  | .chain .. => .chain
  | .call .. => .call
  | .parenthesized _ => .parenthesized
  | .primary leaf => leaf.kind

/-- Whether a link is a call. -/
def Link.isCall (link : Link) : Bool := link.arguments.isSome

end ApexLayout
