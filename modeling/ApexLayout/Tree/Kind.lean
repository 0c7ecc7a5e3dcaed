import ApexLayout.Text.Basic

/-!
The kinds of nodes, as messages name them.
-/

namespace ApexLayout

/-- The kinds of nodes of a syntax tree. -/
inductive NodeKind
  | compilationUnit
  | classDeclaration
  | interfaceDeclaration
  | enumDeclaration
  | method
  | field
  | constructor
  | property
  | accessor
  | initializer
  | emptyMember
  | block
  | ifStatement
  | whileStatement
  | forStatement
  | tryStatement
  | returnStatement
  | throwStatement
  | breakStatement
  | continueStatement
  | dml
  | localVariable
  | expressionStatement
  | assignment
  | conditional
  | binary
  | unary
  | cast
  | instanceOf
  | creation
  | arrayAccess
  | chain
  | call
  | parenthesized
  | literal
  | identifier
  | this
  | super
  | typeReference
  | classLiteral
  | embeddedQuery
  | formalParameter
  | variableDeclarator
deriving DecidableEq

/-- The name of a kind in messages. -/
def NodeKind.text : NodeKind → Text
  | .compilationUnit => "compilation unit"
  | .classDeclaration => "class declaration"
  | .interfaceDeclaration => "interface declaration"
  | .enumDeclaration => "enum declaration"
  | .method => "method declaration"
  | .field => "field declaration"
  | .constructor => "constructor declaration"
  | .property => "property declaration"
  | .accessor => "property accessor"
  | .initializer => "initializer block"
  | .emptyMember => "empty member"
  | .block => "block"
  | .ifStatement => "if statement"
  | .whileStatement => "while statement"
  | .forStatement => "for statement"
  | .tryStatement => "try statement"
  | .returnStatement => "return statement"
  | .throwStatement => "throw statement"
  | .breakStatement => "break statement"
  | .continueStatement => "continue statement"
  | .dml => "DML statement"
  | .localVariable => "local variable declaration"
  | .expressionStatement => "expression statement"
  | .assignment => "assignment"
  | .conditional => "conditional expression"
  | .binary => "binary expression"
  | .unary => "unary expression"
  | .cast => "cast expression"
  | .instanceOf => "instanceof expression"
  | .creation => "new expression"
  | .arrayAccess => "array access"
  | .chain => "chained expression"
  | .call => "method call"
  | .parenthesized => "parenthesized expression"
  | .literal => "literal"
  | .identifier => "identifier"
  | .this => "this"
  | .super => "super"
  | .typeReference => "type reference"
  | .classLiteral => "class literal"
  | .embeddedQuery => "embedded query"
  | .formalParameter => "formal parameter"
  | .variableDeclarator => "variable declarator"

end ApexLayout
