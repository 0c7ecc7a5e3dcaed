import ApexLayout.Json.Basic
import ApexLayout.Tree.Declaration

/-!
Trees as JSON.

A node with parts is an object with a field for every part; a choice between forms is an object
whose only key names the form, or just that name for a form without parts; a missing part is null.
-/

namespace ApexLayout

namespace Json

/-- An object with the given fields. -/
def record (fields : List (String × Json)) : Json :=
  .object (fields.map fun field => (field.1.toList, field.2))

/-- A list of texts. -/
def texts (items : List Text) : Json := .array (items.map .string)

end Json

/-- A position as JSON. -/
def Position.toJson (position : Position) : Json :=
  .record [("line", .number position.line), ("column", .number position.column)]

/-! ## Types and expressions -/

mutual

/-- A type reference as JSON. -/
def TypeRef.toJson : TypeRef → Json
  | ⟨segments, suffix⟩ =>
    .record [("segments", .array (TypeName.allToJson segments)), ("array_suffix", .string suffix)]

/-- A name of a type reference as JSON. -/
def TypeName.toJson : TypeName → Json
  | ⟨name, arguments⟩ =>
    .record [("name", .string name), ("arguments", .array (TypeRef.allToJson arguments))]

/-- Type references as JSON. -/
def TypeRef.allToJson : List TypeRef → List Json
  | [] => []
  | type :: rest => type.toJson :: TypeRef.allToJson rest

/-- Names of a type reference as JSON. -/
def TypeName.allToJson : List TypeName → List Json
  | [] => []
  | name :: rest => name.toJson :: TypeName.allToJson rest

end

/-- A family of binary operators as JSON. -/
def BinaryKind.toJson : BinaryKind → Json
  | .logicalAnd => .string "logical_and"
  | .logicalOr => .string "logical_or"
  | .bitAnd => .string "bit_and"
  | .bitOr => .string "bit_or"
  | .bitXor => .string "bit_xor"
  | .shift => .string "shift"
  | .arithmetic => .string "arithmetic"
  | .comparison => .string "comparison"

/-- A fixity as JSON. -/
def Fixity.toJson : Fixity → Json
  | .leading => .string "prefix"
  | .trailing => .string "postfix"

/-- A navigation as JSON. -/
def Navigation.toJson : Navigation → Json
  | .dot => .string "dot"
  | .safeDot => .string "safe_dot"

/-- A query as JSON. -/
def EmbeddedQuery.toJson (query : EmbeddedQuery) : Json :=
  .record [("text", .string query.text), ("span", .orNull (query.position.map Position.toJson))]

/-- A primary expression as JSON. -/
def Primary.toJson : Primary → Json
  | .literal text => .tagged "literal" (.string text)
  | .identifier name => .tagged "identifier" (.string name)
  | .this => .string "this"
  | .super => .string "super"
  | .path type => .tagged "type_ref" type.toJson
  | .classLiteral type => .tagged "class_literal" type.toJson
  | .query embedded => .tagged "query" embedded.toJson

mutual

/-- An expression as JSON. -/
def Expression.toJson : Expression → Json
  | .assignment target operator value =>
    .tagged "assignment" (.record
      [("target", target.toJson), ("operator", .string operator), ("value", value.toJson)])
  | .conditional condition thenValue elseValue =>
    .tagged "conditional" (.record
      [("condition", condition.toJson), ("then_value", thenValue.toJson),
        ("else_value", elseValue.toJson)])
  | .binary kind operator left right =>
    .tagged "binary" (.record
      [("kind", kind.toJson), ("operator", .string operator), ("left", left.toJson),
        ("right", right.toJson)])
  | .unary fixity operator operand =>
    .tagged "unary" (.record
      [("fixity", fixity.toJson), ("operator", .string operator), ("operand", operand.toJson)])
  | .cast type operand =>
    .tagged "cast" (.record [("ty", type.toJson), ("operand", operand.toJson)])
  | .instanceOf operand type =>
    .tagged "instance_of" (.record [("operand", operand.toJson), ("ty", type.toJson)])
  | .creation type body =>
    .tagged "new" (.record [("ty", type.toJson), ("body", body.toJson)])
  | .arrayAccess array index =>
    .tagged "array_access" (.record [("array", array.toJson), ("index", index.toJson)])
  | .chain receiver link =>
    .tagged "chain" (.record [("receiver", receiver.toJson), ("link", link.toJson)])
  | .call name arguments =>
    .tagged "call" (.record
      [("name", .string name), ("arguments", .array (Expression.allToJson arguments))])
  | .parenthesized inner => .tagged "paren" inner.toJson
  | .primary leaf => .tagged "primary" leaf.toJson

/-- A link as JSON. -/
def Link.toJson : Link → Json
  | ⟨navigation, member, arguments⟩ =>
    .record
      [("navigation", navigation.toJson), ("member", .string member),
        ("arguments", Expression.argumentsToJson arguments)]

/-- The arguments of a link as JSON, or null without a call. -/
def Expression.argumentsToJson : Option (List Expression) → Json
  | none => .null
  | some arguments => .array (Expression.allToJson arguments)

/-- What follows the type in a `new` expression, as JSON. -/
def CreatorBody.toJson : CreatorBody → Json
  | .arguments items => .tagged "arguments" (.array (Expression.allToJson items))
  | .arraySize size => .tagged "array_size" size.toJson
  | .elements items => .tagged "collection_init" (.array (Expression.allToJson items))
  | .entries items => .tagged "map_init" (.array (Expression.entriesToJson items))

/-- Expressions as JSON. -/
def Expression.allToJson : List Expression → List Json
  | [] => []
  | expression :: rest => expression.toJson :: Expression.allToJson rest

/-- Map entries as JSON: lists of two. -/
def Expression.entriesToJson : List (Expression × Expression) → List Json
  | [] => []
  | (key, value) :: rest =>
    .array [key.toJson, value.toJson] :: Expression.entriesToJson rest

end

/-- An expression as JSON, or null without one. -/
def Expression.optionToJson (expression : Option Expression) : Json :=
  .orNull (expression.map Expression.toJson)

/-! ## Statements -/

/-- A declarator as JSON. -/
def Declarator.toJson (declarator : Declarator) : Json :=
  .record
    [("name", .string declarator.name),
      ("initializer", Expression.optionToJson declarator.initializer)]

/-- A declaration of variables as JSON. -/
def VariableDeclaration.toJson (declaration : VariableDeclaration) : Json :=
  .record
    [("modifiers", .texts declaration.modifiers), ("ty", declaration.type.toJson),
      ("declarators", .array (declaration.declarators.map Declarator.toJson))]

/-- What a counting loop begins with, as JSON. -/
def ForInit.toJson : ForInit → Json
  | .variables declaration => .tagged "local_variable" declaration.toJson
  | .expressions items => .tagged "expressions" (.array (Expression.allToJson items))

/-- The header of a `for` loop as JSON. -/
def ForControl.toJson : ForControl → Json
  | .each modifiers type name iterable =>
    .tagged "enhanced" (.record
      [("modifiers", .texts modifiers), ("ty", type.toJson), ("name", .string name),
        ("iterable", iterable.toJson)])
  | .counting init condition update =>
    .tagged "classic" (.record
      [("init", .orNull (init.map ForInit.toJson)),
        ("condition", Expression.optionToJson condition),
        ("update", .array (Expression.allToJson update))])

/-- Statements between braces, given as JSON each. -/
def Json.block (statements : List Json) : Json := .record [("statements", .array statements)]

mutual

/-- A statement as JSON. -/
def Statement.toJson : Statement → Json
  | .block body => .tagged "block" (.block (Statement.allToJson body))
  | .ifElse condition thenBranch elseBranch =>
    .tagged "if" (.record
      [("condition", condition.toJson), ("then_branch", thenBranch.toJson),
        ("else_branch", Statement.optionToJson elseBranch)])
  | .whileLoop condition body =>
    .tagged "while" (.record [("condition", condition.toJson), ("body", body.toJson)])
  | .forLoop control body =>
    .tagged "for" (.record [("control", control.toJson), ("body", body.toJson)])
  | .tryCatch body catches cleanup =>
    .tagged "try" (.record
      [("block", .block (Statement.allToJson body)),
        ("catches", .array (CatchClause.allToJson catches)),
        ("finally", Statement.cleanupToJson cleanup)])
  | .returnValue value => .tagged "return" (Expression.optionToJson value)
  | .throwValue value => .tagged "throw" value.toJson
  | .breakLoop => .string "break"
  | .continueLoop => .string "continue"
  | .dml operation operand =>
    .tagged "dml" (.record [("operation", .string operation), ("expression", operand.toJson)])
  | .variables declaration => .tagged "local_variable" declaration.toJson
  | .expression value => .tagged "expression" value.toJson

/-- A statement as JSON, or null without one. -/
def Statement.optionToJson : Option Statement → Json
  | none => .null
  | some statement => statement.toJson

/-- The block behind `finally` as JSON, or null without one. -/
def Statement.cleanupToJson : Option (List Statement) → Json
  | none => .null
  | some body => .block (Statement.allToJson body)

/-- Statements as JSON. -/
def Statement.allToJson : List Statement → List Json
  | [] => []
  | statement :: rest => statement.toJson :: Statement.allToJson rest

/-- A `catch` clause as JSON. -/
def CatchClause.toJson : CatchClause → Json
  | ⟨modifiers, type, name, body⟩ =>
    .record
      [("modifiers", .texts modifiers), ("ty", type.toJson), ("name", .string name),
        ("block", .block (Statement.allToJson body))]

/-- `catch` clauses as JSON. -/
def CatchClause.allToJson : List CatchClause → List Json
  | [] => []
  | clause :: rest => clause.toJson :: CatchClause.allToJson rest

end

/-- A block as JSON. -/
def Block.toJson (body : Block) : Json := .block (Statement.allToJson body)

/-- A body as JSON, or null without one. -/
def Block.optionToJson (body : Option Block) : Json := .orNull (body.map Block.toJson)

/-! ## Members and declarations -/

/-- A parameter as JSON. -/
def Parameter.toJson (parameter : Parameter) : Json :=
  .record
    [("modifiers", .texts parameter.modifiers), ("ty", parameter.type.toJson),
      ("name", .string parameter.name)]

/-- A method as JSON. -/
def Method.toJson (method : Method) : Json :=
  .record
    [("modifiers", .texts method.modifiers),
      ("return_type", .orNull (method.returnType.map TypeRef.toJson)),
      ("name", .string method.name),
      ("parameters", .array (method.parameters.map Parameter.toJson)),
      ("body", Block.optionToJson method.body)]

/-- A constructor as JSON. -/
def Constructor.toJson (constructor : Constructor) : Json :=
  .record
    [("modifiers", .texts constructor.modifiers), ("name", .texts constructor.name),
      ("parameters", .array (constructor.parameters.map Parameter.toJson)),
      ("body", Block.toJson constructor.body)]

/-- An accessor as JSON. -/
def Accessor.toJson (accessor : Accessor) : Json :=
  .record
    [("modifiers", .texts accessor.modifiers), ("kind", .string accessor.kind.text),
      ("body", Block.optionToJson accessor.body)]

/-- A property as JSON. -/
def Property.toJson (property : Property) : Json :=
  .record
    [("modifiers", .texts property.modifiers), ("ty", property.type.toJson),
      ("name", .string property.name),
      ("accessors", .array (property.accessors.map Accessor.toJson))]

/-- An initializer block as JSON. -/
def Initializer.toJson (initializer : Initializer) : Json :=
  .record [("is_static", .bool initializer.isStatic), ("body", Block.toJson initializer.body)]

mutual

/-- A type declaration as JSON. -/
def Declaration.toJson : Declaration → Json
  | .classType modifiers name parent interfaces body =>
    .tagged "class" (.record
      [("modifiers", .texts modifiers), ("name", .string name),
        ("extends", .orNull (parent.map TypeRef.toJson)),
        ("implements", .array (TypeRef.allToJson interfaces)),
        ("body", .array (Member.allToJson body))])
  | .interfaceType modifiers name parents body =>
    .tagged "interface" (.record
      [("modifiers", .texts modifiers), ("name", .string name),
        ("extends", .array (TypeRef.allToJson parents)),
        ("body", .array (Member.allToJson body))])
  | .enumType modifiers name constants =>
    .tagged "enum" (.record
      [("modifiers", .texts modifiers), ("name", .string name),
        ("constants", .texts constants)])

/-- A member as JSON. -/
def Member.toJson : Member → Json
  | .method method => .tagged "method" method.toJson
  | .field declaration => .tagged "field" declaration.toJson
  | .constructor constructor => .tagged "constructor" constructor.toJson
  | .property property => .tagged "property" property.toJson
  | .initializer initializer => .tagged "initializer" initializer.toJson
  | .declaration nested => .tagged "declaration" nested.toJson
  | .empty => .string "empty"

/-- Members as JSON. -/
def Member.allToJson : List Member → List Json
  | [] => []
  | member :: rest => member.toJson :: Member.allToJson rest

end

/-- A compilation unit as JSON. -/
def CompilationUnit.toJson (unit : CompilationUnit) : Json :=
  .record [("declaration", unit.declaration.toJson)]

end ApexLayout
