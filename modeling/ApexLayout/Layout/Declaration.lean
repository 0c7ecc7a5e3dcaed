import ApexLayout.Layout.Statement
import ApexLayout.Tree.Declaration

/-!
Printing of members and type declarations.
-/

namespace ApexLayout

/-! ## Members without members -/

/-- The text of one parameter. -/
def Parameter.render (parameter : Parameter) : Rendered := do
  let typeText ← parameter.type.render
  return Modifier.renderAll parameter.modifiers ++ typeText ++ " " ++ parameter.name

/-- The text of a parameter list. -/
def Parameter.renderList (parameters : List Parameter) : Rendered := do
  return "(" ++ Text.join ", " (← parameters.mapM Parameter.render) ++ ")"

/-- The text of a body behind a blank, or a semicolon without one. -/
def Block.renderOrSemicolon (context : Context) (body : Option Block) : Rendered :=
  match body with
  | none => return ";"
  | some body => return " " ++ (← Block.render context body)

/-- The text of a type, or `void` without one. -/
def TypeRef.renderOrVoid (type : Option TypeRef) : Rendered :=
  match type with
  | none => return "void"
  | some type => type.render

/-- The text of a method. -/
def Method.render (context : Context) (method : Method) : Rendered := do
  let typeText ← TypeRef.renderOrVoid method.returnType
  let parametersText ← Parameter.renderList method.parameters
  let bodyText ← Block.renderOrSemicolon context method.body
  return Modifier.renderAll method.modifiers ++ typeText ++ " " ++ method.name ++
    parametersText ++ bodyText

/-- The text of a constructor. -/
def Constructor.render (context : Context) (constructor : Constructor) : Rendered := do
  if constructor.name.isEmpty then
    throw (.malformed .constructor .constructorName)
  else
    let parametersText ← Parameter.renderList constructor.parameters
    let bodyText ← Block.render context constructor.body
    return Modifier.renderAll constructor.modifiers ++ Text.join "." constructor.name ++
      parametersText ++ " " ++ bodyText

/-- The text of an accessor. -/
def Accessor.render (context : Context) (accessor : Accessor) : Rendered := do
  let bodyText ← Block.renderOrSemicolon context accessor.body
  return Modifier.renderAll accessor.modifiers ++ accessor.kind.text ++ bodyText

/-- The text of a property. -/
def Property.render (context : Context) (property : Property) : Rendered := do
  let typeText ← property.type.render
  let accessorTexts ← property.accessors.mapM (Accessor.render context.deeper)
  return Modifier.renderAll property.modifiers ++ typeText ++ " " ++ property.name ++ " " ++
    context.block accessorTexts

/-- The text of an initializer block. -/
def Initializer.render (context : Context) (initializer : Initializer) : Rendered := do
  let bodyText ← Block.render context initializer.body
  return if initializer.isStatic then "static " ++ bodyText else bodyText

/-! ## Declarations -/

/-- The text of a keyword with the types behind it, or nothing without types. -/
def TypeRef.renderClause (keyword : Text) (types : List TypeRef) : Rendered := do
  if types.isEmpty then
    return []
  else
    return " " ++ keyword ++ " " ++ (← TypeRef.renderList types)

mutual

/-- The text of a type declaration. The constants of an enum stay on its line. -/
def Declaration.render (context : Context) : Declaration → Rendered
  | .classType modifiers name parent interfaces body => do
    let parentText ← TypeRef.renderClause "extends" parent.toList
    let interfacesText ← TypeRef.renderClause "implements" interfaces
    let bodyTexts ← Member.renderAll context.deeper body
    return Modifier.renderAll modifiers ++ "class " ++ name ++ parentText ++ interfacesText ++
      " " ++ context.block bodyTexts
  | .interfaceType modifiers name parents body => do
    let parentsText ← TypeRef.renderClause "extends" parents
    let bodyTexts ← Member.renderAll context.deeper body
    return Modifier.renderAll modifiers ++ "interface " ++ name ++ parentsText ++ " " ++
      context.block bodyTexts
  | .enumType modifiers name constants =>
    return Modifier.renderAll modifiers ++ "enum " ++ name ++ [' ', '{'] ++
      Text.join ", " constants ++ ['}']

/-- The text of a member. -/
def Member.render (context : Context) : Member → Rendered
  | .method method => method.render context
  | .field declaration => return (← declaration.render context .field) ++ ";"
  | .constructor constructor => constructor.render context
  | .property property => property.render context
  | .initializer initializer => initializer.render context
  | .declaration nested => nested.render context
  | .empty => return ";"

/-- The texts of members. -/
def Member.renderAll (context : Context) : List Member → Except RenderError (List Text)
  | [] => return []
  | member :: rest => do
    let first ← member.render context
    let others ← Member.renderAll context rest
    return first :: others

end

/-- The text of a compilation unit. -/
def CompilationUnit.render (context : Context) (unit : CompilationUnit) : Rendered :=
  unit.declaration.render context

end ApexLayout
