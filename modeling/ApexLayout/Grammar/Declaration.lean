import ApexLayout.Grammar.Statement
import ApexLayout.Tree.Declaration

/-!
Members and type declarations.
-/

namespace ApexLayout

namespace Grammar

/-! ## Parts of members -/

/-- One parameter. -/
def parameter : Grammar Parameter := do
  let modifiers ← modifiers
  let type ← typeRef
  let name ← identifier
  return ⟨modifiers, type, name⟩

/-- A parameter list. -/
def parameters : Grammar (List Parameter) := do
  symbol "("
  if ← takeSymbol ")" then
    return []
  else
    let items ← commaSeparated parameter
    symbol ")"
    return items

/-- A type, or nothing for `void`. -/
def returnType : Grammar (Option TypeRef) :=
  Reader.optional (return !(← takeWord "void")) typeRef

/-- A body, or nothing for a semicolon. -/
def bodyOrSemicolon : Grammar (Option Block) :=
  Reader.optional (return !(← takeSymbol ";")) block

/-- The keyword of an accessor. -/
def accessorKind : Grammar AccessorKind := do
  if ← takeWord "get" then
    return .get
  else if ← takeWord "set" then
    return .set
  else
    fail .accessor

/-- One accessor of a property. -/
def accessor : Grammar Accessor := do
  let modifiers ← modifiers
  let kind ← accessorKind
  let body ← bodyOrSemicolon
  return ⟨modifiers, kind, body⟩

/-- Items between braces. -/
def braced {α : Type} (item : Grammar α) : Grammar (List α) := do
  symbol "\x7b"
  let items ← Reader.many (Reader.optional (return !(← atSymbol "\x7d")) item)
  symbol "\x7d"
  return items

/-! ## Members -/

/-- Whether a name is complete and its parameters come next. -/
def parametersAhead : List Token → Bool
  | dot :: name :: rest =>
    if dot.isSymbol "." && name.isIdentifier then parametersAhead rest else dot.isSymbol "("
  | [token] => token.isSymbol "("
  | [] => false

/-- Whether a constructor comes next: a name, perhaps dotted, with parameters right behind it. -/
def constructorAhead (stream : TokenStream) : Bool :=
  stream.identifierAt 0 && parametersAhead (stream.tokens.drop 1)

/-- A constructor, behind its modifiers. -/
def constructor (modifiers : List Modifier) : Grammar Member := do
  let name ← Reader.separated (takeSymbol ".") identifier
  let parameters ← parameters
  let body ← block
  return .constructor ⟨modifiers, name, parameters, body⟩

/-- A property or a field, behind its name. -/
def variableMember (modifiers : List Modifier) (type : TypeRef) (name : Text) :
    Grammar Member := do
  if ← atSymbol "\x7b" then
    return .property ⟨modifiers, type, name, ← braced accessor⟩
  else
    let declarators ← declarators name
    symbol ";"
    return .field ⟨modifiers, type, declarators⟩

/-- A method, a property or a field, behind its modifiers. -/
def typedMember (modifiers : List Modifier) : Grammar Member := do
  let type ← returnType
  let name ← identifier
  if ← atSymbol "(" then
    let parameters ← parameters
    let body ← bodyOrSemicolon
    return .method ⟨modifiers, type, name, parameters, body⟩
  else
    match type with
    | none => fail .voidParameters
    | some type => variableMember modifiers type name

/-- A method of an interface. -/
def interfaceMethod : Grammar Member := do
  let modifiers ← modifiers
  let type ← returnType
  let name ← identifier
  let parameters ← parameters
  symbol ";"
  return .method ⟨modifiers, type, name, parameters, none⟩

/-- A member of an interface. -/
def interfaceMember : Grammar Member := do
  if ← takeSymbol ";" then
    return .empty
  else
    interfaceMethod

/-! ## Declarations -/

/-- A further constant of an enum; a comma may also stand behind the last. -/
def furtherConstant : Grammar (Option Text) := do
  if ← takeSymbol "," then
    Reader.optional (return !(← atSymbol "\x7d")) identifier
  else
    return none

/-- The constants of an enum. -/
def constants : Grammar (List Text) := do
  if ← atSymbol "\x7d" then
    return []
  else
    let first ← identifier
    let others ← Reader.many furtherConstant
    return first :: others

/-- The types behind a keyword, or none without the keyword. -/
def typesAfter (keyword : Text) : Grammar (List TypeRef) := do
  return (← Reader.optional (takeWord keyword) typeList).getD []

/-- The rest of a class, behind its keyword. -/
def classType (member : Grammar Member) (modifiers : List Modifier) : Grammar Declaration := do
  let name ← identifier
  let parent ← Reader.optional (takeWord "extends") typeRef
  let interfaces ← typesAfter "implements"
  let body ← braced member
  return .classType modifiers name parent interfaces body

/-- The rest of an interface, behind its keyword. -/
def interfaceType (modifiers : List Modifier) : Grammar Declaration := do
  let name ← identifier
  let parents ← typesAfter "extends"
  let body ← braced interfaceMember
  return .interfaceType modifiers name parents body

/-- The rest of an enum, behind its keyword. -/
def enumType (modifiers : List Modifier) : Grammar Declaration := do
  let name ← identifier
  symbol "\x7b"
  let constants ← constants
  symbol "\x7d"
  return .enumType modifiers name constants

/-- A type declaration, behind its modifiers. -/
def declarationOf (member : Grammar Member) (modifiers : List Modifier) :
    Grammar Declaration := do
  if ← takeWord "class" then
    classType member modifiers
  else if ← takeWord "interface" then
    interfaceType modifiers
  else if ← takeWord "enum" then
    enumType modifiers
  else
    fail .declaration

/-- A member that begins with modifiers, by what the members of nested classes are. -/
def modifiedMember (member : Grammar Member) : Grammar Member := do
  let modifiers ← modifiers
  let stream ← get
  if stream.wordInAt 0 Vocabulary.declarations then
    return .declaration (← declarationOf member modifiers)
  else if constructorAhead stream then
    constructor modifiers
  else
    typedMember modifiers

/-- A member of a class, by what the members of nested classes are. -/
def memberRule (member : Grammar Member) : Grammar Member := do
  let stream ← get
  if stream.symbolAt 0 ";" then
    skip 1
    return .empty
  else if stream.wordAt 0 "static" && stream.symbolAt 1 "\x7b" then
    skip 1
    return .initializer ⟨true, ← block⟩
  else if stream.symbolAt 0 "\x7b" then
    return .initializer ⟨false, ← block⟩
  else
    modifiedMember member

/-- A member of a class. -/
def member : Grammar Member := Reader.recursive memberRule

/-- The type declaration of a source file. -/
def compilationUnit : Grammar CompilationUnit := do
  let modifiers ← modifiers
  return ⟨← declarationOf member modifiers⟩

end Grammar

end ApexLayout
