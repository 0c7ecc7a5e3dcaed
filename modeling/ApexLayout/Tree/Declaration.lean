import ApexLayout.Tree.Statement

/-!
Classes, interfaces, enums and their members.
-/

namespace ApexLayout

/-- A parameter of a method or a constructor. -/
structure Parameter where
  modifiers : List Modifier
  type : TypeRef
  name : Text

/-- A method; without a type it is `void`, without a body it is only declared. -/
structure Method where
  modifiers : List Modifier
  returnType : Option TypeRef
  name : Text
  parameters : List Parameter
  body : Option Block

/-- A constructor; its name may be dotted. -/
structure Constructor where
  modifiers : List Modifier
  name : List Text
  parameters : List Parameter
  body : Block

/-- The two accessors of a property. -/
inductive AccessorKind
  | get
  | set
deriving DecidableEq

/-- The keyword of an accessor. -/
def AccessorKind.text : AccessorKind → Text
  | .get => "get"
  | .set => "set"

/-- An accessor of a property; without a body it is the default one. -/
structure Accessor where
  modifiers : List Modifier
  kind : AccessorKind
  body : Option Block

/-- A property with its accessors. -/
structure Property where
  modifiers : List Modifier
  type : TypeRef
  name : Text
  accessors : List Accessor

/-- A bare block in a class body. -/
structure Initializer where
  isStatic : Bool
  body : Block

mutual

/-- Declarations of types. -/
inductive Declaration
  | classType (modifiers : List Modifier) (name : Text) (parent : Option TypeRef)
      (interfaces : List TypeRef) (body : List Member)
  | interfaceType (modifiers : List Modifier) (name : Text) (parents : List TypeRef)
      (body : List Member)
  | enumType (modifiers : List Modifier) (name : Text) (constants : List Text)

/-- Members of a class or an interface. -/
inductive Member
  | method (method : Method)
  | field (declaration : VariableDeclaration)
  | constructor (constructor : Constructor)
  | property (property : Property)
  | initializer (initializer : Initializer)
  | declaration (nested : Declaration)
  /-- A stray semicolon. -/
  | empty

end

/-- The one type declaration of a source file. -/
structure CompilationUnit where
  declaration : Declaration

namespace Declaration

/-- The declared name. -/
def name : Declaration → Text
  | .classType _ name .. => name
  | .interfaceType _ name .. => name
  | .enumType _ name _ => name

/-- The modifiers in front of the declaration. -/
def modifiers : Declaration → List Modifier
  | .classType modifiers .. => modifiers
  | .interfaceType modifiers .. => modifiers
  | .enumType modifiers .. => modifiers

/-- The members of the body; an enum has none. -/
def members : Declaration → List Member
  | .classType _ _ _ _ body => body
  | .interfaceType _ _ _ body => body
  | .enumType .. => []

/-- The kind of a declaration. -/
def kind : Declaration → NodeKind
  | .classType .. => .classDeclaration
  | .interfaceType .. => .interfaceDeclaration
  | .enumType .. => .enumDeclaration

end Declaration

/-- The kind of a member. -/
def Member.kind : Member → NodeKind
  | .method _ => .method
  | .field _ => .field
  | .constructor _ => .constructor
  | .property _ => .property
  | .initializer _ => .initializer
  | .declaration nested => nested.kind
  | .empty => .emptyMember

end ApexLayout
