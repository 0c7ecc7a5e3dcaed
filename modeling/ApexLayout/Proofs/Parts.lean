import ApexLayout.Grammar.Operators
import ApexLayout.Layout.Declaration
import ApexLayout.Proofs.Matching

/-!
The printed form of a tree, without its layout.

Every tree has a row of `Part`s: tokens, operators, types and modifiers in the order in which they
are printed, with the braces that printing puts around bodies. `spell` gives the pieces of a row.
-/

namespace ApexLayout

/-- The class of a token, by its first character. -/
def TokenKind.ofText : Text → TokenKind
  | [] => .symbol
  | c :: _ =>
    if Scan.isWordStart c then .word
    else if c.isDigit then .number
    else if c = '\x27' then .string
    else .symbol

/-- One part of the printed form of a tree. -/
inductive Part
  /-- A single token. -/
  | piece (piece : Piece)
  | literal (text : Text)
  /-- An operator in front of its operand. -/
  | leading (operator : Text)
  /-- An operator behind its operand. -/
  | trailing (operator : Text)
  /-- An operator between two operands. -/
  | operator (text : Text)
  | type (type : TypeRef)
  | modifier (modifier : Modifier)
  /-- A query, which has no printed form. -/
  | query

/-- Rows one after another, with a separator between neighbours. -/
abbrev rowsBy {α : Type} (separator : α) (rows : List (List α)) : List α :=
  [separator].intercalate rows

theorem rowsBy_cons {α : Type} (separator : α) (first : List α) (others : List (List α)) :
    rowsBy separator (first :: others) = first ++ others.flatMap (separator :: ·) := by
  unfold rowsBy
  induction others generalizing first with
  | nil => simp
  | cons second rest ih =>
    rw [List.intercalate_cons_cons, ih, List.flatMap_cons]
    simp only [List.append_assoc, List.cons_append, List.nil_append]

theorem mem_rowsBy {α : Type} {separator item : α} {rows : List (List α)}
    (h : item ∈ rowsBy separator rows) : item = separator ∨ ∃ row ∈ rows, item ∈ row := by
  cases rows with
  | nil => simp [rowsBy] at h
  | cons first others =>
    rw [rowsBy_cons, List.mem_append, List.mem_flatMap] at h
    rcases h with h | ⟨row, hrow, h⟩
    · exact .inr ⟨first, by simp, h⟩
    · rcases List.mem_cons.1 h with rfl | h
      · exact .inl rfl
      · exact .inr ⟨row, List.mem_cons_of_mem _ hrow, h⟩

theorem mem_rowsBy_of_mem {α : Type} {separator item : α} {rows : List (List α)} {row : List α}
    (hrow : row ∈ rows) (h : item ∈ row) : item ∈ rowsBy separator rows := by
  cases rows with
  | nil => cases hrow
  | cons first others =>
    rw [rowsBy_cons, List.mem_append, List.mem_flatMap]
    rcases List.mem_cons.1 hrow with rfl | hrow
    · exact .inl h
    · exact .inr ⟨row, hrow, List.mem_cons_of_mem _ h⟩

/-! ## Pieces of types and operators -/

/-- The `>` behind type arguments, which always touches what is in front of it. -/
def Piece.closing : Piece := ⟨.symbol, ">", true⟩

mutual

/-- The pieces of a type reference. -/
def TypeRef.pieces : TypeRef → List Piece
  | ⟨segments, suffix⟩ =>
    rowsBy (.symbol ".") (TypeName.piecesAll segments) ++ suffix.map fun c => .symbol [c]

/-- The pieces of one name with its type arguments. -/
def TypeName.pieces : TypeName → List Piece
  | ⟨name, []⟩ => [.word name]
  | ⟨name, first :: others⟩ =>
    .word name :: .symbol "<" :: rowsBy (.symbol ",") (TypeRef.piecesAll (first :: others)) ++
      [.closing]

/-- The pieces of each type reference. -/
def TypeRef.piecesAll : List TypeRef → List (List Piece)
  | [] => []
  | type :: rest => type.pieces :: TypeRef.piecesAll rest

/-- The pieces of each name. -/
def TypeName.piecesAll : List TypeName → List (List Piece)
  | [] => []
  | name :: rest => name.pieces :: TypeName.piecesAll rest

end

/-- The rest of an operator, behind a `>` that it touches. -/
def gluedPieces : Text → List Piece
  | [] => []
  | '>' :: rest => ⟨.symbol, ">", true⟩ :: gluedPieces rest
  | text => [⟨.symbol, text, true⟩]

/-- The pieces of an operator: one symbol, unless it begins with `>`. -/
def operatorPieces : Text → List Piece
  | '>' :: rest => .symbol ">" :: gluedPieces rest
  | text => [.symbol text]

/-- The pieces of a modifier, which may be a whole annotation. -/
def Modifier.pieces (modifier : Modifier) : List Piece :=
  match TokenStream.ofSource modifier with
  | .ok stream => stream.pieces
  | .error _ => []

namespace Part

/-- The pieces of a part. -/
def pieces : Part → List Piece
  | .piece token => [token]
  | .literal text => [⟨.ofText text, text, false⟩]
  | .leading text => [.symbol text]
  | .trailing text => [.symbol text]
  | .operator text => operatorPieces text
  | .type reference => reference.pieces
  | .modifier text => Modifier.pieces text
  | .query => []

/-- A symbol. -/
def symbol (text : Text) : Part := .piece (.symbol text)

/-- A word. -/
def word (text : Text) : Part := .piece (.word text)

end Part

/-- The pieces of a row of parts. -/
def spell (parts : List Part) : List Piece := parts.flatMap Part.pieces

@[simp] theorem spell_nil : spell [] = [] := rfl

@[simp] theorem spell_cons (part : Part) (parts : List Part) :
    spell (part :: parts) = part.pieces ++ spell parts := rfl

@[simp] theorem spell_append (first second : List Part) :
    spell (first ++ second) = spell first ++ spell second :=
  List.flatMap_append

theorem spell_rowsBy (separator : Piece) (rows : List (List Part)) :
    spell (rowsBy (.piece separator) rows) = rowsBy separator (rows.map spell) := by
  cases rows with
  | nil => rfl
  | cons first others =>
    rw [List.map_cons, rowsBy_cons, rowsBy_cons, spell_append]
    unfold spell
    rw [List.flatMap_assoc, List.flatMap_map]
    rfl

/-! ## Expressions -/

/-- The parts of a primary expression. -/
def Primary.parts : Primary → List Part
  | .literal text => [.literal text]
  | .identifier name => [.word name]
  | .this => [.word "this"]
  | .super => [.word "super"]
  | .path type => [.type type]
  | .classLiteral type => [.type type, .symbol ".", .word "class"]
  | .query _ => [.query]

/-- Rows of parts between two symbols, with commas between them. -/
def listParts (opening closing : Text) (rows : List (List Part)) : List Part :=
  .symbol opening :: (rowsBy (.symbol ",") rows ++ [.symbol closing])

mutual

/-- The parts of an expression. -/
def Expression.parts : Expression → List Part
  | .assignment target operator value => target.parts ++ .operator operator :: value.parts
  | .conditional condition thenValue elseValue =>
    condition.parts ++ .symbol "?" :: (thenValue.parts ++ .symbol ":" :: elseValue.parts)
  | .binary _ operator left right => left.parts ++ .operator operator :: right.parts
  | .unary .leading operator operand => .leading operator :: operand.parts
  | .unary .trailing operator operand => operand.parts ++ [.trailing operator]
  | .cast type operand => .symbol "(" :: .type type :: .symbol ")" :: operand.parts
  | .instanceOf operand type => operand.parts ++ [.word "instanceof", .type type]
  | .creation type body => .word "new" :: .type type :: body.parts
  | .arrayAccess array index => array.parts ++ .symbol "[" :: (index.parts ++ [.symbol "]"])
  | .chain receiver link => receiver.parts ++ link.parts
  | .call name arguments => .word name :: listParts "(" ")" (Expression.partsAll arguments)
  | .parenthesized inner => .symbol "(" :: (inner.parts ++ [.symbol ")"])
  | .primary leaf => leaf.parts

/-- The parts of a link. -/
def Link.parts : Link → List Part
  | ⟨navigation, member, none⟩ => [.symbol navigation.text, .word member]
  | ⟨navigation, member, some arguments⟩ =>
    .symbol navigation.text :: .word member ::
      listParts "(" ")" (Expression.partsAll arguments)

/-- The parts of what follows the type in a `new` expression. -/
def CreatorBody.parts : CreatorBody → List Part
  | .arguments items => listParts "(" ")" (Expression.partsAll items)
  | .arraySize size => .symbol "[" :: (size.parts ++ [.symbol "]"])
  | .elements items => listParts "\x7b" "\x7d" (Expression.partsAll items)
  | .entries items => listParts "\x7b" "\x7d" (Expression.partsEntries items)

/-- The parts of each expression. -/
def Expression.partsAll : List Expression → List (List Part)
  | [] => []
  | expression :: rest => expression.parts :: Expression.partsAll rest

/-- The parts of each map entry. -/
def Expression.partsEntries : List (Expression × Expression) → List (List Part)
  | [] => []
  | (key, value) :: rest =>
    (key.parts ++ .symbol "=>" :: value.parts) :: Expression.partsEntries rest

end

theorem Expression.partsAll_eq_map (items : List Expression) :
    Expression.partsAll items = items.map Expression.parts := by
  induction items with
  | nil => rfl
  | cons item rest ih => rw [Expression.partsAll, ih, List.map_cons]

theorem Expression.partsEntries_eq_map (items : List (Expression × Expression)) :
    Expression.partsEntries items =
      items.map fun item => item.1.parts ++ .symbol "=>" :: item.2.parts := by
  induction items with
  | nil => rfl
  | cons item rest ih => rw [Expression.partsEntries, ih, List.map_cons]

theorem TypeRef.piecesAll_eq_map (types : List TypeRef) :
    TypeRef.piecesAll types = types.map TypeRef.pieces := by
  induction types with
  | nil => rfl
  | cons type rest ih => rw [TypeRef.piecesAll, ih, List.map_cons]

theorem TypeName.piecesAll_eq_map (names : List TypeName) :
    TypeName.piecesAll names = names.map TypeName.pieces := by
  induction names with
  | nil => rfl
  | cons name rest ih => rw [TypeName.piecesAll, ih, List.map_cons]

/-- The pieces of a plain dotted name. -/
theorem TypeRef.pieces_path (names : List Text) :
    (TypeRef.path names).pieces = rowsBy (.symbol ".") (names.map fun name => [.word name]) := by
  unfold TypeRef.path
  rw [TypeRef.pieces, TypeName.piecesAll_eq_map, List.map_map, List.map_nil, List.append_nil]
  congr 1

/-! ## Statements -/

/-- The parts of modifiers. -/
def modifierParts (modifiers : List Modifier) : List Part := modifiers.map .modifier

/-- The parts of one declarator. -/
def Declarator.parts : Declarator → List Part
  | ⟨name, none⟩ => [.word name]
  | ⟨name, some value⟩ => .word name :: .symbol "=" :: value.parts

/-- The parts of a declaration of variables. -/
def VariableDeclaration.parts (declaration : VariableDeclaration) : List Part :=
  modifierParts declaration.modifiers ++
    .type declaration.type :: rowsBy (.symbol ",") (declaration.declarators.map Declarator.parts)

/-- The parts of expressions with commas between them. -/
def expressionsParts (items : List Expression) : List Part :=
  rowsBy (.symbol ",") (items.map Expression.parts)

/-- The parts of what a counting loop begins with. -/
def ForInit.parts : ForInit → List Part
  | .variables declaration => declaration.parts
  | .expressions items => expressionsParts items

/-- The parts of the header of a `for` loop. -/
def ForControl.parts : ForControl → List Part
  | .each modifiers type name iterable =>
    modifierParts modifiers ++ .type type :: .word name :: .symbol ":" :: iterable.parts
  | .counting init condition update =>
    init.elim [] ForInit.parts ++ .symbol ";" ::
      (condition.elim [] Expression.parts ++ .symbol ";" :: expressionsParts update)

/-- Rows of parts between braces. -/
def blockParts (rows : List (List Part)) : List Part :=
  .symbol "\x7b" :: (rows.flatten ++ [.symbol "\x7d"])

/-- The parts of a body, between braces unless it stands as it is. -/
def bodyParts (bare : Bool) (parts : List Part) : List Part :=
  if bare then parts else blockParts [parts]

mutual

/-- The parts of a statement. -/
def Statement.parts : Statement → List Part
  | .block body => blockParts (Statement.partsAll body)
  | .ifElse condition thenBranch none =>
    .word "if" :: .symbol "(" :: (condition.parts ++ .symbol ")" ::
      bodyParts thenBranch.isBlock thenBranch.parts)
  | .ifElse condition thenBranch (some branch) =>
    .word "if" :: .symbol "(" :: (condition.parts ++ .symbol ")" ::
      (bodyParts thenBranch.isBlock thenBranch.parts ++ .word "else" ::
        bodyParts (branch.isBlock || branch.isIf) branch.parts))
  | .whileLoop condition body =>
    .word "while" :: .symbol "(" :: (condition.parts ++ .symbol ")" ::
      bodyParts body.isBlock body.parts)
  | .forLoop control body =>
    .word "for" :: .symbol "(" :: (control.parts ++ .symbol ")" ::
      bodyParts body.isBlock body.parts)
  | .tryCatch body catches none =>
    .word "try" :: (blockParts (Statement.partsAll body) ++ CatchClause.partsAll catches)
  | .tryCatch body catches (some last) =>
    .word "try" :: (blockParts (Statement.partsAll body) ++ (CatchClause.partsAll catches ++
      .word "finally" :: blockParts (Statement.partsAll last)))
  | .returnValue none => [.word "return", .symbol ";"]
  | .returnValue (some value) => .word "return" :: (value.parts ++ [.symbol ";"])
  | .throwValue value => .word "throw" :: (value.parts ++ [.symbol ";"])
  | .breakLoop => [.word "break", .symbol ";"]
  | .continueLoop => [.word "continue", .symbol ";"]
  | .dml operation operand => .word operation :: (operand.parts ++ [.symbol ";"])
  | .variables declaration => declaration.parts ++ [.symbol ";"]
  | .expression value => value.parts ++ [.symbol ";"]

/-- The parts of each statement. -/
def Statement.partsAll : List Statement → List (List Part)
  | [] => []
  | statement :: rest => statement.parts :: Statement.partsAll rest

/-- The parts of a `catch` clause. -/
def CatchClause.parts : CatchClause → List Part
  | ⟨modifiers, type, name, body⟩ =>
    .word "catch" :: .symbol "(" :: (modifierParts modifiers ++ .type type :: .word name ::
      .symbol ")" :: blockParts (Statement.partsAll body))

/-- The parts of `catch` clauses. -/
def CatchClause.partsAll : List CatchClause → List Part
  | [] => []
  | clause :: rest => clause.parts ++ CatchClause.partsAll rest

end

theorem Statement.partsAll_eq_map (body : List Statement) :
    Statement.partsAll body = body.map Statement.parts := by
  induction body with
  | nil => rfl
  | cons statement rest ih => rw [Statement.partsAll, ih, List.map_cons]

theorem CatchClause.partsAll_eq_flatMap (catches : List CatchClause) :
    CatchClause.partsAll catches = catches.flatMap CatchClause.parts := by
  induction catches with
  | nil => rfl
  | cons clause rest ih => rw [CatchClause.partsAll, ih, List.flatMap_cons]

/-- The parts of a block. -/
def Block.parts (body : Block) : List Part := blockParts (body.map Statement.parts)

/-! ## Declarations -/

/-- The parts of one parameter. -/
def Parameter.parts (parameter : Parameter) : List Part :=
  modifierParts parameter.modifiers ++ [.type parameter.type, .word parameter.name]

/-- The parts of a parameter list. -/
def parametersParts (parameters : List Parameter) : List Part :=
  listParts "(" ")" (parameters.map Parameter.parts)

/-- The parts of a body, or of the semicolon without one. -/
def Block.partsOrSemicolon (body : Option Block) : List Part := body.elim [.symbol ";"] Block.parts

/-- The part of a type, or of `void` without one. -/
def TypeRef.partOrVoid (type : Option TypeRef) : Part := type.elim (.word "void") .type

/-- The parts of a keyword with the types behind it; none without types. -/
def clauseParts (keyword : Text) : List TypeRef → List Part
  | [] => []
  | first :: others =>
    .word keyword :: rowsBy (.symbol ",") ((first :: others).map fun type => [.type type])

/-- The parts of names with a separator between them. -/
def namesParts (separator : Text) (names : List Text) : List Part :=
  rowsBy (.symbol separator) (names.map fun name => [.word name])

/-- The parts of a method. -/
def Method.parts (method : Method) : List Part :=
  modifierParts method.modifiers ++ TypeRef.partOrVoid method.returnType :: .word method.name ::
    (parametersParts method.parameters ++ Block.partsOrSemicolon method.body)

/-- The parts of a constructor. -/
def Constructor.parts (constructor : Constructor) : List Part :=
  modifierParts constructor.modifiers ++ (namesParts "." constructor.name ++
    (parametersParts constructor.parameters ++ Block.parts constructor.body))

/-- The parts of an accessor. -/
def Accessor.parts (accessor : Accessor) : List Part :=
  modifierParts accessor.modifiers ++ .word accessor.kind.text ::
    Block.partsOrSemicolon accessor.body

/-- The parts of a property. -/
def Property.parts (property : Property) : List Part :=
  modifierParts property.modifiers ++ .type property.type :: .word property.name ::
    blockParts (property.accessors.map Accessor.parts)

/-- The parts of an initializer block. -/
def Initializer.parts (initializer : Initializer) : List Part :=
  if initializer.isStatic then .word "static" :: Block.parts initializer.body
  else Block.parts initializer.body

mutual

/-- The parts of a type declaration. -/
def Declaration.parts : Declaration → List Part
  | .classType modifiers name parent interfaces body =>
    modifierParts modifiers ++ .word "class" :: .word name ::
      (clauseParts "extends" parent.toList ++ (clauseParts "implements" interfaces ++
        blockParts (Member.partsAll body)))
  | .interfaceType modifiers name parents body =>
    modifierParts modifiers ++ .word "interface" :: .word name ::
      (clauseParts "extends" parents ++ blockParts (Member.partsAll body))
  | .enumType modifiers name constants =>
    modifierParts modifiers ++ .word "enum" :: .word name ::
      listParts "\x7b" "\x7d" (constants.map fun name => [.word name])

/-- The parts of a member. -/
def Member.parts : Member → List Part
  | .method method => method.parts
  | .field declaration => declaration.parts ++ [.symbol ";"]
  | .constructor constructor => constructor.parts
  | .property property => property.parts
  | .initializer initializer => initializer.parts
  | .declaration nested => nested.parts
  | .empty => [.symbol ";"]

/-- The parts of each member. -/
def Member.partsAll : List Member → List (List Part)
  | [] => []
  | member :: rest => member.parts :: Member.partsAll rest

end

theorem Member.partsAll_eq_map (body : List Member) :
    Member.partsAll body = body.map Member.parts := by
  induction body with
  | nil => rfl
  | cons member rest ih => rw [Member.partsAll, ih, List.map_cons]

/-- The parts of a compilation unit. -/
def CompilationUnit.parts (unit : CompilationUnit) : List Part := unit.declaration.parts

end ApexLayout
