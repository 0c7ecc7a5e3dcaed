import ApexLayout.Proofs.Contents
import Mathlib.Data.List.Basic

/-!
Looking past details of trees.

A blur changes the letters of every text in a tree and its queries, and nothing else. Two sources
are compared by what is left of their trees under a blur.
-/

namespace ApexLayout

/-- How letters and queries are looked at. -/
structure Blur where
  letter : Char → Char
  query : EmbeddedQuery → EmbeddedQuery

namespace Blur

/-- The text with its letters changed. -/
def text (blur : Blur) (text : Text) : Text := text.map blur.letter

theorem text_append (blur : Blur) (first second : Text) :
    blur.text (first ++ second) = blur.text first ++ blur.text second :=
  List.map_append

/-- The blur that forgets how queries are written and where they stand. -/
def ofQueries : Blur := ⟨id, fun _ => ⟨[], none⟩⟩

@[simp] theorem text_ofQueries (text : Text) : ofQueries.text text = text := List.map_id _

end Blur

/-! ## Types -/

mutual

/-- The type with all its texts blurred. -/
def TypeRef.blur (blur : Blur) : TypeRef → TypeRef
  | ⟨segments, suffix⟩ => ⟨TypeName.blurAll blur segments, blur.text suffix⟩

/-- The names with all their texts blurred. -/
def TypeName.blurAll (blur : Blur) : List TypeName → List TypeName
  | [] => []
  | ⟨name, arguments⟩ :: rest =>
    ⟨blur.text name, TypeRef.blurAll blur arguments⟩ :: TypeName.blurAll blur rest

/-- The types with all their texts blurred. -/
def TypeRef.blurAll (blur : Blur) : List TypeRef → List TypeRef
  | [] => []
  | type :: rest => type.blur blur :: TypeRef.blurAll blur rest

end

/-- The name with all its texts blurred. -/
def TypeName.blur (blur : Blur) (name : TypeName) : TypeName :=
  ⟨blur.text name.name, name.arguments.map (TypeRef.blur blur)⟩

theorem TypeRef.blurAll_eq_map (blur : Blur) (types : List TypeRef) :
    TypeRef.blurAll blur types = types.map (TypeRef.blur blur) := by
  induction types with
  | nil => rfl
  | cons type rest ih => rw [TypeRef.blurAll, ih, List.map_cons]

theorem TypeName.blurAll_eq_map (blur : Blur) (names : List TypeName) :
    TypeName.blurAll blur names = names.map (TypeName.blur blur) := by
  induction names with
  | nil => rfl
  | cons name rest ih =>
    obtain ⟨name, arguments⟩ := name
    rw [TypeName.blurAll, ih, TypeRef.blurAll_eq_map, List.map_cons]
    rfl

theorem TypeRef.blur_eq (blur : Blur) (segments : List TypeName) (suffix : Text) :
    TypeRef.blur blur ⟨segments, suffix⟩ = ⟨segments.map (TypeName.blur blur), blur.text suffix⟩ := by
  rw [TypeRef.blur, TypeName.blurAll_eq_map]

theorem TypeRef.blur_path (blur : Blur) (names : List Text) :
    (TypeRef.path names).blur blur = TypeRef.path (names.map blur.text) := by
  rw [TypeRef.path, TypeRef.blur_eq, TypeRef.path, List.map_map, List.map_map]
  rfl

/-! ## Expressions -/

/-- The leaf with all its texts blurred. -/
def Primary.blur (blur : Blur) : Primary → Primary
  | .literal text => .literal (blur.text text)
  | .identifier name => .identifier (blur.text name)
  | .this => .this
  | .super => .super
  | .path type => .path (type.blur blur)
  | .classLiteral type => .classLiteral (type.blur blur)
  | .query embedded => .query (blur.query embedded)

mutual

/-- The expression with all its texts and queries blurred. -/
def Expression.blur (blur : Blur) : Expression → Expression
  | .assignment target operator value =>
    .assignment (target.blur blur) (blur.text operator) (value.blur blur)
  | .conditional condition thenValue elseValue =>
    .conditional (condition.blur blur) (thenValue.blur blur) (elseValue.blur blur)
  | .binary kind operator left right =>
    .binary kind (blur.text operator) (left.blur blur) (right.blur blur)
  | .unary fixity operator operand => .unary fixity (blur.text operator) (operand.blur blur)
  | .cast type operand => .cast (type.blur blur) (operand.blur blur)
  | .instanceOf operand type => .instanceOf (operand.blur blur) (type.blur blur)
  | .creation type body => .creation (type.blur blur) (body.blur blur)
  | .arrayAccess array index => .arrayAccess (array.blur blur) (index.blur blur)
  | .chain receiver link => .chain (receiver.blur blur) (link.blur blur)
  | .call name arguments => .call (blur.text name) (Expression.blurAll blur arguments)
  | .parenthesized inner => .parenthesized (inner.blur blur)
  | .primary leaf => .primary (leaf.blur blur)

/-- The link with all its texts and queries blurred. -/
def Link.blur (blur : Blur) : Link → Link
  | ⟨navigation, member, none⟩ => ⟨navigation, blur.text member, none⟩
  | ⟨navigation, member, some arguments⟩ =>
    ⟨navigation, blur.text member, some (Expression.blurAll blur arguments)⟩

/-- The body with all its texts and queries blurred. -/
def CreatorBody.blur (blur : Blur) : CreatorBody → CreatorBody
  | .arguments items => .arguments (Expression.blurAll blur items)
  | .arraySize size => .arraySize (size.blur blur)
  | .elements items => .elements (Expression.blurAll blur items)
  | .entries items => .entries (Expression.blurEntries blur items)

/-- The expressions with all their texts and queries blurred. -/
def Expression.blurAll (blur : Blur) : List Expression → List Expression
  | [] => []
  | item :: rest => item.blur blur :: Expression.blurAll blur rest

/-- The entries with all their texts and queries blurred. -/
def Expression.blurEntries (blur : Blur) :
    List (Expression × Expression) → List (Expression × Expression)
  | [] => []
  | (key, value) :: rest => (key.blur blur, value.blur blur) :: Expression.blurEntries blur rest

end

theorem Expression.blurAll_eq_map (blur : Blur) (items : List Expression) :
    Expression.blurAll blur items = items.map (Expression.blur blur) := by
  induction items with
  | nil => rfl
  | cons item rest ih => rw [Expression.blurAll, ih, List.map_cons]

/-- The entry with all its texts and queries blurred. -/
def Expression.blurEntry (blur : Blur) (entry : Expression × Expression) :
    Expression × Expression :=
  (entry.1.blur blur, entry.2.blur blur)

theorem Expression.blurEntries_eq_map (blur : Blur) (items : List (Expression × Expression)) :
    Expression.blurEntries blur items = items.map (Expression.blurEntry blur) := by
  induction items with
  | nil => rfl
  | cons item rest ih =>
    rw [Expression.blurEntries, ih, List.map_cons]
    rfl

theorem Link.blur_eq (blur : Blur) (link : Link) :
    link.blur blur = ⟨link.navigation, blur.text link.member,
      link.arguments.map (List.map (Expression.blur blur))⟩ := by
  obtain ⟨navigation, member, arguments⟩ := link
  cases arguments with
  | none => rfl
  | some items =>
    rw [Link.blur, Expression.blurAll_eq_map]
    rfl

/-! ## Statements -/

/-- The declarator with all its texts and queries blurred. -/
def Declarator.blur (blur : Blur) (declarator : Declarator) : Declarator :=
  ⟨blur.text declarator.name, declarator.initializer.map (Expression.blur blur)⟩

/-- The declaration with all its texts and queries blurred. -/
def VariableDeclaration.blur (blur : Blur) (declaration : VariableDeclaration) :
    VariableDeclaration :=
  ⟨declaration.modifiers.map blur.text, declaration.type.blur blur,
    declaration.declarators.map (Declarator.blur blur)⟩

/-- The beginning of a counting loop with all its texts and queries blurred. -/
def ForInit.blur (blur : Blur) : ForInit → ForInit
  | .variables declaration => .variables (declaration.blur blur)
  | .expressions items => .expressions (items.map (Expression.blur blur))

/-- The loop header with all its texts and queries blurred. -/
def ForControl.blur (blur : Blur) : ForControl → ForControl
  | .each modifiers type name iterable =>
    .each (modifiers.map blur.text) (type.blur blur) (blur.text name) (iterable.blur blur)
  | .counting init condition update =>
    .counting (init.map (ForInit.blur blur)) (condition.map (Expression.blur blur))
      (update.map (Expression.blur blur))

mutual

/-- The statement with all its texts and queries blurred. -/
def Statement.blur (blur : Blur) : Statement → Statement
  | .block body => .block (Statement.blurAll blur body)
  | .ifElse condition thenBranch none =>
    .ifElse (condition.blur blur) (thenBranch.blur blur) none
  | .ifElse condition thenBranch (some branch) =>
    .ifElse (condition.blur blur) (thenBranch.blur blur) (some (branch.blur blur))
  | .whileLoop condition body => .whileLoop (condition.blur blur) (body.blur blur)
  | .forLoop control body => .forLoop (control.blur blur) (body.blur blur)
  | .tryCatch body catches none =>
    .tryCatch (Statement.blurAll blur body) (CatchClause.blurAll blur catches) none
  | .tryCatch body catches (some last) =>
    .tryCatch (Statement.blurAll blur body) (CatchClause.blurAll blur catches)
      (some (Statement.blurAll blur last))
  | .returnValue value => .returnValue (value.map (Expression.blur blur))
  | .throwValue value => .throwValue (value.blur blur)
  | .breakLoop => .breakLoop
  | .continueLoop => .continueLoop
  | .dml operation operand => .dml (blur.text operation) (operand.blur blur)
  | .variables declaration => .variables (declaration.blur blur)
  | .expression value => .expression (value.blur blur)

/-- The statements with all their texts and queries blurred. -/
def Statement.blurAll (blur : Blur) : List Statement → List Statement
  | [] => []
  | statement :: rest => statement.blur blur :: Statement.blurAll blur rest

/-- The `catch` clauses with all their texts and queries blurred. -/
def CatchClause.blurAll (blur : Blur) : List CatchClause → List CatchClause
  | [] => []
  | ⟨modifiers, type, name, body⟩ :: rest =>
    ⟨modifiers.map blur.text, type.blur blur, blur.text name, Statement.blurAll blur body⟩ ::
      CatchClause.blurAll blur rest

end

/-- The block with all its texts and queries blurred. -/
def Block.blur (blur : Blur) (body : Block) : Block := body.map (Statement.blur blur)

/-- The `catch` clause with all its texts and queries blurred. -/
def CatchClause.blur (blur : Blur) (clause : CatchClause) : CatchClause :=
  ⟨clause.modifiers.map blur.text, clause.type.blur blur, blur.text clause.name,
    Block.blur blur clause.body⟩

theorem Statement.blurAll_eq_map (blur : Blur) (body : List Statement) :
    Statement.blurAll blur body = Block.blur blur body := by
  induction body with
  | nil => rfl
  | cons statement rest ih =>
    rw [Statement.blurAll, ih]
    rfl

theorem CatchClause.blurAll_eq_map (blur : Blur) (catches : List CatchClause) :
    CatchClause.blurAll blur catches = catches.map (CatchClause.blur blur) := by
  induction catches with
  | nil => rfl
  | cons clause rest ih =>
    obtain ⟨modifiers, type, name, body⟩ := clause
    rw [CatchClause.blurAll, ih, Statement.blurAll_eq_map, List.map_cons]
    rfl

theorem Statement.blur_ifElse (blur : Blur) (condition : Expression) (thenBranch : Statement)
    (elseBranch : Option Statement) :
    (Statement.ifElse condition thenBranch elseBranch).blur blur =
      .ifElse (condition.blur blur) (thenBranch.blur blur)
        (elseBranch.map (Statement.blur blur)) := by
  cases elseBranch <;> rw [Statement.blur] <;> rfl

theorem Statement.blur_tryCatch (blur : Blur) (body : List Statement) (catches : List CatchClause)
    (cleanup : Option (List Statement)) :
    (Statement.tryCatch body catches cleanup).blur blur =
      .tryCatch (Block.blur blur body) (catches.map (CatchClause.blur blur))
        (cleanup.map (Block.blur blur)) := by
  cases cleanup <;>
    simp only [Statement.blur, Statement.blurAll_eq_map, CatchClause.blurAll_eq_map,
      Option.map_none, Option.map_some]

/-! ## Declarations -/

/-- The parameter with all its texts blurred. -/
def Parameter.blur (blur : Blur) (parameter : Parameter) : Parameter :=
  ⟨parameter.modifiers.map blur.text, parameter.type.blur blur, blur.text parameter.name⟩

/-- The method with all its texts and queries blurred. -/
def Method.blur (blur : Blur) (method : Method) : Method :=
  ⟨method.modifiers.map blur.text, method.returnType.map (TypeRef.blur blur),
    blur.text method.name, method.parameters.map (Parameter.blur blur),
    method.body.map (Block.blur blur)⟩

/-- The constructor with all its texts and queries blurred. -/
def Constructor.blur (blur : Blur) (constructor : Constructor) : Constructor :=
  ⟨constructor.modifiers.map blur.text, constructor.name.map blur.text,
    constructor.parameters.map (Parameter.blur blur), Block.blur blur constructor.body⟩

/-- The accessor with all its texts and queries blurred. -/
def Accessor.blur (blur : Blur) (accessor : Accessor) : Accessor :=
  ⟨accessor.modifiers.map blur.text, accessor.kind, accessor.body.map (Block.blur blur)⟩

/-- The property with all its texts and queries blurred. -/
def Property.blur (blur : Blur) (property : Property) : Property :=
  ⟨property.modifiers.map blur.text, property.type.blur blur, blur.text property.name,
    property.accessors.map (Accessor.blur blur)⟩

/-- The initializer with all its texts and queries blurred. -/
def Initializer.blur (blur : Blur) (initializer : Initializer) : Initializer :=
  ⟨initializer.isStatic, Block.blur blur initializer.body⟩

mutual

/-- The declaration with all its texts and queries blurred. -/
def Declaration.blur (blur : Blur) : Declaration → Declaration
  | .classType modifiers name parent interfaces body =>
    .classType (modifiers.map blur.text) (blur.text name) (parent.map (TypeRef.blur blur))
      (interfaces.map (TypeRef.blur blur)) (Member.blurAll blur body)
  | .interfaceType modifiers name parents body =>
    .interfaceType (modifiers.map blur.text) (blur.text name) (parents.map (TypeRef.blur blur))
      (Member.blurAll blur body)
  | .enumType modifiers name constants =>
    .enumType (modifiers.map blur.text) (blur.text name) (constants.map blur.text)

/-- The member with all its texts and queries blurred. -/
def Member.blur (blur : Blur) : Member → Member
  | .method method => .method (method.blur blur)
  | .field declaration => .field (declaration.blur blur)
  | .constructor constructor => .constructor (constructor.blur blur)
  | .property property => .property (property.blur blur)
  | .initializer initializer => .initializer (initializer.blur blur)
  | .declaration nested => .declaration (nested.blur blur)
  | .empty => .empty

/-- The members with all their texts and queries blurred. -/
def Member.blurAll (blur : Blur) : List Member → List Member
  | [] => []
  | member :: rest => member.blur blur :: Member.blurAll blur rest

end

theorem Member.blurAll_eq_map (blur : Blur) (body : List Member) :
    Member.blurAll blur body = body.map (Member.blur blur) := by
  induction body with
  | nil => rfl
  | cons member rest ih => rw [Member.blurAll, ih, List.map_cons]

/-- The compilation unit with all its texts and queries blurred. -/
def CompilationUnit.blur (blur : Blur) (unit : CompilationUnit) : CompilationUnit :=
  ⟨unit.declaration.blur blur⟩


/-! ## What a blur keeps -/

section

variable (blur : Blur)

theorem Link.inner_blur (link : Link) :
    (link.blur blur).inner = link.inner.map (Expression.blur blur) := by
  obtain ⟨navigation, member, arguments⟩ := link
  rw [Link.blur_eq]
  cases arguments <;> rfl

theorem CreatorBody.inner_blur (body : CreatorBody) :
    (body.blur blur).inner = body.inner.map (Expression.blur blur) := by
  cases body with
  | arguments items => rw [CreatorBody.blur, Expression.blurAll_eq_map]; rfl
  | arraySize size => rw [CreatorBody.blur]; rfl
  | elements items => rw [CreatorBody.blur, Expression.blurAll_eq_map]; rfl
  | entries items =>
    rw [CreatorBody.blur, Expression.blurEntries_eq_map, CreatorBody.inner, CreatorBody.inner,
      List.map_flatMap, List.flatMap_map]
    rfl

/-- Lists of expressions under a blur, once their members are known. -/
theorem Expression.flatMap_within_blur {items : List Expression}
    (h : ∀ e ∈ items, (e.blur blur).within = e.within.map (Expression.blur blur)) :
    (items.map (Expression.blur blur)).flatMap Expression.within =
      (items.flatMap Expression.within).map (Expression.blur blur) := by
  rw [List.flatMap_map, List.map_flatMap]
  exact List.flatMap_congr fun e he => h e he

/-- A blurred expression contains the blurred expressions. -/
theorem Expression.within_blur (expression : Expression) :
    (expression.blur blur).within = expression.within.map (Expression.blur blur) := by
  induction expression using Expression.induction with
  | assignment target operator value htarget hvalue =>
    simp only [Expression.blur, Expression.within, htarget, hvalue, List.map_cons, List.map_append]
  | conditional condition thenValue elseValue hcondition hthen helse =>
    simp only [Expression.blur, Expression.within, hcondition, hthen, helse, List.map_cons,
      List.map_append]
  | binary kind operator left right hleft hright =>
    simp only [Expression.blur, Expression.within, hleft, hright, List.map_cons, List.map_append]
  | unary fixity operator operand ih =>
    simp only [Expression.blur, Expression.within, ih, List.map_cons]
  | cast type operand ih => simp only [Expression.blur, Expression.within, ih, List.map_cons]
  | instanceOf operand type ih =>
    simp only [Expression.blur, Expression.within, ih, List.map_cons]
  | creation type body ih =>
    -- what a creator contains is what its inner expressions contain; a link and a call are the same
    rw [Expression.blur, Expression.within, Expression.within, CreatorBody.within_eq_flatMap,
      CreatorBody.inner_blur, Expression.flatMap_within_blur blur ih, List.map_cons,
      Expression.blur, CreatorBody.within_eq_flatMap]
  | arrayAccess array index harray hindex =>
    simp only [Expression.blur, Expression.within, harray, hindex, List.map_cons, List.map_append]
  | chain receiver link hreceiver ih =>
    rw [Expression.blur, Expression.within, Expression.within, Link.within_eq_flatMap,
      Link.inner_blur, Expression.flatMap_within_blur blur ih, hreceiver, List.map_cons,
      List.map_append, Expression.blur, Link.within_eq_flatMap]
  | call name arguments ih =>
    rw [Expression.blur, Expression.within, Expression.within, Expression.blurAll_eq_map,
      Expression.withinAll_eq_flatMap, Expression.flatMap_within_blur blur ih, List.map_cons,
      Expression.blur, Expression.blurAll_eq_map, Expression.withinAll_eq_flatMap]
  | parenthesized inner ih => simp only [Expression.blur, Expression.within, ih, List.map_cons]
  | primary leaf => rfl

theorem Expression.query?_blur (expression : Expression) :
    (expression.blur blur).query? = expression.query?.map blur.query := by
  cases expression with
  | primary leaf => cases leaf <;> rfl
  | _ => rfl

theorem VariableDeclaration.expressions_blur (declaration : VariableDeclaration) :
    (declaration.blur blur).expressions = declaration.expressions.map (Expression.blur blur) := by
  unfold VariableDeclaration.expressions VariableDeclaration.blur
  rw [List.flatMap_map, List.map_flatMap]
  refine List.flatMap_congr fun declarator _ => ?_
  obtain ⟨name, initializer⟩ := declarator
  cases initializer <;> rfl

theorem ForControl.expressions_blur (control : ForControl) :
    (control.blur blur).expressions = control.expressions.map (Expression.blur blur) := by
  cases control with
  | each modifiers type name iterable => rfl
  | counting init condition update =>
    have hinit : (init.map (ForInit.blur blur)).toList.flatMap ForInit.outermost =
        (init.toList.flatMap ForInit.outermost).map (Expression.blur blur) := by
      cases init with
      | none => rfl
      | some init =>
        cases init with
        | «variables» declaration =>
          simpa [ForInit.blur, ForInit.outermost] using declaration.expressions_blur blur
        | expressions items => simp [ForInit.blur, ForInit.outermost]
    have hcondition : (condition.map (Expression.blur blur)).toList =
        condition.toList.map (Expression.blur blur) := by
      cases condition <;> rfl
    rw [ForControl.blur, ForControl.expressions, ForControl.expressions, hinit, hcondition,
      List.map_append, List.map_append]

theorem Block.expressions_blur {body : Block}
    (h : ∀ s ∈ body, (s.blur blur).expressions = s.expressions.map (Expression.blur blur)) :
    Block.expressions (Block.blur blur body) =
      (Block.expressions body).map (Expression.blur blur) := by
  unfold Block.expressions Block.blur
  rw [List.flatMap_map, List.map_flatMap]
  exact List.flatMap_congr fun s hs => h s hs

/-- A blurred statement has the blurred expressions. -/
theorem Statement.expressions_blur (statement : Statement) :
    (statement.blur blur).expressions = statement.expressions.map (Expression.blur blur) := by
  induction statement using Statement.induction with
  | block body ih =>
    rw [Statement.blur, Statement.expressions, Statement.expressions, Statement.blurAll_eq_map,
      Statement.expressionsAll_eq_flatMap, Statement.expressionsAll_eq_flatMap]
    exact Block.expressions_blur blur ih
  | ifElse condition thenBranch elseBranch hthen helse =>
    rw [Statement.blur_ifElse]
    cases elseBranch with
    | none =>
      rw [Option.map_none, Statement.expressions, Statement.expressions, hthen, List.map_cons]
    | some branch =>
      rw [Option.map_some, Statement.expressions, Statement.expressions, hthen, helse branch rfl,
        List.map_cons, List.map_append]
  | whileLoop condition body ih =>
    rw [Statement.blur, Statement.expressions, Statement.expressions, ih, List.map_cons]
  | forLoop control body ih =>
    rw [Statement.blur, Statement.expressions, Statement.expressions, ih,
      ForControl.expressions_blur, List.map_append]
  | tryCatch body catches cleanup hbody hcatches hcleanup =>
    have hclauses : (catches.map (CatchClause.blur blur)).flatMap CatchClause.expressions =
        (catches.flatMap CatchClause.expressions).map (Expression.blur blur) := by
      rw [List.flatMap_map, List.map_flatMap]
      exact List.flatMap_congr fun clause hclause =>
        Block.expressions_blur blur (hcatches clause hclause)
    rw [Statement.blur_tryCatch]
    cases cleanup with
    | none =>
      rw [Option.map_none, Statement.expressions, Statement.expressions,
        Statement.expressionsAll_eq_flatMap, Statement.expressionsAll_eq_flatMap,
        CatchClause.expressionsAll_eq_flatMap, CatchClause.expressionsAll_eq_flatMap, hclauses,
        List.map_append]
      exact congrArg (· ++ _) (Block.expressions_blur blur hbody)
    | some last =>
      have hlast := Block.expressions_blur blur (hcleanup last rfl)
      have hfirst := Block.expressions_blur blur hbody
      unfold Block.expressions at hfirst hlast
      rw [Option.map_some, Statement.expressions, Statement.expressions,
        Statement.expressionsAll_eq_flatMap, Statement.expressionsAll_eq_flatMap,
        Statement.expressionsAll_eq_flatMap, Statement.expressionsAll_eq_flatMap,
        CatchClause.expressionsAll_eq_flatMap, CatchClause.expressionsAll_eq_flatMap, hclauses,
        hfirst, hlast, List.map_append, List.map_append]
  | returnValue value => cases value <;> rfl
  | throwValue value => rfl
  | breakLoop => rfl
  | continueLoop => rfl
  | dml operation operand => rfl
  | locals declaration => exact declaration.expressions_blur blur
  | expression value => rfl

theorem Block.expressionsOf_blur (body : Option Block) :
    Block.expressionsOf (body.map (Block.blur blur)) =
      (Block.expressionsOf body).map (Expression.blur blur) := by
  cases body with
  | none => rfl
  | some body =>
    have h := Block.expressions_blur blur fun s (_ : s ∈ body) => s.expressions_blur blur
    simpa [Block.expressionsOf] using h

theorem Member.flatMap_expressions_blur {body : List Member}
    (h : ∀ m ∈ body, (m.blur blur).expressions = m.expressions.map (Expression.blur blur)) :
    Member.expressionsAll (Member.blurAll blur body) =
      (Member.expressionsAll body).map (Expression.blur blur) := by
  rw [Member.blurAll_eq_map, Member.expressionsAll_eq_flatMap, Member.expressionsAll_eq_flatMap,
    List.flatMap_map, List.map_flatMap]
  exact List.flatMap_congr fun m hm => h m hm

/-- A blurred declaration has the blurred expressions. -/
theorem Declaration.expressions_blur (declaration : Declaration) :
    (declaration.blur blur).expressions = declaration.expressions.map (Expression.blur blur) := by
  refine Declaration.induction
    (fun declaration => (declaration.blur blur).expressions =
      declaration.expressions.map (Expression.blur blur))
    (fun member => (member.blur blur).expressions = member.expressions.map (Expression.blur blur))
    ?classType ?interfaceType ?enumType ?method ?field ?constructor ?property ?initializer
    ?nested ?empty declaration
  case classType =>
    intro modifiers name parent interfaces body ih
    exact Member.flatMap_expressions_blur blur ih
  case interfaceType =>
    intro modifiers name parents body ih
    exact Member.flatMap_expressions_blur blur ih
  case enumType => intros; rfl
  case method => exact fun method => Block.expressionsOf_blur blur method.body
  case field => exact fun declaration => declaration.expressions_blur blur
  case constructor =>
    exact fun constructor => Block.expressions_blur blur fun s _ => s.expressions_blur blur
  case property =>
    intro property
    show (property.accessors.map (Accessor.blur blur)).flatMap Accessor.expressions =
      (property.accessors.flatMap Accessor.expressions).map (Expression.blur blur)
    rw [List.flatMap_map, List.map_flatMap]
    exact List.flatMap_congr fun accessor _ => Block.expressionsOf_blur blur accessor.body
  case initializer =>
    exact fun initializer => Block.expressions_blur blur fun s _ => s.expressions_blur blur
  case nested => exact fun nested ih => ih
  case empty => rfl

/-- A blurred unit has the blurred queries. -/
theorem CompilationUnit.queries_blur (unit : CompilationUnit) :
    (unit.blur blur).queries = unit.queries.map blur.query := by
  have hwithin : (unit.blur blur).within = unit.within.map (Expression.blur blur) := by
    show (unit.declaration.blur blur).expressions.flatMap Expression.within =
      (unit.declaration.expressions.flatMap Expression.within).map (Expression.blur blur)
    rw [Declaration.expressions_blur]
    exact Expression.flatMap_within_blur blur fun e _ => e.within_blur blur
  rw [CompilationUnit.queries, hwithin, List.filterMap_map, CompilationUnit.queries,
    List.map_filterMap]
  exact congrArg (List.filterMap · unit.within) (funext fun e => e.query?_blur blur)

end

/-! ## Trees without queries -/

section

open Blur (ofQueries)

theorem Option.map_eq_self {α : Type} {change : α → α} {value : Option α}
    (h : ∀ item ∈ value, change item = item) : value.map change = value := by
  cases value with
  | none => rfl
  | some item => exact congrArg some (h item rfl)

@[simp] theorem map_text_ofQueries (texts : List Text) : texts.map ofQueries.text = texts :=
  List.map_eq_self fun text _ => Blur.text_ofQueries text

@[simp] theorem TypeRef.blur_ofQueries (type : TypeRef) : type.blur ofQueries = type := by
  induction type using TypeRef.induction with
  | type segments suffix ih =>
    rw [TypeRef.blur_eq, Blur.text_ofQueries]
    refine congrArg (TypeRef.mk · suffix) (List.map_eq_self fun name hname => ?_)
    obtain ⟨name, arguments⟩ := name
    rw [TypeName.blur, Blur.text_ofQueries, List.map_eq_self (ih _ hname)]

@[simp] theorem map_blur_ofQueries (types : List TypeRef) :
    types.map (TypeRef.blur ofQueries) = types :=
  List.map_eq_self fun type _ => type.blur_ofQueries

@[simp] theorem option_blur_ofQueries (type : Option TypeRef) :
    type.map (TypeRef.blur ofQueries) = type := by
  cases type <;> simp

@[simp] theorem Parameter.map_blur_ofQueries (parameters : List Parameter) :
    parameters.map (Parameter.blur ofQueries) = parameters :=
  List.map_eq_self fun parameter _ => by simp [Parameter.blur]

/-- The body of a creation stays as it is if the expressions in it do. -/
theorem CreatorBody.blur_of_inner {body : CreatorBody}
    (h : ∀ e ∈ body.inner, e.blur ofQueries = e) : body.blur ofQueries = body := by
  cases body with
  | arguments items =>
    rw [CreatorBody.blur, Expression.blurAll_eq_map]
    exact congrArg CreatorBody.arguments (List.map_eq_self h)
  | arraySize size => rw [CreatorBody.blur, h size List.mem_cons_self]
  | elements items =>
    rw [CreatorBody.blur, Expression.blurAll_eq_map]
    exact congrArg CreatorBody.elements (List.map_eq_self h)
  | entries items =>
    have hentry : ∀ item ∈ items, Expression.blurEntry ofQueries item = item := by
      intro item hitem
      have hkey := h item.1 (List.mem_flatMap.2 ⟨item, hitem, List.mem_cons_self⟩)
      have hvalue := h item.2
        (List.mem_flatMap.2 ⟨item, hitem, List.mem_cons_of_mem _ List.mem_cons_self⟩)
      exact Prod.ext hkey hvalue
    rw [CreatorBody.blur, Expression.blurEntries_eq_map, List.map_eq_self hentry]

/-- A link stays as it is if its arguments do. -/
theorem Link.blur_of_inner {link : Link} (h : ∀ e ∈ link.inner, e.blur ofQueries = e) :
    link.blur ofQueries = link := by
  obtain ⟨navigation, member, arguments⟩ := link
  rw [Link.blur_eq, Blur.text_ofQueries]
  refine congrArg (Link.mk navigation member) (Option.map_eq_self fun items hitems => ?_)
  obtain rfl : arguments = some items := hitems
  exact List.map_eq_self h

/-- An expression without queries stays as it is. -/
theorem Expression.blur_of_queries (expression : Expression) :
    expression.queries = [] → expression.blur ofQueries = expression := by
  induction expression using Expression.induction with
  | assignment target operator value htarget hvalue =>
    intro h
    rw [Expression.queries_assignment, List.append_eq_nil_iff] at h
    rw [Expression.blur, htarget h.1, hvalue h.2, Blur.text_ofQueries]
  | conditional condition thenValue elseValue hcondition hthen helse =>
    intro h
    rw [Expression.queries_conditional, List.append_eq_nil_iff, List.append_eq_nil_iff] at h
    rw [Expression.blur, hcondition h.1, hthen h.2.1, helse h.2.2]
  | binary kind operator left right hleft hright =>
    intro h
    rw [Expression.queries_binary, List.append_eq_nil_iff] at h
    rw [Expression.blur, hleft h.1, hright h.2, Blur.text_ofQueries]
  | unary fixity operator operand ih =>
    intro h
    rw [Expression.queries_unary] at h
    rw [Expression.blur, ih h, Blur.text_ofQueries]
  | cast type operand ih =>
    intro h
    rw [Expression.queries_cast] at h
    rw [Expression.blur, ih h, TypeRef.blur_ofQueries]
  | instanceOf operand type ih =>
    intro h
    rw [Expression.queries_instanceOf] at h
    rw [Expression.blur, ih h, TypeRef.blur_ofQueries]
  | creation type body ih =>
    intro h
    rw [Expression.queries_creation, List.flatMap_eq_nil_iff] at h
    have hbody := CreatorBody.blur_of_inner fun e he => ih e he (h e he)
    rw [Expression.blur, hbody, TypeRef.blur_ofQueries]
  | arrayAccess array index harray hindex =>
    intro h
    rw [Expression.queries_arrayAccess, List.append_eq_nil_iff] at h
    rw [Expression.blur, harray h.1, hindex h.2]
  | chain receiver link hreceiver ih =>
    intro h
    rw [Expression.queries_chain, List.append_eq_nil_iff, List.flatMap_eq_nil_iff] at h
    have hlink := Link.blur_of_inner fun e he => ih e he (h.2 e he)
    rw [Expression.blur, hreceiver h.1, hlink]
  | call name arguments ih =>
    intro h
    rw [Expression.queries_call, List.flatMap_eq_nil_iff] at h
    rw [Expression.blur, Expression.blurAll_eq_map, Blur.text_ofQueries,
      List.map_eq_self fun e he => ih e he (h e he)]
  | parenthesized inner ih =>
    intro h
    rw [Expression.queries_parenthesized] at h
    rw [Expression.blur, ih h]
  | primary leaf =>
    intro h
    cases leaf with
    -- only here something would be blurred, but such a leaf is a query
    | query embedded => cases h
    | _ => simp [Expression.blur, Primary.blur]

theorem VariableDeclaration.blur_of_expressions {declaration : VariableDeclaration}
    (h : ∀ e ∈ declaration.expressions, e.blur ofQueries = e) :
    declaration.blur ofQueries = declaration := by
  obtain ⟨modifiers, type, declarators⟩ := declaration
  unfold VariableDeclaration.blur
  rw [map_text_ofQueries, TypeRef.blur_ofQueries]
  refine congrArg (VariableDeclaration.mk modifiers type) (List.map_eq_self fun declarator hmem => ?_)
  obtain ⟨name, initializer⟩ := declarator
  unfold Declarator.blur
  rw [Blur.text_ofQueries]
  refine congrArg (Declarator.mk name) (Option.map_eq_self fun e he => ?_)
  exact h e (List.mem_flatMap.2 ⟨_, hmem, Option.mem_toList.2 he⟩)

theorem ForControl.blur_of_expressions {control : ForControl}
    (h : ∀ e ∈ control.expressions, e.blur ofQueries = e) : control.blur ofQueries = control := by
  cases control with
  | each modifiers type name iterable =>
    rw [ForControl.blur, map_text_ofQueries, TypeRef.blur_ofQueries, Blur.text_ofQueries,
      h iterable List.mem_cons_self]
  | counting init condition update =>
    rw [ForControl.expressions, List.forall_mem_append, List.forall_mem_append] at h
    obtain ⟨⟨hinit, hcondition⟩, hupdate⟩ := h
    have hfirst : init.map (ForInit.blur ofQueries) = init := by
      refine Option.map_eq_self fun item hitem => ?_
      have hitem' : ∀ e ∈ item.outermost, e.blur ofQueries = e := fun e he =>
        hinit e (List.mem_flatMap.2 ⟨item, Option.mem_toList.2 hitem, he⟩)
      cases item with
      | «variables» declaration =>
        exact congrArg ForInit.variables (VariableDeclaration.blur_of_expressions hitem')
      | expressions items => exact congrArg ForInit.expressions (List.map_eq_self hitem')
    rw [ForControl.blur, hfirst, List.map_eq_self hupdate,
      Option.map_eq_self fun e he => hcondition e (Option.mem_toList.2 he)]

theorem Block.blur_of_expressions {body : Block}
    (hbody : ∀ s ∈ body, (∀ e ∈ s.expressions, e.blur ofQueries = e) → s.blur ofQueries = s)
    (h : ∀ e ∈ Block.expressions body, e.blur ofQueries = e) :
    Block.blur ofQueries body = body :=
  List.map_eq_self fun s hs => hbody s hs fun e he => h e (List.mem_flatMap.2 ⟨s, hs, he⟩)

/-- A statement stays as it is if its expressions do. -/
theorem Statement.blur_of_expressions (statement : Statement) :
    (∀ e ∈ statement.expressions, e.blur ofQueries = e) →
      statement.blur ofQueries = statement := by
  induction statement using Statement.induction with
  | block body ih =>
    intro h
    rw [Statement.expressions, Statement.expressionsAll_eq_flatMap] at h
    rw [Statement.blur, Statement.blurAll_eq_map, Block.blur_of_expressions ih h]
  | ifElse condition thenBranch elseBranch hthen helse =>
    intro h
    rw [Statement.blur_ifElse]
    cases elseBranch with
    | none =>
      rw [Statement.expressions, List.forall_mem_cons] at h
      rw [h.1, hthen h.2, Option.map_none]
    | some branch =>
      rw [Statement.expressions, List.forall_mem_cons, List.forall_mem_append] at h
      rw [h.1, hthen h.2.1, Option.map_some, helse branch rfl h.2.2]
  | whileLoop condition body ih =>
    intro h
    rw [Statement.expressions, List.forall_mem_cons] at h
    rw [Statement.blur, h.1, ih h.2]
  | forLoop control body ih =>
    intro h
    rw [Statement.expressions, List.forall_mem_append] at h
    rw [Statement.blur, ForControl.blur_of_expressions h.1, ih h.2]
  | tryCatch body catches cleanup hbody hcatches hcleanup =>
    intro h
    -- a clause has no expressions but those of its block
    have hclauses : (∀ e ∈ catches.flatMap CatchClause.expressions, e.blur ofQueries = e) →
        catches.map (CatchClause.blur ofQueries) = catches := by
      refine fun h => List.map_eq_self fun clause hclause => ?_
      obtain ⟨modifiers, type, name, inner⟩ := clause
      have hinner := Block.blur_of_expressions (hcatches _ hclause) fun e he =>
        h e (List.mem_flatMap.2 ⟨_, hclause, he⟩)
      unfold CatchClause.blur
      rw [map_text_ofQueries, TypeRef.blur_ofQueries, Blur.text_ofQueries, hinner]
    rw [Statement.blur_tryCatch]
    cases cleanup with
    | none =>
      rw [Statement.expressions, List.forall_mem_append, Statement.expressionsAll_eq_flatMap,
        CatchClause.expressionsAll_eq_flatMap] at h
      rw [Block.blur_of_expressions hbody h.1, hclauses h.2, Option.map_none]
    | some last =>
      rw [Statement.expressions, List.forall_mem_append, List.forall_mem_append,
        Statement.expressionsAll_eq_flatMap, Statement.expressionsAll_eq_flatMap,
        CatchClause.expressionsAll_eq_flatMap] at h
      rw [Block.blur_of_expressions hbody h.1.1, hclauses h.1.2, Option.map_some,
        Block.blur_of_expressions (hcleanup last rfl) h.2]
  | returnValue value =>
    intro h
    rw [Statement.blur, Option.map_eq_self fun e he => h e (Option.mem_toList.2 he)]
  | throwValue value =>
    intro h
    rw [Statement.blur, h value List.mem_cons_self]
  | breakLoop => exact fun _ => rfl
  | continueLoop => exact fun _ => rfl
  | dml operation operand =>
    intro h
    rw [Statement.blur, h operand List.mem_cons_self, Blur.text_ofQueries]
  | locals declaration =>
    exact fun h => congrArg Statement.variables (VariableDeclaration.blur_of_expressions h)
  | expression value =>
    intro h
    rw [Statement.blur, h value List.mem_cons_self]

theorem Block.blur_ofQueries {body : Block}
    (h : ∀ e ∈ Block.expressions body, e.blur ofQueries = e) : Block.blur ofQueries body = body :=
  Block.blur_of_expressions (fun s _ => s.blur_of_expressions) h

theorem Block.option_blur_ofQueries {body : Option Block}
    (h : ∀ e ∈ Block.expressionsOf body, e.blur ofQueries = e) :
    body.map (Block.blur ofQueries) = body :=
  Option.map_eq_self fun inner hinner => Block.blur_ofQueries fun e he =>
    h e (List.mem_flatMap.2 ⟨inner, Option.mem_toList.2 hinner, he⟩)

theorem Member.blurAll_of_expressions {body : List Member}
    (hbody : ∀ m ∈ body, (∀ e ∈ m.expressions, e.blur ofQueries = e) → m.blur ofQueries = m)
    (h : ∀ e ∈ Member.expressionsAll body, e.blur ofQueries = e) :
    Member.blurAll ofQueries body = body := by
  rw [Member.expressionsAll_eq_flatMap] at h
  rw [Member.blurAll_eq_map]
  exact List.map_eq_self fun m hm => hbody m hm fun e he => h e (List.mem_flatMap.2 ⟨m, hm, he⟩)

/-- A declaration stays as it is if its expressions do. -/
theorem Declaration.blur_of_expressions (declaration : Declaration) :
    (∀ e ∈ declaration.expressions, e.blur ofQueries = e) →
      declaration.blur ofQueries = declaration := by
  refine Declaration.induction
    (fun declaration => (∀ e ∈ declaration.expressions, e.blur ofQueries = e) →
      declaration.blur ofQueries = declaration)
    (fun member => (∀ e ∈ member.expressions, e.blur ofQueries = e) →
      member.blur ofQueries = member)
    ?classType ?interfaceType ?enumType ?method ?field ?constructor ?property ?initializer
    ?nested ?empty declaration
  case classType =>
    intro modifiers name parent interfaces body ih h
    rw [Declaration.blur, Member.blurAll_of_expressions ih h]
    simp
  case interfaceType =>
    intro modifiers name parents body ih h
    rw [Declaration.blur, Member.blurAll_of_expressions ih h]
    simp
  case enumType =>
    intro modifiers name constants _
    simp [Declaration.blur]
  case method =>
    intro method h
    rw [Member.blur, Method.blur, Block.option_blur_ofQueries h]
    simp
  case field => exact fun _ h => congrArg Member.field (VariableDeclaration.blur_of_expressions h)
  case constructor =>
    intro constructor h
    rw [Member.blur, Constructor.blur, Block.blur_ofQueries h]
    simp
  case property =>
    intro property h
    have haccessors : property.accessors.map (Accessor.blur ofQueries) = property.accessors := by
      refine List.map_eq_self fun accessor haccessor => ?_
      have hbody := Block.option_blur_ofQueries fun e he =>
        h e (List.mem_flatMap.2 ⟨accessor, haccessor, he⟩)
      rw [Accessor.blur, hbody, map_text_ofQueries]
    rw [Member.blur, Property.blur, haccessors]
    simp
  case initializer =>
    intro initializer h
    rw [Member.blur, Initializer.blur, Block.blur_ofQueries h]
  case nested => exact fun nested ih h => congrArg Member.declaration (ih h)
  case empty => exact fun _ => rfl

/-- A unit without queries stays as it is. -/
theorem CompilationUnit.blur_of_queries {unit : CompilationUnit} (h : unit.queries = []) :
    unit.blur ofQueries = unit := by
  rw [CompilationUnit.queries_eq_flatMap, List.flatMap_eq_nil_iff] at h
  exact congrArg CompilationUnit.mk
    (unit.declaration.blur_of_expressions fun e he => e.blur_of_queries (h e he))

/-- Two units that differ at most in their queries are the same if one of them has none. -/
theorem CompilationUnit.eq_of_blur {first second : CompilationUnit}
    (hblur : first.blur ofQueries = second.blur ofQueries) (h : first.queries = []) :
    first = second := by
  have hsecond : second.queries = [] := by
    have hqueries := congrArg CompilationUnit.queries hblur
    rw [CompilationUnit.queries_blur, CompilationUnit.queries_blur, h] at hqueries
    exact List.map_eq_nil_iff.1 hqueries.symm
  rw [← CompilationUnit.blur_of_queries h, hblur, CompilationUnit.blur_of_queries hsecond]

end

end ApexLayout
