import ApexLayout.Proofs.Induction

/-!
What trees contain.

`Expression.within` lists an expression with all expressions inside it, from left to right;
`expressions` lists the outermost expressions of a statement or a declaration, in the same order.
Claims about every expression of a tree, and about its queries, are stated through these lists.
-/

namespace ApexLayout

/-! ## Inside an expression -/

mutual

/-- The expression and all expressions inside it, from left to right. -/
def Expression.within : Expression → List Expression
  | .assignment target operator value =>
    .assignment target operator value :: (target.within ++ value.within)
  | .conditional condition thenValue elseValue =>
    .conditional condition thenValue elseValue ::
      (condition.within ++ thenValue.within ++ elseValue.within)
  | .binary kind operator left right =>
    .binary kind operator left right :: (left.within ++ right.within)
  | .unary fixity operator operand => .unary fixity operator operand :: operand.within
  | .cast type operand => .cast type operand :: operand.within
  | .instanceOf operand type => .instanceOf operand type :: operand.within
  | .creation type body => .creation type body :: body.within
  | .arrayAccess array index => .arrayAccess array index :: (array.within ++ index.within)
  | .chain receiver link => .chain receiver link :: (receiver.within ++ link.within)
  | .call name arguments => .call name arguments :: Expression.withinAll arguments
  | .parenthesized inner => .parenthesized inner :: inner.within
  | .primary leaf => [.primary leaf]

/-- All expressions inside a link. -/
def Link.within : Link → List Expression
  | ⟨_, _, none⟩ => []
  | ⟨_, _, some arguments⟩ => Expression.withinAll arguments

/-- All expressions inside the body of a `new` expression. -/
def CreatorBody.within : CreatorBody → List Expression
  | .arguments items => Expression.withinAll items
  | .arraySize size => size.within
  | .elements items => Expression.withinAll items
  | .entries items => Expression.withinEntries items

/-- The expressions and all expressions inside them. -/
def Expression.withinAll : List Expression → List Expression
  | [] => []
  | expression :: rest => expression.within ++ Expression.withinAll rest

/-- The keys and values of map entries and all expressions inside them. -/
def Expression.withinEntries : List (Expression × Expression) → List Expression
  | [] => []
  | (key, value) :: rest => key.within ++ value.within ++ Expression.withinEntries rest

end

theorem Expression.withinAll_eq_flatMap (items : List Expression) :
    Expression.withinAll items = items.flatMap Expression.within := by
  induction items with
  | nil => rfl
  | cons item rest ih => rw [Expression.withinAll, ih, List.flatMap_cons]

theorem Expression.withinEntries_eq_flatMap (items : List (Expression × Expression)) :
    Expression.withinEntries items =
      items.flatMap fun item => item.1.within ++ item.2.within := by
  induction items with
  | nil => rfl
  | cons item rest ih => rw [Expression.withinEntries, ih, List.flatMap_cons]

theorem Link.within_eq_flatMap (link : Link) :
    link.within = link.inner.flatMap Expression.within := by
  obtain ⟨navigation, member, arguments⟩ := link
  cases arguments with
  | none => rfl
  | some items => rw [Link.within, Expression.withinAll_eq_flatMap]; rfl

theorem CreatorBody.within_eq_flatMap (body : CreatorBody) :
    body.within = body.inner.flatMap Expression.within := by
  cases body with
  | arguments items => rw [CreatorBody.within, Expression.withinAll_eq_flatMap]; rfl
  | arraySize size => simp [CreatorBody.within, CreatorBody.inner]
  | elements items => rw [CreatorBody.within, Expression.withinAll_eq_flatMap]; rfl
  | entries items =>
    rw [CreatorBody.within, Expression.withinEntries_eq_flatMap, CreatorBody.inner,
      List.flatMap_assoc]
    simp

/-! ## Outermost expressions -/

/-- The expressions of a declarator. -/
def Declarator.expressions (declarator : Declarator) : List Expression :=
  declarator.initializer.toList

/-- The expressions of a declaration of variables. -/
def VariableDeclaration.expressions (declaration : VariableDeclaration) : List Expression :=
  declaration.declarators.flatMap Declarator.expressions

/-- The expressions of what a counting loop begins with. -/
def ForInit.outermost : ForInit → List Expression
  | .variables declaration => declaration.expressions
  | .expressions items => items

/-- The expressions of the header of a `for` loop. -/
def ForControl.expressions : ForControl → List Expression
  | .each _ _ _ iterable => [iterable]
  | .counting init condition update =>
    init.toList.flatMap ForInit.outermost ++ condition.toList ++ update

mutual

/-- The outermost expressions of a statement, from left to right. -/
def Statement.expressions : Statement → List Expression
  | .block body => Statement.expressionsAll body
  | .ifElse condition thenBranch none => condition :: thenBranch.expressions
  | .ifElse condition thenBranch (some branch) =>
    condition :: (thenBranch.expressions ++ branch.expressions)
  | .whileLoop condition body => condition :: body.expressions
  | .forLoop control body => control.expressions ++ body.expressions
  | .tryCatch body catches none =>
    Statement.expressionsAll body ++ CatchClause.expressionsAll catches
  | .tryCatch body catches (some last) =>
    Statement.expressionsAll body ++ CatchClause.expressionsAll catches ++
      Statement.expressionsAll last
  | .returnValue value => value.toList
  | .throwValue value => [value]
  | .breakLoop => []
  | .continueLoop => []
  | .dml _ operand => [operand]
  | .variables declaration => declaration.expressions
  | .expression value => [value]

/-- The outermost expressions of statements. -/
def Statement.expressionsAll : List Statement → List Expression
  | [] => []
  | statement :: rest => statement.expressions ++ Statement.expressionsAll rest

/-- The outermost expressions of `catch` clauses. -/
def CatchClause.expressionsAll : List CatchClause → List Expression
  | [] => []
  | ⟨_, _, _, body⟩ :: rest => Statement.expressionsAll body ++ CatchClause.expressionsAll rest

end

/-- The outermost expressions of a block. -/
def Block.expressions (body : Block) : List Expression := body.flatMap Statement.expressions

/-- The outermost expressions of a `catch` clause. -/
def CatchClause.expressions (clause : CatchClause) : List Expression :=
  Block.expressions clause.body

theorem Statement.expressionsAll_eq_flatMap (body : List Statement) :
    Statement.expressionsAll body = body.flatMap Statement.expressions := by
  induction body with
  | nil => rfl
  | cons statement rest ih => rw [Statement.expressionsAll, ih, List.flatMap_cons]

theorem CatchClause.expressionsAll_eq_flatMap (catches : List CatchClause) :
    CatchClause.expressionsAll catches = catches.flatMap CatchClause.expressions := by
  induction catches with
  | nil => rfl
  | cons clause rest ih =>
    obtain ⟨modifiers, type, name, body⟩ := clause
    rw [CatchClause.expressionsAll, ih, List.flatMap_cons, Statement.expressionsAll_eq_flatMap]
    rfl

/-- The outermost expressions of a body that may be absent. -/
def Block.expressionsOf (body : Option Block) : List Expression :=
  body.toList.flatMap Block.expressions

/-- The outermost expressions of an accessor. -/
def Accessor.expressions (accessor : Accessor) : List Expression :=
  Block.expressionsOf accessor.body

mutual

/-- The outermost expressions of a type declaration, from left to right. -/
def Declaration.expressions : Declaration → List Expression
  | .classType _ _ _ _ body => Member.expressionsAll body
  | .interfaceType _ _ _ body => Member.expressionsAll body
  | .enumType .. => []

/-- The outermost expressions of a member. -/
def Member.expressions : Member → List Expression
  | .method method => Block.expressionsOf method.body
  | .field declaration => declaration.expressions
  | .constructor constructor => Block.expressions constructor.body
  | .property property => property.accessors.flatMap Accessor.expressions
  | .initializer initializer => Block.expressions initializer.body
  | .declaration nested => nested.expressions
  | .empty => []

/-- The outermost expressions of members. -/
def Member.expressionsAll : List Member → List Expression
  | [] => []
  | member :: rest => member.expressions ++ Member.expressionsAll rest

end

theorem Member.expressionsAll_eq_flatMap (body : List Member) :
    Member.expressionsAll body = body.flatMap Member.expressions := by
  induction body with
  | nil => rfl
  | cons member rest ih => rw [Member.expressionsAll, ih, List.flatMap_cons]

/-- The outermost expressions of a compilation unit. -/
def CompilationUnit.expressions (unit : CompilationUnit) : List Expression :=
  unit.declaration.expressions

/-- All expressions of a statement. -/
def Statement.within (statement : Statement) : List Expression :=
  statement.expressions.flatMap Expression.within

/-- All expressions of a compilation unit. -/
def CompilationUnit.within (unit : CompilationUnit) : List Expression :=
  unit.expressions.flatMap Expression.within

/-! ## Queries -/

/-- The query that the expression is, if it is one. -/
def Expression.query? : Expression → Option EmbeddedQuery
  | .primary (.query embedded) => some embedded
  | _ => none

/-- The queries inside an expression, from left to right. -/
def Expression.queries (expression : Expression) : List EmbeddedQuery :=
  expression.within.filterMap Expression.query?

/-- The queries of a compilation unit, from left to right. -/
def CompilationUnit.queries (unit : CompilationUnit) : List EmbeddedQuery :=
  unit.within.filterMap Expression.query?

theorem CompilationUnit.queries_eq_flatMap (unit : CompilationUnit) :
    unit.queries = unit.expressions.flatMap Expression.queries := by
  unfold queries within
  rw [List.filterMap_flatMap]
  rfl

/-! ## The queries of single nodes -/

namespace Expression

/-- The expressions directly below a node, from left to right. -/
def children : Expression → List Expression
  | assignment target _ value => [target, value]
  | conditional condition thenValue elseValue => [condition, thenValue, elseValue]
  | binary _ _ left right => [left, right]
  | unary _ _ operand => [operand]
  | cast _ operand => [operand]
  | instanceOf operand _ => [operand]
  | creation _ body => body.inner
  | arrayAccess array index => [array, index]
  | chain receiver link => receiver :: link.inner
  | call _ items => items
  | parenthesized inner => [inner]
  | primary _ => []

/-- An expression has itself inside it, and all that is inside its children. -/
theorem within_eq (node : Expression) : node.within = node :: node.children.flatMap within := by
  cases node with
  | creation type body => rw [within, CreatorBody.within_eq_flatMap]; rfl
  | chain receiver link => rw [within, Link.within_eq_flatMap]; rfl
  | call name items => rw [within, withinAll_eq_flatMap]; rfl
  | _ => simp [within, children]

/-- A node that is no query has the queries of its children. -/
theorem queries_of_children {node : Expression} (hnode : node.query? = none) :
    node.queries = node.children.flatMap queries := by
  rw [queries, within_eq, List.filterMap_cons_none hnode, List.filterMap_flatMap]
  rfl

theorem queries_assignment (target : Expression) (operator : Text) (value : Expression) :
    (assignment target operator value).queries = target.queries ++ value.queries := by
  rw [queries_of_children rfl]
  simp [children]

theorem queries_conditional (condition thenValue elseValue : Expression) :
    (conditional condition thenValue elseValue).queries =
      condition.queries ++ (thenValue.queries ++ elseValue.queries) := by
  rw [queries_of_children rfl]
  simp [children]

theorem queries_binary (kind : BinaryKind) (operator : Text) (left right : Expression) :
    (binary kind operator left right).queries = left.queries ++ right.queries := by
  rw [queries_of_children rfl]
  simp [children]

theorem queries_unary (fixity : Fixity) (operator : Text) (operand : Expression) :
    (unary fixity operator operand).queries = operand.queries := by
  rw [queries_of_children rfl]
  simp [children]

theorem queries_cast (type : TypeRef) (operand : Expression) :
    (cast type operand).queries = operand.queries := by
  rw [queries_of_children rfl]
  simp [children]

theorem queries_instanceOf (operand : Expression) (type : TypeRef) :
    (instanceOf operand type).queries = operand.queries := by
  rw [queries_of_children rfl]
  simp [children]

theorem queries_creation (type : TypeRef) (body : CreatorBody) :
    (creation type body).queries = body.inner.flatMap queries :=
  queries_of_children rfl

theorem queries_arrayAccess (array index : Expression) :
    (arrayAccess array index).queries = array.queries ++ index.queries := by
  rw [queries_of_children rfl]
  simp [children]

theorem queries_chain (receiver : Expression) (link : Link) :
    (chain receiver link).queries = receiver.queries ++ link.inner.flatMap queries :=
  queries_of_children rfl

theorem queries_call (name : Text) (items : List Expression) :
    (call name items).queries = items.flatMap queries :=
  queries_of_children rfl

theorem queries_parenthesized (inner : Expression) :
    (parenthesized inner).queries = inner.queries := by
  rw [queries_of_children rfl]
  simp [children]

end Expression

end ApexLayout
