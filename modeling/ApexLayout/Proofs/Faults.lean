import ApexLayout.Layout.Declaration
import ApexLayout.Proofs.Induction

/-!
Why a tree is not printed.

Every tree has a list of `faults`: what printing would object to, in the order in which the nodes
stand. A tree is printed exactly when it has none, and otherwise the first one is reported,
whatever the surroundings are.
-/

namespace ApexLayout

/-! ## Outcomes -/

/-- The outcome of printing something with the given faults: a text, or the first fault. -/
def Reports {α : Type} (outcome : Except RenderError α) : List RenderError → Prop
  | [] => ∃ value, outcome = .ok value
  | fault :: _ => outcome = .error fault

namespace Reports

variable {α β : Type} {outcome : Except RenderError α} {faults more : List RenderError}

theorem pure (value : α) : Reports (Pure.pure value : Except RenderError α) [] := ⟨value, rfl⟩

theorem throw (fault : RenderError) : Reports (throw fault : Except RenderError α) [fault] := rfl

/-- The faults of a sequence are those of its parts. -/
theorem bind {next : α → Except RenderError β} (h : Reports outcome faults)
    (hnext : ∀ value, Reports (next value) more) : Reports (outcome >>= next) (faults ++ more) := by
  cases faults with
  | nil =>
    obtain ⟨value, rfl⟩ := h
    exact hnext value
  | cons fault rest =>
    obtain rfl := h
    rfl

theorem map {value : α → β} (h : Reports outcome faults) :
    Reports (outcome >>= fun a => Pure.pure (value a)) faults := by
  have hbind := h.bind fun a => pure (value a)
  rwa [List.append_nil] at hbind

/-- A list of nodes reports the first fault of its members. -/
theorem mapM {γ : Type} {render : γ → Except RenderError β} {items : List γ}
    {itemFaults : γ → List RenderError} (h : ∀ item ∈ items, Reports (render item) (itemFaults item)) :
    Reports (items.mapM render) (items.flatMap itemFaults) := by
  induction items with
  | nil => exact pure []
  | cons item rest ih =>
    obtain ⟨hitem, hrest⟩ := List.forall_mem_cons.1 h
    rw [List.mapM_cons, List.flatMap_cons]
    exact hitem.bind fun _ => (ih hrest).map

theorem option {γ : Type} {render : γ → Except RenderError β} {item : Option γ}
    {itemFaults : γ → List RenderError} (h : ∀ node, Reports (render node) (itemFaults node)) :
    Reports (item.mapM render) (item.toList.flatMap itemFaults) := by
  cases item with
  | none => exact pure none
  | some node =>
    have hbind : Reports (render node >>= fun text => Pure.pure (some text)) (itemFaults node) :=
      (h node).map
    simpa using hbind

/-- Printing succeeds exactly without faults. -/
theorem isOk_iff (h : Reports outcome faults) : (∃ value, outcome = .ok value) ↔ faults = [] := by
  cases faults with
  | nil => exact ⟨fun _ => rfl, fun _ => h⟩
  | cons fault rest =>
    obtain rfl := h
    simp

/-- What is reported is the first fault. -/
theorem eq_error_iff (h : Reports outcome faults) (error : RenderError) :
    outcome = .error error ↔ faults.head? = some error := by
  cases faults with
  | nil =>
    obtain ⟨value, rfl⟩ := h
    simp
  | cons fault rest =>
    obtain rfl := h
    simp

end Reports

/-! ## Types -/

mutual

/-- The faults of a type reference. -/
def TypeRef.faults : TypeRef → List RenderError
  | ⟨[], _⟩ => [.malformed .typeReference .segments]
  | ⟨name :: rest, _⟩ => TypeName.faultsAll (name :: rest)

/-- The faults of names. -/
def TypeName.faultsAll : List TypeName → List RenderError
  | [] => []
  | ⟨_, arguments⟩ :: rest => TypeRef.faultsAll arguments ++ TypeName.faultsAll rest

/-- The faults of type references. -/
def TypeRef.faultsAll : List TypeRef → List RenderError
  | [] => []
  | type :: rest => type.faults ++ TypeRef.faultsAll rest

end

theorem TypeRef.faultsAll_eq_flatMap (types : List TypeRef) :
    TypeRef.faultsAll types = types.flatMap TypeRef.faults := by
  induction types with
  | nil => rfl
  | cons type rest ih => rw [TypeRef.faultsAll, ih, List.flatMap_cons]

theorem TypeName.faultsAll_eq_flatMap (names : List TypeName) : TypeName.faultsAll names =
    (names.flatMap TypeName.arguments).flatMap TypeRef.faults := by
  induction names with
  | nil => rfl
  | cons name rest ih =>
    obtain ⟨name, arguments⟩ := name
    rw [TypeName.faultsAll, ih, TypeRef.faultsAll_eq_flatMap, List.flatMap_cons, List.flatMap_append]

/-- A type that has a name has the faults of its type arguments. -/
theorem TypeRef.faults_eq_flatMap {type : TypeRef} (h : type.segments ≠ []) :
    type.faults = (type.segments.flatMap TypeName.arguments).flatMap TypeRef.faults := by
  obtain ⟨segments, suffix⟩ := type
  obtain ⟨name, rest, rfl⟩ := List.exists_cons_of_ne_nil h
  rw [TypeRef.faults, TypeName.faultsAll_eq_flatMap]

mutual

theorem TypeRef.reports_render : ∀ type : TypeRef, Reports type.render type.faults
  | ⟨[], _⟩ => Reports.throw _
  | ⟨name :: rest, suffix⟩ => by
    rw [TypeRef.render, TypeRef.faults]
    exact (TypeName.reports_renderAll (name :: rest)).map

theorem TypeName.reports_render : ∀ name : TypeName,
    Reports name.render (TypeRef.faultsAll name.arguments)
  | ⟨_, []⟩ => Reports.pure _
  | ⟨name, first :: rest⟩ => by
    rw [TypeName.render]
    exact (TypeRef.reports_renderAll (first :: rest)).map

theorem TypeName.reports_renderAll : ∀ names : List TypeName,
    Reports (TypeName.renderAll names) (TypeName.faultsAll names)
  | [] => Reports.pure _
  | ⟨name, arguments⟩ :: rest => by
    rw [TypeName.renderAll, TypeName.faultsAll]
    exact (TypeName.reports_render ⟨name, arguments⟩).bind fun _ =>
      (TypeName.reports_renderAll rest).map

theorem TypeRef.reports_renderAll : ∀ types : List TypeRef,
    Reports (TypeRef.renderAll types) (TypeRef.faultsAll types)
  | [] => Reports.pure _
  | type :: rest => by
    rw [TypeRef.renderAll, TypeRef.faultsAll]
    exact (TypeRef.reports_render type).bind fun _ => (TypeRef.reports_renderAll rest).map

end

/-! ## Expressions -/

/-- The fault of a node that lacks its operator. -/
def operatorFaults (kind : NodeKind) (operator : Text) : List RenderError :=
  if operator.isEmpty then [.malformed kind .operator] else []

theorem operatorFaults_eq_nil (kind : NodeKind) {operator : Text} (h : operator ≠ []) :
    operatorFaults kind operator = [] :=
  if_neg (by simpa using h)

theorem reports_requireOperator (kind : NodeKind) (operator : Text) :
    Reports (requireOperator kind operator) (operatorFaults kind operator) := by
  unfold requireOperator operatorFaults
  split
  · exact Reports.throw _
  · exact Reports.pure ()

/-- The faults of a primary expression; a query always is one. -/
def Primary.faults : Primary → List RenderError
  | .path type => type.faults
  | .classLiteral type => type.faults
  | .query embedded => [.unsupported .embeddedQuery embedded.position]
  | _ => []

theorem Primary.reports_render (leaf : Primary) : Reports leaf.render leaf.faults := by
  cases leaf with
  | path type => exact type.reports_render
  | classLiteral type => exact type.reports_render.map
  | query embedded => exact Reports.throw _
  | _ => exact Reports.pure _

mutual

/-- The faults of an expression, in the order of its parts. -/
def Expression.faults : Expression → List RenderError
  | .assignment target operator value =>
    operatorFaults .assignment operator ++ (target.faults ++ value.faults)
  | .conditional condition thenValue elseValue =>
    condition.faults ++ (thenValue.faults ++ elseValue.faults)
  | .binary _ operator left right =>
    operatorFaults .binary operator ++ (left.faults ++ right.faults)
  | .unary _ operator operand => operatorFaults .unary operator ++ operand.faults
  | .cast type operand => type.faults ++ operand.faults
  | .instanceOf operand type => operand.faults ++ type.faults
  | .creation type body => type.faults ++ body.faults
  | .arrayAccess array index => array.faults ++ index.faults
  | .chain receiver link => receiver.faults ++ link.faults
  | .call _ arguments => Expression.faultsAll arguments
  | .parenthesized inner => inner.faults
  | .primary leaf => leaf.faults

/-- The faults of a link. -/
def Link.faults : Link → List RenderError
  | ⟨_, [], _⟩ => [.malformed .chain .memberName]
  | ⟨_, _ :: _, none⟩ => []
  | ⟨_, _ :: _, some arguments⟩ => Expression.faultsAll arguments

/-- The faults of what follows the type in a `new` expression. -/
def CreatorBody.faults : CreatorBody → List RenderError
  | .arguments items => Expression.faultsAll items
  | .arraySize size => size.faults
  | .elements items => Expression.faultsAll items
  | .entries items => Expression.faultsEntries items

/-- The faults of expressions. -/
def Expression.faultsAll : List Expression → List RenderError
  | [] => []
  | expression :: rest => expression.faults ++ Expression.faultsAll rest

/-- The faults of map entries. -/
def Expression.faultsEntries : List (Expression × Expression) → List RenderError
  | [] => []
  | (key, value) :: rest => key.faults ++ (value.faults ++ Expression.faultsEntries rest)

end

theorem Expression.faultsAll_eq_flatMap (items : List Expression) :
    Expression.faultsAll items = items.flatMap Expression.faults := by
  induction items with
  | nil => rfl
  | cons item rest ih => rw [Expression.faultsAll, ih, List.flatMap_cons]

theorem Expression.faultsEntries_eq_flatMap (items : List (Expression × Expression)) :
    Expression.faultsEntries items =
      (items.flatMap fun item => [item.1, item.2]).flatMap Expression.faults := by
  induction items with
  | nil => rfl
  | cons item rest ih =>
    obtain ⟨key, value⟩ := item
    rw [Expression.faultsEntries, ih]
    simp

/-- The body of a `new` expression has the faults of the expressions inside it. -/
theorem CreatorBody.faults_eq_flatMap (body : CreatorBody) :
    body.faults = body.inner.flatMap Expression.faults := by
  cases body with
  | arguments items => exact Expression.faultsAll_eq_flatMap items
  | arraySize size => exact (List.flatMap_singleton ..).symm
  | elements items => exact Expression.faultsAll_eq_flatMap items
  | entries items => exact Expression.faultsEntries_eq_flatMap items

/-- A link that names its member has the faults of its arguments. -/
theorem Link.faults_eq_flatMap {link : Link} (h : link.member ≠ []) :
    link.faults = link.inner.flatMap Expression.faults := by
  obtain ⟨navigation, member, arguments⟩ := link
  obtain ⟨first, rest, rfl⟩ := List.exists_cons_of_ne_nil h
  cases arguments with
  | none => rfl
  | some items => exact Expression.faultsAll_eq_flatMap items

mutual

theorem Expression.reports_renderWithin (context : Context) (outer : Option ChainLayout) :
    ∀ expression : Expression,
      Reports (expression.renderWithin context outer) expression.faults
  | .assignment target operator value => by
    rw [Expression.renderWithin, Expression.faults]
    exact (reports_requireOperator _ operator).bind fun _ =>
      (target.reports_renderWithin context none).bind fun _ =>
        (value.reports_renderWithin context none).map
  | .conditional condition thenValue elseValue => by
    rw [Expression.renderWithin, Expression.faults]
    exact (condition.reports_renderWithin context none).bind fun _ =>
      (thenValue.reports_renderWithin context none).bind fun _ =>
        (elseValue.reports_renderWithin context none).map
  | .binary _ operator left right => by
    rw [Expression.renderWithin, Expression.faults]
    exact (reports_requireOperator _ operator).bind fun _ =>
      (left.reports_renderWithin context none).bind fun _ =>
        (right.reports_renderWithin context none).map
  | .unary fixity operator operand => by
    rw [Expression.renderWithin, Expression.faults]
    refine (reports_requireOperator _ operator).bind fun _ => ?_
    cases fixity <;> exact (operand.reports_renderWithin context none).map
  | .cast type operand => by
    rw [Expression.renderWithin, Expression.faults]
    exact type.reports_render.bind fun _ => (operand.reports_renderWithin context none).map
  | .instanceOf operand type => by
    rw [Expression.renderWithin, Expression.faults]
    exact (operand.reports_renderWithin context none).bind fun _ => type.reports_render.map
  | .creation type body => by
    rw [Expression.renderWithin, Expression.faults]
    exact type.reports_render.bind fun _ => (body.reports_render context.inlined).map
  | .arrayAccess array index => by
    rw [Expression.renderWithin, Expression.faults]
    exact (array.reports_renderWithin context none).bind fun _ =>
      (index.reports_renderWithin context none).map
  | .chain receiver link => by
    rw [Expression.renderWithin, Expression.faults]
    exact (receiver.reports_renderWithin context _).bind fun _ => (link.reports_render _).map
  | .call name arguments => by
    rw [Expression.renderWithin, Expression.faults]
    exact (Expression.reports_renderAll context.inlined arguments).map
  | .parenthesized inner => by
    rw [Expression.renderWithin, Expression.faults]
    exact (inner.reports_renderWithin context none).map
  | .primary leaf => by
    rw [Expression.renderWithin, Expression.faults]
    exact leaf.reports_render

theorem Link.reports_render (context : Context) : ∀ link : Link,
    Reports (link.render context) link.faults
  | ⟨_, [], _⟩ => Reports.throw _
  | ⟨_, _ :: _, none⟩ => Reports.pure _
  | ⟨navigation, first :: rest, some arguments⟩ => by
    rw [Link.render, Link.faults]
    exact (Expression.reports_renderAll context.inlined arguments).map

theorem CreatorBody.reports_render (context : Context) : ∀ body : CreatorBody,
    Reports (body.render context) body.faults
  | .arguments items => by
    rw [CreatorBody.render, CreatorBody.faults]
    exact (Expression.reports_renderAll context items).map
  | .arraySize size => by
    rw [CreatorBody.render, CreatorBody.faults]
    exact (size.reports_renderWithin context none).map
  | .elements items => by
    rw [CreatorBody.render, CreatorBody.faults]
    exact (Expression.reports_renderAll context items).map
  | .entries items => by
    rw [CreatorBody.render, CreatorBody.faults]
    exact (Expression.reports_renderEntries context items).map

theorem Expression.reports_renderAll (context : Context) : ∀ items : List Expression,
    Reports (Expression.renderAll context items) (Expression.faultsAll items)
  | [] => Reports.pure _
  | item :: rest => by
    rw [Expression.renderAll, Expression.faultsAll]
    exact (item.reports_renderWithin context none).bind fun _ =>
      (Expression.reports_renderAll context rest).map

theorem Expression.reports_renderEntries (context : Context) :
    ∀ items : List (Expression × Expression),
      Reports (Expression.renderEntries context items) (Expression.faultsEntries items)
  | [] => Reports.pure _
  | (key, value) :: rest => by
    rw [Expression.renderEntries, Expression.faultsEntries]
    exact (key.reports_renderWithin context none).bind fun _ =>
      (value.reports_renderWithin context none).bind fun _ =>
        (Expression.reports_renderEntries context rest).map

end

/-- An expression is printed exactly without faults, and otherwise the first is reported. -/
theorem Expression.reports_render (context : Context) (expression : Expression) :
    Reports (expression.render context) expression.faults :=
  expression.reports_renderWithin context none

/-! ## Statements -/

/-- The faults of a declarator. -/
def Declarator.faults (declarator : Declarator) : List RenderError :=
  declarator.initializer.toList.flatMap Expression.faults

theorem Declarator.reports_render (context : Context) (declarator : Declarator) :
    Reports (declarator.render context) declarator.faults := by
  obtain ⟨name, initializer⟩ := declarator
  cases initializer with
  | none => exact Reports.pure _
  | some value =>
    unfold Declarator.render Declarator.faults
    simpa using (value.reports_render context).map

/-- The faults of a declaration of variables by a node of the given kind. -/
def VariableDeclaration.faults (kind : NodeKind) (declaration : VariableDeclaration) :
    List RenderError :=
  declaration.type.faults ++
    if declaration.declarators.isEmpty then [.malformed kind .declarators]
    else declaration.declarators.flatMap Declarator.faults

/-- Variables that are named have the faults of their type and of their values. -/
theorem VariableDeclaration.faults_eq_append {declaration : VariableDeclaration} (kind : NodeKind)
    (h : declaration.declarators ≠ []) : declaration.faults kind =
      declaration.type.faults ++ declaration.declarators.flatMap Declarator.faults := by
  rw [VariableDeclaration.faults, if_neg (by simpa using h)]

theorem VariableDeclaration.reports_render (context : Context) (kind : NodeKind)
    (declaration : VariableDeclaration) :
    Reports (declaration.render context kind) (declaration.faults kind) := by
  unfold VariableDeclaration.render VariableDeclaration.faults Declarator.renderList
  refine declaration.type.reports_render.bind fun _ => ?_
  split
  · exact (Reports.throw _).map
  · exact (Reports.mapM fun item _ => item.reports_render context).map.map

/-- The faults of what a counting loop begins with. -/
def ForInit.faults : ForInit → List RenderError
  | .variables declaration => declaration.faults .localVariable
  | .expressions items => Expression.faultsAll items

theorem ForInit.reports_render (context : Context) (init : ForInit) :
    Reports (init.render context) init.faults := by
  cases init with
  | «variables» declaration => exact declaration.reports_render context .localVariable
  | expressions items => exact (Expression.reports_renderAll context items).map

/-- The faults of the header of a `for` loop. -/
def ForControl.faults : ForControl → List RenderError
  | .each _ type _ iterable => type.faults ++ iterable.faults
  | .counting init condition update =>
    init.toList.flatMap ForInit.faults ++
      (condition.toList.flatMap Expression.faults ++ Expression.faultsAll update)

theorem ForControl.reports_render (context : Context) (control : ForControl) :
    Reports (control.render context) control.faults := by
  cases control with
  | each modifiers type name iterable =>
    exact type.reports_render.bind fun _ => (iterable.reports_render context).map
  | counting init condition update =>
    unfold ForControl.render ForControl.faults
    exact (Reports.option fun node => node.reports_render context).bind fun _ =>
      (Reports.option fun node => node.reports_render context).bind fun _ =>
        (Expression.reports_renderAll context update).map

mutual

/-- The faults of a statement, in the order of its parts. -/
def Statement.faults : Statement → List RenderError
  | .block body => Statement.faultsAll body
  | .ifElse condition thenBranch none => condition.faults ++ thenBranch.faults
  | .ifElse condition thenBranch (some branch) =>
    condition.faults ++ (thenBranch.faults ++ branch.faults)
  | .whileLoop condition body => condition.faults ++ body.faults
  | .forLoop control body => control.faults ++ body.faults
  | .tryCatch body catches none => Statement.faultsAll body ++ CatchClause.faultsAll catches
  | .tryCatch body catches (some last) =>
    Statement.faultsAll body ++ (CatchClause.faultsAll catches ++ Statement.faultsAll last)
  | .returnValue value => value.toList.flatMap Expression.faults
  | .throwValue value => value.faults
  | .breakLoop => []
  | .continueLoop => []
  | .dml _ operand => operand.faults
  | .variables declaration => declaration.faults .localVariable
  | .expression value => value.faults

/-- The faults of statements. -/
def Statement.faultsAll : List Statement → List RenderError
  | [] => []
  | statement :: rest => statement.faults ++ Statement.faultsAll rest

/-- The faults of `catch` clauses. -/
def CatchClause.faultsAll : List CatchClause → List RenderError
  | [] => []
  | ⟨_, type, _, body⟩ :: rest =>
    type.faults ++ Statement.faultsAll body ++ CatchClause.faultsAll rest

end

mutual

theorem Statement.reports_render (context : Context) : ∀ statement : Statement,
    Reports (statement.render context) statement.faults
  | .block body => by
    rw [Statement.render, Statement.faults]
    exact (Statement.reports_renderAll context.deeper body).map
  | .ifElse condition thenBranch none => by
    rw [Statement.render, Statement.faults]
    exact (condition.reports_render context.inlined).bind fun _ =>
      (thenBranch.reports_render _).map
  | .ifElse condition thenBranch (some branch) => by
    rw [Statement.render, Statement.faults]
    exact (condition.reports_render context.inlined).bind fun _ =>
      (thenBranch.reports_render _).bind fun _ => (branch.reports_render _).map
  | .whileLoop condition body => by
    rw [Statement.render, Statement.faults]
    exact (condition.reports_render context.inlined).bind fun _ => (body.reports_render _).map
  | .forLoop control body => by
    rw [Statement.render, Statement.faults]
    exact (control.reports_render context.inlined).bind fun _ => (body.reports_render _).map
  | .tryCatch body catches none => by
    rw [Statement.render, Statement.faults]
    exact (Statement.reports_renderAll context.deeper body).bind fun _ =>
      (CatchClause.reports_renderAll context catches).map
  | .tryCatch body catches (some last) => by
    rw [Statement.render, Statement.faults]
    exact (Statement.reports_renderAll context.deeper body).bind fun _ =>
      (CatchClause.reports_renderAll context catches).bind fun _ =>
        (Statement.reports_renderAll context.deeper last).map
  | .returnValue none => Reports.pure _
  | .returnValue (some value) => by
    rw [Statement.render, Statement.faults]
    simpa using (value.reports_render context).map
  | .throwValue value => by
    rw [Statement.render, Statement.faults]
    exact (value.reports_render context).map
  | .breakLoop => Reports.pure _
  | .continueLoop => Reports.pure _
  | .dml operation operand => by
    rw [Statement.render, Statement.faults]
    exact (operand.reports_render context).map
  | .variables declaration => by
    rw [Statement.render, Statement.faults]
    exact (declaration.reports_render context .localVariable).map
  | .expression value => by
    rw [Statement.render, Statement.faults]
    exact (value.reports_render context).map

theorem Statement.reports_renderAll (context : Context) : ∀ body : List Statement,
    Reports (Statement.renderAll context body) (Statement.faultsAll body)
  | [] => Reports.pure _
  | statement :: rest => by
    rw [Statement.renderAll, Statement.faultsAll]
    exact (statement.reports_render context).bind fun _ =>
      (Statement.reports_renderAll context rest).map

theorem CatchClause.reports_renderAll (context : Context) : ∀ catches : List CatchClause,
    Reports (CatchClause.renderAll context catches) (CatchClause.faultsAll catches)
  | [] => Reports.pure _
  | ⟨modifiers, type, name, body⟩ :: rest => by
    rw [CatchClause.renderAll, CatchClause.faultsAll, CatchClause.render]
    exact (type.reports_render.bind fun _ =>
      (Statement.reports_renderAll context.deeper body).map).bind fun _ =>
        (CatchClause.reports_renderAll context rest).map

end

/-- The faults of a block. -/
def Block.faults (body : Block) : List RenderError := body.flatMap Statement.faults

theorem Statement.faultsAll_eq_flatMap (body : List Statement) :
    Statement.faultsAll body = body.flatMap Statement.faults := by
  induction body with
  | nil => rfl
  | cons statement rest ih => rw [Statement.faultsAll, ih, List.flatMap_cons]

theorem Block.reports_render (context : Context) (body : Block) :
    Reports (Block.render context body) (Block.faults body) := by
  unfold Block.faults
  rw [← Statement.faultsAll_eq_flatMap]
  exact (Statement.reports_renderAll context.deeper body).map

/-- The faults of a `catch` clause. -/
def CatchClause.faults (clause : CatchClause) : List RenderError :=
  clause.type.faults ++ Block.faults clause.body

theorem CatchClause.faultsAll_eq_flatMap (catches : List CatchClause) :
    CatchClause.faultsAll catches = catches.flatMap CatchClause.faults := by
  induction catches with
  | nil => rfl
  | cons clause rest ih =>
    obtain ⟨modifiers, type, name, body⟩ := clause
    rw [CatchClause.faultsAll, ih, List.flatMap_cons, Statement.faultsAll_eq_flatMap]
    rfl

theorem CatchClause.reports_render (context : Context) (clause : CatchClause) :
    Reports (clause.render context) clause.faults := by
  obtain ⟨modifiers, type, name, body⟩ := clause
  rw [CatchClause.render, CatchClause.faults, Block.faults, ← Statement.faultsAll_eq_flatMap]
  exact type.reports_render.bind fun _ => (Statement.reports_renderAll context.deeper body).map

/-! ## Declarations -/

/-- The faults of parameters. -/
def Parameter.faultsAll (parameters : List Parameter) : List RenderError :=
  parameters.flatMap fun parameter => parameter.type.faults

theorem Parameter.reports_renderList (parameters : List Parameter) :
    Reports (Parameter.renderList parameters) (Parameter.faultsAll parameters) :=
  (Reports.mapM fun parameter _ => parameter.type.reports_render.map).map

/-- The faults of a body that may be absent. -/
def Block.faultsOf (body : Option Block) : List RenderError := body.toList.flatMap Block.faults

theorem Block.reports_renderOrSemicolon (context : Context) (body : Option Block) :
    Reports (Block.renderOrSemicolon context body) (Block.faultsOf body) := by
  cases body with
  | none => exact Reports.pure _
  | some body =>
    unfold Block.renderOrSemicolon Block.faultsOf
    simpa using (Block.reports_render context body).map

/-- The faults of a type that may be absent. -/
def TypeRef.faultsOf (type : Option TypeRef) : List RenderError :=
  type.toList.flatMap TypeRef.faults

theorem TypeRef.reports_renderOrVoid (type : Option TypeRef) :
    Reports (TypeRef.renderOrVoid type) (TypeRef.faultsOf type) := by
  cases type with
  | none => exact Reports.pure _
  | some type => simpa [TypeRef.renderOrVoid, TypeRef.faultsOf] using type.reports_render

/-- The faults of a method. -/
def Method.faults (method : Method) : List RenderError :=
  TypeRef.faultsOf method.returnType ++
    (Parameter.faultsAll method.parameters ++ Block.faultsOf method.body)

theorem Method.reports_render (context : Context) (method : Method) :
    Reports (method.render context) method.faults :=
  (TypeRef.reports_renderOrVoid _).bind fun _ => (Parameter.reports_renderList _).bind fun _ =>
    (Block.reports_renderOrSemicolon context _).map

/-- The faults of a constructor. -/
def Constructor.faults (constructor : Constructor) : List RenderError :=
  if constructor.name.isEmpty then [.malformed .constructor .constructorName]
  else Parameter.faultsAll constructor.parameters ++ Block.faults constructor.body

theorem Constructor.reports_render (context : Context) (constructor : Constructor) :
    Reports (constructor.render context) constructor.faults := by
  unfold Constructor.render Constructor.faults
  split
  · exact Reports.throw _
  · exact (Parameter.reports_renderList _).bind fun _ => (Block.reports_render context _).map

/-- The faults of an accessor. -/
def Accessor.faults (accessor : Accessor) : List RenderError := Block.faultsOf accessor.body

theorem Accessor.reports_render (context : Context) (accessor : Accessor) :
    Reports (accessor.render context) accessor.faults :=
  (Block.reports_renderOrSemicolon context _).map

/-- The faults of a property. -/
def Property.faults (property : Property) : List RenderError :=
  property.type.faults ++ property.accessors.flatMap Accessor.faults

theorem Property.reports_render (context : Context) (property : Property) :
    Reports (property.render context) property.faults :=
  property.type.reports_render.bind fun _ =>
    (Reports.mapM fun accessor _ => accessor.reports_render context.deeper).map

theorem Initializer.reports_render (context : Context) (initializer : Initializer) :
    Reports (initializer.render context) (Block.faults initializer.body) :=
  (Block.reports_render context _).map

theorem TypeRef.reports_renderClause (keyword : Text) (types : List TypeRef) :
    Reports (TypeRef.renderClause keyword types) (TypeRef.faultsAll types) := by
  cases types with
  | nil => exact Reports.pure _
  | cons first rest => exact (TypeRef.reports_renderAll (first :: rest)).map.map

mutual

/-- The faults of a type declaration, in the order of its parts. -/
def Declaration.faults : Declaration → List RenderError
  | .classType _ _ parent interfaces body =>
    TypeRef.faultsAll parent.toList ++ (TypeRef.faultsAll interfaces ++ Member.faultsAll body)
  | .interfaceType _ _ parents body => TypeRef.faultsAll parents ++ Member.faultsAll body
  | .enumType .. => []

/-- The faults of a member. -/
def Member.faults : Member → List RenderError
  | .method method => method.faults
  | .field declaration => declaration.faults .field
  | .constructor constructor => constructor.faults
  | .property property => property.faults
  | .initializer initializer => Block.faults initializer.body
  | .declaration nested => nested.faults
  | .empty => []

/-- The faults of members. -/
def Member.faultsAll : List Member → List RenderError
  | [] => []
  | member :: rest => member.faults ++ Member.faultsAll rest

end

theorem Member.faultsAll_eq_flatMap (body : List Member) :
    Member.faultsAll body = body.flatMap Member.faults := by
  induction body with
  | nil => rfl
  | cons member rest ih => rw [Member.faultsAll, ih, List.flatMap_cons]

mutual

theorem Declaration.reports_render (context : Context) : ∀ declaration : Declaration,
    Reports (declaration.render context) declaration.faults
  | .classType modifiers name parent interfaces body => by
    rw [Declaration.render, Declaration.faults]
    exact (TypeRef.reports_renderClause _ _).bind fun _ =>
      (TypeRef.reports_renderClause _ _).bind fun _ =>
        (Member.reports_renderAll context.deeper body).map
  | .interfaceType modifiers name parents body => by
    rw [Declaration.render, Declaration.faults]
    exact (TypeRef.reports_renderClause _ _).bind fun _ =>
      (Member.reports_renderAll context.deeper body).map
  | .enumType .. => Reports.pure _

theorem Member.reports_render (context : Context) : ∀ member : Member,
    Reports (member.render context) member.faults
  | .method method => by
    rw [Member.render, Member.faults]
    exact method.reports_render context
  | .field declaration => by
    rw [Member.render, Member.faults]
    exact (declaration.reports_render context .field).map
  | .constructor constructor => by
    rw [Member.render, Member.faults]
    exact constructor.reports_render context
  | .property property => by
    rw [Member.render, Member.faults]
    exact property.reports_render context
  | .initializer initializer => by
    rw [Member.render, Member.faults]
    exact initializer.reports_render context
  | .declaration nested => by
    rw [Member.render, Member.faults]
    exact nested.reports_render context
  | .empty => Reports.pure _

theorem Member.reports_renderAll (context : Context) : ∀ body : List Member,
    Reports (Member.renderAll context body) (Member.faultsAll body)
  | [] => Reports.pure _
  | member :: rest => by
    rw [Member.renderAll, Member.faultsAll]
    exact (member.reports_render context).bind fun _ =>
      (Member.reports_renderAll context rest).map

end

/-- The faults of a compilation unit. -/
def CompilationUnit.faults (unit : CompilationUnit) : List RenderError := unit.declaration.faults

theorem CompilationUnit.reports_render (context : Context) (unit : CompilationUnit) :
    Reports (unit.render context) unit.faults :=
  unit.declaration.reports_render context

end ApexLayout
