import ApexLayout.Proofs.Faults
import ApexLayout.Proofs.Parts

/-!
What is printed holds no query.

A query is the only part without a printed form, and it always is a fault. A tree without faults
therefore has no query among its parts, whatever stands around it.
-/

namespace ApexLayout

variable {context : Context} {text : Text}

/-! ## Rows -/

@[simp] theorem Part.query_ne_word (text : Text) : Part.query ≠ .word text := nofun

@[simp] theorem Part.query_ne_symbol (text : Text) : Part.query ≠ .symbol text := nofun

theorem noQuery_rows {separator : Text} {rows : List (List Part)} (h : ∀ row ∈ rows, .query ∉ row) :
    .query ∉ rowsBy (.symbol separator) rows := by
  intro hquery
  rcases mem_rowsBy hquery with hseparator | ⟨row, hrow, hquery⟩
  · exact absurd hseparator (Part.query_ne_symbol separator)
  · exact h row hrow hquery

theorem noQuery_list {opening closing : Text} {rows : List (List Part)}
    (h : ∀ row ∈ rows, .query ∉ row) : .query ∉ listParts opening closing rows := by
  simpa [listParts] using noQuery_rows h

theorem noQuery_block {rows : List (List Part)} (h : ∀ row ∈ rows, .query ∉ row) :
    .query ∉ blockParts rows := by
  intro hquery
  simp only [blockParts, List.mem_cons, List.mem_append, List.mem_flatten, List.not_mem_nil,
    Part.query_ne_symbol, or_false, false_or] at hquery
  obtain ⟨row, hrow, hquery⟩ := hquery
  exact h row hrow hquery

@[simp] theorem noQuery_modifiers (modifiers : List Modifier) : .query ∉ modifierParts modifiers := by
  simp [modifierParts]

theorem noQuery_body {parts : List Part} (bare : Bool) (h : .query ∉ parts) :
    .query ∉ bodyParts bare parts := by
  cases bare with
  | true => exact h
  | false => exact noQuery_block (List.forall_mem_singleton.2 h)

/-! ## Expressions -/

theorem Primary.noQuery (leaf : Primary) (h : leaf.faults = []) : .query ∉ leaf.parts := by
  cases leaf with
  | query embedded => cases h
  | _ => simp [Primary.parts]

mutual

theorem Expression.noQuery : ∀ expression : Expression, expression.faults = [] →
    .query ∉ expression.parts
  | .assignment target operator value, h => by
    simp only [Expression.faults, List.append_eq_nil_iff] at h
    simp [Expression.parts, target.noQuery h.2.1, value.noQuery h.2.2]
  | .conditional condition thenValue elseValue, h => by
    simp only [Expression.faults, List.append_eq_nil_iff] at h
    simp [Expression.parts, condition.noQuery h.1, thenValue.noQuery h.2.1,
      elseValue.noQuery h.2.2]
  | .binary kind operator left right, h => by
    simp only [Expression.faults, List.append_eq_nil_iff] at h
    simp [Expression.parts, left.noQuery h.2.1, right.noQuery h.2.2]
  | .unary .leading operator operand, h => by
    simp only [Expression.faults, List.append_eq_nil_iff] at h
    simp [Expression.parts, operand.noQuery h.2]
  | .unary .trailing operator operand, h => by
    simp only [Expression.faults, List.append_eq_nil_iff] at h
    simp [Expression.parts, operand.noQuery h.2]
  | .cast type operand, h => by
    simp only [Expression.faults, List.append_eq_nil_iff] at h
    simp [Expression.parts, operand.noQuery h.2]
  | .instanceOf operand type, h => by
    simp only [Expression.faults, List.append_eq_nil_iff] at h
    simp [Expression.parts, operand.noQuery h.1]
  | .creation type body, h => by
    simp only [Expression.faults, List.append_eq_nil_iff] at h
    simp [Expression.parts, body.noQuery h.2]
  | .arrayAccess array index, h => by
    simp only [Expression.faults, List.append_eq_nil_iff] at h
    simp [Expression.parts, array.noQuery h.1, index.noQuery h.2]
  | .chain receiver link, h => by
    simp only [Expression.faults, List.append_eq_nil_iff] at h
    simp [Expression.parts, receiver.noQuery h.1, link.noQuery h.2]
  | .call name arguments, h => by
    rw [Expression.faults] at h
    simp [Expression.parts, noQuery_list (Expression.noQuery_all arguments h)]
  | .parenthesized inner, h => by
    rw [Expression.faults] at h
    simp [Expression.parts, inner.noQuery h]
  | .primary leaf, h => by
    rw [Expression.faults] at h
    exact leaf.noQuery h

theorem Link.noQuery : ∀ link : Link, link.faults = [] → .query ∉ link.parts
  | ⟨_, [], _⟩, h => by cases h
  | ⟨_, _ :: _, none⟩, _ => by simp [Link.parts]
  | ⟨_, _ :: _, some arguments⟩, h => by
    rw [Link.faults] at h
    simp [Link.parts, noQuery_list (Expression.noQuery_all arguments h)]

theorem CreatorBody.noQuery : ∀ body : CreatorBody, body.faults = [] → .query ∉ body.parts
  | .arguments items, h => noQuery_list (Expression.noQuery_all items h)
  | .arraySize size, h => by
    rw [CreatorBody.faults] at h
    simp [CreatorBody.parts, size.noQuery h]
  | .elements items, h => noQuery_list (Expression.noQuery_all items h)
  | .entries items, h => noQuery_list (Expression.noQuery_entries items h)

theorem Expression.noQuery_all : ∀ items : List Expression, Expression.faultsAll items = [] →
    ∀ row ∈ Expression.partsAll items, .query ∉ row
  | [], _ => by simp [Expression.partsAll]
  | item :: rest, h => by
    simp only [Expression.faultsAll, List.append_eq_nil_iff] at h
    rw [Expression.partsAll, List.forall_mem_cons]
    exact ⟨item.noQuery h.1, Expression.noQuery_all rest h.2⟩

theorem Expression.noQuery_entries : ∀ items : List (Expression × Expression),
    Expression.faultsEntries items = [] → ∀ row ∈ Expression.partsEntries items, .query ∉ row
  | [], _ => by simp [Expression.partsEntries]
  | (key, value) :: rest, h => by
    simp only [Expression.faultsEntries, List.append_eq_nil_iff] at h
    rw [Expression.partsEntries, List.forall_mem_cons]
    refine ⟨?_, Expression.noQuery_entries rest h.2.2⟩
    simp [key.noQuery h.1, value.noQuery h.2.1]

end

/-! ## Statements -/

theorem Declarator.noQuery (declarator : Declarator) (h : declarator.faults = []) :
    .query ∉ declarator.parts := by
  obtain ⟨name, initializer⟩ := declarator
  cases initializer with
  | none => simp [Declarator.parts]
  | some value =>
    have hvalue : value.faults = [] := by simpa [Declarator.faults] using h
    simp [Declarator.parts, value.noQuery hvalue]

theorem VariableDeclaration.noQuery {kind : NodeKind} (declaration : VariableDeclaration)
    (h : declaration.faults kind = []) : .query ∉ declaration.parts := by
  simp only [VariableDeclaration.faults, List.append_eq_nil_iff] at h
  obtain ⟨-, hdeclarators⟩ := h
  split at hdeclarators
  · cases hdeclarators
  · rw [List.flatMap_eq_nil_iff] at hdeclarators
    have hrows : .query ∉ rowsBy (.symbol ",") (declaration.declarators.map Declarator.parts) :=
      noQuery_rows
        (List.forall_mem_map.2 fun item hitem => item.noQuery (hdeclarators item hitem))
    simpa [VariableDeclaration.parts] using hrows

theorem noQuery_expressions {items : List Expression} (h : Expression.faultsAll items = []) :
    .query ∉ expressionsParts items := by
  have hrows := Expression.noQuery_all items h
  rw [Expression.partsAll_eq_map] at hrows
  exact noQuery_rows hrows

theorem ForInit.noQuery (init : ForInit) (h : init.faults = []) : .query ∉ init.parts := by
  cases init with
  | «variables» declaration => exact declaration.noQuery h
  | expressions items => exact noQuery_expressions h

theorem ForControl.noQuery (control : ForControl) (h : control.faults = []) :
    .query ∉ control.parts := by
  cases control with
  | each modifiers type name iterable =>
    simp only [ForControl.faults, List.append_eq_nil_iff] at h
    simp [ForControl.parts, iterable.noQuery h.2]
  | counting init condition update =>
    simp only [ForControl.faults, List.append_eq_nil_iff] at h
    obtain ⟨hinit, hcondition, hupdate⟩ := h
    have hfirst : .query ∉ init.elim [] ForInit.parts := by
      cases init with
      | none => simp
      | some init => exact init.noQuery (by simpa using hinit)
    have hsecond : .query ∉ condition.elim [] Expression.parts := by
      cases condition with
      | none => simp
      | some condition => exact condition.noQuery (by simpa using hcondition)
    simp [ForControl.parts, hfirst, hsecond, noQuery_expressions hupdate]

mutual

theorem Statement.noQuery : ∀ statement : Statement, statement.faults = [] →
    .query ∉ statement.parts
  | .block body, h => noQuery_block (Statement.noQuery_all body h)
  | .ifElse condition thenBranch none, h => by
    simp only [Statement.faults, List.append_eq_nil_iff] at h
    simp [Statement.parts, condition.noQuery h.1,
      noQuery_body _ (thenBranch.noQuery h.2)]
  | .ifElse condition thenBranch (some branch), h => by
    simp only [Statement.faults, List.append_eq_nil_iff] at h
    simp [Statement.parts, condition.noQuery h.1,
      noQuery_body _ (thenBranch.noQuery h.2.1), noQuery_body _ (branch.noQuery h.2.2)]
  | .whileLoop condition body, h => by
    simp only [Statement.faults, List.append_eq_nil_iff] at h
    simp [Statement.parts, condition.noQuery h.1,
      noQuery_body _ (body.noQuery h.2)]
  | .forLoop control body, h => by
    simp only [Statement.faults, List.append_eq_nil_iff] at h
    simp [Statement.parts, control.noQuery h.1,
      noQuery_body _ (body.noQuery h.2)]
  | .tryCatch body catches none, h => by
    simp only [Statement.faults, List.append_eq_nil_iff] at h
    simp [Statement.parts, noQuery_block (Statement.noQuery_all body h.1),
      CatchClause.noQuery_all catches h.2]
  | .tryCatch body catches (some last), h => by
    simp only [Statement.faults, List.append_eq_nil_iff] at h
    simp [Statement.parts, noQuery_block (Statement.noQuery_all body h.1),
      CatchClause.noQuery_all catches h.2.1, noQuery_block (Statement.noQuery_all last h.2.2)]
  | .returnValue none, _ => by simp [Statement.parts]
  | .returnValue (some value), h => by
    have hvalue : value.faults = [] := by simpa [Statement.faults] using h
    simp [Statement.parts, value.noQuery hvalue]
  | .throwValue value, h => by
    rw [Statement.faults] at h
    simp [Statement.parts, value.noQuery h]
  | .breakLoop, _ => by simp [Statement.parts]
  | .continueLoop, _ => by simp [Statement.parts]
  | .dml operation operand, h => by
    rw [Statement.faults] at h
    simp [Statement.parts, operand.noQuery h]
  | .variables declaration, h => by
    rw [Statement.faults] at h
    simp [Statement.parts, declaration.noQuery h]
  | .expression value, h => by
    rw [Statement.faults] at h
    simp [Statement.parts, value.noQuery h]

theorem Statement.noQuery_all : ∀ body : List Statement, Statement.faultsAll body = [] →
    ∀ row ∈ Statement.partsAll body, .query ∉ row
  | [], _ => by simp [Statement.partsAll]
  | statement :: rest, h => by
    simp only [Statement.faultsAll, List.append_eq_nil_iff] at h
    rw [Statement.partsAll, List.forall_mem_cons]
    exact ⟨statement.noQuery h.1, Statement.noQuery_all rest h.2⟩

theorem CatchClause.noQuery_all : ∀ catches : List CatchClause, CatchClause.faultsAll catches = [] →
    .query ∉ CatchClause.partsAll catches
  | [], _ => by simp [CatchClause.partsAll]
  | ⟨modifiers, type, name, body⟩ :: rest, h => by
    simp only [CatchClause.faultsAll, List.append_eq_nil_iff] at h
    simp [CatchClause.partsAll, CatchClause.parts, Part.symbol,
      noQuery_block (Statement.noQuery_all body h.1.2), CatchClause.noQuery_all rest h.2]

end

/-- A statement that is printed has no query among its parts. -/
theorem Statement.noQuery_of_render {statement : Statement} (h : statement.render context = .ok text) :
    .query ∉ statement.parts :=
  statement.noQuery ((statement.reports_render context).isOk_iff.1 ⟨text, h⟩)

/-- An expression that is printed has no query among its parts. -/
theorem Expression.noQuery_of_render {expression : Expression}
    (h : expression.render context = .ok text) : .query ∉ expression.parts :=
  expression.noQuery ((expression.reports_render context).isOk_iff.1 ⟨text, h⟩)

/-! ## Declarations -/

theorem Block.noQuery {body : Block} (h : Block.faults body = []) : .query ∉ Block.parts body := by
  unfold Block.faults at h
  rw [← Statement.faultsAll_eq_flatMap] at h
  have hrows := Statement.noQuery_all body h
  rw [Statement.partsAll_eq_map] at hrows
  exact noQuery_block hrows

theorem Block.noQuery_orSemicolon {body : Option Block} (h : Block.faultsOf body = []) :
    .query ∉ Block.partsOrSemicolon body := by
  cases body with
  | none => simp [Block.partsOrSemicolon]
  | some body => exact Block.noQuery (by simpa [Block.faultsOf] using h)

theorem noQuery_parameters (parameters : List Parameter) : .query ∉ parametersParts parameters :=
  noQuery_list (List.forall_mem_map.2 fun _ _ => by simp [Parameter.parts])

theorem noQuery_clause (keyword : Text) (types : List TypeRef) : .query ∉ clauseParts keyword types := by
  cases types with
  | nil => simp [clauseParts]
  | cons first others =>
    have hrows : Part.query ∉
        rowsBy (.symbol ",") ((first :: others).map fun type => [Part.type type]) :=
      noQuery_rows (List.forall_mem_map.2 fun _ _ => by simp)
    exact List.not_mem_cons_of_ne_of_not_mem (Part.query_ne_word keyword) hrows

theorem noQuery_names (names : List Text) :
    ∀ row ∈ names.map fun name => [Part.word name], .query ∉ row :=
  List.forall_mem_map.2 fun _ _ => by simp

theorem Property.noQuery (property : Property) (h : property.faults = []) :
    .query ∉ property.parts := by
  simp only [Property.faults, List.append_eq_nil_iff, List.flatMap_eq_nil_iff] at h
  have haccessors := noQuery_block (List.forall_mem_map.2 fun accessor haccessor => by
    have hbody := Block.noQuery_orSemicolon (h.2 accessor haccessor)
    show .query ∉ accessor.parts
    simp [Accessor.parts, hbody])
  simp [Property.parts, haccessors]

theorem Constructor.noQuery (constructor : Constructor) (h : constructor.faults = []) :
    .query ∉ constructor.parts := by
  unfold Constructor.faults at h
  split at h
  · cases h
  · simp only [List.append_eq_nil_iff] at h
    have hname : ∀ separator : Text, .query ∉ namesParts separator constructor.name :=
      fun _ => noQuery_rows (noQuery_names constructor.name)
    simp [Constructor.parts, noQuery_parameters, Block.noQuery h.2, hname]

mutual

theorem Declaration.noQuery : ∀ declaration : Declaration, declaration.faults = [] →
    .query ∉ declaration.parts
  | .classType modifiers name parent interfaces body, h => by
    simp only [Declaration.faults, List.append_eq_nil_iff] at h
    simp [Declaration.parts, noQuery_clause, noQuery_block (Member.noQuery_all body h.2.2)]
  | .interfaceType modifiers name parents body, h => by
    simp only [Declaration.faults, List.append_eq_nil_iff] at h
    simp [Declaration.parts, noQuery_clause, noQuery_block (Member.noQuery_all body h.2)]
  | .enumType modifiers name constants, _ => by
    simp [Declaration.parts, noQuery_list (noQuery_names constants)]

theorem Member.noQuery : ∀ member : Member, member.faults = [] → .query ∉ member.parts
  | .method method, h => by
    simp only [Member.faults, Method.faults, List.append_eq_nil_iff] at h
    have htype : .query ≠ TypeRef.partOrVoid method.returnType := by
      cases method.returnType <;> simp [TypeRef.partOrVoid]
    simp [Member.parts, Method.parts, htype, noQuery_parameters,
      Block.noQuery_orSemicolon h.2.2]
  | .field declaration, h => by
    rw [Member.faults] at h
    simp [Member.parts, declaration.noQuery h]
  | .constructor constructor, h => constructor.noQuery h
  | .property property, h => property.noQuery h
  | .initializer initializer, h => by
    rw [Member.faults] at h
    rw [Member.parts]
    unfold Initializer.parts
    split <;> simp [Block.noQuery h]
  | .declaration nested, h => nested.noQuery h
  | .empty, _ => by simp [Member.parts]

theorem Member.noQuery_all : ∀ body : List Member, Member.faultsAll body = [] →
    ∀ row ∈ Member.partsAll body, .query ∉ row
  | [], _ => by simp [Member.partsAll]
  | member :: rest, h => by
    simp only [Member.faultsAll, List.append_eq_nil_iff] at h
    rw [Member.partsAll, List.forall_mem_cons]
    exact ⟨member.noQuery h.1, Member.noQuery_all rest h.2⟩

end

/-- A compilation unit that is printed has no query among its parts. -/
theorem CompilationUnit.noQuery_of_render {unit : CompilationUnit}
    (h : unit.render context = .ok text) : .query ∉ unit.parts :=
  unit.declaration.noQuery ((unit.reports_render context).isOk_iff.1 ⟨text, h⟩)

end ApexLayout
