import ApexLayout.Tree.Dump

/-!
Equality of trees.

Different trees have different JSON forms, so trees can be compared through them. The main
statements are the `toJson_inj` lemmas, one for each type of node.
-/

namespace ApexLayout

namespace Json

/-- A list of forms determines the list if each form determines its item. -/
theorem map_inj {α : Type} {f : α → Json} (inj : ∀ {a b}, f a = f b → a = b) {as bs : List α}
    (h : as.map f = bs.map f) : as = bs :=
  (List.map_inj_right fun _ _ => inj).1 h

/-- A list of texts determines the texts. -/
theorem texts_inj {as bs : List Text} (h : texts as = texts bs) : as = bs :=
  map_inj string.inj (array.inj h)

/-- What a form says of the kind of its node: its tag, or its text without one. -/
def tag : Json → Text
  | .object ((tag, _) :: _) => tag
  | .string text => text
  | _ => []

/-- A form determines the constructor of its node, if the constructors have different tags. -/
theorem index_eq_of_tags {α : Type} {form : α → Json} {index : α → Nat} {tags : List Text}
    (htag : ∀ node, tags[index node]? = some (form node).tag) (hdistinct : tags.Nodup) {a b : α}
    (h : form a = form b) : index a = index b := by
  have hsame : tags[index a]? = tags[index b]? := by rw [htag, htag, h]
  exact (List.getElem?_inj (List.getElem?_eq_some_iff.1 (htag a)).1 hdistinct).1 hsame

/-- An optional form determines the part if no form is null. -/
theorem orNull_map_inj {α : Type} {f : α → Json} (inj : ∀ {a b}, f a = f b → a = b)
    (notNull : ∀ a, f a ≠ .null) {a b : Option α} (h : orNull (a.map f) = orNull (b.map f)) :
    a = b := by
  cases a <;> cases b
  · rfl
  · exact absurd h.symm (notNull _)
  · exact absurd h (notNull _)
  · exact congrArg some (inj h)

end Json

/-! ## Types and expressions -/

mutual

/-- The form of a type reference determines it. -/
theorem TypeRef.toJson_inj : ∀ {a b : TypeRef}, a.toJson = b.toJson → a = b
  | ⟨_, _⟩, ⟨_, _⟩, h => by
    simp [TypeRef.toJson, Json.record] at h
    rw [TypeName.allToJson_inj h.1, h.2]

/-- The form of a name of a type reference determines it. -/
theorem TypeName.toJson_inj : ∀ {a b : TypeName}, a.toJson = b.toJson → a = b
  | ⟨_, _⟩, ⟨_, _⟩, h => by
    simp [TypeName.toJson, Json.record] at h
    rw [h.1, TypeRef.allToJson_inj h.2]

/-- The forms of type references determine them. -/
theorem TypeRef.allToJson_inj :
    ∀ {as bs : List TypeRef}, TypeRef.allToJson as = TypeRef.allToJson bs → as = bs
  | [], [], _ => rfl
  | [], _ :: _, h => by simp [TypeRef.allToJson] at h
  | _ :: _, [], h => by simp [TypeRef.allToJson] at h
  | _ :: _, _ :: _, h => by
    simp only [TypeRef.allToJson, List.cons.injEq] at h
    rw [TypeRef.toJson_inj h.1, TypeRef.allToJson_inj h.2]

/-- The forms of names of a type reference determine them. -/
theorem TypeName.allToJson_inj :
    ∀ {as bs : List TypeName}, TypeName.allToJson as = TypeName.allToJson bs → as = bs
  | [], [], _ => rfl
  | [], _ :: _, h => by simp [TypeName.allToJson] at h
  | _ :: _, [], h => by simp [TypeName.allToJson] at h
  | _ :: _, _ :: _, h => by
    simp only [TypeName.allToJson, List.cons.injEq] at h
    rw [TypeName.toJson_inj h.1, TypeName.allToJson_inj h.2]

end

theorem BinaryKind.toJson_inj {a b : BinaryKind} (h : a.toJson = b.toJson) : a = b := by
  revert h; cases a <;> cases b <;> decide

theorem Fixity.toJson_inj {a b : Fixity} (h : a.toJson = b.toJson) : a = b := by
  revert h; cases a <;> cases b <;> decide

theorem Navigation.toJson_inj {a b : Navigation} (h : a.toJson = b.toJson) : a = b := by
  revert h; cases a <;> cases b <;> decide

theorem AccessorKind.text_inj {a b : AccessorKind} (h : a.text = b.text) : a = b := by
  revert h; cases a <;> cases b <;> decide

theorem Position.toJson_inj {a b : Position} (h : a.toJson = b.toJson) : a = b := by
  cases a; cases b
  simp_all [Position.toJson, Json.record]

theorem EmbeddedQuery.toJson_inj {a b : EmbeddedQuery} (h : a.toJson = b.toJson) : a = b := by
  cases a; cases b
  simp [EmbeddedQuery.toJson, Json.record] at h
  rw [h.1, Json.orNull_map_inj Position.toJson_inj (by simp [Position.toJson, Json.record]) h.2]

/-- The form of a primary expression determines it. -/
theorem Primary.toJson_inj {a b : Primary} (h : a.toJson = b.toJson) : a = b := by
  cases a <;> cases b <;> simp [Primary.toJson, Json.tagged] at h ⊢
  case literal.literal => exact h
  case identifier.identifier => exact h
  case path.path => exact TypeRef.toJson_inj h
  case classLiteral.classLiteral => exact TypeRef.toJson_inj h
  case query.query => exact EmbeddedQuery.toJson_inj h

/-- The tags of expressions, in the order of the constructors. -/
def Expression.tags : List Text :=
  ["assignment", "conditional", "binary", "unary", "cast", "instance_of", "new", "array_access",
    "chain", "call", "paren", "primary"].map String.toList

theorem Expression.ctorIdx_eq {a b : Expression} (h : a.toJson = b.toJson) : a.ctorIdx = b.ctorIdx :=
  Json.index_eq_of_tags
    (fun node => by cases node <;> rfl : ∀ node : Expression, Expression.tags[node.ctorIdx]? = some node.toJson.tag)
    (by decide +kernel) h

mutual

/-- The form of an expression determines it. -/
theorem Expression.toJson_inj : ∀ {a b : Expression}, a.toJson = b.toJson → a = b
  | .assignment .., b, h => by
    have hform := Expression.ctorIdx_eq h
    cases b <;> cases hform
    simp [Expression.toJson, Json.tagged, Json.record] at h
    rw [Expression.toJson_inj h.1, h.2.1, Expression.toJson_inj h.2.2]
  | .conditional .., b, h => by
    have hform := Expression.ctorIdx_eq h
    cases b <;> cases hform
    simp [Expression.toJson, Json.tagged, Json.record] at h
    rw [Expression.toJson_inj h.1, Expression.toJson_inj h.2.1, Expression.toJson_inj h.2.2]
  | .binary .., b, h => by
    have hform := Expression.ctorIdx_eq h
    cases b <;> cases hform
    simp [Expression.toJson, Json.tagged, Json.record] at h
    rw [BinaryKind.toJson_inj h.1, h.2.1, Expression.toJson_inj h.2.2.1,
      Expression.toJson_inj h.2.2.2]
  | .unary .., b, h => by
    have hform := Expression.ctorIdx_eq h
    cases b <;> cases hform
    simp [Expression.toJson, Json.tagged, Json.record] at h
    rw [Fixity.toJson_inj h.1, h.2.1, Expression.toJson_inj h.2.2]
  | .cast .., b, h => by
    have hform := Expression.ctorIdx_eq h
    cases b <;> cases hform
    simp [Expression.toJson, Json.tagged, Json.record] at h
    rw [TypeRef.toJson_inj h.1, Expression.toJson_inj h.2]
  | .instanceOf .., b, h => by
    have hform := Expression.ctorIdx_eq h
    cases b <;> cases hform
    simp [Expression.toJson, Json.tagged, Json.record] at h
    rw [Expression.toJson_inj h.1, TypeRef.toJson_inj h.2]
  | .creation .., b, h => by
    have hform := Expression.ctorIdx_eq h
    cases b <;> cases hform
    simp [Expression.toJson, Json.tagged, Json.record] at h
    rw [TypeRef.toJson_inj h.1, CreatorBody.toJson_inj h.2]
  | .arrayAccess .., b, h => by
    have hform := Expression.ctorIdx_eq h
    cases b <;> cases hform
    simp [Expression.toJson, Json.tagged, Json.record] at h
    rw [Expression.toJson_inj h.1, Expression.toJson_inj h.2]
  | .chain .., b, h => by
    have hform := Expression.ctorIdx_eq h
    cases b <;> cases hform
    simp [Expression.toJson, Json.tagged, Json.record] at h
    rw [Expression.toJson_inj h.1, Link.toJson_inj h.2]
  | .call .., b, h => by
    have hform := Expression.ctorIdx_eq h
    cases b <;> cases hform
    simp [Expression.toJson, Json.tagged, Json.record] at h
    rw [h.1, Expression.allToJson_inj h.2]
  | .parenthesized .., b, h => by
    have hform := Expression.ctorIdx_eq h
    cases b <;> cases hform
    simp [Expression.toJson, Json.tagged] at h
    rw [Expression.toJson_inj h]
  | .primary .., b, h => by
    have hform := Expression.ctorIdx_eq h
    cases b <;> cases hform
    simp [Expression.toJson, Json.tagged] at h
    rw [Primary.toJson_inj h]

/-- The form of a link determines it. -/
theorem Link.toJson_inj : ∀ {a b : Link}, a.toJson = b.toJson → a = b
  | ⟨_, _, _⟩, ⟨_, _, _⟩, h => by
    simp [Link.toJson, Json.record] at h
    rw [Navigation.toJson_inj h.1, h.2.1, Expression.argumentsToJson_inj h.2.2]

/-- The form of the arguments of a link determines them. -/
theorem Expression.argumentsToJson_inj :
    ∀ {a b : Option (List Expression)},
      Expression.argumentsToJson a = Expression.argumentsToJson b → a = b
  | none, none, _ => rfl
  | none, some _, h => by simp [Expression.argumentsToJson] at h
  | some _, none, h => by simp [Expression.argumentsToJson] at h
  | some _, some _, h => by
    simp only [Expression.argumentsToJson, Json.array.injEq] at h
    rw [Expression.allToJson_inj h]

/-- The form of what follows the type in a `new` expression determines it. -/
theorem CreatorBody.toJson_inj : ∀ {a b : CreatorBody}, a.toJson = b.toJson → a = b
  | .arguments .., b, h => by
    cases b <;> simp [CreatorBody.toJson, Json.tagged] at h
    rw [Expression.allToJson_inj h]
  | .arraySize .., b, h => by
    cases b <;> simp [CreatorBody.toJson, Json.tagged] at h
    rw [Expression.toJson_inj h]
  | .elements .., b, h => by
    cases b <;> simp [CreatorBody.toJson, Json.tagged] at h
    rw [Expression.allToJson_inj h]
  | .entries .., b, h => by
    cases b <;> simp [CreatorBody.toJson, Json.tagged] at h
    rw [Expression.entriesToJson_inj h]

/-- The forms of expressions determine them. -/
theorem Expression.allToJson_inj :
    ∀ {as bs : List Expression}, Expression.allToJson as = Expression.allToJson bs → as = bs
  | [], [], _ => rfl
  | [], _ :: _, h => by simp [Expression.allToJson] at h
  | _ :: _, [], h => by simp [Expression.allToJson] at h
  | _ :: _, _ :: _, h => by
    simp only [Expression.allToJson, List.cons.injEq] at h
    rw [Expression.toJson_inj h.1, Expression.allToJson_inj h.2]

/-- The forms of map entries determine them. -/
theorem Expression.entriesToJson_inj :
    ∀ {as bs : List (Expression × Expression)},
      Expression.entriesToJson as = Expression.entriesToJson bs → as = bs
  | [], [], _ => rfl
  | [], (_, _) :: _, h => by simp [Expression.entriesToJson] at h
  | (_, _) :: _, [], h => by simp [Expression.entriesToJson] at h
  | (_, _) :: _, (_, _) :: _, h => by
    simp [Expression.entriesToJson] at h
    rw [Expression.toJson_inj h.1.1, Expression.toJson_inj h.1.2,
      Expression.entriesToJson_inj h.2]

end

/-- No expression has the form null. -/
theorem Expression.toJson_ne_null (expression : Expression) : expression.toJson ≠ .null := by
  cases expression <;> simp [Expression.toJson, Json.tagged]

/-- The form of an optional expression determines it. -/
theorem Expression.optionToJson_inj {a b : Option Expression}
    (h : Expression.optionToJson a = Expression.optionToJson b) : a = b :=
  Json.orNull_map_inj Expression.toJson_inj Expression.toJson_ne_null h

/-! ## Statements -/

theorem Declarator.toJson_inj {a b : Declarator} (h : a.toJson = b.toJson) : a = b := by
  cases a; cases b
  simp [Declarator.toJson, Json.record] at h
  rw [h.1, Expression.optionToJson_inj h.2]

theorem VariableDeclaration.toJson_inj {a b : VariableDeclaration} (h : a.toJson = b.toJson) :
    a = b := by
  cases a; cases b
  simp [VariableDeclaration.toJson, Json.record] at h
  rw [Json.texts_inj h.1, TypeRef.toJson_inj h.2.1, Json.map_inj Declarator.toJson_inj h.2.2]

theorem ForInit.toJson_inj {a b : ForInit} (h : a.toJson = b.toJson) : a = b := by
  cases a <;> cases b <;> simp [ForInit.toJson, Json.tagged] at h ⊢
  · exact VariableDeclaration.toJson_inj h
  · exact Expression.allToJson_inj h

theorem ForInit.toJson_ne_null (init : ForInit) : init.toJson ≠ .null := by
  cases init <;> simp [ForInit.toJson, Json.tagged]

/-- The form of the header of a `for` loop determines it. -/
theorem ForControl.toJson_inj {a b : ForControl} (h : a.toJson = b.toJson) : a = b := by
  cases a <;> cases b <;> simp [ForControl.toJson, Json.tagged, Json.record] at h
  · rw [Json.texts_inj h.1, TypeRef.toJson_inj h.2.1, h.2.2.1, Expression.toJson_inj h.2.2.2]
  · rw [Json.orNull_map_inj ForInit.toJson_inj ForInit.toJson_ne_null h.1,
      Expression.optionToJson_inj h.2.1, Expression.allToJson_inj h.2.2]

/-- No statement has the form null. -/
theorem Statement.toJson_ne_null (statement : Statement) : statement.toJson ≠ .null := by
  cases statement <;> simp [Statement.toJson, Json.tagged]

/-- The tags of statements, in the order of the constructors. -/
def Statement.tags : List Text :=
  ["block", "if", "while", "for", "try", "return", "throw", "break", "continue", "dml",
    "local_variable", "expression"].map String.toList

theorem Statement.ctorIdx_eq {a b : Statement} (h : a.toJson = b.toJson) : a.ctorIdx = b.ctorIdx :=
  Json.index_eq_of_tags
    (fun node => by cases node <;> rfl : ∀ node : Statement, Statement.tags[node.ctorIdx]? = some node.toJson.tag)
    (by decide +kernel) h

mutual

/-- The form of a statement determines it. -/
theorem Statement.toJson_inj : ∀ {a b : Statement}, a.toJson = b.toJson → a = b
  | .block .., b, h => by
    have hform := Statement.ctorIdx_eq h
    cases b <;> cases hform
    simp [Statement.toJson, Json.tagged, Json.block, Json.record] at h
    rw [Statement.allToJson_inj h]
  | .ifElse .., b, h => by
    have hform := Statement.ctorIdx_eq h
    cases b <;> cases hform
    simp [Statement.toJson, Json.tagged, Json.record] at h
    rw [Expression.toJson_inj h.1, Statement.toJson_inj h.2.1, Statement.optionToJson_inj h.2.2]
  | .whileLoop .., b, h => by
    have hform := Statement.ctorIdx_eq h
    cases b <;> cases hform
    simp [Statement.toJson, Json.tagged, Json.record] at h
    rw [Expression.toJson_inj h.1, Statement.toJson_inj h.2]
  | .forLoop .., b, h => by
    have hform := Statement.ctorIdx_eq h
    cases b <;> cases hform
    simp [Statement.toJson, Json.tagged, Json.record] at h
    rw [ForControl.toJson_inj h.1, Statement.toJson_inj h.2]
  | .tryCatch .., b, h => by
    have hform := Statement.ctorIdx_eq h
    cases b <;> cases hform
    simp [Statement.toJson, Json.tagged, Json.block, Json.record] at h
    rw [Statement.allToJson_inj h.1, CatchClause.allToJson_inj h.2.1,
      Statement.cleanupToJson_inj h.2.2]
  | .returnValue .., b, h => by
    have hform := Statement.ctorIdx_eq h
    cases b <;> cases hform
    simp [Statement.toJson, Json.tagged] at h
    rw [Expression.optionToJson_inj h]
  | .throwValue .., b, h => by
    have hform := Statement.ctorIdx_eq h
    cases b <;> cases hform
    simp [Statement.toJson, Json.tagged] at h
    rw [Expression.toJson_inj h]
  | .breakLoop, b, h => by
    have hform := Statement.ctorIdx_eq h
    cases b <;> cases hform
    rfl
  | .continueLoop, b, h => by
    have hform := Statement.ctorIdx_eq h
    cases b <;> cases hform
    rfl
  | .dml .., b, h => by
    have hform := Statement.ctorIdx_eq h
    cases b <;> cases hform
    simp [Statement.toJson, Json.tagged, Json.record] at h
    rw [h.1, Expression.toJson_inj h.2]
  | .variables .., b, h => by
    have hform := Statement.ctorIdx_eq h
    cases b <;> cases hform
    simp [Statement.toJson, Json.tagged] at h
    rw [VariableDeclaration.toJson_inj h]
  | .expression .., b, h => by
    have hform := Statement.ctorIdx_eq h
    cases b <;> cases hform
    simp [Statement.toJson, Json.tagged] at h
    rw [Expression.toJson_inj h]

/-- The form of an optional statement determines it. -/
theorem Statement.optionToJson_inj :
    ∀ {a b : Option Statement}, Statement.optionToJson a = Statement.optionToJson b → a = b
  | none, none, _ => rfl
  | none, some _, h => absurd h.symm (Statement.toJson_ne_null _)
  | some _, none, h => absurd h (Statement.toJson_ne_null _)
  | some _, some _, h => congrArg some (Statement.toJson_inj h)

/-- The form of the block behind `finally` determines it. -/
theorem Statement.cleanupToJson_inj :
    ∀ {a b : Option (List Statement)},
      Statement.cleanupToJson a = Statement.cleanupToJson b → a = b
  | none, none, _ => rfl
  | none, some _, h => by simp [Statement.cleanupToJson, Json.block, Json.record] at h
  | some _, none, h => by simp [Statement.cleanupToJson, Json.block, Json.record] at h
  | some _, some _, h => by
    simp [Statement.cleanupToJson, Json.block, Json.record] at h
    rw [Statement.allToJson_inj h]

/-- The forms of statements determine them. -/
theorem Statement.allToJson_inj :
    ∀ {as bs : List Statement}, Statement.allToJson as = Statement.allToJson bs → as = bs
  | [], [], _ => rfl
  | [], _ :: _, h => by simp [Statement.allToJson] at h
  | _ :: _, [], h => by simp [Statement.allToJson] at h
  | _ :: _, _ :: _, h => by
    simp only [Statement.allToJson, List.cons.injEq] at h
    rw [Statement.toJson_inj h.1, Statement.allToJson_inj h.2]

/-- The form of a `catch` clause determines it. -/
theorem CatchClause.toJson_inj : ∀ {a b : CatchClause}, a.toJson = b.toJson → a = b
  | ⟨_, _, _, _⟩, ⟨_, _, _, _⟩, h => by
    simp [CatchClause.toJson, Json.block, Json.record] at h
    rw [Json.texts_inj h.1, TypeRef.toJson_inj h.2.1, h.2.2.1, Statement.allToJson_inj h.2.2.2]

/-- The forms of `catch` clauses determine them. -/
theorem CatchClause.allToJson_inj :
    ∀ {as bs : List CatchClause}, CatchClause.allToJson as = CatchClause.allToJson bs → as = bs
  | [], [], _ => rfl
  | [], _ :: _, h => by simp [CatchClause.allToJson] at h
  | _ :: _, [], h => by simp [CatchClause.allToJson] at h
  | _ :: _, _ :: _, h => by
    simp only [CatchClause.allToJson, List.cons.injEq] at h
    rw [CatchClause.toJson_inj h.1, CatchClause.allToJson_inj h.2]

end

/-! ## Members and declarations -/

theorem Block.toJson_inj {a b : Block} (h : Block.toJson a = Block.toJson b) : a = b := by
  simp [Block.toJson, Json.block, Json.record] at h
  exact Statement.allToJson_inj h

theorem Block.optionToJson_inj {a b : Option Block}
    (h : Block.optionToJson a = Block.optionToJson b) : a = b :=
  Json.orNull_map_inj Block.toJson_inj (by simp [Block.toJson, Json.block, Json.record]) h

theorem TypeRef.toJson_ne_null (type : TypeRef) : type.toJson ≠ .null := by
  cases type
  simp [TypeRef.toJson, Json.record]

theorem Parameter.toJson_inj {a b : Parameter} (h : a.toJson = b.toJson) : a = b := by
  cases a; cases b
  simp [Parameter.toJson, Json.record] at h
  rw [Json.texts_inj h.1, TypeRef.toJson_inj h.2.1, h.2.2]

theorem Method.toJson_inj {a b : Method} (h : a.toJson = b.toJson) : a = b := by
  cases a; cases b
  simp [Method.toJson, Json.record] at h
  obtain ⟨modifiers, type, name, parameters, body⟩ := h
  rw [Json.texts_inj modifiers,
    Json.orNull_map_inj TypeRef.toJson_inj TypeRef.toJson_ne_null type, name,
    Json.map_inj Parameter.toJson_inj parameters, Block.optionToJson_inj body]

theorem Constructor.toJson_inj {a b : Constructor} (h : a.toJson = b.toJson) : a = b := by
  cases a; cases b
  simp [Constructor.toJson, Json.record] at h
  rw [Json.texts_inj h.1, Json.texts_inj h.2.1, Json.map_inj Parameter.toJson_inj h.2.2.1,
    Block.toJson_inj h.2.2.2]

theorem Accessor.toJson_inj {a b : Accessor} (h : a.toJson = b.toJson) : a = b := by
  cases a; cases b
  simp [Accessor.toJson, Json.record] at h
  rw [Json.texts_inj h.1, AccessorKind.text_inj h.2.1, Block.optionToJson_inj h.2.2]

theorem Property.toJson_inj {a b : Property} (h : a.toJson = b.toJson) : a = b := by
  cases a; cases b
  simp [Property.toJson, Json.record] at h
  rw [Json.texts_inj h.1, TypeRef.toJson_inj h.2.1, h.2.2.1,
    Json.map_inj Accessor.toJson_inj h.2.2.2]

theorem Initializer.toJson_inj {a b : Initializer} (h : a.toJson = b.toJson) : a = b := by
  cases a; cases b
  simp [Initializer.toJson, Json.record] at h
  rw [h.1, Block.toJson_inj h.2]

/-- The tags of members, in the order of the constructors. -/
def Member.tags : List Text :=
  ["method", "field", "constructor", "property", "initializer", "declaration",
    "empty"].map String.toList

theorem Member.ctorIdx_eq {a b : Member} (h : a.toJson = b.toJson) : a.ctorIdx = b.ctorIdx :=
  Json.index_eq_of_tags
    (fun node => by cases node <;> rfl : ∀ node : Member, Member.tags[node.ctorIdx]? = some node.toJson.tag)
    (by decide +kernel) h

mutual

/-- The form of a type declaration determines it. -/
theorem Declaration.toJson_inj : ∀ {a b : Declaration}, a.toJson = b.toJson → a = b
  | .classType .., b, h => by
    cases b <;> simp [Declaration.toJson, Json.tagged, Json.record] at h
    obtain ⟨modifiers, name, parent, interfaces, body⟩ := h
    rw [Json.texts_inj modifiers, name,
      Json.orNull_map_inj TypeRef.toJson_inj TypeRef.toJson_ne_null parent,
      TypeRef.allToJson_inj interfaces, Member.allToJson_inj body]
  | .interfaceType .., b, h => by
    cases b <;> simp [Declaration.toJson, Json.tagged, Json.record] at h
    rw [Json.texts_inj h.1, h.2.1, TypeRef.allToJson_inj h.2.2.1, Member.allToJson_inj h.2.2.2]
  | .enumType .., b, h => by
    cases b <;> simp [Declaration.toJson, Json.tagged, Json.record] at h
    rw [Json.texts_inj h.1, h.2.1, Json.texts_inj h.2.2]

/-- The form of a member determines it. -/
theorem Member.toJson_inj : ∀ {a b : Member}, a.toJson = b.toJson → a = b
  | .method _, b, h => by
    have hform := Member.ctorIdx_eq h
    cases b <;> cases hform
    simp [Member.toJson, Json.tagged] at h
    rw [Method.toJson_inj h]
  | .field _, b, h => by
    have hform := Member.ctorIdx_eq h
    cases b <;> cases hform
    simp [Member.toJson, Json.tagged] at h
    rw [VariableDeclaration.toJson_inj h]
  | .constructor _, b, h => by
    have hform := Member.ctorIdx_eq h
    cases b <;> cases hform
    simp [Member.toJson, Json.tagged] at h
    rw [Constructor.toJson_inj h]
  | .property _, b, h => by
    have hform := Member.ctorIdx_eq h
    cases b <;> cases hform
    simp [Member.toJson, Json.tagged] at h
    rw [Property.toJson_inj h]
  | .initializer _, b, h => by
    have hform := Member.ctorIdx_eq h
    cases b <;> cases hform
    simp [Member.toJson, Json.tagged] at h
    rw [Initializer.toJson_inj h]
  | .declaration _, b, h => by
    have hform := Member.ctorIdx_eq h
    cases b <;> cases hform
    simp [Member.toJson, Json.tagged] at h
    rw [Declaration.toJson_inj h]
  | .empty, b, h => by
    have hform := Member.ctorIdx_eq h
    cases b <;> cases hform
    rfl

/-- The forms of members determine them. -/
theorem Member.allToJson_inj :
    ∀ {as bs : List Member}, Member.allToJson as = Member.allToJson bs → as = bs
  | [], [], _ => rfl
  | [], _ :: _, h => by simp [Member.allToJson] at h
  | _ :: _, [], h => by simp [Member.allToJson] at h
  | _ :: _, _ :: _, h => by
    simp only [Member.allToJson, List.cons.injEq] at h
    rw [Member.toJson_inj h.1, Member.allToJson_inj h.2]

end

/-- The form of a compilation unit determines it. -/
theorem CompilationUnit.toJson_inj {a b : CompilationUnit} (h : a.toJson = b.toJson) : a = b := by
  cases a; cases b
  simp [CompilationUnit.toJson, Json.record] at h
  rw [Declaration.toJson_inj h]

/-! ## Decidable equality -/

instance : DecidableEq TypeRef := fun _ _ =>
  decidable_of_iff _ ⟨TypeRef.toJson_inj, congrArg TypeRef.toJson⟩

instance : DecidableEq Expression := fun _ _ =>
  decidable_of_iff _ ⟨Expression.toJson_inj, congrArg Expression.toJson⟩

instance : DecidableEq Statement := fun _ _ =>
  decidable_of_iff _ ⟨Statement.toJson_inj, congrArg Statement.toJson⟩

instance : DecidableEq CompilationUnit := fun _ _ =>
  decidable_of_iff _ ⟨CompilationUnit.toJson_inj, congrArg CompilationUnit.toJson⟩

end ApexLayout
