import ApexLayout.Tree.Declaration

/-!
Induction over trees.

The trees nest themselves in lists, options and pairs. Each principle below has one case for every
form of a node, with the claim for all nodes of its own sort inside it; what stands inside a node is
smaller than the node.
-/

namespace ApexLayout

/-- A list is kept if all its items are. -/
theorem List.map_eq_self {α : Type} {change : α → α} {items : List α}
    (h : ∀ item ∈ items, change item = item) : items.map change = items :=
  (List.map_congr_left h).trans (List.map_id' items)

theorem Option.sizeOf_lt_of_mem {α : Type} [SizeOf α] {item : α} {option : Option α}
    (h : item ∈ option) : sizeOf item < sizeOf option := by
  obtain rfl := Option.mem_def.1 h
  simp only [Option.some.sizeOf_spec]
  omega

/-! ## Expressions -/

/-- The expressions inside a link. -/
def Link.inner (link : Link) : List Expression := link.arguments.getD []

/-- The expressions inside the body of a `new` expression, from left to right. -/
def CreatorBody.inner : CreatorBody → List Expression
  | .arguments items => items
  | .arraySize size => [size]
  | .elements items => items
  | .entries items => items.flatMap fun item => [item.1, item.2]

theorem Link.sizeOf_inner {link : Link} {item : Expression} (h : item ∈ link.inner) :
    sizeOf item < sizeOf link := by
  obtain ⟨navigation, member, arguments⟩ := link
  cases arguments with
  | none => cases h
  | some items =>
    have hitem : sizeOf item < sizeOf items := List.sizeOf_lt_of_mem h
    simp only [Link.mk.sizeOf_spec, Option.some.sizeOf_spec]
    omega

theorem CreatorBody.sizeOf_inner {body : CreatorBody} {item : Expression} (h : item ∈ body.inner) :
    sizeOf item < sizeOf body := by
  cases body with
  | arguments items | elements items =>
    have hitem : sizeOf item < sizeOf items := List.sizeOf_lt_of_mem h
    simp only [CreatorBody.arguments.sizeOf_spec, CreatorBody.elements.sizeOf_spec]
    omega
  | arraySize size =>
    obtain rfl := List.mem_singleton.1 h
    simp only [CreatorBody.arraySize.sizeOf_spec]
    omega
  | entries items =>
    obtain ⟨⟨key, value⟩, hentry, hitem⟩ := List.mem_flatMap.1 h
    have hless : sizeOf (key, value) < sizeOf items := List.sizeOf_lt_of_mem hentry
    simp only [Prod.mk.sizeOf_spec] at hless
    simp only [CreatorBody.entries.sizeOf_spec]
    simp only [List.mem_cons, List.not_mem_nil, or_false] at hitem
    obtain rfl | rfl := hitem <;> omega

section

variable {claim : Expression → Prop}
  (assignment : ∀ target operator value, claim target → claim value →
    claim (.assignment target operator value))
  (conditional : ∀ condition thenValue elseValue, claim condition → claim thenValue →
    claim elseValue → claim (.conditional condition thenValue elseValue))
  (binary : ∀ kind operator left right, claim left → claim right →
    claim (.binary kind operator left right))
  (unary : ∀ fixity operator operand, claim operand → claim (.unary fixity operator operand))
  (cast : ∀ type operand, claim operand → claim (.cast type operand))
  (instanceOf : ∀ operand type, claim operand → claim (.instanceOf operand type))
  (creation : ∀ type body, (∀ e ∈ CreatorBody.inner body, claim e) → claim (.creation type body))
  (arrayAccess : ∀ array index, claim array → claim index → claim (.arrayAccess array index))
  (chain : ∀ receiver link, claim receiver → (∀ e ∈ Link.inner link, claim e) →
    claim (.chain receiver link))
  (call : ∀ name arguments, (∀ e ∈ arguments, claim e) → claim (.call name arguments))
  (parenthesized : ∀ inner, claim inner → claim (.parenthesized inner))
  (primary : ∀ leaf, claim (.primary leaf))

include assignment conditional binary unary cast instanceOf creation arrayAccess chain call
  parenthesized primary

/-- What holds of every expression as soon as it holds of the expressions inside it. -/
@[elab_as_elim]
theorem Expression.induction : ∀ expression : Expression, claim expression
  | .assignment target operator value =>
    assignment target operator value (Expression.induction target) (Expression.induction value)
  | .conditional condition thenValue elseValue =>
    conditional condition thenValue elseValue (Expression.induction condition)
      (Expression.induction thenValue) (Expression.induction elseValue)
  | .binary kind operator left right =>
    binary kind operator left right (Expression.induction left) (Expression.induction right)
  | .unary fixity operator operand => unary fixity operator operand (Expression.induction operand)
  | .cast type operand => cast type operand (Expression.induction operand)
  | .instanceOf operand type => instanceOf operand type (Expression.induction operand)
  | .creation type body => creation type body fun item h =>
    have _hless := CreatorBody.sizeOf_inner h
    Expression.induction item
  | .arrayAccess array index =>
    arrayAccess array index (Expression.induction array) (Expression.induction index)
  | .chain receiver link => chain receiver link (Expression.induction receiver) fun item h =>
    have _hless := Link.sizeOf_inner h
    Expression.induction item
  | .call name arguments => call name arguments fun item h =>
    have _hless := List.sizeOf_lt_of_mem h
    Expression.induction item
  | .parenthesized inner => parenthesized inner (Expression.induction inner)
  | .primary leaf => primary leaf
termination_by expression => sizeOf expression
decreasing_by all_goals decreasing_with omega

end

/-! ## Statements -/

theorem CatchClause.sizeOf_body (clause : CatchClause) : sizeOf clause.body < sizeOf clause := by
  obtain ⟨modifiers, type, name, body⟩ := clause
  simp only [CatchClause.mk.sizeOf_spec]
  omega

section

variable {claim : Statement → Prop}
  (block : ∀ body, (∀ s ∈ body, claim s) → claim (.block body))
  (ifElse : ∀ condition thenBranch elseBranch, claim thenBranch → (∀ s ∈ elseBranch, claim s) →
    claim (.ifElse condition thenBranch elseBranch))
  (whileLoop : ∀ condition body, claim body → claim (.whileLoop condition body))
  (forLoop : ∀ control body, claim body → claim (.forLoop control body))
  (tryCatch : ∀ body catches cleanup, (∀ s ∈ body, claim s) →
    (∀ clause ∈ catches, ∀ s ∈ CatchClause.body clause, claim s) →
    (∀ last ∈ cleanup, ∀ s ∈ last, claim s) → claim (.tryCatch body catches cleanup))
  (returnValue : ∀ value, claim (.returnValue value))
  (throwValue : ∀ value, claim (.throwValue value))
  (breakLoop : claim .breakLoop)
  (continueLoop : claim .continueLoop)
  (dml : ∀ operation operand, claim (.dml operation operand))
  (locals : ∀ declaration, claim (.variables declaration))
  (expression : ∀ value, claim (.expression value))

include block ifElse whileLoop forLoop tryCatch returnValue throwValue breakLoop continueLoop dml
  locals expression

/-- What holds of every statement as soon as it holds of the statements inside it. -/
@[elab_as_elim]
theorem Statement.induction : ∀ statement : Statement, claim statement
  | .block body => block body fun statement h =>
    have _hless := List.sizeOf_lt_of_mem h
    Statement.induction statement
  | .ifElse condition thenBranch elseBranch =>
    ifElse condition thenBranch elseBranch (Statement.induction thenBranch) fun branch h =>
      have _hless := Option.sizeOf_lt_of_mem h
      Statement.induction branch
  | .whileLoop condition body => whileLoop condition body (Statement.induction body)
  | .forLoop control body => forLoop control body (Statement.induction body)
  | .tryCatch body catches cleanup =>
    tryCatch body catches cleanup
      (fun statement h =>
        have _hless := List.sizeOf_lt_of_mem h
        Statement.induction statement)
      (fun clause hclause statement h =>
        have _hless := List.sizeOf_lt_of_mem h
        have _hbody := clause.sizeOf_body
        have _hinside := List.sizeOf_lt_of_mem hclause
        Statement.induction statement)
      fun last hlast statement h =>
        have _hless := List.sizeOf_lt_of_mem h
        have _hinside := Option.sizeOf_lt_of_mem hlast
        Statement.induction statement
  | .returnValue value => returnValue value
  | .throwValue value => throwValue value
  | .breakLoop => breakLoop
  | .continueLoop => continueLoop
  | .dml operation operand => dml operation operand
  | .variables declaration => locals declaration
  | .expression value => expression value
termination_by statement => sizeOf statement
decreasing_by all_goals decreasing_with omega

end

/-! ## Declarations -/

section

variable (claim : Declaration → Prop) (memberClaim : Member → Prop)
  (classType : ∀ modifiers name parent interfaces body, (∀ m ∈ body, memberClaim m) →
    claim (.classType modifiers name parent interfaces body))
  (interfaceType : ∀ modifiers name parents body, (∀ m ∈ body, memberClaim m) →
    claim (.interfaceType modifiers name parents body))
  (enumType : ∀ modifiers name constants, claim (.enumType modifiers name constants))
  (method : ∀ method, memberClaim (.method method))
  (field : ∀ declaration, memberClaim (.field declaration))
  (constructor : ∀ constructor, memberClaim (.constructor constructor))
  (property : ∀ property, memberClaim (.property property))
  (initializer : ∀ initializer, memberClaim (.initializer initializer))
  (declaration : ∀ nested, claim nested → memberClaim (.declaration nested))
  (empty : memberClaim .empty)

include method field constructor property initializer declaration empty in
/-- What holds of a member as soon as the claim holds of the declaration in it. -/
theorem Member.of_nested (member : Member)
    (h : ∀ nested : Declaration, sizeOf nested < sizeOf member → claim nested) :
    memberClaim member := by
  cases member with
  | method body => exact method body
  | field body => exact field body
  | constructor body => exact constructor body
  | property body => exact property body
  | initializer body => exact initializer body
  | declaration nested =>
    refine declaration nested (h nested ?_)
    simp only [Member.declaration.sizeOf_spec]
    omega
  | empty => exact empty

include classType interfaceType enumType method field constructor property initializer declaration
  empty

/-- What holds of every declaration and every member as soon as it holds of those inside. -/
theorem Declaration.induction : ∀ declaration : Declaration, claim declaration
  | .classType modifiers name parent interfaces body =>
    classType modifiers name parent interfaces body fun member h =>
      have _hless := List.sizeOf_lt_of_mem h
      Member.of_nested claim memberClaim method field constructor property initializer declaration
        empty member fun nested _hnested => Declaration.induction nested
  | .interfaceType modifiers name parents body =>
    interfaceType modifiers name parents body fun member h =>
      have _hless := List.sizeOf_lt_of_mem h
      Member.of_nested claim memberClaim method field constructor property initializer declaration
        empty member fun nested _hnested => Declaration.induction nested
  | .enumType modifiers name constants => enumType modifiers name constants
termination_by declaration => sizeOf declaration
decreasing_by all_goals decreasing_with omega

end

/-! ## Type references -/

theorem TypeName.sizeOf_arguments (name : TypeName) : sizeOf name.arguments < sizeOf name := by
  obtain ⟨text, arguments⟩ := name
  simp only [TypeName.mk.sizeOf_spec]
  omega

section

variable {claim : TypeRef → Prop}
  (type : ∀ segments suffix, (∀ name ∈ segments, ∀ t ∈ TypeName.arguments name, claim t) →
    claim ⟨segments, suffix⟩)

include type

/-- What holds of every type reference as soon as it holds of its type arguments. -/
@[elab_as_elim]
theorem TypeRef.induction : ∀ reference : TypeRef, claim reference
  | ⟨segments, suffix⟩ => type segments suffix fun name hname reference h =>
    have _hless := List.sizeOf_lt_of_mem h
    have _harguments := name.sizeOf_arguments
    have _hinside := List.sizeOf_lt_of_mem hname
    TypeRef.induction reference
termination_by reference => sizeOf reference
decreasing_by all_goals decreasing_with omega

end

end ApexLayout
