import ApexLayout.Proofs.Induction

/-!
Nodes of every sort.

A tree is made of values of many types. `Node` brings them under one, so that what is said of a whole
tree can be said of each node and of the nodes directly below it: `Node.children` lists these,
`Node.Inside` holds of the nodes at any depth, and `Node.induction` proves a claim about a node from
the same claim about its children. `Node.OnOneLine` says that no text at any depth breaks a line.
-/

namespace ApexLayout

/-- A node of a tree. -/
inductive Node
  | type (reference : TypeRef)
  | primary (leaf : Primary)
  | expression (expression : Expression)
  | link (link : Link)
  | creatorBody (body : CreatorBody)
  | declarator (declarator : Declarator)
  /-- Variables declared in a class body. -/
  | field (declaration : VariableDeclaration)
  /-- Variables declared in a block or in the header of a loop. -/
  | localVariable (declaration : VariableDeclaration)
  | forInit (init : ForInit)
  | forControl (control : ForControl)
  | statement (statement : Statement)
  | catchClause (clause : CatchClause)
  | block (body : Block)
  | parameter (parameter : Parameter)
  | method (method : Method)
  | constructor (constructor : Constructor)
  | accessor (accessor : Accessor)
  | property (property : Property)
  | initializer (initializer : Initializer)
  | declaration (declaration : Declaration)
  | member (member : Member)
  | compilationUnit (unit : CompilationUnit)

namespace Node

/-- The nodes directly below a node, from left to right. -/
def children : Node → List Node
  | type reference => (reference.segments.flatMap TypeName.arguments).map type
  | primary (.path reference) => [type reference]
  | primary (.classLiteral reference) => [type reference]
  | primary _ => []
  | expression (.assignment target _ value) => [expression target, expression value]
  | expression (.conditional condition thenValue elseValue) =>
    [expression condition, expression thenValue, expression elseValue]
  | expression (.binary _ _ left right) => [expression left, expression right]
  | expression (.unary _ _ operand) => [expression operand]
  | expression (.cast reference operand) => [type reference, expression operand]
  | expression (.instanceOf operand reference) => [expression operand, type reference]
  | expression (.creation reference body) => [type reference, creatorBody body]
  | expression (.arrayAccess array index) => [expression array, expression index]
  | expression (.chain receiver step) => [expression receiver, link step]
  | expression (.call _ arguments) => arguments.map expression
  | expression (.parenthesized inner) => [expression inner]
  | expression (.primary leaf) => [primary leaf]
  | link step => step.inner.map expression
  | creatorBody body => body.inner.map expression
  | declarator item => item.initializer.toList.map expression
  | field declared => type declared.type :: declared.declarators.map declarator
  | localVariable declared => type declared.type :: declared.declarators.map declarator
  | forInit (.variables declared) => [localVariable declared]
  | forInit (.expressions items) => items.map expression
  | forControl (.each _ reference _ iterable) => [type reference, expression iterable]
  | forControl (.counting init condition update) =>
    init.toList.map forInit ++ (condition.toList ++ update).map expression
  | statement (.block body) => [block body]
  | statement (.ifElse condition thenBranch elseBranch) =>
    expression condition :: statement thenBranch :: elseBranch.toList.map statement
  | statement (.whileLoop condition body) => [expression condition, statement body]
  | statement (.forLoop control body) => [forControl control, statement body]
  | statement (.tryCatch body catches cleanup) =>
    block body :: (catches.map catchClause ++ cleanup.toList.map block)
  | statement (.returnValue value) => value.toList.map expression
  | statement (.throwValue value) => [expression value]
  | statement .breakLoop => []
  | statement .continueLoop => []
  | statement (.dml _ operand) => [expression operand]
  | statement (.variables declared) => [localVariable declared]
  | statement (.expression value) => [expression value]
  | catchClause clause => [type clause.type, block clause.body]
  | block body => body.map statement
  | parameter item => [type item.type]
  | method body =>
    body.returnType.toList.map type ++ (body.parameters.map parameter ++ body.body.toList.map block)
  | constructor body => body.parameters.map parameter ++ [block body.body]
  | accessor body => body.body.toList.map block
  | property body => type body.type :: body.accessors.map accessor
  | initializer body => [block body.body]
  | declaration (.classType _ _ parent interfaces body) =>
    (parent.toList ++ interfaces).map type ++ body.map member
  | declaration (.interfaceType _ _ parents body) => parents.map type ++ body.map member
  | declaration (.enumType ..) => []
  | member (.method body) => [method body]
  | member (.field declared) => [field declared]
  | member (.constructor body) => [constructor body]
  | member (.property body) => [property body]
  | member (.initializer body) => [initializer body]
  | member (.declaration nested) => [declaration nested]
  | member .empty => []
  | compilationUnit unit => [declaration unit.declaration]

/-- A node stands in a tree: it is the root, or stands in a tree below it. -/
inductive Inside (inner : Node) : Node → Prop
  | root : Inside inner inner
  | under {node child : Node} (mem : child ∈ node.children) (inside : Inside inner child) :
      Inside inner node

/-- The texts that a node holds itself. -/
def ownTexts : Node → List Text
  | type reference => reference.suffix :: reference.segments.map TypeName.name
  | primary (.literal text) => [text]
  | primary (.identifier name) => [name]
  | primary (.query embedded) => [embedded.text]
  | expression (.assignment _ operator _) => [operator]
  | expression (.binary _ operator _ _) => [operator]
  | expression (.unary _ operator _) => [operator]
  | expression (.call name _) => [name]
  | link step => [step.member]
  | declarator item => [item.name]
  | field declared => declared.modifiers
  | localVariable declared => declared.modifiers
  | forControl (.each modifiers _ name _) => name :: modifiers
  | statement (.dml operation _) => [operation]
  | catchClause clause => clause.name :: clause.modifiers
  | parameter item => item.name :: item.modifiers
  | method body => body.name :: body.modifiers
  | constructor body => body.name ++ body.modifiers
  | accessor body => body.modifiers
  | property body => body.name :: body.modifiers
  | declaration (.enumType modifiers name constants) => name :: (modifiers ++ constants)
  | declaration tree => tree.name :: tree.modifiers
  | _ => []

/-- No text in a node contains a newline. -/
def OnOneLine (node : Node) : Prop :=
  ∀ inner, Inside inner node → ∀ text ∈ inner.ownTexts, '\n' ∉ text

theorem onOneLine_iff (node : Node) : node.OnOneLine ↔
    (∀ text ∈ node.ownTexts, '\n' ∉ text) ∧ ∀ child ∈ node.children, child.OnOneLine := by
  constructor
  · intro h
    exact ⟨h node .root, fun child hmem inner hinside => h inner (.under hmem hinside)⟩
  · rintro ⟨hown, hchildren⟩ inner hinside
    cases hinside with
    | root => exact hown
    | under hmem hinside => exact hchildren _ hmem inner hinside

/-! ## Induction -/

section

variable {claim : Node → Prop}
  (step : ∀ node : Node, (∀ child ∈ node.children, claim child) → claim node)

include step

theorem induction_type (reference : TypeRef) : claim (type reference) := by
  induction reference using TypeRef.induction with
  | type segments suffix ih =>
    refine step _ (List.forall_mem_map.2 fun argument hargument => ?_)
    obtain ⟨name, hname, hargument⟩ := List.mem_flatMap.1 hargument
    exact ih name hname argument hargument

theorem induction_primary (leaf : Primary) : claim (primary leaf) := by
  cases leaf with
  | path reference => exact step _ (List.forall_mem_singleton.2 (induction_type step reference))
  | classLiteral reference =>
    exact step _ (List.forall_mem_singleton.2 (induction_type step reference))
  | _ => exact step _ nofun

theorem induction_expression (tree : Expression) : claim (expression tree) := by
  induction tree using Expression.induction with
  | assignment target operator value htarget hvalue =>
    exact step _ (by simp [children, htarget, hvalue])
  | conditional condition thenValue elseValue hcondition hthen helse =>
    exact step _ (by simp [children, hcondition, hthen, helse])
  | binary kind operator left right hleft hright => exact step _ (by simp [children, hleft, hright])
  | unary fixity operator operand hoperand => exact step _ (by simp [children, hoperand])
  | cast reference operand hoperand =>
    exact step _ (by simp [children, hoperand, induction_type step reference])
  | instanceOf operand reference hoperand =>
    exact step _ (by simp [children, hoperand, induction_type step reference])
  | creation reference body hbody =>
    have hcreator : claim (creatorBody body) := step _ (List.forall_mem_map.2 hbody)
    exact step _ (by simp [children, hcreator, induction_type step reference])
  | arrayAccess array index harray hindex => exact step _ (by simp [children, harray, hindex])
  | chain receiver member hreceiver harguments =>
    have hlink : claim (link member) := step _ (List.forall_mem_map.2 harguments)
    exact step _ (by simp [children, hreceiver, hlink])
  | call name arguments harguments => exact step _ (List.forall_mem_map.2 harguments)
  | parenthesized inner hinner => exact step _ (by simp [children, hinner])
  | primary leaf => exact step _ (by simp [children, induction_primary step leaf])

theorem induction_expressions (items : List Expression) :
    ∀ child ∈ items.map expression, claim child :=
  List.forall_mem_map.2 fun item _ => induction_expression step item

theorem induction_declarators (items : List Declarator) :
    ∀ child ∈ items.map declarator, claim child :=
  List.forall_mem_map.2 fun _ _ => step _ (induction_expressions step _)

theorem induction_localVariable (declared : VariableDeclaration) : claim (localVariable declared) :=
  step _ (List.forall_mem_cons.2
    ⟨induction_type step _, induction_declarators step declared.declarators⟩)

theorem induction_forInit (init : ForInit) : claim (forInit init) := by
  cases init with
  | «variables» declaration =>
    exact step _ (List.forall_mem_singleton.2 (induction_localVariable step declaration))
  | expressions items => exact step _ (induction_expressions step items)

theorem induction_forControl (control : ForControl) : claim (forControl control) := by
  cases control with
  | each modifiers reference name iterable =>
    exact step _ (by
      simp [children, induction_type step reference, induction_expression step iterable])
  | counting init condition update =>
    exact step _ (List.forall_mem_append.2 ⟨List.forall_mem_map.2 fun item _ =>
      induction_forInit step item, induction_expressions step _⟩)

theorem induction_block (body : Block) (h : ∀ item ∈ body, claim (statement item)) :
    claim (block body) :=
  step _ (List.forall_mem_map.2 h)

theorem induction_statement (tree : Statement) : claim (statement tree) := by
  have hexpression := induction_expression step
  -- blocks and clauses stand between a statement and the statements inside it
  induction tree using Statement.induction with
  | block body hbody => exact step _ (List.forall_mem_singleton.2 (induction_block step body hbody))
  | ifElse condition thenBranch elseBranch hthen helse =>
    refine step _ (List.forall_mem_cons.2 ⟨hexpression condition, List.forall_mem_cons.2 ⟨hthen, ?_⟩⟩)
    exact List.forall_mem_map.2 fun item hitem => helse item (by simpa using hitem)
  | whileLoop condition body hbody => exact step _ (by simp [children, hexpression, hbody])
  | forLoop control body hbody =>
    exact step _ (by simp [children, induction_forControl step control, hbody])
  | tryCatch body catches cleanup hbody hcatches hcleanup =>
    refine step _ (List.forall_mem_cons.2 ⟨induction_block step body hbody,
      List.forall_mem_append.2 ⟨List.forall_mem_map.2 fun clause hclause => ?_,
        List.forall_mem_map.2 fun last hlast => ?_⟩⟩)
    · have hblock := induction_block step clause.body (hcatches clause hclause)
      exact step _ (by simp [children, induction_type step clause.type, hblock])
    · exact induction_block step last (hcleanup last (by simpa using hlast))
  | returnValue value => exact step _ (induction_expressions step value.toList)
  | throwValue value => exact step _ (by simp [children, hexpression])
  | breakLoop => exact step _ nofun
  | continueLoop => exact step _ nofun
  | dml operation operand => exact step _ (by simp [children, hexpression])
  | locals declaration => exact step _ (by simp [children, induction_localVariable step declaration])
  | expression value => exact step _ (by simp [children, hexpression])

theorem induction_blocks (bodies : List Block) : ∀ child ∈ bodies.map block, claim child :=
  List.forall_mem_map.2 fun body _ =>
    induction_block step body fun item _ => induction_statement step item

theorem induction_types (references : List TypeRef) : ∀ child ∈ references.map type, claim child :=
  List.forall_mem_map.2 fun reference _ => induction_type step reference

theorem induction_parameters (parameters : List Parameter) :
    ∀ child ∈ parameters.map parameter, claim child :=
  List.forall_mem_map.2 fun item _ => step _ (induction_types step [item.type])

theorem induction_method (body : Method) : claim (method body) :=
  step _ (List.forall_mem_append.2 ⟨induction_types step _,
    List.forall_mem_append.2 ⟨induction_parameters step _, induction_blocks step _⟩⟩)

theorem induction_constructor (body : Constructor) : claim (constructor body) :=
  step _ (List.forall_mem_append.2 ⟨induction_parameters step _, induction_blocks step [body.body]⟩)

theorem induction_accessor (body : Accessor) : claim (accessor body) :=
  step _ (induction_blocks step _)

theorem induction_property (body : Property) : claim (property body) :=
  step _ (List.forall_mem_cons.2 ⟨induction_type step _,
    List.forall_mem_map.2 fun item _ => induction_accessor step item⟩)

theorem induction_field (declared : VariableDeclaration) : claim (field declared) :=
  step _ (List.forall_mem_cons.2
    ⟨induction_type step _, induction_declarators step declared.declarators⟩)

theorem induction_initializer (body : Initializer) : claim (initializer body) :=
  step _ (induction_blocks step [body.body])

theorem induction_declaration (tree : Declaration) : claim (declaration tree) := by
  refine Declaration.induction (fun tree => claim (declaration tree)) (fun tree => claim (member tree))
    ?classType ?interfaceType ?enumType ?method ?field ?constructor ?property ?initializer
    ?nested ?empty tree
  case classType =>
    intro modifiers name parent interfaces body hbody
    exact step _ (List.forall_mem_append.2 ⟨induction_types step _, List.forall_mem_map.2 hbody⟩)
  case interfaceType =>
    intro modifiers name parents body hbody
    exact step _ (List.forall_mem_append.2 ⟨induction_types step _, List.forall_mem_map.2 hbody⟩)
  case enumType => exact fun _ _ _ => step _ nofun
  case method => exact fun body => step _ (List.forall_mem_singleton.2 (induction_method step body))
  case field =>
    exact fun declared => step _ (List.forall_mem_singleton.2 (induction_field step declared))
  case constructor =>
    exact fun body => step _ (List.forall_mem_singleton.2 (induction_constructor step body))
  case property =>
    exact fun body => step _ (List.forall_mem_singleton.2 (induction_property step body))
  case initializer =>
    exact fun body => step _ (List.forall_mem_singleton.2 (induction_initializer step body))
  case nested => exact fun nested hnested => step _ (List.forall_mem_singleton.2 hnested)
  case empty => exact step _ nofun

/-- What holds of every node as soon as it holds of its children. -/
theorem induction : ∀ node : Node, claim node
  | type reference => induction_type step reference
  | primary leaf => induction_primary step leaf
  | expression tree => induction_expression step tree
  | link joined => step _ (induction_expressions step joined.inner)
  | creatorBody body => step _ (induction_expressions step body.inner)
  | declarator item => step _ (induction_expressions step item.initializer.toList)
  | field declared => induction_field step declared
  | localVariable declared => induction_localVariable step declared
  | forInit init => induction_forInit step init
  | forControl control => induction_forControl step control
  | statement tree => induction_statement step tree
  | catchClause clause => step _ (List.forall_mem_cons.2
      ⟨induction_type step clause.type, induction_blocks step [clause.body]⟩)
  | block body => induction_block step body fun item _ => induction_statement step item
  | parameter item => step _ (induction_types step [item.type])
  | method body => induction_method step body
  | constructor body => induction_constructor step body
  | accessor body => induction_accessor step body
  | property body => induction_property step body
  | initializer body => induction_initializer step body
  | declaration tree => induction_declaration step tree
  | member tree => by
    cases tree with
    | method body => exact step _ (List.forall_mem_singleton.2 (induction_method step body))
    | field declared => exact step _ (List.forall_mem_singleton.2 (induction_field step declared))
    | constructor body =>
      exact step _ (List.forall_mem_singleton.2 (induction_constructor step body))
    | property body => exact step _ (List.forall_mem_singleton.2 (induction_property step body))
    | initializer body =>
      exact step _ (List.forall_mem_singleton.2 (induction_initializer step body))
    | declaration nested =>
      exact step _ (List.forall_mem_singleton.2 (induction_declaration step nested))
    | empty => exact step _ nofun
  | compilationUnit unit =>
    step _ (List.forall_mem_singleton.2 (induction_declaration step unit.declaration))

end

/-! ## Expressions on one line -/

section

variable {claim : Expression → Prop}
  (assignment : ∀ target operator value, '\n' ∉ operator → claim target → claim value →
    claim (.assignment target operator value))
  (conditional : ∀ condition thenValue elseValue, claim condition → claim thenValue →
    claim elseValue → claim (.conditional condition thenValue elseValue))
  (binary : ∀ kind operator left right, '\n' ∉ operator → claim left → claim right →
    claim (.binary kind operator left right))
  (unary : ∀ fixity operator operand, '\n' ∉ operator → claim operand →
    claim (.unary fixity operator operand))
  (cast : ∀ reference operand, (type reference).OnOneLine → claim operand →
    claim (.cast reference operand))
  (instanceOf : ∀ operand reference, claim operand → (type reference).OnOneLine →
    claim (.instanceOf operand reference))
  (creation : ∀ reference body, (type reference).OnOneLine → (creatorBody body).OnOneLine →
    (∀ item ∈ body.inner, claim item) → claim (.creation reference body))
  (arrayAccess : ∀ array index, claim array → claim index → claim (.arrayAccess array index))
  (chain : ∀ receiver step, claim receiver → (link step).OnOneLine →
    (∀ item ∈ step.inner, claim item) → claim (.chain receiver step))
  (call : ∀ name arguments, '\n' ∉ name → (∀ item ∈ arguments, (expression item).OnOneLine) →
    (∀ item ∈ arguments, claim item) → claim (.call name arguments))
  (parenthesized : ∀ inner, claim inner → claim (.parenthesized inner))
  (leaf : ∀ leaf, (primary leaf).OnOneLine → claim (.primary leaf))

include assignment conditional binary unary cast instanceOf creation arrayAccess chain call
  parenthesized leaf

/-- What holds of every expression whose texts break no line as soon as it holds of the expressions
inside it. -/
theorem OnOneLine.induction_expression (tree : Expression) :
    (expression tree).OnOneLine → claim tree := by
  induction tree using Expression.induction with
  | assignment target operator value htarget hvalue =>
    intro h
    obtain ⟨hown, hchildren⟩ := (onOneLine_iff _).1 h
    simp only [ownTexts, children, List.forall_mem_cons] at hown hchildren
    exact assignment _ _ _ hown.1 (htarget hchildren.1) (hvalue hchildren.2.1)
  | conditional condition thenValue elseValue hcondition hthen helse =>
    intro h
    obtain ⟨-, hchildren⟩ := (onOneLine_iff _).1 h
    simp only [children, List.forall_mem_cons] at hchildren
    exact conditional _ _ _ (hcondition hchildren.1) (hthen hchildren.2.1) (helse hchildren.2.2.1)
  | binary kind operator left right hleft hright =>
    intro h
    obtain ⟨hown, hchildren⟩ := (onOneLine_iff _).1 h
    simp only [ownTexts, children, List.forall_mem_cons] at hown hchildren
    exact binary _ _ _ _ hown.1 (hleft hchildren.1) (hright hchildren.2.1)
  | unary fixity operator operand hoperand =>
    intro h
    obtain ⟨hown, hchildren⟩ := (onOneLine_iff _).1 h
    simp only [ownTexts, children, List.forall_mem_cons] at hown hchildren
    exact unary _ _ _ hown.1 (hoperand hchildren.1)
  | cast reference operand hoperand =>
    intro h
    obtain ⟨-, hchildren⟩ := (onOneLine_iff _).1 h
    simp only [children, List.forall_mem_cons] at hchildren
    exact cast _ _ hchildren.1 (hoperand hchildren.2.1)
  | instanceOf operand reference hoperand =>
    intro h
    obtain ⟨-, hchildren⟩ := (onOneLine_iff _).1 h
    simp only [children, List.forall_mem_cons] at hchildren
    exact instanceOf _ _ (hoperand hchildren.1) hchildren.2.1
  | creation reference body hbody =>
    intro h
    obtain ⟨-, hchildren⟩ := (onOneLine_iff _).1 h
    simp only [children, List.forall_mem_cons] at hchildren
    have hitems := ((onOneLine_iff _).1 hchildren.2.1).2
    refine creation _ _ hchildren.1 hchildren.2.1 fun item hitem => ?_
    exact hbody item hitem (hitems _ (List.mem_map_of_mem hitem))
  | arrayAccess array index harray hindex =>
    intro h
    obtain ⟨-, hchildren⟩ := (onOneLine_iff _).1 h
    simp only [children, List.forall_mem_cons] at hchildren
    exact arrayAccess _ _ (harray hchildren.1) (hindex hchildren.2.1)
  | chain receiver step hreceiver hstep =>
    intro h
    obtain ⟨-, hchildren⟩ := (onOneLine_iff _).1 h
    simp only [children, List.forall_mem_cons] at hchildren
    have hitems := ((onOneLine_iff _).1 hchildren.2.1).2
    refine chain _ _ (hreceiver hchildren.1) hchildren.2.1 fun item hitem => ?_
    exact hstep item hitem (hitems _ (List.mem_map_of_mem hitem))
  | call name arguments harguments =>
    intro h
    obtain ⟨hown, hchildren⟩ := (onOneLine_iff _).1 h
    have hitems := List.forall_mem_map.1 hchildren
    exact call _ _ (hown _ List.mem_cons_self) hitems fun item hitem =>
      harguments item hitem (hitems item hitem)
  | parenthesized inner hinner =>
    intro h
    obtain ⟨-, hchildren⟩ := (onOneLine_iff _).1 h
    exact parenthesized _ (hinner (hchildren _ List.mem_cons_self))
  | primary tree =>
    intro h
    obtain ⟨-, hchildren⟩ := (onOneLine_iff _).1 h
    exact leaf _ (hchildren _ List.mem_cons_self)

end

end Node

end ApexLayout
