import ApexLayout.Proofs.Coverage
import ApexLayout.Proofs.Node
import ApexLayout.Tree.Equality

/-!
An `else` belongs to the nearest `if`.

A statement is open when an `else` behind it would become part of it. The rule for statements looks
for an `else` as soon as it has read the branch of an `if`, so an open statement that has been read
stands in front of something else (`Grammar.paired_statement`), and no branch in front of an `else`
is open. `Grammar.Yields` says what a rule makes of all streams; it carries this to whole sources.
-/

namespace ApexLayout

/-! ## Open statements -/

mutual

/-- Whether an `else` behind the statement would belong to an `if` inside it. -/
def Statement.isOpen : Statement → Bool
  | .ifElse _ _ elseBranch => Statement.isOpenEnd elseBranch
  | .whileLoop _ body => body.isOpen
  | .forLoop _ body => body.isOpen
  | _ => false

/-- Whether the `else` branch of an `if` is missing or open. -/
def Statement.isOpenEnd : Option Statement → Bool
  | none => true
  | some branch => branch.isOpen

end

namespace Node

/-- No branch in front of an `else` is open, at any depth. -/
def ElseNearest (node : Node) : Prop :=
  ∀ condition thenBranch branch,
    Inside (.statement (.ifElse condition thenBranch (some branch))) node →
    thenBranch.isOpen = false

/-- Whether the branch in front of the `else` of a node itself is closed. -/
def elseAllowed : Node → Bool
  | .statement (.ifElse _ thenBranch (some _)) => !thenBranch.isOpen
  | _ => true

theorem elseNearest_iff (node : Node) : node.ElseNearest ↔
    node.elseAllowed = true ∧ ∀ child ∈ node.children, child.ElseNearest := by
  constructor
  · intro h
    refine ⟨?_, fun child hmem condition thenBranch branch hinside =>
      h condition thenBranch branch (.under hmem hinside)⟩
    unfold elseAllowed
    split
    · rw [h _ _ _ .root]
      rfl
    · rfl
  · rintro ⟨hown, hchildren⟩ condition thenBranch branch hinside
    cases hinside with
    | root => simpa [elseAllowed] using hown
    | under hmem hinside => exact hchildren _ hmem condition thenBranch branch hinside

/-- Whether the node is of a sort that no statement stands inside. -/
def isHeader : Node → Bool
  | .type _ | .primary _ | .expression _ | .link _ | .creatorBody _ | .declarator _ | .field _
  | .localVariable _ | .forInit _ | .forControl _ | .parameter _ => true
  | _ => false

theorem isHeader_children {node : Node} (h : node.isHeader = true) :
    ∀ child ∈ node.children, child.isHeader = true := by
  -- most children are lists of one sort of nodes
  have hlist : ∀ {α : Type} {sort : α → Node}, (∀ value, (sort value).isHeader = true) →
      ∀ values : List α, ∀ child ∈ values.map sort, child.isHeader = true :=
    fun hsort values => List.forall_mem_map.2 fun value _ => hsort value
  cases node with
  | expression tree =>
    cases tree with
    | call => exact hlist (fun _ => rfl) _
    | conditional =>
      exact List.forall_mem_cons.2 ⟨rfl, List.forall_mem_cons.2 ⟨rfl, List.forall_mem_singleton.2 rfl⟩⟩
    | unary | parenthesized | primary => exact List.forall_mem_singleton.2 rfl
    | _ => exact List.forall_mem_cons.2 ⟨rfl, List.forall_mem_singleton.2 rfl⟩
  | primary leaf =>
    cases leaf with
    | path | classLiteral => exact List.forall_mem_singleton.2 rfl
    | _ => exact nofun
  | forInit init =>
    cases init with
    | «variables» => exact List.forall_mem_singleton.2 rfl
    | expressions items => exact hlist (fun _ => rfl) items
  | forControl control =>
    cases control with
    | each => exact List.forall_mem_cons.2 ⟨rfl, List.forall_mem_singleton.2 rfl⟩
    | counting => exact List.forall_mem_append.2 ⟨hlist (fun _ => rfl) _, hlist (fun _ => rfl) _⟩
  | type | link | creatorBody | declarator => exact hlist (fun _ => rfl) _
  | field | localVariable => exact List.forall_mem_cons.2 ⟨rfl, hlist (fun _ => rfl) _⟩
  | parameter => exact List.forall_mem_singleton.2 rfl
  | _ => cases h

theorem isHeader_inside {inner node : Node} (hinside : Inside inner node) :
    node.isHeader = true → inner.isHeader = true := by
  induction hinside with
  | root => exact id
  | under hmem _ ih => exact fun h => ih (isHeader_children h _ hmem)

/-- Where there are no statements no `else` is misplaced. -/
theorem ElseNearest.header {node : Node} (h : node.isHeader = true) : node.ElseNearest := by
  intro condition thenBranch branch hinside
  cases isHeader_inside hinside h

/-- A node other than a statement is as good as its children. -/
theorem ElseNearest.node {node : Node} (hother : node.elseAllowed = true)
    (h : ∀ child ∈ node.children, child.ElseNearest) : node.ElseNearest :=
  (elseNearest_iff node).2 ⟨hother, h⟩

/-- The good nodes of a list of values, each as a node of one sort. -/
theorem ElseNearest.map {α : Type} {sort : α → Node} {values : List α}
    (h : ∀ value ∈ values, (sort value).ElseNearest) :
    ∀ child ∈ values.map sort, child.ElseNearest :=
  List.forall_mem_map.2 h

theorem ElseNearest.headers {α : Type} {sort : α → Node} (hsort : ∀ value, (sort value).isHeader = true)
    (values : List α) : ∀ child ∈ values.map sort, child.ElseNearest :=
  List.forall_mem_map.2 fun value _ => .header (hsort value)

theorem ElseNearest.block {body : Block} (h : ∀ item ∈ body, (statement item).ElseNearest) :
    (Node.block body).ElseNearest :=
  .node rfl (.map h)

end Node

/-! ## What rules make -/

namespace Grammar

variable {α β : Type}

/-- Whatever the rule makes of a stream is good, together with the stream it leaves. -/
def Yields (rule : Grammar α) (good : α → TokenStream → Prop) : Prop :=
  ∀ source value rest, rule source = .ok value rest → good value rest

namespace Yields

variable {good better : α → TokenStream → Prop} {goodNext : β → TokenStream → Prop}
  {fine : α → Prop}

theorem mono {rule : Grammar α} (h : Yields rule better)
    (hmono : ∀ value rest, better value rest → good value rest) : Yields rule good :=
  fun source value rest hrule => hmono value rest (h source value rest hrule)

theorem pure {value : α} (h : fine value) : Yields (Pure.pure value) fun value _ => fine value := by
  rintro source value rest ⟨⟩
  exact h

theorem fail (expected : Expectation) : Yields (Grammar.fail expected) good := by
  rintro source value rest ⟨⟩

theorem bind {first : Grammar α} {next : α → Grammar β}
    (hfirst : Yields first fun value _ => fine value)
    (hnext : ∀ value, fine value → Yields (next value) goodNext) :
    Yields (first >>= next) goodNext := by
  intro source value rest h
  obtain ⟨a, middle, ha, h⟩ := Reader.bind_eq_ok.1 h
  exact hnext a (hfirst _ _ _ ha) _ _ _ h

/-- Behind a part that does not matter. -/
theorem after {first : Grammar α} {next : α → Grammar β}
    (hnext : ∀ value, Yields (next value) goodNext) : Yields (first >>= next) goodNext := by
  intro source value rest h
  obtain ⟨a, middle, -, h⟩ := Reader.bind_eq_ok.1 h
  exact hnext a _ _ _ h

theorem ite {condition : Prop} [Decidable condition] {first second : Grammar α}
    (hfirst : Yields first good) (hsecond : Yields second good) :
    Yields (if condition then first else second) good := by
  split
  · exact hfirst
  · exact hsecond

theorem optional {test : Grammar Bool} {rule : Grammar α}
    (h : Yields rule fun value _ => fine value) :
    Yields (Reader.optional test rule) fun found _ => ∀ value ∈ found, fine value := by
  intro source found rest hfound value hvalue
  obtain rfl : found = some value := Option.mem_def.1 hvalue
  obtain ⟨middle, -, hrule⟩ := Reader.optional_eq_some.1 hfound
  exact h _ _ _ hrule

/-- All items of a row that a test keeps going are good. -/
theorem optionals {test : Grammar Bool} {rule : Grammar α}
    (h : Yields rule fun value _ => fine value) :
    Yields (Reader.many (Reader.optional test rule)) fun values _ => ∀ value ∈ values, fine value := by
  intro source values rest hvalues
  refine (Reader.many_eq_ok.1 hvalues).forall_mem fun _ value _ hitem => ?_
  exact h.optional _ _ _ hitem value rfl

theorem recursive {rule : Grammar α → Grammar α}
    (h : ∀ inner, Yields inner good → Yields (rule inner) good) :
    Yields (Reader.recursive rule) good :=
  Reader.recursive_induction fun inner hinner => h inner hinner

end Yields

/-! ## Statements -/

/-- Every `else` in the statement belongs to the nearest `if`, and if the statement is open no
`else` stands behind it. -/
structure Paired (value : Statement) (rest : TokenStream) : Prop where
  nearest : (Node.statement value).ElseNearest
  taken : value.isOpen = true → rest.wordAt 0 "else" = false

/-- Every `else` in the statement belongs to the nearest `if`, and the statement is not open. -/
structure Complete (value : Statement) : Prop where
  nearest : (Node.statement value).ElseNearest
  closed : value.isOpen = false

theorem Complete.paired {value : Statement} (h : Complete value) (rest : TokenStream) :
    Paired value rest := by
  refine ⟨h.nearest, fun hopen => ?_⟩
  rw [h.closed] at hopen
  cases hopen

/-- A statement over parts that no statement stands inside. -/
theorem Complete.simple {value : Statement} (hopen : value.isOpen = false)
    (hallowed : (Node.statement value).elseAllowed = true)
    (h : ∀ child ∈ (Node.statement value).children, child.isHeader = true) : Complete value :=
  ⟨.node hallowed fun child hmem => .header (h child hmem), hopen⟩

theorem yields_blockOf {inner : Grammar Statement}
    (h : Yields inner fun value _ => (Node.statement value).ElseNearest) :
    Yields (blockOf inner) fun body _ => (Node.block body).ElseNearest :=
  .after fun _ => .bind (.optionals h) fun _ hbody => .after fun _ => .pure (.block hbody)

theorem yields_ended {statement : Statement} (h : Complete statement) :
    Yields (ended statement) fun value _ => Complete value :=
  .after fun _ => .pure h

section

variable {inner : Grammar Statement}
  (hinner : Yields inner Paired)

include hinner

/-- An open branch of an `if` takes the `else` behind it for itself. -/
theorem yields_ifElse : Yields (ifElse inner) Paired := by
  intro source value rest h
  obtain ⟨condition, first, -, h⟩ := Reader.bind_eq_ok.1 h
  obtain ⟨thenBranch, second, hthen, h⟩ := Reader.bind_eq_ok.1 h
  obtain ⟨elseBranch, last, helse, h⟩ := Reader.bind_eq_ok.1 h
  cases h
  have hcondition : (Node.expression condition).ElseNearest := .header rfl
  have hbranch := hinner _ _ _ hthen
  cases elseBranch with
  | none =>
    obtain ⟨hnone, rfl⟩ := takeWord_eq_ok.1 (Reader.optional_eq_none.1 helse)
    refine ⟨.node rfl ?_, fun _ => hnone⟩
    exact List.forall_mem_cons.2 ⟨hcondition, List.forall_mem_singleton.2 hbranch.nearest⟩
  | some branch =>
    obtain ⟨middle, hword, helse⟩ := Reader.optional_eq_some.1 helse
    obtain ⟨hfound, rfl⟩ := takeWord_eq_ok.1 hword
    have hlast := hinner _ _ _ helse
    -- an open branch would have been followed by something other than an else
    have hclosed : thenBranch.isOpen = false := by
      rw [Bool.eq_false_iff]
      intro hopen
      rw [hbranch.taken hopen] at hfound
      cases hfound
    refine ⟨.node ?_ ?_, hlast.taken⟩
    · show (!thenBranch.isOpen) = true
      rw [hclosed]
      rfl
    · exact List.forall_mem_cons.2 ⟨hcondition, List.forall_mem_cons.2
        ⟨hbranch.nearest, List.forall_mem_singleton.2 hlast.nearest⟩⟩

theorem yields_whileLoop : Yields (whileLoop inner) Paired := by
  intro source value rest h
  obtain ⟨condition, first, -, h⟩ := Reader.bind_eq_ok.1 h
  obtain ⟨body, last, hbody, h⟩ := Reader.bind_eq_ok.1 h
  cases h
  have hbody := hinner _ _ _ hbody
  have hcondition : (Node.expression condition).ElseNearest := .header rfl
  exact ⟨.node rfl (List.forall_mem_cons.2 ⟨hcondition, List.forall_mem_singleton.2 hbody.nearest⟩),
    hbody.taken⟩

theorem yields_forLoop : Yields (forLoop inner) Paired := by
  intro source value rest h
  obtain ⟨_, first, -, h⟩ := Reader.bind_eq_ok.1 h
  obtain ⟨control, second, -, h⟩ := Reader.bind_eq_ok.1 h
  obtain ⟨_, third, -, h⟩ := Reader.bind_eq_ok.1 h
  obtain ⟨body, last, hbody, h⟩ := Reader.bind_eq_ok.1 h
  cases h
  have hbody := hinner _ _ _ hbody
  have hcontrol : (Node.forControl control).ElseNearest := .header rfl
  exact ⟨.node rfl (List.forall_mem_cons.2 ⟨hcontrol, List.forall_mem_singleton.2 hbody.nearest⟩),
    hbody.taken⟩

theorem yields_tryCatch : Yields (tryCatch inner) fun value _ => Complete value := by
  have hblock := yields_blockOf (hinner.mono fun _ _ => Paired.nearest)
  have hclause : Yields (catchClause inner) fun clause _ => (Node.catchClause clause).ElseNearest := by
    refine .after fun _ => .after fun _ => .after fun type => .after fun _ => .after fun _ => ?_
    refine .bind hblock fun body hbody => .pure (.node rfl ?_)
    have htype : (Node.type type).ElseNearest := .header rfl
    exact List.forall_mem_cons.2 ⟨htype, List.forall_mem_singleton.2 hbody⟩
  refine .bind hblock fun body hbody => ?_
  refine .bind (.optionals hclause) fun catches hcatches => ?_
  refine .bind (.optional hblock) fun cleanup hcleanup => .after fun _ => .pure ⟨.node rfl ?_, rfl⟩
  refine List.forall_mem_cons.2 ⟨hbody, List.forall_mem_append.2 ⟨.map hcatches, .map ?_⟩⟩
  exact fun last hlast => hcleanup last (Option.mem_toList.1 hlast)

end

theorem yields_simpleStatement : Yields simpleStatement fun value _ => Complete value := by
  refine .after fun found => ?_
  cases found with
  | some declaration => exact yields_ended (.simple rfl rfl (List.forall_mem_singleton.2 rfl))
  | none =>
    exact .after fun value => yields_ended (.simple rfl rfl (List.forall_mem_singleton.2 rfl))

theorem yields_dml : Yields dml fun value _ => Complete value :=
  .after fun _ => .after fun _ => yields_ended (.simple rfl rfl (List.forall_mem_singleton.2 rfl))

/-- What is read as a statement has every `else` with the nearest `if`, and leaves none behind that
it could take. -/
theorem paired_statement : Yields statement Paired := by
  refine .recursive fun inner hinner => ?_
  have hblock := yields_blockOf (hinner.mono fun _ _ => Paired.nearest)
  have hcomplete : ∀ {rule : Grammar Statement}, Yields rule (fun value _ => Complete value) →
      Yields rule Paired := fun h => h.mono fun _ rest hvalue => hvalue.paired rest
  refine .after fun _ => .ite (hcomplete ?_) ?_
  · exact .bind hblock fun body hbody => .pure
      ⟨.node rfl (List.forall_mem_singleton.2 hbody), rfl⟩
  refine .after fun _ => .ite (yields_ifElse hinner) ?_
  refine .after fun _ => .ite (yields_whileLoop hinner) ?_
  refine .after fun _ => .ite (yields_forLoop hinner) (hcomplete ?_)
  refine .after fun _ => .ite (yields_tryCatch hinner) ?_
  -- all other statements hold no statements
  refine .after fun _ => .ite (.after fun value => yields_ended ?_) ?_
  · exact .simple rfl rfl (List.forall_mem_map.2 fun _ _ => rfl)
  refine .after fun _ => .ite (.after fun value => yields_ended ?_) ?_
  · exact .simple rfl rfl (List.forall_mem_singleton.2 rfl)
  refine .after fun _ => .ite (yields_ended (.simple rfl rfl nofun)) ?_
  refine .after fun _ => .ite (yields_ended (.simple rfl rfl nofun)) ?_
  exact .after fun _ => .ite yields_dml yields_simpleStatement

theorem yields_statement : Yields statement fun value _ => (Node.statement value).ElseNearest :=
  paired_statement.mono fun _ _ => Paired.nearest

/-! ## Members and declarations -/

theorem yields_block : Yields block fun body _ => (Node.block body).ElseNearest :=
  yields_blockOf yields_statement

theorem yields_bodyOrSemicolon :
    Yields bodyOrSemicolon fun body _ => ∀ block ∈ body, (Node.block block).ElseNearest :=
  .optional yields_block

theorem yields_braced {α : Type} {item : Grammar α} {fine : α → Prop}
    (h : Yields item fun value _ => fine value) :
    Yields (braced item) fun values _ => ∀ value ∈ values, fine value :=
  .after fun _ => .bind (.optionals h) fun _ hvalues => .after fun _ => .pure hvalues

theorem yields_accessor : Yields accessor fun value _ => (Node.accessor value).ElseNearest := by
  refine .after fun _ => .after fun _ => .bind yields_bodyOrSemicolon fun body hbody => ?_
  exact .pure (.node rfl (.map fun block hblock => hbody block (Option.mem_toList.1 hblock)))

theorem yields_constructor (modifiers : List Modifier) :
    Yields (constructor modifiers) fun value _ => (Node.member value).ElseNearest := by
  refine .after fun name => .after fun parameters => .bind yields_block fun body hbody => .pure ?_
  have hconstructor : (Node.constructor ⟨modifiers, name, parameters, body⟩).ElseNearest :=
    .node rfl (List.forall_mem_append.2
      ⟨.headers (fun _ => rfl) parameters, List.forall_mem_singleton.2 hbody⟩)
  exact .node rfl (List.forall_mem_singleton.2 hconstructor)

theorem yields_variableMember (modifiers : List Modifier) (type : TypeRef) (name : Text) :
    Yields (variableMember modifiers type name) fun value _ => (Node.member value).ElseNearest := by
  refine .after fun _ => .ite ?_ ?_
  · refine .bind (yields_braced yields_accessor) fun accessors haccessors => .pure ?_
    have hproperty : (Node.property ⟨modifiers, type, name, accessors⟩).ElseNearest :=
      .node rfl (List.forall_mem_cons.2 ⟨.header rfl, .map haccessors⟩)
    exact .node rfl (List.forall_mem_singleton.2 hproperty)
  · refine .after fun declarators => .after fun _ => .pure ?_
    exact .node rfl (List.forall_mem_singleton.2 (.header rfl))

theorem nearest_method (modifiers : List Modifier) (type : Option TypeRef) (name : Text)
    (parameters : List Parameter) {body : Option Block}
    (hbody : ∀ block ∈ body, (Node.block block).ElseNearest) :
    (Node.member (.method ⟨modifiers, type, name, parameters, body⟩)).ElseNearest := by
  have hmethod : (Node.method ⟨modifiers, type, name, parameters, body⟩).ElseNearest := by
    refine .node rfl (List.forall_mem_append.2 ⟨.headers (fun _ => rfl) _, ?_⟩)
    refine List.forall_mem_append.2 ⟨.headers (fun _ => rfl) _, .map ?_⟩
    exact fun block hblock => hbody block (Option.mem_toList.1 hblock)
  exact .node rfl (List.forall_mem_singleton.2 hmethod)

theorem yields_typedMember (modifiers : List Modifier) :
    Yields (typedMember modifiers) fun value _ => (Node.member value).ElseNearest := by
  refine .after fun type => .after fun name => .after fun _ => .ite ?_ ?_
  · refine .after fun parameters => .bind yields_bodyOrSemicolon fun body hbody => .pure ?_
    exact nearest_method modifiers type name parameters hbody
  · cases type with
    | none => exact .fail _
    | some type => exact yields_variableMember modifiers type name

theorem yields_interfaceMember :
    Yields interfaceMember fun value _ => (Node.member value).ElseNearest := by
  refine .after fun _ => .ite (.pure (.node rfl nofun)) ?_
  refine .after fun modifiers => .after fun type => .after fun name => .after fun parameters =>
    .after fun _ => .pure ?_
  exact nearest_method modifiers type name parameters nofun

section

variable {inner : Grammar Member}
  (hinner : Yields inner fun value _ => (Node.member value).ElseNearest)

include hinner

theorem yields_declarationOf (modifiers : List Modifier) :
    Yields (declarationOf inner modifiers) fun value _ => (Node.declaration value).ElseNearest := by
  refine .after fun _ => .ite ?_ (.after fun _ => .ite ?_ (.after fun _ => .ite ?_ (.fail _)))
  · refine .after fun name => .after fun parent => .after fun interfaces => ?_
    refine .bind (yields_braced hinner) fun body hbody => .pure (.node rfl ?_)
    exact List.forall_mem_append.2 ⟨.headers (fun _ => rfl) _, .map hbody⟩
  · refine .after fun name => .after fun parents => ?_
    refine .bind (yields_braced yields_interfaceMember) fun body hbody => .pure (.node rfl ?_)
    exact List.forall_mem_append.2 ⟨.headers (fun _ => rfl) _, .map hbody⟩
  · exact .after fun _ => .after fun _ => .after fun _ => .after fun _ => .pure (.node rfl nofun)

theorem yields_memberRule :
    Yields (memberRule inner) fun value _ => (Node.member value).ElseNearest := by
  have hinitializer : ∀ isStatic : Bool, Yields (block >>= fun body =>
      pure (.initializer ⟨isStatic, body⟩)) fun value _ => (Node.member value).ElseNearest := by
    intro isStatic
    refine .bind yields_block fun body hbody => .pure ?_
    have hnode : (Node.initializer ⟨isStatic, body⟩).ElseNearest :=
      .node rfl (List.forall_mem_singleton.2 hbody)
    exact .node rfl (List.forall_mem_singleton.2 hnode)
  refine .after fun stream => .ite (.after fun _ => .pure (.node rfl nofun)) ?_
  refine .ite (.after fun _ => hinitializer true) (.ite (hinitializer false) ?_)
  -- what begins with modifiers is a nested type, a constructor or has a type of its own
  refine .after fun modifiers => .after fun stream => .ite ?_ ?_
  · refine .bind (yields_declarationOf hinner modifiers) fun nested hnested => .pure ?_
    exact .node rfl (List.forall_mem_singleton.2 hnested)
  · exact .ite (yields_constructor modifiers) (yields_typedMember modifiers)

end

theorem yields_member : Yields member fun value _ => (Node.member value).ElseNearest :=
  .recursive fun _ => yields_memberRule

theorem yields_compilationUnit :
    Yields compilationUnit fun unit _ => (Node.compilationUnit unit).ElseNearest := by
  refine .after fun modifiers => .bind (yields_declarationOf yields_member modifiers) ?_
  exact fun declaration h => .pure (.node rfl (List.forall_mem_singleton.2 h))

/-- What the rule makes of a stream it makes of a source. -/
theorem Yields.readSource {α : Type} {rule : Grammar α} {fine : α → Prop}
    (h : Yields rule fun value _ => fine value) {source : Text} {value : α}
    (hread : Grammar.readSource rule source = .ok value) : fine value := by
  obtain ⟨stream, final, -, hrule, -⟩ := readSource_eq_ok.1 hread
  exact h _ _ _ hrule

end Grammar

/-- In every tree that is read, every `else` belongs to the nearest `if`: the branch in front of it is
not open. -/
theorem parse_else_nearest (source : Text) :
    (∀ unit, parseUnit source = .ok unit → (Node.compilationUnit unit).ElseNearest) ∧
    (∀ statement, parseStatement source = .ok statement →
      (Node.statement statement).ElseNearest) ∧
    (∀ expression, parseExpression source = .ok expression →
      (Node.expression expression).ElseNearest) :=
  ⟨fun _ h => Grammar.yields_compilationUnit.readSource h,
    fun _ h => Grammar.yields_statement.readSource h, fun _ _ => .header rfl⟩

/-- The first `else` goes to the inner `if`, which is closed then, and the second to the outer one. -/
theorem parse_else_nearest_nested :
    ∃ inner call, inner = .ifElse (.primary (.identifier "b")) call (some call) ∧
      parseStatement "if (a) while (c) if (b) f(); else f(); else f();" =
        .ok (.ifElse (.primary (.identifier "a"))
          (.whileLoop (.primary (.identifier "c")) inner) (some call)) ∧
      Statement.isOpen (.ifElse (.primary (.identifier "b")) call none) = true ∧
      (Node.statement (.ifElse (.primary (.identifier "a"))
        (.whileLoop (.primary (.identifier "c")) inner) (some call))).ElseNearest := by
  have hparse : parseStatement "if (a) while (c) if (b) f(); else f(); else f();" =
      .ok (.ifElse (.primary (.identifier "a"))
        (.whileLoop (.primary (.identifier "c")) (.ifElse (.primary (.identifier "b"))
          (.expression (.call "f" [])) (some (.expression (.call "f" [])))))
        (some (.expression (.call "f" [])))) := by decide +kernel
  exact ⟨_, _, rfl, hparse, rfl, (parse_else_nearest _).2.1 _ hparse⟩

end ApexLayout
