import ApexLayout.Proofs.Progress.Expression

/-!
Progress of the rules for statements, members and declarations.

Statements and members go round as long as no closing brace is next, also at the end of the tokens;
they stop there because the rule for one item fails without a token to take.
-/

namespace ApexLayout

namespace Grammar

variable {bound : Nat}

/-! ## Variables -/

theorem proceeds_declarator (name : Text) :
    Proceeds bound never (declarator name) (declarator name) := by
  have hvalue : Proceeds (bound - 1) never expression expression := proceeds_expression
  have hinitializer := (proceeds_takeSymbol "=").optional hvalue
  exact hinitializer.lax.bind fun initializer => .pure not_false

theorem proceeds_declarators (first : Text) :
    Proceeds bound never (declarators first) (declarators first) := by
  have hfurther : Proceeds (bound - 1) never (identifier >>= declarator)
      (identifier >>= declarator) := proceeds_identifier.bind proceeds_declarator
  refine (proceeds_declarator first).bind fun head => ?_
  exact (proceeds_commaItems hfurther).bind fun others => .pure not_false

theorem proceeds_variableHead {eats : List Modifier × TypeRef → Prop} :
    Proceeds bound eats variableHead variableHead := by
  -- there may be no modifiers, so the type is the first token that is surely taken
  refine proceeds_modifiers.bind fun modifiers => ?_
  refine proceeds_typeRef.behind fun type => ?_
  refine (Proceeds.look _).bind fun declared => ?_
  exact (Proceeds.require (by decide)).bind fun _ => .pure not_false

theorem proceeds_localVariables :
    Proceeds bound (·.isSome = true) localVariables localVariables := by
  refine proceeds_variableHead.attempt.split (fun found _ => ?_) fun found hfound => ?_
  · cases found with
    | none => exact .pure not_false
    | some head =>
      refine proceeds_identifier.bind fun name => ?_
      exact (proceeds_declarators name).bind fun declarators => .pure not_false
  · cases found with
    | none => exact .pure Bool.false_ne_true
    | some head => exact absurd rfl hfound

/-! ## Headers -/

theorem proceeds_inParentheses {eats : Expression → Prop} :
    Proceeds bound eats inParentheses inParentheses := by
  refine proceeds_symbol.behind fun _ => ?_
  refine proceeds_expression.bind fun inner => ?_
  exact proceeds_symbol.bind fun _ => .pure not_false

theorem proceeds_eachHead {eats : List Modifier × TypeRef × Text → Prop} :
    Proceeds bound eats eachHead eachHead := by
  -- the type is the first token that is surely taken here too
  refine proceeds_modifiers.bind fun modifiers => ?_
  refine proceeds_typeRef.behind fun type => ?_
  refine proceeds_identifier.bind fun name => ?_
  exact proceeds_symbol.bind fun _ => .pure not_false

theorem proceeds_forInit : Proceeds bound never forInit forInit := by
  have hitems : Proceeds bound never (commaSeparated expression) (commaSeparated expression) :=
    proceeds_commaSeparated proceeds_expression
  refine (proceeds_atSymbol _).branch (.pure not_false) ?_
  refine proceeds_localVariables.lax.bind fun found => ?_
  cases found with
  | none => exact hitems.bind fun items => .pure not_false
  | some declaration => exact .pure not_false

theorem proceeds_expressionUnless (stop : Text) :
    Proceeds bound never (expressionUnless stop) (expressionUnless stop) :=
  ((proceeds_unless (proceeds_atSymbol stop)).guarded proceeds_expression).lax

theorem proceeds_countingControl : Proceeds bound never countingControl countingControl := by
  have hitems : Proceeds bound always (commaSeparated expression) (commaSeparated expression) :=
    proceeds_commaSeparated proceeds_expression
  have hupdate := (proceeds_unless (proceeds_atSymbol ")")).guarded hitems
  refine proceeds_forInit.bind fun init => ?_
  refine proceeds_symbol.bind fun _ => ?_
  refine (proceeds_expressionUnless _).bind fun condition => ?_
  refine proceeds_symbol.bind fun _ => ?_
  exact hupdate.lax.bind fun update => .pure not_false

theorem proceeds_forControl : Proceeds bound never forControl forControl := by
  refine proceeds_eachHead.attempt.lax.bind fun found => ?_
  rcases found with _ | ⟨modifiers, type, name⟩
  · exact proceeds_countingControl
  · exact proceeds_expression.bind fun iterable => .pure not_false

/-! ## Statements -/

section

variable {inner inner' : Grammar Statement} {eats : Statement → Prop}
  (hinner : Proceeds bound always inner inner')

omit hinner in
theorem proceeds_ended (statement : Statement) :
    Proceeds bound eats (ended statement) (ended statement) :=
  proceeds_symbol.behind fun _ => .pure not_false

omit hinner in
theorem proceeds_simpleStatement : Proceeds bound eats simpleStatement simpleStatement := by
  refine proceeds_localVariables.split (fun found _ => ?_) fun found hfound => ?_
  · cases found with
    | none => exact proceeds_expression.bind fun _ => proceeds_ended _
    | some declaration => exact proceeds_ended _
  · cases found with
    | none => exact proceeds_expression.behind fun _ => proceeds_ended _
    | some declaration => exact absurd rfl hfound

omit hinner in
theorem proceeds_dml {stream : TokenStream} (hless : stream.remaining < bound)
    (hahead : dmlAhead stream = true) : ProceedsAt stream eats dml dml := by
  have hfirst : 0 < stream.remaining :=
    TokenStream.lt_of_holds (Bool.and_eq_true_iff.1 hahead).1
  refine .taken hfirst hless fun operation => ?_
  exact proceeds_expression.bind fun operand => proceeds_ended _

include hinner

theorem proceeds_statements : Proceeds bound (·.isSome = true)
    (Reader.optional (look fun stream => !(stream.tokens.isEmpty || stream.symbolAt 0 "\x7d"))
      inner)
    (Reader.optional (look fun stream => !(stream.tokens.isEmpty || stream.symbolAt 0 "\x7d"))
      inner') :=
  (Proceeds.look _).guarded hinner

theorem proceeds_blockOf {eats : Block → Prop} :
    Proceeds (bound + 1) eats (blockOf inner) (blockOf inner') := by
  have hbody := (proceeds_statements hinner).many
  refine proceeds_symbol.behind fun _ => ?_
  refine hbody.bind fun body => ?_
  exact proceeds_symbol.bind fun _ => .pure not_false

theorem proceeds_ifElse : Proceeds bound never (ifElse inner) (ifElse inner') := by
  have helse : Proceeds (bound + 1) _ _ _ := (proceeds_takeWord "else").optional hinner.lax
  refine proceeds_inParentheses.bind fun condition => ?_
  refine hinner.lax.bind fun thenBranch => ?_
  exact helse.less.lax.bind fun elseBranch => .pure not_false

theorem proceeds_whileLoop : Proceeds bound never (whileLoop inner) (whileLoop inner') := by
  refine proceeds_inParentheses.bind fun condition => ?_
  exact hinner.lax.bind fun body => .pure not_false

theorem proceeds_forLoop : Proceeds bound never (forLoop inner) (forLoop inner') := by
  refine proceeds_symbol.bind fun _ => ?_
  refine proceeds_forControl.bind fun control => ?_
  refine proceeds_symbol.bind fun _ => ?_
  exact hinner.lax.bind fun body => .pure not_false

theorem proceeds_catchClause : Proceeds bound never (catchClause inner) (catchClause inner') := by
  have hblock : Proceeds (bound + 1) never _ _ := proceeds_blockOf hinner
  refine proceeds_symbol.bind fun _ => ?_
  refine proceeds_modifiers.bind fun modifiers => ?_
  refine proceeds_typeRef.bind fun type => ?_
  refine proceeds_identifier.bind fun name => ?_
  refine proceeds_symbol.bind fun _ => ?_
  exact hblock.less.bind fun body => .pure not_false

theorem proceeds_catches : Proceeds (bound + 1) (·.isSome = true)
    (Reader.optional (takeWord "catch") (catchClause inner))
    (Reader.optional (takeWord "catch") (catchClause inner')) :=
  (proceeds_takeWord _).optional (proceeds_catchClause hinner)

theorem proceeds_tryCatch : Proceeds bound never (tryCatch inner) (tryCatch inner') := by
  have hblock : Proceeds (bound + 1) never _ _ := proceeds_blockOf hinner
  have hcleanup : Proceeds (bound + 1) _ _ _ :=
    (proceeds_takeWord "finally").optional hblock.less
  refine hblock.less.bind fun body => ?_
  refine (proceeds_catches hinner).less.many.bind fun catches => ?_
  refine hcleanup.less.lax.bind fun cleanup => ?_
  exact (Proceeds.require (by decide)).bind fun _ => .pure not_false

omit hinner in
theorem proceeds_statementRule (bound : Nat) (inner inner' : Grammar Statement)
    (hinner : Proceeds bound always inner inner') :
    Proceeds (bound + 1) always (statementRule inner) (statementRule inner') := by
  refine (proceeds_atSymbol _).branch ?_ ?_
  · exact (proceeds_blockOf hinner).behind fun body => .pure not_false
  -- every further keyword is taken before the rest is read
  refine (proceeds_takeWord _).branchTaken (proceeds_ifElse hinner) ?_
  refine (proceeds_takeWord _).branchTaken (proceeds_whileLoop hinner) ?_
  refine (proceeds_takeWord _).branchTaken (proceeds_forLoop hinner) ?_
  refine (proceeds_takeWord _).branchTaken (proceeds_tryCatch hinner) ?_
  refine (proceeds_takeWord _).branchTaken ?_ ?_
  · exact (proceeds_expressionUnless _).bind fun value => proceeds_ended _
  refine (proceeds_takeWord _).branchTaken ?_ ?_
  · exact proceeds_expression.bind fun value => proceeds_ended _
  refine (proceeds_takeWord _).branchTaken (proceeds_ended _) ?_
  refine (proceeds_takeWord _).branchTaken (proceeds_ended _) ?_
  refine .view fun stream hless => ?_
  refine .ite (fun hahead => proceeds_dml hless hahead) fun _ => ?_
  exact .below hless proceeds_simpleStatement

end

theorem proceeds_statement {eats : Statement → Prop} : Proceeds bound eats statement statement :=
  .recursive_self proceeds_statementRule

/-- A statement is its rule applied to itself. -/
theorem statement_eq : statement = statementRule statement :=
  Proceeds.recursive_eq proceeds_statementRule

theorem proceeds_block {eats : Block → Prop} : Proceeds bound eats block block :=
  (proceeds_blockOf proceeds_statement).less

/-! ## Parts of members -/

theorem proceeds_parameter {eats : Parameter → Prop} :
    Proceeds bound eats parameter parameter := by
  refine proceeds_modifiers.bind fun modifiers => ?_
  refine proceeds_typeRef.behind fun type => ?_
  exact proceeds_identifier.bind fun name => .pure not_false

theorem proceeds_parameters {eats : List Parameter → Prop} :
    Proceeds bound eats parameters parameters := by
  refine proceeds_symbol.behind fun _ => ?_
  refine (proceeds_takeSymbol _).lax.branch (.pure not_false) ?_
  refine (proceeds_commaSeparated proceeds_parameter).bind fun items => ?_
  exact proceeds_symbol.bind fun _ => .pure not_false

theorem proceeds_returnType : Proceeds bound never returnType returnType :=
  ((proceeds_unless (proceeds_takeWord _)).guarded proceeds_typeRef).lax

theorem proceeds_bodyOrSemicolon : Proceeds bound never bodyOrSemicolon bodyOrSemicolon :=
  ((proceeds_unless (proceeds_takeSymbol _)).guarded proceeds_block).lax

theorem proceeds_accessorKind {eats : AccessorKind → Prop} :
    Proceeds bound eats accessorKind accessorKind := by
  refine (proceeds_takeWord _).branchTaken (.pure not_false) ?_
  exact (proceeds_takeWord _).branchTaken (.pure not_false) (.fail nofun)

theorem proceeds_accessor {eats : Accessor → Prop} : Proceeds bound eats accessor accessor := by
  refine proceeds_modifiers.bind fun modifiers => ?_
  refine proceeds_accessorKind.behind fun kind => ?_
  exact proceeds_bodyOrSemicolon.bind fun body => .pure not_false

/-- An item between braces. -/
theorem proceeds_unlessBrace {α : Type} {item item' : Grammar α}
    (h : Proceeds bound always item item') : Proceeds bound (·.isSome = true)
      (Reader.optional (return !(← atSymbol "\x7d")) item)
      (Reader.optional (return !(← atSymbol "\x7d")) item') :=
  (proceeds_unless (proceeds_atSymbol _)).guarded h

theorem proceeds_braced {α : Type} {item item' : Grammar α}
    (h : Proceeds bound always item item') {eats : List α → Prop} :
    Proceeds (bound + 1) eats (braced item) (braced item') := by
  have hitems := (proceeds_unlessBrace h).many
  refine proceeds_symbol.behind fun _ => ?_
  refine hitems.bind fun items => ?_
  exact proceeds_symbol.bind fun _ => .pure not_false

/-! ## Members -/

section

variable {eats : Member → Prop}

theorem proceeds_constructor (modifiers : List Modifier) :
    Proceeds bound eats (constructor modifiers) (constructor modifiers) := by
  have hname : Proceeds bound always (Reader.separated (takeSymbol ".") identifier)
      (Reader.separated (takeSymbol ".") identifier) :=
    (proceeds_takeSymbol _).separated proceeds_identifier
  refine hname.behind fun name => ?_
  refine proceeds_parameters.bind fun parameters => ?_
  exact proceeds_block.bind fun body => .pure not_false

theorem proceeds_variableMember (modifiers : List Modifier) (type : TypeRef) (name : Text) :
    Proceeds bound never (variableMember modifiers type name)
      (variableMember modifiers type name) := by
  refine (proceeds_atSymbol _).branch ?_ ?_
  · exact (proceeds_braced proceeds_accessor).less.bind fun accessors => .pure not_false
  · refine (proceeds_declarators name).bind fun declarators => ?_
    exact proceeds_symbol.bind fun _ => .pure not_false

theorem proceeds_typedMember (modifiers : List Modifier) :
    Proceeds bound eats (typedMember modifiers) (typedMember modifiers) := by
  -- the name is the token that is surely taken
  refine proceeds_returnType.bind fun type => ?_
  refine proceeds_identifier.behind fun name => ?_
  refine (proceeds_atSymbol _).branch ?_ ?_
  · refine proceeds_parameters.bind fun parameters => ?_
    exact proceeds_bodyOrSemicolon.bind fun body => .pure not_false
  · cases type with
    | none => exact .fail nofun
    | some type => exact proceeds_variableMember modifiers type name

theorem proceeds_interfaceMethod : Proceeds bound eats interfaceMethod interfaceMethod := by
  refine proceeds_modifiers.bind fun modifiers => ?_
  refine proceeds_returnType.bind fun type => ?_
  refine proceeds_identifier.behind fun name => ?_
  refine proceeds_parameters.bind fun parameters => ?_
  exact proceeds_symbol.bind fun _ => .pure not_false

theorem proceeds_interfaceMember : Proceeds bound eats interfaceMember interfaceMember :=
  (proceeds_takeSymbol _).branchTaken (.pure not_false) proceeds_interfaceMethod

/-! ## Declarations -/

theorem proceeds_furtherConstant :
    Proceeds bound (·.isSome = true) furtherConstant furtherConstant := by
  refine (proceeds_takeSymbol _).branchTaken ?_ (.pure Bool.false_ne_true)
  exact ((proceeds_unless (proceeds_atSymbol _)).guarded proceeds_identifier).lax

theorem proceeds_constants : Proceeds bound never constants constants := by
  refine (proceeds_atSymbol _).branch (.pure not_false) ?_
  refine proceeds_identifier.bind fun first => ?_
  exact proceeds_furtherConstant.many.bind fun others => .pure not_false

theorem proceeds_typesAfter (keyword : Text) :
    Proceeds bound never (typesAfter keyword) (typesAfter keyword) := by
  have htypes : Proceeds (bound - 1) never typeList typeList :=
    proceeds_commaSeparated proceeds_typeRef
  have hpart := (proceeds_takeWord keyword).optional htypes
  exact hpart.lax.bind fun types => .pure not_false

theorem proceeds_interfaceType (modifiers : List Modifier) :
    Proceeds bound never (interfaceType modifiers) (interfaceType modifiers) := by
  refine proceeds_identifier.bind fun name => ?_
  refine (proceeds_typesAfter _).bind fun parents => ?_
  exact (proceeds_braced proceeds_interfaceMember).less.bind fun body => .pure not_false

theorem proceeds_enumType (modifiers : List Modifier) :
    Proceeds bound never (enumType modifiers) (enumType modifiers) := by
  refine proceeds_identifier.bind fun name => ?_
  refine proceeds_symbol.bind fun _ => ?_
  refine proceeds_constants.bind fun constants => ?_
  exact proceeds_symbol.bind fun _ => .pure not_false

variable {inner inner' : Grammar Member} (hinner : Proceeds bound always inner inner')

include hinner

theorem proceeds_classType (modifiers : List Modifier) :
    Proceeds bound never (classType inner modifiers) (classType inner' modifiers) := by
  refine proceeds_identifier.bind fun name => ?_
  refine ((proceeds_takeWord _).optional proceeds_typeRef).lax.bind fun parent => ?_
  refine (proceeds_typesAfter _).bind fun interfaces => ?_
  exact (proceeds_braced hinner).less.bind fun body => .pure not_false

theorem proceeds_declarationOf {eats : Declaration → Prop} (modifiers : List Modifier) :
    Proceeds (bound + 1) eats (declarationOf inner modifiers) (declarationOf inner' modifiers) := by
  refine (proceeds_takeWord _).branchTaken (proceeds_classType hinner modifiers) ?_
  refine (proceeds_takeWord _).branchTaken (proceeds_interfaceType modifiers) ?_
  exact (proceeds_takeWord _).branchTaken (proceeds_enumType modifiers) (.fail nofun)

theorem proceeds_modifiedMember :
    Proceeds (bound + 1) eats (modifiedMember inner) (modifiedMember inner') := by
  refine proceeds_modifiers.bind fun modifiers => ?_
  refine .get fun stream hless => .below hless ?_
  -- there may be no modifiers, so what follows them has to take a token by itself
  refine .ite ?_ (.ite (proceeds_constructor modifiers) (proceeds_typedMember modifiers))
  exact (proceeds_declarationOf hinner modifiers).behind fun nested => .pure not_false

omit hinner in
theorem proceeds_memberRule (bound : Nat) (inner inner' : Grammar Member)
    (hinner : Proceeds bound always inner inner') :
    Proceeds (bound + 1) always (memberRule inner) (memberRule inner') := by
  refine .get fun stream hless => ?_
  refine .ite (fun hempty => ?_) fun _ => ?_
  · exact .skipped (TokenStream.lt_of_holds hempty) Nat.one_pos hless fun _ => .pure not_false
  refine .ite (fun hstatic => ?_) fun _ => ?_
  · have hkeyword : 0 < stream.remaining :=
      TokenStream.lt_of_holds (Bool.and_eq_true_iff.1 hstatic).1
    refine .skipped hkeyword Nat.one_pos hless fun _ => ?_
    exact proceeds_block.bind fun body => .pure not_false
  refine .below hless (.ite ?_ (proceeds_modifiedMember hinner))
  exact proceeds_block.behind fun body => .pure not_false

end

theorem proceeds_member {eats : Member → Prop} : Proceeds bound eats member member :=
  .recursive_self proceeds_memberRule

/-- A member is its rule applied to itself. -/
theorem member_eq : member = memberRule member :=
  Proceeds.recursive_eq proceeds_memberRule

theorem proceeds_compilationUnit {eats : CompilationUnit → Prop} :
    Proceeds bound eats compilationUnit compilationUnit := by
  refine proceeds_modifiers.bind fun modifiers => ?_
  exact (proceeds_declarationOf proceeds_member modifiers).less.behind fun _ => .pure not_false

end Grammar

end ApexLayout
