import ApexLayout.Grammar.Source
import ApexLayout.Proofs.Agreement.Expression

/-!
Agreement of the rules for statements and declarations.

A rule that is only tried out fails at one place or the other, but it fails on both sides, so the
rules that go on from there stay side by side.
-/

namespace ApexLayout

namespace Grammar

variable {α γ : Type} {blur : Blur} {first second : TokenStream}
  (h : TokenStream.Alike blur first second)

include h

/-! ## Variables and headers -/

theorem agrees_declarator {name name' : Text} (hname : blur.text name = blur.text name') :
    Agrees first second (Declarator.blur blur) (declarator name) (declarator name') :=
  (Agrees.optional (agrees_takeSymbol h _) (agrees_expression h)).bind fun _ _ hvalue =>
    .pure (by simp only [Declarator.blur, hname, hvalue])

theorem agrees_declarators {name name' : Text} (hname : blur.text name = blur.text name') :
    Agrees first second (List.map (Declarator.blur blur)) (declarators name)
      (declarators name') := by
  have hfurther : Agrees first second (Declarator.blur blur) (identifier >>= declarator)
      (identifier >>= declarator) :=
    (agrees_identifier h).bind fun _ _ hnext => agrees_declarator h hnext
  have hrow := Agrees.many h.remaining (.optional (agrees_takeSymbol h ",") hfurther)
  refine (agrees_declarator h hname).bind fun _ _ hhead => ?_
  refine hrow.bind fun _ _ hothers => .pure ?_
  rw [List.map_cons, List.map_cons, hhead, hothers]

/-- Modifiers and a type with their texts blurred. -/
def blurHead (blur : Blur) (head : List Modifier × TypeRef) : List Modifier × TypeRef :=
  (head.1.map blur.text, head.2.blur blur)

theorem agrees_variableHead :
    Agrees first second (blurHead blur) variableHead variableHead := by
  refine (agrees_modifiers h).bind fun _ _ hmodifiers => ?_
  refine (agrees_typeRef h).bind fun _ _ htype => ?_
  have hlook : Agrees first second id
      (look fun stream => stream.identifierAt 0 &&
        stream.symbolInAt 1 (["=", ";", ","].map String.toList))
      (look fun stream => stream.identifierAt 0 &&
        stream.symbolInAt 1 (["=", ";", ","].map String.toList)) := by
    refine .look fun index => ?_
    rw [h.identifierAt, h.symbolInAt]
  refine hlook.bind fun _ _ hfound => ?_
  exact (Agrees.require hfound _).seq fun _ _ => .pure (Prod.ext hmodifiers htype)

theorem agrees_localVariables :
    Agrees first second (Option.map (VariableDeclaration.blur blur)) localVariables
      localVariables := by
  refine (agrees_variableHead h).attempt.bind fun head head' hhead => ?_
  cases head with
  | none =>
    cases head' with
    | none => exact .pure rfl
    | some _ => cases hhead
  | some head =>
    cases head' with
    | none => cases hhead
    | some head' =>
      obtain ⟨hmodifiers, htype⟩ := Prod.ext_iff.1 (Option.some.inj hhead)
      refine (agrees_identifier h).bind fun _ _ hname => ?_
      refine (agrees_declarators h hname).bind fun _ _ hitems => .pure (congrArg some ?_)
      simp only [blurHead] at hmodifiers htype
      simp only [VariableDeclaration.blur, hmodifiers, htype, hitems]

theorem agrees_blockOf {inner inner' : Grammar Statement}
    (hinner : Agrees first second (Statement.blur blur) inner inner') :
    Agrees first second (Block.blur blur) (blockOf inner) (blockOf inner') := by
  refine (agrees_symbol h _).seq fun _ _ => ?_
  have hlook : Agrees first second id
      (look fun stream => !(stream.tokens.isEmpty || stream.symbolAt 0 "\x7d"))
      (look fun stream => !(stream.tokens.isEmpty || stream.symbolAt 0 "\x7d")) := by
    refine .look fun index => ?_
    rw [h.isEmpty, h.symbolAt]
  refine (Agrees.many h.remaining (hlook.optional hinner)).bind fun _ _ hbody => ?_
  exact (agrees_symbol h _).seq fun _ _ => .pure hbody

theorem agrees_inParentheses :
    Agrees first second (Expression.blur blur) inParentheses inParentheses := by
  refine (agrees_symbol h _).seq fun _ _ => ?_
  refine (agrees_expression h).bind fun _ _ hvalue => ?_
  exact (agrees_symbol h _).seq fun _ _ => .pure hvalue

/-- The head of a loop over elements with its texts blurred. -/
def blurEach (blur : Blur) (head : List Modifier × TypeRef × Text) :
    List Modifier × TypeRef × Text :=
  (head.1.map blur.text, head.2.1.blur blur, blur.text head.2.2)

theorem agrees_eachHead : Agrees first second (blurEach blur) eachHead eachHead := by
  refine (agrees_modifiers h).bind fun _ _ hmodifiers => ?_
  refine (agrees_typeRef h).bind fun _ _ htype => ?_
  refine (agrees_identifier h).bind fun _ _ hname => ?_
  exact (agrees_symbol h _).seq fun _ _ => .pure (Prod.ext hmodifiers (Prod.ext htype hname))

theorem agrees_forInit :
    Agrees first second (Option.map (ForInit.blur blur)) forInit forInit := by
  refine (agrees_atSymbol h _).branch (.pure rfl) ?_
  refine (agrees_localVariables h).bind fun found found' hfound => ?_
  cases found with
  | none =>
    cases found' with
    | none =>
      refine (agrees_commaSeparated h (agrees_expression h)).bind fun _ _ hitems => ?_
      exact .pure (congrArg some (congrArg ForInit.expressions hitems))
    | some _ => cases hfound
  | some declaration =>
    cases found' with
    | none => cases hfound
    | some declaration' =>
      exact .pure (congrArg some (congrArg ForInit.variables (Option.some.inj hfound)))

theorem agrees_expressionUnless (stop : Text) :
    Agrees first second (Option.map (Expression.blur blur)) (expressionUnless stop)
      (expressionUnless stop) :=
  .optional (agrees_atSymbol h _).not (agrees_expression h)

theorem agrees_countingControl :
    Agrees first second (ForControl.blur blur) countingControl countingControl := by
  refine (agrees_forInit h).bind fun _ _ hinit => ?_
  refine (agrees_symbol h _).seq fun _ _ => ?_
  refine (agrees_expressionUnless h _).bind fun _ _ hcondition => ?_
  refine (agrees_symbol h _).seq fun _ _ => ?_
  have hitems := agrees_commaSeparated h (agrees_expression h)
  refine (Agrees.optional (agrees_atSymbol h _).not hitems).bind fun _ _ hupdate => .pure ?_
  have hsteps := congrArg (·.getD (List.map (Expression.blur blur) [])) hupdate
  simp only [Option.getD_map] at hsteps
  simp only [ForControl.blur, hinit, hcondition, hsteps]

theorem agrees_forControl :
    Agrees first second (ForControl.blur blur) forControl forControl := by
  refine (agrees_eachHead h).attempt.bind fun head head' hhead => ?_
  cases head with
  | none =>
    cases head' with
    | none => exact agrees_countingControl h
    | some _ => cases hhead
  | some head =>
    cases head' with
    | none => cases hhead
    | some head' =>
      obtain ⟨hmodifiers, hrest⟩ := Prod.ext_iff.1 (Option.some.inj hhead)
      obtain ⟨htype, hname⟩ := Prod.ext_iff.1 hrest
      refine (agrees_expression h).bind fun _ _ hvalue => .pure ?_
      simp only [blurEach] at hmodifiers htype hname
      simp only [ForControl.blur, hmodifiers, htype, hname, hvalue]

/-! ## Statements -/

section

variable {inner inner' : Grammar Statement}
  (hinner : Agrees first second (Statement.blur blur) inner inner')

include hinner

theorem agrees_ifElse :
    Agrees first second (Statement.blur blur) (ifElse inner) (ifElse inner') := by
  refine (agrees_inParentheses h).bind fun _ _ hcondition => ?_
  refine hinner.bind fun _ _ hthen => ?_
  refine (Agrees.optional (agrees_takeWord h _) hinner).bind fun _ _ helse => .pure ?_
  rw [Statement.blur_ifElse, Statement.blur_ifElse, hcondition, hthen, helse]

theorem agrees_whileLoop :
    Agrees first second (Statement.blur blur) (whileLoop inner) (whileLoop inner') := by
  refine (agrees_inParentheses h).bind fun _ _ hcondition => ?_
  refine hinner.bind fun _ _ hbody => .pure ?_
  simp only [Statement.blur, hcondition, hbody]

theorem agrees_forLoop :
    Agrees first second (Statement.blur blur) (forLoop inner) (forLoop inner') := by
  refine (agrees_symbol h _).seq fun _ _ => ?_
  refine (agrees_forControl h).bind fun _ _ hcontrol => ?_
  refine (agrees_symbol h _).seq fun _ _ => ?_
  refine hinner.bind fun _ _ hbody => .pure ?_
  simp only [Statement.blur, hcontrol, hbody]

theorem agrees_catchClause :
    Agrees first second (CatchClause.blur blur) (catchClause inner) (catchClause inner') := by
  refine (agrees_symbol h _).seq fun _ _ => ?_
  refine (agrees_modifiers h).bind fun _ _ hmodifiers => ?_
  refine (agrees_typeRef h).bind fun _ _ htype => ?_
  refine (agrees_identifier h).bind fun _ _ hname => ?_
  refine (agrees_symbol h _).seq fun _ _ => ?_
  refine (agrees_blockOf h hinner).bind fun _ _ hbody => .pure ?_
  simp only [CatchClause.blur, hmodifiers, htype, hname, hbody]

theorem agrees_tryCatch :
    Agrees first second (Statement.blur blur) (tryCatch inner) (tryCatch inner') := by
  refine (agrees_blockOf h hinner).bind fun _ _ hbody => ?_
  have hrow := Agrees.many h.remaining
    (.optional (agrees_takeWord h "catch") (agrees_catchClause h hinner))
  have hlast := Agrees.optional (agrees_takeWord h "finally") (agrees_blockOf h hinner)
  refine hrow.bind fun catches catches' hcatches => ?_
  refine hlast.bind fun cleanup cleanup' hcleanup => ?_
  -- a handler is there on both sides or on neither
  have hhandler : (!catches.isEmpty || cleanup.isSome) =
      (!catches'.isEmpty || cleanup'.isSome) := by
    have hempty := congrArg List.isEmpty hcatches
    have hsome := congrArg Option.isSome hcleanup
    rw [List.isEmpty_map, List.isEmpty_map] at hempty
    rw [Option.isSome_map, Option.isSome_map] at hsome
    rw [hempty, hsome]
  refine (Agrees.require hhandler _).seq fun _ _ => .pure ?_
  rw [Statement.blur_tryCatch, Statement.blur_tryCatch, hbody, hcatches, hcleanup]

omit hinner in
theorem agrees_ended {statement statement' : Statement}
    (hstatement : statement.blur blur = statement'.blur blur) :
    Agrees first second (Statement.blur blur) (ended statement) (ended statement') :=
  (agrees_symbol h _).seq fun _ _ => .pure hstatement

omit hinner in
theorem agrees_dml : Agrees first second (Statement.blur blur) dml dml := by
  refine (agrees_takeText h).bind fun _ _ htext => ?_
  refine (agrees_expression h).bind fun _ _ hvalue => agrees_ended h ?_
  simp only [Statement.blur, htext, hvalue]

omit hinner in
theorem agrees_simpleStatement :
    Agrees first second (Statement.blur blur) simpleStatement simpleStatement := by
  refine (agrees_localVariables h).bind fun found found' hfound => ?_
  cases found with
  | none =>
    cases found' with
    | none =>
      refine (agrees_expression h).bind fun _ _ hvalue => ?_
      exact agrees_ended h (congrArg Statement.expression hvalue)
    | some _ => cases hfound
  | some declaration =>
    cases found' with
    | none => cases hfound
    | some declaration' =>
      exact agrees_ended h (congrArg Statement.variables (Option.some.inj hfound))

omit hinner in
theorem dmlAhead_alike (index : Nat) :
    dmlAhead (first.skip index) = dmlAhead (second.skip index) := by
  unfold dmlAhead
  rw [h.wordInAt, h.kindAt, h.symbolAt, h.symbolAt, h.symbolAt]

theorem agrees_statementRule :
    Agrees first second (Statement.blur blur) (statementRule inner) (statementRule inner') := by
  refine (agrees_atSymbol h _).branch ?_ ?_
  · refine (agrees_blockOf h hinner).bind fun _ _ hbody => .pure ?_
    rw [Statement.blur, Statement.blur, Statement.blurAll_eq_map, Statement.blurAll_eq_map, hbody]
  refine (agrees_takeWord h _).branch (agrees_ifElse h hinner) ?_
  refine (agrees_takeWord h _).branch (agrees_whileLoop h hinner) ?_
  refine (agrees_takeWord h _).branch (agrees_forLoop h hinner) ?_
  refine (agrees_takeWord h _).branch (agrees_tryCatch h hinner) ?_
  refine (agrees_takeWord h _).branch ?_ ?_
  · refine (agrees_expressionUnless h _).bind fun _ _ hvalue => ?_
    exact agrees_ended h (congrArg Statement.returnValue hvalue)
  refine (agrees_takeWord h _).branch ?_ ?_
  · refine (agrees_expression h).bind fun _ _ hvalue => ?_
    exact agrees_ended h (congrArg Statement.throwValue hvalue)
  refine (agrees_takeWord h _).branch (agrees_ended h rfl) ?_
  refine (agrees_takeWord h _).branch (agrees_ended h rfl) ?_
  have hlook : Agrees first second id (look dmlAhead) (look dmlAhead) := .look (dmlAhead_alike h)
  exact hlook.branch (agrees_dml h) (agrees_simpleStatement h)

end

/-- Statements are read alike from alike streams. -/
theorem agrees_statement : Agrees first second (Statement.blur blur) statement statement :=
  .recursive h.remaining fun _ _ hinner => agrees_statementRule h hinner

theorem agrees_block : Agrees first second (Block.blur blur) block block :=
  agrees_blockOf h (agrees_statement h)

/-! ## Members -/

theorem agrees_parameter : Agrees first second (Parameter.blur blur) parameter parameter := by
  refine (agrees_modifiers h).bind fun _ _ hmodifiers => ?_
  refine (agrees_typeRef h).bind fun _ _ htype => ?_
  refine (agrees_identifier h).bind fun _ _ hname => .pure ?_
  simp only [Parameter.blur, hmodifiers, htype, hname]

theorem agrees_parameters :
    Agrees first second (List.map (Parameter.blur blur)) parameters parameters := by
  refine (agrees_symbol h _).seq fun _ _ => ?_
  refine (agrees_takeSymbol h _).branch (.pure rfl) ?_
  refine (agrees_commaSeparated h (agrees_parameter h)).bind fun _ _ hitems => ?_
  exact (agrees_symbol h _).seq fun _ _ => .pure hitems

theorem agrees_returnType :
    Agrees first second (Option.map (TypeRef.blur blur)) returnType returnType :=
  .optional (agrees_takeWord h _).not (agrees_typeRef h)

theorem agrees_bodyOrSemicolon :
    Agrees first second (Option.map (Block.blur blur)) bodyOrSemicolon bodyOrSemicolon :=
  .optional (agrees_takeSymbol h _).not (agrees_block h)

theorem agrees_accessor : Agrees first second (Accessor.blur blur) accessor accessor := by
  refine (agrees_modifiers h).bind fun _ _ hmodifiers => ?_
  have hkind : Agrees first second id accessorKind accessorKind := by
    refine (agrees_takeWord h _).branch (.pure rfl) ?_
    exact (agrees_takeWord h _).branch (.pure rfl) (.fail _)
  refine hkind.bind fun kind kind' hkind => ?_
  refine (agrees_bodyOrSemicolon h).bind fun _ _ hbody => .pure ?_
  obtain rfl : kind = kind' := hkind
  simp only [Accessor.blur, hmodifiers, hbody]

theorem agrees_braced {see : α → γ} {item item' : Grammar α}
    (hitem : Agrees first second see item item') :
    Agrees first second (List.map see) (braced item) (braced item') := by
  have hrow := Agrees.many h.remaining (.optional (agrees_atSymbol h "\x7d").not hitem)
  refine (agrees_symbol h _).seq fun _ _ => ?_
  refine hrow.bind fun _ _ hitems => ?_
  exact (agrees_symbol h _).seq fun _ _ => .pure hitems

omit h in
theorem parametersAhead_alike {tokens tokens' : List Token}
    (htokens : List.Forall₂ (Token.Alike blur) tokens tokens') :
    parametersAhead tokens = parametersAhead tokens' := by
  fun_induction parametersAhead tokens generalizing tokens' with
  | case1 dot name rest hdot ih =>
    obtain ⟨dot', others, hdot', hothers, rfl⟩ := List.forall₂_cons_left_iff.1 htokens
    obtain ⟨name', rest', hname', hrest, rfl⟩ := List.forall₂_cons_left_iff.1 hothers
    rw [parametersAhead, ← hdot'.isSymbol, ← hname'.isIdentifier, if_pos hdot, ih hrest]
  | case2 dot name rest hdot =>
    obtain ⟨dot', others, hdot', hothers, rfl⟩ := List.forall₂_cons_left_iff.1 htokens
    obtain ⟨name', rest', hname', hrest, rfl⟩ := List.forall₂_cons_left_iff.1 hothers
    rw [parametersAhead, ← hdot'.isSymbol, ← hname'.isIdentifier, if_neg hdot, hdot'.isSymbol]
  | case3 token =>
    obtain ⟨token', others, htoken', hothers, rfl⟩ := List.forall₂_cons_left_iff.1 htokens
    obtain rfl := List.forall₂_nil_left_iff.1 hothers
    exact htoken'.isSymbol _
  | case4 =>
    obtain rfl := List.forall₂_nil_left_iff.1 htokens
    rfl

theorem constructorAhead_alike (index : Nat) :
    constructorAhead (first.skip index) = constructorAhead (second.skip index) := by
  unfold constructorAhead
  rw [h.identifierAt, parametersAhead_alike (List.forall₂_drop 1 (h.drop index))]

section

variable {modifiers modifiers' : List Modifier}
  (hmodifiers : modifiers.map blur.text = modifiers'.map blur.text)

include hmodifiers

theorem agrees_constructor :
    Agrees first second (Member.blur blur) (constructor modifiers) (constructor modifiers') := by
  have hnames := Agrees.separated h.remaining (agrees_takeSymbol h ".") (agrees_identifier h)
  refine hnames.bind fun _ _ hname => ?_
  refine (agrees_parameters h).bind fun _ _ hitems => ?_
  refine (agrees_block h).bind fun _ _ hbody => .pure ?_
  simp only [Member.blur, Constructor.blur, hmodifiers, hname, hitems, hbody]

theorem agrees_variableMember {type type' : TypeRef} {name name' : Text}
    (htype : type.blur blur = type'.blur blur) (hname : blur.text name = blur.text name') :
    Agrees first second (Member.blur blur) (variableMember modifiers type name)
      (variableMember modifiers' type' name') := by
  refine (agrees_atSymbol h _).branch ?_ ?_
  · refine (agrees_braced h (agrees_accessor h)).bind fun _ _ hitems => .pure ?_
    simp only [Member.blur, Property.blur, hmodifiers, htype, hname, hitems]
  · refine (agrees_declarators h hname).bind fun _ _ hitems => ?_
    refine (agrees_symbol h _).seq fun _ _ => .pure ?_
    simp only [Member.blur, VariableDeclaration.blur, hmodifiers, htype, hitems]

theorem agrees_typedMember :
    Agrees first second (Member.blur blur) (typedMember modifiers) (typedMember modifiers') := by
  refine (agrees_returnType h).bind fun type type' htype => ?_
  refine (agrees_identifier h).bind fun _ _ hname => ?_
  refine (agrees_atSymbol h _).branch ?_ ?_
  · refine (agrees_parameters h).bind fun _ _ hitems => ?_
    refine (agrees_bodyOrSemicolon h).bind fun _ _ hbody => .pure ?_
    simp only [Member.blur, Method.blur, hmodifiers, htype, hname, hitems, hbody]
  cases type with
  | none =>
    cases type' with
    | none => exact .fail _
    | some _ => cases htype
  | some type =>
    cases type' with
    | none => cases htype
    | some type' => exact agrees_variableMember h hmodifiers (Option.some.inj htype) hname

omit hmodifiers in
theorem agrees_interfaceMember :
    Agrees first second (Member.blur blur) interfaceMember interfaceMember := by
  refine (agrees_takeSymbol h _).branch (.pure rfl) ?_
  refine (agrees_modifiers h).bind fun _ _ hmodifiers => ?_
  refine (agrees_returnType h).bind fun _ _ htype => ?_
  refine (agrees_identifier h).bind fun _ _ hname => ?_
  refine (agrees_parameters h).bind fun _ _ hitems => ?_
  refine (agrees_symbol h _).seq fun _ _ => .pure ?_
  simp only [Member.blur, Method.blur, hmodifiers, htype, hname, hitems]

/-! ## Declarations -/

omit hmodifiers in
theorem agrees_constants : Agrees first second (List.map blur.text) constants constants := by
  have hfurther : Agrees first second (Option.map blur.text) furtherConstant furtherConstant := by
    refine (agrees_takeSymbol h _).branch ?_ (.pure rfl)
    exact .optional (agrees_atSymbol h _).not (agrees_identifier h)
  refine (agrees_atSymbol h _).branch (.pure rfl) ?_
  refine (agrees_identifier h).bind fun _ _ hname => ?_
  refine (Agrees.many h.remaining hfurther).bind fun _ _ hothers => .pure ?_
  rw [List.map_cons, List.map_cons, hname, hothers]

omit hmodifiers in
theorem agrees_typesAfter (keyword : Text) :
    Agrees first second (List.map (TypeRef.blur blur)) (typesAfter keyword)
      (typesAfter keyword) := by
  have hpart := Agrees.optional (agrees_takeWord h keyword) (agrees_typeList h)
  refine hpart.bind fun types types' htypes => .pure ?_
  have hlist := congrArg (·.getD (List.map (TypeRef.blur blur) [])) htypes
  simp only [Option.getD_map] at hlist
  exact hlist

variable {inner inner' : Grammar Member}
  (hinner : Agrees first second (Member.blur blur) inner inner')

include hinner in
theorem agrees_declarationOf :
    Agrees first second (Declaration.blur blur) (declarationOf inner modifiers)
      (declarationOf inner' modifiers') := by
  refine (agrees_takeWord h _).branch ?classType ((agrees_takeWord h _).branch ?interfaceType
    ((agrees_takeWord h _).branch ?enumType (.fail _)))
  case classType =>
    refine (agrees_identifier h).bind fun _ _ hname => ?_
    refine (Agrees.optional (agrees_takeWord h _) (agrees_typeRef h)).bind fun _ _ hparent => ?_
    refine (agrees_typesAfter h _).bind fun _ _ hinterfaces => ?_
    refine (agrees_braced h hinner).bind fun _ _ hbody => .pure ?_
    simp only [Declaration.blur, Member.blurAll_eq_map, hmodifiers, hname, hparent, hinterfaces,
      hbody]
  case interfaceType =>
    refine (agrees_identifier h).bind fun _ _ hname => ?_
    refine (agrees_typesAfter h _).bind fun _ _ hparents => ?_
    refine (agrees_braced h (agrees_interfaceMember h)).bind fun _ _ hbody => .pure ?_
    simp only [Declaration.blur, Member.blurAll_eq_map, hmodifiers, hname, hparents, hbody]
  case enumType =>
    refine (agrees_identifier h).bind fun _ _ hname => ?_
    refine (agrees_symbol h _).seq fun _ _ => ?_
    refine (agrees_constants h).bind fun _ _ hconstants => ?_
    refine (agrees_symbol h _).seq fun _ _ => .pure ?_
    simp only [Declaration.blur, hmodifiers, hname, hconstants]

end

/-- Members are read alike from alike streams. -/
theorem agrees_member : Agrees first second (Member.blur blur) member member := by
  refine .recursive h.remaining fun inner inner' hinner => .get fun index => ?_
  refine .ite (h.symbolAt index 0 _) ((Agrees.skip 1).seq fun _ _ => .pure rfl) ?_
  refine .ite ?_ ?_ ?_
  · rw [h.wordAt, h.symbolAt]
  · refine (Agrees.skip 1).seq fun _ _ => ?_
    refine (agrees_block h).bind fun _ _ hbody => .pure ?_
    simp only [Member.blur, Initializer.blur, hbody]
  refine .ite (h.symbolAt index 0 _) ?_ ?_
  · refine (agrees_block h).bind fun _ _ hbody => .pure ?_
    simp only [Member.blur, Initializer.blur, hbody]
  refine (agrees_modifiers h).bind fun _ _ hmodifiers => .get fun index => ?_
  refine .ite (h.wordInAt index 0 _) ?_ ?_
  · refine (agrees_declarationOf h hmodifiers hinner).bind fun _ _ hnested => .pure ?_
    simp only [Member.blur, hnested]
  exact .ite (constructorAhead_alike h index) (agrees_constructor h hmodifiers)
    (agrees_typedMember h hmodifiers)

/-- Compilation units are read alike from alike streams. -/
theorem agrees_compilationUnit :
    Agrees first second (CompilationUnit.blur blur) compilationUnit compilationUnit := by
  refine (agrees_modifiers h).bind fun _ _ hmodifiers => ?_
  refine (agrees_declarationOf h hmodifiers (agrees_member h)).bind fun _ _ hunit => ?_
  exact .pure (congrArg CompilationUnit.mk hunit)

theorem agrees_whole {see : α → γ} {rule : Grammar α} (hrule : Agrees first second see rule rule) :
    Agrees first second see (whole rule) (whole rule) := by
  refine hrule.bind fun _ _ hvalue => ?_
  exact (agrees_endOfInput h).seq fun _ _ => .pure hvalue

end Grammar

end ApexLayout
