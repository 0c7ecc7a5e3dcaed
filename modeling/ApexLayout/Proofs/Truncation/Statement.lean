import ApexLayout.Proofs.Replay.Header
import ApexLayout.Proofs.Truncation.Expression

/-!
Statements in front of a closing brace.

A declaration of variables is tried before an expression, and its annotations may run past the brace.
Where the trial fails on one stream and an expression is read instead, the expression shows that there
are no modifiers, so the other stream tries a type on the same tokens (`declares_shared`).
-/

namespace ApexLayout

namespace Grammar

section

variable {first second : TokenStream} {last : Nat} (h : TokenStream.Shares first second last)

include h

/-! ## Variables -/

theorem persists_declarator (name : Text) :
    Persists first second last (declarator name) (declarator name) :=
  (Persists.optional (persists_takeSymbol h _) (persists_expression h)).map _

theorem persists_declarators (name : Text) :
    Persists first second last (declarators name) (declarators name) := by
  have hfurther : Persists first second last (identifier >>= declarator)
      (identifier >>= declarator) :=
    (persists_identifier h).bind fun next => persists_declarator h next
  refine (persists_declarator h name).bind fun head => ?_
  exact (Persists.many h (Persists.optional (persists_takeSymbol h _) hfurther)).map _

theorem persists_variableHead : Persists first second last variableHead variableHead := by
  have hdeclared : Persists first second last
      (look fun stream => stream.identifierAt 0 &&
        stream.symbolInAt 1 (["=", ";", ","].map String.toList))
      (look fun stream => stream.identifierAt 0 &&
        stream.symbolInAt 1 (["=", ";", ","].map String.toList)) := by
    refine .look fun _ hindex => h.holds_and hindex Token.open_isIdentifier fun hnext => ?_
    exact h.holds hnext _
  refine (persists_modifiers h).bind fun modifiers => ?_
  refine (persists_typeRef h).bind fun type => ?_
  refine hdeclared.bind fun declared => ?_
  exact (Persists.require _ _).map _

theorem persists_eachHead : Persists first second last eachHead eachHead := by
  refine (persists_modifiers h).bind fun modifiers => ?_
  refine (persists_typeRef h).bind fun type => ?_
  refine (persists_identifier h).bind fun name => ?_
  exact (persists_symbol h _).map _

/-- Where an expression is read, the other stream declares nothing that the first does not. -/
theorem declares_shared {symbols : List Text} {index : Nat} (hindex : index ≤ last)
    {value : Expression} {rest : TokenStream}
    (hrun : expression (first.skip index) = .ok value rest)
    (hbehind : pieceAt rest.pieces 0 Piece.continues = false)
    (hdeclares : Declares symbols (second.skip index)) : Declares symbols (first.skip index) := by
  obtain ⟨row, behind, behind', hfirst, hsecond, -, piece, hpiece, hbrace⟩ := h.split_pieces hindex
  exact declares_transfer hrun hbehind hfirst hsecond (SameAll.refl row).matchAll
    ⟨piece, hpiece, Piece.isFence_of_symbol hbrace (by decide)⟩ hdeclares

omit h in
/-- A trial that declares nothing. -/
theorem localVariables_of_not_declares {source : TokenStream}
    (hnone : ¬ Declares declaredSymbols source) : localVariables source = .ok none source := by
  have hattempt : Reader.attempt variableHead source = .ok none source :=
    Reader.attempt_eq_none.2 ⟨rfl, fun _ _ hrun => hnone (variableHead_declares hrun)⟩
  exact Reader.bind_eq_ok.2 ⟨none, source, hattempt, rfl⟩

/-- The trial of a declaration, where an expression is read if it fails. -/
theorem carries_localVariables {index : Nat} {found : Option VariableDeclaration}
    {rest : TokenStream} (hrun : localVariables (first.skip index) = .ok found rest)
    (hexpression : found = none → ∃ value behind, expression (first.skip index) = .ok value behind ∧
      pieceAt behind.pieces 0 Piece.continues = false) :
    Carries first second last index found rest (localVariables (second.skip index)) := by
  cases found with
  | none =>
    obtain ⟨rfl, hnone⟩ := localVariables_none hrun
    refine ⟨index, Nat.le_refl _, rfl, fun hindex => localVariables_of_not_declares ?_⟩
    obtain ⟨value, behind, hvalue, hbehind⟩ := hexpression rfl
    exact fun hdeclares => hnone (declares_shared h hindex hvalue hbehind hdeclares)
  | some declaration =>
    obtain ⟨middle, behind, name, hhead, hname, hitems⟩ := localVariables_some hrun
    obtain ⟨start, hstart, rfl, hhead'⟩ := persists_variableHead h _ _ _ hhead
    refine Carries.bind ⟨start, hstart, rfl, fun hle => Reader.attempt_eq_some.2 (hhead' hle)⟩
      fun start hstart => ?_
    rw [hstart] at hname
    refine (persists_identifier h _ _ _ hname).bind fun next hnext => ?_
    rw [hnext] at hitems
    exact (persists_declarators h name).map _ _ _ _ (Reader.bind_eq_ok.2 ⟨_, _, hitems, rfl⟩)

/-! ## Blocks and headers -/

theorem persists_blockOf {inner inner' : Grammar Statement}
    (hinner : Persists first second last inner inner') :
    Persists first second last (blockOf inner) (blockOf inner') := by
  have hcontinues : Persists first second last
      (look fun stream => !(stream.tokens.isEmpty || stream.symbolAt 0 "\x7d"))
      (look fun stream => !(stream.tokens.isEmpty || stream.symbolAt 0 "\x7d")) := by
    refine .look fun index hindex => ?_
    have hsymbol : (first.skip index).symbolAt 0 "\x7d" = (second.skip index).symbolAt 0 "\x7d" :=
      h.holds hindex _
    obtain ⟨row, rest, rest', hfirst, hsecond, -, token, htoken, -⟩ := h.split hindex
    cases row with
    | nil => cases htoken
    | cons token row =>
      rw [hsymbol, hfirst, hsecond]
      rfl
  refine (persists_symbol h _).bind fun _ => ?_
  refine (Persists.many h (hcontinues.optional hinner)).bind fun body => ?_
  exact (persists_symbol h _).map _

theorem persists_inParentheses : Persists first second last inParentheses inParentheses := by
  refine (persists_symbol h _).bind fun _ => ?_
  refine (persists_expression h).bind fun inner => ?_
  exact (persists_symbol h _).map _

theorem persists_expressionUnless (stop : Text) :
    Persists first second last (expressionUnless stop) (expressionUnless stop) :=
  .optional (persists_unless h stop) (persists_expression h)

theorem persists_countingRest (init : Option ForInit) :
    Persists first second last (countingRest init) (countingRest init) := by
  have hupdate := Persists.optional (persists_unless h ")")
    (persists_commaSeparated h (persists_expression h))
  refine (persists_symbol h _).bind fun _ => ?_
  refine (persists_expressionUnless h _).bind fun condition => ?_
  refine (persists_symbol h _).bind fun _ => ?_
  exact hupdate.map _

/-- What a counting loop begins with, in front of its semicolon. -/
theorem carries_forInit {index : Nat} {init : Option ForInit} {rest : TokenStream}
    (hrun : forInit (first.skip index) = .ok init rest)
    (hend : pieceAt rest.pieces 0 (·.isSymbol ";") = true) :
    Carries first second last index init rest (forInit (second.skip index)) := by
  obtain ⟨found, middle, hfound, hinit⟩ := Reader.bind_eq_ok.1 hrun
  refine (persists_atSymbol h _ _ _ _ hfound).bind fun start hstart => ?_
  subst hstart
  cases found with
  | true => exact Persists.pure none start _ _ hinit
  | false =>
    obtain ⟨declared, behind, hvariables, hrest⟩ := Reader.bind_eq_ok.1 hinit
    refine (carries_localVariables h hvariables ?_).bind fun next hnext => ?_
    · rintro rfl
      obtain ⟨rfl, -⟩ := localVariables_none hvariables
      obtain ⟨items, _, hitems, hrest⟩ := Reader.bind_eq_ok.1 hrest
      cases hrest
      exact commaSeparated_first hitems hend
    · subst hnext
      cases declared with
      | some declaration => exact Persists.pure _ next _ _ hrest
      | none => exact (persists_commaSeparated h (persists_expression h)).map _ next _ _ hrest

omit h in
theorem forInit_variables {source rest : TokenStream} {declaration : VariableDeclaration}
    (hrun : forInit source = .ok (some (.variables declaration)) rest) :
    Declares declaredSymbols source := by
  obtain ⟨found, middle, hfound, hinit⟩ := Reader.bind_eq_ok.1 hrun
  obtain ⟨-, rfl⟩ := atSymbol_eq_ok.1 hfound
  cases found with
  | true => cases hinit
  | false =>
    obtain ⟨declared, behind, hvariables, hrest⟩ := Reader.bind_eq_ok.1 hinit
    cases declared with
    | some declaration => exact localVariables_declares hvariables
    | none =>
      obtain ⟨_, _, -, hrest⟩ := Reader.bind_eq_ok.1 hrest
      cases hrest

/-- A counting loop is no loop over a collection on either stream. -/
theorem not_declares_each {index : Nat} (hindex : index ≤ last) {init : Option ForInit}
    {rest rest' : TokenStream} (hrun : forInit (first.skip index) = .ok init rest)
    (hend : pieceAt rest.pieces 0 (·.isSymbol ";") = true)
    (hrun' : forInit (second.skip index) = .ok init rest')
    (hnone : ¬ Declares [":".toList] (first.skip index)) :
    ¬ Declares [":".toList] (second.skip index) := by
  intro hdeclares
  obtain ⟨found, middle, hfound, hinit⟩ := Reader.bind_eq_ok.1 hrun
  obtain ⟨hhere, rfl⟩ := atSymbol_eq_ok.1 hfound
  cases found with
  | true =>
    -- a semicolon begins no declaration
    obtain ⟨piece, others, hpieces, hpiece⟩ := hdeclares.first
    rw [(h.similar hindex).first (Piece.respects_isSymbol _), hpieces, pieceAt_zero,
      isSymbol_of_begins hpiece (by decide)] at hhere
    cases hhere
  | false =>
    obtain ⟨declared, behind, hvariables, hrest⟩ := Reader.bind_eq_ok.1 hinit
    cases declared with
    | some declaration =>
      cases hrest
      exact hdeclares.apart (forInit_variables hrun') (by decide)
    | none =>
      obtain ⟨rfl, -⟩ := localVariables_none hvariables
      obtain ⟨items, _, hitems, hrest⟩ := Reader.bind_eq_ok.1 hrest
      cases hrest
      obtain ⟨value, after, hvalue, hbehind⟩ := commaSeparated_first hitems hend
      exact hnone (declares_shared h hindex hvalue hbehind hdeclares)

theorem persists_forControl : Persists first second last forControl forControl := by
  intro index control rest hrun
  obtain ⟨found, middle, hfound, hcontrol⟩ := Reader.bind_eq_ok.1 hrun
  cases found with
  | some head =>
    obtain ⟨start, hstart, rfl, hhead⟩ :=
      persists_eachHead h _ _ _ (Reader.attempt_eq_some.1 hfound)
    refine Carries.bind ⟨start, hstart, rfl, fun hle => Reader.attempt_eq_some.2 (hhead hle)⟩
      fun start hstart => ?_
    exact (persists_expression h).map _ start _ _ (hstart ▸ hcontrol)
  | none =>
    obtain ⟨rfl, hnone⟩ := Reader.attempt_eq_none.1 hfound
    obtain ⟨init, middle, hinit, hrest⟩ := Reader.bind_eq_ok.1 (countingControl_eq ▸ hcontrol)
    obtain ⟨_, _, hsemicolon, -⟩ := Reader.bind_eq_ok.1 hrest
    have hend := symbol_ahead hsemicolon
    obtain ⟨start, hstart, rfl, hinit'⟩ := carries_forInit h hinit hend
    obtain ⟨stop, hstop, rfl, hrest'⟩ := persists_countingRest h init start _ _ hrest
    refine ⟨stop, Nat.le_trans hstart hstop, rfl, fun hle => ?_⟩
    have hstarted := hinit' (Nat.le_trans hstop hle)
    -- the shorter stream has no head of the other form either, so the attempt fails again
    have hother : ¬ Declares [":".toList] (second.skip index) := by
      refine not_declares_each h (by omega) hinit hend hstarted fun hdeclares => ?_
      obtain ⟨value, final, heach⟩ := declares_eachHead hdeclares
      exact hnone value final heach
    have hattempt : Reader.attempt eachHead (second.skip index) = .ok none (second.skip index) :=
      Reader.attempt_eq_none.2 ⟨rfl, fun _ _ heach => hother (eachHead_declares heach)⟩
    refine Reader.bind_eq_ok.2 ⟨none, _, hattempt, ?_⟩
    exact Reader.bind_eq_ok.2 ⟨init, _, hstarted, hrest' hle⟩

/-! ## Statements -/

theorem persists_ended (statement : Statement) :
    Persists first second last (ended statement) (ended statement) :=
  (persists_symbol h _).map fun _ => statement

theorem persists_simpleStatement :
    Persists first second last simpleStatement simpleStatement := by
  intro index value rest hrun
  obtain ⟨declared, middle, hvariables, hstatement⟩ := Reader.bind_eq_ok.1 hrun
  refine (carries_localVariables h hvariables ?_).bind fun start hstart => ?_
  · rintro rfl
    obtain ⟨rfl, -⟩ := localVariables_none hvariables
    obtain ⟨value, behind, hvalue, hend⟩ := Reader.bind_eq_ok.1 hstatement
    obtain ⟨_, _, hsemicolon, -⟩ := Reader.bind_eq_ok.1 hend
    refine ⟨value, behind, hvalue, ?_⟩
    obtain ⟨piece, hpieces, hpiece⟩ := symbol_ok hsemicolon
    rw [hpieces, pieceAt_zero]
    unfold Piece.continues
    rw [(Piece.isSymbol_iff.1 hpiece).1, Piece.isSymbol_eq_false hpiece (by decide)]
    rfl
  · subst hstart
    cases declared with
    | some declaration => exact persists_ended h _ start _ _ hstatement
    | none =>
      exact (persists_expression h).bind (fun _ => persists_ended h _) start _ _ hstatement

theorem persists_dml : Persists first second last dml dml := by
  refine (persists_takeText h).bind fun text => ?_
  refine (persists_expression h).bind fun operand => ?_
  exact persists_ended h _

theorem persists_dmlAhead : Persists first second last (look dmlAhead) (look dmlAhead) := by
  refine .look fun index hindex => ?_
  refine h.holds_and hindex (Token.open_isWordIn _) fun hnext => ?_
  have hcalled := h.holds_and hnext (Token.open_isSymbol (show [ '}' ] ≠ String.toList "(" by decide))
    fun hthird => congrArg (! ·) (h.holds hthird (·.isSymbol ")"))
  have hword := h.holds hnext (·.kind == .word)
  have hbracket := h.holds hnext (·.isSymbol "[")
  exact congrArg₂ or (congrArg₂ or hword hbracket) hcalled

variable {inner inner' : Grammar Statement} (hinner : Persists first second last inner inner')

include hinner

theorem persists_ifElse : Persists first second last (ifElse inner) (ifElse inner') := by
  refine (persists_inParentheses h).bind fun condition => ?_
  refine hinner.bind fun thenBranch => ?_
  exact (Persists.optional (persists_takeWord h _) hinner).map _

theorem persists_whileLoop : Persists first second last (whileLoop inner) (whileLoop inner') :=
  (persists_inParentheses h).bind fun _ => hinner.map _

theorem persists_forLoop : Persists first second last (forLoop inner) (forLoop inner') := by
  refine (persists_symbol h _).bind fun _ => ?_
  refine (persists_forControl h).bind fun control => ?_
  refine (persists_symbol h _).bind fun _ => ?_
  exact hinner.map _

theorem persists_catchClause :
    Persists first second last (catchClause inner) (catchClause inner') := by
  refine (persists_symbol h _).bind fun _ => ?_
  refine (persists_modifiers h).bind fun modifiers => ?_
  refine (persists_typeRef h).bind fun type => ?_
  refine (persists_identifier h).bind fun name => ?_
  refine (persists_symbol h _).bind fun _ => ?_
  exact (persists_blockOf h hinner).map _

theorem persists_tryCatch : Persists first second last (tryCatch inner) (tryCatch inner') := by
  have hcatch := Persists.optional (persists_takeWord h "catch") (persists_catchClause h hinner)
  have hcleanup := Persists.optional (persists_takeWord h "finally") (persists_blockOf h hinner)
  refine (persists_blockOf h hinner).bind fun body => ?_
  refine (Persists.many h hcatch).bind fun catches => ?_
  refine hcleanup.bind fun cleanup => ?_
  exact (Persists.require _ _).map _

theorem persists_statementRule :
    Persists first second last (statementRule inner) (statementRule inner') := by
  refine (persists_atSymbol h _).branch ((persists_blockOf h hinner).map _) ?_
  refine (persists_takeWord h _).branch (persists_ifElse h hinner) ?_
  refine (persists_takeWord h _).branch (persists_whileLoop h hinner) ?_
  refine (persists_takeWord h _).branch (persists_forLoop h hinner) ?_
  refine (persists_takeWord h _).branch (persists_tryCatch h hinner) ?_
  refine (persists_takeWord h _).branch
    ((persists_expressionUnless h _).bind fun _ => persists_ended h _) ?_
  refine (persists_takeWord h _).branch
    ((persists_expression h).bind fun _ => persists_ended h _) ?_
  refine (persists_takeWord h _).branch (persists_ended h _) ?_
  refine (persists_takeWord h _).branch (persists_ended h _) ?_
  exact (persists_dmlAhead h).branch (persists_dml h) (persists_simpleStatement h)

omit hinner in
theorem persists_statement : Persists first second last statement statement :=
  .recursive h fun _ _ hinner => persists_statementRule h hinner

omit hinner in
theorem persists_block : Persists first second last block block :=
  persists_blockOf h (persists_statement h)

end

end Grammar

end ApexLayout
