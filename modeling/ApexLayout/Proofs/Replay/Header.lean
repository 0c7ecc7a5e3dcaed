import ApexLayout.Proofs.Replay.Variable

/-!
Conditions and the headers of loops.

A loop over the elements of a collection is tried first, so the header of a counting loop must not
look like one when it is printed.
-/

namespace ApexLayout

namespace Grammar

variable {α : Type} {bound : Nat} {source rest : TokenStream}

theorem symbol_ahead {text : Text} {value : Unit} (h : symbol text source = .ok value rest) :
    pieceAt source.pieces 0 (·.isSymbol text) = true := by
  obtain ⟨piece, hpieces, hpiece⟩ := symbol_ok h
  rw [hpieces, pieceAt_zero, hpiece]

theorem plays_inParentheses {value : Expression} (h : inParentheses source = .ok value rest) :
    PlaysAlone bound inParentheses source.pieces rest.pieces
      (.symbol "(" :: (value.parts ++ [.symbol ")"])) value := by
  unfold inParentheses at h
  obtain ⟨_, opened, hopen, h⟩ := Reader.bind_eq_ok.1 h
  obtain ⟨inner, middle, hinner, h⟩ := Reader.bind_eq_ok.1 h
  obtain ⟨_, closed, hclose, h⟩ := Reader.bind_eq_ok.1 h
  cases h
  refine Plays.bind_anywhere (playsAlone_symbol hopen (by decide)) ?_
  refine Plays.bind_symbol (replay_expression _ _ _ hinner bound).plays (symbol_ahead hclose) ?_
  exact (playsAlone_symbol hclose (by decide)).map fun _ => value

/-! ## Optional parts -/

/-- Whether the next token is anything but the given symbol. -/
def notAt (stop : Text) : Grammar Bool := return !(← atSymbol stop)

theorem replay_notAt {stop : Text} {found : Bool} (h : notAt stop source = .ok found rest) :
    Replay bound (notAt stop) source.pieces rest.pieces [] found := by
  unfold notAt at h
  obtain ⟨here, middle, hhere, h⟩ := Reader.bind_eq_ok.1 h
  cases h
  exact (replay_atSymbol hhere).map fun here => !here

/-- Something that is there unless a symbol is next. -/
theorem replay_unless {stop : Text} {rule : Grammar α} {print : α → List Part} {value : Option α}
    (hrule : ∀ source value rest, rule source = .ok value rest →
      Replay bound rule source.pieces rest.pieces (print value) value)
    (h : Reader.optional (notAt stop) rule source = .ok value rest) :
    Replay bound (Reader.optional (notAt stop) rule) source.pieces rest.pieces
      (value.elim [] print) value := by
  cases value with
  | none => exact (replay_notAt (Reader.optional_eq_none.1 h)).optional_none
  | some value =>
    obtain ⟨middle, htest, hvalue⟩ := Reader.optional_eq_some.1 h
    exact (replay_notAt htest).optional_some (hrule _ _ _ hvalue)

theorem replay_commaSeparated {items : List Expression}
    (h : commaSeparated expression source = .ok items rest) :
    Replay bound (commaSeparated expression) source.pieces rest.pieces (expressionsParts items)
      items :=
  replay_separated (fun _ _ _ hitem => replay_expression _ _ _ hitem bound)
    (fun _ _ => replay_takeSymbol_true) (fun _ _ => replay_takeSymbol_false) h

/-- The rest of the header of a counting loop, behind what it begins with. -/
def countingRest (init : Option ForInit) : Grammar ForControl := do
  symbol ";"
  let condition ← expressionUnless ";"
  symbol ";"
  let update ← Reader.optional (notAt ")") (commaSeparated expression)
  return .counting init condition (update.getD [])

theorem countingControl_eq : countingControl = forInit >>= countingRest := rfl

theorem replay_countingRest {init : Option ForInit} {control : ForControl}
    (h : countingRest init source = .ok control rest) :
    ∃ condition update, control = .counting init condition update ∧
      pieceAt source.pieces 0 (·.isSymbol ";") = true ∧
      Replay bound (countingRest init) source.pieces rest.pieces
        (.symbol ";" :: (condition.elim [] Expression.parts ++
          .symbol ";" :: expressionsParts update)) control := by
  unfold countingRest at h
  obtain ⟨_, first, hfirst, h⟩ := Reader.bind_eq_ok.1 h
  obtain ⟨condition, middle, hcondition, h⟩ := Reader.bind_eq_ok.1 h
  obtain ⟨_, second, hsecond, h⟩ := Reader.bind_eq_ok.1 h
  obtain ⟨update, last, hupdate, h⟩ := Reader.bind_eq_ok.1 h
  cases h
  have hparts : update.elim [] expressionsParts = expressionsParts (update.getD []) := by
    cases update <;> rfl
  refine ⟨condition, update.getD [], rfl, symbol_ahead hfirst, ?_⟩
  rw [← hparts]
  refine Replay.bind (replay_symbol hfirst) ?_
  refine Replay.bind (replay_unless (fun _ _ _ hitem => replay_expression _ _ _ hitem bound)
    hcondition) ?_
  refine Replay.bind (replay_symbol hsecond) ?_
  exact (replay_unless (fun _ _ _ => replay_commaSeparated) hupdate).map
    fun update => ForControl.counting init condition (update.getD [])

/-! ## Loops over a collection -/

theorem eachHead_declares {value : List Modifier × TypeRef × Text}
    (h : eachHead source = .ok value rest) : Declares [":".toList] source := by
  unfold eachHead at h
  obtain ⟨values, middle, hmodifiers, h⟩ := Reader.bind_eq_ok.1 h
  obtain ⟨type, behind, htype, h⟩ := Reader.bind_eq_ok.1 h
  obtain ⟨name, last, hname, h⟩ := Reader.bind_eq_ok.1 h
  obtain ⟨_, final, hcolon, h⟩ := Reader.bind_eq_ok.1 h
  refine ⟨values, middle, type, behind, hmodifiers, htype, ?_⟩
  obtain ⟨piece, hpieces, hpiece, -⟩ := identifier_ok hname
  obtain ⟨mark, hmark, hsymbol⟩ := symbol_ok hcolon
  rw [hpieces, hmark, pieceAt_zero, pieceAt_one, pieceAt_zero, hpiece]
  unfold Piece.isSymbolIn
  rw [List.any_cons, hsymbol]
  rfl

theorem declares_eachHead (h : Declares [":".toList] source) :
    ∃ value final, eachHead source = .ok value final := by
  obtain ⟨values, middle, type, last, hmodifiers, htype, hdeclared⟩ := h
  rw [Bool.and_eq_true] at hdeclared
  obtain ⟨name, others, hpieces, hname⟩ := pieceAt_zero_true hdeclared.1
  have hcolon := hdeclared.2
  rw [hpieces, pieceAt_one] at hcolon
  obtain ⟨mark, more, rfl, hmark⟩ := pieceAt_zero_true hcolon
  have hsymbol : mark.isSymbol ":" = true := by
    unfold Piece.isSymbolIn at hmark
    rwa [List.any_cons, List.any_nil, Bool.or_false] at hmark
  have hreads : Reads (last.remaining + 1) identifier [name] (mark :: more) name.text :=
    reads_identifier hname
  have hidentifier := hreads last (Nat.lt_succ_self _) hpieces
  have hbehind : (last.skip 1).pieces = mark :: more := TokenStream.pieces_skip_one hpieces
  refine ⟨(values, type, name.text), (last.skip 1).skip 1, ?_⟩
  unfold eachHead
  simp only [Reader.bind_eq_ok]
  exact ⟨values, middle, hmodifiers, type, last, htype, name.text, _, hidentifier, (), _,
    symbol_run hsymbol hbehind, rfl⟩

theorem plays_each {value : List Modifier × TypeRef × Text} (h : eachHead source = .ok value rest) :
    Plays true true (Similar rest.pieces) bound eachHead source.pieces rest.pieces
      (modifierParts value.1 ++ [.type value.2.1, .word value.2.2, .symbol ":"]) value := by
  unfold eachHead at h
  obtain ⟨values, middle, hmodifiers, h⟩ := Reader.bind_eq_ok.1 h
  obtain ⟨type, behind, htype, h⟩ := Reader.bind_eq_ok.1 h
  obtain ⟨name, last, hname, h⟩ := Reader.bind_eq_ok.1 h
  obtain ⟨_, final, hcolon, h⟩ := Reader.bind_eq_ok.1 h
  cases h
  refine plays_modified hmodifiers (typeRef_first htype) ?_
  refine Replay.bind (replay_typeRef htype) ?_
  refine Replay.bind (replay_identifier hname) ?_
  exact (replay_symbol hcolon).map fun _ => (values, type, name)

/-! ## Counting loops -/

/-- Behind the first of several expressions stands a comma, or what stands behind them all. -/
theorem commaSeparated_first {items : List Expression}
    (h : commaSeparated expression source = .ok items rest)
    (hend : pieceAt rest.pieces 0 (·.isSymbol ";") = true) :
    ∃ first middle, expression source = .ok first middle ∧
      pieceAt middle.pieces 0 Piece.continues = false := by
  unfold commaSeparated Reader.separated at h
  obtain ⟨first, middle, hfirst, h⟩ := Reader.bind_eq_ok.1 h
  obtain ⟨others, last, hothers, h⟩ := Reader.bind_eq_ok.1 h
  cases h
  refine ⟨first, middle, hfirst, ?_⟩
  -- neither a comma nor a semicolon goes on with an expression
  have hsymbol : ∀ {piece : Piece} {text : Text}, piece.isSymbol text = true →
      text ≠ String.toList "@" → piece.continues = false := by
    intro piece text hpiece htext
    unfold Piece.continues
    rw [(Piece.isSymbol_iff.1 hpiece).1, Piece.isSymbol_eq_false hpiece htext]
    rfl
  cases Reader.many_eq_ok.1 hothers with
  | stop hlast =>
    obtain ⟨rfl, -⟩ := takeSymbol_false (Reader.optional_eq_none.1 hlast)
    obtain ⟨piece, more, hpieces, hpiece⟩ := pieceAt_zero_true hend
    rw [hpieces, pieceAt_zero]
    exact hsymbol hpiece (by decide)
  | round hround =>
    obtain ⟨behind, hcomma, -⟩ := Reader.optional_eq_some.1 hround
    obtain ⟨piece, hpieces, hpiece⟩ := takeSymbol_true hcomma
    rw [hpieces, pieceAt_zero]
    exact hsymbol hpiece (by decide)

/-- What is printed for expressions in front of a semicolon, with the semicolon. -/
theorem matched_semicolon {pieces behind f : List Piece} {parts : List Part}
    (h : Printed pieces behind parts) (hend : pieceAt behind 0 (·.isSymbol ";") = true)
    (hf : pieceAt f 0 (·.isSymbol ";") = true) :
    ∃ p q s g, pieces = p ++ s ∧ spell parts ++ f = q ++ g ∧ MatchAll p q ∧
      ∃ piece ∈ q, piece.isFence = true := by
  obtain ⟨taken, rfl, hmatch⟩ := h.matched
  obtain ⟨mark, more, rfl, hmark⟩ := pieceAt_zero_true hend
  obtain ⟨mark', more', rfl, hmark'⟩ := pieceAt_zero_true hf
  have hboth : mark.Matches mark' :=
    ⟨(Piece.isSymbol_iff.1 hmark).1.trans (Piece.isSymbol_iff.1 hmark').1.symm,
      .inl ((Piece.isSymbol_iff.1 hmark).2.trans (Piece.isSymbol_iff.1 hmark').2.symm)⟩
  refine ⟨taken ++ [mark], spell parts ++ [mark'], more, more', by simp, by simp,
    hmatch.append (.cons hboth .nil), mark', by simp, ?_⟩
  exact Piece.isFence_of_symbol hmark' (by decide)

theorem similar_semicolon {pieces f : List Piece}
    (h : pieceAt pieces 0 (·.isSymbol ";") = true) (hf : pieceAt f 0 (·.isSymbol ";") = true) :
    Similar pieces f := by
  obtain ⟨mark, more, rfl, hmark⟩ := pieceAt_zero_true h
  obtain ⟨mark', more', rfl, hmark'⟩ := pieceAt_zero_true hf
  exact Similar.of_symbol hmark hmark' (by decide) (by decide)

/-- What a piece that begins a declaration is not. -/
theorem isSymbol_of_begins {piece : Piece} {text : Text}
    (h : piece.modifies = true ∨ piece.isIdentifier = true) (htext : text ≠ [ '@' ]) :
    piece.isSymbol text = false :=
  isSymbol_of_continues (behind_modifier h).1 htext

theorem plays_forInit {init : Option ForInit} (h : forInit source = .ok init rest)
    (hend : pieceAt rest.pieces 0 (·.isSymbol ";") = true) :
    Plays true true (fun f => pieceAt f 0 (·.isSymbol ";") = true) bound forInit source.pieces
      rest.pieces (init.elim [] ForInit.parts) init := by
  unfold forInit at h
  obtain ⟨found, middle, hfound, h⟩ := Reader.bind_eq_ok.1 h
  obtain ⟨hhere, rfl⟩ := atSymbol_eq_ok.1 hfound
  cases found with
  | true =>
    cases h
    exact Plays.bind_test true (fun _ _ f hf => reads_atSymbol hf)
      ((Plays.pure true none).mono fun _ _ => trivial)
  | false =>
    obtain ⟨declared, behind, hvariables, hrun⟩ := Reader.bind_eq_ok.1 h
    clear h
    cases declared with
    | some declaration =>
      cases hrun
      refine Plays.bind_test false (fun _ hrereads f _ => ?_) ?_
      · obtain ⟨piece, pieces, hspell, hpiece⟩ := spell_localVariables hvariables hrereads
        apply reads_atSymbol
        show pieceAt (spell declaration.parts ++ f) 0 _ = false
        rw [hspell, List.cons_append, pieceAt_zero]
        exact isSymbol_of_begins hpiece (by decide)
      · refine Plays.mono ?_ fun f hf => similar_semicolon hend hf
        exact Plays.bind_pure (plays_localVariables hvariables) rfl
    | none =>
      obtain ⟨rfl, hnone⟩ := localVariables_none hvariables
      obtain ⟨items, last, hitems, hrun⟩ := Reader.bind_eq_ok.1 hrun
      cases hrun
      obtain ⟨first, after, hfirst, hbehind⟩ := commaSeparated_first hitems hend
      have hreplay : Replay bound (commaSeparated expression) _ _ (expressionsParts items) items :=
        replay_commaSeparated hitems
      -- both tests fail again on what is printed: no semicolon stands there, and no declaration
      refine Plays.bind_test false (fun hsound _ f hf => ?_)
        (Plays.bind_test none (fun hsound _ f hf => ?_) ?_)
      · have hsimilar := hreplay.similar hsound (similar_semicolon hend hf)
        apply reads_atSymbol
        show pieceAt (spell (expressionsParts items) ++ f) 0 _ = false
        rw [← hsimilar.first (Piece.respects_isSymbol _)]
        exact hhere
      · obtain ⟨hprinted, -⟩ := hreplay hsound.regular hsound.query
        obtain ⟨p, q, s, g, hpieces, hspell, hmatch, hfence⟩ := matched_semicolon hprinted hend hf
        show Reads bound localVariables [] (spell (expressionsParts items) ++ f) none
        rw [hspell]
        exact reads_localVariables_none hfirst hbehind hpieces hmatch hfence hnone
      · exact (hreplay.plays.map fun items => some (ForInit.expressions items)).mono
          fun f hf => similar_semicolon hend hf

/-- The header of a counting loop does not look like a loop over a collection. -/
theorem reads_eachHead_none {init : Option ForInit} {f : List Piece}
    (h : forInit source = .ok init rest) (hend : pieceAt rest.pieces 0 (·.isSymbol ";") = true)
    (hnone : ¬ Declares [":".toList] source) (hsound : Sound source.pieces (init.elim [] ForInit.parts))
    (hrereads : Rereads (init.elim [] ForInit.parts))
    (hf : pieceAt f 0 (·.isSymbol ";") = true) :
    Reads bound (Reader.attempt eachHead) [] (spell (init.elim [] ForInit.parts) ++ f) none := by
  apply Refuses.attempt
  intro stream hpieces value final hrun
  have hdeclares := eachHead_declares hrun
  unfold forInit at h
  obtain ⟨found, middle, hfound, h⟩ := Reader.bind_eq_ok.1 h
  obtain ⟨hhere, rfl⟩ := atSymbol_eq_ok.1 hfound
  cases found with
  | true =>
    cases h
    -- a semicolon begins no declaration
    obtain ⟨piece, others, hstream, hpiece⟩ := hdeclares.first
    rw [hpieces, Option.elim_none, spell_nil, List.nil_append] at hstream
    rw [hstream, pieceAt_zero, isSymbol_of_begins hpiece (by decide)] at hf
    exact absurd hf (by decide)
  | false =>
    obtain ⟨declared, behind, hvariables, hinit⟩ := Reader.bind_eq_ok.1 h
    clear h
    cases declared with
    | some declaration =>
      cases hinit
      have hplays : Plays true true _ (stream.remaining + 1) localVariables _ _ declaration.parts _ :=
        plays_localVariables hvariables
      obtain ⟨-, hreads⟩ := hplays hsound
      have hagain := hreads hrereads f (similar_semicolon hend hf) stream (Nat.lt_succ_self _)
        hpieces
      exact hdeclares.apart (localVariables_declares hagain) (by decide)
    | none =>
      obtain ⟨rfl, -⟩ := localVariables_none hvariables
      obtain ⟨items, last, hitems, hinit⟩ := Reader.bind_eq_ok.1 hinit
      cases hinit
      obtain ⟨first, after, hfirst, hbehind⟩ := commaSeparated_first hitems hend
      have hreplay : Replay bound (commaSeparated expression) _ _ (expressionsParts items) items :=
        replay_commaSeparated hitems
      obtain ⟨hprinted, -⟩ := hreplay hsound.regular hsound.query
      obtain ⟨p, q, s, g, hsource, hspell, hmatch, hfence⟩ := matched_semicolon hprinted hend hf
      exact hnone (declares_transfer hfirst hbehind hsource (hpieces.trans hspell) hmatch hfence
        hdeclares)

/-- The header of a loop is read back in front of the closing parenthesis. -/
theorem plays_forControl {control : ForControl} (h : forControl source = .ok control rest) :
    Plays true true (Similar rest.pieces) bound forControl source.pieces rest.pieces control.parts
      control := by
  unfold forControl at h
  obtain ⟨found, middle, hfound, hrun⟩ := Reader.bind_eq_ok.1 h
  clear h
  cases found with
  | some head =>
    obtain ⟨values, type, name⟩ := head
    obtain ⟨iterable, last, hiterable, hrun⟩ := Reader.bind_eq_ok.1 hrun
    cases hrun
    have hparts : ForControl.parts (.each values type name iterable) =
        (modifierParts values ++ [.type type, .word name, .symbol ":"]) ++ iterable.parts := by
      simp [ForControl.parts]
    rw [hparts]
    refine Plays.bind_replay (plays_each (Reader.attempt_eq_some.1 hfound)).attempt ?_
    exact (replay_expression _ _ _ hiterable bound).map (ForControl.each values type name)
  | none =>
    obtain ⟨rfl, hnone⟩ := Reader.attempt_eq_none.1 hfound
    have hcounting : (forInit >>= countingRest) middle = .ok control rest := hrun
    obtain ⟨init, behind, hinit, hrest⟩ := Reader.bind_eq_ok.1 hcounting
    obtain ⟨condition, update, rfl, hend, hreplay⟩ := replay_countingRest hrest
    -- what is no head of a `for each` loop is none when it is printed either
    refine Plays.bind_test none (fun hsound hrereads f _ => ?_) ?_
    · show Reads bound _ [] (spell (init.elim [] ForInit.parts ++ _) ++ f) none
      rw [spell_append, List.append_assoc]
      refine reads_eachHead_none hinit hend (fun hdeclares => ?_)
        ⟨hsound.regular, fun hquery => hsound.query (List.mem_append_left _ hquery)⟩
        (rereads_append.1 hrereads).1 rfl
      obtain ⟨value, final, heach⟩ := declares_eachHead hdeclares
      exact hnone value final heach
    · exact Plays.bind (plays_forInit hinit hend) hreplay.plays fun _ _ _ _ => rfl

end Grammar

end ApexLayout
