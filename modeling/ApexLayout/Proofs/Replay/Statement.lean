import ApexLayout.Proofs.Replay.Clause

/-!
Statements.

A statement without a keyword is a database operation, a declaration of variables or an expression,
tried in this order. What is printed for it is tried with the same outcome, because everything that
is looked at stands in front of the semicolon.
-/

namespace ApexLayout

namespace Grammar

variable {bound : Nat} {source rest : TokenStream} {inner : Grammar Statement}

/-! ## Plain statements -/

/-- Whether the pieces look like a database operation with its operand. -/
def dmlPieces (pieces : List Piece) : Bool :=
  pieceAt pieces 0 (·.isWordIn Vocabulary.dmlOperations) &&
    (pieceAt pieces 1 (·.kind == .word) || pieceAt pieces 1 (·.isSymbol "[") ||
      (pieceAt pieces 1 (·.isSymbol "(") && !pieceAt pieces 2 (·.isSymbol ")")))

theorem dmlAhead_eq (stream : TokenStream) : dmlAhead stream = dmlPieces stream.pieces := by
  unfold dmlAhead
  rw [TokenStream.wordInAt_eq, TokenStream.symbolAt_eq, TokenStream.symbolAt_eq,
    TokenStream.symbolAt_eq, TokenStream.kindAt_eq stream 1 fun kind => kind == .word]
  rfl

/-- Whether a database operation comes is decided in front of the semicolon. -/
theorem dmlPieces_matchAll {p q s f : List Piece} {mark mark' : Piece} (h : MatchAll p q)
    (hne : p ≠ []) (hmark : mark.isSymbol ";" = true) (hmark' : mark'.isSymbol ";" = true) :
    dmlPieces (p ++ mark :: s) = dmlPieces (q ++ mark' :: f) := by
  have hsecond : ∀ {first piece : Piece} {others : List Piece}, piece.isSymbol ";" = true →
      dmlPieces (first :: piece :: others) = false := by
    intro first piece others hpiece
    unfold dmlPieces
    simp only [pieceAt_zero, pieceAt_one]
    rw [(Piece.isSymbol_iff.1 hpiece).1, Piece.isSymbol_eq_false hpiece (by decide),
      Piece.isSymbol_eq_false hpiece (by decide), Bool.false_and]
    exact Bool.and_false _
  have hboth : mark.Matches mark' :=
    ⟨(Piece.isSymbol_iff.1 hmark).1.trans (Piece.isSymbol_iff.1 hmark').1.symm,
      .inl ((Piece.isSymbol_iff.1 hmark).2.trans (Piece.isSymbol_iff.1 hmark').2.symm)⟩
  -- three pieces decide, and the mark may be the second or the third of them
  cases h with
  | nil => exact absurd rfl hne
  | cons hfirst htail =>
    cases htail with
    | nil =>
      rw [List.cons_append, List.cons_append, List.nil_append, List.nil_append, hsecond hmark,
        hsecond hmark']
    | @cons second second' p q hsecond htail =>
      obtain ⟨third, third', more, more', hp, hq, hthird⟩ : ∃ third third' more more',
          p ++ mark :: s = third :: more ∧ q ++ mark' :: f = third' :: more' ∧
          third.Matches third' := by
        cases htail with
        | nil => exact ⟨mark, mark', s, f, rfl, rfl, hboth⟩
        | cons hthird _ => exact ⟨_, _, _, _, rfl, rfl, hthird⟩
      have hwords := Piece.respects_isWordIn Vocabulary.dmlOperations _ _ hfirst
      simp only at hwords
      unfold dmlPieces
      simp only [List.cons_append, pieceAt_zero, pieceAt_one, pieceAt_two, hp, hq]
      rw [hwords, hsecond.kind, hsecond.isSymbol, hsecond.isSymbol, hthird.isSymbol]

/-- A statement that is plain in print as well. -/
theorem plays_plain {follow : List Piece → Prop} {source rest : List Piece} {parts : List Part}
    {value : Statement}
    (hplain : Sound source parts → Rereads parts → ∀ f, Plain (spell parts ++ f))
    (h : ∀ bound, Plays false true follow bound plainStatement source rest parts value)
    (bound : Nat) : Plays false true follow bound statement source rest parts value := by
  refine Plays.recursive (fun bound hsound => ?_) bound
  obtain ⟨hyields, hreads⟩ := h (bound + 1) hsound
  refine ⟨hyields, fun hrereads f hf stream hbound hstream => ?_⟩
  rw [statementRule_plain (by rw [hstream]; exact hplain hsound hrereads f)]
  exact hreads hrereads f hf stream hbound hstream

/-- A piece that matches the first one of a plain statement is the first of a plain statement. -/
theorem plain_of_matches {piece printed : Piece} {pieces f : List Piece}
    (hmatch : piece.Matches printed) (h : Plain (piece :: pieces)) : Plain (printed :: f) := by
  unfold Plain at h ⊢
  have hwords := Piece.respects_isWordIn (Clause.all.map Clause.word) _ _ hmatch
  simp only [pieceAt_zero] at h hwords ⊢
  rw [← hmatch.isSymbol, ← hwords]
  exact h

/-- Something that begins a declaration is no reserved word. -/
theorem isWordIn_of_begins {piece : Piece} {words : List Text}
    (h : piece.modifies = true ∨ piece.isIdentifier = true)
    (hwords : ∀ word ∈ words, word ∈ Vocabulary.reserved) : piece.isWordIn words = false := by
  have hidentifier : piece.isIdentifier = true → piece.isWordIn words = false := by
    intro h
    unfold Piece.isWordIn
    rw [List.any_eq_false]
    intro word hmem
    rw [Piece.isWord_of_identifier h (hwords word hmem)]
    decide
  rcases h with h | h
  · unfold Piece.modifies at h
    rw [Bool.or_eq_true] at h
    rcases h with hmark | hword
    · unfold Piece.isWordIn
      rw [List.any_eq_false]
      intro word _
      rw [Piece.isWord_of_symbol (Piece.isSymbol_iff.1 hmark).1]
      decide
    · exact hidentifier (isIdentifier_of_modifier hword)
  · exact hidentifier h

theorem plain_of_begins {piece : Piece} {f : List Piece}
    (h : piece.modifies = true ∨ piece.isIdentifier = true) : Plain (piece :: f) :=
  ⟨isSymbol_of_begins h (by decide), isWordIn_of_begins h (by decide)⟩

theorem starts_of_begins {piece : Piece}
    (h : piece.modifies = true ∨ piece.isIdentifier = true) : startsStatement piece = true := by
  unfold startsStatement
  rw [isSymbol_of_begins h (by decide), isWordIn_of_begins h (by decide)]
  rfl

theorem starts_of_opens {piece : Piece} (h : piece.opens = true) : startsStatement piece = true := by
  have hwords : piece.isWordIn continuingWords = false := by
    cases hkind : piece.kind with
    | word =>
      unfold Piece.opens at h
      rw [hkind, Bool.or_eq_true] at h
      rcases h with hword | hname
      · exact Piece.isWordIn_eq_false hword (by decide)
      · exact isWordIn_of_begins (.inr hname) (by decide)
    | number | string | symbol =>
      unfold Piece.isWordIn
      rw [List.any_eq_false]
      intro word _ hword
      rw [(Piece.isWord_iff.1 hword).1] at hkind
      cases hkind
  unfold startsStatement
  rw [hwords, Piece.isSymbol_of_opens h (by decide)]
  rfl

theorem playsStatement_dml {value : Statement} (hplain : Plain source.pieces)
    (hahead : dmlAhead source = true) (h : dml source = .ok value rest) :
    PlaysStatement source.pieces rest.pieces value := by
  unfold dml at h
  obtain ⟨operation, behind, hoperation, h⟩ := Reader.bind_eq_ok.1 h
  obtain ⟨operand, middle, hoperand, h⟩ := Reader.bind_eq_ok.1 h
  obtain ⟨rfl, hend⟩ := ended_ok h
  rw [dmlAhead_eq] at hahead
  have hfirst : pieceAt source.pieces 0 (·.isWordIn Vocabulary.dmlOperations) = true :=
    (Bool.and_eq_true _ _ ▸ hahead).1
  obtain ⟨piece, others, hpieces, hpiece⟩ := pieceAt_zero_true hfirst
  obtain ⟨word, hmem, hword⟩ := List.any_eq_true.1 hpiece
  have hkind := (Piece.isWord_iff.1 hword).1
  obtain ⟨rfl, hbehind⟩ := takeText_ok hoperation hpieces
  have hmatch := Piece.matches_word hkind
  have hkeyword : ∀ bound, PlaysAlone bound takeText source.pieces behind.pieces
      [.word piece.text] piece.text := by
    intro bound
    rw [hpieces, hbehind]
    exact playsAlone_one hmatch (Piece.isSymbol_of_word rfl _) fun _ => reads_takeText
  refine ⟨plays_plain (fun _ _ f => ?_) (fun bound => ?_), fun _ _ => ?_⟩
  · rw [Statement.parts]
    rw [hpieces] at hplain
    exact plain_of_matches hmatch hplain
  · rw [Statement.parts, Statement.brace]
    refine Plays.bind_test true (fun hsound _ f _ => ?_) ?_
    · -- the first three pieces are those of the source
      have hregular : ∀ piece ∈ behind.pieces, piece.Regular := fun other hother =>
        hsound.regular other (by rw [hpieces, ← hbehind]; exact List.mem_cons_of_mem _ hother)
      have hquery : .query ∉ operand.parts := fun hquery => hsound.query (by simp [hquery])
      obtain ⟨⟨-, taken, htaken, htail⟩, -⟩ :=
        replay_expression _ _ _ hoperand bound hregular hquery
      obtain ⟨mark, hmark, hsymbol⟩ := symbol_ok hend
      have hsame : dmlPieces (piece :: taken ++ mark :: rest.pieces) =
          dmlPieces (.word piece.text :: spell operand.parts ++ .symbol ";" :: f) :=
        dmlPieces_matchAll (.cons hmatch htail) (by simp) hsymbol rfl
      apply reads_look
      intro stream hstream
      rw [dmlAhead_eq, hstream]
      rw [hpieces, ← hbehind, htaken, hmark] at hahead
      rw [List.cons_append, hahead] at hsame
      rw [hsame]
      simp [Part.pieces, Part.word, Part.symbol]
    · refine Plays.bind_anywhere (hkeyword bound) ?_
      refine Plays.bind_symbol (replay_expression _ _ _ hoperand bound).plays (symbol_ahead hend) ?_
      exact (plays_ended hend).mono fun _ _ => trivial
  · rw [Statement.parts]
    refine ⟨_, _, rfl, ?_⟩
    unfold startsStatement
    have hwords := Piece.respects_isWordIn continuingWords _ _ hmatch
    simp only at hwords
    rw [Piece.isSymbol_of_word rfl, ← hwords, Piece.isWordIn_eq_false hpiece (by decide)]
    rfl

/-- A declaration of variables does not look like a database operation. -/
theorem dmlPieces_variables {declaration : VariableDeclaration} {middle : TokenStream}
    {f : List Piece} (hahead : dmlAhead source = false)
    (h : localVariables source = .ok (some declaration) middle)
    (hend : symbol ";" middle = .ok () rest) (hsound : Sound source.pieces declaration.parts)
    (hrereads : Rereads declaration.parts) :
    dmlPieces (spell declaration.parts ++ (spell [.symbol ";"] ++ f)) = false := by
  obtain ⟨values, type, items⟩ := declaration
  -- without modifiers the source says the same; the first of any modifiers is
  -- no operation word
  cases values with
  | nil =>
    obtain ⟨mark, hmark, hsymbol⟩ := symbol_ok hend
    obtain ⟨-, taken, htaken, hmatch⟩ := printed_localVariables h rfl hsound
    rw [dmlAhead_eq, htaken, hmark] at hahead
    obtain ⟨piece, pieces, hspell, -⟩ := spell_localVariables h hrereads
    have hne : taken ≠ [] := by
      rintro rfl
      rw [hspell] at hmatch
      cases hmatch
    rw [← hahead]
    exact (dmlPieces_matchAll hmatch hne hsymbol rfl).symm
  | cons value values =>
    obtain ⟨piece, pieces, hpieces, hpiece⟩ := (hrereads value List.mem_cons_self).head
    have hword : piece.isWordIn Vocabulary.dmlOperations = false := by
      unfold Piece.modifies at hpiece
      rw [Bool.or_eq_true] at hpiece
      rcases hpiece with hmark | hword
      · unfold Piece.isWordIn
        rw [List.any_eq_false]
        intro word _
        rw [Piece.isWord_of_symbol (Piece.isSymbol_iff.1 hmark).1]
        decide
      · exact Piece.isWordIn_eq_false hword (by decide)
    show dmlPieces ((Modifier.pieces value ++ spell _) ++ _) = false
    rw [hpieces]
    unfold dmlPieces
    rw [List.cons_append, List.cons_append, pieceAt_zero, hword, Bool.false_and]

theorem playsStatement_variables {declaration : VariableDeclaration} {middle : TokenStream}
    (hahead : dmlAhead source = false)
    (h : localVariables source = .ok (some declaration) middle)
    (hend : symbol ";" middle = .ok () rest) :
    PlaysStatement source.pieces rest.pieces (.variables declaration) := by
  have hparts : ∀ {parts : List Part}, Rereads (declaration.parts ++ parts) →
      Rereads declaration.parts := fun h => (rereads_append.1 h).1
  have hsound' : Sound source.pieces (declaration.parts ++ [.symbol ";"]) →
      Sound source.pieces declaration.parts :=
    fun h => ⟨h.regular, fun hquery => h.query (List.mem_append_left _ hquery)⟩
  refine ⟨plays_plain (fun _ hrereads f => ?_) (fun bound => ?_), fun _ hrereads => ?_⟩
  · rw [Statement.parts] at hrereads ⊢
    obtain ⟨piece, pieces, hspell, hpiece⟩ := spell_localVariables h (hparts hrereads)
    rw [spell_append, hspell]
    exact plain_of_begins hpiece
  · rw [Statement.parts, Statement.brace]
    refine Plays.bind_test false (fun hsound hrereads f _ => ?_) ?_
    · apply reads_look
      intro stream hstream
      rw [dmlAhead_eq, hstream, spell_append, List.append_assoc]
      exact dmlPieces_variables hahead h hend (hsound' hsound) (hparts hrereads)
    · refine Plays.bind_symbol (plays_localVariables h) (symbol_ahead hend) ?_
      exact (plays_ended hend).mono fun _ _ => trivial
  · rw [Statement.parts] at hrereads ⊢
    obtain ⟨piece, pieces, hspell, hpiece⟩ := spell_localVariables h (hparts hrereads)
    rw [spell_append, hspell]
    exact ⟨piece, _, rfl, starts_of_begins hpiece⟩

/-- What is read as an expression in front of a semicolon is matched, piece by piece, by what is
printed for it, and that begins as an expression may. -/
theorem matches_expression {value : Expression} {middle : TokenStream} {mark : Piece}
    (h : expression source = .ok value middle) (hmark : middle.pieces = mark :: rest.pieces)
    (hsymbol : mark.isSymbol ";" = true)
    (hsound : Sound source.pieces (value.parts ++ [.symbol ";"])) :
    ∃ piece taken printed pieces, source.pieces = piece :: taken ++ mark :: rest.pieces ∧
      spell value.parts = printed :: pieces ∧ MatchAll (piece :: taken) (printed :: pieces) ∧
      printed.opens = true := by
  obtain ⟨⟨-, taken, htaken, hmatch⟩, -⟩ := replay_expression _ _ _ h 0 hsound.regular
    fun hquery => hsound.query (List.mem_append_left _ hquery)
  have hopens := expression_opens h
  rw [htaken, hmark] at hopens
  cases taken with
  | nil =>
    rw [List.nil_append, pieceAt_zero] at hopens
    rw [Piece.isSymbol_of_opens hopens (by decide)] at hsymbol
    exact absurd hsymbol (by decide)
  | cons piece taken =>
    obtain ⟨printed, pieces, hfirst, hothers, hspell⟩ := List.forall₂_cons_left_iff.1 hmatch
    rw [List.cons_append, pieceAt_zero, Piece.respects_opens _ _ hfirst] at hopens
    have hsource : source.pieces = piece :: taken ++ mark :: rest.pieces := by rw [htaken, hmark]
    exact ⟨piece, taken, printed, pieces, hsource, hspell, .cons hfirst hothers, hopens⟩

theorem playsStatement_expression {value : Expression} {middle : TokenStream}
    (hplain : Plain source.pieces) (hahead : dmlAhead source = false)
    (hnone : ¬ Declares declaredSymbols source) (h : expression source = .ok value middle)
    (hend : symbol ";" middle = .ok () rest) :
    PlaysStatement source.pieces rest.pieces (.expression value) := by
  obtain ⟨mark, hmark, hsymbol⟩ := symbol_ok hend
  have hspell : ∀ f, spell (value.parts ++ [.symbol ";"]) ++ f =
      spell value.parts ++ .symbol ";" :: f := by
    intro f
    simp [Part.symbol, Part.pieces]
  refine ⟨plays_plain (fun hsound _ f => ?_) (fun bound => ?_), fun hsound _ => ?_⟩
  · rw [Statement.parts] at hsound ⊢
    obtain ⟨piece, taken, printed, pieces, hsource, hprinted, hmatch, -⟩ :=
      matches_expression h hmark hsymbol hsound
    rw [hsource] at hplain
    rw [hspell, hprinted]
    exact plain_of_matches (List.forall₂_cons.1 hmatch).1 hplain
  · rw [Statement.parts, Statement.brace]
    refine Plays.bind_test false (fun hsound _ f _ => ?_)
      (Plays.bind_test none (fun hsound _ f _ => ?_) ?_)
    · obtain ⟨piece, taken, printed, pieces, hsource, hprinted, hmatch, -⟩ :=
        matches_expression h hmark hsymbol hsound
      apply reads_look
      intro stream hstream
      rw [dmlAhead_eq, hsource] at hahead
      rw [dmlAhead_eq, hstream, hspell, hprinted, ← hahead]
      exact (dmlPieces_matchAll hmatch (by simp) hsymbol rfl).symm
    · obtain ⟨piece, taken, printed, pieces, hsource, hprinted, hmatch, -⟩ :=
        matches_expression h hmark hsymbol hsound
      have hrow : MatchAll (piece :: taken ++ [mark]) (printed :: pieces ++ [.symbol ";"]) :=
        hmatch.append (.cons (Piece.matches_symbol hsymbol) .nil)
      have hsource' : source.pieces = (piece :: taken ++ [mark]) ++ rest.pieces := by
        rw [hsource]
        simp
      have hprinted' : spell (value.parts ++ [.symbol ";"]) ++ f =
          (printed :: pieces ++ [.symbol ";"]) ++ f := by
        rw [hspell, hprinted]
        simp
      have hmark' : (Piece.symbol ";").isSymbol ";" = true := rfl
      rw [hprinted']
      refine reads_localVariables_none h ?_ hsource' hrow
        ⟨.symbol ";", by simp, Piece.isFence_of_symbol hmark' (by decide)⟩ hnone
      rw [hmark, pieceAt_zero]
      unfold Piece.continues
      rw [(Piece.isSymbol_iff.1 hsymbol).1, Piece.isSymbol_eq_false hsymbol (by decide)]
      rfl
    · refine Plays.bind_symbol (replay_expression _ _ _ h bound).plays (symbol_ahead hend) ?_
      exact (plays_ended hend).mono fun _ _ => trivial
  · rw [Statement.parts] at hsound ⊢
    obtain ⟨piece, taken, printed, pieces, -, hprinted, -, hopens⟩ :=
      matches_expression h hmark hsymbol hsound
    rw [spell_append, hprinted]
    exact ⟨printed, _, rfl, starts_of_opens hopens⟩

theorem playsStatement_plain {value : Statement} (hplain : Plain source.pieces)
    (h : plainStatement source = .ok value rest) :
    PlaysStatement source.pieces rest.pieces value := by
  unfold plainStatement at h
  obtain ⟨found, middle, hfound, h⟩ := Reader.bind_eq_ok.1 h
  obtain ⟨hahead, rfl⟩ := look_eq_ok.1 hfound
  cases found with
  | true => exact playsStatement_dml hplain hahead h
  | false =>
    have hsimple : simpleStatement source = .ok value rest := h
    unfold simpleStatement at hsimple
    obtain ⟨declared, behind, hdeclared, hrun⟩ := Reader.bind_eq_ok.1 hsimple
    clear h hsimple
    cases declared with
    | some declaration =>
      obtain ⟨rfl, hend⟩ := ended_ok hrun
      exact playsStatement_variables hahead hdeclared hend
    | none =>
      obtain ⟨rfl, hnone⟩ := localVariables_none hdeclared
      obtain ⟨content, last, hcontent, hrun⟩ := Reader.bind_eq_ok.1 hrun
      obtain ⟨rfl, hend⟩ := ended_ok hrun
      exact playsStatement_expression hplain hahead hnone hcontent hend

/-- A statement is read back from what is printed for it, with braces around its bodies. -/
theorem playsStatement : ∀ source value rest, statement source = .ok value rest →
    PlaysStatement source.pieces rest.pieces value := by
  apply Reader.recursive_induction
  intro inner hinner source value rest h
  rcases statement_kinds source.pieces with hbrace | ⟨clause, hword⟩ | hplain
  · rw [statementRule_block hbrace] at h
    obtain ⟨body, final, hbody, h⟩ := Reader.bind_eq_ok.1 h
    cases h
    exact playsStatement_block hinner hbody
  · rw [statementRule_clause clause hword] at h
    exact playsStatement_clause clause hinner hword h
  · rw [statementRule_plain hplain] at h
    exact playsStatement_plain hplain h

/-- A block is read back from what is printed for it. -/
theorem plays_block {body : Block} (h : block source = .ok body rest) :
    PlaysAlone bound block source.pieces rest.pieces (Block.parts body) (Block.brace body) :=
  (plays_blockOf (fun _ _ _ hrun => (playsStatement _ _ _ hrun).plays bound)
    (fun _ _ _ hrun => (playsStatement _ _ _ hrun).starts) h).mono_bound (Nat.le_succ bound)

end Grammar

end ApexLayout
