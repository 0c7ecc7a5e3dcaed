import ApexLayout.Proofs.Spelling.Close

/-!
Modifiers that are read back from their own text.

A modifier is kept as one text. Its tokens are those that it was made from, except that arguments of
an annotation may be cut in other places. It is the same modifier that is read from them
(`Modified.reread`), unless a comment begins between two of the arguments.
-/

namespace ApexLayout

namespace Spelled

variable {pieces : List Piece} {text : Text}

/-- A word in front of something that is no part of it. -/
theorem word {name : Text} (h : Spelled pieces text) (hname : (Piece.word name).Lexeme)
    (hfirst : ∀ c ∈ text.head?, Scan.isWordPart c = false) :
    Spelled (.word name :: pieces) (name ++ text) := by
  have hends : (Piece.word name).Ends text := by
    refine ⟨fun c hc => ?_, nofun⟩
    unfold Piece.meets
    simp [Piece.word, hfirst c hc]
  exact .cons (List.forall_mem_nil _) hname rfl hends h

/-- A symbol of one character in front of something that it makes no other symbol with. -/
theorem sign {c : Char} (h : Spelled pieces text) (hmem : [c] ∈ Scan.symbols)
    (hloose : ((Piece.symbol [c]).isSymbol ">" || (Piece.symbol [c]).isSymbol "=") = false)
    (hbars : ∀ d ∈ text.head?, (Piece.symbol [c]).bars d = true) :
    Spelled (.symbol [c] :: pieces) (c :: text) := by
  have hends : (Piece.symbol [c]).Ends text :=
    ⟨fun d hd => Piece.meets_of_bars (hbars d hd), nofun⟩
  exact .cons (List.forall_mem_nil _) (Piece.lexeme_symbol hmem false) (by rw [hloose]; rfl) hends h

/-- Names with dots between them, in front of something that is no part of a name. -/
theorem names {names : List Text} (h : Spelled pieces text) (hne : names ≠ [])
    (hnames : ∀ name ∈ names, (Piece.word name).Lexeme)
    (hfirst : ∀ c ∈ text.head?, Scan.isWordPart c = false) :
    Spelled (rowsBy (.symbol ".") (names.map fun name => [.word name]) ++ pieces)
      (Text.join "." names ++ text) := by
  obtain ⟨first, others, rfl⟩ := List.exists_cons_of_ne_nil hne
  clear hne
  induction others generalizing first with
  | nil =>
    obtain ⟨hname, -⟩ := List.forall_mem_cons.1 hnames
    have hone := h.word hname hfirst
    simpa [rowsBy, Text.join] using hone
  | cons second rest ih =>
    obtain ⟨hname, hothers⟩ := List.forall_mem_cons.1 hnames
    have hrest := ih second hothers
    obtain ⟨c, tail, htext, hstart⟩ : ∃ c tail, second = c :: tail ∧ Scan.isWordStart c = true := by
      obtain ⟨c, tail, htext, hlexeme⟩ := hothers second List.mem_cons_self
      rcases Scan.lexeme_cases hlexeme with ⟨-, hstart, -⟩ | ⟨hkind, -⟩ | ⟨hkind, -⟩ | ⟨hkind, -⟩
      · exact ⟨c, tail, htext, hstart⟩
      all_goals cases hkind
    -- behind the dot stands the first letter of a name
    have hdot : ∀ d ∈ (Text.join "." (second :: rest) ++ text).head?,
        (Piece.symbol ['.']).bars d = true := by
      intro d hd
      obtain rfl : c = d := by
        unfold Text.join at hd
        cases rest <;> simpa [htext] using hd
      exact Piece.bars_symbol rfl (.inr (Scan.isDigit_of_start hstart))
        (.inl (Scan.isWordPart_of_start hstart))
    have hwhole := (hrest.sign (by decide) rfl hdot).word hname (by rintro _ ⟨⟩; decide)
    unfold rowsBy Text.join at hwhole ⊢
    rw [List.map_cons, List.map_cons, List.intercalate_cons_cons, List.intercalate_cons_cons]
    rw [List.map_cons] at hwhole
    simpa using hwhole

end Spelled

/-- A text that is cut into pieces has these pieces as a modifier. -/
theorem Spelled.modifierPieces {pieces : List Piece} {value : Modifier} (h : Spelled pieces value) :
    Modifier.pieces value = pieces := by
  obtain ⟨stream, hstream, hpieces⟩ := h.ofSource (List.forall_mem_nil _)
  rw [List.append_nil] at hstream
  unfold Modifier.pieces
  rw [hstream]
  exact hpieces

theorem Piece.Lexeme.word {piece : Piece} (h : piece.Lexeme) (hkind : piece.kind = .word) :
    (Piece.word piece.text).Lexeme :=
  h.same ⟨hkind, rfl⟩

/-- Arguments that are put close together are arguments again. -/
theorem IsArguments.exists_again {arguments : List Piece} (h : IsArguments arguments)
    (hlexeme : ∀ piece ∈ arguments, piece.Lexeme) (hapart : Apart arguments) :
    ∃ again, IsArguments again ∧ Spelled again (closePieces arguments) ∧
      closePieces again = closePieces arguments ∧
      ∀ c ∈ (closePieces arguments).head?, Scan.isWordPart c = false := by
  rcases h with rfl | ⟨hfirst, henclosed⟩
  · exact ⟨[], .inl rfl, .nil, rfl, by simp [closePieces]⟩
  · obtain ⟨first, inside, rfl, hopen⟩ := Grammar.pieceAt_zero_true hfirst
    obtain ⟨hkind, htext⟩ := Piece.isSymbol_iff.1 hopen
    have hinside : enclosedPieces "(" ")" 1 inside = some inside := by
      have hdepth : depthAfter "(" ")" 0 first = 1 := if_pos hopen
      rw [enclosedPieces, hdepth, if_neg Nat.one_ne_zero] at henclosed
      simpa using henclosed
    obtain ⟨again, hspelled, hclose, hagain⟩ :=
      exists_closed (List.forall_mem_cons.1 hlexeme).2 hapart.tail
    have hwhole : closePieces (first :: inside) = '(' :: closePieces inside := by
      rw [closePieces_cons, closeRest_symbol hkind, htext]
      rfl
    have hwhole' : closePieces (.symbol "(" :: again) = '(' :: closePieces again := by
      rw [closePieces_cons, closeRest_symbol rfl]
      rfl
    refine ⟨.symbol "(" :: again, .inr ⟨rfl, ?_⟩, ?_, ?_, ?_⟩
    · rw [enclosedPieces]
      have hdepth : depthAfter "(" ")" 0 (.symbol "(") = 1 := rfl
      rw [hdepth, if_neg Nat.one_ne_zero, hagain 1 Nat.one_ne_zero hinside, Option.map_some]
    · rw [hwhole]
      exact hspelled.sign (by decide) rfl fun d _ =>
        Piece.bars_lone (by decide) (by decide) (by decide) d
    · rw [hwhole, hwhole', hclose]
    · rw [hwhole]
      rintro _ ⟨⟩
      decide

/-- An annotation is made from the tokens of its own text. -/
theorem IsAnnotation.exists_again {pieces arguments : List Piece} {names : List Text}
    (h : IsAnnotation pieces names arguments) (hlexeme : ∀ piece ∈ pieces, piece.Lexeme)
    (hapart : Apart arguments) :
    ∃ again others, IsAnnotation again names others ∧
      annotationText names others = annotationText names arguments ∧
      Spelled again (annotationText names arguments) := by
  obtain ⟨mark, row, rfl, hmark, hrow⟩ := h.row
  obtain ⟨-, hlexeme⟩ := List.forall_mem_cons.1 hlexeme
  obtain ⟨hrowLexeme, hlexeme⟩ := List.forall_mem_append.1 hlexeme
  obtain ⟨again, hagain, hspelled, hclose, hfirst⟩ := h.balanced.exists_again hlexeme hapart
  have hnames : ∀ name ∈ names, (Piece.word name).Lexeme := by
    intro name hname
    have hmem : Piece.word name ∈ rowsBy (.symbol ".") (names.map fun name => [.word name]) :=
      mem_rowsBy_of_mem (List.mem_map_of_mem hname) List.mem_cons_self
    obtain ⟨piece, hpiece, hsame⟩ := exists_of_mem_forall₂ hrow hmem
    exact (hrowLexeme piece hpiece).same hsame
  have hmade : IsAnnotation (.symbol "@" :: (rowsBy (.symbol ".")
      (names.map fun name => [.word name]) ++ again)) names again :=
    ⟨h.ne_nil, h.identifier, hagain, _, _, rfl, rfl, SameAll.refl _⟩
  have htext : annotationText names again = annotationText names arguments := by
    unfold annotationText
    rw [hclose]
  refine ⟨_, again, hmade, htext, ?_⟩
  have hwhole := (hspelled.names h.ne_nil hnames hfirst).sign (by decide : ['@'] ∈ _) rfl
    fun d _ => Piece.bars_lone (by decide) (by decide) (by decide) d
  simpa [annotationText] using hwhole

/-- A modifier is made from the tokens of its own text, which are those that it was made from unless
it is an annotation. -/
theorem Modified.exists_spelled {taken : List Piece} {value : Modifier} (h : Modified taken value)
    (hlexeme : ∀ piece ∈ taken, piece.Lexeme)
    (hapart : ∀ names arguments, IsAnnotation taken names arguments → Apart arguments) :
    ∃ again, Modified again value ∧ Spelled again value ∧
      (SameAll taken again ∨ ∃ names arguments, IsAnnotation taken names arguments ∧
        value = annotationText names arguments) := by
  cases h with
  | @keyword piece hin =>
    obtain ⟨word, -, hpiece⟩ := List.any_eq_true.1 hin
    have hkind := (Piece.isWord_iff.1 hpiece).1
    have hin' : (Piece.word piece.text).isWordIn Vocabulary.modifiers = true :=
      (Piece.respects_isWordIn _ _ _ (Piece.matches_word hkind)).symm.trans hin
    refine ⟨[.word piece.text], .keyword hin', ?_, .inl (.cons ⟨hkind, rfl⟩ .nil)⟩
    exact .one ((hlexeme piece List.mem_cons_self).word hkind) rfl
  | @sharing mode sharing hmode hsharing =>
    obtain ⟨word, -, hpiece⟩ := List.any_eq_true.1 hmode
    have hkind := (Piece.isWord_iff.1 hpiece).1
    have hkind' := (Piece.isWord_iff.1 hsharing).1
    simp only [List.forall_mem_cons] at hlexeme
    have hmode' : (Piece.word mode.text).isWordIn Vocabulary.sharingModes = true :=
      (Piece.respects_isWordIn _ _ _ (Piece.matches_word hkind)).symm.trans hmode
    have hsharing' : (Piece.word sharing.text).isWord "sharing" = true :=
      (Piece.respects_isWord _ _ _ (Piece.matches_word hkind')).symm.trans hsharing
    refine ⟨[.word mode.text, .word sharing.text], .sharing hmode' hsharing', ?_,
      .inl (.cons ⟨hkind, rfl⟩ (.cons ⟨hkind', rfl⟩ .nil))⟩
    have hsecond : Spelled [.word sharing.text] (" ".toList ++ sharing.text) :=
      (Spelled.one (hlexeme.2.1.word hkind') rfl).behind (List.forall_mem_singleton.2 rfl)
        (by rintro _ ⟨⟩; rfl) (List.cons_ne_nil _ _)
    rw [List.append_assoc]
    exact hsecond.word (hlexeme.1.word hkind) (by rintro _ ⟨⟩; decide)
  | annotation hmade =>
    obtain ⟨again, _, hagain, htext, hspelled⟩ := hmade.exists_again hlexeme (hapart _ _ hmade)
    exact ⟨again, htext ▸ Modified.annotation hagain, hspelled, .inr ⟨_, _, hmade, rfl⟩⟩

/-- A modifier is read back from the tokens of its own text. -/
theorem Modified.reread {taken : List Piece} {value : Modifier} (h : Modified taken value)
    (hlexeme : ∀ piece ∈ taken, piece.Lexeme)
    (hapart : ∀ names arguments, IsAnnotation taken names arguments → Apart arguments) :
    Modified (Modifier.pieces value) value ∧ Modifier.Spelled value := by
  obtain ⟨again, hmodified, hspelled, -⟩ := h.exists_spelled hlexeme hapart
  have hpieces := hspelled.modifierPieces
  refine ⟨hpieces ▸ hmodified, ⟨hpieces ▸ hspelled, fun piece hpiece => ?_⟩⟩
  obtain ⟨first, others, rfl, hfirst⟩ := hmodified.head
  rw [hpieces] at hpiece
  obtain rfl : first = piece := Option.some.inj hpiece
  rcases Bool.or_eq_true_iff.1 hfirst with hmark | hwordIn
  · rw [Piece.isSymbol_eq_false hmark (by decide), Piece.isSymbol_eq_false hmark (by decide)]
    rfl
  · obtain ⟨word, -, hpiece⟩ := List.any_eq_true.1 hwordIn
    have hkind := (Piece.isWord_iff.1 hpiece).1
    rw [Piece.isSymbol_of_word hkind, Piece.isSymbol_of_word hkind]
    rfl

end ApexLayout
