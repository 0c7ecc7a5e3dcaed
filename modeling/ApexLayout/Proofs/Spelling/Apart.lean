import ApexLayout.Proofs.Spelling.Close

/-!
Rows that are read as themselves.

Tokens that are put close together may begin a comment. Then the tokens of the text lack a slash that
the row has; so if they make up the same text again, no two neighbours of the row begin a comment
(`apart_of_scan`).
-/

namespace ApexLayout

/-! ## Slashes -/

/-- What stands between the tokens of a stream, and behind them. -/
def TokenStream.gaps (stream : TokenStream) : Text :=
  (stream.tokens.map Token.lead).flatten ++ stream.trailing

theorem not_slash_of_blank {gap : Text} (h : ∀ c ∈ gap, Text.isBlank c = true) : '/' ∉ gap :=
  fun hmem => absurd (h '/' hmem) (by decide)

theorem blank_closeGap (first second : Piece) :
    ∀ c ∈ closeGap first second, Text.isBlank c = true := by
  unfold closeGap
  split
  · exact List.forall_mem_singleton.2 (by decide)
  · exact List.forall_mem_nil _

/-- The slashes of a row are those of its tokens. -/
theorem count_closePieces (pieces : List Piece) :
    (closePieces pieces).count '/' = (pieces.flatMap Piece.text).count '/' := by
  induction pieces with
  | nil => rfl
  | cons first rest ih =>
    cases rest with
    | nil => simp [closePieces]
    | cons second others =>
      rw [closePieces_cons_cons, List.flatMap_cons, List.count_append, List.count_append,
        List.count_append, ih,
        List.count_eq_zero.2 (not_slash_of_blank (blank_closeGap first second)), Nat.zero_add]

/-- The slashes of a source are those of its gaps and those of its tokens. -/
theorem TokenStream.count_source (stream : TokenStream) :
    stream.source.count '/' = stream.gaps.count '/' + (closePieces stream.pieces).count '/' := by
  rw [count_closePieces]
  unfold source gaps pieces
  rw [List.count_append, List.count_append]
  induction stream.tokens with
  | nil => simp
  | cons token rest ih =>
    simp only [List.map_cons, List.flatten_cons, List.flatMap_cons, List.count_append, Token.source]
      at ih ⊢
    have htext : token.piece.text = token.text := rfl
    rw [htext]
    omega

/-- A text that is made up of its own tokens has no slash between them. -/
theorem Scan.not_slash_of_scan {mark : Mark} {text : Text} {stream : TokenStream}
    (h : scanFrom mark text = .ok stream) (hsame : closePieces stream.pieces = text) :
    '/' ∉ stream.gaps := by
  have hcount := stream.count_source
  rw [source_scanFrom h, hsame] at hcount
  exact List.count_eq_zero.1 (by omega)

/-! ## Comments -/

/-- The gaps of a text begin with the gap in front of its first token. -/
theorem Scan.exists_gapSize {mark : Mark} {text : Text} {stream : TokenStream}
    (h : scanFrom mark text = .ok stream) :
    ∃ size, gapSize .blank 0 text = .ok size ∧ text.take size <+: stream.gaps := by
  unfold scanFrom at h
  split at h
  case h_1 => cases h
  case h_2 size hsize =>
    refine ⟨size, hsize, ?_⟩
    simp only at h
    split at h
    case h_1 =>
      cases h
      exact List.prefix_refl _
    case h_2 =>
      split at h
      case h_1 => cases h
      case h_2 =>
        split at h
        case h_1 => cases h
        case h_2 =>
          cases h
          show _ <+: List.flatten (_ :: _) ++ _
          rw [List.flatten_cons, List.append_assoc]
          exact List.prefix_append _ _

/-- A comment is passed over as part of a gap. -/
theorem Scan.slash_mem_gaps {mark : Mark} {gap rest : Text} {d : Char} {stream : TokenStream}
    (h : scanFrom mark (gap ++ '/' :: d :: rest) = .ok stream)
    (hgap : ∀ c ∈ gap, Text.isBlank c = true) (hd : (d == '/' || d == '*') = true) :
    '/' ∈ stream.gaps := by
  obtain ⟨size, hsize, hprefix⟩ := exists_gapSize h
  obtain ⟨-, -, hends⟩ := gap_of_gapSize hsize
  refine hprefix.mem ?_
  -- the gap does not end in front of a blank, nor in front of the comment
  have hlong : gap.length < size := by
    by_contra hshort
    rw [List.drop_append_of_le_length (by omega)] at hends
    cases hleft : gap.drop size with
    | nil =>
      rw [hleft, List.nil_append] at hends
      have hnone : (d != '/' && d != '*') = true := hends
      rw [Bool.and_eq_true, bne_iff_ne, bne_iff_ne] at hnone
      simp [hnone.1, hnone.2] at hd
    | cons c more =>
      have hblank := hgap c (List.mem_of_mem_drop (hleft ▸ List.mem_cons_self))
      rw [hleft, List.cons_append, endsGap_blank hblank] at hends
      cases hends
  obtain ⟨more, rfl⟩ : ∃ more, size = gap.length + (more + 1) := ⟨size - gap.length - 1, by omega⟩
  rw [List.take_length_add_append, List.take_succ_cons]
  simp

/-- A token other than a slash ends in front of a slash. -/
theorem Piece.Lexeme.meets_slash {piece : Piece} (h : piece.Lexeme) (hne : piece.text ≠ ['/']) :
    piece.meets '/' = true := by
  have hsymbols : ∀ symbol ∈ Scan.symbols,
      (Scan.symbols.any fun other => (symbol ++ ['/']).isPrefixOf other) = false := by decide
  unfold Piece.meets
  cases hkind : piece.kind with
  | word => rfl
  | number => rfl
  | string => rfl
  | symbol =>
    simp only [hsymbols _ (h.symbol_mem hkind), beq_eq_false_iff_ne.2 hne]
    rfl

/-- A comment behind tokens is passed over as part of a gap. -/
theorem Spelled.slash_mem_gaps {pieces : List Piece} {text rest : Text} {d : Char} {mark : Mark}
    {stream : TokenStream} (h : Spelled pieces text)
    (hscan : Scan.scanFrom mark (text ++ '/' :: d :: rest) = .ok stream)
    (hlast : ∀ piece ∈ pieces.getLast?, piece.text ≠ ['/']) (hd : (d == '/' || d == '*') = true) :
    '/' ∈ stream.gaps := by
  induction h generalizing mark stream with
  | nil =>
    have hnothing : Scan.scanFrom mark ([] ++ '/' :: d :: rest) = .ok stream := hscan
    exact Scan.slash_mem_gaps hnothing (List.forall_mem_nil _) hd
  | @cons gap piece pieces behind hblank hlexeme hglued hends htail ih =>
    have hends : piece.Ends (behind ++ '/' :: d :: rest) := by
      -- only the last piece stands next to the comment, and it is no slash
      refine hends.append rfl (by rintro _ ⟨⟩; decide) ?_
      rintro rfl _ ⟨⟩
      obtain rfl := htail.eq_nil rfl
      exact hlexeme.meets_slash (hlast piece rfl)
    rw [List.append_assoc, List.append_assoc, Scan.scanFrom_lexeme mark hblank hlexeme hends] at hscan
    cases hothers : Scan.scanFrom (piece.token gap mark).finish (behind ++ '/' :: d :: rest) with
    | error =>
      rw [hothers] at hscan
      cases hscan
    | ok others =>
      rw [hothers] at hscan
      cases hscan
      have hmem := ih hothers fun last hmem => hlast last (by
        cases pieces with
        | nil => cases hmem
        | cons => exact hmem)
      show '/' ∈ List.flatten (gap :: _) ++ _
      rw [List.flatten_cons, List.append_assoc]
      exact List.mem_append_right _ hmem

/-! ## Rows -/

/-- The text of tokens ends with the last of them. -/
theorem Spelled.suffix {pieces : List Piece} {text : Text} (h : Spelled pieces text) {last : Piece}
    (hlast : pieces.getLast? = some last) : last.text <:+ text := by
  induction h with
  | nil => cases hlast
  | @cons gap piece pieces rest _ _ _ _ htail ih =>
    rw [← List.append_assoc]
    cases pieces with
    | nil =>
      cases hlast
      cases htail
      rw [List.append_nil]
      exact List.suffix_append _ _
    | cons => exact (ih hlast).trans (List.suffix_append _ _)

theorem closePieces_suffix {pieces : List Piece} {last : Piece} (h : pieces.getLast? = some last) :
    last.text <:+ closePieces pieces := by
  induction pieces with
  | nil => cases h
  | cons first rest ih =>
    cases rest with
    | nil =>
      cases h
      exact List.suffix_refl _
    | cons second others =>
      rw [closePieces_cons_cons, ← List.append_assoc]
      exact (ih h).trans (List.suffix_append _ _)

/-- A token that ends with a slash is a slash. -/
theorem Piece.Lexeme.eq_slash {piece : Piece} (h : piece.Lexeme)
    (hlast : piece.text.getLast? = some '/') : piece.text = ['/'] := by
  have hsymbols : ∀ symbol ∈ Scan.symbols, symbol.getLast? = some '/' → symbol = ['/'] := by decide
  by_cases hkind : piece.kind = .symbol
  · exact hsymbols _ (h.symbol_mem hkind) hlast
  · obtain ⟨c, tail, htext, hlexeme⟩ := h
    rw [htext] at hlast
    have hmem : '/' = c ∨ '/' ∈ tail := List.mem_cons.1 (List.mem_of_getLast? hlast)
    rcases Scan.lexeme_cases hlexeme with ⟨-, hstart, hsize⟩ | ⟨-, -, hdigit, hsize⟩ |
      ⟨-, rfl, hsize⟩ | ⟨hsymbol, -⟩
    · rcases hmem with rfl | hmem
      · exact absurd hstart (by decide)
      · rw [← tail.take_length, hsize] at hmem
        exact absurd (Scan.mem_take_run hmem) (by decide)
    · rcases hmem with rfl | hmem
      · exact absurd hdigit (by decide)
      · rw [← tail.take_length, hsize] at hmem
        exact absurd (Scan.mem_take_number hmem) (by decide)
    · have hquote := Scan.getLast_take_string hsize
      rw [Nat.sub_zero, List.take_length] at hquote
      rw [List.getLast?_cons, hquote] at hlast
      cases hlast
    · exact absurd hsymbol hkind

/-- A row that is apart goes on to be, if its text holds no comment. -/
theorem apart_concat {mark : Mark} {stream : TokenStream} {front rest : List Piece} {next : Piece}
    (hlexeme : ∀ piece ∈ front ++ next :: rest, piece.Lexeme)
    (h : Scan.scanFrom mark (closePieces (front ++ next :: rest)) = .ok stream)
    (hgaps : '/' ∉ stream.gaps) (hfront : Apart front) : Apart (front ++ [next]) := by
  refine List.isChain_append.2 ⟨hfront, .singleton _, ?_⟩
  rintro slash hslash _ ⟨⟩
  by_contra hcomments
  rw [Bool.not_eq_false] at hcomments
  unfold Piece.comments at hcomments
  rw [Bool.and_eq_true, beq_iff_eq] at hcomments
  obtain ⟨htext, hd⟩ := hcomments
  obtain ⟨init, rfl⟩ : ∃ init, front = init ++ [slash] :=
    List.getLast?_eq_some_iff.1 hslash
  obtain ⟨hinit, -, hchain⟩ := List.isChain_append.1 hfront
  simp only [List.append_assoc, List.singleton_append] at h hlexeme
  obtain ⟨hinitLexeme, hlexeme⟩ := List.forall_mem_append.1 hlexeme
  obtain ⟨hslashLexeme, hlexeme⟩ := List.forall_mem_cons.1 hlexeme
  have hkind := hslashLexeme.symbol_of_head htext (by decide) (by decide) (by decide)
  obtain ⟨d, tail, hnext, -⟩ := (hlexeme next List.mem_cons_self).first
  rw [hnext, List.head?_cons, Option.any_some] at hd
  have hsplit : closePieces (init ++ slash :: next :: rest) =
      closePieces init ++ '/' :: d :: (tail ++ closeRest next rest) := by
    rw [closePieces_append (by rintro _ _ _ ⟨⟩; exact .inr hkind), closePieces_cons,
      closeRest_symbol hkind, closePieces_cons, htext, hnext]
    rfl
  -- in front of the slash the text is cut as it would be without it
  obtain ⟨again, hspelled, -⟩ := exists_closed hinitLexeme hinit
  rw [hsplit] at h
  refine hgaps (hspelled.slash_mem_gaps h (fun last hlast heq => ?_) hd)
  have hend : ['/'] <:+ closePieces init := heq ▸ hspelled.suffix hlast
  cases hinitLast : init.getLast? with
  | none =>
    rw [List.getLast?_eq_none_iff.1 hinitLast] at hend
    cases List.suffix_nil.1 hend
  | some piece =>
    have hpieceLexeme := hinitLexeme piece (List.mem_of_getLast? hinitLast)
    have hpiece : piece.text = ['/'] := by
      obtain ⟨c, others, hsome, -⟩ := hpieceLexeme.first
      obtain ⟨start, hstart⟩ := List.suffix_of_suffix_length_le hend (closePieces_suffix hinitLast)
        (by rw [hsome]; simp)
      exact hpieceLexeme.eq_slash (by rw [← hstart, List.getLast?_concat])
    have hpair := hchain piece hinitLast slash rfl
    unfold Piece.comments at hpair
    rw [hpiece, htext] at hpair
    cases hpair

/-- Tokens are apart if their text holds no comment. -/
theorem apart_of_gaps {mark : Mark} {stream : TokenStream} {pieces : List Piece}
    (hlexeme : ∀ piece ∈ pieces, piece.Lexeme)
    (h : Scan.scanFrom mark (closePieces pieces) = .ok stream) (hgaps : '/' ∉ stream.gaps) :
    Apart pieces := by
  -- from one beginning of the row to the next
  have hall : ∀ back front, pieces = front ++ back → Apart front → Apart pieces := by
    intro back
    induction back with
    | nil =>
      rintro front rfl hfront
      rwa [List.append_nil]
    | cons next rest ih =>
      rintro front rfl hfront
      exact ih (front ++ [next]) (by simp) (apart_concat hlexeme h hgaps hfront)
  exact hall pieces [] rfl .nil

/-- Tokens whose text is made up of its own tokens again are apart. -/
theorem apart_of_scan {mark : Mark} {stream : TokenStream} {pieces : List Piece}
    (hlexeme : ∀ piece ∈ pieces, piece.Lexeme)
    (h : Scan.scanFrom mark (closePieces pieces) = .ok stream)
    (hsame : closePieces stream.pieces = closePieces pieces) : Apart pieces :=
  apart_of_gaps hlexeme h (Scan.not_slash_of_scan h hsame)

end ApexLayout
