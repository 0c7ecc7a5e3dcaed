import ApexLayout.Format
import ApexLayout.Proofs.Layout.Statement
import ApexLayout.Proofs.Replay.Yield

/-!
The parts of what was read.

The parts that are printed for a source are made of its tokens, so they can be laid out: each of them
is cut into its pieces again, and none has a newline of its own unless a string of the source does
(`Yields.clean`).
-/

namespace ApexLayout

theorem exists_of_mem_forall₂ {α β : Type} {related : α → β → Prop} {first : List α}
    {second : List β} (h : List.Forall₂ related first second) {b : β} (hb : b ∈ second) :
    ∃ a ∈ first, related a b := by
  induction h with
  | nil => cases hb
  | @cons a _ _ _ hab _ ih =>
    rcases List.mem_cons.1 hb with rfl | hb
    · exact ⟨a, List.mem_cons_self, hab⟩
    · obtain ⟨a', ha', hab'⟩ := ih hb
      exact ⟨a', List.mem_cons_of_mem _ ha', hab'⟩

/-! ## Tokens on one line -/

/-- A token by itself, without a newline. -/
structure Piece.Clean (piece : Piece) : Prop where
  lexeme : piece.Lexeme
  line : '\n' ∉ piece.text

/-- No piece but a string holds a newline. -/
theorem Piece.Lexeme.clean {piece : Piece} (h : piece.Lexeme)
    (hstring : piece.kind = .string → '\n' ∉ piece.text) : piece.Clean := by
  refine ⟨h, ?_⟩
  by_cases hkind : piece.kind = .string
  · exact hstring hkind
  · intro hmem
    exact absurd (h.inked hkind '\n' hmem).1 (by decide)

theorem Piece.Lexeme.same {first second : Piece} (h : first.Lexeme) (hsame : first.Same second) :
    second.Lexeme := by
  obtain ⟨c, tail, htext, hlexeme⟩ := h
  exact ⟨c, tail, hsame.text ▸ htext, hsame.kind ▸ hlexeme⟩

theorem Piece.Clean.same {first second : Piece} (h : first.Clean) (hsame : first.Same second) :
    second.Clean :=
  ⟨h.lexeme.same hsame, hsame.text ▸ h.line⟩

theorem Vocabulary.clean_of_mem {text : Text}
    (h : text ∈ Vocabulary.printed ++ Vocabulary.softKeywords) : (Piece.word text).Clean := by
  have hall : ∀ word ∈ Vocabulary.printed ++ Vocabulary.softKeywords,
      word.head?.any Scan.isWordStart = true ∧ word.all Scan.isWordPart = true := by decide
  obtain ⟨hstart, hrest⟩ := hall text h
  exact (Part.legible_word hstart hrest).1.clean TokenKind.noConfusion

/-- What a token is printed as is a token again. -/
theorem Piece.Matches.clean {source printed : Piece} (h : source.Matches printed)
    (hsource : source.Clean) : printed.Clean := by
  rcases h.text with htext | ⟨hword, -, hmem⟩
  · exact hsource.same ⟨h.kind, htext⟩
  · have hkeyword := Vocabulary.clean_of_mem (List.mem_append_left _ hmem)
    exact hkeyword.same ⟨hword.symm.trans h.kind, rfl⟩

/-! ## Modifiers -/

/-- The gap that two neighbours are given. -/
def closeGap (first second : Piece) : Text :=
  if first.kind ≠ .symbol ∧ second.kind ≠ .symbol then [' '] else []

theorem closePieces_cons_cons (first second : Piece) (rest : List Piece) :
    closePieces (first :: second :: rest) =
      first.text ++ (closeGap first second ++ closePieces (second :: rest)) := by
  rw [closePieces, List.append_assoc]
  rfl

/-- No gap stands next to a symbol. -/
theorem closePieces_append {pieces more : List Piece}
    (h : ∀ first ∈ pieces.getLast?, ∀ second ∈ more.head?, first.kind = .symbol ∨
      second.kind = .symbol) :
    closePieces (pieces ++ more) = closePieces pieces ++ closePieces more := by
  induction pieces with
  | nil => rfl
  | cons first rest ih =>
    cases rest with
    | nil =>
      cases more with
      | nil => simp [closePieces]
      | cons second others =>
        have hgap : closeGap first second = [] := by
          rcases h first rfl second rfl with hkind | hkind <;> simp [closeGap, hkind]
        rw [List.cons_append, List.nil_append, closePieces_cons_cons, hgap]
        rfl
    | cons second others =>
      rw [List.cons_append, List.cons_append, closePieces_cons_cons, closePieces_cons_cons,
        ← List.cons_append, ih h]
      simp

theorem closePieces_same {pieces more : List Piece} (h : SameAll pieces more) :
    closePieces pieces = closePieces more := by
  induction h with
  | nil => rfl
  | @cons first first' rest rest' hfirst hrest ih =>
    cases hrest with
    | nil => exact hfirst.text
    | @cons second second' _ _ hsecond =>
      have hgap : closeGap first second = closeGap first' second' := by
        unfold closeGap
        rw [hfirst.kind, hsecond.kind]
      rw [closePieces_cons_cons, closePieces_cons_cons, hfirst.text, hgap, ih]

theorem closePieces_names (names : List Text) :
    closePieces (rowsBy (.symbol ".") (names.map fun name => [Piece.word name])) =
      Text.join "." names := by
  cases names with
  | nil => rfl
  | cons first others =>
    induction others generalizing first with
    | nil => simp [rowsBy, Text.join, closePieces, Piece.word]
    | cons second rest ih =>
      have hrest := ih second
      unfold rowsBy Text.join at hrest ⊢
      rw [List.map_cons] at hrest
      rw [List.map_cons, List.map_cons, List.intercalate_cons_cons, List.intercalate_cons_cons,
        ← hrest, closePieces_append, closePieces_append]
      · simp [closePieces, Piece.word, Piece.symbol]
      · simp [Piece.symbol]
      · simp [Piece.symbol]

/-- A modifier is its tokens put close together. -/
theorem Modified.eq_closePieces {pieces : List Piece} {value : Modifier} (h : Modified pieces value) :
    value = closePieces pieces := by
  cases h with
  | keyword => rfl
  | @sharing mode sharing hmode hsharing =>
    obtain ⟨word, -, hword⟩ := List.any_eq_true.1 hmode
    have hgap : closeGap mode sharing = [' '] := by
      simp [closeGap, (Piece.isWord_iff.1 hword).1, (Piece.isWord_iff.1 hsharing).1]
    rw [closePieces_cons_cons, hgap, ← List.append_assoc]
    rfl
  | annotation hmade =>
    rename_i arguments names
    obtain ⟨mark, row, rfl, hmark, hrow⟩ := hmade.row
    obtain ⟨hkind, htext⟩ := Piece.isSymbol_iff.1 hmark
    -- no gap stands at the mark or at the parenthesis, so the three parts are spelled apart
    have hbehind : closePieces (row ++ arguments) = closePieces row ++ closePieces arguments := by
      refine closePieces_append fun _ _ second hsecond => .inr ?_
      rcases hmade.balanced with rfl | ⟨hparenthesis, -⟩
      · cases hsecond
      · obtain ⟨piece, rest, rfl, hpiece⟩ := Grammar.pieceAt_zero_true hparenthesis
        cases hsecond
        exact (Piece.isSymbol_iff.1 hpiece).1
    have hfirst : closePieces ([mark] ++ (row ++ arguments)) =
        closePieces [mark] ++ closePieces (row ++ arguments) :=
      closePieces_append fun first hlast _ _ => .inl (by cases hlast; exact hkind)
    rw [List.singleton_append] at hfirst
    rw [hfirst, hbehind, closePieces_same hrow, closePieces_names, ← List.append_assoc]
    show annotationText names arguments = mark.text ++ _ ++ _
    rw [htext]
    rfl

theorem closePieces_head (first : Piece) (rest : List Piece) :
    ∃ more, closePieces (first :: rest) = first.text ++ more := by
  cases rest with
  | nil => exact ⟨[], (List.append_nil _).symm⟩
  | cons second others => exact ⟨_, closePieces_cons_cons first second others⟩

theorem not_mem_closePieces {pieces : List Piece} (h : ∀ piece ∈ pieces, '\n' ∉ piece.text) :
    '\n' ∉ closePieces pieces := by
  induction pieces with
  | nil => exact List.not_mem_nil
  | cons first rest ih =>
    obtain ⟨hfirst, hrest⟩ := List.forall_mem_cons.1 h
    cases rest with
    | nil => exact hfirst
    | cons second others =>
      have hgap : '\n' ∉ closeGap first second := by
        unfold closeGap
        split <;> decide
      rw [closePieces_cons_cons]
      simp only [List.mem_append, not_or]
      exact ⟨hfirst, hgap, ih hrest⟩

/-- Tokens that are put close together end as the last of them. -/
theorem getLast_closePieces {pieces : List Piece} (h : ∀ piece ∈ pieces, piece.Lexeme) :
    ∀ c ∈ (closePieces pieces).getLast?, Text.isBlank c = false := by
  induction pieces with
  | nil => simp [closePieces]
  | cons first rest ih =>
    obtain ⟨hfirst, hrest⟩ := List.forall_mem_cons.1 h
    cases rest with
    | nil => exact fun c hc => (hfirst.last c hc).1
    | cons second others =>
      obtain ⟨c, tail, htext, -⟩ := (hrest second List.mem_cons_self).first
      obtain ⟨more, hmore⟩ := closePieces_head second others
      have hne : closePieces (second :: others) ≠ [] := by simp [hmore, htext]
      rw [closePieces_cons_cons, ← List.append_assoc, List.getLast?_append_of_ne_nil _ hne]
      exact ih hrest

/-- A modifier that is made from tokens begins with a word or with its mark, and has no newline. -/
theorem Modified.clean {pieces : List Piece} {value : Modifier} (h : Modified pieces value)
    (hpieces : ∀ piece ∈ pieces, piece.Clean) : (Part.modifier value).Legible ∧ '\n' ∉ value := by
  obtain ⟨piece, others, rfl, hmodifies⟩ := h.head
  obtain ⟨more, hmore⟩ := closePieces_head piece others
  have hclean := hpieces piece List.mem_cons_self
  have hstart : ∃ c rest, piece.text = c :: rest ∧ (Scan.isWordStart c = true ∨ c = '@') := by
    rcases Bool.or_eq_true_iff.1 hmodifies with hmark | hword
    · exact ⟨'@', [], (Piece.isSymbol_iff.1 hmark).2, .inr rfl⟩
    · obtain ⟨word, -, hword⟩ := List.any_eq_true.1 hword
      obtain ⟨c, rest, htext, hlexeme⟩ := hclean.lexeme
      rw [(Piece.isWord_iff.1 hword).1] at hlexeme
      rcases Scan.lexeme_cases hlexeme with ⟨-, hstart, -⟩ | ⟨hkind, -⟩ | ⟨hkind, -⟩ | ⟨hkind, -⟩
      · exact ⟨c, rest, htext, .inl hstart⟩
      all_goals cases hkind
  obtain ⟨c, rest, htext, hc⟩ := hstart
  rw [h.eq_closePieces]
  refine ⟨⟨⟨c, rest ++ more, by rw [hmore, htext]; rfl, hc⟩, ?_⟩, ?_⟩
  · exact getLast_closePieces fun piece hpiece => (hpieces piece hpiece).lexeme
  · exact not_mem_closePieces fun piece hpiece => (hpieces piece hpiece).line

/-! ## Parts -/

/-- A row that is printed for clean tokens is clean. -/
theorem Printed.clean {source rest : List Piece} {parts : List Part} (h : Printed source rest parts)
    (hsource : ∀ piece ∈ source, piece.Clean) : Clean parts := by
  obtain ⟨taken, rfl, hmatch⟩ := h.matched
  -- each piece of the row matches a token, which is clean
  have hspelled : ∀ part ∈ parts, ∀ piece ∈ part.pieces, piece.Clean := by
    intro part hpart piece hpiece
    have hmem : piece ∈ spell parts := List.mem_flatMap.2 ⟨part, hpart, hpiece⟩
    obtain ⟨other, hother, hsame⟩ := exists_of_mem_forall₂ hmatch hmem
    exact hsame.clean (hsource other (List.mem_append_left _ hother))
  have hsign : ∀ sign ∈ Operators.leading ++ Operators.trailing ++ Operators.between,
      '\n' ∉ sign := by decide
  intro part hpart
  -- signs come from the tables, and everything else has a token of its own
  have hwell := h.wellFormed part hpart
  have hpieces := hspelled part hpart
  cases part with
  | piece token =>
    have hclean := hpieces token List.mem_cons_self
    exact ⟨⟨hclean.lexeme, hwell⟩, hclean.line⟩
  | literal written =>
    have hclean := hpieces _ List.mem_cons_self
    exact ⟨⟨hclean.lexeme, hwell⟩, hclean.line⟩
  | leading sign =>
    exact ⟨hwell, hsign sign (by simp [show sign ∈ Operators.leading from hwell])⟩
  | trailing sign =>
    exact ⟨hwell, hsign sign (by simp [show sign ∈ Operators.trailing from hwell])⟩
  | operator sign =>
    exact ⟨hwell, hsign sign (by simp [show sign ∈ Operators.between from hwell])⟩
  | type reference =>
    have hlegible : (Part.type reference).Legible :=
      ⟨hwell, fun piece hpiece => (hpieces piece hpiece).lexeme⟩
    refine ⟨hlegible, fun hmem => ?_⟩
    rcases (Part.typeText hlegible).chars '\n' hmem with hblank | ⟨piece, hpiece, hmem⟩
    · exact absurd hblank (by decide)
    · exact (hpieces piece hpiece).line hmem
  | modifier written => exact hwell.elim
  | query => exact hwell.elim

/-- What is printed for clean tokens is clean. -/
theorem Yields.clean {asks gives : Bool} {source rest : List Piece} {parts : List Part}
    (h : Yields asks gives source rest parts) (hsource : ∀ piece ∈ source, piece.Clean) :
    Clean parts := by
  -- the tokens of each step are some of the source, and what is added is clean by itself
  induction h with
  | nil => exact fun _ hpart => absurd hpart List.not_mem_nil
  | comma => exact fun _ hpart => absurd hpart List.not_mem_nil
  | row hprinted => exact hprinted.clean hsource
  | @one piece printed _ hmatch _ hplain =>
    have hclean := hmatch.clean (hsource piece List.mem_cons_self)
    exact List.forall_mem_singleton.2 ⟨⟨hclean.lexeme, hplain⟩, hclean.line⟩
  | keyword _ hsoft =>
    have hclean := Vocabulary.clean_of_mem (List.mem_append_right _ hsoft)
    exact List.forall_mem_singleton.2 ⟨⟨hclean.lexeme, rfl⟩, hclean.line⟩
  | modifier hmade =>
    exact List.forall_mem_singleton.2
      (hmade.clean fun piece hpiece => hsource piece (List.mem_append_left _ hpiece))
  | braces _ ih =>
    have hbrace : ∀ sign ∈ ["\x7b".toList, "\x7d".toList],
        (Part.symbol sign).Legible ∧ '\n' ∉ (Part.symbol sign).text := by
      have hall : ∀ sign ∈ ["\x7b".toList, "\x7d".toList], sign ∈ Scan.symbols ∧ '\n' ∉ sign := by decide
      exact fun sign hsign =>
        ⟨⟨Piece.lexeme_symbol (hall sign hsign).1 false, rfl⟩, (hall sign hsign).2⟩
    have hbody := ih hsource
    simp only [blockParts, List.flatten_cons, List.flatten_nil, List.append_nil,
      List.forall_mem_cons, List.forall_mem_append]
    exact ⟨hbrace _ (by simp), hbody, hbrace _ (by simp), by simp⟩
  | relax _ _ _ ih => exact ih hsource
  | append hfirst _ ih ih' =>
    refine List.forall_mem_append.2 ⟨ih hsource, ih' fun piece hpiece => ?_⟩
    exact hsource piece (hfirst.mem_of_mem hpiece)

/-! ## Sources -/

/-- No string of the source holds a newline. -/
def Text.StringsOnOneLine (source : Text) : Prop :=
  ∀ stream, TokenStream.ofSource source = .ok stream →
    ∀ token ∈ stream.tokens, token.kind = .string → '\n' ∉ token.text

instance (source : Text) : Decidable source.StringsOnOneLine :=
  decidable_of_iff ((TokenStream.ofSource source).toOption.all fun stream =>
    decide (∀ token ∈ stream.tokens, token.kind = .string → '\n' ∉ token.text)) <| by
      unfold Text.StringsOnOneLine
      cases TokenStream.ofSource source with
      | error => simp [Except.toOption]
      | ok stream => simp [Except.toOption]

/-- The tokens of such a source are clean. -/
theorem Text.StringsOnOneLine.clean {source : Text} {stream : TokenStream}
    (h : source.StringsOnOneLine) (hstream : TokenStream.ofSource source = .ok stream) :
    ∀ piece ∈ stream.pieces, piece.Clean := by
  intro piece hpiece
  refine (TokenStream.lexeme_of_ofSource hstream piece hpiece).clean ?_
  obtain ⟨token, htoken, rfl⟩ := List.mem_map.1 hpiece
  exact h stream hstream token htoken

theorem Text.StringsOnOneLine.sound {source : Text} {stream : TokenStream} {parts : List Part}
    (h : source.StringsOnOneLine) (hstream : TokenStream.ofSource source = .ok stream)
    (hquery : .query ∉ parts) : Sound stream.pieces parts :=
  ⟨fun piece hpiece => (h.clean hstream piece hpiece).lexeme.regular, hquery⟩

/-- What a source is formatted to is the text of its compilation unit, and a newline. -/
theorem format_eq_ok {settings : Settings} {source output : Text} :
    format settings source = .ok output ↔ ∃ unit body, parseUnit source = .ok unit ∧
      unit.render { settings } = .ok body ∧ output = body ++ ['\n'] := by
  unfold format CompilationUnit.print
  cases hunit : parseUnit source with
  | error error => simp
  | ok unit =>
    cases hbody : unit.render { settings } with
    | error error => simp [hbody, bind, Except.bind]
    | ok body => simp [hbody, bind, Except.bind, pure, Except.pure, eq_comm]

end ApexLayout
