import ApexLayout.Proofs.Replay.Type

/-!
Modifiers.

A keyword is printed as it was read. An annotation is kept as one text that is made from its tokens
without their gaps, so its printed tokens may be others; here it is only described by the pieces it
was made from (`IsAnnotation`), and by what the rule reads in a given place.
-/

namespace ApexLayout

/-- The texts of pieces one after another, with a blank between two that are not symbols. -/
def closePieces : List Piece → Text
  | [] => []
  | [piece] => piece.text
  | first :: second :: rest =>
    let gap : Text := if first.kind ≠ .symbol ∧ second.kind ≠ .symbol then " " else []
    first.text ++ gap ++ closePieces (second :: rest)

/-- How many of the two symbols are open behind a piece. -/
def depthAfter (opening closing : Text) (depth : Nat) (piece : Piece) : Nat :=
  if piece.isSymbol opening then depth + 1
  else if piece.isSymbol closing then depth - 1
  else depth

/-- The shortest beginning of the pieces in which the two symbols balance. -/
def enclosedPieces (opening closing : Text) : Nat → List Piece → Option (List Piece)
  | _, [] => none
  | depth, piece :: rest =>
    if depthAfter opening closing depth piece = 0 then some [piece]
    else (enclosedPieces opening closing (depthAfter opening closing depth piece) rest).map
      (piece :: ·)

theorem closeUp_eq (tokens : List Token) :
    Grammar.closeUp tokens = closePieces (tokens.map Token.piece) := by
  induction tokens with
  | nil => rfl
  | cons first rest ih =>
    cases rest with
    | nil => rfl
    | cons second others =>
      rw [Grammar.closeUp, ih]
      rfl

theorem enclosed_eq (opening closing : Text) (depth : Nat) (tokens : List Token) :
    (Grammar.enclosed opening closing depth tokens).map (List.map Token.piece) =
      enclosedPieces opening closing depth (tokens.map Token.piece) := by
  induction tokens generalizing depth with
  | nil => rfl
  | cons token rest ih =>
    rw [List.map_cons, enclosedPieces, ← ih, Grammar.enclosed]
    show Option.map _ (if depthAfter opening closing depth token.piece = 0 then _ else
      (Grammar.enclosed opening closing (depthAfter opening closing depth token.piece) rest).map
        _) = _
    by_cases hzero : depthAfter opening closing depth token.piece = 0
    · rw [if_pos hzero, if_pos hzero]
      rfl
    · rw [if_neg hzero, if_neg hzero, Option.map_map, Option.map_map]
      rfl

/-- What is enclosed is the beginning of the pieces, whatever stands behind it. -/
theorem enclosedPieces_eq_some {opening closing : Text} {depth : Nat} {pieces taken : List Piece}
    (h : enclosedPieces opening closing depth pieces = some taken) :
    (∃ rest, pieces = taken ++ rest) ∧
      ∀ f, enclosedPieces opening closing depth (taken ++ f) = some taken := by
  induction pieces generalizing depth taken with
  | nil => simp [enclosedPieces] at h
  | cons piece rest ih =>
    rw [enclosedPieces] at h
    by_cases hzero : depthAfter opening closing depth piece = 0
    · rw [if_pos hzero] at h
      cases h
      refine ⟨⟨rest, rfl⟩, fun f => ?_⟩
      show enclosedPieces opening closing depth (piece :: f) = _
      rw [enclosedPieces, if_pos hzero]
    · rw [if_neg hzero] at h
      obtain ⟨inside, hinside, rfl⟩ := Option.map_eq_some_iff.1 h
      obtain ⟨⟨more, hmore⟩, hagain⟩ := ih hinside
      refine ⟨⟨more, by rw [hmore]; rfl⟩, fun f => ?_⟩
      rw [List.cons_append, enclosedPieces, if_neg hzero, hagain, Option.map_some]

/-- The arguments of an annotation: nothing, or pieces from a parenthesis to the one that closes
it. -/
def IsArguments (arguments : List Piece) : Prop :=
  arguments = [] ∨ (pieceAt arguments 0 (·.isSymbol "(") = true ∧
    enclosedPieces "(" ")" 0 arguments = some arguments)

/-- The pieces that an annotation with the given names and arguments is read from. -/
structure IsAnnotation (pieces : List Piece) (names : List Text) (arguments : List Piece) :
    Prop where
  ne_nil : names ≠ []
  identifier : ∀ name ∈ names, (Piece.word name).isIdentifier = true
  balanced : IsArguments arguments
  row : ∃ mark row, pieces = mark :: (row ++ arguments) ∧ mark.isSymbol "@" = true ∧
    SameAll row (rowsBy (.symbol ".") (names.map fun name => [.word name]))

/-- The text of an annotation. -/
def annotationText (names : List Text) (arguments : List Piece) : Modifier :=
  "@" ++ Text.join "." names ++ closePieces arguments

/-- Nothing ahead could belong to an annotation without arguments. -/
def AnnotationStops (arguments rest : List Piece) : Prop :=
  arguments = [] → dotName rest = false ∧ pieceAt rest 0 (·.isSymbol "(") = false

namespace Grammar

variable {bound : Nat} {source rest : TokenStream}

theorem enclosure_ok {opening closing : Text} {missing : Expectation} {tokens : List Token}
    (h : enclosure opening closing missing source = .ok tokens rest) :
    source.pieces = tokens.map Token.piece ++ rest.pieces ∧
      enclosedPieces opening closing 0 (tokens.map Token.piece) =
        some (tokens.map Token.piece) := by
  unfold enclosure at h
  rw [Reader.bind_of_ok (Reader.get_run source)] at h
  cases hfound : enclosed opening closing 0 source.tokens with
  | none =>
    rw [hfound] at h
    simp [Reader.bind_eq_ok] at h
  | some taken =>
    rw [hfound] at h
    simp only [Reader.bind_eq_ok, skip_eq_ok] at h
    obtain ⟨_, _, rfl, h⟩ := h
    cases h
    have hpieces := enclosed_eq opening closing 0 source.tokens
    rw [hfound, Option.map_some] at hpieces
    obtain ⟨⟨more, hmore⟩, hagain⟩ := enclosedPieces_eq_some hpieces.symm
    have hself := hagain []
    rw [List.append_nil] at hself
    refine ⟨?_, hself⟩
    have hskip : (source.skip tokens.length).pieces = more := by
      have hsplit := source.pieces_skip_append hmore
      rwa [List.length_map] at hsplit
    rw [hskip]
    exact hmore

theorem identifier_same {name : Text} (h : identifier source = .ok name rest) :
    (Piece.word name).isIdentifier = true ∧
      ∃ taken, source.pieces = taken ++ rest.pieces ∧ SameAll taken [.word name] := by
  obtain ⟨piece, hpieces, hpiece, rfl⟩ := identifier_ok h
  have hword := Piece.isIdentifier_word hpiece
  refine ⟨?_, [piece], hpieces, .cons ⟨hword, rfl⟩ .nil⟩
  rw [← Piece.respects_isIdentifier _ _ (Piece.matches_word hword), hpiece]

/-- What an annotation took, and that nothing behind it could belong to it. -/
theorem annotation_ok {modifier : Modifier} (h : annotation source = .ok modifier rest) :
    ∃ pieces names arguments, IsAnnotation pieces names arguments ∧
      modifier = annotationText names arguments ∧ source.pieces = pieces ++ rest.pieces ∧
      AnnotationStops arguments rest.pieces := by
  unfold annotation at h
  obtain ⟨_, behind, hmark, h⟩ := Reader.bind_eq_ok.1 h
  obtain ⟨names, middle, hnames, h⟩ := Reader.bind_eq_ok.1 h
  obtain ⟨arguments, final, harguments, h⟩ := Reader.bind_eq_ok.1 h
  cases h
  obtain ⟨mark, hpieces, hmark⟩ := symbol_ok hmark
  obtain ⟨hne, hgood, ⟨row, hrow, hsame⟩, _, _, -, -, hdot⟩ :=
    separated_ok (fun _ _ => dotBeforeIdentifier_true) (fun _ _ => dotBeforeIdentifier_false)
      (fun _ _ _ h => identifier_same h) hnames
  cases arguments with
  | none =>
    obtain ⟨hplain, rfl⟩ := atSymbol_eq_ok.1 (Reader.optional_eq_none.1 harguments)
    refine ⟨mark :: (row ++ []), names, [], ⟨hne, hgood, .inl rfl, mark, row, rfl, hmark, hsame⟩,
      rfl, ?_, fun _ => ⟨(dotBeforeIdentifier_eq_ok.1 hdot).1, hplain⟩⟩
    rw [hpieces, hrow, List.append_nil, List.cons_append]
  | some tokens =>
    obtain ⟨opened, hopened, htokens⟩ := Reader.optional_eq_some.1 harguments
    obtain ⟨hparenthesis, rfl⟩ := atSymbol_eq_ok.1 hopened
    obtain ⟨htaken, henclosed⟩ := enclosure_ok htokens
    have hfirst : pieceAt (tokens.map Token.piece) 0 (·.isSymbol "(") = true := by
      cases tokens with
      | nil => simp [enclosedPieces] at henclosed
      | cons token others =>
        rw [htaken] at hparenthesis
        exact hparenthesis
    refine ⟨mark :: (row ++ tokens.map Token.piece), names, tokens.map Token.piece,
      ⟨hne, hgood, .inr ⟨hfirst, henclosed⟩, mark, row, rfl, hmark, hsame⟩, ?_, ?_, ?_⟩
    · show _ ++ closeUp tokens = _
      rw [closeUp_eq]
      rfl
    · rw [hpieces, hrow, htaken]
      simp
    · intro hnil
      rw [hnil] at hfirst
      simp at hfirst

/-! ## What the rules read -/

/-- Balanced tokens are taken as a whole. -/
theorem enclosure_run {opening closing : Text} {missing : Expectation} {stream : TokenStream}
    {taken f : List Piece} (hpieces : stream.pieces = taken ++ f)
    (h : enclosedPieces opening closing 0 taken = some taken) :
    ∃ tokens, tokens.map Token.piece = taken ∧
      enclosure opening closing missing stream = .ok tokens (stream.skip taken.length) := by
  obtain ⟨-, hagain⟩ := enclosedPieces_eq_some h
  have henclosed := enclosed_eq opening closing 0 stream.tokens
  have htokens : stream.tokens.map Token.piece = taken ++ f := hpieces
  rw [htokens, hagain f] at henclosed
  obtain ⟨tokens, hfound, htaken⟩ := Option.map_eq_some_iff.1 henclosed
  refine ⟨tokens, htaken, ?_⟩
  unfold enclosure
  rw [Reader.bind_of_ok (Reader.get_run stream), hfound, ← htaken, List.length_map]
  rfl

theorem reads_names {names : List Text} {row f : List Piece} (hne : names ≠ [])
    (hnames : ∀ name ∈ names, (Piece.word name).isIdentifier = true)
    (hrow : SameAll row (rowsBy (.symbol ".") (names.map fun name => [.word name])))
    (hf : dotName f = false) :
    Reads bound (Reader.separated dotBeforeIdentifier identifier) row f names := by
  obtain ⟨first, others, rfl⟩ := List.exists_cons_of_ne_nil hne
  have hname : ∀ name ∈ first :: others, ∀ taken, SameAll taken [.word name] →
      ∃ piece, taken = [piece] ∧ piece.isIdentifier = true ∧ piece.text = name := by
    intro name hmem taken hsame
    obtain ⟨piece, nothing, hpiece, hnil, rfl⟩ := List.forall₂_cons_right_iff.1 hsame
    cases hnil
    refine ⟨piece, rfl, ?_, hpiece.text⟩
    rw [Piece.respects_isIdentifier _ _ hpiece.matches]
    exact hnames name hmem
  have hitem : ∀ name ∈ first :: others, ∀ taken f, SameAll taken [.word name] → True →
      Reads bound identifier taken f name := by
    intro name hmem taken f hsame _
    obtain ⟨piece, rfl, hpiece, rfl⟩ := hname name hmem taken hsame
    exact reads_identifier hpiece
  refine reads_separated hitem ?_ (by simp) ?_ (by simp) hrow
  · intro name hmem piece taken f hdot hsame
    obtain ⟨next, rfl, hnext, -⟩ := hname name (List.mem_cons_of_mem _ hmem) taken hsame
    exact reads_dotBeforeIdentifier_true (Piece.isSymbol_iff.2 ⟨hdot.kind, hdot.text⟩) hnext
  · exact reads_dotBeforeIdentifier_false hf

/-- An annotation is read from the pieces that it was made from. -/
theorem reads_annotation {pieces arguments f : List Piece} {names : List Text}
    (h : IsAnnotation pieces names arguments) (hf : AnnotationStops arguments f) :
    Reads bound annotation pieces f (annotationText names arguments) := by
  obtain ⟨mark, row, rfl, hmark, hrow⟩ := h.row
  have hdot : dotName (arguments ++ f) = false := by
    rcases h.balanced with rfl | ⟨hparenthesis, -⟩
    · exact (hf rfl).1
    · obtain ⟨piece, rest, rfl, hpiece⟩ := pieceAt_zero_true hparenthesis
      unfold dotName
      rw [List.cons_append, pieceAt_zero, Piece.isSymbol_eq_false hpiece (by decide),
        Bool.false_and]
  have hnames : Reads bound (Reader.separated dotBeforeIdentifier identifier) row
      (arguments ++ f) names := reads_names h.ne_nil h.identifier hrow hdot
  refine (reads_symbol hmark).bind (hnames.bind ?_)
  -- the value is a list of tokens, which the pieces do not tell
  intro stream _ hpieces
  rcases h.balanced with rfl | ⟨hparenthesis, hbalanced⟩
  · have hnone : Reader.optional (atSymbol "(") (enclosure "(" ")" .annotationEnd) stream =
        .ok none stream := by
      rw [Reader.optional_eq_none, atSymbol_eq_ok, hpieces]
      exact ⟨(hf rfl).2, rfl⟩
    rw [Reader.bind_of_ok hnone]
    rfl
  · obtain ⟨tokens, htokens, hrun⟩ := enclosure_run hpieces hbalanced
    have hsome : Reader.optional (atSymbol "(") (enclosure "(" ")" .annotationEnd) stream =
        .ok (some tokens) (stream.skip arguments.length) := by
      rw [Reader.optional_eq_some]
      refine ⟨stream, atSymbol_eq_ok.2 ⟨?_, rfl⟩, hrun⟩
      obtain ⟨piece, rest, rfl, hpiece⟩ := pieceAt_zero_true hparenthesis
      rw [hpieces]
      exact hpiece
    rw [Reader.bind_of_ok hsome]
    show EStateM.Result.ok (_ ++ closeUp tokens) _ = _
    rw [closeUp_eq, htokens]
    rfl

end Grammar

/-! ## Modifiers -/

/-- The pieces that a modifier is read from. -/
inductive Modified : List Piece → Modifier → Prop
  | keyword {piece : Piece} (word : piece.isWordIn Vocabulary.modifiers = true) :
      Modified [piece] piece.text
  | sharing {mode sharing : Piece} (first : mode.isWordIn Vocabulary.sharingModes = true)
      (second : sharing.isWord "sharing" = true) :
      Modified [mode, sharing] (mode.text ++ " " ++ sharing.text)
  | annotation {pieces arguments : List Piece} {names : List Text}
      (made : IsAnnotation pieces names arguments) :
      Modified pieces (annotationText names arguments)

/-- Whether a piece may stand behind a modifier: a word, or the mark of another annotation. -/
def Piece.continues (piece : Piece) : Bool := piece.kind == .word || piece.isSymbol "@"

/-- Whether a piece may begin a modifier. -/
def Piece.modifies (piece : Piece) : Bool :=
  piece.isSymbol "@" || piece.isWordIn (Vocabulary.modifiers ++ Vocabulary.sharingModes)

theorem Piece.continues_of_modifies {piece : Piece} (h : piece.modifies = true) :
    piece.continues = true := by
  unfold Piece.modifies at h
  unfold Piece.continues
  rw [Bool.or_eq_true] at h ⊢
  rcases h with hmark | hword
  · exact .inr hmark
  · obtain ⟨word, -, hword⟩ := List.any_eq_true.1 hword
    exact .inl (by rw [(Piece.isWord_iff.1 hword).1]; rfl)

theorem Modified.head {pieces : List Piece} {value : Modifier} (h : Modified pieces value) :
    ∃ piece others, pieces = piece :: others ∧ piece.modifies = true := by
  unfold Piece.modifies
  cases h with
  | @keyword piece hword =>
    refine ⟨piece, [], rfl, ?_⟩
    unfold Piece.isWordIn at hword ⊢
    rw [List.any_append, hword, Bool.true_or, Bool.or_true]
  | @sharing mode sharing hmode _ =>
    refine ⟨mode, [sharing], rfl, ?_⟩
    unfold Piece.isWordIn at hmode ⊢
    rw [List.any_append, hmode, Bool.or_true, Bool.or_true]
  | annotation hmade =>
    obtain ⟨mark, row, rfl, hmark, -⟩ := hmade.row
    exact ⟨mark, _, rfl, by rw [hmark, Bool.true_or]⟩

theorem Piece.isIdentifier_of_sharing {piece : Piece} (h : piece.isWord "sharing" = true) :
    piece.isIdentifier = true := by
  obtain ⟨hkind, hlower⟩ := Piece.isWord_iff.1 h
  have hapart : ∀ word ∈ Vocabulary.reserved, Text.lower "sharing" ≠ Text.lower word := by decide
  unfold Piece.isIdentifier Piece.isWordIn
  rw [hkind, Bool.and_eq_true, Bool.not_eq_true', List.any_eq_false]
  refine ⟨rfl, fun word hword hsame => ?_⟩
  exact hapart word hword (hlower.symm.trans (Piece.isWord_iff.1 hsame).2)

/-- An annotation begins with its mark and a name. -/
theorem IsAnnotation.front {pieces arguments : List Piece} {names : List Text}
    (h : IsAnnotation pieces names arguments) :
    ∃ mark name others, pieces = mark :: name :: others ∧ name.isIdentifier = true := by
  obtain ⟨mark, row, rfl, -, hrow⟩ := h.row
  obtain ⟨first, names, rfl⟩ := List.exists_cons_of_ne_nil h.ne_nil
  rw [List.map_cons, rowsBy_cons] at hrow
  obtain ⟨name, others, hname, -, rfl⟩ := List.forall₂_cons_right_iff.1 hrow
  refine ⟨mark, name, others ++ arguments, rfl, ?_⟩
  rw [Piece.respects_isIdentifier _ _ hname.matches]
  exact h.identifier first List.mem_cons_self

/-- The second of the pieces of a modifier and what stands behind it may stand behind a modifier too:
a modifier of one piece has such a piece behind it, and the others have one in second place. -/
theorem Modified.front {taken : List Piece} {modifier : Modifier} {next : Piece}
    (h : Modified taken modifier) (hnext : next.modifies = true ∨ next.isIdentifier = true)
    (more : List Piece) :
    ∃ first second others, taken ++ next :: more = first :: second :: others ∧
      first.modifies = true ∧ (second.modifies = true ∨ second.isIdentifier = true) := by
  obtain ⟨first, others, htaken, hfirst⟩ := h.head
  cases h with
  | keyword =>
    cases htaken
    exact ⟨first, next, more, rfl, hfirst, hnext⟩
  | @sharing _ sharing _ hsharing =>
    cases htaken
    exact ⟨first, sharing, next :: more, rfl, hfirst, .inr (Piece.isIdentifier_of_sharing hsharing)⟩
  | annotation hmade =>
    obtain ⟨mark, name, row, rfl, hname⟩ := hmade.front
    cases htaken
    exact ⟨first, name, row ++ next :: more, rfl, hfirst, .inr hname⟩

/-- Whether a modifier comes next. -/
def modifierAhead (pieces : List Piece) : Bool :=
  pieceAt pieces 0 (·.isSymbol "@") || pieceAt pieces 0 (·.isWordIn Vocabulary.modifiers) ||
    (pieceAt pieces 0 (·.isWordIn Vocabulary.sharingModes) && pieceAt pieces 1 (·.isWord "sharing"))

theorem modifierAhead_similar {pieces pieces' : List Piece} (h : Similar pieces pieces') :
    modifierAhead pieces = modifierAhead pieces' := by
  have hsharing := h.second (Piece.respects_isWordIn Vocabulary.sharingModes)
    (Piece.respects_isWord "sharing") fun piece hmode => by
      obtain ⟨word, -, hword⟩ := List.any_eq_true.1 hmode
      exact Piece.not_isStop_of_word (Piece.isWord_iff.1 hword).1
  unfold modifierAhead
  rw [h.first (Piece.respects_isSymbol "@"), h.first (Piece.respects_isWordIn _), hsharing]

theorem Piece.respects_continues : Piece.Respects Piece.continues := by
  intro source printed h
  unfold Piece.continues
  rw [h.kind, h.isSymbol]

/-- No modifier is reserved. -/
theorem Vocabulary.modifiers_not_reserved :
    ∀ word ∈ modifiers ++ sharingModes, ∀ other ∈ reserved, Text.lower word ≠ Text.lower other := by
  decide

/-- No annotation goes on with a word or with another annotation. -/
theorem annotationStops_of_continues {arguments rest : List Piece}
    (h : pieceAt rest 0 Piece.continues = true) : AnnotationStops arguments rest := by
  intro _
  obtain ⟨piece, others, rfl, hpiece⟩ := Grammar.pieceAt_zero_true h
  have hsymbol : ∀ text, text ≠ [ '@' ] → piece.isSymbol text = false := by
    intro text htext
    unfold Piece.continues at hpiece
    rw [Bool.or_eq_true, beq_iff_eq] at hpiece
    rcases hpiece with hword | hmark
    · exact Piece.isSymbol_of_word hword text
    · exact Piece.isSymbol_eq_false hmark htext.symm
  unfold dotName
  rw [pieceAt_zero, pieceAt_zero, hsymbol _ (by decide), hsymbol _ (by decide)]
  exact ⟨rfl, rfl⟩

namespace Grammar

variable {bound : Nat} {source rest : TokenStream}

theorem modifier_none (h : modifier source = .ok none rest) :
    rest = source ∧ modifierAhead source.pieces = false := by
  unfold modifier at h
  rw [Reader.bind_of_ok (Reader.get_run source)] at h
  simp only [TokenStream.symbolAt_eq, TokenStream.wordInAt_eq, TokenStream.wordAt_eq] at h
  -- only the last branch finds nothing
  split at h
  case isTrue =>
    obtain ⟨_, _, -, h⟩ := Reader.bind_eq_ok.1 h
    cases h
  case isFalse hmark =>
    split at h
    case isTrue =>
      obtain ⟨_, _, -, h⟩ := Reader.bind_eq_ok.1 h
      cases h
    case isFalse hword =>
      split at h
      case isTrue =>
        obtain ⟨_, _, -, h⟩ := Reader.bind_eq_ok.1 h
        obtain ⟨_, _, -, h⟩ := Reader.bind_eq_ok.1 h
        cases h
      case isFalse hsharing =>
        cases h
        refine ⟨rfl, ?_⟩
        rw [Bool.not_eq_true] at hmark hword hsharing
        unfold modifierAhead
        rw [hmark, hword, hsharing]
        rfl

theorem reads_modifier_none {f : List Piece} (h : modifierAhead f = false) :
    Reads bound modifier [] f none := by
  unfold modifierAhead at h
  simp only [Bool.or_eq_false_iff] at h
  obtain ⟨⟨hmark, hword⟩, hsharing⟩ := h
  intro stream _ hpieces
  rw [List.nil_append] at hpieces
  unfold modifier
  rw [Reader.bind_of_ok (Reader.get_run stream)]
  simp only [TokenStream.symbolAt_eq, TokenStream.wordInAt_eq, TokenStream.wordAt_eq]
  rw [hpieces, hmark, hword, hsharing]
  rfl

theorem reads_modifier_annotation {pieces arguments f : List Piece} {names : List Text}
    (h : IsAnnotation pieces names arguments) (hf : AnnotationStops arguments f) :
    Reads bound modifier pieces f (some (annotationText names arguments)) := by
  have hreads : Reads bound annotation pieces f (annotationText names arguments) :=
    reads_annotation h hf
  refine reads_get ?_ (hreads.map some)
  intro stream hpieces
  obtain ⟨mark, row, rfl, hmark, -⟩ := h.row
  rw [TokenStream.symbolAt_eq, hpieces, List.cons_append, pieceAt_zero, hmark]
  rfl

theorem reads_modifier_keyword {piece : Piece} {f : List Piece}
    (h : piece.isWordIn Vocabulary.modifiers = true) :
    Reads bound modifier [piece] f (some piece.text) := by
  refine reads_get ?_ (reads_takeText.map some)
  intro stream hpieces
  obtain ⟨word, -, hword⟩ := List.any_eq_true.1 h
  rw [TokenStream.symbolAt_eq, TokenStream.wordInAt_eq, hpieces, List.cons_append, pieceAt_zero,
    pieceAt_zero, h, Piece.isSymbol_of_word (Piece.isWord_iff.1 hword).1]
  rfl

theorem reads_modifier_sharing {mode sharing : Piece} {f : List Piece}
    (h : mode.isWordIn Vocabulary.sharingModes = true) (h' : sharing.isWord "sharing" = true) :
    Reads bound modifier [mode, sharing] f (some (mode.text ++ " " ++ sharing.text)) := by
  have hmode : Reads bound takeText [mode] ([sharing] ++ f) mode.text := reads_takeText
  have hboth : Reads bound (takeText >>= fun first => takeText >>= fun second =>
      pure (some (first ++ " " ++ second))) ([mode] ++ [sharing]) f
      (some (mode.text ++ " " ++ sharing.text)) :=
    hmode.bind (reads_takeText.map fun second => some (mode.text ++ " " ++ second))
  refine reads_get ?_ hboth
  intro stream hpieces
  obtain ⟨word, -, hword⟩ := List.any_eq_true.1 h
  rw [TokenStream.symbolAt_eq, TokenStream.wordInAt_eq, TokenStream.wordInAt_eq,
    TokenStream.wordAt_eq, hpieces, List.cons_append, List.cons_append, pieceAt_zero, pieceAt_zero,
    pieceAt_zero, pieceAt_one, pieceAt_zero, h, h', Piece.isWordIn_eq_false h (by decide : ∀ word ∈ Vocabulary.sharingModes,
      ∀ other ∈ Vocabulary.modifiers, Text.lower word ≠ Text.lower other),
    Piece.isSymbol_of_word (Piece.isWord_iff.1 hword).1]
  rfl

/-- What a modifier took, and that it is read from there. -/
theorem modifier_some {value : Modifier} (h : modifier source = .ok (some value) rest) :
    ∃ taken, source.pieces = taken ++ rest.pieces ∧ Modified taken value ∧
      ∀ bound, Reads bound modifier taken rest.pieces (some value) := by
  unfold modifier at h
  rw [Reader.bind_of_ok (Reader.get_run source)] at h
  simp only [TokenStream.symbolAt_eq, TokenStream.wordInAt_eq, TokenStream.wordAt_eq] at h
  split at h
  case isTrue hmark =>
    obtain ⟨text, final, htext, h⟩ := Reader.bind_eq_ok.1 h
    cases h
    obtain ⟨pieces, names, arguments, hmade, rfl, hpieces, hstops⟩ := annotation_ok htext
    exact ⟨pieces, hpieces, Modified.annotation hmade, fun _ => reads_modifier_annotation hmade hstops⟩
  case isFalse hmark =>
    split at h
    case isTrue hword =>
      obtain ⟨text, final, htext, h⟩ := Reader.bind_eq_ok.1 h
      cases h
      obtain ⟨piece, others, hpieces, hpiece⟩ := pieceAt_zero_true hword
      obtain ⟨rfl, hrest⟩ := takeText_ok htext hpieces
      rw [hpieces, hrest]
      exact ⟨[piece], rfl, .keyword hpiece, fun _ => reads_modifier_keyword hpiece⟩
    case isFalse hword =>
      split at h
      case isFalse => simp at h
      case isTrue hsharing =>
        obtain ⟨mode, middle, hmode, h⟩ := Reader.bind_eq_ok.1 h
        obtain ⟨sharing, final, htext, h⟩ := Reader.bind_eq_ok.1 h
        cases h
        rw [Bool.and_eq_true] at hsharing
        obtain ⟨first, others, hpieces, hfirst⟩ := pieceAt_zero_true hsharing.1
        rw [hpieces, pieceAt_one] at hsharing
        obtain ⟨second, others, rfl, hsecond⟩ := pieceAt_zero_true hsharing.2
        obtain ⟨rfl, hmiddle⟩ := takeText_ok hmode hpieces
        obtain ⟨rfl, hrest⟩ := takeText_ok htext hmiddle
        rw [hpieces, hrest]
        exact ⟨[first, second], rfl, .sharing hfirst hsecond,
          fun _ => reads_modifier_sharing hfirst hsecond⟩

end Grammar

/-- A modifier is read from its pieces in front of a word or of another annotation. -/
theorem Modified.reads {bound : Nat} {pieces f : List Piece} {value : Modifier}
    (h : Modified pieces value) (hf : pieceAt f 0 Piece.continues = true) :
    Grammar.Reads bound Grammar.modifier pieces f (some value) := by
  cases h with
  | keyword hword => exact Grammar.reads_modifier_keyword hword
  | sharing hmode hsharing => exact Grammar.reads_modifier_sharing hmode hsharing
  | annotation hmade =>
    exact Grammar.reads_modifier_annotation hmade (annotationStops_of_continues hf)

end ApexLayout
