import ApexLayout.Proofs.Annotation
import ApexLayout.Proofs.RoundTrip

/-!
What formatting keeps.

The parts that are printed for a source yield its tokens (`Yields`), and their text is cut into their
pieces again. So formatting loses, adds and moves nothing but braces and commas in front of a closing
brace (`format_code`), and every string stands in the output as it stands in the source
(`format_strings`).
-/

namespace ApexLayout

/-! ## Tokens other than braces -/

/-- Whether a brace closes in front of the pieces. -/
def closesAhead (pieces : List Piece) : Bool := pieceAt pieces 0 (·.isSymbol "\x7d")

/-- Whether the piece is a brace, or a comma in front of a closing one. -/
def Piece.isFraming (piece : Piece) (rest : List Piece) : Bool :=
  piece.isSymbol "\x7b" || piece.isSymbol "\x7d" || (piece.isSymbol "," && closesAhead rest)

/-- The pieces without braces, and without the commas that closing braces follow. -/
def withoutFraming : List Piece → List Piece
  | [] => []
  | piece :: rest =>
    if piece.isFraming rest then withoutFraming rest else piece :: withoutFraming rest

/-- The words that printing writes in small letters. -/
def Vocabulary.lowered : List Text :=
  ["class", "interface", "enum", "extends", "implements", "void", "static", "get", "set", "if",
    "else", "while", "for", "try", "catch", "finally", "return", "throw", "break", "continue",
    "this", "super", "new", "instanceof"].map String.toList

/-- The second piece is what the first is printed as: the same token, or a keyword in small
letters. -/
structure Piece.KeptAs (source printed : Piece) : Prop where
  kind : source.kind = printed.kind
  text : printed.text = source.text ∨
    source.kind = .word ∧ printed.text = source.text.lower ∧ printed.text ∈ Vocabulary.lowered

namespace Piece

theorem Matches.keptAs {source printed : Piece} (h : source.Matches printed) :
    source.KeptAs printed := by
  have hlowered : ∀ word ∈ Vocabulary.printed, word ∈ Vocabulary.lowered := by decide
  refine ⟨h.kind, h.text.imp Eq.symm ?_⟩
  exact fun ⟨hkind, htext, hmem⟩ => ⟨hkind, htext, hlowered _ hmem⟩

theorem keptAs_keyword {piece : Piece} {text : Text} (h : piece.isWord text = true)
    (hsoft : text ∈ Vocabulary.softKeywords) : piece.KeptAs (.word text) := by
  have hlowered : ∀ word ∈ Vocabulary.softKeywords,
      word ∈ Vocabulary.lowered ∧ word.lower = word := by decide
  obtain ⟨hkind, htext⟩ := isWord_iff.1 h
  obtain ⟨hmem, hlower⟩ := hlowered text hsoft
  exact ⟨hkind, .inr ⟨hkind, by rw [htext, hlower]; rfl, hmem⟩⟩

theorem KeptAs.isSymbol {source printed : Piece} (h : source.KeptAs printed) (text : Text) :
    source.isSymbol text = printed.isSymbol text := by
  unfold Piece.isSymbol
  rcases h.text with htext | ⟨hword, -, -⟩
  · rw [h.kind, htext]
  · rw [← h.kind, hword]
    rfl

end Piece

/-- Pieces of the source are kept as the printed ones, up to braces. -/
abbrev Kept (source printed : List Piece) : Prop :=
  List.Forall₂ Piece.KeptAs (withoutFraming source) (withoutFraming printed)

theorem kept_cons {piece other : Piece} {rest f : List Piece} (h : piece.KeptAs other)
    (hrest : Kept rest f)
    (hcomma : piece.isSymbol "," = false ∨ closesAhead rest = closesAhead f) :
    Kept (piece :: rest) (other :: f) := by
  have hframing : piece.isFraming rest = other.isFraming f := by
    unfold Piece.isFraming
    rw [← h.isSymbol, ← h.isSymbol, ← h.isSymbol]
    rcases hcomma with hcomma | hcloses
    · rw [hcomma]
      rfl
    · rw [hcloses]
  unfold Kept withoutFraming
  rw [hframing]
  split
  · exact hrest
  · exact .cons h hrest

/-- A row is kept in front of pieces that are, unless it ends with a comma that is kept in one place
only. -/
theorem kept_append {taken printed rest f : List Piece}
    (h : List.Forall₂ Piece.KeptAs taken printed) (hrest : Kept rest f)
    (hcloses : (∃ last ∈ taken.getLast?, last.isSymbol "," = false) ∨
      closesAhead rest = closesAhead f) :
    Kept (taken ++ rest) (printed ++ f) ∧
      closesAhead (taken ++ rest) = closesAhead (printed ++ f) := by
  induction h with
  | nil =>
    refine ⟨hrest, hcloses.resolve_left ?_⟩
    rintro ⟨last, hlast, -⟩
    cases hlast
  | @cons piece other taken printed hpiece htail ih =>
    refine ⟨?_, hpiece.isSymbol _⟩
    cases htail with
    | nil =>
      -- only the last piece looks at what stands behind the row
      refine kept_cons hpiece hrest (hcloses.imp_left ?_)
      rintro ⟨last, ⟨⟩, hlast⟩
      exact hlast
    | cons =>
      obtain ⟨hkept, hsame⟩ := ih hcloses
      exact kept_cons hpiece hkept (.inr hsame)

/-! ## Modifiers -/

/-- What is enclosed ends with the closing symbol. -/
theorem enclosedPieces_last {opening closing : Text} {depth : Nat} {pieces : List Piece}
    (h : enclosedPieces opening closing depth pieces = some pieces) (hdepth : depth ≠ 0) :
    ∃ last ∈ pieces.getLast?, last.isSymbol closing = true := by
  induction pieces generalizing depth with
  | nil => cases h
  | cons piece rest ih =>
    rw [enclosedPieces] at h
    by_cases hzero : depthAfter opening closing depth piece = 0
    · rw [if_pos hzero] at h
      obtain rfl : [] = rest := (List.cons.inj (Option.some.inj h)).2
      refine ⟨piece, rfl, ?_⟩
      unfold depthAfter at hzero
      split at hzero
      · cases hzero
      · split at hzero
        · assumption
        · exact absurd hzero hdepth
    · rw [if_neg hzero] at h
      obtain ⟨inside, hinside, heq⟩ := Option.map_eq_some_iff.1 h
      obtain ⟨-, rfl⟩ := List.cons.inj heq
      obtain ⟨last, hlast, hclosing⟩ := ih hinside hzero
      exact ⟨last, by rw [List.getLast?_cons, Option.mem_def.1 hlast]; rfl, hclosing⟩

/-- Arguments end with the parenthesis that closes them. -/
theorem IsArguments.last {arguments : List Piece} (h : IsArguments arguments)
    (hne : arguments ≠ []) : ∃ last ∈ arguments.getLast?, last.isSymbol ")" = true := by
  obtain ⟨hfirst, henclosed⟩ := h.resolve_left hne
  obtain ⟨first, inside, rfl, hopen⟩ := Grammar.pieceAt_zero_true hfirst
  have hdepth : depthAfter "(" ")" 0 first = 1 := if_pos hopen
  rw [enclosedPieces, hdepth, if_neg Nat.one_ne_zero] at henclosed
  obtain ⟨taken, hinside, heq⟩ := Option.map_eq_some_iff.1 henclosed
  obtain ⟨-, rfl⟩ := List.cons.inj heq
  obtain ⟨last, hlast, hclosing⟩ := enclosedPieces_last hinside Nat.one_ne_zero
  exact ⟨last, by rw [List.getLast?_cons, Option.mem_def.1 hlast]; rfl, hclosing⟩

/-- No annotation ends with a comma. -/
theorem IsAnnotation.last {pieces arguments : List Piece} {names : List Text}
    (h : IsAnnotation pieces names arguments) :
    ∃ last ∈ pieces.getLast?, last.isSymbol "," = false := by
  obtain ⟨mark, row, rfl, hmark, hrow⟩ := h.row
  by_cases hne : arguments = []
  · subst hne
    -- then it ends with its mark or in its name
    have hplain : ∀ piece ∈ mark :: row, piece.isSymbol "," = false := by
      have hfirst : mark.isSymbol "," = false := Piece.isSymbol_eq_false hmark (by decide)
      refine List.forall_mem_cons.2 ⟨hfirst, fun piece hpiece => ?_⟩
      obtain ⟨other, hother, hsame⟩ := exists_of_mem_forall₂ hrow.flip hpiece
      have hcomma : other.isSymbol "," = false := by
        rcases mem_rowsBy hother with rfl | ⟨_, hname, hmem⟩
        · rfl
        · obtain ⟨name, -, rfl⟩ := List.mem_map.1 hname
          obtain rfl := List.mem_singleton.1 hmem
          rfl
      exact (hsame.matches.isSymbol ",").trans hcomma
    rw [List.append_nil]
    exact ⟨_, List.getLast?_eq_some_getLast (List.cons_ne_nil _ _), hplain _ (List.getLast_mem _)⟩
  · obtain ⟨last, hlast, hclosing⟩ := h.balanced.last hne
    refine ⟨last, ?_, Piece.isSymbol_eq_false hclosing (by decide)⟩
    rw [← List.cons_append, List.getLast?_append_of_ne_nil _ hne]
    exact hlast

/-- No modifier ends with a comma. -/
theorem Modified.last {taken : List Piece} {value : Modifier} (h : Modified taken value) :
    ∃ last ∈ taken.getLast?, last.isSymbol "," = false := by
  cases h with
  | @keyword piece hword =>
    obtain ⟨word, -, hpiece⟩ := List.any_eq_true.1 hword
    exact ⟨piece, rfl, Piece.isSymbol_of_word (Piece.isWord_iff.1 hpiece).1 _⟩
  | @sharing mode sharing _ hsharing =>
    exact ⟨sharing, rfl, Piece.isSymbol_of_word (Piece.isWord_iff.1 hsharing).1 _⟩
  | annotation hmade => exact hmade.last

/-! ## Parts -/

/-- What is printed keeps the source, if its modifiers are kept. -/
theorem Yields.kept {asks gives : Bool} {source rest f : List Piece} {parts : List Part}
    (h : Yields asks gives source rest parts)
    (hmodifiers : ∀ value taken behind, .modifier value ∈ parts →
      ModifierAt source taken behind value → SameAll taken (Modifier.pieces value))
    (hrest : Kept rest f) (hcloses : asks = true → closesAhead rest = closesAhead f) :
    Kept source (spell parts ++ f) ∧
      (gives = true → closesAhead source = closesAhead (spell parts ++ f)) := by
  -- what stands behind the parts is kept already, so both sides grow at their front
  induction h generalizing f with
  | nil => exact ⟨hrest, hcloses⟩
  | row hprinted =>
    obtain ⟨taken, rfl, hmatch⟩ := hprinted.matched
    have hboth := kept_append (hmatch.imp fun _ _ => Piece.Matches.keptAs) hrest (.inr (hcloses rfl))
    exact ⟨hboth.1, fun _ => hboth.2⟩
  | @one piece printed rest hmatch hcomma _ =>
    have hboth := kept_append (.cons hmatch.keptAs .nil) hrest (.inl ⟨piece, rfl, hcomma⟩)
    exact ⟨hboth.1, fun _ => hboth.2⟩
  | @keyword piece text rest hword hsoft =>
    have hcomma := Piece.isSymbol_of_word (Piece.isWord_iff.1 hword).1 ","
    have hboth := kept_append (.cons (Piece.keptAs_keyword hword hsoft) .nil) hrest
      (.inl ⟨piece, rfl, hcomma⟩)
    exact ⟨hboth.1, fun _ => hboth.2⟩
  | @modifier taken rest value hmade hreads =>
    have hsame := hmodifiers value taken rest List.mem_cons_self ⟨List.suffix_refl _, hmade, hreads⟩
    have hboth := kept_append (hsame.imp fun _ _ hpair => hpair.matches.keptAs) hrest
      (.inl hmade.last)
    rw [spell_cons, spell_nil, List.append_nil]
    exact ⟨hboth.1, fun _ => hboth.2⟩
  | @braces gives source rest parts _ ih =>
    -- the braces stand on the printed side only, and the body does not ask what follows it
    have hclosed : Kept rest (.symbol "\x7d" :: f) := hrest
    have hbody := (ih (fun value taken behind hvalue => hmodifiers value taken behind
      (by simp [blockParts, hvalue])) hclosed (by simp)).1
    have hspell : spell (blockParts [parts]) ++ f =
        .symbol "\x7b" :: (spell parts ++ .symbol "\x7d" :: f) := by
      simp [blockParts, Part.symbol, Part.pieces]
    rw [hspell]
    exact ⟨hbody, by simp⟩
  | @comma piece rest hcomma hnext =>
    -- the comma stands in the source only
    refine ⟨?_, by simp⟩
    have hframing : piece.isFraming rest = true := by
      unfold Piece.isFraming closesAhead
      rw [hcomma, hnext, Bool.and_self, Bool.or_true]
    unfold Kept
    rw [withoutFraming, if_pos hframing]
    exact hrest
  | relax _ hless hmore ih =>
    have hboth := ih hmodifiers hrest fun hasks => hcloses (hless hasks)
    exact ⟨hboth.1, fun hgives => hboth.2 (hmore hgives)⟩
  | append hfirst _ ih ih' =>
    obtain ⟨front, rfl⟩ := hfirst.suffix
    have hmiddle := ih' (fun value taken behind hvalue hat => hmodifiers value taken behind
      (List.mem_append_right _ hvalue) (hat.of_suffix (List.suffix_append _ _))) hrest hcloses
    rw [spell_append, List.append_assoc]
    exact ih (fun value taken behind hvalue => hmodifiers value taken behind
      (List.mem_append_left _ hvalue)) hmiddle.1 hmiddle.2

/-! ## Annotations -/

/-- The classes and texts of the tokens. -/
def TokenStream.contents (stream : TokenStream) : List (TokenKind × Text) :=
  stream.tokens.map fun token => (token.kind, token.text)

/-- Pieces are the same tokens when they have the same classes and texts. -/
theorem sameAll_of_contents {first second : List Piece}
    (h : first.map (fun piece => (piece.kind, piece.text)) =
      second.map fun piece => (piece.kind, piece.text)) : SameAll first second := by
  have hpairs : List.Forall₂ (· = ·) _ _ := List.forall₂_eq_eq_eq ▸ h
  refine (List.forall₂_map_left_iff.1 (List.forall₂_map_right_iff.1 hpairs)).imp ?_
  intro piece other heq
  exact ⟨congrArg Prod.fst heq, congrArg Prod.snd heq⟩

theorem TokenStream.contents_eq (stream : TokenStream) :
    stream.contents = stream.pieces.map fun piece => (piece.kind, piece.text) := by
  unfold contents pieces
  rw [List.map_map]
  rfl

/-- The text of every annotation of the tree is cut into the tokens that the annotation was read
from. -/
def Text.AnnotationsKept (source : Text) : Prop :=
  ∀ stream unit, TokenStream.ofSource source = .ok stream → parseUnit source = .ok unit →
    ∀ value, .modifier value ∈ unit.parts → ∀ start rest,
      Grammar.annotation (stream.skip start) = .ok value rest → ∃ again,
        TokenStream.ofSource value = .ok again ∧
          (stream.skip start).contents = again.contents ++ rest.contents

/-- Whether the annotation that comes next, if there is one, is cut into the tokens that it was read
from. -/
def TokenStream.keepsAnnotation (stream : TokenStream) : Bool :=
  match Grammar.annotation stream with
  | .ok value rest =>
    (ofSource value).toOption.any fun again => stream.contents == again.contents ++ rest.contents
  | .error _ _ => true

/-- An annotation is read only where a token stands. -/
theorem Grammar.lt_of_annotation {stream rest : TokenStream} {start : Nat} {value : Modifier}
    (h : annotation (stream.skip start) = .ok value rest) : start < stream.tokens.length := by
  obtain ⟨pieces, names, arguments, hmade, -, hpieces, -⟩ := annotation_ok h
  obtain ⟨mark, row, rfl, -⟩ := hmade.row
  by_contra hend
  have hnothing : (stream.skip start).pieces = [] := by
    rw [TokenStream.pieces_skip]
    unfold TokenStream.pieces
    rw [List.drop_eq_nil_iff, List.length_map]
    omega
  rw [hnothing] at hpieces
  cases hpieces

/-- It is enough to look at every place of the source. -/
theorem Text.annotationsKept_of_all {source : Text}
    (h : (TokenStream.ofSource source).toOption.all (fun stream =>
      (List.range stream.tokens.length).all fun start =>
        TokenStream.keepsAnnotation (stream.skip start))) :
    source.AnnotationsKept := by
  intro stream unit hstream _ value _ start rest hrun
  rw [hstream] at h
  have hstart := List.mem_range.2 (Grammar.lt_of_annotation hrun)
  have hkeeps : TokenStream.keepsAnnotation (stream.skip start) = true :=
    List.all_eq_true.1 h start hstart
  unfold TokenStream.keepsAnnotation at hkeeps
  rw [hrun] at hkeeps
  dsimp only at hkeeps
  cases hagain : TokenStream.ofSource value with
  | error =>
    rw [hagain] at hkeeps
    cases hkeeps
  | ok again =>
    rw [hagain] at hkeeps
    exact ⟨again, rfl, beq_iff_eq.1 hkeeps⟩

/-- What is read as a modifier at its mark is an annotation. -/
theorem Grammar.annotation_of_modifier {source rest : TokenStream} {value : Modifier}
    (hmark : pieceAt source.pieces 0 (·.isSymbol "@") = true)
    (h : modifier source = .ok (some value) rest) : annotation source = .ok value rest := by
  unfold modifier at h
  rw [Reader.bind_of_ok (Reader.get_run source)] at h
  simp only [TokenStream.symbolAt_eq, hmark, if_true] at h
  obtain ⟨text, final, htext, h⟩ := Reader.bind_eq_ok.1 h
  cases h
  exact htext

section Annotations

variable {source : Text} {stream : TokenStream} {unit : CompilationUnit} {taken behind : List Piece}
  {value : Modifier}

/-- The tokens of an annotation are those of its text. -/
theorem Text.AnnotationsKept.sameAll (h : source.AnnotationsKept)
    (hstream : TokenStream.ofSource source = .ok stream) (hunit : parseUnit source = .ok unit)
    (hvalue : .modifier value ∈ unit.parts) (hat : ModifierAt stream.pieces taken behind value)
    {names : List Text} {arguments : List Piece} (hmade : IsAnnotation taken names arguments) :
    ∃ again, TokenStream.ofSource value = .ok again ∧ SameAll taken again.pieces := by
  obtain ⟨front, hfront⟩ := hat.suffix
  have hpieces : (stream.skip front.length).pieces = taken ++ behind := by
    rw [TokenStream.pieces_skip, ← hfront, List.drop_left]
  have hmark : pieceAt (stream.skip front.length).pieces 0 (·.isSymbol "@") = true := by
    obtain ⟨mark, row, rfl, hmark, -⟩ := hmade.row
    rw [hpieces]
    exact hmark
  have hrun := Grammar.annotation_of_modifier hmark (hat.reads _ _ (Nat.lt_succ_self _) hpieces)
  obtain ⟨again, hagain, hcontents⟩ := h stream unit hstream hunit value hvalue _ _ hrun
  refine ⟨again, hagain, sameAll_of_contents ?_⟩
  rw [TokenStream.contents_eq, TokenStream.contents_eq, TokenStream.contents_eq,
    TokenStream.pieces_skip_append hpieces, hpieces, List.map_append] at hcontents
  exact List.append_cancel_right hcontents

/-- Then no comment begins between the arguments of an annotation. -/
theorem Text.AnnotationsKept.apart (h : source.AnnotationsKept)
    (hstream : TokenStream.ofSource source = .ok stream) (hunit : parseUnit source = .ok unit)
    (hvalue : .modifier value ∈ unit.parts) (hat : ModifierAt stream.pieces taken behind value)
    {names : List Text} {arguments : List Piece} (hmade : IsAnnotation taken names arguments) :
    Apart arguments := by
  obtain ⟨again, hagain, hsame⟩ := h.sameAll hstream hunit hvalue hat hmade
  have hlexeme : ∀ piece ∈ taken, piece.Lexeme := fun piece hpiece =>
    TokenStream.lexeme_of_ofSource hstream piece (hat.within.mem hpiece)
  rw [hat.made.eq_closePieces] at hagain
  have hapart := apart_of_scan hlexeme hagain (closePieces_same hsame).symm
  obtain ⟨mark, row, rfl, -⟩ := hmade.row
  exact hapart.infix ⟨mark :: row, [], by simp⟩

/-- The modifiers of a source are kept, if its annotations are. -/
theorem Text.AnnotationsKept.modifiers (h : source.AnnotationsKept)
    (hstream : TokenStream.ofSource source = .ok stream) (hunit : parseUnit source = .ok unit)
    (hvalue : .modifier value ∈ unit.parts) (hat : ModifierAt stream.pieces taken behind value) :
    SameAll taken (Modifier.pieces value) := by
  have hlexeme : ∀ piece ∈ taken, piece.Lexeme := fun piece hpiece =>
    TokenStream.lexeme_of_ofSource hstream piece (hat.within.mem hpiece)
  obtain ⟨again, -, hspelled, hsame | ⟨names, arguments, hmade, -⟩⟩ :=
    hat.made.exists_spelled hlexeme fun _ _ => h.apart hstream hunit hvalue hat
  · rw [hspelled.modifierPieces]
    exact hsame
  · obtain ⟨found, hfound, hsame⟩ := h.sameAll hstream hunit hvalue hat hmade
    unfold Modifier.pieces
    rw [hfound]
    exact hsame

end Annotations

/-! ## Sources -/

/-- What a unit is printed as, with a newline behind it, is cut into the pieces of parts that yield
the source. -/
theorem CompilationUnit.laidOut {source body : Text} {settings : Settings} {unit : CompilationUnit}
    {stream : TokenStream} (hstrings : source.StringsOnOneLine)
    (hstream : TokenStream.ofSource source = .ok stream) (hunit : parseUnit source = .ok unit)
    (hbody : unit.render { settings } = .ok body)
    (hapart : ∀ value taken behind, .modifier value ∈ unit.parts →
      ModifierAt stream.pieces taken behind value → ∀ names arguments,
        IsAnnotation taken names arguments → Apart arguments) :
    LaidOut false true stream.pieces [] unit.parts body ∧ ∃ printed,
      TokenStream.ofSource (body ++ ['\n']) = .ok printed ∧ printed.pieces = spell unit.parts := by
  obtain ⟨_, final, hsame, hrun, hend⟩ := Grammar.readSource_eq_ok.1 hunit
  obtain rfl := Except.ok.inj (hstream.symm.trans hsame)
  have hnothing : final.pieces = [] := by
    unfold TokenStream.pieces
    rw [hend, List.map_nil]
  have hplays : PlaysAlone 0 Grammar.compilationUnit stream.pieces final.pieces unit.parts
      unit.brace := Grammar.plays_compilationUnit hrun
  have hlaid := hplays.laidOut hstream hstrings hapart (CompilationUnit.noQuery_of_render hbody)
    fun hclean => unit.declaration.prints { settings } body hclean hbody
  have hnewline : ∀ c ∈ ['\n'], Text.isBlank c = true := List.forall_mem_singleton.2 (by decide)
  exact ⟨hnothing ▸ hlaid, hlaid.spelled.ofSource hnewline⟩

/-- Formatting keeps every token in its place, up to braces, commas in front of closing braces, and
keywords in small letters. -/
theorem format_code {source output : Text} {settings : Settings}
    (hstrings : source.StringsOnOneLine) (hkept : source.AnnotationsKept)
    (h : format settings source = .ok output) :
    ∃ stream printed, TokenStream.ofSource source = .ok stream ∧
      TokenStream.ofSource output = .ok printed ∧
      List.Forall₂ Piece.KeptAs (withoutFraming stream.pieces) (withoutFraming printed.pieces) := by
  obtain ⟨unit, body, hunit, hbody, rfl⟩ := format_eq_ok.1 h
  obtain ⟨stream, -, hstream, -⟩ := Grammar.readSource_eq_ok.1 hunit
  obtain ⟨hlaid, printed, hprinted, hpieces⟩ := CompilationUnit.laidOut hstrings hstream hunit hbody
    fun _ _ _ hvalue hat _ _ => hkept.apart hstream hunit hvalue hat
  refine ⟨stream, printed, hstream, hprinted, ?_⟩
  have hall : Kept stream.pieces (spell unit.parts ++ []) :=
    (hlaid.yields.kept (fun _ _ _ => hkept.modifiers hstream hunit) .nil (by simp)).1
  rw [hpieces]
  rwa [List.append_nil] at hall

/-- Keywords in capitals, a body without braces, and a comma behind the last constant. -/
theorem format_code_comma :
    Text.StringsOnOneLine "@A(1,x)CLASS B\x7bENUM C\x7bD,\x7dstatic\x7bIF(a)b();\x7d\x7d" ∧
      Text.AnnotationsKept "@A(1,x)CLASS B\x7bENUM C\x7bD,\x7dstatic\x7bIF(a)b();\x7d\x7d" ∧
      ∃ output,
        format {} "@A(1,x)CLASS B\x7bENUM C\x7bD,\x7dstatic\x7bIF(a)b();\x7d\x7d" = .ok output ∧
        ∃ stream printed, TokenStream.ofSource
            "@A(1,x)CLASS B\x7bENUM C\x7bD,\x7dstatic\x7bIF(a)b();\x7d\x7d" = .ok stream ∧
          TokenStream.ofSource output = .ok printed ∧ List.Forall₂ Piece.KeptAs
            (withoutFraming stream.pieces) (withoutFraming printed.pieces) := by
  have hstrings : Text.StringsOnOneLine
      "@A(1,x)CLASS B\x7bENUM C\x7bD,\x7dstatic\x7bIF(a)b();\x7d\x7d" := by decide +kernel
  have hkept : Text.AnnotationsKept
      "@A(1,x)CLASS B\x7bENUM C\x7bD,\x7dstatic\x7bIF(a)b();\x7d\x7d" :=
    Text.annotationsKept_of_all (by decide +kernel)
  have hformat : format {} "@A(1,x)CLASS B\x7bENUM C\x7bD,\x7dstatic\x7bIF(a)b();\x7d\x7d" = .ok
      ("@A(1,x) class B \x7b\n\tenum C \x7bD\x7d\n\tstatic \x7b\n\t\tif (a) \x7b\n".toList ++
        "\t\t\tb();\n\t\t\x7d\n\t\x7d\n\x7d\n".toList) := by decide +kernel
  exact ⟨hstrings, hkept, _, hformat, format_code hstrings hkept hformat⟩

/-! ## Strings -/

/-- The strings of a text: from a quote to the one that closes it, and on behind it. -/
def Text.strings : Text → List Text
  | [] => []
  | c :: rest =>
    if c = '\x27' then
      match Scan.stringTail 0 rest with
      | some size => (c :: rest.take size) :: Text.strings (rest.drop size)
      | none => Text.strings rest
    else Text.strings rest
termination_by text => text.length

/-- The strings among pieces. -/
def stringsOf (pieces : List Piece) : List Text :=
  (pieces.filter (·.kind == .string)).map Piece.text

@[simp] theorem stringsOf_append (first second : List Piece) :
    stringsOf (first ++ second) = stringsOf first ++ stringsOf second := by
  unfold stringsOf
  rw [List.filter_append, List.map_append]

theorem stringsOf_cons (piece : Piece) (rest : List Piece) :
    stringsOf (piece :: rest) =
      (if piece.kind = .string then [piece.text] else []) ++ stringsOf rest := by
  unfold stringsOf
  by_cases hkind : piece.kind = .string <;> simp [hkind]

/-- Text without a quote has no strings of its own. -/
theorem Text.strings_append {gap : Text} (h : '\x27' ∉ gap) (rest : Text) :
    Text.strings (gap ++ rest) = Text.strings rest := by
  induction gap with
  | nil => rfl
  | cons c gap ih =>
    rw [List.mem_cons, not_or] at h
    rw [List.cons_append, Text.strings, if_neg (Ne.symm h.1), ih h.2]

/-- No token but a string holds a quote. -/
theorem Piece.Lexeme.not_quote {piece : Piece} (h : piece.Lexeme) (hkind : piece.kind ≠ .string) :
    '\x27' ∉ piece.text := by
  have hsymbols : ∀ symbol ∈ Scan.symbols, '\x27' ∉ symbol := by decide
  obtain ⟨c, tail, htext, hlexeme⟩ := h
  have hsize : tail.take tail.length = tail := tail.take_length
  rw [htext, List.mem_cons, not_or]
  rcases Scan.lexeme_cases hlexeme with ⟨-, hstart, hword⟩ | ⟨-, -, hdigit, hnumber⟩ |
    ⟨hstring, -⟩ | ⟨hsymbol, -⟩
  · rw [hword] at hsize
    refine ⟨by rintro rfl; exact absurd hstart (by decide), fun hmem => ?_⟩
    exact absurd (Scan.mem_take_run (hsize.symm ▸ hmem)) (by decide)
  · rw [hnumber] at hsize
    refine ⟨by rintro rfl; exact absurd hdigit (by decide), fun hmem => ?_⟩
    exact absurd (Scan.mem_take_number (hsize.symm ▸ hmem)) (by decide)
  · exact absurd hstring hkind
  · have hmem := Piece.Lexeme.symbol_mem ⟨c, tail, htext, hlexeme⟩ hsymbol
    have hnone := hsymbols _ hmem
    rwa [htext, List.mem_cons, not_or] at hnone

/-- The strings of a text that begins with a token. -/
theorem Piece.Lexeme.strings {piece : Piece} (h : piece.Lexeme) (rest : Text) :
    Text.strings (piece.text ++ rest) = stringsOf [piece] ++ Text.strings rest := by
  by_cases hkind : piece.kind = .string
  · obtain ⟨c, tail, htext, hlexeme⟩ := h
    rw [hkind] at hlexeme
    rcases Scan.lexeme_cases hlexeme with ⟨hword, -⟩ | ⟨hnumber, -⟩ | ⟨-, rfl, hsize⟩ | ⟨hsymbol, -⟩
    · cases hword
    · cases hnumber
    · have hstrings : stringsOf [piece] = ['\x27' :: tail] := by simp [stringsOf, hkind, htext]
      rw [hstrings, htext, List.cons_append, Text.strings, if_pos rfl,
        Scan.stringTail_append rest hsize]
      simp
    · cases hsymbol
  · rw [Text.strings_append (h.not_quote hkind)]
    simp [stringsOf, hkind]

/-- Tokens that are put close together have the strings among them. -/
theorem strings_closePieces {pieces : List Piece} (h : ∀ piece ∈ pieces, piece.Lexeme) :
    Text.strings (closePieces pieces) = stringsOf pieces := by
  induction pieces with
  | nil => simp [closePieces, Text.strings, stringsOf]
  | cons first rest ih =>
    obtain ⟨hfirst, hrest⟩ := List.forall_mem_cons.1 h
    have hgap : Text.strings (closeRest first rest) = Text.strings (closePieces rest) := by
      cases rest with
      | nil => rfl
      | cons second others =>
        refine Text.strings_append (fun hmem => ?_) _
        exact absurd (blank_closeGap first second _ hmem) (by decide)
    rw [closePieces_cons, hfirst.strings, hgap, ih hrest, ← stringsOf_append]
    rfl

/-- A modifier has the strings of the tokens that it was made from. -/
theorem Modified.stringsOf_eq {taken : List Piece} {value : Modifier} (h : Modified taken value)
    (hlexeme : ∀ piece ∈ taken, piece.Lexeme)
    (hagain : Modified (Modifier.pieces value) value) :
    stringsOf taken = stringsOf (Modifier.pieces value) := by
  have hpieces : ∀ piece ∈ Modifier.pieces value, piece.Lexeme := by
    unfold Modifier.pieces
    split
    case h_1 stream hstream => exact TokenStream.lexeme_of_ofSource hstream
    case h_2 => exact List.forall_mem_nil _
  rw [← strings_closePieces hlexeme, ← strings_closePieces hpieces, ← h.eq_closePieces,
    ← hagain.eq_closePieces]

theorem MatchAll.stringsOf_eq {taken printed : List Piece} (h : MatchAll taken printed) :
    stringsOf taken = stringsOf printed := by
  induction h with
  | nil => rfl
  | @cons piece other taken printed hpiece _ ih =>
    rw [stringsOf_cons, stringsOf_cons, ih, hpiece.kind]
    by_cases hkind : other.kind = .string
    · rw [if_pos hkind, if_pos hkind, (hpiece.same_of_kind (by rw [hkind]; decide)).text]
    · rw [if_neg hkind, if_neg hkind]

/-- What is printed has the strings of the source. -/
theorem Yields.stringsOf_eq {asks gives : Bool} {source rest : List Piece} {parts : List Part}
    (h : Yields asks gives source rest parts) (hlexeme : ∀ piece ∈ source, piece.Lexeme)
    (hrereads : Rereads parts) : stringsOf source = stringsOf (spell parts) ++ stringsOf rest := by
  induction h with
  | nil => rfl
  | row hprinted =>
    obtain ⟨taken, rfl, hmatch⟩ := hprinted.matched
    rw [stringsOf_append, hmatch.stringsOf_eq]
  | @one piece printed rest hmatch _ _ =>
    have hone := MatchAll.stringsOf_eq (.cons hmatch .nil)
    rw [← List.singleton_append, stringsOf_append, hone]
    rfl
  | @keyword piece text rest hword _ =>
    -- a keyword, a brace and a comma are no strings, so what is added or dropped does not count
    have hkind := (Piece.isWord_iff.1 hword).1
    simp [stringsOf, Part.word, Part.pieces, Piece.word, hkind]
  | @modifier taken rest value hmade _ =>
    have htaken : ∀ piece ∈ taken, piece.Lexeme :=
      fun piece hpiece => hlexeme piece (List.mem_append_left _ hpiece)
    have hsame := hmade.stringsOf_eq htaken (hrereads value List.mem_cons_self)
    rw [stringsOf_append, hsame, spell_cons, spell_nil, List.append_nil]
    rfl
  | @braces gives source rest parts _ ih =>
    have hbody := ih hlexeme fun modifier hmem => hrereads modifier (by simp [blockParts, hmem])
    have hspell : spell (blockParts [parts]) =
        [.symbol "\x7b"] ++ spell parts ++ [.symbol "\x7d"] := by
      simp [blockParts, Part.symbol, Part.pieces]
    rw [hspell, stringsOf_append, stringsOf_append, hbody]
    simp [stringsOf, Piece.symbol]
  | @comma piece rest hcomma _ =>
    have hkind := (Piece.isSymbol_iff.1 hcomma).1
    simp [stringsOf, hkind]
  | relax _ _ _ ih => exact ih hlexeme hrereads
  | append hfirst _ ih ih' =>
    obtain ⟨hparts, hmore⟩ := rereads_append.1 hrereads
    have hmiddle := ih' (fun piece hpiece => hlexeme piece (hfirst.mem_of_mem hpiece)) hmore
    rw [ih hlexeme hparts, hmiddle, spell_append, stringsOf_append, List.append_assoc]

/-- The strings of a source. -/
def TokenStream.strings (stream : TokenStream) : List Text :=
  (stream.tokens.filter (·.kind == .string)).map Token.text

theorem TokenStream.strings_eq (stream : TokenStream) : stream.strings = stringsOf stream.pieces := by
  unfold strings stringsOf pieces
  rw [List.filter_map, List.map_map]
  rfl

/-- Formatting keeps every string, if none holds a newline and no comment begins in an annotation. -/
theorem format_strings {source output : Text} {settings : Settings}
    (hstrings : source.StringsOnOneLine) (hapart : source.AnnotationsApart)
    (h : format settings source = .ok output) :
    ∃ stream printed, TokenStream.ofSource source = .ok stream ∧
      TokenStream.ofSource output = .ok printed ∧ printed.strings = stream.strings := by
  obtain ⟨unit, body, hunit, hbody, rfl⟩ := format_eq_ok.1 h
  obtain ⟨stream, -, hstream, -⟩ := Grammar.readSource_eq_ok.1 hunit
  obtain ⟨hlaid, printed, hprinted, hpieces⟩ := CompilationUnit.laidOut hstrings hstream hunit hbody
    fun _ taken _ _ hat names arguments => hapart stream hstream taken names arguments hat.within
  refine ⟨stream, printed, hstream, hprinted, ?_⟩
  have hall := hlaid.yields.stringsOf_eq (TokenStream.lexeme_of_ofSource hstream) hlaid.rereads
  rw [stream.strings_eq, printed.strings_eq, hpieces, hall]
  exact (List.append_nil _).symm

theorem TokenStream.exists_strings {source : Text} {found : List Text}
    (h : (ofSource source).toOption.map strings = some found) :
    ∃ stream, ofSource source = .ok stream ∧ stream.strings = found := by
  cases hstream : ofSource source with
  | error =>
    rw [hstream] at h
    cases h
  | ok stream =>
    rw [hstream] at h
    exact ⟨stream, rfl, Option.some.inj h⟩

/-- A string with an escaped quote in a field, and one in an annotation. -/
theorem format_strings_quotes :
    Text.StringsOnOneLine "@A(x='p')class B\x7bString s='q\\'r';\x7d" ∧
      Text.AnnotationsApart "@A(x='p')class B\x7bString s='q\\'r';\x7d" ∧
      ∃ output printed, format {} "@A(x='p')class B\x7bString s='q\\'r';\x7d" = .ok output ∧
        TokenStream.ofSource output = .ok printed ∧
        printed.strings = ["'p'", "'q\\'r'"].map String.toList := by
  have hstrings : Text.StringsOnOneLine "@A(x='p')class B\x7bString s='q\\'r';\x7d" := by
    decide +kernel
  have hapart : Text.AnnotationsApart "@A(x='p')class B\x7bString s='q\\'r';\x7d" :=
    Text.annotationsApart_of_apart (by decide +kernel)
  have hformat : format {} "@A(x='p')class B\x7bString s='q\\'r';\x7d" = .ok
      "@A(x='p') class B \x7b\n\tString s = 'q\\'r';\n\x7d\n".toList := by
    decide +kernel
  obtain ⟨source, hsource, hfound⟩ : ∃ stream,
      TokenStream.ofSource "@A(x='p')class B\x7bString s='q\\'r';\x7d" = .ok stream ∧
        stream.strings = ["'p'", "'q\\'r'"].map String.toList :=
    TokenStream.exists_strings (by decide +kernel)
  obtain ⟨stream, printed, hstream, hprinted, hsame⟩ := format_strings hstrings hapart hformat
  obtain rfl := Except.ok.inj (hsource.symm.trans hstream)
  exact ⟨hstrings, hapart, _, printed, hformat, hprinted, hsame.trans hfound⟩

/-- A newline behind a backslash: the line that it begins is indented, within the string. -/
theorem format_strings_newline :
    ∃ stream output printed,
      TokenStream.ofSource "class A\x7bString s='a\\\nb';\x7d" = .ok stream ∧
      format {} "class A\x7bString s='a\\\nb';\x7d" = .ok output ∧
      TokenStream.ofSource output = .ok printed ∧
      stream.strings = ["'a\\\nb'".toList] ∧ printed.strings = ["'a\\\n\tb'".toList] := by
  have hformat : format {} "class A\x7bString s='a\\\nb';\x7d" = .ok
      "class A \x7b\n\tString s = 'a\\\n\tb';\n\x7d\n".toList := by decide +kernel
  obtain ⟨stream, hstream, hsource⟩ : ∃ stream,
      TokenStream.ofSource "class A\x7bString s='a\\\nb';\x7d" = .ok stream ∧
        stream.strings = ["'a\\\nb'".toList] := TokenStream.exists_strings (by decide +kernel)
  obtain ⟨printed, hprinted, houtput⟩ : ∃ stream,
      TokenStream.ofSource "class A \x7b\n\tString s = 'a\\\n\tb';\n\x7d\n" = .ok stream ∧
        stream.strings = ["'a\\\n\tb'".toList] := TokenStream.exists_strings (by decide +kernel)
  exact ⟨stream, _, printed, hstream, hformat, hprinted, hsource, houtput⟩

end ApexLayout
