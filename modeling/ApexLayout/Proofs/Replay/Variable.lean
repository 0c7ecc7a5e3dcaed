import ApexLayout.Grammar.Statement
import ApexLayout.Proofs.Replay.Expression
import ApexLayout.Proofs.Replay.Yield

/-!
Declarations of variables.

Whether a statement declares variables is tried out: it does if modifiers and a type with a name
behind them can be read. What is printed for an expression must fail the same trial as the
expression did. Its first token is no modifier of a declaration, because an expression that begins
with a name and has another name behind it is this first name alone.
-/

namespace ApexLayout

namespace Grammar

variable {bound : Nat} {source rest : TokenStream}

/-! ## A name that stands alone -/

section

variable {name next : Piece} {f : List Piece} (hname : name.isIdentifier = true)
  (hnext : next.continues = true) (hinstance : next.isWord "instanceof" = false)

include hnext in
theorem isSymbol_of_continues {text : Text} (h : text ≠ [ '@' ]) : next.isSymbol text = false := by
  unfold Piece.continues at hnext
  rw [Bool.or_eq_true, beq_iff_eq] at hnext
  rcases hnext with hword | hmark
  · exact Piece.isSymbol_of_word hword text
  · exact Piece.isSymbol_eq_false hmark h.symm

include hnext in
theorem isSymbolIn_of_continues {symbols : List Text} (h : [ '@' ] ∉ symbols) :
    next.isSymbolIn symbols = false := by
  unfold Piece.isSymbolIn
  rw [List.any_eq_false]
  intro text htext
  rw [isSymbol_of_continues hnext fun hmark => h (hmark ▸ htext)]
  decide

include hnext in
/-- No operator begins with a word or with the mark of an annotation. -/
theorem operatorText_of_continues :
    operatorText (next :: f) = none ∨ operatorText (next :: f) = some [ '@' ] := by
  have hgreater : next.isSymbol ">" = false := isSymbol_of_continues hnext (by decide)
  unfold operatorText
  rw [operatorAhead_cons hgreater]
  by_cases hkind : next.kind = .symbol
  · right
    unfold Piece.continues at hnext
    rw [hkind] at hnext
    have hmark : next.isSymbol "@" = true := by simpa using hnext
    rw [if_pos hkind, (Piece.isSymbol_iff.1 hmark).2]
    rfl
  · left
    rw [if_neg hkind]
    rfl

include hnext in
theorem binary_of_continues {stream : TokenStream} (hpieces : stream.pieces = next :: f) :
    Operators.binary? stream = none := by
  have hmap := Operators.binary?_eq stream
  rw [hpieces] at hmap
  rcases operatorText_of_continues hnext (f := f) with hnone | hmark
  · rw [hnone] at hmap
    exact Option.map_eq_none_iff.1 hmap
  · rw [hmark] at hmap
    exact Option.map_eq_none_iff.1 hmap

include hnext in
theorem assignment_of_continues {stream : TokenStream} (hpieces : stream.pieces = next :: f) :
    Operators.assignment? stream = none := by
  have hmap := Operators.assignment?_eq stream
  rw [hpieces] at hmap
  rcases operatorText_of_continues hnext (f := f) with hnone | hmark
  · rw [hnone] at hmap
    exact Option.map_eq_none_iff.1 hmap
  · rw [hmark] at hmap
    exact Option.map_eq_none_iff.1 hmap

include hnext in
theorem reads_named_alone {inner : Grammar Expression} :
    Reads bound (named inner) [name] (next :: f) (.primary (.identifier name.text)) := by
  have hdot : next.isSymbol "." = false := isSymbol_of_continues hnext (by decide)
  have hpath : Reads bound dotBeforePathName [] (next :: f) false := by
    apply reads_skipIf_false
    intro stream hpieces
    rw [dotBeforePathName_eq, hpieces]
    unfold pathName
    rw [pieceAt_zero, hdot, Bool.false_and, Bool.false_and]
  -- no dot follows, so the name is no path
  have hothers : Reads bound (Reader.many (Reader.optional dotBeforePathName takeText)) []
      (next :: f) [] := Reads.many_nil hpath.optional_none
  have hfirst : Reads bound takeText [name] ([] ++ (next :: f)) name.text := reads_takeText
  have hnames : Reads bound (Reader.separated dotBeforePathName takeText) [name]
      ([] ++ (next :: f)) [name.text] := hfirst.bind (hothers.map (name.text :: ·))
  have hclass : Reads bound (look fun stream => stream.symbolAt 0 "." && stream.wordAt 1 "class") []
      (next :: f) false := by
    apply reads_look
    intro stream hpieces
    rw [classAhead_eq, hpieces]
    unfold classAhead
    rw [pieceAt_zero, hdot, Bool.false_and]
  have hcall : Reads bound (atSymbol "(") [] (next :: f) false :=
    reads_atSymbol (isSymbol_of_continues hnext (by decide))
  have hvalue : Reads bound (pure (.primary (.identifier name.text)) : Grammar Expression) []
      (next :: f) _ := Reads.pure _
  refine Reads.bind hnames ?_
  refine Reads.bind_nothing hclass ?_
  exact Reads.bind_nothing hcall hvalue

include hname hnext in
theorem reads_primary_alone {inner : Grammar Expression} :
    Reads bound (primary inner) [name] (next :: f) (.primary (.identifier name.text)) := by
  have hword := Piece.isIdentifier_word hname
  have hreserved : ∀ {word : Text}, word ∈ Vocabulary.reserved → name.isWord word = false :=
    fun h => Piece.isWord_of_identifier hname h
  have hnew : Reads bound (takeWord "new") [] (name :: next :: f) false :=
    reads_takeWord_false (hreserved (by decide))
  have hprimary : Reads bound (wordPrimary inner) [name] (next :: f)
      (.primary (.identifier name.text)) := by
    have hnamed : Reads bound (named inner) [name] (next :: f)
        (.primary (.identifier name.text)) := reads_named_alone hnext
    have hrule : Reads bound (takeWord "new" >>= fun found =>
        if found then creation inner else named inner) [name] (next :: f)
        (.primary (.identifier name.text)) := Reads.bind_nothing hnew hnamed
    refine reads_get ?_ hrule
    intro stream hpieces
    have hliteral : name.isWordIn Vocabulary.literals = false := by
      unfold Piece.isWordIn
      rw [List.any_eq_false]
      intro word hmem
      rw [hreserved ((by decide : ∀ word ∈ Vocabulary.literals, word ∈ Vocabulary.reserved) word
        hmem)]
      decide
    rw [TokenStream.wordInAt_eq, TokenStream.wordAt_eq, TokenStream.wordAt_eq,
      TokenStream.identifierAt_eq, hpieces, List.cons_append, pieceAt_zero, pieceAt_zero,
      pieceAt_zero, pieceAt_zero, hliteral, hreserved (by decide), hreserved (by decide), hname]
    rfl
  refine reads_get ?_ hprimary
  intro stream hpieces
  rw [TokenStream.kindAt_eq stream 0 fun kind => kind == .number || kind == .string,
    TokenStream.kindAt_eq stream 0 fun kind => kind == .word, hpieces, List.cons_append,
    pieceAt_zero, pieceAt_zero, hword]
  rfl

include hname hnext in
theorem reads_unary_alone {inner : Grammar Expression} :
    Reads bound (unary inner) [name] (next :: f) (.primary (.identifier name.text)) := by
  have hword := Piece.isIdentifier_word hname
  have hfront : Reads bound front [] (name :: next :: f) none := by
    have hleading : Reads bound (look (·.symbolInAt 0 Operators.leading)) [] (name :: next :: f)
        false := by
      apply reads_look
      intro stream hpieces
      rw [TokenStream.symbolInAt_eq, hpieces, pieceAt_zero]
      unfold Piece.isSymbolIn
      rw [List.any_eq_false]
      intro text _
      rw [Piece.isSymbol_of_word hword]
      decide
    have hopening : Reads bound (atSymbol "(") [] (name :: next :: f) false :=
      reads_atSymbol (Piece.isSymbol_of_word hword _)
    exact Reads.bind_nothing hleading (Reads.bind_nothing hopening (Reads.pure none))
  -- none of the marks that go on with an operand follows
  have hstep : Reads bound (step inner) [] (next :: f) none := by
    have hdot : Reads bound (takeSymbol ".") [] (next :: f) false :=
      reads_takeSymbol_false (isSymbol_of_continues hnext (by decide))
    have hsafe : Reads bound (takeSymbol "?.") [] (next :: f) false :=
      reads_takeSymbol_false (isSymbol_of_continues hnext (by decide))
    have hindex : Reads bound (takeSymbol "[") [] (next :: f) false :=
      reads_takeSymbol_false (isSymbol_of_continues hnext (by decide))
    have htrailing : Reads bound (look (·.symbolInAt 0 Operators.trailing)) [] (next :: f)
        false := by
      apply reads_look
      intro stream hpieces
      rw [TokenStream.symbolInAt_eq, hpieces, pieceAt_zero]
      exact isSymbolIn_of_continues hnext (by decide)
    exact Reads.bind_nothing hdot (Reads.bind_nothing hsafe (Reads.bind_nothing hindex
      (Reads.bind_nothing htrailing (Reads.pure none))))
  have hsteps : Reads bound (Reader.many (step inner)) [] (next :: f) [] := Reads.many_nil hstep
  have hfirst : Reads bound (primary inner) [name] ([] ++ (next :: f))
      (.primary (.identifier name.text)) := reads_primary_alone hname hnext
  have hstepped : Reads bound (stepped inner) [name] (next :: f)
      (.primary (.identifier name.text)) :=
    hfirst.bind (hsteps.map (List.foldl Step.apply (.primary (.identifier name.text))))
  have hfronts : Reads bound (Reader.many front) [] ([name] ++ (next :: f)) [] :=
    Reads.many_nil hfront
  exact Reads.bind_nothing hfronts (hstepped.map fun operand => List.foldr Front.apply operand [])

include hname hnext hinstance in
/-- A name with a word or an annotation behind it is an expression by itself. -/
theorem reads_expression_alone :
    Reads bound expression [name] (next :: f) (.primary (.identifier name.text)) := by
  refine Reads.recursive (fun bound => ?_) bound
  have hoperation : Reads (bound + 1) (operation (Reader.below bound expression)) [] (next :: f)
      none := by
    have hword : Reads (bound + 1) (takeWord "instanceof") [] (next :: f) false :=
      reads_takeWord_false hinstance
    have hbinary : Reads (bound + 1) (look Operators.binary?) [] (next :: f) none :=
      reads_look fun stream hpieces => binary_of_continues hnext hpieces
    exact Reads.bind_nothing hword (Reads.bind_nothing hbinary (Reads.pure none))
  have houtcomes : Reads (bound + 1) (outcomes (Reader.below bound expression)) [] (next :: f)
      none := by
    have hquestion : Reads (bound + 1) (takeSymbol "?") [] (next :: f) false :=
      reads_takeSymbol_false (isSymbol_of_continues hnext (by decide))
    exact Reads.bind_nothing hquestion (Reads.pure none)
  have hassigned : Reads (bound + 1) (assigned (Reader.below bound expression)) [] (next :: f)
      none := by
    have hlook : Reads (bound + 1) (look Operators.assignment?) [] (next :: f) none :=
      reads_look fun stream hpieces => assignment_of_continues hnext hpieces
    exact Reads.bind_nothing hlook (Reads.pure none)
  -- level by level, each with nothing behind the name
  have hunary : Reads (bound + 1) (unary (Reader.below bound expression)) [name]
      ([] ++ (next :: f)) (.primary (.identifier name.text)) := reads_unary_alone hname hnext
  have hbinary : Reads (bound + 1) (binary (Reader.below bound expression)) [name]
      ([] ++ (next :: f)) (.primary (.identifier name.text)) :=
    hunary.bind ((Reads.many_nil hoperation).map fun row => Operators.assemble _ row)
  have hconditional : Reads (bound + 1) (conditional (Reader.below bound expression)) [name]
      ([] ++ (next :: f)) (.primary (.identifier name.text)) :=
    hbinary.bind ((Reads.many_nil houtcomes).map fun row => choose _ row)
  exact hconditional.bind ((Reads.many_nil hassigned).map fun row => assign _ row)

end

/-! ## The trial -/

theorem isIdentifier_of_modifier {piece : Piece}
    (h : piece.isWordIn (Vocabulary.modifiers ++ Vocabulary.sharingModes) = true) :
    piece.isIdentifier = true := by
  obtain ⟨word, -, hword⟩ := List.any_eq_true.1 h
  unfold Piece.isIdentifier
  rw [(Piece.isWord_iff.1 hword).1, Piece.isWordIn_eq_false h Vocabulary.modifiers_not_reserved]
  rfl

/-- A piece that stands behind a modifier: the next modifier, or an identifier. -/
theorem behind_modifier {piece : Piece} (h : piece.modifies = true ∨ piece.isIdentifier = true) :
    piece.continues = true ∧ piece.isWord "instanceof" = false := by
  have hidentifier : piece.isIdentifier = true →
      piece.continues = true ∧ piece.isWord "instanceof" = false := by
    intro h
    refine ⟨?_, Piece.isWord_of_identifier h (by decide)⟩
    unfold Piece.continues
    rw [Piece.isIdentifier_word h]
    rfl
  rcases h with h | h
  · refine ⟨Piece.continues_of_modifies h, ?_⟩
    unfold Piece.modifies at h
    rw [Bool.or_eq_true] at h
    rcases h with hmark | hword
    · exact Piece.isWord_of_symbol (Piece.isSymbol_iff.1 hmark).1 _
    · exact (hidentifier (isIdentifier_of_modifier hword)).2
  · exact hidentifier h

/-- Where modifiers come in front of an identifier, the first of them is next, or the identifier. -/
theorem modifiers_front {values : List Modifier} (h : modifiers source = .ok values rest)
    (hbehind : pieceAt rest.pieces 0 Piece.isIdentifier = true) :
    ∃ next more, source.pieces = next :: more ∧
      (next.modifies = true ∨ next.isIdentifier = true) := by
  cases Reader.many_eq_ok.1 h with
  | stop hlast =>
    obtain ⟨rfl, -⟩ := modifier_none hlast
    obtain ⟨next, more, hpieces, hnext⟩ := pieceAt_zero_true hbehind
    exact ⟨next, more, hpieces, .inr hnext⟩
  | round hround =>
    obtain ⟨taken, hpieces, hmade, -⟩ := modifier_some hround
    obtain ⟨next, more, rfl, hnext⟩ := hmade.head
    exact ⟨next, _, hpieces, .inl hnext⟩

/-- An expression in front of a piece that continues no name does not print as a modifier with a piece
behind it that may stand there: it would be the name alone, in front of that piece. -/
theorem not_modified_of_expression {value : Expression} {printed : TokenStream}
    {first second : Piece} {others : List Piece} (h : expression source = .ok value rest)
    (hbehind : pieceAt rest.pieces 0 Piece.continues = false)
    (hsimilar : Similar source.pieces printed.pieces)
    (hpieces : printed.pieces = first :: second :: others) (hfirst : first.modifies = true)
    (hsecond : second.modifies = true ∨ second.isIdentifier = true) : False := by
  have hopens := expression_opens h
  rw [hsimilar.first Piece.respects_opens, hpieces, pieceAt_zero] at hopens
  unfold Piece.modifies at hfirst
  rw [Bool.or_eq_true] at hfirst
  rcases hfirst with hmark | hword
  · rw [Piece.isSymbol_of_opens hopens (by decide)] at hmark
    exact absurd hmark (by decide)
  · have hname := isIdentifier_of_modifier hword
    rw [hpieces] at hsimilar
    obtain ⟨name, next, more, hsource, hsameName, hsameNext⟩ :=
      hsimilar.two (Piece.isIdentifier_word hname)
    obtain ⟨hcontinues, hinstance⟩ := behind_modifier hsecond
    rw [← Piece.respects_isIdentifier _ _ hsameName] at hname
    rw [← Piece.respects_continues _ _ hsameNext] at hcontinues
    have hinstance' : next.isWord "instanceof" = false :=
      (Piece.respects_isWord "instanceof" _ _ hsameNext).trans hinstance
    -- the expression is the first name alone, with the second behind it
    have halone := reads_expression_alone (f := more) hname hcontinues hinstance' source
      (Nat.lt_succ_self _) hsource
    rw [h] at halone
    cases halone
    rw [TokenStream.pieces_skip, hsource] at hbehind
    change next.continues = false at hbehind
    rw [hcontinues] at hbehind
    cases hbehind

/-- What is printed for an expression does not begin with modifiers in front of a type, unless the
expression is a name with the declaration behind it. -/
theorem modifiers_of_expression {value : Expression} {printed last : TokenStream}
    {values : List Modifier} (h : expression source = .ok value rest)
    (hbehind : pieceAt rest.pieces 0 Piece.continues = false)
    (hsimilar : Similar source.pieces printed.pieces)
    (hmodifiers : modifiers printed = .ok values last)
    (htype : pieceAt last.pieces 0 Piece.isIdentifier = true) : values = [] ∧ last = printed := by
  cases Reader.many_eq_ok.1 hmodifiers with
  | stop hlast =>
    obtain ⟨rfl, -⟩ := modifier_none hlast
    exact ⟨rfl, rfl⟩
  | round hround _ hothers =>
    obtain ⟨next, more, hmore, hnext⟩ := modifiers_front (Reader.many_eq_ok.2 hothers) htype
    obtain ⟨taken, htaken, hmade, -⟩ := modifier_some hround
    obtain ⟨first, second, others, hfront, hfirst, hsecond⟩ := hmade.front hnext more
    rw [hmore] at htaken
    have hpieces := htaken.trans hfront
    exact (not_modified_of_expression h hbehind hsimilar hpieces hfirst hsecond).elim

/-- Whether modifiers and a type come next, with a name and one of the symbols behind them. -/
def Declares (symbols : List Text) (stream : TokenStream) : Prop :=
  ∃ values middle type last, modifiers stream = .ok values middle ∧ typeRef middle = .ok type last ∧
    (pieceAt last.pieces 0 Piece.isIdentifier && pieceAt last.pieces 1 (·.isSymbolIn symbols)) = true

theorem typeRef_first {type : TypeRef} (h : typeRef source = .ok type rest) :
    pieceAt source.pieces 0 Piece.isIdentifier = true := by
  have h := (Reader.recursive_run typeRefRule source).symm.trans h
  unfold typeRefRule Reader.separated typeName at h
  obtain ⟨_, _, hsegments, -⟩ := Reader.bind_eq_ok.1 h
  obtain ⟨_, _, hsegment, -⟩ := Reader.bind_eq_ok.1 hsegments
  obtain ⟨_, _, hname, -⟩ := Reader.bind_eq_ok.1 hsegment
  obtain ⟨piece, hpieces, hpiece, -⟩ := identifier_ok hname
  rw [hpieces, pieceAt_zero, hpiece]

/-- What is printed for expressions declares a variable only if the source does. -/
theorem declares_transfer {symbols : List Text} {value : Expression} {printed : TokenStream}
    {p q s f : List Piece} (h : expression source = .ok value rest)
    (hbehind : pieceAt rest.pieces 0 Piece.continues = false)
    (hsource : source.pieces = p ++ s) (hprinted : printed.pieces = q ++ f) (hmatch : MatchAll p q)
    (hfence : ∃ piece ∈ q, piece.isFence = true) (hdeclares : Declares symbols printed) :
    Declares symbols source := by
  obtain ⟨values, middle, type, last, hmodifiers, htype, hdeclared⟩ := hdeclares
  have hsimilar : Similar source.pieces printed.pieces := by
    rw [hsource, hprinted]
    exact Similar.of_fence hmatch hfence s f
  obtain ⟨rfl, rfl⟩ :=
    modifiers_of_expression h hbehind hsimilar hmodifiers (typeRef_first htype)
  have hnone := modifiers_end hmodifiers
  rw [← modifierAhead_similar hsimilar] at hnone
  have hnothing : modifiers source = .ok [] source :=
    Reader.many_eq_ok.2 (.stop (reads_modifier_none hnone source (Nat.lt_succ_self _) rfl))
  obtain ⟨p', q', last', htype', hlast', hlast, hmatch', hfence'⟩ :=
    typeRef_transfer htype hsource hprinted hmatch hfence
  refine ⟨[], source, type, last', hnothing, htype', ?_⟩
  have hbehind := Similar.of_fence hmatch' hfence' s f
  rw [← hlast, ← hlast'] at hbehind
  rw [hbehind.second Piece.respects_isIdentifier (Piece.respects_isSymbolIn symbols)
    fun _ hname => Piece.not_isStop_of_word (Piece.isIdentifier_word hname)]
  exact hdeclared

/-- A declaration begins with a modifier or with its type. -/
theorem Declares.first {symbols : List Text} {stream : TokenStream} (h : Declares symbols stream) :
    ∃ piece others, stream.pieces = piece :: others ∧
      (piece.modifies = true ∨ piece.isIdentifier = true) := by
  obtain ⟨values, middle, type, last, hmodifiers, htype, -⟩ := h
  cases Reader.many_eq_ok.1 hmodifiers with
  | stop hlast =>
    obtain ⟨rfl, -⟩ := modifier_none hlast
    obtain ⟨piece, others, hpieces, hpiece⟩ := pieceAt_zero_true (typeRef_first htype)
    exact ⟨piece, others, hpieces, .inr hpiece⟩
  | round hround =>
    obtain ⟨taken, hpieces, hmade, -⟩ := modifier_some hround
    obtain ⟨piece, others, rfl, hpiece⟩ := hmade.head
    exact ⟨piece, _, hpieces, .inl hpiece⟩

/-- The same place does not declare in two ways. -/
theorem Declares.apart {first second : List Text} {stream : TokenStream}
    (h : Declares first stream) (h' : Declares second stream)
    (hapart : ∀ text ∈ first, text ∉ second) : False := by
  obtain ⟨values, middle, type, last, hmodifiers, htype, hdeclared⟩ := h
  obtain ⟨values', middle', type', last', hmodifiers', htype', hdeclared'⟩ := h'
  rw [hmodifiers] at hmodifiers'
  cases hmodifiers'
  rw [htype] at htype'
  cases htype'
  rw [Bool.and_eq_true] at hdeclared hdeclared'
  have hfirst := hdeclared.2
  have hsecond := hdeclared'.2
  cases hpieces : last.pieces with
  | nil => simp [hpieces] at hfirst
  | cons name others =>
    rw [hpieces, pieceAt_one] at hfirst hsecond
    obtain ⟨mark, more, rfl, hmark⟩ := pieceAt_zero_true hfirst
    rw [pieceAt_zero] at hsecond
    obtain ⟨text, hmem, htext⟩ := List.any_eq_true.1 hmark
    obtain ⟨text', hmem', htext'⟩ := List.any_eq_true.1 hsecond
    have hsame := (Piece.isSymbol_iff.1 htext).2.symm.trans (Piece.isSymbol_iff.1 htext').2
    exact hapart text hmem (hsame ▸ hmem')

/-- The symbols behind a name that is being declared. -/
def declaredSymbols : List Text := ["=", ";", ","].map String.toList

theorem variableHead_declares {value : List Modifier × TypeRef}
    (h : variableHead source = .ok value rest) : Declares declaredSymbols source := by
  unfold variableHead at h
  simp only [Reader.bind_eq_ok, require_eq_ok, look_eq_ok, TokenStream.identifierAt_eq,
    TokenStream.symbolInAt_eq] at h
  obtain ⟨values, middle, hmodifiers, type, last, htype, _, _, ⟨rfl, rfl⟩, _, _, ⟨hdeclared, -⟩, -⟩ :=
    h
  exact ⟨values, middle, type, last, hmodifiers, htype, hdeclared⟩

theorem declares_variableHead (h : Declares declaredSymbols source) :
    ∃ value final, variableHead source = .ok value final := by
  obtain ⟨values, middle, type, last, hmodifiers, htype, hdeclared⟩ := h
  refine ⟨(values, type), last, ?_⟩
  unfold variableHead
  simp only [Reader.bind_eq_ok, require_eq_ok, look_eq_ok, TokenStream.identifierAt_eq,
    TokenStream.symbolInAt_eq]
  exact ⟨values, middle, hmodifiers, type, last, htype, _, _, ⟨rfl, rfl⟩, (), last,
    ⟨hdeclared, rfl⟩, rfl⟩

/-! ## Declarations -/

theorem replay_declarator {name : Text} {value : Declarator}
    (h : declarator name source = .ok value rest) :
    ∃ parts, value.parts = .word name :: parts ∧
      Replay bound (declarator name) source.pieces rest.pieces parts value := by
  unfold declarator at h
  obtain ⟨initializer, final, hinitializer, h⟩ := Reader.bind_eq_ok.1 h
  cases h
  cases initializer with
  | none =>
    have hnone : Replay bound (Reader.optional (takeSymbol "=") expression) source.pieces
        rest.pieces [] none :=
      (replay_takeSymbol_false (Reader.optional_eq_none.1 hinitializer)).optional_none
    exact ⟨[], rfl, hnone.map (Declarator.mk name)⟩
  | some value =>
    obtain ⟨behind, hequal, hvalue⟩ := Reader.optional_eq_some.1 hinitializer
    have hsome := (replay_takeSymbol_true hequal).optional_some
      (replay_expression _ _ _ hvalue bound)
    exact ⟨_, rfl, hsome.map (Declarator.mk name)⟩

theorem replay_furtherDeclarator {value : Declarator}
    (h : (identifier >>= declarator) source = .ok value rest) :
    Replay bound (identifier >>= declarator) source.pieces rest.pieces value.parts value := by
  obtain ⟨name, middle, hname, h⟩ := Reader.bind_eq_ok.1 h
  obtain ⟨parts, hparts, hreplay⟩ := replay_declarator h
  rw [hparts]
  exact (replay_identifier hname).bind hreplay

theorem replay_declarators {first : Text} {values : List Declarator}
    (h : declarators first source = .ok values rest) :
    ∃ parts, rowsBy (.symbol ",") (values.map Declarator.parts) = .word first :: parts ∧
      Replay bound (declarators first) source.pieces rest.pieces parts values := by
  unfold declarators at h
  obtain ⟨head, middle, hhead, h⟩ := Reader.bind_eq_ok.1 h
  obtain ⟨others, final, hothers, h⟩ := Reader.bind_eq_ok.1 h
  cases h
  obtain ⟨parts, hparts, hreplay⟩ := replay_declarator hhead
  have hmany : Replay bound (Reader.many (Reader.optional (takeSymbol ",")
      (identifier >>= declarator))) middle.pieces rest.pieces
      (others.flatMap fun value => .symbol "," :: value.parts) others := by
    refine replay_many ?_ ?_ hothers
    · intro source value rest hround
      obtain ⟨behind, hcomma, hvalue⟩ := Reader.optional_eq_some.1 hround
      exact (replay_takeSymbol_true hcomma).optional_some (replay_furtherDeclarator hvalue)
    · intro source rest hround
      exact (replay_takeSymbol_false (Reader.optional_eq_none.1 hround)).optional_none
  refine ⟨parts ++ others.flatMap fun value => .symbol "," :: value.parts, ?_,
    hreplay.bind (hmany.map (head :: ·))⟩
  rw [List.map_cons, rowsBy_cons, List.flatMap_map, hparts]
  rfl

/-- What stands behind modifiers is a word if it is an identifier. -/
theorem continues_of_identifier {pieces : List Piece}
    (h : pieceAt pieces 0 Piece.isIdentifier = true) : pieceAt pieces 0 Piece.continues = true := by
  obtain ⟨piece, others, rfl, hpiece⟩ := pieceAt_zero_true h
  rw [pieceAt_zero]
  exact (behind_modifier (.inr hpiece)).1

/-- Modifiers in front of something that is printed as it was read. -/
theorem plays_modified {α : Type} {values : List Modifier} {middle : TokenStream}
    {next : List Modifier → Grammar α} {value : α} {parts : List Part}
    (h : modifiers source = .ok values middle)
    (hfirst : pieceAt middle.pieces 0 Piece.isIdentifier = true)
    (hnext : Replay bound (next values) middle.pieces rest.pieces parts value) :
    Plays true true (Similar rest.pieces) bound (modifiers >>= next) source.pieces rest.pieces
      (modifierParts values ++ parts) value :=
  Plays.bind (plays_modifiers h true) hnext.plays fun hsound _ _ hf =>
    led_of_similar (modifiers_end h) (continues_of_identifier hfirst) (hnext.similar hsound hf)

theorem plays_variableHead {value : List Modifier × TypeRef}
    (h : variableHead source = .ok value rest) :
    Plays true true (Similar rest.pieces) bound variableHead source.pieces rest.pieces
      (modifierParts value.1 ++ [.type value.2]) value := by
  unfold variableHead at h
  obtain ⟨values, middle, hmodifiers, h⟩ := Reader.bind_eq_ok.1 h
  obtain ⟨type, behind, htype, h⟩ := Reader.bind_eq_ok.1 h
  obtain ⟨declared, last, hlook, h⟩ := Reader.bind_eq_ok.1 h
  obtain ⟨_, final, hdeclared, h⟩ := Reader.bind_eq_ok.1 h
  cases h
  obtain ⟨rfl, rfl⟩ := require_eq_ok.1 hdeclared
  have hsame : ∀ pieces pieces', Similar pieces pieces' →
      (pieceAt pieces 0 Piece.isIdentifier && pieceAt pieces 1 (·.isSymbolIn declaredSymbols)) =
        (pieceAt pieces' 0 Piece.isIdentifier && pieceAt pieces' 1 (·.isSymbolIn declaredSymbols)) :=
    fun _ _ hsimilar => hsimilar.second Piece.respects_isIdentifier (Piece.respects_isSymbolIn _)
      fun _ hname => Piece.not_isStop_of_word (Piece.isIdentifier_word hname)
  have hbehind : Replay bound (look fun stream =>
      stream.identifierAt 0 && stream.symbolInAt 1 declaredSymbols) behind.pieces last.pieces []
      true :=
    replay_look (fun stream => by rw [TokenStream.identifierAt_eq, TokenStream.symbolInAt_eq])
      hsame hlook
  refine plays_modified hmodifiers (typeRef_first htype) ?_
  refine Replay.bind (replay_typeRef htype) ?_
  refine Replay.bind_nothing hbehind ?_
  exact (replay_require rfl).bind_pure rfl

theorem localVariables_some {value : VariableDeclaration}
    (h : localVariables source = .ok (some value) rest) :
    ∃ middle behind name, variableHead source = .ok (value.modifiers, value.type) middle ∧
      identifier middle = .ok name behind ∧ declarators name behind = .ok value.declarators rest := by
  unfold localVariables at h
  obtain ⟨found, middle, hfound, h⟩ := Reader.bind_eq_ok.1 h
  cases found with
  | none => cases h
  | some head =>
    obtain ⟨values, type⟩ := head
    obtain ⟨name, behind, hname, h⟩ := Reader.bind_eq_ok.1 h
    obtain ⟨items, last, hitems, h⟩ := Reader.bind_eq_ok.1 h
    cases h
    exact ⟨middle, behind, name, Reader.attempt_eq_some.1 hfound, hname, hitems⟩

theorem localVariables_none (h : localVariables source = .ok none rest) :
    rest = source ∧ ¬ Declares declaredSymbols source := by
  unfold localVariables at h
  obtain ⟨found, middle, hfound, h⟩ := Reader.bind_eq_ok.1 h
  cases found with
  | none =>
    cases h
    obtain ⟨rfl, hnone⟩ := Reader.attempt_eq_none.1 hfound
    refine ⟨rfl, fun hdeclares => ?_⟩
    obtain ⟨value, final, hrun⟩ := declares_variableHead hdeclares
    exact hnone value final hrun
  | some head =>
    obtain ⟨values, type⟩ := head
    obtain ⟨name, behind, hname, h⟩ := Reader.bind_eq_ok.1 h
    obtain ⟨items, last, hitems, h⟩ := Reader.bind_eq_ok.1 h
    cases h

theorem localVariables_declares {value : VariableDeclaration}
    (h : localVariables source = .ok (some value) rest) : Declares declaredSymbols source := by
  obtain ⟨middle, behind, name, hhead, -, -⟩ := localVariables_some h
  exact variableHead_declares hhead

/-- Something printed behind modifiers begins with a modifier or as it does. -/
theorem spell_modified {values : List Modifier} {parts : List Part} {good : Piece → Prop}
    (hparts : ∃ piece pieces, spell parts = piece :: pieces ∧ good piece)
    (hrereads : Rereads (modifierParts values ++ parts)) :
    ∃ piece pieces, spell (modifierParts values ++ parts) = piece :: pieces ∧
      (piece.modifies = true ∨ good piece) := by
  cases values with
  | nil =>
    obtain ⟨piece, pieces, hspell, hgood⟩ := hparts
    exact ⟨piece, pieces, hspell, .inr hgood⟩
  | cons value values =>
    obtain ⟨piece, pieces, hpieces, hpiece⟩ :=
      (hrereads value (by simp [modifierParts])).head
    refine ⟨piece, pieces ++ spell (modifierParts values ++ parts), ?_, .inl hpiece⟩
    show Modifier.pieces value ++ spell (modifierParts values ++ parts) = _
    rw [hpieces]
    rfl

theorem spell_type {type : TypeRef} {parts : List Part} (h : typeRef source = .ok type rest) :
    ∃ piece pieces, spell (.type type :: parts) = piece :: pieces ∧ piece.isIdentifier = true := by
  obtain ⟨piece, pieces, hpieces, hpiece⟩ := TypeRef.pieces_first (typeRef_ok _ _ _ h).1
  refine ⟨piece, pieces ++ spell parts, ?_, hpiece⟩
  show type.pieces ++ spell parts = _
  rw [hpieces]
  rfl

/-- Modifiers end in front of a type with a name behind it. -/
theorem led_typed {type : TypeRef} {name : Text} {middle last : TokenStream} {parts : List Part}
    (hahead : modifierAhead source.pieces = false) (htype : typeRef source = .ok type middle)
    (hname : identifier middle = .ok name last) (f : List Piece) :
    Led (spell (.type type :: .word name :: parts) ++ f) := by
  obtain ⟨hwell, ⟨taken, htaken, hsame⟩, -⟩ := typeRef_ok _ _ _ htype
  obtain ⟨-, row, hrow, hnames⟩ := identifier_same hname
  obtain ⟨piece, pieces, hpieces, -⟩ := TypeRef.pieces_first hwell
  have hmatch : MatchAll (taken ++ row) (type.pieces ++ [.word name]) :=
    (hsame.append hnames).matchAll
  have hsource : source.pieces = (taken ++ row) ++ last.pieces := by
    rw [htaken, hrow, List.append_assoc]
  have hspell : spell (.type type :: .word name :: parts) ++ f =
      (type.pieces ++ [.word name]) ++ (spell parts ++ f) := by
    simp [Part.pieces, Part.word]
  rw [hsource] at hahead
  have hcontinues := continues_of_identifier (typeRef_first htype)
  rw [hsource] at hcontinues
  rw [hspell]
  refine led_of_matchAll hmatch ?_ hahead hcontinues
  rw [hpieces]
  simp

theorem spell_localVariables {value : VariableDeclaration}
    (h : localVariables source = .ok (some value) rest) (hrereads : Rereads value.parts) :
    ∃ piece pieces, spell value.parts = piece :: pieces ∧
      (piece.modifies = true ∨ piece.isIdentifier = true) := by
  obtain ⟨middle, behind, name, hhead, -, -⟩ := localVariables_some h
  unfold variableHead at hhead
  obtain ⟨values, before, -, hhead⟩ := Reader.bind_eq_ok.1 hhead
  obtain ⟨type, last, htype, hhead⟩ := Reader.bind_eq_ok.1 hhead
  obtain ⟨declared, _, -, hhead⟩ := Reader.bind_eq_ok.1 hhead
  obtain ⟨_, _, -, hhead⟩ := Reader.bind_eq_ok.1 hhead
  cases hhead
  exact spell_modified (spell_type htype) hrereads

/-- A declaration of variables is read back. -/
theorem plays_localVariables {value : VariableDeclaration}
    (h : localVariables source = .ok (some value) rest) :
    Plays true true (Similar rest.pieces) bound localVariables source.pieces rest.pieces value.parts
      (some value) := by
  obtain ⟨values, type, items⟩ := value
  obtain ⟨middle, behind, name, hhead, hname, hitems⟩ := localVariables_some h
  obtain ⟨parts, hparts, hreplay⟩ := replay_declarators hitems
  have hshape : VariableDeclaration.parts ⟨values, type, items⟩ =
      (modifierParts values ++ [.type type]) ++ ([.word name] ++ parts) := by
    unfold VariableDeclaration.parts
    rw [hparts]
    simp
  rw [hshape]
  refine Plays.bind_replay (plays_variableHead hhead).attempt ?_
  exact Replay.bind (replay_identifier hname)
    (hreplay.map fun items => some (VariableDeclaration.mk values type items))

/-- A declaration without modifiers is printed as it was read. -/
theorem printed_localVariables {value : VariableDeclaration}
    (h : localVariables source = .ok (some value) rest) (hnone : value.modifiers = [])
    (hsound : Sound source.pieces value.parts) :
    Printed source.pieces rest.pieces value.parts := by
  obtain ⟨values, type, items⟩ := value
  obtain rfl : values = [] := hnone
  obtain ⟨middle, behind, name, hhead, hname, hitems⟩ := localVariables_some h
  -- without modifiers the type is the first thing that was read
  obtain ⟨before, htype⟩ : ∃ before, before = source ∧ typeRef before = .ok type middle := by
    unfold variableHead at hhead
    obtain ⟨values, before, hmodifiers, hhead⟩ := Reader.bind_eq_ok.1 hhead
    obtain ⟨found, last, htype, hhead⟩ := Reader.bind_eq_ok.1 hhead
    obtain ⟨declared, _, hlook, hhead⟩ := Reader.bind_eq_ok.1 hhead
    obtain ⟨_, _, hrequire, hhead⟩ := Reader.bind_eq_ok.1 hhead
    cases hhead
    obtain ⟨-, rfl⟩ := require_eq_ok.1 hrequire
    obtain ⟨-, rfl⟩ := look_eq_ok.1 hlook
    refine ⟨before, ?_, htype⟩
    cases Reader.many_eq_ok.1 hmodifiers with
    | stop hlast => exact (modifier_none hlast).1
  obtain ⟨rfl, htype⟩ := htype
  have hdeclarators : ∃ parts, _ ∧ Replay 0 (declarators name) _ _ parts _ :=
    replay_declarators hitems
  obtain ⟨parts, hparts, hreplay⟩ := hdeclarators
  have hrow : VariableDeclaration.parts ⟨[], type, items⟩ = [.type type] ++ (.word name :: parts) := by
    unfold VariableDeclaration.parts
    rw [hparts]
    rfl
  rw [hrow] at hsound ⊢
  have htyped : Replay 0 typeRef _ _ [.type type] type := replay_typeRef htype
  have hall : Replay 0 (typeRef >>= fun _ => identifier >>= fun _ => declarators name) _ _ _ _ :=
    htyped.bind ((replay_identifier hname).bind hreplay)
  exact (hall hsound.regular hsound.query).1

/-- What is printed for an expression is no declaration if the source is none. -/
theorem reads_localVariables_none {value : Expression} {p q s f : List Piece}
    (h : expression source = .ok value rest)
    (hbehind : pieceAt rest.pieces 0 Piece.continues = false)
    (hsource : source.pieces = p ++ s) (hmatch : MatchAll p q)
    (hfence : ∃ piece ∈ q, piece.isFence = true) (hnone : ¬ Declares declaredSymbols source) :
    Reads bound localVariables [] (q ++ f) none := by
  have hattempt : Reads bound (Reader.attempt variableHead) [] (q ++ f) none := by
    apply Refuses.attempt
    intro stream hpieces head final hrun
    exact hnone (declares_transfer h hbehind hsource hpieces hmatch hfence
      (variableHead_declares hrun))
  exact Reads.bind_nothing hattempt (Reads.pure none)

end Grammar

end ApexLayout
