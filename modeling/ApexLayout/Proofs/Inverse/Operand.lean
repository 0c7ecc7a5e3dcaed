import ApexLayout.Proofs.Grouping
import ApexLayout.Proofs.Replay.Expression

/-!
Operands are read back.

A tree of operators over names and literals is read back level by level. Here are its operands: what
has no operator between two operands on its outside. A parenthesis is never taken for a cast, since
what stands behind it cannot be cast.
-/

namespace ApexLayout

/-- The pieces of a tree. -/
abbrev Expression.spelling (expression : Expression) : List Piece := spell expression.parts

/-! ## Ends of operands -/

/-- The symbols that would go on with an operand, or make a cast of a parenthesis. -/
def continuing : List Text := ["(", ".", "?.", "[", "++", "--", "!", "~"].map String.toList

/-- A primary ends in front of the pieces: no name goes on there, and a parenthesis in front is no
cast. -/
structure PrimaryEnd (pieces : List Piece) : Prop where
  dot : pieceAt pieces 0 (·.isSymbol ".") = false
  cast : pieceAt pieces 0 Grammar.castablePiece = false

/-- An operand ends in front of the pieces: nothing goes on with it. -/
structure OperandEnd (pieces : List Piece) : Prop where
  step : pieceAt pieces 0 (·.isSymbolIn continuing) = false
  cast : pieceAt pieces 0 Grammar.castablePiece = false
  word : pieceAt pieces 0 (·.kind == .word) = false

namespace PrimaryEnd

theorem call {pieces : List Piece} (h : PrimaryEnd pieces) :
    pieceAt pieces 0 (·.isSymbol "(") = false := by
  cases pieces with
  | nil => rfl
  | cons piece rest =>
    have hcast := h.cast
    rw [pieceAt_zero] at hcast ⊢
    rw [Bool.eq_false_iff] at hcast ⊢
    intro hopened
    apply hcast
    unfold Grammar.castablePiece
    rw [(Piece.isSymbol_iff.1 hopened).1]
    exact List.any_eq_true.2 ⟨_, List.mem_cons_self, hopened⟩

/-- An operator behind a primary ends it. -/
theorem trailing {text : Text} {rest : List Piece} (h : text ∈ Operators.trailing) :
    PrimaryEnd (.symbol text :: rest) := by
  have hall : ∀ text ∈ Operators.trailing, (Piece.symbol text).isSymbol "." = false ∧
      Grammar.castablePiece (.symbol text) = false := by decide
  exact ⟨(hall text h).1, (hall text h).2⟩

end PrimaryEnd

namespace OperandEnd

theorem nil : OperandEnd [] := ⟨rfl, rfl, rfl⟩

/-- A symbol that does not go on with an operand. -/
theorem of_symbol {piece : Piece} {rest : List Piece} (hkind : piece.kind = .symbol)
    (htext : piece.text ∉ continuing) : OperandEnd (piece :: rest) := by
  have hnone : ∀ symbols : List Text, (∀ symbol ∈ symbols, symbol ∈ continuing) →
      piece.isSymbolIn symbols = false := by
    intro symbols hsymbols
    unfold Piece.isSymbolIn
    rw [List.any_eq_false]
    intro symbol hmem hsame
    exact htext ((Piece.isSymbol_iff.1 hsame).2 ▸ hsymbols symbol hmem)
  refine ⟨?_, ?_, ?_⟩
  · rw [pieceAt_zero]
    exact hnone continuing fun _ h => h
  · rw [pieceAt_zero]
    unfold Grammar.castablePiece
    rw [hkind]
    exact hnone _ (by decide)
  · rw [pieceAt_zero, hkind]
    rfl

theorem symbol {text : Text} {rest : List Piece} (h : text ∉ continuing := by decide) :
    OperandEnd (.symbol text :: rest) :=
  of_symbol rfl h

/-- An operator between operands ends the first of them. -/
theorem operator {text : Text} {rest : List Piece} (h : text ∈ Operators.between) :
    OperandEnd (operatorPieces text ++ rest) := by
  have hall : ∀ text ∈ Operators.between, (operatorPieces text).head?.any
      (fun piece => piece.kind == .symbol && !continuing.contains piece.text) = true := by decide
  have hfirst := hall text h
  cases hpieces : operatorPieces text with
  | nil =>
    rw [hpieces] at hfirst
    cases hfirst
  | cons first others =>
    rw [hpieces] at hfirst
    obtain ⟨hkind, htext⟩ : first.kind = .symbol ∧ first.text ∉ continuing := by
      simpa using hfirst
    exact of_symbol hkind htext

theorem isSymbol {pieces : List Piece} (h : OperandEnd pieces) {text : Text}
    (htext : text ∈ continuing) : pieceAt pieces 0 (·.isSymbol text) = false := by
  cases pieces with
  | nil => rfl
  | cons piece rest =>
    have hstep := h.step
    rw [pieceAt_zero] at hstep ⊢
    unfold Piece.isSymbolIn at hstep
    rw [List.any_eq_false] at hstep
    simpa using hstep text htext

theorem isSymbolIn {pieces : List Piece} (h : OperandEnd pieces) {texts : List Text}
    (htexts : ∀ text ∈ texts, text ∈ continuing) :
    pieceAt pieces 0 (·.isSymbolIn texts) = false := by
  cases pieces with
  | nil => rfl
  | cons piece rest =>
    rw [pieceAt_zero]
    unfold Piece.isSymbolIn
    rw [List.any_eq_false]
    intro text htext hsame
    have hnone := h.isSymbol (htexts text htext)
    rw [pieceAt_zero, hsame] at hnone
    exact absurd hnone (by decide)

theorem isWord {pieces : List Piece} (h : OperandEnd pieces) (text : Text) :
    pieceAt pieces 0 (·.isWord text) = false := by
  cases pieces with
  | nil => rfl
  | cons piece rest =>
    have hword := h.word
    rw [pieceAt_zero] at hword ⊢
    unfold Piece.isWord
    rw [hword, Bool.false_and]

theorem primary {pieces : List Piece} (h : OperandEnd pieces) : PrimaryEnd pieces :=
  ⟨h.isSymbol (by decide), h.cast⟩

end OperandEnd

/-- An expression ends in front of the pieces. -/
inductive ExpressionEnd : List Piece → Prop
  | nothing : ExpressionEnd []
  | parenthesis (rest : List Piece) : ExpressionEnd (.symbol ")" :: rest)
  | colon (rest : List Piece) : ExpressionEnd (.symbol ":" :: rest)

/-- The expression is read from its pieces wherever it ends. -/
def Expression.ReadBack (expression : Expression) : Prop :=
  ∀ bound f, ExpressionEnd f →
    Grammar.Reads bound Grammar.expression expression.spelling f expression

/-! ## Parentheses that are no casts -/

/-- No parenthesis is closed before one has been opened. -/
def Guarded (pieces : List Piece) : Prop :=
  ∀ front piece back, pieces = front ++ piece :: back → piece.isSymbol ")" = true →
    ∃ opening ∈ front, opening.isSymbol "(" = true

namespace Guarded

theorem append {first second : List Piece} (h : Guarded first) (h' : Guarded second) :
    Guarded (first ++ second) := by
  intro front piece back hsplit hclosing
  rcases List.append_eq_append_iff.1 hsplit with ⟨more, rfl, hmore⟩ | ⟨more, hfirst, hmore⟩
  · obtain ⟨opening, hmem, hopening⟩ := h' more piece back hmore hclosing
    exact ⟨opening, List.mem_append_right _ hmem, hopening⟩
  · cases more with
    | nil =>
      obtain ⟨opening, hmem, -⟩ := h' [] piece back hmore.symm hclosing
      cases hmem
    | cons next rest =>
      obtain ⟨rfl, -⟩ := List.cons.inj hmore
      exact h front _ rest hfirst hclosing

/-- Pieces that close nothing. -/
theorem of_forall {pieces : List Piece} (h : ∀ piece ∈ pieces, piece.isSymbol ")" = false) :
    Guarded pieces := by
  intro front piece back hsplit hclosing
  have hpiece := h piece (hsplit ▸ List.mem_append_right _ List.mem_cons_self)
  rw [hpiece] at hclosing
  cases hclosing

theorem opened (pieces : List Piece) : Guarded (.symbol "(" :: pieces) := by
  intro front piece back hsplit hclosing
  cases front with
  | nil =>
    obtain ⟨rfl, -⟩ := List.cons.inj hsplit
    cases hclosing
  | cons first rest =>
    obtain ⟨rfl, -⟩ := List.cons.inj hsplit
    exact ⟨_, List.mem_cons_self, by decide⟩

theorem symbol {text : Text} (h : (Piece.symbol text).isSymbol ")" = false := by decide) :
    Guarded [.symbol text] :=
  of_forall fun _ hpiece => List.mem_singleton.1 hpiece ▸ h

theorem operator {text : Text} (h : text ∈ Operators.between) : Guarded (operatorPieces text) := by
  have hall : ∀ text ∈ Operators.between, ∀ piece ∈ operatorPieces text,
      piece.isSymbol ")" = false := by decide
  exact of_forall (hall text h)

end Guarded

/-! ## Trees that can be read back -/

/-- What stands in brackets: it is read back, and closes no parenthesis that it did not open. -/
structure Enclosed (expression : Expression) : Prop where
  readBack : expression.ReadBack
  guarded : Guarded expression.spelling

/-- An operand without operators around it. -/
inductive Stem : Expression → Prop
  | parenthesized {inner : Expression} (inside : Enclosed inner) : Stem (.parenthesized inner)
  | identifier {name : Text} (free : (Piece.word name).isIdentifier = true) :
      Stem (.primary (.identifier name))
  | literal {text : Text} (value : TokenKind.ofText text = .number ∨
        TokenKind.ofText text = .string ∨ TokenKind.ofText text = .word ∧
          (Piece.word text).isWordIn Vocabulary.literals = true) : Stem (.primary (.literal text))

/-- A tree of operators whose operands bind tightly enough, over what can be read. -/
inductive Readable : Expression → Prop
  | stem {tree : Expression} (single : Stem tree) : Readable tree
  | unary {fixity : Fixity} {operator : Text} {operand : Expression} (inside : Readable operand)
      (node : (Expression.unary fixity operator operand).Grouped) :
      Readable (.unary fixity operator operand)
  | binary {kind : BinaryKind} {operator : Text} {left right : Expression} (first : Readable left)
      (second : Readable right) (node : (Expression.binary kind operator left right).Grouped) :
      Readable (.binary kind operator left right)
  | conditional {condition thenValue elseValue : Expression} (test : Readable condition)
      (inside : Enclosed thenValue) (otherwise : Readable elseValue)
      (node : (Expression.conditional condition thenValue elseValue).Grouped) :
      Readable (.conditional condition thenValue elseValue)
  | assignment {target value : Expression} {operator : Text} (left : Readable target)
      (right : Readable value) (node : (Expression.assignment target operator value).Grouped) :
      Readable (.assignment target operator value)

theorem Stem.opens {tree : Expression} (h : Stem tree) (rest : List Piece) :
    pieceAt (tree.spelling ++ rest) 0 Piece.opens = true := by
  cases h with
  | parenthesized =>
    rw [Expression.spelling, Expression.parts]
    show (Piece.symbol "(").opens = true
    decide
  | @identifier name hfree =>
    show (Piece.word name).opens = true
    unfold Piece.opens
    rw [Piece.isIdentifier_word hfree, hfree, Bool.or_true]
  | @literal text hvalue =>
    show Piece.opens ⟨TokenKind.ofText text, text, false⟩ = true
    rcases hvalue with hkind | hkind | ⟨hkind, hword⟩
    · rw [hkind]
      rfl
    · rw [hkind]
      rfl
    · rw [hkind]
      obtain ⟨word, hmem, hword⟩ := List.any_eq_true.1 hword
      have hopening : (Piece.word text).isWordIn openingWords = true :=
        List.any_eq_true.2 ⟨word, List.mem_append_left _ hmem, hword⟩
      show ((Piece.word text).isWordIn openingWords || (Piece.word text).isIdentifier) = true
      rw [hopening, Bool.true_or]

/-- A tree begins with a piece that may begin an expression. -/
theorem Readable.opens {tree : Expression} (h : Readable tree) (rest : List Piece) :
    pieceAt (tree.spelling ++ rest) 0 Piece.opens = true := by
  induction h generalizing rest with
  | stem single => exact single.opens rest
  | @unary fixity operator operand _ hnode ih =>
    cases fixity with
    | leading =>
      have hsigns : ∀ sign ∈ Operators.leading, (Piece.symbol sign).opens = true := by decide
      rw [Expression.spelling, Expression.parts]
      exact hsigns operator hnode.1
    | trailing =>
      rw [Expression.spelling, Expression.parts, spell_append, List.append_assoc]
      exact ih _
  | binary _ _ _ ih _ =>
    rw [Expression.spelling, Expression.parts, spell_append, List.append_assoc]
    exact ih _
  | conditional _ _ _ _ ih _ =>
    rw [Expression.spelling, Expression.parts, spell_append, List.append_assoc]
    exact ih _
  | assignment _ _ _ ih _ =>
    rw [Expression.spelling, Expression.parts, spell_append, List.append_assoc]
    exact ih _

theorem Stem.guarded {tree : Expression} (h : Stem tree) : Guarded tree.spelling := by
  cases h with
  | parenthesized =>
    rw [Expression.spelling, Expression.parts]
    exact .opened _
  | identifier =>
    refine .of_forall fun piece hpiece => ?_
    cases List.mem_singleton.1 hpiece
    rfl
  | @literal text hvalue =>
    refine .of_forall fun piece hpiece => ?_
    obtain rfl : piece = ⟨TokenKind.ofText text, text, false⟩ := List.mem_singleton.1 hpiece
    unfold Piece.isSymbol
    rcases hvalue with hkind | hkind | ⟨hkind, -⟩ <;> rw [hkind] <;> rfl

/-- In a tree of operators every parenthesis is opened before it is closed. -/
theorem Readable.guarded {tree : Expression} (h : Readable tree) : Guarded tree.spelling := by
  induction h with
  | stem single => exact single.guarded
  | @unary fixity operator operand _ hnode ih =>
    cases fixity with
    | leading =>
      have hall : ∀ sign ∈ Operators.leading, (Piece.symbol sign).isSymbol ")" = false := by decide
      rw [Expression.spelling, Expression.parts]
      exact (Guarded.symbol (hall operator hnode.1)).append ih
    | trailing =>
      have hall : ∀ sign ∈ Operators.trailing, (Piece.symbol sign).isSymbol ")" = false := by decide
      rw [Expression.spelling, Expression.parts, spell_append]
      exact ih.append (.symbol (hall operator hnode.1))
  | binary _ _ hnode ih ih' =>
    obtain ⟨found, hfound, -⟩ := hnode
    rw [Expression.spelling, Expression.parts, spell_append]
    exact ih.append ((Guarded.operator (Grammar.between_of_binary hfound)).append ih')
  | conditional _ hinside _ _ ih ih' =>
    rw [Expression.spelling, Expression.parts, spell_append, spell_cons, spell_append]
    exact ih.append ((Guarded.symbol).append (hinside.guarded.append ((Guarded.symbol).append ih')))
  | assignment _ _ hnode ih ih' =>
    have hbetween := Grammar.between_of_assignment (isAssignment_iff.2 (List.mem_append.1 hnode.2))
    rw [Expression.spelling, Expression.parts, spell_append]
    exact ih.append ((Guarded.operator hbetween).append ih')

/-- An operand is one without operators, with operators behind it and then in front of it. -/
theorem Readable.operand {tree : Expression} (h : Readable tree)
    (hunary : tree.isUnary = true) : ∃ (signs marks : List Text) (stem : Expression),
      tree = (signs.map Grammar.Front.operator).foldr Grammar.Front.apply
        ((marks.map Grammar.Step.operator).foldl Grammar.Step.apply stem) ∧ Stem stem ∧
      (∀ sign ∈ signs, sign ∈ Operators.leading) ∧ (∀ mark ∈ marks, mark ∈ Operators.trailing) ∧
      (tree.isPostfix = true → signs = []) := by
  induction h with
  | stem single => exact ⟨[], [], _, rfl, single, by simp, by simp, fun _ => rfl⟩
  | @unary fixity operator operand _ hnode ih =>
    cases fixity with
    -- a sign stands in front of any operand, a mark only behind one without signs
    | leading =>
      obtain ⟨signs, marks, stem, rfl, hstem, hsigns, hmarks, -⟩ := ih hnode.2
      exact ⟨operator :: signs, marks, stem, rfl, hstem,
        List.forall_mem_cons.2 ⟨hnode.1, hsigns⟩, hmarks, fun h => by cases h⟩
    | trailing =>
      obtain ⟨signs, marks, stem, hoperand, hstem, hsigns, hmarks, hnil⟩ :=
        ih (Expression.isUnary_of_isPostfix hnode.2)
      obtain rfl := hnil hnode.2
      refine ⟨[], marks ++ [operator], stem, ?_, hstem, hsigns, ?_, fun _ => rfl⟩
      · rw [hoperand, List.map_append, List.foldl_append]
        rfl
      · exact List.forall_mem_append.2 ⟨hmarks, by simpa using hnode.1⟩
  | binary => cases hunary
  | conditional => cases hunary
  | assignment => cases hunary

namespace Grammar

variable {bound : Nat} {f : List Piece}

/-- The items of a row are read one after another, if every item ends where the next one begins. -/
theorem reads_many_row (Ends : List Piece → Prop) {α : Type} {item : Grammar (Option α)}
    {parts : α → List Part} {row : List α}
    (hitem : ∀ value ∈ row, ∀ g, Ends g → Reads bound item (spell (parts value)) g (some value))
    (hstart : ∀ value ∈ row, spell (parts value) ≠ [] ∧ ∀ g, Ends (spell (parts value) ++ g))
    (hf : Ends f) (hnone : Reads bound item [] f none) :
    Reads bound (Reader.many item) (spell (row.flatMap parts)) f row ∧
      Ends (spell (row.flatMap parts) ++ f) := by
  induction row with
  | nil => exact ⟨Reads.many_nil hnone, hf⟩
  | cons value rest ih =>
    obtain ⟨hfirst, hothers⟩ := List.forall_mem_cons.1 hitem
    obtain ⟨⟨hne, hbegin⟩, hbegins⟩ := List.forall_mem_cons.1 hstart
    obtain ⟨hreads, hends⟩ := ih hothers hbegins
    rw [List.flatMap_cons, spell_append]
    refine ⟨?_, by rw [List.append_assoc]; exact hbegin _⟩
    have hround := hfirst _ hends
    obtain ⟨piece, others, hpieces⟩ := List.exists_cons_of_ne_nil hne
    rw [hpieces] at hround ⊢
    exact Reads.many_cons hround hreads

/-! ## Reading operands -/

/-- A name that nothing goes on with. -/
theorem reads_named {inner : Grammar Expression} {name : Text} (hf : PrimaryEnd f) :
    Reads bound (named inner) [.word name] f (.primary (.identifier name)) := by
  have hdot : Reads bound dotBeforePathName [] f false := by
    refine reads_skipIf_false fun stream hpieces => ?_
    rw [dotBeforePathName_eq, hpieces]
    unfold pathName
    rw [hf.dot]
    rfl
  have hnames : Reads bound (Reader.separated dotBeforePathName takeText) [.word name] f [name] :=
    Reads.bind reads_takeText (Reads.map (name :: ·) (Reads.many_nil (Reads.optional_none hdot)))
  have hclass : Reads bound (look fun stream => stream.symbolAt 0 "." && stream.wordAt 1 "class")
      [] f false := by
    refine reads_look fun stream hpieces => ?_
    rw [classAhead_eq, hpieces]
    unfold classAhead
    rw [hf.dot]
    rfl
  have hcall : Reads bound (atSymbol "(") [] ([] ++ f) false := reads_atSymbol hf.call
  show Reads bound (named inner) ([.word name] ++ []) f _
  refine hnames.bind (Reads.bind_nothing hclass ?_)
  exact Reads.bind_nothing hcall (Reads.pure _)

theorem reads_wordPrimary_literal {inner : Grammar Expression} {text : Text}
    (h : (Piece.word text).isWordIn Vocabulary.literals = true) :
    Reads bound (wordPrimary inner) [.word text] f (.primary (.literal text)) := by
  refine reads_get (fun stream hpieces => ?_) (reads_takeText.map fun text =>
    Expression.primary (.literal text))
  have hword : stream.wordInAt 0 Vocabulary.literals = true := by
    rw [TokenStream.wordInAt_eq, hpieces]
    exact h
  rw [if_pos hword]

theorem reads_wordPrimary_name {inner : Grammar Expression} {name : Text} (hf : PrimaryEnd f)
    (h : (Piece.word name).isIdentifier = true) :
    Reads bound (wordPrimary inner) [.word name] f (.primary (.identifier name)) := by
  have hnone : ∀ word ∈ Vocabulary.reserved, (Piece.word name).isWord word = false :=
    fun _ => Piece.isWord_of_identifier h
  have hnew : Reads bound (takeWord "new") [] ([.word name] ++ f) false :=
    reads_takeWord_false (hnone _ (by decide))
  have hbranch : Reads bound (takeWord "new" >>= fun created => if created then creation inner
      else if true then named inner else fail .expression) [.word name] f
      (.primary (.identifier name)) := Reads.bind_nothing hnew (reads_named hf)
  -- the branch for names is taken, since an identifier is none of the reserved words
  refine reads_get (fun stream hpieces => ?_) hbranch
  have hword : ∀ word ∈ Vocabulary.reserved, stream.wordAt 0 word = false := by
    intro word hword
    rw [TokenStream.wordAt_eq, hpieces]
    exact hnone word hword
  have hliteral : stream.wordInAt 0 Vocabulary.literals = false := by
    rw [TokenStream.wordInAt_eq, hpieces]
    show (Piece.word name).isWordIn Vocabulary.literals = false
    unfold Piece.isWordIn
    rw [List.any_eq_false]
    intro word hliteral
    have hreserved : ∀ word ∈ Vocabulary.literals, word ∈ Vocabulary.reserved := by decide
    rw [hnone word (hreserved word hliteral)]
    decide
  have hname : stream.identifierAt 0 = true := by
    rw [TokenStream.identifierAt_eq, hpieces]
    exact h
  rw [hliteral, hword _ (by decide), hword _ (by decide), hname]
  rfl

theorem reads_primary_word {inner : Grammar Expression} {text : Text} {value : Expression}
    (h : Reads bound (wordPrimary inner) [.word text] f value) :
    Reads bound (primary inner) [.word text] f value := by
  refine reads_get (fun stream hpieces => ?_) h
  have hkind : ∀ test : TokenKind → Bool,
      stream.holds 0 (fun token => test token.kind) = test .word := by
    intro test
    rw [stream.kindAt_eq 0 test, hpieces]
    rfl
  rw [hkind fun kind => kind == .number || kind == .string, hkind (· == .word)]
  rfl

theorem reads_primary_literal {inner : Grammar Expression} {piece : Piece}
    (h : piece.kind = .number ∨ piece.kind = .string) :
    Reads bound (primary inner) [piece] f (.primary (.literal piece.text)) := by
  refine reads_get (fun stream hpieces => ?_) (reads_takeText.map fun text =>
    Expression.primary (.literal text))
  have hkind : stream.holds 0 (fun token => token.kind == .number || token.kind == .string) =
      true := by
    rw [stream.kindAt_eq 0 fun kind => kind == .number || kind == .string, hpieces]
    rcases h with h | h <;> simp [h]
  rw [if_pos hkind]

/-- An operand without operators around it is read back. -/
theorem reads_stem {tree : Expression} (h : Stem tree) (hf : PrimaryEnd f) :
    Reads (bound + 1) (primary (Reader.below bound expression)) tree.spelling f tree := by
  cases h with
  | identifier free => exact reads_primary_word (reads_wordPrimary_name hf free)
  | @literal text value =>
    show Reads _ _ [⟨TokenKind.ofText text, text, false⟩] f _
    rcases value with hkind | hkind | ⟨hkind, hword⟩
    · exact reads_primary_literal (.inl hkind)
    · exact reads_primary_literal (.inr hkind)
    · rw [hkind]
      exact reads_primary_word (reads_wordPrimary_literal hword)
  | @parenthesized inner inside =>
    rw [Expression.spelling, Expression.parts, spell_cons, spell_append]
    have hclose : Reads bound (symbol ")") [.symbol ")"] f () := reads_symbol (by decide)
    -- the expression inside is read with a smaller bound, up to the closing parenthesis
    have hinner : Reads bound (Reader.below bound expression) inner.spelling
        ([.symbol ")"] ++ f) inner :=
      Reads.below fun bound => inside.readBack bound _ (.parenthesis f)
    have hopen : Reads (bound + 1) (takeSymbol "(") [.symbol "("]
        (inner.spelling ++ [.symbol ")"] ++ f) true := reads_takeSymbol_true (by decide)
    have hbranch : Reads (bound + 1) (takeSymbol "(" >>= fun opened =>
        if opened then Reader.below bound expression >>= fun inner => symbol ")" >>= fun _ =>
          pure (.parenthesized inner)
        else if false then query else fail .expression)
        (.symbol "(" :: (inner.spelling ++ [.symbol ")"])) f (.parenthesized inner) :=
      Reads.bind_less hopen (hinner.bind (hclose.map fun _ => Expression.parenthesized inner))
    refine reads_get (fun stream hpieces => ?_) hbranch
    have hkind : ∀ test : TokenKind → Bool,
        stream.holds 0 (fun token => test token.kind) = test .symbol := by
      intro test
      rw [stream.kindAt_eq 0 test, hpieces]
      rfl
    have hquery : stream.symbolAt 0 "[" = false := by
      rw [TokenStream.symbolAt_eq, hpieces]
      rfl
    rw [hkind fun kind => kind == .number || kind == .string, hkind (· == .word), hquery]
    rfl

/-- No step where an operand ends. -/
theorem reads_step_none {inner : Grammar Expression} (hf : OperandEnd f) :
    Reads bound (step inner) [] f none := by
  have hlook : Reads bound (look (·.symbolInAt 0 Operators.trailing)) [] f false := by
    refine reads_look fun stream hpieces => ?_
    rw [TokenStream.symbolInAt_eq, hpieces]
    exact hf.isSymbolIn (by decide)
  refine Reads.bind_nothing (reads_takeSymbol_false (hf.isSymbol (by decide))) ?_
  refine Reads.bind_nothing (reads_takeSymbol_false (hf.isSymbol (by decide))) ?_
  refine Reads.bind_nothing (reads_takeSymbol_false (hf.isSymbol (by decide))) ?_
  exact Reads.bind_nothing hlook (Reads.pure none)

/-- An operator behind an operand. -/
theorem reads_step_operator {inner : Grammar Expression} {mark : Text}
    (h : mark ∈ Operators.trailing) :
    Reads bound (step inner) [.symbol mark] f (some (.operator mark)) := by
  have hall : ∀ mark ∈ Operators.trailing, (Piece.symbol mark).isSymbolIn Operators.trailing = true ∧
      (Piece.symbol mark).isSymbol "." = false ∧ (Piece.symbol mark).isSymbol "?." = false ∧
      (Piece.symbol mark).isSymbol "[" = false := by decide
  obtain ⟨htrailing, hdot, hsafe, hindex⟩ := hall mark h
  have hlook : Reads bound (look (·.symbolInAt 0 Operators.trailing)) [] ([.symbol mark] ++ f)
      true := by
    refine reads_look fun stream hpieces => ?_
    rw [TokenStream.symbolInAt_eq, hpieces]
    exact htrailing
  refine Reads.bind_nothing (reads_takeSymbol_false hdot) ?_
  refine Reads.bind_nothing (reads_takeSymbol_false hsafe) ?_
  refine Reads.bind_nothing (reads_takeSymbol_false hindex) ?_
  exact Reads.bind_nothing hlook (reads_takeText.map fun text => some (Step.operator text))

/-- Operators behind an operand are read; the first of them ends what they stand behind. -/
theorem reads_marks {inner : Grammar Expression} {marks : List Text}
    (h : ∀ mark ∈ marks, mark ∈ Operators.trailing) (hf : OperandEnd f) :
    Reads bound (Reader.many (step inner)) (spell ((marks.map Step.operator).flatMap Step.parts)) f
      (marks.map Step.operator) ∧
      PrimaryEnd (spell ((marks.map Step.operator).flatMap Step.parts) ++ f) := by
  apply reads_many_row PrimaryEnd
  · simp only [List.forall_mem_map]
    exact fun mark hmark g _ => reads_step_operator (h mark hmark)
  · simp only [List.forall_mem_map]
    exact fun mark hmark => ⟨List.cons_ne_nil _ _, fun g => .trailing (h mark hmark)⟩
  · exact hf.primary
  · exact reads_step_none hf

/-! ## Operators in front of operands -/

/-- A parenthesis that ends where nothing can be cast is no cast. -/
theorem refuses_castType {pieces : List Piece} (hguarded : Guarded pieces) (hf : PrimaryEnd f) :
    Refuses castType (.symbol "(" :: pieces ++ .symbol ")" :: f) := by
  intro stream hpieces type last hcast
  obtain ⟨opened, middle, hopen, htype, hclose, hcastable⟩ := castType_eq_ok.1 hcast
  obtain ⟨opening, hopening, -⟩ := symbol_ok hopen
  obtain ⟨closing, hclosing, hclosed⟩ := symbol_ok hclose
  obtain ⟨hformed, ⟨taken, htaken, hsame⟩, -⟩ := typeRef_ok _ _ _ htype
  have hinside := hsame.matchAll.inType (type.inType_of_mem hformed)
  have hboth : taken ++ closing :: last.pieces = pieces ++ .symbol ")" :: f := by
    rw [hpieces, List.cons_append] at hopening
    rw [← hclosing, ← htaken, (List.cons.inj hopening).2]
  have hnone : ∀ text ∉ typeSymbols, ∀ piece ∈ taken, piece.isSymbol text ≠ true := by
    intro text htext piece hmem hsymbol
    have hfence := Piece.not_inType_of_isFence (Piece.isFence_of_symbol hsymbol htext)
    rw [hinside piece hmem] at hfence
    cases hfence
  rcases List.append_eq_append_iff.1 hboth with ⟨more, hmore, hrest⟩ | ⟨more, hmore, hrest⟩
  · cases more with
    | nil =>
      obtain ⟨-, rfl⟩ := List.cons.inj hrest
      rw [hf.cast] at hcastable
      cases hcastable
    | cons next others =>
      -- the type ends inside the parenthesis, at one that is closed without being opened
      obtain ⟨rfl, -⟩ := List.cons.inj hrest
      obtain ⟨opening, hmem, hopening⟩ := hguarded taken _ others hmore hclosed
      exact hnone _ (by decide) opening hmem hopening
  · cases more with
    | nil =>
      obtain ⟨-, rfl⟩ := List.cons.inj hrest
      rw [hf.cast] at hcastable
      cases hcastable
    | cons next others =>
      obtain ⟨rfl, -⟩ := List.cons.inj hrest
      exact hnone ")" (by decide) _ (hmore ▸ List.mem_append_right _ List.mem_cons_self) rfl

/-- Nothing stands in front of a piece that is no symbol. -/
theorem reads_front_plain {piece : Piece} (h : piece.kind ≠ .symbol) :
    Reads bound front [] (piece :: f) none := by
  have hnone : ∀ text, piece.isSymbol text = false := by
    intro text
    rw [Bool.eq_false_iff]
    exact fun hsymbol => h (Piece.isSymbol_iff.1 hsymbol).1
  have hleading : Reads bound (look (·.symbolInAt 0 Operators.leading)) [] (piece :: f) false := by
    refine reads_look fun stream hpieces => ?_
    rw [TokenStream.symbolInAt_eq, hpieces, pieceAt_zero]
    exact List.any_eq_false.2 fun text _ => by rw [hnone text]; decide
  refine Reads.bind_nothing hleading ?_
  exact Reads.bind_nothing (reads_atSymbol (hnone _)) (Reads.pure none)

/-- Nothing stands in front of an operand without operators in front of it. -/
theorem reads_front_stem {stem : Expression} (h : Stem stem) (hf : PrimaryEnd f) :
    Reads bound front [] (stem.spelling ++ f) none := by
  cases h with
  | @parenthesized inner inside =>
    have hpieces : (Expression.parenthesized inner).spelling ++ f =
        .symbol "(" :: inner.spelling ++ .symbol ")" :: f := by
      rw [Expression.spelling, Expression.parts, spell_cons, spell_append]
      simp only [List.append_assoc, List.cons_append]
      rfl
    rw [hpieces]
    have hleading : Reads bound (look (·.symbolInAt 0 Operators.leading)) []
        (.symbol "(" :: inner.spelling ++ .symbol ")" :: f) false := by
      refine reads_look fun stream hpieces => ?_
      rw [TokenStream.symbolInAt_eq, hpieces, List.cons_append, pieceAt_zero]
      decide
    refine Reads.bind_nothing hleading (Reads.bind_nothing (reads_atSymbol rfl) ?_)
    exact (refuses_castType inside.guarded hf).attempt.map (Option.map Front.cast)
  | identifier => exact reads_front_plain fun hkind => by cases hkind
  | @literal text value =>
    show Reads bound front [] (⟨TokenKind.ofText text, text, false⟩ :: f) none
    refine reads_front_plain ?_
    rcases value with hkind | hkind | ⟨hkind, -⟩ <;> simp [hkind]

theorem reads_front_operator {sign : Text} (h : sign ∈ Operators.leading) :
    Reads bound front [.symbol sign] f (some (.operator sign)) := by
  have hall : ∀ sign ∈ Operators.leading, (Piece.symbol sign).isSymbolIn Operators.leading = true := by
    decide
  have hleading : Reads bound (look (·.symbolInAt 0 Operators.leading)) [] ([.symbol sign] ++ f)
      true := by
    refine reads_look fun stream hpieces => ?_
    rw [TokenStream.symbolInAt_eq, hpieces]
    exact hall sign h
  exact Reads.bind_nothing hleading (reads_takeText.map fun text => some (Front.operator text))

/-- Operators in front of an operand are read. -/
theorem reads_signs {signs : List Text} (h : ∀ sign ∈ signs, sign ∈ Operators.leading)
    (hf : Reads bound front [] f none) :
    Reads bound (Reader.many front) (spell ((signs.map Front.operator).flatMap Front.parts)) f
      (signs.map Front.operator) := by
  refine (reads_many_row (fun _ => True) ?_ ?_ trivial hf).1
  · simp only [List.forall_mem_map]
    exact fun sign hsign g _ => reads_front_operator (h sign hsign)
  · simp only [List.forall_mem_map]
    exact fun sign _ => ⟨List.cons_ne_nil _ _, fun _ => trivial⟩

/-- An operand with operators behind it, and nothing in front of it. -/
theorem reads_stepped {stem : Expression} (hstem : Stem stem) {marks : List Text}
    (hmarks : ∀ mark ∈ marks, mark ∈ Operators.trailing) (hf : OperandEnd f) {operand : Expression}
    (hoperand : operand = (marks.map Step.operator).foldl Step.apply stem) :
    Reads (bound + 1) (stepped (Reader.below bound expression)) operand.spelling f operand ∧
      Reads (bound + 1) front [] (operand.spelling ++ f) none := by
  obtain ⟨hreads, hend⟩ := reads_marks hmarks hf
  rw [Expression.spelling, hoperand, parts_steps, spell_append]
  refine ⟨(reads_stem hstem hend).bind (hreads.map fun steps => steps.foldl Step.apply stem), ?_⟩
  rw [List.append_assoc]
  exact reads_front_stem hstem hend

/-- An operand with the operators around it is read back. -/
theorem reads_unary {tree : Expression} (h : Readable tree) (hunary : tree.isUnary = true)
    (hf : OperandEnd f) :
    Reads (bound + 1) (unary (Reader.below bound expression)) tree.spelling f tree := by
  obtain ⟨signs, marks, stem, rfl, hstem, hsigns, hmarks, -⟩ := h.operand hunary
  rw [Expression.spelling, parts_fronts, spell_append]
  obtain ⟨hoperand, hfront⟩ := reads_stepped hstem hmarks hf rfl
  exact (reads_signs hsigns hfront).bind (hoperand.map fun operand =>
    (signs.map Front.operator).foldr Front.apply operand)

end Grammar

end ApexLayout
