import ApexLayout.Grammar.Basic
import ApexLayout.Grammar.Vocabulary
import ApexLayout.Proofs.Reader

/-!
What the grammar sees of a token stream.

Of a token the rules use its kind, its text and, where operators are glued, whether it touches the
token before: its `Piece`. `Reads` says that a rule reads given pieces in front of given others, on
every stream; `Refuses` says that it has no result there.
-/

namespace ApexLayout

/-- What the grammar sees of a token. -/
structure Piece where
  kind : TokenKind
  text : Text
  /-- Whether it is a `>` or a `=` that touches the token before it. -/
  glued : Bool
deriving DecidableEq

namespace Piece

/-- A symbol with a gap in front of it, or one that is never glued. -/
def symbol (text : Text) : Piece := ⟨.symbol, text, false⟩

/-- A word. -/
def word (text : Text) : Piece := ⟨.word, text, false⟩

/-- Whether the piece is the given symbol. -/
def isSymbol (piece : Piece) (symbol : Text) : Bool :=
  piece.kind == .symbol && piece.text == symbol

/-- Whether the piece is the given word, in any case of its letters. -/
def isWord (piece : Piece) (word : Text) : Bool :=
  piece.kind == .word && Text.sameWord piece.text word

/-- Whether the piece is one of the given words. -/
def isWordIn (piece : Piece) (words : List Text) : Bool := words.any piece.isWord

/-- Whether the piece is one of the given symbols. -/
def isSymbolIn (piece : Piece) (symbols : List Text) : Bool := symbols.any piece.isSymbol

/-- Whether the piece is an identifier. -/
def isIdentifier (piece : Piece) : Bool :=
  piece.kind == .word && !piece.isWordIn Vocabulary.reserved

theorem isSymbol_iff {piece : Piece} {text : Text} :
    piece.isSymbol text = true ↔ piece.kind = .symbol ∧ piece.text = text := by
  unfold isSymbol
  simp

theorem isWord_iff {piece : Piece} {word : Text} :
    piece.isWord word = true ↔ piece.kind = .word ∧ Text.lower piece.text = Text.lower word := by
  unfold isWord Text.sameWord
  simp

/-- A piece is one of some words and none of others. -/
theorem isWordIn_eq_false {piece : Piece} {words others : List Text}
    (h : piece.isWordIn words = true)
    (hapart : ∀ word ∈ words, ∀ other ∈ others, Text.lower word ≠ Text.lower other) :
    piece.isWordIn others = false := by
  obtain ⟨word, hmem, hword⟩ := List.any_eq_true.1 h
  unfold isWordIn
  rw [List.any_eq_false]
  intro other hother hsame
  exact hapart word hmem other hother ((isWord_iff.1 hword).2.symm.trans (isWord_iff.1 hsame).2)

/-- A piece is at most one symbol. -/
theorem isSymbol_eq_false {piece : Piece} {first second : Text} (h : piece.isSymbol first = true)
    (hne : first ≠ second) : piece.isSymbol second = false := by
  obtain ⟨-, rfl⟩ := isSymbol_iff.1 h
  unfold isSymbol
  simp [hne]

/-- A word is no symbol. -/
theorem isSymbol_of_word {piece : Piece} (h : piece.kind = .word) (text : Text) :
    piece.isSymbol text = false := by
  unfold isSymbol
  simp [h]

/-- A symbol is no word. -/
theorem isWord_of_symbol {piece : Piece} (h : piece.kind = .symbol) (text : Text) :
    piece.isWord text = false := by
  unfold isWord
  simp [h]

theorem isIdentifier_word {piece : Piece} (h : piece.isIdentifier = true) : piece.kind = .word := by
  unfold isIdentifier at h
  simp at h
  exact h.1

/-- An identifier is none of the reserved words. -/
theorem isWord_of_identifier {piece : Piece} {word : Text} (h : piece.isIdentifier = true)
    (hword : word ∈ Vocabulary.reserved) : piece.isWord word = false := by
  unfold isIdentifier isWordIn at h
  simp only [Bool.and_eq_true, Bool.not_eq_true', List.any_eq_false] at h
  simpa using h.2 word hword

end Piece

/-- What the grammar sees of the token. -/
def Token.piece (token : Token) : Piece :=
  ⟨token.kind, token.text, token.touches [ '>' ] || token.touches [ '=' ]⟩

namespace TokenStream

/-- What the grammar sees of the stream. -/
def pieces (stream : TokenStream) : List Piece := stream.tokens.map Token.piece

theorem remaining_eq_length (stream : TokenStream) : stream.remaining = stream.pieces.length := by
  rw [stream.remaining_eq, pieces, List.length_map]

@[simp] theorem pieces_skip (stream : TokenStream) (count : Nat) :
    (stream.skip count).pieces = stream.pieces.drop count := by
  simp only [pieces, skip, List.map_drop]

/-- Behind the first pieces of a stream stand the others. -/
theorem pieces_skip_append {stream : TokenStream} {taken rest : List Piece}
    (h : stream.pieces = taken ++ rest) : (stream.skip taken.length).pieces = rest := by
  rw [pieces_skip, h, List.drop_left]

theorem pieces_skip_one {stream : TokenStream} {piece : Piece} {rest : List Piece}
    (h : stream.pieces = piece :: rest) : (stream.skip 1).pieces = rest := by
  rw [pieces_skip, h, List.drop_one, List.tail_cons]

end TokenStream

/-- Whether the piece at an index passes a test; there is none behind the last piece. -/
def pieceAt (pieces : List Piece) (index : Nat) (test : Piece → Bool) : Bool :=
  (pieces[index]?).any test

@[simp] theorem pieceAt_nil (index : Nat) (test : Piece → Bool) :
    pieceAt [] index test = false := by
  simp [pieceAt]

@[simp] theorem pieceAt_zero (piece : Piece) (rest : List Piece) (test : Piece → Bool) :
    pieceAt (piece :: rest) 0 test = test piece := by
  simp [pieceAt]

@[simp] theorem pieceAt_succ (piece : Piece) (rest : List Piece) (index : Nat)
    (test : Piece → Bool) : pieceAt (piece :: rest) (index + 1) test = pieceAt rest index test := by
  simp [pieceAt]

@[simp] theorem pieceAt_one (piece : Piece) (rest : List Piece) (test : Piece → Bool) :
    pieceAt (piece :: rest) 1 test = pieceAt rest 0 test := pieceAt_succ piece rest 0 test

@[simp] theorem pieceAt_two (piece : Piece) (rest : List Piece) (test : Piece → Bool) :
    pieceAt (piece :: rest) 2 test = pieceAt rest 1 test := pieceAt_succ piece rest 1 test

namespace TokenStream

variable (stream : TokenStream) (index : Nat)

/-- A test that looks at a token as a piece looks at the pieces of the stream. -/
theorem holds_eq (test : Piece → Bool) :
    stream.holds index (fun token => test token.piece) = pieceAt stream.pieces index test := by
  unfold holds pieceAt pieces
  rw [List.getElem?_map, Option.any_map]

theorem symbolAt_eq (symbol : Text) :
    stream.symbolAt index symbol = pieceAt stream.pieces index (·.isSymbol symbol) :=
  stream.holds_eq index (·.isSymbol symbol)

theorem wordAt_eq (word : Text) :
    stream.wordAt index word = pieceAt stream.pieces index (·.isWord word) :=
  stream.holds_eq index (·.isWord word)

theorem wordInAt_eq (words : List Text) :
    stream.wordInAt index words = pieceAt stream.pieces index (·.isWordIn words) :=
  stream.holds_eq index (·.isWordIn words)

theorem symbolInAt_eq (symbols : List Text) :
    stream.symbolInAt index symbols = pieceAt stream.pieces index (·.isSymbolIn symbols) :=
  stream.holds_eq index (·.isSymbolIn symbols)

theorem identifierAt_eq :
    stream.identifierAt index = pieceAt stream.pieces index Piece.isIdentifier :=
  stream.holds_eq index Piece.isIdentifier

theorem kindAt_eq (test : TokenKind → Bool) :
    stream.holds index (fun token => test token.kind) =
      pieceAt stream.pieces index (fun piece => test piece.kind) :=
  stream.holds_eq index (fun piece => test piece.kind)

/-- The next text is that of the first piece. -/
theorem next?_eq : stream.next? = stream.pieces.head?.map Piece.text := by
  unfold next? pieces
  cases stream.tokens <;> rfl

theorem tokens_isEmpty_eq : stream.tokens.isEmpty = stream.pieces.isEmpty := by
  unfold pieces
  rw [List.isEmpty_map]

end TokenStream

namespace Grammar

variable {α β : Type}

/-! ## Reading given pieces -/

/-- Wherever the pieces `taken` stand in front of the pieces `rest`, and less than a bound is left,
the rule reads the former as a value and stops in front of the latter. -/
def Reads (bound : Nat) (rule : Grammar α) (taken rest : List Piece) (value : α) : Prop :=
  ∀ stream : TokenStream, stream.remaining < bound → stream.pieces = taken ++ rest →
    rule stream = .ok value (stream.skip taken.length)

/-- Wherever the pieces `rest` stand, the rule has no result. -/
def Refuses (rule : Grammar α) (rest : List Piece) : Prop :=
  ∀ stream : TokenStream, stream.pieces = rest → ∀ value final, rule stream ≠ .ok value final

theorem Reads.mono {bound less : Nat} {rule : Grammar α} {taken rest : List Piece} {value : α}
    (h : Reads bound rule taken rest value) (hless : less ≤ bound) :
    Reads less rule taken rest value :=
  fun stream hstream => h stream (Nat.lt_of_lt_of_le hstream hless)

/-- Parts of a sequence are read one behind the other; the second part may be bounded by what the
first leaves. -/
theorem Reads.bind_of_le {bound inner : Nat} {first : Grammar α} {next : α → Grammar β}
    {taken more rest : List Piece} {a : α} {b : β}
    (hfirst : Reads bound first taken (more ++ rest) a) (hnext : Reads inner (next a) more rest b)
    (hle : bound ≤ inner + taken.length) : Reads bound (first >>= next) (taken ++ more) rest b := by
  intro stream hbound hpieces
  rw [List.append_assoc] at hpieces
  have hmiddle : (stream.skip taken.length).pieces = more ++ rest :=
    stream.pieces_skip_append hpieces
  have hsize := stream.remaining_eq_length
  rw [hpieces, List.length_append] at hsize
  rw [Reader.bind_of_ok (hfirst stream hbound hpieces),
    hnext _ (by simp only [TokenStream.remaining_skip]; omega) hmiddle,
    TokenStream.skip_skip, List.length_append]

theorem Reads.bind {bound : Nat} {first : Grammar α} {next : α → Grammar β}
    {taken more rest : List Piece} {a : α} {b : β}
    (hfirst : Reads bound first taken (more ++ rest) a) (hnext : Reads bound (next a) more rest b) :
    Reads bound (first >>= next) (taken ++ more) rest b :=
  hfirst.bind_of_le hnext (by omega)

/-- Behind a piece that was read, less is left. -/
theorem Reads.bind_less {bound : Nat} {first : Grammar α} {next : α → Grammar β} {piece : Piece}
    {more rest : List Piece} {a : α} {b : β}
    (hfirst : Reads (bound + 1) first [piece] (more ++ rest) a)
    (hnext : Reads bound (next a) more rest b) :
    Reads (bound + 1) (first >>= next) (piece :: more) rest b :=
  hfirst.bind_of_le hnext (by simp)

/-- A first part that takes nothing leaves everything to the second. -/
theorem Reads.bind_nothing {bound : Nat} {first : Grammar α} {next : α → Grammar β}
    {taken rest : List Piece} {a : α} {b : β} (hfirst : Reads bound first [] (taken ++ rest) a)
    (hnext : Reads bound (next a) taken rest b) : Reads bound (first >>= next) taken rest b :=
  hfirst.bind hnext

/-- A value that is only returned takes nothing. -/
theorem Reads.pure {bound : Nat} {rest : List Piece} (value : α) :
    Reads bound (Pure.pure value) [] rest value := by
  intro stream _ _
  rfl

/-- A result is returned behind what the first part takes. -/
theorem Reads.map {bound : Nat} {first : Grammar α} {taken rest : List Piece} {a : α}
    (f : α → β) (hfirst : Reads bound first taken rest a) :
    Reads bound (first >>= fun a => Pure.pure (f a)) taken rest (f a) := by
  have hreturn : Reads bound (Pure.pure (f a)) [] rest (f a) := Reads.pure (f a)
  have hfirst' : Reads bound first taken ([] ++ rest) a := hfirst
  have h : Reads bound (first >>= fun a => Pure.pure (f a)) (taken ++ []) rest (f a) :=
    hfirst'.bind hreturn
  rwa [List.append_nil] at h

theorem Reads.attempt {bound : Nat} {rule : Grammar α} {taken rest : List Piece} {value : α}
    (h : Reads bound rule taken rest value) :
    Reads bound (Reader.attempt rule) taken rest (some value) := by
  intro stream hbound hpieces
  exact Reader.attempt_eq_some.2 (h stream hbound hpieces)

theorem Refuses.attempt {bound : Nat} {rule : Grammar α} {rest : List Piece}
    (h : Refuses rule rest) : Reads bound (Reader.attempt rule) [] rest none := by
  intro stream _ hpieces
  exact Reader.attempt_eq_none.2 ⟨rfl, h stream hpieces⟩

theorem Reads.optional_some {bound : Nat} {test : Grammar Bool} {rule : Grammar α}
    {taken more rest : List Piece} {value : α} (htest : Reads bound test taken (more ++ rest) true)
    (hrule : Reads bound rule more rest value) :
    Reads bound (Reader.optional test rule) (taken ++ more) rest (some value) :=
  htest.bind (hrule.map some)

theorem Reads.optional_none {bound : Nat} {test : Grammar Bool} {rule : Grammar α}
    {taken rest : List Piece} (htest : Reads bound test taken rest false) :
    Reads bound (Reader.optional test rule) taken rest none := by
  have hreturn : Reads bound (Pure.pure (none : Option α)) [] rest none := Reads.pure none
  have htest' : Reads bound test taken ([] ++ rest) false := htest
  have h : Reads bound (Reader.optional test rule) (taken ++ []) rest none := htest'.bind hreturn
  rwa [List.append_nil] at h

/-! ## Recursion -/

/-- A recursion reads what its rule reads, with the recursion bounded by what is left. -/
theorem Reads.recursive {rule : Grammar α → Grammar α} {taken rest : List Piece} {value : α}
    (h : ∀ bound, Reads (bound + 1) (rule (Reader.below bound (Reader.recursive rule))) taken rest
      value) (bound : Nat) : Reads bound (Reader.recursive rule) taken rest value := by
  intro stream _ hpieces
  refine (Reader.recursive_run rule stream).trans ?_
  exact h stream.remaining stream (Nat.lt_succ_self _) hpieces

/-- A bounded rule reads what the rule reads. -/
theorem Reads.below {bound : Nat} {rule : Grammar α} {taken rest : List Piece} {value : α}
    (h : ∀ bound, Reads bound rule taken rest value) :
    Reads bound (Reader.below bound rule) taken rest value := by
  intro stream hbound hpieces
  exact (Reader.below_run hbound).trans (h bound stream hbound hpieces)

/-! ## Repetition -/

theorem Reads.many_nil {bound : Nat} {item : Grammar (Option α)} {rest : List Piece}
    (h : Reads bound item [] rest none) : Reads bound (Reader.many item) [] rest [] := by
  intro stream hbound hpieces
  exact Reader.many_eq_ok.2 (.stop (h stream hbound hpieces))

theorem Reads.many_cons {bound : Nat} {item : Grammar (Option α)} {piece : Piece}
    {taken more rest : List Piece} {value : α} {values : List α}
    (hitem : Reads bound item (piece :: taken) (more ++ rest) (some value))
    (hmany : Reads bound (Reader.many item) more rest values) :
    Reads bound (Reader.many item) (piece :: taken ++ more) rest (value :: values) := by
  intro stream hbound hpieces
  rw [List.append_assoc] at hpieces
  have hsize := stream.remaining_eq_length
  rw [hpieces] at hsize
  simp only [List.length_append, List.length_cons] at hsize
  have hmiddle : (stream.skip (piece :: taken).length).pieces = more ++ rest :=
    stream.pieces_skip_append hpieces
  have hrest := hmany _ (by simp only [TokenStream.remaining_skip]; omega) hmiddle
  refine Reader.many_eq_ok.2 (.round (hitem stream hbound hpieces) ?_ ?_)
  · show (stream.skip _).remaining < stream.remaining
    simp only [TokenStream.remaining_skip, List.length_cons]
    omega
  · rw [List.length_append, ← TokenStream.skip_skip]
    exact Reader.many_eq_ok.1 hrest

end Grammar

end ApexLayout
