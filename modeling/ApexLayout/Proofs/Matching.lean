import ApexLayout.Proofs.Piece
import Mathlib.Data.List.Forall2

/-!
Pieces of a source against pieces of its printed form.

Printing keeps every token but writes some keywords in small letters, so a piece of the source
`Matches` the printed one. Two lists of pieces are `Similar` when they match as far as a rule can
look ahead without consuming anything.
-/

namespace ApexLayout

theorem Text.toLower_toLower (c : Char) : c.toLower.toLower = c.toLower := by
  unfold Char.toLower
  by_cases h : c.val ≥ 'A'.val ∧ c.val ≤ 'Z'.val
  · rw [dif_pos h, dif_neg]
    intro hagain
    have hlow := h.1
    have hhigh := hagain.2
    have hA : 'A'.val.toNat = 65 := rfl
    have hZ : 'Z'.val.toNat = 90 := rfl
    have hshift : ('a'.val - 'A'.val).toNat = 32 := rfl
    have hbound := h.2
    simp only [ge_iff_le, UInt32.le_iff_toNat_le, UInt32.toNat_add] at hlow hhigh hbound
    omega
  · rw [dif_neg h, dif_neg h]

@[simp] theorem Text.lower_lower (text : Text) : text.lower.lower = text.lower := by
  unfold Text.lower
  rw [List.map_map]
  exact List.map_congr_left fun c _ => Text.toLower_toLower c

/-- The reserved words that printing writes in small letters. -/
def Vocabulary.printed : List Text :=
  ["class", "interface", "enum", "extends", "implements", "void", "if", "else", "while", "for",
    "try", "catch", "finally", "return", "throw", "break", "continue", "this", "super", "new",
    "instanceof"].map String.toList

theorem Vocabulary.printed_reserved : ∀ word ∈ printed, word ∈ reserved := by decide

/-- Texts of the same word in the two lists differ at most in case. -/
theorem Text.sameWord_lower (text word : Text) :
    Text.sameWord text.lower word = Text.sameWord text word := by
  unfold Text.sameWord
  rw [Text.lower_lower]

namespace Piece

/-- A piece of the source matches a printed piece: the texts are the same, or the printed one is a
keyword in small letters. -/
structure Matches (source printed : Piece) : Prop where
  kind : source.kind = printed.kind
  text : source.text = printed.text ∨
    source.kind = .word ∧ printed.text = source.text.lower ∧ printed.text ∈ Vocabulary.printed

/-- Two pieces are the same token up to gluing. -/
structure Same (first second : Piece) : Prop where
  kind : first.kind = second.kind
  text : first.text = second.text

theorem Same.refl (piece : Piece) : Same piece piece := ⟨rfl, rfl⟩

theorem Same.matches {first second : Piece} (h : Same first second) : Matches first second :=
  ⟨h.kind, .inl h.text⟩

/-- A test that gives the same answer on matching pieces. -/
def Respects (test : Piece → Bool) : Prop :=
  ∀ source printed : Piece, source.Matches printed → test source = test printed

theorem respects_isSymbol (text : Text) : Respects (·.isSymbol text) := by
  intro source printed h
  show source.isSymbol text = printed.isSymbol text
  unfold isSymbol
  rcases h.text with htext | ⟨hword, -, -⟩
  · rw [h.kind, htext]
  · rw [← h.kind, hword]
    rfl

theorem respects_isWord (word : Text) : Respects (·.isWord word) := by
  intro source printed h
  show source.isWord word = printed.isWord word
  unfold isWord
  rcases h.text with htext | ⟨-, htext, -⟩
  · rw [h.kind, htext]
  · rw [h.kind, htext, Text.sameWord_lower]

theorem respects_any {γ : Type} (tests : List γ) (test : γ → Piece → Bool)
    (h : ∀ item, Respects (test item)) : Respects fun piece => tests.any (test · piece) := by
  intro source printed hmatch
  show tests.any (test · source) = tests.any (test · printed)
  congr 1
  funext item
  exact h item source printed hmatch

theorem respects_isWordIn (words : List Text) : Respects (·.isWordIn words) :=
  respects_any words (fun word piece => piece.isWord word) respects_isWord

theorem respects_isSymbolIn (symbols : List Text) : Respects (·.isSymbolIn symbols) :=
  respects_any symbols (fun symbol piece => piece.isSymbol symbol) respects_isSymbol

theorem respects_kind (test : TokenKind → Bool) : Respects fun piece => test piece.kind := by
  intro source printed h
  show test source.kind = test printed.kind
  rw [h.kind]

theorem respects_isIdentifier : Respects isIdentifier := by
  intro source printed h
  have hwords := respects_isWordIn Vocabulary.reserved source printed h
  simp only at hwords
  unfold isIdentifier
  rw [h.kind, hwords]

theorem Matches.isSymbol {source printed : Piece} (h : source.Matches printed) (text : Text) :
    source.isSymbol text = printed.isSymbol text :=
  respects_isSymbol text source printed h

/-- Printing changes no identifier. -/
theorem Matches.same_of_identifier {source printed : Piece} (h : source.Matches printed)
    (hprinted : printed.isIdentifier = true) : source.Same printed := by
  rcases h.text with htext | ⟨-, htext, hmem⟩
  · exact ⟨h.kind, htext⟩
  · have hword := isWord_of_identifier hprinted (Vocabulary.printed_reserved _ hmem)
    unfold Piece.isWord Text.sameWord at hword
    rw [isIdentifier_word hprinted] at hword
    simp at hword

/-- Printing changes no token but words. -/
theorem Matches.same_of_kind {source printed : Piece} (h : source.Matches printed)
    (hkind : printed.kind ≠ .word) : source.Same printed := by
  rcases h.text with htext | ⟨hword, -, -⟩
  · exact ⟨h.kind, htext⟩
  · rw [h.kind] at hword
    exact absurd hword hkind

end Piece

/-- Pieces of the source match printed pieces one by one. -/
abbrev MatchAll : List Piece → List Piece → Prop := List.Forall₂ Piece.Matches

/-- Two lists hold the same tokens up to gluing. -/
abbrev SameAll : List Piece → List Piece → Prop := List.Forall₂ Piece.Same

theorem SameAll.matchAll {first second : List Piece} (h : SameAll first second) :
    MatchAll first second :=
  h.imp fun _ _ => Piece.Same.matches

theorem SameAll.refl (pieces : List Piece) : SameAll pieces pieces :=
  List.forall₂_same.2 fun piece _ => Piece.Same.refl piece

theorem MatchAll.append {p q p' q' : List Piece} (h : MatchAll p q) (h' : MatchAll p' q') :
    MatchAll (p ++ p') (q ++ q') := List.rel_append h h'

theorem SameAll.append {p q p' q' : List Piece} (h : SameAll p q) (h' : SameAll p' q') :
    SameAll (p ++ p') (q ++ q') := List.rel_append h h'

/-! ## Looking ahead -/

/-- Whether no rule looks past the piece before it is consumed: every symbol but a dot and an
opening bracket. -/
def Piece.isStop (piece : Piece) : Bool :=
  piece.kind == .symbol && !piece.isSymbol "." && !piece.isSymbol "["

/-- Two lists match up to the first piece past which no rule looks. -/
inductive Similar : List Piece → List Piece → Prop
  | nil : Similar [] []
  | stop {source printed : Piece} {rest rest' : List Piece} (head : source.Matches printed)
      (stops : source.isStop = true) : Similar (source :: rest) (printed :: rest')
  | cons {source printed : Piece} {rest rest' : List Piece} (head : source.Matches printed)
      (tail : Similar rest rest') : Similar (source :: rest) (printed :: rest')

namespace Similar

theorem append {p q rest rest' : List Piece} (h : MatchAll p q) (hrest : Similar rest rest') :
    Similar (p ++ rest) (q ++ rest') := by
  induction h with
  | nil => exact hrest
  | cons hhead _ ih => exact .cons hhead ih

/-- A symbol that is neither a dot nor a bracket ends what has to match. -/
theorem of_symbol {source printed : Piece} {rest rest' : List Piece} {text : Text}
    (hsource : source.isSymbol text = true) (hprinted : printed.isSymbol text = true)
    (hdot : text ≠ [ '.' ]) (hbracket : text ≠ [ '[' ]) :
    Similar (source :: rest) (printed :: rest') := by
  obtain ⟨hkind, htext⟩ := Piece.isSymbol_iff.1 hsource
  obtain ⟨hkind', htext'⟩ := Piece.isSymbol_iff.1 hprinted
  refine .stop ⟨by rw [hkind, hkind'], .inl (by rw [htext, htext'])⟩ ?_
  unfold Piece.isStop
  simp only [Bool.and_eq_true, Bool.not_eq_true', beq_iff_eq]
  exact ⟨⟨hkind, Piece.isSymbol_eq_false hsource hdot⟩, Piece.isSymbol_eq_false hsource hbracket⟩

/-- What a test says about the next piece. -/
theorem first {pieces pieces' : List Piece} (h : Similar pieces pieces') {test : Piece → Bool}
    (htest : Piece.Respects test) : pieceAt pieces 0 test = pieceAt pieces' 0 test := by
  cases h with
  | nil => rfl
  | stop hhead _ => simpa using htest _ _ hhead
  | cons hhead _ => simpa using htest _ _ hhead

/-- What tests say about the next two pieces, where the first is one that rules look past. -/
theorem second {pieces pieces' : List Piece} (h : Similar pieces pieces')
    {test test' : Piece → Bool} (htest : Piece.Respects test) (htest' : Piece.Respects test')
    (hpast : ∀ piece, test piece = true → piece.isStop = false) :
    (pieceAt pieces 0 test && pieceAt pieces 1 test') =
      (pieceAt pieces' 0 test && pieceAt pieces' 1 test') := by
  cases h with
  | nil => rfl
  | cons hhead htail => simp [htest _ _ hhead, htail.first htest']
  | @stop source printed _ _ hhead hstop =>
    have hfirst : test source = false := by
      cases hsource : test source with
      | false => rfl
      | true => rw [hpast source hsource] at hstop; simp at hstop
    simp [← htest _ _ hhead, hfirst]

/-- What tests say about the next three pieces, where the first two are ones that rules look past. -/
theorem third {pieces pieces' : List Piece} (h : Similar pieces pieces')
    {test test' test'' : Piece → Bool} (htest : Piece.Respects test)
    (htest' : Piece.Respects test') (htest'' : Piece.Respects test'')
    (hpast : ∀ piece, test piece = true → piece.isStop = false)
    (hpast' : ∀ piece, test' piece = true → piece.isStop = false) :
    (pieceAt pieces 0 test && pieceAt pieces 1 test' && pieceAt pieces 2 test'') =
      (pieceAt pieces' 0 test && pieceAt pieces' 1 test' && pieceAt pieces' 2 test'') := by
  cases h with
  | nil => rfl
  | cons hhead htail =>
    simp only [pieceAt_zero, pieceAt_one, pieceAt_two, htest _ _ hhead, Bool.and_assoc]
    rw [htail.second htest' htest'' hpast']
  | @stop source printed _ _ hhead hstop =>
    have hfirst : test source = false := by
      cases hsource : test source with
      | false => rfl
      | true => rw [hpast source hsource] at hstop; simp at hstop
    simp [← htest _ _ hhead, hfirst]

end Similar

theorem Piece.not_isStop_of_word {piece : Piece} (h : piece.kind = .word) :
    piece.isStop = false := by
  unfold Piece.isStop
  simp [h]

/-- Rules look past a word, so what stands behind it matches. -/
theorem Similar.two {pieces rest : List Piece} {first second : Piece}
    (h : Similar pieces (first :: second :: rest)) (hword : first.kind = .word) :
    ∃ first' second' rest', pieces = first' :: second' :: rest' ∧ first'.Matches first ∧
      second'.Matches second := by
  cases h with
  | stop hhead hstop =>
    rw [Piece.not_isStop_of_word (hhead.kind.trans hword)] at hstop
    exact absurd hstop (by decide)
  | cons hhead htail =>
    cases htail with
    | stop hsecond => exact ⟨_, _, _, rfl, hhead, hsecond⟩
    | cons hsecond => exact ⟨_, _, _, rfl, hhead, hsecond⟩

theorem Piece.not_isStop_of_dot {piece : Piece} (h : piece.isSymbol "." = true) :
    piece.isStop = false := by
  unfold Piece.isStop
  rw [h]
  simp only [Bool.not_true, Bool.and_false, Bool.false_and]

theorem Piece.not_isStop_of_bracket {piece : Piece} (h : piece.isSymbol "[" = true) :
    piece.isStop = false := by
  unfold Piece.isStop
  rw [h]
  simp only [Bool.not_true, Bool.and_false]

end ApexLayout
