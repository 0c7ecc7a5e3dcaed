import ApexLayout.Proofs.Induction
import ApexLayout.Proofs.Printing
import ApexLayout.Proofs.Replay.Operators
import ApexLayout.Proofs.Replay.Type
import ApexLayout.Proofs.Spelling.Spelled

/-!
Parts as they are written.

`Part.text` is what a part is written as, and `Part.Legible` says that this text is cut into the
pieces of the part again. What an expression may begin with and end with is fixed by a few
characters, so most neighbours are kept apart once and for all.
-/

namespace ApexLayout

/-! ## Neighbours -/

namespace Scan

/-- Symbols hold no letters and digits, and no quotes. -/
theorem symbols_not_word : ∀ symbol ∈ symbols, ∀ c ∈ symbol,
    isWordPart c = false ∧ c ≠ '\x27' := by
  have hall : symbols.all (·.all fun c => !isWordPart c && c != '\x27') = true := by decide
  intro symbol hsymbol c hc
  simpa using List.all_eq_true.1 (List.all_eq_true.1 hall symbol hsymbol) c hc

theorem isWordPart_of_start {c : Char} (h : isWordStart c = true) : isWordPart c = true := by
  unfold isWordStart at h
  unfold isWordPart Char.isAlphanum
  rcases Bool.or_eq_true_iff.1 h with halpha | hunder
  · rw [halpha]
    rfl
  · rw [hunder, Bool.or_true]

theorem isBlank_of_start {c : Char} (h : isWordStart c = true) : Text.isBlank c = false := by
  by_contra hblank
  have hpart := isWordPart_of_blank (Bool.not_eq_false _ ▸ hblank)
  rw [isWordPart_of_start h] at hpart
  cases hpart

/-- No word begins with a digit. -/
theorem isDigit_of_start {c : Char} (h : isWordStart c = true) : c.isDigit = false := by
  have hscore : ('_' : Char).isDigit = false := by decide
  unfold isWordStart at h
  rcases Bool.or_eq_true_iff.1 h with halpha | hunder
  · unfold Char.isAlpha Char.isUpper Char.isLower at halpha
    unfold Char.isDigit
    simp only [Bool.or_eq_true, Bool.and_eq_true, decide_eq_true_eq, Bool.and_eq_false_iff,
      decide_eq_false_iff_not, UInt32.le_iff_toNat_le, ge_iff_le] at halpha ⊢
    have hA : 'A'.val.toNat = 65 := rfl
    have ha : 'a'.val.toNat = 97 := rfl
    have hnine : '9'.val.toNat = 57 := rfl
    omega
  · rw [beq_iff_eq.1 hunder]
    exact hscore

theorem isWordPart_of_digit {c : Char} (h : c.isDigit = true) : isWordPart c = true := by
  unfold isWordPart Char.isAlphanum
  rw [h, Bool.or_true, Bool.true_or]

end Scan

/-- A text whose first character passes a test. -/
theorem Text.exists_first {text : Text} {test : Char → Bool} (h : text.head?.any test = true) :
    ∃ c rest, text = c :: rest ∧ test c = true := by
  cases text with
  | nil => cases h
  | cons c rest => exact ⟨c, rest, rfl, h⟩

/-- The symbols that an expression may begin with, as characters, and the quote. -/
def Text.openingSigns : List Char := ['\x27', '(', '+', '-', '!', '~']

/-- Whether an expression may begin with the character. -/
def Text.isOpening (c : Char) : Bool :=
  Scan.isWordStart c || c.isDigit || Text.openingSigns.contains c

/-- The characters other than blanks that may stand right behind an expression or a type. -/
def Text.closingSigns : List Char :=
  ['(', ')', '[', ']', '{', '}', ',', ';', ':', '.', '?', '+', '-', '>']

namespace Piece

/-- Whether an expression may end with the piece: it runs into nothing that may stand behind, and
opens no block. -/
def isComplete (piece : Piece) : Bool :=
  Text.closingSigns.all piece.bars && piece.text.getLast? != some '{'

theorem bars_of_isComplete {piece : Piece} (h : piece.isComplete = true) {c : Char}
    (hc : c ∈ Text.closingSigns) : piece.bars c = true :=
  List.all_eq_true.1 (Bool.and_eq_true_iff.1 h).1 c hc

/-- A symbol of the grammar is a token by itself. -/
theorem lexeme_symbol {text : Text} (h : text ∈ Scan.symbols) (glued : Bool) :
    Lexeme ⟨.symbol, text, glued⟩ := by
  have hall : ∀ symbol ∈ Scan.symbols, symbol.head?.any
      (fun c => !Scan.isWordStart c && !c.isDigit && c != '\x27') = true := by decide
  obtain ⟨c, tail, rfl, hfirst⟩ := Text.exists_first (hall text h)
  simp only [Bool.and_eq_true, Bool.not_eq_true', bne_iff_ne, ne_eq] at hfirst
  exact ⟨c, tail, rfl, Scan.lexeme_symbol hfirst.1.1 hfirst.1.2 hfirst.2 (Scan.find_symbol _ h)⟩

/-- A symbol does not run into a character that no symbol holds. -/
theorem bars_symbol {piece : Piece} {c : Char} (hkind : piece.kind = .symbol)
    (hdot : piece.text ≠ ['.'] ∨ c.isDigit = false) (hc : Scan.isWordPart c = true ∨ c = '\x27') :
    piece.bars c = true := by
  have hout : ∀ symbol ∈ Scan.symbols, c ∉ symbol := by
    intro symbol hsymbol hmem
    obtain ⟨hpart, hquote⟩ := Scan.symbols_not_word symbol hsymbol c hmem
    rcases hc with hc | hc
    · rw [hpart] at hc
      cases hc
    · exact hquote hc
  have hne : ∀ sign : Char, Scan.isWordPart sign = false → sign ≠ '\x27' → c ≠ sign := by
    rintro sign hpart hquote rfl
    rcases hc with hc | hc
    · rw [hpart] at hc
      cases hc
    · exact hquote hc
  unfold bars
  rw [hkind]
  have hbegin : (Scan.symbols.any fun symbol => (piece.text ++ [c]).isPrefixOf symbol) = false := by
    rw [List.any_eq_false]
    intro symbol hsymbol hbegin
    have hmem := (List.isPrefixOf_iff_prefix.1 hbegin).subset
      (List.mem_append_right piece.text List.mem_cons_self)
    exact hout symbol hsymbol hmem
  have hfraction : (piece.text == ['.'] && c.isDigit) = false := by
    rcases hdot with hdot | hdigit
    · rw [beq_eq_false_iff_ne.2 hdot, Bool.false_and]
    · rw [hdigit, Bool.and_false]
  simp [hbegin, hfraction, hne '/' (by decide) (by decide), hne '*' (by decide) (by decide)]

/-- Nothing runs into a symbol that begins no longer one. -/
theorem bars_lone {sign : Char} (hslash : sign ≠ '/') (hdot : sign ≠ '.')
    (hlone : ∀ symbol ∈ Scan.symbols, symbol.head? = some sign → symbol = [sign]) (c : Char) :
    (Piece.symbol [sign]).bars c = true := by
  have hbegin : ∀ symbol ∈ Scan.symbols, ¬ [sign, c] <+: symbol := by
    rintro symbol hsymbol ⟨rest, hrest⟩
    have hone := hlone symbol hsymbol (by rw [← hrest]; rfl)
    rw [hone] at hrest
    cases hrest
  unfold bars
  simpa [symbol, hslash, hdot] using hbegin

/-- A leading operator does not run into an operand that it does not fuse with. -/
theorem bars_leading {operator : Text} (hoperator : operator ∈ Operators.leading) {c : Char}
    (hc : Text.isOpening c = true) (hfuses : ¬ (operator.getLast? = some c ∧
      (operator.getLast? = some '+' ∨ operator.getLast? = some '-'))) :
    (Piece.symbol operator).bars c = true := by
  have hdot : ∀ text ∈ Operators.leading, text ≠ ['.'] := by decide
  unfold Text.isOpening at hc
  rcases Bool.or_eq_true_iff.1 hc with hc | hsign
  · refine bars_symbol rfl (.inl (hdot operator hoperator)) (.inl ?_)
    rcases Bool.or_eq_true_iff.1 hc with hstart | hdigit
    · exact Scan.isWordPart_of_start hstart
    · exact Scan.isWordPart_of_digit hdigit
  · have hall : Operators.leading.all (fun text => Text.openingSigns.all fun c =>
        (Piece.symbol text).bars c || decide (text.getLast? = some c ∧
          (text.getLast? = some '+' ∨ text.getLast? = some '-'))) = true := by decide
    have hmem : c ∈ Text.openingSigns := List.contains_iff_mem.1 hsign
    have hone := List.all_eq_true.1 (List.all_eq_true.1 hall operator hoperator) c hmem
    rcases Bool.or_eq_true_iff.1 hone with hbars | hfused
    · exact hbars
    · exact absurd (of_decide_eq_true hfused) hfuses

end Piece

/-! ## The last character of a token -/

namespace Scan

theorem mem_take_run {test : Char → Bool} {text : Text} {c : Char}
    (h : c ∈ text.take (run test text)) : test c = true := by
  unfold run at h
  rw [← List.prefix_iff_eq_take.1 (List.takeWhile_prefix test)] at h
  exact List.all_eq_true.1 List.all_takeWhile c h

theorem mem_take_fraction {text : Text} {c : Char} (h : c ∈ text.take (fractionSize text)) :
    isWordPart c = true ∨ c = '.' := by
  unfold fractionSize at h
  split at h
  · split at h
    · cases h
    · rw [List.take_succ_cons] at h
      rcases List.mem_cons.1 h with rfl | h
      · exact .inr rfl
      · exact .inl (isWordPart_of_digit (mem_take_run h))
  · cases h

theorem mem_take_marker {text : Text} {c : Char} (h : c ∈ text.take (markerSize text)) :
    isWordPart c = true := by
  unfold markerSize at h
  split at h
  · rename_i first rest
    split at h
    case isTrue hmarker =>
      have hletter : ['l', 'L', 'd', 'D'].all isWordPart = true := by decide
      rw [List.take_one, List.head?_cons, Option.toList_some] at h
      exact List.mem_singleton.1 h ▸ List.all_eq_true.1 hletter first hmarker
    case isFalse => cases h
  · cases h

/-- What a number is written with. -/
theorem mem_take_number {text : Text} {c : Char} (h : c ∈ text.take (numberTail text)) :
    isWordPart c = true ∨ c = '.' := by
  unfold numberTail at h
  simp only [List.take_add, List.mem_append] at h
  rcases h with (h | h) | h
  · exact .inl (isWordPart_of_digit (mem_take_run h))
  · exact mem_take_fraction h
  · exact .inl (mem_take_marker h)

/-- A string ends with its closing quote. -/
theorem getLast_take_string {start size : Nat} {text : Text}
    (h : stringTail start text = some size) : (text.take (size - start)).getLast? = some '\x27' := by
  fun_induction stringTail start text with
  | case1 start c rest ih =>
    obtain ⟨hstart, -, -⟩ := stringTail_take h
    have hsize : size - start = size - (start + 2) + 2 := by omega
    rw [hsize, List.take_succ_cons, List.take_succ_cons, List.getLast?_cons, List.getLast?_cons,
      ih h]
    rfl
  | case2 start rest =>
    cases h
    rw [Nat.add_sub_cancel_left]
    rfl
  | case3 => cases h
  | case4 start c rest _ _ _ ih =>
    obtain ⟨hstart, -, -⟩ := stringTail_take h
    have hsize : size - start = size - (start + 1) + 1 := by omega
    rw [hsize, List.take_succ_cons, List.getLast?_cons, ih h]
    rfl
  | case5 => cases h

end Scan

namespace Piece

/-- Only strings hold blanks, and only strings and symbols hold braces. -/
theorem Lexeme.inked {piece : Piece} (h : piece.Lexeme) (hstring : piece.kind ≠ .string) :
    ∀ c ∈ piece.text, Text.isBlank c = false ∧ (piece.kind ≠ .symbol → c ≠ '{') := by
  have hword : ∀ c : Char, Scan.isWordPart c = true ∨ c = '.' →
      Text.isBlank c = false ∧ c ≠ '{' := by
    rintro c (hc | rfl)
    · constructor
      · by_contra hblank
        rw [Scan.isWordPart_of_blank (Bool.not_eq_false _ ▸ hblank)] at hc
        cases hc
      · rintro rfl
        exact absurd hc (by decide)
    · decide
  obtain ⟨first, tail, htext, hlexeme⟩ := h
  intro c hc
  have hmem : c ∈ first :: tail := htext ▸ hc
  rcases Scan.lexeme_cases hlexeme with ⟨-, hstart, hsize⟩ | ⟨-, -, hdigit, hsize⟩ | ⟨hkind, -⟩ |
    ⟨hkind, -⟩
  · obtain ⟨hblank, hbrace⟩ := hword c <| by
      rcases List.mem_cons.1 hmem with rfl | hmem
      · exact .inl (Scan.isWordPart_of_start hstart)
      · rw [← tail.take_length, hsize] at hmem
        exact .inl (Scan.mem_take_run hmem)
    exact ⟨hblank, fun _ => hbrace⟩
  · obtain ⟨hblank, hbrace⟩ := hword c <| by
      rcases List.mem_cons.1 hmem with rfl | hmem
      · exact .inl (Scan.isWordPart_of_digit hdigit)
      · rw [← tail.take_length, hsize] at hmem
        exact Scan.mem_take_number hmem
    exact ⟨hblank, fun _ => hbrace⟩
  · exact absurd hkind hstring
  · have hsymbol := Lexeme.symbol_mem ⟨first, tail, htext, hlexeme⟩ hkind
    exact ⟨Scan.symbols_not_blank _ hsymbol c hc, fun h => absurd hkind h⟩

/-- A token does not end with a blank, and only a symbol ends with a brace. -/
theorem Lexeme.last {piece : Piece} (h : piece.Lexeme) :
    ∀ c ∈ piece.text.getLast?, Text.isBlank c = false ∧ (piece.kind ≠ .symbol → c ≠ '{') := by
  intro c hc
  by_cases hstring : piece.kind = .string
  · obtain ⟨first, tail, htext, hlexeme⟩ := h
    rw [hstring] at hlexeme
    rcases Scan.lexeme_cases hlexeme with ⟨hkind, -⟩ | ⟨hkind, -⟩ | ⟨-, -, hsize⟩ | ⟨hkind, -⟩
    case inr.inr.inl =>
      have hquote := Scan.getLast_take_string hsize
      rw [Nat.sub_zero, List.take_length] at hquote
      rw [htext, List.getLast?_cons, hquote] at hc
      obtain rfl : c = '\x27' := (Option.mem_some.1 hc).symm
      exact ⟨by decide, fun _ => by decide⟩
    all_goals cases hkind
  · exact h.inked hstring c (List.mem_of_getLast? hc)

/-- Only symbols can run into a sign. -/
theorem Lexeme.isComplete {piece : Piece} (h : piece.Lexeme) (hkind : piece.kind ≠ .symbol) :
    piece.isComplete = true := by
  have hsigns : Text.closingSigns.all (!Scan.isWordPart ·) = true := by decide
  refine Bool.and_eq_true_iff.2 ⟨List.all_eq_true.2 fun c hc => ?_, ?_⟩
  · have hc := List.all_eq_true.1 hsigns c hc
    unfold bars
    cases hpiece : piece.kind with
    | word => exact hc
    | number => exact hc
    | string => rfl
    | symbol => exact absurd hpiece hkind
  · rw [bne_iff_ne]
    intro hlast
    exact (h.last '{' hlast).2 hkind rfl

end Piece

namespace Spelled

theorem lexeme {pieces : List Piece} {text : Text} (h : Spelled pieces text) :
    ∀ piece ∈ pieces, piece.Lexeme := by
  induction h with
  | nil => exact fun _ hmem => absurd hmem List.not_mem_nil
  | cons _ hlexeme _ _ _ ih => exact List.forall_mem_cons.2 ⟨hlexeme, ih⟩

/-- A spelled text ends as its last piece does. -/
theorem getLast_eq {pieces : List Piece} {text : Text} (h : Spelled pieces text) {piece : Piece}
    (hlast : pieces.getLast? = some piece) : text.getLast? = piece.text.getLast? := by
  have hsome : ∀ {piece : Piece}, piece.Lexeme → ∃ c, piece.text.getLast? = some c := by
    intro piece hlexeme
    obtain ⟨c, more, htext, -⟩ := hlexeme.first
    rw [htext, List.getLast?_cons]
    exact ⟨_, rfl⟩
  induction h with
  | nil => cases hlast
  | @cons gap head tail rest _ hlexeme _ _ htail ih =>
    rw [List.getLast?_append, List.getLast?_append]
    cases tail with
    | nil =>
      cases htail
      obtain rfl : head = piece := Option.some.inj hlast
      obtain ⟨c, hc⟩ := hsome hlexeme
      rw [hc]
      rfl
    | cons next others =>
      rw [List.getLast?_cons_cons] at hlast
      obtain ⟨c, hc⟩ := hsome (htail.lexeme piece (List.mem_of_getLast? hlast))
      rw [ih hlast, hc]
      rfl

end Spelled

/-! ## Types -/

/-- The text of a type, or of a row of types: it is spelled by its pieces, begins with a name, ends
with a complete piece, and has blanks only behind commas. -/
structure TypeText (pieces : List Piece) (text : Text) : Prop where
  spelled : Spelled pieces text
  name : ∃ name rest, pieces = .word name :: rest
  first : ∃ c rest, text = c :: rest ∧ Scan.isWordStart c = true
  last : ∃ piece, pieces.getLast? = some piece ∧ piece.isComplete = true
  chars : ∀ c ∈ text, c = ' ' ∨ ∃ piece ∈ pieces, c ∈ piece.text

namespace TypeText

theorem word {name : Text} (h : (Piece.word name).Lexeme) : TypeText [.word name] name := by
  refine ⟨.one h rfl, ⟨name, [], rfl⟩, ?_, ⟨_, rfl, h.isComplete TokenKind.noConfusion⟩,
    fun c hc => .inr ⟨_, List.mem_cons_self, hc⟩⟩
  obtain ⟨c, tail, htext, hlexeme⟩ := h
  rcases Scan.lexeme_cases hlexeme with ⟨-, hstart, -⟩ | ⟨hkind, -⟩ | ⟨hkind, -⟩ | ⟨hkind, -⟩
  · exact ⟨c, tail, htext, hstart⟩
  all_goals cases hkind

/-- Blanks in front of a type. -/
theorem behind {pieces : List Piece} {text gap : Text} (h : TypeText pieces text)
    (hblank : ∀ c ∈ gap, Text.isBlank c = true) : Spelled pieces (gap ++ text) := by
  obtain ⟨name, rest, rfl⟩ := h.name
  refine h.spelled.behind hblank (fun piece hpiece => ?_) (List.cons_ne_nil _ _)
  cases hpiece
  rfl

theorem bars {pieces : List Piece} {text : Text} (h : TypeText pieces text) {c : Char}
    (hc : c ∈ Text.closingSigns) : ∀ last ∈ pieces.getLast?, last.bars c = true := by
  intro piece hpiece
  obtain ⟨last, hlast, hcomplete⟩ := h.last
  obtain rfl : last = piece := Option.some.inj (hlast.symm.trans hpiece)
  exact Piece.bars_of_isComplete hcomplete hc

/-- A symbol behind a type. -/
theorem closed {pieces : List Piece} {text : Text} (h : TypeText pieces text) (piece : Piece)
    (sign : Char) (htext : piece.text = [sign]) (hlexeme : piece.Lexeme)
    (hglued : piece.glued = (piece.isSymbol ">" || piece.isSymbol "="))
    (hcomplete : piece.isComplete = true)
    (hbars : ∀ last ∈ pieces.getLast?, last.bars sign = true) :
    TypeText (pieces ++ [piece]) (text ++ [sign]) := by
  have hpiece : Spelled [piece] [sign] := htext ▸ Spelled.one hlexeme hglued
  refine ⟨h.spelled.append hpiece (fun other hother c hc => ?_) fun _ _ _ => ?_, ?_, ?_,
    ⟨piece, List.getLast?_concat, hcomplete⟩, fun c hc => ?_⟩
  · cases hc
    exact hbars other hother
  · rw [Scan.fractionSize_eq_zero]
    rintro rest ⟨⟩
    simp
  · obtain ⟨name, rest, rfl⟩ := h.name
    exact ⟨name, _, rfl⟩
  · obtain ⟨c, rest, rfl, hstart⟩ := h.first
    exact ⟨c, _, rfl, hstart⟩
  · rcases List.mem_append.1 hc with hc | hc
    · obtain rfl | ⟨other, hother, hc⟩ := h.chars c hc
      · exact .inl rfl
      · exact .inr ⟨other, List.mem_append_left _ hother, hc⟩
    · exact .inr ⟨piece, List.mem_append_right _ List.mem_cons_self, htext ▸ hc⟩

/-- A type behind what ends with a symbol, with or without a blank between them. -/
theorem append {pieces more : List Piece} {text rest gap : Text} (h : TypeText pieces text)
    (h' : TypeText more rest) (hgap : gap = [] ∨ gap = [' '])
    (hsymbol : ∀ piece ∈ pieces.getLast?, piece.kind = .symbol) :
    TypeText (pieces ++ more) (text ++ (gap ++ rest)) := by
  obtain ⟨last, hlast, hcomplete⟩ := h'.last
  obtain ⟨first, tail, hrest, hstart⟩ := h'.first
  have hblank : ∀ c ∈ gap, Text.isBlank c = true := by
    rcases hgap with rfl | rfl
    · simp
    · exact fun c hc => List.mem_singleton.1 hc ▸ by decide
  refine ⟨h.spelled.append (h'.behind hblank) (fun piece hpiece c hc => ?_)
    fun piece hpiece hkind => ?_, ?_, ?_, ⟨last, ?_, hcomplete⟩, fun c hc => ?_⟩
  · rcases hgap with rfl | rfl
    · rw [hrest] at hc
      cases hc
      exact Piece.bars_symbol (hsymbol piece hpiece) (.inr (Scan.isDigit_of_start hstart))
        (.inl (Scan.isWordPart_of_start hstart))
    · cases hc
      exact piece.bars_blank (by decide)
  · rw [hsymbol piece hpiece] at hkind
    cases hkind
  · obtain ⟨name, others, rfl⟩ := h.name
    exact ⟨name, _, rfl⟩
  · obtain ⟨c, others, rfl, hc⟩ := h.first
    exact ⟨c, _, rfl, hc⟩
  · rw [List.getLast?_append, hlast]
    rfl
  · simp only [List.mem_append] at hc ⊢
    rcases hc with hc | hc | hc
    · obtain rfl | ⟨piece, hpiece, hc⟩ := h.chars c hc
      · exact .inl rfl
      · exact .inr ⟨piece, .inl hpiece, hc⟩
    · rcases hgap with rfl | rfl
      · cases hc
      · exact .inl (List.mem_singleton.1 hc)
    · obtain rfl | ⟨piece, hpiece, hc⟩ := h'.chars c hc
      · exact .inl rfl
      · exact .inr ⟨piece, .inr hpiece, hc⟩

/-- Texts with a symbol between neighbours, and a gap behind it. -/
theorem rowsBy (sign : Char) (gap : Text) (hsign : [sign] ∈ Scan.symbols)
    (hcomplete : (Piece.symbol [sign]).isComplete = true) (hclosing : sign ∈ Text.closingSigns)
    (hloose : ((Piece.symbol [sign]).isSymbol ">" || (Piece.symbol [sign]).isSymbol "=") = false)
    (hgap : gap = [] ∨ gap = [' ']) {rows : List (List Piece)} {texts : List Text}
    (h : List.Forall₂ TypeText rows texts) (hne : rows ≠ []) :
    TypeText (ApexLayout.rowsBy (.symbol [sign]) rows) (Text.join (sign :: gap) texts) := by
  induction h with
  | nil => exact absurd rfl hne
  | @cons row text rows texts hrow hrows ih =>
    cases hrows with
    | nil => simpa [ApexLayout.rowsBy, Text.join] using hrow
    | @cons next more _ _ hnext hmore =>
      have hrest := ih (List.cons_ne_nil _ _)
      have hclosed := hrow.closed (.symbol [sign]) sign rfl (Piece.lexeme_symbol hsign false)
        hloose.symm hcomplete (hrow.bars hclosing)
      have hwhole := hclosed.append hrest hgap fun piece hpiece => by
        rw [List.getLast?_concat] at hpiece
        cases hpiece
        rfl
      unfold ApexLayout.rowsBy Text.join at hwhole ⊢
      rw [List.intercalate_cons_cons, List.intercalate_cons_cons]
      simpa using hwhole

end TypeText

theorem TypeRef.typeText_all {types : List TypeRef}
    (h : ∀ type ∈ types, ∃ text, type.render = .ok text ∧ TypeText type.pieces text) :
    ∃ texts, TypeRef.renderAll types = .ok texts ∧
      List.Forall₂ TypeText (TypeRef.piecesAll types) texts := by
  rw [TypeRef.renderAll_eq_mapM, TypeRef.piecesAll_eq_map]
  obtain ⟨texts, htexts, hrows⟩ := Rendered.exists_mapM h
  exact ⟨texts, htexts, List.forall₂_map_left_iff.2 hrows⟩

theorem TypeName.typeText_all {names : List TypeName}
    (h : ∀ name ∈ names, ∃ text, name.render = .ok text ∧ TypeText name.pieces text) :
    ∃ texts, TypeName.renderAll names = .ok texts ∧
      List.Forall₂ TypeText (TypeName.piecesAll names) texts := by
  rw [TypeName.renderAll_eq_mapM, TypeName.piecesAll_eq_map]
  obtain ⟨texts, htexts, hrows⟩ := Rendered.exists_mapM h
  exact ⟨texts, htexts, List.forall₂_map_left_iff.2 hrows⟩

/-- One name with type arguments that can be read. -/
theorem TypeName.typeText {name : Text} {arguments : List TypeRef}
    (hlexeme : (Piece.word name).Lexeme)
    (h : ∀ type ∈ arguments, ∃ text, type.render = .ok text ∧ TypeText type.pieces text) :
    ∃ text, TypeName.render ⟨name, arguments⟩ = .ok text ∧
      TypeText (TypeName.pieces ⟨name, arguments⟩) text := by
  obtain ⟨texts, htexts, hrows⟩ := TypeRef.typeText_all h
  cases arguments with
  | nil =>
    refine ⟨name, ?_, ?_⟩
    · rw [TypeName.render]
      rfl
    · rw [TypeName.pieces]
      exact .word hlexeme
  | cons first others =>
    refine ⟨name ++ "<".toList ++ Text.join ", " texts ++ ">".toList, ?_, ?_⟩
    · rw [TypeName.render, htexts]
      rfl
    · have hopened := (TypeText.word hlexeme).closed (.symbol "<") '<' rfl
        (Piece.lexeme_symbol (by decide) false) (by decide) (by decide) (by
          intro piece hpiece
          cases hpiece
          show (!Scan.isWordPart '<') = true
          decide)
      have hlist := TypeText.rowsBy ',' [' '] (by decide) (by decide) (by decide) (by decide)
        (.inr rfl) hrows (by simp [TypeRef.piecesAll])
      have hinside := hopened.append hlist (.inl rfl) fun piece hpiece => by
        cases hpiece
        rfl
      have hwhole := hinside.closed .closing '>' rfl (Piece.lexeme_symbol (by decide) true)
        (by decide) (by decide) (hinside.bars (by decide))
      rw [TypeName.pieces]
      simpa using hwhole

/-- Pairs of brackets behind a type. -/
theorem TypeText.brackets {pieces : List Piece} {text : Text} (h : TypeText pieces text)
    (pairs : Nat) :
    TypeText (pieces ++ ((List.replicate pairs ['[', ']']).flatten.map fun c => .symbol [c]))
      (text ++ (List.replicate pairs ['[', ']']).flatten) := by
  induction pairs generalizing pieces text with
  | zero => simpa using h
  | succ pairs ih =>
    have hopened := h.closed (.symbol "[") '[' rfl (Piece.lexeme_symbol (by decide) false)
      (by decide) (by decide) (h.bars (by decide))
    have hclosed := hopened.closed (.symbol "]") ']' rfl (Piece.lexeme_symbol (by decide) false)
      (by decide) (by decide) (hopened.bars (by decide))
    simpa [List.replicate_succ] using ih hclosed

/-- A type that can be read is written as its pieces tell. -/
theorem TypeRef.typeText (reference : TypeRef) : reference.WellFormed →
    (∀ piece ∈ reference.pieces, piece.Lexeme) →
    ∃ text, reference.render = .ok text ∧ TypeText reference.pieces text := by
  induction reference using TypeRef.induction with
  | type segments suffix ih =>
    intro hwell hlexeme
    obtain ⟨hne, hnames, pairs, rfl⟩ := (TypeRef.wellFormed_iff _ _).1 hwell
    rw [TypeRef.pieces, TypeName.piecesAll_eq_map] at hlexeme ⊢
    -- the names one by one; the induction is on the type arguments inside them
    have hname : ∀ name ∈ segments, ∃ text, name.render = .ok text ∧
        TypeText name.pieces text := by
      rintro ⟨name, arguments⟩ hmem
      have hinside : ∀ piece ∈ TypeName.pieces ⟨name, arguments⟩, piece.Lexeme := fun piece hpiece =>
        hlexeme piece (List.mem_append_left _ (mem_rowsBy_of_mem (List.mem_map_of_mem hmem) hpiece))
      have hword : Piece.word name ∈ TypeName.pieces ⟨name, arguments⟩ := by
        cases arguments <;> simp [TypeName.pieces]
      refine TypeName.typeText (hinside _ hword) fun type htype => ?_
      refine ih ⟨name, arguments⟩ hmem type htype ((hnames _ hmem).arguments type htype) ?_
      intro piece hpiece
      refine hinside piece ?_
      cases arguments with
      | nil => cases htype
      | cons first others =>
        rw [TypeName.pieces, TypeRef.piecesAll_eq_map]
        have hmem : piece ∈ rowsBy (.symbol ",") ((first :: others).map TypeRef.pieces) :=
          mem_rowsBy_of_mem (List.mem_map_of_mem htype) hpiece
        exact List.mem_append_left _ (List.mem_cons_of_mem _ (List.mem_cons_of_mem _ hmem))
    obtain ⟨texts, htexts, hrows⟩ := TypeName.typeText_all hname
    rw [TypeName.piecesAll_eq_map] at hrows
    refine ⟨Text.join "." texts ++ (List.replicate pairs ['[', ']']).flatten, ?_, ?_⟩
    · rw [TypeRef.render, htexts, if_neg (by simpa using hne)]
      rfl
    · exact (TypeText.rowsBy '.' [] (by decide) (by decide) (by decide) (by decide) (.inl rfl)
        hrows (by simpa using hne)).brackets pairs

/-! ## Parts -/

/-- The text of a modifier is cut into its own pieces, and what is in front cannot be glued to
them. -/
structure Modifier.Spelled (modifier : Modifier) : Prop where
  spelled : ApexLayout.Spelled (Modifier.pieces modifier) modifier
  loose : ∀ piece ∈ (Modifier.pieces modifier).head?,
    (piece.isSymbol ">" || piece.isSymbol "=") = false

namespace Part

/-- What a part is written as. -/
def text : Part → Text
  | .piece token => token.text
  | .literal written => written
  | .leading sign => sign
  | .trailing sign => sign
  | .operator sign => sign
  | .type reference =>
    match reference.render with
    | .ok text => text
    | .error _ => []
  | .modifier written => written
  | .query => []

/-- A part that is cut into its pieces again where it is written. A modifier may be a whole
annotation and is only known by its ends. -/
def Legible : Part → Prop
  | .piece token => token.Lexeme ∧ token.glued = false
  | .literal written =>
    Piece.Lexeme ⟨.ofText written, written, false⟩ ∧ TokenKind.ofText written ≠ .symbol
  | .leading sign => sign ∈ Operators.leading
  | .trailing sign => sign ∈ Operators.trailing
  | .operator sign => sign ∈ Operators.between
  | .type reference => reference.WellFormed ∧ ∀ piece ∈ reference.pieces, piece.Lexeme
  | .modifier written =>
    (∃ c rest, written = c :: rest ∧ (Scan.isWordStart c = true ∨ c = '@')) ∧
      ∀ c ∈ written.getLast?, Text.isBlank c = false
  | .query => False

/-- Whether the part has to have a blank in front of it, not to be glued to what stands there. -/
def isLoose : Part → Bool
  | .piece token => token.isSymbol ">" || token.isSymbol "="
  | .operator _ => true
  | _ => false

/-- Whether the part ends in front of the character. Behind a modifier stands a blank. -/
def bars (part : Part) (c : Char) : Bool :=
  match part with
  | .modifier _ => c == ' '
  | part => part.pieces.getLast?.all (·.bars c)

/-- Whether an expression, a statement or a member may end with the part. -/
def isComplete (part : Part) : Bool :=
  match part with
  | .modifier _ => false
  | part => part.pieces.getLast?.all Piece.isComplete

theorem bars_space (part : Part) : part.bars ' ' = true := by
  unfold bars
  split
  · rfl
  · rw [Option.all_eq_true]
    exact fun piece _ => piece.bars_blank (by decide)

theorem bars_of_isComplete {part : Part} (h : part.isComplete = true) {c : Char}
    (hc : c ∈ Text.closingSigns ∨ Text.isBlank c = true) : part.bars c = true := by
  unfold isComplete at h
  unfold bars
  split at h
  · cases h
  · rw [Option.all_eq_true] at h ⊢
    intro piece hpiece
    rcases hc with hc | hblank
    · exact Piece.bars_of_isComplete (h piece hpiece) hc
    · exact piece.bars_blank hblank

/-- The text of a type that can be read. -/
theorem typeText {reference : TypeRef} (h : (Part.type reference).Legible) :
    TypeText reference.pieces (Part.type reference).text := by
  obtain ⟨text, htext, htype⟩ := reference.typeText h.1 h.2
  rwa [Part.text, htext]

/-- The operators between operands are spelled with their pieces glued together. -/
theorem spelled_operator {operator gap : Text} (h : operator ∈ Operators.between)
    (hblank : ∀ c ∈ gap, Text.isBlank c = true) (hgap : gap ≠ []) :
    Spelled (operatorPieces operator) (gap ++ operator) := by
  have hempty : gap.isEmpty = false := by simpa using hgap
  have hglued : ∀ text : Text, (Piece.symbol text).glued =
      (((Piece.symbol text).isSymbol ">" || (Piece.symbol text).isSymbol "=") && gap.isEmpty) := by
    intro text
    rw [hempty, Bool.and_false]
    rfl
  by_cases hsymbol : operator ∈ Scan.symbols ∧ operator ≠ String.toList ">"
  · rw [operatorPieces_of_symbol operator hsymbol.1 hsymbol.2]
    have hone : Spelled [.symbol operator] (gap ++ (operator ++ [])) :=
      .cons hblank (Piece.lexeme_symbol hsymbol.1 false) (hglued operator)
        ⟨by simp, TokenKind.noConfusion⟩ .nil
    rwa [List.append_nil] at hone
  · -- what is left begins with `>`, and its signs are tokens of their own
    have hrest : operator ∈ [">", ">=", ">>", ">>>", ">>=", ">>>="].map String.toList := by
      have hall : ∀ text ∈ Operators.between,
          (text ∈ Scan.symbols ∧ text ≠ String.toList ">") ∨
            text ∈ [">", ">=", ">>", ">>>", ">>=", ">>>="].map String.toList := by decide
      exact (hall operator h).resolve_left hsymbol
    have hgreater : ∀ {pieces : List Piece} {rest : Text}, Spelled pieces rest →
        (∀ c ∈ rest.head?, (Piece.symbol ">").meets c = true) →
        Spelled (Piece.closing :: pieces) ([] ++ (">".toList ++ rest)) := fun hspelled hmeets =>
      .cons (by simp) (Piece.lexeme_symbol (by decide) true) rfl ⟨hmeets, TokenKind.noConfusion⟩ hspelled
    have hlead : ∀ {pieces : List Piece} {rest : Text}, Spelled pieces rest →
        (∀ c ∈ rest.head?, (Piece.symbol ">").meets c = true) →
        Spelled (.symbol ">" :: pieces) (gap ++ (">".toList ++ rest)) := fun hspelled hmeets =>
      .cons hblank (Piece.lexeme_symbol (by decide) false) (hglued _) ⟨hmeets, TokenKind.noConfusion⟩
        hspelled
    have hequal : Spelled [⟨.symbol, "=", true⟩] "=".toList :=
      Spelled.one (Piece.lexeme_symbol (by decide) true) rfl
    have hmeets : ∀ c ∈ ['>', '='], (Piece.symbol ">").meets c = true := by
      have hall : ['>', '='].all (Piece.symbol ">").meets = true := by decide
      exact List.all_eq_true.1 hall
    have hnext : ∀ c ∈ (some '>' : Option Char), (Piece.symbol ">").meets c = true :=
      fun c hc => hmeets c (Option.mem_some.1 hc ▸ by simp)
    have hlast : ∀ c ∈ (some '=' : Option Char), (Piece.symbol ">").meets c = true :=
      fun c hc => hmeets c (Option.mem_some.1 hc ▸ by simp)
    have hnone : ∀ c ∈ (none : Option Char), (Piece.symbol ">").meets c = true := by simp
    simp only [List.map_cons, List.map_nil, List.mem_cons, List.not_mem_nil, or_false] at hrest
    rcases hrest with rfl | rfl | rfl | rfl | rfl | rfl
    · exact hlead .nil hnone
    · exact hlead hequal hlast
    · exact hlead (hgreater .nil hnone) hnext
    · exact hlead (hgreater (hgreater .nil hnone) hnext) hnext
    · exact hlead (hgreater hequal hlast) hnext
    · exact hlead (hgreater (hgreater hequal hlast) hnext) hnext

/-- A part with blanks in front of it is spelled by its pieces. -/
theorem Legible.spelled {part : Part} {gap : Text} (h : part.Legible)
    (hmodifier : ∀ modifier, part = .modifier modifier → Modifier.Spelled modifier)
    (hblank : ∀ c ∈ gap, Text.isBlank c = true) (hloose : part.isLoose = true → gap ≠ []) :
    Spelled part.pieces (gap ++ part.text) := by
  -- `>` and `=` with no gap in front are read as glued, so a part of one piece needs the gap there
  have hsingle : ∀ piece : Piece, piece.Lexeme → piece.glued = false →
      ((piece.isSymbol ">" || piece.isSymbol "=") = true → gap ≠ []) →
      Spelled [piece] (gap ++ piece.text) := by
    intro piece hlexeme hglued hgap
    have hone : Spelled [piece] (gap ++ (piece.text ++ [])) := by
      refine .cons hblank hlexeme ?_ ⟨by simp, fun _ _ => rfl⟩ .nil
      rw [hglued]
      cases hsymbol : piece.isSymbol ">" || piece.isSymbol "=" with
      | false => rfl
      | true =>
        have hempty : gap.isEmpty = false := by simpa using hgap hsymbol
        rw [hempty]
        rfl
    rwa [List.append_nil] at hone
  have hsign : ∀ sign ∈ Operators.leading ++ Operators.trailing, sign ∈ Scan.symbols ∧
      ((Piece.symbol sign).isSymbol ">" || (Piece.symbol sign).isSymbol "=") = false := by decide
  have hoperator : ∀ sign ∈ Operators.leading ++ Operators.trailing,
      Spelled [.symbol sign] (gap ++ sign) := by
    intro sign hmem
    obtain ⟨hsymbol, hplain⟩ := hsign sign hmem
    refine hsingle (.symbol sign) (Piece.lexeme_symbol hsymbol false) rfl fun hsome => ?_
    rw [hplain] at hsome
    cases hsome
  cases part with
  | piece token => exact hsingle token h.1 h.2 hloose
  | literal written =>
    refine hsingle _ h.1 rfl fun hsymbol => ?_
    simp [Piece.isSymbol, h.2] at hsymbol
  | leading sign => exact hoperator sign (List.mem_append_left _ h)
  | trailing sign => exact hoperator sign (List.mem_append_right _ h)
  | operator sign => exact spelled_operator h hblank (hloose rfl)
  | type reference => exact (typeText h).behind hblank
  | modifier written =>
    obtain ⟨⟨c, rest, htext, -⟩, -⟩ := h
    obtain ⟨hspelled, hhead⟩ := hmodifier written rfl
    refine hspelled.behind hblank hhead fun hnil : Modifier.pieces written = [] => ?_
    rw [hnil] at hspelled
    cases hspelled
    cases htext
  | query => exact False.elim h

/-- A part that is no modifier, with a blank in front of it. -/
theorem Legible.spaced {part : Part} (h : part.Legible) (hpart : ∀ m, part ≠ .modifier m) :
    Spelled part.pieces (' ' :: part.text) :=
  h.spelled (fun m heq => absurd heq (hpart m)) (fun c hc => List.mem_singleton.1 hc ▸ by decide)
    fun _ => List.cons_ne_nil ' ' []

/-- A part is not written with a blank in front. -/
theorem Legible.first {part : Part} (h : part.Legible) :
    ∃ c rest, part.text = c :: rest ∧ Text.isBlank c = false := by
  have hoperator : ∀ sign ∈ Operators.leading ++ Operators.trailing ++ Operators.between,
      ∃ c rest, sign = c :: rest ∧ Text.isBlank c = false := by
    have hall : ∀ sign ∈ Operators.leading ++ Operators.trailing ++ Operators.between,
        sign.head?.any (!Text.isBlank ·) = true := by decide
    intro sign hmem
    obtain ⟨c, rest, rfl, hone⟩ := Text.exists_first (hall sign hmem)
    exact ⟨c, rest, rfl, by simpa using hone⟩
  cases part with
  | piece token => exact h.1.first
  | literal written => exact h.1.first
  | leading sign => exact hoperator sign (by simp [show sign ∈ Operators.leading from h])
  | trailing sign => exact hoperator sign (by simp [show sign ∈ Operators.trailing from h])
  | operator sign => exact hoperator sign (by simp [show sign ∈ Operators.between from h])
  | type reference =>
    obtain ⟨c, rest, htext, hstart⟩ := (typeText h).first
    exact ⟨c, rest, htext, Scan.isBlank_of_start hstart⟩
  | modifier written =>
    obtain ⟨⟨c, rest, htext, hstart | rfl⟩, -⟩ := h
    · exact ⟨c, rest, htext, Scan.isBlank_of_start hstart⟩
    · exact ⟨_, rest, htext, by decide⟩
  | query => exact False.elim h

/-- Only the dot itself is written with a dot in front. -/
theorem Legible.dot {part : Part} (h : part.Legible) (hdot : part.text.head? = some '.') :
    ∃ token, part = .piece token ∧ token.Lexeme ∧ token.text = ['.'] := by
  -- no operator begins with a dot
  have hoperator : ∀ sign ∈ Operators.leading ++ Operators.trailing ++ Operators.between,
      sign.head? ≠ some '.' := by decide
  cases part with
  | piece token =>
    obtain ⟨c, tail, htext, -⟩ := h.1.first
    have hhead : token.text.head? = some '.' := hdot
    rw [htext] at hhead
    cases hhead
    have hkind := h.1.symbol_of_head htext (by decide) (by decide) (by decide)
    exact ⟨token, rfl, h.1, Scan.symbols_dot _ (h.1.symbol_mem hkind) hdot⟩
  | literal written =>
    obtain ⟨c, tail, htext, -⟩ := h.1.first
    have hhead : written.head? = some '.' := hdot
    rw [show written = c :: tail from htext] at hhead
    cases hhead
    exact absurd (h.1.symbol_of_head htext (by decide) (by decide) (by decide)) h.2
  | leading sign => exact absurd hdot (hoperator sign (by simp [show sign ∈ Operators.leading from h]))
  | trailing sign =>
    exact absurd hdot (hoperator sign (by simp [show sign ∈ Operators.trailing from h]))
  | operator sign =>
    exact absurd hdot (hoperator sign (by simp [show sign ∈ Operators.between from h]))
  | type reference =>
    obtain ⟨c, rest, htext, hstart⟩ := (typeText h).first
    rw [htext] at hdot
    cases hdot
    exact absurd hstart (by decide)
  | modifier written =>
    obtain ⟨⟨c, rest, htext, hstart⟩, -⟩ := h
    rw [Part.text, htext] at hdot
    cases hdot
    exact absurd hstart (by decide)
  | query => exact False.elim h

theorem pieces_ne_nil {part : Part} (h : part.Legible) (hpart : ∀ m, part ≠ .modifier m) :
    part.pieces ≠ [] := by
  intro hnil
  have hspelled := h.spaced hpart
  rw [hnil] at hspelled
  cases hspelled

/-- A part ends as its last piece does. -/
theorem Legible.getLast_eq {part : Part} (h : part.Legible) (hpart : ∀ m, part ≠ .modifier m) :
    ∃ piece, part.pieces.getLast? = some piece ∧ piece.Lexeme ∧
      part.text.getLast? = piece.text.getLast? := by
  have hspelled := h.spaced hpart
  obtain ⟨piece, hpiece⟩ : ∃ piece, part.pieces.getLast? = some piece :=
    ⟨_, List.getLast?_eq_some_getLast (pieces_ne_nil h hpart)⟩
  refine ⟨piece, hpiece, hspelled.lexeme piece (List.mem_of_getLast? hpiece), ?_⟩
  obtain ⟨c, rest, htext, -⟩ := h.first
  rw [← hspelled.getLast_eq hpiece, htext, List.getLast?_cons_cons]

/-- A part is not written with a blank at its end. -/
theorem Legible.last {part : Part} (h : part.Legible) :
    ∀ c ∈ part.text.getLast?, Text.isBlank c = false := by
  by_cases hpart : ∃ m, part = .modifier m
  · obtain ⟨written, rfl⟩ := hpart
    exact h.2
  · obtain ⟨piece, -, hlexeme, hlast⟩ := h.getLast_eq fun m heq => hpart ⟨m, heq⟩
    rw [hlast]
    exact fun c hc => (hlexeme.last c hc).1

/-- A complete part opens no block. -/
theorem Legible.not_brace {part : Part} (h : part.Legible) (hcomplete : part.isComplete = true) :
    part.text.getLast? ≠ some '{' := by
  have hpart : ∀ m, part ≠ .modifier m := by
    rintro m rfl
    cases hcomplete
  obtain ⟨piece, hpiece, -, hlast⟩ := h.getLast_eq hpart
  have hpieces : part.pieces.getLast?.all Piece.isComplete = true := by
    unfold isComplete at hcomplete
    split at hcomplete
    · cases hcomplete
    · exact hcomplete
  rw [hpiece] at hpieces
  rw [hlast]
  exact bne_iff_ne.1 (Bool.and_eq_true_iff.1 hpieces).2

end Part

end ApexLayout
