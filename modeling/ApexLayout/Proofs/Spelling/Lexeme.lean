import ApexLayout.Proofs.Replay.Relation
import ApexLayout.Token.Scan
import Mathlib.Data.List.Find

/-!
Tokens cut out of a text and put in front of another one.

A token is measured from its first character and what stands behind it. `Scan.lexeme_take` says that
it is a token by itself, and `Scan.lexeme_append` that it stays one in front of every text that
begins with a character it cannot swallow.
-/

namespace ApexLayout

namespace Scan

/-! ## How tokens are cut -/

/-- The four classes of tokens, each with its first character and the way its size is measured. -/
theorem lexeme_cases {c : Char} {tail : Text} {kind : TokenKind} {size : Nat}
    (h : lexeme c tail = .ok (kind, size)) :
    (kind = .word ∧ isWordStart c = true ∧ size = run isWordPart tail) ∨
    (kind = .number ∧ isWordStart c = false ∧ c.isDigit = true ∧ size = numberTail tail) ∨
    (kind = .string ∧ c = '\x27' ∧ stringTail 0 tail = some size) ∨
    (kind = .symbol ∧ isWordStart c = false ∧ c.isDigit = false ∧ c ≠ '\x27' ∧
      ∃ symbol, symbols.find? (·.isPrefixOf (c :: tail)) = some symbol ∧
        size = symbol.length - 1) := by
  unfold lexeme at h
  split at h
  case isTrue hword =>
    cases h
    exact .inl ⟨rfl, hword, rfl⟩
  case isFalse hword =>
    rw [Bool.not_eq_true] at hword
    split at h
    case isTrue hdigit =>
      cases h
      exact .inr (.inl ⟨rfl, hword, hdigit, rfl⟩)
    case isFalse hdigit =>
      rw [Bool.not_eq_true] at hdigit
      split at h
      case isTrue hquote =>
        split at h
        · cases h
          exact .inr (.inr (.inl ⟨rfl, hquote, ‹_›⟩))
        · cases h
      case isFalse hquote =>
        split at h
        · cases h
          exact .inr (.inr (.inr ⟨rfl, hword, hdigit, hquote, _, ‹_›, rfl⟩))
        · cases h

theorem lexeme_word {c : Char} (rest : Text) (h : isWordStart c = true) :
    lexeme c rest = .ok (.word, run isWordPart rest) := by
  unfold lexeme
  rw [if_pos h]

theorem lexeme_number {c : Char} (rest : Text) (hword : isWordStart c = false)
    (h : c.isDigit = true) : lexeme c rest = .ok (.number, numberTail rest) := by
  unfold lexeme
  rw [hword, if_neg (by decide), if_pos h]

theorem lexeme_string {rest : Text} {size : Nat} (h : stringTail 0 rest = some size) :
    lexeme '\x27' rest = .ok (.string, size) := by
  unfold lexeme
  rw [if_neg (by decide), if_neg (by decide), if_pos rfl, h]

theorem lexeme_symbol {c : Char} {rest symbol : Text} (hword : isWordStart c = false)
    (hdigit : c.isDigit = false) (hquote : c ≠ '\x27')
    (h : symbols.find? (·.isPrefixOf (c :: rest)) = some symbol) :
    lexeme c rest = .ok (.symbol, symbol.length - 1) := by
  unfold lexeme
  rw [hword, hdigit, if_neg (by decide), if_neg (by decide), if_neg hquote, h]

/-! ## Tokens by themselves -/

theorem run_le (test : Char → Bool) (text : Text) : run test text ≤ text.length :=
  (List.takeWhile_prefix test).length_le

theorem run_take (test : Char → Bool) (text : Text) (count : Nat) :
    run test (text.take count) = min count (run test text) := by
  unfold run
  induction text generalizing count with
  | nil => simp
  | cons c rest ih =>
    cases count with
    | zero => simp
    | succ count =>
      rw [List.take_succ_cons, List.takeWhile_cons, List.takeWhile_cons]
      cases test c with
      | false => simp
      | true =>
        simp only [if_true, List.length_cons, ih]
        omega

theorem fractionSize_le (text : Text) : fractionSize text ≤ text.length := by
  unfold fractionSize
  split
  · rename_i rest
    have hrun := run_le Char.isDigit rest
    split
    · omega
    · simp only [List.length_cons]
      omega
  · omega

theorem fractionSize_take {text : Text} {count : Nat} (h : fractionSize text ≤ count) :
    fractionSize (text.take count) = fractionSize text := by
  cases text with
  | nil => simp
  | cons c rest =>
    by_cases hc : c = '.'
    · subst hc
      simp only [fractionSize] at h ⊢
      cases count with
      | zero =>
        simp only [List.take_zero]
        split at h
        · rw [if_pos ‹_›]
        · omega
      | succ count =>
        simp only [List.take_succ_cons, run_take]
        split at h
        · rename_i hrun
          rw [hrun, Nat.min_zero, if_pos rfl]
        -- the digits behind the dot are all kept
        · have hmin : min count (run Char.isDigit rest) = run Char.isDigit rest := by omega
          rw [hmin]
    · have hnone : ∀ rest : Text, fractionSize (c :: rest) = 0 := by
        intro rest
        unfold fractionSize
        split
        · rename_i heq
          exact absurd (List.cons.inj heq).1 hc
        · rfl
      cases count with
      | zero => rw [List.take_zero, hnone, fractionSize]; simp
      | succ count => rw [List.take_succ_cons, hnone, hnone]

theorem markerSize_le (text : Text) : markerSize text ≤ text.length := by
  unfold markerSize
  split
  · split <;> simp
  · simp

theorem markerSize_take {text : Text} {count : Nat} (h : markerSize text ≤ count) :
    markerSize (text.take count) = markerSize text := by
  cases text with
  | nil => simp
  | cons c rest =>
    cases count with
    | zero =>
      rw [List.take_zero]
      have hnil : markerSize [] = 0 := rfl
      omega
    | succ count =>
      rw [List.take_succ_cons]
      rfl

theorem numberTail_le (text : Text) : numberTail text ≤ text.length := by
  unfold numberTail
  have hdigits := run_le Char.isDigit text
  have hfraction := fractionSize_le (text.drop (run Char.isDigit text))
  have hmarker := markerSize_le
    (text.drop (run Char.isDigit text + fractionSize (text.drop (run Char.isDigit text))))
  simp only [List.length_drop] at hfraction hmarker ⊢
  omega

theorem numberTail_take {text : Text} {count : Nat} (h : numberTail text ≤ count) :
    numberTail (text.take count) = numberTail text := by
  have hsize : numberTail text = run Char.isDigit text +
      fractionSize (text.drop (run Char.isDigit text)) +
      markerSize (text.drop (run Char.isDigit text +
        fractionSize (text.drop (run Char.isDigit text)))) := rfl
  generalize numberTail text = size at hsize h ⊢
  have hdigits : run Char.isDigit (text.take count) = run Char.isDigit text := by
    rw [run_take]
    omega
  have hfraction : fractionSize ((text.take count).drop (run Char.isDigit text)) =
      fractionSize (text.drop (run Char.isDigit text)) := by
    rw [List.drop_take]
    exact fractionSize_take (by omega)
  unfold numberTail
  simp only [hdigits, hfraction]
  rw [List.drop_take, markerSize_take (by omega)]
  exact hsize.symm

theorem stringTail_take {start size : Nat} {text : Text} (h : stringTail start text = some size) :
    start ≤ size ∧ size - start ≤ text.length ∧
      stringTail start (text.take (size - start)) = some size := by
  fun_induction stringTail start text with
  | case1 start c rest ih =>
    obtain ⟨hstart, hlength, htake⟩ := ih h
    have hsize : size - start = (size - (start + 2)) + 2 := by omega
    refine ⟨by omega, by simp only [List.length_cons]; omega, ?_⟩
    rw [hsize, List.take_succ_cons, List.take_succ_cons, stringTail]
    exact htake
  | case2 start rest =>
    cases h
    refine ⟨by omega, by simp, ?_⟩
    rw [Nat.add_sub_cancel_left, List.take_succ_cons, stringTail]
  | case3 => cases h
  | case4 start c rest hescape hquote hline ih =>
    obtain ⟨hstart, hlength, htake⟩ := ih h
    have hsize : size - start = (size - (start + 1)) + 1 := by omega
    refine ⟨by omega, by simp only [List.length_cons]; omega, ?_⟩
    rw [hsize, List.take_succ_cons]
    by_cases hbackslash : c = '\\'
    · -- a backslash at the end would have nothing to take along
      subst hbackslash
      cases rest with
      | nil => simp [stringTail] at h
      | cons next rest => exact absurd rfl (hescape next rest rfl)
    · rw [stringTail]
      · exact htake
      · intro _ _ heq
        exact absurd heq hbackslash
      · exact hquote
      · exact hline
  | case5 => cases h

/-- Every symbol of the table is found in front of its beginnings. -/
theorem find_symbol : ∀ symbol ∈ symbols, symbols.find? (·.isPrefixOf symbol) = some symbol := by
  decide

theorem symbol_of_find {c : Char} {rest symbol : Text}
    (h : symbols.find? (·.isPrefixOf (c :: rest)) = some symbol) :
    symbol ∈ symbols ∧ symbol = c :: rest.take (symbol.length - 1) ∧
      symbol.length - 1 ≤ rest.length := by
  have hmem := List.mem_of_find?_eq_some h
  have hprefix : symbol.isPrefixOf (c :: rest) = true := by simpa using List.find?_some h
  obtain ⟨more, hmore⟩ := List.isPrefixOf_iff_prefix.1 hprefix
  cases symbol with
  | nil => exact absurd hmem (by decide)
  | cons first tail =>
    rw [List.cons_append] at hmore
    obtain ⟨rfl, rfl⟩ := List.cons.inj hmore
    exact ⟨hmem, by simp, by simp⟩

/-- A token ends within its text. -/
theorem lexeme_size_le {c : Char} {rest : Text} {kind : TokenKind} {size : Nat}
    (h : lexeme c rest = .ok (kind, size)) : size ≤ rest.length := by
  rcases lexeme_cases h with ⟨-, -, rfl⟩ | ⟨-, -, -, rfl⟩ | ⟨-, -, hstring⟩ |
    ⟨-, -, -, -, symbol, hsymbol, rfl⟩
  · exact run_le _ _
  · exact numberTail_le rest
  · exact (stringTail_take hstring).2.1
  · exact (symbol_of_find hsymbol).2.2

/-! ## Tokens in front of other texts -/

theorem run_append {test : Char → Bool} {rest : Text} (h : ∀ c ∈ rest.head?, test c = false)
    (text : Text) : run test (text ++ rest) = run test text := by
  unfold run
  induction text with
  | nil =>
    cases rest with
    | nil => rfl
    | cons c rest => rw [List.nil_append, List.takeWhile_cons, h c rfl]; rfl
  | cons c text ih =>
    rw [List.cons_append, List.takeWhile_cons, List.takeWhile_cons]
    cases test c with
    | false => rfl
    | true => simp only [if_true, List.length_cons, ih]

/-- What cannot belong to a number that ends with the text: a letter or a digit, nor a fraction
unless the number has one. -/
structure EndsNumber (text rest : Text) : Prop where
  head : ∀ c ∈ rest.head?, isWordPart c = false
  fraction : text.all Char.isDigit = true → fractionSize rest = 0

theorem EndsNumber.digit {text rest : Text} (h : EndsNumber text rest) :
    ∀ c ∈ rest.head?, c.isDigit = false := by
  intro c hc
  have hpart := h.head c hc
  unfold isWordPart Char.isAlphanum at hpart
  simp only [Bool.or_eq_false_iff] at hpart
  exact hpart.1.2

theorem EndsNumber.marker {text rest : Text} (h : EndsNumber text rest) : markerSize rest = 0 := by
  unfold markerSize
  split
  · rename_i c more
    rw [if_neg]
    intro hmem
    have hpart := h.head c rfl
    have hletter : ['l', 'L', 'd', 'D'].all isWordPart = true := by decide
    rw [List.all_eq_true.1 hletter c hmem] at hpart
    exact absurd hpart (by decide)
  · rfl

theorem fractionSize_append {text rest : Text} (hdigit : ∀ c ∈ rest.head?, c.isDigit = false)
    (hrest : text = [] → fractionSize rest = 0) :
    fractionSize (text ++ rest) = fractionSize text := by
  cases text with
  | nil => exact hrest rfl
  | cons c text =>
    by_cases hc : c = '.'
    · subst hc
      rw [List.cons_append, fractionSize, fractionSize, run_append hdigit]
    · have hnone : ∀ rest : Text, fractionSize (c :: rest) = 0 := by
        intro rest
        unfold fractionSize
        split
        · rename_i heq
          exact absurd (List.cons.inj heq).1 hc
        · rfl
      rw [List.cons_append, hnone, hnone]

theorem markerSize_append {rest : Text} (h : markerSize rest = 0) (text : Text) :
    markerSize (text ++ rest) = markerSize text := by
  cases text with
  | nil => exact h
  | cons c text => rfl

theorem all_of_drop_run {test : Char → Bool} {text : Text} (h : text.drop (run test text) = []) :
    text.all test = true := by
  have htake : text.takeWhile test = text := by
    refine (List.takeWhile_prefix test).eq_of_length_le ?_
    exact List.drop_eq_nil_iff.1 h
  rw [← htake]
  exact List.all_takeWhile

theorem numberTail_append {text rest : Text} (h : EndsNumber text rest) :
    numberTail (text ++ rest) = numberTail text := by
  have hdigits := run_le Char.isDigit text
  have hfraction := fractionSize_le (text.drop (run Char.isDigit text))
  rw [List.length_drop] at hfraction
  unfold numberTail
  simp only [run_append h.digit]
  rw [List.drop_append_of_le_length hdigits,
    fractionSize_append h.digit fun hnil => h.fraction (all_of_drop_run hnil),
    List.drop_append_of_le_length (by omega), markerSize_append h.marker]

theorem stringTail_append {start size : Nat} {text : Text} (rest : Text)
    (h : stringTail start text = some size) : stringTail start (text ++ rest) = some size := by
  fun_induction stringTail start text with
  | case1 start c text ih =>
    rw [List.cons_append, List.cons_append, stringTail]
    exact ih h
  | case2 start text =>
    rw [List.cons_append, stringTail]
    exact h
  | case3 => cases h
  | case4 start c text hescape hquote hline ih =>
    have hbackslash : c ≠ '\\' := by
      rintro rfl
      cases text with
      | nil => simp [stringTail] at h
      | cons next text => exact hescape next text rfl rfl
    rw [List.cons_append, stringTail]
    · exact ih h
    · intro _ _ heq
      exact absurd heq hbackslash
    · exact hquote
    · exact hline
  | case5 => cases h

/-- No symbol goes on with the character that follows. -/
theorem isPrefixOf_append {text rest symbol : Text}
    (h : ∀ c ∈ rest.head?, (text ++ [c]).isPrefixOf symbol = false) :
    symbol.isPrefixOf (text ++ rest) = symbol.isPrefixOf text := by
  cases rest with
  | nil => rw [List.append_nil]
  | cons c rest =>
    rw [Bool.eq_iff_iff, List.isPrefixOf_iff_prefix, List.isPrefixOf_iff_prefix]
    refine ⟨fun hlong => ?_, fun hshort => hshort.trans (List.prefix_append text _)⟩
    by_contra hshort
    have hlength : text.length < symbol.length := by
      by_contra hle
      exact hshort (List.prefix_of_prefix_length_le hlong (List.prefix_append _ _) (by omega))
    have hone : text ++ [c] <+: text ++ c :: rest := ⟨rest, by simp⟩
    have hnext : text ++ [c] <+: symbol :=
      List.prefix_of_prefix_length_le hone hlong (by simp; omega)
    have hnone := h c rfl
    rw [List.isPrefixOf_iff_prefix.2 hnext] at hnone
    exact absurd hnone (by decide)

/-- The symbol that fits in front of a longer text is found in front of what is left of it. -/
theorem find_of_append {text more symbol : Text}
    (h : symbols.find? (·.isPrefixOf (text ++ more)) = some symbol)
    (hlength : symbol.length ≤ text.length) :
    symbols.find? (·.isPrefixOf text) = some symbol := by
  obtain ⟨hfits, earlier, later, hsplit, hearlier⟩ := List.find?_eq_some_iff_append.1 h
  refine List.find?_eq_some_iff_append.2 ⟨?_, earlier, later, hsplit, fun other hother => ?_⟩
  · rw [List.isPrefixOf_iff_prefix] at hfits ⊢
    exact List.prefix_of_prefix_length_le hfits (List.prefix_append text more) hlength
  · have hnone := hearlier other hother
    rw [Bool.not_eq_true', Bool.eq_false_iff, Ne, List.isPrefixOf_iff_prefix] at hnone ⊢
    exact fun hshort => hnone (hshort.trans (List.prefix_append text more))

/-- A token stays one when something behind it is left out. -/
theorem lexeme_of_append {c : Char} {rest more : Text} {kind : TokenKind} {size : Nat}
    (h : lexeme c (rest ++ more) = .ok (kind, size)) (hsize : size ≤ rest.length) :
    lexeme c rest = .ok (kind, size) := by
  rcases lexeme_cases h with ⟨rfl, hword, hrun⟩ | ⟨rfl, hword, hdigit, htail⟩ | ⟨rfl, rfl, hstring⟩ |
    ⟨rfl, hword, hdigit, hquote, symbol, hsymbol, hlength⟩
  · have htake := run_take isWordPart (rest ++ more) rest.length
    rw [List.take_left, ← hrun, Nat.min_eq_right hsize] at htake
    rw [lexeme_word _ hword, htake]
  · have htake := numberTail_take (htail ▸ hsize : numberTail (rest ++ more) ≤ rest.length)
    rw [List.take_left, ← htail] at htake
    rw [lexeme_number _ hword hdigit, htake]
  · -- the string is closed within what is kept
    obtain ⟨-, -, htake⟩ := stringTail_take hstring
    rw [Nat.sub_zero, List.take_append_of_le_length hsize] at htake
    have hkept := stringTail_append (rest.drop size) htake
    rw [List.take_append_drop] at hkept
    exact lexeme_string hkept
  · obtain ⟨hmem, -, -⟩ := symbol_of_find hsymbol
    have hshort : symbol.length ≤ (c :: rest).length := by
      rw [List.length_cons]
      omega
    rw [hlength, lexeme_symbol hword hdigit hquote (find_of_append hsymbol hshort)]

/-- A token that was cut out of a text is a token by itself. -/
theorem lexeme_take {c : Char} {rest : Text} {kind : TokenKind} {size : Nat}
    (h : lexeme c rest = .ok (kind, size)) :
    size ≤ rest.length ∧ lexeme c (rest.take size) = .ok (kind, size) := by
  have hsize := lexeme_size_le h
  have hwhole : lexeme c (rest.take size ++ rest.drop size) = .ok (kind, size) := by
    rwa [List.take_append_drop]
  refine ⟨hsize, lexeme_of_append hwhole ?_⟩
  rw [List.length_take]
  omega

/-! ## Blanks -/

/-- A blank is no letter and no digit. -/
theorem isWordPart_of_blank {c : Char} (h : Text.isBlank c = true) : isWordPart c = false := by
  unfold Text.isBlank Text.blankRanges at h
  simp only [List.any_cons, List.any_nil, Bool.or_false, Bool.or_eq_true, Bool.and_eq_true,
    decide_eq_true_eq] at h
  by_contra hpart
  rw [Bool.not_eq_false] at hpart
  unfold isWordPart Char.isAlphanum Char.isAlpha Char.isUpper Char.isLower Char.isDigit at hpart
  simp only [Bool.or_eq_true, Bool.and_eq_true, decide_eq_true_eq, ge_iff_le,
    UInt32.le_iff_toNat_le, beq_iff_eq] at hpart
  simp only [Char.toNat] at h
  rcases hpart with ((⟨hlow, hhigh⟩ | ⟨hlow, hhigh⟩) | ⟨hlow, hhigh⟩) | rfl
  · have hlow : 65 ≤ c.val.toNat := hlow
    have hhigh : c.val.toNat ≤ 90 := hhigh
    omega
  · have hlow : 97 ≤ c.val.toNat := hlow
    have hhigh : c.val.toNat ≤ 122 := hhigh
    omega
  · have hlow : 48 ≤ c.val.toNat := hlow
    have hhigh : c.val.toNat ≤ 57 := hhigh
    omega
  · revert h
    decide

theorem symbols_not_blank : ∀ symbol ∈ symbols, ∀ c ∈ symbol, Text.isBlank c = false := by
  have hall : symbols.all (·.all (!Text.isBlank ·)) = true := by decide
  intro symbol hsymbol c hc
  simpa using List.all_eq_true.1 (List.all_eq_true.1 hall symbol hsymbol) c hc

/-- No token goes on behind the end of its line. -/
theorem lexeme_newline {c : Char} {rest : Text} {kind : TokenKind} {size : Nat} (more : Text)
    (h : lexeme c rest = .ok (kind, size)) : lexeme c (rest ++ '\n' :: more) = .ok (kind, size) := by
  rcases lexeme_cases h with ⟨rfl, hword, rfl⟩ | ⟨rfl, hword, hdigit, rfl⟩ | ⟨rfl, rfl, hstring⟩ |
    ⟨rfl, hword, hdigit, hquote, symbol, hsymbol, rfl⟩
  · rw [lexeme_word _ hword, run_append]
    rintro _ ⟨⟩
    decide
  · have hends : EndsNumber rest ('\n' :: more) := by
      refine ⟨?_, fun _ => rfl⟩
      rintro _ ⟨⟩
      decide
    rw [lexeme_number _ hword hdigit, numberTail_append hends]
  · exact lexeme_string (stringTail_append _ hstring)
  -- a symbol holds no newline, so none becomes longer
  · have hsame : ∀ other ∈ symbols,
        other.isPrefixOf (c :: (rest ++ '\n' :: more)) = other.isPrefixOf (c :: rest) := by
      intro other hother
      rw [← List.cons_append]
      apply isPrefixOf_append
      rintro _ ⟨⟩
      rw [Bool.eq_false_iff, Ne, List.isPrefixOf_iff_prefix]
      intro hlong
      have hline : '\n' ∈ other := hlong.mem (by simp)
      exact absurd (symbols_not_blank other hother _ hline) (by decide)
    refine lexeme_symbol hword hdigit hquote ?_
    rw [List.find?_congr hsame, hsymbol]

end Scan

namespace Piece

/-- The piece is a token by itself. -/
def Lexeme (piece : Piece) : Prop :=
  ∃ c tail, piece.text = c :: tail ∧ Scan.lexeme c tail = .ok (piece.kind, tail.length)

/-- Whether the piece ends in front of a character: the two are not read as one token, nor as the
beginning of a comment, nor as a fraction. -/
def bars (piece : Piece) (c : Char) : Bool :=
  match piece.kind with
  | .word | .number => !Scan.isWordPart c
  | .string => true
  | .symbol =>
    !(Scan.symbols.any fun symbol => (piece.text ++ [c]).isPrefixOf symbol) &&
      !(piece.text == ['/'] && (c == '/' || c == '*')) && !(piece.text == ['.'] && c.isDigit)

/-- Whether the piece ends in front of a character, unless the two are part of a fraction. -/
def meets (piece : Piece) (c : Char) : Bool :=
  match piece.kind with
  | .word | .number => !Scan.isWordPart c
  | .string => true
  | .symbol =>
    !(Scan.symbols.any fun symbol => (piece.text ++ [c]).isPrefixOf symbol) &&
      !(piece.text == ['/'] && (c == '/' || c == '*'))

theorem meets_of_bars {piece : Piece} {c : Char} (h : piece.bars c = true) : piece.meets c = true := by
  unfold bars at h
  unfold meets
  cases hkind : piece.kind with
  | word => simpa [hkind] using h
  | number => simpa [hkind] using h
  | string => rfl
  | symbol =>
    simp only [hkind] at h ⊢
    exact (Bool.and_eq_true_iff.1 h).1

/-- The piece ends in front of a text. Only a number that is all digits could go on with a
fraction. -/
structure Ends (piece : Piece) (rest : Text) : Prop where
  meets : ∀ c ∈ rest.head?, piece.meets c = true
  fraction : piece.kind = .number → piece.text.all Char.isDigit = true → Scan.fractionSize rest = 0

/-- A token stays one in front of what it does not swallow. -/
theorem lexeme_append {piece : Piece} {c : Char} {tail rest : Text} (htext : piece.text = c :: tail)
    (h : Scan.lexeme c tail = .ok (piece.kind, tail.length)) (hends : piece.Ends rest) :
    Scan.lexeme c (tail ++ rest) = .ok (piece.kind, tail.length) := by
  have hbars := hends.meets
  unfold meets at hbars
  rcases Scan.lexeme_cases h with ⟨hkind, hword, hsize⟩ | ⟨hkind, hword, hdigit, hsize⟩ |
    ⟨hkind, rfl, hsize⟩ | ⟨hkind, hword, hdigit, hquote, symbol, hsymbol, hsize⟩
  all_goals simp only [hkind] at hbars ⊢
  · rw [Scan.lexeme_word _ hword, Scan.run_append (fun c hc => by simpa using hbars c hc), ← hsize]
  · have hnumber : Scan.EndsNumber tail rest := by
      refine ⟨fun c hc => by simpa using hbars c hc, fun hall => hends.fraction hkind ?_⟩
      rw [htext, List.all_cons, hdigit, hall]
      rfl
    rw [Scan.lexeme_number _ hword hdigit, Scan.numberTail_append hnumber, ← hsize]
  · exact Scan.lexeme_string (Scan.stringTail_append rest hsize)
  -- what follows completes no longer symbol
  · have hsame : ∀ other ∈ Scan.symbols,
        other.isPrefixOf (c :: (tail ++ rest)) = other.isPrefixOf (c :: tail) := by
      intro other hother
      rw [← List.cons_append]
      apply Scan.isPrefixOf_append
      intro next hnext
      have hbar := hbars next hnext
      simp only [Bool.and_eq_true, Bool.not_eq_true', List.any_eq_false] at hbar
      rw [← htext]
      exact Bool.eq_false_iff.2 (hbar.1 other hother)
    rw [hsize]
    refine Scan.lexeme_symbol hword hdigit hquote ?_
    rw [List.find?_congr hsame, hsymbol]

theorem Lexeme.symbol_mem {piece : Piece} (h : piece.Lexeme) (hkind : piece.kind = .symbol) :
    piece.text ∈ Scan.symbols := by
  obtain ⟨c, tail, htext, hlexeme⟩ := h
  rw [hkind] at hlexeme
  rcases Scan.lexeme_cases hlexeme with ⟨hword, -⟩ | ⟨hnumber, -⟩ | ⟨hstring, -⟩ |
    ⟨-, -, -, -, symbol, hsymbol, hsize⟩
  · cases hword
  · cases hnumber
  · cases hstring
  · obtain ⟨hmem, hprefix, -⟩ := Scan.symbol_of_find hsymbol
    rw [← hsize, List.take_length] at hprefix
    rw [htext, ← hprefix]
    exact hmem

/-- The first character of a token. -/
theorem Lexeme.first {piece : Piece} (h : piece.Lexeme) :
    ∃ c tail, piece.text = c :: tail ∧ Text.isBlank c = false := by
  obtain ⟨c, tail, htext, hlexeme⟩ := h
  refine ⟨c, tail, htext, ?_⟩
  rcases Scan.lexeme_cases hlexeme with ⟨-, hword, -⟩ | ⟨-, -, hdigit, -⟩ | ⟨-, rfl, -⟩ | ⟨hkind, -⟩
  · by_contra hblank
    have hpart := Scan.isWordPart_of_blank (Bool.not_eq_false _ ▸ hblank)
    unfold Scan.isWordStart at hword
    unfold Scan.isWordPart Char.isAlphanum at hpart
    simp only [Bool.or_eq_true, Bool.or_eq_false_iff] at hword hpart
    rcases hword with halpha | hscore
    · rw [halpha] at hpart
      exact absurd hpart.1.1 (by decide)
    · rw [hscore] at hpart
      exact absurd hpart.2 (by decide)
  · by_contra hblank
    have hpart := Scan.isWordPart_of_blank (Bool.not_eq_false _ ▸ hblank)
    unfold Scan.isWordPart Char.isAlphanum at hpart
    rw [hdigit] at hpart
    simp at hpart
  · decide
  · have hmem := Lexeme.symbol_mem ⟨c, tail, htext, hlexeme⟩ hkind
    exact Scan.symbols_not_blank _ hmem c (by rw [htext]; exact List.mem_cons_self)

/-- Every token ends in front of a blank. -/
theorem bars_blank (piece : Piece) {c : Char} (hblank : Text.isBlank c = true) : piece.bars c = true := by
  have hpart := Scan.isWordPart_of_blank hblank
  unfold bars
  split
  · rw [hpart]; rfl
  · rw [hpart]; rfl
  · rfl
  · simp only [Bool.and_eq_true, Bool.not_eq_true', List.any_eq_false, Bool.and_eq_false_iff]
    refine ⟨⟨fun symbol hsymbol hprefix => ?_, .inr ?_⟩, .inr ?_⟩
    · obtain ⟨more, hmore⟩ := List.isPrefixOf_iff_prefix.1 hprefix
      have hmem : c ∈ symbol := by
        rw [← hmore]
        simp
      rw [Scan.symbols_not_blank symbol hsymbol c hmem] at hblank
      exact absurd hblank (by decide)
    · rw [Bool.or_eq_false_iff, beq_eq_false_iff_ne, beq_eq_false_iff_ne]
      constructor
      · rintro rfl
        exact absurd hblank (by decide)
      · rintro rfl
        exact absurd hblank (by decide)
    · unfold Scan.isWordPart Char.isAlphanum at hpart
      simp only [Bool.or_eq_false_iff] at hpart
      exact hpart.1.2

/-- A token is of the class that its first character tells. -/
theorem Lexeme.regular {piece : Piece} (h : piece.Lexeme) : piece.Regular := by
  refine ⟨?_, h.symbol_mem⟩
  obtain ⟨c, tail, htext, hlexeme⟩ := h
  rw [htext]
  show piece.kind = if Scan.isWordStart c then _ else _
  rcases Scan.lexeme_cases hlexeme with ⟨hkind, hword, -⟩ | ⟨hkind, hword, hdigit, -⟩ |
    ⟨hkind, rfl, -⟩ | ⟨hkind, hword, hdigit, hquote, -⟩
  · rw [if_pos hword, hkind]
  · rw [hword, if_neg (by decide), if_pos hdigit, hkind]
  · rw [hkind]
    rfl
  · rw [hword, hdigit, if_neg (by decide), if_neg (by decide), if_neg hquote, hkind]

end Piece

end ApexLayout
