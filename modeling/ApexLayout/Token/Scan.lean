import ApexLayout.Text.Blank
import ApexLayout.Token.Basic
import ApexLayout.Token.Error

/-!
Cutting a source into tokens.

Between tokens stands a gap of blanks and comments; a token is the longest word or number, a
string up to its closing quote, or the first symbol of the table that fits. Both are measured first
and cut afterwards, so a token and its gap are slices of the source by construction.
-/

namespace ApexLayout

namespace Scan

/-! ## Gaps -/

/-- Where a gap is: between comments, in a comment to the end of the line, or in a comment that
began after the given number of characters. -/
inductive GapState
  | blank
  | line
  | block (start : Nat)

/-- The number of characters of the gap in front of the next token, those already passed
included; or the number in front of a comment that is never closed. -/
def gapSize : GapState → Nat → Text → Except Nat Nat
  | .blank, n, '/' :: '/' :: rest => gapSize .line (n + 2) rest
  | .blank, n, '/' :: '*' :: rest => gapSize (.block n) (n + 2) rest
  | .blank, n, c :: rest => if Text.isBlank c then gapSize .blank (n + 1) rest else .ok n
  | .blank, n, [] => .ok n
  | .line, n, c :: rest => gapSize (if c = '\n' then .blank else .line) (n + 1) rest
  | .line, n, [] => .ok n
  | .block _, n, '*' :: '/' :: rest => gapSize .blank (n + 2) rest
  | .block start, n, _ :: rest => gapSize (.block start) (n + 1) rest
  | .block start, _, [] => .error start

/-! ## Lexemes -/

/-- Whether a character may begin a word. -/
def isWordStart (c : Char) : Bool := c.isAlpha || c == '_'

/-- Whether a character may stand inside a word. -/
def isWordPart (c : Char) : Bool := c.isAlphanum || c == '_'

/-- The number of leading characters in a class. -/
def run (test : Char → Bool) (text : Text) : Nat := (text.takeWhile test).length

/-- The length of a fraction: a dot with at least one digit behind it. -/
def fractionSize : Text → Nat
  | '.' :: rest => if run Char.isDigit rest = 0 then 0 else run Char.isDigit rest + 1
  | _ => 0

/-- The length of the letter that marks a long or a double. -/
def markerSize : Text → Nat
  | c :: _ => if c ∈ ['l', 'L', 'd', 'D'] then 1 else 0
  | [] => 0

/-- The length of what follows the first digit of a number. -/
def numberTail (text : Text) : Nat :=
  let digits := run Char.isDigit text
  let fraction := fractionSize (text.drop digits)
  digits + fraction + markerSize (text.drop (digits + fraction))

/-- The length of what follows the opening quote of a string, its closing quote included. A
backslash takes the next character with it; a line may not end inside. -/
def stringTail : Nat → Text → Option Nat
  | n, '\\' :: _ :: rest => stringTail (n + 2) rest
  | n, '\x27' :: _ => some (n + 1)
  | _, '\n' :: _ => none
  | n, _ :: rest => stringTail (n + 1) rest
  | _, [] => none

/-- The symbols, longer ones in front of their beginnings. Nothing is glued to `>`, so that
nested type arguments close one by one. -/
def symbols : List Text :=
  ["===", "!==", "<<=", "&&", "||", "==", "!=", "<=", "+=", "-=", "*=", "/=", "&=", "|=", "^=",
    "<<", "++", "--", "=>", "?.", "(", ")", "\x7b", "\x7d", "[", "]", ";", ",", ".", "@", "=", "<",
    ">", "!", "~", "?", ":", "+", "-", "*", "/", "&", "|", "^", "%"].map String.toList

/-- The class of the token that begins with a character, and the number of further characters
that belong to it. -/
def lexeme (c : Char) (rest : Text) : Except SyntaxCause (TokenKind × Nat) :=
  if isWordStart c then .ok (.word, run isWordPart rest)
  else if c.isDigit then .ok (.number, numberTail rest)
  else if c = '\x27' then
    match stringTail 0 rest with
    | some size => .ok (.string, size)
    | none => .error .unclosedString
  else
    match symbols.find? (·.isPrefixOf (c :: rest)) with
    | some symbol => .ok (.symbol, symbol.length - 1)
    | none => .error (.strayCharacter c)

/-! ## The whole source -/

/-- The tokens of a text that begins at a mark. -/
def scanFrom (mark : Mark) (text : Text) : Except SyntaxError TokenStream :=
  match gapSize .blank 0 text with
  | .error size => .error ⟨(mark.advance (text.take size)).position, .unclosedComment⟩
  | .ok size =>
    let lead := text.take size
    let start := mark.advance lead
    match _ : text.drop size with
    | [] => .ok (.empty lead start)
    | c :: rest =>
      match lexeme c rest with
      | .error cause => .error ⟨start.position, cause⟩
      | .ok (kind, tail) =>
        let token : Token := ⟨kind, c :: rest.take tail, lead, start⟩
        match scanFrom token.finish (rest.drop tail) with
        | .error error => .error error
        | .ok stream => .ok (stream.push token)
termination_by text.length
decreasing_by
  have := congrArg List.length ‹text.drop _ = _ :: _›
  simp only [List.length_drop, List.length_cons] at this ⊢
  omega

/-- The tokens of a text and the gaps between them are the whole text. -/
theorem source_scanFrom {mark : Mark} {text : Text} {stream : TokenStream}
    (h : scanFrom mark text = .ok stream) : stream.source = text := by
  fun_induction scanFrom mark text generalizing stream with
  | case1 => simp at h
  | case2 mark text size hgap lead start =>
    -- nothing but a gap is left
    rename_i hcut
    simp only [Except.ok.injEq] at h
    subst h
    have hgap := List.take_append_drop size text
    rw [hcut, List.append_nil] at hgap
    simp only [TokenStream.source, TokenStream.empty, List.map_nil, List.flatten_nil,
      List.nil_append]
    exact hgap
  | case3 => simp at h
  | case4 => simp at h
  | case5 mark text size hgap lead start c rest hcut kind tail hlex token =>
    rename_i found hfound ih
    simp only [Except.ok.injEq] at h
    subst h
    have hrest := ih hfound
    simp only [TokenStream.source] at hrest
    simp only [TokenStream.source, TokenStream.push, List.map_cons, List.flatten_cons,
      List.append_assoc, hrest]
    simp only [Token.source, token, lead, List.append_assoc, List.cons_append,
      List.take_append_drop, ← hcut]

end Scan

/-- The tokens of a source. -/
def TokenStream.ofSource (source : Text) : Except SyntaxError TokenStream :=
  Scan.scanFrom Mark.origin source

end ApexLayout
