import ApexLayout.Text.Position

/-!
Why a source is refused.

A source fails either while it is cut into tokens or where the grammar expects something else; an
error holds the cause and the place, and the wording is a function of the two.
-/

namespace ApexLayout

/-- What the grammar asks for at the place where it stops. -/
inductive Expectation
  /-- The given symbol or keyword. -/
  | spelled (text : Text)
  | identifier
  | memberName
  | expression
  /-- A type declaration. -/
  | declaration
  /-- An accessor of a property. -/
  | accessor
  /-- Parameters, because the member has no type. -/
  | voidParameters
  /-- What follows the type in a `new` expression. -/
  | creatorBody
  /-- A clause that goes with a `try` block. -/
  | handler
  /-- A member other than the class literal. -/
  | noClassLiteral
  | annotationEnd
  | queryEnd
  | endOfInput
  /-- A step that consumes something. -/
  | progress
deriving DecidableEq

/-- An expectation as messages word it. -/
def Expectation.text : Expectation → Text
  | .spelled text => "expected " ++ Text.quoted text
  | .identifier => "expected identifier"
  | .memberName => "expected member name"
  | .expression => "expected expression"
  | .declaration => "expected `class`, `interface` or `enum`"
  | .accessor => "expected `get` or `set`"
  | .voidParameters => "expected `(` after void member name"
  | .creatorBody => "expected `(`, `[` or `\x7b` after type in `new` expression"
  | .handler => "expected `catch` or `finally`"
  | .noClassLiteral => "unexpected `class`"
  | .annotationEnd => "unterminated annotation arguments"
  | .queryEnd => "unterminated query"
  | .endOfInput => "expected end of input"
  | .progress => "expected progress"

/-- The causes for which a source is refused. -/
inductive SyntaxCause
  | unclosedComment
  | unclosedString
  /-- A character that begins no token. -/
  | strayCharacter (c : Char)
  /-- The grammar expects something else than the next token, or than the end. -/
  | unexpected (expected : Expectation) (found : Option Text)
deriving DecidableEq

/-- A cause as messages word it. -/
def SyntaxCause.text : SyntaxCause → Text
  | .unclosedComment => "unterminated block comment"
  | .unclosedString => "unterminated string literal"
  | .strayCharacter c => "unexpected character " ++ Text.quoted [c]
  | .unexpected expected none => expected.text ++ ", found end of input"
  | .unexpected expected (some found) => expected.text ++ ", found " ++ Text.quoted found

/-- A refusal: where the source goes wrong, and why. -/
structure SyntaxError where
  position : Position
  cause : SyntaxCause
deriving DecidableEq

namespace SyntaxError

/-- The message for a detail at a place. -/
def message (position : Position) (detail : Text) : Text :=
  "parse error at " ++ position.text ++ ": " ++ detail

/-- The error as it is reported. -/
def text (error : SyntaxError) : Text := message error.position error.cause.text

end SyntaxError

end ApexLayout
