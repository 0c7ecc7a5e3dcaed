import ApexLayout.Reader
import ApexLayout.Token.Scan

/-!
Reading token streams.

The grammar's readers see the next tokens and consume them one by one. A failure is the error that
was made where a rule gave up (`TokenStream.refusal`); it is handed on as it is, while the stream
stays wherever the run leaves it.
-/

namespace ApexLayout

/-- The error of a rule that gives up here: the place of the next token, and its text. -/
def TokenStream.refusal (stream : TokenStream) (expected : Expectation) : SyntaxError :=
  ⟨stream.position, .unexpected expected stream.next?⟩

instance : Consumable SyntaxError TokenStream := ⟨TokenStream.remaining, (·.refusal .progress)⟩

/-- A rule of the grammar. -/
abbrev Grammar := EStateM SyntaxError TokenStream

namespace Grammar

/-- A fact about the tokens ahead. -/
def look {α : Type} (view : TokenStream → α) : Grammar α := return view (← get)

/-- Consumes tokens. -/
def skip (count : Nat) : Grammar Unit := modify (·.skip count)

/-- Gives up, with an error for the next token. -/
def fail {α : Type} (expected : Expectation) : Grammar α := do
  throw ((← get).refusal expected)

/-- Gives up unless a condition holds. -/
def require (condition : Bool) (expected : Expectation) : Grammar Unit :=
  if condition then pure () else fail expected

/-- The text of the next token, which is consumed. -/
def takeText : Grammar Text := do
  let text ← look (·.next?.getD [])
  skip 1
  return text

/-- Whether the next token is the given symbol. -/
def atSymbol (symbol : Text) : Grammar Bool := look (·.symbolAt 0 symbol)

/-- Whether the next token is the given keyword. -/
def atWord (word : Text) : Grammar Bool := look (·.wordAt 0 word)

/-- Consumes the given symbol if it is next, and says whether it was. -/
def takeSymbol (symbol : Text) : Grammar Bool := do
  let found ← atSymbol symbol
  if found then skip 1
  return found

/-- Consumes the given keyword if it is next, and says whether it was. -/
def takeWord (word : Text) : Grammar Bool := do
  let found ← atWord word
  if found then skip 1
  return found

/-- The given symbol. -/
def symbol (symbol : Text) : Grammar Unit := do
  require (← takeSymbol symbol) (.spelled symbol)

/-- Nothing more. -/
def endOfInput : Grammar Unit := do
  require (← look (·.tokens.isEmpty)) .endOfInput

/-- One or more items with commas between them. -/
def commaSeparated {α : Type} (item : Grammar α) : Grammar (List α) :=
  Reader.separated (takeSymbol ",") item

/-- Runs a rule: its result, and the stream where it stopped. -/
def run {α : Type} (rule : Grammar α) (stream : TokenStream) :
    Except SyntaxError α × TokenStream :=
  match rule stream with
  | .ok value rest => (.ok value, rest)
  | .error error rest => (.error error, rest)

end Grammar

end ApexLayout
