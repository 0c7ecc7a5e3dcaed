import ApexLayout.Grammar.Declaration

/-!
Reading whole sources.

A source is read as a compilation unit, as one statement or as one expression, and nothing may
stand behind it. The rules also run one after another on a stream that is already partly read.
-/

namespace ApexLayout

namespace Grammar

/-- A rule with nothing behind what it reads. -/
def whole {α : Type} (rule : Grammar α) : Grammar α := do
  let value ← rule
  endOfInput
  return value

/-- What a rule makes of a whole source. -/
def readSource {α : Type} (rule : Grammar α) (source : Text) : Except SyntaxError α := do
  let stream ← TokenStream.ofSource source
  ((whole rule).run stream).1

end Grammar

/-- The compilation unit of a source. -/
def parseUnit (source : Text) : Except SyntaxError CompilationUnit :=
  Grammar.readSource Grammar.compilationUnit source

/-- The statement that a source consists of. -/
def parseStatement (source : Text) : Except SyntaxError Statement :=
  Grammar.readSource Grammar.statement source

/-- The expression that a source consists of. -/
def parseExpression (source : Text) : Except SyntaxError Expression :=
  Grammar.readSource Grammar.expression source

end ApexLayout
