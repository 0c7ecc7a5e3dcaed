import ApexLayout.Grammar.Source
import ApexLayout.Layout.Declaration

/-!
Formatting: a source is read and printed again.
-/

namespace ApexLayout

/-- Why a source is not formatted. -/
inductive FormatError
  | refused (error : SyntaxError)
  | unprintable (error : RenderError)
deriving DecidableEq

/-- The text of a source file: the compilation unit and a newline. -/
def CompilationUnit.print (settings : Settings) (unit : CompilationUnit) : Rendered :=
  return (← unit.render { settings }) ++ ['\n']

/-- The formatted text of a source. -/
def format (settings : Settings) (source : Text) : Except FormatError Text :=
  match parseUnit source with
  | .error error => .error (.refused error)
  | .ok unit =>
    match unit.print settings with
    | .error error => .error (.unprintable error)
    | .ok text => .ok text

end ApexLayout
