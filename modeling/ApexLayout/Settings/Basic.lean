import ApexLayout.Text.Basic

/-!
Settings of the formatter.
-/

namespace ApexLayout

/-- What a level of indentation is made of. -/
inductive IndentStyle
  | tabs
  | spaces
deriving DecidableEq

/-- The name of an indentation style in settings. -/
def IndentStyle.text : IndentStyle → Text
  | .tabs => "tabs"
  | .spaces => "spaces"

/-- The indentation style of that name. -/
def IndentStyle.ofText? (text : Text) : Option IndentStyle :=
  [IndentStyle.tabs, IndentStyle.spaces].find? (·.text == text)

/-- The settings that shape the output. -/
structure Settings where
  indentStyle : IndentStyle := .tabs
  /-- The blanks per level when levels are made of spaces. -/
  indentWidth : Nat := 4
  /-- The least number of calls for which a chain is put on several lines. -/
  chainThreshold : Nat := 2
deriving DecidableEq

instance : Inhabited Settings := ⟨{}⟩

/-- One level of indentation. A text has no greatest length here: there is a unit for every width, also
for a width that no string in a memory can have. -/
def Settings.indentUnit (settings : Settings) : Text :=
  match settings.indentStyle with
  | .tabs => ['\t']
  | .spaces => List.replicate settings.indentWidth ' '

end ApexLayout
