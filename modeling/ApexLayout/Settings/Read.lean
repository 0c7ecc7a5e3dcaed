import ApexLayout.Json.Read
import ApexLayout.Settings.Basic

/-!
Settings as JSON.

An object sets each of its fields at most once and no others; a list sets the fields in their
order. What is not set keeps its default.
-/

namespace ApexLayout

/-- Every number in settings and on the command line stays below this bound, the first number that
does not fit in 64 bits. -/
def numberBound : Nat := 0x10000000000000000

/-- The indentation style that a value names: a string, or an object with nothing in it. -/
def IndentStyle.ofJson? : Json → Option IndentStyle
  | .string name => IndentStyle.ofText? name
  | .object [(name, .null)] => IndentStyle.ofText? name
  | _ => none

namespace Settings

/-- The number that a value gives. -/
def number? : Json → Option Nat
  | .number value => if value < numberBound then some value else none
  | _ => none

/-- The names of the fields, in their order. -/
def fieldNames : List Text :=
  ["indent_style", "indent_width", "chain_threshold"].map String.toList

/-- The settings with one field set. -/
def set? (settings : Settings) (field : Text × Json) : Option Settings :=
  if field.1 = "indent_style".toList then
    (IndentStyle.ofJson? field.2).map fun style => { settings with indentStyle := style }
  else if field.1 = "indent_width".toList then
    (number? field.2).map fun width => { settings with indentWidth := width }
  else if field.1 = "chain_threshold".toList then
    (number? field.2).map fun threshold => { settings with chainThreshold := threshold }
  else none

/-- The default settings with the given fields set, each at most once. -/
def ofFields? (fields : List (Text × Json)) : Option Settings :=
  if (fields.map Prod.fst).Nodup then fields.foldlM set? default else none

/-- The settings that a value gives. -/
def ofJson? : Json → Option Settings
  | .object fields => ofFields? fields
  | .array items =>
    if items.length ≤ fieldNames.length then ofFields? (fieldNames.zip items) else none
  | _ => none

/-- The settings that a text gives. -/
def ofText? (text : Text) : Option Settings := Json.ofText? text >>= ofJson?

end Settings

end ApexLayout
