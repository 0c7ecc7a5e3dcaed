import ApexLayout.Json.Basic

/-!
JSON values as text.

The pretty form puts every item and field on a line of its own, two blanks further in per level;
an empty list or object stays on its line. Strings keep all characters but quotes, backslashes
and control characters.
-/

namespace ApexLayout

namespace Json

/-- A character inside a JSON string. -/
def escapeChar (c : Char) : Text :=
  if c = '\x22' then "\\\""
  else if c = '\\' then "\\\\"
  else if c = '\n' then "\\n"
  else if c = '\r' then "\\r"
  else if c = '\t' then "\\t"
  else if c = '\x08' then "\\b"
  else if c = '\x0c' then "\\f"
  else if c.toNat < 0x20 then
    "\\u00" ++ [Nat.digitChar (c.toNat / 16), Nat.digitChar (c.toNat % 16)]
  else [c]

/-- A JSON string. -/
def quote (text : Text) : Text := ['\x22'] ++ text.flatMap escapeChar ++ ['\x22']

/-- The beginning of a line at a depth. -/
def margin (depth : Nat) : Text := List.replicate (2 * depth) ' '

mutual

/-- The pretty form of a value that begins at a depth. -/
def prettyAt (depth : Nat) : Json → Text
  | .null => "null"
  | .bool true => "true"
  | .bool false => "false"
  | .number value => Text.ofNat value
  | .string value => quote value
  | .array [] => "[]"
  | .array (first :: rest) =>
    "[\n" ++ prettyItems (depth + 1) (first :: rest) ++ ['\n'] ++ margin depth ++ "]"
  | .object [] => ['{', '}']
  | .object (first :: rest) =>
    ['{', '\n'] ++ prettyFields (depth + 1) (first :: rest) ++ ['\n'] ++ margin depth ++ ['}']

/-- Items on lines of their own. -/
def prettyItems (depth : Nat) : List Json → Text
  | [] => []
  | [value] => margin depth ++ prettyAt depth value
  | value :: next :: rest =>
    margin depth ++ prettyAt depth value ++ ",\n" ++ prettyItems depth (next :: rest)

/-- Fields on lines of their own. -/
def prettyFields (depth : Nat) : List (Text × Json) → Text
  | [] => []
  | [(key, value)] => margin depth ++ quote key ++ ": " ++ prettyAt depth value
  | (key, value) :: next :: rest =>
    margin depth ++ quote key ++ ": " ++ prettyAt depth value ++ ",\n" ++
      prettyFields depth (next :: rest)

end

/-- The pretty form of a value. -/
def pretty (value : Json) : Text := prettyAt 0 value

end Json

end ApexLayout
