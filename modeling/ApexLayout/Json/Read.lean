import ApexLayout.Json.Basic
import ApexLayout.Reader

/-!
Reading JSON.

The form is strict: no comments, no trailing commas, no line ends or other control characters
inside strings, and numbers are natural numbers without leading zeros.
-/

namespace ApexLayout

namespace Json

instance : Consumable Unit Text := ⟨List.length, fun _ => ()⟩

/-- A rule of the JSON grammar. -/
abbrev Rule := EStateM Unit Text

namespace Rule

/-- The next character. -/
def next : Rule Char
  | [] => .error () []
  | c :: rest => .ok c rest

/-- Consumes a character if it is next, and says whether it was. -/
def take (c : Char) : Rule Bool := fun input =>
  if input.head? = some c then .ok true input.tail else .ok false input

/-- The given character. -/
def char (c : Char) : Rule Unit := do
  Reader.require (← take c) ()

/-- The given text. -/
def exactly (text : Text) : Rule Unit := text.forM char

/-- Blanks between tokens. -/
def blanks : Rule Unit :=
  modify (·.dropWhile fun c => c == ' ' || c == '\t' || c == '\n' || c == '\r')

/-- A character behind blanks: consumes it if it is next, and says whether it was. -/
def takeMark (c : Char) : Rule Bool := do
  blanks
  take c

/-- The given character behind blanks. -/
def mark (c : Char) : Rule Unit := do
  Reader.require (← takeMark c) ()

/-! ## Numbers and strings -/

/-- The rest of a number, behind its first digit. -/
def number (first : Char) : Rule Json := fun input =>
  if first = '0' then .ok (.number 0) input
  else .ok (.number (Text.decimal (first :: input.takeWhile Char.isDigit)))
    (input.dropWhile Char.isDigit)

/-- The value of a hexadecimal digit. -/
def hexDigit? (c : Char) : Option Nat :=
  if c.isDigit then some (c.toNat - '0'.toNat)
  else if 'a' ≤ c ∧ c ≤ 'f' then some (c.toNat - 'a'.toNat + 10)
  else if 'A' ≤ c ∧ c ≤ 'F' then some (c.toNat - 'A'.toNat + 10)
  else none

/-- One hexadecimal digit. -/
def hexDigit : Rule Nat := do
  match hexDigit? (← next) with
  | some value => return value
  | none => throw ()

/-- Four hexadecimal digits. -/
def codeUnit : Rule Nat := do
  let a ← hexDigit
  let b ← hexDigit
  let c ← hexDigit
  let d ← hexDigit
  return ((a * 16 + b) * 16 + c) * 16 + d

/-- A character by its code units: one, or two that are a surrogate pair. -/
def unicodeEscape : Rule Char := do
  let unit ← codeUnit
  if 0xD800 ≤ unit ∧ unit < 0xDC00 then
    exactly "\\u"
    let second ← codeUnit
    Reader.require (0xDC00 ≤ second && second < 0xE000) ()
    return Char.ofNat (0x10000 + (unit - 0xD800) * 0x400 + (second - 0xDC00))
  else
    Reader.require (unit < 0xD800 || 0xE000 ≤ unit) ()
    return Char.ofNat unit

/-- The rest of an escape, behind its backslash. -/
def escape : Rule Char := do
  match ← next with
  | '\x22' => return '\x22'
  | '\\' => return '\\'
  | '/' => return '/'
  | 'b' => return '\x08'
  | 'f' => return '\x0c'
  | 'n' => return '\n'
  | 'r' => return '\r'
  | 't' => return '\t'
  | 'u' => unicodeEscape
  | _ => throw ()

/-- The next character of a string, or nothing at its closing quote. -/
def stringChar : Rule (Option Char) := do
  match ← next with
  | '\x22' => return none
  | '\\' => return some (← escape)
  | c =>
    Reader.require (0x20 ≤ c.toNat) ()
    return some c

/-- The rest of a string, behind its opening quote. -/
def string : Rule Text := Reader.many stringChar

/-! ## Values -/

/-- The rest of a list, behind its opening bracket. -/
def items (value : Rule Json) : Rule (List Json) := do
  if ← takeMark ']' then
    return []
  else
    let values ← Reader.separated (takeMark ',') value
    mark ']'
    return values

/-- One field of an object. -/
def field (value : Rule Json) : Rule (Text × Json) := do
  mark '\x22'
  let key ← string
  mark ':'
  return (key, ← value)

/-- The rest of an object, behind its opening brace. -/
def fields (value : Rule Json) : Rule (List (Text × Json)) := do
  if ← takeMark '}' then
    return []
  else
    let values ← Reader.separated (takeMark ',') (field value)
    mark '}'
    return values

/-- A value, by what the values inside it are. -/
def valueRule (value : Rule Json) : Rule Json := do
  blanks
  match ← next with
  | 'n' => exactly "ull"; return .null
  | 't' => exactly "rue"; return .bool true
  | 'f' => exactly "alse"; return .bool false
  | '\x22' => return .string (← string)
  | '[' => return .array (← items value)
  | '{' => return .object (← fields value)
  | c =>
    Reader.require c.isDigit ()
    number c

/-- A value. -/
def value : Rule Json := Reader.recursive valueRule

/-- A value with nothing but blanks around it. -/
def document : Rule Json := do
  let result ← value
  blanks
  Reader.require (← get).isEmpty ()
  return result

end Rule

/-- The value that a text writes. -/
def ofText? (text : Text) : Option Json :=
  match Rule.document text with
  | .ok value _ => some value
  | .error _ _ => none

end Json

end ApexLayout
