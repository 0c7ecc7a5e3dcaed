/-!
Texts as lists of characters.

Source, tokens and output are all lists of characters, so that cutting a source into tokens and
putting an output together are functions on lists.
-/

namespace ApexLayout

/-- A text, as the list of its characters. -/
abbrev Text := List Char

instance : Coe String Text := ⟨String.toList⟩

namespace Text

/-- A number in decimal digits. -/
def ofNat (n : Nat) : Text := Nat.toDigits 10 n

/-- The number that decimal digits write. -/
def decimal (digits : Text) : Nat := digits.foldl (fun n c => 10 * n + (c.toNat - '0'.toNat)) 0

/-- The number of bytes that a text takes in UTF-8. -/
def byteSize (text : Text) : Nat := text.foldr (fun c size => c.utf8Size + size) 0

/-- A text with its ASCII capitals replaced by small letters. -/
def lower (text : Text) : Text := text.map Char.toLower

/-- Whether two words are the same up to the case of ASCII letters. -/
def sameWord (first second : Text) : Bool := lower first == lower second

/-- The texts one after another, with a separator between neighbours. -/
def join (separator : Text) (parts : List Text) : Text := separator.intercalate parts

/-- A text in backticks, as messages quote it. -/
def quoted (text : Text) : Text := "`" ++ text ++ "`"

end Text

end ApexLayout
