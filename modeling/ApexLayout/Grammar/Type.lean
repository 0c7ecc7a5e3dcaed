import ApexLayout.Grammar.Basic
import ApexLayout.Grammar.Vocabulary
import ApexLayout.Tree.Type

/-!
Identifiers, type references and modifiers.
-/

namespace ApexLayout

namespace Grammar

/-- An identifier. -/
def identifier : Grammar Text := do
  require (← look (·.identifierAt 0)) .identifier
  takeText

/-- A dot, if an identifier stands behind it. -/
def dotBeforeIdentifier : Grammar Bool := do
  let found ← look fun stream => stream.symbolAt 0 "." && stream.identifierAt 1
  if found then skip 1
  return found

/-! ## Type references -/

/-- The type arguments of a name, if there are any. -/
def typeArguments (typeRef : Grammar TypeRef) : Grammar (List TypeRef) := do
  if ← takeSymbol "<" then
    let arguments ← commaSeparated typeRef
    symbol ">"
    return arguments
  else
    return []

/-- One name of a type reference. -/
def typeName (typeRef : Grammar TypeRef) : Grammar TypeName := do
  let name ← identifier
  let arguments ← typeArguments typeRef
  return ⟨name, arguments⟩

/-- An empty pair of brackets, if it is next. -/
def bracketPair : Grammar (Option Text) := do
  if ← look fun stream => stream.symbolAt 0 "[" && stream.symbolAt 1 "]" then
    skip 2
    return some "[]"
  else
    return none

/-- A type reference, by what its type arguments are. -/
def typeRefRule (typeRef : Grammar TypeRef) : Grammar TypeRef := do
  let segments ← Reader.separated dotBeforeIdentifier (typeName typeRef)
  let pairs ← Reader.many bracketPair
  return ⟨segments, pairs.flatten⟩

/-- A type reference. -/
def typeRef : Grammar TypeRef := Reader.recursive typeRefRule

/-- One or more type references. -/
def typeList : Grammar (List TypeRef) := commaSeparated typeRef

/-! ## Modifiers -/

/-- The shortest beginning of the tokens in which the two symbols balance. -/
def enclosed (opening closing : Text) : Nat → List Token → Option (List Token)
  | _, [] => none
  | depth, token :: rest =>
    let inside :=
      if token.isSymbol opening then depth + 1
      else if token.isSymbol closing then depth - 1
      else depth
    if inside = 0 then some [token]
    else (enclosed opening closing inside rest).map (token :: ·)

/-- The tokens from an opening symbol to the closing one that matches it. -/
def enclosure (opening closing : Text) (missing : Expectation) : Grammar (List Token) := do
  let stream ← get
  match enclosed opening closing 0 stream.tokens with
  | some taken =>
    skip taken.length
    return taken
  | none =>
    skip stream.remaining
    fail missing

/-- The texts of tokens one after another, with a blank between two that are not symbols. -/
def closeUp : List Token → Text
  | [] => []
  | [token] => token.text
  | first :: second :: rest =>
    let gap : Text := if first.kind ≠ .symbol ∧ second.kind ≠ .symbol then " " else []
    first.text ++ gap ++ closeUp (second :: rest)

/-- An annotation with its arguments. -/
def annotation : Grammar Modifier := do
  symbol "@"
  let names ← Reader.separated dotBeforeIdentifier identifier
  let arguments ←
    Reader.optional (atSymbol "(") (enclosure "(" ")" .annotationEnd)
  return "@" ++ Text.join "." names ++ closeUp (arguments.getD [])

/-- A modifier, if one is next. -/
def modifier : Grammar (Option Modifier) := do
  let stream ← get
  if stream.symbolAt 0 "@" then
    return some (← annotation)
  else if stream.wordInAt 0 Vocabulary.modifiers then
    return some (← takeText)
  else if stream.wordInAt 0 Vocabulary.sharingModes && stream.wordAt 1 "sharing" then
    let mode ← takeText
    let sharing ← takeText
    return some (mode ++ " " ++ sharing)
  else
    return none

/-- All modifiers that come next. -/
def modifiers : Grammar (List Modifier) := Reader.many modifier

end Grammar

end ApexLayout
