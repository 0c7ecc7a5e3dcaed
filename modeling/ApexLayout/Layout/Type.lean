import ApexLayout.Layout.Error
import ApexLayout.Tree.Type

/-!
Printing of type references and modifiers.
-/

namespace ApexLayout

mutual

/-- The text of a type reference. -/
def TypeRef.render : TypeRef → Rendered
  | ⟨segments, suffix⟩ => do
    if segments.isEmpty then
      throw (.malformed .typeReference .segments)
    else
      let names ← TypeName.renderAll segments
      return Text.join "." names ++ suffix

/-- The text of one name with its type arguments. -/
def TypeName.render : TypeName → Rendered
  | ⟨name, arguments⟩ => do
    if arguments.isEmpty then
      return name
    else
      let types ← TypeRef.renderAll arguments
      return name ++ "<" ++ Text.join ", " types ++ ">"

/-- The texts of type references. -/
def TypeRef.renderAll : List TypeRef → Except RenderError (List Text)
  | [] => return []
  | type :: rest => do
    let first ← type.render
    let others ← TypeRef.renderAll rest
    return first :: others

/-- The texts of names. -/
def TypeName.renderAll : List TypeName → Except RenderError (List Text)
  | [] => return []
  | name :: rest => do
    let first ← name.render
    let others ← TypeName.renderAll rest
    return first :: others

end

/-- The text of a list of type references. -/
def TypeRef.renderList (types : List TypeRef) : Rendered := do
  return Text.join ", " (← TypeRef.renderAll types)

/-- The text of modifiers, with a blank behind each. -/
def Modifier.renderAll (modifiers : List Modifier) : Text :=
  (modifiers.map (· ++ [' '])).flatten

end ApexLayout
