import ApexLayout.Text.Basic

/-!
Type references and modifiers.
-/

namespace ApexLayout

/-- A modifier keyword or an annotation, as written. -/
abbrev Modifier := Text

mutual

/-- A reference to a type: dotted names, each with its own type arguments, and array brackets. -/
structure TypeRef where
  segments : List TypeName
  /-- The bracket pairs behind the name, as written. -/
  suffix : Text

/-- One name of a type reference, with its type arguments. -/
structure TypeName where
  name : Text
  arguments : List TypeRef

end

/-- A reference made of plain dotted names. -/
def TypeRef.path (names : List Text) : TypeRef := ⟨names.map (⟨·, []⟩), []⟩

end ApexLayout
