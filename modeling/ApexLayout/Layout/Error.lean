import ApexLayout.Text.Position
import ApexLayout.Tree.Kind

/-!
Why a tree cannot be printed.
-/

namespace ApexLayout

/-- What a defective node lacks. -/
inductive Defect
  | segments
  | declarators
  | constructorName
  | operator
  | memberName
deriving DecidableEq

/-- A defect as messages word it. -/
def Defect.text : Defect → Text
  | .segments => "type reference has no name segments"
  | .declarators => "no variable declarators"
  | .constructorName => "constructor has no name"
  | .operator => "no operator text"
  | .memberName => "chain link has no member name"

/-- The reasons for which a tree is not printed. -/
inductive RenderError
  /-- There is no layout for such a node. -/
  | unsupported (kind : NodeKind) (position : Option Position)
  /-- The node lacks something that every source gives it. -/
  | malformed (kind : NodeKind) (defect : Defect)
deriving DecidableEq

namespace RenderError

/-- The message about a node for which there is no layout. -/
def unsupportedMessage (kind : NodeKind) (position : Option Position) : Text :=
  let place : Text :=
    match position with
    | none => []
    | some position => " at " ++ position.text
  "unsupported construct: " ++ kind.text ++ place

/-- The message about a node that no source gives. -/
def malformedMessage (kind : NodeKind) (detail : Text) : Text :=
  "internal invariant violated in " ++ kind.text ++ ": " ++ detail

/-- The error as it is reported. -/
def text : RenderError → Text
  | .unsupported kind position => unsupportedMessage kind position
  | .malformed kind defect => malformedMessage kind defect.text

end RenderError

/-- The text of a node, or why it has none. -/
abbrev Rendered := Except RenderError Text

end ApexLayout
