import ApexLayout.Text.Basic

/-!
Places in a source: lines and columns for people, byte offsets for tools.
-/

namespace ApexLayout

/-- A line and a column, both counted from one; columns count characters. -/
structure Position where
  line : Nat
  column : Nat
deriving DecidableEq

/-- A position as messages write it. -/
def Position.text (position : Position) : Text :=
  Text.ofNat position.line ++ ":" ++ Text.ofNat position.column

/-- A position together with the number of bytes in front of it. -/
structure Mark where
  offset : Nat
  position : Position
deriving DecidableEq

namespace Mark

/-- The beginning of every source. -/
def origin : Mark := ⟨0, ⟨1, 1⟩⟩

/-- The place right behind one more character. -/
def step (mark : Mark) (c : Char) : Mark where
  offset := mark.offset + c.utf8Size
  position :=
    if c = '\n' then ⟨mark.position.line + 1, 1⟩
    else ⟨mark.position.line, mark.position.column + 1⟩

/-- The place right behind a text. -/
def advance (mark : Mark) (text : Text) : Mark := text.foldl step mark

@[simp] theorem advance_nil (mark : Mark) : mark.advance [] = mark := rfl

@[simp] theorem advance_append (mark : Mark) (first second : Text) :
    mark.advance (first ++ second) = (mark.advance first).advance second :=
  List.foldl_append

end Mark

end ApexLayout
