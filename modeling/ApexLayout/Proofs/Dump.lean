import ApexLayout.Command
import ApexLayout.Proofs.Json.Writing
import ApexLayout.Tree.Equality

/-!
Tree dumps.

The pretty form is one of the writings of a value (`Json.writes_prettyAt`), so that a text is the
pretty form of one value at most, and a dump is the dump of one tree only
(`CompilationUnit.dump_eq_iff`).
-/

namespace ApexLayout

namespace Json

/-- The beginning of a line is blank. -/
theorem spaces_margin (depth : Nat) : Spaces (margin depth) := by
  intro c hc
  rw [List.eq_of_mem_replicate hc]
  rfl

/-- The end of a line and the beginning of the next are blank. -/
theorem spaces_line (depth : Nat) : Spaces ('\n' :: margin depth) :=
  List.forall_mem_cons.2 ⟨rfl, spaces_margin depth⟩

/-- A field on one line: its key, a colon, a blank and its value. -/
theorem writesField_pretty (key : Text) {value : Json} {text : Text} (h : Writes value text) :
    WritesField Writes (key, value) (quote key ++ ':' :: ' ' :: text) :=
  .mk (quoted_quote key) spaces_nil (List.forall_mem_singleton.2 rfl : Spaces [' ']) h

mutual

/-- The pretty form writes its value. -/
theorem writes_prettyAt (depth : Nat) : ∀ value : Json, Writes value (prettyAt depth value)
  | .null => .null
  | .bool true => .yes
  | .bool false => .no
  | .number value => .number value
  | .string value => .string (quoted_quote value)
  | .array [] => .emptyArray spaces_nil
  | .array (first :: rest) => by
    have hrow := row_prettyItems (depth + 1) (spaces_line depth) (first :: rest)
      (List.cons_ne_nil _ _)
    have htext : prettyAt depth (.array (first :: rest)) =
        '[' :: ('\n' :: (prettyItems (depth + 1) (first :: rest) ++ '\n' :: margin depth) ++ [']']) := by
      simp [prettyAt]
    exact htext ▸ .array hrow
  | .object [] => .emptyObject spaces_nil
  | .object (first :: rest) => by
    have hrow := row_prettyFields (depth + 1) (spaces_line depth) (first :: rest)
      (List.cons_ne_nil _ _)
    have htext : prettyAt depth (.object (first :: rest)) =
        '{' :: ('\n' :: (prettyFields (depth + 1) (first :: rest) ++ '\n' :: margin depth) ++
          ['}']) := by
      simp [prettyAt]
    exact htext ▸ .object hrow

/-- Items on lines of their own are a row. -/
theorem row_prettyItems (depth : Nat) {after : Text} (hafter : Spaces after) :
    ∀ items : List Json, items ≠ [] → Row Writes items ('\n' :: (prettyItems depth items ++ after))
  | [], h => absurd rfl h
  | [value], _ => by
    have hrow := Row.last (spaces_line depth) hafter (writes_prettyAt depth value)
    simpa [prettyItems] using hrow
  | value :: next :: rest, _ => by
    have hrow := Row.more (spaces_line depth) spaces_nil (writes_prettyAt depth value)
      (row_prettyItems depth hafter (next :: rest) (List.cons_ne_nil _ _))
    simpa [prettyItems] using hrow

/-- Fields on lines of their own are a row. -/
theorem row_prettyFields (depth : Nat) {after : Text} (hafter : Spaces after) :
    ∀ fields : List (Text × Json), fields ≠ [] →
      Row (WritesField Writes) fields ('\n' :: (prettyFields depth fields ++ after))
  | [], h => absurd rfl h
  | [(key, value)], _ => by
    have hfield := writesField_pretty key (writes_prettyAt depth value)
    have hrow := Row.last (spaces_line depth) hafter hfield
    simpa [prettyFields] using hrow
  | (key, value) :: next :: rest, _ => by
    have hfield := writesField_pretty key (writes_prettyAt depth value)
    have hrow := Row.more (spaces_line depth) spaces_nil hfield
      (row_prettyFields depth hafter (next :: rest) (List.cons_ne_nil _ _))
    simpa [prettyFields] using hrow

end

/-- A text is the pretty form of one value at most. -/
theorem pretty_inj {first second : Json} (h : first.pretty = second.pretty) : first = second := by
  have hfirst : Writes first first.pretty := writes_prettyAt 0 first
  exact hfirst.unique (h ▸ writes_prettyAt 0 second)

end Json

/-- Two trees have the same dump exactly when they are the same tree. -/
theorem CompilationUnit.dump_eq_iff (first second : CompilationUnit) :
    first.dump = second.dump ↔ first = second := by
  constructor
  · intro h
    -- both dumps end with the same newline
    have hpretty : first.toJson.pretty = second.toJson.pretty := List.append_cancel_right h
    exact CompilationUnit.toJson_inj (Json.pretty_inj hpretty)
  · rintro rfl
    rfl

end ApexLayout
