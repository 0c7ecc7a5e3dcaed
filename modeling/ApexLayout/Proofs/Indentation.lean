import ApexLayout.Proofs.Spelling.Stands
import Mathlib.Data.List.Forall2

/-!
Levels of indentation.

A text is indented line by line, so it does not matter whether texts are indented before or after
they are put one under the other, and two levels of indentation are one level of a longer unit.
What is printed several levels deep is therefore moved by as many units, and no line is lost or
added on the way (`indent_composes`).
-/

namespace ApexLayout

namespace Text

/-! ## Lines -/

/-- A line that is moved twice is moved by both units. What is empty stays empty, and what holds
something still holds it behind the inner unit. -/
theorem indentLine_indentLine (unit inner line : Text) :
    indentLine unit (indentLine inner line) = indentLine (unit ++ inner) line := by
  unfold indentLine
  by_cases hblank : line.all isBlank = true
  · rw [if_pos hblank, if_pos hblank]
    rfl
  · have hkept : ¬(inner ++ line).all isBlank = true := by
      rw [List.all_append, Bool.and_eq_true]
      exact fun h => hblank h.2
    rw [if_neg hblank, if_neg hblank, if_neg hkept, List.append_assoc]

theorem not_mem_indentLine {unit line : Text} (hunit : '\n' ∉ unit) (hline : '\n' ∉ line) :
    '\n' ∉ indentLine unit line := by
  unfold indentLine
  split
  · exact List.not_mem_nil
  · rw [List.mem_append, not_or]
    exact ⟨hunit, hline⟩

/-- Texts one under the other, cut at any place. -/
theorem unlines_append {rows more : List Text} (hrows : rows ≠ []) (hmore : more ≠ []) :
    unlines (rows ++ more) = unlines rows ++ '\n' :: unlines more := by
  obtain ⟨first, others, rfl⟩ := List.exists_cons_of_ne_nil hrows
  clear hrows
  unfold unlines join
  induction others generalizing first with
  | nil =>
    rw [List.singleton_append, List.intercalate_cons_of_ne_nil hmore]
    simp
  | cons next others ih =>
    rw [List.cons_append, List.cons_append, List.intercalate_cons_cons, ← List.cons_append, ih next,
      List.intercalate_cons_cons, List.append_assoc (first ++ ['\n'])]

/-! ## Texts -/

/-- The unit makes no lines of its own, so every line of an indented text is a line of the text. -/
theorem lines_indent {unit : Text} (hunit : '\n' ∉ unit) (text : Text) :
    lines (indent unit text) = (lines text).map (indentLine unit) := by
  apply lines_unlines_of_not_mem
  · exact mt List.map_eq_nil_iff.1 (lines_ne_nil text)
  · intro row hrow
    obtain ⟨line, hline, rfl⟩ := List.mem_map.1 hrow
    exact not_mem_indentLine hunit (not_mem_of_mem_lines hline)

/-- Texts one under the other are indented one by one. -/
theorem indent_append_newline (unit first second : Text) :
    indent unit (first ++ '\n' :: second) = indent unit first ++ '\n' :: indent unit second := by
  unfold indent
  rw [lines_append_newline, List.map_append]
  exact unlines_append (mt List.map_eq_nil_iff.1 (lines_ne_nil first))
    (mt List.map_eq_nil_iff.1 (lines_ne_nil second))

/-- A text that is moved twice is moved by both units. -/
theorem indent_indent {inner : Text} (hinner : '\n' ∉ inner) (unit text : Text) :
    indent unit (indent inner text) = indent (unit ++ inner) text := by
  have hboth : indentLine unit ∘ indentLine inner = indentLine (unit ++ inner) :=
    funext (indentLine_indentLine unit inner)
  calc indent unit (indent inner text)
      = unlines ((lines (indent inner text)).map (indentLine unit)) := rfl
    _ = unlines ((lines text).map (indentLine unit ∘ indentLine inner)) := by
        rw [lines_indent hinner, List.map_map]
    _ = indent (unit ++ inner) text := by
        rw [hboth]
        rfl

/-- A text is moved to the right as a whole: every line that holds something gets the units in front
of it, and nothing is left of a line of blanks. -/
def Moved (units text moved : Text) : Prop :=
  List.Forall₂ (fun line result =>
    (line.all isBlank = true → result = []) ∧ (line.all isBlank = false → result = units ++ line))
    (lines text) (lines moved)

theorem moved_indent {units : Text} (hunits : '\n' ∉ units) (text : Text) :
    Moved units text (indent units text) := by
  unfold Moved
  rw [lines_indent hunits, List.forall₂_map_right_iff, List.forall₂_same]
  intro line _
  unfold indentLine
  constructor
  · exact fun hblank => if_pos hblank
  · exact fun hblank => if_neg (Bool.not_eq_true _ ▸ hblank)

end Text

/-! ## Levels -/

namespace Context

/-- What is printed the given number of levels deeper, each of them inside the one before it. -/
def nestedBy (body : Context → Rendered) : Nat → Context → Rendered
  | 0, context => body context
  | count + 1, context => context.nested (nestedBy body count)

theorem nested_eq (context : Context) (body : Context → Rendered) :
    context.nested body = (body context.deeper).map context.indent := by
  unfold nested
  cases body context.deeper <;> rfl

/-- A body that is printed some levels deeper sees that depth, and its text is moved by one unit for
every level. -/
theorem nestedBy_succ (body : Context → Rendered) (count : Nat) (context : Context) :
    context.nestedBy body (count + 1) =
      (body { context with depth := context.depth + (count + 1) }).map
        (Text.indent (Text.indentation context.indentUnit (count + 1))) := by
  have hunit := context.not_mem_indentUnit
  induction count generalizing context with
  | zero =>
    have hunits : Text.indentation context.indentUnit 1 = context.indentUnit := List.append_nil _
    rw [nestedBy, nested_eq, hunits]
    rfl
  | succ count ih =>
    have hdepth : context.depth + 1 + (count + 1) = context.depth + (count + 1 + 1) := by omega
    -- the levels inside are moved first, by the same unit
    rw [nestedBy, nested_eq, ih context.deeper hunit, Text.indentation_succ _ (count + 1)]
    simp only [deeper, hdepth]
    cases body { context with depth := context.depth + (count + 1 + 1) } with
    | error error => rfl
    | ok text =>
      exact congrArg Except.ok
        (Text.indent_indent (Text.not_mem_indentation hunit (count + 1)) _ text)

end Context

/-- The statements of a block are printed one level deeper, between its braces. -/
theorem Block.render_nested (context : Context) (body : Block) :
    Block.render context body =
      (context.nested fun inner => Text.unlines <$> Statement.renderAll inner body).map
        Text.braced := by
  rw [Context.nested_eq]
  unfold Block.render
  cases Statement.renderAll context.deeper body <;> rfl

/-- Indenting composes: texts one under the other are indented one by one, a text that is moved
twice is moved by both units, and it keeps the number of its lines. So what is printed some levels
deeper, each inside the one before, is moved by as many units, or fails as its body does; and so are
the statements of a block, which are printed one level deeper between its braces. -/
theorem Text.indent_composes {unit inner : Text} (hunit : '\n' ∉ unit) (hinner : '\n' ∉ inner)
    (first second : Text) :
    indent unit (first ++ ['\n'] ++ second) = indent unit first ++ ['\n'] ++ indent unit second ∧
      indent unit (indent inner first) = indent (unit ++ inner) first ∧
      (lines (indent unit first)).length = (lines first).length ∧
      (∀ (context : Context) (body : Context → Rendered) (count : Nat), 1 ≤ count →
        (∀ text, body { context with depth := context.depth + count } = .ok text →
          ∃ moved, context.nestedBy body count = .ok moved ∧
            Moved (indentation context.indentUnit count) text moved) ∧
        ∀ error, body { context with depth := context.depth + count } = .error error →
          context.nestedBy body count = .error error) ∧
      ∀ (context : Context) (body : Block), body.render context =
        (context.nested fun inner => unlines <$> Statement.renderAll inner body).map braced := by
  refine ⟨?_, indent_indent hinner unit first, ?_, ?_, Block.render_nested⟩
  · rw [List.append_assoc, List.append_assoc]
    exact indent_append_newline unit first second
  · rw [lines_indent hunit, List.length_map]
  · intro context body count hcount
    obtain ⟨inside, rfl⟩ := Nat.exists_eq_add_of_le' hcount
    rw [context.nestedBy_succ]
    constructor
    · intro text htext
      rw [htext]
      exact ⟨_, rfl,
        moved_indent (not_mem_indentation context.not_mem_indentUnit (inside + 1)) text⟩
    · intro error herror
      rw [herror]
      rfl

/-- A line of blanks between two others, and a third one behind an empty line, three levels deep. -/
theorem Text.indent_composes_blanks :
    let settings : Settings := { indentStyle := .spaces, indentWidth := 2 }
    let context : Context := { settings, depth := 1 }
    let body : Context → Rendered := fun inner =>
      if inner.depth = 4 then .ok "if\n \t\u2003\n  x\n\ny"
      else .error (.malformed .block .operator)
    '\n' ∉ ("\t" : Text) ∧ '\n' ∉ ("  " : Text) ∧
      indent "\t" ("if\n \t\u2003" ++ ['\n'] ++ "  x\n") = "\tif\n" ++ ['\n'] ++ "\t  x\n" ∧
      indent "\t" (indent "  " "if\n \t\u2003") = "\t  if\n".toList ∧
      (lines (indent "\t" "if\n \t\u2003")).length = 2 ∧
      context.nestedBy body 3 = .ok "      if\n\n        x\n\n      y".toList ∧
      Moved "      " "if\n \t\u2003\n  x\n\ny" "      if\n\n        x\n\n      y" := by
  intro settings context body
  have htab : '\n' ∉ ("\t" : Text) := by decide
  have hblanks : '\n' ∉ ("  " : Text) := by decide
  obtain ⟨hunder, htwice, hlength, hlevels, -⟩ :=
    indent_composes htab hblanks "if\n \t\u2003" "  x\n"
  obtain ⟨moved, hmoved, hrow⟩ := (hlevels context body 3 (by decide)).1 _ rfl
  obtain rfl : "      if\n\n        x\n\n      y".toList = moved :=
    Except.ok.inj (Eq.trans (by rfl) hmoved)
  exact ⟨htab, hblanks, hunder.trans (by decide), htwice.trans (by decide),
    hlength.trans (by decide), hmoved, hrow⟩

end ApexLayout
