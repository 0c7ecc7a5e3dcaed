import ApexLayout.Text.Blank

/-!
Lines of a text and their indentation.

A text is cut at `\n` only. Indenting puts one unit in front of every line that holds something
besides blanks and empties all other lines, so nested bodies never leave trailing blanks.
-/

namespace ApexLayout

namespace Text

/-- Puts a character in front of the lines that follow it. -/
def consLine (c : Char) (lines : List Text) : List Text :=
  if c = '\n' then [] :: lines
  else match lines with
    | [] => [[c]]
    | line :: rest => (c :: line) :: rest

/-- The lines of a text, without the newlines between them. -/
def lines (text : Text) : List Text := text.foldr consLine [[]]

/-- The text with these lines. -/
def unlines (lines : List Text) : Text := join ['\n'] lines

/-- Puts a unit in front of a line; a line of blanks becomes empty. -/
def indentLine (unit line : Text) : Text := if line.all isBlank then [] else unit ++ line

/-- Puts a unit in front of every line that is not blank. -/
def indent (unit text : Text) : Text := unlines ((lines text).map (indentLine unit))

/-- A body between braces on lines of its own; an empty body leaves just the two braces. -/
def braced (body : Text) : Text :=
  if body.isEmpty then ['{', '\n', '}'] else ['{', '\n'] ++ body ++ ['\n', '}']

@[simp] theorem lines_nil : lines [] = [[]] := rfl

@[simp] theorem lines_newline (text : Text) : lines ('\n' :: text) = [] :: lines text := rfl

theorem lines_cons (c : Char) (text : Text) : lines (c :: text) = consLine c (lines text) := rfl

/-- Every newline of a text ends a line, and nothing else does. -/
theorem lines_eq_splitOn (text : Text) : lines text = text.splitOn '\n' := by
  induction text with
  | nil => exact (List.splitOn_nil _).symm
  | cons c rest ih =>
    rw [lines_cons, ih, List.splitOn_cons_eq_if_modifyHead]
    unfold consLine
    by_cases hc : c = '\n'
    · rw [if_pos hc, if_pos (beq_iff_eq.2 hc)]
    · rw [if_neg hc, if_neg fun heq => hc (beq_iff_eq.1 heq)]
      obtain ⟨line, others, hlines⟩ :=
        List.exists_cons_of_ne_nil (List.splitOn_ne_nil '\n' rest)
      rw [hlines, List.modifyHead_cons]

/-- A text has at least one line. -/
theorem lines_ne_nil (text : Text) : lines text ≠ [] := by
  rw [lines_eq_splitOn]
  exact List.splitOn_ne_nil '\n' text

/-- Texts without newlines are the lines of the text that is made of them. -/
theorem lines_unlines_of_not_mem {rows : List Text} (hrows : rows ≠ [])
    (h : ∀ row ∈ rows, '\n' ∉ row) : lines (unlines rows) = rows := by
  rw [lines_eq_splitOn]
  exact List.splitOn_intercalate '\n' h hrows

/-- A newline ends the last line of what stands in front of it. -/
theorem lines_append_newline (first second : Text) :
    lines (first ++ '\n' :: second) = lines first ++ lines second := by
  simp only [lines_eq_splitOn]
  exact List.splitOn_append_cons_self first second

/-- Any character but a newline stands at the beginning of the first line. -/
theorem exists_lines_cons {c : Char} (hc : c ≠ '\n') (text : Text) :
    ∃ first others, lines text = first :: others ∧ lines (c :: text) = (c :: first) :: others := by
  obtain ⟨first, others, hlines⟩ := List.exists_cons_of_ne_nil (lines_ne_nil text)
  refine ⟨first, others, hlines, ?_⟩
  rw [lines_cons, hlines]
  exact if_neg hc

/-- A line holds no newline. -/
theorem not_mem_of_mem_lines {text line : Text} (h : line ∈ lines text) : '\n' ∉ line := by
  induction text generalizing line with
  | nil =>
    obtain rfl : line = [] := List.mem_singleton.1 h
    exact List.not_mem_nil
  | cons c rest ih =>
    by_cases hc : c = '\n'
    · subst hc
      rcases List.mem_cons.1 h with rfl | h
      · exact List.not_mem_nil
      · exact ih h
    · obtain ⟨first, others, hlines, hcons⟩ := exists_lines_cons hc rest
      rw [hlines] at ih
      rw [hcons] at h
      rcases List.mem_cons.1 h with rfl | h
      · rw [List.mem_cons, not_or]
        exact ⟨fun heq => hc heq.symm, ih List.mem_cons_self⟩
      · exact ih (List.mem_cons_of_mem _ h)

end Text

end ApexLayout
