import ApexLayout.Proofs.Layout.Declaration
import ApexLayout.Proofs.Layout.Source
import ApexLayout.Proofs.Queries
import ApexLayout.Proofs.Replay.Declaration

/-!
The lines of a formatted source.

The text of a compilation unit stands on lines of its own, and its lines are cut out of it with the
depth in front of each of them. Counting the braces at the ends of earlier lines and at the beginning
of this one gives the same depth, and so the indentation of every line (`format_layout`).
-/

namespace ApexLayout

/-! ## The depth of a line -/

namespace Row

/-- How many of the first lines end with an opening brace. -/
def opened (rows : List Row) (count : Nat) : Nat :=
  (rows.take count).countP fun row => row.content.getLast? == some '{'

/-- How many of the first lines begin with a closing brace. -/
def closed (rows : List Row) (count : Nat) : Nat :=
  (rows.take count).countP fun row => row.content.head? == some '}'

/-- The number of blocks around a line: those that earlier lines open, less those that are closed up
to this line. -/
def depth (rows : List Row) (index : Nat) : Int := opened rows index - closed rows (index + 1)

theorem opened_cons (row : Row) (rows : List Row) (count : Nat) :
    opened (row :: rows) (count + 1) = Text.opens row.content + opened rows count := by
  unfold opened Text.opens
  rw [List.take_succ_cons, List.countP_cons, Nat.add_comm]
  simp

theorem closed_cons (row : Row) (rows : List Row) (count : Nat) :
    closed (row :: rows) (count + 1) = Text.closes row.content + closed rows count := by
  unfold closed Text.closes
  rw [List.take_succ_cons, List.countP_cons, Nat.add_comm]
  simp

end Row

/-- Going from line to line keeps count of the braces. -/
theorem Stepped.level {start final : Nat} {rows : List Row} (h : Stepped start rows final) :
    ∀ (index : Nat) (hindex : index < rows.length),
      0 ≤ start + Row.depth rows index ∧
        (rows[index].level : Int) =
          start + Row.depth rows index + Text.continues rows[index].content := by
  -- the depth at the start carries the count over from the lines in front
  induction rows generalizing start with
  | nil => exact fun _ hindex => absurd hindex (Nat.not_lt_zero _)
  | cons row rows ih =>
    obtain ⟨inner, rfl, hlevel, hrest⟩ := h
    intro index hindex
    cases index with
    | zero =>
      have hdepth : Row.depth (row :: rows) 0 = -(Text.closes row.content : Int) := by
        unfold Row.depth
        rw [Row.closed_cons]
        simp [Row.opened, Row.closed]
      rw [hdepth, List.getElem_cons_zero, hlevel]
      omega
    | succ index =>
      have hdepth : Row.depth (row :: rows) (index + 1) =
          Text.opens row.content - Text.closes row.content + Row.depth rows index := by
        unfold Row.depth
        rw [Row.opened_cons, Row.closed_cons]
        omega
      rw [hdepth, List.getElem_cons_succ]
      have hindex := ih hrest index (Nat.lt_of_succ_lt_succ hindex)
      omega

/-- Behind the last line, what is left open is known. -/
theorem Stepped.final_eq {start final : Nat} {rows : List Row} (h : Stepped start rows final) :
    (final : Int) = start + Row.depth rows rows.length := by
  induction rows generalizing start with
  | nil =>
    obtain rfl : start = final := h
    simp [Row.depth, Row.opened, Row.closed]
  | cons row rows ih =>
    obtain ⟨inner, rfl, -, hrest⟩ := h
    have hrest := ih hrest
    unfold Row.depth at hrest ⊢
    rw [List.length_cons, Row.opened_cons, Row.closed_cons]
    omega

/-! ## Lines -/

theorem Text.lines_concat (text : Text) : Text.lines (text ++ ['\n']) = Text.lines text ++ [[]] :=
  Text.lines_append_newline text []

/-- A text whose last line holds something does not end with a newline. -/
theorem Text.getLast_ne_newline {text : Text} (h : ∀ line ∈ (Text.lines text).getLast?, line ≠ []) :
    text.getLast? ≠ some '\n' := by
  intro hlast
  obtain ⟨front, rfl⟩ := List.getLast?_eq_some_iff.1 hlast
  rw [Text.lines_concat, List.getLast?_concat] at h
  exact h [] rfl rfl

/-- The lines of a text that stands by itself. -/
theorem Stands.rows {unit text : Text} {parts : List Part} (h : Stands unit false parts text)
    (hunit : '\n' ∉ unit) (hclean : Clean parts) :
    ∃ rows : List Row, rows ≠ [] ∧ Text.lines text = rows.map (Row.text unit) ∧
      (∀ row ∈ rows, Text.Content row.content) ∧ Stepped 0 rows 0 := by
  obtain ⟨last, hlast, hcomplete⟩ := h.last
  obtain ⟨first, rows, hlines, hflat, hends, hrows, hsteps⟩ :=
    h.laid.rows hunit (fun part hpart => (hclean part hpart).2) fun part hpart => by
      obtain rfl : last = part := Option.some.inj (hlast.symm.trans hpart)
      exact if_neg ((h.laid.legible last (List.mem_of_getLast? hlast)).not_brace hcomplete)
  obtain ⟨c, tail, htext, hc⟩ := h.first
  -- the first line begins as the text does, and so it stands at the margin
  obtain ⟨rest, rfl⟩ : ∃ rest, first = c :: rest := by
    rcases Text.head_lines hlines with ⟨-, hnil | hnewline⟩ | ⟨hne, hhead, -⟩
    · rw [htext] at hnil
      cases hnil
    · rw [htext] at hnewline
      obtain rfl : c = '\n' := Option.some.inj hnewline
      exact absurd hc (by decide)
    · obtain ⟨d, rest, rfl⟩ := List.exists_cons_of_ne_nil hne
      rw [htext] at hhead
      exact ⟨rest, by rw [Option.some.inj hhead]⟩
  refine ⟨⟨0, c :: rest⟩ :: rows, List.cons_ne_nil _ _, hlines, ?_, 0, ?_, ?_, hsteps⟩
  · exact List.forall_mem_cons.2
      ⟨⟨hflat, ⟨c, rest, rfl, Text.isBlank_of_isLeading hc⟩, hends⟩, hrows⟩
  · exact (congrArg (0 + ·) (Text.closes_of_isLeading hc)).symm
  · exact (congrArg (0 + ·) (Text.continues_of_isLeading hc)).symm

/-- The layout of an output whose lines are the given rows: it ends with one newline, every line
holds something between its indentation and its end, and the indentation is the number of blocks
around the line, with one more if it goes on with a chain. Every block is closed once. -/
structure Text.Layout (unit output : Text) (rows : List Row) : Prop where
  ending : ∃ body, output = body ++ ['\n'] ∧ body.getLast? ≠ some '\n'
  lines : Text.lines output = rows.map (Row.text unit) ++ [[]]
  some_row : rows ≠ []
  content : ∀ row ∈ rows, Text.Content row.content
  depth : ∀ index < rows.length, 0 ≤ Row.depth rows index
  level : ∀ (index : Nat) (hindex : index < rows.length),
    (rows[index].level : Int) = Row.depth rows index + Text.continues rows[index].content
  closed : Row.depth rows rows.length = 0

/-- A formatted source ends with one newline, and each of its lines is indented by the number of
blocks around it, one level more if it goes on with a chain. -/
theorem format_layout {settings : Settings} {source output : Text}
    (hstrings : source.StringsOnOneLine) (h : format settings source = .ok output) :
    ∃ rows, Text.Layout settings.indentUnit output rows := by
  obtain ⟨unit, body, hunit, hbody, rfl⟩ := format_eq_ok.1 h
  obtain ⟨stream, final, hstream, hrun, -⟩ := Grammar.readSource_eq_ok.1 hunit
  have hsound := hstrings.sound hstream (CompilationUnit.noQuery_of_render hbody)
  have hplays := @Grammar.plays_compilationUnit 0 stream final unit hrun hsound
  have hclean : Clean unit.parts := hplays.1.clean (hstrings.clean hstream)
  have hstands := unit.declaration.prints _ _ hclean hbody
  obtain ⟨rows, hne, hlines, hrows, hsteps⟩ :=
    hstands.rows (fun hmem => (Context.indentUnit_blank _ _ hmem).2 rfl) hclean
  have hlevel := hsteps.level
  simp only [Int.natCast_zero, Int.zero_add] at hlevel
  have hending : body.getLast? ≠ some '\n' := by
    apply Text.getLast_ne_newline
    intro line hline
    rw [hlines] at hline
    obtain ⟨row, hrow, rfl⟩ := List.mem_map.1 (List.mem_of_getLast? hline)
    obtain ⟨c, rest, hcontent, -⟩ := (hrows row hrow).first
    simp [Row.text, hcontent]
  exact ⟨rows, {
    ending := ⟨body, rfl, hending⟩
    lines := by rw [Text.lines_concat, hlines]; rfl
    some_row := hne
    content := hrows
    depth := fun index hindex => (hlevel index hindex).1
    level := fun index hindex => (hlevel index hindex).2
    closed := by simpa using hsteps.final_eq.symm }⟩

/-- A method whose statement is a chain on lines of its own. -/
theorem format_layout_chain :
    Text.StringsOnOneLine "class A\x7bvoid f()\x7ba.b().c();\x7d\x7d" ∧
      format {} "class A\x7bvoid f()\x7ba.b().c();\x7d\x7d" =
        .ok "class A \x7b\n\tvoid f() \x7b\n\t\ta\n\t\t\t.b()\n\t\t\t.c();\n\t\x7d\n\x7d\n".toList ∧
      ∃ rows, Text.Layout "\t"
        "class A \x7b\n\tvoid f() \x7b\n\t\ta\n\t\t\t.b()\n\t\t\t.c();\n\t\x7d\n\x7d\n" rows := by
  have hstrings : Text.StringsOnOneLine "class A\x7bvoid f()\x7ba.b().c();\x7d\x7d" := by
    decide +kernel
  have hformat : format {} "class A\x7bvoid f()\x7ba.b().c();\x7d\x7d" = .ok
      "class A \x7b\n\tvoid f() \x7b\n\t\ta\n\t\t\t.b()\n\t\t\t.c();\n\t\x7d\n\x7d\n".toList := by
    decide +kernel
  exact ⟨hstrings, hformat, format_layout hstrings hformat⟩

end ApexLayout
