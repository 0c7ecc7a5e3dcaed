import ApexLayout.Layout.Statement
import ApexLayout.Proofs.Spelling.Laid

/-!
Texts that stand on lines of their own.

A text that is laid out is cut into rows, each with its level and its content (`Laid.rows`). What
can be put on lines between braces is a text that `Stands`: its first character neither closes a
block nor goes on with a chain, and its last part is complete.
-/

namespace ApexLayout

/-! ## Rows -/

/-- A line: how many levels it is indented by, and what it holds. -/
structure Row where
  level : Nat
  content : Text

/-- The text of a line. -/
def Row.text (unit : Text) (row : Row) : Text := Text.indentation unit row.level ++ row.content

/-- What a line may hold: it is not empty, and neither begins nor ends with a blank. -/
structure Text.Content (content : Text) : Prop where
  line : '\n' ∉ content
  first : ∃ c rest, content = c :: rest ∧ Text.isBlank c = false
  last : ∀ c ∈ content.getLast?, Text.isBlank c = false

/-- The lines are indented by the depth, one level less if they close a block and one level more if
they go on with a chain; the numbers are the depths in front of the lines and behind them. -/
def Stepped : Nat → List Row → Nat → Prop
  | depth, [], final => depth = final
  | depth, row :: rows, final =>
    ∃ inner, depth = inner + Text.closes row.content ∧
      row.level = inner + Text.continues row.content ∧
      Stepped (inner + Text.opens row.content) rows final

namespace Laid

variable {unit : Text} {flat : Bool} {depth middle final : Nat} {parts more : List Part}
  {text rest : Text}

/-- What a part opens is seen at the end of its line. -/
theorem opens_eq {part : Part} {gap first : Text} {others : List Text}
    (h : Laid unit flat depth parts rest final) (hlines : Text.lines rest = first :: others)
    (hpart : part.text ≠ []) (hlast : ∀ last ∈ (part :: parts).getLast?, Text.opens last.text = 0) :
    Text.opens (gap ++ (part.text ++ first)) = part.opened rest + Text.opens first := by
  unfold Part.opened
  rcases Text.head_lines hlines with ⟨rfl, hrest⟩ | ⟨hfirst, -, hrest⟩
  · rw [List.append_nil, Text.opens_append hpart]
    rcases hrest with rfl | hrest
    · have hnil := h.eq_nil_iff.2 rfl
      subst hnil
      rw [hlast part rfl]
      rfl
    · rw [if_pos hrest]
      rfl
  · rw [if_neg hrest, ← List.append_assoc, Text.opens_append hfirst, Nat.zero_add]

theorem last_not_blank {part : Part} {gap first : Text} (h : part.Legible)
    (hfirst : ∀ c ∈ first.getLast?, Text.isBlank c = false) :
    ∀ c ∈ (gap ++ (part.text ++ first)).getLast?, Text.isBlank c = false := by
  obtain ⟨c, tail, htext, -⟩ := h.first
  by_cases hnil : first = []
  · rw [hnil, List.append_nil, List.getLast?_append_of_ne_nil _ (by simp [htext])]
    exact h.last
  · rw [← List.append_assoc, List.getLast?_append_of_ne_nil _ hnil]
    exact hfirst

/-- The lines of a text. -/
theorem rows (h : Laid unit flat depth parts text final) (hunit : '\n' ∉ unit)
    (hline : ∀ part ∈ parts, '\n' ∉ part.text)
    (hlast : ∀ part ∈ parts.getLast?, Text.opens part.text = 0) :
    ∃ first rows, Text.lines text = first :: rows.map (Row.text unit) ∧ '\n' ∉ first ∧
      (∀ c ∈ first.getLast?, Text.isBlank c = false) ∧
      (∀ row ∈ rows, Text.Content row.content) ∧
      Stepped (depth + Text.opens first) rows final := by
  induction h with
  | nil => exact ⟨[], [], rfl, List.not_mem_nil, by simp, by simp, rfl⟩
  | @near depth final gap rest part parts hnarrow _ hlegible _ htail ih =>
    obtain ⟨hpart, hparts⟩ := List.forall_mem_cons.1 hline
    obtain ⟨c, tail, htext, -⟩ := hlegible.first
    obtain ⟨first, rows, hlines, hflat, hends, hrows, hsteps⟩ :=
      ih hparts fun last hmem => hlast last (List.mem_getLast?_cons hmem)
    have hgap : '\n' ∉ gap := by rcases hnarrow with rfl | rfl <;> decide
    refine ⟨gap ++ (part.text ++ first), rows, ?_, ?_, ?_, hrows, ?_⟩
    · exact Text.lines_append hgap (Text.lines_append hpart hlines)
    · simp only [List.mem_append, not_or]
      exact ⟨hgap, hpart, hflat⟩
    · exact last_not_blank hlegible hends
    · rw [opens_eq htail hlines (by simp [htext]) hlast, ← Nat.add_assoc]
      exact hsteps
  | @beneath depth final rest part parts _ _ hquery hlegible _ htail ih =>
    obtain ⟨hpart, hparts⟩ := List.forall_mem_cons.1 hline
    obtain ⟨c, tail, htext, hblank⟩ := hlegible.first
    have hne : part.text ≠ [] := by simp [htext]
    obtain ⟨first, rows, hlines, hflat, hends, hrows, hsteps⟩ :=
      ih hparts fun last hmem => hlast last (List.mem_getLast?_cons hmem)
    have hindentation := Text.not_mem_indentation hunit (depth + Text.continues part.text)
    refine ⟨[], ⟨depth + Text.continues part.text, part.text ++ first⟩ :: rows, ?_,
      List.not_mem_nil, by simp, List.forall_mem_cons.2 ⟨⟨?_, ?_, ?_⟩, hrows⟩, depth, ?_, ?_, ?_⟩
    · rw [Text.lines_newline, Text.lines_append hindentation (Text.lines_append hpart hlines)]
      rfl
    · simp only [List.mem_append, not_or]
      exact ⟨hpart, hflat⟩
    · exact ⟨c, tail ++ first, by rw [htext]; rfl, hblank⟩
    · exact @last_not_blank part [] first hlegible hends
    · show depth + _ + 0 = _
      rw [Nat.add_zero, Text.closes_append hne]
    · rw [Text.continues_append hne hquery]
    · have hopens : Text.opens ([] ++ (part.text ++ first)) = _ := opens_eq htail hlines hne hlast
      rw [List.nil_append] at hopens
      rw [hopens, ← Nat.add_assoc]
      exact hsteps

theorem legible (h : Laid unit flat depth parts text final) : ∀ part ∈ parts, part.Legible := by
  induction h with
  | nil => exact fun _ hmem => absurd hmem List.not_mem_nil
  | near _ _ hlegible _ _ ih => exact List.forall_mem_cons.2 ⟨hlegible, ih⟩
  | beneath _ _ _ hlegible _ _ ih => exact List.forall_mem_cons.2 ⟨hlegible, ih⟩

end Laid

/-! ## Texts that stand by themselves -/

/-- The text may stand right behind a complete part. -/
def Text.Follows (text : Text) : Prop :=
  ∀ c ∈ text.head?, c ∈ Text.closingSigns ∨ Text.isBlank c = true

theorem Text.Follows.blank {c : Char} {rest : Text} (h : Text.isBlank c = true) :
    Text.Follows (c :: rest) := by
  rintro _ ⟨⟩
  exact .inr h

theorem Text.Follows.sign {c : Char} {rest : Text} (h : c ∈ Text.closingSigns) :
    Text.Follows (c :: rest) := by
  rintro _ ⟨⟩
  exact .inl h

/-- The row ends with a part that may stand at an end. -/
def Completed (parts : List Part) : Prop :=
  ∃ part, parts.getLast? = some part ∧ part.isComplete = true

theorem Completed.append {parts : List Part} (h : Completed parts) (front : List Part) :
    Completed (front ++ parts) := by
  obtain ⟨part, hlast, hcomplete⟩ := h
  exact ⟨part, by rw [List.getLast?_append, hlast]; rfl, hcomplete⟩

theorem Completed.one {part : Part} (h : part.isComplete = true) : Completed [part] :=
  ⟨part, rfl, h⟩

/-- What ends with a complete part may stand in front of a blank, a line break or a sign. -/
theorem Laid.append_completed {unit : Text} {flat : Bool} {depth middle final : Nat}
    {parts more : List Part} {text rest : Text} (h : Laid unit flat depth parts text middle)
    (hlast : Completed parts) (h' : Laid unit flat middle more rest final) (hrest : rest.Follows) :
    Laid unit flat depth (parts ++ more) (text ++ rest) final := by
  obtain ⟨last, hlast, hcomplete⟩ := hlast
  refine h.append h' (fun part hpart c hc => ?_) fun part hpart => ?_
  · obtain rfl : last = part := Option.some.inj (hlast.symm.trans hpart)
    exact Part.bars_of_isComplete hcomplete (hrest c hc)
  · obtain rfl : last = part := Option.some.inj (hlast.symm.trans hpart)
    have hbrace := (h.legible last (List.mem_of_getLast? hlast)).not_brace hcomplete
    unfold Part.opened Text.opens
    rw [if_neg hbrace, ite_self]

/-- A symbol by itself. -/
theorem Laid.sign {unit : Text} {flat : Bool} {depth : Nat} {text : Text}
    (h : text ∈ Scan.symbols) (hloose : (Part.symbol text).isLoose = false) :
    Laid unit flat depth [.symbol text] text depth :=
  .one ⟨Piece.lexeme_symbol h false, rfl⟩ hloose

/-- A text that may stand on lines of its own. -/
structure Stands (unit : Text) (flat : Bool) (parts : List Part) (text : Text) : Prop where
  laid : Laid unit flat 0 parts text 0
  first : ∃ c rest, text = c :: rest ∧ Text.isLeading c = true
  last : Completed parts

namespace Stands

variable {unit : Text} {flat : Bool} {parts more : List Part} {text rest : Text}

theorem not_blank (h : Stands unit flat parts text) : ∀ c ∈ text.head?, Text.isBlank c = false := by
  obtain ⟨c, rest, rfl, hc⟩ := h.first
  rintro _ ⟨⟩
  exact Text.isBlank_of_isLeading hc

theorem ne_nil (h : Stands unit flat parts text) : parts ≠ [] := by
  rintro rfl
  obtain ⟨_, hlast, -⟩ := h.last
  cases hlast

theorem unflat (h : Stands unit true parts text) : Stands unit flat parts text :=
  ⟨h.laid.unflat, h.first, h.last⟩

/-- More behind a text. -/
theorem append (h : Stands unit flat parts text) (h' : Laid unit flat 0 more rest 0)
    (hrest : rest.Follows) (hlast : Completed more) : Stands unit flat (parts ++ more) (text ++ rest) := by
  refine ⟨h.laid.append_completed h.last h' hrest, ?_, hlast.append parts⟩
  obtain ⟨c, tail, rfl, hc⟩ := h.first
  exact ⟨c, _, rfl, hc⟩

/-- A blank in front of a text. -/
theorem behind (h : Stands unit flat parts text) : Laid unit flat 0 parts (' ' :: text) 0 :=
  h.laid.behind h.ne_nil h.not_blank

/-! ### Lists -/

/-- Texts with commas between them. -/
theorem joined {rows : List (List Part)} {texts : List Text}
    (h : List.Forall₂ (Stands unit flat) rows texts) (hne : rows ≠ []) :
    Stands unit flat (rowsBy (.symbol ",") rows) (Text.join ", " texts) := by
  induction h with
  | nil => exact absurd rfl hne
  | @cons row text rows texts hrow hrows ih =>
    cases hrows with
    | nil => simpa [rowsBy, Text.join] using hrow
    | @cons next more _ _ hnext hmore =>
      have hrest := ih (List.cons_ne_nil _ _)
      have hcomma : Laid unit flat 0 [.symbol [',']] [','] 0 := .sign (by decide) (by decide)
      have hbehind := hcomma.append_completed (.one (by decide)) hrest.behind (.blank rfl)
      have hwhole := hrow.append hbehind (.sign (by decide)) (hrest.last.append [.symbol [',']])
      unfold rowsBy Text.join at hwhole ⊢
      rw [List.intercalate_cons_cons, List.intercalate_cons_cons]
      simpa using hwhole

/-- The pairs of symbols around lists. -/
def brackets : List (Char × Char) := [('(', ')'), ('[', ']'), ('{', '}')]

/-- Nothing runs into an opening bracket. -/
theorem bars_opening {opening closing : Char} (h : (opening, closing) ∈ brackets) (c : Char) :
    (Part.symbol [opening]).bars c = true := by
  have hall : ∀ pair ∈ brackets, pair.1 ≠ '/' ∧ pair.1 ≠ '.' ∧
      ∀ symbol ∈ Scan.symbols, symbol.head? = some pair.1 → symbol = [pair.1] := by decide
  obtain ⟨hslash, hdot, hlone⟩ := hall _ h
  exact Piece.bars_lone hslash hdot hlone c

/-- Texts between brackets, with commas between them. -/
theorem listed {opening closing : Char} (hbracket : (opening, closing) ∈ brackets)
    {rows : List (List Part)} {texts : List Text}
    (h : List.Forall₂ (Stands unit flat) rows texts) :
    Laid unit flat 0 (listParts [opening] [closing] rows)
      (opening :: (Text.join ", " texts ++ [closing])) 0 := by
  have hall : ∀ pair ∈ brackets, ([pair.1] ∈ Scan.symbols ∧ (Part.symbol [pair.1]).isLoose = false) ∧
      ([pair.2] ∈ Scan.symbols ∧ (Part.symbol [pair.2]).isLoose = false) ∧
      pair.2 ∈ Text.closingSigns ∧ pair.2 ≠ '\n' := by decide
  obtain ⟨⟨hopening, hloose⟩, ⟨hclosing, hloose'⟩, hsign, hnewline⟩ := hall _ hbracket
  have hend : Laid unit flat 0 [.symbol [closing]] [closing] 0 := .sign hclosing hloose'
  -- what stands behind the opening bracket does not begin with a line break
  have hinside : Laid unit flat 0 (rowsBy (.symbol ",") rows ++ [.symbol [closing]])
        (Text.join ", " texts ++ [closing]) 0 ∧
      (Text.join ", " texts ++ [closing]).head? ≠ some '\n' := by
    cases h with
    | nil => exact ⟨hend, fun heq => hnewline (Option.some.inj heq)⟩
    | cons hrow hrows =>
      have hjoined := joined (.cons hrow hrows) (List.cons_ne_nil _ _)
      refine ⟨hjoined.laid.append_completed hjoined.last hend (.sign hsign), ?_⟩
      obtain ⟨c, rest, htext, hc⟩ := hjoined.first
      rw [htext]
      rintro ⟨⟩
      exact absurd hc (by decide)
  have hfront : Laid unit flat 0 [.symbol [opening]] [opening] 0 := .sign hopening hloose
  refine hfront.append hinside.1 (fun part hpart c _ => ?_) fun part hpart => ?_
  · cases hpart
    exact bars_opening hbracket c
  · exact if_neg hinside.2

/-- Anything may stand right behind a closing bracket. -/
theorem append_bracket {depth middle final : Nat} {opening closing : Char}
    (hbracket : (opening, closing) ∈ brackets) (h : Laid unit flat depth parts text middle)
    (hlast : parts.getLast? = some (.symbol [closing]))
    (h' : Laid unit flat middle more rest final) :
    Laid unit flat depth (parts ++ more) (text ++ rest) final := by
  have hall : ∀ pair ∈ brackets, (pair.2 ≠ '/' ∧ pair.2 ≠ '.' ∧
      ∀ symbol ∈ Scan.symbols, symbol.head? = some pair.2 → symbol = [pair.2]) ∧
      Text.opens [pair.2] = 0 := by decide
  obtain ⟨⟨hslash, hdot, hlone⟩, hopens⟩ := hall _ hbracket
  refine h.append h' (fun part hpart c _ => ?_) fun part hpart => ?_
  · obtain rfl := Option.some.inj (hlast.symm.trans hpart)
    exact Piece.bars_lone hslash hdot hlone c
  · obtain rfl := Option.some.inj (hlast.symm.trans hpart)
    unfold Part.opened
    rw [show Text.opens (Part.symbol [closing]).text = 0 from hopens, ite_self]

/-- A list ends with its closing bracket. -/
theorem completed_list {opening closing : Char} (hbracket : (opening, closing) ∈ brackets)
    (rows : List (List Part)) : Completed (listParts [opening] [closing] rows) := by
  have hall : ∀ pair ∈ brackets, (Part.symbol [pair.2]).isComplete = true := by decide
  unfold listParts
  rw [← List.cons_append]
  exact (Completed.one (hall _ hbracket)).append _

/-! ### Blocks -/

/-- No line of a text that stands by itself is blank. -/
theorem lines_not_blank (h : Stands unit flat parts text) (hunit : '\n' ∉ unit)
    (hline : ∀ part ∈ parts, '\n' ∉ part.text) :
    ∀ line ∈ Text.lines text, line.all Text.isBlank = false := by
  obtain ⟨last, hlast, hcomplete⟩ := h.last
  obtain ⟨first, rows, hlines, -, -, hrows, -⟩ := h.laid.rows hunit hline fun part hpart => by
    obtain rfl : last = part := Option.some.inj (hlast.symm.trans hpart)
    exact if_neg ((h.laid.legible last (List.mem_of_getLast? hlast)).not_brace hcomplete)
  rw [hlines]
  refine List.forall_mem_cons.2 ⟨?_, fun line hmem => ?_⟩
  · obtain ⟨c, rest, rfl, hc⟩ := h.first
    rcases Text.head_lines hlines with ⟨-, hnil | hnewline⟩ | ⟨-, hhead, -⟩
    · cases hnil
    · obtain rfl : c = '\n' := Option.some.inj hnewline
      exact absurd hc (by decide)
    · rw [List.all_eq_false]
      exact ⟨c, List.mem_of_mem_head? hhead, by simp [Text.isBlank_of_isLeading hc]⟩
  · obtain ⟨row, hrow, rfl⟩ := List.mem_map.1 hmem
    obtain ⟨c, rest, hcontent, hc⟩ := (hrows row hrow).first
    rw [List.all_eq_false]
    refine ⟨c, List.mem_append_right _ ?_, by simp [hc]⟩
    rw [hcontent]
    exact List.mem_cons_self

theorem lines_not_blank_of_mem {rows : List (List Part)} {texts : List Text} (hunit : '\n' ∉ unit)
    (h : List.Forall₂ (Stands unit flat) rows texts)
    (hline : ∀ row ∈ rows, ∀ part ∈ row, '\n' ∉ part.text) :
    ∀ text ∈ texts, ∀ line ∈ Text.lines text, line.all Text.isBlank = false := by
  induction h with
  | nil => exact fun _ hmem => absurd hmem List.not_mem_nil
  | cons hrow _ ih =>
    obtain ⟨hfirst, hothers⟩ := List.forall_mem_cons.1 hline
    exact List.forall_mem_cons.2 ⟨hrow.lines_not_blank hunit hfirst, ih hothers⟩

/-- Texts on lines of their own, one level deeper, and the brace behind them. -/
theorem deeper {rows : List (List Part)} {texts : List Text} (hunit : '\n' ∉ unit)
    (h : List.Forall₂ (Stands unit false) rows texts)
    (hline : ∀ row ∈ rows, ∀ part ∈ row, '\n' ∉ part.text) :
    Laid unit false 1 (rows.flatten ++ [.symbol ['}']])
      ((texts.flatMap fun text => '\n' :: (unit ++ Text.shift unit text)) ++ ['\n', '}']) 0 := by
  induction h with
  | nil =>
    have hclosing : Laid unit false (0 + Text.closes (Part.symbol ['}']).text) [.symbol ['}']]
        ('\n' :: (Text.indentation unit (0 + Text.continues (Part.symbol ['}']).text) ++
          ((Part.symbol ['}']).text ++ []))) 0 :=
      .beneath rfl rfl (by decide) ⟨Piece.lexeme_symbol (by decide) false, rfl⟩ (by simp) .nil
    exact hclosing
  | @cons row text rows texts hrow _ ih =>
    obtain ⟨hfirst, hothers⟩ := List.forall_mem_cons.1 hline
    have hrest := ih hothers
    have hshift := hrow.laid.shift hunit hfirst
    obtain ⟨c, tail, rfl, hc⟩ := hrow.first
    obtain ⟨part, others, rfl⟩ := List.exists_cons_of_ne_nil hrow.ne_nil
    have hblank : ∀ d ∈ (Text.shift unit (c :: tail)).head?, Text.isBlank d = false := by
      rw [Text.head_shift]
      exact hrow.not_blank
    -- the first part begins with the first character
    obtain ⟨-, hlegible, more, htext, -⟩ := hrow.laid.tight hrow.not_blank
    obtain ⟨d, spelled, hpart, -⟩ := hlegible.first
    rw [hpart] at htext
    obtain ⟨rfl, -⟩ := List.cons.inj htext
    have hcloses : Text.closes part.text = 0 := by rw [hpart, Text.closes_of_isLeading hc]
    have hcontinues : Text.continues part.text = 0 := by rw [hpart, Text.continues_of_isLeading hc]
    have hquery : part.text ≠ ['?'] := by
      rw [hpart]
      rintro ⟨⟩
      exact absurd hc (by decide)
    have hline := hshift.newline hblank hquery hcloses
    rw [hcontinues] at hline
    have hunits : Text.indentation unit (0 + 1 + 0) = unit := by simp [Text.indentation]
    rw [hunits] at hline
    rw [List.flatten_cons, List.flatMap_cons, List.append_assoc, List.append_assoc]
    refine hline.append_completed hrow.last hrest ?_
    cases texts with
    | nil => exact .blank rfl
    | cons next more => exact .blank rfl

theorem shift_unlines (unit : Text) {texts : List Text} (h : texts ≠ []) :
    '\n' :: (unit ++ Text.shift unit (Text.unlines texts)) =
      texts.flatMap fun text => '\n' :: (unit ++ Text.shift unit text) := by
  obtain ⟨first, others, rfl⟩ := List.exists_cons_of_ne_nil h
  clear h
  unfold Text.unlines Text.join
  induction others generalizing first with
  | nil => simp
  | cons next more ih =>
    rw [List.intercalate_cons_cons, List.flatMap_cons, ← ih next, Text.shift_append,
      Text.shift_append]
    simp [Text.shift]

theorem unlines_ne_nil {text : Text} (h : text ≠ []) (texts : List Text) :
    Text.unlines (text :: texts) ≠ [] := by
  unfold Text.unlines Text.join
  cases texts with
  | nil => simpa using h
  | cons next more =>
    rw [List.intercalate_cons_cons]
    simp

theorem lines_unlines {texts : List Text} (h : texts ≠ []) :
    Text.lines (Text.unlines texts) = texts.flatMap Text.lines := by
  obtain ⟨first, others, rfl⟩ := List.exists_cons_of_ne_nil h
  clear h
  unfold Text.unlines Text.join
  induction others generalizing first with
  | nil => simp
  | cons next more ih =>
    rw [List.intercalate_cons_cons, List.flatMap_cons, ← ih next, List.append_assoc]
    exact Text.lines_append_newline first _

end Stands

/-- One level of indentation consists of blanks. -/
theorem Context.indentUnit_blank (context : Context) :
    ∀ c ∈ context.indentUnit, Text.isBlank c = true ∧ c ≠ '\n' := by
  unfold Context.indentUnit Settings.indentUnit
  intro c hc
  split at hc
  · obtain rfl : c = '\t' := List.mem_singleton.1 hc
    decide
  · obtain rfl : c = ' ' := List.eq_of_mem_replicate hc
    decide

theorem Context.not_mem_indentUnit (context : Context) : '\n' ∉ context.indentUnit :=
  fun hmem => (context.indentUnit_blank _ hmem).2 rfl

/-- A block is its texts on lines of their own between two braces. -/
theorem Stands.block_eq {context : Context} {rows : List (List Part)} {texts : List Text}
    (h : List.Forall₂ (Stands context.indentUnit false) rows texts)
    (hline : ∀ row ∈ rows, ∀ part ∈ row, '\n' ∉ part.text) :
    context.block texts = '{' :: ((texts.flatMap fun text =>
      '\n' :: (context.indentUnit ++ Text.shift context.indentUnit text)) ++ ['\n', '}']) := by
  have hunit := context.not_mem_indentUnit
  have hlines := lines_not_blank_of_mem hunit h hline
  unfold Context.block Context.braced Context.indent
  cases h with
  | nil => rfl
  | @cons row text rows texts hrow hrows =>
    -- no line is blank, so every line takes the unit in front
    have hblank : ∀ line ∈ Text.lines (Text.unlines (text :: texts)),
        line.all Text.isBlank = false := by
      rw [lines_unlines (List.cons_ne_nil _ _)]
      intro line hmem
      obtain ⟨one, hone, hmem⟩ := List.mem_flatMap.1 hmem
      exact hlines one hone line hmem
    rw [Text.indent_eq hblank, ← shift_unlines _ (List.cons_ne_nil _ _)]
    unfold Text.braced
    rw [if_neg]
    · rfl
    · rw [List.isEmpty_iff, List.append_eq_nil_iff]
      rintro ⟨-, hnil⟩
      obtain ⟨c, rest, rfl, -⟩ := hrow.first
      obtain ⟨d, more, hmore⟩ := List.exists_cons_of_ne_nil
        (unlines_ne_nil (List.cons_ne_nil c rest) texts)
      have hhead := Text.head_shift context.indentUnit (Text.unlines ((c :: rest) :: texts))
      rw [hnil, hmore] at hhead
      cases hhead

/-- Texts between braces, each on lines of its own. -/
theorem Stands.block {context : Context} {rows : List (List Part)} {texts : List Text}
    (h : List.Forall₂ (Stands context.indentUnit false) rows texts)
    (hline : ∀ row ∈ rows, ∀ part ∈ row, '\n' ∉ part.text) :
    Stands context.indentUnit false (blockParts rows) (context.block texts) := by
  have hunit := context.not_mem_indentUnit
  have hinside := Stands.deeper hunit h hline
  rw [Stands.block_eq h hline]
  generalize hrest : (texts.flatMap fun text =>
    '\n' :: (context.indentUnit ++ Text.shift context.indentUnit text)) ++ ['\n', '}'] = rest
  rw [hrest] at hinside
  have hhead : rest.head? = some '\n' := by
    rw [← hrest]
    cases texts <;> rfl
  have hopened : (Part.symbol ['{']).opened rest = 1 := if_pos hhead
  have hfront : Laid context.indentUnit false 0 (.symbol ['{'] :: (rows.flatten ++ [.symbol ['}']]))
      ([] ++ ((Part.symbol ['{']).text ++ rest)) 0 := by
    refine .near (.inl rfl) (fun hloose => ?_) ⟨Piece.lexeme_symbol (by decide) false, rfl⟩
      (fun c _ => ?_) (hopened ▸ hinside)
    · exact absurd hloose (by decide)
    · exact bars_opening (show ('{', '}') ∈ brackets by decide) c
  refine ⟨hfront, ⟨'{', rest, rfl, by decide⟩, ?_⟩
  rw [blockParts, ← List.cons_append]
  exact (Completed.one (by decide)).append _

end ApexLayout
