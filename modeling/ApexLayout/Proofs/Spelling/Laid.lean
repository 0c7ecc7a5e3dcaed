import ApexLayout.Layout.Context
import ApexLayout.Proofs.Spelling.Part

/-!
Parts as they are laid out on lines.

`Laid` says that a text consists of the given parts with blanks or line breaks between them, that no
part runs into what follows it, and that every line is indented by the number of blocks around it.
The depth in front of the text and the depth behind it are part of the statement, so texts can be
put one after another and moved to the right as a whole.
-/

namespace ApexLayout

/-! ## Lines -/

namespace Text

/-- How many blocks end at the beginning of a line. -/
def closes (content : Text) : Nat := if content.head? = some '}' then 1 else 0

/-- How many blocks begin at the end of a line. -/
def opens (content : Text) : Nat := if content.getLast? = some '{' then 1 else 0

/-- Whether a line goes on with a chain, as the number of levels by which it is moved. -/
def continues (content : Text) : Nat :=
  if ['.'].isPrefixOf content || ['?', '.'].isPrefixOf content then 1 else 0

/-- The indentation of a level. -/
def indentation (unit : Text) (level : Nat) : Text := (List.replicate level unit).flatten

theorem indentation_succ (unit : Text) (level : Nat) :
    indentation unit (level + 1) = unit ++ indentation unit level := by
  unfold indentation
  rw [List.replicate_succ, List.flatten_cons]

theorem not_mem_indentation {unit : Text} (hunit : '\n' ∉ unit) (level : Nat) :
    '\n' ∉ indentation unit level := by
  intro hmem
  obtain ⟨copy, hcopy, hmem⟩ := List.mem_flatten.1 hmem
  exact hunit (List.eq_of_mem_replicate hcopy ▸ hmem)

/-- Moves every line behind the first to the right. -/
def shift (unit text : Text) : Text := text.flatMap fun c => if c = '\n' then '\n' :: unit else [c]

theorem shift_append (unit first second : Text) :
    shift unit (first ++ second) = shift unit first ++ shift unit second :=
  List.flatMap_append

theorem shift_newline (unit text : Text) :
    shift unit ('\n' :: text) = '\n' :: (unit ++ shift unit text) := rfl

theorem shift_of_not_mem {unit text : Text} (h : '\n' ∉ text) : shift unit text = text := by
  induction text with
  | nil => rfl
  | cons c rest ih =>
    rw [List.mem_cons, not_or] at h
    unfold shift at ih ⊢
    rw [List.flatMap_cons, if_neg fun heq => h.1 heq.symm, ih h.2]
    rfl

theorem head_shift (unit text : Text) : (shift unit text).head? = text.head? := by
  cases text with
  | nil => rfl
  | cons c rest =>
    unfold shift
    rw [List.flatMap_cons]
    split
    · rename_i heq
      rw [heq]
      rfl
    · rfl

/-- A text without newlines goes on the first line of what follows it. -/
theorem lines_append {text rest first : Text} {others : List Text} (h : '\n' ∉ text)
    (hrest : lines rest = first :: others) : lines (text ++ rest) = (text ++ first) :: others := by
  induction text with
  | nil => exact hrest
  | cons c text ih =>
    rw [List.mem_cons, not_or] at h
    obtain ⟨line, more, hlines, hcons⟩ := exists_lines_cons (Ne.symm h.1) (text ++ rest)
    obtain ⟨rfl, rfl⟩ := List.cons.inj (hlines.symm.trans (ih h.2))
    exact hcons

/-- If no line is blank, indenting puts the unit in front of each of them. -/
theorem indent_eq {unit text : Text} (h : ∀ line ∈ lines text, line.all isBlank = false) :
    indent unit text = unit ++ shift unit text := by
  have hall : (lines text).map (indentLine unit) = (lines text).map (unit ++ ·) := by
    refine List.map_congr_left fun line hline => ?_
    rw [indentLine, h line hline]
    rfl
  unfold indent
  rw [hall]
  -- the lines of the text follow its characters, so the induction is on these
  clear h hall
  induction text with
  | nil => simp [unlines, join, shift]
  | cons c rest ih =>
    by_cases hc : c = '\n'
    · subst hc
      have hne : (lines rest).map (unit ++ ·) ≠ [] := mt List.map_eq_nil_iff.1 (lines_ne_nil rest)
      rw [lines_newline, shift_newline, ← ih, List.map_cons]
      unfold unlines join
      rw [List.intercalate_cons_of_ne_nil hne]
      simp
    · obtain ⟨first, others, hlines, hcons⟩ := exists_lines_cons hc rest
      rw [hcons]
      rw [hlines] at ih
      have hshift : shift unit (c :: rest) = c :: shift unit rest := by
        unfold shift
        rw [List.flatMap_cons, if_neg hc]
        rfl
      rw [hshift]
      unfold unlines join at ih ⊢
      cases others with
      | nil => simpa using ih
      | cons next more =>
        rw [List.map_cons, List.map_cons, List.intercalate_cons_cons] at ih ⊢
        simpa using ih

/-- A line that is not blank gets the unit in front of it. -/
theorem indent_line {unit line : Text} (hline : '\n' ∉ line) (hblank : line.all isBlank = false) :
    indent unit line = unit ++ line := by
  have hlines : lines line = [line] :=
    (lines_eq_splitOn line).trans (List.splitOn_eq_singleton hline)
  rw [indent_eq, shift_of_not_mem hline]
  rw [hlines]
  exact List.forall_mem_singleton.2 hblank

/-- The first line of a text is empty if the text is, or if it begins with a newline. -/
theorem head_lines {text first : Text} {others : List Text} (h : lines text = first :: others) :
    (first = [] ∧ (text = [] ∨ text.head? = some '\n')) ∨
      (first ≠ [] ∧ first.head? = text.head? ∧ text.head? ≠ some '\n') := by
  cases text with
  | nil =>
    cases h
    exact .inl ⟨rfl, .inl rfl⟩
  | cons c rest =>
    by_cases hc : c = '\n'
    · subst hc
      cases h
      exact .inl ⟨rfl, .inr rfl⟩
    · obtain ⟨line, more, -, hcons⟩ := exists_lines_cons hc rest
      obtain ⟨rfl, -⟩ := List.cons.inj (hcons.symm.trans h)
      exact .inr ⟨List.cons_ne_nil _ _, rfl, fun heq => hc (Option.some.inj heq)⟩

theorem closes_append {text : Text} (h : text ≠ []) (more : Text) :
    closes (text ++ more) = closes text := by
  obtain ⟨c, rest, rfl⟩ := List.exists_cons_of_ne_nil h
  rfl

theorem opens_append {more : Text} (h : more ≠ []) (text : Text) :
    opens (text ++ more) = opens more := by
  unfold opens
  rw [List.getLast?_append_of_ne_nil _ h]

theorem continues_append {text : Text} (h : text ≠ []) (hquery : text ≠ ['?']) (more : Text) :
    continues (text ++ more) = continues text := by
  obtain ⟨c, rest, rfl⟩ := List.exists_cons_of_ne_nil h
  cases rest with
  | cons d rest => simp [continues]
  | nil =>
    have hne : '?' ≠ c := by
      rintro rfl
      exact hquery rfl
    simp [continues, hne]

/-- Whether a line may begin with the character without closing a block or going on with a chain. -/
def isLeading (c : Char) : Bool := !isBlank c && c != '}' && c != '.' && c != '?'

theorem closes_of_isLeading {c : Char} {rest : Text} (h : isLeading c = true) :
    closes (c :: rest) = 0 := by
  unfold isLeading at h
  simp only [Bool.and_eq_true, bne_iff_ne] at h
  exact if_neg fun heq => h.1.1.2 (Option.some.inj heq)

theorem continues_of_isLeading {c : Char} {rest : Text} (h : isLeading c = true) :
    continues (c :: rest) = 0 := by
  unfold isLeading at h
  simp only [Bool.and_eq_true, bne_iff_ne] at h
  have hdot : '.' ≠ c := fun heq => h.1.2 heq.symm
  have hquery : '?' ≠ c := fun heq => h.2 heq.symm
  simp [continues, hdot, hquery]

theorem isBlank_of_isLeading {c : Char} (h : isLeading c = true) : isBlank c = false := by
  unfold isLeading at h
  simp only [Bool.and_eq_true, Bool.not_eq_true'] at h
  exact h.1.1.1

end Text

/-! ## The relation -/

/-- How many blocks a part opens in front of the rest of a text: only a brace at the end of its line
counts. -/
def Part.opened (part : Part) (rest : Text) : Nat :=
  if rest.head? = some '\n' then Text.opens part.text else 0

/-- The text is made of the parts, with at most one blank or a line break in front of each. The
numbers are the depths in front of the text and behind it; a flat text has no line breaks. -/
inductive Laid (unit : Text) (flat : Bool) : Nat → List Part → Text → Nat → Prop
  | nil {depth : Nat} : Laid unit flat depth [] [] depth
  | near {depth final : Nat} {gap rest : Text} {part : Part} {parts : List Part}
      (narrow : gap = [] ∨ gap = [' ']) (loose : part.isLoose = true → gap ≠ [])
      (legible : part.Legible) (bars : ∀ c ∈ rest.head?, part.bars c = true)
      (tail : Laid unit flat (depth + part.opened rest) parts rest final) :
      Laid unit flat depth (part :: parts) (gap ++ (part.text ++ rest)) final
  | beneath {depth final : Nat} {rest : Text} {part : Part} {parts : List Part}
      (breaks : flat = false) (loose : part.isLoose = false) (query : part.text ≠ ['?'])
      (legible : part.Legible) (bars : ∀ c ∈ rest.head?, part.bars c = true)
      (tail : Laid unit flat (depth + part.opened rest) parts rest final) :
      Laid unit flat (depth + Text.closes part.text) (part :: parts)
        ('\n' :: (Text.indentation unit (depth + Text.continues part.text) ++ (part.text ++ rest)))
        final

namespace Laid

variable {unit : Text} {flat : Bool} {depth middle final : Nat} {parts more : List Part}
  {text rest : Text}

theorem eq_nil_iff (h : Laid unit flat depth parts text final) : parts = [] ↔ text = [] := by
  cases h with
  | nil => simp
  | near _ _ hlegible _ _ =>
    obtain ⟨c, tail, htext, -⟩ := hlegible.first
    simp [htext]
  | beneath => simp

/-- A flat text may stand where line breaks are allowed. -/
theorem unflat (h : Laid unit true depth parts text final) : Laid unit flat depth parts text final := by
  induction h with
  | nil => exact .nil
  | near hnarrow hloose hlegible hbars _ ih => exact .near hnarrow hloose hlegible hbars ih
  | beneath hbroken => cases hbroken

/-- Two texts that do not run into one another. -/
theorem append (h : Laid unit flat depth parts text middle) (h' : Laid unit flat middle more rest final)
    (hbars : ∀ part ∈ parts.getLast?, ∀ c ∈ rest.head?, part.bars c = true)
    (hopened : ∀ part ∈ parts.getLast?, part.opened rest = 0) :
    Laid unit flat depth (parts ++ more) (text ++ rest) final := by
  -- a part that is not the last one is followed by the same character as before
  have hbehind : ∀ {part : Part} {parts : List Part} {text : Text} {depth middle : Nat},
      Laid unit flat depth parts text middle →
      (∀ c ∈ text.head?, part.bars c = true) →
      (∀ last ∈ (part :: parts).getLast?, (∀ c ∈ rest.head?, last.bars c = true) ∧
        last.opened rest = 0) →
      (∀ c ∈ (text ++ rest).head?, part.bars c = true) ∧
        part.opened (text ++ rest) = part.opened text := by
    intro part parts text depth middle htail hends hlast
    cases text with
    | nil =>
      have hnil := htail.eq_nil_iff.2 rfl
      subst hnil
      exact ⟨(hlast part rfl).1, (hlast part rfl).2⟩
    | cons c text => exact ⟨hends, rfl⟩
  induction h with
  | nil => exact h'
  | @near depth middle gap text part parts hnarrow hloose hlegible hends htail ih =>
    obtain ⟨hends', hopened'⟩ := hbehind htail hends fun last hlast =>
      ⟨hbars last hlast, hopened last hlast⟩
    rw [List.append_assoc, List.append_assoc, List.cons_append]
    refine .near hnarrow hloose hlegible hends' ?_
    rw [hopened']
    exact ih h' (fun last hlast => hbars last (List.mem_getLast?_cons hlast))
      fun last hlast => hopened last (List.mem_getLast?_cons hlast)
  | @beneath depth middle text part parts hbroken hloose hquery hlegible hends htail ih =>
    obtain ⟨hends', hopened'⟩ := hbehind htail hends fun last hlast =>
      ⟨hbars last hlast, hopened last hlast⟩
    rw [List.cons_append, List.cons_append, List.append_assoc, List.append_assoc]
    refine .beneath hbroken hloose hquery hlegible hends' ?_
    rw [hopened']
    exact ih h' (fun last hlast => hbars last (List.mem_getLast?_cons hlast))
      fun last hlast => hopened last (List.mem_getLast?_cons hlast)

/-! ## Single parts -/

/-- A part by itself. -/
theorem one {part : Part} (h : part.Legible) (hloose : part.isLoose = false) :
    Laid unit flat depth [part] part.text depth := by
  have hone : Laid unit flat depth [part] ([] ++ (part.text ++ [])) depth :=
    .near (.inl rfl) (by simp [hloose]) h (by simp) .nil
  simpa using hone

/-- A part with a blank in front of it. -/
theorem spaced {part : Part} (h : part.Legible) :
    Laid unit flat depth [part] (' ' :: part.text) depth := by
  have hone : Laid unit flat depth [part] ([' '] ++ (part.text ++ [])) depth :=
    .near (.inr rfl) (by simp) h (by simp) .nil
  simpa using hone

/-- The text of a row that does not begin with a blank. -/
theorem tight {part : Part} (h : Laid unit flat depth (part :: parts) text final)
    (hfirst : ∀ c ∈ text.head?, Text.isBlank c = false) :
    part.isLoose = false ∧ part.Legible ∧ ∃ rest, text = part.text ++ rest ∧
      (∀ c ∈ rest.head?, part.bars c = true) ∧
      Laid unit flat (depth + part.opened rest) parts rest final := by
  cases h with
  | @near _ _ gap rest _ _ hnarrow hloose hlegible hbars htail =>
    rcases hnarrow with rfl | rfl
    · refine ⟨?_, hlegible, rest, rfl, hbars, htail⟩
      cases hpart : part.isLoose with
      | false => rfl
      | true => exact absurd rfl (hloose hpart)
    · exact absurd (hfirst ' ' rfl) (by decide)
  | beneath => exact absurd (hfirst '\n' rfl) (by decide)

/-- A blank in front of a row. -/
theorem behind (h : Laid unit flat depth parts text final) (hparts : parts ≠ [])
    (hfirst : ∀ c ∈ text.head?, Text.isBlank c = false) :
    Laid unit flat depth parts (' ' :: text) final := by
  obtain ⟨part, others, rfl⟩ := List.exists_cons_of_ne_nil hparts
  obtain ⟨-, hlegible, rest, rfl, hbars, htail⟩ := h.tight hfirst
  exact .near (.inr rfl) (fun _ => List.cons_ne_nil _ _) hlegible hbars htail

/-- A line break in front of a row. -/
theorem newline {part : Part} (h : Laid unit false depth (part :: parts) text final)
    (hfirst : ∀ c ∈ text.head?, Text.isBlank c = false) (hquery : part.text ≠ ['?'])
    (hcloses : Text.closes part.text = 0) :
    Laid unit false depth (part :: parts)
      ('\n' :: (Text.indentation unit (depth + Text.continues part.text) ++ text)) final := by
  obtain ⟨hloose, hlegible, rest, rfl, hbars, htail⟩ := h.tight hfirst
  have hbreak : Laid unit false (depth + Text.closes part.text) _ _ final :=
    .beneath rfl hloose hquery hlegible hbars htail
  rwa [hcloses, Nat.add_zero] at hbreak

/-! ## Tokens -/

theorem blank_indentation (hunit : ∀ c ∈ unit, Text.isBlank c = true) (level : Nat) :
    ∀ c ∈ Text.indentation unit level, Text.isBlank c = true := by
  intro c hc
  obtain ⟨copy, hcopy, hc⟩ := List.mem_flatten.1 hc
  exact hunit c (List.eq_of_mem_replicate hcopy ▸ hc)

/-- No number in front of the text goes on with it. -/
theorem fraction (h : Laid unit flat depth parts text final) : Scan.fractionSize text = 0 := by
  rw [Scan.fractionSize_eq_zero]
  intro tail htext
  cases h with
  | nil => cases htext
  | @near _ _ gap rest part _ hnarrow _ hlegible hbars _ =>
    rcases hnarrow with rfl | rfl
    · obtain ⟨c, others, hpart, -⟩ := hlegible.first
      rw [List.nil_append, hpart, List.cons_append] at htext
      obtain ⟨rfl, rfl⟩ := List.cons.inj htext
      obtain ⟨token, rfl, hlexeme, hdot⟩ := hlegible.dot (by rw [hpart]; rfl)
      obtain ⟨-, rfl⟩ := List.cons.inj (hpart.symm.trans hdot)
      exact fun d hd => Piece.not_digit_of_dot hlexeme hdot (hbars d hd)
    · cases htext
  | beneath => cases htext

/-- Parts that can be read again are spelled by their pieces. -/
theorem spelled (h : Laid unit flat depth parts text final)
    (hunit : ∀ c ∈ unit, Text.isBlank c = true)
    (hmodifier : ∀ modifier, .modifier modifier ∈ parts → Modifier.Spelled modifier) :
    Spelled (spell parts) text := by
  -- in front of every part stands a gap of blanks
  have hstep : ∀ {part : Part} {parts : List Part} {gap rest : Text}, part.Legible →
      (∀ c ∈ gap, Text.isBlank c = true) → (part.isLoose = true → gap ≠ []) →
      (∀ c ∈ rest.head?, part.bars c = true) →
      (∀ modifier, .modifier modifier ∈ part :: parts → Modifier.Spelled modifier) →
      Scan.fractionSize rest = 0 → Spelled (spell parts) rest →
      Spelled (spell (part :: parts)) (gap ++ (part.text ++ rest)) := by
    intro part parts gap rest hlegible hblank hloose hbars hmodifier hfraction htail
    have hpart := hlegible.spelled (fun modifier heq => hmodifier modifier (heq ▸ List.mem_cons_self))
      hblank hloose
    rw [spell_cons, ← List.append_assoc]
    refine hpart.append htail (fun piece hpiece c hc => ?_) fun _ _ _ => hfraction
    have hbar := hbars c hc
    unfold Part.bars at hbar
    split at hbar
    · exact piece.bars_blank (beq_iff_eq.1 hbar ▸ by decide)
    · exact (Option.all_eq_true ..).1 hbar piece hpiece
  induction h with
  | nil => exact .nil
  | near hnarrow hloose hlegible hbars htail ih =>
    refine hstep hlegible ?_ hloose hbars hmodifier htail.fraction
      (ih fun modifier hmem => hmodifier modifier (List.mem_cons_of_mem _ hmem))
    rcases hnarrow with rfl | rfl
    · simp
    · exact fun c hc => List.mem_singleton.1 hc ▸ by decide
  | @beneath depth _ _ part _ _ hloose _ hlegible hbars htail ih =>
    rw [← List.cons_append]
    refine hstep hlegible ?_ (fun _ => List.cons_ne_nil _ _) hbars hmodifier htail.fraction
      (ih fun modifier hmem => hmodifier modifier (List.mem_cons_of_mem _ hmem))
    intro c hc
    rcases List.mem_cons.1 hc with rfl | hc
    · decide
    · exact blank_indentation hunit _ c hc

/-! ## Lines -/

/-- A flat text whose parts have no newlines is one line. -/
theorem not_mem_newline (h : Laid unit true depth parts text final)
    (hline : ∀ part ∈ parts, '\n' ∉ part.text) : '\n' ∉ text := by
  induction h with
  | nil => exact List.not_mem_nil
  | near hnarrow _ _ _ _ ih =>
    obtain ⟨hpart, hparts⟩ := List.forall_mem_cons.1 hline
    simp only [List.mem_append, not_or]
    refine ⟨?_, hpart, ih hparts⟩
    rcases hnarrow with rfl | rfl <;> decide
  | beneath hbroken => cases hbroken

/-- A text may be moved to the right as a whole. -/
theorem shift (h : Laid unit flat depth parts text final) (hunit : '\n' ∉ unit)
    (hline : ∀ part ∈ parts, '\n' ∉ part.text) :
    Laid unit flat (depth + 1) parts (Text.shift unit text) (final + 1) := by
  have hopened : ∀ (part : Part) (rest : Text),
      part.opened (Text.shift unit rest) = part.opened rest := by
    intro part rest
    unfold Part.opened
    rw [Text.head_shift]
  -- a part holds no newline, so only the gaps between the parts change
  induction h with
  | nil => exact .nil
  | @near depth final gap rest part parts hnarrow hloose hlegible hbars _ ih =>
    obtain ⟨hpart, hparts⟩ := List.forall_mem_cons.1 hline
    have hgap : '\n' ∉ gap := by rcases hnarrow with rfl | rfl <;> decide
    rw [Text.shift_append, Text.shift_append, Text.shift_of_not_mem hgap,
      Text.shift_of_not_mem hpart]
    refine .near hnarrow hloose hlegible (by rwa [Text.head_shift]) ?_
    rw [hopened, Nat.add_right_comm]
    exact ih hparts
  | @beneath depth final rest part parts hbroken hloose hquery hlegible hbars _ ih =>
    obtain ⟨hpart, hparts⟩ := List.forall_mem_cons.1 hline
    have hindentation : '\n' ∉ Text.indentation unit (depth + Text.continues part.text) := by
      intro hmem
      obtain ⟨copy, hcopy, hmem⟩ := List.mem_flatten.1 hmem
      exact hunit (List.eq_of_mem_replicate hcopy ▸ hmem)
    rw [Text.shift_newline, Text.shift_append, Text.shift_append, Text.shift_of_not_mem hindentation,
      Text.shift_of_not_mem hpart, ← List.append_assoc unit, ← Text.indentation_succ,
      Nat.add_right_comm, Nat.add_right_comm depth (Text.continues part.text)]
    refine .beneath hbroken hloose hquery hlegible ?_ ?_
    · rwa [Text.head_shift]
    · rw [hopened, Nat.add_right_comm]
      exact ih hparts

end Laid

end ApexLayout
