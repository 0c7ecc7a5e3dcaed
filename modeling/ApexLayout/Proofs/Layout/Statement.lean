import ApexLayout.Proofs.Layout.Expression

/-!
The layout of statements.

The text of a statement stands on lines of its own. Headers and what is in front of them are put
together from texts that stand by themselves with blanks between them; bodies go between braces.
-/

namespace ApexLayout

/-- The parts can be read, and none of them has a newline of its own. -/
abbrev Clean (parts : List Part) : Prop := ∀ part ∈ parts, part.Legible ∧ '\n' ∉ part.text

theorem Clean.printable {parts : List Part} (h : Clean parts) (context : Context) :
    Printable context parts :=
  ⟨fun part hpart => (h part hpart).1, fun _ part hpart => (h part hpart).2⟩

theorem Clean.mono {parts more : List Part} (h : Clean parts) (hmore : ∀ part ∈ more, part ∈ parts) :
    Clean more :=
  fun part hpart => h part (hmore part hpart)

theorem Clean.row {separator : Part} {rows : List (List Part)} (h : Clean (rowsBy separator rows)) :
    ∀ row ∈ rows, Clean row :=
  fun _ hrow => h.mono fun _ hpart => mem_rowsBy_of_mem hrow hpart

/-! ## Texts next to each other -/

namespace Stands

variable {unit : Text} {flat : Bool} {parts more : List Part} {text rest : Text}

theorem loosen (h : Stands unit flat parts text) : Stands unit false parts text := by
  cases flat with
  | false => exact h
  | true => exact h.unflat

/-- Two texts with a blank between them. -/
theorem spaced (h : Stands unit flat parts text) (h' : Stands unit flat more rest) :
    Stands unit flat (parts ++ more) (text ++ ' ' :: rest) :=
  h.append h'.behind (.blank rfl) h'.last

theorem word {name : Text} (h : (Part.word name).Legible) : Stands unit flat [.word name] name :=
  (Expressed.word h).stands

theorem type {reference : TypeRef} (h : (Part.type reference).Legible)
    (htext : reference.render = .ok text) : Stands unit flat [.type reference] text :=
  (Expressed.type h htext).stands

/-- A name behind its type. -/
theorem typed {reference : TypeRef} {name : Text} (h : (Part.type reference).Legible)
    (htext : reference.render = .ok text) (hname : (Part.word name).Legible) :
    Stands unit flat [.type reference, .word name] (text ++ ' ' :: name) :=
  (type h htext).spaced (word hname)

theorem keyword (name : Text)
    (h : name.head?.any Scan.isWordStart = true ∧ name.all Scan.isWordPart = true) :
    Stands unit flat [.word name] name :=
  .word (Part.legible_word h.1 h.2)

/-- A symbol that stands by itself. -/
theorem sign {c : Char} (h : c = ';' ∨ c = ':') : Stands unit flat [.symbol [c]] [c] := by
  rcases h with rfl | rfl
  all_goals exact ⟨.sign (by decide) (by decide), ⟨_, [], rfl, by decide⟩, .one (by decide)⟩

/-- A semicolon behind a text. -/
theorem semicolon (h : Stands unit flat parts text) :
    Stands unit flat (parts ++ [.symbol [';']]) (text ++ [';']) :=
  h.append (sign (.inl rfl)).laid (.sign (by decide)) (.one (by decide))

/-- Texts in parentheses, with commas between them. -/
theorem parenthesized {rows : List (List Part)} {texts : List Text}
    (h : List.Forall₂ (Stands unit flat) rows texts) :
    Stands unit flat (listParts ['('] [')'] rows) ('(' :: (Text.join ", " texts ++ [')'])) := by
  have hbracket : ('(', ')') ∈ brackets := by decide
  exact ⟨listed hbracket h, ⟨_, _, rfl, by decide⟩, completed_list hbracket rows⟩

theorem parenthesis (h : Stands unit flat parts text) :
    Stands unit flat (.symbol ['('] :: (parts ++ [.symbol [')']])) ('(' :: (text ++ [')'])) := by
  have hwhole := parenthesized (.cons h .nil)
  simpa [listParts, rowsBy, Text.join] using hwhole

/-- A header in parentheses behind its keyword, and a body. -/
theorem header {inside : List Part} {insideText : Text} (h : Stands unit flat inside insideText)
    (name : Text) (hname : name.head?.any Scan.isWordStart = true ∧ name.all Scan.isWordPart = true)
    (hbody : Stands unit flat parts text) :
    Stands unit flat (.word name :: .symbol ['('] :: (inside ++ .symbol [')'] :: parts))
      (name ++ [' ', '('] ++ insideText ++ [')', ' '] ++ text) := by
  have hwhole := ((keyword name hname).spaced h.parenthesis).spaced hbody
  simpa using hwhole

/-- Modifiers in front of a text. -/
theorem modified {modifiers : List Modifier} (hmodifiers : Clean (modifierParts modifiers))
    (h : Stands unit flat parts text) :
    Stands unit flat (modifierParts modifiers ++ parts) (Modifier.renderAll modifiers ++ text) := by
  induction modifiers with
  | nil => exact h
  | cons modifier others ih =>
    obtain ⟨⟨hlegible, -⟩, hothers⟩ := List.forall_mem_cons.1 hmodifiers
    have hrest := ih hothers
    have hone : Laid unit flat 0 [.modifier modifier] modifier 0 := .one hlegible rfl
    have hwhole := hone.append hrest.behind (fun part hpart c hc => by
      cases hpart
      cases hc
      exact Part.bars_space _) fun part hpart => rfl
    have htext : Modifier.renderAll (modifier :: others) ++ text =
        modifier ++ ' ' :: (Modifier.renderAll others ++ text) := by
      simp [Modifier.renderAll]
    rw [htext]
    refine ⟨hwhole, ?_, hrest.last.append [.modifier modifier]⟩
    obtain ⟨⟨c, tail, rfl, hstart⟩, -⟩ := hlegible
    refine ⟨c, _, rfl, ?_⟩
    rcases hstart with hstart | rfl
    · exact Text.isLeading_of_isOpening (Text.isOpening_of_start hstart)
    · decide

/-- A body, with braces around it unless it stands as it is. -/
theorem enclose {context : Context} {bare : Bool} (h : Stands context.indentUnit false parts text)
    (hline : ∀ part ∈ parts, '\n' ∉ part.text) :
    Stands context.indentUnit false (bodyParts bare parts) (context.enclose bare text) := by
  cases bare with
  | true => exact h
  | false =>
    have hblock := Stands.block (.cons h .nil) (by simpa using hline)
    have htext : context.block [text] = context.braced text := by
      simp [Context.block, Text.unlines, Text.join]
    rw [htext] at hblock
    exact hblock

end Stands

/-! ## Variables and headers -/

theorem Expression.stands {context : Context} {expression : Expression} {text : Text}
    (hclean : Clean expression.parts) (h : expression.render context = .ok text) :
    Stands context.indentUnit context.inline expression.parts text :=
  (expression.prints.alone (hclean.printable context) h).stands

theorem Declarator.stands {context : Context} {declarator : Declarator} {text : Text}
    (hclean : Clean declarator.parts) (h : declarator.render context = .ok text) :
    Stands context.indentUnit context.inline declarator.parts text := by
  obtain ⟨name, initializer⟩ := declarator
  cases initializer with
  | none =>
    cases h
    exact .word (hclean _ List.mem_cons_self).1
  | some value =>
    obtain ⟨valueText, hvalue, h⟩ := Rendered.bind_eq_ok.1 h
    cases h
    simp only [Declarator.parts, List.forall_mem_cons] at hclean
    obtain ⟨hname, hequal, hrest⟩ := hclean
    have hexpressed := value.prints.alone (Clean.printable hrest context) hvalue
    have hwhole := ((Expressed.word hname.1).between hequal.1 hexpressed).stands
    simpa [Part.text, Part.symbol, Piece.symbol, Declarator.parts] using hwhole

/-- The items of a list stand by themselves. -/
theorem Stands.all {α : Type} {unit : Text} {flat : Bool} {parts : α → List Part}
    {render : α → Rendered} {items : List α} {texts : List Text}
    (h : List.Forall₂ (fun item text => render item = .ok text) items texts)
    (hitems : ∀ item ∈ items, ∀ text, render item = .ok text → Stands unit flat (parts item) text) :
    List.Forall₂ (Stands unit flat) (items.map parts) texts := by
  induction h with
  | nil => exact .nil
  | cons hfirst _ ih =>
    obtain ⟨hitem, hothers⟩ := List.forall_mem_cons.1 hitems
    exact .cons (hitem _ hfirst) (ih hothers)

theorem VariableDeclaration.stands {context : Context} {kind : NodeKind}
    {declaration : VariableDeclaration} {text : Text} (hclean : Clean declaration.parts)
    (h : declaration.render context kind = .ok text) :
    Stands context.indentUnit context.inline declaration.parts text := by
  obtain ⟨typeText, htype, h⟩ := Rendered.bind_eq_ok.1 h
  obtain ⟨names, hnames, h⟩ := Rendered.bind_eq_ok.1 h
  cases h
  unfold VariableDeclaration.parts at hclean ⊢
  simp only [List.forall_mem_append, List.forall_mem_cons] at hclean
  obtain ⟨hmodifiers, htypeClean, hdeclarators⟩ := hclean
  unfold Declarator.renderList at hnames
  split at hnames
  case isTrue => cases hnames
  case isFalse hne =>
    obtain ⟨texts, htexts, hnames⟩ := Rendered.bind_eq_ok.1 hnames
    cases hnames
    have hrow := Stands.all (Rendered.mapM_eq_ok htexts) fun item hitem text htext =>
      Declarator.stands (Clean.row hdeclarators _ (List.mem_map_of_mem hitem)) htext
    have hlist := Stands.joined hrow (by simpa using hne)
    have hwhole := ((Stands.type htypeClean.1 htype).spaced hlist).modified hmodifiers
    simpa using hwhole

theorem expressions_stand {context : Context} {items : List Expression} {texts : List Text}
    (hclean : Clean (expressionsParts items)) (h : Expression.renderAll context items = .ok texts) :
    List.Forall₂ (Stands context.indentUnit context.inline) (items.map Expression.parts) texts :=
  Stands.all (Expression.renderAll_eq_ok h) fun _ hitem _ htext =>
    Expression.stands (Clean.row hclean _ (List.mem_map_of_mem hitem)) htext

/-- A text that stands by itself, or nothing. -/
def StandsOrNot (unit : Text) (flat : Bool) (parts : List Part) (text : Text) : Prop :=
  parts = [] ∧ text = [] ∨ Stands unit flat parts text

theorem StandsOrNot.joined {unit : Text} {flat : Bool} {rows : List (List Part)} {texts : List Text}
    (h : List.Forall₂ (Stands unit flat) rows texts) :
    StandsOrNot unit flat (rowsBy (.symbol [',']) rows) (Text.join ", " texts) := by
  cases h with
  | nil => exact .inl ⟨rfl, rfl⟩
  | cons hrow hrows => exact .inr (.joined (.cons hrow hrows) (List.cons_ne_nil _ _))

theorem ForInit.stands {context : Context} {init : ForInit} {text : Text}
    (hclean : Clean init.parts) (h : init.render context = .ok text) :
    StandsOrNot context.indentUnit context.inline init.parts text := by
  rcases init with declaration | items
  · exact .inr (VariableDeclaration.stands hclean h)
  · obtain ⟨texts, htexts, h⟩ := Rendered.bind_eq_ok.1 h
    cases h
    exact .joined (expressions_stand hclean htexts)

/-- A part of a header behind its semicolon. -/
theorem Stands.headerPart {unit : Text} {flat : Bool} {parts : List Part} {part : Option Text}
    (h : part = none ∧ parts = [] ∨ ∃ text, part = some text ∧ Stands unit flat parts text) :
    Stands unit flat (.symbol [';'] :: parts) (';' :: ApexLayout.headerPart part) := by
  rcases h with ⟨rfl, rfl⟩ | ⟨text, rfl, htext⟩
  · exact .sign (.inl rfl)
  · exact Stands.spaced (.sign (.inl rfl)) htext

theorem ForControl.stands {context : Context} {control : ForControl} {text : Text}
    (hclean : Clean control.parts) (h : control.render context = .ok text) :
    Stands context.indentUnit context.inline control.parts text := by
  cases control with
  | each modifiers type name iterable =>
    obtain ⟨typeText, htype, h⟩ := Rendered.bind_eq_ok.1 h
    obtain ⟨iterableText, hiterable, h⟩ := Rendered.bind_eq_ok.1 h
    cases h
    rw [ForControl.parts] at hclean ⊢
    simp only [List.forall_mem_append, List.forall_mem_cons] at hclean
    obtain ⟨hmodifiers, htypeClean, hname, -, hrest⟩ := hclean
    have hcolon : Stands context.indentUnit context.inline [.symbol [':']] [':'] :=
      .sign (.inr rfl)
    have hwhole := (((Stands.typed htypeClean.1 htype hname.1).spaced hcolon).spaced
      (Expression.stands hrest hiterable)).modified hmodifiers
    simpa using hwhole
  | counting init condition update =>
    obtain ⟨initText, hinit, h⟩ := Rendered.bind_eq_ok.1 h
    obtain ⟨conditionText, hcondition, h⟩ := Rendered.bind_eq_ok.1 h
    obtain ⟨updateTexts, hupdate, h⟩ := Rendered.bind_eq_ok.1 h
    cases h
    rw [ForControl.parts] at hclean ⊢
    simp only [List.forall_mem_append, List.forall_mem_cons] at hclean
    obtain ⟨hinitClean, -, hconditionClean, -, hupdateClean⟩ := hclean
    -- from the last part to the first, since each stands in front of a semicolon or behind one
    have hsteps : Stands context.indentUnit context.inline (.symbol [';'] :: expressionsParts update)
        (';' :: headerPart (if update.isEmpty then none else some (Text.join ", " updateTexts))) := by
      refine .headerPart ?_
      have hrows := expressions_stand hupdateClean hupdate
      cases update with
      | nil => exact .inl ⟨rfl, rfl⟩
      | cons first others => exact .inr ⟨_, rfl, .joined hrows (List.cons_ne_nil _ _)⟩
    have htest : Stands context.indentUnit context.inline
        (.symbol [';'] :: condition.elim [] Expression.parts) (';' :: headerPart conditionText) := by
      refine .headerPart ?_
      rcases Rendered.option_eq_ok hcondition with ⟨rfl, rfl⟩ | ⟨value, written, rfl, rfl, hvalue⟩
      · exact .inl ⟨rfl, rfl⟩
      · exact .inr ⟨written, rfl, Expression.stands hconditionClean hvalue⟩
    have hbehind := htest.append hsteps.laid (.sign (by decide)) hsteps.last
    have hfront : StandsOrNot context.indentUnit context.inline (init.elim [] ForInit.parts)
        (initText.getD []) := by
      rcases Rendered.option_eq_ok hinit with ⟨rfl, rfl⟩ | ⟨value, written, rfl, rfl, hvalue⟩
      · exact .inl ⟨rfl, rfl⟩
      · exact ForInit.stands hinitClean hvalue
    -- without a start the header begins with its semicolon
    rcases hfront with ⟨hparts, htext⟩ | hfront
    · rw [hparts, htext]
      simpa using hbehind
    · have hwhole := hfront.append hbehind.laid (.sign (by decide)) hbehind.last
      simpa using hwhole

/-! ## Statements -/

/-- A statement whose text stands on lines of its own in all surroundings. -/
def Statement.Prints (statement : Statement) : Prop :=
  ∀ context text, Clean statement.parts → statement.render context = .ok text →
    Stands context.indentUnit false statement.parts text

/-- The body of a statement, with braces around it unless it stands as it is. -/
theorem Statement.Prints.body {statement : Statement} (hprints : statement.Prints)
    {context : Context} {bare : Bool} {text : Text}
    (hclean : Clean (bodyParts bare statement.parts))
    (h : statement.render (context.body bare) = .ok text) :
    Stands context.indentUnit false (bodyParts bare statement.parts) (context.enclose bare text) := by
  have hinside : Clean statement.parts := by
    refine hclean.mono fun part hpart => ?_
    cases bare with
    | true => exact hpart
    | false => exact List.mem_cons_of_mem _ (List.mem_append_left _ (by simpa using hpart))
  have hunit : (context.body bare).indentUnit = context.indentUnit := by cases bare <;> rfl
  exact (hunit ▸ hprints _ _ hinside h).enclose fun part hpart => (hinside part hpart).2

/-- Statements between braces. -/
theorem Statement.prints_block {context : Context} {body : List Statement} {texts : List Text}
    (hbody : ∀ statement ∈ body, statement.Prints)
    (hclean : Clean (blockParts (Statement.partsAll body)))
    (h : Statement.renderAll context.deeper body = .ok texts) :
    Stands context.indentUnit false (blockParts (Statement.partsAll body)) (context.block texts) := by
  rw [Statement.renderAll_eq_mapM] at h
  rw [Statement.partsAll_eq_map] at hclean ⊢
  have hrow : ∀ statement ∈ body, Clean statement.parts := fun statement hstatement =>
    hclean.mono fun part hpart => List.mem_cons_of_mem _ (List.mem_append_left _
      (List.mem_flatten.2 ⟨_, List.mem_map_of_mem hstatement, hpart⟩))
  refine Stands.block (Stands.all (Rendered.mapM_eq_ok h) fun statement hstatement text htext =>
    hbody statement hstatement context.deeper text (hrow statement hstatement) htext) ?_
  simp only [List.forall_mem_map]
  exact fun statement hstatement part hpart => (hrow statement hstatement part hpart).2

/-- The clauses behind a `try` block. -/
theorem CatchClause.stands {context : Context} {front : List Part} {frontText : Text}
    (hfront : Stands context.indentUnit false front frontText) {catches : List CatchClause}
    {text : Text}
    (hbodies : ∀ clause ∈ catches, ∀ statement ∈ CatchClause.body clause, statement.Prints)
    (hclean : Clean (CatchClause.partsAll catches))
    (h : CatchClause.renderAll context catches = .ok text) :
    Stands context.indentUnit false (front ++ CatchClause.partsAll catches) (frontText ++ text) := by
  -- the clauses are put behind what is printed so far, one after the other
  induction catches generalizing front frontText text with
  | nil =>
    cases h
    simpa [CatchClause.partsAll] using hfront
  | cons clause rest ih =>
    obtain ⟨modifiers, type, name, body⟩ := clause
    rw [CatchClause.renderAll, CatchClause.render] at h
    obtain ⟨first, hfirst, h⟩ := Rendered.bind_eq_ok.1 h
    obtain ⟨others, hothers, h⟩ := Rendered.bind_eq_ok.1 h
    cases h
    obtain ⟨typeText, htype, hfirst⟩ := Rendered.bind_eq_ok.1 hfirst
    obtain ⟨bodyTexts, hbody, hfirst⟩ := Rendered.bind_eq_ok.1 hfirst
    cases hfirst
    obtain ⟨hbodyPrints, hrestPrints⟩ := List.forall_mem_cons.1 hbodies
    rw [CatchClause.partsAll, CatchClause.parts] at hclean ⊢
    simp only [List.forall_mem_append, List.forall_mem_cons] at hclean
    obtain ⟨⟨-, -, hmodifiers, htypeClean, hname, -, hblock⟩, hrest⟩ := hclean
    have hexception : Stands context.indentUnit false [.type type, .word name]
        (typeText ++ ' ' :: name) := .typed htypeClean.1 htype hname.1
    have hclause := (hexception.modified hmodifiers).header "catch" (by decide)
      (Statement.prints_block hbodyPrints hblock hbody)
    have hwhole := ih (hfront.spaced hclause) hrestPrints hrest hothers
    simpa using hwhole

/-- A statement of an expression behind its keyword. -/
theorem Expression.stands_behind {context : Context} {name : Text} {value : Expression} {text : Text}
    (hname : (Part.word name).Legible) (hclean : Clean (value.parts ++ [.symbol [';']]))
    (h : value.render context = .ok text) :
    Stands context.indentUnit false (.word name :: (value.parts ++ [.symbol [';']]))
      (name ++ ' ' :: text ++ [';']) := by
  have hinside : Clean value.parts := hclean.mono fun part hpart => List.mem_append_left _ hpart
  exact ((Stands.word hname).spaced (Expression.stands hinside h).loosen).semicolon

namespace Statement

variable {condition : Expression} {control : ForControl} {thenBranch body : Statement}
  {elseBranch : Option Statement} {items : List Statement} {catches : List CatchClause}
  {cleanup : Option (List Statement)}

theorem prints_ifElse (hthen : thenBranch.Prints) (helse : ∀ branch ∈ elseBranch, branch.Prints) :
    (ifElse condition thenBranch elseBranch).Prints := by
  intro context text hclean h
  rw [render] at h
  obtain ⟨conditionText, hcondition, h⟩ := Rendered.bind_eq_ok.1 h
  obtain ⟨thenText, hthenText, h⟩ := Rendered.bind_eq_ok.1 h
  cases elseBranch with
  | none =>
    cases h
    rw [parts] at hclean ⊢
    simp only [List.forall_mem_append, List.forall_mem_cons] at hclean
    obtain ⟨-, -, hconditionClean, -, hthenClean⟩ := hclean
    have htest : Stands context.indentUnit false condition.parts conditionText :=
      (Expression.stands hconditionClean hcondition).loosen
    exact htest.header "if" (by decide) (hthen.body hthenClean hthenText)
  | some branch =>
    obtain ⟨elseText, helseText, h⟩ := Rendered.bind_eq_ok.1 h
    cases h
    rw [parts] at hclean ⊢
    simp only [List.forall_mem_append, List.forall_mem_cons] at hclean
    obtain ⟨-, -, hconditionClean, -, hthenClean, -, helseClean⟩ := hclean
    have htest : Stands context.indentUnit false condition.parts conditionText :=
      (Expression.stands hconditionClean hcondition).loosen
    have hfirst := htest.header "if" (by decide) (hthen.body hthenClean hthenText)
    have hwhole := (hfirst.spaced (.keyword "else" (by decide))).spaced
      ((helse branch rfl).body helseClean helseText)
    simpa using hwhole

theorem prints_whileLoop (hbody : body.Prints) : (whileLoop condition body).Prints := by
  intro context text hclean h
  rw [render] at h
  obtain ⟨conditionText, hcondition, h⟩ := Rendered.bind_eq_ok.1 h
  obtain ⟨bodyText, hbodyText, h⟩ := Rendered.bind_eq_ok.1 h
  cases h
  rw [parts] at hclean ⊢
  simp only [List.forall_mem_append, List.forall_mem_cons] at hclean
  obtain ⟨-, -, hconditionClean, -, hbodyClean⟩ := hclean
  have htest : Stands context.indentUnit false condition.parts conditionText :=
    (Expression.stands hconditionClean hcondition).loosen
  exact htest.header "while" (by decide) (hbody.body hbodyClean hbodyText)

theorem prints_forLoop (hbody : body.Prints) : (forLoop control body).Prints := by
  intro context text hclean h
  rw [render] at h
  obtain ⟨controlText, hcontrol, h⟩ := Rendered.bind_eq_ok.1 h
  obtain ⟨bodyText, hbodyText, h⟩ := Rendered.bind_eq_ok.1 h
  cases h
  rw [parts] at hclean ⊢
  simp only [List.forall_mem_append, List.forall_mem_cons] at hclean
  obtain ⟨-, -, hcontrolClean, -, hbodyClean⟩ := hclean
  have hheader : Stands context.indentUnit false control.parts controlText :=
    (ForControl.stands hcontrolClean hcontrol).loosen
  exact hheader.header "for" (by decide) (hbody.body hbodyClean hbodyText)

theorem prints_tryCatch (hitems : ∀ statement ∈ items, statement.Prints)
    (hcatches : ∀ clause ∈ catches, ∀ statement ∈ CatchClause.body clause, statement.Prints)
    (hcleanup : ∀ last ∈ cleanup, ∀ statement ∈ last, statement.Prints) :
    (tryCatch items catches cleanup).Prints := by
  intro context text hclean h
  rw [render] at h
  obtain ⟨bodyTexts, hbodyTexts, h⟩ := Rendered.bind_eq_ok.1 h
  obtain ⟨catchesText, hcatchesText, h⟩ := Rendered.bind_eq_ok.1 h
  cases cleanup with
  | none =>
    cases h
    rw [parts] at hclean ⊢
    simp only [List.forall_mem_append, List.forall_mem_cons] at hclean
    obtain ⟨-, hbodyClean, hcatchesClean⟩ := hclean
    have hfirst := (Stands.keyword "try" (by decide)).spaced
      (prints_block hitems hbodyClean hbodyTexts)
    have hwhole := CatchClause.stands hfirst hcatches hcatchesClean hcatchesText
    simpa using hwhole
  | some last =>
    obtain ⟨lastTexts, hlastTexts, h⟩ := Rendered.bind_eq_ok.1 h
    cases h
    rw [parts] at hclean ⊢
    simp only [List.forall_mem_append, List.forall_mem_cons] at hclean
    obtain ⟨-, hbodyClean, hcatchesClean, -, hlastClean⟩ := hclean
    have hfirst := (Stands.keyword "try" (by decide)).spaced
      (prints_block hitems hbodyClean hbodyTexts)
    have hwhole := ((CatchClause.stands hfirst hcatches hcatchesClean hcatchesText).spaced
      (.keyword "finally" (by decide))).spaced
        (prints_block (hcleanup last rfl) hlastClean hlastTexts)
    simpa using hwhole

theorem prints_returnValue (value : Option Expression) : (returnValue value).Prints := by
  intro context text hclean h
  cases value with
  | none =>
    cases h
    exact (Stands.keyword "return" (by decide)).semicolon
  | some value =>
    rw [render] at h
    obtain ⟨valueText, hvalue, h⟩ := Rendered.bind_eq_ok.1 h
    cases h
    obtain ⟨hname, hclean⟩ := List.forall_mem_cons.1 hclean
    exact Expression.stands_behind hname.1 hclean hvalue

/-- The text of every statement stands on lines of its own. -/
theorem prints (statement : Statement) : statement.Prints := by
  induction statement using Statement.induction with
  | block body hbody =>
    intro context text hclean h
    rw [render] at h
    obtain ⟨texts, htexts, h⟩ := Rendered.bind_eq_ok.1 h
    cases h
    exact prints_block hbody hclean htexts
  | ifElse condition thenBranch elseBranch hthen helse => exact prints_ifElse hthen helse
  | whileLoop condition body hbody => exact prints_whileLoop hbody
  | forLoop control body hbody => exact prints_forLoop hbody
  | tryCatch body catches cleanup hbody hcatches hcleanup =>
    exact prints_tryCatch hbody hcatches hcleanup
  | returnValue value => exact prints_returnValue value
  | throwValue value =>
    intro context text hclean h
    rw [render] at h
    obtain ⟨valueText, hvalue, h⟩ := Rendered.bind_eq_ok.1 h
    cases h
    obtain ⟨hname, hclean⟩ := List.forall_mem_cons.1 hclean
    exact Expression.stands_behind hname.1 hclean hvalue
  | dml operation operand =>
    intro context text hclean h
    rw [render] at h
    obtain ⟨operandText, hoperand, h⟩ := Rendered.bind_eq_ok.1 h
    cases h
    rw [parts] at hclean ⊢
    obtain ⟨hname, hclean⟩ := List.forall_mem_cons.1 hclean
    simpa using Expression.stands_behind hname.1 hclean hoperand
  | breakLoop =>
    intro context text hclean h
    cases h
    exact (Stands.keyword "break" (by decide)).semicolon
  | continueLoop =>
    intro context text hclean h
    cases h
    exact (Stands.keyword "continue" (by decide)).semicolon
  | locals declaration =>
    intro context text hclean h
    rw [render] at h
    obtain ⟨valueText, hvalue, h⟩ := Rendered.bind_eq_ok.1 h
    cases h
    rw [parts] at hclean ⊢
    simp only [List.forall_mem_append] at hclean
    exact (VariableDeclaration.stands hclean.1 hvalue).loosen.semicolon
  | expression value =>
    intro context text hclean h
    rw [render] at h
    obtain ⟨valueText, hvalue, h⟩ := Rendered.bind_eq_ok.1 h
    cases h
    rw [parts] at hclean ⊢
    simp only [List.forall_mem_append] at hclean
    exact (Expression.stands hclean.1 hvalue).loosen.semicolon

end Statement

end ApexLayout
