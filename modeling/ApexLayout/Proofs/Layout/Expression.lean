import ApexLayout.Proofs.Printing
import ApexLayout.Proofs.Spelling.Stands
import Mathlib.Data.List.TakeWhile

/-!
The layout of expressions.

Whatever the surroundings, the text of an expression is laid out from its parts: it begins with a
character that an expression may begin with and ends with a complete part. Only exploded chains
break lines, and where chains stay on one line the text is flat.
-/

namespace ApexLayout

/-! ## Texts of expressions -/

theorem Text.isLeading_of_isOpening {c : Char} (h : Text.isOpening c = true) :
    Text.isLeading c = true := by
  have hsigns : (['}', '.', '?'].all (!Text.isOpening ·)) = true := by decide
  have hne : ∀ sign ∈ ['}', '.', '?'], c ≠ sign := by
    rintro sign hsign rfl
    simpa [h] using List.all_eq_true.1 hsigns c hsign
  have hblank : Text.isBlank c = false := by
    unfold Text.isOpening at h
    rcases Bool.or_eq_true_iff.1 h with hword | hsign
    · by_contra hblank
      have hpart := Scan.isWordPart_of_blank (Bool.not_eq_false _ ▸ hblank)
      rcases Bool.or_eq_true_iff.1 hword with hstart | hdigit
      · rw [Scan.isWordPart_of_start hstart] at hpart
        cases hpart
      · rw [Scan.isWordPart_of_digit hdigit] at hpart
        cases hpart
    · have hall : Text.openingSigns.all (!Text.isBlank ·) = true := by decide
      simpa using List.all_eq_true.1 hall c (List.contains_iff_mem.1 hsign)
  unfold Text.isLeading
  simp [hblank, hne '}' (by simp), hne '.' (by simp), hne '?' (by simp)]

theorem Text.isOpening_of_start {c : Char} (h : Scan.isWordStart c = true) :
    Text.isOpening c = true := by
  unfold Text.isOpening
  rw [h]
  rfl

/-- The text of an expression: it may stand where one is expected. -/
structure Expressed (unit : Text) (flat : Bool) (parts : List Part) (text : Text) : Prop where
  laid : Laid unit flat 0 parts text 0
  first : ∃ c rest, text = c :: rest ∧ Text.isOpening c = true
  last : Completed parts

namespace Expressed

variable {unit : Text} {flat : Bool} {parts more : List Part} {text rest : Text}

theorem stands (h : Expressed unit flat parts text) : Stands unit flat parts text := by
  obtain ⟨c, rest, htext, hc⟩ := h.first
  exact ⟨h.laid, ⟨c, rest, htext, Text.isLeading_of_isOpening hc⟩, h.last⟩

/-- More behind an expression. -/
theorem append (h : Expressed unit flat parts text) (h' : Laid unit flat 0 more rest 0)
    (hrest : rest.Follows) (hlast : Completed more) :
    Expressed unit flat (parts ++ more) (text ++ rest) := by
  refine ⟨(h.stands.append h' hrest hlast).laid, ?_, hlast.append parts⟩
  obtain ⟨c, tail, rfl, hc⟩ := h.first
  exact ⟨c, _, rfl, hc⟩

/-- Two expressions with a part between them. -/
theorem between (h : Expressed unit flat parts text) {part : Part} (hpart : part.Legible)
    (h' : Expressed unit flat more rest) :
    Expressed unit flat (parts ++ part :: more) (text ++ ' ' :: (part.text ++ ' ' :: rest)) := by
  have hbehind := (Laid.spaced hpart).append h'.stands.behind (fun other hother c hc => by
    cases hother
    cases hc
    exact part.bars_space) fun other hother => rfl
  exact h.append hbehind (.blank rfl) (h'.last.append [part])

/-- A part that begins like an expression and is complete. -/
theorem one {part : Part} (h : part.Legible) (hloose : part.isLoose = false)
    (hfirst : ∃ c rest, part.text = c :: rest ∧ Text.isOpening c = true)
    (hcomplete : part.isComplete = true) : Expressed unit flat [part] part.text :=
  ⟨.one h hloose, hfirst, .one hcomplete⟩

/-- An operator in front of an expression. -/
theorem leading (h : Expressed unit flat parts text) {sign : Text} (hsign : sign ∈ Operators.leading) :
    Expressed unit flat (.leading sign :: parts) (leadingOperator sign text) := by
  have hall : ∀ sign ∈ Operators.leading, sign.head?.any Text.isOpening = true := by decide
  have hfirst := Text.exists_first (hall sign hsign)
  have hone : Laid unit flat 0 [.leading sign] sign 0 :=
    .one (show (Part.leading sign).Legible from hsign) rfl
  obtain ⟨c, tail, rfl, hc⟩ := h.first
  obtain ⟨d, rest, rfl, hd⟩ := hfirst
  have hlast := h.last.append [.leading (d :: rest)]
  have hopened : ∀ gap : Text, gap = [] ∨ gap = [' '] →
      (Part.leading (d :: rest)).opened (gap ++ c :: tail) = 0 := by
    have hline : c ≠ '\n' := by
      rintro rfl
      exact absurd hc (by decide)
    rintro gap (rfl | rfl)
    · exact if_neg fun heq => hline (Option.some.inj heq)
    · rfl
  unfold leadingOperator
  by_cases hfuses : (d :: rest).getLast? = (c :: tail).head? ∧
      ((d :: rest).getLast? = some '+' ∨ (d :: rest).getLast? = some '-')
  · have hwhole := hone.append h.stands.behind (fun part hpart e he => by
      cases hpart
      cases he
      exact Part.bars_space _) fun part hpart => by
        cases hpart
        exact hopened [' '] (.inr rfl)
    simp only [if_pos hfuses]
    refine ⟨?_, ⟨d, _, rfl, hd⟩, hlast⟩
    simpa using hwhole
  · have hwhole := hone.append h.laid (fun part hpart e he => by
      cases hpart
      cases he
      exact Piece.bars_leading hsign hc hfuses) fun part hpart => by
        cases hpart
        exact hopened [] (.inl rfl)
    simp only [if_neg hfuses]
    exact ⟨hwhole, ⟨d, _, rfl, hd⟩, hlast⟩

/-- An operator behind an expression. -/
theorem trailing (h : Expressed unit flat parts text) {sign : Text}
    (hsign : sign ∈ Operators.trailing) :
    Expressed unit flat (parts ++ [.trailing sign]) (text ++ sign) := by
  have hall : ∀ sign ∈ Operators.trailing, (Part.trailing sign).isComplete = true ∧
      sign.head?.all Text.closingSigns.contains = true := by decide
  obtain ⟨hcomplete, hfollows⟩ := hall sign hsign
  refine h.append (Laid.one (show (Part.trailing sign).Legible from hsign) rfl) (fun d hd => ?_)
    (.one hcomplete)
  rw [Option.mem_def.mp hd] at hfollows
  exact .inl (by simpa using hfollows)

end Expressed

/-! ## Words, literals and types -/

section

variable {unit : Text} {flat : Bool}

theorem Part.Legible.word_first {name : Text} (h : (Part.word name).Legible) :
    ∃ c rest, name = c :: rest ∧ Scan.isWordStart c = true :=
  (TypeText.word h.1).first

theorem Expressed.word {name : Text} (h : (Part.word name).Legible) :
    Expressed unit flat [.word name] name := by
  obtain ⟨c, rest, htext, hstart⟩ := h.word_first
  refine .one h rfl ⟨c, rest, htext, Text.isOpening_of_start hstart⟩ ?_
  exact h.1.isComplete TokenKind.noConfusion

theorem Expressed.literal {written : Text} (h : (Part.literal written).Legible) :
    Expressed unit flat [.literal written] written := by
  obtain ⟨hlexeme, hkind⟩ := h
  refine .one ⟨hlexeme, hkind⟩ rfl ?_ (hlexeme.isComplete hkind)
  obtain ⟨c, rest, htext, hcut⟩ := hlexeme
  refine ⟨c, rest, htext, ?_⟩
  unfold Text.isOpening
  rcases Scan.lexeme_cases hcut with ⟨-, hstart, -⟩ | ⟨-, -, hdigit, -⟩ | ⟨-, rfl, -⟩ | ⟨hsymbol, -⟩
  · rw [hstart]
    rfl
  · rw [hdigit, Bool.or_true, Bool.true_or]
  · decide
  · exact absurd hsymbol hkind

theorem Expressed.type {reference : TypeRef} {text : Text} (h : (Part.type reference).Legible)
    (htext : reference.render = .ok text) : Expressed unit flat [.type reference] text := by
  have htype := Part.typeText h
  have hsame : (Part.type reference).text = text := by rw [Part.text, htext]
  obtain ⟨c, rest, hfirst, hstart⟩ := htype.first
  obtain ⟨last, hlast, hcomplete⟩ := htype.last
  rw [← hsame]
  refine .one h rfl ⟨c, rest, hfirst, Text.isOpening_of_start hstart⟩ ?_
  show reference.pieces.getLast?.all Piece.isComplete = true
  rw [hlast]
  exact hcomplete

theorem Completed.word {name : Text} (h : (Part.word name).Legible) : Completed [.word name] :=
  .one (h.1.isComplete TokenKind.noConfusion)

/-- A word right behind a symbol. -/
theorem Laid.sign_word {depth : Nat} {sign name : Text} (hname : (Part.word name).Legible)
    (h : sign ∈ Scan.symbols) (hloose : (Part.symbol sign).isLoose = false) :
    Laid unit flat depth [.symbol sign, .word name] (sign ++ name) depth := by
  obtain ⟨c, rest, rfl, hstart⟩ := hname.word_first
  refine (Laid.sign h hloose).append (.one hname rfl) (fun part hpart d hd => ?_)
    fun part hpart => ?_
  · cases hpart
    cases hd
    show (Piece.symbol sign).bars c = true
    exact Piece.bars_symbol rfl (.inr (Scan.isDigit_of_start hstart))
      (.inl (Scan.isWordPart_of_start hstart))
  · refine if_neg fun heq => ?_
    obtain rfl : c = '\n' := Option.some.inj heq
    exact absurd hstart (by decide)

/-- A keyword can be read. -/
theorem Part.legible_word {name : Text} (h : name.head?.any Scan.isWordStart = true)
    (hrest : name.all Scan.isWordPart = true) : (Part.word name).Legible := by
  cases name with
  | nil => cases h
  | cons c tail =>
    refine ⟨⟨c, tail, rfl, ?_⟩, rfl⟩
    rw [Scan.lexeme_word _ h]
    have htail : tail.takeWhile Scan.isWordPart = tail := by
      rw [List.takeWhile_eq_self_iff]
      exact fun d hd => List.all_eq_true.1 hrest d (List.mem_cons_of_mem _ hd)
    show Except.ok (TokenKind.word, (tail.takeWhile Scan.isWordPart).length) = _
    rw [htail]
    rfl

theorem Primary.expressed {leaf : Primary} {text : Text} (h : leaf.render = .ok text)
    (hlegible : ∀ part ∈ leaf.parts, part.Legible) : Expressed unit flat leaf.parts text := by
  cases leaf with
  | literal written =>
    cases h
    exact .literal (hlegible _ List.mem_cons_self)
  | identifier name =>
    cases h
    exact .word (hlegible _ List.mem_cons_self)
  | this =>
    cases h
    exact .word (hlegible _ List.mem_cons_self)
  | super =>
    cases h
    exact .word (hlegible _ List.mem_cons_self)
  | path type => exact .type (hlegible _ List.mem_cons_self) h
  | classLiteral type =>
    obtain ⟨typeText, htype, h⟩ := Rendered.bind_eq_ok.1 h
    cases h
    have hword : (Part.word "class").Legible := Part.legible_word (by decide) (by decide)
    have hbehind : Laid unit flat 0 [.symbol ['.'], .word "class"] (['.'] ++ "class".toList) 0 :=
      .sign_word hword (by decide) (by decide)
    have hwhole := (Expressed.type (hlegible _ List.mem_cons_self) htype).append hbehind (.sign (by decide))
      ((Completed.word hword).append [.symbol ['.']])
    exact hwhole
  | query embedded => cases h

end

/-! ## Expressions -/

/-- What is asked of parts that are printed in given surroundings: they can be read, and where lines
may be broken they have no newlines of their own. -/
structure Printable (context : Context) (parts : List Part) : Prop where
  legible : ∀ part ∈ parts, part.Legible
  line : context.inline = false → ∀ part ∈ parts, '\n' ∉ part.text

namespace Printable

variable {context : Context} {parts more : List Part}

theorem mono (h : Printable context parts) (hmore : ∀ part ∈ more, part ∈ parts) :
    Printable context more :=
  ⟨fun part hpart => h.legible part (hmore part hpart),
    fun hinline part hpart => h.line hinline part (hmore part hpart)⟩

theorem inlined (h : Printable context parts) : Printable context.inlined parts :=
  ⟨h.legible, fun hinline => by cases hinline⟩

theorem left (h : Printable context (parts ++ more)) : Printable context parts :=
  h.mono fun _ hpart => List.mem_append_left _ hpart

theorem right (h : Printable context (parts ++ more)) : Printable context more :=
  h.mono fun _ hpart => List.mem_append_right _ hpart

theorem tail {part : Part} (h : Printable context (part :: parts)) : Printable context parts :=
  h.mono fun _ hpart => List.mem_cons_of_mem _ hpart

theorem head {part : Part} (h : Printable context (part :: parts)) : part.Legible :=
  h.legible part List.mem_cons_self

theorem row {separator : Part} {rows : List (List Part)} {row : List Part}
    (h : Printable context (rowsBy separator rows)) (hrow : row ∈ rows) : Printable context row :=
  h.mono fun _ hpart => mem_rowsBy_of_mem hrow hpart

end Printable

/-- An expression that is laid out from its parts in all surroundings. -/
def Expression.Prints (expression : Expression) : Prop :=
  ∀ context outer text, Printable context expression.parts →
    (context.inline = true → ∀ layout ∈ outer, layout = .inline) →
    expression.renderWithin context outer = .ok text →
    Expressed context.indentUnit context.inline expression.parts text

/-- An expression around which there is no longer chain. -/
theorem Expression.Prints.alone {expression : Expression} (h : expression.Prints) {context : Context}
    {text : Text} (hprintable : Printable context expression.parts)
    (htext : expression.render context = .ok text) :
    Expressed context.indentUnit context.inline expression.parts text :=
  h context none text hprintable (by simp) htext

theorem Expression.prints_all {context : Context} {items : List Expression} {texts : List Text}
    (hitems : ∀ item ∈ items, item.Prints)
    (hprintable : Printable context (rowsBy (.symbol ",") (Expression.partsAll items)))
    (h : Expression.renderAll context items = .ok texts) :
    List.Forall₂ (Stands context.indentUnit context.inline) (Expression.partsAll items) texts := by
  have hall : ∀ item ∈ items, Printable context item.parts := by
    rw [Expression.partsAll_eq_map] at hprintable
    exact fun item hitem => hprintable.row (List.mem_map_of_mem hitem)
  have hrender := Expression.renderAll_eq_ok h
  clear h hprintable
  induction hrender with
  | nil => exact .nil
  | cons hitem _ ih =>
    obtain ⟨hprints, hothers⟩ := List.forall_mem_cons.1 hitems
    obtain ⟨hprintable, hall⟩ := List.forall_mem_cons.1 hall
    exact .cons (hprints.alone hprintable hitem).stands (ih hothers hall)

theorem Expression.prints_entries {context : Context} {items : List (Expression × Expression)}
    {texts : List Text} (hitems : ∀ item ∈ items, item.1.Prints ∧ item.2.Prints)
    (hprintable : Printable context (rowsBy (.symbol ",") (Expression.partsEntries items)))
    (h : Expression.renderEntries context items = .ok texts) :
    List.Forall₂ (Stands context.indentUnit context.inline) (Expression.partsEntries items)
      texts := by
  have hall : ∀ item ∈ items,
      Printable context (item.1.parts ++ .symbol "=>" :: item.2.parts) := by
    rw [Expression.partsEntries_eq_map] at hprintable
    exact fun item hitem => hprintable.row (List.mem_map.2 ⟨item, hitem, rfl⟩)
  rw [Expression.renderEntries_eq_mapM] at h
  have hrender := Rendered.mapM_eq_ok h
  clear h hprintable
  induction hrender with
  | nil => exact .nil
  | cons hitem _ ih =>
    obtain ⟨⟨hkey, hvalue⟩, hothers⟩ := List.forall_mem_cons.1 hitems
    obtain ⟨hprintable, hall⟩ := List.forall_mem_cons.1 hall
    obtain ⟨key, hkeyText, hitem⟩ := Rendered.bind_eq_ok.1 hitem
    obtain ⟨value, hvalueText, hitem⟩ := Rendered.bind_eq_ok.1 hitem
    cases hitem
    refine .cons ?_ (ih hothers hall)
    have hentry := (hkey context none key hprintable.left (by simp) hkeyText).between
      hprintable.right.head (hvalue context none value hprintable.right.tail (by simp) hvalueText)
    simpa [Part.text, Part.symbol, Piece.symbol] using hentry.stands

/-- The text of a link: one line that begins with its navigation. -/
theorem Link.laid {context : Context} {link : Link} {text : Text}
    (hinner : ∀ item ∈ link.inner, item.Prints) (hprintable : Printable context link.parts)
    (h : link.render context = .ok text) :
    Laid context.indentUnit true 0 link.parts text 0 ∧ Completed link.parts ∧
      ∃ rest, text = link.navigation.text ++ rest := by
  obtain ⟨navigation, member, arguments⟩ := link
  have hnavigation : navigation.text ∈ Scan.symbols ∧
      (Part.symbol navigation.text).isLoose = false := by
    cases navigation <;> decide
  unfold Link.render at h
  split at h
  · cases h
  cases arguments with
  | none =>
    cases h
    rw [Link.parts] at hprintable ⊢
    have hmember := hprintable.tail.head
    exact ⟨.sign_word hmember hnavigation.1 hnavigation.2,
      (Completed.word hmember).append [.symbol navigation.text], member, rfl⟩
  | some arguments =>
    obtain ⟨texts, htexts, h⟩ := Rendered.bind_eq_ok.1 h
    cases h
    rw [Link.parts] at hprintable ⊢
    have hmember := hprintable.tail.head
    have hfront : Laid context.indentUnit true 0 [.symbol navigation.text, .word member]
        (navigation.text ++ member) 0 := .sign_word hmember hnavigation.1 hnavigation.2
    have hbracket : ('(', ')') ∈ Stands.brackets := by decide
    have harguments : ∀ item ∈ arguments, item.Prints := hinner
    have hlist := Stands.listed hbracket
      (Expression.prints_all harguments (hprintable.tail.tail.tail.left.inlined) htexts)
    have hwhole := hfront.append_completed
      ((Completed.word hmember).append [.symbol navigation.text]) hlist (.sign (by decide))
    refine ⟨?_, (Stands.completed_list hbracket _).append
      [.symbol navigation.text, .word member], member ++ "(" ++ Text.join ", " texts ++ ")", ?_⟩
    · simpa using hwhole
    · simp

/-- The text of what follows the type in a `new` expression, where chains stay on one line. -/
theorem CreatorBody.laid {context : Context} {body : CreatorBody} {text : Text}
    (hinner : ∀ item ∈ body.inner, item.Prints) (hprintable : Printable context body.parts)
    (h : body.render context.inlined = .ok text) :
    Laid context.indentUnit true 0 body.parts text 0 ∧ Completed body.parts ∧ text.Follows := by
  -- every form is a list between brackets
  have hlisted : ∀ {opening closing : Char} {rows : List (List Part)} {texts : List Text},
      (opening, closing) ∈ Stands.brackets → opening ∈ Text.closingSigns →
      List.Forall₂ (Stands context.indentUnit true) rows texts →
      Laid context.indentUnit true 0 (listParts [opening] [closing] rows)
        ([opening] ++ Text.join ", " texts ++ [closing]) 0 ∧
        Completed (listParts [opening] [closing] rows) ∧
        Text.Follows ([opening] ++ Text.join ", " texts ++ [closing]) := by
    intro opening closing rows texts hbracket hsign hrows
    exact ⟨Stands.listed hbracket hrows, Stands.completed_list hbracket rows, .sign hsign⟩
  cases body with
  | arguments items =>
    rw [CreatorBody.render] at h
    obtain ⟨texts, htexts, h⟩ := Rendered.bind_eq_ok.1 h
    cases h
    rw [CreatorBody.parts] at hprintable ⊢
    exact hlisted (show ('(', ')') ∈ _ by decide) (by decide)
      (Expression.prints_all hinner hprintable.tail.left.inlined htexts)
  | arraySize size =>
    rw [CreatorBody.render] at h
    obtain ⟨sizeText, hsize, h⟩ := Rendered.bind_eq_ok.1 h
    cases h
    rw [CreatorBody.parts] at hprintable ⊢
    have hitem := (hinner size List.mem_cons_self).alone hprintable.tail.left.inlined hsize
    have hwhole := hlisted (show ('[', ']') ∈ _ by decide) (by decide) (.cons hitem.stands .nil)
    simpa [listParts, rowsBy, Text.join] using hwhole
  | elements items =>
    rw [CreatorBody.render] at h
    obtain ⟨texts, htexts, h⟩ := Rendered.bind_eq_ok.1 h
    cases h
    rw [CreatorBody.parts] at hprintable ⊢
    exact hlisted (show ('{', '}') ∈ _ by decide) (by decide)
      (Expression.prints_all hinner hprintable.tail.left.inlined htexts)
  | entries items =>
    rw [CreatorBody.render] at h
    obtain ⟨texts, htexts, h⟩ := Rendered.bind_eq_ok.1 h
    cases h
    rw [CreatorBody.parts] at hprintable ⊢
    refine hlisted (show ('{', '}') ∈ _ by decide) (by decide)
      (Expression.prints_entries (fun item hitem => ?_) hprintable.tail.left.inlined htexts)
    exact ⟨hinner _ (List.mem_flatMap.2 ⟨item, hitem, by simp⟩),
      hinner _ (List.mem_flatMap.2 ⟨item, hitem, by simp⟩)⟩

/-- A link behind its receiver, on the same line or on a line of its own. -/
theorem Context.attach_expressed {context : Context} {layout : ChainLayout}
    {parts more : List Part} {receiver link rest : Text} {navigation : Navigation}
    (hreceiver : Expressed context.indentUnit context.inline parts receiver)
    (hlink : Laid context.indentUnit true 0 (.symbol navigation.text :: more) link 0)
    (hlast : Completed (.symbol navigation.text :: more)) (hrest : link = navigation.text ++ rest)
    (hline : context.inline = false →
      ∀ part ∈ .symbol navigation.text :: more, '\n' ∉ part.text)
    (hinline : context.inline = true → layout = .inline) :
    Expressed context.indentUnit context.inline (parts ++ .symbol navigation.text :: more)
      (context.attach layout receiver link) := by
  have hnavigation : ∀ c ∈ link.head?, c ∈ Text.closingSigns ∧ Text.isBlank c = false := by
    rw [hrest]
    cases navigation <;>
    · rintro _ ⟨⟩
      decide
  have hunit := context.not_mem_indentUnit
  cases layout with
  | inline =>
    exact hreceiver.append hlink.unflat (fun c hc => .inl (hnavigation c hc).1) hlast
  | exploded =>
    have hbroken : context.inline = false := by
      cases hflat : context.inline with
      | false => rfl
      | true => cases hinline hflat
    have hone : '\n' ∉ link := hlink.not_mem_newline (hline hbroken)
    have hindent : context.indent link = context.indentUnit ++ link := by
      refine Text.indent_line hone ?_
      obtain ⟨c, tail, htext⟩ : ∃ c tail, link = c :: tail := by
        rw [hrest]
        cases navigation <;> exact ⟨_, _, rfl⟩
      rw [List.all_eq_false]
      exact ⟨c, htext ▸ List.mem_cons_self, by simp [(hnavigation c (by rw [htext]; rfl)).2]⟩
    have hbroken' : Laid context.indentUnit false 0 _ link 0 := hlink.unflat
    have hnewline := hbroken'.newline (fun c hc => (hnavigation c hc).2)
      (by cases navigation <;> decide) (by cases navigation <;> decide)
    have hlevel : Text.continues (Part.symbol navigation.text).text = 1 := by
      cases navigation <;> decide
    rw [hlevel, show Text.indentation context.indentUnit (0 + 1) = context.indentUnit by
      simp [Text.indentation]] at hnewline
    rw [hbroken] at hreceiver ⊢
    show Expressed _ _ _ (receiver ++ ['\n'] ++ context.indent link)
    rw [hindent, List.append_assoc]
    exact hreceiver.append hnewline (.blank rfl) hlast

/-- Where chains stay on one line, so does every chain that a longer one contains. -/
theorem Context.layout_eq_inline {context : Context} {outer : Option ChainLayout} (calls : Nat)
    (hinline : context.inline = true)
    (houter : context.inline = true → ∀ layout ∈ outer, layout = .inline) :
    outer.getD (context.chainLayout calls) = .inline := by
  cases outer with
  | none => exact if_pos hinline
  | some layout => exact houter hinline layout rfl

theorem Link.parts_eq (link : Link) : ∃ rest, link.parts = .symbol link.navigation.text :: rest := by
  obtain ⟨navigation, member, arguments⟩ := link
  cases arguments <;> exact ⟨_, by rw [Link.parts]⟩

theorem Context.forLink_eq (context : Context) (layout : ChainLayout) :
    (context.forLink layout).indentUnit = context.indentUnit ∧
      (context.forLink layout).inline = context.inline := by
  cases layout <;> exact ⟨rfl, rfl⟩

namespace Expression

variable {condition left right operand array index receiver inner : Expression} {context : Context}

/-- Two operands with an operator between them. -/
theorem Prints.between (hleft : left.Prints) (hright : right.Prints) {operator : Part}
    {leftText rightText : Text} (hprintable : Printable context (left.parts ++ operator :: right.parts))
    (hleftText : left.renderWithin context none = .ok leftText)
    (hrightText : right.renderWithin context none = .ok rightText) :
    Expressed context.indentUnit context.inline (left.parts ++ operator :: right.parts)
      (leftText ++ ' ' :: (operator.text ++ ' ' :: rightText)) :=
  (hleft.alone hprintable.left hleftText).between hprintable.right.head
    (hright.alone hprintable.right.tail hrightText)

theorem prints_conditional (hcondition : condition.Prints) (hleft : left.Prints)
    (hright : right.Prints) : (conditional condition left right).Prints := by
  intro context outer text hprintable _ h
  rw [renderWithin] at h
  obtain ⟨conditionText, hconditionText, h⟩ := Rendered.bind_eq_ok.1 h
  obtain ⟨leftText, hleftText, h⟩ := Rendered.bind_eq_ok.1 h
  obtain ⟨rightText, hrightText, h⟩ := Rendered.bind_eq_ok.1 h
  cases h
  rw [parts] at hprintable ⊢
  have houtcomes := hleft.between hright hprintable.right.tail hleftText hrightText
  have hwhole := (hcondition.alone hprintable.left hconditionText).between hprintable.right.head
    houtcomes
  simpa [Part.text, Part.symbol, Piece.symbol] using hwhole

theorem prints_unary (fixity : Fixity) (operator : Text) (hoperand : operand.Prints) :
    (unary fixity operator operand).Prints := by
  intro context outer text hprintable _ h
  rw [renderWithin] at h
  obtain ⟨_, -, h⟩ := Rendered.bind_eq_ok.1 h
  obtain ⟨operandText, hoperandText, h⟩ := Rendered.bind_eq_ok.1 h
  cases fixity with
  | leading =>
    cases h
    rw [parts] at hprintable ⊢
    exact (hoperand.alone hprintable.tail hoperandText).leading hprintable.head
  | trailing =>
    cases h
    rw [parts] at hprintable ⊢
    exact (hoperand.alone hprintable.left hoperandText).trailing hprintable.right.head

theorem prints_cast (type : TypeRef) (hoperand : operand.Prints) : (cast type operand).Prints := by
  intro context outer text hprintable _ h
  rw [renderWithin] at h
  obtain ⟨typeText, htypeText, h⟩ := Rendered.bind_eq_ok.1 h
  obtain ⟨operandText, hoperandText, h⟩ := Rendered.bind_eq_ok.1 h
  cases h
  rw [parts] at hprintable ⊢
  have htype : Expressed context.indentUnit context.inline _ typeText :=
    .type hprintable.tail.head htypeText
  have hvalue := hoperand.alone hprintable.tail.tail.tail hoperandText
  have hbracket : ('(', ')') ∈ Stands.brackets := by decide
  have hwhole := Stands.append_bracket hbracket
    (Stands.listed hbracket (.cons htype.stands .nil)) rfl hvalue.laid
  refine ⟨?_, ⟨'(', _, rfl, by decide⟩, hvalue.last.append [.symbol "(", .type type, .symbol ")"]⟩
  simpa [listParts, rowsBy, Text.join] using hwhole

theorem prints_creation (type : TypeRef) {body : CreatorBody}
    (hinner : ∀ item ∈ body.inner, item.Prints) : (creation type body).Prints := by
  intro context outer text hprintable _ h
  rw [renderWithin] at h
  obtain ⟨typeText, htypeText, h⟩ := Rendered.bind_eq_ok.1 h
  obtain ⟨bodyText, hbodyText, h⟩ := Rendered.bind_eq_ok.1 h
  cases h
  rw [parts] at hprintable ⊢
  obtain ⟨hbody, hlast, hfollows⟩ := CreatorBody.laid hinner hprintable.tail.tail hbodyText
  have hword : Expressed context.indentUnit context.inline _ "new".toList := .word hprintable.head
  have htype : Expressed context.indentUnit context.inline _ typeText :=
    .type hprintable.tail.head htypeText
  have hfront := hword.append htype.stands.behind (.blank rfl) htype.last
  have hwhole := hfront.append hbody.unflat hfollows hlast
  simpa using hwhole

theorem prints_arrayAccess (harray : array.Prints) (hindex : index.Prints) :
    (arrayAccess array index).Prints := by
  intro context outer text hprintable _ h
  rw [renderWithin] at h
  obtain ⟨arrayText, harrayText, h⟩ := Rendered.bind_eq_ok.1 h
  obtain ⟨indexText, hindexText, h⟩ := Rendered.bind_eq_ok.1 h
  cases h
  rw [parts] at hprintable ⊢
  have hbracket : ('[', ']') ∈ Stands.brackets := by decide
  have hinside := hindex.alone hprintable.right.tail.left hindexText
  have hwhole := (harray.alone hprintable.left harrayText).append
    (Stands.listed hbracket (.cons hinside.stands .nil)) (.sign (by decide))
    (Stands.completed_list hbracket _)
  simpa [listParts, rowsBy, Text.join] using hwhole

/-- A chain hands its layout down to the receiver, and attaches the link to it. -/
theorem prints_chain {link : Link} (hreceiver : receiver.Prints)
    (hinner : ∀ item ∈ link.inner, item.Prints) : (chain receiver link).Prints := by
  intro context outer text hprintable houter h
  rw [renderWithin] at h
  obtain ⟨receiverText, hreceiverText, h⟩ := Rendered.bind_eq_ok.1 h
  obtain ⟨linkText, hlinkText, h⟩ := Rendered.bind_eq_ok.1 h
  cases h
  rw [parts] at hprintable ⊢
  have hreceiver := hreceiver context _ _ hprintable.left (fun hinline layout hlayout => by
    obtain rfl := Option.some.inj hlayout
    exact Context.layout_eq_inline _ hinline houter) hreceiverText
  obtain ⟨hunit, hflat⟩ := context.forLink_eq (outer.getD
    (context.chainLayout (callCount (.chain receiver link))))
  obtain ⟨hlink, hlast, rest, hrest⟩ := Link.laid hinner
    ⟨hprintable.right.legible, fun hbroken => hprintable.right.line (hflat ▸ hbroken)⟩ hlinkText
  rw [hunit] at hlink
  obtain ⟨more, hmore⟩ := link.parts_eq
  rw [hmore] at hlink hlast hprintable ⊢
  exact Context.attach_expressed hreceiver hlink hlast hrest hprintable.right.line
    fun hinline => Context.layout_eq_inline _ hinline houter

theorem prints_call (name : Text) {arguments : List Expression}
    (hinner : ∀ item ∈ arguments, item.Prints) : (call name arguments).Prints := by
  intro context outer text hprintable _ h
  rw [renderWithin] at h
  obtain ⟨texts, htexts, h⟩ := Rendered.bind_eq_ok.1 h
  cases h
  rw [parts] at hprintable ⊢
  have hbracket : ('(', ')') ∈ Stands.brackets := by decide
  have hlist := Stands.listed hbracket
    (prints_all hinner hprintable.tail.tail.left.inlined htexts)
  have hname : Expressed context.indentUnit context.inline _ name := .word hprintable.head
  have hwhole := hname.append hlist.unflat (.sign (by decide)) (Stands.completed_list hbracket _)
  simpa using hwhole

theorem prints_parenthesized (hinner : inner.Prints) : (parenthesized inner).Prints := by
  intro context outer text hprintable _ h
  rw [renderWithin] at h
  obtain ⟨innerText, hinnerText, h⟩ := Rendered.bind_eq_ok.1 h
  cases h
  rw [parts] at hprintable ⊢
  have hbracket : ('(', ')') ∈ Stands.brackets := by decide
  have hinside := hinner.alone hprintable.tail.left hinnerText
  have hwhole := Stands.listed hbracket (.cons hinside.stands .nil)
  refine ⟨?_, ⟨'(', _, rfl, by decide⟩, ?_⟩
  · simpa [listParts, rowsBy, Text.join] using hwhole
  · simpa [listParts, rowsBy] using Stands.completed_list hbracket [inner.parts]

/-- Every expression is laid out from its parts. -/
theorem prints (expression : Expression) : expression.Prints := by
  induction expression using Expression.induction with
  | assignment target operator value htarget hvalue =>
    intro context outer text hprintable _ h
    rw [renderWithin] at h
    obtain ⟨_, -, h⟩ := Rendered.bind_eq_ok.1 h
    obtain ⟨targetText, htargetText, h⟩ := Rendered.bind_eq_ok.1 h
    obtain ⟨valueText, hvalueText, h⟩ := Rendered.bind_eq_ok.1 h
    cases h
    rw [parts] at hprintable ⊢
    simpa [Part.text] using htarget.between hvalue hprintable htargetText hvalueText
  | conditional condition thenValue elseValue hcondition hthen helse =>
    exact prints_conditional hcondition hthen helse
  | binary kind operator left right hleft hright =>
    intro context outer text hprintable _ h
    rw [renderWithin] at h
    obtain ⟨_, -, h⟩ := Rendered.bind_eq_ok.1 h
    obtain ⟨leftText, hleftText, h⟩ := Rendered.bind_eq_ok.1 h
    obtain ⟨rightText, hrightText, h⟩ := Rendered.bind_eq_ok.1 h
    cases h
    rw [parts] at hprintable ⊢
    simpa [Part.text] using hleft.between hright hprintable hleftText hrightText
  | unary fixity operator operand hoperand => exact prints_unary fixity operator hoperand
  | cast type operand hoperand => exact prints_cast type hoperand
  | instanceOf operand type hoperand =>
    intro context outer text hprintable _ h
    rw [renderWithin] at h
    obtain ⟨operandText, hoperandText, h⟩ := Rendered.bind_eq_ok.1 h
    obtain ⟨typeText, htypeText, h⟩ := Rendered.bind_eq_ok.1 h
    cases h
    rw [parts] at hprintable ⊢
    have hwhole := (hoperand.alone hprintable.left hoperandText).between hprintable.right.head
      (.type hprintable.right.tail.head htypeText)
    simpa [Part.text, Part.word, Piece.word] using hwhole
  | creation type body hinner => exact prints_creation type hinner
  | arrayAccess array index harray hindex => exact prints_arrayAccess harray hindex
  | chain receiver link hreceiver hinner => exact prints_chain hreceiver hinner
  | call name arguments hinner => exact prints_call name hinner
  | parenthesized inner hinner => exact prints_parenthesized hinner
  | primary leaf =>
    intro context outer text hprintable _ h
    rw [renderWithin] at h
    rw [parts] at hprintable ⊢
    exact Primary.expressed h hprintable.legible

end Expression

/-! ## Expressions hold no modifiers -/

theorem modifier_of_listParts {opening closing : Text} {rows : List (List Part)}
    {modifier : Modifier} (h : .modifier modifier ∈ listParts opening closing rows) :
    ∃ row ∈ rows, .modifier modifier ∈ row := by
  unfold listParts at h
  rcases List.mem_cons.1 h with h | h
  · cases h
  · rcases List.mem_append.1 h with h | h
    · rcases mem_rowsBy h with h | h
      · cases h
      · exact h
    · cases List.mem_singleton.1 h

/-- There is no modifier among the parts of an expression. -/
theorem Expression.modifier_not_mem (modifier : Modifier) (expression : Expression) :
    .modifier modifier ∉ expression.parts := by
  have hlist : ∀ opening closing {items}, (∀ e ∈ items, .modifier modifier ∉ Expression.parts e) →
      .modifier modifier ∉ listParts opening closing (Expression.partsAll items) := by
    intro opening closing items hitems h
    obtain ⟨row, hrow, hmem⟩ := modifier_of_listParts h
    rw [Expression.partsAll_eq_map] at hrow
    obtain ⟨item, hitem, rfl⟩ := List.mem_map.1 hrow
    exact hitems item hitem hmem
  induction expression using Expression.induction with
  | assignment _ _ _ ih ih' => simp [Expression.parts, ih, ih']
  | conditional _ _ _ ih ih' ih'' => simp [Expression.parts, Part.symbol, ih, ih', ih'']
  | binary _ _ _ _ ih ih' => simp [Expression.parts, ih, ih']
  | unary fixity _ _ ih => cases fixity <;> simp [Expression.parts, ih]
  | cast _ _ ih => simp [Expression.parts, Part.symbol, ih]
  | instanceOf _ _ ih => simp [Expression.parts, Part.word, ih]
  | creation type body ih =>
    have hbody : .modifier modifier ∉ body.parts := by
      cases body with
      | arguments items => exact hlist _ _ ih
      | elements items => exact hlist _ _ ih
      | arraySize size =>
        have hsize := ih size List.mem_cons_self
        simp [CreatorBody.parts, Part.symbol, hsize]
      | entries items =>
        intro h
        obtain ⟨row, hrow, hmem⟩ := modifier_of_listParts h
        rw [Expression.partsEntries_eq_map] at hrow
        obtain ⟨⟨key, value⟩, hitem, rfl⟩ := List.mem_map.1 hrow
        have hkey := ih key (List.mem_flatMap.2 ⟨_, hitem, by simp⟩)
        have hvalue := ih value (List.mem_flatMap.2 ⟨_, hitem, by simp⟩)
        simp [Part.symbol, hkey, hvalue] at hmem
    simp [Expression.parts, Part.word, hbody]
  | arrayAccess _ _ ih ih' => simp [Expression.parts, Part.symbol, ih, ih']
  | chain receiver link ih ih' =>
    have hlink : .modifier modifier ∉ link.parts := by
      obtain ⟨navigation, member, items⟩ := link
      cases items with
      | none => simp [Link.parts, Part.symbol, Part.word]
      | some items =>
        have hitems : .modifier modifier ∉ listParts "(" ")" (Expression.partsAll items) :=
          hlist "(" ")" ih'
        simpa [Link.parts, Part.symbol, Part.word] using hitems
    simp [Expression.parts, ih, hlink]
  | call name items ih =>
    have hitems := hlist "(" ")" ih
    simpa [Expression.parts, Part.word] using hitems
  | parenthesized _ ih => simp [Expression.parts, Part.symbol, ih]
  | primary leaf => cases leaf <;> simp [Expression.parts, Primary.parts, Part.symbol, Part.word]

end ApexLayout
