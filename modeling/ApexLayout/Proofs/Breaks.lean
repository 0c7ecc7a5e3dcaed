import ApexLayout.Proofs.Node
import ApexLayout.Proofs.Printing
import ApexLayout.Proofs.Spelling.Stands
import Mathlib.Data.List.Basic

/-!
Line breaks in expressions.

Printing breaks the line of an expression only in front of the links of a chain, each of which then
stands one unit to the right. So taking out the breaks, each with the unit behind it, gives the text
that is printed where chains stay on one line, and that text is the same in all surroundings
(`Expression.render_joinLines`).
-/

namespace ApexLayout

namespace Text

/-- Lines one after another, without the unit that each of them begins with. -/
def joinFrom? (unit : Text) : List Text → Option Text
  | [] => some []
  | line :: rest => do
    let kept ← line.dropPrefix? unit
    let others ← joinFrom? unit rest
    return kept ++ others

/-- A text on one line: every newline is taken out together with the unit behind it. There is none
if the unit is missing behind a newline. -/
def joinLines? (unit text : Text) : Option Text := do
  let others ← joinFrom? unit (lines text).tail
  return (lines text).headD [] ++ others

end Text

/-! ## Texts with breaks -/

/-- A text is the given line with breaks in it, each in front of a link and with the unit behind. -/
inductive Breaks (unit : Text) : Text → Text → Prop
  | nil : Breaks unit [] []
  | char {c : Char} {text line : Text} (hc : c ≠ '\n') (rest : Breaks unit text line) :
      Breaks unit (c :: text) (c :: line)
  | link {c : Char} {text line : Text} (mark : c = '.' ∨ c = '?')
      (rest : Breaks unit text (c :: line)) : Breaks unit ('\n' :: (unit ++ text)) (c :: line)

namespace Breaks

variable {unit text line more others : Text}

theorem refl (h : '\n' ∉ text) : Breaks unit text text := by
  induction text with
  | nil => exact .nil
  | cons c rest ih =>
    rw [List.mem_cons, not_or] at h
    exact .char (fun hc => h.1 hc.symm) (ih h.2)

theorem append (h : Breaks unit text line) (hmore : Breaks unit more others) :
    Breaks unit (text ++ more) (line ++ others) := by
  induction h with
  | nil => exact hmore
  | char hc _ ih => exact .char hc ih
  | link mark _ ih =>
    rw [List.cons_append, List.append_assoc]
    exact .link mark ih

/-- What is written on one line behind a text comes behind its line. -/
theorem fixed (h : Breaks unit text line) (fixed : Text) (hfixed : '\n' ∉ fixed) :
    Breaks unit (text ++ fixed) (line ++ fixed) :=
  h.append (.refl hfixed)

/-- The line has no breaks. -/
theorem not_mem (h : Breaks unit text line) : '\n' ∉ line := by
  induction h with
  | nil => exact List.not_mem_nil
  | char hc _ ih => exact fun hmem => (List.mem_cons.1 hmem).elim (fun heq => hc heq.symm) ih
  | link _ _ ih => exact ih

/-- A text and its line begin with the same sign, if with one at all. -/
theorem head_sign (h : Breaks unit text line) {c : Char} (hc : c = '+' ∨ c = '-') :
    some c = text.head? ↔ some c = line.head? := by
  cases h with
  | nil => rfl
  | char => rfl
  | link mark =>
    -- neither a newline nor what a link begins with is a sign
    rcases hc with rfl | rfl <;> rcases mark with rfl | rfl <;> simp

/-- An operator in front of a text and in front of its line. -/
theorem leading {operator : Text} (h : Breaks unit text line) (hoperator : '\n' ∉ operator) :
    Breaks unit (leadingOperator operator text) (leadingOperator operator line) := by
  have hfuses : operator.getLast? = text.head? ∧
        (operator.getLast? = some '+' ∨ operator.getLast? = some '-') ↔
      operator.getLast? = line.head? ∧
        (operator.getLast? = some '+' ∨ operator.getLast? = some '-') := by
    refine and_congr_left fun hsign => ?_
    rcases hsign with hsign | hsign <;> rw [hsign]
    · exact h.head_sign (.inl rfl)
    · exact h.head_sign (.inr rfl)
  unfold leadingOperator
  simp only [hfuses]
  split
  · exact ((refl hoperator).append (refl (by decide))).append h
  · exact (refl hoperator).append h

/-- Two texts with an operator between them. -/
theorem between {operator : Text} (h : Breaks unit text line) (hoperator : '\n' ∉ operator)
    (hmore : Breaks unit more others) :
    Breaks unit (text ++ " " ++ operator ++ " " ++ more)
      (line ++ " " ++ operator ++ " " ++ others) :=
  (((h.fixed " " (by decide)).fixed operator hoperator).fixed " " (by decide)).append hmore

/-- The lines behind the first one begin with the unit, and without it they complete the line. -/
theorem lines_eq (h : Breaks unit text line) (hunit : '\n' ∉ unit) :
    ∃ first others kept, Text.lines text = first :: others ∧
      Text.joinFrom? unit others = some kept ∧ line = first ++ kept := by
  induction h with
  | nil => exact ⟨[], [], [], rfl, rfl, rfl⟩
  | @char c text line hc _ ih =>
    obtain ⟨first, others, kept, hlines, hkept, rfl⟩ := ih
    have hc : '\n' ∉ [c] := fun hmem => hc (List.mem_singleton.1 hmem).symm
    exact ⟨c :: first, others, kept, Text.lines_append hc hlines, hkept, rfl⟩
  | @link c text line _ _ ih =>
    -- what was the first line so far stands behind the break, with the unit in front
    obtain ⟨first, others, kept, hlines, hkept, heq⟩ := ih
    refine ⟨[], (unit ++ first) :: others, first ++ kept, ?_, ?_, heq⟩
    · rw [Text.lines_newline, Text.lines_append hunit hlines]
    · have hdrop : (unit ++ first).dropPrefix? unit = some first :=
        List.dropPrefix?_eq_some_iff.2 ⟨unit, rfl, beq_self_eq_true unit⟩
      rw [Text.joinFrom?, hdrop, hkept]
      rfl

theorem joinLines? (h : Breaks unit text line) (hunit : '\n' ∉ unit) :
    Text.joinLines? unit text = some line := by
  obtain ⟨first, others, kept, hlines, hkept, rfl⟩ := h.lines_eq hunit
  rw [Text.joinLines?, hlines, List.tail_cons, hkept]
  rfl

end Breaks

/-! ## Types -/

/-- A row of texts has no newline if the texts and what stands between them have none. -/
theorem Text.not_mem_join {separator : Text} {texts : List Text} (hseparator : '\n' ∉ separator)
    (h : ∀ text ∈ texts, '\n' ∉ text) : '\n' ∉ Text.join separator texts := by
  unfold Text.join
  induction texts with
  | nil => simp
  | cons text rest ih =>
    obtain ⟨htext, hrest⟩ := List.forall_mem_cons.1 h
    cases rest with
    | nil => simpa using htext
    | cons next more =>
      rw [List.intercalate_cons_cons, List.mem_append, List.mem_append, not_or, not_or]
      exact ⟨⟨htext, hseparator⟩, ih hrest⟩

theorem TypeName.not_mem_render {name text : Text} {arguments : List TypeRef} (hname : '\n' ∉ name)
    (harguments : ∀ type ∈ arguments, ∀ text, type.render = .ok text → '\n' ∉ text)
    (h : TypeName.render ⟨name, arguments⟩ = .ok text) : '\n' ∉ text := by
  cases arguments with
  | nil =>
    cases h
    exact hname
  | cons first others =>
    rw [TypeName.render] at h
    obtain ⟨texts, htexts, h⟩ := Rendered.bind_eq_ok.1 h
    cases h
    rw [TypeRef.renderAll_eq_mapM] at htexts
    simp only [List.mem_append, not_or]
    exact ⟨⟨⟨hname, by decide⟩, Text.not_mem_join (by decide) (Rendered.mapM_forall htexts harguments)⟩,
      by decide⟩

/-- The text of a type has no newline but those in the names and brackets of the type. -/
theorem TypeRef.not_mem_render (reference : TypeRef) : (Node.type reference).OnOneLine →
    ∀ text, reference.render = .ok text → '\n' ∉ text := by
  induction reference using TypeRef.induction with
  | type segments suffix ih =>
    intro hline text h
    obtain ⟨hown, harguments⟩ := (Node.onOneLine_iff _).1 hline
    obtain ⟨hsuffix, hnames⟩ := List.forall_mem_cons.1 hown
    rw [TypeRef.render] at h
    split at h
    · cases h
    obtain ⟨texts, htexts, h⟩ := Rendered.bind_eq_ok.1 h
    cases h
    rw [TypeName.renderAll_eq_mapM] at htexts
    have hrow : ∀ text ∈ texts, '\n' ∉ text := by
      refine Rendered.mapM_forall htexts fun ⟨name, arguments⟩ hmem text htext => ?_
      refine TypeName.not_mem_render (hnames _ (List.mem_map_of_mem hmem)) (fun type htype => ?_) htext
      refine ih _ hmem type htype (harguments _ (List.mem_map_of_mem ?_))
      exact List.mem_flatMap.2 ⟨_, hmem, htype⟩
    rw [List.mem_append, not_or]
    exact ⟨Text.not_mem_join (by decide) hrow, hsuffix⟩

/-! ## Chains on one line -/

theorem Context.inlined_eq {context : Context} (h : context.inline = true) :
    context.inlined = context := by
  obtain ⟨settings, depth, inline⟩ := context
  obtain rfl : inline = true := h
  rfl

section

variable {context other : Context}

theorem Expression.renderAll_congr {items : List Expression}
    (h : ∀ item ∈ items, item.renderWithin context none = item.renderWithin other none) :
    Expression.renderAll context items = Expression.renderAll other items := by
  rw [Expression.renderAll_eq_mapM, Expression.renderAll_eq_mapM]
  exact Rendered.mapM_congr h

theorem Link.render_congr {link : Link} (h : ∀ item ∈ link.inner,
      item.renderWithin context.inlined none = item.renderWithin other.inlined none) :
    link.render context = link.render other := by
  obtain ⟨navigation, member, arguments⟩ := link
  cases arguments with
  | none => rfl
  | some items =>
    have hitems := Expression.renderAll_congr h
    rw [Link.inner, Option.getD_some] at hitems
    rw [Link.render, Link.render, hitems]

theorem CreatorBody.render_congr {body : CreatorBody}
    (h : ∀ item ∈ body.inner, item.renderWithin context none = item.renderWithin other none) :
    body.render context = body.render other := by
  have hall := Expression.renderAll_congr h
  cases body with
  | arguments items =>
    rw [CreatorBody.inner] at hall
    rw [CreatorBody.render, CreatorBody.render, hall]
  | arraySize size =>
    rw [CreatorBody.render, CreatorBody.render, h size (List.mem_singleton_self size)]
  | elements items =>
    rw [CreatorBody.inner] at hall
    rw [CreatorBody.render, CreatorBody.render, hall]
  | entries items =>
    have hentry : ∀ entry ∈ items,
        Expression.renderEntry context entry = Expression.renderEntry other entry := by
      intro entry hentry
      have hinner : ∀ item ∈ [entry.1, entry.2], item ∈ (CreatorBody.entries items).inner :=
        fun item hitem => List.mem_flatMap.2 ⟨entry, hentry, hitem⟩
      rw [Expression.renderEntry, Expression.renderEntry, h _ (hinner _ (by simp)),
        h _ (hinner _ (by simp))]
    rw [CreatorBody.render, CreatorBody.render, Expression.renderEntries_eq_mapM,
      Expression.renderEntries_eq_mapM, Rendered.mapM_congr hentry]

/-- Where chains stay on one line, a chain is told nothing that it does not know. -/
theorem Expression.renderWithin_layout (h : context.inline = true) (expression : Expression) :
    expression.renderWithin context (some .inline) = expression.renderWithin context none := by
  have hlayout : ∀ calls, context.chainLayout calls = .inline := fun calls => if_pos h
  cases expression with
  | chain receiver link =>
    rw [Expression.renderWithin, Expression.renderWithin, hlayout]
    rfl
  | _ => simp only [Expression.renderWithin]

/-- Where chains stay on one line, an expression is printed alike in all surroundings. -/
theorem Expression.renderWithin_inline (h : context.inline = true) (h' : other.inline = true)
    (expression : Expression) :
    expression.renderWithin context none = expression.renderWithin other none := by
  induction expression using Expression.induction with
  | chain receiver link hreceiver hlink =>
    -- the surroundings are inline already, so the arguments of the link are covered by the induction
    have hinner : ∀ item ∈ link.inner,
        item.renderWithin context.inlined none = item.renderWithin other.inlined none := by
      rw [Context.inlined_eq h, Context.inlined_eq h']
      exact hlink
    rw [Expression.renderWithin, Expression.renderWithin, Option.getD_none, Option.getD_none,
      Context.chainLayout, Context.chainLayout, if_pos h, if_pos h', renderWithin_layout h,
      renderWithin_layout h', hreceiver]
    simp only [Context.forLink, Context.attach, Link.render_congr hinner]
  | call name arguments harguments =>
    rw [Expression.renderWithin, Expression.renderWithin, Context.inlined_eq h,
      Context.inlined_eq h', Expression.renderAll_congr harguments]
  | creation type body hbody =>
    rw [Expression.renderWithin, Expression.renderWithin, Context.inlined_eq h,
      Context.inlined_eq h', CreatorBody.render_congr hbody]
  | _ => simp only [Expression.renderWithin, *]

end

/-- A link is printed alike in all surroundings. -/
theorem Link.render_eq (context other : Context) (link : Link) :
    link.render context = link.render other :=
  Link.render_congr fun item _ => item.renderWithin_inline rfl rfl

/-! ## Expressions with breaks -/

/-- When two runs print something, the first text is the second one with breaks in it. -/
def Rendered.BreaksTo (unit : Text) (first second : Rendered) : Prop :=
  ∀ text line, first = .ok text → second = .ok line → Breaks unit text line

namespace Rendered.BreaksTo

variable {unit : Text}

theorem pure {text line : Text} (h : Breaks unit text line) :
    BreaksTo unit (Pure.pure text) (Pure.pure line) := by
  rintro _ _ ⟨⟩ ⟨⟩
  exact h

theorem bind {first second : Rendered} {next other : Text → Rendered} (h : BreaksTo unit first second)
    (hnext : ∀ text line, Breaks unit text line → BreaksTo unit (next text) (other line)) :
    BreaksTo unit (first >>= next) (second >>= other) := by
  intro text line htext hline
  obtain ⟨text', hfirst, htext⟩ := bind_eq_ok.1 htext
  obtain ⟨line', hsecond, hline⟩ := bind_eq_ok.1 hline
  exact hnext _ _ (h _ _ hfirst hsecond) _ _ htext hline

/-- A step that both runs take alike. -/
theorem shared {α : Type} {first : Except RenderError α} {next other : α → Rendered}
    (h : ∀ value, first = .ok value → BreaksTo unit (next value) (other value)) :
    BreaksTo unit (first >>= next) (first >>= other) := by
  intro text line htext hline
  obtain ⟨value, hvalue, htext⟩ := bind_eq_ok.1 htext
  obtain ⟨value', hvalue', hline⟩ := bind_eq_ok.1 hline
  obtain rfl : value = value' := Except.ok.inj (hvalue.symm.trans hvalue')
  exact h value hvalue _ _ htext hline

/-- A run that prints one line. -/
theorem refl {run : Rendered} (h : ∀ text, run = .ok text → '\n' ∉ text) : BreaksTo unit run run := by
  intro text line htext hline
  obtain rfl : text = line := Except.ok.inj (htext.symm.trans hline)
  exact .refl (h text htext)

end Rendered.BreaksTo

/-- An expression is printed, in all surroundings, as its text on one line with breaks in it. -/
def Expression.BreaksOnly (flat : Context) (expression : Expression) : Prop :=
  ∀ context outer, Rendered.BreaksTo context.indentUnit (expression.renderWithin context outer)
    (expression.renderWithin flat none)

section

variable {flat : Context}

theorem Expression.BreaksOnly.not_mem {expression : Expression} (h : expression.BreaksOnly flat) :
    ∀ text, expression.renderWithin flat none = .ok text → '\n' ∉ text :=
  fun text htext => (h flat none text text htext htext).not_mem

theorem Expression.not_mem_renderAll {items : List Expression} {texts : List Text}
    (hitems : ∀ item ∈ items, item.BreaksOnly flat)
    (h : Expression.renderAll flat items = .ok texts) : '\n' ∉ Text.join ", " texts := by
  rw [Expression.renderAll_eq_mapM] at h
  exact Text.not_mem_join (by decide) (Rendered.mapM_forall h fun item hitem =>
    (hitems item hitem).not_mem)

theorem Link.not_mem_render (hflat : flat.inline = true) {link : Link} {text : Text}
    (hmember : '\n' ∉ link.member) (hitems : ∀ item ∈ link.inner, item.BreaksOnly flat)
    (h : link.render flat = .ok text) : '\n' ∉ text := by
  obtain ⟨navigation, member, arguments⟩ := link
  have hnavigation : '\n' ∉ navigation.text := by cases navigation <;> decide
  cases arguments with
  | none =>
    rw [Link.render] at h
    split at h
    · cases h
    cases h
    rw [List.mem_append, not_or]
    exact ⟨hnavigation, hmember⟩
  | some items =>
    rw [Link.render, Context.inlined_eq hflat] at h
    split at h
    · cases h
    obtain ⟨texts, htexts, h⟩ := Rendered.bind_eq_ok.1 h
    cases h
    simp only [List.mem_append, not_or]
    exact ⟨⟨⟨⟨hnavigation, hmember⟩, by decide⟩, Expression.not_mem_renderAll hitems htexts⟩,
      by decide⟩

/-- A link begins with a point, or with a question mark and a point. -/
theorem Link.head_render {context : Context} {link : Link} {text : Text}
    (h : link.render context = .ok text) : ∃ c rest, text = c :: rest ∧ (c = '.' ∨ c = '?') := by
  obtain ⟨navigation, member, arguments⟩ := link
  have hnavigation : ∀ rest : Text, ∃ c tail, navigation.text ++ rest = c :: tail ∧
      (c = '.' ∨ c = '?') := by
    intro rest
    cases navigation with
    | dot => exact ⟨'.', rest, rfl, .inl rfl⟩
    | safeDot => exact ⟨'?', '.' :: rest, rfl, .inr rfl⟩
  cases arguments with
  | none =>
    rw [Link.render] at h
    split at h
    · cases h
    cases h
    exact hnavigation member
  | some items =>
    rw [Link.render] at h
    split at h
    · cases h
    obtain ⟨texts, -, h⟩ := Rendered.bind_eq_ok.1 h
    cases h
    simp only [List.append_assoc]
    exact hnavigation _

theorem CreatorBody.not_mem_render {body : CreatorBody} {text : Text}
    (hitems : ∀ item ∈ body.inner, item.BreaksOnly flat) (h : body.render flat = .ok text) :
    '\n' ∉ text := by
  cases body with
  | arguments items =>
    rw [CreatorBody.render] at h
    obtain ⟨texts, htexts, h⟩ := Rendered.bind_eq_ok.1 h
    cases h
    simp only [List.mem_append, not_or]
    exact ⟨⟨by decide, Expression.not_mem_renderAll hitems htexts⟩, by decide⟩
  | arraySize size =>
    rw [CreatorBody.render] at h
    obtain ⟨sizeText, hsize, h⟩ := Rendered.bind_eq_ok.1 h
    cases h
    simp only [List.mem_append, not_or]
    exact ⟨⟨by decide, (hitems size (List.mem_singleton_self size)).not_mem _ hsize⟩, by decide⟩
  | elements items =>
    rw [CreatorBody.render] at h
    obtain ⟨texts, htexts, h⟩ := Rendered.bind_eq_ok.1 h
    cases h
    simp only [List.mem_append, not_or]
    exact ⟨⟨by decide, Expression.not_mem_renderAll hitems htexts⟩, by decide⟩
  | entries items =>
    rw [CreatorBody.render, Expression.renderEntries_eq_mapM] at h
    obtain ⟨texts, htexts, h⟩ := Rendered.bind_eq_ok.1 h
    cases h
    -- each entry is two expressions with an arrow between them
    have hrow : ∀ text ∈ texts, '\n' ∉ text := by
      refine Rendered.mapM_forall htexts fun entry hentry text htext => ?_
      have hinner : ∀ item ∈ [entry.1, entry.2], item.BreaksOnly flat := fun item hitem =>
        hitems item (List.mem_flatMap.2 ⟨entry, hentry, hitem⟩)
      obtain ⟨key, hkey, htext⟩ := Rendered.bind_eq_ok.1 htext
      obtain ⟨value, hvalue, htext⟩ := Rendered.bind_eq_ok.1 htext
      cases htext
      simp only [List.mem_append, not_or]
      exact ⟨⟨(hinner _ (by simp)).not_mem _ hkey, by decide⟩,
        (hinner _ (by simp)).not_mem _ hvalue⟩
    simp only [List.mem_append, not_or]
    exact ⟨⟨by decide, Text.not_mem_join (by decide) hrow⟩, by decide⟩

theorem Context.attach_breaks {context : Context} {layout : ChainLayout} {receiver line link : Text}
    (hreceiver : Breaks context.indentUnit receiver line) (hlink : '\n' ∉ link)
    (hmark : ∃ c rest, link = c :: rest ∧ (c = '.' ∨ c = '?')) :
    Breaks context.indentUnit (context.attach layout receiver link) (line ++ link) := by
  cases layout with
  | inline => exact hreceiver.append (.refl hlink)
  | exploded =>
    obtain ⟨c, rest, rfl, hmark⟩ := hmark
    have hblank : (c :: rest).all Text.isBlank = false := by
      rcases hmark with rfl | rfl <;> rfl
    unfold Context.attach Context.indent
    rw [Text.indent_line hlink hblank, List.append_assoc]
    exact hreceiver.append (.link hmark (.refl hlink))

theorem Primary.not_mem_render {leaf : Primary} (hline : (Node.primary leaf).OnOneLine) :
    ∀ text, leaf.render = .ok text → '\n' ∉ text := by
  intro text h
  obtain ⟨hown, hchildren⟩ := (Node.onOneLine_iff _).1 hline
  cases leaf with
  | literal written =>
    cases h
    exact hown _ List.mem_cons_self
  | identifier name =>
    cases h
    exact hown _ List.mem_cons_self
  | this =>
    cases h
    decide
  | super =>
    cases h
    decide
  | path reference => exact reference.not_mem_render (hchildren _ List.mem_cons_self) text h
  | classLiteral reference =>
    obtain ⟨typeText, htype, h⟩ := Rendered.bind_eq_ok.1 h
    cases h
    rw [List.mem_append, not_or]
    exact ⟨reference.not_mem_render (hchildren _ List.mem_cons_self) _ htype, by decide⟩
  | query embedded => cases h

namespace Expression.BreaksOnly

theorem assignment {target value : Expression} {operator : Text} (hoperator : '\n' ∉ operator)
    (htarget : target.BreaksOnly flat) (hvalue : value.BreaksOnly flat) :
    BreaksOnly flat (.assignment target operator value) := by
  intro context outer
  rw [Expression.renderWithin, Expression.renderWithin]
  refine .shared fun _ _ => ?_
  refine (htarget context none).bind fun _ _ htarget => ?_
  refine (hvalue context none).bind fun _ _ hvalue => .pure ?_
  exact htarget.between hoperator hvalue

theorem conditional {condition thenValue elseValue : Expression}
    (hcondition : condition.BreaksOnly flat) (hthen : thenValue.BreaksOnly flat)
    (helse : elseValue.BreaksOnly flat) :
    BreaksOnly flat (.conditional condition thenValue elseValue) := by
  intro context outer
  rw [Expression.renderWithin, Expression.renderWithin]
  refine (hcondition context none).bind fun _ _ hcondition => ?_
  refine (hthen context none).bind fun _ _ hthen => ?_
  refine (helse context none).bind fun _ _ helse => .pure ?_
  exact (((hcondition.fixed " ? " (by decide)).append hthen).fixed " : " (by decide)).append helse

theorem binary {kind : BinaryKind} {left right : Expression} {operator : Text}
    (hoperator : '\n' ∉ operator) (hleft : left.BreaksOnly flat) (hright : right.BreaksOnly flat) :
    BreaksOnly flat (.binary kind operator left right) := by
  intro context outer
  rw [Expression.renderWithin, Expression.renderWithin]
  refine .shared fun _ _ => ?_
  refine (hleft context none).bind fun _ _ hleft => ?_
  refine (hright context none).bind fun _ _ hright => .pure ?_
  exact hleft.between hoperator hright

theorem unary {fixity : Fixity} {operator : Text} {operand : Expression}
    (hoperator : '\n' ∉ operator) (hoperand : operand.BreaksOnly flat) :
    BreaksOnly flat (.unary fixity operator operand) := by
  intro context outer
  rw [Expression.renderWithin, Expression.renderWithin]
  refine .shared fun _ _ => ?_
  refine (hoperand context none).bind fun _ _ hoperand => ?_
  cases fixity with
  | leading => exact .pure (hoperand.leading hoperator)
  | trailing => exact .pure (hoperand.fixed operator hoperator)

theorem cast {type : TypeRef} {operand : Expression} (htype : (Node.type type).OnOneLine)
    (hoperand : operand.BreaksOnly flat) : BreaksOnly flat (.cast type operand) := by
  intro context outer
  rw [Expression.renderWithin, Expression.renderWithin]
  refine .shared fun typeText hrender => ?_
  refine (hoperand context none).bind fun _ _ hoperand => .pure ?_
  have hline : '\n' ∉ "(" ++ typeText ++ ")" := by
    simp only [List.mem_append, not_or]
    exact ⟨⟨by decide, type.not_mem_render htype _ hrender⟩, by decide⟩
  exact (Breaks.refl hline).append hoperand

theorem instanceOf {operand : Expression} {type : TypeRef} (hoperand : operand.BreaksOnly flat)
    (htype : (Node.type type).OnOneLine) : BreaksOnly flat (.instanceOf operand type) := by
  intro context outer
  rw [Expression.renderWithin, Expression.renderWithin]
  refine (hoperand context none).bind fun _ _ hoperand => ?_
  refine .shared fun typeText hrender => .pure ?_
  exact (hoperand.fixed " instanceof " (by decide)).fixed typeText
    (type.not_mem_render htype _ hrender)

theorem creation (hflat : flat.inline = true) {type : TypeRef} {body : CreatorBody}
    (htype : (Node.type type).OnOneLine) (hitems : ∀ item ∈ body.inner, item.BreaksOnly flat) :
    BreaksOnly flat (.creation type body) := by
  intro context outer
  -- behind the type both runs keep chains on one line
  have hinline : body.render context.inlined = body.render flat :=
    CreatorBody.render_congr fun item _ => item.renderWithin_inline rfl hflat
  rw [Expression.renderWithin, Expression.renderWithin, hinline, Context.inlined_eq hflat]
  refine .shared fun typeText hrender => .shared fun bodyText hbody => .pure (.refl ?_)
  simp only [List.mem_append, not_or]
  exact ⟨⟨by decide, type.not_mem_render htype _ hrender⟩, CreatorBody.not_mem_render hitems hbody⟩

theorem arrayAccess {array index : Expression} (harray : array.BreaksOnly flat)
    (hindex : index.BreaksOnly flat) : BreaksOnly flat (.arrayAccess array index) := by
  intro context outer
  rw [Expression.renderWithin, Expression.renderWithin]
  refine (harray context none).bind fun _ _ harray => ?_
  refine (hindex context none).bind fun _ _ hindex => .pure ?_
  exact ((harray.fixed "[" (by decide)).append hindex).fixed "]" (by decide)

theorem chain (hflat : flat.inline = true) {receiver : Expression} {link : Link}
    (hreceiver : receiver.BreaksOnly flat) (hlink : (Node.link link).OnOneLine)
    (hitems : ∀ item ∈ link.inner, item.BreaksOnly flat) :
    BreaksOnly flat (.chain receiver link) := by
  intro context outer
  have hmember : '\n' ∉ link.member := ((Node.onOneLine_iff _).1 hlink).1 _ List.mem_cons_self
  have hlayout : ∀ calls, flat.chainLayout calls = .inline := fun calls => if_pos hflat
  -- the layout is handed down to the receiver, which is why the claim is for every outer layout
  rw [Expression.renderWithin, Expression.renderWithin, Option.getD_none, hlayout]
  simp only [renderWithin_layout hflat]
  refine (hreceiver context _).bind fun receiverText line hreceiver => ?_
  rw [link.render_eq (context.forLink _) flat]
  refine .shared fun linkText hlinkText => .pure ?_
  exact Context.attach_breaks hreceiver (Link.not_mem_render hflat hmember hitems hlinkText)
    (Link.head_render hlinkText)

theorem call (hflat : flat.inline = true) {name : Text} {arguments : List Expression}
    (hname : '\n' ∉ name) (hitems : ∀ item ∈ arguments, item.BreaksOnly flat) :
    BreaksOnly flat (.call name arguments) := by
  intro context outer
  have hinline : Expression.renderAll context.inlined arguments =
      Expression.renderAll flat arguments :=
    Expression.renderAll_congr fun item _ => item.renderWithin_inline rfl hflat
  rw [Expression.renderWithin, Expression.renderWithin, hinline, Context.inlined_eq hflat]
  refine .shared fun texts htexts => .pure (.refl ?_)
  simp only [List.mem_append, not_or]
  exact ⟨⟨⟨hname, by decide⟩, Expression.not_mem_renderAll hitems htexts⟩, by decide⟩

theorem parenthesized {inner : Expression} (hinner : inner.BreaksOnly flat) :
    BreaksOnly flat (.parenthesized inner) := by
  intro context outer
  rw [Expression.renderWithin, Expression.renderWithin]
  refine (hinner context none).bind fun _ _ hinner => .pure ?_
  exact ((Breaks.refl (by decide)).append hinner).fixed ")" (by decide)

theorem primary {leaf : Primary} (hleaf : (Node.primary leaf).OnOneLine) :
    BreaksOnly flat (.primary leaf) := by
  intro context outer
  rw [Expression.renderWithin, Expression.renderWithin]
  exact .refl (Primary.not_mem_render hleaf)

end Expression.BreaksOnly

/-- An expression whose texts break no line is printed with no breaks but those in front of links. -/
theorem Expression.breaksOnly (hflat : flat.inline = true) (expression : Expression)
    (h : (Node.expression expression).OnOneLine) : expression.BreaksOnly flat := by
  refine Node.OnOneLine.induction_expression ?assignment ?conditional ?binary ?unary ?cast
    ?instanceOf ?creation ?arrayAccess ?chain ?call ?parenthesized ?primary expression h
  case assignment => exact fun _ _ _ => .assignment
  case conditional => exact fun _ _ _ => .conditional
  case binary => exact fun _ _ _ _ => .binary
  case unary => exact fun _ _ _ => .unary
  case cast => exact fun _ _ => .cast
  case instanceOf => exact fun _ _ => .instanceOf
  case creation => exact fun _ _ htype _ => .creation hflat htype
  case arrayAccess => exact fun _ _ => .arrayAccess
  case chain => exact fun _ _ => .chain hflat
  case call => exact fun _ _ hname _ => .call hflat hname
  case parenthesized => exact fun _ => .parenthesized
  case primary => exact fun _ => .primary

end

/-- Layout changes only the blanks of an expression. It is printed where chains may be broken exactly
when it is printed where they stay on one line. Taking every newline out of the first text, together
with the unit behind it, then gives the second one, which has no newline and is the same for all
settings and depths. -/
theorem Expression.render_joinLines (expression : Expression)
    (h : (Node.expression expression).OnOneLine) (settings : Settings) (depth : Nat) :
    ((∃ text, expression.render ⟨settings, depth, false⟩ = .ok text) ↔
      ∃ line, expression.render ⟨settings, depth, true⟩ = .ok line) ∧
    (∀ text line, expression.render ⟨settings, depth, false⟩ = .ok text →
      expression.render ⟨settings, depth, true⟩ = .ok line →
        Text.joinLines? settings.indentUnit text = some line ∧ '\n' ∉ line) ∧
    ∀ (other : Settings) (level : Nat),
      expression.render ⟨other, level, true⟩ = expression.render ⟨settings, depth, true⟩ := by
  refine ⟨?_, fun text line htext hline => ?_, fun other level => ?_⟩
  · rw [(expression.reports_render _).isOk_iff, (expression.reports_render _).isOk_iff]
  · have hbreaks := expression.breaksOnly rfl h ⟨settings, depth, false⟩ none text line htext hline
    have hunit : '\n' ∉ settings.indentUnit := fun hmem =>
      ((Context.mk settings depth false).indentUnit_blank _ hmem).2 rfl
    exact ⟨hbreaks.joinLines? hunit, hbreaks.not_mem⟩
  · exact expression.renderWithin_inline rfl rfl

/-- A chain in an index is broken, a chain among its arguments is not, and the signs in front stay
apart. -/
theorem Expression.render_joinLines_chain :
    ∃ tree : Expression, (Node.expression tree).OnOneLine ∧
      tree.render ⟨{}, 1, false⟩ = .ok "- -rows[list\n\t.get()\n\t?.next(x.a().b())]".toList ∧
      Text.joinLines? ['\t'] "- -rows[list\n\t.get()\n\t?.next(x.a().b())]" =
        some "- -rows[list.get()?.next(x.a().b())]".toList := by
  let argument : Expression :=
    .chain (.chain (.primary (.identifier "x")) ⟨.dot, "a", some []⟩) ⟨.dot, "b", some []⟩
  let index : Expression := .chain (.chain (.primary (.identifier "list")) ⟨.dot, "get", some []⟩)
    ⟨.safeDot, "next", some [argument]⟩
  let tree : Expression :=
    .unary .leading "-" (.unary .leading "-" (.arrayAccess (.primary (.identifier "rows")) index))
  have hline : (Node.expression tree).OnOneLine := by
    simp [tree, index, argument, Node.onOneLine_iff (.expression _), Node.onOneLine_iff (.primary _),
      Node.onOneLine_iff (.link _), Node.children, Node.ownTexts, Link.inner]
  have htext : tree.render ⟨{}, 1, false⟩ =
      .ok "- -rows[list\n\t.get()\n\t?.next(x.a().b())]".toList := by rfl
  exact ⟨tree, hline, htext,
    ((Expression.render_joinLines tree hline {} 1).2.1 _ _ htext (by rfl)).1⟩

end ApexLayout
