import ApexLayout.Proofs.Breaks
import ApexLayout.Proofs.Faults
import Mathlib.Algebra.Order.BigOperators.Group.List
import Mathlib.Algebra.Order.Ring.Nat

/-!
Where chains are broken.

Outside arguments and creators every chain has a layout of its own, chosen by the number of its
calls: it breaks the line in front of each of its links, or nowhere. `Expression.chains` lists these
chains, so the newlines in the text of an expression can be counted without printing it, and a
higher threshold never makes it longer. Headers keep their chains on one line, so the first line of
an `if`, `while` or `for` statement is its whole header.
-/

namespace ApexLayout

namespace Expression

/-! ## The chains of an expression -/

/-- The chains outside arguments and creators. The expression may be the receiver of a longer chain,
whose links include its own. -/
def chainsFrom (receiver : Bool) : Expression → List Expression
  | .assignment target _ value => target.chainsFrom false ++ value.chainsFrom false
  | .conditional condition thenValue elseValue =>
    condition.chainsFrom false ++ thenValue.chainsFrom false ++ elseValue.chainsFrom false
  | .binary _ _ left right => left.chainsFrom false ++ right.chainsFrom false
  | .unary _ _ operand => operand.chainsFrom false
  | .cast _ operand => operand.chainsFrom false
  | .instanceOf operand _ => operand.chainsFrom false
  | .creation .. => []
  | .arrayAccess array index => array.chainsFrom false ++ index.chainsFrom false
  | .chain inner link => (if receiver then [] else [.chain inner link]) ++ inner.chainsFrom true
  | .call .. => []
  | .parenthesized inner => inner.chainsFrom false
  | .primary _ => []

/-- The chains outside arguments and creators, each as long as it goes. -/
def chains (expression : Expression) : List Expression := expression.chainsFrom false

/-- The lines that a chain is broken into behind the first: one for each link if it has enough
calls. -/
def breaks (threshold : Nat) (chain : Expression) : Nat :=
  if threshold ≤ chain.callCount then chain.linkCount else 0

/-- The number of newlines that the layout of its chains puts into the text of an expression. -/
def newlines (threshold : Nat) (expression : Expression) : Nat :=
  (expression.chains.map (breaks threshold)).sum

/-- The same inside a longer chain, which has the given layout. -/
def newlinesWithin (threshold : Nat) (outer : Option ChainLayout) (expression : Expression) : Nat :=
  ((expression.chainsFrom outer.isSome).map (breaks threshold)).sum +
    match outer with
    | some .exploded => expression.linkCount
    | _ => 0

/-- A higher threshold breaks no more chains. -/
theorem newlines_antitone {low high : Nat} (h : low ≤ high) (expression : Expression) :
    expression.newlines high ≤ expression.newlines low := by
  refine List.sum_le_sum fun chain _ => ?_
  unfold breaks
  by_cases hhigh : high ≤ chain.callCount
  · rw [if_pos hhigh, if_pos (h.trans hhigh)]
  · rw [if_neg hhigh]
    exact Nat.zero_le _

end Expression

/-! ## Counting newlines -/

namespace Text

theorem count_newline_fixed (text : Text) {fixed : Text} (h : '\n' ∉ fixed) :
    (text ++ fixed).count '\n' = text.count '\n' := by
  rw [List.count_append, List.count_eq_zero.2 h, Nat.add_zero]

/-- An operator between two texts, with a blank on each side. -/
theorem count_newline_between {left operator right : Text} (h : '\n' ∉ operator) :
    (left ++ " " ++ operator ++ " " ++ right).count '\n' = left.count '\n' + right.count '\n' := by
  rw [List.count_append, count_newline_fixed _ (by decide), count_newline_fixed _ h,
    count_newline_fixed _ (by decide)]

theorem count_newline_leading {operator operand : Text} (h : '\n' ∉ operator) :
    (leadingOperator operator operand).count '\n' = operand.count '\n' := by
  have hoperator : operator.count '\n' = 0 := List.count_eq_zero.2 h
  unfold leadingOperator
  dsimp only
  split
  · rw [List.count_append, count_newline_fixed _ (by decide), hoperator, Nat.zero_add]
  · rw [List.count_append, hoperator, Nat.zero_add]

/-- A text has one line more than newlines. -/
theorem length_lines (text : Text) : (lines text).length = text.count '\n' + 1 := by
  induction text with
  | nil => rfl
  | cons c rest ih =>
    by_cases hc : c = '\n'
    · rw [hc, lines_newline, List.length_cons, ih, List.count_cons_self]
    · obtain ⟨line, others, hlines, hcons⟩ := exists_lines_cons hc rest
      rw [hcons, List.count_cons_of_ne hc, ← ih, hlines, List.length_cons, List.length_cons]

end Text

/-- Whatever the run prints has the given number of newlines. -/
def Rendered.Counts (count : Nat) (run : Rendered) : Prop :=
  ∀ text, run = .ok text → text.count '\n' = count

namespace Rendered.Counts

variable {count total : Nat}

theorem pure {text : Text} (h : text.count '\n' = count) : Counts count (Pure.pure text) := by
  rintro _ ⟨⟩
  exact h

theorem bind {first : Rendered} {next : Text → Rendered} (h : Counts count first)
    (hnext : ∀ text, text.count '\n' = count → Counts total (next text)) :
    Counts total (first >>= next) := by
  intro text htext
  obtain ⟨inner, hfirst, htext⟩ := bind_eq_ok.1 htext
  exact hnext inner (h inner hfirst) text htext

/-- Behind a step whose result is known. -/
theorem after {α : Type} {first : Except RenderError α} {next : α → Rendered}
    (h : ∀ value, first = .ok value → Counts total (next value)) : Counts total (first >>= next) := by
  intro text htext
  obtain ⟨value, hfirst, htext⟩ := bind_eq_ok.1 htext
  exact h value hfirst text htext

end Rendered.Counts

/-- Where chains may be broken, an expression is printed with as many newlines as its chains are
broken into, in every layout of a chain around it. -/
def Expression.Counted (expression : Expression) : Prop :=
  ∀ (context : Context) (outer : Option ChainLayout), context.inline = false →
    Rendered.Counts (expression.newlinesWithin context.settings.chainThreshold outer)
      (expression.renderWithin context outer)

theorem Expression.Counted.alone {expression : Expression} (h : expression.Counted)
    {context : Context} (hcontext : context.inline = false) :
    Rendered.Counts (expression.newlines context.settings.chainThreshold)
      (expression.renderWithin context none) :=
  h context none hcontext

/-- What is no chain takes no part in a chain around it. -/
theorem Expression.Counted.other {expression : Expression} (h : expression.spine.2 = [])
    (hcount : ∀ context : Context, context.inline = false →
      Rendered.Counts (expression.newlines context.settings.chainThreshold)
        (expression.renderWithin context none)) : expression.Counted := by
  intro context outer hcontext
  have hnewlines : expression.newlinesWithin context.settings.chainThreshold outer =
      expression.newlines context.settings.chainThreshold := by
    cases expression with
    | chain receiver link => exact absurd h (List.append_ne_nil_of_right_ne_nil _ (List.cons_ne_nil _ _))
    | _ => rcases outer with _ | _ | _ <;> rfl
  have hrender : expression.renderWithin context outer = expression.renderWithin context none := by
    cases expression with
    | chain receiver link => exact absurd h (List.append_ne_nil_of_right_ne_nil _ (List.cons_ne_nil _ _))
    | _ => simp only [Expression.renderWithin]
  rw [hnewlines, hrender]
  exact hcount context hcontext

/-- A link costs a newline just where its chain is broken. -/
theorem Context.count_attach {context : Context} {layout : ChainLayout} {receiver link : Text}
    (hlink : '\n' ∉ link) (hmark : ∃ c rest, link = c :: rest ∧ (c = '.' ∨ c = '?')) :
    (context.attach layout receiver link).count '\n' =
      receiver.count '\n' + if layout = .exploded then 1 else 0 := by
  cases layout with
  | inline => exact Text.count_newline_fixed receiver hlink
  | exploded =>
    obtain ⟨c, rest, rfl, hmark⟩ := hmark
    have hblank : (c :: rest).all Text.isBlank = false := by
      rcases hmark with rfl | rfl <;> rfl
    have hunit := context.not_mem_indentUnit
    unfold attach Context.indent
    rw [Text.indent_line hlink hblank, Text.count_newline_fixed _ (by simp [hunit, hlink]),
      List.count_append]
    rfl

/-- The layout that a chain chooses for itself costs one newline for every link if it has enough
calls. -/
theorem Context.chainLayout_breaks {context : Context} (h : context.inline = false)
    (chain : Expression) :
    (if context.chainLayout chain.callCount = .exploded then chain.linkCount else 0) =
      chain.breaks context.settings.chainThreshold := by
  unfold chainLayout ChainLayout.ofCalls Expression.breaks
  rw [h, if_neg Bool.false_ne_true]
  by_cases hcalls : context.settings.chainThreshold ≤ chain.callCount
  · rw [if_pos hcalls, if_pos hcalls, if_pos rfl]
  · rw [if_neg hcalls, if_neg hcalls, if_neg nofun]

/-- A chain has the newlines of its receiver in the same layout, and one for its own link where that
layout breaks lines. -/
theorem Context.newlinesWithin_chain {context : Context} (h : context.inline = false)
    (outer : Option ChainLayout) (receiver : Expression) (link : Link) :
    Expression.newlinesWithin context.settings.chainThreshold outer (.chain receiver link) =
      receiver.newlinesWithin context.settings.chainThreshold
          (some (outer.getD (context.chainLayout (Expression.callCount (.chain receiver link))))) +
        if outer.getD (context.chainLayout (Expression.callCount (.chain receiver link))) = .exploded
        then 1 else 0 := by
  generalize hlayout :
    outer.getD (context.chainLayout (Expression.callCount (.chain receiver link))) = layout
  have hlinks : receiver.newlinesWithin context.settings.chainThreshold (some layout) +
      (if layout = .exploded then 1 else 0) =
      ((receiver.chainsFrom true).map (Expression.breaks context.settings.chainThreshold)).sum +
        if layout = .exploded then Expression.linkCount (.chain receiver link) else 0 := by
    cases layout <;> rfl
  rw [hlinks]
  cases outer with
  | none =>
    -- nothing is around the chain, so it stands among the chains itself and chose its layout
    obtain rfl : context.chainLayout _ = layout := hlayout
    rw [Context.chainLayout_breaks h, Nat.add_comm]
    rfl
  | some outer =>
    obtain rfl : outer = layout := hlayout
    cases outer <;> rfl

/-! ## Counting by the form of an expression -/

namespace Expression.Counted

theorem assignment {target value : Expression} {operator : Text} (hoperator : '\n' ∉ operator)
    (htarget : target.Counted) (hvalue : value.Counted) :
    Counted (.assignment target operator value) := by
  refine .other rfl fun context hcontext => ?_
  rw [Expression.renderWithin]
  refine .after fun _ _ => ?_
  refine (htarget.alone hcontext).bind fun _ htarget => ?_
  refine (hvalue.alone hcontext).bind fun _ hvalue => .pure ?_
  rw [Text.count_newline_between hoperator, htarget, hvalue]
  simp only [newlines, chains, chainsFrom, List.map_append, List.sum_append]

theorem conditional {condition thenValue elseValue : Expression} (hcondition : condition.Counted)
    (hthen : thenValue.Counted) (helse : elseValue.Counted) :
    Counted (.conditional condition thenValue elseValue) := by
  refine .other rfl fun context hcontext => ?_
  rw [Expression.renderWithin]
  refine (hcondition.alone hcontext).bind fun _ hcondition => ?_
  refine (hthen.alone hcontext).bind fun _ hthen => ?_
  refine (helse.alone hcontext).bind fun _ helse => .pure ?_
  rw [List.count_append, Text.count_newline_fixed _ (by decide), List.count_append,
    Text.count_newline_fixed _ (by decide), hcondition, hthen, helse]
  simp only [newlines, chains, chainsFrom, List.map_append, List.sum_append]

theorem binary {kind : BinaryKind} {left right : Expression} {operator : Text}
    (hoperator : '\n' ∉ operator) (hleft : left.Counted) (hright : right.Counted) :
    Counted (.binary kind operator left right) := by
  refine .other rfl fun context hcontext => ?_
  rw [Expression.renderWithin]
  refine .after fun _ _ => ?_
  refine (hleft.alone hcontext).bind fun _ hleft => ?_
  refine (hright.alone hcontext).bind fun _ hright => .pure ?_
  rw [Text.count_newline_between hoperator, hleft, hright]
  simp only [newlines, chains, chainsFrom, List.map_append, List.sum_append]

theorem unary {fixity : Fixity} {operator : Text} {operand : Expression}
    (hoperator : '\n' ∉ operator) (hoperand : operand.Counted) :
    Counted (.unary fixity operator operand) := by
  refine .other rfl fun context hcontext => ?_
  rw [Expression.renderWithin]
  refine .after fun _ _ => ?_
  refine (hoperand.alone hcontext).bind fun _ hoperand => ?_
  cases fixity with
  | leading => exact .pure ((Text.count_newline_leading hoperator).trans hoperand)
  | trailing => exact .pure ((Text.count_newline_fixed _ hoperator).trans hoperand)

theorem cast {type : TypeRef} {operand : Expression} (htype : (Node.type type).OnOneLine)
    (hoperand : operand.Counted) : Counted (.cast type operand) := by
  refine .other rfl fun context hcontext => ?_
  rw [Expression.renderWithin]
  refine .after fun typeText hrender => ?_
  refine (hoperand.alone hcontext).bind fun _ hoperand => .pure ?_
  rw [List.count_append, Text.count_newline_fixed _ (by decide),
    Text.count_newline_fixed _ (type.not_mem_render htype _ hrender), hoperand]
  exact Nat.zero_add _

theorem instanceOf {operand : Expression} {type : TypeRef} (hoperand : operand.Counted)
    (htype : (Node.type type).OnOneLine) : Counted (.instanceOf operand type) := by
  refine .other rfl fun context hcontext => ?_
  rw [Expression.renderWithin]
  refine (hoperand.alone hcontext).bind fun _ hoperand => ?_
  refine .after fun typeText hrender => .pure ?_
  rw [Text.count_newline_fixed _ (type.not_mem_render htype _ hrender),
    Text.count_newline_fixed _ (by decide), hoperand]
  rfl

/-- What follows the type keeps its chains on one line. -/
theorem creation {type : TypeRef} {body : CreatorBody} (htype : (Node.type type).OnOneLine)
    (hbody : (Node.creatorBody body).OnOneLine) : Counted (.creation type body) := by
  refine .other rfl fun context hcontext => ?_
  have hitems : ∀ item ∈ body.inner, item.BreaksOnly context.inlined := fun item hitem =>
    item.breaksOnly rfl (((Node.onOneLine_iff _).1 hbody).2 _ (List.mem_map_of_mem hitem))
  rw [Expression.renderWithin]
  refine .after fun typeText hrender => .after fun bodyText hbodyText => .pure ?_
  rw [Text.count_newline_fixed _ (CreatorBody.not_mem_render hitems hbodyText),
    Text.count_newline_fixed _ (type.not_mem_render htype _ hrender)]
  rfl

theorem arrayAccess {array index : Expression} (harray : array.Counted) (hindex : index.Counted) :
    Counted (.arrayAccess array index) := by
  refine .other rfl fun context hcontext => ?_
  rw [Expression.renderWithin]
  refine (harray.alone hcontext).bind fun _ harray => ?_
  refine (hindex.alone hcontext).bind fun _ hindex => .pure ?_
  rw [Text.count_newline_fixed _ (by decide), List.count_append,
    Text.count_newline_fixed _ (by decide), harray, hindex]
  simp only [newlines, chains, chainsFrom, List.map_append, List.sum_append]

theorem chain {receiver : Expression} {link : Link} (hreceiver : receiver.Counted)
    (hlink : (Node.link link).OnOneLine) : Counted (.chain receiver link) := by
  intro context outer hcontext
  obtain ⟨hown, hinner⟩ := (Node.onOneLine_iff _).1 hlink
  have hmember : '\n' ∉ link.member := hown _ List.mem_cons_self
  have hitems : ∀ item ∈ link.inner, item.BreaksOnly context.inlined := fun item hitem =>
    item.breaksOnly rfl (hinner _ (List.mem_map_of_mem hitem))
  rw [Expression.renderWithin]
  -- the layout is the same for the receiver and for the link
  generalize hlayout : outer.getD (context.chainLayout (callCount (.chain receiver link))) = layout
  refine (hreceiver context (some layout) hcontext).bind fun receiverText hreceiver => ?_
  refine .after fun linkText hlinkText => .pure ?_
  have hmark := Link.head_render hlinkText
  rw [link.render_eq (context.forLink layout) context.inlined] at hlinkText
  rw [Context.count_attach (Link.not_mem_render rfl hmember hitems hlinkText) hmark, hreceiver,
    Context.newlinesWithin_chain hcontext, hlayout]

/-- Arguments keep their chains on one line. -/
theorem call {name : Text} {arguments : List Expression} (hname : '\n' ∉ name)
    (hline : ∀ item ∈ arguments, (Node.expression item).OnOneLine) :
    Counted (.call name arguments) := by
  refine .other rfl fun context hcontext => ?_
  have hitems : ∀ item ∈ arguments, item.BreaksOnly context.inlined := fun item hitem =>
    item.breaksOnly rfl (hline item hitem)
  rw [Expression.renderWithin]
  refine .after fun texts htexts => .pure ?_
  rw [Text.count_newline_fixed _ (by decide),
    Text.count_newline_fixed _ (Expression.not_mem_renderAll hitems htexts),
    Text.count_newline_fixed _ (by decide), List.count_eq_zero.2 hname]
  rfl

theorem parenthesized {inner : Expression} (hinner : inner.Counted) :
    Counted (.parenthesized inner) := by
  refine .other rfl fun context hcontext => ?_
  rw [Expression.renderWithin]
  refine (hinner.alone hcontext).bind fun _ hinner => .pure ?_
  rw [Text.count_newline_fixed _ (by decide), List.count_append, hinner]
  exact Nat.zero_add _

theorem primary {leaf : Primary} (hleaf : (Node.primary leaf).OnOneLine) :
    Counted (.primary leaf) := by
  refine .other rfl fun context hcontext => ?_
  rw [Expression.renderWithin]
  intro text htext
  exact List.count_eq_zero.2 (Primary.not_mem_render hleaf text htext)

end Expression.Counted

/-- An expression whose texts break no line is printed with the newlines of its chains. -/
theorem Expression.counted (expression : Expression) (h : (Node.expression expression).OnOneLine) :
    expression.Counted := by
  refine Node.OnOneLine.induction_expression ?assignment ?conditional ?binary ?unary ?cast
    ?instanceOf ?creation ?arrayAccess ?chain ?call ?parenthesized ?primary expression h
  case assignment => exact fun _ _ _ => .assignment
  case conditional => exact fun _ _ _ => .conditional
  case binary => exact fun _ _ _ _ => .binary
  case unary => exact fun _ _ _ => .unary
  case cast => exact fun _ _ => .cast
  case instanceOf => exact fun _ _ => .instanceOf
  case creation => exact fun _ _ htype hbody _ => .creation htype hbody
  case arrayAccess => exact fun _ _ => .arrayAccess
  case chain => exact fun _ _ hreceiver hlink _ => .chain hreceiver hlink
  case call => exact fun _ _ hname hline _ => .call hname hline
  case parenthesized => exact fun _ => .parenthesized
  case primary => exact fun _ => .primary

/-! ## Headers -/

section

variable {context : Context}

theorem Modifier.not_mem_renderAll {modifiers : List Modifier}
    (h : ∀ modifier ∈ modifiers, '\n' ∉ modifier) : '\n' ∉ Modifier.renderAll modifiers := by
  unfold Modifier.renderAll
  intro hmem
  obtain ⟨piece, hpiece, hmem⟩ := List.mem_flatten.1 hmem
  obtain ⟨modifier, hmodifier, rfl⟩ := List.mem_map.1 hpiece
  rcases List.mem_append.1 hmem with hmem | hmem
  · exact h modifier hmodifier hmem
  · exact absurd hmem (by decide)

/-- Where chains stay on one line, an expression is printed on one. -/
theorem Expression.not_mem_render (hinline : context.inline = true) {expression : Expression}
    (hline : (Node.expression expression).OnOneLine) :
    ∀ text, expression.render context = .ok text → '\n' ∉ text :=
  (expression.breaksOnly hinline hline).not_mem

theorem Declarator.not_mem_render (hinline : context.inline = true) {declarator : Declarator}
    (hline : (Node.declarator declarator).OnOneLine) :
    ∀ text, declarator.render context = .ok text → '\n' ∉ text := by
  intro text h
  obtain ⟨hown, hchildren⟩ := (Node.onOneLine_iff _).1 hline
  have hname : '\n' ∉ declarator.name := hown _ List.mem_cons_self
  obtain ⟨name, initializer⟩ := declarator
  cases initializer with
  | none =>
    cases h
    exact hname
  | some value =>
    obtain ⟨valueText, hvalue, h⟩ := Rendered.bind_eq_ok.1 h
    cases h
    simp only [List.mem_append, not_or]
    exact ⟨⟨hname, by decide⟩,
      Expression.not_mem_render hinline (hchildren _ List.mem_cons_self) _ hvalue⟩

theorem VariableDeclaration.not_mem_render (hinline : context.inline = true)
    {declaration : VariableDeclaration} (hline : (Node.localVariable declaration).OnOneLine)
    (kind : NodeKind) : ∀ text, declaration.render context kind = .ok text → '\n' ∉ text := by
  intro text h
  obtain ⟨hmodifiers, hchildren⟩ := (Node.onOneLine_iff _).1 hline
  obtain ⟨htype, hdeclarators⟩ := List.forall_mem_cons.1 hchildren
  obtain ⟨typeText, hrender, h⟩ := Rendered.bind_eq_ok.1 h
  obtain ⟨names, hnames, h⟩ := Rendered.bind_eq_ok.1 h
  cases h
  unfold Declarator.renderList at hnames
  split at hnames
  · cases hnames
  obtain ⟨texts, htexts, hnames⟩ := Rendered.bind_eq_ok.1 hnames
  cases hnames
  simp only [List.mem_append, not_or]
  refine ⟨⟨⟨Modifier.not_mem_renderAll hmodifiers, ?_⟩, by decide⟩, ?_⟩
  · exact declaration.type.not_mem_render htype _ hrender
  · exact Text.not_mem_join (by decide) (Rendered.mapM_forall htexts fun item hitem =>
      Declarator.not_mem_render hinline (hdeclarators _ (List.mem_map_of_mem hitem)))

theorem Expression.not_mem_renderAll_inline (hinline : context.inline = true)
    {items : List Expression} (hline : ∀ item ∈ items, (Node.expression item).OnOneLine) :
    ∀ texts, Expression.renderAll context items = .ok texts → '\n' ∉ Text.join ", " texts :=
  fun _ => Expression.not_mem_renderAll fun item hitem => item.breaksOnly hinline (hline item hitem)

theorem ForInit.not_mem_render (hinline : context.inline = true) {init : ForInit}
    (hline : (Node.forInit init).OnOneLine) :
    ∀ text, init.render context = .ok text → '\n' ∉ text := by
  intro text h
  obtain ⟨-, hchildren⟩ := (Node.onOneLine_iff _).1 hline
  cases init with
  | «variables» declaration =>
    exact declaration.not_mem_render hinline (hchildren _ List.mem_cons_self) _ text h
  | expressions items =>
    obtain ⟨texts, htexts, h⟩ := Rendered.bind_eq_ok.1 h
    cases h
    exact Expression.not_mem_renderAll_inline hinline (List.forall_mem_map.1 hchildren) texts htexts

theorem Rendered.option_forall {α : Type} {render : α → Rendered} {item : Option α}
    {text : Option Text} {good : Text → Prop} (h : item.mapM render = .ok text)
    (hgood : ∀ value ∈ item, ∀ written, render value = .ok written → good written) :
    ∀ written ∈ text, good written := by
  rcases Rendered.option_eq_ok h with ⟨rfl, rfl⟩ | ⟨value, written, rfl, rfl, hwritten⟩
  · exact nofun
  · rintro _ ⟨⟩
    exact hgood value rfl written hwritten

theorem headerPart_not_mem {part : Option Text} (h : ∀ text ∈ part, '\n' ∉ text) :
    '\n' ∉ headerPart part := by
  cases part with
  | none => exact List.not_mem_nil
  | some text =>
    rw [headerPart, List.mem_append, not_or]
    exact ⟨by decide, h text rfl⟩

/-- The header of a `for` loop is printed on one line. -/
theorem ForControl.not_mem_render (hinline : context.inline = true) {control : ForControl}
    (hline : (Node.forControl control).OnOneLine) :
    ∀ text, control.render context = .ok text → '\n' ∉ text := by
  intro text h
  obtain ⟨hown, hchildren⟩ := (Node.onOneLine_iff _).1 hline
  cases control with
  | each modifiers type name iterable =>
    obtain ⟨hname, hmodifiers⟩ := List.forall_mem_cons.1 hown
    obtain ⟨htype, hiterable⟩ := List.forall_mem_cons.1 hchildren
    obtain ⟨typeText, htypeText, h⟩ := Rendered.bind_eq_ok.1 h
    obtain ⟨iterableText, hiterableText, h⟩ := Rendered.bind_eq_ok.1 h
    cases h
    simp only [List.mem_append, not_or]
    exact ⟨⟨⟨⟨⟨Modifier.not_mem_renderAll hmodifiers, type.not_mem_render htype _ htypeText⟩,
      by decide⟩, hname⟩, by decide⟩,
      Expression.not_mem_render hinline (hiterable _ List.mem_cons_self) _ hiterableText⟩
  | counting init condition update =>
    obtain ⟨hinit, hothers⟩ := List.forall_mem_append.1 hchildren
    have hitems := List.forall_mem_map.1 hothers
    obtain ⟨initText, hinitText, h⟩ := Rendered.bind_eq_ok.1 h
    obtain ⟨conditionText, hconditionText, h⟩ := Rendered.bind_eq_ok.1 h
    obtain ⟨updateTexts, hupdateTexts, h⟩ := Rendered.bind_eq_ok.1 h
    cases h
    have hstart : ∀ text ∈ initText, '\n' ∉ text := Rendered.option_forall hinitText fun init hmem =>
      init.not_mem_render hinline (hinit _ (List.mem_map_of_mem (Option.mem_toList.2 hmem)))
    have htest : ∀ text ∈ conditionText, '\n' ∉ text :=
      Rendered.option_forall hconditionText fun test hmem =>
        Expression.not_mem_render hinline
          (hitems test (List.mem_append_left _ (Option.mem_toList.2 hmem)))
    -- every part that is there is printed inline, and what joins the steps is a comma
    have hsteps : '\n' ∉ Text.join ", " updateTexts :=
      Expression.not_mem_renderAll_inline hinline
        (fun item hitem => hitems item (List.mem_append_right _ hitem)) updateTexts hupdateTexts
    simp only [List.mem_append, not_or]
    refine ⟨⟨⟨⟨?_, by decide⟩, headerPart_not_mem htest⟩, by decide⟩, headerPart_not_mem ?_⟩
    · cases initText with
      | none => exact List.not_mem_nil
      | some text => exact hstart text rfl
    · intro text htext
      split at htext
      · cases htext
      · cases htext
        exact hsteps

end

/-! ## First lines -/

/-- The header of an `if`, `while` or `for` statement. -/
def Statement.header? (context : Context) : Statement → Option Rendered
  | .ifElse condition _ _ => some do return "if (" ++ (← condition.render context) ++ ")"
  | .whileLoop condition _ => some do return "while (" ++ (← condition.render context) ++ ")"
  | .forLoop control _ => some do return "for (" ++ (← control.render context) ++ ")"
  | _ => none

theorem Text.first_line {line : Text} (rest : Text) (h : '\n' ∉ line) :
    (lines (line ++ '\n' :: rest)).head? = some line := by
  rw [lines_append h (lines_newline rest), List.head?_cons, List.append_nil]

/-- A body that is enclosed opens a brace and goes on in the next line. -/
theorem Statement.enclose_opens {context : Context} {body : Statement} {text : Text}
    (h : body.render (context.body body.isBlock) = .ok text) :
    ∃ rest, context.enclose body.isBlock text = '{' :: '\n' :: rest := by
  have hbraced : ∀ (context : Context) (inside : Text),
      ∃ rest, context.braced inside = '{' :: '\n' :: rest := by
    intro context inside
    unfold Context.braced Text.braced
    split
    · exact ⟨_, rfl⟩
    · exact ⟨_, rfl⟩
  cases body with
  | block items =>
    rw [Statement.render] at h
    obtain ⟨texts, -, h⟩ := Rendered.bind_eq_ok.1 h
    cases h
    exact hbraced _ _
  | _ => exact hbraced context text

/-- What stands in front of a body up to its brace is the first line. -/
theorem Statement.first_line_of_header {header body text : Text} (hheader : '\n' ∉ header)
    (hbody : ∃ rest, body = '{' :: '\n' :: rest) (htext : ∃ rest, text = header ++ " " ++ body ++ rest) :
    (Text.lines text).head? = some (header ++ " \x7b") := by
  obtain ⟨rest, rfl⟩ := hbody
  obtain ⟨behind, rfl⟩ := htext
  have hline : '\n' ∉ header ++ " \x7b" := by
    rw [List.mem_append, not_or]
    exact ⟨hheader, by decide⟩
  have hcut : header ++ " " ++ '{' :: '\n' :: rest ++ behind =
      (header ++ " \x7b") ++ '\n' :: (rest ++ behind) := by simp
  rw [hcut, Text.first_line _ hline]

/-- The first line of an `if`, `while` or `for` statement is its header with the brace behind it. -/
theorem Statement.first_line {statement : Statement} (hline : (Node.statement statement).OnOneLine)
    {context : Context} {header : Rendered} {text : Text}
    (hheader : statement.header? context.inlined = some header)
    (h : statement.render context = .ok text) :
    ∃ line, header = .ok line ∧ (Text.lines text).head? = some (line ++ " \x7b") := by
  obtain ⟨-, hchildren⟩ := (Node.onOneLine_iff _).1 hline
  -- between keyword and brace stands the condition, which was printed inline
  have hparts : ∀ {first inside : Text}, '\n' ∉ first → '\n' ∉ inside →
      '\n' ∉ first ++ inside ++ ")" := by
    intro first inside hfirst hinside
    simp only [List.mem_append, not_or]
    exact ⟨⟨hfirst, hinside⟩, by decide⟩
  cases statement with
  | ifElse condition thenBranch elseBranch =>
    cases hheader
    rw [Statement.render] at h
    obtain ⟨conditionText, hcondition, h⟩ := Rendered.bind_eq_ok.1 h
    obtain ⟨thenText, hthen, h⟩ := Rendered.bind_eq_ok.1 h
    refine ⟨"if (" ++ conditionText ++ ")", by rw [hcondition]; rfl, ?_⟩
    have hone := Expression.not_mem_render rfl (hchildren _ List.mem_cons_self) _ hcondition
    refine first_line_of_header (hparts (by decide) hone) (enclose_opens hthen) ?_
    cases elseBranch with
    | none =>
      cases h
      exact ⟨[], by simp⟩
    | some branch =>
      obtain ⟨elseText, -, h⟩ := Rendered.bind_eq_ok.1 h
      cases h
      refine ⟨" else " ++ context.enclose (branch.isBlock || branch.isIf) elseText, ?_⟩
      simp
  | whileLoop condition body =>
    cases hheader
    rw [Statement.render] at h
    obtain ⟨conditionText, hcondition, h⟩ := Rendered.bind_eq_ok.1 h
    obtain ⟨bodyText, hbody, h⟩ := Rendered.bind_eq_ok.1 h
    cases h
    refine ⟨"while (" ++ conditionText ++ ")", by rw [hcondition]; rfl, ?_⟩
    have hone := Expression.not_mem_render rfl (hchildren _ List.mem_cons_self) _ hcondition
    exact first_line_of_header (hparts (by decide) hone) (enclose_opens hbody) ⟨[], by simp⟩
  | forLoop control body =>
    cases hheader
    rw [Statement.render] at h
    obtain ⟨controlText, hcontrol, h⟩ := Rendered.bind_eq_ok.1 h
    obtain ⟨bodyText, hbody, h⟩ := Rendered.bind_eq_ok.1 h
    cases h
    refine ⟨"for (" ++ controlText ++ ")", by rw [hcontrol]; rfl, ?_⟩
    have hone := ForControl.not_mem_render rfl (hchildren _ List.mem_cons_self) _ hcontrol
    exact first_line_of_header (hparts (by decide) hone) (enclose_opens hbody) ⟨[], by simp⟩
  | _ => cases hheader

/-! ## The policy -/

/-- Chains are broken exactly where the policy says. The newlines in the text of an expression are the
links of its chains outside arguments and creators that have enough calls, so with a higher threshold
the text has no more lines; and the first line of an `if`, `while` or `for` statement is its header,
printed with all chains on one line, with the brace behind it. -/
theorem render_breaks_by_threshold :
    (∀ (expression : Expression) (settings : Settings) (depth : Nat) (text : Text),
      (Node.expression expression).OnOneLine →
      expression.render ⟨settings, depth, false⟩ = .ok text →
      text.count '\n' = (expression.chains.map fun chain =>
        if settings.chainThreshold ≤ chain.callCount then chain.linkCount else 0).sum ∧
      ∀ (other : Settings) (level : Nat), settings.chainThreshold ≤ other.chainThreshold →
        ∃ more, expression.render ⟨other, level, false⟩ = .ok more ∧
          (Text.lines more).length ≤ (Text.lines text).length) ∧
    ∀ (statement : Statement) (context : Context) (header : Rendered) (text : Text),
      (Node.statement statement).OnOneLine → statement.header? context.inlined = some header →
      statement.render context = .ok text →
      ∃ line, header = .ok line ∧ (Text.lines text).head? = some (line ++ " \x7b") := by
  refine ⟨fun expression settings depth text hline htext => ?_, ?_⟩
  · have hcount := expression.counted hline ⟨settings, depth, false⟩ none rfl text htext
    refine ⟨hcount, fun other level hless => ?_⟩
    obtain ⟨more, hmore⟩ : ∃ more, expression.render ⟨other, level, false⟩ = .ok more := by
      rw [(expression.reports_render _).isOk_iff, ← (expression.reports_render _).isOk_iff]
      exact ⟨text, htext⟩
    have hother := expression.counted hline ⟨other, level, false⟩ none rfl more hmore
    refine ⟨more, hmore, ?_⟩
    rw [Text.length_lines, Text.length_lines, hcount, hother]
    exact Nat.succ_le_succ (Expression.newlines_antitone hless expression)
  · exact fun statement context header text hline hheader htext =>
      Statement.first_line hline hheader htext

/-- A chain of three links on an index with a chain of two, and a chain in an argument that is never
broken: five newlines, and none with a threshold of three. The same tree as a condition stays in the
first line. -/
theorem render_breaks_by_threshold_nested :
    ∃ tree : Expression, (Node.expression tree).OnOneLine ∧
      tree.render ⟨{}, 0, false⟩ = .ok
        "rows[list\n\t.get()\n\t.next(x.a().b())]\n\t.size\n\t.clone()\n\t.trim()".toList ∧
      (tree.chains.map fun chain => if 2 ≤ chain.callCount then chain.linkCount else 0) = [3, 2] ∧
      (∃ more, tree.render ⟨{ ({} : Settings) with chainThreshold := 3 }, 4, false⟩ = .ok more ∧
        (Text.lines more).length ≤ 6) ∧
      ∃ text, Statement.render ⟨{}, 0, false⟩ (.whileLoop tree .breakLoop) = .ok text ∧
        (Text.lines text).head? =
          some "while (rows[list.get().next(x.a().b())].size.clone().trim()) \x7b".toList := by
  let argument : Expression :=
    .chain (.chain (.primary (.identifier "x")) ⟨.dot, "a", some []⟩) ⟨.dot, "b", some []⟩
  let index : Expression := .chain (.chain (.primary (.identifier "list")) ⟨.dot, "get", some []⟩)
    ⟨.dot, "next", some [argument]⟩
  let tree : Expression := .chain (.chain (.chain (.arrayAccess (.primary (.identifier "rows")) index)
    ⟨.dot, "size", none⟩) ⟨.dot, "clone", some []⟩) ⟨.dot, "trim", some []⟩
  have htree : (Node.expression tree).OnOneLine := by
    simp [tree, index, argument, Node.onOneLine_iff (.expression _), Node.onOneLine_iff (.primary _),
      Node.onOneLine_iff (.link _), Node.children, Node.ownTexts, Link.inner]
  have hloop : (Node.statement (.whileLoop tree .breakLoop)).OnOneLine := by
    simp [Node.onOneLine_iff (.statement _), Node.children, Node.ownTexts, htree]
  have htext : tree.render ⟨{}, 0, false⟩ = .ok
      "rows[list\n\t.get()\n\t.next(x.a().b())]\n\t.size\n\t.clone()\n\t.trim()".toList := by
    decide +kernel +zetaReduce
  have hlines : (Text.lines
      "rows[list\n\t.get()\n\t.next(x.a().b())]\n\t.size\n\t.clone()\n\t.trim()").length = 6 := by
    decide +kernel
  obtain ⟨-, hmore⟩ := render_breaks_by_threshold.1 tree {} 0 _ htree htext
  rw [hlines] at hmore
  have hline : tree.render ⟨{}, 0, true⟩ =
      .ok "rows[list.get().next(x.a().b())].size.clone().trim()".toList := by
    decide +kernel +zetaReduce
  have hchains : (tree.chains.map fun chain => if 2 ≤ chain.callCount then chain.linkCount else 0) =
      [3, 2] := by decide +kernel +zetaReduce
  obtain ⟨text, hstatement⟩ : ∃ text,
      Statement.render ⟨{}, 0, false⟩ (.whileLoop tree .breakLoop) = .ok text := by
    rw [Statement.render, Context.inlined, hline]
    exact ⟨_, rfl⟩
  obtain ⟨line, hheader, hfirst⟩ := render_breaks_by_threshold.2 _ _ _ text hloop rfl hstatement
  refine ⟨tree, htree, htext, hchains, hmore _ 4 (by decide), text, hstatement, ?_⟩
  rw [Context.inlined, hline] at hheader
  cases hheader
  have hwritten : "while (".toList ++ "rows[list.get().next(x.a().b())].size.clone().trim()".toList ++
      ")".toList ++ " \x7b".toList =
        "while (rows[list.get().next(x.a().b())].size.clone().trim()) \x7b".toList := by decide +kernel
  exact hfirst.trans (congrArg some hwritten)

end ApexLayout
