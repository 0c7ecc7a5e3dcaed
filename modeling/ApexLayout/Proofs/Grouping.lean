import ApexLayout.Proofs.Runs
import ApexLayout.Tree.Equality

/-!
How operators group.

`Grouped` says of one node that its operands bind tightly enough. Every node of every tree that is
read is grouped: a flat row of operands is assembled behind a stack of pending operators whose
precedences rise towards the operand read last, and closing one keeps that.
-/

namespace ApexLayout

/-! ## Levels -/

namespace Expression

/-- Whether the expression is an assignment. -/
def isAssignment : Expression → Bool
  | .assignment .. => true
  | _ => false

/-- Whether the expression is a conditional. -/
def isConditional : Expression → Bool
  | .conditional .. => true
  | _ => false

/-- Whether the expression is a primary, perhaps with steps behind it. -/
def isPostfix : Expression → Bool
  | .unary .trailing _ _ => true
  | .creation .. => true
  | .arrayAccess .. => true
  | .chain .. => true
  | .call .. => true
  | .parenthesized _ => true
  | .primary _ => true
  | _ => false

/-- Whether the expression has no binary operator, type test, condition or assignment on its
outside. -/
def isUnary : Expression → Bool
  | .unary .leading _ _ => true
  | .cast .. => true
  | other => other.isPostfix

/-- An operand on the left of an operator of the given precedence. -/
def LeftOperand (level : Nat) : Expression → Prop
  | .instanceOf .. => True
  | .binary _ operator _ _ =>
    ∃ found, BinaryOperator.ofText? operator = some found ∧ level ≤ found.precedence
  | other => other.isUnary = true

/-- An operand on the right of an operator of the given precedence. -/
def RightOperand (level : Nat) : Expression → Prop
  | .instanceOf .. => level < Operators.instanceOfPrecedence
  | .binary _ operator _ _ =>
    ∃ found, BinaryOperator.ofText? operator = some found ∧ level < found.precedence
  | other => other.isUnary = true

/-- The node's operands bind tightly enough for its operator. -/
def Grouped : Expression → Prop
  | .assignment target operator _ =>
    target.isAssignment = false ∧
      operator ∈ Operators.assignments ++ [[ '>', '>', '=' ], [ '>', '>', '>', '=' ]]
  | .conditional condition _ elseValue =>
    condition.isAssignment = false ∧ condition.isConditional = false ∧
      elseValue.isAssignment = false
  | .binary kind operator left right =>
    ∃ found, BinaryOperator.ofText? operator = some found ∧ kind = found.kind ∧
      LeftOperand found.precedence left ∧ RightOperand found.precedence right
  | .instanceOf operand _ => LeftOperand Operators.instanceOfPrecedence operand
  | .unary .leading operator operand => operator ∈ Operators.leading ∧ operand.isUnary = true
  | .cast _ operand =>
    operand.isUnary = true ∧ ∀ operator inner, operand = .unary .leading operator inner →
      operator ∈ [[ '!' ], [ '~' ]]
  | .unary .trailing operator operand => operator ∈ Operators.trailing ∧ operand.isPostfix = true
  | .arrayAccess array _ => array.isPostfix = true
  | .chain receiver _ => receiver.isPostfix = true
  | _ => True

/-- Every node inside the expression is grouped. -/
def GroupedAll (expression : Expression) : Prop := ∀ node ∈ expression.within, node.Grouped

theorem isUnary_of_isPostfix {expression : Expression} (h : expression.isPostfix = true) :
    expression.isUnary = true := by
  cases expression with
  | unary fixity operator operand => cases fixity <;> rfl
  | _ => first | rfl | exact h

theorem leftOperand_of_isUnary {expression : Expression} (h : expression.isUnary = true)
    (level : Nat) : LeftOperand level expression := by
  cases expression with
  | binary => cases h
  | instanceOf => trivial
  | _ => exact h

theorem rightOperand_of_isUnary {expression : Expression} (h : expression.isUnary = true)
    (level : Nat) : RightOperand level expression := by
  cases expression with
  | binary => cases h
  | instanceOf => cases h
  | _ => exact h

/-- What may stand on the right of an operator is no assignment and no conditional. -/
theorem RightOperand.plain {level : Nat} {expression : Expression}
    (h : RightOperand level expression) :
    expression.isAssignment = false ∧ expression.isConditional = false := by
  cases expression with
  | assignment => cases h
  | conditional => cases h
  | _ => exact ⟨rfl, rfl⟩

theorem groupedAll_of_forall {items : List Expression} (h : ∀ item ∈ items, item.GroupedAll) :
    ∀ node ∈ items.flatMap within, node.Grouped := by
  intro node hnode
  obtain ⟨item, hitem, hnode⟩ := List.mem_flatMap.1 hnode
  exact h item hitem node hnode

end Expression

/-! ## Assembling a row -/

theorem BinaryOperator.precedence_pos {text : Text} {operator : BinaryOperator}
    (h : BinaryOperator.ofText? text = some operator) : 0 < operator.precedence := by
  have hall : ∀ operator ∈ BinaryOperator.all, 0 < operator.precedence := by decide
  exact hall operator (List.mem_of_find?_eq_some h)

namespace Operators

open Expression

/-- The pending operands of a row, innermost first: operators bind more and more tightly, and each
left operand fits its operator. -/
def Stacked : List Pending → Prop
  | [] => True
  | pending :: outer =>
    (BinaryOperator.ofText? pending.operator.text = some pending.operator ∧
      LeftOperand pending.operator.precedence pending.left ∧ pending.left.GroupedAll) ∧
    (∀ next ∈ outer.head?, next.operator.precedence < pending.operator.precedence) ∧ Stacked outer

/-- An operand fits behind the innermost pending operator. -/
def Fits (stack : List Pending) (operand : Expression) : Prop :=
  ∀ pending ∈ stack.head?, RightOperand pending.operator.precedence operand

/-- Closing the pending operands down to a level keeps everything grouped, and what is left on the
stack binds less tightly than the level. -/
theorem reduce_grouped {level : Nat} {stack : List Pending} {operand : Expression}
    (hstack : Stacked stack) (hoperand : operand.GroupedAll) (hfits : Fits stack operand)
    (hleft : LeftOperand level operand) (hright : RightOperand 0 operand) :
    Stacked (reduce level stack operand).1 ∧ (reduce level stack operand).2.GroupedAll ∧
      LeftOperand level (reduce level stack operand).2 ∧
      RightOperand 0 (reduce level stack operand).2 ∧
      ∀ pending ∈ (reduce level stack operand).1.head?, pending.operator.precedence < level := by
  induction stack generalizing operand with
  | nil => exact ⟨trivial, hoperand, hleft, hright, by simp [reduce]⟩
  | cons pending outer ih =>
    obtain ⟨⟨hknown, hfit, hgrouped⟩, hrising, houter⟩ := hstack
    unfold reduce
    split
    case isFalse hlevel =>
      refine ⟨⟨⟨hknown, hfit, hgrouped⟩, hrising, houter⟩, hoperand, hleft, hright, ?_⟩
      rintro _ ⟨⟩
      omega
    case isTrue hlevel =>
      -- the closed operand is a binary expression of the pending operator's precedence
      have hclosed : (pending.close operand).GroupedAll := by
        intro node hnode
        unfold Pending.close at hnode
        rw [within, List.mem_cons, List.mem_append] at hnode
        rcases hnode with rfl | hnode | hnode
        · exact ⟨pending.operator, hknown, rfl, hfit, hfits pending rfl⟩
        · exact hgrouped node hnode
        · exact hoperand node hnode
      have hpositive := BinaryOperator.precedence_pos hknown
      refine ih houter hclosed (fun next hnext => ?_) ⟨_, hknown, hlevel⟩ ⟨_, hknown, hpositive⟩
      exact ⟨_, hknown, hrising next hnext⟩

/-- What is known of the operations of a row. -/
def Operation.Sound : Operation → Prop
  | .binary operator right =>
    BinaryOperator.ofText? operator.text = some operator ∧ right.GroupedAll ∧ right.isUnary = true
  | .instanceOf _ => True

theorem assembleFrom_grouped {stack : List Pending} {operand : Expression} {row : List Operation}
    (hstack : Stacked stack) (hoperand : operand.GroupedAll) (hfits : Fits stack operand)
    (hleft : ∀ level, LeftOperand level operand) (hright : RightOperand 0 operand)
    (hrow : ∀ operation ∈ row, operation.Sound) :
    (assembleFrom stack operand row).GroupedAll ∧
      RightOperand 0 (assembleFrom stack operand row) := by
  induction row generalizing stack operand with
  | nil =>
    obtain ⟨-, hgrouped, -, hplain, -⟩ := reduce_grouped hstack hoperand hfits (hleft 0) hright
    exact ⟨hgrouped, hplain⟩
  | cons operation rest ih =>
    obtain ⟨hsound, hrest⟩ := List.forall_mem_cons.1 hrow
    cases operation with
    | binary operator right =>
      obtain ⟨hknown, hgroupedRight, hunary⟩ := hsound
      obtain ⟨houter, hgrouped, hoperator, -, hless⟩ :=
        reduce_grouped hstack hoperand hfits (hleft operator.precedence) hright
      refine ih ⟨⟨hknown, hoperator, hgrouped⟩, hless, houter⟩ hgroupedRight ?_
        (leftOperand_of_isUnary hunary) (rightOperand_of_isUnary hunary 0) hrest
      rintro _ ⟨⟩
      exact rightOperand_of_isUnary hunary _
    | instanceOf type =>
      obtain ⟨houter, hgrouped, hoperator, -, hless⟩ :=
        reduce_grouped hstack hoperand hfits (hleft instanceOfPrecedence) hright
      -- a type test is closed at once and waits on no stack
      refine ih houter ?_ hless (fun _ => trivial) (by show 0 < instanceOfPrecedence; decide) hrest
      intro node hnode
      rw [within, List.mem_cons] at hnode
      rcases hnode with rfl | hnode
      · exact hoperator
      · exact hgrouped node hnode

theorem assemble_grouped {first : Expression} {row : List Operation} (hfirst : first.GroupedAll)
    (hunary : first.isUnary = true) (hrow : ∀ operation ∈ row, operation.Sound) :
    (assemble first row).GroupedAll ∧ RightOperand 0 (assemble first row) :=
  assembleFrom_grouped trivial hfirst (fun _ h => absurd h (Option.not_mem_none _))
    (leftOperand_of_isUnary hunary) (rightOperand_of_isUnary hunary 0) hrow

end Operators

/-! ## Conditions and assignments in a row -/

namespace Grammar

open Expression

theorem choose_grouped {first : Expression} {row : List (Expression × Expression)}
    (hfirst : first.GroupedAll) (hplain : RightOperand 0 first)
    (hrow : ∀ item ∈ row, item.1.GroupedAll ∧ item.2.GroupedAll ∧ RightOperand 0 item.2) :
    (choose first row).GroupedAll ∧ (choose first row).isAssignment = false := by
  induction row generalizing first with
  | nil => exact ⟨hfirst, hplain.plain.1⟩
  | cons item others ih =>
    obtain ⟨⟨hthen, hnext, hnextPlain⟩, hothers⟩ := List.forall_mem_cons.1 hrow
    obtain ⟨helse, hassignment⟩ := ih hnext hnextPlain hothers
    refine ⟨fun node hnode => ?_, rfl⟩
    rw [choose, within, List.mem_cons, List.mem_append, List.mem_append] at hnode
    rcases hnode with rfl | (hnode | hnode) | hnode
    · exact ⟨hplain.plain.1, hplain.plain.2, hassignment⟩
    · exact hfirst node hnode
    · exact hthen node hnode
    · exact helse node hnode

theorem assign_grouped {target : Expression} {row : List (Text × Expression)}
    (htarget : target.GroupedAll) (hplain : target.isAssignment = false)
    (hrow : ∀ item ∈ row, ApexLayout.isAssignment item.1 = true ∧ item.2.GroupedAll ∧
      item.2.isAssignment = false) : (assign target row).GroupedAll := by
  induction row generalizing target with
  | nil => exact htarget
  | cons item others ih =>
    obtain ⟨⟨hoperator, hnext, hnextPlain⟩, hothers⟩ := List.forall_mem_cons.1 hrow
    have hvalue := ih hnext hnextPlain hothers
    intro node hnode
    rw [assign, within, List.mem_cons, List.mem_append] at hnode
    rcases hnode with rfl | hnode | hnode
    · exact ⟨hplain, List.mem_append.2 (isAssignment_iff.1 hoperator)⟩
    · exact htarget node hnode
    · exact hvalue node hnode

end Grammar

/-! ## What the rules read -/

namespace Grammar

open Expression

variable {inner : Grammar Expression} {source rest : TokenStream}

section

variable (hinner : ∀ source value rest, inner source = .ok value rest → value.GroupedAll)

include hinner

/-- Expressions that were read one after another are grouped. -/
theorem groupedAll_of_covers {faults : List RenderError} {items : List Expression}
    (h : Covers inner source faults items rest) : ∀ node ∈ items.flatMap within, node.Grouped :=
  groupedAll_of_forall fun item hitem => by
    obtain ⟨start, stop, hread⟩ := h.exists_run item hitem
    exact hinner _ _ _ hread

theorem primary_grouped {value : Expression} (h : PrimaryRun inner source value rest) :
    value.GroupedAll ∧ value.isPostfix = true := by
  -- a primary puts no operator over the expressions inside it, and these are grouped by assumption
  refine ⟨fun node hnode => ?_, by cases h <;> rfl⟩
  cases h with
  | leaf _ _ =>
    rw [within, List.mem_singleton] at hnode
    exact hnode ▸ trivial
  | query _ _ =>
    rw [within, List.mem_singleton] at hnode
    exact hnode ▸ trivial
  | call hcovers =>
    rw [within, withinAll_eq_flatMap, List.mem_cons] at hnode
    rcases hnode with rfl | hnode
    · trivial
    · exact groupedAll_of_covers hinner hcovers node hnode
  | creation _ hcovers =>
    rw [within, CreatorBody.within_eq_flatMap, List.mem_cons] at hnode
    rcases hnode with rfl | hnode
    · trivial
    · exact groupedAll_of_covers hinner hcovers node hnode
  | parenthesized hcovers =>
    rw [within, List.mem_cons] at hnode
    rcases hnode with rfl | hnode
    · trivial
    · exact groupedAll_of_covers hinner hcovers node (by simpa using hnode)

theorem step_grouped {value : Step} {operand : Expression} (h : StepRun inner source value rest)
    (hoperand : operand.GroupedAll) (hbehind : operand.isPostfix = true) :
    (value.apply operand).GroupedAll ∧ (value.apply operand).isPostfix = true := by
  refine ⟨fun node hnode => ?_, by cases h <;> rfl⟩
  cases h with
  | link _ hcovers =>
    unfold Step.apply at hnode
    rw [within, Link.within_eq_flatMap, List.mem_cons, List.mem_append] at hnode
    rcases hnode with rfl | hnode | hnode
    · exact hbehind
    · exact hoperand node hnode
    · exact groupedAll_of_covers hinner hcovers node hnode
  | index hcovers =>
    unfold Step.apply at hnode
    rw [within, List.mem_cons, List.mem_append] at hnode
    rcases hnode with rfl | hnode | hnode
    · exact hbehind
    · exact hoperand node hnode
    · exact groupedAll_of_covers hinner hcovers node (by simpa using hnode)
  | operator hknown _ =>
    unfold Step.apply at hnode
    rw [within, List.mem_cons] at hnode
    rcases hnode with rfl | hnode
    · exact ⟨hknown, hbehind⟩
    · exact hoperand node hnode

theorem steps_grouped {first : Expression} {steps : List Step} (hfirst : first.GroupedAll)
    (hbehind : first.isPostfix = true)
    (hsteps : ∀ step ∈ steps, ∃ source rest, StepRun inner source step rest) :
    (steps.foldl Step.apply first).GroupedAll ∧
      (steps.foldl Step.apply first).isPostfix = true := by
  induction steps generalizing first with
  | nil => exact ⟨hfirst, hbehind⟩
  | cons step others ih =>
    obtain ⟨⟨_, _, hstep⟩, hothers⟩ := List.forall_mem_cons.1 hsteps
    obtain ⟨hgrouped, hbehind⟩ := step_grouped hinner hstep hfirst hbehind
    exact ih hgrouped hbehind hothers

theorem stepped_grouped {value : Expression} (h : stepped inner source = .ok value rest) :
    value.GroupedAll ∧ value.isPostfix = true := by
  obtain ⟨first, middle, hfirst, h⟩ := Reader.bind_eq_ok.1 h
  obtain ⟨steps, last, hsteps, h⟩ := Reader.bind_eq_ok.1 h
  cases h
  obtain ⟨hgrouped, hbehind⟩ := primary_grouped hinner (run_primary hfirst)
  have hrun : ∀ step ∈ steps, ∃ source rest, StepRun inner source step rest :=
    Reader.Rounds.forall_mem (fun _ _ _ h => ⟨_, _, run_step _ _ _ h⟩) (Reader.many_eq_ok.1 hsteps)
  exact steps_grouped hinner hgrouped hbehind hrun

omit hinner in
/-- The operators among the fronts are known, and behind a cast stands none that could be binary. -/
theorem fronts_sound {fronts : List Front} (h : Reader.Rounds front source fronts rest)
    {operand : Expression} (hoperand : operand.GroupedAll) (hbehind : operand.isPostfix = true) :
    (fronts.foldr Front.apply operand).GroupedAll ∧
      (fronts.foldr Front.apply operand).isUnary = true ∧
      (pieceAt source.pieces 0 castablePiece = true → ∀ operator inner,
        fronts.foldr Front.apply operand = .unary .leading operator inner →
          operator ∈ [[ '!' ], [ '~' ]]) := by
  induction h with
  | stop _ =>
    refine ⟨hoperand, isUnary_of_isPostfix hbehind, fun _ operator inner hshape => ?_⟩
    rw [List.foldr_nil] at hshape
    rw [hshape] at hbehind
    cases hbehind
  | @round start middle final value values hround _ _ ih =>
    obtain ⟨hgrouped, hunary, hcast⟩ := ih
    cases run_front hround with
    | @operator _ text hknown hahead _ =>
      refine ⟨fun node hnode => ?_, rfl, fun hcastable operator inner hshape => ?_⟩
      · rw [List.foldr_cons, Front.apply, within, List.mem_cons] at hnode
        rcases hnode with rfl | hnode
        · exact ⟨hknown, hunary⟩
        · exact hgrouped node hnode
      · rw [List.foldr_cons, Front.apply] at hshape
        obtain ⟨rfl, rfl⟩ : text = operator ∧ _ = inner := by simpa using hshape
        -- a symbol that begins the operand of a cast and is an operator
        obtain ⟨piece, others, hpieces, hpiece⟩ := pieceAt_zero_true hahead
        rw [hpieces, pieceAt_zero] at hcastable
        obtain ⟨hkind, htext⟩ := Piece.isSymbol_iff.1 hpiece
        unfold castablePiece at hcastable
        rw [hkind] at hcastable
        obtain ⟨symbol, hmem, hsymbol⟩ := List.any_eq_true.1 hcastable
        have hsame : text = symbol := htext.symm.trans (Piece.isSymbol_iff.1 hsymbol).2
        have hfits : ∀ symbol ∈ ["(", "!", "~"].map String.toList, symbol ∈ Operators.leading →
            symbol ∈ [[ '!' ], [ '~' ]] := by decide
        exact hsame ▸ hfits symbol hmem (hsame ▸ hknown)
    | cast _ hahead _ =>
      refine ⟨fun node hnode => ?_, rfl, fun _ operator inner hshape => ?_⟩
      · rw [List.foldr_cons, Front.apply, within, List.mem_cons] at hnode
        rcases hnode with rfl | hnode
        · exact ⟨hunary, hcast hahead⟩
        · exact hgrouped node hnode
      · cases hshape

theorem unary_grouped {value : Expression} (h : unary inner source = .ok value rest) :
    value.GroupedAll ∧ value.isUnary = true := by
  obtain ⟨fronts, middle, hfronts, h⟩ := Reader.bind_eq_ok.1 h
  obtain ⟨operand, last, hoperand, h⟩ := Reader.bind_eq_ok.1 h
  cases h
  obtain ⟨hgrouped, hbehind⟩ := stepped_grouped hinner hoperand
  obtain ⟨hall, hunary, -⟩ := fronts_sound (Reader.many_eq_ok.1 hfronts) hgrouped hbehind
  exact ⟨hall, hunary⟩

theorem binary_grouped {value : Expression} (h : binary inner source = .ok value rest) :
    value.GroupedAll ∧ RightOperand 0 value := by
  obtain ⟨first, middle, hfirst, h⟩ := Reader.bind_eq_ok.1 h
  obtain ⟨row, last, hrow, h⟩ := Reader.bind_eq_ok.1 h
  cases h
  obtain ⟨hgrouped, hunary⟩ := unary_grouped hinner hfirst
  refine Operators.assemble_grouped hgrouped hunary ?_
  refine Reader.Rounds.forall_mem (fun _ _ _ hround => ?_) (Reader.many_eq_ok.1 hrow)
  cases run_operation hround with
  | binary hknown hread =>
    obtain ⟨hright, hrightUnary⟩ := unary_grouped hinner hread
    exact ⟨hknown, hright, hrightUnary⟩
  | instanceOf _ _ => trivial

theorem conditional_grouped {value : Expression} (h : conditional inner source = .ok value rest) :
    value.GroupedAll ∧ value.isAssignment = false := by
  obtain ⟨first, middle, hfirst, h⟩ := Reader.bind_eq_ok.1 h
  obtain ⟨row, last, hrow, h⟩ := Reader.bind_eq_ok.1 h
  cases h
  obtain ⟨hgrouped, hplain⟩ := binary_grouped hinner hfirst
  refine choose_grouped hgrouped hplain ?_
  refine Reader.Rounds.forall_mem (fun _ _ _ hround => ?_) (Reader.many_eq_ok.1 hrow)
  obtain ⟨_, _, _, -, hthen, -, helse⟩ := outcomes_eq_some hround
  exact ⟨hinner _ _ _ hthen, binary_grouped hinner helse⟩

theorem expressionRule_grouped {value : Expression}
    (h : expressionRule inner source = .ok value rest) : value.GroupedAll := by
  obtain ⟨first, middle, hfirst, h⟩ := Reader.bind_eq_ok.1 h
  obtain ⟨row, last, hrow, h⟩ := Reader.bind_eq_ok.1 h
  cases h
  obtain ⟨hgrouped, hplain⟩ := conditional_grouped hinner hfirst
  refine assign_grouped hgrouped hplain ?_
  refine Reader.Rounds.forall_mem (fun _ _ _ hround => ?_) (Reader.many_eq_ok.1 hrow)
  obtain ⟨count, hoperator, hvalue⟩ := assigned_eq_some hround
  exact ⟨(Operators.assignment?_eq_some hoperator).2, conditional_grouped hinner hvalue⟩

end

/-- Every expression that is read is grouped throughout. -/
theorem expression_grouped : ∀ source value rest, expression source = .ok value rest →
    value.GroupedAll :=
  Reader.recursive_induction fun _ hinner _ _ _ h => expressionRule_grouped hinner h

end Grammar

/-! ## Whole sources -/

/-- In every tree that is read, every node is grouped: operators of one level lean to the left,
tighter ones stand inside looser ones, and neither conditions nor targets hold assignments. -/
theorem parse_grouped (source : Text) :
    (∀ unit, parseUnit source = .ok unit → ∀ node ∈ unit.within, node.Grouped) ∧
    (∀ statement, parseStatement source = .ok statement →
      ∀ node ∈ statement.within, node.Grouped) ∧
    (∀ expression, parseExpression source = .ok expression →
      ∀ node ∈ expression.within, node.Grouped) := by
  refine ⟨fun unit h => ?_, fun statement h => ?_, fun expression h => ?_⟩
  · obtain ⟨stream, final, -, hunit, -⟩ := Grammar.readSource_eq_ok.1 h
    exact Grammar.groupedAll_of_covers Grammar.expression_grouped
      (Grammar.found_compilationUnit hunit)
  · obtain ⟨stream, final, -, hstatement, -⟩ := Grammar.readSource_eq_ok.1 h
    exact Grammar.groupedAll_of_covers Grammar.expression_grouped
      (Grammar.found_statement _ _ _ hstatement)
  · obtain ⟨stream, final, -, hexpression, -⟩ := Grammar.readSource_eq_ok.1 h
    exact Grammar.expression_grouped _ _ _ hexpression

/-- A type test may be the left operand of an operator that binds more tightly than it does. -/
theorem parse_grouped_typeTest :
    parseExpression "a instanceof T * -b" = .ok (.binary .arithmetic ['*']
      (.instanceOf (.primary (.identifier ['a'])) ⟨[⟨['T'], []⟩], []⟩)
      (.unary .leading ['-'] (.primary (.identifier ['b'])))) ∧
    ∀ node ∈ (Expression.binary .arithmetic ['*']
      (.instanceOf (.primary (.identifier ['a'])) ⟨[⟨['T'], []⟩], []⟩)
      (.unary .leading ['-'] (.primary (.identifier ['b'])))).within, node.Grouped :=
  ⟨by decide +kernel, (parse_grouped "a instanceof T * -b").2.2 _ (by decide +kernel)⟩

end ApexLayout
