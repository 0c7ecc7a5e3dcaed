import ApexLayout.Proofs.Inverse.Operand
import ApexLayout.Proofs.Layout.Expression

/-!
Trees of operators are read back.

Operands between operators are read as one row and assembled behind a stack of pending operators.
A tree whose operands bind tightly enough is what its own row is assembled to, whatever is pending
in front of it and follows behind it, as long as these bind less tightly.
-/

namespace ApexLayout

/-! ## Rows of operands -/

namespace Operators

/-- How tightly an operation holds the operand in front of it. -/
def Operation.level : Operation → Nat
  | .binary operator _ => operator.precedence
  | .instanceOf _ => instanceOfPrecedence

/-- Pending operands that bind less tightly stay pending. -/
theorem reduce_of_looser {level : Nat} {stack : List Pending} {operand : Expression}
    (h : ∀ pending ∈ stack.head?, pending.operator.precedence < level) :
    reduce level stack operand = (stack, operand) := by
  cases stack with
  | nil => rfl
  | cons pending outer =>
    have hless := h pending rfl
    rw [reduce, if_neg (by omega)]

/-- A pending operand that binds at least as tightly as what follows is completed. -/
theorem assembleFrom_close {pending : Pending} {stack : List Pending} {right : Expression}
    {rest : List Operation} (h : ∀ next ∈ rest.head?, next.level ≤ pending.operator.precedence) :
    assembleFrom (pending :: stack) right rest = assembleFrom stack (pending.close right) rest := by
  cases rest with
  | nil => rfl
  | cons next others =>
    have hless := h next rfl
    cases next with
    | binary operator operand =>
      rw [assembleFrom, assembleFrom, reduce, if_pos (show operator.precedence ≤ _ from hless)]
    | instanceOf type =>
      rw [assembleFrom, assembleFrom, reduce, if_pos (show instanceOfPrecedence ≤ _ from hless)]

end Operators

open Expression in
/-- What may stand on the right of an operator may stand on the left of a looser one. -/
theorem Expression.RightOperand.left {level less : Nat} {operand : Expression}
    (h : RightOperand level operand) (hless : less ≤ level) : LeftOperand less operand := by
  cases operand with
  | binary kind operator left right =>
    obtain ⟨found, hfound, hlevel⟩ := h
    exact ⟨found, hfound, by omega⟩
  | instanceOf => trivial
  | _ => exact h

namespace Readable

open Expression Operators

/-- What may stand on the left of an operator may stand on the right of a looser one. -/
theorem right {operand : Expression} (h : Readable operand) {level less : Nat}
    (hleft : LeftOperand level operand) (hless : less < level) : RightOperand less operand := by
  cases h with
  | stem single => cases single <;> exact hleft
  | unary => exact hleft
  | binary =>
    obtain ⟨found, hfound, hlevel⟩ := hleft
    exact ⟨found, hfound, by omega⟩
  | conditional => exact hleft
  | assignment => exact hleft

/-- A further operand of a row. -/
def Further (operation : Operation) : Prop :=
  ∃ operator right, operation = .binary operator right ∧
    BinaryOperator.ofText? operator.text = some operator ∧ Readable right ∧ right.isUnary = true

/-- A tree is assembled from its row. -/
theorem row {tree : Expression} (h : Readable tree) (hright : RightOperand 0 tree) :
    ∃ first row, (Readable first ∧ first.isUnary = true) ∧ (∀ operation ∈ row, Further operation) ∧
      ∀ stack rest, (∀ pending ∈ stack.head?, RightOperand pending.operator.precedence tree) →
        (∀ next ∈ rest.head?, LeftOperand (Operation.level next) tree) →
        assembleFrom stack first (row ++ rest) = assembleFrom stack tree rest := by
  induction h with
  | stem single =>
    refine ⟨_, [], ⟨.stem single, ?_⟩, by simp, fun _ _ _ _ => rfl⟩
    cases single <;> rfl
  | unary inside hnode =>
    exact ⟨_, [], ⟨.unary inside hnode, hright⟩, by simp, fun _ _ _ _ => rfl⟩
  -- the left operand is assembled first, then waits for the right one, which binds more tightly
  | @binary kind operator left right hleft hright' hnode ih ih' =>
    obtain ⟨found, hfound, rfl, hfirst, hsecond⟩ := hnode
    have htext : found.text = operator := by simpa using List.find?_some hfound
    have hpositive := BinaryOperator.precedence_pos hfound
    obtain ⟨first, row, hread, hrow, hassemble⟩ := ih (hleft.right hfirst hpositive)
    obtain ⟨first', row', hread', hrow', hassemble'⟩ := ih' (hright'.right (hsecond.left le_rfl) hpositive)
    refine ⟨first, row ++ .binary found first' :: row', hread, ?_, fun stack rest hstack hrest => ?_⟩
    · refine List.forall_mem_append.2 ⟨hrow, List.forall_mem_cons.2 ⟨?_, hrow'⟩⟩
      exact ⟨found, first', rfl, htext ▸ hfound, hread'⟩
    -- what waits already binds less tightly, and what follows does not bind more tightly
    · have hlooser : ∀ pending ∈ stack.head?, pending.operator.precedence < found.precedence := by
        intro pending hpending
        obtain ⟨found', hfound', hless⟩ := hstack pending hpending
        rw [hfound] at hfound'
        cases hfound'
        exact hless
      have htighter : ∀ next ∈ rest.head?, Operation.level next ≤ found.precedence := by
        intro next hnext
        obtain ⟨found', hfound', hless⟩ := hrest next hnext
        rw [hfound] at hfound'
        cases hfound'
        exact hless
      calc assembleFrom stack first ((row ++ .binary found first' :: row') ++ rest)
          = assembleFrom stack first (row ++ .binary found first' :: (row' ++ rest)) := by
            rw [List.append_assoc, List.cons_append]
        _ = assembleFrom stack left (.binary found first' :: (row' ++ rest)) :=
            hassemble _ _ (fun pending hpending => hleft.right hfirst (hlooser pending hpending))
              (by rintro _ ⟨⟩; exact hfirst)
        _ = assembleFrom (⟨left, found⟩ :: stack) first' (row' ++ rest) := by
            rw [assembleFrom, reduce_of_looser hlooser]
        _ = assembleFrom (⟨left, found⟩ :: stack) right rest :=
            hassemble' _ _ (by rintro _ ⟨⟩; exact hsecond)
              fun next hnext => hsecond.left (htighter next hnext)
        _ = assembleFrom stack (.binary found.kind operator left right) rest := by
            rw [assembleFrom_close htighter, Pending.close, htext]
  | conditional => cases hright
  | assignment => cases hright

/-- What is no assignment and no condition is a row of operands. -/
theorem plain {tree : Expression} (h : Readable tree) (hassignment : tree.isAssignment = false)
    (hconditional : tree.isConditional = false) : RightOperand 0 tree := by
  cases h with
  | stem single => cases single <;> rfl
  | @unary fixity => cases fixity <;> rfl
  | binary _ _ hnode =>
    obtain ⟨found, hfound, -⟩ := hnode
    exact ⟨found, hfound, BinaryOperator.precedence_pos hfound⟩
  | conditional => cases hconditional
  | assignment => cases hassignment

/-- The two outcomes of a condition, the second of them without conditions of its own. -/
def Outcomes (item : Expression × Expression) : Prop :=
  Enclosed item.1 ∧ Readable item.2 ∧ RightOperand 0 item.2

/-- A tree is chosen from its row of conditions. -/
theorem choices {tree : Expression} (h : Readable tree) (hassignment : tree.isAssignment = false) :
    ∃ first row, Grammar.choose first row = tree ∧ (Readable first ∧ RightOperand 0 first) ∧
      ∀ item ∈ row, Outcomes item := by
  induction h with
  | conditional htest hinside _ hnode _ ih' =>
    obtain ⟨first, row, rfl, hfirst, hrow⟩ := ih' hnode.2.2
    refine ⟨_, (_, first) :: row, rfl, ⟨htest, htest.plain hnode.1 hnode.2.1⟩, ?_⟩
    exact List.forall_mem_cons.2 ⟨⟨hinside, hfirst⟩, hrow⟩
  | stem single => exact ⟨_, [], rfl, ⟨.stem single, plain (.stem single) hassignment (by
      cases single <;> rfl)⟩, by simp⟩
  | unary inside hnode =>
    exact ⟨_, [], rfl, ⟨.unary inside hnode, plain (.unary inside hnode) rfl rfl⟩, by simp⟩
  | binary first second hnode =>
    exact ⟨_, [], rfl, ⟨.binary first second hnode, plain (.binary first second hnode) rfl rfl⟩,
      by simp⟩
  | assignment => cases hassignment

/-- A further target or the value of a row of assignments, with the operator in front of it. -/
def Assigned (item : Text × Expression) : Prop :=
  isAssignment item.1 = true ∧ Readable item.2 ∧ item.2.isAssignment = false

/-- A tree is its row of assignments. -/
theorem assignments {tree : Expression} (h : Readable tree) :
    ∃ target row, Grammar.assign target row = tree ∧
      (Readable target ∧ target.isAssignment = false) ∧ ∀ item ∈ row, Assigned item := by
  induction h with
  | @assignment target value operator htarget _ hnode _ ih' =>
    obtain ⟨next, row, rfl, hnext, hrow⟩ := ih'
    refine ⟨target, (operator, next) :: row, rfl, ⟨htarget, hnode.1⟩, ?_⟩
    exact List.forall_mem_cons.2 ⟨⟨isAssignment_iff.2 (List.mem_append.1 hnode.2), hnext⟩, hrow⟩
  | stem single =>
    exact ⟨_, [], rfl, ⟨.stem single, by cases single <;> rfl⟩, by simp⟩
  | unary inside hnode => exact ⟨_, [], rfl, ⟨.unary inside hnode, rfl⟩, by simp⟩
  | binary first second hnode => exact ⟨_, [], rfl, ⟨.binary first second hnode, rfl⟩, by simp⟩
  | conditional test inside otherwise hnode =>
    exact ⟨_, [], rfl, ⟨.conditional test inside otherwise hnode, rfl⟩, by simp⟩

end Readable

/-! ## Ends of rows -/

/-- An operator between operands is seen where it is printed. -/
theorem operatorAhead_operator {text : Text} (h : text ∈ Operators.between) {g : List Piece}
    (hg : Loose g) :
    operatorAhead (operatorPieces text ++ g) = some (text, (operatorPieces text).length) := by
  have hall : ∀ text ∈ Operators.between,
      operatorAhead (operatorPieces text) = some (text, (operatorPieces text).length) := by decide
  have hregular : ∀ text ∈ Operators.between, ∀ piece ∈ operatorPieces text,
      piece.kind = TokenKind.ofText piece.text ∧ Scan.symbols.contains piece.text = true := by decide
  refine operatorAhead_printed (fun piece hpiece => ?_) (hall text h) hg
  obtain ⟨hkind, hsymbol⟩ := hregular text h piece hpiece
  exact ⟨hkind, fun _ => List.contains_iff_mem.1 hsymbol⟩

/-- A row of operands ends in front of the pieces. -/
structure RowEnd (pieces : List Piece) : Prop where
  operand : OperandEnd pieces
  binary : (operatorText pieces).bind BinaryOperator.ofText? = none

namespace RowEnd

/-- A symbol that begins no operator of a row. -/
theorem symbol {text : Text} {rest : List Piece} (h : text ∉ continuing := by decide)
    (hgreater : (Piece.symbol text).isSymbol ">" = false := by decide)
    (hnone : BinaryOperator.ofText? text = none := by decide) : RowEnd (.symbol text :: rest) := by
  refine ⟨.symbol h, ?_⟩
  unfold operatorText
  rw [operatorAhead_cons hgreater]
  exact hnone

/-- An assignment operator ends a row. -/
theorem assignment {text : Text} {g : List Piece} (h : isAssignment text = true) (hg : Loose g) :
    RowEnd (operatorPieces text ++ g) := by
  have hbetween := Grammar.between_of_assignment h
  have hall : ∀ text ∈ Operators.assignments ++ [['>', '>', '='], ['>', '>', '>', '=']],
      BinaryOperator.ofText? text = none := by decide
  refine ⟨.operator hbetween, ?_⟩
  unfold operatorText
  rw [operatorAhead_operator hbetween hg]
  exact hall text (List.mem_append.2 (isAssignment_iff.1 h))

end RowEnd

/-- A row of conditions ends in front of the pieces. -/
structure ChoiceEnd (pieces : List Piece) : Prop where
  row : RowEnd pieces
  question : pieceAt pieces 0 (·.isSymbol "?") = false

namespace ExpressionEnd

theorem choice {pieces : List Piece} (h : ExpressionEnd pieces) : ChoiceEnd pieces := by
  cases h with
  | nothing => exact ⟨⟨.nil, rfl⟩, rfl⟩
  | parenthesis => exact ⟨.symbol, rfl⟩
  | colon => exact ⟨.symbol, rfl⟩

theorem assignment {pieces : List Piece} (h : ExpressionEnd pieces) :
    ((operatorText pieces).bind fun text => if isAssignment text then some text else none) =
      none := by
  cases h <;> rfl

end ExpressionEnd

namespace Grammar

variable {bound : Nat} {f : List Piece}

/-! ## Reading rows -/

/-- A further operand of a row, behind its operator. -/
theorem reads_operation {operator : BinaryOperator} {right : Expression}
    (hknown : BinaryOperator.ofText? operator.text = some operator) (hright : Readable right)
    (hunary : right.isUnary = true) (hf : OperandEnd f) :
    Reads (bound + 1) (operation (Reader.below bound expression))
      (operatorPieces operator.text ++ right.spelling) f (some (.binary operator right)) := by
  have hbetween := between_of_binary hknown
  have hahead := operatorAhead_operator hbetween (loose_of_opens (hright.opens f))
  have hword : Reads (bound + 1) (takeWord "instanceof") []
      (operatorPieces operator.text ++ right.spelling ++ f) false := by
    apply reads_takeWord_false
    rw [List.append_assoc]
    exact (OperandEnd.operator hbetween).isWord _
  have hlook : Reads (bound + 1) (look Operators.binary?) []
      (operatorPieces operator.text ++ right.spelling ++ f)
      (some (operator, (operatorPieces operator.text).length)) := by
    refine reads_look fun stream hpieces => ?_
    unfold Operators.binary?
    rw [Operators.symbol?_eq, hpieces, List.append_assoc, hahead]
    simp only [Option.bind_eq_bind, Option.bind_some, hknown, Option.pure_def]
  refine Reads.bind_nothing hword (Reads.bind_nothing hlook ?_)
  exact reads_skip.bind ((reads_unary hright hunary hf).map fun right =>
    some (Operators.Operation.binary operator right))

/-- No further operand where a row ends. -/
theorem reads_operation_end {inner : Grammar Expression} (hf : RowEnd f) :
    Reads bound (operation inner) [] f none := by
  have hlook : Reads bound (look Operators.binary?) [] f none := by
    refine reads_look fun stream hpieces => ?_
    rw [← Option.map_eq_none_iff (f := Prod.fst), Operators.binary?_eq, hpieces]
    exact hf.binary
  refine Reads.bind_nothing (reads_takeWord_false (hf.operand.isWord _)) ?_
  exact Reads.bind_nothing hlook (Reads.pure none)

theorem pieceAt_operator {text : Text} {g : List Piece} {test : Piece → Bool} {found : Bool}
    (h : pieceAt (operatorPieces text) 0 test = found) :
    pieceAt (operatorPieces text ++ g) 0 test = found := by
  cases hpieces : operatorPieces text with
  | nil =>
    unfold operatorPieces at hpieces
    split at hpieces <;> cases hpieces
  | cons piece rest =>
    rw [hpieces] at h
    exact h

theorem spell_operator_ne_nil (text : Text) (parts : List Part) :
    spell (.operator text :: parts) ≠ [] := by
  have hpieces : operatorPieces text ≠ [] := by
    unfold operatorPieces
    split <;> exact List.cons_ne_nil _ _
  rw [spell_cons]
  exact List.append_ne_nil_of_left_ne_nil hpieces _

/-- The further operands of a row are read; the first of them ends the one in front. -/
theorem reads_row {row : List Operators.Operation} (h : ∀ operation ∈ row, Readable.Further operation)
    (hf : RowEnd f) :
    Reads (bound + 1) (Reader.many (operation (Reader.below bound expression)))
      (spell (row.flatMap operationParts)) f row ∧
      OperandEnd (spell (row.flatMap operationParts) ++ f) := by
  apply reads_many_row OperandEnd
  · intro next hnext g hg
    obtain ⟨operator, right, rfl, hknown, hright, hunary⟩ := h next hnext
    exact reads_operation hknown hright hunary hg
  · intro next hnext
    obtain ⟨operator, right, rfl, hknown, -⟩ := h next hnext
    refine ⟨spell_operator_ne_nil _ _, fun g => ?_⟩
    rw [operationParts, spell_cons, List.append_assoc]
    exact .operator (between_of_binary hknown)
  · exact hf.operand
  · exact reads_operation_end hf

/-- Operands between operators are read back. -/
theorem reads_binary {tree : Expression} (h : Readable tree)
    (hright : Expression.RightOperand 0 tree) (hf : RowEnd f) :
    Reads (bound + 1) (binary (Reader.below bound expression)) tree.spelling f tree := by
  obtain ⟨first, row, ⟨hfirst, hunary⟩, hrow, hassemble⟩ := h.row hright
  obtain rfl : Operators.assemble first row = tree := by
    have hwhole := hassemble [] [] (by simp) (by simp)
    rw [List.append_nil] at hwhole
    exact hwhole
  obtain ⟨hreads, hend⟩ := reads_row hrow hf
  rw [Expression.spelling, parts_assemble, spell_append]
  exact (reads_unary hfirst hunary hend).bind (hreads.map fun row => Operators.assemble first row)

/-- The outcomes of a condition. -/
theorem reads_outcomes {thenValue elseValue : Expression}
    (h : Readable.Outcomes (thenValue, elseValue)) (hf : RowEnd f) :
    Reads (bound + 1) (outcomes (Reader.below bound expression))
      (spell (.symbol "?" :: (thenValue.parts ++ .symbol ":" :: elseValue.parts))) f
      (some (thenValue, elseValue)) := by
  obtain ⟨hinside, hread, hright⟩ := h
  rw [spell_cons, spell_append, spell_cons]
  have hquestion : Reads (bound + 1) (takeSymbol "?") [.symbol "?"]
      (thenValue.spelling ++ ([.symbol ":"] ++ elseValue.spelling) ++ f) true :=
    reads_takeSymbol_true (by decide)
  have hthen : Reads bound (Reader.below bound expression) thenValue.spelling
      ([.symbol ":"] ++ elseValue.spelling ++ f) thenValue :=
    Reads.below fun bound => hinside.readBack bound _ (.colon _)
  have hcolon : Reads bound (symbol ":") [.symbol ":"] (elseValue.spelling ++ f) () :=
    reads_symbol (by decide)
  have helse : Reads bound (binary (Reader.below bound expression)) elseValue.spelling f
      elseValue := (reads_binary hread hright hf).mono (Nat.le_succ bound)
  exact Reads.bind_less hquestion (hthen.bind (hcolon.bind (helse.map fun elseValue =>
    some (thenValue, elseValue))))

/-- A value by conditions is read back. -/
theorem reads_conditional {tree : Expression} (h : Readable tree)
    (hassignment : tree.isAssignment = false) (hf : ChoiceEnd f) :
    Reads (bound + 1) (conditional (Reader.below bound expression)) tree.spelling f tree := by
  obtain ⟨first, row, rfl, ⟨hfirst, hright⟩, hrow⟩ := h.choices hassignment
  have hnone : Reads (bound + 1) (outcomes (Reader.below bound expression)) [] f none :=
    Reads.bind_nothing (reads_takeSymbol_false hf.question) (Reads.pure none)
  obtain ⟨hreads, hend⟩ := reads_many_row RowEnd (fun item hitem g => reads_outcomes (hrow item hitem))
    (fun item _ => ⟨List.cons_ne_nil _ _, fun g => .symbol⟩) hf.row hnone
  rw [Expression.spelling, parts_choose, spell_append]
  exact (reads_binary hfirst hright hend).bind (hreads.map fun row => choose first row)

/-- A further target or the value of an assignment, behind the operator. -/
theorem reads_assigned {operator : Text} {value : Expression}
    (h : Readable.Assigned (operator, value)) (hf : ChoiceEnd f) :
    Reads (bound + 1) (assigned (Reader.below bound expression))
      (spell (.operator operator :: value.parts)) f (some (operator, value)) := by
  obtain ⟨hoperator, hread, hassignment⟩ := h
  have hahead := operatorAhead_operator (between_of_assignment hoperator)
    (loose_of_opens (hread.opens f))
  have hlook : Reads (bound + 1) (look Operators.assignment?) []
      (operatorPieces operator ++ value.spelling ++ f)
      (some (operator, (operatorPieces operator).length)) := by
    refine reads_look fun stream hpieces => ?_
    unfold Operators.assignment?
    rw [Operators.symbol?_eq, hpieces, List.append_assoc, hahead]
    simp only [Option.bind_eq_bind, Option.bind_some, isAssignment_iff.1 hoperator, if_true,
      Option.pure_def]
  refine Reads.bind_nothing hlook ?_
  exact reads_skip.bind ((reads_conditional hread hassignment hf).map fun value =>
    some (operator, value))

/-- A tree is read back by the rule for expressions. -/
theorem reads_expressionRule {tree : Expression} (h : Readable tree) (hf : ExpressionEnd f) :
    Reads (bound + 1) (expressionRule (Reader.below bound expression)) tree.spelling f tree := by
  obtain ⟨target, row, rfl, ⟨htarget, hassignment⟩, hrow⟩ := h.assignments
  have hnone : Reads (bound + 1) (assigned (Reader.below bound expression)) [] f none := by
    have hlook : Reads (bound + 1) (look Operators.assignment?) [] f none := by
      refine reads_look fun stream hpieces => ?_
      rw [← Option.map_eq_none_iff, Operators.assignment?_eq, hpieces]
      exact hf.assignment
    exact Reads.bind_nothing hlook (Reads.pure none)
  have hquestion : ∀ text ∈ Operators.between,
      pieceAt (operatorPieces text) 0 (·.isSymbol "?") = false := by decide
  have hstart : ∀ item ∈ row, spell (.operator item.1 :: item.2.parts) ≠ [] ∧
      ∀ g, ChoiceEnd (spell (.operator item.1 :: item.2.parts) ++ g) := by
    intro item hitem
    obtain ⟨hoperator, hread, -⟩ := hrow item hitem
    refine ⟨spell_operator_ne_nil _ _, fun g => ?_⟩
    rw [spell_cons, List.append_assoc]
    refine ⟨.assignment hoperator (loose_of_opens (hread.opens g)), ?_⟩
    exact pieceAt_operator (hquestion item.1 (between_of_assignment hoperator))
  obtain ⟨hreads, hend⟩ := reads_many_row ChoiceEnd
    (fun item hitem g => reads_assigned (hrow item hitem)) hstart hf.choice hnone
  rw [Expression.spelling, parts_assign, spell_append]
  exact (reads_conditional htarget hassignment hend).bind (hreads.map fun row => assign target row)

end Grammar

/-- A tree whose operands bind tightly enough is read back. -/
theorem Readable.readBack {tree : Expression} (h : Readable tree) : tree.ReadBack :=
  fun bound _ hf => Grammar.Reads.recursive (fun _ => Grammar.reads_expressionRule h hf) bound

/-! ## Trees of operators -/

/-- The text is one token of the given kind. -/
def Text.IsToken (kind : TokenKind) (text : Text) : Prop :=
  (TokenStream.ofSource text).map TokenStream.pieces = .ok [⟨kind, text, false⟩]

/-- A tree of assignments, conditions, operators and parentheses over names and literals. -/
inductive OperatorTree : Expression → Prop
  | assignment {target value : Expression} {operator : Text} (left : OperatorTree target)
      (right : OperatorTree value) : OperatorTree (.assignment target operator value)
  | conditional {condition thenValue elseValue : Expression} (test : OperatorTree condition)
      (first : OperatorTree thenValue) (second : OperatorTree elseValue) :
      OperatorTree (.conditional condition thenValue elseValue)
  | binary {kind : BinaryKind} {operator : Text} {left right : Expression}
      (first : OperatorTree left) (second : OperatorTree right) :
      OperatorTree (.binary kind operator left right)
  | unary {fixity : Fixity} {operator : Text} {operand : Expression}
      (inside : OperatorTree operand) : OperatorTree (.unary fixity operator operand)
  | parenthesized {inner : Expression} (inside : OperatorTree inner) :
      OperatorTree (.parenthesized inner)
  | identifier {name : Text} (token : Text.IsToken .word name)
      (free : (Piece.word name).isIdentifier = true) : OperatorTree (.primary (.identifier name))
  | literal {kind : TokenKind} {text : Text} (token : Text.IsToken kind text)
      (value : kind = .number ∨ kind = .string ∨
        kind = .word ∧ (Piece.word text).isWordIn Vocabulary.literals = true) :
      OperatorTree (.primary (.literal text))

theorem Text.IsToken.lexeme {kind : TokenKind} {text : Text} (h : Text.IsToken kind text) :
    Piece.Lexeme ⟨kind, text, false⟩ := by
  unfold Text.IsToken at h
  cases hstream : TokenStream.ofSource text with
  | error error =>
    rw [hstream] at h
    cases h
  | ok stream =>
    rw [hstream] at h
    refine TokenStream.lexeme_of_ofSource hstream _ ?_
    rw [Except.ok.inj h]
    exact List.mem_singleton_self _

/-- The kind of a literal is told by its first character. -/
theorem Text.IsToken.kind {kind : TokenKind} {text : Text} (h : Text.IsToken kind text) :
    TokenKind.ofText text = kind :=
  h.lexeme.regular.kind.symm

theorem Part.legible_symbol {text : Text} (h : text ∈ Scan.symbols := by decide) :
    (Part.symbol text).Legible :=
  ⟨Piece.lexeme_symbol h false, rfl⟩

namespace OperatorTree

/-- A tree whose operands bind tightly enough can be read back. -/
theorem readable {tree : Expression} (h : OperatorTree tree) (hgrouped : tree.GroupedAll) :
    Readable tree := by
  unfold Expression.GroupedAll at hgrouped
  induction h with
  | assignment _ _ ih ih' =>
    simp only [Expression.within, List.forall_mem_cons, List.forall_mem_append] at hgrouped
    obtain ⟨hnode, hleft, hright⟩ := hgrouped
    exact .assignment (ih hleft) (ih' hright) hnode
  | conditional _ _ _ ih ih' ih'' =>
    simp only [Expression.within, List.forall_mem_cons, List.forall_mem_append] at hgrouped
    obtain ⟨hnode, ⟨htest, hfirst⟩, hsecond⟩ := hgrouped
    exact .conditional (ih htest) ⟨(ih' hfirst).readBack, (ih' hfirst).guarded⟩ (ih'' hsecond) hnode
  | binary _ _ ih ih' =>
    simp only [Expression.within, List.forall_mem_cons, List.forall_mem_append] at hgrouped
    obtain ⟨hnode, hleft, hright⟩ := hgrouped
    exact .binary (ih hleft) (ih' hright) hnode
  | unary _ ih =>
    simp only [Expression.within, List.forall_mem_cons] at hgrouped
    exact .unary (ih hgrouped.2) hgrouped.1
  | parenthesized _ ih =>
    simp only [Expression.within, List.forall_mem_cons] at hgrouped
    have hinside := ih hgrouped.2
    -- between the parentheses anything may stand, so the grouping there starts anew
    exact .stem (.parenthesized ⟨hinside.readBack, hinside.guarded⟩)
  | identifier _ free => exact .stem (.identifier free)
  | literal token value => exact .stem (.literal (by rw [token.kind]; exact value))

/-- The parts of a tree whose operands bind tightly enough are cut into their pieces again. -/
theorem legible {tree : Expression} (h : OperatorTree tree) (hgrouped : tree.GroupedAll) :
    ∀ part ∈ tree.parts, part.Legible := by
  unfold Expression.GroupedAll at hgrouped
  induction h with
  | assignment _ _ ih ih' =>
    simp only [Expression.within, List.forall_mem_cons, List.forall_mem_append] at hgrouped
    obtain ⟨hnode, hleft, hright⟩ := hgrouped
    rw [Expression.parts, List.forall_mem_append, List.forall_mem_cons]
    have hoperator := isAssignment_iff.2 (List.mem_append.1 hnode.2)
    exact ⟨ih hleft, Grammar.between_of_assignment hoperator, ih' hright⟩
  | conditional _ _ _ ih ih' ih'' =>
    simp only [Expression.within, List.forall_mem_cons, List.forall_mem_append] at hgrouped
    obtain ⟨-, ⟨htest, hfirst⟩, hsecond⟩ := hgrouped
    simp only [Expression.parts, List.forall_mem_append, List.forall_mem_cons]
    exact ⟨ih htest, Part.legible_symbol, ih' hfirst, Part.legible_symbol, ih'' hsecond⟩
  | binary _ _ ih ih' =>
    simp only [Expression.within, List.forall_mem_cons, List.forall_mem_append] at hgrouped
    obtain ⟨⟨found, hfound, -⟩, hleft, hright⟩ := hgrouped
    rw [Expression.parts, List.forall_mem_append, List.forall_mem_cons]
    exact ⟨ih hleft, Grammar.between_of_binary hfound, ih' hright⟩
  | @unary fixity _ _ _ ih =>
    simp only [Expression.within, List.forall_mem_cons] at hgrouped
    cases fixity with
    | leading =>
      rw [Expression.parts, List.forall_mem_cons]
      exact ⟨hgrouped.1.1, ih hgrouped.2⟩
    | trailing =>
      rw [Expression.parts, List.forall_mem_append]
      exact ⟨ih hgrouped.2, List.forall_mem_singleton.2 hgrouped.1.1⟩
  | parenthesized _ ih =>
    simp only [Expression.within, List.forall_mem_cons] at hgrouped
    rw [Expression.parts, List.forall_mem_cons, List.forall_mem_append]
    exact ⟨Part.legible_symbol, ih hgrouped.2, List.forall_mem_singleton.2 Part.legible_symbol⟩
  | identifier token _ =>
    exact List.forall_mem_singleton.2 ⟨token.lexeme, rfl⟩
  | literal token value =>
    refine List.forall_mem_singleton.2 ⟨by rw [token.kind]; exact token.lexeme, ?_⟩
    rw [token.kind]
    rcases value with rfl | rfl | ⟨rfl, -⟩ <;> decide

/-- A tree whose operands bind tightly enough is printed, and the same in all surroundings: there
is no chain in it. -/
theorem renders {tree : Expression} (h : OperatorTree tree) (hgrouped : tree.GroupedAll) :
    ∃ text, ∀ context outer, tree.renderWithin context outer = .ok text := by
  -- printing refuses an empty operator only, and no known operator is empty
  have hoperator : ∀ {kind operator}, operator ∈
      Operators.leading ++ Operators.trailing ++ Operators.between →
      requireOperator kind operator = .ok () := by
    intro kind operator hmem
    have hall : ∀ operator ∈ Operators.leading ++ Operators.trailing ++ Operators.between,
        operator.isEmpty = false := by decide
    unfold requireOperator
    rw [hall operator hmem]
    rfl
  unfold Expression.GroupedAll at hgrouped
  induction h with
  | @assignment _ _ operator _ _ ih ih' =>
    simp only [Expression.within, List.forall_mem_cons, List.forall_mem_append] at hgrouped
    obtain ⟨hnode, hleft, hright⟩ := hgrouped
    have hbetween := Grammar.between_of_assignment (isAssignment_iff.2 (List.mem_append.1 hnode.2))
    obtain ⟨first, hfirst⟩ := ih hleft
    obtain ⟨second, hsecond⟩ := ih' hright
    refine ⟨first ++ " " ++ operator ++ " " ++ second, fun context outer => ?_⟩
    rw [Expression.renderWithin, hoperator (List.mem_append_right _ hbetween), hfirst, hsecond]
    rfl
  | conditional _ _ _ ih ih' ih'' =>
    simp only [Expression.within, List.forall_mem_cons, List.forall_mem_append] at hgrouped
    obtain ⟨-, ⟨htest, hfirst⟩, hsecond⟩ := hgrouped
    obtain ⟨test, htest⟩ := ih htest
    obtain ⟨first, hfirst⟩ := ih' hfirst
    obtain ⟨second, hsecond⟩ := ih'' hsecond
    refine ⟨test ++ " ? " ++ first ++ " : " ++ second, fun context outer => ?_⟩
    rw [Expression.renderWithin, htest, hfirst, hsecond]
    rfl
  | @binary _ operator _ _ _ _ ih ih' =>
    simp only [Expression.within, List.forall_mem_cons, List.forall_mem_append] at hgrouped
    obtain ⟨⟨found, hfound, -⟩, hleft, hright⟩ := hgrouped
    have hbetween := Grammar.between_of_binary hfound
    obtain ⟨first, hfirst⟩ := ih hleft
    obtain ⟨second, hsecond⟩ := ih' hright
    refine ⟨first ++ " " ++ operator ++ " " ++ second, fun context outer => ?_⟩
    rw [Expression.renderWithin, hoperator (List.mem_append_right _ hbetween), hfirst, hsecond]
    rfl
  | @unary fixity operator _ _ ih =>
    simp only [Expression.within, List.forall_mem_cons] at hgrouped
    obtain ⟨inner, hinner⟩ := ih hgrouped.2
    cases fixity with
    | leading =>
      refine ⟨leadingOperator operator inner, fun context outer => ?_⟩
      rw [Expression.renderWithin, hinner, hoperator
        (List.mem_append_left _ (List.mem_append_left _ hgrouped.1.1))]
      rfl
    | trailing =>
      refine ⟨inner ++ operator, fun context outer => ?_⟩
      rw [Expression.renderWithin, hinner, hoperator
        (List.mem_append_left _ (List.mem_append_right _ hgrouped.1.1))]
      rfl
  | parenthesized _ ih =>
    simp only [Expression.within, List.forall_mem_cons] at hgrouped
    obtain ⟨inner, hinner⟩ := ih hgrouped.2
    refine ⟨"(" ++ inner ++ ")", fun context outer => ?_⟩
    rw [Expression.renderWithin, hinner]
    rfl
  | identifier => exact ⟨_, fun _ _ => rfl⟩
  | literal => exact ⟨_, fun _ _ => rfl⟩

end OperatorTree

/-- Printing and reading are inverse to each other on just those trees of operators whose operands
bind tightly enough. -/
theorem parse_render_iff_grouped {tree : Expression} (h : OperatorTree tree) (context : Context) :
    (∃ text, tree.render context = .ok text ∧ parseExpression text = .ok tree) ↔
      tree.GroupedAll := by
  constructor
  · rintro ⟨text, -, hparse⟩
    obtain ⟨stream, final, -, hexpression, -⟩ := Grammar.readSource_eq_ok.1 hparse
    exact Grammar.expression_grouped _ _ _ hexpression
  · intro hgrouped
    obtain ⟨text, hrender⟩ := h.renders hgrouped
    refine ⟨text, hrender context none, ?_⟩
    -- on one line nothing is asked of the literals
    have hprintable : Printable context.inlined tree.parts :=
      ⟨h.legible hgrouped, fun hinline => by cases hinline⟩
    have hlaid := (tree.prints context.inlined none text hprintable (by simp) (hrender _ _)).laid
    have hspelled := hlaid.spelled (fun c hc => (context.inlined.indentUnit_blank c hc).1)
      fun modifier hmodifier => absurd hmodifier (tree.modifier_not_mem modifier)
    rw [← List.append_nil text]
    exact hspelled.readSource (fun bound => (h.readable hgrouped).readBack bound [] .nothing) (by simp)

/-- Signs that would run together are kept apart, and a comparison in parentheses is no cast. -/
theorem parse_render_iff_grouped_signs :
    ∃ tree, parseExpression "- --x - (a > 1)" = .ok tree ∧ OperatorTree tree ∧
      ((∃ text, tree.render { settings := {} } = .ok text ∧ parseExpression text = .ok tree) ↔
        tree.GroupedAll) := by
  have hname : Text.IsToken .word "x" ∧ Text.IsToken .word "a" ∧ Text.IsToken .number "1" := by
    unfold Text.IsToken
    decide +kernel
  have htree : OperatorTree (.binary .arithmetic "-" (.unary .leading "-" (.unary .leading "--"
      (.primary (.identifier "x")))) (.parenthesized (.binary .comparison ">"
        (.primary (.identifier "a")) (.primary (.literal "1"))))) :=
    .binary (.unary (.unary (.identifier hname.1 (by decide))))
      (.parenthesized (.binary (.identifier hname.2.1 (by decide)) (.literal hname.2.2 (.inl rfl))))
  exact ⟨_, by decide +kernel, htree, parse_render_iff_grouped htree _⟩

end ApexLayout
