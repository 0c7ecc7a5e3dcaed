import ApexLayout.Proofs.Replay.Operand

/-!
Expressions are read back from what is printed for them.

The rules read flat rows of operands and operators, so no rule has to know how tightly operators
bind: the same rows are folded into the same trees.
-/

namespace ApexLayout

/-! ## Where expressions begin -/

/-- The words that may begin an expression and are no identifiers. -/
def openingWords : List Text :=
  Vocabulary.literals ++ ["this", "super", "new"].map String.toList

/-- The symbols that may begin an expression. -/
def openingSymbols : List Text := Operators.leading ++ ["(", "["].map String.toList

/-- Whether a piece may begin an expression. -/
def Piece.opens (piece : Piece) : Bool :=
  match piece.kind with
  | .number | .string => true
  | .word => piece.isWordIn openingWords || piece.isIdentifier
  | .symbol => piece.isSymbolIn openingSymbols

theorem Piece.respects_opens : Piece.Respects Piece.opens := by
  intro source printed h
  have hwords := Piece.respects_isWordIn openingWords source printed h
  have hsymbols := Piece.respects_isSymbolIn openingSymbols source printed h
  simp only at hwords hsymbols
  unfold Piece.opens
  rw [h.kind, hwords, hsymbols, Piece.respects_isIdentifier source printed h]

/-- No other symbol begins an expression. -/
theorem Piece.isSymbol_of_opens {piece : Piece} {text : Text} (h : piece.opens = true)
    (htext : text ∉ openingSymbols) : piece.isSymbol text = false := by
  cases hsymbol : piece.isSymbol text with
  | false => rfl
  | true =>
    obtain ⟨hkind, rfl⟩ := Piece.isSymbol_iff.1 hsymbol
    unfold Piece.opens Piece.isSymbolIn at h
    rw [hkind] at h
    obtain ⟨symbol, hmem, hequal⟩ := List.any_eq_true.1 h
    obtain ⟨-, rfl⟩ := Piece.isSymbol_iff.1 hequal
    exact absurd hmem htext

theorem loose_of_opens {pieces : List Piece} (h : pieceAt pieces 0 Piece.opens = true) :
    Loose pieces := by
  obtain ⟨piece, rest, rfl, hopens⟩ := Grammar.pieceAt_zero_true h
  unfold Loose Piece.isGlued
  rw [pieceAt_zero, pieceAt_zero, Piece.isSymbol_of_opens hopens (by decide),
    Piece.isSymbol_of_opens hopens (by decide)]
  exact ⟨rfl, rfl⟩

namespace Grammar

variable {bound : Nat} {source rest : TokenStream} {inner inner' : Grammar Expression}

theorem isWordIn_of_isWord {piece : Piece} {word : Text} {words : List Text}
    (h : piece.isWord word = true) (hmem : word ∈ words) : piece.isWordIn words = true :=
  List.any_eq_true.2 ⟨word, hmem, h⟩

theorem opens_of_word {piece : Piece} {word : Text} (h : piece.isWord word = true)
    (hmem : word ∈ openingWords) : piece.opens = true := by
  unfold Piece.opens
  rw [(Piece.isWord_iff.1 h).1, isWordIn_of_isWord h hmem]
  rfl

theorem opens_of_symbol {piece : Piece} {text : Text} (h : piece.isSymbol text = true)
    (hmem : text ∈ openingSymbols) : piece.opens = true := by
  unfold Piece.opens
  rw [(Piece.isSymbol_iff.1 h).1]
  exact List.any_eq_true.2 ⟨text, hmem, h⟩

theorem opens_of_wordAt {word : Text} (h : source.wordAt 0 word = true)
    (hmem : word ∈ openingWords) : pieceAt source.pieces 0 Piece.opens = true := by
  rw [TokenStream.wordAt_eq] at h
  exact pieceAt_zero_imp h fun _ hword => opens_of_word hword hmem

theorem opens_of_symbolAt {text : Text} (h : source.symbolAt 0 text = true)
    (hmem : text ∈ openingSymbols) : pieceAt source.pieces 0 Piece.opens = true := by
  rw [TokenStream.symbolAt_eq] at h
  exact pieceAt_zero_imp h fun _ hsymbol => opens_of_symbol hsymbol hmem

theorem WordAlternative.opens {value : Expression} (h : WordAlternative inner source value rest) :
    pieceAt source.pieces 0 Piece.opens = true := by
  cases h with
  | literal ahead =>
    rw [TokenStream.wordInAt_eq] at ahead
    refine pieceAt_zero_imp ahead fun piece hliteral => ?_
    obtain ⟨word, hmem, hword⟩ := List.any_eq_true.1 hliteral
    exact opens_of_word hword (List.mem_append_left _ hmem)
  | this ahead => exact opens_of_wordAt ahead (by decide)
  | super ahead => exact opens_of_wordAt ahead (by decide)
  | creation taken => exact opens_of_wordAt (takeWord_eq_ok.1 taken).1 (by decide)
  | named ahead =>
    rw [TokenStream.identifierAt_eq] at ahead
    refine pieceAt_zero_imp ahead fun piece hname => ?_
    unfold Piece.opens
    rw [Piece.isIdentifier_word hname, hname]
    simp

theorem primary_opens {value : Expression} (h : primary inner source = .ok value rest) :
    pieceAt source.pieces 0 Piece.opens = true := by
  cases primary_cases h with
  | literal ahead =>
    rw [TokenStream.kindAt_eq source 0 fun kind => kind == .number || kind == .string] at ahead
    refine pieceAt_zero_imp ahead fun piece hkind => ?_
    unfold Piece.opens
    simp only [Bool.or_eq_true, beq_iff_eq] at hkind
    rcases hkind with hkind | hkind <;> rw [hkind]
  | word _ read => exact read.opens
  | parenthesized taken => exact opens_of_symbolAt (takeSymbol_eq_ok.1 taken).1 (by decide)
  | query ahead => exact opens_of_symbolAt ahead (by decide)

theorem front_opens {value : Front} (h : front source = .ok (some value) rest) :
    pieceAt source.pieces 0 Piece.opens = true := by
  unfold front at h
  obtain ⟨found, middle, hfound, h⟩ := Reader.bind_eq_ok.1 h
  obtain ⟨hleading, rfl⟩ := look_eq_ok.1 hfound
  cases found with
  | true =>
    rw [TokenStream.symbolInAt_eq] at hleading
    refine pieceAt_zero_imp hleading fun piece hleading => ?_
    obtain ⟨text, hmem, htext⟩ := List.any_eq_true.1 hleading
    exact opens_of_symbol htext (List.mem_append_left _ hmem)
  | false =>
    simp only [Bool.false_eq_true, if_false] at h
    obtain ⟨opened, behind, hopened, h⟩ := Reader.bind_eq_ok.1 h
    cases opened with
    | false => cases h
    | true =>
      obtain ⟨hparenthesis, -⟩ := atSymbol_eq_ok.1 hopened
      exact pieceAt_zero_imp hparenthesis fun _ hsymbol => opens_of_symbol hsymbol (by decide)

theorem unary_opens {value : Expression} (h : unary inner source = .ok value rest) :
    pieceAt source.pieces 0 Piece.opens = true := by
  unfold unary stepped at h
  obtain ⟨fronts, middle, hfronts, h⟩ := Reader.bind_eq_ok.1 h
  obtain ⟨operand, final, hoperand, -⟩ := Reader.bind_eq_ok.1 h
  obtain ⟨first, behind, hfirst, -⟩ := Reader.bind_eq_ok.1 hoperand
  cases Reader.many_eq_ok.1 hfronts with
  | stop hlast =>
    obtain ⟨rfl, -⟩ := front_eq_none hlast
    exact primary_opens hfirst
  | round hround _ _ => exact front_opens hround

theorem binary_opens {value : Expression} (h : binary inner source = .ok value rest) :
    pieceAt source.pieces 0 Piece.opens = true := by
  obtain ⟨_, _, hfirst, -⟩ := Reader.bind_eq_ok.1 h
  exact unary_opens hfirst

theorem conditional_opens {value : Expression} (h : conditional inner source = .ok value rest) :
    pieceAt source.pieces 0 Piece.opens = true := by
  obtain ⟨_, _, hfirst, -⟩ := Reader.bind_eq_ok.1 h
  exact binary_opens hfirst

theorem expression_opens {value : Expression} (h : expression source = .ok value rest) :
    pieceAt source.pieces 0 Piece.opens = true := by
  have h := (Reader.recursive_run expressionRule source).symm.trans h
  obtain ⟨_, _, hfirst, -⟩ := Reader.bind_eq_ok.1 h
  exact conditional_opens hfirst

/-! ## Operators between operands -/

theorem between_of_binary {text : Text} {operator : BinaryOperator}
    (h : BinaryOperator.ofText? text = some operator) : text ∈ Operators.between := by
  have htext : operator.text = text := by simpa using List.find?_some h
  have hmem := List.mem_map_of_mem (f := BinaryOperator.text) (List.mem_of_find?_eq_some h)
  unfold Operators.between
  rw [← htext, List.append_assoc]
  exact List.mem_append_left _ hmem

theorem between_of_assignment {text : Text} (h : isAssignment text = true) :
    text ∈ Operators.between := by
  unfold Operators.between
  rw [List.append_assoc]
  rw [isAssignment_iff, ← List.mem_append] at h
  exact List.mem_append_right _ h

/-- An operator that is skipped is printed as itself. -/
theorem printed_operator {text : Text} {count : Nat}
    (hsource : ∀ piece ∈ source.pieces, piece.Regular)
    (h : operatorAhead source.pieces = some (text, count)) (htext : text ∈ Operators.between) :
    Printed source.pieces (source.skip count).pieces [.operator text] ∧
      (operatorPieces text).length = count := by
  obtain ⟨taken, htaken, hlength, hsame⟩ := operatorAhead_eq_some hsource h
  refine ⟨⟨by simpa [Part.WellFormed] using htext, taken, ?_, ?_⟩, ?_⟩
  · rw [TokenStream.pieces_skip]
    exact htaken
  · simp only [spell_cons, spell_nil, List.append_nil, Part.pieces]
    exact hsame.matchAll
  · rw [← hsame.length_eq, hlength]

/-- An operand behind an operator begins with something that cannot be glued to it. -/
theorem loose_of_printed {middle rest f : List Piece} {parts : List Part}
    (hopens : pieceAt middle 0 Piece.opens = true) (hprinted : Printed middle rest parts)
    (hf : Similar rest f) : Loose (spell parts ++ f) := by
  apply loose_of_opens
  rw [← (hprinted.similar hf).first Piece.respects_opens]
  exact hopens

/-- An operator and what stands behind it. -/
theorem replay_operator {follow : Follow} {γ β : Type} {view : TokenStream → Option (γ × Nat)}
    {next : Option (γ × Nat) → Grammar β} {body : Grammar β} {operator : γ} {text : Text}
    {count : Nat} {rest : List Piece} {parts : List Part} {value : β}
    (hview : ∀ stream : TokenStream, operatorAhead stream.pieces = some (text, count) →
      view stream = some (operator, count))
    (hahead : operatorAhead source.pieces = some (text, count)) (htext : text ∈ Operators.between)
    (hopens : pieceAt (source.skip count).pieces 0 Piece.opens = true)
    (hnext : next (some (operator, count)) = (skip count >>= fun _ => body))
    (hbody : ReplayBy follow bound body (source.skip count).pieces rest parts value)
    (hfollow : ∀ f, follow rest f → Similar rest f) :
    ReplayBy follow bound (look view >>= next) source.pieces rest (.operator text :: parts)
      value := by
  intro hsource hquery
  obtain ⟨hprinted, hcount⟩ := printed_operator hsource hahead htext
  obtain ⟨hprinted', hreads⟩ := hbody
    (fun piece hpiece => hsource piece (hprinted.mem_of_mem hpiece))
    fun hmem => hquery (List.mem_cons_of_mem _ hmem)
  refine ⟨hprinted.trans hprinted', fun f hf => ?_⟩
  have hlook : Reads bound (look view) [] (operatorPieces text ++ spell parts ++ f)
      (some (operator, count)) := by
    apply reads_look
    intro stream hpieces
    refine hview stream ?_
    rw [hpieces, List.append_assoc, ← hcount]
    -- an operand follows, which cannot glue a sign to the operator
    exact operatorAhead_printed hsource hahead (loose_of_printed hopens hprinted' (hfollow f hf))
  have hskip : Reads bound (skip count) (operatorPieces text) (spell parts ++ f) () := by
    rw [← hcount]
    exact reads_skip
  refine Reads.bind_nothing hlook ?_
  rw [hnext]
  exact hskip.bind (hreads f hf)

/-- The same operator is seen in the source and in print. -/
theorem ahead_printed {text : Text} {count : Nat} {rest f : List Piece} {parts : List Part}
    (hsource : ∀ piece ∈ source.pieces, piece.Regular)
    (hahead : operatorAhead source.pieces = some (text, count)) (htext : text ∈ Operators.between)
    (hopens : pieceAt (source.skip count).pieces 0 Piece.opens = true)
    (hprinted : Printed (source.skip count).pieces rest parts) (hf : Similar rest f) :
    Ahead source.pieces (spell (.operator text :: parts) ++ f) := by
  refine ⟨((printed_operator hsource hahead htext).1.trans hprinted).similar hf, ?_⟩
  have hloose := loose_of_printed hopens hprinted hf
  have hthere := operatorAhead_printed hsource hahead hloose
  unfold operatorText
  rw [spell_cons, List.append_assoc, hahead]
  show _ = (operatorAhead (operatorPieces text ++ (spell parts ++ f))).map Prod.fst
  rw [hthere]
  rfl

/-- The parts of what follows an operand in a row. -/
def operationParts : Operators.Operation → List Part
  | .binary operator right => .operator operator.text :: right.parts
  | .instanceOf type => [.word "instanceof", .type type]

section

variable (hinner : ∀ source value rest, inner source = .ok value rest →
  Replay bound inner' source.pieces rest.pieces value.parts value)

include hinner

theorem replay_operation {value : Operators.Operation}
    (h : operation inner source = .ok (some value) rest) :
    Replay (bound + 1) (operation inner') source.pieces rest.pieces (operationParts value)
      (some value) := by
  unfold operation at h
  obtain ⟨tested, middle, htested, hrun⟩ := Reader.bind_eq_ok.1 h
  clear h
  cases tested with
  | true =>
    simp only [if_true, Reader.bind_eq_ok] at hrun
    obtain ⟨type, final, htype, h⟩ := hrun
    cases h
    refine Replay.bind (replay_takeWord_true htested (by decide)) ?_
    exact (replay_typeRef htype).map fun type => some (Operators.Operation.instanceOf type)
  | false =>
    obtain ⟨rfl, -⟩ := takeWord_false htested
    refine Replay.bind_nothing (replay_takeWord_false htested) ?_
    simp only [Bool.false_eq_true, if_false] at hrun
    obtain ⟨found, behind, hfound, h⟩ := Reader.bind_eq_ok.1 hrun
    clear hrun
    obtain ⟨hbinary, rfl⟩ := look_eq_ok.1 hfound
    cases found with
    | none => cases h
    | some found =>
      obtain ⟨operator, count⟩ := found
      simp only [Reader.bind_eq_ok, skip_eq_ok] at h
      obtain ⟨_, _, rfl, right, final, hright, h⟩ := h
      cases h
      obtain ⟨hahead, hknown⟩ := Operators.binary?_eq_some hbinary
      -- the printed row shows the same operator, so the same entry of the table is found
      refine replay_operator (fun stream hstream => ?_) hahead (between_of_binary hknown)
        (unary_opens hright) rfl
        ((replay_unary hinner hright).map fun right =>
          some (Operators.Operation.binary operator right)) fun _ hf => hf
      unfold Operators.binary?
      rw [Operators.symbol?_eq, hstream]
      show (BinaryOperator.ofText? operator.text).bind _ = _
      rw [hknown]
      rfl

omit hinner in
/-- Where no operation follows. -/
theorem operation_eq_none (h : operation inner source = .ok none rest) :
    rest = source ∧ takeWord "instanceof" source = .ok false source ∧
      (operatorText source.pieces).bind BinaryOperator.ofText? = none := by
  unfold operation at h
  obtain ⟨tested, middle, htested, hrun⟩ := Reader.bind_eq_ok.1 h
  clear h
  cases tested with
  | true =>
    simp only [if_true, Reader.bind_eq_ok, Reader.pure_run, EStateM.Result.ok.injEq, reduceCtorEq,
      false_and, and_false, exists_false] at hrun
  | false =>
    obtain ⟨rfl, -⟩ := takeWord_false htested
    simp only [Bool.false_eq_true, if_false] at hrun
    obtain ⟨found, behind, hfound, h⟩ := Reader.bind_eq_ok.1 hrun
    clear hrun
    obtain ⟨hbinary, rfl⟩ := look_eq_ok.1 hfound
    cases found with
    | some found =>
      simp only [Reader.bind_eq_ok, Reader.pure_run, EStateM.Result.ok.injEq, reduceCtorEq,
        false_and, and_false, exists_false] at h
    | none =>
      cases h
      refine ⟨rfl, htested, ?_⟩
      rw [← Operators.binary?_eq, hbinary]
      rfl

omit hinner in
/-- Where no operation follows in the source, none follows in print. -/
theorem reads_operation_none {f : List Piece} (h : operation inner source = .ok none rest)
    (hf : Ahead source.pieces f) : Reads bound (operation inner') [] f none := by
  obtain ⟨-, htested, hnone⟩ := operation_eq_none h
  obtain ⟨-, hword⟩ := takeWord_false htested
  have htest : Reads bound (takeWord "instanceof") [] ([] ++ f) false := by
    apply reads_takeWord_false
    rw [List.nil_append, ← hf.1.first (Piece.respects_isWord _), hword]
  have hlook : Reads bound (look Operators.binary?) [] ([] ++ f) none := by
    apply reads_look
    intro stream hpieces
    have hmap := Operators.binary?_eq stream
    rw [hpieces, List.nil_append, ← hf.2, hnone] at hmap
    exact Option.map_eq_none_iff.1 hmap
  exact htest.bind (hlook.bind (Reads.pure none))

end

/-! ## Grouping -/

/-- The parts of pending operands, the outermost first. -/
def pendingParts : List Operators.Pending → List Part
  | [] => []
  | pending :: outer =>
    pendingParts outer ++ (pending.left.parts ++ [.operator pending.operator.text])

/-- Completing pending operands moves no part. -/
theorem parts_reduce (level : Nat) (stack : List Operators.Pending) (operand : Expression) :
    pendingParts (Operators.reduce level stack operand).1 ++
        (Operators.reduce level stack operand).2.parts =
      pendingParts stack ++ operand.parts := by
  induction stack generalizing operand with
  | nil => rfl
  | cons pending outer ih =>
    unfold Operators.reduce
    by_cases hlevel : level ≤ pending.operator.precedence
    · rw [if_pos hlevel, ih]
      simp [pendingParts, Operators.Pending.close, Expression.parts]
    · rw [if_neg hlevel]

theorem reduce_zero (stack : List Operators.Pending) (operand : Expression) :
    (Operators.reduce 0 stack operand).1 = [] := by
  induction stack generalizing operand with
  | nil => rfl
  | cons pending outer ih =>
    unfold Operators.reduce
    rw [if_pos (Nat.zero_le _)]
    exact ih _

theorem parts_assembleFrom (stack : List Operators.Pending) (operand : Expression)
    (row : List Operators.Operation) :
    (Operators.assembleFrom stack operand row).parts =
      pendingParts stack ++ operand.parts ++ row.flatMap operationParts := by
  induction row generalizing stack operand with
  | nil =>
    have hreduce := parts_reduce 0 stack operand
    rw [reduce_zero] at hreduce
    rw [Operators.assembleFrom, List.flatMap_nil, List.append_nil, ← hreduce]
    rfl
  | cons operation rest ih =>
    cases operation with
    | binary operator right =>
      rw [Operators.assembleFrom, ih, List.flatMap_cons,
        ← parts_reduce operator.precedence stack operand]
      simp [pendingParts, operationParts]
    | instanceOf type =>
      rw [Operators.assembleFrom, ih, List.flatMap_cons,
        ← parts_reduce Operators.instanceOfPrecedence stack operand]
      simp [operationParts, Expression.parts]

/-- Grouping a row moves no part. -/
theorem parts_assemble (first : Expression) (row : List Operators.Operation) :
    (Operators.assemble first row).parts = first.parts ++ row.flatMap operationParts :=
  parts_assembleFrom [] first row

theorem parts_choose (first : Expression) (row : List (Expression × Expression)) :
    (choose first row).parts = first.parts ++
      row.flatMap fun item => .symbol "?" :: (item.1.parts ++ .symbol ":" :: item.2.parts) := by
  induction row generalizing first with
  | nil => simp [choose]
  | cons item rest ih => simp [choose, Expression.parts, ih]

theorem parts_assign (target : Expression) (row : List (Text × Expression)) :
    (assign target row).parts =
      target.parts ++ row.flatMap fun item => .operator item.1 :: item.2.parts := by
  induction row generalizing target with
  | nil => simp [assign]
  | cons item rest ih => simp [assign, Expression.parts, ih]

/-! ## Rows -/

theorem binary_ends {value : Expression} (h : binary inner source = .ok value rest) :
    (operatorText rest.pieces).bind BinaryOperator.ofText? = none := by
  unfold binary at h
  obtain ⟨first, middle, -, h⟩ := Reader.bind_eq_ok.1 h
  obtain ⟨row, final, hrow, h⟩ := Reader.bind_eq_ok.1 h
  cases h
  obtain ⟨last, hlast⟩ := (Reader.many_eq_ok.1 hrow).exists_stop
  obtain ⟨rfl, -, hnone⟩ := operation_eq_none hlast
  exact hnone

theorem outcomes_eq_none (h : outcomes inner source = .ok none rest) :
    rest = source ∧ pieceAt source.pieces 0 (·.isSymbol "?") = false := by
  unfold outcomes at h
  obtain ⟨found, middle, hfound, h⟩ := Reader.bind_eq_ok.1 h
  cases found with
  | true =>
    simp only [if_true, Reader.bind_eq_ok, Reader.pure_run, EStateM.Result.ok.injEq, reduceCtorEq,
      false_and, and_false, exists_false] at h
  | false =>
    cases h
    exact takeSymbol_false hfound

theorem outcomes_eq_some {item : Expression × Expression}
    (h : outcomes inner source = .ok (some item) rest) :
    ∃ behind middle last, takeSymbol "?" source = .ok true behind ∧
      inner behind = .ok item.1 middle ∧ symbol ":" middle = .ok () last ∧
      binary inner last = .ok item.2 rest := by
  unfold outcomes at h
  obtain ⟨found, behind, hfound, h⟩ := Reader.bind_eq_ok.1 h
  cases found with
  | false => cases h
  | true =>
    simp only [if_true, Reader.bind_eq_ok] at h
    obtain ⟨first, middle, hfirst, _, last, hcolon, second, final, hsecond, h⟩ := h
    cases h
    exact ⟨behind, middle, last, hfound, hfirst, hcolon, hsecond⟩

theorem conditional_ends {value : Expression} (h : conditional inner source = .ok value rest) :
    (operatorText rest.pieces).bind BinaryOperator.ofText? = none := by
  unfold conditional at h
  obtain ⟨first, middle, hfirst, h⟩ := Reader.bind_eq_ok.1 h
  obtain ⟨row, final, hrow, h⟩ := Reader.bind_eq_ok.1 h
  cases h
  refine Reader.Rounds.final
    (fun place => (operatorText place.pieces).bind BinaryOperator.ofText? = none) ?_
    (fun _ _ hstop => (outcomes_eq_none hstop).1) (Reader.many_eq_ok.1 hrow) (binary_ends hfirst)
  intro input item middle hround
  obtain ⟨_, _, _, -, -, -, hlast⟩ := outcomes_eq_some hround
  exact binary_ends hlast

section

variable (hinner : ∀ source value rest, inner source = .ok value rest →
  Replay bound inner' source.pieces rest.pieces value.parts value)

include hinner

theorem replay_binary {value : Expression} (h : binary inner source = .ok value rest) :
    ReplayBy Ahead (bound + 1) (binary inner') source.pieces rest.pieces value.parts value := by
  unfold binary at h
  obtain ⟨first, middle, hfirst, h⟩ := Reader.bind_eq_ok.1 h
  obtain ⟨row, final, hrow, h⟩ := Reader.bind_eq_ok.1 h
  cases h
  rw [parts_assemble]
  obtain ⟨last, hlast, hmany, -⟩ := replay_rounds (fun _ _ _ => replay_operation hinner)
    (fun _ _ _ _ _ _ hprinted f hf => hprinted.similar hf) (Reader.many_eq_ok.1 hrow)
  obtain ⟨rfl, -⟩ := operation_eq_none hlast
  have hrow' := hmany.mono fun f (hf : Ahead rest.pieces f) => ⟨hf.1, reads_operation_none hlast hf⟩
  exact ReplayBy.bind_of_le (replay_unary hinner hfirst)
    (hrow'.map fun row => Operators.assemble first row)
    (fun _ _ hprinted f hf => hprinted.similar hf.1) (by omega)

/-- The parts of the two outcomes of a condition. -/
theorem replay_outcomes {item : Expression × Expression}
    (h : outcomes inner source = .ok (some item) rest) :
    ReplayBy Ahead (bound + 1) (outcomes inner') source.pieces rest.pieces
      (.symbol "?" :: (item.1.parts ++ .symbol ":" :: item.2.parts)) (some item) := by
  obtain ⟨behind, middle, last, hfound, hfirst, hcolon, hsecond⟩ := outcomes_eq_some h
  have hbinary : ReplayBy Ahead bound (binary inner') _ _ item.2.parts item.2 :=
    (replay_binary hinner hsecond).mono_bound (Nat.le_succ bound)
  have hsimilar : ∀ f, Ahead rest.pieces f → Similar rest.pieces f := fun f hf => hf.1
  refine Replay.bind_less_by (replay_takeSymbol_true hfound) ?_ hsimilar
  refine (hinner _ _ _ hfirst).bind_by ?_ hsimilar
  exact (replay_symbol hcolon).bind_by (hbinary.map fun second => some (item.1, second)) hsimilar

omit hinner in
/-- A question mark is seen in the source and in print. -/
theorem ahead_outcomes {item : Expression × Expression} {parts : List Part} {f : List Piece}
    (h : outcomes inner source = .ok (some item) rest)
    (hprinted : Printed source.pieces rest.pieces parts) (hf : Ahead rest.pieces f) :
    Ahead source.pieces (spell parts ++ f) := by
  refine Ahead.of_similar (hprinted.similar hf.1) ?_
  obtain ⟨_, _, _, hfound, -⟩ := outcomes_eq_some h
  obtain ⟨piece, hpieces, hpiece⟩ := takeSymbol_true hfound
  rw [hpieces, pieceAt_zero, Piece.isSymbol_eq_false hpiece (by decide)]

theorem replay_conditional {value : Expression} (h : conditional inner source = .ok value rest) :
    ReplayBy Ahead (bound + 1) (conditional inner') source.pieces rest.pieces value.parts value := by
  unfold conditional at h
  obtain ⟨first, middle, hfirst, h⟩ := Reader.bind_eq_ok.1 h
  obtain ⟨row, final, hrow, h⟩ := Reader.bind_eq_ok.1 h
  cases h
  rw [parts_choose]
  obtain ⟨last, hlast, hmany, hbefore⟩ := replay_rounds (fun _ _ _ => replay_outcomes hinner)
    (fun _ _ _ hround _ _ hprinted f hf => ahead_outcomes hround hprinted hf)
    (Reader.many_eq_ok.1 hrow)
  obtain ⟨rfl, hnone⟩ := outcomes_eq_none hlast
  have hend : ∀ f, Ahead rest.pieces f → Reads (bound + 1) (outcomes inner') [] f none := by
    intro f hf
    refine Reads.bind_nothing (reads_takeSymbol_false ?_) (Reads.pure none)
    rw [List.nil_append, ← hf.1.first (Piece.respects_isSymbol _), hnone]
  have hrow' := hmany.mono fun f (hf : Ahead rest.pieces f) => ⟨hf, hend f hf⟩
  exact ReplayBy.bind_of_le (replay_binary hinner hfirst) (hrow'.map fun row => choose first row)
    (fun hregular hquery _ f hf => hbefore hregular hquery f hf) (by omega)

omit hinner in
theorem assigned_eq_none (h : assigned inner source = .ok none rest) :
    rest = source ∧ (Operators.assignment? source).map Prod.fst = none := by
  unfold assigned at h
  obtain ⟨found, middle, hfound, h⟩ := Reader.bind_eq_ok.1 h
  obtain ⟨hahead, rfl⟩ := look_eq_ok.1 hfound
  cases found with
  | none =>
    cases h
    exact ⟨rfl, by rw [hahead]; rfl⟩
  | some found =>
    simp only [Reader.bind_eq_ok, Reader.pure_run, EStateM.Result.ok.injEq, reduceCtorEq,
      false_and, and_false, exists_false] at h

omit hinner in
theorem assigned_eq_some {item : Text × Expression}
    (h : assigned inner source = .ok (some item) rest) :
    ∃ count, Operators.assignment? source = some (item.1, count) ∧
      conditional inner (source.skip count) = .ok item.2 rest := by
  unfold assigned at h
  obtain ⟨found, middle, hfound, h⟩ := Reader.bind_eq_ok.1 h
  obtain ⟨hahead, rfl⟩ := look_eq_ok.1 hfound
  cases found with
  | none => cases h
  | some found =>
    simp only [Reader.bind_eq_ok, skip_eq_ok] at h
    obtain ⟨_, _, rfl, value, final, hvalue, h⟩ := h
    cases h
    exact ⟨found.2, hahead, hvalue⟩

theorem replay_assigned {item : Text × Expression}
    (h : assigned inner source = .ok (some item) rest) :
    ReplayBy Ahead (bound + 1) (assigned inner') source.pieces rest.pieces
      (.operator item.1 :: item.2.parts) (some item) := by
  obtain ⟨count, hfound, hvalue⟩ := assigned_eq_some h
  obtain ⟨hahead, hknown⟩ := Operators.assignment?_eq_some hfound
  refine replay_operator (fun stream hstream => ?_) hahead (between_of_assignment hknown)
    (conditional_opens hvalue) rfl
    ((replay_conditional hinner hvalue).map fun value => some (item.1, value)) fun _ hf => hf.1
  unfold Operators.assignment?
  rw [Operators.symbol?_eq, hstream]
  show (if _ then _ else _) = _
  rw [if_pos (isAssignment_iff.1 hknown)]
  rfl

/-- An assignment operator is seen in the source and in print. -/
theorem ahead_assigned {item : Text × Expression} {f : List Piece}
    (h : assigned inner source = .ok (some item) rest)
    (hsource : ∀ piece ∈ source.pieces, piece.Regular)
    (hquery : .query ∉ Part.operator item.1 :: item.2.parts) (hf : Ahead rest.pieces f) :
    Ahead source.pieces (spell (.operator item.1 :: item.2.parts) ++ f) := by
  obtain ⟨count, hfound, hvalue⟩ := assigned_eq_some h
  obtain ⟨hahead, hknown⟩ := Operators.assignment?_eq_some hfound
  have hbetween := between_of_assignment hknown
  obtain ⟨hprinted, -⟩ := printed_operator hsource hahead hbetween
  obtain ⟨hprinted', -⟩ := replay_conditional hinner hvalue
    (fun piece hpiece => hsource piece (hprinted.mem_of_mem hpiece))
    fun hmem => hquery (List.mem_cons_of_mem _ hmem)
  exact ahead_printed hsource hahead hbetween (conditional_opens hvalue) hprinted' hf.1

end

/-- Every operator that begins with `>` is binary or assigns. -/
theorem greater_known {pieces : List Piece} (h : pieceAt pieces 0 (·.isSymbol ">") = true) :
    (operatorText pieces).bind BinaryOperator.ofText? ≠ none ∨
      ((operatorText pieces).bind fun text => if isAssignment text then some text else none) ≠
        none := by
  obtain ⟨piece, rest, rfl, hpiece⟩ := pieceAt_zero_true h
  have htext : operatorText (piece :: rest) = some (greaterAhead rest).1 := by
    unfold operatorText operatorAhead
    simp only [hpiece, if_true, Option.map_some]
  have hcount := gluedCount_le rest
  rw [htext]
  unfold greaterAhead
  generalize gluedCount rest = count at hcount ⊢
  obtain rfl | rfl | rfl : count = 0 ∨ count = 1 ∨ count = 2 := by omega
  all_goals split <;> decide

theorem expressionRule_ends {value : Expression} (h : expressionRule inner source = .ok value rest) :
    pieceAt rest.pieces 0 (·.isSymbol ">") = false := by
  unfold expressionRule at h
  obtain ⟨first, middle, hfirst, h⟩ := Reader.bind_eq_ok.1 h
  obtain ⟨row, final, hrow, h⟩ := Reader.bind_eq_ok.1 h
  cases h
  have hrounds := Reader.many_eq_ok.1 hrow
  have hbinary : (operatorText rest.pieces).bind BinaryOperator.ofText? = none := by
    refine Reader.Rounds.final
      (fun place => (operatorText place.pieces).bind BinaryOperator.ofText? = none) ?_
      (fun _ _ hstop => (assigned_eq_none hstop).1) hrounds (conditional_ends hfirst)
    intro input item middle hround
    obtain ⟨_, -, hlast⟩ := assigned_eq_some hround
    exact conditional_ends hlast
  obtain ⟨last, hlast⟩ := hrounds.exists_stop
  obtain ⟨rfl, hassignment⟩ := assigned_eq_none hlast
  rw [Operators.assignment?_eq] at hassignment
  cases hgreater : pieceAt rest.pieces 0 (·.isSymbol ">") with
  | false => rfl
  | true =>
    rcases greater_known hgreater with hknown | hknown
    · exact absurd hbinary hknown
    · exact absurd hassignment hknown

theorem replay_expressionRule
    (hinner : ∀ source value rest, inner source = .ok value rest →
      Replay bound inner' source.pieces rest.pieces value.parts value)
    {value : Expression} (h : expressionRule inner source = .ok value rest) :
    Replay (bound + 1) (expressionRule inner') source.pieces rest.pieces value.parts value := by
  have hgreater := expressionRule_ends h
  unfold expressionRule at h
  obtain ⟨first, middle, hfirst, h⟩ := Reader.bind_eq_ok.1 h
  obtain ⟨row, final, hrow, h⟩ := Reader.bind_eq_ok.1 h
  cases h
  rw [parts_assign]
  obtain ⟨last, hlast, hmany, hbefore⟩ := replay_rounds (fun _ _ _ => replay_assigned hinner)
    (fun _ _ _ hround hsource hquery _ f hf => ahead_assigned hinner hround hsource hquery hf)
    (Reader.many_eq_ok.1 hrow)
  obtain ⟨rfl, hnone⟩ := assigned_eq_none hlast
  -- the rounds stopped because no assignment was ahead, and none is ahead in what follows
  have hend : ∀ f, Similar rest.pieces f → Reads (bound + 1) (assigned inner') [] f none := by
    intro f hf
    have hahead := (Ahead.of_similar hf hgreater).2
    rw [Operators.assignment?_eq, hahead] at hnone
    have hlook : Reads (bound + 1) (look Operators.assignment?) [] ([] ++ f) none := by
      apply reads_look
      intro stream hpieces
      have hmap := Operators.assignment?_eq stream
      rw [hpieces, List.nil_append, hnone] at hmap
      exact Option.map_eq_none_iff.1 hmap
    exact hlook.bind_nothing (Reads.pure none)
  have hrow' := hmany.mono fun f (hf : Similar rest.pieces f) =>
    ⟨Ahead.of_similar hf hgreater, hend f hf⟩
  exact ReplayBy.bind_of_le (replay_conditional hinner hfirst)
    (hrow'.map fun row => assign first row)
    (fun hregular hquery _ f hf => hbefore hregular hquery f (Ahead.of_similar hf hgreater))
    (by omega)

/-- An expression is read back from what is printed for it. -/
theorem replay_expression : ∀ source value rest, expression source = .ok value rest →
    ∀ bound, Replay bound expression source.pieces rest.pieces value.parts value := by
  apply Reader.recursive_induction
  intro inner hinner source value rest h bound hsource hquery
  have hrule : ∀ bound, Replay (bound + 1)
      (expressionRule (Reader.below bound expression)) source.pieces rest.pieces value.parts
      value := by
    intro bound
    refine replay_expressionRule (fun source value rest hrun => ?_) h
    intro hsource hquery
    obtain ⟨hprinted, -⟩ := hinner source value rest hrun 0 hsource hquery
    exact ⟨hprinted, fun f hf =>
      Reads.below fun bound => (hinner source value rest hrun bound hsource hquery).2 f hf⟩
  obtain ⟨hprinted, -⟩ := hrule 0 hsource hquery
  refine ⟨hprinted, fun f hf => Reads.recursive (fun bound => ?_) bound⟩
  exact (hrule bound hsource hquery).2 f hf

end Grammar

end ApexLayout
