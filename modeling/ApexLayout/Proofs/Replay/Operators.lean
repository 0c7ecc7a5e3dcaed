import ApexLayout.Proofs.Replay.Relation

/-!
Operators ahead.

The operators that begin with `>` are several tokens that touch. What is ahead is read off the
pieces here, so that source and print can be compared.
-/

namespace ApexLayout

namespace Piece

/-- Whether the piece is the given symbol and touches what is in front of it. -/
def isGlued (piece : Piece) (text : Text) : Bool := piece.isSymbol text && piece.glued

end Piece

theorem Token.touches_greater (token : Token) :
    token.touches ">" = token.piece.isGlued ">" := by
  show (token.isSymbol ['>'] && token.lead.isEmpty) =
    (token.isSymbol ['>'] && (token.isSymbol ['>'] && token.lead.isEmpty ||
      token.isSymbol ['='] && token.lead.isEmpty))
  cases hgreater : token.isSymbol ['>'] with
  | false => rfl
  | true =>
    have hequal : token.isSymbol ['='] = false :=
      Piece.isSymbol_eq_false (show token.piece.isSymbol ['>'] = true from hgreater) (by decide)
    rw [hequal]
    simp

theorem Token.touches_equal (token : Token) : token.touches "=" = token.piece.isGlued "=" := by
  show (token.isSymbol ['='] && token.lead.isEmpty) =
    (token.isSymbol ['='] && (token.isSymbol ['>'] && token.lead.isEmpty ||
      token.isSymbol ['='] && token.lead.isEmpty))
  cases hequal : token.isSymbol ['='] with
  | false => rfl
  | true =>
    have hgreater : token.isSymbol ['>'] = false :=
      Piece.isSymbol_eq_false (show token.piece.isSymbol ['='] = true from hequal) (by decide)
    rw [hgreater]
    simp

/-- The number of `>` at the beginning that touch what is in front of them, up to two. -/
def gluedCount (pieces : List Piece) : Nat := ((pieces.take 2).takeWhile (·.isGlued ">")).length

/-- The operator that a `>` in front of the pieces begins, and the number of its pieces. -/
def greaterAhead (pieces : List Piece) : Text × Nat :=
  if pieceAt (pieces.drop (gluedCount pieces)) 0 (·.isGlued "=") then
    (List.replicate (1 + gluedCount pieces) '>' ++ ['='], 2 + gluedCount pieces)
  else (List.replicate (1 + gluedCount pieces) '>', 1 + gluedCount pieces)

/-- The operator ahead, and the number of its pieces. -/
def operatorAhead (pieces : List Piece) : Option (Text × Nat) :=
  match pieces with
  | [] => none
  | piece :: rest =>
    if piece.isSymbol ">" then some (greaterAhead rest)
    else if piece.kind = .symbol then some (piece.text, 1) else none

theorem operatorAhead_cons {piece : Piece} {rest : List Piece} (h : piece.isSymbol ">" = false) :
    operatorAhead (piece :: rest) =
      if piece.kind = .symbol then some (piece.text, 1) else none := by
  unfold operatorAhead
  simp only [h, Bool.false_eq_true, if_false]

/-- The grammar finds the operator that the pieces show. -/
theorem Operators.symbol?_eq (stream : TokenStream) :
    Operators.symbol? stream = operatorAhead stream.pieces := by
  have hglued : stream.pieces = stream.tokens.map Token.piece := rfl
  unfold Operators.symbol? Operators.greater? operatorAhead
  rw [TokenStream.symbolAt_eq]
  cases htokens : stream.tokens with
  | nil =>
    rw [hglued, htokens]
    rfl
  | cons token rest =>
    have hpieces : stream.pieces = token.piece :: rest.map Token.piece := by rw [hglued, htokens]; rfl
    rw [hpieces]
    simp only [pieceAt_zero]
    cases hgreater : token.piece.isSymbol ">" with
    | false =>
      rfl
    | true =>
      -- the signs that touch the first one are those that are glued to it
      have hcount : ((rest.take 2).takeWhile (·.touches ">")).length =
          gluedCount (rest.map Token.piece) := by
        unfold gluedCount
        rw [← List.map_take, List.takeWhile_map, List.length_map]
        congr 1
        apply congrArg (List.takeWhile · (rest.take 2))
        funext token
        exact token.touches_greater
      have hequal : stream.holds (1 + gluedCount (rest.map Token.piece)) (·.touches "=") =
          pieceAt ((rest.map Token.piece).drop (gluedCount (rest.map Token.piece))) 0
            (·.isGlued "=") := by
        unfold TokenStream.holds pieceAt
        rw [htokens, List.getElem?_drop, List.getElem?_map, Option.any_map, Nat.add_comm 1,
          List.getElem?_cons_succ, Nat.add_zero]
        congr 1
        funext token
        exact token.touches_equal
      unfold greaterAhead
      simp only [if_true, List.drop_one, List.tail_cons, hcount, hequal]
      cases pieceAt ((rest.map Token.piece).drop (gluedCount (rest.map Token.piece))) 0
        (·.isGlued "=")
      · rfl
      · simp only [if_true]
        rw [Nat.add_right_comm]

/-! ## Operators as they are printed -/

theorem gluedPieces_replicate (count : Nat) (text : Text) :
    gluedPieces (List.replicate count '>' ++ text) =
      List.replicate count Piece.closing ++ gluedPieces text := by
  induction count with
  | zero => rfl
  | succ count ih =>
    rw [List.replicate_succ, List.cons_append, gluedPieces, ih]
    rfl

theorem operatorPieces_of_symbol :
    ∀ text ∈ Scan.symbols, text ≠ String.toList ">" → operatorPieces text = [.symbol text] := by
  decide

/-- An operator of `>`, perhaps with something behind them. -/
theorem operatorPieces_greater (count : Nat) (text : Text) :
    operatorPieces (List.replicate (1 + count) '>' ++ text) =
      .symbol ">" :: (List.replicate count Piece.closing ++ gluedPieces text) := by
  rw [Nat.add_comm, List.replicate_succ, List.cons_append, operatorPieces, gluedPieces_replicate]

theorem gluedCount_le (pieces : List Piece) : gluedCount pieces ≤ 2 := by
  unfold gluedCount
  have hprefix := (List.takeWhile_prefix (l := pieces.take 2) (·.isGlued ">")).length_le
  have htake := List.length_take_le 2 pieces
  omega

/-- The glued `>` at the beginning, and what stands behind them. -/
theorem gluedCount_split (pieces : List Piece) :
    ∃ front, pieces = front ++ pieces.drop (gluedCount pieces) ∧
      front.length = gluedCount pieces ∧ ∀ piece ∈ front, piece.isSymbol ">" = true := by
  refine ⟨(pieces.take 2).takeWhile (·.isGlued ">"), ?_, rfl, ?_⟩
  · have hwhile := List.takeWhile_append_dropWhile (p := (·.isGlued ">")) (l := pieces.take 2)
    have hall := List.take_append_drop 2 pieces
    rw [← hwhile, List.append_assoc] at hall
    unfold gluedCount
    nth_rewrite 4 [← hall]
    rw [List.drop_left]
    exact hall.symm
  · intro piece hpiece
    have hglued := List.all_eq_true.1 List.all_takeWhile piece hpiece
    unfold Piece.isGlued at hglued
    rw [Bool.and_eq_true] at hglued
    exact hglued.1

theorem sameAll_replicate {front : List Piece}
    (h : ∀ piece ∈ front, piece.isSymbol ">" = true) :
    SameAll front (List.replicate front.length Piece.closing) := by
  induction front with
  | nil => exact .nil
  | cons piece rest ih =>
    obtain ⟨hfirst, hothers⟩ := List.forall_mem_cons.1 h
    rw [List.length_cons, List.replicate_succ]
    exact .cons ⟨(Piece.isSymbol_iff.1 hfirst).1, (Piece.isSymbol_iff.1 hfirst).2⟩ (ih hothers)

/-- An operator that is put together from several signs is made of them, with an equals sign or
without. -/
theorem greaterAhead_same {piece : Piece} {rest : List Piece} {text : Text} {count : Nat}
    (hgreater : piece.isSymbol ">" = true) (h : greaterAhead rest = (text, count)) :
    ∃ taken, piece :: rest = taken ++ (piece :: rest).drop count ∧ taken.length = count ∧
      SameAll taken (operatorPieces text) := by
  unfold greaterAhead at h
  obtain ⟨front, hfront, hlength, hall⟩ := gluedCount_split rest
  have hfirst : piece.Same (.symbol ">") :=
    ⟨(Piece.isSymbol_iff.1 hgreater).1, (Piece.isSymbol_iff.1 hgreater).2⟩
  have hsame := sameAll_replicate hall
  rw [hlength] at hsame
  cases hequal : pieceAt (rest.drop (gluedCount rest)) 0 (·.isGlued "=") with
  | false =>
    rw [hequal] at h
    simp only [Bool.false_eq_true, if_false, Prod.mk.injEq] at h
    obtain ⟨rfl, rfl⟩ := h
    refine ⟨piece :: front, ?_, by rw [List.length_cons, hlength, Nat.add_comm], ?_⟩
    · rw [Nat.add_comm, List.drop_succ_cons, List.cons_append, ← hfront]
    · rw [← List.append_nil (List.replicate _ _), operatorPieces_greater]
      rw [gluedPieces, List.append_nil]
      exact .cons hfirst hsame
  | true =>
    rw [hequal] at h
    simp only [if_true, Prod.mk.injEq] at h
    obtain ⟨rfl, rfl⟩ := h
    obtain ⟨last, more, hmore, hglued⟩ := Grammar.pieceAt_zero_true hequal
    unfold Piece.isGlued at hglued
    rw [Bool.and_eq_true] at hglued
    have hdrop : (piece :: rest).drop (2 + gluedCount rest) = more := by
      rw [Nat.add_comm, List.drop_succ_cons, ← List.drop_drop, hmore]
      rfl
    refine ⟨piece :: front ++ [last], ?_, ?_, ?_⟩
    · rw [hdrop, hfront, hmore]
      simp
    · simp only [List.length_append, List.length_cons, List.length_nil, hlength]
      omega
    · rw [operatorPieces_greater]
      exact .cons hfirst (hsame.append (.cons
        ⟨(Piece.isSymbol_iff.1 hglued.1).1, (Piece.isSymbol_iff.1 hglued.1).2⟩ .nil))

/-- What an operator ahead is made of. -/
theorem operatorAhead_eq_some {pieces : List Piece} {text : Text} {count : Nat}
    (hregular : ∀ piece ∈ pieces, piece.Regular) (h : operatorAhead pieces = some (text, count)) :
    ∃ taken, pieces = taken ++ pieces.drop count ∧ taken.length = count ∧
      SameAll taken (operatorPieces text) := by
  cases pieces with
  | nil => simp [operatorAhead] at h
  | cons piece rest =>
    unfold operatorAhead at h
    simp only at h
    cases hgreater : piece.isSymbol ">" with
    | false =>
      rw [hgreater] at h
      simp only [Bool.false_eq_true, if_false] at h
      split at h
      case isFalse => simp at h
      case isTrue hkind =>
        cases h
        have hsymbol := (hregular piece List.mem_cons_self).symbol hkind
        refine ⟨[piece], rfl, rfl, ?_⟩
        rw [operatorPieces_of_symbol _ hsymbol]
        · exact .cons ⟨hkind, rfl⟩ .nil
        · intro htext
          rw [Piece.isSymbol_iff.2 ⟨hkind, htext⟩] at hgreater
          exact absurd hgreater (by decide)
    | true =>
      rw [hgreater] at h
      simp only [if_true, Option.some.injEq] at h
      exact greaterAhead_same hgreater h

/-- Nothing ahead could be glued to an operator. -/
def Loose (pieces : List Piece) : Prop :=
  pieceAt pieces 0 (·.isGlued ">") = false ∧ pieceAt pieces 0 (·.isGlued "=") = false

theorem gluedCount_cons (piece : Piece) (rest : List Piece) :
    gluedCount (piece :: rest) =
      if piece.isGlued ">" then 1 + if pieceAt rest 0 (·.isGlued ">") then 1 else 0 else 0 := by
  unfold gluedCount
  rw [List.take_succ_cons, List.takeWhile_cons]
  cases piece.isGlued ">" with
  | false => rfl
  | true =>
    cases rest with
    | nil => rfl
    | cons next others =>
      rw [List.take_succ_cons, List.takeWhile_cons, pieceAt_zero]
      cases next.isGlued ">" <;> rfl

theorem gluedCount_printed {count : Nat} {g : List Piece} (hcount : count ≤ 2)
    (hg : pieceAt g 0 (·.isGlued ">") = false) :
    gluedCount (List.replicate count Piece.closing ++ g) = count := by
  have hnone : gluedCount g = 0 := by
    cases g with
    | nil => rfl
    | cons piece rest =>
      rw [pieceAt_zero] at hg
      rw [gluedCount_cons, hg]
      rfl
  obtain rfl | rfl | rfl : count = 0 ∨ count = 1 ∨ count = 2 := by omega
  · exact hnone
  · show gluedCount (Piece.closing :: g) = 1
    rw [gluedCount_cons, hg]
    rfl
  · show gluedCount (Piece.closing :: Piece.closing :: g) = 2
    rw [gluedCount_cons, pieceAt_zero]
    rfl

/-- An operator of `>` is found where it is printed. -/
theorem greaterAhead_printed {count : Nat} {g : List Piece} (hcount : count ≤ 2) (hg : Loose g) :
    greaterAhead (List.replicate count Piece.closing ++ g) =
        (List.replicate (1 + count) '>', 1 + count) ∧
      greaterAhead (List.replicate count Piece.closing ++ (⟨.symbol, "=", true⟩ :: g)) =
        (List.replicate (1 + count) '>' ++ ['='], 2 + count) := by
  have hdrop : ∀ rest : List Piece,
      (List.replicate count Piece.closing ++ rest).drop count = rest := fun rest =>
    List.drop_left' (List.length_replicate)
  constructor
  · unfold greaterAhead
    rw [gluedCount_printed hcount hg.1, hdrop, hg.2]
    rfl
  · unfold greaterAhead
    rw [gluedCount_printed hcount rfl, hdrop]
    rfl

/-- An operator is found where it is printed. -/
theorem operatorAhead_printed {pieces g : List Piece} {text : Text} {count : Nat}
    (hregular : ∀ piece ∈ pieces, piece.Regular) (h : operatorAhead pieces = some (text, count))
    (hg : Loose g) :
    operatorAhead (operatorPieces text ++ g) = some (text, (operatorPieces text).length) := by
  cases pieces with
  | nil => simp [operatorAhead] at h
  | cons piece rest =>
    unfold operatorAhead at h
    simp only at h
    cases hgreater : piece.isSymbol ">" with
    | false =>
      rw [hgreater] at h
      simp only [Bool.false_eq_true, if_false] at h
      split at h
      case isFalse => simp at h
      case isTrue hkind =>
        cases h
        have hsymbol := (hregular piece List.mem_cons_self).symbol hkind
        have hother : piece.text ≠ String.toList ">" := by
          intro htext
          rw [Piece.isSymbol_iff.2 ⟨hkind, htext⟩] at hgreater
          exact absurd hgreater (by decide)
        rw [operatorPieces_of_symbol _ hsymbol hother]
        have hprinted : (Piece.symbol piece.text).isSymbol ">" = false := by
          rw [← (Piece.matches_symbol (Piece.isSymbol_iff.2 ⟨hkind, rfl⟩)).isSymbol, hgreater]
        show (if (Piece.symbol piece.text).isSymbol ">" = true then _ else _) = _
        rw [hprinted]
        rfl
    | true =>
      rw [hgreater] at h
      simp only [if_true, Option.some.injEq] at h
      unfold greaterAhead at h
      -- what follows is loose, so no further sign is counted
      obtain ⟨hplain, hequal⟩ := greaterAhead_printed (gluedCount_le rest) hg
      split at h
      case isTrue =>
        cases h
        rw [operatorPieces_greater]
        show some (greaterAhead (_ ++ g)) = _
        rw [List.append_assoc]
        refine congrArg some (hequal.trans ?_)
        have hlast : (gluedPieces ['=']).length = 1 := rfl
        simp only [List.length_cons, List.length_append, List.length_replicate, hlast,
          Prod.mk.injEq, true_and]
        omega
      case isFalse =>
        cases h
        have hpieces := operatorPieces_greater (gluedCount rest) []
        rw [List.append_nil, gluedPieces, List.append_nil] at hpieces
        rw [hpieces]
        refine congrArg some (hplain.trans ?_)
        simp only [List.length_cons, List.length_replicate, Prod.mk.injEq, true_and]
        omega

/-! ## Operators behind an operand -/

/-- The text of the operator ahead. -/
def operatorText (pieces : List Piece) : Option Text := (operatorAhead pieces).map Prod.fst

/-- Places that look alike and show the same operator. -/
def Ahead : Follow := fun rest f => Similar rest f ∧ operatorText rest = operatorText f

/-- An operator that does not begin with `>` is seen at once. -/
theorem Ahead.of_similar {rest f : List Piece} (h : Similar rest f)
    (hrest : pieceAt rest 0 (·.isSymbol ">") = false) : Ahead rest f := by
  refine ⟨h, ?_⟩
  have hboth : ∀ {source printed : Piece} {rest rest' : List Piece}, source.Matches printed →
      source.isSymbol ">" = false →
      operatorText (source :: rest) = operatorText (printed :: rest') := by
    intro source printed rest rest' hmatch hsource
    have hprinted := hmatch.isSymbol ">"
    rw [hsource] at hprinted
    unfold operatorText
    rw [operatorAhead_cons hsource, operatorAhead_cons hprinted.symm, hmatch.kind]
    by_cases hkind : printed.kind = .symbol
    · have hsame := hmatch.same_of_kind (by rw [hkind]; decide)
      rw [if_pos hkind, if_pos hkind, hsame.text]
    · rw [if_neg hkind, if_neg hkind]
  cases h with
  | nil => rfl
  | stop hhead _ => exact hboth hhead (by simpa using hrest)
  | cons hhead _ => exact hboth hhead (by simpa using hrest)

theorem Operators.binary?_eq_some {stream : TokenStream} {operator : BinaryOperator} {count : Nat}
    (h : Operators.binary? stream = some (operator, count)) :
    operatorAhead stream.pieces = some (operator.text, count) ∧
      BinaryOperator.ofText? operator.text = some operator := by
  unfold Operators.binary? at h
  rw [Operators.symbol?_eq] at h
  simp only [Option.bind_eq_bind, Option.bind_eq_some_iff] at h
  obtain ⟨⟨text, size⟩, hahead, found, hfound, h⟩ := h
  cases h
  -- an operator is found by its own text
  have htext : operator.text = text := by
    have hmatch := List.find?_some hfound
    simpa using hmatch
  rw [htext]
  exact ⟨hahead, hfound⟩

theorem Operators.binary?_eq (stream : TokenStream) :
    (Operators.binary? stream).map Prod.fst =
      (operatorText stream.pieces).bind BinaryOperator.ofText? := by
  unfold Operators.binary? operatorText
  rw [Operators.symbol?_eq]
  cases operatorAhead stream.pieces with
  | none => rfl
  | some found =>
    obtain ⟨text, count⟩ := found
    simp only [Option.bind_eq_bind, Option.bind_some, Option.map_some]
    cases BinaryOperator.ofText? text <;> rfl

/-- Whether a text is an assignment operator. -/
def isAssignment (text : Text) : Bool :=
  (Operators.assignments ++ [['>', '>', '='], ['>', '>', '>', '=']]).any (· == text)

theorem isAssignment_iff {text : Text} : isAssignment text = true ↔
    text ∈ Operators.assignments ∨ text ∈ [['>', '>', '='], ['>', '>', '>', '=']] := by
  rw [isAssignment, ← List.mem_append, List.any_eq_true]
  exact ⟨fun ⟨_, hmem, hsame⟩ => beq_iff_eq.1 hsame ▸ hmem, fun hmem => ⟨text, hmem, beq_self_eq_true text⟩⟩

theorem Operators.assignment?_eq_some {stream : TokenStream} {text : Text} {count : Nat}
    (h : Operators.assignment? stream = some (text, count)) :
    operatorAhead stream.pieces = some (text, count) ∧ isAssignment text = true := by
  unfold Operators.assignment? at h
  rw [Operators.symbol?_eq] at h
  simp only [Option.bind_eq_bind, Option.bind_eq_some_iff] at h
  obtain ⟨⟨found, size⟩, hahead, h⟩ := h
  split at h
  case isFalse => simp at h
  case isTrue hmem =>
    cases h
    exact ⟨hahead, isAssignment_iff.2 hmem⟩

theorem Operators.assignment?_eq (stream : TokenStream) :
    (Operators.assignment? stream).map Prod.fst =
      (operatorText stream.pieces).bind fun text => if isAssignment text then some text else none := by
  unfold Operators.assignment? operatorText
  rw [Operators.symbol?_eq]
  cases operatorAhead stream.pieces with
  | none => rfl
  | some found =>
    obtain ⟨text, count⟩ := found
    simp only [Option.bind_eq_bind, Option.bind_some, Option.map_some, isAssignment_iff]
    split <;> rfl

end ApexLayout
