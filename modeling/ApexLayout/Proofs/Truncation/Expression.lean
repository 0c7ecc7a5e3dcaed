import ApexLayout.Proofs.Truncation

/-!
Expressions in front of a closing brace.

The operators that begin with `>` are the only ones of several tokens; they end in front of a brace
too. The type of a cast is the one trial: it has no brace, so both streams try the same tokens.
-/

namespace ApexLayout

/-! ## Operators ahead -/

theorem Piece.isGlued_of_brace {piece : Piece} (h : piece.isSymbol "\x7d" = true) {text : Text}
    (htext : [ '}' ] ≠ text) : piece.isGlued text = false := by
  unfold Piece.isGlued
  rw [Piece.isSymbol_eq_false h htext, Bool.false_and]

/-- Behind a `>` the operator ends in front of a brace. -/
theorem greaterAhead_brace {row : List Piece} (h : ∃ piece ∈ row, piece.isSymbol "\x7d" = true)
    (rest rest' : List Piece) : greaterAhead (row ++ rest) = greaterAhead (row ++ rest') := by
  obtain ⟨brace, hmem, hbrace⟩ := h
  have hgreater : brace.isGlued [ '>' ] = false := Piece.isGlued_of_brace hbrace (by decide)
  unfold greaterAhead gluedCount
  match row with
  | [] => cases hmem
  | [a] =>
    obtain rfl := List.mem_singleton.1 hmem
    simp [hgreater]
  | [a, b] =>
    cases ha : a.isGlued [ '>' ] with
    | false => simp [ha]
    | true =>
      -- the first is no brace, so the second is
      obtain rfl : brace = b := by
        refine (List.mem_pair.1 hmem).resolve_left fun hsame => ?_
        rw [hsame, ha] at hgreater
        cases hgreater
      simp [ha, hgreater]
  | a :: b :: c :: row =>
    cases ha : a.isGlued [ '>' ] <;> cases hb : b.isGlued [ '>' ] <;> simp [ha, hb]

theorem operatorAhead_brace {row : List Piece} (h : ∃ piece ∈ row, piece.isSymbol "\x7d" = true)
    (rest rest' : List Piece) : operatorAhead (row ++ rest) = operatorAhead (row ++ rest') := by
  obtain ⟨brace, hmem, hbrace⟩ := h
  cases row with
  | nil => cases hmem
  | cons piece row =>
    rw [List.cons_append, List.cons_append]
    cases hpiece : piece.isSymbol ">" with
    | false => rw [operatorAhead_cons hpiece, operatorAhead_cons hpiece]
    | true =>
      have hbehind : brace ∈ row := by
        refine (List.mem_cons.1 hmem).resolve_left fun hsame => ?_
        rw [← hsame, Piece.isSymbol_eq_false hbrace (by decide)] at hpiece
        cases hpiece
      unfold operatorAhead
      simp only [hpiece, if_true]
      rw [greaterAhead_brace ⟨brace, hbehind, hbrace⟩ rest rest']

namespace Grammar

section

variable {first second : TokenStream} {last : Nat} (h : TokenStream.Shares first second last)

include h

theorem symbol?_shared {index : Nat} (hindex : index ≤ last) :
    Operators.symbol? (first.skip index) = Operators.symbol? (second.skip index) := by
  obtain ⟨row, rest, rest', hfirst, hsecond, -, hbrace⟩ := h.split_pieces hindex
  rw [Operators.symbol?_eq, Operators.symbol?_eq, hfirst, hsecond]
  exact operatorAhead_brace hbrace rest rest'

theorem persists_binary? :
    Persists first second last (look Operators.binary?) (look Operators.binary?) := by
  refine .look fun index hindex => ?_
  unfold Operators.binary?
  rw [symbol?_shared h hindex]

theorem persists_assignment? :
    Persists first second last (look Operators.assignment?) (look Operators.assignment?) := by
  refine .look fun index hindex => ?_
  unfold Operators.assignment?
  rw [symbol?_shared h hindex]

variable {inner inner' : Grammar Expression} (hinner : Persists first second last inner inner')

include hinner

/-! ## Arguments and creators -/

theorem persists_arguments :
    Persists first second last (arguments inner) (arguments inner') := by
  refine (persists_symbol h _).bind fun _ => ?_
  refine (persists_takeSymbol h _).branch (.pure []) ?_
  refine (persists_commaSeparated h hinner).bind fun items => ?_
  exact (persists_symbol h _).map fun _ => items

theorem persists_entry : Persists first second last (entry inner) (entry inner') := by
  refine hinner.bind fun key => ?_
  refine (persists_symbol h _).bind fun _ => ?_
  exact hinner.map _

theorem persists_collection :
    Persists first second last (collection inner) (collection inner') := by
  have hentry := Persists.optional (persists_takeSymbol h ",") (persists_entry h hinner)
  have helement := Persists.optional (persists_takeSymbol h ",") hinner
  refine (persists_takeSymbol h _).branch (.pure _) ?_
  refine hinner.bind fun item => ?_
  refine (Persists.optional (persists_takeSymbol h _) hinner).bind fun found => ?_
  cases found with
  | some value =>
    refine (Persists.many h hentry).bind fun entries => ?_
    exact (persists_symbol h _).map _
  | none =>
    refine (Persists.many h helement).bind fun elements => ?_
    exact (persists_symbol h _).map _

theorem persists_creatorBody :
    Persists first second last (creatorBody inner) (creatorBody inner') := by
  refine (persists_atSymbol h _).branch ((persists_arguments h hinner).map _) ?_
  refine (persists_takeSymbol h _).branch ?_ ?_
  · refine hinner.bind fun size => ?_
    exact (persists_symbol h _).map _
  exact (persists_takeSymbol h _).branch (persists_collection h hinner) (.fail _)

theorem persists_creation : Persists first second last (creation inner) (creation inner') :=
  (persists_typeRef h).bind fun _ => (persists_creatorBody h hinner).map _

/-! ## Primaries -/

omit hinner in
theorem persists_query : Persists first second last query query := by
  have hposition : Persists first second last (look (·.position)) (look (·.position)) := by
    refine .look fun index hindex => ?_
    obtain ⟨row, rest, rest', hfirst, hsecond, -, token, htoken, -⟩ := h.split hindex
    cases row with
    | nil => cases htoken
    | cons token row =>
      unfold TokenStream.position
      rw [hfirst, hsecond]
      rfl
  refine hposition.bind fun position => ?_
  exact (persists_enclosure h _ _ _).map _

omit hinner in
theorem persists_dotBeforePathName :
    Persists first second last dotBeforePathName dotBeforePathName := by
  refine persists_skipIf fun index hindex => ?_
  show ((first.skip index).holds 0 _ && (first.skip index).holds 1 _ && _) =
    ((second.skip index).holds 0 _ && (second.skip index).holds 1 _ && _)
  rw [Bool.and_assoc, Bool.and_assoc]
  refine h.holds_and hindex (Token.open_isSymbol (by decide)) fun hnext => ?_
  refine h.holds_and hnext Token.open_isIdentifier fun hthird => ?_
  exact congrArg (! ·) (h.holds hthird _)

theorem persists_named : Persists first second last (named inner) (named inner') := by
  have hnames := Persists.separated h (persists_dotBeforePathName h) (persists_takeText h)
  have hliteral : Persists first second last
      (look fun stream => stream.symbolAt 0 "." && stream.wordAt 1 "class")
      (look fun stream => stream.symbolAt 0 "." && stream.wordAt 1 "class") := by
    refine .look fun index hindex => ?_
    exact h.holds_and hindex (Token.open_isSymbol (by decide)) fun hnext => h.holds hnext _
  refine hnames.bind fun names => ?_
  refine hliteral.branch ((Persists.skip 2).map _) ?_
  match names with
  | [] => exact .pure _
  | [name] =>
    exact (persists_atSymbol h _).branch ((persists_arguments h hinner).map _) (.pure _)
  | _ :: _ :: _ => exact .pure _

theorem persists_selfReference (leaf : Primary) :
    Persists first second last (selfReference inner leaf) (selfReference inner' leaf) := by
  refine (persists_takeText h).bind fun name => ?_
  exact (persists_atSymbol h _).branch ((persists_arguments h hinner).map _) (.pure _)

theorem persists_wordPrimary :
    Persists first second last (wordPrimary inner) (wordPrimary inner') := by
  refine .get fun index => ?_
  refine .ite (h.holds · _) ((persists_takeText h).map _ index) ?_
  refine .ite (h.holds · _) (persists_selfReference h hinner _ index) ?_
  refine .ite (h.holds · _) (persists_selfReference h hinner _ index) ?_
  refine .captured (h.holds · _)
    (fun found => takeWord "new" >>= fun made =>
      if made then creation inner else if found then named inner else fail .expression)
    (fun found => takeWord "new" >>= fun made =>
      if made then creation inner' else if found then named inner' else fail .expression)
    fun found => ?_
  exact (persists_takeWord h _).branch (persists_creation h hinner)
    (.ite (persists_named h hinner) (.fail _)) index

theorem persists_primary : Persists first second last (primary inner) (primary inner') := by
  refine .get fun index => ?_
  refine .ite (h.holds · _) ((persists_takeText h).map _ index) ?_
  refine .ite (h.holds · _) (persists_wordPrimary h hinner index) ?_
  refine .captured (h.holds · _)
    (fun found => takeSymbol "(" >>= fun opened =>
      if opened then inner >>= fun value => symbol ")" >>= fun _ => pure (.parenthesized value)
      else if found then query else fail .expression)
    (fun found => takeSymbol "(" >>= fun opened =>
      if opened then inner' >>= fun value => symbol ")" >>= fun _ => pure (.parenthesized value)
      else if found then query else fail .expression)
    fun found => ?_
  exact (persists_takeSymbol h _).branch (hinner.bind fun _ => (persists_symbol h _).map _)
    (.ite (persists_query h) (.fail _)) index

/-! ## Steps and operators -/

theorem persists_link (navigation : Navigation) :
    Persists first second last (link inner navigation) (link inner' navigation) := by
  refine (persists_atWord h _).bind fun found => ?_
  refine (Persists.require _ _).bind fun _ => ?_
  refine (persists_holds h _).bind fun found => ?_
  refine (Persists.require _ _).bind fun _ => ?_
  refine (persists_takeText h).bind fun member => ?_
  exact (Persists.optional (persists_atSymbol h _) (persists_arguments h hinner)).map _

theorem persists_step : Persists first second last (step inner) (step inner') := by
  refine (persists_takeSymbol h _).branch ((persists_link h hinner _).map _) ?_
  refine (persists_takeSymbol h _).branch ((persists_link h hinner _).map _) ?_
  refine (persists_takeSymbol h _).branch ?_ ?_
  · refine hinner.bind fun index => ?_
    exact (persists_symbol h _).map _
  exact (persists_holds h _).branch ((persists_takeText h).map _) (.pure none)

theorem persists_stepped : Persists first second last (stepped inner) (stepped inner') := by
  refine (persists_primary h hinner).bind fun first => ?_
  exact (Persists.many h (persists_step h hinner)).map _

omit hinner in
/-- A cast is tried on the same tokens. -/
theorem persists_castType :
    Persists first second last (Reader.attempt castType) (Reader.attempt castType) := by
  have hcast : Persists first second last castType castType := by
    refine (persists_symbol h _).bind fun _ => ?_
    refine (persists_typeRef h).bind fun type => ?_
    refine (persists_symbol h _).bind fun _ => ?_
    refine (persists_holds h _).bind fun operand => ?_
    exact (Persists.require _ _).map _
  refine .attempt hcast ?_
  intro index hindex type rest hrun
  obtain ⟨_, _, hopening, htype, hclosing, hcastable⟩ := castType_eq_ok.1 hrun
  obtain ⟨hopened, rfl, hopening'⟩ := symbol_shared h.symm hindex (by decide) hopening
  obtain ⟨stop, -, hstop, rfl, htype'⟩ := typeRef_shared h.symm hopened htype
  obtain ⟨hclosed, rfl, hclosing'⟩ := symbol_shared h.symm hstop (by decide) hclosing
  refine ⟨type, first.skip (stop + 1), castType_eq_ok.2 ⟨_, _, hopening', htype', hclosing', ?_⟩⟩
  rw [← castableAt_eq, h.holds hclosed, castableAt_eq]
  exact hcastable

omit hinner in
theorem persists_front : Persists first second last front front :=
  (persists_holds h _).branch ((persists_takeText h).map _)
    ((persists_atSymbol h _).branch ((persists_castType h).map _) (.pure none))

theorem persists_unary : Persists first second last (unary inner) (unary inner') := by
  refine (Persists.many h (persists_front h)).bind fun fronts => ?_
  exact (persists_stepped h hinner).map _

/-! ## Rows of operands -/

theorem persists_operation : Persists first second last (operation inner) (operation inner') := by
  refine (persists_takeWord h _).branch ((persists_typeRef h).map _) ?_
  refine (persists_binary? h).bind fun found => ?_
  cases found with
  | some found => exact (Persists.skip _).bind fun _ => (persists_unary h hinner).map _
  | none => exact .pure none

theorem persists_binary : Persists first second last (binary inner) (binary inner') := by
  refine (persists_unary h hinner).bind fun first => ?_
  exact (Persists.many h (persists_operation h hinner)).map _

theorem persists_outcomes : Persists first second last (outcomes inner) (outcomes inner') := by
  refine (persists_takeSymbol h _).branch ?_ (.pure none)
  refine hinner.bind fun thenValue => ?_
  refine (persists_symbol h _).bind fun _ => ?_
  exact (persists_binary h hinner).map _

theorem persists_conditional :
    Persists first second last (conditional inner) (conditional inner') := by
  refine (persists_binary h hinner).bind fun first => ?_
  exact (Persists.many h (persists_outcomes h hinner)).map _

theorem persists_assigned : Persists first second last (assigned inner) (assigned inner') := by
  refine (persists_assignment? h).bind fun found => ?_
  cases found with
  | some found => exact (Persists.skip _).bind fun _ => (persists_conditional h hinner).map _
  | none => exact .pure none

theorem persists_expressionRule :
    Persists first second last (expressionRule inner) (expressionRule inner') := by
  refine (persists_conditional h hinner).bind fun first => ?_
  exact (Persists.many h (persists_assigned h hinner)).map _

omit hinner in
theorem persists_expression : Persists first second last expression expression :=
  .recursive h fun _ _ hinner => persists_expressionRule h hinner

end

end Grammar

end ApexLayout
