import ApexLayout.Grammar.Declaration
import ApexLayout.Proofs.Replay.Statement

/-!
The parts of members: parameters, bodies and accessors.
-/

namespace ApexLayout

namespace Grammar

variable {α β : Type} {bound : Nat} {source rest : TokenStream}

/-! ## Parameters -/

theorem parameter_ok {value : Parameter} (h : parameter source = .ok value rest) :
    ∃ behind middle, modifiers source = .ok value.modifiers behind ∧
      typeRef behind = .ok value.type middle ∧ identifier middle = .ok value.name rest := by
  unfold parameter at h
  obtain ⟨values, behind, hmodifiers, h⟩ := Reader.bind_eq_ok.1 h
  obtain ⟨type, middle, htype, h⟩ := Reader.bind_eq_ok.1 h
  obtain ⟨name, last, hname, h⟩ := Reader.bind_eq_ok.1 h
  cases h
  exact ⟨behind, middle, hmodifiers, htype, hname⟩

theorem plays_parameter {value : Parameter} (h : parameter source = .ok value rest) :
    PlaysAlone bound parameter source.pieces rest.pieces value.parts value := by
  obtain ⟨behind, middle, hmodifiers, htype, hname⟩ := parameter_ok h
  refine Plays.bind ((plays_modifiers hmodifiers true)) ?_
    fun _ _ f _ => led_typed (modifiers_end hmodifiers) htype hname f
  refine Plays.bind (plays_typeRef htype) ?_ fun _ _ _ _ => rfl
  exact (playsAlone_identifier hname).map (Parameter.mk value.modifiers value.type)

/-- A comma in front of something that is printed. -/
theorem plays_comma (h : takeSymbol "," source = .ok true rest) :
    Plays true true Anywhere bound (takeSymbol ",") source.pieces rest.pieces [.symbol ","] true := by
  intro hsound
  have hreplay : Replay bound (takeSymbol ",") source.pieces rest.pieces [.symbol ","] true :=
    replay_takeSymbol_true h
  exact ⟨.row (hreplay hsound.regular hsound.query).1, fun _ f _ => reads_takeSymbol_true rfl⟩

theorem plays_parameterRow {values : List Parameter}
    (h : commaSeparated parameter source = .ok values rest) :
    Plays false true (fun f => pieceAt f 0 (·.isSymbol ",") = false) bound
      (commaSeparated parameter) source.pieces rest.pieces
      (rowsBy (.symbol ",") (values.map Parameter.parts)) values := by
  unfold commaSeparated Reader.separated at h
  obtain ⟨first, middle, hfirst, h⟩ := Reader.bind_eq_ok.1 h
  obtain ⟨others, last, hothers, h⟩ := Reader.bind_eq_ok.1 h
  cases h
  have hsome : ∀ source value rest,
      Reader.optional (takeSymbol ",") parameter source = .ok (some value) rest →
      Plays false true Anywhere bound (Reader.optional (takeSymbol ",") parameter) source.pieces
        rest.pieces (.symbol "," :: value.parts) (some (id value)) := by
    intro source value rest hround
    obtain ⟨behind, hcomma, hvalue⟩ := Reader.optional_eq_some.1 hround
    exact Plays.bind_anywhere (plays_comma hcomma) ((plays_parameter hvalue).map some)
  have hmany := plays_many hsome (fun _ _ _ _ _ _ => ⟨_, _, rfl, fun _ => trivial⟩)
    (fun source rest hround => (takeSymbol_false (Reader.optional_eq_none.1 hround)).1) hothers false
  rw [List.map_cons, rowsBy_cons, List.flatMap_map]
  rw [List.map_id] at hmany
  refine Plays.bind_loose (plays_parameter hfirst) ?_ fun _ _ _ _ => trivial
  exact (hmany.mono fun f hf => ⟨trivial, (reads_takeSymbol_false hf).optional_none⟩).map (first :: ·)

theorem spell_parameter {value : Parameter} {parts : List Part}
    (h : parameter source = .ok value rest) (hrereads : Rereads value.parts) :
    ∃ piece pieces, spell (value.parts ++ parts) = piece :: pieces ∧
      (piece.modifies = true ∨ piece.isIdentifier = true) := by
  obtain ⟨behind, middle, -, htype, -⟩ := parameter_ok h
  obtain ⟨piece, pieces, hspell, hpiece⟩ := spell_modified (spell_type htype) hrereads
  exact ⟨piece, pieces ++ spell parts, by rw [spell_append]; exact congrArg (· ++ _) hspell, hpiece⟩

/-- A parameter list is read back. -/
theorem plays_parameters {values : List Parameter} (h : parameters source = .ok values rest) :
    PlaysAlone bound parameters source.pieces rest.pieces (parametersParts values) values := by
  unfold parameters at h
  obtain ⟨_, opened, hopen, hrest⟩ := Reader.bind_eq_ok.1 h
  obtain ⟨found, behind, hfound, hrun⟩ := Reader.bind_eq_ok.1 hrest
  clear h hrest
  refine Plays.bind_anywhere (playsAlone_symbol hopen (by decide)) ?_
  cases found with
  | true =>
    cases hrun
    exact Plays.bind_pure (playsAlone_takeSymbol hfound (by decide)) rfl
  | false =>
    obtain ⟨rfl, -⟩ := takeSymbol_false hfound
    obtain ⟨items, last, hitems, hrun⟩ := Reader.bind_eq_ok.1 hrun
    obtain ⟨_, closed, hclose, hrun⟩ := Reader.bind_eq_ok.1 hrun
    cases hrun
    refine Plays.bind_test false (fun _ hrereads f _ => ?_) ?_
    · -- the first parameter is no parenthesis
      have hfirst : ∃ first others, values = first :: others ∧ ∃ middle,
          parameter behind = .ok first middle := by
        unfold commaSeparated Reader.separated at hitems
        obtain ⟨first, middle, hfirst, hitems⟩ := Reader.bind_eq_ok.1 hitems
        obtain ⟨others, _, -, hitems⟩ := Reader.bind_eq_ok.1 hitems
        cases hitems
        exact ⟨first, others, rfl, middle, hfirst⟩
      obtain ⟨first, others, rfl, middle, hfirst⟩ := hfirst
      change Rereads (rowsBy _ ((first :: others).map Parameter.parts) ++ _) at hrereads
      show Reads bound _ [] (spell (rowsBy _ ((first :: others).map Parameter.parts) ++ _) ++ f) _
      rw [List.map_cons, rowsBy_cons, List.append_assoc] at hrereads ⊢
      obtain ⟨piece, pieces, hspell, hpiece⟩ :=
        spell_parameter hfirst (rereads_append.1 hrereads).1
      apply reads_takeSymbol_false
      rw [hspell, List.cons_append, pieceAt_zero]
      exact isSymbol_of_begins hpiece (by decide)
    · refine Plays.bind (plays_parameterRow hitems) ?_ fun _ _ _ _ => rfl
      exact (playsAlone_symbol hclose (by decide)).map fun _ => values

/-! ## Types and bodies of members -/

theorem returnType_ok {value : Option TypeRef} (h : returnType source = .ok value rest) :
    (value = none ∧ takeWord "void" source = .ok true rest) ∨
      ∃ type, value = some type ∧ takeWord "void" source = .ok false source ∧
        typeRef source = .ok type rest := by
  unfold returnType at h
  cases value with
  | none =>
    obtain ⟨found, middle, hfound, h⟩ := Reader.bind_eq_ok.1 (Reader.optional_eq_none.1 h)
    cases found with
    | true => cases h; exact .inl ⟨rfl, hfound⟩
    | false => cases h
  | some type =>
    obtain ⟨behind, htest, htype⟩ := Reader.optional_eq_some.1 h
    obtain ⟨found, middle, hfound, htest⟩ := Reader.bind_eq_ok.1 htest
    cases found with
    | true => cases htest
    | false =>
      cases htest
      obtain ⟨rfl, -⟩ := takeWord_false hfound
      exact .inr ⟨type, rfl, hfound, htype⟩

/-- A type or `void` is read back in front of a word. -/
theorem plays_returnType {value : Option TypeRef} (h : returnType source = .ok value rest) :
    Plays true true (fun f => pieceAt f 0 (·.kind == .word) = true) bound returnType source.pieces
      rest.pieces [TypeRef.partOrVoid value] value := by
  rcases returnType_ok h with ⟨rfl, hvoid⟩ | ⟨type, rfl, -, htype⟩
  · have htest : PlaysAlone bound (return !(← takeWord "void")) source.pieces rest.pieces
        [.word "void"] false :=
      (playsAlone_takeWord hvoid (by decide)).map fun found => !found
    have hplays : PlaysAlone bound returnType source.pieces rest.pieces [.word "void"] none :=
      Plays.bind_pure htest rfl
    exact (hplays.relax (by simp) fun h => h).mono fun _ _ => trivial
  · refine Plays.bind_test true (fun _ _ f _ => ?_) ((plays_typeRef htype).map some)
    have hfirst : ∃ piece pieces, spell [.type type] = piece :: pieces ∧ _ := spell_type htype
    obtain ⟨piece, pieces, hspell, hpiece⟩ := hfirst
    have htest : Reads bound (takeWord "void") [] (spell [.type type] ++ f) false := by
      apply reads_takeWord_false
      rw [hspell, List.cons_append, pieceAt_zero]
      exact Piece.isWord_of_identifier hpiece (by decide)
    exact htest.map fun found => !found

theorem led_returned {value : Option TypeRef} {name : Text} {middle last : TokenStream}
    {parts : List Part} (hahead : modifierAhead source.pieces = false)
    (htype : returnType source = .ok value middle) (hname : identifier middle = .ok name last)
    (f : List Piece) : Led (spell (TypeRef.partOrVoid value :: .word name :: parts) ++ f) := by
  rcases returnType_ok htype with ⟨rfl, -⟩ | ⟨type, rfl, -, htype⟩
  · exact ⟨rfl, rfl⟩
  · exact led_typed hahead htype hname f

/-- A body or a semicolon is read back. -/
theorem plays_bodyOrSemicolon {value : Option Block}
    (h : bodyOrSemicolon source = .ok value rest) :
    PlaysAlone bound bodyOrSemicolon source.pieces rest.pieces (Block.partsOrSemicolon value)
      (value.map Block.brace) := by
  unfold bodyOrSemicolon at h
  cases value with
  | none =>
    obtain ⟨found, middle, hfound, h⟩ := Reader.bind_eq_ok.1 (Reader.optional_eq_none.1 h)
    cases found with
    | false => cases h
    | true =>
      cases h
      have htest : PlaysAlone bound (return !(← takeSymbol ";")) source.pieces rest.pieces
          [.symbol ";"] false :=
        (playsAlone_takeSymbol hfound (by decide)).map fun found => !found
      exact Plays.bind_pure htest rfl
  | some body =>
    obtain ⟨behind, htest, hbody⟩ := Reader.optional_eq_some.1 h
    obtain ⟨found, middle, hfound, htest⟩ := Reader.bind_eq_ok.1 htest
    cases found with
    | true => cases htest
    | false =>
      cases htest
      obtain ⟨rfl, -⟩ := takeSymbol_false hfound
      -- a body is printed with its brace in front, which is no semicolon
      refine Plays.bind_test true (fun _ _ f _ => ?_) ((plays_block hbody).map some)
      have htest : Reads bound (takeSymbol ";") [] (spell (Block.parts body) ++ f) false :=
        reads_takeSymbol_false rfl
      exact htest.map fun found => !found

/-! ## Accessors and bodies between braces -/

theorem plays_accessorKind {kind : AccessorKind} (h : accessorKind source = .ok kind rest) :
    PlaysAlone bound accessorKind source.pieces rest.pieces [.word kind.text] kind := by
  unfold accessorKind at h
  obtain ⟨isGet, behind, hget, hrun⟩ := Reader.bind_eq_ok.1 h
  clear h
  cases isGet with
  | true =>
    cases hrun
    obtain ⟨piece, hpieces, hpiece⟩ := takeWord_true hget
    rw [hpieces]
    refine playsAlone_keyword hpiece (by decide) fun f => ?_
    have hword : Reads bound (takeWord "get") [.word "get"] ([] ++ f) true :=
      reads_takeWord_true rfl
    exact hword.bind (Reads.pure AccessorKind.get)
  | false =>
    obtain ⟨rfl, -⟩ := takeWord_false hget
    obtain ⟨isSet, last, hset, hrun⟩ := Reader.bind_eq_ok.1 hrun
    cases isSet with
    | false => cases hrun
    | true =>
      cases hrun
      obtain ⟨piece, hpieces, hpiece⟩ := takeWord_true hset
      rw [hpieces]
      refine playsAlone_keyword hpiece (by decide) fun f => ?_
      have hget' : Reads bound (takeWord "get") [] ([.word "set"] ++ f) false :=
        reads_takeWord_false rfl
      have hset' : Reads bound (takeWord "set") [.word "set"] ([] ++ f) true :=
        reads_takeWord_true rfl
      exact Reads.bind_nothing hget' (hset'.bind (Reads.pure AccessorKind.set))

theorem plays_accessor {value : Accessor} (h : accessor source = .ok value rest) :
    PlaysAlone bound accessor source.pieces rest.pieces value.parts value.brace := by
  unfold accessor at h
  obtain ⟨values, behind, hmodifiers, h⟩ := Reader.bind_eq_ok.1 h
  obtain ⟨kind, middle, hkind, h⟩ := Reader.bind_eq_ok.1 h
  obtain ⟨body, last, hbody, h⟩ := Reader.bind_eq_ok.1 h
  cases h
  refine Plays.bind ((plays_modifiers hmodifiers true)) ?_ fun _ _ f _ => ?_
  · refine Plays.bind_anywhere (plays_accessorKind hkind) ?_
    exact (plays_bodyOrSemicolon hbody).map (Accessor.mk values kind)
  · cases kind with
    | get => exact ⟨rfl, rfl⟩
    | set => exact ⟨rfl, rfl⟩

theorem spell_accessor {value : Accessor} (hrereads : Rereads value.parts) :
    ∃ piece pieces, spell value.parts = piece :: pieces ∧ piece.isSymbol "\x7d" = false := by
  have hkind : ∃ piece pieces, spell (.word value.kind.text :: Block.partsOrSemicolon value.body) =
      piece :: pieces ∧ piece.isSymbol "\x7d" = false :=
    ⟨.word value.kind.text, _, rfl, Piece.isSymbol_of_word rfl _⟩
  obtain ⟨piece, pieces, hspell, hpiece⟩ := spell_modified hkind hrereads
  refine ⟨piece, pieces, hspell, hpiece.elim (fun hmodifies => ?_) fun h => h⟩
  exact isSymbol_of_begins (.inl hmodifies) (by decide)

theorem notAt_ok {stop : Text} {found : Bool} (h : notAt stop source = .ok found rest) :
    rest = source := by
  unfold notAt at h
  obtain ⟨here, middle, hhere, h⟩ := Reader.bind_eq_ok.1 h
  cases h
  exact (atSymbol_eq_ok.1 hhere).2.symm

theorem reads_notAt {stop : Text} {found : Bool} {f : List Piece}
    (h : pieceAt f 0 (·.isSymbol stop) = found) : Reads bound (notAt stop) [] f (!found) :=
  (reads_atSymbol h).map fun found => !found

/-- Items between braces are read back. -/
theorem plays_braced {item : Grammar α} {item' : Grammar β} {print : α → List Part}
    {image : α → β} {values : List α}
    (hitem : ∀ source value rest, item source = .ok value rest →
      PlaysAlone bound item' source.pieces rest.pieces (print value) (image value))
    (hfirst : ∀ source value rest, item source = .ok value rest →
      Sound source.pieces (print value) → Rereads (print value) →
      ∃ piece pieces, spell (print value) = piece :: pieces ∧ piece.isSymbol "\x7d" = false)
    (h : braced item source = .ok values rest) :
    PlaysAlone (bound + 1) (braced item') source.pieces rest.pieces
      (blockParts (values.map print)) (values.map image) := by
  unfold braced at h
  obtain ⟨_, opened, hopen, h⟩ := Reader.bind_eq_ok.1 h
  obtain ⟨items, middle, hitems, h⟩ := Reader.bind_eq_ok.1 h
  obtain ⟨_, closed, hclose, h⟩ := Reader.bind_eq_ok.1 h
  cases h
  -- a round asks for the closing brace first, and no item is printed with it in front
  have hsome : ∀ source value rest,
      Reader.optional (notAt "\x7d") item source = .ok (some value) rest →
      Plays false true Anywhere bound (Reader.optional (notAt "\x7d") item') source.pieces
        rest.pieces (print value) (some (image value)) := by
    intro source value rest hround
    obtain ⟨behind, htest, hvalue⟩ := Reader.optional_eq_some.1 hround
    obtain rfl := notAt_ok htest
    refine Plays.bind_test true (fun hsound hrereads f _ => ?_) ((hitem _ _ _ hvalue).map some)
    obtain ⟨piece, pieces, hspell, hpiece⟩ := hfirst _ _ _ hvalue hsound hrereads
    have hnot : pieceAt (spell (print value) ++ f) 0 (·.isSymbol "\x7d") = false := by
      rw [hspell]
      exact hpiece
    exact reads_notAt hnot
  have hbegins : ∀ source value rest,
      Reader.optional (notAt "\x7d") item source = .ok (some value) rest →
      Sound source.pieces (print value) → Rereads (print value) → Begins Anywhere (print value) := by
    intro source value rest hround hsound hrereads
    obtain ⟨behind, htest, hvalue⟩ := Reader.optional_eq_some.1 hround
    obtain rfl := notAt_ok htest
    obtain ⟨piece, pieces, hspell, -⟩ := hfirst _ _ _ hvalue hsound hrereads
    exact ⟨piece, pieces, hspell, fun _ => trivial⟩
  have hmany := plays_many hsome hbegins
    (fun source rest hround => notAt_ok (Reader.optional_eq_none.1 hround)) hitems true
  unfold blockParts
  rw [← List.flatMap_def]
  refine Plays.bind_less (playsAlone_symbol hopen (by decide)) ?_
  refine Plays.bind hmany ?_ fun _ _ _ _ => ⟨trivial, Reads.optional_none (reads_notAt rfl)⟩
  exact (playsAlone_symbol hclose (by decide)).map fun _ => values.map image

/-! ## Members behind their modifiers -/

/-- The pieces that a constructor is told by, behind its first name. -/
def parametersPieces : List Piece → Bool
  | dot :: name :: rest =>
    if dot.isSymbol "." && name.isIdentifier then parametersPieces rest else dot.isSymbol "("
  | [piece] => piece.isSymbol "("
  | [] => false

theorem parametersAhead_eq (tokens : List Token) :
    parametersAhead tokens = parametersPieces (tokens.map Token.piece) := by
  fun_induction parametersAhead tokens with
  | case1 dot name rest hdot ih =>
    rw [List.map_cons, List.map_cons, parametersPieces, ih]
    exact (if_pos hdot).symm
  | case2 dot name rest hdot =>
    rw [List.map_cons, List.map_cons, parametersPieces]
    exact (if_neg hdot).symm
  | case3 token => rfl
  | case4 => rfl

/-- Whether the pieces look like a constructor. -/
def constructorPieces (pieces : List Piece) : Bool :=
  pieceAt pieces 0 Piece.isIdentifier && parametersPieces (pieces.drop 1)

theorem constructorAhead_eq (stream : TokenStream) :
    constructorAhead stream = constructorPieces stream.pieces := by
  unfold constructorAhead constructorPieces
  rw [TokenStream.identifierAt_eq, parametersAhead_eq, List.map_drop]
  rfl

/-- Names with a dot in front are passed over, up to the parameters. -/
theorem parametersPieces_eq (pieces : List Piece) :
    parametersPieces pieces =
      if dotName pieces then parametersPieces (pieces.drop 2)
      else pieceAt pieces 0 (·.isSymbol "(") := by
  unfold dotName
  match pieces with
  | [] => rfl
  | [piece] =>
    rw [pieceAt_one, pieceAt_nil, Bool.and_false, pieceAt_zero]
    rfl
  | dot :: name :: rest =>
    rw [pieceAt_zero, pieceAt_one, pieceAt_zero, pieceAt_zero, parametersPieces]
    rfl

theorem similar_behind_dotName {pieces pieces' : List Piece} (h : Similar pieces pieces')
    (hdot : dotName pieces = true) : Similar (pieces.drop 2) (pieces'.drop 2) := by
  unfold dotName at hdot
  rw [Bool.and_eq_true] at hdot
  obtain ⟨dot, others, rfl, hfirst⟩ := pieceAt_zero_true hdot.1
  have hname := hdot.2
  rw [pieceAt_one] at hname
  obtain ⟨name, rest, rfl, hname⟩ := pieceAt_zero_true hname
  cases h with
  | stop _ hstop =>
    rw [Piece.not_isStop_of_dot hfirst] at hstop
    exact absurd hstop (by decide)
  | cons _ htail =>
    cases htail with
    | stop _ hstop =>
      rw [Piece.not_isStop_of_word (Piece.isIdentifier_word hname)] at hstop
      exact absurd hstop (by decide)
    | cons _ htail => exact htail

theorem parametersPieces_similar {pieces pieces' : List Piece} (h : Similar pieces pieces') :
    parametersPieces pieces = parametersPieces pieces' := by
  induction hlength : pieces.length using Nat.strongRecOn generalizing pieces pieces' with
  | ind length ih =>
    rw [parametersPieces_eq pieces, parametersPieces_eq pieces', ← dotName_similar h]
    cases hdot : dotName pieces with
    | false =>
      rw [h.first (Piece.respects_isSymbol "(")]
      rfl
    | true =>
      have hless : (pieces.drop 2).length < length := by
        cases pieces with
        | nil => simp [dotName] at hdot
        | cons piece rest => simp at hlength ⊢; omega
      exact ih _ hless (similar_behind_dotName h hdot) rfl

theorem constructorPieces_similar {pieces pieces' : List Piece} (h : Similar pieces pieces') :
    constructorPieces pieces = constructorPieces pieces' := by
  unfold constructorPieces
  rw [h.first Piece.respects_isIdentifier]
  cases hfirst : pieceAt pieces' 0 Piece.isIdentifier with
  | false => rfl
  | true =>
    obtain ⟨name, rest, rfl, hname⟩ := pieceAt_zero_true hfirst
    cases h with
    | stop hhead hstop =>
      rw [← Piece.respects_isIdentifier _ _ hhead] at hname
      rw [Piece.not_isStop_of_word (Piece.isIdentifier_word hname)] at hstop
      exact absurd hstop (by decide)
    | cons _ htail =>
      rw [Bool.true_and, Bool.true_and]
      exact parametersPieces_similar htail

end Grammar

end ApexLayout
