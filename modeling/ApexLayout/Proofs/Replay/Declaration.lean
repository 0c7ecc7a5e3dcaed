import ApexLayout.Proofs.Replay.Member

/-!
Members, type declarations and compilation units.

What a member is, is decided behind its modifiers by tokens that stand in front of the first
parenthesis, brace or semicolon, and these are printed as they were read.
-/

namespace ApexLayout

namespace Grammar

variable {α β : Type} {bound : Nat} {source rest : TokenStream}

/-- What stands behind modifiers is read back, and it looks like the source up to a symbol past
which no rule looks. -/
structure PlaysTail (rule : Nat → Grammar α) (source rest : List Piece) (parts : List Part)
    (value : α) : Prop where
  plays : ∀ bound, PlaysAlone (bound + 1) (rule bound) source rest parts value
  similar : Sound source parts → ∀ f, Similar source (spell parts ++ f)

namespace PlaysTail

variable {source middle rest : List Piece} {parts more : List Part} {value : β}

/-- A tail that begins with the symbol past which no rule looks. -/
theorem of_symbol {rule : Nat → Grammar β} {text : Text}
    (hmark : pieceAt source 0 (·.isSymbol text) = true)
    (h : ∀ bound, PlaysAlone (bound + 1) (rule bound) source rest (.symbol text :: more) value)
    (hdot : text ≠ [ '.' ] := by decide) (hbracket : text ≠ [ '[' ] := by decide) :
    PlaysTail rule source rest (.symbol text :: more) value := by
  refine ⟨h, fun _ f => ?_⟩
  obtain ⟨piece, others, rfl, hpiece⟩ := pieceAt_zero_true hmark
  exact Similar.of_symbol hpiece (Piece.isSymbol_iff.2 ⟨rfl, rfl⟩) hdot hbracket

/-- In front of a tail stands what is printed as it was read. -/
theorem bind {first : Grammar α} {next : Nat → α → Grammar β} {a : α}
    (hfirst : ∀ bound, Replay bound first source middle parts a)
    (hnext : PlaysTail (fun bound => next bound a) middle rest more value) :
    PlaysTail (fun bound => first >>= next bound) source rest (parts ++ more) value := by
  refine ⟨fun bound => ?_, fun hsound f => ?_⟩
  · exact Plays.bind (hfirst _).plays (hnext.plays bound) fun hsound _ f _ =>
      hnext.similar hsound f
  · obtain ⟨hprinted, -⟩ := hfirst 0 hsound.regular hsound.left.query
    have hmiddle : Sound middle more :=
      ⟨fun piece hpiece => hsound.regular piece (hprinted.mem_of_mem hpiece),
        fun hquery => hsound.query (List.mem_append_right parts hquery)⟩
    rw [spell_append, List.append_assoc]
    exact (hfirst 0).similar hsound.left (hnext.similar hmiddle f)

/-- A symbol in front of a tail is the one of the source. -/
theorem bind_atSymbol {next : Nat → Bool → Grammar β} {text : Text} {found : Bool}
    (hfound : pieceAt source 0 (·.isSymbol text) = found)
    (hnext : PlaysTail (fun bound => next bound found) source rest parts value) :
    PlaysTail (fun bound => atSymbol text >>= next bound) source rest parts value := by
  refine ⟨fun bound => ?_, hnext.similar⟩
  refine Plays.bind_test found (fun hsound _ f _ => reads_atSymbol ?_) (hnext.plays bound)
  rw [← hfound]
  exact ((hnext.similar hsound f).first (Piece.respects_isSymbol text)).symm

/-- A test that looks at the whole stream decides the same on what looks like the source. -/
theorem get {next : Nat → TokenStream → Grammar β} {rule : Nat → Grammar β}
    (hnext : ∀ bound (stream : TokenStream), Similar source stream.pieces →
      next bound stream = rule bound)
    (h : PlaysTail rule source rest parts value) :
    PlaysTail (fun bound => MonadState.get >>= next bound) source rest parts value := by
  refine ⟨fun bound => Plays.get (fun hsound _ f _ stream hstream => ?_) (h.plays bound), h.similar⟩
  apply hnext
  rw [hstream]
  exact h.similar hsound f

theorem map {rule : Nat → Grammar α} {a : α} (h : PlaysTail rule source rest parts a) (f : α → β) :
    PlaysTail (fun bound => rule bound >>= fun a => pure (f a)) source rest parts (f a) :=
  ⟨fun bound => (h.plays bound).map f, h.similar⟩

end PlaysTail

/-! ## Constructors, methods, properties and fields -/

theorem parameters_ahead {values : List Parameter} (h : parameters source = .ok values rest) :
    pieceAt source.pieces 0 (·.isSymbol "(") = true := by
  unfold parameters at h
  obtain ⟨_, opened, hopen, -⟩ := Reader.bind_eq_ok.1 h
  exact symbol_ahead hopen

theorem constructor_tail {values : List Modifier} {value : Member}
    (h : constructor values source = .ok value rest) :
    ∃ parts, value.parts = modifierParts values ++ parts ∧
      PlaysTail (fun _ => constructor values) source.pieces rest.pieces parts value.brace := by
  unfold constructor at h
  obtain ⟨names, middle, hnames, h⟩ := Reader.bind_eq_ok.1 h
  obtain ⟨items, behind, hitems, h⟩ := Reader.bind_eq_ok.1 h
  obtain ⟨body, last, hbody, h⟩ := Reader.bind_eq_ok.1 h
  cases h
  have hreplay : ∀ bound, Replay bound (Reader.separated (takeSymbol ".") identifier) source.pieces
      middle.pieces (namesParts "." names) names := fun bound =>
    replay_separated (fun _ _ _ => replay_identifier) (fun _ _ => replay_takeSymbol_true)
      (fun _ _ => replay_takeSymbol_false) hnames
  refine ⟨_, rfl, .bind hreplay (.of_symbol (parameters_ahead hitems) fun bound => ?_)⟩
  refine Plays.bind_anywhere (plays_parameters hitems) ?_
  exact (plays_block hbody).map fun body => Member.constructor ⟨values, names, items, body⟩

theorem replay_returnType {value : Option TypeRef} (h : returnType source = .ok value rest) :
    Replay bound returnType source.pieces rest.pieces [TypeRef.partOrVoid value] value := by
  rcases returnType_ok h with ⟨rfl, hvoid⟩ | ⟨type, rfl, hvoid, htype⟩
  · have htest : Replay bound (return !(← takeWord "void")) source.pieces rest.pieces
        [.word "void"] false :=
      (replay_takeWord_true hvoid (by decide)).map fun found => !found
    exact htest.optional_none
  · have htest : Replay bound (return !(← takeWord "void")) source.pieces source.pieces [] true :=
      (replay_takeWord_false hvoid).map fun found => !found
    exact htest.optional_some (replay_typeRef htype)

/-- Declarators behind the first name, with one list of parts for every bound. -/
theorem replay_declared {first : Text} {values : List Declarator}
    (h : declarators first source = .ok values rest) :
    ∃ parts, rowsBy (.symbol ",") (values.map Declarator.parts) = .word first :: parts ∧
      ∀ bound, Replay bound (declarators first) source.pieces rest.pieces parts values := by
  have hzero : ∃ parts, _ ∧ Replay 0 (declarators first) source.pieces rest.pieces parts values :=
    replay_declarators h
  obtain ⟨parts, hparts, -⟩ := hzero
  refine ⟨parts, hparts, fun bound => ?_⟩
  have hbound : ∃ parts, _ ∧
      Replay bound (declarators first) source.pieces rest.pieces parts values :=
    replay_declarators h
  obtain ⟨parts', hparts', hreplay⟩ := hbound
  obtain ⟨-, rfl⟩ := List.cons.inj (hparts.symm.trans hparts')
  exact hreplay

/-- A property or a field, behind its name. -/
theorem variableMember_tail {values : List Modifier} {type : TypeRef} {name : Text} {value : Member}
    (h : variableMember values type name source = .ok value rest) :
    ∃ parts, value.parts = modifierParts values ++ .type type :: .word name :: parts ∧
      PlaysTail (fun _ => variableMember values type name) source.pieces rest.pieces parts
        value.brace := by
  unfold variableMember at h
  obtain ⟨opens, behind, hopens, hrun⟩ := Reader.bind_eq_ok.1 h
  clear h
  -- a brace behind the name makes it a property
  obtain ⟨hhere, rfl⟩ := atSymbol_eq_ok.1 hopens
  cases opens with
  | true =>
    obtain ⟨accessors, last, haccessors, hrun⟩ := Reader.bind_eq_ok.1 hrun
    cases hrun
    refine ⟨_, rfl, .bind_atSymbol hhere (.of_symbol hhere fun bound => ?_)⟩
    have hbraced : PlaysAlone (bound + 1) (braced accessor) _ _ _ (accessors.map Accessor.brace) :=
      plays_braced (fun _ _ _ => plays_accessor) (fun _ _ _ _ _ => spell_accessor) haccessors
    exact hbraced.map fun accessors => Member.property ⟨values, type, name, accessors⟩
  | false =>
    obtain ⟨declared, middle, hdeclared, hrun⟩ := Reader.bind_eq_ok.1 hrun
    obtain ⟨_, last, hend, hrun⟩ := Reader.bind_eq_ok.1 hrun
    cases hrun
    obtain ⟨parts, hparts, hreplay⟩ := replay_declared hdeclared
    have hfield : (Member.field ⟨values, type, declared⟩).parts =
        modifierParts values ++ .type type :: .word name :: (parts ++ [.symbol ";"]) := by
      rw [Member.parts, VariableDeclaration.parts, hparts]
      simp
    refine ⟨_, hfield, .bind_atSymbol hhere (.bind hreplay (.of_symbol (symbol_ahead hend) ?_))⟩
    intro bound
    exact (playsAlone_symbol hend (by decide)).map fun _ => Member.field ⟨values, type, declared⟩

/-- A method, a property or a field, behind its modifiers. -/
theorem typedMember_tail {values : List Modifier} {value : Member}
    (h : typedMember values source = .ok value rest) :
    ∃ parts, value.parts = modifierParts values ++ parts ∧
      PlaysTail (fun _ => typedMember values) source.pieces rest.pieces parts value.brace := by
  unfold typedMember at h
  obtain ⟨type, middle, htype, h⟩ := Reader.bind_eq_ok.1 h
  obtain ⟨name, behind, hname, h⟩ := Reader.bind_eq_ok.1 h
  obtain ⟨called, before, hcalled, hrun⟩ := Reader.bind_eq_ok.1 h
  clear h
  obtain ⟨hhere, rfl⟩ := atSymbol_eq_ok.1 hcalled
  cases called with
  | true =>
    obtain ⟨items, after, hitems, hrun⟩ := Reader.bind_eq_ok.1 hrun
    obtain ⟨body, last, hbody, hrun⟩ := Reader.bind_eq_ok.1 hrun
    cases hrun
    refine ⟨_, rfl, .bind (fun _ => replay_returnType htype) (.bind (fun _ => replay_identifier hname)
      (.bind_atSymbol hhere (.of_symbol hhere fun bound => ?_)))⟩
    refine Plays.bind_anywhere (plays_parameters hitems) ?_
    exact (plays_bodyOrSemicolon hbody).map fun body =>
      Member.method ⟨values, type, name, items, body⟩
  | false =>
    cases type with
    | none => cases hrun
    | some type =>
      obtain ⟨parts, hparts, htail⟩ := variableMember_tail hrun
      exact ⟨_, hparts, .bind (fun _ => replay_returnType htype)
        (.bind (fun _ => replay_identifier hname) (.bind_atSymbol hhere htail))⟩

/-! ## Members of interfaces -/

theorem continues_of_word {pieces : List Piece}
    (h : pieceAt pieces 0 (·.kind == .word) = true) : pieceAt pieces 0 Piece.continues = true := by
  obtain ⟨piece, others, rfl, hpiece⟩ := pieceAt_zero_true h
  rw [pieceAt_zero]
  exact Bool.or_eq_true_iff.2 (.inl hpiece)

/-- What begins with modifiers begins with the mark of an annotation or with a word. -/
theorem continues_modified {values : List Modifier} {parts : List Part} {f : List Piece}
    (hrereads : Rereads (modifierParts values)) (hled : Led (spell parts ++ f)) :
    pieceAt (spell (modifierParts values ++ parts) ++ f) 0 Piece.continues = true := by
  cases values with
  | nil => exact hled.1
  | cons value values =>
    obtain ⟨piece, others, hpieces, hpiece⟩ := (hrereads value List.mem_cons_self).head
    simp only [modifierParts, List.map_cons, List.cons_append, spell_cons, Part.pieces, hpieces]
    exact (pieceAt_zero _ _ _).trans (Piece.continues_of_modifies hpiece)

theorem not_symbol_of_continues {pieces : List Piece} {text : Text}
    (h : pieceAt pieces 0 Piece.continues = true) (htext : text ≠ [ '@' ]) :
    pieceAt pieces 0 (·.isSymbol text) = false := by
  obtain ⟨piece, others, rfl, hpiece⟩ := pieceAt_zero_true h
  rw [pieceAt_zero]
  exact isSymbol_of_continues hpiece htext

theorem interfaceMethod_ok {value : Member} (h : interfaceMethod source = .ok value rest) :
    ∃ method behind middle last after, value = .method method ∧ method.body = none ∧
      modifiers source = .ok method.modifiers behind ∧
      returnType behind = .ok method.returnType middle ∧ identifier middle = .ok method.name last ∧
      parameters last = .ok method.parameters after ∧ symbol ";" after = .ok () rest := by
  unfold interfaceMethod at h
  obtain ⟨values, behind, hmodifiers, h⟩ := Reader.bind_eq_ok.1 h
  obtain ⟨type, middle, htype, h⟩ := Reader.bind_eq_ok.1 h
  obtain ⟨name, last, hname, h⟩ := Reader.bind_eq_ok.1 h
  obtain ⟨items, after, hitems, h⟩ := Reader.bind_eq_ok.1 h
  obtain ⟨_, final, hend, h⟩ := Reader.bind_eq_ok.1 h
  cases h
  exact ⟨⟨values, type, name, items, none⟩, behind, middle, last, after, rfl, rfl, hmodifiers,
    htype, hname, hitems, hend⟩

/-- A method begins with a word or with an annotation. -/
theorem interfaceMethod_begins {value : Member} {f : List Piece}
    (h : interfaceMethod source = .ok value rest) (hrereads : Rereads value.parts) :
    pieceAt (spell value.parts ++ f) 0 Piece.continues = true := by
  obtain ⟨method, behind, middle, last, after, rfl, -, hmodifiers, htype, hname, -, -⟩ :=
    interfaceMethod_ok h
  exact continues_modified (rereads_append.1 hrereads).1
    (led_returned (modifiers_end hmodifiers) htype hname f)

theorem plays_interfaceMethod {value : Member} (h : interfaceMethod source = .ok value rest) :
    PlaysAlone bound interfaceMethod source.pieces rest.pieces value.parts value.brace := by
  obtain ⟨⟨values, type, name, items, body⟩, behind, middle, last, after, rfl, rfl, hmodifiers,
    htype, hname, hitems, hend⟩ := interfaceMethod_ok h
  refine Plays.bind (plays_modifiers hmodifiers true) ?_
    fun _ _ f _ => led_returned (modifiers_end hmodifiers) htype hname f
  refine Plays.bind (plays_returnType htype) ?_ fun _ _ _ _ => rfl
  refine Plays.bind_anywhere (playsAlone_identifier hname) ?_
  refine Plays.bind_anywhere (plays_parameters hitems) ?_
  exact (playsAlone_symbol hend (by decide)).map fun _ =>
    Member.method ⟨values, type, name, items, none⟩

theorem interfaceMember_ok {value : Member} (h : interfaceMember source = .ok value rest) :
    (value = .empty ∧ takeSymbol ";" source = .ok true rest) ∨
      interfaceMethod source = .ok value rest := by
  unfold interfaceMember at h
  obtain ⟨found, behind, hfound, hrun⟩ := Reader.bind_eq_ok.1 h
  clear h
  cases found with
  | true =>
    cases hrun
    exact .inl ⟨rfl, hfound⟩
  | false =>
    obtain ⟨rfl, -⟩ := takeSymbol_false hfound
    exact .inr hrun

theorem plays_interfaceMember {value : Member} (h : interfaceMember source = .ok value rest) :
    PlaysAlone bound interfaceMember source.pieces rest.pieces value.parts value.brace := by
  rcases interfaceMember_ok h with ⟨rfl, hfound⟩ | hmethod
  · exact Plays.bind_pure (playsAlone_takeSymbol hfound (by decide)) rfl
  · refine Plays.bind_test false (fun _ hrereads f _ => ?_) (plays_interfaceMethod hmethod)
    exact reads_takeSymbol_false
      (not_symbol_of_continues (interfaceMethod_begins hmethod hrereads) (by decide))

/-- What begins with a word or with an annotation does not begin with a brace. -/
theorem spell_continues {parts : List Part}
    (h : ∀ f, pieceAt (spell parts ++ f) 0 Piece.continues = true) :
    ∃ piece pieces, spell parts = piece :: pieces ∧ piece.isSymbol "\x7d" = false := by
  obtain ⟨piece, pieces, hspell, hpiece⟩ := pieceAt_zero_true (h [])
  rw [List.append_nil] at hspell
  exact ⟨piece, pieces, hspell, isSymbol_of_continues hpiece (by decide)⟩

theorem spell_interfaceMember {value : Member} (h : interfaceMember source = .ok value rest)
    (hrereads : Rereads value.parts) :
    ∃ piece pieces, spell value.parts = piece :: pieces ∧ piece.isSymbol "\x7d" = false := by
  rcases interfaceMember_ok h with ⟨rfl, -⟩ | hmethod
  · exact ⟨.symbol ";", [], rfl, rfl⟩
  · exact spell_continues fun f => interfaceMethod_begins hmethod hrereads

/-! ## Enums -/

theorem furtherConstant_some {value : Text} (h : furtherConstant source = .ok (some value) rest) :
    PlaysAlone bound furtherConstant source.pieces rest.pieces [.symbol ",", .word value]
      (some value) := by
  unfold furtherConstant at h
  obtain ⟨found, behind, hfound, hrun⟩ := Reader.bind_eq_ok.1 h
  clear h
  cases found with
  | false => cases hrun
  | true =>
    obtain ⟨middle, htest, hname⟩ := Reader.optional_eq_some.1 hrun
    obtain rfl := notAt_ok htest
    refine Plays.bind_anywhere (plays_comma hfound) ?_
    exact Plays.bind_test true (fun _ _ f _ => reads_notAt rfl) ((playsAlone_identifier hname).map some)

/-- Behind the last constant stands nothing, or a comma that is not printed. -/
theorem furtherConstant_none (h : furtherConstant source = .ok none rest) :
    Yields false false source.pieces rest.pieces [] := by
  unfold furtherConstant at h
  obtain ⟨found, behind, hfound, hrun⟩ := Reader.bind_eq_ok.1 h
  clear h
  cases found with
  | false =>
    cases hrun
    obtain ⟨rfl, -⟩ := takeSymbol_false hfound
    exact .nil false _
  | true =>
    obtain ⟨piece, hpieces, hpiece⟩ := takeSymbol_true hfound
    have htest := Reader.optional_eq_none.1 hrun
    obtain ⟨here, middle, hhere, htest⟩ := Reader.bind_eq_ok.1 htest
    obtain ⟨hclosed, rfl⟩ := atSymbol_eq_ok.1 hhere
    cases here with
    | false => cases htest
    | true =>
      cases htest
      rw [hpieces]
      exact .comma hpiece hclosed

theorem namesParts_cons (separator first : Text) (others : List Text) :
    namesParts separator (first :: others) =
      [.word first] ++ others.flatMap fun name => [.symbol separator, .word name] := by
  unfold namesParts
  rw [List.map_cons, rowsBy_cons, List.flatMap_map]

/-- The constants of an enum are read back in front of its closing brace. -/
theorem plays_constants {values : List Text} (h : constants source = .ok values rest) :
    Plays false false (fun f => pieceAt f 0 (·.isSymbol "\x7d") = true) bound constants
      source.pieces rest.pieces (namesParts "," values) values := by
  unfold constants at h
  obtain ⟨closed, behind, hclosed, hrun⟩ := Reader.bind_eq_ok.1 h
  clear h
  obtain ⟨hhere, rfl⟩ := atSymbol_eq_ok.1 hclosed
  cases closed with
  | true =>
    cases hrun
    refine Plays.bind_test true (fun _ _ f hf => reads_atSymbol hf) ?_
    exact (Plays.pure false []).mono fun _ _ => trivial
  | false =>
    obtain ⟨first, middle, hfirst, hrun⟩ := Reader.bind_eq_ok.1 hrun
    obtain ⟨others, final, hothers, hrun⟩ := Reader.bind_eq_ok.1 hrun
    cases hrun
    have hsome : ∀ source value rest, furtherConstant source = .ok (some value) rest →
        Plays false true Anywhere bound furtherConstant source.pieces rest.pieces
          [.symbol ",", .word value] (some (id value)) := fun _ _ _ => furtherConstant_some
    obtain ⟨last, hlast, hmany⟩ :=
      plays_rounds hsome (fun _ _ _ _ _ _ => ⟨_, _, rfl, fun _ => trivial⟩) hothers false
    have hrounds : Plays false false (fun f => pieceAt f 0 (·.isSymbol "\x7d") = true) bound
        (Reader.many furtherConstant) middle.pieces rest.pieces
        (others.flatMap fun name => [.symbol ",", .word name]) others := by
      intro hsound
      obtain ⟨hyields, hreads⟩ := hmany hsound
      rw [List.map_id] at hreads
      refine ⟨?_, fun hrereads f hf => hreads hrereads f ⟨trivial, ?_⟩⟩
      -- a comma behind the last constant is read and not printed
      · have hboth := hyields.append (furtherConstant_none hlast)
        rwa [List.append_nil] at hboth
      · obtain ⟨piece, others, rfl, hpiece⟩ := pieceAt_zero_true hf
        have hnone : Reads bound (takeSymbol ",") [] (piece :: others) false :=
          reads_takeSymbol_false (Piece.isSymbol_eq_false hpiece (by decide))
        exact hnone.bind_nothing (Reads.pure none)
    rw [namesParts_cons]
    have hconstants : Plays false true (fun f => pieceAt f 0 (·.isSymbol "\x7d") = true) bound
        (identifier >>= fun first => Reader.many furtherConstant >>= fun others =>
          pure (first :: others)) source.pieces rest.pieces _ (first :: others) :=
      Plays.bind_loose (playsAlone_identifier hfirst) (hrounds.map (first :: ·))
        fun _ _ _ _ => trivial
    refine (Plays.bind_test false (fun _ _ f _ => reads_atSymbol ?_) hconstants).relax
    have hword : (Piece.word first).isSymbol "\x7d" = false := Piece.isSymbol_of_word rfl _
    exact hword

/-! ## Type declarations -/

theorem replay_typeList {types : List TypeRef} (h : typeList source = .ok types rest) :
    Replay bound typeList source.pieces rest.pieces
      (rowsBy (.symbol ",") (types.map fun type => [.type type])) types :=
  replay_separated (fun _ _ _ => replay_typeRef) (fun _ _ => replay_takeSymbol_true)
    (fun _ _ => replay_takeSymbol_false) h

theorem typeList_cons {types : List TypeRef} (h : typeList source = .ok types rest) :
    ∃ first others, types = first :: others := by
  unfold typeList commaSeparated Reader.separated at h
  obtain ⟨first, middle, -, h⟩ := Reader.bind_eq_ok.1 h
  obtain ⟨others, last, -, h⟩ := Reader.bind_eq_ok.1 h
  cases h
  exact ⟨first, others, rfl⟩

theorem replay_typesAfter {keyword : Text} {types : List TypeRef}
    (hkeyword : keyword ∈ Vocabulary.printed) (h : typesAfter keyword source = .ok types rest) :
    Replay bound (typesAfter keyword) source.pieces rest.pieces (clauseParts keyword types)
      types := by
  unfold typesAfter at h
  obtain ⟨found, last, hfound, h⟩ := Reader.bind_eq_ok.1 h
  cases h
  cases found with
  | none =>
    have hnone : Replay bound (Reader.optional (takeWord keyword) typeList) source.pieces
        rest.pieces [] none :=
      (replay_takeWord_false (Reader.optional_eq_none.1 hfound)).optional_none
    exact hnone.map (·.getD [])
  | some types =>
    obtain ⟨middle, hword, htypes⟩ := Reader.optional_eq_some.1 hfound
    obtain ⟨first, others, rfl⟩ := typeList_cons htypes
    have hsome : Replay bound (Reader.optional (takeWord keyword) typeList) source.pieces
        rest.pieces (clauseParts keyword (first :: others)) (some (first :: others)) :=
      (replay_takeWord_true hword hkeyword).optional_some (replay_typeList htypes)
    exact hsome.map (·.getD [])

theorem replay_parent {parent : Option TypeRef}
    (h : Reader.optional (takeWord "extends") typeRef source = .ok parent rest) :
    Replay bound (Reader.optional (takeWord "extends") typeRef) source.pieces rest.pieces
      (clauseParts "extends" parent.toList) parent := by
  cases parent with
  | none => exact (replay_takeWord_false (Reader.optional_eq_none.1 h)).optional_none
  | some type =>
    obtain ⟨middle, hword, htype⟩ := Reader.optional_eq_some.1 h
    exact (replay_takeWord_true hword (by decide)).optional_some (replay_typeRef htype)

theorem braced_ahead {item : Grammar α} {values : List α} (h : braced item source = .ok values rest) :
    pieceAt source.pieces 0 (·.isSymbol "\x7b") = true := by
  unfold braced at h
  obtain ⟨_, opened, hopen, -⟩ := Reader.bind_eq_ok.1 h
  exact symbol_ahead hopen

/-- What is asked of the members of a class. -/
structure PlaysMember (source rest : List Piece) (value : Member) : Prop where
  plays : ∀ bound, PlaysAlone bound member source rest value.parts value.brace
  begins : Sound source value.parts → Rereads value.parts →
    ∃ piece pieces, spell value.parts = piece :: pieces ∧ piece.isSymbol "\x7d" = false

/-- A rule for the members of nested classes plays whatever members play. -/
def PlaysFor (rule : Nat → Grammar Member) : Prop :=
  ∀ bound source rest parts value, (∀ bound, PlaysAlone bound member source rest parts value) →
    PlaysAlone bound (rule bound) source rest parts value

theorem playsFor_member : PlaysFor fun _ => member :=
  fun bound _ _ _ _ h => h bound

theorem playsFor_below : PlaysFor fun bound => Reader.below bound member :=
  fun _ _ _ _ _ h => Plays.below h

variable {inner : Grammar Member} {nested : Nat → Grammar Member}

theorem classType_tail {values : List Modifier} {value : Declaration} (hnested : PlaysFor nested)
    (hinner : ∀ source value rest, inner source = .ok value rest →
      PlaysMember source.pieces rest.pieces value)
    (h : classType inner values source = .ok value rest) :
    ∃ parts, value.parts = modifierParts values ++ .word "class" :: parts ∧
      PlaysTail (fun bound => classType (nested bound) values) source.pieces rest.pieces parts
        value.brace := by
  unfold classType at h
  obtain ⟨name, middle, hname, h⟩ := Reader.bind_eq_ok.1 h
  obtain ⟨parent, behind, hparent, h⟩ := Reader.bind_eq_ok.1 h
  obtain ⟨interfaces, last, hinterfaces, h⟩ := Reader.bind_eq_ok.1 h
  obtain ⟨body, final, hbody, h⟩ := Reader.bind_eq_ok.1 h
  cases h
  refine ⟨_, rfl, .bind (fun _ => replay_identifier hname) (.bind (fun _ => replay_parent hparent)
    (.bind (fun _ => replay_typesAfter (by decide) hinterfaces)
      (.of_symbol (braced_ahead hbody) fun bound => ?_)))⟩
  have hbraced : PlaysAlone (bound + 1) (braced (nested bound)) last.pieces rest.pieces
      (blockParts (body.map Member.parts)) (body.map Member.brace) :=
    plays_braced (fun _ _ _ hrun => hnested _ _ _ _ _ (hinner _ _ _ hrun).plays)
      (fun _ _ _ hrun => (hinner _ _ _ hrun).begins) hbody
  rw [← Member.partsAll_eq_map, ← Member.braceAll_eq_map] at hbraced
  exact hbraced.map fun body => Declaration.classType values name parent interfaces body

theorem interfaceType_tail {values : List Modifier} {value : Declaration}
    (h : interfaceType values source = .ok value rest) :
    ∃ parts, value.parts = modifierParts values ++ .word "interface" :: parts ∧
      PlaysTail (fun _ => interfaceType values) source.pieces rest.pieces parts value.brace := by
  unfold interfaceType at h
  obtain ⟨name, middle, hname, h⟩ := Reader.bind_eq_ok.1 h
  obtain ⟨parents, last, hparents, h⟩ := Reader.bind_eq_ok.1 h
  obtain ⟨body, final, hbody, h⟩ := Reader.bind_eq_ok.1 h
  cases h
  refine ⟨_, rfl, .bind (fun _ => replay_identifier hname)
    (.bind (fun _ => replay_typesAfter (by decide) hparents)
      (.of_symbol (braced_ahead hbody) fun bound => ?_))⟩
  have hbraced : PlaysAlone (bound + 1) (braced interfaceMember) last.pieces rest.pieces
      (blockParts (body.map Member.parts)) (body.map Member.brace) :=
    plays_braced (fun _ _ _ => plays_interfaceMember)
      (fun _ _ _ hrun _ => spell_interfaceMember hrun) hbody
  rw [← Member.partsAll_eq_map, ← Member.braceAll_eq_map] at hbraced
  exact hbraced.map fun body => Declaration.interfaceType values name parents body

theorem enumType_tail {values : List Modifier} {value : Declaration}
    (h : enumType values source = .ok value rest) :
    ∃ parts, value.parts = modifierParts values ++ .word "enum" :: parts ∧
      PlaysTail (fun _ => enumType values) source.pieces rest.pieces parts value.brace := by
  unfold enumType at h
  obtain ⟨name, middle, hname, h⟩ := Reader.bind_eq_ok.1 h
  obtain ⟨_, opened, hopen, h⟩ := Reader.bind_eq_ok.1 h
  obtain ⟨names, last, hnames, h⟩ := Reader.bind_eq_ok.1 h
  obtain ⟨_, closed, hclose, h⟩ := Reader.bind_eq_ok.1 h
  cases h
  refine ⟨_, rfl, .bind (fun _ => replay_identifier hname)
    (.of_symbol (symbol_ahead hopen) fun bound => ?_)⟩
  refine Plays.bind_loose (playsAlone_symbol hopen (by decide)) ?_ fun _ _ _ _ => trivial
  refine Plays.bind (plays_constants hnames) ?_ fun _ _ _ _ => rfl
  exact (playsAlone_symbol hclose (by decide)).map fun _ => Declaration.enumType values name names

/-- A type declaration is read back behind its modifiers. -/
theorem declarationOf_tail {values : List Modifier} {value : Declaration}
    (hnested : PlaysFor nested)
    (hinner : ∀ source value rest, inner source = .ok value rest →
      PlaysMember source.pieces rest.pieces value)
    (h : declarationOf inner values source = .ok value rest) :
    ∃ parts, value.parts = modifierParts values ++ parts ∧
      PlaysTail (fun bound => declarationOf (nested bound) values) source.pieces rest.pieces parts
        value.brace := by
  unfold declarationOf at h
  obtain ⟨isClass, behind, hclass, hrun⟩ := Reader.bind_eq_ok.1 h
  clear h
  cases isClass with
  | true =>
    obtain ⟨parts, hparts, htail⟩ := classType_tail hnested hinner hrun
    exact ⟨_, hparts, .bind (fun _ => replay_takeWord_true hclass (by decide)) htail⟩
  | false =>
    obtain ⟨isInterface, middle, hinterface, hrun⟩ := Reader.bind_eq_ok.1 hrun
    cases isInterface with
    | true =>
      obtain ⟨parts, hparts, htail⟩ := interfaceType_tail hrun
      exact ⟨_, hparts, .bind (fun _ => replay_takeWord_false hclass)
        (.bind (fun _ => replay_takeWord_true hinterface (by decide)) htail)⟩
    | false =>
      obtain ⟨isEnum, last, henum, hrun⟩ := Reader.bind_eq_ok.1 hrun
      cases isEnum with
      | false => cases hrun
      | true =>
        obtain ⟨parts, hparts, htail⟩ := enumType_tail hrun
        exact ⟨_, hparts, .bind (fun _ => replay_takeWord_false hclass)
          (.bind (fun _ => replay_takeWord_false hinterface)
            (.bind (fun _ => replay_takeWord_true henum (by decide)) htail))⟩

theorem declarationOf_first {values : List Modifier} {value : Declaration}
    (h : declarationOf inner values source = .ok value rest) :
    pieceAt source.pieces 0 (·.kind == .word) = true := by
  have hword : ∀ {text : Text} {behind : TokenStream},
      takeWord text source = .ok true behind → pieceAt source.pieces 0 (·.kind == .word) = true := by
    intro text behind hfound
    obtain ⟨piece, hpieces, hpiece⟩ := takeWord_true hfound
    rw [hpieces, pieceAt_zero, (Piece.isWord_iff.1 hpiece).1]
    rfl
  unfold declarationOf at h
  obtain ⟨isClass, behind, hclass, hrun⟩ := Reader.bind_eq_ok.1 h
  clear h
  cases isClass with
  | true => exact hword hclass
  | false =>
    obtain ⟨isInterface, middle, hinterface, hrest⟩ := Reader.bind_eq_ok.1 hrun
    clear hrun
    obtain ⟨rfl, -⟩ := takeWord_false hclass
    cases isInterface with
    | true => exact hword hinterface
    | false =>
      obtain ⟨isEnum, last, henum, hend⟩ := Reader.bind_eq_ok.1 hrest
      clear hrest
      obtain ⟨rfl, -⟩ := takeWord_false hinterface
      cases isEnum with
      | false => cases hend
      | true => exact hword henum

/-! ## Members of classes -/

/-- The rest of a member, behind its modifiers. -/
def memberOf (member : Grammar Member) (modifiers : List Modifier) : Grammar Member := do
  let stream ← get
  if stream.wordInAt 0 Vocabulary.declarations then
    return .declaration (← declarationOf member modifiers)
  else if constructorAhead stream then
    constructor modifiers
  else
    typedMember modifiers

theorem modifiedMember_eq (member : Grammar Member) :
    modifiedMember member = modifiers >>= memberOf member := rfl

theorem typedMember_first {values : List Modifier} {value : Member}
    (h : typedMember values source = .ok value rest) :
    pieceAt source.pieces 0 (·.kind == .word) = true := by
  unfold typedMember at h
  obtain ⟨type, middle, htype, -⟩ := Reader.bind_eq_ok.1 h
  rcases returnType_ok htype with ⟨-, hvoid⟩ | ⟨type, -, -, htype⟩
  · obtain ⟨piece, hpieces, hpiece⟩ := takeWord_true hvoid
    rw [hpieces, pieceAt_zero, (Piece.isWord_iff.1 hpiece).1]
    rfl
  · obtain ⟨piece, others, hpieces, hpiece⟩ := pieceAt_zero_true (typeRef_first htype)
    rw [hpieces, pieceAt_zero, Piece.isIdentifier_word hpiece]
    rfl

/-- A member is read back behind its modifiers. -/
theorem memberOf_tail {values : List Modifier} {value : Member}
    (hinner : ∀ source value rest, inner source = .ok value rest →
      PlaysMember source.pieces rest.pieces value)
    (h : memberOf inner values source = .ok value rest) :
    pieceAt source.pieces 0 (·.kind == .word) = true ∧
      ∃ parts, value.parts = modifierParts values ++ parts ∧
        PlaysTail (fun bound => memberOf (Reader.below bound member) values) source.pieces
          rest.pieces parts value.brace := by
  unfold memberOf at h
  rw [Reader.bind_of_ok (Reader.get_run source)] at h
  split at h
  case isTrue hdeclares =>
    obtain ⟨nested, final, hnested, h⟩ := Reader.bind_eq_ok.1 h
    cases h
    obtain ⟨parts, hparts, htail⟩ := declarationOf_tail playsFor_below hinner hnested
    refine ⟨?_, parts, hparts, .get (fun bound stream hstream => ?_)
      (htail.map Member.declaration)⟩
    · exact declarationOf_first hnested
    · rw [TokenStream.wordInAt_similar hstream, hdeclares]
      rfl
  case isFalse hdeclares =>
    split at h
    case isTrue hahead =>
      -- the test for a constructor looks at the same pieces of a similar stream
      obtain ⟨parts, hparts, htail⟩ := constructor_tail h
      refine ⟨?_, parts, hparts, .get (fun bound stream hstream => ?_) htail⟩
      · rw [constructorAhead_eq, constructorPieces, Bool.and_eq_true] at hahead
        obtain ⟨piece, others, hpieces, hpiece⟩ := pieceAt_zero_true hahead.1
        rw [hpieces, pieceAt_zero, Piece.isIdentifier_word hpiece]
        rfl
      · rw [TokenStream.wordInAt_similar hstream, if_neg hdeclares, constructorAhead_eq,
          ← constructorPieces_similar hstream, ← constructorAhead_eq, if_pos hahead]
    case isFalse hahead =>
      obtain ⟨parts, hparts, htail⟩ := typedMember_tail h
      refine ⟨typedMember_first h, parts, hparts, .get (fun bound stream hstream => ?_) htail⟩
      rw [TokenStream.wordInAt_similar hstream, if_neg hdeclares, constructorAhead_eq,
        ← constructorPieces_similar hstream, ← constructorAhead_eq, if_neg hahead]

/-- A modifier that begins with `static` is this word alone. -/
theorem modified_static {piece : Piece} {pieces : List Piece} {value : Modifier}
    (h : Modified (piece :: pieces) value) (hstatic : piece.isWord "static" = true) :
    pieces = [] := by
  cases h with
  | keyword _ => rfl
  | sharing hmode _ =>
    have hnone : piece.isWordIn ["static".toList] = false :=
      Piece.isWordIn_eq_false hmode (by decide)
    simp only [Piece.isWordIn, List.any_cons, List.any_nil, hstatic] at hnone
    exact absurd hnone (by decide)
  | annotation hmade =>
    obtain ⟨mark, row, hpieces, hmark, -⟩ := hmade.row
    obtain ⟨rfl, -⟩ := List.cons.inj hpieces
    rw [Piece.isSymbol_of_word (Piece.isWord_iff.1 hstatic).1] at hmark
    exact absurd hmark (by decide)

/-- A block behind `static` does not follow modifiers. -/
theorem static_modified {values : List Modifier} {parts : List Part} {f : List Piece}
    (hrereads : Rereads (modifierParts values)) (hled : Led (spell parts ++ f)) :
    (pieceAt (spell (modifierParts values ++ parts) ++ f) 0 (·.isWord "static") &&
      pieceAt (spell (modifierParts values ++ parts) ++ f) 1 (·.isSymbol "\x7b")) = false := by
  rw [Bool.and_eq_false_iff]
  cases values with
  | nil =>
    -- `static` is itself a modifier
    left
    have hahead := hled.2
    unfold modifierAhead at hahead
    simp only [Bool.or_eq_false_iff] at hahead
    have hnone := hahead.1.2
    obtain ⟨piece, others, hpieces, -⟩ := pieceAt_zero_true hled.1
    change pieceAt (spell parts ++ f) 0 _ = false
    rw [hpieces, pieceAt_zero] at hnone ⊢
    unfold Piece.isWordIn at hnone
    rw [List.any_eq_false] at hnone
    exact Bool.eq_false_iff.2 (hnone "static".toList (by decide))
  | cons value values =>
    obtain ⟨hfirst, hothers⟩ := rereads_append.1
      (show Rereads ([.modifier value] ++ modifierParts values) from hrereads)
    have hspell : spell (modifierParts (value :: values) ++ parts) ++ f =
        Modifier.pieces value ++ (spell (modifierParts values ++ parts) ++ f) := by
      simp [modifierParts, Part.pieces]
    have hmade := hfirst value List.mem_cons_self
    obtain ⟨piece, others, hpieces, -⟩ := hmade.head
    rw [hpieces] at hmade hspell
    rw [hspell, List.cons_append, pieceAt_zero, pieceAt_one]
    by_cases hstatic : piece.isWord "static" = true
    · right
      rw [modified_static hmade hstatic, List.nil_append]
      exact not_symbol_of_continues (continues_modified hothers hled) (by decide)
    · exact .inl (Bool.eq_false_iff.2 hstatic)

/-- What stands behind modifiers begins with a word that is none. -/
theorem led_tail {values : List Modifier} {middle : TokenStream} {parts : List Part}
    {rule : Nat → Grammar α} {value : α} (hmodifiers : modifiers source = .ok values middle)
    (hword : pieceAt middle.pieces 0 (·.kind == .word) = true)
    (htail : PlaysTail rule middle.pieces rest.pieces parts value)
    (hsound : Sound source.pieces (modifierParts values ++ parts)) (f : List Piece) :
    Led (spell parts ++ f) := by
  have hplays : Plays true true Led 0 modifiers _ _ (modifierParts values) values :=
    plays_modifiers hmodifiers true
  obtain ⟨hyields, -⟩ := hplays hsound.left
  have hmiddle : Sound middle.pieces parts :=
    ⟨fun piece hpiece => hsound.regular piece (hyields.mem_of_mem hpiece),
      fun hquery => hsound.query (List.mem_append_right _ hquery)⟩
  exact led_of_similar (modifiers_end hmodifiers) (continues_of_word hword)
    (htail.similar hmiddle f)

theorem playsMember_modified {value : Member}
    (hinner : ∀ source value rest, inner source = .ok value rest →
      PlaysMember source.pieces rest.pieces value)
    (h : modifiedMember inner source = .ok value rest) :
    PlaysMember source.pieces rest.pieces value := by
  rw [modifiedMember_eq] at h
  obtain ⟨values, middle, hmodifiers, h⟩ := Reader.bind_eq_ok.1 h
  obtain ⟨hword, parts, hparts, htail⟩ := memberOf_tail hinner h
  refine ⟨Plays.recursive fun bound => ?_, fun hsound hrereads => ?_⟩
  · rw [hparts]
    have hmodified : PlaysAlone (bound + 1) (modifiedMember (Reader.below bound member))
        source.pieces rest.pieces (modifierParts values ++ parts) value.brace := by
      rw [modifiedMember_eq]
      intro hsound
      refine Plays.bind (plays_modifiers hmodifiers true) (htail.plays bound) (fun _ _ f _ => ?_)
        hsound
      exact led_tail hmodifiers hword htail hsound f
    refine Plays.get (fun hsound hrereads f _ stream hstream => ?_) hmodified
    have hled := led_tail hmodifiers hword htail hsound f
    -- what is printed begins with a modifier or a word, so no other branch is taken
    have hfirst := continues_modified (rereads_append.1 hrereads).1 hled
    rw [TokenStream.symbolAt_eq, TokenStream.wordAt_eq, TokenStream.symbolAt_eq,
      TokenStream.symbolAt_eq, hstream, not_symbol_of_continues hfirst (by decide),
      not_symbol_of_continues hfirst (by decide),
      static_modified (rereads_append.1 hrereads).1 hled]
    rfl
  · rw [hparts] at hsound hrereads ⊢
    exact spell_continues fun f => continues_modified (rereads_append.1 hrereads).1
      (led_tail hmodifiers hword htail hsound f)

theorem playsMember_empty (h : source.symbolAt 0 ";" = true) :
    PlaysMember source.pieces (source.skip 1).pieces .empty := by
  rw [TokenStream.symbolAt_eq] at h
  obtain ⟨piece, hpieces, hpiece⟩ := pieceAt_zero_stream h
  refine ⟨Plays.recursive fun bound => ?_, fun _ _ => ⟨.symbol ";", [], rfl, rfl⟩⟩
  have hskip : PlaysAlone (bound + 1) (skip 1) source.pieces (source.skip 1).pieces [.symbol ";"]
      () := by
    rw [hpieces]
    exact playsAlone_one (Piece.matches_symbol hpiece) rfl fun f => reads_skip
  refine Plays.get (fun _ _ f _ stream hstream => ?_) (hskip.map fun _ => Member.empty)
  rw [TokenStream.symbolAt_eq, hstream]
  rfl

theorem playsMember_static {body : Block} (h : source.wordAt 0 "static" = true)
    (hbody : block (source.skip 1) = .ok body rest) :
    PlaysMember source.pieces rest.pieces (.initializer ⟨true, body⟩) := by
  rw [TokenStream.wordAt_eq] at h
  obtain ⟨piece, hpieces, hpiece⟩ := pieceAt_zero_stream h
  refine ⟨Plays.recursive fun bound => ?_, fun _ _ => ⟨.word "static", _, rfl, rfl⟩⟩
  have hskip : PlaysAlone (bound + 1) (skip 1) source.pieces (source.skip 1).pieces
      [.word "static"] () := by
    rw [hpieces]
    exact playsAlone_keyword hpiece (by decide) fun f => reads_skip
  have hboth : PlaysAlone (bound + 1) (skip 1 >>= fun _ => block >>= fun body =>
      pure (Member.initializer ⟨true, body⟩)) source.pieces rest.pieces
      ([.word "static"] ++ Block.parts body) (Member.initializer ⟨true, Block.brace body⟩) :=
    Plays.bind_anywhere hskip ((plays_block hbody).map fun body => Member.initializer ⟨true, body⟩)
  refine Plays.get (fun _ _ f _ stream hstream => ?_) hboth
  rw [TokenStream.symbolAt_eq, TokenStream.wordAt_eq, TokenStream.symbolAt_eq, hstream]
  rfl

theorem playsMember_initializer {body : Block} (hbody : block source = .ok body rest) :
    PlaysMember source.pieces rest.pieces (.initializer ⟨false, body⟩) := by
  refine ⟨Plays.recursive fun bound => ?_, fun _ _ => ⟨.symbol "\x7b", _, rfl, rfl⟩⟩
  have hblock : PlaysAlone (bound + 1) (block >>= fun body =>
      pure (Member.initializer ⟨false, body⟩)) source.pieces rest.pieces (Block.parts body)
      (Member.initializer ⟨false, Block.brace body⟩) :=
    (plays_block hbody).map fun body => Member.initializer ⟨false, body⟩
  refine Plays.get (fun _ _ f _ stream hstream => ?_) hblock
  rw [TokenStream.symbolAt_eq, TokenStream.wordAt_eq, TokenStream.symbolAt_eq,
    TokenStream.symbolAt_eq, hstream]
  rfl

/-- A member of a class is read back from what is printed for it. -/
theorem playsMember : ∀ source value rest, member source = .ok value rest →
    PlaysMember source.pieces rest.pieces value := by
  apply Reader.recursive_induction
  intro inner hinner source value rest h
  unfold memberRule at h
  rw [Reader.bind_of_ok (Reader.get_run source)] at h
  split at h
  case isTrue hempty =>
    obtain ⟨_, behind, hskip, h⟩ := Reader.bind_eq_ok.1 h
    obtain rfl := skip_eq_ok.1 hskip
    cases h
    exact playsMember_empty hempty
  case isFalse =>
    split at h
    case isTrue hstatic =>
      obtain ⟨_, behind, hskip, h⟩ := Reader.bind_eq_ok.1 h
      obtain rfl := skip_eq_ok.1 hskip
      obtain ⟨body, final, hbody, h⟩ := Reader.bind_eq_ok.1 h
      cases h
      exact playsMember_static (Bool.and_eq_true_iff.1 hstatic).1 hbody
    case isFalse =>
      split at h
      case isTrue =>
        obtain ⟨body, final, hbody, h⟩ := Reader.bind_eq_ok.1 h
        cases h
        exact playsMember_initializer hbody
      case isFalse => exact playsMember_modified hinner h

/-- A compilation unit is read back from what is printed for it. -/
theorem plays_compilationUnit {unit : CompilationUnit}
    (h : compilationUnit source = .ok unit rest) :
    PlaysAlone bound compilationUnit source.pieces rest.pieces unit.parts unit.brace := by
  unfold compilationUnit at h
  obtain ⟨values, middle, hmodifiers, h⟩ := Reader.bind_eq_ok.1 h
  obtain ⟨declaration, final, hdeclaration, h⟩ := Reader.bind_eq_ok.1 h
  cases h
  obtain ⟨parts, hparts, htail⟩ := declarationOf_tail playsFor_member playsMember hdeclaration
  have hword := declarationOf_first hdeclaration
  change PlaysAlone bound compilationUnit _ _ declaration.parts _
  rw [hparts]
  intro hsound
  refine Plays.bind (plays_modifiers hmodifiers true)
    (((htail.plays bound).mono_bound (Nat.le_succ bound)).map CompilationUnit.mk) (fun _ _ f _ => ?_)
    hsound
  exact led_tail hmodifiers hword htail hsound f

end Grammar

end ApexLayout
