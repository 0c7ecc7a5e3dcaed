import ApexLayout.Proofs.Inverse.Type
import ApexLayout.Proofs.Operands
import ApexLayout.Proofs.Spelling.Spelled

/-!
Dotted names are folded.

A name takes all further names behind it with it, up to one that is called or reserved. So a path
and a class literal consist of names only, and no link behind a variable or a path is a plain name
that should have been a part of it.
-/

namespace ApexLayout

/-- Whether the link is a further name of a path as it stands: a plain dot, a word that is not
reserved, and no arguments. -/
def Link.isName (link : Link) : Bool :=
  link.navigation == .dot && link.arguments.isNone &&
    !Vocabulary.reserved.any (Text.sameWord link.member)

namespace Expression

/-- Whether the expression is a variable or a dotted path. -/
def isPath : Expression → Bool
  | .primary (.identifier _) => true
  | .primary (.path _) => true
  | _ => false

/-- Dotted names are folded at the node: a path has two or more names and a class literal at least
one, without type arguments and brackets; no member is `class`; and no link behind a variable or a
path is a further name of it. -/
def Folded : Expression → Prop
  | .primary (.path type) =>
    ∃ names, type = .path names ∧ 2 ≤ names.length ∧ ∀ name ∈ names, name.IsName
  | .primary (.classLiteral type) =>
    ∃ names, type = .path names ∧ 1 ≤ names.length ∧ ∀ name ∈ names, name.IsName
  | .chain receiver link =>
    Text.sameWord link.member "class" = false ∧ (receiver.isPath = true → link.isName = false)
  | _ => True

end Expression

/-! ## Names -/

/-- A word that is a token and no reserved word is a name. -/
theorem Piece.Lexeme.isName {piece : Piece} (h : piece.Lexeme) (hname : piece.isIdentifier = true) :
    piece.text.IsName := by
  obtain ⟨c, tail, htext, hlexeme⟩ := h
  rw [Piece.isIdentifier_word hname] at hlexeme
  rcases Scan.lexeme_cases hlexeme with ⟨-, hstart, hsize⟩ | ⟨hkind, -⟩ | ⟨hkind, -⟩ | ⟨hkind, -⟩
  · have hletters : ∀ d ∈ tail, Scan.isWordPart d = true := by
      refine List.takeWhile_eq_self_iff.1 ?_
      exact (List.takeWhile_prefix _).eq_of_length hsize.symm
    refine ⟨by rw [htext]; exact hstart, ?_, fun word hword => ?_⟩
    · rw [htext, List.all_cons, Scan.isWordPart_of_start hstart, List.all_eq_true.2 hletters]
      rfl
    · have hother := Piece.isWord_of_identifier hname hword
      unfold Piece.isWord at hother
      rwa [Piece.isIdentifier_word hname, beq_self_eq_true, Bool.true_and] at hother
  all_goals cases hkind

namespace Grammar

variable {inner : Grammar Expression} {source rest : TokenStream}

/-- The names behind a name are identifiers of the source, and behind them stands no further one. -/
theorem path_rounds {names : List Text}
    (h : Reader.Rounds (Reader.optional dotBeforePathName takeText) source names rest) :
    (∀ name ∈ names, ∃ piece ∈ source.pieces, piece.isIdentifier = true ∧ piece.text = name) ∧
      pathName rest.pieces = false := by
  induction h with
  | @stop source rest hlast =>
    obtain ⟨hfound, hrest⟩ := skipIf_eq_ok.1 (Reader.optional_eq_none.1 hlast)
    rw [dotBeforePathName_eq] at hfound
    exact ⟨nofun, hrest ▸ hfound⟩
  | @round source middle rest name names hround _ _ ih =>
    obtain ⟨behind, piece, others, hdot, -, hpieces, hpiece, rfl⟩ := pathName_ok hround
    obtain ⟨count, rfl⟩ := advances_dotBeforePathName _ _ _ hdot
    obtain ⟨more, rfl⟩ :=
      Advances.optional advances_dotBeforePathName .takeText _ _ _ hround
    rw [TokenStream.pieces_skip] at hpieces ih
    refine ⟨List.forall_mem_cons.2 ⟨⟨piece, ?_, hpiece, rfl⟩, fun name hname => ?_⟩, ih.2⟩
    · exact List.mem_of_mem_drop (hpieces ▸ List.mem_cons_self)
    · obtain ⟨other, hother, hname⟩ := ih.1 name hname
      exact ⟨other, List.mem_of_mem_drop hother, hname⟩

/-- A dotted name consists of names, and behind it stands no further one. -/
theorem path_names {names : List Text} (hsource : ∀ piece ∈ source.pieces, piece.Lexeme)
    (hfirst : source.identifierAt 0 = true)
    (h : Reader.separated dotBeforePathName takeText source = .ok names rest) :
    names ≠ [] ∧ (∀ name ∈ names, name.IsName) ∧ pathName rest.pieces = false := by
  obtain ⟨first, middle, htake, h⟩ := Reader.bind_eq_ok.1 h
  obtain ⟨others, last, hothers, h⟩ := Reader.bind_eq_ok.1 h
  cases h
  rw [TokenStream.identifierAt_eq] at hfirst
  obtain ⟨piece, more, hpieces, hidentifier⟩ := pieceAt_zero_true hfirst
  obtain ⟨rfl, hmiddle⟩ := takeText_ok htake hpieces
  obtain ⟨hnames, hstop⟩ := path_rounds (Reader.many_eq_ok.1 hothers)
  rw [hpieces] at hsource
  rw [hmiddle] at hnames
  refine ⟨List.cons_ne_nil _ _, List.forall_mem_cons.2 ⟨?_, fun name hname => ?_⟩, hstop⟩
  · exact (hsource piece List.mem_cons_self).isName hidentifier
  · obtain ⟨other, hother, hidentifier, rfl⟩ := hnames name hname
    exact (hsource other (List.mem_cons_of_mem _ hother)).isName hidentifier

/-! ## Primaries -/

/-- A name that is read as a class literal, a path or a variable: all its names, and where it is no
class literal no further name stands behind it. -/
inductive NameRun : Primary → TokenStream → Prop
  | classLiteral {names : List Text} {rest : TokenStream} (some : names ≠ [])
      (sound : ∀ name ∈ names, name.IsName) : NameRun (.classLiteral (.path names)) rest
  | path {names : List Text} {rest : TokenStream} (many : 2 ≤ names.length)
      (sound : ∀ name ∈ names, name.IsName) (last : pathName rest.pieces = false) :
      NameRun (.path (.path names)) rest
  | identifier {name : Text} {rest : TokenStream} (last : pathName rest.pieces = false) :
      NameRun (.identifier name) rest

theorem nameRun_of_named {leaf : Primary} (hsource : ∀ piece ∈ source.pieces, piece.Lexeme)
    (hfirst : source.identifierAt 0 = true) (h : named inner source = .ok (.primary leaf) rest) :
    NameRun leaf rest := by
  obtain ⟨names, middle, hnames, h⟩ := Reader.bind_eq_ok.1 h
  obtain ⟨hne, hsound, hlast⟩ := path_names hsource hfirst hnames
  obtain ⟨isClass, second, hclass, h⟩ := Reader.bind_eq_ok.1 h
  obtain ⟨-, rfl⟩ := look_eq_ok.1 hclass
  split at h
  · obtain ⟨_, last, -, h⟩ := Reader.bind_eq_ok.1 h
    cases h
    exact .classLiteral hne hsound
  split at h
  case h_1 name =>
    obtain ⟨called, third, hcalled, h⟩ := Reader.bind_eq_ok.1 h
    obtain ⟨-, rfl⟩ := look_eq_ok.1 hcalled
    split at h
    · obtain ⟨items, last, -, h⟩ := Reader.bind_eq_ok.1 h
      cases h
    · cases h
      exact .identifier hlast
  case h_2 hmany =>
    cases h
    refine .path ?_ hsound hlast
    -- a single name would have been a variable
    match names, hne, hmany with
    | [name], _, hmany => exact absurd rfl (hmany name)
    | _ :: _ :: _, _, _ => simp

/-- Without arguments a reference to the object is the leaf that it was asked for. -/
theorem selfReference_leaf {self leaf : Primary}
    (h : selfReference inner self source = .ok (.primary leaf) rest) : leaf = self := by
  obtain ⟨_, _, _, h⟩ := Reader.bind_eq_ok.1 h
  obtain ⟨_, _, _, h⟩ := Reader.bind_eq_ok.1 h
  split at h
  · obtain ⟨_, _, _, h⟩ := Reader.bind_eq_ok.1 h
    cases h
  · cases h
    rfl

/-- A primary that is a class literal, a path or a variable was read as a name. -/
theorem nameRun_of_primary {leaf : Primary} (hsource : ∀ piece ∈ source.pieces, piece.Lexeme)
    (hleaf : (Expression.primary leaf).isPath = true ∨ ∃ type, leaf = .classLiteral type)
    (h : primary inner source = .ok (.primary leaf) rest) : NameRun leaf rest := by
  -- every other way to read a leaf gives a literal, the object or a query
  cases primary_cases h with
  | literal => simp [Expression.isPath] at hleaf
  | word _ read =>
    cases read with
    | literal => simp [Expression.isPath] at hleaf
    | this _ read =>
      obtain rfl := selfReference_leaf read
      simp [Expression.isPath] at hleaf
    | super _ read =>
      obtain rfl := selfReference_leaf read
      simp [Expression.isPath] at hleaf
    | creation _ read =>
      obtain ⟨_, _, _, h⟩ := Reader.bind_eq_ok.1 read
      obtain ⟨_, _, _, h⟩ := Reader.bind_eq_ok.1 h
      cases h
    | named ahead read => exact nameRun_of_named hsource ahead read
  | query _ read =>
    obtain ⟨_, _, _, h⟩ := Reader.bind_eq_ok.1 read
    obtain ⟨_, _, _, h⟩ := Reader.bind_eq_ok.1 h
    cases h
    simp [Expression.isPath] at hleaf

/-- A link names the word behind its dot, which is not `class`; without arguments no parenthesis
stands behind it. -/
theorem link_eq_ok {navigation : Navigation} {value : Link}
    (h : link inner navigation source = .ok value rest) :
    value.navigation = navigation ∧ ∃ piece others, source.pieces = piece :: others ∧
      piece.kind = .word ∧ piece.text = value.member ∧
      Text.sameWord value.member "class" = false ∧
      (value.arguments = none → pieceAt others 0 (·.isSymbol "(") = false) := by
  obtain ⟨isClass, first, hclass, h⟩ := Reader.bind_eq_ok.1 h
  obtain ⟨rfl, rfl⟩ := look_eq_ok.1 hclass
  obtain ⟨_, second, hrequire, h⟩ := Reader.bind_eq_ok.1 h
  obtain ⟨hclass, rfl⟩ := require_eq_ok.1 hrequire
  obtain ⟨isWord, third, hlook, h⟩ := Reader.bind_eq_ok.1 h
  obtain ⟨rfl, rfl⟩ := look_eq_ok.1 hlook
  obtain ⟨_, fourth, hrequire, h⟩ := Reader.bind_eq_ok.1 h
  obtain ⟨hword, rfl⟩ := require_eq_ok.1 hrequire
  obtain ⟨member, fifth, hmember, h⟩ := Reader.bind_eq_ok.1 h
  obtain ⟨called, last, hcalled, h⟩ := Reader.bind_eq_ok.1 h
  cases h
  rw [TokenStream.kindAt_eq _ _ (· == .word)] at hword
  obtain ⟨piece, others, hpieces, hpiece⟩ := pieceAt_zero_true hword
  have hkind : piece.kind = .word := by simpa using hpiece
  obtain ⟨rfl, hothers⟩ := takeText_ok hmember hpieces
  rw [TokenStream.wordAt_eq, hpieces, pieceAt_zero] at hclass
  refine ⟨rfl, piece, others, hpieces, hkind, rfl, ?_, ?_⟩
  · simpa [Piece.isWord, hkind] using hclass
  · rintro rfl
    rw [← hothers]
    exact (atSymbol_eq_ok.1 (Reader.optional_eq_none.1 hcalled)).1

/-- A step that is a link begins with its dot. -/
theorem step_eq_link {value : Link} (h : step inner source = .ok (some (.link value)) rest) :
    takeSymbol value.navigation.text source = .ok true (source.skip 1) ∧
      link inner value.navigation (source.skip 1) = .ok value rest := by
  cases step_cases h with
  | link taken read =>
    rw [(link_eq_ok read).1]
    exact ⟨taken, read⟩

/-- Where no further name of a path stands, a link is no such name. -/
theorem isName_of_step {value : Link} (hlast : pathName source.pieces = false)
    (h : step inner source = .ok (some (.link value)) rest) : value.isName = false := by
  obtain ⟨htake, hlink⟩ := step_eq_link h
  obtain ⟨dot, hpieces, hdot⟩ := takeSymbol_true htake
  obtain ⟨-, piece, others, hbehind, hkind, hmember, -, hcall⟩ := link_eq_ok hlink
  rw [hpieces, hbehind] at hlast
  by_contra hname
  rw [Bool.not_eq_false] at hname
  unfold Link.isName at hname
  simp only [Bool.and_eq_true, beq_iff_eq, Option.isNone_iff_eq_none, Bool.not_eq_true'] at hname
  obtain ⟨⟨hnavigation, harguments⟩, hfree⟩ := hname
  -- the word behind the dot is an identifier that is not called
  have hidentifier : piece.isIdentifier = true := by
    have hreserved : piece.isWordIn Vocabulary.reserved = false := by
      unfold Piece.isWordIn Piece.isWord
      rw [hkind, hmember]
      simpa using hfree
    rw [Piece.isIdentifier, hkind, hreserved]
    rfl
  have hpath : pathName (dot :: piece :: others) = true := by
    rw [hnavigation] at hdot
    have hpoint : dot.isSymbol "." = true := hdot
    unfold pathName
    rw [pieceAt_zero, pieceAt_one, pieceAt_zero, pieceAt_two, pieceAt_one, hpoint, hidentifier,
      hcall harguments]
    rfl
  rw [hpath] at hlast
  cases hlast

/-! ## Operands -/

/-- Dotted names are folded at every operand that was read in a source. -/
theorem Operand.folded {base : TokenStream} {node : Expression}
    (hbase : ∀ piece ∈ base.pieces, piece.Lexeme) (h : Operand base node rest) : node.Folded := by
  have hskip : ∀ count, ∀ piece ∈ (base.skip count).pieces, piece.Lexeme := by
    intro count piece hpiece
    rw [TokenStream.pieces_skip] at hpiece
    exact hbase piece (List.mem_of_mem_drop hpiece)
  cases h with
  | @primary inner count _ _ hread =>
    cases node with
    | primary leaf =>
      cases leaf with
      | path type =>
        cases nameRun_of_primary (hskip count) (.inl rfl) hread with
        | path hmany hsound _ => exact ⟨_, rfl, hmany, hsound⟩
      | classLiteral type =>
        cases nameRun_of_primary (hskip count) (.inr ⟨type, rfl⟩) hread with
        | classLiteral hsome hsound =>
          exact ⟨_, rfl, List.length_pos_of_ne_nil hsome, hsound⟩
      | _ => trivial
    | chain receiver link => cases run_primary hread
    | _ => trivial
  | @step inner operand middle _ value hfirst hread =>
    cases value with
    | link link =>
      obtain ⟨-, hlink⟩ := step_eq_link hread
      obtain ⟨-, _, _, -, -, -, hclass, -⟩ := link_eq_ok hlink
      refine ⟨hclass, fun hpath => ?_⟩
      -- a variable or a path is a primary, so the link stands right behind it
      cases hfirst with
      | @primary inner count _ _ hread' =>
        cases operand with
        | primary leaf =>
          refine isName_of_step ?_ hread
          cases nameRun_of_primary (hskip count) (.inl hpath) hread' with
          | classLiteral => cases hpath
          | path _ _ hlast => exact hlast
          | identifier hlast => exact hlast
        | _ => cases hpath
      | @step _ _ _ _ before _ _ => cases before <;> cases hpath
    | index position => trivial
    | operator text => trivial

end Grammar

/-! ## Whole sources -/

theorem Text.Holds.folded {source : Text} {nodes : List Expression} (h : source.Holds nodes) :
    ∀ node ∈ nodes, node.Folded := by
  obtain ⟨stream, hstream, hoperands⟩ := h
  intro node hnode
  cases hbehind : node.isPostfix with
  | true =>
    obtain ⟨rest, hoperand⟩ := hoperands node hnode hbehind
    exact hoperand.folded (TokenStream.lexeme_of_ofSource hstream)
  | false =>
    cases node with
    | primary => cases hbehind
    | chain => cases hbehind
    | _ => trivial

/-- In every tree that is read, dotted names are folded as far as they go: paths and class literals
consist of names only, two or more for a path, no member is `class`, and no link behind a variable
or a path is a plain name. -/
theorem parse_folded (source : Text) :
    (∀ unit, parseUnit source = .ok unit → ∀ node ∈ unit.within, node.Folded) ∧
    (∀ statement, parseStatement source = .ok statement →
      ∀ node ∈ statement.within, node.Folded) ∧
    (∀ expression, parseExpression source = .ok expression →
      ∀ node ∈ expression.within, node.Folded) :=
  ⟨fun _ h => (parseUnit_holds h).folded, fun _ h => (parseStatement_holds h).folded,
    fun _ h => (parseExpression_holds h).folded⟩

/-- A reserved word and a safe dot end a path, and the names behind them are links. -/
theorem parse_folded_reserved :
    parseExpression "a.b.new?.c.d + e.F.class" = .ok (.binary .arithmetic ['+']
      (.chain (.chain (.chain (.primary (.path (.path [['a'], ['b']]))) ⟨.dot, "new", none⟩)
        ⟨.safeDot, ['c'], none⟩) ⟨.dot, ['d'], none⟩)
      (.primary (.classLiteral (.path [['e'], ['F']])))) ∧
    ∀ node ∈ (Expression.binary .arithmetic ['+']
      (.chain (.chain (.chain (.primary (.path (.path [['a'], ['b']]))) ⟨.dot, "new", none⟩)
        ⟨.safeDot, ['c'], none⟩) ⟨.dot, ['d'], none⟩)
      (.primary (.classLiteral (.path [['e'], ['F']])))).within, node.Folded :=
  ⟨by decide +kernel, (parse_folded "a.b.new?.c.d + e.F.class").2.2 _ (by decide +kernel)⟩

end ApexLayout
