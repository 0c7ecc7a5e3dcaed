import ApexLayout.Proofs.Alternatives
import ApexLayout.Proofs.Replay.Operators
import ApexLayout.Proofs.Replay.Type

/-!
Operands are read back from what is printed for them.

Each rule is followed on the source and played again on the printed parts. What stands in brackets is
read by a rule `inner`, of which the same is assumed. A parenthesis that did not begin a cast in the
source does not begin one in print.
-/

namespace ApexLayout

namespace Grammar

variable {bound : Nat} {source rest : TokenStream} {inner inner' : Grammar Expression}

section

variable (hinner : ∀ source value rest, inner source = .ok value rest →
  Replay bound inner' source.pieces rest.pieces value.parts value)

include hinner

/-! ## Arguments and creators -/

theorem replay_expressions {items : List Expression}
    (h : commaSeparated inner source = .ok items rest) :
    Replay bound (commaSeparated inner') source.pieces rest.pieces
      (rowsBy (.symbol ",") (Expression.partsAll items)) items := by
  rw [Expression.partsAll_eq_map]
  exact replay_separated hinner (fun _ _ => replay_takeSymbol_true)
    (fun _ _ => replay_takeSymbol_false) h

theorem replay_arguments {items : List Expression} (h : arguments inner source = .ok items rest) :
    Replay (bound + 1) (arguments inner') source.pieces rest.pieces
      (listParts "(" ")" (Expression.partsAll items)) items := by
  unfold arguments at h
  simp only [Reader.bind_eq_ok] at h
  obtain ⟨_, opened, hopen, found, middle, hfound, h⟩ := h
  refine Replay.bind_less (replay_symbol hopen) ?_
  cases found with
  | true =>
    cases h
    exact (replay_takeSymbol_true hfound).bind_pure rfl
  | false =>
    simp only [Bool.false_eq_true, if_false, Reader.bind_eq_ok] at h
    obtain ⟨values, last, hvalues, _, final, hclose, h⟩ := h
    cases h
    refine Replay.bind_nothing (replay_takeSymbol_false hfound) ?_
    exact Replay.bind (replay_expressions hinner hvalues) ((replay_symbol hclose).map fun _ => items)

theorem replay_entry {item : Expression × Expression} (h : entry inner source = .ok item rest) :
    Replay bound (entry inner') source.pieces rest.pieces
      (item.1.parts ++ .symbol "=>" :: item.2.parts) item := by
  unfold entry at h
  simp only [Reader.bind_eq_ok] at h
  obtain ⟨key, behind, hkey, _, middle, harrow, value, final, hvalue, h⟩ := h
  cases h
  refine (hinner _ _ _ hkey).bind ?_
  exact (replay_symbol harrow).bind ((hinner _ _ _ hvalue).map fun value => (key, value))

theorem replay_elements {items : List Expression}
    (h : Reader.many (Reader.optional (takeSymbol ",") inner) source = .ok items rest) :
    Replay bound (Reader.many (Reader.optional (takeSymbol ",") inner')) source.pieces rest.pieces
      (items.flatMap fun item => .symbol "," :: item.parts) items := by
  refine replay_many ?_ ?_ h
  · intro source value rest hround
    obtain ⟨behind, hcomma, hvalue⟩ := Reader.optional_eq_some.1 hround
    exact (replay_takeSymbol_true hcomma).optional_some (hinner _ _ _ hvalue)
  · intro source rest hround
    exact (replay_takeSymbol_false (Reader.optional_eq_none.1 hround)).optional_none

theorem replay_entries {items : List (Expression × Expression)}
    (h : Reader.many (Reader.optional (takeSymbol ",") (entry inner)) source = .ok items rest) :
    Replay bound (Reader.many (Reader.optional (takeSymbol ",") (entry inner'))) source.pieces
      rest.pieces
      (items.flatMap fun item => .symbol "," :: (item.1.parts ++ .symbol "=>" :: item.2.parts))
      items := by
  refine replay_many ?_ ?_ h
  · intro source value rest hround
    obtain ⟨behind, hcomma, hvalue⟩ := Reader.optional_eq_some.1 hround
    exact (replay_takeSymbol_true hcomma).optional_some (replay_entry hinner hvalue)
  · intro source rest hround
    exact (replay_takeSymbol_false (Reader.optional_eq_none.1 hround)).optional_none

/-- The inside of the braces of a collection, with the closing brace. -/
theorem replay_collection {body : CreatorBody} (h : collection inner source = .ok body rest) :
    ∃ parts, body.parts = .symbol "\x7b" :: parts ∧
      Replay bound (collection inner') source.pieces rest.pieces parts body := by
  unfold collection at h
  obtain ⟨found, middle, hfound, h⟩ := Reader.bind_eq_ok.1 h
  cases found with
  | true =>
    cases h
    exact ⟨_, rfl, (replay_takeSymbol_true hfound).bind_pure rfl⟩
  | false =>
    simp only [Bool.false_eq_true, if_false] at h
    obtain ⟨first, behind, hfirst, h⟩ := Reader.bind_eq_ok.1 h
    obtain ⟨value, after, hvalue, h⟩ := Reader.bind_eq_ok.1 h
    cases value with
    | some value =>
      obtain ⟨others, last, hothers, h⟩ := Reader.bind_eq_ok.1 h
      obtain ⟨_, final, hclose, h⟩ := Reader.bind_eq_ok.1 h
      cases h
      obtain ⟨arrow, harrow, hvalue⟩ := Reader.optional_eq_some.1 hvalue
      refine ⟨_, rfl, Replay.bind_nothing (replay_takeSymbol_false hfound) ?_⟩
      rw [Expression.partsEntries_eq_map, List.map_cons, rowsBy_cons, List.flatMap_map,
        List.append_assoc, List.append_assoc]
      refine (hinner _ _ _ hfirst).bind ?_
      have hentry : Replay bound (entryValue inner') behind.pieces after.pieces
          (.symbol "=>" :: value.parts) (some value) :=
        (replay_takeSymbol_true harrow).optional_some (hinner _ _ _ hvalue)
      refine hentry.bind ?_
      exact (replay_entries hinner hothers).bind ((replay_symbol hclose).map fun _ => _)
    | none =>
      obtain ⟨others, last, hothers, h⟩ := Reader.bind_eq_ok.1 h
      obtain ⟨_, final, hclose, h⟩ := Reader.bind_eq_ok.1 h
      cases h
      have hplain := Reader.optional_eq_none.1 hvalue
      refine ⟨_, rfl, Replay.bind_nothing (replay_takeSymbol_false hfound) ?_⟩
      rw [Expression.partsAll_eq_map, List.map_cons, rowsBy_cons, List.flatMap_map,
        List.append_assoc]
      refine (hinner _ _ _ hfirst).bind ?_
      refine Replay.bind_nothing (replay_takeSymbol_false hplain).optional_none ?_
      exact (replay_elements hinner hothers).bind ((replay_symbol hclose).map fun _ => _)

theorem replay_creatorBody {body : CreatorBody} (h : creatorBody inner source = .ok body rest) :
    Replay (bound + 1) (creatorBody inner') source.pieces rest.pieces body.parts body := by
  unfold creatorBody at h
  obtain ⟨called, middle, hcalled, h⟩ := Reader.bind_eq_ok.1 h
  cases called with
  | true =>
    simp only [if_true, Reader.bind_eq_ok] at h
    obtain ⟨items, final, hitems, h⟩ := h
    cases h
    refine Replay.bind_nothing (replay_atSymbol hcalled) ?_
    exact (replay_arguments hinner hitems).map CreatorBody.arguments
  | false =>
    simp only [Bool.false_eq_true, if_false] at h
    obtain ⟨sized, behind, hsized, h⟩ := Reader.bind_eq_ok.1 h
    refine Replay.bind_nothing (replay_atSymbol hcalled) ?_
    cases sized with
    | true =>
      simp only [if_true, Reader.bind_eq_ok] at h
      obtain ⟨size, after, hsize, _, final, hclose, h⟩ := h
      cases h
      refine Replay.bind_less (replay_takeSymbol_true hsized) ?_
      exact (hinner _ _ _ hsize).bind ((replay_symbol hclose).map fun _ => CreatorBody.arraySize size)
    | false =>
      simp only [Bool.false_eq_true, if_false] at h
      obtain ⟨opened, after, hopened, h⟩ := Reader.bind_eq_ok.1 h
      refine Replay.bind_nothing (replay_takeSymbol_false hsized) ?_
      cases opened with
      | false => simp at h
      | true =>
        obtain ⟨parts, hparts, hbody⟩ := replay_collection hinner h
        rw [hparts]
        exact Replay.bind_less (replay_takeSymbol_true hopened) hbody

theorem replay_creation {value : Expression} (h : creation inner source = .ok value rest) :
    ∃ parts, value.parts = .word "new" :: parts ∧
      Replay (bound + 1) (creation inner') source.pieces rest.pieces parts value := by
  unfold creation at h
  simp only [Reader.bind_eq_ok] at h
  obtain ⟨type, behind, htype, body, final, hbody, h⟩ := h
  cases h
  refine ⟨_, rfl, ?_⟩
  exact Replay.bind (replay_typeRef htype)
    ((replay_creatorBody hinner hbody).map (Expression.creation type))

end

/-! ## Primaries -/

/-- Whether a dot with a name behind it that is not called is next. -/
def pathName (pieces : List Piece) : Bool :=
  pieceAt pieces 0 (·.isSymbol ".") && pieceAt pieces 1 Piece.isIdentifier &&
    !pieceAt pieces 2 (·.isSymbol "(")

theorem pathName_similar (pieces pieces' : List Piece) (h : Similar pieces pieces') :
    pathName pieces = pathName pieces' := by
  have hname := h.second (Piece.respects_isSymbol ".") Piece.respects_isIdentifier
    fun _ => Piece.not_isStop_of_dot
  have hcall := h.third (Piece.respects_isSymbol ".") Piece.respects_isIdentifier
    (Piece.respects_isSymbol "(") (fun _ => Piece.not_isStop_of_dot)
    fun _ hidentifier => Piece.not_isStop_of_word (Piece.isIdentifier_word hidentifier)
  unfold pathName
  rw [← hname] at hcall ⊢
  cases hfirst : pieceAt pieces 0 (·.isSymbol ".") && pieceAt pieces 1 Piece.isIdentifier with
  | false => rfl
  | true =>
    rw [hfirst, Bool.true_and, Bool.true_and] at hcall
    rw [hcall]

theorem dotBeforePathName_eq (stream : TokenStream) :
    (stream.symbolAt 0 "." && stream.identifierAt 1 && !stream.symbolAt 2 "(") =
      pathName stream.pieces := by
  rw [TokenStream.symbolAt_eq, TokenStream.identifierAt_eq, TokenStream.symbolAt_eq]
  rfl

theorem identifier_word {piece : Piece} (h : piece.isIdentifier = true) :
    (Piece.word piece.text).isIdentifier = true := by
  rw [← Piece.respects_isIdentifier _ _ (Piece.matches_word (Piece.isIdentifier_word h)), h]

/-- A further name of a dotted name. -/
theorem pathName_ok {name : Text}
    (h : Reader.optional dotBeforePathName takeText source = .ok (some name) rest) :
    ∃ behind piece others, dotBeforePathName source = .ok true behind ∧
      takeText behind = .ok name rest ∧ behind.pieces = piece :: others ∧
      piece.isIdentifier = true ∧ name = piece.text := by
  obtain ⟨behind, hdot, hname⟩ := Reader.optional_eq_some.1 h
  obtain ⟨hfound, hbehind⟩ := skipIf_eq_ok.1 hdot
  rw [dotBeforePathName_eq] at hfound
  unfold pathName at hfound
  simp only [Bool.and_eq_true] at hfound
  obtain ⟨⟨hpoint, hidentifier⟩, -⟩ := hfound
  obtain ⟨dot, more, hpieces, hpoint⟩ := pieceAt_zero_true hpoint
  rw [hpieces, pieceAt_one] at hidentifier
  obtain ⟨piece, others, rfl, hidentifier⟩ := pieceAt_zero_true hidentifier
  have hnext : behind.pieces = piece :: others := by
    rw [hbehind]
    exact TokenStream.pieces_skip_one hpieces
  exact ⟨behind, piece, others, hdot, hname, hnext, hidentifier, (takeText_ok hname hnext).1⟩

theorem replay_dotBeforePathName (h : dotBeforePathName source = .ok true rest) :
    Replay bound dotBeforePathName source.pieces rest.pieces [.symbol "."] true := by
  refine replay_skipIf_true dotBeforePathName_eq pathName_similar (fun pieces hpath => ?_) h
  unfold pathName at hpath
  simp only [Bool.and_eq_true] at hpath
  exact matches_zero hpath.1.1 fun _ => Piece.matches_symbol

/-- A dotted name, each name of it an identifier. -/
theorem replay_names {names : List Text} (hfirst : source.identifierAt 0 = true)
    (h : Reader.separated dotBeforePathName takeText source = .ok names rest) :
    names ≠ [] ∧ (∀ name ∈ names, (Piece.word name).isIdentifier = true) ∧
      Replay bound (Reader.separated dotBeforePathName takeText) source.pieces rest.pieces
        (rowsBy (.symbol ".") (names.map fun name => [.word name])) names := by
  unfold Reader.separated at h
  obtain ⟨first, middle, htake, h⟩ := Reader.bind_eq_ok.1 h
  obtain ⟨others, last, hothers, h⟩ := Reader.bind_eq_ok.1 h
  cases h
  rw [TokenStream.identifierAt_eq] at hfirst
  obtain ⟨piece, more, hpieces, hidentifier⟩ := pieceAt_zero_true hfirst
  have hword := Piece.isIdentifier_word hidentifier
  obtain ⟨htext, -⟩ := takeText_ok htake hpieces
  -- the first name was looked at by the caller, the others by the rounds
  refine ⟨by simp, List.forall_mem_cons.2 ⟨htext ▸ identifier_word hidentifier, ?_⟩, ?_⟩
  · refine (Reader.many_eq_ok.1 hothers).forall_mem fun _ _ _ hround => ?_
    obtain ⟨_, piece, _, -, -, -, hpiece, rfl⟩ := pathName_ok hround
    exact identifier_word hpiece
  · rw [List.map_cons, rowsBy_cons, List.flatMap_map]
    have hmany : Replay bound (Reader.many (Reader.optional dotBeforePathName takeText))
        middle.pieces rest.pieces (others.flatMap fun name => [.symbol ".", .word name]) others := by
      refine replay_many (fun _ _ _ hround => ?_) (fun _ _ hround => ?_) hothers
      · obtain ⟨behind, piece, _, hdot, hname, hnext, hpiece, -⟩ := pathName_ok hround
        exact (replay_dotBeforePathName hdot).optional_some
          (replay_takeText hname hnext (Piece.isIdentifier_word hpiece))
      · exact (replay_skipIf_false dotBeforePathName_eq pathName_similar
          (Reader.optional_eq_none.1 hround)).optional_none
    exact Replay.bind (replay_takeText htake hpieces hword) (hmany.map (first :: ·))

theorem wellFormed_path {names : List Text} (hne : names ≠ [])
    (h : ∀ name ∈ names, (Piece.word name).isIdentifier = true) :
    (TypeRef.path names).WellFormed := by
  unfold TypeRef.path
  rw [TypeRef.wellFormed_iff]
  refine ⟨by simpa using hne, fun name hname => ?_, 0, rfl⟩
  obtain ⟨text, htext, rfl⟩ := List.mem_map.1 hname
  exact ⟨h text htext, by simp⟩

/-- A dotted name is printed as a type. -/
theorem replay_path {names : List Text} (hfirst : source.identifierAt 0 = true)
    (h : Reader.separated dotBeforePathName takeText source = .ok names rest) :
    Replay bound (Reader.separated dotBeforePathName takeText) source.pieces rest.pieces
      [.type (.path names)] names := by
  obtain ⟨hne, hnames, hreplay⟩ := replay_names hfirst h
  refine hreplay.respell ?_ ?_ ?_
  · simp only [spell_cons, spell_nil, List.append_nil, Part.pieces, TypeRef.pieces_path]
    refine (spell_rowsBy _ _ |>.trans ?_).symm
    rw [List.map_map]
    rfl
  · intro part hpart
    rw [List.mem_singleton.1 hpart]
    exact wellFormed_path hne hnames
  · intro hquery
    rcases mem_rowsBy hquery with hquery | ⟨row, hrow, hquery⟩
    · cases hquery
    · obtain ⟨name, -, rfl⟩ := List.mem_map.1 hrow
      cases List.mem_singleton.1 hquery

/-- Whether the class of a type is asked for. -/
def classAhead (pieces : List Piece) : Bool :=
  pieceAt pieces 0 (·.isSymbol ".") && pieceAt pieces 1 (·.isWord "class")

theorem classAhead_eq (stream : TokenStream) :
    (stream.symbolAt 0 "." && stream.wordAt 1 "class") = classAhead stream.pieces := by
  rw [TokenStream.symbolAt_eq, TokenStream.wordAt_eq]
  rfl

theorem classAhead_similar (pieces pieces' : List Piece) (h : Similar pieces pieces') :
    classAhead pieces = classAhead pieces' :=
  h.second (Piece.respects_isSymbol ".") (Piece.respects_isWord "class")
    fun _ => Piece.not_isStop_of_dot

theorem printed_class (h : classAhead source.pieces = true) :
    Printed source.pieces (source.skip 2).pieces [.symbol ".", .word "class"] := by
  unfold classAhead at h
  rw [Bool.and_eq_true] at h
  obtain ⟨dot, more, hpieces, hdot⟩ := pieceAt_zero_true h.1
  have hclass := h.2
  rw [hpieces, pieceAt_one] at hclass
  obtain ⟨word, others, rfl, hword⟩ := pieceAt_zero_true hclass
  rw [TokenStream.pieces_skip, hpieces]
  exact (Printed.one (Piece.matches_symbol hdot) _).trans
    (.one (Piece.matches_keyword hword (by decide)) others)

section

variable (hinner : ∀ source value rest, inner source = .ok value rest →
  Replay bound inner' source.pieces rest.pieces value.parts value)

include hinner

theorem replay_named {value : Expression} (hfirst : source.identifierAt 0 = true)
    (h : named inner source = .ok value rest) :
    Replay (bound + 1) (named inner') source.pieces rest.pieces value.parts value := by
  unfold named at h
  obtain ⟨names, middle, hnames, h⟩ := Reader.bind_eq_ok.1 h
  obtain ⟨found, behind, hfound, h⟩ := Reader.bind_eq_ok.1 h
  have hlook : Replay (bound + 1)
      (look fun stream => stream.symbolAt 0 "." && stream.wordAt 1 "class") middle.pieces
      behind.pieces [] found :=
    replay_look classAhead_eq classAhead_similar hfound
  cases found with
  | true =>
    simp only [if_true, Reader.bind_eq_ok, skip_eq_ok] at h
    obtain ⟨_, _, rfl, h⟩ := h
    cases h
    obtain ⟨hclass, rfl⟩ := look_eq_ok.1 hfound
    rw [classAhead_eq] at hclass
    have hskip : Replay (bound + 1) (skip 2) middle.pieces (middle.skip 2).pieces
        [.symbol ".", .word "class"] () :=
      replay_skip (printed_class hclass) rfl
    exact Replay.bind (replay_path hfirst hnames) (hlook.bind_nothing (hskip.map fun _ => _))
  | false =>
    simp only [Bool.false_eq_true, if_false] at h
    have hall : _ ∧ _ ∧ Replay (bound + 1) _ _ _ _ names := replay_names hfirst hnames
    -- one name may be called; a dotted one is a path
    match names, hnames, h, hall with
    | [], _, _, hall => exact absurd rfl hall.1
    | [name], hnames, h, hall =>
      obtain ⟨called, after, hcalled, h⟩ := Reader.bind_eq_ok.1 h
      have hname := hall.2.2
      cases called with
      | true =>
        simp only [if_true, Reader.bind_eq_ok] at h
        obtain ⟨items, final, hitems, h⟩ := h
        cases h
        refine Replay.bind hname (hlook.bind_nothing ?_)
        exact Replay.bind_nothing (replay_atSymbol hcalled)
          ((replay_arguments hinner hitems).map (Expression.call name))
      | false =>
        cases h
        refine Replay.bind hname (hlook.bind_nothing ?_)
        exact (replay_atSymbol hcalled).bind_pure rfl
    | first :: second :: others, hnames, h, _ =>
      cases h
      exact Replay.bind (replay_path hfirst hnames) (hlook.bind_pure rfl)

/-- The object itself or its parent part, or a call of their constructor. -/
theorem replay_selfReference {keyword : Text} {leaf : Primary} {value : Expression}
    (hkeyword : keyword ∈ Vocabulary.printed) (hleaf : leaf.parts = [.word keyword])
    (hfirst : source.wordAt 0 keyword = true)
    (h : selfReference inner leaf source = .ok value rest) :
    Replay (bound + 1) (selfReference inner' leaf) source.pieces rest.pieces value.parts value := by
  unfold selfReference at h
  obtain ⟨name, middle, hname, h⟩ := Reader.bind_eq_ok.1 h
  obtain ⟨called, behind, hcalled, h⟩ := Reader.bind_eq_ok.1 h
  rw [TokenStream.wordAt_eq] at hfirst
  obtain ⟨piece, others, hpieces, hword⟩ := pieceAt_zero_true hfirst
  have hkind : piece.kind = .word := by
    unfold Piece.isWord at hword
    simp only [Bool.and_eq_true, beq_iff_eq] at hword
    exact hword.1
  cases called with
  | true =>
    simp only [if_true, Reader.bind_eq_ok] at h
    obtain ⟨items, final, hitems, h⟩ := h
    cases h
    refine Replay.bind (replay_takeText hname hpieces hkind) ?_
    exact Replay.bind_nothing (replay_atSymbol hcalled)
      ((replay_arguments hinner hitems).map (Expression.call name))
  | false =>
    cases h
    obtain ⟨-, hmiddle⟩ := takeText_ok hname hpieces
    -- the leaf is printed as its keyword, however the word was written
    show Replay _ _ _ _ leaf.parts _
    rw [hleaf, hpieces]
    refine Replay.bind (replay_takeKeyword hword hkeyword) ?_
    rw [← hmiddle]
    exact (replay_atSymbol hcalled).bind_pure rfl

theorem replay_wordPrimary {value : Expression}
    (hfirst : source.holds 0 (·.kind == .word) = true)
    (h : wordPrimary inner source = .ok value rest) :
    Replay (bound + 1) (wordPrimary inner') source.pieces rest.pieces value.parts value := by
  unfold wordPrimary at h
  rw [Reader.bind_of_ok (Reader.get_run source)] at h
  rw [TokenStream.kindAt_eq source 0 (· == .word)] at hfirst
  obtain ⟨piece, others, hpieces, hword⟩ := pieceAt_zero_true hfirst
  split at h
  case isTrue hliteral =>
    simp only [Reader.bind_eq_ok] at h
    obtain ⟨text, final, htext, h⟩ := h
    cases h
    have hsymbol : piece.kind ≠ .symbol := by
      rw [beq_iff_eq.1 hword]
      decide
    refine replay_get (fun stream hsimilar => ?_)
      ((replay_literal htext hpieces hsymbol).map fun text => Expression.primary (.literal text))
    rw [TokenStream.wordInAt_similar hsimilar, if_pos hliteral]
  case isFalse hliteral =>
  split at h
  case isTrue hthis =>
    refine replay_get (fun stream hsimilar => ?_)
      (replay_selfReference hinner (by decide) rfl hthis h)
    rw [TokenStream.wordInAt_similar hsimilar, if_neg hliteral, TokenStream.wordAt_similar hsimilar,
      if_pos hthis]
  case isFalse hthis =>
  split at h
  case isTrue hsuper =>
    refine replay_get (fun stream hsimilar => ?_)
      (replay_selfReference hinner (by decide) rfl hsuper h)
    rw [TokenStream.wordInAt_similar hsimilar, if_neg hliteral, TokenStream.wordAt_similar hsimilar,
      if_neg hthis, TokenStream.wordAt_similar hsimilar, if_pos hsuper]
  case isFalse hsuper =>
  obtain ⟨created, middle, hcreated, h⟩ := Reader.bind_eq_ok.1 h
  -- behind the words with a meaning of their own: a creation or a name
  have hbranch : Replay (bound + 1) (takeWord "new" >>= fun created =>
      if created then creation inner' else if source.identifierAt 0 then named inner'
      else fail .expression) source.pieces rest.pieces value.parts value := by
    cases created with
    | true =>
      obtain ⟨parts, hparts, hcreation⟩ := replay_creation hinner h
      rw [hparts]
      exact Replay.bind (replay_takeWord_true hcreated (by decide)) hcreation
    | false =>
      obtain ⟨rfl, -⟩ := takeWord_false hcreated
      refine Replay.bind_nothing (replay_takeWord_false hcreated) ?_
      simp only [Bool.false_eq_true, if_false] at h ⊢
      split at h
      case isTrue hname =>
        rw [if_pos hname]
        exact replay_named hinner hname h
      case isFalse => simp at h
  refine replay_get (fun stream hsimilar => ?_) hbranch
  rw [TokenStream.wordInAt_similar hsimilar, if_neg hliteral, TokenStream.wordAt_similar hsimilar,
    if_neg hthis, TokenStream.wordAt_similar hsimilar, if_neg hsuper,
    TokenStream.identifierAt_similar hsimilar]

/-- A primary, unless it is a query. -/
theorem replay_primary {value : Expression} (h : primary inner source = .ok value rest) :
    Replay (bound + 1) (primary inner') source.pieces rest.pieces value.parts value := by
  unfold primary at h
  rw [Reader.bind_of_ok (Reader.get_run source)] at h
  have hkind : ∀ stream : TokenStream, Similar source.pieces stream.pieces →
      stream.holds 0 (fun token => token.kind == .number || token.kind == .string) =
        source.holds 0 (fun token => token.kind == .number || token.kind == .string) :=
    fun stream hsimilar =>
      TokenStream.kindAt_similar hsimilar fun kind => kind == .number || kind == .string
  split at h
  case isTrue hliteral =>
    simp only [Reader.bind_eq_ok] at h
    obtain ⟨text, final, htext, h⟩ := h
    cases h
    have hfirst := hliteral
    rw [TokenStream.kindAt_eq source 0 fun kind => kind == .number || kind == .string] at hfirst
    obtain ⟨piece, others, hpieces, hkinds⟩ := pieceAt_zero_true hfirst
    have hsymbol : piece.kind ≠ .symbol := by
      intro hsame
      rw [hsame] at hkinds
      exact absurd hkinds (by decide)
    refine replay_get (fun stream hsimilar => ?_)
      ((replay_literal htext hpieces hsymbol).map fun text => Expression.primary (.literal text))
    rw [hkind stream hsimilar, if_pos hliteral]
  case isFalse hliteral =>
  split at h
  case isTrue hword =>
    refine replay_get (fun stream hsimilar => ?_) (replay_wordPrimary hinner hword h)
    rw [hkind stream hsimilar, if_neg hliteral,
      TokenStream.kindAt_similar hsimilar (· == .word), if_pos hword]
  case isFalse hword =>
  obtain ⟨opened, middle, hopened, h⟩ := Reader.bind_eq_ok.1 h
  have hbranch : Replay (bound + 1) (takeSymbol "(" >>= fun opened =>
      if opened then inner' >>= fun inner => symbol ")" >>= fun _ => pure (.parenthesized inner)
      else if source.symbolAt 0 "[" then query else fail .expression) source.pieces rest.pieces
      value.parts value := by
    cases opened with
    | true =>
      simp only [if_true, Reader.bind_eq_ok] at h
      obtain ⟨content, behind, hcontent, _, final, hclose, h⟩ := h
      cases h
      refine Replay.bind_less (replay_takeSymbol_true hopened) ?_
      exact (hinner _ _ _ hcontent).bind ((replay_symbol hclose).map fun _ => _)
    | false =>
      simp only [Bool.false_eq_true, if_false] at h
      split at h
      case isFalse => simp at h
      case isTrue =>
        -- a query has no printed form
        unfold query at h
        simp only [Reader.bind_eq_ok] at h
        obtain ⟨_, _, -, _, _, -, h⟩ := h
        cases h
        intro _ hquery
        exact absurd List.mem_cons_self hquery
  refine replay_get (fun stream hsimilar => ?_) hbranch
  rw [hkind stream hsimilar, if_neg hliteral,
    TokenStream.kindAt_similar hsimilar (· == .word), if_neg hword,
    TokenStream.symbolAt_similar hsimilar]

/-! ## Steps behind a primary -/

theorem replay_link {navigation : Navigation} {step : Link}
    (h : link inner navigation source = .ok step rest) :
    ∃ parts, step.parts = .symbol navigation.text :: parts ∧
      Replay (bound + 1) (link inner' navigation) source.pieces rest.pieces parts step := by
  unfold link at h
  simp only [Reader.bind_eq_ok, require_eq_ok, look_eq_ok] at h
  obtain ⟨isClass, _, hclass, _, middle, ⟨hother, rfl⟩, isWord, _, ⟨hword, rfl⟩, _, _,
    ⟨rfl, rfl⟩, member, behind, hmember, called, final, hcalled, h⟩ := h
  cases h
  have hkind := hword
  rw [TokenStream.kindAt_eq _ 0 (· == .word)] at hkind
  obtain ⟨piece, others, hpieces, hpiece⟩ := pieceAt_zero_true hkind
  have hname : Replay (bound + 1) takeText _ _ [.word member] member :=
    replay_takeText hmember hpieces (by simpa using hpiece)
  -- the member is any word but the one that asks for a class
  have hlook : Replay (bound + 1) (look (·.holds 0 (·.kind == .word))) _ _ [] true :=
    replay_look (fun stream => stream.kindAt_eq 0 (· == .word))
      (fun _ _ hsimilar => hsimilar.first (Piece.respects_kind (· == .word)))
      (look_eq_ok.2 ⟨hword, rfl⟩)
  cases called with
  | none =>
    have hplain := Reader.optional_eq_none.1 hcalled
    refine ⟨_, rfl, Replay.bind_nothing (replay_atWord hclass) ?_⟩
    refine Replay.bind_nothing (replay_require hother) (hlook.bind_nothing ?_)
    refine Replay.bind_nothing (replay_require rfl) (Replay.bind hname ?_)
    exact (replay_atSymbol hplain).optional_none.map fun called => Link.mk navigation member called
  | some items =>
    obtain ⟨_, hopened, hitems⟩ := Reader.optional_eq_some.1 hcalled
    refine ⟨_, rfl, Replay.bind_nothing (replay_atWord hclass) ?_⟩
    refine Replay.bind_nothing (replay_require hother) (hlook.bind_nothing ?_)
    refine Replay.bind_nothing (replay_require rfl) (Replay.bind hname ?_)
    exact (Replay.optional_some (replay_atSymbol hopened) (replay_arguments hinner hitems)).map
      fun called => Link.mk navigation member called

/-- The parts of a step behind an operand. -/
def Step.parts : Step → List Part
  | .link step => step.parts
  | .index position => .symbol "[" :: (position.parts ++ [.symbol "]"])
  | .operator text => [.trailing text]

theorem replay_step {value : Option Step} (h : step inner source = .ok value rest) :
    Replay (bound + 1) (step inner') source.pieces rest.pieces (value.elim [] Step.parts) value := by
  unfold step at h
  obtain ⟨dotted, middle, hdotted, h⟩ := Reader.bind_eq_ok.1 h
  cases dotted with
  | true =>
    simp only [if_true, Reader.bind_eq_ok] at h
    obtain ⟨item, final, hitem, h⟩ := h
    cases h
    obtain ⟨parts, hparts, hlink⟩ := replay_link hinner hitem
    show Replay _ _ _ _ item.parts _
    rw [hparts]
    exact Replay.bind (replay_takeSymbol_true hdotted) (hlink.map fun item => some (Step.link item))
  | false =>
  simp only [Bool.false_eq_true, if_false] at h
  refine Replay.bind_nothing (replay_takeSymbol_false hdotted) ?_
  obtain ⟨safe, middle, hsafe, h⟩ := Reader.bind_eq_ok.1 h
  cases safe with
  | true =>
    simp only [if_true, Reader.bind_eq_ok] at h
    obtain ⟨item, final, hitem, h⟩ := h
    cases h
    obtain ⟨parts, hparts, hlink⟩ := replay_link hinner hitem
    show Replay _ _ _ _ item.parts _
    rw [hparts]
    exact Replay.bind (replay_takeSymbol_true hsafe) (hlink.map fun item => some (Step.link item))
  | false =>
  simp only [Bool.false_eq_true, if_false] at h
  refine Replay.bind_nothing (replay_takeSymbol_false hsafe) ?_
  obtain ⟨indexed, middle, hindexed, h⟩ := Reader.bind_eq_ok.1 h
  cases indexed with
  | true =>
    simp only [if_true, Reader.bind_eq_ok] at h
    obtain ⟨position, behind, hposition, _, final, hclose, h⟩ := h
    cases h
    refine Replay.bind_less (replay_takeSymbol_true hindexed) ?_
    exact (hinner _ _ _ hposition).bind ((replay_symbol hclose).map fun _ =>
      some (Step.index position))
  | false =>
  simp only [Bool.false_eq_true, if_false] at h
  refine Replay.bind_nothing (replay_takeSymbol_false hindexed) ?_
  obtain ⟨found, middle, hfound, h⟩ := Reader.bind_eq_ok.1 h
  cases found with
  | false =>
    cases h
    exact (replay_symbolInAt hfound).bind_pure rfl
  | true =>
    simp only [if_true, Reader.bind_eq_ok] at h
    obtain ⟨text, final, htext, h⟩ := h
    cases h
    refine Replay.bind_nothing (replay_symbolInAt hfound) ?_
    obtain ⟨hsymbol, rfl⟩ := look_eq_ok.1 hfound
    have hoperator : Replay (bound + 1) takeText _ _ [.trailing text] text :=
      replay_takeOperator htext hsymbol rfl fun hmem => hmem
    exact hoperator.map fun text => some (Step.operator text)

omit hinner in
/-- Steps behind an operand add their parts to it. -/
theorem parts_steps (first : Expression) (steps : List Step) :
    (steps.foldl Step.apply first).parts = first.parts ++ steps.flatMap Step.parts := by
  induction steps generalizing first with
  | nil => simp
  | cons step others ih =>
    have hstep : (Step.apply first step).parts = first.parts ++ step.parts := by
      cases step <;> rfl
    rw [List.foldl_cons, ih, hstep, List.flatMap_cons, List.append_assoc]

theorem replay_stepped {value : Expression} (h : stepped inner source = .ok value rest) :
    Replay (bound + 1) (stepped inner') source.pieces rest.pieces value.parts value := by
  unfold stepped at h
  obtain ⟨first, middle, hfirst, h⟩ := Reader.bind_eq_ok.1 h
  obtain ⟨steps, final, hsteps, h⟩ := Reader.bind_eq_ok.1 h
  cases h
  rw [parts_steps]
  have hmany : Replay (bound + 1) (Reader.many (step inner')) middle.pieces rest.pieces
      (steps.flatMap Step.parts) steps :=
    replay_many (fun _ _ _ hround => replay_step hinner hround)
      (fun _ _ hround => replay_step hinner hround) hsteps
  exact (replay_primary hinner hfirst).bind (hmany.map fun steps => steps.foldl Step.apply first)

end

/-! ## Operators in front of an operand -/

/-- Whether a piece can begin the operand of a cast. -/
def castablePiece (piece : Piece) : Bool :=
  match piece.kind with
  | .word => !piece.isWord "instanceof"
  | .number | .string => true
  | .symbol => piece.isSymbolIn (["(", "!", "~"].map String.toList)

theorem respects_castable : Piece.Respects castablePiece := by
  intro source printed h
  have hword := Piece.respects_isWord "instanceof" source printed h
  have hsymbol := Piece.respects_isSymbolIn (["(", "!", "~"].map String.toList) source printed h
  simp only at hword hsymbol
  unfold castablePiece
  rw [h.kind, hword, hsymbol]

theorem castableAt_eq (stream : TokenStream) :
    stream.holds 0 castable = pieceAt stream.pieces 0 castablePiece :=
  stream.holds_eq 0 castablePiece

theorem castType_eq_ok {type : TypeRef} :
    castType source = .ok type rest ↔ ∃ opened middle, symbol "(" source = .ok () opened ∧
      typeRef opened = .ok type middle ∧ symbol ")" middle = .ok () rest ∧
      pieceAt rest.pieces 0 castablePiece = true := by
  unfold castType
  simp only [Reader.bind_eq_ok, require_eq_ok, look_eq_ok, castableAt_eq]
  constructor
  · rintro ⟨_, opened, hopen, found, middle, htype, _, final, hclose, _, _, ⟨rfl, rfl⟩, _, _,
      ⟨hcastable, rfl⟩, h⟩
    cases h
    exact ⟨opened, middle, hopen, htype, hclose, hcastable⟩
  · rintro ⟨opened, middle, hopen, htype, hclose, hcastable⟩
    exact ⟨(), opened, hopen, type, middle, htype, (), rest, hclose, true, rest,
      ⟨hcastable, rfl⟩, (), rest, ⟨rfl, rfl⟩, rfl⟩

theorem replay_castType {type : TypeRef} (h : castType source = .ok type rest) :
    Replay bound castType source.pieces rest.pieces
      [.symbol "(", .type type, .symbol ")"] type := by
  obtain ⟨opened, middle, hopen, htype, hclose, hcastable⟩ := castType_eq_ok.1 h
  have hlook : Replay bound (look (·.holds 0 castable)) rest.pieces rest.pieces [] true :=
    replay_look castableAt_eq (fun _ _ hsimilar => hsimilar.first respects_castable)
      (look_eq_ok.2 ⟨(castableAt_eq rest).trans hcastable, rfl⟩)
  refine Replay.bind (replay_symbol hopen) (Replay.bind (replay_typeRef htype) ?_)
  refine Replay.bind (replay_symbol hclose) (hlook.bind_nothing ?_)
  exact (replay_require rfl).bind_pure rfl

/-- The parts of what stands in front of an operand. -/
def Front.parts : Front → List Part
  | .operator text => [.leading text]
  | .cast type => [.symbol "(", .type type, .symbol ")"]

theorem replay_front {value : Front} (h : front source = .ok (some value) rest) :
    Replay bound front source.pieces rest.pieces value.parts (some value) := by
  unfold front at h
  obtain ⟨found, middle, hfound, h⟩ := Reader.bind_eq_ok.1 h
  cases found with
  | true =>
    simp only [if_true, Reader.bind_eq_ok] at h
    obtain ⟨text, final, htext, h⟩ := h
    cases h
    refine Replay.bind_nothing (replay_symbolInAt hfound) ?_
    obtain ⟨hsymbol, rfl⟩ := look_eq_ok.1 hfound
    have hoperator : Replay bound takeText _ _ [.leading text] text :=
      replay_takeOperator htext hsymbol rfl fun hmem => hmem
    exact hoperator.map fun text => some (Front.operator text)
  | false =>
    simp only [Bool.false_eq_true, if_false] at h
    refine Replay.bind_nothing (replay_symbolInAt hfound) ?_
    -- a parenthesis may open a cast, which is tried out
    obtain ⟨opened, behind, hopened, h⟩ := Reader.bind_eq_ok.1 h
    cases opened with
    | false => cases h
    | true =>
      simp only [if_true, Reader.bind_eq_ok] at h
      obtain ⟨type, final, htype, h⟩ := h
      cases type with
      | none => cases h
      | some type =>
        cases h
        refine Replay.bind_nothing (replay_atSymbol hopened) ?_
        exact (replay_castType (Reader.attempt_eq_some.1 htype)).attempt.map (Option.map Front.cast)

/-- Where nothing stands in front of an operand. -/
theorem front_eq_none (h : front source = .ok none rest) :
    rest = source ∧ pieceAt source.pieces 0 (·.isSymbolIn Operators.leading) = false ∧
      ∀ type final, castType source ≠ .ok type final := by
  unfold front at h
  obtain ⟨found, middle, hfound, h⟩ := Reader.bind_eq_ok.1 h
  obtain ⟨hleading, rfl⟩ := look_eq_ok.1 hfound
  rw [TokenStream.symbolInAt_eq] at hleading
  cases found with
  | true =>
    simp only [if_true, Reader.bind_eq_ok, Reader.pure_run, EStateM.Result.ok.injEq, reduceCtorEq,
      false_and, and_false, exists_false] at h
  | false =>
    simp only [Bool.false_eq_true, if_false] at h
    obtain ⟨opened, behind, hopened, h⟩ := Reader.bind_eq_ok.1 h
    obtain ⟨hparenthesis, rfl⟩ := atSymbol_eq_ok.1 hopened
    cases opened with
    | false =>
      cases h
      refine ⟨rfl, hleading, fun type final hcast => ?_⟩
      -- a cast would begin with the parenthesis that is not there
      obtain ⟨_, _, hopen, -⟩ := castType_eq_ok.1 hcast
      exact refuses_symbol hparenthesis _ rfl _ _ hopen
    | true =>
      simp only [if_true, Reader.bind_eq_ok] at h
      obtain ⟨type, final, htype, h⟩ := h
      cases type with
      | some type => cases h
      | none =>
        cases h
        obtain ⟨rfl, hnone⟩ := Reader.attempt_eq_none.1 htype
        exact ⟨rfl, hleading, hnone⟩

/-- A cast that is read from printed pieces with a fence behind the parenthesis is also read from
the source that they match. -/
theorem castType_transfer {printed last : TokenStream} {type : TypeRef} {p q s f : List Piece}
    (h : castType printed = .ok type last) (hsource : source.pieces = p ++ s)
    (hprinted : printed.pieces = q ++ f) (hmatch : MatchAll p q)
    (hfence : ∃ piece ∈ q.tail, piece.isFence = true) (hsimilar : Similar s f) :
    ∃ final, castType source = .ok type final := by
  obtain ⟨opened, middle, hopen, htype, hclose, hcastable⟩ := castType_eq_ok.1 h
  obtain ⟨opening, hopening, hparenthesis⟩ := symbol_ok hopen
  cases hmatch with
  | nil => simp at hfence
  | @cons source' printed' p q hhead htail =>
    rw [hprinted, List.cons_append] at hopening
    obtain ⟨rfl, hopened⟩ := List.cons.inj hopening
    rw [List.cons_append] at hsource
    have hopen' := symbol_run ((hhead.isSymbol _).trans hparenthesis) hsource
    -- the type ends in front of the fence on both sides
    obtain ⟨p', q', middle', htype', hmiddle', hmiddle, hmatch, hfence'⟩ :=
      typeRef_transfer htype (TokenStream.pieces_skip_one hsource) hopened.symm htail hfence
    obtain ⟨closing, hclosing, hclosed⟩ := symbol_ok hclose
    cases hmatch with
    | nil => simp at hfence'
    | @cons source' printed' p' q' hhead' htail' =>
      rw [hmiddle, List.cons_append] at hclosing
      obtain ⟨rfl, hlast⟩ := List.cons.inj hclosing
      rw [List.cons_append] at hmiddle'
      have hclose' := symbol_run ((hhead'.isSymbol _).trans hclosed) hmiddle'
      refine ⟨middle'.skip 1, castType_eq_ok.2 ⟨_, _, hopen', htype', hclose', ?_⟩⟩
      rw [TokenStream.pieces_skip_one hmiddle',
        (Similar.append htail' hsimilar).first respects_castable, hlast, hcastable]

/-- An operand without anything in front of it is printed without anything in front of it. -/
theorem reads_front_none {parts : List Part} {f : List Piece} (h : front source = .ok none source)
    (hprinted : Printed source.pieces rest.pieces parts) (hf : Similar rest.pieces f)
    (hfence : source.symbolAt 0 "(" = true → ∃ piece ∈ (spell parts).tail, piece.isFence = true) :
    Reads bound front [] (spell parts ++ f) none := by
  obtain ⟨-, hleading, hnone⟩ := front_eq_none h
  have hsimilar := hprinted.similar hf
  intro stream _ hpieces
  rw [List.nil_append] at hpieces
  have hleading' : look (·.symbolInAt 0 Operators.leading) stream = .ok false stream := by
    rw [look_eq_ok, TokenStream.symbolInAt_eq, hpieces,
      ← hsimilar.first (Piece.respects_isSymbolIn _)]
    exact ⟨hleading, rfl⟩
  have hopened : atSymbol "(" stream = .ok (source.symbolAt 0 "(") stream := by
    rw [atSymbol_eq_ok, hpieces, ← hsimilar.first (Piece.respects_isSymbol _),
      TokenStream.symbolAt_eq]
    exact ⟨rfl, rfl⟩
  unfold front
  rw [Reader.bind_of_ok hleading']
  show (atSymbol "(" >>= _) stream = _
  rw [Reader.bind_of_ok hopened]
  cases hparenthesis : source.symbolAt 0 "(" with
  | false => rfl
  | true =>
    -- a cast in the printed pieces would be one in the source as well
    have hattempt : Reader.attempt castType stream = .ok none stream := by
      refine Reader.attempt_eq_none.2 ⟨rfl, fun type final hcast => ?_⟩
      obtain ⟨taken, htaken, hmatch⟩ := hprinted.matched
      obtain ⟨last, hlast⟩ :=
        castType_transfer hcast htaken hpieces hmatch (hfence hparenthesis) hf
      exact hnone type last hlast
    show (Reader.attempt castType >>= _) stream = _
    rw [Reader.bind_of_ok hattempt]
    rfl

/-- What begins with a parenthesis is in parentheses. -/
theorem primary_parenthesis {value : Expression} (h : primary inner source = .ok value rest)
    (hfirst : source.symbolAt 0 "(" = true) : ∃ content, value = .parenthesized content := by
  rw [TokenStream.symbolAt_eq] at hfirst
  obtain ⟨piece, others, hpieces, hpiece⟩ := pieceAt_zero_true hfirst
  have hkind := (Piece.isSymbol_iff.1 hpiece).1
  cases primary_cases h with
  | literal ahead =>
    rw [TokenStream.kindAt_eq source 0 (fun kind => kind == .number || kind == .string), hpieces,
      pieceAt_zero, hkind] at ahead
    cases ahead
  | word ahead =>
    rw [TokenStream.kindAt_eq source 0 (· == .word), hpieces, pieceAt_zero, hkind] at ahead
    cases ahead
  | parenthesized => exact ⟨_, rfl⟩
  | query ahead =>
    rw [TokenStream.symbolAt_eq, hpieces, pieceAt_zero,
      Piece.isSymbol_eq_false hpiece (by decide)] at ahead
    cases ahead

theorem stepped_fence {value : Expression} (h : stepped inner source = .ok value rest)
    (hfirst : source.symbolAt 0 "(" = true) :
    ∃ piece ∈ (spell value.parts).tail, piece.isFence = true := by
  unfold stepped at h
  obtain ⟨first, middle, hprimary, h⟩ := Reader.bind_eq_ok.1 h
  obtain ⟨steps, final, hsteps, h⟩ := Reader.bind_eq_ok.1 h
  cases h
  obtain ⟨content, rfl⟩ := primary_parenthesis hprimary hfirst
  refine ⟨.symbol ")", ?_, by decide⟩
  rw [parts_steps]
  simp [Expression.parts, Part.symbol, Part.pieces]

/-- What stands in front of an operand adds its parts to it. -/
theorem parts_fronts (fronts : List Front) (operand : Expression) :
    (fronts.foldr Front.apply operand).parts = fronts.flatMap Front.parts ++ operand.parts := by
  induction fronts with
  | nil => rfl
  | cons front others ih =>
    have hfront : ∀ operand, (Front.apply front operand).parts = front.parts ++ operand.parts := by
      intro operand
      cases front <;> rfl
    rw [List.foldr_cons, hfront, ih, List.flatMap_cons, List.append_assoc]

section

variable (hinner : ∀ source value rest, inner source = .ok value rest →
  Replay bound inner' source.pieces rest.pieces value.parts value)

include hinner

theorem replay_unary {value : Expression} (h : unary inner source = .ok value rest) :
    Replay (bound + 1) (unary inner') source.pieces rest.pieces value.parts value := by
  unfold unary at h
  obtain ⟨fronts, middle, hfronts, h⟩ := Reader.bind_eq_ok.1 h
  obtain ⟨operand, final, hoperand, h⟩ := Reader.bind_eq_ok.1 h
  cases h
  rw [parts_fronts]
  obtain ⟨last, hlast, hmany, -⟩ := replay_rounds (fun _ _ _ => replay_front)
    (fun _ _ _ _ _ _ hprinted f hf => hprinted.similar hf) (Reader.many_eq_ok.1 hfronts)
  obtain ⟨rfl, -⟩ := front_eq_none hlast
  refine ReplayBy.bind_of_le hmany ((replay_stepped hinner hoperand).map fun operand =>
    fronts.foldr Front.apply operand) (fun _ _ hprinted f hf => ⟨hprinted.similar hf, ?_⟩) (by omega)
  exact reads_front_none hlast hprinted hf (stepped_fence hoperand)

end

end Grammar

end ApexLayout
