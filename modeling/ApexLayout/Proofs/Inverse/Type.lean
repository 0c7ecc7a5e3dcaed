import ApexLayout.Proofs.Spelling.Part
import Mathlib.Data.List.TakeWhile

/-!
Type references are read back.

Type arguments nest without bound and close with runs of `>`. The scanner cuts such a run into
single symbols, since the one longer symbol that begins with `>` goes on with an equals sign, which
no type is written with. What is written for a type is therefore cut into the pieces of the type, and
these are read as the type, with nothing left.
-/

namespace ApexLayout

/-- A name of the language: a letter or an underscore, then letters, digits and underscores, all of
them ASCII, and not a reserved word in any case of its letters. -/
structure Text.IsName (name : Text) : Prop where
  first : name.head?.any Scan.isWordStart = true
  letters : name.all Scan.isWordPart = true
  unreserved : ∀ word ∈ Vocabulary.reserved, Text.sameWord name word = false

/-- A type reference with at least one segment: its segments are names of the language, its type
arguments are such type references, and its brackets come in pairs. -/
inductive TypeRef.Proper : TypeRef → Prop
  | type {segments : List TypeName} (pairs : Nat) (some : segments ≠ [])
      (names : ∀ segment ∈ segments, segment.name.IsName)
      (arguments : ∀ segment ∈ segments, ∀ type ∈ segment.arguments, Proper type) :
      Proper ⟨segments, (List.replicate pairs ['[', ']']).flatten⟩

/-! ## Names -/

namespace Text.IsName

variable {name : Text}

/-- A name is one token. -/
theorem lexeme (h : name.IsName) : (Piece.word name).Lexeme := by
  obtain ⟨c, rest, rfl, hstart⟩ := Text.exists_first h.first
  have hrest : ∀ d ∈ rest, Scan.isWordPart d = true := fun d hd =>
    List.all_eq_true.1 h.letters d (List.mem_cons_of_mem c hd)
  have hsize : Scan.run Scan.isWordPart rest = rest.length := by
    unfold Scan.run
    rw [List.takeWhile_eq_self_iff.2 hrest]
  refine ⟨c, rest, rfl, ?_⟩
  rw [Scan.lexeme_word rest hstart, hsize]
  rfl

theorem isIdentifier (h : name.IsName) : (Piece.word name).isIdentifier = true := by
  have hnone : (Piece.word name).isWordIn Vocabulary.reserved = false := by
    unfold Piece.isWordIn
    rw [List.any_eq_false]
    intro word hword hsame
    have hapart := h.unreserved word hword
    unfold Piece.isWord at hsame
    rw [Bool.and_eq_true] at hsame
    have hsame : Text.sameWord name word = true := hsame.2
    rw [hapart] at hsame
    cases hsame
  unfold Piece.isIdentifier
  rw [hnone]
  rfl

end Text.IsName

/-! ## Types -/

namespace TypeRef.Proper

variable {type : TypeRef}

theorem wellFormed (h : type.Proper) : type.WellFormed := by
  induction h with
  | type pairs some names arguments ih =>
    refine (TypeRef.wellFormed_iff _ _).2 ⟨some, fun segment hsegment => ?_, pairs, rfl⟩
    exact ⟨(names segment hsegment).isIdentifier, ih segment hsegment⟩

/-- The pieces of a segment are tokens, if those of its type arguments are. -/
theorem lexeme_segment {segment : TypeName} (hname : segment.name.IsName)
    (harguments : ∀ type ∈ segment.arguments, ∀ piece ∈ type.pieces, piece.Lexeme) :
    ∀ piece ∈ segment.pieces, piece.Lexeme := by
  obtain ⟨name, arguments⟩ := segment
  cases arguments with
  | nil =>
    rw [TypeName.pieces]
    exact List.forall_mem_singleton.2 hname.lexeme
  | cons first others =>
    rw [TypeName.pieces, TypeRef.piecesAll_eq_map]
    have hrows : ∀ piece ∈ rowsBy (.symbol ",") ((first :: others).map TypeRef.pieces),
        piece.Lexeme := by
      intro piece hpiece
      rcases mem_rowsBy hpiece with rfl | ⟨row, hrow, hpiece⟩
      · exact Piece.lexeme_symbol (by decide) false
      · obtain ⟨type, htype, rfl⟩ := List.mem_map.1 hrow
        exact harguments type htype piece hpiece
    have hclosing : Piece.closing.Lexeme := Piece.lexeme_symbol (by decide) true
    have hopening : (Piece.symbol "<").Lexeme := Piece.lexeme_symbol (by decide) false
    have hall := List.forall_mem_append.2 ⟨hrows, List.forall_mem_singleton.2 hclosing⟩
    exact List.forall_mem_cons.2 ⟨hname.lexeme, List.forall_mem_cons.2 ⟨hopening, hall⟩⟩

/-- Everything that a proper type is written with is a token. -/
theorem lexeme (h : type.Proper) : ∀ piece ∈ type.pieces, piece.Lexeme := by
  induction h with
  | type pairs some names arguments ih =>
    intro piece hpiece
    rw [TypeRef.pieces, TypeName.piecesAll_eq_map, List.mem_append] at hpiece
    rcases hpiece with hpiece | hpiece
    · rcases mem_rowsBy hpiece with rfl | ⟨row, hrow, hpiece⟩
      · exact Piece.lexeme_symbol (by decide) false
      · obtain ⟨segment, hsegment, rfl⟩ := List.mem_map.1 hrow
        exact lexeme_segment (names segment hsegment) (ih segment hsegment) piece hpiece
    · -- behind the names there are brackets only
      obtain ⟨c, hc, rfl⟩ := List.mem_map.1 hpiece
      obtain ⟨pair, hpair, hc⟩ := List.mem_flatten.1 hc
      rw [List.eq_of_mem_replicate hpair] at hc
      rcases List.mem_pair.1 hc with rfl | rfl
      · exact Piece.lexeme_symbol (by decide) false
      · exact Piece.lexeme_symbol (by decide) false

end TypeRef.Proper

/-- At the end of the source every type stops. -/
theorem TypeRef.stops_nil (type : TypeRef) : type.Stops [] :=
  ⟨rfl, fun _ => rfl, fun _ _ _ _ => rfl⟩

/-- A proper type is printed, its text is cut into tokens, and these are read as the type, with
nothing left. -/
theorem typeRef_read_back (type : TypeRef) (h : type.Proper) :
    ∃ text stream rest, type.render = .ok text ∧ TokenStream.ofSource text = .ok stream ∧
      Grammar.typeRef stream = .ok type rest ∧ rest.tokens = [] := by
  obtain ⟨text, hrender, htext⟩ := type.typeText h.wellFormed h.lexeme
  have hnothing : ∀ c ∈ ([] : Text), Text.isBlank c = true := nofun
  obtain ⟨stream, hstream, hpieces⟩ := htext.spelled.ofSource hnothing
  rw [List.append_nil] at hstream
  have hwhole : stream.pieces = type.pieces ++ [] := by rw [hpieces, List.append_nil]
  have hreads : Grammar.Reads (stream.remaining + 1) Grammar.typeRef type.pieces [] type :=
    Grammar.reads_typeRef type h.wellFormed _ _ _ (SameAll.refl _) type.stops_nil
  have hrun := hreads stream (Nat.lt_succ_self _) hwhole
  refine ⟨text, stream, _, hrender, hstream, hrun, ?_⟩
  exact List.map_eq_nil_iff.1 (TokenStream.pieces_skip_append hwhole)

/-- Type arguments within type arguments, with a run of closing brackets and pairs of brackets at
two levels: `a.Map<String, List<List<C_1[]>>>[][]`. -/
theorem typeRef_read_back_nested :
    ∃ type : TypeRef, type.Proper ∧ type.render = .ok "a.Map<String, List<List<C_1[]>>>[][]" ∧
      ∃ text stream rest, type.render = .ok text ∧ TokenStream.ofSource text = .ok stream ∧
        Grammar.typeRef stream = .ok type rest ∧ rest.tokens = [] := by
  have hname : ∀ name ∈ ["a", "Map", "String", "List", "C_1"].map String.toList, Text.IsName name := by
    intro name hmem
    constructor
    all_goals revert name; decide
  have hplain : ∀ name : Text, name.IsName → ∀ pairs : Nat,
      TypeRef.Proper ⟨[⟨name, []⟩], (List.replicate pairs ['[', ']']).flatten⟩ := by
    intro name hname pairs
    exact .type pairs (List.cons_ne_nil _ _) (List.forall_mem_singleton.2 hname) (by simp)
  have hlist : ∀ type : TypeRef, type.Proper → TypeRef.Proper ⟨[⟨"List", [type]⟩], []⟩ := by
    intro type htype
    have hword : Text.IsName "List" := hname "List".toList (by decide)
    exact .type 0 (List.cons_ne_nil _ _) (List.forall_mem_singleton.2 hword)
      (List.forall_mem_singleton.2 (List.forall_mem_singleton.2 htype))
  have hstring := hplain "String" (hname _ (by decide)) 0
  have hinner := hlist _ (hlist _ (hplain "C_1" (hname _ (by decide)) 1))
  have hmap : TypeRef.Proper ⟨[⟨"a", []⟩, ⟨"Map", [⟨[⟨"String", []⟩], []⟩,
      ⟨[⟨"List", [⟨[⟨"List", [⟨[⟨"C_1", []⟩], "[]"⟩]⟩], []⟩]⟩], []⟩]⟩], "[][]"⟩ := by
    refine .type 2 (List.cons_ne_nil _ _) (List.forall_mem_cons.2
      ⟨hname _ (by decide), List.forall_mem_singleton.2 (hname _ (by decide))⟩) ?_
    refine List.forall_mem_cons.2 ⟨by simp, List.forall_mem_singleton.2 ?_⟩
    exact List.forall_mem_cons.2 ⟨hstring, List.forall_mem_singleton.2 hinner⟩
  exact ⟨_, hmap, by decide +kernel, typeRef_read_back _ hmap⟩

end ApexLayout
