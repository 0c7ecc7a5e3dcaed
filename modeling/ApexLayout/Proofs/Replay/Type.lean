import ApexLayout.Proofs.Induction
import ApexLayout.Proofs.Replay.Relation

/-!
Reading type references.

A type reference is read from exactly its own pieces, as long as nothing behind it could belong to
it. Its tokens are identifiers and a few symbols, so it never reaches past a parenthesis, a
semicolon or a colon.
-/

namespace ApexLayout

theorem SameAll.split {taken first second : List Piece} (h : SameAll taken (first ++ second)) :
    ∃ front back, taken = front ++ back ∧ SameAll front first ∧ SameAll back second :=
  ⟨_, _, (List.take_append_drop first.length taken).symm, List.forall₂_take_append _ _ _ h,
    List.forall₂_drop_append _ _ _ h⟩

/-! ## What could belong to a type -/

/-- Whether a dot with an identifier behind it is next. -/
def dotName (pieces : List Piece) : Bool :=
  pieceAt pieces 0 (·.isSymbol ".") && pieceAt pieces 1 Piece.isIdentifier

/-- Whether a pair of brackets is next. -/
def emptyBrackets (pieces : List Piece) : Bool :=
  pieceAt pieces 0 (·.isSymbol "[") && pieceAt pieces 1 (·.isSymbol "]")

/-- Nothing ahead could be type arguments of the name. -/
def TypeName.Stops (name : TypeName) (rest : List Piece) : Prop :=
  name.arguments = [] → pieceAt rest 0 (·.isSymbol "<") = false

/-- Nothing ahead could belong to the type reference. -/
structure TypeRef.Stops (type : TypeRef) (rest : List Piece) : Prop where
  brackets : emptyBrackets rest = false
  dot : type.suffix = [] → dotName rest = false
  name : type.suffix = [] → ∀ last ∈ type.segments.getLast?, last.Stops rest

theorem dotName_similar {pieces pieces' : List Piece} (h : Similar pieces pieces') :
    dotName pieces = dotName pieces' :=
  h.second (Piece.respects_isSymbol _) Piece.respects_isIdentifier
    fun _ => Piece.not_isStop_of_dot

theorem emptyBrackets_similar {pieces pieces' : List Piece} (h : Similar pieces pieces') :
    emptyBrackets pieces = emptyBrackets pieces' :=
  h.second (Piece.respects_isSymbol _) (Piece.respects_isSymbol _)
    fun _ => Piece.not_isStop_of_bracket

/-- Where things look alike a type stops in both or in none. -/
theorem TypeRef.stops_similar {type : TypeRef} {pieces pieces' : List Piece}
    (h : Similar pieces pieces') : type.Stops pieces ↔ type.Stops pieces' := by
  have hbrackets := emptyBrackets_similar h
  have hdot := dotName_similar h
  have hless := h.first (Piece.respects_isSymbol "<")
  constructor
  · intro hstops
    refine ⟨by rw [← hbrackets]; exact hstops.brackets, fun hnil => ?_, fun hnil last hlast => ?_⟩
    · rw [← hdot]
      exact hstops.dot hnil
    · intro harguments
      rw [← hless]
      exact hstops.name hnil last hlast harguments
  · intro hstops
    refine ⟨by rw [hbrackets]; exact hstops.brackets, fun hnil => ?_, fun hnil last hlast => ?_⟩
    · rw [hdot]
      exact hstops.dot hnil
    · intro harguments
      rw [hless]
      exact hstops.name hnil last hlast harguments

/-- Every type stops in front of a piece that is none of the symbols of types. -/
theorem TypeRef.stops_of_head {piece : Piece} (rest : List Piece) (type : TypeRef)
    (h : piece.isSymbolIn (["[", ".", "<"].map String.toList) = false) :
    type.Stops (piece :: rest) := by
  unfold Piece.isSymbolIn at h
  simp only [List.map_cons, List.map_nil, List.any_cons, List.any_nil, Bool.or_false,
    Bool.or_eq_false_iff] at h
  obtain ⟨hbracket, hdot, hless⟩ := h
  refine ⟨?_, fun _ => ?_, fun _ _ _ _ => ?_⟩
  · unfold emptyBrackets
    rw [pieceAt_zero, hbracket, Bool.false_and]
  · unfold dotName
    rw [pieceAt_zero, hdot, Bool.false_and]
  · rw [pieceAt_zero, hless]

/-- A type begins with an identifier. -/
theorem TypeRef.pieces_first {type : TypeRef} (h : type.WellFormed) :
    ∃ piece pieces, type.pieces = piece :: pieces ∧ piece.isIdentifier = true := by
  obtain ⟨segments, suffix⟩ := type
  obtain ⟨hne, hnames, -⟩ := (TypeRef.wellFormed_iff _ _).1 h
  obtain ⟨⟨name, arguments⟩, others, rfl⟩ := List.exists_cons_of_ne_nil hne
  have hidentifier := (hnames _ List.mem_cons_self).identifier
  rw [TypeRef.pieces, TypeName.piecesAll, rowsBy_cons]
  cases arguments with
  | nil =>
    rw [TypeName.pieces]
    exact ⟨.word name, _, rfl, hidentifier⟩
  | cons first rest =>
    rw [TypeName.pieces]
    exact ⟨.word name, _, rfl, hidentifier⟩

namespace Grammar

variable {α : Type} {source rest : TokenStream}

/-! ## What a success says -/

section

variable {separator : Grammar Bool} {item : Grammar α} {print : α → List Piece}
  {good : α → Prop} {mark : Piece}
  (hmark : ∀ source rest, separator source = .ok true rest →
    ∃ piece, source.pieces = piece :: rest.pieces ∧ piece.Same mark)
  (hend : ∀ source rest, separator source = .ok false rest → rest = source)
  (hitem : ∀ source value rest, item source = .ok value rest →
    good value ∧ ∃ taken, source.pieces = taken ++ rest.pieces ∧ SameAll taken (print value))

include hmark hend hitem

/-- What a row of further items took, and the item at its end. -/
theorem rounds_ok {first : α} {start : TokenStream} {values : List α}
    (hfirst : item start = .ok first source)
    (h : Reader.Rounds (Reader.optional separator item) source values rest) :
    (∀ value ∈ values, good value) ∧
      (∃ taken, source.pieces = taken ++ rest.pieces ∧
        SameAll taken (values.flatMap fun value => mark :: print value)) ∧
      ∃ value start, (first :: values).getLast? = some value ∧ item start = .ok value rest ∧
        separator rest = .ok false rest := by
  induction h generalizing first start with
  | stop hstop =>
    have hfalse := Reader.optional_eq_none.1 hstop
    obtain rfl := hend _ _ hfalse
    exact ⟨by simp, ⟨[], rfl, .nil⟩, first, start, rfl, hfirst, hfalse⟩
  | round hround hless hothers ih =>
    obtain ⟨behind, htrue, hvalue⟩ := Reader.optional_eq_some.1 hround
    obtain ⟨piece, hpieces, hpiece⟩ := hmark _ _ htrue
    obtain ⟨hgood, taken, htaken, hsame⟩ := hitem _ _ _ hvalue
    obtain ⟨hvalues, ⟨more, hmore, hsames⟩, last, start', hlast, hfinal⟩ := ih hvalue
    refine ⟨List.forall_mem_cons.2 ⟨hgood, hvalues⟩, ⟨piece :: taken ++ more, ?_, ?_⟩,
      last, start', ?_, hfinal⟩
    · rw [hpieces, htaken, hmore]
      simp only [List.cons_append, List.append_assoc]
    · exact .cons hpiece (hsame.append hsames)
    · rw [List.getLast?_cons_cons]
      exact hlast

/-- What a row of items took, and the item at its end. -/
theorem separated_ok {values : List α}
    (h : Reader.separated separator item source = .ok values rest) :
    values ≠ [] ∧ (∀ value ∈ values, good value) ∧
      (∃ taken, source.pieces = taken ++ rest.pieces ∧
        SameAll taken (rowsBy mark (values.map print))) ∧
      ∃ value start, values.getLast? = some value ∧ item start = .ok value rest ∧
        separator rest = .ok false rest := by
  unfold Reader.separated at h
  obtain ⟨first, middle, hfirst, h⟩ := Reader.bind_eq_ok.1 h
  obtain ⟨others, last, hothers, h⟩ := Reader.bind_eq_ok.1 h
  cases h
  obtain ⟨hgood, taken, htaken, hsame⟩ := hitem _ _ _ hfirst
  obtain ⟨hvalues, ⟨more, hmore, hsames⟩, hlast⟩ :=
    rounds_ok hmark hend hitem hfirst (Reader.many_eq_ok.1 hothers)
  refine ⟨by simp, List.forall_mem_cons.2 ⟨hgood, hvalues⟩, ⟨taken ++ more, ?_, ?_⟩, hlast⟩
  · rw [htaken, hmore, List.append_assoc]
  · rw [List.map_cons, rowsBy_cons, List.flatMap_map]
    exact hsame.append hsames

end

theorem dotBeforeIdentifier_eq_skipIf :
    dotBeforeIdentifier = skipIf fun stream => stream.symbolAt 0 "." && stream.identifierAt 1 := rfl

theorem dotBeforeIdentifier_eq_ok {found : Bool} :
    dotBeforeIdentifier source = .ok found rest ↔
      dotName source.pieces = found ∧ rest = if found then source.skip 1 else source := by
  rw [dotBeforeIdentifier_eq_skipIf, skipIf_eq_ok, TokenStream.symbolAt_eq,
    TokenStream.identifierAt_eq]
  rfl

theorem dotBeforeIdentifier_true (h : dotBeforeIdentifier source = .ok true rest) :
    ∃ piece, source.pieces = piece :: rest.pieces ∧ piece.Same (.symbol ".") := by
  obtain ⟨hfound, rfl⟩ := dotBeforeIdentifier_eq_ok.1 h
  unfold dotName at hfound
  rw [Bool.and_eq_true] at hfound
  obtain ⟨piece, hpieces, hpiece⟩ := pieceAt_zero_stream hfound.1
  exact ⟨piece, hpieces, Piece.isSymbol_iff.1 hpiece |>.1, Piece.isSymbol_iff.1 hpiece |>.2⟩

theorem dotBeforeIdentifier_false (h : dotBeforeIdentifier source = .ok false rest) :
    rest = source :=
  (dotBeforeIdentifier_eq_ok.1 h).2

theorem comma_true {mark : Text} (h : takeSymbol mark source = .ok true rest) :
    ∃ piece, source.pieces = piece :: rest.pieces ∧ piece.Same (.symbol mark) := by
  obtain ⟨piece, hpieces, hpiece⟩ := takeSymbol_true h
  exact ⟨piece, hpieces, Piece.isSymbol_iff.1 hpiece |>.1, Piece.isSymbol_iff.1 hpiece |>.2⟩

section

variable {inner : Grammar TypeRef}
  (hinner : ∀ source type rest, inner source = .ok type rest →
    type.WellFormed ∧ ∃ taken, source.pieces = taken ++ rest.pieces ∧ SameAll taken type.pieces)

include hinner

theorem typeName_ok {name : TypeName} (h : typeName inner source = .ok name rest) :
    name.WellFormed ∧
      (∃ taken, source.pieces = taken ++ rest.pieces ∧ SameAll taken name.pieces) ∧
      name.Stops rest.pieces := by
  unfold typeName typeArguments at h
  simp only [Reader.bind_eq_ok, Reader.pure_run] at h
  obtain ⟨text, middle, hname, arguments, last, ⟨found, behind, hfound, hif⟩, h⟩ := h
  cases h
  obtain ⟨piece, hpieces, hpiece, rfl⟩ := identifier_ok hname
  have hword := Piece.isIdentifier_word hpiece
  have hidentifier : (Piece.word piece.text).isIdentifier = true := by
    rw [← Piece.respects_isIdentifier _ _ (Piece.matches_word hword)]
    exact hpiece
  cases found with
  | false =>
    obtain ⟨rfl, hless⟩ := takeSymbol_false hfound
    cases hif
    exact ⟨⟨hidentifier, by simp⟩, ⟨[piece], hpieces, .cons ⟨hword, rfl⟩ .nil⟩, fun _ => hless⟩
  | true =>
    obtain ⟨opening, hopening, hless⟩ := comma_true hfound
    simp only [if_true, Reader.bind_eq_ok] at hif
    obtain ⟨types, before, htypes, _, after, hclosing, h⟩ := hif
    cases h
    obtain ⟨hne, hgood, ⟨taken, htaken, hsame⟩, -⟩ :=
      separated_ok (fun _ _ => comma_true) (fun _ _ h => (takeSymbol_false h).1) hinner htypes
    obtain ⟨closing, hlast, hgreater⟩ := symbol_ok hclosing
    refine ⟨⟨hidentifier, hgood⟩, ⟨piece :: opening :: taken ++ [closing], ?_, ?_⟩, ?_⟩
    · rw [hpieces, hopening, htaken, hlast]
      simp
    · obtain ⟨first, others, rfl⟩ := List.exists_cons_of_ne_nil hne
      rw [TypeName.pieces, TypeRef.piecesAll_eq_map]
      refine .cons ⟨hword, rfl⟩ (.cons hless (hsame.append (.cons ⟨?_, ?_⟩ .nil)))
      · exact (Piece.isSymbol_iff.1 hgreater).1
      · exact (Piece.isSymbol_iff.1 hgreater).2
    · intro hnil
      exact absurd hnil hne

end

theorem bracketPair_eq_some {pair : Text} (h : bracketPair source = .ok (some pair) rest) :
    pair = ['[', ']'] ∧ ∃ opening closing, source.pieces = opening :: closing :: rest.pieces ∧
      opening.Same (.symbol ['[']) ∧ closing.Same (.symbol [']']) := by
  unfold bracketPair at h
  simp only [Reader.bind_eq_ok, look_eq_ok] at h
  obtain ⟨_, _, ⟨rfl, rfl⟩, h⟩ := h
  rw [TokenStream.symbolAt_eq, TokenStream.symbolAt_eq] at h
  split at h
  case isFalse => simp at h
  case isTrue hfound =>
    simp only [Reader.bind_eq_ok, skip_eq_ok] at h
    obtain ⟨_, _, rfl, h⟩ := h
    cases h
    rw [Bool.and_eq_true] at hfound
    obtain ⟨opening, more, hpieces, hopening⟩ := pieceAt_zero_true hfound.1
    rw [hpieces, pieceAt_one] at hfound
    obtain ⟨closing, others, rfl, hclosing⟩ := pieceAt_zero_true hfound.2
    refine ⟨rfl, opening, closing, ?_, ?_, ?_⟩
    · rw [TokenStream.pieces_skip, hpieces]
      rfl
    · exact ⟨(Piece.isSymbol_iff.1 hopening).1, (Piece.isSymbol_iff.1 hopening).2⟩
    · exact ⟨(Piece.isSymbol_iff.1 hclosing).1, (Piece.isSymbol_iff.1 hclosing).2⟩

theorem bracketPair_eq_none (h : bracketPair source = .ok none rest) :
    rest = source ∧ emptyBrackets source.pieces = false := by
  unfold bracketPair at h
  simp only [Reader.bind_eq_ok, look_eq_ok] at h
  obtain ⟨_, _, ⟨rfl, rfl⟩, h⟩ := h
  rw [TokenStream.symbolAt_eq, TokenStream.symbolAt_eq] at h
  split at h
  case isTrue =>
    simp only [Reader.bind_eq_ok, skip_eq_ok] at h
    obtain ⟨_, _, rfl, h⟩ := h
    cases h
  case isFalse hfound =>
    cases h
    exact ⟨rfl, by simpa [emptyBrackets] using hfound⟩

/-- Pairs of brackets up to something else. -/
theorem bracketPairs_ok {pairs : List Text} (h : Reader.many bracketPair source = .ok pairs rest) :
    emptyBrackets rest.pieces = false ∧ pairs = List.replicate pairs.length ['[', ']'] ∧
      ∃ taken, source.pieces = taken ++ rest.pieces ∧
        SameAll taken (pairs.flatten.map fun c => .symbol [c]) := by
  have h := Reader.many_eq_ok.1 h
  induction h with
  | stop hstop =>
    obtain ⟨rfl, hempty⟩ := bracketPair_eq_none hstop
    exact ⟨hempty, rfl, [], rfl, .nil⟩
  | round hround hless hothers ih =>
    obtain ⟨rfl, opening, closing, hpieces, hopening, hclosing⟩ := bracketPair_eq_some hround
    obtain ⟨hempty, hpairs, taken, htaken, hsame⟩ := ih (Reader.many_eq_ok.2 hothers)
    refine ⟨hempty, ?_, opening :: closing :: taken, ?_, ?_⟩
    · rw [List.length_cons, List.replicate_succ, ← hpairs]
    · rw [hpieces, htaken]
      rfl
    · exact .cons hopening (.cons hclosing hsame)

/-- What a type reference took: its own pieces, and nothing behind it could belong to it. -/
theorem typeRef_ok : ∀ source type rest, typeRef source = .ok type rest →
    type.WellFormed ∧ (∃ taken, source.pieces = taken ++ rest.pieces ∧ SameAll taken type.pieces) ∧
      type.Stops rest.pieces := by
  apply Reader.recursive_induction
  intro inner hinner source type rest h
  unfold typeRefRule at h
  obtain ⟨segments, middle, hsegments, h⟩ := Reader.bind_eq_ok.1 h
  obtain ⟨pairs, last, hpairs, h⟩ := Reader.bind_eq_ok.1 h
  cases h
  have hinner' : ∀ source type rest, inner source = .ok type rest →
      type.WellFormed ∧
        ∃ taken, source.pieces = taken ++ rest.pieces ∧ SameAll taken type.pieces :=
    fun source type rest h => ⟨(hinner source type rest h).1, (hinner source type rest h).2.1⟩
  obtain ⟨hne, hnames, ⟨taken, htaken, hsame⟩, final, start, hlast, hfinal, hdot⟩ :=
    separated_ok (fun _ _ => dotBeforeIdentifier_true) (fun _ _ => dotBeforeIdentifier_false)
      (fun _ _ _ h => ⟨(typeName_ok hinner' h).1, (typeName_ok hinner' h).2.1⟩)
      hsegments
  obtain ⟨hempty, hbrackets, more, hmore, hpieces⟩ := bracketPairs_ok hpairs
  -- without brackets the type ends where its last name does
  have hplain : pairs.flatten = [] → more = [] := by
    intro hnil
    rw [hnil] at hpieces
    exact List.forall₂_nil_right_iff.1 hpieces
  refine ⟨?_, ⟨taken ++ more, ?_, ?_⟩, hempty, fun hnil => ?_, fun hnil name hmem => ?_⟩
  · rw [TypeRef.wellFormed_iff]
    exact ⟨hne, hnames, pairs.length, by rw [← hbrackets]⟩
  · rw [htaken, hmore, List.append_assoc]
  · rw [TypeRef.pieces, TypeName.piecesAll_eq_map]
    exact hsame.append hpieces
  · rw [hplain hnil, List.nil_append] at hmore
    rw [← hmore]
    exact (dotBeforeIdentifier_eq_ok.1 hdot).1
  · rw [hplain hnil, List.nil_append] at hmore
    rw [← hmore]
    obtain rfl : name = final := by
      rw [hlast] at hmem
      exact (Option.mem_some.1 hmem).symm
    exact (typeName_ok hinner' hfinal).2.2

/-! ## What the rules read -/

variable {bound : Nat}

/-- Items are read one by one, with separators between them. -/
theorem reads_separated {separator : Grammar Bool} {item : Grammar α} {print : α → List Piece}
    {mark : Piece} {stops : α → List Piece → Prop} {first : α} {others : List α}
    {taken f : List Piece}
    (hitem : ∀ value ∈ first :: others, ∀ taken f, SameAll taken (print value) → stops value f →
      Reads bound item taken f value)
    (hmark : ∀ value ∈ others, ∀ piece taken f, piece.Same mark → SameAll taken (print value) →
      Reads bound separator [piece] (taken ++ f) true)
    (hstops : ∀ value ∈ first :: others, ∀ next ∈ others, ∀ piece taken f, piece.Same mark →
      SameAll taken (print next) → stops value (piece :: taken ++ f))
    (hend : Reads bound separator [] f false)
    (hlast : ∀ last ∈ (first :: others).getLast?, stops last f)
    (hsame : SameAll taken (rowsBy mark ((first :: others).map print))) :
    Reads bound (Reader.separated separator item) taken f (first :: others) := by
  rw [List.map_cons, rowsBy_cons, List.flatMap_map] at hsame
  obtain ⟨front, back, rfl, hfront, hback⟩ := hsame.split
  -- the rest of the row, behind an item
  suffices hmany : stops first (back ++ f) ∧
      Reads bound (Reader.many (Reader.optional separator item)) back f others from
    (hitem first List.mem_cons_self _ _ hfront hmany.1).bind (hmany.2.map (first :: ·))
  clear hsame hfront front
  induction others generalizing first back with
  | nil =>
    cases hback
    exact ⟨hlast first rfl, Reads.many_nil (Reads.optional_none hend)⟩
  | cons next others ih =>
    rw [List.flatMap_cons] at hback
    obtain ⟨front, more, rfl, hfront, hmore⟩ := SameAll.split hback
    obtain ⟨piece, taken, hpiece, hnext, rfl⟩ := List.forall₂_cons_right_iff.1 hfront
    obtain ⟨hbehind, hmany⟩ := ih
      (fun value hvalue => hitem value (List.mem_cons_of_mem _ hvalue))
      (fun value hvalue => hmark value (List.mem_cons_of_mem _ hvalue))
      (fun value hvalue other hother =>
        hstops value (List.mem_cons_of_mem _ hvalue) other (List.mem_cons_of_mem _ hother))
      (fun last h => hlast last (by rw [List.getLast?_cons_cons]; exact h)) more hmore
    refine ⟨?_, ?_⟩
    · rw [List.append_assoc]
      exact hstops first List.mem_cons_self next List.mem_cons_self piece taken _ hpiece hnext
    · refine Reads.many_cons ?_ hmany
      have hvalue := hitem next (by simp) taken _ hnext hbehind
      exact (hmark next List.mem_cons_self piece taken _ hpiece hnext).optional_some hvalue

theorem reads_dotBeforeIdentifier_true {piece next : Piece} {rest : List Piece}
    (hdot : piece.isSymbol "." = true) (hnext : next.isIdentifier = true) :
    Reads bound dotBeforeIdentifier [piece] (next :: rest) true := by
  apply reads_skipIf_true
  intro stream hpieces
  rw [TokenStream.symbolAt_eq, TokenStream.identifierAt_eq, hpieces, pieceAt_zero, pieceAt_one,
    pieceAt_zero, hdot, hnext]
  rfl

theorem reads_dotBeforeIdentifier_false {f : List Piece} (h : dotName f = false) :
    Reads bound dotBeforeIdentifier [] f false := by
  apply reads_skipIf_false
  intro stream hpieces
  rw [TokenStream.symbolAt_eq, TokenStream.identifierAt_eq, hpieces]
  exact h

theorem reads_bracketPairs {pairs : Nat} {taken f : List Piece} (hf : emptyBrackets f = false)
    (h : SameAll taken ((List.replicate pairs ['[', ']']).flatten.map fun c => .symbol [c])) :
    Reads bound (Reader.many bracketPair) taken f (List.replicate pairs ['[', ']']) := by
  induction pairs generalizing taken with
  | zero =>
    cases h
    apply Reads.many_nil
    intro stream _ hpieces
    unfold bracketPair
    rw [Reader.bind_of_ok (look_eq_ok.2 ⟨rfl, rfl⟩), TokenStream.symbolAt_eq,
      TokenStream.symbolAt_eq, hpieces]
    show (if emptyBrackets f = true then _ else _ : Grammar (Option Text)) stream = _
    rw [hf]
    rfl
  | succ pairs ih =>
    rw [List.replicate_succ, List.flatten_cons, List.map_append] at h
    obtain ⟨front, back, rfl, hfront, hback⟩ := SameAll.split h
    obtain ⟨opening, _, hopening, hpair, rfl⟩ := List.forall₂_cons_right_iff.1 hfront
    obtain ⟨closing, _, hclosing, hnil, rfl⟩ := List.forall₂_cons_right_iff.1 hpair
    cases hnil
    refine Reads.many_cons ?_ (ih hback)
    intro stream _ hpieces
    have hpair : (stream.symbolAt 0 "[" && stream.symbolAt 1 "]") = true := by
      rw [TokenStream.symbolAt_eq, TokenStream.symbolAt_eq, hpieces]
      simp only [List.cons_append, pieceAt_zero, pieceAt_one, Bool.and_eq_true, Piece.isSymbol_iff]
      exact ⟨⟨hopening.kind, hopening.text⟩, hclosing.kind, hclosing.text⟩
    unfold bracketPair
    rw [Reader.bind_of_ok (look_eq_ok.2 ⟨rfl, rfl⟩), hpair]
    rfl

/-- Every type stops in front of a symbol that is none of those of types. -/
theorem stops_of_same {piece : Piece} {text : Text} (h : piece.Same (.symbol text))
    (htext : text ∉ ["[", ".", "<"].map String.toList) (type : TypeRef) (rest : List Piece) :
    type.Stops (piece :: rest) := by
  refine TypeRef.stops_of_head rest type ?_
  refine (Piece.respects_isSymbolIn _ _ _ h.matches).trans ?_
  show (["[", ".", "<"].map String.toList).any (Piece.symbol text).isSymbol = false
  rw [List.any_eq_false]
  intro symbol hsymbol
  simp only [Piece.isSymbol_iff, Piece.symbol, true_and]
  rintro rfl
  exact htext hsymbol

theorem Same.isSymbol {piece : Piece} {text : Text} (h : piece.Same (.symbol text)) :
    piece.isSymbol text = true :=
  Piece.isSymbol_iff.2 ⟨h.kind, h.text⟩

/-- A name is read from its own pieces, if its type arguments are. -/
theorem reads_typeName {inner : Grammar TypeRef} {name : TypeName} {taken f : List Piece}
    (hinner : ∀ type ∈ name.arguments, ∀ taken f, SameAll taken type.pieces → type.Stops f →
      Reads bound inner taken f type)
    (hname : name.WellFormed) (h : SameAll taken name.pieces) (hf : name.Stops f) :
    Reads (bound + 1) (typeName inner) taken f name := by
  obtain ⟨text, arguments⟩ := name
  have hword : ∀ {piece : Piece} {rest : List Piece}, piece.Same (.word text) →
      Reads (bound + 1) identifier [piece] rest text := by
    intro piece rest hpiece
    have hidentifier : piece.isIdentifier = true := by
      rw [Piece.respects_isIdentifier _ _ hpiece.matches]
      exact hname.identifier
    have hreads : Reads (bound + 1) identifier [piece] rest piece.text :=
      reads_identifier hidentifier
    rw [hpiece.text] at hreads
    exact hreads
  cases arguments with
  | nil =>
    rw [TypeName.pieces] at h
    obtain ⟨piece, _, hpiece, hnil, rfl⟩ := List.forall₂_cons_right_iff.1 h
    cases hnil
    have hplain : Reads (bound + 1) (typeArguments inner) [] f [] :=
      (reads_takeSymbol_false (hf rfl)).bind_nothing (Reads.pure [])
    have hboth : Reads (bound + 1) (typeName inner) ([piece] ++ []) f ⟨text, []⟩ :=
      (hword hpiece).bind (hplain.map fun arguments => (⟨text, arguments⟩ : TypeName))
    exact hboth
  | cons first others =>
    rw [TypeName.pieces, TypeRef.piecesAll_eq_map] at h
    obtain ⟨piece, _, hpiece, hbehind, rfl⟩ := List.forall₂_cons_right_iff.1 h
    obtain ⟨opening, _, hopening, hinside, rfl⟩ := List.forall₂_cons_right_iff.1 hbehind
    obtain ⟨row, _, rfl, hrow, hclosing⟩ := SameAll.split hinside
    obtain ⟨closing, _, hgreater, hnil, rfl⟩ := List.forall₂_cons_right_iff.1 hclosing
    cases hnil
    have hclosing : closing.Same (.symbol ">") := ⟨hgreater.kind, hgreater.text⟩
    have hlist : Reads bound (commaSeparated inner) row ([closing] ++ f) (first :: others) := by
      refine reads_separated hinner ?_ ?_ ?_ ?_ hrow
      · intro _ _ mark _ _ hmark _
        exact reads_takeSymbol_true (Same.isSymbol hmark)
      · intro type _ _ _ mark taken f hmark _
        exact stops_of_same hmark (by decide) type (taken ++ f)
      · apply reads_takeSymbol_false
        have hcomma := Piece.isSymbol_eq_false (Same.isSymbol hclosing)
          (show String.toList ">" ≠ String.toList "," by decide)
        simpa using hcomma
      · intro last _
        exact stops_of_same hclosing (by decide) last f
    have harguments : Reads (bound + 1) (typeArguments inner) (opening :: (row ++ [closing])) f
        (first :: others) := by
      refine (reads_takeSymbol_true (Same.isSymbol hopening)).bind_less ?_
      exact hlist.bind ((reads_symbol (Same.isSymbol hclosing)).map fun _ => first :: others)
    exact (hword hpiece).bind
      (harguments.map fun arguments => (⟨text, arguments⟩ : TypeName))

/-- A name begins with an identifier. -/
theorem TypeName.exists_identifier {name : TypeName} {taken : List Piece} (hname : name.WellFormed)
    (h : SameAll taken name.pieces) :
    ∃ word more, taken = word :: more ∧ word.isIdentifier = true := by
  obtain ⟨text, arguments⟩ := name
  have hhead : ∃ more, TypeName.pieces ⟨text, arguments⟩ = .word text :: more := by
    cases arguments with
    | nil => exact ⟨[], by rw [TypeName.pieces]⟩
    | cons first others => exact ⟨_, by rw [TypeName.pieces]; rfl⟩
  obtain ⟨more, hhead⟩ := hhead
  rw [hhead] at h
  obtain ⟨word, others, hword, -, rfl⟩ := List.forall₂_cons_right_iff.1 h
  refine ⟨word, others, rfl, ?_⟩
  rw [Piece.respects_isIdentifier _ _ hword.matches]
  exact hname.identifier

/-- A type reference is read from its own pieces. -/
theorem reads_typeRef (type : TypeRef) : type.WellFormed → ∀ bound taken f,
    SameAll taken type.pieces → type.Stops f → Reads bound typeRef taken f type := by
  induction type using TypeRef.induction with
  | type segments suffix ih =>
  intro htype bound taken f h hf
  obtain ⟨hne, hnames, pairs, rfl⟩ := (TypeRef.wellFormed_iff _ _).1 htype
  obtain ⟨first, others, rfl⟩ := List.exists_cons_of_ne_nil hne
  rw [TypeRef.pieces, TypeName.piecesAll_eq_map] at h
  obtain ⟨row, brackets, rfl, hrow, hbrackets⟩ := SameAll.split h
  -- a bracket ends the names as well
  have hbehind : dotName (brackets ++ f) = false ∧
      ∀ last ∈ (first :: others).getLast?, last.Stops (brackets ++ f) := by
    cases pairs with
    | zero =>
      cases hbrackets
      exact ⟨hf.dot rfl, hf.name rfl⟩
    | succ pairs =>
      obtain ⟨opening, _, hopening, -, rfl⟩ := List.forall₂_cons_right_iff.1 hbrackets
      have hsymbol : opening.isSymbol ['['] = true := Same.isSymbol hopening
      refine ⟨?_, fun last _ _ => ?_⟩
      · unfold dotName
        rw [List.cons_append, pieceAt_zero, Piece.isSymbol_eq_false hsymbol (by decide),
          Bool.false_and]
      · rw [List.cons_append, pieceAt_zero, Piece.isSymbol_eq_false hsymbol (by decide)]
  refine Reads.recursive ?_ bound
  intro bound
  -- type arguments stand behind a name, where less is left
  have hname : ∀ name ∈ first :: others, ∀ taken f, SameAll taken name.pieces → name.Stops f →
      Reads (bound + 1) (typeName (Reader.below bound typeRef)) taken f name := by
    intro name hmem taken f
    refine reads_typeName ?_ (hnames name hmem)
    intro type harguments taken f hsame hstops
    refine Reads.below fun bound => ?_
    exact ih name hmem type harguments ((hnames name hmem).arguments type harguments) bound taken f
      hsame hstops
  have hsegments : Reads (bound + 1) (Reader.separated dotBeforeIdentifier
      (typeName (Reader.below bound typeRef))) row (brackets ++ f) (first :: others) := by
    refine reads_separated hname ?_ ?_ ?_ ?_ hrow
    · intro next hmem piece taken f hpiece hnext
      obtain ⟨word, more, rfl, hidentifier⟩ :=
        TypeName.exists_identifier (hnames next (List.mem_cons_of_mem _ hmem)) hnext
      exact reads_dotBeforeIdentifier_true (Same.isSymbol hpiece) hidentifier
    · intro name _ next _ piece taken f hpiece _ _
      have hless := Piece.isSymbol_eq_false (Same.isSymbol hpiece)
        (show String.toList "." ≠ String.toList "<" by decide)
      simpa using hless
    · exact reads_dotBeforeIdentifier_false (hbehind.1)
    · exact hbehind.2
  exact hsegments.bind ((reads_bracketPairs hf.brackets hbrackets).map fun pairs =>
    (⟨first :: others, pairs.flatten⟩ : TypeRef))

theorem replay_typeRef {type : TypeRef} (h : typeRef source = .ok type rest) :
    Replay bound typeRef source.pieces rest.pieces [.type type] type := by
  intro _ _
  obtain ⟨hwell, ⟨taken, htaken, hsame⟩, hstops⟩ := typeRef_ok _ _ _ h
  have hspell : spell [.type type] = type.pieces := by simp [Part.pieces]
  refine ⟨⟨by simpa [Part.WellFormed] using hwell, taken, htaken, ?_⟩, fun f hf => ?_⟩
  · rw [hspell]
    exact hsame.matchAll
  · rw [hspell]
    exact reads_typeRef type hwell bound _ f (SameAll.refl _)
      ((TypeRef.stops_similar hf).1 hstops)

end Grammar

/-! ## Types inside what matches -/

/-- The symbols that occur in types. -/
def typeSymbols : List Text := [".", "<", ">", ",", "[", "]"].map String.toList

/-- A piece that may occur in a type. -/
def Piece.inType (piece : Piece) : Bool := piece.isIdentifier || piece.isSymbolIn typeSymbols

theorem Piece.inType_symbol {text : Text} (h : text ∈ typeSymbols) (glued : Bool) :
    Piece.inType ⟨.symbol, text, glued⟩ = true := by
  unfold Piece.inType Piece.isSymbolIn
  rw [Bool.or_eq_true, List.any_eq_true]
  exact .inr ⟨text, h, by simp [Piece.isSymbol]⟩

/-- A type consists of identifiers and the symbols of types. -/
theorem TypeRef.inType_of_mem (type : TypeRef) :
    type.WellFormed → ∀ piece ∈ type.pieces, piece.inType = true := by
  induction type using TypeRef.induction with
  | type segments suffix ih =>
  intro htype piece hpiece
  obtain ⟨-, hnames, pairs, rfl⟩ := (TypeRef.wellFormed_iff _ _).1 htype
  rw [TypeRef.pieces, TypeName.piecesAll_eq_map, List.mem_append] at hpiece
  rcases hpiece with hpiece | hpiece
  · rcases mem_rowsBy hpiece with rfl | ⟨row, hrow, hpiece⟩
    · exact Piece.inType_symbol (by decide) false
    · obtain ⟨⟨name, arguments⟩, hname, rfl⟩ := List.mem_map.1 hrow
      have hidentifier : (Piece.word name).inType = true := by
        unfold Piece.inType
        rw [(hnames _ hname).identifier, Bool.true_or]
      cases arguments with
      | nil =>
        rw [TypeName.pieces, List.mem_singleton] at hpiece
        rw [hpiece, hidentifier]
      | cons first others =>
        rw [TypeName.pieces, TypeRef.piecesAll_eq_map] at hpiece
        simp only [List.cons_append, List.mem_cons, List.mem_append, List.not_mem_nil,
          or_false] at hpiece
        rcases hpiece with rfl | rfl | hpiece | rfl
        · exact hidentifier
        · exact Piece.inType_symbol (by decide) false
        · rcases mem_rowsBy hpiece with rfl | ⟨row, hrow, hpiece⟩
          · exact Piece.inType_symbol (by decide) false
          · obtain ⟨type, htype, rfl⟩ := List.mem_map.1 hrow
            exact ih _ hname type htype ((hnames _ hname).arguments type htype) piece hpiece
        · exact Piece.inType_symbol (by decide) true
  · obtain ⟨c, hc, rfl⟩ := List.mem_map.1 hpiece
    obtain ⟨pair, hpair, hc⟩ := List.mem_flatten.1 hc
    rw [List.eq_of_mem_replicate hpair] at hc
    rcases List.mem_pair.1 hc with rfl | rfl
    · exact Piece.inType_symbol (by decide) false
    · exact Piece.inType_symbol (by decide) false

/-- Printing changes nothing inside a type. -/
theorem Piece.Matches.same_of_inType {source printed : Piece} (h : source.Matches printed)
    (hprinted : printed.inType = true) : source.Same printed := by
  unfold Piece.inType at hprinted
  rw [Bool.or_eq_true] at hprinted
  rcases hprinted with hprinted | hprinted
  · exact h.same_of_identifier hprinted
  · refine h.same_of_kind ?_
    unfold Piece.isSymbolIn at hprinted
    obtain ⟨text, -, htext⟩ := List.any_eq_true.1 hprinted
    rw [(Piece.isSymbol_iff.1 htext).1]
    decide

/-- A symbol that no type contains. -/
def Piece.isFence (piece : Piece) : Bool :=
  piece.kind == .symbol && !piece.isSymbolIn typeSymbols

theorem Piece.isFence_of_symbol {piece : Piece} {text : Text} (h : piece.isSymbol text = true)
    (htext : text ∉ typeSymbols) : piece.isFence = true := by
  obtain ⟨hkind, rfl⟩ := Piece.isSymbol_iff.1 h
  unfold Piece.isFence Piece.isSymbolIn
  rw [hkind, Bool.and_eq_true, Bool.not_eq_true', List.any_eq_false]
  refine ⟨rfl, fun symbol hsymbol => ?_⟩
  rw [Piece.isSymbol_iff]
  rintro ⟨-, rfl⟩
  exact htext hsymbol

theorem Piece.not_inType_of_isFence {piece : Piece} (h : piece.isFence = true) :
    piece.inType = false := by
  unfold Piece.isFence at h
  simp only [Bool.and_eq_true, beq_iff_eq, Bool.not_eq_true'] at h
  unfold Piece.inType Piece.isIdentifier
  rw [h.1, h.2]
  rfl

theorem Piece.isStop_of_isFence {piece : Piece} (h : piece.isFence = true) :
    piece.isStop = true := by
  unfold Piece.isFence Piece.isSymbolIn typeSymbols at h
  simp only [Bool.and_eq_true, Bool.not_eq_true', List.any_eq_false] at h
  unfold Piece.isStop
  simp only [Bool.and_eq_true, Bool.not_eq_true', ← Bool.not_eq_true]
  exact ⟨⟨h.1, h.2 _ (by decide)⟩, h.2 _ (by decide)⟩

/-- Matching pieces with a fence among them look alike, whatever stands behind them. -/
theorem Similar.of_fence {p q : List Piece} (h : MatchAll p q)
    (hfence : ∃ piece ∈ q, piece.isFence = true) (s f : List Piece) :
    Similar (p ++ s) (q ++ f) := by
  induction h with
  | nil => simp at hfence
  | @cons source printed p q hhead htail ih =>
    cases hstop : source.isStop with
    | true => exact .stop hhead hstop
    | false =>
      refine .cons hhead (ih ?_)
      obtain ⟨piece, hpiece, hfence⟩ := hfence
      rcases List.mem_cons.1 hpiece with rfl | hpiece
      · -- the first piece itself is no fence, for then its source would stop
        have hprinted := Piece.isStop_of_isFence hfence
        unfold Piece.isStop at hstop hprinted
        rw [hhead.kind, hhead.isSymbol, hhead.isSymbol, hprinted] at hstop
        exact absurd hstop (by decide)
      · exact ⟨piece, hpiece, hfence⟩

theorem MatchAll.split {p q q' : List Piece} (h : MatchAll p (q ++ q')) :
    ∃ front back, p = front ++ back ∧ MatchAll front q ∧ MatchAll back q' :=
  ⟨_, _, (List.take_append_drop q.length p).symm, List.forall₂_take_append _ _ _ h,
    List.forall₂_drop_append _ _ _ h⟩

theorem Piece.respects_inType : Piece.Respects Piece.inType := by
  intro source printed h
  have hsymbols := Piece.respects_isSymbolIn typeSymbols source printed h
  simp only at hsymbols
  unfold Piece.inType
  rw [Piece.respects_isIdentifier source printed h, hsymbols]

theorem MatchAll.inType {p q : List Piece} (h : MatchAll p q)
    (hq : ∀ piece ∈ q, piece.inType = true) : ∀ piece ∈ p, piece.inType = true := by
  induction h with
  | nil => simp
  | cons hhead _ ih =>
    obtain ⟨hfirst, hothers⟩ := List.forall_mem_cons.1 hq
    refine List.forall_mem_cons.2 ⟨?_, ih hothers⟩
    rw [Piece.respects_inType _ _ hhead]
    exact hfirst

/-- Printing changes nothing inside a type. -/
theorem MatchAll.sameAll {p q : List Piece} (h : MatchAll p q)
    (hq : ∀ piece ∈ q, piece.inType = true) : SameAll p q := by
  induction h with
  | nil => exact .nil
  | cons hhead _ ih =>
    obtain ⟨hfirst, hothers⟩ := List.forall_mem_cons.1 hq
    exact .cons (hhead.same_of_inType hfirst) (ih hothers)

theorem SameAll.trans {p q r : List Piece} (h : SameAll p q) (h' : SameAll q r) : SameAll p r := by
  induction h generalizing r with
  | nil => exact h'
  | cons hhead _ ih =>
    obtain ⟨piece, rest, hpiece, hrest, rfl⟩ := List.forall₂_cons_left_iff.1 h'
    exact .cons ⟨hhead.kind.trans hpiece.kind, hhead.text.trans hpiece.text⟩ (ih hrest)

/-- A type that is read from printed pieces with a fence among them is also read from the source
that they match. -/
theorem Grammar.typeRef_transfer {source printed last : TokenStream} {type : TypeRef}
    {p q s f : List Piece} (h : Grammar.typeRef printed = .ok type last)
    (hsource : source.pieces = p ++ s) (hprinted : printed.pieces = q ++ f) (hmatch : MatchAll p q)
    (hfence : ∃ piece ∈ q, piece.isFence = true) :
    ∃ p' q' middle, Grammar.typeRef source = .ok type middle ∧ middle.pieces = p' ++ s ∧
      last.pieces = q' ++ f ∧ MatchAll p' q' ∧ ∃ piece ∈ q', piece.isFence = true := by
  obtain ⟨hwell, ⟨taken, htaken, hsame⟩, hstops⟩ := Grammar.typeRef_ok _ _ _ h
  have hplain := hsame.matchAll.inType (type.inType_of_mem hwell)
  -- the type has no fence, so it ends before the first one
  have hopen : ∀ piece ∈ taken, piece.isFence ≠ true := by
    intro piece hpiece hfence
    have hinside := hplain piece hpiece
    rw [Piece.not_inType_of_isFence hfence] at hinside
    exact absurd hinside (by decide)
  obtain ⟨fence, hmem, hfence⟩ := hfence
  rw [hprinted] at htaken
  rcases List.append_eq_append_iff.1 htaken with ⟨more, rfl, -⟩ | ⟨q', rfl, hlast⟩
  · exact absurd hfence (hopen fence (List.mem_append_left more hmem))
  · obtain ⟨front, p', rfl, hfront, hback⟩ := hmatch.split
    have hbehind : ∃ piece ∈ q', piece.isFence = true := by
      rcases List.mem_append.1 hmem with hmem | hmem
      · exact absurd hfence (hopen fence hmem)
      · exact ⟨fence, hmem, hfence⟩
    have hsame := (hfront.sameAll hplain).trans hsame
    have hsimilar := Similar.of_fence hback hbehind s f
    rw [hlast] at hstops
    have hrun := reads_typeRef type hwell (source.remaining + 1) front (p' ++ s) hsame
      ((TypeRef.stops_similar hsimilar).2 hstops) source (Nat.lt_succ_self _)
      (by rw [hsource, List.append_assoc])
    refine ⟨p', q', _, hrun, ?_, hlast, hback, hbehind⟩
    exact source.pieces_skip_append (by rw [hsource, List.append_assoc])

end ApexLayout
