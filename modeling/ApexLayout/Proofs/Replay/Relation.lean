import ApexLayout.Proofs.Parts
import ApexLayout.Proofs.Replay.Basic

/-!
Runs of a rule on the source, played again on what is printed.

`Replay` relates a run that took the pieces between `source` and `rest` to the parts that are
printed for its result: the parts match what was taken, and the rule reads the result back from
them in front of everything that looks like `rest`. Replays compose as rules do.
-/

namespace ApexLayout

/-- The piece could come from a source: its first character tells its kind, and a symbol is one of
the known ones. -/
structure Piece.Regular (piece : Piece) : Prop where
  kind : piece.kind = TokenKind.ofText piece.text
  symbol : piece.kind = .symbol → piece.text ∈ Scan.symbols

mutual

/-- A type reference that can be read: it has names, and what stands behind them is pairs of
brackets. -/
def TypeRef.WellFormed : TypeRef → Prop
  | ⟨segments, suffix⟩ =>
    segments ≠ [] ∧ TypeName.WellFormedAll segments ∧
      ∃ pairs, suffix = (List.replicate pairs ['[', ']']).flatten

/-- Names of a type reference that are identifiers. -/
def TypeName.WellFormedAll : List TypeName → Prop
  | [] => True
  | ⟨name, arguments⟩ :: rest =>
    ((Piece.word name).isIdentifier = true ∧ TypeRef.WellFormedAll arguments) ∧
      TypeName.WellFormedAll rest

/-- Type references that can be read. -/
def TypeRef.WellFormedAll : List TypeRef → Prop
  | [] => True
  | type :: rest => type.WellFormed ∧ TypeRef.WellFormedAll rest

end

/-- A name of a type reference that is an identifier, with type arguments that can be read. -/
structure TypeName.WellFormed (name : TypeName) : Prop where
  identifier : (Piece.word name.name).isIdentifier = true
  arguments : ∀ type ∈ name.arguments, type.WellFormed

theorem TypeRef.wellFormedAll_iff (types : List TypeRef) :
    TypeRef.WellFormedAll types ↔ ∀ type ∈ types, type.WellFormed := by
  induction types with
  | nil => simp [TypeRef.WellFormedAll]
  | cons type rest ih => rw [TypeRef.WellFormedAll, ih, List.forall_mem_cons]

theorem TypeName.wellFormedAll_iff (names : List TypeName) :
    TypeName.WellFormedAll names ↔ ∀ name ∈ names, name.WellFormed := by
  induction names with
  | nil => simp [TypeName.WellFormedAll]
  | cons name rest ih =>
    obtain ⟨name, arguments⟩ := name
    rw [TypeName.WellFormedAll, ih, List.forall_mem_cons, TypeRef.wellFormedAll_iff]
    exact and_congr_left fun _ => ⟨fun h => ⟨h.1, h.2⟩, fun h => ⟨h.identifier, h.arguments⟩⟩

theorem TypeRef.wellFormed_iff (segments : List TypeName) (suffix : Text) :
    TypeRef.WellFormed ⟨segments, suffix⟩ ↔ segments ≠ [] ∧ (∀ name ∈ segments, name.WellFormed) ∧
      ∃ pairs, suffix = (List.replicate pairs ['[', ']']).flatten := by
  rw [TypeRef.WellFormed, TypeName.wellFormedAll_iff]

/-- The operators between two operands. -/
def Operators.between : List Text :=
  BinaryOperator.all.map BinaryOperator.text ++ assignments ++
    [[ '>', '>', '=' ], [ '>', '>', '>', '=' ]]

/-- A part that can be read where it stands. -/
def Part.WellFormed : Part → Prop
  | .piece token => token.glued = false
  | .literal text => TokenKind.ofText text ≠ .symbol
  | .operator text => text ∈ Operators.between
  | .leading text => text ∈ Operators.leading
  | .trailing text => text ∈ Operators.trailing
  | .type reference => reference.WellFormed
  | .modifier _ | .query => False

/-- The parts are the printed form of what stands between two places of the source. -/
structure Printed (source rest : List Piece) (parts : List Part) : Prop where
  wellFormed : ∀ part ∈ parts, part.WellFormed
  matched : ∃ taken, source = taken ++ rest ∧ MatchAll taken (spell parts)

namespace Printed

variable {source middle rest : List Piece} {parts more : List Part}

theorem nil (source : List Piece) : Printed source source [] :=
  ⟨by simp, [], rfl, .nil⟩

theorem trans (h : Printed source middle parts) (h' : Printed middle rest more) :
    Printed source rest (parts ++ more) := by
  obtain ⟨taken, htaken, hmatch⟩ := h.matched
  obtain ⟨taken', htaken', hmatch'⟩ := h'.matched
  refine ⟨?_, taken ++ taken', ?_, ?_⟩
  · intro part hpart
    rcases List.mem_append.1 hpart with hpart | hpart
    · exact h.wellFormed part hpart
    · exact h'.wellFormed part hpart
  · rw [htaken, htaken', List.append_assoc]
  · rw [spell_append]
    exact hmatch.append hmatch'

theorem one {source printed : Piece} (h : source.Matches printed) (rest : List Piece)
    (hplain : printed.glued = false := by rfl) :
    Printed (source :: rest) rest [.piece printed] :=
  ⟨by simpa [Part.WellFormed] using hplain, [source], rfl, .cons h .nil⟩

/-- What stands behind a printed row is part of the source. -/
theorem mem_of_mem (h : Printed source rest parts) {piece : Piece} (hpiece : piece ∈ rest) :
    piece ∈ source := by
  obtain ⟨taken, rfl, -⟩ := h.matched
  exact List.mem_append_right taken hpiece

/-- Printed parts look like the source they come from. -/
theorem similar (h : Printed source rest parts) {f : List Piece} (hf : Similar rest f) :
    Similar source (spell parts ++ f) := by
  obtain ⟨taken, rfl, hmatch⟩ := h.matched
  exact Similar.append hmatch hf

theorem length_eq (h : Printed source rest parts) :
    source.length = (spell parts).length + rest.length := by
  obtain ⟨taken, rfl, hmatch⟩ := h.matched
  rw [List.length_append, hmatch.length_eq]

/-- Only an empty row is printed for nothing. -/
theorem spell_ne_nil (h : Printed source rest parts) (hless : rest.length < source.length) :
    ∃ piece pieces, spell parts = piece :: pieces := by
  have hlength := h.length_eq
  cases hspell : spell parts with
  | nil => rw [hspell, List.length_nil] at hlength; omega
  | cons piece pieces => exact ⟨piece, pieces, rfl⟩

end Printed

/-- Two places that look alike to every rule. -/
abbrev Follow := List Piece → List Piece → Prop

variable {α β : Type}

/-- A run between two places of the source can be played again on the printed parts, in front of
everything that follows `rest`. -/
def ReplayBy (follow : Follow) (bound : Nat) (rule : Grammar α) (source rest : List Piece)
    (parts : List Part) (value : α) : Prop :=
  (∀ piece ∈ source, piece.Regular) → .query ∉ parts →
    Printed source rest parts ∧
      ∀ f, follow rest f → Grammar.Reads bound rule (spell parts) f value

/-- A run that can be played again in front of everything that looks like the source. -/
abbrev Replay (bound : Nat) (rule : Grammar α) (source rest : List Piece) (parts : List Part)
    (value : α) : Prop :=
  ReplayBy Similar bound rule source rest parts value

namespace ReplayBy

open Grammar (Reads)

variable {follow follow' : Follow} {bound inner : Nat} {source middle rest : List Piece}
  {parts more : List Part}

theorem mono {rule : Grammar α} {value : α}
    (h : ReplayBy follow bound rule source rest parts value)
    (hfollow : ∀ f, follow' rest f → follow rest f) :
    ReplayBy follow' bound rule source rest parts value := by
  intro hsource hquery
  obtain ⟨hprinted, hreads⟩ := h hsource hquery
  exact ⟨hprinted, fun f hf => hreads f (hfollow f hf)⟩

theorem mono_bound {rule : Grammar α} {value : α}
    (h : ReplayBy follow bound rule source rest parts value) (hle : inner ≤ bound) :
    ReplayBy follow inner rule source rest parts value := by
  intro hsource hquery
  obtain ⟨hprinted, hreads⟩ := h hsource hquery
  exact ⟨hprinted, fun f hf => (hreads f hf).mono hle⟩

/-- Replays of two parts of a sequence, the second bounded by what the first leaves. The first has
to allow for what is printed for the second. -/
theorem bind_of_le {first : Grammar α} {next : α → Grammar β} {a : α} {b : β}
    (hfirst : ReplayBy follow bound first source middle parts a)
    (hnext : ReplayBy follow' inner (next a) middle rest more b)
    (hfollow : (∀ piece ∈ middle, piece.Regular) → .query ∉ more → Printed middle rest more →
      ∀ f, follow' rest f → follow middle (spell more ++ f))
    (hle : bound ≤ inner + (spell parts).length) :
    ReplayBy follow' bound (first >>= next) source rest (parts ++ more) b := by
  intro hsource hquery
  simp only [List.mem_append, not_or] at hquery
  obtain ⟨hprinted, hreads⟩ := hfirst hsource hquery.1
  have hmiddle : ∀ piece ∈ middle, piece.Regular :=
    fun piece hpiece => hsource piece (hprinted.mem_of_mem hpiece)
  obtain ⟨hprinted', hreads'⟩ := hnext hmiddle hquery.2
  refine ⟨hprinted.trans hprinted', fun f hf => ?_⟩
  rw [spell_append]
  exact (hreads _ (hfollow hmiddle hquery.2 hprinted' f hf)).bind_of_le (hreads' f hf) hle

theorem map {rule : Grammar α} {a : α} (h : ReplayBy follow bound rule source rest parts a)
    (f : α → β) :
    ReplayBy follow bound (rule >>= fun a => Pure.pure (f a)) source rest parts (f a) := by
  intro hsource hquery
  obtain ⟨hprinted, hreads⟩ := h hsource hquery
  exact ⟨hprinted, fun g hg => (hreads g hg).map f⟩

theorem attempt {rule : Grammar α} {value : α}
    (h : ReplayBy follow bound rule source rest parts value) :
    ReplayBy follow bound (Reader.attempt rule) source rest parts (some value) := by
  intro hsource hquery
  obtain ⟨hprinted, hreads⟩ := h hsource hquery
  exact ⟨hprinted, fun f hf => (hreads f hf).attempt⟩

/-- Other parts with the same pieces do as well. -/
theorem respell {rule : Grammar α} {value : α} {parts' : List Part}
    (h : ReplayBy follow bound rule source rest parts value) (hspell : spell parts' = spell parts)
    (hwell : ∀ part ∈ parts', part.WellFormed) (hquery : .query ∉ parts) :
    ReplayBy follow bound rule source rest parts' value := by
  intro hsource _
  obtain ⟨⟨-, hmatched⟩, hreads⟩ := h hsource hquery
  rw [← hspell] at hmatched hreads
  exact ⟨⟨hwell, hmatched⟩, hreads⟩

/-- A result that is returned at once takes nothing more. -/
theorem bind_pure {first : Grammar α} {next : α → Grammar β} {a : α} {b : β}
    (h : ReplayBy follow bound first source rest parts a) (hnext : next a = Pure.pure b) :
    ReplayBy follow bound (first >>= next) source rest parts b := by
  intro hsource hquery
  obtain ⟨hprinted, hreads⟩ := h hsource hquery
  refine ⟨hprinted, fun f hf stream hbound hpieces => ?_⟩
  rw [Reader.bind_of_ok (hreads f hf stream hbound hpieces), hnext]
  rfl

end ReplayBy

namespace Replay

open Grammar (Reads)

variable {follow : Follow} {bound : Nat} {source middle rest : List Piece} {parts more : List Part}

theorem bind {first : Grammar α} {next : α → Grammar β} {a : α} {b : β}
    (hfirst : Replay bound first source middle parts a)
    (hnext : Replay bound (next a) middle rest more b) :
    Replay bound (first >>= next) source rest (parts ++ more) b :=
  ReplayBy.bind_of_le hfirst hnext (fun _ _ hprinted _ hf => hprinted.similar hf) (by omega)

/-- The second part may ask for more of what follows. -/
theorem bind_by {first : Grammar α} {next : α → Grammar β} {a : α} {b : β}
    (hfirst : Replay bound first source middle parts a)
    (hnext : ReplayBy follow bound (next a) middle rest more b)
    (hfollow : ∀ f, follow rest f → Similar rest f) :
    ReplayBy follow bound (first >>= next) source rest (parts ++ more) b :=
  ReplayBy.bind_of_le hfirst hnext (fun _ _ hprinted f hf => hprinted.similar (hfollow f hf))
    (by omega)

/-- A first part that takes nothing leaves everything to the second. -/
theorem bind_nothing {first : Grammar α} {next : α → Grammar β} {a : α} {b : β}
    (hfirst : Replay bound first source middle [] a)
    (hnext : Replay bound (next a) middle rest parts b) :
    Replay bound (first >>= next) source rest parts b :=
  hfirst.bind hnext

/-- Behind a part that was read, less is left. -/
theorem bind_less_by {first : Grammar α} {next : α → Grammar β} {a : α} {b : β} {piece : Piece}
    (hfirst : Replay (bound + 1) first source middle [.piece piece] a)
    (hnext : ReplayBy follow bound (next a) middle rest parts b)
    (hfollow : ∀ f, follow rest f → Similar rest f) :
    ReplayBy follow (bound + 1) (first >>= next) source rest (.piece piece :: parts) b :=
  ReplayBy.bind_of_le hfirst hnext (fun _ _ hprinted f hf => hprinted.similar (hfollow f hf))
    (by simp [Part.pieces])

theorem bind_less {first : Grammar α} {next : α → Grammar β} {a : α} {b : β} {piece : Piece}
    (hfirst : Replay (bound + 1) first source middle [.piece piece] a)
    (hnext : Replay bound (next a) middle rest parts b) :
    Replay (bound + 1) (first >>= next) source rest (.piece piece :: parts) b :=
  bind_less_by hfirst hnext fun _ hf => hf

theorem pure (value : α) : Replay bound (Pure.pure value) source source [] value := by
  intro _ _
  exact ⟨.nil source, fun f _ => Reads.pure value⟩

theorem optional_some {test : Grammar Bool} {rule : Grammar α} {value : α}
    (htest : Replay bound test source middle parts true)
    (hrule : Replay bound rule middle rest more value) :
    Replay bound (Reader.optional test rule) source rest (parts ++ more) (some value) :=
  bind htest (hrule.map some)

theorem optional_none {test : Grammar Bool} {rule : Grammar α}
    (htest : Replay bound test source rest parts false) :
    Replay bound (Reader.optional test rule) source rest parts none := by
  have h : Replay bound (Reader.optional test rule) source rest (parts ++ []) none :=
    bind htest (pure none)
  rwa [List.append_nil] at h

end Replay

/-! ## Single tokens -/

theorem Vocabulary.lower_printed : ∀ word ∈ printed, Text.lower word = word := by decide

/-- A symbol is printed as it was read. -/
theorem Piece.matches_symbol {piece : Piece} {text : Text} (h : piece.isSymbol text = true) :
    piece.Matches (.symbol text) :=
  ⟨(Piece.isSymbol_iff.1 h).1, .inl (Piece.isSymbol_iff.1 h).2⟩

/-- A word is printed as it was read. -/
theorem Piece.matches_word {piece : Piece} (h : piece.kind = .word) :
    piece.Matches (.word piece.text) :=
  ⟨h, .inl rfl⟩

/-- A keyword is printed in small letters. -/
theorem Piece.matches_keyword {piece : Piece} {text : Text} (h : piece.isWord text = true)
    (htext : text ∈ Vocabulary.printed) : piece.Matches (.word text) := by
  unfold Piece.isWord Text.sameWord at h
  simp only [Bool.and_eq_true, beq_iff_eq] at h
  refine ⟨h.1, .inr ⟨h.1, ?_, htext⟩⟩
  rw [h.2, Vocabulary.lower_printed text htext]
  rfl

namespace Grammar

variable {bound : Nat} {source rest : TokenStream}

/-- A token that is consumed, if the test says the same about all that looks alike. -/
theorem replay_skipIf_true {view : TokenStream → Bool} {test : List Piece → Bool} {printed : Piece}
    (hview : ∀ stream : TokenStream, view stream = test stream.pieces)
    (hsimilar : ∀ pieces pieces', Similar pieces pieces' → test pieces = test pieces')
    (hmatch : ∀ pieces, test pieces = true →
      ∃ piece rest, pieces = piece :: rest ∧ piece.Matches printed)
    (h : skipIf view source = .ok true rest) (hplain : printed.glued = false := by rfl) :
    Replay bound (skipIf view) source.pieces rest.pieces [.piece printed] true := by
  intro _ _
  obtain ⟨hfound, rfl⟩ := skipIf_eq_ok.1 h
  rw [hview] at hfound
  obtain ⟨piece, others, hpieces, hpiece⟩ := hmatch _ hfound
  have hrest : (source.skip 1).pieces = others := TokenStream.pieces_skip_one hpieces
  simp only [if_true, hrest]
  refine ⟨hpieces ▸ .one hpiece _ hplain, fun f hf => ?_⟩
  apply reads_skipIf_true
  intro stream hstream
  rw [hview, hstream, ← hsimilar _ _ (Similar.cons hpiece hf), ← hpieces, hfound]

theorem replay_skipIf_false {view : TokenStream → Bool} {test : List Piece → Bool}
    (hview : ∀ stream : TokenStream, view stream = test stream.pieces)
    (hsimilar : ∀ pieces pieces', Similar pieces pieces' → test pieces = test pieces')
    (h : skipIf view source = .ok false rest) :
    Replay bound (skipIf view) source.pieces rest.pieces [] false := by
  intro _ _
  obtain ⟨hfound, rfl⟩ := skipIf_eq_ok.1 h
  refine ⟨.nil _, fun f hf => ?_⟩
  apply reads_skipIf_false
  intro stream hstream
  rw [hview] at hfound ⊢
  rw [hstream, ← hsimilar _ _ hf]
  exact hfound

theorem matches_zero {test : Piece → Bool} {printed : Piece} {pieces : List Piece}
    (h : pieceAt pieces 0 test = true) (hmatch : ∀ piece, test piece = true → piece.Matches printed) :
    ∃ piece rest, pieces = piece :: rest ∧ piece.Matches printed := by
  obtain ⟨piece, rest, hpieces, htest⟩ := pieceAt_zero_true h
  exact ⟨piece, rest, hpieces, hmatch piece htest⟩

/-- A fact about what is ahead, if it is the same for all that looks alike. -/
theorem replay_look {view : TokenStream → α} {value : α} {test : List Piece → α}
    (hview : ∀ stream : TokenStream, view stream = test stream.pieces)
    (hsimilar : ∀ pieces pieces', Similar pieces pieces' → test pieces = test pieces')
    (h : look view source = .ok value rest) :
    Replay bound (look view) source.pieces rest.pieces [] value := by
  intro _ _
  obtain ⟨rfl, rfl⟩ := look_eq_ok.1 h
  refine ⟨.nil _, fun f hf => ?_⟩
  apply reads_look
  intro stream hstream
  rw [hview, hview, hstream, hsimilar _ _ hf]

theorem replay_atSymbol {text : Text} {found : Bool} (h : atSymbol text source = .ok found rest) :
    Replay bound (atSymbol text) source.pieces rest.pieces [] found :=
  replay_look (fun stream => stream.symbolAt_eq 0 text)
    (fun _ _ hsimilar => hsimilar.first (Piece.respects_isSymbol text)) h

theorem replay_atWord {text : Text} {found : Bool} (h : atWord text source = .ok found rest) :
    Replay bound (atWord text) source.pieces rest.pieces [] found :=
  replay_look (fun stream => stream.wordAt_eq 0 text)
    (fun _ _ hsimilar => hsimilar.first (Piece.respects_isWord text)) h

theorem replay_symbolInAt {symbols : List Text} {found : Bool}
    (h : look (·.symbolInAt 0 symbols) source = .ok found rest) :
    Replay bound (look (·.symbolInAt 0 symbols)) source.pieces rest.pieces [] found :=
  replay_look (fun stream => stream.symbolInAt_eq 0 symbols)
    (fun _ _ hsimilar => hsimilar.first (Piece.respects_isSymbolIn symbols)) h

theorem replay_require {condition : Bool} {expected : Expectation} {source : List Piece}
    (h : condition = true) :
    Replay bound (require condition expected) source source [] () := by
  intro _ _
  exact ⟨.nil _, fun f _ => reads_require h⟩

/-- Tokens that are skipped are printed as some parts. -/
theorem replay_skip {count : Nat} {parts : List Part}
    (h : Printed source.pieces (source.skip count).pieces parts)
    (hcount : (spell parts).length = count) :
    Replay bound (skip count) source.pieces (source.skip count).pieces parts () := by
  intro _ _
  refine ⟨h, fun f _ => ?_⟩
  rw [← hcount]
  exact reads_skip

/-- A word that is taken is printed as it was read. -/
theorem replay_takeText {text : Text} {piece : Piece} {pieces : List Piece}
    (h : takeText source = .ok text rest) (hpieces : source.pieces = piece :: pieces)
    (hkind : piece.kind = .word) :
    Replay bound takeText source.pieces rest.pieces [.word text] text := by
  intro _ _
  obtain ⟨rfl, hrest⟩ := takeText_ok h hpieces
  rw [hpieces, hrest]
  exact ⟨.one (Piece.matches_word hkind) _, fun f _ => reads_takeText⟩

/-- An operator that is taken, printed as a part that stands for it. -/
theorem replay_takeOperator {text : Text} {symbols : List Text} {part : Part}
    (h : takeText source = .ok text rest) (hfirst : source.symbolInAt 0 symbols = true)
    (hspell : part.pieces = [.symbol text]) (hwell : text ∈ symbols → part.WellFormed) :
    Replay bound takeText source.pieces rest.pieces [part] text := by
  intro _ _
  rw [TokenStream.symbolInAt_eq] at hfirst
  obtain ⟨piece, others, hpieces, hpiece⟩ := pieceAt_zero_true hfirst
  obtain ⟨rfl, hrest⟩ := takeText_ok h hpieces
  unfold Piece.isSymbolIn at hpiece
  obtain ⟨symbol, hmem, hsymbol⟩ := List.any_eq_true.1 hpiece
  obtain ⟨hkind, rfl⟩ := Piece.isSymbol_iff.1 hsymbol
  have hspell : spell [part] = [.symbol piece.text] := by simp [hspell]
  rw [hrest, hpieces, hspell]
  refine ⟨⟨by simpa using hwell hmem, [piece], rfl, ?_⟩, fun f _ => reads_takeText⟩
  rw [hspell]
  exact .cons (Piece.matches_symbol hsymbol) .nil

/-- A keyword that is taken is printed in small letters. -/
theorem replay_takeKeyword {piece : Piece} {pieces : List Piece} {text : Text}
    (h : piece.isWord text = true) (htext : text ∈ Vocabulary.printed) :
    Replay bound takeText (piece :: pieces) pieces [.word text] text := by
  intro _ _
  exact ⟨.one (Piece.matches_keyword h htext) _, fun f _ => reads_takeText⟩

theorem replay_identifier {name : Text} (h : identifier source = .ok name rest) :
    Replay bound identifier source.pieces rest.pieces [.word name] name := by
  intro _ _
  obtain ⟨piece, hpieces, hidentifier, rfl⟩ := identifier_ok h
  have hword := Piece.matches_word (Piece.isIdentifier_word hidentifier)
  rw [hpieces]
  refine ⟨.one hword _, fun f _ => ?_⟩
  have hprinted := Piece.respects_isIdentifier _ _ hword
  have hreads : Reads bound identifier [.word piece.text] f (Piece.word piece.text).text :=
    reads_identifier (hprinted.symm.trans hidentifier)
  exact hreads

theorem replay_takeSymbol_true {text : Text} (h : takeSymbol text source = .ok true rest) :
    Replay bound (takeSymbol text) source.pieces rest.pieces [.symbol text] true :=
  replay_skipIf_true (fun stream => stream.symbolAt_eq 0 text)
    (fun _ _ hsimilar => hsimilar.first (Piece.respects_isSymbol text))
    (fun _ hpieces => matches_zero hpieces fun _ => Piece.matches_symbol) h

theorem replay_takeSymbol_false {text : Text} (h : takeSymbol text source = .ok false rest) :
    Replay bound (takeSymbol text) source.pieces rest.pieces [] false :=
  replay_skipIf_false (fun stream => stream.symbolAt_eq 0 text)
    (fun _ _ hsimilar => hsimilar.first (Piece.respects_isSymbol text)) h

theorem replay_takeWord_true {text : Text} (h : takeWord text source = .ok true rest)
    (htext : text ∈ Vocabulary.printed) :
    Replay bound (takeWord text) source.pieces rest.pieces [.word text] true :=
  replay_skipIf_true (fun stream => stream.wordAt_eq 0 text)
    (fun _ _ hsimilar => hsimilar.first (Piece.respects_isWord text))
    (fun _ hpieces => matches_zero hpieces fun _ hword => Piece.matches_keyword hword htext) h

theorem replay_takeWord_false {text : Text} (h : takeWord text source = .ok false rest) :
    Replay bound (takeWord text) source.pieces rest.pieces [] false :=
  replay_skipIf_false (fun stream => stream.wordAt_eq 0 text)
    (fun _ _ hsimilar => hsimilar.first (Piece.respects_isWord text)) h

theorem replay_symbol {text : Text} {value : Unit} (h : symbol text source = .ok value rest) :
    Replay bound (symbol text) source.pieces rest.pieces [.symbol text] () := by
  unfold symbol at h
  simp only [Reader.bind_eq_ok, require_eq_ok] at h
  obtain ⟨_, _, htake, rfl, rfl⟩ := h
  exact (replay_takeSymbol_true htake).bind (replay_require rfl)

/-- A rule that first looks at the stream, and sees the same on all that looks alike. -/
theorem replay_get {next : TokenStream → Grammar α} {rule : Grammar α} {source rest : List Piece}
    {parts : List Part} {value : α}
    (hnext : ∀ stream : TokenStream, Similar source stream.pieces → next stream = rule)
    (h : Replay bound rule source rest parts value) :
    Replay bound (get >>= next) source rest parts value := by
  intro hsource hquery
  obtain ⟨hprinted, hreads⟩ := h hsource hquery
  refine ⟨hprinted, fun f hf => reads_get ?_ (hreads f hf)⟩
  intro stream hpieces
  exact hnext stream (hpieces ▸ hprinted.similar hf)

/-- A literal that is taken is printed as it was read. -/
theorem replay_literal {text : Text} {piece : Piece} {pieces : List Piece}
    (h : takeText source = .ok text rest) (hpieces : source.pieces = piece :: pieces)
    (hsymbol : piece.kind ≠ .symbol) :
    Replay bound takeText source.pieces rest.pieces [.literal text] text := by
  intro hsource _
  obtain ⟨rfl, hrest⟩ := takeText_ok h hpieces
  rw [hpieces] at hsource ⊢
  rw [hrest]
  have hkind := (hsource piece List.mem_cons_self).kind
  have hmatch : piece.Matches ⟨.ofText piece.text, piece.text, false⟩ := ⟨hkind, .inl rfl⟩
  have hwell : ∀ part ∈ [Part.literal piece.text], part.WellFormed := by
    simpa [Part.WellFormed] using hkind ▸ hsymbol
  exact ⟨⟨hwell, [piece], rfl, .cons hmatch .nil⟩, fun f _ => reads_takeText⟩

end Grammar

namespace TokenStream

variable {source stream : TokenStream} (h : Similar source.pieces stream.pieces)

include h

theorem symbolAt_similar (text : Text) : stream.symbolAt 0 text = source.symbolAt 0 text := by
  rw [symbolAt_eq, symbolAt_eq, h.first (Piece.respects_isSymbol text)]

theorem wordAt_similar (text : Text) : stream.wordAt 0 text = source.wordAt 0 text := by
  rw [wordAt_eq, wordAt_eq, h.first (Piece.respects_isWord text)]

theorem wordInAt_similar (words : List Text) : stream.wordInAt 0 words = source.wordInAt 0 words := by
  rw [wordInAt_eq, wordInAt_eq, h.first (Piece.respects_isWordIn words)]

theorem identifierAt_similar : stream.identifierAt 0 = source.identifierAt 0 := by
  rw [identifierAt_eq, identifierAt_eq, h.first Piece.respects_isIdentifier]

theorem kindAt_similar (test : TokenKind → Bool) :
    stream.holds 0 (fun token => test token.kind) =
      source.holds 0 (fun token => test token.kind) := by
  rw [kindAt_eq, kindAt_eq, h.first (Piece.respects_kind test)]

end TokenStream

/-! ## Repetition -/

namespace Grammar

variable {bound : Nat} {item item' : Grammar (Option α)} {print : α → List Part}

/-- Rounds are played again one by one; where they end, the printed item has to end as well. What
follows the last round follows every round before it, behind what is printed between. -/
theorem replay_rounds {follow : Follow} {source rest : TokenStream} {values : List α}
    (hsome : ∀ source value rest, item source = .ok (some value) rest →
      ReplayBy follow bound item' source.pieces rest.pieces (print value) (some value))
    (hfollow : ∀ source value rest, item source = .ok (some value) rest →
      (∀ piece ∈ source.pieces, piece.Regular) → .query ∉ print value →
      Printed source.pieces rest.pieces (print value) →
      ∀ f, follow rest.pieces f → follow source.pieces (spell (print value) ++ f))
    (h : Reader.Rounds item source values rest) :
    ∃ last, item last = .ok none rest ∧
      ReplayBy (fun rest f => follow rest f ∧ Reads bound item' [] f none) bound
        (Reader.many item') source.pieces last.pieces (values.flatMap print) values ∧
      ((∀ piece ∈ source.pieces, piece.Regular) → .query ∉ values.flatMap print →
        ∀ f, follow last.pieces f → follow source.pieces (spell (values.flatMap print) ++ f)) := by
  induction h with
  | stop hlast =>
    refine ⟨_, hlast, fun _ _ => ⟨.nil _, fun f hf => Reads.many_nil hf.2⟩, fun _ _ f hf => hf⟩
  | @round input middle final value values hfirst hless hothers ih =>
    obtain ⟨last, hlast, hmany, hbefore⟩ := ih
    -- both halves hold of a round and of the rounds behind it
    have hboth : (∀ piece ∈ input.pieces, piece.Regular) → .query ∉ (value :: values).flatMap print →
        Printed input.pieces last.pieces ((value :: values).flatMap print) ∧
        ∀ f, follow last.pieces f →
          follow input.pieces (spell ((value :: values).flatMap print) ++ f) ∧
          (Reads bound item' [] f none →
            Reads bound (Reader.many item') (spell ((value :: values).flatMap print)) f
              (value :: values)) := by
      intro hsource hquery
      rw [List.flatMap_cons] at hquery ⊢
      simp only [List.mem_append, not_or] at hquery
      obtain ⟨hprinted, hreads⟩ := hsome _ _ _ hfirst hsource hquery.1
      have hmiddle : ∀ piece ∈ middle.pieces, piece.Regular :=
        fun piece hpiece => hsource piece (hprinted.mem_of_mem hpiece)
      obtain ⟨hprinted', hreads'⟩ := hmany hmiddle hquery.2
      refine ⟨hprinted.trans hprinted', fun f hf => ?_⟩
      have hnext := hbefore hmiddle hquery.2 f hf
      rw [spell_append, List.append_assoc]
      refine ⟨hfollow _ _ _ hfirst hsource hquery.1 hprinted _ hnext, fun hnone => ?_⟩
      -- a round leaves less than it found, so something is printed for it
      have hshorter : middle.pieces.length < input.pieces.length := by
        rw [← TokenStream.remaining_eq_length, ← TokenStream.remaining_eq_length]
        exact hless
      obtain ⟨piece, pieces, hspell⟩ := hprinted.spell_ne_nil hshorter
      have hround := hreads _ hnext
      rw [hspell] at hround ⊢
      exact Reads.many_cons hround (hreads' f ⟨hf, hnone⟩)
    refine ⟨last, hlast, fun hsource hquery => ?_, fun hsource hquery f hf => ?_⟩
    · obtain ⟨hprinted, hall⟩ := hboth hsource hquery
      exact ⟨hprinted, fun f hf => (hall f hf.1).2 hf.2⟩
    · exact ((hboth hsource hquery).2 f hf).1

/-- A repetition whose items only look at what is alike in source and print. -/
theorem replay_many {source rest : TokenStream} {values : List α}
    (hsome : ∀ source value rest, item source = .ok (some value) rest →
      Replay bound item' source.pieces rest.pieces (print value) (some value))
    (hnone : ∀ source rest, item source = .ok none rest →
      Replay bound item' source.pieces rest.pieces [] none)
    (h : Reader.many item source = .ok values rest) :
    Replay bound (Reader.many item') source.pieces rest.pieces (values.flatMap print) values := by
  obtain ⟨last, hlast, hmany, -⟩ := replay_rounds hsome
    (fun _ _ _ _ _ _ hprinted f hf => hprinted.similar hf) (Reader.many_eq_ok.1 h)
  intro hsource hquery
  obtain ⟨hprinted, hreads⟩ := hmany hsource hquery
  obtain ⟨⟨-, taken, htaken, hmatch⟩, hend⟩ :=
    hnone _ _ hlast (fun piece hpiece => hsource piece (hprinted.mem_of_mem hpiece)) (by simp)
  cases hmatch
  rw [List.nil_append] at htaken
  rw [htaken] at hprinted hreads
  exact ⟨hprinted, fun f hf => hreads f ⟨hf, hend f hf⟩⟩

/-- One item, and one more behind each separator. -/
theorem replay_separated {source rest : TokenStream} {values : List α} {item item' : Grammar α}
    {separator separator' : Grammar Bool} {mark : Piece}
    (hitem : ∀ source value rest, item source = .ok value rest →
      Replay bound item' source.pieces rest.pieces (print value) value)
    (htrue : ∀ source rest, separator source = .ok true rest →
      Replay bound separator' source.pieces rest.pieces [.piece mark] true)
    (hfalse : ∀ source rest, separator source = .ok false rest →
      Replay bound separator' source.pieces rest.pieces [] false)
    (h : Reader.separated separator item source = .ok values rest) :
    Replay bound (Reader.separated separator' item') source.pieces rest.pieces
      (rowsBy (.piece mark) (values.map print)) values := by
  unfold Reader.separated at h
  obtain ⟨first, middle, hfirst, h⟩ := Reader.bind_eq_ok.1 h
  obtain ⟨others, last, hothers, h⟩ := Reader.bind_eq_ok.1 h
  cases h
  rw [List.map_cons, rowsBy_cons, List.flatMap_map]
  have hmany : Replay bound (Reader.many (Reader.optional separator' item')) middle.pieces
      rest.pieces (others.flatMap fun value => .piece mark :: print value) others := by
    refine replay_many ?_ ?_ hothers
    · intro source value rest hround
      obtain ⟨behind, hseparator, hvalue⟩ := Reader.optional_eq_some.1 hround
      exact (htrue _ _ hseparator).optional_some (hitem _ _ _ hvalue)
    · intro source rest hround
      exact (hfalse _ _ (Reader.optional_eq_none.1 hround)).optional_none
  exact (hitem _ _ _ hfirst).bind (hmany.map (first :: ·))

end Grammar

end ApexLayout
