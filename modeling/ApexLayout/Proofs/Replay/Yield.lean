import ApexLayout.Proofs.Replay.Modifier

/-!
Runs of the rules for statements and declarations, played again on what is printed.

Printing may put braces around a body, drop the comma behind the last constant of an enum, and spell
a modifier anew, so the parts no longer match the source piece by piece. `Yields` says what the two
have in common, and `Plays` is the replay of such a run.
-/

namespace ApexLayout

/-- The words that printing writes in small letters although they are not reserved. -/
def Vocabulary.softKeywords : List Text := ["static", "get", "set"].map String.toList

/-- The parts are printed for what stands between two places of the source, up to braces and commas
in front of a closing brace.

A row may end with a comma, and then what follows has to agree with the source on whether a brace
closes there. The first flag says that this is asked of what follows, and the second that it is
given to what stands in front. -/
inductive Yields : Bool → Bool → List Piece → List Piece → List Part → Prop
  | nil (asks : Bool) (source : List Piece) : Yields asks asks source source []
  | row {source rest : List Piece} {parts : List Part} (printed : Printed source rest parts) :
      Yields true true source rest parts
  | one {piece printed : Piece} {rest : List Piece} (head : piece.Matches printed)
      (comma : piece.isSymbol "," = false) (plain : printed.glued = false) :
      Yields false true (piece :: rest) rest [.piece printed]
  | keyword {piece : Piece} {text : Text} {rest : List Piece} (head : piece.isWord text = true)
      (soft : text ∈ Vocabulary.softKeywords) :
      Yields false true (piece :: rest) rest [.word text]
  | modifier {taken rest : List Piece} {value : Modifier} (made : Modified taken value)
      (reads : ∀ bound, Grammar.Reads bound Grammar.modifier taken rest (some value)) :
      Yields false true (taken ++ rest) rest [.modifier value]
  | braces {gives : Bool} {source rest : List Piece} {parts : List Part}
      (body : Yields false gives source rest parts) :
      Yields false false source rest (blockParts [parts])
  | comma {piece : Piece} {rest : List Piece} (head : piece.isSymbol "," = true)
      (next : pieceAt rest 0 (·.isSymbol "\x7d") = true) :
      Yields false false (piece :: rest) rest []
  | relax {asks asks' gives gives' : Bool} {source rest : List Piece} {parts : List Part}
      (yields : Yields asks gives source rest parts) (less : asks = true → asks' = true)
      (more : gives' = true → gives = true) : Yields asks' gives' source rest parts
  | append {asks between gives : Bool} {source middle rest : List Piece} {parts more : List Part}
      (first : Yields between gives source middle parts)
      (second : Yields asks between middle rest more) :
      Yields asks gives source rest (parts ++ more)

namespace Yields

variable {asks gives : Bool} {source rest : List Piece} {parts : List Part}

theorem suffix (h : Yields asks gives source rest parts) : ∃ taken, source = taken ++ rest := by
  induction h with
  | nil => exact ⟨[], rfl⟩
  | row hprinted =>
    obtain ⟨taken, htaken, -⟩ := hprinted.matched
    exact ⟨taken, htaken⟩
  | @one piece => exact ⟨[piece], rfl⟩
  | @keyword piece => exact ⟨[piece], rfl⟩
  | @modifier taken => exact ⟨taken, rfl⟩
  | braces _ ih => exact ih
  | @comma piece => exact ⟨[piece], rfl⟩
  | relax _ _ _ ih => exact ih
  | append _ _ ih ih' =>
    obtain ⟨taken, rfl⟩ := ih
    obtain ⟨more, rfl⟩ := ih'
    exact ⟨taken ++ more, (List.append_assoc ..).symm⟩

theorem mem_of_mem (h : Yields asks gives source rest parts) {piece : Piece}
    (hpiece : piece ∈ rest) : piece ∈ source := by
  obtain ⟨taken, rfl⟩ := h.suffix
  exact List.mem_append_right taken hpiece

end Yields

/-- Every modifier among the parts is read back from its own pieces. -/
def Rereads (parts : List Part) : Prop :=
  ∀ modifier, .modifier modifier ∈ parts → Modified (Modifier.pieces modifier) modifier

theorem rereads_append {parts more : List Part} :
    Rereads (parts ++ more) ↔ Rereads parts ∧ Rereads more := by
  unfold Rereads
  simp only [List.mem_append]
  exact ⟨fun h => ⟨fun m hm => h m (.inl hm), fun m hm => h m (.inr hm)⟩,
    fun h m hm => hm.elim (h.1 m) (h.2 m)⟩

/-- What is known about the parts of a run when they are read again. -/
structure Sound (source : List Piece) (parts : List Part) : Prop where
  regular : ∀ piece ∈ source, piece.Regular
  query : .query ∉ parts

theorem Sound.left {source : List Piece} {parts more : List Part}
    (h : Sound source (parts ++ more)) : Sound source parts :=
  ⟨h.regular, fun hquery => h.query (List.mem_append_left more hquery)⟩

variable {α β : Type}

/-- A run between two places of the source is played again on the printed parts, in front of
everything that satisfies `follow`. -/
def Plays (asks gives : Bool) (follow : List Piece → Prop) (bound : Nat) (rule : Grammar α)
    (source rest : List Piece) (parts : List Part) (value : α) : Prop :=
  Sound source parts →
    Yields asks gives source rest parts ∧
      (Rereads parts → ∀ f, follow f → Grammar.Reads bound rule (spell parts) f value)

/-- A rule that reads its parts in front of everything. -/
abbrev Anywhere (_ : List Piece) : Prop := True

/-- A run whose printed form the rule reads in front of everything, and which does not end with a
comma. -/
abbrev PlaysAlone (bound : Nat) (rule : Grammar α) (source rest : List Piece) (parts : List Part)
    (value : α) : Prop :=
  Plays false true Anywhere bound rule source rest parts value

theorem Replay.plays {bound : Nat} {rule : Grammar α} {source rest : List Piece}
    {parts : List Part} {value : α} (h : Replay bound rule source rest parts value) :
    Plays true true (Similar rest) bound rule source rest parts value := by
  intro hsound
  obtain ⟨hprinted, hreads⟩ := h hsound.regular hsound.query
  exact ⟨.row hprinted, fun _ => hreads⟩

/-- What follows the first part looks like the source when it is printed by a replay. -/
theorem Replay.similar {bound : Nat} {rule : Grammar α} {source rest : List Piece}
    {parts : List Part} {value : α} (h : Replay bound rule source rest parts value)
    (hsound : Sound source parts) {f : List Piece} (hf : Similar rest f) :
    Similar source (spell parts ++ f) :=
  (h hsound.regular hsound.query).1.similar hf

namespace Plays

variable {asks between given gives : Bool} {follow follow' : List Piece → Prop} {bound inner : Nat}
  {source middle rest : List Piece} {parts more : List Part}

theorem relax {rule : Grammar α} {value : α} {asks' gives' : Bool}
    (h : Plays asks gives follow bound rule source rest parts value)
    (hless : asks = true → asks' = true := by simp) (hmore : gives' = true → gives = true := by simp) :
    Plays asks' gives' follow bound rule source rest parts value := by
  intro hsound
  obtain ⟨hyields, hreads⟩ := h hsound
  exact ⟨hyields.relax hless hmore, hreads⟩

theorem mono_bound {rule : Grammar α} {value : α}
    (h : Plays asks gives follow bound rule source rest parts value) (hle : inner ≤ bound) :
    Plays asks gives follow inner rule source rest parts value := by
  intro hsound
  obtain ⟨hyields, hreads⟩ := h hsound
  exact ⟨hyields, fun hrereads f hf => (hreads hrereads f hf).mono hle⟩

theorem mono {rule : Grammar α} {value : α}
    (h : Plays asks gives follow bound rule source rest parts value)
    (hfollow : ∀ f, follow' f → follow f) :
    Plays asks gives follow' bound rule source rest parts value := by
  intro hsound
  obtain ⟨hyields, hreads⟩ := h hsound
  exact ⟨hyields, fun hrereads f hf => hreads hrereads f (hfollow f hf)⟩

theorem pure (asks : Bool) (value : α) :
    Plays asks asks Anywhere bound (Pure.pure value) source source [] value := by
  intro _
  exact ⟨.nil asks source, fun _ f _ => Grammar.Reads.pure value⟩

/-- Two parts of a sequence, the second bounded by what the first leaves. The first has to allow for
what is printed for the second. -/
theorem bind_of_le {first : Grammar α} {next : α → Grammar β} {a : α} {b : β}
    (hfirst : Plays between gives follow bound first source middle parts a)
    (hnext : Plays asks given follow' inner (next a) middle rest more b)
    (hfollow : Sound middle more → Rereads more → ∀ f, follow' f → follow (spell more ++ f))
    (hle : bound ≤ inner + (spell parts).length)
    (hgiven : between = true → given = true) :
    Plays asks gives follow' bound (first >>= next) source rest (parts ++ more) b := by
  intro hsound
  obtain ⟨hregular, hquery⟩ := hsound
  simp only [List.mem_append, not_or] at hquery
  obtain ⟨hyields, hreads⟩ := hfirst ⟨hregular, hquery.1⟩
  have hmiddle : Sound middle more :=
    ⟨fun piece hpiece => hregular piece (hyields.mem_of_mem hpiece), hquery.2⟩
  obtain ⟨hyields', hreads'⟩ := hnext hmiddle
  refine ⟨hyields.append (hyields'.relax (fun h => h) hgiven), fun hrereads f hf => ?_⟩
  obtain ⟨hparts, hmore⟩ := rereads_append.1 hrereads
  rw [spell_append]
  exact (hreads hparts _ (hfollow hmiddle hmore f hf)).bind_of_le (hreads' hmore f hf) hle

theorem bind {first : Grammar α} {next : α → Grammar β} {a : α} {b : β}
    (hfirst : Plays between gives follow bound first source middle parts a)
    (hnext : Plays asks true follow' bound (next a) middle rest more b)
    (hfollow : Sound middle more → Rereads more → ∀ f, follow' f → follow (spell more ++ f)) :
    Plays asks gives follow' bound (first >>= next) source rest (parts ++ more) b :=
  bind_of_le hfirst hnext hfollow (by omega) fun _ => rfl

/-- What the first part reads in front of everything asks nothing of the second. -/
theorem bind_anywhere {first : Grammar α} {next : α → Grammar β} {a : α} {b : β}
    (hfirst : Plays between gives Anywhere bound first source middle parts a)
    (hnext : Plays asks true follow' bound (next a) middle rest more b) :
    Plays asks gives follow' bound (first >>= next) source rest (parts ++ more) b :=
  bind hfirst hnext fun _ _ _ _ => trivial

/-- Nothing is asked of the second part about commas. -/
theorem bind_loose {first : Grammar α} {next : α → Grammar β} {a : α} {b : β}
    (hfirst : Plays false gives follow bound first source middle parts a)
    (hnext : Plays asks false follow' bound (next a) middle rest more b)
    (hfollow : Sound middle more → Rereads more → ∀ f, follow' f → follow (spell more ++ f)) :
    Plays asks gives follow' bound (first >>= next) source rest (parts ++ more) b :=
  bind_of_le hfirst hnext hfollow (by omega) fun h => absurd h (by decide)

/-- Behind a piece that was read, less is left. -/
theorem bind_less {first : Grammar α} {next : α → Grammar β} {a : α} {b : β} {piece : Piece}
    (hfirst : Plays between gives Anywhere (bound + 1) first source middle [.piece piece] a)
    (hnext : Plays asks true follow' bound (next a) middle rest more b) :
    Plays asks gives follow' (bound + 1) (first >>= next) source rest (.piece piece :: more) b :=
  bind_of_le hfirst hnext (fun _ _ _ _ => trivial) (by simp [Part.pieces]) fun _ => rfl

/-- The second part is printed as it was read. -/
theorem bind_replay {first : Grammar α} {next : α → Grammar β} {a : α} {b : β}
    (hfirst : Plays between gives (Similar middle) bound first source middle parts a)
    (hnext : Replay bound (next a) middle rest more b) :
    Plays true gives (Similar rest) bound (first >>= next) source rest (parts ++ more) b :=
  bind hfirst hnext.plays fun hsound _ _ hf => hnext.similar hsound hf

/-- The second part begins with a symbol past which no rule looks. -/
theorem bind_symbol {first : Grammar α} {next : α → Grammar β} {a : α} {b : β} {text : Text}
    (hfirst : Plays between gives (Similar middle) bound first source middle parts a)
    (hmark : pieceAt middle 0 (·.isSymbol text) = true)
    (hnext : Plays asks true follow' bound (next a) middle rest (.symbol text :: more) b)
    (hdot : text ≠ [ '.' ] := by decide) (hbracket : text ≠ [ '[' ] := by decide) :
    Plays asks gives follow' bound (first >>= next) source rest (parts ++ .symbol text :: more)
      b := by
  refine bind hfirst hnext fun _ _ f _ => ?_
  obtain ⟨piece, others, rfl, hpiece⟩ := Grammar.pieceAt_zero_true hmark
  exact Similar.of_symbol hpiece (Piece.isSymbol_iff.2 ⟨rfl, rfl⟩) hdot hbracket

/-- A test that consumes nothing, and has the same answer in front of what is printed. -/
theorem bind_test {test : Grammar α} {next : α → Grammar β} {b : β} (a : α)
    (htest : Sound source parts → Rereads parts → ∀ f, follow f →
      Grammar.Reads bound test [] (spell parts ++ f) a)
    (hnext : Plays asks gives follow bound (next a) source rest parts b) :
    Plays asks gives follow bound (test >>= next) source rest parts b := by
  intro hsound
  obtain ⟨hyields, hreads⟩ := hnext hsound
  exact ⟨hyields, fun hrereads f hf =>
    (htest hsound hrereads f hf).bind_nothing (hreads hrereads f hf)⟩

/-- A test that looks at the whole stream decides the same on what is printed. -/
theorem get {next : TokenStream → Grammar α} {rule : Grammar α} {value : α}
    (hnext : Sound source parts → Rereads parts → ∀ f, follow f → ∀ stream : TokenStream,
      stream.pieces = spell parts ++ f → next stream = rule)
    (h : Plays asks gives follow bound rule source rest parts value) :
    Plays asks gives follow bound (MonadState.get >>= next) source rest parts value := by
  intro hsound
  obtain ⟨hyields, hreads⟩ := h hsound
  refine ⟨hyields, fun hrereads f hf => Grammar.reads_get ?_ (hreads hrereads f hf)⟩
  exact hnext hsound hrereads f hf

theorem map {rule : Grammar α} {a : α}
    (h : Plays asks gives follow bound rule source rest parts a) (f : α → β) :
    Plays asks gives follow bound (rule >>= fun a => Pure.pure (f a)) source rest parts (f a) := by
  intro hsound
  obtain ⟨hyields, hreads⟩ := h hsound
  exact ⟨hyields, fun hrereads g hg => (hreads hrereads g hg).map f⟩

/-- A sequence whose first part takes everything. -/
theorem bind_pure {first : Grammar α} {next : α → Grammar β} {a : α} {b : β}
    (h : Plays asks gives follow bound first source rest parts a) (hnext : next a = Pure.pure b) :
    Plays asks gives follow bound (first >>= next) source rest parts b := by
  intro hsound
  obtain ⟨hyields, hreads⟩ := h hsound
  refine ⟨hyields, fun hrereads f hf stream hbound hpieces => ?_⟩
  rw [Reader.bind_of_ok (hreads hrereads f hf stream hbound hpieces), hnext]
  rfl

theorem attempt {rule : Grammar α} {value : α}
    (h : Plays asks gives follow bound rule source rest parts value) :
    Plays asks gives follow bound (Reader.attempt rule) source rest parts (some value) := by
  intro hsound
  obtain ⟨hyields, hreads⟩ := h hsound
  exact ⟨hyields, fun hrereads f hf => (hreads hrereads f hf).attempt⟩

/-- A recursion plays what its rule plays, with the recursion bounded. -/
theorem recursive {rule : Grammar α → Grammar α} {value : α}
    (h : ∀ bound, Plays asks gives follow (bound + 1)
      (rule (Reader.below bound (Reader.recursive rule))) source rest parts value) (bound : Nat) :
    Plays asks gives follow bound (Reader.recursive rule) source rest parts value := by
  intro hsound
  obtain ⟨hyields, -⟩ := h 0 hsound
  exact ⟨hyields, fun hrereads f hf =>
    .recursive (fun bound => (h bound hsound).2 hrereads f hf) bound⟩

theorem below {rule : Grammar α} {value : α}
    (h : ∀ bound, Plays asks gives follow bound rule source rest parts value) :
    Plays asks gives follow bound (Reader.below bound rule) source rest parts value := by
  intro hsound
  obtain ⟨hyields, -⟩ := h 0 hsound
  exact ⟨hyields, fun hrereads f hf => .below fun bound => (h bound hsound).2 hrereads f hf⟩

end Plays

/-! ## Single tokens -/

namespace Grammar

variable {bound : Nat} {source rest : TokenStream}

/-- A piece that is printed, and that the rule reads in front of everything. -/
theorem playsAlone_one {rule : Grammar α} {value : α} {piece printed : Piece} {pieces : List Piece}
    (hmatch : piece.Matches printed) (hcomma : printed.isSymbol "," = false)
    (hreads : ∀ f, Reads bound rule [printed] f value) (hplain : printed.glued = false := by rfl) :
    PlaysAlone bound rule (piece :: pieces) pieces [.piece printed] value := by
  intro _
  exact ⟨.one hmatch ((hmatch.isSymbol ",").trans hcomma) hplain, fun _ f _ => hreads f⟩

theorem playsAlone_symbol {text : Text} {value : Unit} (h : symbol text source = .ok value rest)
    (htext : text ≠ [ ',' ]) :
    PlaysAlone bound (symbol text) source.pieces rest.pieces [.symbol text] () := by
  obtain ⟨piece, hpieces, hpiece⟩ := symbol_ok h
  have hprinted : (Piece.symbol text).isSymbol text = true := by
    rw [← (Piece.matches_symbol hpiece).isSymbol, hpiece]
  rw [hpieces]
  exact playsAlone_one (Piece.matches_symbol hpiece) (Piece.isSymbol_eq_false hprinted htext)
    fun _ => reads_symbol hprinted

theorem playsAlone_takeSymbol {text : Text} (h : takeSymbol text source = .ok true rest)
    (htext : text ≠ [ ',' ]) :
    PlaysAlone bound (takeSymbol text) source.pieces rest.pieces [.symbol text] true := by
  obtain ⟨piece, hpieces, hpiece⟩ := takeSymbol_true h
  have hprinted : (Piece.symbol text).isSymbol text = true := by
    rw [← (Piece.matches_symbol hpiece).isSymbol, hpiece]
  rw [hpieces]
  exact playsAlone_one (Piece.matches_symbol hpiece) (Piece.isSymbol_eq_false hprinted htext)
    fun _ => reads_takeSymbol_true hprinted

theorem isWord_word (text : Text) : (Piece.word text).isWord text = true :=
  Piece.isWord_iff.2 ⟨rfl, rfl⟩

theorem playsAlone_takeWord {text : Text} (h : takeWord text source = .ok true rest)
    (htext : text ∈ Vocabulary.printed) :
    PlaysAlone bound (takeWord text) source.pieces rest.pieces [.word text] true := by
  obtain ⟨piece, hpieces, hpiece⟩ := takeWord_true h
  rw [hpieces]
  exact playsAlone_one (Piece.matches_keyword hpiece htext) (Piece.isSymbol_of_word rfl _)
    fun _ => reads_takeWord_true (isWord_word text)

/-- A keyword that is not reserved. -/
theorem playsAlone_keyword {rule : Grammar α} {value : α} {text : Text} {piece : Piece}
    {pieces : List Piece} (hpiece : piece.isWord text = true)
    (htext : text ∈ Vocabulary.softKeywords) (hreads : ∀ f, Reads bound rule [.word text] f value) :
    PlaysAlone bound rule (piece :: pieces) pieces [.word text] value := by
  intro _
  exact ⟨.keyword hpiece htext, fun _ f _ => hreads f⟩

theorem playsAlone_identifier {name : Text} (h : identifier source = .ok name rest) :
    PlaysAlone bound identifier source.pieces rest.pieces [.word name] name := by
  obtain ⟨piece, hpieces, hidentifier, rfl⟩ := identifier_ok h
  have hword := Piece.matches_word (Piece.isIdentifier_word hidentifier)
  rw [hpieces]
  have hprinted : (Piece.word piece.text).isIdentifier = true := by
    rw [← Piece.respects_isIdentifier _ _ hword, hidentifier]
  refine playsAlone_one hword (Piece.isSymbol_of_word rfl _) fun f => ?_
  have hreads : Reads bound identifier [.word piece.text] f (Piece.word piece.text).text :=
    reads_identifier hprinted
  exact hreads

/-- An optional part that is not there. -/
theorem plays_absent {test : Grammar Bool} {rule : Grammar α} {source : List Piece} (asks : Bool) :
    Plays asks asks (fun f => Reads bound test [] f false) bound (Reader.optional test rule) source
      source [] none := by
  intro _
  exact ⟨.nil asks source, fun _ f hf => hf.optional_none⟩

/-! ## Repetition -/

/-- Every printed item begins with a piece in front of which another item may end. -/
def Begins (good : List Piece → Prop) (parts : List Part) : Prop :=
  ∃ piece pieces, spell parts = piece :: pieces ∧ ∀ f, good (piece :: f)

theorem good_rounds {print : α → List Part} {good : List Piece → Prop} {values : List α}
    (hbegins : ∀ value ∈ values, Begins good (print value)) {f : List Piece} (hf : good f) :
    good (spell (values.flatMap print) ++ f) := by
  cases values with
  | nil => exact hf
  | cons value values =>
    obtain ⟨piece, pieces, hspell, hgood⟩ := hbegins value List.mem_cons_self
    rw [List.flatMap_cons, spell_append, hspell]
    exact hgood _

/-- Rounds are played again one by one, up to where the last look found nothing. Each item is read
in front of what the next one begins with, and in front of what follows the last. -/
theorem plays_rounds {item : Grammar (Option α)} {item' : Grammar (Option β)}
    {print : α → List Part} {image : α → β} {good : List Piece → Prop} {values : List α}
    (hsome : ∀ source value rest, item source = .ok (some value) rest →
      Plays false true good bound item' source.pieces rest.pieces (print value)
        (some (image value)))
    (hbegins : ∀ source value rest, item source = .ok (some value) rest →
      Sound source.pieces (print value) → Rereads (print value) → Begins good (print value))
    (h : Reader.many item source = .ok values rest) (asks : Bool) :
    ∃ last, item last = .ok none rest ∧
      Plays asks asks (fun f => good f ∧ Reads bound item' [] f none) bound (Reader.many item')
        source.pieces last.pieces (values.flatMap print) (values.map image) := by
  suffices hboth : ∃ last, item last = .ok none rest ∧
      (Sound source.pieces (values.flatMap print) →
        Yields asks asks source.pieces last.pieces (values.flatMap print) ∧
        (Rereads (values.flatMap print) → ∀ f, good f →
          (∀ value ∈ values, Begins good (print value)) ∧ (Reads bound item' [] f none →
            Reads bound (Reader.many item') (spell (values.flatMap print)) f
              (values.map image)))) by
    obtain ⟨last, hlast, hboth⟩ := hboth
    refine ⟨last, hlast, fun hsound => ?_⟩
    obtain ⟨hyields, hreads⟩ := hboth hsound
    exact ⟨hyields, fun hrereads f hf => (hreads hrereads f hf.1).2 hf.2⟩
  have hrounds := Reader.many_eq_ok.1 h
  clear h
  induction hrounds with
  | stop hlast =>
    refine ⟨_, hlast, fun _ => ⟨.nil asks _, fun _ f _ => ⟨by simp, fun hend => ?_⟩⟩⟩
    exact Reads.many_nil hend
  | @round input middle final value values hfirst hless hothers ih =>
    obtain ⟨last, hlast, ih⟩ := ih
    refine ⟨last, hlast, fun hsound => ?_⟩
    obtain ⟨hregular, hquery⟩ := hsound
    rw [List.flatMap_cons] at hquery ⊢
    simp only [List.mem_append, not_or] at hquery
    obtain ⟨hyields, hreads⟩ := hsome _ _ _ hfirst ⟨hregular, hquery.1⟩
    obtain ⟨hyields', hreads'⟩ :=
      ih ⟨fun piece hpiece => hregular piece (hyields.mem_of_mem hpiece), hquery.2⟩
    refine ⟨(hyields.relax (by simp) (by simp)).append hyields', fun hrereads f hf => ?_⟩
    obtain ⟨hparts, hmore⟩ := rereads_append.1 hrereads
    have hbegin := hbegins _ _ _ hfirst ⟨hregular, hquery.1⟩ hparts
    obtain ⟨hvalues, hmany⟩ := hreads' hmore f hf
    refine ⟨List.forall_mem_cons.2 ⟨hbegin, hvalues⟩, fun hend => ?_⟩
    have hround := hreads hparts _ (good_rounds hvalues hf)
    obtain ⟨piece, pieces, hspell, -⟩ := hbegin
    rw [spell_append, List.map_cons]
    rw [hspell] at hround ⊢
    exact Reads.many_cons hround (hmany hend)

/-- Rounds that end without taking anything. -/
theorem plays_many {item : Grammar (Option α)} {item' : Grammar (Option β)}
    {print : α → List Part} {image : α → β} {good : List Piece → Prop} {values : List α}
    (hsome : ∀ source value rest, item source = .ok (some value) rest →
      Plays false true good bound item' source.pieces rest.pieces (print value)
        (some (image value)))
    (hbegins : ∀ source value rest, item source = .ok (some value) rest →
      Sound source.pieces (print value) → Rereads (print value) → Begins good (print value))
    (hnone : ∀ source rest, item source = .ok none rest → rest = source)
    (h : Reader.many item source = .ok values rest) (asks : Bool) :
    Plays asks asks (fun f => good f ∧ Reads bound item' [] f none) bound (Reader.many item')
      source.pieces rest.pieces (values.flatMap print) (values.map image) := by
  obtain ⟨last, hlast, hplays⟩ := plays_rounds hsome hbegins h asks
  obtain rfl := hnone _ _ hlast
  exact hplays

/-! ## Modifiers -/

/-- What modifiers stand in front of: a word that is none itself. -/
def Led (f : List Piece) : Prop :=
  pieceAt f 0 Piece.continues = true ∧ modifierAhead f = false

theorem led_of_similar {pieces f : List Piece} (hahead : modifierAhead pieces = false)
    (hcontinues : pieceAt pieces 0 Piece.continues = true) (h : Similar pieces f) : Led f :=
  ⟨(h.first Piece.respects_continues).symm.trans hcontinues,
    (modifierAhead_similar h).symm.trans hahead⟩

/-- Whether modifiers end is decided by two pieces. -/
theorem led_of_matchAll {p q s f : List Piece} (h : MatchAll p q) (hlength : 2 ≤ q.length)
    (hahead : modifierAhead (p ++ s) = false)
    (hcontinues : pieceAt (p ++ s) 0 Piece.continues = true) : Led (q ++ f) := by
  cases h with
  | nil => simp at hlength
  | cons hfirst htail =>
    cases htail with
    | nil => simp at hlength
    | @cons second second' p q hsecond _ =>
      simp only [List.cons_append, modifierAhead, pieceAt_zero, pieceAt_one] at hahead hcontinues
      unfold Led modifierAhead
      simp only [List.cons_append, pieceAt_zero, pieceAt_one]
      have hwords := Piece.respects_isWordIn Vocabulary.modifiers _ _ hfirst
      have hmodes := Piece.respects_isWordIn Vocabulary.sharingModes _ _ hfirst
      have hsharing := Piece.respects_isWord "sharing" _ _ hsecond
      simp only at hwords hmodes hsharing
      rw [← Piece.respects_continues _ _ hfirst, ← hfirst.isSymbol, ← hwords, ← hmodes, ← hsharing]
      exact ⟨hcontinues, hahead⟩

theorem plays_modifier {value : Modifier} (h : modifier source = .ok (some value) rest) :
    Plays false true (fun f => pieceAt f 0 Piece.continues = true) bound modifier source.pieces
      rest.pieces [.modifier value] (some value) := by
  intro _
  obtain ⟨taken, hpieces, hmade, hreads⟩ := modifier_some h
  rw [hpieces]
  refine ⟨.modifier hmade hreads, fun hrereads f hf => ?_⟩
  have hspell : spell [.modifier value] = Modifier.pieces value := by simp [Part.pieces]
  rw [hspell]
  exact (hrereads value List.mem_cons_self).reads hf

/-- Modifiers are read back in front of a word that is none. -/
theorem plays_modifiers {values : List Modifier} (h : modifiers source = .ok values rest)
    (asks : Bool) :
    Plays asks asks Led bound modifiers source.pieces rest.pieces (modifierParts values)
      values := by
  have hbegins : ∀ source value rest, modifier source = .ok (some value) rest →
      Sound source.pieces [.modifier value] → Rereads [.modifier value] →
      Begins (fun f => pieceAt f 0 Piece.continues = true) [.modifier value] := by
    intro source value rest _ _ hrereads
    obtain ⟨piece, others, hpieces, hpiece⟩ := (hrereads value List.mem_cons_self).head
    refine ⟨piece, others, by simp [Part.pieces, hpieces], fun f => ?_⟩
    exact (pieceAt_zero _ _ _).trans (Piece.continues_of_modifies hpiece)
  have hsome : ∀ source value rest, modifier source = .ok (some value) rest →
      Plays false true (fun f => pieceAt f 0 Piece.continues = true) bound modifier source.pieces
        rest.pieces [.modifier value] (some (id value)) := fun _ _ _ => plays_modifier
  have hmany := plays_many hsome hbegins (fun _ _ h => (modifier_none h).1) h asks
  have hparts : modifierParts values = values.flatMap fun value => [.modifier value] := by
    unfold modifierParts
    rw [List.map_eq_flatMap]
  rw [List.map_id, ← hparts] at hmany
  exact hmany.mono fun f hf => ⟨hf.1, reads_modifier_none hf.2⟩

/-- Behind modifiers stands something that is none. -/
theorem modifiers_end {values : List Modifier} (h : modifiers source = .ok values rest) :
    modifierAhead rest.pieces = false := by
  obtain ⟨last, hlast⟩ := (Reader.many_eq_ok.1 h).exists_stop
  obtain ⟨rfl, hnone⟩ := modifier_none hlast
  exact hnone

/-- A type is read back in front of a word. -/
theorem plays_typeRef {type : TypeRef} (h : typeRef source = .ok type rest) :
    Plays true true (fun f => pieceAt f 0 (·.kind == .word) = true) bound typeRef source.pieces
      rest.pieces [.type type] type := by
  intro hsound
  have hreplay : Replay bound typeRef _ _ [.type type] type := replay_typeRef h
  obtain ⟨hyields, -⟩ := hreplay.plays hsound
  refine ⟨hyields, fun _ f hf => ?_⟩
  obtain ⟨piece, others, rfl, hpiece⟩ := pieceAt_zero_true hf
  have hspell : spell [.type type] = type.pieces := by simp [Part.pieces]
  rw [hspell]
  refine reads_typeRef type (typeRef_ok _ _ _ h).1 bound _ _ (SameAll.refl _) ?_
  apply TypeRef.stops_of_head
  unfold Piece.isSymbolIn
  rw [List.any_eq_false]
  intro text _
  rw [Piece.isSymbol_of_word (beq_iff_eq.1 hpiece)]
  decide

end Grammar

end ApexLayout
