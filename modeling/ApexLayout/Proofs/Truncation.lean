import ApexLayout.Proofs.Advance
import ApexLayout.Proofs.Replay.Operand
import ApexLayout.Proofs.Replay.Variable

/-!
Streams that are the same up to a closing brace.

A rule that succeeds and stops in front of the brace does the same on both streams: it never looks
past a closing brace that it does not take. `Persists` says so for a rule, in one direction only,
since a rule that fails may have run to the end of a stream. There is one clause for every way to
build rules but a trial, where the failure counts; the trials are the type of a cast, which cannot
reach the brace, and the declarations, which the next module treats.
-/

namespace ApexLayout

/-- Two streams have the same tokens up to a closing brace. -/
structure TokenStream.Shares (first second : TokenStream) (last : Nat) : Prop where
  tokens : first.tokens.take (last + 1) = second.tokens.take (last + 1)
  brace : first.symbolAt last "\x7d" = true

/-- A test that no closing brace passes. -/
def Token.Open (test : Token → Bool) : Prop :=
  ∀ token : Token, token.isSymbol "\x7d" = true → test token = false

namespace Token

theorem open_isSymbol {text : Text} (h : [ '}' ] ≠ text) : Open (·.isSymbol text) :=
  fun token hbrace => Piece.isSymbol_eq_false (show token.piece.isSymbol _ = true from hbrace) h

theorem open_word {test : Token → Bool} (h : ∀ token : Token, test token = true →
    token.kind = .word) : Open test := by
  intro token hbrace
  by_contra hpasses
  have hsymbol := (Piece.isSymbol_iff.1 (show token.piece.isSymbol _ = true from hbrace)).1
  have hword := h token (by simpa using hpasses)
  exact absurd ((show token.kind = .symbol from hsymbol).symm.trans hword) (by decide)

theorem open_isWord (word : Text) : Open (·.isWord word) :=
  open_word fun token htoken => (Piece.isWord_iff.1 (show token.piece.isWord _ = true from htoken)).1

theorem open_isWordIn (words : List Text) : Open (·.isWordIn words) :=
  open_word fun token htoken => by
    obtain ⟨word, -, hword⟩ := List.any_eq_true.1 htoken
    exact (Piece.isWord_iff.1 (show token.piece.isWord _ = true from hword)).1

theorem open_isIdentifier : Open Token.isIdentifier :=
  open_word fun token htoken =>
    Piece.isIdentifier_word (show token.piece.isIdentifier = true from htoken)

end Token

namespace TokenStream.Shares

variable {first second : TokenStream} {last index : Nat}
  (h : TokenStream.Shares first second last)

include h

theorem getElem (hindex : index ≤ last) : first.tokens[index]? = second.tokens[index]? := by
  have hfirst := @List.getElem?_take_of_lt _ first.tokens _ _ (Nat.lt_succ_of_le hindex)
  have hsecond := @List.getElem?_take_of_lt _ second.tokens _ _ (Nat.lt_succ_of_le hindex)
  rw [← hfirst, ← hsecond, h.tokens]

/-- What a test says of a token up to the brace. -/
theorem holds {offset : Nat} (hindex : index + offset ≤ last) (test : Token → Bool) :
    (first.skip index).holds offset test = (second.skip index).holds offset test := by
  unfold TokenStream.holds
  show Option.any _ (first.tokens.drop index)[offset]? =
    Option.any _ (second.tokens.drop index)[offset]?
  rw [List.getElem?_drop, List.getElem?_drop, h.getElem hindex]

theorem symm : TokenStream.Shares second first last := by
  refine ⟨h.tokens.symm, ?_⟩
  have hsame := @holds _ _ _ 0 h last (Nat.le_of_eq (Nat.zero_add _)) (·.isSymbol "\x7d")
  exact hsame.symm.trans h.brace

theorem remaining : last < first.remaining := by
  rw [first.remaining_eq]
  by_contra hout
  have hbrace := h.brace
  rw [symbolAt, TokenStream.holds, List.getElem?_eq_none (Nat.le_of_not_lt hout)] at hbrace
  cases hbrace

/-- A test that the brace does not pass. -/
theorem holds_last {offset : Nat} (hindex : index + offset = last) {test : Token → Bool}
    (htest : Token.Open test) : (first.skip index).holds offset test = false := by
  have hbrace := h.brace
  unfold TokenStream.symbolAt TokenStream.holds at hbrace
  unfold TokenStream.holds
  show Option.any test (first.tokens.drop index)[offset]? = false
  rw [List.getElem?_drop, hindex]
  cases htoken : first.tokens[last]? with
  | none => rfl
  | some token =>
    rw [htoken] at hbrace
    exact htest token hbrace

/-- A look past a token that is not the brace. -/
theorem holds_and {offset : Nat} (hindex : index + offset ≤ last) {test : Token → Bool}
    (htest : Token.Open test) {next next' : Bool}
    (hnext : index + (offset + 1) ≤ last → next = next') :
    ((first.skip index).holds offset test && next) =
      ((second.skip index).holds offset test && next') := by
  rcases Nat.eq_or_lt_of_le hindex with hlast | hless
  · rw [h.holds_last hlast htest, h.symm.holds_last hlast htest]
    rfl
  · rw [h.holds hindex, hnext hless]

/-- The tokens from an index on: up to the brace they are the same. -/
theorem split (hindex : index ≤ last) : ∃ row rest rest',
    (first.skip index).tokens = row ++ rest ∧ (second.skip index).tokens = row ++ rest' ∧
      row.length = last + 1 - index ∧ ∃ token ∈ row, token.isSymbol "\x7d" = true := by
  -- both streams are cut behind the brace, and what is in front is shared
  have hsplit : ∀ stream : TokenStream, last < stream.remaining → (stream.skip index).tokens =
      (stream.tokens.take (last + 1)).drop index ++ stream.tokens.drop (last + 1) := by
    intro stream hinside
    have hlength : index ≤ (stream.tokens.take (last + 1)).length := by
      rw [List.length_take, ← stream.remaining_eq]
      omega
    rw [← List.drop_append_of_le_length hlength, List.take_append_drop]
    rfl
  refine ⟨(first.tokens.take (last + 1)).drop index, first.tokens.drop (last + 1),
    second.tokens.drop (last + 1), hsplit first h.remaining, ?_, ?_, ?_⟩
  · rw [h.tokens]
    exact hsplit second h.symm.remaining
  · have hinside := h.remaining
    rw [List.length_drop, List.length_take, ← first.remaining_eq]
    omega
  · -- the brace is the last of them
    have hbrace := h.brace
    unfold TokenStream.symbolAt TokenStream.holds at hbrace
    cases htoken : first.tokens[last]? with
    | none =>
      rw [htoken] at hbrace
      cases hbrace
    | some token =>
      rw [htoken] at hbrace
      refine ⟨token, List.mem_of_getElem? (i := last - index) ?_, hbrace⟩
      rw [List.getElem?_drop, List.getElem?_take_of_lt (by omega), Nat.add_sub_cancel' hindex, htoken]

/-- The same for pieces, where the brace is a fence. -/
theorem split_pieces (hindex : index ≤ last) : ∃ row rest rest',
    (first.skip index).pieces = row ++ rest ∧ (second.skip index).pieces = row ++ rest' ∧
      row.length = last + 1 - index ∧ ∃ piece ∈ row, piece.isSymbol "\x7d" = true := by
  obtain ⟨row, rest, rest', hfirst, hsecond, hlength, token, htoken, hbrace⟩ := h.split hindex
  refine ⟨row.map Token.piece, rest.map Token.piece, rest'.map Token.piece, ?_, ?_, ?_,
    token.piece, List.mem_map_of_mem htoken, hbrace⟩
  · rw [TokenStream.pieces, hfirst, List.map_append]
  · rw [TokenStream.pieces, hsecond, List.map_append]
  · rw [List.length_map, hlength]

/-- No rule looks past the brace. -/
theorem similar (hindex : index ≤ last) :
    Similar (first.skip index).pieces (second.skip index).pieces := by
  obtain ⟨row, rest, rest', hfirst, hsecond, -, piece, hpiece, hbrace⟩ := h.split_pieces hindex
  rw [hfirst, hsecond]
  exact Similar.of_fence (SameAll.refl row).matchAll
    ⟨piece, hpiece, Piece.isFence_of_symbol hbrace (by decide)⟩ rest rest'

end TokenStream.Shares

namespace Grammar

/-! ## Runs in front of the brace -/

section

variable {α : Type} (first second : TokenStream) (last : Nat)

/-- A run on the first stream gave a value and stopped further on; the result is the same on the
second stream, if the run stopped in front of the brace. -/
inductive Carries (index : Nat) (value : α) (rest : TokenStream)
    (result : EStateM.Result SyntaxError TokenStream α) : Prop
  | intro (stop : Nat) (forward : index ≤ stop) (left : rest = first.skip stop)
      (same : stop ≤ last → result = .ok value (second.skip stop))

/-- What one rule does on the first stream from an index on, the other does on the second. -/
def PersistsAt (index : Nat) (rule rule' : Grammar α) : Prop :=
  ∀ value rest, rule (first.skip index) = .ok value rest →
    Carries first second last index value rest (rule' (second.skip index))

/-- The same from every index on. -/
def Persists (rule rule' : Grammar α) : Prop :=
  ∀ index, PersistsAt first second last index rule rule'

end

theorem Carries.bind {α β : Type} {first second middle rest : TokenStream} {last index : Nat}
    {rule : Grammar α} {next : α → Grammar β} {found : α} {value : β}
    (h : Carries first second last index found middle (rule (second.skip index)))
    (hnext : ∀ stop, middle = first.skip stop →
      Carries first second last stop value rest (next found (second.skip stop))) :
    Carries first second last index value rest ((rule >>= next) (second.skip index)) := by
  obtain ⟨stop, hstop, rfl, hsame⟩ := h
  obtain ⟨final, hfinal, rfl, hsame'⟩ := hnext stop rfl
  refine ⟨final, Nat.le_trans hstop hfinal, rfl, fun hle => ?_⟩
  exact Reader.bind_eq_ok.2 ⟨found, _, hsame (Nat.le_trans hfinal hle), hsame' hle⟩

namespace PersistsAt

variable {α : Type} {first second : TokenStream} {last index : Nat}
  {rule rule' yes yes' no no' : Grammar α}

/-- Behind the brace only the way on matters. -/
theorem of_lt (hindex : last < index) (h : PersistsAt first second last index rule rule')
    (other : Grammar α) : PersistsAt first second last index rule other := by
  intro value rest hrun
  obtain ⟨stop, hstop, hrest, -⟩ := h value rest hrun
  exact ⟨stop, hstop, hrest, fun hle => absurd hle (by omega)⟩

/-- A condition that was found earlier may decide later. -/
theorem captured {condition condition' : Bool} (h : index ≤ last → condition = condition')
    (next next' : Bool → Grammar α) (hnext : ∀ found, PersistsAt first second last index (next found)
      (next' found)) : PersistsAt first second last index (next condition) (next' condition') := by
  by_cases hindex : index ≤ last
  · rw [← h hindex]
    exact hnext condition
  · exact (hnext condition).of_lt (by omega) _

theorem ite {condition condition' : Bool} (h : index ≤ last → condition = condition')
    (hyes : PersistsAt first second last index yes yes')
    (hno : PersistsAt first second last index no no') :
    PersistsAt first second last index (if condition then yes else no)
      (if condition' then yes' else no') := by
  refine captured h (fun found => if found then yes else no)
    (fun found => if found then yes' else no') fun found => ?_
  cases found with
  | false => exact hno
  | true => exact hyes

end PersistsAt

namespace Persists

variable {α β : Type} {first second : TokenStream} {last : Nat} {rule rule' : Grammar α}

theorem pure (value : α) : Persists first second last (Pure.pure value) (Pure.pure value) := by
  intro index _ _ h
  cases h
  exact ⟨index, Nat.le_refl _, rfl, fun _ => rfl⟩

theorem fail (expected : Expectation) : Persists first second last
    (Grammar.fail expected : Grammar α) (Grammar.fail expected) := by
  intro index _ _ h
  cases h

theorem look {view : TokenStream → α}
    (h : ∀ index ≤ last, view (first.skip index) = view (second.skip index)) :
    Persists first second last (look view) (look view) := by
  intro index _ _ hlook
  obtain ⟨rfl, rfl⟩ := look_eq_ok.1 hlook
  exact ⟨index, Nat.le_refl _, rfl, fun hle => look_eq_ok.2 ⟨(h index hle).symm, rfl⟩⟩

theorem skip (count : Nat) : Persists first second last (skip count) (skip count) := by
  intro index _ _ hskip
  refine ⟨index + count, Nat.le_add_right .., ?_, fun _ => ?_⟩
  · rw [← skip_eq_ok.1 hskip, TokenStream.skip_skip]
  · exact skip_eq_ok.2 (TokenStream.skip_skip ..)

theorem get {next next' : TokenStream → Grammar α} (h : ∀ index, PersistsAt first second last index
    (next (first.skip index)) (next' (second.skip index))) :
    Persists first second last (MonadState.get >>= next) (MonadState.get >>= next') :=
  fun index => h index

theorem bind {next next' : α → Grammar β} (h : Persists first second last rule rule')
    (hnext : ∀ value, Persists first second last (next value) (next' value)) :
    Persists first second last (rule >>= next) (rule' >>= next') := by
  intro index value rest hrun
  obtain ⟨found, middle, hfirst, hrest⟩ := Reader.bind_eq_ok.1 hrun
  refine (h index found middle hfirst).bind fun stop hmiddle => ?_
  exact hnext found stop value rest (hmiddle ▸ hrest)

theorem ite {condition : Bool} {yes yes' no no' : Grammar α}
    (hyes : Persists first second last yes yes') (hno : Persists first second last no no') :
    Persists first second last (if condition then yes else no)
      (if condition then yes' else no') :=
  fun index => .ite (fun _ => rfl) (hyes index) (hno index)

/-- A test decides how to go on. -/
theorem branch {test test' : Grammar Bool} {yes yes' no no' : Grammar α}
    (htest : Persists first second last test test') (hyes : Persists first second last yes yes')
    (hno : Persists first second last no no') :
    Persists first second last (test >>= fun found => if found then yes else no)
      (test' >>= fun found => if found then yes' else no') :=
  htest.bind fun _ => .ite hyes hno

theorem map (h : Persists first second last rule rule') (change : α → β) :
    Persists first second last (rule >>= fun value => Pure.pure (change value))
      (rule' >>= fun value => Pure.pure (change value)) :=
  h.bind fun value => pure (change value)

theorem require (condition : Bool) (expected : Expectation) :
    Persists first second last (require condition expected)
      (require condition expected) :=
  .ite (pure ()) (fail expected)

theorem optional {test test' : Grammar Bool} (htest : Persists first second last test test')
    (h : Persists first second last rule rule') :
    Persists first second last (Reader.optional test rule) (Reader.optional test' rule') :=
  htest.branch (h.map some) (pure none)

/-- A trial, where a failure on the first stream is one on the second. -/
theorem attempt (h : Persists first second last rule rule')
    (hfails : ∀ index ≤ last, ∀ value rest, rule' (second.skip index) = .ok value rest →
      ∃ value rest, rule (first.skip index) = .ok value rest) :
    Persists first second last (Reader.attempt rule) (Reader.attempt rule') := by
  intro index found rest hrun
  cases found with
  | some value =>
    obtain ⟨stop, hstop, rfl, hsame⟩ := h index value rest (Reader.attempt_eq_some.1 hrun)
    exact ⟨stop, hstop, rfl, fun hle => Reader.attempt_eq_some.2 (hsame hle)⟩
  | none =>
    obtain ⟨rfl, hnone⟩ := Reader.attempt_eq_none.1 hrun
    refine ⟨index, Nat.le_refl _, rfl, fun hle => Reader.attempt_eq_none.2 ⟨rfl, ?_⟩⟩
    intro value rest hother
    obtain ⟨value, rest, hok⟩ := hfails index hle value rest hother
    exact hnone value rest hok

theorem many (hbrace : TokenStream.Shares first second last) {item item' : Grammar (Option α)}
    (h : Persists first second last item item') :
    Persists first second last (Reader.many item) (Reader.many item') := by
  intro index values rest hrun
  have hrounds := Reader.many_eq_ok.1 hrun
  generalize hstart : first.skip index = start at hrounds
  -- along the rounds, each of which begins further on
  induction hrounds generalizing index with
  | stop hlast =>
    subst hstart
    obtain ⟨stop, hstop, rfl, hsame⟩ := h index none _ hlast
    exact ⟨stop, hstop, rfl, fun hle => Reader.many_eq_ok.2 (.stop (hsame hle))⟩
  | @round input middle final value values hfirst hless hothers ih =>
    subst hstart
    obtain ⟨stop, hstop, rfl, hsame⟩ := h index (some value) _ hfirst
    obtain ⟨final, hfinal, rfl, hsame'⟩ := ih stop (Reader.many_eq_ok.2 hothers) rfl
    refine ⟨final, Nat.le_trans hstop hfinal, rfl, fun hle => Reader.many_eq_ok.2 ?_⟩
    have hinside := hbrace.symm.remaining
    have hmore : first.remaining - stop < first.remaining - index := hless
    refine .round (hsame (Nat.le_trans hfinal hle)) ?_ (Reader.many_eq_ok.1 (hsame' hle))
    show second.remaining - stop < second.remaining - index
    omega

theorem separated (hbrace : TokenStream.Shares first second last)
    {separator separator' : Grammar Bool} (hseparator : Persists first second last separator separator')
    (h : Persists first second last rule rule') :
    Persists first second last (Reader.separated separator rule)
      (Reader.separated separator' rule') :=
  h.bind fun value => (many hbrace (hseparator.optional h)).map (value :: ·)

theorem recursive (hbrace : TokenStream.Shares first second last) {build : Grammar α → Grammar α}
    (h : ∀ inner inner', Persists first second last inner inner' →
      Persists first second last (build inner) (build inner')) :
    Persists first second last (Reader.recursive build) (Reader.recursive build) := by
  intro index
  induction hsize : first.remaining - index using Nat.strongRecOn generalizing index with
  | ind size ih =>
    intro value rest hrun
    rw [Reader.recursive_run] at hrun
    rw [Reader.recursive_run]
    refine h _ _ (fun start value rest hinner => ?_) index value rest hrun
    -- the calls inside are the recursion itself, further on
    obtain ⟨hless, hinner⟩ := Reader.below_eq_ok.1 hinner
    have hmore : first.remaining - start < first.remaining - index := hless
    obtain ⟨stop, hstop, rfl, hsame⟩ := ih _ (hsize ▸ hmore) start rfl value rest hinner
    refine ⟨stop, hstop, rfl, fun hle => Reader.below_eq_ok.2 ⟨?_, hsame hle⟩⟩
    have hinside := hbrace.symm.remaining
    show second.remaining - start < second.remaining - index
    omega

end Persists

/-! ## Tokens -/

section

variable {α : Type} {first second : TokenStream} {last : Nat}
  (h : TokenStream.Shares first second last)

include h

theorem persists_holds (test : Token → Bool) :
    Persists first second last (look (·.holds 0 test)) (look (·.holds 0 test)) :=
  .look fun _ hindex => h.holds hindex test

theorem persists_atSymbol (text : Text) :
    Persists first second last (atSymbol text) (atSymbol text) :=
  persists_holds h _

theorem persists_atWord (text : Text) : Persists first second last (atWord text) (atWord text) :=
  persists_holds h _

omit h in
theorem persists_skipIf {view : TokenStream → Bool}
    (hview : ∀ index ≤ last, view (first.skip index) = view (second.skip index)) :
    Persists first second last (skipIf view) (skipIf view) :=
  (Persists.look hview).bind fun found => .ite ((Persists.skip 1).map fun _ => found) (.pure found)

theorem persists_takeSymbol (text : Text) :
    Persists first second last (takeSymbol text) (takeSymbol text) :=
  persists_skipIf fun _ hindex => h.holds hindex _

theorem persists_takeWord (text : Text) :
    Persists first second last (takeWord text) (takeWord text) :=
  persists_skipIf fun _ hindex => h.holds hindex _

theorem persists_symbol (text : Text) : Persists first second last (symbol text) (symbol text) :=
  (persists_takeSymbol h text).bind fun found => .require found _

omit h in
theorem symbol_eq_ok {text : Text} {stream rest : TokenStream} {value : Unit} :
    symbol text stream = .ok value rest ↔
      stream.symbolAt 0 text = true ∧ rest = stream.skip 1 := by
  unfold symbol
  simp only [Reader.bind_eq_ok, require_eq_ok, takeSymbol_eq_ok]
  constructor
  · rintro ⟨_, _, ⟨hfound, rfl⟩, rfl, rfl⟩
    exact ⟨hfound, rfl⟩
  · rintro ⟨hfound, rfl⟩
    exact ⟨true, _, ⟨hfound, rfl⟩, rfl, rfl⟩

/-- A symbol that is no brace is taken in front of it. -/
theorem symbol_shared {index : Nat} (hindex : index ≤ last) {text : Text} (htext : [ '}' ] ≠ text)
    {rest : TokenStream} (hrun : symbol text (first.skip index) = .ok () rest) :
    index < last ∧ rest = first.skip (index + 1) ∧
      symbol text (second.skip index) = .ok () (second.skip (index + 1)) := by
  obtain ⟨hfound, rfl⟩ := symbol_eq_ok.1 hrun
  refine ⟨Nat.lt_of_le_of_ne hindex fun hlast => ?_, TokenStream.skip_skip .., ?_⟩
  · have hnone := h.holds_last (Nat.add_zero index ▸ hlast) (Token.open_isSymbol htext)
    exact absurd (hnone.symm.trans hfound) (by decide)
  · have hother := (h.holds hindex (·.isSymbol text)).symm.trans hfound
    exact symbol_eq_ok.2 ⟨hother, (TokenStream.skip_skip ..).symm⟩

theorem persists_takeText : Persists first second last takeText takeText := by
  refine (Persists.look fun index hindex => ?_).bind fun text => (Persists.skip 1).map fun _ => text
  have hhead := h.getElem hindex
  have hfirst : ∀ stream : TokenStream, (stream.skip index).next? =
      stream.tokens[index]?.map Token.text := by
    intro stream
    show (stream.tokens.drop index).head?.map Token.text = _
    rw [List.head?_drop]
  rw [hfirst, hfirst, hhead]

theorem persists_identifier : Persists first second last identifier identifier := by
  refine (persists_holds h _).bind fun found => ?_
  exact (Persists.require found _).bind fun _ => persists_takeText h

theorem persists_commaSeparated {rule rule' : Grammar α}
    (hrule : Persists first second last rule rule') :
    Persists first second last (commaSeparated rule) (commaSeparated rule') :=
  .separated h (persists_takeSymbol h _) hrule

/-- A rule that goes on unless a symbol is next. -/
theorem persists_unless (text : Text) :
    Persists first second last (atSymbol text >>= fun found => pure !found)
      (atSymbol text >>= fun found => pure !found) :=
  (persists_atSymbol h text).map (! ·)

/-! ## Types and modifiers -/

/-- A type is read on both streams, and ends in front of the brace. -/
theorem typeRef_shared {index : Nat} (hindex : index ≤ last) {type : TypeRef} {rest : TokenStream}
    (hrun : typeRef (first.skip index) = .ok type rest) : ∃ stop, index ≤ stop ∧ stop ≤ last ∧
      rest = first.skip stop ∧ typeRef (second.skip index) = .ok type (second.skip stop) := by
  obtain ⟨row, behind, behind', hfirst, hsecond, hlength, piece, hpiece, hbrace⟩ :=
    h.split_pieces hindex
  obtain ⟨front, front', middle, hother, hmiddle, hrest, hmatch, fence, hfence, -⟩ :=
    typeRef_transfer hrun hsecond hfirst (SameAll.refl row).matchAll
      ⟨piece, hpiece, Piece.isFence_of_symbol hbrace (by decide)⟩
  obtain ⟨count, rfl⟩ := Advances.typeRef _ _ _ hrun
  obtain ⟨count', rfl⟩ := Advances.typeRef _ _ _ hother
  -- what is left up to the brace is as long on both sides
  have hsame := hmatch.length_eq
  have hsome := List.length_pos_of_mem hfence
  have hsizes := congrArg List.length hfirst
  have hsizes' := congrArg List.length hsecond
  have hleft := congrArg List.length hrest
  have hleft' := congrArg List.length hmiddle
  simp only [← TokenStream.remaining_eq_length, TokenStream.remaining_skip,
    List.length_append] at hsizes hsizes' hleft hleft'
  have hinside := h.remaining
  have hinside' := h.symm.remaining
  obtain rfl : count = count' := by omega
  refine ⟨index + count, by omega, by omega, TokenStream.skip_skip .., ?_⟩
  rw [hother, TokenStream.skip_skip]

theorem persists_typeRef : Persists first second last typeRef typeRef := by
  intro index type rest hrun
  by_cases hindex : index ≤ last
  · obtain ⟨stop, hstop, -, rfl, hother⟩ := typeRef_shared h hindex hrun
    exact ⟨stop, hstop, rfl, fun _ => hother⟩
  · obtain ⟨count, rfl⟩ := Advances.typeRef _ _ _ hrun
    exact ⟨index + count, by omega, TokenStream.skip_skip .., fun hle => by omega⟩

theorem persists_dotBeforeIdentifier :
    Persists first second last dotBeforeIdentifier dotBeforeIdentifier :=
  persists_skipIf fun _ hindex => h.holds_and hindex (Token.open_isSymbol (by decide))
    fun hnext => h.holds hnext _

omit h in
/-- What is enclosed is the beginning of the tokens, whatever stands behind it. -/
theorem enclosed_eq_some {opening closing : Text} {depth : Nat} {tokens taken : List Token}
    (henclosed : enclosed opening closing depth tokens = some taken) :
    (∃ rest, tokens = taken ++ rest) ∧
      ∀ rest, enclosed opening closing depth (taken ++ rest) = some taken := by
  induction tokens generalizing depth taken with
  | nil => cases henclosed
  | cons token tokens ih =>
    obtain ⟨next, hstep⟩ : ∃ next, ∀ rest, enclosed opening closing depth (token :: rest) =
        if next = 0 then some [token] else (enclosed opening closing next rest).map (token :: ·) :=
      ⟨_, fun _ => rfl⟩
    rw [hstep] at henclosed
    split at henclosed
    case isTrue hzero =>
      cases henclosed
      refine ⟨⟨tokens, rfl⟩, fun rest => ?_⟩
      rw [List.singleton_append, hstep, if_pos hzero]
    case isFalse hzero =>
      obtain ⟨inside, hinside, rfl⟩ := Option.map_eq_some_iff.1 henclosed
      obtain ⟨⟨rest, rfl⟩, hagain⟩ := ih hinside
      refine ⟨⟨rest, rfl⟩, fun rest => ?_⟩
      rw [List.cons_append, hstep, if_neg hzero, hagain, Option.map_some]

theorem persists_enclosure (opening closing : Text) (missing : Expectation) :
    Persists first second last (enclosure opening closing missing)
      (enclosure opening closing missing) := by
  intro index taken rest hrun
  unfold enclosure at hrun ⊢
  rw [Reader.bind_of_ok (Reader.get_run _)] at hrun ⊢
  cases hfound : enclosed opening closing 0 (first.skip index).tokens with
  | none =>
    rw [hfound] at hrun
    simp [Reader.bind_eq_ok] at hrun
  | some tokens =>
    rw [hfound] at hrun
    simp only [Reader.bind_eq_ok, skip_eq_ok] at hrun
    obtain ⟨_, _, rfl, hrun⟩ := hrun
    cases hrun
    refine ⟨index + taken.length, by omega, TokenStream.skip_skip .., fun hle => ?_⟩
    -- what is enclosed lies in front of the brace
    obtain ⟨⟨behind, hbehind⟩, hagain⟩ := enclosed_eq_some hfound
    have hindex : index ≤ last := by omega
    obtain ⟨row, rest, rest', hfirst, hsecond, hlength, -⟩ := h.split hindex
    have hprefix : taken <+: row :=
      List.prefix_of_prefix_length_le ⟨behind, hbehind.symm⟩ ⟨rest, hfirst.symm⟩ (by omega)
    obtain ⟨more, rfl⟩ := hprefix
    rw [hsecond, List.append_assoc, hagain]
    exact congrArg (EStateM.Result.ok taken) (TokenStream.skip_skip ..)

theorem persists_annotated : Persists first second last annotation annotation := by
  have hnames := Persists.separated h (persists_dotBeforeIdentifier h) (persists_identifier h)
  refine (persists_symbol h _).bind fun _ => ?_
  refine hnames.bind fun names => ?_
  exact (Persists.optional (persists_atSymbol h _) (persists_enclosure h _ _ _)).map _

theorem persists_modifiers : Persists first second last modifiers modifiers := by
  refine .many h (.get fun index => ?_)
  refine .ite (h.holds · _) ((persists_annotated h).map some index) ?_
  refine .ite (h.holds · _) ((persists_takeText h).map some index) ?_
  refine .ite (fun hindex => h.holds_and hindex (Token.open_isWordIn _) fun hnext =>
    h.holds hnext _) ?_ (Persists.pure none index)
  exact ((persists_takeText h).bind fun mode => (persists_takeText h).map fun sharing => _) index

end

end Grammar

end ApexLayout
