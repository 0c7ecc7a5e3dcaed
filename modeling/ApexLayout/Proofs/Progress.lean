import ApexLayout.Proofs.Agreement.Source
import ApexLayout.Proofs.Truncation

/-!
Rules make progress.

A rule steps on a stream when it stops there or some tokens further on, and never because a round
consumed nothing (`Steps`). A value may say that at least one token was taken. Repetition and
recursion end because of that, so a rule is compared with itself, its inner calls bounded in one
copy and free in the other: where less than a bound is left the two do the same (`Proceeds`), and
then a recursion is its rule applied to itself (`Proceeds.recursive`).
-/

namespace ApexLayout

namespace Grammar

variable {α β : Type}

/-! ## Steps -/

/-- A run steps: it stops at the stream or some tokens further on, not behind the end. It took a
token if its value says so; a failure is the error for the place where it stopped, and not for a
round without progress. -/
def Steps (stream : TokenStream) (eats : α → Prop)
    (result : EStateM.Result SyntaxError TokenStream α) : Prop :=
  (∃ value count, result = .ok value (stream.skip count) ∧ count ≤ stream.remaining ∧
    (eats value → 0 < count)) ∨
  ∃ expected count, result = .error ((stream.skip count).refusal expected) (stream.skip count) ∧
    count ≤ stream.remaining ∧ expected ≠ .progress

/-- On a stream two rules do the same, and step. -/
def ProceedsAt (stream : TokenStream) (eats : α → Prop) (rule rule' : Grammar α) : Prop :=
  rule stream = rule' stream ∧ Steps stream eats (rule' stream)

/-- Wherever less than a bound is left, two rules do the same, and step. -/
def Proceeds (bound : Nat) (eats : α → Prop) (rule rule' : Grammar α) : Prop :=
  ∀ stream : TokenStream, stream.remaining < bound → ProceedsAt stream eats rule rule'

/-- Every value says that a token was taken. -/
abbrev always : α → Prop := fun _ => True

/-- No value says so. -/
abbrev never : α → Prop := fun _ => False

theorem Steps.mono {stream : TokenStream} {eats eats' : α → Prop}
    {result : EStateM.Result SyntaxError TokenStream α} (h : Steps stream eats result)
    (himp : ∀ value, eats' value → eats value) : Steps stream eats' result := by
  obtain ⟨value, count, hresult, hinside, heaten⟩ | hfailure := h
  · exact .inl ⟨value, count, hresult, hinside, fun hvalue => heaten (himp value hvalue)⟩
  · exact .inr hfailure

/-- Steps from a place further on are steps from in front of it. -/
theorem Steps.after {stream : TokenStream} {eats eats' : α → Prop} {count : Nat}
    {result : EStateM.Result SyntaxError TokenStream α}
    (h : Steps (stream.skip count) eats result) (hinside : count ≤ stream.remaining)
    (hless : ∀ value, eats' value → 0 < count ∨ eats value) : Steps stream eats' result := by
  obtain ⟨value, more, hresult, hmore, htaken⟩ | ⟨expected, more, hresult, hmore, hplain⟩ := h
  · rw [TokenStream.skip_skip] at hresult
    rw [TokenStream.remaining_skip] at hmore
    refine .inl ⟨value, count + more, hresult, by omega, fun heats => ?_⟩
    obtain hcount | heats := hless value heats
    · omega
    · have hpositive := htaken heats
      omega
  · rw [TokenStream.skip_skip] at hresult
    rw [TokenStream.remaining_skip] at hmore
    exact .inr ⟨expected, count + more, hresult, by omega, hplain⟩

namespace ProceedsAt

variable {stream : TokenStream} {eats : α → Prop} {eatsNext : β → Prop} {rule rule' : Grammar α}
  {next next' : α → Grammar β}

theorem pure {value : α} (h : ¬ eats value) :
    ProceedsAt stream eats (Pure.pure value) (Pure.pure value) :=
  ⟨rfl, .inl ⟨value, 0, rfl, Nat.zero_le _, fun heats => absurd heats h⟩⟩

/-- From a bound to a stream below it. -/
theorem below {bound : Nat} (hless : stream.remaining < bound)
    (h : Proceeds bound eats rule rule') : ProceedsAt stream eats rule rule' :=
  h stream hless

theorem fail {expected : Expectation} (h : expected ≠ .progress) :
    ProceedsAt stream eats (Grammar.fail expected) (Grammar.fail expected) :=
  ⟨rfl, .inr ⟨expected, 0, rfl, Nat.zero_le _, h⟩⟩

theorem takeText {eats : Text → Prop} (h : 0 < stream.remaining) :
    ProceedsAt stream eats takeText takeText :=
  ⟨rfl, .inl ⟨_, 1, rfl, h, fun _ => Nat.one_pos⟩⟩

/-- What goes on behind a rule needs to take a token only where the rule took none. -/
theorem bind (h : ProceedsAt stream eats rule rule')
    (hnext : ∀ value count, count ≤ stream.remaining → (eats value → 0 < count) →
      ProceedsAt (stream.skip count) (fun found => eatsNext found ∧ count = 0) (next value)
        (next' value)) :
    ProceedsAt stream eatsNext (rule >>= next) (rule' >>= next') := by
  obtain ⟨hsame, hsteps⟩ := h
  -- the rest is read from where the rule stopped, or not at all
  obtain ⟨value, count, hrun, hinside, heaten⟩ | ⟨expected, count, hrun, hinside, hplain⟩ := hsteps
  · unfold ProceedsAt
    rw [Reader.bind_of_ok (hsame.trans hrun), Reader.bind_of_ok hrun]
    obtain ⟨hagain, hsteps⟩ := hnext value count hinside heaten
    refine ⟨hagain, hsteps.after hinside fun found heats => ?_⟩
    obtain hzero | hpositive := Nat.eq_zero_or_pos count
    · exact .inr ⟨heats, hzero⟩
    · exact .inl hpositive
  · unfold ProceedsAt
    rw [Reader.bind_of_error (hsame.trans hrun), Reader.bind_of_error hrun]
    exact ⟨rfl, .inr ⟨expected, count, rfl, hinside, hplain⟩⟩

/-- Only behind a value that says so has a token been taken. The rest has less to read there. -/
theorem split {bound : Nat} (h : ProceedsAt stream eats rule rule')
    (hless : stream.remaining < bound)
    (hyes : ∀ value, eats value → Proceeds (bound - 1) never (next value) (next' value))
    (hno : ∀ value, ¬ eats value → Proceeds bound eatsNext (next value) (next' value)) :
    ProceedsAt stream eatsNext (rule >>= next) (rule' >>= next') := by
  refine h.bind fun value count hinside heaten => ?_
  have hleft : (stream.skip count).remaining = stream.remaining - count := rfl
  by_cases heats : eats value
  · have hcount := heaten heats
    obtain ⟨hsame, hsteps⟩ := hyes value heats (stream.skip count) (by omega)
    exact ⟨hsame, hsteps.mono fun _ heats => by omega⟩
  · obtain ⟨hsame, hsteps⟩ := hno value heats (stream.skip count) (by omega)
    exact ⟨hsame, hsteps.mono fun _ heats => heats.1⟩

/-- Behind a rule that takes a token, the rest may take none and has less to read. -/
theorem behind {bound : Nat} (h : ProceedsAt stream always rule rule')
    (hless : stream.remaining < bound)
    (hnext : ∀ value, Proceeds (bound - 1) never (next value) (next' value)) :
    ProceedsAt stream eatsNext (rule >>= next) (rule' >>= next') :=
  h.split hless (fun value _ => hnext value) fun _ hnone => absurd trivial hnone

/-- Tokens that are there are skipped in front of the rest. -/
theorem skipped {bound count : Nat} {next next' : Unit → Grammar β}
    (hinside : count ≤ stream.remaining) (hsome : 0 < count) (hless : stream.remaining < bound)
    (hnext : ∀ value, Proceeds (bound - 1) never (next value) (next' value)) :
    ProceedsAt stream eatsNext (Grammar.skip count >>= next) (Grammar.skip count >>= next') := by
  have hskip : ProceedsAt stream always (Grammar.skip count) (Grammar.skip count) :=
    ⟨rfl, .inl ⟨(), count, rfl, hinside, fun _ => hsome⟩⟩
  exact hskip.behind hless hnext

/-- The token ahead is taken in front of the rest. -/
theorem taken {bound : Nat} {next next' : Text → Grammar β} (hsome : 0 < stream.remaining)
    (hless : stream.remaining < bound)
    (hnext : ∀ value, Proceeds (bound - 1) never (next value) (next' value)) :
    ProceedsAt stream eatsNext (Grammar.takeText >>= next) (Grammar.takeText >>= next') := by
  have htext : ProceedsAt stream always Grammar.takeText Grammar.takeText := .takeText hsome
  exact htext.behind hless hnext

theorem ite {condition : Bool} {yes yes' no no' : Grammar α}
    (hyes : condition = true → ProceedsAt stream eats yes yes')
    (hno : condition = false → ProceedsAt stream eats no no') :
    ProceedsAt stream eats (if condition then yes else no) (if condition then yes' else no') := by
  cases condition with
  | true => exact hyes rfl
  | false => exact hno rfl

/-- A test that takes the token it finds decides how to go on. -/
theorem skipIf {bound : Nat} {view : TokenStream → Bool} {yes yes' no no' : Grammar α}
    (hview : view stream = true → 0 < stream.remaining) (hless : stream.remaining < bound)
    (hyes : Proceeds (bound - 1) never yes yes')
    (hno : view stream = false → ProceedsAt stream eats no no') :
    ProceedsAt stream eats (skipIf view >>= fun found => if found then yes else no)
      (skipIf view >>= fun found => if found then yes' else no') := by
  cases hfound : view stream with
  | true =>
    have htaken : ProceedsAt stream eats (Grammar.skip 1 >>= fun _ => yes)
        (Grammar.skip 1 >>= fun _ => yes') :=
      .skipped (hview hfound) Nat.one_pos hless fun _ => hyes
    unfold ProceedsAt
    rw [Reader.bind_of_ok (skipIf_eq_ok.2 ⟨hfound, rfl⟩),
      Reader.bind_of_ok (skipIf_eq_ok.2 ⟨hfound, rfl⟩)]
    exact htaken
  | false =>
    unfold ProceedsAt
    rw [Reader.bind_of_ok (skipIf_eq_ok.2 ⟨hfound, rfl⟩),
      Reader.bind_of_ok (skipIf_eq_ok.2 ⟨hfound, rfl⟩)]
    exact hno hfound

end ProceedsAt

namespace Proceeds

variable {bound : Nat} {eats : α → Prop} {eatsNext : β → Prop} {rule rule' : Grammar α}
  {next next' : α → Grammar β}

/-! ## Combinators -/

theorem less (h : Proceeds (bound + 1) eats rule rule') : Proceeds bound eats rule rule' :=
  fun stream hless => h stream (Nat.lt_succ_of_lt hless)

theorem mono {eats' : α → Prop} (h : Proceeds bound eats rule rule')
    (himp : ∀ value, eats' value → eats value) : Proceeds bound eats' rule rule' := by
  intro stream hless
  obtain ⟨hsame, hsteps⟩ := h stream hless
  exact ⟨hsame, hsteps.mono himp⟩

/-- A rule that takes a token does so whatever its values say. -/
theorem any (h : Proceeds bound always rule rule') : Proceeds bound eats rule rule' :=
  h.mono fun _ _ => trivial

theorem lax (h : Proceeds bound eats rule rule') : Proceeds bound never rule rule' :=
  h.mono fun _ hnone => hnone.elim

theorem pure {value : α} (h : ¬ eats value) :
    Proceeds bound eats (Pure.pure value) (Pure.pure value) :=
  fun _ _ => .pure h

theorem fail {expected : Expectation} (h : expected ≠ .progress) :
    Proceeds bound eats (Grammar.fail expected) (Grammar.fail expected) :=
  fun _ _ => .fail h

theorem look (view : TokenStream → α) : Proceeds bound never (look view) (look view) :=
  fun stream _ => ⟨rfl, .inl ⟨view stream, 0, rfl, Nat.zero_le _, False.elim⟩⟩

theorem skip (count : Nat) : Proceeds bound never (skip count) (skip count) := by
  intro stream _
  refine ⟨rfl, .inl ⟨(), min count stream.remaining, ?_, Nat.min_le_right .., False.elim⟩⟩
  rw [← stream.skip_min]
  rfl

/-- What stands ahead decides how to go on. -/
theorem get {next next' : TokenStream → Grammar α}
    (h : ∀ stream, stream.remaining < bound → ProceedsAt stream eats (next stream) (next' stream)) :
    Proceeds bound eats (MonadState.get >>= next) (MonadState.get >>= next') :=
  h

theorem view {view : TokenStream → α} {next next' : α → Grammar β}
    (h : ∀ stream, stream.remaining < bound →
      ProceedsAt stream eatsNext (next (view stream)) (next' (view stream))) :
    Proceeds bound eatsNext (Grammar.look view >>= next) (Grammar.look view >>= next') :=
  h

/-- Only behind a value that says so has a token been taken. -/
theorem split (h : Proceeds bound eats rule rule')
    (hyes : ∀ value, eats value → Proceeds (bound - 1) never (next value) (next' value))
    (hno : ∀ value, ¬ eats value → Proceeds bound eatsNext (next value) (next' value)) :
    Proceeds bound eatsNext (rule >>= next) (rule' >>= next') :=
  fun stream hless => (h stream hless).split hless hyes hno

theorem bind (h : Proceeds bound never rule rule')
    (hnext : ∀ value, Proceeds bound eatsNext (next value) (next' value)) :
    Proceeds bound eatsNext (rule >>= next) (rule' >>= next') :=
  h.split (fun _ => False.elim) fun value _ => hnext value

/-- Behind a rule that takes a token, the rest may take none and has less to read. -/
theorem behind (h : Proceeds bound always rule rule')
    (hnext : ∀ value, Proceeds (bound - 1) never (next value) (next' value)) :
    Proceeds bound eatsNext (rule >>= next) (rule' >>= next') :=
  fun stream hless => (h stream hless).behind hless hnext

theorem map {f : α → β} (h : Proceeds bound (fun value => eatsNext (f value)) rule rule') :
    Proceeds bound eatsNext (rule >>= fun value => Pure.pure (f value))
      (rule' >>= fun value => Pure.pure (f value)) :=
  h.split (fun _ _ => .pure not_false) fun _ hvalue => .pure hvalue

theorem ite {condition : Bool} {yes yes' no no' : Grammar α}
    (hyes : Proceeds bound eats yes yes') (hno : Proceeds bound eats no no') :
    Proceeds bound eats (if condition then yes else no) (if condition then yes' else no') :=
  fun stream hless => .ite (fun _ => hyes stream hless) fun _ => hno stream hless

/-- A test decides how to go on. -/
theorem branch {test test' : Grammar Bool} {yes yes' no no' : Grammar α}
    (htest : Proceeds bound never test test') (hyes : Proceeds bound eats yes yes')
    (hno : Proceeds bound eats no no') :
    Proceeds bound eats (test >>= fun found => if found then yes else no)
      (test' >>= fun found => if found then yes' else no') :=
  htest.bind fun _ => .ite hyes hno

/-- A test that takes a token when it says yes decides how to go on. -/
theorem branchTaken {test test' : Grammar Bool} {yes yes' no no' : Grammar α}
    (htest : Proceeds bound (· = true) test test') (hyes : Proceeds (bound - 1) never yes yes')
    (hno : Proceeds bound eats no no') :
    Proceeds bound eats (test >>= fun found => if found then yes else no)
      (test' >>= fun found => if found then yes' else no') := by
  refine htest.split (fun found hfound => ?_) fun found hfound => ?_
  · rwa [if_pos hfound, if_pos hfound]
  · rwa [if_neg hfound, if_neg hfound]

theorem require {condition : Bool} {expected : Expectation} (h : expected ≠ .progress) :
    Proceeds bound never (require condition expected) (require condition expected) :=
  .ite (.pure not_false) (.fail h)

/-- An attempt that fails goes back to where it began. -/
theorem attempt (h : Proceeds bound always rule rule') :
    Proceeds bound (·.isSome = true) (Reader.attempt rule) (Reader.attempt rule') := by
  intro stream hless
  unfold ProceedsAt Reader.attempt
  obtain ⟨hsame, hsteps⟩ := h stream hless
  obtain ⟨value, count, hrun, hinside, heaten⟩ | ⟨expected, count, hrun, -⟩ := hsteps
  · rw [hsame, hrun]
    exact ⟨rfl, .inl ⟨some value, count, rfl, hinside, fun _ => heaten trivial⟩⟩
  · rw [hsame, hrun]
    exact ⟨rfl, .inl ⟨none, 0, rfl, Nat.zero_le _, nofun⟩⟩

/-- An optional part whose test takes a token. -/
theorem optional {test test' : Grammar Bool} (htest : Proceeds bound (· = true) test test')
    (h : Proceeds (bound - 1) never rule rule') :
    Proceeds bound (·.isSome = true) (Reader.optional test rule) (Reader.optional test' rule') :=
  htest.branchTaken (h.bind fun _ => .pure not_false) (.pure Bool.false_ne_true)

/-- An optional part that takes a token itself. -/
theorem guarded {test test' : Grammar Bool} (htest : Proceeds bound never test test')
    (h : Proceeds bound always rule rule') :
    Proceeds bound (·.isSome = true) (Reader.optional test rule) (Reader.optional test' rule') :=
  htest.branch (h.behind fun _ => .pure not_false) (.pure Bool.false_ne_true)

/-- A repetition of items that take tokens comes to its end. -/
theorem many {item item' : Grammar (Option α)} (h : Proceeds bound (·.isSome = true) item item') :
    Proceeds bound never (Reader.many item) (Reader.many item') := by
  intro stream
  -- every round that finds an item leaves less
  induction hsize : stream.remaining using Nat.strongRecOn generalizing stream with
  | ind size ih =>
    intro hless
    unfold ProceedsAt
    unfold Reader.many
    obtain ⟨hsame, hsteps⟩ := h stream (hsize ▸ hless)
    obtain ⟨value, count, hrun, hinside, heaten⟩ | ⟨expected, count, hrun, hinside, hplain⟩ := hsteps
    · rw [hsame, hrun]
      cases value with
      | none => exact ⟨rfl, .inl ⟨[], count, rfl, hinside, False.elim⟩⟩
      | some value =>
        have hcount : 0 < count := heaten rfl
        have hleft : (stream.skip count).remaining < stream.remaining := by
          rw [TokenStream.remaining_skip]
          omega
        have hround : Consumable.remaining (stream.skip count) < Consumable.remaining stream :=
          hleft
        simp only [hround, if_true]
        obtain ⟨hagain, hrest⟩ := ih _ (hsize ▸ hleft) _ rfl (by omega)
        have hrest' : Steps stream never _ := hrest.after hinside fun _ => False.elim
        rw [hagain]
        obtain ⟨values, more, hmany, hmore, -⟩ | ⟨expected, more, hmany, hmore, hplain⟩ := hrest'
        · rw [hmany]
          exact ⟨rfl, .inl ⟨value :: values, more, rfl, hmore, False.elim⟩⟩
        · rw [hmany]
          exact ⟨rfl, .inr ⟨expected, more, rfl, hmore, hplain⟩⟩
    · rw [hsame, hrun]
      exact ⟨rfl, .inr ⟨expected, count, rfl, hinside, hplain⟩⟩

theorem separated {separator separator' : Grammar Bool}
    (hseparator : Proceeds bound (· = true) separator separator')
    (h : Proceeds bound always rule rule') {eats : List α → Prop} :
    Proceeds bound eats (Reader.separated separator rule) (Reader.separated separator' rule') := by
  -- a further item comes behind a separator, so it may take nothing and has less to read
  have hless : Proceeds (bound - 1) never rule rule' :=
    fun stream hbelow => h.lax stream (by omega)
  have hothers : Proceeds (bound - 1) never (Reader.many (Reader.optional separator rule))
      (Reader.many (Reader.optional separator' rule')) :=
    fun stream hbelow => (hseparator.optional hless).many stream (by omega)
  refine h.behind fun first => ?_
  exact hothers.bind fun others => .pure not_false

/-- A recursion whose inner calls come behind a token is its rule applied to itself. -/
theorem recursive {build : Grammar α → Grammar α}
    (h : ∀ bound inner inner', Proceeds bound always inner inner' →
      Proceeds (bound + 1) always (build inner) (build inner')) :
    Proceeds bound always (Reader.recursive build) (build (Reader.recursive build)) := by
  intro stream hbound
  -- the inner calls have less to read, so they are covered by the induction
  induction hsize : stream.remaining using Nat.strongRecOn generalizing stream with
  | ind size ih =>
    have hinner : Proceeds stream.remaining always
        (Reader.below stream.remaining (Reader.recursive build)) (Reader.recursive build) := by
      intro rest hless
      have hrun : Reader.below stream.remaining (Reader.recursive build) rest =
          Reader.recursive build rest := Reader.below_run hless
      obtain ⟨hsame, hsteps⟩ := ih _ (hsize ▸ hless) rest (Nat.lt_trans hless hbound) rfl
      exact ⟨hrun, hsame ▸ hsteps⟩
    obtain ⟨hsame, hsteps⟩ := h _ _ _ hinner stream (Nat.lt_succ_self _)
    exact ⟨(Reader.recursive_run build stream).trans hsame, hsteps⟩

/-- The unguarded equation of such a recursion. -/
theorem recursive_eq {build : Grammar α → Grammar α}
    (h : ∀ bound inner inner', Proceeds bound always inner inner' →
      Proceeds (bound + 1) always (build inner) (build inner')) :
    Reader.recursive build = build (Reader.recursive build) :=
  funext fun stream => (recursive h stream (Nat.lt_succ_self _)).1

/-- Such a recursion takes a token. -/
theorem recursive_self {build : Grammar α → Grammar α}
    (h : ∀ bound inner inner', Proceeds bound always inner inner' →
      Proceeds (bound + 1) always (build inner) (build inner')) :
    Proceeds bound eats (Reader.recursive build) (Reader.recursive build) := by
  have hrule : Proceeds bound always _ _ := recursive h
  rw [← recursive_eq h] at hrule
  exact hrule.any

end Proceeds

/-! ## Rules for tokens -/

section

variable {bound : Nat} {eats : α → Prop} {rule rule' : Grammar α}

theorem proceeds_skipIf {view : TokenStream → Bool}
    (h : ∀ stream, view stream = true → 0 < stream.remaining) :
    Proceeds bound (· = true) (skipIf view) (skipIf view) := by
  refine .view fun stream hless => .ite (fun hfound => ?_) fun hfound => .pure ?_
  · exact .skipped (h stream hfound) Nat.one_pos hless fun _ => .pure not_false
  · exact ne_true_of_eq_false hfound

theorem proceeds_takeSymbol (text : Text) :
    Proceeds bound (· = true) (takeSymbol text) (takeSymbol text) :=
  proceeds_skipIf fun _ => TokenStream.lt_of_holds

theorem proceeds_takeWord (text : Text) :
    Proceeds bound (· = true) (takeWord text) (takeWord text) :=
  proceeds_skipIf fun _ => TokenStream.lt_of_holds

theorem proceeds_atSymbol (text : Text) : Proceeds bound never (atSymbol text) (atSymbol text) :=
  .look _

/-- A rule that goes on unless a test says yes. -/
theorem proceeds_unless {test : Grammar Bool} {eatsTest : Bool → Prop}
    (h : Proceeds bound eatsTest test test) :
    Proceeds bound never (test >>= fun found => pure !found)
      (test >>= fun found => pure !found) :=
  h.lax.bind fun _ => .pure not_false

theorem proceeds_symbol {eats : Unit → Prop} {text : Text} :
    Proceeds bound eats (symbol text) (symbol text) := by
  refine (proceeds_takeSymbol text).split (fun _ _ => .require nofun) fun found hfound => ?_
  rw [Bool.not_eq_true] at hfound
  rw [hfound]
  exact .fail nofun

theorem proceeds_takeText : Proceeds bound never takeText takeText := by
  refine (Proceeds.look _).bind fun text => ?_
  exact (Proceeds.skip 1).bind fun _ => .pure not_false

theorem proceeds_identifier {eats : Text → Prop} :
    Proceeds bound eats identifier identifier := by
  refine .view fun stream _ => ?_
  cases hfound : stream.identifierAt 0 with
  | false => exact .fail nofun
  | true => exact .takeText (TokenStream.lt_of_holds hfound)

theorem proceeds_commaSeparated (h : Proceeds bound always rule rule') {eats : List α → Prop} :
    Proceeds bound eats (commaSeparated rule) (commaSeparated rule') :=
  (proceeds_takeSymbol _).separated h

/-- Items in a row behind commas. -/
theorem proceeds_commaItems (h : Proceeds (bound - 1) never rule rule') :
    Proceeds bound never (Reader.many (Reader.optional (takeSymbol ",") rule))
      (Reader.many (Reader.optional (takeSymbol ",") rule')) :=
  ((proceeds_takeSymbol _).optional h).many

end

/-! ## Type references -/

section

variable {bound : Nat}

theorem proceeds_dotBeforeIdentifier :
    Proceeds bound (· = true) dotBeforeIdentifier dotBeforeIdentifier :=
  proceeds_skipIf fun _ hfound => TokenStream.lt_of_holds (Bool.and_eq_true_iff.1 hfound).1

theorem proceeds_bracketPair : Proceeds bound (·.isSome = true) bracketPair bracketPair := by
  refine .view fun stream hless => .ite (fun hfound => ?_) fun _ => .pure Bool.false_ne_true
  have hsecond := TokenStream.lt_of_holds (Bool.and_eq_true_iff.1 hfound).2
  exact .skipped hsecond Nat.two_pos hless fun _ => .pure not_false

theorem proceeds_typeName {inner inner' : Grammar TypeRef} (h : Proceeds bound always inner inner')
    {eats : TypeName → Prop} : Proceeds (bound + 1) eats (typeName inner) (typeName inner') := by
  have harguments : Proceeds bound never (typeArguments inner) (typeArguments inner') := by
    refine (proceeds_takeSymbol _).lax.branch ?_ (.pure not_false)
    refine (proceeds_commaSeparated h).bind fun arguments => ?_
    exact proceeds_symbol.bind fun _ => .pure not_false
  refine proceeds_identifier.behind fun name => ?_
  exact harguments.bind fun arguments => .pure not_false

theorem proceeds_typeRefRule (bound : Nat) (inner inner' : Grammar TypeRef)
    (h : Proceeds bound always inner inner') :
    Proceeds (bound + 1) always (typeRefRule inner) (typeRefRule inner') := by
  have hsegments : Proceeds (bound + 1) always
      (Reader.separated dotBeforeIdentifier (typeName inner))
      (Reader.separated dotBeforeIdentifier (typeName inner')) :=
    proceeds_dotBeforeIdentifier.separated (proceeds_typeName h)
  refine hsegments.behind fun segments => ?_
  exact proceeds_bracketPair.many.bind fun pairs => .pure not_false

theorem proceeds_typeRef {eats : TypeRef → Prop} : Proceeds bound eats typeRef typeRef :=
  .recursive_self proceeds_typeRefRule

/-! ## Modifiers -/

/-- What is enclosed is at least one of the tokens. -/
theorem length_enclosed {opening closing : Text} {depth : Nat} {tokens taken : List Token}
    (h : enclosed opening closing depth tokens = some taken) :
    0 < taken.length ∧ taken.length ≤ tokens.length := by
  obtain ⟨⟨rest, hrest⟩, hagain⟩ := enclosed_eq_some h
  constructor
  · -- nothing encloses nothing
    refine List.length_pos_of_ne_nil fun hnil => ?_
    have hnone := hagain []
    rw [hnil] at hnone
    cases hnone
  · rw [hrest, List.length_append]
    exact Nat.le_add_right ..

theorem proceeds_enclosure {opening closing : Text} {missing : Expectation}
    (hmissing : missing ≠ .progress) {eats : List Token → Prop} :
    Proceeds bound eats (enclosure opening closing missing)
      (enclosure opening closing missing) := by
  refine .get fun stream hless => ?_
  cases hfound : enclosed opening closing 0 stream.tokens with
  | some taken =>
    obtain ⟨hsome, hinside⟩ := length_enclosed hfound
    rw [← stream.remaining_eq] at hinside
    exact .skipped hinside hsome hless fun _ => .pure not_false
  | none =>
    -- a pair that is not closed is looked for to the end
    exact .below hless ((Proceeds.skip _).bind fun _ => .fail hmissing)

theorem proceeds_annotation {eats : Modifier → Prop} :
    Proceeds bound eats annotation annotation := by
  have hnames : Proceeds (bound - 1) never (Reader.separated dotBeforeIdentifier identifier)
      (Reader.separated dotBeforeIdentifier identifier) :=
    proceeds_dotBeforeIdentifier.separated proceeds_identifier
  have henclosure : Proceeds (bound - 1) always (enclosure "(" ")" .annotationEnd)
      (enclosure "(" ")" .annotationEnd) := proceeds_enclosure (by decide)
  have harguments := (proceeds_atSymbol "(").guarded henclosure
  refine proceeds_symbol.behind fun _ => ?_
  refine hnames.bind fun names => ?_
  exact harguments.lax.bind fun arguments => .pure not_false

theorem proceeds_modifier : Proceeds bound (·.isSome = true) modifier modifier := by
  refine .get fun stream hless => ?_
  refine .ite (fun _ => ?_) fun _ => ?_
  · have htaken : Proceeds bound always annotation annotation := proceeds_annotation
    exact .below hless (htaken.behind fun _ => .pure not_false)
  -- a keyword is the token that was seen
  refine .ite (fun hkeyword => ?_) fun _ => ?_
  · have hthere : 0 < stream.remaining := TokenStream.lt_of_holds hkeyword
    exact .taken hthere hless fun _ => .pure not_false
  refine .ite (fun hsharing => ?_) fun _ => .pure Bool.false_ne_true
  have hmode : 0 < stream.remaining :=
    TokenStream.lt_of_holds (Bool.and_eq_true_iff.1 hsharing).1
  refine .taken hmode hless fun mode => ?_
  exact proceeds_takeText.bind fun sharing => .pure not_false

theorem proceeds_modifiers : Proceeds bound never modifiers modifiers :=
  proceeds_modifier.many

end

end Grammar

end ApexLayout
