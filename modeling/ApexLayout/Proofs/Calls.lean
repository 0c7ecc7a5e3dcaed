import ApexLayout.Proofs.Agreement.Source
import ApexLayout.Proofs.Replay.Clause
import ApexLayout.Proofs.Replay.Declaration

/-!
Calls of the whole-source rules, one after another on the same stream.

A rule agrees with itself from every place on, so it leaves the stream some tokens further on, and an
error that it hands up is the one for the token there, however many trials and rounds lie between
(`Grammar.moves_of_agrees`). That is one call; a run of calls only adds the steps up
(`Entry.step_of_calls`).
-/

namespace ApexLayout

/-! ## One rule -/

theorem Token.Alike.refl (blur : Blur) (token : Token) : Token.Alike blur token token :=
  ⟨rfl, rfl, fun _ => rfl, rfl⟩

theorem TokenStream.Alike.refl (blur : Blur) (stream : TokenStream) :
    TokenStream.Alike blur stream stream where
  tokens := List.forall₂_same.2 fun token _ => Token.Alike.refl blur token
  touching _ _ _ := rfl
  query _ _ := rfl

namespace Grammar

variable {α γ : Type}

/-- The rule leaves every stream some tokens further on, whether it succeeds or fails, and a failure
is the error for the place where the stream is left. -/
def Moves (rule : Grammar α) : Prop :=
  ∀ stream : TokenStream, ∃ count, (∃ value, rule stream = .ok value (stream.skip count)) ∨
    ∃ expected, rule stream = .error ((stream.skip count).refusal expected) (stream.skip count)

/-- A rule that agrees with itself on every stream never goes back. -/
theorem moves_of_agrees {see : α → γ} {rule : Grammar α}
    (h : ∀ stream, Agrees stream stream see rule rule) : Moves rule := by
  intro stream
  obtain ⟨value, -, count, -, hrun, -⟩ | ⟨expected, count, hrun, -⟩ := h stream 0
  · exact ⟨count, .inl ⟨value, hrun⟩⟩
  · exact ⟨count, .inr ⟨expected, hrun⟩⟩

theorem whole_eq_ok {rule : Grammar α} {stream final : TokenStream} {value : α}
    (h : whole rule stream = .ok value final) :
    rule stream = .ok value final ∧ final.tokens = [] := by
  obtain ⟨_, middle, hrule, h⟩ := Reader.bind_eq_ok.1 h
  obtain ⟨_, last, hend, h⟩ := Reader.bind_eq_ok.1 h
  cases h
  unfold endOfInput at hend
  obtain ⟨_, _, hlook, hend⟩ := Reader.bind_eq_ok.1 hend
  obtain ⟨rfl, rfl⟩ := look_eq_ok.1 hlook
  obtain ⟨hempty, rfl⟩ := require_eq_ok.1 hend
  exact ⟨hrule, List.isEmpty_iff.1 hempty⟩

/-- Nothing is a statement. -/
theorem statement_ne_nil {source rest : TokenStream} {value : Statement}
    (h : statement source = .ok value rest) : source.pieces ≠ [] := by
  intro hnil
  have hplain : Plain source.pieces := by
    rw [hnil]
    exact ⟨rfl, rfl⟩
  have hrule := (Reader.recursive_run statementRule source).symm.trans h
  rw [statementRule_plain hplain] at hrule
  obtain ⟨ahead, _, hahead, hrule⟩ := Reader.bind_eq_ok.1 hrule
  obtain ⟨rfl, rfl⟩ := look_eq_ok.1 hahead
  have hdml : dmlAhead source = false := by
    unfold dmlAhead
    rw [TokenStream.wordInAt_eq, hnil]
    rfl
  rw [hdml] at hrule
  change simpleStatement source = .ok value rest at hrule
  -- neither a declaration nor an expression begins here
  obtain ⟨found, middle, hfound, hend⟩ := Reader.bind_eq_ok.1 hrule
  cases found with
  | some declaration =>
    obtain ⟨piece, others, hpieces, -⟩ := (localVariables_declares hfound).first
    rw [hnil] at hpieces
    cases hpieces
  | none =>
    obtain ⟨rfl, -⟩ := localVariables_none hfound
    obtain ⟨_, _, hexpression, -⟩ := Reader.bind_eq_ok.1 hend
    have hopens := expression_opens hexpression
    rw [hnil] at hopens
    cases hopens

/-- Nothing is an expression. -/
theorem expression_ne_nil {source rest : TokenStream} {value : Expression}
    (h : expression source = .ok value rest) : source.pieces ≠ [] := by
  intro hnil
  have hopens := expression_opens h
  rw [hnil] at hopens
  cases hopens

/-- Nothing is a compilation unit. -/
theorem compilationUnit_ne_nil {source rest : TokenStream} {value : CompilationUnit}
    (h : compilationUnit source = .ok value rest) : source.pieces ≠ [] := by
  intro hnil
  obtain ⟨_, middle, hmodifiers, h⟩ := Reader.bind_eq_ok.1 h
  obtain ⟨_, _, hdeclaration, -⟩ := Reader.bind_eq_ok.1 h
  obtain ⟨count, rfl⟩ := Advances.modifiers _ _ _ hmodifiers
  have hword := declarationOf_first hdeclaration
  rw [TokenStream.pieces_skip, hnil, List.drop_nil] at hword
  cases hword

end Grammar

/-! ## Calls -/

/-- The whole-source rules that a run may call. -/
inductive Entry
  | unit
  | statement
  | expression

/-- What a call gives when it succeeds. -/
inductive Entry.Tree
  | unit (unit : CompilationUnit)
  | statement (statement : Statement)
  | expression (expression : Expression)

namespace Entry

/-- A call: its result, and where it leaves the stream. -/
def call (entry : Entry) (stream : TokenStream) : Except SyntaxError Tree × TokenStream :=
  match entry with
  | .unit => ((Grammar.whole Grammar.compilationUnit).run stream).map (·.map .unit) id
  | .statement => ((Grammar.whole Grammar.statement).run stream).map (·.map .statement) id
  | .expression => ((Grammar.whole Grammar.expression).run stream).map (·.map .expression) id

/-- Where calls one after another leave a stream. -/
def afterCalls (calls : List Entry) (stream : TokenStream) : TokenStream :=
  calls.foldl (fun stream entry => (entry.call stream).2) stream

/-- What one call does from a place of the stream: it ends at a place that is not in front of it and
not behind the end. A failure is reported for the place where the call ends; a success takes at least
one token and all of them; and from the end on there are only failures, which say so. -/
structure Step {α : Type} (stream : TokenStream) (result : Except SyntaxError α × TokenStream)
    (before after : Nat) : Prop where
  forward : before ≤ after
  inside : after ≤ stream.remaining
  left : result.2 = stream.skip after
  failure : ∀ error, result.1 = .error error → error.position = (stream.skip after).position
  success : ∀ value, result.1 = .ok value → before < after ∧ after = stream.remaining
  finished : before = stream.remaining → ∃ error, result.1 = .error error ∧
    error.position = stream.finish.position ∧ "found end of input".toList <:+ error.text

end Entry

theorem TokenStream.tokens_skip_remaining (stream : TokenStream) :
    (stream.skip stream.remaining).tokens = [] :=
  List.drop_eq_nil_of_le (Nat.le_of_eq stream.remaining_eq.symm)

/-- An error is for the place of the stream that it was made for. -/
theorem TokenStream.refusal_position (stream : TokenStream) (expected : Expectation) :
    (stream.refusal expected).position = stream.position := rfl

/-- An error that was made behind the last token is for the end, and says that the end was found. -/
theorem TokenStream.refusal_finish (stream : TokenStream) (expected : Expectation) :
    ((stream.skip stream.remaining).refusal expected).position = stream.finish.position ∧
      "found end of input".toList <:+ ((stream.skip stream.remaining).refusal expected).text := by
  have hcause : "found end of input".toList <:+ (SyntaxCause.unexpected expected none).text := by
    refine ⟨expected.text ++ ", ".toList, ?_⟩
    rw [List.append_assoc]
    rfl
  unfold refusal position next?
  rw [TokenStream.tokens_skip_remaining]
  exact ⟨rfl, hcause.trans (List.suffix_append ..)⟩

/-- One whole-source rule, run from a place of the stream, makes a step. -/
theorem Grammar.exists_step {α β : Type} {rule : Grammar α} (wrap : α → β)
    (hmoves : Moves (whole rule))
    (hsome : ∀ source value rest, rule source = .ok value rest → source.pieces ≠ [])
    (stream : TokenStream) {before : Nat} (hbefore : before ≤ stream.remaining) :
    ∃ after, Entry.Step stream (((whole rule).run (stream.skip before)).map (·.map wrap) id)
      before after := by
  unfold run
  obtain ⟨count, ⟨value, hrun⟩ | ⟨expected, hrun⟩⟩ := hmoves (stream.skip before)
  · obtain ⟨hrule, hend⟩ := whole_eq_ok hrun
    -- all tokens are taken, and there was one
    have hless : before < stream.remaining := by
      refine Nat.lt_of_le_of_ne hbefore fun hsame => hsome _ _ _ hrule ?_
      rw [hsame, TokenStream.pieces, TokenStream.tokens_skip_remaining]
      rfl
    have hfinal : (stream.skip before).skip count = stream.skip stream.remaining := by
      refine TokenStream.ext ?_ rfl rfl
      rw [hend, TokenStream.tokens_skip_remaining]
    rw [hrun, hfinal]
    exact ⟨stream.remaining, {
      forward := hbefore
      inside := Nat.le_refl _
      left := rfl
      failure := fun error herror => by cases herror
      success := fun _ _ => ⟨hless, rfl⟩
      finished := fun hsame => absurd hsame (Nat.ne_of_lt hless) }⟩
  · rw [hrun, TokenStream.skip_skip, TokenStream.skip_min]
    refine ⟨min (before + count) stream.remaining, {
      forward := by omega
      inside := Nat.min_le_right ..
      left := rfl
      failure := fun error herror => ?_
      success := fun value hvalue => by cases hvalue
      finished := fun hsame => ?_ }⟩
    · -- the error that the run hands up was made for the place where it stops
      obtain rfl : TokenStream.refusal _ expected = error := Except.error.inj herror
      exact TokenStream.refusal_position ..
    · have hstop : min (before + count) stream.remaining = stream.remaining := by omega
      rw [hstop]
      exact ⟨_, rfl, stream.refusal_finish expected⟩

namespace Entry

/-- Every call makes a step. -/
theorem exists_step (entry : Entry) (stream : TokenStream) {before : Nat}
    (hbefore : before ≤ stream.remaining) :
    ∃ after, Step stream (entry.call (stream.skip before)) before after := by
  have hself := TokenStream.Alike.refl .ofQueries
  cases entry with
  | unit =>
    exact Grammar.exists_step Tree.unit
      (Grammar.moves_of_agrees fun stream =>
        Grammar.agrees_whole (hself stream) (Grammar.agrees_compilationUnit (hself stream)))
      (fun _ _ _ => Grammar.compilationUnit_ne_nil) stream hbefore
  | statement =>
    exact Grammar.exists_step Tree.statement
      (Grammar.moves_of_agrees fun stream =>
        Grammar.agrees_whole (hself stream) (Grammar.agrees_statement (hself stream)))
      (fun _ _ _ => Grammar.statement_ne_nil) stream hbefore
  | expression =>
    exact Grammar.exists_step Tree.expression
      (Grammar.moves_of_agrees fun stream =>
        Grammar.agrees_whole (hself stream) (Grammar.agrees_expression (hself stream)))
      (fun _ _ _ => Grammar.expression_ne_nil) stream hbefore

/-- Calls one after another leave the stream at a place that is not in front of where they began. -/
theorem afterCalls_eq_skip (calls : List Entry) (stream : TokenStream) {before : Nat}
    (hbefore : before ≤ stream.remaining) :
    ∃ after, before ≤ after ∧ after ≤ stream.remaining ∧
      afterCalls calls (stream.skip before) = stream.skip after := by
  induction calls generalizing before with
  | nil => exact ⟨before, Nat.le_refl _, hbefore, rfl⟩
  | cons entry calls ih =>
    obtain ⟨middle, hstep⟩ := entry.exists_step stream hbefore
    obtain ⟨after, hforward, hinside, hafter⟩ := ih hstep.inside
    refine ⟨after, Nat.le_trans hstep.forward hforward, hinside, ?_⟩
    rw [← hafter, afterCalls, List.foldl_cons, hstep.left]
    rfl

/-- In any run of calls on a stream of tokens, every call makes a step from the place where the
calls before it left the stream. -/
theorem step_of_calls (stream : TokenStream) (calls : List Entry) (entry : Entry) :
    ∃ before after, afterCalls calls stream = stream.skip before ∧
      Step stream (entry.call (afterCalls calls stream)) before after := by
  obtain ⟨before, -, hinside, hbefore⟩ := afterCalls_eq_skip calls stream (Nat.zero_le _)
  rw [TokenStream.skip_zero] at hbefore
  obtain ⟨after, hstep⟩ := entry.exists_step stream hinside
  rw [hbefore]
  exact ⟨before, after, rfl, hstep⟩

end Entry

end ApexLayout
