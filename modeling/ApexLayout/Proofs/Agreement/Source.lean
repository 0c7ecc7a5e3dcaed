import ApexLayout.Proofs.Agreement.Declaration
import ApexLayout.Proofs.Outcome

/-!
Comments and blanks do not matter.

Two sources with the same tokens are read alike, as long as every `>` touches the `>` or `=` behind
it in both or in neither. Their trees differ at most in their queries, which keep the layout that is
written, and without queries they are formatted alike.
-/

namespace ApexLayout

/-- Whether two streams hold the same code: the same kinds and texts, and every `>` in front of a
`>` or `=` touching it in both or in neither. -/
def TokenStream.SameCode (first second : TokenStream) : Prop :=
  first.tokens.map (fun token => (token.kind, token.text)) =
    second.tokens.map (fun token => (token.kind, token.text)) ∧
  ∀ index < first.remaining, first.symbolAt index ">" = true →
    first.symbolInAt (index + 1) ([">", "="].map String.toList) = true →
    first.holds (index + 1) (·.lead.isEmpty) = second.holds (index + 1) (·.lead.isEmpty)

instance (first second : TokenStream) : Decidable (first.SameCode second) :=
  inferInstanceAs (Decidable (_ ∧ _))

/-- Two results of reading: values that are the same but for what is forgotten, or the same cause
at the token of the same index, the end counting as the token behind the last. -/
inductive SameReading {α : Type} (forget : α → α) (first second : TokenStream) :
    Except SyntaxError α → Except SyntaxError α → Prop
  | ok {value value' : α} (same : forget value = forget value') :
      SameReading forget first second (.ok value) (.ok value')
  | error {index : Nat} {cause : SyntaxCause} (inside : index ≤ first.remaining) :
      SameReading forget first second (.error ⟨(first.skip index).position, cause⟩)
        (.error ⟨(second.skip index).position, cause⟩)

theorem Token.alike_of_same {first second : Token} (hkind : first.kind = second.kind)
    (htext : first.text = second.text) : Token.Alike .ofQueries first second where
  kind := hkind
  text := congrArg _ htext
  symbol _ := htext
  word := congrArg _ htext

/-- Streams with the same code are alike once queries are forgotten. -/
theorem TokenStream.SameCode.alike {first second : TokenStream} (h : first.SameCode second) :
    TokenStream.Alike .ofQueries first second where
  tokens := by
    have htokens := h.1
    generalize first.tokens = tokens at htokens
    generalize second.tokens = tokens' at htokens
    induction tokens generalizing tokens' with
    | nil =>
      rw [List.map_nil, eq_comm, List.map_eq_nil_iff] at htokens
      subst htokens
      exact .nil
    | cons token rest ih =>
      cases tokens' with
      | nil => cases htokens
      | cons token' rest' =>
        obtain ⟨hhead, hrest⟩ := List.cons.inj htokens
        obtain ⟨hkind, htext⟩ := Prod.ext_iff.1 hhead
        exact .cons (Token.alike_of_same hkind htext) (ih rest' hrest)
  touching index hgreater hnext := by
    -- a token stands at the index, so it is inside the stream
    exact h.2 index (lt_of_holds hgreater) hgreater hnext
  query _ _ := rfl

/-- Streams behind their last token are all the same. -/
theorem TokenStream.skip_min (stream : TokenStream) (index : Nat) :
    stream.skip index = stream.skip (min index stream.remaining) := by
  rcases Nat.le_total index stream.remaining with hle | hle
  · rw [Nat.min_eq_left hle]
  · rw [Nat.min_eq_right hle]
    have hlength : stream.tokens.length ≤ index := stream.remaining_eq ▸ hle
    refine TokenStream.ext ?_ rfl rfl
    show stream.tokens.drop index = stream.tokens.drop stream.remaining
    rw [List.drop_eq_nil_of_le hlength, List.drop_eq_nil_of_le (Nat.le_of_eq stream.remaining_eq.symm)]

/-- Rules that agree give the same reading of sources with the same code. -/
theorem Grammar.sameReading {α : Type} {forget : α → α} {rule : Grammar α} {source source' : Text}
    {first second : TokenStream} (hfirst : TokenStream.ofSource source = .ok first)
    (hsecond : TokenStream.ofSource source' = .ok second)
    (h : TokenStream.Alike .ofQueries first second)
    (hrule : Grammar.Agrees first second forget rule rule) :
    SameReading forget first second (Grammar.readSource rule source)
      (Grammar.readSource rule source') := by
  have hread : ∀ {source : Text} {stream : TokenStream}, TokenStream.ofSource source = .ok stream →
      Grammar.readSource rule source = ((Grammar.whole rule).run stream).1 := by
    intro source stream hstream
    unfold Grammar.readSource
    rw [hstream]
    rfl
  rw [hread hfirst, hread hsecond]
  unfold Grammar.run
  obtain ⟨value, value', index, hsame, hrun, hrun'⟩ | ⟨expected, index, hrun, hrun'⟩ :=
    Grammar.agrees_whole h hrule 0
  · rw [TokenStream.skip_zero] at hrun hrun'
    rw [hrun, hrun']
    exact .ok hsame
  · rw [TokenStream.skip_zero] at hrun hrun'
    -- the errors name the same token: forgetting queries changes no text
    have hnext : (first.skip index).next? = (second.skip index).next? := by
      have hblurred := h.next? index
      have htext : Blur.ofQueries.text = id := funext Blur.text_ofQueries
      rw [htext, Option.map_id, id, id] at hblurred
      exact hblurred
    rw [hrun, hrun']
    show SameReading forget first second
      (.error ((first.skip index).refusal expected)) (.error ((second.skip index).refusal expected))
    unfold TokenStream.refusal
    rw [hnext, first.skip_min, second.skip_min, ← h.remaining]
    exact .error (Nat.min_le_right ..)

/-- Comments and blanks do not matter: sources with the same code are read as trees that differ at
most in their queries, or are refused for the same cause at the same token; without queries they
are formatted to the same text under all settings. -/
theorem parse_sameCode {source source' : Text} {first second : TokenStream}
    (hfirst : TokenStream.ofSource source = .ok first)
    (hsecond : TokenStream.ofSource source' = .ok second) (h : first.SameCode second) :
    SameReading (CompilationUnit.blur .ofQueries) first second (parseUnit source)
      (parseUnit source') ∧
    SameReading (Statement.blur .ofQueries) first second (parseStatement source)
      (parseStatement source') ∧
    SameReading (Expression.blur .ofQueries) first second (parseExpression source)
      (parseExpression source') ∧
    ∀ unit, parseUnit source = .ok unit → unit.queries = [] → ∀ settings, ∃ text,
      format settings source = .ok text ∧ format settings source' = .ok text := by
  have halike := h.alike
  have hunits : SameReading (CompilationUnit.blur .ofQueries) first second (parseUnit source)
      (parseUnit source') :=
    Grammar.sameReading hfirst hsecond halike (Grammar.agrees_compilationUnit halike)
  refine ⟨hunits, Grammar.sameReading hfirst hsecond halike (Grammar.agrees_statement halike),
    Grammar.sameReading hfirst hsecond halike (Grammar.agrees_expression halike), ?_⟩
  intro unit hunit hqueries settings
  obtain ⟨text, htext⟩ := format_of_queries settings hunit hqueries
  refine ⟨text, htext, ?_⟩
  -- without queries nothing is forgotten, so both sources have this very unit
  have hunit' : parseUnit source' = .ok unit := by
    rw [hunit] at hunits
    generalize parseUnit source' = result at hunits
    cases hunits with
    | ok hsame => rw [CompilationUnit.eq_of_blur hsame hqueries]
  rw [format_of_parse settings hunit', ← format_of_parse settings hunit, htext]

/-- A comment and a line break between tokens that need not touch. -/
theorem parse_sameCode_comment :
    ∃ first second, TokenStream.ofSource "a >>= b" = .ok first ∧
      TokenStream.ofSource "a/* shift */>>=\n  b" = .ok second ∧ first.SameCode second ∧
      SameReading (Expression.blur .ofQueries) first second (parseExpression "a >>= b")
        (parseExpression "a/* shift */>>=\n  b") := by
  have hsame : (do
      let first ← TokenStream.ofSource "a >>= b"
      let second ← TokenStream.ofSource "a/* shift */>>=\n  b"
      return decide (first.SameCode second)) = .ok true := by
    decide +kernel
  cases hfirst : TokenStream.ofSource "a >>= b" with
  | error error =>
    rw [hfirst] at hsame
    cases hsame
  | ok first =>
    cases hsecond : TokenStream.ofSource "a/* shift */>>=\n  b" with
    | error error =>
      rw [hfirst, hsecond] at hsame
      cases hsame
    | ok second =>
      rw [hfirst, hsecond] at hsame
      have hcode : first.SameCode second := of_decide_eq_true (Except.ok.inj hsame)
      exact ⟨first, second, rfl, rfl, hcode, (parse_sameCode hfirst hsecond hcode).2.2.1⟩

end ApexLayout
