import ApexLayout.Proofs.Operands
import ApexLayout.Proofs.Progress.Source
import ApexLayout.Proofs.Scanning.Slice

/-!
Queries are slices of the source.

A query goes from an opening bracket among the tokens of a source to the closing one that matches
it. Its text is the source between the two, gaps included, and by itself it is cut into the same
tokens.
-/

namespace ApexLayout

/-- The query is the source from the first to the last of the given tokens, which stand between the
others. -/
structure EmbeddedQuery.Encloses (query : EmbeddedQuery) (source : Text)
    (front inside back : List Token) : Prop where
  tokens : ∃ stream, TokenStream.ofSource source = .ok stream ∧
    stream.tokens = front ++ inside ++ back
  /-- It begins where an opening bracket does, and ends behind a closing one. -/
  slice : ∃ opening between closing, inside = opening :: between ++ [closing] ∧
    opening.isSymbol "[" = true ∧ closing.isSymbol "]" = true ∧
    query.position = some opening.start.position ∧
    Text.Sliced source opening.start.offset closing.finish.offset query.text
  /-- Its text is cut into the same tokens. -/
  alone : ∃ stream, TokenStream.ofSource query.text = .ok stream ∧
    stream.tokens.map Token.content = inside.map Token.content
  balanced : inside.countP (·.isSymbol "[") = inside.countP (·.isSymbol "]")
  /-- The closing bracket is the first that leaves no bracket open. -/
  unclosed : ∀ part, part <+: inside → part ≠ [] → part ≠ inside →
    part.countP (·.isSymbol "]") < part.countP (·.isSymbol "[")

/-- A token is at most one symbol. -/
theorem Token.isSymbol_apart (token : Token) {first second : Text} (hne : first ≠ second)
    (h : token.isSymbol first = true) : token.isSymbol second = false :=
  Piece.isSymbol_eq_false (show token.piece.isSymbol first = true from h) hne

namespace Grammar

/-! ## Balance -/

section

variable {opening closing : Text}

/-- Behind a token one pair more is open if it opens one, and one less if it closes one. -/
theorem depthBehind_add (hpair : opening ≠ closing) {depth : Nat} (hdepth : 0 < depth)
    (token : Token) :
    depthBehind opening closing depth token + (if token.isSymbol closing then 1 else 0) =
      depth + if token.isSymbol opening then 1 else 0 := by
  unfold depthBehind
  cases hopening : token.isSymbol opening with
  | true =>
    simp [token.isSymbol_apart hpair hopening]
  | false =>
    cases token.isSymbol closing with
    | true =>
      simp only [if_true, Bool.false_eq_true, if_false]
      omega
    | false => rfl

/-- What closes some open pairs ends with a closing symbol: in front of it pairs are open all the
time, and with it none is. -/
theorem enclosed_balance (hpair : opening ≠ closing) {depth : Nat} (hdepth : 0 < depth)
    {tokens taken : List Token} (h : enclosed opening closing depth tokens = some taken) :
    ∃ between last, taken = between ++ [last] ∧ last.isSymbol closing = true ∧
      depth + between.countP (·.isSymbol opening) = between.countP (·.isSymbol closing) + 1 ∧
      ∀ part, part <+: between →
        part.countP (·.isSymbol closing) < depth + part.countP (·.isSymbol opening) := by
  induction tokens generalizing depth taken with
  | nil => cases h
  | cons token rest ih =>
    have hstep : enclosed opening closing depth (token :: rest) =
        if depthBehind opening closing depth token = 0 then some [token]
        else (enclosed opening closing (depthBehind opening closing depth token) rest).map
          (token :: ·) := rfl
    have hbehind := depthBehind_add hpair hdepth token
    rw [hstep] at h
    split at h
    case isTrue hzero =>
      -- the last open pair is closed here
      cases h
      rw [hzero] at hbehind
      have hclosing : token.isSymbol closing = true := by
        by_contra hother
        rw [if_neg hother] at hbehind
        omega
      refine ⟨[], token, rfl, hclosing, ?_, fun part hpart => ?_⟩
      · rw [if_pos hclosing] at hbehind
        rw [List.countP_nil, List.countP_nil]
        split at hbehind <;> omega
      · rw [List.prefix_nil.1 hpart, List.countP_nil, List.countP_nil]
        omega
    case isFalse hopen =>
      obtain ⟨others, hothers, rfl⟩ := Option.map_eq_some_iff.1 h
      obtain ⟨between, last, rfl, hlast, hcount, hparts⟩ := ih (Nat.pos_of_ne_zero hopen) hothers
      refine ⟨token :: between, last, rfl, hlast, ?_, fun part hpart => ?_⟩
      · rw [List.countP_cons, List.countP_cons]
        omega
      · cases part with
        | nil =>
          rw [List.countP_nil, List.countP_nil]
          omega
        | cons head part =>
          obtain ⟨rfl, hrest⟩ := List.cons_prefix_cons.1 hpart
          have hless := hparts part hrest
          rw [List.countP_cons, List.countP_cons]
          omega

/-- What is enclosed from an opening symbol on. -/
theorem enclosed_pair (hpair : opening ≠ closing) {first : Token} {tokens taken : List Token}
    (hfirst : first.isSymbol opening = true)
    (h : enclosed opening closing 0 (first :: tokens) = some taken) :
    ∃ between last, taken = first :: between ++ [last] ∧ last.isSymbol closing = true ∧
      taken.countP (·.isSymbol opening) = taken.countP (·.isSymbol closing) ∧
      ∀ part, part <+: taken → part ≠ [] → part ≠ taken →
        part.countP (·.isSymbol closing) < part.countP (·.isSymbol opening) := by
  have hstep : enclosed opening closing 0 (first :: tokens) =
      (enclosed opening closing 1 tokens).map (first :: ·) := by
    rw [enclosed, hfirst]
    rfl
  rw [hstep] at h
  obtain ⟨others, hothers, rfl⟩ := Option.map_eq_some_iff.1 h
  obtain ⟨between, last, rfl, hlast, hcount, hparts⟩ :=
    enclosed_balance hpair Nat.one_pos hothers
  have hfirst' := first.isSymbol_apart hpair hfirst
  have hlast' := last.isSymbol_apart hpair.symm hlast
  refine ⟨between, last, rfl, hlast, ?_, fun part hpart hne hproper => ?_⟩
  · simp only [List.countP_cons, List.countP_append, List.countP_nil, hfirst, hfirst', hlast,
      hlast', if_true, Bool.false_eq_true, if_false]
    omega
  · cases part with
    | nil => exact absurd rfl hne
    | cons head part =>
      obtain ⟨rfl, hrest⟩ := List.cons_prefix_cons.1 hpart
      -- a part that is not all of it ends in front of the last token
      obtain hall | hbetween := List.prefix_concat_iff.1 hrest
      · exact absurd (congrArg (head :: ·) hall) hproper
      · have hless := hparts part hbetween
        simp only [List.countP_cons, hfirst, hfirst', if_true, Bool.false_eq_true, if_false]
        omega

end

/-! ## Runs -/

theorem enclosure_eq_ok {opening closing : Text} {missing : Expectation}
    {source rest : TokenStream} {tokens : List Token}
    (h : enclosure opening closing missing source = .ok tokens rest) :
    enclosed opening closing 0 source.tokens = some tokens := by
  obtain ⟨_, _, hget, h⟩ := Reader.bind_eq_ok.1 h
  cases hget
  cases hfound : enclosed opening closing 0 source.tokens with
  | none =>
    rw [hfound] at h
    obtain ⟨_, _, _, h⟩ := Reader.bind_eq_ok.1 h
    cases h
  | some taken =>
    rw [hfound] at h
    obtain ⟨_, _, _, h⟩ := Reader.bind_eq_ok.1 h
    cases h
    rfl

/-- A query that was read at some place of a source is a slice of it. -/
theorem encloses_of_enclosure {source : Text} {stream rest : TokenStream} {count : Nat}
    {tokens : List Token} (hstream : TokenStream.ofSource source = .ok stream)
    (hahead : (stream.skip count).symbolAt 0 "[" = true)
    (h : enclosure "[" "]" .queryEnd (stream.skip count) = .ok tokens rest) :
    ∃ front back, EmbeddedQuery.Encloses
      ⟨queryText tokens, some (stream.skip count).position⟩ source front tokens back := by
  have hfound := enclosure_eq_ok h
  obtain ⟨⟨back, hback⟩, -⟩ := enclosed_eq_some hfound
  have hplace : (stream.skip count).tokens = stream.tokens.drop count := rfl
  have hrow : stream.tokens = stream.tokens.take count ++ (tokens ++ back) := by
    rw [← hback, hplace, List.take_append_drop]
  unfold TokenStream.symbolAt TokenStream.holds at hahead
  cases htokens : (stream.skip count).tokens with
  | nil =>
    rw [htokens] at hahead
    cases hahead
  | cons first others =>
    rw [htokens] at hahead hfound
    have hopening : first.isSymbol "[" = true := by simpa using hahead
    have hposition : (stream.skip count).position = first.start.position := by
      unfold TokenStream.position
      rw [htokens]
    obtain ⟨between, last, rfl, hclosing, hbalanced, hparts⟩ :=
      enclosed_pair (by decide) hopening hfound
    -- the tokens cut up the whole source, so those of the query cut up a slice of it
    have hcuts := (Scan.cuts_of_ok hstream).1
    rw [hrow] at hcuts
    have htext : queryText (first :: between ++ [last]) =
        first.text ++ (between ++ [last]).flatMap Token.source := by
      rw [List.flatMap_def]
      rfl
    obtain ⟨middle, -, hmiddle⟩ := hcuts.split
    obtain ⟨behind, hinside, -⟩ := hmiddle.split
    refine ⟨stream.tokens.take count, back, ⟨stream, hstream, ?_⟩, ⟨first, between, last, rfl,
      hopening, hclosing, congrArg some hposition, ?_⟩, ?_, hbalanced, hparts⟩
    · rw [List.append_assoc]
      exact hrow
    · rw [htext]
      have hlast : (first :: (between ++ [last])).getLast? = some last := by
        rw [← List.cons_append, List.getLast?_concat]
      exact hcuts.sliced hlast
    · rw [htext]
      exact hinside.ofSource_slice

/-- A query among the operands that were read in a source is a slice of it. -/
theorem Operand.encloses {source : Text} {stream rest : TokenStream} {query : EmbeddedQuery}
    (hstream : TokenStream.ofSource source = .ok stream)
    (h : Operand stream (.primary (.query query)) rest) :
    ∃ front inside back, query.Encloses source front inside back := by
  generalize hnode : Expression.primary (.query query) = node at h
  cases h with
  | primary hread =>
    subst hnode
    cases run_primary hread with
    | leaf hsound => cases hsound
    | query hahead hrun =>
      obtain ⟨front, back, hencloses⟩ := encloses_of_enclosure hstream hahead hrun
      exact ⟨front, _, back, hencloses⟩
  | @step _ _ _ _ value => cases value <;> cases hnode

end Grammar

/-! ## Whole sources -/

theorem Text.Holds.encloses {source : Text} {nodes : List Expression} (h : source.Holds nodes) :
    ∀ query ∈ nodes.filterMap Expression.query?,
      ∃ front inside back, query.Encloses source front inside back := by
  obtain ⟨stream, hstream, hoperands⟩ := h
  intro query hquery
  obtain ⟨node, hnode, hsome⟩ := List.mem_filterMap.1 hquery
  obtain rfl : node = .primary (.query query) := by
    unfold Expression.query? at hsome
    split at hsome
    · cases hsome
      rfl
    · cases hsome
  obtain ⟨rest, hoperand⟩ := hoperands _ hnode rfl
  exact hoperand.encloses hstream

/-- Every query of a tree that is read is an exact slice of the source: it goes from an opening
bracket among the tokens to the closing one that matches it, and its text, taken alone, is cut into
the same tokens. -/
theorem parse_encloses (source : Text) :
    (∀ unit, parseUnit source = .ok unit → ∀ query ∈ unit.queries,
      ∃ front inside back, query.Encloses source front inside back) ∧
    (∀ statement, parseStatement source = .ok statement →
      ∀ query ∈ statement.within.filterMap Expression.query?,
        ∃ front inside back, query.Encloses source front inside back) ∧
    (∀ expression, parseExpression source = .ok expression → ∀ query ∈ expression.queries,
      ∃ front inside back, query.Encloses source front inside back) :=
  ⟨fun _ h => (parseUnit_holds h).encloses, fun _ h => (parseStatement_holds h).encloses,
    fun _ h => (parseExpression_holds h).encloses⟩

/-- Brackets in a string and in a comment do not count, and what they stand in is kept. -/
theorem parse_encloses_brackets :
    ∃ expression : Expression,
      parseExpression "f([a = '\x5b' /* ] */ [b]])" = .ok expression ∧
      expression.queries = [⟨"[a = '\x5b' /* ] */ [b]]", some ⟨1, 3⟩⟩] ∧
      ∀ query ∈ expression.queries, ∃ front inside back,
        query.Encloses "f([a = '\x5b' /* ] */ [b]])" front inside back := by
  refine ⟨.call ['f'] [.primary (.query ⟨"[a = '\x5b' /* ] */ [b]]", some ⟨1, 3⟩⟩)],
    by decide +kernel, rfl, ?_⟩
  exact (parse_encloses "f([a = '\x5b' /* ] */ [b]])").2.2 _ (by decide +kernel)

end ApexLayout
