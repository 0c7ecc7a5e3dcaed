import ApexLayout.Proofs.Progress.Declaration
import ApexLayout.Proofs.Runs
import ApexLayout.Proofs.Scanning.Rounds

/-!
Reading a source comes to an end.

The guards of repetition and recursion never fire: whatever the source is, nothing is refused
because a round consumed nothing. The rules that have to take a token (`Grammar.Construct`) and what
the loops read in one round (`Grammar.Item`) are listed, so that each is known to take one on every
stream, also on one that ends too early.
-/

namespace ApexLayout

/-- The error says that a round consumed nothing. -/
def SyntaxError.Stalled (error : SyntaxError) : Prop :=
  ∃ found, error.cause = .unexpected .progress found

/-- There is a value, or an error of the source's own. -/
def Settled {α : Type} (result : Except SyntaxError α) : Prop :=
  ∀ error, result = .error error → ¬ error.Stalled

namespace Grammar

/-! ## What takes a token -/

/-- The rules that take at least one token when they succeed: expressions of every level,
statements, types, members, declarations, and what is tried before it is known to be there. -/
inductive Construct : {α : Type} → Grammar α → Prop
  | expression : Construct expression
  | conditional : Construct (conditional expression)
  | binary : Construct (binary expression)
  | unary : Construct (unary expression)
  | stepped : Construct (stepped expression)
  | primary : Construct (primary expression)
  | query : Construct query
  | arguments : Construct (arguments expression)
  | castType : Construct castType
  | statement : Construct statement
  | block : Construct block
  | simpleStatement : Construct simpleStatement
  | variableHead : Construct variableHead
  | eachHead : Construct eachHead
  | typeRef : Construct typeRef
  | typeList : Construct typeList
  | annotation : Construct annotation
  | member : Construct member
  | interfaceMember : Construct interfaceMember
  | accessor : Construct accessor
  | parameter : Construct parameter
  | parameters : Construct parameters
  | declaration (modifiers : List Modifier) : Construct (declarationOf member modifiers)
  | compilationUnit : Construct compilationUnit

/-- What the loops of the grammar read in one round. -/
inductive Item : {α : Type} → Grammar (Option α) → Prop
  | modifier : Item modifier
  | annotationName : Item (Reader.optional dotBeforeIdentifier identifier)
  | typeName : Item (Reader.optional dotBeforeIdentifier (typeName typeRef))
  | brackets : Item bracketPair
  /-- A further type, argument, element or parameter. -/
  | further {α : Type} {rule : Grammar α} (construct : Construct rule) :
      Item (Reader.optional (takeSymbol ",") rule)
  | entry : Item (Reader.optional (takeSymbol ",") (entry expression))
  | declarator : Item (Reader.optional (takeSymbol ",") (identifier >>= declarator))
  | constant : Item furtherConstant
  | pathName : Item (Reader.optional dotBeforePathName takeText)
  | constructorName : Item (Reader.optional (takeSymbol ".") identifier)
  | step : Item (step expression)
  | front : Item front
  | operation : Item (operation expression)
  | outcomes : Item (outcomes expression)
  | assigned : Item (assigned expression)
  | statement : Item (Reader.optional
      (look fun stream => !(stream.tokens.isEmpty || stream.symbolAt 0 "\x7d")) statement)
  | catchClause : Item (Reader.optional (takeWord "catch") (catchClause statement))
  /-- A member or an accessor. -/
  | braced {α : Type} {rule : Grammar α} (construct : Construct rule) :
      Item (Reader.optional (return !(← atSymbol "\x7d")) rule)

theorem proceeds_construct {α : Type} {rule : Grammar α} (h : Construct rule) (bound : Nat) :
    Proceeds bound always rule rule := by
  cases h with
  | expression => exact proceeds_expression
  | conditional => exact (proceeds_conditional proceeds_expression).less
  | binary => exact (proceeds_binary proceeds_expression).less
  | unary => exact (proceeds_unary proceeds_expression).less
  | stepped => exact (proceeds_stepped proceeds_expression).less
  | primary => exact (proceeds_primary proceeds_expression).less
  | query => exact proceeds_query
  | arguments => exact (proceeds_arguments proceeds_expression).less
  | castType => exact proceeds_castType
  | statement => exact proceeds_statement
  | block => exact proceeds_block
  | simpleStatement => exact proceeds_simpleStatement
  | variableHead => exact proceeds_variableHead
  | eachHead => exact proceeds_eachHead
  | typeRef => exact proceeds_typeRef
  | typeList => exact proceeds_commaSeparated proceeds_typeRef
  | annotation => exact proceeds_annotation
  | member => exact proceeds_member
  | interfaceMember => exact proceeds_interfaceMember
  | accessor => exact proceeds_accessor
  | parameter => exact proceeds_parameter
  | parameters => exact proceeds_parameters
  | declaration modifiers => exact (proceeds_declarationOf proceeds_member modifiers).less
  | compilationUnit => exact proceeds_compilationUnit

theorem proceeds_item {α : Type} {item : Grammar (Option α)} (h : Item item) (bound : Nat) :
    Proceeds bound (·.isSome = true) item item := by
  cases h with
  | modifier => exact proceeds_modifier
  | annotationName => exact proceeds_dotBeforeIdentifier.optional proceeds_identifier
  | typeName =>
    exact proceeds_dotBeforeIdentifier.optional (proceeds_typeName proceeds_typeRef).less
  | brackets => exact proceeds_bracketPair
  | further construct =>
    exact (proceeds_takeSymbol _).optional (proceeds_construct construct _).lax
  | entry => exact (proceeds_takeSymbol _).optional (proceeds_entry proceeds_expression)
  | declarator =>
    exact (proceeds_takeSymbol _).optional (proceeds_identifier.bind proceeds_declarator)
  | constant => exact proceeds_furtherConstant
  | pathName => exact proceeds_pathName
  | constructorName => exact (proceeds_takeSymbol _).optional proceeds_identifier
  | step => exact (proceeds_step proceeds_expression).less
  | front => exact proceeds_front
  | operation => exact (proceeds_operation proceeds_expression).less
  | outcomes => exact (proceeds_outcomes proceeds_expression).less
  | assigned => exact (proceeds_assigned proceeds_expression).less
  | statement => exact proceeds_statements proceeds_statement
  | catchClause => exact (proceeds_catches proceeds_statement).less
  | braced construct => exact proceeds_unlessBrace (proceeds_construct construct _)

/-! ## Open pairs -/

/-- The number of open pairs behind a token. -/
def depthBehind (opening closing : Text) (depth : Nat) (token : Token) : Nat :=
  if token.isSymbol opening then depth + 1
  else if token.isSymbol closing then depth - 1
  else depth

/-- The places that the count of open pairs reaches in a row of tokens, with the count in front of
each. -/
inductive Reaches (opening closing : Text) (tokens : List Token) : Nat → List Token → Prop
  | start : Reaches opening closing tokens 0 tokens
  | next {depth : Nat} {token : Token} {rest : List Token}
      (reached : Reaches opening closing tokens depth (token :: rest))
      (inside : depthBehind opening closing depth token ≠ 0) :
      Reaches opening closing tokens (depthBehind opening closing depth token) rest

/-- What is enclosed is found from any place that the count reaches. -/
theorem Reaches.enclosed_eq {opening closing : Text} {tokens rest : List Token} {depth : Nat}
    (h : Reaches opening closing tokens depth rest) : ∃ passed, tokens = passed ++ rest ∧
      enclosed opening closing 0 tokens =
        (enclosed opening closing depth rest).map (passed ++ ·) := by
  induction h with
  | start => exact ⟨[], rfl, by simp⟩
  | @next depth token rest reached inside ih =>
    obtain ⟨passed, htokens, henclosed⟩ := ih
    have hstep : enclosed opening closing depth (token :: rest) =
        if depthBehind opening closing depth token = 0 then some [token]
        else (enclosed opening closing (depthBehind opening closing depth token) rest).map
          (token :: ·) := rfl
    refine ⟨passed ++ [token], ?_, ?_⟩
    · rw [htokens, List.append_assoc, List.singleton_append]
    · rw [henclosed, hstep, if_neg inside, Option.map_map]
      congr 1
      funext row
      simp

/-- Behind the first token the count is not zero where it is taken further. -/
theorem Reaches.pos {opening closing : Text} {tokens rest : List Token} {depth : Nat}
    (h : Reaches opening closing tokens depth rest) : rest = tokens ∨ 0 < depth := by
  cases h with
  | start => exact .inl rfl
  | next reached inside => exact .inr (Nat.pos_of_ne_zero inside)

/-- Where an opening symbol comes first, a closing symbol finds an open pair. -/
theorem Reaches.pos_of_closing {opening closing : Text} (hpair : opening ≠ closing)
    {stream : TokenStream} (hopening : stream.symbolAt 0 opening = true) {depth : Nat}
    {token : Token} {rest : List Token}
    (h : Reaches opening closing stream.tokens depth (token :: rest))
    (hclosing : token.isSymbol closing = true) : 0 < depth := by
  obtain hfirst | hpos := h.pos
  · -- the first token would be both symbols
    unfold TokenStream.symbolAt TokenStream.holds at hopening
    rw [← hfirst] at hopening
    have hfound : token.isSymbol opening = true := hopening
    unfold Token.isSymbol at hfound hclosing
    rw [Bool.and_eq_true, beq_iff_eq, beq_iff_eq] at hfound hclosing
    exact absurd (hfound.2.symm.trans hclosing.2) hpair
  · exact hpos

/-! ## One stream -/

/-- What reading does on one stream, whichever rule is used. -/
structure Stepping (stream : TokenStream) : Prop where
  /-- A rule that has to take a token takes one when it succeeds, and does not stall. -/
  construct : ∀ {α : Type} (rule : Grammar α), Construct rule → Steps stream always (rule stream)
  /-- A round of a loop takes a token when there is a further item, and does not stall. -/
  item : ∀ {α : Type} (item : Grammar (Option α)), Item item →
    Steps stream (·.isSome = true) (item stream)
  /-- A loop comes to its end. -/
  loop : ∀ {α : Type} (item : Grammar (Option α)), Item item →
    Steps stream never (Reader.many item stream)
  /-- Nothing is found outside the tokens. -/
  lookup : ∀ index test, stream.holds index test = true → index < stream.remaining
  /-- An operator that is found is made of tokens that are there. -/
  binary : ∀ operator count, Operators.binary? stream = some (operator, count) →
    0 < count ∧ count ≤ stream.remaining
  assignment : ∀ operator count, Operators.assignment? stream = some (operator, count) →
    0 < count ∧ count ≤ stream.remaining
  /-- Looking for the end of a pair goes through the places that the count reaches. -/
  count : ∀ opening closing depth rest, Reaches opening closing stream.tokens depth rest →
    ∃ passed, stream.tokens = passed ++ rest ∧ enclosed opening closing 0 stream.tokens =
      (enclosed opening closing depth rest).map (passed ++ ·)
  /-- The arguments of an annotation and a query are counted from their opening symbol on, so a
  closing symbol never finds a count of zero. -/
  depth : ∀ pair ∈ [(("(" : Text), (")" : Text)), ("[", "]")], stream.symbolAt 0 pair.1 = true →
    ∀ depth token rest, Reaches pair.1 pair.2 stream.tokens depth (token :: rest) →
      token.isSymbol pair.2 = true → 0 < depth

theorem stepping (stream : TokenStream) : Stepping stream where
  construct rule h := (proceeds_construct h _ stream (Nat.lt_succ_self _)).2
  item item h := (proceeds_item h _ stream (Nat.lt_succ_self _)).2
  loop item h := ((proceeds_item h _).many stream (Nat.lt_succ_self _)).2
  lookup _ _ := TokenStream.lt_of_holds
  binary _ _ := Operators.binary?_inside
  assignment _ _ := Operators.assignment?_inside
  count _ _ _ _ h := h.enclosed_eq
  depth pair hpair hopening depth token rest h hclosing := by
    refine h.pos_of_closing ?_ hopening hclosing
    simp only [List.mem_cons, List.not_mem_nil, or_false] at hpair
    obtain rfl | rfl := hpair <;> decide

/-! ## Whole sources -/

theorem proceeds_whole {α : Type} {bound : Nat} {rule : Grammar α}
    (h : Proceeds bound always rule rule) : Proceeds bound always (whole rule) (whole rule) := by
  have hend : Proceeds (bound - 1) never endOfInput endOfInput := by
    refine (Proceeds.look _).bind fun ended => ?_
    exact .require (by decide)
  refine h.behind fun value => ?_
  exact hend.bind fun _ => .pure not_false

end Grammar

/-- A scan is not refused for what the grammar expects. -/
theorem Scan.Stuck.ne_unexpected {lead rest : Text} {cause : SyntaxCause}
    (h : Scan.Stuck lead rest cause) (expected : Expectation) (found : Option Text) :
    cause ≠ .unexpected expected found := by
  cases h with
  | comment gap => exact nofun
  | lexeme gap refused =>
    obtain ⟨-, rfl, -⟩ | ⟨rfl, -⟩ := lexeme_error_cases refused
    · exact nofun
    · exact nofun

theorem TokenStream.settled_ofSource (source : Text) : Settled (ofSource source) := by
  rintro error herror ⟨found, hcause⟩
  obtain ⟨tokens, lead, rest, cause, -, hstuck, rfl⟩ := Scan.cuts_of_error herror
  exact hstuck.ne_unexpected _ _ hcause

/-- A rule that takes a token reads a source or refuses it for its own reasons. -/
theorem Grammar.settled_readSource {α : Type} {rule : Grammar α}
    (h : ∀ bound, Proceeds bound always rule rule) (source : Text) :
    Settled (readSource rule source) := by
  rintro error herror ⟨found, hcause⟩
  unfold readSource at herror
  cases hstream : TokenStream.ofSource source with
  | error refusal =>
    -- refused before the rule was used
    rw [hstream] at herror
    obtain rfl : refusal = error := Except.error.inj herror
    exact TokenStream.settled_ofSource source _ hstream ⟨found, hcause⟩
  | ok stream =>
    rw [hstream] at herror
    replace herror : ((whole rule).run stream).1 = .error error := herror
    unfold run at herror
    obtain ⟨-, ⟨value, count, hrun, -⟩ | ⟨failure, count, hrun, -, hplain⟩⟩ :=
      proceeds_whole (h _) stream (Nat.lt_succ_self _)
    · rw [hrun] at herror
      cases herror
    · rw [hrun] at herror
      obtain rfl := Except.error.inj herror
      exact hplain (SyntaxCause.unexpected.inj hcause).1

/-! ## What is cut out of a source -/

/-- The text of a query is a slice of the source, from its first token to the one it stops at. -/
theorem Grammar.sliced_query {source : Text} {stream rest : TokenStream} {count : Nat}
    {value : Expression} (hstream : TokenStream.ofSource source = .ok stream)
    (h : query (stream.skip count) = .ok value rest) :
    ∃ first more last text, (stream.skip count).tokens = first :: more ++ rest.tokens ∧
      (first :: more).getLast? = some last ∧
      value = .primary (.query ⟨text, some (stream.skip count).position⟩) ∧
      Text.Sliced source first.start.offset last.finish.offset text := by
  obtain ⟨position, _, hposition, h⟩ := Reader.bind_eq_ok.1 h
  obtain ⟨rfl, rfl⟩ := look_eq_ok.1 hposition
  obtain ⟨taken, _, htaken, h⟩ := Reader.bind_eq_ok.1 h
  cases h
  obtain ⟨_, _, hget, htaken⟩ := Reader.bind_eq_ok.1 htaken
  cases hget
  cases hfound : enclosed "[" "]" 0 (stream.skip count).tokens with
  | none =>
    rw [hfound] at htaken
    simp [Reader.bind_eq_ok] at htaken
  | some tokens =>
    rw [hfound] at htaken
    obtain ⟨_, _, hskip, htaken⟩ := Reader.bind_eq_ok.1 htaken
    obtain rfl := skip_eq_ok.1 hskip
    cases htaken
    -- what is enclosed is a row of the tokens that were cut off
    obtain ⟨⟨behind, hbehind⟩, -⟩ := enclosed_eq_some hfound
    obtain ⟨hsome, -⟩ := length_enclosed hfound
    obtain ⟨first, more, rfl⟩ := List.exists_cons_of_length_pos hsome
    have hrest : ((stream.skip count).skip (first :: more).length).tokens = behind := by
      show (stream.skip count).tokens.drop _ = behind
      rw [hbehind, List.drop_left]
    have hrow : stream.tokens = stream.tokens.take count ++ (first :: more ++ behind) := by
      rw [← hbehind]
      exact (List.take_append_drop count stream.tokens).symm
    have hcuts := (Scan.cuts_of_ok hstream).1
    rw [hrow] at hcuts
    refine ⟨first, more, _, _, hrest ▸ hbehind, List.getLast?_eq_some_getLast (by simp), ?_,
      hcuts.sliced (List.getLast?_eq_some_getLast (by simp))⟩
    rw [List.flatMap_def]
    rfl

/-- All that is cut out of a source lies inside it, between characters. -/
structure Text.CutInside (source : Text) : Prop where
  /-- A token that was cut off, whether or not the scan comes to the end. -/
  token : ∀ tokens rest, Scan.Cuts .origin source tokens rest →
    ∀ token ∈ tokens, Text.Sliced source token.start.offset token.finish.offset token.text
  /-- What is left where the next token is looked for, behind the gap in front of it. -/
  rest : ∀ tokens lead rest, Scan.Cuts .origin source tokens (lead ++ rest) →
    Text.Sliced source (Mark.origin.advance (tokens.flatMap Token.source ++ lead)).offset
      (Text.byteSize source) rest
  /-- The tokens of a source were cut off it. -/
  cuts : ∀ stream, TokenStream.ofSource source = .ok stream →
    Scan.Cuts .origin source stream.tokens stream.trailing
  /-- A query, from its first token to its last. -/
  query : ∀ stream count value rest, TokenStream.ofSource source = .ok stream →
    Grammar.query (stream.skip count) = .ok value rest → ∃ first more last text,
      (stream.skip count).tokens = first :: more ++ rest.tokens ∧
      (first :: more).getLast? = some last ∧
      value = .primary (.query ⟨text, some (stream.skip count).position⟩) ∧
      Text.Sliced source first.start.offset last.finish.offset text

theorem Text.cutInside (source : Text) : Text.CutInside source where
  token tokens rest hcuts token htoken := by
    obtain ⟨front, back, rfl⟩ := List.append_of_mem htoken
    have hrow : Scan.Cuts .origin source (front ++ ([token] ++ back)) rest := hcuts
    have hsliced := hrow.sliced rfl
    rwa [List.flatMap_nil, List.append_nil] at hsliced
  rest _ _ _ hcuts := hcuts.sliced_rest
  cuts _ hstream := (Scan.cuts_of_ok hstream).1
  query _ _ _ _ hstream hquery := Grammar.sliced_query hstream hquery

/-- Reading always comes to an end: every source is read or refused, and never refused because a
round consumed nothing. Each round of the scanner takes characters or is the last; each rule that
has to take a token does, and so does each round of the loops; the rules that use themselves are
what they are without guards; and what is cut out of a source lies inside it. -/
theorem parse_ends (source : Text) :
    (Settled (TokenStream.ofSource source) ∧ Settled (parseUnit source) ∧
      Settled (parseStatement source) ∧ Settled (parseExpression source)) ∧
    (∀ text, Scan.Advancing text) ∧
    (∀ stream, Grammar.Stepping stream) ∧
    (Grammar.typeRef = Grammar.typeRefRule Grammar.typeRef ∧
      Grammar.expression = Grammar.expressionRule Grammar.expression ∧
      Grammar.statement = Grammar.statementRule Grammar.statement ∧
      Grammar.member = Grammar.memberRule Grammar.member) ∧
    Text.CutInside source := by
  refine ⟨⟨TokenStream.settled_ofSource source, ?_, ?_, ?_⟩, Scan.advancing, Grammar.stepping,
    ⟨Grammar.Proceeds.recursive_eq Grammar.proceeds_typeRefRule, Grammar.expression_eq,
      Grammar.statement_eq, Grammar.member_eq⟩, Text.cutInside source⟩
  · exact Grammar.settled_readSource (fun _ => Grammar.proceeds_compilationUnit) source
  · exact Grammar.settled_readSource (fun _ => Grammar.proceeds_statement) source
  · exact Grammar.settled_readSource (fun _ => Grammar.proceeds_expression) source

/-- A class that stops inside an argument list is refused where it stops. -/
theorem parse_ends_truncated : ∃ error, parseUnit "class A \x7b Object f = g(" = .error error ∧
    error.position = ⟨1, 24⟩ ∧ ¬ error.Stalled := by
  have hrefused : (match parseUnit "class A \x7b Object f = g(" with
      | .ok _ => none
      | .error error => some error.position) = some ⟨1, 24⟩ := by
    decide +kernel
  cases hresult : parseUnit "class A \x7b Object f = g(" with
  | ok unit =>
    rw [hresult] at hrefused
    cases hrefused
  | error error =>
    rw [hresult] at hrefused
    have hsettled := (parse_ends "class A \x7b Object f = g(").1.2.1
    exact ⟨error, rfl, Option.some.inj hrefused, hsettled error hresult⟩

end ApexLayout
