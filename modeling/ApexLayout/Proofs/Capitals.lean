import ApexLayout.Proofs.Agreement.Declaration
import ApexLayout.Proofs.Spelling.Spelled

/-!
Capital letters do not matter.

Nothing that cuts a source into tokens tells a capital letter from the small one, so a source and its
lower-case form are cut at the same places (`Scan.scanFrom_lower`). The two streams are alike, the
rules agree on them, and two sources with the same lower-case form are compared through it.
-/

namespace ApexLayout

/-! ## Letters -/

namespace Text

/-- The ASCII capitals. -/
def capitals : Text := "ABCDEFGHIJKLMNOPQRSTUVWXYZ"

/-- Every character that a small letter replaces is a capital. -/
theorem toLower_eq_self_or (c : Char) : c.toLower = c ∨ c ∈ capitals := by
  by_cases hcapital : c.val ≥ 'A'.val ∧ c.val ≤ 'Z'.val
  · refine .inr ?_
    have hlow : 65 ≤ c.toNat := UInt32.le_iff_toNat_le.1 hcapital.1
    have hhigh : c.toNat ≤ 90 := UInt32.le_iff_toNat_le.1 hcapital.2
    have hcodes : ∀ code < 91, 65 ≤ code → Char.ofNat code ∈ capitals := by decide
    have hcode := hcodes c.toNat (Nat.lt_succ_of_le hhigh) hlow
    rwa [Char.ofNat_toNat] at hcode
  · exact .inl (dif_neg hcapital)

/-- A test that every capital passes. -/
theorem of_capitals {test : Char → Bool} (h : capitals.all test = true) {c : Char}
    (hcapital : c ∈ capitals) : test c = true :=
  List.all_eq_true.1 h c hcapital

/-- A test that holds of a capital as of its small letter is blind to capitals. -/
theorem apply_toLower {α : Type} [DecidableEq α] {test : Char → α}
    (h : capitals.all (fun c => test c.toLower = test c) = true) (c : Char) :
    test c.toLower = test c := by
  rcases toLower_eq_self_or c with hsame | hcapital
  · rw [hsame]
  · exact of_decide_eq_true (of_capitals h hcapital)

/-- A character that is no letter stands for itself only. -/
theorem toLower_eq_iff {c other : Char} (hother : other.isAlpha = false) :
    c.toLower = other ↔ c = other := by
  rcases toLower_eq_self_or c with hsame | hcapital
  · rw [hsame]
  · have hletter : c.isAlpha = true := of_capitals (by decide) hcapital
    have hsmall : c.toLower.isAlpha = c.isAlpha := apply_toLower (by decide) c
    constructor
    · rintro rfl
      rw [hsmall, hletter] at hother
      cases hother
    · rintro rfl
      rw [hletter] at hother
      cases hother

theorem lower_cons (c : Char) (text : Text) : lower (c :: text) = c.toLower :: lower text := rfl

theorem lower_append (first second : Text) : lower (first ++ second) = lower first ++ lower second :=
  List.map_append

theorem length_lower (text : Text) : (lower text).length = text.length :=
  List.length_map _

theorem lower_drop (text : Text) (count : Nat) : lower (text.drop count) = (lower text).drop count :=
  List.map_drop

/-- Where two characters that are no letters do not begin a text, they do not begin its lower-case
form. -/
theorem not_pair_lower {c first second : Char} {rest : Text} (hfirst : first.isAlpha = false)
    (hsecond : second.isAlpha = false) (h : ∀ more, c = first → rest = second :: more → False) :
    ∀ more, c.toLower = first → lower rest = second :: more → False := by
  intro more hc hrest
  cases rest with
  | nil => cases hrest
  | cons next rest =>
    have hnext := (toLower_eq_iff hsecond).1 (List.cons.inj hrest).1
    exact h rest ((toLower_eq_iff hfirst).1 hc) (by rw [hnext])

end Text

theorem Mark.step_toLower (mark : Mark) (c : Char) : mark.step c.toLower = mark.step c := by
  have hsize : c.toLower.utf8Size = c.utf8Size := Text.apply_toLower (by decide) c
  unfold step
  rw [hsize]
  simp only [Text.toLower_eq_iff (show '\n'.isAlpha = false by decide)]

theorem Mark.advance_lower (mark : Mark) (text : Text) :
    mark.advance (Text.lower text) = mark.advance text := by
  induction text generalizing mark with
  | nil => rfl
  | cons c rest ih =>
    show (mark.step c.toLower).advance (Text.lower rest) = (mark.step c).advance rest
    rw [mark.step_toLower, ih]

/-! ## Cutting -/

namespace Scan

open Text (lower)

/-- A gap ends at the same place. -/
theorem gapSize_lower (state : GapState) (count : Nat) (text : Text) :
    gapSize state count (lower text) = gapSize state count text := by
  fun_induction gapSize state count text with
  | case1 n rest ih => exact ih
  | case2 n rest ih => exact ih
  | case3 n c rest hline hblock hblank ih =>
    have hsame : Text.isBlank c.toLower = Text.isBlank c := Text.apply_toLower (by decide) c
    -- a small letter begins a comment exactly if the capital does, and neither one does
    rw [Text.lower_cons, gapSize, hsame, if_pos hblank, ih]
    · exact Text.not_pair_lower (by decide) (by decide) hline
    · exact Text.not_pair_lower (by decide) (by decide) hblock
  | case4 n c rest hline hblock hblank =>
    have hsame : Text.isBlank c.toLower = Text.isBlank c := Text.apply_toLower (by decide) c
    rw [Text.lower_cons, gapSize, hsame, if_neg hblank]
    · exact Text.not_pair_lower (by decide) (by decide) hline
    · exact Text.not_pair_lower (by decide) (by decide) hblock
  | case5 n => rfl
  | case6 n c rest ih =>
    rw [Text.lower_cons, gapSize]
    simp only [Text.toLower_eq_iff (show '\n'.isAlpha = false by decide)]
    exact ih
  | case7 n => rfl
  | case8 start n rest ih => exact ih
  | case9 start n c rest hclose ih =>
    rw [Text.lower_cons, gapSize, ih]
    exact Text.not_pair_lower (by decide) (by decide) hclose
  | case10 => rfl

/-- A run of a class of characters has the same size. -/
theorem run_lower {test : Char → Bool}
    (h : Text.capitals.all (fun c => test c.toLower = test c) = true) (text : Text) :
    run test (lower text) = run test text := by
  unfold run lower
  rw [List.takeWhile_map, List.length_map]
  exact congrArg (fun test => (text.takeWhile test).length) (funext (Text.apply_toLower h))

theorem run_isDigit_lower (text : Text) : run Char.isDigit (lower text) = run Char.isDigit text :=
  run_lower (by decide) text

theorem fractionSize_lower (text : Text) : fractionSize (lower text) = fractionSize text := by
  cases text with
  | nil => rfl
  | cons c rest =>
    by_cases hc : c = '.'
    · subst hc
      show (if run Char.isDigit (lower rest) = 0 then 0 else run Char.isDigit (lower rest) + 1) = _
      rw [run_isDigit_lower]
      rfl
    · have hnone : ∀ {c : Char} (rest : Text), c ≠ '.' → fractionSize (c :: rest) = 0 := by
        intro c rest hc
        unfold fractionSize
        split
        · rename_i heq
          exact absurd (List.cons.inj heq).1 hc
        · rfl
      have hlower : c.toLower ≠ '.' := fun hdot => hc ((Text.toLower_eq_iff (by decide)).1 hdot)
      rw [Text.lower_cons, hnone _ hlower, hnone _ hc]

theorem markerSize_lower (text : Text) : markerSize (lower text) = markerSize text := by
  cases text with
  | nil => rfl
  | cons c rest =>
    have hmarker : markerSize [c.toLower] = markerSize [c] :=
      @Text.apply_toLower _ _ (fun c => markerSize [c]) (by decide) c
    exact hmarker

theorem numberTail_lower (text : Text) : numberTail (lower text) = numberTail text := by
  unfold numberTail
  simp only [run_isDigit_lower, ← Text.lower_drop, fractionSize_lower, markerSize_lower]

theorem stringTail_lower (count : Nat) (text : Text) :
    stringTail count (lower text) = stringTail count text := by
  fun_induction stringTail count text with
  | case1 n c rest ih => exact ih
  | case2 n rest => rfl
  | case3 n rest => rfl
  | case4 n c rest hescape hquote hline ih =>
    rw [Text.lower_cons, stringTail, ih]
    · intro next more hc hrest
      cases rest with
      | nil => cases hrest
      | cons next rest => exact hescape next rest ((Text.toLower_eq_iff (by decide)).1 hc) rfl
    · exact fun hc => hquote ((Text.toLower_eq_iff (by decide)).1 hc)
    · exact fun hc => hline ((Text.toLower_eq_iff (by decide)).1 hc)
  | case5 => rfl

/-- Symbols have no letters. -/
theorem symbols_no_letters {symbol : Text} (hsymbol : symbol ∈ symbols) {c : Char}
    (hc : c ∈ symbol) : c.isAlpha = false := by
  have hnone : symbols.all (·.all (!·.isAlpha)) = true := by decide
  have hletter := List.all_eq_true.1 (List.all_eq_true.1 hnone symbol hsymbol) c hc
  exact Bool.not_eq_eq_eq_not.1 hletter

theorem isPrefixOf_lower {symbol : Text} (h : ∀ c ∈ symbol, c.isAlpha = false) (text : Text) :
    symbol.isPrefixOf (lower text) = symbol.isPrefixOf text := by
  induction symbol generalizing text with
  | nil => simp
  | cons first symbol ih =>
    cases text with
    | nil => rfl
    | cons c text =>
      have hfirst : (first == c.toLower) = (first == c) := by
        rw [Bool.eq_iff_iff, beq_iff_eq, beq_iff_eq, eq_comm,
          Text.toLower_eq_iff (h first List.mem_cons_self), eq_comm]
      rw [Text.lower_cons, List.isPrefixOf, List.isPrefixOf, hfirst,
        ih (fun c hc => h c (List.mem_cons_of_mem _ hc))]

/-- A token is of the same kind and ends at the same place, or begins nowhere for the same cause. -/
theorem lexeme_lower (c : Char) (rest : Text) : lexeme c.toLower (lower rest) = lexeme c rest := by
  have hword : isWordStart c.toLower = isWordStart c := Text.apply_toLower (by decide) c
  have hdigit : c.toLower.isDigit = c.isDigit := Text.apply_toLower (by decide) c
  have hsymbol : symbols.find? (·.isPrefixOf (c.toLower :: lower rest)) =
      symbols.find? (·.isPrefixOf (c :: rest)) :=
    List.find?_congr fun _ hmem => isPrefixOf_lower (fun _ => symbols_no_letters hmem) (c :: rest)
  unfold lexeme
  rw [hword, hdigit, stringTail_lower, numberTail_lower, hsymbol, run_lower (by decide)]
  simp only [Text.toLower_eq_iff (show '\x27'.isAlpha = false by decide)]
  by_cases hstart : isWordStart c = true
  · rw [if_pos hstart, if_pos hstart]
  · -- a character that begins no word is no capital
    have hsame : c.toLower = c := by
      refine (Text.toLower_eq_self_or c).resolve_right fun hcapital => hstart ?_
      exact Text.of_capitals (by decide) hcapital
    rw [hsame]

end Scan

/-! ## Streams -/

/-- The token with its text and what stands in front of it in lower case. -/
def Token.lower (token : Token) : Token :=
  ⟨token.kind, Text.lower token.text, Text.lower token.lead, token.start⟩

/-- The stream with everything in lower case. -/
def TokenStream.lower (stream : TokenStream) : TokenStream where
  tokens := stream.tokens.map Token.lower
  trailing := Text.lower stream.trailing
  finish := stream.finish
  remaining := stream.remaining
  remaining_eq := by rw [List.length_map, stream.remaining_eq]

namespace TokenStream

theorem lower_skip (stream : TokenStream) (count : Nat) :
    stream.lower.skip count = (stream.skip count).lower :=
  TokenStream.ext List.map_drop.symm rfl rfl

theorem position_lower (stream : TokenStream) : stream.lower.position = stream.position := by
  obtain ⟨tokens, trailing, finish, remaining, hremaining⟩ := stream
  cases tokens <;> rfl

theorem next?_lower (stream : TokenStream) : stream.lower.next? = stream.next?.map Text.lower := by
  obtain ⟨tokens, trailing, finish, remaining, hremaining⟩ := stream
  cases tokens <;> rfl

end TokenStream

theorem Token.finish_lower (token : Token) : token.lower.finish = token.finish :=
  Mark.advance_lower token.start token.text

theorem Token.source_lower (token : Token) : token.lower.source = Text.lower token.source :=
  (Text.lower_append token.lead token.text).symm

theorem TokenStream.lower_pushAll (stream : TokenStream) (tokens : List Token) :
    stream.lower.pushAll (tokens.map Token.lower) = (stream.pushAll tokens).lower := by
  induction tokens with
  | nil => rfl
  | cons token tokens ih => exact congrArg (·.push token.lower) ih

namespace Scan

variable {mark : Mark} {text rest : Text}

theorem CutsOne.lower {token : Token} (h : CutsOne mark text token rest) :
    CutsOne mark (Text.lower text) token.lower (Text.lower rest) := by
  obtain ⟨hsource, hgap, ⟨c, tail, hword, hlexeme⟩, hstart⟩ := h
  refine ⟨?_, ?_, ⟨c.toLower, Text.lower tail, ?_, ?_⟩, ?_⟩
  · rw [hsource, Text.lower_append, token.source_lower]
  · rw [gapSize_lower, hgap]
    exact congrArg Except.ok (Text.length_lower _).symm
  · rw [Token.lower, hword, Text.lower_cons]
  · rw [← Text.lower_append, lexeme_lower, hlexeme, Text.length_lower]
    rfl
  · rw [Token.lower, hstart, Mark.advance_lower]

theorem Cuts.lower {tokens : List Token} (h : Cuts mark text tokens rest) :
    Cuts mark (Text.lower text) (tokens.map Token.lower) (Text.lower rest) := by
  induction h with
  | nil => exact .nil
  | cons first _ ih =>
    rw [← Token.finish_lower] at ih
    exact .cons first.lower ih

theorem Stuck.lower {lead : Text} {cause : SyntaxCause} (h : Stuck lead rest cause) :
    Stuck (Text.lower lead) (Text.lower rest) cause := by
  cases h with
  | comment gap =>
    refine .comment ?_
    rw [← Text.lower_append, gapSize_lower, gap, Text.length_lower]
  | lexeme gap refused =>
    rw [Text.lower_cons]
    refine .lexeme ?_ ((lexeme_lower _ _).trans refused)
    rw [← Text.lower_cons, ← Text.lower_append, gapSize_lower, gap, Text.length_lower]

/-- A source in lower case is cut at the same places, or refused for the same cause at the same
place. -/
theorem scanFrom_lower (mark : Mark) (text : Text) :
    scanFrom mark (Text.lower text) = (scanFrom mark text).map TokenStream.lower := by
  obtain ⟨tokens, rest, hcuts, hlast⟩ := exists_cuts mark text
  have hsource : (tokens.map Token.lower).flatMap Token.source =
      Text.lower (tokens.flatMap Token.source) := by
    rw [List.flatMap_map, Text.lower, List.map_flatMap]
    exact List.flatMap_congr fun token _ => token.source_lower
  rw [hcuts.scanFrom_eq, hcuts.lower.scanFrom_eq, hsource, Mark.advance_lower]
  rcases hlast with hend | ⟨lead, bad, cause, rfl, hstuck⟩
  · have hlower : gapSize .blank 0 (Text.lower rest) = .ok (Text.lower rest).length := by
      rw [gapSize_lower, hend, Text.length_lower]
    rw [scanFrom_end hend List.drop_length, scanFrom_end hlower List.drop_length, List.take_length,
      List.take_length, Mark.advance_lower]
    exact congrArg Except.ok (TokenStream.lower_pushAll (.empty rest _) tokens)
  · rw [Text.lower_append, hstuck.scanFrom_eq, hstuck.lower.scanFrom_eq, Mark.advance_lower]
    rfl

end Scan

/-! ## Trees -/

/-- The blur that forgets the case of letters, in queries too. -/
def Blur.ofCase : Blur :=
  ⟨Char.toLower, fun embedded => ⟨Text.lower embedded.text, embedded.position⟩⟩

theorem Grammar.queryText_lower (tokens : List Token) :
    queryText (tokens.map Token.lower) = Text.lower (queryText tokens) := by
  have hsources : ∀ tokens : List Token, ((tokens.map Token.lower).map Token.source).flatten =
      Text.lower (tokens.map Token.source).flatten := by
    intro tokens
    induction tokens with
    | nil => rfl
    | cons token rest ih =>
      simp only [List.map_cons, List.flatten_cons, Text.lower_append, ih]
      rw [Token.source, Token.source, Text.lower_append]
      rfl
  cases tokens with
  | nil => rfl
  | cons token rest =>
    show Text.lower token.text ++ ((rest.map Token.lower).map Token.source).flatten = _
    rw [hsources, ← Text.lower_append]
    rfl

/-- A source and its lower-case form have streams that the grammar cannot tell apart but for the
case of letters. -/
theorem TokenStream.alike_lower {source : Text} {stream : TokenStream}
    (h : ofSource source = .ok stream) : TokenStream.Alike .ofCase stream stream.lower where
  tokens := by
    refine List.forall₂_map_right_iff.2 (List.forall₂_same.2 fun token htoken => ?_)
    refine ⟨rfl, (Text.lower_lower token.text).symm, fun hkind => ?_,
      (Text.lower_lower token.text).symm⟩
    -- a symbol has no letters
    have hlexeme := lexeme_of_ofSource h token.piece (List.mem_map_of_mem htoken)
    have hsymbol := hlexeme.symbol_mem hkind
    refine (List.map_eq_self fun c hc => (Text.toLower_eq_self_or c).resolve_right fun hcapital => ?_).symm
    have hletter : c.isAlpha = true := Text.of_capitals (by decide) hcapital
    rw [Scan.symbols_no_letters hsymbol hc] at hletter
    cases hletter
  touching index _ _ := by
    unfold holds
    show _ = Option.any _ (stream.tokens.map Token.lower)[index + 1]?
    rw [List.getElem?_map, Option.any_map]
    refine congrArg (Option.any · _) (funext fun token => ?_)
    exact (List.isEmpty_map ..).symm
  query index count := by
    have htokens : (stream.lower.skip index).tokens.take count =
        ((stream.skip index).tokens.take count).map Token.lower := by
      rw [lower_skip]
      exact List.map_take.symm
    have hposition : (stream.lower.skip index).position = (stream.skip index).position := by
      rw [lower_skip, position_lower]
    rw [htokens, hposition, Grammar.queryText_lower]
    show EmbeddedQuery.mk _ _ = EmbeddedQuery.mk _ _
    rw [Text.lower_lower]

/-- The two results are the same but for the case of letters: values that look the same, or errors
at the same place. -/
inductive SameButCase {α : Type} (see : α → α) :
    Except SyntaxError α → Except SyntaxError α → Prop
  | ok {value value' : α} (same : see value = see value') : SameButCase see (.ok value) (.ok value')
  | error {error error' : SyntaxError} (position : error.position = error'.position)
      (text : Text.lower error.text = Text.lower error'.text) :
      SameButCase see (.error error) (.error error')

namespace SameButCase

variable {α : Type} {see : α → α} {first second third : Except SyntaxError α}

theorem symm (h : SameButCase see first second) : SameButCase see second first := by
  cases h with
  | ok same => exact .ok same.symm
  | error position text => exact .error position.symm text.symm

theorem trans (h : SameButCase see first second) (h' : SameButCase see second third) :
    SameButCase see first third := by
  cases h with
  | ok same =>
    cases h' with
    | ok same' => exact .ok (same.trans same')
  | error position text =>
    cases h' with
    | error position' text' => exact .error (position.trans position') (text.trans text')

end SameButCase

theorem Text.lower_quoted_lower (text : Text) :
    Text.lower (Text.quoted (Text.lower text)) = Text.lower (Text.quoted text) := by
  unfold Text.quoted
  simp only [Text.lower_append, Text.lower_lower]

/-- What an error says of the next token, in lower case. -/
theorem SyntaxError.lower_unexpected (position : Position) (expected : Expectation)
    (found : Option Text) :
    Text.lower (SyntaxError.mk position (.unexpected expected (found.map Text.lower))).text =
      Text.lower (SyntaxError.mk position (.unexpected expected found)).text := by
  have hcause : Text.lower (SyntaxCause.unexpected expected (found.map Text.lower)).text =
      Text.lower (SyntaxCause.unexpected expected found).text := by
    cases found with
    | none => rw [Option.map_none]
    | some text =>
      show Text.lower (expected.text ++ ", found ".toList ++ Text.quoted (Text.lower text)) =
        Text.lower (expected.text ++ ", found ".toList ++ Text.quoted text)
      rw [Text.lower_append, Text.lower_append (_ ++ _), Text.lower_quoted_lower]
  unfold text message
  rw [Text.lower_append, hcause, ← Text.lower_append]

/-- A rule that agrees on a source and its lower-case form reads both alike. -/
theorem Grammar.readSource_lower {α : Type} {see : α → α} {rule : Grammar α}
    (hrule : ∀ {first second : TokenStream}, TokenStream.Alike .ofCase first second →
      Agrees first second see rule rule) (source : Text) :
    SameButCase see (readSource rule source) (readSource rule (Text.lower source)) := by
  have hscan := Scan.scanFrom_lower Mark.origin source
  unfold readSource TokenStream.ofSource
  rw [hscan]
  cases hstream : Scan.scanFrom Mark.origin source with
  | error error => exact .error rfl rfl
  | ok stream =>
    have halike := TokenStream.alike_lower hstream
    show SameButCase see ((whole rule).run stream).1 ((whole rule).run stream.lower).1
    unfold run
    obtain ⟨value, value', index, hsame, hrun, hrun'⟩ | ⟨expected, index, hrun, hrun'⟩ :=
      agrees_whole halike (hrule halike) 0
    · rw [TokenStream.skip_zero] at hrun hrun'
      rw [hrun, hrun']
      exact .ok hsame
    · rw [TokenStream.skip_zero] at hrun hrun'
      rw [hrun, hrun']
      simp only [TokenStream.refusal, TokenStream.lower_skip, TokenStream.position_lower,
        TokenStream.next?_lower]
      exact .error rfl (SyntaxError.lower_unexpected ..).symm

/-- Capital letters do not matter: sources that differ only in the case of letters, in words or
anywhere else, are read as trees that are the same in lower case, or refused at the same place with
messages that are the same in lower case. -/
theorem parse_sameButCase {source source' : Text} (h : Text.lower source = Text.lower source') :
    SameButCase (CompilationUnit.blur .ofCase) (parseUnit source) (parseUnit source') ∧
    SameButCase (Statement.blur .ofCase) (parseStatement source) (parseStatement source') ∧
    SameButCase (Expression.blur .ofCase) (parseExpression source) (parseExpression source') := by
  have hsame : ∀ {α : Type} {see : α → α} {rule : Grammar α},
      (∀ {first second : TokenStream}, TokenStream.Alike .ofCase first second →
        Grammar.Agrees first second see rule rule) →
      SameButCase see (Grammar.readSource rule source) (Grammar.readSource rule source') := by
    intro α see rule hrule
    have hfirst := Grammar.readSource_lower hrule source
    rw [h] at hfirst
    exact hfirst.trans (Grammar.readSource_lower hrule source').symm
  exact ⟨hsame Grammar.agrees_compilationUnit, hsame Grammar.agrees_statement,
    hsame Grammar.agrees_expression⟩

/-- A keyword, a type and a query in other letters. -/
theorem parse_sameButCase_keyword :
    Text.lower "NEW Box([Select Id From T])" = Text.lower "new box([SELECT id FROM t])" ∧
      (parseExpression "NEW Box([Select Id From T])").toBool = true ∧
      SameButCase (Expression.blur .ofCase) (parseExpression "NEW Box([Select Id From T])")
        (parseExpression "new box([SELECT id FROM t])") :=
  ⟨by decide, by decide +kernel, (parse_sameButCase (by decide)).2.2⟩

end ApexLayout
