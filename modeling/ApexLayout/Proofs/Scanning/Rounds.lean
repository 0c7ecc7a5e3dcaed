import ApexLayout.Proofs.Scanning.Refusal

/-!
The rounds of a scan.

A gap, a string and the whole scan are read in rounds. Each round takes at least one character or is
the last (`Scan.gapSize_round`, `Scan.stringTail_round`, `Scan.round_of_scan`), and what has been
cut off so far can be found again in the source between two byte offsets (`Scan.Cuts.sliced`).
-/

namespace ApexLayout

/-- The bytes of a source between two offsets are a text: both offsets are inside the source, and a
character begins or the source ends there. -/
def Text.Sliced (source : Text) (start finish : Nat) (text : Text) : Prop :=
  ∃ before after, source = before ++ text ++ after ∧ start = Text.byteSize before ∧
    finish = Text.byteSize (before ++ text)

namespace Scan

/-! ## Gaps -/

/-- One round of a gap: the state behind it and the number of its characters, unless the gap ends
there. -/
def gapRound : GapState → Nat → Text → Option (GapState × Nat)
  | .blank, _, '/' :: '/' :: _ => some (.line, 2)
  | .blank, n, '/' :: '*' :: _ => some (.block n, 2)
  | .blank, _, c :: _ => if Text.isBlank c then some (.blank, 1) else none
  | .line, _, c :: _ => some (if c = '\n' then .blank else .line, 1)
  | .block _, _, '*' :: '/' :: _ => some (.blank, 2)
  | .block start, _, _ :: _ => some (.block start, 1)
  | _, _, [] => none

/-- What a gap is when it ends: one that ends inside a block comment cannot be measured. -/
def gapEnd : GapState → Nat → Except Nat Nat
  | .block start, _ => .error start
  | _, n => .ok n

/-- A gap is read round by round. -/
theorem gapSize_round (state : GapState) (count : Nat) (text : Text) :
    gapSize state count text =
      match gapRound state count text with
      | some (next, taken) => gapSize next (count + taken) (text.drop taken)
      | none => gapEnd state count := by
  fun_cases gapRound state count text with
  | case8 => cases state <;> simp [gapSize, gapEnd]
  | _ => simp_all [gapSize, gapEnd]

/-- A round of a gap takes characters that are there. -/
theorem gapRound_size {state next : GapState} {count taken : Nat} {text : Text}
    (h : gapRound state count text = some (next, taken)) : 0 < taken ∧ taken ≤ text.length := by
  fun_cases gapRound state count text with
  | case4 => simp_all [gapRound]
  | case8 => simp_all [gapRound]
  | _ =>
    simp_all only [gapRound, if_true, Option.some.injEq, Prod.mk.injEq, List.length_cons]
    omega

/-! ## Strings and rows of characters -/

/-- One round inside a string: the number of characters it takes, unless the string ends there. -/
def stringRound : Text → Option Nat
  | '\\' :: _ :: _ => some 2
  | '\x27' :: _ => none
  | '\n' :: _ => none
  | _ :: _ => some 1
  | [] => none

/-- A string is read round by round, up to a quote or in vain. -/
theorem stringTail_round (count : Nat) (text : Text) :
    stringTail count text =
      match stringRound text with
      | some taken => stringTail (count + taken) (text.drop taken)
      | none => if text.head? = some '\x27' then some (count + 1) else none := by
  fun_cases stringRound text with
  | _ => simp_all [stringTail]

/-- A round of a string takes characters that are there. -/
theorem stringRound_size {text : Text} {taken : Nat} (h : stringRound text = some taken) :
    0 < taken ∧ taken ≤ text.length := by
  fun_cases stringRound text with
  | case1 =>
    obtain rfl := Option.some.inj h
    simp
  | case4 =>
    simp_all only [stringRound, Option.some.injEq, List.length_cons]
    omega
  | _ => simp_all [stringRound]

/-- A row of characters of a class takes one more, or is at its end. -/
theorem run_round (test : Char → Bool) (c : Char) (rest : Text) :
    run test (c :: rest) = if test c then run test rest + 1 else 0 := by
  unfold run
  cases htest : test c with
  | true => rw [List.takeWhile_cons_of_pos htest, List.length_cons, if_pos rfl]
  | false =>
    rw [List.takeWhile_cons_of_neg (by simp [htest])]
    rfl

/-! ## The whole scan -/

/-- One round of a scan: it is at the end, or cuts off a token and goes on with a shorter text, or
is stuck. -/
inductive Round (mark : Mark) (text : Text) : Prop
  | done (result : scanFrom mark text = .ok (.empty text (mark.advance text)))
  | token {token : Token} {rest : Text} (cut : CutsOne mark text token rest)
      (less : rest.length < text.length)
      (result : scanFrom mark text = (scanFrom token.finish rest).map (·.push token))
  | stuck {lead rest : Text} {cause : SyntaxCause} (inside : text = lead ++ rest)
      (stuck : Stuck lead rest cause)
      (result : scanFrom mark text = .error ⟨(mark.advance lead).position, cause⟩)

/-- A scan is read round by round. -/
theorem round_of_scan (mark : Mark) (text : Text) : Round mark text := by
  obtain hgap | ⟨token, rest, hcut⟩ | ⟨lead, rest, cause, rfl, hstuck⟩ := first_step mark text
  · refine .done ?_
    rw [scanFrom_end hgap List.drop_length, List.take_length]
  · exact .token hcut hcut.length_lt hcut.scanFrom_eq
  · exact .stuck rfl hstuck hstuck.scanFrom_eq

/-- Every loop of the scanner takes characters in each round but the last. -/
structure Advancing (text : Text) : Prop where
  scan : ∀ mark, Round mark text
  gap : ∀ state count, gapSize state count text =
    match gapRound state count text with
    | some (next, taken) => gapSize next (count + taken) (text.drop taken)
    | none => gapEnd state count
  gap_size : ∀ state count next taken, gapRound state count text = some (next, taken) →
    0 < taken ∧ taken ≤ text.length
  string : ∀ count, stringTail count text =
    match stringRound text with
    | some taken => stringTail (count + taken) (text.drop taken)
    | none => if text.head? = some '\x27' then some (count + 1) else none
  string_size : ∀ taken, stringRound text = some taken → 0 < taken ∧ taken ≤ text.length
  row : ∀ test c rest, text = c :: rest →
    run test text = if test c then run test rest + 1 else 0

theorem advancing (text : Text) : Advancing text where
  scan mark := round_of_scan mark text
  gap state count := gapSize_round state count text
  gap_size _ _ _ _ := gapRound_size
  string count := stringTail_round count text
  string_size _ := stringRound_size
  row test c rest h := h ▸ run_round test c rest

/-! ## Slices -/

namespace Cuts

variable {mark : Mark} {text rest : Text} {tokens front back : List Token}

/-- Tokens are cut off in two rows as well as in one. -/
theorem split (h : Cuts mark text (front ++ back) rest) : ∃ middle, Cuts mark text front middle ∧
    Cuts (mark.advance (front.flatMap Token.source)) middle back rest := by
  induction front generalizing mark text with
  | nil => exact ⟨text, .nil, h⟩
  | cons token front ih =>
    cases h with
    | cons first others =>
      obtain ⟨middle, hfront, hback⟩ := ih others
      rw [List.flatMap_cons, Mark.advance_append, ← first.finish_eq]
      exact ⟨middle, .cons first hfront, hback⟩

/-- The last token ends where all tokens have been passed. -/
theorem finish_getLast (h : Cuts mark text tokens rest) :
    ∀ last ∈ tokens.getLast?, last.finish = mark.advance (tokens.flatMap Token.source) := by
  induction h with
  | nil => simp
  | @cons mark text middle rest token tokens first others ih =>
    intro last hlast
    rw [List.flatMap_cons, Mark.advance_append, ← first.finish_eq]
    -- the last token of a longer row is the last of the others
    cases tokens with
    | nil =>
      obtain rfl : token = last := by simpa using hlast
      rfl
    | cons next tokens => exact ih last (by simpa using hlast)

/-- A row of tokens that were cut off a source is a slice of it, from the beginning of the first to
the end of the last, with the gaps between them. -/
theorem sliced {source : Text} {first last : Token} {more : List Token}
    (h : Cuts .origin source (front ++ (first :: more ++ back)) rest)
    (hlast : (first :: more).getLast? = some last) :
    Text.Sliced source first.start.offset last.finish.offset
      (first.text ++ more.flatMap Token.source) := by
  -- the tokens in front of the row, the row itself, and what is behind it
  obtain ⟨middle, hfront, hmiddle⟩ := h.split
  obtain ⟨behind, hrow, -⟩ := hmiddle.split
  have hfinish := hrow.finish_getLast last hlast
  have hsource : source = front.flatMap Token.source ++ first.lead ++
      (first.text ++ more.flatMap Token.source) ++ behind := by
    rw [hfront.source, hrow.source, List.flatMap_cons]
    simp only [Token.source, List.append_assoc]
  cases hrow with
  | cons hfirst others =>
    refine ⟨front.flatMap Token.source ++ first.lead, behind, hsource, ?_, ?_⟩
    · rw [hfirst.start, ← Mark.advance_append, Mark.advance_origin]
    · rw [hfinish, ← Mark.advance_append, Mark.advance_origin, List.flatMap_cons, Token.source]
      simp only [List.append_assoc]

/-- What is left when a scan is stuck is a slice as well, up to the end. -/
theorem sliced_rest {source lead : Text} (h : Cuts .origin source tokens (lead ++ rest)) :
    Text.Sliced source (Mark.origin.advance (tokens.flatMap Token.source ++ lead)).offset
      (Text.byteSize source) rest := by
  have hsource : source = tokens.flatMap Token.source ++ lead ++ rest := by
    rw [h.source, List.append_assoc]
  refine ⟨tokens.flatMap Token.source ++ lead, [], ?_, ?_, ?_⟩
  · rw [List.append_nil, ← hsource]
  · rw [Mark.advance_origin]
  · rw [← hsource]

end Cuts

end Scan

end ApexLayout
