import ApexLayout.Proofs.Scanning.Cuts
import ApexLayout.Proofs.Tiling

/-!
Sources put on lines of their own.

A source that can be cut into tokens ends with its last line: what stands behind a newline is cut as
if it were a source by itself, and only its offsets and its lines are counted from elsewhere
(`TokenStream.ofSource_newline`).
-/

namespace ApexLayout

/-! ## Counting from elsewhere -/

/-- The position when more lines stand in front of its source. -/
def Position.shift (lines : Nat) (position : Position) : Position :=
  ⟨position.line + lines, position.column⟩

/-- The place when more bytes and lines stand in front of its source. -/
def Mark.shift (bytes lines : Nat) (mark : Mark) : Mark :=
  ⟨mark.offset + bytes, mark.position.shift lines⟩

/-- The extent when more bytes and lines stand in front of its source. -/
def Extent.shift (bytes lines : Nat) (extent : Extent) : Extent :=
  ⟨extent.kind, extent.text, extent.start.shift bytes lines, extent.finish.shift bytes lines⟩

/-- The error when more lines stand in front of its source. -/
def SyntaxError.shift (lines : Nat) (error : SyntaxError) : SyntaxError :=
  ⟨error.position.shift lines, error.cause⟩

/-- The token when more bytes and lines stand in front of its source. -/
def Token.shift (bytes lines : Nat) (token : Token) : Token :=
  { token with start := token.start.shift bytes lines }

/-- The stream when more bytes and lines stand in front of its source. -/
def TokenStream.shift (bytes lines : Nat) (stream : TokenStream) : TokenStream where
  tokens := stream.tokens.map (Token.shift bytes lines)
  trailing := stream.trailing
  finish := stream.finish.shift bytes lines
  remaining := stream.remaining
  remaining_eq := by rw [stream.remaining_eq, List.length_map]

section

variable {bytes lines : Nat}

theorem Mark.shift_step (mark : Mark) (c : Char) :
    (mark.shift bytes lines).step c = (mark.step c).shift bytes lines := by
  unfold step shift Position.shift
  simp only
  split <;> simp only [Nat.add_right_comm]

theorem Mark.shift_advance (mark : Mark) (text : Text) :
    (mark.shift bytes lines).advance text = (mark.advance text).shift bytes lines := by
  induction text generalizing mark with
  | nil => rfl
  | cons c rest ih =>
    show ((mark.shift bytes lines).step c).advance rest = _
    rw [mark.shift_step, ih]
    rfl

theorem Token.shift_finish (token : Token) :
    (token.shift bytes lines).finish = token.finish.shift bytes lines :=
  token.start.shift_advance token.text

theorem Token.extent_shift (token : Token) :
    (token.shift bytes lines).extent = token.extent.shift bytes lines := by
  unfold extent
  rw [token.shift_finish]
  rfl

theorem Token.source_shift (tokens : List Token) :
    (tokens.map (Token.shift bytes lines)).flatMap Token.source = tokens.flatMap Token.source := by
  rw [List.flatMap_map]
  rfl

theorem TokenStream.shift_pushAll (stream : TokenStream) (tokens : List Token) :
    (stream.shift bytes lines).pushAll (tokens.map (Token.shift bytes lines)) =
      (stream.pushAll tokens).shift bytes lines := by
  induction tokens with
  | nil => rfl
  | cons token tokens ih => exact congrArg (·.push (token.shift bytes lines)) ih

theorem TokenStream.extents_shift (stream : TokenStream) :
    (stream.shift bytes lines).extents = stream.extents.map (Extent.shift bytes lines) := by
  unfold extents shift
  rw [List.map_append, List.map_map, List.map_map]
  congr 1
  exact List.map_congr_left fun token _ => token.extent_shift

end

namespace Scan

variable {bytes lines : Nat} {mark : Mark} {text rest : Text}

theorem CutsOne.shift {token : Token} (h : CutsOne mark text token rest) :
    CutsOne (mark.shift bytes lines) text (token.shift bytes lines) rest := by
  obtain ⟨hsource, hgap, hlexeme, hstart⟩ := h
  refine ⟨hsource, hgap, hlexeme, ?_⟩
  show token.start.shift bytes lines = (mark.shift bytes lines).advance token.lead
  rw [hstart, mark.shift_advance]

/-- The tokens of a text are the same wherever it begins. -/
theorem Cuts.shift {tokens : List Token} (h : Cuts mark text tokens rest) :
    Cuts (mark.shift bytes lines) text (tokens.map (Token.shift bytes lines)) rest := by
  induction h with
  | nil => exact .nil
  | cons first _ ih =>
    rw [← Token.shift_finish] at ih
    exact .cons first.shift ih

/-- A text is cut in the same way wherever it begins. -/
theorem scanFrom_shift (mark : Mark) (text : Text) :
    scanFrom (mark.shift bytes lines) text =
      ((scanFrom mark text).map (TokenStream.shift bytes lines)).mapError
        (SyntaxError.shift lines) := by
  obtain ⟨tokens, rest, hcuts, hlast⟩ := exists_cuts mark text
  have hshifted : Cuts (mark.shift bytes lines) text _ rest := hcuts.shift
  rw [hcuts.scanFrom_eq, hshifted.scanFrom_eq, Token.source_shift, Mark.shift_advance]
  rcases hlast with hend | ⟨lead, bad, cause, rfl, hstuck⟩
  · rw [scanFrom_end hend List.drop_length, scanFrom_end hend List.drop_length, Mark.shift_advance]
    exact congrArg Except.ok (TokenStream.shift_pushAll (.empty _ _) tokens)
  · rw [hstuck.scanFrom_eq, hstuck.scanFrom_eq, Mark.shift_advance]
    rfl

/-! ## A gap in front of a text -/

/-- The gap goes on with whatever blanks and comments begin the rest. -/
def Opens (gap rest : Text) : Prop :=
  gapSize .blank 0 (gap ++ rest) = gapSize .blank gap.length rest

theorem Opens.gapSize_eq {gap rest : Text} (h : Opens gap rest) :
    gapSize .blank 0 (gap ++ rest) =
      ((gapSize .blank 0 rest).map (· + gap.length)).mapError (· + gap.length) := by
  have hlater := gapSize_later gap.length .blank 0 rest
  rw [Nat.zero_add] at hlater
  exact h.trans hlater

/-- A gap in front of a text moves the text, and becomes part of the gap that the text begins
with. -/
theorem Opens.extents_eq {gap rest : Text} (h : Opens gap rest) (mark : Mark) :
    (scanFrom mark (gap ++ rest)).map TokenStream.extents =
      (scanFrom (mark.advance gap) rest).map TokenStream.extents := by
  have hgap := h.gapSize_eq
  -- all three first steps are taken with the longer gap as well
  rcases first_step (mark.advance gap) rest with hend | ⟨token, behind, hfirst⟩ |
    ⟨lead, bad, cause, rfl, hstuck⟩
  · have hwhole : gapSize .blank 0 (gap ++ rest) = .ok (gap ++ rest).length := by
      rw [hgap, hend, List.length_append, Nat.add_comm]
      rfl
    rw [scanFrom_end hwhole List.drop_length, scanFrom_end hend List.drop_length, List.take_length,
      List.take_length, ← Mark.advance_append]
    rfl
  · have hwhole : CutsOne mark (gap ++ rest) { token with lead := gap ++ token.lead } behind := by
      refine ⟨?_, ?_, hfirst.lexeme, ?_⟩
      · rw [hfirst.source]
        simp only [Token.source, List.append_assoc]
      · rw [hgap, hfirst.gap, List.length_append, Nat.add_comm]
        rfl
      · rw [hfirst.start, Mark.advance_append]
    rw [hwhole.scanFrom_eq, hfirst.scanFrom_eq]
    show Except.map _ (Except.map _ (scanFrom token.finish behind)) = _
    cases scanFrom token.finish behind <;> rfl
  · have hwhole : Stuck (gap ++ lead) bad cause := by
      cases hstuck with
      | comment found =>
        refine .comment ?_
        rw [List.append_assoc, hgap, found, List.length_append, Nat.add_comm]
        rfl
      | lexeme found refused =>
        refine .lexeme ?_ refused
        rw [List.append_assoc, hgap, found, List.length_append, Nat.add_comm]
        rfl
    rw [hstuck.scanFrom_eq, ← List.append_assoc, hwhole.scanFrom_eq, Mark.advance_append]

/-- What is left of a text behind its tokens is continued by a newline. -/
theorem opens_newline {trailing : Text} (h : gapSize .blank 0 trailing = .ok trailing.length)
    (rest : Text) : Opens (trailing ++ ['\n']) rest := by
  have hnewline := gapSize_newline rest h (Nat.zero_add _)
  rw [if_neg (Nat.lt_irrefl _)] at hnewline
  unfold Opens
  rw [List.append_assoc, List.length_append]
  exact hnewline

end Scan

/-! ## Whole sources -/

theorem TokenStream.extents_pushAll (stream : TokenStream) (tokens : List Token) :
    (stream.pushAll tokens).extents = tokens.map Token.extent ++ stream.extents := by
  induction tokens with
  | nil => rfl
  | cons token tokens ih => exact congrArg (token.extent :: ·) ih

/-- The line behind a text begins as a source does, with more bytes and lines in front. -/
theorem Mark.advance_newline (text : Text) :
    origin.advance (text ++ ['\n']) = origin.shift (text.byteSize + 1) (text.count '\n' + 1) := by
  rw [advance_origin, Text.byteSize_append, Text.endPosition_newline]
  unfold shift Position.shift
  congr 1
  exact (Nat.zero_add _).symm

/-- Behind a source that can be cut, a text on lines of its own is cut as if it were a source by
itself, or refused for the same cause. -/
theorem TokenStream.ofSource_newline {source : Text} {stream : TokenStream}
    (h : TokenStream.ofSource source = .ok stream) (more : Text) :
    (∀ behind, TokenStream.ofSource more = .ok behind →
      ∃ whole, TokenStream.ofSource (source ++ '\n' :: more) = .ok whole ∧
        whole.extents = stream.tokens.map Token.extent ++
          behind.extents.map (Extent.shift (source.byteSize + 1) (source.count '\n' + 1))) ∧
    (∀ error, TokenStream.ofSource more = .error error →
      TokenStream.ofSource (source ++ '\n' :: more) =
        .error ⟨error.position.shift (source.count '\n' + 1), error.cause⟩) := by
  obtain ⟨hcuts, htrailing⟩ := Scan.cuts_of_ok h
  -- behind the tokens of the source, its last gap and the newline are passed first
  have hopens := (Scan.opens_newline htrailing more).extents_eq
    (Mark.origin.advance (stream.tokens.flatMap Token.source))
  rw [← Mark.advance_append, ← List.append_assoc, ← hcuts.source, Mark.advance_newline,
    Scan.scanFrom_shift, List.append_assoc, List.singleton_append] at hopens
  unfold TokenStream.ofSource
  rw [(hcuts.newline more).scanFrom_eq]
  cases hwhole : Scan.scanFrom _ (stream.trailing ++ '\n' :: more) with
  | error found =>
    rw [hwhole] at hopens
    constructor
    · intro behind hbehind
      rw [hbehind] at hopens
      cases hopens
    · intro error herror
      rw [herror] at hopens
      exact congrArg Except.error (Except.error.inj hopens)
  | ok whole =>
    rw [hwhole] at hopens
    constructor
    · intro behind hbehind
      rw [hbehind] at hopens
      refine ⟨whole.pushAll stream.tokens, rfl, ?_⟩
      rw [TokenStream.extents_pushAll, Except.ok.inj hopens, TokenStream.extents_shift]
    · intro error herror
      rw [herror] at hopens
      cases hopens

/-- A comment to the end of the source, with a character of two bytes, in front of a token and in
front of a character that begins none. -/
theorem TokenStream.ofSource_newline_comment :
    ∃ stream behind whole, TokenStream.ofSource "a // é" = .ok stream ∧
      TokenStream.ofSource "/b" = .ok behind ∧ TokenStream.ofSource "a // é\n/b" = .ok whole ∧
      whole.extents = stream.tokens.map Token.extent ++ behind.extents.map (Extent.shift 8 1) ∧
      TokenStream.ofSource "\n #" = .error ⟨⟨2, 2⟩, .strayCharacter '#'⟩ ∧
      TokenStream.ofSource "a // é\n\n #" = .error ⟨⟨3, 2⟩, .strayCharacter '#'⟩ := by
  have hsource : (TokenStream.ofSource "a // é").isOk = true := by decide +kernel
  have hmore : (TokenStream.ofSource "/b").isOk = true := by decide +kernel
  have hrefused : TokenStream.ofSource "\n #" = .error ⟨⟨2, 2⟩, .strayCharacter '#'⟩ := by
    decide +kernel
  have hbytes : Text.byteSize "a // é" = 7 := by decide +kernel
  cases hstream : TokenStream.ofSource "a // é" with
  | error error =>
    rw [hstream] at hsource
    cases hsource
  | ok stream =>
    cases hbehind : TokenStream.ofSource "/b" with
    | error error =>
      rw [hbehind] at hmore
      cases hmore
    | ok behind =>
      obtain ⟨whole, hwhole, hextents⟩ :=
        (TokenStream.ofSource_newline hstream "/b").1 behind hbehind
      rw [hbytes] at hextents
      exact ⟨stream, behind, whole, rfl, rfl, hwhole, hextents, hrefused,
        (TokenStream.ofSource_newline hstream "\n #").2 _ hrefused⟩

end ApexLayout
