import ApexLayout.Proofs.Scanning.Gap
import ApexLayout.Proofs.Spelling.Lexeme

/-!
How a source is cut, one token after another.

`Scan.CutsOne` is one step of a scan, and `Scan.Cuts` a row of steps that leaves open how the scan
ends. Every scan is a row of steps behind which it is at the end or stuck (`Scan.exists_cuts`), and a
row of steps depends neither on what is left out behind it nor on a newline put there
(`Scan.Cuts.keep`, `Scan.Cuts.newline`).
-/

namespace ApexLayout

/-- The stream with more tokens in front. -/
def TokenStream.pushAll (stream : TokenStream) (tokens : List Token) : TokenStream :=
  tokens.foldr (fun token stream => stream.push token) stream

@[simp] theorem TokenStream.tokens_pushAll (stream : TokenStream) (tokens : List Token) :
    (stream.pushAll tokens).tokens = tokens ++ stream.tokens := by
  induction tokens with
  | nil => rfl
  | cons token tokens ih => exact congrArg (token :: ·) ih

@[simp] theorem TokenStream.trailing_pushAll (stream : TokenStream) (tokens : List Token) :
    (stream.pushAll tokens).trailing = stream.trailing := by
  induction tokens with
  | nil => rfl
  | cons token tokens ih => exact ih

namespace Scan

/-! ## One step -/

/-- The first token of a text is cut off, with the gap in front of it. -/
structure CutsOne (mark : Mark) (text : Text) (token : Token) (rest : Text) : Prop where
  source : text = token.source ++ rest
  gap : gapSize .blank 0 text = .ok token.lead.length
  lexeme : ∃ c tail, token.text = c :: tail ∧
    lexeme c (tail ++ rest) = .ok (token.kind, tail.length)
  start : token.start = mark.advance token.lead

/-- The scan cannot go on behind a gap: a comment there is not closed, or no token begins there. -/
inductive Stuck (lead : Text) : Text → SyntaxCause → Prop
  | comment {rest : Text} (gap : gapSize .blank 0 (lead ++ rest) = .error lead.length) :
      Stuck lead rest .unclosedComment
  | lexeme {c : Char} {rest : Text} {cause : SyntaxCause}
      (gap : gapSize .blank 0 (lead ++ c :: rest) = .ok lead.length)
      (refused : lexeme c rest = .error cause) : Stuck lead (c :: rest) cause

theorem scanFrom_end {mark : Mark} {text : Text} {size : Nat}
    (hgap : gapSize .blank 0 text = .ok size) (hend : text.drop size = []) :
    scanFrom mark text = .ok (.empty (text.take size) (mark.advance (text.take size))) := by
  unfold scanFrom
  rw [hgap]
  simp only
  split
  · rfl
  · rename_i heq
    rw [hend] at heq
    cases heq

/-- Behind the first token the scan goes on with the rest. -/
theorem CutsOne.scanFrom_eq {mark : Mark} {text rest : Text} {token : Token}
    (h : CutsOne mark text token rest) :
    scanFrom mark text = (scanFrom token.finish rest).map (·.push token) := by
  obtain ⟨kind, word, lead, start⟩ := token
  obtain ⟨hsource, hgap, ⟨c, tail, hword, hlexeme⟩, hstart⟩ := h
  simp only [Token.source] at hsource hgap hword hlexeme hstart
  subst hword hstart
  rw [List.append_assoc, List.cons_append] at hsource
  conv_lhs => unfold scanFrom
  rw [hgap]
  simp only
  split
  case h_1 hcut =>
    rw [hsource, List.drop_left] at hcut
    cases hcut
  case h_2 hcut =>
    rw [hsource, List.drop_left] at hcut
    obtain ⟨rfl, rfl⟩ := List.cons.inj hcut
    rw [hlexeme, hsource]
    simp only [List.take_left, List.drop_left]
    cases scanFrom (Token.finish ⟨kind, c :: tail, lead, mark.advance lead⟩) rest <;> rfl

/-- Where the scan is stuck it is refused. -/
theorem Stuck.scanFrom_eq {mark : Mark} {lead rest : Text} {cause : SyntaxCause}
    (h : Stuck lead rest cause) :
    scanFrom mark (lead ++ rest) = .error ⟨(mark.advance lead).position, cause⟩ := by
  cases h with
  | comment gap =>
    unfold scanFrom
    rw [gap]
    simp only [List.take_left]
  | lexeme gap refused =>
    unfold scanFrom
    rw [gap]
    simp only
    split
    case h_1 hcut =>
      rw [List.drop_left] at hcut
      cases hcut
    case h_2 hcut =>
      rw [List.drop_left] at hcut
      obtain ⟨rfl, rfl⟩ := List.cons.inj hcut
      rw [refused]
      simp only [List.take_left]

/-- What a scan does first: it is at the end, cuts off a token, or is stuck. -/
theorem first_step (mark : Mark) (text : Text) :
    gapSize .blank 0 text = .ok text.length ∨
      (∃ token rest, CutsOne mark text token rest) ∨
      ∃ lead rest cause, text = lead ++ rest ∧ Stuck lead rest cause := by
  -- a scan measures the gap first and then reads the token behind it; each may fail
  cases hgap : gapSize .blank 0 text with
  | error size =>
    rcases unclosed_of_gapSize hgap with ⟨hstate, -⟩ | ⟨lead, rest, rfl, rfl, -⟩
    · cases hstate
    · refine .inr (.inr ⟨lead, _, _, rfl, .comment ?_⟩)
      rw [hgap, Nat.zero_add]
  | ok size =>
    obtain ⟨hsize, -, -⟩ := gap_of_gapSize hgap
    have hlead : (text.take size).length = size := List.length_take_of_le hsize
    cases hcut : text.drop size with
    | nil =>
      have hend : size = text.length := by
        rw [List.drop_eq_nil_iff] at hcut
        omega
      exact .inl (congrArg Except.ok hend)
    | cons c rest =>
      have htext : text = text.take size ++ c :: rest := by
        rw [← hcut, List.take_append_drop]
      cases hlexeme : lexeme c rest with
      | error cause =>
        refine .inr (.inr ⟨_, _, cause, htext, .lexeme ?_ hlexeme⟩)
        rw [← htext, hgap, hlead]
      | ok found =>
        obtain ⟨kind, tail⟩ := found
        have htail : (rest.take tail).length = tail :=
          List.length_take_of_le (lexeme_size_le hlexeme)
        refine .inr (.inl ⟨⟨kind, c :: rest.take tail, text.take size,
          mark.advance (text.take size)⟩, rest.drop tail, ?_, ?_, ⟨c, rest.take tail, rfl, ?_⟩, rfl⟩)
        · simp only [Token.source, List.append_assoc, List.cons_append, List.take_append_drop]
          exact htext
        · rw [hgap, hlead]
        · rw [List.take_append_drop, htail, hlexeme]

/-- A token takes characters. -/
theorem CutsOne.length_lt {mark : Mark} {text rest : Text} {token : Token}
    (h : CutsOne mark text token rest) : rest.length < text.length := by
  obtain ⟨c, tail, hword, -⟩ := h.lexeme
  rw [h.source, Token.source, hword]
  simp only [List.length_append, List.length_cons]
  omega

/-- A token ends behind its part of the source. -/
theorem CutsOne.finish_eq {mark : Mark} {text rest : Text} {token : Token}
    (h : CutsOne mark text token rest) : token.finish = mark.advance token.source := by
  rw [Token.finish, h.start, Token.source, Mark.advance_append]

/-- What is left out behind a token does not change it. -/
theorem CutsOne.keep {mark : Mark} {text rest more : Text} {token : Token}
    (h : CutsOne mark text token (rest ++ more)) : CutsOne mark (token.source ++ rest) token rest := by
  obtain ⟨hsource, hgap, ⟨c, tail, hword, hlexeme⟩, hstart⟩ := h
  refine ⟨rfl, ?_, ⟨c, tail, hword, ?_⟩, hstart⟩
  · rw [hsource, ← List.append_assoc] at hgap
    refine gapSize_of_append hgap ?_
    simp only [Token.source, List.length_append]
    omega
  · rw [← List.append_assoc] at hlexeme
    refine lexeme_of_append hlexeme ?_
    rw [List.length_append]
    omega

/-- A newline behind a text leaves its first token as it is. -/
theorem CutsOne.newline {mark : Mark} {text rest : Text} {token : Token}
    (h : CutsOne mark text token rest) (more : Text) :
    CutsOne mark (text ++ '\n' :: more) token (rest ++ '\n' :: more) := by
  obtain ⟨hsource, hgap, ⟨c, tail, hword, hlexeme⟩, hstart⟩ := h
  refine ⟨?_, ?_, ⟨c, tail, hword, ?_⟩, hstart⟩
  · rw [hsource, List.append_assoc]
  · have hinside : token.lead.length < 0 + text.length := by
      rw [hsource, Token.source, hword]
      simp only [List.length_append, List.length_cons]
      omega
    rw [gapSize_newline more hgap rfl, if_pos hinside]
  · rw [← List.append_assoc]
    exact lexeme_newline more hlexeme

/-! ## Rows of steps -/

/-- Tokens are cut off a text, one behind the other. -/
inductive Cuts : Mark → Text → List Token → Text → Prop
  | nil {mark : Mark} {text : Text} : Cuts mark text [] text
  | cons {mark : Mark} {text middle rest : Text} {token : Token} {tokens : List Token}
      (first : CutsOne mark text token middle) (others : Cuts token.finish middle tokens rest) :
      Cuts mark text (token :: tokens) rest

/-- A scan cuts off tokens until it is at the end or stuck. -/
theorem exists_cuts (mark : Mark) (text : Text) :
    ∃ tokens rest, Cuts mark text tokens rest ∧
      (gapSize .blank 0 rest = .ok rest.length ∨
        ∃ lead bad cause, rest = lead ++ bad ∧ Stuck lead bad cause) := by
  rcases first_step mark text with hend | ⟨token, middle, hfirst⟩ | hstuck
  · exact ⟨[], text, .nil, .inl hend⟩
  · have hshorter := hfirst.length_lt
    obtain ⟨tokens, rest, hothers, hlast⟩ := exists_cuts token.finish middle
    exact ⟨token :: tokens, rest, .cons hfirst hothers, hlast⟩
  · exact ⟨[], text, .nil, .inr hstuck⟩
termination_by text.length

namespace Cuts

variable {mark : Mark} {text rest more : Text} {tokens : List Token}

theorem source (h : Cuts mark text tokens rest) : text = tokens.flatMap Token.source ++ rest := by
  induction h with
  | nil => rfl
  | cons first _ ih => rw [first.source, ih, List.flatMap_cons, List.append_assoc]

/-- Behind the tokens the scan goes on with the rest. -/
theorem scanFrom_eq (h : Cuts mark text tokens rest) :
    scanFrom mark text =
      (scanFrom (mark.advance (tokens.flatMap Token.source)) rest).map (·.pushAll tokens) := by
  induction h with
  | @nil mark text =>
    rw [List.flatMap_nil, Mark.advance_nil]
    cases scanFrom mark text <;> rfl
  | @cons mark text middle rest token tokens first others ih =>
    rw [first.scanFrom_eq, ih, first.finish_eq, List.flatMap_cons, Mark.advance_append]
    cases scanFrom _ rest <;> rfl

/-- What is left out behind the tokens does not change them. -/
theorem keep (h : Cuts mark text tokens (rest ++ more)) :
    Cuts mark (tokens.flatMap Token.source ++ rest) tokens rest := by
  generalize hleft : rest ++ more = left at h
  induction h with
  | nil => exact .nil
  | cons first others ih =>
    rw [others.source, ← hleft, ← List.append_assoc] at first
    rw [List.flatMap_cons, List.append_assoc]
    exact .cons first.keep (ih hleft)

/-- A newline behind the text does not change them either, nor what stands behind it. -/
theorem newline (h : Cuts mark text tokens rest) (more : Text) :
    Cuts mark (text ++ '\n' :: more) tokens (rest ++ '\n' :: more) := by
  induction h with
  | nil => exact .nil
  | cons first _ ih => exact .cons (first.newline more) ih

end Cuts

/-! ## Whole scans -/

/-- A scan that comes to an end has cut off all its tokens, and a gap is left. -/
theorem cuts_of_ok {mark : Mark} {text : Text} {stream : TokenStream}
    (h : scanFrom mark text = .ok stream) :
    Cuts mark text stream.tokens stream.trailing ∧
      gapSize .blank 0 stream.trailing = .ok stream.trailing.length := by
  obtain ⟨tokens, rest, hcuts, hend | ⟨lead, bad, cause, rfl, hstuck⟩⟩ := exists_cuts mark text
  · rw [hcuts.scanFrom_eq, scanFrom_end hend List.drop_length, List.take_length] at h
    obtain rfl := Except.ok.inj h
    rw [TokenStream.tokens_pushAll, TokenStream.trailing_pushAll]
    exact ⟨by rwa [TokenStream.empty, List.append_nil], hend⟩
  · rw [hcuts.scanFrom_eq, hstuck.scanFrom_eq] at h
    cases h

/-- A scan that is refused is stuck behind some of the tokens. -/
theorem cuts_of_error {mark : Mark} {text : Text} {error : SyntaxError}
    (h : scanFrom mark text = .error error) :
    ∃ tokens lead rest cause, Cuts mark text tokens (lead ++ rest) ∧ Stuck lead rest cause ∧
      error = ⟨(mark.advance (tokens.flatMap Token.source ++ lead)).position, cause⟩ := by
  obtain ⟨tokens, rest, hcuts, hend | ⟨lead, bad, cause, rfl, hstuck⟩⟩ := exists_cuts mark text
  · rw [hcuts.scanFrom_eq, scanFrom_end hend List.drop_length] at h
    cases h
  · rw [hcuts.scanFrom_eq, hstuck.scanFrom_eq, ← Mark.advance_append] at h
    exact ⟨tokens, lead, bad, cause, hcuts, hstuck, (Except.error.inj h).symm⟩

end Scan

end ApexLayout
