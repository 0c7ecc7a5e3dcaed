import ApexLayout.Proofs.Scanning.Cuts

/-!
Slices between tokens.

How a token is cut off depends neither on the place where it begins nor on the gap in front of it.
So a row of tokens of a source, taken out from the beginning of its first token to the end of its
last one, is a source that is cut into the same tokens (`Scan.Cuts.ofSource_slice`).
-/

namespace ApexLayout

/-- The class and the text of a token. -/
def Token.content (token : Token) : TokenKind × Text := (token.kind, token.text)

namespace Scan

variable {mark : Mark} {text rest : Text} {token first : Token} {tokens more : List Token}

/-- There is no gap in front of a text that a gap ends in front of. -/
theorem gapSize_of_endsGap {count : Nat} (h : endsGap text = true) :
    gapSize .blank count text = .ok count := by
  cases text with
  | nil => rfl
  | cons c others =>
    refine gapSize_end_cons count ?_ ?_ fun hblank => ?_
    · rintro _ rfl rfl
      simp [endsGap] at h
    · rintro _ rfl rfl
      simp [endsGap] at h
    · rw [endsGap_blank hblank] at h
      cases h

/-- A token is cut off alike wherever its text begins. -/
theorem CutsOne.moved (h : CutsOne mark text token rest) (place : Mark) :
    CutsOne place text { token with start := place.advance token.lead } rest :=
  ⟨h.source, h.gap, h.lexeme, rfl⟩

/-- Without the gap in front of it a token is cut off alike. -/
theorem CutsOne.bare (h : CutsOne mark text token rest) (place : Mark) :
    CutsOne place (token.text ++ rest) { token with lead := [], start := place } rest := by
  refine ⟨rfl, ?_, h.lexeme, rfl⟩
  obtain ⟨-, -, hends⟩ := gap_of_gapSize h.gap
  rw [h.source, Token.source, List.append_assoc, List.drop_left] at hends
  exact gapSize_of_endsGap hends

/-- Tokens are cut off alike wherever their text begins. -/
theorem Cuts.moved (h : Cuts mark text tokens rest) (place : Mark) :
    ∃ others, Cuts place text others rest ∧
      others.map Token.content = tokens.map Token.content := by
  induction h generalizing place with
  | nil => exact ⟨[], .nil, rfl⟩
  | cons first _ ih =>
    obtain ⟨others, hothers, hsame⟩ := ih _
    exact ⟨_, .cons (first.moved place) hothers, congrArg (_ :: ·) hsame⟩

/-- A row of tokens, from the beginning of the first to the end of the last, is a source by itself,
and is cut into the same tokens. -/
theorem Cuts.ofSource_slice (h : Cuts mark text (first :: more) rest) :
    ∃ stream, TokenStream.ofSource (first.text ++ more.flatMap Token.source) = .ok stream ∧
      stream.tokens.map Token.content = (first :: more).map Token.content := by
  -- what is left out behind the last token does not matter, nor does the gap in front of the first
  have hall : Cuts mark text (first :: more) ([] ++ rest) := h
  cases hall.keep with
  | cons hfirst hmore =>
    have hmiddle := hmore.source
    rw [List.append_nil] at hmiddle
    subst hmiddle
    obtain ⟨others, hothers, hsame⟩ := hmore.moved (Mark.origin.advance first.text)
    have hcuts := Cuts.cons (hfirst.bare .origin) hothers
    refine ⟨_, hcuts.scanFrom_eq.trans (by rw [scanFrom_end rfl rfl]; rfl), ?_⟩
    rw [TokenStream.tokens_pushAll, TokenStream.empty, List.append_nil, List.map_cons, hsame]
    rfl

end Scan

end ApexLayout
