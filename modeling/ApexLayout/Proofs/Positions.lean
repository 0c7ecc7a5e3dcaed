import ApexLayout.Token.Scan

/-!
The order of positions.

Positions rise along a source: every token begins behind the one in front of it, and holds at least
one character.
-/

namespace ApexLayout

namespace Position

/-- The position comes earlier in a source than the other: on an earlier line, or further left. -/
def Before (first second : Position) : Prop :=
  first.line < second.line ∨ first.line = second.line ∧ first.column < second.column

instance (first second : Position) : Decidable (first.Before second) :=
  inferInstanceAs (Decidable (_ ∨ _))

theorem Before.trans {first second third : Position} (h : first.Before second)
    (h' : second.Before third) : first.Before third := by
  unfold Before at *
  omega

end Position

namespace Mark

/-- A character moves the place behind it further on. -/
theorem before_step (mark : Mark) (c : Char) : mark.position.Before (mark.step c).position := by
  unfold step Position.Before
  split <;> simp

/-- A text leaves the place where it is, or moves it further on. -/
theorem before_advance (mark : Mark) (text : Text) :
    (text = [] ∧ (mark.advance text).position = mark.position) ∨
      mark.position.Before (mark.advance text).position := by
  induction text generalizing mark with
  | nil => exact .inl ⟨rfl, rfl⟩
  | cons c rest ih =>
    refine .inr ?_
    show mark.position.Before ((mark.step c).advance rest).position
    rcases ih (mark.step c) with ⟨-, hsame⟩ | hbefore
    · rw [hsame]
      exact mark.before_step c
    · exact (mark.before_step c).trans hbefore

end Mark

namespace Scan

/-- The tokens of a text begin at its mark or behind it, each behind the one in front of it, and
none is empty. -/
theorem scanFrom_ordered {mark : Mark} {text : Text} {stream : TokenStream}
    (h : scanFrom mark text = .ok stream) :
    (∀ token ∈ stream.tokens, token.text ≠ [] ∧
      (token.start.position = mark.position ∨ mark.position.Before token.start.position)) ∧
      (stream.tokens.map (·.start.position)).Pairwise Position.Before := by
  fun_induction scanFrom mark text generalizing stream with
  | case1 => simp at h
  | case2 mark text size hgap lead start =>
    cases h
    exact ⟨fun token htoken => absurd htoken List.not_mem_nil, .nil⟩
  | case3 => simp at h
  | case4 => simp at h
  | case5 mark text size hgap lead start c rest hcut kind tail hlex token =>
    rename_i found hfound ih
    cases h
    obtain ⟨htokens, hordered⟩ := ih hfound
    have hstart : start.position = mark.position ∨ mark.position.Before start.position :=
      (mark.before_advance lead).imp And.right id
    -- what follows the token is behind its first character
    have hfinish : start.position.Before token.finish.position := by
      rcases start.before_advance token.text with ⟨hnil, -⟩ | hbefore
      · cases hnil
      · exact hbefore
    have hbehind : ∀ next ∈ found.tokens, start.position.Before next.start.position := by
      intro next hnext
      rcases (htokens next hnext).2 with hsame | hbefore
      · rw [hsame]
        exact hfinish
      · exact hfinish.trans hbefore
    refine ⟨fun next hnext => ?_, ?_⟩
    · rcases List.mem_cons.1 hnext with rfl | hnext
      · exact ⟨by simp [token], hstart⟩
      · refine ⟨(htokens next hnext).1, .inr ?_⟩
        rcases hstart with hsame | hbefore
        · rw [← hsame]
          exact hbehind next hnext
        · exact hbefore.trans (hbehind next hnext)
    · show (start.position :: found.tokens.map (·.start.position)).Pairwise Position.Before
      refine List.pairwise_cons.2 ⟨fun position hposition => ?_, hordered⟩
      obtain ⟨next, hnext, rfl⟩ := List.mem_map.1 hposition
      exact hbehind next hnext

end Scan

namespace TokenStream

variable {source : Text} {stream : TokenStream}

/-- No token of a source is empty. -/
theorem text_ne_nil (h : ofSource source = .ok stream) : ∀ token ∈ stream.tokens, token.text ≠ [] :=
  fun token htoken => ((Scan.scanFrom_ordered h).1 token htoken).1

/-- The tokens of a source begin one behind the other. -/
theorem positions_ordered (h : ofSource source = .ok stream) :
    (stream.tokens.map (·.start.position)).Pairwise Position.Before :=
  (Scan.scanFrom_ordered h).2

end TokenStream

end ApexLayout
