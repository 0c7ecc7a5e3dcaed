import ApexLayout.Token.Scan

/-!
What stands between tokens.

`Gap` says of which pieces a gap may consist, without saying how it is measured: blanks, comments to
the end of their line, and closed comments. What `Scan.gapSize` measures is such a gap, and neither a
blank nor a comment stands behind it (`Scan.gap_of_gapSize`).
-/

namespace ApexLayout

/-- The text may stand between tokens, in front of the rest of a source. -/
inductive Gap (rest : Text) : Text → Prop
  | nil : Gap rest []
  | blank {c : Char} {more : Text} (blank : Text.isBlank c = true) (tail : Gap rest more) :
      Gap rest (c :: more)
  /-- The comment ends in front of a newline, or with the source. -/
  | line {body more : Text} (inside : '\n' ∉ body) (ends : ∀ c ∈ (more ++ rest).head?, c = '\n')
      (tail : Gap rest more) : Gap rest ('/' :: '/' :: (body ++ more))
  /-- The comment ends with the first asterisk that a slash follows. -/
  | block {body more : Text} (inside : ¬ ['*', '/'] <:+: body ++ ['*']) (tail : Gap rest more) :
      Gap rest ('/' :: '*' :: (body ++ '*' :: '/' :: more))

namespace Scan

/-- Whether a gap ends in front of the text: neither a blank nor a comment begins it. -/
def endsGap : Text → Bool
  | '/' :: c :: _ => c != '/' && c != '*'
  | c :: _ => !Text.isBlank c
  | [] => true

/-- No gap ends in front of a blank. -/
theorem endsGap_blank {c : Char} {rest : Text} (h : Text.isBlank c = true) :
    endsGap (c :: rest) = false := by
  unfold endsGap
  split
  case h_1 heq =>
    obtain ⟨rfl, -⟩ := List.cons.inj heq
    exact absurd h (by decide)
  case h_2 heq =>
    obtain ⟨rfl, -⟩ := List.cons.inj heq
    rw [h]
    rfl
  case h_3 heq => cases heq

/-- A gap ends where no comment begins in front of a character that is no blank. -/
theorem endsGap_other {c : Char} {rest : Text} (hblank : ¬ Text.isBlank c = true)
    (hline : ∀ others, c = '/' → rest = '/' :: others → False)
    (hblock : ∀ others, c = '/' → rest = '*' :: others → False) : endsGap (c :: rest) = true := by
  unfold endsGap
  split
  case h_1 next others heq =>
    obtain ⟨rfl, rfl⟩ := List.cons.inj heq
    rw [Bool.and_eq_true, bne_iff_ne, bne_iff_ne]
    exact ⟨fun hnext => hline others rfl (by rw [hnext]),
      fun hnext => hblock others rfl (by rw [hnext])⟩
  case h_2 heq =>
    obtain ⟨rfl, rfl⟩ := List.cons.inj heq
    rw [Bool.eq_false_iff.2 hblank]
    rfl
  case h_3 heq => cases heq

/-- What is left of a gap in a given state. -/
def GapState.Leaves (rest gap : Text) : GapState → Prop
  | .blank => Gap rest gap
  | .line => ∃ body more, gap = body ++ more ∧ '\n' ∉ body ∧
      (∀ c ∈ (more ++ rest).head?, c = '\n') ∧ Gap rest more
  | .block _ => ∃ body more, gap = body ++ '*' :: '/' :: more ∧
      ¬ ['*', '/'] <:+: body ++ ['*'] ∧ Gap rest more

/-- A comment whose closing symbols do not stand in front of it goes on. -/
theorem not_closed_cons {body more rest : Text} {c : Char}
    (hopen : ∀ others, c = '*' → body ++ '*' :: '/' :: more ++ rest = '/' :: others → False)
    (hbody : ¬ ['*', '/'] <:+: body ++ ['*']) : ¬ ['*', '/'] <:+: (c :: body) ++ ['*'] := by
  rw [List.cons_append, List.infix_cons_iff, not_or]
  refine ⟨fun hprefix => ?_, hbody⟩
  obtain ⟨rfl, hnext⟩ := List.cons_prefix_cons.1 hprefix
  cases body with
  | nil => exact absurd (List.cons_prefix_cons.1 hnext).1 (by decide)
  | cons d body =>
    obtain ⟨rfl, -⟩ := List.cons_prefix_cons.1 hnext
    exact hopen _ rfl rfl

/-- From every state, what is measured is the rest of a gap. -/
theorem leaves_of_gapSize {state : GapState} {count size : Nat} {text : Text}
    (h : gapSize state count text = .ok size) :
    ∃ gap rest, text = gap ++ rest ∧ size = count + gap.length ∧ state.Leaves rest gap ∧
      endsGap rest = true := by
  -- the cases are the steps of the measuring: each puts what it passes over in front of the gap
  fun_induction gapSize state count text with
  | case1 count text ih =>
    obtain ⟨gap, rest, rfl, rfl, ⟨body, more, rfl, hbody, hends, hmore⟩, hrest⟩ := ih h
    refine ⟨'/' :: '/' :: (body ++ more), rest, rfl, ?_, .line hbody hends hmore, hrest⟩
    simp only [List.length_cons]
    omega
  | case2 count text ih =>
    obtain ⟨gap, rest, rfl, rfl, ⟨body, more, rfl, hbody, hmore⟩, hrest⟩ := ih h
    refine ⟨'/' :: '*' :: (body ++ '*' :: '/' :: more), rest, rfl, ?_, .block hbody hmore, hrest⟩
    simp only [List.length_cons]
    omega
  | case3 count c text _ _ hblank ih =>
    obtain ⟨gap, rest, rfl, rfl, hgap, hrest⟩ := ih h
    refine ⟨c :: gap, rest, rfl, ?_, .blank hblank hgap, hrest⟩
    rw [List.length_cons]
    omega
  | case4 count c text hline hblock hblank =>
    cases h
    exact ⟨[], c :: text, rfl, rfl, .nil, endsGap_other hblank hline hblock⟩
  | case5 =>
    cases h
    exact ⟨[], [], rfl, rfl, .nil, rfl⟩
  | case6 count c text ih =>
    by_cases hc : c = '\n'
    · -- the comment ends here, and the newline is a blank
      subst hc
      obtain ⟨gap, rest, rfl, rfl, hgap, hrest⟩ := ih h
      refine ⟨'\n' :: gap, rest, rfl, ?_, ⟨[], '\n' :: gap, rfl, List.not_mem_nil, ?_, ?_⟩, hrest⟩
      · rw [List.length_cons]
        omega
      · rintro _ ⟨⟩
        rfl
      · exact .blank (by decide) hgap
    · rw [if_neg hc] at ih
      rw [if_neg hc] at h
      obtain ⟨gap, rest, rfl, rfl, ⟨body, more, rfl, hbody, hends, hmore⟩, hrest⟩ := ih h
      refine ⟨c :: (body ++ more), rest, rfl, ?_, ⟨c :: body, more, rfl, ?_, hends, hmore⟩, hrest⟩
      · rw [List.length_cons]
        omega
      · rw [List.mem_cons, not_or]
        exact ⟨Ne.symm hc, hbody⟩
  | case7 =>
    cases h
    exact ⟨[], [], rfl, rfl, ⟨[], [], rfl, List.not_mem_nil, nofun, .nil⟩, rfl⟩
  | case8 start count text ih =>
    obtain ⟨gap, rest, rfl, rfl, hgap, hrest⟩ := ih h
    refine ⟨'*' :: '/' :: gap, rest, rfl, ?_, ⟨[], gap, rfl, by decide, hgap⟩, hrest⟩
    simp only [List.length_cons]
    omega
  | case9 start count c text hopen ih =>
    obtain ⟨gap, rest, rfl, rfl, ⟨body, more, rfl, hbody, hmore⟩, hrest⟩ := ih h
    refine ⟨c :: (body ++ '*' :: '/' :: more), rest, rfl, ?_,
      ⟨c :: body, more, rfl, not_closed_cons hopen hbody, hmore⟩, hrest⟩
    rw [List.length_cons]
    omega
  | case10 => cases h

/-- The gap in front of a token: nothing but blanks and comments, and all of them. -/
theorem gap_of_gapSize {size : Nat} {text : Text} (h : gapSize .blank 0 text = .ok size) :
    size ≤ text.length ∧ Gap (text.drop size) (text.take size) ∧ endsGap (text.drop size) = true := by
  obtain ⟨gap, rest, rfl, rfl, hgap, hrest⟩ := leaves_of_gapSize h
  rw [Nat.zero_add, List.length_append, List.drop_left, List.take_left]
  exact ⟨Nat.le_add_right _ _, hgap, hrest⟩

end Scan

end ApexLayout
