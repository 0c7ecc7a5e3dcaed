import ApexLayout.Proofs.Gaps

/-!
Gaps in front of other texts.

How far a gap goes is decided within two characters behind it. It stays the same when something is
left out behind these (`Scan.gapSize_of_append`), and a newline behind it takes it on to whatever
blanks and comments follow (`Scan.gapSize_newline`). A gap cannot be measured only where a comment is
never closed (`Scan.unclosed_of_gapSize`).
-/

namespace ApexLayout

namespace Scan

variable {state : GapState} {count size : Nat} {text more : Text} {c : Char}

theorem gapSize_blank (count : Nat) (text : Text) (h : Text.isBlank c = true) :
    gapSize .blank count (c :: text) = gapSize .blank (count + 1) text := by
  have hslash : c ≠ '/' := by
    rintro rfl
    exact absurd h (by decide)
  rw [gapSize, if_pos h]
  · exact fun _ heq => absurd heq hslash
  · exact fun _ heq => absurd heq hslash

/-- A gap ends in front of what is neither a blank nor a comment. -/
theorem gapSize_end_cons (count : Nat) (hline : ∀ others, c = '/' → text = '/' :: others → False)
    (hblock : ∀ others, c = '/' → text = '*' :: others → False) (hblank : ¬ Text.isBlank c = true) :
    gapSize .blank count (c :: text) = .ok count := by
  rw [gapSize, if_neg hblank]
  · exact hline
  · exact hblock

/-- What is measured is not shorter than what was passed already. -/
theorem le_of_gapSize (h : gapSize state count text = .ok size) : count ≤ size := by
  obtain ⟨gap, rest, -, rfl, -⟩ := leaves_of_gapSize h
  exact Nat.le_add_right _ _

/-- Two characters that do not begin a text do not begin a longer one, unless its end completes
them. -/
theorem not_pair_append {first second : Char}
    (h : ∀ others, c = first → text = second :: others → False) (hmore : more.head? ≠ some second) :
    ∀ others, c = first → text ++ more = second :: others → False := by
  intro others hc htext
  cases text with
  | nil =>
    rw [List.nil_append] at htext
    exact hmore (by rw [htext]; rfl)
  | cons next text => exact h text hc (by rw [(List.cons.inj htext).1])

/-! ## Less behind a gap -/

/-- A comment that is closed takes at least the characters that close it. -/
theorem le_of_gapSize_block {start : Nat} (h : gapSize (.block start) count text = .ok size) :
    count + 2 ≤ size := by
  obtain ⟨gap, rest, -, rfl, ⟨body, tail, rfl, -⟩, -⟩ := leaves_of_gapSize h
  simp only [List.length_append, List.length_cons]
  omega

/-- A gap stays the same when something behind it is left out. -/
theorem gapSize_of_append (h : gapSize state count (text ++ more) = .ok size)
    (hsize : size ≤ count + text.length) : gapSize state count text = .ok size := by
  fun_induction gapSize state count text with
  | case1 count text ih => exact ih h (by simp only [List.length_cons] at hsize; omega)
  | case2 count text ih => exact ih h (by simp only [List.length_cons] at hsize; omega)
  | case3 count c text _ _ hblank ih =>
    rw [List.cons_append, gapSize_blank _ _ hblank] at h
    exact ih h (by rw [List.length_cons] at hsize; omega)
  | case4 count c text hline hblock hblank =>
    rw [List.length_cons] at hsize
    rw [List.cons_append] at h
    unfold gapSize at h
    split at h
    case h_1 heq =>
      -- a comment that needs a character of the rest is longer than what is kept
      have hlong := le_of_gapSize h
      obtain ⟨rfl, htext⟩ := List.cons.inj heq
      cases text with
      | nil => rw [List.length_nil] at hsize; omega
      | cons next text => exact absurd (by rw [(List.cons.inj htext).1]) (hline text rfl)
    case h_2 heq =>
      have hlong := le_of_gapSize h
      obtain ⟨rfl, htext⟩ := List.cons.inj heq
      cases text with
      | nil => rw [List.length_nil] at hsize; omega
      | cons next text => exact absurd (by rw [(List.cons.inj htext).1]) (hblock text rfl)
    case h_3 heq =>
      obtain ⟨rfl, -⟩ := List.cons.inj heq
      rwa [if_neg hblank] at h
    all_goals simp_all
  | case5 count =>
    have hshort := le_of_gapSize h
    rw [List.length_nil] at hsize
    rw [show size = count by omega]
  | case6 count c text ih => exact ih h (by rw [List.length_cons] at hsize; omega)
  | case7 count =>
    have hshort := le_of_gapSize h
    rw [List.length_nil] at hsize
    rw [show size = count by omega]
  | case8 start count text ih => exact ih h (by simp only [List.length_cons] at hsize; omega)
  | case9 start count c text hopen ih =>
    rw [List.length_cons] at hsize
    cases text with
    | nil =>
      have hlong := le_of_gapSize_block h
      rw [List.length_nil] at hsize
      omega
    | cons next text =>
      rw [List.cons_append, List.cons_append, gapSize] at h
      · exact ih h (by omega)
      · intro others hc htext
        exact hopen text hc (by rw [(List.cons.inj htext).1])
  | case10 start count =>
    have hlong := le_of_gapSize_block h
    rw [List.length_nil] at hsize
    omega

/-! ## A newline behind a gap -/

/-- A newline behind a text changes no gap that ends inside of it, and takes on one that does not. -/
theorem gapSize_newline {final : Nat} (more : Text) (h : gapSize state count text = .ok size)
    (hfinal : count + text.length = final) :
    gapSize state count (text ++ '\n' :: more) =
      if size < final then .ok size else gapSize .blank (size + 1) more := by
  -- the newline completes no mark that the text leaves unfinished
  have hslash : ('\n' :: more).head? ≠ some '/' := by simp
  have hstar : ('\n' :: more).head? ≠ some '*' := by simp
  fun_induction gapSize state count text with
  | case1 count text ih => exact ih h (by simp only [List.length_cons] at hfinal; omega)
  | case2 count text ih => exact ih h (by simp only [List.length_cons] at hfinal; omega)
  | case3 count c text _ _ hblank ih =>
    rw [List.cons_append, gapSize_blank _ _ hblank]
    exact ih h (by rw [List.length_cons] at hfinal; omega)
  | case4 count c text hline hblock hblank =>
    cases h
    rw [List.length_cons] at hfinal
    rw [List.cons_append, if_pos (by omega)]
    exact gapSize_end_cons size (not_pair_append hline hslash) (not_pair_append hblock hstar) hblank
  | case5 count =>
    cases h
    rw [List.length_nil] at hfinal
    rw [if_neg (by omega)]
    exact gapSize_blank _ _ (by decide)
  | case6 count c text ih => exact ih h (by rw [List.length_cons] at hfinal; omega)
  | case7 count =>
    cases h
    rw [List.length_nil] at hfinal
    rw [if_neg (by omega)]
    rfl
  | case8 start count text ih => exact ih h (by simp only [List.length_cons] at hfinal; omega)
  | case9 start count c text hopen ih =>
    rw [List.cons_append, gapSize]
    · exact ih h (by rw [List.length_cons] at hfinal; omega)
    · exact not_pair_append hopen hslash
  | case10 => cases h

/-! ## Counting from elsewhere -/

/-- The state of a gap when more characters were passed before it. -/
def GapState.later (extra : Nat) : GapState → GapState
  | .blank => .blank
  | .line => .line
  | .block start => .block (start + extra)

/-- A gap is measured from where it begins. -/
theorem gapSize_later (extra : Nat) (state : GapState) (count : Nat) (text : Text) :
    gapSize (state.later extra) (count + extra) text =
      ((gapSize state count text).map (· + extra)).mapError (· + extra) := by
  fun_induction gapSize state count text with
  | case1 count text ih => rw [← ih, Nat.add_right_comm]; rfl
  | case2 count text ih => rw [← ih, Nat.add_right_comm]; rfl
  | case3 count c text _ _ hblank ih =>
    rw [← ih, Nat.add_right_comm]
    exact gapSize_blank _ _ hblank
  | case4 count c text hline hblock hblank => exact gapSize_end_cons _ hline hblock hblank
  | case5 count => rfl
  | case6 count c text ih =>
    rw [← ih, Nat.add_right_comm]
    show gapSize (if c = '\n' then .blank else .line) _ _ = _
    split <;> rfl
  | case7 count => rfl
  | case8 start count text ih => rw [← ih, Nat.add_right_comm]; rfl
  | case9 start count c text hopen ih =>
    rw [← ih, Nat.add_right_comm]
    show gapSize (.block (start + extra)) _ _ = gapSize (.block (start + extra)) _ _
    rw [gapSize]
    exact hopen
  | case10 start count => rfl

/-! ## Comments without an end -/

/-- A gap cannot be measured exactly where a comment begins that is not closed; in front of it the
gap is complete. -/
theorem unclosed_of_gapSize (h : gapSize state count text = .error size) :
    (state = .block size ∧ ¬ ['*', '/'] <:+: text) ∨
      ∃ lead rest, text = lead ++ '/' :: '*' :: rest ∧ size = count + lead.length ∧
        gapSize state count lead = .ok size ∧ ¬ ['*', '/'] <:+: rest := by
  fun_induction gapSize state count text with
  | case1 count text ih =>
    rcases ih h with ⟨hstate, -⟩ | ⟨lead, rest, rfl, rfl, hlead, hrest⟩
    · cases hstate
    · refine .inr ⟨'/' :: '/' :: lead, rest, rfl, ?_, hlead, hrest⟩
      simp only [List.length_cons]
      omega
  | case2 count text ih =>
    rcases ih h with ⟨hstate, htext⟩ | ⟨lead, rest, rfl, rfl, hlead, hrest⟩
    · cases hstate
      -- the comment that is not closed is the one that begins here
      exact .inr ⟨[], text, rfl, rfl, rfl, htext⟩
    · refine .inr ⟨'/' :: '*' :: lead, rest, rfl, ?_, hlead, hrest⟩
      simp only [List.length_cons]
      omega
  | case3 count c text _ _ hblank ih =>
    rcases ih h with ⟨hstate, -⟩ | ⟨lead, rest, rfl, rfl, hlead, hrest⟩
    · cases hstate
    · refine .inr ⟨c :: lead, rest, rfl, ?_, (gapSize_blank _ _ hblank).trans hlead, hrest⟩
      rw [List.length_cons]
      omega
  | case4 => cases h
  | case5 => cases h
  | case6 count c text ih =>
    rcases ih h with ⟨hstate, -⟩ | ⟨lead, rest, rfl, rfl, hlead, hrest⟩
    · split at hstate <;> cases hstate
    · refine .inr ⟨c :: lead, rest, rfl, ?_, hlead, hrest⟩
      rw [List.length_cons]
      omega
  | case7 => cases h
  | case8 start count text ih =>
    rcases ih h with ⟨hstate, -⟩ | ⟨lead, rest, rfl, rfl, hlead, hrest⟩
    · cases hstate
    · refine .inr ⟨'*' :: '/' :: lead, rest, rfl, ?_, hlead, hrest⟩
      simp only [List.length_cons]
      omega
  | case9 start count c text hopen ih =>
    rcases ih h with ⟨hstate, htext⟩ | ⟨lead, rest, rfl, rfl, hlead, hrest⟩
    · refine .inl ⟨hstate, ?_⟩
      -- the comment would be closed right here, or further on
      rw [List.infix_cons_iff, not_or]
      refine ⟨fun hprefix => ?_, htext⟩
      obtain ⟨rfl, others, rfl⟩ := List.cons_prefix_cons.1 hprefix
      exact hopen others rfl rfl
    · refine .inr ⟨c :: lead, rest, rfl, ?_, ?_, hrest⟩
      · rw [List.length_cons]
        omega
      · rw [gapSize]
        · exact hlead
        · rintro others hc rfl
          exact hopen _ hc rfl
  | case10 start count =>
    cases h
    exact .inl ⟨rfl, by decide⟩

end Scan

end ApexLayout
