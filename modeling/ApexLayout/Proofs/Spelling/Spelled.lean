import ApexLayout.Proofs.Coverage
import ApexLayout.Proofs.Scanning.Cuts

/-!
Texts that are cut into given tokens.

`Spelled` says that a text consists of the given pieces with blanks between them, and that no piece
runs into what follows it. Such a text is cut into these pieces again, whatever blanks stand behind
it.
-/

namespace ApexLayout

/-- The text is made of the pieces, with blanks in front of them. -/
inductive Spelled : List Piece → Text → Prop
  | nil : Spelled [] []
  | cons {gap : Text} {piece : Piece} {pieces : List Piece} {rest : Text}
      (blank : ∀ c ∈ gap, Text.isBlank c = true) (lexeme : piece.Lexeme)
      (glued : piece.glued = ((piece.isSymbol ">" || piece.isSymbol "=") && gap.isEmpty))
      (ends : piece.Ends rest) (tail : Spelled pieces rest) :
      Spelled (piece :: pieces) (gap ++ (piece.text ++ rest))

theorem Scan.fractionSize_eq_zero {text : Text} :
    fractionSize text = 0 ↔ ∀ rest, text = '.' :: rest → ∀ d ∈ rest.head?, d.isDigit = false := by
  unfold fractionSize
  split
  case h_1 rest =>
    have hrun : run Char.isDigit rest = 0 ↔ ∀ d ∈ rest.head?, d.isDigit = false := by
      unfold run
      cases rest with
      | nil => simp
      | cons d tail =>
        rw [List.takeWhile_cons]
        cases hdigit : d.isDigit <;> simp [hdigit]
    constructor
    · rintro h _ ⟨⟩
      split at h
      · rename_i hzero
        exact hrun.1 hzero
      · cases h
    · intro h
      rw [if_pos (hrun.2 (h rest rfl))]
  case h_2 hother =>
    refine ⟨fun _ rest hrest => absurd hrest (hother rest), fun _ => rfl⟩

/-- What stands behind a text makes no fraction of it, unless it is a dot in front of a digit. -/
theorem Scan.fractionSize_append_of_ne {text more : Text} (h : fractionSize text = 0)
    (hne : text ≠ []) (hmore : text = ['.'] → ∀ d ∈ more.head?, d.isDigit = false) :
    fractionSize (text ++ more) = 0 := by
  rw [fractionSize_eq_zero] at h ⊢
  intro rest hrest
  obtain ⟨c, tail, rfl⟩ := List.exists_cons_of_ne_nil hne
  rw [List.cons_append] at hrest
  obtain ⟨rfl, rfl⟩ := List.cons.inj hrest
  cases tail with
  | nil => exact hmore rfl
  | cons d others => exact h (d :: others) rfl

theorem Scan.symbols_dot : ∀ symbol ∈ Scan.symbols, symbol.head? = some '.' → symbol = ['.'] := by decide

theorem Scan.isDigit_of_blank {c : Char} (h : Text.isBlank c = true) : c.isDigit = false := by
  have hpart := isWordPart_of_blank h
  unfold isWordPart Char.isAlphanum at hpart
  simp only [Bool.or_eq_false_iff] at hpart
  exact hpart.1.2

/-- A token that begins with a character is a symbol, unless the character tells otherwise. -/
theorem Piece.Lexeme.symbol_of_head {piece : Piece} {c : Char} {tail : Text} (h : piece.Lexeme)
    (htext : piece.text = c :: tail) (hword : Scan.isWordStart c = false)
    (hdigit : c.isDigit = false) (hquote : c ≠ '\x27') : piece.kind = .symbol := by
  obtain ⟨c', tail', htext', hlexeme⟩ := h
  rw [htext] at htext'
  obtain ⟨rfl, rfl⟩ := List.cons.inj htext'
  rcases Scan.lexeme_cases hlexeme with ⟨-, hstart, -⟩ | ⟨-, -, hstart, -⟩ | ⟨-, rfl, -⟩ | ⟨hkind, -⟩
  · rw [hword] at hstart
    exact absurd hstart (by decide)
  · rw [hdigit] at hstart
    exact absurd hstart (by decide)
  · exact absurd rfl hquote
  · exact hkind

/-- A dot ends in front of no digit. -/
theorem Piece.not_digit_of_dot {piece : Piece} {c : Char} (h : piece.Lexeme)
    (htext : piece.text = ['.']) (hbars : piece.bars c = true) : c.isDigit = false := by
  have hkind := h.symbol_of_head htext (by decide) (by decide) (by decide)
  unfold Piece.bars at hbars
  rw [hkind, htext] at hbars
  simp only [Bool.and_eq_true, Bool.not_eq_true', Bool.and_eq_false_iff] at hbars
  simpa using hbars.2

theorem Spelled.eq_nil {pieces : List Piece} {text : Text} (h : Spelled pieces text)
    (htext : text = []) : pieces = [] := by
  cases h with
  | nil => rfl
  | cons _ hlexeme =>
    obtain ⟨c, tail, hpiece, -⟩ := hlexeme.first
    simp [hpiece] at htext

namespace Spelled

/-- A piece by itself, if it is not one of those that can be glued. -/
theorem one {piece : Piece} (hlexeme : piece.Lexeme)
    (hglued : piece.glued = (piece.isSymbol ">" || piece.isSymbol "=")) :
    Spelled [piece] piece.text := by
  have h : Spelled [piece] ([] ++ (piece.text ++ [])) :=
    .cons (by simp) hlexeme (by simpa using hglued) ⟨by simp, fun _ _ => rfl⟩ .nil
  simpa using h

/-- Two texts that do not run into one another. -/
theorem append {first second : List Piece} {text more : Text} (h : Spelled first text)
    (h' : Spelled second more)
    (hbars : ∀ piece ∈ first.getLast?, ∀ c ∈ more.head?, piece.bars c = true)
    (hfraction : ∀ piece ∈ first.getLast?, piece.kind = .number → Scan.fractionSize more = 0) :
    Spelled (first ++ second) (text ++ more) := by
  induction h with
  | nil => exact h'
  | @cons gap piece pieces rest hblank hlexeme hglued hends htail ih =>
    rw [List.append_assoc, List.append_assoc, List.cons_append]
    cases htail with
    | nil =>
      refine .cons hblank hlexeme hglued ⟨fun c hc => ?_, fun hkind _ => ?_⟩ h'
      · exact Piece.meets_of_bars (hbars piece rfl c hc)
      · exact hfraction piece rfl hkind
    | @cons gap' piece' pieces' rest' hblank' hlexeme' hglued' hends' htail' =>
      -- the text behind the piece begins with a gap or with another piece
      obtain ⟨c, tail, htext, -⟩ := hlexeme'.first
      have hne : gap' ++ (piece'.text ++ rest') ≠ [] := by simp [htext]
      refine .cons hblank hlexeme hglued ⟨fun d hd => hends.meets d ?_, fun hkind hall => ?_⟩
        (ih hbars hfraction)
      · rwa [List.head?_append_of_ne_nil _ hne] at hd
      · refine Scan.fractionSize_append_of_ne (hends.fraction hkind hall) hne fun hdot d hd => ?_
        obtain ⟨rfl, hpiece, rfl⟩ : gap' = [] ∧ piece'.text = ['.'] ∧ rest' = [] := by
          rw [htext] at hdot ⊢
          cases gap' with
          | nil => simpa [and_assoc] using hdot
          | cons e gap' => simp at hdot
        obtain rfl := htail'.eq_nil rfl
        exact Piece.not_digit_of_dot hlexeme' hpiece (hbars piece' rfl d hd)

/-- Blanks in front of a piece that is not glued. -/
theorem behind {gap : Text} {pieces : List Piece} {text : Text} (h : Spelled pieces text)
    (hblank : ∀ c ∈ gap, Text.isBlank c = true)
    (hloose : ∀ piece ∈ pieces.head?, (piece.isSymbol ">" || piece.isSymbol "=") = false)
    (hsome : pieces ≠ []) : Spelled pieces (gap ++ text) := by
  cases h with
  | nil => exact absurd rfl hsome
  | @cons inner piece pieces rest hinner hlexeme hglued hends htail =>
    have hsymbol := hloose piece rfl
    rw [← List.append_assoc]
    refine .cons (fun c hc => ?_) hlexeme ?_ hends htail
    · exact (List.mem_append.1 hc).elim (hblank c) (hinner c)
    · rw [hglued, hsymbol, Bool.false_and, Bool.false_and]

end Spelled

namespace Scan

/-- A gap of blanks ends in front of a token. -/
theorem gapSize_blanks {gap text : Text} {c : Char} {rest : Text} (count : Nat)
    (hgap : ∀ c ∈ gap, Text.isBlank c = true) (htext : text = c :: rest)
    (hblank : Text.isBlank c = false)
    (hcomment : c = '/' → ∀ next ∈ rest.head?, next ≠ '/' ∧ next ≠ '*') :
    gapSize .blank count (gap ++ text) = .ok (count + gap.length) := by
  induction gap generalizing count with
  | nil =>
    subst htext
    rw [List.nil_append]
    unfold gapSize
    split
    · rename_i heq
      obtain ⟨rfl, rfl⟩ := List.cons.inj heq
      exact absurd rfl (hcomment rfl '/' rfl).1
    · rename_i heq
      obtain ⟨rfl, rfl⟩ := List.cons.inj heq
      exact absurd rfl (hcomment rfl '*' rfl).2
    · rename_i heq
      obtain ⟨rfl, rfl⟩ := List.cons.inj heq
      rw [hblank]
      rfl
    all_goals simp_all
  | cons first gap ih =>
    have hfirst := hgap first List.mem_cons_self
    -- a blank begins no comment
    have hslash : first ≠ '/' := by
      rintro rfl
      exact absurd hfirst (by decide)
    rw [List.cons_append, gapSize]
    · rw [if_pos hfirst, ih _ (fun c hc => hgap c (List.mem_cons_of_mem _ hc)), List.length_cons]
      congr 1
      omega
    · intro _ heq
      exact absurd heq hslash
    · intro _ heq
      exact absurd heq hslash

theorem gapSize_end {gap : Text} (count : Nat) (h : ∀ c ∈ gap, Text.isBlank c = true) :
    gapSize .blank count gap = .ok (count + gap.length) := by
  induction gap generalizing count with
  | nil => rfl
  | cons first gap ih =>
    have hfirst := h first List.mem_cons_self
    have hslash : first ≠ '/' := by
      rintro rfl
      exact absurd hfirst (by decide)
    rw [gapSize]
    · rw [if_pos hfirst, ih _ (fun c hc => h c (List.mem_cons_of_mem _ hc)), List.length_cons]
      congr 1
      omega
    · intro _ heq
      exact absurd heq hslash
    · intro _ heq
      exact absurd heq hslash

theorem symbols_slash :
    ∀ symbol ∈ symbols, symbol.head? = some '/' → symbol = ['/'] ∨ symbol = ['/', '='] := by
  decide

end Scan

/-- No comment begins where a token does. -/
theorem Piece.Lexeme.no_comment {piece : Piece} {c : Char} {tail rest : Text} (h : piece.Lexeme)
    (htext : piece.text = c :: tail) (hmeets : ∀ c ∈ rest.head?, piece.meets c = true)
    (hc : c = '/') : ∀ next ∈ (tail ++ rest).head?, next ≠ '/' ∧ next ≠ '*' := by
  subst hc
  have hkind := h.symbol_of_head htext (by decide) (by decide) (by decide)
  rcases Scan.symbols_slash _ (h.symbol_mem hkind) (by rw [htext]; rfl) with hslash | hslash
  · have htail : tail = [] := by
      rw [htext] at hslash
      exact (List.cons.inj hslash).2
    rw [htail, List.nil_append]
    intro next hnext
    have hmeet := hmeets next hnext
    unfold Piece.meets at hmeet
    rw [hkind, hslash] at hmeet
    simp only [Bool.and_eq_true, Bool.not_eq_true', Bool.and_eq_false_iff, beq_self_eq_true,
      Bool.true_eq_false, false_or, Bool.or_eq_false_iff, beq_eq_false_iff_ne] at hmeet
    exact hmeet.2
  · have htail : tail = ['='] := by
      rw [htext] at hslash
      exact (List.cons.inj hslash).2
    rw [htail]
    rintro next ⟨⟩
    decide

/-- The piece as a token behind a gap that begins at a mark. -/
def Piece.token (piece : Piece) (gap : Text) (mark : Mark) : Token :=
  ⟨piece.kind, piece.text, gap, mark.advance gap⟩

/-- A token that ends in front of the rest is cut off, and the rest is cut by itself. -/
theorem Scan.scanFrom_lexeme {piece : Piece} {gap rest : Text} (mark : Mark)
    (hgap : ∀ c ∈ gap, Text.isBlank c = true) (hlexeme : piece.Lexeme) (hends : piece.Ends rest) :
    scanFrom mark (gap ++ (piece.text ++ rest)) =
      (scanFrom (piece.token gap mark).finish rest).map (·.push (piece.token gap mark)) := by
  obtain ⟨c, tail, htext, hblank⟩ := hlexeme.first
  have htoken : lexeme c (tail ++ rest) = .ok (piece.kind, tail.length) := by
    obtain ⟨c', tail', htext', hlexeme'⟩ := hlexeme
    rw [htext] at htext'
    obtain ⟨rfl, rfl⟩ := List.cons.inj htext'
    exact Piece.lexeme_append htext hlexeme' hends
  have hsize := gapSize_blanks 0 hgap rfl hblank (hlexeme.no_comment htext hends.meets)
  rw [Nat.zero_add] at hsize
  refine CutsOne.scanFrom_eq ⟨(List.append_assoc ..).symm, ?_, ⟨c, tail, htext, htoken⟩, rfl⟩
  rw [htext, List.cons_append]
  exact hsize

/-- A token that ends in front of a text ends in front of a longer one, if nothing behind the text
goes on with it. -/
theorem Piece.Ends.append {piece : Piece} {rest more : Text} (h : piece.Ends rest)
    (hfraction : Scan.fractionSize more = 0) (hdigit : ∀ c ∈ more.head?, c.isDigit = false)
    (hmeets : rest = [] → ∀ c ∈ more.head?, piece.meets c = true) : piece.Ends (rest ++ more) := by
  cases rest with
  | nil => exact ⟨hmeets rfl, fun _ _ => hfraction⟩
  | cons first others =>
    refine ⟨h.meets, fun hkind hall => ?_⟩
    exact Scan.fractionSize_append_of_ne (h.fraction hkind hall) (List.cons_ne_nil _ _)
      fun _ => hdigit

theorem Token.piece_eq {piece : Piece} {gap : Text} {start : Mark}
    (h : piece.glued = ((piece.isSymbol ">" || piece.isSymbol "=") && gap.isEmpty)) :
    Token.piece ⟨piece.kind, piece.text, gap, start⟩ = piece := by
  rw [Bool.and_or_distrib_right] at h
  cases piece
  exact congrArg (Piece.mk _ _) h.symm

namespace Spelled

/-- A text is cut into its pieces, whatever blanks stand behind it. -/
theorem scan {pieces : List Piece} {text : Text} (h : Spelled pieces text) (mark : Mark)
    {trailing : Text} (htrailing : ∀ c ∈ trailing, Text.isBlank c = true) :
    ∃ stream, Scan.scanFrom mark (text ++ trailing) = .ok stream ∧ stream.pieces = pieces := by
  induction h generalizing mark with
  | nil =>
    have hgap := Scan.gapSize_end 0 htrailing
    rw [Nat.zero_add] at hgap
    exact ⟨_, Scan.scanFrom_end hgap List.drop_length, rfl⟩
  | @cons gap piece pieces rest hblank hlexeme hglued hends htail ih =>
    -- blanks are neither part of a token nor digits behind a dot
    have hends : piece.Ends (rest ++ trailing) := by
      have hhead : ∀ c ∈ trailing.head?, Text.isBlank c = true := fun c hc =>
        htrailing c (List.mem_of_mem_head? hc)
      refine hends.append ?_ (fun c hc => Scan.isDigit_of_blank (hhead c hc)) fun _ c hc =>
        Piece.meets_of_bars (piece.bars_blank (hhead c hc))
      rw [Scan.fractionSize_eq_zero]
      rintro more rfl
      exact absurd (hhead '.' rfl) (by decide)
    obtain ⟨stream, hstream, hpieces⟩ := ih (piece.token gap mark).finish
    refine ⟨stream.push (piece.token gap mark), ?_, ?_⟩
    · rw [List.append_assoc, List.append_assoc, Scan.scanFrom_lexeme mark hblank hlexeme hends, hstream]
      rfl
    · show Token.piece _ :: stream.pieces = _
      rw [hpieces]
      exact congrArg (· :: pieces) (Token.piece_eq hglued)

/-- A text that is cut into pieces is a source with these pieces. -/
theorem ofSource {pieces : List Piece} {text : Text} (h : Spelled pieces text)
    {trailing : Text} (htrailing : ∀ c ∈ trailing, Text.isBlank c = true) :
    ∃ stream, TokenStream.ofSource (text ++ trailing) = .ok stream ∧ stream.pieces = pieces :=
  h.scan Mark.origin htrailing

/-- A source is read by what its pieces are, with blanks behind them. -/
theorem readSource {α : Type} {rule : Grammar α} {pieces : List Piece} {text : Text}
    {value : α} (h : Spelled pieces text) (hreads : ∀ bound, Grammar.Reads bound rule pieces [] value)
    {trailing : Text} (htrailing : ∀ c ∈ trailing, Text.isBlank c = true) :
    Grammar.readSource rule (text ++ trailing) = .ok value := by
  obtain ⟨stream, hstream, hpieces⟩ := h.ofSource htrailing
  have hrun := hreads _ stream (Nat.lt_succ_self _) (by rw [hpieces, List.append_nil])
  refine Grammar.readSource_eq_ok.2 ⟨stream, _, hstream, hrun, ?_⟩
  have hnothing := TokenStream.pieces_skip_append (hpieces.trans (List.append_nil _).symm)
  exact List.map_eq_nil_iff.1 hnothing

end Spelled

/-! ## The tokens of a source -/

/-- What was cut out of a source are tokens by themselves. -/
theorem Scan.lexeme_of_scanFrom {mark : Mark} {text : Text} {stream : TokenStream}
    (h : scanFrom mark text = .ok stream) : ∀ piece ∈ stream.pieces, piece.Lexeme := by
  fun_induction scanFrom mark text generalizing stream with
  | case1 => simp at h
  | case2 =>
    simp only [Except.ok.injEq] at h
    subst h
    exact fun piece hpiece => absurd hpiece List.not_mem_nil
  | case3 => simp at h
  | case4 => simp at h
  | case5 mark text size hgap lead start c rest hcut kind tail hlex token =>
    rename_i found hfound ih
    simp only [Except.ok.injEq] at h
    subst h
    intro piece hpiece
    rcases List.mem_cons.1 hpiece with rfl | hpiece
    · obtain ⟨hlength, htake⟩ := lexeme_take hlex
      refine ⟨c, rest.take tail, rfl, ?_⟩
      rw [htake, List.length_take, Nat.min_eq_left hlength]
      rfl
    · exact ih hfound piece hpiece

theorem TokenStream.lexeme_of_ofSource {source : Text} {stream : TokenStream}
    (h : TokenStream.ofSource source = .ok stream) : ∀ piece ∈ stream.pieces, piece.Lexeme :=
  Scan.lexeme_of_scanFrom h

end ApexLayout
