import ApexLayout.Proofs.Layout.Source
import Mathlib.Data.List.Chain
import Mathlib.Data.List.Infix

/-!
Tokens put close together and cut apart again.

The tokens of an annotation are written without gaps next to symbols, so two of them may run into one
another and are then read as others. Cut as finely as tokens can be cut (`Piece.Atomic`), a row only
ever merges: the text is cut into tokens that are made of neighbours of the row (`Merges`). They have
the same text when they are put close together again, and the same parentheses.
-/

namespace ApexLayout

/-! ## Rows of tokens next to each other -/

theorem closePieces_append_of_some {pieces more : List Piece} {last first : Piece}
    (hlast : pieces.getLast? = some last) (hfirst : more.head? = some first) :
    closePieces (pieces ++ more) =
      closePieces pieces ++ (closeGap last first ++ closePieces more) := by
  obtain ⟨others, rfl⟩ : ∃ others, more = first :: others := by
    cases more with
    | nil => cases hfirst
    | cons piece others => exact ⟨others, by rw [Option.some.inj hfirst]⟩
  induction pieces with
  | nil => cases hlast
  | cons piece rest ih =>
    cases rest with
    | nil =>
      obtain rfl : piece = last := Option.some.inj hlast
      exact closePieces_cons_cons piece first others
    | cons second others =>
      rw [List.getLast?_cons_cons] at hlast
      rw [List.cons_append, List.cons_append, closePieces_cons_cons, closePieces_cons_cons,
        ← List.cons_append, ih hlast]
      simp only [List.append_assoc]

theorem closeGap_eq {first second other next : Piece}
    (hfirst : first.kind = .symbol ↔ other.kind = .symbol)
    (hsecond : second.kind = .symbol ↔ next.kind = .symbol) :
    closeGap first second = closeGap other next := by
  unfold closeGap
  simp only [ne_eq, hfirst, hsecond]

/-- Whether a piece is one of the parentheses. -/
def Piece.isParenthesis (piece : Piece) : Bool := piece.isSymbol "(" || piece.isSymbol ")"

theorem Piece.isParenthesis_iff {piece : Piece} :
    piece.isParenthesis = true ↔ piece.kind = .symbol ∧ (piece.text = ['('] ∨ piece.text = [')']) := by
  unfold Piece.isParenthesis
  rw [Bool.or_eq_true, Piece.isSymbol_iff, Piece.isSymbol_iff, ← and_or_left]
  rfl

/-- The piece has the text of the row, and stands where the row did: next to the same gaps, and with
the same parentheses. -/
structure Made (group : List Piece) (piece : Piece) : Prop where
  text : closePieces group = piece.text
  first : ∃ first, group.head? = some first ∧ (first.kind = .symbol ↔ piece.kind = .symbol)
  last : ∃ last, group.getLast? = some last ∧ (last.kind = .symbol ↔ piece.kind = .symbol)
  parentheses : (∃ one, group = [one] ∧ one.Same piece) ∨
    piece.isParenthesis = false ∧ ∀ one ∈ group, one.isParenthesis = false

/-- The second row is the first one with some neighbours read as one. -/
inductive Merges : List Piece → List Piece → Prop
  | nil : Merges [] []
  | cons {group rest merged : List Piece} {piece : Piece} (made : Made group piece)
      (tail : Merges rest merged) : Merges (group ++ rest) (piece :: merged)

theorem Made.one {piece other : Piece} (h : piece.Same other) : Made [piece] other where
  text := h.text
  first := ⟨piece, rfl, by rw [h.kind]⟩
  last := ⟨piece, rfl, by rw [h.kind]⟩
  parentheses := .inl ⟨piece, rfl, h⟩

namespace Merges

theorem eq_nil_iff {pieces merged : List Piece} (h : Merges pieces merged) :
    pieces = [] ↔ merged = [] := by
  cases h with
  | nil => simp
  | @cons group _ _ _ hmade _ =>
    obtain ⟨first, hfirst, -⟩ := hmade.first
    cases group with
    | nil => cases hfirst
    | cons => simp

/-- Both rows begin with a symbol, or neither does. -/
theorem head {pieces merged : List Piece} (h : Merges pieces merged) {piece : Piece}
    (hpiece : merged.head? = some piece) :
    ∃ first, pieces.head? = some first ∧ (first.kind = .symbol ↔ piece.kind = .symbol) := by
  cases h with
  | nil => cases hpiece
  | cons hmade _ =>
    obtain rfl := Option.some.inj hpiece
    obtain ⟨first, hfirst, hkind⟩ := hmade.first
    exact ⟨first, by rw [List.head?_append, hfirst]; rfl, hkind⟩

/-- Merging changes no text. -/
theorem closePieces_eq {pieces merged : List Piece} (h : Merges pieces merged) :
    closePieces pieces = closePieces merged := by
  induction h with
  | nil => rfl
  | @cons group rest merged piece hmade htail ih =>
    cases merged with
    | nil =>
      cases htail
      rw [List.append_nil, hmade.text]
      rfl
    | cons second others =>
      obtain ⟨last, hlast, hkind⟩ := hmade.last
      obtain ⟨first, hfirst, hkind'⟩ := htail.head rfl
      rw [closePieces_append_of_some hlast hfirst, closePieces_cons_cons, hmade.text, ih,
        closeGap_eq hkind hkind']

/-- Pieces other than parentheses leave the depth as it is. -/
theorem enclosedPieces_skip {depth : Nat} {group rest : List Piece} (hdepth : depth ≠ 0)
    (h : ∀ one ∈ group, one.isParenthesis = false) :
    enclosedPieces "(" ")" depth (group ++ rest) =
      (enclosedPieces "(" ")" depth rest).map (group ++ ·) := by
  induction group with
  | nil => simp
  | cons piece others ih =>
    obtain ⟨hpiece, hothers⟩ := List.forall_mem_cons.1 h
    have hafter : depthAfter "(" ")" depth piece = depth := by
      unfold Piece.isParenthesis at hpiece
      rw [Bool.or_eq_false_iff] at hpiece
      unfold depthAfter
      rw [hpiece.1, hpiece.2]
      rfl
    rw [List.cons_append, enclosedPieces, hafter, if_neg hdepth, ih hothers, Option.map_map]
    rfl

/-- A row in parentheses is one when it is merged, and comes from one. -/
theorem enclosed_iff {pieces merged : List Piece} (h : Merges pieces merged) {depth : Nat}
    (hdepth : depth ≠ 0) :
    enclosedPieces "(" ")" depth pieces = some pieces ↔
      enclosedPieces "(" ")" depth merged = some merged := by
  have hmap : ∀ (front rest : List Piece) (found : Option (List Piece)),
      found.map (front ++ ·) = some (front ++ rest) ↔ found = some rest := by
    intro front rest found
    cases found <;> simp
  induction h generalizing depth with
  | nil => simp [enclosedPieces]
  | @cons group rest merged piece hmade htail ih =>
    -- a piece that is merged is either a parenthesis by itself or made of none
    rcases hmade.parentheses with ⟨one, rfl, hsame⟩ | ⟨hpiece, hgroup⟩
    · have hafter : depthAfter "(" ")" depth one = depthAfter "(" ")" depth piece := by
        unfold depthAfter
        rw [hsame.matches.isSymbol, hsame.matches.isSymbol]
      rw [List.singleton_append, enclosedPieces, enclosedPieces, hafter]
      by_cases hzero : depthAfter "(" ")" depth piece = 0
      · rw [if_pos hzero, if_pos hzero]
        simp [eq_comm, htail.eq_nil_iff]
      · rw [if_neg hzero, if_neg hzero]
        exact (hmap [one] rest _).trans ((ih hzero).trans (hmap [piece] merged _).symm)
    · have hskip : enclosedPieces "(" ")" depth (piece :: merged) =
          (enclosedPieces "(" ")" depth merged).map ([piece] ++ ·) :=
        enclosedPieces_skip hdepth (List.forall_mem_singleton.2 hpiece)
      rw [enclosedPieces_skip hdepth hgroup, hmap, hskip]
      exact (ih hdepth).trans (hmap [piece] merged _).symm

end Merges

/-! ## Numbers with a fraction -/

namespace Scan

theorem run_of_all {test : Char → Bool} {text : Text} (h : text.all test = true) :
    run test text = text.length := by
  unfold run
  rw [List.takeWhile_eq_self_iff.2 (List.all_eq_true.1 h)]

theorem fractionSize_of_not_mem {text : Text} (h : '.' ∉ text) : fractionSize text = 0 := by
  rw [fractionSize_eq_zero]
  rintro rest rfl
  exact absurd List.mem_cons_self h

/-- A dot in front of a digit begins a fraction. -/
theorem fractionSize_dot {d : Char} (rest : Text) (h : d.isDigit = true) :
    fractionSize ('.' :: d :: rest) = run Char.isDigit rest + 2 := by
  have hrun : run Char.isDigit (d :: rest) = run Char.isDigit rest + 1 := by
    unfold run
    rw [List.takeWhile_cons_of_pos h, List.length_cons]
  rw [fractionSize, hrun, if_neg (Nat.succ_ne_zero _)]

/-- What a marker makes up has no dot. -/
theorem not_dot_of_marker {text : Text} (h : markerSize text = text.length) : '.' ∉ text := by
  intro hdot
  have hpart : '.' ∈ text.take (markerSize text) := by rwa [h, List.take_length]
  exact absurd (mem_take_marker hpart) (by decide)

theorem not_dot_of_digits (text : Text) : '.' ∉ text.take (run Char.isDigit text) :=
  fun hdot => absurd (mem_take_run hdot) (by decide)

/-- What stands behind the first digit of a number without a fraction. -/
theorem numberTail_of_not_mem {text : Text} (h : '.' ∉ text) :
    numberTail text = run Char.isDigit text + markerSize (text.drop (run Char.isDigit text)) := by
  unfold numberTail
  simp only [fractionSize_of_not_mem fun hdot => h (List.mem_of_mem_drop hdot), Nat.add_zero]

/-- A number with a dot is one of digits only, the dot, and a number without a dot. -/
theorem numberTail_split {tail : Text} (h : numberTail tail = tail.length) (hdot : '.' ∈ tail) :
    ∃ front d back, tail = front ++ '.' :: d :: back ∧ front.all Char.isDigit = true ∧
      d.isDigit = true ∧ '.' ∉ back ∧ numberTail back = back.length := by
  -- the digits in front, and the rest that is measured behind them
  have hsplit := tail.take_append_drop (run Char.isDigit tail)
  have hfront : (tail.take (run Char.isDigit tail)).all Char.isDigit = true :=
    List.all_eq_true.2 fun _ hc => mem_take_run hc
  have hsize := run_le Char.isDigit tail
  have hlength := List.length_drop (l := tail) (i := run Char.isDigit tail)
  have hrest : ∀ {count}, tail.drop (run Char.isDigit tail + count) =
      (tail.drop (run Char.isDigit tail)).drop count := by
    intro count
    rw [List.drop_drop]
  unfold numberTail at h
  simp only [hrest] at h
  generalize tail.drop (run Char.isDigit tail) = rest at *
  by_cases hfraction : fractionSize rest = 0
  · -- then a marker is all that is left
    rw [hfraction, List.drop_zero] at h
    have hmarker : '.' ∉ rest := not_dot_of_marker (by omega)
    rw [← hsplit] at hdot
    rcases List.mem_append.1 hdot with hdot | hdot
    · exact absurd hdot (not_dot_of_digits tail)
    · exact absurd hdot hmarker
  · obtain ⟨digits, rfl⟩ : ∃ digits, rest = '.' :: digits := by
      unfold fractionSize at hfraction
      split at hfraction
      · exact ⟨_, rfl⟩
      · exact absurd rfl hfraction
    obtain ⟨d, back, rfl, hd⟩ : ∃ d back, digits = d :: back ∧ d.isDigit = true := by
      rw [fractionSize_eq_zero] at hfraction
      push Not at hfraction
      obtain ⟨more, hmore, d, hd, hdigit⟩ := hfraction
      cases hmore
      obtain ⟨back, rfl⟩ := List.head?_eq_some_iff.1 hd
      exact ⟨d, back, rfl, by simpa using hdigit⟩
    rw [fractionSize_dot back hd, List.drop_succ_cons, List.drop_succ_cons] at h
    simp only [List.length_cons] at hlength
    have hback := run_le Char.isDigit back
    have hmarker : markerSize (back.drop (run Char.isDigit back)) =
        (back.drop (run Char.isDigit back)).length := by
      rw [List.length_drop]
      omega
    have hplain : '.' ∉ back := by
      rw [← back.take_append_drop (run Char.isDigit back)]
      rintro hdot
      rcases List.mem_append.1 hdot with hdot | hdot
      · exact not_dot_of_digits back hdot
      · exact not_dot_of_marker hmarker hdot
    refine ⟨_, d, back, hsplit.symm, hfront, hd, hplain, ?_⟩
    rw [numberTail_of_not_mem hplain, hmarker, List.length_drop]
    omega

/-- Digits, a dot and a number without a dot make one number. -/
theorem numberTail_join {front back : Text} {d : Char} (hfront : front.all Char.isDigit = true)
    (hd : d.isDigit = true) (hback : '.' ∉ back) (h : numberTail back = back.length) :
    numberTail (front ++ '.' :: d :: back) = (front ++ '.' :: d :: back).length := by
  have hdigits : run Char.isDigit (front ++ '.' :: d :: back) = front.length := by
    rw [run_append (by rintro _ ⟨⟩; decide), run_of_all hfront]
  rw [numberTail_of_not_mem hback] at h
  unfold numberTail
  simp only [hdigits, List.drop_left, fractionSize_dot back hd]
  rw [← List.drop_drop, List.drop_left, List.drop_succ_cons, List.drop_succ_cons]
  simp only [List.length_append, List.length_cons]
  omega

end Scan

/-! ## The finest cut -/

/-- A token that is not cut any further: a word, a string, a number without a fraction, or a single
character. -/
structure Piece.Atomic (piece : Piece) : Prop where
  lexeme : piece.Lexeme
  symbol : piece.kind = .symbol → ∃ c, piece.text = [c]
  number : piece.kind = .number → '.' ∉ piece.text

/-- Whether a comment would begin where the first piece does, if the second stood right behind it. -/
def Piece.comments (first second : Piece) : Bool :=
  first.text == ['/'] && second.text.head?.any fun c => c == '/' || c == '*'

/-- No two neighbours would begin a comment. -/
def Apart (pieces : List Piece) : Prop :=
  pieces.IsChain fun first second => first.comments second = false

instance (pieces : List Piece) : Decidable (Apart pieces) :=
  inferInstanceAs (Decidable (pieces.IsChain _))

theorem Piece.comments_eq {first second other next : Piece}
    (hfirst : first.text = ['/'] → other.text = ['/'])
    (hsecond : second.text.head? = next.text.head?) (h : other.comments next = false) :
    first.comments second = false := by
  unfold Piece.comments at h ⊢
  rw [Bool.and_eq_false_iff, beq_eq_false_iff_ne] at h ⊢
  rw [hsecond]
  exact h.imp (fun hne heq => hne (hfirst heq)) id

/-- A token is made of pieces that cannot be cut any further. -/
structure Piece.Cut (piece : Piece) (atoms : List Piece) : Prop where
  atomic : ∀ atom ∈ atoms, atom.Atomic
  made : Made atoms piece
  apart : Apart atoms
  first : ∀ first ∈ atoms.head?, first.text.head? = piece.text.head?
  last : ∀ last ∈ atoms.getLast?, last.text = ['/'] → piece.text = ['/']

theorem Piece.Atomic.cut {piece : Piece} (h : piece.Atomic) : piece.Cut [piece] where
  atomic := List.forall_mem_singleton.2 h
  made := .one (.refl piece)
  apart := .singleton _
  first := by rintro _ ⟨⟩; rfl
  last := by rintro _ ⟨⟩; exact id

theorem Piece.lexeme_number {c : Char} {tail : Text} {glued : Bool} (hdigit : c.isDigit = true)
    (h : Scan.numberTail tail = tail.length) : Piece.Lexeme ⟨.number, c :: tail, glued⟩ := by
  refine ⟨c, tail, rfl, ?_⟩
  rw [Scan.lexeme_number tail ?_ hdigit, h]
  by_contra hstart
  rw [Scan.isDigit_of_start (Bool.not_eq_false _ ▸ hstart)] at hdigit
  cases hdigit

/-- The pieces are the characters of a text, as symbols. -/
abbrev Signs (signs : Text) (group : List Piece) : Prop :=
  List.Forall₂ (fun c one => Piece.isSymbol one [c] = true) signs group

theorem Signs.closePieces_eq {signs : Text} {group : List Piece} (h : Signs signs group) :
    closePieces group = signs := by
  induction h with
  | nil => rfl
  | @cons c one signs group hone _ ih =>
    obtain ⟨hkind, htext⟩ := Piece.isSymbol_iff.1 hone
    have hsplit : closePieces ([one] ++ group) = closePieces [one] ++ closePieces group :=
      closePieces_append fun first hfirst _ _ => .inl (by cases hfirst; exact hkind)
    rw [ih] at hsplit
    exact hsplit.trans (by rw [closePieces, htext]; rfl)

/-- A symbol is made of its characters. -/
theorem Signs.made {piece : Piece} {group : List Piece} (h : Signs piece.text group)
    (hkind : piece.kind = .symbol) (hmem : piece.text ∈ Scan.symbols) : Made group piece := by
  have hparentheses : Scan.symbols.all (fun symbol => symbol.length == 1 ||
      symbol.all fun c => c != '(' && c != ')') = true := by decide
  have hne : piece.text ≠ [] := fun heq => absurd (heq ▸ hmem) (by decide)
  have hgroup : group ≠ [] := by
    rintro rfl
    exact hne (List.forall₂_nil_right_iff.1 h)
  have hsymbol : ∀ one ∈ group, ∃ c ∈ piece.text, one.isSymbol [c] = true :=
    fun one hone => exists_of_mem_forall₂ h hone
  have hall : ∀ one ∈ group, one.kind = .symbol ↔ piece.kind = .symbol := by
    intro one hone
    obtain ⟨c, -, hc⟩ := hsymbol one hone
    exact iff_of_true (Piece.isSymbol_iff.1 hc).1 hkind
  refine ⟨h.closePieces_eq, ⟨_, List.head?_eq_some_head hgroup, hall _ (List.head_mem hgroup)⟩,
    ⟨_, List.getLast?_eq_some_getLast hgroup, hall _ (List.getLast_mem hgroup)⟩, ?_⟩
  -- a symbol is one character, or it holds no parenthesis
  rcases Bool.or_eq_true_iff.1 (List.all_eq_true.1 hparentheses _ hmem) with hone | hnone
  · obtain ⟨one, rfl⟩ := List.length_eq_one_iff.1 (h.length_eq.symm.trans (beq_iff_eq.1 hone))
    refine .inl ⟨one, rfl, ⟨(hall one List.mem_cons_self).2 hkind |>.trans hkind.symm, ?_⟩⟩
    exact h.closePieces_eq
  · have hnone : '(' ∉ piece.text ∧ ')' ∉ piece.text := by
      constructor <;> exact fun hmem => absurd (List.all_eq_true.1 hnone _ hmem) (by decide)
    refine .inr ⟨Bool.eq_false_iff.2 fun hpiece => ?_, fun one hone => ?_⟩
    · rcases (Piece.isParenthesis_iff.1 hpiece).2 with heq | heq
      · exact hnone.1 (heq ▸ List.mem_cons_self)
      · exact hnone.2 (heq ▸ List.mem_cons_self)
    · obtain ⟨c, hc, htext⟩ := hsymbol one hone
      refine Bool.eq_false_iff.2 fun hpiece => ?_
      have hpiece := (Piece.isParenthesis_iff.1 hpiece).2
      rw [(Piece.isSymbol_iff.1 htext).2] at hpiece
      rcases hpiece with heq | heq
      · cases heq
        exact hnone.1 hc
      · cases heq
        exact hnone.2 hc

/-- A symbol is cut into its characters. -/
theorem Piece.cut_symbol {piece : Piece} (h : piece.Lexeme) (hkind : piece.kind = .symbol) :
    piece.Cut (piece.text.map fun c => .symbol [c]) := by
  have hmem := h.symbol_mem hkind
  have hsingle : Scan.symbols.all (·.all fun c => Scan.symbols.contains [c]) = true := by decide
  have hchain : ∀ symbol ∈ Scan.symbols, symbol.IsChain fun first second =>
      (first == '/' && (second == '/' || second == '*')) = false := by decide
  have hslash : ∀ symbol ∈ Scan.symbols, symbol.getLast? = some '/' → symbol = ['/'] := by decide
  constructor
  case atomic =>
    intro atom hatom
    obtain ⟨c, hc, rfl⟩ := List.mem_map.1 hatom
    have hone := List.all_eq_true.1 (List.all_eq_true.1 hsingle _ hmem) c hc
    exact ⟨Piece.lexeme_symbol (List.contains_iff_mem.1 hone) false, fun _ => ⟨c, rfl⟩, nofun⟩
  case made =>
    refine Signs.made ?_ hkind hmem
    exact List.forall₂_map_right_iff.2 (List.forall₂_same.2 fun c _ => Piece.isSymbol_iff.2 ⟨rfl, rfl⟩)
  case apart =>
    refine (List.isChain_map _).2 ((hchain _ hmem).imp fun first second hpair => ?_)
    unfold Piece.comments
    simpa [Piece.symbol] using hpair
  case first =>
    intro first hfirst
    rw [List.head?_map] at hfirst
    obtain ⟨c, hc, rfl⟩ := Option.map_eq_some_iff.1 hfirst
    exact hc.symm
  case last =>
    intro last hlast heq
    rw [List.getLast?_map] at hlast
    obtain ⟨d, hd, rfl⟩ := Option.map_eq_some_iff.1 hlast
    cases heq
    exact hslash _ hmem hd

/-- Three pieces around a dot. -/
theorem Made.dot {first last piece : Piece} {mark : Piece} (hmark : mark.isSymbol "." = true)
    (hfirst : first.kind ≠ .symbol) (hlast : last.kind ≠ .symbol) (hpiece : piece.kind ≠ .symbol)
    (htext : piece.text = first.text ++ '.' :: last.text) : Made [first, mark, last] piece := by
  obtain ⟨hkind, hdot⟩ := Piece.isSymbol_iff.1 hmark
  have hnone : ∀ one : Piece, one.kind ≠ .symbol → one.isParenthesis = false := fun one hone =>
    Bool.eq_false_iff.2 fun hpiece => hone (Piece.isParenthesis_iff.1 hpiece).1
  refine ⟨?_, ⟨first, rfl, iff_of_false hfirst hpiece⟩, ⟨last, rfl, iff_of_false hlast hpiece⟩,
    .inr ⟨hnone piece hpiece, ?_⟩⟩
  · have hgap : closeGap first mark = [] ∧ closeGap mark last = [] := by simp [closeGap, hkind]
    rw [closePieces_cons_cons, closePieces_cons_cons, hgap.1, hgap.2, hdot, htext]
    rfl
  · have hmark : mark.isParenthesis = false := by
      refine Bool.eq_false_iff.2 fun hpiece => ?_
      rcases (Piece.isParenthesis_iff.1 hpiece).2 with heq | heq
      all_goals
        rw [hdot] at heq
        exact absurd heq (by decide)
    simp only [List.forall_mem_cons]
    exact ⟨hnone first hfirst, hmark, hnone last hlast, by simp⟩

/-- A number is cut at its dot. -/
theorem Piece.cut_number {piece : Piece} (h : piece.Lexeme) (hkind : piece.kind = .number)
    (hdot : '.' ∈ piece.text) : ∃ atoms, piece.Cut atoms := by
  obtain ⟨c, tail, htext, hlexeme⟩ := h
  rw [hkind] at hlexeme
  rcases Scan.lexeme_cases hlexeme with ⟨hword, -⟩ | ⟨-, -, hdigit, hsize⟩ | ⟨hstring, -⟩ |
    ⟨hsymbol, -⟩
  case inr.inl =>
    rw [htext] at hdot
    have hc : '.' ≠ c := by
      rintro rfl
      exact absurd hdigit (by decide)
    obtain ⟨front, d, back, rfl, hfront, hd, hback, hnumber⟩ :=
      Scan.numberTail_split hsize.symm ((List.mem_cons.1 hdot).resolve_left hc)
    have hdigits : Scan.numberTail front = front.length := by
      rw [Scan.numberTail_of_not_mem, Scan.run_of_all hfront, List.drop_length]
      · rfl
      · exact fun hmem => absurd (List.all_eq_true.1 hfront _ hmem) (by decide)
    refine ⟨[⟨.number, c :: front, false⟩, .symbol ['.'], ⟨.number, d :: back, false⟩], ?_, ?_, ?_,
      ?_, ?_⟩
    · have hfirst : Piece.Atomic ⟨.number, c :: front, false⟩ := by
        refine ⟨Piece.lexeme_number hdigit hdigits, nofun, fun _ hmem => ?_⟩
        rcases List.mem_cons.1 hmem with heq | hmem
        · exact hc heq
        · exact absurd (List.all_eq_true.1 hfront _ hmem) (by decide)
      have hmark : (Piece.symbol ['.']).Atomic :=
        ⟨Piece.lexeme_symbol (by decide) false, fun _ => ⟨'.', rfl⟩, nofun⟩
      have hlast : Piece.Atomic ⟨.number, d :: back, false⟩ := by
        refine ⟨Piece.lexeme_number hd hnumber, nofun, fun _ hmem => ?_⟩
        rcases List.mem_cons.1 hmem with rfl | hmem
        · exact absurd hd (by decide)
        · exact hback hmem
      simp only [List.forall_mem_cons]
      exact ⟨hfirst, hmark, hlast, by simp⟩
    · refine .dot rfl nofun nofun (by rw [hkind]; nofun) ?_
      rw [htext]
      rfl
    · refine .cons_cons ?_ (.cons_cons rfl (.singleton _))
      unfold Piece.comments
      rw [Bool.and_eq_false_iff]
      exact .inr rfl
    · rintro _ ⟨⟩
      rw [htext]
      rfl
    · rintro _ ⟨⟩ heq
      cases heq
      exact absurd hd (by decide)
  all_goals contradiction

theorem Piece.Lexeme.cut {piece : Piece} (h : piece.Lexeme) : ∃ atoms, piece.Cut atoms := by
  by_cases hsymbol : piece.kind = .symbol
  · exact ⟨_, Piece.cut_symbol h hsymbol⟩
  · by_cases hnumber : piece.kind = .number ∧ '.' ∈ piece.text
    · exact Piece.cut_number h hnumber.1 hnumber.2
    · refine ⟨[piece], Piece.Atomic.cut ⟨h, fun hkind => absurd hkind hsymbol, fun hkind hdot => ?_⟩⟩
      exact hnumber ⟨hkind, hdot⟩

/-- A row of tokens is cut as finely as tokens can be. -/
theorem exists_cut {pieces : List Piece} (h : ∀ piece ∈ pieces, piece.Lexeme)
    (hapart : Apart pieces) :
    ∃ atoms, (∀ atom ∈ atoms, atom.Atomic) ∧ Merges atoms pieces ∧ Apart atoms ∧
      ∀ first ∈ atoms.head?, ∃ piece, pieces.head? = some piece ∧
        first.text.head? = piece.text.head? := by
  induction pieces with
  | nil => exact ⟨[], by simp, .nil, .nil, by simp⟩
  | cons piece rest ih =>
    obtain ⟨hpiece, hrest⟩ := List.forall_mem_cons.1 h
    obtain ⟨hnext, hchain⟩ := List.isChain_cons.1 hapart
    obtain ⟨atoms, hcut⟩ := hpiece.cut
    obtain ⟨others, hatomic, hmerges, hothers, hfirst⟩ := ih hrest hchain
    refine ⟨atoms ++ others, List.forall_mem_append.2 ⟨hcut.atomic, hatomic⟩,
      .cons hcut.made hmerges, List.isChain_append.2 ⟨hcut.apart, hothers, ?_⟩, ?_⟩
    · intro last hlast first hmem
      obtain ⟨next, hhead, htext⟩ := hfirst first hmem
      exact Piece.comments_eq (hcut.last last hlast) htext (hnext next hhead)
    · obtain ⟨first, hhead, -⟩ := hcut.made.first
      rw [List.head?_append, hhead]
      rintro _ ⟨⟩
      exact ⟨piece, rfl, hcut.first first hhead⟩

/-! ## Cutting again -/

/-- What is written behind a piece: the gap, and the rest of the row. -/
def closeRest (last : Piece) : List Piece → Text
  | [] => []
  | first :: rest => closeGap last first ++ closePieces (first :: rest)

theorem closePieces_cons (first : Piece) (rest : List Piece) :
    closePieces (first :: rest) = first.text ++ closeRest first rest := by
  cases rest with
  | nil => exact (List.append_nil _).symm
  | cons second others => exact closePieces_cons_cons first second others

theorem closePieces_append_closeRest {group rest : List Piece} {last : Piece}
    (h : group.getLast? = some last) :
    closePieces (group ++ rest) = closePieces group ++ closeRest last rest := by
  cases rest with
  | nil => rw [List.append_nil, closeRest, List.append_nil]
  | cons first others => exact closePieces_append_of_some h rfl

theorem closeRest_symbol {last : Piece} (h : last.kind = .symbol) (rest : List Piece) :
    closeRest last rest = closePieces rest := by
  cases rest with
  | nil => rfl
  | cons first others => simp [closeRest, closeGap, h]

/-- Behind a piece that is no symbol stands a blank or a symbol. -/
theorem closeRest_head {last : Piece} {rest : List Piece} (h : last.kind ≠ .symbol)
    (hrest : ∀ atom ∈ rest, atom.Lexeme) :
    ∀ c ∈ (closeRest last rest).head?, Scan.isWordPart c = false := by
  cases rest with
  | nil => simp [closeRest]
  | cons first others =>
    by_cases hfirst : first.kind = .symbol
    · have hgap : closeGap last first = [] := by simp [closeGap, hfirst]
      obtain ⟨c, tail, htext, -⟩ := (hrest first List.mem_cons_self).first
      have hmem := (hrest first List.mem_cons_self).symbol_mem hfirst
      rw [closeRest, hgap, closePieces_cons, htext]
      rintro _ ⟨⟩
      exact (Scan.symbols_not_word _ hmem c (htext ▸ List.mem_cons_self)).1
    · have hgap : closeGap last first = [' '] := by simp [closeGap, h, hfirst]
      rw [closeRest, hgap]
      rintro _ ⟨⟩
      decide

/-- The class of a token that begins with a digit. -/
theorem Piece.Lexeme.number_of_head {piece : Piece} {c : Char} {tail : Text} (h : piece.Lexeme)
    (htext : piece.text = c :: tail) (hdigit : c.isDigit = true) : piece.kind = .number := by
  rw [h.regular.kind, htext]
  have hstart : Scan.isWordStart c = false := by
    by_contra hstart
    rw [Scan.isDigit_of_start (Bool.not_eq_false _ ▸ hstart)] at hdigit
    cases hdigit
  simp [TokenKind.ofText, hstart, hdigit]

/-- No number goes on behind a piece that is no symbol, unless a dot and a number follow. -/
theorem fractionSize_closeRest {last : Piece} {rest : List Piece} (h : last.kind ≠ .symbol)
    (hrest : ∀ atom ∈ rest, atom.Atomic)
    (hnone : ∀ mark next others, rest = mark :: next :: others → mark.isSymbol "." = true →
      next.kind ≠ .number) : Scan.fractionSize (closeRest last rest) = 0 := by
  rw [Scan.fractionSize_eq_zero]
  intro more hmore d hd
  cases rest with
  | nil => cases hmore
  | cons mark others =>
    by_cases hmark : mark.kind = .symbol
    · obtain ⟨c, htext⟩ := (hrest mark List.mem_cons_self).symbol hmark
      have hgap : closeGap last mark = [] := by simp [closeGap, hmark]
      rw [closeRest, hgap, closePieces_cons, htext, closeRest_symbol hmark] at hmore
      obtain ⟨rfl, rfl⟩ := List.cons.inj hmore
      cases others with
      | nil => cases hd
      | cons next others =>
        have hnext := (hrest next (List.mem_cons_of_mem _ List.mem_cons_self)).lexeme
        obtain ⟨e, tail, hnexttext, -⟩ := hnext.first
        rw [closePieces_cons, hnexttext] at hd
        cases hd
        by_contra hdigit
        refine hnone mark next others rfl (Piece.isSymbol_iff.2 ⟨hmark, htext⟩) ?_
        exact hnext.number_of_head hnexttext (Bool.not_eq_false _ ▸ hdigit)
    -- two pieces that are no symbols stand apart, so a blank comes first
    · have hgap : closeGap last mark = [' '] := by simp [closeGap, h, hmark]
      rw [closeRest, hgap] at hmore
      cases hmore

/-- The token that is cut off the front of a row, and the pieces that it is made of. -/
structure CutsOff (atoms group rest : List Piece) (piece : Piece) : Prop where
  split : atoms = group ++ rest
  made : Made group piece
  lexeme : piece.Lexeme
  glued : piece.glued = (piece.isSymbol ">" || piece.isSymbol "=")
  ends : ∀ last ∈ group.getLast?, piece.Ends (closeRest last rest)

/-- The piece by itself, with nothing between it and what stands in front. -/
def Piece.close (piece : Piece) : Piece :=
  ⟨piece.kind, piece.text, piece.isSymbol ">" || piece.isSymbol "="⟩

/-- A piece that is no symbol is cut off by itself, unless it is a number that goes on. -/
theorem CutsOff.single {first : Piece} {rest : List Piece} (h : first.Lexeme)
    (hkind : first.kind ≠ .symbol) (hrest : ∀ atom ∈ rest, atom.Atomic)
    (hnone : first.kind = .number → first.text.all Char.isDigit = true → ∀ mark next others,
      rest = mark :: next :: others → mark.isSymbol "." = true → next.kind ≠ .number) :
    CutsOff (first :: rest) [first] rest first.close := by
  refine ⟨rfl, .one ⟨rfl, rfl⟩, h, rfl, ?_⟩
  rintro _ ⟨⟩
  refine ⟨fun c hc => ?_, fun hnumber hall => ?_⟩
  · have hpart := closeRest_head hkind (fun atom hatom => (hrest atom hatom).lexeme) c hc
    unfold Piece.meets Piece.close
    cases hfirst : first.kind with
    | symbol => exact absurd hfirst hkind
    | string => rfl
    | word => simp [hpart]
    | number => simp [hpart]
  · exact fractionSize_closeRest hkind hrest (hnone hnumber hall)

/-- A number takes a dot and the number behind it. -/
theorem CutsOff.number {first mark next : Piece} {rest : List Piece} (h : first.Atomic)
    (hkind : first.kind = .number) (hall : first.text.all Char.isDigit = true)
    (hmark : mark.isSymbol "." = true) (hnext : next.Atomic) (hnumber : next.kind = .number)
    (hrest : ∀ atom ∈ rest, atom.Atomic) :
    CutsOff (first :: mark :: next :: rest) [first, mark, next] rest
      ⟨.number, first.text ++ '.' :: next.text, false⟩ := by
  obtain ⟨c, tail, htext, -⟩ := h.lexeme.first
  obtain ⟨d, back, htext', hlexeme⟩ := hnext.lexeme
  rw [hnumber] at hlexeme
  rcases Scan.lexeme_cases hlexeme with ⟨hkind', -⟩ | ⟨-, -, hd, hsize⟩ | ⟨hkind', -⟩ | ⟨hkind', -⟩
  case inr.inl =>
    have hplain := hnext.number hnumber
    rw [htext'] at hplain
    rw [htext, List.all_cons, Bool.and_eq_true] at hall
    have hjoin := Scan.numberTail_join hall.2 hd (List.not_mem_of_not_mem_cons hplain) hsize.symm
    have hsymbol : next.kind ≠ .symbol := by
      rw [hnumber]
      nofun
    refine ⟨rfl, .dot hmark (by rw [hkind]; nofun) hsymbol nofun rfl, ?_, rfl, ?_⟩
    · rw [htext, htext']
      exact Piece.lexeme_number hall.1 hjoin
    · rintro _ ⟨⟩
      refine ⟨fun e he => ?_, fun _ hdigits => ?_⟩
      · have hpart := @closeRest_head next rest hsymbol
          (fun atom hatom => (hrest atom hatom).lexeme) e he
        simp [Piece.meets, hpart]
      -- the number has its dot already and takes no other one
      · have hdot := List.all_eq_true.1 hdigits '.' (by simp)
        exact absurd hdot (by decide)
  all_goals cases hkind'

/-- Symbols that begin a row are single characters of it. -/
theorem signs_of_prefix {signs : Text} {atoms : List Piece} (h : ∀ atom ∈ atoms, atom.Atomic)
    (hsigns : ∀ c ∈ signs, Scan.isWordPart c = false ∧ c ≠ '\x27')
    (hbegin : signs <+: closePieces atoms) :
    ∃ group rest, atoms = group ++ rest ∧ Signs signs group := by
  induction signs generalizing atoms with
  | nil => exact ⟨[], atoms, rfl, .nil⟩
  | cons c signs ih =>
    cases atoms with
    | nil => simp [closePieces] at hbegin
    | cons first others =>
      obtain ⟨hfirst, hothers⟩ := List.forall_mem_cons.1 h
      obtain ⟨hc, hsigns⟩ := List.forall_mem_cons.1 hsigns
      obtain ⟨d, tail, htext, -⟩ := hfirst.lexeme.first
      rw [closePieces_cons, htext, List.cons_append, List.cons_prefix_cons] at hbegin
      obtain ⟨rfl, hbegin⟩ := hbegin
      -- only a symbol begins with a sign
      have hkind : first.kind = .symbol := by
        refine hfirst.lexeme.symbol_of_head htext ?_ ?_ hc.2
        · by_contra hstart
          rw [Scan.isWordPart_of_start (Bool.not_eq_false _ ▸ hstart)] at hc
          exact absurd hc.1 (by decide)
        · by_contra hdigit
          rw [Scan.isWordPart_of_digit (Bool.not_eq_false _ ▸ hdigit)] at hc
          exact absurd hc.1 (by decide)
      obtain ⟨e, hone⟩ := hfirst.symbol hkind
      obtain ⟨rfl, rfl⟩ := List.cons.inj (htext.symm.trans hone)
      rw [List.nil_append, closeRest_symbol hkind] at hbegin
      obtain ⟨group, rest, rfl, hgroup⟩ := ih hothers hsigns hbegin
      exact ⟨first :: group, rest, rfl, .cons (Piece.isSymbol_iff.2 ⟨hkind, htext⟩) hgroup⟩

/-- Of two tests, one stricter than the other, both find the same, if the one found first passes
both. -/
theorem find?_eq_of_imp {α : Type} {items : List α} {loose strict : α → Bool} {a b : α}
    (himp : ∀ item, strict item = true → loose item = true) (ha : items.find? loose = some a)
    (hb : items.find? strict = some b) (hstrict : strict a = true) : a = b := by
  induction items with
  | nil => cases ha
  | cons item rest ih =>
    rw [List.find?_cons] at ha hb
    cases hloose : loose item with
    | true =>
      rw [hloose] at ha
      obtain rfl := Option.some.inj ha
      rw [hstrict] at hb
      exact Option.some.inj hb
    | false =>
      have hnone : strict item = false := by
        by_contra hitem
        rw [himp item (Bool.not_eq_false _ ▸ hitem)] at hloose
        cases hloose
      rw [hloose] at ha
      rw [hnone] at hb
      exact ih ha hb

/-- The beginning of a symbol is a symbol. -/
theorem Scan.symbols_prefix {symbol start : Text} (h : symbol ∈ symbols) (hstart : start <+: symbol)
    (hne : start ≠ []) : start ∈ symbols := by
  have hall : symbols.all (·.inits.all fun start => start.isEmpty || symbols.contains start) =
      true := by decide
  have hone := List.all_eq_true.1 (List.all_eq_true.1 hall _ h) start
    ((List.mem_inits start symbol).2 hstart)
  rcases Bool.or_eq_true_iff.1 hone with hempty | hmem
  · exact absurd (List.isEmpty_iff.1 hempty) hne
  · exact List.contains_iff_mem.1 hmem

/-- The symbol that is found does not go on. -/
theorem Scan.not_prefix_of_find {symbol rest : Text} {c : Char}
    (h : symbols.find? (·.isPrefixOf (symbol ++ c :: rest)) = some symbol) :
    (symbols.any fun other => (symbol ++ [c]).isPrefixOf other) = false := by
  rw [List.any_eq_false]
  intro other hother hbegin
  have hlonger := symbols_prefix hother (List.isPrefixOf_iff_prefix.1 hbegin) (by simp)
  have hsame : symbol = symbol ++ [c] := by
    refine find?_eq_of_imp (fun item hitem => ?_) h (find_symbol _ hlonger) ?_
    · refine List.isPrefixOf_iff_prefix.2 ((List.isPrefixOf_iff_prefix.1 hitem).trans ?_)
      exact ⟨rest, by simp⟩
    · exact List.isPrefixOf_iff_prefix.2 (List.prefix_append symbol [c])
  simpa using congrArg List.length hsame

/-- Symbols take as many characters as make up one of the table. -/
theorem CutsOff.symbol {first : Piece} {others : List Piece} (hkind : first.kind = .symbol)
    (h : ∀ atom ∈ first :: others, atom.Atomic) (hapart : Apart (first :: others)) :
    ∃ group rest piece, CutsOff (first :: others) group rest piece := by
  obtain ⟨c, htext⟩ := (h first List.mem_cons_self).symbol hkind
  have hsingle := (h first List.mem_cons_self).lexeme.symbol_mem hkind
  rw [htext] at hsingle
  obtain ⟨signs, hfind⟩ : ∃ signs,
      Scan.symbols.find? (·.isPrefixOf (closePieces (first :: others))) = some signs := by
    refine Option.isSome_iff_exists.1 (List.find?_isSome.2 ⟨[c], hsingle, ?_⟩)
    rw [closePieces_cons, htext, List.isPrefixOf_iff_prefix]
    exact List.prefix_append _ _
  have hmem := List.mem_of_find?_eq_some hfind
  have hbegin : signs.isPrefixOf (closePieces (first :: others)) = true := by
    simpa using List.find?_some hfind
  obtain ⟨group, rest, hsplit, hgroup⟩ :=
    signs_of_prefix h (Scan.symbols_not_word signs hmem) (List.isPrefixOf_iff_prefix.1 hbegin)
  have hmade : Made group (Piece.symbol signs).close := Signs.made hgroup rfl hmem
  refine ⟨group, rest, _, hsplit, hmade, Piece.lexeme_symbol hmem _, rfl, ?_⟩
  intro last hlast
  obtain ⟨other, hother, hsymbol⟩ := hmade.last
  obtain rfl := Option.some.inj (hlast.symm.trans hother)
  rw [closeRest_symbol (hsymbol.2 rfl)]
  refine ⟨fun d hd => ?_, nofun⟩
  rw [hsplit, closePieces_append_closeRest hlast, closeRest_symbol (hsymbol.2 rfl),
    hgroup.closePieces_eq] at hfind
  obtain ⟨more, hmore⟩ := List.head?_eq_some_iff.1 hd
  rw [hmore] at hfind
  show (!(Scan.symbols.any fun symbol => (signs ++ [d]).isPrefixOf symbol) &&
    !(signs == ['/'] && (d == '/' || d == '*'))) = true
  rw [Bool.and_eq_true, Bool.not_eq_true', Bool.not_eq_true']
  refine ⟨Scan.not_prefix_of_find hfind, ?_⟩
  by_contra hcomment
  rw [Bool.not_eq_false, Bool.and_eq_true, beq_iff_eq] at hcomment
  -- the row would have a comment there
  obtain ⟨rfl, hsecond⟩ := hcomment
  obtain ⟨one, nothing, hone, hnothing, rfl⟩ := List.forall₂_cons_left_iff.1 hgroup
  cases hnothing
  rw [hsplit] at hapart h
  cases rest with
  | nil => cases hmore
  | cons next rest =>
    obtain ⟨e, tail, hnext, -⟩ := (h next (by simp)).lexeme.first
    rw [closePieces_cons, hnext] at hmore
    obtain ⟨rfl, -⟩ := List.cons.inj hmore
    have hpair := (List.isChain_cons_cons.1 hapart).1
    unfold Piece.comments at hpair
    rw [(Piece.isSymbol_iff.1 hone).2, hnext] at hpair
    rw [List.head?_cons, Option.any_some, hsecond] at hpair
    cases hpair

theorem exists_cutsOff {atoms : List Piece} (hne : atoms ≠ []) (h : ∀ atom ∈ atoms, atom.Atomic)
    (hapart : Apart atoms) : ∃ group rest piece, CutsOff atoms group rest piece := by
  obtain ⟨first, others, rfl⟩ := List.exists_cons_of_ne_nil hne
  obtain ⟨hfirst, hothers⟩ := List.forall_mem_cons.1 h
  by_cases hkind : first.kind = .symbol
  · exact CutsOff.symbol hkind h hapart
  · by_cases hjoin : first.kind = .number ∧ first.text.all Char.isDigit = true ∧
        ∃ mark next rest, others = mark :: next :: rest ∧ mark.isSymbol "." = true ∧
          next.kind = .number
    · obtain ⟨hnumber, hall, mark, next, rest, rfl, hmark, hnext⟩ := hjoin
      simp only [List.forall_mem_cons] at hothers
      exact ⟨_, _, _, .number hfirst hnumber hall hmark hothers.2.1 hnext hothers.2.2⟩
    · refine ⟨_, _, _, .single hfirst.lexeme hkind hothers fun hnumber hall mark next rest heq hmark
        hnext => hjoin ⟨hnumber, hall, mark, next, rest, heq, hmark, hnext⟩⟩

/-- What is spelled without a gap is spelled with the gap that a row has there. -/
theorem Merges.spelled_closeRest {rest merged : List Piece} (h : Merges rest merged) (last : Piece)
    (hspelled : Spelled merged (closePieces rest)) : Spelled merged (closeRest last rest) := by
  cases rest with
  | nil => exact hspelled
  | cons first others =>
    by_cases hgap : closeGap last first = []
    · rwa [closeRest, hgap]
    · have hkinds : last.kind ≠ .symbol ∧ first.kind ≠ .symbol := by
        by_contra hkinds
        exact hgap (if_neg hkinds)
      have hsome : merged ≠ [] := fun hnil => absurd (h.eq_nil_iff.2 hnil) (List.cons_ne_nil _ _)
      rw [closeRest, closeGap, if_pos hkinds]
      refine hspelled.behind (by simp; decide) (fun piece hpiece => ?_) hsome
      obtain ⟨other, hother, hsymbol⟩ := h.head hpiece
      cases hother
      have hnone : ∀ text, piece.isSymbol text = false := fun text =>
        Bool.eq_false_iff.2 fun hpiece => hkinds.2 (hsymbol.2 (Piece.isSymbol_iff.1 hpiece).1)
      rw [hnone, hnone]
      rfl

/-- A row that is put close together is cut into tokens that are made of its pieces. -/
theorem exists_merges {atoms : List Piece} (h : ∀ atom ∈ atoms, atom.Atomic) (hapart : Apart atoms) :
    ∃ merged, Merges atoms merged ∧ Spelled merged (closePieces atoms) := by
  -- a token takes at least one piece, so the row behind it is shorter
  induction hsize : atoms.length using Nat.strong_induction_on generalizing atoms with
  | h size ih =>
    by_cases hne : atoms = []
    · subst hne
      exact ⟨[], .nil, .nil⟩
    · obtain ⟨group, rest, piece, hcut⟩ := exists_cutsOff hne h hapart
      obtain rfl := hcut.split
      obtain ⟨last, hlast, -⟩ := hcut.made.last
      have hshort : rest.length < size := by
        have hsome : group ≠ [] := by
          rintro rfl
          cases hlast
        have hpositive := List.length_pos_iff.2 hsome
        rw [List.length_append] at hsize
        omega
      obtain ⟨merged, hmerges, hspelled⟩ := ih rest.length hshort (List.forall_mem_append.1 h).2
        (List.isChain_append.1 hapart).2.1 rfl
      refine ⟨piece :: merged, .cons hcut.made hmerges, ?_⟩
      have hwhole : Spelled (piece :: merged) ([] ++ (piece.text ++ closeRest last rest)) :=
        .cons (by simp) hcut.lexeme (by rw [hcut.glued]; simp) (hcut.ends last hlast)
          (hmerges.spelled_closeRest last hspelled)
      rwa [closePieces_append_closeRest hlast, hcut.made.text]

/-- Tokens that are put close together are cut into others with the same text and the same
parentheses. -/
theorem exists_closed {pieces : List Piece} (h : ∀ piece ∈ pieces, piece.Lexeme)
    (hapart : Apart pieces) :
    ∃ again, Spelled again (closePieces pieces) ∧ closePieces again = closePieces pieces ∧
      ∀ depth ≠ 0, enclosedPieces "(" ")" depth pieces = some pieces →
        enclosedPieces "(" ")" depth again = some again := by
  obtain ⟨atoms, hatomic, hmerges, hatoms, -⟩ := exists_cut h hapart
  obtain ⟨again, hagain, hspelled⟩ := exists_merges hatomic hatoms
  rw [hmerges.closePieces_eq] at hspelled
  refine ⟨again, hspelled, hagain.closePieces_eq.symm.trans hmerges.closePieces_eq, ?_⟩
  intro depth hdepth henclosed
  exact (hagain.enclosed_iff hdepth).1 ((hmerges.enclosed_iff hdepth).2 henclosed)

end ApexLayout
