import ApexLayout.Proofs.Spelling.Apart
import ApexLayout.Proofs.Spelling.Modifier

/-!
Annotations that are read from their own text.

An annotation is kept as its tokens put close together. From this text the same annotation is read
again, with nothing left over, exactly if no comment begins between two of its tokens
(`Grammar.annotation_again_iff`): a slash in front of another one, or of an asterisk, is lost.
-/

namespace ApexLayout

/-- The text is an annotation by itself: the whole of it is read as this annotation. -/
def Modifier.ReadsAsItself (value : Modifier) : Prop :=
  ∃ stream final, TokenStream.ofSource value = .ok stream ∧
    Grammar.annotation stream = .ok value final ∧ final.tokens = []

/-- An annotation without a comment between its tokens is read from its own text. -/
theorem IsAnnotation.readsAsItself {pieces arguments : List Piece} {names : List Text}
    (h : IsAnnotation pieces names arguments) (hlexeme : ∀ piece ∈ pieces, piece.Lexeme)
    (hapart : Apart pieces) : (annotationText names arguments).ReadsAsItself := by
  have harguments : Apart arguments := by
    obtain ⟨mark, row, rfl, -⟩ := h.row
    exact hapart.infix ⟨mark :: row, [], by simp⟩
  obtain ⟨again, others, hagain, htext, hspelled⟩ := h.exists_again hlexeme harguments
  obtain ⟨stream, hstream, hpieces⟩ := hspelled.ofSource (List.forall_mem_nil _)
  rw [List.append_nil] at hstream
  have hreads : Grammar.Reads (stream.remaining + 1) Grammar.annotation again []
      (annotationText names others) := Grammar.reads_annotation hagain fun _ => ⟨rfl, rfl⟩
  have hrun := hreads stream (Nat.lt_succ_self _) (by rw [hpieces, List.append_nil])
  rw [htext] at hrun
  refine ⟨stream, _, hstream, hrun, ?_⟩
  have hnothing := TokenStream.pieces_skip_append (hpieces.trans (List.append_nil _).symm)
  exact List.map_eq_nil_iff.1 hnothing

/-- A row whose text is an annotation by itself holds no comment. -/
theorem Modifier.ReadsAsItself.apart {value : Modifier} (h : value.ReadsAsItself)
    {pieces : List Piece} (hlexeme : ∀ piece ∈ pieces, piece.Lexeme)
    (hvalue : value = closePieces pieces) : Apart pieces := by
  obtain ⟨stream, final, hstream, hrun, hend⟩ := h
  obtain ⟨taken, names, arguments, hmade, htext, hpieces, -⟩ := Grammar.annotation_ok hrun
  have hnothing : final.pieces = [] := by
    unfold TokenStream.pieces
    rw [hend, List.map_nil]
  rw [hnothing, List.append_nil] at hpieces
  have hsame : value = closePieces taken := htext ▸ (Modified.annotation hmade).eq_closePieces
  rw [hvalue] at hstream hsame
  exact apart_of_scan hlexeme hstream (by rw [hpieces, hsame])

/-- An annotation is read from its own text exactly if no two tokens that it was made from would
begin a comment next to each other. -/
theorem Grammar.annotation_again_iff {source : Text} {stream rest : TokenStream} {start : Nat}
    {value : Modifier} (hstream : TokenStream.ofSource source = .ok stream)
    (h : annotation (stream.skip start) = .ok value rest) :
    ∃ taken, (stream.skip start).pieces = taken ++ rest.pieces ∧
      (value.ReadsAsItself ↔ Apart taken) := by
  obtain ⟨taken, names, arguments, hmade, rfl, hpieces, -⟩ := annotation_ok h
  have hlexeme : ∀ piece ∈ taken, piece.Lexeme := by
    intro piece hpiece
    refine TokenStream.lexeme_of_ofSource hstream piece ?_
    have hmem : piece ∈ (stream.skip start).pieces := hpieces ▸ List.mem_append_left _ hpiece
    rw [TokenStream.pieces_skip] at hmem
    exact List.mem_of_mem_drop hmem
  have hvalue := (Modified.annotation hmade).eq_closePieces
  exact ⟨taken, hpieces, fun hreads => hreads.apart hlexeme hvalue, hmade.readsAsItself hlexeme⟩

/-- The annotation that a source begins with, if there is one. -/
def Grammar.firstAnnotation? (source : Text) : Option Modifier :=
  match TokenStream.ofSource source with
  | .ok stream =>
    match annotation stream with
    | .ok value _ => some value
    | .error _ _ => none
  | .error _ => none

theorem Grammar.firstAnnotation?_eq_some {source : Text} {value : Modifier} :
    firstAnnotation? source = some value ↔
      ∃ stream rest, TokenStream.ofSource source = .ok stream ∧
        annotation stream = .ok value rest := by
  unfold firstAnnotation?
  split
  case h_1 stream hstream =>
    rw [hstream]
    split
    case h_1 value' rest hrun => simp [hrun]
    case h_2 failure rest hrun => simp [hrun]
  case h_2 hfailure => simp [hfailure]

/-- A quotient and a number that is cut in two places, and in one when it is read again. -/
theorem Grammar.annotation_again_quotient :
    ∃ stream rest, TokenStream.ofSource "@A(x / 2 . 5)" = .ok stream ∧
      annotation (stream.skip 0) = .ok "@A(x/2.5)" rest ∧
      Modifier.ReadsAsItself "@A(x/2.5)" := by
  have hfirst : firstAnnotation? "@A(x / 2 . 5)" = some "@A(x/2.5)" := by decide +kernel
  have hapart : (TokenStream.ofSource "@A(x / 2 . 5)").toOption.all
      (fun stream => decide (Apart stream.pieces)) = true := by decide +kernel
  obtain ⟨stream, rest, hstream, hrun⟩ := firstAnnotation?_eq_some.1 hfirst
  rw [hstream] at hapart
  have hskip : annotation (stream.skip 0) = .ok "@A(x/2.5)".toList rest := hrun
  obtain ⟨taken, htaken, hagain⟩ := annotation_again_iff hstream hskip
  have hall : Apart (taken ++ rest.pieces) := htaken ▸ of_decide_eq_true hapart
  exact ⟨stream, rest, hstream, hrun, hagain.2 hall.left_of_append⟩

/-- Two slashes make a comment, which takes the rest of the annotation with it. -/
theorem Grammar.annotation_again_slashes :
    (∃ stream rest, TokenStream.ofSource "@A(/ /x)" = .ok stream ∧
      annotation (stream.skip 0) = .ok "@A(//x)" rest) ∧
      ¬ Modifier.ReadsAsItself "@A(//x)" := by
  have hfirst : firstAnnotation? "@A(/ /x)" = some "@A(//x)" := by decide +kernel
  have hagain : firstAnnotation? "@A(//x)" = none := by decide +kernel
  refine ⟨firstAnnotation?_eq_some.1 hfirst, ?_⟩
  rintro ⟨stream, final, hstream, hrun, -⟩
  rw [firstAnnotation?_eq_some.2 ⟨stream, final, hstream, hrun⟩] at hagain
  cases hagain

end ApexLayout
