import ApexLayout.Proofs.Gaps
import ApexLayout.Proofs.Positions
import Mathlib.Data.List.Induction

/-!
Tokens tile their source.

A source is cut at byte offsets. Between the offsets of a token stands its text, and between the end
of one token and the beginning of the next stands a gap, so nothing of the source is left out and
nothing belongs to two tokens. The offsets, lines and columns of all tokens can be counted in the
source itself (`TokenStream.ofSource_tiles`).
-/

namespace ApexLayout

/-! ## Bytes of a text -/

namespace Text

/-- What stands behind the given number of bytes. -/
def dropBytes : Nat → Text → Text
  | 0, text => text
  | _, [] => []
  | count + 1, c :: rest => dropBytes (count + 1 - c.utf8Size) rest

/-- The characters of the given number of bytes. -/
def takeBytes : Nat → Text → Text
  | 0, _ => []
  | _, [] => []
  | count + 1, c :: rest => c :: takeBytes (count + 1 - c.utf8Size) rest

/-- The part of a text between two byte offsets. -/
def slice (text : Text) (start finish : Nat) : Text :=
  takeBytes (finish - start) (dropBytes start text)

theorem byteSize_cons (c : Char) (text : Text) :
    byteSize (c :: text) = c.utf8Size + byteSize text := rfl

@[simp] theorem byteSize_append (first second : Text) :
    byteSize (first ++ second) = byteSize first + byteSize second := by
  induction first with
  | nil => simp [byteSize]
  | cons c rest ih => rw [List.cons_append, byteSize_cons, byteSize_cons, ih, Nat.add_assoc]

/-- A character has at least one byte. -/
theorem exists_byteSize_cons (c : Char) (text : Text) :
    ∃ count, byteSize (c :: text) = count + 1 ∧ count + 1 - c.utf8Size = byteSize text := by
  have hpositive := c.utf8Size_pos
  refine ⟨byteSize (c :: text) - 1, ?_, ?_⟩ <;> rw [byteSize_cons] <;> omega

@[simp] theorem dropBytes_append (first second : Text) :
    dropBytes (byteSize first) (first ++ second) = second := by
  induction first with
  | nil => simp [byteSize, dropBytes]
  | cons c rest ih =>
    obtain ⟨count, hsize, hrest⟩ := exists_byteSize_cons c rest
    rw [hsize, List.cons_append, dropBytes, hrest, ih]

@[simp] theorem takeBytes_append (first second : Text) :
    takeBytes (byteSize first) (first ++ second) = first := by
  induction first with
  | nil => simp [byteSize, takeBytes]
  | cons c rest ih =>
    obtain ⟨count, hsize, hrest⟩ := exists_byteSize_cons c rest
    rw [hsize, List.cons_append, takeBytes, hrest, ih]

/-- A slice is found where it was put. -/
theorem slice_append (first second third : Text) :
    slice (first ++ (second ++ third)) (byteSize first) (byteSize first + byteSize second) =
      second := by
  unfold slice
  rw [Nat.add_sub_cancel_left, dropBytes_append, takeBytes_append]

/-- The position behind a text: the newlines are counted, and the characters behind the last. -/
def endPosition (text : Text) : Position :=
  ⟨1 + text.count '\n', 1 + (text.reverse.takeWhile (· ≠ '\n')).length⟩

/-- A newline begins the next line. -/
theorem endPosition_newline (text : Text) :
    endPosition (text ++ ['\n']) = ⟨text.endPosition.line + 1, 1⟩ := by
  unfold endPosition
  rw [List.count_append, List.count_singleton_self, List.reverse_append, List.reverse_singleton,
    List.singleton_append, List.takeWhile_cons_of_neg (by decide), List.length_nil]
  rfl

/-- Any other character takes one column. -/
theorem endPosition_append {c : Char} (text : Text) (hc : c ≠ '\n') :
    endPosition (text ++ [c]) = ⟨text.endPosition.line, text.endPosition.column + 1⟩ := by
  unfold endPosition
  rw [List.count_append, List.count_singleton, if_neg (by simpa using hc), List.reverse_append,
    List.reverse_singleton, List.singleton_append, List.takeWhile_cons_of_pos (by simpa using hc),
    List.length_cons]
  rfl

end Text

/-- The place behind a text that begins a source. -/
theorem Mark.advance_origin (text : Text) :
    origin.advance text = ⟨text.byteSize, text.endPosition⟩ := by
  induction text using List.reverseRecOn with
  | nil => rfl
  | append_singleton front c ih =>
    have hsize : Text.byteSize (front ++ [c]) = Text.byteSize front + c.utf8Size :=
      Text.byteSize_append front [c]
    rw [advance_append, ih, hsize]
    show step _ c = _
    unfold step
    by_cases hc : c = '\n'
    · rw [if_pos hc, hc, Text.endPosition_newline]
    · rw [if_neg hc, Text.endPosition_append front hc]

/-! ## Extents -/

/-- Where a token stands in its source. The end of the source counts as a token without a class. -/
structure Extent where
  kind : Option TokenKind
  text : Text
  start : Mark
  finish : Mark

/-- Where a token stands. -/
def Token.extent (token : Token) : Extent := ⟨token.kind, token.text, token.start, token.finish⟩

/-- Where the tokens of a stream stand, and its end. -/
def TokenStream.extents (stream : TokenStream) : List Extent :=
  stream.tokens.map Token.extent ++ [⟨none, [], stream.finish, stream.finish⟩]

/-- The extent has the text of the source between its offsets, and its position is counted in the
source. -/
structure Extent.Fits (source : Text) (extent : Extent) : Prop where
  text : source.slice extent.start.offset extent.finish.offset = extent.text
  position : extent.start.position = Text.endPosition (source.takeBytes extent.start.offset)

/-- Between an offset and the first extent, and between the extents, the source has gaps. -/
def Tiles (source : Text) : Nat → List Extent → Prop
  | _, [] => True
  | reached, extent :: rest =>
    reached ≤ extent.start.offset ∧
      Gap (source.dropBytes extent.start.offset) (source.slice reached extent.start.offset) ∧
      Tiles source extent.finish.offset rest

/-- What is cut out of the middle of a source fits. -/
theorem Extent.fits_of_append (kind : Option TokenKind) (before text rest : Text) :
    Extent.Fits (before ++ (text ++ rest))
      ⟨kind, text, Mark.origin.advance before, (Mark.origin.advance before).advance text⟩ := by
  rw [← Mark.advance_append, Mark.advance_origin, Mark.advance_origin]
  refine ⟨?_, ?_⟩
  · show Text.slice _ (Text.byteSize before) (Text.byteSize (before ++ text)) = text
    rw [Text.byteSize_append, Text.slice_append]
  · show Text.endPosition before = Text.endPosition (Text.takeBytes (Text.byteSize before) _)
    rw [Text.takeBytes_append]

/-- A gap that stands in the middle of a source tiles it, together with what follows. -/
theorem Tiles.cons {source before lead rest : Text} {extent : Extent} {extents : List Extent}
    (hsource : source = before ++ (lead ++ rest)) (hgap : Gap rest lead)
    (hstart : extent.start.offset = Text.byteSize (before ++ lead))
    (htail : Tiles source extent.finish.offset extents) :
    Tiles source (Text.byteSize before) (extent :: extents) := by
  have hrest : source.dropBytes extent.start.offset = rest := by
    rw [hstart, hsource, ← List.append_assoc, Text.dropBytes_append]
  have hlead : source.slice (Text.byteSize before) extent.start.offset = lead := by
    rw [hstart, hsource, Text.byteSize_append, Text.slice_append]
  refine ⟨?_, ?_, htail⟩
  · rw [hstart, Text.byteSize_append]
    exact Nat.le_add_right _ _
  · rwa [hrest, hlead]

/-- The extents of a text behind another one fit the whole and tile what is left of it. -/
theorem Scan.scanFrom_tiles (before : Text) {text : Text} {mark : Mark} {stream : TokenStream}
    (h : scanFrom mark text = .ok stream) (hmark : mark = Mark.origin.advance before) :
    stream.finish = Mark.origin.advance (before ++ text) ∧
      (∀ extent ∈ stream.extents, extent.Fits (before ++ text)) ∧
      Tiles (before ++ text) (Text.byteSize before) stream.extents := by
  fun_induction scanFrom mark text generalizing stream before with
  | case1 => cases h
  | case2 mark text size hsize lead start =>
    rename_i hcut
    cases h
    obtain ⟨-, hgap, -⟩ := gap_of_gapSize hsize
    have htext : text = lead ++ [] := by
      rw [← hcut, List.take_append_drop]
    have hstart : start = Mark.origin.advance (before ++ lead) := by
      rw [Mark.advance_append, ← hmark]
    rw [hcut] at hgap
    refine ⟨by rw [htext, List.append_nil]; exact hstart, List.forall_mem_singleton.2 ?_, ?_⟩
    · have hend := Extent.fits_of_append none (before ++ lead) [] []
      rw [← hstart, List.append_assoc, List.nil_append, ← htext] at hend
      exact hend
    · refine .cons (congrArg (before ++ ·) htext) hgap ?_ trivial
      show start.offset = _
      rw [hstart, Mark.advance_origin]
  | case3 => cases h
  | case4 => cases h
  | case5 mark text size hsize lead start c rest hcut kind tail hlexeme token =>
    rename_i others hothers ih
    cases h
    obtain ⟨-, hgap, -⟩ := gap_of_gapSize hsize
    have htext : text = lead ++ (token.text ++ rest.drop tail) := by
      rw [List.cons_append, List.take_append_drop, ← hcut, List.take_append_drop]
    have hstart : start = Mark.origin.advance (before ++ lead) := by
      rw [Mark.advance_append, ← hmark]
    have hfinish : token.finish = Mark.origin.advance (before ++ (lead ++ token.text)) := by
      rw [← List.append_assoc, Mark.advance_append, ← hstart]
      rfl
    have hsource : before ++ (lead ++ token.text) ++ rest.drop tail = before ++ text := by
      rw [htext]
      simp only [List.append_assoc]
    -- behind the token the same holds, with the token as part of what stands before
    obtain ⟨hend, hfits, htiles⟩ := ih _ hothers hfinish
    rw [hsource] at hend hfits htiles
    refine ⟨hend, List.forall_mem_cons.2 ⟨?_, hfits⟩, ?_⟩
    · have htoken := Extent.fits_of_append (some kind) (before ++ lead) token.text
        (rest.drop tail)
      rw [← hstart, List.append_assoc, ← htext] at htoken
      exact htoken
    · have hrest : text.drop size = token.text ++ rest.drop tail := by
        rw [hcut, List.cons_append, List.take_append_drop]
      rw [hrest] at hgap
      refine .cons (congrArg (before ++ ·) htext) hgap ?_ ?_
      · show start.offset = _
        rw [hstart, Mark.advance_origin]
      · have hreached : token.finish.offset = Text.byteSize (before ++ (lead ++ token.text)) := by
          rw [hfinish, Mark.advance_origin]
        rw [← hreached] at htiles
        exact htiles

/-- The tokens of a source are slices of it with gaps between them, and each stands where counting
finds it. The end of the source is the last extent and the only one without a class. -/
theorem TokenStream.ofSource_tiles {source : Text} {stream : TokenStream}
    (h : TokenStream.ofSource source = .ok stream) :
    (∃ tokens finish, stream.extents = tokens ++ [⟨none, [], finish, finish⟩] ∧
      finish.offset = source.byteSize ∧
      ∀ extent ∈ tokens, extent.kind ≠ none ∧ extent.text ≠ []) ∧
      (∀ extent ∈ stream.extents,
        source.slice extent.start.offset extent.finish.offset = extent.text ∧
        extent.start.position = Text.endPosition (source.takeBytes extent.start.offset)) ∧
      Tiles source 0 stream.extents := by
  obtain ⟨hfinish, hfits, htiles⟩ := Scan.scanFrom_tiles [] h rfl
  refine ⟨⟨_, stream.finish, rfl, ?_, ?_⟩, fun extent hextent => ?_, htiles⟩
  · rw [hfinish, Mark.advance_origin]
    rfl
  · intro extent hextent
    obtain ⟨token, htoken, rfl⟩ := List.mem_map.1 hextent
    exact ⟨Option.some_ne_none _, TokenStream.text_ne_nil h token htoken⟩
  · exact ⟨(hfits extent hextent).text, (hfits extent hextent).position⟩

/-- A string and a comment with a character of two bytes, and a comment at the end. -/
theorem TokenStream.ofSource_tiles_comments :
    ∃ stream, TokenStream.ofSource "'é' // é\n1.5/**/" = .ok stream ∧
      stream.extents.map (fun extent => (extent.start.offset, extent.finish.offset)) =
        [(0, 4), (11, 14), (18, 18)] ∧
      Tiles "'é' // é\n1.5/**/" 0 stream.extents := by
  have hscan : (TokenStream.ofSource "'é' // é\n1.5/**/").toOption.map (fun stream =>
      stream.extents.map fun extent => (extent.start.offset, extent.finish.offset)) =
        some [(0, 4), (11, 14), (18, 18)] := by decide +kernel
  cases hstream : TokenStream.ofSource "'é' // é\n1.5/**/" with
  | error =>
    rw [hstream] at hscan
    cases hscan
  | ok stream =>
    rw [hstream] at hscan
    exact ⟨stream, rfl, Option.some.inj hscan, (TokenStream.ofSource_tiles hstream).2.2⟩

end ApexLayout
