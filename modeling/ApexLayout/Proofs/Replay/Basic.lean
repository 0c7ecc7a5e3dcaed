import ApexLayout.Proofs.Matching
import ApexLayout.Grammar.Type

/-!
The rules for single tokens: what a success says about the pieces ahead, and which pieces they read.
-/

namespace ApexLayout

namespace Grammar

variable {α β : Type} {stream final : TokenStream}

/-! ## What a success says -/

theorem look_eq_ok {view : TokenStream → α} {value : α} :
    look view stream = .ok value final ↔ view stream = value ∧ stream = final := by
  show EStateM.Result.ok (view stream) stream = _ ↔ _
  simp

theorem atSymbol_eq_ok {text : Text} {found : Bool} :
    atSymbol text stream = .ok found final ↔
      pieceAt stream.pieces 0 (·.isSymbol text) = found ∧ stream = final := by
  unfold atSymbol
  rw [look_eq_ok, TokenStream.symbolAt_eq]

theorem skip_eq_ok {count : Nat} {value : Unit} :
    skip count stream = .ok value final ↔ stream.skip count = final := by
  show EStateM.Result.ok _ (stream.skip count) = _ ↔ _
  simp

/-- Giving up leaves the stream as it is, with an error made for it. -/
@[simp] theorem fail_run (expected : Expectation) :
    (fail expected : Grammar α) stream = .error (stream.refusal expected) stream := rfl

/-- A requirement succeeds exactly when its condition holds, and stays in place. -/
theorem require_eq_ok {condition : Bool} {expected : Expectation} {value : Unit} :
    require condition expected stream = .ok value final ↔ condition = true ∧ stream = final := by
  unfold require
  cases condition <;> simp

/-- A piece that passes a test stands in front. -/
theorem pieceAt_zero_true {pieces : List Piece} {test : Piece → Bool}
    (h : pieceAt pieces 0 test = true) :
    ∃ piece rest, pieces = piece :: rest ∧ test piece = true := by
  cases pieces with
  | nil => simp at h
  | cons piece rest => exact ⟨piece, rest, rfl, by simpa using h⟩

theorem pieceAt_zero_imp {pieces : List Piece} {test other : Piece → Bool}
    (h : pieceAt pieces 0 test = true) (himp : ∀ piece, test piece = true → other piece = true) :
    pieceAt pieces 0 other = true := by
  obtain ⟨piece, rest, rfl, htest⟩ := pieceAt_zero_true h
  rw [pieceAt_zero]
  exact himp piece htest

theorem pieceAt_zero_stream {test : Piece → Bool} (h : pieceAt stream.pieces 0 test = true) :
    ∃ piece, stream.pieces = piece :: (stream.skip 1).pieces ∧ test piece = true := by
  obtain ⟨piece, rest, hpieces, htest⟩ := pieceAt_zero_true h
  exact ⟨piece, by rw [TokenStream.pieces_skip_one hpieces, hpieces], htest⟩

/-- Consumes one token if a test says so, and says whether it did. -/
def skipIf (view : TokenStream → Bool) : Grammar Bool :=
  look view >>= fun found => if found then skip 1 >>= fun _ => pure found else pure found

theorem skipIf_eq_ok {view : TokenStream → Bool} {found : Bool} :
    skipIf view stream = .ok found final ↔
      view stream = found ∧ final = if found then stream.skip 1 else stream := by
  unfold skipIf
  rw [Reader.bind_of_ok (look_eq_ok.2 ⟨rfl, rfl⟩)]
  cases hview : view stream with
  | false =>
    show EStateM.Result.ok false stream = _ ↔ _
    cases found <;> simp [eq_comm]
  | true =>
    show EStateM.Result.ok true (stream.skip 1) = _ ↔ _
    cases found <;> simp [eq_comm]

theorem takeSymbol_eq_ok {text : Text} {found : Bool} :
    takeSymbol text stream = .ok found final ↔
      stream.symbolAt 0 text = found ∧ final = if found then stream.skip 1 else stream :=
  skipIf_eq_ok

theorem takeWord_eq_ok {text : Text} {found : Bool} :
    takeWord text stream = .ok found final ↔
      stream.wordAt 0 text = found ∧ final = if found then stream.skip 1 else stream :=
  skipIf_eq_ok

theorem takeSymbol_true {text : Text} (h : takeSymbol text stream = .ok true final) :
    ∃ piece, stream.pieces = piece :: final.pieces ∧ piece.isSymbol text = true := by
  obtain ⟨hfound, rfl⟩ := takeSymbol_eq_ok.1 h
  rw [TokenStream.symbolAt_eq] at hfound
  exact pieceAt_zero_stream hfound

theorem takeSymbol_false {text : Text} (h : takeSymbol text stream = .ok false final) :
    final = stream ∧ pieceAt stream.pieces 0 (·.isSymbol text) = false := by
  obtain ⟨hfound, rfl⟩ := takeSymbol_eq_ok.1 h
  rw [TokenStream.symbolAt_eq] at hfound
  exact ⟨rfl, hfound⟩

theorem takeWord_true {text : Text} (h : takeWord text stream = .ok true final) :
    ∃ piece, stream.pieces = piece :: final.pieces ∧ piece.isWord text = true := by
  obtain ⟨hfound, rfl⟩ := takeWord_eq_ok.1 h
  rw [TokenStream.wordAt_eq] at hfound
  exact pieceAt_zero_stream hfound

theorem takeWord_false {text : Text} (h : takeWord text stream = .ok false final) :
    final = stream ∧ pieceAt stream.pieces 0 (·.isWord text) = false := by
  obtain ⟨hfound, rfl⟩ := takeWord_eq_ok.1 h
  rw [TokenStream.wordAt_eq] at hfound
  exact ⟨rfl, hfound⟩

theorem symbol_ok {text : Text} {value : Unit} (h : symbol text stream = .ok value final) :
    ∃ piece, stream.pieces = piece :: final.pieces ∧ piece.isSymbol text = true := by
  unfold symbol at h
  simp only [Reader.bind_eq_ok, require_eq_ok] at h
  obtain ⟨_, _, htake, rfl, rfl⟩ := h
  exact takeSymbol_true htake

/-- The next text is taken from the piece in front. -/
theorem takeText_ok {text : Text} {piece : Piece} {rest : List Piece}
    (h : takeText stream = .ok text final) (hpieces : stream.pieces = piece :: rest) :
    text = piece.text ∧ final.pieces = rest := by
  unfold takeText at h
  simp only [Reader.bind_eq_ok, look_eq_ok, skip_eq_ok, Reader.pure_run] at h
  obtain ⟨_, _, ⟨rfl, rfl⟩, -, _, rfl, h⟩ := h
  cases h
  rw [TokenStream.next?_eq, hpieces]
  exact ⟨rfl, TokenStream.pieces_skip_one hpieces⟩

theorem identifier_ok {name : Text} (h : identifier stream = .ok name final) :
    ∃ piece, stream.pieces = piece :: final.pieces ∧ piece.isIdentifier = true ∧
      piece.text = name := by
  unfold identifier at h
  simp only [Reader.bind_eq_ok, look_eq_ok, require_eq_ok] at h
  obtain ⟨_, _, ⟨rfl, rfl⟩, -, _, ⟨hfound, rfl⟩, htake⟩ := h
  rw [TokenStream.identifierAt_eq] at hfound
  obtain ⟨piece, rest, hpieces, hpiece⟩ := pieceAt_zero_true hfound
  obtain ⟨rfl, hfinal⟩ := takeText_ok htake hpieces
  exact ⟨piece, by rw [hpieces, hfinal], hpiece, rfl⟩

/-! ## What the rules read -/

variable {bound : Nat} {piece : Piece} {rest : List Piece}

/-- A fact about the pieces ahead, which consumes nothing. -/
theorem reads_look {view : TokenStream → α} {value : α}
    (h : ∀ stream : TokenStream, stream.pieces = rest → view stream = value) :
    Reads bound (look view) [] rest value := by
  intro stream _ hpieces
  exact look_eq_ok.2 ⟨h stream hpieces, rfl⟩

/-- A rule that first looks at the stream is what it becomes on the pieces ahead. -/
theorem reads_get {next : TokenStream → Grammar α} {rule : Grammar α} {taken : List Piece}
    {value : α} (h : ∀ stream : TokenStream, stream.pieces = taken ++ rest → next stream = rule)
    (hrule : Reads bound rule taken rest value) : Reads bound (get >>= next) taken rest value := by
  intro stream hbound hpieces
  rw [Reader.bind_of_ok (Reader.get_run stream), h stream hpieces]
  exact hrule stream hbound hpieces

theorem reads_atSymbol {text : Text} {found : Bool}
    (h : pieceAt rest 0 (·.isSymbol text) = found) :
    Reads bound (atSymbol text) [] rest found := by
  intro stream _ hpieces
  rw [List.nil_append] at hpieces
  exact atSymbol_eq_ok.2 ⟨by rw [hpieces, h], rfl⟩

theorem reads_skip {taken : List Piece} : Reads bound (skip taken.length) taken rest () := by
  intro stream _ _
  rfl

theorem reads_skipIf_true {view : TokenStream → Bool}
    (h : ∀ stream : TokenStream, stream.pieces = piece :: rest → view stream = true) :
    Reads bound (skipIf view) [piece] rest true := by
  intro stream _ hpieces
  exact skipIf_eq_ok.2 ⟨h stream hpieces, rfl⟩

theorem reads_skipIf_false {view : TokenStream → Bool}
    (h : ∀ stream : TokenStream, stream.pieces = rest → view stream = false) :
    Reads bound (skipIf view) [] rest false := by
  intro stream _ hpieces
  exact skipIf_eq_ok.2 ⟨h stream hpieces, rfl⟩

theorem reads_takeSymbol_true {text : Text} (h : piece.isSymbol text = true) :
    Reads bound (takeSymbol text) [piece] rest true := by
  apply reads_skipIf_true
  intro stream hpieces
  rw [TokenStream.symbolAt_eq, hpieces, pieceAt_zero, h]

theorem reads_takeSymbol_false {text : Text} (h : pieceAt rest 0 (·.isSymbol text) = false) :
    Reads bound (takeSymbol text) [] rest false := by
  apply reads_skipIf_false
  intro stream hpieces
  rw [TokenStream.symbolAt_eq, hpieces, h]

theorem reads_takeWord_true {text : Text} (h : piece.isWord text = true) :
    Reads bound (takeWord text) [piece] rest true := by
  apply reads_skipIf_true
  intro stream hpieces
  rw [TokenStream.wordAt_eq, hpieces, pieceAt_zero, h]

theorem reads_takeWord_false {text : Text} (h : pieceAt rest 0 (·.isWord text) = false) :
    Reads bound (takeWord text) [] rest false := by
  apply reads_skipIf_false
  intro stream hpieces
  rw [TokenStream.wordAt_eq, hpieces, h]

theorem reads_require {condition : Bool} {expected : Expectation} (h : condition = true) :
    Reads bound (require condition expected) [] rest () := by
  intro stream _ _
  exact require_eq_ok.2 ⟨h, rfl⟩

theorem reads_symbol {text : Text} (h : piece.isSymbol text = true) :
    Reads bound (symbol text) [piece] rest () :=
  (reads_takeSymbol_true h).bind (reads_require rfl)

/-- A symbol in front is consumed. -/
theorem symbol_run {text : Text} (h : piece.isSymbol text = true)
    (hpieces : stream.pieces = piece :: rest) :
    symbol text stream = .ok () (stream.skip 1) :=
  reads_symbol h stream (Nat.lt_succ_self _) hpieces

theorem reads_takeText : Reads bound takeText [piece] rest piece.text := by
  have hlook : Reads bound (look (·.next?.getD [])) [] ([piece] ++ rest) piece.text := by
    apply reads_look
    intro stream hpieces
    rw [TokenStream.next?_eq, hpieces]
    rfl
  have hskip : Reads bound (skip 1) [piece] rest () := reads_skip
  exact hlook.bind (hskip.map fun _ => piece.text)

theorem reads_identifier (h : piece.isIdentifier = true) :
    Reads bound identifier [piece] rest piece.text := by
  have hlook : Reads bound (look (·.identifierAt 0)) [] ([piece] ++ rest) true := by
    apply reads_look
    intro stream hpieces
    rw [TokenStream.identifierAt_eq, hpieces]
    simpa using h
  exact hlook.bind ((reads_require rfl).bind reads_takeText)

/-! ## Where the rules stop -/

theorem refuses_symbol {text : Text} (h : pieceAt rest 0 (·.isSymbol text) = false) :
    Refuses (symbol text) rest := by
  intro stream hpieces value final hrun
  obtain ⟨piece, hfirst, hpiece⟩ := symbol_ok hrun
  rw [← hpieces, hfirst] at h
  rw [pieceAt_zero, hpiece] at h
  exact absurd h (by decide)

end Grammar

end ApexLayout
