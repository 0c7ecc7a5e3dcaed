import ApexLayout.Proofs.Brace
import ApexLayout.Proofs.Replay.Header

/-!
Blocks and the statements that begin with a keyword.

A statement is printed with braces around its bodies, and these come back from print as `brace`
adds them. A statement ends by itself, unless the next word would continue it.
-/

namespace ApexLayout

namespace Grammar

variable {α : Type} {bound : Nat} {source rest : TokenStream}

/-! ## Which statement comes next -/

/-- The statements that begin with a keyword. -/
inductive Clause
  | ifElse
  | whileLoop
  | forLoop
  | tryCatch
  | returnValue
  | throwValue
  | breakLoop
  | continueLoop
deriving DecidableEq

namespace Clause

/-- All of them, in the order in which they are tried. -/
def all : List Clause :=
  [.ifElse, .whileLoop, .forLoop, .tryCatch, .returnValue, .throwValue, .breakLoop, .continueLoop]

theorem mem_all (clause : Clause) : clause ∈ all := by cases clause <;> decide

/-- The keyword of a statement. -/
def word : Clause → Text
  | .ifElse => "if"
  | .whileLoop => "while"
  | .forLoop => "for"
  | .tryCatch => "try"
  | .returnValue => "return"
  | .throwValue => "throw"
  | .breakLoop => "break"
  | .continueLoop => "continue"

/-- The rest of a statement, behind its keyword. -/
def rule (statement : Grammar Statement) : Clause → Grammar Statement
  | .ifElse => Grammar.ifElse statement
  | .whileLoop => Grammar.whileLoop statement
  | .forLoop => Grammar.forLoop statement
  | .tryCatch => Grammar.tryCatch statement
  | .returnValue => expressionUnless ";" >>= fun value => ended (.returnValue value)
  | .throwValue => expression >>= fun value => ended (.throwValue value)
  | .breakLoop => ended .breakLoop
  | .continueLoop => ended .continueLoop

theorem word_printed (clause : Clause) : clause.word ∈ Vocabulary.printed := by
  cases clause <;> decide

/-- No two statements begin with the same keyword. -/
theorem word_injective (first second : Clause) (h : Text.lower first.word = Text.lower second.word) :
    first = second := by
  cases first <;> cases second <;> first | rfl | exact absurd h (by decide)

end Clause

/-- A statement that begins with no keyword. -/
def plainStatement : Grammar Statement := do
  if ← look dmlAhead then dml else simpleStatement

/-- The statement whose keyword comes next, or else a plain one. -/
def firstClause (statement : Grammar Statement) : List Clause → Grammar Statement
  | [] => plainStatement
  | clause :: rest =>
    takeWord clause.word >>= fun found =>
      if found then clause.rule statement else firstClause statement rest

/-- Whether a piece begins neither a block nor a statement with a keyword. -/
def Plain (pieces : List Piece) : Prop :=
  pieceAt pieces 0 (·.isSymbol "\x7b") = false ∧
    pieceAt pieces 0 (·.isWordIn (Clause.all.map Clause.word)) = false

section

variable {stream : TokenStream} {text : Text} {yes no : Grammar α}

theorem takeWord_else (h : pieceAt stream.pieces 0 (·.isWord text) = false) :
    (takeWord text >>= fun found => if found then yes else no) stream = no stream := by
  rw [← TokenStream.wordAt_eq] at h
  rw [Reader.bind_of_ok (takeWord_eq_ok.2 ⟨h, rfl⟩)]
  rfl

theorem takeWord_then (h : pieceAt stream.pieces 0 (·.isWord text) = true) :
    (takeWord text >>= fun found => if found then yes else no) stream = yes (stream.skip 1) := by
  rw [← TokenStream.wordAt_eq] at h
  rw [Reader.bind_of_ok (takeWord_eq_ok.2 ⟨h, rfl⟩)]
  rfl

theorem atSymbol_else (h : pieceAt stream.pieces 0 (·.isSymbol text) = false) :
    (atSymbol text >>= fun found => if found then yes else no) stream = no stream := by
  rw [Reader.bind_of_ok (atSymbol_eq_ok.2 ⟨h, rfl⟩)]
  rfl

theorem atSymbol_then (h : pieceAt stream.pieces 0 (·.isSymbol text) = true) :
    (atSymbol text >>= fun found => if found then yes else no) stream = yes stream := by
  rw [Reader.bind_of_ok (atSymbol_eq_ok.2 ⟨h, rfl⟩)]
  rfl

end

/-- A piece is at most one word. -/
theorem isWord_apart {pieces : List Piece} {first second : Text}
    (h : pieceAt pieces 0 (·.isWord first) = true) (hne : Text.lower first ≠ Text.lower second) :
    pieceAt pieces 0 (·.isWord second) = false := by
  obtain ⟨piece, others, rfl, hpiece⟩ := pieceAt_zero_true h
  rw [pieceAt_zero, ← Bool.not_eq_true]
  intro hsecond
  exact hne ((Piece.isWord_iff.1 hpiece).2.symm.trans (Piece.isWord_iff.1 hsecond).2)

theorem isSymbol_apart {pieces : List Piece} {word symbol : Text}
    (h : pieceAt pieces 0 (·.isWord word) = true) :
    pieceAt pieces 0 (·.isSymbol symbol) = false := by
  obtain ⟨piece, others, rfl, hpiece⟩ := pieceAt_zero_true h
  rw [pieceAt_zero]
  exact Piece.isSymbol_of_word (Piece.isWord_iff.1 hpiece).1 symbol

variable {inner inner' : Grammar Statement}

theorem statementRule_eq : statementRule inner = (atSymbol "\x7b" >>= fun found =>
    if found then blockOf inner >>= fun body => pure (.block body)
    else firstClause inner Clause.all) := rfl

theorem firstClause_of_mem {stream : TokenStream} {clause : Clause} {clauses : List Clause}
    (hmem : clause ∈ clauses) (h : pieceAt stream.pieces 0 (·.isWord clause.word) = true) :
    firstClause inner clauses stream = clause.rule inner (stream.skip 1) := by
  induction clauses with
  | nil => simp at hmem
  | cons first rest ih =>
    by_cases hfirst : first = clause
    · rw [hfirst]
      exact takeWord_then h
    · have hapart : pieceAt stream.pieces 0 (·.isWord first.word) = false :=
        isWord_apart h fun hsame => hfirst (Clause.word_injective _ _ hsame).symm
      refine (takeWord_else hapart).trans (ih ?_)
      exact (List.mem_cons.1 hmem).resolve_left fun hsame => hfirst hsame.symm

theorem firstClause_plain {stream : TokenStream} {clauses : List Clause}
    (h : pieceAt stream.pieces 0 (·.isWordIn (clauses.map Clause.word)) = false) :
    firstClause inner clauses stream = plainStatement stream := by
  induction clauses with
  | nil => rfl
  | cons first rest ih =>
    have hboth : pieceAt stream.pieces 0 (·.isWord first.word) = false ∧
        pieceAt stream.pieces 0 (·.isWordIn (rest.map Clause.word)) = false := by
      cases hpieces : stream.pieces with
      | nil => exact ⟨rfl, rfl⟩
      | cons piece others =>
        rw [hpieces] at h
        exact Bool.or_eq_false_iff.1 h
    exact (takeWord_else hboth.1).trans (ih hboth.2)

/-- A keyword decides what is read. -/
theorem statementRule_clause {stream : TokenStream} (clause : Clause)
    (h : pieceAt stream.pieces 0 (·.isWord clause.word) = true) :
    statementRule inner stream = clause.rule inner (stream.skip 1) := by
  rw [statementRule_eq]
  exact (atSymbol_else (isSymbol_apart h)).trans (firstClause_of_mem clause.mem_all h)

/-- Without a brace or a keyword the statement is a plain one. -/
theorem statementRule_plain {stream : TokenStream} (h : Plain stream.pieces) :
    statementRule inner stream = plainStatement stream := by
  rw [statementRule_eq]
  exact (atSymbol_else h.1).trans (firstClause_plain h.2)

theorem statementRule_block {stream : TokenStream}
    (h : pieceAt stream.pieces 0 (·.isSymbol "\x7b") = true) :
    statementRule inner stream = (blockOf inner >>= fun body => pure (.block body)) stream := by
  rw [statementRule_eq]
  exact atSymbol_then h

/-- The three kinds of statements by their first token. -/
theorem statement_kinds (pieces : List Piece) :
    pieceAt pieces 0 (·.isSymbol "\x7b") = true ∨
      (∃ clause : Clause, pieceAt pieces 0 (·.isWord clause.word) = true) ∨ Plain pieces := by
  cases hbrace : pieceAt pieces 0 (·.isSymbol "\x7b") with
  | true => exact .inl rfl
  | false =>
    right
    cases hwords : pieceAt pieces 0 (·.isWordIn (Clause.all.map Clause.word)) with
    | false => exact .inr ⟨hbrace, hwords⟩
    | true =>
      obtain ⟨piece, others, rfl, hpiece⟩ := pieceAt_zero_true hwords
      obtain ⟨word, hmem, hword⟩ := List.any_eq_true.1 hpiece
      obtain ⟨clause, -, rfl⟩ := List.mem_map.1 hmem
      exact .inl ⟨clause, by rw [pieceAt_zero, hword]⟩

/-! ## What ends a statement -/

/-- The words that continue a statement. -/
def continuingWords : List Text := ["else", "catch", "finally"].map String.toList

/-- The next word does not continue a statement. -/
def Ends (f : List Piece) : Prop := pieceAt f 0 (·.isWordIn continuingWords) = false

theorem isWord_of_ends {f : List Piece} {word : Text} (h : Ends f) (hmem : word ∈ continuingWords) :
    pieceAt f 0 (·.isWord word) = false := by
  cases f with
  | nil => rfl
  | cons piece others =>
    unfold Ends at h
    rw [pieceAt_zero] at h ⊢
    unfold Piece.isWordIn at h
    rw [List.any_eq_false] at h
    simpa using h word hmem

theorem Ends.takeWord {f : List Piece} {word : Text} (h : Ends f) (hmem : word ∈ continuingWords) :
    Reads bound (takeWord word) [] f false :=
  reads_takeWord_false (isWord_of_ends h hmem)

theorem ends_symbol {piece : Piece} {f : List Piece} (h : piece.kind = .symbol) :
    Ends (piece :: f) := by
  unfold Ends Piece.isWordIn
  rw [pieceAt_zero, List.any_eq_false]
  intro word _
  rw [Piece.isWord_of_symbol h]
  decide

/-- Whether a piece may begin a statement inside a block. -/
def startsStatement (piece : Piece) : Bool :=
  !piece.isSymbol "\x7d" && !piece.isWordIn continuingWords

/-- The printed form begins with a piece that may begin a statement. -/
def Starts (pieces : List Piece) : Prop :=
  ∃ piece others, pieces = piece :: others ∧ startsStatement piece = true

/-- A statement of the source is read back with its braces. -/
structure PlaysStatement (source rest : List Piece) (value : Statement) : Prop where
  plays : ∀ bound, Plays false true (fun f => value.isBlock = true ∨ Ends f) bound statement source
    rest value.parts value.brace
  starts : Sound source value.parts → Rereads value.parts → Starts (spell value.parts)

/-! ## Blocks -/

/-- Whether a block goes on. -/
def continues : Grammar Bool := look fun stream =>
  !(stream.tokens.isEmpty || stream.symbolAt 0 "\x7d")

theorem continues_ok {found : Bool} (h : continues source = .ok found rest) : rest = source :=
  (look_eq_ok.1 h).2.symm

theorem reads_continues_true {pieces f : List Piece} (h : Starts pieces) :
    Reads bound continues [] (pieces ++ f) true := by
  apply reads_look
  intro stream hpieces
  obtain ⟨piece, others, rfl, hpiece⟩ := h
  unfold startsStatement at hpiece
  rw [Bool.and_eq_true, Bool.not_eq_true'] at hpiece
  rw [TokenStream.tokens_isEmpty_eq, TokenStream.symbolAt_eq, hpieces, List.cons_append,
    pieceAt_zero, hpiece.1]
  rfl

theorem reads_continues_false {piece : Piece} {f : List Piece}
    (h : piece.isSymbol "\x7d" = true) : Reads bound continues [] (piece :: f) false := by
  apply reads_look
  intro stream hpieces
  rw [TokenStream.tokens_isEmpty_eq, TokenStream.symbolAt_eq, hpieces, pieceAt_zero, h, Bool.or_true]
  rfl

section

variable
  (hplays : ∀ source value rest, inner source = .ok value rest →
    Plays false true (fun f => value.isBlock = true ∨ Ends f) bound inner' source.pieces rest.pieces
      value.parts value.brace)
  (hstarts : ∀ source value rest, inner source = .ok value rest →
    Sound source.pieces value.parts → Rereads value.parts → Starts (spell value.parts))

include hplays hstarts

theorem plays_statements {body : List Statement}
    (h : Reader.many (Reader.optional continues inner) source = .ok body rest) (asks : Bool) :
    Plays asks asks (fun f => pieceAt f 0 (·.isSymbol "\x7d") = true) bound
      (Reader.many (Reader.optional continues inner')) source.pieces rest.pieces
      (body.flatMap Statement.parts) (body.map Statement.brace) := by
  have hsome : ∀ source value rest, Reader.optional continues inner source = .ok (some value) rest →
      Plays false true Ends bound (Reader.optional continues inner') source.pieces rest.pieces
        value.parts (some value.brace) := by
    intro source value rest hround
    obtain ⟨middle, htest, hvalue⟩ := Reader.optional_eq_some.1 hround
    obtain rfl := continues_ok htest
    refine Plays.bind_test true (fun hsound hrereads f _ => ?_) ?_
    · exact reads_continues_true (hstarts _ _ _ hvalue hsound hrereads)
    · exact ((hplays _ _ _ hvalue).mono fun f hf => .inr hf).map some
  -- the first piece of a statement ends the one in front, which is what the rounds need
  have hbegins : ∀ source value rest,
      Reader.optional continues inner source = .ok (some value) rest →
      Sound source.pieces value.parts → Rereads value.parts → Begins Ends value.parts := by
    intro source value rest hround hsound hrereads
    obtain ⟨middle, htest, hvalue⟩ := Reader.optional_eq_some.1 hround
    obtain rfl := continues_ok htest
    obtain ⟨piece, others, hspell, hpiece⟩ := hstarts _ _ _ hvalue hsound hrereads
    unfold startsStatement at hpiece
    rw [Bool.and_eq_true, Bool.not_eq_true', Bool.not_eq_true'] at hpiece
    exact ⟨piece, others, hspell, fun f => hpiece.2⟩
  have hmany := plays_many hsome hbegins
    (fun source rest hround => continues_ok (Reader.optional_eq_none.1 hround)) h asks
  refine hmany.mono fun f hf => ?_
  obtain ⟨piece, others, rfl, hpiece⟩ := pieceAt_zero_true hf
  exact ⟨ends_symbol (Piece.isSymbol_iff.1 hpiece).1,
    Reads.optional_none (reads_continues_false hpiece)⟩

/-- A block is read back from its braces. -/
theorem plays_blockOf {body : Block} (h : blockOf inner source = .ok body rest) :
    PlaysAlone (bound + 1) (blockOf inner') source.pieces rest.pieces
      (blockParts (body.map Statement.parts)) (body.map Statement.brace) := by
  unfold blockOf at h
  obtain ⟨_, opened, hopen, h⟩ := Reader.bind_eq_ok.1 h
  obtain ⟨items, middle, hitems, h⟩ := Reader.bind_eq_ok.1 h
  obtain ⟨_, closed, hclose, h⟩ := Reader.bind_eq_ok.1 h
  cases h
  have hclosing : PlaysAlone bound (symbol "\x7d" >>= fun _ => pure (body.map Statement.brace))
      middle.pieces rest.pieces [.symbol "\x7d"] (body.map Statement.brace) :=
    (playsAlone_symbol hclose (by decide)).map fun _ => body.map Statement.brace
  unfold blockParts
  rw [← List.flatMap_def]
  refine Plays.bind_less (playsAlone_symbol hopen (by decide)) ?_
  exact Plays.bind (plays_statements hplays hstarts hitems true) hclosing fun _ _ _ _ => rfl

end

/-- A single statement between braces. -/
theorem reads_blockOf_one {pieces f : List Piece} {value : Statement} (hstarts : Starts pieces)
    (hreads : ∀ f, Ends f → Reads bound inner' pieces f value) :
    Reads (bound + 1) (blockOf inner') (.symbol "\x7b" :: (pieces ++ [.symbol "\x7d"])) f
      [value] := by
  obtain ⟨piece, others, rfl, hpiece⟩ := hstarts
  have hitem : Reads bound (Reader.optional continues inner') (piece :: others)
      (.symbol "\x7d" :: f) (some value) :=
    Reads.optional_some (reads_continues_true ⟨piece, others, rfl, hpiece⟩)
      (hreads _ (ends_symbol rfl))
  have hitem' : Reads bound (Reader.optional continues inner') (piece :: others)
      ([] ++ (.symbol "\x7d" :: f)) (some value) := hitem
  have hend : Reads bound (Reader.many (Reader.optional continues inner')) []
      (.symbol "\x7d" :: f) [] :=
    Reads.many_nil (Reads.optional_none (reads_continues_false rfl))
  have hmany : Reads bound (Reader.many (Reader.optional continues inner')) (piece :: others ++ [])
      ([.symbol "\x7d"] ++ f) [value] := Reads.many_cons hitem' hend
  rw [List.append_nil] at hmany
  have hopen : Reads (bound + 1) (symbol "\x7b") [.symbol "\x7b"]
      ((piece :: others ++ [.symbol "\x7d"]) ++ f) () := reads_symbol rfl
  have hclose : Reads bound (symbol "\x7d") [.symbol "\x7d"] f () := reads_symbol rfl
  exact hopen.bind_less (hmany.bind (hclose.map fun _ => [value]))

/-- A body is read back, with the braces that printing puts around it. -/
theorem plays_body {source rest : List Piece} {value : Statement}
    (h : PlaysStatement source rest value) (bare : Bool) (bound : Nat) :
    Plays false false (fun f => bare = false ∨ value.isBlock = true ∨ Ends f) bound statement source
      rest (bodyParts bare value.parts) (.wrap bare value.brace) := by
  cases bare with
  | true =>
    exact ((h.plays bound).relax (fun h => h) (by simp)).mono fun f hf =>
      hf.resolve_left (by decide)
  | false =>
    -- around a bare body printing puts braces, and it is read back as a block of one statement
    intro hsound
    have hparts : bodyParts false value.parts = blockParts [value.parts] := rfl
    have hmem : ∀ part ∈ value.parts, part ∈ blockParts [value.parts] := by
      intro part hpart
      simp [blockParts, hpart]
    rw [hparts] at hsound ⊢
    have hsound' : Sound source value.parts :=
      ⟨hsound.regular, fun hquery => hsound.query (hmem _ hquery)⟩
    refine ⟨.braces (h.plays bound hsound').1, fun hrereads f _ => ?_⟩
    have hrereads' : Rereads value.parts := fun m hm => hrereads m (hmem _ hm)
    have hspell : spell (blockParts [value.parts]) =
        .symbol "\x7b" :: (spell value.parts ++ [.symbol "\x7d"]) := by
      simp [blockParts, Part.symbol, Part.pieces]
    rw [hspell]
    refine Reads.recursive (fun bound => ?_) bound
    have hblock : Reads (bound + 1) (blockOf (Reader.below bound statement))
        (.symbol "\x7b" :: (spell value.parts ++ [.symbol "\x7d"])) f [value.brace] :=
      reads_blockOf_one (h.starts hsound' hrereads') fun f hf =>
        Reads.below fun bound => (h.plays bound hsound').2 hrereads' f (.inr hf)
    intro stream hbound hpieces
    rw [statementRule_block (by rw [hpieces]; rfl)]
    exact (hblock.map Statement.block) stream hbound hpieces

/-- A body that is a block or gets braces ends by itself. -/
theorem plays_closedBody {source rest : List Piece} {value : Statement}
    (h : PlaysStatement source rest value) (bound : Nat) :
    Plays false false Anywhere bound statement source rest (bodyParts value.isBlock value.parts)
      (.wrap value.isBlock value.brace) :=
  (plays_body h value.isBlock bound).mono fun f _ => by
    cases hblock : value.isBlock with
    | true => exact .inr (.inl rfl)
    | false => exact .inl rfl

/-! ## Statements with a keyword -/

/-- The rest of a statement with a keyword is read back. -/
structure PlaysClause (clause : Clause) (bound : Nat) (source rest : List Piece)
    (value : Statement) : Prop where
  plays : ∃ parts, value.parts = .word clause.word :: parts ∧
    Plays false true Ends bound (clause.rule (Reader.below bound statement)) source rest parts
      value.brace
  isBlock : value.isBlock = false

theorem inParentheses_append (parts more : List Part) :
    .symbol "(" :: (parts ++ .symbol ")" :: more) =
      (.symbol "(" :: (parts ++ [.symbol ")"])) ++ more := by
  simp

section

variable
  (hinner : ∀ source value rest, inner source = .ok value rest →
    PlaysStatement source.pieces rest.pieces value)

include hinner

theorem plays_inner {value : Statement} (h : inner source = .ok value rest) :
    Plays false true (fun f => value.isBlock = true ∨ Ends f) bound (Reader.below bound statement)
      source.pieces rest.pieces value.parts value.brace :=
  Plays.below (hinner _ _ _ h).plays

theorem plays_innerBody {value : Statement} (h : inner source = .ok value rest) :
    Plays false false Anywhere bound (Reader.below bound statement) source.pieces rest.pieces
      (bodyParts value.isBlock value.parts) (.wrap value.isBlock value.brace) :=
  Plays.below (plays_closedBody (hinner _ _ _ h))

theorem plays_innerBlock {body : Block} (h : blockOf inner source = .ok body rest) :
    PlaysAlone bound (blockOf (Reader.below bound statement)) source.pieces rest.pieces
      (blockParts (body.map Statement.parts)) (body.map Statement.brace) :=
  (plays_blockOf (fun _ _ _ => plays_inner hinner) (fun _ _ _ h => (hinner _ _ _ h).starts)
    h).mono_bound (Nat.le_succ bound)

theorem plays_elseBranch {value : Option Statement}
    (h : Reader.optional (takeWord "else") inner source = .ok value rest) :
    Plays false false Ends bound (Reader.optional (takeWord "else") (Reader.below bound statement))
      source.pieces rest.pieces
      (value.elim [] fun branch => .word "else" ::
        bodyParts (branch.isBlock || branch.isIf) branch.parts)
      (value.map fun branch => .wrap (branch.isBlock || branch.isIf) branch.brace) := by
  cases value with
  | none =>
    obtain ⟨rfl, -⟩ := takeWord_false (Reader.optional_eq_none.1 h)
    exact (plays_absent false).mono fun f hf => hf.takeWord (by decide)
  | some branch =>
    obtain ⟨behind, helse, hbranch⟩ := Reader.optional_eq_some.1 h
    have hbody : Plays false false Ends bound (Reader.below bound statement) behind.pieces
        rest.pieces (bodyParts (branch.isBlock || branch.isIf) branch.parts)
        (.wrap (branch.isBlock || branch.isIf) branch.brace) :=
      Plays.below fun bound => (plays_body (hinner _ _ _ hbranch) _ bound).mono fun f hf =>
        .inr (.inr hf)
    have hword : PlaysAlone bound (takeWord "else") source.pieces behind.pieces [.word "else"] true :=
      playsAlone_takeWord helse (by decide)
    exact (hword.bind_loose (hbody.map some) fun _ _ _ _ => trivial).relax (fun h => h) (by simp)

theorem plays_ifElse {value : Statement} (h : ifElse inner source = .ok value rest) :
    PlaysClause .ifElse bound source.pieces rest.pieces value := by
  unfold ifElse at h
  obtain ⟨condition, opened, hcondition, h⟩ := Reader.bind_eq_ok.1 h
  obtain ⟨thenBranch, middle, hthen, h⟩ := Reader.bind_eq_ok.1 h
  obtain ⟨elseBranch, last, helse, h⟩ := Reader.bind_eq_ok.1 h
  cases h
  have hparts : Statement.parts (.ifElse condition thenBranch elseBranch) = .word "if" ::
      .symbol "(" :: (condition.parts ++ .symbol ")" ::
        (bodyParts thenBranch.isBlock thenBranch.parts ++ elseBranch.elim [] fun branch =>
          .word "else" :: bodyParts (branch.isBlock || branch.isIf) branch.parts)) := by
    cases elseBranch with
    | none => rw [Statement.parts, Option.elim_none, List.append_nil]
    | some branch => rw [Statement.parts, Option.elim_some]
  have hbrace : Statement.brace (.ifElse condition thenBranch elseBranch) =
      .ifElse condition (.wrap thenBranch.isBlock thenBranch.brace)
        (elseBranch.map fun branch => .wrap (branch.isBlock || branch.isIf) branch.brace) := by
    cases elseBranch with
    | none => rw [Statement.brace, Option.map_none]
    | some branch => rw [Statement.brace, Option.map_some]
  refine ⟨⟨_, hparts, ?_⟩, rfl⟩
  rw [hbrace, inParentheses_append]
  refine Plays.bind_loose (plays_inParentheses hcondition) ?_ fun _ _ _ _ => trivial
  refine Plays.bind_loose (plays_innerBody hinner hthen) ?_ fun _ _ _ _ => trivial
  exact (plays_elseBranch hinner helse).map fun branch => Statement.ifElse condition _ branch

theorem plays_whileLoop {value : Statement} (h : whileLoop inner source = .ok value rest) :
    PlaysClause .whileLoop bound source.pieces rest.pieces value := by
  unfold whileLoop at h
  obtain ⟨condition, opened, hcondition, h⟩ := Reader.bind_eq_ok.1 h
  obtain ⟨body, last, hbody, h⟩ := Reader.bind_eq_ok.1 h
  cases h
  refine ⟨⟨_, rfl, ?_⟩, rfl⟩
  rw [Statement.brace, inParentheses_append]
  refine Plays.bind_loose (plays_inParentheses hcondition) ?_ fun _ _ _ _ => trivial
  exact ((plays_innerBody hinner hbody).map (Statement.whileLoop condition)).mono
    fun _ _ => trivial

theorem plays_forLoop {value : Statement} (h : forLoop inner source = .ok value rest) :
    PlaysClause .forLoop bound source.pieces rest.pieces value := by
  unfold forLoop at h
  obtain ⟨_, opened, hopen, h⟩ := Reader.bind_eq_ok.1 h
  obtain ⟨control, middle, hcontrol, h⟩ := Reader.bind_eq_ok.1 h
  obtain ⟨_, closed, hclose, h⟩ := Reader.bind_eq_ok.1 h
  obtain ⟨body, last, hbody, h⟩ := Reader.bind_eq_ok.1 h
  cases h
  refine ⟨⟨_, rfl, ?_⟩, rfl⟩
  rw [Statement.brace]
  refine Plays.bind_anywhere (playsAlone_symbol hopen (by decide)) ?_
  refine Plays.bind_symbol (plays_forControl hcontrol) (symbol_ahead hclose) ?_
  refine Plays.bind_loose (playsAlone_symbol hclose (by decide)) ?_ fun _ _ _ _ => trivial
  exact ((plays_innerBody hinner hbody).map (Statement.forLoop control)).mono fun _ _ => trivial

theorem plays_catchClause {value : CatchClause} (h : catchClause inner source = .ok value rest) :
    ∃ parts, value.parts = .word "catch" :: parts ∧
      PlaysAlone bound (catchClause (Reader.below bound statement)) source.pieces rest.pieces parts
        value.brace := by
  unfold catchClause at h
  obtain ⟨_, opened, hopen, h⟩ := Reader.bind_eq_ok.1 h
  obtain ⟨values, behind, hmodifiers, h⟩ := Reader.bind_eq_ok.1 h
  obtain ⟨type, middle, htype, h⟩ := Reader.bind_eq_ok.1 h
  obtain ⟨name, last, hname, h⟩ := Reader.bind_eq_ok.1 h
  obtain ⟨_, closed, hclose, h⟩ := Reader.bind_eq_ok.1 h
  obtain ⟨body, final, hbody, h⟩ := Reader.bind_eq_ok.1 h
  cases h
  refine ⟨_, CatchClause.parts.eq_def _, ?_⟩
  simp only [Statement.partsAll_eq_map]
  refine Plays.bind_anywhere (playsAlone_symbol hopen (by decide)) ?_
  refine Plays.bind (plays_modifiers hmodifiers true) ?_
    fun _ _ f _ => led_typed (modifiers_end hmodifiers) htype hname f
  refine Plays.bind (plays_typeRef htype) ?_ fun _ _ _ _ => rfl
  refine Plays.bind_anywhere (playsAlone_identifier hname) ?_
  refine Plays.bind_anywhere (playsAlone_symbol hclose (by decide)) ?_
  exact (plays_innerBlock hinner hbody).map (CatchClause.mk values type name)

theorem plays_catches {values : List CatchClause}
    (h : Reader.many (Reader.optional (takeWord "catch") (catchClause inner)) source =
      .ok values rest) :
    Plays false false (fun f => pieceAt f 0 (·.isWord "catch") = false) bound
      (Reader.many (Reader.optional (takeWord "catch") (catchClause (Reader.below bound statement))))
      source.pieces rest.pieces (values.flatMap CatchClause.parts)
      (values.map CatchClause.brace) := by
  have hsome : ∀ source value rest,
      Reader.optional (takeWord "catch") (catchClause inner) source = .ok (some value) rest →
      Plays false true Anywhere bound
        (Reader.optional (takeWord "catch") (catchClause (Reader.below bound statement)))
        source.pieces rest.pieces value.parts (some value.brace) := by
    intro source value rest hround
    obtain ⟨behind, hcatch, hvalue⟩ := Reader.optional_eq_some.1 hround
    obtain ⟨parts, hparts, hplays⟩ := plays_catchClause hinner hvalue
    rw [hparts]
    exact Plays.bind_anywhere (playsAlone_takeWord hcatch (by decide)) (hplays.map some)
  -- a clause begins with its keyword, wherever it stands
  have hbegins : ∀ source value rest,
      Reader.optional (takeWord "catch") (catchClause inner) source = .ok (some value) rest →
      Sound source.pieces value.parts → Rereads value.parts → Begins Anywhere value.parts := by
    intro source value rest hround _ _
    obtain ⟨behind, hcatch, hvalue⟩ := Reader.optional_eq_some.1 hround
    have hclause : ∃ parts, _ ∧ PlaysAlone 0 _ _ _ parts _ := plays_catchClause hinner hvalue
    obtain ⟨parts, hparts, -⟩ := hclause
    rw [hparts]
    exact ⟨_, _, rfl, fun _ => trivial⟩
  have hmany := plays_many hsome hbegins
    (fun source rest hround => (takeWord_false (Reader.optional_eq_none.1 hround)).1) h false
  exact hmany.mono fun f hf => ⟨trivial, (reads_takeWord_false hf).optional_none⟩

theorem plays_cleanup {value : Option Block}
    (h : Reader.optional (takeWord "finally") (blockOf inner) source = .ok value rest) :
    Plays false false Ends bound
      (Reader.optional (takeWord "finally") (blockOf (Reader.below bound statement))) source.pieces
      rest.pieces
      (value.elim [] fun body => .word "finally" :: blockParts (body.map Statement.parts))
      (value.map (List.map Statement.brace)) := by
  cases value with
  | none =>
    obtain ⟨rfl, -⟩ := takeWord_false (Reader.optional_eq_none.1 h)
    exact (plays_absent false).mono fun f hf => hf.takeWord (by decide)
  | some body =>
    obtain ⟨behind, hfinally, hbody⟩ := Reader.optional_eq_some.1 h
    have hword : PlaysAlone bound (takeWord "finally") source.pieces behind.pieces
        [.word "finally"] true := playsAlone_takeWord hfinally (by decide)
    have hplays : PlaysAlone bound
        (Reader.optional (takeWord "finally") (blockOf (Reader.below bound statement)))
        source.pieces rest.pieces (.word "finally" :: blockParts (body.map Statement.parts))
        (some (body.map Statement.brace)) :=
      Plays.bind_anywhere hword ((plays_innerBlock hinner hbody).map some)
    exact (hplays.relax (fun h => h) (by simp)).mono fun _ _ => trivial

theorem plays_tryCatch {value : Statement} (h : tryCatch inner source = .ok value rest) :
    PlaysClause .tryCatch bound source.pieces rest.pieces value := by
  unfold tryCatch at h
  obtain ⟨body, middle, hbody, h⟩ := Reader.bind_eq_ok.1 h
  obtain ⟨catches, behind, hcatches, h⟩ := Reader.bind_eq_ok.1 h
  obtain ⟨cleanup, last, hcleanup, h⟩ := Reader.bind_eq_ok.1 h
  obtain ⟨_, final, hrequire, h⟩ := Reader.bind_eq_ok.1 h
  cases h
  obtain ⟨hhandler, rfl⟩ := require_eq_ok.1 hrequire
  -- one form for both, with nothing in place of the last block
  have hparts : Statement.parts (.tryCatch body catches cleanup) = .word "try" ::
      (blockParts (body.map Statement.parts) ++ (catches.flatMap CatchClause.parts ++
        cleanup.elim [] fun body => .word "finally" :: blockParts (body.map Statement.parts))) := by
    cases cleanup with
    | none =>
      rw [Statement.parts, Statement.partsAll_eq_map, CatchClause.partsAll_eq_flatMap,
        Option.elim_none, List.append_nil]
    | some last =>
      rw [Statement.parts, Statement.partsAll_eq_map, Statement.partsAll_eq_map,
        CatchClause.partsAll_eq_flatMap, Option.elim_some]
  have hbrace : Statement.brace (.tryCatch body catches cleanup) =
      .tryCatch (body.map Statement.brace) (catches.map CatchClause.brace)
        (cleanup.map (List.map Statement.brace)) := by
    cases cleanup with
    | none => rw [Statement.brace, Statement.braceAll_eq_map, CatchClause.braceAll_eq_map]; rfl
    | some last =>
      rw [Statement.brace, Statement.braceAll_eq_map, Statement.braceAll_eq_map,
        CatchClause.braceAll_eq_map]
      rfl
  refine ⟨⟨_, hparts, ?_⟩, rfl⟩
  rw [hbrace]
  refine Plays.bind_loose (plays_innerBlock hinner hbody) ?_ fun _ _ _ _ => trivial
  refine Plays.bind_loose (plays_catches hinner hcatches) ?_ fun _ _ f hf => ?_
  · refine (plays_cleanup hinner hcleanup).bind_pure ?_
    have hcondition : (!(catches.map CatchClause.brace).isEmpty ||
        (cleanup.map (List.map Statement.brace)).isSome) = true := by
      rw [List.isEmpty_map, Option.isSome_map]
      exact hhandler
    rw [hcondition]
    rfl
  · cases cleanup with
    | none => exact isWord_of_ends hf (by decide)
    | some last => rfl

end

theorem ended_ok {value final : Statement} (h : ended value source = .ok final rest) :
    final = value ∧ symbol ";" source = .ok () rest := by
  unfold ended at h
  obtain ⟨_, last, hend, h⟩ := Reader.bind_eq_ok.1 h
  cases h
  exact ⟨rfl, hend⟩

theorem plays_ended {value : Statement} (h : symbol ";" source = .ok () rest) :
    PlaysAlone bound (ended value) source.pieces rest.pieces [.symbol ";"] value :=
  (playsAlone_symbol h (by decide)).map fun _ => value

theorem plays_clause (clause : Clause)
    (hinner : ∀ source value rest, inner source = .ok value rest →
      PlaysStatement source.pieces rest.pieces value)
    {value : Statement} (h : clause.rule inner source = .ok value rest) :
    PlaysClause clause bound source.pieces rest.pieces value := by
  cases clause with
  | ifElse => exact plays_ifElse hinner h
  | whileLoop => exact plays_whileLoop hinner h
  | forLoop => exact plays_forLoop hinner h
  | tryCatch => exact plays_tryCatch hinner h
  | returnValue =>
    obtain ⟨result, middle, hresult, h⟩ := Reader.bind_eq_ok.1 h
    obtain ⟨rfl, hend⟩ := ended_ok h
    have hparts : Statement.parts (.returnValue result) = .word "return" ::
        (result.elim [] Expression.parts ++ [.symbol ";"]) := by
      cases result <;> rw [Statement.parts] <;> rfl
    refine ⟨⟨_, hparts, ?_⟩, rfl⟩
    rw [Statement.brace]
    refine Plays.bind_symbol (replay_unless
      (fun _ _ _ hitem => replay_expression _ _ _ hitem bound) hresult).plays (symbol_ahead hend) ?_
    exact (plays_ended hend).mono fun _ _ => trivial
  | throwValue =>
    obtain ⟨result, middle, hresult, h⟩ := Reader.bind_eq_ok.1 h
    obtain ⟨rfl, hend⟩ := ended_ok h
    refine ⟨⟨_, rfl, ?_⟩, rfl⟩
    rw [Statement.brace]
    refine Plays.bind_symbol (replay_expression _ _ _ hresult bound).plays (symbol_ahead hend) ?_
    exact (plays_ended hend).mono fun _ _ => trivial
  | breakLoop =>
    obtain ⟨rfl, hend⟩ := ended_ok h
    refine ⟨⟨_, rfl, ?_⟩, rfl⟩
    rw [Statement.brace]
    exact (plays_ended hend).mono fun _ _ => trivial
  | continueLoop =>
    obtain ⟨rfl, hend⟩ := ended_ok h
    refine ⟨⟨_, rfl, ?_⟩, rfl⟩
    rw [Statement.brace]
    exact (plays_ended hend).mono fun _ _ => trivial

/-- A statement with a keyword is read back. -/
theorem playsStatement_clause (clause : Clause)
    (hinner : ∀ source value rest, inner source = .ok value rest →
      PlaysStatement source.pieces rest.pieces value)
    {value : Statement} (hword : pieceAt source.pieces 0 (·.isWord clause.word) = true)
    (h : clause.rule inner (source.skip 1) = .ok value rest) :
    PlaysStatement source.pieces rest.pieces value := by
  obtain ⟨piece, hpieces, hpiece⟩ := pieceAt_zero_stream hword
  have hparts : ∀ bound, ∃ parts, value.parts = .word clause.word :: parts ∧
      Plays false true Ends bound (clause.rule (Reader.below bound statement))
        (source.skip 1).pieces rest.pieces parts value.brace :=
    fun bound => (plays_clause clause hinner h).plays
  refine ⟨fun bound => ?_, fun _ _ => ?_⟩
  · refine Plays.recursive (fun bound => ?_) bound
    obtain ⟨parts, hvalue, hplays⟩ := hparts bound
    have hclause : PlaysClause clause bound _ _ value := plays_clause clause hinner h
    -- a statement with a keyword is no block, so what follows it ends it
    have hfollow : ∀ f, (value.isBlock = true ∨ Ends f) → Ends f :=
      fun f hf => hf.resolve_left (by rw [hclause.isBlock]; decide)
    have hkeyword : PlaysAlone (bound + 1) (takeWord clause.word) source.pieces
        (source.skip 1).pieces [.word clause.word] true :=
      playsAlone_takeWord (takeWord_eq_ok.2 ⟨by rw [TokenStream.wordAt_eq]; exact hword, rfl⟩)
        clause.word_printed
    have hall : Plays false true Ends (bound + 1) (takeWord clause.word >>= fun found =>
        if found then clause.rule (Reader.below bound statement) else plainStatement)
        source.pieces rest.pieces (.word clause.word :: parts) value.brace :=
      Plays.bind_less hkeyword hplays
    rw [hvalue]
    intro hsound
    obtain ⟨hyields, hreads⟩ := hall hsound
    refine ⟨hyields, fun hrereads f hf stream hbound hstream => ?_⟩
    have hfirst : pieceAt stream.pieces 0 (·.isWord clause.word) = true := by
      rw [hstream]
      exact isWord_word clause.word
    rw [statementRule_clause clause hfirst]
    exact (takeWord_then hfirst).symm.trans (hreads hrereads f (hfollow f hf) stream hbound hstream)
  · obtain ⟨parts, hvalue, -⟩ := hparts 0
    rw [hvalue]
    refine ⟨_, _, rfl, ?_⟩
    cases clause <;> decide

/-- A block is read back. -/
theorem playsStatement_block
    (hinner : ∀ source value rest, inner source = .ok value rest →
      PlaysStatement source.pieces rest.pieces value)
    {body : Block} (h : blockOf inner source = .ok body rest) :
    PlaysStatement source.pieces rest.pieces (.block body) := by
  refine ⟨fun bound => ?_, fun _ _ => ?_⟩
  · refine Plays.recursive (fun bound => ?_) bound
    rw [Statement.parts, Statement.brace, Statement.partsAll_eq_map, Statement.braceAll_eq_map]
    have hblock : PlaysAlone (bound + 1) (blockOf (Reader.below bound statement)) _ _ _ _ :=
      plays_blockOf (fun _ _ _ => plays_inner hinner)
        (fun _ _ _ hrun => (hinner _ _ _ hrun).starts) h
    intro hsound
    obtain ⟨hyields, hreads⟩ := (hblock.map Statement.block) hsound
    refine ⟨hyields, fun hrereads f _ stream hbound hstream => ?_⟩
    rw [statementRule_block (by rw [hstream]; rfl)]
    exact hreads hrereads f trivial stream hbound hstream
  · rw [Statement.parts]
    exact ⟨_, _, rfl, rfl⟩

end Grammar

end ApexLayout
