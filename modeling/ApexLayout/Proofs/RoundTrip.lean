import ApexLayout.Proofs.Brace
import ApexLayout.Proofs.Layout.Declaration
import ApexLayout.Proofs.Queries
import ApexLayout.Proofs.Replay.Declaration
import ApexLayout.Proofs.Spelling.Modifier

/-!
What is printed is read again.

The text that is printed for a tree is laid out in parts, the parts are cut into their pieces, and on
these the run that gave the tree is played again. So the same tree comes back, with braces around the
bodies that had none (`parse_render`), and formatting a source twice is formatting it once
(`format_again`).
-/

namespace ApexLayout

/-! ## Modifiers -/

/-- A modifier of the source: the pieces that it was made from, and those behind them. -/
structure ModifierAt (source taken behind : List Piece) (value : Modifier) : Prop where
  suffix : taken ++ behind <:+ source
  made : Modified taken value
  reads : ∀ bound, Grammar.Reads bound Grammar.modifier taken behind (some value)

namespace ModifierAt

variable {source taken behind : List Piece} {value : Modifier}

theorem within (h : ModifierAt source taken behind value) : taken <:+: source :=
  (List.prefix_append taken behind).isInfix.trans h.suffix.isInfix

theorem of_suffix {whole : List Piece} (h : ModifierAt source taken behind value)
    (hsuffix : source <:+ whole) : ModifierAt whole taken behind value :=
  ⟨h.suffix.trans hsuffix, h.made, h.reads⟩

end ModifierAt

/-- A modifier that is printed was made from tokens of the source. -/
theorem Yields.exists_modifierAt {asks gives : Bool} {source rest : List Piece} {parts : List Part}
    (h : Yields asks gives source rest parts) {value : Modifier} (hvalue : .modifier value ∈ parts) :
    ∃ taken behind, ModifierAt source taken behind value := by
  induction h with
  | nil => cases hvalue
  | row hprinted => exact (hprinted.wellFormed _ hvalue).elim
  | one => cases List.mem_singleton.1 hvalue
  | keyword => cases List.mem_singleton.1 hvalue
  | @modifier taken rest _ hmade hreads =>
    cases List.mem_singleton.1 hvalue
    exact ⟨taken, rest, List.suffix_refl _, hmade, hreads⟩
  | braces _ ih =>
    refine ih ?_
    simpa [blockParts, Part.symbol] using hvalue
  | comma => cases hvalue
  | relax _ _ _ ih => exact ih hvalue
  | append hfirst _ ih ih' =>
    rcases List.mem_append.1 hvalue with hvalue | hvalue
    · exact ih hvalue
    · obtain ⟨taken, behind, hat⟩ := ih' hvalue
      obtain ⟨front, rfl⟩ := hfirst.suffix
      exact ⟨taken, behind, hat.of_suffix (List.suffix_append _ _)⟩

/-- No arguments of an annotation hold a slash in front of a token that would make a comment of it. -/
def Text.AnnotationsApart (source : Text) : Prop :=
  ∀ stream, TokenStream.ofSource source = .ok stream → ∀ pieces names arguments,
    pieces <:+: stream.pieces → IsAnnotation pieces names arguments → Apart arguments

/-- It is enough that no two tokens of the source stand like that. -/
theorem Text.annotationsApart_of_apart {source : Text}
    (h : (TokenStream.ofSource source).toOption.all (fun stream => decide (Apart stream.pieces))) :
    source.AnnotationsApart := by
  intro stream hstream pieces names arguments hinfix hmade
  rw [hstream] at h
  have hstream : Apart stream.pieces := of_decide_eq_true h
  obtain ⟨mark, row, rfl, -⟩ := hmade.row
  have harguments : arguments <:+: mark :: (row ++ arguments) := ⟨mark :: row, [], by simp⟩
  exact hstream.infix (harguments.trans hinfix)

/-! ## Reading again -/

/-- What is known about the parts of a run when they are laid out: they yield the source, their text
is cut into their pieces, and their modifiers are read back. -/
structure LaidOut (asks gives : Bool) (source rest : List Piece) (parts : List Part) (text : Text) :
    Prop where
  yields : Yields asks gives source rest parts
  spelled : Spelled (spell parts) text
  rereads : Rereads parts

/-- The parts of a run are laid out as it printed them. -/
theorem Plays.laidOut {α : Type} {asks gives flat : Bool} {follow : List Piece → Prop}
    {rule : Grammar α} {value : α} {source text : Text} {context : Context} {bound : Nat}
    {stream rest : TokenStream} {parts : List Part}
    (h : Plays asks gives follow bound rule stream.pieces rest.pieces parts value)
    (hstream : TokenStream.ofSource source = .ok stream) (hstrings : source.StringsOnOneLine)
    (hapart : ∀ value taken behind, .modifier value ∈ parts →
      ModifierAt stream.pieces taken behind value → ∀ names arguments,
        IsAnnotation taken names arguments → Apart arguments)
    (hquery : .query ∉ parts)
    (hstands : Clean parts → Stands context.indentUnit flat parts text) :
    LaidOut asks gives stream.pieces rest.pieces parts text := by
  have hclean := hstrings.clean hstream
  obtain ⟨hyields, -⟩ := h (hstrings.sound hstream hquery)
  have hmodifiers : ∀ modifier, .modifier modifier ∈ parts →
      Modified (Modifier.pieces modifier) modifier ∧ Modifier.Spelled modifier := by
    intro modifier hmodifier
    obtain ⟨taken, behind, hat⟩ := hyields.exists_modifierAt hmodifier
    refine hat.made.reread (fun piece hpiece => ?_) (hapart modifier taken behind hmodifier hat)
    exact (hclean piece (hat.within.mem hpiece)).lexeme
  have hspelled := (hstands (hyields.clean hclean)).laid.spelled
    (fun c hc => (context.indentUnit_blank c hc).1) fun modifier hmem => (hmodifiers modifier hmem).2
  exact ⟨hyields, hspelled, fun modifier hmem => (hmodifiers modifier hmem).1⟩

/-- A run whose parts are laid out is played again on their text. -/
theorem Plays.readSource {α : Type} {asks gives flat : Bool} {follow : List Piece → Prop}
    {rule : Grammar α} {value : α} {source text trailing : Text} {context : Context}
    {stream rest : TokenStream} {parts : List Part}
    (h : ∀ bound, Plays asks gives follow bound rule stream.pieces rest.pieces parts value)
    (hstream : TokenStream.ofSource source = .ok stream) (hstrings : source.StringsOnOneLine)
    (hapart : source.AnnotationsApart) (hquery : .query ∉ parts)
    (hstands : Clean parts → Stands context.indentUnit flat parts text) (hfollow : follow [])
    (htrailing : ∀ c ∈ trailing, Text.isBlank c = true) :
    Grammar.readSource rule (text ++ trailing) = .ok value := by
  have hlaid := (h 0).laidOut hstream hstrings (fun _ taken _ _ hat names arguments =>
    hapart stream hstream taken names arguments hat.within) hquery hstands
  have hsound := hstrings.sound hstream hquery
  exact hlaid.spelled.readSource (fun bound => (h bound hsound).2 hlaid.rereads [] hfollow) htrailing

section

variable {source text trailing : Text} {context : Context}

/-- A compilation unit comes back with braces around its bodies, whatever blanks stand behind it. -/
theorem CompilationUnit.readBack {unit : CompilationUnit} (hstrings : source.StringsOnOneLine)
    (hapart : source.AnnotationsApart) (h : parseUnit source = .ok unit)
    (htext : unit.render context = .ok text) (htrailing : ∀ c ∈ trailing, Text.isBlank c = true) :
    parseUnit (text ++ trailing) = .ok unit.brace := by
  obtain ⟨stream, final, hstream, hrun, -⟩ := Grammar.readSource_eq_ok.1 h
  have hquery : .query ∉ unit.parts := CompilationUnit.noQuery_of_render htext
  have hstands : Clean unit.parts → Stands context.indentUnit false unit.parts text :=
    fun hclean => unit.declaration.prints context text hclean htext
  exact Plays.readSource (fun _ => Grammar.plays_compilationUnit hrun) hstream hstrings hapart hquery
    hstands trivial htrailing

theorem Statement.readBack {statement : Statement} (hstrings : source.StringsOnOneLine)
    (hapart : source.AnnotationsApart) (h : parseStatement source = .ok statement)
    (htext : statement.render context = .ok text) :
    parseStatement text = .ok statement.brace := by
  obtain ⟨stream, final, hstream, hrun, -⟩ := Grammar.readSource_eq_ok.1 h
  have hstands : Clean statement.parts → Stands context.indentUnit false statement.parts text :=
    fun hclean => statement.prints context text hclean htext
  have hread := Plays.readSource (Grammar.playsStatement _ _ _ hrun).plays hstream hstrings hapart
    (Statement.noQuery_of_render htext) hstands (.inr rfl) (List.forall_mem_nil _)
  rwa [List.append_nil] at hread

theorem Expression.readBack {expression : Expression} (hstrings : source.StringsOnOneLine)
    (hapart : source.AnnotationsApart) (h : parseExpression source = .ok expression)
    (htext : expression.render context = .ok text) :
    parseExpression text = .ok expression := by
  obtain ⟨stream, final, hstream, hrun, hend⟩ := Grammar.readSource_eq_ok.1 h
  have hnothing : final.pieces = [] := by
    unfold TokenStream.pieces
    rw [hend, List.map_nil]
  have hstands : Clean expression.parts →
      Stands context.indentUnit context.inline expression.parts text :=
    fun hclean => Expression.stands hclean htext
  have hread := Plays.readSource (fun bound => (Grammar.replay_expression _ _ _ hrun bound).plays)
    hstream hstrings hapart (Expression.noQuery_of_render htext) hstands (hnothing ▸ .nil)
    (List.forall_mem_nil _)
  rwa [List.append_nil] at hread

end

/-- What is printed for a source is read again as the same tree, with braces around the bodies that
had none. -/
theorem parse_render {source : Text} (context : Context) (hstrings : source.StringsOnOneLine)
    (hapart : source.AnnotationsApart) :
    (∀ unit text, parseUnit source = .ok unit → unit.render context = .ok text →
      parseUnit text = .ok unit.brace ∧ (unit.isBraced = true → parseUnit text = .ok unit)) ∧
    (∀ statement text, parseStatement source = .ok statement →
      statement.render context = .ok text → parseStatement text = .ok statement.brace ∧
        (statement.isBraced = true → parseStatement text = .ok statement)) ∧
    (∀ expression text, parseExpression source = .ok expression →
      expression.render context = .ok text → parseExpression text = .ok expression) := by
  refine ⟨fun unit text h htext => ?_, fun statement text h htext => ?_, fun expression text h htext =>
    Expression.readBack hstrings hapart h htext⟩
  · have hread := CompilationUnit.readBack hstrings hapart h htext (List.forall_mem_nil _)
    rw [List.append_nil] at hread
    exact ⟨hread, fun hbraced => by rw [hread, CompilationUnit.brace_eq_self hbraced]⟩
  · have hread := Statement.readBack hstrings hapart h htext
    exact ⟨hread, fun hbraced => by rw [hread, statement.brace_eq_self hbraced]⟩

/-- An annotation with a quotient, and a body without braces. -/
theorem parse_render_annotation :
    Text.StringsOnOneLine "@A(x / y)class B\x7bstatic\x7bif(a)b();\x7d\x7d" ∧
      Text.AnnotationsApart "@A(x / y)class B\x7bstatic\x7bif(a)b();\x7d\x7d" ∧
      ∃ unit text, parseUnit "@A(x / y)class B\x7bstatic\x7bif(a)b();\x7d\x7d" = .ok unit ∧
        unit.render { settings := {} } = .ok text ∧ text ++ ['\n'] =
          "@A(x/y) class B \x7b\n\tstatic \x7b\n\t\tif (a) \x7b\n\t\t\tb();\n\t\t\x7d\n\t\x7d\n\x7d\n".toList ∧
        parseUnit text = .ok unit.brace := by
  have hstrings : Text.StringsOnOneLine "@A(x / y)class B\x7bstatic\x7bif(a)b();\x7d\x7d" := by
    decide +kernel
  have hapart : Text.AnnotationsApart "@A(x / y)class B\x7bstatic\x7bif(a)b();\x7d\x7d" :=
    Text.annotationsApart_of_apart (by decide +kernel)
  have hformat : format {} "@A(x / y)class B\x7bstatic\x7bif(a)b();\x7d\x7d" = .ok
      "@A(x/y) class B \x7b\n\tstatic \x7b\n\t\tif (a) \x7b\n\t\t\tb();\n\t\t\x7d\n\t\x7d\n\x7d\n".toList := by
    decide +kernel
  obtain ⟨unit, text, hunit, htext, houtput⟩ := format_eq_ok.1 hformat
  exact ⟨hstrings, hapart, unit, text, hunit, htext, houtput.symm,
    ((parse_render { settings := {} } hstrings hapart).1 unit text hunit htext).1⟩

/-! ## Formatting again -/

/-- A formatted source is formatted as the source is. -/
theorem format_format {source output : Text} {first : Settings} (second : Settings)
    (hstrings : source.StringsOnOneLine) (hapart : source.AnnotationsApart)
    (h : format first source = .ok output) :
    format second output = format second source ∧ ∃ text, format second source = .ok text := by
  obtain ⟨unit, body, hunit, hbody, rfl⟩ := format_eq_ok.1 h
  have hread : parseUnit (body ++ ['\n']) = .ok unit.brace :=
    CompilationUnit.readBack hstrings hapart hunit hbody (by simp; decide)
  -- whether a tree is printed does not depend on the settings
  obtain ⟨text, htext⟩ : ∃ text, unit.render { settings := second } = .ok text :=
    (unit.reports_render _).isOk_iff.2 ((unit.reports_render _).isOk_iff.1 ⟨body, hbody⟩)
  have hbrace : unit.brace.render { settings := second } = .ok text :=
    (unit.declaration.render_brace _).trans htext
  have hsource := format_eq_ok.2 ⟨unit, text, hunit, htext, rfl⟩
  exact ⟨(format_eq_ok.2 ⟨unit.brace, text, hread, hbrace, rfl⟩).trans hsource.symm, _, hsource⟩

/-- However often a source is formatted, the last settings decide, and nothing of the others is left. -/
theorem format_again {source output : Text} {first : Settings} (last : Settings)
    (hstrings : source.StringsOnOneLine) (hapart : source.AnnotationsApart)
    (h : format first source = .ok output) :
    format last output = format last source ∧ (∃ text, format last source = .ok text) ∧
      ∀ others : List Settings,
        (others ++ [last]).foldlM (fun text settings => format settings text) output =
          format last source := by
  obtain ⟨hlast, hok⟩ := format_format last hstrings hapart h
  refine ⟨hlast, hok, fun others => ?_⟩
  clear hlast
  induction others generalizing first output with
  | nil =>
    rw [List.nil_append, List.foldlM_cons, (format_format last hstrings hapart h).1]
    exact bind_pure _
  | cons settings rest ih =>
    obtain ⟨hsame, text, htext⟩ := format_format settings hstrings hapart h
    rw [List.cons_append, List.foldlM_cons, hsame, htext]
    exact ih htext

/-- Tabs, then spaces. -/
theorem format_again_spaces :
    Text.StringsOnOneLine "@A(x / y)class B\x7bstatic\x7bif(a)b();\x7d\x7d" ∧
      Text.AnnotationsApart "@A(x / y)class B\x7bstatic\x7bif(a)b();\x7d\x7d" ∧
      ∃ output, format {} "@A(x / y)class B\x7bstatic\x7bif(a)b();\x7d\x7d" = .ok output ∧
        format { indentStyle := .spaces, indentWidth := 1 } output = .ok
          "@A(x/y) class B \x7b\n static \x7b\n  if (a) \x7b\n   b();\n  \x7d\n \x7d\n\x7d\n".toList := by
  have hstrings : Text.StringsOnOneLine "@A(x / y)class B\x7bstatic\x7bif(a)b();\x7d\x7d" := by
    decide +kernel
  have hapart : Text.AnnotationsApart "@A(x / y)class B\x7bstatic\x7bif(a)b();\x7d\x7d" :=
    Text.annotationsApart_of_apart (by decide +kernel)
  have hformat : format {} "@A(x / y)class B\x7bstatic\x7bif(a)b();\x7d\x7d" = .ok
      "@A(x/y) class B \x7b\n\tstatic \x7b\n\t\tif (a) \x7b\n\t\t\tb();\n\t\t\x7d\n\t\x7d\n\x7d\n".toList := by
    decide +kernel
  have hspaces : format { indentStyle := .spaces, indentWidth := 1 }
      "@A(x / y)class B\x7bstatic\x7bif(a)b();\x7d\x7d" = .ok
        "@A(x/y) class B \x7b\n static \x7b\n  if (a) \x7b\n   b();\n  \x7d\n \x7d\n\x7d\n".toList := by
    decide +kernel
  exact ⟨hstrings, hapart, _, hformat, (format_again _ hstrings hapart hformat).1.trans hspaces⟩

end ApexLayout
