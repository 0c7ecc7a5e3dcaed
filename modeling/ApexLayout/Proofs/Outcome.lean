import ApexLayout.Format
import ApexLayout.Proofs.Positions
import ApexLayout.Proofs.Runs
import ApexLayout.Tree.Equality

/-!
The outcome of formatting a source that can be read.

A tree that was read has no faults but its queries, and these stand in the order of the source. So
printing succeeds exactly when there is no query, and otherwise reports the first one.
-/

namespace ApexLayout

/-- What printing reports about a query. -/
def EmbeddedQuery.fault (embedded : EmbeddedQuery) : RenderError :=
  .unsupported .embeddedQuery embedded.position

/-- The positions of the opening brackets among tokens. -/
def bracketPositions (tokens : List Token) : List (Option Position) :=
  (tokens.filter (·.isSymbol "[")).map fun token => some token.start.position

/-- Between two places of the source stand the given queries, each beginning with a bracket there,
and they are the only faults. -/
def Marked (source : TokenStream) (faults : List RenderError) (queries : List EmbeddedQuery)
    (rest : TokenStream) : Prop :=
  ∃ count, rest = source.skip count ∧ ((∀ token ∈ source.tokens, token.text ≠ []) →
    faults = queries.map EmbeddedQuery.fault ∧
      (queries.map EmbeddedQuery.position).Sublist (bracketPositions (source.tokens.take count)))

theorem Marked.trail : Grammar.Trail Marked where
  skip source count := ⟨count, rfl, fun _ => ⟨rfl, List.nil_sublist _⟩⟩
  append := by
    rintro source _ _ faults more queries others ⟨count, rfl, h⟩ ⟨next, rfl, h'⟩
    refine ⟨count + next, TokenStream.skip_skip .., fun hsource => ?_⟩
    obtain ⟨rfl, hsub⟩ := h hsource
    obtain ⟨rfl, hsub'⟩ := h' fun token htoken => hsource token (List.mem_of_mem_drop htoken)
    refine ⟨(List.map_append ..).symm, ?_⟩
    unfold bracketPositions at *
    rw [List.take_add, List.filter_append, List.map_append, List.map_append]
    exact hsub.append hsub'

/-! ## Rows -/

theorem BinaryOperator.text_ne_nil {text : Text} {operator : BinaryOperator}
    (h : BinaryOperator.ofText? text = some operator) : operator.text ≠ [] := by
  have hall : ∀ operator ∈ BinaryOperator.all, operator.text ≠ [] := by decide
  exact hall operator (List.mem_of_find?_eq_some h)

namespace Operators

open Expression

/-- What is known of the operations of a row: operators of the table, and types without faults. -/
def Operation.Known : Operation → Prop
  | .binary operator _ => BinaryOperator.ofText? operator.text = some operator
  | .instanceOf type => type.faults = []

/-- The operand of an operation; a type test has none. -/
def Operation.operand : Operation → List Expression
  | .binary _ right => [right]
  | .instanceOf _ => []

variable {γ : Type} {view : Expression → List γ}
  (hbinary : ∀ kind operator left right, operator ≠ [] →
    view (.binary kind operator left right) = view left ++ view right)
  (hinstanceOf : ∀ operand type, type.faults = [] → view (.instanceOf operand type) = view operand)

include hbinary in
/-- Closing pending operands only groups what they and the operand hold. -/
theorem view_reduce (level : Nat) (stack : List Pending) (operand : Expression)
    (hstack : ∀ pending ∈ stack, pending.operator.text ≠ []) :
    (reduce level stack operand).1.reverse.flatMap (view ·.left) ++
        view (reduce level stack operand).2 =
      stack.reverse.flatMap (view ·.left) ++ view operand ∧
    ∀ pending ∈ (reduce level stack operand).1, pending.operator.text ≠ [] := by
  induction stack generalizing operand with
  | nil => exact ⟨rfl, hstack⟩
  | cons pending outer ih =>
    obtain ⟨hpending, houter⟩ := List.forall_mem_cons.1 hstack
    unfold reduce
    split
    · obtain ⟨hview, hknown⟩ := ih (pending.close operand) houter
      refine ⟨?_, hknown⟩
      rw [hview, Pending.close, hbinary _ _ _ _ hpending]
      simp
    · exact ⟨rfl, hstack⟩

include hbinary hinstanceOf in
/-- A row holds what its operands hold, from left to right. -/
theorem view_assembleFrom (stack : List Pending) (operand : Expression) (row : List Operation)
    (hstack : ∀ pending ∈ stack, pending.operator.text ≠ [])
    (hrow : ∀ operation ∈ row, operation.Known) :
    view (assembleFrom stack operand row) = stack.reverse.flatMap (view ·.left) ++
      (view operand ++ (row.flatMap Operation.operand).flatMap view) := by
  -- what waits on the stack stands to the left of the operand, the innermost last
  induction row generalizing stack operand with
  | nil =>
    obtain ⟨hview, -⟩ := view_reduce hbinary 0 stack operand hstack
    have hempty : (reduce 0 stack operand).1 = [] := Grammar.reduce_zero stack operand
    rw [hempty] at hview
    simpa [assembleFrom] using hview
  | cons operation rest ih =>
    obtain ⟨hknown, hrest⟩ := List.forall_mem_cons.1 hrow
    cases operation with
    | binary operator right =>
      obtain ⟨hview, hless⟩ := view_reduce hbinary operator.precedence stack operand hstack
      have hne : operator.text ≠ [] := BinaryOperator.text_ne_nil (show _ = some operator from hknown)
      rw [assembleFrom, ih _ _ (List.forall_mem_cons.2 ⟨hne, hless⟩) hrest]
      simp only [List.reverse_cons, List.flatMap_append, List.flatMap_cons, List.flatMap_nil,
        List.append_nil, Operation.operand, List.append_assoc]
      rw [← List.append_assoc, hview]
      simp
    | instanceOf type =>
      obtain ⟨hview, hless⟩ := view_reduce hbinary instanceOfPrecedence stack operand hstack
      rw [assembleFrom, ih _ _ hless hrest, hinstanceOf _ _ hknown, ← List.append_assoc, hview]
      simp [Operation.operand]

include hbinary hinstanceOf in
theorem view_assemble (first : Expression) (row : List Operation)
    (hrow : ∀ operation ∈ row, operation.Known) :
    view (assemble first row) = view first ++ (row.flatMap Operation.operand).flatMap view := by
  have h := view_assembleFrom hbinary hinstanceOf [] first row (by simp) hrow
  simpa [assemble] using h

end Operators

/-! ## What the rules read -/

namespace Grammar

open Expression

section

variable {γ : Type} {view : Expression → List γ}

/-- A row of conditions holds what its values hold, from left to right. -/
theorem view_choose (hconditional : ∀ condition thenValue elseValue,
      view (.conditional condition thenValue elseValue) =
        view condition ++ (view thenValue ++ view elseValue))
    (first : Expression) (row : List (Expression × Expression)) :
    view (choose first row) =
      view first ++ row.flatMap fun item => view item.1 ++ view item.2 := by
  induction row generalizing first with
  | nil => simp [choose]
  | cons item others ih =>
    rw [choose, hconditional, ih]
    simp

/-- A row of assignments holds what its targets and its last value hold, from left to right. -/
theorem view_assign (target : Expression) (row : List (Text × Expression))
    (hassignment : ∀ item ∈ row, ∀ target value,
      view (.assignment target item.1 value) = view target ++ view value) :
    view (assign target row) = view target ++ row.flatMap fun item => view item.2 := by
  induction row generalizing target with
  | nil => simp [assign]
  | cons item others ih =>
    obtain ⟨hitem, hothers⟩ := List.forall_mem_cons.1 hassignment
    rw [assign, hitem, ih item.2 hothers]
    simp

end

variable {inner : Grammar Expression} {source rest : TokenStream}

section

variable (hinner : ∀ source value rest, inner source = .ok value rest →
  Marked source value.faults value.queries rest)

include hinner

/-- Expressions that were read one after another. -/
theorem marked_of_covers {faults : List RenderError} {items : List Expression}
    (h : Covers inner source faults items rest) :
    Marked source faults (items.flatMap queries) rest := by
  induction h with
  | skip source count => exact Marked.trail.skip source count
  | one hread => simpa using hinner _ _ _ hread
  | append _ _ ih ih' =>
    rw [List.flatMap_append]
    exact Marked.trail.append ih ih'

omit hinner in
/-- A query is read from brackets that begin where it stands. -/
theorem marked_query {tokens : List Token} {text : Text} (hahead : source.symbolAt 0 "[" = true)
    (h : enclosure "[" "]" .queryEnd source = .ok tokens rest) :
    Marked source [.unsupported .embeddedQuery (some source.position)]
      [⟨text, some source.position⟩] rest := by
  obtain ⟨_, start, hget, h⟩ := Reader.bind_eq_ok.1 h
  cases hget
  cases htaken : enclosed "[" "]" 0 source.tokens with
  | none =>
    rw [htaken] at h
    obtain ⟨_, _, _, h⟩ := Reader.bind_eq_ok.1 h
    cases h
  | some taken =>
    rw [htaken] at h
    obtain ⟨_, last, hskip, h⟩ := Reader.bind_eq_ok.1 h
    cases h
    refine ⟨tokens.length, (skip_eq_ok.1 hskip).symm, fun _ => ⟨rfl, ?_⟩⟩
    unfold TokenStream.symbolAt TokenStream.holds at hahead
    unfold TokenStream.position
    cases hsource : source.tokens with
    | nil => rw [hsource] at hahead; cases hahead
    | cons token others =>
      rw [hsource] at hahead htaken
      -- what is enclosed has at least the opening bracket
      have hbracket : token.isSymbol "[" = true := by simpa using hahead
      obtain ⟨count, hcount⟩ : ∃ count, tokens.length = count + 1 := by
        simp only [enclosed, hbracket, if_true] at htaken
        obtain ⟨inside, -, rfl⟩ := Option.map_eq_some_iff.1 htaken
        exact ⟨inside.length, rfl⟩
      rw [hcount, List.take_succ_cons]
      unfold bracketPositions
      rw [List.filter_cons, if_pos hbracket]
      exact (List.nil_sublist _).cons_cons _

theorem marked_primary {value : Expression} (h : PrimaryRun inner source value rest) :
    Marked source value.faults value.queries rest := by
  cases h with
  | @leaf _ leaf hsound hcovers =>
    have hnone : (Expression.primary leaf).queries = [] := by
      cases leaf with
      | query => cases hsound
      | _ => rfl
    rw [Expression.faults, hsound, hnone]
    exact marked_of_covers hinner hcovers
  | query hahead hrun => exact marked_query hahead hrun
  | call hcovers =>
    rw [Expression.faults, queries_call]
    exact marked_of_covers hinner hcovers
  | creation hsound hcovers =>
    rw [Expression.faults, hsound, queries_creation]
    exact marked_of_covers hinner hcovers
  | parenthesized hcovers =>
    rw [Expression.faults, queries_parenthesized]
    simpa using marked_of_covers hinner hcovers

/-- A step adds its own queries behind those of its operand. -/
theorem marked_step {start : TokenStream} {operand : Expression} {value : Step}
    (hoperand : Marked start operand.faults operand.queries source)
    (h : StepRun inner source value rest) :
    Marked start (value.apply operand).faults (value.apply operand).queries rest := by
  cases h with
  | @link _ navigation token arguments hnamed hcovers =>
    rw [Step.apply, queries_chain, Expression.faults]
    have hmarked := Marked.trail.append hoperand (marked_of_covers hinner hcovers)
    obtain ⟨count, hrest, hmarked⟩ := hmarked
    refine ⟨count, hrest, fun hstart => ?_⟩
    have hlink : Link.faults ⟨navigation, token.text, arguments⟩ =
        Expression.faultsAll (arguments.getD []) := by
      -- the member is not empty, so only the arguments can have faults
      obtain ⟨before, rfl, -⟩ := hoperand
      have hmember := hstart token (List.mem_of_mem_drop hnamed)
      obtain ⟨c, text, htext⟩ := List.exists_cons_of_ne_nil hmember
      rw [htext]
      cases arguments <;> rfl
    rw [hlink]
    exact hmarked hstart
  | index hcovers =>
    rw [Step.apply, queries_arrayAccess, Expression.faults]
    have hindex := marked_of_covers hinner hcovers
    rw [List.flatMap_singleton] at hindex
    exact Marked.trail.append hoperand hindex
  | operator hknown hcovers =>
    have hne : ∀ text ∈ Operators.trailing, text ≠ [] := by decide
    rw [Step.apply, queries_unary, Expression.faults, operatorFaults_eq_nil _ (hne _ hknown)]
    have hmarked := Marked.trail.append hoperand (marked_of_covers hinner hcovers)
    simpa using hmarked

theorem marked_steps {start : TokenStream} {operand : Expression} {steps : List Step}
    (hoperand : Marked start operand.faults operand.queries source)
    (h : Reader.Rounds (step inner) source steps rest) :
    Marked start (steps.foldl Step.apply operand).faults (steps.foldl Step.apply operand).queries
      rest := by
  induction h generalizing operand with
  | stop hlast =>
    simpa using Marked.trail.append hoperand (marked_of_covers hinner (step_none hlast))
  | round hround _ _ ih => exact ih (marked_step hinner hoperand (run_step _ _ _ hround))

theorem marked_stepped {value : Expression} (h : stepped inner source = .ok value rest) :
    Marked source value.faults value.queries rest := by
  obtain ⟨first, middle, hfirst, h⟩ := Reader.bind_eq_ok.1 h
  obtain ⟨steps, last, hsteps, h⟩ := Reader.bind_eq_ok.1 h
  cases h
  exact marked_steps hinner (marked_primary hinner (run_primary hfirst)) (Reader.many_eq_ok.1 hsteps)

omit hinner in
/-- Operators and casts in front of an operand have no queries and no faults. -/
theorem marked_fronts {fronts : List Front} (h : Reader.Rounds front source fronts rest)
    (operand : Expression) :
    Marked source [] [] rest ∧ (fronts.foldr Front.apply operand).faults = operand.faults ∧
      (fronts.foldr Front.apply operand).queries = operand.queries := by
  induction h with
  | stop hlast =>
    rw [(front_eq_none hlast).1]
    exact ⟨Marked.trail.refl _, rfl, rfl⟩
  | round hround _ _ ih =>
    obtain ⟨hmarked, hfaults, hqueries⟩ := ih
    cases run_front hround with
    | operator hknown _ hnext =>
      have hne : ∀ text ∈ Operators.leading, text ≠ [] := by decide
      refine ⟨Marked.trail.append (hnext ▸ Marked.trail.skip _ 1) hmarked, ?_, ?_⟩
      · rw [List.foldr_cons, Front.apply, Expression.faults, hfaults,
          operatorFaults_eq_nil _ (hne _ hknown), List.nil_append]
      · rw [List.foldr_cons, Front.apply, queries_unary, hqueries]
    | cast hsound _ hnext =>
      obtain ⟨count, hnext⟩ := hnext
      refine ⟨Marked.trail.append (hnext ▸ Marked.trail.skip _ count) hmarked, ?_, ?_⟩
      · rw [List.foldr_cons, Front.apply, Expression.faults, hfaults, hsound, List.nil_append]
      · rw [List.foldr_cons, Front.apply, queries_cast, hqueries]

theorem marked_unary {value : Expression} (h : unary inner source = .ok value rest) :
    Marked source value.faults value.queries rest := by
  obtain ⟨fronts, middle, hfronts, h⟩ := Reader.bind_eq_ok.1 h
  obtain ⟨operand, last, hoperand, h⟩ := Reader.bind_eq_ok.1 h
  cases h
  obtain ⟨hmarked, hfaults, hqueries⟩ := marked_fronts (Reader.many_eq_ok.1 hfronts) operand
  rw [hfaults, hqueries]
  exact Marked.trail.append hmarked (marked_stepped hinner hoperand)

theorem marked_operation : ∀ source value rest,
    operation inner source = .ok (some value) rest →
    value.Known ∧ Marked source (value.operand.flatMap Expression.faults)
      (value.operand.flatMap queries) rest := by
  intro source value rest h
  cases run_operation h with
  | @binary _ operator count right hknown hread =>
    refine ⟨hknown, ?_⟩
    simp only [Operators.Operation.operand, List.flatMap_singleton]
    exact Marked.trail.append (Marked.trail.skip source count) (marked_unary hinner hread)
  | instanceOf hsound hnext =>
    obtain ⟨count, rfl⟩ := hnext
    exact ⟨hsound, Marked.trail.skip source count⟩

theorem marked_binary {value : Expression} (h : binary inner source = .ok value rest) :
    Marked source value.faults value.queries rest := by
  obtain ⟨first, middle, hfirst, h⟩ := Reader.bind_eq_ok.1 h
  obtain ⟨row, last, hrow, h⟩ := Reader.bind_eq_ok.1 h
  cases h
  have hknown : ∀ operation ∈ row, operation.Known :=
    Reader.Rounds.forall_mem (fun _ _ _ h => (marked_operation hinner _ _ _ h).1)
      (Reader.many_eq_ok.1 hrow)
  have hmarked := Marked.trail.rounds (fun _ _ _ h => (marked_operation hinner _ _ _ h).2)
    (fun source rest hstop => by
      rw [(operation_eq_none hstop).1]
      exact Marked.trail.refl source) hrow
  have hfaults := Operators.view_assemble
    (fun kind operator left right hne => show Expression.faults _ = _ by
      rw [Expression.faults, operatorFaults_eq_nil _ hne, List.nil_append])
    (fun operand type hsound => by rw [Expression.faults, hsound, List.append_nil]) first row hknown
  have hqueries := Operators.view_assemble
    (fun kind operator left right _ => queries_binary kind operator left right)
    (fun operand type _ => queries_instanceOf operand type) first row hknown
  rw [hfaults, hqueries, List.flatMap_assoc, List.flatMap_assoc]
  exact Marked.trail.append (marked_unary hinner hfirst) hmarked

theorem marked_outcomes : ∀ source item rest,
    outcomes inner source = .ok (some item) rest →
    Marked source (item.1.faults ++ item.2.faults) (item.1.queries ++ item.2.queries) rest := by
  intro source item rest h
  obtain ⟨behind, middle, last, hmark, hthen, hcolon, helse⟩ := outcomes_eq_some h
  exact Marked.trail.behind (.takeSymbol _) hmark (Marked.trail.append
    (Marked.trail.before (hinner _ _ _ hthen) (.symbol _) hcolon) (marked_binary hinner helse))

omit hinner in
theorem choose_faults (first : Expression) (row : List (Expression × Expression)) :
    (choose first row).faults =
        first.faults ++ row.flatMap (fun item => item.1.faults ++ item.2.faults) ∧
      (choose first row).queries =
        first.queries ++ row.flatMap (fun item => item.1.queries ++ item.2.queries) :=
  ⟨view_choose (fun _ _ _ => by simp [Expression.faults]) first row,
    view_choose queries_conditional first row⟩

theorem marked_conditional {value : Expression} (h : conditional inner source = .ok value rest) :
    Marked source value.faults value.queries rest := by
  obtain ⟨first, middle, hfirst, h⟩ := Reader.bind_eq_ok.1 h
  obtain ⟨row, last, hrow, h⟩ := Reader.bind_eq_ok.1 h
  cases h
  obtain ⟨hfaults, hqueries⟩ := choose_faults first row
  rw [hfaults, hqueries]
  refine Marked.trail.append (marked_binary hinner hfirst) ?_
  refine Marked.trail.rounds (marked_outcomes hinner) (fun source rest hstop => ?_) hrow
  rw [(outcomes_eq_none hstop).1]
  exact Marked.trail.refl source

omit hinner in
theorem assign_faults (target : Expression) (row : List (Text × Expression))
    (hrow : ∀ item ∈ row, item.1 ≠ []) :
    (assign target row).faults = target.faults ++ row.flatMap (·.2.faults) ∧
      (assign target row).queries = target.queries ++ row.flatMap (·.2.queries) := by
  refine ⟨view_assign target row fun item hitem target value => ?_,
    view_assign target row fun item _ target value => queries_assignment target item.1 value⟩
  rw [Expression.faults, operatorFaults_eq_nil _ (hrow item hitem)]
  simp

theorem marked_expressionRule {value : Expression}
    (h : expressionRule inner source = .ok value rest) :
    Marked source value.faults value.queries rest := by
  obtain ⟨first, middle, hfirst, h⟩ := Reader.bind_eq_ok.1 h
  obtain ⟨row, last, hrow, h⟩ := Reader.bind_eq_ok.1 h
  cases h
  have hknown : ∀ item ∈ row, item.1 ≠ [] := by
    refine Reader.Rounds.forall_mem (fun _ _ _ hround => ?_) (Reader.many_eq_ok.1 hrow)
    obtain ⟨count, hoperator, -⟩ := assigned_eq_some hround
    rintro hnil
    rw [hnil] at hoperator
    exact absurd (Operators.assignment?_eq_some hoperator).2 (by decide)
  obtain ⟨hfaults, hqueries⟩ := assign_faults first row hknown
  rw [hfaults, hqueries]
  refine Marked.trail.append (marked_conditional hinner hfirst) ?_
  refine Marked.trail.rounds (fun source item rest hround => ?_) (fun source rest hstop => ?_) hrow
  · obtain ⟨count, -, hvalue⟩ := assigned_eq_some hround
    exact Marked.trail.append (Marked.trail.skip source count) (marked_conditional hinner hvalue)
  · rw [(assigned_eq_none hstop).1]
    exact Marked.trail.refl source

end

/-- The queries of an expression begin with brackets of the source, in their order. -/
theorem marked_expression : ∀ source value rest, expression source = .ok value rest →
    Marked source value.faults value.queries rest :=
  Reader.recursive_induction fun _ hinner _ _ _ h => marked_expressionRule hinner h

end Grammar

/-! ## Whole sources -/

/-- A unit that was read has no faults but its queries, whose positions rise. -/
theorem parseUnit_faults {source : Text} {unit : CompilationUnit}
    (h : parseUnit source = .ok unit) :
    unit.faults = unit.queries.map EmbeddedQuery.fault ∧
      ∃ positions : List Position, unit.queries.map EmbeddedQuery.position = positions.map some ∧
        positions.Pairwise Position.Before := by
  obtain ⟨stream, final, hstream, hunit, -⟩ := Grammar.readSource_eq_ok.1 h
  have hmarked := Grammar.marked_of_covers Grammar.marked_expression
    (Grammar.found_compilationUnit hunit)
  rw [← CompilationUnit.queries_eq_flatMap] at hmarked
  obtain ⟨count, -, hmarked⟩ := hmarked
  obtain ⟨hfaults, hsub⟩ := hmarked (TokenStream.text_ne_nil hstream)
  refine ⟨hfaults, ?_⟩
  -- the brackets are some of the tokens, and these are in order
  have hbrackets : (bracketPositions (stream.tokens.take count)).Sublist
      ((stream.tokens.map (·.start.position)).map some) := by
    unfold bracketPositions
    rw [List.map_map]
    exact (List.filter_sublist.trans (List.take_sublist ..)).map _
  obtain ⟨positions, hpositions, heq⟩ := List.sublist_map_iff.1 (hsub.trans hbrackets)
  exact ⟨positions, heq, (TokenStream.positions_ordered hstream).sublist hpositions⟩

theorem format_of_parse (settings : Settings) {source : Text} {unit : CompilationUnit}
    (h : parseUnit source = .ok unit) :
    format settings source =
      match unit.print settings with
      | .error error => .error (.unprintable error)
      | .ok text => .ok text := by
  cases hprint : unit.print settings <;> simp [format, h, hprint]

/-- A source without queries is formatted. -/
theorem format_of_queries (settings : Settings) {source : Text} {unit : CompilationUnit}
    (h : parseUnit source = .ok unit) (hqueries : unit.queries = []) :
    ∃ text, format settings source = .ok text := by
  have hreports : Reports (unit.print settings) unit.faults := (unit.reports_render { settings }).map
  rw [(parseUnit_faults h).1, hqueries] at hreports
  obtain ⟨text, htext⟩ := hreports
  rw [format_of_parse settings h, htext]
  exact ⟨text, rfl⟩

/-- Formatting a source that can be read succeeds exactly when it holds no query, and otherwise
reports the first query; nothing else can go wrong, whatever the settings are. -/
theorem format_outcome (settings : Settings) {source : Text} {unit : CompilationUnit}
    (h : parseUnit source = .ok unit) :
    (∀ kind defect, format settings source ≠ .error (.unprintable (.malformed kind defect))) ∧
    ((∃ text, format settings source = .ok text) ↔ unit.queries = []) ∧
    (unit.queries ≠ [] → ∃ first ∈ unit.queries, ∃ position, first.position = some position ∧
      format settings source = .error (.unprintable (.unsupported .embeddedQuery (some position))) ∧
      ∀ query ∈ unit.queries, query = first ∨
        ∃ other, query.position = some other ∧ position.Before other) := by
  cases hqueries : unit.queries with
  | nil =>
    obtain ⟨text, htext⟩ := format_of_queries settings h hqueries
    simp [htext]
  | cons first others =>
    obtain ⟨hfaults, positions, hpositions, hordered⟩ := parseUnit_faults h
    have hreports : Reports (unit.print settings) unit.faults :=
      (unit.reports_render { settings }).map
    rw [hfaults, hqueries] at hreports
    have hprint : unit.print settings = .error first.fault := hreports
    have hformat := format_of_parse settings h
    rw [hprint] at hformat
    rw [hqueries] at hpositions
    cases positions with
    | nil => cases hpositions
    | cons position rest =>
      obtain ⟨hfirst, hothers⟩ := List.cons.inj hpositions
      have hunsupported : first.fault = .unsupported .embeddedQuery (some position) := by
        unfold EmbeddedQuery.fault
        rw [hfirst]
      rw [hunsupported] at hformat
      refine ⟨by simp [hformat], by simp [hformat], fun _ => ?_⟩
      refine ⟨first, List.mem_cons_self, position, hfirst, hformat, fun query hquery => ?_⟩
      rcases List.mem_cons.1 hquery with rfl | hquery
      · exact .inl rfl
      · have hmem : query.position ∈ rest.map some := hothers ▸ List.mem_map_of_mem hquery
        obtain ⟨other, hother, hsome⟩ := List.mem_map.1 hmem
        exact .inr ⟨other, hsome.symm, (List.pairwise_cons.1 hordered).1 other hother⟩

/-- Of two queries in a class the one that stands first is reported. -/
theorem format_outcome_twoQueries :
    ∃ unit, parseUnit "class A { T a = f([SELECT x], [SELECT y]); }" = .ok unit ∧
      unit.queries.map EmbeddedQuery.position = [some ⟨1, 19⟩, some ⟨1, 31⟩] ∧
      ∃ first ∈ unit.queries, ∃ position, first.position = some position ∧
        format {} "class A { T a = f([SELECT x], [SELECT y]); }" =
          .error (.unprintable (.unsupported .embeddedQuery (some position))) ∧
        ∀ query ∈ unit.queries, query = first ∨
          ∃ other, query.position = some other ∧ position.Before other := by
  have hqueries : ((parseUnit "class A { T a = f([SELECT x], [SELECT y]); }").map fun unit =>
      unit.queries.map EmbeddedQuery.position) = .ok [some ⟨1, 19⟩, some ⟨1, 31⟩] := by
    decide +kernel
  cases hunit : parseUnit "class A { T a = f([SELECT x], [SELECT y]); }" with
  | error error =>
    rw [hunit] at hqueries
    cases hqueries
  | ok unit =>
    rw [hunit] at hqueries
    have hpositions : unit.queries.map EmbeddedQuery.position = [some ⟨1, 19⟩, some ⟨1, 31⟩] :=
      Except.ok.inj hqueries
    have hne : unit.queries ≠ [] := by
      intro hnil
      rw [hnil] at hpositions
      cases hpositions
    exact ⟨unit, rfl, hpositions, (format_outcome {} hunit).2.2 hne⟩

end ApexLayout
