import ApexLayout.Proofs.Grouping
import ApexLayout.Proofs.Outcome

/-!
Where operands were read.

An operand is a primary, perhaps with steps behind it. Every operand of a tree that was read stands
in the source: its primary was read at some place of it, and its steps were read one after another
behind (`Operand`). What a primary or a step can be is thereby known of all nodes of a tree.
-/

namespace ApexLayout

namespace Expression

/-- All operands inside the expression, from left to right. -/
def operands (expression : Expression) : List Expression := expression.within.filter isPostfix

/-- A node that is no operand has the operands of its children. -/
theorem operands_of_children {node : Expression} (h : node.isPostfix = false) :
    node.operands = node.children.flatMap operands := by
  rw [operands, within_eq, List.filter_cons_of_neg (by rw [h]; exact Bool.false_ne_true),
    List.filter_flatMap]
  rfl

/-- An operand stands in front of the operands of its children. -/
theorem operands_of_isPostfix {node : Expression} (h : node.isPostfix = true) :
    node.operands = node :: node.children.flatMap operands := by
  rw [operands, within_eq, List.filter_cons_of_pos h, List.filter_flatMap]
  rfl

theorem operands_single {node child : Expression} (h : node.isPostfix = false)
    (hchildren : node.children = [child]) : node.operands = child.operands := by
  rw [operands_of_children h, hchildren, List.flatMap_singleton]

theorem operands_pair {node first second : Expression} (h : node.isPostfix = false)
    (hchildren : node.children = [first, second]) :
    node.operands = first.operands ++ second.operands := by
  rw [operands_of_children h, hchildren, List.flatMap_cons, List.flatMap_singleton]

theorem operands_triple {node first second third : Expression} (h : node.isPostfix = false)
    (hchildren : node.children = [first, second, third]) :
    node.operands = first.operands ++ (second.operands ++ third.operands) := by
  rw [operands_of_children h, hchildren, List.flatMap_cons, List.flatMap_cons,
    List.flatMap_singleton]

end Expression

namespace Grammar

/-- An operand that was read in a source: a primary at some place of it, and steps behind. -/
inductive Operand (base : TokenStream) : Expression → TokenStream → Prop
  | primary {inner : Grammar Expression} {count : Nat} {value : Expression} {rest : TokenStream}
      (read : primary inner (base.skip count) = .ok value rest) : Operand base value rest
  | step {inner : Grammar Expression} {operand : Expression} {middle rest : TokenStream}
      {value : Step} (first : Operand base operand middle)
      (read : step inner middle = .ok (some value) rest) : Operand base (value.apply operand) rest

/-- From a place of the source the run goes on to another one, and the given operands were read in
the source. -/
def Heard (base source : TokenStream) (_ : List RenderError) (operands : List Expression)
    (rest : TokenStream) : Prop :=
  ∀ count, source = base.skip count → (∃ more, rest = base.skip more) ∧
    ∀ operand ∈ operands, ∃ stop, Operand base operand stop

/-- The faults on the way do not matter. -/
theorem Heard.any {base source rest : TokenStream} {faults others : List RenderError}
    {operands : List Expression} (h : Heard base source faults operands rest) :
    Heard base source others operands rest :=
  h

theorem Heard.trail (base : TokenStream) : Trail (Heard base) where
  skip _ count := by
    rintro more rfl
    exact ⟨⟨more + count, TokenStream.skip_skip ..⟩, nofun⟩
  append := by
    intro source middle rest faults more items others h h' count hsource
    obtain ⟨⟨next, hmiddle⟩, hitems⟩ := h count hsource
    obtain ⟨hrest, hothers⟩ := h' next hmiddle
    exact ⟨hrest, List.forall_mem_append.2 ⟨hitems, hothers⟩⟩

/-! ## What the rules read -/

open Expression

variable {base : TokenStream} {inner : Grammar Expression} {source rest : TokenStream}

section

variable (hinner : ∀ source value rest, inner source = .ok value rest →
  Heard base source value.faults value.operands rest)

include hinner

/-- Expressions that were read one after another. -/
theorem heard_of_covers {faults : List RenderError} {items : List Expression}
    (h : Covers inner source faults items rest) :
    Heard base source faults (items.flatMap operands) rest := by
  induction h with
  | skip source count => exact (Heard.trail base).skip source count
  | one hread => simpa using hinner _ _ _ hread
  | append _ _ ih ih' =>
    rw [List.flatMap_append]
    exact (Heard.trail base).append ih ih'

/-- Inside a primary stand the operands of the expressions inside it. -/
theorem heard_primary_children {value : Expression} (h : PrimaryRun inner source value rest) :
    Heard base source [] (value.children.flatMap operands) rest := by
  cases h with
  | leaf _ hcovers => exact heard_of_covers hinner hcovers
  | query _ hrun => exact (Heard.trail base).advance (.enclosure _ _ _) hrun
  | call hcovers => exact (heard_of_covers hinner hcovers).any
  | creation _ hcovers => exact (heard_of_covers hinner hcovers).any
  | parenthesized hcovers => exact (heard_of_covers hinner hcovers).any

/-- A primary with steps behind it is an operand, and so is each part of it that ends in front of a
step. -/
theorem heard_steps {first value : Expression} {middle : TokenStream} {steps : List Step}
    (hfirst : Operand base first middle) (hbehind : first.isPostfix = true)
    (hplace : ∃ count, middle = base.skip count)
    (hoperands : ∀ operand ∈ first.operands, ∃ stop, Operand base operand stop)
    (h : Reader.Rounds (step inner) middle steps rest)
    (hvalue : value = steps.foldl Step.apply first) :
    (∃ count, rest = base.skip count) ∧
      ∀ operand ∈ value.operands, ∃ stop, Operand base operand stop := by
  induction h generalizing first with
  | stop hlast =>
    obtain ⟨count, rfl⟩ := hplace
    subst hvalue
    exact ⟨(heard_of_covers hinner (step_none hlast) count rfl).1, hoperands⟩
  | @round start next final step others hround _ _ ih =>
    have hnext : Operand base (step.apply first) next := .step hfirst hround
    obtain ⟨count, rfl⟩ := hplace
    -- behind the operands of the part in front come those in the step
    cases run_step _ _ _ hround with
    | link _ hcovers =>
      obtain ⟨hplace, hitems⟩ := heard_of_covers hinner hcovers count rfl
      refine ih hnext rfl hplace ?_ hvalue
      rw [operands_of_isPostfix rfl, Step.apply, children, List.flatMap_cons]
      exact List.forall_mem_cons.2 ⟨⟨_, hnext⟩, List.forall_mem_append.2 ⟨hoperands, hitems⟩⟩
    | index hcovers =>
      obtain ⟨hplace, hitems⟩ := heard_of_covers hinner hcovers count rfl
      refine ih hnext rfl hplace ?_ hvalue
      rw [operands_of_isPostfix rfl, Step.apply, children, List.flatMap_cons]
      exact List.forall_mem_cons.2 ⟨⟨_, hnext⟩, List.forall_mem_append.2 ⟨hoperands, hitems⟩⟩
    | operator _ hcovers =>
      obtain ⟨hplace, -⟩ := heard_of_covers hinner hcovers count rfl
      refine ih hnext rfl hplace ?_ hvalue
      rw [operands_of_isPostfix rfl, Step.apply, children, List.flatMap_singleton]
      exact List.forall_mem_cons.2 ⟨⟨_, hnext⟩, hoperands⟩

theorem heard_stepped {value : Expression} (h : stepped inner source = .ok value rest) :
    Heard base source value.faults value.operands rest := by
  rintro count rfl
  obtain ⟨first, middle, hfirst, h⟩ := Reader.bind_eq_ok.1 h
  obtain ⟨steps, last, hsteps, h⟩ := Reader.bind_eq_ok.1 h
  cases h
  have hrun := run_primary hfirst
  have hbehind : first.isPostfix = true := by cases hrun <;> rfl
  obtain ⟨hplace, hitems⟩ := heard_primary_children hinner hrun count rfl
  refine heard_steps hinner (.primary hfirst) hbehind hplace ?_ (Reader.many_eq_ok.1 hsteps) rfl
  rw [operands_of_isPostfix hbehind]
  exact List.forall_mem_cons.2 ⟨⟨_, .primary hfirst⟩, hitems⟩

omit hinner in
/-- Operators and casts in front of an operand are no operands. -/
theorem heard_fronts {fronts : List Front} (h : Reader.Rounds front source fronts rest)
    (operand : Expression) : Heard base source [] [] rest ∧
      (fronts.foldr Front.apply operand).operands = operand.operands := by
  have trail := Heard.trail base
  induction h with
  | stop hlast =>
    rw [(front_eq_none hlast).1]
    exact ⟨trail.refl _, rfl⟩
  | round hround _ _ ih =>
    obtain ⟨hheard, hoperands⟩ := ih
    rw [List.foldr_cons, ← hoperands]
    cases run_front hround with
    | operator _ _ hnext =>
      exact ⟨trail.append (hnext ▸ trail.skip _ 1) hheard, operands_single rfl rfl⟩
    | cast _ _ hnext =>
      obtain ⟨count, hnext⟩ := hnext
      exact ⟨trail.append (hnext ▸ trail.skip _ count) hheard, operands_single rfl rfl⟩

theorem heard_unary {value : Expression} (h : unary inner source = .ok value rest) :
    Heard base source value.faults value.operands rest := by
  obtain ⟨fronts, middle, hfronts, h⟩ := Reader.bind_eq_ok.1 h
  obtain ⟨operand, last, hoperand, h⟩ := Reader.bind_eq_ok.1 h
  cases h
  obtain ⟨hheard, hoperands⟩ := heard_fronts (Reader.many_eq_ok.1 hfronts) operand
  rw [hoperands]
  exact (Heard.trail base).append hheard (heard_stepped hinner hoperand)

theorem heard_operation : ∀ source value rest, operation inner source = .ok (some value) rest →
    Heard base source [] (value.operand.flatMap operands) rest := by
  intro source value rest h
  cases run_operation h with
  | @binary _ operator count right _ hread =>
    simp only [Operators.Operation.operand, List.flatMap_singleton]
    exact (Heard.trail base).append ((Heard.trail base).skip source count) (heard_unary hinner hread)
  | instanceOf _ hnext =>
    obtain ⟨count, rfl⟩ := hnext
    exact (Heard.trail base).skip source count

theorem heard_binary {value : Expression} (h : binary inner source = .ok value rest) :
    Heard base source value.faults value.operands rest := by
  obtain ⟨first, middle, hfirst, h⟩ := Reader.bind_eq_ok.1 h
  obtain ⟨row, last, hrow, h⟩ := Reader.bind_eq_ok.1 h
  cases h
  have hknown : ∀ operation ∈ row, operation.Known :=
    Reader.Rounds.forall_mem (fun _ _ _ hround => by
      cases run_operation hround with
      | binary hknown _ => exact hknown
      | instanceOf hsound _ => exact hsound) (Reader.many_eq_ok.1 hrow)
  have hview := Operators.view_assemble
    (fun kind operator left right _ => operands_pair
      (show (Expression.binary kind operator left right).isPostfix = false from rfl) rfl)
    (fun operand type _ => operands_single
      (show (Expression.instanceOf operand type).isPostfix = false from rfl) rfl) first row hknown
  have hrounds := (Heard.trail base).rounds (heard_operation hinner) (fun source rest hstop => by
    rw [(operation_eq_none hstop).1]
    exact (Heard.trail base).refl source) hrow
  rw [hview, List.flatMap_assoc]
  exact ((Heard.trail base).append (heard_unary hinner hfirst) hrounds).any

theorem heard_outcomes : ∀ source item rest, outcomes inner source = .ok (some item) rest →
    Heard base source [] (item.1.operands ++ item.2.operands) rest := by
  intro source item rest h
  obtain ⟨behind, middle, last, hmark, hthen, hcolon, helse⟩ := outcomes_eq_some h
  have trail := Heard.trail base
  exact trail.behind (.takeSymbol _) hmark (trail.append
    (trail.before (hinner _ _ _ hthen) (.symbol _) hcolon) (heard_binary hinner helse))

theorem heard_conditional {value : Expression} (h : conditional inner source = .ok value rest) :
    Heard base source value.faults value.operands rest := by
  obtain ⟨first, middle, hfirst, h⟩ := Reader.bind_eq_ok.1 h
  obtain ⟨row, last, hrow, h⟩ := Reader.bind_eq_ok.1 h
  cases h
  have hview := view_choose (fun condition thenValue elseValue => operands_triple
    (show (Expression.conditional condition thenValue elseValue).isPostfix = false from rfl) rfl)
    first row
  have hrounds := (Heard.trail base).rounds (heard_outcomes hinner) (fun source rest hstop => by
    rw [(outcomes_eq_none hstop).1]
    exact (Heard.trail base).refl source) hrow
  rw [hview]
  exact ((Heard.trail base).append (heard_binary hinner hfirst) hrounds).any

theorem heard_assigned : ∀ source item rest, assigned inner source = .ok (some item) rest →
    Heard base source item.2.faults item.2.operands rest := by
  intro source item rest h
  obtain ⟨count, -, hvalue⟩ := assigned_eq_some h
  exact (Heard.trail base).append ((Heard.trail base).skip source count)
    (heard_conditional hinner hvalue)

theorem heard_expressionRule {value : Expression}
    (h : expressionRule inner source = .ok value rest) :
    Heard base source value.faults value.operands rest := by
  obtain ⟨first, middle, hfirst, h⟩ := Reader.bind_eq_ok.1 h
  obtain ⟨row, last, hrow, h⟩ := Reader.bind_eq_ok.1 h
  cases h
  have hview := view_assign first row fun item _ target value => operands_pair
    (show (Expression.assignment target item.1 value).isPostfix = false from rfl) rfl
  have hrounds := (Heard.trail base).rounds (heard_assigned hinner) (fun source rest hstop => by
    rw [(assigned_eq_none hstop).1]
    exact (Heard.trail base).refl source) hrow
  rw [hview]
  exact ((Heard.trail base).append (heard_conditional hinner hfirst) hrounds).any

end

/-- The operands of an expression that is read in a source were read there. -/
theorem heard_expression (base : TokenStream) : ∀ source value rest,
    expression source = .ok value rest → Heard base source value.faults value.operands rest :=
  Reader.recursive_induction fun _ hinner _ _ _ h => heard_expressionRule hinner h

/-- The operands of expressions that are read from the beginning of a source on were read there. -/
theorem operand_of_found {faults : List RenderError} {items : List Expression}
    (h : Found base faults items rest) {node : Expression} (hnode : node ∈ items.flatMap within)
    (hbehind : node.isPostfix = true) : ∃ stop, Operand base node stop := by
  obtain ⟨item, hitem, hnode⟩ := List.mem_flatMap.1 hnode
  refine (heard_of_covers (heard_expression base) h 0 base.skip_zero.symm).2 node ?_
  exact List.mem_flatMap.2 ⟨item, hitem, List.mem_filter.2 ⟨hnode, hbehind⟩⟩

end Grammar

/-! ## Whole sources -/

/-- The nodes are those of a tree that was read from a source: their operands were read among its
tokens. -/
def Text.Holds (source : Text) (nodes : List Expression) : Prop :=
  ∃ stream, TokenStream.ofSource source = .ok stream ∧
    ∀ node ∈ nodes, node.isPostfix = true → ∃ rest, Grammar.Operand stream node rest

variable {source : Text}

theorem parseUnit_holds {unit : CompilationUnit} (h : parseUnit source = .ok unit) :
    source.Holds unit.within := by
  obtain ⟨stream, final, hstream, hunit, -⟩ := Grammar.readSource_eq_ok.1 h
  exact ⟨stream, hstream, fun _ hnode =>
    Grammar.operand_of_found (Grammar.found_compilationUnit hunit) hnode⟩

theorem parseStatement_holds {statement : Statement} (h : parseStatement source = .ok statement) :
    source.Holds statement.within := by
  obtain ⟨stream, final, hstream, hstatement, -⟩ := Grammar.readSource_eq_ok.1 h
  exact ⟨stream, hstream, fun _ hnode =>
    Grammar.operand_of_found (Grammar.found_statement _ _ _ hstatement) hnode⟩

theorem parseExpression_holds {expression : Expression}
    (h : parseExpression source = .ok expression) : source.Holds expression.within := by
  obtain ⟨stream, final, hstream, hexpression, -⟩ := Grammar.readSource_eq_ok.1 h
  exact ⟨stream, hstream, fun _ hnode =>
    Grammar.operand_of_found (Grammar.found_expression _ _ _ hexpression) (by simpa using hnode)⟩

end ApexLayout
