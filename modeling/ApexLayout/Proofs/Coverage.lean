import ApexLayout.Grammar.Source
import ApexLayout.Proofs.Advance
import ApexLayout.Proofs.Contents

/-!
The expressions of statements and declarations.

`Covers` says that a run reads the given expressions one after another, each by the rule for
expressions, and passes over the tokens between them. Every statement and every declaration that is
read covers its outermost expressions, and all its faults are theirs.
-/

namespace ApexLayout

/-- Between two places of the source the expressions are read one after another; their faults are
the given ones. -/
inductive Covers (item : Grammar Expression) :
    TokenStream → List RenderError → List Expression → TokenStream → Prop
  | skip (source : TokenStream) (count : Nat) : Covers item source [] [] (source.skip count)
  | one {source rest : TokenStream} {value : Expression} (read : item source = .ok value rest) :
      Covers item source value.faults [value] rest
  | append {source middle rest : TokenStream} {faults more : List RenderError}
      {items others : List Expression} (first : Covers item source faults items middle)
      (second : Covers item middle more others rest) :
      Covers item source (faults ++ more) (items ++ others) rest

namespace Covers

variable {item : Grammar Expression} {source rest : TokenStream} {faults : List RenderError}
  {items : List Expression}

theorem trail (item : Grammar Expression) : Grammar.Trail (Covers item) := ⟨skip, append⟩

/-- Every expression that is covered was read. -/
theorem exists_run (h : Covers item source faults items rest) :
    ∀ value ∈ items, ∃ start stop, item start = .ok value stop := by
  induction h with
  | skip => simp
  | one hread => exact List.forall_mem_singleton.2 ⟨_, _, hread⟩
  | append _ _ ih ih' =>
    intro value hvalue
    exact (List.mem_append.1 hvalue).elim (ih value) (ih' value)

end Covers

theorem TypeRef.faultsAll_eq_nil {types : List TypeRef} (h : ∀ type ∈ types, type.faults = []) :
    TypeRef.faultsAll types = [] := by
  rw [TypeRef.faultsAll_eq_flatMap, List.flatMap_eq_nil_iff]
  exact h

/-- Variables that have a type and at least one name have no faults but those of their values. -/
theorem VariableDeclaration.faults_eq {type : TypeRef} {declarators : List Declarator}
    (kind : NodeKind) (modifiers : List Modifier) (htype : type.faults = [])
    (hne : declarators ≠ []) :
    VariableDeclaration.faults kind ⟨modifiers, type, declarators⟩ =
      declarators.flatMap Declarator.faults := by
  rw [VariableDeclaration.faults_eq_append kind hne, htype, List.nil_append]

namespace Grammar

variable {source middle rest : TokenStream}

/-! ## Expressions in a row -/

theorem covers_commaSeparated {item : Grammar Expression} {values : List Expression}
    (h : commaSeparated item source = .ok values rest) :
    Covers item source (Expression.faultsAll values) values rest := by
  have hrow := (Covers.trail item).separated (Advances.takeSymbol _) (fun _ _ _ => .one) h
  rwa [List.flatMap_singleton', ← Expression.faultsAll_eq_flatMap] at hrow

/-- A place further on, with the expressions found up to there and their faults. -/
abbrev Found := Covers expression

theorem found : Trail Found := Covers.trail expression

theorem found_expression : ∀ source value rest, expression source = .ok value rest →
    Found source value.faults [value] rest :=
  fun _ _ _ => .one

theorem found_expressions {values : List Expression}
    (h : commaSeparated expression source = .ok values rest) :
    Found source (Expression.faultsAll values) values rest :=
  covers_commaSeparated h

theorem found_optional {test : Grammar Bool} {value : Option Expression} (htest : Advances test)
    (h : Reader.optional test expression source = .ok value rest) :
    Found source (value.toList.flatMap Expression.faults) value.toList rest := by
  have hvalue := found.optional htest found_expression h
  rwa [List.flatMap_singleton'] at hvalue

/-! ## Variables and headers -/

theorem found_declarator {name : Text} {value : Declarator}
    (h : declarator name source = .ok value rest) :
    Found source value.faults value.expressions rest := by
  obtain ⟨initializer, middle, hinitializer, h⟩ := Reader.bind_eq_ok.1 h
  cases h
  exact found_optional (Advances.takeSymbol _) hinitializer

theorem found_declarators {name : Text} {values : List Declarator}
    (h : declarators name source = .ok values rest) :
    values ≠ [] ∧ Found source (values.flatMap Declarator.faults)
      (values.flatMap Declarator.expressions) rest := by
  obtain ⟨head, middle, hhead, h⟩ := Reader.bind_eq_ok.1 h
  obtain ⟨others, last, hothers, h⟩ := Reader.bind_eq_ok.1 h
  cases h
  refine ⟨by simp, found.append (found_declarator hhead) ?_⟩
  refine found.optionals (Advances.takeSymbol _) (fun source value rest h => ?_) hothers
  obtain ⟨name, middle, hname, h⟩ := Reader.bind_eq_ok.1 h
  exact found.behind .identifier hname (found_declarator h)

theorem variableHead_faults {modifiers : List Modifier} {type : TypeRef}
    (h : variableHead source = .ok (modifiers, type) rest) :
    type.faults = [] ∧ Found source [] [] rest := by
  obtain ⟨_, first, hmodifiers, h⟩ := Reader.bind_eq_ok.1 h
  obtain ⟨_, second, htype, h⟩ := Reader.bind_eq_ok.1 h
  obtain ⟨_, third, hlook, h⟩ := Reader.bind_eq_ok.1 h
  obtain ⟨_, last, hrequire, h⟩ := Reader.bind_eq_ok.1 h
  cases h
  have hlast : Found third [] [] rest := found.advance (.require _ _) hrequire
  have hdeclared : Found second [] [] rest := found.behind (.look _) hlook hlast
  have hnamed : Found first [] [] rest := found.behind .typeRef htype hdeclared
  exact ⟨typeRef_faults htype, found.behind .modifiers hmodifiers hnamed⟩

theorem found_localVariables {value : Option VariableDeclaration}
    (h : localVariables source = .ok value rest) :
    Found source (value.toList.flatMap (VariableDeclaration.faults .localVariable))
      (value.toList.flatMap VariableDeclaration.expressions) rest := by
  obtain ⟨head, middle, hhead, h⟩ := Reader.bind_eq_ok.1 h
  cases head with
  | none =>
    cases h
    rw [(Reader.attempt_eq_none.1 hhead).1]
    exact found.refl source
  | some head =>
    obtain ⟨htype, hfound⟩ := variableHead_faults (Reader.attempt_eq_some.1 hhead)
    obtain ⟨name, second, hname, h⟩ := Reader.bind_eq_ok.1 h
    obtain ⟨values, last, hvalues, h⟩ := Reader.bind_eq_ok.1 h
    cases h
    obtain ⟨hne, hvalues⟩ := found_declarators hvalues
    simp only [Option.toList_some, List.flatMap_singleton]
    rw [VariableDeclaration.faults_eq _ _ htype hne]
    exact found.append hfound (found.behind .identifier hname hvalues)

theorem found_inParentheses {value : Expression} (h : inParentheses source = .ok value rest) :
    Found source value.faults [value] rest := by
  obtain ⟨_, first, hopening, h⟩ := Reader.bind_eq_ok.1 h
  obtain ⟨inner, second, hinner, h⟩ := Reader.bind_eq_ok.1 h
  obtain ⟨_, last, hclosing, h⟩ := Reader.bind_eq_ok.1 h
  cases h
  exact found.behind (.symbol _) hopening (found.before (.one hinner) (.symbol _) hclosing)

theorem found_forInit {value : Option ForInit} (h : forInit source = .ok value rest) :
    Found source (value.toList.flatMap ForInit.faults) (value.toList.flatMap ForInit.outermost)
      rest := by
  obtain ⟨stop, first, hstop, h⟩ := Reader.bind_eq_ok.1 h
  refine found.behind (.atSymbol _) hstop ?_
  cases stop with
  | true =>
    cases h
    exact found.refl _
  | false =>
    obtain ⟨declared, second, hdeclared, h⟩ := Reader.bind_eq_ok.1 h
    have hfound := found_localVariables hdeclared
    cases declared with
    | some declaration =>
      cases h
      exact hfound
    | none =>
      obtain ⟨items, last, hitems, h⟩ := Reader.bind_eq_ok.1 h
      cases h
      simpa [ForInit.faults, ForInit.outermost] using
        found.append hfound (found_expressions hitems)

theorem advances_unless (text : Text) :
    Advances (do return !(← atSymbol text)) :=
  (Advances.atSymbol _).bind fun _ => .pure _

theorem found_countingControl {value : ForControl}
    (h : countingControl source = .ok value rest) :
    Found source value.faults value.expressions rest := by
  obtain ⟨init, first, hinit, h⟩ := Reader.bind_eq_ok.1 h
  obtain ⟨_, second, hsecond, h⟩ := Reader.bind_eq_ok.1 h
  obtain ⟨condition, third, hcondition, h⟩ := Reader.bind_eq_ok.1 h
  obtain ⟨_, fourth, hfourth, h⟩ := Reader.bind_eq_ok.1 h
  obtain ⟨update, last, hupdate, h⟩ := Reader.bind_eq_ok.1 h
  cases h
  have hrule : ∀ source value rest, commaSeparated expression source = .ok value rest →
      Found source (Expression.faultsAll value) (id value) rest :=
    fun _ _ _ => found_expressions
  have hrow := found.optional (advances_unless _) hrule hupdate
  have hsteps : Found fourth (Expression.faultsAll (update.getD [])) (update.getD []) rest := by
    cases update with
    | none => exact hrow
    | some items => simpa using hrow
  rw [ForControl.faults, ForControl.expressions, List.append_assoc]
  exact found.append (found.before (found_forInit hinit) (.symbol _) hsecond)
    (found.append (found.before (found_optional (advances_unless _) hcondition) (.symbol _)
      hfourth) hsteps)

theorem eachHead_faults {modifiers : List Modifier} {type : TypeRef} {name : Text}
    (h : eachHead source = .ok (modifiers, type, name) rest) :
    type.faults = [] ∧ Found source [] [] rest := by
  obtain ⟨_, first, hmodifiers, h⟩ := Reader.bind_eq_ok.1 h
  obtain ⟨_, second, htype, h⟩ := Reader.bind_eq_ok.1 h
  obtain ⟨_, third, hname, h⟩ := Reader.bind_eq_ok.1 h
  obtain ⟨_, last, hcolon, h⟩ := Reader.bind_eq_ok.1 h
  cases h
  have hlast : Found third [] [] rest := found.advance (.symbol _) hcolon
  have hnamed : Found second [] [] rest := found.behind .identifier hname hlast
  have htyped : Found first [] [] rest := found.behind .typeRef htype hnamed
  exact ⟨typeRef_faults htype, found.behind .modifiers hmodifiers htyped⟩

theorem found_forControl {value : ForControl} (h : forControl source = .ok value rest) :
    Found source value.faults value.expressions rest := by
  obtain ⟨head, middle, hhead, h⟩ := Reader.bind_eq_ok.1 h
  cases head with
  | none =>
    rw [(Reader.attempt_eq_none.1 hhead).1] at h
    exact found_countingControl h
  | some head =>
    obtain ⟨modifiers, type, name⟩ := head
    obtain ⟨htype, hfound⟩ := eachHead_faults (Reader.attempt_eq_some.1 hhead)
    obtain ⟨iterable, last, hiterable, h⟩ := Reader.bind_eq_ok.1 h
    cases h
    rw [ForControl.faults, ForControl.expressions, htype]
    exact found.append hfound (.one hiterable)

/-! ## Statements -/

section

variable {inner : Grammar Statement}
  (hinner : ∀ source value rest, inner source = .ok value rest →
    Found source value.faults value.expressions rest)

include hinner

theorem found_blockOf {body : Block} (h : blockOf inner source = .ok body rest) :
    Found source (Block.faults body) (Block.expressions body) rest := by
  obtain ⟨_, first, hopening, h⟩ := Reader.bind_eq_ok.1 h
  obtain ⟨items, second, hitems, h⟩ := Reader.bind_eq_ok.1 h
  obtain ⟨_, last, hclosing, h⟩ := Reader.bind_eq_ok.1 h
  cases h
  exact found.behind (.symbol _) hopening
    (found.before (found.optionals (.look _) hinner hitems) (.symbol _) hclosing)

theorem found_ifElse {value : Statement} (h : ifElse inner source = .ok value rest) :
    Found source value.faults value.expressions rest := by
  obtain ⟨condition, first, hcondition, h⟩ := Reader.bind_eq_ok.1 h
  obtain ⟨thenBranch, second, hthen, h⟩ := Reader.bind_eq_ok.1 h
  obtain ⟨elseBranch, last, helse, h⟩ := Reader.bind_eq_ok.1 h
  cases h
  have hfirst := found.append (found_inParentheses hcondition) (hinner _ _ _ hthen)
  have hbranch := found.append hfirst (found.optional (.takeWord _) hinner helse)
  cases elseBranch with
  | none => simpa [Statement.faults, Statement.expressions] using hbranch
  | some branch => simpa [Statement.faults, Statement.expressions] using hbranch

theorem found_whileLoop {value : Statement} (h : whileLoop inner source = .ok value rest) :
    Found source value.faults value.expressions rest := by
  obtain ⟨condition, first, hcondition, h⟩ := Reader.bind_eq_ok.1 h
  obtain ⟨body, last, hbody, h⟩ := Reader.bind_eq_ok.1 h
  cases h
  rw [Statement.faults, Statement.expressions]
  exact found.append (found_inParentheses hcondition) (hinner _ _ _ hbody)

theorem found_forLoop {value : Statement} (h : forLoop inner source = .ok value rest) :
    Found source value.faults value.expressions rest := by
  obtain ⟨_, first, hopening, h⟩ := Reader.bind_eq_ok.1 h
  obtain ⟨control, second, hcontrol, h⟩ := Reader.bind_eq_ok.1 h
  obtain ⟨_, third, hclosing, h⟩ := Reader.bind_eq_ok.1 h
  obtain ⟨body, last, hbody, h⟩ := Reader.bind_eq_ok.1 h
  cases h
  rw [Statement.faults, Statement.expressions]
  exact found.behind (.symbol _) hopening
    (found.append (found.before (found_forControl hcontrol) (.symbol _) hclosing)
      (hinner _ _ _ hbody))

theorem found_catchClause {value : CatchClause} (h : catchClause inner source = .ok value rest) :
    Found source value.faults value.expressions rest := by
  obtain ⟨_, first, hopening, h⟩ := Reader.bind_eq_ok.1 h
  obtain ⟨modifiers, second, hmodifiers, h⟩ := Reader.bind_eq_ok.1 h
  obtain ⟨type, third, htype, h⟩ := Reader.bind_eq_ok.1 h
  obtain ⟨name, fourth, hname, h⟩ := Reader.bind_eq_ok.1 h
  obtain ⟨_, fifth, hclosing, h⟩ := Reader.bind_eq_ok.1 h
  obtain ⟨body, last, hbody, h⟩ := Reader.bind_eq_ok.1 h
  cases h
  rw [CatchClause.faults, typeRef_faults htype]
  exact found.behind (.symbol _) hopening (found.behind .modifiers hmodifiers
    (found.behind .typeRef htype (found.behind .identifier hname
      (found.behind (.symbol _) hclosing (found_blockOf hinner hbody)))))

theorem found_tryCatch {value : Statement} (h : tryCatch inner source = .ok value rest) :
    Found source value.faults value.expressions rest := by
  obtain ⟨body, first, hbody, h⟩ := Reader.bind_eq_ok.1 h
  obtain ⟨catches, second, hcatches, h⟩ := Reader.bind_eq_ok.1 h
  obtain ⟨cleanup, third, hcleanup, h⟩ := Reader.bind_eq_ok.1 h
  obtain ⟨_, last, hrequire, h⟩ := Reader.bind_eq_ok.1 h
  cases h
  have hclauses := found.optionals (.takeWord _)
    (fun source value rest h => found_catchClause hinner h) hcatches
  have hlast := found.optional (.takeWord _)
    (fun source value rest h => found_blockOf hinner h) hcleanup
  have hall := found.before (found.append (found_blockOf hinner hbody)
    (found.append hclauses hlast)) (.require _ _) hrequire
  cases cleanup with
  | none =>
    rw [Statement.faults, Statement.expressions, CatchClause.faultsAll_eq_flatMap,
      Statement.faultsAll_eq_flatMap, Statement.expressionsAll_eq_flatMap,
      CatchClause.expressionsAll_eq_flatMap]
    simpa [Block.faults, Block.expressions] using hall
  | some block =>
    rw [Statement.faults, Statement.expressions, CatchClause.faultsAll_eq_flatMap,
      Statement.faultsAll_eq_flatMap, Statement.expressionsAll_eq_flatMap,
      CatchClause.expressionsAll_eq_flatMap, Statement.faultsAll_eq_flatMap,
      Statement.expressionsAll_eq_flatMap, List.append_assoc]
    simpa [Block.faults, Block.expressions] using hall

end

theorem found_ended {value final : Statement} {faults : List RenderError}
    {items : List Expression} (hfound : Found source faults items middle)
    (hfaults : value.faults = faults) (hitems : value.expressions = items)
    (h : ended value middle = .ok final rest) :
    Found source final.faults final.expressions rest := by
  obtain ⟨_, last, hsemicolon, h⟩ := Reader.bind_eq_ok.1 h
  cases h
  rw [hfaults, hitems]
  exact found.before hfound (.symbol _) hsemicolon

theorem found_dml {value : Statement} (h : dml source = .ok value rest) :
    Found source value.faults value.expressions rest := by
  obtain ⟨operation, first, hoperation, h⟩ := Reader.bind_eq_ok.1 h
  obtain ⟨operand, second, hoperand, h⟩ := Reader.bind_eq_ok.1 h
  exact found_ended (found.behind .takeText hoperation (.one hoperand)) rfl rfl h

theorem found_simpleStatement {value : Statement} (h : simpleStatement source = .ok value rest) :
    Found source value.faults value.expressions rest := by
  obtain ⟨declared, first, hdeclared, h⟩ := Reader.bind_eq_ok.1 h
  have hfound := found_localVariables hdeclared
  cases declared with
  | some declaration =>
    exact found_ended hfound (by simp [Statement.faults]) (by simp [Statement.expressions]) h
  | none =>
    obtain ⟨expression, second, hexpression, h⟩ := Reader.bind_eq_ok.1 h
    exact found_ended (found.append hfound (.one hexpression)) rfl rfl h

/-- A statement covers its outermost expressions, and has no faults but theirs. -/
theorem found_statement : ∀ source value rest, statement source = .ok value rest →
    Found source value.faults value.expressions rest := by
  apply Reader.recursive_induction
  intro inner hinner source value rest h
  unfold statementRule at h
  obtain ⟨isBlock, start, hstart, h⟩ := Reader.bind_eq_ok.1 h
  obtain ⟨-, rfl⟩ := look_eq_ok.1 hstart
  split at h
  · obtain ⟨body, last, hbody, h⟩ := Reader.bind_eq_ok.1 h
    cases h
    rw [Statement.faults, Statement.expressions, Statement.faultsAll_eq_flatMap,
      Statement.expressionsAll_eq_flatMap]
    exact found_blockOf hinner hbody
  obtain ⟨isIf, first, hif, h⟩ := Reader.bind_eq_ok.1 h
  refine found.behind (.takeWord _) hif ?_
  split at h
  · exact found_ifElse hinner h
  obtain ⟨isWhile, second, hwhile, h⟩ := Reader.bind_eq_ok.1 h
  refine found.behind (.takeWord _) hwhile ?_
  split at h
  · exact found_whileLoop hinner h
  obtain ⟨isFor, third, hfor, h⟩ := Reader.bind_eq_ok.1 h
  refine found.behind (.takeWord _) hfor ?_
  split at h
  · exact found_forLoop hinner h
  obtain ⟨isTry, fourth, htry, h⟩ := Reader.bind_eq_ok.1 h
  refine found.behind (.takeWord _) htry ?_
  split at h
  · exact found_tryCatch hinner h
  obtain ⟨isReturn, fifth, hreturn, h⟩ := Reader.bind_eq_ok.1 h
  refine found.behind (.takeWord _) hreturn ?_
  split at h
  · obtain ⟨result, last, hresult, h⟩ := Reader.bind_eq_ok.1 h
    exact found_ended (found_optional (advances_unless _) hresult) rfl rfl h
  obtain ⟨isThrow, sixth, hthrow, h⟩ := Reader.bind_eq_ok.1 h
  refine found.behind (.takeWord _) hthrow ?_
  split at h
  · obtain ⟨thrown, last, hthrown, h⟩ := Reader.bind_eq_ok.1 h
    exact found_ended (.one hthrown) rfl rfl h
  obtain ⟨isBreak, seventh, hbreak, h⟩ := Reader.bind_eq_ok.1 h
  refine found.behind (.takeWord _) hbreak ?_
  split at h
  · exact found_ended (found.refl seventh) rfl rfl h
  obtain ⟨isContinue, eighth, hcontinue, h⟩ := Reader.bind_eq_ok.1 h
  refine found.behind (.takeWord _) hcontinue ?_
  split at h
  · exact found_ended (found.refl eighth) rfl rfl h
  obtain ⟨isDml, ninth, hdml, h⟩ := Reader.bind_eq_ok.1 h
  obtain ⟨-, rfl⟩ := look_eq_ok.1 hdml
  split at h
  · exact found_dml h
  · exact found_simpleStatement h

theorem found_block {body : Block} (h : block source = .ok body rest) :
    Found source (Block.faults body) (Block.expressions body) rest :=
  found_blockOf found_statement h

/-! ## Members -/

theorem parameter_faults : ∀ source value rest, parameter source = .ok value rest →
    value.type.faults = [] ∧ Found source [] [] rest := by
  intro source value rest h
  obtain ⟨_, first, hmodifiers, h⟩ := Reader.bind_eq_ok.1 h
  obtain ⟨_, second, htype, h⟩ := Reader.bind_eq_ok.1 h
  obtain ⟨_, third, hname, h⟩ := Reader.bind_eq_ok.1 h
  cases h
  exact ⟨typeRef_faults htype, found.behind .modifiers hmodifiers (found.behind .typeRef htype
    (found.advance .identifier hname))⟩

theorem found_parameters {values : List Parameter} (h : parameters source = .ok values rest) :
    Found source (Parameter.faultsAll values) [] rest := by
  obtain ⟨_, first, hopening, h⟩ := Reader.bind_eq_ok.1 h
  refine found.behind (.symbol _) hopening ?_
  obtain ⟨empty, second, hempty, h⟩ := Reader.bind_eq_ok.1 h
  refine found.behind (.takeSymbol _) hempty ?_
  split at h
  · cases h
    exact found.refl _
  · obtain ⟨items, third, hitems, h⟩ := Reader.bind_eq_ok.1 h
    obtain ⟨_, last, hclosing, h⟩ := Reader.bind_eq_ok.1 h
    cases h
    have hrule : ∀ source value rest, parameter source = .ok value rest →
        Found source value.type.faults ((fun _ => []) value) rest := by
      intro source value rest h
      obtain ⟨hfaults, hfound⟩ := parameter_faults _ _ _ h
      rw [hfaults]
      exact hfound
    have hrow := found.separated (Advances.takeSymbol _) hrule hitems
    rw [List.flatMap_eq_nil_iff.2 (fun _ _ => rfl)] at hrow
    exact found.before hrow (.symbol _) hclosing

theorem found_returnType {value : Option TypeRef} (h : returnType source = .ok value rest) :
    TypeRef.faultsOf value = [] ∧ Found source [] [] rest := by
  have hadvance : Advances returnType :=
    Advances.optional ((Advances.takeWord _).bind fun _ => .pure _) .typeRef
  refine ⟨?_, found.advance hadvance h⟩
  cases value with
  | none => rfl
  | some type =>
    obtain ⟨middle, -, htype⟩ := Reader.optional_eq_some.1 h
    simpa [TypeRef.faultsOf] using typeRef_faults htype

theorem found_bodyOrSemicolon {body : Option Block} (h : bodyOrSemicolon source = .ok body rest) :
    Found source (Block.faultsOf body) (Block.expressionsOf body) rest :=
  found.optional ((Advances.takeSymbol _).bind fun _ => .pure _)
    (fun _ _ _ => found_block) h

theorem advances_accessorKind : Advances accessorKind :=
  (Advances.takeWord _).bind fun _ => .ite (.pure _) ((Advances.takeWord _).bind fun _ =>
    .ite (.pure _) (.fail _))

theorem found_accessor : ∀ source value rest, accessor source = .ok value rest →
    Found source value.faults value.expressions rest := by
  intro source value rest h
  obtain ⟨_, first, hmodifiers, h⟩ := Reader.bind_eq_ok.1 h
  obtain ⟨_, second, hkind, h⟩ := Reader.bind_eq_ok.1 h
  obtain ⟨_, third, hbody, h⟩ := Reader.bind_eq_ok.1 h
  cases h
  exact found.behind .modifiers hmodifiers (found.behind advances_accessorKind hkind
    (found_bodyOrSemicolon hbody))

theorem found_braced {α : Type} {item : Grammar α} {values : List α}
    {faults : α → List RenderError} {items : α → List Expression}
    (hitem : ∀ source value rest, item source = .ok value rest →
      Found source (faults value) (items value) rest)
    (h : braced item source = .ok values rest) :
    Found source (values.flatMap faults) (values.flatMap items) rest := by
  obtain ⟨_, first, hopening, h⟩ := Reader.bind_eq_ok.1 h
  obtain ⟨_, second, hitems, h⟩ := Reader.bind_eq_ok.1 h
  obtain ⟨_, last, hclosing, h⟩ := Reader.bind_eq_ok.1 h
  cases h
  exact found.behind (.symbol _) hopening
    (found.before (found.optionals (advances_unless _) hitem hitems) (.symbol _) hclosing)

theorem found_constructor {modifiers : List Modifier} {value : Member}
    (h : constructor modifiers source = .ok value rest) :
    Found source value.faults value.expressions rest := by
  obtain ⟨name, first, hname, h⟩ := Reader.bind_eq_ok.1 h
  obtain ⟨parameters, second, hparameters, h⟩ := Reader.bind_eq_ok.1 h
  obtain ⟨body, last, hbody, h⟩ := Reader.bind_eq_ok.1 h
  cases h
  have hne : name.isEmpty = false := by
    obtain ⟨_, _, _, hname⟩ := Reader.bind_eq_ok.1 hname
    obtain ⟨_, _, _, hname⟩ := Reader.bind_eq_ok.1 hname
    cases hname
    rfl
  rw [Member.faults, Member.expressions, Constructor.faults, if_neg (by simp [hne])]
  exact found.behind (.separated (.takeSymbol _) .identifier) hname
    (found.append (found_parameters hparameters) (found_block hbody))

theorem found_variableMember {modifiers : List Modifier} {type : TypeRef} {name : Text}
    {value : Member} (htype : type.faults = [])
    (h : variableMember modifiers type name source = .ok value rest) :
    Found source value.faults value.expressions rest := by
  obtain ⟨isProperty, first, hproperty, h⟩ := Reader.bind_eq_ok.1 h
  refine found.behind (.atSymbol _) hproperty ?_
  split at h
  · obtain ⟨accessors, last, haccessors, h⟩ := Reader.bind_eq_ok.1 h
    cases h
    rw [Member.faults, Member.expressions, Property.faults, htype]
    exact found_braced found_accessor haccessors
  · obtain ⟨declarators, second, hdeclarators, h⟩ := Reader.bind_eq_ok.1 h
    obtain ⟨_, last, hsemicolon, h⟩ := Reader.bind_eq_ok.1 h
    cases h
    obtain ⟨hne, hfound⟩ := found_declarators hdeclarators
    rw [Member.faults, Member.expressions, VariableDeclaration.faults_eq _ _ htype hne]
    exact found.before hfound (.symbol _) hsemicolon

theorem found_typedMember {modifiers : List Modifier} {value : Member}
    (h : typedMember modifiers source = .ok value rest) :
    Found source value.faults value.expressions rest := by
  obtain ⟨type, first, htype, h⟩ := Reader.bind_eq_ok.1 h
  obtain ⟨hfaults, hfound⟩ := found_returnType htype
  refine found.append hfound ?_
  obtain ⟨name, second, hname, h⟩ := Reader.bind_eq_ok.1 h
  refine found.behind .identifier hname ?_
  obtain ⟨isMethod, third, hmethod, h⟩ := Reader.bind_eq_ok.1 h
  refine found.behind (.atSymbol _) hmethod ?_
  split at h
  · obtain ⟨parameters, fourth, hparameters, h⟩ := Reader.bind_eq_ok.1 h
    obtain ⟨body, last, hbody, h⟩ := Reader.bind_eq_ok.1 h
    cases h
    rw [Member.faults, Member.expressions, Method.faults, hfaults]
    exact found.append (found_parameters hparameters) (found_bodyOrSemicolon hbody)
  · cases type with
    | none => cases h
    | some type => exact found_variableMember (by simpa [TypeRef.faultsOf] using hfaults) h

theorem found_interfaceMember : ∀ source value rest, interfaceMember source = .ok value rest →
    Found source value.faults value.expressions rest := by
  intro source value rest h
  obtain ⟨isEmpty, first, hempty, h⟩ := Reader.bind_eq_ok.1 h
  refine found.behind (.takeSymbol _) hempty ?_
  split at h
  · cases h
    exact found.refl _
  · obtain ⟨modifiers, second, hmodifiers, h⟩ := Reader.bind_eq_ok.1 h
    obtain ⟨type, third, htype, h⟩ := Reader.bind_eq_ok.1 h
    obtain ⟨name, fourth, hname, h⟩ := Reader.bind_eq_ok.1 h
    obtain ⟨parameters, fifth, hparameters, h⟩ := Reader.bind_eq_ok.1 h
    obtain ⟨_, last, hsemicolon, h⟩ := Reader.bind_eq_ok.1 h
    cases h
    obtain ⟨hfaults, hfound⟩ := found_returnType htype
    have hrow := found.before (found_parameters hparameters) (.symbol _) hsemicolon
    rw [Member.faults, Member.expressions, Method.faults, hfaults]
    simpa [Block.faultsOf, Block.expressionsOf] using
      found.behind .modifiers hmodifiers (found.append hfound (found.behind .identifier hname hrow))

/-! ## Declarations -/

theorem advances_constants : Advances constants := by
  have hfurther : Advances furtherConstant := by
    refine (Advances.takeSymbol _).bind fun found => ?_
    exact .ite (.optional (advances_unless _) .identifier) (.pure _)
  refine (Advances.atSymbol _).bind fun found => .ite (.pure _) ?_
  refine Advances.identifier.bind fun first => ?_
  exact (Advances.many hfurther).bind fun others => .pure _

theorem found_typesAfter {keyword : Text} {types : List TypeRef}
    (h : typesAfter keyword source = .ok types rest) :
    TypeRef.faultsAll types = [] ∧ Found source [] [] rest := by
  have hadvance : Advances (typesAfter keyword) :=
    (Advances.optional (.takeWord _) (.separated (.takeSymbol _) .typeRef)).bind fun _ => .pure _
  refine ⟨?_, found.advance hadvance h⟩
  obtain ⟨list, middle, hlist, h⟩ := Reader.bind_eq_ok.1 h
  cases h
  cases list with
  | none => rfl
  | some list =>
    obtain ⟨start, -, hlist⟩ := Reader.optional_eq_some.1 hlist
    have hwell := (separated_ok (fun _ _ => comma_true) (fun _ _ h => (takeSymbol_false h).1)
      (fun source type rest h => ⟨(typeRef_ok source type rest h).1,
        (typeRef_ok source type rest h).2.1⟩) hlist).2.1
    exact TypeRef.faultsAll_eq_nil fun type htype => type.faults_of_wellFormed (hwell type htype)

section

variable {inner : Grammar Member}
  (hinner : ∀ source value rest, inner source = .ok value rest →
    Found source value.faults value.expressions rest)

include hinner

theorem found_classType {modifiers : List Modifier} {value : Declaration}
    (h : classType inner modifiers source = .ok value rest) :
    Found source value.faults value.expressions rest := by
  obtain ⟨name, first, hname, h⟩ := Reader.bind_eq_ok.1 h
  obtain ⟨parent, second, hparent, h⟩ := Reader.bind_eq_ok.1 h
  obtain ⟨interfaces, third, hinterfaces, h⟩ := Reader.bind_eq_ok.1 h
  obtain ⟨body, last, hbody, h⟩ := Reader.bind_eq_ok.1 h
  cases h
  obtain ⟨hfaults, hfound⟩ := found_typesAfter hinterfaces
  have hextends : TypeRef.faultsAll parent.toList = [] := by
    cases parent with
    | none => rfl
    | some type =>
      obtain ⟨_, -, htype⟩ := Reader.optional_eq_some.1 hparent
      exact TypeRef.faultsAll_eq_nil (List.forall_mem_singleton.2 (typeRef_faults htype))
  rw [Declaration.faults, Declaration.expressions, hextends, hfaults, Member.faultsAll_eq_flatMap,
    Member.expressionsAll_eq_flatMap]
  exact found.behind .identifier hname (found.behind (.optional (.takeWord _) .typeRef) hparent
    (found.append hfound (found_braced hinner hbody)))

theorem found_declarationOf {modifiers : List Modifier} {value : Declaration}
    (h : declarationOf inner modifiers source = .ok value rest) :
    Found source value.faults value.expressions rest := by
  obtain ⟨isClass, first, hclass, h⟩ := Reader.bind_eq_ok.1 h
  refine found.behind (.takeWord _) hclass ?_
  split at h
  · exact found_classType hinner h
  obtain ⟨isInterface, second, hinterface, h⟩ := Reader.bind_eq_ok.1 h
  refine found.behind (.takeWord _) hinterface ?_
  split at h
  · obtain ⟨name, third, hname, h⟩ := Reader.bind_eq_ok.1 h
    obtain ⟨parents, fourth, hparents, h⟩ := Reader.bind_eq_ok.1 h
    obtain ⟨body, last, hbody, h⟩ := Reader.bind_eq_ok.1 h
    cases h
    obtain ⟨hfaults, hfound⟩ := found_typesAfter hparents
    rw [Declaration.faults, Declaration.expressions, hfaults, Member.faultsAll_eq_flatMap,
      Member.expressionsAll_eq_flatMap]
    exact found.behind .identifier hname
      (found.append hfound (found_braced found_interfaceMember hbody))
  obtain ⟨isEnum, third, henum, h⟩ := Reader.bind_eq_ok.1 h
  refine found.behind (.takeWord _) henum ?_
  split at h
  · obtain ⟨name, fourth, hname, h⟩ := Reader.bind_eq_ok.1 h
    obtain ⟨_, fifth, hopening, h⟩ := Reader.bind_eq_ok.1 h
    obtain ⟨constants, sixth, hconstants, h⟩ := Reader.bind_eq_ok.1 h
    obtain ⟨_, last, hclosing, h⟩ := Reader.bind_eq_ok.1 h
    cases h
    exact found.behind .identifier hname (found.behind (.symbol _) hopening
      (found.behind advances_constants hconstants (found.advance (.symbol _) hclosing)))
  · cases h

theorem found_modifiedMember {value : Member} (h : modifiedMember inner source = .ok value rest) :
    Found source value.faults value.expressions rest := by
  obtain ⟨modifiers, first, hmodifiers, h⟩ := Reader.bind_eq_ok.1 h
  refine found.behind .modifiers hmodifiers ?_
  obtain ⟨stream, second, hget, h⟩ := Reader.bind_eq_ok.1 h
  cases hget
  split at h
  · obtain ⟨nested, last, hnested, h⟩ := Reader.bind_eq_ok.1 h
    cases h
    exact found_declarationOf hinner hnested
  · split at h
    · exact found_constructor h
    · exact found_typedMember h

end

theorem found_member : ∀ source value rest, member source = .ok value rest →
    Found source value.faults value.expressions rest := by
  apply Reader.recursive_induction
  intro inner hinner source value rest h
  obtain ⟨stream, start, hget, h⟩ := Reader.bind_eq_ok.1 h
  cases hget
  split at h
  · obtain ⟨_, last, hskip, h⟩ := Reader.bind_eq_ok.1 h
    cases h
    exact found.advance (.skip 1) hskip
  split at h
  · obtain ⟨_, first, hskip, h⟩ := Reader.bind_eq_ok.1 h
    obtain ⟨body, last, hbody, h⟩ := Reader.bind_eq_ok.1 h
    cases h
    exact found.behind (.skip 1) hskip (found_block hbody)
  split at h
  · obtain ⟨body, last, hbody, h⟩ := Reader.bind_eq_ok.1 h
    cases h
    exact found_block hbody
  · exact found_modifiedMember hinner h

/-- A compilation unit covers its outermost expressions, and has no faults but theirs. -/
theorem found_compilationUnit {unit : CompilationUnit}
    (h : compilationUnit source = .ok unit rest) :
    Found source unit.faults unit.expressions rest := by
  obtain ⟨modifiers, first, hmodifiers, h⟩ := Reader.bind_eq_ok.1 h
  obtain ⟨declaration, last, hdeclaration, h⟩ := Reader.bind_eq_ok.1 h
  cases h
  exact found.behind .modifiers hmodifiers (found_declarationOf found_member hdeclaration)

/-! ## Whole sources -/

/-- What is read from a whole source is read from its tokens, all of them. -/
theorem readSource_eq_ok {α : Type} {rule : Grammar α} {text : Text} {value : α} :
    readSource rule text = .ok value ↔ ∃ stream final, TokenStream.ofSource text = .ok stream ∧
      rule stream = .ok value final ∧ final.tokens = [] := by
  unfold readSource
  cases hstream : TokenStream.ofSource text with
  | error error => simp [bind, Except.bind]
  | ok stream =>
    show ((whole rule).run stream).1 = .ok value ↔ _
    unfold run whole
    constructor
    · intro h
      cases hrun : (rule >>= fun value => endOfInput >>= fun _ => pure value) stream with
      | error failure final => rw [hrun] at h; cases h
      | ok result final =>
        rw [hrun] at h
        cases h
        obtain ⟨_, middle, hvalue, hrun⟩ := Reader.bind_eq_ok.1 hrun
        obtain ⟨_, last, hend, hrun⟩ := Reader.bind_eq_ok.1 hrun
        cases hrun
        unfold endOfInput at hend
        obtain ⟨isEnd, again, hlook, hend⟩ := Reader.bind_eq_ok.1 hend
        obtain ⟨rfl, rfl⟩ := look_eq_ok.1 hlook
        obtain ⟨hempty, rfl⟩ := require_eq_ok.1 hend
        exact ⟨stream, middle, rfl, hvalue, List.isEmpty_iff.1 hempty⟩
    · rintro ⟨stream', final, hsame, hrule, hend⟩
      cases hsame
      have hrun : (rule >>= fun value => endOfInput >>= fun _ => pure value) stream =
          .ok value final := by
        rw [Reader.bind_of_ok hrule]
        have hempty : endOfInput final = .ok () final := by
          unfold endOfInput
          rw [Reader.bind_of_ok (look_eq_ok.2 ⟨rfl, rfl⟩), hend]
          rfl
        rw [Reader.bind_of_ok hempty]
        rfl
      rw [hrun]

end Grammar

end ApexLayout
