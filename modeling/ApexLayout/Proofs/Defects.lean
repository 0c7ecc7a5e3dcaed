import Mathlib.Logic.Basic
import ApexLayout.Proofs.Faults
import ApexLayout.Proofs.Node

/-!
Which trees are not printed.

A node is `Defective` when it is a query or lacks what every source gives it. Printing a node of any
sort fails exactly when a defective one stands in it, and the error that is reported does not depend
on the surroundings (`Node.refused_iff`).
-/

namespace ApexLayout

namespace Node

/-- The text of a node. -/
def render (context : Context) : Node → Rendered
  | type reference => reference.render
  | primary leaf => leaf.render
  | expression tree => tree.render context
  | link step => step.render context
  | creatorBody body => body.render context
  | declarator item => item.render context
  | field declared => (Member.field declared).render context
  | localVariable declared => declared.render context .localVariable
  | forInit init => init.render context
  | forControl control => control.render context
  | statement tree => tree.render context
  | catchClause clause => clause.render context
  | block body => Block.render context body
  | parameter item => item.render
  | method body => body.render context
  | constructor body => body.render context
  | accessor body => body.render context
  | property body => body.render context
  | initializer body => body.render context
  | declaration tree => tree.render context
  | member tree => tree.render context
  | compilationUnit unit => unit.render context

/-- A node that is never printed. -/
def Defective : Node → Prop
  | type reference => reference.segments = []
  | primary (.query _) => True
  | expression (.assignment _ operator _) => operator = []
  | expression (.binary _ operator _ _) => operator = []
  | expression (.unary _ operator _) => operator = []
  | link step => step.member = []
  | field declared => declared.declarators = []
  | localVariable declared => declared.declarators = []
  | constructor body => body.name = []
  | _ => False

/-- The faults of a node, in the order of its parts. -/
def faults : Node → List RenderError
  | type reference => reference.faults
  | primary leaf => leaf.faults
  | expression tree => tree.faults
  | link step => step.faults
  | creatorBody body => body.faults
  | declarator item => item.faults
  | field declared => declared.faults .field
  | localVariable declared => declared.faults .localVariable
  | forInit init => init.faults
  | forControl control => control.faults
  | statement tree => tree.faults
  | catchClause clause => clause.faults
  | block body => Block.faults body
  | parameter item => item.type.faults
  | method body => body.faults
  | constructor body => body.faults
  | accessor body => body.faults
  | property body => body.faults
  | initializer body => Block.faults body.body
  | declaration tree => tree.faults
  | member tree => tree.faults
  | compilationUnit unit => unit.faults

theorem reports_render (context : Context) (node : Node) :
    Reports (node.render context) node.faults := by
  cases node with
  | type reference => exact reference.reports_render
  | primary leaf => exact leaf.reports_render
  | expression tree => exact tree.reports_render context
  | link step => exact step.reports_render context
  | creatorBody body => exact body.reports_render context
  | declarator item => exact item.reports_render context
  | field declared => exact (Member.field declared).reports_render context
  | localVariable declared => exact declared.reports_render context .localVariable
  | forInit init => exact init.reports_render context
  | forControl control => exact control.reports_render context
  | statement tree => exact tree.reports_render context
  | catchClause clause => exact clause.reports_render context
  | block body => exact Block.reports_render context body
  | parameter item => exact item.type.reports_render.map
  | method body => exact body.reports_render context
  | constructor body => exact body.reports_render context
  | accessor body => exact body.reports_render context
  | property body => exact body.reports_render context
  | initializer body => exact body.reports_render context
  | declaration tree => exact tree.reports_render context
  | member tree => exact tree.reports_render context
  | compilationUnit unit => exact unit.reports_render context

/-! ## Faults of a node and of its children -/

/-- A defective node has a fault. -/
theorem faults_ne_nil {node : Node} (h : node.Defective) : node.faults ≠ [] := by
  cases node with
  | type reference =>
    obtain ⟨segments, suffix⟩ := reference
    obtain rfl : segments = [] := h
    exact List.cons_ne_nil _ _
  | primary leaf =>
    cases leaf with
    | query embedded => exact List.cons_ne_nil _ _
    | _ => exact h.elim
  | expression tree =>
    cases tree with
    | assignment target operator value =>
      obtain rfl : operator = [] := h
      exact List.cons_ne_nil _ _
    | binary kind operator left right =>
      obtain rfl : operator = [] := h
      exact List.cons_ne_nil _ _
    | unary fixity operator operand =>
      obtain rfl : operator = [] := h
      exact List.cons_ne_nil _ _
    | _ => exact h.elim
  | link step =>
    obtain ⟨navigation, member, arguments⟩ := step
    obtain rfl : member = [] := h
    exact List.cons_ne_nil _ _
  | field declared =>
    obtain ⟨modifiers, reference, declarators⟩ := declared
    obtain rfl : declarators = [] := h
    exact List.append_ne_nil_of_right_ne_nil _ (List.cons_ne_nil _ _)
  | localVariable declared =>
    obtain ⟨modifiers, reference, declarators⟩ := declared
    obtain rfl : declarators = [] := h
    exact List.append_ne_nil_of_right_ne_nil _ (List.cons_ne_nil _ _)
  | constructor body =>
    obtain ⟨modifiers, name, parameters, body⟩ := body
    obtain rfl : name = [] := h
    exact List.cons_ne_nil _ _
  | _ => exact h.elim

/-- Variables that are named have the faults of their children. -/
theorem faults_variables {declared : VariableDeclaration} (kind : NodeKind)
    (h : declared.declarators ≠ []) : declared.faults kind =
      (type declared.type :: declared.declarators.map declarator).flatMap faults := by
  rw [VariableDeclaration.faults_eq_append kind h, List.flatMap_cons, List.flatMap_map]
  rfl

/-- Any other node has the faults of its children. -/
theorem faults_eq_flatMap {node : Node} (h : ¬ node.Defective) :
    node.faults = node.children.flatMap faults := by
  cases node with
  | type reference =>
    rw [faults, TypeRef.faults_eq_flatMap h, children, List.flatMap_map]
    rfl
  | primary leaf =>
    cases leaf with
    | query embedded => exact absurd trivial h
    | _ => simp [faults, Primary.faults, children]
  | expression tree =>
    cases tree with
    | assignment target operator value =>
      simp [faults, Expression.faults, children, operatorFaults_eq_nil _ h]
    | binary kind operator left right =>
      simp [faults, Expression.faults, children, operatorFaults_eq_nil _ h]
    | unary fixity operator operand =>
      simp [faults, Expression.faults, children, operatorFaults_eq_nil _ h]
    | call name arguments =>
      simp [faults, Expression.faults, children, Expression.faultsAll_eq_flatMap, List.flatMap_map]
    | _ => simp [faults, Expression.faults, children]
  | link step =>
    rw [faults, Link.faults_eq_flatMap h, children, List.flatMap_map]
    rfl
  | creatorBody body =>
    rw [faults, CreatorBody.faults_eq_flatMap, children, List.flatMap_map]
    rfl
  | field declared => exact faults_variables .field h
  | localVariable declared => exact faults_variables .localVariable h
  | forInit init =>
    cases init <;>
      simp [faults, ForInit.faults, children, Expression.faultsAll_eq_flatMap, List.flatMap_map]
  | forControl control =>
    cases control <;>
      simp [faults, ForControl.faults, children, Expression.faultsAll_eq_flatMap, List.flatMap_map]
  | statement tree =>
    cases tree with
    | ifElse condition thenBranch elseBranch =>
      cases elseBranch <;> simp [faults, Statement.faults, children]
    | tryCatch body catches cleanup =>
      cases cleanup <;>
        simp [faults, Statement.faults, children, Block.faults, Statement.faultsAll_eq_flatMap,
          CatchClause.faultsAll_eq_flatMap, List.flatMap_map]
    | block body => simp [faults, Statement.faults, children, Block.faults, Statement.faultsAll_eq_flatMap]
    | _ => simp [faults, Statement.faults, children, List.flatMap_map]
  | constructor body =>
    have hname : body.name ≠ [] := h
    rw [faults, Constructor.faults, if_neg (by simpa using hname)]
    simp [faults, Parameter.faultsAll, children, List.flatMap_map]
  | method body =>
    simp [faults, Method.faults, TypeRef.faultsOf, Parameter.faultsAll, Block.faultsOf, children,
      List.flatMap_map]
  | declaration tree =>
    cases tree <;>
      simp [faults, Declaration.faults, children, TypeRef.faultsAll_eq_flatMap,
        Member.faultsAll_eq_flatMap, List.flatMap_map]
  | member tree => cases tree <;> simp [faults, Member.faults, children]
  | declarator item => simp [faults, Declarator.faults, children, List.flatMap_map]
  | catchClause clause => simp [faults, CatchClause.faults, children]
  | block body => simp [faults, Block.faults, children, List.flatMap_map]
  | parameter item => simp [faults, children]
  | accessor body => simp [faults, Accessor.faults, Block.faultsOf, children, List.flatMap_map]
  | property body => simp [faults, Property.faults, children, List.flatMap_map]
  | initializer body => simp [faults, children]
  | compilationUnit unit => simp [faults, CompilationUnit.faults, children]

/-- A node has no faults when no defective node stands in it. -/
theorem faults_eq_nil_iff (node : Node) :
    node.faults = [] ↔ ∀ inner, Inside inner node → ¬ inner.Defective := by
  induction node using induction with
  | step node ih =>
    -- a defective node has a fault of its own, any other one has those of its children
    by_cases hdefect : node.Defective
    · exact iff_of_false (faults_ne_nil hdefect) fun hall => hall node .root hdefect
    rw [faults_eq_flatMap hdefect, List.flatMap_eq_nil_iff]
    constructor
    · intro hchildren inner hinside
      cases hinside with
      | root => exact hdefect
      | under hmem hinside => exact (ih _ hmem).1 (hchildren _ hmem) inner hinside
    · intro hall child hmem
      exact (ih child hmem).2 fun inner hinside => hall inner (.under hmem hinside)

/-! ## The outcome of printing -/

/-- Printing a node of any sort fails exactly when a defective node stands in it, and with the same
error in all surroundings. -/
theorem refused_iff (node : Node) :
    (∀ context, (∃ error, node.render context = .error error) ↔
      ∃ inner, Inside inner node ∧ inner.Defective) ∧
    ∀ first second error, node.render first = .error error ↔ node.render second = .error error := by
  refine ⟨fun context => ?_, fun first second error => ?_⟩
  · calc (∃ error, node.render context = .error error)
        ↔ ∃ error, node.faults.head? = some error :=
          exists_congr (node.reports_render context).eq_error_iff
      _ ↔ node.faults ≠ [] := by
          rw [← Option.isSome_iff_exists, List.isSome_head?]
      _ ↔ ∃ inner, Inside inner node ∧ inner.Defective := by
          simp only [Ne, faults_eq_nil_iff, not_forall, not_not, exists_prop]
  · rw [(node.reports_render first).eq_error_iff, (node.reports_render second).eq_error_iff]

end Node

end ApexLayout
