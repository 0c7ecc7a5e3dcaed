import ApexLayout.Layout.Declaration
import Mathlib.Data.List.Forall2

/-!
Runs of the printer, taken apart.

What a run of several steps gives is found by taking its first step off. A list of nodes is printed
node by node, so each of its texts is the text of one node, and the list is printed alike wherever
its nodes are.
-/

namespace ApexLayout

namespace Rendered

variable {α β : Type}

theorem bind_eq_ok {first : Except RenderError α} {next : α → Except RenderError β} {b : β} :
    first >>= next = .ok b ↔ ∃ a, first = .ok a ∧ next a = .ok b := by
  cases first with
  | error error =>
    constructor
    · intro h
      cases h
    · rintro ⟨_, h, -⟩
      cases h
  | ok a =>
    constructor
    · exact fun h => ⟨a, rfl, h⟩
    · rintro ⟨_, h, h'⟩
      cases h
      exact h'

/-- The texts of a list are those of its items. -/
theorem mapM_eq_ok {render : α → Except RenderError β} {items : List α} {texts : List β}
    (h : items.mapM render = .ok texts) :
    List.Forall₂ (fun item text => render item = .ok text) items texts := by
  induction items generalizing texts with
  | nil =>
    cases h
    exact .nil
  | cons item rest ih =>
    rw [List.mapM_cons] at h
    obtain ⟨first, hfirst, h⟩ := bind_eq_ok.1 h
    obtain ⟨others, hothers, h⟩ := bind_eq_ok.1 h
    cases h
    exact .cons hfirst (ih hothers)

/-- What holds of the text of every item holds of every text. -/
theorem mapM_forall {render : α → Except RenderError β} {items : List α} {texts : List β}
    {claim : β → Prop} (h : items.mapM render = .ok texts)
    (hitems : ∀ item ∈ items, ∀ text, render item = .ok text → claim text) :
    ∀ text ∈ texts, claim text := by
  have hrow := mapM_eq_ok h
  clear h
  induction hrow with
  | nil => exact nofun
  | cons hitem _ ih =>
    obtain ⟨hfirst, hothers⟩ := List.forall_mem_cons.1 hitems
    exact List.forall_mem_cons.2 ⟨hfirst _ hitem, ih hothers⟩

/-- A list is printed if its items are. -/
theorem exists_mapM {render : α → Except RenderError β} {items : List α} {claim : α → β → Prop}
    (h : ∀ item ∈ items, ∃ text, render item = .ok text ∧ claim item text) :
    ∃ texts, items.mapM render = .ok texts ∧ List.Forall₂ claim items texts := by
  induction items with
  | nil => exact ⟨[], rfl, .nil⟩
  | cons item rest ih =>
    obtain ⟨⟨text, htext, hitem⟩, hrest⟩ := List.forall_mem_cons.1 h
    obtain ⟨texts, htexts, hothers⟩ := ih hrest
    refine ⟨text :: texts, ?_, .cons hitem hothers⟩
    rw [List.mapM_cons, htext, htexts]
    rfl

/-- A list is printed alike in two ways if its items are. -/
theorem mapM_congr {render other : α → Except RenderError β} {items : List α}
    (h : ∀ item ∈ items, render item = other item) : items.mapM render = items.mapM other := by
  induction items with
  | nil => rfl
  | cons item rest ih =>
    obtain ⟨hitem, hrest⟩ := List.forall_mem_cons.1 h
    rw [List.mapM_cons, List.mapM_cons, hitem, ih hrest]

theorem option_eq_ok {render : α → Except RenderError β} {item : Option α} {text : Option β}
    (h : item.mapM render = .ok text) :
    item = none ∧ text = none ∨ ∃ value written, item = some value ∧ text = some written ∧
      render value = .ok written := by
  cases item with
  | none =>
    cases h
    exact .inl ⟨rfl, rfl⟩
  | some value =>
    obtain ⟨written, hwritten, h⟩ := bind_eq_ok.1 h
    cases h
    exact .inr ⟨value, written, rfl, rfl, hwritten⟩

end Rendered

/-! ## Lists of nodes -/

theorem TypeRef.renderAll_eq_mapM (types : List TypeRef) :
    TypeRef.renderAll types = types.mapM TypeRef.render := by
  induction types with
  | nil => rfl
  | cons type rest ih => rw [TypeRef.renderAll, ih, List.mapM_cons]

theorem TypeName.renderAll_eq_mapM (names : List TypeName) :
    TypeName.renderAll names = names.mapM TypeName.render := by
  induction names with
  | nil => rfl
  | cons name rest ih => rw [TypeName.renderAll, ih, List.mapM_cons]

theorem Expression.renderAll_eq_mapM (context : Context) (items : List Expression) :
    Expression.renderAll context items =
      items.mapM (Expression.renderWithin context none) := by
  induction items with
  | nil => rfl
  | cons item rest ih => rw [Expression.renderAll, ih, List.mapM_cons]

theorem Expression.renderAll_eq_ok {context : Context} {items : List Expression}
    {texts : List Text} (h : Expression.renderAll context items = .ok texts) :
    List.Forall₂ (fun item text => item.renderWithin context none = .ok text) items texts := by
  rw [Expression.renderAll_eq_mapM] at h
  exact Rendered.mapM_eq_ok h

/-- The text of a map entry. -/
def Expression.renderEntry (context : Context) (entry : Expression × Expression) : Rendered := do
  let keyText ← entry.1.renderWithin context none
  let valueText ← entry.2.renderWithin context none
  return keyText ++ " => " ++ valueText

theorem Expression.renderEntries_eq_mapM (context : Context)
    (items : List (Expression × Expression)) :
    Expression.renderEntries context items = items.mapM (Expression.renderEntry context) := by
  induction items with
  | nil => rfl
  | cons item rest ih =>
    rw [Expression.renderEntries, ih, List.mapM_cons, Expression.renderEntry]
    simp only [bind_assoc, pure_bind]

theorem Statement.renderAll_eq_mapM (context : Context) (body : List Statement) :
    Statement.renderAll context body = body.mapM (Statement.render context) := by
  induction body with
  | nil => rfl
  | cons statement rest ih => rw [Statement.renderAll, ih, List.mapM_cons]

theorem Member.renderAll_eq_mapM (context : Context) (body : List Member) :
    Member.renderAll context body = body.mapM (Member.render context) := by
  induction body with
  | nil => rfl
  | cons member rest ih => rw [Member.renderAll, ih, List.mapM_cons]

end ApexLayout
