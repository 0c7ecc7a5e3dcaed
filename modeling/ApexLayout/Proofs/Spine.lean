import ApexLayout.Layout.Expression

/-!
The spine of a chain.

A chain is a tree that leans to the left: its receiver may be a chain again. The spine lists the
links of such a tree in source order, as a walk down the receivers collects them, and nothing is lost
by it. So a chain may be counted and printed along the list instead of down the tree
(`Expression.spine_chain`).
-/

namespace ApexLayout

namespace Expression

/-- Whether the expression is a chain. -/
def isChain : Expression → Bool
  | .chain .. => true
  | _ => false

/-- The innermost receiver of a chain with its links in front of those that are collected already:
a walk down the receivers, from the last link to the first. -/
def collect : Expression → List Link → Expression × List Link
  | .chain receiver link, links => collect receiver (link :: links)
  | other, links => (other, links)

/-! ## The spine and the tree -/

/-- The innermost receiver is no chain. -/
theorem isChain_spine (expression : Expression) : expression.spine.1.isChain = false := by
  fun_induction spine expression with
  | case1 receiver link inner ih => exact ih
  | case2 other hother =>
    cases other with
    | chain receiver link => exact absurd rfl (hother receiver link)
    | _ => rfl

@[simp] theorem addLinks_concat (receiver : Expression) (links : List Link) (last : Link) :
    receiver.addLinks (links ++ [last]) = .chain (receiver.addLinks links) last :=
  List.foldl_append ..

/-- Adding the links again gives back the tree. -/
theorem addLinks_spine (expression : Expression) :
    expression.spine.1.addLinks expression.spine.2 = expression := by
  fun_induction spine expression with
  | case1 receiver link inner ih => rw [addLinks_concat, ih]
  | case2 => rfl

/-- The walk down the receivers collects the spine. -/
theorem collect_eq (expression : Expression) (links : List Link) :
    expression.collect links = (expression.spine.1, expression.spine.2 ++ links) := by
  fun_induction collect expression links with
  | case1 links receiver link ih => rw [ih, spine, List.append_assoc]; rfl
  | case2 other links hother =>
    rw [spine]
    · rfl
    · exact hother

/-! ## Counting along the spine -/

theorem linkCount_eq (expression : Expression) :
    expression.linkCount = expression.spine.2.length := by
  fun_induction spine expression with
  | case1 receiver link inner ih => rw [linkCount, ih, List.length_append]; rfl
  | case2 other hother =>
    rw [linkCount]
    · rfl
    · exact hother

theorem callCount_eq (expression : Expression) :
    expression.callCount = expression.spine.2.countP Link.isCall := by
  fun_induction spine expression with
  | case1 receiver link inner ih =>
    rw [callCount, ih, List.countP_append, List.countP_singleton]
  | case2 other hother =>
    rw [callCount]
    · rfl
    · exact hother

/-! ## Printing along the spine -/

/-- Prints a link behind a text: on the same line, or one level deeper on a line of its own. -/
def appendLink (context : Context) (layout : ChainLayout) (text : Text) (link : Link) : Rendered :=
  match layout with
  | .inline => return text ++ (← link.render context)
  | .exploded => return text ++ ['\n'] ++ (← context.nested fun inner => link.render inner)

/-- A link is printed in its surroundings and attached to the text. -/
theorem appendLink_eq (context : Context) (layout : ChainLayout) (text : Text) (link : Link) :
    appendLink context layout text link = do
      let linkText ← link.render (context.forLink layout)
      return context.attach layout text linkText := by
  cases layout with
  | inline => rfl
  | exploded =>
    simp only [appendLink, Context.nested, Context.forLink, bind_assoc, pure_bind]
    rfl

/-- Prints links behind a text, first to last. -/
def renderLinks (context : Context) (layout : ChainLayout) (text : Text) (links : List Link) :
    Rendered :=
  links.foldlM (appendLink context layout) text

theorem renderLinks_concat (context : Context) (layout : ChainLayout) (text : Text)
    (links : List Link) (last : Link) :
    renderLinks context layout text (links ++ [last]) = do
      let receiverText ← renderLinks context layout text links
      let linkText ← last.render (context.forLink layout)
      return context.attach layout receiverText linkText := by
  simp only [renderLinks, List.foldlM_append, List.foldlM_cons, List.foldlM_nil, bind_pure,
    appendLink_eq]

/-- An expression in a given layout: the innermost receiver, and behind it the links. -/
theorem renderWithin_spine (context : Context) (layout : ChainLayout) (expression : Expression) :
    expression.renderWithin context (some layout) =
      expression.spine.1.render context >>= fun text =>
        renderLinks context layout text expression.spine.2 := by
  fun_induction spine expression with
  | case1 receiver link inner ih =>
    simp only [renderWithin, Option.getD_some, ih, bind_assoc, renderLinks_concat, inner]
  | case2 other hother =>
    have hlayout : other.renderWithin context (some layout) = other.render context := by
      rw [render]
      cases other with
      | chain receiver link => exact absurd rfl (hother receiver link)
      | _ => simp only [renderWithin]
    simp only [renderLinks, List.foldlM_nil, bind_pure, hlayout]

/-- A chain is printed along its spine, in the layout for the number of its calls. -/
theorem render_spine (context : Context) (expression : Expression) :
    expression.render context =
      expression.spine.1.render context >>= fun text =>
        renderLinks context (context.chainLayout expression.callCount) text expression.spine.2 := by
  rw [← renderWithin_spine, render]
  cases expression with
  | chain receiver link => rw [renderWithin, renderWithin, Option.getD_none, Option.getD_some]
  | _ => simp only [renderWithin]

/-- A chain with fewer calls stays on one line where the longer one does. -/
theorem chainLayout_inline {context : Context} {few many : Nat} (hle : few ≤ many)
    (h : context.chainLayout many = .inline) : context.chainLayout few = .inline := by
  unfold Context.chainLayout ChainLayout.ofCalls at h ⊢
  split
  · rfl
  · rename_i hinline
    rw [if_neg hinline] at h
    split at h
    · cases h
    · rw [if_neg (by omega)]

/-- The spine of a chain is what the walk down its receivers collects, and the chain taken apart
without loss: its receiver is no chain, its links added to the receiver give back the chain, and the
counts of the links and of the calls are those of the list. The chain is printed along the list, from
the receiver to the last link. Where it stays on one line, it is printed as its immediate receiver
with the last link behind it, and it fails as the first of the two that fails. -/
theorem spine_chain (receiver : Expression) (link : Link) (context : Context) :
    let chain := Expression.chain receiver link
    (∀ inner last, chain.spine.1 ≠ .chain inner last) ∧
    chain.collect [] = chain.spine ∧
    chain.spine.1.addLinks chain.spine.2 = chain ∧
    chain.linkCount = chain.spine.2.length ∧
    chain.callCount = (chain.spine.2.filter fun link => link.arguments.isSome).length ∧
    (chain.render context = do
      let text ← chain.spine.1.render context
      chain.spine.2.foldlM (appendLink context (context.chainLayout chain.callCount)) text) ∧
    (context.chainLayout chain.callCount = .inline →
      chain.render context = do
        let receiverText ← receiver.render context
        let linkText ← link.render context
        return receiverText ++ linkText) := by
  intro chain
  refine ⟨fun inner last heq => ?_, ?_, chain.addLinks_spine, chain.linkCount_eq, ?_,
    render_spine context chain, fun hinline => ?_⟩
  · have hchain := chain.isChain_spine
    rw [heq] at hchain
    cases hchain
  · rw [chain.collect_eq, List.append_nil]
  · rw [chain.callCount_eq, List.countP_eq_length_filter]
    rfl
  · have hreceiver : context.chainLayout receiver.callCount = .inline :=
      chainLayout_inline (Nat.le_add_right ..) hinline
    -- the receiver is printed along the same spine, in the same layout
    rw [render_spine, hinline, render_spine context receiver, hreceiver, bind_assoc]
    simp only [chain, spine, renderLinks_concat]
    rfl

/-- A call between two names stays on one line at the default threshold; a chain whose last link has
no name and whose receiver begins with a query fails at the query. -/
theorem spine_chain_one_call :
    let context : Context := ⟨{}, 0, false⟩
    let list : Expression := .chain (.primary (.identifier "list")) ⟨.dot, "size", some []⟩
    let rows : Expression := .chain (.primary (.query ⟨"[x]", some ⟨1, 1⟩⟩)) ⟨.dot, "size", some []⟩
    (Expression.chain list ⟨.safeDot, "half", none⟩).render context =
        .ok "list.size()?.half".toList ∧
      (Expression.chain rows ⟨.dot, "", none⟩).render context =
        .error (.unsupported .embeddedQuery (some ⟨1, 1⟩)) := by
  intro context list rows
  obtain ⟨-, -, -, -, -, -, hlist⟩ := spine_chain list ⟨.safeDot, "half", none⟩ context
  obtain ⟨-, -, -, -, -, -, hrows⟩ := spine_chain rows ⟨.dot, "", none⟩ context
  exact ⟨(hlist (by decide)).trans (by rfl), (hrows (by decide)).trans (by rfl)⟩

end Expression

end ApexLayout
