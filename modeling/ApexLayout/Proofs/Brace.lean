import ApexLayout.Proofs.Induction
import ApexLayout.Proofs.Printing

/-!
Braces around bodies.

Printing puts braces around every body of an `if`, a `while` or a `for`, so what is read back from
print has them. `brace` adds them to a tree and changes nothing else, and printing does not see the
difference.
-/

namespace ApexLayout

/-! ## Adding braces -/

/-- A statement as the body of another: between braces, unless it may stand as it is. -/
def Statement.wrap (bare : Bool) (statement : Statement) : Statement :=
  if bare then statement else .block [statement]

mutual

/-- The statement with braces around all bodies in it. -/
def Statement.brace : Statement → Statement
  | .block body => .block (Statement.braceAll body)
  | .ifElse condition thenBranch none =>
    .ifElse condition (.wrap thenBranch.isBlock thenBranch.brace) none
  | .ifElse condition thenBranch (some branch) =>
    .ifElse condition (.wrap thenBranch.isBlock thenBranch.brace)
      (some (.wrap (branch.isBlock || branch.isIf) branch.brace))
  | .whileLoop condition body => .whileLoop condition (.wrap body.isBlock body.brace)
  | .forLoop control body => .forLoop control (.wrap body.isBlock body.brace)
  | .tryCatch body catches none =>
    .tryCatch (Statement.braceAll body) (CatchClause.braceAll catches) none
  | .tryCatch body catches (some last) =>
    .tryCatch (Statement.braceAll body) (CatchClause.braceAll catches)
      (some (Statement.braceAll last))
  | .returnValue value => .returnValue value
  | .throwValue value => .throwValue value
  | .breakLoop => .breakLoop
  | .continueLoop => .continueLoop
  | .dml operation operand => .dml operation operand
  | .variables declaration => .variables declaration
  | .expression value => .expression value

/-- The statements with braces around all bodies in them. -/
def Statement.braceAll : List Statement → List Statement
  | [] => []
  | statement :: rest => statement.brace :: Statement.braceAll rest

/-- The `catch` clauses with braces around all bodies in them. -/
def CatchClause.braceAll : List CatchClause → List CatchClause
  | [] => []
  | ⟨modifiers, type, name, body⟩ :: rest =>
    ⟨modifiers, type, name, Statement.braceAll body⟩ :: CatchClause.braceAll rest

end

/-- The `catch` clause with braces around all bodies in it. -/
def CatchClause.brace (clause : CatchClause) : CatchClause :=
  { clause with body := clause.body.map Statement.brace }

/-- The block with braces around all bodies in it. -/
def Block.brace (body : Block) : Block := body.map Statement.brace

/-- The method with braces around all bodies in it. -/
def Method.brace (method : Method) : Method := { method with body := method.body.map Block.brace }

/-- The constructor with braces around all bodies in it. -/
def Constructor.brace (constructor : Constructor) : Constructor :=
  { constructor with body := Block.brace constructor.body }

/-- The accessor with braces around all bodies in it. -/
def Accessor.brace (accessor : Accessor) : Accessor :=
  { accessor with body := accessor.body.map Block.brace }

/-- The property with braces around all bodies in it. -/
def Property.brace (property : Property) : Property :=
  { property with accessors := property.accessors.map Accessor.brace }

/-- The initializer with braces around all bodies in it. -/
def Initializer.brace (initializer : Initializer) : Initializer :=
  { initializer with body := Block.brace initializer.body }

mutual

/-- The declaration with braces around all bodies in it. -/
def Declaration.brace : Declaration → Declaration
  | .classType modifiers name parent interfaces body =>
    .classType modifiers name parent interfaces (Member.braceAll body)
  | .interfaceType modifiers name parents body =>
    .interfaceType modifiers name parents (Member.braceAll body)
  | .enumType modifiers name constants => .enumType modifiers name constants

/-- The member with braces around all bodies in it. -/
def Member.brace : Member → Member
  | .method method => .method method.brace
  | .field declaration => .field declaration
  | .constructor constructor => .constructor constructor.brace
  | .property property => .property property.brace
  | .initializer initializer => .initializer initializer.brace
  | .declaration nested => .declaration nested.brace
  | .empty => .empty

/-- The members with braces around all bodies in them. -/
def Member.braceAll : List Member → List Member
  | [] => []
  | member :: rest => member.brace :: Member.braceAll rest

end

/-- The compilation unit with braces around all bodies in it. -/
def CompilationUnit.brace (unit : CompilationUnit) : CompilationUnit := ⟨unit.declaration.brace⟩

theorem Statement.braceAll_eq_map (body : List Statement) :
    Statement.braceAll body = body.map Statement.brace := by
  induction body with
  | nil => rfl
  | cons statement rest ih => rw [Statement.braceAll, ih, List.map_cons]

theorem CatchClause.braceAll_eq_map (catches : List CatchClause) :
    CatchClause.braceAll catches = catches.map CatchClause.brace := by
  induction catches with
  | nil => rfl
  | cons clause rest ih =>
    obtain ⟨modifiers, type, name, body⟩ := clause
    rw [CatchClause.braceAll, ih, List.map_cons, Statement.braceAll_eq_map]
    rfl

theorem Member.braceAll_eq_map (body : List Member) :
    Member.braceAll body = body.map Member.brace := by
  induction body with
  | nil => rfl
  | cons member rest ih => rw [Member.braceAll, ih, List.map_cons]

@[simp] theorem Statement.isBlock_brace (statement : Statement) :
    statement.brace.isBlock = statement.isBlock := by
  cases statement with
  | ifElse condition thenBranch elseBranch =>
    cases elseBranch <;> rw [Statement.brace] <;> rfl
  | tryCatch body catches cleanup =>
    cases cleanup <;> rw [Statement.brace] <;> rfl
  | _ => rw [Statement.brace] <;> rfl

@[simp] theorem Statement.isIf_brace (statement : Statement) :
    statement.brace.isIf = statement.isIf := by
  cases statement with
  | ifElse condition thenBranch elseBranch =>
    cases elseBranch <;> rw [Statement.brace] <;> rfl
  | tryCatch body catches cleanup =>
    cases cleanup <;> rw [Statement.brace] <;> rfl
  | _ => rw [Statement.brace] <;> rfl

/-! ## Trees with all braces -/

mutual

/-- Whether all bodies in the statement stand between braces. -/
def Statement.isBraced : Statement → Bool
  | .block body => Statement.isBracedAll body
  | .ifElse _ thenBranch none => thenBranch.isBlock && thenBranch.isBraced
  | .ifElse _ thenBranch (some branch) =>
    thenBranch.isBlock && thenBranch.isBraced && (branch.isBlock || branch.isIf) && branch.isBraced
  | .whileLoop _ body => body.isBlock && body.isBraced
  | .forLoop _ body => body.isBlock && body.isBraced
  | .tryCatch body catches none => Statement.isBracedAll body && CatchClause.isBracedAll catches
  | .tryCatch body catches (some last) =>
    Statement.isBracedAll body && CatchClause.isBracedAll catches && Statement.isBracedAll last
  | .returnValue _ => true
  | .throwValue _ => true
  | .breakLoop => true
  | .continueLoop => true
  | .dml .. => true
  | .variables _ => true
  | .expression _ => true

/-- Whether all bodies in the statements stand between braces. -/
def Statement.isBracedAll : List Statement → Bool
  | [] => true
  | statement :: rest => statement.isBraced && Statement.isBracedAll rest

/-- Whether all bodies in the `catch` clauses stand between braces. -/
def CatchClause.isBracedAll : List CatchClause → Bool
  | [] => true
  | ⟨_, _, _, body⟩ :: rest => Statement.isBracedAll body && CatchClause.isBracedAll rest

end

/-- Whether all bodies in the block stand between braces. -/
def Block.isBraced (body : Block) : Bool := body.all Statement.isBraced

mutual

/-- Whether all bodies in the declaration stand between braces. -/
def Declaration.isBraced : Declaration → Bool
  | .classType _ _ _ _ body => Member.isBracedAll body
  | .interfaceType _ _ _ body => Member.isBracedAll body
  | .enumType .. => true

/-- Whether all bodies in the member stand between braces. -/
def Member.isBraced : Member → Bool
  | .method method => method.body.all Block.isBraced
  | .field _ => true
  | .constructor constructor => Block.isBraced constructor.body
  | .property property => property.accessors.all fun accessor => accessor.body.all Block.isBraced
  | .initializer initializer => Block.isBraced initializer.body
  | .declaration nested => nested.isBraced
  | .empty => true

/-- Whether all bodies in the members stand between braces. -/
def Member.isBracedAll : List Member → Bool
  | [] => true
  | member :: rest => member.isBraced && Member.isBracedAll rest

end

/-- Whether all bodies in the compilation unit stand between braces. -/
def CompilationUnit.isBraced (unit : CompilationUnit) : Bool := unit.declaration.isBraced

theorem Statement.isBracedAll_eq_all (body : List Statement) :
    Statement.isBracedAll body = body.all Statement.isBraced := by
  induction body with
  | nil => rfl
  | cons statement rest ih => rw [Statement.isBracedAll, ih, List.all_cons]

theorem CatchClause.isBracedAll_eq_all (catches : List CatchClause) :
    CatchClause.isBracedAll catches = catches.all fun clause => Block.isBraced clause.body := by
  induction catches with
  | nil => rfl
  | cons clause rest ih =>
    obtain ⟨modifiers, type, name, body⟩ := clause
    rw [CatchClause.isBracedAll, ih, List.all_cons, Statement.isBracedAll_eq_all]
    rfl

theorem Member.isBracedAll_eq_all (body : List Member) :
    Member.isBracedAll body = body.all Member.isBraced := by
  induction body with
  | nil => rfl
  | cons member rest ih => rw [Member.isBracedAll, ih, List.all_cons]

/-- Braces are only added where there are none. -/
theorem Statement.brace_eq_self (statement : Statement) :
    statement.isBraced = true → statement.brace = statement := by
  -- blocks, clauses and the last block are rows of statements
  have hall : ∀ {body : List Statement}, (∀ s ∈ body, s.isBraced = true → s.brace = s) →
      Statement.isBracedAll body = true → Statement.braceAll body = body := by
    intro body ih h
    rw [Statement.isBracedAll_eq_all, List.all_eq_true] at h
    rw [Statement.braceAll_eq_map]
    exact List.map_eq_self fun s hs => ih s hs (h s hs)
  induction statement using Statement.induction with
  | block body ih =>
    intro h
    rw [Statement.isBraced] at h
    rw [Statement.brace, hall ih h]
  | ifElse condition thenBranch elseBranch ihThen ihElse =>
    intro h
    cases elseBranch with
    | none =>
      rw [Statement.isBraced, Bool.and_eq_true] at h
      rw [Statement.brace, ihThen h.2, h.1]
      rfl
    | some branch =>
      rw [Statement.isBraced] at h
      simp only [Bool.and_eq_true] at h
      obtain ⟨⟨⟨hblock, hthen⟩, helse⟩, hbranch⟩ := h
      rw [Statement.brace, ihThen hthen, ihElse branch rfl hbranch, hblock, helse]
      rfl
  | whileLoop condition body ih =>
    intro h
    rw [Statement.isBraced, Bool.and_eq_true] at h
    rw [Statement.brace, ih h.2, h.1]
    rfl
  | forLoop control body ih =>
    intro h
    rw [Statement.isBraced, Bool.and_eq_true] at h
    rw [Statement.brace, ih h.2, h.1]
    rfl
  | tryCatch body catches cleanup ihBody ihCatches ihLast =>
    intro h
    have hcatches : CatchClause.isBracedAll catches = true →
        CatchClause.braceAll catches = catches := by
      intro h
      rw [CatchClause.isBracedAll_eq_all, List.all_eq_true] at h
      rw [CatchClause.braceAll_eq_map]
      refine List.map_eq_self fun clause hclause => ?_
      have hbody := List.all_eq_true.1 (h clause hclause)
      have hsame : clause.body.map Statement.brace = clause.body :=
        List.map_eq_self fun s hs => ihCatches clause hclause s hs (hbody s hs)
      obtain ⟨modifiers, type, name, body⟩ := clause
      exact congrArg (CatchClause.mk modifiers type name) hsame
    cases cleanup with
    | none =>
      rw [Statement.isBraced, Bool.and_eq_true] at h
      rw [Statement.brace, hall ihBody h.1, hcatches h.2]
    | some last =>
      rw [Statement.isBraced] at h
      simp only [Bool.and_eq_true] at h
      rw [Statement.brace, hall ihBody h.1.1, hcatches h.1.2, hall (ihLast last rfl) h.2]
  | returnValue value => intro _; rw [Statement.brace]
  | throwValue value => intro _; rw [Statement.brace]
  | breakLoop => intro _; rw [Statement.brace]
  | continueLoop => intro _; rw [Statement.brace]
  | dml operation operand => intro _; rw [Statement.brace]
  | locals declaration => intro _; rw [Statement.brace]
  | expression value => intro _; rw [Statement.brace]

theorem Block.brace_eq_self {body : Block} (h : Block.isBraced body = true) :
    Block.brace body = body :=
  List.map_eq_self fun statement hstatement =>
    statement.brace_eq_self (List.all_eq_true.1 h statement hstatement)

theorem Block.map_brace_eq_self {body : Option Block} (h : body.all Block.isBraced = true) :
    body.map Block.brace = body := by
  cases body with
  | none => rfl
  | some body => rw [Option.map_some, Block.brace_eq_self h]

theorem Declaration.brace_eq_self (declaration : Declaration) :
    declaration.isBraced = true → declaration.brace = declaration := by
  have hall : ∀ {body : List Member}, (∀ m ∈ body, m.isBraced = true → m.brace = m) →
      Member.isBracedAll body = true → Member.braceAll body = body := by
    intro body ih h
    rw [Member.isBracedAll_eq_all, List.all_eq_true] at h
    rw [Member.braceAll_eq_map]
    exact List.map_eq_self fun m hm => ih m hm (h m hm)
  refine Declaration.induction
    (fun declaration => declaration.isBraced = true → declaration.brace = declaration)
    (fun member => member.isBraced = true → member.brace = member)
    ?classType ?interfaceType ?enumType ?method ?field ?constructor ?property ?initializer
    ?nested ?empty declaration
  case classType =>
    intro modifiers name parent interfaces body ih h
    rw [Declaration.isBraced] at h
    rw [Declaration.brace, hall ih h]
  case interfaceType =>
    intro modifiers name parents body ih h
    rw [Declaration.isBraced] at h
    rw [Declaration.brace, hall ih h]
  case enumType =>
    intro modifiers name constants _
    rw [Declaration.brace]
  case method =>
    intro method h
    rw [Member.isBraced] at h
    rw [Member.brace, Method.brace, Block.map_brace_eq_self h]
  case field =>
    intro declaration _
    rw [Member.brace]
  case constructor =>
    intro constructor h
    rw [Member.isBraced] at h
    rw [Member.brace, Constructor.brace, Block.brace_eq_self h]
  case property =>
    intro property h
    rw [Member.isBraced, List.all_eq_true] at h
    rw [Member.brace, Property.brace, List.map_eq_self fun accessor haccessor => ?_]
    rw [Accessor.brace, Block.map_brace_eq_self (h accessor haccessor)]
  case initializer =>
    intro initializer h
    rw [Member.isBraced] at h
    rw [Member.brace, Initializer.brace, Block.brace_eq_self h]
  case nested =>
    intro nested ih h
    rw [Member.isBraced] at h
    rw [Member.brace, ih h]
  case empty =>
    intro _
    rw [Member.brace]

theorem CompilationUnit.brace_eq_self {unit : CompilationUnit} (h : unit.isBraced = true) :
    unit.brace = unit := by
  unfold CompilationUnit.brace
  rw [unit.declaration.brace_eq_self h]

/-! ## Printing -/

/-- The text of a body, between braces unless it stands as it is. -/
def Statement.renderBody (context : Context) (bare : Bool) (statement : Statement) : Rendered :=
  return context.enclose bare (← statement.render (context.body bare))

theorem Text.unlines_singleton (line : Text) : Text.unlines [line] = line := by
  simp [Text.unlines, Text.join]

/-- Braces around a body are printed either way. -/
theorem Statement.renderBody_wrap {context : Context} {bare : Bool} {statement : Statement}
    {test : Statement → Bool} (hbare : bare = true → test statement = true)
    (hblock : ∀ body, test (.block body) = true) :
    Statement.renderBody context (test (.wrap bare statement)) (.wrap bare statement) =
      Statement.renderBody context bare statement := by
  cases bare with
  | true =>
    show Statement.renderBody context (test statement) statement = _
    rw [hbare rfl]
  | false =>
    show Statement.renderBody context (test (.block [statement])) (.block [statement]) = _
    rw [hblock]
    simp only [Statement.render, Statement.renderAll, Statement.renderBody, Context.body,
      Context.enclose, Context.block, if_true, Bool.false_eq_true, if_false, bind_assoc, pure_bind,
      Text.unlines_singleton]

/-- An `if`, by its body and its other branch. -/
theorem Statement.render_ifElse (context : Context) (condition : Expression)
    (thenBranch : Statement) (elseBranch : Option Statement) :
    (Statement.ifElse condition thenBranch elseBranch).render context = (do
      let conditionText ← condition.render context.inlined
      let thenText ← thenBranch.renderBody context thenBranch.isBlock
      match elseBranch with
      | none => return "if (" ++ conditionText ++ ") " ++ thenText
      | some branch =>
        let elseText ← branch.renderBody context (branch.isBlock || branch.isIf)
        return "if (" ++ conditionText ++ ") " ++ thenText ++ " else " ++ elseText) := by
  rw [Statement.render]
  unfold Statement.renderBody
  cases elseBranch <;> simp only [bind_assoc, pure_bind]

theorem Statement.render_whileLoop (context : Context) (condition : Expression)
    (body : Statement) :
    (Statement.whileLoop condition body).render context = (do
      let conditionText ← condition.render context.inlined
      let bodyText ← body.renderBody context body.isBlock
      return "while (" ++ conditionText ++ ") " ++ bodyText) := by
  rw [Statement.render]
  unfold Statement.renderBody
  simp only [bind_assoc, pure_bind]

theorem Statement.render_forLoop (context : Context) (control : ForControl) (body : Statement) :
    (Statement.forLoop control body).render context = (do
      let controlText ← control.render context.inlined
      let bodyText ← body.renderBody context body.isBlock
      return "for (" ++ controlText ++ ") " ++ bodyText) := by
  rw [Statement.render]
  unfold Statement.renderBody
  simp only [bind_assoc, pure_bind]

theorem Statement.renderAll_congr {context : Context} {body : List Statement}
    (h : ∀ s ∈ body, ∀ context, Statement.render context s.brace = s.render context) :
    Statement.renderAll context (body.map Statement.brace) = Statement.renderAll context body := by
  rw [Statement.renderAll_eq_mapM, Statement.renderAll_eq_mapM, List.mapM_map]
  exact Rendered.mapM_congr fun statement hstatement => h statement hstatement context

theorem CatchClause.renderAll_congr {context : Context} {catches : List CatchClause}
    (h : ∀ clause ∈ catches, ∀ s ∈ CatchClause.body clause, ∀ context,
      Statement.render context s.brace = s.render context) :
    CatchClause.renderAll context (catches.map CatchClause.brace) =
      CatchClause.renderAll context catches := by
  induction catches with
  | nil => rfl
  | cons clause rest ih =>
    obtain ⟨modifiers, type, name, body⟩ := clause
    obtain ⟨hfirst, hothers⟩ := List.forall_mem_cons.1 h
    have hbody : Statement.renderAll context.deeper (body.map Statement.brace) =
        Statement.renderAll context.deeper body := Statement.renderAll_congr hfirst
    rw [List.map_cons, CatchClause.renderAll, CatchClause.renderAll, ih hothers]
    show (do
      let first ← CatchClause.render context ⟨modifiers, type, name, body.map Statement.brace⟩
      let others ← CatchClause.renderAll context rest
      return first ++ others) = _
    rw [CatchClause.render, CatchClause.render, hbody]

theorem Statement.renderBody_brace (test : Statement → Bool) {context : Context}
    {statement : Statement} (hbrace : test statement.brace = test statement)
    (hblock : ∀ body, test (.block body) = true)
    (h : ∀ context, Statement.render context statement.brace = statement.render context) :
    Statement.renderBody context (test (.wrap (test statement) statement.brace))
        (.wrap (test statement) statement.brace) =
      Statement.renderBody context (test statement) statement := by
  rw [Statement.renderBody_wrap (fun hbare => hbrace.trans hbare) hblock]
  unfold Statement.renderBody
  rw [h]

/-- Adding braces does not change what is printed for a statement. -/
theorem Statement.render_brace (statement : Statement) :
    ∀ context, Statement.render context statement.brace = statement.render context := by
  induction statement using Statement.induction with
  | block body ih =>
    intro context
    rw [Statement.brace, Statement.braceAll_eq_map, Statement.render, Statement.render,
      Statement.renderAll_congr ih]
  | ifElse condition thenBranch elseBranch ihThen ihElse =>
    intro context
    cases elseBranch with
    | none =>
      rw [Statement.brace, Statement.render_ifElse, Statement.render_ifElse,
        Statement.renderBody_brace Statement.isBlock thenBranch.isBlock_brace (fun _ => rfl) ihThen]
    | some branch =>
      -- an else branch that is another if statement gets no braces either
      have helse : (branch.brace.isBlock || branch.brace.isIf) = (branch.isBlock || branch.isIf) := by
        rw [branch.isBlock_brace, branch.isIf_brace]
      rw [Statement.brace, Statement.render_ifElse, Statement.render_ifElse,
        Statement.renderBody_brace Statement.isBlock thenBranch.isBlock_brace (fun _ => rfl) ihThen]
      simp only [Statement.renderBody_brace (fun s => s.isBlock || s.isIf) helse (fun _ => rfl)
        (ihElse branch rfl)]
  | whileLoop condition body ih =>
    intro context
    rw [Statement.brace, Statement.render_whileLoop, Statement.render_whileLoop,
      Statement.renderBody_brace Statement.isBlock body.isBlock_brace (fun _ => rfl) ih]
  | forLoop control body ih =>
    intro context
    rw [Statement.brace, Statement.render_forLoop, Statement.render_forLoop,
      Statement.renderBody_brace Statement.isBlock body.isBlock_brace (fun _ => rfl) ih]
  | tryCatch body catches cleanup ihBody ihCatches ihLast =>
    intro context
    cases cleanup with
    | none =>
      rw [Statement.brace, Statement.braceAll_eq_map, CatchClause.braceAll_eq_map,
        Statement.render, Statement.render, Statement.renderAll_congr ihBody,
        CatchClause.renderAll_congr ihCatches]
    | some last =>
      rw [Statement.brace, Statement.braceAll_eq_map, CatchClause.braceAll_eq_map,
        Statement.braceAll_eq_map, Statement.render, Statement.render,
        Statement.renderAll_congr ihBody, CatchClause.renderAll_congr ihCatches]
      simp only [Statement.renderAll_congr (ihLast last rfl)]
  | returnValue value => intro context; rw [Statement.brace]
  | throwValue value => intro context; rw [Statement.brace]
  | breakLoop => intro context; rw [Statement.brace]
  | continueLoop => intro context; rw [Statement.brace]
  | dml operation operand => intro context; rw [Statement.brace]
  | locals declaration => intro context; rw [Statement.brace]
  | expression value => intro context; rw [Statement.brace]

theorem Block.render_brace (context : Context) (body : Block) :
    Block.render context (Block.brace body) = Block.render context body := by
  unfold Block.render Block.brace
  rw [Statement.renderAll_congr fun s _ => s.render_brace]

theorem Block.renderOrSemicolon_brace (context : Context) (body : Option Block) :
    Block.renderOrSemicolon context (body.map Block.brace) =
      Block.renderOrSemicolon context body := by
  cases body with
  | none => rfl
  | some body =>
    show (do return " " ++ (← Block.render context (Block.brace body)) : Rendered) = _
    rw [Block.render_brace]
    rfl

theorem Accessor.render_brace (context : Context) (accessor : Accessor) :
    accessor.brace.render context = accessor.render context := by
  unfold Accessor.render Accessor.brace
  rw [Block.renderOrSemicolon_brace]

theorem Property.render_brace (context : Context) (property : Property) :
    property.brace.render context = property.render context := by
  have haccessors : (property.accessors.map Accessor.brace).mapM
      (Accessor.render context.deeper) =
        property.accessors.mapM (Accessor.render context.deeper) := by
    rw [List.mapM_map]
    exact Rendered.mapM_congr fun accessor _ => accessor.render_brace context.deeper
  unfold Property.render Property.brace
  rw [haccessors]

theorem Member.renderAll_congr {context : Context} {body : List Member}
    (h : ∀ m ∈ body, ∀ context, Member.render context m.brace = m.render context) :
    Member.renderAll context (body.map Member.brace) = Member.renderAll context body := by
  rw [Member.renderAll_eq_mapM, Member.renderAll_eq_mapM, List.mapM_map]
  exact Rendered.mapM_congr fun member hmember => h member hmember context

/-- Adding braces does not change what is printed for a declaration. -/
theorem Declaration.render_brace (declaration : Declaration) :
    ∀ context, Declaration.render context declaration.brace = declaration.render context := by
  refine Declaration.induction
    (fun declaration => ∀ context, Declaration.render context declaration.brace =
      declaration.render context)
    (fun member => ∀ context, Member.render context member.brace = member.render context)
    ?classType ?interfaceType ?enumType ?method ?field ?constructor ?property ?initializer
    ?nested ?empty declaration
  case classType =>
    intro modifiers name parent interfaces body ih context
    rw [Declaration.brace, Member.braceAll_eq_map, Declaration.render, Declaration.render,
      Member.renderAll_congr ih]
  case interfaceType =>
    intro modifiers name parents body ih context
    rw [Declaration.brace, Member.braceAll_eq_map, Declaration.render, Declaration.render,
      Member.renderAll_congr ih]
  case enumType =>
    intro modifiers name constants context
    rw [Declaration.brace]
  case method =>
    intro method context
    rw [Member.brace, Member.render, Member.render]
    unfold Method.render Method.brace
    rw [Block.renderOrSemicolon_brace]
  case field =>
    intro declaration context
    rw [Member.brace]
  case constructor =>
    intro constructor context
    rw [Member.brace, Member.render, Member.render]
    unfold Constructor.render Constructor.brace
    rw [Block.render_brace]
  case property =>
    intro property context
    rw [Member.brace, Member.render, Member.render, Property.render_brace]
  case initializer =>
    intro initializer context
    rw [Member.brace, Member.render, Member.render]
    unfold Initializer.render Initializer.brace
    rw [Block.render_brace]
  case nested =>
    intro nested ih context
    rw [Member.brace, Member.render, Member.render, ih]
  case empty =>
    intro context
    rw [Member.brace]

end ApexLayout
