import ApexLayout.Proofs.Layout.Statement

/-!
The layout of members and type declarations.

Every member stands on lines of its own between the braces of the type that it belongs to.
-/

namespace ApexLayout

/-! ## Members without members -/

section

variable {context : Context} {text : Text}

theorem Parameter.stands {unit : Text} {parameter : Parameter} (hclean : Clean parameter.parts)
    (h : parameter.render = .ok text) : Stands unit false parameter.parts text := by
  obtain ⟨typeText, htype, h⟩ := Rendered.bind_eq_ok.1 h
  cases h
  unfold Parameter.parts at hclean ⊢
  simp only [List.forall_mem_append, List.forall_mem_cons] at hclean
  obtain ⟨hmodifiers, htypeClean, hname, -⟩ := hclean
  have htyped : Stands unit false [.type parameter.type, .word parameter.name]
      (typeText ++ ' ' :: parameter.name) := .typed htypeClean.1 htype hname.1
  simpa using htyped.modified hmodifiers

/-- A parameter list behind the name that it belongs to. -/
theorem Stands.parameters {unit : Text} {parts : List Part} {front : Text}
    (hfront : Stands unit false parts front) {parameters : List Parameter}
    (hclean : Clean (parametersParts parameters)) (h : Parameter.renderList parameters = .ok text) :
    Stands unit false (parts ++ parametersParts parameters) (front ++ text) := by
  obtain ⟨texts, htexts, h⟩ := Rendered.bind_eq_ok.1 h
  cases h
  have hinside : ∀ parameter ∈ parameters, Clean parameter.parts := by
    intro parameter hparameter
    refine hclean.mono fun part hpart => List.mem_cons_of_mem _ (List.mem_append_left _ ?_)
    exact mem_rowsBy_of_mem (List.mem_map_of_mem hparameter) hpart
  have hrows : List.Forall₂ (Stands unit false) (parameters.map Parameter.parts) texts :=
    Stands.all (Rendered.mapM_eq_ok htexts) fun parameter hparameter _ htext =>
      Parameter.stands (hinside parameter hparameter) htext
  have hlist := Stands.parenthesized hrows
  have hwhole := hfront.append hlist.laid (.sign (by decide)) hlist.last
  simpa [parametersParts] using hwhole

theorem Block.stands {body : Block} (hclean : Clean (Block.parts body))
    (h : Block.render context body = .ok text) :
    Stands context.indentUnit false (Block.parts body) text := by
  obtain ⟨texts, htexts, h⟩ := Rendered.bind_eq_ok.1 h
  cases h
  have hparts : Block.parts body = blockParts (Statement.partsAll body) := by
    rw [Statement.partsAll_eq_map]
    rfl
  rw [hparts] at hclean ⊢
  exact Statement.prints_block (fun statement _ => statement.prints) hclean htexts

/-- A body behind a header, or a semicolon. -/
theorem Stands.bodyOrSemicolon {parts : List Part} {front : Text}
    (hfront : Stands context.indentUnit false parts front) {body : Option Block}
    (hclean : Clean (Block.partsOrSemicolon body))
    (h : Block.renderOrSemicolon context body = .ok text) :
    Stands context.indentUnit false (parts ++ Block.partsOrSemicolon body) (front ++ text) := by
  cases body with
  | none =>
    cases h
    exact hfront.semicolon
  | some body =>
    obtain ⟨bodyText, hbody, h⟩ := Rendered.bind_eq_ok.1 h
    cases h
    exact hfront.spaced (Block.stands hclean hbody)

theorem TypeRef.stands_orVoid {unit : Text} {type : Option TypeRef}
    (hclean : (TypeRef.partOrVoid type).Legible) (h : TypeRef.renderOrVoid type = .ok text) :
    Stands unit false [TypeRef.partOrVoid type] text := by
  cases type with
  | none =>
    cases h
    exact .word hclean
  | some type => exact .type hclean h

theorem Method.stands {method : Method} (hclean : Clean method.parts)
    (h : method.render context = .ok text) :
    Stands context.indentUnit false method.parts text := by
  obtain ⟨typeText, htype, h⟩ := Rendered.bind_eq_ok.1 h
  obtain ⟨parametersText, hparameters, h⟩ := Rendered.bind_eq_ok.1 h
  obtain ⟨bodyText, hbody, h⟩ := Rendered.bind_eq_ok.1 h
  cases h
  unfold Method.parts at hclean ⊢
  simp only [List.forall_mem_append, List.forall_mem_cons] at hclean
  obtain ⟨hmodifiers, htypeClean, hname, hparametersClean, hbodyClean⟩ := hclean
  have htyped : Stands context.indentUnit false [TypeRef.partOrVoid method.returnType] typeText :=
    TypeRef.stands_orVoid htypeClean.1 htype
  have hheader := (htyped.spaced (.word hname.1)).parameters hparametersClean hparameters
  have hwhole := (hheader.bodyOrSemicolon hbodyClean hbody).modified hmodifiers
  simpa using hwhole

/-- Names with dots between them. -/
theorem Stands.dotted {unit : Text} {names : List Text} (hne : names ≠ [])
    (hclean : Clean (namesParts "." names)) :
    Stands unit false (namesParts "." names) (Text.join "." names) := by
  obtain ⟨first, others, rfl⟩ := List.exists_cons_of_ne_nil hne
  have hlegible : ∀ name ∈ first :: others, (Part.word name).Legible := fun name hname =>
    (Clean.row hclean _ (List.mem_map_of_mem hname) _ List.mem_cons_self).1
  obtain ⟨hfirst, hothers⟩ := List.forall_mem_cons.1 hlegible
  -- every further name stands right behind a dot
  have hrest : ∀ {parts : List Part} {text : Text}, Stands unit false parts text →
      Stands unit false (parts ++ others.flatMap fun name => [.symbol ['.'], .word name])
        (text ++ others.flatMap fun name => '.' :: name) := by
    clear hne hclean hlegible hfirst
    induction others with
    | nil =>
      intro parts text h
      simpa using h
    | cons name rest ih =>
      intro parts text h
      obtain ⟨hname, hrest⟩ := List.forall_mem_cons.1 hothers
      have hdot : Laid unit false 0 [.symbol ['.'], .word name] (['.'] ++ name) 0 :=
        .sign_word hname (by decide) (by decide)
      have hwhole := ih hrest (h.append hdot (.sign (by decide)) ((Completed.word hname).append [.symbol ['.']]))
      simpa using hwhole
  have hwhole := hrest (Stands.word hfirst)
  unfold namesParts
  rw [List.map_cons, rowsBy_cons, List.flatMap_map]
  have htext : Text.join "." (first :: others) = first ++ others.flatMap ('.' :: ·) :=
    rowsBy_cons '.' first others
  rw [htext]
  exact hwhole

theorem Constructor.stands {constructor : Constructor} (hclean : Clean constructor.parts)
    (h : constructor.render context = .ok text) :
    Stands context.indentUnit false constructor.parts text := by
  unfold Constructor.render at h
  split at h
  case isTrue => cases h
  case isFalse hne =>
    obtain ⟨parametersText, hparameters, h⟩ := Rendered.bind_eq_ok.1 h
    obtain ⟨bodyText, hbody, h⟩ := Rendered.bind_eq_ok.1 h
    cases h
    unfold Constructor.parts at hclean ⊢
    simp only [List.forall_mem_append] at hclean
    obtain ⟨hmodifiers, hname, hparametersClean, hbodyClean⟩ := hclean
    have hdotted : Stands context.indentUnit false (namesParts "." constructor.name)
        (Text.join "." constructor.name) := .dotted (by simpa using hne) hname
    have hheader := hdotted.parameters hparametersClean hparameters
    have hwhole := (hheader.spaced (Block.stands hbodyClean hbody)).modified hmodifiers
    simpa using hwhole

theorem Accessor.stands {accessor : Accessor} (hclean : Clean accessor.parts)
    (h : accessor.render context = .ok text) :
    Stands context.indentUnit false accessor.parts text := by
  obtain ⟨bodyText, hbody, h⟩ := Rendered.bind_eq_ok.1 h
  cases h
  unfold Accessor.parts at hclean ⊢
  simp only [List.forall_mem_append, List.forall_mem_cons] at hclean
  obtain ⟨hmodifiers, hkind, hbodyClean⟩ := hclean
  have hwhole := ((Stands.word hkind.1).bodyOrSemicolon hbodyClean hbody).modified hmodifiers
  simpa using hwhole

/-- Members between braces. -/
theorem Stands.members {α : Type} {parts : α → List Part} {render : α → Rendered} {items : List α}
    {texts : List Text}
    (h : List.Forall₂ (fun item text => render item = .ok text) items texts)
    (hclean : Clean (blockParts (items.map parts)))
    (hitems : ∀ item ∈ items, ∀ text, Clean (parts item) → render item = .ok text →
      Stands context.indentUnit false (parts item) text) :
    Stands context.indentUnit false (blockParts (items.map parts)) (context.block texts) := by
  have hrow : ∀ item ∈ items, Clean (parts item) := fun item hitem =>
    hclean.mono fun part hpart => List.mem_cons_of_mem _ (List.mem_append_left _
      (List.mem_flatten.2 ⟨_, List.mem_map_of_mem hitem, hpart⟩))
  refine Stands.block (Stands.all h fun item hitem text htext =>
    hitems item hitem text (hrow item hitem) htext) ?_
  simp only [List.forall_mem_map]
  exact fun item hitem part hpart => (hrow item hitem part hpart).2

theorem Property.stands {property : Property} (hclean : Clean property.parts)
    (h : property.render context = .ok text) :
    Stands context.indentUnit false property.parts text := by
  obtain ⟨typeText, htype, h⟩ := Rendered.bind_eq_ok.1 h
  obtain ⟨accessorTexts, haccessors, h⟩ := Rendered.bind_eq_ok.1 h
  cases h
  unfold Property.parts at hclean ⊢
  simp only [List.forall_mem_append, List.forall_mem_cons] at hclean
  obtain ⟨hmodifiers, htypeClean, hname, hbody⟩ := hclean
  have hblock : Stands context.indentUnit false (blockParts (property.accessors.map Accessor.parts))
      (context.block accessorTexts) :=
    .members (Rendered.mapM_eq_ok haccessors) hbody fun accessor _ text hclean htext =>
      show Stands context.deeper.indentUnit false accessor.parts text from
        Accessor.stands hclean htext
  have hwhole := ((Stands.typed htypeClean.1 htype hname.1).spaced hblock).modified hmodifiers
  simpa using hwhole

theorem Initializer.stands {initializer : Initializer} (hclean : Clean initializer.parts)
    (h : initializer.render context = .ok text) :
    Stands context.indentUnit false initializer.parts text := by
  obtain ⟨bodyText, hbody, h⟩ := Rendered.bind_eq_ok.1 h
  obtain ⟨isStatic, body⟩ := initializer
  cases isStatic with
  | true =>
    cases h
    simp only [Initializer.parts, if_true, List.forall_mem_cons] at hclean
    have hwhole := (Stands.keyword "static" (by decide)).spaced (Block.stands hclean.2 hbody)
    simpa [Initializer.parts] using hwhole
  | false =>
    cases h
    exact Block.stands hclean hbody

end

/-! ## Declarations -/

/-- A keyword with types behind it, or nothing. -/
theorem Stands.clause {unit : Text} {parts : List Part} {front text : Text}
    (hfront : Stands unit false parts front) {keyword : Text} {types : List TypeRef}
    (hclean : Clean (clauseParts keyword types)) (h : TypeRef.renderClause keyword types = .ok text) :
    Stands unit false (parts ++ clauseParts keyword types) (front ++ text) := by
  cases types with
  | nil =>
    cases h
    simpa [clauseParts] using hfront
  | cons first others =>
    obtain ⟨listText, hlist, h⟩ := Rendered.bind_eq_ok.1 h
    cases h
    obtain ⟨texts, htexts, hlist⟩ := Rendered.bind_eq_ok.1 hlist
    cases hlist
    rw [TypeRef.renderAll_eq_mapM] at htexts
    rw [clauseParts] at hclean ⊢
    obtain ⟨hkeyword, htypes⟩ := List.forall_mem_cons.1 hclean
    have hrows : List.Forall₂ (Stands unit false) ((first :: others).map fun type => [.type type])
        texts := Stands.all (Rendered.mapM_eq_ok htexts) fun type htype _ htext =>
      .type (Clean.row htypes _ (List.mem_map_of_mem htype) _ List.mem_cons_self).1 htext
    have hwhole := (hfront.spaced (.word hkeyword.1)).spaced (.joined hrows (List.cons_ne_nil _ _))
    simpa using hwhole

/-- A declaration whose text stands on lines of its own in all surroundings. -/
def Declaration.Prints (declaration : Declaration) : Prop :=
  ∀ context text, Clean declaration.parts → declaration.render context = .ok text →
    Stands context.indentUnit false declaration.parts text

/-- A member whose text stands on lines of its own in all surroundings. -/
def Member.Prints (member : Member) : Prop :=
  ∀ context text, Clean member.parts → member.render context = .ok text →
    Stands context.indentUnit false member.parts text

theorem Member.prints_block {context : Context} {body : List Member} {texts : List Text}
    (hbody : ∀ member ∈ body, member.Prints) (hclean : Clean (blockParts (Member.partsAll body)))
    (h : Member.renderAll context.deeper body = .ok texts) :
    Stands context.indentUnit false (blockParts (Member.partsAll body)) (context.block texts) := by
  rw [Member.renderAll_eq_mapM] at h
  rw [Member.partsAll_eq_map] at hclean ⊢
  exact .members (Rendered.mapM_eq_ok h) hclean fun member hmember text =>
    hbody member hmember context.deeper text

/-- The constants of an enum between its braces. -/
theorem Stands.constants {unit : Text} {names : List Text}
    (hclean : Clean (listParts ['{'] ['}'] (names.map fun name => [.word name]))) :
    Stands unit false (listParts ['{'] ['}'] (names.map fun name => [.word name]))
      ('{' :: (Text.join ", " names ++ ['}'])) := by
  have hbracket : ('{', '}') ∈ Stands.brackets := by decide
  have hlegible : ∀ name ∈ names, (Part.word name).Legible := fun name hname =>
    (hclean _ (List.mem_cons_of_mem _ (List.mem_append_left _
      (mem_rowsBy_of_mem (List.mem_map_of_mem hname) List.mem_cons_self)))).1
  have hrows : List.Forall₂ (Stands unit false) (names.map fun name => [.word name]) names := by
    clear hclean
    induction names with
    | nil => exact .nil
    | cons name rest ih =>
      obtain ⟨hname, hrest⟩ := List.forall_mem_cons.1 hlegible
      exact .cons (.word hname) (ih hrest)
  exact ⟨Stands.listed hbracket hrows, ⟨_, _, rfl, by decide⟩, Stands.completed_list hbracket _⟩

theorem Declaration.prints_class {modifiers : List Modifier} {name : Text} {parent : Option TypeRef}
    {interfaces : List TypeRef} {body : List Member} (hbody : ∀ member ∈ body, member.Prints) :
    (Declaration.classType modifiers name parent interfaces body).Prints := by
  intro context text hclean h
  rw [Declaration.render] at h
  obtain ⟨parentText, hparent, h⟩ := Rendered.bind_eq_ok.1 h
  obtain ⟨interfacesText, hinterfaces, h⟩ := Rendered.bind_eq_ok.1 h
  obtain ⟨bodyTexts, hbodyTexts, h⟩ := Rendered.bind_eq_ok.1 h
  cases h
  rw [Declaration.parts] at hclean ⊢
  simp only [List.forall_mem_append, List.forall_mem_cons] at hclean
  obtain ⟨hmodifiers, -, hname, hparentClean, hinterfacesClean, hbodyClean⟩ := hclean
  have hkeyword : Stands context.indentUnit false [.word "class"] "class" :=
    .keyword "class" (by decide)
  have hheader := ((hkeyword.spaced (.word hname.1)).clause hparentClean hparent).clause
    hinterfacesClean hinterfaces
  have hwhole := (hheader.spaced (Member.prints_block hbody hbodyClean hbodyTexts)).modified
    hmodifiers
  simpa using hwhole

theorem Declaration.prints_interface {modifiers : List Modifier} {name : Text}
    {parents : List TypeRef} {body : List Member} (hbody : ∀ member ∈ body, member.Prints) :
    (Declaration.interfaceType modifiers name parents body).Prints := by
  intro context text hclean h
  rw [Declaration.render] at h
  obtain ⟨parentsText, hparents, h⟩ := Rendered.bind_eq_ok.1 h
  obtain ⟨bodyTexts, hbodyTexts, h⟩ := Rendered.bind_eq_ok.1 h
  cases h
  rw [Declaration.parts] at hclean ⊢
  simp only [List.forall_mem_append, List.forall_mem_cons] at hclean
  obtain ⟨hmodifiers, -, hname, hparentsClean, hbodyClean⟩ := hclean
  have hkeyword : Stands context.indentUnit false [.word "interface"] "interface" :=
    .keyword "interface" (by decide)
  have hheader := (hkeyword.spaced (.word hname.1)).clause hparentsClean hparents
  have hwhole := (hheader.spaced (Member.prints_block hbody hbodyClean hbodyTexts)).modified
    hmodifiers
  simpa using hwhole

theorem Declaration.prints_enum (modifiers : List Modifier) (name : Text) (constants : List Text) :
    (Declaration.enumType modifiers name constants).Prints := by
  intro context text hclean h
  cases h
  rw [Declaration.parts] at hclean ⊢
  simp only [List.forall_mem_append, List.forall_mem_cons] at hclean
  obtain ⟨hmodifiers, -, hname, hconstants⟩ := hclean
  have hlist : Stands context.indentUnit false _ _ := .constants hconstants
  have hkeyword : Stands context.indentUnit false [.word "enum"] "enum" := .keyword "enum" (by decide)
  have hwhole := ((hkeyword.spaced (.word hname.1)).spaced hlist).modified hmodifiers
  simpa using hwhole

/-- The text of every declaration stands on lines of its own. -/
theorem Declaration.prints (declaration : Declaration) : declaration.Prints := by
  refine Declaration.induction Declaration.Prints Member.Prints
    (fun _ _ _ _ _ hbody => prints_class hbody) (fun _ _ _ _ hbody => prints_interface hbody)
    prints_enum ?method ?field ?constructor ?property ?initializer ?declaration ?empty declaration
  case method =>
    intro method context text hclean h
    rw [Member.render] at h
    exact Method.stands hclean h
  case field =>
    intro declaration context text hclean h
    rw [Member.render] at h
    obtain ⟨declarationText, hdeclaration, h⟩ := Rendered.bind_eq_ok.1 h
    cases h
    rw [Member.parts] at hclean ⊢
    simp only [List.forall_mem_append] at hclean
    exact (VariableDeclaration.stands hclean.1 hdeclaration).loosen.semicolon
  case constructor =>
    intro constructor context text hclean h
    rw [Member.render] at h
    exact Constructor.stands hclean h
  case property =>
    intro property context text hclean h
    rw [Member.render] at h
    exact Property.stands hclean h
  case initializer =>
    intro initializer context text hclean h
    rw [Member.render] at h
    exact Initializer.stands hclean h
  case declaration =>
    intro nested hnested context text hclean h
    rw [Member.render] at h
    exact hnested context text hclean h
  case empty =>
    intro context text hclean h
    cases h
    exact .sign (.inl rfl)

end ApexLayout
