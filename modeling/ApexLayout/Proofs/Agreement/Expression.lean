import ApexLayout.Proofs.Agreement

/-!
Agreement of the rules for expressions.

The rows that the rules read are folded into trees. A blur goes through every fold, so rows that
look the same give trees that look the same.
-/

namespace ApexLayout

/-! ## Folds under a blur -/

namespace Operators

/-- The operator with its text blurred. -/
def blurOperator (blur : Blur) (operator : BinaryOperator) : BinaryOperator :=
  { operator with text := blur.text operator.text }

/-- The operation with all its texts and queries blurred. -/
def Operation.blur (blur : Blur) : Operation → Operation
  | .binary operator right => .binary (blurOperator blur operator) (right.blur blur)
  | .instanceOf type => .instanceOf (type.blur blur)

/-- The pending operand with all its texts and queries blurred. -/
def Pending.blur (blur : Blur) (pending : Pending) : Pending :=
  ⟨pending.left.blur blur, blurOperator blur pending.operator⟩

theorem reduce_blur (blur : Blur) (level : Nat) (stack : List Pending) (operand : Expression) :
    reduce level (stack.map (Pending.blur blur)) (operand.blur blur) =
      ((reduce level stack operand).1.map (Pending.blur blur),
        (reduce level stack operand).2.blur blur) := by
  induction stack generalizing operand with
  | nil => rfl
  | cons pending outer ih =>
    rw [List.map_cons, reduce, reduce]
    by_cases hlevel : level ≤ pending.operator.precedence
    · have hclose : (pending.blur blur).close (operand.blur blur) =
          (pending.close operand).blur blur := by
        rw [Pending.close, Pending.close, Expression.blur]
        rfl
      rw [if_pos hlevel, if_pos (show level ≤ (pending.blur blur).operator.precedence from hlevel),
        hclose, ih]
    · rw [if_neg hlevel,
        if_neg (show ¬ level ≤ (pending.blur blur).operator.precedence from hlevel)]
      rfl

theorem assembleFrom_blur (blur : Blur) (stack : List Pending) (operand : Expression)
    (row : List Operation) :
    (assembleFrom stack operand row).blur blur =
      assembleFrom (stack.map (Pending.blur blur)) (operand.blur blur)
        (row.map (Operation.blur blur)) := by
  induction row generalizing stack operand with
  | nil =>
    rw [List.map_nil, assembleFrom, assembleFrom, reduce_blur]
  | cons operation rest ih =>
    cases operation with
    | binary operator right =>
      rw [List.map_cons, Operation.blur, assembleFrom, assembleFrom]
      have hlevel : (blurOperator blur operator).precedence = operator.precedence := rfl
      simp only [hlevel, reduce_blur, ih, List.map_cons]
      rfl
    | instanceOf type =>
      rw [List.map_cons, Operation.blur, assembleFrom, assembleFrom]
      simp only [reduce_blur, ih]
      rw [Expression.blur]

theorem assemble_blur (blur : Blur) (first : Expression) (row : List Operation) :
    (assemble first row).blur blur =
      assemble (first.blur blur) (row.map (Operation.blur blur)) :=
  assembleFrom_blur blur [] first row

end Operators

namespace Grammar

/-- The step with all its texts and queries blurred. -/
def Step.blur (blur : Blur) : Step → Step
  | .link added => .link (added.blur blur)
  | .index position => .index (position.blur blur)
  | .operator text => .operator (blur.text text)

theorem steps_blur (blur : Blur) (steps : List Step) (operand : Expression) :
    (steps.foldl Step.apply operand).blur blur =
      (steps.map (Step.blur blur)).foldl Step.apply (operand.blur blur) := by
  induction steps generalizing operand with
  | nil => rfl
  | cons step rest ih =>
    rw [List.foldl_cons, ih, List.map_cons, List.foldl_cons]
    cases step <;> rw [Step.apply, Step.blur, Step.apply, Expression.blur]

/-- The front with all its texts blurred. -/
def Front.blur (blur : Blur) : Front → Front
  | .operator text => .operator (blur.text text)
  | .cast type => .cast (type.blur blur)

theorem fronts_blur (blur : Blur) (fronts : List Front) (operand : Expression) :
    (fronts.foldr Front.apply operand).blur blur =
      (fronts.map (Front.blur blur)).foldr Front.apply (operand.blur blur) := by
  induction fronts with
  | nil => rfl
  | cons front rest ih =>
    rw [List.foldr_cons, List.map_cons, List.foldr_cons, ← ih]
    cases front <;> rw [Front.apply, Front.blur, Front.apply, Expression.blur]

theorem choose_blur (blur : Blur) (first : Expression) (row : List (Expression × Expression)) :
    (choose first row).blur blur =
      choose (first.blur blur) (row.map (Expression.blurEntry blur)) := by
  induction row generalizing first with
  | nil => rfl
  | cons item rest ih =>
    rw [choose, Expression.blur, ih, List.map_cons]
    rfl

/-- The operator and the value with all their texts and queries blurred. -/
def blurAssigned (blur : Blur) (item : Text × Expression) : Text × Expression :=
  (blur.text item.1, item.2.blur blur)

theorem assign_blur (blur : Blur) (target : Expression) (row : List (Text × Expression)) :
    (assign target row).blur blur =
      assign (target.blur blur) (row.map (blurAssigned blur)) := by
  induction row generalizing target with
  | nil => rfl
  | cons item rest ih =>
    rw [assign, Expression.blur, ih, List.map_cons]
    rfl

/-! ## Operators ahead -/

/-- How many of the next two tokens pass a test, from the first on. -/
theorem run_count (stream : TokenStream) (test : Token → Bool) :
    (((stream.tokens.drop 1).take 2).takeWhile test).length =
      if stream.holds 1 test then (if stream.holds 2 test then 2 else 1) else 0 := by
  unfold TokenStream.holds
  match stream.tokens with
  | [] => rfl
  | [_] => rfl
  | [_, second] => cases hsecond : test second <;> simp [hsecond]
  | _ :: second :: third :: _ =>
    cases hsecond : test second <;> cases hthird : test third <;> simp [hsecond, hthird]

theorem holds_skip (stream : TokenStream) (index offset : Nat) (test : Token → Bool) :
    (stream.skip index).holds offset test = stream.holds (index + offset) test := by
  simp [TokenStream.holds, TokenStream.skip]

theorem holds_imp {stream : TokenStream} {index : Nat} {test other : Token → Bool}
    (himp : ∀ token, test token = true → other token = true) (h : stream.holds index test = true) :
    stream.holds index other = true := by
  unfold TokenStream.holds at h ⊢
  cases htoken : stream.tokens[index]? with
  | none => rw [htoken] at h; cases h
  | some token =>
    rw [htoken] at h
    exact himp token h

theorem holds_touches (stream : TokenStream) (index : Nat) (symbol : Text) :
    stream.holds index (·.touches symbol) =
      (stream.symbolAt index symbol && stream.holds index (·.lead.isEmpty)) := by
  unfold TokenStream.symbolAt TokenStream.holds
  cases stream.tokens[index]? <;> rfl

section

variable {blur : Blur} {first second : TokenStream} (h : TokenStream.Alike blur first second)

include h

/-- Behind a `>`, alike streams have the same touching `>` and `=`. -/
theorem touches_alike {index offset : Nat} {symbol : Text}
    (hsymbol : symbol ∈ [">", "="].map String.toList)
    (hgreater : (first.skip index).symbolAt offset ">" = true) :
    (first.skip index).holds (offset + 1) (·.touches symbol) =
      (second.skip index).holds (offset + 1) (·.touches symbol) := by
  rw [holds_touches, holds_touches, ← h.symbolAt index (offset + 1) symbol]
  cases hfound : (first.skip index).symbolAt (offset + 1) symbol with
  | false => rfl
  | true =>
    have hin : (first.skip index).symbolInAt (offset + 1) ([">", "="].map String.toList) = true :=
      holds_imp (fun token htoken => List.any_eq_true.2 ⟨symbol, hsymbol, htoken⟩) hfound
    unfold TokenStream.symbolInAt at hin
    unfold TokenStream.symbolAt at hgreater
    rw [holds_skip] at hin hgreater
    rw [holds_skip, holds_skip]
    exact congrArg _ (h.touching (index + offset) hgreater hin)

/-- Alike streams have the same operator ahead, made of as many tokens. -/
theorem greater?_alike (index : Nat) :
    Operators.greater? (first.skip index) = Operators.greater? (second.skip index) := by
  unfold Operators.greater?
  rw [← h.symbolAt index 0 ">"]
  by_cases hgreater : (first.skip index).symbolAt 0 ">" = true
  · rw [if_pos hgreater, if_pos hgreater, run_count, run_count]
    -- at most two signs are glued to the first; each counts if the one before it is there
    have hone := touches_alike h (by decide : ">".toList ∈ [">", "="].map String.toList) hgreater
    rw [← hone]
    have hequal : "=".toList ∈ [">", "="].map String.toList := by decide
    cases hnext : (first.skip index).holds 1 (·.touches ">") with
    | false =>
      simp only [Bool.false_eq_true, if_false, Nat.add_zero, touches_alike h hequal hgreater]
    | true =>
      have hsecond : (first.skip index).symbolAt 1 ">" = true := by
        rw [holds_touches] at hnext
        exact (Bool.and_eq_true_iff.1 hnext).1
      have htwo := touches_alike h (by decide : ">".toList ∈ [">", "="].map String.toList) hsecond
      rw [← htwo]
      cases hlast : (first.skip index).holds 2 (·.touches ">") with
      | false =>
        simp only [Bool.false_eq_true, if_true, if_false, touches_alike h hequal hsecond]
      | true =>
        have hthird : (first.skip index).symbolAt 2 ">" = true := by
          rw [holds_touches] at hlast
          exact (Bool.and_eq_true_iff.1 hlast).1
        simp only [if_true, touches_alike h hequal hthird]
  · rw [if_neg hgreater, if_neg hgreater]

theorem symbol?_alike (index : Nat) :
    Operators.symbol? (first.skip index) = Operators.symbol? (second.skip index) := by
  have hdrop := h.drop index
  unfold Operators.symbol?
  rw [greater?_alike h]
  generalize (first.skip index).tokens = tokens at hdrop ⊢
  generalize (second.skip index).tokens = tokens' at hdrop ⊢
  cases hdrop with
  | nil => rfl
  | @cons token token' _ _ halike _ =>
    by_cases hkind : token.kind = .symbol
    · simp only [← halike.kind, hkind, if_true, halike.symbol hkind]
    · simp only [← halike.kind, hkind, if_false]

/-! ## Arguments and creators -/

variable {inner inner' : Grammar Expression}
  (hinner : Agrees first second (Expression.blur blur) inner inner')

section

include hinner

theorem agrees_arguments :
    Agrees first second (List.map (Expression.blur blur)) (arguments inner) (arguments inner') := by
  refine (agrees_symbol h _).seq fun _ _ => ?_
  refine (agrees_takeSymbol h _).branch (.pure rfl) ?_
  refine (agrees_commaSeparated h hinner).bind fun _ _ hitems => ?_
  exact (agrees_symbol h _).seq fun _ _ => .pure hitems

theorem agrees_entry :
    Agrees first second (Expression.blurEntry blur) (entry inner) (entry inner') := by
  refine hinner.bind fun _ _ hkey => ?_
  refine (agrees_symbol h _).seq fun _ _ => ?_
  exact hinner.bind fun _ _ hvalue => .pure (Prod.ext hkey hvalue)

theorem agrees_collection :
    Agrees first second (CreatorBody.blur blur) (collection inner) (collection inner') := by
  refine (agrees_takeSymbol h _).branch (.pure rfl) (hinner.bind fun head head' hhead => ?_)
  refine (Agrees.optional (agrees_takeSymbol h _) hinner).bind fun value value' hvalue => ?_
  -- the first item has an arrow behind it on both sides or on neither
  cases value with
  | none =>
    cases value' with
    | some value' => cases hvalue
    | none =>
      have helements := Agrees.many h.remaining (.optional (agrees_takeSymbol h ",") hinner)
      refine helements.bind fun items items' hitems => ?_
      refine (agrees_symbol h _).seq fun _ _ => .pure ?_
      simp only [CreatorBody.blur, Expression.blurAll_eq_map, List.map_cons, hhead, hitems]
  | some value =>
    cases value' with
    | none => cases hvalue
    | some value' =>
      have hentries := Agrees.many h.remaining
        (.optional (agrees_takeSymbol h ",") (agrees_entry h hinner))
      refine hentries.bind fun items items' hitems => ?_
      refine (agrees_symbol h _).seq fun _ _ => .pure ?_
      simp only [CreatorBody.blur, Expression.blurEntries_eq_map, List.map_cons, hitems,
        Expression.blurEntry, hhead, Option.some.inj hvalue]

theorem agrees_creatorBody :
    Agrees first second (CreatorBody.blur blur) (creatorBody inner) (creatorBody inner') := by
  refine (agrees_atSymbol h _).branch ?_ ?_
  · refine (agrees_arguments h hinner).bind fun _ _ hitems => .pure ?_
    simp only [CreatorBody.blur, Expression.blurAll_eq_map, hitems]
  refine (agrees_takeSymbol h _).branch ?_ ?_
  · refine hinner.bind fun _ _ hsize => ?_
    refine (agrees_symbol h _).seq fun _ _ => .pure ?_
    simp only [CreatorBody.blur, hsize]
  exact (agrees_takeSymbol h _).branch (agrees_collection h hinner) (.fail _)

theorem agrees_creation :
    Agrees first second (Expression.blur blur) (creation inner) (creation inner') := by
  refine (agrees_typeRef h).bind fun _ _ htype => ?_
  refine (agrees_creatorBody h hinner).bind fun _ _ hbody => .pure ?_
  simp only [Expression.blur, htype, hbody]

/-! ## Primaries -/

omit hinner in
theorem agrees_query : Agrees first second (Expression.blur blur) query query := by
  intro index
  obtain ⟨count, hrun, hrun'⟩ | ⟨last, hrun, hrun'⟩ := enclosure_alike h "[" "]" .queryEnd index
  · refine .inl ⟨_, _, index + count, ?_, Reader.bind_of_ok hrun, Reader.bind_of_ok hrun'⟩
    exact congrArg (fun embedded => Expression.primary (.query embedded)) (h.query index count)
  · have hlook : ∀ stream : TokenStream, look (·.position) stream = .ok stream.position stream :=
      fun stream => look_eq_ok.2 ⟨rfl, rfl⟩
    exact .inr ⟨_, last, (Reader.bind_of_ok (hlook _)).trans (Reader.bind_of_error hrun),
      (Reader.bind_of_ok (hlook _)).trans (Reader.bind_of_error hrun')⟩

omit hinner in
theorem agrees_dotBeforePathName :
    Agrees first second id dotBeforePathName dotBeforePathName := by
  refine agrees_skipIf fun index => ?_
  show ((first.skip index).symbolAt 0 "." && (first.skip index).identifierAt 1 &&
    !(first.skip index).symbolAt 2 "(") = _
  rw [h.symbolAt, h.identifierAt, h.symbolAt]

theorem agrees_named :
    Agrees first second (Expression.blur blur) (named inner) (named inner') := by
  have hrow := Agrees.separated h.remaining (agrees_dotBeforePathName h) (agrees_takeText h)
  refine hrow.bind fun names names' hnames => ?_
  refine Agrees.branch (.look fun index => ?_) ((Agrees.skip 2).seq fun _ _ => .pure ?_) ?_
  · rw [h.symbolAt, h.wordAt]
  · simp only [Expression.blur, Primary.blur, TypeRef.blur_path, hnames]
  -- one name may be called, several make a path
  have hpath : ∀ names names' : List Text, names.map blur.text = names'.map blur.text →
      Agrees first second (Expression.blur blur)
        (Pure.pure (.primary (.path (TypeRef.path names))))
        (Pure.pure (.primary (.path (TypeRef.path names')))) := by
    intro names names' hnames
    exact .pure (by simp only [Expression.blur, Primary.blur, TypeRef.blur_path, hnames])
  have hlength : names.length = names'.length := by simpa using congrArg List.length hnames
  obtain _ | ⟨name, _ | ⟨second, others⟩⟩ := names <;>
    obtain _ | ⟨name', _ | ⟨second', others'⟩⟩ := names' <;>
    try (simp at hlength; done)
  · exact hpath _ _ hnames
  · obtain ⟨hname, -⟩ := List.cons.inj hnames
    refine (agrees_atSymbol h _).branch ?_ (.pure ?_)
    · refine (agrees_arguments h hinner).bind fun _ _ hitems => .pure ?_
      simp only [Expression.blur, Expression.blurAll_eq_map, hname, hitems]
    · simp only [Expression.blur, Primary.blur, hname]
  · exact hpath _ _ hnames

theorem agrees_selfReference (leaf : Primary) :
    Agrees first second (Expression.blur blur) (selfReference inner leaf)
      (selfReference inner' leaf) := by
  refine (agrees_takeText h).bind fun _ _ hname => ?_
  refine (agrees_atSymbol h _).branch ?_ (.pure rfl)
  refine (agrees_arguments h hinner).bind fun _ _ hitems => .pure ?_
  simp only [Expression.blur, Expression.blurAll_eq_map, hname, hitems]

theorem agrees_wordPrimary :
    Agrees first second (Expression.blur blur) (wordPrimary inner) (wordPrimary inner') := by
  refine .get fun index => ?_
  refine .ite (h.wordInAt index 0 _) ?_ ?_
  · refine (agrees_takeText h).bind fun _ _ htext => .pure ?_
    simp only [Expression.blur, Primary.blur, htext]
  refine .ite (h.wordAt index 0 _) (agrees_selfReference h hinner _) ?_
  refine .ite (h.wordAt index 0 _) (agrees_selfReference h hinner _) ?_
  refine (agrees_takeWord h _).branch (agrees_creation h hinner) ?_
  exact .ite (h.identifierAt index 0) (agrees_named h hinner) (.fail _)

theorem agrees_primary :
    Agrees first second (Expression.blur blur) (primary inner) (primary inner') := by
  refine .get fun index => ?_
  refine .ite (h.holds index 0 fun _ _ halike => ?_) ?_ ?_
  · rw [halike.kind]
  · refine (agrees_takeText h).bind fun _ _ htext => .pure ?_
    simp only [Expression.blur, Primary.blur, htext]
  refine .ite (h.kindAt index 0 _) (agrees_wordPrimary h hinner) ?_
  refine (agrees_takeSymbol h _).branch ?_ ?_
  · refine hinner.bind fun _ _ hvalue => ?_
    refine (agrees_symbol h _).seq fun _ _ => .pure ?_
    simp only [Expression.blur, hvalue]
  exact .ite (h.symbolAt index 0 _) (agrees_query h) (.fail _)

/-! ## Steps and fronts -/

omit hinner in
theorem agrees_atSymbolIn (texts : List Text) :
    Agrees first second id (look (·.symbolInAt 0 texts)) (look (·.symbolInAt 0 texts)) :=
  .look fun index => h.symbolInAt index 0 texts

theorem agrees_link (navigation : Navigation) :
    Agrees first second (Link.blur blur) (link inner navigation) (link inner' navigation) := by
  refine (agrees_atWord h _).bind fun _ _ hclass => ?_
  refine (Agrees.require (congrArg (! ·) hclass) _).seq fun _ _ => ?_
  have hlook : Agrees first second id (look (·.holds 0 (·.kind == .word)))
      (look (·.holds 0 (·.kind == .word))) := .look fun index => h.kindAt index 0 _
  refine hlook.bind fun _ _ hfound => ?_
  refine (Agrees.require hfound _).seq fun _ _ => ?_
  refine (agrees_takeText h).bind fun _ _ hmember => ?_
  refine (Agrees.optional (agrees_atSymbol h _) (agrees_arguments h hinner)).bind
    fun _ _ hitems => .pure ?_
  simp only [Link.blur_eq, hmember, hitems]

theorem agrees_step :
    Agrees first second (Option.map (Step.blur blur)) (step inner) (step inner') := by
  refine (agrees_takeSymbol h _).branch ?_ ?_
  · refine (agrees_link h hinner _).bind fun _ _ hlink => .pure ?_
    simp only [Option.map_some, Step.blur, hlink]
  refine (agrees_takeSymbol h _).branch ?_ ?_
  · refine (agrees_link h hinner _).bind fun _ _ hlink => .pure ?_
    simp only [Option.map_some, Step.blur, hlink]
  refine (agrees_takeSymbol h _).branch ?_ ?_
  · refine hinner.bind fun _ _ hindex => ?_
    refine (agrees_symbol h _).seq fun _ _ => .pure ?_
    simp only [Option.map_some, Step.blur, hindex]
  refine (agrees_atSymbolIn h _).branch ?_ (.pure rfl)
  refine (agrees_takeText h).bind fun _ _ htext => .pure ?_
  simp only [Option.map_some, Step.blur, htext]

theorem agrees_stepped :
    Agrees first second (Expression.blur blur) (stepped inner) (stepped inner') := by
  refine (agrees_primary h hinner).bind fun _ _ hhead => ?_
  refine (Agrees.many h.remaining (agrees_step h hinner)).bind fun _ _ hsteps => .pure ?_
  rw [steps_blur, steps_blur, hhead, hsteps]

omit hinner in
theorem agrees_castType : Agrees first second (TypeRef.blur blur) castType castType := by
  refine (agrees_symbol h _).seq fun _ _ => ?_
  refine (agrees_typeRef h).bind fun _ _ htype => ?_
  refine (agrees_symbol h _).seq fun _ _ => ?_
  have hlook : Agrees first second id (look (·.holds 0 castable)) (look (·.holds 0 castable)) :=
    .look fun index => h.holds index 0 fun _ _ halike => halike.castable
  refine hlook.bind fun _ _ hfound => ?_
  exact (Agrees.require hfound _).seq fun _ _ => .pure htype

omit hinner in
theorem agrees_front : Agrees first second (Option.map (Front.blur blur)) front front := by
  refine (agrees_atSymbolIn h _).branch ?_ ?_
  · refine (agrees_takeText h).bind fun _ _ htext => .pure ?_
    simp only [Option.map_some, Front.blur, htext]
  refine (agrees_atSymbol h _).branch ?_ (.pure rfl)
  refine (agrees_castType h).attempt.bind fun type type' htype => .pure ?_
  cases type with
  | none =>
    cases type' with
    | none => rfl
    | some _ => cases htype
  | some type =>
    cases type' with
    | none => cases htype
    | some type' => simp only [Option.map_some, Front.blur, Option.some.inj htype]

theorem agrees_unary :
    Agrees first second (Expression.blur blur) (unary inner) (unary inner') := by
  refine (Agrees.many h.remaining (agrees_front h)).bind fun _ _ hfronts => ?_
  refine (agrees_stepped h hinner).bind fun _ _ hoperand => .pure ?_
  rw [fronts_blur, fronts_blur, hfronts, hoperand]

/-! ## Rows -/

theorem agrees_operation :
    Agrees first second (Option.map (Operators.Operation.blur blur)) (operation inner)
      (operation inner') := by
  refine (agrees_takeWord h _).branch ?_ ?_
  · refine (agrees_typeRef h).bind fun _ _ htype => .pure ?_
    simp only [Option.map_some, Operators.Operation.blur, htype]
  have hlook : Agrees first second id (look Operators.binary?) (look Operators.binary?) := by
    refine .look fun index => ?_
    unfold Operators.binary?
    rw [symbol?_alike h]
  refine hlook.bind fun found found' hfound => ?_
  obtain rfl : found = found' := hfound
  cases found with
  | none => exact .pure rfl
  | some found =>
    refine (Agrees.skip _).seq fun _ _ => ?_
    refine (agrees_unary h hinner).bind fun _ _ hright => .pure ?_
    simp only [Option.map_some, Operators.Operation.blur, hright]

theorem agrees_binary :
    Agrees first second (Expression.blur blur) (binary inner) (binary inner') := by
  refine (agrees_unary h hinner).bind fun _ _ hhead => ?_
  refine (Agrees.many h.remaining (agrees_operation h hinner)).bind fun _ _ hrow => .pure ?_
  rw [Operators.assemble_blur, Operators.assemble_blur, hhead, hrow]

theorem agrees_outcomes :
    Agrees first second (Option.map (Expression.blurEntry blur)) (outcomes inner)
      (outcomes inner') := by
  refine (agrees_takeSymbol h _).branch ?_ (.pure rfl)
  refine hinner.bind fun _ _ hthen => ?_
  refine (agrees_symbol h _).seq fun _ _ => ?_
  refine (agrees_binary h hinner).bind fun _ _ helse => ?_
  exact .pure (congrArg some (Prod.ext hthen helse))

theorem agrees_conditional :
    Agrees first second (Expression.blur blur) (conditional inner) (conditional inner') := by
  refine (agrees_binary h hinner).bind fun _ _ hhead => ?_
  refine (Agrees.many h.remaining (agrees_outcomes h hinner)).bind fun _ _ hrow => .pure ?_
  rw [choose_blur, choose_blur, hhead, hrow]

theorem agrees_assigned :
    Agrees first second (Option.map (blurAssigned blur)) (assigned inner) (assigned inner') := by
  have hlook : Agrees first second id (look Operators.assignment?)
      (look Operators.assignment?) := by
    refine .look fun index => ?_
    unfold Operators.assignment?
    rw [symbol?_alike h]
  refine hlook.bind fun found found' hfound => ?_
  obtain rfl : found = found' := hfound
  cases found with
  | none => exact .pure rfl
  | some found =>
    refine (Agrees.skip _).seq fun _ _ => ?_
    refine (agrees_conditional h hinner).bind fun _ _ hvalue => ?_
    exact .pure (congrArg some (Prod.ext rfl hvalue))

theorem agrees_expressionRule :
    Agrees first second (Expression.blur blur) (expressionRule inner) (expressionRule inner') := by
  refine (agrees_conditional h hinner).bind fun _ _ hhead => ?_
  refine (Agrees.many h.remaining (agrees_assigned h hinner)).bind fun _ _ hrow => .pure ?_
  rw [assign_blur, assign_blur, hhead, hrow]

end

/-- Expressions are read alike from alike streams. -/
theorem agrees_expression :
    Agrees first second (Expression.blur blur) expression expression :=
  .recursive h.remaining fun _ _ hinner => agrees_expressionRule h hinner

end

end Grammar

end ApexLayout
