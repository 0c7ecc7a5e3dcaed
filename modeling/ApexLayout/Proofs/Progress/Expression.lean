import ApexLayout.Proofs.Progress

/-!
Progress of the rules for expressions.

Each rule is given the rule for the expressions inside it, which has to take a token and is called
where less is left than the rule itself may find.
-/

namespace ApexLayout

/-! ## Operators ahead -/

namespace Operators

/-- The operator that begins with `>` is made of tokens that are there. -/
theorem greater?_inside {stream : TokenStream} {text : Text} {count : Nat}
    (h : greater? stream = some (text, count)) : 0 < count ∧ count ≤ stream.remaining := by
  unfold greater? at h
  split at h
  case isFalse => cases h
  case isTrue hfirst =>
    have hone : 0 < stream.remaining := TokenStream.lt_of_holds hfirst
    -- the further `>` are among the tokens behind the first
    have hrow : (((stream.tokens.drop 1).take 2).takeWhile (·.touches ">")).length <
        stream.remaining := by
      have hprefix := List.takeWhile_prefix (l := (stream.tokens.drop 1).take 2) (·.touches ">")
      have hlength := hprefix.length_le
      rw [List.length_take, List.length_drop, ← stream.remaining_eq] at hlength
      omega
    generalize (((stream.tokens.drop 1).take 2).takeWhile (·.touches ">")).length = row at h hrow
    simp only at h
    split at h
    case isTrue hequal =>
      have hlast := TokenStream.lt_of_holds hequal
      obtain ⟨-, rfl⟩ := Prod.mk.inj (Option.some.inj h)
      omega
    case isFalse =>
      obtain ⟨-, rfl⟩ := Prod.mk.inj (Option.some.inj h)
      omega

theorem symbol?_inside {stream : TokenStream} {text : Text} {count : Nat}
    (h : symbol? stream = some (text, count)) : 0 < count ∧ count ≤ stream.remaining := by
  unfold symbol? at h
  split at h
  case h_1 found hfound =>
    cases h
    exact greater?_inside hfound
  case h_2 =>
    split at h
    case h_1 => cases h
    case h_2 token rest htokens =>
      split at h
      case isFalse => cases h
      case isTrue =>
        cases h
        rw [stream.remaining_eq, htokens, List.length_cons]
        omega

theorem binary?_inside {stream : TokenStream} {operator : BinaryOperator} {count : Nat}
    (h : binary? stream = some (operator, count)) : 0 < count ∧ count ≤ stream.remaining := by
  obtain ⟨⟨text, size⟩, hsymbol, h⟩ := Option.bind_eq_some_iff.1 h
  obtain ⟨_, -, h⟩ := Option.bind_eq_some_iff.1 h
  cases h
  exact symbol?_inside hsymbol

theorem assignment?_inside {stream : TokenStream} {operator : Text} {count : Nat}
    (h : assignment? stream = some (operator, count)) : 0 < count ∧ count ≤ stream.remaining := by
  obtain ⟨⟨text, size⟩, hsymbol, h⟩ := Option.bind_eq_some_iff.1 h
  simp only at h
  split at h
  case isFalse => cases h
  case isTrue =>
    cases h
    exact symbol?_inside hsymbol

end Operators

namespace Grammar

variable {bound : Nat} {inner inner' : Grammar Expression} {eats : Expression → Prop}

section

variable (hinner : Proceeds bound always inner inner')

include hinner

/-! ## Arguments and creators -/

theorem proceeds_arguments {eats : List Expression → Prop} :
    Proceeds (bound + 1) eats (arguments inner) (arguments inner') := by
  have hitems : Proceeds bound never (commaSeparated inner) (commaSeparated inner') :=
    proceeds_commaSeparated hinner
  refine proceeds_symbol.behind fun _ => ?_
  refine (proceeds_takeSymbol _).lax.branch (.pure not_false) ?_
  refine hitems.bind fun items => ?_
  exact proceeds_symbol.bind fun _ => .pure not_false

theorem proceeds_entry : Proceeds bound never (entry inner) (entry inner') := by
  refine hinner.lax.bind fun key => ?_
  refine proceeds_symbol.bind fun _ => ?_
  exact hinner.lax.bind fun value => .pure not_false

theorem proceeds_collection : Proceeds bound never (collection inner) (collection inner') := by
  have hvalue : Proceeds (bound + 1) (·.isSome = true) (entryValue inner) (entryValue inner') :=
    (proceeds_takeSymbol _).optional hinner.lax
  have hentries : Proceeds (bound + 1) never _ _ := proceeds_commaItems (proceeds_entry hinner)
  have helements : Proceeds (bound + 1) never _ _ := proceeds_commaItems hinner.lax
  refine (proceeds_takeSymbol _).lax.branch (.pure not_false) ?_
  refine hinner.lax.bind fun first => ?_
  -- the first item decides whether entries or elements follow, but both rows end alike
  refine hvalue.less.lax.bind fun value => ?_
  cases value with
  | some value =>
    refine hentries.less.bind fun entries => ?_
    exact proceeds_symbol.bind fun _ => .pure not_false
  | none =>
    refine helements.less.bind fun elements => ?_
    exact proceeds_symbol.bind fun _ => .pure not_false

theorem proceeds_creatorBody : Proceeds bound never (creatorBody inner) (creatorBody inner') := by
  have harguments : Proceeds (bound + 1) never _ _ := proceeds_arguments hinner
  refine (proceeds_atSymbol _).branch ?_ ?_
  · exact harguments.less.bind fun items => .pure not_false
  refine (proceeds_takeSymbol _).lax.branch ?_ ?_
  · refine hinner.lax.bind fun size => ?_
    exact proceeds_symbol.bind fun _ => .pure not_false
  · exact (proceeds_takeSymbol _).lax.branch (proceeds_collection hinner) (.fail nofun)

theorem proceeds_creation : Proceeds bound never (creation inner) (creation inner') := by
  refine proceeds_typeRef.bind fun type => ?_
  exact (proceeds_creatorBody hinner).bind fun body => .pure not_false

/-! ## Primaries -/

omit hinner in
theorem proceeds_query : Proceeds bound eats query query := by
  have henclosure : Proceeds bound always (enclosure "[" "]" .queryEnd)
      (enclosure "[" "]" .queryEnd) := proceeds_enclosure (by decide)
  refine (Proceeds.look _).bind fun position => ?_
  exact henclosure.behind fun tokens => .pure not_false

omit hinner in
theorem proceeds_dotBeforePathName :
    Proceeds bound (· = true) dotBeforePathName dotBeforePathName :=
  proceeds_skipIf fun _ hfound =>
    TokenStream.lt_of_holds (Bool.and_eq_true_iff.1 (Bool.and_eq_true_iff.1 hfound).1).1

omit hinner in
/-- A further name of a path. -/
theorem proceeds_pathName : Proceeds bound (·.isSome = true)
    (Reader.optional dotBeforePathName takeText) (Reader.optional dotBeforePathName takeText) :=
  proceeds_dotBeforePathName.optional proceeds_takeText

/-- A name is taken without a look at it, so that there is one has to be known. -/
theorem proceeds_named {stream : TokenStream} (hless : stream.remaining < bound + 1)
    (hsome : 0 < stream.remaining) :
    ProceedsAt stream eats (named inner) (named inner') := by
  have hnames : ProceedsAt stream always (Reader.separated dotBeforePathName takeText)
      (Reader.separated dotBeforePathName takeText) := by
    refine .taken hsome hless fun first => ?_
    exact proceeds_pathName.many.bind fun others => .pure not_false
  have harguments : Proceeds (bound + 1) never _ _ := proceeds_arguments hinner
  refine hnames.behind hless fun names => ?_
  refine (Proceeds.look _).branch ?_ ?_
  · exact (Proceeds.skip 2).bind fun _ => .pure not_false
  -- what more than one name stands for does not depend on what follows
  split
  · refine (proceeds_atSymbol _).branch ?_ (.pure not_false)
    exact harguments.less.bind fun items => .pure not_false
  · exact .pure not_false

theorem proceeds_selfReference (leaf : Primary) {stream : TokenStream}
    (hless : stream.remaining < bound + 1) (hsome : 0 < stream.remaining) :
    ProceedsAt stream eats (selfReference inner leaf) (selfReference inner' leaf) := by
  have harguments : Proceeds (bound + 1) never _ _ := proceeds_arguments hinner
  refine .taken hsome hless fun name => ?_
  refine (proceeds_atSymbol _).branch ?_ (.pure not_false)
  exact harguments.less.bind fun items => .pure not_false

theorem proceeds_wordPrimary {stream : TokenStream} (hless : stream.remaining < bound + 1) :
    ProceedsAt stream eats (wordPrimary inner) (wordPrimary inner') := by
  show ProceedsAt stream eats (MonadState.get >>= _) (MonadState.get >>= _)
  refine .ite (fun hliteral => ?_) fun _ => ?_
  · exact .taken (TokenStream.lt_of_holds hliteral) hless fun _ => .pure not_false
  refine .ite (fun hthis => ?_) fun _ => ?_
  · exact proceeds_selfReference hinner _ hless (TokenStream.lt_of_holds hthis)
  refine .ite (fun hsuper => ?_) fun _ => ?_
  · exact proceeds_selfReference hinner _ hless (TokenStream.lt_of_holds hsuper)
  refine .skipIf TokenStream.lt_of_holds hless (proceeds_creation hinner) fun _ => ?_
  refine .ite (fun hname => ?_) fun _ => .fail nofun
  exact proceeds_named hinner hless (TokenStream.lt_of_holds hname)

theorem proceeds_primary : Proceeds (bound + 1) eats (primary inner) (primary inner') := by
  refine .get fun stream hless => ?_
  -- literals and words are taken without a further test, brackets by a rule of their own
  refine .ite (fun hliteral => ?_) fun _ => ?_
  · exact .taken (TokenStream.lt_of_holds hliteral) hless fun _ => .pure not_false
  refine .ite (fun _ => proceeds_wordPrimary hinner hless) fun _ => ?_
  have hparenthesized : Proceeds bound never
      (inner >>= fun value => symbol ")" >>= fun _ => pure (Expression.parenthesized value))
      (inner' >>= fun value => symbol ")" >>= fun _ => pure (Expression.parenthesized value)) := by
    refine hinner.lax.bind fun value => ?_
    exact proceeds_symbol.bind fun _ => .pure not_false
  refine .below hless ((proceeds_takeSymbol _).branchTaken hparenthesized ?_)
  exact .ite proceeds_query (.fail nofun)

/-! ## Steps behind a primary -/

theorem proceeds_link (navigation : Navigation) :
    Proceeds bound never (link inner navigation) (link inner' navigation) := by
  have hcalled := (proceeds_atSymbol "(").guarded (proceeds_arguments hinner)
  refine (Proceeds.look _).bind fun literal => ?_
  refine (Proceeds.require (by decide)).bind fun _ => ?_
  refine (Proceeds.look _).bind fun word => ?_
  refine (Proceeds.require (by decide)).bind fun _ => ?_
  refine proceeds_takeText.bind fun member => ?_
  exact hcalled.less.lax.bind fun called => .pure not_false

theorem proceeds_step :
    Proceeds (bound + 1) (·.isSome = true) (step inner) (step inner') := by
  refine (proceeds_takeSymbol _).branchTaken ?_ ?_
  · exact (proceeds_link hinner _).bind fun link => .pure not_false
  refine (proceeds_takeSymbol _).branchTaken ?_ ?_
  · exact (proceeds_link hinner _).bind fun link => .pure not_false
  refine (proceeds_takeSymbol _).branchTaken ?_ ?_
  · refine hinner.lax.bind fun index => ?_
    exact proceeds_symbol.bind fun _ => .pure not_false
  refine .view fun stream hless => ?_
  refine .ite (fun hoperator => ?_) fun _ => .pure Bool.false_ne_true
  exact .taken (TokenStream.lt_of_holds hoperator) hless fun _ => .pure not_false

theorem proceeds_stepped : Proceeds (bound + 1) eats (stepped inner) (stepped inner') := by
  have hsteps := (proceeds_step hinner).less.many
  refine (proceeds_primary hinner).behind fun first => ?_
  exact hsteps.bind fun steps => .pure not_false

/-! ## Operators in front of an operand -/

omit hinner in
theorem proceeds_castType {eats : TypeRef → Prop} : Proceeds bound eats castType castType := by
  refine proceeds_symbol.behind fun _ => ?_
  refine proceeds_typeRef.bind fun type => ?_
  refine proceeds_symbol.bind fun _ => ?_
  refine (Proceeds.look _).bind fun operand => ?_
  exact (Proceeds.require (by decide)).bind fun _ => .pure not_false

omit hinner in
theorem proceeds_front : Proceeds bound (·.isSome = true) front front := by
  have hcast : Proceeds bound (fun found => (found.map Front.cast).isSome = true)
      (Reader.attempt castType) (Reader.attempt castType) := by
    refine proceeds_castType.attempt.mono fun found hfound => ?_
    rwa [Option.isSome_map] at hfound
  refine .view fun stream hless => ?_
  refine .ite (fun hoperator => ?_) fun _ => ?_
  · exact .taken (TokenStream.lt_of_holds hoperator) hless fun _ => .pure not_false
  · exact .below hless ((proceeds_atSymbol _).branch hcast.map (.pure Bool.false_ne_true))

theorem proceeds_unary : Proceeds (bound + 1) eats (unary inner) (unary inner') := by
  refine proceeds_front.many.bind fun fronts => ?_
  exact (proceeds_stepped hinner).behind fun operand => .pure not_false

/-! ## Rows of operands -/

theorem proceeds_operation :
    Proceeds (bound + 1) (·.isSome = true) (operation inner) (operation inner') := by
  have hoperand : Proceeds (bound + 1) never _ _ := proceeds_unary hinner
  refine (proceeds_takeWord _).branchTaken ?_ ?_
  · exact proceeds_typeRef.bind fun type => .pure not_false
  refine .view fun stream hless => ?_
  cases hfound : Operators.binary? stream with
  | none => exact .pure Bool.false_ne_true
  | some found =>
    obtain ⟨hsome, hinside⟩ := Operators.binary?_inside hfound
    refine .skipped hinside hsome hless fun _ => ?_
    exact hoperand.less.bind fun operand => .pure not_false

theorem proceeds_binary : Proceeds (bound + 1) eats (binary inner) (binary inner') := by
  have hrow := (proceeds_operation hinner).less.many
  refine (proceeds_unary hinner).behind fun first => ?_
  exact hrow.bind fun row => .pure not_false

theorem proceeds_outcomes :
    Proceeds (bound + 1) (·.isSome = true) (outcomes inner) (outcomes inner') := by
  have hotherwise : Proceeds (bound + 1) never _ _ := proceeds_binary hinner
  refine (proceeds_takeSymbol _).branchTaken ?_ (.pure Bool.false_ne_true)
  refine hinner.lax.bind fun thenValue => ?_
  refine proceeds_symbol.bind fun _ => ?_
  exact hotherwise.less.bind fun otherwise => .pure not_false

theorem proceeds_conditional :
    Proceeds (bound + 1) eats (conditional inner) (conditional inner') := by
  have hrow := (proceeds_outcomes hinner).less.many
  refine (proceeds_binary hinner).behind fun first => ?_
  exact hrow.bind fun row => .pure not_false

theorem proceeds_assigned :
    Proceeds (bound + 1) (·.isSome = true) (assigned inner) (assigned inner') := by
  have hvalue : Proceeds (bound + 1) never _ _ := proceeds_conditional hinner
  refine .view fun stream hless => ?_
  cases hfound : Operators.assignment? stream with
  | none => exact .pure Bool.false_ne_true
  | some found =>
    obtain ⟨hsome, hinside⟩ := Operators.assignment?_inside hfound
    refine .skipped hinside hsome hless fun _ => ?_
    exact hvalue.less.bind fun value => .pure not_false

end

theorem proceeds_expressionRule (bound : Nat) (inner inner' : Grammar Expression)
    (hinner : Proceeds bound always inner inner') :
    Proceeds (bound + 1) always (expressionRule inner) (expressionRule inner') := by
  have hrow := (proceeds_assigned hinner).less.many
  refine (proceeds_conditional hinner).behind fun first => ?_
  exact hrow.bind fun row => .pure not_false

theorem proceeds_expression : Proceeds bound eats expression expression :=
  .recursive_self proceeds_expressionRule

/-- An expression is its rule applied to itself. -/
theorem expression_eq : expression = expressionRule expression :=
  Proceeds.recursive_eq proceeds_expressionRule

end Grammar

end ApexLayout
