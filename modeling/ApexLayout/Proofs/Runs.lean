import ApexLayout.Proofs.Coverage
import ApexLayout.Proofs.Replay.Expression

/-!
Runs of the rules for expressions, taken apart.

Each rule is given the rule for the expressions inside. What a run of it read is said once: the form
of the result, and that the expressions inside it were read one after another (`Covers`). Claims
about expressions that were read follow by cases on these.
-/

namespace ApexLayout

theorem TypeRef.faults_path {names : List Text} (h : names ≠ []) :
    (TypeRef.path names).faults = [] := by
  rw [TypeRef.faults_eq_flatMap (by simpa [TypeRef.path] using h), TypeRef.path]
  simp [List.flatMap_map]

namespace Grammar

variable {inner : Grammar Expression} {source middle rest : TokenStream}

/-! ## Arguments and creators -/

theorem covers_arguments {items : List Expression} (h : arguments inner source = .ok items rest) :
    Covers inner source (Expression.faultsAll items) items rest := by
  have trail := Covers.trail inner
  obtain ⟨_, opened, hopened, h⟩ := Reader.bind_eq_ok.1 h
  refine trail.behind (.symbol _) hopened ?_
  obtain ⟨empty, first, hempty, h⟩ := Reader.bind_eq_ok.1 h
  refine trail.behind (.takeSymbol _) hempty ?_
  split at h
  · cases h
    exact trail.refl _
  · obtain ⟨values, second, hvalues, h⟩ := Reader.bind_eq_ok.1 h
    obtain ⟨_, last, hclosed, h⟩ := Reader.bind_eq_ok.1 h
    cases h
    exact trail.before (covers_commaSeparated hvalues) (.symbol _) hclosed

theorem covers_entry : ∀ source item rest, entry inner source = .ok item rest →
    Covers inner source (item.1.faults ++ item.2.faults) [item.1, item.2] rest := by
  intro source item rest h
  have trail := Covers.trail inner
  obtain ⟨key, first, hkey, h⟩ := Reader.bind_eq_ok.1 h
  obtain ⟨_, second, harrow, h⟩ := Reader.bind_eq_ok.1 h
  obtain ⟨value, last, hvalue, h⟩ := Reader.bind_eq_ok.1 h
  cases h
  exact trail.append (trail.before (.one hkey) (.symbol _) harrow) (.one hvalue)

theorem covers_collection {body : CreatorBody} (h : collection inner source = .ok body rest) :
    Covers inner source body.faults body.inner rest := by
  have trail := Covers.trail inner
  have hitem : ∀ source value rest, inner source = .ok value rest →
      Covers inner source value.faults [value] rest := fun _ _ _ => .one
  obtain ⟨empty, start, hempty, h⟩ := Reader.bind_eq_ok.1 h
  refine trail.behind (.takeSymbol _) hempty ?_
  split at h
  · cases h
    exact trail.refl _
  obtain ⟨first, second, hfirst, h⟩ := Reader.bind_eq_ok.1 h
  obtain ⟨value, third, hvalue, h⟩ := Reader.bind_eq_ok.1 h
  have hentry := trail.optional (.takeSymbol _) hitem hvalue
  cases value with
  | some value =>
    obtain ⟨others, fourth, hothers, h⟩ := Reader.bind_eq_ok.1 h
    obtain ⟨_, last, hclosed, h⟩ := Reader.bind_eq_ok.1 h
    cases h
    have hrow := trail.optionals (.takeSymbol _) covers_entry hothers
    rw [CreatorBody.faults_eq_flatMap, CreatorBody.inner]
    simpa [List.flatMap_assoc] using
      trail.before (trail.append (.one hfirst) (trail.append hentry hrow)) (.symbol _) hclosed
  | none =>
    obtain ⟨others, fourth, hothers, h⟩ := Reader.bind_eq_ok.1 h
    obtain ⟨_, last, hclosed, h⟩ := Reader.bind_eq_ok.1 h
    cases h
    have hrow := trail.optionals (.takeSymbol _) hitem hothers
    rw [CreatorBody.faults_eq_flatMap, CreatorBody.inner]
    simpa using trail.before (trail.append (.one hfirst) (trail.append hentry hrow)) (.symbol _)
      hclosed

theorem covers_creatorBody {body : CreatorBody} (h : creatorBody inner source = .ok body rest) :
    Covers inner source body.faults body.inner rest := by
  have trail := Covers.trail inner
  obtain ⟨called, first, hcalled, h⟩ := Reader.bind_eq_ok.1 h
  refine trail.behind (.atSymbol _) hcalled ?_
  split at h
  · obtain ⟨items, last, hitems, h⟩ := Reader.bind_eq_ok.1 h
    cases h
    exact covers_arguments hitems
  obtain ⟨sized, second, hsized, h⟩ := Reader.bind_eq_ok.1 h
  refine trail.behind (.takeSymbol _) hsized ?_
  split at h
  · obtain ⟨size, third, hsize, h⟩ := Reader.bind_eq_ok.1 h
    obtain ⟨_, last, hclosed, h⟩ := Reader.bind_eq_ok.1 h
    cases h
    exact trail.before (.one hsize) (.symbol _) hclosed
  obtain ⟨filled, third, hfilled, h⟩ := Reader.bind_eq_ok.1 h
  refine trail.behind (.takeSymbol _) hfilled ?_
  split at h
  · exact covers_collection h
  · cases h

/-! ## Primaries -/

/-- The text of a query: its tokens as the source has them. -/
def queryText (tokens : List Token) : Text :=
  (tokens.head?.map Token.text).getD [] ++ (tokens.tail.map Token.source).flatten

/-- What an expression without operators and steps is read from. -/
inductive PrimaryRun (inner : Grammar Expression) :
    TokenStream → Expression → TokenStream → Prop
  | leaf {source rest : TokenStream} {leaf : Primary} (sound : leaf.faults = [])
      (covers : Covers inner source [] [] rest) : PrimaryRun inner source (.primary leaf) rest
  | query {source rest : TokenStream} {tokens : List Token}
      (ahead : source.symbolAt 0 "[" = true)
      (run : enclosure "[" "]" .queryEnd source = .ok tokens rest) :
      PrimaryRun inner source (.primary (.query ⟨queryText tokens, some source.position⟩)) rest
  | call {source rest : TokenStream} {name : Text} {items : List Expression}
      (covers : Covers inner source (Expression.faultsAll items) items rest) :
      PrimaryRun inner source (.call name items) rest
  | creation {source rest : TokenStream} {type : TypeRef} {body : CreatorBody}
      (sound : type.faults = []) (covers : Covers inner source body.faults body.inner rest) :
      PrimaryRun inner source (.creation type body) rest
  | parenthesized {source rest : TokenStream} {value : Expression}
      (covers : Covers inner source value.faults [value] rest) :
      PrimaryRun inner source (.parenthesized value) rest

/-- Tokens may be passed over in front of a primary that is not a query. -/
theorem run_selfReference {leaf : Primary} {value : Expression} (hleaf : leaf.faults = [])
    (h : selfReference inner leaf source = .ok value rest) :
    PrimaryRun inner source value rest := by
  have trail := Covers.trail inner
  obtain ⟨name, first, hname, h⟩ := Reader.bind_eq_ok.1 h
  obtain ⟨called, second, hcalled, h⟩ := Reader.bind_eq_ok.1 h
  split at h
  · obtain ⟨items, last, hitems, h⟩ := Reader.bind_eq_ok.1 h
    cases h
    exact .call (trail.behind .takeText hname (trail.behind (.atSymbol _) hcalled
      (covers_arguments hitems)))
  · cases h
    exact .leaf hleaf (trail.behind .takeText hname (trail.advance (.atSymbol _) hcalled))

theorem advances_dotBeforePathName : Advances dotBeforePathName :=
  (Advances.look _).bind fun _ => .ite ((Advances.skip 1).bind fun _ => .pure _) (.pure _)

theorem run_named {value : Expression} (h : named inner source = .ok value rest) :
    PrimaryRun inner source value rest := by
  have trail := Covers.trail inner
  obtain ⟨names, first, hnames, h⟩ := Reader.bind_eq_ok.1 h
  have hfirst : Covers inner source [] [] first :=
    trail.advance (.separated advances_dotBeforePathName .takeText) hnames
  have hne : names ≠ [] := by
    obtain ⟨_, _, _, hnames⟩ := Reader.bind_eq_ok.1 hnames
    obtain ⟨_, _, _, hnames⟩ := Reader.bind_eq_ok.1 hnames
    cases hnames
    simp
  obtain ⟨isClass, second, hclass, h⟩ := Reader.bind_eq_ok.1 h
  have hsecond := trail.append hfirst (trail.advance (.look _) hclass)
  split at h
  · obtain ⟨_, last, hskip, h⟩ := Reader.bind_eq_ok.1 h
    cases h
    exact .leaf (TypeRef.faults_path hne) (trail.append hsecond (trail.advance (.skip 2) hskip))
  split at h
  · obtain ⟨called, third, hcalled, h⟩ := Reader.bind_eq_ok.1 h
    have hthird := trail.append hsecond (trail.advance (.atSymbol _) hcalled)
    split at h
    · obtain ⟨items, last, hitems, h⟩ := Reader.bind_eq_ok.1 h
      cases h
      exact .call (trail.append hthird (covers_arguments hitems))
    · cases h
      exact .leaf rfl hthird
  · cases h
    exact .leaf (TypeRef.faults_path hne) hsecond

theorem WordAlternative.run {value : Expression} (h : WordAlternative inner source value rest) :
    PrimaryRun inner source value rest := by
  have trail := Covers.trail inner
  cases h with
  | literal _ taken => exact .leaf rfl (trail.advance .takeText taken)
  | this _ read => exact run_selfReference rfl read
  | super _ read => exact run_selfReference rfl read
  | creation taken read =>
    obtain ⟨type, second, htype, h⟩ := Reader.bind_eq_ok.1 read
    obtain ⟨body, last, hbody, h⟩ := Reader.bind_eq_ok.1 h
    cases h
    exact .creation (typeRef_faults htype) (trail.behind (.takeWord _) taken
      (trail.behind .typeRef htype (covers_creatorBody hbody)))
  | named _ read => exact run_named read

theorem run_primary {value : Expression} (h : primary inner source = .ok value rest) :
    PrimaryRun inner source value rest := by
  have trail := Covers.trail inner
  cases primary_cases h with
  | literal _ taken => exact .leaf rfl (trail.advance .takeText taken)
  | word _ read => exact read.run
  | parenthesized taken read closed =>
    exact .parenthesized (trail.behind (.takeSymbol _) taken
      (trail.before (.one read) (.symbol _) closed))
  | query ahead read =>
    obtain ⟨position, second, hposition, h⟩ := Reader.bind_eq_ok.1 read
    obtain ⟨tokens, last, htokens, h⟩ := Reader.bind_eq_ok.1 h
    cases h
    obtain ⟨rfl, rfl⟩ := look_eq_ok.1 hposition
    exact .query ahead htokens

/-! ## Steps -/

/-- What a step behind an operand is read from. -/
inductive StepRun (inner : Grammar Expression) : TokenStream → Step → TokenStream → Prop
  | link {source rest : TokenStream} {navigation : Navigation} {token : Token}
      {arguments : Option (List Expression)} (named : token ∈ source.tokens)
      (covers : Covers inner source (Expression.faultsAll (arguments.getD []))
        (arguments.getD []) rest) :
      StepRun inner source (.link ⟨navigation, token.text, arguments⟩) rest
  | index {source rest : TokenStream} {value : Expression}
      (covers : Covers inner source value.faults [value] rest) :
      StepRun inner source (.index value) rest
  | operator {source rest : TokenStream} {text : Text} (known : text ∈ Operators.trailing)
      (covers : Covers inner source [] [] rest) : StepRun inner source (.operator text) rest

theorem mem_of_mem_skip {token : Token} {count : Nat} (h : token ∈ (source.skip count).tokens) :
    token ∈ source.tokens :=
  List.mem_of_mem_drop h

theorem run_link {navigation : Navigation} {value : Link}
    (hbehind : Covers inner source [] [] middle)
    (hmem : ∀ token ∈ middle.tokens, token ∈ source.tokens)
    (h : link inner navigation middle = .ok value rest) :
    StepRun inner source (.link value) rest := by
  have trail := Covers.trail inner
  obtain ⟨isClass, first, hclass, h⟩ := Reader.bind_eq_ok.1 h
  obtain ⟨-, rfl⟩ := look_eq_ok.1 hclass
  obtain ⟨_, second, hrequire, h⟩ := Reader.bind_eq_ok.1 h
  obtain ⟨-, rfl⟩ := require_eq_ok.1 hrequire
  obtain ⟨isWord, third, hlook, h⟩ := Reader.bind_eq_ok.1 h
  obtain ⟨hword, rfl⟩ := look_eq_ok.1 hlook
  obtain ⟨_, fourth, hrequire, h⟩ := Reader.bind_eq_ok.1 h
  obtain ⟨rfl, rfl⟩ := require_eq_ok.1 hrequire
  obtain ⟨member, fifth, hmember, h⟩ := Reader.bind_eq_ok.1 h
  obtain ⟨called, last, hcalled, h⟩ := Reader.bind_eq_ok.1 h
  cases h
  -- the member is the text of the word in front
  obtain ⟨token, htoken, rfl⟩ : ∃ token ∈ middle.tokens, token.text = member := by
    unfold TokenStream.holds at hword
    obtain ⟨_, _, hnext, hmember⟩ := Reader.bind_eq_ok.1 hmember
    obtain ⟨rfl, rfl⟩ := look_eq_ok.1 hnext
    obtain ⟨_, _, _, hmember⟩ := Reader.bind_eq_ok.1 hmember
    cases hmember
    unfold TokenStream.next?
    cases htokens : middle.tokens with
    | nil => rw [htokens] at hword; cases hword
    | cons token others => exact ⟨token, List.mem_cons_self, rfl⟩
  refine .link (hmem token htoken) (trail.append hbehind (trail.behind .takeText hmember ?_))
  cases called with
  | none => exact trail.advance (.atSymbol _) (Reader.optional_eq_none.1 hcalled)
  | some items =>
    obtain ⟨behind, htest, hitems⟩ := Reader.optional_eq_some.1 hcalled
    exact trail.behind (.atSymbol _) htest (covers_arguments hitems)

/-- A symbol that is taken is the one that was found ahead. -/
theorem takeText_symbol {texts : List Text} {text : Text}
    (hknown : source.symbolInAt 0 texts = true) (h : takeText source = .ok text rest) :
    text ∈ texts ∧ pieceAt source.pieces 0 (·.isSymbol text) = true ∧ rest = source.skip 1 := by
  rw [TokenStream.symbolInAt_eq] at hknown
  obtain ⟨piece, others, hpieces, hpiece⟩ := pieceAt_zero_true hknown
  obtain ⟨rfl, -⟩ := takeText_ok h hpieces
  obtain ⟨symbol, hmem, hsymbol⟩ := List.any_eq_true.1 hpiece
  have htext := (Piece.isSymbol_iff.1 hsymbol).2
  obtain ⟨_, _, hlook, h⟩ := Reader.bind_eq_ok.1 h
  obtain ⟨-, rfl⟩ := look_eq_ok.1 hlook
  obtain ⟨_, _, hskip, h⟩ := Reader.bind_eq_ok.1 h
  cases h
  refine ⟨htext ▸ hmem, ?_, (skip_eq_ok.1 hskip).symm⟩
  rw [hpieces, pieceAt_zero, htext]
  exact hsymbol

theorem run_step : ∀ source value rest, step inner source = .ok (some value) rest →
    StepRun inner source value rest := by
  intro source value rest h
  have trail := Covers.trail inner
  cases step_cases h with
  | link taken read =>
    exact run_link (trail.advance (.takeSymbol _) taken) (fun _ => mem_of_mem_skip) read
  | index taken read closed =>
    exact .index (trail.behind (.takeSymbol _) taken (trail.before (.one read) (.symbol _) closed))
  | operator ahead taken =>
    exact .operator (takeText_symbol ahead taken).1 (trail.advance .takeText taken)

theorem step_none (h : step inner source = .ok none rest) : Covers inner source [] [] rest := by
  cases step_cases h with
  | none => exact (Covers.trail inner).refl _

/-! ## Fronts and operations -/

/-- What stands in front of an operand is read from. -/
inductive FrontRun : TokenStream → Front → TokenStream → Prop
  | operator {source rest : TokenStream} {text : Text} (known : text ∈ Operators.leading)
      (ahead : pieceAt source.pieces 0 (·.isSymbol text) = true) (next : rest = source.skip 1) :
      FrontRun source (.operator text) rest
  | cast {source rest : TokenStream} {type : TypeRef} (sound : type.faults = [])
      (ahead : pieceAt rest.pieces 0 castablePiece = true)
      (next : ∃ count, rest = source.skip count) : FrontRun source (.cast type) rest

theorem run_front {value : Front} (h : front source = .ok (some value) rest) :
    FrontRun source value rest := by
  obtain ⟨leading, first, hleading, h⟩ := Reader.bind_eq_ok.1 h
  obtain ⟨hknown, rfl⟩ := look_eq_ok.1 hleading
  cases leading with
  | true =>
    simp only [if_true] at h
    obtain ⟨text, last, htext, h⟩ := Reader.bind_eq_ok.1 h
    cases h
    obtain ⟨hmem, hahead, hnext⟩ := takeText_symbol hknown htext
    exact .operator hmem hahead hnext
  | false =>
    simp only [Bool.false_eq_true, if_false] at h
    obtain ⟨opened, second, hopened, h⟩ := Reader.bind_eq_ok.1 h
    obtain ⟨-, rfl⟩ := look_eq_ok.1 hopened
    split at h
    · obtain ⟨type, last, htype, h⟩ := Reader.bind_eq_ok.1 h
      cases type with
      | none => cases h
      | some type =>
        cases h
        have hcast := Reader.attempt_eq_some.1 htype
        obtain ⟨behind, middle, hopen, hread, hclose, hahead⟩ := castType_eq_ok.1 hcast
        obtain ⟨one, rfl⟩ := Advances.symbol _ _ _ _ hopen
        obtain ⟨two, rfl⟩ := Advances.typeRef _ _ _ hread
        obtain ⟨three, rfl⟩ := Advances.symbol _ _ _ _ hclose
        exact .cast (typeRef_faults hread) hahead
          ⟨one + two + three, by simp only [TokenStream.skip_skip]⟩
    · cases h

/-- What a binary operator with its right operand, or a type test, is read from. -/
inductive OperationRun (inner : Grammar Expression) :
    TokenStream → Operators.Operation → TokenStream → Prop
  | binary {source rest : TokenStream} {operator : BinaryOperator} {count : Nat}
      {right : Expression} (known : BinaryOperator.ofText? operator.text = some operator)
      (read : unary inner (source.skip count) = .ok right rest) :
      OperationRun inner source (.binary operator right) rest
  | instanceOf {source rest : TokenStream} {type : TypeRef} (sound : type.faults = [])
      (next : ∃ count, rest = source.skip count) :
      OperationRun inner source (.instanceOf type) rest

theorem run_operation {value : Operators.Operation}
    (h : operation inner source = .ok (some value) rest) :
    OperationRun inner source value rest := by
  obtain ⟨tested, first, htested, h⟩ := Reader.bind_eq_ok.1 h
  cases tested with
  | true =>
    simp only [if_true] at h
    obtain ⟨type, last, htype, h⟩ := Reader.bind_eq_ok.1 h
    cases h
    obtain ⟨one, rfl⟩ := Advances.takeWord _ _ _ _ htested
    obtain ⟨two, rfl⟩ := Advances.typeRef _ _ _ htype
    exact .instanceOf (typeRef_faults htype) ⟨_, TokenStream.skip_skip ..⟩
  | false =>
    rw [(takeWord_false htested).1] at h
    simp only [Bool.false_eq_true, if_false] at h
    obtain ⟨found, second, hfound, h⟩ := Reader.bind_eq_ok.1 h
    obtain ⟨hbinary, rfl⟩ := look_eq_ok.1 hfound
    cases found with
    | none => cases h
    | some found =>
      obtain ⟨operator, count⟩ := found
      obtain ⟨_, third, hskip, h⟩ := Reader.bind_eq_ok.1 h
      obtain ⟨right, last, hright, h⟩ := Reader.bind_eq_ok.1 h
      cases h
      rw [← skip_eq_ok.1 hskip] at hright
      exact .binary (Operators.binary?_eq_some hbinary).2 hright

end Grammar

end ApexLayout
