import ApexLayout.Proofs.Blur
import ApexLayout.Proofs.Runs
import Mathlib.Data.List.Forall2

/-!
Two runs of the grammar side by side.

Two streams are alike when the grammar cannot tell their tokens apart: the same kinds, the same
symbols, the same words but for the case of their letters, and `>` touching what stands behind it in
both or in neither. A rule then does the same on both: it stops at the same index, with the same
failure or with values that a blur makes equal. There is one clause for every way to build rules,
and the rules follow from their definitions.
-/

namespace ApexLayout

/-- Tokens that differ only in what a blur and the case of letters hide, and in their layout. -/
structure Token.Alike (blur : Blur) (first second : Token) : Prop where
  kind : first.kind = second.kind
  text : blur.text first.text = blur.text second.text
  symbol : first.kind = .symbol → first.text = second.text
  word : Text.lower first.text = Text.lower second.text

/-- Streams of alike tokens, with `>` touching what stands behind it in both or in neither, and
with queries that look the same. -/
structure TokenStream.Alike (blur : Blur) (first second : TokenStream) : Prop where
  tokens : List.Forall₂ (Token.Alike blur) first.tokens second.tokens
  touching : ∀ index, first.symbolAt index ">" = true →
    first.symbolInAt (index + 1) ([">", "="].map String.toList) = true →
    first.holds (index + 1) (·.lead.isEmpty) = second.holds (index + 1) (·.lead.isEmpty)
  query : ∀ index count,
    blur.query ⟨Grammar.queryText ((first.skip index).tokens.take count),
      some (first.skip index).position⟩ =
    blur.query ⟨Grammar.queryText ((second.skip index).tokens.take count),
      some (second.skip index).position⟩

/-! ## Tests on alike tokens -/

namespace Token.Alike

variable {blur : Blur} {first second : Token} (h : Token.Alike blur first second)

include h

theorem isSymbol (text : Text) : first.isSymbol text = second.isSymbol text := by
  unfold Token.isSymbol
  rw [← h.kind]
  by_cases hkind : first.kind = .symbol
  · rw [h.symbol hkind]
  · rw [beq_false_of_ne hkind, Bool.false_and, Bool.false_and]

theorem isWord (text : Text) : first.isWord text = second.isWord text := by
  unfold Token.isWord Text.sameWord
  rw [h.kind, h.word]

theorem isSymbolIn (texts : List Text) : first.isSymbolIn texts = second.isSymbolIn texts :=
  congrArg texts.any (funext h.isSymbol)

theorem isWordIn (texts : List Text) : first.isWordIn texts = second.isWordIn texts :=
  congrArg texts.any (funext h.isWord)

theorem isIdentifier : first.isIdentifier = second.isIdentifier := by
  unfold Token.isIdentifier
  rw [h.kind, h.isWordIn]

theorem castable : Grammar.castable first = Grammar.castable second := by
  unfold Grammar.castable
  rw [h.kind, h.isWord, h.isSymbolIn]

end Token.Alike

/-- A test that cannot tell alike tokens apart. -/
def Token.Blind (blur : Blur) (test : Token → Bool) : Prop :=
  ∀ first second, Token.Alike blur first second → test first = test second

namespace TokenStream.Alike

variable {blur : Blur} {first second : TokenStream} (h : TokenStream.Alike blur first second)

include h

theorem remaining : first.remaining = second.remaining := by
  rw [first.remaining_eq, second.remaining_eq]
  exact h.tokens.length_eq

theorem drop (index : Nat) :
    List.Forall₂ (Token.Alike blur) (first.skip index).tokens (second.skip index).tokens :=
  List.forall₂_drop index h.tokens

theorem holds (index offset : Nat) {test : Token → Bool} (htest : Token.Blind blur test) :
    (first.skip index).holds offset test = (second.skip index).holds offset test := by
  have hdrop := h.drop (index + offset)
  unfold TokenStream.holds
  have hfirst : (first.skip index).tokens[offset]? = (first.skip (index + offset)).tokens.head? := by
    simp [TokenStream.skip]
  have hsecond : (second.skip index).tokens[offset]? =
      (second.skip (index + offset)).tokens.head? := by
    simp [TokenStream.skip]
  rw [hfirst, hsecond]
  generalize (first.skip (index + offset)).tokens = tokens at hdrop ⊢
  generalize (second.skip (index + offset)).tokens = tokens' at hdrop ⊢
  cases hdrop with
  | nil => rfl
  | cons hhead _ => exact htest _ _ hhead

theorem symbolAt (index offset : Nat) (text : Text) :
    (first.skip index).symbolAt offset text = (second.skip index).symbolAt offset text :=
  h.holds index offset fun _ _ halike => halike.isSymbol text

theorem wordAt (index offset : Nat) (text : Text) :
    (first.skip index).wordAt offset text = (second.skip index).wordAt offset text :=
  h.holds index offset fun _ _ halike => halike.isWord text

theorem symbolInAt (index offset : Nat) (texts : List Text) :
    (first.skip index).symbolInAt offset texts = (second.skip index).symbolInAt offset texts :=
  h.holds index offset fun _ _ halike => halike.isSymbolIn texts

theorem wordInAt (index offset : Nat) (texts : List Text) :
    (first.skip index).wordInAt offset texts = (second.skip index).wordInAt offset texts :=
  h.holds index offset fun _ _ halike => halike.isWordIn texts

theorem identifierAt (index offset : Nat) :
    (first.skip index).identifierAt offset = (second.skip index).identifierAt offset :=
  h.holds index offset fun _ _ halike => halike.isIdentifier

theorem kindAt (index offset : Nat) (kind : TokenKind) :
    (first.skip index).holds offset (·.kind == kind) =
      (second.skip index).holds offset (·.kind == kind) :=
  h.holds index offset fun _ _ halike => by rw [halike.kind]

theorem isEmpty (index : Nat) :
    (first.skip index).tokens.isEmpty = (second.skip index).tokens.isEmpty := by
  have hdrop := h.drop index
  generalize (first.skip index).tokens = tokens at hdrop ⊢
  generalize (second.skip index).tokens = tokens' at hdrop ⊢
  cases hdrop <;> rfl

theorem next? (index : Nat) :
    (first.skip index).next?.map blur.text = (second.skip index).next?.map blur.text := by
  have hdrop := h.drop index
  unfold TokenStream.next?
  generalize (first.skip index).tokens = tokens at hdrop ⊢
  generalize (second.skip index).tokens = tokens' at hdrop ⊢
  cases hdrop with
  | nil => rfl
  | cons hhead _ => exact congrArg some hhead.text

end TokenStream.Alike

namespace Grammar

/-! ## Agreement -/

section

variable {α β γ δ : Type} (first second : TokenStream)

/-- Two runs agree: they stop at the same index, with values that look the same, or with the errors
for the tokens there of one and the same expectation. -/
def Agree (see : α → γ) (result result' : EStateM.Result SyntaxError TokenStream α) : Prop :=
  (∃ value value' index, see value = see value' ∧ result = .ok value (first.skip index) ∧
    result' = .ok value' (second.skip index)) ∨
  ∃ expected index,
    result = .error ((first.skip index).refusal expected) (first.skip index) ∧
      result' = .error ((second.skip index).refusal expected) (second.skip index)

/-- Two rules agree from every index on. -/
def Agrees (see : α → γ) (rule rule' : Grammar α) : Prop :=
  ∀ index, Agree first second see (rule (first.skip index)) (rule' (second.skip index))

end

namespace Agrees

variable {α β γ δ : Type} {first second : TokenStream} {see : α → γ} {seeNext : β → δ}
  {rule rule' : Grammar α}

theorem pure {value value' : α} (h : see value = see value') :
    Agrees first second see (Pure.pure value) (Pure.pure value') :=
  fun index => .inl ⟨value, value', index, h, rfl, rfl⟩

theorem fail (expected : Expectation) :
    Agrees first second see (Grammar.fail expected) (Grammar.fail expected) :=
  fun index => .inr ⟨expected, index, rfl, rfl⟩

theorem look {view : TokenStream → α}
    (h : ∀ index, see (view (first.skip index)) = see (view (second.skip index))) :
    Agrees first second see (look view) (look view) :=
  fun index => .inl ⟨_, _, index, h index, rfl, rfl⟩

theorem skip (count : Nat) :
    Agrees first second (id : Unit → Unit) (skip count) (skip count) := by
  intro index
  refine .inl ⟨(), (), index + count, rfl, ?_, ?_⟩
  · rw [← TokenStream.skip_skip]
    rfl
  · rw [← TokenStream.skip_skip]
    rfl

/-- A view of the stream that looks the same on both sides may decide how to go on. -/
theorem get {next next' : TokenStream → Grammar α}
    (h : ∀ index, Agrees first second see (next (first.skip index)) (next' (second.skip index))) :
    Agrees first second see (MonadState.get >>= next) (MonadState.get >>= next') :=
  fun index => h index index

theorem bind {next next' : α → Grammar β} (h : Agrees first second see rule rule')
    (hnext : ∀ value value', see value = see value' →
      Agrees first second seeNext (next value) (next' value')) :
    Agrees first second seeNext (rule >>= next) (rule' >>= next') := by
  intro index
  obtain ⟨value, value', middle, hsee, hrun, hrun'⟩ | ⟨expected, middle, hrun, hrun'⟩ := h index
  · rw [Reader.bind_of_ok hrun, Reader.bind_of_ok hrun']
    exact hnext value value' hsee middle
  · rw [Reader.bind_of_error hrun, Reader.bind_of_error hrun']
    exact .inr ⟨expected, middle, rfl, rfl⟩

/-- A rule whose value is not used. -/
theorem seq {next next' : α → Grammar β} (h : Agrees first second see rule rule')
    (hnext : ∀ value value', Agrees first second seeNext (next value) (next' value')) :
    Agrees first second seeNext (rule >>= next) (rule' >>= next') :=
  h.bind fun value value' _ => hnext value value'

theorem ite {condition condition' : Bool} (hcondition : condition = condition')
    {yes yes' no no' : Grammar α} (hyes : Agrees first second see yes yes')
    (hno : Agrees first second see no no') :
    Agrees first second see (if condition then yes else no) (if condition' then yes' else no') := by
  subst hcondition
  cases condition with
  | true => exact hyes
  | false => exact hno

/-- A test that says the same on both sides decides how to go on. -/
theorem branch {test test' : Grammar Bool} (htest : Agrees first second id test test')
    {yes yes' no no' : Grammar α} (hyes : Agrees first second see yes yes')
    (hno : Agrees first second see no no') :
    Agrees first second see (test >>= fun found => if found then yes else no)
      (test' >>= fun found => if found then yes' else no') :=
  htest.bind fun _ _ hfound => .ite hfound hyes hno

theorem not {test test' : Grammar Bool} (htest : Agrees first second id test test') :
    Agrees first second id (test >>= fun found => Pure.pure !found)
      (test' >>= fun found => Pure.pure !found) :=
  htest.bind fun _ _ hfound => .pure (congrArg (! ·) hfound)

theorem require {condition condition' : Bool} (h : condition = condition')
    (expected : Expectation) :
    Agrees first second (id : Unit → Unit) (require condition expected)
      (require condition' expected) :=
  .ite h (.pure rfl) (.fail expected)

theorem attempt (h : Agrees first second see rule rule') :
    Agrees first second (Option.map see) (Reader.attempt rule) (Reader.attempt rule') := by
  intro index
  unfold Reader.attempt
  obtain ⟨value, value', middle, hsee, hrun, hrun'⟩ | ⟨expected, middle, hrun, hrun'⟩ := h index
  · rw [hrun, hrun']
    exact .inl ⟨some value, some value', middle, congrArg some hsee, rfl, rfl⟩
  · rw [hrun, hrun']
    exact .inl ⟨none, none, index, rfl, rfl, rfl⟩

theorem optional {test test' : Grammar Bool} (htest : Agrees first second id test test')
    (h : Agrees first second see rule rule') :
    Agrees first second (Option.map see) (Reader.optional test rule)
      (Reader.optional test' rule') :=
  htest.branch (h.bind fun _ _ hvalue => .pure (congrArg some hvalue)) (.pure rfl)

theorem many (hremaining : first.remaining = second.remaining)
    {item item' : Grammar (Option α)} (h : Agrees first second (Option.map see) item item') :
    Agrees first second (List.map see) (Reader.many item) (Reader.many item') := by
  intro index
  -- every round leaves less, and the two runs leave the same number of tokens
  induction hsize : first.remaining - index using Nat.strongRecOn generalizing index with
  | ind size ih =>
    unfold Reader.many
    obtain ⟨value, value', middle, hsee, hrun, hrun'⟩ | ⟨expected, middle, hrun, hrun'⟩ := h index
    · rw [hrun, hrun']
      cases value with
      | none =>
        cases value' with
        | none => exact .inl ⟨[], [], middle, rfl, rfl, rfl⟩
        | some value' => cases hsee
      | some value =>
        cases value' with
        | none => cases hsee
        | some value' =>
          have hsame : see value = see value' := Option.some.inj hsee
          by_cases hless : first.remaining - middle < first.remaining - index
          · have hrest := ih _ (hsize ▸ hless) middle rfl
            have hless' : second.remaining - middle < second.remaining - index :=
              hremaining ▸ hless
            simp only [Consumable.remaining, TokenStream.remaining_skip, hless, hless', if_true]
            obtain ⟨values, values', last, hsees, hmany, hmany'⟩ |
              ⟨expected, last, hmany, hmany'⟩ := hrest
            · rw [hmany, hmany']
              refine .inl ⟨value :: values, value' :: values', last, ?_, rfl, rfl⟩
              rw [List.map_cons, List.map_cons, hsame, hsees]
            · rw [hmany, hmany']
              exact .inr ⟨expected, last, rfl, rfl⟩
          · have hless' : ¬ second.remaining - middle < second.remaining - index :=
              hremaining ▸ hless
            simp only [Consumable.remaining, TokenStream.remaining_skip, hless, hless', if_false]
            exact .inr ⟨_, middle, rfl, rfl⟩
    · rw [hrun, hrun']
      exact .inr ⟨expected, middle, rfl, rfl⟩

theorem separated (hremaining : first.remaining = second.remaining)
    {separator separator' : Grammar Bool} (hseparator : Agrees first second id separator separator')
    (h : Agrees first second see rule rule') :
    Agrees first second (List.map see) (Reader.separated separator rule)
      (Reader.separated separator' rule') := by
  refine h.bind fun _ _ hvalue => ?_
  refine (many hremaining (hseparator.optional h)).bind fun _ _ hvalues => .pure ?_
  rw [List.map_cons, List.map_cons, hvalue, hvalues]

theorem recursive (hremaining : first.remaining = second.remaining)
    {build : Grammar α → Grammar α} (h : ∀ inner inner', Agrees first second see inner inner' →
      Agrees first second see (build inner) (build inner')) :
    Agrees first second see (Reader.recursive build) (Reader.recursive build) := by
  intro index
  induction hsize : first.remaining - index using Nat.strongRecOn generalizing index with
  | ind size ih =>
    rw [Reader.recursive_run, Reader.recursive_run]
    refine h _ _ (fun inner => ?_) index
    -- the calls inside are the recursion itself where less is left, and stall elsewhere
    unfold Reader.below
    by_cases hless : first.remaining - inner < first.remaining - index
    · have hless' : second.remaining - inner < second.remaining - index := hremaining ▸ hless
      simp only [Consumable.remaining, TokenStream.remaining_skip, hless, hless', if_true]
      exact ih _ (hsize ▸ hless) inner rfl
    · have hless' : ¬ second.remaining - inner < second.remaining - index := hremaining ▸ hless
      simp only [Consumable.remaining, TokenStream.remaining_skip, hless, hless', if_false]
      exact .inr ⟨_, inner, rfl, rfl⟩

end Agrees

/-! ## Tokens and types -/

section

variable {α γ : Type} {blur : Blur} {first second : TokenStream}
  (h : TokenStream.Alike blur first second)

include h

theorem agrees_atSymbol (text : Text) :
    Agrees first second id (atSymbol text) (atSymbol text) :=
  .look fun index => h.symbolAt index 0 text

theorem agrees_atWord (text : Text) : Agrees first second id (atWord text) (atWord text) :=
  .look fun index => h.wordAt index 0 text

omit h in
theorem agrees_skipIf {view : TokenStream → Bool}
    (hview : ∀ index, view (first.skip index) = view (second.skip index)) :
    Agrees first second id (skipIf view) (skipIf view) :=
  Agrees.bind (.look hview) fun _ _ hfound =>
    .ite hfound ((Agrees.skip 1).seq fun _ _ => .pure hfound) (.pure hfound)

theorem agrees_takeSymbol (text : Text) :
    Agrees first second id (takeSymbol text) (takeSymbol text) :=
  agrees_skipIf fun index => h.symbolAt index 0 text

theorem agrees_takeWord (text : Text) :
    Agrees first second id (takeWord text) (takeWord text) :=
  agrees_skipIf fun index => h.wordAt index 0 text

theorem agrees_symbol (text : Text) : Agrees first second id (symbol text) (symbol text) :=
  (agrees_takeSymbol h text).bind fun _ _ hfound => .require hfound _

theorem agrees_endOfInput : Agrees first second id endOfInput endOfInput := by
  have hlook : Agrees first second id (look (·.tokens.isEmpty)) (look (·.tokens.isEmpty)) :=
    .look h.isEmpty
  exact hlook.bind fun _ _ hfound => .require hfound _

theorem agrees_takeText : Agrees first second blur.text takeText takeText := by
  have hlook : Agrees first second blur.text (look (·.next?.getD [])) (look (·.next?.getD [])) := by
    refine .look fun index => ?_
    rw [← Option.getD_map blur.text, ← Option.getD_map blur.text, h.next?]
  refine hlook.bind fun _ _ htext => ?_
  exact (Agrees.skip 1).seq fun _ _ => .pure htext

theorem agrees_identifier : Agrees first second blur.text identifier identifier := by
  have hlook : Agrees first second id (look (·.identifierAt 0)) (look (·.identifierAt 0)) :=
    .look fun index => h.identifierAt index 0
  refine hlook.bind fun _ _ hfound => ?_
  exact (Agrees.require hfound _).seq fun _ _ => agrees_takeText h

theorem agrees_dotBeforeIdentifier :
    Agrees first second id dotBeforeIdentifier dotBeforeIdentifier := by
  refine agrees_skipIf fun index => ?_
  show ((first.skip index).symbolAt 0 "." && (first.skip index).identifierAt 1) = _
  rw [h.symbolAt, h.identifierAt]

theorem agrees_commaSeparated {see : α → γ} {rule rule' : Grammar α}
    (hrule : Agrees first second see rule rule') :
    Agrees first second (List.map see) (commaSeparated rule) (commaSeparated rule') :=
  .separated h.remaining (agrees_takeSymbol h _) hrule

theorem agrees_typeArguments {inner inner' : Grammar TypeRef}
    (hinner : Agrees first second (TypeRef.blur blur) inner inner') :
    Agrees first second (List.map (TypeRef.blur blur)) (typeArguments inner)
      (typeArguments inner') :=
  (agrees_takeSymbol h _).branch
    ((agrees_commaSeparated h hinner).bind fun _ _ hitems =>
      (agrees_symbol h _).seq fun _ _ => .pure hitems)
    (.pure rfl)

theorem agrees_typeName {inner inner' : Grammar TypeRef}
    (hinner : Agrees first second (TypeRef.blur blur) inner inner') :
    Agrees first second (TypeName.blur blur) (typeName inner) (typeName inner') := by
  refine (agrees_identifier h).bind fun _ _ hname => ?_
  refine (agrees_typeArguments h hinner).bind fun _ _ hitems => .pure ?_
  rw [TypeName.blur, TypeName.blur, hname, hitems]

theorem agrees_bracketPair : Agrees first second (Option.map id) bracketPair bracketPair := by
  refine Agrees.branch (.look fun index => ?_) ((Agrees.skip 2).seq fun _ _ => .pure rfl) (.pure rfl)
  rw [h.symbolAt, h.symbolAt]

theorem agrees_typeRef : Agrees first second (TypeRef.blur blur) typeRef typeRef := by
  refine .recursive h.remaining fun inner inner' hinner => ?_
  refine (Agrees.separated h.remaining (agrees_dotBeforeIdentifier h)
    (agrees_typeName h hinner)).bind fun names names' hnames => ?_
  refine (Agrees.many h.remaining (agrees_bracketPair h)).bind fun pairs pairs' hpairs => .pure ?_
  rw [List.map_id, List.map_id] at hpairs
  rw [TypeRef.blur_eq, TypeRef.blur_eq, hnames, hpairs]

theorem agrees_typeList :
    Agrees first second (List.map (TypeRef.blur blur)) typeList typeList :=
  agrees_commaSeparated h (agrees_typeRef h)

/-! ## Modifiers -/

omit h in
/-- What is enclosed ends at the same place in alike tokens. -/
theorem enclosed_alike {opening closing : Text} {tokens tokens' : List Token}
    (htokens : List.Forall₂ (Token.Alike blur) tokens tokens') (depth : Nat) :
    (enclosed opening closing depth tokens = none ∧ enclosed opening closing depth tokens' = none) ∨
    ∃ count, enclosed opening closing depth tokens = some (tokens.take count) ∧
      enclosed opening closing depth tokens' = some (tokens'.take count) ∧
      count ≤ tokens.length := by
  induction htokens generalizing depth with
  | nil => exact .inl ⟨rfl, rfl⟩
  | @cons token token' rest rest' halike _ ih =>
    simp only [enclosed, ← halike.isSymbol]
    generalize (if token.isSymbol opening = true then depth + 1
      else if token.isSymbol closing = true then depth - 1 else depth) = inside
    by_cases hinside : inside = 0
    · simp only [hinside, if_true]
      exact .inr ⟨1, rfl, rfl, by simp⟩
    · simp only [hinside, if_false]
      obtain ⟨hnone, hnone'⟩ | ⟨count, hsome, hsome', hle⟩ := ih inside
      · rw [hnone, hnone']
        exact .inl ⟨rfl, rfl⟩
      · rw [hsome, hsome']
        exact .inr ⟨count + 1, rfl, rfl, Nat.succ_le_succ hle⟩

/-- An enclosure ends at the same index of alike streams, or is missing in both. -/
theorem enclosure_alike (opening closing : Text) (missing : Expectation) (index : Nat) :
    (∃ count, enclosure opening closing missing (first.skip index) =
        .ok ((first.skip index).tokens.take count) (first.skip (index + count)) ∧
      enclosure opening closing missing (second.skip index) =
        .ok ((second.skip index).tokens.take count) (second.skip (index + count))) ∨
    ∃ last, enclosure opening closing missing (first.skip index) =
        .error ((first.skip last).refusal missing) (first.skip last) ∧
      enclosure opening closing missing (second.skip index) =
        .error ((second.skip last).refusal missing) (second.skip last) := by
  have hdrop := h.drop index
  unfold enclosure
  simp only [Reader.bind_of_ok (Reader.get_run _)]
  -- without a closing token everything is passed over before the rule fails
  obtain ⟨hnone, hnone'⟩ | ⟨count, hsome, hsome', hle⟩ := enclosed_alike hdrop 0
  · rw [hnone, hnone']
    refine .inr ⟨index + (first.remaining - index), ?_, ?_⟩
    · rw [← TokenStream.skip_skip]
      rfl
    · rw [← TokenStream.skip_skip, h.remaining]
      rfl
  · have hle' : count ≤ (second.skip index).tokens.length := hdrop.length_eq ▸ hle
    rw [hsome, hsome']
    refine .inl ⟨count, ?_, ?_⟩
    · show EStateM.Result.ok _ ((first.skip index).skip (List.length _)) = _
      rw [TokenStream.skip_skip, List.length_take_of_le hle]
    · show EStateM.Result.ok _ ((second.skip index).skip (List.length _)) = _
      rw [TokenStream.skip_skip, List.length_take_of_le hle']

omit h in
theorem closeUp_alike {tokens tokens' : List Token}
    (htokens : List.Forall₂ (Token.Alike blur) tokens tokens') :
    blur.text (closeUp tokens) = blur.text (closeUp tokens') := by
  induction htokens with
  | nil => rfl
  | cons halike hrest ih =>
    cases hrest with
    | nil => exact halike.text
    | cons halike' _ =>
      simp only [closeUp, Blur.text_append]
      rw [halike.text, halike.kind, halike'.kind, ih]

theorem agrees_closeUp (opening closing : Text) (missing : Expectation) :
    Agrees first second (fun tokens => blur.text (closeUp tokens))
      (enclosure opening closing missing) (enclosure opening closing missing) := by
  intro index
  obtain ⟨count, hrun, hrun'⟩ | ⟨last, hrun, hrun'⟩ := enclosure_alike h opening closing missing index
  · exact .inl ⟨_, _, _, closeUp_alike (List.forall₂_take count (h.drop index)), hrun, hrun'⟩
  · exact .inr ⟨missing, last, hrun, hrun'⟩

omit h in
theorem text_join (separator : Text) {names names' : List Text}
    (hnames : names.map blur.text = names'.map blur.text) :
    blur.text (Text.join separator names) = blur.text (Text.join separator names') := by
  have hjoin : ∀ texts : List Text, blur.text (Text.join separator texts) =
      Text.join (blur.text separator) (texts.map blur.text) := by
    intro texts
    unfold Blur.text Text.join List.intercalate
    induction texts with
    | nil => rfl
    | cons text rest ih =>
      cases rest with
      | nil => simp
      | cons next others =>
        rw [List.map_cons] at ih
        rw [List.map_cons, List.map_cons]
        simp only [List.intersperse_cons_cons, List.flatten_cons, List.map_append, ih]
  rw [hjoin, hjoin, hnames]

theorem agrees_annotated : Agrees first second blur.text annotation annotation := by
  refine (agrees_symbol h _).seq fun _ _ => ?_
  refine (Agrees.separated h.remaining (agrees_dotBeforeIdentifier h)
    (agrees_identifier h)).bind fun names names' hnames => ?_
  refine (Agrees.optional (agrees_atSymbol h _) (agrees_closeUp h _ _ _)).bind
    fun items items' hitems => .pure ?_
  rw [Blur.text_append, Blur.text_append, Blur.text_append, Blur.text_append, text_join _ hnames]
  have hclosed := congrArg (·.getD (blur.text (closeUp []))) hitems
  simp only [Option.getD_map] at hclosed
  rw [hclosed]

theorem agrees_modifiers : Agrees first second (List.map blur.text) modifiers modifiers := by
  refine .many h.remaining (.get fun index => ?_)
  refine .ite (h.symbolAt index 0 _) ((agrees_annotated h).bind fun _ _ htext =>
    .pure (congrArg some htext)) ?_
  refine .ite (h.wordInAt index 0 _) ((agrees_takeText h).bind fun _ _ htext =>
    .pure (congrArg some htext)) ?_
  refine .ite ?_ ((agrees_takeText h).bind fun _ _ hmode => (agrees_takeText h).bind
    fun _ _ hsharing => .pure ?_) (.pure rfl)
  · rw [h.wordInAt, h.wordAt]
  · simp only [Option.map_some, Blur.text_append, hmode, hsharing]

end

end Grammar

end ApexLayout
