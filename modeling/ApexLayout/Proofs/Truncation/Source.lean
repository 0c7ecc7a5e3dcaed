import ApexLayout.Proofs.Calls
import ApexLayout.Proofs.Replay.Member
import ApexLayout.Proofs.Truncation.Statement

/-!
Truncated sources are refused.

A declaration ends with its closing brace. If the beginning of a source is itself a unit, the whole
source is read the same way up to that brace, and what stands behind it is one token too many.
-/

namespace ApexLayout

namespace Grammar

/-! ## Members -/

section

variable {α : Type} {first second : TokenStream} {last : Nat}
  (h : TokenStream.Shares first second last)

include h

theorem persists_parameter : Persists first second last parameter parameter := by
  refine (persists_modifiers h).bind fun modifiers => ?_
  refine (persists_typeRef h).bind fun type => ?_
  exact (persists_identifier h).map _

theorem persists_parameters : Persists first second last parameters parameters := by
  refine (persists_symbol h _).bind fun _ => ?_
  refine (persists_takeSymbol h _).branch (.pure []) ?_
  refine (persists_commaSeparated h (persists_parameter h)).bind fun items => ?_
  exact (persists_symbol h _).map _

theorem persists_returnType : Persists first second last returnType returnType :=
  .optional ((persists_takeWord h _).map (! ·)) (persists_typeRef h)

theorem persists_bodyOrSemicolon :
    Persists first second last bodyOrSemicolon bodyOrSemicolon :=
  .optional ((persists_takeSymbol h _).map (! ·)) (persists_block h)

theorem persists_accessor : Persists first second last accessor accessor := by
  have hkind : Persists first second last accessorKind accessorKind := by
    refine (persists_takeWord h _).branch (.pure AccessorKind.get) ?_
    exact (persists_takeWord h _).branch (.pure AccessorKind.set) (.fail _)
  refine (persists_modifiers h).bind fun modifiers => ?_
  refine hkind.bind fun kind => ?_
  exact (persists_bodyOrSemicolon h).map _

theorem persists_items {item item' : Grammar α} (hitem : Persists first second last item item') :
    Persists first second last
      (Reader.many (Reader.optional (atSymbol "\x7d" >>= fun found => pure !found) item))
      (Reader.many (Reader.optional (atSymbol "\x7d" >>= fun found => pure !found) item')) :=
  .many h (.optional (persists_unless h _) hitem)

theorem persists_braced {item item' : Grammar α} (hitem : Persists first second last item item') :
    Persists first second last (braced item) (braced item') := by
  refine (persists_symbol h _).bind fun _ => ?_
  refine (persists_items h hitem).bind fun items => ?_
  exact (persists_symbol h _).map _

theorem persists_constructor (modifiers : List Modifier) :
    Persists first second last (constructor modifiers) (constructor modifiers) := by
  have hname := Persists.separated h (persists_takeSymbol h ".") (persists_identifier h)
  refine hname.bind fun name => ?_
  refine (persists_parameters h).bind fun parameters => ?_
  exact (persists_block h).map _

theorem persists_variableMember (modifiers : List Modifier) (type : TypeRef) (name : Text) :
    Persists first second last (variableMember modifiers type name)
      (variableMember modifiers type name) := by
  have haccessors := persists_braced h (persists_accessor h)
  refine (persists_atSymbol h _).branch (haccessors.map _) ?_
  refine (persists_declarators h name).bind fun declarators => ?_
  exact (persists_symbol h _).map _

theorem persists_typedMember (modifiers : List Modifier) :
    Persists first second last (typedMember modifiers) (typedMember modifiers) := by
  refine (persists_returnType h).bind fun type => ?_
  refine (persists_identifier h).bind fun name => ?_
  refine (persists_atSymbol h _).branch ?_ ?_
  · refine (persists_parameters h).bind fun parameters => ?_
    exact (persists_bodyOrSemicolon h).map _
  cases type with
  | none => exact .fail _
  | some type => exact persists_variableMember h modifiers type name

theorem persists_interfaceMember :
    Persists first second last interfaceMember interfaceMember := by
  refine (persists_takeSymbol h _).branch (.pure _) ?_
  refine (persists_modifiers h).bind fun modifiers => ?_
  refine (persists_returnType h).bind fun type => ?_
  refine (persists_identifier h).bind fun name => ?_
  refine (persists_parameters h).bind fun parameters => ?_
  exact (persists_symbol h _).map _

theorem persists_constants : Persists first second last constants constants := by
  have hfurther : Persists first second last furtherConstant furtherConstant :=
    (persists_takeSymbol h _).branch (.optional (persists_unless h _) (persists_identifier h))
      (.pure none)
  refine (persists_atSymbol h _).branch (.pure []) ?_
  refine (persists_identifier h).bind fun first => ?_
  exact (Persists.many h hfurther).map _

theorem persists_typesAfter (keyword : Text) :
    Persists first second last (typesAfter keyword) (typesAfter keyword) :=
  (Persists.optional (persists_takeWord h _)
    (persists_commaSeparated h (persists_typeRef h))).map _

end

/-! ## Declarations -/

section

variable {α β : Type}

/-- A rule that ends with a closing brace. -/
def EndsBraced (rule : Grammar α) : Prop :=
  ∀ source value rest, rule source = .ok value rest → ∃ count,
    source.symbolAt count "\x7d" = true ∧ rest = source.skip (count + 1)

theorem symbolAt_skip (stream : TokenStream) (count offset : Nat) (text : Text) :
    (stream.skip count).symbolAt offset text = stream.symbolAt (count + offset) text := by
  show Option.any _ (stream.tokens.drop count)[offset]? = Option.any _ stream.tokens[count + offset]?
  rw [List.getElem?_drop]

theorem Advances.endsBraced {rule : Grammar α} {next : α → Grammar β} (h : Advances rule)
    (hnext : ∀ value, EndsBraced (next value)) : EndsBraced (rule >>= next) := by
  intro source value rest hrun
  obtain ⟨found, middle, hfound, hrest⟩ := Reader.bind_eq_ok.1 hrun
  obtain ⟨count, rfl⟩ := h _ _ _ hfound
  obtain ⟨more, hbrace, rfl⟩ := hnext found _ _ _ hrest
  exact ⟨count + more, (symbolAt_skip ..).symm.trans hbrace, TokenStream.skip_skip ..⟩

theorem EndsBraced.map {rule : Grammar α} (h : EndsBraced rule) (change : α → β) :
    EndsBraced (rule >>= fun value => pure (change value)) := by
  intro source value rest hrun
  obtain ⟨found, middle, hfound, hrest⟩ := Reader.bind_eq_ok.1 hrun
  cases hrest
  exact h _ _ _ hfound

theorem EndsBraced.branch {test : Grammar Bool} {yes no : Grammar α} (htest : Advances test)
    (hyes : EndsBraced yes) (hno : EndsBraced no) :
    EndsBraced (test >>= fun found => if found then yes else no) := by
  refine htest.endsBraced fun found => ?_
  cases found with
  | false => exact hno
  | true => exact hyes

theorem EndsBraced.fail (expected : Expectation) :
    EndsBraced (Grammar.fail expected : Grammar α) := by
  intro source value rest hrun
  cases hrun

theorem endsBraced_symbol : EndsBraced (symbol "\x7d") := by
  intro source value rest hrun
  obtain ⟨hfound, rfl⟩ := symbol_eq_ok.1 hrun
  exact ⟨0, hfound, rfl⟩

/-- A rule that agrees with itself moves on. -/
theorem advances_of_agrees {γ : Type} {see : α → γ} {rule : Grammar α}
    (h : ∀ stream, Agrees stream stream see rule rule) : Advances rule := by
  intro source value rest hrun
  obtain ⟨count, ⟨_, hmoved⟩ | ⟨_, hmoved⟩⟩ := moves_of_agrees h source
  · rw [hrun] at hmoved
    cases hmoved
    exact ⟨count, rfl⟩
  · rw [hrun] at hmoved
    cases hmoved

theorem endsBraced_braced {item : Grammar α} (h : Advances item) : EndsBraced (braced item) := by
  refine (Advances.symbol _).endsBraced fun _ => ?_
  refine (Advances.many (.optional (advances_unless _) h)).endsBraced fun _ => ?_
  exact endsBraced_symbol.map _

/-- A unit ends with a closing brace. -/
theorem endsBraced_compilationUnit : EndsBraced compilationUnit := by
  have hself := TokenStream.Alike.refl .ofQueries
  have hmember : Advances member := advances_of_agrees fun stream => agrees_member (hself stream)
  have hmethod : Advances interfaceMember :=
    advances_of_agrees fun stream => agrees_interfaceMember (hself stream)
  have htypes : ∀ keyword, Advances (typesAfter keyword) := fun keyword =>
    advances_of_agrees fun stream => agrees_typesAfter (hself stream) keyword
  refine Advances.modifiers.endsBraced fun modifiers => ?_
  refine .map (.branch (.takeWord _) ?classType (.branch (.takeWord _) ?interfaceType
    (.branch (.takeWord _) ?enumType (.fail _)))) _
  case classType =>
    refine Advances.identifier.endsBraced fun name => ?_
    refine (Advances.optional (.takeWord _) .typeRef).endsBraced fun parent => ?_
    refine (htypes _).endsBraced fun interfaces => ?_
    exact (endsBraced_braced hmember).map _
  case interfaceType =>
    refine Advances.identifier.endsBraced fun name => ?_
    refine (htypes _).endsBraced fun parents => ?_
    exact (endsBraced_braced hmethod).map _
  case enumType =>
    refine Advances.identifier.endsBraced fun name => ?_
    refine (Advances.symbol _).endsBraced fun _ => ?_
    refine advances_constants.endsBraced fun constants => ?_
    exact endsBraced_symbol.map _

end

section

variable {α β : Type} (first second : TokenStream) (last : Nat)

/-- A rule that ends with a closing brace and does the same on the second stream, if its brace is
the shared one or stands in front of it. -/
def Closes (rule rule' : Grammar α) : Prop :=
  ∀ index value rest, rule (first.skip index) = .ok value rest → ∃ stop, index ≤ stop ∧
    first.symbolAt stop "\x7d" = true ∧ rest = first.skip (stop + 1) ∧
      (stop ≤ last → rule' (second.skip index) = .ok value (second.skip (stop + 1)))

end

namespace Closes

variable {α β : Type} {first second : TokenStream} {last : Nat} {rule rule' : Grammar α}

theorem of_persists {next next' : α → Grammar β} (h : Persists first second last rule rule')
    (hnext : ∀ value, Closes first second last (next value) (next' value)) :
    Closes first second last (rule >>= next) (rule' >>= next') := by
  intro index value rest hrun
  obtain ⟨found, middle, hfound, hrest⟩ := Reader.bind_eq_ok.1 hrun
  obtain ⟨stop, hstop, rfl, hsame⟩ := h index found middle hfound
  obtain ⟨final, hfinal, hbrace, rfl, hsame'⟩ := hnext found stop value rest hrest
  refine ⟨final, Nat.le_trans hstop hfinal, hbrace, rfl, fun hle => ?_⟩
  exact Reader.bind_eq_ok.2 ⟨found, _, hsame (Nat.le_trans hfinal hle), hsame' hle⟩

theorem map (h : Closes first second last rule rule') (change : α → β) :
    Closes first second last (rule >>= fun value => pure (change value))
      (rule' >>= fun value => pure (change value)) := by
  intro index value rest hrun
  obtain ⟨found, middle, hfound, hrest⟩ := Reader.bind_eq_ok.1 hrun
  cases hrest
  obtain ⟨stop, hstop, hbrace, hrest, hsame⟩ := h index found _ hfound
  exact ⟨stop, hstop, hbrace, hrest, fun hle => Reader.bind_eq_ok.2 ⟨found, _, hsame hle, rfl⟩⟩

theorem branch {test test' : Grammar Bool} {yes yes' no no' : Grammar α}
    (htest : Persists first second last test test') (hyes : Closes first second last yes yes')
    (hno : Closes first second last no no') :
    Closes first second last (test >>= fun found => if found then yes else no)
      (test' >>= fun found => if found then yes' else no') := by
  refine .of_persists htest fun found => ?_
  cases found with
  | false => exact hno
  | true => exact hyes

theorem fail (expected : Expectation) : Closes first second last
    (Grammar.fail expected : Grammar α) (Grammar.fail expected) := by
  intro index value rest hrun
  cases hrun

theorem persists (h : Closes first second last rule rule') :
    Persists first second last rule rule' := by
  intro index value rest hrun
  obtain ⟨stop, hstop, -, hrest, hsame⟩ := h index value rest hrun
  exact ⟨stop + 1, by omega, hrest, fun hle => hsame (by omega)⟩

end Closes

section

variable {α : Type} {first second : TokenStream} {last : Nat}
  (h : TokenStream.Shares first second last)

include h

theorem closes_symbol : Closes first second last (symbol "\x7d") (symbol "\x7d") := by
  intro index value rest hrun
  obtain ⟨hfound, rfl⟩ := symbol_eq_ok.1 hrun
  refine ⟨index, Nat.le_refl _, (symbolAt_skip ..).symm.trans hfound, TokenStream.skip_skip ..,
    fun hle => ?_⟩
  exact symbol_eq_ok.2 ⟨(h.holds hle _).symm.trans hfound, (TokenStream.skip_skip ..).symm⟩

theorem closes_braced {item item' : Grammar α} (hitem : Persists first second last item item') :
    Closes first second last (braced item) (braced item') := by
  refine .of_persists (persists_symbol h _) fun _ => ?_
  refine .of_persists (persists_items h hitem) fun items => ?_
  exact (closes_symbol h).map _

theorem closes_declarationOf {inner inner' : Grammar Member}
    (hinner : Persists first second last inner inner') (modifiers : List Modifier) :
    Closes first second last (declarationOf inner modifiers) (declarationOf inner' modifiers) := by
  refine .branch (persists_takeWord h _) ?classType (.branch (persists_takeWord h _) ?interfaceType
    (.branch (persists_takeWord h _) ?enumType (.fail _)))
  case classType =>
    refine .of_persists (persists_identifier h) fun name => ?_
    refine .of_persists (.optional (persists_takeWord h _) (persists_typeRef h)) fun parent => ?_
    refine .of_persists (persists_typesAfter h _) fun interfaces => ?_
    exact (closes_braced h hinner).map _
  case interfaceType =>
    refine .of_persists (persists_identifier h) fun name => ?_
    refine .of_persists (persists_typesAfter h _) fun parents => ?_
    exact (closes_braced h (persists_interfaceMember h)).map _
  case enumType =>
    refine .of_persists (persists_identifier h) fun name => ?_
    refine .of_persists (persists_symbol h _) fun _ => ?_
    refine .of_persists (persists_constants h) fun constants => ?_
    exact (closes_symbol h).map _

theorem persists_member : Persists first second last member member := by
  refine .recursive h fun inner inner' hinner => .get fun index => ?_
  refine .ite (h.holds · _) ((Persists.skip 1).map _ index) ?_
  refine .ite (fun hindex => h.holds_and hindex (Token.open_isWord _) fun hnext => h.holds hnext _)
    ((Persists.skip 1).bind (fun _ => (persists_block h).map _) index) ?_
  refine .ite (h.holds · _) ((persists_block h).map _ index) ?_
  refine (persists_modifiers h).bind (fun modifiers => .get fun index => ?_) index
  refine .ite (h.holds · _) ((closes_declarationOf h hinner modifiers).persists.map _ index) ?_
  refine .ite (fun hindex => ?_) (persists_constructor h modifiers index)
    (persists_typedMember h modifiers index)
  rw [constructorAhead_eq, constructorAhead_eq, constructorPieces_similar (h.similar hindex)]

theorem closes_compilationUnit :
    Closes first second last compilationUnit compilationUnit :=
  .of_persists (persists_modifiers h) fun modifiers =>
    (closes_declarationOf h (persists_member h) modifiers).map _

end

end Grammar

/-! ## Truncated sources -/

namespace TokenStream

/-- The tokens of a stream are the beginning of a longer one, with every `>` in front of a `>` or
`=` touching it in both or in neither. -/
def Truncates (short long : TokenStream) : Prop :=
  short.remaining < long.remaining ∧
  short.tokens.map (fun token => (token.kind, token.text)) <+:
    long.tokens.map (fun token => (token.kind, token.text)) ∧
  ∀ index < short.remaining, short.symbolAt index ">" = true →
    short.symbolInAt (index + 1) ([">", "="].map String.toList) = true →
    short.holds (index + 1) (·.lead.isEmpty) = long.holds (index + 1) (·.lead.isEmpty)

instance (short long : TokenStream) : Decidable (short.Truncates long) :=
  inferInstanceAs (Decidable (_ ∧ _ ∧ _))

/-- The beginning of a stream. -/
def cut (stream : TokenStream) (count : Nat) : TokenStream where
  tokens := stream.tokens.take count
  trailing := []
  finish := stream.finish
  remaining := min count stream.remaining
  remaining_eq := by rw [List.length_take, stream.remaining_eq]

theorem holds_cut {stream : TokenStream} {count index : Nat} (h : index < count)
    (test : Token → Bool) : (stream.cut count).holds index test = stream.holds index test := by
  show Option.any test (stream.tokens.take count)[index]? = Option.any test stream.tokens[index]?
  rw [List.getElem?_take_of_lt h]

/-- A truncated stream has the code of the beginning of the longer one. -/
theorem Truncates.sameCode {short long : TokenStream} (h : short.Truncates long) :
    short.SameCode (long.cut short.remaining) := by
  refine ⟨?_, fun index hindex hgreater hnext => ?_⟩
  · have hbegin := List.prefix_iff_eq_take.1 h.2.1
    rw [List.length_map, ← short.remaining_eq, ← List.map_take] at hbegin
    exact hbegin
  · rw [holds_cut (lt_of_holds hnext)]
    exact h.2.2 index hindex hgreater hnext

end TokenStream

/-- A unit that is the beginning of a stream is read from the stream, and what is behind it left. -/
theorem Grammar.compilationUnit_of_cut {stream final : TokenStream} {count : Nat}
    {unit : CompilationUnit} (hcount : count ≤ stream.remaining)
    (hrun : compilationUnit (stream.cut count) = .ok unit final) (hend : final.tokens = []) :
    compilationUnit stream = .ok unit (stream.skip count) := by
  have hsize : (stream.cut count).remaining = count := Nat.min_eq_left hcount
  -- the unit ends with the last of the tokens, which is a brace
  obtain ⟨last, hbrace, rfl⟩ := endsBraced_compilationUnit _ _ _ hrun
  have hinside := TokenStream.lt_of_holds hbrace
  have hlength := List.drop_eq_nil_iff.1 hend
  rw [← TokenStream.remaining_eq, hsize] at hlength
  rw [hsize] at hinside
  obtain rfl : count = last + 1 := by omega
  have hshares : TokenStream.Shares (stream.cut (last + 1)) stream last := by
    refine ⟨?_, hbrace⟩
    show (stream.tokens.take (last + 1)).take (last + 1) = stream.tokens.take (last + 1)
    rw [List.take_take, Nat.min_self]
  obtain ⟨stop, -, hstop, hrest, hsame⟩ := closes_compilationUnit hshares 0 _ _ hrun
  have hbefore := TokenStream.lt_of_holds hstop
  have hleft := congrArg TokenStream.remaining hrest
  rw [TokenStream.remaining_skip, TokenStream.remaining_skip, hsize] at hleft
  rw [hsize] at hbefore
  obtain rfl : stop = last := by omega
  exact hsame (Nat.le_refl _)

/-- Truncated sources are refused: where a source is a unit, no proper beginning of its tokens is
one. -/
theorem parse_truncated {source source' : Text} {stream stream' : TokenStream}
    {unit : CompilationUnit} (hstream : TokenStream.ofSource source = .ok stream)
    (hstream' : TokenStream.ofSource source' = .ok stream') (h : stream'.Truncates stream)
    (hunit : parseUnit source = .ok unit) : ∃ error, parseUnit source' = .error error := by
  cases hunit' : parseUnit source' with
  | error error => exact ⟨error, rfl⟩
  | ok unit' =>
    exfalso
    obtain ⟨_, final, hsame, hrun, hend⟩ := Grammar.readSource_eq_ok.1 hunit
    obtain ⟨_, final', hsame', hrun', hend'⟩ := Grammar.readSource_eq_ok.1 hunit'
    obtain rfl := Except.ok.inj (hstream.symm.trans hsame)
    obtain rfl := Except.ok.inj (hstream'.symm.trans hsame')
    have halike := h.sameCode.alike
    obtain ⟨value, value', index, -, hread, hcut⟩ | ⟨failure, index, hread, -⟩ :=
      Grammar.agrees_compilationUnit halike 0
    · rw [TokenStream.skip_zero] at hread hcut
      rw [hrun'] at hread
      cases hread
      have hnothing : ((stream.cut stream'.remaining).skip index).tokens = [] := by
        rw [← List.isEmpty_iff, ← halike.isEmpty, hend', List.isEmpty_nil]
      have hless := h.1
      have hwhole := Grammar.compilationUnit_of_cut (Nat.le_of_lt hless) hcut hnothing
      -- the source is a unit with more tokens behind it
      rw [hrun] at hwhole
      cases hwhole
      have hlength := List.drop_eq_nil_iff.1 hend
      rw [← TokenStream.remaining_eq] at hlength
      omega
    · rw [TokenStream.skip_zero, hrun'] at hread
      cases hread

/-- A class without its last brace. -/
theorem parse_truncated_class :
    ∃ stream stream' unit, TokenStream.ofSource "class A \x7b Integer a; \x7d" = .ok stream ∧
      TokenStream.ofSource "class A \x7b Integer a; // b" = .ok stream' ∧
      stream'.Truncates stream ∧ parseUnit "class A \x7b Integer a; \x7d" = .ok unit ∧
      ∃ error, parseUnit "class A \x7b Integer a; // b" = .error error := by
  have htruncates : (do
      let stream ← TokenStream.ofSource "class A \x7b Integer a; \x7d"
      let stream' ← TokenStream.ofSource "class A \x7b Integer a; // b"
      return decide (stream'.Truncates stream)) = .ok true := by
    decide +kernel
  have haccepted : (parseUnit "class A \x7b Integer a; \x7d").toBool = true := by decide +kernel
  cases hstream : TokenStream.ofSource "class A \x7b Integer a; \x7d" with
  | error error =>
    rw [hstream] at htruncates
    cases htruncates
  | ok stream =>
    cases hstream' : TokenStream.ofSource "class A \x7b Integer a; // b" with
    | error error =>
      rw [hstream, hstream'] at htruncates
      cases htruncates
    | ok stream' =>
      cases hunit : parseUnit "class A \x7b Integer a; \x7d" with
      | error error =>
        rw [hunit] at haccepted
        cases haccepted
      | ok unit =>
        rw [hstream, hstream'] at htruncates
        have hshort : stream'.Truncates stream := of_decide_eq_true (Except.ok.inj htruncates)
        exact ⟨stream, stream', unit, rfl, rfl, hshort, rfl,
          parse_truncated hstream hstream' hshort hunit⟩

end ApexLayout
