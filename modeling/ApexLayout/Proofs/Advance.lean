import ApexLayout.Grammar.Declaration
import ApexLayout.Proofs.Faults
import ApexLayout.Proofs.Replay.Type

/-!
Rules only move forward.

A rule that succeeds leaves the stream some tokens further on (`Advances`). What it found on the way
is kept by a relation between the two places that composes along the run (`Trail`): the faults of
the value, and a second list that is read off it.
-/

namespace ApexLayout

namespace Grammar

variable {α β γ : Type} {source middle rest : TokenStream}

/-! ## Moving forward -/

/-- A success leaves the stream some tokens further on. -/
def Advances (rule : Grammar α) : Prop :=
  ∀ source value rest, rule source = .ok value rest → ∃ count, rest = source.skip count

namespace Advances

theorem pure (value : α) : Advances (Pure.pure value : Grammar α) := by
  intro source value rest h
  cases h
  exact ⟨0, source.skip_zero.symm⟩

theorem get : Advances (MonadState.get : Grammar TokenStream) := by
  intro source value rest h
  cases h
  exact ⟨0, source.skip_zero.symm⟩

theorem fail (expected : Expectation) : Advances (Grammar.fail expected : Grammar α) := by
  intro source value rest h
  cases h

theorem look (view : TokenStream → α) : Advances (look view) := by
  intro source value rest h
  cases h
  exact ⟨0, source.skip_zero.symm⟩

theorem skip (count : Nat) : Advances (skip count) := by
  intro source value rest h
  cases h
  exact ⟨count, rfl⟩

theorem bind {first : Grammar α} {next : α → Grammar β} (hfirst : Advances first)
    (hnext : ∀ value, Advances (next value)) : Advances (first >>= next) := by
  intro source value rest h
  obtain ⟨a, middle, ha, h⟩ := Reader.bind_eq_ok.1 h
  obtain ⟨count, rfl⟩ := hfirst _ _ _ ha
  obtain ⟨more, rfl⟩ := hnext _ _ _ _ h
  exact ⟨count + more, TokenStream.skip_skip ..⟩

theorem ite {condition : Prop} [Decidable condition] {first second : Grammar α}
    (hfirst : Advances first) (hsecond : Advances second) :
    Advances (if condition then first else second) := by
  split
  · exact hfirst
  · exact hsecond

theorem require (condition : Bool) (expected : Expectation) :
    Advances (require condition expected) :=
  ite (pure ()) (fail expected)

theorem optional {test : Grammar Bool} {rule : Grammar α} (htest : Advances test)
    (hrule : Advances rule) : Advances (Reader.optional test rule) :=
  htest.bind fun _ => ite (hrule.bind fun _ => pure _) (pure none)

theorem many {item : Grammar (Option α)} (h : Advances item) : Advances (Reader.many item) := by
  intro source value rest hrun
  induction Reader.many_eq_ok.1 hrun with
  | stop hlast => exact h _ _ _ hlast
  | round hfirst _ hothers ih =>
    obtain ⟨count, rfl⟩ := h _ _ _ hfirst
    obtain ⟨more, rfl⟩ := ih (Reader.many_eq_ok.2 hothers)
    exact ⟨count + more, TokenStream.skip_skip ..⟩

theorem separated {separator : Grammar Bool} {item : Grammar α} (hseparator : Advances separator)
    (hitem : Advances item) : Advances (Reader.separated separator item) := by
  have hothers := many (hseparator.optional hitem)
  refine hitem.bind fun first => ?_
  exact hothers.bind fun others => pure _

theorem recursive {rule : Grammar α → Grammar α} (h : ∀ inner, Advances inner → Advances (rule inner)) :
    Advances (Reader.recursive rule) :=
  Reader.recursive_induction h

/-! ## Rules for tokens -/

theorem takeText : Advances takeText := (look _).bind fun _ => (skip 1).bind fun _ => pure _

theorem takeSymbol (text : Text) : Advances (takeSymbol text) :=
  (look _).bind fun _ => ite ((skip 1).bind fun _ => pure _) (pure _)

theorem takeWord (text : Text) : Advances (takeWord text) :=
  (look _).bind fun _ => ite ((skip 1).bind fun _ => pure _) (pure _)

theorem atSymbol (text : Text) : Advances (atSymbol text) := look _

theorem symbol (text : Text) : Advances (symbol text) :=
  (takeSymbol text).bind fun _ => require _ _

theorem identifier : Advances identifier := by
  refine (look _).bind fun found => ?_
  exact (require _ _).bind fun _ => takeText

theorem dotBeforeIdentifier : Advances dotBeforeIdentifier :=
  (look _).bind fun _ => ite ((skip 1).bind fun _ => pure _) (pure _)

theorem typeRef : Advances typeRef := by
  refine recursive fun inner hinner => ?_
  have harguments : Advances (typeArguments inner) := by
    refine (takeSymbol _).bind fun found => ite ?_ (pure _)
    refine (separated (takeSymbol _) hinner).bind fun arguments => ?_
    exact (symbol _).bind fun _ => pure _
  have hname : Advances (typeName inner) :=
    identifier.bind fun _ => harguments.bind fun _ => pure _
  have hpair : Advances bracketPair :=
    (look _).bind fun _ => ite ((skip 2).bind fun _ => pure _) (pure _)
  refine (separated dotBeforeIdentifier hname).bind fun segments => ?_
  exact hpair.many.bind fun pairs => pure _

theorem enclosure (opening closing : Text) (missing : Expectation) :
    Advances (enclosure opening closing missing) := by
  refine get.bind fun stream => ?_
  split
  · exact (skip _).bind fun _ => pure _
  · exact (skip _).bind fun _ => fail _

theorem annotation : Advances annotation := by
  refine (symbol _).bind fun _ => ?_
  refine (separated dotBeforeIdentifier identifier).bind fun names => ?_
  exact ((atSymbol _).optional (enclosure _ _ _)).bind fun arguments => pure _

theorem modifiers : Advances modifiers := by
  have htwo : Advances (Grammar.takeText >>= fun mode => Grammar.takeText >>= fun sharing =>
      Pure.pure (some (mode ++ " " ++ sharing))) := by
    refine takeText.bind fun mode => ?_
    exact takeText.bind fun sharing => pure _
  refine many (get.bind fun stream => ?_)
  refine ite ?_ (ite ?_ (ite htwo (pure none)))
  · exact Advances.annotation.bind fun written => pure _
  · exact takeText.bind fun written => pure _

end Advances

/-! ## What is found on the way -/

/-- A relation between two places of a run and what was found between them, which composes. -/
structure Trail (trail : TokenStream → List RenderError → List γ → TokenStream → Prop) : Prop where
  /-- Tokens may be passed over. -/
  skip : ∀ source count, trail source [] [] (source.skip count)
  /-- What was found in two steps is found in one. -/
  append : ∀ {source middle rest faults more items others}, trail source faults items middle →
    trail middle more others rest → trail source (faults ++ more) (items ++ others) rest

namespace Trail

variable {trail : TokenStream → List RenderError → List γ → TokenStream → Prop} (h : Trail trail)

include h

theorem advance {rule : Grammar α} {value : α} (hrule : Advances rule)
    (hrun : rule source = .ok value rest) : trail source [] [] rest := by
  obtain ⟨count, rfl⟩ := hrule _ _ _ hrun
  exact h.skip source count

theorem refl (source : TokenStream) : trail source [] [] source := by
  have hskip := h.skip source 0
  rwa [TokenStream.skip_zero] at hskip

/-- Tokens passed over in front. -/
theorem behind {rule : Grammar α} {value : α} {faults : List RenderError} {items : List γ}
    (hrule : Advances rule) (hrun : rule source = .ok value middle)
    (htrail : trail middle faults items rest) : trail source faults items rest :=
  h.append (h.advance hrule hrun) htrail

/-- Tokens passed over at the end. -/
theorem before {rule : Grammar α} {value : α} {faults : List RenderError} {items : List γ}
    (htrail : trail source faults items middle) (hrule : Advances rule)
    (hrun : rule middle = .ok value rest) : trail source faults items rest := by
  have happend := h.append htrail (h.advance hrule hrun)
  rwa [List.append_nil, List.append_nil] at happend

variable {faults : α → List RenderError} {items : α → List γ}

theorem rounds {rule : Grammar (Option α)} {values : List α}
    (hitem : ∀ source value rest, rule source = .ok (some value) rest →
      trail source (faults value) (items value) rest)
    (hstop : ∀ source rest, rule source = .ok none rest → trail source [] [] rest)
    (hrun : Reader.many rule source = .ok values rest) :
    trail source (values.flatMap faults) (values.flatMap items) rest := by
  induction Reader.many_eq_ok.1 hrun with
  | stop hlast => exact hstop _ _ hlast
  | round hfirst _ hothers ih =>
    exact h.append (hitem _ _ _ hfirst) (ih (Reader.many_eq_ok.2 hothers))

theorem optional {test : Grammar Bool} {rule : Grammar α} {value : Option α} (htest : Advances test)
    (hrule : ∀ source value rest, rule source = .ok value rest →
      trail source (faults value) (items value) rest)
    (hrun : Reader.optional test rule source = .ok value rest) :
    trail source (value.toList.flatMap faults) (value.toList.flatMap items) rest := by
  cases value with
  | none => exact h.advance htest (Reader.optional_eq_none.1 hrun)
  | some value =>
    obtain ⟨middle, hmiddle, hrun⟩ := Reader.optional_eq_some.1 hrun
    simpa using h.behind htest hmiddle (hrule _ _ _ hrun)

/-- Items behind a test that decides whether there is one more. -/
theorem optionals {test : Grammar Bool} {rule : Grammar α} {values : List α} (htest : Advances test)
    (hrule : ∀ source value rest, rule source = .ok value rest →
      trail source (faults value) (items value) rest)
    (hrun : Reader.many (Reader.optional test rule) source = .ok values rest) :
    trail source (values.flatMap faults) (values.flatMap items) rest := by
  refine h.rounds (fun source value rest hround => ?_) (fun source rest hstop => ?_) hrun
  · simpa using h.optional htest hrule hround
  · exact h.optional htest hrule hstop

theorem separated {separator : Grammar Bool} {rule : Grammar α} {values : List α}
    (hseparator : Advances separator)
    (hrule : ∀ source value rest, rule source = .ok value rest →
      trail source (faults value) (items value) rest)
    (hrun : Reader.separated separator rule source = .ok values rest) :
    trail source (values.flatMap faults) (values.flatMap items) rest := by
  unfold Reader.separated at hrun
  obtain ⟨first, middle, hfirst, hrun⟩ := Reader.bind_eq_ok.1 hrun
  obtain ⟨others, last, hothers, hpure⟩ := Reader.bind_eq_ok.1 hrun
  cases hpure
  exact h.append (hrule _ _ _ hfirst) (h.optionals hseparator hrule hothers)

end Trail

end Grammar

/-! ## Types -/

mutual

theorem TypeRef.faults_of_wellFormed :
    ∀ type : TypeRef, type.WellFormed → type.faults = []
  | ⟨[], _⟩ => fun h => absurd rfl h.1
  | ⟨name :: others, _⟩ => fun h => by
    rw [TypeRef.faults]
    exact TypeName.faultsAll_of_wellFormed (name :: others) h.2.1

theorem TypeName.faultsAll_of_wellFormed :
    ∀ names : List TypeName, TypeName.WellFormedAll names → TypeName.faultsAll names = []
  | [] => fun _ => rfl
  | ⟨_, arguments⟩ :: others => fun h => by
    rw [TypeName.faultsAll, TypeRef.faultsAll_of_wellFormed arguments h.1.2,
      TypeName.faultsAll_of_wellFormed others h.2, List.append_nil]

theorem TypeRef.faultsAll_of_wellFormed :
    ∀ types : List TypeRef, TypeRef.WellFormedAll types → TypeRef.faultsAll types = []
  | [] => fun _ => rfl
  | type :: others => fun h => by
    rw [TypeRef.faultsAll, TypeRef.faults_of_wellFormed type h.1,
      TypeRef.faultsAll_of_wellFormed others h.2, List.append_nil]

end

namespace Grammar

variable {source rest : TokenStream}

/-- A type that was read has no faults. -/
theorem typeRef_faults {type : TypeRef} (h : typeRef source = .ok type rest) : type.faults = [] :=
  type.faults_of_wellFormed (typeRef_ok _ _ _ h).1

end Grammar

end ApexLayout
