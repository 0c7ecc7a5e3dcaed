import ApexLayout.Reader

/-!
Laws of readers.

A run that succeeds is taken apart step by step: a sequence into its two runs, a repetition into its
rounds (`Rounds`). A rule that calls itself is followed by induction on what is left to read.
-/

namespace ApexLayout

namespace Reader

variable {ε σ α β : Type}

/-! ## Single steps -/

/-- A sequence succeeds when both of its parts do. -/
theorem bind_eq_ok {first : EStateM ε σ α} {next : α → EStateM ε σ β} {input final : σ}
    {value : β} :
    (first >>= next) input = .ok value final ↔
      ∃ a middle, first input = .ok a middle ∧ next a middle = .ok value final := by
  show EStateM.bind first next input = _ ↔ _
  unfold EStateM.bind
  cases first input with
  | error failure middle => simp
  | ok a middle =>
    constructor
    · intro h
      exact ⟨a, middle, rfl, h⟩
    · rintro ⟨_, _, hfirst, h⟩
      cases hfirst
      exact h

/-- A sequence goes on where its first part stops. -/
theorem bind_of_ok {first : EStateM ε σ α} {next : α → EStateM ε σ β} {input middle : σ} {a : α}
    (h : first input = .ok a middle) : (first >>= next) input = next a middle := by
  show EStateM.bind first next input = _
  unfold EStateM.bind
  rw [h]

/-- A sequence fails where its first part does. -/
theorem bind_of_error {first : EStateM ε σ α} {next : α → EStateM ε σ β} {input middle : σ}
    {failure : ε} (h : first input = .error failure middle) :
    (first >>= next) input = .error failure middle := by
  show EStateM.bind first next input = _
  unfold EStateM.bind
  rw [h]

@[simp] theorem pure_run (value : α) (input : σ) :
    (pure value : EStateM ε σ α) input = .ok value input := rfl

@[simp] theorem get_run (input : σ) : (get : EStateM ε σ σ) input = .ok input input := rfl

@[simp] theorem throw_run (failure : ε) (input : σ) :
    (throw failure : EStateM ε σ α) input = .error failure input := rfl

/-- A requirement succeeds exactly when its condition holds, and stays in place. -/
theorem require_eq_ok {condition : Bool} {failure : ε} {input final : σ} {value : Unit} :
    (require condition failure : EStateM ε σ Unit) input = .ok value final ↔
      condition = true ∧ input = final := by
  unfold require
  cases condition <;> simp

/-- An attempt that reads something is the reader itself. -/
theorem attempt_eq_some {reader : EStateM ε σ α} {input final : σ} {value : α} :
    attempt reader input = .ok (some value) final ↔ reader input = .ok value final := by
  unfold attempt
  cases reader input <;> simp

/-- An attempt that reads nothing stays in place, and the reader has no result there. -/
theorem attempt_eq_none {reader : EStateM ε σ α} {input final : σ} :
    attempt reader input = .ok none final ↔
      final = input ∧ ∀ value rest, reader input ≠ .ok value rest := by
  unfold attempt
  cases reader input <;> simp [eq_comm]

/-- An optional part is there when its test says so. -/
theorem optional_eq_some {test : EStateM ε σ Bool} {reader : EStateM ε σ α} {input final : σ}
    {value : α} :
    optional test reader input = .ok (some value) final ↔
      ∃ middle, test input = .ok true middle ∧ reader middle = .ok value final := by
  unfold optional
  simp only [bind_eq_ok]
  constructor
  · rintro ⟨found, middle, htest, h⟩
    cases found with
    | false => simp at h
    | true =>
      simp only [if_true, bind_eq_ok, pure_run, EStateM.Result.ok.injEq, Option.some.injEq] at h
      obtain ⟨a, last, hread, rfl, rfl⟩ := h
      exact ⟨middle, htest, hread⟩
  · rintro ⟨middle, htest, hread⟩
    refine ⟨true, middle, htest, ?_⟩
    simp only [if_true, bind_eq_ok, pure_run]
    exact ⟨value, final, hread, rfl⟩

/-- An optional part is absent when its test says so. -/
theorem optional_eq_none {test : EStateM ε σ Bool} {reader : EStateM ε σ α} {input final : σ} :
    optional test reader input = .ok none final ↔ test input = .ok false final := by
  unfold optional
  simp only [bind_eq_ok]
  constructor
  · rintro ⟨found, middle, htest, h⟩
    cases found with
    | false =>
      simp only [Bool.false_eq_true, if_false, pure_run, EStateM.Result.ok.injEq, true_and] at h
      rw [← h]
      exact htest
    | true =>
      simp only [if_true, bind_eq_ok, pure_run, EStateM.Result.ok.injEq, reduceCtorEq, false_and,
        and_false, exists_false] at h
  · intro htest
    exact ⟨false, final, htest, by simp⟩

/-! ## Repetition and recursion -/

variable [Consumable ε σ]

/-- The rounds of a repetition: each reads an item and leaves less, and the last finds none. -/
inductive Rounds (item : EStateM ε σ (Option α)) : σ → List α → σ → Prop
  | stop {input final : σ} (last : item input = .ok none final) : Rounds item input [] final
  | round {input middle final : σ} {value : α} {values : List α}
      (first : item input = .ok (some value) middle)
      (less : Consumable.remaining middle < Consumable.remaining input)
      (others : Rounds item middle values final) : Rounds item input (value :: values) final

/-- A repetition succeeds exactly along its rounds. -/
theorem many_eq_ok {item : EStateM ε σ (Option α)} {input final : σ} {values : List α} :
    many item input = .ok values final ↔ Rounds item input values final := by
  constructor
  · intro h
    -- along the recursion of the repetition itself
    fun_induction many item input generalizing values final with
    | case1 => simp at h
    | case2 input rest hitem =>
      simp only [EStateM.Result.ok.injEq] at h
      obtain ⟨rfl, rfl⟩ := h
      exact .stop hitem
    | case3 => simp at h
    | case4 input value rest hitem hless others last hothers ih =>
      simp only [EStateM.Result.ok.injEq] at h
      obtain ⟨rfl, rfl⟩ := h
      exact .round hitem hless (ih hothers)
    | case5 => simp at h
  · intro h
    induction h with
    | stop hitem =>
      unfold many
      rw [hitem]
    | round hitem hless _ ih =>
      unfold many
      simp only [hitem, hless, if_true, ih]

/-- What holds of every item of a round holds of all values. -/
theorem Rounds.forall_mem {item : EStateM ε σ (Option α)} {good : α → Prop}
    (hitem : ∀ input value middle, item input = .ok (some value) middle → good value)
    {input final : σ} {values : List α} (h : Rounds item input values final) :
    ∀ value ∈ values, good value := by
  induction h with
  | stop => simp
  | round hfirst _ _ ih => exact List.forall_mem_cons.2 ⟨hitem _ _ _ hfirst, ih⟩

/-- Rounds end where an item finds nothing. -/
theorem Rounds.exists_stop {item : EStateM ε σ (Option α)} {input final : σ} {values : List α}
    (h : Rounds item input values final) : ∃ last, item last = .ok none final := by
  induction h with
  | stop hlast => exact ⟨_, hlast⟩
  | round _ _ _ ih => exact ih

/-- What holds at the beginning and behind every round holds at the end. -/
theorem Rounds.final {item : EStateM ε σ (Option α)} (good : σ → Prop)
    (hround : ∀ input value middle, item input = .ok (some value) middle → good middle)
    (hstop : ∀ input final, item input = .ok none final → final = input)
    {input final : σ} {values : List α} (h : Rounds item input values final)
    (hinput : good input) : good final := by
  induction h with
  | stop hlast => exact hstop _ _ hlast ▸ hinput
  | round hfirst _ _ ih => exact ih (hround _ _ _ hfirst)

/-- A reader that works only where less than a bound is left. -/
def below (bound : Nat) (reader : EStateM ε σ α) : EStateM ε σ α := fun input =>
  if Consumable.remaining input < bound then reader input
  else .error (Consumable.stalled input) input

/-- Below its bound a bounded reader is the reader. -/
theorem below_run {bound : Nat} {reader : EStateM ε σ α} {input : σ}
    (h : Consumable.remaining input < bound) : below bound reader input = reader input :=
  if_pos h

/-- A bounded reader succeeds only as the reader does, and below its bound. -/
theorem below_eq_ok {bound : Nat} {reader : EStateM ε σ α} {input final : σ} {value : α} :
    below bound reader input = .ok value final ↔
      Consumable.remaining input < bound ∧ reader input = .ok value final := by
  unfold below
  by_cases hless : Consumable.remaining input < bound
  · simp only [hless, if_true, true_and]
  · simp only [hless, if_false, false_and, reduceCtorEq]

/-- A recursion is its rule, with the recursion bounded by what is left. -/
theorem recursive_run (rule : EStateM ε σ α → EStateM ε σ α) (input : σ) :
    recursive rule input = rule (below (Consumable.remaining input) (recursive rule)) input := by
  rw [recursive]
  rfl

/-- What holds of a rule's successes as soon as it holds of the calls to itself holds of the
recursion. -/
theorem recursive_induction {rule : EStateM ε σ α → EStateM ε σ α} {good : σ → α → σ → Prop}
    (step : ∀ inner : EStateM ε σ α,
      (∀ input value final, inner input = .ok value final → good input value final) →
      ∀ input value final, rule inner input = .ok value final → good input value final) :
    ∀ input value final, recursive rule input = .ok value final → good input value final := by
  intro input
  induction hsize : Consumable.remaining input using Nat.strongRecOn generalizing input with
  | ind size ih =>
    intro value final h
    rw [recursive_run] at h
    refine step _ ?_ input value final h
    intro rest inner last hrest
    obtain ⟨hless, hrest⟩ := below_eq_ok.1 hrest
    exact ih _ (by omega) rest rfl inner last hrest

end Reader

end ApexLayout
