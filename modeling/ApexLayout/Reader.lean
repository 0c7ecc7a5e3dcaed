import ApexLayout.Text.Basic

/-!
Readers: computations that consume an input and may stop.

A reader that stops leaves the input where it stopped. Repetition and recursion end because each
round has to leave less than it found; a round that does not is itself a failure, so both are
defined for every reader and agree with the unguarded equations wherever rounds do consume.
-/

namespace ApexLayout

/-- Inputs with a size, and the failure of a round that leaves as much as it found, raised for the
input that it leaves. -/
class Consumable (ε : outParam Type) (σ : Type) where
  /-- How much is left to read. -/
  remaining : σ → Nat
  /-- The failure of a round that consumes nothing. -/
  stalled : σ → ε

namespace Reader

variable {ε σ α : Type}

/-- Reads, or stays in place with nothing read. -/
def attempt (reader : EStateM ε σ α) : EStateM ε σ (Option α) := fun input =>
  match reader input with
  | .ok value rest => .ok (some value) rest
  | .error _ _ => .ok none input

/-- Reads if a test says so. -/
def optional (test : EStateM ε σ Bool) (reader : EStateM ε σ α) : EStateM ε σ (Option α) := do
  if ← test then
    return some (← reader)
  else
    return none

/-- Fails unless a condition holds. -/
def require (condition : Bool) (failure : ε) : EStateM ε σ Unit :=
  if condition then pure () else throw failure

variable [Consumable ε σ]

/-- Reads items until there are none. -/
def many (item : EStateM ε σ (Option α)) (input : σ) : EStateM.Result ε σ (List α) :=
  match item input with
  | .error failure rest => .error failure rest
  | .ok none rest => .ok [] rest
  | .ok (some value) rest =>
    if Consumable.remaining rest < Consumable.remaining input then
      match many item rest with
      | .error failure final => .error failure final
      | .ok values final => .ok (value :: values) final
    else .error (Consumable.stalled rest) rest
termination_by Consumable.remaining input

/-- Reads one item and then one more for every separator. -/
def separated (separator : EStateM ε σ Bool) (item : EStateM ε σ α) : EStateM ε σ (List α) := do
  let first ← item
  let others ← many (optional separator item)
  return first :: others

/-- Reads by a rule that may use itself on what is left once something has been consumed. -/
def recursive (rule : EStateM ε σ α → EStateM ε σ α) (input : σ) : EStateM.Result ε σ α :=
  rule (fun rest =>
    if Consumable.remaining rest < Consumable.remaining input then recursive rule rest
    else .error (Consumable.stalled rest) rest) input
termination_by Consumable.remaining input

end Reader

end ApexLayout
