import ApexLayout.Text.Basic

/-!
JSON values.

Numbers are natural numbers, which is all that settings and tree dumps hold; an object keeps its
fields in order, repeated keys included.
-/

namespace ApexLayout

/-- A JSON value. -/
inductive Json
  | null
  | bool (value : Bool)
  | number (value : Nat)
  | string (value : Text)
  | array (items : List Json)
  | object (fields : List (Text × Json))

namespace Json

/-- An object with a single field, which says of what kind its content is. -/
def tagged (tag : Text) (content : Json) : Json := .object [(tag, content)]

/-- A value, or null without one. -/
def orNull : Option Json → Json
  | none => .null
  | some value => value

/-! ## Equality -/

mutual

/-- Whether two values are the same. -/
def same : Json → Json → Bool
  | .null, .null => true
  | .bool a, .bool b => a == b
  | .number a, .number b => a == b
  | .string a, .string b => a == b
  | .array a, .array b => sameItems a b
  | .object a, .object b => sameFields a b
  | _, _ => false

/-- Whether two lists hold the same values. -/
def sameItems : List Json → List Json → Bool
  | [], [] => true
  | a :: as, b :: bs => same a b && sameItems as bs
  | _, _ => false

/-- Whether two lists hold the same fields. -/
def sameFields : List (Text × Json) → List (Text × Json) → Bool
  | [], [] => true
  | (k, a) :: as, (l, b) :: bs => k == l && same a b && sameFields as bs
  | _, _ => false

end

mutual

/-- The comparison decides equality of values. -/
theorem same_iff : ∀ {a b : Json}, same a b = true ↔ a = b
  | .null, b => by cases b <;> simp [same]
  | .bool _, b => by cases b <;> simp [same]
  | .number _, b => by cases b <;> simp [same]
  | .string _, b => by cases b <;> simp [same]
  | .array as, b => by
    cases b <;> simp only [same, reduceCtorEq, Bool.false_eq_true, array.injEq]
    exact sameItems_iff
  | .object as, b => by
    cases b <;> simp only [same, reduceCtorEq, Bool.false_eq_true, object.injEq]
    exact sameFields_iff

/-- The comparison decides equality of lists of values. -/
theorem sameItems_iff : ∀ {as bs : List Json}, sameItems as bs = true ↔ as = bs
  | [], bs => by cases bs <;> simp [sameItems]
  | a :: as, bs => by
    cases bs with
    | nil => simp [sameItems]
    | cons b bs =>
      simp only [sameItems, Bool.and_eq_true, List.cons.injEq]
      exact and_congr same_iff sameItems_iff

/-- The comparison decides equality of lists of fields. -/
theorem sameFields_iff : ∀ {as bs : List (Text × Json)}, sameFields as bs = true ↔ as = bs
  | [], bs => by cases bs <;> simp [sameFields]
  | (k, a) :: as, bs => by
    cases bs with
    | nil => simp [sameFields]
    | cons b bs =>
      obtain ⟨l, b⟩ := b
      simp only [sameFields, Bool.and_eq_true, List.cons.injEq, Prod.mk.injEq, beq_iff_eq]
      exact and_congr (and_congr Iff.rfl same_iff) sameFields_iff

end

instance : DecidableEq Json := fun _ _ => decidable_of_iff _ same_iff

end Json

end ApexLayout
