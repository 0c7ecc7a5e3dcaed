import ApexLayout.Proofs.Json.Strings

/-!
Writings of JSON values.

`Writes` says which texts write a value: the format leaves the blanks between tokens and the spelling
of strings open, and nothing else. Every writing is read as the value that it writes (`Writes.read`),
whatever stands behind it, so no text writes two values.
-/

namespace ApexLayout

namespace Json

/-- A blank between tokens. -/
def isSpace (c : Char) : Bool := c == ' ' || c == '\t' || c == '\n' || c == '\r'

/-- Blanks, as many as one likes. -/
def Spaces (text : Text) : Prop := ∀ c ∈ text, isSpace c = true

instance (text : Text) : Decidable (Spaces text) := List.decidableBAll _ text

theorem spaces_nil : Spaces [] := fun _ h => absurd h List.not_mem_nil

theorem not_isDigit_of_isSpace {c : Char} (h : isSpace c = true) : c.isDigit = false := by
  simp only [isSpace, Bool.or_eq_true, beq_iff_eq] at h
  obtain ((rfl | rfl) | rfl) | rfl := h <;> decide

/-- The text writes the items, with blanks around each and commas between them. -/
inductive Row {α : Type} (writes : α → Text → Prop) : List α → Text → Prop
  | last {item : α} {before text after : Text} (front : Spaces before) (back : Spaces after)
      (written : writes item text) : Row writes [item] (before ++ (text ++ after))
  | more {item : α} {items : List α} {before text after rest : Text} (front : Spaces before)
      (back : Spaces after) (written : writes item text) (others : Row writes items rest) :
      Row writes (item :: items) (before ++ (text ++ (after ++ ',' :: rest)))

/-- The text writes the field: its key, a colon, and its value. -/
inductive WritesField (writes : Json → Text → Prop) : Text × Json → Text → Prop
  | mk {key name : Text} {value : Json} {before after text : Text}
      (named : Quoted (Spells key) name) (front : Spaces before) (back : Spaces after)
      (written : writes value text) :
      WritesField writes (key, value) (name ++ (before ++ ':' :: (after ++ text)))

/-- The text writes the value. -/
inductive Writes : Json → Text → Prop
  | null : Writes .null "null"
  | yes : Writes (.bool true) "true"
  | no : Writes (.bool false) "false"
  | number (value : Nat) : Writes (.number value) (Text.ofNat value)
  | string {value text : Text} (quoted : Quoted (Spells value) text) : Writes (.string value) text
  | emptyArray {gap : Text} (spaces : Spaces gap) : Writes (.array []) ('[' :: (gap ++ [']']))
  | array {items : List Json} {text : Text} (row : Row Writes items text) :
      Writes (.array items) ('[' :: (text ++ [']']))
  | emptyObject {gap : Text} (spaces : Spaces gap) :
      Writes (.object []) ('{' :: (gap ++ ['}']))
  | object {fields : List (Text × Json)} {text : Text} (row : Row (WritesField Writes) fields text) :
      Writes (.object fields) ('{' :: (text ++ ['}']))

/-- What may follow a value: a digit would go on with a number. -/
def Stops (rest : Text) : Prop := ∀ c ∈ rest.head?, c.isDigit = false

/-! ## Single characters -/

namespace Rule

/-- Blanks are passed over up to the first character that is none. -/
theorem blanks_run {gap rest : Text} (hgap : Spaces gap)
    (hrest : ∀ c ∈ rest.head?, isSpace c = false) :
    blanks (gap ++ rest) = .ok () rest := by
  show EStateM.Result.ok () ((gap ++ rest).dropWhile isSpace) = _
  rw [List.dropWhile_append_of_pos hgap]
  cases rest with
  | nil => rfl
  | cons c tail => rw [List.dropWhile_cons_of_neg (by simpa using hrest c)]

/-- A mark is found behind blanks. -/
theorem takeMark_same {gap rest : Text} {c : Char} (hgap : Spaces gap) (hc : isSpace c = false) :
    takeMark c (gap ++ c :: rest) = .ok true rest := by
  unfold takeMark
  rw [Reader.bind_of_ok (blanks_run hgap (by simpa using hc))]
  simp [take]

/-- Another character behind blanks is not the mark, and stays. -/
theorem takeMark_other {gap rest : Text} {c d : Char} (hgap : Spaces gap) (hd : isSpace d = false)
    (hne : d ≠ c) : takeMark c (gap ++ d :: rest) = .ok false (d :: rest) := by
  unfold takeMark
  rw [Reader.bind_of_ok (blanks_run hgap (by simpa using hd))]
  simp [take, hne]

/-- A required mark is found behind blanks. -/
theorem mark_run {gap rest : Text} {c : Char} (hgap : Spaces gap) (hc : isSpace c = false) :
    mark c (gap ++ c :: rest) = .ok () rest := by
  unfold mark
  rw [Reader.bind_of_ok (takeMark_same hgap hc)]
  rfl

/-- A required character is read where it stands. -/
theorem char_eq_ok {c : Char} {input final : Text} :
    char c input = .ok () final ↔ input = c :: final := by
  unfold char
  rw [Reader.bind_eq_ok]
  constructor
  · rintro ⟨found, middle, htake, hrequire⟩
    obtain ⟨rfl, rfl⟩ := Reader.require_eq_ok.1 hrequire
    unfold take at htake
    split at htake
    case isTrue hhead =>
      cases htake
      cases input with
      | nil => cases hhead
      | cons d tail =>
        cases hhead
        rfl
    case isFalse => cases htake
  · rintro rfl
    exact ⟨true, final, by simp [take], rfl⟩

/-- A given text is read off the input. -/
theorem exactly_run (text rest : Text) : exactly text (text ++ rest) = .ok () rest := by
  induction text with
  | nil => rfl
  | cons c tail ih =>
    show (char c >>= fun _ => exactly tail) (c :: (tail ++ rest)) = _
    rw [Reader.bind_of_ok (char_eq_ok.2 rfl)]
    exact ih

end Rule

/-! ## Numbers -/

/-- A number other than zero does not begin with a zero. -/
theorem head_ofNat_ne_zero {n : Nat} (h : n ≠ 0) : (Text.ofNat n).head? ≠ some '0' := by
  unfold Text.ofNat
  induction n using Nat.strongRecOn with
  | ind n ih =>
    rw [Nat.toDigits_eq_if (by decide)]
    split
    case isTrue hless =>
      have hdigits : ∀ d < 10, d ≠ 0 → Nat.digitChar d ≠ '0' := by decide
      simpa using hdigits n hless h
    case isFalse hless =>
      obtain ⟨first, tail, hdigits⟩ :=
        List.exists_cons_of_ne_nil (Nat.toDigits_ne_nil (n := n / 10) (b := 10))
      have hfirst := ih (n / 10) (by omega) (by omega)
      rw [hdigits] at hfirst ⊢
      exact hfirst

/-- Decimal digits write the number that they were made from. -/
theorem decimal_ofNat (n : Nat) : Text.decimal (Text.ofNat n) = n := by
  unfold Text.decimal Text.ofNat
  rw [← Nat.ofDigitChars_eq_foldl]
  exact Nat.ofDigitChars_ten_toDigits

/-- A number consists of digits. -/
theorem isDigit_of_mem_ofNat {n : Nat} {c : Char} (h : c ∈ Text.ofNat n) : c.isDigit = true :=
  Nat.isDigit_of_mem_toDigits (by decide) (by decide) h

/-- A number has digits. -/
theorem exists_ofNat_eq_cons (n : Nat) : ∃ first tail, Text.ofNat n = first :: tail :=
  List.exists_cons_of_ne_nil Nat.toDigits_ne_nil

/-- A number is read back behind its first digit. -/
theorem Rule.number_run {n : Nat} {first : Char} {tail rest : Text}
    (hdigits : Text.ofNat n = first :: tail) (hrest : Stops rest) :
    number first (tail ++ rest) = .ok (.number n) rest := by
  unfold number
  by_cases hn : n = 0
  · subst hn
    obtain ⟨rfl, rfl⟩ : first = '0' ∧ tail = [] := by simpa [Text.ofNat, eq_comm] using hdigits
    rfl
  · have hfirst : first ≠ '0' := by
      rintro rfl
      exact head_ofNat_ne_zero hn (by rw [hdigits]; rfl)
    have htail : ∀ c ∈ tail, c.isDigit = true := fun c hc =>
      isDigit_of_mem_ofNat (hdigits ▸ List.mem_cons_of_mem _ hc)
    have hstop : rest.takeWhile Char.isDigit = [] ∧ rest.dropWhile Char.isDigit = rest := by
      cases rest with
      | nil => exact ⟨rfl, rfl⟩
      | cons c _ => simp [hrest c rfl]
    rw [if_neg hfirst, List.takeWhile_append_of_pos htail, List.dropWhile_append_of_pos htail,
      hstop.1, hstop.2, List.append_nil, ← hdigits, decimal_ofNat]

/-! ## Values -/

/-- What a value may begin with: no blank, and nothing that ends a list or an object. -/
def begins (c : Char) : Bool := !isSpace c && c != ']' && c != '}'

theorem not_isSpace_of_begins {c : Char} (h : begins c = true) : isSpace c = false := by
  simp only [begins, Bool.and_eq_true, Bool.not_eq_true'] at h
  exact h.1.1

theorem begins_of_isDigit {c : Char} (h : c.isDigit = true) : begins c = true := by
  have hne : ∀ d : Char, d.isDigit = false → c ≠ d := by
    rintro d hd rfl
    rw [h] at hd
    cases hd
  simp [begins, isSpace, hne]

/-- A value begins with a character of its own. -/
theorem Writes.begins {value : Json} {text : Text} (h : Writes value text) :
    ∃ c tail, text = c :: tail ∧ begins c = true := by
  cases h with
  | null => exact ⟨'n', _, rfl, by decide⟩
  | yes => exact ⟨'t', _, rfl, by decide⟩
  | no => exact ⟨'f', _, rfl, by decide⟩
  | number n =>
    obtain ⟨first, tail, hdigits⟩ := exists_ofNat_eq_cons n
    have hfirst : first ∈ Text.ofNat n := hdigits ▸ List.mem_cons_self
    exact ⟨first, tail, hdigits, begins_of_isDigit (isDigit_of_mem_ofNat hfirst)⟩
  | string hquoted =>
    obtain ⟨content, -, rfl⟩ := hquoted
    exact ⟨'\x22', _, rfl, by decide⟩
  | emptyArray => exact ⟨'[', _, rfl, by decide⟩
  | array => exact ⟨'[', _, rfl, by decide⟩
  | emptyObject => exact ⟨'{', _, rfl, by decide⟩
  | object => exact ⟨'{', _, rfl, by decide⟩

/-! ## Rows -/

/-- The rule reads the text as the item behind blanks, wherever less than the bound is left. -/
structure Reads {α : Type} (bound : Nat) (rule : Rule α) (item : α) (text : Text) : Prop where
  begins : ∃ c tail, text = c :: tail ∧ begins c = true
  run : ∀ before rest, Spaces before → Stops rest → (before ++ (text ++ rest)).length < bound →
    rule (before ++ (text ++ rest)) = .ok item rest

section Row

variable {α : Type} {p q : α → Text → Prop} {items : List α} {text : Text}

/-- The parts of a row are no longer than the row. -/
theorem Row.map {β : Type} {r : β → Text → Prop} (f : α → β) (h : Row p items text)
    (hpr : ∀ item part, part.length ≤ text.length → p item part → r (f item) part) :
    Row r (items.map f) text := by
  induction h with
  | last hfront hback hwritten =>
    exact .last hfront hback (hpr _ _ (by simp only [List.length_append]; omega) hwritten)
  | more hfront hback hwritten _ ih =>
    refine .more hfront hback (hpr _ _ (by simp only [List.length_append]; omega) hwritten) (ih ?_)
    intro item part hpart
    refine hpr item part ?_
    simp only [List.length_append, List.length_cons]
    omega

theorem Row.imp (h : Row p items text)
    (hpq : ∀ item part, part.length ≤ text.length → p item part → q item part) :
    Row q items text := by
  simpa using h.map id hpq

/-- A blank or a mark behind a value does not go on with it. -/
theorem stops_append {after rest : Text} {c : Char} (hafter : Spaces after)
    (hc : c.isDigit = false) : Stops (after ++ c :: rest) := by
  intro d hd
  cases after with
  | nil =>
    obtain rfl : c = d := by simpa using hd
    exact hc
  | cons space _ =>
    obtain rfl : space = d := by simpa using hd
    exact not_isDigit_of_isSpace (hafter space List.mem_cons_self)

/-- The character ends a list or an object. -/
def closes (c : Char) : Bool := c == ']' || c == '}'

theorem closes_iff {c : Char} : closes c = true ↔ c = ']' ∨ c = '}' := by simp [closes]

/-- The items of a row are read round by round, up to the mark that closes it. -/
theorem Row.exists_rounds {bound : Nat} {rule : Rule α} {closer : Char} {rest : Text}
    (h : Row (Reads bound rule) items text) (hcloser : closes closer = true)
    (hless : (text ++ closer :: rest).length < bound) :
    ∃ first others middle, items = first :: others ∧
      rule (text ++ closer :: rest) = .ok first middle ∧
      middle.length ≤ (text ++ closer :: rest).length ∧
      Reader.Rounds (Reader.optional (Rule.takeMark ',') rule) middle others (closer :: rest) := by
  -- the closing mark ends a number, is no blank and does not separate items
  have hmark : closer.isDigit = false ∧ isSpace closer = false ∧ closer ≠ ',' := by
    obtain rfl | rfl := closes_iff.1 hcloser <;> decide
  induction h with
  | @last item before text after hfront hback hwritten =>
    refine ⟨item, [], after ++ closer :: rest, rfl, ?_, ?_, ?_⟩
    · -- a number ends here, at a blank or at the mark
      simp only [List.append_assoc] at hless ⊢
      exact hwritten.run _ _ hfront (stops_append hback hmark.1) hless
    · simp only [List.length_append]
      omega
    · exact .stop (Reader.optional_eq_none.2 (Rule.takeMark_other hback hmark.2.1 hmark.2.2))
  | @more item items before text after others hfront hback hwritten _ ih =>
    have hothers : (others ++ closer :: rest).length < bound := by
      simp only [List.length_append, List.length_cons] at hless ⊢
      omega
    obtain ⟨second, tail, middle, rfl, hread, hmiddle, hrounds⟩ := ih hothers
    refine ⟨item, second :: tail, after ++ ',' :: (others ++ closer :: rest), rfl, ?_, ?_, ?_⟩
    · simp only [List.append_assoc, List.cons_append] at hless ⊢
      exact hwritten.run _ _ hfront (stops_append hback (by decide)) hless
    · simp only [List.length_append, List.length_cons]
      omega
    · have htake : Rule.takeMark ',' (after ++ ',' :: (others ++ closer :: rest)) =
          .ok true (others ++ closer :: rest) := Rule.takeMark_same hback (by decide)
      refine .round (Reader.optional_eq_some.2 ⟨_, htake, hread⟩) ?_ hrounds
      simp only [Consumable.remaining, List.length_append, List.length_cons] at hmiddle ⊢
      omega

/-- Behind its blanks a row begins like its first item, and is still a row. -/
theorem Row.exists_begins (h : Row p items text)
    (hp : ∀ item part, p item part → ∃ c tail, part = c :: tail ∧ begins c = true) :
    ∃ before c tail, text = before ++ c :: tail ∧ Spaces before ∧ begins c = true ∧
      Row p items (c :: tail) := by
  cases h with
  | last hfront hback hwritten =>
    obtain ⟨c, tail, rfl, hc⟩ := hp _ _ hwritten
    exact ⟨_, c, _, rfl, hfront, hc, .last spaces_nil hback hwritten⟩
  | more hfront hback hwritten hothers =>
    obtain ⟨c, tail, rfl, hc⟩ := hp _ _ hwritten
    exact ⟨_, c, _, rfl, hfront, hc, .more spaces_nil hback hwritten hothers⟩

/-- A row is read up to the mark that closes it, which is not found at its beginning. -/
theorem Row.read {bound : Nat} {rule : Rule α} {closer : Char} {rest : Text}
    (h : Row (Reads bound rule) items text) (hcloser : closes closer = true)
    (hless : (text ++ closer :: rest).length < bound) :
    (do if ← Rule.takeMark closer then
          return []
        else
          let values ← Reader.separated (Rule.takeMark ',') rule
          Rule.mark closer
          return values : Rule (List α)) (text ++ closer :: rest) = .ok items rest := by
  obtain ⟨before, c, tail, rfl, hbefore, hc, hrow⟩ := h.exists_begins fun _ _ hread => hread.begins
  rw [List.append_assoc] at hless ⊢
  -- the first item begins with something else, so the row is not taken for an empty one
  have hother : c ≠ closer := by
    rintro rfl
    obtain rfl | rfl := closes_iff.1 hcloser <;> cases hc
  have hrest : ((c :: tail) ++ closer :: rest).length < bound := by
    rw [List.length_append] at hless
    omega
  have htake : Rule.takeMark closer (before ++ ((c :: tail) ++ closer :: rest)) =
      .ok false ((c :: tail) ++ closer :: rest) :=
    Rule.takeMark_other hbefore (not_isSpace_of_begins hc) hother
  have hmark : Rule.mark closer (closer :: rest) = .ok () rest := by
    obtain rfl | rfl := closes_iff.1 hcloser <;> exact Rule.mark_run spaces_nil (by decide)
  obtain ⟨first, others, middle, rfl, hfirst, -, hothers⟩ := hrow.exists_rounds hcloser hrest
  have hseparated : Reader.separated (Rule.takeMark ',') rule ((c :: tail) ++ closer :: rest) =
      .ok (first :: others) (closer :: rest) := by
    unfold Reader.separated
    rw [Reader.bind_of_ok hfirst, Reader.bind_of_ok (Reader.many_eq_ok.2 hothers)]
    rfl
  rw [Reader.bind_of_ok htake, if_neg Bool.false_ne_true, Reader.bind_of_ok hseparated,
    Reader.bind_of_ok hmark]
  rfl

end Row

section Field

variable {p q : Json → Text → Prop} {field : Text × Json} {text : Text}

/-- The value of a field is no longer than the field. -/
theorem WritesField.imp (h : WritesField p field text)
    (hpq : ∀ value part, part.length ≤ text.length → p value part → q value part) :
    WritesField q field text := by
  obtain ⟨hnamed, hfront, hback, hwritten⟩ := h
  refine .mk hnamed hfront hback (hpq _ _ ?_ hwritten)
  simp only [List.length_append, List.length_cons]
  omega

/-- A field is read by its key and its value. -/
theorem WritesField.read {bound : Nat} {rule : Rule Json}
    (h : WritesField (Reads bound rule) field text) : Reads bound (Rule.field rule) field text := by
  obtain @⟨key, _, value, before', after, part, ⟨spelled, hspelled, rfl⟩, hfront, hback, hwritten⟩ := h
  refine ⟨⟨'\x22', _, rfl, by decide⟩, ?_⟩
  intro before rest hbefore hrest hless
  have htext : before ++ ('\x22' :: (spelled ++ ['\x22']) ++ (before' ++ ':' :: (after ++ part)) ++
      rest) = before ++ '\x22' :: (spelled ++
        '\x22' :: (before' ++ ':' :: (after ++ (part ++ rest)))) := by
    simp
  rw [htext] at hless ⊢
  unfold Rule.field
  rw [Reader.bind_of_ok (Rule.mark_run hbefore (by decide)),
    Reader.bind_of_ok (Rule.string_run hspelled _), Reader.bind_of_ok (Rule.mark_run hfront (by decide)),
    Reader.bind_of_ok (hwritten.run _ _ hback hrest ?_)]
  · rfl
  · simp only [List.length_append, List.length_cons] at hless ⊢
    omega

end Field

/-! ## Reading -/

namespace Rule

/-- Blanks in front of a value do not matter. -/
theorem valueRule_spaces {inner : Rule Json} {before rest : Text} {c : Char}
    (hbefore : Spaces before) (hc : begins c = true) :
    valueRule inner (before ++ c :: rest) = valueRule inner (c :: rest) := by
  have hspace : ∀ d ∈ (c :: rest).head?, isSpace d = false := by
    simpa using not_isSpace_of_begins hc
  have hnone : blanks (c :: rest) = .ok () (c :: rest) := blanks_run spaces_nil hspace
  unfold valueRule
  rw [Reader.bind_of_ok (blanks_run hbefore hspace), Reader.bind_of_ok hnone]

theorem valueRule_quote (inner : Rule Json) (rest : Text) :
    valueRule inner ('\x22' :: rest) = (do return .string (← string) : Rule Json) rest := rfl

theorem valueRule_bracket (inner : Rule Json) (rest : Text) :
    valueRule inner ('[' :: rest) = (do return .array (← items inner) : Rule Json) rest := rfl

theorem valueRule_brace (inner : Rule Json) (rest : Text) :
    valueRule inner ('{' :: rest) = (do return .object (← fields inner) : Rule Json) rest := rfl

/-- A list without items. -/
theorem items_run {inner : Rule Json} {gap rest : Text} (hgap : Spaces gap) :
    items inner (gap ++ ']' :: rest) = .ok [] rest := by
  unfold items
  rw [Reader.bind_of_ok (takeMark_same hgap (by decide))]
  rfl

/-- An object without fields. -/
theorem fields_run {inner : Rule Json} {gap rest : Text} (hgap : Spaces gap) :
    fields inner (gap ++ '}' :: rest) = .ok [] rest := by
  unfold fields
  rw [Reader.bind_of_ok (takeMark_same hgap (by decide))]
  rfl

/-- A value that begins with a digit is a number. -/
theorem valueRule_digit {inner : Rule Json} {c : Char} (hc : c.isDigit = true) (rest : Text) :
    valueRule inner (c :: rest) = number c rest := by
  have hspace : ∀ d ∈ (c :: rest).head?, isSpace d = false := by
    simpa using not_isSpace_of_begins (begins_of_isDigit hc)
  have hnone : blanks (c :: rest) = .ok () (c :: rest) := blanks_run spaces_nil hspace
  unfold valueRule
  rw [Reader.bind_of_ok hnone, Reader.bind_of_ok (show next (c :: rest) = .ok c rest from rfl)]
  split
  case h_7 =>
    simp only [hc]
    rfl
  all_goals exact absurd hc (by decide)

end Rule

/-- One value is read by its rule as soon as the values inside it are read. -/
theorem Writes.valueRule_run {bound : Nat} {inner : Rule Json} {value : Json} {text rest : Text}
    (h : Writes value text) (hrest : Stops rest) (hless : (text ++ rest).length ≤ bound)
    (hinner : ∀ item part, part.length < text.length → Writes item part →
      Reads bound inner item part) :
    Rule.valueRule inner (text ++ rest) = .ok value rest := by
  cases h with
  | null =>
    show (Rule.exactly "ull" >>= fun _ => pure .null : Rule Json) ("ull".toList ++ rest) = _
    rw [Reader.bind_of_ok (Rule.exactly_run _ rest)]
    rfl
  | yes =>
    show (Rule.exactly "rue" >>= fun _ => pure (.bool true) : Rule Json) ("rue".toList ++ rest) = _
    rw [Reader.bind_of_ok (Rule.exactly_run _ rest)]
    rfl
  | no =>
    show (Rule.exactly "alse" >>= fun _ => pure (.bool false) : Rule Json) ("alse".toList ++ rest) = _
    rw [Reader.bind_of_ok (Rule.exactly_run _ rest)]
    rfl
  | number n =>
    obtain ⟨first, tail, hdigits⟩ := exists_ofNat_eq_cons n
    have hfirst : first ∈ Text.ofNat n := hdigits ▸ List.mem_cons_self
    rw [hdigits]
    exact (Rule.valueRule_digit (isDigit_of_mem_ofNat hfirst) _).trans (Rule.number_run hdigits hrest)
  | string hquoted =>
    obtain ⟨spelled, hspelled, rfl⟩ := hquoted
    rw [List.cons_append, List.append_assoc, Rule.valueRule_quote, List.singleton_append,
      Reader.bind_of_ok (Rule.string_run hspelled rest)]
    rfl
  | emptyArray hgap =>
    rw [List.cons_append, List.append_assoc, Rule.valueRule_bracket, List.singleton_append,
      Reader.bind_of_ok (Rule.items_run hgap)]
    rfl
  | @array items part hrow =>
    rw [List.cons_append, List.append_assoc] at hless ⊢
    have hitems : Rule.items inner (part ++ ']' :: rest) = .ok items rest := by
      -- the items are shorter than the text with its brackets
      refine Row.read (hrow.imp fun item piece hpiece hwritten => hinner item piece ?_ hwritten) rfl ?_
      · simp only [List.length_cons, List.length_append]
        omega
      · exact Nat.lt_of_succ_le hless
    rw [Rule.valueRule_bracket, List.singleton_append, Reader.bind_of_ok hitems]
    rfl
  | emptyObject hgap =>
    rw [List.cons_append, List.append_assoc, Rule.valueRule_brace, List.singleton_append,
      Reader.bind_of_ok (Rule.fields_run hgap)]
    rfl
  | @object fields part hrow =>
    rw [List.cons_append, List.append_assoc] at hless ⊢
    have hfields : Rule.fields inner (part ++ '}' :: rest) = .ok fields rest := by
      refine Row.read (hrow.imp fun field piece hpiece hwritten =>
        (hwritten.imp fun value last hlast hvalue => hinner value last ?_ hvalue).read) rfl ?_
      · simp only [List.length_cons, List.length_append]
        omega
      · exact Nat.lt_of_succ_le hless
    rw [Rule.valueRule_brace, List.singleton_append, Reader.bind_of_ok hfields]
    rfl

/-- Every writing of a value is read as this value, whatever blanks stand before it. -/
theorem Writes.read {value : Json} {text before rest : Text} (h : Writes value text)
    (hbefore : Spaces before) (hrest : Stops rest) :
    Rule.value (before ++ (text ++ rest)) = .ok value rest := by
  induction hsize : text.length using Nat.strongRecOn generalizing value text before rest with
  | ind size ih =>
    -- the values inside are shorter writings, read where less than the whole is left
    have hinner : ∀ item part, part.length < text.length → Writes item part →
        Reads (before ++ (text ++ rest)).length
          (Reader.below (before ++ (text ++ rest)).length Rule.value) item part := by
      intro item part hpart hwritten
      refine ⟨hwritten.begins, fun gap last hgap hlast hless => ?_⟩
      rw [Reader.below_run hless]
      exact ih part.length (hsize ▸ hpart) hwritten hgap hlast rfl
    have hvalue := h.valueRule_run hrest (List.suffix_append before _).length_le hinner
    obtain ⟨c, tail, rfl, hc⟩ := h.begins
    show Reader.recursive Rule.valueRule _ = _
    rw [Reader.recursive_run]
    exact (Rule.valueRule_spaces hbefore hc).trans hvalue

/-- A text writes at most one value. -/
theorem Writes.unique {first second : Json} {text : Text} (hfirst : Writes first text)
    (hsecond : Writes second text) : first = second := by
  have hstops : Stops [] := by simp [Stops]
  have hread := (hfirst.read spaces_nil hstops).symm.trans (hsecond.read spaces_nil hstops)
  simpa using hread

end Json

end ApexLayout
