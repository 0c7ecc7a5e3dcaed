import ApexLayout.Proofs.Json.Writing
import Mathlib.Data.List.Forall2

/-!
Where JSON values end.

`Shaped` says how far a value reaches, whatever it means: a string goes to the first quote that is
not behind a backslash, a number over all characters that numbers are made of. Every JSON value has
such a shape, those included that the reader has no value for, such as a fraction. When such a text
is read at all, it is read to its end (`Shaped.ends`), so that an object that is read has the keys
that its text shows (`ofText?_keyed`).
-/

namespace ApexLayout

namespace Json

/-! ## Shapes -/

/-- A character that numbers are made of. -/
def isNumeral (c : Char) : Bool := c.isDigit || ['-', '+', '.', 'e', 'E'].contains c

/-- What stands between quotes: each quote in it is behind a backslash. -/
inductive Quotable : Text → Prop
  | nil : Quotable []
  | plain {c : Char} {rest : Text} (quote : c ≠ '\x22') (backslash : c ≠ '\\')
      (more : Quotable rest) : Quotable (c :: rest)
  | escaped (c : Char) {rest : Text} (more : Quotable rest) : Quotable ('\\' :: c :: rest)

/-- The text is a field of an object: a key, a colon and a value, each of the given kind. -/
inductive Member (name value : Text → Prop) : Text → Prop
  | mk {key before after text : Text} (named : Quoted name key) (front : Spaces before)
      (back : Spaces after) (written : value text) :
      Member name value (key ++ (before ++ ':' :: (after ++ text)))

/-- The text has the shape of a value. Only where it ends is told, so a key in it may be any string. -/
inductive Shaped : Text → Prop
  | null : Shaped "null"
  | yes : Shaped "true"
  | no : Shaped "false"
  | number {c : Char} {text : Text} (first : c.isDigit = true ∨ c = '-')
      (others : ∀ d ∈ text, isNumeral d = true) : Shaped (c :: text)
  | string {text : Text} (quoted : Quoted Quotable text) : Shaped text
  | emptyArray {gap : Text} (spaces : Spaces gap) : Shaped ('[' :: (gap ++ [']']))
  | array {items : List Unit} {text : Text} (row : Row (fun _ => Shaped) items text) :
      Shaped ('[' :: (text ++ [']']))
  | emptyObject {gap : Text} (spaces : Spaces gap) : Shaped ('{' :: (gap ++ ['}']))
  | object {fields : List Unit} {text : Text}
      (row : Row (fun _ => Member Quotable Shaped) fields text) :
      Shaped ('{' :: (text ++ ['}']))

/-- The text is an object with those keys, repeated ones included, whatever their values are. -/
def Keyed (keys : List Text) (text : Text) : Prop :=
  ∃ row, Row (fun key => Member (Spells key) Shaped) keys row ∧ text = '{' :: (row ++ ['}'])

/-- The text has blanks around something of the given kind. -/
def Spaced (inside : Text → Prop) (text : Text) : Prop :=
  ∃ before content after, Spaces before ∧ Spaces after ∧ inside content ∧
    text = before ++ (content ++ after)

/-! ## Shapes of writings -/

/-- A hexadecimal digit is neither a quote nor a backslash. -/
theorem IsHex.plain {value : Nat} {c : Char} (h : IsHex value c) : c ∉ ['\x22', '\\'] := by
  have hdigits : ∀ digit < 16, Nat.digitChar digit ∉ ['\x22', '\\'] ∧
      (Nat.digitChar digit).toUpper ∉ ['\x22', '\\'] := by decide
  obtain ⟨hless, rfl | rfl⟩ := h
  · exact (hdigits value hless).1
  · exact (hdigits value hless).2

theorem WritesUnit.quotable {unit : Nat} {text rest : Text} (h : WritesUnit unit text)
    (hrest : Quotable rest) : Quotable (text ++ rest) := by
  have hplain : ∀ {value c tail}, IsHex value c → Quotable tail → Quotable (c :: tail) := by
    intro value c tail hc htail
    obtain ⟨hquote, hbackslash⟩ : c ≠ '\x22' ∧ c ≠ '\\' := by simpa using hc.plain
    exact .plain hquote hbackslash htail
  obtain ⟨hfirst, hsecond, hthird, hfourth⟩ := h
  exact hplain hfirst (hplain hsecond (hplain hthird (hplain hfourth hrest)))

/-- What spells a text stands between quotes. -/
theorem Spells.quotable {text spelled : Text} (h : Spells text spelled) : Quotable spelled := by
  induction h with
  | nil => exact .nil
  | cons hhead _ ih =>
    cases hhead with
    | plain hquote hbackslash => exact .plain hquote hbackslash ih
    | letter => exact .escaped _ ih
    | unit hdigits => exact .escaped 'u' (hdigits.quotable ih)
    | pair _ hhigh hlow =>
      simp only [List.cons_append, List.append_assoc]
      exact .escaped 'u' (hhigh.quotable (.escaped 'u' (hlow.quotable ih)))

/-- What writes a value has the shape of one. -/
theorem Writes.shaped {value : Json} {text : Text} (h : Writes value text) : Shaped text := by
  -- the values inside are written with fewer characters
  induction hsize : text.length using Nat.strongRecOn generalizing value text with
  | ind size ih =>
    cases h with
    | null => exact .null
    | yes => exact .yes
    | no => exact .no
    | number n =>
      obtain ⟨first, tail, hdigits⟩ := exists_ofNat_eq_cons n
      have hall : ∀ c ∈ first :: tail, c.isDigit = true := fun c hc =>
        isDigit_of_mem_ofNat (hdigits ▸ hc)
      rw [hdigits]
      exact .number (.inl (hall first List.mem_cons_self)) fun c hc => by
        rw [isNumeral, hall c (List.mem_cons_of_mem _ hc), Bool.true_or]
    | string hquoted =>
      obtain ⟨content, hspells, rfl⟩ := hquoted
      exact .string ⟨content, hspells.quotable, rfl⟩
    | emptyArray hgap => exact .emptyArray hgap
    | @array items part hrow =>
      refine .array (hrow.map (fun _ => ()) fun _ piece hpiece hwrites => ih _ ?_ hwrites rfl)
      simp only [List.length_cons, List.length_append] at hsize
      omega
    | emptyObject hgap => exact .emptyObject hgap
    | @object fields part hrow =>
      refine .object (hrow.map (fun _ => ()) fun _ piece hpiece hwrites => ?_)
      obtain ⟨⟨content, hspells, rfl⟩, hfront, hback, hvalue⟩ := hwrites
      refine .mk ⟨content, hspells.quotable, rfl⟩ hfront hback (ih _ ?_ hvalue rfl)
      simp only [List.length_cons, List.length_append] at hsize hpiece
      omega

/-! ## Numbers -/

/-- A number goes on here, so that nothing else does. -/
def Stuck (rest : Text) : Prop := ∃ c tail, rest = c :: tail ∧ isNumeral c = true

/-- A character of numbers is no blank and no mark. -/
theorem not_isNumeral {c : Char} (h : isSpace c = true ∨ c = ',' ∨ closes c = true) :
    isNumeral c = false := by
  simp only [isSpace, Bool.or_eq_true, beq_iff_eq, closes_iff] at h
  obtain (((rfl | rfl) | rfl) | rfl) | rfl | rfl | rfl := h
  all_goals decide

theorem not_isSpace_of_isNumeral {c : Char} (h : isNumeral c = true) : isSpace c = false := by
  by_contra hspace
  rw [not_isNumeral (.inl (by simpa using hspace))] at h
  cases h

/-- In the middle of a number there is no mark. -/
theorem takeMark_stuck {rest : Text} {c : Char} (h : Stuck rest) (hc : c = ',' ∨ closes c = true) :
    Rule.takeMark c rest = .ok false rest := by
  obtain ⟨d, tail, rfl, hd⟩ := h
  have hne : d ≠ c := by
    rintro rfl
    rw [not_isNumeral (.inr hc)] at hd
    cases hd
  exact Rule.takeMark_other spaces_nil (not_isSpace_of_isNumeral hd) hne

/-- Behind its digits a number is at its end, or goes on. -/
theorem dropWhile_isDigit {text rest : Text} (h : ∀ c ∈ text, isNumeral c = true)
    (hrest : Stops rest) :
    Stuck ((text ++ rest).dropWhile Char.isDigit) ∨
      (text ++ rest).dropWhile Char.isDigit = rest := by
  induction text with
  | nil =>
    refine .inr ?_
    cases rest with
    | nil => rfl
    | cons c tail => exact List.dropWhile_cons_of_neg (by simpa using hrest c rfl)
  | cons c tail ih =>
    obtain ⟨hc, htail⟩ := List.forall_mem_cons.1 h
    by_cases hdigit : c.isDigit = true
    · rw [List.cons_append, List.dropWhile_cons_of_pos hdigit]
      exact ih htail
    · rw [List.cons_append, List.dropWhile_cons_of_neg hdigit]
      exact .inl ⟨c, _, rfl, hc⟩

/-- A number is read to its end, or its reading is stuck. -/
theorem Rule.number_ends {first : Char} {text rest final : Text} {value : Json}
    (h : ∀ c ∈ text, isNumeral c = true) (hrest : Stops rest)
    (hrun : number first (text ++ rest) = .ok value final) : Stuck final ∨ final = rest := by
  unfold number at hrun
  split at hrun
  case isTrue =>
    cases hrun
    cases text with
    | nil => exact .inr rfl
    | cons c tail => exact .inl ⟨c, _, rfl, h c List.mem_cons_self⟩
  case isFalse =>
    cases hrun
    exact dropWhile_isDigit h hrest

/-! ## Strings -/

/-- The place is inside of a string that ends in front of the rest. -/
def Inside (rest input : Text) : Prop :=
  ∃ content, Quotable content ∧ input = content ++ '\x22' :: rest

section Strings

variable {rest input final : Text}

/-- A hexadecimal digit does not end a string. -/
theorem hexDigit_inside {value : Nat} (h : Inside rest input)
    (hrun : Rule.hexDigit input = .ok value final) : Inside rest final := by
  obtain ⟨content, hcontent, rfl⟩ := h
  cases hcontent with
  | nil => cases hrun
  | @plain c tail _ _ hmore =>
    obtain ⟨d, middle, hnext, hrun⟩ := Reader.bind_eq_ok.1 hrun
    cases hnext
    cases hdigit : Rule.hexDigit? c with
    | none =>
      rw [hdigit] at hrun
      cases hrun
    | some digit =>
      rw [hdigit] at hrun
      cases hrun
      exact ⟨tail, hmore, rfl⟩
  | escaped => cases hrun

/-- A code unit does not end a string. -/
theorem codeUnit_inside {unit : Nat} (h : Inside rest input)
    (hrun : Rule.codeUnit input = .ok unit final) : Inside rest final := by
  obtain ⟨_, _, hfirst, hrun⟩ := Reader.bind_eq_ok.1 hrun
  obtain ⟨_, _, hsecond, hrun⟩ := Reader.bind_eq_ok.1 hrun
  obtain ⟨_, _, hthird, hrun⟩ := Reader.bind_eq_ok.1 hrun
  obtain ⟨_, _, hfourth, hrun⟩ := Reader.bind_eq_ok.1 hrun
  cases hrun
  exact hexDigit_inside (hexDigit_inside (hexDigit_inside (hexDigit_inside h hfirst) hsecond)
    hthird) hfourth

/-- The beginning of a second code unit does not end a string. -/
theorem unicodeMark_inside {value : Unit} (h : Inside rest input)
    (hrun : Rule.exactly "\\u" input = .ok value final) : Inside rest final := by
  obtain ⟨_, first, hfirst, hrun⟩ := Reader.bind_eq_ok.1 hrun
  obtain ⟨_, second, hsecond, hrun⟩ := Reader.bind_eq_ok.1 hrun
  cases hrun
  obtain rfl : input = '\\' :: first := Rule.char_eq_ok.1 hfirst
  obtain rfl : first = 'u' :: final := Rule.char_eq_ok.1 hsecond
  obtain ⟨content, hcontent, hinput⟩ := h
  cases hcontent with
  | nil => cases hinput
  | plain _ hbackslash => exact absurd (List.cons.inj hinput).1.symm hbackslash
  | escaped _ hmore =>
    -- the mark is one of the escapes, since a backslash stands nowhere else
    simp only [List.cons_append, List.cons.injEq, true_and] at hinput
    exact ⟨_, hmore, hinput.2⟩

/-- The escape of a character by its code units does not end a string. -/
theorem unicodeEscape_inside {c : Char} (h : Inside rest input)
    (hrun : Rule.unicodeEscape input = .ok c final) : Inside rest final := by
  obtain ⟨unit, middle, hunit, hrun⟩ := Reader.bind_eq_ok.1 hrun
  have hmiddle : Inside rest middle := codeUnit_inside h hunit
  split at hrun
  case isTrue =>
    obtain ⟨_, _, hmark, hrun⟩ := Reader.bind_eq_ok.1 hrun
    obtain ⟨_, _, hsecond, hrun⟩ := Reader.bind_eq_ok.1 hrun
    obtain ⟨_, _, hrequire, hrun⟩ := Reader.bind_eq_ok.1 hrun
    obtain ⟨-, rfl⟩ := Reader.require_eq_ok.1 hrequire
    simp only [Reader.pure_run, EStateM.Result.ok.injEq] at hrun
    obtain ⟨-, rfl⟩ := hrun
    exact codeUnit_inside (unicodeMark_inside hmiddle hmark) hsecond
  case isFalse =>
    obtain ⟨_, _, hrequire, hrun⟩ := Reader.bind_eq_ok.1 hrun
    obtain ⟨-, rfl⟩ := Reader.require_eq_ok.1 hrequire
    simp only [Reader.pure_run, EStateM.Result.ok.injEq] at hrun
    obtain ⟨-, rfl⟩ := hrun
    exact hmiddle

/-- Behind its backslash an escape does not end a string. -/
theorem escape_inside {letter c : Char} (h : Inside rest input)
    (hrun : Rule.escape (letter :: input) = .ok c final) : Inside rest final := by
  obtain ⟨_, _, hnext, hrun⟩ := Reader.bind_eq_ok.1 hrun
  cases hnext
  split at hrun
  case h_9 => exact unicodeEscape_inside h hrun
  case h_10 => cases hrun
  all_goals
    cases hrun
    exact h

/-- One step inside of a string finds its end, or stays inside. -/
theorem stringChar_inside {result : Option Char} (h : Inside rest input)
    (hrun : Rule.stringChar input = .ok result final) :
    result = none ∧ final = rest ∨ (∃ c, result = some c) ∧ Inside rest final := by
  obtain ⟨content, hcontent, rfl⟩ := h
  cases hcontent with
  | nil =>
    cases hrun
    exact .inl ⟨rfl, rfl⟩
  | @plain c tail hquote hbackslash hmore =>
    rw [List.cons_append, Rule.stringChar_plain hquote hbackslash] at hrun
    obtain ⟨_, _, hrequire, hrun⟩ := Reader.bind_eq_ok.1 hrun
    obtain ⟨-, rfl⟩ := Reader.require_eq_ok.1 hrequire
    cases hrun
    exact .inr ⟨⟨c, rfl⟩, tail, hmore, rfl⟩
  | @escaped letter tail hmore =>
    obtain ⟨c, _, hescape, hrun⟩ : ∃ c middle, Rule.escape (letter :: (tail ++ '\x22' :: rest)) =
        .ok c middle ∧ (pure (some c) : Rule (Option Char)) middle = .ok result final :=
      Reader.bind_eq_ok.1 hrun
    cases hrun
    exact .inr ⟨⟨c, rfl⟩, escape_inside ⟨tail, hmore, rfl⟩ hescape⟩

/-- A string is read to its end. -/
theorem Rule.string_ends {value : Text} (h : Inside rest input)
    (hrun : string input = .ok value final) : final = rest := by
  induction Reader.many_eq_ok.1 hrun with
  | stop hlast =>
    obtain ⟨-, hfinal⟩ | ⟨⟨c, hc⟩, -⟩ := stringChar_inside h hlast
    · exact hfinal
    · cases hc
  | round hfirst _ hothers ih =>
    obtain ⟨hnone, -⟩ | ⟨-, hinside⟩ := stringChar_inside h hfirst
    · cases hnone
    · exact ih hinside (Reader.many_eq_ok.2 hothers)

end Strings

/-! ## Rows and fields -/

/-- The text begins as values do, and when the rule reads it, then to its end and with a good
result, unless it is stuck in a number. -/
structure Ends {α : Type} (rule : Rule α) (good : α → Prop) (text : Text) : Prop where
  begins : ∃ c tail, text = c :: tail ∧ begins c = true
  ends : ∀ {before rest final value}, Spaces before → Stops rest →
    rule (before ++ (text ++ rest)) = .ok value final →
      Stuck final ∨ good value ∧ final = rest

/-- Under a bound a rule reads no more. -/
theorem Ends.below {α : Type} {rule : Rule α} {good : α → Prop} {text : Text}
    (h : Ends rule good text) (bound : Nat) : Ends (Reader.below bound rule) good text :=
  ⟨h.begins, fun hbefore hrest hrun => h.ends hbefore hrest (Reader.below_eq_ok.1 hrun).2⟩

section Row

variable {α β : Type} {good : α → β → Prop} {rule : Rule β} {items : List α} {values : List β}
  {text rest middle final : Text} {closer : Char}

/-- Without a comma there are no further rounds. -/
theorem rounds_of_no_comma (hcomma : Rule.takeMark ',' middle = .ok false rest)
    (h : Reader.Rounds (Reader.optional (Rule.takeMark ',') rule) middle values final) :
    values = [] ∧ final = rest := by
  cases h with
  | stop hlast =>
    have hsame := hcomma.symm.trans (Reader.optional_eq_none.1 hlast)
    cases hsame
    exact ⟨rfl, rfl⟩
  | round hfirst =>
    obtain ⟨_, htake, -⟩ := Reader.optional_eq_some.1 hfirst
    cases hcomma.symm.trans htake

/-- Behind a comma there is one round more. -/
theorem rounds_of_comma (hcomma : Rule.takeMark ',' middle = .ok true rest)
    (h : Reader.Rounds (Reader.optional (Rule.takeMark ',') rule) middle values final) :
    ∃ value others next, values = value :: others ∧ rule rest = .ok value next ∧
      Reader.Rounds (Reader.optional (Rule.takeMark ',') rule) next others final := by
  cases h with
  | stop hlast => cases hcomma.symm.trans (Reader.optional_eq_none.1 hlast)
  | round hfirst _ hothers =>
    obtain ⟨_, htake, hread⟩ := Reader.optional_eq_some.1 hfirst
    cases hcomma.symm.trans htake
    exact ⟨_, _, _, rfl, hread, hothers⟩

/-- The items of a row are read up to the mark that closes it, unless one of them is stuck. -/
theorem Row.rounds_end {value : β} (h : Row (fun item => Ends rule (good item)) items text)
    (hcloser : closes closer = true) (hfirst : rule (text ++ closer :: rest) = .ok value middle)
    (hothers : Reader.Rounds (Reader.optional (Rule.takeMark ',') rule) middle values final) :
    Stuck final ∨ List.Forall₂ good items (value :: values) ∧ final = closer :: rest := by
  -- the mark that closes a row goes on with no number and separates no items
  have hmark : closer.isDigit = false ∧ isSpace closer = false ∧ closer ≠ ',' := by
    obtain rfl | rfl := closes_iff.1 hcloser <;> decide
  induction h generalizing value values middle with
  | @last item before text after hfront hback hwritten =>
    simp only [List.append_assoc] at hfirst
    obtain hstuck | ⟨hgood, rfl⟩ := hwritten.ends hfront (stops_append hback hmark.1) hfirst
    · -- in the middle of a number there is no comma, so the rounds end there
      obtain ⟨-, rfl⟩ := rounds_of_no_comma (takeMark_stuck hstuck (.inl rfl)) hothers
      exact .inl hstuck
    · obtain ⟨rfl, rfl⟩ :=
        rounds_of_no_comma (Rule.takeMark_other hback hmark.2.1 hmark.2.2) hothers
      exact .inr ⟨.cons hgood .nil, rfl⟩
  | @more item items before text after others hfront hback hwritten _ ih =>
    simp only [List.append_assoc, List.cons_append] at hfirst
    obtain hstuck | ⟨hgood, rfl⟩ := hwritten.ends hfront (stops_append hback (by decide)) hfirst
    · obtain ⟨-, rfl⟩ := rounds_of_no_comma (takeMark_stuck hstuck (.inl rfl)) hothers
      exact .inl hstuck
    · obtain ⟨second, _, _, rfl, hsecond, hrounds⟩ :=
        rounds_of_comma (Rule.takeMark_same hback (by decide)) hothers
      obtain hstuck | ⟨hall, rfl⟩ := ih hsecond hrounds
      · exact .inl hstuck
      · exact .inr ⟨.cons hgood hall, rfl⟩

/-- A row that is read up to a closing mark is read to its end. -/
theorem Row.ends (h : Row (fun item => Ends rule (good item)) items text)
    (hcloser : closes closer = true)
    (hrun : (do if ← Rule.takeMark closer then
                  return []
                else
                  let values ← Reader.separated (Rule.takeMark ',') rule
                  Rule.mark closer
                  return values : Rule (List β)) (text ++ closer :: rest) = .ok values final) :
    List.Forall₂ good items values ∧ final = rest := by
  obtain ⟨before, c, tail, rfl, hbefore, hc, hrow⟩ := h.exists_begins fun _ _ hends => hends.begins
  -- the row has an item, and no item begins with a closing mark
  have hother : c ≠ closer := by
    rintro rfl
    obtain rfl | rfl := closes_iff.1 hcloser <;> cases hc
  have hopen : Rule.takeMark closer (before ++ c :: tail ++ closer :: rest) =
      .ok false ((c :: tail) ++ closer :: rest) := by
    rw [List.append_assoc]
    exact Rule.takeMark_other hbefore (not_isSpace_of_begins hc) hother
  rw [Reader.bind_of_ok hopen, if_neg Bool.false_ne_true] at hrun
  obtain ⟨_, last, hseparated, hrun⟩ := Reader.bind_eq_ok.1 hrun
  obtain ⟨_, _, hmark, hrun⟩ := Reader.bind_eq_ok.1 hrun
  cases hrun
  obtain ⟨first, _, hfirst, hseparated⟩ := Reader.bind_eq_ok.1 hseparated
  obtain ⟨others, _, hothers, hseparated⟩ := Reader.bind_eq_ok.1 hseparated
  cases hseparated
  obtain ⟨found, _, htake, hrequire⟩ := Reader.bind_eq_ok.1 hmark
  obtain ⟨rfl, rfl⟩ := Reader.require_eq_ok.1 hrequire
  obtain hstuck | ⟨hall, rfl⟩ := hrow.rounds_end hcloser hfirst (Reader.many_eq_ok.1 hothers)
  · -- nor is there a mark that closes the row
    cases (takeMark_stuck hstuck (.inr hcloser)).symm.trans htake
  · have hspace : isSpace closer = false := by
      obtain rfl | rfl := closes_iff.1 hcloser <;> rfl
    cases (Rule.takeMark_same spaces_nil hspace).symm.trans htake
    exact ⟨hall, rfl⟩

end Row

/-- A field is read to the end of its value, by a key that is read to its end. -/
theorem Member.ends {name value : Text → Prop} {rule : Rule Json} {good : Text → Prop} {text : Text}
    (h : Member name value text)
    (hname : ∀ {content rest key final}, name content →
      Rule.string (content ++ '\x22' :: rest) = .ok key final → good key ∧ final = rest)
    (hvalue : ∀ part, part.length ≤ text.length → value part → Ends rule (fun _ => True) part) :
    Ends (Rule.field rule) (fun field => good field.1) text := by
  obtain @⟨_, between, after, part, ⟨content, hcontent, rfl⟩, hfront, hback, hwritten⟩ := h
  have hends : Ends rule (fun _ => True) part := by
    refine hvalue part ?_ hwritten
    simp only [List.length_append, List.length_cons]
    omega
  refine ⟨⟨'\x22', _, rfl, by decide⟩, ?_⟩
  intro before rest final field hbefore hrest hrun
  have htext : before ++ ('\x22' :: (content ++ ['\x22']) ++ (between ++ ':' :: (after ++ part)) ++
      rest) = before ++ '\x22' :: (content ++
        '\x22' :: (between ++ ':' :: (after ++ (part ++ rest)))) := by
    simp
  rw [htext] at hrun
  unfold Rule.field at hrun
  rw [Reader.bind_of_ok (Rule.mark_run hbefore (by decide))] at hrun
  obtain ⟨key, _, hkey, hrun⟩ := Reader.bind_eq_ok.1 hrun
  obtain ⟨hgood, rfl⟩ := hname hcontent hkey
  rw [Reader.bind_of_ok (Rule.mark_run hfront (by decide))] at hrun
  obtain ⟨json, _, hjson, hrun⟩ := Reader.bind_eq_ok.1 hrun
  cases hrun
  obtain hstuck | ⟨-, rfl⟩ := hends.ends hback hrest hjson
  · exact .inl hstuck
  · exact .inr ⟨hgood, rfl⟩

/-! ## Values -/

/-- A value begins with a character of its own. -/
theorem Shaped.begins {text : Text} (h : Shaped text) :
    ∃ c tail, text = c :: tail ∧ begins c = true := by
  cases h with
  | null => exact ⟨'n', _, rfl, by decide⟩
  | yes => exact ⟨'t', _, rfl, by decide⟩
  | no => exact ⟨'f', _, rfl, by decide⟩
  | number hfirst =>
    obtain hdigit | rfl := hfirst
    · exact ⟨_, _, rfl, begins_of_isDigit hdigit⟩
    · exact ⟨'-', _, rfl, by decide⟩
  | string hquoted =>
    obtain ⟨content, -, rfl⟩ := hquoted
    exact ⟨'\x22', _, rfl, by decide⟩
  | emptyArray => exact ⟨'[', _, rfl, by decide⟩
  | array => exact ⟨'[', _, rfl, by decide⟩
  | emptyObject => exact ⟨'{', _, rfl, by decide⟩
  | object => exact ⟨'{', _, rfl, by decide⟩

/-- A value that is read by its rule is read to its end, if those inside it are. -/
theorem Shaped.valueRule_ends {inner : Rule Json} {value : Json} {text rest final : Text}
    (h : Shaped text) (hrest : Stops rest)
    (hinner : ∀ part, part.length < text.length → Shaped part → Ends inner (fun _ => True) part)
    (hrun : Rule.valueRule inner (text ++ rest) = .ok value final) :
    Stuck final ∨ final = rest := by
  cases h with
  | null | yes | no =>
    cases hrun
    exact .inr rfl
  | number hfirst hothers =>
    obtain hdigit | rfl := hfirst
    · rw [List.cons_append, Rule.valueRule_digit hdigit] at hrun
      exact Rule.number_ends hothers hrest hrun
    · -- no value begins with a sign
      cases hrun
  | string hquoted =>
    obtain ⟨content, hcontent, rfl⟩ := hquoted
    rw [List.cons_append, List.append_assoc, Rule.valueRule_quote] at hrun
    obtain ⟨_, _, hstring, hrun⟩ := Reader.bind_eq_ok.1 hrun
    cases hrun
    exact .inr (Rule.string_ends ⟨content, hcontent, rfl⟩ hstring)
  | emptyArray hgap =>
    rw [List.cons_append, List.append_assoc, Rule.valueRule_bracket] at hrun
    obtain ⟨_, _, hitems, hrun⟩ := Reader.bind_eq_ok.1 hrun
    cases hrun
    cases (Rule.items_run hgap).symm.trans hitems
    exact .inr rfl
  | @array items part hrow =>
    rw [List.cons_append, List.append_assoc, Rule.valueRule_bracket] at hrun
    obtain ⟨_, _, hitems, hrun⟩ := Reader.bind_eq_ok.1 hrun
    cases hrun
    have hends : Row (fun _ => Ends inner fun _ => True) items part := by
      refine hrow.imp fun _ piece hpiece hshaped => hinner piece ?_ hshaped
      simp only [List.length_cons, List.length_append]
      omega
    -- only a number may stop in the middle; behind a bracket the row was read to its end
    exact .inr (hends.ends rfl hitems).2
  | emptyObject hgap =>
    rw [List.cons_append, List.append_assoc, Rule.valueRule_brace] at hrun
    obtain ⟨_, _, hfields, hrun⟩ := Reader.bind_eq_ok.1 hrun
    cases hrun
    cases (Rule.fields_run hgap).symm.trans hfields
    exact .inr rfl
  | @object fields part hrow =>
    rw [List.cons_append, List.append_assoc, Rule.valueRule_brace] at hrun
    obtain ⟨_, _, hfields, hrun⟩ := Reader.bind_eq_ok.1 hrun
    cases hrun
    have hends : Row (fun _ => Ends (Rule.field inner) fun _ => True) fields part := by
      refine hrow.imp fun _ piece hpiece hmember =>
        @Member.ends _ _ _ (fun _ => True) _ hmember ?_ ?_
      · intro content rest key final hcontent hstring
        exact ⟨trivial, Rule.string_ends ⟨content, hcontent, rfl⟩ hstring⟩
      · intro last hlast hshaped
        refine hinner last ?_ hshaped
        simp only [List.length_cons, List.length_append]
        omega
    exact .inr (hends.ends rfl hfields).2

/-- A text in the shape of a value is read to its end, unless it is stuck in a number. -/
theorem Shaped.ends {text : Text} (h : Shaped text) : Ends Rule.value (fun _ => True) text := by
  induction hsize : text.length using Nat.strongRecOn generalizing text with
  | ind size ih =>
    refine ⟨h.begins, ?_⟩
    intro before rest final value hbefore hrest hrun
    -- the values inside are shorter, and a bound on what the rule reads takes nothing away
    have hinner : ∀ bound part, part.length < text.length → Shaped part →
        Ends (Reader.below bound Rule.value) (fun _ => True) part :=
      fun bound part hpart hshaped => (ih part.length (hsize ▸ hpart) hshaped rfl).below bound
    obtain ⟨c, tail, htext, hc⟩ := h.begins
    rw [Rule.value, Reader.recursive_run, htext, List.cons_append,
      Rule.valueRule_spaces hbefore hc, ← List.cons_append, ← htext] at hrun
    exact (h.valueRule_ends hrest (hinner _) hrun).imp id fun hfinal => ⟨trivial, hfinal⟩

/-- An object that is read has the keys that its text shows. -/
theorem Keyed.ends {keys : List Text} {text : Text} (h : Keyed keys text) :
    Ends Rule.value (fun json => ∃ fields, json = .object fields ∧ fields.map Prod.fst = keys)
      text := by
  obtain ⟨row, hrow, rfl⟩ := h
  have hends : ∀ bound, Row (fun key => Ends (Rule.field (Reader.below bound Rule.value))
      fun field => field.1 = key) keys row := by
    refine fun bound => hrow.imp fun key piece _ hmember =>
      @Member.ends _ _ _ (· = key) _ hmember ?_ ?_
    · intro content rest name final hspells hstring
      cases (Rule.string_run hspells rest).symm.trans hstring
      exact ⟨rfl, rfl⟩
    · exact fun part _ hshaped => hshaped.ends.below bound
  refine ⟨⟨'{', _, rfl, by decide⟩, ?_⟩
  intro before rest final value hbefore hrest hrun
  rw [Rule.value, Reader.recursive_run, List.cons_append, List.append_assoc,
    Rule.valueRule_spaces hbefore (by decide), Rule.valueRule_brace] at hrun
  obtain ⟨fields, _, hfields, hrun⟩ := Reader.bind_eq_ok.1 hrun
  cases hrun
  obtain ⟨hkeys, rfl⟩ := (hends _).ends rfl hfields
  refine .inr ⟨⟨fields, rfl, ?_⟩, rfl⟩
  have hsame : List.Forall₂ (· = ·) keys (fields.map Prod.fst) :=
    List.forall₂_map_right_iff.2 (hkeys.imp fun _ _ => Eq.symm)
  exact (List.forall₂_eq_eq_eq ▸ hsame : keys = _).symm

/-! ## Documents -/

theorem stops_of_spaces {text : Text} (h : Spaces text) : Stops text :=
  fun _ hc => not_isDigit_of_isSpace (h _ (List.mem_of_mem_head? hc))

/-- A text with blanks around a writing of a value is read as this value. -/
theorem ofText?_writes {json : Json} {text : Text} (h : Spaced (Writes json) text) :
    ofText? text = some json := by
  obtain ⟨before, part, after, hbefore, hafter, hwrites, rfl⟩ := h
  have hend : Rule.blanks after = .ok () [] := by
    rw [← List.append_nil after]
    exact Rule.blanks_run hafter (by simp)
  unfold ofText? Rule.document
  rw [Reader.bind_of_ok (hwrites.read hbefore (stops_of_spaces hafter)), Reader.bind_of_ok hend]
  rfl

/-- An object with blanks around it has the keys that its text shows, if it is read at all. -/
theorem ofText?_keyed {keys : List Text} {text : Text} {json : Json} (h : Spaced (Keyed keys) text)
    (hjson : ofText? text = some json) :
    ∃ fields, json = .object fields ∧ fields.map Prod.fst = keys := by
  obtain ⟨before, part, after, hbefore, hafter, hkeyed, rfl⟩ := h
  unfold ofText? at hjson
  split at hjson
  case h_2 => cases hjson
  case h_1 value last hdocument =>
    cases hjson
    obtain ⟨read, middle, hread, hdocument⟩ := Reader.bind_eq_ok.1 hdocument
    obtain ⟨_, _, hblanks, hdocument⟩ := Reader.bind_eq_ok.1 hdocument
    obtain ⟨_, _, hget, hdocument⟩ := Reader.bind_eq_ok.1 hdocument
    cases hget
    obtain ⟨_, _, hrequire, hdocument⟩ := Reader.bind_eq_ok.1 hdocument
    obtain ⟨hempty, rfl⟩ := Reader.require_eq_ok.1 hrequire
    cases hdocument
    obtain ⟨c, tail, rfl, hc⟩ | ⟨hkeys, -⟩ :=
      hkeyed.ends.ends hbefore (stops_of_spaces hafter) hread
    · -- a number that goes on is not the end of the text
      have hspace : isSpace c = false := not_isSpace_of_isNumeral hc
      have hsame : Rule.blanks (c :: tail) = .ok () (c :: tail) :=
        Rule.blanks_run spaces_nil (by simpa using hspace)
      cases hsame.symm.trans hblanks
      cases hempty
    · exact hkeys

end Json

end ApexLayout
