import ApexLayout.Json.Read
import ApexLayout.Json.Write
import ApexLayout.Proofs.Reader

/-!
Spellings of JSON strings.

A character of a string stands for itself, behind a backslash as a letter, or as its code units in
hexadecimal digits: one, or a surrogate pair. Every spelling is read as the text that it spells
(`Rule.string_run`), and what the writer makes of a text is one of them (`spells_escaped`).
-/

namespace ApexLayout

namespace Json

/-! ## Spellings -/

/-- A hexadecimal digit of that value, in either case. -/
def IsHex (value : Nat) (c : Char) : Prop :=
  value < 16 ∧ (c = Nat.digitChar value ∨ c = (Nat.digitChar value).toUpper)

/-- Four hexadecimal digits write the code unit. -/
inductive WritesUnit : Nat → Text → Prop
  | mk {w x y z : Nat} {a b c d : Char} (first : IsHex w a) (second : IsHex x b)
      (third : IsHex y c) (fourth : IsHex z d) :
      WritesUnit (((w * 16 + x) * 16 + y) * 16 + z) [a, b, c, d]

/-- The letters behind a backslash, with the characters that they stand for. -/
def letters : List (Char × Char) :=
  [('\x22', '\x22'), ('\\', '\\'), ('/', '/'), ('b', '\x08'), ('f', '\x0c'), ('n', '\n'),
    ('r', '\r'), ('t', '\t')]

/-- The text spells the character inside a string. -/
inductive SpellsChar : Char → Text → Prop
  | plain {c : Char} (quote : c ≠ '\x22') (backslash : c ≠ '\\') (control : 0x20 ≤ c.toNat) :
      SpellsChar c [c]
  | letter {c letter : Char} (listed : (letter, c) ∈ letters) : SpellsChar c ['\\', letter]
  | unit {c : Char} {text : Text} (digits : WritesUnit c.toNat text) :
      SpellsChar c ('\\' :: 'u' :: text)
  | pair {c : Char} {high low : Text} (beyond : 0x10000 ≤ c.toNat)
      (first : WritesUnit (0xD800 + (c.toNat - 0x10000) / 0x400) high)
      (second : WritesUnit (0xDC00 + (c.toNat - 0x10000) % 0x400) low) :
      SpellsChar c ('\\' :: 'u' :: (high ++ '\\' :: 'u' :: low))

/-- The second text spells the first inside a string, character by character. -/
inductive Spells : Text → Text → Prop
  | nil : Spells [] []
  | cons {c : Char} {text part rest : Text} (head : SpellsChar c part) (tail : Spells text rest) :
      Spells (c :: text) (part ++ rest)

/-- The text is a quote, something of the given kind, and a quote. -/
def Quoted (inside : Text → Prop) (text : Text) : Prop :=
  ∃ content, inside content ∧ text = '\x22' :: (content ++ ['\x22'])

/-! ## Reading -/

namespace Rule

/-- A hexadecimal digit has its value. -/
theorem hexDigit_run {value : Nat} {c : Char} (h : IsHex value c) (rest : Text) :
    hexDigit (c :: rest) = .ok value rest := by
  have hvalue : ∀ digit < 16, hexDigit? (Nat.digitChar digit) = some digit ∧
      hexDigit? (Nat.digitChar digit).toUpper = some digit := by decide
  have hread : hexDigit? c = some value := by
    obtain ⟨hless, rfl | rfl⟩ := h
    · exact (hvalue value hless).1
    · exact (hvalue value hless).2
  unfold hexDigit
  rw [Reader.bind_of_ok (show next (c :: rest) = .ok _ rest from rfl), hread]
  rfl

/-- Four digits have the value of their code unit. -/
theorem codeUnit_run {unit : Nat} {text : Text} (h : WritesUnit unit text) (rest : Text) :
    codeUnit (text ++ rest) = .ok unit rest := by
  obtain ⟨hfirst, hsecond, hthird, hfourth⟩ := h
  unfold codeUnit
  simp only [List.cons_append, List.nil_append]
  rw [Reader.bind_of_ok (hexDigit_run hfirst _), Reader.bind_of_ok (hexDigit_run hsecond _),
    Reader.bind_of_ok (hexDigit_run hthird _), Reader.bind_of_ok (hexDigit_run hfourth _)]
  rfl

/-- The code of a character is no surrogate. -/
theorem not_surrogate (c : Char) : c.toNat < 0xD800 ∨ 0xE000 ≤ c.toNat := by
  obtain h | h := c.valid
  · exact .inl h
  · exact .inr h.1

/-- A code unit of its own is read as its character. -/
theorem unicodeEscape_unit {c : Char} {text : Text} (h : WritesUnit c.toNat text) (rest : Text) :
    unicodeEscape (text ++ rest) = .ok c rest := by
  have hplain := not_surrogate c
  unfold unicodeEscape
  rw [Reader.bind_of_ok (codeUnit_run h rest), if_neg (by omega)]
  simp only [show (decide (c.toNat < 0xD800) || decide (0xE000 ≤ c.toNat)) = true by
    simpa using hplain]
  show EStateM.Result.ok (Char.ofNat c.toNat) rest = _
  rw [Char.ofNat_toNat]

/-- A surrogate pair is read as its character. -/
theorem unicodeEscape_pair {c : Char} {high low : Text} (hbeyond : 0x10000 ≤ c.toNat)
    (hhigh : WritesUnit (0xD800 + (c.toNat - 0x10000) / 0x400) high)
    (hlow : WritesUnit (0xDC00 + (c.toNat - 0x10000) % 0x400) low) (rest : Text) :
    unicodeEscape (high ++ '\\' :: 'u' :: (low ++ rest)) = .ok c rest := by
  have hless : c.toNat < 0x110000 := by
    obtain h | h := c.valid
    · exact Nat.lt_trans h (by decide)
    · exact h.2
  have hmark : exactly "\\u" ('\\' :: 'u' :: (low ++ rest)) = .ok () (low ++ rest) := rfl
  unfold unicodeEscape
  rw [Reader.bind_of_ok (codeUnit_run hhigh _), if_pos (by omega), Reader.bind_of_ok hmark,
    Reader.bind_of_ok (codeUnit_run hlow rest)]
  have hrange : (decide (0xDC00 ≤ 0xDC00 + (c.toNat - 0x10000) % 0x400) &&
      decide (0xDC00 + (c.toNat - 0x10000) % 0x400 < 0xE000)) = true := by
    simp only [Bool.and_eq_true, decide_eq_true_eq]
    omega
  simp only [hrange]
  show EStateM.Result.ok (Char.ofNat (0x10000 +
    (0xD800 + (c.toNat - 0x10000) / 0x400 - 0xD800) * 0x400 +
      (0xDC00 + (c.toNat - 0x10000) % 0x400 - 0xDC00))) rest = _
  rw [show 0x10000 + (0xD800 + (c.toNat - 0x10000) / 0x400 - 0xD800) * 0x400 +
    (0xDC00 + (c.toNat - 0x10000) % 0x400 - 0xDC00) = c.toNat by omega, Char.ofNat_toNat]

/-- A character that stands for itself is read as itself. -/
theorem stringChar_plain {c : Char} (hquote : c ≠ '\x22') (hbackslash : c ≠ '\\')
    (rest : Text) :
    stringChar (c :: rest) =
      (do Reader.require (0x20 ≤ c.toNat) (); return some c : Rule (Option Char)) rest := by
  unfold stringChar
  rw [Reader.bind_of_ok (show next (c :: rest) = .ok c rest from rfl)]
  split
  case h_1 => exact absurd rfl hquote
  case h_2 => exact absurd rfl hbackslash
  case h_3 => rfl

/-- A spelled character is read as the character. -/
theorem stringChar_run {c : Char} {text : Text} (h : SpellsChar c text) (rest : Text) :
    stringChar (text ++ rest) = .ok (some c) rest := by
  cases h with
  | plain hquote hbackslash hcontrol =>
    refine (stringChar_plain hquote hbackslash rest).trans ?_
    simp only [hcontrol, decide_true]
    rfl
  | letter hlisted =>
    simp only [letters, List.mem_cons, Prod.mk.injEq, List.not_mem_nil, or_false] at hlisted
    obtain ⟨rfl, rfl⟩ | ⟨rfl, rfl⟩ | ⟨rfl, rfl⟩ | ⟨rfl, rfl⟩ | ⟨rfl, rfl⟩ | ⟨rfl, rfl⟩ | ⟨rfl, rfl⟩ |
      ⟨rfl, rfl⟩ := hlisted
    all_goals rfl
  | @unit digits hdigits =>
    show (unicodeEscape >>= fun c => pure (some c) : Rule _) (digits ++ rest) = _
    rw [Reader.bind_of_ok (unicodeEscape_unit hdigits rest)]
    rfl
  | @pair high low hbeyond hhigh hlow =>
    simp only [List.cons_append, List.append_assoc]
    show (unicodeEscape >>= fun c => pure (some c) : Rule _)
      (high ++ '\\' :: 'u' :: (low ++ rest)) = _
    rw [Reader.bind_of_ok (unicodeEscape_pair hbeyond hhigh hlow rest)]
    rfl

/-- A spelling has characters of its own. -/
theorem length_pos_of_spellsChar {c : Char} {text : Text} (h : SpellsChar c text) :
    0 < text.length := by
  cases h <;> simp

/-- A spelled text is read behind its opening quote. -/
theorem string_run {text spelled : Text} (h : Spells text spelled) (rest : Text) :
    string (spelled ++ '\x22' :: rest) = .ok text rest := by
  unfold string
  rw [Reader.many_eq_ok]
  induction h with
  | nil => exact .stop rfl
  | @cons c text part others hpart _ ih =>
    rw [List.append_assoc]
    refine .round (stringChar_run hpart _) ?_ ih
    have hpos := length_pos_of_spellsChar hpart
    simp only [Consumable.remaining, List.length_append]
    omega

end Rule

/-! ## Writing -/

/-- The writer spells a character. -/
theorem spellsChar_escapeChar (c : Char) : SpellsChar c (escapeChar c) := by
  unfold escapeChar
  split
  case isTrue h => exact h ▸ .letter (by decide)
  split
  case isTrue h => exact h ▸ .letter (by decide)
  split
  case isTrue h => exact h ▸ .letter (by decide)
  split
  case isTrue h => exact h ▸ .letter (by decide)
  split
  case isTrue h => exact h ▸ .letter (by decide)
  split
  case isTrue h => exact h ▸ .letter (by decide)
  split
  case isTrue h => exact h ▸ .letter (by decide)
  split
  case isTrue h =>
    -- a control character is written with the two zeros in front and its own two digits
    have hunit := WritesUnit.mk (w := 0) (x := 0) (y := c.toNat / 16) (z := c.toNat % 16)
      ⟨by decide, .inl rfl⟩ ⟨by decide, .inl rfl⟩ ⟨by omega, .inl rfl⟩ ⟨by omega, .inl rfl⟩
    rw [show ((0 * 16 + 0) * 16 + c.toNat / 16) * 16 + c.toNat % 16 = c.toNat by omega] at hunit
    exact .unit hunit
  case isFalse hquote hbackslash _ _ _ _ _ hcontrol =>
    exact .plain hquote hbackslash (by omega)

/-- The writer spells a text. -/
theorem spells_escaped : ∀ text : Text, Spells text (text.flatMap escapeChar)
  | [] => .nil
  | c :: text => .cons (spellsChar_escapeChar c) (spells_escaped text)

/-- The writer's string is one of the spellings between quotes. -/
theorem quoted_quote (text : Text) : Quoted (Spells text) (quote text) :=
  ⟨_, spells_escaped text, by simp [quote]⟩

end Json

end ApexLayout
