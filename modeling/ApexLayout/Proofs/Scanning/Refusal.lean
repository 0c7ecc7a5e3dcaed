import ApexLayout.Proofs.Scanning.Cuts
import ApexLayout.Proofs.Tiling

/-!
Where and why a source is refused.

A source that cannot be cut into tokens is refused at one of three things: a comment that is not
closed, a string that is not closed on its line, or a character that begins no token. What stands in
front of it can be cut by itself (`TokenStream.ofSource_refused`).
-/

namespace ApexLayout

/-- Behind an opening quote: the line or the text ends before a closing quote, where a backslash
takes the next character with it. -/
inductive Text.Unclosed : Text → Prop
  | nil : Unclosed []
  | newline {rest : Text} : Unclosed ('\n' :: rest)
  | escape {c : Char} {rest : Text} (tail : Unclosed rest) : Unclosed ('\\' :: c :: rest)
  /-- There is nothing left that the backslash could take. -/
  | lone : Unclosed ['\\']
  | char {c : Char} {rest : Text} (plain : c ∉ ['\\', '\x27', '\n']) (tail : Unclosed rest) :
      Unclosed (c :: rest)

/-- What a source is refused for, by the text that begins there and the message. -/
inductive Text.Refused : Text → Text → Prop
  | comment {rest : Text} (unclosed : ¬ ['*', '/'] <:+: rest) :
      Refused ('/' :: '*' :: rest) "unterminated block comment"
  | string {rest : Text} (unclosed : Unclosed rest) :
      Refused ('\x27' :: rest) "unterminated string literal"
  | character {c : Char} {rest : Text} (blank : isBlank c = false) (word : c.isAlphanum = false)
      (sign : c ∉ ['_', '\x27']) (symbol : ∀ symbol ∈ Scan.symbols, symbol.head? ≠ some c) :
      Refused (c :: rest) ("unexpected character " ++ quoted [c])

namespace Scan

theorem unclosed_of_stringTail {count : Nat} {text : Text} (h : stringTail count text = none) :
    text.Unclosed := by
  fun_induction stringTail count text with
  | case1 count c rest ih => exact .escape (ih h)
  | case2 => cases h
  | case3 => exact .newline
  | case4 count c rest hescape hquote hline ih =>
    by_cases hbackslash : c = '\\'
    · subst hbackslash
      cases rest with
      | nil => exact .lone
      | cons next rest => exact absurd rfl (hescape next rest rfl)
    · refine .char ?_ (ih h)
      simp only [List.mem_cons, List.not_mem_nil, or_false, not_or]
      exact ⟨hbackslash, hquote, hline⟩
  | case5 => exact .nil

/-- Every first character of a symbol is a symbol of its own. -/
theorem symbols_first {symbol : Text} {c : Char} (hsymbol : symbol ∈ symbols)
    (hc : symbol.head? = some c) : [c] ∈ symbols := by
  have hall : (symbols.all fun symbol => symbol.head?.all fun c => symbols.contains [c]) = true := by
    decide
  have hone := List.all_eq_true.1 hall symbol hsymbol
  rw [hc] at hone
  exact List.contains_iff_mem.1 hone

theorem head_ne_of_find {c : Char} {rest : Text}
    (h : symbols.find? (·.isPrefixOf (c :: rest)) = none) :
    ∀ symbol ∈ symbols, symbol.head? ≠ some c := by
  intro symbol hsymbol hhead
  refine List.find?_eq_none.1 h [c] (symbols_first hsymbol hhead) ?_
  rw [List.isPrefixOf_iff_prefix]
  exact List.prefix_append [c] rest

/-- The two reasons for which no token begins with a character. -/
theorem lexeme_error_cases {c : Char} {rest : Text} {cause : SyntaxCause}
    (h : lexeme c rest = .error cause) :
    (c = '\x27' ∧ cause = .unclosedString ∧ stringTail 0 rest = none) ∨
      (cause = .strayCharacter c ∧ isWordStart c = false ∧ c.isDigit = false ∧ c ≠ '\x27' ∧
        symbols.find? (·.isPrefixOf (c :: rest)) = none) := by
  unfold lexeme at h
  split at h
  case isTrue => cases h
  case isFalse hword =>
    split at h
    case isTrue => cases h
    case isFalse hdigit =>
      rw [Bool.not_eq_true] at hword hdigit
      split at h
      case isTrue hquote =>
        split at h
        · cases h
        · exact .inl ⟨hquote, (Except.error.inj h).symm, ‹_›⟩
      case isFalse hquote =>
        split at h
        · cases h
        · exact .inr ⟨(Except.error.inj h).symm, hword, hdigit, hquote, ‹_›⟩

/-- Where a gap cannot be measured, a comment begins that is not closed, and a gap stands in front of
it. -/
theorem unclosed_comment {lead rest : Text}
    (h : gapSize .blank 0 (lead ++ rest) = .error lead.length) :
    gapSize .blank 0 lead = .ok lead.length ∧
      ∃ more, rest = '/' :: '*' :: more ∧ ¬ ['*', '/'] <:+: more := by
  rcases unclosed_of_gapSize h with ⟨hstate, -⟩ | ⟨front, more, htext, hsize, hgap, hmore⟩
  · cases hstate
  · rw [Nat.zero_add] at hsize
    obtain ⟨rfl, rfl⟩ := List.append_inj htext hsize
    exact ⟨hgap, more, rfl, hmore⟩

/-- What stands in front of the place where a scan is stuck is a gap. -/
theorem Stuck.gapSize_lead {lead rest : Text} {cause : SyntaxCause} (h : Stuck lead rest cause) :
    gapSize .blank 0 lead = .ok lead.length := by
  cases h with
  | comment gap => exact (unclosed_comment gap).1
  | lexeme gap _ => exact gapSize_of_append gap (Nat.zero_add _).ge

/-- Where a scan is stuck, the reason can be read off the text. -/
theorem Stuck.refused {lead rest : Text} {cause : SyntaxCause} (h : Stuck lead rest cause) :
    Text.Refused rest cause.text := by
  cases h with
  | comment gap =>
    obtain ⟨-, more, rfl, hmore⟩ := unclosed_comment gap
    exact .comment hmore
  | @lexeme c rest cause gap refused =>
    rcases lexeme_error_cases refused with ⟨rfl, rfl, hstring⟩ | ⟨rfl, hword, hdigit, hquote, hsymbol⟩
    · exact .string (unclosed_of_stringTail hstring)
    · obtain ⟨-, -, hends⟩ := gap_of_gapSize gap
      rw [List.drop_left] at hends
      have hblank : Text.isBlank c = false := by
        by_contra hblank
        rw [endsGap_blank (Bool.not_eq_false _ ▸ hblank)] at hends
        cases hends
      unfold isWordStart at hword
      rw [Bool.or_eq_false_iff, beq_eq_false_iff_ne] at hword
      refine .character hblank ?_ ?_ (head_ne_of_find hsymbol)
      · rw [Char.isAlphanum, hword.1, hdigit]
        rfl
      · simp only [List.mem_cons, List.not_mem_nil, or_false, not_or]
        exact ⟨hword.2, hquote⟩

end Scan

/-! ## Whole sources -/

/-- Of the beginnings of a text only one ends at a position. -/
theorem Text.eq_of_endPosition {text first second : Text} (hfirst : first <+: text)
    (hsecond : second <+: text) (h : first.endPosition = second.endPosition) : first = second := by
  have hend : ∀ more, ∀ front : Text, (front ++ more).endPosition = front.endPosition → more = [] := by
    intro more front heq
    have hfront := congrArg Mark.position (Mark.advance_origin front)
    have hwhole := congrArg Mark.position (Mark.advance_origin (front ++ more))
    rw [Mark.advance_append] at hwhole
    rcases (Mark.origin.advance front).before_advance more with ⟨rfl, -⟩ | hbefore
    · rfl
    · rw [hwhole, hfront] at hbefore
      simp only [heq, Position.Before] at hbefore
      omega
  rcases List.prefix_or_prefix_of_prefix hfirst hsecond with ⟨more, rfl⟩ | ⟨more, rfl⟩
  · rw [hend more first h.symm, List.append_nil]
  · rw [hend more second h, List.append_nil]

/-- A source that cannot be cut is refused at the position where the first thing begins that is no
token: the text in front of it can be cut by itself, and the message says what stands there. -/
theorem TokenStream.ofSource_refused {source : Text} {error : SyntaxError}
    (h : TokenStream.ofSource source = .error error) :
    ∃ front rest, source = front ++ rest ∧ front.endPosition = error.position ∧
      (∀ other, other <+: source → Text.endPosition other = error.position → other = front) ∧
      (∃ stream, TokenStream.ofSource front = .ok stream) ∧ rest.Refused error.cause.text := by
  obtain ⟨tokens, lead, rest, cause, hcuts, hstuck, rfl⟩ := Scan.cuts_of_error h
  have hsource : source = tokens.flatMap Token.source ++ lead ++ rest := by
    rw [hcuts.source, List.append_assoc]
  have hposition : Text.endPosition (tokens.flatMap Token.source ++ lead) =
      (Mark.origin.advance (tokens.flatMap Token.source ++ lead)).position := by
    rw [Mark.advance_origin]
  refine ⟨_, rest, hsource, hposition, fun other hother heq => ?_, ?_, hstuck.refused⟩
  · exact Text.eq_of_endPosition hother ⟨rest, hsource.symm⟩ (heq.trans hposition.symm)
  · unfold TokenStream.ofSource
    rw [hcuts.keep.scanFrom_eq, Scan.scanFrom_end hstuck.gapSize_lead List.drop_length]
    exact ⟨_, rfl⟩

/-- A string whose last backslash has nothing to take along, behind a comment and a number with a
dot. -/
theorem TokenStream.ofSource_refused_backslash :
    TokenStream.ofSource "// é\n1.'a\\" = .error ⟨⟨2, 3⟩, .unclosedString⟩ ∧
      ∃ front rest : Text, "// é\n1.'a\\".toList = front ++ rest ∧ front.endPosition = ⟨2, 3⟩ ∧
        (∀ other : Text, other <+: "// é\n1.'a\\".toList → other.endPosition = ⟨2, 3⟩ →
          other = front) ∧
        (∃ stream, TokenStream.ofSource front = .ok stream) ∧
        rest.Refused "unterminated string literal" := by
  have hrefused : TokenStream.ofSource "// é\n1.'a\\" = .error ⟨⟨2, 3⟩, .unclosedString⟩ := by
    decide +kernel
  exact ⟨hrefused, TokenStream.ofSource_refused hrefused⟩

end ApexLayout
