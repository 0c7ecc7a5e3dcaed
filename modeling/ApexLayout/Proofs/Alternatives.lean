import ApexLayout.Grammar.Expression
import ApexLayout.Proofs.Replay.Basic

/-!
The alternatives of the rules for operands.

A rule for an operand looks at the tokens ahead and goes one of several ways. Which way a run went is
said once for each rule: the tokens that it saw, and the runs of the rules inside. A claim about
operands is shown for each way, without opening the rule again.
-/

namespace ApexLayout

namespace Grammar

variable {inner : Grammar Expression} {source rest : TokenStream}

/-! ## Primaries -/

/-- The ways to read an expression that begins with a word. -/
inductive WordAlternative (inner : Grammar Expression) (source : TokenStream) :
    Expression → TokenStream → Prop
  | literal {text : Text} {rest : TokenStream}
      (ahead : source.wordInAt 0 Vocabulary.literals = true)
      (taken : takeText source = .ok text rest) :
      WordAlternative inner source (.primary (.literal text)) rest
  | this {value : Expression} {rest : TokenStream} (ahead : source.wordAt 0 "this" = true)
      (read : selfReference inner .this source = .ok value rest) :
      WordAlternative inner source value rest
  | super {value : Expression} {rest : TokenStream} (ahead : source.wordAt 0 "super" = true)
      (read : selfReference inner .super source = .ok value rest) :
      WordAlternative inner source value rest
  | creation {value : Expression} {rest : TokenStream}
      (taken : takeWord "new" source = .ok true (source.skip 1))
      (read : creation inner (source.skip 1) = .ok value rest) :
      WordAlternative inner source value rest
  | named {value : Expression} {rest : TokenStream} (ahead : source.identifierAt 0 = true)
      (read : named inner source = .ok value rest) : WordAlternative inner source value rest

theorem wordPrimary_cases {value : Expression} (h : wordPrimary inner source = .ok value rest) :
    WordAlternative inner source value rest := by
  unfold wordPrimary at h
  rw [Reader.bind_of_ok (Reader.get_run source)] at h
  split at h
  case isTrue hliteral =>
    obtain ⟨text, last, htext, h⟩ := Reader.bind_eq_ok.1 h
    cases h
    exact .literal hliteral htext
  case isFalse =>
  split at h
  case isTrue hthis => exact .this hthis h
  case isFalse =>
  split at h
  case isTrue hsuper => exact .super hsuper h
  case isFalse =>
  obtain ⟨created, middle, hcreated, h⟩ := Reader.bind_eq_ok.1 h
  obtain ⟨hnew, rfl⟩ := takeWord_eq_ok.1 hcreated
  cases created with
  | true => exact .creation hcreated h
  | false =>
    simp only [Bool.false_eq_true, if_false] at h
    split at h
    case isTrue hname => exact .named hname h
    case isFalse => cases h

/-- The ways to read an expression without operators and steps. -/
inductive PrimaryAlternative (inner : Grammar Expression) (source : TokenStream) :
    Expression → TokenStream → Prop
  | literal {text : Text} {rest : TokenStream}
      (ahead : source.holds 0 (fun token => token.kind == .number || token.kind == .string) = true)
      (taken : takeText source = .ok text rest) :
      PrimaryAlternative inner source (.primary (.literal text)) rest
  | word {value : Expression} {rest : TokenStream} (ahead : source.holds 0 (·.kind == .word) = true)
      (read : WordAlternative inner source value rest) : PrimaryAlternative inner source value rest
  | parenthesized {value : Expression} {middle rest : TokenStream}
      (taken : takeSymbol "(" source = .ok true (source.skip 1))
      (read : inner (source.skip 1) = .ok value middle) (closed : symbol ")" middle = .ok () rest) :
      PrimaryAlternative inner source (.parenthesized value) rest
  | query {value : Expression} {rest : TokenStream} (ahead : source.symbolAt 0 "[" = true)
      (read : query source = .ok value rest) : PrimaryAlternative inner source value rest

theorem primary_cases {value : Expression} (h : primary inner source = .ok value rest) :
    PrimaryAlternative inner source value rest := by
  unfold primary at h
  rw [Reader.bind_of_ok (Reader.get_run source)] at h
  split at h
  case isTrue hliteral =>
    obtain ⟨text, last, htext, h⟩ := Reader.bind_eq_ok.1 h
    cases h
    exact .literal hliteral htext
  case isFalse =>
  split at h
  case isTrue hword => exact .word hword (wordPrimary_cases h)
  case isFalse =>
  obtain ⟨opened, middle, hopened, h⟩ := Reader.bind_eq_ok.1 h
  obtain ⟨hparenthesis, rfl⟩ := takeSymbol_eq_ok.1 hopened
  cases opened with
  | true =>
    obtain ⟨value, second, hvalue, h⟩ := Reader.bind_eq_ok.1 h
    obtain ⟨_, last, hclosed, h⟩ := Reader.bind_eq_ok.1 h
    cases h
    exact .parenthesized hopened hvalue hclosed
  | false =>
    simp only [Bool.false_eq_true, if_false] at h
    split at h
    case isTrue hquery => exact .query hquery h
    case isFalse => cases h

/-! ## Steps behind a primary -/

/-- The ways to go on behind an operand: with a link, an index or an operator, or not at all. -/
inductive StepAlternative (inner : Grammar Expression) (source : TokenStream) :
    Option Step → TokenStream → Prop
  | link {navigation : Navigation} {value : Link} {rest : TokenStream}
      (taken : takeSymbol navigation.text source = .ok true (source.skip 1))
      (read : link inner navigation (source.skip 1) = .ok value rest) :
      StepAlternative inner source (some (.link value)) rest
  | index {value : Expression} {middle rest : TokenStream}
      (taken : takeSymbol "[" source = .ok true (source.skip 1))
      (read : inner (source.skip 1) = .ok value middle) (closed : symbol "]" middle = .ok () rest) :
      StepAlternative inner source (some (.index value)) rest
  | operator {text : Text} {rest : TokenStream}
      (ahead : source.symbolInAt 0 Operators.trailing = true)
      (taken : takeText source = .ok text rest) :
      StepAlternative inner source (some (.operator text)) rest
  | none : StepAlternative inner source none source

theorem step_cases {value : Option Step} (h : step inner source = .ok value rest) :
    StepAlternative inner source value rest := by
  obtain ⟨dot, first, hdot, h⟩ := Reader.bind_eq_ok.1 h
  obtain ⟨-, rfl⟩ := takeSymbol_eq_ok.1 hdot
  cases dot with
  | true =>
    obtain ⟨found, last, hlink, h⟩ := Reader.bind_eq_ok.1 h
    cases h
    exact .link (show takeSymbol Navigation.dot.text source = _ from hdot) hlink
  | false =>
  simp only [Bool.false_eq_true, if_false] at h
  obtain ⟨safe, second, hsafe, h⟩ := Reader.bind_eq_ok.1 h
  obtain ⟨-, rfl⟩ := takeSymbol_eq_ok.1 hsafe
  cases safe with
  | true =>
    obtain ⟨found, last, hlink, h⟩ := Reader.bind_eq_ok.1 h
    cases h
    exact .link (show takeSymbol Navigation.safeDot.text source = _ from hsafe) hlink
  | false =>
  simp only [Bool.false_eq_true, if_false] at h
  obtain ⟨opened, third, hopened, h⟩ := Reader.bind_eq_ok.1 h
  obtain ⟨-, rfl⟩ := takeSymbol_eq_ok.1 hopened
  cases opened with
  | true =>
    obtain ⟨index, fourth, hindex, h⟩ := Reader.bind_eq_ok.1 h
    obtain ⟨_, last, hclosed, h⟩ := Reader.bind_eq_ok.1 h
    cases h
    exact .index hopened hindex hclosed
  | false =>
  simp only [Bool.false_eq_true, if_false] at h
  obtain ⟨trailing, fourth, htrailing, h⟩ := Reader.bind_eq_ok.1 h
  obtain ⟨hknown, rfl⟩ := look_eq_ok.1 htrailing
  cases trailing with
  | true =>
    obtain ⟨text, last, htext, h⟩ := Reader.bind_eq_ok.1 h
    cases h
    exact .operator hknown htext
  | false =>
    cases h
    exact .none

end Grammar

end ApexLayout
