import ApexLayout.Text.Position

/-!
Tokens and token streams.

A token keeps the blanks and comments in front of it, so a stream holds the whole source; two
tokens touch when the second has nothing in front of it.
-/

namespace ApexLayout

/-- The classes of tokens. Keywords are words: only the grammar tells them apart. -/
inductive TokenKind
  | word
  | number
  | string
  | symbol
deriving DecidableEq

/-- A token, with what stands between it and the token before. -/
structure Token where
  kind : TokenKind
  text : Text
  /-- The blanks and comments in front of the token. -/
  lead : Text
  /-- The place of the token's first character. -/
  start : Mark
deriving DecidableEq

namespace Token

/-- The place right behind the token. -/
def finish (token : Token) : Mark := token.start.advance token.text

/-- Whether the token is the given symbol. -/
def isSymbol (token : Token) (symbol : Text) : Bool :=
  token.kind == .symbol && token.text == symbol

/-- Whether the token is the given word, in any case of its letters. -/
def isWord (token : Token) (word : Text) : Bool :=
  token.kind == .word && Text.sameWord token.text word

/-- Whether the token is the given symbol and touches the token before it. -/
def touches (token : Token) (symbol : Text) : Bool :=
  token.isSymbol symbol && token.lead.isEmpty

/-- The token's part of the source: what stands in front of it, and its text. -/
def source (token : Token) : Text := token.lead ++ token.text

end Token

/-- What is left of a source: its tokens, what stands behind the last of them, and its end. -/
structure TokenStream where
  tokens : List Token
  /-- The blanks and comments behind the last token. -/
  trailing : Text
  /-- The place right behind the last character. -/
  finish : Mark
  /-- The number of tokens, so that it need not be counted again. -/
  remaining : Nat
  remaining_eq : remaining = tokens.length
deriving DecidableEq

namespace TokenStream

/-- The stream without tokens. -/
def empty (trailing : Text) (finish : Mark) : TokenStream where
  tokens := []
  trailing := trailing
  finish := finish
  remaining := 0
  remaining_eq := rfl

/-- The stream with one more token in front. -/
def push (stream : TokenStream) (token : Token) : TokenStream where
  tokens := token :: stream.tokens
  trailing := stream.trailing
  finish := stream.finish
  remaining := stream.remaining + 1
  remaining_eq := congrArg (· + 1) stream.remaining_eq

/-- The stream without its first tokens. -/
def skip (stream : TokenStream) (count : Nat) : TokenStream where
  tokens := stream.tokens.drop count
  trailing := stream.trailing
  finish := stream.finish
  remaining := stream.remaining - count
  remaining_eq := by rw [List.length_drop, stream.remaining_eq]

/-- The place of the next token, or the end. -/
def position (stream : TokenStream) : Position :=
  match stream.tokens with
  | [] => stream.finish.position
  | token :: _ => token.start.position

/-- The text of the next token, if there is one. -/
def next? (stream : TokenStream) : Option Text := stream.tokens.head?.map Token.text

/-- Whether the token at an index passes a test; there is none behind the last token. -/
def holds (stream : TokenStream) (index : Nat) (test : Token → Bool) : Bool :=
  (stream.tokens[index]?).any test

/-- Whether the token at an index is the given symbol. -/
def symbolAt (stream : TokenStream) (index : Nat) (symbol : Text) : Bool :=
  stream.holds index (·.isSymbol symbol)

/-- Whether the token at an index is the given word, in any case of its letters. -/
def wordAt (stream : TokenStream) (index : Nat) (word : Text) : Bool :=
  stream.holds index (·.isWord word)

/-- The source that the stream came from. -/
def source (stream : TokenStream) : Text :=
  (stream.tokens.map Token.source).flatten ++ stream.trailing

/-- Streams with the same tokens, trailing text and end are the same. -/
@[ext] theorem ext {first second : TokenStream} (tokens : first.tokens = second.tokens)
    (trailing : first.trailing = second.trailing) (finish : first.finish = second.finish) :
    first = second := by
  have remaining : first.remaining = second.remaining := by
    rw [first.remaining_eq, second.remaining_eq, tokens]
  cases first; cases second
  simp_all

/-- Nothing is found behind the last token. -/
theorem lt_of_holds {stream : TokenStream} {index : Nat} {test : Token → Bool}
    (h : stream.holds index test = true) : index < stream.remaining := by
  rw [stream.remaining_eq]
  refine Nat.lt_of_not_le fun hout => ?_
  rw [holds, List.getElem?_eq_none hout] at h
  cases h

@[simp] theorem remaining_skip (stream : TokenStream) (count : Nat) :
    (stream.skip count).remaining = stream.remaining - count := rfl

@[simp] theorem skip_zero (stream : TokenStream) : stream.skip 0 = stream := rfl

@[simp] theorem skip_skip (stream : TokenStream) (first second : Nat) :
    (stream.skip first).skip second = stream.skip (first + second) := by
  ext1
  · simp [skip]
  · rfl
  · rfl

end TokenStream

end ApexLayout
