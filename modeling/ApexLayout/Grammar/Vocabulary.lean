import ApexLayout.Token.Basic

/-!
The words of the language: which are reserved, and which stand in front of declarations and
database operations. All of them are recognised in any case of their letters.
-/

namespace ApexLayout

namespace Vocabulary

/-- The words that are never identifiers. -/
def reserved : List Text :=
  ["break", "catch", "class", "continue", "do", "else", "enum", "extends", "false", "finally",
    "for", "if", "implements", "instanceof", "interface", "new", "null", "return", "super", "this",
    "throw", "true", "try", "void", "while"].map String.toList

/-- The keywords that are modifiers on their own. -/
def modifiers : List Text :=
  ["public", "private", "protected", "global", "static", "final", "abstract", "virtual",
    "override", "transient", "testmethod", "webservice"].map String.toList

/-- The words that make a modifier together with `sharing`. -/
def sharingModes : List Text := ["with", "without", "inherited"].map String.toList

/-- The keywords that begin a type declaration. -/
def declarations : List Text := ["class", "interface", "enum"].map String.toList

/-- The keywords of database operations. -/
def dmlOperations : List Text :=
  ["insert", "update", "upsert", "delete", "undelete", "merge"].map String.toList

/-- The keywords that are literals. -/
def literals : List Text := ["true", "false", "null"].map String.toList

end Vocabulary

namespace Token

/-- Whether the token is one of the given words. -/
def isWordIn (token : Token) (words : List Text) : Bool := words.any token.isWord

/-- Whether the token is one of the given symbols. -/
def isSymbolIn (token : Token) (symbols : List Text) : Bool := symbols.any token.isSymbol

/-- Whether the token is an identifier: a word that is not reserved. -/
def isIdentifier (token : Token) : Bool :=
  token.kind == .word && !token.isWordIn Vocabulary.reserved

end Token

namespace TokenStream

/-- Whether the token at an index is an identifier. -/
def identifierAt (stream : TokenStream) (index : Nat) : Bool :=
  stream.holds index Token.isIdentifier

/-- Whether the token at an index is one of the given words. -/
def wordInAt (stream : TokenStream) (index : Nat) (words : List Text) : Bool :=
  stream.holds index (·.isWordIn words)

/-- Whether the token at an index is one of the given symbols. -/
def symbolInAt (stream : TokenStream) (index : Nat) (symbols : List Text) : Bool :=
  stream.holds index (·.isSymbolIn symbols)

end TokenStream

end ApexLayout
