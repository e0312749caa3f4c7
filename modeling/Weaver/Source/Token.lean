import Weaver.Source.Literal
import Weaver.Source.Fault
/-!
Tokens of the language.

A `>` is always a token of its own; shift operators are put together by the parser from tokens that
touch each other, which is why a token keeps the byte offset of its first character.
-/
set_option autoImplicit false

namespace Weaver.Source

/-- What a token is. -/
inductive TokenKind where
  | endOfFile
  | identifier
  | operator
  | literal (value : Literal)
deriving Repr, DecidableEq, Inhabited

/-- A token with its text and its place. -/
structure Token where
  kind : TokenKind
  text : String
  pos : Position
  offset : Nat
deriving Repr, DecidableEq, Inhabited

/-- The name of a kind of token in messages. -/
def TokenKind.name : TokenKind → String
  | endOfFile => "end of file"
  | identifier => "identifier"
  | operator => "operator"
  | literal l => match l with
    | .int _ => "int literal"
    | .long _ => "long literal"
    | .float _ => "float literal"
    | .double _ => "double literal"
    | .char _ => "char literal"
    | _ => "string literal"

/-- The reserved words. -/
def keywords : List String :=
  ["abstract", "assert", "boolean", "break", "byte", "case", "catch", "char", "class", "const",
   "continue", "default", "do", "double", "else", "enum", "extends", "final", "finally", "float",
   "for", "goto", "if", "implements", "import", "instanceof", "int", "interface", "long",
   "native", "new", "package", "private", "protected", "public", "return", "short", "static",
   "strictfp", "super", "switch", "synchronized", "this", "throw", "throws", "transient", "try",
   "void", "volatile", "while", "true", "false", "null"]

/-- A reserved word. -/
def isKeyword (s : String) : Bool :=
  keywords.contains s

namespace Token

/-- The end of a source text without tokens. -/
def atEnd : Token := ⟨.endOfFile, "", ⟨1, 1⟩, 0⟩

/-- The token as messages show it: operators and reserved words between quotes. -/
def shown (t : Token) : String :=
  match t.kind with
  | .operator => Text.quote t.text
  | .identifier => if isKeyword t.text then Text.quote t.text else "identifier " ++ t.text
  | k => k.name

/-- The value of a literal token. -/
def value? (t : Token) : Option Literal :=
  match t.kind with
  | .literal l => some l
  | _ => none

/-- The token is the end of the text. -/
def isEnd (t : Token) : Bool :=
  t.kind == .endOfFile

/-- The token is an operator. -/
def isOperator (t : Token) : Bool :=
  t.kind == .operator

/-- The token is a word, reserved or not. -/
def isWord (t : Token) : Bool :=
  t.kind == .identifier

/-- The token is the given operator or word. -/
def isText (t : Token) (s : String) : Bool :=
  (t.isOperator || t.isWord) && t.text == s

/-- The token is a name: a word that is not reserved. -/
def isName (t : Token) : Bool :=
  t.isWord && !isKeyword t.text

end Token

end Weaver.Source
