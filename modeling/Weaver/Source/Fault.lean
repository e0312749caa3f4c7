import Weaver.Source.Position
import Weaver.Text.Quoted
/-!
What can be wrong with a source text.

A fault is a cause with the values its message shows; `Fault.message` is the only place where the
wording stands.
-/
set_option autoImplicit false

namespace Weaver.Source

/-- The bases a number literal can be written in, by their names in messages. -/
inductive Radix where
  | decimal
  | hexadecimal
  | octal
  | binary
deriving Repr, DecidableEq, Inhabited

/-- The name of literals of a base. -/
def Radix.literalName : Radix → String
  | decimal => "decimal literal"
  | hexadecimal => "hexadecimal literal"
  | octal => "octal literal"
  | binary => "binary literal"

/-- What a number text was to be read as. -/
inductive NumberKind where
  | integer
  | unsigned
  | floating
deriving Repr, DecidableEq

/-- Why an escape sequence or the literal that holds it has no value. -/
inductive EscapeFault where
  | unterminated
  | unknown (c : Char)
  | shortCode
  | badCode (digits : List Text.Glyph)
deriving Repr, DecidableEq

/-- Why source text is not a sequence of tokens, or the tokens no program. -/
inductive Fault where
  | badEncoding
  | nulCharacter
  | literalNotTerminated
  | commentNotTerminated
  | badCharLiteral
  | radixPoint (r : Radix)
  | noDigits (r : Radix)
  | exponentMantissa (mark : Char) (needed : Radix)
  | exponentDigits
  | exponentMissing
  | badDigit (digit : Char) (r : Radix)
  | separator
  | twoDots
  | number (kind : NumberKind) (text : String) (outOfRange : Bool)
  | escape (cause : EscapeFault) (literal : String)
  | charLength (literal : String)
  | unexpected (token expected : String)
  | endInAnnotationType (name : String)
  | repeatedModifier (name : String)
  | assertion
  | bareTry
  | missingDimension
  | notAClass
  | tooDeep
deriving Repr, DecidableEq

namespace NumberKind

/-- The name of the conversion in messages. -/
def conversion : NumberKind → String
  | integer => "strconv.ParseInt"
  | unsigned => "strconv.ParseUint"
  | floating => "strconv.ParseFloat"

/-- The message of a failed conversion. -/
def message (k : NumberKind) (quoted : String) (outOfRange : Bool) : String :=
  k.conversion ++ ": parsing " ++ quoted ++ ": " ++
    if outOfRange then "value out of range" else "invalid syntax"

end NumberKind

/-- The wording of a fault in an escape sequence. -/
def EscapeFault.message (literal : String) : EscapeFault → String
  | unterminated => "unterminated escape in " ++ literal
  | unknown c => "invalid escape \\" ++ c.toString ++ " in " ++ literal
  | shortCode => "invalid unicode escape in " ++ literal
  | badCode digits =>
    "invalid unicode escape in " ++ literal ++ ": " ++
      NumberKind.message .unsigned (Text.quoteGlyphs digits) false

/-- The wording of a fault. -/
def Fault.message : Fault → String
  | badEncoding => "invalid UTF-8 encoding"
  | nulCharacter => "invalid character NUL"
  | literalNotTerminated => "literal not terminated"
  | commentNotTerminated => "comment not terminated"
  | badCharLiteral => "invalid char literal"
  | radixPoint r => "invalid radix point in " ++ r.literalName
  | noDigits r => r.literalName ++ " has no digits"
  | exponentMantissa mark needed =>
    Text.quoteChar mark ++ " exponent requires " ++
      (if needed == .hexadecimal then "hexadecimal" else "decimal") ++ " mantissa"
  | exponentDigits => "exponent has no digits"
  | exponentMissing => "hexadecimal mantissa requires a 'p' exponent"
  | badDigit d r => "invalid digit " ++ Text.quoteChar d ++ " in " ++ r.literalName
  | separator => "'_' must separate successive digits"
  | twoDots => "unexpected \"..\""
  | number kind text outOfRange => kind.message (Text.quote text) outOfRange
  | escape cause literal => cause.message literal
  | charLength literal => "invalid char literal " ++ literal
  | unexpected token expected => "syntax error: unexpected " ++ token ++ ", expecting " ++ expected
  | endInAnnotationType name =>
    "syntax error: unexpected end of file in annotation type " ++ name
  | repeatedModifier name => "repeated modifier " ++ name
  | assertion => "assert statements are not supported"
  | bareTry => "try without catch or finally"
  | missingDimension => "array dimension missing"
  | notAClass => "not a class"
  | tooDeep => "nesting too deep"

/-- A fault and the place where it was found. -/
structure ParseError where
  fault : Fault
  pos : Position
deriving Repr, DecidableEq

namespace ParseError

/-- What is wrong, without the place. -/
def detail (e : ParseError) : String :=
  e.fault.message

/-- The whole message. -/
def message (e : ParseError) : String :=
  "line " ++ toString e.pos.line ++ ", column " ++ toString e.pos.col ++ ": " ++ e.detail

end ParseError

end Weaver.Source
