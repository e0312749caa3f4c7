import Weaver.Source.Scanner
import Weaver.Source.Escape
import Weaver.Source.Token
import Weaver.Text.Letter
/-!
From text to tokens.

White space and comments stand between tokens. Words, numbers, character and string literals are
read whole; every other character is an operator, possibly extended by the characters after it. The
first fault ends the reading. A quote that is the last character of the text opens a literal of
which nothing can be taken off: that is the one text the reader breaks on.
-/
set_option autoImplicit false

namespace Weaver.Source

open Weaver.Text (Glyph isLetter)

/-- Why a text gives no tokens. -/
inductive LexFailure where
  | malformed (e : ParseError)
  | broken
deriving Repr, DecidableEq

namespace Lexer

/-- White space between tokens. -/
def isSpace (c : Char) : Bool :=
  c == ' ' || c == '\t' || c == '\n' || c == '\r'

/-- A character that begins a word. -/
def startsWord (c : Char) : Bool :=
  c == '$' || c == '_' || isLetter c

/-- A character that continues a word. -/
def continuesWord (c : Char) : Bool :=
  startsWord c || Text.isDigit c

/-- A decimal digit of a number literal. -/
def isDecimal (c : Char) : Bool :=
  '0' ≤ c && c ≤ '9'

/-- A hexadecimal digit. -/
def isHex (c : Char) : Bool :=
  Number.digitValue c < 16

/-! ## Comments -/

/-- Reads to the end of a comment that a star and a slash close. The head stands after the opening
star, or later. -/
def blockComment : List Glyph → Scanner → Scanner
  | fuel, s =>
    match s.look with
    | none => s.fail .commentNotTerminated
    | some c =>
      let next := s.read
      if c == '*' && next.look == some '/' then next.read
      else match fuel with
        | [] => next.fail .commentNotTerminated
        | _ :: fuel => blockComment fuel next

/-- Reads a comment, the head standing on its second character. -/
def comment (s : Scanner) : Scanner :=
  if s.look == some '/' then (s.read.span (· != '\n')).2
  else
    let s := s.read
    blockComment s.rest s

/-- Passes over white space and comments and begins a token. -/
def toToken : List Glyph → Scanner → Scanner
  | fuel, s =>
    let s := (s.span isSpace).2.begin
    if s.look == some '/' then
      let next := s.read
      if next.look == some '/' || next.look == some '*' then
        match fuel with
        | [] => comment next
        | _ :: fuel => toToken fuel (comment next)
      else s
    else s

/-! ## Character and string literals -/

/-- Reads at most `n` digits of a base. -/
def someDigits (base : Nat) : Nat → Scanner → Scanner
  | 0, s => s
  | n + 1, s => if s.looking (Number.digitValue · < base) then someDigits base n s.read else s

/-- Reads an escape, the head standing after the backslash. An unknown escape is left to be read
as characters of their own. -/
def escapeIn (quote : Char) (s : Scanner) : Scanner :=
  match s.look with
  | none => s
  | some c =>
    if c == quote || ['a', 'b', 'f', 'n', 'r', 't', 'v', '\\'].contains c then s.read
    else if '0' ≤ c && c ≤ '7' then someDigits 8 3 s
    else if c == 'x' then someDigits 16 2 s.read
    else if c == 'u' then someDigits 16 4 s.read
    else if c == 'U' then someDigits 16 8 s.read
    else s

/-- Reads up to the closing quote and counts the characters. -/
def literalBody (quote : Char) : List Glyph → Scanner → Nat → Nat × Scanner
  | fuel, s, n =>
    match s.look with
    | none => (n, s.fail .literalNotTerminated)
    | some c =>
      if c == quote then (n, s)
      else if c == '\n' then (n, s.fail .literalNotTerminated)
      else
        let next := if c == '\\' then escapeIn quote s.read else s.read
        match fuel with
        | [] => (n + 1, next.fail .literalNotTerminated)
        | _ :: fuel => literalBody quote fuel next (n + 1)

/-- Reads a quoted literal, the head standing on the opening quote. -/
def quotedLiteral (quote : Char) (s : Scanner) : Scanner :=
  let s := s.read
  let (n, t) := literalBody quote s.rest s 0
  let t := if quote == '\'' && n != 1 then t.fail .badCharLiteral else t
  t.read

/-! ## Numbers -/

/-- How the digits of a number begin. -/
inductive Lead where
  | plain
  | zero
  | hex
  | octal
  | binary
deriving DecidableEq

/-- The base named in messages. -/
def Lead.radix : Lead → Radix
  | plain => .decimal
  | zero => .octal
  | hex => .hexadecimal
  | octal => .octal
  | binary => .binary

/-- Letters compared without case. -/
def isMark (mark c : Char) : Bool :=
  c == mark || c == mark.toUpper

/-- A digit as digits of the given lead are read: all decimal digits in bases up to ten. -/
def isDigitOf (l : Lead) (c : Char) : Bool :=
  c == '_' || if l == .hex then isHex c else isDecimal c

/-- The number of digits in the base of a lead. -/
def Lead.base : Lead → Nat
  | plain => 10
  | zero => 8
  | hex => 16
  | octal => 8
  | binary => 2

/-- The first digit that is too large for the base. -/
def firstBad (l : Lead) (cs : List Char) : Option Char :=
  cs.find? fun c => c != '_' && l.base ≤ Number.digitValue c

/-- There is a digit among the characters. -/
def anyDigit (cs : List Char) : Bool :=
  cs.any (· != '_')

/-- Every underscore stands between digits; the base letter counts as one. The state is the kind
of the last character: a digit, an underscore or another one. -/
def separated (hex : Bool) : Char → List Char → Bool
  | last, [] => last != '_'
  | last, c :: cs =>
    if c == '_' then last == '0' && separated hex '_' cs
    else if isDecimal c || (hex && isHex c) then separated hex '0' cs
    else last != '_' && separated hex '.' cs

/-- The underscores of a number literal separate digits. -/
def wellSeparated (cs : List Char) : Bool :=
  match cs with
  | '0' :: c :: rest =>
    if isMark 'x' c then separated true '0' rest
    else if isMark 'o' c || isMark 'b' c then separated false '0' rest
    else separated false '.' cs
  | _ => separated false '.' cs

/-- Reads the base letter of a number that begins with zero. -/
def leadOf (s : Scanner) : Lead × Scanner :=
  if s.look == some '0' then
    let s := s.read
    if s.looking (isMark 'x') then (.hex, s.read)
    else if s.looking (isMark 'o') then (.octal, s.read)
    else if s.looking (isMark 'b') then (.binary, s.read)
    else (.zero, s)
  else (.plain, s)

/-- Reads the exponent of a number, if there is one. -/
def exponent (l : Lead) (isFloat : Bool) (s : Scanner) : Bool × Scanner :=
  match s.look with
  | some c =>
    if isMark 'e' c || isMark 'p' c then
      let s := if isMark 'e' c && l != .plain && l != .zero then
          s.fail (.exponentMantissa c .decimal)
        else if isMark 'p' c && l != .hex then s.fail (.exponentMantissa c .hexadecimal)
        else s
      let s := s.read
      let s := if s.looking (fun c => c == '+' || c == '-') then s.read else s
      let (ds, s) := s.span fun c => isDecimal c || c == '_'
      (true, if anyDigit ds then s else s.fail .exponentDigits)
    else (isFloat, if l == .hex && isFloat then s.fail .exponentMissing else s)
  | none => (isFloat, if l == .hex && isFloat then s.fail .exponentMissing else s)

/-- Reads a number. `afterDot` says that a leading point has been read, so that the head stands in
the fraction; `from` is where the number began. The result says whether it is a floating point
number. -/
def number (start : Scanner) (afterDot : Bool) (s : Scanner) : Bool × Scanner :=
  let (l, s) := if afterDot then (.plain, s) else leadOf s
  let (whole, s) := if afterDot then ([], s) else s.span (isDigitOf l)
  let point := afterDot || s.look == some '.'
  let s := if point && !afterDot then s.read else s
  let s := if point && (l == .octal || l == .binary) then s.fail (.radixPoint l.radix) else s
  let (fraction, s) := if point then s.span (isDigitOf l) else ([], s)
  let s := if l == .zero || anyDigit (whole ++ fraction) then s else s.fail (.noDigits l.radix)
  let (isFloat, s) := exponent l point s
  let s := match firstBad l (whole ++ fraction) with
    | some d => if isFloat then s else s.fail (.badDigit d l.radix)
    | none => s
  (isFloat, if wellSeparated (start.passed s) then s else s.fail .separator)

/-! ## Tokens -/

/-- The characters that extend an operator to a longer one. -/
def extensions : List (String × List Char) :=
  [("=", ['=']), ("!", ['=']), ("<", ['<', '=']), ("<<", ['=']), ("+", ['+', '=']),
   ("-", ['-', '=']), ("*", ['=']), ("/", ['=']), ("%", ['=']), ("&", ['&', '=']),
   ("|", ['|', '=']), ("^", ['=']), (".", ['.']), ("..", ['.'])]

/-- Extends an operator by the characters under the head; no operator has more than three. -/
def extend : Nat → String → Scanner → String × Scanner
  | 0, op, s => (op, s)
  | n + 1, op, s =>
    match extensions.lookup op, s.look with
    | some cs, some c => if cs.contains c then extend n (op.push c) s.skip else (op, s)
    | _, _ => (op, s)

/-- The result of reading a token: the token and the head behind it. -/
abbrev Step := Except LexFailure (Token × Scanner)

/-- A token that began at `start`. -/
def token (start : Scanner) (kind : TokenKind) (text : String) : Token :=
  ⟨kind, text, start.mark, start.here⟩

/-- Records a fault at a token, unless one was met before. -/
def failAt (start s : Scanner) (f : Fault) : Scanner :=
  match s.fault with
  | some _ => s
  | none => { s with fault := some ⟨f, start.mark⟩ }

/-- A floating point literal with the text read, and its suffix under the head. -/
def floatToken (start : Scanner) (text : String) (s : Scanner) : Token × Scanner :=
  let single := s.looking (isMark 'f')
  let s := if single || s.looking (isMark 'd') then s.skip else s
  match Number.readUnsigned .double false text.toList with
  | .ok v =>
    let l : Literal := if single then .float (v.convert .single) else .double v
    (token start (.literal l) text, s)
  | .error e =>
    (token start (.literal .null) text,
     failAt start s (.number .floating text (e == .outOfRange)))

/-- An integer literal with the text read, and its suffix under the head. -/
def integerToken (start : Scanner) (text : String) (s : Scanner) : Token × Scanner :=
  let long := s.looking (isMark 'l')
  let s := if long then s.skip else s
  match Number.readInteger text with
  | .ok v => (token start (.literal (if long then .long v else .int v)) text, s)
  | .error e =>
    (token start (.literal .null) text,
     failAt start s (.number .integer text (e == .outOfRange)))

/-- A number that began at `start`. -/
def numberToken (start : Scanner) (afterDot : Bool) (s : Scanner) : Token × Scanner :=
  let (isFloat, s) := number start afterDot s
  let text := String.ofList (start.passed s)
  if isFloat || s.looking (fun c => isMark 'f' c || isMark 'd' c) then floatToken start text s
  else integerToken start text s

/-- A character or string literal that began at `start`. A literal that consists of its opening
quote alone cannot be taken apart. -/
def quotedToken (start : Scanner) (quote : Char) : Step :=
  let s := quotedLiteral quote start
  let cs := start.passed s
  if cs.length ≤ 1 then .error .broken
  else
    let text := String.ofList cs
    match unescape (cs.drop 1).dropLast with
    | .error e => .ok (token start (.literal .null) text, failAt start s (.escape e text))
    | .ok v =>
      if quote == '"' then .ok (token start (.literal (.text (String.ofList v))) text, s)
      else match v with
        | [c] => .ok (token start (.literal (.char c.toNat)) text, s)
        | _ => .ok (token start (.literal (.char 0)) text, failAt start s (.charLength text))

/-- An operator that begins with the given character; the head has passed it. -/
def operatorToken (start : Scanner) (c : Char) (s : Scanner) : Token × Scanner :=
  let (op, s) := extend 2 c.toString s
  let t := token start .operator op
  (t, if op == ".." then failAt start s .twoDots else s)

/-- Reads one token. -/
def next (s : Scanner) : Step :=
  let s := toToken s.rest s.between
  match s.look with
  | none => .ok (⟨.endOfFile, "", s.position, s.here⟩, s)
  | some c =>
    if startsWord c then
      let (cs, t) := s.span continuesWord
      .ok (token s .identifier (String.ofList cs), t)
    else if isDecimal c then .ok (numberToken s false s)
    else if c == '"' || c == '\'' then quotedToken s c
    else
      let t := s.read
      if c == '.' && t.looking isDecimal then .ok (numberToken s true t)
      else .ok (operatorToken s c t)

/-- Reads tokens to the end of the text; the fuel bounds their number. -/
def all : Nat → Scanner → Except LexFailure (List Token)
  | 0, _ => .ok []
  | fuel + 1, s =>
    match next s with
    | .error e => .error e
    | .ok (t, s) =>
      match s.fault with
      | some e => .error (.malformed e)
      | none => if t.isEnd then .ok [t] else (all fuel s).map (t :: ·)

end Lexer

/-- The tokens of a text, the last of them being its end. -/
def tokens (text : List Glyph) : Except LexFailure (List Token) :=
  Lexer.all (text.length + 2) (Scanner.start text)

end Weaver.Source
