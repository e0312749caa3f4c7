import Weaver.Text.Glyph
/-!
Places in YAML texts, and the characters there.

The scanner reads a text from one place to the next. It counts lines and columns on the way, and the
line breaks since the last character that is not blank, because a comment belongs to what stands
before it on the same line.
-/
set_option autoImplicit false

namespace Weaver.Yaml

/-- A place in a text. Lines, columns and characters are counted from zero. -/
structure Mark where
  index : Nat
  line : Nat
  col : Nat
deriving Repr, DecidableEq, Inhabited

/-- What is wrong with a document. -/
structure Fault where
  /-- The number of the line; zero if it is not said. -/
  line : Nat
  problem : String
deriving Repr, DecidableEq, Inhabited

namespace Fault

/-- A fault in the scan of what began at `start`, found at `at'`. The line of the beginning is said;
on the first line, the line where it was found; there, none. -/
def scan (start at' : Mark) (problem : String) : Fault :=
  ⟨if start.line != 0 then start.line + 1 else if at'.line != 0 then at'.line + 1 else 0, problem⟩

/-- A fault in the structure of what began at `start`, found at `at'`. The line is the one before
that of the beginning or, on the first line, of the place where it was found. -/
def structural (start at' : Mark) (problem : String) : Fault :=
  ⟨if start.line != 0 then start.line else at'.line, problem⟩

/-- A fault that has no place. -/
def general (problem : String) : Fault := ⟨0, problem⟩

/-- The wording of a fault. -/
def message (f : Fault) : String :=
  "yaml: " ++ (if f.line == 0 then "" else "line " ++ toString f.line ++ ": ") ++ f.problem

end Fault

/-! ## Characters -/

/-- Ends a line. -/
def isBreak (c : Char) : Bool :=
  c == '\n' || c == '\r' || c == '\u0085' || c == '\u2028' || c == '\u2029'

/-- A blank within a line. -/
def isBlank (c : Char) : Bool := c == ' ' || c == '\t'

/-- A character of a name: a letter or a digit of the first 128 characters, a dash or an
underscore. -/
def isWord (c : Char) : Bool := c.isAlphanum || c == '_' || c == '-'

/-- A character that a text can have. Control characters are not among them. -/
def isAllowed (c : Char) : Bool :=
  let n := c.toNat
  n == 0x09 || n == 0x0a || n == 0x0d || (0x20 ≤ n && n ≤ 0x7e) || n == 0x85 ||
    (0xa0 ≤ n && n ≤ 0xd7ff) || (0xe000 ≤ n && n ≤ 0xfffd) || 0x10000 ≤ n

/-- The text is at its end, at a blank or at the end of a line. -/
def atGap : List Char → Bool
  | [] => true
  | c :: _ => isBlank c || isBreak c

/-- The text is at its end or at the end of a line. -/
def atLineEnd : List Char → Bool
  | [] => true
  | c :: _ => isBreak c

/-- The value of a hexadecimal digit. -/
def hexValue? (c : Char) : Option Nat :=
  if c.isDigit then some (c.toNat - 48)
  else if 'a' ≤ c && c ≤ 'f' then some (c.toNat - 87)
  else if 'A' ≤ c && c ≤ 'F' then some (c.toNat - 55)
  else none

/-- The number that hexadecimal digits stand for. -/
def hexNumber? (cs : List Char) : Option Nat :=
  cs.foldl (fun n c => n.bind fun n => (hexValue? c).map fun d => n * 16 + d) (some 0)

/-- The characters that octets stand for; each octet that belongs to none is replaced. -/
def octetText (xs : List Nat) : List Char :=
  (Text.Glyph.decode (xs.map (UInt8.ofNat ·))).map Text.Glyph.shown

/-! ## Cursors -/

/-- Where the scanner is in the text. -/
structure Cursor where
  rest : List Char
  mark : Mark
  /-- The number of line breaks since the last character that is not blank. -/
  breaks : Nat
deriving Repr, DecidableEq, Inhabited

namespace Cursor

/-- The beginning of a text. -/
def of (text : List Char) : Cursor := ⟨text, ⟨0, 0, 0⟩, 0⟩

/-- The next character. -/
def look (c : Cursor) : Option Char := c.rest.head?

/-- The next character is some character. -/
def looking (c : Cursor) (x : Char) : Bool := c.rest.head? == some x

/-- The cursor after a character within a line. -/
def skip (c : Cursor) : Cursor :=
  match c.rest with
  | [] => c
  | x :: r =>
    ⟨r, ⟨c.mark.index + 1, c.mark.line, c.mark.col + 1⟩, if isBlank x then c.breaks else 0⟩

/-- The cursor after `n` characters within a line. -/
def skipMany : Nat → Cursor → Cursor
  | 0, c => c
  | n + 1, c => skipMany n c.skip

/-- The cursor after the end of a line. -/
def skipBreak (c : Cursor) : Cursor :=
  match c.rest with
  | '\r' :: '\n' :: r => ⟨r, ⟨c.mark.index + 2, c.mark.line + 1, 0⟩, c.breaks + 1⟩
  | _ :: r => ⟨r, ⟨c.mark.index + 1, c.mark.line + 1, 0⟩, c.breaks + 1⟩
  | [] => c

/-- What the line break here is read as. The separators of lines and of paragraphs stay what they
are, all others become the same. -/
def breakText (c : Cursor) : List Char :=
  match c.rest with
  | [] => []
  | x :: _ => if x == '\u2028' || x == '\u2029' then [x] else if isBreak x then ['\n'] else []

/-- A mark of a document stands here. -/
def atDocumentMark (c : Cursor) : Bool :=
  c.mark.col == 0 && (c.rest.take 3 == ['-', '-', '-'] || c.rest.take 3 == ['.', '.', '.']) &&
    atGap (c.rest.drop 3)

/-- The characters from here on that meet a condition. -/
def run (c : Cursor) (p : Char → Bool) : List Char := c.rest.takeWhile p

/-- The cursor after the characters that meet a condition. -/
def skipWhile (c : Cursor) (p : Char → Bool) : Cursor := c.skipMany (c.run p).length

/-- The cursor after the blanks here. -/
def skipBlanks (c : Cursor) : Cursor := c.skipWhile isBlank

/-- The cursor at the end of the line. -/
def toLineEnd (c : Cursor) : Cursor := c.skipWhile (!isBreak ·)

/-- The cursor after a comment that stands on this line, with nothing but blanks before it. Nothing
is skipped if the line has only begun. -/
def skipLineComment (c : Cursor) : Cursor :=
  let blanks := c.run isBlank
  if c.breaks == 0 && blanks.length < 512 && (c.skipMany blanks.length).looking '#' then
    c.toLineEnd
  else c

/-- The cursor after blanks and line breaks, at most `n` of them. -/
def skipSpace : Nat → Cursor → Cursor
  | 0, c => c
  | n + 1, c =>
    match c.look with
    | some x =>
      if isBreak x then skipSpace n c.skipBreak else if isBlank x then skipSpace n c.skip else c
    | none => c

end Cursor

end Weaver.Yaml
