import Weaver.Source.Fault
/-!
The reading head over a source text.

The head stands on one character and has read everything up to it. It counts lines, columns and
bytes, remembers where the token it is reading began, and keeps the first fault it has met: a stray
byte or a NUL is met when the head moves onto it, and is placed at the token begun last.
-/
set_option autoImplicit false

namespace Weaver.Source

open Weaver.Text (Glyph)

/-- The state of the reading head. -/
structure Scanner where
  /-- The glyphs after the one under the head. -/
  rest : List Glyph
  /-- The character under the head; `none` at the end of the text. -/
  look : Option Char
  /-- The bytes of the character under the head; zero at the end of the text. -/
  width : Nat
  /-- The bytes read, those of the character under the head included. -/
  offset : Nat
  /-- The characters before the head. -/
  index : Nat
  line : Nat
  /-- The column of the character under the head; zero if that character ends its line. -/
  column : Nat
  /-- The length of the line that ended last. -/
  lastLine : Nat
  /-- Where the token being read began. -/
  mark : Position
  /-- The first fault. -/
  fault : Option ParseError

namespace Scanner

/-- Records a fault at the token being read, unless one was met before. -/
def fail (s : Scanner) (f : Fault) : Scanner :=
  match s.fault with
  | some _ => s
  | none => { s with fault := some ⟨f, s.mark⟩ }

/-- Moves the head one character on. -/
def read (s : Scanner) : Scanner :=
  let index := if s.look.isSome then s.index + 1 else s.index
  match s.rest with
  | [] =>
    { s with look := none, width := 0, index,
             column := if 0 < s.width then s.column + 1 else s.column }
  | .stray b :: rest =>
    fail { s with rest, look := some (Glyph.stray b).shown, width := 1, offset := s.offset + 1,
                  index, column := s.column + 1 } .badEncoding
  | .char c :: rest =>
    let s := { s with rest, look := some c, width := c.utf8Size, offset := s.offset + c.utf8Size,
                      index, column := s.column + 1 }
    if c == '\x00' then s.fail .nulCharacter
    else if c == '\n' then { s with line := s.line + 1, lastLine := s.column, column := 0 }
    else s

/-- The head on the first character of a text. A byte order mark at the very start is passed over
and takes a column. -/
def start (text : List Glyph) : Scanner :=
  let s := read ⟨text, none, 0, 0, 0, 1, 0, 0, Position.none, none⟩
  if s.look == some '\uFEFF' then s.read else s

/-- The character under the head satisfies a condition. -/
def looking (s : Scanner) (p : Char → Bool) : Bool :=
  s.look.any p

/-- Reads on while the characters satisfy a condition, as far as the list of glyphs reaches. -/
def spanFrom (p : Char → Bool) : List Glyph → Scanner → List Char × Scanner
  | fuel, s =>
    match s.look with
    | none => ([], s)
    | some c =>
      if p c then
        match fuel with
        | [] => ([c], s.read)
        | _ :: fuel =>
          let (cs, t) := spanFrom p fuel s.read
          (c :: cs, t)
      else ([], s)

/-- Reads the longest run of characters that satisfy a condition. -/
def span (s : Scanner) (p : Char → Bool) : List Char × Scanner :=
  spanFrom p s.rest s

/-- Begins a token under the head. -/
def begin (s : Scanner) : Scanner :=
  { s with mark := if 0 < s.column then ⟨s.line, s.column⟩ else ⟨s.line - 1, s.lastLine⟩ }

/-- Begins the next search for a token: no line is known, the column is kept. -/
def between (s : Scanner) : Scanner :=
  { s with mark := ⟨0, s.mark.col⟩ }

/-- Passes over the character under the head, outside of any token. -/
def skip (s : Scanner) : Scanner :=
  s.between.read

/-- The byte offset of the character under the head. -/
def here (s : Scanner) : Nat :=
  s.offset - s.width

/-- The place of the head. -/
def position (s : Scanner) : Position :=
  if 0 < s.column then ⟨s.line, s.column⟩
  else if 0 < s.lastLine then ⟨s.line - 1, s.lastLine⟩
  else ⟨1, 1⟩

/-- The characters that were passed between two places of the head. -/
def passed (s t : Scanner) : List Char :=
  (s.look.toList ++ (s.rest.take (t.index - s.index)).map Glyph.shown).take (t.index - s.index)

end Scanner

end Weaver.Source
