import Weaver.Yaml.Cursor
/-!
Tokens of YAML documents: anchors, aliases and tags of nodes, and the directives before a document.

A tag is a handle between exclamation marks with a suffix, a suffix after one exclamation mark, or
it is written out in angle brackets. Directives say what handles stand for.
-/
set_option autoImplicit false

namespace Weaver.Yaml

/-! ## Tokens -/

/-- What a token is. -/
inductive TokenKind where
  | streamStart
  | streamEnd
  /-- Says which version of the format a document has. -/
  | versionDirective (major minor : Nat)
  /-- Says what a handle stands for at the beginning of tags. -/
  | tagDirective (handle lead : String)
  | documentStart
  | documentEnd
  | blockSequenceStart
  | blockMappingStart
  | blockEnd
  | flowSequenceStart
  | flowSequenceEnd
  | flowMappingStart
  | flowMappingEnd
  | blockEntry
  | flowEntry
  | key
  | value
  /-- The name of a node that stands elsewhere. -/
  | named (name : String)
  /-- A name for the node that follows. -/
  | anchor (name : String)
  /-- A tag for the node that follows; without a handle it is written out. -/
  | tag (handle suffix : String)
  /-- A scalar; a plain one stands without quotes and is no block. -/
  | scalar (text : String) (plain : Bool)
deriving Repr, DecidableEq, Inhabited

/-- A token and where it starts. -/
structure Token where
  kind : TokenKind
  mark : Mark
deriving Repr, DecidableEq, Inhabited

/-! ## Names of nodes -/

/-- Reads the name after the mark of an anchor or an alias. -/
def nodeName (start : Mark) (c : Cursor) : Except Fault (String × Cursor) :=
  let name := c.run isWord
  let d := c.skipMany name.length
  let ended := match d.rest with
    | [] => true
    | x :: _ => isBlank x || isBreak x || ['?', ':', ',', ']', '\x7d', '%', '@', '\x60'].contains x
  if name.isEmpty || !ended then
    .error (.scan start d.mark "did not find expected alphabetic or numeric character")
  else .ok (String.ofList name, d)

/-! ## Tags -/

/-- A character of a tag that stands for itself. -/
def isTagChar (c : Char) : Bool :=
  isWord c || [';', '/', '?', ':', '@', '&', '=', '+', '$', ',', '.', '!', '~', '*', '\'', '(', ')',
    '[', ']'].contains c

/-- How many octets a character has that begins with some octet; zero if none does. -/
def octetWidth (n : Nat) : Nat :=
  if n < 0x80 then 1
  else if n / 0x20 == 6 then 2
  else if n / 0x10 == 14 then 3
  else if n / 8 == 30 then 4
  else 0

/-- Reads an octet, which is written as a percent sign and two digits. -/
def octet (start : Mark) (c : Cursor) : Except Fault (Nat × Cursor) :=
  match c.rest with
  | '%' :: a :: b :: _ =>
    match hexNumber? [a, b] with
    | some n => .ok (n, c.skipMany 3)
    | none => .error (.scan start c.mark "did not find URI escaped octet")
  | _ => .error (.scan start c.mark "did not find URI escaped octet")

/-- Reads the octets of a character after the first one. -/
def octets (start : Mark) : Nat → List Nat → Cursor → Except Fault (List Nat × Cursor)
  | 0, done, c => .ok (done.reverse, c)
  | n + 1, done, c => do
    let (x, d) ← octet start c
    if x / 0x40 != 2 then
      throw (.scan start c.mark "found an incorrect trailing UTF-8 octet")
    octets start n (x :: done) d

/-- Reads the characters of a tag. `done` has those so far, the last first. -/
def tagRun (start : Mark) : Nat → List Char → Cursor → Except Fault (List Char × Cursor)
  | 0, done, c => .ok (done.reverse, c)
  | fuel + 1, done, c =>
    match c.look with
    | none => .ok (done.reverse, c)
    | some x =>
      if x == '%' then do
        let (n, d) ← octet start c
        if octetWidth n == 0 then
          throw (.scan start c.mark "found an incorrect leading UTF-8 octet")
        let (more, d) ← octets start (octetWidth n - 1) [] d
        tagRun start fuel ((octetText (n :: more)).reverse ++ done) d
      else if isTagChar x then tagRun start fuel (x :: done) c.skip
      else .ok (done.reverse, c)

/-- Reads the rest of a tag after its first characters `head`. There must be something. -/
def tagText (start : Mark) (head : List Char) (needed : Bool) (c : Cursor) :
    Except Fault (String × Cursor) := do
  let (text, d) ← tagRun start (c.rest.length + 1) [] c
  if needed && text.isEmpty && d.mark == c.mark then
    throw (.scan start d.mark "did not find expected tag URI")
  return (String.ofList (head ++ text), d)

/-- Reads the handle of a tag. In a directive it must end with an exclamation mark. -/
def tagHandle (start : Mark) (inDirective : Bool) (c : Cursor) :
    Except Fault (List Char × Cursor) :=
  if !c.looking '!' then .error (.scan start c.mark "did not find expected '!'")
  else
    let name := c.skip.run isWord
    let d := c.skip.skipMany name.length
    if d.looking '!' then .ok ('!' :: name ++ ['!'], d.skip)
    else if inDirective && !name.isEmpty then
      .error (.scan start d.mark "did not find expected '!'")
    else .ok ('!' :: name, d)

/-- Reads a tag. -/
def tag (start : Mark) (c : Cursor) : Except Fault (TokenKind × Cursor) := do
  let (kind, c) ← (if c.rest.drop 1 |>.head? |> (· == some '<') then do
      let (text, c) ← tagText start [] true (c.skipMany 2)
      if !c.looking '>' then throw (.scan start c.mark "did not find the expected '>'")
      pure (TokenKind.tag "" text, c.skip)
    else do
      let (handle, c) ← tagHandle start false c
      if 1 < handle.length && handle.getLast? == some '!' then
        let (text, c) ← tagText start [] true c
        pure (TokenKind.tag (String.ofList handle) text, c)
      else
        let (text, c) ← tagText start (handle.drop 1) false c
        pure (if text.isEmpty then TokenKind.tag "" "!" else TokenKind.tag "!" text, c))
  if !atGap c.rest then
    throw (.scan start c.mark "did not find expected whitespace or line break")
  return (kind, c)

/-! ## Directives -/

/-- Reads a part of the number of a version. -/
def versionNumber (start : Mark) (c : Cursor) : Except Fault (Nat × Cursor) :=
  let digits := c.run Char.isDigit
  if 2 < digits.length then .error (.scan start c.mark "found extremely long version number")
  else if digits.isEmpty then .error (.scan start c.mark "did not find expected version number")
  else
    .ok (digits.foldl (fun n d => n * 10 + (d.toNat - 48)) 0, c.skipMany digits.length)

/-- Reads a version. -/
def version (start : Mark) (c : Cursor) : Except Fault (TokenKind × Cursor) := do
  let (major, c) ← versionNumber start c.skipBlanks
  if !c.looking '.' then
    throw (.scan start c.mark "did not find expected digit or '.' character")
  let (minor, c) ← versionNumber start c.skip
  return (.versionDirective major minor, c)

/-- Reads what a handle stands for. -/
def tagMeaning (start : Mark) (c : Cursor) : Except Fault (TokenKind × Cursor) := do
  let (handle, c) ← tagHandle start true c.skipBlanks
  if !c.look.any isBlank then throw (.scan start c.mark "did not find expected whitespace")
  let (text, c) ← tagText start [] true c.skipBlanks
  if !atGap c.rest then
    throw (.scan start c.mark "did not find expected whitespace or line break")
  return (.tagDirective (String.ofList handle) text, c)

/-- Reads a directive after its mark, with the rest of its line. -/
def directive (start : Mark) (c : Cursor) : Except Fault (TokenKind × Cursor) := do
  let name := c.run isWord
  let c := c.skipMany name.length
  if name.isEmpty then throw (.scan start c.mark "could not find expected directive name")
  if !atGap c.rest then
    throw (.scan start c.mark "found unexpected non-alphabetical character")
  let (kind, c) ←
    if name == "YAML".toList then version start c
    else if name == "TAG".toList then tagMeaning start c
    else throw (.scan start c.mark "found unknown directive name")
  let c := c.skipBlanks
  let c := if c.looking '#' then c.toLineEnd else c
  if !atLineEnd c.rest then
    throw (.scan start c.mark "did not find expected comment or line break")
  return (kind, if c.look.isSome then c.skipBreak else c)

end Weaver.Yaml
