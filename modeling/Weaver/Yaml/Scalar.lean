import Weaver.Yaml.Cursor
/-!
Scalars of YAML documents.

Plain and quoted scalars may go on for several lines. One line break between two parts of them is
read as a blank, and of several ones all but the first are kept. Blocks are read line by line: a
literal one keeps its line breaks, a folded one joins lines that are not indented further.
-/
set_option autoImplicit false

namespace Weaver.Yaml

/-! ## Gaps -/

/-- Blanks and line breaks between two parts of a scalar. -/
structure Gap where
  /-- The blanks, as long as there is no line break. -/
  blanks : List Char
  /-- A line has ended. -/
  broken : Bool
  /-- The first line break, unless it is not to be read, and the others. -/
  first : List Char
  more : List Char
deriving Repr, DecidableEq, Inhabited

namespace Gap

/-- Nothing lies between. -/
def none : Gap := ⟨[], false, [], []⟩

/-- A line has ended without a break that is to be read. -/
def joined : Gap := ⟨[], true, [], []⟩

/-- What is read for a gap. -/
def text (g : Gap) : List Char :=
  if !g.broken then g.blanks
  else if g.first.head? == some '\n' then if g.more.isEmpty then [' '] else g.more
  else g.first ++ g.more

/-- The gap with a blank more. Blanks after a line break are not read. -/
def blank (g : Gap) (c : Char) : Gap :=
  if g.broken then g else { g with blanks := g.blanks ++ [c] }

/-- The gap with a line break more. -/
def lineBreak (g : Gap) (b : List Char) : Gap :=
  if g.broken then { g with more := g.more ++ b } else ⟨[], true, b, []⟩

end Gap

/-- Skips a gap. In a plain scalar a tab that stands in the indentation is a fault. -/
def skipGap (start : Mark) (indent : Option Int) :
    Nat → Gap → Cursor → Except Fault (Gap × Cursor)
  | 0, g, c => .ok (g, c)
  | fuel + 1, g, c =>
    match c.look with
    | none => .ok (g, c)
    | some x =>
      if isBlank x then
        if x == '\t' && g.broken && indent.any fun n => (c.mark.col : Int) < n then
          .error (.scan start c.mark "found a tab character that violates indentation")
        else skipGap start indent fuel (g.blank x) c.skip
      else if isBreak x then skipGap start indent fuel (g.lineBreak c.breakText) c.skipBreak
      else .ok (g, c)

/-! ## Plain scalars -/

/-- A character that ends a plain scalar. -/
def endsPlain (inFlow : Bool) (rest : List Char) : Bool :=
  match rest with
  | [] => true
  | c :: r =>
    isBlank c || isBreak c || (c == ':' && atGap r) ||
      (inFlow && [',', '?', '[', ']', '\x7b', '\x7d'].contains c)

/-- The characters up to the next one that ends a plain scalar. -/
def plainRun (inFlow : Bool) : List Char → List Char
  | [] => []
  | c :: cs => if endsPlain inFlow (c :: cs) then [] else c :: plainRun inFlow cs

/-- Reads a plain scalar. `done` has its characters so far, the last first, and `g` what lies before
the next ones. Returned is also the gap after the scalar. -/
def plain (start : Mark) (inFlow : Bool) (indent : Int) :
    Nat → List Char → Gap → Cursor → Except Fault (List Char × Gap × Cursor)
  | 0, done, g, c => .ok (done.reverse, g, c)
  | fuel + 1, done, g, c =>
    if c.atDocumentMark || c.looking '#' then .ok (done.reverse, g, c)
    else
      let word := plainRun inFlow c.rest
      let (done, g) :=
        if word.isEmpty then (done, g) else (word.reverse ++ g.text.reverse ++ done, .none)
      let c := c.skipMany word.length
      if c.look.any fun x => isBlank x || isBreak x then do
        let (g, c) ← skipGap start (some indent) (c.rest.length + 1) g c
        if !inFlow && (c.mark.col : Int) < indent then return (done.reverse, g, c)
        plain start inFlow indent fuel done g c
      else .ok (done.reverse, g, c)

/-! ## Quoted scalars -/

/-- The character that a letter after a backslash stands for. -/
def escaped? (c : Char) : Option Char :=
  [('0', '\x00'), ('a', '\x07'), ('b', '\x08'), ('t', '\t'), ('\t', '\t'), ('n', '\n'),
   ('v', '\x0b'), ('f', '\x0c'), ('r', '\r'), ('e', '\x1b'), (' ', ' '), ('"', '"'),
   ('\'', '\''), ('\\', '\\'), ('N', '\u0085'), ('_', '\u00a0'), ('L', '\u2028'),
   ('P', '\u2029')].lookup c

/-- How many hexadecimal digits follow a letter after a backslash. -/
def codeLength? (c : Char) : Option Nat :=
  [('x', 2), ('u', 4), ('U', 8)].lookup c

/-- Reads a quoted scalar after its opening quote. `done` has its characters so far, the last
first. -/
def quoted (start : Mark) (quote : Char) :
    Nat → List Char → Cursor → Except Fault (List Char × Cursor)
  | 0, _, c => .error (.scan start c.mark "found unexpected end of stream")
  | fuel + 1, done, c =>
    if c.atDocumentMark then
      .error (.scan start c.mark "found unexpected document indicator")
    else match c.rest with
      | [] => .error (.scan start c.mark "found unexpected end of stream")
      | x :: r =>
        if x == quote then
          if quote == '\'' && r.head? == some '\'' then
            quoted start quote fuel ('\'' :: done) (c.skipMany 2)
          else .ok (done.reverse, c.skip)
        else if isBlank x || isBreak x then do
          let (g, c) ← skipGap start none (c.rest.length + 1) .none c
          quoted start quote fuel (g.text.reverse ++ done) c
        else if x == '\\' && quote == '"' then
          match r with
          | [] => .error (.scan start c.mark "found unknown escape character")
          | e :: r =>
            if isBreak e then do
              let c := c.skip.skipBreak
              let (g, c) ← skipGap start none (c.rest.length + 1) .joined c
              quoted start quote fuel (g.text.reverse ++ done) c
            else match escaped? e, codeLength? e with
              | some v, _ => quoted start quote fuel (v :: done) (c.skipMany 2)
              | none, some n =>
                let c := c.skipMany 2
                match hexNumber? (r.take n) with
                | none =>
                  .error (.scan start c.mark "did not find expected hexdecimal number")
                | some v =>
                  if r.length < n then
                    .error (.scan start c.mark "did not find expected hexdecimal number")
                  else if (0xD800 ≤ v && v ≤ 0xDFFF) || 0x10FFFF < v then
                    .error (.scan start c.mark "found invalid Unicode character escape code")
                  else quoted start quote fuel (Char.ofNat v :: done) (c.skipMany n)
              | none, none => .error (.scan start c.mark "found unknown escape character")
        else quoted start quote fuel (x :: done) c.skip

/-! ## Blocks -/

/-- What becomes of the line breaks at the end of a block. -/
inductive Chomping where
  /-- All are dropped. -/
  | strip
  /-- One stays. -/
  | clip
  /-- All stay. -/
  | keep
deriving Repr, DecidableEq, Inhabited

/-- What is said after the mark of a block. -/
structure BlockHeader where
  chomping : Chomping
  /-- How much more than its surroundings the block is indented, if it is said. -/
  increment : Option Nat
deriving Repr, DecidableEq, Inhabited

/-- The chomping that a sign stands for. -/
def Chomping.of? (c : Option Char) : Option Chomping :=
  if c == some '+' then some .keep else if c == some '-' then some .strip else none

/-- Reads the digit that says how much a block is indented. -/
def blockIncrement (start : Mark) (c : Cursor) : Except Fault (Option Nat × Cursor) :=
  match c.look with
  | some x =>
    if !x.isDigit then .ok (none, c)
    else if x == '0' then
      .error (.scan start c.mark "found an indentation indicator equal to 0")
    else .ok (some (x.toNat - 48), c.skip)
  | none => .ok (none, c)

/-- Reads what follows the mark of a block on its line. A sign and a digit can stand in any
order. -/
def blockHeader (start : Mark) (c : Cursor) : Except Fault (BlockHeader × Cursor) := do
  match Chomping.of? c.look with
  | some ch =>
    let (n, c) ← blockIncrement start c.skip
    return (⟨ch, n⟩, c)
  | none =>
    match ← blockIncrement start c with
    | (none, c) => return (⟨.clip, none⟩, c)
    | (some n, c) =>
      match Chomping.of? c.look with
      | some ch => return (⟨ch, some n⟩, c.skip)
      | none => return (⟨.clip, some n⟩, c)

/-- Skips the indentation of the next line that is not empty, and the empty lines before it. If the
indentation of the block, `indent`, is zero it is still to be found; `widest` is the largest one so
far. Returned are the line breaks and the largest indentation. -/
def blockBreaks (start : Mark) (indent : Nat) :
    Nat → (widest : Nat) → List Char → Cursor → Except Fault (Nat × List Char × Cursor)
  | 0, widest, breaks, c => .ok (widest, breaks, c)
  | fuel + 1, widest, breaks, c =>
    let spaces := (c.run (· == ' ')).length
    let c := c.skipMany (if indent == 0 then spaces else min spaces (indent - c.mark.col))
    let widest := max widest c.mark.col
    if (indent == 0 || c.mark.col < indent) && c.looking '\t' then
      .error (.scan start c.mark "found a tab character where an indentation space is expected")
    else if c.look.any isBreak then
      blockBreaks start indent fuel widest (breaks ++ c.breakText) c.skipBreak
    else .ok (widest, breaks, c)

/-- Reads the lines of a block that is indented by `indent`. `done` has its characters so far, the
last first, `last` the line break after them, and `breaks` those of the empty lines that follow.
`spaced` says that the last line begins with a blank. -/
def blockLines (start : Mark) (literal : Bool) (indent : Nat) :
    Nat → (done last breaks : List Char) → (spaced : Bool) → Cursor →
      Except Fault (List Char × List Char × List Char × Cursor)
  | 0, done, last, breaks, _, c => .ok (done, last, breaks, c)
  | fuel + 1, done, last, breaks, spaced, c =>
    if c.mark.col != indent || c.rest.isEmpty then .ok (done, last, breaks, c)
    else do
      let blank := c.look.any isBlank
      let joint :=
        if !literal && !spaced && !blank && last.head? == some '\n' then
          if breaks.isEmpty then [' '] else []
        else last
      let line := c.run (!isBreak ·)
      let done := line.reverse ++ breaks.reverse ++ joint.reverse ++ done
      let c := c.skipMany line.length
      let last := c.breakText
      let c := if c.look.isSome then c.skipBreak else c
      let (_, breaks, c) ← blockBreaks start indent (c.rest.length + 1) 0 [] c
      blockLines start literal indent fuel done last breaks blank c

/-- Reads a block after its mark. `around` is the indentation of the surroundings. -/
def block (start : Mark) (literal : Bool) (around : Int) (c : Cursor) :
    Except Fault (List Char × Cursor) := do
  let (header, c) ← blockHeader start c
  let c := c.skipBlanks
  let c := if c.looking '#' then c.toLineEnd else c
  if !atLineEnd c.rest then
    throw (.scan start c.mark "did not find expected comment or line break")
  let c := if c.look.isSome then c.skipBreak else c
  let told := match header.increment with
    | some n => if 0 ≤ around then around.toNat + n else n
    | none => 0
  let (widest, breaks, c) ← blockBreaks start told (c.rest.length + 1) 0 [] c
  let indent := if told != 0 then told else max (max widest (around + 1).toNat) 1
  let (done, last, breaks, c) ←
    blockLines start literal indent (c.rest.length + 1) [] [] breaks false c
  let tail := match header.chomping with
    | .strip => []
    | .clip => last
    | .keep => last ++ breaks
  return (done.reverse ++ tail, c)

end Weaver.Yaml
