import Weaver.Yaml.Property
import Weaver.Yaml.Scalar
/-!
The scanner of YAML documents.

Collections are written in blocks, by indentation, or in brackets. A key needs no mark of its own:
it is only known for one when the colon after it is found on the same line. So the scanner remembers
where a key could have started, and puts the tokens for the key and for the beginning of its block
there afterwards. Until then the tokens from that place on wait in a queue.

The scanner stays two tokens ahead of the reader, so a fault in the text can come before what the
reader would have said about the tokens in front of it.
-/
set_option autoImplicit false

namespace Weaver.Yaml

/-- The place where a key can have started, for one level of brackets. -/
structure KeySlot where
  /-- A key can have started there. -/
  possible : Bool
  /-- Nothing but a key can stand there. -/
  required : Bool
  /-- The number of the token there. -/
  token : Nat
  mark : Mark
deriving Repr, DecidableEq, Inhabited

/-- The state of the scanner. -/
structure Scanner where
  cursor : Cursor
  /-- How many brackets are open. -/
  flow : Nat
  /-- The indentation of the current block, -1 outside of all blocks, and those around it. -/
  indent : Int
  outer : List Int
  /-- A key can start here. -/
  keyAllowed : Bool
  /-- The places of keys for each open bracket, innermost first, and for the outermost level. -/
  slots : List KeySlot
  /-- The tokens that wait for the decision whether they begin a key, by their numbers, each with
  the number of levels around it. -/
  waiting : List (Nat × Nat)
  /-- How many tokens are taken. -/
  taken : Nat
  /-- The tokens that are not taken yet. -/
  queue : List Token
deriving Repr, Inhabited

/-- The result of a step of the scanner. -/
abbrev Scan := Except Fault Scanner

namespace Scanner

/-- How deep brackets and blocks can be nested. -/
def maxDepth : Nat := 10000

/-- What is said when they are nested deeper. -/
def tooDeep : String := "exceeded max depth of " ++ toString maxDepth

/-- The scanner at the beginning of a text. -/
def of (text : List Char) : Scanner :=
  ⟨.of text, 0, -1, [], true, [⟨false, false, 0, ⟨0, 0, 0⟩⟩], [], 0, [⟨.streamStart, ⟨0, 0, 0⟩⟩]⟩

/-- The number of the next token. -/
def nextNumber (s : Scanner) : Nat := s.taken + s.queue.length

/-- Adds a token that starts at a place. -/
def pushAt (s : Scanner) (k : TokenKind) (m : Mark) : Scanner :=
  { s with queue := s.queue ++ [⟨k, m⟩] }

/-- Adds a token at the current place. -/
def push (s : Scanner) (k : TokenKind) : Scanner := s.pushAt k s.cursor.mark

/-- Puts a token before the one with a number, or behind all if that one is already taken. -/
def insert (s : Scanner) (number : Nat) (t : Token) : Scanner :=
  if number < s.taken then { s with queue := s.queue ++ [t] }
  else
    let n := number - s.taken
    { s with queue := s.queue.take n ++ t :: s.queue.drop n }

/-- Moves over `n` characters. -/
def skip (s : Scanner) (n : Nat) : Scanner :=
  { s with cursor := s.cursor.skipMany n }

/-! ## Blanks and comments -/

/-- Skips a comment and those that follow it with nothing but blanks and line breaks between. The
line break after the last one is left. -/
def skipComments : Nat → Cursor → Cursor
  | 0, c => c
  | fuel + 1, c =>
    let c := c.toLineEnd
    let gap := (c.rest.drop 1).takeWhile fun x => isBlank x || x == '\n' || x == '\r'
    let more := c.look.any (fun x => x == '\n' || x == '\r') && gap.length < 511 &&
      (c.rest.drop (gap.length + 1)).head? == some '#'
    if more then skipComments fuel (c.skipSpace (gap.length + 1)) else c

/-- Skips blanks, comments and line breaks. Tabs do not count as blanks where a key could start. -/
def toToken : Nat → Scanner → Scanner
  | 0, s => s
  | fuel + 1, s =>
    let c := if s.cursor.mark.col == 0 && s.cursor.looking '\ufeff' then s.cursor.skip else s.cursor
    let c := c.skipWhile fun x => x == ' ' || (x == '\t' && (s.flow != 0 || !s.keyAllowed))
    let c := if c.looking '#' then skipComments (c.rest.length + 1) c else c
    if c.look.any isBreak then
      toToken fuel { s with cursor := c.skipBreak, keyAllowed := s.keyAllowed || s.flow == 0 }
    else { s with cursor := c }

/-! ## Indentation -/

/-- Ends all blocks that are indented more than a column. -/
def unroll (col : Int) : Nat → Scanner → Scanner
  | 0, s => s
  | fuel + 1, s =>
    if s.flow == 0 && col < s.indent then
      unroll col fuel
        { s.push .blockEnd with indent := s.outer.headD (-1), outer := s.outer.drop 1 }
    else s

/-- Begins a block at a place, if it is indented more than the current one. Its token goes before
the one with a number. -/
def roll (s : Scanner) (number : Nat) (k : TokenKind) (m : Mark) : Scan :=
  if s.flow == 0 && s.indent < m.col then
    if maxDepth < s.outer.length + 1 then
      .error (.scan (s.slots.headD default).mark s.cursor.mark tooDeep)
    else .ok { s.insert number ⟨k, m⟩ with indent := m.col, outer := s.indent :: s.outer }
  else .ok s

/-! ## Keys -/

/-- What is said when a key was needed. -/
def noColon : String := "could not find expected ':'"

/-- A key can still have started at a place: it is on the same line and not too far away. -/
def isLive (s : Scanner) (k : KeySlot) : Except Fault Bool :=
  if !k.possible then .ok false
  else if k.mark.line < s.cursor.mark.line || k.mark.index + 1024 < s.cursor.mark.index then
    if k.required then .error (.scan k.mark s.cursor.mark noColon) else .ok false
  else .ok true

/-- The token with a number waits no longer. -/
def release (s : Scanner) (number : Nat) : Scanner :=
  { s with waiting := s.waiting.filter (·.1 != number) }

/-- Gives up the possible key of the current level. -/
def dropKey (s : Scanner) : Scan :=
  match s.slots with
  | k :: ks =>
    if !k.possible then .ok s
    else if k.required then .error (.scan k.mark s.cursor.mark noColon)
    else .ok { s.release k.token with slots := { k with possible := false } :: ks }
  | [] => .ok s

/-- Remembers that a key can start here. -/
def saveKey (s : Scanner) : Scan :=
  if !s.keyAllowed then .ok s
  else do
    let k : KeySlot :=
      ⟨true, s.flow == 0 && s.indent == s.cursor.mark.col, s.nextNumber, s.cursor.mark⟩
    let s ← s.dropKey
    return { s with
      slots := k :: s.slots.drop 1
      waiting := (k.token, s.slots.length - 1) :: s.waiting.filter (·.1 != k.token) }

/-- The next token waits for the decision whether it begins a key. -/
def headWaits (s : Scanner) : Except Fault Bool :=
  match s.waiting.lookup s.taken with
  | none => .ok false
  | some depth =>
    match s.slots.reverse[depth]? with
    | none => .ok false
    | some k => s.isLive k

/-! ## Tokens -/

/-- A bracket opens. -/
def openFlow (s : Scanner) (k : TokenKind) : Scan := do
  let s ← s.saveKey
  if maxDepth < s.flow + 1 then throw (.scan s.cursor.mark s.cursor.mark tooDeep)
  return { (s.push k).skip 1 with
    flow := s.flow + 1, keyAllowed := true
    slots := ⟨false, false, s.nextNumber, s.cursor.mark⟩ :: s.slots }

/-- A bracket closes. -/
def closeFlow (s : Scanner) (k : TokenKind) : Scan := do
  let s ← s.dropKey
  let s := if s.flow == 0 then s
    else { s.release (s.slots.headD default).token with
      flow := s.flow - 1, slots := s.slots.drop 1 }
  return { (s.push k).skip 1 with keyAllowed := false }

/-- A comma between the entries of a flow collection. -/
def flowEntry (s : Scanner) : Scan := do
  let s ← s.dropKey
  return { (s.push .flowEntry).skip 1 with keyAllowed := true }

/-- Something that begins a line of a block must be allowed there. -/
def allowed (s : Scanner) (what : String) : Except Fault Unit :=
  if s.flow == 0 && !s.keyAllowed then
    .error (.scan s.cursor.mark s.cursor.mark (what ++ " are not allowed in this context"))
  else .ok ()

/-- A dash before an entry of a block sequence. -/
def blockEntry (s : Scanner) : Scan := do
  s.allowed "block sequence entries"
  let s ← s.roll s.nextNumber .blockSequenceStart s.cursor.mark
  let s ← s.dropKey
  return { (s.push .blockEntry).skip 1 with keyAllowed := true }

/-- A question mark before a key. -/
def markedKey (s : Scanner) : Scan := do
  s.allowed "mapping keys"
  let s ← s.roll s.nextNumber .blockMappingStart s.cursor.mark
  let s ← s.dropKey
  return { (s.push .key).skip 1 with keyAllowed := s.flow == 0 }

/-- A colon before a value. -/
def value (s : Scanner) : Scan := do
  let k := s.slots.headD default
  if ← s.isLive k then
    let s := s.insert k.token ⟨.key, k.mark⟩
    let s ← s.roll k.token .blockMappingStart k.mark
    let s := { s.release k.token with slots := { k with possible := false } :: s.slots.drop 1 }
    return { (s.push .value).skip 1 with keyAllowed := false }
  else
    s.allowed "mapping values"
    let s ← s.roll s.nextNumber .blockMappingStart s.cursor.mark
    return { (s.push .value).skip 1 with keyAllowed := s.flow == 0 }

/-- An anchor or an alias. -/
def name (s : Scanner) (k : String → TokenKind) : Scan := do
  let s ← s.saveKey
  let start := s.cursor.mark
  let (text, c) ← nodeName start s.cursor.skip
  return { s.push (k text) with cursor := c, keyAllowed := false }

/-- A tag. -/
def nodeTag (s : Scanner) : Scan := do
  let s ← s.saveKey
  let (k, c) ← Yaml.tag s.cursor.mark s.cursor
  return { s.push k with cursor := c, keyAllowed := false }

/-- A block. A key can follow it. -/
def blockScalar (s : Scanner) (literal : Bool) : Scan := do
  let s ← s.dropKey
  let (text, c) ← block s.cursor.mark literal s.indent s.cursor.skip
  return { s.push (.scalar (String.ofList text) false) with cursor := c, keyAllowed := true }

/-- A quoted scalar. -/
def quotedScalar (s : Scanner) (quote : Char) : Scan := do
  let s ← s.saveKey
  let start := s.cursor.mark
  let (text, c) ← quoted start quote (s.cursor.rest.length + 1) [] s.cursor.skip
  return { s.push (.scalar (String.ofList text) false) with cursor := c, keyAllowed := false }

/-- A plain scalar. A key can follow it on a line of its own. -/
def plainScalar (s : Scanner) : Scan := do
  let s ← s.saveKey
  let fuel := s.cursor.rest.length + 1
  let (text, g, c) ← plain s.cursor.mark (s.flow != 0) (s.indent + 1) fuel [] .none s.cursor
  return { s.push (.scalar (String.ofList text) true) with cursor := c, keyAllowed := g.broken }

/-- Ends all blocks, and the key that could have started. -/
def endBlocks (s : Scanner) : Scan := do
  let s ← (s.unroll (-1) (s.outer.length + 1)).dropKey
  return { s with keyAllowed := false }

/-- A mark of a document. -/
def documentMark (s : Scanner) (k : TokenKind) : Scan := do
  let s ← s.endBlocks
  return (s.push k).skip 3

/-- A directive. -/
def directiveLine (s : Scanner) : Scan := do
  let s ← s.endBlocks
  let (k, c) ← directive s.cursor.mark s.cursor.skip
  return { s.push k with cursor := c }

/-- The end of the text. -/
def finish (s : Scanner) : Scan := do
  let c := s.cursor
  let mark : Mark := if c.mark.col == 0 then c.mark else ⟨c.mark.index, c.mark.line + 1, 0⟩
  let s ← { s with cursor := { c with mark := mark } }.endBlocks
  return s.push .streamEnd

/-- The characters that cannot begin a plain scalar, unless something follows at once for some of
them. -/
def indicators : List Char :=
  ['-', '?', ':', ',', '[', ']', '\x7b', '\x7d', '#', '&', '*', '!', '|', '>', '\'', '"', '%', '@',
   '\x60']

/-- A plain scalar begins with `c` before `rest`. -/
def startsPlain (s : Scanner) (c : Char) (rest : List Char) : Bool :=
  !(isBlank c || isBreak c || indicators.contains c) ||
    (c == '-' && !rest.head?.any isBlank) ||
    (s.flow == 0 && (c == '?' || c == ':') && !atGap rest)

/-- Scans a token that begins with `c` before `rest`. -/
def token (s : Scanner) (c : Char) (rest : List Char) : Scan :=
  if c == '[' then s.openFlow .flowSequenceStart
  else if c == '\x7b' then s.openFlow .flowMappingStart
  else if c == ']' then s.closeFlow .flowSequenceEnd
  else if c == '\x7d' then s.closeFlow .flowMappingEnd
  else if c == ',' then s.flowEntry
  else if c == '-' && atGap rest then s.blockEntry
  else if c == '?' && (s.flow != 0 || atGap rest) then s.markedKey
  else if c == ':' && (s.flow != 0 || atGap rest) then s.value
  else if c == '*' then s.name .named
  else if c == '&' then s.name .anchor
  else if c == '!' then s.nodeTag
  else if (c == '|' || c == '>') && s.flow == 0 then s.blockScalar (c == '|')
  else if c == '\'' || c == '"' then s.quotedScalar c
  else if s.startsPlain c rest then s.plainScalar
  else .error (.scan s.cursor.mark s.cursor.mark "found character that cannot start any token")

/-- Skips the comment after a token, unless it is the dash of an entry. -/
def skipComment (s : Scanner) : Scanner :=
  if s.queue.getLast?.any (·.kind == .blockEntry) then s
  else { s with cursor := s.cursor.skipLineComment }

/-- Scans the next token, with the ends of blocks before it. -/
def fetch (s : Scanner) : Scan := do
  let s := s.toToken (s.cursor.rest.length + 1)
  let s := s.unroll s.cursor.mark.col (s.outer.length + 1)
  match s.cursor.rest with
  | [] => s.finish
  | c :: rest =>
    if s.cursor.mark.col == 0 && c == '%' then s.directiveLine
    else if s.cursor.atDocumentMark then
      s.documentMark (if c == '-' then .documentStart else .documentEnd)
    else return (← s.token c rest).skipComment

/-- Scans until three tokens are there and the first of them does not wait. -/
def fill : Nat → Scanner → Scan
  | 0, s => .ok s
  | fuel + 1, s => do
    if 2 < s.queue.length && !(← s.headWaits) then return s
    fill fuel (← s.fetch)

/-- The scanner when the next token is there, with that token. -/
def next (s : Scanner) : Except Fault (Token × Scanner) := do
  let s ← s.fill (s.cursor.rest.length + 8)
  return (s.queue.headD ⟨.streamEnd, s.cursor.mark⟩, s)

/-- The scanner when the next token is taken. -/
def take (s : Scanner) : Scanner :=
  { s with taken := s.taken + 1, queue := s.queue.drop 1 }

end Scanner

end Weaver.Yaml
