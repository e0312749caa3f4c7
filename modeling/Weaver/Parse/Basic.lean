import Weaver.Source.Token
import Weaver.Syntax.Tree
/-!
Reading tokens.

A parser takes the tokens ahead and gives a result and the tokens left, or the first fault. The end
of the text is never taken: it is what is seen once all tokens are gone. Recursive rules of the
grammar are the fields of `Rules`; every use of a field comes after at least one token was taken,
so as many nestings of the rules as there are tokens are enough.
-/
set_option autoImplicit false

namespace Weaver.Parse

open Weaver.Source (Token Fault ParseError Position)
open Weaver.Syntax (Tree Mark)

/-- The tokens ahead and the end of the text behind them. -/
structure Input where
  ahead : List Token
  last : Token

/-- A parser for values of a type. -/
abbrev Parser := StateT Input (Except ParseError)

/-- Fails at a token. -/
def failAt {α : Type} (t : Token) (f : Fault) : Parser α :=
  throw ⟨f, t.pos⟩

/-- The token `n` places ahead. -/
def peek (n : Nat) : Parser Token :=
  return (← get).ahead.getD n (← get).last

/-- The next token. -/
def current : Parser Token :=
  peek 0

/-- Takes the next token; the end of the text stays. -/
def take : Parser Token := do
  let t ← current
  modify fun s => { s with ahead := s.ahead.drop 1 }
  return t

/-- The next token is the given operator or word. -/
def isNext (text : String) : Parser Bool :=
  return (← current).isText text

/-- The token `n` places ahead is the given operator or word. -/
def isAhead (n : Nat) (text : String) : Parser Bool :=
  return (← peek n).isText text

/-- All tokens are taken. -/
def atEnd : Parser Bool :=
  return (← current).isEnd

/-- Takes the next token if it is the given operator or word. -/
def accept (text : String) : Parser Bool := do
  if ← isNext text then
    let _ ← take
    return true
  else return false

/-- Fails because a token is not what the grammar asks for. -/
def unexpected {α : Type} (t : Token) (expected : String) : Parser α :=
  failAt t (.unexpected t.shown expected)

/-- Takes the given operator or word. -/
def expect (text : String) : Parser Token := do
  let t ← current
  if t.isText text then take else unexpected t (Text.quote text)

/-- Takes a name. -/
def name : Parser Token := do
  let t ← current
  if t.isName then take else unexpected t "identifier"

/-- The token `n` places ahead begins right after the one before it. -/
def touches (n : Nat) : Parser Bool := do
  let before ← peek (n - 1)
  let t ← peek n
  return t.offset == before.offset + before.text.utf8ByteSize

/-- A parser would succeed here. Nothing is taken. A parser that runs out of rounds gives no
answer. -/
def succeeds {α : Type} (p : Parser α) : Parser Bool := fun s =>
  match p s with
  | .ok _ => .ok (true, s)
  | .error e => if e.fault = .tooDeep then .error e else .ok (false, s)

/-- Takes what a parser takes if it gives a value; else nothing is taken. A parser that runs out of
rounds gives no answer. -/
def attempt {α : Type} (p : Parser (Option α)) : Parser (Option α) := fun s =>
  match p s with
  | .ok (some a, t) => .ok (some a, t)
  | .ok (none, _) => .ok (none, s)
  | .error e => if e.fault = .tooDeep then .error e else .ok (none, s)

/-- Gives a loop as many rounds as there are tokens ahead, and one more. Every round takes a token
or is the last. -/
def rounds {α : Type} (loop : Nat → Parser α) : Parser α := do
  loop ((← get).ahead.length + 1)

/-- A loop that was given too few rounds; this never happens. -/
def outOfRounds {α : Type} : Parser α := do
  failAt (← current) .tooDeep

/-- One or more items separated by commas. -/
def commaSeparated {α : Type} (item : Parser α) : Nat → Parser (List α)
  | 0 => outOfRounds
  | n + 1 => do
    let x ← item
    if ← accept "," then return x :: (← commaSeparated item n)
    else return [x]

/-- Items separated by commas up to a closing token, which may follow a comma and is not taken. -/
def listBefore {α : Type} (closes : Parser Bool) (item : Parser α) : Nat → Parser (List α)
  | 0 => outOfRounds
  | n + 1 => do
    if ← closes then return []
    let x ← item
    if ← accept "," then return x :: (← listBefore closes item n)
    else return [x]

/-- The recursive rules of the grammar. -/
structure Rules where
  type : Parser Tree
  elementValue : Parser Tree
  expression : Parser Tree
  ternary : Parser Tree
  binary : Nat → Parser Tree
  unary : Parser Tree
  statement : Parser Tree
  blockStatement : Parser (List Tree)
  member : String → Parser (List Tree)

/-- Rules for a text without any tokens. -/
def Rules.exhausted : Rules where
  type := outOfRounds
  elementValue := outOfRounds
  expression := outOfRounds
  ternary := outOfRounds
  binary _ := outOfRounds
  unary := outOfRounds
  statement := outOfRounds
  blockStatement := outOfRounds
  member _ := outOfRounds

/-- The mark of a node that begins at a token. -/
def markOf (t : Token) : Mark :=
  Mark.at t.pos

end Weaver.Parse
