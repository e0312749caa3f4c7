import Weaver.Parse.Statement
import Weaver.Source.Lexer
/-!
Source text as programs: compilation units, single expressions and sequences of statements.
-/
set_option autoImplicit false

namespace Weaver.Parse

open Weaver.Source (Token LexFailure tokens)
open Weaver.Syntax (Tree)
open Weaver.Text (Glyph)

/-- The rules of the grammar for texts with fewer than `n` tokens. -/
def rules : Nat → Rules
  | 0 => .exhausted
  | n + 1 =>
    let r := rules n
    { type := type r
      elementValue := elementValue r
      expression := expression r
      ternary := ternary r
      binary := binary r
      unary := unary r
      statement := statement r
      blockStatement := blockStatement r
      member := member r }

/-- Imports of a unit. -/
def importsFrom : Nat → Parser (List Tree)
  | 0 => outOfRounds
  | n + 1 => do
    if ← isNext "import" then
      let kw ← take
      let isStatic ← accept "static"
      let q ← qualifiedName
      let q ← if ← accept "." then do
          let star ← expect "*"
          pure (Tree.select (markOf star) q "*")
        else pure q
      let _ ← expect ";"
      return .importDecl (markOf kw) isStatic q :: (← importsFrom n)
    else return []

/-- Type declarations to the end of the text. -/
def declarationsFrom (r : Rules) : Nat → Parser (List Tree)
  | 0 => outOfRounds
  | n + 1 => do
    if ← atEnd then return []
    if ← accept ";" then declarationsFrom r n
    else
      let (m, flags, annos) ← modifiers r
      let d ← typeDeclaration r m flags annos
      return d :: (← declarationsFrom r n)

/-- A compilation unit. -/
def compilationUnit (r : Rules) (file : String) : Parser Tree := do
  let start ← current
  let package ← if ← accept "package" then do
      let q ← qualifiedName
      let _ ← expect ";"
      pure q
    else pure .missing
  let imports ← rounds importsFrom
  let defs ← rounds (declarationsFrom r)
  return .unit (markOf start) file package imports defs

/-- An expression and nothing else. -/
def onlyExpression (r : Rules) : Parser Tree := do
  let e ← expression r
  let t ← current
  if t.isEnd then return e else unexpected t "end of file"

/-- Statements to the end of the text. -/
def allStatements (r : Rules) : Nat → Parser (List Tree)
  | 0 => outOfRounds
  | n + 1 => do
    if ← atEnd then return []
    let ss ← blockStatement r
    return ss ++ (← allStatements r n)

/-- Runs a rule of the grammar on the tokens of a text. -/
def run {α : Type} (rule : Rules → Parser α) (text : List Glyph) : Except LexFailure α := do
  let all ← tokens text
  let input : Input := ⟨all.dropLast, all.getLastD Token.atEnd⟩
  match rule (rules (all.length + 1)) input with
  | .ok (a, _) => .ok a
  | .error e => .error (.malformed e)

/-- The compilation unit that a text is. -/
def unit (file : String) (text : List Glyph) : Except LexFailure Tree :=
  run (compilationUnit · file) text

/-- The expression that a text is. -/
def expressionOf (text : List Glyph) : Except LexFailure Tree :=
  run onlyExpression text

/-- The statements that a text is. -/
def statementsOf (text : List Glyph) : Except LexFailure (List Tree) :=
  run (fun r => rounds (allStatements r)) text

end Weaver.Parse
