import Weaver.Generator.Element
/-!
Jumps that leave a statement.

A statement that is kept whole inside the dispatch loop of a generator may contain returns, breaks
and continues. Those that stay inside it are left alone; those that leave it have to become changes
of the state. `escapes` finds whether there is one that leaves, `Kept.redirect` replaces them.

Both walk statements in the same order and carry the labels in reach: a labeled statement brings its
label in and takes it out again behind it.
-/
set_option autoImplicit false

namespace Weaver.Generator

/-- The field that holds the number of the next state. -/
def stateField : String := "$state"

/-- Why a method body is no generator. -/
inductive Fault where
  | arguments
  | breakLabel (label : String)
  | continueLabel (label : String)
  | breakOutside
  | continueOutside
  | returnsValue
  | insideTry
  | insideSynchronized
  | insideSwitch
  | insideLabeled (label : String)
  | notAStatement
  | innerLoop (jump construct : String)
  | arrayType (name : String)
  | twoTypes (name : String)
  | hole
deriving Repr, DecidableEq

/-- The wording of a fault. -/
def Fault.message : Fault → String
  | arguments => "yield() takes exactly one argument"
  | breakLabel l => "break to label '" ++ l ++ "' cannot leave a loop that contains yield()"
  | continueLabel l => "continue to label '" ++ l ++ "' cannot leave a loop that contains yield()"
  | breakOutside => "break outside of a loop"
  | continueOutside => "continue outside of a loop"
  | returnsValue => "a method that contains yield() cannot return a value"
  | insideTry => "yield() cannot be used inside a try statement"
  | insideSynchronized => "yield() cannot be used inside a synchronized statement"
  | insideSwitch => "yield() cannot be used inside a switch statement"
  | insideLabeled l => "yield() cannot be used inside the labeled statement '" ++ l ++ "'"
  | notAStatement => "yield() can only be used as a statement"
  | innerLoop jump construct =>
    jump ++ " inside a loop nested in a " ++ construct ++
      " statement is not supported in a method that contains yield()"
  | arrayType n =>
    "the array initializer of '" ++ n ++
      "' needs an explicit array type in a method that contains yield()"
  | twoTypes n =>
    "variable '" ++ n ++ "' is declared with different types in a method that contains yield()"
  | hole => "runtime error"

/-- What surrounds a statement inside the one that is looked at. -/
structure Around where
  /-- There is a loop around. -/
  loop : Bool
  /-- There is a switch around. -/
  switch : Bool
deriving Repr, DecidableEq

namespace Around

/-- Nothing is around. -/
def nothing : Around := ⟨false, false⟩

def inLoop (a : Around) : Around := { a with loop := true }

def inSwitch (a : Around) : Around := { a with switch := true }

end Around

/-- The statements of a block; none where no block stands. -/
def blockStmts : Code → List Code
  | .block ss => ss
  | _ => []

mutual

/-- A return, or a break or continue that leaves the statement, is in it; and the labels in reach
behind it. -/
def escapes (a : Around) (labels : List String) : Code → Bool × List String
  | .returning _ | .returnDefault => (true, labels)
  | .breaking l =>
    (if l.isEmpty then !a.loop && !a.switch else !labels.contains l, labels)
  | .continuing l => (if l.isEmpty then !a.loop else !labels.contains l, labels)
  | .block ss => escapesAny a labels ss
  | .ifThen _ y n =>
    let (b, labels) := escapes a labels y
    if b then (true, labels) else escapes a labels n
  | .whileLoop _ b | .doLoop b _ | .forLoop _ _ _ b | .foreach _ _ b => escapes a.inLoop labels b
  | .switchOn _ cs => escapesAny a.inSwitch labels cs
  | .switchCase _ ss => escapesAny a labels ss
  | .labeled l b =>
    let (r, labels) := escapes a (l :: labels) b
    (r, labels.filter (· != l))
  | .synchronizedOn _ b => escapes a labels b
  | .tryCatch b cs f =>
    let (r, labels) := escapes a labels b
    if r then (true, labels)
    else
      let (r, labels) := escapesAny a labels cs
      if r then (true, labels) else escapes a labels f
  | .catchClause _ b => escapes a labels b
  | _ => (false, labels)

/-- One of the statements escapes. -/
def escapesAny (a : Around) (labels : List String) : List Code → Bool × List String
  | [] => (false, labels)
  | s :: ss =>
    let (b, labels) := escapes a labels s
    if b then (true, labels) else escapesAny a labels ss

end

/-- The statement has to be cut into states: it yields, or control leaves it. -/
def needsLowering (s : Code) : Bool :=
  containsYield s || (escapes .nothing [] s).1

/-- The three ways in which control can leave a kept statement. -/
inductive Leave where
  | finish
  | exit
  | next
deriving Repr, DecidableEq

/-- The states to which control goes: the end of the generator, and the exit and the next round of
the loop around, if there is one. -/
structure Targets where
  finish : Nat
  loop : Option (Nat × Nat)
deriving Repr, DecidableEq

/-- The statements that go to a state at once. -/
def goTo (state : Nat) : List Code :=
  [.assign (.named stateField) (.int state), .continuing ""]

namespace Kept

/-- What redirecting has found so far: the labels in reach and the jumps that leave. -/
structure Found where
  labels : List String
  leaves : List Leave

/-- Redirecting keeps track of what it finds and fails at the first fault. -/
abbrev Redirector := StateT Found (Except Fault)

/-- A jump to a state from inside the kept statement. Inside a loop it would only restart that
loop. -/
def leave (construct : String) (a : Around) (kind : Leave) (what : String) (state : Nat) :
    Redirector Code := do
  if a.loop then throw (.innerLoop what construct)
  modify fun f => { f with leaves := f.leaves ++ [kind] }
  return .block (goTo state)

/-- A break or continue without a label that may leave the kept statement. -/
def unlabeled (t : Targets) (construct : String) (a : Around) (kind : Leave) (what : String)
    (outside : Fault) : Redirector Code :=
  match t.loop with
  | none => throw outside
  | some (exit, next) =>
    leave construct a kind what (if kind == .exit then exit else next)

mutual

/-- The statement with the jumps that leave it replaced. -/
def redirect (t : Targets) (construct : String) (a : Around) : Code → Redirector Code
  | .returning e =>
    match e with
    | .missing => leave construct a .finish "return" t.finish
    | _ => throw .returnsValue
  | .returnDefault => leave construct a .finish "return" t.finish
  | .breaking l => do
    if l.isEmpty then
      if a.loop || a.switch then return .breaking l
      else unlabeled t construct a .exit "break" .breakOutside
    else if (← get).labels.contains l then return .breaking l
    else throw (.breakLabel l)
  | .continuing l => do
    if l.isEmpty then
      if a.loop then return .continuing l
      else unlabeled t construct a .next "continue" .continueOutside
    else if (← get).labels.contains l then return .continuing l
    else throw (.continueLabel l)
  | .block ss => do return .block (← redirectAll t construct a ss)
  | .ifThen c y n => do return .ifThen c (← redirect t construct a y) (← redirect t construct a n)
  | .whileLoop c b => do return .whileLoop c (← redirect t construct a.inLoop b)
  | .doLoop b c => do return .doLoop (← redirect t construct a.inLoop b) c
  | .forLoop i c u b => do return .forLoop i c u (← redirect t construct a.inLoop b)
  | .foreach v e b => do return .foreach v e (← redirect t construct a.inLoop b)
  | .switchOn e cs => do return .switchOn e (← redirectAll t construct a.inSwitch cs)
  | .switchCase p ss => do return .switchCase p (← redirectAll t construct a ss)
  | .labeled l b => do
    modify fun f => { f with labels := l :: f.labels }
    let b ← redirect t construct a b
    modify fun f => { f with labels := f.labels.filter (· != l) }
    return .labeled l b
  | .synchronizedOn e b => do return .synchronizedOn e (← redirect t construct a b)
  | .tryCatch b cs f => do
    let b ← redirect t construct a b
    let cs ← redirectAll t construct a cs
    return .tryCatch b cs (← redirect t construct a f)
  | .catchClause v b => do return .catchClause v (← redirect t construct a b)
  | s => return s

/-- The statements with the jumps that leave them replaced. -/
def redirectAll (t : Targets) (construct : String) (a : Around) :
    List Code → Redirector (List Code)
  | [] => return []
  | s :: ss => do
    let s ← redirect t construct a s
    return s :: (← redirectAll t construct a ss)

end

end Kept

/-- A statement to be kept with the jumps that leave it replaced, and how they leave it. -/
def keepStatement (t : Targets) (construct : String) (s : Code) :
    Except Fault (Code × List Leave) := do
  let (c, found) ← (Kept.redirect t construct .nothing s).run ⟨[], []⟩
  return (c, found.leaves)

/-- A `try` statement or one of its clauses has no block. -/
def hasOpenTry (s : Code) : Bool :=
  (s.visit fun c => !c.isStatement && c.kind != "Case" && c.kind != "Catch").any fun c =>
    match c with
    | .tryCatch .missing _ _ | .catchClause _ .missing => true
    | _ => false

end Weaver.Generator
