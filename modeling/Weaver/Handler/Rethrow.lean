import Weaver.Handler.Basic
import Weaver.Anno.Reading
import Weaver.Text.Name
/-!
Methods that convert exceptions.

All annotations of a method together give one `try` statement around its body, with a clause for
each exception type in the order in which they are written.
-/
set_option autoImplicit false

namespace Weaver.Handler

/-- Exceptions that are caught and thrown again as another exception. -/
structure Rethrown where
  /-- The types that are caught; all checked exceptions if there are none. -/
  caught : List String
  /-- The type that is thrown. -/
  thrownAs : String
  /-- The message that is thrown; none if it is empty. -/
  message : String

/-- What one annotation says. -/
def Rethrown.of (a : AnnoUse) : Except String Rethrown := do
  let caught ← a.readTexts "value"
  let thrownAs ← a.readText "as"
  return ⟨caught, thrownAs, ← a.readText "message"⟩

/-- The annotations on a method that speak of exceptions, nested ones in the place of the one they
are nested in. -/
def rethrowUses (u : SourceUnit) (m : Key) : List AnnoUse :=
  (u.annotations m).flatMap fun a =>
    if a.name == Known.rethrow then [a]
    else if a.name == Known.rethrows then a.nested "value"
    else []

/-- What annotations say; what cannot be read is reported. -/
def readRethrown (i : Invocation) : List AnnoUse → Weave (List Rethrown)
  | [] => return []
  | a :: as => do
    match Rethrown.of a with
    | .ok r => return r :: (← readRethrown i as)
    | .error message =>
      i.error message
      readRethrown i as

/-- The types that are caught. The empty name stands for runtime exceptions, which pass through. -/
def Rethrown.types (r : Rethrown) : List String :=
  if r.caught.isEmpty then ["", "java.lang.Exception"] else r.caught

/-- A message in which the parameters that it names stand for their values. -/
def formatted (message : String) (params : List String) : Code :=
  let (form, names) := Text.Reference.extract params message
  .format form (names.map .named)

/-- The clause that catches a type into a variable. -/
def Rethrown.clause (r : Rethrown) (params : List String) (type var : String) : Code :=
  if type.isEmpty then
    .catchClause (.param (.type "java.lang.RuntimeException") var) (.block [.throwing (.named var)])
  else
    let message := if r.message.isEmpty then [] else [formatted r.message params]
    .catchClause (.param (.type type) var)
      (.block [.throwing (.new (.type r.thrownAs) (message ++ [.named var]))])

/-- The clauses of a method, their variables numbered from one. -/
def rethrowClauses (rs : List Rethrown) (params : List String) : List Code :=
  (rs.flatMap fun r => r.types.map fun t => (r, t)).mapIdx fun n (r, t) =>
    r.clause params t ("$e" ++ toString (n + 1))

/-- A handler that converts exceptions. -/
def rethrowing (name : String) : Handler :=
  .onAnno name Priority.rethrow fun i _ => do
    match ← i.concreteMethod with
    | none => return none
    | some m =>
      if !(← Weave.once "rethrow" m) then return none
      let rs ← readRethrown i (rethrowUses (← Weave.unit) m)
      if !(← Invocation.sound) then return none
      return some do
        let u ← Weave.unit
        let params := (u.params m).map u.name
        return replacingBody m
          [.tryCatch (.block (u.statements m .none)) (rethrowClauses rs params) .missing]

def rethrow : Handler := rethrowing Known.rethrow

def rethrows : Handler := rethrowing Known.rethrows

end Weaver.Handler
