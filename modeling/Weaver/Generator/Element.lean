import Weaver.Code.Basic
/-!
What a generator yields: calls of `yield` and the type of the elements.
-/
set_option autoImplicit false

namespace Weaver.Generator

/-- The type of the elements of an iterator type: its type argument, the bound of a wildcard, or
objects of any type. -/
def elementType : Code → Code
  | .typeRef _ [.wildcard .extending .missing] _ => Code.objectType
  | .typeRef _ [.wildcard .extending t] _ => t
  | .typeRef _ [.wildcard ..] _ => Code.objectType
  | .typeRef _ [a] _ => if a.isType then a else Code.objectType
  | _ => Code.objectType

/-- A call that yields an element: of the method `yield`, unqualified or of the class `Yield`. -/
def isYield : Code → Bool
  | .call receiver "yield" _ _ =>
    match receiver with
    | .missing => true
    | .named n => n == "Yield" || n == "lombok.Yield"
    | _ => false
  | _ => false

/-- A yield is somewhere in the code. -/
def containsYield (c : Code) : Bool :=
  (c.visit fun _ => false).any isYield

/-- A yield is somewhere in the statements. -/
def anyYield (stmts : List Code) : Bool :=
  stmts.any containsYield

end Weaver.Generator
