import Weaver.Parse.Basic
/-!
Names and types.
-/
set_option autoImplicit false

namespace Weaver.Parse

open Weaver.Source (Token)
open Weaver.Syntax (Tree TypeTag Bound)

/-- Reads further segments of a dotted name. -/
def dottedFrom : Nat → Tree → Parser Tree
  | 0, _ => outOfRounds
  | n + 1, e => do
    if (← isNext ".") && (← peek 1).isName then
      let _ ← take
      let t ← name
      dottedFrom n (.select (markOf t) e t.text)
    else return e

/-- A dotted name. -/
def qualifiedName : Parser Tree := do
  let t ← name
  rounds (dottedFrom · (.ident (markOf t) t.text))

/-- Pairs of brackets after a type. -/
def bracketsFrom : Nat → Tree → Parser Tree
  | 0, _ => outOfRounds
  | n + 1, e => do
    if (← isNext "[") && (← isAhead 1 "]") then
      let b ← take
      let _ ← take
      bracketsFrom n (.arrayType (markOf b) e)
    else return e

/-- A type or expression with the pairs of brackets after it. -/
def withBrackets (e : Tree) : Parser Tree :=
  rounds (bracketsFrom · e)

/-- A primitive type other than `void`, if the token names one. -/
def primitiveOf? (t : Token) : Option TypeTag :=
  if t.isWord then (TypeTag.ofKeyword? t.text).filter (· != .void) else none

/-- A type argument: a type or a wildcard. -/
def typeArgument (r : Rules) : Parser Tree := do
  if ← isNext "?" then
    let q ← take
    if ← accept "extends" then return .wildcard (markOf q) .extending (← r.type)
    else if ← accept "super" then return .wildcard (markOf q) .above (← r.type)
    else return .wildcard (markOf q) .unbounded .missing
  else r.type

/-- Type arguments without the angle brackets. -/
def typeArguments (r : Rules) : Parser (List Tree) :=
  rounds (commaSeparated (typeArgument r))

/-- Applies type arguments in angle brackets if any follow; an empty list is the diamond. -/
def applied (r : Rules) (e : Tree) : Parser Tree := do
  if ← isNext "<" then
    let t ← take
    let args ← if ← isNext ">" then pure [] else typeArguments r
    let _ ← expect ">"
    return .typeApply (markOf t) e args
  else return e

/-- Reads further segments of a class type. -/
def classTypeFrom (r : Rules) : Nat → Tree → Parser Tree
  | 0, _ => outOfRounds
  | n + 1, e => do
    if (← isNext ".") && (← peek 1).isName then
      let _ ← take
      let t ← name
      let e ← applied r (.select (markOf t) e t.text)
      classTypeFrom r n e
    else return e

/-- The name of a class with type arguments on any of its segments. -/
def classType (r : Rules) : Parser Tree := do
  let t ← name
  let e ← applied r (.ident (markOf t) t.text)
  rounds (classTypeFrom r · e)

/-- A type. -/
def type (r : Rules) : Parser Tree := do
  let t ← current
  match primitiveOf? t with
  | some tag =>
    let _ ← take
    withBrackets (.primitive (markOf t) tag)
  | none => withBrackets (← classType r)

/-- Types separated by commas. -/
def typeList (r : Rules) : Parser (List Tree) :=
  rounds (commaSeparated (type r))

/-- Further bounds of a type parameter. -/
def boundsFrom (r : Rules) : Nat → Parser (List Tree)
  | 0 => outOfRounds
  | n + 1 => do
    let t ← type r
    if ← accept "&" then return t :: (← boundsFrom r n) else return [t]

/-- A type parameter with its bounds. -/
def typeParameter (r : Rules) : Parser Tree := do
  let t ← name
  let bounds ← if ← accept "extends" then rounds (boundsFrom r) else pure []
  return .typeParam (markOf t) t.text bounds

/-- Type parameters in angle brackets, if any follow. -/
def typeParameters (r : Rules) : Parser (List Tree) := do
  if ← accept "<" then
    let params ← rounds (commaSeparated (typeParameter r))
    let _ ← expect ">"
    return params
  else return []

end Weaver.Parse
