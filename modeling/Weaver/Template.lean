import Weaver.Text.Name
/-!
Templates for function objects.

A method can be turned into objects of a type with a single method. The types to choose from are
the members of a library, and of those the static ones are searched in turn. There is one library
that is always there, with interfaces for up to eight arguments.
-/
set_option autoImplicit false

namespace Weaver

/-- A type with, possibly, a single abstract method. -/
inductive Template where
  | mk (name : String) (typeParams : List String) (method : String) (paramTypes : List String)
      (returnType : String) (isPublic isInterface isStatic : Bool) (members : List Template)
deriving Inhabited

namespace Template

def name : Template → String
  | mk n .. => n

def typeParams : Template → List String
  | mk _ tps .. => tps

/-- The name of the single abstract method; empty if there is none. -/
def method : Template → String
  | mk _ _ m .. => m

def paramTypes : Template → List String
  | mk _ _ _ ps .. => ps

def returnType : Template → String
  | mk _ _ _ _ r .. => r

def isPublic : Template → Bool
  | mk _ _ _ _ _ p .. => p

def isInterface : Template → Bool
  | mk _ _ _ _ _ _ i .. => i

def isStatic : Template → Bool
  | mk _ _ _ _ _ _ _ s _ => s

def members : Template → List Template
  | mk _ _ _ _ _ _ _ _ ms => ms

/-- The template that stands for none. -/
def empty : Template := mk "" [] "" [] "" false false false []

/-- The interface of functions with the given number of arguments. -/
def ofArity (n : Nat) : Template :=
  let args := (List.range n).map fun i => "T" ++ toString (i + 1)
  mk ("lombok.Functions.Function" ++ toString n) (args ++ ["R"]) "apply" args "R" true true true []

/-- The library that is always there. -/
def functions : Template :=
  mk "lombok.Functions" [] "" [] "" true false false ((List.range 9).map ofArity)

/-- The library with a qualified or simple name. -/
def library? (name : String) : Option Template :=
  if name == functions.name || name == "Functions" then some functions else none

/-- The type parameters are the types of the arguments followed by the type of the result. -/
def isGenericOverSignature (t : Template) : Bool :=
  t.paramTypes ++ [t.returnType] == t.typeParams

/-- A public interface with one method that is generic over its whole signature, of the given
number of types. -/
def fits (arity : Nat) (t : Template) : Bool :=
  t.isPublic && t.isInterface && t.method != "" && t.typeParams.length == arity &&
    t.isGenericOverSignature

mutual

/-- The templates that fit, of a library and its static members. -/
def fitting (arity : Nat) : Template → List Template
  | t@(mk _ _ _ _ _ _ _ _ ms) =>
    (if t.fits arity then [t] else []) ++ fittingMembers arity ms

/-- The templates that fit, of static members. -/
def fittingMembers (arity : Nat) : List Template → List Template
  | [] => []
  | t@(mk ..) :: ts =>
    (if t.isStatic then fitting arity t else []) ++ fittingMembers arity ts

end

end Template

end Weaver
