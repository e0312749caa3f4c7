import Weaver.Syntax.Tree
/-!
Declarations by number.

The types, fields, methods and parameters of a unit, and the annotations on them, carry numbers, so
that they can be found again after the tree around them has changed. Declarations inside the bodies
of methods have none. Numbers are given once: what is added to a unit gets numbers that were not
used before.
-/
set_option autoImplicit false

namespace Weaver.Syntax

namespace Mark

/-- The mark with a number. -/
def withId (m : Mark) (id : Nat) : Mark := { m with id := id }

end Mark

namespace Tree

/-! ## Numbering -/

/-- Annotations with numbers from the given one on, and the next number. -/
def numberAnnotations (next : Nat) : List Tree → List Tree × Nat
  | [] => ([], next)
  | annoUse m t as :: rest =>
    let (rest, after) := numberAnnotations (next + 1) rest
    (annoUse (m.withId next) t as :: rest, after)
  | t :: rest =>
    let (rest, after) := numberAnnotations next rest
    (t :: rest, after)

/-- Modifiers whose annotations have numbers, and the next number. -/
def numberModifiers (next : Nat) : Tree → Tree × Nat
  | modifiers m f as =>
    let (as, after) := numberAnnotations next as
    (modifiers m f as, after)
  | t => (t, next)

mutual

/-- A declaration in which all declarations have numbers from the given one on, and the next
number. -/
def number (next : Nat) : Tree → Tree × Nat
  | unit m f p is ds =>
    let (ds, after) := numberAll next ds
    (unit m f p is ds, after)
  | classDecl m n ms tps e is ds =>
    let (ms, after) := numberModifiers (next + 1) ms
    let (ds, after) := numberAll after ds
    (classDecl (m.withId next) n ms tps e is ds, after)
  | methodDecl m n ms tps r ps ts b =>
    let (ms, after) := numberModifiers (next + 1) ms
    let (ps, after) := numberAll after ps
    (methodDecl (m.withId next) n ms tps r ps ts b, after)
  | varDecl m n ms t i =>
    let (ms, after) := numberModifiers (next + 1) ms
    (varDecl (m.withId next) n ms t i, after)
  | t => (t, next)

/-- Declarations with numbers, and the next number. -/
def numberAll (next : Nat) : List Tree → List Tree × Nat
  | [] => ([], next)
  | t :: ts =>
    let (t, after) := number next t
    let (ts, after) := numberAll after ts
    (t :: ts, after)

end

/-! ## Finding and changing -/

mutual

/-- The declaration with a number. -/
def find? (id : Nat) : Tree → Option Tree
  | unit _ _ _ _ ds => findIn? id ds
  | t@(classDecl m _ _ _ _ _ ds) => if m.id == id then some t else findIn? id ds
  | t@(methodDecl m _ _ _ _ ps _ _) => if m.id == id then some t else findIn? id ps
  | t@(varDecl m ..) => if m.id == id then some t else none
  | _ => none

/-- The declaration with a number in a list. -/
def findIn? (id : Nat) : List Tree → Option Tree
  | [] => none
  | t :: ts => (find? id t).orElse fun _ => findIn? id ts

end

mutual

/-- The tree with the declaration of a number changed. -/
def change (id : Nat) (f : Tree → Tree) : Tree → Tree
  | unit m n p is ds => unit m n p is (changeIn id f ds)
  | t@(classDecl m n ms tps e is ds) =>
    if m.id == id then f t else classDecl m n ms tps e is (changeIn id f ds)
  | t@(methodDecl m n ms tps r ps ts b) =>
    if m.id == id then f t else methodDecl m n ms tps r (changeIn id f ps) ts b
  | t@(varDecl m ..) => if m.id == id then f t else t
  | t => t

/-- The list with the declaration of a number changed. -/
def changeIn (id : Nat) (f : Tree → Tree) : List Tree → List Tree
  | [] => []
  | t :: ts => change id f t :: changeIn id f ts

end

/-! ## Parts of declarations -/

/-- The name that a declaration declares. -/
def declaredName : Tree → String
  | classDecl _ n .. | methodDecl _ n .. | varDecl _ n .. => n
  | _ => ""

/-- The modifiers of a declaration. -/
def mods : Tree → Tree
  | classDecl _ _ ms .. | methodDecl _ _ ms .. | varDecl _ _ ms .. => ms
  | _ => missing

/-- The members of a class or the declarations of a unit. -/
def defs : Tree → List Tree
  | classDecl _ _ _ _ _ _ ds | unit _ _ _ _ ds => ds
  | _ => []

/-- The parameters of a method. -/
def params : Tree → List Tree
  | methodDecl _ _ _ _ _ ps _ _ => ps
  | _ => []

/-- The type parameters of a class or method. -/
def typeParams : Tree → List Tree
  | classDecl _ _ _ tps .. | methodDecl _ _ _ tps .. => tps
  | _ => []

/-- The declared type of a variable. -/
def varType : Tree → Tree
  | varDecl _ _ _ t _ => t
  | _ => missing

/-- The result type of a method. -/
def resultType : Tree → Tree
  | methodDecl _ _ _ _ r _ _ _ => r
  | _ => missing

/-- The body of a method. -/
def body : Tree → Tree
  | methodDecl _ _ _ _ _ _ _ b => b
  | _ => missing

/-- The statements of a block. -/
def stmts : Tree → List Tree
  | block _ _ ss => ss
  | _ => []

/-- A constructor. -/
def isConstructor : Tree → Bool
  | methodDecl _ n .. => n == initName
  | _ => false

/-- A declaration with other modifiers. -/
def withMods (t ms : Tree) : Tree :=
  match t with
  | classDecl m n _ tps e is ds => classDecl m n ms tps e is ds
  | methodDecl m n _ tps r ps ts b => methodDecl m n ms tps r ps ts b
  | varDecl m n _ ty i => varDecl m n ms ty i
  | t => t

/-- A class or unit with other declarations in it. -/
def withDefs (t : Tree) (ds : List Tree) : Tree :=
  match t with
  | classDecl m n ms tps e is _ => classDecl m n ms tps e is ds
  | unit m f p is _ => unit m f p is ds
  | t => t

/-- Modifiers with other flags. -/
def withFlags (t : Tree) (f : Flags) : Tree :=
  match t with
  | modifiers m _ as => modifiers m f as
  | t => t

/-- Modifiers with other annotations. -/
def withAnnotations (t : Tree) (as : List Tree) : Tree :=
  match t with
  | modifiers m f _ => modifiers m f as
  | t => t

end Tree

end Weaver.Syntax
