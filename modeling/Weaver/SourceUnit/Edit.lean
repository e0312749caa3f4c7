import Weaver.SourceUnit.Basic
import Weaver.Code.Lower
/-!
Changes to a unit.

Members are added to a type, taken from it or replaced in it. Code that is added is attributed to
the current source, or to the element it is added to if there is none. A change shows in what an
element says of itself at once; new members are elements only after the type is registered anew. A
change that cannot be carried out leaves what was done before it.
-/
set_option autoImplicit false

namespace Weaver

open Weaver.Source (Position)
open Weaver.Syntax (Tree Flags Mark)

/-- A change to a unit, which can break off. -/
abbrev Edit := ExceptT Abort (StateM SourceUnit)

namespace SourceUnit

/-- Changes the declaration of an element. -/
def changeDecl (u : SourceUnit) (k : Key) (f : Tree → Tree) : SourceUnit :=
  match u.registry.node? k with
  | none => u
  | some n =>
    { u with
      tree := u.tree.change n.decl f
      detached := Tree.changeIn n.decl f u.detached }

/-- The scope of code that is added to a class and, if one is given, a method of it. -/
def scope (u : SourceUnit) (fallback : Position) (className : String) (host : Tree) :
    Code.Scope :=
  .of ⟨u.source.getD fallback, true, 0⟩ className host

/-- The scope of members that are added to a type. -/
def typeScope (u : SourceUnit) (k : Key) : Code.Scope :=
  u.scope (u.pos k) (u.name k) .missing

/-- The scope of code that is added to a method. -/
def methodScope (u : SourceUnit) (k : Key) : Code.Scope :=
  let owner := ((u.registry.parent? k).map u.name).getD ""
  u.scope (u.pos k) owner (u.decl k)

end SourceUnit

namespace Edit

/-- Lowers code in a scope. -/
def lower (s : Code.Scope) (p : Code.Place) (c : Code) : Edit Tree :=
  ExceptT.mk (pure (c.lower s p))

/-- Gives numbers to a new declaration. -/
def adopt (t : Tree) : Edit Tree := do
  let u ← get
  let (t, next) := t.number u.next
  set { u with next := next }
  return t

/-- Changes the declaration of an element. -/
def change (k : Key) (f : Tree → Tree) : Edit Unit :=
  modify fun u => u.changeDecl k f

/-- Changes the members of a type. -/
def changeDefs (k : Key) (f : List Tree → List Tree) : Edit Unit :=
  change k fun d => d.withDefs (f d.defs)

/-! ## The unit -/

/-- Attributes generated code to an annotation or, without one, to an element. -/
def attributeTo (anno : Option AnnoUse) (element : Option Key) : Edit Unit :=
  modify fun u => { u with source := match anno, element with
    | some a, _ => some a.pos
    | none, some k => some (u.pos k)
    | none, none => none }

/-- Registers the elements inside an element anew. -/
def rebuild (k : Key) : Edit Unit :=
  modify fun u => { u with registry := u.registry.rebuild k (u.decl k) }

/-- Removes the imports of a name. -/
def removeImport (name : String) : Edit Unit :=
  modify fun u => match u.tree with
    | .unit m f p is ds =>
      let keeps (i : Tree) : Bool := match i with
        | .importDecl _ _ n => n.qualifiedName? != some name
        | _ => true
      { u with tree := .unit m f p (is.filter keeps) ds }
    | _ => u

/-! ## Types -/

/-- A member that stands before new fields. -/
def isLeading : Tree → Bool
  | t@(.varDecl m ..) => t.isEnumConstant || m.generated
  | _ => false

/-- Members with a new field after the constants and the fields that were generated before. -/
def withField (field : Tree) (defs : List Tree) : List Tree :=
  defs.takeWhile isLeading ++ field :: defs.dropWhile isLeading

/-- Adds a field to a type. -/
def injectField (k : Key) (field : Code) : Edit Unit := do
  let t ← lower ((← get).typeScope k) .part field
  let t ← adopt t
  changeDefs k (withField t)

/-- Adds a declaration at the end of a type. -/
def injectMember (k : Key) (member : Code) : Edit Unit := do
  let t ← lower ((← get).typeScope k) .part member
  let t ← adopt t
  changeDefs k (· ++ [t])

/-- Adds a method or constructor at the end of a type. -/
def injectMethod (k : Key) (method : Code) : Edit Unit := do
  if method.isMissing then throw .hole
  if !method.isMethod then
    throw (.promise ("javac: not a method declaration: " ++ method.kind))
  injectMember k method

/-- Adds a type at the end of a type. -/
def injectType (k : Key) (type : Code) : Edit Unit := injectMember k type

/-- A member is the method with a number. -/
def isMethodNumbered (id : Nat) (member : Tree) : Bool := member.isMethod && member.id == id

/-- Takes a method from a type. -/
def removeMethod (k method : Key) : Edit Unit := do
  let d := (← get).decl method
  let t := (← get).decl k
  if d.isMethod && SourceUnit.isClassDecl t && t.defs.any (isMethodNumbered d.id) then
    changeDefs k (·.filter fun m => !isMethodNumbered d.id m)
    modify fun u => { u with detached := d :: u.detached }

/-- Takes an interface from those that a type implements. -/
def removeInterface (k : Key) (name : String) : Edit Unit :=
  modify fun u => u.changeDecl k fun d => match d with
    | .classDecl m n ms tps e is ds =>
      .classDecl m n ms tps e (is.filter fun i => !u.treeRefersTo i name) ds
    | d => d

/-- Members with a new constant after the constants that are there. -/
def withConstant (constant : Tree) (defs : List Tree) : List Tree :=
  defs.takeWhile (·.isEnumConstant) ++ constant :: defs.dropWhile (·.isEnumConstant)

/-- The modifiers of a class that becomes an enumeration. -/
def enumFlags (f : Flags) : Flags :=
  (f.union .enumFlag).without (Flags.finalFlag.union .abstractFlag)

/-- Adds constants to an enumeration. -/
def addConstants (k : Key) (s : Code.Scope) : List Code → Edit Unit
  | [] => return
  | c :: cs => do
    let t ← lower s .part c
    let t ← adopt t
    changeDefs k (withConstant t)
    addConstants k s cs

/-- Makes a class an enumeration with further constants. -/
def makeEnum (k : Key) (constants : List Code) : Edit Unit := do
  change k fun d => match d with
    | .classDecl m n ms tps e is ds =>
      .classDecl m n (ms.withFlags (enumFlags ms.flags)) tps e is ds
    | d => d
  let u ← get
  addConstants k { u.typeScope k with owner := some (u.name k) } constants

/-! ## Methods -/

/-- The annotation that keeps a compiler from warning about generated code. -/
def suppressAll : Code :=
  .annoUse (.type "java.lang.SuppressWarnings") [""] [.text "all"]

/-- Suppresses all warnings about a method, unless some are suppressed already. -/
def suppressWarnings (k : Key) (s : Code.Scope) : Edit Unit := do
  let u ← get
  let isSuppression (a : Tree) : Bool := match a with
    | .annoUse _ t _ => u.treeRefersTo t "java.lang.SuppressWarnings"
    | _ => false
  let ms := (u.decl k).mods
  if !ms.annotations.any isSuppression then
    let a ← lower s .part suppressAll
    let (as, next) := Tree.numberAnnotations u.next [a]
    modify fun u => { u with next := next }
    change k fun d => d.withMods (d.mods.withAnnotations (d.mods.annotations ++ as))

/-- A method with other statements. A method without a body gets one. -/
def withStmts (m : Mark) (stmts : List Tree) : Tree → Tree
  | .methodDecl k n ms tps r ps ts b =>
    let body := match b with
      | .block bm f _ => Tree.block bm f stmts
      | _ => .block m .empty stmts
    .methodDecl k n ms tps r ps ts body
  | t => t

/-- Replaces the statements of a method, apart from the call of another constructor. -/
def replaceBody (k : Key) (stmts : List Code) : Edit Unit := do
  let u ← get
  let s := u.methodScope k
  let ts ← ExceptT.mk (pure (Code.lowerAll s .statement stmts))
  let call := (SourceUnit.bodyParts (u.decl k)).1
  change k (withStmts s.mark (call ++ ts))
  suppressWarnings k s

/-- A method with the declaration of another one. It keeps its number. -/
def withMethod : Tree → Tree → Tree
  | .methodDecl m n ms tps r ps ts b, .methodDecl k .. =>
    .methodDecl (m.withId k.id) n ms tps r ps ts b
  | _, d => d

/-- Replaces the whole declaration of a method in its place. -/
def replaceWith (k : Key) (method : Code) : Edit Unit := do
  let u ← get
  let t ← lower (u.methodScope k) .part method
  let t ← adopt t
  let old := u.decl k
  change k (withMethod t)
  modify fun u => { u with detached := old.params ++ u.detached }

/-- A method with another exception. -/
def withThrown (t : Tree) : Tree → Tree
  | .methodDecl k n ms tps r ps ts b => .methodDecl k n ms tps r ps (ts ++ [t]) b
  | d => d

/-- The exceptions that a method declares, as they are written. -/
def thrownTexts : Tree → List String
  | .methodDecl _ _ _ _ _ _ ts _ => ts.map Tree.print
  | _ => []

/-- Adds exceptions to those that a method declares, unless they are there already. -/
def addThrown (k : Key) : List Code → Edit Unit
  | [] => return
  | c :: cs => do
    let u ← get
    let t ← lower (u.methodScope k) .part c
    if !(thrownTexts (u.decl k)).contains t.print then change k (withThrown t)
    addThrown k cs

/-- Sets the modifiers that generated code can have and keeps the others. -/
def setModifiers (k : Key) (f : Flags) : Edit Unit :=
  change k fun d => d.withMods (d.mods.withFlags ((d.mods.flags.without .inCode).union f.forCode))

/-! ## Fields and parameters -/

/-- Gives a parameter another name. Uses of it stay as they are. -/
def rename (k : Key) (name : String) : Edit Unit :=
  change k fun d => match d with
    | .varDecl m _ ms t i => .varDecl m name ms t i
    | d => d

/-- Makes a parameter final. -/
def makeFinal (k : Key) : Edit Unit :=
  change k fun d => d.withMods (d.mods.withFlags (d.mods.flags.union .finalFlag))

/-- Takes its value from a field. -/
def removeInitializer (k : Key) : Edit Unit :=
  change k fun d => match d with
    | .varDecl m n ms t _ => .varDecl m n ms t .missing
    | d => d

/-- Takes an annotation from an element. -/
def removeAnno (k : Key) (anno : AnnoUse) : Edit Unit :=
  change k fun d =>
    d.withMods (d.mods.withAnnotations (d.mods.annotations.filter (·.id != anno.host)))

end Edit

end Weaver
