import Weaver.SourceUnit.Registry
import Weaver.Syntax.Traverse
import Weaver.Anno.Value
import Weaver.Code.Lift
import Weaver.Template
/-!
A compilation unit and what can be asked of its elements.

A unit is a tree in which the declarations have numbers, with a registry of its elements. A
declaration that was taken out of the tree while elements still refer to it is kept aside. Names
are resolved as far as the imports, the types of the unit and the known types tell.
-/
set_option autoImplicit false

namespace Weaver

open Weaver.Source (Position)
open Weaver.Syntax (Tree Flags)

/-- A compilation unit under work. -/
structure SourceUnit where
  tree : Tree
  /-- Declarations that are no longer in the tree. -/
  detached : List Tree
  registry : Registry
  /-- The place that generated code is attributed to. -/
  source : Option Position
  /-- The next number of a declaration. -/
  next : Nat
deriving Inhabited

/-- Who wrote a member of a type. -/
inductive Existence where
  | absent
  | written
  | generated
deriving Repr, DecidableEq, Inhabited

/-- All cases, in the order of their numbers. -/
def Existence.all : List Existence := [absent, written, generated]

/-- The name of a case. -/
def Existence.name : Existence → String
  | absent => "not exists"
  | written => "exists by user"
  | generated => "exists by lombok"

namespace SourceUnit

/-- The unit of a tree. -/
def ofTree (t : Tree) : SourceUnit :=
  let (t, next) := t.number 1
  ⟨t, [], Registry.ofUnit t, none, next⟩

/-! ## The unit -/

/-- The name of the file. -/
def file (u : SourceUnit) : String :=
  match u.tree with
  | .unit _ f .. => f
  | _ => ""

/-- The name of the package; empty for the unnamed one. -/
def package (u : SourceUnit) : String :=
  match u.tree with
  | .unit _ _ p _ _ => p.qualifiedName?.getD ""
  | _ => ""

/-- The imports. -/
def imports (u : SourceUnit) : List Tree :=
  match u.tree with
  | .unit _ _ _ is _ => is
  | _ => []

/-- The imported names, each with whether the import is static. -/
def importedNames (u : SourceUnit) : List (Bool × String) :=
  u.imports.filterMap fun i => match i with
    | .importDecl _ s n => n.qualifiedName?.map fun q => (s, q)
    | _ => none

/-- The types, nested ones included, each before the types in it. -/
def types (u : SourceUnit) : List Key := u.registry.types

/-! ## Elements -/

/-- The declaration of an element. -/
def decl (u : SourceUnit) (k : Key) : Tree :=
  match u.registry.node? k with
  | none => .missing
  | some n =>
    if n.kind == .unit then u.tree
    else match u.tree.find? n.decl with
      | some t => t
      | none => (u.detached.findSome? (·.find? n.decl)).getD .missing

/-- The kind of the node of an element. -/
def nodeKind (u : SourceUnit) (k : Key) : NodeKind :=
  ((u.registry.node? k).map (·.kind)).getD .unit

/-- The type around an element, or around the method it is a parameter of. -/
def typeAround? (u : SourceUnit) (k : Key) : Option Key :=
  (u.registry.around k).find? fun p => u.nodeKind p == .type

/-- The name of an element. A constructor has the name of its class. -/
def name (u : SourceUnit) (k : Key) : String :=
  let d := u.decl k
  if d.isConstructor then
    match u.registry.parent? k with
    | some p => (u.decl p).declaredName
    | none => ""
  else d.declaredName

/-- The place of an element. -/
def pos (u : SourceUnit) (k : Key) : Position := (u.decl k).pos

/-- The modifiers of an element. -/
def flags (u : SourceUnit) (k : Key) : Flags := (u.decl k).mods.flags

/-- The modifiers of an element that generated code can have. -/
def modifiers (u : SourceUnit) (k : Key) : Flags := (u.flags k).forCode

/-- The kind of an element as annotations see it. -/
def elementKind (u : SourceUnit) (k : Key) : ElementKind :=
  match u.nodeKind k with
  | .field => .field
  | .method => if (u.decl k).isConstructor then .constructor else .method
  | .param => .parameter
  | _ => .type

/-! ## Types -/

/-- The type around a nested type. -/
def outer? (u : SourceUnit) (k : Key) : Option Key :=
  (u.registry.parent? k).filter fun p => u.nodeKind p == .type

/-- The name of a type with the types around it and the package. -/
def qualifiedName (u : SourceUnit) (k : Key) : String :=
  (u.registry.around k).foldl
    (fun n p => match u.decl p with
      | .classDecl _ c .. => c ++ "." ++ n
      | .unit .. => if u.package.isEmpty then n else u.package ++ "." ++ n
      | _ => n)
    (u.name k)

def isEnum (u : SourceUnit) (k : Key) : Bool := (u.flags k).meets .enumFlag

def isAnnoType (u : SourceUnit) (k : Key) : Bool := (u.flags k).meets .annotationFlag

/-- An interface that is no annotation type. -/
def isInterface (u : SourceUnit) (k : Key) : Bool :=
  (u.flags k).meets .interfaceFlag && !u.isAnnoType k

/-- A class, not an interface, enumeration or annotation type. -/
def isClass (u : SourceUnit) (k : Key) : Bool :=
  !u.isInterface k && !u.isEnum k && !u.isAnnoType k

def hasSuperclass (u : SourceUnit) (k : Key) : Bool :=
  match u.decl k with
  | .classDecl _ _ _ _ e _ _ => !e.isMissing
  | _ => false

/-- The type parameters of a type or method as code. -/
def typeParams (u : SourceUnit) (k : Key) : List Code :=
  (u.decl k).typeParams.map Code.liftTypeParam

def fields (u : SourceUnit) (k : Key) : List Key := u.registry.childrenOf k .field

/-- The methods and constructors. -/
def methods (u : SourceUnit) (k : Key) : List Key := u.registry.childrenOf k .method

/-- The parameters of a method. -/
def params (u : SourceUnit) (k : Key) : List Key := u.registry.childrenOf k .param

/-- The member type with a simple name. -/
def memberType? (u : SourceUnit) (k : Key) (name : String) : Option Key :=
  (u.registry.childrenOf k .type).find? fun c => (u.decl c).declaredName == name

/-- Who wrote the first of some elements that is declared with a name. -/
def existenceIn (u : SourceUnit) (members : List Key) (name : String) : Existence :=
  match members.find? fun c => (u.decl c).declaredName == name with
  | some c => if (u.decl c).mark.generated then .generated else .written
  | none => .absent

/-- Who wrote the field with a name. -/
def fieldExistence (u : SourceUnit) (k : Key) (name : String) : Existence :=
  u.existenceIn (u.fields k) name

/-- Who wrote the method with a name. Constructors do not count. -/
def methodExistence (u : SourceUnit) (k : Key) (name : String) : Existence :=
  u.existenceIn (u.methods k) name

/-! ## Names -/

/-- A type that is known without its declaration. -/
def isKnownType (name : String) : Bool :=
  (AnnoType.ofName? name).isSome || (Template.library? name).isSome ||
    name == Known.application || name == Known.jvmAgent || name == Known.yieldClass

/-- The imports of single types. -/
def singleImports (u : SourceUnit) : List String :=
  u.importedNames.filterMap fun (s, q) => if s || q.endsWith ".*" then none else some q

/-- The packages that are imported whole. -/
def wholeImports (u : SourceUnit) : List String :=
  u.importedNames.filterMap fun (s, q) =>
    if !s && q.endsWith ".*" then some (q.dropEnd 2).toString else none

/-- The qualified name that a written type name refers to: by an import of a single type, as a type
of the unit, or as a known type of a package that is imported whole. A name of which nothing is
known stays as it is. -/
def resolve (u : SourceUnit) (name : String) : String :=
  let (first, rest) := Text.splitFirst name
  let imported := u.singleImports.find? fun q => q == first || q.endsWith ("." ++ first)
  match imported with
  | some q => q ++ rest
  | none =>
    match u.types.find? fun k => (u.outer? k).isNone && u.name k == first with
    | some k => u.qualifiedName k ++ rest
    | none =>
      match u.wholeImports.find? fun p => isKnownType (p ++ "." ++ name) with
      | some p => p ++ "." ++ name
      | none => name

/-- A written type name refers to the type with a qualified name. -/
def refersTo (u : SourceUnit) (written qualified : String) : Bool :=
  written == qualified || u.resolve written == qualified

/-- A type tree refers to the type with a qualified name. -/
def treeRefersTo (u : SourceUnit) (t : Tree) (qualified : String) : Bool :=
  t.qualifiedName?.any fun q => u.refersTo q qualified

/-- A type lists an interface after `implements`. -/
def implements (u : SourceUnit) (k : Key) (name : String) : Bool :=
  match u.decl k with
  | .classDecl _ _ _ _ _ is _ => is.any fun i => u.treeRefersTo i name
  | _ => false

/-- The unit imports a static member of a type, by its name or with all others. -/
def importsStatic (u : SourceUnit) (owner member : String) : Bool :=
  u.importedNames.any fun (s, q) => s && (q == owner ++ "." ++ member || q == owner ++ ".*")

/-! ## Annotations -/

/-- The annotations of an element whose types are known. -/
def annotations (u : SourceUnit) (k : Key) : List AnnoUse :=
  (u.decl k).mods.annotations.filterMap (AnnoUse.ofTree? u.resolve)

/-- The first annotation of an element with a qualified name. -/
def annotated? (u : SourceUnit) (k : Key) (name : String) : Option AnnoUse :=
  (u.annotations k).find? (·.name == name)

/-! ## Methods -/

def isConstructor (u : SourceUnit) (k : Key) : Bool := (u.decl k).isConstructor

def isStatic (u : SourceUnit) (k : Key) : Bool := (u.flags k).meets .staticFlag

/-- A method without a body, or declared as abstract. -/
def isAbstract (u : SourceUnit) (k : Key) : Bool :=
  (u.decl k).body.isMissing || (u.flags k).meets .abstractFlag

/-- A statement that calls another constructor. -/
def isConstructorCall : Tree → Bool
  | .exec _ (.call _ _ (.ident _ n) _) => n == "this" || n == "super"
  | _ => false

/-- The call of another constructor at the beginning of a constructor, if there is one, and the
other statements of a method. -/
def bodyParts (d : Tree) : List Tree × List Tree :=
  match d.body.stmts with
  | s :: ss => if d.isConstructor && isConstructorCall s then ([s], ss) else ([], s :: ss)
  | [] => ([], [])

/-- A method with a body in which there is nothing to do. -/
def isEmpty (u : SourceUnit) (k : Key) : Bool :=
  let d := u.decl k
  !d.body.isMissing && (bodyParts d).2.isEmpty

/-- The result type of a method; that of a constructor is void. -/
def returnType (u : SourceUnit) (k : Key) : Code :=
  let d := u.decl k
  if d.isConstructor then .type "void" else Code.liftType d.resultType

/-- The result type is the named one, written in full, by its simple name or by an import. -/
def returns (u : SourceUnit) (k : Key) (name : String) : Bool :=
  let d := u.decl k
  !d.isConstructor && d.resultType.qualifiedName?.any fun q =>
    q == name || q == Text.lastSegment name || u.resolve q == name

/-- The exceptions that a method declares. -/
def thrown (u : SourceUnit) (k : Key) : List Code :=
  match u.decl k with
  | .methodDecl _ _ _ _ _ _ ts _ => ts.map Code.liftType
  | _ => []

/-- The body of a method as code, without the call of another constructor. -/
def statements (u : SourceUnit) (k : Key) (r : Relocation) : List Code :=
  Code.liftStmts r (bodyParts (u.decl k)).2

/-- A node calls a static method of a type, by its simple name if that is imported. -/
def isCallOf (u : SourceUnit) (owner method : String) (imported : Bool) : Tree → Bool
  | .call _ _ (.ident _ n) _ => imported && n == method
  | .call _ _ (.select _ q n) _ => n == method && u.treeRefersTo q owner
  | _ => false

/-- A class stands here. -/
def isClassDecl : Tree → Bool
  | .classDecl .. => true
  | _ => false

/-- The body of a method, apart from classes in it, calls the named static method. -/
def calls (u : SourceUnit) (k : Key) (name : String) : Bool :=
  match Text.qualifier? name with
  | none => false
  | some owner =>
    let method := Text.lastSegment name
    let imported := u.importsStatic owner method
    ((u.decl k).body.visit isClassDecl).any (u.isCallOf owner method imported)

/-! ## Fields and parameters -/

/-- The declared type of a field or parameter. -/
def varType (u : SourceUnit) (k : Key) : Code := Code.liftType (u.decl k).varType

/-- The value of a field, if it has one. -/
def initializer? (u : SourceUnit) (k : Key) : Option Code :=
  match u.decl k with
  | .varDecl _ _ _ _ .missing => none
  | .varDecl _ _ _ _ i => some (.hostExpr i)
  | _ => none

/-- The position of a parameter in its method, counted from zero; -1 if it is no longer one. -/
def paramIndex (u : SourceUnit) (k : Key) : Int :=
  let siblings := ((u.registry.parent? k).bind u.registry.node?).elim [] (·.children)
  let number (c : Key) : Option Nat := (u.registry.node? c).map (·.decl)
  match siblings.findIdx? fun c => number c == number k with
  | some i => i
  | none => -1

/-! ## Templates -/

/-- A method that a template can have as its only one. -/
def isTemplateMethod (d : Tree) : Bool :=
  d.isMethod && !d.isConstructor && (d.body.isMissing || d.mods.flags.meets .abstractFlag)

/-- The name of a type parameter. -/
def typeParamName : Tree → String
  | .typeParam _ n _ => n
  | _ => ""

/-- A type as a template, with its member types down to a depth. -/
def templateTo (u : SourceUnit) : Nat → Key → Template
  | 0, _ => .empty
  | depth + 1, k =>
    let d := u.decl k
    let inInterface := (u.outer? k).any u.isInterface
    let members := d.defs.filterMap fun m =>
      if isClassDecl m then
        (u.registry.childrenOf k .type).find? fun c =>
          (u.registry.node? c).any (·.decl == m.id)
      else none
    let (method, params, result) : String × List String × String :=
      match d.defs.filter isTemplateMethod with
      | [m] => (m.declaredName, m.params.map fun p => p.varType.print, m.resultType.print)
      | _ => ("", [], "")
    .mk (u.qualifiedName k) (d.typeParams.map typeParamName) method params result
      (inInterface || d.mods.flags.meets .publicFlag)
      (u.isInterface k)
      (inInterface || d.mods.flags.meets .staticFlag || u.isInterface k || (u.outer? k).isNone)
      (members.map (u.templateTo depth))

/-- A type as a template. -/
def template (u : SourceUnit) (k : Key) : Template :=
  u.templateTo u.registry.nodes.size k

/-- The template library with a name: a type of the unit, or a library that is always there. -/
def template? (u : SourceUnit) (name : String) : Option Template :=
  let named := u.types.find? fun k =>
    u.name k == name || u.qualifiedName k == name || u.qualifiedName k == u.resolve name
  match named with
  | some k => some (u.template k)
  | none =>
    match Template.library? name with
    | some t => some t
    | none => Template.library? (u.resolve name)

end SourceUnit

end Weaver
