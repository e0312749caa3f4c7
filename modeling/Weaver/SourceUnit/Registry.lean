import Weaver.Syntax.Declaration
import Weaver.Syntax.Print
/-!
The registry of the elements of a unit.

Types, fields, methods and parameters are elements. Each is registered under a key, with the number
of its declaration, the key of the element around it and the keys of the elements in it. What an
element says of itself is read from its declaration and always current; which elements are in it is
what was registered, until it is registered anew. Keys are never reused, so an element that was
registered before stays what it was, even if the element around it has been registered anew.
-/
set_option autoImplicit false

namespace Weaver

open Weaver.Syntax (Tree)

/-- The kinds of elements; the unit is the outermost one. -/
inductive NodeKind where
  | unit
  | type
  | field
  | method
  | param
deriving Repr, DecidableEq, Inhabited

/-- All kinds, in the order of their numbers. -/
def NodeKind.all : List NodeKind := [unit, type, field, method, param]

/-- The name of a kind. -/
def NodeKind.name : NodeKind → String
  | unit => "unit"
  | type => "type"
  | field => "field"
  | method => "method"
  | param => "param"

/-- The key of a registered element. -/
abbrev Key := Nat

/-- A registered element. -/
structure Node where
  kind : NodeKind
  /-- The number of the declaration. -/
  decl : Nat
  parent : Option Key
  children : List Key
deriving Repr, DecidableEq, Inhabited

/-- Nodes to be added to a registry, and which of them are the outermost. -/
structure Growth where
  nodes : List Node
  keys : List Key

namespace Growth

/-- No nodes. -/
def none : Growth := ⟨[], []⟩

/-- One growth after another. -/
def append (a b : Growth) : Growth := ⟨a.nodes ++ b.nodes, a.keys ++ b.keys⟩

/-- A node above what grows in it; the node has the first key. -/
def below (key parent : Key) (kind : NodeKind) (decl : Nat) (inner : Growth) : Growth :=
  ⟨⟨kind, decl, some parent, inner.keys⟩ :: inner.nodes, [key]⟩

/-- The nodes of the parameters of a method. -/
def ofParams (next parent : Key) : List Tree → Growth
  | [] => none
  | p :: ps =>
    append (below next parent .param p.id none) (ofParams (next + 1) parent ps)

mutual

/-- The nodes of a member of a class or a declaration of a unit. Enumeration constants and
initializers have none. -/
def ofMember (next parent : Key) : Tree → Growth
  | .classDecl m _ _ _ _ _ ds => below next parent .type m.id (ofMembers (next + 1) next ds)
  | .methodDecl m _ _ _ _ ps _ _ => below next parent .method m.id (ofParams (next + 1) next ps)
  | t@(.varDecl m ..) => if t.isEnumConstant then none else below next parent .field m.id none
  | _ => none

/-- The nodes of the members of a class. -/
def ofMembers (next parent : Key) : List Tree → Growth
  | [] => none
  | d :: ds =>
    let first := ofMember next parent d
    append first (ofMembers (next + first.nodes.length) parent ds)

end

/-- The nodes inside a declaration. -/
def inside (next parent : Key) : Tree → Growth
  | .unit _ _ _ _ ds => ofMembers next parent (ds.filter fun d => d.kind == "ClassDecl")
  | .classDecl _ _ _ _ _ _ ds => ofMembers next parent ds
  | .methodDecl _ _ _ _ _ ps _ _ => ofParams next parent ps
  | _ => none

end Growth

/-- A registry of elements; the unit has the key zero. -/
structure Registry where
  nodes : Array Node
deriving Repr, DecidableEq, Inhabited

namespace Registry

/-- The element with a key. -/
def node? (r : Registry) (k : Key) : Option Node := r.nodes[k]?

/-- Registers the elements inside an element anew, from its declaration. -/
def rebuild (r : Registry) (k : Key) (decl : Tree) : Registry :=
  let grown := Growth.inside r.nodes.size k decl
  ⟨(r.nodes.modify k fun n => { n with children := grown.keys }) ++ grown.nodes.toArray⟩

/-- The registry of a unit. -/
def ofUnit (t : Tree) : Registry :=
  rebuild ⟨#[⟨.unit, 0, none, []⟩]⟩ 0 t

/-- The keys of the elements of a kind in an element. -/
def childrenOf (r : Registry) (k : Key) (kind : NodeKind) : List Key :=
  match r.node? k with
  | some n => n.children.filter fun c => (r.node? c).any (·.kind == kind)
  | none => []

/-- The element around an element. -/
def parent? (r : Registry) (k : Key) : Option Key :=
  (r.node? k).bind (·.parent)

/-- The types in an element, each before the types in it, down to a depth. -/
def typesTo (r : Registry) : Nat → Key → List Key
  | 0, _ => []
  | depth + 1, k => (r.childrenOf k .type).flatMap fun c => c :: r.typesTo depth c

/-- The types of the unit. -/
def types (r : Registry) : List Key :=
  r.typesTo r.nodes.size 0

/-- The elements around an element from the inside, up to a number of them. -/
def aroundTo (r : Registry) : Nat → Key → List Key
  | 0, _ => []
  | n + 1, k =>
    match r.parent? k with
    | some p => p :: r.aroundTo n p
    | none => []

/-- The elements around an element from the inside; the unit is the last of them. -/
def around (r : Registry) (k : Key) : List Key :=
  r.aroundTo r.nodes.size k

end Registry

end Weaver
