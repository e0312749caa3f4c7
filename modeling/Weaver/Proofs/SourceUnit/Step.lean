import Weaver.Proofs.SourceUnit.Numbers
/-!
What can happen to a unit.

Handlers and pruning change a unit in few ways: they change a declaration in its place, add members
to a type, take a method from it, put another method in the place of one, and register elements
anew. Each way is a case of `SourceUnit.Step`, and what a handler does is a sequence of steps. A
license says which bodies may be replaced, which variables may be changed and which fields may be
added, so that what is true of all steps under a license is true of every handler that keeps to it.
The fields that types get are counted: a step comes with the names of those it adds.
-/
set_option autoImplicit false

namespace Weaver

open Weaver.Syntax (Tree Mark Flags)
open Weaver.Syntax.Tree

namespace Syntax

/-- What is seen of a field: everything but its annotations. -/
@[ext]
structure Field where
  mark : Mark
  name : String
  flags : Flags
  type : Tree
  value : Tree

/-- The number of a field. -/
def Field.number (x : Field) : Nat := x.mark.id

end Syntax

open Weaver.Syntax (Field)

/-- What may be done to declarations, which are told by their numbers. -/
structure License where
  /-- The methods whose bodies may be replaced. -/
  body : Nat → Prop
  /-- The variables that may be changed as parameters are: they get another name or become final. -/
  param : Nat → Prop
  /-- The fields that may be added to a type. -/
  field : Nat → Field → Prop
  /-- The variables whose values may be taken. -/
  reset : Nat → Prop

namespace Syntax

namespace Tree

/-- What is seen of a member that becomes a field. -/
def field? : Tree → Option Field
  | varDecl m n ms t i => if ms.flags.meets .enumFlag then none else some ⟨m, n, ms.flags, t, i⟩
  | _ => none

/-- The fields of a type. Constants of an enumeration are none. -/
def fieldsIn (t : Tree) : List Field := t.defs.filterMap field?

/-- What is seen of a method apart from its parameters: whether it is a constructor, whether it is
declared as abstract, and its body. -/
def head (t : Tree) : Bool × Bool × Tree :=
  (t.isConstructor, t.mods.flags.meets .abstractFlag, t.body)

/-- A declaration of a kind of elements. -/
def Suits : NodeKind → Tree → Prop
  | .type, classDecl .. | .method, methodDecl .. | .field, varDecl .. | .param, varDecl .. => True
  | _, _ => False

/-- A declaration with a number and what it may become in its place: what kind of declaration it is,
its number and the declarations in it stay. -/
inductive Alters (L : License) (number : Nat) : Tree → Tree → Prop where
  | same (t : Tree) : Alters L number t t
  | type {m : Mark} {n : String} {ms ms' e e' : Tree} {tps is is' ds : List Tree} :
    Alters L number (classDecl m n ms tps e is ds) (classDecl m n ms' tps e' is' ds)
  | method {m : Mark} {n : String} {ms ms' r b : Tree} {tps ps ts ts' : List Tree}
    (abstract : ms'.flags.meets .abstractFlag = ms.flags.meets .abstractFlag) :
    Alters L number (methodDecl m n ms tps r ps ts b) (methodDecl m n ms' tps r ps ts' b)
  | body {m : Mark} {n : String} {ms r b b' : Tree} {tps ps ts : List Tree}
    (licensed : L.body number) :
    Alters L number (methodDecl m n ms tps r ps ts b) (methodDecl m n ms tps r ps ts b')
  | var {m : Mark} {n : String} {ms ms' t i : Tree} (flags : ms'.flags = ms.flags) :
    Alters L number (varDecl m n ms t i) (varDecl m n ms' t i)
  | param {m : Mark} {n n' : String} {ms ms' t i : Tree} (licensed : L.param number)
    (constant : ms'.flags.meets .enumFlag = ms.flags.meets .enumFlag) :
    Alters L number (varDecl m n ms t i) (varDecl m n' ms' t i)
  | reset {m : Mark} {n : String} {ms t i : Tree} (licensed : L.reset number) :
    Alters L number (varDecl m n ms t i) (varDecl m n ms t .missing)

/-- A place for a further one among the members of a type. -/
def Inserts (t : Tree) (place : List Tree → List Tree) : Prop :=
  ∀ ds, ∃ as bs, ds = as ++ bs ∧ place ds = as ++ t :: bs

end Tree

end Syntax

namespace SourceUnit

/-- A unit with further declarations that are kept aside. -/
def keeping (u : SourceUnit) (ds : List Tree) : SourceUnit := { u with detached := ds ++ u.detached }

/-- A unit that has given away the numbers of a declaration. -/
def adopting (u : SourceUnit) (t : Tree) : SourceUnit := { u with next := (t.number u.next).2 }

/-- A type, by the number of its declaration, and the name of a field that it gets. -/
abbrev Gain := Nat × String

/-- What a type gets by a further member. -/
def gains (number : Nat) (t : Tree) : List Gain := t.field?.toList.map fun x => (number, x.name)

/-- The names of the fields that a type gets. -/
def gained (number : Nat) (gs : List Gain) : List String :=
  (gs.filter (·.1 == number)).map (·.2)

theorem gained_append (number : Nat) (gs gs' : List Gain) :
    gained number (gs ++ gs') = gained number gs ++ gained number gs' := by
  rw [gained, List.filter_append, List.map_append, gained, gained]

/-- The names of the fields that a single type gets. -/
theorem gained_map (number other : Nat) (names : List String) :
    gained number (names.map (other, ·)) = if number = other then names else [] := by
  have single : ((·.1 == number) ∘ (other, ·) : String → Bool) = fun _ => other == number := rfl
  rw [gained, List.filter_map, List.map_map, single]
  split
  · next same =>
    rw [List.filter_eq_self.mpr fun _ _ => beq_iff_eq.mpr same.symm]
    exact List.map_id' names
  · next apart =>
    rw [List.filter_eq_nil_iff.mpr fun _ _ hit => apart (eq_of_beq hit).symm]
    rfl

theorem gained_gains (number other : Nat) (t : Tree) : gained number (gains other t) =
    if number = other then t.field?.toList.map (·.name) else [] := by
  rw [← gained_map, List.map_map]
  rfl

/-- One thing that happens to a unit under a license, with the fields that types get by it. -/
inductive Step (L : License) (u : SourceUnit) : List Gain → SourceUnit → Prop where
  /-- Generated code is attributed to something. -/
  | source (s : Option Source.Position) : Step L u [] { u with source := s }
  /-- Numbers are given away. -/
  | spend {next : Nat} (more : u.next ≤ next) : Step L u [] { u with next := next }
  /-- The elements inside an element are registered anew. -/
  | register (k : Key) : Step L u [] { u with registry := u.registry.rebuild k (u.decl k) }
  /-- The unit gets other imports. -/
  | imports {m : Mark} {f : String} {p : Tree} {is ds : List Tree} (is' : List Tree)
    (tree : u.tree = .unit m f p is ds) : Step L u [] { u with tree := .unit m f p is' ds }
  /-- A declaration changes in its place. -/
  | alter {k : Key} {n : Node} {f : Tree → Tree} (node : u.registry.node? k = some n)
    (alters : (u.decl k).Alters L n.decl (f (u.decl k))) : Step L u [] (u.changeDecl k f)
  /-- A type gets a member. -/
  | insert {k : Key} {n : Node} {t : Tree} {place : List Tree → List Tree}
    (node : u.registry.node? k = some n) (inserts : (t.number u.next).1.Inserts place)
    (licensed : ∀ x, (t.number u.next).1.field? = some x → L.field n.decl x) :
    Step L u (gains n.decl (t.number u.next).1) ((u.adopting t).changeDecl k fun d => d.withDefs (place d.defs))
  /-- A method leaves its type and is kept aside. -/
  | remove {k m : Key} {n : Node} (node : u.registry.node? k = some n) (type : isClassDecl (u.decl k))
    (method : (u.decl m).isMethod)
    (member : (u.decl k).defs.any (Edit.isMethodNumbered (u.decl m).id)) :
    Step L u [] ((u.changeDecl k fun d => d.withDefs
      (d.defs.filter fun t => !Edit.isMethodNumbered (u.decl m).id t)).keeping [u.decl m])
  /-- Another method takes the place of a method, whose parameters are kept aside. -/
  | replace {k : Key} {n : Node} {t : Tree} (node : u.registry.node? k = some n)
    (method : t.isMethod) (vars : ∀ p ∈ t.params, p.isVariable) (licensed : L.body n.decl) :
    Step L u [] (((u.adopting t).changeDecl k
      (Edit.withMethod (t.number u.next).1)).keeping (u.decl k).params)

/-- What happens to a unit one after the other, with all the fields that types get by it. -/
inductive Steps (L : License) : SourceUnit → List Gain → SourceUnit → Prop where
  | none (u : SourceUnit) : Steps L u [] u
  | next {u v w : SourceUnit} {gs gs' : List Gain} (step : Step L u gs v) (more : Steps L v gs' w) :
    Steps L u (gs ++ gs') w

section Steps

variable {L : License} {u v w : SourceUnit} {gs gs' : List Gain}

theorem Steps.one (h : Step L u gs v) : Steps L u gs v := by
  have single := Steps.next h (.none v)
  rwa [List.append_nil] at single

theorem Steps.trans (h : Steps L u gs v) (h' : Steps L v gs' w) : Steps L u (gs ++ gs') w := by
  induction h with
  | none => exact h'
  | next step _ ih =>
    rw [List.append_assoc]
    exact .next step (ih h')

/-- Nothing is gained on either side. -/
theorem Steps.after (h : Steps L u [] v) (h' : Steps L v gs w) : Steps L u gs w := h.trans h'

end Steps

end SourceUnit

end Weaver
