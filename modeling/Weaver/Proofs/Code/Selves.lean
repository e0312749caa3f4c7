import Weaver.Proofs.Code.Lowered
/-!
The objects that a piece of code speaks of.

In code that belongs to a class, `this` and `super` are the object that it runs on. `selves` lists
how a tree speaks of this object and of those around it, in the order in which they are written.
Types, annotations and the bodies of nested classes are left out: the first two have no objects,
and in a nested class `this` is another one. Relocating a tree into a nested class makes every
`this` of the list one that is qualified, and changes nothing else in it.
-/
set_option autoImplicit false

namespace Weaver

open Weaver.Syntax (Tree Mark TypeTag)

/-- How code speaks of the object it runs on, or of one around it. -/
inductive Self where
  /-- `this`. -/
  | here
  /-- `super`. -/
  | above
  /-- `Type.this`. -/
  | outer (type : String)
deriving Repr, DecidableEq

namespace Self

/-- The word `this` or `super`, standing alone. -/
def ofWord (name : String) : List Self :=
  if name == "this" then [here] else if name == "super" then [above] else []

/-- `Type.this`, if the selection is one. -/
def outer? (q : Tree) (name : String) : Option String :=
  match q with
  | .ident _ c => if name == "this" && (ofWord c).isEmpty then some c else none
  | _ => none

/-- The same object, seen from inside a class that is nested in the named one. -/
def qualified (type : String) : Self → Self
  | here => outer type
  | s => s

theorem outer?_this {m : Mark} {c : String} (plain : ofWord c = []) :
    outer? (.ident m c) "this" = some c := by
  rw [outer?, plain]
  rfl

end Self

namespace Syntax.Tree

open Self

mutual

/-- How a tree speaks of the object it runs on and of those around it. -/
def selves : Tree → List Self
  | ident _ n => ofWord n
  | select _ q n =>
    match outer? q n with
    | some c => [.outer c]
    | none => selves q
  | call _ _ c as => (if Relocation.isIdent c then [] else selves c) ++ selvesAll as
  | newObject _ o _ _ as _ => selves o ++ selvesAll as
  | newArray _ _ ds _ es => selvesAll ds ++ selvesAll es
  | forLoop _ i c u b => selvesAll i ++ selves c ++ selvesAll u ++ selves b
  | tryCatch _ b cs f => selves b ++ selvesAll cs ++ selves f
  | ifThen _ a b c | foreachLoop _ a b c | conditional _ a b c => selves a ++ selves b ++ selves c
  | whileLoop _ a b | doLoop _ a b | synchronizedOn _ a b | catchClause _ a b | assign _ a b
  | assignOp _ _ a b | binary _ _ a b | indexed _ a b => selves a ++ selves b
  | varDecl _ _ _ _ a | labeled _ _ a | throwing _ a | returning _ a | exec _ a | parens _ a
  | unary _ _ a | cast _ _ a | instanceOf _ a _ | arrayType _ a => selves a
  | switchOn _ a as | switchCase _ a as => selves a ++ selvesAll as
  | block _ _ as => selvesAll as
  | missing | unit .. | importDecl .. | classDecl .. | methodDecl .. | modifiers .. | annoUse ..
  | typeParam .. | breaking .. | continuing .. | skip _ | literal .. | primitive .. | typeApply ..
  | wildcard .. => []

/-- How the trees of a list speak of objects. -/
def selvesAll : List Tree → List Self
  | [] => []
  | t :: ts => selves t ++ selvesAll ts

end

section

attribute [local simp] selves selvesAll

theorem selvesAll_append (ts us : List Tree) :
    selvesAll (ts ++ us) = selvesAll ts ++ selvesAll us := by
  induction ts with
  | nil => rfl
  | cons t ts ih => simp [ih]

theorem outer?_shape (q : Tree) (n : String) : outer? (shape true q) n = outer? q n := by
  cases q <;> rfl

theorem isIdent_shape (t : Tree) : Relocation.isIdent (shape true t) = Relocation.isIdent t := by
  cases t <;> rfl

/-- Where a tree stands makes no difference. -/
theorem selves_shape : (∀ t, (shape true t).selves = t.selves) ∧
    ∀ ts, selvesAll (shapeAll true ts) = selvesAll ts := by
  apply shape.mutual_induct true (fun t => (shape true t).selves = t.selves)
    (fun ts => selvesAll (shapeAll true ts) = selvesAll ts)
  case case29 =>
    intro m q n object
    rw [shape, selves, selves, outer?_shape, object]
  case case30 =>
    intro m ts c as _ callee args
    rw [shape, selves, selves, isIdent_shape, callee, args]
  case case34 => exact fun _ _ dropped => absurd rfl dropped
  all_goals
    intros
    first
    | rfl
    | simp only [shape, shapeAll, selves, selvesAll, if_true, *]

end

end Syntax.Tree

/-! ## Relocation -/

namespace Relocation

open Syntax.Tree

/-- A name that a class can have: it has no dots, and stands for no object and no primitive type. -/
structure IsClassName (c : String) : Prop where
  segment : Text.IsSegment c
  word : Self.ofWord c = []
  tag : TypeTag.ofKeyword? c = Option.none

/-- No name changes, and what `this` is qualified by is the name of a class. -/
structure Plain (r : Relocation) : Prop where
  renames : r.renames = []
  outer : ∀ c ∈ r.outer, IsClassName c

/-- How relocated code speaks of an object. -/
def self (r : Relocation) : Self → Self
  | .here => r.outer.elim .here .outer
  | s => s

variable {r : Relocation}

theorem self_eq_id (unmoved : r.outer = Option.none) (l : List Self) : l.map r.self = l := by
  refine (List.map_congr_left fun s _ => ?_).trans (List.map_id l)
  cases s
  case here => exact congrArg (·.elim Self.here Self.outer) unmoved
  all_goals rfl

theorem self_here {c : String} (moved : r.outer = some c) : r.self .here = .outer c :=
  congrArg (·.elim Self.here Self.outer) moved

theorem IsClassName.nonempty {c : String} (h : IsClassName c) : c.isEmpty = false := by
  rw [← Bool.not_eq_true, String.isEmpty_iff]
  exact h.segment.nonempty

theorem plain_none : none.Plain :=
  ⟨rfl, fun _ h => nomatch h⟩

theorem plain_inside {c : String} (h : IsClassName c) : (inside c).Plain := by
  refine ⟨rfl, fun c' outer => ?_⟩
  obtain rfl : c = c' := Option.some.inj ((if_neg (Bool.eq_false_iff.mp h.nonempty)).symm.trans outer)
  exact h

theorem self_inside {c : String} (h : IsClassName c) : (inside c).self = .qualified c := by
  funext s
  cases s
  case here => exact self_here (if_neg (Bool.eq_false_iff.mp h.nonempty))
  all_goals rfl

theorem selves_ident (h : r.Plain) (m : Mark) (n : String) :
    (r.ident m n).selves = (Self.ofWord n).map r.self := by
  unfold ident
  rw [h.renames, List.lookup_nil]
  cases outer : r.outer with
  | none =>
    rw [self_eq_id outer]
    rfl
  | some c =>
    by_cases this : n = "this"
    · rw [this]
      simp only [beq_self_eq_true, if_true, selves, Self.outer?_this (h.outer c outer).word]
      rw [show Self.ofWord "this" = [.here] from rfl, List.map_singleton, self_here outer]
    · simp only [beq_iff_eq, this, if_false, selves]
      unfold Self.ofWord
      by_cases super : n = "super" <;> simp [this, super, self]

theorem isIdent_apply (t : Tree) (other : isIdent t = false) : isIdent (r.apply t) = false := by
  cases t
  case ident => cases other
  all_goals
    unfold apply
    try split
    all_goals rfl

/-- What is selected from stays what it is, or becomes a selection itself. -/
theorem outer?_apply (h : r.Plain) (q : Tree) (n : String) :
    Self.outer? (r.apply q) n = Self.outer? q n := by
  cases q
  case ident m c =>
    rw [apply, ident, h.renames, List.lookup_nil]
    cases r.outer with
    | none => rfl
    | some =>
      by_cases this : c = "this"
      · rw [this]
        exact (if_neg (by simp [Self.ofWord])).symm
      · simp only [beq_iff_eq, this, if_false]
  all_goals
    unfold apply
    try split
    all_goals rfl

/-- A selection speaks as what it selects from does, unless it is `Type.this`. -/
theorem selves_select {q q' : Tree} {n : String} (m m' : Mark)
    (same : Self.outer? q' n = Self.outer? q n) (object : q'.selves = q.selves.map r.self) :
    (Tree.select m' q' n).selves = (Tree.select m q n).selves.map r.self := by
  rw [selves, selves, same, object]
  cases Self.outer? q n <;> rfl

/-- Relocation qualifies every `this` of a tree and nothing else. -/
theorem selves_apply : (∀ r : Relocation, ∀ t, r.Plain → (r.apply t).selves = t.selves.map r.self) ∧
    ∀ r : Relocation, ∀ ts, r.Plain → selvesAll (r.applyAll ts) = (selvesAll ts).map r.self := by
  apply apply.mutual_induct
    (fun r t => r.Plain → (r.apply t).selves = t.selves.map r.self)
    (fun r ts => r.Plain → selvesAll (r.applyAll ts) = (selvesAll ts).map r.self)
  case case2 =>
    intro r m n h
    rw [apply, selves_ident h, selves]
  case case3 =>
    intro r m ts c as name args h
    rw [apply, if_pos name, selves, selves, if_pos name, List.nil_append, args h]
    rfl
  case case4 =>
    intro r m ts c as other _ callee args h
    rw [apply, if_neg other, selves, selves, if_neg other, callee h, args h,
      isIdent_apply c (Bool.not_eq_true _ ▸ other), List.map_append]
    rfl
  case case5 =>
    intro r m n ms tps e is ds c moved _ _
    rw [apply, moved]
    rfl
  case case6 =>
    intro r m n ms tps e is ds unmoved _ _ _ _ _ _
    rw [apply, unmoved]
    rfl
  case case32 =>
    intro r m q n object h
    rw [apply]
    exact selves_select m m (outer?_apply h q n) (object h)
  -- in the other cases the parts are put together as before
  all_goals
    intros
    simp only [apply, applyAll, selves, selvesAll, List.map_append, List.map_nil, *]

end Relocation

end Weaver
