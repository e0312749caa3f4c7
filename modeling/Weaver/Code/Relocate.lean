import Weaver.Syntax.Tree
/-!
Moving code to another place.

Code that is moved into a nested class, or below a variable that takes the place of a parameter,
has to refer to the same things as before. A relocation says how: which simple names get another
name, and by which class an unqualified `this` is to be qualified. Names of methods that are called
without a qualifier are not variables and stay. Inside the body of a nested class `this` is another
object and stays as well.
-/
set_option autoImplicit false

namespace Weaver

open Weaver.Syntax (Tree Mark)

/-- How names change when code is moved. -/
structure Relocation where
  /-- Simple names with the names that take their place. -/
  renames : List (String × String)
  /-- The class whose object `this` refers to, if it is to be named. -/
  outer : Option String
deriving Repr, DecidableEq

namespace Relocation

/-- Nothing changes. -/
def none : Relocation := ⟨[], Option.none⟩

/-- Only `this` is qualified. -/
def inside (className : String) : Relocation :=
  ⟨[], if className.isEmpty then Option.none else some className⟩

/-- The name that takes the place of a name. -/
def rename (r : Relocation) (name : String) : String :=
  (r.renames.lookup name).getD name

/-- The same renaming where `this` keeps its meaning. -/
def withoutOuter (r : Relocation) : Relocation :=
  { r with outer := Option.none }

/-- A relocated simple name. -/
def ident (r : Relocation) (m : Mark) (name : String) : Tree :=
  match r.renames.lookup name, r.outer with
  | some other, _ => .ident m other
  | Option.none, some c =>
    if name == "this" then .select (.at m.pos) (.ident (.at m.pos) c) "this" else .ident m name
  | Option.none, Option.none => .ident m name

/-- A name that stands for a method, not for a variable. -/
def isIdent : Tree → Bool
  | .ident .. => true
  | _ => false

mutual

/-- A relocated tree. -/
def apply (r : Relocation) : Tree → Tree
  | .missing => .missing
  | .ident m n => r.ident m n
  | .call m ts c as =>
    if isIdent c then .call m ts c (applyAll r as)
    else .call m (applyAll r ts) (apply r c) (applyAll r as)
  | .classDecl m n ms tps e is ds =>
    match r.outer with
    | some _ => .classDecl m n ms tps e is (applyAll r.withoutOuter ds)
    | Option.none =>
      .classDecl m n (apply r ms) (applyAll r tps) (apply r e) (applyAll r is) (applyAll r ds)
  | .unit m f p is ds => .unit m f (apply r p) (applyAll r is) (applyAll r ds)
  | .importDecl m s n => .importDecl m s (apply r n)
  | .methodDecl m n ms tps res ps ts b =>
    .methodDecl m n (apply r ms) (applyAll r tps) (apply r res) (applyAll r ps) (applyAll r ts)
      (apply r b)
  | .varDecl m n ms t i => .varDecl m n (apply r ms) (apply r t) (apply r i)
  | .modifiers m f as => .modifiers m f (applyAll r as)
  | .annoUse m t as => .annoUse m (apply r t) (applyAll r as)
  | .typeParam m n bs => .typeParam m n (applyAll r bs)
  | .block m f ss => .block m f (applyAll r ss)
  | .ifThen m c y n => .ifThen m (apply r c) (apply r y) (apply r n)
  | .whileLoop m c b => .whileLoop m (apply r c) (apply r b)
  | .doLoop m b c => .doLoop m (apply r b) (apply r c)
  | .forLoop m i c s b => .forLoop m (applyAll r i) (apply r c) (applyAll r s) (apply r b)
  | .foreachLoop m v e b => .foreachLoop m (apply r v) (apply r e) (apply r b)
  | .labeled m l b => .labeled m l (apply r b)
  | .switchOn m s cs => .switchOn m (apply r s) (applyAll r cs)
  | .switchCase m p ss => .switchCase m (apply r p) (applyAll r ss)
  | .synchronizedOn m l b => .synchronizedOn m (apply r l) (apply r b)
  | .tryCatch m b cs f => .tryCatch m (apply r b) (applyAll r cs) (apply r f)
  | .catchClause m p b => .catchClause m (apply r p) (apply r b)
  | .throwing m e => .throwing m (apply r e)
  | .returning m e => .returning m (apply r e)
  | .breaking m l => .breaking m l
  | .continuing m l => .continuing m l
  | .skip m => .skip m
  | .exec m e => .exec m (apply r e)
  | .select m q n => .select m (apply r q) n
  | .newObject m o ts t as b =>
    .newObject m (apply r o) (applyAll r ts) (apply r t) (applyAll r as) (apply r b)
  | .newArray m e ds h es => .newArray m (apply r e) (applyAll r ds) h (applyAll r es)
  | .parens m e => .parens m (apply r e)
  | .assign m a b => .assign m (apply r a) (apply r b)
  | .assignOp m op a b => .assignOp m op (apply r a) (apply r b)
  | .unary m op a => .unary m op (apply r a)
  | .binary m op a b => .binary m op (apply r a) (apply r b)
  | .conditional m c y n => .conditional m (apply r c) (apply r y) (apply r n)
  | .cast m t e => .cast m (apply r t) (apply r e)
  | .instanceOf m e t => .instanceOf m (apply r e) (apply r t)
  | .indexed m a i => .indexed m (apply r a) (apply r i)
  | .literal m v => .literal m v
  | .primitive m t => .primitive m t
  | .arrayType m e => .arrayType m (apply r e)
  | .typeApply m t as => .typeApply m (apply r t) (applyAll r as)
  | .wildcard m b t => .wildcard m b (apply r t)

/-- Relocated trees of a list. -/
def applyAll (r : Relocation) : List Tree → List Tree
  | [] => []
  | t :: ts => apply r t :: applyAll r ts

end

end Relocation

end Weaver
