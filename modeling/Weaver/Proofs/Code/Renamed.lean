import Weaver.Proofs.Code.RoundTrip
import Weaver.Proofs.Code.Strays
import Weaver.Proofs.SourceUnit.Proper
/-!
Which names are renamed when statements are lifted.

Statements that are lifted with another name for a parameter are copied with that name in the place
of every identifier of the old one. `marked` walks trees as copying does, and knows at each of these
places whether the identifier is the parameter: in nested classes, fields, parameters and local
variables can take the name, and types, annotations, labels of cases and names of methods are no
variables. So what the new name should be put in place of can be compared with where it is put.
-/
set_option autoImplicit false

namespace Weaver

open Weaver.Syntax (Tree Mark)
open Weaver.Syntax.Tree

/-- One name changes. -/
def Relocation.single (x y : String) : Relocation := ⟨[(x, y)], Option.none⟩

theorem Relocation.outer_single (x y : String) : (single x y).outer = Option.none := rfl

namespace Syntax.Tree

/-! ## Trees that are copied -/

mutual

/-- The tree with other names in the place of a name: one where it is that of the variable, which
it can only be where the variable is free, and one where it is not. -/
@[simp]
def marked (x : String) (f : Bool → String) (free : Bool) : Tree → Tree
  | missing => missing
  | ident m n => ident m (if n == x then f free else n)
  | select m q n => select m (marked x f (free && !selectsFromType q n) q) n
  | call m ts c as =>
    if Relocation.isIdent c then call m ts c (markedAll x f free as)
    else call m (markedAll x f false ts) (marked x f free c) (markedAll x f free as)
  | classDecl m n ms tps e is ds =>
    classDecl m n (marked x f false ms) (markedAll x f false tps) (marked x f false e)
      (markedAll x f false is) (markedAll x f (free && !ds.any (declares x)) ds)
  | methodDecl m n ms tps res ps ts b =>
    methodDecl m n (marked x f false ms) (markedAll x f false tps) (marked x f false res)
      (markedAll x f false ps) (markedAll x f false ts) (marked x f (free && !ps.any (declares x)) b)
  | varDecl m n ms t i =>
    varDecl m n (marked x f false ms) (marked x f false t) (marked x f (free && n != x) i)
  | block m fl ss => block m fl (markedAll x f free ss)
  | forLoop m i c u b =>
    forLoop m (markedAll x f free i) (marked x f (free && !i.any (declares x)) c)
      (markedAll x f (free && !i.any (declares x)) u) (marked x f (free && !i.any (declares x)) b)
  | foreachLoop m v e b =>
    foreachLoop m (marked x f free v) (marked x f free e) (marked x f (free && !declares x v) b)
  | switchOn m e cs => switchOn m (marked x f free e) (markedCases x f free cs)
  | switchCase m p ss =>
    switchCase m (marked x f (free && !Relocation.isIdent p) p) (markedAll x f free ss)
  | catchClause m v b =>
    catchClause m (marked x f free v) (marked x f (free && !declares x v) b)
  | tryCatch m b cs g =>
    tryCatch m (marked x f free b) (markedAll x f free cs) (marked x f free g)
  | newObject m o ts t as b =>
    newObject m (marked x f free o) (markedAll x f false ts) (marked x f false t)
      (markedAll x f free as) (marked x f free b)
  | newArray m e ds h es =>
    newArray m (marked x f false e) (markedAll x f free ds) h (markedAll x f free es)
  | cast m t e => cast m (marked x f false t) (marked x f free e)
  | instanceOf m e t => instanceOf m (marked x f free e) (marked x f false t)
  | ifThen m a b c => ifThen m (marked x f free a) (marked x f free b) (marked x f free c)
  | conditional m a b c => conditional m (marked x f free a) (marked x f free b) (marked x f free c)
  | whileLoop m a b => whileLoop m (marked x f free a) (marked x f free b)
  | doLoop m a b => doLoop m (marked x f free a) (marked x f free b)
  | synchronizedOn m a b => synchronizedOn m (marked x f free a) (marked x f free b)
  | assign m a b => assign m (marked x f free a) (marked x f free b)
  | assignOp m o a b => assignOp m o (marked x f free a) (marked x f free b)
  | binary m o a b => binary m o (marked x f free a) (marked x f free b)
  | indexed m a b => indexed m (marked x f free a) (marked x f free b)
  | labeled m l e => labeled m l (marked x f free e)
  | throwing m e => throwing m (marked x f free e)
  | returning m e => returning m (marked x f free e)
  | exec m e => exec m (marked x f free e)
  | parens m e => parens m (marked x f free e)
  | unary m o e => unary m o (marked x f free e)
  | modifiers m fl as => modifiers m fl (markedAll x f false as)
  | annoUse m t as => annoUse m (marked x f false t) (markedAll x f false as)
  | typeParam m n bs => typeParam m n (markedAll x f false bs)
  | arrayType m e => arrayType m (marked x f false e)
  | typeApply m t as => typeApply m (marked x f false t) (markedAll x f false as)
  | wildcard m b t => wildcard m b (marked x f false t)
  | unit m fn p is ds =>
    unit m fn (marked x f false p) (markedAll x f false is) (markedAll x f false ds)
  | importDecl m s n => importDecl m s (marked x f false n)
  | breaking m l => breaking m l
  | continuing m l => continuing m l
  | skip m => skip m
  | literal m v => literal m v
  | primitive m t => primitive m t

/-- The same of trees one after the other. -/
@[simp]
def markedAll (x : String) (f : Bool → String) (free : Bool) : List Tree → List Tree
  | [] => []
  | t :: ts => marked x f free t :: markedAll x f (free && !declares x t) ts

/-- The same of the cases of a `switch` statement. -/
@[simp]
def markedCases (x : String) (f : Bool → String) (free : Bool) : List Tree → List Tree
  | [] => []
  | t :: ts => marked x f free t :: markedCases x f (free && !opens x t) ts

end

theorem declares_shape (x : String) (t : Tree) : declares x (shape true t) = declares x t := by
  cases t <;> rfl

theorem any_declares_shape (x : String) (ts : List Tree) :
    (shapeAll true ts).any (declares x) = ts.any (declares x) := by
  induction ts with
  | nil => rfl
  | cons t ts ih => rw [shapeAll, List.any_cons, List.any_cons, declares_shape, ih]

theorem opens_shape (x : String) (t : Tree) : opens x (shape true t) = opens x t := by
  cases t
  case switchCase => exact any_declares_shape x _
  all_goals rfl

theorem selectsFromType_shape (q : Tree) (n : String) :
    selectsFromType (shape true q) n = selectsFromType q n := by
  cases q <;> rfl

variable {x : String} {f : Bool → String}

/-- Where a tree stands makes no difference for its names. -/
theorem marked_shape :
    (∀ free t, (marked x f free t).shape true = marked x f free (t.shape true)) ∧
    (∀ free ts, shapeAll true (markedCases x f free ts) = markedCases x f free (shapeAll true ts)) ∧
    ∀ free ts, shapeAll true (markedAll x f free ts) = markedAll x f free (shapeAll true ts) := by
  apply marked.mutual_induct x
    (fun free t => (marked x f free t).shape true = marked x f free (t.shape true))
    (fun free ts => shapeAll true (markedCases x f free ts) = markedCases x f free (shapeAll true ts))
    (fun free ts => shapeAll true (markedAll x f free ts) = markedAll x f free (shapeAll true ts))
  all_goals
    intros
    simp only [shape, shapeAll, marked, markedAll, markedCases, declares_shape, any_declares_shape,
      opens_shape, selectsFromType_shape, isIdent_shape, if_true, Bool.false_eq_true, if_false, *]

/-- Copying does not ask whether an identifier is the variable. -/
theorem apply_eq_marked {y : String} :
    (∀ free t, (Relocation.single x y).apply t = marked x (fun _ => y) free t) ∧
    (∀ free ts, (Relocation.single x y).applyAll ts = markedCases x (fun _ => y) free ts) ∧
    ∀ free ts, (Relocation.single x y).applyAll ts = markedAll x (fun _ => y) free ts := by
  apply marked.mutual_induct x
    (fun free t => (Relocation.single x y).apply t = marked x (fun _ => y) free t)
    (fun free ts => (Relocation.single x y).applyAll ts = markedCases x (fun _ => y) free ts)
    (fun free ts => (Relocation.single x y).applyAll ts = markedAll x (fun _ => y) free ts)
  case case2 =>
    intro free m n
    cases h : n == x <;>
      simp [Relocation.apply, Relocation.ident, Relocation.single, h]
  all_goals
    intros
    simp only [Relocation.apply, Relocation.applyAll, Relocation.outer_single, marked, markedAll,
      markedCases, if_true, Bool.false_eq_true, if_false, *]

/-- All identifiers of the name get the new one, and not only the variable, without a difference just
if there are no others: giving them the new name changes nothing. -/
theorem marked_eq_iff {y : String} (other : x ≠ y) :
    (∀ free t, marked x (fun _ => y) free t = marked x (cond · y x) free t ↔
      marked x (cond · x y) free t = t) ∧
    (∀ free ts, markedCases x (fun _ => y) free ts = markedCases x (cond · y x) free ts ↔
      markedCases x (cond · x y) free ts = ts) ∧
    (∀ free ts, markedAll x (fun _ => y) free ts = markedAll x (cond · y x) free ts ↔
      markedAll x (cond · x y) free ts = ts) := by
  apply marked.mutual_induct x
    (fun free t => marked x (fun _ => y) free t = marked x (cond · y x) free t ↔
      marked x (cond · x y) free t = t)
    (fun free ts => markedCases x (fun _ => y) free ts = markedCases x (cond · y x) free ts ↔
      markedCases x (cond · x y) free ts = ts)
    (fun free ts => markedAll x (fun _ => y) free ts = markedAll x (cond · y x) free ts ↔
      markedAll x (cond · x y) free ts = ts)
  case case2 =>
    intro free m n
    cases free <;> by_cases h : n = x <;> simp [h, other.symm]
  all_goals
    intros
    simp [*]

/-! ## Statements that are lifted -/

/-- A variable with other names in its value. -/
def markedVar (x : String) (f : Bool → String) (free : Bool) : Tree → Tree
  | varDecl m n ms t i => varDecl m n ms t (marked x f (free && n != x) i)
  | t => marked x f free t

/-- The expression of an expression statement with other names in it. -/
def markedExec (x : String) (f : Bool → String) (free : Bool) : Tree → Tree
  | call m ts (ident m' n) as => call m ts (ident m' n) (markedAll x f free as)
  | call m ts (select m' q n) as =>
    call m ts (marked x f free (select m' q n)) (markedAll x f free as)
  | e => marked x f free e

mutual

/-- A statement with other names in its expressions. -/
@[simp]
def markedStmt (x : String) (f : Bool → String) (free : Bool) : Tree → Tree
  | block m fl ss =>
    if fl == .empty then block m fl (markedStmts x f free ss) else marked x f free (block m fl ss)
  | varDecl m n ms t i => varDecl m n ms t (marked x f (free && n != x) i)
  | ifThen m c y n => ifThen m (marked x f free c) (markedStmt x f free y) (markedStmt x f free n)
  | whileLoop m c b => whileLoop m (marked x f free c) (markedStmt x f free b)
  | doLoop m b c => doLoop m (markedStmt x f free b) (marked x f free c)
  | forLoop m i c u b =>
    forLoop m (markedStmts x f free i) (marked x f (free && !i.any (declares x)) c)
      (markedStmts x f (free && !i.any (declares x)) u)
      (markedStmt x f (free && !i.any (declares x)) b)
  | foreachLoop m v e b =>
    foreachLoop m (markedVar x f free v) (marked x f free e)
      (markedStmt x f (free && !declares x v) b)
  | labeled m l b => labeled m l (markedStmt x f free b)
  | switchOn m e cs => switchOn m (marked x f free e) (markedCaseStmts x f free cs)
  | synchronizedOn m e b => synchronizedOn m (marked x f free e) (markedStmt x f free b)
  | tryCatch m b cs g =>
    tryCatch m (markedStmt x f free b) (markedCatches x f free cs) (markedStmt x f free g)
  | throwing m e => throwing m (marked x f free e)
  | returning m e => returning m (marked x f free e)
  | exec m e => exec m (markedExec x f free e)
  | t => marked x f free t

/-- The same of statements one after the other. -/
@[simp]
def markedStmts (x : String) (f : Bool → String) (free : Bool) : List Tree → List Tree
  | [] => []
  | t :: ts => markedStmt x f free t :: markedStmts x f (free && !declares x t) ts

/-- The same of the cases of a `switch` statement. -/
@[simp]
def markedCaseStmts (x : String) (f : Bool → String) (free : Bool) : List Tree → List Tree
  | [] => []
  | switchCase m p ss :: cs =>
    switchCase m (marked x f (free && !Relocation.isIdent p) p) (markedStmts x f free ss) ::
      markedCaseStmts x f (free && !ss.any (declares x)) cs
  | c :: cs => marked x f free c :: markedCaseStmts x f free cs

/-- The same of the `catch` clauses of a `try` statement. -/
@[simp]
def markedCatches (x : String) (f : Bool → String) (free : Bool) : List Tree → List Tree
  | [] => []
  | catchClause m v b :: cs =>
    catchClause m (markedVar x f free v) (markedStmt x f (free && !declares x v) b) ::
      markedCatches x f free cs
  | c :: cs => marked x f free c :: markedCatches x f free cs

end

theorem markedVar_shape (free : Bool) (t : Tree) :
    (markedVar x f free t).shape true = markedVar x f free (t.shape true) := by
  cases t
  case varDecl => simp only [markedVar, shape, marked_shape.1]
  all_goals exact marked_shape.1 free _

theorem markedExec_shape (free : Bool) (t : Tree) :
    (markedExec x f free t).shape true = markedExec x f free (t.shape true) := by
  cases t
  case call m ts c as =>
    cases c
    case ident => simp only [markedExec, shape, marked_shape.2.2]
    case select => simp only [markedExec, marked_shape.1, shape, marked_shape.2.2]
    all_goals exact marked_shape.1 free _
  all_goals exact marked_shape.1 free _

mutual

/-- Where a statement stands makes no difference for its names. -/
theorem markedStmt_shape (free : Bool) (t : Tree) :
    (markedStmt x f free t).shape true = markedStmt x f free (t.shape true) := by
  cases t with
  | block m fl ss =>
    rw [markedStmt, shape, markedStmt]
    split
    · rw [shape, markedStmts_shape free ss]
    · exact marked_shape.1 free _
  | varDecl m n ms t i => simp only [markedStmt, shape, marked_shape.1]
  | ifThen m c y n =>
    simp only [markedStmt, shape, marked_shape.1, markedStmt_shape free y, markedStmt_shape free n]
  | whileLoop m c b | doLoop m b c | synchronizedOn m c b =>
    simp only [markedStmt, shape, marked_shape.1, markedStmt_shape free b]
  | forLoop m i c u b =>
    simp only [markedStmt, shape, marked_shape.1, any_declares_shape, markedStmts_shape _ i,
      markedStmts_shape _ u, markedStmt_shape _ b]
  | foreachLoop m v e b =>
    simp only [markedStmt, shape, marked_shape.1, markedVar_shape, declares_shape,
      markedStmt_shape _ b]
  | labeled m l b => rw [markedStmt, shape, shape, markedStmt, markedStmt_shape free b]
  | switchOn m e cs => simp only [markedStmt, shape, marked_shape.1, markedCaseStmts_shape free cs]
  | tryCatch m b cs g =>
    simp only [markedStmt, shape, markedStmt_shape free b, markedCatches_shape free cs,
      markedStmt_shape free g]
  | throwing m e | returning m e => simp only [markedStmt, shape, marked_shape.1]
  | exec m e => simp only [markedStmt, shape, markedExec_shape]
  | _ => exact marked_shape.1 free _

theorem markedStmts_shape (free : Bool) (ts : List Tree) :
    shapeAll true (markedStmts x f free ts) = markedStmts x f free (shapeAll true ts) := by
  cases ts with
  | nil => rfl
  | cons t ts =>
    simp only [markedStmts, shapeAll, declares_shape, markedStmt_shape free t,
      markedStmts_shape _ ts]

theorem markedCaseStmts_shape (free : Bool) (cs : List Tree) :
    shapeAll true (markedCaseStmts x f free cs) = markedCaseStmts x f free (shapeAll true cs) := by
  cases cs with
  | nil => rfl
  | cons c cs =>
    have others := fun free => markedCaseStmts_shape free cs
    cases c with
    | switchCase m p ss =>
      simp only [markedCaseStmts, shape, shapeAll, marked_shape.1, isIdent_shape,
        any_declares_shape, markedStmts_shape free ss, others]
    | _ => exact List.cons_eq_cons.mpr ⟨marked_shape.1 free _, others free⟩

theorem markedCatches_shape (free : Bool) (cs : List Tree) :
    shapeAll true (markedCatches x f free cs) = markedCatches x f free (shapeAll true cs) := by
  cases cs with
  | nil => rfl
  | cons c cs =>
    have others := markedCatches_shape free cs
    cases c with
    | catchClause m v b =>
      simp only [markedCatches, shape, shapeAll, markedVar_shape, declares_shape,
        markedStmt_shape _ b, others]
    | _ => exact List.cons_eq_cons.mpr ⟨marked_shape.1 free _, others⟩

end

section

variable {y : String}

theorem applyVar_eq_marked (free : Bool) (t : Tree) :
    (Relocation.single x y).applyVar t = markedVar x (fun _ => y) free t := by
  cases t
  case varDecl m n ms t i =>
    rw [Relocation.applyVar, markedVar, apply_eq_marked.1 (free && n != x)]
  all_goals exact apply_eq_marked.1 free _

theorem applyExec_eq_marked (free : Bool) (t : Tree) :
    (Relocation.single x y).applyExec t = markedExec x (fun _ => y) free t := by
  cases t
  case call m ts c as =>
    cases c
    case ident => simp only [Relocation.applyExec, markedExec, apply_eq_marked.2.2 free]
    case select m' q n =>
      rw [Relocation.applyExec, markedExec, marked, apply_eq_marked.2.2 free,
        apply_eq_marked.1 (free && !selectsFromType q n)]
    all_goals exact apply_eq_marked.1 free _
  all_goals exact apply_eq_marked.1 free _

mutual

/-- Lifting does not ask whether an identifier is the variable. -/
theorem applyStmt_eq_marked (free : Bool) (t : Tree) :
    (Relocation.single x y).applyStmt t = markedStmt x (fun _ => y) free t := by
  cases t with
  | block m fl ss =>
    rw [Relocation.applyStmt, markedStmt]
    split
    · rw [applyStmts_eq_marked free ss]
    · exact apply_eq_marked.1 free _
  | varDecl m n ms t i =>
    rw [Relocation.applyStmt, markedStmt, apply_eq_marked.1 (free && n != x)]
  | ifThen m c y n =>
    rw [Relocation.applyStmt, markedStmt, apply_eq_marked.1 free, applyStmt_eq_marked free y,
      applyStmt_eq_marked free n]
  | whileLoop m c b | doLoop m b c | synchronizedOn m c b =>
    rw [Relocation.applyStmt, markedStmt, apply_eq_marked.1 free, applyStmt_eq_marked free b]
  | forLoop m i c u b =>
    rw [Relocation.applyStmt, markedStmt, applyStmts_eq_marked free i,
      apply_eq_marked.1 (free && !i.any (declares x)),
      applyStmts_eq_marked (free && !i.any (declares x)) u,
      applyStmt_eq_marked (free && !i.any (declares x)) b]
  | foreachLoop m v e b =>
    rw [Relocation.applyStmt, markedStmt, applyVar_eq_marked free, apply_eq_marked.1 free,
      applyStmt_eq_marked (free && !declares x v) b]
  | labeled m l b => rw [Relocation.applyStmt, markedStmt, applyStmt_eq_marked free b]
  | switchOn m e cs =>
    rw [Relocation.applyStmt, markedStmt, apply_eq_marked.1 free, applyCases_eq_marked free cs]
  | tryCatch m b cs g =>
    rw [Relocation.applyStmt, markedStmt, applyStmt_eq_marked free b, applyCatches_eq_marked free cs,
      applyStmt_eq_marked free g]
  | throwing m e | returning m e =>
    rw [Relocation.applyStmt, markedStmt, apply_eq_marked.1 free]
  | exec m e => rw [Relocation.applyStmt, markedStmt, applyExec_eq_marked free]
  | _ => exact apply_eq_marked.1 free _

theorem applyStmts_eq_marked (free : Bool) (ts : List Tree) :
    (Relocation.single x y).applyStmts ts = markedStmts x (fun _ => y) free ts := by
  cases ts with
  | nil => rfl
  | cons t ts =>
    rw [Relocation.applyStmts, markedStmts, applyStmt_eq_marked free t,
      applyStmts_eq_marked (free && !declares x t) ts]

theorem applyCases_eq_marked (free : Bool) (cs : List Tree) :
    (Relocation.single x y).applyCases cs = markedCaseStmts x (fun _ => y) free cs := by
  cases cs with
  | nil => rfl
  | cons c cs =>
    have others := fun free => applyCases_eq_marked free cs
    cases c with
    | switchCase m p ss =>
      rw [Relocation.applyCases, markedCaseStmts,
        apply_eq_marked.1 (free && !Relocation.isIdent p), applyStmts_eq_marked free ss,
        others (free && !ss.any (declares x))]
    | _ => exact List.cons_eq_cons.mpr ⟨apply_eq_marked.1 free _, others free⟩

theorem applyCatches_eq_marked (free : Bool) (cs : List Tree) :
    (Relocation.single x y).applyCatches cs = markedCatches x (fun _ => y) free cs := by
  cases cs with
  | nil => rfl
  | cons c cs =>
    have others := applyCatches_eq_marked free cs
    cases c with
    | catchClause m v b =>
      rw [Relocation.applyCatches, markedCatches, applyVar_eq_marked free,
        applyStmt_eq_marked (free && !declares x v) b, others]
    | _ => exact List.cons_eq_cons.mpr ⟨apply_eq_marked.1 free _, others⟩

end

theorem markedVar_eq_iff (other : x ≠ y) (free : Bool) (t : Tree) :
    markedVar x (fun _ => y) free t = markedVar x (cond · y x) free t ↔
      markedVar x (cond · x y) free t = t := by
  cases t
  case varDecl => simp [markedVar, (marked_eq_iff other).1]
  all_goals exact (marked_eq_iff other).1 free _

theorem markedExec_eq_iff (other : x ≠ y) (free : Bool) (t : Tree) :
    markedExec x (fun _ => y) free t = markedExec x (cond · y x) free t ↔
      markedExec x (cond · x y) free t = t := by
  cases t
  case call m ts c as =>
    cases c
    case ident => simp [markedExec, (marked_eq_iff other).2.2]
    case select => simp [markedExec, (marked_eq_iff other).1, (marked_eq_iff other).2.2]
    all_goals exact (marked_eq_iff other).1 free _
  all_goals exact (marked_eq_iff other).1 free _

mutual

/-- All identifiers of a statement get the new name without a difference just if all of them are the
variable. -/
theorem markedStmt_eq_iff (other : x ≠ y) (free : Bool) (t : Tree) :
    markedStmt x (fun _ => y) free t = markedStmt x (cond · y x) free t ↔
      markedStmt x (cond · x y) free t = t := by
  cases t with
  | block m fl ss =>
    rw [markedStmt, markedStmt, markedStmt]
    split
    · simp [markedStmts_eq_iff other free ss]
    · exact (marked_eq_iff other).1 free _
  | varDecl m n ms t i => simp [(marked_eq_iff other).1]
  | ifThen m c y n =>
    simp [(marked_eq_iff other).1, markedStmt_eq_iff other free y, markedStmt_eq_iff other free n]
  | whileLoop m c b | doLoop m b c | synchronizedOn m c b =>
    simp [(marked_eq_iff other).1, markedStmt_eq_iff other free b]
  | forLoop m i c u b =>
    simp [(marked_eq_iff other).1, markedStmts_eq_iff other _ i, markedStmts_eq_iff other _ u,
      markedStmt_eq_iff other _ b]
  | foreachLoop m v e b =>
    simp [(marked_eq_iff other).1, markedVar_eq_iff other, markedStmt_eq_iff other _ b]
  | labeled m l b => simp [markedStmt_eq_iff other free b]
  | switchOn m e cs => simp [(marked_eq_iff other).1, markedCaseStmts_eq_iff other free cs]
  | tryCatch m b cs g =>
    simp [markedStmt_eq_iff other free b, markedCatches_eq_iff other free cs,
      markedStmt_eq_iff other free g]
  | throwing m e | returning m e => simp [(marked_eq_iff other).1]
  | exec m e => simp [markedExec_eq_iff other]
  | _ => exact (marked_eq_iff other).1 free _

theorem markedStmts_eq_iff (other : x ≠ y) (free : Bool) (ts : List Tree) :
    markedStmts x (fun _ => y) free ts = markedStmts x (cond · y x) free ts ↔
      markedStmts x (cond · x y) free ts = ts := by
  cases ts with
  | nil => exact ⟨fun _ => rfl, fun _ => rfl⟩
  | cons t ts => simp [markedStmt_eq_iff other free t, markedStmts_eq_iff other _ ts]

theorem markedCaseStmts_eq_iff (other : x ≠ y) (free : Bool) (cs : List Tree) :
    markedCaseStmts x (fun _ => y) free cs = markedCaseStmts x (cond · y x) free cs ↔
      markedCaseStmts x (cond · x y) free cs = cs := by
  cases cs with
  | nil => exact ⟨fun _ => rfl, fun _ => rfl⟩
  | cons c cs =>
    have others := fun free => markedCaseStmts_eq_iff other free cs
    cases c with
    | switchCase m p ss =>
      simp [(marked_eq_iff other).1, markedStmts_eq_iff other free ss, others]
    | _ =>
      refine List.cons_eq_cons.trans (Iff.trans ?_ List.cons_eq_cons.symm)
      exact and_congr ((marked_eq_iff other).1 free _) (others free)

theorem markedCatches_eq_iff (other : x ≠ y) (free : Bool) (cs : List Tree) :
    markedCatches x (fun _ => y) free cs = markedCatches x (cond · y x) free cs ↔
      markedCatches x (cond · x y) free cs = cs := by
  cases cs with
  | nil => exact ⟨fun _ => rfl, fun _ => rfl⟩
  | cons c cs =>
    have others := markedCatches_eq_iff other free cs
    cases c with
    | catchClause m v b =>
      simp [markedVar_eq_iff other, markedStmt_eq_iff other _ b, others]
    | _ =>
      refine List.cons_eq_cons.trans (Iff.trans ?_ List.cons_eq_cons.symm)
      exact and_congr ((marked_eq_iff other).1 free _) others

end

end

/-- Statements in which all identifiers of a name that are copied have another one. -/
def overwritten (x y : String) (ts : List Tree) : List Tree := markedStmts x (fun _ => y) true ts

/-- Statements in which a variable has another name, and nothing else. -/
def renamed (x y : String) (ts : List Tree) : List Tree := markedStmts x (cond · y x) true ts

/-- Statements in which the identifiers have another name that are copied and are not the
variable. -/
def mistaken (x y : String) (ts : List Tree) : List Tree := markedStmts x (cond · x y) true ts

theorem shape_overwritten (x y : String) (ts : List Tree) :
    shapeAll true (overwritten x y ts) = overwritten x y (shapeAll true ts) :=
  markedStmts_shape true ts

/-- Overwriting a name renames the variable just if no identifier is mistaken for it. -/
theorem overwritten_eq_renamed_iff {x y : String} (other : x ≠ y) (ts : List Tree) :
    shapeAll true (overwritten x y ts) = shapeAll true (renamed x y ts) ↔
      shapeAll true (mistaken x y ts) = shapeAll true ts := by
  rw [overwritten, renamed, mistaken, markedStmts_shape, markedStmts_shape, markedStmts_shape]
  exact markedStmts_eq_iff other true _

end Syntax.Tree

/-! ## The body of a method -/

namespace Relocation

theorem lookup_single {x y n other : String}
    (found : (single x y).renames.lookup n = some other) : n = x ∧ other = y := by
  rw [single, List.lookup_cons, List.lookup_nil] at found
  split at found
  · next same => exact ⟨eq_of_beq same, (Option.some.inj found).symm⟩
  · exact nomatch found

theorem wellNamed_single {x y : String} (object : x ≠ "this") (segment : Text.IsSegment y) :
    (single x y).WellNamed := by
  refine ⟨fun n other found => (lookup_single found).2 ▸ segment, ?_, fun c outer => nomatch outer⟩
  cases found : (single x y).renames.lookup "this" with
  | none => rfl
  | some other => exact absurd (lookup_single found).1.symm object

end Relocation

namespace Code

variable {x y : String} {ts : List Tree}

/-- Statements that are lifted with another name for a parameter and lowered again are the
statements that come back without it, with the new name at every place that is copied. -/
theorem lowerAll_single (proper : ProperAll ts) (object : x ≠ "this") (segment : Text.IsSegment y)
    (s : Scope) :
    ∃ plain inner, lowerAll s .statement (liftStmts .none ts) = .ok plain ∧
      shapeAll true plain = shapeAll true (normalStmts s ts) ∧
      lowerAll s .statement (liftStmts (.single x y) ts) = .ok inner ∧
        shapeAll true inner = shapeAll true (overwritten x y plain) := by
  obtain ⟨plain, lowered, same⟩ := stmtsRestore Relocation.plain_none.wellNamed s ts proper
  obtain ⟨inner, lowered', same'⟩ :=
    stmtsRestore (Relocation.wellNamed_single object segment) s ts proper
  rw [Relocation.applyStmt_eq_self.2.2.2] at same
  refine ⟨plain, inner, lowered, same, lowered', ?_⟩
  rw [same', applyStmts_eq_marked true, shape_overwritten, same, ← shape_overwritten]
  rfl

end Code

namespace SourceUnit

/-- **What renaming a parameter changes.** The body of a method that is lifted with a new name for a
parameter has the new name in the place of every identifier of the old one that is copied. So it is
the body in which just the identifiers that are the parameter have the new name if, and only if,
giving the new name to those that are not changes nothing: there are none. -/
theorem statements_renamed {t : Tree} (made : Parse.Made t) (k : Key) {x y : String}
    (object : x ≠ "this") (other : x ≠ y) (segment : Text.IsSegment y) (s : Code.Scope) :
    ∃ plain inner,
      Code.lowerAll s .statement ((ofTree t).statements k .none) = .ok plain ∧
        Code.lowerAll s .statement ((ofTree t).statements k (.single x y)) = .ok inner ∧
          shapeAll true inner = shapeAll true (overwritten x y plain) ∧
          (shapeAll true inner = shapeAll true (renamed x y plain) ↔
            shapeAll true (mistaken x y plain) = shapeAll true plain) := by
  obtain ⟨plain, inner, lowered, -, lowered', same⟩ :=
    Code.lowerAll_single (properAll_bodyParts made k) object segment s
  refine ⟨plain, inner, lowered, lowered', same, ?_⟩
  rw [same]
  exact overwritten_eq_renamed_iff other plain

/-- A method that uses its parameter. -/
theorem statements_renamed_use : ∃ t k, Parse.Made t ∧
    straysAll "s" (bodyParts ((ofTree t).decl k)).2 = 1 ∧
    ∃ plain inner,
      Code.lowerAll ⟨default, none, none⟩ .statement ((ofTree t).statements k .none) = .ok plain ∧
        Code.lowerAll ⟨default, none, none⟩ .statement ((ofTree t).statements k (.single "s" "u")) =
          .ok inner ∧
        shapeAll true inner = shapeAll true (overwritten "s" "u" plain) ∧
          (shapeAll true inner = shapeAll true (renamed "s" "u" plain) ↔
            shapeAll true (mistaken "s" "u" plain) = shapeAll true plain) := by
  let text : List Text.Glyph :=
    "class T\x7bvoid m(B s)\x7bf(s);\x7d\x7d".toList.map .char
  have found : ((Parse.unit "" text).toOption.any fun t =>
      straysAll "s" (bodyParts ((ofTree t).decl 2)).2 == 1) = true := by
    decide +kernel
  cases read : Parse.unit "" text with
  | error e => rw [read] at found; exact nomatch found
  | ok t =>
    rw [read] at found
    exact ⟨t, 2, .unit read, eq_of_beq found, statements_renamed (.unit read) 2 (by decide)
      (by decide) ⟨by decide, by decide⟩ _⟩

/-- `A r = new A() { B s; void g() { f(s); } };` -/
def takesField : List Tree → Bool
  | [.varDecl _ _ _ _ (.newObject _ _ _ _ _ (.classDecl _ _ _ _ _ _
      [.varDecl _ n₁ _ _ _, .methodDecl _ _ _ _ _ _ _ (.block _ _
        [.exec _ (.call _ _ (.ident _ _) [.ident _ n₂])])]))] => n₁ == "s" && n₂ == "s"
  | _ => false

/-- A field of a nested class with the name of the parameter gets the new name where it is used. -/
theorem statements_renamed_shadowed : ∃ t k, Parse.Made t ∧
    takesField (bodyParts ((ofTree t).decl k)).2 = true ∧
    ∀ s : Code.Scope, ∃ plain inner,
      Code.lowerAll s .statement ((ofTree t).statements k .none) = .ok plain ∧
        Code.lowerAll s .statement ((ofTree t).statements k (.single "s" "u")) = .ok inner ∧
        shapeAll true inner ≠ shapeAll true (renamed "s" "u" plain) := by
  let text : List Text.Glyph :=
    "class T\x7bvoid m(B s)\x7bA r=new A()\x7bB s;void g()\x7bf(s);\x7d\x7d;\x7d\x7d".toList.map
      .char
  have found : ((Parse.unit "" text).toOption.any fun t =>
      takesField (bodyParts ((ofTree t).decl 2)).2) = true := by
    decide +kernel
  cases read : Parse.unit "" text with
  | error e => rw [read] at found; cases found
  | ok t =>
    rw [read] at found
    change takesField (bodyParts ((ofTree t).decl 2)).2 = true at found
    refine ⟨t, 2, .unit read, found, fun s => ?_⟩
    have proper := properAll_bodyParts (.unit read) 2
    obtain ⟨plain, inner, lowered, normal, lowered', same⟩ := Code.lowerAll_single proper
      (x := "s") (y := "u") (by decide) ⟨by decide, by decide⟩ s
    refine ⟨plain, inner, lowered, lowered', ?_⟩
    rw [same, ne_eq, overwritten_eq_renamed_iff (by decide), mistaken, markedStmts_shape, normal]
    unfold takesField at found
    split at found
    · next body =>
      obtain ⟨field, used⟩ := Bool.and_eq_true_iff.mp found
      obtain rfl := eq_of_beq field
      obtain rfl := eq_of_beq used
      rw [body]
      intro kept
      simp [Code.normalStmts, Code.normalStmt, Code.normalVar, Code.normalInit, Code.normalExpr,
        unparen, shapeAll, shape, Relocation.isIdent, declares] at kept
    · cases found

end SourceUnit

end Weaver
