import Weaver.Proofs.Code.Selves
/-!
Statements in another place.

Lifting relocates the expressions of a statement and takes the rest over as it is: the types and
annotations of variables, and the type arguments of a call that stands as a statement.
`Relocation.applyStmt` says this of trees. What is not taken apart is relocated as a whole, and no
relocation looks at the places of nodes.
-/
set_option autoImplicit false

namespace Weaver

open Weaver.Syntax (Tree Mark)
open Weaver.Syntax.Tree

namespace Relocation

/-! ## Statements -/

/-- A variable whose value is relocated. -/
def applyVar (r : Relocation) : Tree → Tree
  | .varDecl m n ms t i => .varDecl m n ms t (r.apply i)
  | t => r.apply t

/-- The expression of an expression statement; the type arguments of a call of what has a name stay
as they are. -/
def applyExec (r : Relocation) : Tree → Tree
  | .call m ts (.ident m' n) as => .call m ts (.ident m' n) (r.applyAll as)
  | .call m ts (.select m' q n) as => .call m ts (.select m' (r.apply q) n) (r.applyAll as)
  | e => r.apply e

mutual

/-- A statement whose expressions are relocated. -/
def applyStmt (r : Relocation) : Tree → Tree
  | .block m f ss => if f == .empty then .block m f (applyStmts r ss) else r.apply (.block m f ss)
  | .varDecl m n ms t i => .varDecl m n ms t (r.apply i)
  | .ifThen m c y n => .ifThen m (r.apply c) (applyStmt r y) (applyStmt r n)
  | .whileLoop m c b => .whileLoop m (r.apply c) (applyStmt r b)
  | .doLoop m b c => .doLoop m (applyStmt r b) (r.apply c)
  | .forLoop m i c u b => .forLoop m (applyStmts r i) (r.apply c) (applyStmts r u) (applyStmt r b)
  | .foreachLoop m v e b => .foreachLoop m (r.applyVar v) (r.apply e) (applyStmt r b)
  | .labeled m l b => .labeled m l (applyStmt r b)
  | .switchOn m e cs => .switchOn m (r.apply e) (applyCases r cs)
  | .synchronizedOn m e b => .synchronizedOn m (r.apply e) (applyStmt r b)
  | .tryCatch m b cs f => .tryCatch m (applyStmt r b) (applyCatches r cs) (applyStmt r f)
  | .throwing m e => .throwing m (r.apply e)
  | .returning m e => .returning m (r.apply e)
  | .exec m e => .exec m (r.applyExec e)
  | t => r.apply t

/-- The statements of a list. -/
def applyStmts (r : Relocation) : List Tree → List Tree
  | [] => []
  | t :: ts => applyStmt r t :: applyStmts r ts

/-- The cases of a `switch` statement. -/
def applyCases (r : Relocation) : List Tree → List Tree
  | [] => []
  | .switchCase m p ss :: cs => .switchCase m (r.apply p) (applyStmts r ss) :: applyCases r cs
  | c :: cs => r.apply c :: applyCases r cs

/-- The `catch` clauses of a `try` statement. -/
def applyCatches (r : Relocation) : List Tree → List Tree
  | [] => []
  | .catchClause m p b :: cs => .catchClause m (r.applyVar p) (applyStmt r b) :: applyCatches r cs
  | c :: cs => r.apply c :: applyCatches r cs

end

theorem applyExec_none (t : Tree) : none.applyExec t = t := by
  unfold applyExec
  split <;> simp only [apply_none, apply_eq_self.2 none _ rfl]

theorem applyVar_none (t : Tree) : none.applyVar t = t := by
  unfold applyVar
  split <;> simp only [apply_none]

section

attribute [local simp] applyStmt applyStmts applyCases applyCatches

/-- Statements that are not moved stay as they are. -/
theorem applyStmt_eq_self : (∀ t, none.applyStmt t = t) ∧ (∀ cs, none.applyCatches cs = cs) ∧
    (∀ cs, none.applyCases cs = cs) ∧ ∀ ts, none.applyStmts ts = ts := by
  apply applyStmt.mutual_induct (fun t => none.applyStmt t = t)
    (fun cs => none.applyCatches cs = cs) (fun cs => none.applyCases cs = cs)
    (fun ts => none.applyStmts ts = ts)
  case case2 =>
    intro m f ss flagged
    rw [applyStmt, if_neg flagged, apply_none]
  all_goals
    intros
    simp_all only [applyStmt, applyStmts, applyCases, applyCatches, apply_none, applyVar_none,
      applyExec_none, if_true]

end

/-! ## Marks -/

theorem shape_ident (r : Relocation) (m m' : Mark) (n : String) :
    (r.ident m n).shape true = (r.ident m' n).shape true := by
  unfold ident
  split
  · rfl
  · split <;> rfl
  · rfl

/-- Where a tree stands makes no difference for what becomes of it. -/
theorem apply_shape : (∀ r : Relocation, ∀ t,
    (r.apply (t.shape true)).shape true = (r.apply t).shape true) ∧ ∀ r : Relocation, ∀ ts,
      shapeAll true (r.applyAll (shapeAll true ts)) = shapeAll true (r.applyAll ts) := by
  apply apply.mutual_induct
    (fun r t => (r.apply (t.shape true)).shape true = (r.apply t).shape true)
    (fun r ts => shapeAll true (r.applyAll (shapeAll true ts)) = shapeAll true (r.applyAll ts))
  case case2 => exact fun r m n => shape_ident r default m n
  case case3 =>
    intro r m ts c as name args
    rw [shape, apply, apply, isIdent_shape, if_pos name, if_pos name, shape, shape, args,
      (shape_shape true).2, (shape_shape true).1]
  case case4 =>
    intro r m ts c as other types callee args
    rw [shape, apply, apply, isIdent_shape, if_neg other, if_neg other, shape, shape, types, callee,
      args]
  case case5 =>
    intro r m n ms tps e is ds c moved defs
    simp only [shape, apply, moved, defs, shape_shape]
  all_goals
    intros
    simp only [shape, shapeAll, apply, applyAll, if_true, *]

/-! ## Names -/

/-- New names are names, `this` gets none, and what it is qualified by names a class. -/
structure WellNamed (r : Relocation) : Prop where
  names : ∀ n other, r.renames.lookup n = some other → Text.IsSegment other
  this : r.renames.lookup "this" = Option.none
  outer : ∀ c ∈ r.outer, IsClassName c

variable {r : Relocation}

theorem Plain.wellNamed (h : r.Plain) : r.WellNamed := by
  refine ⟨fun n other found => ?_, ?_, h.outer⟩
  · rw [h.renames] at found
    exact nomatch found
  · rw [h.renames]
    rfl

theorem WellNamed.rename (h : r.WellNamed) {n : String} (segment : Text.IsSegment n) :
    Text.IsSegment (r.rename n) := by
  unfold Relocation.rename
  cases found : r.renames.lookup n with
  | none => exact segment
  | some other => exact h.names n other found

/-- A name other than `this` is renamed. -/
theorem ident_of_ne {n : String} (other : n ≠ "this") (m : Mark) :
    r.ident m n = .ident m (r.rename n) := by
  unfold ident Relocation.rename
  cases r.renames.lookup n with
  | some => rfl
  | none =>
    cases r.outer with
    | none => rfl
    | some => exact if_neg (by simpa using other)

/-- In a chain of selections only the first name is relocated. -/
theorem apply_chain (m : Mark) (e : Tree) (ns : List String) :
    r.apply (ns.foldl (fun e n => .select m e n) e) =
      ns.foldl (fun e n => .select m e n) (r.apply e) := by
  induction ns generalizing e with
  | nil => rfl
  | cons n ns ih => rw [List.foldl_cons, ih, apply, List.foldl_cons]

end Relocation

end Weaver
