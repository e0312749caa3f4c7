import Weaver.Proofs.Syntax.Dotted
import Weaver.Code.Lift
import Weaver.Code.Lower
/-!
What code becomes when it is lowered.

A list of code becomes a list of trees, one for each piece. Declarations become declarations of the
same kind, and what they were made from becomes what is in them.

`normalStmt` says what comes back when a statement is lifted without any relocation and lowered
again: the same statement, in which types are written as names with arguments and brackets, constants
of type boolean have lost their parentheses, and declarations have kept the modifiers that code knows.
-/
set_option autoImplicit false

namespace Weaver.Code

open Weaver.Syntax (Tree Flags TypeTag)
open Weaver.Syntax.Tree

variable {s : Scope} {p : Place} {t : Tree} {ts : List Tree}

/-- What a computation that succeeds went through. -/
theorem ok_of_bind {ε α β : Type} {x : Except ε α} {f : α → Except ε β} {b : β}
    (h : x >>= f = .ok b) : ∃ a, x = .ok a ∧ f a = .ok b := by
  cases x with
  | error => exact nomatch h
  | ok a => exact ⟨a, rfl, h⟩

/-! ## Lists -/

theorem lowerAll_cons {c : Code} {cs : List Code} (here : c.lower s p = .ok t)
    (others : lowerAll s p cs = .ok ts) : lowerAll s p (c :: cs) = .ok (t :: ts) := by
  change (do let t ← c.lower s p; return t :: (← lowerAll s p cs)) = _
  rw [here, others]
  rfl

theorem lowerAll_singleton {c : Code} (lowered : lowerAll s p [c] = .ok ts) :
    ∃ t, ts = [t] ∧ c.lower s p = .ok t := by
  obtain ⟨t, here, whole⟩ := ok_of_bind lowered
  exact ⟨t, (Except.ok.inj whole).symm, here⟩

theorem lowerAll_append {cs ds : List Code} {us : List Tree}
    (here : lowerAll s p cs = .ok ts) (others : lowerAll s p ds = .ok us) :
    lowerAll s p (cs ++ ds) = .ok (ts ++ us) := by
  induction cs generalizing ts with
  | nil =>
    obtain rfl : [] = ts := Except.ok.inj here
    exact others
  | cons c cs ih =>
    obtain ⟨t, first, more⟩ := ok_of_bind here
    obtain ⟨ts', rest, whole⟩ := ok_of_bind more
    obtain rfl : t :: ts' = ts := Except.ok.inj whole
    exact lowerAll_cons first (ih rest)

/-- The trees of what is put behind other code. -/
theorem exists_of_append {cs ds : List Code} (lowered : lowerAll s p (cs ++ ds) = .ok ts) :
    ∃ us vs, ts = us ++ vs ∧ lowerAll s p cs = .ok us ∧ lowerAll s p ds = .ok vs := by
  induction cs generalizing ts with
  | nil => exact ⟨[], ts, rfl, rfl, lowered⟩
  | cons c cs ih =>
    obtain ⟨t, here, lowered⟩ := ok_of_bind lowered
    obtain ⟨ts', rest, lowered⟩ := ok_of_bind lowered
    obtain ⟨us, vs, rfl, first, last⟩ := ih rest
    exact ⟨t :: us, vs, (Except.ok.inj lowered).symm, lowerAll_cons here first, last⟩

/-! ## Types -/

/-- A named type is its name, a keyword or a dotted name, with its arguments and its brackets. -/
theorem lower_typeRef (n : String) (as : List Code) (d : Int) : lower s p (typeRef n as d) = do
    let e ← (match TypeTag.ofKeyword? n with
      | some tag => pure (Tree.primitive s.mark tag)
      | none => dotted s.mark n : Except Abort Tree)
    let ts ← lowerAll s .value as
    return arrayOf s.mark d.toNat (if ts.isEmpty then e else .typeApply s.mark e ts) := by
  change (match TypeTag.ofKeyword? n with
    | some tag => (do
      let ts ← lowerAll s .value as
      return arrayOf s.mark d.toNat (if ts.isEmpty then .primitive s.mark tag
        else .typeApply s.mark (.primitive s.mark tag) ts) : Except Abort Tree)
    | none => do
      let e ← dotted s.mark n
      let ts ← lowerAll s .value as
      return arrayOf s.mark d.toNat (if ts.isEmpty then e else .typeApply s.mark e ts)) = _
  cases TypeTag.ofKeyword? n <;> rfl

/-! ## Declarations -/

/-- The body of a method is what its statements become. -/
theorem body_of_lower {result : Code} {ms : Flags} {n : String}
    {as tps ps thrown ss : List Code} {implementing : Bool}
    (lowered : (Code.methodDecl ms as tps result n ps thrown ss false implementing).lower s p =
      .ok t) :
    ∃ inner m k mods tps' r ps' ts ss',
      t = .methodDecl m n mods tps' r ps' ts (.block k .empty ss') ∧
        lowerAll inner .statement ss = .ok ss' := by
  obtain ⟨as', -, lowered⟩ := ok_of_bind lowered
  obtain ⟨tps', -, lowered⟩ := ok_of_bind lowered
  obtain ⟨r, -, lowered⟩ := ok_of_bind lowered
  obtain ⟨ss', statements, lowered⟩ := ok_of_bind lowered
  obtain ⟨body, block_, lowered⟩ := ok_of_bind lowered
  obtain rfl := Except.ok.inj block_
  obtain ⟨ps', -, lowered⟩ := ok_of_bind lowered
  obtain ⟨ts, -, lowered⟩ := ok_of_bind lowered
  rw [← Except.ok.inj lowered]
  exact ⟨_, _, _, _, _, _, _, _, ss', rfl, statements⟩

end Weaver.Code

namespace Weaver

open Weaver.Syntax (Tree Mark Flags)

namespace Relocation

section

attribute [local simp] apply applyAll

theorem applyAll_eq_map (r : Relocation) (ts : List Tree) : r.applyAll ts = ts.map r.apply := by
  induction ts with
  | nil => rfl
  | cons t ts ih => simp [ih]

/-- A relocation that renames nothing and keeps `this` leaves every tree as it is. -/
theorem apply_eq_self : (∀ r t, r = none → r.apply t = t) ∧
    ∀ r ts, r = none → r.applyAll ts = ts := by
  apply apply.mutual_induct (fun r t => r = none → r.apply t = t)
    (fun r ts => r = none → r.applyAll ts = ts)
  all_goals
    intros
    subst_vars
    simp_all only [apply, applyAll, forall_const]
  case case2 => rfl
  case case3 => exact if_pos trivial
  case case4 => exact if_neg Bool.false_ne_true
  case case5 _ _ _ _ _ _ _ outer _ => cases outer

end

theorem apply_none (t : Tree) : none.apply t = t := apply_eq_self.1 none t rfl

end Relocation

namespace Code

/-! ## What comes back -/

/-- A type: its name, its arguments and its brackets as code says them. -/
def normalType (s : Scope) (t : Tree) : Tree :=
  match (liftType t).lower s .part with
  | .ok t' => t'
  | .error _ => t

/-- An expression: a constant of type boolean has lost its parentheses. -/
def normalExpr (e : Tree) : Tree :=
  match e.unparen with
  | .literal m (.boolean b) => .literal m (.boolean b)
  | _ => e

/-- An annotation. -/
def normalAnno (s : Scope) : Tree → Tree
  | .annoUse m t as => .annoUse m (normalType s t) as
  | t => t

/-- The modifiers of a variable: those that code knows. -/
def normalMods (s : Scope) : Tree → Tree
  | .modifiers m f as => .modifiers m f.forCode (as.map (normalAnno s))
  | t => t

/-- The value of a variable. -/
def normalInit : Tree → Tree
  | .newArray m .missing ds true es => .newArray m .missing ds true (es.map normalExpr)
  | e => normalExpr e

/-- A variable. -/
def normalVar (s : Scope) : Tree → Tree
  | .varDecl m n ms t i => .varDecl m n (normalMods s ms) (normalType s t) (normalInit i)
  | t => t

/-- The expression of an expression statement: assignments and calls of what has a name are taken
apart, others stay. -/
def normalExec (s : Scope) : Tree → Tree
  | .assign m a b => .assign m (normalExpr a) (normalExpr b)
  | .call m ts (.ident m' n) as =>
    .call m (ts.map (normalType s)) (.ident m' n) (as.map normalExpr)
  | .call m ts (.select m' q n) as =>
    .call m (ts.map (normalType s)) (.select m' (normalExpr q) n) (as.map normalExpr)
  | e => e

mutual

/-- A statement. -/
def normalStmt (s : Scope) : Tree → Tree
  | .block m f ss => if f == .empty then .block m f (normalStmts s ss) else .block m f ss
  | .varDecl m n ms t i => normalVar s (.varDecl m n ms t i)
  | .ifThen m c y n => .ifThen m (normalExpr c) (normalStmt s y) (normalStmt s n)
  | .whileLoop m c b => .whileLoop m (normalExpr c) (normalStmt s b)
  | .doLoop m b c => .doLoop m (normalStmt s b) (normalExpr c)
  | .forLoop m i c u b =>
    .forLoop m (normalStmts s i) (normalExpr c) (normalStmts s u) (normalStmt s b)
  | .foreachLoop m v e b => .foreachLoop m (normalVar s v) (normalExpr e) (normalStmt s b)
  | .labeled m l b => .labeled m l (normalStmt s b)
  | .switchOn m e cs => .switchOn m (normalExpr e) (normalCases s cs)
  | .synchronizedOn m e b => .synchronizedOn m (normalExpr e) (normalStmt s b)
  | .tryCatch m b cs f => .tryCatch m (normalStmt s b) (normalCatches s cs) (normalStmt s f)
  | .throwing m e => .throwing m (normalExpr e)
  | .returning m e => .returning m (normalExpr e)
  | .exec m e => .exec m (normalExec s e)
  | t => t

/-- The statements of a list. -/
def normalStmts (s : Scope) : List Tree → List Tree
  | [] => []
  | t :: ts => normalStmt s t :: normalStmts s ts

/-- The cases of a `switch` statement. -/
def normalCases (s : Scope) : List Tree → List Tree
  | [] => []
  | .switchCase m p ss :: cs =>
    .switchCase m (normalExpr p) (normalStmts s ss) :: normalCases s cs
  | c :: cs => c :: normalCases s cs

/-- The `catch` clauses of a `try` statement. -/
def normalCatches (s : Scope) : List Tree → List Tree
  | [] => []
  | .catchClause m p b :: cs =>
    .catchClause m (normalVar s p) (normalStmt s b) :: normalCatches s cs
  | c :: cs => c :: normalCatches s cs

end

end Code

end Weaver
