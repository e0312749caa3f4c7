import Weaver.Proofs.Code.Restore
import Weaver.Proofs.Parse.Proper
/-!
Lowering statements that were lifted.

The main result is that the statements of a block that was read from a text come back as
`Code.normalStmts` says. One lemma for each kind of statement says what lowering restores if it
restores the parts; the rest is an induction over the statements.
-/
set_option autoImplicit false

namespace Weaver.Code

open Weaver.Syntax (Tree Mark Flags)
open Weaver.Syntax.Tree
open Weaver.Text (Glyph)

variable {r : Relocation} {s : Scope} {t e : Tree} {ts : List Tree}

theorem isExec_shape (t : Tree) : isExec (t.shape true) = isExec t := by
  cases t <;> rfl

/-- Updates are lowered as statements are, if expression statements come out. -/
theorem lowerUpdates_of_lowerAll {cs : List Code} (lowered : lowerAll s .statement cs = .ok ts)
    (execs : ∀ t ∈ ts, isExec t = true) : lowerUpdates s cs = .ok ts := by
  induction cs generalizing ts with
  | nil => exact lowered
  | cons c cs ih =>
    change (do let t ← c.lower s .statement; return t :: (← lowerAll s .statement cs)) = _ at lowered
    cases here : c.lower s .statement with
    | error => rw [here] at lowered; exact nomatch lowered
    | ok t =>
      cases others : lowerAll s .statement cs with
      | error => rw [here, others] at lowered; exact nomatch lowered
      | ok ts' =>
        rw [here, others] at lowered
        obtain rfl : t :: ts' = ts := Except.ok.inj lowered
        change (do
          let t ← c.lower s .statement
          if isExec t then return t :: (← lowerUpdates s cs)
          else throw (Abort.promise ("javac: for update is not an expression statement: " ++ c.kind))) = _
        rw [here, ih others fun t ht => execs t (List.mem_cons_of_mem _ ht)]
        exact if_pos (execs t List.mem_cons_self)

theorem liftExec_ne_missing (r : Relocation) (t e : Tree) : liftExec r t e ≠ missing := by
  unfold liftExec
  split
  · exact Code.noConfusion
  · unfold liftCall?
    split <;> exact Code.noConfusion
  · exact Code.noConfusion

theorem liftStmt_ne_missing (r : Relocation) (t : Tree) : liftStmt r t ≠ missing := by
  cases t
  case block m f ss =>
    change (if f == .empty then block (liftStmts r ss) else _) ≠ _
    split <;> exact Code.noConfusion
  case returning m e => cases e <;> exact Code.noConfusion
  case exec m e => exact liftExec_ne_missing r _ e
  case ifThen m c y n => cases n <;> exact Code.noConfusion
  case tryCatch m b cs f => cases f <;> exact Code.noConfusion
  all_goals exact Code.noConfusion

/-- Lifts a part that may be missing. -/
def liftOptional (lift : Tree → Code) : Tree → Code
  | .missing => missing
  | t => lift t

/-- A part that may be missing is restored if it is restored where it stands. -/
theorem restoresOptional_lift {p : Place} {lift : Tree → Code} {u : Tree}
    (absent : t = .missing → u = .missing) (some_ : lift t ≠ missing)
    (present : t ≠ .missing → Restores ((lift t).lower s p) u) :
    RestoresOptional s p (liftOptional lift t) u := by
  cases t
  case missing => exact .inl ⟨rfl, absent rfl⟩
  all_goals exact .inr ⟨some_, present Tree.noConfusion⟩

theorem restoresOptional_expr (r : Relocation) (e : Tree) :
    RestoresOptional s .value (liftOptional (liftExpr r) e) (r.apply (normalExpr e)) :=
  restoresOptional_lift (fun absent => by rw [absent]; rfl) (liftExpr_ne_missing _ e)
    fun _ => restores_expr r e

theorem lower_ifThen (p : Place) (c y n : Code) : (ifThen c y n).lower s p =
    lowerThen s .statement (fun n => do
      return .ifThen s.mark (← c.lower s .value) (← y.lower s .statement) n) n := by
  cases n <;> rfl

theorem lower_forLoop (p : Place) (i u : List Code) (c b : Code) : (forLoop i c u b).lower s p =
    lowerThen s .value (fun c => do
      let u ← lowerUpdates s u
      let i ← lowerAll s .statement i
      return .forLoop s.mark i c u (← b.lower s .statement)) c := by
  cases c <;> rfl

theorem lower_switchCase (p : Place) (pat : Code) (ss : List Code) : (switchCase pat ss).lower s p =
    lowerThen s .value (fun pat => do
      return .switchCase s.mark pat (← lowerAll s .statement ss)) pat := by
  cases pat <;> rfl

theorem lower_tryCatch (p : Place) (b f : Code) (cs : List Code) : (tryCatch b cs f).lower s p = (do
    let cs ← lowerAll s .part cs
    lowerThen s .part (fun f => do return .tryCatch s.mark (← b.lower s .part) cs f) f) := by
  cases f <;> rfl

theorem lower_returning (p : Place) (e : Code) : (returning e).lower s p =
    lowerThen s .value (fun e => return .returning s.mark e) e := by
  cases e <;> rfl

theorem liftStmt_returning (r : Relocation) (m : Mark) (e : Tree) :
    liftStmt r (.returning m e) = returning (liftOptional (liftExpr r) e) := by
  cases e <;> rfl

theorem liftStmt_ifThen (r : Relocation) (m : Mark) (c y n : Tree) : liftStmt r (.ifThen m c y n) =
    ifThen (liftExpr r c) (liftStmt r y) (liftOptional (liftStmt r) n) := by
  cases n <;> rfl

theorem liftStmt_forLoop (r : Relocation) (m : Mark) (i u : List Tree) (c b : Tree) :
    liftStmt r (.forLoop m i c u b) = forLoop (liftStmts r i)
      (liftOptional (liftExpr r) c) (liftStmts r u) (liftStmt r b) := by
  cases c <;> rfl

theorem liftStmt_tryCatch (r : Relocation) (m : Mark) (b f : Tree) (cs : List Tree) :
    liftStmt r (.tryCatch m b cs f) = tryCatch (liftBlock r b) (liftCatches r cs)
      (liftOptional (liftBlock r) f) := by
  cases f <;> rfl

theorem liftCases_switchCase (r : Relocation) (m : Mark) (p : Tree) (ss cs : List Tree) :
    liftCases r (.switchCase m p ss :: cs) =
      switchCase (liftOptional (liftExpr r) p) (liftStmts r ss) :: liftCases r cs := by
  cases p <;> rfl

theorem liftBlock_ne_missing (r : Relocation) (t : Tree) : liftBlock r t ≠ missing := by
  cases t <;> exact Code.noConfusion

/-! ## One statement -/

/-- A statement comes back relocated, in its normal form. -/
def StmtRestores (r : Relocation) (s : Scope) (t : Tree) : Prop :=
  Restores ((liftStmt r t).lower s .statement) (r.applyStmt (normalStmt s t))

/-- Statements come back relocated, in their normal form. -/
def StmtsRestore (r : Relocation) (s : Scope) (ts : List Tree) : Prop :=
  RestoresAll (lowerAll s .statement (liftStmts r ts)) (r.applyStmts (normalStmts s ts))

theorem restores_body {b : Tree} (body : b.IsBody) (h : StmtRestores r s b) :
    Restores ((liftBlock r b).lower s .part) (r.applyStmt (normalStmt s b)) := by
  obtain ⟨m, ss, rfl⟩ := body
  exact h

theorem restores_block {m : Mark} {ss : List Tree} (h : StmtsRestore r s ss) (f : Flags) :
    StmtRestores r s (.block m f ss) := by
  change Restores ((if f == .empty then block (liftStmts r ss)
    else hostStmt (r.apply (.block m f ss))).lower s .statement)
    (r.applyStmt (if f == .empty then .block m f (normalStmts s ss) else .block m f ss))
  split
  · next plain =>
    obtain ⟨ss', lowered, same⟩ := h
    refine ⟨.block s.mark .empty ss', ?_, ?_⟩
    · change (do return Tree.block s.mark .empty (← lowerAll s .statement (liftStmts r ss))) = _
      rw [lowered]
      rfl
    · rw [Relocation.applyStmt, if_pos plain, shape, shape, same, eq_of_beq plain]
  · next flagged =>
    rw [Relocation.applyStmt, if_neg flagged]
    exact ⟨_, rfl, rfl⟩

theorem restores_ifThen {m : Mark} {c y n : Tree} (yes : StmtRestores r s y)
    (no : StmtRestores r s n) : StmtRestores r s (.ifThen m c y n) := by
  obtain ⟨c', cond, same⟩ := restores_expr (s := s) r c
  obtain ⟨y', yes, same'⟩ := yes
  have no : RestoresOptional s .statement (liftOptional (liftStmt r) n)
      (r.applyStmt (normalStmt s n)) :=
    restoresOptional_lift (fun absent => by rw [absent]; rfl) (liftStmt_ne_missing _ n) fun _ => no
  obtain ⟨n', same'', lowered⟩ := no.lowerThen fun n => do
    return .ifThen s.mark (← (liftExpr r c).lower s .value)
      (← (liftStmt r y).lower s .statement) n
  refine ⟨.ifThen s.mark c' y' n', ?_, ?_⟩
  · rw [liftStmt_ifThen, lower_ifThen, lowered, cond, yes]
    rfl
  · change _ = shape true (r.applyStmt (.ifThen m (normalExpr c) (normalStmt s y) (normalStmt s n)))
    simp only [Relocation.applyStmt, shape, same, same', same'']

theorem restores_whileLoop {m : Mark} {c b : Tree} (body : StmtRestores r s b) :
    StmtRestores r s (.whileLoop m c b) := by
  obtain ⟨c', cond, same⟩ := restores_expr (s := s) r c
  obtain ⟨b', body, same'⟩ := body
  refine ⟨.whileLoop s.mark c' b', ?_, ?_⟩
  · change (do
      return Tree.whileLoop s.mark (← (liftExpr r c).lower s .value)
        (← (liftStmt r b).lower s .statement)) = _
    rw [cond, body]
    rfl
  · change _ = shape true (r.applyStmt (.whileLoop m (normalExpr c) (normalStmt s b)))
    simp only [Relocation.applyStmt, shape, same, same']

theorem restores_doLoop {m : Mark} {c b : Tree} (body : StmtRestores r s b) :
    StmtRestores r s (.doLoop m b c) := by
  obtain ⟨c', cond, same⟩ := restores_expr (s := s) r c
  obtain ⟨b', body, same'⟩ := body
  refine ⟨.doLoop s.mark b' c', ?_, ?_⟩
  · change (do
      return Tree.doLoop s.mark (← (liftStmt r b).lower s .statement)
        (← (liftExpr r c).lower s .value)) = _
    rw [body, cond]
    rfl
  · change _ = shape true (r.applyStmt (.doLoop m (normalStmt s b) (normalExpr c)))
    simp only [Relocation.applyStmt, shape, same, same']

/-- Expression statements stay expression statements. -/
theorem execs_applyStmts {us : List Tree} (execs : ∀ u ∈ us, u.IsExec) :
    ∀ ts, shapeAll true ts = shapeAll true (r.applyStmts (normalStmts s us)) →
      ∀ t ∈ ts, isExec t = true := by
  induction us with
  | nil =>
    intro ts same t member
    cases ts with
    | nil => exact absurd member List.not_mem_nil
    | cons => exact nomatch same
  | cons u us ih =>
    intro ts same t member
    cases ts with
    | nil => exact nomatch same
    | cons t' ts =>
      obtain ⟨here, others⟩ := List.cons.inj same
      rcases List.mem_cons.mp member with rfl | member
      · obtain ⟨m, e, rfl⟩ := execs u List.mem_cons_self
        rw [← isExec_shape, here]
        rfl
      · exact ih (fun u hu => execs u (List.mem_cons_of_mem _ hu)) ts others t member

theorem restores_forLoop {m : Mark} {i u : List Tree} {c b : Tree} (execs : ∀ x ∈ u, x.IsExec)
    (inits : StmtsRestore r s i) (updates : StmtsRestore r s u) (body : StmtRestores r s b) :
    StmtRestores r s (.forLoop m i c u b) := by
  obtain ⟨i', inits, same⟩ := inits
  obtain ⟨u', updates, same'⟩ := updates
  obtain ⟨b', body, same''⟩ := body
  obtain ⟨c', sameCond, lowered⟩ := (restoresOptional_expr (s := s) r c).lowerThen fun c => do
    let u ← lowerUpdates s (liftStmts r u)
    let i ← lowerAll s .statement (liftStmts r i)
    return .forLoop s.mark i c u (← (liftStmt r b).lower s .statement)
  refine ⟨.forLoop s.mark i' c' u' b', ?_, ?_⟩
  · rw [liftStmt_forLoop, lower_forLoop, lowered, inits, body,
      lowerUpdates_of_lowerAll updates (execs_applyStmts execs u' same')]
    rfl
  · change _ = shape true (r.applyStmt (.forLoop m (normalStmts s i) (normalExpr c)
      (normalStmts s u) (normalStmt s b)))
    simp only [Relocation.applyStmt, shape, same, same', same'', sameCond]

theorem restores_foreachLoop {m : Mark} {v b : Tree} (param : v.IsParam) (proper : v.Proper)
    (body : StmtRestores r s b) : StmtRestores r s (.foreachLoop m v e b) := by
  obtain ⟨m', n, ms, ty, rfl⟩ := param
  obtain ⟨v', var, same⟩ := restores_local (s := s) r proper .part
  obtain ⟨e', expr, same'⟩ := restores_expr (s := s) r e
  obtain ⟨b', body, same''⟩ := body
  refine ⟨.foreachLoop s.mark v' e' b', ?_, ?_⟩
  · change (do
      return Tree.foreachLoop s.mark
        (← (liftLocal r (.varDecl m' n ms ty .missing)).lower s .part)
        (← (liftExpr r e).lower s .value) (← (liftStmt r b).lower s .statement)) = _
    rw [var, expr, body]
    rfl
  · change _ = shape true (r.applyStmt (.foreachLoop m (normalVar s _) (normalExpr e)
      (normalStmt s b)))
    simp only [Relocation.applyStmt, shape, same, same', same'']

theorem restores_labeled {m : Mark} {b : Tree} (l : String) (body : StmtRestores r s b) :
    StmtRestores r s (.labeled m l b) := by
  obtain ⟨b', body, same⟩ := body
  refine ⟨.labeled s.mark l b', ?_, ?_⟩
  · change (do return Tree.labeled s.mark l (← (liftStmt r b).lower s .statement)) = _
    rw [body]
    rfl
  · change _ = shape true (r.applyStmt (.labeled m l (normalStmt s b)))
    simp only [Relocation.applyStmt, shape, same]

theorem restores_synchronizedOn {m : Mark} {b : Tree} (block : b.IsBody)
    (body : StmtRestores r s b) : StmtRestores r s (.synchronizedOn m e b) := by
  obtain ⟨e', lock, same⟩ := restores_expr (s := s) r e
  obtain ⟨b', body, same'⟩ := restores_body block body
  refine ⟨.synchronizedOn s.mark e' b', ?_, ?_⟩
  · change (do
      return Tree.synchronizedOn s.mark (← (liftExpr r e).lower s .value)
        (← (liftBlock r b).lower s .part)) = _
    rw [lock, body]
    rfl
  · change _ = shape true (r.applyStmt (.synchronizedOn m (normalExpr e) (normalStmt s b)))
    simp only [Relocation.applyStmt, shape, same, same']

theorem restores_switchOn {m : Mark} {cs : List Tree}
    (cases_ : RestoresAll (lowerAll s .part (liftCases r cs)) (r.applyCases (normalCases s cs))) :
    StmtRestores r s (.switchOn m e cs) := by
  obtain ⟨e', selector, same⟩ := restores_expr (s := s) r e
  obtain ⟨cs', cases_, same'⟩ := cases_
  refine ⟨.switchOn s.mark e' cs', ?_, ?_⟩
  · change (do
      let cs ← lowerAll s .part (liftCases r cs)
      return Tree.switchOn s.mark (← (liftExpr r e).lower s .value) cs) = _
    rw [selector, cases_]
    rfl
  · change _ = shape true (r.applyStmt (.switchOn m (normalExpr e) (normalCases s cs)))
    simp only [Relocation.applyStmt, shape, same, same']

theorem restores_tryCatch {m : Mark} {b f : Tree} {cs : List Tree} (block : b.IsBody)
    (final : f = .missing ∨ f.IsBody) (body : StmtRestores r s b)
    (catches : RestoresAll (lowerAll s .part (liftCatches r cs))
      (r.applyCatches (normalCatches s cs)))
    (last : StmtRestores r s f) : StmtRestores r s (.tryCatch m b cs f) := by
  obtain ⟨b', body, same⟩ := restores_body block body
  obtain ⟨cs', catches, same'⟩ := catches
  have last : RestoresOptional s .part (liftOptional (liftBlock r) f)
      (r.applyStmt (normalStmt s f)) :=
    restoresOptional_lift (fun absent => by rw [absent]; rfl) (liftBlock_ne_missing _ f)
      fun some_ => restores_body (final.resolve_left some_) last
  obtain ⟨f', same'', lowered⟩ := last.lowerThen fun f => do
    return .tryCatch s.mark (← (liftBlock r b).lower s .part) cs' f
  refine ⟨.tryCatch s.mark b' cs' f', ?_, ?_⟩
  · rw [liftStmt_tryCatch, lower_tryCatch, catches]
    refine lowered.trans ?_
    rw [body]
    rfl
  · change _ = shape true (r.applyStmt (.tryCatch m (normalStmt s b) (normalCatches s cs)
      (normalStmt s f)))
    simp only [Relocation.applyStmt, shape, same, same', same'']

theorem restores_throwing (r : Relocation) (m : Mark) (e : Tree) :
    StmtRestores r s (.throwing m e) := by
  obtain ⟨e', thrown, same⟩ := restores_expr (s := s) r e
  refine ⟨.throwing s.mark e', ?_, ?_⟩
  · change (do return Tree.throwing s.mark (← (liftExpr r e).lower s .value)) = _
    rw [thrown]
    rfl
  · change _ = shape true (r.applyStmt (.throwing m (normalExpr e)))
    simp only [Relocation.applyStmt, shape, same]

theorem restores_returning (r : Relocation) (m : Mark) (e : Tree) :
    StmtRestores r s (.returning m e) := by
  obtain ⟨e', same, lowered⟩ :=
    (restoresOptional_expr (s := s) r e).lowerThen fun e => return .returning s.mark e
  refine ⟨.returning s.mark e', ?_, ?_⟩
  · rw [liftStmt_returning, lower_returning, lowered]
    rfl
  · change _ = shape true (r.applyStmt (.returning m (normalExpr e)))
    simp only [Relocation.applyStmt, shape, same]

/-- A statement that is carried along as a tree. -/
theorem restores_host (lifted : liftStmt r t = hostStmt (r.apply t)) (same : normalStmt s t = t)
    (whole : r.applyStmt t = r.apply t) : StmtRestores r s t := by
  refine ⟨r.apply t, ?_, by rw [same, whole]⟩
  rw [lifted]
  rfl

/-! ## Lists of statements, cases and `catch` clauses -/

theorem restoreAll_cons {p : Place} {c : Code} {cs : List Code} {u : Tree} {us : List Tree}
    (here : Restores (c.lower s p) u) (others : RestoresAll (lowerAll s p cs) us) :
    RestoresAll (lowerAll s p (c :: cs)) (u :: us) := by
  obtain ⟨t, lowered, same⟩ := here
  obtain ⟨ts, lowered', same'⟩ := others
  exact ⟨t :: ts, lowerAll_cons lowered lowered', by rw [shapeAll, shapeAll, same, same']⟩

theorem restores_switchCase {m : Mark} {p : Tree} {ss cs : List Tree} (body : StmtsRestore r s ss)
    (others : RestoresAll (lowerAll s .part (liftCases r cs)) (r.applyCases (normalCases s cs))) :
    RestoresAll (lowerAll s .part (liftCases r (.switchCase m p ss :: cs)))
      (r.applyCases (normalCases s (.switchCase m p ss :: cs))) := by
  obtain ⟨ss', body, same⟩ := body
  obtain ⟨p', same', lowered⟩ := (restoresOptional_expr (s := s) r p).lowerThen fun p => do
    return .switchCase s.mark p (← lowerAll s .statement (liftStmts r ss))
  rw [liftCases_switchCase]
  refine restoreAll_cons ⟨.switchCase s.mark p' ss', ?_, ?_⟩ others
  · rw [lower_switchCase, lowered, body]
    rfl
  · simp only [shape, same, same']

theorem restores_catchClause {m : Mark} {p b : Tree} {cs : List Tree} (param : p.IsParam)
    (proper : p.Proper) (block : b.IsBody) (body : StmtRestores r s b)
    (others : RestoresAll (lowerAll s .part (liftCatches r cs))
      (r.applyCatches (normalCatches s cs))) :
    RestoresAll (lowerAll s .part (liftCatches r (.catchClause m p b :: cs)))
      (r.applyCatches (normalCatches s (.catchClause m p b :: cs))) := by
  obtain ⟨p', caught, same⟩ := restores_param (s := s) param proper
  obtain ⟨b', body, same'⟩ := restores_body block body
  -- the variable of a clause has no value that could be relocated
  have unmoved : r.applyVar (normalVar s p) = normalVar s p := by
    obtain ⟨m', n, ms, ty, rfl⟩ := param
    rfl
  refine restoreAll_cons ⟨.catchClause s.mark p' b', ?_, ?_⟩ others
  · change (do
      return Tree.catchClause s.mark (← (liftParam p).lower s .part)
        (← (liftBlock r b).lower s .part)) = _
    rw [caught, body]
    rfl
  · simp only [unmoved, shape, same, same']

/-! ## All statements -/

mutual

/-- Every proper statement comes back relocated, in its normal form. -/
theorem stmtRestores (h : r.WellNamed) (s : Scope) : ∀ t : Tree, t.Proper → StmtRestores r s t
  | .block _ f ss, p => restores_block (stmtsRestore h s ss p) f
  | .varDecl _ _ _ _ _, p => restores_local r p .statement
  | .ifThen _ _ y n, p => restores_ifThen (stmtRestores h s y p.2.1) (stmtRestores h s n p.2.2)
  | .whileLoop _ _ b, p => restores_whileLoop (stmtRestores h s b p.2)
  | .doLoop _ b _, p => restores_doLoop (stmtRestores h s b p.1)
  | .forLoop _ i _ u b, p =>
    restores_forLoop p.1 (stmtsRestore h s i p.2.1) (stmtsRestore h s u p.2.2.2.1)
      (stmtRestores h s b p.2.2.2.2)
  | .foreachLoop _ _ _ b, p => restores_foreachLoop p.1 p.2.1 (stmtRestores h s b p.2.2.2)
  | .labeled _ l b, p => restores_labeled l (stmtRestores h s b p)
  | .switchOn _ _ cs, p => restores_switchOn (casesRestore h s cs p.1 p.2.2)
  | .synchronizedOn _ _ b, p => restores_synchronizedOn p.1 (stmtRestores h s b p.2.2)
  | .tryCatch _ b cs f, p =>
    restores_tryCatch p.1 p.2.2.1 (stmtRestores h s b p.2.2.2.1)
      (catchesRestore h s cs p.2.1 p.2.2.2.2.1) (stmtRestores h s f p.2.2.2.2.2)
  | .throwing m e, _ => restores_throwing r m e
  | .returning m e, _ => restores_returning r m e
  | .breaking .., _ | .continuing .., _ => ⟨_, rfl, rfl⟩
  | .exec _ _, p => restores_exec h p
  | .switchCase .., _ | .catchClause .., _ | .missing, _ | .unit .., _ | .importDecl .., _
  | .classDecl .., _ | .methodDecl .., _ | .modifiers .., _ | .annoUse .., _ | .typeParam .., _
  | .skip _, _ | .ident .., _ | .select .., _ | .call .., _ | .newObject .., _ | .newArray .., _
  | .parens .., _ | .assign .., _ | .assignOp .., _ | .unary .., _ | .binary .., _
  | .conditional .., _ | .cast .., _ | .instanceOf .., _ | .indexed .., _ | .literal .., _
  | .primitive .., _ | .arrayType .., _ | .typeApply .., _ | .wildcard .., _ =>
    restores_host rfl rfl rfl

theorem stmtsRestore (h : r.WellNamed) (s : Scope) :
    ∀ ts : List Tree, ProperAll ts → StmtsRestore r s ts
  | [], _ => ⟨[], rfl, rfl⟩
  | t :: ts, p => restoreAll_cons (stmtRestores h s t p.1) (stmtsRestore h s ts p.2)

/-- The cases of a `switch` statement come back in their normal form. -/
theorem casesRestore (h : r.WellNamed) (s : Scope) : ∀ cs : List Tree, (∀ c ∈ cs, c.IsCase) →
    ProperAll cs →
      RestoresAll (lowerAll s .part (liftCases r cs)) (r.applyCases (normalCases s cs))
  | [], _, _ => ⟨[], rfl, rfl⟩
  | c :: cs, kinds, p => by
    have others := casesRestore h s cs (fun c hc => kinds c (List.mem_cons_of_mem _ hc)) p.2
    have kind := kinds c List.mem_cons_self
    cases c
    case switchCase m pat ss => exact restores_switchCase (stmtsRestore h s ss p.1.2) others
    all_goals
      obtain ⟨_, _, _, other⟩ := kind
      exact nomatch other

/-- The `catch` clauses of a `try` statement come back in their normal form. -/
theorem catchesRestore (h : r.WellNamed) (s : Scope) : ∀ cs : List Tree, (∀ c ∈ cs, c.IsCatch) →
    ProperAll cs →
      RestoresAll (lowerAll s .part (liftCatches r cs)) (r.applyCatches (normalCatches s cs))
  | [], _, _ => ⟨[], rfl, rfl⟩
  | c :: cs, kinds, p => by
    have others := catchesRestore h s cs (fun c hc => kinds c (List.mem_cons_of_mem _ hc)) p.2
    have kind := kinds c List.mem_cons_self
    cases c
    case catchClause m v b =>
      obtain ⟨param, block, variable_, body⟩ := p.1
      exact restores_catchClause param variable_ block (stmtRestores h s b body) others
    all_goals
      obtain ⟨_, _, _, other⟩ := kind
      exact nomatch other

end

/-- The statements of every block that the parser makes, lifted without a relocation and lowered
again, are the statements in their normal form, up to marks. -/
theorem lowerAll_liftStmts_of_made {t : Tree} (made : Parse.Made t) {m : Mark} {f : Flags}
    {ss : List Tree} (block : Tree.block m f ss ∈ t.nodes) (s : Scope) :
    ∃ ss', lowerAll s .statement (liftStmts .none ss) = .ok ss' ∧
      shapeAll true ss' = shapeAll true (normalStmts s ss) := by
  have back := stmtsRestore Relocation.plain_none.wellNamed s ss
    ((proper_of_visit _).1 t _ block made.proper)
  rwa [StmtsRestore, Relocation.applyStmt_eq_self.2.2.2] at back

/-- A block has no other statement than a loop with the condition `(true)`. -/
def isEndless : Tree → Bool
  | .block _ _ [.whileLoop _ (.parens _ (.literal _ (.boolean b))) _] => b
  | _ => false

/-- A loop without end in a class comes back without the parentheses of its condition. -/
theorem lowerAll_liftStmts_endless : ∃ t m f m₁ m₂ m₃ b, Parse.Made t ∧
    Tree.block m f [.whileLoop m₁ (.parens m₂ (.literal m₃ (.boolean true))) b] ∈ t.nodes ∧
      ∀ s : Scope, ∃ ss', lowerAll s .statement (liftStmts .none
          [.whileLoop m₁ (.parens m₂ (.literal m₃ (.boolean true))) b]) = .ok ss' ∧
        shapeAll true ss' = shapeAll true [.whileLoop m₁ (.literal m₃ (.boolean true))
          (normalStmt s b)] := by
  let text : List Glyph := "class A\x7b\x7bwhile((true))a.f();\x7d\x7d".toList.map .char
  have found : ((Parse.unit "" text).toOption.any fun u => u.nodes.any isEndless) = true := by
    decide +kernel
  cases read : Parse.unit "" text with
  | error e => rw [read] at found; cases found
  | ok u =>
    rw [read] at found
    obtain ⟨x, member, loop⟩ := List.any_eq_true.mp found
    unfold isEndless at loop
    split at loop
    · next m f m₁ m₂ m₃ b body =>
      obtain rfl : b = true := loop
      exact ⟨u, m, f, m₁, m₂, m₃, body, .unit read, member,
        lowerAll_liftStmts_of_made (.unit read) member⟩
    · cases loop

end Weaver.Code
