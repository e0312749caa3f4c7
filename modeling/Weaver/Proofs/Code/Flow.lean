import Weaver.Proofs.Code.RoundTrip
/-!
Which statements control can come to.

A compiler refuses a body with a statement that control cannot come to, and it does not decide this
by what conditions mean: a statement completes normally by the form it has, and only conditions that
are constants count. `Tree.flow` is this judgement. Of a statement that control comes to, it says
whether the statement can complete normally, which jumps lead out of it, and whether control can
come to every statement in it.

What a compiler knows beyond the form of a statement are the values of constants, and which `catch`
clauses a block can come to. Both are `Facts` here. Statements that are lifted, relocated and lowered
again have the flow that they had before, if nothing else is known of their parts in the new place.
-/
set_option autoImplicit false

namespace Weaver

open Weaver.Syntax (Tree Mark)

/-- A jump to the end of a statement or to the next round of a loop, with its label or with none. -/
inductive Jump where
  | exit (label : String)
  | next (label : String)
deriving Repr, DecidableEq

/-- The jump begins the next round of a loop with these labels, from inside of its body. -/
def Jump.resumes (labels : List String) : Jump → Bool
  | exit _ => false
  | next l => l == "" || labels.contains l

/-- What becomes of control that comes to a statement. -/
structure Flow where
  /-- The statement can complete normally. -/
  completes : Bool
  /-- The jumps that lead out of it, as far as control comes to them. -/
  leaves : List Jump
  /-- Control can come to every statement in it. -/
  reached : Bool
deriving Repr, DecidableEq

namespace Flow

/-- A statement that control passes. -/
def through : Flow := ⟨true, [], true⟩

/-- A statement that control only leaves by these jumps. -/
def stop (leaves : List Jump) : Flow := ⟨false, leaves, true⟩

/-- Statements in a row. Control does not come to what stands behind one that cannot complete. -/
def row : List Flow → Flow
  | [] => through
  | a :: as =>
    if a.completes then
      ⟨(row as).completes, a.leaves ++ (row as).leaves, a.reached && (row as).reached⟩
    else ⟨false, a.leaves, a.reached && as.isEmpty⟩

/-- One of two statements. What a condition is does not count, constant or not. -/
def either (a b : Flow) : Flow :=
  ⟨a.completes || b.completes, a.leaves ++ b.leaves, a.reached && b.reached⟩

/-- The jumps that a loop with these labels does not take itself. -/
def beyond (labels : List String) (a : Flow) : List Jump :=
  a.leaves.filter fun j => !(j == .exit "" || j.resumes labels)

/-- A loop that tests before each round, with the value of its condition if that is a constant. -/
def loop (labels : List String) (test : Option Bool) (a : Flow) : Flow where
  completes := test != some true || a.leaves.contains (.exit "")
  leaves := if test == some false then [] else a.beyond labels
  reached := test != some false && a.reached

/-- A loop that tests behind each round. Control comes to the condition at the end of the body and
from each jump to the next round. -/
def doLoop (labels : List String) (test : Option Bool) (a : Flow) : Flow where
  completes := (test != some true && (a.completes || a.leaves.any (·.resumes labels))) ||
    a.leaves.contains (.exit "")
  leaves := a.beyond labels
  reached := a.reached

/-- A statement with a label. -/
def labeled (label : String) (a : Flow) : Flow where
  completes := a.completes || a.leaves.contains (.exit label)
  leaves := a.leaves.filter (· != .exit label)
  reached := a.reached

/-- The cases of a `switch` statement, with the one for all other values marked. Control comes to
each of them by its label. -/
def switch (cases : List (Bool × Flow)) : Flow where
  completes := cases.getLast?.all (·.2.completes) || !cases.any (·.1) ||
    cases.any (·.2.leaves.contains (.exit ""))
  leaves := (cases.flatMap (·.2.leaves)).filter (· != .exit "")
  reached := cases.all (·.2.reached)

/-- A block with the clauses behind it that control may come to, and what is done at last. If that
cannot complete, no jump gets past it. -/
def tried (a : Flow) (caught : Nat → Bool) (clauses : List Flow) (last : Flow) : Flow :=
  let entered := (clauses.zipIdx.filter fun c => caught c.2).map Prod.fst
  { completes := (a.completes || entered.any (·.completes)) && last.completes
    leaves := (if last.completes then a.leaves ++ entered.flatMap (·.leaves) else []) ++ last.leaves
    reached := a.reached && clauses.zipIdx.all (fun c => caught c.2 && c.1.reached) && last.reached }

/-- One more statement at the end. -/
theorem row_concat (as : List Flow) (b : Flow) :
    (row (as ++ [b])).completes = ((row as).completes && b.completes) ∧
      (row (as ++ [b])).reached = ((row as).reached && ((row as).completes && b.reached)) := by
  induction as with
  | nil =>
    cases h : b.completes <;> simp [row, through, h]
  | cons a as ih =>
    cases h : a.completes
    · simp [row, h]
    · simp [row, h, ih.1, ih.2, Bool.and_assoc]

end Flow

/-- What is known of the parts of statements besides their form. -/
structure Facts where
  /-- The value of a condition that is a constant. -/
  truth : Tree → Option Bool
  /-- Whether the block gets to one of the `catch` clauses with these parameters. -/
  caught : Tree → List Tree → Nat → Bool

namespace Syntax.Tree

variable (F : Facts)

mutual

/-- The flow of a statement with these labels. Nested classes have bodies of their own; a block with
flags is part of a class as well. -/
def flow : List String → Tree → Flow
  | _, block _ f ss => if f == .empty then .row (flows ss) else .through
  | _, ifThen _ _ y n => .either (flow [] y) (flow [] n)
  | ls, whileLoop _ c b => .loop ls (F.truth c) (flow [] b)
  | ls, doLoop _ b c => .doLoop ls (F.truth c) (flow [] b)
  | ls, forLoop _ _ c _ b => .loop ls (if c.isMissing then some true else F.truth c) (flow [] b)
  | ls, foreachLoop _ _ _ b => .loop ls none (flow [] b)
  | ls, labeled _ l b => .labeled l (flow (l :: ls) b)
  | _, switchOn _ _ cs => .switch (flowCases cs)
  | _, synchronizedOn _ _ b => flow [] b
  | _, tryCatch _ b cs f =>
    .tried (flow [] b) (F.caught b ((flowCatches cs).map Prod.fst)) ((flowCatches cs).map Prod.snd)
      (flow [] f)
  | _, throwing .. | _, returning .. => .stop []
  | _, breaking _ l => .stop [.exit l]
  | _, continuing _ l => .stop [.next l]
  | _, _ => .through

/-- The flows of statements without labels. -/
def flows : List Tree → List Flow
  | [] => []
  | t :: ts => flow [] t :: flows ts

/-- The flows of the cases of a `switch` statement, the one for all other values marked. -/
def flowCases : List Tree → List (Bool × Flow)
  | [] => []
  | switchCase _ p ss :: cs => (p.isMissing, .row (flows ss)) :: flowCases cs
  | _ :: cs => flowCases cs

/-- The flows of `catch` clauses with their parameters. -/
def flowCatches : List Tree → List (Tree × Flow)
  | [] => []
  | catchClause _ p b :: cs => (p, flow [] b) :: flowCatches cs
  | _ :: cs => flowCatches cs

end

section

attribute [local simp] flow flows flowCases flowCatches

/-- The flow of a body. -/
def bodyFlow (ts : List Tree) : Flow := .row (flows F ts)

theorem flows_append (ts us : List Tree) : flows F (ts ++ us) = flows F ts ++ flows F us := by
  induction ts with
  | nil => rfl
  | cons t ts ih => simp [ih]

end

end Syntax.Tree

/-! ## Statements that come back -/

/-- Nothing else is known of the parts of statements that are relocated, wherever they stand, and
in their normal forms. -/
structure Facts.Steady (F : Facts) (r : Relocation) : Prop where
  /-- The marks of a condition do not count. -/
  truth_shape : ∀ e, F.truth (e.shape true) = F.truth e
  truth_normal : ∀ e, F.truth (Code.normalExpr e) = F.truth e
  /-- The names of a condition mean at the new place what they meant at the old one. -/
  truth_apply : ∀ e, F.truth (r.apply e) = F.truth e
  caught_shape : ∀ b ps, F.caught (b.shape true) (ps.map (Tree.shape true)) = F.caught b ps
  caught_normal : ∀ s b ps,
    F.caught (Code.normalStmt s b) (ps.map (Code.normalVar s)) = F.caught b ps
  /-- The same exceptions leave a block, and the parameters have the same types. -/
  caught_apply : ∀ b ps, F.caught (r.applyStmt b) (ps.map r.applyVar) = F.caught b ps

/-- Nothing has to be known of another place for statements that stay where they are. -/
theorem Facts.Steady.stay {F : Facts} {r : Relocation} (h : F.Steady r) :
    F.Steady Relocation.none where
  truth_shape := h.truth_shape
  truth_normal := h.truth_normal
  truth_apply e := by rw [Relocation.apply_none]
  caught_shape := h.caught_shape
  caught_normal := h.caught_normal
  caught_apply b ps := by
    have params : ps.map Relocation.none.applyVar = ps :=
      (List.map_congr_left fun p _ => Relocation.applyVar_none p).trans (List.map_id ps)
    rw [Relocation.applyStmt_eq_self.1, params]

namespace Syntax.Tree

variable {F : Facts} {r : Relocation}

theorem isMissing_shape (t : Tree) : (shape true t).isMissing = t.isMissing := by
  cases t <;> rfl

/-- A relocated name is a name or a selection. -/
theorem ident_cases (r : Relocation) (m : Mark) (n : String) :
    (∃ m' n', r.ident m n = ident m' n') ∨ ∃ m' q n', r.ident m n = select m' q n' := by
  unfold Relocation.ident
  split
  · exact .inl ⟨_, _, rfl⟩
  · split
    · exact .inr ⟨_, _, _, rfl⟩
    · exact .inl ⟨_, _, rfl⟩
  · exact .inl ⟨_, _, rfl⟩

theorem isMissing_normalExpr (e : Tree) : (Code.normalExpr e).isMissing = e.isMissing := by
  unfold Code.normalExpr
  split
  · next m b constant =>
    cases e
    case missing => exact nomatch constant
    all_goals rfl
  · rfl

/-- Clauses with other parameters. -/
def withParams (g : Tree → Tree) (cs : List (Tree × Flow)) : List (Tree × Flow) :=
  cs.map fun c => (g c.1, c.2)

theorem fst_withParams (g : Tree → Tree) (cs : List (Tree × Flow)) :
    (withParams g cs).map Prod.fst = (cs.map Prod.fst).map g := by
  rw [withParams, List.map_map, List.map_map]
  rfl

theorem snd_withParams (g : Tree → Tree) (cs : List (Tree × Flow)) :
    (withParams g cs).map Prod.snd = cs.map Prod.snd := by
  rw [withParams, List.map_map]
  rfl

theorem withParams_append (g : Tree → Tree) (cs ds : List (Tree × Flow)) :
    withParams g (cs ++ ds) = withParams g cs ++ withParams g ds := List.map_append

section

attribute [local simp] Code.normalStmt Code.normalStmts Code.normalCases Code.normalCatches

/-- The normal form of a statement has the flow of the statement. -/
theorem flow_normalStmt (steady : F.Steady r) (s : Code.Scope) :
    (∀ t ls, flow F ls (Code.normalStmt s t) = flow F ls t) ∧
    (∀ cs, flowCatches F (Code.normalCatches s cs) =
      withParams (Code.normalVar s) (flowCatches F cs)) ∧
    (∀ cs, flowCases F (Code.normalCases s cs) = flowCases F cs) ∧
    ∀ ts, flows F (Code.normalStmts s ts) = flows F ts := by
  apply Code.normalStmt.mutual_induct
    (fun t => ∀ ls, flow F ls (Code.normalStmt s t) = flow F ls t)
    (fun cs => flowCatches F (Code.normalCatches s cs) =
      withParams (Code.normalVar s) (flowCatches F cs))
    (fun cs => flowCases F (Code.normalCases s cs) = flowCases F cs)
    (fun ts => flows F (Code.normalStmts s ts) = flows F ts)
  -- only blocks without flags are taken apart
  case case1 =>
    intro m f ss member body ls
    rw [Code.normalStmt, if_pos member, flow, flow, body]
  case case2 =>
    intro m f ss member ls
    rw [Code.normalStmt, if_neg member]
  case case18 =>
    intro m p b cs body others
    rw [Code.normalCatches, flowCatches, flowCatches, body, others]
    rfl
  all_goals
    intros
    first
    | rfl
    | simp_all only [Code.normalStmt, Code.normalStmts, Code.normalCases, Code.normalCatches, flow,
        flows, flowCases, flowCatches, isMissing_normalExpr, steady.truth_normal,
        steady.caught_normal, fst_withParams, snd_withParams]

end

theorem flowCases_cons (c : Tree) (cs : List Tree) :
    flowCases F (c :: cs) = flowCases F [c] ++ flowCases F cs := by
  cases c <;> rfl

theorem flowCatches_cons (c : Tree) (cs : List Tree) :
    flowCatches F (c :: cs) = flowCatches F [c] ++ flowCatches F cs := by
  cases c <;> rfl

/-- No relocation makes anything of what is missing, nor a case or a clause of another tree. -/
theorem apply_kept (F : Facts) (r : Relocation) (t : Tree) :
    (r.apply t).isMissing = t.isMissing ∧
      (flowCases F [r.apply t]).length = (flowCases F [t]).length ∧
        (flowCatches F [r.apply t]).length = (flowCatches F [t]).length := by
  cases t
  case ident m n =>
    rw [Relocation.apply]
    obtain ⟨_, _, is_⟩ | ⟨_, _, _, is_⟩ := ident_cases r m n <;> rw [is_] <;> exact ⟨rfl, rfl, rfl⟩
  all_goals
    unfold Relocation.apply
    try split
    all_goals exact ⟨rfl, rfl, rfl⟩

/-- A relocated statement has the flow of the statement. -/
theorem flow_applyStmt (steady : F.Steady r) :
    (∀ t ls, flow F ls (r.applyStmt t) = flow F ls t) ∧
    (∀ cs, flowCatches F (r.applyCatches cs) = withParams r.applyVar (flowCatches F cs)) ∧
    (∀ cs, flowCases F (r.applyCases cs) = flowCases F cs) ∧
    ∀ ts, flows F (r.applyStmts ts) = flows F ts := by
  apply Relocation.applyStmt.mutual_induct
    (fun t => ∀ ls, flow F ls (r.applyStmt t) = flow F ls t)
    (fun cs => flowCatches F (r.applyCatches cs) = withParams r.applyVar (flowCatches F cs))
    (fun cs => flowCases F (r.applyCases cs) = flowCases F cs)
    (fun ts => flows F (r.applyStmts ts) = flows F ts)
  case case1 =>
    intro m f ss member body ls
    rw [Relocation.applyStmt, if_pos member, flow, flow, body]
  case case2 =>
    -- a block with flags is relocated as a whole, and is no statement in either form
    intro m f ss member ls
    rw [Relocation.applyStmt, if_neg member, Relocation.apply, flow, flow, if_neg member, if_neg member]
  case case16 =>
    intro t h₁ h₂ h₃ h₄ h₅ h₆ h₇ h₈ h₉ h₁₀ h₁₁ h₁₂ h₁₃ h₁₄ ls
    rw [Relocation.applyStmt.eq_15 r t h₁ h₂ h₃ h₄ h₅ h₆ h₇ h₈ h₉ h₁₀ h₁₁ h₁₂ h₁₃ h₁₄]
    -- what is left has no statements in it, or none that count
    cases t
    case ident m n =>
      rw [Relocation.apply]
      obtain ⟨_, _, is_⟩ | ⟨_, _, _, is_⟩ := ident_cases r m n <;> rw [is_] <;> rfl
    case block => exact (h₁ _ _ _ rfl).elim
    case varDecl => exact (h₂ _ _ _ _ _ rfl).elim
    case ifThen => exact (h₃ _ _ _ _ rfl).elim
    case whileLoop => exact (h₄ _ _ _ rfl).elim
    case doLoop => exact (h₅ _ _ _ rfl).elim
    case forLoop => exact (h₆ _ _ _ _ _ rfl).elim
    case foreachLoop => exact (h₇ _ _ _ _ rfl).elim
    case labeled => exact (h₈ _ _ _ rfl).elim
    case switchOn => exact (h₉ _ _ _ rfl).elim
    case synchronizedOn => exact (h₁₀ _ _ _ rfl).elim
    case tryCatch => exact (h₁₁ _ _ _ _ rfl).elim
    all_goals
      unfold Relocation.apply
      try split
      all_goals rfl
  case case18 =>
    intro m p b cs body others
    rw [Relocation.applyCatches, flowCatches, flowCatches, body, others]
    rfl
  case case19 =>
    intro c cs other others
    have none_ : flowCatches F [c] = [] := flowCatches.eq_3 F c [] other
    have none' : flowCatches F [r.apply c] = [] :=
      List.eq_nil_of_length_eq_zero ((apply_kept F r c).2.2.trans (by rw [none_]; rfl))
    rw [Relocation.applyCatches.eq_3 r c cs other, flowCatches_cons, flowCatches_cons c, none_, none',
      others]
    rfl
  case case22 =>
    intro c cs other others
    have none_ : flowCases F [c] = [] := flowCases.eq_3 F c [] other
    have none' : flowCases F [r.apply c] = [] :=
      List.eq_nil_of_length_eq_zero ((apply_kept F r c).2.1.trans (by rw [none_]; rfl))
    rw [Relocation.applyCases.eq_3 r c cs other, flowCases_cons, flowCases_cons c, none_, none',
      others]
  all_goals
    intros
    first
    | rfl
    | simp_all only [Relocation.applyStmt, Relocation.applyStmts, Relocation.applyCases, flow, flows,
        flowCases, (apply_kept F r _).1, steady.truth_apply, steady.caught_apply, fst_withParams,
        snd_withParams]

/-- Where a statement stands makes no difference for its flow. -/
theorem flow_shape (steady : F.Steady r) :
    (∀ t, (∀ ls, flow F ls (shape true t) = flow F ls t) ∧
      flowCases F [shape true t] = flowCases F [t] ∧
      flowCatches F [shape true t] = withParams (shape true) (flowCatches F [t])) ∧
    ∀ ts, flows F (shapeAll true ts) = flows F ts ∧
      flowCases F (shapeAll true ts) = flowCases F ts ∧
      flowCatches F (shapeAll true ts) = withParams (shape true) (flowCatches F ts) := by
  apply shape.mutual_induct true
    (fun t => (∀ ls, flow F ls (shape true t) = flow F ls t) ∧
      flowCases F [shape true t] = flowCases F [t] ∧
      flowCatches F [shape true t] = withParams (shape true) (flowCatches F [t]))
    (fun ts => flows F (shapeAll true ts) = flows F ts ∧
      flowCases F (shapeAll true ts) = flowCases F ts ∧
      flowCatches F (shapeAll true ts) = withParams (shape true) (flowCatches F ts))
  -- a case and a clause show their flow only in the lists of a statement
  case case18 =>
    rintro m p ss - ⟨body, -, -⟩
    exact ⟨fun _ => rfl, by simp only [shape, flowCases, isMissing_shape, body], rfl⟩
  case case21 =>
    rintro m p b - ⟨body, -, -⟩
    exact ⟨fun _ => rfl, rfl, by simp only [shape, flowCatches, body]; rfl⟩
  case case34 => exact fun _ _ dropped => absurd rfl dropped
  case case48 => exact ⟨rfl, rfl, rfl⟩
  case case49 =>
    rintro t ts ⟨here, cases_, catches⟩ ⟨others, cases', catches'⟩
    refine ⟨by rw [shapeAll, flows, flows, here, others], ?_, ?_⟩
    · rw [shapeAll, flowCases_cons, cases_, cases', ← flowCases_cons]
    · rw [shapeAll, flowCatches_cons, catches, catches', flowCatches_cons t ts, withParams_append]
  -- the other trees are neither cases nor clauses
  all_goals
    intros
    refine ⟨fun ls => ?_, rfl, rfl⟩
    first
    | rfl
    | simp_all only [shape, flow, isMissing_shape, steady.truth_shape, steady.caught_shape,
        fst_withParams, snd_withParams]

end Syntax.Tree

namespace Code

open Syntax.Tree

variable {F : Facts} {r : Relocation}

/-- Proper statements that are lifted, relocated and lowered have the flow that they had. -/
theorem exists_flows (steady : F.Steady r) (named : r.WellNamed) (s : Scope) {ts : List Tree}
    (proper : ProperAll ts) :
    ∃ ts', lowerAll s .statement (liftStmts r ts) = .ok ts' ∧ flows F ts' = flows F ts := by
  obtain ⟨ts', lowered, same⟩ := stmtsRestore named s ts proper
  refine ⟨ts', lowered, ?_⟩
  calc flows F ts' = flows F (shapeAll true ts') := ((flow_shape steady).2 ts').1.symm
    _ = flows F (shapeAll true (r.applyStmts (normalStmts s ts))) := by rw [same]
    _ = flows F (r.applyStmts (normalStmts s ts)) := ((flow_shape steady).2 _).1
    _ = flows F (normalStmts s ts) := (flow_applyStmt steady).2.2.2 _
    _ = flows F ts := (flow_normalStmt steady s).2.2.2 ts

end Code

end Weaver
