import Mathlib.Data.List.Forall2
import Mathlib.Logic.Relation
import Weaver.Proofs.Code.Lowered
import Weaver.Proofs.Handler.Plan
/-!
Bodies in layers.

Each run that wraps a method in the lock of its conditions puts a layer around the statements that it
finds (`Handler.layers_of_wrap`). The statements are lifted and lowered again on the way, and so are the
layers that are there already; but the calls of a layer are on fields of the object that the method
runs on, which lifting carries along, so that each of them is still the same layer
(`Handler.Layers.relower`). What a layer waits for and signals thus stands between taking its lock and
giving it back, however many layers come after it.
-/
set_option autoImplicit false

namespace Weaver

open Weaver.Syntax (Tree Mark Flags)
open Weaver.Syntax.Tree

/-- A statement that calls a method of what is in a field of the object that a method runs on. -/
inductive Syntax.Tree.CallsOwn (field method : String) : Tree → Prop where
  | mk (m₁ m₂ m₃ m₄ m₅ : Mark) : CallsOwn field method
    (.exec m₁ (.call m₂ [] (.select m₃ (.select m₄ (.ident m₅ "this") field) method) []))

section Calls

variable {s : Code.Scope} {t t' : Tree} {f m : String}

theorem Code.callsOwn_of_lower
    (lowered : (Code.invoke (.ownField f) m []).lower s .statement = .ok t) : t.CallsOwn f m := by
  cases lowered
  exact .mk ..

/-- A call on a field of the object comes back. -/
theorem Syntax.Tree.CallsOwn.relower (h : t.CallsOwn f m)
    (lowered : (Code.liftStmt .none t).lower s .statement = .ok t') : t'.CallsOwn f m := by
  obtain ⟨m₁, m₂, m₃, m₄, m₅⟩ := h
  have own : ("this" ++ "." ++ f).startsWith "this." = true :=
    String.startsWith_string_iff.mpr (by simp)
  have receiver : Code.liftReceiver .none (.select m₄ (.ident m₅ "this") f) =
      .hostExpr (.select m₄ (.ident m₅ "this") f) := by
    change (if (_ || _) = true then _ else _) = _
    rw [own, Bool.true_or, if_pos rfl, Code.liftExpr, Relocation.apply_none]
    rfl
  have lifted : Code.liftStmt .none (.exec m₁
      (.call m₂ [] (.select m₃ (.select m₄ (.ident m₅ "this") f) m) [])) =
      .call (.hostExpr (.select m₄ (.ident m₅ "this") f)) m [] [] := by
    rw [← receiver]
    rfl
  rw [lifted] at lowered
  cases lowered
  exact .mk ..

end Calls

namespace Handler

/-- What a layer does with a condition. -/
inductive Deed where
  | await (a : Awaited)
  | signal (condition : String)

namespace Deed

/-- The statement that is generated. -/
def code : Deed → Code
  | await a => Conditions.wait a
  | signal c => .invoke (.ownField c) "signal" []

/-- A statement that does it: a loop that waits as long as a method says so, or a signal. -/
inductive DoneBy : Deed → Tree → Prop where
  | await {a : Awaited} {t : Tree} (m₁ m₂ m₃ m₄ m₅ : Mark) (awaits : t.CallsOwn a.condition "await") :
    DoneBy (.await a) (.whileLoop m₁
      (.call m₂ [] (.select m₃ (.ident m₄ "this") a.method) []) (.block m₅ .empty [t]))
  | signal {c : String} {t : Tree} (signals : t.CallsOwn c "signal") : DoneBy (.signal c) t

end Deed

namespace Conditions

/-- What is done with conditions on a side of the statements. -/
def deeds (c : Conditions) (side : Side) : List Deed :=
  ((c.awaited.filter (·.side == side)).map .await).toList ++
    ((c.signaled.filter (·.side == side)).map fun s => .signal s.condition).toList

/-- The names of the conditions. -/
def names (c : Conditions) : List String :=
  (c.awaited.map (·.condition)).toList ++ (c.signaled.map (·.condition)).toList

/-- What stands around the statements in the plan of conditions. -/
theorem sides_plan (c : Conditions) : c.plan.lock = .ownField c.lock ∧
    c.plan.before = (c.deeds .before).map Deed.code ∧
    c.plan.after = (c.deeds .after).map Deed.code := by
  rw [Conditions.plan]
  rcases c with ⟨_ | ⟨a, m, _ | _⟩, _ | ⟨s, _ | _⟩, l⟩ <;> exact ⟨rfl, rfl, rfl⟩

end Conditions

/-- Statements that others have become, which were lifted and lowered any number of times. -/
def Relowered : List Tree → List Tree → Prop :=
  Relation.ReflTransGen fun ss ts => ∃ s, Code.lowerAll s .statement (Code.liftStmts .none ss) = .ok ts

/-- Statements with layers around them, the outermost first: each takes its lock, does what comes
before the statements inside, runs these, and in any case does what comes after them and gives the
lock back. -/
inductive Layers (own : List Tree) : List Conditions → List Tree → Prop where
  | none {ss : List Tree} (same : Relowered own ss) : Layers own [] ss
  | around {c : Conditions} {cs : List Conditions} {inside before after : List Tree}
    {lock unlock : Tree} (m₁ m₂ m₃ : Mark) (inner : Layers own cs inside)
    (locks : lock.CallsOwn c.lock "lock") (first : List.Forall₂ Deed.DoneBy (c.deeds .before) before)
    (last : List.Forall₂ Deed.DoneBy (c.deeds .after) after)
    (unlocks : unlock.CallsOwn c.lock "unlock") :
    Layers own (c :: cs) [lock, .tryCatch m₁ (.block m₂ .empty (before ++ inside)) []
      (.block m₃ .empty (after ++ [unlock]))]

section Lowering

variable {s : Code.Scope} {t t' : Tree} {ts ts' us : List Tree}

open Code (lowerAll liftStmts liftStmt ok_of_bind)

/-! ## Deeds -/

theorem Deed.doneBy_of_lower {d : Deed} (lowered : d.code.lower s .statement = .ok t) :
    d.DoneBy t := by
  cases d with
  | await a =>
    cases lowered
    exact .await _ _ _ _ _ (.mk ..)
  | signal c => exact .signal (Code.callsOwn_of_lower lowered)

theorem Deed.DoneBy.relower {d : Deed} (h : d.DoneBy t)
    (lowered : (liftStmt .none t).lower s .statement = .ok t') : d.DoneBy t' := by
  cases h with
  | @await a t m₁ m₂ m₃ m₄ m₅ awaits =>
    obtain ⟨asks, condition, lowered⟩ := ok_of_bind lowered
    obtain ⟨body, block_, lowered⟩ := ok_of_bind lowered
    obtain ⟨ss, inner, block_⟩ := ok_of_bind block_
    obtain ⟨t', rfl, again⟩ := Code.lowerAll_singleton inner
    cases Except.ok.inj block_
    cases Except.ok.inj lowered
    rw [Code.liftExpr, Relocation.apply_none] at condition
    cases condition
    exact .await _ _ _ _ _ (awaits.relower again)
  | signal signals => exact .signal (signals.relower lowered)

theorem doneBy_of_lowerAll {ds : List Deed} (lowered : lowerAll s .statement (ds.map Deed.code) = .ok ts) :
    List.Forall₂ Deed.DoneBy ds ts := by
  induction ds generalizing ts with
  | nil =>
    cases lowered
    exact .nil
  | cons d ds ih =>
    obtain ⟨t, here, lowered⟩ := ok_of_bind lowered
    obtain ⟨ts', others, lowered⟩ := ok_of_bind lowered
    cases lowered
    exact .cons (d.doneBy_of_lower here) (ih others)

theorem doneBy_relower {ds : List Deed} (done : List.Forall₂ Deed.DoneBy ds ts)
    (lowered : lowerAll s .statement (liftStmts .none ts) = .ok ts') :
    List.Forall₂ Deed.DoneBy ds ts' := by
  induction done generalizing ts' with
  | nil =>
    cases lowered
    exact .nil
  | cons here _ ih =>
    obtain ⟨t, again, lowered⟩ := ok_of_bind lowered
    obtain ⟨ts', others, lowered⟩ := ok_of_bind lowered
    cases lowered
    exact .cons (here.relower again) (ih others)

/-! ## Layers -/

theorem liftStmts_append (ss us : List Tree) :
    liftStmts .none (ss ++ us) = liftStmts .none ss ++ liftStmts .none us := by
  induction ss with
  | nil => rfl
  | cons t ss ih => rw [List.cons_append, liftStmts, liftStmts, ih, List.cons_append]

variable {own : List Tree} {c : Conditions} {cs : List Conditions}

/-- A layer that has been lowered around statements. -/
theorem layer_of_lower {body final : List Code} {lock unlock : Code}
    (lowered : lowerAll s .statement
      [lock, .tryCatch (.block body) [] (.block (final ++ [unlock]))] = .ok ts) :
    ∃ l m₁ m₂ m₃ inside after u, ts = [l, .tryCatch m₁ (.block m₂ .empty inside) []
        (.block m₃ .empty (after ++ [u]))] ∧
      lock.lower s .statement = .ok l ∧ unlock.lower s .statement = .ok u ∧
      lowerAll s .statement body = .ok inside ∧ lowerAll s .statement final = .ok after := by
  obtain ⟨l, locks, lowered⟩ := ok_of_bind lowered
  obtain ⟨ts', rest, lowered⟩ := ok_of_bind lowered
  obtain ⟨t, rfl, try_⟩ := Code.lowerAll_singleton rest
  obtain ⟨catches, none_, try_⟩ := ok_of_bind try_
  obtain ⟨f, finally_, try_⟩ := ok_of_bind try_
  obtain ⟨b, body_, try_⟩ := ok_of_bind try_
  obtain ⟨inside, within, body_⟩ := ok_of_bind body_
  obtain ⟨last, ends, finally_⟩ := ok_of_bind finally_
  obtain ⟨after, us, rfl, does, releases⟩ := Code.exists_of_append ends
  obtain ⟨u, rfl, unlocks⟩ := Code.lowerAll_singleton releases
  cases none_
  cases body_
  cases finally_
  cases try_
  cases lowered
  exact ⟨_, _, _, _, _, _, _, rfl, locks, unlocks, within, does⟩

/-- Layers are still there when the statements are lifted and lowered again. -/
theorem Layers.relower {ss : List Tree} (layers : Layers own cs ss)
    (lowered : lowerAll s .statement (liftStmts .none ss) = .ok ts) : Layers own cs ts := by
  induction layers generalizing ts with
  | none same => exact .none (same.tail ⟨s, lowered⟩)
  | @around c cs inside before after lock unlock m₁ m₂ m₃ inner locks first last unlocks ih =>
    have lifted : liftStmts .none [lock, .tryCatch m₁ (.block m₂ .empty (before ++ inside)) []
        (.block m₃ .empty (after ++ [unlock]))] =
      [liftStmt .none lock, .tryCatch (.block (liftStmts .none before ++ liftStmts .none inside)) []
        (.block (liftStmts .none after ++ [liftStmt .none unlock]))] := by
      rw [← liftStmts_append, show [liftStmt .none unlock] = liftStmts .none [unlock] from rfl,
        ← liftStmts_append]
      rfl
    rw [lifted] at lowered
    obtain ⟨l, m₁, m₂, m₃, within, after', u, rfl, locks', unlocks', body, final⟩ :=
      layer_of_lower lowered
    obtain ⟨before', inside', rfl, waits, rest⟩ := Code.exists_of_append body
    exact .around m₁ m₂ m₃ (ih rest) (locks.relower locks') (doneBy_relower first waits)
      (doneBy_relower last final) (unlocks.relower unlocks')

/-- A method that is wrapped in the lock of conditions gets a layer around the statements that it
has, and no call of another constructor. -/
theorem layers_of_wrap {ss : List Tree} (layers : Layers own cs ss)
    (lowered : lowerAll s .statement (c.plan.wrap (liftStmts .none ss)) = .ok ts) :
    Layers own (c :: cs) ts ∧ ∀ t ∈ ts.head?, SourceUnit.isConstructorCall t = false := by
  obtain ⟨field, before, after⟩ := c.sides_plan
  rw [LockPlan.wrap, field, before, after] at lowered
  obtain ⟨l, m₁, m₂, m₃, within, after', u, rfl, locks, unlocks, body, final⟩ :=
    layer_of_lower lowered
  obtain ⟨before', inside, rfl, waits, rest⟩ := Code.exists_of_append body
  have locks := Code.callsOwn_of_lower locks
  refine ⟨.around m₁ m₂ m₃ (layers.relower rest) locks (doneBy_of_lowerAll waits)
    (doneBy_of_lowerAll final) (Code.callsOwn_of_lower unlocks), ?_⟩
  rintro t ⟨⟩
  cases locks
  rfl


end Lowering

end Handler

end Weaver
