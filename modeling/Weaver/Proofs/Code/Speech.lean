import Weaver.Proofs.Code.RoundTrip
import Weaver.Proofs.Code.Selves
/-!
How lifted statements speak of objects once they are lowered again.

Statements that are lifted with a relocation and lowered again speak of the objects that they spoke
of before: every `this` is qualified as the relocation says, and nothing else of what
`Tree.selves` lists is different. What lowering gives is known up to marks, so it only has to be
seen that neither the normal form of a statement nor the relocation of its parts says more.
-/
set_option autoImplicit false

namespace Weaver

open Weaver.Syntax (Tree Mark)
open Weaver.Syntax.Tree

/-! ## Normal forms -/

namespace Code

variable {s : Scope}

theorem selves_unparen (e : Tree) : e.unparen.selves = e.selves := by
  induction e using unparen.induct with
  | case1 m e ih => exact ih
  | case2 e other => rw [unparen.eq_2 e other]

theorem selves_normalExpr (e : Tree) : (normalExpr e).selves = e.selves := by
  unfold normalExpr
  split
  · next m b constant => rw [← selves_unparen e, constant]
  · rfl

theorem selvesAll_normalExpr (es : List Tree) : selvesAll (es.map normalExpr) = selvesAll es := by
  induction es with
  | nil => rfl
  | cons e es ih => rw [List.map_cons, selvesAll, selvesAll, selves_normalExpr, ih]

/-- A constant is no class. -/
theorem outer?_normalExpr (e : Tree) (n : String) : Self.outer? (normalExpr e) n = Self.outer? e n := by
  unfold normalExpr
  split
  · next m b constant =>
    cases e
    case ident => exact nomatch constant
    all_goals rfl
  · rfl

theorem selves_normalInit (i : Tree) : (normalInit i).selves = i.selves := by
  unfold normalInit
  split
  · rw [selves, selves, selvesAll_normalExpr]
  · exact selves_normalExpr i

theorem selves_normalVar (v : Tree) : (normalVar s v).selves = v.selves := by
  unfold normalVar
  split
  · exact selves_normalInit _
  · rfl

theorem selves_normalExec (e : Tree) : (normalExec s e).selves = e.selves := by
  unfold normalExec
  split
  · rw [selves, selves, selves_normalExpr, selves_normalExpr]
  · exact selvesAll_normalExpr _
  · rw [selves, selves, selvesAll_normalExpr, selves, selves, outer?_normalExpr, selves_normalExpr]
    rfl
  · rfl

/-- The normal form of a statement speaks of the objects that the statement speaks of. -/
theorem selves_normalStmt (s : Scope) : (∀ t, (normalStmt s t).selves = t.selves) ∧
    (∀ cs, selvesAll (normalCatches s cs) = selvesAll cs) ∧
      (∀ cs, selvesAll (normalCases s cs) = selvesAll cs) ∧
        ∀ ts, selvesAll (normalStmts s ts) = selvesAll ts := by
  apply normalStmt.mutual_induct (fun t => (normalStmt s t).selves = t.selves)
    (fun cs => selvesAll (normalCatches s cs) = selvesAll cs)
    (fun cs => selvesAll (normalCases s cs) = selvesAll cs)
    (fun ts => selvesAll (normalStmts s ts) = selvesAll ts)
  all_goals
    intros
    simp_all only [normalStmt, normalStmts, normalCases, normalCatches, selves, selvesAll,
      selves_normalExpr, selves_normalVar, selves_normalExec, if_true, if_false, Bool.false_eq_true]

end Code

/-! ## Relocated statements -/

namespace Relocation

variable {r : Relocation}

theorem selves_applyVar (h : r.Plain) (v : Tree) :
    (r.applyVar v).selves = v.selves.map r.self := by
  unfold applyVar
  split <;> exact selves_apply.1 r _ h

theorem selves_applyExec (h : r.Plain) (e : Tree) :
    (r.applyExec e).selves = e.selves.map r.self := by
  unfold applyExec
  split
  · exact selves_apply.2 r _ h
  · next m ts m' q n as =>
    refine (congr (congrArg HAppend.hAppend ?_) (selves_apply.2 r as h)).trans List.map_append.symm
    exact selves_select m' m' (outer?_apply h q n) (selves_apply.1 r q h)
  · exact selves_apply.1 r _ h

/-- A relocated statement speaks of objects as the relocation says. -/
theorem selves_applyStmt (h : r.Plain) : (∀ t, (r.applyStmt t).selves = t.selves.map r.self) ∧
    (∀ cs, selvesAll (r.applyCatches cs) = (selvesAll cs).map r.self) ∧
      (∀ cs, selvesAll (r.applyCases cs) = (selvesAll cs).map r.self) ∧
        ∀ ts, selvesAll (r.applyStmts ts) = (selvesAll ts).map r.self := by
  apply applyStmt.mutual_induct (fun t => (r.applyStmt t).selves = t.selves.map r.self)
    (fun cs => selvesAll (r.applyCatches cs) = (selvesAll cs).map r.self)
    (fun cs => selvesAll (r.applyCases cs) = (selvesAll cs).map r.self)
    (fun ts => selvesAll (r.applyStmts ts) = (selvesAll ts).map r.self)
  case case2 =>
    intro m f ss flagged
    rw [applyStmt, if_neg flagged, selves_apply.1 r _ h]
  all_goals
    intros
    simp_all only [applyStmt, applyStmts, applyCases, applyCatches, selves, selvesAll,
      selves_applyVar h, selves_applyExec h, selves_apply.1 r _ h, if_true, List.map_append,
      List.map_nil]

end Relocation

/-! ## Lowered statements -/

namespace Code

/-- Lowering succeeds with trees that speak of these objects. -/
def SpeakAll (x : Except Abort (List Tree)) (l : List Self) : Prop :=
  ∃ ts, x = .ok ts ∧ selvesAll ts = l

/-- Statements speak of the objects that they spoke of before. -/
def StmtsSpeak (r : Relocation) (s : Scope) (ts : List Tree) : Prop :=
  SpeakAll (lowerAll s .statement (liftStmts r ts)) ((selvesAll ts).map r.self)

/-- Proper statements speak of the objects that they spoke of before. -/
theorem stmtsSpeak {r : Relocation} (h : r.Plain) (s : Scope) (ts : List Tree)
    (proper : ProperAll ts) : StmtsSpeak r s ts := by
  obtain ⟨ts', lowered, same⟩ := stmtsRestore h.wellNamed s ts proper
  refine ⟨ts', lowered, ?_⟩
  rw [← selves_shape.2 ts', same, selves_shape.2, (Relocation.selves_applyStmt h).2.2.2,
    (selves_normalStmt s).2.2.2]

end Code

end Weaver
