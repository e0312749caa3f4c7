import Weaver.Proofs.Syntax.Dotted
import Weaver.Syntax.Traverse
/-!
What trees that are read from a text have in common.

The type of trees admits nodes in places where the grammar has none like them. `Proper` says which
nodes stand where the rest of the program relies on it: names are segments of dotted names, bodies
are blocks, variables have modifiers, and so on. All nodes of a proper tree are proper.
-/
set_option autoImplicit false

namespace Weaver.Syntax.Tree

/-- A block without modifiers. -/
def IsBody (t : Tree) : Prop := ∃ m ss, t = block m .empty ss

/-- A variable without a value. -/
def IsParam (t : Tree) : Prop := ∃ m n ms ty, t = varDecl m n ms ty missing

/-- A cause of an exception that is caught. -/
def IsCatch (t : Tree) : Prop := ∃ m p b, t = catchClause m p b

/-- An annotation. -/
def IsAnno (t : Tree) : Prop := ∃ m ty as, t = annoUse m ty as

/-- Modifiers. -/
def IsMods (t : Tree) : Prop := ∃ m f as, t = modifiers m f as

/-- A case of a `switch` statement. -/
def IsCase (t : Tree) : Prop := ∃ m p ss, t = switchCase m p ss

/-- An expression statement. -/
def IsExec (t : Tree) : Prop := ∃ m e, t = exec m e

mutual

/-- Nodes stand where the grammar has nodes like them. -/
def Proper : Tree → Prop
  | missing => True
  | unit _ _ p is ds => Proper p ∧ ProperAll is ∧ ProperAll ds
  | importDecl _ _ n => Proper n
  | classDecl _ _ ms tps e is ds =>
    Proper ms ∧ ProperAll tps ∧ Proper e ∧ ProperAll is ∧ ProperAll ds
  | methodDecl _ _ ms tps r ps ts b =>
    (∀ p ∈ ps, p.IsParam) ∧ Proper ms ∧ ProperAll tps ∧ Proper r ∧ ProperAll ps ∧ ProperAll ts ∧ Proper b
  | varDecl _ _ ms t i => ms.IsMods ∧ Proper ms ∧ Proper t ∧ Proper i
  | modifiers _ _ as => (∀ a ∈ as, a.IsAnno) ∧ ProperAll as
  | annoUse _ t as => Proper t ∧ ProperAll as
  | typeParam _ _ bs => ProperAll bs
  | block _ _ ss => ProperAll ss
  | ifThen _ c y n => Proper c ∧ Proper y ∧ Proper n
  | whileLoop _ c b => Proper c ∧ Proper b
  | doLoop _ b c => Proper b ∧ Proper c
  | forLoop _ i c u b =>
    (∀ x ∈ u, x.IsExec) ∧ ProperAll i ∧ Proper c ∧ ProperAll u ∧ Proper b
  | foreachLoop _ v e b => v.IsParam ∧ Proper v ∧ Proper e ∧ Proper b
  | labeled _ _ b => Proper b
  | switchOn _ e cs => (∀ c ∈ cs, c.IsCase) ∧ Proper e ∧ ProperAll cs
  | switchCase _ p ss => Proper p ∧ ProperAll ss
  | synchronizedOn _ l b => b.IsBody ∧ Proper l ∧ Proper b
  | tryCatch _ b cs f =>
    b.IsBody ∧ (∀ c ∈ cs, c.IsCatch) ∧ (f = missing ∨ f.IsBody) ∧ Proper b ∧ ProperAll cs ∧ Proper f
  | catchClause _ p b => p.IsParam ∧ b.IsBody ∧ Proper p ∧ Proper b
  | throwing _ e => Proper e
  | returning _ e => Proper e
  | breaking .. => True
  | continuing .. => True
  | skip _ => True
  | exec _ e => Proper e
  | ident _ n => Text.IsSegment n
  | select _ q n => Text.IsSegment n ∧ Proper q
  | call _ ts c as => c.Unapplied ∧ ProperAll ts ∧ Proper c ∧ ProperAll as
  | newObject _ o ts t as b => Proper o ∧ ProperAll ts ∧ Proper t ∧ ProperAll as ∧ Proper b
  | newArray _ e ds hasInit es =>
    (hasInit = true → ds = []) ∧ Proper e ∧ ProperAll ds ∧ ProperAll es
  | parens _ e => Proper e
  | assign _ l r => Proper l ∧ Proper r
  | assignOp _ _ l r => Proper l ∧ Proper r
  | unary _ _ a => Proper a
  | binary _ _ l r => Proper l ∧ Proper r
  | conditional _ c y n => Proper c ∧ Proper y ∧ Proper n
  | cast _ t e => Proper t ∧ Proper e
  | instanceOf _ e t => Proper e ∧ Proper t
  | indexed _ a i => Proper a ∧ Proper i
  | literal .. => True
  | primitive .. => True
  | arrayType _ e => Proper e
  | typeApply _ t as => Proper t ∧ ProperAll as
  | wildcard _ _ t => Proper t

/-- All trees of a list are proper. -/
def ProperAll : List Tree → Prop
  | [] => True
  | t :: ts => Proper t ∧ ProperAll ts

end

section

attribute [local simp] Proper ProperAll

theorem properAll_iff {ts : List Tree} : ProperAll ts ↔ ∀ t ∈ ts, t.Proper := by
  induction ts with
  | nil => simp
  | cons t ts ih => simp [ih]

/-- The names of a proper chain of selections are segments. -/
theorem Proper.segmented {t : Tree} (h : t.Proper) : t.Segmented := by
  induction t using Segmented.induct with
  | case1 => exact h
  | case2 m q n ih => exact ⟨ih h.2, h.1⟩
  | case3 m t as ih => exact ih h.1
  | case4 t h₁ h₂ h₃ => rw [Segmented.eq_4 t h₁ h₂ h₃]; trivial

theorem mem_andBelow {stop : Tree → Bool} {t x : Tree} {below : List Tree}
    (h : x ∈ andBelow stop t below) : x = t ∨ x ∈ below := by
  rcases List.mem_cons.mp h with same | inside
  · exact .inl same
  · refine .inr ?_
    split at inside
    · exact absurd inside List.not_mem_nil
    · exact inside

/-- All nodes of a proper tree are proper. -/
theorem proper_of_visit (stop : Tree → Bool) :
    (∀ t x, x ∈ visit stop t → t.Proper → x.Proper) ∧
      ∀ ts x, x ∈ visitAll stop ts → ProperAll ts → x.Proper := by
  apply visit.mutual_induct (fun t => ∀ x, x ∈ visit stop t → t.Proper → x.Proper)
    (fun ts => ∀ x, x ∈ visitAll stop ts → ProperAll ts → x.Proper)
  all_goals
    intros
    rename_i x member proper
  case case1 | case47 => exact absurd member List.not_mem_nil
  case case48 _ _ here others =>
    rcases List.mem_append.mp member with member | member
    · exact here x member proper.1
    · exact others x member proper.2
  case case41 | case42 | case43 | case44 | case45 | case46 =>
    rw [List.mem_singleton.mp member]
    exact proper
  -- in the other cases the node itself is proper, and the parts are by the induction
  all_goals
    rcases mem_andBelow member with rfl | member
    · exact proper
    · simp only [Proper] at proper
      grind

end

end Weaver.Syntax.Tree
