import Weaver.Proofs.Code.Fragments
/-!
What is wrapped in code and what is lowered.

Some parts of code are not looked at when it is lowered, because something else in it says that they
are not there. Where that is so, the fragments of lowered code are all that were wrapped in it.
-/
set_option autoImplicit false

namespace Weaver.Code

open Weaver.Syntax (Tree Flags)

/-- A part that is not lowered is not there: a method without a body has no statements, an array
without an initializer no elements, a wildcard without a bound no type, and every argument of an
annotation has a place for a name. -/
def Formed : Code → Prop
  | wildcard .unbounded t => t = missing
  | newArray _ _ hasInit is => hasInit = false → is = []
  | annoUse _ ns vs => ns.length = vs.length
  | methodDecl _ _ _ _ _ _ _ ss noBody _ => noBody = true → ss = []
  | _ => True

theorem fragmentsNamed_eq {ns : List String} {cs : List Code} (paired : ns.length = cs.length) :
    fragmentsNamed ns cs = fragmentsAll cs := by
  induction cs generalizing ns with
  | nil => cases ns <;> rfl
  | cons c cs ih =>
    cases ns with
    | nil => exact nomatch paired
    | cons n ns => exact congrArg (c.fragments ++ ·) (ih (Nat.succ.inj paired))

/-- This holds of every piece of code. -/
def FormedAll (cs : List Code) : Prop := ∀ c ∈ cs, c.Formed

/-- The fragments are those among the pieces of code, in some order. -/
def Carries (fs : List Tree) (cs : List Code) : Prop := fs.Perm (cs.filterMap fragment?)

section Pieces

variable {c : Code} {cs ds es : List Code} {fs gs : List Tree}

theorem FormedAll.left (h : FormedAll (cs ++ ds)) : FormedAll cs :=
  (List.forall_mem_append.mp h).1

theorem FormedAll.right (h : FormedAll (cs ++ ds)) : FormedAll ds :=
  (List.forall_mem_append.mp h).2

theorem FormedAll.here (h : FormedAll (andBelow (fun _ => false) c cs)) : c.Formed :=
  (List.forall_mem_cons.mp h).1

theorem FormedAll.parts (h : FormedAll (andBelow (fun _ => false) c cs)) : FormedAll cs :=
  (List.forall_mem_cons.mp h).2

theorem Carries.append (h : Carries fs cs) (h' : Carries gs ds) : Carries (fs ++ gs) (cs ++ ds) := by
  rw [Carries, List.filterMap_append]
  exact List.Perm.append h h'

theorem Carries.assoc (h : Carries fs (cs ++ (ds ++ es))) : Carries fs (cs ++ ds ++ es) := by
  rwa [List.append_assoc]

theorem Carries.swap (h : Carries fs (cs ++ ds)) : Carries fs (ds ++ cs) := by
  rw [Carries, List.filterMap_append] at h ⊢
  exact h.trans List.perm_append_comm

/-- A piece that is no fragment adds none. -/
theorem Carries.below (none_ : c.fragment? = none) (h : Carries fs cs) :
    Carries fs (andBelow (fun _ => false) c cs) := by
  change fs.Perm ((c :: cs).filterMap fragment?)
  rwa [List.filterMap_cons_none none_]

end Pieces

mutual

/-- **Nothing that is wrapped is lost.** The fragments in what is lowered are those that are wrapped
anywhere in the code. They may stand in another order, since the type arguments of a call are written
before its receiver. -/
theorem carries_visit (c : Code) (formed : FormedAll (c.visit fun _ => false)) :
    Carries c.fragments (c.visit fun _ => false) := by
  cases c with
  | missing | hostType | hostExpr | hostStmt | hostMethod | named | bool | char | number | text
  | null | returnDefault | breaking | continuing => exact .refl _
  | typeRef n cs d | typeParam n cs | block cs =>
    exact .below rfl (carries_visitAll cs formed.parts)
  | wildcard b t =>
    cases b with
    | unbounded =>
      obtain rfl : t = missing := formed.here
      exact .refl _
    | extending | above => exact .below rfl (carries_visit t formed.parts)
  | field a n | unary n a | this a | throwing a | returning a | labeled n a =>
    exact .below rfl (carries_visit a formed.parts)
  | cast a b | instanceOf a b | binary a op b | equal a b negated | assign a b | indexed a b
  | whileLoop a b | doLoop a b | catchClause a b | synchronizedOn a b =>
    exact .below rfl ((carries_visit a formed.parts.left).append (carries_visit b formed.parts.right))
  | switchOn a cs | switchCase a cs =>
    exact .below rfl
      ((carries_visit a formed.parts.left).append (carries_visitAll cs formed.parts.right))
  | ifThen a b c | foreach a b c =>
    exact .below rfl ((carries_visit a formed.parts.left.left).append
      ((carries_visit b formed.parts.left.right).append (carries_visit c formed.parts.right))).assoc
  | call r n ts as =>
    -- the receiver is visited before the type arguments, but stands behind them
    have types := carries_visitAll ts formed.parts.left.right
    have receiver := carries_visit r formed.parts.left.left
    have values := carries_visitAll as formed.parts.right
    refine .below rfl ?_
    change Carries (fragmentsAll ts ++ (r.fragments ++ fragmentsAll as)) _
    rw [← List.append_assoc]
    exact (types.append receiver).swap.append values
  | create t as b =>
    exact .below rfl (((carries_visit t formed.parts.left.left).append
      (carries_visitAll as formed.parts.left.right)).append (carries_visit b formed.parts.right))
  | newArray t ds hasInit is =>
    refine .below rfl (((carries_visit t formed.parts.left.left).append
      (carries_visitAll ds formed.parts.left.right)).append ?_)
    cases hasInit with
    | true => exact carries_visitAll is formed.parts.right
    | false =>
      obtain rfl : is = [] := formed.here rfl
      exact .refl _
  | forLoop i c u b =>
    exact .below rfl (((carries_visitAll i formed.parts.left.left.left).append
      ((carries_visit c formed.parts.left.left.right).append
        (carries_visitAll u formed.parts.left.right))).assoc.append
          (carries_visit b formed.parts.right))
  | tryCatch b cs f =>
    exact .below rfl (((carries_visit b formed.parts.left.left).append
      (carries_visitAll cs formed.parts.left.right)).append (carries_visit f formed.parts.right))
  | annoUse t ns vs =>
    have named := fragmentsNamed_eq formed.here
    exact .below rfl ((carries_visit t formed.parts.left).append
      (named ▸ carries_visitAll vs formed.parts.right))
  | localDecl t n ms as i | fieldDecl t n ms as i =>
    exact .below rfl ((carries_visitAll as formed.parts.left.left).append
      ((carries_visit t formed.parts.left.right).append (carries_visit i formed.parts.right))).assoc
  | argument t n ms as =>
    exact .below rfl
      ((carries_visitAll as formed.parts.left).append (carries_visit t formed.parts.right))
  | enumConstant n ps as =>
    exact .below rfl
      ((carries_visitAll as formed.parts.left).append (carries_visitAll ps formed.parts.right))
  | methodDecl ms as tps r n ps ts ss noBody implementing =>
    have annos := carries_visitAll as formed.parts.left.left.left.left.left
    have params := carries_visitAll tps formed.parts.left.left.left.left.right
    have result := carries_visit r formed.parts.left.left.left.right
    have args := carries_visitAll ps formed.parts.left.left.right
    have thrown := carries_visitAll ts formed.parts.left.right
    refine .below rfl (((annos.append params).append (result.append args)).assoc.append thrown
      |>.append ?_)
    cases noBody with
    | true =>
      obtain rfl : ss = [] := formed.here rfl
      exact .refl _
    | false => exact carries_visitAll ss formed.parts.right
  | constructorDecl ms as tps n ps ts ss implicitSuper =>
    have annos := carries_visitAll as formed.parts.left.left.left.left
    have params := carries_visitAll tps formed.parts.left.left.left.right
    have args := carries_visitAll ps formed.parts.left.left.right
    have thrown := carries_visitAll ts formed.parts.left.right
    exact .below rfl ((((annos.append params).append args).append thrown).append
      (carries_visitAll ss formed.parts.right))
  | classDecl k ms as n tps e is cs fs mths ts =>
    have annos := carries_visitAll as formed.parts.left.left.left.left.left.left.left
    have params := carries_visitAll tps formed.parts.left.left.left.left.left.left.right
    have super := carries_visit e formed.parts.left.left.left.left.left.right
    have interfaces := carries_visitAll is formed.parts.left.left.left.left.right
    have constants := carries_visitAll cs formed.parts.left.left.left.right
    have fields := carries_visitAll fs formed.parts.left.left.right
    have methods := carries_visitAll mths formed.parts.left.right
    have types := carries_visitAll ts formed.parts.right
    have head := ((annos.append params).append (super.append interfaces)).assoc
    have defs := ((constants.append fields).append methods).append types
    have order : ∀ hs cs ds es fs : List Code,
        hs ++ cs ++ ds ++ es ++ fs = hs ++ (cs ++ ds ++ es ++ fs) := by
      simp only [List.append_assoc, implies_true]
    refine .below rfl ?_
    rw [order]
    exact head.append defs

/-- The same of a list. -/
theorem carries_visitAll (cs : List Code) (formed : FormedAll (visitAll (fun _ => false) cs)) :
    Carries (fragmentsAll cs) (visitAll (fun _ => false) cs) := by
  cases cs with
  | nil => exact .refl _
  | cons c cs => exact (carries_visit c formed.left).append (carries_visitAll cs formed.right)

end

end Weaver.Code
