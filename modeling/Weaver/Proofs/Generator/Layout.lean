import Weaver.Proofs.Generator.Growth
import Weaver.Proofs.Generator.Redirect
/-!
The operations of a statement.

`Lowered` says that the operations from one place to another are those of a statement. It follows
the statement, with places in the operations where the compilation has labels, and it is a statement
about the finished compilation: what is in it has its final place.

A statement that never comes to its end, such as a jump, has the operations up to any place behind
it. The compilation makes use of that. It writes no jump behind such a statement, and then what
follows has no place of its own at which the statement would end.
-/
set_option autoImplicit false

namespace Weaver.Generator

/-! ## Where control goes -/

/-- The places around a statement: the end of the body, the exit and the next round of the loop
around, and the variables of the loops over collections around. -/
structure Env where
  finish : Nat
  loop : Option (Nat × Nat)
  vars : List String

namespace Env

/-- The place to which a jump goes. -/
def target (env : Env) : Jump → Option Nat
  | .ret => some env.finish
  | .brk l => if l.isEmpty then env.loop.map (·.1) else none
  | .cont l => if l.isEmpty then env.loop.map (·.2) else none

end Env

namespace Cycle

/-- The condition always holds. -/
def always {V : Type} : Cycle V → Bool
  | test c _ => isTrue c
  | counted c _ _ => c.isMissing || isTrue c
  | each .. => false

/-- The loop as it is written, without the iterator. -/
def shape {V : Type} : Cycle V → Cycle Unit
  | test c b => .test c b
  | counted c u b => .counted c u b
  | each t n _ b => .each t n () b

/-- The body of the loop. -/
def inner {V : Type} : Cycle V → Code
  | test _ b | counted _ _ b | each _ _ _ b => b

/-- Inside the body of the loop, with the places of its exit and its next round. -/
def within {V : Type} (c : Cycle V) (env : Env) (exit next : Nat) : Env :=
  { env with
    loop := some (exit, next)
    vars := match c with
      | each _ n _ _ => n :: env.vars
      | _ => env.vars }

end Cycle

namespace Compiler

/-- A jump from one place to another stands there. -/
def Jumps (P : Compiler) (p q : Nat) : Prop := ∃ l, P.Op p (.jump l) ∧ P.Leads l q

/-- One place is the other, or a jump to it stands there. -/
def Goes (P : Compiler) (p q : Nat) : Prop := p = q ∨ P.Jumps p q

/-- The operations at the place test a condition: where it holds, control goes to the second place,
and to the third where it does not. Where the condition surely holds, there is nothing to test. -/
inductive Tests (P : Compiler) (sure : Bool) (c : Code) (g : Nat) : Nat → Nat → Prop where
  | always {q : Nat} (hs : sure = true) : Tests P sure c g g q
  | before {l : Label} {q : Nat} (hs : sure = false) (ho : P.Op g (.branch (negated c) l))
      (hl : P.Leads l q) : Tests P sure c g (g + 1) q
  | behind {l : Label} {b : Nat} (hs : sure = false) (ho : P.Op g (.branch c l))
      (hl : P.Leads l b) : Tests P sure c g b (g + 1)

end Compiler

/-! ## The operations of a statement -/

/-- The cursor of a loop over a collection. -/
def cursorOf (n : String) : Code := .named (cursorName n)

/-- The head of the loop stands at the first place; its body begins at the second, and what comes
behind it is at the third. -/
inductive HeadAt (P : Compiler) (hidden : List String) : Cycle Unit → Nat → Nat → Nat → Prop where
  | test {c b : Code} {g p q : Nat} (hc : Fresh hidden c) (ht : P.Tests (isTrue c) c g p q) :
      HeadAt P hidden (.test c b) g p q
  | counted {c b : Code} {u : List Code} {g p q : Nat} (hc : Fresh hidden c)
      (ht : P.Tests (c.isMissing || isTrue c) c g p q) : HeadAt P hidden (.counted c u b) g p q
  | each {t b : Code} {n : String} {l : Label} {g q : Nat} (hn : n ∉ hidden)
      (hcur : cursorName n ∈ hidden)
      (ho : P.Op g (.branch (negated (.invoke (cursorOf n) "hasNext" [])) l)) (hl : P.Leads l q)
      (ho' : P.Op (g + 1)
        (.stmt (.assign (.named n) (.cast t (.invoke (cursorOf n) "next" []))))) :
      HeadAt P hidden (.each t n () b) g (g + 2) q

mutual

/-- The operations from the first place to the second are those of the statement. -/
inductive Lowered (P : Compiler) (hidden : List String) : Env → Code → Nat → Nat → Prop where
  | skip {env : Env} {p : Nat} : Lowered P hidden env .missing p p
  | declared {env : Env} {t : Code} {n : String} {mods : Syntax.Flags} {annos : List Code} {p : Nat} :
      Lowered P hidden env (.localDecl t n mods annos .missing) p p
  | initialized {env : Env} {t i : Code} {n : String} {mods : Syntax.Flags} {annos : List Code}
      {p : Nat} (hi : i.isMissing = false) (hf : Fresh hidden (.localDecl t n mods annos i))
      (ho : P.Op p (.stmt (.assign (.named n) (initialValue t i)))) :
      Lowered P hidden env (.localDecl t n mods annos i) p (p + 1)
  | kept {env : Env} {s s' : Code} {root : Reach} {o : Operation} {p : Nat} (ho : P.Op p o)
      (hs : P.stmtsOf o = [s']) (hr : Redirected hidden root s s') (hroot : ∀ j, ¬ root.stay j)
      (ht : ∀ j n, root.leave j = some n → ∃ q, env.target j = some q ∧ P.Begins n q) :
      Lowered P hidden env s p (p + 1)
  | yield {env : Env} {s v : Code} {l : Label} {p : Nat} (hy : yielded s = some v)
      (hf : Fresh hidden v) (ho : P.Op p (.yield v l)) (hl : P.Leads l (p + 1)) :
      Lowered P hidden env s p (p + 1)
  | jump {env : Env} {s : Code} {j : Jump} {p q r : Nat} (hj : jumpOf s = some j)
      (ht : env.target j = some r) (ho : P.Jumps p r) : Lowered P hidden env s p q
  | block {env : Env} {ss : List Code} {p q : Nat} (h : LoweredAll P hidden env ss p q) :
      Lowered P hidden env (.block ss) p q
  | ifThen {env : Env} {c y n : Code} {l : Label} {p q r r' : Nat} (hc : Fresh hidden c)
      (ho : P.Op p (.branch (negated c) l)) (hl : P.Leads l r')
      (hy : Lowered P hidden env y (p + 1) r) (hg : P.Goes r q)
      (hn : Lowered P hidden env n r' q) : Lowered P hidden env (.ifThen c y n) p q
  | whileLoop {env : Env} {c b : Code} {p b₀ q : Nat} (h : LoopAt P hidden env (.test c b) p b₀ q) :
      Lowered P hidden env (.whileLoop c b) p q
  | doLoop {env : Env} {c b : Code} {p g q : Nat} (h : LoopAt P hidden env (.test c b) g p q) :
      Lowered P hidden env (.doLoop b c) p q
  | forLoop {env : Env} {i u : List Code} {c b : Code} {p g b₀ q : Nat}
      (hi : LoweredAll P hidden env i p g) (h : LoopAt P hidden env (.counted c u b) g b₀ q) :
      Lowered P hidden env (.forLoop i c u b) p q
  | foreach {env : Env} {t e b i : Code} {n : String} {mods : Syntax.Flags} {annos : List Code}
      {p b₀ q : Nat} (he : Fresh hidden e) (hn : n ∉ env.vars)
      (ho : P.Op p (.stmt (.assign (cursorOf n) (.invoke e "iterator" []))))
      (h : LoopAt P hidden env (.each t n () b) (p + 1) b₀ q) :
      Lowered P hidden env (.foreach (.localDecl t n mods annos i) e b) p q

/-- The operations of statements one after the other. -/
inductive LoweredAll (P : Compiler) (hidden : List String) : Env → List Code → Nat → Nat → Prop where
  | nil {env : Env} {p : Nat} : LoweredAll P hidden env [] p p
  | cons {env : Env} {s : Code} {ss : List Code} {p q r : Nat} (h : Lowered P hidden env s p q)
      (hs : LoweredAll P hidden env ss q r) : LoweredAll P hidden env (s :: ss) p r

/-- At the place, a round of the loop that has its head at another place comes to its end. -/
inductive RoundEnds (P : Compiler) (hidden : List String) : Env → Cycle Unit → Nat → Nat → Prop where
  | test {env : Env} {c b : Code} {g p : Nat} (hp : P.Goes p g)
      (ha : isTrue c = true → P.Jumps p g) : RoundEnds P hidden env (.test c b) g p
  | counted {env : Env} {c b : Code} {u : List Code} {g p r : Nat}
      (hu : LoweredAll P hidden env u p r) (hr : P.Jumps r g) : RoundEnds P hidden env (.counted c u b) g p
  | each {env : Env} {t b : Code} {n : String} {g p : Nat} (hp : P.Jumps p g) :
      RoundEnds P hidden env (.each t n () b) g p

/-- At the place, a round of the loop is continued by the next one. -/
inductive Restarts (P : Compiler) (hidden : List String) : Env → Cycle Unit → Nat → Nat → Prop where
  | head {env : Env} {c : Cycle Unit} {g : Nat} (hc : ∀ e u b, c ≠ .counted e u b) :
      Restarts P hidden env c g g
  | ends {env : Env} {c : Cycle Unit} {g p : Nat} (h : RoundEnds P hidden env c g p) :
      Restarts P hidden env c g p

/-- The operations of a loop: its head is at the first place, its body begins at the second, and
what comes behind it is at the third. -/
inductive LoopAt (P : Compiler) (hidden : List String) : Env → Cycle Unit → Nat → Nat → Nat → Prop where
  | mk {env : Env} {c : Cycle Unit} {g b q x y : Nat} (hh : HeadAt P hidden c g b q)
      (hb : Lowered P hidden (c.within env q x) c.inner b y) (hx : Restarts P hidden env c g x)
      (hy : RoundEnds P hidden env c g y) : LoopAt P hidden env c g b q

end

/-! ## What is asked of a body -/

/-- The variable of a loop over a collection. -/
def loopVar : Code → Option String
  | .foreach (.localDecl _ n _ _ _) _ _ => some n
  | _ => none

/-- The body of a loop over a collection. -/
def loopBody : Code → Code
  | .foreach _ _ b => b
  | _ => .missing

/-- No loop over a collection is inside another one with the same variable. -/
def ownVar (d : Code) : Prop :=
  ∀ n ∈ loopVar d, Everywhere (fun e => loopVar e ≠ some n) (loopBody d)

/-- What a body has to satisfy at every place. -/
structure Lowerable (hidden : List String) (d : Code) : Prop where
  names : ∀ x ∈ mentioned d, x ∉ hidden
  head : plainHead d = true
  own : ownVar d
  cursor : ∀ n, loopVar d = some n → cursorName n ∈ hidden

mutual

/-- In a statement that is kept whole, a leaving jump can be revoked while another one is passing
the same `finally` block. -/
def overwrites (s : Code) : Bool :=
  needsLowering s && match s with
    | .block ss => overwritesAny ss
    | .ifThen _ y n => overwrites y || overwrites n
    | .whileLoop _ b | .doLoop b _ | .forLoop _ _ _ b | .foreach _ _ b => overwrites b
    | s => revokes .nothing none s

/-- The same in one of the statements. -/
def overwritesAny : List Code → Bool
  | [] => false
  | s :: ss => overwrites s || overwritesAny ss

end

/-- What is asked of a statement in its place: the variables of the loops around are not those of
loops inside it. -/
structure Valid (hidden : List String) (s : Code) (env : Env) : Prop where
  lowerable : Everywhere (Lowerable hidden) s
  safe : overwrites s = false
  vars : ∀ x ∈ env.vars, Everywhere (fun d => loopVar d ≠ some x) s

/-- The same for statements one after the other. -/
structure ValidAll (hidden : List String) (ss : List Code) (env : Env) : Prop where
  lowerable : ∀ s ∈ ss, Everywhere (Lowerable hidden) s
  safe : overwritesAny ss = false
  vars : ∀ x ∈ env.vars, ∀ s ∈ ss, Everywhere (fun d => loopVar d ≠ some x) s

theorem fresh_of_lowerable {hidden : List String} {c : Code} (h : Everywhere (Lowerable hidden) c) :
    Fresh hidden c :=
  fun d hd => (h d hd).names

/-- Without a yield, a statement can be kept. -/
theorem keepable_of_lowerable {hidden : List String} {s : Code}
    (h : Everywhere (Lowerable hidden) s) (hy : containsYield s = false) :
    Everywhere (Keepable hidden) s := by
  intro d hd
  refine ⟨(h d hd).names, (h d hd).head, ?_⟩
  have := List.any_eq_false.mp hy d hd
  simpa using this

end Weaver.Generator
