import Mathlib.Data.List.TakeWhile
import Weaver.Proofs.Code.Restore
import Weaver.Proofs.Handler.Layers
import Weaver.Proofs.Handler.Steady
import Weaver.Proofs.Processing.Schedule
import Weaver.Proofs.Source.Decimal
/-!
Methods that convert exceptions, once.

Each annotation of a method that speaks of exceptions asks for a run. The first of these runs puts a
`try` statement around the statements that it finds, with a clause for each type that any of the
annotations lists (`Handler.Guards`). It notes that it has done so, and the later ones stop
(`Handler.Ran.again`). Until the first run, nothing is noted for the method, since no other method has
its name and its place; the annotations stay what they were, and the method keeps a body.
-/
set_option autoImplicit false

namespace Weaver

open Weaver.Syntax (Tree Mark Flags)
open Weaver.Syntax.Tree
open SourceUnit Weave Handler

/-! ## Clauses -/

namespace Handler

/-- A tree that names a type. -/
def TypeNamed (name : String) (t : Tree) : Prop := ∃ s, (Code.type name).lower s .part = .ok t

/-- A clause that catches a type into a variable. The empty name stands for runtime exceptions, which
are thrown on as they are; what else is caught is the last argument of a new exception. -/
inductive Rethrown.Clause (r : Rethrown) (params : List String) (var : String) :
    String → Tree → Prop where
  | through (m₁ m₂ m₃ m₄ m₅ m₆ : Mark) {type : Tree}
      (caught : TypeNamed "java.lang.RuntimeException" type) :
      Clause r params var "" (.catchClause m₁ (.varDecl m₂ var (.modifiers m₃ .finalFlag []) type .missing)
        (.block m₄ .empty [.throwing m₅ (.ident m₆ var)]))
  | converted (m₁ m₂ m₃ m₄ m₅ m₆ m₇ : Mark) {name : String} {type thrown : Tree} {message : List Tree}
      (other : name ≠ "") (caught : TypeNamed name type) (thrownAs : TypeNamed r.thrownAs thrown)
      (wording : if r.message = "" then message = [] else
        ∃ s t, message = [t] ∧ (formatted r.message params).lower s .value = .ok t) :
      Clause r params var name (.catchClause m₁ (.varDecl m₂ var (.modifiers m₃ .finalFlag []) type .missing)
        (.block m₄ .empty [.throwing m₅
          (.newObject m₆ .missing [] thrown (message ++ [.ident m₇ var]) .missing)]))

/-- The types that one annotation lists. One that lists none lets runtime exceptions through and
converts all others. -/
def Rethrown.listed (r : Rethrown) : List String :=
  match r.caught with
  | [] => ["", "java.lang.Exception"]
  | names => names

theorem Rethrown.types_eq (r : Rethrown) : r.types = r.listed := by
  obtain ⟨caught, thrownAs, message⟩ := r
  cases caught <;> rfl

/-- What annotations list, in their order: each type with what the annotation says. -/
def listed (rs : List Rethrown) : List (Rethrown × String) :=
  rs.flatMap fun r => r.listed.map fun type => (r, type)

/-- A `try` statement around statements, with one clause for each type that is listed, in their order.
The variables of the clauses are numbered from one. -/
inductive Guards (rs : List Rethrown) (params : List String) (ss : List Tree) : Tree → Prop where
  | mk (m₁ m₂ : Mark) {cs : List Tree} (number : cs.length = (listed rs).length)
      (clauses : ∀ (k : Nat) (x : Rethrown × String) (c : Tree), (listed rs)[k]? = some x → cs[k]? = some c →
        x.1.Clause params ("$e" ++ toString (k + 1)) x.2 c) :
      Guards rs params ss (.tryCatch m₁ (.block m₂ .empty ss) cs .missing)

section Lowering

variable {s : Code.Scope} {p : Code.Place} {t : Tree} {ts : List Tree} {rs : List Rethrown}
  {r : Rethrown} {params : List String} {var type : String}

open Code (lowerAll ok_of_bind lowerAll_singleton)

/-- The variable of a clause is a name without dots. -/
theorem isSegment_var (n : Nat) : Text.IsSegment ("$e" ++ toString n) where
  nonempty := by simp
  dotless := by
    have digits : (toString n).toList = Nat.toDigits 10 n := Nat.toList_repr
    rw [String.toList_append, digits]
    intro dot
    rcases List.mem_append.mp dot with front | back
    · exact absurd front (by decide)
    · have small := ((Source.toDigits_ten n).1 _ back).2
      exact absurd small (by decide)

/-- What becomes of the parameter and the block of a clause. -/
theorem catch_of_lower {type body : Code}
    (lowered : (Code.catchClause (.param type var) (.block [.throwing body])).lower s p = .ok t) :
    ∃ m ty e, t = .catchClause m (.varDecl m var (.modifiers m .finalFlag []) ty .missing)
        (.block m .empty [.throwing m e]) ∧
      type.lower s .part = .ok ty ∧ body.lower s .value = .ok e := by
  obtain ⟨v, variable_, lowered⟩ := ok_of_bind lowered
  obtain ⟨b, block_, lowered⟩ := ok_of_bind lowered
  obtain ⟨as, none_, variable_⟩ := ok_of_bind variable_
  obtain ⟨ty, caught, variable_⟩ := ok_of_bind variable_
  obtain ⟨ss, statements, block_⟩ := ok_of_bind block_
  obtain ⟨t', rfl, throws⟩ := lowerAll_singleton statements
  obtain ⟨e, thrown, throws⟩ := ok_of_bind throws
  cases none_
  cases throws
  cases block_
  cases variable_
  cases lowered
  exact ⟨_, ty, e, rfl, caught, thrown⟩

/-- The tree of a variable. -/
theorem ident_of_lower (segment : Text.IsSegment var) (lowered : (Code.named var).lower s p = .ok t) :
    t = .ident s.mark var := by
  have spelled : (Code.named var).lower s p = Code.dotted s.mark var := rfl
  rw [spelled, Code.dotted_segment s.mark segment] at lowered
  exact (Except.ok.inj lowered).symm

theorem clause_of_lower (segment : Text.IsSegment var)
    (lowered : (r.clause params type var).lower s p = .ok t) : r.Clause params var type t := by
  rw [Rethrown.clause] at lowered
  split at lowered
  · next sentinel =>
    obtain ⟨m, ty, e, rfl, caught, thrown⟩ := catch_of_lower lowered
    rw [ident_of_lower segment thrown, String.isEmpty_iff.mp sentinel]
    exact .through _ _ _ _ _ _ ⟨s, caught⟩
  · next other =>
    obtain ⟨m, ty, e, rfl, caught, thrown⟩ := catch_of_lower lowered
    obtain ⟨b, none_, thrown⟩ := ok_of_bind thrown
    obtain ⟨as_, exception, thrown⟩ := ok_of_bind thrown
    obtain ⟨args, arguments, thrown⟩ := ok_of_bind thrown
    obtain ⟨message, last, rfl, message_, last_⟩ := Code.exists_of_append arguments
    obtain ⟨v, rfl, variable_⟩ := lowerAll_singleton last_
    obtain rfl := ident_of_lower segment variable_
    cases none_
    cases thrown
    refine .converted _ _ _ _ _ _ _ (mt String.isEmpty_iff.mpr other) ⟨s, caught⟩ ⟨s, exception⟩ ?_
    split at message_
    · next none_ =>
      rw [if_pos (String.isEmpty_iff.mp none_)]
      exact (Except.ok.inj message_).symm
    · next some_ =>
      rw [if_neg (mt String.isEmpty_iff.mpr some_)]
      obtain ⟨t, rfl, text⟩ := lowerAll_singleton message_
      exact ⟨s, t, rfl, text⟩

/-- Each piece of a list of code becomes the tree in its place. -/
theorem lower_of_getElem {cs : List Code} (lowered : lowerAll s p cs = .ok ts) :
    ts.length = cs.length ∧ ∀ (k : Nat) (c : Code) (t : Tree), cs[k]? = some c → ts[k]? = some t →
      c.lower s p = .ok t := by
  induction cs generalizing ts with
  | nil =>
    obtain rfl : [] = ts := Except.ok.inj lowered
    exact ⟨rfl, nofun⟩
  | cons c cs ih =>
    obtain ⟨t, here, lowered⟩ := ok_of_bind lowered
    obtain ⟨ts', others, lowered⟩ := ok_of_bind lowered
    obtain rfl := Except.ok.inj lowered
    obtain ⟨length, each⟩ := ih others
    refine ⟨by rw [List.length_cons, List.length_cons, length], fun k c' t' hc ht => ?_⟩
    cases k with
    | zero =>
      obtain rfl := Option.some.inj hc
      obtain rfl := Option.some.inj ht
      exact here
    | succ k => exact each k c' t' hc ht

theorem guards_of_lower {body : List Code}
    (lowered : lowerAll s .statement [.tryCatch (.block body) (rethrowClauses rs params) .missing] =
      .ok ts) : ∃ t inside, ts = [t] ∧ lowerAll s .statement body = .ok inside ∧
        Guards rs params inside t := by
  obtain ⟨t, rfl, try_⟩ := lowerAll_singleton lowered
  obtain ⟨cs, clauses, try_⟩ := ok_of_bind try_
  obtain ⟨f, final, try_⟩ := ok_of_bind try_
  obtain ⟨b, block_, try_⟩ := ok_of_bind try_
  obtain ⟨inside, body_, block_⟩ := ok_of_bind block_
  cases final
  cases block_
  cases try_
  obtain ⟨length, each⟩ := lower_of_getElem clauses
  simp only [rethrowClauses, Rethrown.types_eq, ← listed.eq_1] at length each
  refine ⟨_, inside, rfl, body_, .mk _ _ ?_ fun k x c hx hc => ?_⟩
  · rw [length, List.length_mapIdx]
  · refine clause_of_lower (isSegment_var (k + 1)) (each k _ c ?_ hc)
    rw [List.getElem?_mapIdx, hx]
    rfl

end Lowering

end Handler

/-! ## Runs -/

namespace SourceUnit

variable {u : SourceUnit} {m : Key}

/-- A method with a body in which there is something to do. -/
structure HasWork (u : SourceUnit) (m : Key) : Prop where
  concrete : u.isAbstract m = false
  filled : u.isEmpty m = false

theorem hasWork_iff : u.HasWork m ↔
    (u.flags m).meets .abstractFlag = false ∧ (bodyParts (u.decl m)).2 ≠ [] := by
  have missing_ : (u.decl m).body.isMissing = true → (bodyParts (u.decl m)).2 = [] := by
    intro none_
    rw [bodyParts]
    cases same : (u.decl m).body
    case missing => rfl
    all_goals
      rw [same] at none_
      cases none_
  constructor
  · rintro ⟨concrete, filled⟩
    obtain ⟨body, flag⟩ := Bool.or_eq_false_iff.mp concrete
    rw [isEmpty, body, Bool.not_false, Bool.true_and] at filled
    exact ⟨flag, fun none_ => by rw [none_] at filled; cases filled⟩
  · rintro ⟨flag, some_⟩
    have body : (u.decl m).body.isMissing = false := Bool.eq_false_iff.mpr fun none_ => some_ (missing_ none_)
    refine ⟨by rw [isAbstract, body, flag]; rfl, ?_⟩
    rw [isEmpty, body, Bool.not_false, Bool.true_and]
    exact List.isEmpty_eq_false_iff.mpr some_

end SourceUnit

section Checks

variable {i : Invocation} {m : Key} {b b' : Bench} {a : AnnoUse} {key name : String} {rs : List Rethrown}

/-- What is noted when something is done once for an element. -/
abbrev SourceUnit.entry (u : SourceUnit) (key : String) (e : Key) : Done := (key, u.name e, u.pos e)

/-- The bench after something was done once. -/
def Bench.noted (b : Bench) (d : Done) : Bench := { b with done := d :: b.done }

theorem Weave.once_fresh (fresh : b.unit.entry key m ∉ b.done) :
    once key m b = (.ok true, b.noted (b.unit.entry key m)) := by
  have entered : (get : Weave Bench) b = (.ok b, b) := rfl
  unfold once
  rw [bind_ok entered, if_neg (mt List.contains_iff_mem.mp fresh)]
  rfl

theorem Weave.once_again (noted : b.unit.entry key m ∈ b.done) : once key m b = (.ok false, b) := by
  have entered : (get : Weave Bench) b = (.ok b, b) := rfl
  unfold once
  rw [bind_ok entered, if_pos (List.contains_iff_mem.mpr noted)]
  rfl

/-- A method that is the element of a run or has it as a parameter, and has something to do. -/
structure Invocation.Concrete (i : Invocation) (u : SourceUnit) (m : Key) : Prop
    extends u.HasWork m where
  own : i.method? u = some m

theorem Invocation.Concrete.apply (h : i.Concrete b.unit m) : i.concreteMethod b = (.ok (some m), b) := by
  have looked : Weave.unit b = (.ok b.unit, b) := rfl
  unfold concreteMethod
  rw [bind_ok looked, h.own]
  dsimp only
  rw [h.concrete, h.filled]
  rfl

theorem Handler.readRethrown_apply {as : List AnnoUse} (reads : as.map Rethrown.of = rs.map .ok) :
    readRethrown i as b = (.ok rs, b) := by
  induction as generalizing rs with
  | nil =>
    obtain rfl := List.map_eq_nil_iff.mp reads.symm
    rfl
  | cons a as ih =>
    cases rs with
    | nil => exact nomatch reads
    | cons r rs =>
      obtain ⟨first, others⟩ := List.cons.inj reads
      unfold readRethrown
      rw [first]
      dsimp only
      rw [bind_ok (ih others)]
      rfl

/-- What is built for a method, from what its annotations say. -/
def Handler.guarding (m : Key) (rs : List Rethrown) : Build := do
  let u ← Weave.unit
  let params := (u.params m).map u.name
  return replacingBody m
    [.tryCatch (.block (u.statements m .none)) (rethrowClauses rs params) .missing]

/-- The first check for a method goes on. -/
theorem Handler.check_rethrowing (name : String) (given : i.anno = some a) (method : i.Concrete b.unit m)
    (sound : b.failed = false) (fresh : b.unit.entry "rethrow" m ∉ b.done)
    (reads : (rethrowUses b.unit m).map Rethrown.of = rs.map .ok) :
    (rethrowing name).check i b =
      (.ok (some (guarding m rs)), b.noted (b.unit.entry "rethrow" m)) := by
  obtain ⟨handler, anno, element⟩ := i
  obtain rfl : anno = some a := given
  change (Invocation.concreteMethod ⟨handler, some a, element⟩ >>= _) b = _
  rw [bind_ok method.apply]
  dsimp only
  rw [bind_ok (once_fresh fresh)]
  generalize after : b.noted (b.unit.entry "rethrow" m) = b'
  have looked : Weave.unit b' = (.ok b.unit, b') := by
    rw [← after]
    rfl
  have asked : Invocation.sound b' = (.ok true, b') := by
    rw [← after]
    change ((.ok !b.failed, _) : Except Abort Bool × Bench) = _
    rw [sound]
    rfl
  rw [Bool.not_true, if_neg Bool.false_ne_true, bind_ok looked, bind_ok (readRethrown_apply reads),
    bind_ok asked]
  rfl

/-- A later check for the same method stops. -/
theorem Handler.check_rethrowing_again (name : String) (given : i.anno = some a)
    (method : i.Concrete b.unit m) (noted : b.unit.entry "rethrow" m ∈ b.done) :
    (rethrowing name).check i b = (.ok none, b) := by
  obtain ⟨handler, anno, element⟩ := i
  obtain rfl : anno = some a := given
  change (Invocation.concreteMethod ⟨handler, some a, element⟩ >>= _) b = _
  rw [bind_ok method.apply]
  dsimp only
  rw [bind_ok (once_again noted)]
  rfl

end Checks

section Runs

variable {r : Registry} {i : Invocation} {m : Key} {n : Node} {b b' : Bench} {a : AnnoUse}
  {name : String} {rs : List Rethrown}

/-- A later run for the same method does nothing. -/
theorem Handler.Ran.again (ran : (rethrowing name).Ran i b (.ok ()) b') (given : i.anno = some a)
    (method : i.Concrete b.unit m) (noted : b.unit.entry "rethrow" m ∈ b.done) : b' = b.entered := by
  have stops := check_rethrowing_again (b := b.entered) name given method noted
  cases ran with
  | stopped check => exact congrArg Prod.snd (check.symm.trans stops)
  | failed check | spliced check => exact nomatch check.symm.trans stops

/-- **Conversion of exceptions.** The first run for a method puts a `try` statement around the
statements of the method, which are lifted and lowered for that. -/
theorem Handler.Ran.guarded (ran : (rethrowing name).Ran i b (.ok ()) b') (given : i.anno = some a)
    (method : i.Concrete b.unit m) (fresh : b.unit.entry "rethrow" m ∉ b.done)
    (reads : (rethrowUses b.unit m).map Rethrown.of = rs.map .ok) (sound : b.unit.Sound r)
    (element : r.node? m = some n) (kind : n.kind = .method) :
    b.unit.entry "rethrow" m ∈ b'.done ∧ ∃ s ss t,
      Code.lowerAll s .statement (Code.liftStmts .none (bodyParts (b.unit.decl m)).2) = .ok ss ∧
        Guards rs ((b.unit.params m).map b.unit.name) ss t ∧
        (bodyParts (b'.unit.decl m)).2 = [t] := by
  have goes := check_rethrowing (b := b.entered) name given method rfl fresh reads
  cases ran with
  | stopped check => exact nomatch check.symm.trans goes
  | failed check built =>
    obtain ⟨some_, rfl⟩ := Prod.mk.inj (check.symm.trans goes)
    obtain rfl := Option.some.inj (Except.ok.inj some_)
    exact nomatch built
  | @spliced build splice keys b₁ b₂ b₃ check built changed =>
    obtain ⟨some_, rfl⟩ := Prod.mk.inj (check.symm.trans goes)
    obtain rfl := Option.some.inj (Except.ok.inj some_)
    obtain ⟨made, rfl⟩ := Prod.mk.inj built
    obtain rfl := Except.ok.inj (Except.ok.inj made)
    generalize before : Bench.noted _ _ = b₀ at changed
    have unit : b₀.unit = b.unit := by
      rw [← before]
      rfl
    have noted : b.unit.entry "rethrow" m ∈ (b₀.attributed i).done := by
      rw [← before]
      exact List.mem_cons_self
    have begun : (b₀.attributed i).unit.Sound r :=
      ((Steps.one (.source _)).evolves (L := .nothing) (unit ▸ sound) fun _ => False.elim).sound
    rw [unit] at changed
    -- the body is replaced, and then the method is registered anew
    obtain ⟨_, b₄, replaced, last⟩ := ok_of_bind changed
    obtain ⟨listed, rfl⟩ := Prod.mk.inj last
    obtain rfl := Except.ok.inj listed
    rw [editing_apply] at replaced
    obtain ⟨result, rfl⟩ := Prod.mk.inj replaced
    obtain ⟨sound', s, ts, lowered, replaces⟩ :=
      begun.bodyParts_replaceBody element kind (Prod.ext result rfl)
    obtain ⟨t, ss, rfl, inside, guards⟩ := guards_of_lower lowered
    refine ⟨noted, s, ss, t, inside, guards, ?_⟩
    have registered := (sound'.register (L := .nothing) m).bodyParts_eq sound' element kind id
    refine (congrArg Prod.snd registered).trans (replaces fun x hx => ?_)
    obtain rfl := Option.some.inj hx
    cases guards
    rfl

end Runs

/-! ## Performing runs -/

section Performing

variable {xs ys runs : List (Handler × Invocation)} {b b' : Bench}

theorem performAll_split (done : performAll (xs ++ ys) b = (.ok (), b')) :
    ∃ b₁, performAll xs b = (.ok (), b₁) ∧ performAll ys b₁ = (.ok (), b') ∧
      b.accepted (xs ++ ys) = b.accepted xs ++ b₁.accepted ys := by
  induction xs generalizing b with
  | nil => exact ⟨b, rfl, done, rfl⟩
  | cons run xs ih =>
    obtain ⟨_, b₁, first, others⟩ := ok_of_bind (w := run.2.run run.1) done
    obtain ⟨b₂, before, after, accepts⟩ := ih others
    refine ⟨b₂, ?_, after, ?_⟩
    · change (run.2.run run.1 >>= fun _ => performAll xs) b = _
      rw [bind_ok first, before]
    · rw [List.cons_append, Bench.accepted, Bench.accepted, first, accepts]
      split <;> rfl

/-- What each run keeps holds when all runs have been performed. -/
theorem performAll_keeps {I : Bench → Prop}
    (keep : ∀ run ∈ runs, ∀ b b', I b → run.1.Ran run.2 b (.ok ()) b' → I b') (start : I b)
    (done : performAll runs b = (.ok (), b')) : I b' := by
  induction runs generalizing b with
  | nil =>
    obtain rfl := congrArg Prod.snd done
    exact start
  | cons run runs ih =>
    obtain ⟨_, b₁, first, others⟩ := ok_of_bind (w := run.2.run run.1) done
    have ran := run.2.ran run.1 b
    rw [first] at ran
    exact ih (fun run hrun => keep run (List.mem_cons_of_mem _ hrun))
      (keep run List.mem_cons_self b b₁ start ran) others

end Performing

/-! ## What stays -/

namespace SourceUnit

section Stays

variable {r : Registry} {own : Nat → Prop} {u v : SourceUnit} {e t m : Key} {config : Config}
  {c : Collector} {run : Handler × Invocation}

theorem AsRead.based (read : u.AsRead) : u.Based u.registry := by
  have sound := read.sound
  cases read with
  | @mk m f p is ds proper =>
    have nested := Registry.nested_ofUnit (.unit m f p is (numberAll 1 ds).1)
    exact ⟨sound, nested, ⟨_, (ofUnit_root (.unit m f p is (numberAll 1 ds).1)).1⟩, nested, rfl⟩

/-- A method keeps its name and its place. -/
theorem Persists.entry_eq (h : u.Persists r own v) (based : u.Based r) (seat : r.Seat e t (some m))
    (key : String) : v.entry key m = u.entry key m := by
  obtain ⟨n, element, kind, parent⟩ := seat.method_node
  obtain ⟨n', outer, type⟩ := seat.type_node
  have around {w : SourceUnit} (based : w.Based r) : w.registry.parent? m = some t := by
    obtain ⟨keys, now⟩ := based.lasts element
    rw [Registry.parent?, now, Option.bind_some, parent]
  have title := (h.decls element (.inr kind)).title
  have title' := (h.decls outer (.inl type)).title
  have mark := (h.decls element (.inr kind)).mark
  rw [entry, entry, name, name, pos, pos, Tree.pos, Tree.pos, mark, around based, around h.based,
    ← isConstructor_title, title, isConstructor_title, ← declaredName_title (v.decl m), title,
    declaredName_title]
  dsimp only
  rw [← declaredName_title (v.decl t), title', declaredName_title]

/-- A method keeps something to do. -/
theorem Persists.hasWork (h : u.Persists r own v) (based : u.Based r) {n : Node}
    (element : r.node? m = some n) (kind : n.kind = .method) (work : u.HasWork m) : v.HasWork m := by
  obtain ⟨flag, some_⟩ := hasWork_iff.mp work
  have persists := h.decls element (.inr kind)
  have method : (u.decl m).isMethod :=
    kind_of_suits (kind ▸ (based.found element (by rw [kind]; exact nofun)).2) rfl
  exact hasWork_iff.mpr ⟨(persists.abstract method).trans flag, persists.filled some_⟩

end Stays

end SourceUnit

/-! ## The first run -/

namespace SourceUnit

/-- No two methods of a unit have the same place. -/
def MethodsApart (u : SourceUnit) : Prop :=
  ∀ ⦃m m' : Key⦄ ⦃n n' : Node⦄, u.registry.node? m = some n → n.kind = .method →
    u.registry.node? m' = some n' → n'.kind = .method → u.pos m = u.pos m' → m = m'

/-- A run that converts the exceptions of a method. -/
def converts (u : SourceUnit) (m : Key) (run : Handler × Invocation) : Bool :=
  run.1.priority == Priority.rethrow && run.2.method? u == some m

/-- A unit on its way before the exceptions of a method are converted. -/
structure Unconverted (u : SourceUnit) (m : Key) (b : Bench) : Prop where
  persists : u.Persists u.registry (fun _ => True) b.unit
  fresh : u.entry "rethrow" m ∉ b.done

section Phases

variable {u v : SourceUnit} {e t m : Key} {config : Config} {c : Collector} {b b' : Bench}
  {run : Handler × Invocation} {n : Node}

theorem Persists.begins {own : Nat → Prop} (h : u.Persists u.registry own b.unit)
    (places : u.Places run) : Site.Begins ⟨u.registry, b.unit, run.2.type u, run.2.method? u,
      run.1.marks b.unit (run.2.method? u)⟩ run.1 run.2 :=
  ⟨⟨h.based.toSound, places.seat, places.handler⟩, h.based, rfl⟩

/-- What is noted by a run is noted for its method. -/
theorem converts_of_marks (read : u.AsRead) (apart : u.MethodsApart) (places : u.Places run)
    (persists : u.Persists u.registry (fun _ => True) b.unit) (seat : u.registry.Seat e t (some m))
    (noted : u.entry "rethrow" m ∈ run.1.marks b.unit (run.2.method? u)) : u.converts m run := by
  obtain ⟨key, family, noted⟩ := Option.bind_eq_some_iff.mp (Option.mem_toList.mp noted)
  obtain ⟨m', own, same⟩ := Option.map_eq_some_iff.mp noted
  have seat' := own ▸ places.seat
  rw [← entry, persists.entry_eq read.based seat'] at same
  obtain ⟨rfl, named⟩ := Prod.mk.inj same
  obtain ⟨n, node, kind, -⟩ := seat.method_node
  obtain ⟨n', node', kind', -⟩ := seat'.method_node
  obtain rfl := apart node' kind' node kind (Prod.mk.inj named).2
  have priority : run.1.priority = Priority.rethrow := by
    unfold Handler.family? at family
    split at family
    · exact absurd family (by decide)
    split at family
    · exact absurd family (by decide)
    split at family
    · next same => exact same
    · exact nomatch family
  rw [converts, priority, own]
  exact Bool.and_eq_true_iff.mpr ⟨beq_self_eq_true _, beq_self_eq_true _⟩

theorem Unconverted.step (h : u.Unconverted m b) (read : u.AsRead) (apart : u.MethodsApart)
    (places : u.Places run) (seat : u.registry.Seat e t (some m))
    (early : run.1.priority < Priority.function) (other : ¬u.converts m run)
    (ran : run.1.Ran run.2 b (.ok ()) b') : u.Unconverted m b' := by
  obtain ⟨persists, marks⟩ :=
    ran.steady (steady_standard places.standard early) (h.persists.begins places) rfl
  refine ⟨h.persists.trans (persists.weaken fun _ _ => trivial), fun noted => ?_⟩
  exact (marks.few _ noted).elim h.fresh fun new =>
    other (converts_of_marks read apart places h.persists seat new)

/-- The handlers that run when exceptions are converted. -/
theorem rethrowing_of_priority {h : Handler} (member : h ∈ standard)
    (priority : h.priority = Priority.rethrow) : ∃ name, h = rethrowing name := by
  have listed := (List.mergeSort_perm _ _).mem_iff.mp member
  simp only [List.mem_cons, List.not_mem_nil, or_false] at listed
  rcases listed with rfl | rfl | rfl | rfl | rfl | rfl | rfl | rfl | rfl | rfl | rfl | rfl | rfl |
    rfl | rfl | rfl | rfl | rfl | rfl | rfl | rfl | rfl | rfl | rfl | rfl | rfl | rfl | rfl | rfl |
    rfl
  all_goals first
    | exact absurd priority (by decide)
    | exact ⟨_, rfl⟩

/-- What triggers a handler that is named for an annotation is an annotation. -/
theorem anno_of_trigger {handlers : List Handler} {o : Occurrence}
    (member : o ∈ Occurrence.all config handlers u) (trigger : o.handler.trigger = .annotated) :
    ∃ h e a, o = .anno h e a := by
  have triggers {t : Trigger} {q : Handler → Bool} {f : Handler → Occurrence}
      (found : o ∈ ((config.active handlers t).filter q).map f) (same : ∀ g, (f g).handler = g) :
      o.handler.trigger = t := by
    obtain ⟨g, hg, rfl⟩ := List.mem_map.mp found
    obtain ⟨-, active⟩ := List.mem_filter.mp (List.mem_of_mem_filter hg)
    rw [same]
    exact eq_of_beq (Bool.and_eq_true_iff.mp active).2
  have element {k : Key} (found : o ∈ Occurrence.onElement config handlers u k) :
      ∃ h e a, o = .anno h e a := by
    obtain ⟨a, -, found⟩ := List.mem_flatMap.mp found
    obtain ⟨g, -, rfl⟩ := List.mem_map.mp found
    exact ⟨g, k, a, rfl⟩
  obtain ⟨t, -, member⟩ := List.mem_flatMap.mp member
  simp only [Occurrence.onType, Occurrence.onMethod, List.mem_append, List.mem_flatMap] at member
  rcases member with ((own | interface) | ⟨f, -, found⟩) | ⟨m, -, (own | ⟨p, -, found⟩) | call⟩
  · exact element own
  · exact absurd (trigger.symm.trans (triggers interface fun _ => rfl)) (by decide)
  · exact element found
  · exact element own
  · exact element found
  · exact absurd (trigger.symm.trans (triggers call fun _ => rfl)) (by decide)

/-- A run of such a handler is a run for an annotation. -/
theorem anno_of_scheduled (member : run ∈ u.schedule config) (trigger : run.1.trigger = .annotated) :
    ∃ a, run.2.anno = some a := by
  have asked := (Finding.schedule_perm _).mem_iff.mp member
  rw [all_eq, Finding.asked_map] at asked
  obtain ⟨o, ho, runs⟩ := List.mem_filterMap.mp asked
  obtain rfl : run = (o.handler, o.invocation) := by
    unfold Occurrence.run? at runs
    split at runs
    · exact (Option.some.inj runs).symm
    · exact nomatch runs
  obtain ⟨h, e, a, rfl⟩ := anno_of_trigger ho trigger
  exact ⟨a, rfl⟩

/-! ### The runs for a method -/

/-- The exceptions of a method have been converted. -/
structure Converted (u : SourceUnit) (m : Key) (parts : List Tree × List Tree) (b : Bench) : Prop where
  persists : u.Persists u.registry (fun _ => True) b.unit
  noted : u.entry "rethrow" m ∈ b.done
  body : bodyParts (b.unit.decl m) = parts

theorem Persists.concreteIn {own : Nat → Prop} (h : u.Persists u.registry own v)
    (read : u.AsRead) (places : u.Places run) (own' : run.2.method? u = some m) (work : u.HasWork m) :
    run.2.Concrete v m := by
  have seat := own' ▸ places.seat
  obtain ⟨n, element, kind, -⟩ := seat.method_node
  exact ⟨h.hasWork read.based element kind work, seat.method_eq h.based.lasts⟩

/-- The first run for a method converts its exceptions. -/
theorem Unconverted.converted {rs : List Rethrown} (h : u.Unconverted m b) (read : u.AsRead)
    (scheduled : run ∈ u.schedule config) (first : u.converts m run) (work : u.HasWork m)
    (reads : (rethrowUses u m).map Rethrown.of = rs.map .ok)
    (ran : run.1.Ran run.2 b (.ok ()) b') : ∃ s ss t,
      Code.lowerAll s .statement (Code.liftStmts .none (bodyParts (b.unit.decl m)).2) = .ok ss ∧
        Guards rs ((b.unit.params m).map b.unit.name) ss t ∧
        u.Converted m ((bodyParts (u.decl m)).1, [t]) b' := by
  have places := read.places scheduled
  obtain ⟨priority, own⟩ := Bool.and_eq_true_iff.mp first
  have own : run.2.method? u = some m := eq_of_beq own
  obtain ⟨name, same⟩ := rethrowing_of_priority places.standard (eq_of_beq priority)
  obtain ⟨a, given⟩ := anno_of_scheduled scheduled (by rw [same]; rfl)
  have seat := own ▸ places.seat
  obtain ⟨n, element, kind, -⟩ := seat.method_node
  have early : run.1.priority < Priority.function := by
    rw [eq_of_beq priority]
    decide
  obtain ⟨persists, -⟩ :=
    ran.steady (steady_standard places.standard early) (h.persists.begins places) rfl
  have whole := h.persists.trans (persists.weaken fun _ _ => trivial)
  have uses : rethrowUses b.unit m = rethrowUses u m := by
    rw [rethrowUses, h.persists.annotations_eq read.based element (.inr kind)]
    rfl
  have entry := h.persists.entry_eq read.based seat "rethrow"
  rw [same] at ran
  obtain ⟨noted, s, ss, t, inside, guards, body⟩ :=
    ran.guarded given (h.persists.concreteIn read places own work) (by rw [entry]; exact h.fresh)
      (by rw [uses]; exact reads) h.persists.based.toSound element kind
  refine ⟨s, ss, t, inside, guards, whole, entry ▸ noted, ?_⟩
  rw [← body, ← (whole.decls element (.inr kind)).call]

/-- Later runs that convert exceptions leave the method as it is. -/
theorem Converted.step {parts : List Tree × List Tree} (h : u.Converted m parts b) (read : u.AsRead)
    (scheduled : run ∈ u.schedule config) (seat : u.registry.Seat e t (some m))
    (priority : run.1.priority = Priority.rethrow) (work : u.HasWork m)
    (ran : run.1.Ran run.2 b (.ok ()) b') : u.Converted m parts b' := by
  have places := read.places scheduled
  obtain ⟨name, same⟩ := rethrowing_of_priority places.standard priority
  by_cases own : run.2.method? u = some m
  · obtain ⟨a, given⟩ := anno_of_scheduled scheduled (by rw [same]; rfl)
    have entry := h.persists.entry_eq read.based seat "rethrow"
    rw [same] at ran
    obtain rfl := ran.again given (h.persists.concreteIn read places own work)
      (by rw [entry]; exact h.noted)
    exact ⟨h.persists, h.noted, h.body⟩
  · have early : run.1.priority < Priority.function := by
      rw [priority]
      decide
    obtain ⟨persists, marks⟩ :=
      ran.steady (steady_standard places.standard early) (h.persists.begins places) rfl
    obtain ⟨n, element, kind, -⟩ := seat.method_node
    refine ⟨h.persists.trans (persists.weaken fun _ _ => trivial), marks.kept _ h.noted, ?_⟩
    -- only the body of its own method is replaced by a run
    have other : ¬Site.Own ⟨u.registry, b.unit, run.2.type u, run.2.method? u,
        run.1.marks b.unit (run.2.method? u)⟩ n.decl := by
      rintro ⟨m', own', number⟩
      have own' : run.2.method? u = some m' := own'
      obtain ⟨n', node, -⟩ := (own' ▸ places.seat).method_node
      rw [Registry.number_of_node node] at number
      exact own (by rw [read.apart element node number.symm]; exact own')
    exact ((persists.decls element (.inr kind)).bodyParts_eq other).trans h.body

end Phases

/-! ## All runs -/

/-- The bench when the runs before the first one of some kind have been performed. -/
def reached (u : SourceUnit) (config : Config) (c : Collector) (p : Handler × Invocation → Bool) :
    Bench :=
  (performAll ((u.schedule config).takeWhile fun run => !p run) (u.prepared config c)).2

/-- A run that comes after the conversion of exceptions. -/
def outlasts (run : Handler × Invocation) : Bool := Priority.rethrow < run.1.priority

section Whole

variable {u v : SourceUnit} {e t m : Key} {config : Config} {c c' : Collector} {said : Option String}
  {b b' : Bench} {run : Handler × Invocation} {runs : List (Handler × Invocation)} {n : Node}

/-- A list with an element of some kind, apart at the first one. -/
theorem exists_first {α : Type} {p : α → Bool} {l : List α} {a : α} (member : a ∈ l) (own : p a) :
    ∃ xs x ys, l = xs ++ x :: ys ∧ (l.takeWhile fun x => !p x) = xs ∧ p x ∧ ∀ y ∈ xs, ¬p y := by
  induction l with
  | nil => exact absurd member List.not_mem_nil
  | cons x l ih =>
    by_cases here : p x
    · exact ⟨[], x, l, rfl, List.takeWhile_cons_of_neg (by rw [here]; exact Bool.false_ne_true), here,
        nofun⟩
    · have later : a ∈ l := (List.mem_cons.mp member).resolve_left fun same => here (same ▸ own)
      obtain ⟨xs, y, ys, rfl, taken, first, others⟩ := ih later
      refine ⟨x :: xs, y, ys, rfl, ?_, first, List.forall_mem_cons.mpr ⟨here, others⟩⟩
      rw [List.takeWhile_cons_of_pos (by rw [Bool.eq_false_iff.mpr here]; rfl), taken]

/-- The unit is sound, and the method has the statements that it had if no run was about it. -/
def KeepsBody (u v : SourceUnit) (m : Key) (acc : List (Handler × Invocation)) (w : SourceUnit) :
    Prop :=
  w.Sound u.registry ∧
    ((∀ run ∈ acc, run.2.method? u ≠ some m) → bodyParts (w.decl m) = bodyParts (v.decl m))

/-- A method that no accepted run is about keeps its statements. -/
theorem bodyParts_performAll (read : u.AsRead) (among : runs ⊆ u.schedule config)
    (element : u.registry.node? m = some n) (kind : n.kind = .method) (sound : b.unit.Sound u.registry)
    (others : ∀ run ∈ b.accepted runs, run.2.method? u ≠ some m)
    (done : performAll runs b = (.ok (), b')) :
    bodyParts (b'.unit.decl m) = bodyParts (b.unit.decl m) ∧ b'.unit.Sound u.registry := by
  have start : KeepsBody u b.unit m [] b.unit := ⟨sound, fun _ => rfl⟩
  have whole : KeepsBody u b.unit m ([] ++ b.accepted runs) b'.unit :=
    performAll_induction (fun run hrun acc b₁ b₂ holds ran => ?_) start done
  · exact ⟨whole.2 others, whole.1⟩
  · obtain ⟨sound₁, same⟩ := holds
    have places := read.places (among hrun)
    rcases ran.evolves (confined_standard places.standard) read.apart
      ⟨sound₁, places.seat, places.handler⟩ with stays | ⟨accepts, names, -, evolves, -⟩
    · rw [stays]
      exact ⟨sound₁, fun others => same fun run hrun => others run (List.mem_append_left _ hrun)⟩
    · refine ⟨evolves.sound, fun others => ?_⟩
      rw [if_pos accepts] at others
      have other := others run List.mem_concat_self
      rw [← same fun run hrun => others run (List.mem_append_left _ hrun)]
      refine evolves.bodyParts_eq sound₁ element kind ?_
      rintro ⟨m', own, number⟩
      obtain ⟨n', node, -⟩ := (own ▸ places.seat).method_node
      rw [Registry.number_of_node node] at number
      exact other (by rw [own, read.apart node element number])

/-- Nothing has been done when the runs begin. -/
theorem unconverted_prepared (read : u.AsRead) : u.Unconverted m (u.prepared config c) where
  persists := by
    rw [show (u.prepared config c).unit = u from Bench.enumerated_unit _ _]
    exact .refl read.based
  fresh := by
    have reported (ds : List Diagnostic) (b : Bench) : (ds.foldl Bench.reported b).done = b.done := by
      induction ds generalizing b with
      | nil => rfl
      | cons d ds ih => exact ih (b.reported d)
    have none_ : (u.prepared config c).done = [] := reported _ _
    rw [none_]
    exact List.not_mem_nil

/-- The runs of a unit, apart at the first one that converts the exceptions of a method and at the end of
the conversion. -/
structure Parts (u : SourceUnit) (config : Config) (m : Key) (before : List (Handler × Invocation))
    (first : Handler × Invocation) (middle late : List (Handler × Invocation)) : Prop where
  split : u.schedule config = (before ++ first :: middle) ++ late
  begins : ((u.schedule config).takeWhile fun run => !u.converts m run) = before
  ends : ((u.schedule config).takeWhile fun run => !outlasts run) = before ++ first :: middle
  converts : u.converts m first
  before : ∀ run ∈ before, ¬u.converts m run ∧ run.1.priority ≤ Priority.rethrow
  middle : ∀ run ∈ middle, run.1.priority = Priority.rethrow
  late : ∀ run ∈ late, Priority.rethrow < run.1.priority

theorem exists_parts (asked : run ∈ u.schedule config) (converts : u.converts m run) :
    ∃ before first middle late, u.Parts config m before first middle late := by
  have sorted : (u.schedule config).Pairwise fun a b => a.1.priority ≤ b.1.priority :=
    Finding.schedule_sorted _
  obtain ⟨xs, x, ys, split, taken, first, others⟩ := exists_first asked converts
  have priority : x.1.priority = Priority.rethrow := eq_of_beq (Bool.and_eq_true_iff.mp first).1
  rw [split] at sorted
  obtain ⟨-, sorted', earlier⟩ := List.pairwise_append.mp sorted
  obtain ⟨least, increase⟩ := List.pairwise_cons.mp sorted'
  have early {y : Handler × Invocation} : (!outlasts y) = true ↔ y.1.priority ≤ Priority.rethrow := by
    rw [outlasts, Bool.not_eq_true', decide_eq_false_iff_not, Int.not_lt]
  have before : ∀ y ∈ xs, y.1.priority ≤ Priority.rethrow := fun y hy =>
    priority ▸ earlier y hy x List.mem_cons_self
  refine ⟨xs, x, ys.takeWhile fun run => !outlasts run, ys.dropWhile fun run => !outlasts run, ?_,
    taken, ?_, first, fun y hy => ⟨others y hy, before y hy⟩, fun y hy => ?_, fun y hy => ?_⟩
  · rw [split, List.append_assoc, List.cons_append, List.takeWhile_append_dropWhile]
  · rw [split, List.takeWhile_append_of_pos fun y hy => early.mpr (before y hy),
      List.takeWhile_cons_of_pos (p := fun y => !outlasts y) (early.mpr (Int.le_of_eq priority))]
  · have le := least y ((List.takeWhile_prefix _).subset hy)
    exact Int.le_antisymm (early.mp (List.mem_takeWhile_imp (p := fun y => !outlasts y) hy)) (priority ▸ le)
  · -- the first of the late runs comes after the conversion, and the others come after it
    have rest := increase.sublist (List.dropWhile_sublist fun run => !outlasts run)
    have front := List.head?_dropWhile_not (fun run => !outlasts run) ys
    cases same : ys.dropWhile fun run => !outlasts run with
    | nil =>
      rw [same] at hy
      exact absurd hy List.not_mem_nil
    | cons z zs =>
      rw [same] at hy rest front
      have late : Priority.rethrow < z.1.priority := by
        by_contra le
        exact absurd (early.mpr (Int.not_lt.mp le)) (by rw [show (!outlasts z) = false from front]; exact Bool.false_ne_true)
      rcases List.mem_cons.mp hy with rfl | hy
      · exact late
      · exact Int.lt_of_lt_of_le late ((List.pairwise_cons.mp rest).1 y hy)

/-- The exceptions of a method are converted once. When all runs up to the conversion of exceptions have
been performed, the method consists of the call of another constructor, if it began with one, and a
single `try` statement with the clauses for what annotations say; in it are the statements that the
method had before the first of the runs that convert its exceptions. Those are the statements that were
read, unless an earlier run is about the method, and the method stays what it is unless a later one
is. -/
structure ConvertedOnce (u : SourceUnit) (config : Config) (c : Collector) (v : SourceUnit) (m : Key)
    (rs : List Rethrown) : Prop where
  guarded :
    let before := (u.reached config c (u.converts m)).unit
    ∃ s ss t, Code.lowerAll s .statement (Code.liftStmts .none (bodyParts (before.decl m)).2) = .ok ss ∧
      Guards rs ((before.params m).map before.name) ss t ∧
      bodyParts ((u.reached config c outlasts).unit.decl m) = ((bodyParts (u.decl m)).1, [t])
  first : (∀ other ∈ u.accepted config c, other.2.method? u = some m →
      Priority.rethrow ≤ other.1.priority) →
    bodyParts ((u.reached config c (u.converts m)).unit.decl m) = bodyParts (u.decl m)
  last : (∀ other ∈ u.accepted config c, other.2.method? u = some m →
      other.1.priority ≤ Priority.rethrow) →
    bodyParts (v.decl m) = bodyParts ((u.reached config c outlasts).unit.decl m)

/-- A run that converts the exceptions of a method is asked for, and whichever of these comes first
converts them. -/
theorem AsRead.process_rethrown {rs : List Rethrown} (read : u.AsRead) (apart : u.MethodsApart)
    (done : u.process config c = .ok (v, c', said)) (asked : run ∈ u.schedule config)
    (converts : u.converts m run) (work : u.HasWork m)
    (reads : (rethrowUses u m).map Rethrown.of = rs.map .ok) : u.ConvertedOnce config c v m rs := by
  obtain ⟨b₄, b₅, hs, used, performed, pruned, rfl⟩ := process_ok done
  obtain ⟨e, t, seat⟩ : ∃ e t, u.registry.Seat e t (some m) :=
    ⟨_, _, eq_of_beq (Bool.and_eq_true_iff.mp converts).2 ▸ (read.places asked).seat⟩
  obtain ⟨n, element, kind, -⟩ := seat.method_node
  obtain ⟨xs, x, ys, zs, parts⟩ := exists_parts asked converts
  have scheduled {run : Handler × Invocation} (hrun : run ∈ xs ∨ run = x ∨ run ∈ ys ∨ run ∈ zs) :
      run ∈ u.schedule config := by
    rw [parts.split]
    simpa [or_assoc] using hrun
  rw [parts.split] at performed
  obtain ⟨b₃, upTo, last, accepts⟩ := performAll_split performed
  obtain ⟨b₁, start, next, accepts'⟩ := performAll_split upTo
  obtain ⟨_, b₂, ran, rest⟩ := ok_of_bind (w := x.2.run x.1) next
  have ran' := x.2.ran x.1 b₁
  rw [ran] at ran'
  have begins : u.reached config c (u.converts m) = b₁ := by
    unfold reached
    rw [parts.begins, start]
  have ends : u.reached config c outlasts = b₃ := by
    unfold reached
    rw [parts.ends, upTo]
  have unconverted : u.Unconverted m b₁ := by
    refine performAll_keeps (fun run hrun b b' holds ran => ?_) (unconverted_prepared read) start
    obtain ⟨other, le⟩ := parts.before run hrun
    exact holds.step read apart (read.places (scheduled (.inl hrun))) seat
      (Int.lt_of_le_of_lt le (by decide)) other ran
  obtain ⟨s, ss, t, inside, guards, first⟩ :=
    unconverted.converted read (scheduled (.inr (.inl rfl))) parts.converts work reads ran'
  have converted : u.Converted m ((bodyParts (u.decl m)).1, [t]) b₃ := by
    refine performAll_keeps (fun run hrun b b' holds ran => ?_) first rest
    exact holds.step read (scheduled (.inr (.inr (.inl hrun)))) seat (parts.middle run hrun) work ran
  have all : u.accepted config c =
      ((u.prepared config c).accepted xs ++ b₁.accepted (x :: ys)) ++ b₃.accepted zs := by
    rw [accepted, parts.split, accepts, accepts']
  refine ⟨?_, fun late => ?_, fun early => ?_⟩
  · rw [begins, ends]
    exact ⟨s, ss, t, inside, guards, converted.body⟩
  · have prepared : (u.prepared config c).unit = u := Bench.enumerated_unit _ _
    have none_ : ∀ run ∈ (u.prepared config c).accepted xs, run.2.method? u ≠ some m := by
      intro run hrun own
      have le := late run (by rw [all]; simp [hrun]) own
      obtain ⟨other, ge⟩ := parts.before run (Bench.accepted_subset _ _ hrun)
      exact other (Bool.and_eq_true_iff.mpr
        ⟨beq_iff_eq.mpr (Int.le_antisymm ge le), beq_iff_eq.mpr own⟩)
    have kept := bodyParts_performAll read (fun run hrun => scheduled (.inl hrun)) element kind
      (by rw [prepared]; exact read.sound) none_ start
    rw [begins, kept.1, prepared]
  · have none_ : ∀ run ∈ b₃.accepted zs, run.2.method? u ≠ some m := by
      intro run hrun own
      have le := early run (by rw [all]; simp [hrun]) own
      exact absurd (parts.late run (Bench.accepted_subset _ _ hrun)) (Int.not_lt.mpr le)
    obtain ⟨kept, sound⟩ := bodyParts_performAll read
      (fun run hrun => scheduled (.inr (.inr (.inr hrun)))) element kind
      converted.persists.based.toSound none_ last
    rw [ends, ← kept, (spares_prune hs used sound pruned).evolves.bodyParts_eq sound element kind id]

end Whole

end SourceUnit

end Weaver
