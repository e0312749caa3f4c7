import Weaver.Proofs.Processing.Course
/-!
Runs that wrap a method in a lock.

If the check of such a run goes on, the run cannot fail: its type gets the fields that its plan needs
and that are missing, and what the plan makes of the statements of its method takes their place
(`Handler.Ran.locked`).
-/
set_option autoImplicit false

namespace Weaver

open Weaver.Syntax (Tree Mark Field)
open Weaver.Syntax.Tree
open SourceUnit Weave

/-! ## Bodies -/

section Bodies

variable {L : License} {r : Registry} {u v : SourceUnit} {k : Key} {n n' : Node} {d d' : Tree}
  {f : Tree → Tree} {ss : List Tree}

/-- The statements of a method are told by its head. -/
theorem SourceUnit.bodyParts_of_head (same : d'.head = d.head) : bodyParts d' = bodyParts d := by
  have constructor : d'.isConstructor = d.isConstructor := congrArg Prod.fst same
  have body : d'.body = d.body := congrArg (·.2.2) same
  rw [bodyParts, bodyParts, constructor, body]

/-- Other statements of a method, behind the call of another constructor. -/
theorem SourceUnit.bodyParts_withStmts (method : d.isMethod) (m : Mark)
    (plain : ∀ s ∈ ss.head?, isConstructorCall s = false) :
    (bodyParts (Edit.withStmts m ((bodyParts d).1 ++ ss) d)).2 = ss := by
  have stmts (call : List Tree) : (Edit.withStmts m (call ++ ss) d).body.stmts = call ++ ss := by
    cases d
    case methodDecl mm nn ms tps re ps ts b => cases b <;> rfl
    all_goals exact absurd method Bool.false_ne_true
  have constructor (call : List Tree) :
      (Edit.withStmts m (call ++ ss) d).isConstructor = d.isConstructor := by
    cases d <;> rfl
  have none_ : (bodyParts (Edit.withStmts m ([] ++ ss) d)).2 = ss := by
    rw [bodyParts, stmts, constructor, List.nil_append]
    cases ss with
    | nil => rfl
    | cons x xs =>
      dsimp only
      rw [plain x rfl, Bool.and_false]
      rfl
  rw [show (bodyParts d).1 = _ from congrArg Prod.fst (bodyParts.eq_1 d)]
  split
  · next s ss' _ =>
    split
    · next calls =>
      rw [bodyParts, stmts, constructor]
      dsimp only [List.cons_append]
      rw [if_pos calls]
      rfl
    · exact none_
  · exact none_

/-- A method keeps its statements while its body may not be replaced. -/
theorem SourceUnit.Evolves.bodyParts_eq {gs : List Gain} (h : u.Evolves L r gs v)
    (sound : u.Sound r) (element : r.node? k = some n) (method : n.kind = .method)
    (kept : ¬L.body n.decl) : bodyParts (v.decl k) = bodyParts (u.decl k) := by
  have inner : n.kind ≠ .unit := by rw [method]; exact nofun
  exact bodyParts_of_head
    ((h.follows element inner).head (method ▸ (sound.found element inner).2) kept)

/-- What is done to a method when its body is replaced. -/
theorem Edit.ok_of_replaceBody {cs : List Code} (done : replaceBody k cs u = (.ok (), v)) :
    ∃ ts, Code.lowerAll (u.methodScope k) .statement cs = .ok ts ∧
      suppressWarnings k (u.methodScope k) (u.changeDecl k
        (withStmts (u.methodScope k).mark ((bodyParts (u.decl k)).1 ++ ts))) = (.ok (), v) := by
  obtain ⟨u', w, looked, done⟩ := ok_of_bind done
  cases looked
  obtain ⟨ts, w, lowered, done⟩ := ok_of_bind done
  obtain ⟨lowered, same⟩ := Prod.mk.inj lowered
  rw [← same] at done
  obtain ⟨_, w, changed, suppressed⟩ := ok_of_bind done
  cases changed
  exact ⟨ts, lowered, suppressed⟩

/-- A method whose body is replaced has the new statements. -/
theorem SourceUnit.Sound.bodyParts_replaceBody {cs : List Code} (sound : u.Sound r)
    (element : r.node? k = some n) (method : n.kind = .method)
    (done : Edit.replaceBody k cs u = (.ok (), v)) : v.Sound r ∧
      ∃ s ts, Code.lowerAll s .statement cs = .ok ts ∧
        ((∀ t ∈ ts.head?, isConstructorCall t = false) → (bodyParts (v.decl k)).2 = ts) := by
  have inner : n.kind ≠ .unit := by rw [method]; exact nofun
  obtain ⟨ts, lowered, suppressed⟩ := Edit.ok_of_replaceBody done
  -- the body alone, without the annotation that is added after it
  have steps := Edit.steps_changeDecl (L := { License.nothing with body := fun _ => True })
    (u := u) (k := k) (f := Edit.withStmts (u.methodScope k).mark ((bodyParts (u.decl k)).1 ++ ts))
    fun n _ => Edit.alters_withStmts trivial _ _ _
  have changes := steps.evolves sound fun _ => False.elim
  obtain ⟨registry, steps'⟩ := Edit.leads_suppressWarnings (L := .nothing) _ _ rfl _ _ suppressed
  have annotates := steps'.evolves changes.sound fun _ => False.elim
  have suits : (u.decl k).isMethod := by
    have own := (sound.found element inner).2
    rw [method] at own
    cases same : u.decl k
    case methodDecl => rfl
    all_goals
      rw [same] at own
      exact own.elim
  refine ⟨annotates.sound, _, ts, lowered, fun plain => ?_⟩
  rw [annotates.bodyParts_eq changes.sound element method id, sound.decl_changeDecl element inner]
  · exact bodyParts_withStmts suits _ plain
  · cases same : u.decl k <;> rw [same] at suits <;> first | rfl | exact absurd suits Bool.false_ne_true
  · cases u.decl k <;> rfl

end Bodies

/-! ## Runs -/

namespace Handler

/-- A run that has a plan is a run of a handler that reads it. -/
theorem readsPlan_of_plan {h : Handler} {i : Invocation} {p : LockPlan} (member : h ∈ standard)
    (named : i.handler = h.name) (planned : i.plan? = some p) : h.ReadsPlan := by
  have locks : h.name ∈ lockNames := named ▸ mem_lockNames_of_plan planned
  have listed := (List.mergeSort_perm _ _).mem_iff.mp member
  simp only [List.mem_cons, List.not_mem_nil, or_false] at listed
  rcases listed with rfl | rfl | rfl | rfl | rfl | rfl | rfl | rfl | rfl | rfl | rfl | rfl | rfl |
    rfl | rfl | rfl | rfl | rfl | rfl | rfl | rfl | rfl | rfl | rfl | rfl | rfl | rfl | rfl | rfl |
    rfl
  all_goals first
    | exact absurd locks (by decide)
    | exact readsPlan_readLock
    | exact readsPlan_writeLock
    | exact readsPlan_signal
    | exact readsPlan_await
    | exact readsPlan_awaitBeforeAndSignalAfter

/-- Splicing by a plan puts what the plan has made of the statements in their place. -/
theorem bodyParts_splice {h : Handler} {r : Registry} {u : SourceUnit} {i : Invocation} {t m : Key}
    {m? : Option Key} {p : LockPlan} {cs : List Code} {keys : List Key} {b b' : Bench}
    (starts : h.Starts r u i t m?) (planned : i.plan? = some p) (own : m? = some m)
    (begun : b.unit.registry = u.registry) (sound : b.unit.Sound r)
    (changed : p.splice t m (p.missing u t) cs b = (.ok keys, b')) :
    ∃ s ts, Code.lowerAll s .statement cs = .ok ts ∧
      ((∀ x ∈ ts.head?, isConstructorCall x = false) →
        (bodyParts (b'.unit.decl m)).2 = ts) := by
  subst own
  obtain ⟨n, element, method, -⟩ := starts.seat.method_node
  obtain ⟨_, b₁, injected, changed⟩ := ok_of_bind changed
  obtain ⟨_, b₂, replaced, changed⟩ := ok_of_bind changed
  obtain ⟨-, steps, -⟩ :=
    leads_missing (L := { License.nothing with field := (i.license r u t (some m)).field })
      starts planned (fun _ _ h => h) _ begun rfl injected
  have injects := steps.evolves sound fun _ => False.elim
  have replaced' : Edit.replaceBody m cs b₁.unit = (.ok (), b₂.unit) := by
    rw [editing_apply] at replaced
    obtain ⟨result, same⟩ := Prod.mk.inj replaced
    exact Prod.ext result (congrArg Bench.unit same)
  obtain ⟨sound', s, ts, lowered, replaces⟩ :=
    injects.sound.bodyParts_replaceBody element method replaced'
  refine ⟨s, ts, lowered, fun plain => ?_⟩
  rw [← replaces plain]
  have rest : Spares r (do
      if p.interruptible then
        editing (.addThrown m [.type "java.lang.InterruptedException"])
      return [t]) := by
    split
    · exact spares_bind (spares_editing fun _ => Edit.leads_addThrown _) fun _ => spares_pure _
    · exact spares_pure _
  exact congrArg Prod.snd ((rest sound' changed).evolves.bodyParts_eq sound' element method id)

/-- **Locking.** A run with a plan that is accepted does what the plan says: its type gets the fields
that are missing, and the statements of its method are wrapped. -/
theorem Ran.locked {h : Handler} {r : Registry} {i : Invocation} {t : Key} {m? : Option Key}
    {p : LockPlan} {b b' : Bench} (ran : h.Ran i b (.ok ()) b') (member : h ∈ standard)
    (starts : h.Starts r b.unit i t m?) (planned : i.plan? = some p)
    (accepts : b.accepts (h, i) = true) :
    b.unit.Evolves (i.license r b.unit t m?) r ((p.missingNames b.unit t).map (r.number t, ·))
        b'.unit ∧
      ∃ m, m? = some m ∧ ∃ s ts,
        Code.lowerAll s .statement (p.wrap (b.unit.statements m .none)) = .ok ts ∧
        ((∀ x ∈ ts.head?, isConstructorCall x = false) →
          (bodyParts (b'.unit.decl m)).2 = ts) := by
  have reads := (readsPlan_of_plan member starts.handler planned).quiet_check starts.handler b.unit
  have entered : b.entered.unit = b.unit := rfl
  cases ran with
  | stopped check =>
    rw [Bench.accepts, check] at accepts
    exact absurd accepts Bool.false_ne_true
  | failed check built =>
    obtain ⟨-, builds⟩ := reads entered check
    obtain ⟨p', m, -, -, rfl⟩ := builds _ rfl
    cases built
  | @spliced build splice keys b₁ b₂ b₃ check built changed =>
    obtain ⟨same, builds⟩ := reads entered check
    obtain ⟨p', m, planned', own, rfl⟩ := builds _ rfl
    obtain rfl := Option.some.inj (planned.symm.trans planned')
    rw [starts.type_eq] at built
    obtain ⟨made, rfl⟩ := Prod.mk.inj built
    obtain rfl := Except.ok.inj (Except.ok.inj made)
    rw [same] at changed
    obtain ⟨s, attributed⟩ : ∃ s, (b₁.attributed i).unit = { b.unit with source := s } := by
      rw [← same]
      exact ⟨_, rfl⟩
    have source : b.unit.Evolves .nothing r [] (b₁.attributed i).unit := by
      rw [attributed]
      exact (Steps.one (.source s)).evolves starts.sound fun _ => False.elim
    have begun : (b₁.attributed i).unit.registry = b.unit.registry := by rw [attributed]
    obtain ⟨-, steps, -⟩ :=
      leads_splice starts planned own _ { b.unit with source := s } rfl attributed changed
    have evolves := (Steps.after (Steps.one (.source s)) steps).evolves starts.sound fun _ h => h
    have rebuilds {L : License} :=
      (Bench.evolves_rebuilt (L := L) (b := b₃) keys evolves.sound).1
    have own := starts.method_eq own
    obtain ⟨s', ts, lowered, wraps⟩ := bodyParts_splice starts planned own begun source.sound changed
    obtain ⟨n, element, method, -⟩ := (own ▸ starts.seat).method_node
    refine ⟨?_, m, own, s', ts, lowered, fun plain => ?_⟩
    · have whole := evolves.trans rebuilds
      rwa [List.append_nil] at whole
    · rw [← wraps plain]
      exact congrArg Prod.snd
        ((rebuilds (L := .nothing)).bodyParts_eq evolves.sound element method id)

end Handler

end Weaver
