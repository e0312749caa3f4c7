import Weaver.Proofs.Code.Speech
import Weaver.Proofs.Handler.Layers
import Weaver.Proofs.Processing.LockFields
/-!
Conditions and their locks.

A method waits for a condition while it holds the lock that its own annotation names, or the one that
is named after its own conditions. The field of a condition is made once, by whichever run comes first.
So what is done with a condition is done under the lock that the condition belongs to if the
annotations of the type agree on it (`Conditions.Agrees`); then every layer around a method takes the
lock that has made its conditions (`SourceUnit.process_conditions`).
-/
set_option autoImplicit false

namespace Weaver

open Weaver.Syntax (Tree Field)
open Weaver.Syntax.Tree
open SourceUnit Handler

/-! ## What runs ask for -/

namespace Handler

/-- The value of the field of a lock. -/
def newLock : Code := .new (.type "java.util.concurrent.locks.ReentrantLock") []

/-- The value of the field of a condition. -/
def newCondition (lock : String) : Code := .invoke (.named lock) "newCondition" []

theorem lockField_inj {type type' name name' : String} {init init' : Code}
    (same : lockField type name init = lockField type' name' init') :
    name = name' ∧ init = init' := by
  obtain ⟨names, codes⟩ := Prod.mk.inj same
  obtain ⟨-, -, -, -, inits⟩ := Code.fieldDecl.inj codes
  exact ⟨names, inits⟩

namespace Conditions

variable {c d : Conditions} {name : String} {init init' : Code}

/-- Conditions that can be used beside others: they belong to the same lock if they are the same, and
none has the name of a lock. -/
def Agrees (c d : Conditions) : Prop :=
  (∀ name ∈ c.names, name ∈ d.names → d.lock = c.lock) ∧ d.lock ∉ c.names ∧ c.lock ∉ d.names

instance : Decidable (c.Agrees d) := inferInstanceAs (Decidable (_ ∧ _))

/-- The fields that are needed: that of the lock, and those of the conditions. -/
theorem needs_plan : c.plan.Needs name init ↔
    name = c.lock ∧ init = newLock ∨ name ∈ c.names ∧ init = newCondition c.lock := by
  rw [LockPlan.Needs, fields_plan, ← names.eq_1 c]
  constructor
  · rintro ⟨type, listed⟩
    rcases List.mem_cons.mp listed with same | listed
    · exact .inl (lockField_inj same)
    · obtain ⟨a, ha, same⟩ := List.mem_map.mp listed
      obtain ⟨rfl, rfl⟩ := lockField_inj same
      exact .inr ⟨ha, rfl⟩
  · rintro (⟨rfl, rfl⟩ | ⟨ha, rfl⟩)
    · exact ⟨_, List.mem_cons_self⟩
    · exact ⟨_, List.mem_cons_of_mem _ (List.mem_map_of_mem ha)⟩

/-- Conditions that agree need no field with different values. -/
theorem Agrees.init_eq (agree : c.Agrees d) (needed : c.plan.Needs name init)
    (needed' : d.plan.Needs name init') : init' = init := by
  obtain ⟨shared, lock, lock'⟩ := agree
  rcases needs_plan.mp needed with ⟨rfl, rfl⟩ | ⟨listed, rfl⟩ <;>
    rcases needs_plan.mp needed' with ⟨same, rfl⟩ | ⟨listed', rfl⟩
  · rfl
  · exact absurd listed' lock'
  · exact absurd (same ▸ listed) lock
  · rw [shared name listed listed']

end Conditions

end Handler

namespace Invocation

variable {i : Invocation} {c : Conditions} {name : String} {init : Code}

/-- A run that makes no builder and adds no field with a name. -/
def Avoids (i : Invocation) (name : String) : Prop :=
  i.handler ≠ Known.builder ∧ ¬i.Tells name ∧ ∀ p, i.plan? = some p → name ∉ p.names

/-- A run that respects the fields of conditions: it has conditions that agree with them, or it has
to do with other fields only. -/
def Respects (i : Invocation) (c : Conditions) : Prop :=
  match i.conditions? with
  | some d => c.Agrees d
  | none => ∀ name ∈ c.plan.names, i.Avoids name

/-- A run that adds a field with a name with one value only and leaves it alone. -/
structure Permits (i : Invocation) (name : String) (init : Code) : Prop where
  keeps : i.handler ≠ Known.builder
  planned : ∀ p, i.plan? = some p → ∀ init', p.Needs name init' → init' = init
  unplanned : i.plan? = none → ¬i.Tells name

/-- Runs with conditions have the plan of these. -/
theorem plan_of_conditions (conditions : i.conditions? = some c) : i.plan? = some c.plan := by
  have other {name : String} (plain : name ≠ Known.signal ∧ name ≠ Known.await ∧
      name ≠ Known.awaitBeforeAndSignalAfter) : ¬(i.handler == name) = true := by
    intro same
    obtain ⟨a, -, said⟩ := Option.bind_eq_some_iff.mp conditions
    rw [eq_of_beq same, if_neg (mt eq_of_beq plain.1), if_neg (mt eq_of_beq plain.2.1),
      if_neg (mt eq_of_beq plain.2.2)] at said
    exact nomatch said
  rw [plan?, if_neg (other (by decide)), if_neg (other (by decide)), conditions]
  rfl

theorem names_of_needs {p : LockPlan} (needed : p.Needs name init) : name ∈ p.names := by
  obtain ⟨type, listed⟩ := needed
  exact List.mem_map_of_mem listed

theorem Respects.permits (respects : i.Respects c) (needed : c.plan.Needs name init) :
    i.Permits name init := by
  unfold Respects at respects
  split at respects
  · next d conditions =>
    have planned := plan_of_conditions conditions
    refine ⟨fun same => ?_, fun p planned' init' needed' => ?_, fun none_ => ?_⟩
    · have locks := mem_lockNames_of_plan planned
      rw [same] at locks
      exact absurd locks (by decide)
    · obtain rfl := Option.some.inj (planned.symm.trans planned')
      exact respects.init_eq needed needed'
    · exact nomatch planned.symm.trans none_
  · obtain ⟨keeps, tells, plans⟩ := respects name (names_of_needs needed)
    exact ⟨keeps, fun p planned init' needed' => absurd (names_of_needs needed') (plans p planned),
      fun _ => tells⟩

end Invocation

/-! ## Fields with a value -/

namespace SourceUnit

/-- A type has exactly one field with a name, and that was declared with a value, private and final. -/
structure Provides (u : SourceUnit) (k : Key) (name : String) (init : Code) : Prop where
  once : (u.fieldNames k).count name = 1
  declared : ∃ x ∈ (u.decl k).fieldsIn, Code.Declares name lockFlags init x

section Fields

variable {L : License} {r : Registry} {u v : SourceUnit} {gs : List Gain} {k : Key} {n : Node}
  {name : String} {init : Code} {x y : Field}

theorem declares_of_remains (declared : Code.Declares name lockFlags init x)
    (remains : x.Remains L y) (kept : ¬L.reset x.number) :
    Code.Declares name lockFlags init y where
  name := remains.name.trans declared.name
  flags := remains.flags.trans declared.flags
  generated := by
    rw [remains.mark]
    exact declared.generated
  value := by
    rw [remains.value.resolve_right fun taken => kept taken.1]
    exact declared.value

/-- A field stays while no other one gets its name and its value is not taken. -/
theorem Provides.of_evolves (old : u.Provides k name init) (h : u.Evolves L r gs v)
    (sound : u.Sound r) (element : r.node? k = some n) (type : n.kind = .type)
    (others : name ∉ gained n.decl gs) (kept : ∀ x ∈ (u.decl k).fieldsIn, ¬L.reset x.number) :
    v.Provides k name init := by
  have inner : n.kind ≠ .unit := by rw [type]; exact nofun
  obtain ⟨x, hx, declared⟩ := old.declared
  obtain ⟨y, hy, remains⟩ :=
    (h.follows element inner).kept (type ▸ (sound.found element inner).2) x hx
  refine ⟨?_, y, hy, declares_of_remains declared remains (kept x hx)⟩
  rw [(h.names sound element type).count_eq, List.count_append,
    List.count_eq_zero_of_not_mem others]
  exact old.once

/-- A field that a type gets under an absent name. -/
theorem Evolves.provides (h : u.Evolves L r gs v) (sound : u.Sound r)
    (element : r.node? k = some n) (type : n.kind = .type) (absent : name ∉ u.fieldNames k)
    (gets : (gained n.decl gs).count name = 1)
    (licensed : ∀ x, L.field n.decl x → x.name = name → Code.Declares name lockFlags init x)
    (kept : ∀ i, ¬L.reset i) : v.Provides k name init := by
  have inner : n.kind ≠ .unit := by rw [type]; exact nofun
  have once : (v.fieldNames k).count name = 1 := by
    rw [(h.names sound element type).count_eq, List.count_append, gets,
      List.count_eq_zero_of_not_mem absent]
  refine ⟨once, ?_⟩
  obtain ⟨y, hy, named⟩ := List.mem_map.mp (List.count_pos_iff.mp (once ▸ Nat.one_pos))
  obtain ⟨x, remains, old | ⟨-, new⟩⟩ :=
    (h.follows element inner).grown (type ▸ (sound.found element inner).2) y hy
  · exact absurd (List.mem_map.mpr ⟨x, old, remains.name.symm.trans named⟩) absent
  · exact ⟨y, hy, declares_of_remains (licensed x new (remains.name.symm.trans named)) remains
      (kept _)⟩

/-- A type gets no field under a name for which there is no license. -/
theorem Evolves.not_gained (h : u.Evolves L r gs v) (sound : u.Sound r)
    (element : r.node? k = some n) (type : n.kind = .type)
    (strange : ∀ x, L.field n.decl x → x.name ≠ name) : name ∉ gained n.decl gs := by
  have inner : n.kind ≠ .unit := by rw [type]; exact nofun
  obtain ⟨new, fresh, names, -⟩ :=
    (h.follows element inner).fields (type ▸ (sound.found element inner).2)
  rw [← names]
  intro member
  obtain ⟨x, hx, same⟩ := List.mem_map.mp member
  exact strange x (fresh x hx).2 same

end Fields

section Runs

variable {u v : SourceUnit} {accepted : List (Handler × Invocation)} {run : Handler × Invocation}
  {b b' : Bench} {k m : Key} {n : Node} {name : String} {init : Code}

/-- A run takes no values of the fields of a type, unless it is one that makes a builder for it. -/
theorem Course.values_kept (course : u.Course accepted b.unit) (read : u.AsRead)
    (element : u.registry.node? k = some n) (type : n.kind = .type) (places : u.Places run)
    (keeps : run.2.type u = k → run.2.handler ≠ Known.builder) :
    ∀ x ∈ (b.unit.decl k).fieldsIn,
      ¬(run.2.license u.registry b.unit (run.2.type u) (run.2.method? u)).reset x.number := by
  rintro x hx ⟨handler, x', hx', same⟩
  obtain ⟨n', node, type'⟩ := places.seat.type_node
  exact keeps (read.apart node element
    (course.sound.owner_of_field element type hx node type' hx' same)) handler

/-- A type has a field with a value, or there is none with its name and no accepted run of the type
needs one. -/
def Tended (u : SourceUnit) (k : Key) (name : String) (init : Code)
    (accepted : List (Handler × Invocation)) (v : SourceUnit) : Prop :=
  v.Provides k name init ∨ name ∉ v.fieldNames k ∧
    ∀ run ∈ accepted, run.2.type u = k → ∀ p, run.2.plan? = some p → name ∉ p.names

theorem Tended.of_evolves {L : License} {gs : List Gain} {w : SourceUnit}
    (tended : u.Tended k name init accepted v) (h : v.Evolves L u.registry gs w)
    (sound : v.Sound u.registry) (element : u.registry.node? k = some n) (type : n.kind = .type)
    (others : name ∉ gained n.decl gs) (kept : ∀ x ∈ (v.decl k).fieldsIn, ¬L.reset x.number) :
    u.Tended k name init accepted w := by
  refine tended.imp (fun old => old.of_evolves h sound element type others kept) ?_
  rintro ⟨absent, none_⟩
  refine ⟨fun member => ?_, none_⟩
  rcases List.mem_append.mp ((h.names sound element type).mem_iff.mp member) with old | new
  · exact absent old
  · exact others new

theorem Tended.concat (tended : u.Tended k name init accepted v)
    (free : run.2.type u = k → ∀ p, run.2.plan? = some p → name ∉ p.names) :
    u.Tended k name init (accepted ++ [run]) v := by
  refine tended.imp_right fun ⟨absent, none_⟩ => ⟨absent, fun run' listed => ?_⟩
  rcases List.mem_append.mp listed with before | now
  · exact none_ run' before
  · rwa [List.mem_singleton.mp now]

/-- A run with a plan tends to the fields that the plan needs. -/
theorem Tended.step_planned {p : LockPlan} (tended : u.Tended k name init accepted b.unit)
    (course : u.Course accepted b.unit) (element : u.registry.node? k = some n)
    (type : n.kind = .type) (places : u.Places run) (ran : run.1.Ran run.2 b (.ok ()) b')
    (accepts : b.accepts run = true) (own : run.2.type u = k) (planned : run.2.plan? = some p)
    (permits : run.2.Permits name init) : u.Tended k name init (accepted ++ [run]) b'.unit := by
  have locks := locks_plan planned
  obtain ⟨evolves, -⟩ := ran.locked places.standard (course.starts places) planned accepts
  have kept i : ¬(run.2.license u.registry b.unit (run.2.type u) (run.2.method? u)).reset i :=
    fun taken => permits.keeps taken.1
  subst own
  have gains : gained n.decl ((p.missingNames b.unit (run.2.type u)).map
      (u.registry.number (run.2.type u), ·)) = p.missingNames b.unit (run.2.type u) := by
    rw [gained_map, if_pos (Registry.number_of_node element).symm]
  obtain ⟨nodup, -, needs⟩ := p.missing_spec (u := b.unit) (t := run.2.type u) locks
  by_cases gets : name ∈ p.missingNames b.unit (run.2.type u)
  · have absent := course.sound.absent_of_existence element type (course.current element type)
      (p.absent_of_missing locks gets)
    refine .inl (evolves.provides course.sound element type absent ?_ ?_ kept)
    · rw [gains]
      exact List.count_eq_one_of_mem nodup gets
    · rintro x ⟨-, adds⟩ rfl
      obtain ⟨init', needed, declared⟩ := adds.planned p planned
      rwa [permits.planned p planned init' needed] at declared
  · have others : name ∉ gained n.decl _ := gains.symm ▸ gets
    by_cases needed : name ∈ p.names
    · -- the field is there, since the run does not add it
      have there : name ∈ b.unit.fieldNames (run.2.type u) :=
        course.sound.mem_of_existence element type fun absent => gets (needs name needed absent)
      have provides := tended.resolve_right fun none_ => none_.1 there
      exact .inl (provides.of_evolves evolves course.sound element type others fun x _ => kept _)
    · refine (tended.of_evolves evolves course.sound element type others fun x _ => kept _).concat ?_
      intro _ p' planned'
      rwa [← Option.some.inj (planned.symm.trans planned')]

theorem Tended.step (tended : u.Tended k name init accepted b.unit)
    (course : u.Course accepted b.unit) (read : u.AsRead) (element : u.registry.node? k = some n)
    (type : n.kind = .type) (places : u.Places run) (ran : run.1.Ran run.2 b (.ok ()) b')
    (permits : b.accepts run = true → run.2.type u = k → run.2.Permits name init) :
    u.Tended k name init (accepted ++ if b.accepts run then [run] else []) b'.unit := by
  have grown (accepts : b.accepts run = true) (other : run.2.type u = k → run.2.plan? = none)
      (tended : u.Tended k name init accepted b'.unit) :
      u.Tended k name init (accepted ++ [run]) b'.unit :=
    tended.concat fun own p planned => nomatch (other own).symm.trans planned
  split
  · next accepts =>
    by_cases wraps : run.2.type u = k ∧ run.2.plan?.isSome
    · obtain ⟨own, some_⟩ := wraps
      obtain ⟨p, planned⟩ := Option.isSome_iff_exists.mp some_
      exact tended.step_planned course element type places ran accepts own planned
        (permits accepts own)
    · have other (own : run.2.type u = k) : run.2.plan? = none :=
        Option.not_isSome_iff_eq_none.mp fun some_ => wraps ⟨own, some_⟩
      refine grown accepts other ?_
      rcases ran.evolves (confined_standard places.standard) read.apart (course.starts places) with
        same | ⟨-, names, -, evolves, -⟩
      · rwa [same]
      · refine tended.of_evolves evolves course.sound element type ?_
          (course.values_kept read element type places fun own => (permits accepts own).keeps)
        refine evolves.not_gained course.sound element type fun x ⟨number, adds⟩ named => ?_
        obtain ⟨n', node, -⟩ := places.seat.type_node
        rw [Registry.number_of_node node] at number
        have own := read.apart node element number.symm
        exact (permits accepts own).unplanned (other own) (named ▸ adds.unplanned (other own))
  · next stops =>
    rw [List.append_nil]
    rcases ran.evolves (confined_standard places.standard) read.apart (course.starts places) with
      same | ⟨accepts, -⟩
    · rwa [same]
    · exact absurd accepts stops

/-! ## Layers -/

/-- The conditions of the runs on a method, those of the last run first. -/
def conditionsOn (u : SourceUnit) (runs : List (Handler × Invocation)) (m : Key) :
    List Conditions :=
  ((runs.filter fun run => run.2.method? u == some m).filterMap (·.2.conditions?)).reverse

theorem conditionsOn_append (u : SourceUnit) (runs later : List (Handler × Invocation)) (m : Key) :
    u.conditionsOn (runs ++ later) m = u.conditionsOn later m ++ u.conditionsOn runs m := by
  rw [conditionsOn, List.filter_append, List.filterMap_append, List.reverse_append]
  rfl

theorem conditionsOn_other (other : run.2.method? u ≠ some m) : u.conditionsOn [run] m = [] := by
  simp [conditionsOn, other]

theorem conditionsOn_own {c : Conditions} (own : run.2.method? u = some m)
    (conditions : run.2.conditions? = some c) : u.conditionsOn [run] m = [c] := by
  simp [conditionsOn, own, conditions]

/-- A method has a layer for each run on it that was accepted, if all these have conditions. -/
def Layered (u : SourceUnit) (m : Key) (accepted : List (Handler × Invocation)) (v : SourceUnit) :
    Prop :=
  (∀ run ∈ accepted, run.2.method? u = some m → run.2.conditions?.isSome) →
    Layers (bodyParts (u.decl m)).2 (u.conditionsOn accepted m) (bodyParts (v.decl m)).2

theorem Layered.step (layered : u.Layered m accepted b.unit) (course : u.Course accepted b.unit)
    (read : u.AsRead) (element : u.registry.node? m = some n) (method : n.kind = .method)
    (places : u.Places run) (ran : run.1.Ran run.2 b (.ok ()) b') :
    u.Layered m (accepted ++ if b.accepts run then [run] else []) b'.unit := by
  intro alone
  have before := layered fun run listed => alone run (List.mem_append_left _ listed)
  have starts := course.starts places
  rw [conditionsOn_append]
  by_cases wraps : b.accepts run = true ∧ run.2.method? u = some m
  · obtain ⟨accepts, own⟩ := wraps
    rw [if_pos accepts] at alone ⊢
    obtain ⟨c, conditions⟩ := Option.isSome_iff_exists.mp (alone run List.mem_concat_self own)
    obtain ⟨-, m', own', s, ts, lowered, wraps⟩ :=
      ran.locked places.standard starts (Invocation.plan_of_conditions conditions) accepts
    obtain rfl := Option.some.inj (own.symm.trans own')
    obtain ⟨layers, plain⟩ := layers_of_wrap before lowered
    rwa [conditionsOn_own own conditions, wraps plain]
  · have none_ : u.conditionsOn (if b.accepts run then [run] else []) m = [] := by
      split
      · next accepts => exact conditionsOn_other fun own => wraps ⟨accepts, own⟩
      · rfl
    rw [none_, List.nil_append]
    rcases ran.evolves (confined_standard places.standard) read.apart starts with
      same | ⟨accepts, names, -, evolves, -⟩
    · rwa [same]
    · rwa [evolves.bodyParts_eq course.sound element method]
      -- only the body of its own method is replaced by a run
      rintro ⟨m', own, number⟩
      obtain ⟨n', node, -⟩ := (own ▸ places.seat).method_node
      rw [Registry.number_of_node node] at number
      exact wraps ⟨accepts, by rw [own, read.apart node element number]⟩

end Runs

/-! ## Processing -/

section Processing

variable {u v : SourceUnit} {config : Config} {c c' : Collector} {said : Option String}
  {run : Handler × Invocation} {k m : Key} {n : Node} {name : String} {init : Code} {d : Conditions}

/-- A field that a plan of an accepted run needs is there, with the value that it is needed with. -/
theorem AsRead.provides {p : LockPlan} (read : u.AsRead)
    (done : u.process config c = .ok (v, c', said)) (accepted : run ∈ u.accepted config c)
    (planned : run.2.plan? = some p) (needed : name ∈ p.names)
    (unused : name ∉ u.fieldNames (run.2.type u))
    (permits : ∀ other ∈ u.accepted config c, other.2.type u = run.2.type u →
      other.2.Permits name init) : v.Provides (run.2.type u) name init := by
  obtain ⟨n, element, type⟩ :=
    (read.places (Bench.accepted_subset _ _ accepted)).seat.type_node
  obtain ⟨w, course, tended, spared⟩ := process_induction read
    (I := fun acc w => (∀ other ∈ acc, other.2.type u = run.2.type u → other.2.Permits name init) →
      u.Tended (run.2.type u) name init acc w)
    (fun _ => .inr ⟨unused, nofun⟩)
    (fun run' places acc b b' course tended ran permits =>
      (tended fun other listed => permits other (List.mem_append_left _ listed)).step course read
        element type places ran fun accepts => permits run' (by rw [if_pos accepts]; exact List.mem_concat_self))
    done
  have provides := (tended permits).resolve_right fun ⟨_, none_⟩ =>
    none_ run accepted rfl p planned needed
  exact provides.of_evolves spared.evolves course.sound element type List.not_mem_nil fun _ _ => id

/-- A method has its layers when its unit has been processed. -/
theorem AsRead.layers (read : u.AsRead) (done : u.process config c = .ok (v, c', said))
    (element : u.registry.node? m = some n) (method : n.kind = .method)
    (alone : ∀ run ∈ u.accepted config c, run.2.method? u = some m → run.2.conditions?.isSome) :
    Layers (bodyParts (u.decl m)).2 (u.conditionsOn (u.accepted config c) m)
      (bodyParts (v.decl m)).2 := by
  obtain ⟨w, course, layered, spared⟩ := process_induction read (I := u.Layered m)
    (fun _ => .none .refl)
    (fun run places acc b b' course layered ran =>
      layered.step course read element method places ran) done
  rw [spared.evolves.bodyParts_eq course.sound element method id]
  exact layered alone

/-- The lock by which a condition is made. -/
def maker? : Tree → Option String
  | .call _ _ (.select _ (.ident _ lock) _) _ => some lock
  | _ => none

theorem Provides.maker {lock : String} (h : v.Provides k name (newCondition lock))
    (segment : Text.IsSegment lock) :
    ∃ x ∈ (v.decl k).fieldsIn, x.name = name ∧ maker? x.value = some lock := by
  obtain ⟨x, hx, declared⟩ := h.declared
  refine ⟨x, hx, declared.name, ?_⟩
  rcases declared.value with ⟨none_, -⟩ | ⟨s, lowered⟩
  · exact nomatch none_
  · have spelled : (newCondition lock).lower s .value = (do
        let r ← Code.dotted s.mark lock
        return .call s.mark [] (.select s.mark r "newCondition") []) := rfl
    rw [spelled, Code.dotted_segment s.mark segment] at lowered
    rw [← Except.ok.inj lowered]
    rfl

end Processing

end SourceUnit

end Weaver
