import Weaver.Proofs.Processing.Locking
import Weaver.Proofs.Processing.Schedule
/-!
The fields of locks and conditions.

A field that a plan needs is there once when the unit has been processed, whoever has added it: a run
adds a field only under an absent name (`SourceUnit.Fresh`), and the run that needs it adds it if it is
missing. The constants of properties are the exception. All constants of one run are asked for at the
same time, so a name comes twice if two fields that can be set share it as the constant of their
properties.
-/
set_option autoImplicit false

namespace Weaver

open Weaver.Syntax (Tree Field Flags RemainAll)
open Weaver.Syntax.Tree
open SourceUnit Handler

namespace SourceUnit

/-- The constants of the properties of the fields of a type that can be set. -/
def constants (u : SourceUnit) (k : Key) : List String :=
  ((u.decl k).fieldsIn.filter fun x => ¬x.Settled).map fun x => (propertyConstant x.name).name

section Sharing

variable {u v : SourceUnit} {runs : List (Handler × Invocation)} {k c : Key} {n : Node} {x : Field}

theorem meets_forCode (f : Flags) : f.forCode.meets (Flags.staticFlag.union .finalFlag) =
    f.meets (Flags.staticFlag.union .finalFlag) := by
  rw [Flags.meets, Flags.forCode, Nat.land_assoc]
  rfl

/-- A field that can be set and has a name as the constant of its property. -/
def sharesConstant (name : String) (x : Field) : Bool :=
  ¬x.Settled ∧ (propertyConstant x.name).name = name

theorem sharesConstant_of_remains {L : License} {y : Field} (name : String) (h : x.Remains L y) :
    sharesConstant name y = sharesConstant name x := by
  refine decide_eq_decide.mpr ?_
  rw [Field.Settled, Field.Settled, h.name, h.flags]

theorem count_constants (u : SourceUnit) (k : Key) (name : String) :
    (u.constants k).count name = (u.decl k).fieldsIn.countP (sharesConstant name) := by
  rw [constants, List.count, List.countP_map, List.countP_filter]
  refine List.countP_congr fun x _ => ?_
  simp [sharesConstant, and_comm]

/-- What an element shows of the field that it is registered for. -/
theorem seen_of_field (seen : (v.decl c).field? = some x) :
    v.name c = x.name ∧ v.flags c = x.flags := by
  rw [SourceUnit.name, SourceUnit.flags, ← name_of_field seen]
  generalize v.decl c = d at seen
  cases d
  case varDecl =>
    rw [field?] at seen
    split at seen
    · cases seen
    · rw [← Option.some.inj seen]
      exact ⟨rfl, rfl⟩
  all_goals cases seen

/-- All fields that share a constant were there at first, since what a run adds cannot be set. -/
theorem Course.sharing_le (course : u.Course runs v) (sound : u.Sound u.registry)
    (element : u.registry.node? k = some n) (type : n.kind = .type) (name : String) :
    v.sharing k name ≤ (u.constants k).count name := by
  have inner : n.kind ≠ .unit := by rw [type]; exact nofun
  obtain ⟨gs, evolves⟩ := course.evolves
  obtain ⟨new, fresh, -, remain⟩ :=
    (evolves.follows element inner).fields (type ▸ (sound.found element inner).2)
  let shares (c : Key) : Bool := (!(v.name c).startsWith "$" &&
    !(v.modifiers c).meets (Flags.staticFlag.union .finalFlag)) &&
      (propertyConstant (v.name c)).name == name
  have same {c : Key} {x : Field} (seen : (v.decl c).field? = some x) :
      shares c = sharesConstant name x := by
    obtain ⟨named, flags⟩ := seen_of_field seen
    dsimp only [shares]
    rw [named, modifiers, flags, meets_forCode, Bool.eq_iff_iff]
    simp [sharesConstant, Field.Settled, and_comm]
  have listed := course.sound.map_fields element type (course.current element type) same
  have all : (v.fields k).countP shares = (v.decl k).fieldsIn.countP (sharesConstant name) := by
    have counted := listed.countP_eq id
    rwa [List.countP_map, List.countP_map] at counted
  have stays := (remain.map (sharesConstant name) (sharesConstant_of_remains name)).countP_eq id
  rw [List.countP_map, List.countP_map, Function.id_comp, List.countP_append] at stays
  have none_ : new.countP (sharesConstant name) = 0 := by
    refine List.countP_eq_zero.mpr fun x hx shares => ?_
    obtain ⟨-, run, -, -, adds⟩ := fresh x hx
    exact (of_decide_eq_true shares).1 adds.settled
  calc v.sharing k name
      ≤ (v.fields k).countP shares := by
        rw [SourceUnit.sharing, settable, List.countP_filter]
        refine List.countP_mono_left fun c _ => ?_
        simp only [shares, Bool.and_eq_true]
        tauto
    _ = (u.decl k).fieldsIn.countP (sharesConstant name) := by rw [all, stays, none_, Nat.add_zero]
    _ = (u.constants k).count name := (u.count_constants k name).symm

end Sharing

section Once

variable {u : SourceUnit} {config : Config} {c c' : Collector} {said : Option String}
  {run : Handler × Invocation} {b b' : Bench} {k : Key} {n : Node} {name : String}
  {accepted : List (Handler × Invocation)} {v : SourceUnit}

/-- A type has no two fields with a name, and it has one if a plan of an accepted run in it needs
one. -/
structure Holds (u : SourceUnit) (k : Key) (name : String) (accepted : List (Handler × Invocation))
    (v : SourceUnit) : Prop where
  once : (v.fieldNames k).count name ≤ 1
  there : ∀ run ∈ accepted, run.2.type u = k → ∀ p, run.2.plan? = some p → name ∈ p.names →
    name ∈ v.fieldNames k

/-- The names of the fields of a type after a run: those before, and fresh ones if it is the type of
the run. -/
theorem Course.names_step (course : u.Course accepted b.unit) (read : u.AsRead)
    (element : u.registry.node? k = some n) (type : n.kind = .type) (places : u.Places run)
    (ran : run.1.Ran run.2 b (.ok ()) b') :
    ∃ names, (b'.unit.fieldNames k).Perm (b.unit.fieldNames k ++ names) ∧
      b.unit.Fresh k names := by
  rcases ran.evolves (confined_standard places.standard) read.apart (course.starts places) with
    same | ⟨-, names, fresh, evolves, -⟩
  · refine ⟨[], ?_, b.unit.fresh_nil k⟩
    rw [same, List.append_nil]
  · have perm := evolves.names course.sound element type
    rw [gained_map] at perm
    split at perm
    · next own =>
      obtain ⟨n', node, -⟩ := places.seat.type_node
      rw [Registry.number_of_node node] at own
      obtain rfl := read.apart element node own
      exact ⟨names, perm, fresh⟩
    · exact ⟨[], perm, b.unit.fresh_nil k⟩

theorem Holds.step (holds : u.Holds k name accepted b.unit) (course : u.Course accepted b.unit)
    (read : u.AsRead) (element : u.registry.node? k = some n) (type : n.kind = .type)
    (few : (u.constants k).count name ≤ 1) (places : u.Places run)
    (ran : run.1.Ran run.2 b (.ok ()) b') :
    u.Holds k name (accepted ++ if b.accepts run then [run] else []) b'.unit := by
  obtain ⟨names, perm, fresh⟩ := course.names_step read element type places ran
  refine ⟨?_, fun run' listed own p planned needed => ?_⟩
  · rw [perm.count_eq, List.count_append]
    have once := holds.once
    have added : names.count name ≤ 1 := (fresh.few name).trans
      (max_le le_rfl ((course.sharing_le read.sound element type name).trans few))
    by_cases gets : name ∈ names
    · have absent := course.sound.absent_of_existence element type (course.current element type)
        (fresh.absent name gets)
      rw [List.count_eq_zero_of_not_mem absent]
      omega
    · rw [List.count_eq_zero_of_not_mem gets]
      exact once
  · rcases List.mem_append.mp listed with before | now
    · exact perm.mem_iff.mpr (List.mem_append_left _ (holds.there run' before own p planned needed))
    · split at now
      · next accepts =>
        obtain rfl := List.mem_singleton.mp now
        have starts := course.starts places
        obtain ⟨evolves, -⟩ := ran.locked places.standard starts planned accepts
        have perm := evolves.names course.sound element type
        subst own
        rw [gained_map, if_pos (Registry.number_of_node element).symm] at perm
        refine perm.mem_iff.mpr (List.mem_append.mpr ?_)
        -- the field that is needed is there, or it is missing and the run adds it
        by_cases absent : b.unit.fieldExistence (run'.2.type u) name = .absent
        · exact .inr ((p.missing_spec (locks_plan planned)).2.2 name needed absent)
        · exact .inl (course.sound.mem_of_existence element type absent)
      · exact absurd now List.not_mem_nil

/-- A unit that was read, with distinct fields. -/
theorem AsRead.holds (distinct : (u.fieldNames k).Nodup) : u.Holds k name [] u :=
  ⟨List.nodup_iff_count_le_one.mp distinct name, nofun⟩

/-! ## Fields that were there at first -/

/-- A field is a declaration among the members of its type. -/
theorem Sound.member_of_field {r : Registry} {x : Field} (sound : v.Sound r)
    (element : r.node? k = some n) (type : n.kind = .type) (hx : x ∈ (v.decl k).fieldsIn) :
    ∃ t ∈ (v.decl k).inner, t.isDeclaration ∧ t.id = x.number ∧ v.decl k ∈ numberedAll v.pool ∧
      (v.decl k).id = n.decl := by
  obtain ⟨t, member, seen⟩ := List.mem_filterMap.mp hx
  obtain ⟨listed, number⟩ := mem_of_findIn (sound.found element (by rw [type]; exact nofun)).1
  exact ⟨t, List.mem_append_left _ member, isDeclaration_of_numbered_of_numberedAll.1 t t
    (mem_numbered (nodeKind_iff_field.mpr ⟨x, seen⟩)), (number_of_field seen).symm, listed, number⟩

/-- A field is in one type only. -/
theorem Sound.owner_of_field {r : Registry} {k' : Key} {n' : Node} {x x' : Field}
    (sound : v.Sound r) (element : r.node? k = some n) (type : n.kind = .type)
    (hx : x ∈ (v.decl k).fieldsIn) (element' : r.node? k' = some n') (type' : n'.kind = .type)
    (hx' : x' ∈ (v.decl k').fieldsIn) (same : x'.number = x.number) : n'.decl = n.decl := by
  obtain ⟨t, ht, declared, number, listed, id⟩ := sound.member_of_field element type hx
  obtain ⟨t', ht', declared', number', listed', id'⟩ := sound.member_of_field element' type' hx'
  rw [← id, ← id', id_eq_of_inner sound.distinct listed' listed ht' ht declared' declared
    (by rw [number, number', same])]

/-- What becomes of a field that was there at first: it stays, unless a builder takes its value. -/
theorem AsRead.kept {x : Field} {gs : List Gain} (read : u.AsRead)
    (evolves : u.Evolves (u.license accepted) u.registry gs v)
    (places : ∀ run ∈ accepted, u.Places run) (element : u.registry.node? k = some n)
    (type : n.kind = .type) (hx : x ∈ (u.decl k).fieldsIn) :
    ∃ y ∈ (v.decl k).fieldsIn, y = x ∨ y = { x with value := .missing } ∧
      ∃ run ∈ accepted, run.2.handler = Known.builder ∧ run.2.type u = k := by
  have sound := read.sound
  have inner : n.kind ≠ .unit := by rw [type]; exact nofun
  obtain ⟨y, hy, remains⟩ :=
    (evolves.follows element inner).kept (type ▸ (sound.found element inner).2) x hx
  have ⟨mark, named, flags, ty, value⟩ := remains
  refine ⟨y, hy, value.imp (fun same => ?_) fun ⟨⟨run, hrun, handler, taken⟩, none_⟩ => ⟨?_, run,
    hrun, handler, ?_⟩⟩
  · exact Field.ext mark named flags ty same
  · exact Field.ext mark named flags ty none_
  · obtain ⟨n', node, type'⟩ := (places run hrun).seat.type_node
    rcases taken with fresh | ⟨x', hx', same⟩
    · obtain ⟨t, ht, declared, number, listed, id⟩ := sound.member_of_field element type hx
      have bound := (sound.bounds t.id (List.mem_map_of_mem
        (mem_numberedAll_of_inner listed ht declared))).2
      omega
    · exact read.apart node element (sound.owner_of_field element type hx node type' hx' same)

/-- **The fields of locks.** Let a unit be processed whose type `k` has distinct fields. A field that
an accepted run in the type needs for its lock or its conditions is there exactly once, provided that
no two fields that can be set have its name as the constant of their properties. Fields that were
there at first stay; only a builder may take their values. -/
theorem process_lock_fields (read : u.AsRead) (done : u.process config c = .ok (v, c', said))
    (type : k ∈ u.types) (distinct : (u.fieldNames k).Nodup)
    (few : (u.constants k).count name ≤ 1) (accepted : run ∈ u.accepted config c)
    (own : run.2.type u = k) {p : LockPlan} (planned : run.2.plan? = some p)
    (needed : name ∈ p.names) :
    (v.fieldNames k).count name = 1 ∧
      ∀ x ∈ (u.decl k).fieldsIn, ∃ y ∈ (v.decl k).fieldsIn, y = x ∨ y = { x with value := .missing } ∧
        ∃ run ∈ u.accepted config c, run.2.handler = Known.builder ∧ run.2.type u = k := by
  obtain ⟨n, element, type⟩ := Registry.node_of_typesTo type
  obtain ⟨w, course, holds, spared⟩ := process_induction read
    (I := u.Holds k name) (AsRead.holds distinct)
    (fun run places acc b b' course holds ran =>
      holds.step course read element type few places ran) done
  constructor
  · have perm := spared.evolves.names course.sound element type
    rw [show gained n.decl [] = [] from rfl, List.append_nil] at perm
    have there : 0 < (w.fieldNames k).count name :=
      List.count_pos_iff.mpr (holds.there run accepted own p planned needed)
    have once := holds.once
    rw [perm.count_eq]
    exact Nat.le_antisymm once there
  · intro x hx
    obtain ⟨gs, evolves⟩ := (course.spared spared).evolves
    exact read.kept evolves (fun run listed => read.places (Bench.accepted_subset _ _ listed))
      element type hx

/-- A type in which one method reads and another one writes under the same lock. -/
def readAndWrite : SourceUnit :=
  .ofMembers [.annotated "ReadLock" "get" [("value", "access")],
    .annotated "WriteLock" "set" [("value", "access")]]

theorem asRead_readAndWrite : readAndWrite.AsRead :=
  asRead_ofMembers
    ⟨proper_annotated (by decide) (by decide), proper_annotated (by decide) (by decide), trivial⟩

theorem readAndWrite_one_lock : ∃ v c' said,
    readAndWrite.process .standard (.empty false) = .ok (v, c', said) ∧
      (v.fieldNames 1).count "access" = 1 := by
  have order : readAndWrite.InOrder .standard := by decide +kernel
  obtain ⟨type, distinct, few, performed, run, accepted, own, names⟩ :
      1 ∈ readAndWrite.types ∧ (readAndWrite.fieldNames 1).Nodup ∧
        (readAndWrite.constants 1).count "access" ≤ 1 ∧
        (readAndWrite.worked .standard (.empty false)).1.isOk = true ∧
        ∃ run ∈ (Bench.of readAndWrite (.empty false)).begun.accepted (readAndWrite.found .standard),
          run.2.type readAndWrite = 1 ∧ run.2.plan?.map (·.names) = some ["access"] := by
    decide +kernel
  rw [← order.accepted_eq] at accepted
  obtain ⟨v, c', said, done, -⟩ := order.process asRead_readAndWrite performed
  obtain ⟨p, planned, names⟩ := Option.map_eq_some_iff.mp names
  exact ⟨v, c', said, done, (process_lock_fields asRead_readAndWrite done type distinct few accepted
    own planned (names ▸ List.mem_singleton_self _)).1⟩

end Once

end SourceUnit

end Weaver
