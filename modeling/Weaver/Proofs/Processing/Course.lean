import Weaver.Proofs.Handler.Gaining
/-!
What becomes of a unit while handlers run.

A run that is stopped by its check leaves the unit as it is; every other one takes the unit further
under the license of its place (`Handler.Ran.evolves`). What the runs that have been accepted may do
together is a license as well, and the unit follows the one that was read under it
(`SourceUnit.Course`). Pruning takes no part in that: it changes neither fields nor bodies.
-/
set_option autoImplicit false

namespace Weaver

open Weaver.Syntax (Tree Mark Field)
open Weaver.Syntax.Tree
open SourceUnit Weave

/-! ## One run -/

namespace Bench

/-- The check of a run goes on. -/
def accepts (b : Bench) (run : Handler × Invocation) : Bool :=
  match (run.1.check run.2 b.entered).1 with
  | .ok (some _) => true
  | _ => false

/-- The runs that are accepted when some are performed one after the other. -/
def accepted : Bench → List (Handler × Invocation) → List (Handler × Invocation)
  | _, [] => []
  | b, run :: runs =>
    let later := accepted (run.2.run run.1 b).2 runs
    if b.accepts run then run :: later else later

theorem accepted_subset (b : Bench) (runs : List (Handler × Invocation)) :
    b.accepted runs ⊆ runs := by
  induction runs generalizing b with
  | nil => exact List.Subset.refl _
  | cons run runs ih =>
    rw [accepted]
    split
    · exact List.cons_subset_cons _ (ih _)
    · exact List.subset_cons_of_subset _ (ih _)

end Bench

section Runs

variable {L : License} {r : Registry} {b b' : Bench} {gs : List SourceUnit.Gain}

/-- Elements are registered anew, one after the other. -/
theorem Bench.evolves_rebuilt (keys : List Key) (sound : b.unit.Sound r) :
    b.unit.Evolves L r [] (keys.foldl Bench.rebuilt b).unit ∧
      ∀ {k : Key} {n : Node}, r.node? k = some n → n.kind = .type →
        (k ∉ keys → b.unit.Current k) → (keys.foldl Bench.rebuilt b).unit.Current k := by
  induction keys generalizing b with
  | nil => exact ⟨.refl sound, fun _ _ current => current List.not_mem_nil⟩
  | cons j keys ih =>
    have first : b.unit.Evolves L r [] (b.rebuilt j).unit := sound.register j
    obtain ⟨evolves, current⟩ := ih first.sound
    refine ⟨first.trans evolves, fun element type old => current element type fun later => ?_⟩
    exact sound.current_register j element type fun other =>
      old (List.not_mem_cons_of_ne_of_not_mem (Ne.symm other) later)

/-- A run whose check stops it leaves the unit as it is. Another one evolves it under the license of
its place, its type gets fields under fresh names, and all types stay registered with all their
fields. -/
theorem Handler.Ran.evolves {h : Handler} {i : Invocation} {t : Key} {m? : Option Key}
    (ran : h.Ran i b (.ok ()) b') (confined : h.Confined) (apart : r.Apart)
    (starts : h.Starts r b.unit i t m?) :
    b'.unit = b.unit ∨ b.accepts (h, i) = true ∧ ∃ names, b.unit.Fresh t names ∧
      b.unit.Evolves (i.license r b.unit t m?) r (names.map (r.number t, ·)) b'.unit ∧
      ∀ {k : Key} {n : Node}, r.node? k = some n → n.kind = .type → b.unit.Current k →
        b'.unit.Current k := by
  have entered : b.entered.unit = b.unit := rfl
  have quiet := confined starts
  cases ran with
  | stopped check => exact .inl (quiet entered check).1
  | failed check built =>
    obtain ⟨same, builds⟩ := quiet entered check
    exact .inl (builds _ rfl same built).1
  | @spliced build splice keys b₁ b₂ b₃ check built changed =>
    refine .inr ?_
    obtain ⟨same, builds⟩ := quiet entered check
    obtain ⟨same', splices⟩ := builds _ rfl same built
    obtain ⟨names, fresh, leads⟩ := splices _ rfl
    obtain ⟨s, attributed⟩ : ∃ s, (b₂.attributed i).unit = { b.unit with source := s } := by
      rw [← same']
      exact ⟨_, rfl⟩
    obtain ⟨registry, steps, listed⟩ := leads { b.unit with source := s } rfl attributed changed
    have evolves := (Steps.after (Steps.one (.source s)) steps).evolves starts.sound fun _ h => h
    obtain ⟨rebuilt, current⟩ := Bench.evolves_rebuilt (b := b₃) keys evolves.sound
    refine ⟨by rw [Bench.accepts, check], names, fresh, ?_, fun {k n} element type old => current element type fun later => ?_⟩
    · have both := evolves.trans rebuilt
      rwa [List.append_nil] at both
    · refine evolves.current starts.sound registry element type ?_ old
      -- only the type of the run gets fields, and then it is registered anew
      by_cases own : n.decl = r.number t
      · obtain ⟨n', node, -⟩ := starts.seat.type_node
        rw [Registry.number_of_node node] at own
        obtain rfl := apart element node own
        by_cases none_ : names = []
        · rw [none_]
          rfl
        · exact absurd (listed none_) later
      · rw [gained_map, if_neg own]

end Runs

/-! ## Pruning -/

/-- A license to change nothing that is told of types and methods. -/
def License.nothing : License := ⟨fun _ => False, fun _ => False, fun _ _ => False, fun _ => False⟩

theorem License.within_nothing (L : License) : License.nothing.Within L :=
  ⟨fun _ => False.elim, fun _ _ => False.elim, fun _ => False.elim⟩

/-- A unit that has changed without a license. -/
structure SourceUnit.Spared (r : Registry) (u v : SourceUnit) : Prop where
  evolves : u.Evolves .nothing r [] v
  current : ∀ {k : Key} {n : Node}, r.node? k = some n → n.kind = .type → u.Current k → v.Current k

theorem SourceUnit.Sound.spared {r : Registry} {u : SourceUnit} (sound : u.Sound r) :
    u.Spared r u :=
  ⟨.refl sound, fun _ _ => id⟩

theorem SourceUnit.Spared.trans {r : Registry} {u v w : SourceUnit} (h : u.Spared r v)
    (h' : v.Spared r w) : u.Spared r w :=
  ⟨h.evolves.trans h'.evolves, fun element type current =>
    h'.current element type (h.current element type current)⟩

/-- Work that changes a unit without a license. -/
def Weave.Spares {α : Type} (r : Registry) (w : Weave α) : Prop :=
  ∀ ⦃b a b'⦄, b.unit.Sound r → w b = (.ok a, b') → b.unit.Spared r b'.unit

section Pruning

variable {α β : Type} {r : Registry}

theorem spares_pure (a : α) : Spares r (pure a) := by
  rintro b _ _ sound ⟨⟩
  exact sound.spared

theorem spares_bind {w : Weave α} {f : α → Weave β} (h : Spares r w) (h' : ∀ a, Spares r (f a)) :
    Spares r (w >>= f) := by
  intro b x b' sound done
  obtain ⟨a, b₁, first, next⟩ := ok_of_bind done
  have spared := h sound first
  exact spared.trans (h' a spared.evolves.sound next)

theorem spares_unit : Spares r Weave.unit := by
  rintro b _ _ sound ⟨⟩
  exact sound.spared

theorem spares_forIn {γ : Type} {f : γ → PUnit → Weave (ForInStep PUnit)}
    (h : ∀ c p, Spares r (f c p)) (cs : List γ) (p : PUnit) : Spares r (forIn cs p f) := by
  induction cs generalizing p with
  | nil => exact spares_pure p
  | cons c cs ih =>
    rw [List.forIn_cons]
    refine spares_bind (h c p) fun s => ?_
    cases s with
    | done p => exact spares_pure p
    | yield p => exact ih p

theorem spares_editing {e : Edit α} (h : ∀ r, e.Leads .nothing r []) : Spares r (editing e) := by
  intro b a b' sound done
  obtain ⟨registry, steps, -⟩ := leads_editing (h b.unit.registry) b.unit rfl rfl done
  have evolves := steps.evolves sound fun _ => False.elim
  exact ⟨evolves, fun element type => evolves.current sound registry element type rfl⟩

theorem spares_rebuild (k : Key) : Spares r (editing (.rebuild k)) := by
  rintro b _ _ sound ⟨⟩
  exact ⟨sound.register k, fun element type current =>
    sound.current_register k element type fun _ => current⟩

/-- Pruning changes neither fields nor bodies. -/
theorem spares_prune (hs : List Handler) (used : List (Key × AnnoUse)) :
    Spares r (Prune.run hs used) := by
  refine spares_bind (spares_forIn (fun use _ => ?_) _ _) fun _ => ?_
  · exact spares_bind (spares_editing fun _ => Edit.leads_removeAnno use.2) fun _ => spares_pure _
  refine spares_bind spares_unit fun _ => ?_
  refine spares_bind (spares_forIn (fun t _ => ?_) _ _) fun _ => ?_
  · exact spares_bind (spares_editing fun _ => Edit.leads_removeInterface t.2) fun _ =>
      spares_pure _
  refine spares_bind spares_unit fun _ => ?_
  refine spares_bind (spares_forIn (fun name _ => ?_) _ _) fun _ => ?_
  · split
    · exact spares_bind (spares_editing fun _ => Edit.leads_removeImport name) fun _ =>
        spares_pure _
    · exact spares_pure _
  refine spares_bind (spares_forIn (fun t _ => ?_) _ _) fun _ => spares_pure _
  exact spares_bind (spares_rebuild t.1) fun _ => spares_pure _

end Pruning

/-! ## All runs -/

namespace SourceUnit

/-- A run of one of the handlers there are on an element of a unit. -/
structure Places (u : SourceUnit) (run : Handler × Invocation) : Prop where
  standard : run.1 ∈ Handler.standard
  handler : run.2.handler = run.1.name
  seat : u.registry.Seat run.2.element (run.2.type u) (run.2.method? u)

/-- What runs on elements of a unit may do together. -/
def license (u : SourceUnit) (runs : List (Handler × Invocation)) : License where
  body n := ∃ run ∈ runs, ∃ m, run.2.method? u = some m ∧ u.registry.number m = n
  param n := u.Loose u.registry n
  field n x := ∃ run ∈ runs, u.registry.number (run.2.type u) = n ∧ run.2.Adds x
  reset n := ∃ run ∈ runs, run.2.handler = Known.builder ∧
    (u.next ≤ n ∨ ∃ x ∈ (u.decl (run.2.type u)).fieldsIn, x.number = n)

/-- What has become of a unit through runs some of which were accepted. -/
structure Course (u : SourceUnit) (accepted : List (Handler × Invocation)) (v : SourceUnit) :
    Prop where
  evolves : ∃ gs, u.Evolves (u.license accepted) u.registry gs v
  current : ∀ {k : Key} {n : Node}, u.registry.node? k = some n → n.kind = .type → v.Current k

section Course

variable {u v : SourceUnit} {runs : List (Handler × Invocation)} {run : Handler × Invocation}
  {b b' : Bench}

theorem within_append (u : SourceUnit) (runs later : List (Handler × Invocation)) :
    (u.license runs).Within (u.license (runs ++ later)) where
  body _ := fun ⟨run, hrun, h⟩ => ⟨run, List.mem_append_left _ hrun, h⟩
  field _ _ := fun ⟨run, hrun, h⟩ => ⟨run, List.mem_append_left _ hrun, h⟩
  reset _ := fun ⟨run, hrun, h⟩ => ⟨run, List.mem_append_left _ hrun, h⟩

theorem Course.sound (course : u.Course runs v) : v.Sound u.registry := by
  obtain ⟨gs, evolves⟩ := course.evolves
  exact evolves.sound

theorem Course.append (course : u.Course runs v) (later : List (Handler × Invocation)) :
    u.Course (runs ++ later) v where
  evolves := by
    obtain ⟨gs, evolves⟩ := course.evolves
    exact ⟨gs, evolves.within (u.within_append runs later)⟩
  current := course.current

theorem Course.spared {w : SourceUnit} (course : u.Course runs w) (spared : w.Spared u.registry v) :
    u.Course runs v where
  evolves := by
    obtain ⟨gs, evolves⟩ := course.evolves
    exact ⟨_, evolves.trans (spared.evolves.within (License.within_nothing _))⟩
  current element type := spared.current element type (course.current element type)

theorem Course.starts (course : u.Course runs v) (places : u.Places run) :
    run.1.Starts u.registry v run.2 (run.2.type u) (run.2.method? u) :=
  ⟨course.sound, places.seat, places.handler⟩

/-- A run may do no more than what runs may do together. -/
theorem Course.within (course : u.Course runs v) (sound : u.Sound u.registry)
    (places : u.Places run) :
    (run.2.license u.registry v (run.2.type u) (run.2.method? u)).Within
      (u.license (runs ++ [run])) where
  body n := fun ⟨m, own, number⟩ => ⟨run, List.mem_concat_self, m, own, number⟩
  field n x := fun ⟨number, adds⟩ => ⟨run, List.mem_concat_self, number.symm, adds⟩
  reset n := fun ⟨handler, x, hx, number⟩ => by
    obtain ⟨gs, evolves⟩ := course.evolves
    obtain ⟨n', node, type⟩ := places.seat.type_node
    have inner : n'.kind ≠ .unit := by rw [type]; exact nofun
    obtain ⟨x', remains, old⟩ :=
      (evolves.follows node inner).grown (type ▸ (sound.found node inner).2) x hx
    refine ⟨run, List.mem_concat_self, handler, ?_⟩
    rw [← number, remains.number]
    exact old.symm.imp (·.1) fun before => ⟨x', before, rfl⟩

/-- What has become of a unit after a further run. -/
theorem Course.step (course : u.Course runs b.unit) (sound : u.Sound u.registry)
    (apart : u.registry.Apart) (places : u.Places run) (ran : run.1.Ran run.2 b (.ok ()) b') :
    u.Course (runs ++ if b.accepts run then [run] else []) b'.unit := by
  have confined := Handler.confined_standard places.standard
  rcases ran.evolves confined apart (course.starts places) with
    same | ⟨accepts, names, -, evolves', current⟩
  · rw [same]
    exact course.append _
  · rw [if_pos accepts]
    obtain ⟨gs, evolves⟩ := (course.append [run]).evolves
    exact ⟨⟨_, evolves.trans (evolves'.within (course.within sound places))⟩,
      fun element type => current element type (course.current element type)⟩

/-- What holds at first and is kept by each run holds when all runs have been performed. -/
theorem performAll_induction {I : List (Handler × Invocation) → SourceUnit → Prop}
    (keep : ∀ run ∈ runs, ∀ acc b b', I acc b.unit → run.1.Ran run.2 b (.ok ()) b' →
      I (acc ++ if b.accepts run then [run] else []) b'.unit)
    {acc : List (Handler × Invocation)} (start : I acc b.unit)
    (done : performAll runs b = (.ok (), b')) : I (acc ++ b.accepted runs) b'.unit := by
  induction runs generalizing b acc with
  | nil =>
    obtain rfl := congrArg Prod.snd done
    rwa [Bench.accepted, List.append_nil]
  | cons run runs ih =>
    have split : performAll (run :: runs) b = (run.2.run run.1 >>= fun _ => performAll runs) b := rfl
    rw [split] at done
    obtain ⟨_, b₁, first, others⟩ := ok_of_bind done
    have ran := run.2.ran run.1 b
    rw [first] at ran
    have next := keep run List.mem_cons_self acc b b₁ start ran
    have whole := ih (fun run hrun => keep run (List.mem_cons_of_mem _ hrun)) next others
    rw [List.append_assoc] at whole
    rw [Bench.accepted, first]
    split at whole
    · next accepts => rwa [if_pos accepts]
    · next stops => rwa [if_neg stops]

end Course

/-! ## Processing -/

/-- The runs that are asked for in a unit, in their order. -/
def schedule (u : SourceUnit) (config : Config) : List (Handler × Invocation) :=
  Finding.schedule (Finding.all u (config.choose Handler.standard))

/-- The bench when the runs begin. -/
def prepared (u : SourceUnit) (config : Config) (c : Collector) : Bench :=
  (Bench.of u c).enumerated
    (Occurrence.diagnostics u (Occurrence.all config Handler.standard u))

/-- The runs that are accepted while a unit is processed. -/
def accepted (u : SourceUnit) (config : Config) (c : Collector) : List (Handler × Invocation) :=
  (u.prepared config c).accepted (u.schedule config)

section Processing

variable {u v : SourceUnit} {config : Config} {c c' : Collector} {said : Option String}
  {run : Handler × Invocation}

theorem all_eq (u : SourceUnit) (config : Config) :
    Finding.all u (config.choose Handler.standard) =
      (Occurrence.all config Handler.standard u).map (Occurrence.finding u) :=
  (Occurrence.map_all Handler.distinct_standard).symm

/-- A unit is processed by performing all its runs and finishing. -/
theorem process_eq (u : SourceUnit) (config : Config) (c : Collector) : ∃ hs used outcome,
    (performAll (u.schedule config) >>= fun _ => finish hs used) (u.prepared config c) = outcome ∧
      u.process config c =
        outcome.1.map fun failure => (outcome.2.unit, outcome.2.collector, failure) := by
  have reports : each Finding.reportFault (Finding.all u (config.choose Handler.standard))
      (Bench.of u c).begun = (.ok (), u.prepared config c) := by
    rw [all_eq]
    exact Occurrence.each_reportFault _ rfl
  have whole := (processWith_eq config Handler.standard (.of u c)).trans (bind_ok reports)
  exact ⟨_, _, processWith config Handler.standard (.of u c), whole.symm, rfl⟩

/-- When a unit has been processed, all its runs have been performed and the unit was pruned. -/
theorem process_ok (done : u.process config c = .ok (v, c', said)) :
    ∃ b b' hs used, performAll (u.schedule config) (u.prepared config c) = (.ok (), b) ∧
      Prune.run hs used b = (.ok (), b') ∧ b'.unit = v := by
  obtain ⟨hs, used, ⟨r, b''⟩, whole, processed⟩ := u.process_eq config c
  rw [done] at processed
  cases r with
  | error x => exact nomatch processed
  | ok failure =>
    obtain ⟨rfl, -⟩ := Prod.mk.inj (Except.ok.inj processed)
    obtain ⟨_, b, performed, finished⟩ := ok_of_bind whole
    obtain ⟨_, b', pruned, last⟩ := ok_of_bind finished
    have same : b'' = b' := (congrArg Prod.snd last).symm
    exact ⟨b, b', _, _, performed, pruned, congrArg Bench.unit same.symm⟩

/-- A unit whose runs can be performed can be processed. -/
theorem process_of_performed {b : Bench}
    (performed : performAll (u.schedule config) (u.prepared config c) = (.ok (), b)) :
    ∃ v c' said, u.process config c = .ok (v, c', said) := by
  obtain ⟨hs, used, outcome, whole, processed⟩ := u.process_eq config c
  obtain ⟨b', pruned, -⟩ := Prune.run_absent hs used b
  rw [bind_ok performed, finish, bind_ok pruned] at whole
  rw [processed, ← whole]
  exact ⟨_, _, _, rfl⟩

/-- A unit that is made of a proper tree. -/
inductive AsRead : SourceUnit → Prop where
  | mk {m : Mark} {f : String} {p : Tree} {is ds : List Tree}
    (proper : (Tree.unit m f p is ds).Proper) : AsRead (.ofTree (.unit m f p is ds))

/-- So is every unit that is read. -/
theorem asRead_of_read {file : String} {text : List Text.Glyph} {t : Tree}
    (read : Parse.unit file text = .ok t) : (ofTree t).AsRead := by
  have proper := (Parse.Made.unit read).proper
  obtain ⟨m, p, is, ds, rfl⟩ := Parse.unit_of_read read
  exact .mk proper

theorem AsRead.sound (read : u.AsRead) : u.Sound u.registry := by
  cases read with
  | mk proper => exact sound_ofTree proper

theorem AsRead.apart (read : u.AsRead) : u.registry.Apart := by
  cases read with
  | mk proper => exact apart_ofTree proper

theorem AsRead.course (read : u.AsRead) : u.Course [] u where
  evolves := ⟨[], .refl read.sound⟩
  current element type := by
    cases read with
    | mk proper => exact current_ofTree proper element type

/-- What runs is a run of one of the handlers there are on an element of the unit. -/
theorem AsRead.places (read : u.AsRead) (member : run ∈ u.schedule config) : u.Places run := by
  have asked := (Finding.schedule_perm _).mem_iff.mp member
  rw [all_eq, Finding.asked_map] at asked
  obtain ⟨o, ho, runs⟩ := List.mem_filterMap.mp asked
  have lasts := read.sound.lasts
  obtain ⟨t, m?, seat⟩ : ∃ t m?, u.registry.Seat o.invocation.element t m? := by
    cases read with
    | mk proper => exact Occurrence.seat proper ho
  obtain rfl : run = (o.handler, o.invocation) := by
    unfold Occurrence.run? at runs
    split at runs
    · exact (Option.some.inj runs).symm
    · exact nomatch runs
  refine ⟨Occurrence.handler_mem ho, by cases o <;> rfl, ?_⟩
  rwa [seat.type_eq lasts, seat.method_eq lasts]

/-- What holds of a unit as it was read and is kept by each run holds when all runs have been
performed. -/
theorem performed_induction {b : Bench} (read : u.AsRead)
    {I : List (Handler × Invocation) → SourceUnit → Prop} (start : I [] u)
    (keep : ∀ run, u.Places run → ∀ acc b b', u.Course acc b.unit → I acc b.unit →
      run.1.Ran run.2 b (.ok ()) b' → I (acc ++ if b.accepts run then [run] else []) b'.unit)
    (performed : performAll (u.schedule config) (u.prepared config c) = (.ok (), b)) :
    u.Course (u.accepted config c) b.unit ∧ I (u.accepted config c) b.unit := by
  have prepared : (u.prepared config c).unit = u := Bench.enumerated_unit _ _
  have begins : u.Course [] (u.prepared config c).unit ∧ I [] (u.prepared config c).unit := by
    rw [prepared]
    exact ⟨read.course, start⟩
  exact performAll_induction (I := fun acc w => u.Course acc w ∧ I acc w)
    (fun run hrun acc b b' ⟨course, holds⟩ ran =>
      have places := read.places hrun
      ⟨course.step read.sound read.apart places ran, keep run places acc b b' course holds ran⟩)
    begins performed

/-- The same when the unit has been processed: all that comes after the runs is pruning. -/
theorem process_induction (read : u.AsRead) {I : List (Handler × Invocation) → SourceUnit → Prop}
    (start : I [] u)
    (keep : ∀ run, u.Places run → ∀ acc b b', u.Course acc b.unit → I acc b.unit →
      run.1.Ran run.2 b (.ok ()) b' → I (acc ++ if b.accepts run then [run] else []) b'.unit)
    (done : u.process config c = .ok (v, c', said)) :
    ∃ w, u.Course (u.accepted config c) w ∧ I (u.accepted config c) w ∧ w.Spared u.registry v := by
  obtain ⟨b, b', hs, used, performed, pruned, rfl⟩ := process_ok done
  obtain ⟨course, holds⟩ := performed_induction read start keep performed
  exact ⟨b.unit, course, holds, spares_prune hs used course.sound pruned⟩

/-- **Types stay registered with their fields.** By the key under which a type was found when a unit
was read, all its fields are found when the unit has been processed, so that the unit tells of every
name whether a field of the type has it. -/
theorem process_current (read : u.AsRead) (done : u.process config c = .ok (v, c', said)) {k : Key}
    (type : k ∈ u.types) :
    v.Current k ∧ ∀ name, v.fieldExistence k name = .absent ↔ name ∉ v.fieldNames k := by
  obtain ⟨n, element, type⟩ := Registry.node_of_typesTo type
  obtain ⟨w, course, -, spared⟩ :=
    process_induction read (I := fun _ _ => True) trivial (fun _ _ _ _ _ _ _ _ => trivial) done
  have course := course.spared spared
  have current := course.current element type
  refine ⟨current, fun name => ⟨course.sound.absent_of_existence element type current, ?_⟩⟩
  exact fun none_ => not_not.mp fun there =>
    none_ (course.sound.mem_of_existence element type there)

end Processing

end SourceUnit

end Weaver
