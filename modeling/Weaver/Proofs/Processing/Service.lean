import Weaver.Handler.Standard
import Weaver.Proofs.Handler.Keeps
import Weaver.Proofs.Processing.Run
import Weaver.Proofs.SourceUnit.Order
import Weaver.Proofs.SourceUnit.Trim
/-!
Every occurrence is served exactly once and in order.

The occurrences are found before anything is changed (`Occurrence.all`). A refused one leads to one
error, an accepted one to one run. The runs follow the errors, ordered by priority, and only a run
that breaks off keeps later ones from being performed.

If none does, pruning takes all annotations away that were found. It never breaks off, and each of its
steps prunes the unit in the sense of `SourceUnit.Pruned`, so an annotation that one step has taken
away is absent at the end, whatever the other steps are about. It finds the annotations again because
the handlers keep every element the declaration it was (`Performed.grows`), wherever they have put it.
-/
set_option autoImplicit false

namespace Weaver

open Weaver.Syntax (Tree)

/-! ## Pruning -/

/-- Work that does not break off and prunes the unit. -/
def Weave.Prunes {α : Type} (w : Weave α) : Prop :=
  ∀ b, ∃ a b', w b = (.ok a, b') ∧ b.unit.Pruned b'.unit

namespace Weave

section Rules

variable {α β : Type}

theorem prunes_pure (a : α) : Prunes (pure a : Weave α) := fun b => ⟨a, b, rfl, .refl _⟩

theorem prunes_bind {w : Weave α} {f : α → Weave β} (h : Prunes w) (h' : ∀ a, Prunes (f a)) :
    Prunes (w >>= f) := by
  intro b
  obtain ⟨a, b₁, done, pruned⟩ := h b
  obtain ⟨c, b₂, done', pruned'⟩ := h' a b₁
  exact ⟨c, b₂, (bind_ok done).trans done', pruned.trans pruned'⟩

theorem prunes_forIn {f : α → PUnit → Weave (ForInStep PUnit)} (h : ∀ a r, Prunes (f a r))
    (as : List α) (r : PUnit) : Prunes (forIn as r f) := by
  induction as generalizing r with
  | nil => exact prunes_pure r
  | cons a as ih =>
    rw [List.forIn_cons]
    refine prunes_bind (h a r) fun s => ?_
    match s with
    | .done r => exact prunes_pure r
    | .yield r => exact ih r

theorem prunes_unit : Prunes Weave.unit := fun b => ⟨b.unit, b, rfl, .refl _⟩

theorem prunes_editing {f : SourceUnit → SourceUnit} (h : ∀ u, SourceUnit.Pruned u (f u)) :
    Prunes (Weave.editing (modify f)) := fun b => ⟨(), b.edited f, rfl, h b.unit⟩

end Rules

theorem prunes_removeInterface (t : Key) (name : String) :
    Prunes (Weave.editing (.removeInterface t name)) := by
  refine prunes_editing fun u => u.changeDecl_pruned t fun d => ?_
  cases d with
  | classDecl => exact .type (List.Subset.refl _)
  | _ => exact .same _

theorem prunes_removeImport (name : String) : Prunes (Weave.editing (.removeImport name)) := by
  refine prunes_editing fun u => ?_
  split
  · next m f p is ds same =>
    refine .of_find (.refl _) ?_ (fun n => ?_) rfl
    · exact List.nil_subset _
    · rw [same]
      rfl
  · exact .refl u

theorem prunes_rebuild (k : Key) : Prunes (Weave.editing (.rebuild k)) :=
  prunes_editing fun u => u.rebuild_pruned k

end Weave

/-- The annotations of some uses are taken away, each from its element. -/
theorem each_removeAnno (used : List (Key × AnnoUse)) (b : Bench) :
    ∃ b', Weave.each (fun use => Weave.editing (.removeAnno use.1 use.2)) used b = (.ok (), b') ∧
      b.unit.Pruned b'.unit ∧
      ∀ use ∈ used, ∀ {n : Node}, b.unit.registry.node? use.1 = some n → n.kind ≠ .unit →
        use.2.host ∉ b'.unit.annoIds use.1 := by
  induction used generalizing b with
  | nil => exact ⟨b, rfl, .refl _, fun _ member => absurd member List.not_mem_nil⟩
  | cons use used ih =>
    have first : b.unit.Pruned _ :=
      b.unit.changeDecl_pruned use.1 (Tree.trims_withoutAnno use.2.host)
    obtain ⟨b', done, others, absent⟩ :=
      ih (b.edited fun u => u.changeDecl use.1 (Tree.withoutAnno use.2.host))
    refine ⟨b', (Weave.bind_ok rfl).trans done, first.trans others, ?_⟩
    intro use' member n node inner
    obtain ⟨n', node', kind, -⟩ := first.stays _ n node
    rcases List.mem_cons.mp member with rfl | later
    · -- the later steps do not bring it back
      exact fun back => b.unit.withoutAnno_absent use'.2.host node inner (others.fewer node' back)
    · exact absent use' later node' (by rw [kind]; exact inner)

/-- **Pruning.** It does not break off, every element stays the same declaration, and the annotations
that it is about are absent afterwards. -/
theorem Prune.run_absent (hs : List Handler) (used : List (Key × AnnoUse)) (b : Bench) :
    ∃ b', Prune.run hs used b = (.ok (), b') ∧ b.unit.Pruned b'.unit ∧
      ∀ use ∈ used, ∀ {n : Node}, b.unit.registry.node? use.1 = some n → n.kind ≠ .unit →
        use.2.host ∉ b'.unit.annoIds use.1 := by
  obtain ⟨b₁, first, pruned, absent⟩ := each_removeAnno used b
  -- everything after the annotations prunes further
  have rest : ∃ others : Weave Unit, others.Prunes ∧
      Prune.run hs used = (forIn used PUnit.unit fun use _ => do
        Weave.editing (.removeAnno use.1 use.2)
        return .yield PUnit.unit) >>= fun _ => others := by
    refine ⟨_, ?_, rfl⟩
    refine Weave.prunes_bind Weave.prunes_unit fun u => ?_
    refine Weave.prunes_bind (Weave.prunes_forIn (fun t _ => ?_) _ _) fun _ => ?_
    · exact Weave.prunes_bind (Weave.prunes_removeInterface t.1 t.2) fun _ => Weave.prunes_pure _
    refine Weave.prunes_bind Weave.prunes_unit fun u' => ?_
    refine Weave.prunes_bind (Weave.prunes_forIn (fun name _ => ?_) _ _) fun _ => ?_
    · split
      · exact Weave.prunes_bind (Weave.prunes_removeImport name) fun _ => Weave.prunes_pure _
      · exact Weave.prunes_pure _
    refine Weave.prunes_bind (Weave.prunes_forIn (fun t _ => ?_) _ _) fun _ => Weave.prunes_pure _
    exact Weave.prunes_bind (Weave.prunes_rebuild t.1) fun _ => Weave.prunes_pure _
  obtain ⟨others, prunes, run_⟩ := rest
  obtain ⟨_, b', done, others⟩ := prunes b₁
  refine ⟨b', ?_, pruned.trans others, ?_⟩
  · rw [run_]
    rw [← Weave.forIn_eq_each] at first
    exact (Weave.bind_ok first).trans done
  · intro use member n node inner back
    obtain ⟨n', node', -⟩ := pruned.stays _ n node
    exact absent use member node inner (others.fewer node' back)

/-! ## Reporting -/

namespace Occurrence

variable {u : SourceUnit} {b : Bench}

theorem reportFault_finding (o : Occurrence) (h : b.unit = u) :
    (o.finding u).reportFault b = (.ok (), (o.diagnostic? u).toList.foldl Bench.reported b) := by
  cases refused : o.refusal? u with
  | some message =>
    obtain ⟨g, e, a, rfl, same⟩ := finding_of_refusal refused
    rw [same, Finding.reportFault, Weave.report_apply, h]
    simp only [diagnostic?, refused]
    rfl
  | none =>
    rw [finding_of_accepted refused]
    cases o <;> simp only [diagnostic?, refused] <;> rfl

theorem reported_unit (ds : List Diagnostic) (b : Bench) :
    (ds.foldl Bench.reported b).unit = b.unit := by
  induction ds generalizing b with
  | nil => rfl
  | cons d ds ih => exact ih (b.reported d)

/-- Exactly the refused occurrences are reported. -/
theorem each_reportFault (os : List Occurrence) (h : b.unit = u) :
    Weave.each Finding.reportFault (os.map (finding u)) b =
      (.ok (), (diagnostics u os).foldl Bench.reported b) := by
  induction os generalizing b with
  | nil => rfl
  | cons o os ih =>
    have split : diagnostics u (o :: os) = (o.diagnostic? u).toList ++ diagnostics u os := by
      rw [diagnostics, List.filterMap_cons, diagnostics]
      cases o.diagnostic? u <;> rfl
    rw [List.map_cons, Weave.each, Weave.bind_ok (reportFault_finding o h), split,
      List.foldl_append]
    exact ih (by rw [reported_unit, h])

end Occurrence

theorem Bench.enumerated_unit (b : Bench) (ds : List Diagnostic) :
    (b.enumerated ds).unit = b.unit :=
  Occurrence.reported_unit ds b.begun

/-! ## Elements of occurrences -/

namespace Occurrence

variable {c : Config} {handlers : List Handler} {u : SourceUnit} {o : Occurrence} {e k : Key}
  {a : AnnoUse}

/-- Only handlers from the list are triggered. -/
theorem handler_mem (member : o ∈ all c handlers u) : o.handler ∈ handlers := by
  have active {t : Trigger} {p : Handler → Bool} {f : Handler → Occurrence}
      (triggers : ∀ g, (f g).handler = g)
      (found : o ∈ ((c.active handlers t).filter p).map f) : o.handler ∈ handlers := by
    obtain ⟨g, hg, rfl⟩ := List.mem_map.mp found
    rw [triggers]
    exact List.mem_of_mem_filter (List.mem_of_mem_filter hg)
  have element {k : Key} (found : o ∈ onElement c handlers u k) : o.handler ∈ handlers := by
    obtain ⟨a, -, found⟩ := List.mem_flatMap.mp found
    exact active (fun _ => rfl) found
  obtain ⟨t, -, member⟩ := List.mem_flatMap.mp member
  simp only [onType, onMethod, List.mem_append, List.mem_flatMap] at member
  rcases member with ((own | interface) | ⟨f, -, found⟩) | ⟨m, -, (own | ⟨p, -, found⟩) | call⟩
  · exact element own
  · exact active (fun _ => rfl) interface
  · exact element found
  · exact element own
  · exact element found
  · exact active (fun _ => rfl) call

/-- The annotation of an occurrence is not on its element any more, which is still the same
declaration. -/
def Cleared (u u' : SourceUnit) (o : Occurrence) : Prop :=
  ∀ e a, o.use? = some (e, a) → ∃ n n', u.registry.node? e = some n ∧
    u'.registry.node? e = some n' ∧ n'.kind = n.kind ∧ n'.decl = n.decl ∧ a.host ∉ u'.annoIds e

end Occurrence

/-! ## Service -/

/-- A list of runs is another one ordered by priority, runs of one priority in the order they had. -/
structure Ordered (order asked : List (Handler × Invocation)) : Prop where
  perm : order.Perm asked
  sorted : order.Pairwise fun x y => x.1.priority ≤ y.1.priority
  stable : ∀ p, order.filter (·.1.priority == p) = asked.filter (·.1.priority == p)

/-- Processing a unit with handlers serves the occurrences in it. -/
structure Serves (c : Config) (handlers : List Handler) (b : Bench) : Prop where
  /-- What is found by elements is found in the order of the source. -/
  inOrder : ∀ m f p is ds, b.unit = .ofTree (.unit m f p is ds) → b.unit.InSourceOrder
  /-- An occurrence leads either to an error of its handler or to a run. -/
  decided : ∀ o ∈ Occurrence.all c handlers b.unit, o.Decided b.unit
  /-- The errors are reported, then the runs are performed in their order. If one breaks off, so does
  the processing; if none does, the annotations that were found are cleared. -/
  performed : ∃ order outcome b₁,
    Ordered order (Occurrence.runs b.unit (Occurrence.all c handlers b.unit)) ∧
      Performed order
        (b.enumerated (Occurrence.diagnostics b.unit (Occurrence.all c handlers b.unit))) outcome b₁ ∧
      match outcome with
      | .error x => processWith c handlers b = (.error x, b₁)
      | .ok () => ∃ failure b₂, processWith c handlers b = (.ok failure, b₂) ∧
          (handlers ⊆ Handler.standard →
            ∀ o ∈ Occurrence.all c handlers b.unit, o.Cleared b.unit b₂.unit)

/-- No two of the standard handlers have the same trigger and name. -/
theorem Handler.distinct_standard : Handler.Distinct Handler.standard := by
  have listed : Handler.standard.Perm _ := List.mergeSort_perm _ _
  refine (listed.map fun h : Handler => (h.trigger, h.name)).nodup_iff.mpr ?_
  decide

end Weaver
