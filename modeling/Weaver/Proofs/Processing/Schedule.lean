import Mathlib.Data.List.Sort
import Mathlib.Data.Prod.Lex
import Mathlib.Data.String.Basic
import Weaver.Proofs.Processing.Course
/-!
The order of handlers and runs.

Handlers and runs are sorted by merging. Handlers with distinct names have one order only, and it can be
written down (`Handler.standard_eq`). Runs that are in the order of their priorities stay as they are, so
that if no annotation is at fault, what is performed are the runs that were found, as they were found
(`SourceUnit.process_performed`).
-/
set_option autoImplicit false

namespace Weaver

namespace Handler

/-- One handler runs before another by its priority, or by its name if both have the same. -/
def before (a b : Handler) : Bool :=
  a.priority < b.priority || (a.priority == b.priority && a.name ≤ b.name)

theorem before_iff {a b : Handler} :
    a.before b = true ↔ toLex (a.priority, a.name) ≤ toLex (b.priority, b.name) := by
  rw [Prod.Lex.toLex_le_toLex]
  simp [before]

instance : IsTrans Handler fun a b => a.before b = true :=
  ⟨fun _ _ _ h h' => before_iff.mpr ((before_iff.mp h).trans (before_iff.mp h'))⟩

instance : Std.Total fun a b : Handler => a.before b = true :=
  ⟨fun _ _ => (le_total _ _).imp before_iff.mpr before_iff.mpr⟩

/-- Handlers with distinct names have one order. -/
theorem ordered_eq {hs sorted : List Handler} (distinct : (hs.map (·.name)).Nodup)
    (perm : sorted.Perm hs) (chain : sorted.IsChain fun a b => a.before b = true) :
    ordered hs = sorted := by
  have trans (a b c : Handler) : a.before b = true → b.before c = true → a.before c = true :=
    trans_of fun a b : Handler => a.before b = true
  have total (a b : Handler) : (a.before b || b.before a) = true := by
    rw [Bool.or_eq_true]
    exact total_of (fun a b : Handler => a.before b = true) a b
  have merged : (ordered hs).Pairwise fun a b => a.before b = true :=
    List.pairwise_mergeSort trans total hs
  have perm' : (ordered hs).Perm hs := List.mergeSort_perm _ _
  refine List.Perm.eq_of_pairwise (fun a b ha hb h h' => ?_) merged chain.pairwise
    (perm'.trans perm.symm)
  have same := le_antisymm (before_iff.mp h) (before_iff.mp h')
  exact List.inj_on_of_nodup_map distinct (perm'.mem_iff.mp ha) (perm.mem_iff.mp hb)
    (Prod.mk.inj (toLex_inj.mp same)).2

/-- The handlers in the order in which they run. -/
def inOrder : List Handler :=
  [application, autoGenMethodStub, boundPropertySupport, boundSetter, builder, fluentSetter, jvmAgent,
   singleton, visibleForTesting, generator, await, awaitBeforeAndSignalAfter, doPrivileged,
   doPrivilegedSanitizeWith, readLock, signal, swingInvokeAndWait, swingInvokeLater, writeLock,
   sanitize, sanitizeNormalize, sanitizeWith, validate, validateNotEmpty, validateNotNull,
   validateWith, rethrow, rethrows, function, builderExtension]

theorem standard_eq : standard = inOrder := by
  have perm : ((List.range 30).map fun i => inOrder.getD i application).Perm
      ([1, 8, 0, 6, 7, 4, 2, 3, 5, 9, 14, 18, 15, 10, 11, 17, 16, 12, 13, 19, 21, 20, 22, 24, 23, 25, 26, 27, 28, 29].map
        fun i => inOrder.getD i application) := List.Perm.map _ (by decide)
  exact ordered_eq (by decide) perm (by decide +kernel)
end Handler

/-! ## Faults -/

namespace AnnoUse

variable {a : AnnoUse}

/-- All members that are given are declared and constant, and all that are required are given. -/
def isFaultless (a : AnnoUse) : Bool :=
  ((a.names.zip a.values).all fun x => (a.type.member? x.1).isSome && x.2.isConstant) &&
    a.type.members.all fun m => m.default.isSome || (a.given? m.name).isSome

theorem fault?_eq_none : a.fault? = none ↔ a.isFaultless = true := by
  have given : a.given.Perm (a.names.zip a.values) := List.mergeSort_perm _ _
  rw [isFaultless, Bool.and_eq_true, List.all_eq_true, List.all_eq_true, fault?]
  have wrong (x : String × Datum) : (if (a.type.member? x.1).isNone then
        some (AnnoFault.unknownMember a.type.simpleName x.1)
      else if !x.2.isConstant then some (.notConstant a.type.simpleName x.1) else none) = none ↔
      ((a.type.member? x.1).isSome && x.2.isConstant) = true := by
    cases a.type.member? x.1 <;> cases x.2.isConstant <;> simp
  have lacking (m : AnnoMember) : (if m.default.isNone && (a.given? m.name).isNone then
        some (AnnoFault.missingMember a.type.simpleName m.name) else none) = none ↔
      (m.default.isSome || (a.given? m.name).isSome) = true := by
    cases m.default <;> cases a.given? m.name <;> simp
  simp only [← wrong, ← lacking, ← given.mem_iff, ← List.findSome?_eq_none_iff]
  split
  · next found => exact ⟨nofun, fun none_ => nomatch found.symm.trans none_.1⟩
  · next none_ => exact ⟨fun others => ⟨none_, others⟩, And.right⟩

end AnnoUse

namespace Occurrence

variable {u : SourceUnit} {o : Occurrence}

/-- An annotation that is not at fault and stands on an element that it is allowed on, or something
else that triggers a handler. -/
def stands (u : SourceUnit) : Occurrence → Bool
  | anno _ e a => a.isFaultless && a.type.isAllowedOn (u.elementKind e)
  | interface .. | call .. => true

theorem refusal?_eq_none (h : o.stands u = true) : o.refusal? u = none := by
  cases o with
  | anno h e a =>
    obtain ⟨faultless, allowed⟩ := Bool.and_eq_true_iff.mp h
    rw [refusal?, AnnoUse.fault?_eq_none.mpr faultless]
    exact if_pos allowed
  | interface | call => rfl

end Occurrence

namespace SourceUnit

variable {u v : SourceUnit} {config : Config} {c : Collector}

/-- The runs that are found in a unit, in the order in which they are found. -/
def found (u : SourceUnit) (config : Config) : List (Handler × Invocation) :=
  (Occurrence.all config Handler.inOrder u).map fun o => (o.handler, o.invocation)

/-- Nothing that is found in a unit is at fault, and it is found in the order of priorities. -/
structure InOrder (u : SourceUnit) (config : Config) : Prop where
  stands : ∀ o ∈ Occurrence.all config Handler.inOrder u, o.stands u = true
  sorted : (u.found config).Pairwise fun a b => a.1.priority ≤ b.1.priority

instance : Decidable (u.InOrder config) :=
  decidable_of_iff (_ ∧ _) ⟨fun ⟨stands, sorted⟩ => ⟨stands, sorted⟩, fun h => ⟨h.stands, h.sorted⟩⟩

/-- What has become of the bench when the runs that are found have been performed. -/
def worked (u : SourceUnit) (config : Config) (c : Collector) : Except Abort Unit × Bench :=
  performAll (u.found config) (Bench.of u c).begun

namespace InOrder

theorem schedule_eq (h : u.InOrder config) : u.schedule config = u.found config := by
  have asked : Finding.asked (Finding.all u (config.choose Handler.standard)) = u.found config := by
    rw [all_eq, Finding.asked_map, Handler.standard_eq, Occurrence.runs, found,
      ← List.filterMap_eq_map]
    refine List.filterMap_congr fun o ho => ?_
    rw [Occurrence.run?, Occurrence.refusal?_eq_none (h.stands o ho)]
    rfl
  change (Finding.asked (Finding.all u (config.choose Handler.standard))).mergeSort _ = _
  rw [asked]
  exact List.mergeSort_of_pairwise (h.sorted.imp fun le => decide_eq_true le)

theorem prepared_eq (h : u.InOrder config) : u.prepared config c = (Bench.of u c).begun := by
  have none_ : Occurrence.diagnostics u (Occurrence.all config Handler.standard u) = [] := by
    rw [Handler.standard_eq, Occurrence.diagnostics, List.filterMap_eq_nil_iff]
    intro o ho
    unfold Occurrence.diagnostic?
    split
    · next refused => cases (Occurrence.refusal?_eq_none (h.stands _ ho)).symm.trans refused
    · rfl
  rw [prepared, none_]
  rfl

theorem accepted_eq (h : u.InOrder config) :
    u.accepted config c = (Bench.of u c).begun.accepted (u.found config) := by
  rw [accepted, h.schedule_eq, h.prepared_eq]

/-- If the runs that are found can be performed, then the unit can be processed, and all that comes
after them is pruning. -/
theorem process (h : u.InOrder config) (read : u.AsRead)
    (performed : (u.worked config c).1.isOk = true) : ∃ v c' said,
      u.process config c = .ok (v, c', said) ∧ (u.worked config c).2.unit.Sound u.registry ∧
        (u.worked config c).2.unit.Spared u.registry v := by
  have performed : performAll (u.schedule config) (u.prepared config c) =
      (.ok (), (u.worked config c).2) := by
    rw [h.schedule_eq, h.prepared_eq]
    rcases outcome : u.worked config c with ⟨_ | _, b⟩
    · rw [outcome] at performed
      exact absurd performed Bool.false_ne_true
    · exact outcome
  obtain ⟨v, c', said, done⟩ := process_of_performed performed
  obtain ⟨b, b', hs, used, performed', pruned, rfl⟩ := process_ok done
  obtain rfl : (u.worked config c).2 = b := congrArg Prod.snd (performed.symm.trans performed')
  obtain ⟨course, -⟩ := performed_induction read (I := fun _ _ => True) trivial
    (fun _ _ _ _ _ _ _ _ => trivial) performed
  exact ⟨b'.unit, c', said, done, course.sound, spares_prune hs used course.sound pruned⟩

end InOrder

end SourceUnit

/-! ## Small units -/

section Small

open Weaver.Syntax

instance : DecidablePred Text.IsSegment := fun n =>
  decidable_of_iff (n ≠ "" ∧ '.' ∉ n.toList)
    ⟨fun ⟨nonempty, dotless⟩ => ⟨nonempty, dotless⟩, fun h => ⟨h.nonempty, h.dotless⟩⟩

/-- A text for a member of an annotation. -/
def Syntax.Tree.given (member text : String) : Tree :=
  .assign default (.ident default member) (.literal default (.text text))

/-- An annotation whose members are texts. -/
def Syntax.Tree.anno (name : String) (args : List (String × String)) : Tree :=
  .annoUse default (.select default (.ident default "lombok") name)
    (args.map fun x => .given x.1 x.2)

/-- A method that does something and has an annotation. -/
def Syntax.Tree.annotated (anno name : String) (args : List (String × String)) : Tree :=
  .methodDecl default name (.modifiers default .empty [.anno anno args]) []
    (.primitive default .void) [] []
    (.block default .empty [.exec default (.call default [] (.ident default "run") [])])

/-- A unit with one type. -/
def SourceUnit.ofMembers (members : List Tree) : SourceUnit :=
  .ofTree (.unit default "T.java" .missing []
    [.classDecl default "T" (.modifiers default .empty []) [] .missing [] members])

theorem Syntax.Tree.proper_anno {name : String} {args : List (String × String)}
    (segment : Text.IsSegment name) (members : ∀ x ∈ args, Text.IsSegment x.1) :
    (anno name args).Proper := by
  have package : Text.IsSegment "lombok" := by decide
  refine ⟨⟨segment, package⟩, ?_⟩
  induction args with
  | nil => trivial
  | cons x xs ih =>
    obtain ⟨first, others⟩ := List.forall_mem_cons.mp members
    exact ⟨⟨first, trivial⟩, ih others⟩

theorem Syntax.Tree.proper_annotated {anno name : String} {args : List (String × String)}
    (segment : Text.IsSegment anno) (members : ∀ x ∈ args, Text.IsSegment x.1) :
    (annotated anno name args).Proper := by
  have called : Text.IsSegment "run" := by decide
  simp only [annotated, Proper, ProperAll, List.forall_mem_singleton]
  exact ⟨List.forall_mem_nil _, ⟨⟨_, _, _, rfl⟩, proper_anno segment members, trivial⟩, trivial, trivial, trivial,
    trivial, ⟨trivial, trivial, called, trivial⟩, trivial⟩

theorem SourceUnit.asRead_ofMembers {members : List Tree} (proper : Tree.ProperAll members) :
    (ofMembers members).AsRead :=
  .mk ⟨trivial, trivial, ⟨⟨nofun, trivial⟩, trivial, trivial, trivial, proper⟩, trivial⟩

end Small

end Weaver
