import Weaver.Handler.Lock
import Weaver.Proofs.Processing.Lead
/-!
What a method that holds a lock is wrapped in.

What an annotation says about its lock and its conditions is a matter of the annotation alone
(`Invocation.plan?`, `Invocation.conditions?`). A check reads it in between other work, but if it goes
on, it goes on with that (`Weaver.Handler.quiet_readWritePlan`, `quiet_conditionPlan`). All fields
that a plan needs are private and final.
-/
set_option autoImplicit false

namespace Weaver

open Weaver.Syntax (Flags)
open Handler Weave

/-! ## What annotations say -/

namespace Handler

/-- The plan of a method that holds one half of the lock with the name that is given. -/
def readWritePlan? (a : AnnoUse) (half : String) : Option LockPlan :=
  (a.text? "value").bind fun text =>
    let name := Text.trim text
    if name.isEmpty then none
    else some (.start (.invoke (.ownField name) half [])
      (lockField "java.util.concurrent.locks.ReadWriteLock" name
        (.new (.type "java.util.concurrent.locks.ReentrantReadWriteLock") [])))

/-- Conditions that can be served, without white space around their names. -/
def Conditions.served? (said : Except String Conditions) : Option Conditions :=
  (said.toOption.map trimmed).filter (·.emptyMember?.isNone)

end Handler

namespace Invocation

/-- The conditions of a run. -/
def conditions? (i : Invocation) : Option Conditions :=
  i.anno.bind fun a =>
    if i.handler == Known.signal then Conditions.served? (Conditions.ofSignal a)
    else if i.handler == Known.await then Conditions.served? (Conditions.ofAwait a)
    else if i.handler == Known.awaitBeforeAndSignalAfter then
      Conditions.served? (Conditions.ofBoth a)
    else none

/-- The plan of a run that wraps the body of a method in a lock. -/
def plan? (i : Invocation) : Option LockPlan :=
  if i.handler == Known.readLock then i.anno.bind (readWritePlan? · "readLock")
  else if i.handler == Known.writeLock then i.anno.bind (readWritePlan? · "writeLock")
  else i.conditions?.map (·.plan)

end Invocation

namespace Handler

section Reading

variable {u : SourceUnit} {i : Invocation}

theorem quiet_readWritePlan (a : AnnoUse) (half : String) :
    Quiet u (readWritePlan i a half) fun p? => ∀ p, p? = some p → readWritePlan? a half = some p := by
  refine quiet_bind (quiet_memberText a "value") fun text read => ?_
  dsimp only
  split
  · exact i.quiet_refuse _ nofun
  · next filled =>
    refine quiet_pure ?_
    rintro p ⟨⟩
    rw [readWritePlan?, read, Option.bind_some]
    exact if_neg filled

theorem quiet_conditionPlan (said : Except String Conditions) :
    Quiet u (conditionPlan i said) fun p? =>
      ∀ p, p? = some p → (Conditions.served? said).map (·.plan) = some p := by
  unfold conditionPlan
  split
  · exact i.quiet_stop _ nofun
  · next c =>
    dsimp only
    split
    · exact i.quiet_refuse _ nofun
    · next served =>
      refine quiet_pure ?_
      rintro p ⟨⟩
      have filtered : (some c.trimmed).filter (·.emptyMember?.isNone) = some c.trimmed :=
        Option.filter_some_pos (by rw [served]; rfl)
      rw [Conditions.served?, Except.toOption, Option.map_some, filtered, Option.map_some]

end Reading

/-! ## The fields of a plan -/

/-- The modifiers of a field that a plan needs. -/
def lockFlags : Flags := Flags.privateFlag.union .finalFlag

namespace LockPlan

/-- A plan that needs a field with a name and a value. -/
def Needs (p : LockPlan) (name : String) (init : Code) : Prop :=
  ∃ type, lockField type name init ∈ p.fields

/-- The names of the fields that a plan needs. -/
def names (p : LockPlan) : List String := p.fields.map (·.1)

/-- All fields that a plan needs are those of locks and conditions. -/
def Locks (p : LockPlan) : Prop := ∀ f ∈ p.fields, ∃ type name init, f = lockField type name init

theorem locks_start (lock : Code) (type name : String) (init : Code) :
    (start lock (lockField type name init)).Locks := by
  intro f hf
  rw [List.mem_singleton.mp hf]
  exact ⟨type, name, init, rfl⟩

end LockPlan

/-- The fields of conditions: that of their lock, and one for each of them. -/
theorem fields_plan (c : Conditions) : c.plan.fields =
    lockField "java.util.concurrent.locks.Lock" c.lock
        (.new (.type "java.util.concurrent.locks.ReentrantLock") []) ::
      ((c.awaited.map (·.condition)).toList ++ (c.signaled.map (·.condition)).toList).map
        (Conditions.field c.lock) := by
  rw [Conditions.plan]
  rcases c with ⟨_ | ⟨a, m, _ | _⟩, _ | ⟨s, _ | _⟩, l⟩ <;> rfl

theorem locks_plan {i : Invocation} {p : LockPlan} (planned : i.plan? = some p) : p.Locks := by
  have half {a? : Option AnnoUse} {half : String} (planned : a?.bind (readWritePlan? · half) = some p) :
      p.Locks := by
    obtain ⟨a, -, planned⟩ := Option.bind_eq_some_iff.mp planned
    obtain ⟨text, -, planned⟩ := Option.bind_eq_some_iff.mp planned
    dsimp only at planned
    split at planned
    · exact nomatch planned
    · rw [← Option.some.inj planned]
      exact LockPlan.locks_start _ _ _ _
  rw [Invocation.plan?] at planned
  split at planned
  · exact half planned
  split at planned
  · exact half planned
  obtain ⟨c, -, rfl⟩ := Option.map_eq_some_iff.mp planned
  intro f hf
  rw [fields_plan] at hf
  rcases List.mem_cons.mp hf with rfl | hf
  · exact ⟨_, _, _, rfl⟩
  · obtain ⟨name, -, rfl⟩ := List.mem_map.mp hf
    exact ⟨_, _, _, rfl⟩

/-! ## The fields that are missing -/

/-- Keeping the first of those with the same name keeps each name once. -/
theorem names_kept {β : Type} (fs acc : List (String × β)) (distinct : (acc.map (·.1)).Nodup) :
    let kept := fs.foldl (fun acc f => if acc.any (·.1 == f.1) then acc else acc ++ [f]) acc
    (kept.map (·.1)).Nodup ∧ kept ⊆ acc ++ fs ∧
      ∀ name, name ∈ acc.map (·.1) ∨ name ∈ fs.map (·.1) → name ∈ kept.map (·.1) := by
  induction fs generalizing acc with
  | nil =>
    refine ⟨distinct, ?_, fun name known => known.resolve_right List.not_mem_nil⟩
    rw [List.append_nil]
    exact List.Subset.refl _
  | cons f fs ih =>
    rw [List.foldl_cons]
    split
    · next known =>
      obtain ⟨g, hg, same⟩ := List.any_eq_true.mp known
      obtain ⟨nodup, among, names⟩ := ih acc distinct
      refine ⟨nodup, fun x hx => ?_, fun name known => names name ?_⟩
      · exact List.mem_append.mpr ((List.mem_append.mp (among hx)).imp_right
          (List.mem_cons_of_mem _))
      · rcases known with old | new
        · exact .inl old
        · rcases List.mem_cons.mp new with rfl | later
          · exact .inl (List.mem_map.mpr ⟨g, hg, eq_of_beq same⟩)
          · exact .inr later
    · next unknown =>
      have fresh : f.1 ∉ acc.map (·.1) := fun member => by
        obtain ⟨g, hg, same⟩ := List.mem_map.mp member
        exact unknown (List.any_eq_true.mpr ⟨g, hg, beq_iff_eq.mpr same⟩)
      have nodup : ((acc ++ [f]).map (·.1)).Nodup := by
        rw [List.map_append]
        refine List.nodup_append.mpr ⟨distinct, List.nodup_singleton _, fun a ha b hb same => ?_⟩
        have again : a = f.1 := same.trans (List.mem_singleton.mp hb)
        exact fresh (again ▸ ha)
      obtain ⟨nodup, among, names⟩ := ih (acc ++ [f]) nodup
      refine ⟨nodup, ?_, fun name known => names name ?_⟩
      · rwa [List.append_assoc] at among
      · rw [List.map_append, List.mem_append, or_assoc]
        exact known.imp_right fun new => (List.mem_cons.mp new).imp_left List.mem_singleton.mpr

namespace LockPlan

variable {p : LockPlan} {u : SourceUnit} {t : Key}

/-- The names of the fields that are missing. -/
def missingNames (p : LockPlan) (u : SourceUnit) (t : Key) : List String :=
  (p.missing u t).map Code.fieldName

/-- What is missing are fields that the plan needs, under names that are absent, each once. -/
theorem missing_spec (locks : p.Locks) :
    (p.missingNames u t).Nodup ∧
      (∀ c ∈ p.missing u t, ∃ type name init, lockField type name init ∈ p.fields ∧
        c = .fieldOf (.type type) name lockFlags init ∧ u.fieldExistence t name = .absent) ∧
      ∀ name ∈ p.names, u.fieldExistence t name = .absent → name ∈ p.missingNames u t := by
  obtain ⟨kept, missing_, nodup, among, names⟩ : ∃ kept : List (String × Code),
      p.missing u t = kept.map (·.2) ∧ (kept.map (·.1)).Nodup ∧
        kept ⊆ (p.fields.filter fun f => u.fieldExistence t f.1 == .absent) ∧
        ∀ name ∈ (p.fields.filter fun f => u.fieldExistence t f.1 == .absent).map (·.1),
          name ∈ kept.map (·.1) := by
    obtain ⟨nodup, among, names⟩ :=
      names_kept (p.fields.filter fun f => u.fieldExistence t f.1 == .absent) [] List.nodup_nil
    exact ⟨_, rfl, nodup, among, fun name known => names name (.inr known)⟩
  have own (f : String × Code) (hf : f ∈ p.fields.filter fun f => u.fieldExistence t f.1 == .absent) :
      ∃ type name init, f = lockField type name init ∧ f ∈ p.fields ∧
        u.fieldExistence t name = .absent := by
    obtain ⟨listed, absent⟩ := List.mem_filter.mp hf
    obtain ⟨type, name, init, rfl⟩ := locks f listed
    exact ⟨type, name, init, rfl, listed, eq_of_beq absent⟩
  have same : p.missingNames u t = kept.map (·.1) := by
    rw [missingNames, missing_, List.map_map]
    refine List.map_congr_left fun f hf => ?_
    obtain ⟨type, name, init, rfl, -⟩ := own f (among hf)
    rfl
  rw [same, missing_]
  refine ⟨nodup, fun c hc => ?_, fun name needed absent => names name ?_⟩
  · obtain ⟨f, hf, rfl⟩ := List.mem_map.mp hc
    obtain ⟨type, name, init, rfl, listed, absent⟩ := own f (among hf)
    exact ⟨type, name, init, listed, rfl, absent⟩
  · obtain ⟨f, hf, rfl⟩ := List.mem_map.mp needed
    exact List.mem_map_of_mem (List.mem_filter.mpr ⟨hf, beq_iff_eq.mpr absent⟩)

/-- What is missing has an absent name. -/
theorem absent_of_missing {name : String} (locks : p.Locks) (missing : name ∈ p.missingNames u t) :
    u.fieldExistence t name = .absent := by
  obtain ⟨-, fields, -⟩ := p.missing_spec (u := u) (t := t) locks
  obtain ⟨c, hc, rfl⟩ := List.mem_map.mp missing
  obtain ⟨type, name, init, -, rfl, absent⟩ := fields c hc
  exact absent

/-! ## Runs that wrap a method -/

/-- Adds the fields and wraps the body. -/
def splice (p : LockPlan) (t m : Key) (fields body : List Code) : Splice := do
  for f in fields do
    Weave.editing (.injectField t f)
  Weave.editing (.replaceBody m body)
  if p.interruptible then
    Weave.editing (.addThrown m [.type "java.lang.InterruptedException"])
  return [t]

/-- Prepares to add the fields that are missing and to wrap the body. -/
def build (p : LockPlan) (u : SourceUnit) (t m : Key) : Build := do
  let body := p.wrap ((← Weave.unit).statements m .none)
  return .ok (p.splice t m (p.missing u t) body)

end LockPlan

/-- A handler that wraps a method in a lock by what its annotation says. -/
def ReadsPlan (h : Handler) : Prop :=
  ∃ name plan, h = locking name plan ∧ ∀ {i : Invocation} {a : AnnoUse} {u : SourceUnit},
    i.handler = name → i.anno = some a →
      Quiet u (plan i a) fun p? => ∀ p, p? = some p → i.plan? = some p

/-- A check that goes on builds by the plan of its run. -/
theorem ReadsPlan.quiet_check {h : Handler} {i : Invocation} (reads : h.ReadsPlan)
    (named : i.handler = h.name) (u : SourceUnit) : Quiet u (h.check i) fun w? => ∀ w, w? = some w →
      ∃ p m, i.plan? = some p ∧ i.method? u = some m ∧ w = p.build u (i.type u) m := by
  obtain ⟨name, plan, rfl, plans⟩ := reads
  have nothing : Quiet u (pure none) fun w? : Option Build => ∀ w, w? = some w →
      ∃ p m, i.plan? = some p ∧ i.method? u = some m ∧ w = p.build u (i.type u) m :=
    quiet_pure fun w same => absurd same (Option.some_ne_none w).symm
  unfold locking onAnno
  dsimp only
  split
  · next a given =>
    refine quiet_bind i.quiet_concreteMethod fun m? own => ?_
    cases m? with
    | none => exact nothing
    | some m =>
      refine quiet_bind (plans named given) fun p? planned => ?_
      cases p? with
      | none => exact nothing
      | some p =>
        refine quiet_look (quiet_pure ?_)
        rintro _ ⟨⟩
        exact ⟨p, m, planned p rfl, own m rfl, rfl⟩
  · exact nothing

theorem readsPlan_readLock : readLock.ReadsPlan := by
  refine ⟨_, _, rfl, fun {i a u} handler given => ?_⟩
  refine quiet_mono (quiet_readWritePlan a _) fun p? planned p same => ?_
  rw [Invocation.plan?, handler, given]
  exact planned p same

theorem readsPlan_writeLock : writeLock.ReadsPlan := by
  refine ⟨_, _, rfl, fun {i a u} handler given => ?_⟩
  refine quiet_mono (quiet_readWritePlan a _) fun p? planned p same => ?_
  rw [Invocation.plan?, handler, given]
  exact planned p same

theorem readsPlan_conditions {name : String} {said : AnnoUse → Except String Conditions}
    (plans : ∀ (i : Invocation) (a : AnnoUse), i.handler = name → i.anno = some a →
      i.plan? = (Conditions.served? (said a)).map (·.plan)) :
    (locking name fun i a => conditionPlan i (said a)).ReadsPlan := by
  refine ⟨_, _, rfl, fun {i a u} handler given => ?_⟩
  rw [plans i a handler given]
  exact quiet_conditionPlan (said a)

theorem readsPlan_signal : signal.ReadsPlan :=
  readsPlan_conditions fun i a handler given => by
    rw [Invocation.plan?, Invocation.conditions?, handler, given]
    rfl

theorem readsPlan_await : await.ReadsPlan :=
  readsPlan_conditions fun i a handler given => by
    rw [Invocation.plan?, Invocation.conditions?, handler, given]
    rfl

theorem readsPlan_awaitBeforeAndSignalAfter : awaitBeforeAndSignalAfter.ReadsPlan :=
  readsPlan_conditions fun i a handler given => by
    rw [Invocation.plan?, Invocation.conditions?, handler, given]
    rfl

/-! ### Which handlers do so -/

/-- The names of the handlers that wrap a method in a lock. -/
def lockNames : List String :=
  [Known.readLock, Known.writeLock, Known.signal, Known.await, Known.awaitBeforeAndSignalAfter]

/-- Only runs of these have a plan. -/
theorem mem_lockNames_of_plan {i : Invocation} {p : LockPlan} (planned : i.plan? = some p) :
    i.handler ∈ lockNames := by
  by_contra other
  simp only [lockNames, List.mem_cons, List.not_mem_nil, or_false, not_or] at other
  obtain ⟨notRead, notWrite, notSignal, notAwait, notBoth⟩ := other
  have none_ : i.conditions? = none := by
    rw [Invocation.conditions?]
    cases i.anno with
    | none => rfl
    | some a =>
      rw [Option.bind_some, if_neg (mt eq_of_beq notSignal), if_neg (mt eq_of_beq notAwait),
        if_neg (mt eq_of_beq notBoth)]
  rw [Invocation.plan?, if_neg (mt eq_of_beq notRead), if_neg (mt eq_of_beq notWrite), none_]
    at planned
  cases planned

end Handler

end Weaver
