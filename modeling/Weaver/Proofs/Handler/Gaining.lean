import Weaver.Proofs.Handler.Confined
/-!
Handlers by which types get fields.

What wraps a body in a lock adds the fields of the lock and its conditions, and setters that tell
listeners add constants and the fields behind listeners. With these, all handlers keep to the place
where they run (`Handler.confined_standard`).
-/
set_option autoImplicit false

namespace Weaver

open Weaver.Syntax (Tree Flags Field)
open Weaver.Syntax.Tree
open SourceUnit Weave

namespace Handler

section Fields

variable {h : Handler} {r : Registry} {u : SourceUnit} {i : Invocation} {t m : Key}
  {m? : Option Key} {p : LockPlan}

/-- A type gets the fields that a plan needs and that are missing. -/
theorem leads_missing {L : License} (starts : h.Starts r u i t m?) (planned : i.plan? = some p)
    (allowed : ∀ n x, (i.license r u t m?).field n x → L.field n x) :
    Leads L u.registry ((p.missingNames u t).map (r.number t, ·))
      (forIn (p.missing u t) PUnit.unit fun c _ => do
        editing (.injectField t c)
        return .yield PUnit.unit) fun _ => True := by
  obtain ⟨-, fields, -⟩ := p.missing_spec (u := u) (t := t) (locks_plan planned)
  obtain ⟨n, node, number⟩ := starts.type_node
  rw [← number]
  refine leads_injectFields node fun c hc => ?_
  obtain ⟨type, name, init, needed, rfl, -⟩ := fields c hc
  refine ⟨_, name, lockFlags, init, rfl, rfl, fun x declared => allowed _ x ⟨number, .inl ?_, ?_, ?_⟩⟩
  · rw [declared.flags]
    rfl
  · rintro p' planned'
    obtain rfl := Option.some.inj (planned.symm.trans planned')
    obtain rfl := declared.name
    exact ⟨init, ⟨type, needed⟩, declared⟩
  · rw [planned]
    exact nofun

/-- Splicing by a plan: the type gets the fields that are missing. -/
theorem leads_splice (starts : h.Starts r u i t m?) (planned : i.plan? = some p)
    (own : i.method? u = some m) (body : List Code) :
    Leads (i.license r u t m?) u.registry ((p.missingNames u t).map (r.number t, ·))
      (p.splice t m (p.missing u t) body) fun keys => t ∈ keys := by
  refine leads_before (leads_missing starts planned fun _ _ h => h) fun _ _ => ?_
  refine leads_then (leads_editing (Edit.leads_replaceBody (starts.body own))) fun _ _ => ?_
  split
  · exact leads_then (leads_editing (Edit.leads_addThrown _)) fun _ _ =>
      leads_pure List.mem_cons_self
  · exact leads_pure List.mem_cons_self

theorem confined_build (starts : h.Starts r u i t m?) (planned : i.plan? = some p)
    (own : i.method? u = some m) :
    Build.Confined (i.license r u t m?) u t (r.number t) (p.build u t m) := by
  have locks := locks_plan planned
  have nodup := (p.missing_spec (u := u) (t := t) locks).1
  exact quiet_look (Build.confined_fields
    (fresh_of_nodup nodup fun _ => p.absent_of_missing locks) (leads_splice starts planned own _))

theorem ReadsPlan.confined (reads : h.ReadsPlan) : h.Confined := by
  intro r u i t m? starts
  refine quiet_mono (reads.quiet_check starts.handler u) ?_
  rintro w? hands w same
  obtain ⟨p, m, planned, own, rfl⟩ := hands w same
  rw [starts.type_eq]
  exact confined_build starts planned own

/-- Members for a type: fields, and what becomes methods. -/
theorem leads_inject {L : License} {n : Node} {a : Additions} (node : r.node? t = some n)
    (fields : ∀ c ∈ a.fields, c.Gets (L.field n.decl))
    (methods : ∀ c ∈ a.methods, ∀ s, Code.Becomes (c.lower s .part) (·.isMethod)) :
    Leads L r ((a.fields.map Code.fieldName).map (n.decl, ·)) (a.inject t) fun _ => True := by
  refine leads_before (leads_injectFields node fields) fun _ _ => ?_
  exact leads_then (leads_loop (fun c hc _ => leads_then (leads_injectMethod (methods c hc))
    fun _ _ => leads_pure trivial) _) fun _ _ => leads_pure trivial

/-- The runs that make setters and what they need wrap no method. -/
theorem unplanned (bound : i.handler = Known.boundSetter ∨ i.handler = Known.boundPropertySupport) :
    i.plan? = none := by
  by_contra some_
  obtain ⟨p, planned⟩ := Option.ne_none_iff_exists'.mp some_
  have locks := mem_lockNames_of_plan planned
  rcases bound with same | same <;> exact absurd (same ▸ locks) (by decide)

/-- A field with a name that gets no setter. -/
theorem gets_named {f : Named} {type init : Code} {ms : Flags} {name : String}
    (bound : i.handler = Known.boundSetter ∨ i.handler = Known.boundPropertySupport)
    (made : f = .field type name ms init) (plain : ms.meets .enumFlag = false)
    (settled : ms.meets (Flags.staticFlag.union .finalFlag) = true ∨
      name.startsWith "$" = true)
    (tells : name ∈ [supportField, supportLockField] ∨ ∃ field, name = (propertyConstant field).name) :
    f.code.Gets ((i.license r u t m?).field (r.number t)) := by
  subst made
  refine ⟨type, name, ms, init, rfl, plain, fun x declared => ⟨rfl, ?_, ?_, fun _ => ⟨bound, ?_⟩⟩⟩
  · rwa [Field.Settled, declared.flags, declared.name]
  · rw [unplanned bound]
    exact nofun
  · rwa [declared.name]

theorem gets_supportFields
    (bound : i.handler = Known.boundSetter ∨ i.handler = Known.boundPropertySupport) :
    ∀ f ∈ supportFields, f.code.Gets ((i.license r u t m?).field (r.number t)) := by
  intro f hf
  simp only [supportFields, List.mem_cons, List.not_mem_nil, or_false] at hf
  rcases hf with rfl | rfl <;>
    exact gets_named bound rfl (by decide) (.inr (String.startsWith_string_iff.mpr (by decide)))
      (.inl (by decide))

theorem isMethod_supportMethods : ∀ f ∈ supportMethods, ∀ s,
    Code.Becomes (f.code.lower s .part) (·.isMethod) := by
  intro f hf s
  simp only [supportMethods, List.mem_cons, List.not_mem_nil, or_false] at hf
  rcases hf with rfl | rfl | rfl | rfl <;> exact Code.isMethod_of_lower

/-- The fields behind listeners that a type does not have. -/
def supportNames (u : SourceUnit) (t : Key) : List String :=
  (Additions.support u t).fields.map Code.fieldName

theorem supportNames_sublist (u : SourceUnit) (t : Key) :
    (supportNames u t).Sublist [supportField, supportLockField] := by
  have named : (supportFields.map (·.code)).map Code.fieldName = [supportField, supportLockField] :=
    rfl
  rw [← named]
  exact (List.filter_sublist.map _).map _

theorem absent_supportNames {name : String} (hname : name ∈ supportNames u t) :
    u.fieldExistence t name = .absent := by
  obtain ⟨c, hc, rfl⟩ := List.mem_map.mp hname
  obtain ⟨f, hf, rfl⟩ := List.mem_map.mp hc
  obtain ⟨listed, absent⟩ := List.mem_filter.mp hf
  have named : f.code.fieldName = f.name := by
    simp only [supportFields, List.mem_cons, List.not_mem_nil, or_false] at listed
    rcases listed with rfl | rfl <;> rfl
  rw [named]
  exact eq_of_beq absent

theorem distinct_supportNames (u : SourceUnit) (t : Key) : (supportNames u t).Nodup :=
  List.Nodup.sublist (supportNames_sublist u t) (by decide)

theorem leads_support {n : Node} (node : u.registry.node? t = some n)
    (number : n.decl = r.number t)
    (bound : i.handler = Known.boundSetter ∨ i.handler = Known.boundPropertySupport) :
    Leads (i.license r u t m?) u.registry ((supportNames u t).map (n.decl, ·))
      ((Additions.support u t).inject t) fun _ => True := by
  refine leads_inject node (fun c hc => ?_) fun c hc => ?_
  · obtain ⟨f, hf, rfl⟩ := List.mem_map.mp hc
    rw [number]
    exact gets_supportFields bound f (List.mem_of_mem_filter hf)
  · obtain ⟨f, hf, rfl⟩ := List.mem_map.mp hc
    exact isMethod_supportMethods f (List.mem_of_mem_filter hf)

theorem confined_boundPropertySupport : boundPropertySupport.Confined := by
  refine confined_onAnno fun {r u i t m?} a starts _ => quiet_look ?_
  rw [starts.type_eq]
  dsimp only
  split
  · exact i.quiet_refuse _ confinedBuild_none
  obtain ⟨n, node, number⟩ := starts.type_node
  refine quiet_pure (confinedBuild_some (quiet_look (Build.confined_fields
    (fresh_of_nodup (distinct_supportNames u t) fun name => absent_supportNames) ?_)))
  rw [← number]
  exact leads_before (leads_support node number (.inr starts.handler)) fun _ _ =>
    leads_pure List.mem_cons_self

/-! ### Setters -/

/-- The names of the constants that a type gets for the properties of fields. -/
def constantNames (u : SourceUnit) (t : Key) (fields : List Key) : List String :=
  ((fields.map fun f => propertyConstant (u.name f)).filter fun c =>
    u.fieldExistence t c.name == .absent).map (·.name)

theorem fieldNames_constants (u : SourceUnit) (t : Key) (fields : List Key) :
    (((fields.map fun f => propertyConstant (u.name f)).filter fun c =>
      u.fieldExistence t c.name == .absent).map (·.code)).map Code.fieldName =
      constantNames u t fields := by
  rw [constantNames, List.map_map]
  refine List.map_congr_left fun c hc => ?_
  obtain ⟨f, -, rfl⟩ := List.mem_map.mp (List.mem_of_mem_filter hc)
  rfl

/-- The name of a constant begins otherwise than those of the fields behind listeners. -/
theorem ne_of_constant {name : String} (support : name ∈ [supportField, supportLockField])
    (field : String) : (propertyConstant field).name ≠ name := by
  intro same
  have first : name.toList.head? = some 'P' := by
    rw [← same, propertyConstant, Named.field, String.toList_append]
    rfl
  simp only [List.mem_cons, List.not_mem_nil, or_false] at support
  rcases support with rfl | rfl <;> exact absurd first (by decide)

theorem fresh_setterNames {fields : List Key}
    (among : fields.length ≤ 1 ∨ fields = settable boundStyle u t) :
    u.Fresh t (supportNames u t ++ constantNames u t fields) where
  absent name hname := by
    rcases List.mem_append.mp hname with support | constant
    · exact absent_supportNames support
    · obtain ⟨c, hc, rfl⟩ := List.mem_map.mp constant
      exact eq_of_beq (List.mem_filter.mp hc).2
  few name := by
    have constants : (constantNames u t fields).count name ≤
        fields.countP fun f => (propertyConstant (u.name f)).name == name := by
      have all : (fields.map fun f => propertyConstant (u.name f)).countP (·.name == name) =
          fields.countP fun f => (propertyConstant (u.name f)).name == name := List.countP_map
      rw [constantNames, List.count, List.countP_map, ← all]
      exact List.Sublist.countP_le List.filter_sublist
    rw [List.count_append]
    by_cases support : name ∈ supportNames u t
    · -- no constant has the name of a field behind listeners
      have others : (fields.countP fun f => (propertyConstant (u.name f)).name == name) = 0 :=
        List.countP_eq_zero.mpr fun f _ => by
          have listed := (supportNames_sublist u t).mem support
          exact mt eq_of_beq (ne_of_constant listed (u.name f))
      have once := List.nodup_iff_count_le_one.mp (distinct_supportNames u t) name
      omega
    · rw [List.count_eq_zero_of_not_mem support]
      rcases among with short | rfl
      · have bounded := List.countP_le_length (l := fields)
          (p := fun f => (propertyConstant (u.name f)).name == name)
        omega
      · rw [SourceUnit.sharing]
        omega

theorem gets_constant {field : String} (bound : i.handler = Known.boundSetter) :
    (propertyConstant field).code.Gets ((i.license r u t m?).field (r.number t)) :=
  gets_named (.inl bound) rfl (by decide) (.inl (by decide)) (.inr ⟨field, rfl⟩)

/-- The fields that get a setter: one that has the annotation, or those of the type that can be
set. -/
theorem quiet_setterFields {s : SetterStyle} (starts : (setting s).Starts r u i t m?) :
    Quiet u (setterFields s i t) fun fields? => ∀ fields, fields? = some fields →
      fields.length ≤ 1 ∨ fields = settable s u t := by
  refine quiet_look ?_
  split
  · dsimp only
    split
    · refine quiet_pure ?_
      rintro _ ⟨⟩
      exact .inl Nat.le.refl
    · exact quiet_bind (i.quiet_warn _) fun _ _ => quiet_pure nofun
  · next kind =>
    split
    · refine quiet_pure ?_
      rintro _ ⟨⟩
      have own := starts.type_eq
      rw [Invocation.type, kind] at own
      exact .inr (congrArg _ own)
    · exact i.quiet_refuse _ nofun
  · exact i.quiet_refuse _ nofun

/-- Making setters: what they need is added before them. -/
theorem confined_setterAdditions {s : SetterStyle} {fields : List Key} {level : AccessLevel}
    (starts : (setting s).Starts r u i t m?) (bound : s.isBound = true → s = boundStyle)
    (methods : ∀ self name type ms st,
      Code.Becomes ((s.setter self name type ms).lower st .part) (·.isMethod))
    (among : fields.length ≤ 1 ∨ fields = settable s u t) :
    Build.Confined (i.license r u t m?) u t (r.number t) (do
      let additions := setterAdditions s (← Weave.unit) t fields level
      return .ok do
        for a in additions do
          a.inject t
        return [t]) := by
  obtain ⟨n, node, number⟩ := starts.type_node
  have setters (self : Code) : ∀ c ∈ fields.map fun f =>
      s.setter self (u.name f) (u.varType f) level.flags, ∀ st,
      Code.Becomes (c.lower st .part) (·.isMethod) := by
    intro c hc
    obtain ⟨f, -, rfl⟩ := List.mem_map.mp hc
    exact methods _ _ _ _
  refine quiet_look ?_
  rw [setterAdditions]
  split
  · next isBound =>
    obtain rfl := bound isBound
    have handler : i.handler = Known.boundSetter := starts.handler
    refine Build.confined_fields (fresh_setterNames among) ?_
    have gains (constants : List Code) (methods : List Code) :
        (supportNames u t ++ constants.map Code.fieldName).map (n.decl, ·) =
          [Additions.support u t, ⟨constants, methods⟩].flatMap fun a =>
            (a.fields.map Code.fieldName).map (n.decl, ·) := by
      rw [List.map_append, List.flatMap_cons, List.flatMap_singleton]
      rfl
    rw [← number, ← fieldNames_constants, gains]
    refine leads_before (leads_forIn fun a ha => ?_) fun _ _ => leads_pure List.mem_cons_self
    rcases List.mem_cons.mp ha with rfl | ha
    · exact leads_support node number (.inl handler)
    · rw [List.mem_singleton.mp ha]
      refine leads_inject node (fun c hc => ?_) (setters _)
      obtain ⟨k, hk, rfl⟩ := List.mem_map.mp hc
      obtain ⟨f, -, rfl⟩ := List.mem_map.mp (List.mem_of_mem_filter hk)
      rw [number]
      exact gets_constant handler
  · refine Build.confined_ok (leads_then (leads_loop (fun a ha _ => ?_) _) fun _ _ =>
      leads_pure trivial)
    rw [List.mem_singleton.mp ha]
    exact leads_then (leads_inject node nofun (setters _)) fun _ _ => leads_pure trivial

theorem confined_setting {s : SetterStyle} (bound : s.isBound = true → s = boundStyle)
    (methods : ∀ self name type ms st,
      Code.Becomes ((s.setter self name type ms).lower st .part) (·.isMethod)) :
    (setting s).Confined := by
  refine confined_onAnno fun a starts _ => ?_
  split
  · exact Invocation.quiet_stop _ _ confinedBuild_none
  dsimp only
  split
  · exact quiet_pure confinedBuild_none
  refine quiet_look ?_
  rw [starts.type_eq]
  refine quiet_bind (quiet_setterFields starts) fun fields? among => ?_
  cases fields? with
  | none => exact quiet_pure confinedBuild_none
  | some fields =>
    exact quiet_pure (confinedBuild_some
      (confined_setterAdditions starts bound methods (among fields rfl)))

theorem confined_fluentSetter : fluentSetter.Confined :=
  confined_setting nofun fun _ _ _ _ _ => Code.isMethod_of_lower

theorem confined_boundSetter : boundSetter.Confined :=
  confined_setting (fun _ => rfl) fun _ _ _ _ _ => Code.isMethod_of_lower

end Fields

/-- **All handlers keep to the place where they run.** -/
theorem confined_standard {h : Handler} (member : h ∈ standard) : h.Confined := by
  have listed := (List.mergeSort_perm _ _).mem_iff.mp member
  simp only [List.mem_cons, List.not_mem_nil, or_false] at listed
  rcases listed with rfl | rfl | rfl | rfl | rfl | rfl | rfl | rfl | rfl | rfl | rfl | rfl | rfl |
    rfl | rfl | rfl | rfl | rfl | rfl | rfl | rfl | rfl | rfl | rfl | rfl | rfl | rfl | rfl | rfl |
    rfl
  · exact confined_autoGenMethodStub
  · exact confined_visibleForTesting
  · exact confined_entrypoints _ _
  · exact confined_entrypoints _ _
  · exact confined_singleton
  · exact confined_builder
  · exact confined_boundPropertySupport
  · exact confined_boundSetter
  · exact confined_fluentSetter
  · exact confined_generator
  · exact readsPlan_readLock.confined
  · exact readsPlan_writeLock.confined
  · exact readsPlan_signal.confined
  · exact readsPlan_await.confined
  · exact readsPlan_awaitBeforeAndSignalAfter.confined
  · exact confined_onEventThread _ _
  · exact confined_onEventThread _ _
  · exact confined_doPrivileged
  · exact confined_doPrivilegedSanitizeWith
  · exact confined_sanitizing _
  · exact confined_sanitizing _
  · exact confined_sanitizing _
  · exact confined_validating _
  · exact confined_validating _
  · exact confined_validating _
  · exact confined_validating _
  · exact confined_rethrowing _
  · exact confined_rethrowing _
  · exact confined_function
  · exact confined_builderExtension

end Handler

end Weaver
