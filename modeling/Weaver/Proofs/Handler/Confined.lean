import Weaver.Handler.Standard
import Weaver.Proofs.Handler.Plan
import Weaver.Proofs.Processing.Seat
/-!
Handlers keep to the place where they run.

A run may replace the body of its method and add fields to its type, may change as parameters what is
no field, and takes values of fields only to make a builder (`Invocation.license`). It adds a field
only under a name that is absent from its type (`Fresh`). Here are the rules for handlers that keep
to that, and the handlers by which types get no fields.
-/
set_option autoImplicit false

namespace Weaver

open Weaver.Syntax (Tree Flags Field)
open Weaver.Syntax.Tree
open SourceUnit Weave Handler

/-! ## What runs may do -/

/-- A field that gets no setter. -/
def Syntax.Field.Settled (x : Field) : Prop :=
  x.flags.meets (Flags.staticFlag.union .finalFlag) = true ∨ x.name.startsWith "$" = true

instance : DecidablePred Field.Settled := fun _ => inferInstanceAs (Decidable (_ ∨ _))

namespace Invocation

/-- A name that a field gets by which a type tells listeners of its properties: that of a constant,
or that of a field behind the listeners. -/
def Tells (i : Invocation) (name : String) : Prop :=
  (i.handler = Known.boundSetter ∨ i.handler = Known.boundPropertySupport) ∧
    (name ∈ [supportField, supportLockField] ∨ ∃ field, name = (propertyConstant field).name)

/-- A field that a run may add: it gets no setter, and if the run is to wrap a method, then its plan
needs the field. -/
structure Adds (i : Invocation) (x : Field) : Prop where
  settled : x.Settled
  planned : ∀ p, i.plan? = some p → ∃ init, p.Needs x.name init ∧ Code.Declares x.name lockFlags init x
  unplanned : i.plan? = none → i.Tells x.name

/-- What a run may do whose element stands in a type and, it may be, in a method. -/
def license (i : Invocation) (r : Registry) (u : SourceUnit) (t : Key) (m? : Option Key) :
    License where
  body n := ∃ m, m? = some m ∧ r.number m = n
  param n := u.Loose r n
  field n x := n = r.number t ∧ i.Adds x
  reset n := i.handler = Known.builder ∧ ∃ x ∈ (u.decl t).fieldsIn, x.number = n

end Invocation

namespace SourceUnit

/-- How many fields of a type have some name as the constant of their property, among those that get
setters by an annotation of the type. -/
def sharing (u : SourceUnit) (t : Key) (name : String) : Nat :=
  (settable boundStyle u t).countP fun f => (propertyConstant (u.name f)).name == name

/-- Names under which a type can get fields: they are absent, and none comes twice unless fields
share it as the constant of their properties. -/
structure Fresh (u : SourceUnit) (t : Key) (names : List String) : Prop where
  absent : ∀ name ∈ names, u.fieldExistence t name = .absent
  few : ∀ name, names.count name ≤ max 1 (u.sharing t name)

theorem fresh_nil (u : SourceUnit) (t : Key) : u.Fresh t [] := ⟨nofun, fun _ => Nat.zero_le _⟩

theorem fresh_of_nodup {u : SourceUnit} {t : Key} {names : List String} (distinct : names.Nodup)
    (absent : ∀ name ∈ names, u.fieldExistence t name = .absent) : u.Fresh t names where
  absent := absent
  few name := (List.nodup_iff_count_le_one.mp distinct name).trans (Nat.le_max_left _ _)

end SourceUnit

/-- Code by which a type gets a field with some property. -/
def Code.Gets (P : Field → Prop) (c : Code) : Prop :=
  ∃ type name ms init, c = .fieldOf type name ms init ∧ ms.meets .enumFlag = false ∧
    ∀ x, Code.Declares name ms init x → P x

/-- Splicing under a license by which a type with a number gets some fields and is registered anew
if it does. -/
def Splice.Confined (L : License) (r : Registry) (t : Key) (number : Nat) (names : List String)
    (s : Splice) : Prop :=
  Leads L r (names.map (number, ·)) s fun keys => names ≠ [] → t ∈ keys

/-- Building that leaves a unit as it is and hands out such splicing. -/
def Build.Confined (L : License) (u : SourceUnit) (t : Key) (number : Nat) (w : Build) : Prop :=
  Quiet u w fun s? => ∀ s, s? = .ok s →
    ∃ names, u.Fresh t names ∧ Splice.Confined L u.registry t number names s

/-- What a check hands out. -/
def ConfinedBuild (L : License) (u : SourceUnit) (t : Key) (number : Nat) (w? : Option Build) :
    Prop :=
  ∀ w, w? = some w → Build.Confined L u t number w

namespace Handler

/-- A handler starts to run on a sound unit, on an element that stands somewhere. -/
structure Starts (h : Handler) (r : Registry) (u : SourceUnit) (i : Invocation) (t : Key)
    (m? : Option Key) : Prop where
  sound : u.Sound r
  seat : r.Seat i.element t m?
  handler : i.handler = h.name

/-- A handler whose runs keep to their license. -/
def Confined (h : Handler) : Prop :=
  ∀ ⦃r u i t m?⦄, h.Starts r u i t m? →
    Quiet u (h.check i) (ConfinedBuild (i.license r u t m?) u t (r.number t))

namespace Starts

variable {h : Handler} {r : Registry} {u : SourceUnit} {i : Invocation} {t m c : Key}
  {m? : Option Key} {n : Node}

theorem type_eq (s : h.Starts r u i t m?) : i.type u = t := s.seat.type_eq s.sound.lasts

theorem method_eq (s : h.Starts r u i t m?) (own : i.method? u = some m) : m? = some m :=
  (s.seat.method_eq s.sound.lasts).symm.trans own

/-- The type of a run is registered. -/
theorem type_node (s : h.Starts r u i t m?) :
    ∃ n, u.registry.node? t = some n ∧ n.decl = r.number t := by
  obtain ⟨n, node, -⟩ := s.seat.type_node
  obtain ⟨keys, now⟩ := s.sound.lasts node
  exact ⟨_, now, (Registry.number_of_node node).symm⟩

/-- A run may replace the body of its method. -/
theorem body (s : h.Starts r u i t m?) (own : i.method? u = some m) :
    ∀ n, u.registry.node? m = some n → (i.license r u t m?).body n.decl := by
  intro n node
  obtain rfl := s.method_eq own
  obtain ⟨n', node', -⟩ := s.seat.method_node
  obtain ⟨keys, now⟩ := s.sound.lasts node'
  rw [← Option.some.inj (now.symm.trans node)]
  exact ⟨m, rfl, by rw [Registry.number_of_node node']⟩

/-- A run may change the parameters of its method. -/
theorem param (s : h.Starts r u i t m?) (own : i.method? u = some m) (hc : c ∈ u.params m) :
    ∀ n, u.registry.node? c = some n → (i.license r u t m?).param n.decl := by
  intro n node
  obtain rfl := s.method_eq own
  obtain ⟨n₁, node₁, kind, -⟩ := s.seat.method_node
  rw [SourceUnit.params, Registry.childrenOf] at hc
  split at hc
  · next n₂ node₂ =>
    obtain ⟨n', node', loose⟩ :=
      s.sound.params node₁ kind node₂ c (List.mem_of_mem_filter hc)
    rwa [Option.some.inj (node.symm.trans node')]
  · exact absurd hc List.not_mem_nil

/-- A run may change the modifiers of a method of its type. -/
theorem method (s : h.Starts r u i t m?) (hc : c ∈ u.methods t) :
    ∀ n, u.registry.node? c = some n → (i.license r u t m?).param n.decl := by
  intro n node
  obtain ⟨n₁, node₁, kind⟩ := s.seat.type_node
  rw [methods, Registry.childrenOf] at hc
  split at hc
  · next n₂ node₂ =>
    obtain ⟨member, own⟩ := List.mem_filter.mp hc
    rw [node, Option.any_some] at own
    exact s.sound.methods node₁ kind node₂ member node (eq_of_beq own)
  · exact absurd hc List.not_mem_nil

/-- A builder may take the values of the fields of its type. -/
theorem reset (s : h.Starts r u i t m?) (name : h.name = Known.builder) (hc : c ∈ u.fields t) :
    ∀ n, u.registry.node? c = some n → (i.license r u t m?).reset n.decl := by
  intro n node
  obtain ⟨n', node', kind⟩ := s.seat.type_node
  obtain ⟨x, hx, -, number⟩ := s.sound.field_of_registered node' kind hc
  rw [Registry.number_of_node node] at number
  exact ⟨s.handler.trans name, x, hx, number.symm⟩

end Starts

/-! ## Rules -/

section Rules

variable {L : License} {r : Registry} {u : SourceUnit} {t k m : Key} {number : Nat} {n : Node}

theorem confinedBuild_none : ConfinedBuild L u t number none := nofun

theorem confinedBuild_some {w : Build} (h : Build.Confined L u t number w) :
    ConfinedBuild L u t number (some w) := by
  rintro _ ⟨⟩
  exact h

theorem Build.confined_error (message : String) :
    Build.Confined L u t number (return .error message) :=
  quiet_pure nofun

/-- Building of splicing by which the type gets some fields. -/
theorem Build.confined_fields {names : List String} {s : Splice} (fresh : u.Fresh t names)
    (h : Leads L u.registry (names.map (number, ·)) s fun keys => t ∈ keys) :
    Build.Confined L u t number (return .ok s) := by
  refine quiet_pure ?_
  rintro _ ⟨⟩
  refine ⟨names, fresh, fun v registry b a b' same done => ?_⟩
  obtain ⟨registry', steps, keys⟩ := h v registry same done
  exact ⟨registry', steps, fun _ => keys⟩

/-- Building of splicing by which no type gets fields. -/
theorem Build.confined_ok {s : Splice} (h : Leads L u.registry [] s fun _ => True) :
    Build.Confined L u t number (return .ok s) := by
  refine quiet_pure ?_
  rintro _ ⟨⟩
  refine ⟨[], u.fresh_nil t, fun v registry b a b' same done => ?_⟩
  obtain ⟨registry', steps, -⟩ := h v registry same done
  exact ⟨registry', steps, absurd rfl⟩

theorem Build.confined_replacingBody (body : List Code)
    (licensed : ∀ n, u.registry.node? m = some n → L.body n.decl) :
    Build.Confined L u t number (return replacingBody m body) :=
  Build.confined_ok (leads_then (leads_editing (Edit.leads_replaceBody licensed)) fun _ _ =>
    leads_pure trivial)

/-- A type gets a field that is declared by code. -/
theorem leads_injectField {c : Code} (node : r.node? k = some n) (gets : c.Gets (L.field n.decl)) :
    Leads L r [(n.decl, c.fieldName)] (editing (.injectField k c)) fun _ => True := by
  obtain ⟨type, name, ms, init, rfl, plain, licensed⟩ := gets
  exact leads_editing (Edit.leads_injectField node plain licensed)

/-- A type gets the fields that are declared by the code in a list. -/
theorem leads_injectFields {cs : List Code} (node : r.node? k = some n)
    (gets : ∀ c ∈ cs, c.Gets (L.field n.decl)) :
    Leads L r ((cs.map Code.fieldName).map (n.decl, ·))
      (forIn cs PUnit.unit fun c _ => do editing (.injectField k c); return .yield PUnit.unit)
      fun _ => True := by
  have gains : (cs.map Code.fieldName).map (n.decl, ·) =
      cs.flatMap fun c => [(n.decl, c.fieldName)] := by
    rw [List.map_map, List.map_eq_flatMap]
    rfl
  rw [gains]
  exact leads_forIn fun c hc => leads_injectField node (gets c hc)

theorem leads_injectMethod {method : Code}
    (isMethod : ∀ s, Code.Becomes (method.lower s .part) (·.isMethod)) :
    Leads L r [] (editing (.injectMethod k method)) fun _ => True :=
  leads_editing (Edit.leads_injectMethod isMethod)

variable {h : Handler} {i : Invocation} {m? : Option Key} {P : Option Build → Prop}

theorem confined_onAnno {name : String} {p : Int}
    {check : Invocation → AnnoUse → Weave (Option Build)}
    (h : ∀ {r u i t m?} (a : AnnoUse), (onAnno name p check).Starts r u i t m? → i.anno = some a →
      Quiet u (check i a) (ConfinedBuild (i.license r u t m?) u t (r.number t))) :
    (onAnno name p check).Confined := by
  intro r u i t m? starts
  unfold onAnno
  dsimp only
  split
  · next a same => exact h a starts same
  · exact quiet_pure confinedBuild_none

/-- A check that begins with looking for the method. -/
theorem quiet_onMethod {f : Key → Weave (Option Build)} (stops : P none)
    (h : ∀ m, i.method? u = some m → Quiet u (f m) P) :
    Quiet u (do match ← i.concreteMethod with | none => return none | some m => f m) P := by
  refine quiet_bind i.quiet_concreteMethod fun found own => ?_
  cases found with
  | none => exact quiet_pure stops
  | some m => exact h m (own m rfl)

/-- A check that goes on only if nothing was found wrong. -/
theorem quiet_guard {α : Type} {w : Weave α} {Q : α → Prop} {f : α → Weave (Option Build)}
    (stops : P none) (h : Quiet u w Q) (h' : ∀ a, Q a → Quiet u (f a) P) :
    Quiet u (do
      let a ← w
      if !(← Invocation.sound) then return none
      f a) P := by
  refine quiet_bind h fun a holds => quiet_bind Invocation.quiet_sound fun sound _ => ?_
  split
  · exact quiet_pure stops
  · exact h' a holds

/-- A check that goes on only once for a method. -/
theorem quiet_onceGuard {key : String} {w : Weave (Option Build)} (stops : P none)
    (h : Quiet u w P) :
    Quiet u (do if !(← Weave.once key m) then return none
                w) P := by
  refine quiet_bind (quiet_once key m) fun fresh _ => ?_
  split
  · exact quiet_pure stops
  · exact h

end Rules

/-! ## Handlers by which types get no fields -/

theorem confined_nothingToDo {L : License} {u : SourceUnit} {t : Key} {number : Nat} :
    Build.Confined L u t number nothingToDo :=
  Build.confined_ok (leads_pure trivial)

theorem confined_visibleForTesting : visibleForTesting.Confined := by
  refine confined_onAnno fun a starts _ => quiet_look ?_
  split
  · exact Invocation.quiet_refuse _ _ confinedBuild_none
  · exact quiet_pure (confinedBuild_some confined_nothingToDo)

theorem confined_autoGenMethodStub : autoGenMethodStub.Confined := by
  refine confined_onAnno fun a starts _ => quiet_look ?_
  dsimp only
  split
  · exact Invocation.quiet_stop _ _ confinedBuild_none
  · exact quiet_pure (confinedBuild_some confined_nothingToDo)

theorem confined_generator : generator.Confined := by
  intro r u i t m? starts
  refine quiet_look ?_
  split
  · exact i.quiet_stop _ confinedBuild_none
  · next m own =>
    split
    · exact i.quiet_stop _ confinedBuild_none
    · split
      · exact i.quiet_stop _ confinedBuild_none
      · refine quiet_pure (confinedBuild_some (quiet_look ?_))
        dsimp only
        split
        · exact Build.confined_replacingBody _ (starts.body own)
        · exact quiet_throw _
        · exact Build.confined_error _

theorem confined_function : Handler.function.Confined := by
  refine confined_onAnno fun a starts _ => quiet_onMethod confinedBuild_none fun m own => ?_
  refine quiet_look (quiet_bind (quiet_memberText a _) fun name _ => ?_)
  split
  · exact Invocation.quiet_stop _ _ confinedBuild_none
  · dsimp only
    split
    · exact Invocation.quiet_stop _ _ confinedBuild_none
    · refine quiet_pure (confinedBuild_some (quiet_look (Build.confined_ok ?_)))
      refine leads_then (leads_editing (Edit.leads_replaceWith ?_ (starts.body own))) fun _ _ => ?_
      · refine fun s => Code.method_of_lower fun c hc => ?_
        obtain ⟨p, -, rfl⟩ := List.mem_map.mp hc
        exact ⟨_, _, rfl⟩
      · exact leads_look fun v _ => (quiet_pure trivial).leadsFrom
    · exact Invocation.quiet_stop _ _ confinedBuild_none

theorem quiet_readRethrown {u : SourceUnit} (i : Invocation) (as : List AnnoUse) :
    Quiet u (readRethrown i as) fun _ => True := by
  induction as with
  | nil => exact quiet_pure trivial
  | cons a as ih =>
    unfold readRethrown
    split
    · exact quiet_bind ih fun _ _ => quiet_pure trivial
    · exact quiet_bind (i.quiet_error _) fun _ _ => ih

theorem confined_rethrowing (name : String) : (rethrowing name).Confined := by
  refine confined_onAnno fun a starts _ => quiet_onMethod confinedBuild_none fun m own => ?_
  refine quiet_onceGuard confinedBuild_none (quiet_look ?_)
  refine quiet_guard confinedBuild_none (quiet_readRethrown _ _) fun rs _ => ?_
  exact quiet_pure (confinedBuild_some (quiet_look
    (Build.confined_replacingBody _ (starts.body own))))

theorem quiet_checksOf {u : SourceUnit} (i : Invocation) (ps : List Key) :
    Quiet u (checksOf i ps) fun _ => True := by
  induction ps with
  | nil => exact quiet_pure trivial
  | cons p ps ih =>
    refine quiet_look ?_
    have others (cs : List Code → List Code) :
        Quiet u (do return cs (← checksOf i ps)) fun _ => True :=
      quiet_bind ih fun _ _ => quiet_pure trivial
    dsimp only
    split
    · exact others _
    · refine quiet_bind (quiet_memberText _ _) fun f _ => ?_
      split
      · exact quiet_bind (i.quiet_error _) fun _ _ => others _
      · exact others _

theorem confined_validating (name : String) : (validating name).Confined := by
  refine confined_onAnno fun a starts _ => quiet_onMethod confinedBuild_none fun m own => ?_
  refine quiet_onceGuard confinedBuild_none (quiet_look ?_)
  refine quiet_guard confinedBuild_none (quiet_checksOf _ _) fun checks _ => ?_
  refine quiet_pure (confinedBuild_some ?_)
  split
  · exact Build.confined_ok (leads_pure trivial)
  · exact quiet_look (Build.confined_replacingBody _ (starts.body own))

theorem quiet_sanitizedValue {u : SourceUnit} (i : Invocation) (v : SourceUnit) (p : Key) :
    Quiet u (sanitizedValue i v p) fun _ => True := by
  unfold sanitizedValue
  dsimp only
  split
  · exact i.quiet_stop _ trivial
  · refine quiet_bind (quiet_memberText _ _) fun f _ => ?_
    split
    · exact i.quiet_refuse _ trivial
    · exact quiet_pure trivial
  · refine quiet_bind (quiet_memberText _ _) fun f _ => ?_
    split
    · exact quiet_pure trivial
    · exact i.quiet_stop _ trivial
  · exact quiet_pure trivial

theorem quiet_copiesOf {u : SourceUnit} (i : Invocation) (ps : List Key) :
    Quiet u (copiesOf i ps) fun _ => True := by
  induction ps with
  | nil => exact quiet_pure trivial
  | cons p ps ih =>
    refine quiet_look (quiet_bind (quiet_sanitizedValue i _ p) fun v _ => ?_)
    cases v with
    | none => exact ih
    | some v => exact quiet_bind ih fun _ _ => quiet_pure trivial

theorem confined_sanitizing (name : String) : (sanitizing name).Confined := by
  refine confined_onAnno fun a starts _ => quiet_onMethod confinedBuild_none fun m own => ?_
  refine quiet_onceGuard confinedBuild_none (quiet_look ?_)
  refine quiet_guard confinedBuild_none (quiet_copiesOf _ _) fun copies _ => ?_
  refine quiet_pure (confinedBuild_some ?_)
  split
  · exact Build.confined_ok (leads_pure trivial)
  · exact quiet_look (Build.confined_replacingBody _ (starts.body own))

theorem confined_onEventThread (name : String) (dispatch : Code → List Code → List Code) :
    (onEventThread name dispatch).Confined := by
  refine confined_onAnno fun a starts _ => quiet_onMethod confinedBuild_none fun m own => ?_
  refine quiet_look ?_
  split
  · exact quiet_pure (confinedBuild_some (quiet_look
      (Build.confined_replacingBody _ (starts.body own))))
  · exact Invocation.quiet_refuse _ _ confinedBuild_none

/-- The sanitized parameters are among those of the method. -/
theorem quiet_sanitizedParams {u : SourceUnit} (i : Invocation) (ps : List Key) :
    Quiet u (sanitizedParams i ps) fun ss => ∀ s ∈ ss, s.param ∈ ps := by
  induction ps with
  | nil => exact quiet_pure nofun
  | cons p ps ih =>
    have later : Quiet u (sanitizedParams i ps) fun ss => ∀ s ∈ ss, s.param ∈ p :: ps :=
      quiet_mono ih fun ss among s hs => List.mem_cons_of_mem _ (among s hs)
    refine quiet_look ?_
    split
    · exact later
    · refine quiet_bind (quiet_memberText _ _) fun f _ => ?_
      dsimp only
      split
      · exact quiet_bind (i.quiet_error _) fun _ _ => later
      · refine quiet_bind later fun ss among => quiet_pure fun s hs => ?_
        rcases List.mem_cons.mp hs with rfl | hs
        · exact List.mem_cons_self
        · exact among s hs

theorem confined_doPrivileged : doPrivileged.Confined := by
  refine confined_onAnno fun a starts _ => quiet_onMethod confinedBuild_none fun m own => ?_
  refine quiet_look (quiet_guard confinedBuild_none (quiet_sanitizedParams _ _) fun ss among => ?_)
  refine quiet_pure (confinedBuild_some (quiet_look (Build.confined_ok ?_)))
  refine leads_then (leads_loop (fun s hs _ => ?_) _) fun _ _ => ?_
  · have param := starts.param own (among s hs)
    refine leads_look fun v registry => ?_
    refine leads_then (leads_editing (Edit.leads_rename param)) (fun _ _ => ?_) v registry
    exact leads_then (leads_editing (Edit.leads_makeFinal param)) fun _ _ => leads_pure trivial
  · exact leads_then (leads_editing (Edit.leads_replaceBody (starts.body own))) fun _ _ =>
      leads_pure trivial

theorem confined_doPrivilegedSanitizeWith : doPrivilegedSanitizeWith.Confined := by
  refine confined_onAnno fun a starts _ => quiet_look ?_
  dsimp only
  split
  · exact quiet_bind (Invocation.quiet_error _ _) fun _ _ => quiet_pure confinedBuild_none
  · exact quiet_pure confinedBuild_none

theorem confined_singleton : Handler.singleton.Confined := by
  refine confined_onAnno fun {r u i t m?} a starts _ => quiet_look ?_
  rw [starts.type_eq]
  dsimp only
  split
  · exact i.quiet_refuse _ confinedBuild_none
  split
  · exact i.quiet_refuse _ confinedBuild_none
  split
  · exact i.quiet_refuse _ confinedBuild_none
  refine quiet_pure (confinedBuild_some (quiet_look (Build.confined_ok ?_)))
  refine leads_then (leads_editing (Edit.leads_makeEnum ?_)) fun _ _ => ?_
  · rintro c hc
    rw [List.mem_singleton.mp hc]
    exact ⟨_, _, _, rfl⟩
  refine leads_then (leads_loop (fun c hc _ => ?_) _) fun _ _ => ?_
  · refine leads_look fun v registry => ?_
    refine leadsFrom_bind (leadsFrom_editing (Edit.leads_setModifiers ?_ ?_)) fun _ _ =>
      leads_pure trivial
    · rw [registry]
      exact starts.method (List.mem_of_mem_filter hc)
    · rintro b (rfl | rfl) <;> rfl
  refine leads_then (leads_loop (fun g hg _ => ?_) _) fun _ _ => leads_pure trivial
  refine leads_then (leads_injectMethod fun s => ?_) fun _ _ => leads_pure trivial
  split at hg
  · rw [List.mem_singleton.mp hg]
    exact Code.isMethod_of_lower
  · exact absurd hg List.not_mem_nil

theorem confined_entrypoints (name : String) (es : List Entrypoint) :
    (entrypoints name es).Confined := by
  intro r u i t m? starts
  refine quiet_look ?_
  dsimp only
  split
  · exact i.quiet_refuse _ confinedBuild_none
  refine quiet_pure (confinedBuild_some (quiet_look (Build.confined_ok ?_)))
  refine leads_then (leads_loop (fun e _ _ => ?_) _) fun _ _ => leads_pure trivial
  exact leads_then (leads_injectMethod fun s => Code.isMethod_of_lower) fun _ _ => leads_pure trivial

/-- The fields of a builder are fields of the type. -/
theorem key_of_builderFields {u : SourceUnit} {t : Key} {o : BuilderOptions} {f : BuilderField}
    (hf : f ∈ builderFields u t o) : f.key ∈ u.fields t := by
  obtain ⟨k, hk, made⟩ := List.mem_filterMap.mp hf
  dsimp only at made
  split at made
  · exact nomatch made
  · obtain ⟨role, -, rfl⟩ := Option.map_eq_some_iff.mp made
    exact hk

/-- The interfaces of a builder are interfaces. -/
theorem stage_of_interfaces {o : BuilderOptions} {typeName : String} {fields : List BuilderField}
    {d : Code} (hd : d ∈ (builderParts o typeName fields).interfaces) :
    ∃ name methods, d = stageInterface name methods := by
  change d ∈ List.zipWith stageInterface _ _ at hd
  rw [← List.map_uncurry_zip_eq_zipWith] at hd
  obtain ⟨x, -, rfl⟩ := List.mem_map.mp hd
  exact ⟨_, _, rfl⟩

theorem confined_builder : builder.Confined := by
  refine confined_onAnno fun {r u i t m?} a starts _ => quiet_look ?_
  rw [starts.type_eq]
  dsimp only
  split
  · exact i.quiet_refuse _ confinedBuild_none
  split
  · exact i.quiet_stop _ confinedBuild_none
  split
  · exact i.quiet_stop _ confinedBuild_none
  split
  · exact quiet_bind (i.quiet_warn _) fun _ _ => quiet_pure confinedBuild_none
  refine quiet_pure (confinedBuild_some (quiet_look (Build.confined_ok ?_)))
  refine leads_then (leads_loop (fun f hf _ => ?_) _) fun _ _ => ?_
  · split
    · have own := key_of_builderFields hf
      exact leads_then (leads_editing (Edit.leads_removeInitializer (starts.reset rfl own)))
        fun _ _ => leads_pure trivial
    · exact leads_pure trivial
  refine leads_then (leads_injectMethod fun s => Code.isMethod_of_lower) fun _ _ => ?_
  refine leads_then (leads_injectMethod fun s => Code.constructor_of_lower) fun _ _ => ?_
  refine leads_then (leads_loop (fun d hd _ => ?_) _) fun _ _ => ?_
  · obtain ⟨name, methods, rfl⟩ := stage_of_interfaces hd
    exact leads_then (leads_editing (Edit.leads_injectMember Code.fieldless_class)) fun _ _ =>
      leads_pure trivial
  exact leads_then (leads_editing (Edit.leads_injectMember Code.fieldless_class)) fun _ _ =>
    leads_pure trivial

theorem confined_builderExtension : builderExtension.Confined := by
  refine confined_onAnno fun a starts _ => quiet_onMethod confinedBuild_none fun m own => ?_
  refine quiet_look ?_
  dsimp only
  split
  · exact Invocation.quiet_stop _ _ confinedBuild_none
  split
  · exact Invocation.quiet_stop _ _ confinedBuild_none
  split
  · exact quiet_bind (Invocation.quiet_warn _ _) fun _ _ => quiet_pure confinedBuild_none
  split
  · exact Invocation.quiet_stop _ _ confinedBuild_none
  · exact Invocation.quiet_stop _ _ confinedBuild_none
  refine quiet_pure (confinedBuild_some (quiet_look (Build.confined_ok ?_)))
  refine leads_then (leads_injectMethod fun s => Code.isMethod_of_lower) fun _ _ => ?_
  refine leads_then (leads_injectMethod fun s => Code.isMethod_of_lower) fun _ _ => ?_
  exact leads_then (leads_editing (Edit.leads_removeMethod m)) fun _ _ => leads_pure trivial

end Handler

end Weaver
