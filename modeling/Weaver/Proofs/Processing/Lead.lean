import Weaver.Handler.Basic
import Weaver.Proofs.Processing.Run
import Weaver.Proofs.SourceUnit.Edits
/-!
What work on a unit does if it does not break off.

Checks and builds are quiet: they leave the unit as it is (`Weave.Quiet`). Splicing leads the unit
further in steps under a license (`Weave.Leads`). A handler hands out what it does later as a value,
so both judgements say something of the value that results as well.
-/
set_option autoImplicit false

namespace Weaver

open SourceUnit

namespace Weave

section Rules

variable {α β γ : Type} {P : α → Prop} {Q : β → Prop} {u : SourceUnit}

/-! ## Quiet work -/

/-- Work that leaves a unit as it is, and whose result has a property. -/
def Quiet (u : SourceUnit) (w : Weave α) (P : α → Prop) : Prop :=
  ∀ ⦃b a b'⦄, b.unit = u → w b = (.ok a, b') → b'.unit = u ∧ P a

theorem ok_of_bind {w : Weave α} {f : α → Weave β} {b b' : Bench} {x : β}
    (done : (w >>= f) b = (.ok x, b')) : ∃ a b₁, w b = (.ok a, b₁) ∧ f a b₁ = (.ok x, b') := by
  rcases first : w b with ⟨r, b₁⟩
  cases r with
  | error x => exact nomatch (bind_error first).symm.trans done
  | ok a => exact ⟨a, b₁, rfl, (bind_ok first).symm.trans done⟩

theorem quiet_pure {a : α} (h : P a) : Quiet u (pure a) P := by
  rintro b _ _ same ⟨⟩
  exact ⟨same, h⟩

theorem quiet_throw (x : Abort) : Quiet u (throw x) P := by
  rintro b _ _ - ⟨⟩

theorem quiet_bind {w : Weave α} {f : α → Weave β} (h : Quiet u w P)
    (h' : ∀ a, P a → Quiet u (f a) Q) : Quiet u (w >>= f) Q := by
  intro b x b' same done
  obtain ⟨a, b₁, first, next⟩ := ok_of_bind done
  obtain ⟨same₁, holds⟩ := h same first
  exact h' a holds same₁ next

theorem quiet_mono {w : Weave α} {P' : α → Prop} (h : Quiet u w P) (imp : ∀ a, P a → P' a) :
    Quiet u w P' :=
  fun _ _ _ same done => (h same done).imp_right (imp _)

theorem quiet_modify {f : Bench → Bench} (h : ∀ b, (f b).unit = b.unit) :
    Quiet u (modify f : Weave Unit) fun _ => True := by
  rintro b _ _ same ⟨⟩
  exact ⟨(h b).trans same, trivial⟩

theorem quiet_get : Quiet u (get : Weave Bench) fun b => b.unit = u := by
  rintro b _ _ same ⟨⟩
  exact ⟨same, same⟩

theorem quiet_unit : Quiet u Weave.unit (· = u) := by
  rintro b _ _ same ⟨⟩
  exact ⟨same, same⟩

/-- Work that begins with looking at the unit. -/
theorem quiet_look {f : SourceUnit → Weave α} (h : Quiet u (f u) P) :
    Quiet u (Weave.unit >>= f) P :=
  quiet_bind quiet_unit fun _ same => by rwa [same]

theorem quiet_once (key : String) (e : Key) : Quiet u (once key e) fun _ => True := by
  intro b a b' same done
  have entered : (get : Weave Bench) b = (.ok b, b) := rfl
  unfold once at done
  rw [bind_ok entered] at done
  split at done <;> cases done <;> exact ⟨same, trivial⟩

/-! ## Leading work -/

variable {L : License} {r : Registry} {gs gs' : List Gain}

/-- Work that leaves the registry as it is, takes a unit further in steps, by which types get some
fields, and whose result has a property. -/
def LeadsFrom (L : License) (u : SourceUnit) (gs : List Gain) (w : Weave α) (P : α → Prop) : Prop :=
  ∀ ⦃b a b'⦄, b.unit = u → w b = (.ok a, b') →
    b'.unit.registry = u.registry ∧ Steps L u gs b'.unit ∧ P a

/-- Work that does so with every unit that has some registry. -/
def Leads (L : License) (r : Registry) (gs : List Gain) (w : Weave α) (P : α → Prop) : Prop :=
  ∀ u : SourceUnit, u.registry = r → LeadsFrom L u gs w P

theorem Quiet.leadsFrom {w : Weave α} (h : Quiet u w P) : LeadsFrom L u [] w P := by
  intro b a b' same done
  obtain ⟨same', holds⟩ := h same done
  rw [same']
  exact ⟨rfl, .none u, holds⟩

theorem leads_pure {a : α} (h : P a) : Leads L r [] (pure a) P :=
  fun _ _ => (quiet_pure h).leadsFrom

theorem leads_bind {w : Weave α} {f : α → Weave β} (h : Leads L r gs w P)
    (h' : ∀ a, P a → Leads L r gs' (f a) Q) : Leads L r (gs ++ gs') (w >>= f) Q := by
  intro u registry b x b' same done
  obtain ⟨a, b₁, first, next⟩ := ok_of_bind done
  obtain ⟨registry₁, steps, holds⟩ := h u registry same first
  obtain ⟨registry₂, steps', holds'⟩ := h' a holds _ (registry₁.trans registry) rfl next
  exact ⟨registry₂.trans registry₁, steps.trans steps', holds'⟩

/-- Work after work by which types get no fields. -/
theorem leads_then {w : Weave α} {f : α → Weave β} (h : Leads L r [] w P)
    (h' : ∀ a, P a → Leads L r gs (f a) Q) : Leads L r gs (w >>= f) Q := leads_bind h h'

/-- Work by which types get fields, and after which they get no more. -/
theorem leads_before {w : Weave α} {f : α → Weave β} (h : Leads L r gs w P)
    (h' : ∀ a, P a → Leads L r [] (f a) Q) : Leads L r gs (w >>= f) Q := by
  have both := leads_bind h h'
  rwa [List.append_nil] at both

theorem leads_look {f : SourceUnit → Weave α}
    (h : ∀ u, u.registry = r → LeadsFrom L u gs (f u) P) : Leads L r gs (Weave.unit >>= f) P := by
  intro u registry b x b' same done
  obtain ⟨u', b₁, first, next⟩ := ok_of_bind done
  obtain ⟨same₁, same'⟩ := quiet_unit same first
  subst same'
  exact h u' registry same₁ next

theorem leadsFrom_bind {w : Weave α} {f : α → Weave β} (h : LeadsFrom L u gs w P)
    (h' : ∀ a, P a → Leads L u.registry gs' (f a) Q) : LeadsFrom L u (gs ++ gs') (w >>= f) Q := by
  intro b x b' same done
  obtain ⟨a, b₁, first, next⟩ := ok_of_bind done
  obtain ⟨registry₁, steps, holds⟩ := h same first
  obtain ⟨registry₂, steps', holds'⟩ := h' a holds _ registry₁ rfl next
  exact ⟨registry₂.trans registry₁, steps.trans steps', holds'⟩

theorem leadsFrom_editing {e : Edit α} (h : e.LeadsFrom L u gs) :
    LeadsFrom L u gs (editing e) fun _ => True := by
  intro b a b' same done
  rw [editing_apply, same] at done
  obtain ⟨result, rfl⟩ := Prod.mk.inj done
  obtain ⟨registry, steps⟩ := h a (e u).2 (Prod.ext result rfl)
  exact ⟨registry, steps, trivial⟩

theorem leads_editing {e : Edit α} (h : e.Leads L r gs) :
    Leads L r gs (editing e) fun _ => True :=
  fun u registry => leadsFrom_editing (h u registry)

/-- A loop in each of whose rounds types get some fields. -/
theorem leads_forIn {f : γ → Weave Unit} {gains : γ → List Gain} {cs : List γ}
    (h : ∀ c ∈ cs, Leads L r (gains c) (f c) fun _ => True) :
    Leads L r (cs.flatMap gains) (forIn cs PUnit.unit fun c _ => do f c; return .yield PUnit.unit)
      fun _ => True := by
  rw [forIn_eq_each]
  induction cs with
  | nil => exact leads_pure trivial
  | cons c cs ih =>
    exact leads_bind (h c List.mem_cons_self) fun _ _ =>
      ih fun c hc => h c (List.mem_cons_of_mem _ hc)

/-- A loop by which types get no fields. -/
theorem leads_loop {f : γ → PUnit → Weave (ForInStep PUnit)} {cs : List γ}
    (h : ∀ c ∈ cs, ∀ p, Leads L r [] (f c p) fun _ => True) (p : PUnit) :
    Leads L r [] (forIn cs p f) fun _ => True := by
  induction cs generalizing p with
  | nil => exact leads_pure trivial
  | cons c cs ih =>
    rw [List.forIn_cons]
    refine leads_then (h c List.mem_cons_self p) fun s _ => ?_
    cases s with
    | done p => exact leads_pure trivial
    | yield p => exact ih (fun c hc => h c (List.mem_cons_of_mem _ hc)) p

end Rules

end Weave

open Weave

/-! ## What checks do -/

namespace Invocation

variable {α : Type} {u : SourceUnit} {P : Option α → Prop}

theorem quiet_error (i : Invocation) (m : String) : Quiet u (i.error m) fun _ => True :=
  quiet_bind (quiet_modify fun _ => rfl) fun _ _ => quiet_look (quiet_modify fun _ => rfl)

theorem quiet_warn (i : Invocation) (m : String) : Quiet u (i.warn m) fun _ => True :=
  quiet_look (quiet_modify fun _ => rfl)

theorem quiet_sound : Quiet u sound fun _ => True :=
  quiet_bind quiet_get fun _ _ => quiet_pure trivial

theorem quiet_stop (i : Invocation) (m : String) (h : P none) : Quiet u (i.stop m) P :=
  quiet_bind (i.quiet_error m) fun _ _ => quiet_pure h

theorem quiet_refuse (i : Invocation) (c : Complaint) (h : P none) : Quiet u (i.refuse c) P :=
  quiet_bind (i.quiet_error _) fun _ _ => quiet_pure h

/-- The method of a run is that in which its element stands. -/
theorem quiet_concreteMethod (i : Invocation) :
    Quiet u i.concreteMethod fun m? => ∀ m, m? = some m → i.method? u = some m := by
  refine quiet_look ?_
  split
  · exact i.quiet_refuse _ nofun
  · next m own =>
    split
    · exact i.quiet_refuse _ nofun
    · refine quiet_pure ?_
      rintro _ ⟨⟩
      exact own

end Invocation

theorem quiet_memberText {u : SourceUnit} (a : AnnoUse) (m : String) :
    Quiet u (memberText a m) fun s => a.text? m = some s := by
  unfold memberText
  split
  · next s read => exact quiet_pure read
  · exact quiet_throw _

end Weaver
