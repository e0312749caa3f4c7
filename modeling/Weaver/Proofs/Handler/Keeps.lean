import Weaver.Handler.Standard
import Weaver.Proofs.Processing.Run
import Weaver.Proofs.SourceUnit.Trim
/-!
No handler loses an element.

Elements are registered anew while handlers run, but what was registered stays: under its key there
is an element of the same kind with the same declaration. Edits leave the registry alone
(`Edit.Frames`), apart from registering an element anew. A handler hands out what it does later as
values, so keeping the elements (`Weave.Keeps`) speaks of the value that results as well.
-/
set_option autoImplicit false

namespace Weaver

open Weaver.Syntax (Tree Flags)

/-! ## Edits -/

namespace Edit

section Rules

variable {α β : Type}

end Rules

end Edit

/-! ## Work -/

/-- Work that keeps all elements, and whose result has a property if it does not break off. -/
def Weave.Keeps {α : Type} (w : Weave α) (P : α → Prop) : Prop :=
  ∀ b : Bench, b.unit.registry.Grows (w b).2.unit.registry ∧ ∀ a, (w b).1 = .ok a → P a

namespace Weave

section Rules

variable {α β : Type} {P : α → Prop} {Q : β → Prop}

theorem keeps_pure {a : α} (h : P a) : Keeps (pure a) P := by
  refine fun b => ⟨.refl _, fun a' same => ?_⟩
  cases same
  exact h

theorem keeps_throw (x : Abort) : Keeps (throw x) P :=
  fun _ => ⟨.refl _, fun _ same => by cases same⟩

theorem keeps_get : Keeps (get : Weave Bench) fun _ => True :=
  fun _ => ⟨.refl _, fun _ _ => trivial⟩

end Rules

end Weave

open Weave

namespace Invocation

end Invocation

/-- Splicing that keeps all elements. -/
def Splice.Tame (s : Splice) : Prop := Keeps s fun _ => True

/-- Building that keeps all elements, as does what it has built. -/
def Build.Tame (w : Build) : Prop := Keeps w fun r => ∀ s, r = .ok s → Splice.Tame s

/-- What a check hands out keeps all elements. -/
def TameBuild (r : Option Build) : Prop := ∀ w, r = some w → Build.Tame w

/-- A handler that keeps all elements in all phases. -/
def Handler.Tame (h : Handler) : Prop := ∀ i, Keeps (h.check i) TameBuild

namespace Handler

end Handler

/-! ## Runs -/

/-- What was done kept all elements, and its result has the property. -/
theorem Weave.Keeps.after {α : Type} {w : Weave α} {P : α → Prop} {b b' : Bench}
    {r : Except Abort α} (h : Keeps w P) (done : w b = (r, b')) :
    b.unit.registry.Grows b'.unit.registry ∧ ∀ a, r = .ok a → P a := by
  have result := h b
  rw [done] at result
  exact result

theorem grows_rebuilt (keys : List Key) (b : Bench) :
    b.unit.registry.Grows (keys.foldl Bench.rebuilt b).unit.registry := by
  induction keys generalizing b with
  | nil => exact .refl _
  | cons k keys ih => exact (b.unit.registry.grows_rebuild k _).trans (ih (b.rebuilt k))

/-- A run of such a handler keeps all elements, however it ends. -/
theorem Handler.Ran.grows {h : Handler} {i : Invocation} {b b' : Bench} {r : Except Abort Unit}
    (ran : h.Ran i b r b') (tame : h.Tame) : b.unit.registry.Grows b'.unit.registry := by
  have checking := tame i
  cases ran with
  | stopped check | brokenCheck check => exact (checking.after check).1
  | failed check built | brokenBuild check built =>
    obtain ⟨grown, builds⟩ := checking.after check
    exact grown.trans ((builds _ rfl _ rfl).after built).1
  | brokenSplice check built changed =>
    obtain ⟨grown, builds⟩ := checking.after check
    obtain ⟨grown', splices⟩ := (builds _ rfl _ rfl).after built
    exact (grown.trans grown').trans ((splices _ rfl _ rfl).after changed).1
  | spliced check built changed =>
    obtain ⟨grown, builds⟩ := checking.after check
    obtain ⟨grown', splices⟩ := (builds _ rfl _ rfl).after built
    have grown'' := ((splices _ rfl _ rfl).after changed).1
    exact ((grown.trans grown').trans grown'').trans (grows_rebuilt _ _)

/-- So do runs that are performed one after the other. -/
theorem Performed.grows {runs : List (Handler × Invocation)} {b b' : Bench}
    {r : Except Abort Unit} (performed : Performed runs b r b')
    (tame : ∀ run ∈ runs, run.1.Tame) : b.unit.registry.Grows b'.unit.registry := by
  induction performed with
  | none => exact .refl _
  | next ran _ ih =>
    have first := ran.grows (tame _ List.mem_cons_self)
    exact first.trans (ih fun run member => tame run (List.mem_cons_of_mem _ member))
  | broken ran => exact ran.grows (tame _ List.mem_cons_self)

end Weaver
