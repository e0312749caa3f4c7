import Weaver.Proofs.Code.Making
import Weaver.Proofs.Code.Wrapped
/-!
What a maker answers.

A call begins at the place of the source and leaves the methods and classes that it has entered, so
that a maker after any calls is ready for the next one as a new maker is. What it answers is what the
code is lowered to in the scope that it was made for, and there the trees consist of nodes that are
marked as generated at the source and of the fragments as they were.
-/
set_option autoImplicit false

namespace Weaver.Code

open Weaver.Source (Position)
open Weaver.Syntax (Tree Mark Flags)

/-- What the maker does leaves it ready for the same. What comes of it is what comes of lowering if
copies are faithful, which is the case under the condition `P`. -/
def Serves {α : Type} (P : Prop) (s : Scope) (x : Making α) (y : Except Abort α) : Prop :=
  ∀ m : Maker, Suits s m.ready → (x.run m).2.ready = m.ready ∧ (P → (x.run m).1 = y)

namespace Serves

variable {α β : Type} {P : Prop} {s : Scope} {x : Making α} {y : Except Abort α}

theorem pure (a : α) : Serves P s (Pure.pure a) (Pure.pure a) :=
  fun _ _ => ⟨rfl, fun _ => rfl⟩

theorem bind {f : α → Making β} {h : α → Except Abort β} (first : Serves P s x y)
    (more : ∀ a, Serves P s (f a) (h a)) : Serves P s (x >>= f) (y >>= h) := by
  intro m suits
  obtain ⟨kept, same⟩ := first m suits
  rcases done : x.run m with ⟨_ | a, m'⟩
  · rw [done] at kept same
    rw [run_error done]
    exact ⟨kept, fun holds => by rw [← same holds]; rfl⟩
  · rw [done] at kept same
    rw [run_ok done]
    change m'.ready = m.ready at kept
    rw [← kept] at suits
    obtain ⟨kept', same'⟩ := more a m' suits
    refine ⟨kept'.trans kept, fun holds => ?_⟩
    rw [← same holds]
    exact same' holds

/-- What is made is marked, which makes it what the code is lowered to. -/
theorem generated {x : Making Tree} {y : Except Abort Tree}
    (made : Tracks P s (walk .attributing) x y) : Serves P s (generated x) y := by
  intro m suits
  obtain ⟨kept, same⟩ := made m.ready suits
  have ready := congrArg Maker.ready kept
  exact ⟨ready, same⟩

theorem inClass {n : String} (h : Serves P { s with owner := some n } x y) :
    Serves P s (inClass n x) y := by
  intro m suits
  have within : Suits { s with owner := some n } { m with owners := n :: m.owners }.ready :=
    ⟨suits.mark, suits.result, rfl⟩
  obtain ⟨kept, same⟩ := h { m with owners := n :: m.owners } within
  exact ⟨congrArg (fun m => { m with owners := m.owners.tail }) kept, same⟩

end Serves

section Calls

variable (P : Prop) (q : Position) (r : Option Tree) (o : Option String)

/-- Statements are generated one after the other. -/
theorem serves_statements (cs : List Code) (whole : Copies P (visitAll (fun _ => false) cs)) :
    Serves P (.here q r o) (Call.generatedAll cs) (lowerAll (.here q r o) .statement cs) := by
  induction cs with
  | nil => exact .pure []
  | cons c cs ih =>
    exact (Serves.generated (tracks_build P q r o .statement c whole.left)).bind fun t =>
      (ih whole.right).bind fun ts => .pure (t :: ts)

/-- **One call.** The maker is ready again after it, and has answered what lowering says. -/
theorem serves_call (call : Call) (whole : Copies P (visitAll (fun _ => false) call.code)) :
    Serves P (.here q r o) call.answer (call.lowered (.here q r o)) := by
  cases call with
  | tree c =>
    exact (Serves.generated (tracks_build P q r o .value c whole.left)).bind fun t => .pure [t]
  | statements cs => exact serves_statements P q r o cs whole
  | constant owner n ps as =>
    exact .inClass ((Serves.generated
      (tracks_build P q r (some owner) .value (enumConstant n ps as) whole.left)).bind
        fun t => .pure [t])

end Calls

variable (m : Maker) (call : Call)

/-- A call leaves the maker ready for the same. -/
theorem ready_next : (m.next call).ready = m.ready :=
  (serves_call False m.source m.results.head? m.owners.head? call nofun m ⟨rfl, fun _ => rfl, rfl⟩).1

/-- So do all calls that came before. -/
theorem ready_after (history : List Call) : (m.after history).ready = m.ready := by
  induction history generalizing m with
  | nil => rfl
  | cons call history ih => exact (ih (m.next call)).trans (ready_next m call)

/-- The place at which the maker was left does not matter. -/
theorem reply_ready : m.ready.reply call = m.reply call := by
  cases call with
  | statements cs => cases cs <;> rfl
  | _ => rfl

/-- A maker answers as if it had never been used. -/
theorem reply_after (history : List Call) : (m.after history).reply call = m.reply call := by
  rw [← reply_ready, ready_after, reply_ready]

/-! ## Attribution -/

/-- A new maker stands in the scope that it is made for. -/
theorem suits_of (source : Position) (className : String) (host : Tree) :
    Suits (.of ⟨source, true, 0⟩ className host) (Maker.of source className host).ready := by
  refine ⟨rfl, fun k => ?_, ?_⟩
  · change defaultReturn k (resultOf host).toList.head? = defaultReturn k (resultOf host)
    rw [Option.head?_toList]
  · change (if className.isEmpty then [] else [className]).head? =
      if className.isEmpty then none else some className
    split <;> rfl

end Weaver.Code
