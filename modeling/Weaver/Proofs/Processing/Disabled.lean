import Mathlib.Data.List.TakeWhile
import Weaver.Proofs.Processing.Course
/-!
Handlers that are disabled.

What would trigger a handler that is disabled is not found. So to disable a handler takes away its runs
and the faults of its annotations, and nothing else: all other runs are asked for as before, and in the
same order (`SourceUnit.found_without`). This says what runs, not what a run reads: a handler that looks
at annotations of other handlers sees those of disabled ones too.
-/
set_option autoImplicit false

namespace Weaver

/-! ## Sorting what is left of a list -/

section Sorting

variable {α : Type} {le : α → α → Bool}

/-- What stands before an element that is inserted into a sorted list is what comes before it. -/
theorem takeWhile_of_inserted {a : α} {l₁ l₂ : List α} (before : ∀ b ∈ l₁, (!le a b) = true)
    (after : ∀ b ∈ l₂, le a b = true) : (l₁ ++ l₂).takeWhile (fun b => !le a b) = l₁ := by
  rw [List.takeWhile_append_of_pos before]
  cases l₂ with
  | nil => exact List.append_nil _
  | cons b l₂ =>
    rw [List.takeWhile_cons_of_neg (by rw [after b List.mem_cons_self]; exact nofun),
      List.append_nil]

/-- Sorting keeps the order of what is left of a list. -/
theorem mergeSort_filter (trans : ∀ a b c, le a b = true → le b c = true → le a c = true)
    (total : ∀ a b, (le a b || le b a) = true) (p : α → Bool) (l : List α) :
    (l.filter p).mergeSort le = (l.mergeSort le).filter p := by
  -- where an element goes is told by what comes before it
  have split {a : α} {l l₁ l₂ : List α} (inserted : (a :: l).mergeSort le = l₁ ++ a :: l₂)
      (before : ∀ b ∈ l₁, (!le a b) = true) : ∀ b ∈ l₂, le a b = true := by
    have sorted := List.pairwise_mergeSort trans total (a :: l)
    rw [inserted] at sorted
    exact fun b => List.rel_of_pairwise_cons (List.pairwise_append.mp sorted).2.1
  induction l with
  | nil => rw [List.filter_nil, List.mergeSort_nil, List.filter_nil]
  | cons a l ih =>
    obtain ⟨l₁, l₂, whole, rest, before⟩ := List.mergeSort_cons trans total a l
    rw [rest, List.filter_append] at ih
    rw [whole, List.filter_append]
    cases keeps : p a with
    | false =>
      rw [List.filter_cons_of_neg (by rw [keeps]; exact nofun),
        List.filter_cons_of_neg (by rw [keeps]; exact nofun), ih]
    | true =>
      rw [List.filter_cons_of_pos keeps, List.filter_cons_of_pos keeps]
      obtain ⟨k₁, k₂, whole', rest', before'⟩ := List.mergeSort_cons trans total a (l.filter p)
      rw [whole']
      have same : k₁ ++ k₂ = l₁.filter p ++ l₂.filter p := rest'.symm.trans ih
      have first : k₁ = l₁.filter p := by
        rw [← takeWhile_of_inserted before' (split whole' before'), same]
        exact takeWhile_of_inserted (fun b hb => before b (List.mem_of_mem_filter hb))
          fun b hb => split whole before b (List.mem_of_mem_filter hb)
      rw [first, List.append_cancel_left_eq] at same
      rw [first, same]

end Sorting

/-! ## What is found -/

/-- A configuration that disables one more handler. -/
def Config.without (c : Config) (h : String) : Config := { c with disabled := h :: c.disabled }

section Found

variable (c : Config) (h : String) (hs : List Handler) (u : SourceUnit)

theorem Config.runs_without (name : String) :
    (c.without h).runs name = (!names [h] name && c.runs name) := by
  simp only [runs, without, names, List.any_cons, List.any_nil, Bool.or_false, Bool.not_or,
    Bool.and_assoc]

theorem Config.active_without (t : Trigger) :
    (c.without h).active hs t = (c.active hs t).filter fun g => !names [h] g.name := by
  rw [active, active, List.filter_filter]
  refine List.filter_congr fun g _ => ?_
  rw [runs_without, Bool.and_assoc]

namespace Occurrence

theorem onElement_without (e : Key) : onElement (c.without h) hs u e =
    (onElement c hs u e).filter fun o => !Config.names [h] o.handler.name := by
  rw [onElement, onElement, List.filter_flatMap]
  refine List.flatMap_congr fun a _ => ?_
  rw [List.filter_map, Config.active_without, List.filter_comm]
  rfl

theorem onInterfaces_without (t : Key) : onInterfaces (c.without h) hs u t =
    (onInterfaces c hs u t).filter fun o => !Config.names [h] o.handler.name := by
  rw [onInterfaces, onInterfaces, List.filter_map, Config.active_without, List.filter_comm]
  rfl

theorem onCalls_without (m : Key) : onCalls (c.without h) hs u m =
    (onCalls c hs u m).filter fun o => !Config.names [h] o.handler.name := by
  rw [onCalls, onCalls, List.filter_map, Config.active_without, List.filter_comm]
  rfl

theorem onMethod_without (m : Key) : onMethod (c.without h) hs u m =
    (onMethod c hs u m).filter fun o => !Config.names [h] o.handler.name := by
  rw [onMethod, onMethod, List.filter_append, List.filter_append, List.filter_flatMap,
    onElement_without, onCalls_without]
  rw [List.flatMap_congr fun p _ => onElement_without c h hs u p]

theorem onType_without (t : Key) : onType (c.without h) hs u t =
    (onType c hs u t).filter fun o => !Config.names [h] o.handler.name := by
  rw [onType, onType, List.filter_append, List.filter_append, List.filter_append,
    List.filter_flatMap, List.filter_flatMap, onElement_without, onInterfaces_without]
  rw [List.flatMap_congr fun f _ => onElement_without c h hs u f,
    List.flatMap_congr fun m _ => onMethod_without c h hs u m]

theorem all_without : all (c.without h) hs u =
    (all c hs u).filter fun o => !Config.names [h] o.handler.name := by
  rw [all, all, List.filter_flatMap]
  exact List.flatMap_congr fun t _ => onType_without c h hs u t

end Occurrence

end Found

namespace Occurrence

variable (u : SourceUnit) (os : List Occurrence) (keep : String → Bool)

theorem runs_filter : runs u (os.filter fun o => keep o.handler.name) =
    (runs u os).filter fun run => keep run.1.name := by
  rw [runs, runs, List.filterMap_filter, List.filter_filterMap]
  refine List.filterMap_congr fun o _ => ?_
  rw [run?]
  cases (o.refusal? u).isNone <;> cases keeps : keep o.handler.name <;> simp [Option.filter, keeps]

theorem diagnostics_filter : diagnostics u (os.filter fun o => keep o.handler.name) =
    (diagnostics u os).filter fun d => keep d.handler := by
  rw [diagnostics, diagnostics, List.filterMap_filter, List.filter_filterMap]
  refine List.filterMap_congr fun o _ => ?_
  cases o with
  | anno h e a =>
    have said : diagnostic? u (anno h e a) =
        (refusal? u (anno h e a)).map fun message => ⟨.error, message, u.file, a.pos, h.name⟩ := by
      cases refused : refusal? u (anno h e a) <;> simp [diagnostic?, refused]
    rw [said]
    cases refusal? u (anno h e a) <;> cases keeps : keep h.name <;>
      simp [Option.filter, handler, keeps]
  | interface | call => simp [diagnostic?]

end Occurrence

namespace SourceUnit

/-- **Disabling.** To disable one more handler takes away the runs of that handler and the faults of
its annotations; the other runs and faults stay, in their order. -/
theorem found_without (u : SourceUnit) (config : Config) (h : String) :
    u.schedule (config.without h) =
        (u.schedule config).filter (fun run => !Config.names [h] run.1.name) ∧
      Occurrence.diagnostics u (Occurrence.all (config.without h) Handler.standard u) =
        (Occurrence.diagnostics u (Occurrence.all config Handler.standard u)).filter
          fun d => !Config.names [h] d.handler := by
  have schedule_eq (c : Config) : u.schedule c =
      (Occurrence.runs u (Occurrence.all c Handler.standard u)).mergeSort
        fun a b => a.1.priority ≤ b.1.priority := by
    change (Finding.asked (Finding.all u (c.choose Handler.standard))).mergeSort _ = _
    rw [all_eq, Finding.asked_map]
  rw [schedule_eq, schedule_eq, Occurrence.all_without]
  constructor
  · rw [Occurrence.runs_filter _ _ fun name => !Config.names [h] name]
    refine mergeSort_filter (fun a b c h h' => ?_) (fun a b => ?_) _ _
    · exact decide_eq_true (Int.le_trans (of_decide_eq_true h) (of_decide_eq_true h'))
    · rw [Bool.or_eq_true, decide_eq_true_eq, decide_eq_true_eq]
      exact Int.le_total _ _
  · exact Occurrence.diagnostics_filter _ _ fun name => !Config.names [h] name

end SourceUnit

end Weaver
