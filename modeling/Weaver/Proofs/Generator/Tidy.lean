import Weaver.Proofs.Generator.Lowering
import Weaver.Proofs.Generator.Reroute
/-!
What a compilation keeps in order.

Whatever is compiled, no state but the current one is empty, nothing stands behind an operation that
ends its state, and every label at which an operation is aimed is marked as used. A label that is
used and has no state yet is pending. Compiling a statement leaves no label of its own pending, only
the end of the body and the two labels of the loop around, which are opened by others. So nothing is
pending when the end of the body has been opened, whatever was compiled.
-/
set_option autoImplicit false

namespace Weaver.Generator

namespace Operation

/-- The labels to which the operation jumps. -/
def targets : Operation → List Label
  | stmt _ => []
  | kept _ s loop => (waysOut .nothing s).filterMap (leaveLabel loop)
  | jump l | branch _ l | yield _ l => [l]

/-- A statement that is kept was found to be without a fault. -/
def Sound : Operation → Prop
  | kept construct s loop => ∃ t r, t.loop.isSome = loop.isSome ∧ keepStatement t construct s = .ok r
  | _ => True

end Operation

namespace Compiler

/-- The label is used and has no state. -/
def Pending (c : Compiler) (l : Label) : Prop := c.isUsed l = true ∧ c.opening l = none

/-- The operations and labels are in order. -/
structure Tidy (c : Compiler) : Prop where
  /-- Only the current state can be empty. -/
  filled : ∀ ops ∈ c.complete, ops ≠ []
  /-- In every state, only the last operation can end it. -/
  sealed : ∀ ops ∈ c.states, ∀ o ∈ ops.dropLast, o.ends = false
  aimed : ∀ o ∈ c.ops, ∀ l ∈ o.targets, c.isUsed l = true
  sound : ∀ o ∈ c.ops, o.Sound
  placed : ∀ l i, c.opening l = some i → i < c.states.length

variable {c c' : Compiler} {l : Label} {o : Operation}

theorem mem_states {ops : List Operation} : ops ∈ c.states ↔ ops ∈ c.complete ∨ ops = c.current := by
  rw [states, List.mem_append, List.mem_singleton]

theorem isUsed_labelled (k : Nat) : c.labelled.isUsed k = c.isUsed k := by
  by_cases hk : k < c.labels.length
  · rw [isUsed, labelled, List.getElem?_append_left hk]
    rfl
  · rw [isUsed, isUsed, labelled, List.getElem?_append_right (Nat.le_of_not_lt hk),
      List.getElem?_eq_none (Nat.le_of_not_lt hk), List.getElem?_singleton]
    split <;> rfl

theorem isUsed_aimed_imp {k : Nat} (h : (c.aimed l).isUsed k = true) : c.isUsed k = true ∨ k = l := by
  rw [aimed, isUsed_relabelled] at h
  split at h
  · rename_i hk
    exact .inr hk.symm
  · exact .inl h

theorem isUsed_opened (k : Nat) : (c.opened l).isUsed k = c.isUsed k := by
  rw [opened, isUsed_relabelled, labels_cutFilled]
  have same : c.cutFilled.isUsed k = c.isUsed k := by rw [isUsed, labels_cutFilled, isUsed]
  split
  · rfl
  · exact same

theorem isUsed_extended (k : Nat) : (c.extended o).isUsed k = c.isUsed k := by
  rw [isUsed, show (c.extended o).labels = c.labels from labels_cutEnded, isUsed]

theorem length_states_cutFilled : c.states.length ≤ c.cutFilled.states.length := by
  unfold cutFilled
  split
  · exact Nat.le_refl _
  · simp [states, cut]

/-! ### The states of a longer compilation -/

/-- A state is completed before a label is placed, if it is not empty. -/
theorem mem_complete_cutFilled {ops : List Operation} (h : ops ∈ c.cutFilled.complete) :
    ops ∈ c.complete ∨ ops = c.current ∧ c.current ≠ [] := by
  unfold cutFilled at h
  split at h
  · exact .inl h
  · rename_i hne
    obtain h | h := List.mem_append.mp h
    · exact .inl h
    · exact .inr ⟨List.mem_singleton.mp h, fun he => hne (List.isEmpty_iff.mpr he)⟩

theorem complete_added : (c.added o).complete = c.cutEnded.complete := by
  cases o <;> rfl

theorem current_added : (c.added o).current = c.cutEnded.current ++ [o] := by
  cases o <;> rfl

theorem length_states_added : c.states.length ≤ (c.added o).states.length := by
  have h := (complete_cutEnded (c := c)).length_le
  simp only [states, complete_added, List.length_append, List.length_singleton]
  omega

/-- A state is completed before an operation is added, if it is ended. -/
theorem mem_complete_cutEnded {ops : List Operation} (h : ops ∈ c.cutEnded.complete) :
    ops ∈ c.complete ∨ ops = c.current ∧ c.ended = true := by
  unfold cutEnded at h
  split at h
  · rename_i he
    obtain h | h := List.mem_append.mp h
    · exact .inl h
    · exact .inr ⟨List.mem_singleton.mp h, he⟩
  · exact .inl h

theorem ne_nil_of_ended (h : c.ended = true) : c.current ≠ [] := by
  intro hc
  rw [ended, hc] at h
  cases h

/-- An operation is added where no operation before it ends the state. -/
theorem Tidy.ends_of_mem_cutEnded (h : c.Tidy) (ho : o ∈ c.cutEnded.current) : o.ends = false := by
  unfold cutEnded at ho
  split at ho
  · cases ho
  · rename_i he
    have hne : c.current ≠ [] := List.ne_nil_of_mem ho
    rw [← List.dropLast_concat_getLast hne, List.mem_append, List.mem_singleton] at ho
    obtain ho | rfl := ho
    · exact h.sealed c.current (mem_states.mpr (.inr rfl)) o ho
    · rw [ended, List.getLast?_eq_some_getLast hne, Option.any_some] at he
      exact Bool.eq_false_iff.mpr he

/-! ### Pending labels -/

theorem not_pending_opened : ¬ (c.opened l).Pending l := by
  rintro ⟨hu, ho⟩
  rw [isUsed_opened] at hu
  rw [opening_opened, if_pos ⟨rfl, lt_of_isUsed hu⟩] at ho
  cases ho

theorem not_pending_openedIfUsed : ¬ (c.openedIfUsed l).Pending l := by
  unfold openedIfUsed
  split
  · exact not_pending_opened
  · rename_i hu
    exact fun h => hu h.1

end Compiler

/-! ## Steps of a compilation -/

/-- The second compilation is as tidy as the first one, and of the labels that were not pending, only
those of the list can be. An opened label stays opened. -/
structure Tidies (around : List Label) (c c' : Compiler) : Prop where
  count : c.labels.length ≤ c'.labels.length
  opened : ∀ l, (c.opening l).isSome = true → (c'.opening l).isSome = true
  pending : ∀ l, c'.Pending l → c.Pending l ∨ l ∈ around
  tidy : c.Tidy → c'.Tidy

namespace Tidies

open Compiler

variable {around around' : List Label} {c c' c'' : Compiler} {l : Nat} {o : Operation}

theorem refl (c : Compiler) : Tidies around c c :=
  ⟨Nat.le_refl _, fun _ => id, fun _ => .inl, id⟩

theorem trans (h : Tidies around c c') (h' : Tidies around c' c'') : Tidies around c c'' := by
  refine ⟨Nat.le_trans h.count h'.count, fun l hl => h'.opened l (h.opened l hl), fun l hl => ?_,
    fun ht => h'.tidy (h.tidy ht)⟩
  obtain hl | hl := h'.pending l hl
  · exact h.pending l hl
  · exact .inr hl

theorem mono (h : Tidies around c c') (ha : ∀ l ∈ around, l ∈ around') : Tidies around' c c' :=
  ⟨h.count, h.opened, fun l hl => (h.pending l hl).imp_right (ha l), h.tidy⟩

/-- A label of its own that is not pending in the end. -/
theorem close (h : Tidies (l :: around) c c') (hl : ¬ c'.Pending l) : Tidies around c c' := by
  refine ⟨h.count, h.opened, fun k hk => ?_, h.tidy⟩
  obtain hp | hm := h.pending k hk
  · exact .inl hp
  · obtain rfl | hm := List.mem_cons.mp hm
    · exact absurd hk hl
    · exact .inr hm

/-- A label that was opened before is not pending. -/
theorem not_pending (h : Tidies around (c.opened l) c') (hl : l < c.labels.length) :
    ¬ c'.Pending l := by
  rintro ⟨-, ho⟩
  have hs : ((c.opened l).opening l).isSome = true := by
    rw [opening_opened, if_pos ⟨rfl, hl⟩]
    rfl
  have := h.opened l hs
  rw [ho] at this
  cases this

/-- The operations are the same, and of each label what is known. -/
theorem of_eq (hc : c.labels.length ≤ c'.labels.length) (hs : c'.states = c.states)
    (hf : ∀ ops ∈ c'.complete, ops ∈ c.complete) (ho : ∀ k, c'.opening k = c.opening k)
    (hi : ∀ k, c.isUsed k = true → c'.isUsed k = true)
    (hu : ∀ k, c'.isUsed k = true → c.isUsed k = true ∨ k ∈ around) : Tidies around c c' := by
  have ops : c'.ops = c.ops := by rw [ops_eq_flatten, hs, ops_eq_flatten]
  refine ⟨hc, fun k hk => (ho k).symm ▸ hk, fun k ⟨hk, hn⟩ => ?_, fun h => ⟨?_, ?_, ?_, ?_, ?_⟩⟩
  · exact (hu k hk).imp_left fun hk => ⟨hk, ho k ▸ hn⟩
  · exact fun ops hm => h.filled ops (hf ops hm)
  · rw [hs]
    exact h.sealed
  · intro o hm l hl
    exact hi l (h.aimed o (ops ▸ hm) l hl)
  · rw [ops]
    exact h.sound
  · intro k i hk
    rw [hs]
    exact h.placed k i (ho k ▸ hk)

/-- Only operations and labels count. -/
theorem same (hc : c'.complete = c.complete) (hs : c'.current = c.current)
    (hl : c'.labels = c.labels) : Tidies around c c' := by
  have used : ∀ k, c'.isUsed k = c.isUsed k := fun k => by rw [isUsed, hl, isUsed]
  refine .of_eq (Nat.le_of_eq (by rw [hl])) (by rw [states, hc, hs, states]) (by rw [hc]; simp)
    (fun k => by rw [opening, hl, opening]) (fun k hk => ?_) fun k hk => .inl ?_
  · rw [used, hk]
  · rw [← used, hk]

theorem labelled : Tidies around c c.labelled := by
  refine .of_eq (by rw [count_labelled]; omega) rfl (fun _ => id) opening_labelled
    (fun k hk => ?_) fun k hk => .inl ?_
  · rw [isUsed_labelled, hk]
  · rw [← isUsed_labelled, hk]

/-- A label is used. -/
theorem aimed (ha : l ∈ around) : Tidies around c (c.aimed l) := by
  refine .of_eq (grows_aimed (n := 0)).count rfl (fun _ => id) opening_aimed
    (grows_aimed (n := 0)).used fun k hk => ?_
  obtain hk | rfl := isUsed_aimed_imp hk
  · exact .inl hk
  · exact .inr ha

theorem aimedAll (ls : List Label) (c : Compiler) (ha : ∀ l ∈ ls, l ∈ around) :
    Tidies around c (ls.foldl Compiler.aimed c) := by
  induction ls generalizing c with
  | nil => exact .refl c
  | cons l ls ih =>
    obtain ⟨hl, hls⟩ := List.forall_mem_cons.mp ha
    exact (Tidies.aimed hl).trans (ih (c.aimed l) hls)

/-- A label is placed. The state that is completed for it is not empty. -/
theorem place : Tidies around c (c.opened l) := by
  refine ⟨Nat.le_of_eq count_opened.symm, ?_, ?_, fun h => ⟨?_, ?_, ?_, ?_, ?_⟩⟩
  · intro k hk
    rw [opening_opened]
    split
    · rfl
    · exact hk
  · intro k ⟨hu, ho⟩
    rw [isUsed_opened] at hu
    rw [opening_opened] at ho
    split at ho
    · cases ho
    · exact .inl ⟨hu, ho⟩
  · intro ops hm
    obtain hm | ⟨rfl, hne⟩ := mem_complete_cutFilled hm
    · exact h.filled ops hm
    · exact hne
  · intro ops hm o ho
    obtain hm | rfl := mem_states.mp hm
    · refine h.sealed ops ?_ o ho
      rw [mem_states]
      exact (mem_complete_cutFilled hm).imp_right And.left
    · have hc : (c.opened l).current = [] := current_cutFilled
      rw [hc] at ho
      cases ho
  · intro o ho k hk
    rw [ops_opened] at ho
    rw [isUsed_opened]
    exact h.aimed o ho k hk
  · rw [ops_opened]
    exact h.sound
  · intro k i hi
    rw [opening_opened] at hi
    split at hi
    · cases hi
      change _ < c.cutFilled.states.length
      rw [states, List.length_append]
      exact Nat.lt_add_one _
    · exact Nat.lt_of_lt_of_le (h.placed k i hi) length_states_cutFilled

theorem placeIfUsed : Tidies around c (c.openedIfUsed l) := by
  unfold Compiler.openedIfUsed
  split
  · exact .place
  · exact .refl c

/-- An operation is added. A state that is ended is completed before. -/
theorem added (hused : c.Tidy → ∀ l ∈ o.targets, (c.added o).isUsed l = true) (hs : o.Sound)
    (hp : ∀ l, (c.added o).isUsed l = true → c.isUsed l = true ∨ l ∈ around) :
    Tidies around c (c.added o) := by
  refine ⟨Nat.le_of_eq count_added.symm, fun k hk => (opening_added k).symm ▸ hk, ?_,
    fun h => ⟨?_, ?_, ?_, ?_, ?_⟩⟩
  · intro k ⟨hu, ho⟩
    exact (hp k hu).imp_left fun hu => ⟨hu, opening_added k ▸ ho⟩
  · rw [complete_added]
    intro ops hm
    obtain hm | ⟨rfl, he⟩ := mem_complete_cutEnded hm
    · exact h.filled ops hm
    · exact ne_nil_of_ended he
  · intro ops hm x hx
    rw [mem_states, complete_added, current_added] at hm
    obtain hm | rfl := hm
    · refine h.sealed ops ?_ x hx
      rw [mem_states]
      exact (mem_complete_cutEnded hm).imp_right And.left
    · rw [List.dropLast_concat] at hx
      exact h.ends_of_mem_cutEnded hx
  · intro x hx k hk
    rw [ops_added, List.mem_append, List.mem_singleton] at hx
    obtain hx | rfl := hx
    · exact (grows_added (n := 0)).used k (h.aimed x hx k hk)
    · exact hused h k hk
  · intro x hx
    rw [ops_added, List.mem_append, List.mem_singleton] at hx
    obtain hx | rfl := hx
    · exact h.sound x hx
    · exact hs
  · intro k i hi
    rw [opening_added] at hi
    exact Nat.lt_of_lt_of_le (h.placed k i hi) length_states_added

/-- A statement is added. -/
theorem stmt {s : Code} : Tidies around c (c.added (.stmt s)) :=
  .added (fun _ => nofun) trivial fun l hu => .inl (isUsed_extended l ▸ hu)

/-- An operation that jumps to one label is added. -/
theorem aims (ho : c.added o = (c.extended o).aimed l) (ht : o.targets = [l]) (hs : o.Sound)
    (hl : l < c.labels.length) (ha : l ∈ around) : Tidies around c (c.added o) := by
  refine .added (fun _ => ?_) hs fun k hu => ?_
  · rw [ht, ho]
    intro k hk
    rw [List.mem_singleton.mp hk]
    refine isUsed_aimed ?_
    rwa [show (c.extended o).labels = c.labels from labels_cutEnded]
  · rw [ho] at hu
    obtain hu | rfl := isUsed_aimed_imp hu
    · exact .inl (isUsed_extended k ▸ hu)
    · exact .inr ha

theorem jump (hl : l < c.labels.length) (ha : l ∈ around) : Tidies around c (c.added (.jump l)) :=
  .aims rfl rfl trivial hl ha

theorem branch {cnd : Code} (hl : l < c.labels.length) (ha : l ∈ around) :
    Tidies around c (c.added (.branch cnd l)) :=
  .aims rfl rfl trivial hl ha

theorem branchUnless {cnd : Code} {b : Bool} (hl : l < c.labels.length) (ha : l ∈ around) :
    Tidies around c (c.addedUnless b (.branch cnd l)) := by
  cases b with
  | true => exact .refl c
  | false => exact .branch hl ha

end Tidies

/-! ## Statements -/

/-- The labels around a statement, which it can leave pending. -/
def labelsAround : Option Loop → List Label
  | none => [finishLabel]
  | some l => [finishLabel, l.exit, l.next]

theorem finish_mem_labelsAround (loop : Option Loop) : finishLabel ∈ labelsAround loop := by
  cases loop with
  | none => exact List.mem_singleton_self _
  | some l => exact List.mem_cons_self

/-- The ways out of a kept statement lead to the labels around. -/
theorem mem_labelsAround {loop : Option Loop} {k : Leave} {l : Label}
    (h : leaveLabel loop k = some l) : l ∈ labelsAround loop := by
  cases k with
  | finish =>
    cases h
    exact finish_mem_labelsAround loop
  | exit | next =>
    obtain ⟨lp, rfl, rfl⟩ := Option.map_eq_some_iff.mp h
    simp [labelsAround]

theorem InRange.lt {c : Compiler} {loop : Option Loop} (h : InRange c loop) {l : Label}
    (hl : l ∈ labelsAround loop) : l < c.labels.length := by
  cases loop with
  | none =>
    rw [List.mem_singleton.mp hl]
    exact h.finish
  | some lp =>
    obtain ⟨he, hn⟩ := h.loop lp rfl
    simp only [labelsAround, List.mem_cons, List.not_mem_nil, or_false] at hl
    obtain rfl | rfl | rfl := hl
    · exact h.finish
    · exact he
    · exact hn

section

variable {loop : Option Loop} {c c₁ c₂ : Compiler} {s : Code}

/-- Keeping a statement uses the labels to which its jumps go. -/
theorem tidies_keep {construct : String} {r : Unit × Compiler} (hr : InRange c loop)
    (h : (keep construct s loop).run c = .ok r) : Tidies (labelsAround loop) c r.2 := by
  simp only [keep, run_bind, run_lift, run_emit, run_useLabels] at h
  obtain ⟨_, ⟨⟨s', ways⟩, hk, rfl⟩, _, heq, h⟩ := h
  cases heq
  cases h
  obtain ⟨-, rfl, -⟩ := keepStatement_eq hk
  have sound : (Operation.kept construct s loop).Sound := ⟨_, _, by cases loop <;> rfl, hk⟩
  refine (Tidies.aimedAll ((waysOut .nothing s).filterMap (leaveLabel loop)) c ?_).trans
    (.added ?_ sound ?_)
  · intro l hl
    obtain ⟨k, -, hk⟩ := List.mem_filterMap.mp hl
    exact mem_labelsAround hk
  · intro _ l hl
    obtain ⟨k, -, hk⟩ := List.mem_filterMap.mp hl
    exact Compiler.grows_added.used (n := 0) l
      (isUsed_aimedAll _ c hl (hr.lt (mem_labelsAround hk)))
  · exact fun l hu => .inl (Compiler.isUsed_extended l ▸ hu)

/-- A declaration of a variable. -/
theorem tidies_local {t i : Code} {n : String} {r : Unit × Compiler}
    (h : (localVariable t n i).run c = .ok r) : Tidies (labelsAround loop) c r.2 := by
  simp only [localVariable, run_bind] at h
  obtain ⟨⟨_, c₁⟩, hh, h⟩ := h
  obtain ⟨hcomplete, hcurrent, hlabels⟩ := run_hoist hh
  refine (Tidies.same hcomplete hcurrent hlabels).trans ?_
  split at h
  · simp only [run_bind, run_lift, run_emit] at h
    obtain ⟨_, ⟨i', -, rfl⟩, heq⟩ := h
    cases heq
    exact .stmt
  · cases h
    exact .refl c₁

/-- A statement that needs no lowering. -/
theorem tidies_plain (hn : needsLowering s = false) {r : Unit × Compiler}
    (h : (compileStmt loop s).run c = .ok r) : Tidies (labelsAround loop) c r.2 := by
  rw [compileStmt.eq_def] at h
  obtain ⟨-, h⟩ := run_guard.mp h
  simp only [hn, Bool.not_false, if_true] at h
  split at h
  · exact tidies_local h
  · rw [run_emit] at h
    cases h
    exact .stmt

/-- A yield. -/
theorem tidies_yield {v : Code} : Tidies (labelsAround loop) c
    ((c.labelled.added (.yield v c.labels.length)).opened c.labels.length) := by
  refine Tidies.close (l := c.labels.length) ?_ Compiler.not_pending_opened
  refine Tidies.labelled.trans (Tidies.trans ?_ .place)
  refine .aims rfl rfl trivial ?_ List.mem_cons_self
  rw [Compiler.count_labelled]
  exact Nat.lt_succ_self _

/-! ### Branches -/

/-- The condition of a branch and its first part. The label of the other part is open. -/
theorem tidies_condition {cnd : Code} {around : List Label}
    (hy : Tidies around (c.labelled.added (.branch cnd c.labels.length)) c₁) :
    Tidies (c.labels.length :: around) c c₁ := by
  refine Tidies.labelled.trans (Tidies.trans (.branch ?_ List.mem_cons_self)
    (hy.mono fun _ => List.mem_cons_of_mem _))
  rw [Compiler.count_labelled]
  exact Nat.lt_succ_self _

/-- A branch without an alternative. -/
theorem tidies_if {cnd : Code} {around : List Label}
    (hy : Tidies around (c.labelled.added (.branch cnd c.labels.length)) c₁) :
    Tidies around c (c₁.opened c.labels.length) :=
  .close ((tidies_condition hy).trans .place) Compiler.not_pending_opened

/-- A branch with both parts, whatever stands between them. -/
theorem tidies_ifElse {d : Compiler} {cnd : Code} {around : List Label}
    (hy : Tidies around (c.labelled.added (.branch cnd c.labels.length)) c₁)
    (hd : Tidies (c.labels.length :: around) c₁ d)
    (hn : Tidies around (d.opened c.labels.length) c₂) : Tidies around c c₂ := by
  have count : c.labels.length < d.labels.length := by
    have := Nat.le_trans hy.count hd.count
    rw [Compiler.count_added, Compiler.count_labelled] at this
    omega
  have rest : Tidies (c.labels.length :: around) (d.opened c.labels.length) c₂ :=
    hn.mono fun _ => List.mem_cons_of_mem _
  exact ((tidies_condition hy).trans (hd.trans (Tidies.place.trans rest))).close
    (hn.not_pending count)

/-- A branch with both parts, and a jump from the end of the first one behind the second one. -/
theorem tidies_ifElse_joined {cnd : Code} {around : List Label}
    (hy : Tidies around (c.labelled.added (.branch cnd c.labels.length)) c₁)
    (hn : Tidies around
      ((c₁.labelled.added (.jump c₁.labels.length)).opened c.labels.length) c₂) :
    Tidies around c (c₂.opened c₁.labels.length) := by
  have other : ∀ l ∈ around, l ∈ c₁.labels.length :: around := fun _ => List.mem_cons_of_mem _
  have join : Tidies (c.labels.length :: c₁.labels.length :: around) c₁
      (c₁.labelled.added (.jump c₁.labels.length)) := by
    refine Tidies.labelled.trans (.jump ?_ (List.mem_cons_of_mem _ List.mem_cons_self))
    rw [Compiler.count_labelled]
    exact Nat.lt_succ_self _
  exact .close (tidies_ifElse (hy.mono other) join ((hn.mono other).trans .place))
    Compiler.not_pending_opened

/-! ### Loops -/

/-- A body of a loop uses the labels of the loop. -/
theorem Tidies.inLoop {exit next : Label} (h : Tidies (labelsAround (some ⟨exit, next⟩)) c c₁)
    {around : List Label} (hf : finishLabel ∈ around) (he : exit ∈ around) (hn : next ∈ around) :
    Tidies around c c₁ := by
  refine h.mono fun l hl => ?_
  simp only [labelsAround, List.mem_cons, List.not_mem_nil, or_false] at hl
  obtain rfl | rfl | rfl := hl <;> assumption

/-- What all loops have in common: the head is opened, in the end a jump leads back to it, and
behind the loop its exit is opened. -/
theorem tidies_loop {d : Compiler} {head exit : Nat} {o : Operation} {around : List Label}
    (hd : Tidies (head :: exit :: around) c d) (hhead : head < d.labels.length)
    (hb : Tidies (head :: exit :: around) (d.opened head) c₁)
    (ho : c₁.added o = (c₁.extended o).aimed head) (ht : o.targets = [head]) (hs : o.Sound) :
    Tidies around c ((c₁.added o).opened exit) := by
  have back : Tidies (head :: exit :: around) c₁ (c₁.added o) := by
    refine .aims ho ht hs (Nat.lt_of_lt_of_le hhead ?_) List.mem_cons_self
    exact Nat.le_trans (Nat.le_of_eq Compiler.count_opened.symm) hb.count
  have round : Tidies (head :: exit :: around) (d.opened head) ((c₁.added o).opened exit) :=
    hb.trans (back.trans .place)
  exact ((hd.trans (Tidies.place.trans round)).close (round.not_pending hhead)).close
    Compiler.not_pending_opened

section

variable {cnd : Code} {around : List Label} (hf : finishLabel ∈ around)
include hf

/-- A `while` loop. -/
theorem tidies_while
    (hb : Tidies (labelsAround (some ⟨c.labels.length + 1, c.labels.length⟩))
      ((c.labelled.labelled.opened c.labels.length).addedUnless (isTrue cnd)
        (.branch (negated cnd) (c.labels.length + 1))) c₁) :
    Tidies around c ((c₁.added (.jump c.labels.length)).opened (c.labels.length + 1)) := by
  have count : c.labelled.labelled.labels.length = c.labels.length + 2 := by
    rw [Compiler.count_labelled, Compiler.count_labelled]
  have test : Tidies (c.labels.length :: (c.labels.length + 1) :: around)
      (c.labelled.labelled.opened c.labels.length)
      ((c.labelled.labelled.opened c.labels.length).addedUnless (isTrue cnd)
        (.branch (negated cnd) (c.labels.length + 1))) :=
    .branchUnless (by rw [Compiler.count_opened, count]; omega) (by simp)
  exact tidies_loop (Tidies.labelled.trans .labelled) (by omega)
    (test.trans (hb.inLoop (by simp [hf]) (by simp) (by simp))) rfl rfl trivial

/-- A `do` loop. -/
theorem tidies_do {last : Operation}
    (hlast : last = if isTrue cnd then .jump c.labels.length else .branch cnd c.labels.length)
    (hb : Tidies (labelsAround (some ⟨c.labels.length + 2, c.labels.length + 1⟩))
      (c.labelled.labelled.labelled.opened c.labels.length) c₁) :
    Tidies around c (((c₁.openedIfUsed (c.labels.length + 1)).added last).opened
      (c.labels.length + 2)) := by
  have count : c.labelled.labelled.labelled.labels.length = c.labels.length + 3 := by
    rw [Compiler.count_labelled, Compiler.count_labelled, Compiler.count_labelled]
  have body : Tidies ((c.labels.length + 1) :: c.labels.length :: (c.labels.length + 2) :: around)
      (c.labelled.labelled.labelled.opened c.labels.length)
      (c₁.openedIfUsed (c.labels.length + 1)) :=
    (hb.inLoop (by simp [hf]) (by simp) (by simp)).trans .placeIfUsed
  have labels : Tidies (c.labels.length :: (c.labels.length + 2) :: around) c
      c.labelled.labelled.labelled := Tidies.labelled.trans (Tidies.labelled.trans .labelled)
  have inner := body.close Compiler.not_pending_openedIfUsed
  cases ht : isTrue cnd with
  | true =>
    rw [ht, if_pos rfl] at hlast
    subst hlast
    exact tidies_loop labels (by omega) inner rfl rfl trivial
  | false =>
    rw [ht, if_neg Bool.false_ne_true] at hlast
    subst hlast
    exact tidies_loop labels (by omega) inner rfl rfl trivial

/-- The rounds of a `for` loop, behind its first part. -/
theorem tidies_rounds {b : Bool}
    (hb : Tidies (labelsAround (some ⟨c.labels.length + 2, c.labels.length + 1⟩))
      ((c.labelled.labelled.labelled.opened c.labels.length).addedUnless b
        (.branch cnd (c.labels.length + 2))) c₁)
    (hu : Tidies around (c₁.openedIfUsed (c.labels.length + 1)) c₂) :
    Tidies around c ((c₂.added (.jump c.labels.length)).opened (c.labels.length + 2)) := by
  have count : c.labelled.labelled.labelled.labels.length = c.labels.length + 3 := by
    rw [Compiler.count_labelled, Compiler.count_labelled, Compiler.count_labelled]
  have test : Tidies ((c.labels.length + 1) :: c.labels.length :: (c.labels.length + 2) :: around)
      (c.labelled.labelled.labelled.opened c.labels.length)
      ((c.labelled.labelled.labelled.opened c.labels.length).addedUnless b
        (.branch cnd (c.labels.length + 2))) :=
    .branchUnless (by rw [Compiler.count_opened, count]; omega) (by simp)
  have body := (test.trans ((hb.inLoop (by simp [hf]) (by simp) (by simp)).trans
    (.placeIfUsed (l := c.labels.length + 1)))).close Compiler.not_pending_openedIfUsed
  have update : Tidies (c.labels.length :: (c.labels.length + 2) :: around)
      (c₁.openedIfUsed (c.labels.length + 1)) c₂ := hu.mono fun _ hm => by simp [hm]
  exact tidies_loop (Tidies.labelled.trans (Tidies.labelled.trans .labelled)) (by omega)
    (body.trans update) rfl rfl trivial

/-- The rounds of a loop over a collection, behind the assignment of its cursor. -/
theorem tidies_each {s : Code}
    (hb : Tidies (labelsAround (some ⟨c.labels.length + 1, c.labels.length⟩))
      (((c.labelled.labelled.opened c.labels.length).added
        (.branch cnd (c.labels.length + 1))).added (.stmt s)) c₁) :
    Tidies around c ((c₁.added (.jump c.labels.length)).opened (c.labels.length + 1)) := by
  have count : c.labelled.labelled.labels.length = c.labels.length + 2 := by
    rw [Compiler.count_labelled, Compiler.count_labelled]
  have test : Tidies (c.labels.length :: (c.labels.length + 1) :: around)
      (c.labelled.labelled.opened c.labels.length)
      ((c.labelled.labelled.opened c.labels.length).added
        (.branch cnd (c.labels.length + 1))) :=
    .branch (by rw [Compiler.count_opened, count]; omega) (by simp)
  exact tidies_loop (Tidies.labelled.trans .labelled) (by omega)
    (test.trans (Tidies.stmt.trans (hb.inLoop (by simp [hf]) (by simp) (by simp)))) rfl rfl trivial

end

end

/-! ## All statements -/

mutual

/-- Compiling a statement keeps the compilation tidy and opens all labels of its own that it uses. -/
theorem compileStmt_tidies (s : Code) {loop : Option Loop} {c : Compiler} {r : Unit × Compiler}
    (hr : InRange c loop) (h : (compileStmt loop s).run c = .ok r) :
    Tidies (labelsAround loop) c r.2 := by
  have finish : finishLabel ∈ labelsAround loop := finish_mem_labelsAround loop
  cases hlow : needsLowering s with
  | false => exact tidies_plain hlow h
  | true =>
  cases s with
  | call rc m ts as =>
    simp only [compileStmt, run_guard, hlow, Bool.not_true, Bool.false_eq_true, if_false] at h
    obtain ⟨-, -, h⟩ := h
    split at h
    · simp only [run_bind, run_newLabel, run_emit, run_openLabel, Except.ok.injEq,
        exists_eq_left'] at h
      cases h
      exact tidies_yield
    · cases h
  | block ss =>
    simp only [compileStmt, run_guard, hlow, Bool.not_true, Bool.false_eq_true, if_false] at h
    exact compileStmts_tidies ss hr h.2
  | ifThen cnd y n =>
    simp only [compileStmt, run_guard, hlow, Bool.not_true, Bool.false_eq_true, if_false, run_bind,
      run_newLabel, run_emit, Except.ok.injEq, exists_eq_left'] at h
    obtain ⟨-, ⟨_, c₁⟩, hy, h⟩ := h
    have hry : InRange (c.labelled.added (.branch (negated cnd) c.labels.length)) loop :=
      hr.mono (by rw [Compiler.count_added, Compiler.count_labelled]; omega)
    have ty := compileStmt_tidies y hry hy
    have count := ty.count
    simp only [Compiler.count_added, Compiler.count_labelled] at count
    split at h
    · rw [run_openLabel] at h
      cases h
      exact tidies_if ty
    · simp only [run_bind, run_isEnded, run_newLabel, Except.ok.injEq, exists_eq_left'] at h
      cases hend : c₁.ended with
      | true =>
        simp only [hend, Bool.not_true, Bool.false_eq_true, if_false, run_bind, run_openLabel,
          Except.ok.injEq, exists_eq_left'] at h
        obtain ⟨⟨_, c₂⟩, hn, h⟩ := h
        cases h
        refine tidies_ifElse ty .labelled (compileStmt_tidies n (hry.mono ?_) hn)
        simp only [Compiler.count_opened, Compiler.count_added, Compiler.count_labelled]
        omega
      | false =>
        simp only [hend, Bool.not_false, if_true, run_bind, run_emit, run_openLabel,
          Except.ok.injEq, exists_eq_left'] at h
        obtain ⟨⟨_, c₂⟩, hn, h⟩ := h
        cases h
        refine tidies_ifElse_joined ty (compileStmt_tidies n (hry.mono ?_) hn)
        simp only [Compiler.count_opened, Compiler.count_added, Compiler.count_labelled]
        omega
  | whileLoop cnd b =>
    simp only [compileStmt, run_guard, hlow, Bool.not_true, Bool.false_eq_true, if_false, run_bind,
      run_newLabel, run_openLabel, Except.ok.injEq, exists_eq_left'] at h
    obtain ⟨-, h⟩ := h
    rw [run_emitUnless] at h
    simp only [run_bind, run_emit, run_openLabel, Except.ok.injEq, exists_eq_left',
      Compiler.count_labelled] at h
    obtain ⟨⟨_, c₁⟩, hb, h⟩ := h
    cases h
    refine tidies_while finish (compileStmt_tidies b (hr.inner ?_ ?_ ?_) hb) <;>
    · simp only [Compiler.count_addedUnless, Compiler.count_opened, Compiler.count_labelled]
      omega
  | doLoop b cnd =>
    simp only [compileStmt, run_guard, hlow, Bool.not_true, Bool.false_eq_true, if_false, run_bind,
      run_newLabel, run_openLabel, run_openIfUsed, Except.ok.injEq, exists_eq_left',
      Compiler.count_labelled] at h
    obtain ⟨-, ⟨_, c₁⟩, hb, h⟩ := h
    have tb := compileStmt_tidies b (hr.inner ?_ ?_ ?_) hb
    · cases ht : isTrue cnd with
      | true =>
        simp only [ht, if_true, run_bind, run_emit, run_openLabel, Except.ok.injEq,
          exists_eq_left'] at h
        cases h
        exact tidies_do finish (by rw [ht]; rfl) tb
      | false =>
        simp only [ht, Bool.false_eq_true, if_false, run_bind, run_emit, run_openLabel,
          Except.ok.injEq, exists_eq_left'] at h
        cases h
        exact tidies_do finish (by rw [ht]; rfl) tb
    all_goals
      simp only [Compiler.count_opened, Compiler.count_labelled]
      omega
  | forLoop i cnd u b =>
    simp only [compileStmt, run_guard, hlow, Bool.not_true, Bool.false_eq_true, if_false, run_bind,
      run_newLabel, run_openLabel, Except.ok.injEq, exists_eq_left', Compiler.count_labelled] at h
    obtain ⟨-, ⟨_, c₀⟩, hi, h⟩ := h
    have ti := compileStmts_tidies i hr hi
    have hr₀ := hr.mono ti.count
    rw [← Bool.not_not (!cnd.isMissing && !isTrue cnd), run_emitUnless] at h
    simp only [run_bind, run_openIfUsed, run_emit, run_openLabel, Except.ok.injEq,
      exists_eq_left'] at h
    obtain ⟨⟨_, c₁⟩, hb, ⟨_, c₂⟩, hu, h⟩ := h
    cases h
    have tb := compileStmt_tidies b (hr₀.inner ?_ ?_ ?_) hb
    · have count := tb.count
      simp only [Compiler.count_addedUnless, Compiler.count_opened, Compiler.count_labelled]
        at count
      have tu := compileStmts_tidies u (hr₀.mono ?_) hu
      · exact ti.trans (tidies_rounds finish tb tu)
      · change c₀.labels.length ≤ (c₁.openedIfUsed _).labels.length
        rw [Compiler.count_openedIfUsed]
        omega
    all_goals
      simp only [Compiler.count_addedUnless, Compiler.count_opened, Compiler.count_labelled]
      omega
  | foreach v e b =>
    simp only [compileStmt, run_guard, hlow, Bool.not_true, Bool.false_eq_true, if_false] at h
    obtain ⟨-, h⟩ := h
    split at h
    · rename_i t n mods annos i
      simp only [run_bind, run_newLabel, run_openLabel, run_emit, Except.ok.injEq,
        exists_eq_left', Compiler.count_labelled] at h
      obtain ⟨⟨_, c₀⟩, hh, ⟨_, c₁⟩, hm, ⟨_, c₂⟩, hb, h⟩ := h
      cases hm
      cases h
      obtain ⟨hcomplete, hcurrent, hlabels⟩ := run_hoist hh
      let c₁ : Compiler := { c₀ with cursors := c₀.cursors ++ [cursorField (cursorName n)] }
      have fields : Tidies (labelsAround loop) c c₁ := .same hcomplete hcurrent hlabels
      have cursor : Tidies (labelsAround loop) c
          (c₁.added (.stmt (.assign (cursorOf n) (.invoke e "iterator" [])))) := fields.trans .stmt
      refine cursor.trans (tidies_each finish (compileStmt_tidies b
        ((hr.mono cursor.count).inner ?_ ?_ ?_) hb))
      all_goals
        simp only [Compiler.count_added, Compiler.count_opened, Compiler.count_labelled]
        omega
    · cases h
  | breaking l =>
    simp only [compileStmt, run_guard, hlow, Bool.not_true, Bool.false_eq_true, if_false] at h
    obtain ⟨-, hl, h⟩ := h
    split at h
    · cases h
    · rename_i lp
      rw [run_emit] at h
      cases h
      exact .jump (hr.loop lp rfl).1 (by simp [labelsAround])
  | continuing l =>
    simp only [compileStmt, run_guard, hlow, Bool.not_true, Bool.false_eq_true, if_false] at h
    obtain ⟨-, hl, h⟩ := h
    split at h
    · cases h
    · rename_i lp
      rw [run_emit] at h
      cases h
      exact .jump (hr.loop lp rfl).2 (by simp [labelsAround])
  | returning e =>
    simp only [compileStmt, run_guard, hlow, Bool.not_true, Bool.false_eq_true, if_false] at h
    obtain ⟨-, h⟩ := h
    split at h
    · rw [run_emit] at h
      cases h
      exact .jump hr.finish finish
    · cases h
  | returnDefault =>
    simp only [compileStmt, run_guard, hlow, Bool.not_true, Bool.false_eq_true, if_false,
      run_emit] at h
    cases h.2
    exact .jump hr.finish finish
  | tryCatch b cs f | synchronizedOn e b | switchOn e cs | labeled l b =>
    simp only [compileStmt, run_guard, hlow, Bool.not_true, Bool.false_eq_true, if_false] at h
    obtain ⟨-, h⟩ := h
    split at h
    · cases h
    · exact tidies_keep hr h
  | _ =>
    simp only [compileStmt, run_guard, hlow, Bool.not_true, Bool.false_eq_true, if_false] at h
    cases h.2

/-- The same for statements one after the other. -/
theorem compileStmts_tidies (ss : List Code) {loop : Option Loop} {c : Compiler}
    {r : Unit × Compiler} (hr : InRange c loop) (h : (compileStmts loop ss).run c = .ok r) :
    Tidies (labelsAround loop) c r.2 := by
  cases ss with
  | nil =>
    cases h
    exact .refl c
  | cons s ss =>
    simp only [compileStmts, run_bind] at h
    obtain ⟨⟨_, c₁⟩, hs, hss⟩ := h
    have h₁ := compileStmt_tidies s hr hs
    exact h₁.trans (compileStmts_tidies ss (hr.mono h₁.count) hss)

end

end Weaver.Generator
