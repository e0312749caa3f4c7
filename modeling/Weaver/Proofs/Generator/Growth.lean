import Weaver.Main
/-!
How a compilation grows.

A compilation only adds: operations behind those that are there, labels behind those that are there,
a state for a label that had none. Seen this way the states of the machine are one list of
operations, cut into pieces, and a label is a place in it. A label keeps its place whatever is
compiled later, which is why a jump can be understood where it is written.
-/
set_option autoImplicit false

namespace Weaver.Generator

namespace Compiler

/-- All states, the current one last. -/
def states (c : Compiler) : List (List Operation) := c.complete ++ [c.current]

/-- All operations one after the other. -/
def ops (c : Compiler) : List Operation := c.complete.flatten ++ c.current

theorem ops_eq_flatten {c : Compiler} : c.ops = c.states.flatten := by
  simp [ops, states]

/-- The place behind all operations. -/
def size (c : Compiler) : Nat := c.ops.length

/-- The place at which a state begins. -/
def place (c : Compiler) (n : Nat) : Nat := (c.states.take n).flatten.length

/-- An operation stands at a place. -/
def Op (c : Compiler) (p : Nat) (o : Operation) : Prop := c.ops[p]? = some o

/-- The state with the number begins at the place. -/
def Begins (c : Compiler) (n p : Nat) : Prop := n < c.states.length ∧ c.place n = p

/-- The label stands at the place. -/
def Leads (c : Compiler) (l : Label) (p : Nat) : Prop := c.Begins (c.stateOf l) p

/-- The state that a label was opened in. -/
def opening (c : Compiler) (l : Label) : Option Nat := (c.labels[l]?).bind (·.state)

/-- A jump goes to the label. -/
def isUsed (c : Compiler) (l : Label) : Bool := (c.labels[l]?).any (·.used)

/-- The current state is ended. -/
def ended (c : Compiler) : Bool := (c.current.getLast?).any Operation.ends

/-! ## The steps of a compilation -/

/-- With one more label. -/
def labelled (c : Compiler) : Compiler :=
  { c with labels := c.labels ++ [({ state := none, used := false } : LabelInfo)] }

/-- With a new state. -/
def cut (c : Compiler) : Compiler := { c with complete := c.complete ++ [c.current], current := [] }

/-- With a new state, unless the current one is empty. -/
def cutFilled (c : Compiler) : Compiler := if c.current.isEmpty then c else c.cut

/-- With a new state, if the current one is ended. -/
def cutEnded (c : Compiler) : Compiler := if c.ended then c.cut else c

/-- With a label changed. -/
def relabelled (c : Compiler) (l : Label) (f : LabelInfo → LabelInfo) : Compiler :=
  { c with labels := c.labels.modify l f }

/-- With a jump to a label. -/
def aimed (c : Compiler) (l : Label) : Compiler := c.relabelled l ({ · with used := true })

/-- With a label placed here. -/
def opened (c : Compiler) (l : Label) : Compiler :=
  c.cutFilled.relabelled l ({ · with state := some c.cutFilled.complete.length })

/-- With one more operation. -/
def extended (c : Compiler) (o : Operation) : Compiler :=
  { c.cutEnded with current := c.cutEnded.current ++ [o] }

/-- With one more operation, whose target is used. -/
def added (c : Compiler) (o : Operation) : Compiler :=
  match o with
  | .jump l | .branch _ l | .yield _ l => (c.extended o).aimed l
  | _ => c.extended o

/-- With one more operation, unless it can be left out. -/
def addedUnless (c : Compiler) (b : Bool) (o : Operation) : Compiler := if b then c else c.added o

/-- With a label placed here, if a jump goes to it. -/
def openedIfUsed (c : Compiler) (l : Nat) : Compiler := if c.isUsed l then c.opened l else c

end Compiler

section Runs

variable {α β : Type} {c : Compiler}

/-- A step of a compilation that succeeds consists of two that succeed. -/
theorem run_bind {m : Compile α} {f : α → Compile β} {r : β × Compiler} :
    (m >>= f).run c = .ok r ↔ ∃ x, m.run c = .ok x ∧ (f x.1).run x.2 = .ok r := by
  rw [StateT.run_bind]
  cases h : m.run c with
  | error e => simp [bind, Except.bind]
  | ok x => simp [bind, Except.bind]

theorem run_pure {x : α} : (pure x : Compile α).run c = .ok (x, c) := rfl

theorem run_lift {m : Except Fault α} {r : α × Compiler} :
    (liftM m : Compile α).run c = .ok r ↔ ∃ x, m = .ok x ∧ (x, c) = r := by
  cases m with
  | error e => simp [liftM, monadLift, MonadLift.monadLift, StateT.lift, StateT.run, bind, Except.bind]
  | ok x =>
    simp [liftM, monadLift, MonadLift.monadLift, StateT.lift, StateT.run, bind, Except.bind, pure,
      Except.pure]

theorem run_throw {f : Fault} : (throw f : Compile α).run c = .error f := rfl

theorem run_newLabel : newLabel.run c = .ok (c.labels.length, c.labelled) := rfl

theorem run_isEnded : isEnded.run c = .ok (c.ended, c) := rfl

theorem run_useLabel {l : Label} : (useLabel l).run c = .ok ((), c.aimed l) := rfl

theorem run_openLabel {l : Label} : (openLabel l).run c = .ok ((), c.opened l) := by
  obtain ⟨complete, current, labels, locals, fields, cursors⟩ := c
  cases current <;> rfl

theorem run_openIfUsed {l : Label} : (openIfUsed l).run c = .ok ((), c.openedIfUsed l) := by
  unfold Compiler.openedIfUsed
  have h : (openIfUsed l).run c =
      (if c.isUsed l then openLabel l else pure () : Compile Unit).run c := rfl
  rw [h]
  split
  · exact run_openLabel
  · rfl

theorem run_emit {o : Operation} : (emit o).run c = .ok ((), c.added o) := by
  have h : (emit o).run c = (do
      if c.ended then newState
      modify fun c => { c with current := c.current ++ [o] }
      match o with
      | .jump l | .branch _ l | .yield _ l => useLabel l
      | _ => pure () : Compile Unit).run c := rfl
  rw [h]
  cases hc : c.ended <;> cases o <;> simp [Compiler.added, Compiler.extended, Compiler.cutEnded, hc] <;> rfl

/-- An operation that can be left out. -/
theorem run_emitUnless {b : Bool} {o : Operation} {k : PUnit → Compile Unit}
    {r : Unit × Compiler} :
    (if (!b) = true then emit o >>= k else k ()).run c = .ok r ↔
      (k ()).run (c.addedUnless b o) = .ok r := by
  cases b with
  | true => exact Iff.rfl
  | false =>
    rw [Bool.not_false, if_pos rfl, run_bind, run_emit]
    simp [Compiler.addedUnless]

/-- A new variable becomes a field. -/
theorem run_hoist_new {t : Code} {n : String} (fresh : c.locals.lookup n = none) :
    (hoist t n).run c = .ok ((), { c with
      locals := c.locals ++ [(n, t)]
      fields := c.fields ++ [Code.fieldOf t n .privateFlag .missing] }) := by
  refine run_bind.mpr ⟨(c, c), rfl, ?_⟩
  dsimp only
  rw [fresh]
  rfl

/-- A variable that is a field changes nothing: if the types are at odds, that is an error. -/
theorem run_hoist_known {t v : Code} {n : String} {r : Unit × Compiler}
    (known : c.locals.lookup n = some v) (h : (hoist t n).run c = .ok r) : r = ((), c) := by
  obtain ⟨x, got, h⟩ := run_bind.mp h
  obtain rfl : (c, c) = x := Except.ok.inj got
  dsimp only at h
  rw [known] at h
  cases hole : v.isMissing || t.isMissing <;> cases same : sameType v t <;>
    simp only [hole, same, Bool.not_true, Bool.not_false, if_true, Bool.false_eq_true,
      if_false] at h <;> cases h
  rfl

/-- Making a variable a field adds nothing else. -/
theorem run_hoist {t : Code} {n : String} {u : Unit} {c' : Compiler}
    (h : (hoist t n).run c = .ok (u, c')) :
    c'.complete = c.complete ∧ c'.current = c.current ∧ c'.labels = c.labels := by
  cases found : c.locals.lookup n with
  | none =>
    rw [run_hoist_new found] at h
    cases h
    exact ⟨rfl, rfl, rfl⟩
  | some v =>
    cases run_hoist_known found h
    exact ⟨rfl, rfl, rfl⟩

end Runs

/-! ## Growth -/

/-- The second compilation goes on where the first one is. The labels below a number are opened in
neither or were opened before. -/
structure Grows (n : Nat) (c c' : Compiler) : Prop where
  complete : c.complete <+: c'.complete
  ops : c.ops <+: c'.ops
  count : c.labels.length ≤ c'.labels.length
  below : ∀ l < n, c'.opening l = c.opening l
  opening : ∀ l i, c.opening l = some i → c'.opening l = some i
  used : ∀ l, c.isUsed l = true → c'.isUsed l = true

namespace Grows

variable {n : Nat} {c c' c'' : Compiler}

theorem refl (c : Compiler) : Grows n c c :=
  ⟨List.prefix_rfl, List.prefix_rfl, Nat.le_refl _, fun _ _ => rfl, fun _ _ => id, fun _ => id⟩

theorem trans (h : Grows n c c') (h' : Grows n c' c'') : Grows n c c'' :=
  ⟨h.complete.trans h'.complete, h.ops.trans h'.ops, Nat.le_trans h.count h'.count,
    fun l hl => (h'.below l hl).trans (h.below l hl), fun l i hi => h'.opening l i (h.opening l i hi),
    fun l hl => h'.used l (h.used l hl)⟩

theorem weaken (h : Grows n c c') {k : Nat} (hk : k ≤ n) : Grows k c c' :=
  ⟨h.complete, h.ops, h.count, fun l hl => h.below l (Nat.lt_of_lt_of_le hl hk), h.opening, h.used⟩

/-- Only operations and labels count. -/
theorem same (hc : c'.complete = c.complete) (hs : c'.current = c.current)
    (hl : c'.labels = c.labels) : Grows n c c' := by
  refine ⟨hc ▸ List.prefix_rfl, ?_, Nat.le_of_eq (by rw [hl]), ?_, ?_, ?_⟩
  · simp only [Compiler.ops, hc, hs]
    exact List.prefix_rfl
  · intro l _
    simp only [Compiler.opening, hl]
  · intro l i hi
    simpa only [Compiler.opening, hl] using hi
  · intro l hu
    simpa only [Compiler.isUsed, hl] using hu

/-- An operation keeps its place. -/
theorem op (h : Grows n c c') {p : Nat} {o : Operation} (ho : c.Op p o) : c'.Op p o := by
  obtain ⟨more, hm⟩ := h.ops
  unfold Compiler.Op at ho ⊢
  rw [← hm, List.getElem?_append_left, ho]
  exact (List.getElem?_eq_some_iff.mp ho).1

end Grows

namespace Compiler

variable {n l : Nat} {c P : Compiler} {o : Operation}

theorem opening_relabelled {f : LabelInfo → LabelInfo} (k : Nat) :
    (c.relabelled l f).opening k =
      if l = k then (c.labels[k]?).bind fun i => (f i).state else c.opening k := by
  unfold relabelled opening
  rw [List.getElem?_modify]
  cases c.labels[k]? <;> split <;> rfl

theorem isUsed_relabelled {f : LabelInfo → LabelInfo} (k : Nat) :
    (c.relabelled l f).isUsed k =
      if l = k then (c.labels[k]?).any fun i => (f i).used else c.isUsed k := by
  unfold relabelled isUsed
  rw [List.getElem?_modify]
  cases c.labels[k]? <;> split <;> rfl

theorem lt_of_opening {i : Nat} (h : c.opening l = some i) : l < c.labels.length := by
  unfold opening at h
  cases hl : c.labels[l]? with
  | none => rw [hl] at h; cases h
  | some x => exact (List.getElem?_eq_some_iff.mp hl).1

theorem lt_of_isUsed (h : c.isUsed l = true) : l < c.labels.length := by
  unfold isUsed at h
  cases hl : c.labels[l]? with
  | none => rw [hl] at h; cases h
  | some x => exact (List.getElem?_eq_some_iff.mp hl).1

/-! ### One more label -/

theorem grows_labelled (hn : n ≤ c.labels.length) : Grows n c c.labelled := by
  have same : ∀ k < c.labels.length, c.labelled.labels[k]? = c.labels[k]? := fun k hk => by
    rw [labelled, List.getElem?_append_left hk]
  refine ⟨List.prefix_rfl, List.prefix_rfl, by simp [labelled], ?_, ?_, ?_⟩
  · intro k hk
    unfold opening
    rw [same k (by omega)]
  · intro k i hi
    have := lt_of_opening hi
    unfold opening at hi ⊢
    rw [same k this, hi]
  · intro k hk
    have := lt_of_isUsed hk
    unfold isUsed at hk ⊢
    rw [same k this, hk]

theorem size_labelled : c.labelled.size = c.size := rfl

theorem count_labelled : c.labelled.labels.length = c.labels.length + 1 := by
  simp [labelled]

/-- A label that is not there yet has no state. -/
theorem opening_of_le (h : c.labels.length ≤ l) : c.opening l = none := by
  rw [opening, List.getElem?_eq_none h]
  rfl

theorem opening_labelled (k : Nat) : c.labelled.opening k = c.opening k := by
  by_cases hk : k < c.labels.length
  · exact (grows_labelled hk).below k (Nat.lt_succ_self k)
  · rw [opening_of_le (Nat.le_of_not_lt hk)]
    unfold opening labelled
    rw [List.getElem?_append_right (Nat.le_of_not_lt hk), List.getElem?_singleton]
    split <;> rfl

/-! ### One more operation -/

theorem ops_cut : c.cut.ops = c.ops := by
  simp [ops, cut]

theorem ops_cutEnded : c.cutEnded.ops = c.ops := by
  unfold cutEnded
  split
  · exact ops_cut
  · rfl

theorem complete_cutEnded : c.complete <+: c.cutEnded.complete := by
  unfold cutEnded
  split
  · exact List.prefix_append _ _
  · exact List.prefix_rfl

theorem labels_cutEnded : c.cutEnded.labels = c.labels := by
  unfold cutEnded
  split <;> rfl

theorem ops_extended : (c.extended o).ops = c.ops ++ [o] := by
  change c.cutEnded.complete.flatten ++ (c.cutEnded.current ++ [o]) = _
  rw [← List.append_assoc]
  exact congrArg (· ++ [o]) ops_cutEnded

theorem grows_extended : Grows n c (c.extended o) := by
  have labels : (c.extended o).labels = c.labels := labels_cutEnded
  refine ⟨complete_cutEnded, ?_, Nat.le_of_eq (by rw [labels]), ?_, ?_, ?_⟩
  · rw [ops_extended]
    exact List.prefix_append _ _
  · intro k _
    unfold opening
    rw [labels]
  · intro k i hi
    unfold opening at hi ⊢
    rw [labels, hi]
  · intro k hk
    unfold isUsed at hk ⊢
    rw [labels, hk]

theorem opening_aimed (k : Nat) : (c.aimed l).opening k = c.opening k := by
  unfold aimed
  rw [opening_relabelled]
  split
  · rfl
  · rfl

theorem isUsed_aimed (hl : l < c.labels.length) : (c.aimed l).isUsed l = true := by
  unfold aimed
  rw [isUsed_relabelled, if_pos rfl, List.getElem?_eq_getElem hl]
  rfl

theorem grows_aimed : Grows n c (c.aimed l) := by
  refine ⟨List.prefix_rfl, List.prefix_rfl, Nat.le_of_eq (by simp [aimed, relabelled]), ?_, ?_, ?_⟩
  · intro k _
    exact opening_aimed k
  · intro k i hi
    rw [opening_aimed, hi]
  · intro k hk
    unfold aimed
    rw [isUsed_relabelled]
    split
    · have := lt_of_isUsed hk
      rw [List.getElem?_eq_getElem this]
      rfl
    · exact hk

theorem grows_added : Grows n c (c.added o) := by
  cases o <;> first
    | exact grows_extended
    | exact grows_extended.trans grows_aimed

theorem ops_added : (c.added o).ops = c.ops ++ [o] := by
  rw [← ops_extended]
  cases o <;> rfl

theorem size_added : (c.added o).size = c.size + 1 := by
  simp [size, ops_added]

theorem count_added : (c.added o).labels.length = c.labels.length := by
  have h : (c.extended o).labels.length = c.labels.length := congrArg _ labels_cutEnded
  cases o <;> simp [added, aimed, relabelled, h]

theorem ended_added : (c.added o).ended = o.ends := by
  have h : (c.added o).current.getLast? = some o := by
    cases o <;> simp [added, extended, aimed, relabelled]
  simp [ended, h]

/-- A jump uses its label. -/
theorem isUsed_added (hl : l < c.labels.length) : (c.added (.jump l)).isUsed l = true := by
  refine isUsed_aimed (c := c.extended (.jump l)) ?_
  rwa [show (c.extended (.jump l)).labels = c.labels from labels_cutEnded]

/-- The operation stands behind those that were there. -/
theorem op_added (h : Grows n (c.added o) P) : P.Op c.size o := by
  refine h.op ?_
  unfold Op size
  rw [ops_added, List.getElem?_append_right (Nat.le_refl _), Nat.sub_self]
  rfl

theorem opening_added (k : Nat) : (c.added o).opening k = c.opening k := by
  have h : (c.extended o).opening k = c.opening k := by
    unfold opening
    rw [show (c.extended o).labels = c.labels from labels_cutEnded]
  cases o <;> first
    | exact h
    | exact (opening_aimed k).trans h

theorem grows_addedUnless {b : Bool} : Grows n c (c.addedUnless b o) := by
  cases b with
  | true => exact .refl c
  | false => exact grows_added

theorem count_addedUnless {b : Bool} :
    (c.addedUnless b o).labels.length = c.labels.length := by
  cases b with
  | true => rfl
  | false => exact count_added

theorem opening_addedUnless {b : Bool} (k : Nat) :
    (c.addedUnless b o).opening k = c.opening k := by
  cases b with
  | true => rfl
  | false => exact opening_added k

/-! ### One more place -/

theorem ops_cutFilled : c.cutFilled.ops = c.ops := by
  unfold cutFilled
  split
  · rfl
  · exact ops_cut

theorem current_cutFilled : c.cutFilled.current = [] := by
  unfold cutFilled
  split
  · rename_i h
    exact List.isEmpty_iff.mp h
  · rfl

theorem labels_cutFilled : c.cutFilled.labels = c.labels := by
  unfold cutFilled
  split <;> rfl

theorem ops_opened : (c.opened l).ops = c.ops := ops_cutFilled

theorem size_opened : (c.opened l).size = c.size := by
  rw [size, ops_opened, size]

theorem ended_opened : (c.opened l).ended = false := by
  have h : (c.opened l).current = [] := current_cutFilled
  simp [ended, h]

theorem count_opened : (c.opened l).labels.length = c.labels.length := by
  simp [opened, relabelled, labels_cutFilled]

theorem opening_opened (k : Nat) : (c.opened l).opening k =
    if l = k ∧ l < c.labels.length then some c.cutFilled.complete.length else c.opening k := by
  unfold opened
  rw [opening_relabelled, labels_cutFilled]
  have same : c.cutFilled.opening k = c.opening k := by
    unfold opening
    rw [labels_cutFilled]
  by_cases hk : l = k
  · subst hk
    rw [if_pos rfl]
    by_cases hl : l < c.labels.length
    · rw [List.getElem?_eq_getElem hl, if_pos ⟨rfl, hl⟩]
      rfl
    · have none : c.labels[l]? = none := List.getElem?_eq_none (Nat.le_of_not_lt hl)
      rw [none, if_neg fun h => hl h.2]
      unfold opening
      rw [none]
      rfl
  · rw [if_neg hk, if_neg fun h => hk h.1, same]

theorem opening_opened_ne {k : Nat} (h : l ≠ k) : (c.opened l).opening k = c.opening k := by
  rw [opening_opened, if_neg fun h' => h h'.1]

theorem grows_opened (hn : n ≤ l) (hl : c.opening l = none) : Grows n c (c.opened l) := by
  refine ⟨?_, ops_opened ▸ List.prefix_rfl, Nat.le_of_eq count_opened.symm, ?_, ?_, ?_⟩
  · change c.complete <+: c.cutFilled.complete
    unfold cutFilled
    split
    · exact List.prefix_rfl
    · exact List.prefix_append _ _
  · intro k hk
    rw [opening_opened, if_neg]
    rintro ⟨rfl, -⟩
    omega
  · intro k i hi
    rw [opening_opened, if_neg, hi]
    rintro ⟨rfl, -⟩
    rw [hl] at hi
    cases hi
  · intro k hk
    unfold opened
    rw [isUsed_relabelled, labels_cutFilled]
    split
    · exact hk
    · unfold isUsed at hk ⊢
      rw [labels_cutFilled]
      exact hk

/-- An opened label stands at the place at which it was opened. -/
theorem leads_opened (h : Grows n (c.opened l) P) (hl : l < c.labels.length) :
    P.Leads l c.size := by
  have ho : P.opening l = some c.cutFilled.complete.length := by
    refine h.opening l _ ?_
    rw [opening_opened, if_pos ⟨rfl, hl⟩]
  have hs : P.stateOf l = c.cutFilled.complete.length := by
    have : P.stateOf l = (P.opening l).getD 0 := rfl
    rw [this, ho]
    rfl
  obtain ⟨more, hm⟩ := h.complete
  have hp : P.complete = c.cutFilled.complete ++ more := hm.symm
  unfold Leads Begins
  rw [hs]
  constructor
  · rw [states, hp]
    simp
  · rw [place, states, hp, List.append_assoc, List.take_left', size, ← ops_cutFilled, ops,
      current_cutFilled, List.append_nil]
    rfl

theorem grows_openedIfUsed (hn : n ≤ l) (hl : c.opening l = none) :
    Grows n c (c.openedIfUsed l) := by
  unfold openedIfUsed
  split
  · exact grows_opened hn hl
  · exact .refl c

theorem size_openedIfUsed : (c.openedIfUsed l).size = c.size := by
  unfold openedIfUsed
  split
  · exact size_opened
  · rfl

theorem count_openedIfUsed : (c.openedIfUsed l).labels.length = c.labels.length := by
  unfold openedIfUsed
  split
  · exact count_opened
  · rfl

theorem opening_openedIfUsed_ne {k : Nat} (h : l ≠ k) :
    (c.openedIfUsed l).opening k = c.opening k := by
  unfold openedIfUsed
  split
  · exact opening_opened_ne h
  · rfl

/-- A label to which a jump goes stands at the place at which it would be opened. -/
theorem leads_openedIfUsed (h : Grows n (c.openedIfUsed l) P) (hu : c.isUsed l = true) :
    P.Leads l c.size := by
  unfold openedIfUsed at h
  rw [if_pos hu] at h
  exact leads_opened h (lt_of_isUsed hu)

end Compiler

end Weaver.Generator
