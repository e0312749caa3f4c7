import Mathlib.Data.List.Basic
import Weaver.Proofs.Generator.Equivalence
import Weaver.Proofs.Generator.Tidy
/-!
A compiled machine is well formed.

The states of a machine are those of the finished compilation, and every number of a state in them
belongs to an operation that jumps to a label. `compile_wellFormed` says where these numbers stand
and that each is the state in which its label was opened: a label that is used has always been
opened when the machine is made.
-/
set_option autoImplicit false

namespace Weaver.Generator

/-! ## What an operation becomes -/

namespace Operation

/-- The code of the body in the operation. -/
def source : Operation → List Code
  | stmt s | kept _ s _ => [s]
  | jump _ => []
  | branch cond _ => [cond]
  | yield v _ => [v]

/-- The statements of the operation, by the states of the labels. Every number of a state stands for
one label. -/
def written (state : Label → Nat) : Operation → List Code
  | stmt s => [s]
  | kept _ s loop =>
    [rerouted (fun k => .block (goTo (((leaveLabel loop k).map state).getD 0))) .nothing s]
  | jump l => goTo (state l)
  | branch cond l => [.ifThen cond (.block (goTo (state l))) .missing]
  | yield v l =>
    [.assign (.named nextField) v, .assign (.named stateField) (.int (state l)),
     .returning (.bool true)]

theorem written_ne_nil (state : Label → Nat) (o : Operation) : o.written state ≠ [] := by
  cases o <;> exact List.cons_ne_nil _ _

end Operation

/-- The states to which the jumps of a kept statement go. -/
def keptTargets (state : Label → Nat) (loop : Option Loop) : Targets :=
  ⟨state finishLabel, loop.map fun l => (state l.exit, state l.next)⟩

theorem of_keptTargets (state : Label → Nat) (loop : Option Loop) (k : Leave) :
    (keptTargets state loop).of k = (leaveLabel loop k).map state := by
  cases k <;> cases loop <;> rfl

/-- Keeping a statement that is known to be without a fault. -/
theorem keepStatement_keptTargets {construct : String} {s : Code} {loop : Option Loop}
    (h : (Operation.kept construct s loop).Sound) (state : Label → Nat) :
    keepStatement (keptTargets state loop) construct s =
        .ok (rerouted (keptTargets state loop).jumpTo .nothing s, waysOut .nothing s) ∧
      ∀ k ∈ waysOut .nothing s, ((leaveLabel loop k).map state).isSome = true := by
  obtain ⟨t, ⟨r, ks⟩, ht, hk⟩ := h
  have hloop : t.loop.isSome = (keptTargets state loop).loop.isSome := by
    rw [ht]
    cases loop <;> rfl
  obtain ⟨r', hr', -⟩ := keepStatement_spec [] (keptTargets state loop) hloop hk
  obtain ⟨rfl, rfl, ha⟩ := keepStatement_eq hr'
  refine ⟨hr', fun k hk => ?_⟩
  rw [← of_keptTargets]
  exact ha k hk

/-- What an operation becomes when the labels are known. -/
theorem Compiler.stmtsOf_eq_written {c : Compiler} {o : Operation} (h : o.Sound) :
    c.stmtsOf o = o.written c.stateOf := by
  cases o with
  | kept construct s loop =>
    obtain ⟨hk, -⟩ := keepStatement_keptTargets h c.stateOf
    have same : keepStatement ⟨c.stateOf finishLabel,
        loop.map fun l => (c.stateOf l.exit, c.stateOf l.next)⟩ construct s = _ := hk
    unfold Compiler.stmtsOf
    dsimp only
    rw [same]
    have jumps : (keptTargets c.stateOf loop).jumpTo =
        fun k => .block (goTo (((leaveLabel loop k).map c.stateOf).getD 0)) := by
      funext k
      rw [Targets.jumpTo, of_keptTargets]
    rw [jumps]
    rfl
  | _ => rfl

/-! ## The numbers of states -/

theorem assignedStates_jumps (ks : List Leave) (n : Leave → Nat) :
    assignedStates (ks.map fun k => .block (goTo (n k))) = ks.map fun k => (n k : Int) := by
  induction ks with
  | nil => rfl
  | cons k ks ih =>
    rw [List.map_cons, List.map_cons, ← ih]
    exact assignedStates_append [.block (goTo (n k))] _

/-- The states of the ways out, where each has one. -/
theorem map_getD_eq_map_filterMap {loop : Option Loop} {state : Label → Nat} {ks : List Leave}
    (h : ∀ k ∈ ks, ((leaveLabel loop k).map state).isSome = true) :
    (ks.map fun k => ((((leaveLabel loop k).map state).getD 0 : Nat) : Int)) =
      (ks.filterMap (leaveLabel loop)).map fun l => (state l : Int) := by
  induction ks with
  | nil => rfl
  | cons k ks ih =>
    obtain ⟨hk, hks⟩ := List.forall_mem_cons.mp h
    rw [Option.isSome_map] at hk
    obtain ⟨l, hl⟩ := Option.isSome_iff_exists.mp hk
    rw [List.map_cons, ih hks, List.filterMap_cons_some hl, List.map_cons, hl]
    rfl

/-- What an operation assigns to the field with the number of the next state: what its code assigns
there, and the states of the labels to which it jumps. -/
theorem Operation.assignedStates_written {o : Operation} (h : o.Sound) (state : Label → Nat) :
    (assignedStates (o.written state)).Perm
      (assignedStates o.source ++ o.targets.map fun l => (state l : Int)) := by
  cases o with
  | stmt s =>
    rw [targets, List.map_nil, List.append_nil]
    exact .refl _
  | jump l => exact .refl _
  | branch cond l =>
    have parts : assignedStates ((branch cond l).written state) =
        assignedStates ([cond] ++ [Code.block (goTo (state l))]) :=
      assignedStates_below rfl (by simp [Code.visit, Code.visitAll, Code.andBelow])
    rw [parts, assignedStates_append]
    exact .refl _
  | yield v l =>
    -- the element is assigned to another field
    have element : assignedState (.assign (.named nextField) v) = none := by
      unfold assignedState
      split
      · rename_i h
        cases h
        rfl
      · rfl
    have value : assignedStates [.assign (.named nextField) v] =
        assignedStates [.named nextField, v] :=
      assignedStates_below element (by simp [Code.visit, Code.visitAll, Code.andBelow])
    change (assignedStates ([Code.assign (.named nextField) v] ++
      [.assign (.named stateField) (.int (state l)), .returning (.bool true)])).Perm _
    rw [assignedStates_append, value]
    exact .refl _
  | kept construct s loop =>
    obtain ⟨-, hs⟩ := keepStatement_keptTargets h state
    have tally := tallied_rerouted (f := fun k =>
      .block (goTo (((leaveLabel loop k).map state).getD 0))) s .nothing
    rw [Tallied, assignedStates_jumps] at tally
    refine tally.trans (.of_eq (congrArg _ ?_))
    exact map_getD_eq_map_filterMap hs

/-- The same for operations one after the other. -/
theorem assignedStates_flatMap {ops : List Operation} (h : ∀ o ∈ ops, o.Sound)
    (state : Label → Nat) :
    (assignedStates (ops.flatMap (Operation.written state))).Perm
      (assignedStates (ops.flatMap Operation.source) ++
        (ops.flatMap Operation.targets).map fun l => (state l : Int)) := by
  induction ops with
  | nil => exact .refl _
  | cons o ops ih =>
    obtain ⟨ho, hops⟩ := List.forall_mem_cons.mp h
    have first := List.perm_iff_count.mp (Operation.assignedStates_written ho state)
    have rest := List.perm_iff_count.mp (ih hops)
    rw [List.perm_iff_count]
    intro n
    simp only [List.flatMap_cons, assignedStates_append, List.map_append, List.count_append]
      at first rest ⊢
    rw [first, rest]
    omega

/-! ## The states -/

/-- The last operation goes to the label at once, or when the next element is asked for. -/
def LeadsTo (ops : List Operation) (l : Label) : Prop :=
  ops.getLast? = some (.jump l) ∨ ∃ v, ops.getLast? = some (.yield v l)

/-- A state, of a machine with a number of states, is made of the operations of a compilation. -/
structure State.Renders (s : State) (c : Compiler) (count : Nat) (ops : List Operation) : Prop where
  /-- Only the last state reports the end. -/
  terminal : s.transition = .terminal ↔ s.id + 1 = count
  /-- Only the last state has no statements. -/
  empty : s.stmts = [] ↔ s.id + 1 = count
  emit : s.transition = .emit ↔ ∃ v l, ops.getLast? = some (.yield v l)
  jump : s.transition = .jump ↔ ∃ l, ops.getLast? = some (.jump l)
  /-- Nothing stands behind an operation that ends the state. -/
  ended : ∀ o ∈ ops.dropLast, o.ends = false
  next : ∀ l, LeadsTo ops l → c.opening l = some s.next ∧ s.next < count
  /-- The numbers of states stand in the places of the jumps. -/
  written : s.stmts = ops.flatMap (Operation.written c.stateOf)
  /-- No other numbers are assigned to the field with the number of the next state, except in the
  code of the body. -/
  assigned : (assignedStates s.stmts).Perm
    (assignedStates (ops.flatMap Operation.source) ++
      (ops.flatMap Operation.targets).map fun l => (c.stateOf l : Int))

/-- A machine is made of the states of a compilation. -/
structure Machine.WellFormed (m : Machine) (c : Compiler) : Prop where
  nonempty : m.states ≠ []
  numbered : m.states.map State.id = List.range c.states.length
  /-- Every label to which an operation jumps was opened, in a state of the machine. -/
  resolved : ∀ o ∈ c.ops, ∀ l ∈ o.targets,
    c.opening l = some (c.stateOf l) ∧ c.stateOf l < m.states.length
  renders : ∀ (i : Nat) (s : State) (ops : List Operation), m.states[i]? = some s →
    c.states[i]? = some ops → s.id = i ∧ s.Renders c m.states.length ops

namespace Compiler

variable {c : Compiler}

theorem getElem?_machine (c : Compiler) (i : Nat) : c.machine.states[i]? =
    (c.states[i]?).map (c.stateFor (i + 1 == c.states.length) i) := by
  rw [machine, List.getElem?_mapIdx]
  rfl

theorem length_machine (c : Compiler) : c.machine.states.length = c.states.length := by
  rw [machine, List.length_mapIdx, states]

/-- The states are numbered in their order. -/
theorem ids_machine (c : Compiler) :
    c.machine.states.map State.id = List.range c.states.length := by
  refine List.ext_getElem? fun i => ?_
  rw [List.getElem?_map, getElem?_machine, Option.map_map]
  by_cases hi : i < c.states.length
  · rw [List.getElem?_eq_getElem hi, List.getElem?_range hi]
    rfl
  · rw [List.getElem?_eq_none (Nat.le_of_not_lt hi), List.getElem?_eq_none (by simpa using hi)]
    rfl

/-- A label to which an operation jumps is in its place, when nothing is pending. -/
theorem Tidy.resolved (h : c.Tidy) (hp : ∀ l, ¬ c.Pending l) {o : Operation} (ho : o ∈ c.ops)
    {l : Label} (hl : l ∈ o.targets) :
    c.opening l = some (c.stateOf l) ∧ c.stateOf l < c.states.length := by
  have hu : c.isUsed l = true := h.aimed o ho l hl
  cases hopen : c.opening l with
  | none => exact absurd ⟨hu, hopen⟩ (hp l)
  | some i =>
    have hs : c.stateOf l = i := by
      rw [show c.stateOf l = (c.opening l).getD 0 from rfl, hopen]
      rfl
    rw [hs]
    exact ⟨rfl, h.placed l i hopen⟩

/-- Of the states of a tidy compilation whose current state is empty, only the last one is empty. -/
theorem Tidy.eq_nil_iff (h : c.Tidy) (hc : c.current = []) {i : Nat} {ops : List Operation}
    (hi : c.states[i]? = some ops) : ops = [] ↔ i + 1 = c.states.length := by
  have length : c.states.length = c.complete.length + 1 := by
    rw [states, List.length_append, List.length_singleton]
  rw [states] at hi
  by_cases hlt : i < c.complete.length
  · rw [List.getElem?_append_left hlt] at hi
    have hne := h.filled ops (List.mem_of_getElem? hi)
    constructor
    · exact fun he => absurd he hne
    · intro he
      omega
  · rw [List.getElem?_append_right (Nat.le_of_not_lt hlt), List.getElem?_singleton, hc] at hi
    split at hi
    · cases hi
      exact ⟨fun _ => by omega, fun _ => rfl⟩
    · cases hi

section

variable {last : Bool} {i : Nat} {ops : List Operation}

theorem stateFor_jump {l : Label} (h : ops.getLast? = some (.jump l)) :
    c.stateFor last i ops = ⟨i, ops.flatMap c.stmtsOf, .jump, c.stateOf l⟩ := by
  rw [stateFor, h]

theorem stateFor_yield {v : Code} {l : Label} (h : ops.getLast? = some (.yield v l)) :
    c.stateFor last i ops = ⟨i, ops.flatMap c.stmtsOf, .emit, c.stateOf l⟩ := by
  rw [stateFor, h]

theorem stateFor_other (h : ∀ l, ¬ LeadsTo ops l) : c.stateFor last i ops =
    ⟨i, ops.flatMap c.stmtsOf, if last then .terminal else .through, 0⟩ := by
  cases hl : ops.getLast? with
  | none => rw [stateFor, hl]
  | some o =>
    cases o with
    | jump l => exact absurd (.inl hl) (h l)
    | yield v l => exact absurd (.inr ⟨v, hl⟩) (h l)
    | _ => rw [stateFor, hl]

/-- How control leaves a state is told by its last operation. -/
theorem Tidy.transition (h : c.Tidy) (hc : c.current = []) (hi : c.states[i]? = some ops) :
    let s := c.stateFor (i + 1 == c.states.length) i ops
    (s.transition = .terminal ↔ i + 1 = c.states.length) ∧
      (s.transition = .emit ↔ ∃ v l, ops.getLast? = some (.yield v l)) ∧
        (s.transition = .jump ↔ ∃ l, ops.getLast? = some (.jump l)) ∧
          ∀ l, LeadsTo ops l → s.next = c.stateOf l := by
  have nil_iff := h.eq_nil_iff hc hi
  intro s
  by_cases hl : ∃ l, LeadsTo ops l
  · obtain ⟨l, hl⟩ := hl
    -- the last state has no operations
    have inner : ¬ i + 1 = c.states.length := by
      rw [← nil_iff]
      rintro rfl
      obtain hl | ⟨v, hl⟩ := hl <;> cases hl
    obtain hl | ⟨v, hl⟩ := hl
    · have hs : s = ⟨i, ops.flatMap c.stmtsOf, .jump, c.stateOf l⟩ := stateFor_jump hl
      simp [hs, hl, inner, LeadsTo]
    · have hs : s = ⟨i, ops.flatMap c.stmtsOf, .emit, c.stateOf l⟩ := stateFor_yield hl
      simp [hs, hl, inner, LeadsTo]
  · have hs : s = ⟨i, ops.flatMap c.stmtsOf,
        if i + 1 == c.states.length then .terminal else .through, 0⟩ :=
      stateFor_other fun l hle => hl ⟨l, hle⟩
    have no_jump : ¬ ∃ l, ops.getLast? = some (.jump l) := fun ⟨l, h⟩ => hl ⟨l, .inl h⟩
    have no_yield : ¬ ∃ v l, ops.getLast? = some (.yield v l) :=
      fun ⟨v, l, h⟩ => hl ⟨l, .inr ⟨v, h⟩⟩
    rw [hs]
    refine ⟨?_, ?_, ?_, fun l hle => absurd ⟨l, hle⟩ hl⟩
    · by_cases he : i + 1 = c.states.length <;> simp [he]
    · by_cases he : i + 1 = c.states.length <;> simp [he, no_yield]
    · by_cases he : i + 1 = c.states.length <;> simp [he, no_jump]

/-- The states of a compilation in which nothing is pending are made of its operations. -/
theorem Tidy.renders (h : c.Tidy) (hc : c.current = []) (hp : ∀ l, ¬ c.Pending l)
    (hi : c.states[i]? = some ops) :
    (c.stateFor (i + 1 == c.states.length) i ops).Renders c c.states.length ops := by
  have mem : ops ∈ c.states := List.mem_of_getElem? hi
  have inner : ∀ o ∈ ops, o ∈ c.ops := by
    intro o ho
    rw [ops_eq_flatten]
    exact List.mem_flatten_of_mem mem ho
  have sound : ∀ o ∈ ops, o.Sound := fun o ho => h.sound o (inner o ho)
  have id : (c.stateFor (i + 1 == c.states.length) i ops).id = i := rfl
  have stmts : (c.stateFor (i + 1 == c.states.length) i ops).stmts =
      ops.flatMap (Operation.written c.stateOf) := by
    change ops.flatMap c.stmtsOf = _
    exact List.flatMap_congr fun o ho => stmtsOf_eq_written (sound o ho)
  obtain ⟨terminal, emit, jump, next⟩ := h.transition hc hi
  refine ⟨terminal, ?_, emit, jump, h.sealed ops mem, fun l hl => ?_, stmts, ?_⟩
  · rw [id, ← h.eq_nil_iff hc hi, stmts, List.flatMap_eq_nil_iff]
    constructor
    · intro hall
      cases ops with
      | nil => rfl
      | cons o ops => exact absurd (hall o List.mem_cons_self) (o.written_ne_nil _)
    · rintro rfl o ⟨⟩
  · rw [next l hl]
    obtain hl | ⟨v, hl⟩ := hl
    · exact h.resolved hp (inner _ (List.mem_of_getLast? hl)) (List.mem_singleton_self l)
    · exact h.resolved hp (inner _ (List.mem_of_getLast? hl)) (List.mem_singleton_self l)
  · rw [stmts]
    exact assignedStates_flatMap sound c.stateOf

end

end Compiler

/-! ## All machines -/

/-- **Compiled machines are well formed.** Whatever body compiles, its machine consists of the states
of the compilation, numbered from zero; the last one is empty and the only one that reports the end;
and every number of a state that stands in them belongs to a label, which was opened there. -/
theorem compile_wellFormed {body : List Code} {m : Machine} (h : compile body = .ok m) :
    ∃ c : Compiler,
      (do compileStmts none body; openLabel finishLabel : Compile Unit).run .start = .ok ((), c) ∧
        m.WellFormed c := by
  obtain ⟨c, hc, rfl⟩ := compile_ok h
  have range : InRange .start none := ⟨Nat.zero_lt_one, nofun⟩
  have tidies : Tidies [finishLabel] .start (c.opened finishLabel) :=
    (compileStmts_tidies body range hc).trans .place
  have tidy : (c.opened finishLabel).Tidy := by
    refine tidies.tidy ⟨nofun, ?_, nofun, nofun, ?_⟩
    · rintro ops hm o ho
      rw [List.mem_singleton.mp hm] at ho
      cases ho
    · intro l i hi
      match l, hi with
      | 0, hi => cases hi
      | l + 1, hi => cases hi
  have pending : ∀ l, ¬ (c.opened finishLabel).Pending l := by
    intro l hl
    obtain hp | hm := tidies.pending l hl
    · match l, hp with
      | 0, ⟨hu, _⟩ => cases hu
      | l + 1, ⟨hu, _⟩ => cases hu
    · rw [List.mem_singleton.mp hm] at hl
      exact Compiler.not_pending_opened hl
  have current : (c.opened finishLabel).current = [] := Compiler.current_cutFilled
  refine ⟨c.opened finishLabel, run_bind.mpr ⟨_, hc, run_openLabel⟩, ?_, Compiler.ids_machine _, ?_,
    ?_⟩
  · rw [← List.length_pos_iff, Compiler.length_machine, Compiler.states, List.length_append]
    exact Nat.lt_of_lt_of_le Nat.zero_lt_one (Nat.le_add_left _ _)
  · intro o ho l hl
    rw [Compiler.length_machine]
    exact tidy.resolved pending ho hl
  · intro i s ops hs hi
    rw [Compiler.getElem?_machine, hi, Option.map_some, Option.some.injEq] at hs
    rw [Compiler.length_machine]
    subst hs
    exact ⟨rfl, tidy.renders current pending hi⟩

/-- A loop that is left by the jumps of a kept statement, and goes on with the next round in one
branch and with a yield in the other. -/
def leftByTry : List Code :=
  [.whileLoop (.named "x") (.block
    [.tryCatch (.block [.ifThen (.named "y") (.returnDefault) (.breaking "")]) [] (.block []),
     .ifThen (.named "z") (.continuing "") (.call .missing "yield" [] [.int 1])])]

theorem leftByTry_wellFormed : ∃ m c, compile leftByTry = .ok m ∧
    (do compileStmts none leftByTry; openLabel finishLabel : Compile Unit).run .start =
      .ok ((), c) ∧ m.WellFormed c ∧
        m.states.map (fun s => (s.transition, assignedStates s.stmts)) =
          [(.jump, [3, 3, 3, 1, 0]), (.emit, [2]), (.jump, [0]), (.terminal, [])] := by
  have states : (compile leftByTry).toOption.map
      (fun m => m.states.map fun s => (s.transition, assignedStates s.stmts)) =
        some [(.jump, [3, 3, 3, 1, 0]), (.emit, [2]), (.jump, [0]), (.terminal, [])] := by
    decide +kernel
  cases h : compile leftByTry with
  | error e =>
    rw [h] at states
    cases states
  | ok m =>
    rw [h] at states
    obtain ⟨c, hc, hm⟩ := compile_wellFormed h
    exact ⟨m, c, rfl, hc, hm, Option.some.inj states⟩

end Weaver.Generator
