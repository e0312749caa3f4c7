import Weaver.Proofs.Generator.Layout
import Weaver.Proofs.Generator.Kept
/-!
The dispatch loop and its operations.

Where the dispatch loop is, is a place in the operations: what is still to be run in the selected
case, and in the cases behind it, are the operations from that place on. This module says what the
loop does at a place, one lemma for each kind of operation.
-/
set_option autoImplicit false

namespace Weaver.Generator

namespace Compiler

variable (P : Compiler)

/-- The statements from a place on. Behind the last state stands the default. -/
def codeFrom (p : Nat) : List Code :=
  (P.ops.drop p).flatMap P.stmtsOf ++ [Code.returning (.bool false)]

/-- At an operation, its statements come first. -/
theorem codeFrom_op {p : Nat} {o : Operation} (h : P.Op p o) :
    P.codeFrom p = P.stmtsOf o ++ P.codeFrom (p + 1) := by
  obtain ⟨hp, ho⟩ := List.getElem?_eq_some_iff.mp h
  rw [codeFrom, codeFrom, List.drop_eq_getElem_cons hp, ho, List.flatMap_cons, List.append_assoc]

/-- Behind all operations, the end is reported. -/
theorem codeFrom_size : P.codeFrom P.size = [.returning (.bool false)] := by
  rw [codeFrom, size, List.drop_length]
  rfl

/-- The operations from the beginning of a state on are those of the state and the states behind
it. -/
theorem drop_place (n : Nat) : P.ops.drop (P.place n) = (P.states.drop n).flatten := by
  have h : P.ops = (P.states.take n).flatten ++ (P.states.drop n).flatten := by
    rw [ops_eq_flatten, ← List.flatten_append, List.take_append_drop]
  rw [h, place, List.drop_left]

/-- The cases of some states, numbered from a number on. -/
def numbered : Nat → List (List Operation) → List Code
  | _, [] => []
  | n, s :: ss => .switchCase (.int n) (s.flatMap P.stmtsOf) :: numbered (n + 1) ss

theorem map_mapIdx (ss : List (List Operation)) (n : Nat) (f : Nat → List Operation → State)
    (hid : ∀ i s, (f i s).id = n + i) (hstmts : ∀ i s, (f i s).stmts = s.flatMap P.stmtsOf) :
    (ss.mapIdx f).map (fun s => Code.switchCase (.int s.id) s.stmts) = P.numbered n ss := by
  induction ss generalizing n f with
  | nil => rfl
  | cons s ss ih =>
    rw [List.mapIdx_cons, List.map_cons, hid, hstmts, numbered]
    rw [ih (n + 1) (fun i => f (i + 1)) (fun i s => by rw [hid]; omega) fun i => hstmts (i + 1)]
    rfl

/-- The switch of the machine. -/
theorem switch_eq : P.machine.switch = .switchOn (.named stateField)
    (P.numbered 0 P.states ++ [Code.switchCase .missing [.returning (.bool false)]]) := by
  have h := P.map_mapIdx P.states 0 (fun i ops => P.stateFor (i + 1 == P.states.length) i ops)
    (fun i s => by simp [stateFor]) (fun i s => by simp [stateFor])
  rw [← h]
  rfl

theorem caseStmts_numbered (n : Nat) (ss : List (List Operation)) :
    caseStmts (P.numbered n ss ++ [Code.switchCase .missing [.returning (.bool false)]]) =
      ss.flatten.flatMap P.stmtsOf ++ [Code.returning (.bool false)] := by
  induction ss generalizing n with
  | nil => rfl
  | cons s ss ih =>
    rw [numbered, List.cons_append, caseStmts, ih]
    simp

variable {S V : Type} (M : Meaning S V)

theorem findCase_numbered {n k : Nat} (ss : List (List Operation)) (tail : List Code) (hk : k ≤ n)
    (hn : n < k + ss.length) :
    Meaning.selected.findCase M (M.ofInt n) (P.numbered k ss ++ tail) =
      P.numbered n (ss.drop (n - k)) ++ tail := by
  induction ss generalizing k with
  | nil => simp at hn; omega
  | cons s ss ih =>
    rw [numbered, List.cons_append, Meaning.selected.findCase, M.selects_int]
    by_cases h : n = k
    · subst h
      simp [Code.int, Code.isMissing, numbered]
    · have hd : n - k = (n - (k + 1)) + 1 := by omega
      rw [if_neg (by simp; omega), ih (by omega) (by simp at hn; omega), hd, List.drop_succ_cons]

/-- **The case of a state is followed by everything from its beginning on.** -/
theorem selected_switch {n p : Nat} (h : P.Begins n p) :
    M.selected (M.ofInt n)
      (P.numbered 0 P.states ++ [Code.switchCase .missing [.returning (.bool false)]]) =
        P.codeFrom p := by
  obtain ⟨hn, rfl⟩ := h
  have first : P.states.drop n = P.states[n] :: P.states.drop (n + 1) :=
    List.drop_eq_getElem_cons hn
  unfold Meaning.selected
  rw [P.findCase_numbered M P.states _ (Nat.zero_le n) (by omega), codeFrom, drop_place,
    ← P.caseStmts_numbered n, Nat.sub_zero, first]
  rfl

end Compiler

/-! ## Places -/

section

variable {S V : Type} (M : Meaning S V) {hidden : List String} (P : Compiler)

/-- The loop over the switch. -/
def dispatchLoop : Cycle V := .test (.bool true) P.machine.switch

/-- The frames of the dispatch loop at a place. -/
def base (p : Nat) : List (Frame V) := [.rest (P.codeFrom p), .choice, .body (dispatchLoop P)]

/-- The dispatch loop is at a place. -/
def atPlace (p : Nat) (m : Memory S V) : Config (Memory S V) V := ⟨.done, base P p, m⟩

/-- The dispatch loop is about to go on in another state. -/
def atJump (p : Nat) (m : Memory S V) : Config (Memory S V) V :=
  ⟨.leave (.jump (.cont "")), base P p, m⟩

variable {M P}

/-- The steps of the loop are those of its code, until it returns. -/
theorem Silently.dispatch {m : Machine} {n : Nat} {c d : Config (Memory S V) V}
    (h : Silently (M.withFields hidden).step n c d) : Silently (M.dispatch hidden m) n c d := by
  induction h with
  | refl => exact .refl _
  | move hs _ ih =>
    refine .move ?_ ih
    simp only [Meaning.dispatch, hs]

theorem eval_hidden {x : String} (hx : x ∈ hidden) (m : Memory S V) :
    (M.withFields hidden).eval (.named x) m = (m.own x, m) :=
  if_pos hx

/-- The switch selects the place at which the state begins. -/
theorem run_switch (hidden_state : stateField ∈ hidden) {n p : Nat} {m : Memory S V}
    (hn : P.Begins n p) (hm : m.own stateField = M.ofInt n) :
    Silently (M.withFields hidden).step 1 ⟨.run P.machine.switch, [.body (dispatchLoop P)], m⟩
      (atPlace P p m) := by
  refine .one ?_
  rw [P.switch_eq]
  simp only [Meaning.step, Meaning.start, eval_hidden hidden_state, hm]
  have h := P.selected_switch (M.withFields hidden) hn
  change (M.withFields hidden).selected (M.ofInt n) _ = _ at h
  rw [h]
  rfl

/-- A round of the loop begins with its switch. -/
theorem run_head (m : Memory S V) :
    Silently (M.withFields hidden).step 1 ⟨.head (dispatchLoop P), [], m⟩
      ⟨.run P.machine.switch, [.body (dispatchLoop P)], m⟩ := by
  refine .one ?_
  exact congrArg Move.silent (if_pos ((M.withFields hidden).truth_ofBool true))

/-- A pull begins at the place of the state. -/
theorem enter_silently (hidden_state : stateField ∈ hidden) {n p : Nat} {m : Memory S V}
    (hn : P.Begins n p) (hm : m.own stateField = M.ofInt n) :
    Silently (M.withFields hidden).step 3 (Meaning.enter P.machine m) (atPlace P p m) :=
  .move rfl ((run_head m).trans (run_switch hidden_state hn hm))

/-- The loop goes on at the place of the state. -/
theorem jump_silently (hidden_state : stateField ∈ hidden) {n p q : Nat} {m : Memory S V}
    (hn : P.Begins n q) (hm : m.own stateField = M.ofInt n) :
    Silently (M.withFields hidden).step 5 (atJump P p m) (atPlace P q m) :=
  .move rfl (.move rfl (.move rfl ((run_head m).trans (run_switch hidden_state hn hm))))

/-! ## Operations -/

variable (M hidden) in
/-- The one statement of an operation is run. -/
theorem op_silently {p : Nat} {o : Operation} {s : Code} (ho : P.Op p o)
    (hs : P.stmtsOf o = [s]) (m : Memory S V) :
    Silently (M.withFields hidden).step 1 (atPlace P p m) ⟨.run s, base P (p + 1), m⟩ := by
  refine .one ?_
  rw [atPlace, base, P.codeFrom_op ho, hs]
  rfl

/-- A jump sets the state. -/
theorem op_jump (hidden_state : stateField ∈ hidden) {p : Nat} {l : Label}
    (ho : P.Op p (.jump l)) (m : Memory S V) :
    Silently (M.withFields hidden).step 4 (atPlace P p m)
      (atJump P (p + 1) (M.sentTo (P.stateOf l) m)) := by
  rw [atPlace, base, P.codeFrom_op ho]
  exact M.goTo_rest hidden_state (P.stateOf l) _ _ m

/-- A branch whose condition holds sets the state. -/
theorem op_branch_true (hidden_state : stateField ∈ hidden) {p : Nat} {c : Code} {l : Label}
    (ho : P.Op p (.branch c l)) {m m' : Memory S V} {v : V}
    (hc : (M.withFields hidden).eval c m = (v, m')) (hv : M.truth v = true) :
    Silently (M.withFields hidden).step 8 (atPlace P p m)
      (atJump P (p + 1) (M.sentTo (P.stateOf l) m')) := by
  have first := op_silently M hidden ho rfl m
  have test : (M.withFields hidden).step
      ⟨.run (.ifThen c (.block (goTo (P.stateOf l))) .missing), base P (p + 1), m⟩ =
        .silent ⟨.run (.block (goTo (P.stateOf l))), base P (p + 1), m'⟩ := by
    have ht : (M.withFields hidden).truth v = true := hv
    simp only [Meaning.step, Meaning.start, hc]
    rw [if_pos ht]
  have go := M.goTo_rest hidden_state (P.stateOf l) [] (base P (p + 1)) m'
  rw [List.append_nil] at go
  exact first.trans (.move test (.move rfl (go.trans (.one rfl))))

/-- A branch whose condition does not hold is passed. -/
theorem op_branch_false {p : Nat} {c : Code} {l : Label} (ho : P.Op p (.branch c l))
    {m m' : Memory S V} {v : V} (hc : (M.withFields hidden).eval c m = (v, m'))
    (hv : M.truth v = false) :
    Silently (M.withFields hidden).step 3 (atPlace P p m) (atPlace P (p + 1) m') := by
  have first := op_silently M hidden ho rfl m
  have test : (M.withFields hidden).step
      ⟨.run (.ifThen c (.block (goTo (P.stateOf l))) .missing), base P (p + 1), m⟩ =
        .silent ⟨.run .missing, base P (p + 1), m'⟩ := by
    have ht : ¬ (M.withFields hidden).truth v = true := by
      rw [show (M.withFields hidden).truth v = M.truth v from rfl, hv]
      decide
    simp only [Meaning.step, Meaning.start, hc]
    rw [if_neg ht]
  exact first.trans (.move test (.one rfl))

variable (M hidden) in
/-- A statement without control flow is done. -/
theorem op_perform {p : Nat} {o : Operation} {s : Code} (ho : P.Op p o) (hs : P.stmtsOf o = [s])
    (hc : isControl s = false) (hy : isYield s = false) (m : Memory S V) :
    Silently (M.withFields hidden).step 2 (atPlace P p m)
      (atPlace P (p + 1) ((M.withFields hidden).perform s m)) :=
  (op_silently M hidden ho hs m).trans (.one ((M.withFields hidden).start_plain hc hy _ m))

/-- A yield stores the element and the state in which to go on, and pauses. -/
theorem op_yield (hidden_state : stateField ∈ hidden) (hidden_next : nextField ∈ hidden) {p : Nat}
    {e : Code} {l : Label} (ho : P.Op p (.yield e l)) {m m' : Memory S V} {v : V}
    (he : (M.withFields hidden).eval e m = (v, m')) :
    ∃ n d, Silently (M.withFields hidden).step n (atPlace P p m) d ∧
      M.dispatch hidden P.machine d = .pause (v, m'.user)
        (Meaning.enter P.machine (M.sentTo (P.stateOf l) (m'.assigned nextField v))) := by
  have stored : (M.withFields hidden).perform (.assign (.named "$next") e) m =
      m'.assigned nextField v := M.perform_hidden hidden_next he
  have sent : (M.withFields hidden).perform (.assign (.named stateField) (.int (P.stateOf l)))
      (m'.assigned nextField v) = M.sentTo (P.stateOf l) (m'.assigned nextField v) :=
    M.perform_hidden hidden_state rfl
  refine ⟨9, ⟨.leave (.value (M.ofBool true)), [], M.sentTo (P.stateOf l) (m'.assigned nextField v)⟩,
    ?_, ?_⟩
  · rw [← sent, ← stored, atPlace, base, P.codeFrom_op ho]
    exact .move rfl (.move rfl (.move rfl (.move rfl (.move rfl (.move rfl
      (.move rfl (.move rfl (.move rfl (.refl _)))))))))
  · have next : (M.sentTo (P.stateOf l) (m'.assigned nextField v)).own nextField = v := by
      rw [M.sentTo_own _ _ (by decide), Memory.assigned_self]
    rw [← next]
    exact if_pos (M.truth_ofBool true)

variable (M P hidden) in
/-- Behind all operations the loop returns, and the machine has stopped. -/
theorem op_end (m : Memory S V) :
    ∃ n d, Silently (M.withFields hidden).step n (atPlace P P.size m) d ∧
      M.dispatch hidden P.machine d = .stop := by
  refine ⟨5, ⟨.leave (.value (M.ofBool false)), [], m⟩, ?_, ?_⟩
  · rw [atPlace, base, P.codeFrom_size]
    exact .move rfl (.move rfl (.move rfl (.move rfl (.move rfl (.refl _)))))
  · have h : ¬ M.truth (M.ofBool false) = true := by simp [M.truth_ofBool]
    exact if_neg h

end

end Weaver.Generator
