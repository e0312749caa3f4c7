import Weaver.Proofs.Generator.Lowering
import Weaver.Proofs.Generator.Simulation
/-!
A generator gives the elements that its body yields.

The class that runs a compiled body is pulled; so is the body itself, which pauses at its yields.
`compile_pulled_iff` says that every number of pulls gives the same elements, with the same store at
each of them, and the same end. There is one reservation, `overwrites`: a leaving jump that waits for
the end of a `finally` block loses its target to another one that is given up inside that block.
-/
set_option autoImplicit false

namespace Weaver.Generator

/-! ## The statement -/

/-- The fields of the iterator class that a body must not know of: the number of the state, the next
element, and the cursors of its loops. -/
def ownFields (body : List Code) : List String :=
  stateField :: nextField ::
    ((Code.visitAll (fun _ => false) body).filterMap loopVar).map cursorName

/-- What is taken for granted of a body at every place: the fields of the class are not named, only
plain statements stand in the head of a `for` loop, and the variable of a loop is its own. -/
def Ordinary (fields : List String) (d : Code) : Prop :=
  (∀ x ∈ mentioned d, x ∉ fields) ∧ plainHead d = true ∧ ownVar d

instance (d : Code) : Decidable (ownVar d) :=
  inferInstanceAs (Decidable (∀ n ∈ loopVar d, Everywhere (fun e => loopVar e ≠ some n) (loopBody d)))

instance (fields : List String) (d : Code) : Decidable (Ordinary fields d) :=
  inferInstanceAs (Decidable (_ ∧ _ ∧ _))

/-- The direct run of a body, at its beginning. -/
def beginning {S V : Type} (body : List Code) (σ : S) : Config S V := ⟨.run (.block body), [], σ⟩

/-! ## The proof -/

theorem lowerable_of_ordinary {body : List Code}
    (h : ∀ s ∈ body, Everywhere (Ordinary (ownFields body)) s) :
    ∀ s ∈ body, Everywhere (Lowerable (ownFields body)) s := by
  intro s hs d hd
  obtain ⟨hn, hp, ho⟩ := h s hs d hd
  refine ⟨hn, hp, ho, fun n hv => ?_⟩
  have var : n ∈ (Code.visitAll (fun _ => false) body).filterMap loopVar :=
    List.mem_filterMap.mpr ⟨d, mem_visitAll.mpr ⟨s, hs, hd⟩, hv⟩
  exact List.mem_cons_of_mem _ (List.mem_cons_of_mem _ (List.mem_map_of_mem var))

/-- A compilation that succeeds compiles the statements of the body and opens the end behind them. -/
theorem compile_ok {body : List Code} {m : Machine} (h : compile body = .ok m) :
    ∃ c, (compileStmts none body).run .start = .ok ((), c) ∧ m = (c.opened finishLabel).machine := by
  unfold compile at h
  cases hr : (do compileStmts none body; openLabel finishLabel : Compile Unit).run .start with
  | error e =>
    rw [hr] at h
    cases h
  | ok r =>
    rw [hr] at h
    cases h
    obtain ⟨⟨_, c⟩, hc, ho⟩ := run_bind.mp hr
    rw [run_openLabel] at ho
    cases ho
    exact ⟨c, hc, rfl⟩

/-- At the beginning, the body and its machine belong together. -/
theorem match_beginning {body : List Code} {m : Machine} (h : compile body = .ok m)
    (hbody : ∀ s ∈ body, Everywhere (Ordinary (ownFields body)) s)
    (hsafe : overwritesAny body = false) {S V : Type} (M : Meaning S V) (σ : Memory S V)
    (hσ : σ.own stateField = M.ofInt 0) :
    ∃ P : Compiler, m = P.machine ∧
      Match M P (ownFields body) (beginning body σ.user) (Meaning.enter P.machine σ) := by
  obtain ⟨c, hc, rfl⟩ := compile_ok h
  refine ⟨_, rfl, ?_⟩
  have range : InRange .start none := ⟨Nat.zero_lt_one, nofun⟩
  have compiled : Compiled .start c none (ValidAll (ownFields body) body)
      fun P env => LoweredAll P (ownFields body) env body := compileStmts_spec body range hc
  have closed : c.opening finishLabel = none := compiled.grows.below _ Nat.zero_lt_one
  have hP := Compiler.grows_opened (Nat.zero_le finishLabel) closed
  have size : (c.opened finishLabel).size = c.size := Compiler.size_opened
  have suits : Suits (c.opened finishLabel) c none ⟨c.size, none, []⟩ :=
    ⟨Compiler.leads_opened (n := 0) (.refl _) (Nat.lt_of_lt_of_le Nat.zero_lt_one compiled.grows.count),
      nofun⟩
  obtain ⟨layout, -⟩ := compiled.layout _ _ hP suits
    ⟨lowerable_of_ordinary hbody, hsafe, fun _ hx => nomatch hx⟩
  have first : (c.opened finishLabel).Begins 0 0 := by
    refine ⟨?_, rfl⟩
    rw [Compiler.states, List.length_append]
    exact Nat.lt_of_lt_of_le Nat.zero_lt_one (Nat.le_add_left _ _)
  refine .pull first hσ (.run (.block layout) ?_)
  rw [← size]
  exact .finish

/-- **Compiling a generator preserves its meaning.** Where no leaving jump is overwritten, every
number of pulls of the dispatch loop, begun in state 0, gives what the body yields directly: the same
elements in the same order, with the same values of its variables at each of them, and the end where
the body ends. -/
theorem compile_pulled_iff {body : List Code} {m : Machine} (h : compile body = .ok m)
    (hbody : ∀ s ∈ body, Everywhere (Ordinary (ownFields body)) s)
    (hsafe : overwritesAny body = false) {S V : Type} (M : Meaning S V) (σ : Memory S V)
    (hσ : σ.own stateField = M.ofInt 0) (n : Nat) (os : List (V × S)) :
    Pulled M.step n (beginning body σ.user) os ↔
      Pulled (M.dispatch (ownFields body) m) n (Meaning.enter m σ) os := by
  obtain ⟨P, rfl, hR⟩ := match_beginning h hbody hsafe M σ hσ
  have hidden_state : stateField ∈ ownFields body := List.mem_cons_self ..
  have hidden_next : nextField ∈ ownFields body :=
    List.mem_cons_of_mem _ (List.mem_cons_self ..)
  exact (simulates hidden_state hidden_next).pulled_iff hR n os

/-! ## Two bodies -/

/-- A meaning over a store of one number. Every expression is that number, and a collection is asked
for it three times. -/
def counting : Meaning Int Int where
  value _ σ := (σ, σ)
  effect _ σ := σ + 1
  store _ v _ := v
  convert _ v := v
  hasNext _ σ := (if σ < 3 then 1 else 0, σ)
  next _ σ := (σ + 1, σ)
  selects v p := match p with
    | .number (.literal (.int n)) => v == n
    | _ => false
  truth v := v != 0
  ofBool b := if b then 1 else 0
  ofInt n := n
  truth_ofBool := by decide
  selects_int _ _ := rfl

/-- A loop over a collection that leaves out one element with a kept `switch`. -/
def twoOfThree : List Code :=
  [.foreach (.localDecl (.type "int") "x" .empty [] .missing) (.named "xs") (.block
    [.switchOn (.named "x") [.switchCase (.int 2) [.continuing ""]],
     .call .missing "yield" [] [.named "x"]])]

/-- The machine of the loop gives the two elements and reports the end. -/
theorem twoOfThree_pulled : ∃ m, compile twoOfThree = .ok m ∧
    Pulled (counting.dispatch (ownFields twoOfThree) m) 3
      (Meaning.enter m ⟨0, fun _ => 0⟩) [(1, 1), (3, 3)] := by
  cases h : compile twoOfThree with
  | error e =>
    have compiles : (compile twoOfThree).isOk = true := by decide
    rw [h] at compiles
    cases compiles
  | ok m =>
    have direct : Pulled counting.step 3 (beginning twoOfThree 0) [(1, 1), (3, 3)] :=
      .of_pullsWithin (k := 50) (by decide)
    exact ⟨m, rfl, (compile_pulled_iff h (by decide) (by decide +kernel) counting
      ⟨0, fun _ => 0⟩ rfl 3 _).mp direct⟩

/-- A body that returns behind its first element, with a `break` of the loop that is given up on the
way. -/
def overwritten : List Code :=
  [.whileLoop (.named "x") (.block
    [.call .missing "yield" [] [.int 1],
     .tryCatch (.block [.returnDefault]) [] (.block
       [.labeled "l" (.tryCatch (.block [.breaking ""]) [] (.block [.breaking "l"]))])]),
   .call .missing "yield" [] [.int 2]]

/-- The machine leaves the loop with the `break`, and goes on behind it. -/
theorem overwritten_pulled : ∃ m, compile overwritten = .ok m ∧
    (∀ s ∈ overwritten, Everywhere (Ordinary (ownFields overwritten)) s) ∧
    Pulled counting.step 2 (beginning overwritten 1) [(1, 1)] ∧
    ¬ Pulled (counting.dispatch (ownFields overwritten) m) 2 (Meaning.enter m ⟨1, fun _ => 0⟩)
      [(1, 1)] := by
  have run : (compile overwritten).toOption.bind (fun m =>
      pullsWithin (counting.dispatch (ownFields overwritten) m) 100 2
        (Meaning.enter m ⟨1, fun _ => 0⟩)) = some [(1, 1), (2, 1)] := by decide
  cases h : compile overwritten with
  | error e =>
    rw [h] at run
    cases run
  | ok m =>
    rw [h] at run
    refine ⟨m, rfl, by decide, .of_pullsWithin (k := 50) (by decide +kernel), fun hp => ?_⟩
    exact absurd (hp.unique (.of_pullsWithin run)) (by decide)

end Weaver.Generator
