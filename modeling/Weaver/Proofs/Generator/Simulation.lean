import Mathlib.Algebra.GroupWithZero.Nat
import Weaver.Proofs.Generator.Dispatch
/-!
The dispatch loop does what the body does.

The direct run is followed with the loop at a place: what the statements and frames of the run are
still to do is what the operations from that place on do. Where the run takes a step for which there
is no operation, such as opening a block, the loop stands still. That cannot go on for ever: a measure
of the run goes down at each such step, and a loop whose condition needs no test has a jump at the
end of its round.
-/
set_option autoImplicit false

namespace Weaver.Generator

/-! ## Names of cursors -/

theorem cursorName_injective {a b : String} (h : cursorName a = cursorName b) : a = b :=
  (String.append_right_inj "$").mp ((String.append_left_inj "Iter").mp h)

/-- The name of a cursor ends with an `r`. -/
theorem getLast_cursorName (n : String) : (cursorName n).toList.getLast? = some 'r' := by
  rw [cursorName, String.toList_append, List.getLast?_append]
  rfl

theorem cursorName_ne_state (n : String) : cursorName n ≠ stateField := by
  intro h
  have hl := getLast_cursorName n
  rw [h] at hl
  exact absurd hl (by decide)

theorem cursorName_ne_next (n : String) : cursorName n ≠ nextField := by
  intro h
  have hl := getLast_cursorName n
  rw [h] at hl
  exact absurd hl (by decide)

/-! ## The measure of a run -/

section

variable {S V : Type}

/-- The measure of a loop between two rounds: what is done without an operation until the next test. -/
noncomputable def Cycle.weight : Cycle V → Nat
  | .test c b => if isTrue c then 5 * sizeOf b + 2 else 0
  | .counted c u b => if c.isMissing || isTrue c then 5 * sizeOf b + 5 * sizeOf u + 3 else 0
  | .each .. => 0

/-- The measure of a frame. -/
noncomputable def Frame.weight : Frame V → Nat
  | .rest ss => 5 * sizeOf ss
  | .body (.counted _ u _) => 5 * sizeOf u + 2
  | .first c => c.weight + 1
  | _ => 1

/-- The measure of what is being done. -/
noncomputable def Focus.weight : Focus V → Nat
  | .run s => 5 * sizeOf s
  | .head c => c.weight
  | _ => 0

/-- The measure of a configuration. -/
noncomputable def Config.weight (c : Config S V) : Nat := c.focus.weight + (c.stack.map Frame.weight).sum

theorem Config.weight_mk (f : Focus V) (K : List (Frame V)) (σ : S) :
    (⟨f, K, σ⟩ : Config S V).weight = f.weight + (K.map Frame.weight).sum := rfl

/-- A frame that is left makes the measure smaller. -/
theorem Frame.weight_pos (f : Frame V) : 0 < f.weight := by
  cases f with
  | rest ss => cases ss <;> simp only [weight, List.nil.sizeOf_spec, List.cons.sizeOf_spec] <;> omega
  | body c => cases c <;> exact Nat.succ_pos _
  | _ => exact Nat.succ_pos _

theorem Config.weight_pop (f f' : Focus V) (hf : f'.weight = 0) (fr : Frame V) (K : List (Frame V))
    (σ σ' : S) : (⟨f', K, σ'⟩ : Config S V).weight < (⟨f, fr :: K, σ⟩ : Config S V).weight := by
  have := fr.weight_pos
  rw [weight_mk, weight_mk, List.map_cons, List.sum_cons, hf]
  omega

end

/-! ## Operations for frames -/

section

variable {S V : Type} {M : Meaning S V} {P : Compiler} {hidden : List String}

/-- The cursor of a loop over a collection is in its field. -/
def Cycle.Held (own : String → V) : Cycle V → Prop
  | .each _ n it _ => own (cursorName n) = it
  | _ => True

theorem Cycle.Held.of_kept {c : Cycle V} {own : String → V} (h : c.Held own) {m : Memory S V}
    (ho : OwnKept own m) : c.Held m.own := by
  cases c with
  | each t n it b => exact (ho _ (cursorName_ne_state n)).trans h
  | _ => trivial

/-- The operations from the place on do what the frames do. -/
inductive Implements (P : Compiler) (hidden : List String) (own : String → V) :
    Env → List (Frame V) → Nat → Prop where
  | finish : Implements P hidden own ⟨P.size, none, []⟩ [] P.size
  | jump {env : Env} {K : List (Frame V)} {p q : Nat} (hp : P.Jumps p q)
      (hK : Implements P hidden own env K q) : Implements P hidden own env K p
  | rest {env : Env} {ss : List Code} {K : List (Frame V)} {p q : Nat}
      (h : LoweredAll P hidden env ss p q) (hK : Implements P hidden own env K q) :
      Implements P hidden own env (.rest ss :: K) p
  | first {env : Env} {e b : Code} {u : List Code} {K : List (Frame V)} {g b₀ q : Nat}
      (h : LoopAt P hidden env (.counted e u b) g b₀ q) (hK : Implements P hidden own env K q) :
      Implements P hidden own env (.first (.counted e u b) :: K) g
  | again {env : Env} {e b : Code} {u : List Code} {K : List (Frame V)} {g p b₀ q : Nat}
      (hp : P.Jumps p g) (h : LoopAt P hidden env (.counted e u b) g b₀ q)
      (hK : Implements P hidden own env K q) :
      Implements P hidden own env (.again (.counted e u b) :: K) p
  | body {env : Env} {c : Cycle V} {K : List (Frame V)} {g b₀ p q x : Nat} (hc : c.Held own)
      (h : LoopAt P hidden env c.shape g b₀ q) (hx : Restarts P hidden env c.shape g x)
      (hp : RoundEnds P hidden env c.shape g p) (hK : Implements P hidden own env K q) :
      Implements P hidden own (c.shape.within env q x) (.body c :: K) p

namespace Implements

variable {own own' : String → V} {env : Env} {K : List (Frame V)} {p : Nat}

/-- Only the cursors matter. -/
theorem of_cursors (h : Implements P hidden own env K p)
    (ho : ∀ n ∈ env.vars, own' (cursorName n) = own (cursorName n)) :
    Implements P hidden own' env K p := by
  induction h with
  | finish => exact .finish
  | jump hp _ ih => exact .jump hp (ih ho)
  | rest h _ ih => exact .rest h (ih ho)
  | first h _ ih => exact .first h (ih ho)
  | again hp h _ ih => exact .again hp h (ih ho)
  | @body env c K g b₀ p q x hc h hx hp _ ih =>
    cases c with
    | test e b => exact .body trivial h hx hp (ih ho)
    | counted e u b => exact .body trivial h hx hp (ih ho)
    | each t n it b =>
      have held : own' (cursorName n) = it := (ho n (List.mem_cons_self ..)).trans hc
      exact .body held h hx hp (ih fun m hm => ho m (List.mem_cons_of_mem _ hm))

theorem of_kept (h : Implements P hidden own env K p) {m : Memory S V} (ho : OwnKept own m) :
    Implements P hidden m.own env K p :=
  h.of_cursors fun n _ => ho _ (cursorName_ne_state n)

/-- No frame is a label. -/
theorem labelsOn (h : Implements P hidden own env K p) : labelsOn K = [] := by
  induction h with
  | jump _ _ ih => exact ih
  | _ => rfl

end Implements

/-! ## Configurations that belong together -/

/-- A configuration of the direct run and one of the dispatch loop that belong together. -/
inductive Match (M : Meaning S V) (P : Compiler) (hidden : List String) :
    Config S V → Config (Memory S V) V → Prop where
  | run {env : Env} {s : Code} {K : List (Frame V)} {p q : Nat} {m : Memory S V}
      (hs : Lowered P hidden env s p q) (hK : Implements P hidden m.own env K q) :
      Match M P hidden ⟨.run s, K, m.user⟩ (atPlace P p m)
  | head {env : Env} {c : Cycle V} {K : List (Frame V)} {g b₀ q : Nat} {m : Memory S V}
      (hc : c.Held m.own) (h : LoopAt P hidden env c.shape g b₀ q)
      (hK : Implements P hidden m.own env K q) :
      Match M P hidden ⟨.head c, K, m.user⟩ (atPlace P g m)
  | done {env : Env} {K : List (Frame V)} {p : Nat} {m : Memory S V}
      (hK : Implements P hidden m.own env K p) :
      Match M P hidden ⟨.done, K, m.user⟩ (atPlace P p m)
  | leave {env : Env} {K : List (Frame V)} {j : Jump} {n p q r : Nat} {m : Memory S V}
      (ht : env.target j = some q) (hn : P.Begins n q) (hm : m.own stateField = M.ofInt n)
      (hK : Implements P hidden m.own env K p) :
      Match M P hidden ⟨.leave (.jump j), K, m.user⟩ (atJump P r m)
  | inside {env : Env} {root : Reach} {own : String → V} {K : List (Frame V)} {p : Nat}
      {c : Config S V} {d : Config (Memory S V) V} (hroot : ∀ j, ¬ root.stay j)
      (ht : ∀ j n, root.leave j = some n → ∃ q, env.target j = some q ∧ P.Begins n q)
      (hK : Implements P hidden own env K p) (h : Inside M hidden root K (base P p) own c d) :
      Match M P hidden c d
  | pull {c : Config S V} {n p : Nat} {m : Memory S V} (hn : P.Begins n p)
      (hm : m.own stateField = M.ofInt n) (h : Match M P hidden c (atPlace P p m)) :
      Match M P hidden c (Meaning.enter P.machine m)

/-- The next step of the direct run is answered by the dispatch loop. -/
def Follows (M : Meaning S V) (P : Compiler) (hidden : List String) (c : Config S V)
    (d : Config (Memory S V) V) : Prop :=
  Answers (M.dispatch hidden P.machine) (Match M P hidden) Config.weight c d (M.step c)

namespace Follows

variable {c c' : Config S V} {d d' : Config (Memory S V) V}

/-- The dispatch loop stands still. -/
theorem stutter (hR : Match M P hidden c' d) (h : M.step c = .silent c')
    (hw : c'.weight < c.weight) : Follows M P hidden c d := by
  rw [Follows, h]
  exact ⟨0, d, .refl d, hR, .inr hw⟩

/-- The dispatch loop moves. -/
theorem progress {n : Nat} (hs : Silently (M.withFields hidden).step (n + 1) d d')
    (hR : Match M P hidden c' d') (h : M.step c = .silent c') :
    Follows M P hidden c d := by
  rw [Follows, h]
  exact ⟨n + 1, d', hs.dispatch, hR, .inl (Nat.succ_pos n)⟩

/-- The dispatch loop moves before it answers. -/
theorem after {n : Nat} (hs : Silently (M.withFields hidden).step n d d')
    (h : Follows M P hidden c d') : Follows M P hidden c d := by
  unfold Follows at h ⊢
  cases hc : M.step c with
  | silent c' =>
    rw [hc] at h
    obtain ⟨k, d'', hs', hR, hk⟩ := h
    exact ⟨n + k, d'', hs.dispatch.trans hs', hR, hk.imp (fun h => by omega) id⟩
  | pause o c' =>
    rw [hc] at h
    obtain ⟨k, d₀, d'', hs', hp, hR⟩ := h
    exact ⟨n + k, d₀, d'', hs.dispatch.trans hs', hp, hR⟩
  | stop =>
    rw [hc] at h
    obtain ⟨k, d₀, hs', hp⟩ := h
    exact ⟨n + k, d₀, hs.dispatch.trans hs', hp⟩

end Follows

/-! ## One step of the run -/

/-- A jump takes the loop to its target. -/
theorem jumps_silently (hidden_state : stateField ∈ hidden) {p q : Nat} (h : P.Jumps p q)
    {own : String → V} {m : Memory S V} (ho : OwnKept own m) :
    ∃ n m', Silently (M.withFields hidden).step (n + 1) (atPlace P p m) (atPlace P q m') ∧
      m'.user = m.user ∧ OwnKept own m' := by
  obtain ⟨l, hop, hl⟩ := h
  exact ⟨8, _, (op_jump hidden_state hop m).trans
    (jump_silently hidden_state hl (M.sentTo_state _ m)), rfl, ho.sentTo M _⟩

/-- A branch takes the loop to its target where its condition holds. -/
theorem branch_silently (hidden_state : stateField ∈ hidden) {p q : Nat} {c : Code} {l : Label}
    (hop : P.Op p (.branch c l)) (hl : P.Leads l q) {m : Memory S V} {v : V} {σ : S}
    (he : (M.withFields hidden).eval c m = (v, { m with user := σ })) :
    ∃ n m', Silently (M.withFields hidden).step (n + 1) (atPlace P p m)
      (atPlace P (if M.truth v then q else p + 1) m') ∧ m'.user = σ ∧ OwnKept m.own m' := by
  cases hv : M.truth v with
  | true =>
    exact ⟨12, _, (op_branch_true hidden_state hop he hv).trans
      (jump_silently hidden_state hl (M.sentTo_state _ _)), rfl, fun x hx => M.sentTo_own _ _ hx⟩
  | false => exact ⟨2, _, op_branch_false hop he hv, rfl, fun _ _ => rfl⟩

theorem eval_negated {c : Code} {m m' : Memory S V} {v : V}
    (he : (M.withFields hidden).eval c m = (v, m')) :
    (M.withFields hidden).eval (negated c) m = (M.ofBool (!M.truth v), m') := by
  simp only [negated, Meaning.eval, he]
  rfl

/-- A branch with the negated condition takes the loop to its target where the condition does not
hold. -/
theorem unless_silently (hidden_state : stateField ∈ hidden) {p q : Nat} {c : Code} {l : Label}
    (hop : P.Op p (.branch (negated c) l)) (hl : P.Leads l q) {m : Memory S V} {v : V} {σ : S}
    (he : (M.withFields hidden).eval c m = (v, { m with user := σ })) :
    ∃ n m', Silently (M.withFields hidden).step (n + 1) (atPlace P p m)
      (atPlace P (if M.truth v then p + 1 else q) m') ∧ m'.user = σ ∧ OwnKept m.own m' := by
  obtain ⟨n, m', hs, hu, ho⟩ := branch_silently hidden_state hop hl (eval_negated he)
  refine ⟨n, m', ?_, hu, ho⟩
  rw [M.truth_ofBool] at hs
  cases hv : M.truth v <;> rw [hv] at hs <;> exact hs

/-- The test of a loop takes the loop to the body or behind it. -/
theorem tests_silently (hidden_state : stateField ∈ hidden) {c : Code} {g b q : Nat}
    (ht : P.Tests false c g b q) (hc : Fresh hidden c) (m : Memory S V) :
    ∃ n m', Silently (M.withFields hidden).step (n + 1) (atPlace P g m)
      (atPlace P (if M.truth (M.eval c m.user).1 then b else q) m') ∧
        m'.user = (M.eval c m.user).2 ∧ OwnKept m.own m' := by
  cases ht with
  | always hs => cases hs
  | before _ hop hl => exact unless_silently hidden_state hop hl (M.eval_withFields c hc m)
  | behind _ hop hl => exact branch_silently hidden_state hop hl (M.eval_withFields c hc m)

section

variable {own : String → V} {env : Env} {K : List (Frame V)} {p q : Nat} {m : Memory S V}

/-- Where a round comes to its end, the loop goes to the next round. It may stand still only if that
begins with a test. -/
theorem ends_silently (hidden_state : stateField ∈ hidden) {c : Cycle V} {g b₀ : Nat}
    (hc : c.Held own) (h : LoopAt P hidden env c.shape g b₀ q)
    (hp : RoundEnds P hidden env c.shape g p) (hK : Implements P hidden own env K q)
    (ho : OwnKept own m) :
    ∃ n d, Silently (M.withFields hidden).step n (atPlace P p m) d ∧
      Match M P hidden (nextRound c K m.user) d ∧ (0 < n ∨ (nextRound c K m.user).weight <
        (⟨.done, .body c :: K, m.user⟩ : Config S V).weight) := by
  have back : P.Jumps p g → nextRound c K m.user = ⟨.head c, K, m.user⟩ →
      ∃ n d, Silently (M.withFields hidden).step n (atPlace P p m) d ∧
        Match M P hidden (nextRound c K m.user) d ∧ (0 < n ∨ (nextRound c K m.user).weight <
          (⟨.done, .body c :: K, m.user⟩ : Config S V).weight) := by
    intro hp hn
    obtain ⟨n, m', hs, hu, ho'⟩ := jumps_silently (M := M) hidden_state hp ho
    refine ⟨n + 1, _, hs, ?_, .inl (Nat.succ_pos n)⟩
    rw [hn, ← hu]
    exact .head (hc.of_kept ho') h (hK.of_kept ho')
  cases c with
  | test e b =>
    cases hp with
    | test hp ha =>
      obtain rfl | hp := hp
      · cases he : isTrue e with
        | true => exact back (ha he) rfl
        | false =>
          refine ⟨0, _, .refl _, .head (hc.of_kept ho) h (hK.of_kept ho), .inr ?_⟩
          simp [Config.weight_mk, nextRound, Focus.weight, Frame.weight, Cycle.weight, he]
      · exact back hp rfl
  | counted e u b =>
    cases hp with
    | counted hu hr =>
      refine ⟨0, _, .refl _, .done (.rest hu (.again hr h (hK.of_kept ho))), .inr ?_⟩
      simp only [Config.weight_mk, nextRound, List.map_cons, List.sum_cons, Focus.weight,
        Frame.weight]
      omega
  | each t n it b =>
    cases hp with
    | each hp => exact back hp rfl

/-- What comes behind a statement follows. -/
theorem follows_done (hidden_state : stateField ∈ hidden) (hK : Implements P hidden own env K p)
    (ho : OwnKept own m) : Follows M P hidden ⟨.done, K, m.user⟩ (atPlace P p m) := by
  induction hK generalizing m with
  | finish =>
    obtain ⟨n, d, hs, hd⟩ := op_end M hidden P m
    exact ⟨n, d, hs.dispatch, hd⟩
  | jump hp _ ih =>
    obtain ⟨n, m', hs, hu, ho'⟩ := jumps_silently (M := M) hidden_state hp ho
    rw [← hu]
    exact .after hs (ih ho')
  | rest h hK =>
    cases h with
    | nil => exact .stutter (.done (hK.of_kept ho)) rfl (Config.weight_pop _ _ rfl _ _ _ _)
    | cons h hs =>
      refine .stutter (.run h (.rest hs (hK.of_kept ho))) rfl ?_
      simp only [Config.weight_mk, List.map_cons, List.sum_cons, Focus.weight, Frame.weight,
        List.cons.sizeOf_spec]
      omega
  | first h hK =>
    refine .stutter (.head (c := .counted ..) trivial h (hK.of_kept ho)) rfl ?_
    simp only [Config.weight_mk, List.map_cons, List.sum_cons, Focus.weight, Frame.weight]
    omega
  | again hp h hK =>
    obtain ⟨n, m', hs, hu, ho'⟩ := jumps_silently (M := M) hidden_state hp ho
    rw [← hu]
    exact .progress hs (.head (c := .counted ..) trivial h (hK.of_kept ho')) rfl
  | @body _ c K _ _ _ _ _ hc h _ hp hK =>
    obtain ⟨n, d, hs, hR, hw⟩ := ends_silently hidden_state hc h hp hK ho
    exact ⟨n, d, hs.dispatch, hR, hw⟩

/-- A jump that is on its way follows: the loop goes to its target at once, when the run has got
there. -/
theorem follows_leave (hidden_state : stateField ∈ hidden) (hK : Implements P hidden own env K p)
    (ho : OwnKept own m) {j : Jump} {n r : Nat} (ht : env.target j = some q) (hn : P.Begins n q)
    (hm : m.own stateField = M.ofInt n) :
    Follows M P hidden ⟨.leave (.jump j), K, m.user⟩ (atJump P r m) := by
  have arrive := jump_silently (p := r) hidden_state hn hm
  induction hK with
  | finish =>
    cases j with
    | ret =>
      cases ht
      obtain ⟨k, d, hs, hd⟩ := op_end M hidden P m
      exact .after arrive ⟨k, d, hs.dispatch, hd⟩
    | brk l | cont l => simp [Env.target] at ht
  | jump _ _ ih => exact ih ht
  | rest _ hK =>
    exact .stutter (.leave ht hn hm (hK.of_kept ho)) rfl (Config.weight_pop _ _ rfl _ _ _ _)
  | first _ hK =>
    exact .stutter (.leave ht hn hm (hK.of_kept ho)) rfl (Config.weight_pop _ _ rfl _ _ _ _)
  | again _ _ hK =>
    exact .stutter (.leave ht hn hm (hK.of_kept ho)) rfl (Config.weight_pop _ _ rfl _ _ _ _)
  | @body env c K g b₀ p q' x hc h hx hp hK =>
    cases j with
    | ret =>
      have ht' : env.target .ret = some q := ht
      exact .stutter (.leave ht' hn hm (hK.of_kept ho)) rfl (Config.weight_pop _ _ rfl _ _ _ _)
    | brk l =>
      cases hl : l.isEmpty with
      | false => simp [Env.target, hl] at ht
      | true =>
        simp only [Env.target, hl, if_true, Cycle.within, Option.map_some, Option.some.injEq] at ht
        subst ht
        refine .progress arrive (.done (hK.of_kept ho)) ?_
        simp [Meaning.step, unwind, hl]
    | cont l =>
      cases hl : l.isEmpty with
      | false => simp [Env.target, hl] at ht
      | true =>
        simp only [Env.target, hl, if_true, Cycle.within, Option.map_some, Option.some.injEq] at ht
        subst ht
        have caught : M.step ⟨.leave (.jump (.cont l)), .body c :: K, m.user⟩ =
            .silent (nextRound c K m.user) := by simp [Meaning.step, unwind, hl]
        cases hx with
        | head hn =>
          refine .progress arrive (.head (hc.of_kept ho) h (hK.of_kept ho)) ?_
          rw [caught]
          cases c with
          | counted e u b => exact absurd rfl (hn e u b)
          | _ => rfl
        | ends hx =>
          obtain ⟨k, d, hs, hR, -⟩ := ends_silently hidden_state hc h hx hK ho
          rw [Follows, caught]
          exact ⟨5 + k, d, (arrive.trans hs).dispatch, hR, .inl (by omega)⟩

/-- A kept statement follows. -/
theorem follows_inside (hidden_state : stateField ∈ hidden) {root : Reach}
    (hroot : ∀ j, ¬ root.stay j)
    (ht : ∀ j n, root.leave j = some n → ∃ q, env.target j = some q ∧ P.Begins n q)
    (hK : Implements P hidden own env K p) {c : Config S V} {d : Config (Memory S V) V}
    (h : Inside M hidden root K (base P p) own c d) : Follows M P hidden c d := by
  have labels : labelsOn K = labelsOn (base P p : List (Frame V)) := hK.labelsOn
  obtain h | ⟨c', n, d', hc, hs, hR⟩ := h.step hidden_state hroot labels
  · cases h with
    | done ho => exact follows_done hidden_state hK ho
    | leave ho hj hm =>
      obtain ⟨q, hq, hn⟩ := ht _ _ hj
      exact follows_leave hidden_state hK ho hq hn hm
  · exact .progress hs (.inside hroot ht hK hR) hc

theorem eq_true_of_isTrue {c : Code} (h : isTrue c = true) : c = .bool true := by
  cases c with
  | bool b => exact congrArg Code.bool h
  | _ => cases h

/-- The question for a next element is asked of the cursor. -/
theorem eval_hasNext {n : String} (hn : cursorName n ∈ hidden) (m : Memory S V) :
    (M.withFields hidden).eval (.invoke (cursorOf n) "hasNext" []) m =
      Meaning.lift m (M.hasNext (m.own (cursorName n)) m.user) :=
  if_pos hn

/-- The next element is taken from the cursor. -/
theorem perform_next {t : Code} {n : String} (hn : n ∉ hidden) (hc : cursorName n ∈ hidden)
    {m : Memory S V} {v : V} {σ : S} (hr : M.next (m.own (cursorName n)) m.user = (v, σ)) :
    (M.withFields hidden).perform
        (.assign (.named n) (.cast t (.invoke (cursorOf n) "next" []))) m =
      { m with user := M.store n (M.convert t v) σ } := by
  have next : (M.withFields hidden).eval (.invoke (cursorOf n) "next" []) m =
      (v, { m with user := σ }) := by
    have h : (M.withFields hidden).eval (.invoke (cursorOf n) "next" []) m =
      Meaning.lift m (M.next (m.own (cursorName n)) m.user) := if_pos hc
    rw [h, hr]
    rfl
  simp only [Meaning.perform, Meaning.eval, next]
  exact M.store_user hn _ _

/-- A loop between two rounds follows. -/
theorem follows_head (hidden_state : stateField ∈ hidden) {c : Cycle V} {g b₀ : Nat}
    (hc : c.Held m.own) (h : LoopAt P hidden env c.shape g b₀ q)
    (hK : Implements P hidden m.own env K q) :
    Follows M P hidden ⟨.head c, K, m.user⟩ (atPlace P g m) := by
  have hl := h
  cases h with
  | @mk _ _ _ _ _ x y hh hb hx hy =>
    have body : ∀ m' : Memory S V, OwnKept m.own m' →
        Match M P hidden ⟨.run c.inner, .body c :: K, m'.user⟩ (atPlace P b₀ m') := by
      intro m' ho
      refine .run (q := y) ?_ (.body (hc.of_kept ho) hl hx hy (hK.of_kept ho))
      cases c <;> exact hb
    have behind : ∀ {m' : Memory S V}, OwnKept m.own m' →
        Match M P hidden ⟨.done, K, m'.user⟩ (atPlace P q m') :=
      fun ho => .done (hK.of_kept ho)
    have tested : ∀ {e : Code}, Fresh hidden e → P.Tests false e g b₀ q →
        M.round c K m.user = (if M.truth (M.eval e m.user).1
          then ⟨.run c.inner, .body c :: K, (M.eval e m.user).2⟩
          else ⟨.done, K, (M.eval e m.user).2⟩) →
        Follows M P hidden ⟨.head c, K, m.user⟩ (atPlace P g m) := by
      intro e he ht hr
      obtain ⟨n, m', hs, hu, ho⟩ := tests_silently hidden_state ht he m
      rw [← hu] at hr
      refine .progress hs ?_ (congrArg Move.silent hr)
      split
      · exact body m' ho
      · exact behind ho
    have untested : b₀ = g → M.round c K m.user = ⟨.run c.inner, .body c :: K, m.user⟩ →
        (.run c.inner : Focus V).weight + (.body c : Frame V).weight < c.weight →
        Follows M P hidden ⟨.head c, K, m.user⟩ (atPlace P g m) := by
      rintro rfl hr hw
      refine .stutter (body m fun _ _ => rfl) (congrArg Move.silent hr) ?_
      simp only [Config.weight_mk, List.map_cons, List.sum_cons]
      exact (Nat.add_assoc _ _ _).symm ▸ Nat.add_lt_add_right hw _
    cases c with
    | test e b =>
      cases hh with
      | test he ht =>
        cases hs : isTrue e with
        | true =>
          rw [hs] at ht
          obtain rfl := eq_true_of_isTrue hs
          cases ht with
          | always =>
            refine untested rfl ?_ ?_
            · exact if_pos (M.truth_ofBool true)
            · simp only [Focus.weight, Frame.weight, Cycle.weight, Cycle.inner, hs, if_true]
              omega
          | before hs => cases hs
          | behind hs => cases hs
        | false =>
          rw [hs] at ht
          exact tested he ht rfl
    | counted e u b =>
      cases hh with
      | counted he ht =>
        cases hs : e.isMissing || isTrue e with
        | true =>
          rw [hs] at ht
          cases ht with
          | always =>
            refine untested rfl ?_ ?_
            · cases hm : e.isMissing with
              | true => exact if_pos hm
              | false =>
                rw [hm, Bool.false_or] at hs
                obtain rfl := eq_true_of_isTrue hs
                exact if_pos (M.truth_ofBool true)
            · simp only [Focus.weight, Frame.weight, Cycle.weight, Cycle.inner, hs, if_true]
              omega
          | before hs => cases hs
          | behind hs => cases hs
        | false =>
          rw [hs] at ht
          have hm : ¬ e.isMissing = true := by simp_all
          exact tested he ht (if_neg hm)
    | each t n it b =>
      cases hh with
      | each hn hcur hop hl hop' =>
        obtain ⟨k, m', hs, hu, ho⟩ := unless_silently hidden_state hop hl (eval_hasNext hcur m)
        have held : m.own (cursorName n) = it := hc
        have held' : m'.own (cursorName n) = it := (ho _ (cursorName_ne_state n)).trans held
        rw [held] at hu hs
        have step : M.step ⟨.head (.each t n it b), K, m.user⟩ =
            .silent (if M.truth (M.hasNext it m.user).1
              then ⟨.run b, .body (.each t n it b) :: K,
                M.store n (M.convert t (M.next it m'.user).1) (M.next it m'.user).2⟩
              else ⟨.done, K, m'.user⟩) := by rw [hu]; rfl
        cases ht : M.truth (M.hasNext it m.user).1 with
        | true =>
          rw [ht, if_pos rfl] at hs step
          have hs' := op_perform M hidden hop' rfl rfl rfl m'
          rw [perform_next hn hcur (congrArg (M.next · m'.user) held')] at hs'
          have moved := hs.trans hs'
          rw [Nat.add_right_comm] at moved
          exact .progress moved (body ⟨_, m'.own⟩ ho) step
        | false =>
          rw [ht, if_neg Bool.false_ne_true] at hs step
          exact .progress hs (behind ho) step

theorem start_yield {s e : Code} (h : yielded s = some e) (σ : S) :
    M.start s K σ = .pause ((M.eval e σ).1, (M.eval e σ).2) ⟨.done, K, (M.eval e σ).2⟩ := by
  cases s with
  | call r n ts args => simp only [Meaning.start, h]
  | _ => cases h

/-- The value of a declaration is assigned to its variable. -/
theorem perform_declaration (N : Meaning S V) {t i : Code} {n : String} {mods : Syntax.Flags}
    {annos : List Code} (hi : i.isMissing = false) (σ : S) :
    N.perform (.localDecl t n mods annos i) σ =
      N.perform (.assign (.named n) (initialValue t i)) σ := by
  simp only [Meaning.perform, hi, Bool.false_eq_true, if_false]

/-- A statement follows. -/
theorem follows_run (hidden_state : stateField ∈ hidden) (hidden_next : nextField ∈ hidden)
    {s : Code} (hs : Lowered P hidden env s p q) (hK : Implements P hidden m.own env K q) :
    Follows M P hidden ⟨.run s, K, m.user⟩ (atPlace P p m) := by
  have kept : OwnKept m.own m := fun _ _ => rfl
  cases hs with
  | skip =>
    refine .stutter (.done hK) rfl ?_
    simp [Config.weight_mk, Focus.weight]
  | declared =>
    refine .stutter (.done hK) rfl ?_
    simp only [Config.weight_mk, Focus.weight, Code.localDecl.sizeOf_spec]
    omega
  | @initialized _ t i n mods annos _ hi hf hop =>
    have hs := op_perform M hidden hop rfl rfl rfl m
    rw [← perform_declaration _ hi, M.perform_withFields hf] at hs
    exact .progress hs (.done (m := { m with user := _ }) hK) rfl
  | kept hop hs hr hroot ht =>
    exact .after (op_silently M hidden hop hs m)
      (follows_inside hidden_state hroot ht hK (.run kept hr .base))
  | @yield _ _ e l _ hy hf hop hl =>
    obtain ⟨n, d, hs, hd⟩ := op_yield hidden_state hidden_next hop (M.eval_withFields e hf m)
    have step : M.step ⟨.run s, K, m.user⟩ = _ := start_yield hy m.user
    rw [Follows, step]
    have hK' : Implements P hidden
        (M.sentTo (P.stateOf l) ((Memory.mk (M.eval e m.user).2 m.own).assigned nextField
          (M.eval e m.user).1)).own env K (p + 1) := by
      refine hK.of_cursors fun x _ => ?_
      rw [M.sentTo_own _ _ (cursorName_ne_state x), Memory.assigned_other _ _ (cursorName_ne_next x)]
    exact ⟨n, d, _, hs.dispatch, hd, .pull hl (M.sentTo_state _ _) (.done hK')⟩
  | jump hj ht ho =>
    obtain ⟨l, hop, hl⟩ := ho
    exact .progress (op_jump hidden_state hop m)
      (.leave ht hl (M.sentTo_state _ m) (hK.of_kept (kept.sentTo M _))) (M.start_jump hj K m.user)
  | block h =>
    refine .stutter (.done (.rest h hK)) rfl ?_
    simp only [Config.weight_mk, List.map_cons, List.sum_cons, Focus.weight, Frame.weight,
      Code.block.sizeOf_spec]
    omega
  | @ifThen _ c y n l _ _ r r' hc hop hl hy hg hn =>
    obtain ⟨k, m', hs, hu, ho⟩ := unless_silently hidden_state hop hl (M.eval_withFields c hc m)
    have step : M.step ⟨.run (.ifThen c y n), K, m.user⟩ = .silent
        ⟨.run (if M.truth (M.eval c m.user).1 then y else n), K, m'.user⟩ := by rw [hu]; rfl
    refine .progress hs ?_ step
    split
    · refine .run hy ?_
      obtain rfl | hg := hg
      · exact hK.of_kept ho
      · exact .jump hg (hK.of_kept ho)
    · exact .run hn (hK.of_kept ho)
  | @whileLoop _ c b _ _ _ h =>
    refine .stutter (.head (c := .test c b) trivial h hK) rfl ?_
    simp only [Config.weight_mk, Focus.weight, Cycle.weight, Code.whileLoop.sizeOf_spec]
    split <;> omega
  | @doLoop _ c b _ _ _ h =>
    have hl := h
    cases h with
    | mk hh hb hx hy =>
      refine .stutter (.run hb (.body (c := .test c b) trivial hl hx hy hK)) rfl ?_
      simp only [Config.weight_mk, List.map_cons, List.sum_cons, Focus.weight, Frame.weight,
        Cycle.inner, Code.doLoop.sizeOf_spec]
      omega
  | @forLoop _ i u c b _ _ _ _ hi h =>
    refine .stutter (.done (.rest hi (.first h hK))) rfl ?_
    simp only [Config.weight_mk, List.map_cons, List.sum_cons, Focus.weight, Frame.weight,
      Cycle.weight, Code.forLoop.sizeOf_spec]
    split <;> omega
  | @foreach _ t e b i n mods annos _ _ _ he hn hop h =>
    have hcur : cursorName n ∈ hidden := by
      cases h with
      | mk hh _ _ _ =>
        cases hh with
        | each _ hcur _ _ _ => exact hcur
    have hi : Fresh hidden (.invoke e "iterator" []) :=
      Everywhere.call.mpr ⟨by simp [mentioned], he, by simp, by simp⟩
    have hs := op_perform M hidden hop rfl rfl rfl m
    rw [cursorOf, M.perform_hidden hcur (M.eval_withFields _ hi m)] at hs
    have hK' : Implements P hidden ((Memory.mk (M.eval (.invoke e "iterator" []) m.user).2
        m.own).assigned (cursorName n) (M.eval (.invoke e "iterator" []) m.user).1).own env K q :=
      hK.of_cursors fun x hx =>
        Memory.assigned_other _ _ fun h => hn (cursorName_injective h ▸ hx)
    exact .progress hs (.head (c := .each ..) (Memory.assigned_self _ _ _) h hK') rfl

/-- **The dispatch loop simulates the body.** -/
theorem simulates (hidden_state : stateField ∈ hidden) (hidden_next : nextField ∈ hidden) :
    Simulates M.step (M.dispatch hidden P.machine) (Match M P hidden) Config.weight := by
  intro c d h
  induction h with
  | run hs hK => exact follows_run hidden_state hidden_next hs hK
  | head hc h hK => exact follows_head hidden_state hc h hK
  | done hK => exact follows_done hidden_state hK fun _ _ => rfl
  | leave ht hn hm hK => exact follows_leave hidden_state hK (fun _ _ => rfl) ht hn hm
  | inside hroot ht hK h => exact follows_inside hidden_state hroot ht hK h
  | pull hn hm _ ih => exact Follows.after (enter_silently hidden_state hn hm) ih

end

end

end Weaver.Generator
