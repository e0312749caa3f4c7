import Weaver.Proofs.Generator.Redirect
/-!
Where keeping a statement changes it.

`keepStatement` replaces jumps while it looks for faults. What it returns can be said without the
faults: `rerouted` walks the statement and puts another statement in the place of every jump that
leaves, and `waysOut` lists how these jumps leave, in the order in which they are written. So the
numbers of states in a kept statement are found in two ways, by the places of the jumps and by
counting the assignments to the field with the number of the next state.
-/
set_option autoImplicit false

namespace Weaver.Generator

mutual

/-- The statement with another one in the place of every jump that leaves it, by the way in which
the jump leaves. -/
def rerouted (f : Leave → Code) (a : Around) : Code → Code
  | .returning e => match e with
    | .missing => f .finish
    | e => .returning e
  | .returnDefault => f .finish
  | .breaking l => if l.isEmpty && !a.loop && !a.switch then f .exit else .breaking l
  | .continuing l => if l.isEmpty && !a.loop then f .next else .continuing l
  | .block ss => .block (reroutedAll f a ss)
  | .ifThen c y n => .ifThen c (rerouted f a y) (rerouted f a n)
  | .whileLoop c b => .whileLoop c (rerouted f a.inLoop b)
  | .doLoop b c => .doLoop (rerouted f a.inLoop b) c
  | .forLoop i c u b => .forLoop i c u (rerouted f a.inLoop b)
  | .foreach v e b => .foreach v e (rerouted f a.inLoop b)
  | .switchOn e cs => .switchOn e (reroutedAll f a.inSwitch cs)
  | .switchCase p ss => .switchCase p (reroutedAll f a ss)
  | .labeled l b => .labeled l (rerouted f a b)
  | .synchronizedOn e b => .synchronizedOn e (rerouted f a b)
  | .tryCatch b cs g => .tryCatch (rerouted f a b) (reroutedAll f a cs) (rerouted f a g)
  | .catchClause v b => .catchClause v (rerouted f a b)
  | s => s

/-- The same for statements one after the other. -/
def reroutedAll (f : Leave → Code) (a : Around) : List Code → List Code
  | [] => []
  | s :: ss => rerouted f a s :: reroutedAll f a ss

end

mutual

/-- How the jumps that leave a statement leave it, in the order in which they are written. -/
def waysOut (a : Around) : Code → List Leave
  | .returning e => match e with
    | .missing => [.finish]
    | _ => []
  | .returnDefault => [.finish]
  | .breaking l => if l.isEmpty && !a.loop && !a.switch then [.exit] else []
  | .continuing l => if l.isEmpty && !a.loop then [.next] else []
  | .block ss | .switchCase _ ss => waysOutAll a ss
  | .ifThen _ y n => waysOut a y ++ waysOut a n
  | .whileLoop _ b | .doLoop b _ | .forLoop _ _ _ b | .foreach _ _ b => waysOut a.inLoop b
  | .switchOn _ cs => waysOutAll a.inSwitch cs
  | .labeled _ b | .synchronizedOn _ b | .catchClause _ b => waysOut a b
  | .tryCatch b cs f => waysOut a b ++ waysOutAll a cs ++ waysOut a f
  | _ => []

/-- How jumps leave one of the statements. -/
def waysOutAll (a : Around) : List Code → List Leave
  | [] => []
  | s :: ss => waysOut a s ++ waysOutAll a ss

end

/-! ## Keeping a statement reroutes it -/

/-- The jump to the state that the targets give for a way to leave. -/
def Targets.jumpTo (t : Targets) (k : Leave) : Code := .block (goTo ((t.of k).getD 0))

/-- Leaving jumps are replaced, and their ways are found. The targets have a state for each. -/
structure Rerouted {α : Type} (t : Targets) (found found' : Kept.Found) (r s : α)
    (ks : List Leave) : Prop where
  result : r = s
  ways : found'.leaves = found.leaves ++ ks
  aimed : ∀ k ∈ ks, (t.of k).isSome = true

namespace Rerouted

variable {t : Targets} {found found' found'' : Kept.Found}

/-- Nothing leaves. -/
theorem same {α : Type} {x : α} : Rerouted t found found x x [] :=
  ⟨rfl, (List.append_nil _).symm, nofun⟩

/-- Two parts, one after the other, in one more piece of code. -/
theorem map₂ {α β γ : Type} {r s : α} {r' s' : β} {ks ks' : List Leave} (f : α → β → γ)
    (h : Rerouted t found found' r s ks) (h' : Rerouted t found' found'' r' s' ks') :
    Rerouted t found found'' (f r r') (f s s') (ks ++ ks') := by
  obtain ⟨rfl, hk, ha⟩ := h
  obtain ⟨rfl, hk', ha'⟩ := h'
  refine ⟨rfl, by rw [hk', hk, List.append_assoc], fun k hm => ?_⟩
  exact (List.mem_append.mp hm).elim (ha k) (ha' k)

/-- A part in one more piece of code. -/
theorem map {α β : Type} {r s : α} {ks : List Leave} (f : α → β)
    (h : Rerouted t found found' r s ks) : Rerouted t found found' (f r) (f s) ks :=
  ⟨congrArg f h.result, h.ways, h.aimed⟩

end Rerouted

section

variable {t : Targets} {construct : String} {a : Around} {found found' : Kept.Found} {r : Code}

theorem rerouted_leave {kind : Leave} {what : String} {n : Nat} (hn : t.of kind = some n)
    (h : (Kept.leave construct a kind what n).run found = .ok (r, found')) :
    a.loop = false ∧ Rerouted t found found' r (t.jumpTo kind) [kind] := by
  cases hl : a.loop with
  | true =>
    simp only [Kept.leave, hl, if_true] at h
    cases h
  | false =>
    simp only [Kept.leave, hl, Bool.false_eq_true, if_false, Kept.run_bind, Kept.run_modify,
      Kept.run_pure] at h
    obtain ⟨_, rfl, heq⟩ := h
    cases heq
    refine ⟨rfl, by rw [Targets.jumpTo, hn]; rfl, rfl, fun k hk => ?_⟩
    rw [List.mem_singleton.mp hk, hn]
    rfl

theorem rerouted_unlabeled {kind : Leave} {what : String} {outside : Fault}
    (hk : kind ≠ .finish)
    (h : (Kept.unlabeled t construct a kind what outside).run found = .ok (r, found')) :
    a.loop = false ∧ Rerouted t found found' r (t.jumpTo kind) [kind] := by
  unfold Kept.unlabeled at h
  cases ht : t.loop with
  | none =>
    rw [ht] at h
    cases h
  | some x =>
    rw [ht] at h
    refine rerouted_leave ?_ h
    cases kind with
    | finish => exact absurd rfl hk
    | exit | next =>
      simp only [Targets.of, ht, Option.map_some]
      rfl

/-- A jump to a label is left as it is, or there is a fault. -/
theorem rerouted_labeled {s : Code} {l : String} {fault : Fault}
    (h : (do if (← get).labels.contains l then return s else throw fault :
      Kept.Redirector Code).run found = .ok (r, found')) : Rerouted t found found' r s [] := by
  have run : (do if (← get).labels.contains l then return s else throw fault :
      Kept.Redirector Code).run found =
        if found.labels.contains l then .ok (s, found) else .error fault := by
    change (if found.labels.contains l then pure s else throw fault :
      Kept.Redirector Code).run found = _
    cases found.labels.contains l <;> rfl
  rw [run] at h
  split at h
  · cases h
    exact .same
  · cases h

mutual

/-- What redirecting returns is the rerouted statement, and it finds the ways out of it. -/
theorem redirect_eq_rerouted (s : Code) {a : Around} {found found' : Kept.Found} {r : Code}
    (h : (Kept.redirect t construct a s).run found = .ok (r, found')) :
    Rerouted t found found' r (rerouted t.jumpTo a s) (waysOut a s) := by
  cases s with
  | returning e =>
    cases e with
    | missing => exact (rerouted_leave rfl h).2
    | _ => cases h
  | returnDefault => exact (rerouted_leave rfl h).2
  | breaking l =>
    simp only [Kept.redirect] at h
    cases hl : l.isEmpty with
    | false =>
      simp only [hl, Bool.false_eq_true, if_false] at h
      simpa [rerouted, waysOut, hl] using rerouted_labeled h
    | true =>
      simp only [hl, if_true] at h
      split at h
      · rename_i ha
        cases Kept.run_pure.mp h
        have stays : (!a.loop && !a.switch) = false := by
          rw [← Bool.not_or, ha, Bool.not_true]
        simpa [rerouted, waysOut, hl, stays] using Rerouted.same
      · rename_i ha
        have leaves : (!a.loop && !a.switch) = true := by
          rw [← Bool.not_or, Bool.eq_false_iff.mpr ha, Bool.not_false]
        simpa [rerouted, waysOut, hl, leaves] using (rerouted_unlabeled (by decide) h).2
  | continuing l =>
    simp only [Kept.redirect] at h
    cases hl : l.isEmpty with
    | false =>
      simp only [hl, Bool.false_eq_true, if_false] at h
      simpa [rerouted, waysOut, hl] using rerouted_labeled h
    | true =>
      simp only [hl, if_true] at h
      split at h
      · rename_i ha
        cases Kept.run_pure.mp h
        simpa [rerouted, waysOut, hl, ha] using Rerouted.same
      · rename_i ha
        simpa [rerouted, waysOut, hl, ha] using (rerouted_unlabeled (by decide) h).2
  | block ss =>
    simp only [Kept.redirect, Kept.run_bind, Kept.run_pure] at h
    obtain ⟨_, h, ⟨⟩⟩ := h
    exact (redirectAll_eq_rerouted ss h).map Code.block
  | ifThen c y n =>
    simp only [Kept.redirect, Kept.run_bind, Kept.run_pure] at h
    obtain ⟨_, hy, _, hn, ⟨⟩⟩ := h
    exact (redirect_eq_rerouted y hy).map₂ (Code.ifThen c) (redirect_eq_rerouted n hn)
  | whileLoop c b =>
    simp only [Kept.redirect, Kept.run_bind, Kept.run_pure] at h
    obtain ⟨_, h, ⟨⟩⟩ := h
    exact (redirect_eq_rerouted b h).map (Code.whileLoop c)
  | doLoop b c =>
    simp only [Kept.redirect, Kept.run_bind, Kept.run_pure] at h
    obtain ⟨_, h, ⟨⟩⟩ := h
    exact (redirect_eq_rerouted b h).map (Code.doLoop · c)
  | forLoop i c u b =>
    simp only [Kept.redirect, Kept.run_bind, Kept.run_pure] at h
    obtain ⟨_, h, ⟨⟩⟩ := h
    exact (redirect_eq_rerouted b h).map (Code.forLoop i c u)
  | foreach v e b =>
    simp only [Kept.redirect, Kept.run_bind, Kept.run_pure] at h
    obtain ⟨_, h, ⟨⟩⟩ := h
    exact (redirect_eq_rerouted b h).map (Code.foreach v e)
  | switchOn e cs =>
    simp only [Kept.redirect, Kept.run_bind, Kept.run_pure] at h
    obtain ⟨_, h, ⟨⟩⟩ := h
    exact (redirectAll_eq_rerouted cs h).map (Code.switchOn e)
  | switchCase p ss =>
    simp only [Kept.redirect, Kept.run_bind, Kept.run_pure] at h
    obtain ⟨_, h, ⟨⟩⟩ := h
    exact (redirectAll_eq_rerouted ss h).map (Code.switchCase p)
  | labeled l b =>
    simp only [Kept.redirect, Kept.run_bind, Kept.run_pure, Kept.run_modify] at h
    obtain ⟨-, rfl, _, h, -, rfl, ⟨⟩⟩ := h
    obtain ⟨hr, hk, ha⟩ := redirect_eq_rerouted b h
    exact ⟨congrArg (Code.labeled l) hr, hk, ha⟩
  | synchronizedOn e b =>
    simp only [Kept.redirect, Kept.run_bind, Kept.run_pure] at h
    obtain ⟨_, h, ⟨⟩⟩ := h
    exact (redirect_eq_rerouted b h).map (Code.synchronizedOn e)
  | tryCatch b cs f =>
    simp only [Kept.redirect, Kept.run_bind, Kept.run_pure] at h
    obtain ⟨_, hb, _, hcs, _, hf, ⟨⟩⟩ := h
    exact ((redirect_eq_rerouted b hb).map₂ Prod.mk (redirectAll_eq_rerouted cs hcs)).map₂
      (fun x => Code.tryCatch x.1 x.2) (redirect_eq_rerouted f hf)
  | catchClause v b =>
    simp only [Kept.redirect, Kept.run_bind, Kept.run_pure] at h
    obtain ⟨_, h, ⟨⟩⟩ := h
    exact (redirect_eq_rerouted b h).map (Code.catchClause v)
  | _ =>
    simp only [Kept.redirect] at h
    cases Kept.run_pure.mp h
    exact .same

/-- The same for statements one after the other. -/
theorem redirectAll_eq_rerouted (ss : List Code) {a : Around} {found found' : Kept.Found}
    {r : List Code} (h : (Kept.redirectAll t construct a ss).run found = .ok (r, found')) :
    Rerouted t found found' r (reroutedAll t.jumpTo a ss) (waysOutAll a ss) := by
  cases ss with
  | nil =>
    simp only [Kept.redirectAll] at h
    cases Kept.run_pure.mp h
    exact .same
  | cons s ss =>
    simp only [Kept.redirectAll, Kept.run_bind, Kept.run_pure] at h
    obtain ⟨_, hs, _, hss, ⟨⟩⟩ := h
    exact (redirect_eq_rerouted s hs).map₂ List.cons (redirectAll_eq_rerouted ss hss)

end

end

/-- A kept statement is the statement with its leaving jumps replaced by jumps to the states of
their targets. -/
theorem keepStatement_eq {t : Targets} {construct : String} {s r : Code} {ks : List Leave}
    (h : keepStatement t construct s = .ok (r, ks)) :
    r = rerouted t.jumpTo .nothing s ∧ ks = waysOut .nothing s ∧
      ∀ k ∈ ks, (t.of k).isSome = true := by
  rcases hr : (Kept.redirect t construct .nothing s).run ⟨[], []⟩ with e | ⟨c, found⟩
  · simp [keepStatement, hr, bind, Except.bind] at h
  · simp only [keepStatement, hr, bind, Except.bind, pure, Except.pure, Except.ok.injEq,
      Prod.mk.injEq] at h
    obtain ⟨rfl, rfl⟩ := h
    obtain ⟨hresult, hways, haimed⟩ := redirect_eq_rerouted s hr
    have hways : found.leaves = waysOut .nothing s := hways
    exact ⟨hresult, hways, hways ▸ haimed⟩

/-! ## The numbers of states in a kept statement -/

/-- The number that a piece of code assigns to the field with the number of the next state. -/
def assignedState : Code → Option Int
  | .assign (.named x) (.number (.literal (.int n))) => if x = stateField then some n else none
  | _ => none

/-- The numbers of states that are assigned in a list of pieces of code and below. -/
def assignedStates (cs : List Code) : List Int :=
  (Code.visitAll (fun _ => false) cs).filterMap assignedState

theorem visitAll_append (stop : Code → Bool) (cs ds : List Code) :
    Code.visitAll stop (cs ++ ds) = Code.visitAll stop cs ++ Code.visitAll stop ds := by
  induction cs with
  | nil => rfl
  | cons c cs ih => rw [List.cons_append, Code.visitAll, Code.visitAll, ih, List.append_assoc]

theorem assignedStates_append (cs ds : List Code) :
    assignedStates (cs ++ ds) = assignedStates cs ++ assignedStates ds := by
  rw [assignedStates, visitAll_append, List.filterMap_append]
  rfl

/-- What is assigned in a piece of code that is no assignment is assigned in its parts. -/
theorem assignedStates_below {c : Code} {cs : List Code} (hc : assignedState c = none)
    (hv : c.visit (fun _ => false) = c :: Code.visitAll (fun _ => false) cs) :
    assignedStates [c] = assignedStates cs := by
  simp only [assignedStates, Code.visitAll, List.append_nil, hv, List.filterMap_cons, hc]

/-- What is assigned in statements with their leaving jumps replaced: what was assigned before, and
what is assigned in the place of the jumps. -/
def Tallied (f : Leave → Code) (before after : List Code) (ks : List Leave) : Prop :=
  (assignedStates after).Perm (assignedStates before ++ assignedStates (ks.map f))

namespace Tallied

variable {f : Leave → Code}

/-- Nothing is replaced. -/
theorem same (cs : List Code) : Tallied f cs cs [] := by
  unfold Tallied
  rw [List.map_nil, show assignedStates [] = [] from rfl, List.append_nil]

/-- The jump itself is replaced. -/
theorem jump {s : Code} {k : Leave} (hs : assignedStates [s] = []) :
    Tallied f [s] [f k] [k] := by
  unfold Tallied
  rw [hs, List.nil_append]
  exact .refl _

theorem append {cs cs' ds ds' : List Code} {ks ls : List Leave} (h : Tallied f cs cs' ks)
    (h' : Tallied f ds ds' ls) : Tallied f (cs ++ ds) (cs' ++ ds') (ks ++ ls) := by
  unfold Tallied at h h' ⊢
  rw [List.perm_iff_count] at h h' ⊢
  intro n
  simp only [List.map_append, assignedStates_append, List.count_append, h n, h' n]
  omega

/-- In a piece of code that is no assignment itself. -/
theorem inside {c c' : Code} {cs cs' : List Code} {ks : List Leave} (h : Tallied f cs cs' ks)
    (hc : assignedState c = none) (hc' : assignedState c' = none)
    (hv : c.visit (fun _ => false) = c :: Code.visitAll (fun _ => false) cs)
    (hv' : c'.visit (fun _ => false) = c' :: Code.visitAll (fun _ => false) cs') :
    Tallied f [c] [c'] ks := by
  unfold Tallied at h ⊢
  rwa [assignedStates_below hc hv, assignedStates_below hc' hv']

end Tallied

section

variable {f : Leave → Code}

attribute [local simp] Code.visit Code.visitAll Code.andBelow visitAll_append

mutual

/-- Rerouting a statement changes what is assigned in it by what is put in the place of jumps. -/
theorem tallied_rerouted (s : Code) (a : Around) : Tallied f [s] [rerouted f a s] (waysOut a s) := by
  cases s with
  | returning e =>
    cases e with
    | missing => exact .jump rfl
    | _ => exact .same _
  | returnDefault => exact .jump rfl
  | breaking l =>
    simp only [rerouted, waysOut]
    split
    · exact .jump rfl
    · exact .same _
  | continuing l =>
    simp only [rerouted, waysOut]
    split
    · exact .jump rfl
    · exact .same _
  | block ss => exact (tallied_reroutedAll ss a).inside rfl rfl (by simp) (by simp [rerouted])
  | switchCase p ss =>
    exact ((Tallied.same [p]).append (tallied_reroutedAll ss a)).inside rfl rfl (by simp)
      (by simp [rerouted])
  | switchOn e cs =>
    exact ((Tallied.same [e]).append (tallied_reroutedAll cs a.inSwitch)).inside rfl rfl
      (by simp) (by simp [rerouted])
  | ifThen c y n =>
    have parts := ((Tallied.same [c]).append (tallied_rerouted y a)).append
      (tallied_rerouted n a)
    exact parts.inside rfl rfl (by simp) (by simp [rerouted])
  | whileLoop c b =>
    exact ((Tallied.same [c]).append (tallied_rerouted b a.inLoop)).inside rfl rfl (by simp)
      (by simp [rerouted])
  | doLoop b c =>
    have parts := (tallied_rerouted b a.inLoop).append (.same [c])
    rw [List.append_nil] at parts
    exact parts.inside rfl rfl (by simp) (by simp [rerouted])
  | forLoop i c u b =>
    have parts := (Tallied.same (i ++ [c] ++ u)).append (tallied_rerouted b a.inLoop)
    exact parts.inside rfl rfl (by simp) (by simp [rerouted])
  | foreach v e b =>
    have parts := (Tallied.same [v, e]).append (tallied_rerouted b a.inLoop)
    exact parts.inside rfl rfl (by simp) (by simp [rerouted])
  | labeled l b => exact (tallied_rerouted b a).inside rfl rfl (by simp) (by simp [rerouted])
  | synchronizedOn e b =>
    exact ((Tallied.same [e]).append (tallied_rerouted b a)).inside rfl rfl (by simp)
      (by simp [rerouted])
  | tryCatch b cs g =>
    have parts := ((tallied_rerouted b a).append (tallied_reroutedAll cs a)).append
      (tallied_rerouted g a)
    exact parts.inside rfl rfl (by simp) (by simp [rerouted])
  | catchClause v b =>
    exact ((Tallied.same [v]).append (tallied_rerouted b a)).inside rfl rfl (by simp)
      (by simp [rerouted])
  | _ => exact .same _

/-- The same for statements one after the other. -/
theorem tallied_reroutedAll (ss : List Code) (a : Around) :
    Tallied f ss (reroutedAll f a ss) (waysOutAll a ss) := by
  cases ss with
  | nil => exact .same []
  | cons s ss => exact (tallied_rerouted s a).append (tallied_reroutedAll ss a)

end

end

end Weaver.Generator
