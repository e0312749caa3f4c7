import Weaver.Proofs.Generator.Reroute
/-!
The jumps that leave a kept statement.

`escapes` and `Kept.redirect` walk a statement separately, each with labels of its own that come and
go. Here the jumps that leave are said once, without a state: `leaving` lists them, each with what
is around it. Both walks agree with the list. Where `escapes` finds nothing, redirecting succeeds
and changes nothing; and where redirecting succeeds, every jump of the list could be replaced, and
what leaves the result are the jumps that were put in their places.

The argument rests on the labels. Behind an inner statement with the same label, a label is lost to
the walks, but not to the list. A jump to it is a fault then, so that what succeeds has used labels
of the list only: those that a walk knows are some of those around.
-/
set_option autoImplicit false

namespace Weaver.Generator

/-! ## The jumps that leave -/

/-- What is around a place ends a break. -/
def Around.endsBreak (a : Around) (labels : List String) (l : String) : Bool :=
  if l.isEmpty then a.loop || a.switch else labels.contains l

/-- What is around a place ends a continue. -/
def Around.endsContinue (a : Around) (labels : List String) (l : String) : Bool :=
  if l.isEmpty then a.loop else labels.contains l

/-- A jump that leaves a statement, and what is around it in the statement. -/
structure Leaver where
  around : Around
  jump : Code

mutual

/-- The jumps that leave a statement, in the order in which they are written. -/
def leaving (a : Around) (labels : List String) : Code → List Leaver
  | .returning e => [⟨a, .returning e⟩]
  | .returnDefault => [⟨a, .returnDefault⟩]
  | .breaking l => if a.endsBreak labels l then [] else [⟨a, .breaking l⟩]
  | .continuing l => if a.endsContinue labels l then [] else [⟨a, .continuing l⟩]
  | .block ss | .switchCase _ ss => leavingAll a labels ss
  | .ifThen _ y n => leaving a labels y ++ leaving a labels n
  | .whileLoop _ b | .doLoop b _ | .forLoop _ _ _ b | .foreach _ _ b => leaving a.inLoop labels b
  | .switchOn _ cs => leavingAll a.inSwitch labels cs
  | .labeled l b => leaving a (l :: labels) b
  | .synchronizedOn _ b | .catchClause _ b => leaving a labels b
  | .tryCatch b cs f => leaving a labels b ++ leavingAll a labels cs ++ leaving a labels f
  | _ => []

/-- The jumps that leave one of the statements. -/
def leavingAll (a : Around) (labels : List String) : List Code → List Leaver
  | [] => []
  | s :: ss => leaving a labels s ++ leavingAll a labels ss

end

/-- The way on which a jump leaves. -/
def wayOf : Code → Leave
  | .breaking _ => .exit
  | .continuing _ => .next
  | _ => .finish

/-- A jump that can be replaced: it stands in no loop of the statement, it has neither a label nor a
value, and it goes to a state that is known. -/
structure Leaver.Replaceable (t : Targets) (x : Leaver) : Prop where
  outside : x.around.loop = false
  bare : x.jump ∈ [.returning .missing, .returnDefault, .breaking "", .continuing ""]
  known : (t.of (wayOf x.jump)).isSome = true

/-! ## What does not escape is left alone -/

section

variable {t : Targets} {construct : String}

/-- A jump to a label in reach is left alone. -/
theorem run_labeled {s : Code} {l : String} {fault : Fault} {labels : List String}
    {ways : List Leave} (h : labels.contains l = true) :
    (do if (← get).labels.contains l then return s else throw fault :
      Kept.Redirector Code).run ⟨labels, ways⟩ = .ok (s, ⟨labels, ways⟩) := by
  change (if labels.contains l then pure s else throw fault : Kept.Redirector Code).run _ = _
  rw [if_pos h]
  rfl

mutual

/-- A statement that nothing escapes from is redirected to itself, and the labels in reach behind it
are the same for both walks. -/
theorem redirect_of_escapes (s : Code) {a : Around} {labels labels' : List String}
    (h : escapes a labels s = (false, labels')) (ways : List Leave) :
    (Kept.redirect t construct a s).run ⟨labels, ways⟩ = .ok (s, ⟨labels', ways⟩) := by
  cases s with
  | returning e => cases h
  | returnDefault => cases h
  | breaking l =>
    simp only [escapes, Prod.mk.injEq] at h
    obtain ⟨h, rfl⟩ := h
    simp only [Kept.redirect]
    cases hl : l.isEmpty with
    | true =>
      have stays : (a.loop || a.switch) = true := by
        cases hloop : a.loop <;> simp_all
      simp only [stays, if_true, Kept.run_pure]
    | false =>
      simp only [hl, Bool.false_eq_true, if_false, Bool.not_eq_false'] at h ⊢
      exact run_labeled h
  | continuing l =>
    simp only [escapes, Prod.mk.injEq] at h
    obtain ⟨h, rfl⟩ := h
    simp only [Kept.redirect]
    cases hl : l.isEmpty with
    | true =>
      simp only [hl, if_true, Bool.not_eq_false'] at h
      simp only [h, if_true, Kept.run_pure]
    | false =>
      simp only [hl, Bool.false_eq_true, if_false, Bool.not_eq_false'] at h ⊢
      exact run_labeled h
  | block ss | switchCase p ss =>
    simp only [Kept.redirect, Kept.run_bind, Kept.run_pure]
    exact ⟨_, redirectAll_of_escapes ss h ways, rfl⟩
  | switchOn e cs =>
    simp only [Kept.redirect, Kept.run_bind, Kept.run_pure]
    exact ⟨_, redirectAll_of_escapes cs h ways, rfl⟩
  | ifThen c y n =>
    simp only [escapes] at h
    simp only [Kept.redirect, Kept.run_bind, Kept.run_pure]
    rcases hy : escapes a labels y with ⟨_ | _, l₁⟩
    · rw [hy] at h
      exact ⟨_, redirect_of_escapes y hy ways, _, redirect_of_escapes n h ways, rfl⟩
    · rw [hy] at h
      cases h
  | whileLoop c b | doLoop b c | forLoop i c u b | foreach v e b | synchronizedOn e b
  | catchClause v b =>
    simp only [Kept.redirect, Kept.run_bind, Kept.run_pure]
    exact ⟨_, redirect_of_escapes b h ways, rfl⟩
  | labeled l b =>
    simp only [escapes] at h
    simp only [Kept.redirect, Kept.run_bind, Kept.run_pure, Kept.run_modify]
    rcases hb : escapes a (l :: labels) b with ⟨_ | _, l₁⟩
    · rw [hb] at h
      cases h
      exact ⟨_, rfl, _, redirect_of_escapes b hb ways, _, rfl, rfl⟩
    · rw [hb] at h
      cases h
  | tryCatch b cs f =>
    simp only [escapes] at h
    simp only [Kept.redirect, Kept.run_bind, Kept.run_pure]
    rcases hb : escapes a labels b with ⟨_ | _, l₁⟩
    · rw [hb] at h
      rcases hcs : escapesAny a l₁ cs with ⟨_ | _, l₂⟩
      · simp only [hcs, Bool.false_eq_true, if_false] at h
        exact ⟨_, redirect_of_escapes b hb ways, _, redirectAll_of_escapes cs hcs ways, _,
          redirect_of_escapes f h ways, rfl⟩
      · simp only [hcs, Bool.false_eq_true, if_false, if_true] at h
        cases h
    · rw [hb] at h
      cases h
  | _ =>
    cases h
    rfl

/-- The same for statements one after the other. -/
theorem redirectAll_of_escapes (ss : List Code) {a : Around} {labels labels' : List String}
    (h : escapesAny a labels ss = (false, labels')) (ways : List Leave) :
    (Kept.redirectAll t construct a ss).run ⟨labels, ways⟩ = .ok (ss, ⟨labels', ways⟩) := by
  cases ss with
  | nil =>
    cases h
    rfl
  | cons s ss =>
    simp only [escapesAny] at h
    simp only [Kept.redirectAll, Kept.run_bind, Kept.run_pure]
    rcases hs : escapes a labels s with ⟨_ | _, l₁⟩
    · rw [hs] at h
      exact ⟨_, redirect_of_escapes s hs ways, _, redirectAll_of_escapes ss h ways, rfl⟩
    · rw [hs] at h
      cases h

end

/-! ## What leaves could be replaced -/

variable {a : Around} {labels : List String} {found found' : Kept.Found} {r : Code}

/-- A jump to a label stays: where it is redirected without a fault, the label is around. -/
theorem label_mem {s : Code} {l : String} {fault : Fault}
    (hl : ∀ x ∈ found.labels, x ∈ labels)
    (h : (do if (← get).labels.contains l then return s else throw fault :
      Kept.Redirector Code).run found = .ok (r, found')) : labels.contains l = true := by
  change (if found.labels.contains l then pure s else throw fault :
    Kept.Redirector Code).run found = _ at h
  split at h
  · rename_i hc
    simpa using hl l (by simpa using hc)
  · cases h

theorem known_of_loop {kind : Leave} {what : String} {outside : Fault} (hk : kind ≠ .finish)
    (h : (Kept.unlabeled t construct a kind what outside).run found = .ok (r, found')) :
    (t.of kind).isSome = true := by
  have loop : t.loop.isSome = true := by
    unfold Kept.unlabeled at h
    cases ht : t.loop with
    | none => rw [ht] at h; cases h
    | some x => rfl
  cases kind with
  | finish => exact absurd rfl hk
  | exit | next => simpa [Targets.of] using loop

/-- Behind a statement no more labels are in reach than before it. -/
theorem labels_onward {s : Code} (hl : ∀ l ∈ found.labels, l ∈ labels)
    (h : (Kept.redirect t construct a s).run found = .ok (r, found')) :
    ∀ l ∈ found'.labels, l ∈ labels :=
  fun l hm => hl l ((@redirect_spec [] t t construct rfl s _ _ _ _ h).labels l hm)

theorem outside_of_leave {kind : Leave} {what : String} {n : Nat}
    (h : (Kept.leave construct a kind what n).run found = .ok (r, found')) : a.loop = false := by
  cases hl : a.loop with
  | true =>
    simp only [Kept.leave, hl, if_true] at h
    cases h
  | false => rfl

mutual

/-- Where redirecting succeeds, every jump that leaves could be replaced. -/
theorem replaceable_of_redirect (s : Code) {a : Around} {labels : List String}
    {found found' : Kept.Found} {r : Code} (hl : ∀ l ∈ found.labels, l ∈ labels)
    (h : (Kept.redirect t construct a s).run found = .ok (r, found')) :
    ∀ x ∈ leaving a labels s, x.Replaceable t := by
  cases s with
  | returning e =>
    cases e with
    | missing =>
      simp only [leaving, List.forall_mem_singleton]
      exact ⟨outside_of_leave h, by simp, rfl⟩
    | _ => cases h
  | returnDefault =>
    simp only [leaving, List.forall_mem_singleton]
    exact ⟨outside_of_leave h, by simp, rfl⟩
  | breaking l =>
    simp only [Kept.redirect] at h
    simp only [leaving]
    by_cases he : l.isEmpty = true
    · have ends : a.endsBreak labels l = (a.loop || a.switch) := by rw [Around.endsBreak, if_pos he]
      rw [if_pos he] at h
      rw [ends]
      split at h
      · rename_i ha
        rw [if_pos ha]
        exact nofun
      · rename_i ha
        rw [if_neg ha, String.isEmpty_iff.mp he]
        simp only [List.forall_mem_singleton]
        exact ⟨(rerouted_unlabeled (by decide) h).1, by simp, known_of_loop nofun h⟩
    · rw [if_neg he] at h
      have ends : a.endsBreak labels l = true := by
        rw [Around.endsBreak, if_neg he]
        exact label_mem hl h
      rw [if_pos ends]
      exact nofun
  | continuing l =>
    simp only [Kept.redirect] at h
    simp only [leaving]
    by_cases he : l.isEmpty = true
    · have ends : a.endsContinue labels l = (a.loop) := by rw [Around.endsContinue, if_pos he]
      rw [if_pos he] at h
      rw [ends]
      split at h
      · rename_i ha
        rw [if_pos ha]
        exact nofun
      · rename_i ha
        rw [if_neg ha, String.isEmpty_iff.mp he]
        simp only [List.forall_mem_singleton]
        exact ⟨(rerouted_unlabeled (by decide) h).1, by simp, known_of_loop nofun h⟩
    · rw [if_neg he] at h
      have ends : a.endsContinue labels l = true := by
        rw [Around.endsContinue, if_neg he]
        exact label_mem hl h
      rw [if_pos ends]
      exact nofun
  | block ss | switchCase p ss =>
    simp only [Kept.redirect, Kept.run_bind, Kept.run_pure] at h
    obtain ⟨_, h, -⟩ := h
    exact replaceable_of_redirectAll ss hl h
  | switchOn e cs =>
    simp only [Kept.redirect, Kept.run_bind, Kept.run_pure] at h
    obtain ⟨_, h, -⟩ := h
    exact replaceable_of_redirectAll cs hl h
  | whileLoop c b | doLoop b c | forLoop i c u b | foreach v e b | synchronizedOn e b
  | catchClause v b =>
    simp only [Kept.redirect, Kept.run_bind, Kept.run_pure] at h
    obtain ⟨_, h, -⟩ := h
    exact replaceable_of_redirect b hl h
  | ifThen c y n =>
    simp only [Kept.redirect, Kept.run_bind, Kept.run_pure] at h
    obtain ⟨_, hy, _, hn, -⟩ := h
    simp only [leaving, List.forall_mem_append]
    exact ⟨replaceable_of_redirect y hl hy, replaceable_of_redirect n (labels_onward hl hy) hn⟩
  | labeled l b =>
    simp only [Kept.redirect, Kept.run_bind, Kept.run_pure, Kept.run_modify] at h
    obtain ⟨-, rfl, _, h, -⟩ := h
    refine replaceable_of_redirect b ?_ h
    exact fun x hx => List.mem_cons.mpr ((List.mem_cons.mp hx).imp id (hl x))
  | tryCatch b cs f =>
    simp only [Kept.redirect, Kept.run_bind, Kept.run_pure] at h
    obtain ⟨_, hb, ⟨cs', f₂⟩, hcs, _, hf, -⟩ := h
    have clauses : ∀ l ∈ f₂.labels, l ∈ labels := fun l hm => labels_onward hl hb l
      ((@redirectAll_spec [] t t construct rfl cs _ _ _ _ hcs).labels l hm)
    simp only [leaving, List.forall_mem_append]
    exact ⟨⟨replaceable_of_redirect b hl hb,
      replaceable_of_redirectAll cs (labels_onward hl hb) hcs⟩,
      replaceable_of_redirect f clauses hf⟩
  | _ => exact nofun

/-- The same for statements one after the other. -/
theorem replaceable_of_redirectAll (ss : List Code) {a : Around} {labels : List String}
    {found found' : Kept.Found} {r : List Code} (hl : ∀ l ∈ found.labels, l ∈ labels)
    (h : (Kept.redirectAll t construct a ss).run found = .ok (r, found')) :
    ∀ x ∈ leavingAll a labels ss, x.Replaceable t := by
  cases ss with
  | nil => exact nofun
  | cons s ss =>
    simp only [Kept.redirectAll, Kept.run_bind, Kept.run_pure] at h
    obtain ⟨_, hs, _, hss, -⟩ := h
    simp only [leavingAll, List.forall_mem_append]
    exact ⟨replaceable_of_redirect s hl hs, replaceable_of_redirectAll ss (labels_onward hl hs) hss⟩

end

end

/-! ## What leaves the result -/

/-- The ways out are those of the jumps that leave, and the jumps that leave the rerouted statement
are those in the places of the jumps that left. -/
structure Relayed (t : Targets) (before after : List Leaver) (ways : List Leave) : Prop where
  ways : ways = before.map (wayOf ·.jump)
  after : after = before.map fun x => ⟨x.around, .continuing ""⟩

namespace Relayed

variable {t : Targets}

/-- Nothing leaves. -/
theorem none : Relayed t [] [] [] := ⟨rfl, rfl⟩

theorem append {xs xs' ys ys' : List Leaver} {ks ls : List Leave} (h : Relayed t xs xs' ks)
    (h' : Relayed t ys ys' ls) : Relayed t (xs ++ ys) (xs' ++ ys') (ks ++ ls) := by
  obtain ⟨rfl, rfl⟩ := h
  obtain ⟨rfl, rfl⟩ := h'
  exact ⟨(List.map_append).symm, (List.map_append).symm⟩

/-- The jump itself leaves. -/
theorem jump {a : Around} {labels : List String} {s : Code} (h : Leaver.Replaceable t ⟨a, s⟩) :
    Relayed t [⟨a, s⟩] (leaving a labels (t.jumpTo (wayOf s))) [wayOf s] := by
  refine ⟨rfl, ?_⟩
  have stays : a.endsContinue labels "" = false := h.outside
  simp [Targets.jumpTo, goTo, leaving, leavingAll, stays]

end Relayed

section

variable {t : Targets}

mutual

/-- In a statement whose leaving jumps can be replaced, they are relayed. -/
theorem leaving_rerouted (s : Code) {a : Around} {labels : List String}
    (h : ∀ x ∈ leaving a labels s, x.Replaceable t) :
    Relayed t (leaving a labels s) (leaving a labels (rerouted t.jumpTo a s)) (waysOut a s) := by
  cases s with
  | returning e =>
    simp only [leaving, List.forall_mem_singleton] at h
    cases e with
    | missing => exact .jump h
    | _ => exact absurd h.bare (by simp)
  | returnDefault =>
    simp only [leaving, List.forall_mem_singleton] at h
    exact .jump h
  | breaking l =>
    cases he : a.endsBreak labels l with
    | true =>
      have stays : (l.isEmpty && !a.loop && !a.switch) = false := by
        cases hl : l.isEmpty <;> cases ha : a.loop <;> simp_all [Around.endsBreak]
      simp only [leaving, rerouted, waysOut, he, stays, Bool.false_eq_true, if_false, if_true]
      exact .none
    | false =>
      simp only [leaving, he, Bool.false_eq_true, if_false, List.forall_mem_singleton] at h
      obtain rfl : l = "" := by simpa using h.bare
      have leaves : ("".isEmpty && !a.loop && !a.switch) = true := by
        simpa [Around.endsBreak] using he
      simp only [leaving, rerouted, waysOut, he, leaves, Bool.false_eq_true, if_false, if_true]
      exact .jump h
  | continuing l =>
    cases he : a.endsContinue labels l with
    | true =>
      have stays : (l.isEmpty && !a.loop) = false := by
        cases hl : l.isEmpty <;> simp_all [Around.endsContinue]
      simp only [leaving, rerouted, waysOut, he, stays, Bool.false_eq_true, if_false, if_true]
      exact .none
    | false =>
      simp only [leaving, he, Bool.false_eq_true, if_false, List.forall_mem_singleton] at h
      obtain rfl : l = "" := by simpa using h.bare
      have leaves : ("".isEmpty && !a.loop) = true := by
        simpa [Around.endsContinue] using he
      simp only [leaving, rerouted, waysOut, he, leaves, Bool.false_eq_true, if_false, if_true]
      exact .jump h
  | block ss | switchCase p ss => exact leavingAll_rerouted ss h
  | switchOn e cs => exact leavingAll_rerouted cs h
  | ifThen c y n =>
    simp only [leaving, List.forall_mem_append] at h
    exact (leaving_rerouted y h.1).append (leaving_rerouted n h.2)
  | whileLoop c b | doLoop b c | forLoop i c u b | foreach v e b | synchronizedOn e b
  | catchClause v b | labeled l b => exact leaving_rerouted b h
  | tryCatch b cs f =>
    simp only [leaving, List.forall_mem_append] at h
    exact ((leaving_rerouted b h.1.1).append (leavingAll_rerouted cs h.1.2)).append
      (leaving_rerouted f h.2)
  | _ => exact .none

/-- The same for statements one after the other. -/
theorem leavingAll_rerouted (ss : List Code) {a : Around} {labels : List String}
    (h : ∀ x ∈ leavingAll a labels ss, x.Replaceable t) :
    Relayed t (leavingAll a labels ss) (leavingAll a labels (reroutedAll t.jumpTo a ss))
      (waysOutAll a ss) := by
  cases ss with
  | nil => exact .none
  | cons s ss =>
    simp only [leavingAll, List.forall_mem_append] at h
    exact (leaving_rerouted s h.1).append (leavingAll_rerouted ss h.2)

end

end

/-! ## Both walks agree -/

/-- **The two walks over a kept statement agree.** A statement that nothing escapes from is kept as
it is, without a way out. And where a statement can be kept, what is kept is the statement with
another one in the place of every jump that leaves it: every such jump is a bare one outside the
loops of the statement whose state is known, and nothing leaves the result but the jumps of the
dispatch loop in the places of those that left. -/
theorem keepStatement_agrees (t : Targets) (construct : String) (s : Code) :
    ((escapes .nothing [] s).1 = false → keepStatement t construct s = .ok (s, [])) ∧
    ∀ r ways, keepStatement t construct s = .ok (r, ways) →
      r = rerouted t.jumpTo .nothing s ∧
      ways = (leaving .nothing [] s).map (wayOf ·.jump) ∧
      (∀ x ∈ leaving .nothing [] s, x.Replaceable t) ∧
      leaving .nothing [] r = (leaving .nothing [] s).map fun x => ⟨x.around, .continuing ""⟩ := by
  constructor
  · intro h
    have run : (Kept.redirect t construct .nothing s).run ⟨[], []⟩ =
        .ok (s, ⟨(escapes .nothing [] s).2, []⟩) := redirect_of_escapes s (Prod.ext h rfl) []
    simp [keepStatement, run, bind, Except.bind, pure, Except.pure]
  · intro r ways h
    obtain ⟨rfl, rfl, -⟩ := keepStatement_eq h
    have replaceable : ∀ x ∈ leaving .nothing [] s, x.Replaceable t := by
      rcases run : (Kept.redirect t construct .nothing s).run ⟨[], []⟩ with e | ⟨c, found⟩
      · simp [keepStatement, run, bind, Except.bind] at h
      · exact replaceable_of_redirect s (fun _ => id) run
    obtain ⟨hways, hafter⟩ := leaving_rerouted s replaceable
    exact ⟨rfl, hways, replaceable, hafter⟩

/-- A loop that is left by its label only. -/
def endlessSearch : Code :=
  .labeled "search" (.whileLoop (.bool true) (.switchOn (.named "x")
    [.switchCase (.int 1) [.breaking ""], .switchCase .missing [.breaking "search"]]))

/-- A `switch` that ends its own break and is left on two other ways. -/
def twoWays : Code :=
  .switchOn (.named "x")
    [.switchCase (.int 1) [.continuing ""], .switchCase (.int 2) [endlessSearch, .breaking ""],
      .switchCase .missing [.returning .missing]]

theorem keepStatement_agrees_twoWays :
    keepStatement ⟨7, some (3, 4)⟩ "a switch" endlessSearch = .ok (endlessSearch, []) ∧
    ∃ r, keepStatement ⟨7, some (3, 4)⟩ "a switch" twoWays = .ok (r, [.next, .finish]) ∧
      (∀ x ∈ leaving .nothing [] twoWays, x.Replaceable ⟨7, some (3, 4)⟩) ∧
      leaving .nothing [] r =
        [⟨⟨false, true⟩, .continuing ""⟩, ⟨⟨false, true⟩, .continuing ""⟩] := by
  refine ⟨(keepStatement_agrees _ "a switch" endlessSearch).1 rfl, _, rfl, ?_⟩
  obtain ⟨-, -, replaceable, after⟩ :=
    (keepStatement_agrees ⟨7, some (3, 4)⟩ "a switch" twoWays).2 _ _ rfl
  exact ⟨replaceable, after⟩

end Weaver.Generator
