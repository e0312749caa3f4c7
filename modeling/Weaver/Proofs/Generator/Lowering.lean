import Weaver.Proofs.Generator.Layout
/-!
Compiling gives the operations of the statements that are compiled.

One lemma for each kind of statement says what its compilation adds, given what the compilations of
its parts add. `compileStmt_spec` puts them together by recursion on the statement.
-/
set_option autoImplicit false

namespace Weaver.Generator

/-! ## What compiling gives -/

/-- The places of a compilation fit the labels of a loop around: a jump to the next round is only
there if its label is used. -/
structure Suits (P c : Compiler) (loop : Option Loop) (env : Env) : Prop where
  finish : P.Leads finishLabel env.finish
  loop : ∀ l, loop = some l → ∃ e n, env.loop = some (e, n) ∧ P.Leads l.exit e ∧
    (c.isUsed l.next = true → P.Leads l.next n)

theorem Suits.before {P c c' : Compiler} {loop : Option Loop} {env : Env} {n : Nat}
    (h : Suits P c' loop env) (hg : Grows n c c') : Suits P c loop env := by
  refine ⟨h.finish, ?_⟩
  intro l hl
  obtain ⟨e, n, henv, he, hn⟩ := h.loop l hl
  exact ⟨e, n, henv, he, fun hu => hn (hg.used _ hu)⟩

/-- The labels around are there. -/
structure InRange (c : Compiler) (loop : Option Loop) : Prop where
  finish : finishLabel < c.labels.length
  loop : ∀ l, loop = some l → l.exit < c.labels.length ∧ l.next < c.labels.length

theorem InRange.mono {c c' : Compiler} {loop : Option Loop} (h : InRange c loop)
    (hc : c.labels.length ≤ c'.labels.length) : InRange c' loop := by
  refine ⟨Nat.lt_of_lt_of_le h.finish hc, fun l hl => ?_⟩
  obtain ⟨he, hn⟩ := h.loop l hl
  exact ⟨Nat.lt_of_lt_of_le he hc, Nat.lt_of_lt_of_le hn hc⟩

theorem InRange.inner {c c' : Compiler} {loop : Option Loop} {exit next : Nat} (h : InRange c loop)
    (hc : c.labels.length ≤ c'.labels.length) (he : exit < c'.labels.length)
    (hn : next < c'.labels.length) : InRange c' (some ⟨exit, next⟩) := by
  refine ⟨Nat.lt_of_lt_of_le h.finish hc, ?_⟩
  rintro l ⟨⟩
  exact ⟨he, hn⟩

/-- What is known of a compilation that succeeded: it went on, and whatever is compiled later, what
it compiled lies in its place. If the last state is ended, then what was compiled never comes to its
end, unless it is nothing at all. -/
structure Compiled (c c' : Compiler) (loop : Option Loop) (valid : Env → Prop)
    (R : Compiler → Env → Nat → Nat → Prop) : Prop where
  grows : Grows c.labels.length c c'
  layout : ∀ P env, Grows 0 c' P → Suits P c' loop env → valid env →
    R P env c.size c'.size ∧ (c'.ended = true →
      (∀ q, R P env c.size q) ∨ c.ended = true ∧ ∀ r, R P env r r)

namespace Compiled

variable {c c' c'' : Compiler} {loop : Option Loop} {valid : Env → Prop}
  {R : Compiler → Env → Nat → Nat → Prop}

/-- Nothing is compiled. -/
theorem nothing (hc : Grows c.labels.length c c') (hs : c'.size = c.size) (he : c'.ended = c.ended)
    (hR : ∀ P env p, valid env → R P env p p) : Compiled c c' loop valid R := by
  refine ⟨hc, fun P env _ _ hv => ⟨?_, fun h => .inr ⟨he ▸ h, fun r => hR P env r hv⟩⟩⟩
  rw [hs]
  exact hR P env _ hv

/-- One operation that does not end its state. -/
theorem one {o : Operation} (ho : o.ends = false)
    (hR : ∀ P env, P.Op c.size o → Suits P (c.added o) loop env → valid env →
      R P env c.size (c.size + 1)) : Compiled c (c.added o) loop valid R := by
  refine ⟨Compiler.grows_added, fun P env hP hs hv => ⟨?_, ?_⟩⟩
  · rw [Compiler.size_added]
    exact hR P env (Compiler.op_added hP) hs hv
  · rw [Compiler.ended_added, ho]
    intro h
    cases h

/-- One operation behind which nothing comes. -/
theorem jump {o : Operation}
    (hR : ∀ P env, P.Op c.size o → Suits P (c.added o) loop env → valid env →
      ∀ q, R P env c.size q) : Compiled c (c.added o) loop valid R := by
  refine ⟨Compiler.grows_added, fun P env hP hs hv => ?_⟩
  have h := hR P env (Compiler.op_added hP) hs hv
  exact ⟨h _, fun _ => .inl h⟩

/-- Other steps before, which add nothing. -/
theorem after {c₀ : Compiler} (h : Compiled c c' loop valid R) (hg : Grows c₀.labels.length c₀ c)
    (hs : c.size = c₀.size) (he : c.ended = c₀.ended) : Compiled c₀ c' loop valid R := by
  refine ⟨hg.trans (h.grows.weaken hg.count), fun P env hP hsuit hv => ?_⟩
  have := h.layout P env hP hsuit hv
  rwa [hs, he] at this

/-- The same operations for another purpose. -/
theorem imp (h : Compiled c c' loop valid R) {valid' : Env → Prop}
    {R' : Compiler → Env → Nat → Nat → Prop} (hv : ∀ env, valid' env → valid env)
    (hR : ∀ P env p q, valid' env → R P env p q → R' P env p q) :
    Compiled c c' loop valid' R' := by
  refine ⟨h.grows, fun P env hP hs hv' => ?_⟩
  obtain ⟨hl, he⟩ := h.layout P env hP hs (hv env hv')
  refine ⟨hR P env _ _ hv' hl, fun hended => ?_⟩
  obtain hq | ⟨hc, hr⟩ := he hended
  · exact .inl fun q => hR P env _ _ hv' (hq q)
  · exact .inr ⟨hc, fun r => hR P env _ _ hv' (hr r)⟩

/-- Two parts one after the other. -/
theorem seq {valid₁ valid₂ : Env → Prop} {R₁ R₂ : Compiler → Env → Nat → Nat → Prop}
    (h₁ : Compiled c c' loop valid₁ R₁) (h₂ : Compiled c' c'' loop valid₂ R₂)
    (hv₁ : ∀ env, valid env → valid₁ env) (hv₂ : ∀ env, valid env → valid₂ env)
    (hR : ∀ P env p q r, R₁ P env p q → R₂ P env q r → R P env p r) :
    Compiled c c'' loop valid R := by
  refine ⟨h₁.grows.trans (h₂.grows.weaken h₁.grows.count), fun P env hP hs hv => ?_⟩
  have hP' : Grows 0 c' P := (h₂.grows.weaken (Nat.zero_le _)).trans hP
  obtain ⟨l₁, e₁⟩ := h₁.layout P env hP' (hs.before h₂.grows) (hv₁ env hv)
  obtain ⟨l₂, e₂⟩ := h₂.layout P env hP hs (hv₂ env hv)
  refine ⟨hR P env _ _ _ l₁ l₂, fun hended => ?_⟩
  obtain hq | ⟨hc', hr⟩ := e₂ hended
  · exact .inl fun q => hR P env _ _ _ l₁ (hq q)
  · -- the second part is nothing, so it is the first one that does not come to its end
    obtain hq | ⟨hc, hr'⟩ := e₁ hc'
    · exact .inl fun q => hR P env _ _ _ (hq q) (hr q)
    · exact .inr ⟨hc, fun r => hR P env _ _ _ (hr' r) (hr r)⟩

end Compiled

/-! ## Single statements -/

section

variable {hidden : List String} {c : Compiler} {loop : Option Loop} {s : Code}

/-- A guard that is passed. -/
theorem run_guard {b : Bool} {f : Fault} {k : PUnit → Compile Unit} {r : Unit × Compiler} :
    (if b = true then (throw f : Compile PUnit) >>= k else k ()).run c = .ok r ↔
      b = false ∧ (k ()).run c = .ok r := by
  cases b with
  | true =>
    rw [if_pos rfl, run_bind, run_throw]
    simp
  | false => simp

theorem needsLowering_eq_false (h : needsLowering s = false) :
    containsYield s = false ∧ (escapes .nothing [] s).1 = false := by
  simpa [needsLowering] using h

/-- A statement that is not cut into states. -/
theorem compiled_stmt (hn : needsLowering s = false) :
    Compiled c (c.added (.stmt s)) loop (Valid hidden s) fun P env => Lowered P hidden env s := by
  obtain ⟨hy, he⟩ := needsLowering_eq_false hn
  refine .one rfl fun P env ho _ hv => ?_
  refine .kept ho rfl (redirected_self he (keepable_of_lowerable hv.lowerable hy) ⟨0, none⟩)
    (fun _ => id) ?_
  intro j n hj
  simp [Reach.root] at hj

theorem typedInit_ok {t i i' : Code} {n : String} (h : typedInit t n i = .ok i') :
    i' = initialValue t i := by
  unfold typedInit at h
  split at h
  · split at h
    · cases h
    · split at h
      · cases h
      · cases h
        rfl
    · cases h
  · rename_i hno
    cases h
    unfold initialValue
    split
    · exact absurd rfl (hno _ _ _)
    · rfl

/-- A declaration of a variable. -/
theorem compiled_local {t i : Code} {n : String} {mods : Syntax.Flags} {annos : List Code}
    {r : Unit × Compiler} (h : (localVariable t n i).run c = .ok r) :
    Compiled c r.2 loop (Valid hidden (.localDecl t n mods annos i))
      fun P env => Lowered P hidden env (.localDecl t n mods annos i) := by
  simp only [localVariable, run_bind] at h
  obtain ⟨⟨_, c₁⟩, hh, h⟩ := h
  obtain ⟨hcomplete, hcurrent, hlabels⟩ := run_hoist hh
  have hsize : c₁.size = c.size := by simp only [Compiler.size, Compiler.ops, hcomplete, hcurrent]
  have hended : c₁.ended = c.ended := by simp only [Compiler.ended, hcurrent]
  have hgrows : Grows c.labels.length c c₁ := .same hcomplete hcurrent hlabels
  cases hi : i.isMissing with
  | true =>
    obtain rfl : i = .missing := by
      cases i <;> first
        | rfl
        | cases hi
    cases h
    exact .nothing hgrows hsize hended fun _ _ _ _ => .declared
  | false =>
    simp only [hi, Bool.not_false, if_true, run_bind, run_lift, run_emit] at h
    obtain ⟨_, ⟨i', hi', rfl⟩, heq⟩ := h
    cases heq
    obtain rfl := typedInit_ok hi'
    have hone : Compiled c₁ (c₁.added (.stmt (.assign (.named n) (initialValue t i)))) loop
        (Valid hidden (.localDecl t n mods annos i))
        fun P env => Lowered P hidden env (.localDecl t n mods annos i) :=
      .one rfl fun P env ho _ hv => .initialized hi (fresh_of_lowerable hv.lowerable) ho
    exact hone.after hgrows hsize hended

/-- A statement that needs no lowering. -/
theorem compiled_plain (hn : needsLowering s = false) {r : Unit × Compiler}
    (h : (compileStmt loop s).run c = .ok r) :
    Compiled c r.2 loop (Valid hidden s) fun P env => Lowered P hidden env s := by
  rw [compileStmt.eq_def] at h
  obtain ⟨-, h⟩ := run_guard.mp h
  simp only [hn, Bool.not_false, if_true] at h
  split at h
  · exact compiled_local h
  · rw [run_emit] at h
    cases h
    exact compiled_stmt hn

/-- A jump to a label that stands at the target. -/
theorem compiled_jump {j : Jump} {l : Label} (hj : jumpOf s = some j)
    (ht : ∀ P env, Suits P (c.added (.jump l)) loop env →
      ∃ q, env.target j = some q ∧ P.Leads l q) :
    Compiled c (c.added (.jump l)) loop (Valid hidden s) fun P env => Lowered P hidden env s := by
  refine .jump fun P env ho hs _ q => ?_
  obtain ⟨r, hr, hl⟩ := ht P env hs
  exact .jump hj hr ⟨l, ho, hl⟩

/-- A yield. The label at which it is resumed stands right behind it. -/
theorem compiled_yield {v : Code} (hy : yielded s = some v)
    (hf : Everywhere (Lowerable hidden) s → Fresh hidden v) :
    Compiled c ((c.labelled.added (.yield v c.labels.length)).opened c.labels.length) loop
      (Valid hidden s) fun P env => Lowered P hidden env s := by
  have hl : c.labels.length < (c.labelled.added (.yield v c.labels.length)).labels.length := by
    rw [Compiler.count_added, Compiler.count_labelled]
    omega
  have hopen : (c.labelled.added (.yield v c.labels.length)).opening c.labels.length = none := by
    rw [Compiler.opening_added, Compiler.opening_labelled,
      Compiler.opening_of_le (Nat.le_refl _)]
  have g₁ : Grows c.labels.length c c.labelled := Compiler.grows_labelled (Nat.le_refl _)
  have g₃ := Compiler.grows_opened (Nat.le_refl c.labels.length) hopen
  refine ⟨g₁.trans (Compiler.grows_added.trans g₃), fun P env hP hs hv => ⟨?_, ?_⟩⟩
  · have hlead := Compiler.leads_opened hP hl
    rw [Compiler.size_added, Compiler.size_labelled] at hlead
    rw [Compiler.size_opened, Compiler.size_added, Compiler.size_labelled]
    exact .yield hy (hf hv.lowerable)
      (Compiler.op_added (c := c.labelled) ((g₃.weaken (Nat.zero_le _)).trans hP)) hlead
  · rw [Compiler.ended_opened]
    intro h
    cases h

/-! ### Kept statements -/

/-- Labels used one after the other. -/
theorem run_useLabels (ls : List Label) (c : Compiler) :
    (forIn ls PUnit.unit fun l _ => do
      useLabel l
      pure (ForInStep.yield PUnit.unit) : Compile PUnit).run c =
        .ok (PUnit.unit, ls.foldl Compiler.aimed c) := by
  induction ls generalizing c with
  | nil => rfl
  | cons l ls ih =>
    rw [List.forIn_cons]
    exact ih (c.aimed l)

theorem grows_aimedAll {n : Nat} (ls : List Label) (c : Compiler) :
    Grows n c (ls.foldl Compiler.aimed c) := by
  induction ls generalizing c with
  | nil => exact .refl c
  | cons l ls ih => exact Compiler.grows_aimed.trans (ih (c.aimed l))

theorem isUsed_aimedAll {l : Label} (ls : List Label) (c : Compiler) (hl : l ∈ ls)
    (hc : l < c.labels.length) : (ls.foldl Compiler.aimed c).isUsed l = true := by
  induction ls generalizing c with
  | nil => cases hl
  | cons k ls ih =>
    have hn : (c.aimed k).labels.length = c.labels.length := by
      simp [Compiler.aimed, Compiler.relabelled]
    cases hl with
    | head => exact (grows_aimedAll (n := 0) ls (c.aimed l)).used l (Compiler.isUsed_aimed hc)
    | tail _ hl => exact ih (c.aimed k) hl (hn ▸ hc)

theorem size_aimedAll (ls : List Label) (c : Compiler) :
    (ls.foldl Compiler.aimed c).size = c.size := by
  induction ls generalizing c with
  | nil => rfl
  | cons l ls ih => exact ih (c.aimed l)

theorem ended_aimedAll (ls : List Label) (c : Compiler) :
    (ls.foldl Compiler.aimed c).ended = c.ended := by
  induction ls generalizing c with
  | nil => rfl
  | cons l ls ih => exact ih (c.aimed l)

/-- The target of a jump, by the way in which it leaves. -/
theorem target_of_leavesAs {env : Env} {j : Jump} {k : Leave}
    (h : leavesAs .nothing j = some k) :
    env.target j = match k with
      | .finish => some env.finish
      | .exit => env.loop.map (·.1)
      | .next => env.loop.map (·.2) := by
  cases j with
  | ret => cases h; rfl
  | brk l | cont l =>
    cases hl : l.isEmpty with
    | false => simp [leavesAs, Around.nothing, hl] at h
    | true =>
      simp [leavesAs, Around.nothing, hl] at h
      subst h
      simp [Env.target, hl]

/-- The state of a way to leave, where it occurs, begins at the target of the jumps that leave that
way. -/
theorem begins_of_leaves {P c' : Compiler} {env : Env} {ways : List Leave} {j : Jump} {n : Nat}
    (hs : Suits P c' loop env)
    (hu : ∀ k ∈ ways, ∀ l, leaveLabel loop k = some l → c'.isUsed l = true)
    (hj : (Reach.root ⟨P.stateOf finishLabel,
      loop.map fun l => (P.stateOf l.exit, P.stateOf l.next)⟩ ways).leave j = some n) :
    ∃ q, env.target j = some q ∧ P.Begins n q := by
  simp only [Reach.root, Option.bind_eq_some_iff] at hj
  obtain ⟨k, hk, hj⟩ := hj
  rw [target_of_leavesAs hk]
  split at hj
  case isFalse => cases hj
  case isTrue hmem =>
    cases k with
    | finish =>
      cases hj
      exact ⟨env.finish, rfl, hs.finish⟩
    | exit | next =>
      simp only [Targets.of, Option.map_map, Option.map_eq_some_iff] at hj
      obtain ⟨lp, rfl, rfl⟩ := hj
      obtain ⟨e, x, henv, he, hx⟩ := hs.loop lp rfl
      rw [henv]
      first
        | exact ⟨e, rfl, he⟩
        | exact ⟨x, rfl, hx (hu .next hmem lp.next rfl)⟩

/-- Keeping a statement whole. -/
theorem compiled_keep {construct : String} {r : Unit × Compiler}
    (hy : containsYield s = false)
    (hn : InRange c loop)
    (hrev : overwrites s = false → revokes .nothing none s = false)
    (h : (keep construct s loop).run c = .ok r) :
    Compiled c r.2 loop (Valid hidden s) fun P env => Lowered P hidden env s := by
  simp only [keep, run_bind, run_lift, run_emit, run_useLabels] at h
  obtain ⟨_, ⟨⟨s', ways⟩, hk, rfl⟩, _, heq, h⟩ := h
  cases heq
  cases h
  have hone : Compiled (((ways.filterMap (leaveLabel loop)).foldl Compiler.aimed c))
      (((ways.filterMap (leaveLabel loop)).foldl Compiler.aimed c).added (.kept construct s loop))
      loop (Valid hidden s) fun P env => Lowered P hidden env s := by
    refine .one rfl fun P env ho hs hv => ?_
    obtain ⟨s'', hk', hred⟩ := keepStatement_spec hidden
      ⟨P.stateOf finishLabel, loop.map fun l => (P.stateOf l.exit, P.stateOf l.next)⟩
      (by cases loop <;> rfl) hk
    refine .kept ho ?_ (hred (keepable_of_lowerable hv.lowerable hy) (hrev hv.safe))
      (fun _ => id) fun j n hj => begins_of_leaves hs ?_ hj
    · simp only [Compiler.stmtsOf, hk']
    · intro k hk l hl
      refine Compiler.grows_added.used (n := 0) l (isUsed_aimedAll _ c ?_ ?_)
      · exact List.mem_filterMap.mpr ⟨k, hk, hl⟩
      · cases k with
        | finish => cases hl; exact hn.finish
        | exit =>
          obtain ⟨lp, hlp, rfl⟩ := Option.map_eq_some_iff.mp hl
          exact (hn.loop lp hlp).1
        | next =>
          obtain ⟨lp, hlp, rfl⟩ := Option.map_eq_some_iff.mp hl
          exact (hn.loop lp hlp).2
  exact hone.after (grows_aimedAll _ c) (size_aimedAll _ c) (ended_aimedAll _ c)

/-! ### Branches -/

theorem Valid.ifThen {cnd y n : Code} {env : Env} (hn : needsLowering (.ifThen cnd y n) = true)
    (h : Valid hidden (.ifThen cnd y n) env) :
    Fresh hidden cnd ∧ Valid hidden y env ∧ Valid hidden n env := by
  obtain ⟨hl, hs, hv⟩ := h
  obtain ⟨-, hc, hly, hln⟩ := Everywhere.ifThen.mp hl
  rw [overwrites, hn] at hs
  simp only [Bool.true_and, Bool.or_eq_false_iff] at hs
  refine ⟨fresh_of_lowerable hc, ⟨hly, hs.1, ?_⟩, ⟨hln, hs.2, ?_⟩⟩
  · exact fun x hx => (Everywhere.ifThen.mp (hv x hx)).2.2.1
  · exact fun x hx => (Everywhere.ifThen.mp (hv x hx)).2.2.2

/-- A branch without an alternative. -/
theorem compiled_if {cnd y : Code} {c₁ : Compiler}
    (hn : needsLowering (.ifThen cnd y .missing) = true)
    (hy : Compiled (c.labelled.added (.branch (negated cnd) c.labels.length)) c₁ loop
      (Valid hidden y) fun P env => Lowered P hidden env y) :
    Compiled c (c₁.opened c.labels.length) loop (Valid hidden (.ifThen cnd y .missing))
      fun P env => Lowered P hidden env (.ifThen cnd y .missing) := by
  have count := hy.grows.count
  have below := hy.grows.below c.labels.length
  rw [Compiler.count_added, Compiler.count_labelled] at count below
  have hopen : c₁.opening c.labels.length = none := by
    rw [below (by omega), Compiler.opening_added, Compiler.opening_labelled,
      Compiler.opening_of_le (Nat.le_refl _)]
  have g₀ : Grows c.labels.length c (c.labelled.added (.branch (negated cnd) c.labels.length)) :=
    (Compiler.grows_labelled (Nat.le_refl _)).trans Compiler.grows_added
  have g₁ := hy.grows.weaken g₀.count
  have g₂ := Compiler.grows_opened (Nat.le_refl c.labels.length) hopen
  refine ⟨g₀.trans (g₁.trans g₂), fun P env hP hs hv => ⟨?_, ?_⟩⟩
  · obtain ⟨hc, hvy, -⟩ := hv.ifThen hn
    have hP₁ := (g₂.weaken (Nat.zero_le _)).trans hP
    have ho := Compiler.op_added (c := c.labelled) ((g₁.weaken (Nat.zero_le _)).trans hP₁)
    have hl := Compiler.leads_opened hP (by omega)
    obtain ⟨ly, -⟩ := hy.layout P env hP₁ (hs.before g₂) hvy
    rw [Compiler.size_added, Compiler.size_labelled] at ly
    rw [Compiler.size_opened]
    exact .ifThen hc ho hl ly (.inl rfl) .skip
  · rw [Compiler.ended_opened]
    intro h
    cases h

/-- A branch whose first part never comes to its end. The second one follows at once. -/
theorem compiled_ifElse_ended {cnd y n : Code} {c₁ c₂ : Compiler}
    (hn : needsLowering (.ifThen cnd y n) = true) (hend : c₁.ended = true)
    (hy : Compiled (c.labelled.added (.branch (negated cnd) c.labels.length)) c₁ loop
      (Valid hidden y) fun P env => Lowered P hidden env y)
    (hn' : Compiled (c₁.labelled.opened c.labels.length) c₂ loop (Valid hidden n)
      fun P env => Lowered P hidden env n) :
    Compiled c c₂ loop (Valid hidden (.ifThen cnd y n))
      fun P env => Lowered P hidden env (.ifThen cnd y n) := by
  have count := hy.grows.count
  have below := hy.grows.below c.labels.length
  rw [Compiler.count_added, Compiler.count_labelled] at count below
  have g₀ : Grows c.labels.length c (c.labelled.added (.branch (negated cnd) c.labels.length)) :=
    (Compiler.grows_labelled (Nat.le_refl _)).trans Compiler.grows_added
  have g₁ := hy.grows.weaken g₀.count
  have g₂ : Grows c.labels.length c₁ c₁.labelled := Compiler.grows_labelled (by omega)
  have hopen : c₁.labelled.opening c.labels.length = none := by
    rw [(Compiler.grows_labelled (Nat.le_refl _)).below _ (by omega), below (by omega),
      Compiler.opening_added, Compiler.opening_labelled,
      Compiler.opening_of_le (Nat.le_refl _)]
  have g₃ := Compiler.grows_opened (Nat.le_refl c.labels.length) hopen
  have g₄ := hn'.grows.weaken (k := c.labels.length)
    (by rw [Compiler.count_opened, Compiler.count_labelled]; omega)
  refine ⟨g₀.trans (g₁.trans (g₂.trans (g₃.trans g₄))), fun P env hP hs hv => ?_⟩
  obtain ⟨hc, hvy, hvn⟩ := hv.ifThen hn
  have hP₃ := (g₄.weaken (Nat.zero_le _)).trans hP
  have hP₁ := (g₂.trans g₃).weaken (Nat.zero_le _) |>.trans hP₃
  have ho := Compiler.op_added (c := c.labelled) ((g₁.weaken (Nat.zero_le _)).trans hP₁)
  have hl := Compiler.leads_opened hP₃ (by rw [Compiler.count_labelled]; omega)
  obtain ⟨-, ey⟩ := hy.layout P env hP₁ (hs.before (g₂.trans (g₃.trans g₄))) hvy
  have ly : ∀ q, Lowered P hidden env y (c.size + 1) q := by
    obtain h | ⟨h, -⟩ := ey hend
    · rwa [Compiler.size_added, Compiler.size_labelled] at h
    · rw [Compiler.ended_added] at h
      cases h
  obtain ⟨ln, en⟩ := hn'.layout P env hP hs hvn
  rw [Compiler.size_opened] at ln en
  refine ⟨.ifThen hc ho hl (ly _) (.inl rfl) ln, fun hended => ?_⟩
  obtain h | ⟨h, -⟩ := en hended
  · exact .inl fun q => .ifThen hc ho hl (ly q) (.inl rfl) (h q)
  · rw [Compiler.ended_opened] at h
    cases h

/-- A branch with both parts. A jump leads from the end of the first one behind the second one. -/
theorem compiled_ifElse {cnd y n : Code} {c₁ c₂ : Compiler}
    (hn : needsLowering (.ifThen cnd y n) = true)
    (hy : Compiled (c.labelled.added (.branch (negated cnd) c.labels.length)) c₁ loop
      (Valid hidden y) fun P env => Lowered P hidden env y)
    (hn' : Compiled ((c₁.labelled.added (.jump c₁.labels.length)).opened c.labels.length) c₂ loop
      (Valid hidden n) fun P env => Lowered P hidden env n) :
    Compiled c (c₂.opened c₁.labels.length) loop (Valid hidden (.ifThen cnd y n))
      fun P env => Lowered P hidden env (.ifThen cnd y n) := by
  have count := hy.grows.count
  have below := hy.grows.below c.labels.length
  rw [Compiler.count_added, Compiler.count_labelled] at count below
  have count' := hn'.grows.count
  have below' := hn'.grows.below c₁.labels.length
  rw [Compiler.count_opened, Compiler.count_added, Compiler.count_labelled] at count' below'
  have g₀ : Grows c.labels.length c (c.labelled.added (.branch (negated cnd) c.labels.length)) :=
    (Compiler.grows_labelled (Nat.le_refl _)).trans Compiler.grows_added
  have g₁ := hy.grows.weaken g₀.count
  have g₂ : Grows c.labels.length c₁ (c₁.labelled.added (.jump c₁.labels.length)) :=
    (Compiler.grows_labelled (by omega)).trans Compiler.grows_added
  have hopen : (c₁.labelled.added (.jump c₁.labels.length)).opening c.labels.length = none := by
    rw [Compiler.opening_added, (Compiler.grows_labelled (Nat.le_refl _)).below _ (by omega),
      below (by omega), Compiler.opening_added, Compiler.opening_labelled,
      Compiler.opening_of_le (Nat.le_refl _)]
  have g₃ := Compiler.grows_opened (Nat.le_refl c.labels.length) hopen
  have g₄ := hn'.grows.weaken (k := c.labels.length)
    (by rw [Compiler.count_opened, Compiler.count_added, Compiler.count_labelled]; omega)
  have hopen' : c₂.opening c₁.labels.length = none := by
    rw [below' (by omega), Compiler.opening_opened_ne (by omega), Compiler.opening_added,
      Compiler.opening_labelled,
      Compiler.opening_of_le (Nat.le_refl _)]
  have g₅ : Grows c.labels.length c₂ (c₂.opened c₁.labels.length) :=
    Compiler.grows_opened (by omega) hopen'
  refine ⟨g₀.trans (g₁.trans (g₂.trans (g₃.trans (g₄.trans g₅)))), fun P env hP hs hv => ⟨?_, ?_⟩⟩
  · obtain ⟨hc, hvy, hvn⟩ := hv.ifThen hn
    have hP₄ := (g₅.weaken (Nat.zero_le _)).trans hP
    have hP₃ := (g₄.weaken (Nat.zero_le _)).trans hP₄
    have hP₂ := (g₃.weaken (Nat.zero_le _)).trans hP₃
    have hP₁ := (g₂.weaken (Nat.zero_le _)).trans hP₂
    have ho := Compiler.op_added (c := c.labelled) ((g₁.weaken (Nat.zero_le _)).trans hP₁)
    have hl := Compiler.leads_opened hP₃
      (by rw [Compiler.count_added, Compiler.count_labelled]; omega)
    have hoj := Compiler.op_added (c := c₁.labelled) hP₂
    have hlj := Compiler.leads_opened hP (by omega)
    obtain ⟨ly, -⟩ := hy.layout P env hP₁ (hs.before (g₂.trans (g₃.trans (g₄.trans g₅)))) hvy
    obtain ⟨ln, -⟩ := hn'.layout P env hP₄ (hs.before g₅) hvn
    rw [Compiler.size_added, Compiler.size_labelled] at ly
    rw [Compiler.size_opened, Compiler.size_added, Compiler.size_labelled] at ln
    rw [Compiler.size_added, Compiler.size_labelled] at hl
    rw [Compiler.size_opened]
    exact .ifThen hc ho hl ly (.inr ⟨_, hoj, hlj⟩) ln
  · rw [Compiler.ended_opened]
    intro h
    cases h

/-! ### Loops -/

/-- What all loops have in common: after some labels the head is opened, then the loop is compiled,
and the exit is opened behind it. -/
theorem loop_frame {d c₁ : Compiler} {exit : Nat} (h₀ : Grows c.labels.length c d)
    (hsize : d.size = c.size) (hhead : c.labels.length < d.labels.length)
    (hopen : d.opening c.labels.length = none)
    (h₁ : Grows c.labels.length (d.opened c.labels.length) c₁)
    (hexit : c₁.opening exit = none) (hle : c.labels.length ≤ exit)
    (hlt : exit < c₁.labels.length) :
    Grows c.labels.length c (c₁.opened exit) ∧ Grows 0 c₁ (c₁.opened exit) ∧
      ∀ P, Grows 0 (c₁.opened exit) P → Grows 0 c₁ P ∧ Grows 0 (d.opened c.labels.length) P ∧
        P.Leads c.labels.length c.size ∧ P.Leads exit c₁.size := by
  have g₀ := Compiler.grows_opened (Nat.le_refl c.labels.length) hopen
  have g₁ := Compiler.grows_opened hle hexit
  refine ⟨h₀.trans (g₀.trans (h₁.trans g₁)), g₁.weaken (Nat.zero_le _), fun P hP => ?_⟩
  have hP₁ := (g₁.weaken (Nat.zero_le _)).trans hP
  have hP₀ := (h₁.weaken (Nat.zero_le _)).trans hP₁
  refine ⟨hP₁, hP₀, ?_, Compiler.leads_opened hP hlt⟩
  rw [← hsize]
  exact Compiler.leads_opened hP₀ hhead

/-- The test in front of the body of a loop. -/
theorem tests_addedUnless {P : Compiler} {cnd : Code} {b : Bool} {exit q n : Nat}
    (hP : Grows n (c.addedUnless b (.branch (negated cnd) exit)) P) (hl : P.Leads exit q) :
    P.Tests b cnd c.size (c.addedUnless b (.branch (negated cnd) exit)).size q := by
  cases b with
  | true => exact .always rfl
  | false =>
    have h : c.addedUnless false (.branch (negated cnd) exit) =
        c.added (.branch (negated cnd) exit) := rfl
    rw [h] at hP ⊢
    rw [Compiler.size_added]
    exact .before rfl (Compiler.op_added hP) hl

/-- The places in the body of a loop. -/
theorem Suits.within {P c' c₁ : Compiler} {env : Env} {cyc : Cycle Unit} {exit next : Label}
    {q x : Nat} (hs : Suits P c' loop env) (he : P.Leads exit q)
    (hx : c₁.isUsed next = true → P.Leads next x) :
    Suits P c₁ (some ⟨exit, next⟩) (cyc.within env q x) := by
  refine ⟨hs.finish, ?_⟩
  rintro l ⟨⟩
  exact ⟨q, x, rfl, he, hx⟩

theorem overwrites_loop {b : Code} (hn : needsLowering s = true)
    (h : overwrites s = (needsLowering s && overwrites b)) (hs : overwrites s = false) :
    overwrites b = false := by
  rwa [h, hn, Bool.true_and] at hs

/-- A `while` loop. -/
theorem compiled_while {cnd b : Code} {c₁ : Compiler}
    (hn : needsLowering (.whileLoop cnd b) = true)
    (hb : Compiled ((c.labelled.labelled.opened c.labels.length).addedUnless (isTrue cnd)
      (.branch (negated cnd) (c.labels.length + 1))) c₁
      (some ⟨c.labels.length + 1, c.labels.length⟩) (Valid hidden b)
      fun P env => Lowered P hidden env b) :
    Compiled c ((c₁.added (.jump c.labels.length)).opened (c.labels.length + 1)) loop
      (Valid hidden (.whileLoop cnd b)) fun P env => Lowered P hidden env (.whileLoop cnd b) := by
  have count := hb.grows.count
  have below := hb.grows.below (c.labels.length + 1)
  rw [Compiler.count_addedUnless, Compiler.count_opened, Compiler.count_labelled,
    Compiler.count_labelled] at count below
  have g₁ := hb.grows.weaken (k := c.labels.length) (by
    rw [Compiler.count_addedUnless, Compiler.count_opened, Compiler.count_labelled,
      Compiler.count_labelled]
    omega)
  have hexit : (c₁.added (.jump c.labels.length)).opening (c.labels.length + 1) = none := by
    rw [Compiler.opening_added, below (by omega), Compiler.opening_addedUnless,
      Compiler.opening_opened_ne (by omega), Compiler.opening_labelled, Compiler.opening_labelled,
      Compiler.opening_of_le (by omega)]
  have hhead : c.labelled.labelled.opening c.labels.length = none := by
    rw [Compiler.opening_labelled, Compiler.opening_labelled,
      Compiler.opening_of_le (Nat.le_refl _)]
  obtain ⟨grows, g₂, frame⟩ := loop_frame (c := c) (d := c.labelled.labelled)
    ((Compiler.grows_labelled (Nat.le_refl _)).trans
      (Compiler.grows_labelled (by rw [Compiler.count_labelled]; omega)))
    rfl (by rw [Compiler.count_labelled, Compiler.count_labelled]; omega) hhead
    (Compiler.grows_addedUnless.trans (g₁.trans Compiler.grows_added)) hexit (by omega)
    (by rw [Compiler.count_added]; omega)
  refine ⟨grows, fun P env hP hs hv => ⟨?_, ?_⟩⟩
  · obtain ⟨hP₂, -, head, exit⟩ := frame P hP
    have hP₁ := Compiler.grows_added.trans hP₂
    have ht := tests_addedUnless ((g₁.weaken (Nat.zero_le _)).trans hP₁) exit
    obtain ⟨hl, hsafe, hvars⟩ := hv
    obtain ⟨-, hc, hlb⟩ := Everywhere.whileLoop.mp hl
    obtain ⟨lb, -⟩ := hb.layout P
      ((Cycle.test cnd b : Cycle Unit).within env (c₁.added (.jump c.labels.length)).size c.size)
      hP₁ (hs.within exit fun _ => head)
      ⟨hlb, overwrites_loop hn rfl hsafe, fun x hx => (Everywhere.whileLoop.mp (hvars x hx)).2.2⟩
    have back : P.Jumps c₁.size c.size := ⟨_, Compiler.op_added hP₂, head⟩
    rw [Compiler.size_opened]
    rw [Compiler.size_opened] at ht
    exact .whileLoop (.mk (.test (fresh_of_lowerable hc) ht) lb (.head fun _ _ _ => nofun)
      (.test (.inr back) fun _ => back))
  · rw [Compiler.ended_opened]
    intro h
    cases h

/-- A `do` loop. -/
theorem compiled_do {cnd b : Code} {c₁ : Compiler} {last : Operation}
    (hn : needsLowering (.doLoop b cnd) = true)
    (hlast : last = if isTrue cnd then .jump c.labels.length else .branch cnd c.labels.length)
    (hb : Compiled (c.labelled.labelled.labelled.opened c.labels.length) c₁
      (some ⟨c.labels.length + 2, c.labels.length + 1⟩) (Valid hidden b)
      fun P env => Lowered P hidden env b) :
    Compiled c (((c₁.openedIfUsed (c.labels.length + 1)).added last).opened
      (c.labels.length + 2)) loop
      (Valid hidden (.doLoop b cnd)) fun P env => Lowered P hidden env (.doLoop b cnd) := by
  have count := hb.grows.count
  have below := hb.grows.below
  rw [Compiler.count_opened, Compiler.count_labelled, Compiler.count_labelled,
    Compiler.count_labelled] at count below
  have fresh : ∀ k, c.labels.length ≤ k → c.labelled.labelled.labelled.opening k = none := by
    intro k hk
    rw [Compiler.opening_labelled, Compiler.opening_labelled, Compiler.opening_labelled,
      Compiler.opening_of_le hk]
  have g₁ := hb.grows.weaken (k := c.labels.length) (by
    rw [Compiler.count_opened, Compiler.count_labelled, Compiler.count_labelled,
      Compiler.count_labelled]
    omega)
  have hnext : c₁.opening (c.labels.length + 1) = none := by
    rw [below _ (by omega), Compiler.opening_opened_ne (by omega), fresh _ (by omega)]
  have g₂ : Grows c.labels.length c₁ (c₁.openedIfUsed (c.labels.length + 1)) :=
    Compiler.grows_openedIfUsed (by omega) hnext
  have hexit : ((c₁.openedIfUsed (c.labels.length + 1)).added last).opening
      (c.labels.length + 2) = none := by
    rw [Compiler.opening_added, Compiler.opening_openedIfUsed_ne (by omega), below _ (by omega),
      Compiler.opening_opened_ne (by omega), fresh _ (by omega)]
  obtain ⟨grows, g₃, frame⟩ := loop_frame (c := c) (d := c.labelled.labelled.labelled)
    ((Compiler.grows_labelled (Nat.le_refl _)).trans ((Compiler.grows_labelled
      (by rw [Compiler.count_labelled]; omega)).trans (Compiler.grows_labelled
        (by rw [Compiler.count_labelled, Compiler.count_labelled]; omega))))
    rfl (by simp only [Compiler.count_labelled]; omega) (fresh _ (Nat.le_refl _))
    (g₁.trans (g₂.trans Compiler.grows_added)) hexit (by omega)
    (by rw [Compiler.count_added, Compiler.count_openedIfUsed]; omega)
  refine ⟨grows, fun P env hP hs hv => ⟨?_, ?_⟩⟩
  · obtain ⟨hP₃, -, head, exit⟩ := frame P hP
    have hP₂ := Compiler.grows_added.trans hP₃
    have hP₁ := (g₂.weaken (Nat.zero_le _)).trans hP₂
    have ho := Compiler.op_added hP₃
    rw [Compiler.size_openedIfUsed] at ho
    obtain ⟨hl, hsafe, hvars⟩ := hv
    obtain ⟨-, hlb, hc⟩ := Everywhere.doLoop.mp hl
    obtain ⟨lb, -⟩ := hb.layout P ((Cycle.test cnd b : Cycle Unit).within env
        ((c₁.openedIfUsed (c.labels.length + 1)).added last).size c₁.size) hP₁
      (hs.within exit fun hu => Compiler.leads_openedIfUsed hP₂ hu)
      ⟨hlb, overwrites_loop hn rfl hsafe, fun x hx => (Everywhere.doLoop.mp (hvars x hx)).2.1⟩
    rw [Compiler.size_opened] at lb
    rw [Compiler.size_opened]
    rw [Compiler.size_added, Compiler.size_openedIfUsed] at lb ⊢
    cases ht : isTrue cnd with
    | true =>
      rw [ht, if_pos rfl] at hlast
      rw [hlast] at ho
      have back : P.Jumps c₁.size c.size := ⟨_, ho, head⟩
      exact .doLoop (.mk (.test (fresh_of_lowerable hc) (.always ht)) lb
        (.ends (.test (.inr back) fun _ => back)) (.test (.inr back) fun _ => back))
    | false =>
      rw [ht, if_neg Bool.false_ne_true] at hlast
      rw [hlast] at ho
      refine .doLoop (.mk (.test (fresh_of_lowerable hc) (.behind ht ho head)) lb
        (.head fun _ _ _ => nofun) (.test (.inl rfl) fun h => ?_))
      rw [ht] at h
      cases h
  · rw [Compiler.ended_opened]
    intro h
    cases h

/-- The rounds of a `for` loop, behind its first part. -/
theorem compiled_rounds {cnd b : Code} {u : List Code} {c₁ c₂ : Compiler} {valid : Env → Prop}
    (hv : ∀ env, valid env → Fresh hidden cnd ∧ ValidAll hidden u env ∧ Valid hidden b env)
    (hb : Compiled ((c.labelled.labelled.labelled.opened c.labels.length).addedUnless
      (!(!cnd.isMissing && !isTrue cnd)) (.branch (negated cnd) (c.labels.length + 2))) c₁
      (some ⟨c.labels.length + 2, c.labels.length + 1⟩) (Valid hidden b)
      fun P env => Lowered P hidden env b)
    (hu : Compiled (c₁.openedIfUsed (c.labels.length + 1)) c₂ loop (ValidAll hidden u)
      fun P env => LoweredAll P hidden env u) :
    Compiled c ((c₂.added (.jump c.labels.length)).opened (c.labels.length + 2)) loop valid
      fun P env p q => ∃ b₀, LoopAt P hidden env (.counted cnd u b) p b₀ q := by
  have count := hb.grows.count
  have below := hb.grows.below
  have count' := hu.grows.count
  have below' := hu.grows.below
  rw [Compiler.count_addedUnless, Compiler.count_opened, Compiler.count_labelled,
    Compiler.count_labelled, Compiler.count_labelled] at count below
  rw [Compiler.count_openedIfUsed] at count' below'
  have fresh : ∀ k, c.labels.length ≤ k → c.labelled.labelled.labelled.opening k = none := by
    intro k hk
    rw [Compiler.opening_labelled, Compiler.opening_labelled, Compiler.opening_labelled,
      Compiler.opening_of_le hk]
  have g₁ := hb.grows.weaken (k := c.labels.length) (by
    rw [Compiler.count_addedUnless, Compiler.count_opened, Compiler.count_labelled,
      Compiler.count_labelled, Compiler.count_labelled]
    omega)
  have hnext : c₁.opening (c.labels.length + 1) = none := by
    rw [below _ (by omega), Compiler.opening_addedUnless, Compiler.opening_opened_ne (by omega),
      fresh _ (by omega)]
  have g₂ : Grows c.labels.length c₁ (c₁.openedIfUsed (c.labels.length + 1)) :=
    Compiler.grows_openedIfUsed (by omega) hnext
  have g₃ := hu.grows.weaken (k := c.labels.length) (by rw [Compiler.count_openedIfUsed]; omega)
  have hexit : (c₂.added (.jump c.labels.length)).opening (c.labels.length + 2) = none := by
    rw [Compiler.opening_added, below' _ (by omega), Compiler.opening_openedIfUsed_ne (by omega),
      below _ (by omega), Compiler.opening_addedUnless, Compiler.opening_opened_ne (by omega),
      fresh _ (by omega)]
  obtain ⟨grows, g₄, frame⟩ := loop_frame (c := c) (d := c.labelled.labelled.labelled)
    ((Compiler.grows_labelled (Nat.le_refl _)).trans ((Compiler.grows_labelled
      (by rw [Compiler.count_labelled]; omega)).trans (Compiler.grows_labelled
        (by rw [Compiler.count_labelled, Compiler.count_labelled]; omega))))
    rfl (by simp only [Compiler.count_labelled]; omega) (fresh _ (Nat.le_refl _))
    (Compiler.grows_addedUnless.trans (g₁.trans (g₂.trans (g₃.trans Compiler.grows_added)))) hexit
    (by omega) (by rw [Compiler.count_added]; omega)
  refine ⟨grows, fun P env hP hs hval => ⟨?_, ?_⟩⟩
  · obtain ⟨hP₄, -, head, exit⟩ := frame P hP
    have hP₃ := Compiler.grows_added.trans hP₄
    have hP₂ := (g₃.weaken (Nat.zero_le _)).trans hP₃
    have hP₁ := (g₂.weaken (Nat.zero_le _)).trans hP₂
    have ht := tests_addedUnless ((g₁.weaken (Nat.zero_le _)).trans hP₁) exit
    have sure : (!(!cnd.isMissing && !isTrue cnd)) = (cnd.isMissing || isTrue cnd) := by
      rw [Bool.not_and, Bool.not_not, Bool.not_not]
    have first : ∀ {sure : Bool} {g p q : Nat}, sure = (cnd.isMissing || isTrue cnd) →
        P.Tests sure cnd g p q → HeadAt P hidden (.counted cnd u b) g p q := by
      rintro sure g p q rfl ht
      exact .counted (hv env hval).1 ht
    obtain ⟨-, hvu, hvb⟩ := hv env hval
    obtain ⟨lu, -⟩ := hu.layout P env hP₃
      (hs.before ((Compiler.grows_added (n := 0)).trans g₄)) hvu
    obtain ⟨lb, -⟩ := hb.layout P ((Cycle.counted cnd u b : Cycle Unit).within env
        (c₂.added (.jump c.labels.length)).size c₁.size) hP₁
      (hs.within exit fun hu => Compiler.leads_openedIfUsed hP₂ hu) ⟨hvb.1, hvb.2, hvb.3⟩
    have back : P.Jumps c₂.size c.size := ⟨_, Compiler.op_added hP₄, head⟩
    rw [Compiler.size_openedIfUsed] at lu
    rw [Compiler.size_opened]
    rw [Compiler.size_opened] at ht
    exact ⟨_, .mk (first sure ht) lb (.ends (.counted lu back)) (.counted lu back)⟩
  · rw [Compiler.ended_opened]
    intro h
    cases h

/-- The rounds of a loop over a collection, behind the assignment of its cursor. -/
theorem compiled_each {t b : Code} {n : String} {c₁ : Compiler} {valid : Env → Prop}
    (hv : ∀ env, valid env → n ∉ hidden ∧ cursorName n ∈ hidden ∧
      ∀ e x, Valid hidden b ((Cycle.each t n () b : Cycle Unit).within env e x))
    (hb : Compiled (((c.labelled.labelled.opened c.labels.length).added
        (.branch (negated (.invoke (cursorOf n) "hasNext" [])) (c.labels.length + 1))).added
        (.stmt (.assign (.named n) (.cast t (.invoke (cursorOf n) "next" []))))) c₁
      (some ⟨c.labels.length + 1, c.labels.length⟩) (Valid hidden b)
      fun P env => Lowered P hidden env b) :
    Compiled c ((c₁.added (.jump c.labels.length)).opened (c.labels.length + 1)) loop valid
      fun P env p q => ∃ b₀, LoopAt P hidden env (.each t n () b) p b₀ q := by
  have count := hb.grows.count
  have below := hb.grows.below (c.labels.length + 1)
  rw [Compiler.count_added, Compiler.count_added, Compiler.count_opened, Compiler.count_labelled,
    Compiler.count_labelled] at count below
  have g₁ := hb.grows.weaken (k := c.labels.length) (by
    rw [Compiler.count_added, Compiler.count_added, Compiler.count_opened,
      Compiler.count_labelled, Compiler.count_labelled]
    omega)
  have hexit : (c₁.added (.jump c.labels.length)).opening (c.labels.length + 1) = none := by
    rw [Compiler.opening_added, below (by omega), Compiler.opening_added, Compiler.opening_added,
      Compiler.opening_opened_ne (by omega), Compiler.opening_labelled, Compiler.opening_labelled,
      Compiler.opening_of_le (by omega)]
  have hhead : c.labelled.labelled.opening c.labels.length = none := by
    rw [Compiler.opening_labelled, Compiler.opening_labelled,
      Compiler.opening_of_le (Nat.le_refl _)]
  obtain ⟨grows, g₂, frame⟩ := loop_frame (c := c) (d := c.labelled.labelled)
    ((Compiler.grows_labelled (Nat.le_refl _)).trans
      (Compiler.grows_labelled (by rw [Compiler.count_labelled]; omega)))
    rfl (by rw [Compiler.count_labelled, Compiler.count_labelled]; omega) hhead
    (Compiler.grows_added.trans (Compiler.grows_added.trans (g₁.trans Compiler.grows_added))) hexit
    (by omega) (by rw [Compiler.count_added]; omega)
  refine ⟨grows, fun P env hP hs hval => ⟨?_, ?_⟩⟩
  · obtain ⟨hP₂, -, head, exit⟩ := frame P hP
    have hP₁ := Compiler.grows_added.trans hP₂
    have hP₀ := (g₁.weaken (Nat.zero_le _)).trans hP₁
    have ho := Compiler.op_added (Compiler.grows_added.trans hP₀)
    have ho' := Compiler.op_added hP₀
    obtain ⟨hn, hcur, hvb⟩ := hv env hval
    obtain ⟨lb, -⟩ := hb.layout P
      ((Cycle.each t n () b : Cycle Unit).within env (c₁.added (.jump c.labels.length)).size c.size)
      hP₁ (hs.within exit fun _ => head) (hvb _ _)
    have back : P.Jumps c₁.size c.size := ⟨_, Compiler.op_added hP₂, head⟩
    simp only [Compiler.size_added, Compiler.size_opened, Compiler.size_labelled] at lb ho ho' exit ⊢
    exact ⟨_, .mk (.each hn hcur ho exit ho') lb (.head fun _ _ _ => nofun) (.each back)⟩
  · rw [Compiler.ended_opened]
    intro h
    cases h

end

/-! ## All statements -/

theorem ValidAll.cons {hidden : List String} {s : Code} {ss : List Code} {env : Env}
    (h : ValidAll hidden (s :: ss) env) : Valid hidden s env ∧ ValidAll hidden ss env := by
  obtain ⟨hl, hs, hv⟩ := h
  obtain ⟨hl₁, hl₂⟩ := List.forall_mem_cons.mp hl
  simp only [overwritesAny, Bool.or_eq_false_iff] at hs
  refine ⟨⟨hl₁, hs.1, ?_⟩, ⟨hl₂, hs.2, ?_⟩⟩
  · exact fun x hx => hv x hx s List.mem_cons_self
  · exact fun x hx t ht => hv x hx t (List.mem_cons_of_mem s ht)

/-- Statements without control flow need no further thought. -/
theorem overwritesAny_plain {ss : List Code} (h : ∀ s ∈ ss, isControl s = false) :
    overwritesAny ss = false := by
  induction ss with
  | nil => rfl
  | cons s ss ih =>
    obtain ⟨hs, hss⟩ := List.forall_mem_cons.mp h
    simp only [overwritesAny, Bool.or_eq_false_iff]
    refine ⟨?_, ih hss⟩
    unfold overwrites
    cases s <;> first
      | (simp only [revokes, Bool.and_false]; done)
      | cases hs

theorem Valid.forLoop {hidden : List String} {i u : List Code} {cnd b : Code} {env : Env}
    (hn : needsLowering (.forLoop i cnd u b) = true) (h : Valid hidden (.forLoop i cnd u b) env) :
    ValidAll hidden i env ∧ Fresh hidden cnd ∧ ValidAll hidden u env ∧ Valid hidden b env := by
  obtain ⟨hl, hs, hv⟩ := h
  obtain ⟨htop, hi, hc, hu, hb⟩ := Everywhere.forLoop.mp hl
  have head : ∀ s ∈ i ++ u, isControl s = false := by
    intro s hm
    simpa using List.all_eq_true.mp htop.head s hm
  have parts := fun x hx => Everywhere.forLoop.mp (hv x hx)
  refine ⟨⟨hi, ?_, fun x hx => (parts x hx).2.1⟩, fresh_of_lowerable hc,
    ⟨hu, ?_, fun x hx => (parts x hx).2.2.2.1⟩,
    ⟨hb, overwrites_loop hn rfl hs, fun x hx => (parts x hx).2.2.2.2⟩⟩
  · exact overwritesAny_plain fun s hm => head s (List.mem_append_left u hm)
  · exact overwritesAny_plain fun s hm => head s (List.mem_append_right i hm)

theorem Valid.foreach {hidden : List String} {t i e b : Code} {n : String} {mods : Syntax.Flags}
    {annos : List Code} {env : Env}
    (hn : needsLowering (.foreach (.localDecl t n mods annos i) e b) = true)
    (h : Valid hidden (.foreach (.localDecl t n mods annos i) e b) env) :
    Fresh hidden e ∧ n ∉ env.vars ∧ n ∉ hidden ∧ cursorName n ∈ hidden ∧
      ∀ exit next, Valid hidden b ((Cycle.each t n () b : Cycle Unit).within env exit next) := by
  obtain ⟨hl, hs, hv⟩ := h
  obtain ⟨htop, hvar, he, hb⟩ := Everywhere.foreach.mp hl
  have parts := fun x hx => Everywhere.foreach.mp (hv x hx)
  refine ⟨fresh_of_lowerable he, fun hx => (parts n hx).1 rfl, ?_, htop.cursor n rfl,
    fun exit next => ⟨hb, overwrites_loop hn rfl hs, ?_⟩⟩
  · exact (Everywhere.localDecl.mp hvar).1.names n (List.mem_singleton_self n)
  · intro x hx
    obtain rfl | hx := List.mem_cons.mp hx
    · exact htop.own _ rfl
    · exact (parts x hx).2.2.2

section

variable {hidden : List String}

mutual

/-- **The operations of a compiled statement are its own.** -/
theorem compileStmt_spec (s : Code) {loop : Option Loop} {c : Compiler} {r : Unit × Compiler}
    (hr : InRange c loop) (h : (compileStmt loop s).run c = .ok r) :
    Compiled c r.2 loop (Valid hidden s) fun P env => Lowered P hidden env s := by
  cases hlow : needsLowering s with
  | false => exact compiled_plain hlow h
  | true =>
  cases s with
  | call rc m ts as =>
    simp only [compileStmt, run_guard, hlow, Bool.not_true, Bool.false_eq_true, if_false] at h
    obtain ⟨-, hy, h⟩ := h
    have hy : isYield (.call rc m ts as) = true := by simpa using hy
    split at h
    · simp only [run_bind, run_newLabel, run_emit, run_openLabel, Except.ok.injEq,
        exists_eq_left'] at h
      cases h
      refine compiled_yield (by simp [yielded, hy]) fun hl => ?_
      exact fresh_of_lowerable ((Everywhere.call.mp hl).2.2.2 _ (List.mem_singleton_self _))
    · cases h
  | block ss =>
    simp only [compileStmt, run_guard, hlow, Bool.not_true, Bool.false_eq_true, if_false] at h
    refine (compileStmts_spec ss hr h.2).imp ?_ fun _ _ _ _ _ hl => .block hl
    rintro env ⟨hl, hs, hv⟩
    refine ⟨(Everywhere.block.mp hl).2, ?_, fun x hx => (Everywhere.block.mp (hv x hx)).2⟩
    rwa [overwrites, hlow, Bool.true_and] at hs
  | ifThen cnd y n =>
    simp only [compileStmt, run_guard, hlow, Bool.not_true, Bool.false_eq_true, if_false, run_bind,
      run_newLabel, run_emit, Except.ok.injEq, exists_eq_left'] at h
    obtain ⟨-, ⟨_, c₁⟩, hy, h⟩ := h
    have hry : InRange (c.labelled.added (.branch (negated cnd) c.labels.length)) loop :=
      hr.mono (by rw [Compiler.count_added, Compiler.count_labelled]; omega)
    have cy := compileStmt_spec y hry hy
    have count := cy.grows.count
    simp only [Compiler.count_added, Compiler.count_labelled] at count
    split at h
    · rw [run_openLabel] at h
      cases h
      exact compiled_if hlow cy
    · simp only [run_bind, run_isEnded, run_newLabel, Except.ok.injEq, exists_eq_left'] at h
      cases hend : c₁.ended with
      | true =>
        simp only [hend, Bool.not_true, Bool.false_eq_true, if_false, run_bind, run_openLabel,
          Except.ok.injEq, exists_eq_left'] at h
        obtain ⟨⟨_, c₂⟩, hn, h⟩ := h
        cases h
        refine compiled_ifElse_ended hlow hend cy (compileStmt_spec n (hry.mono ?_) hn)
        simp only [Compiler.count_opened, Compiler.count_added, Compiler.count_labelled]
        omega
      | false =>
        simp only [hend, Bool.not_false, if_true, run_bind, run_emit, run_openLabel,
          Except.ok.injEq, exists_eq_left'] at h
        obtain ⟨⟨_, c₂⟩, hn, h⟩ := h
        cases h
        refine compiled_ifElse hlow cy (compileStmt_spec n (hry.mono ?_) hn)
        simp only [Compiler.count_opened, Compiler.count_added, Compiler.count_labelled]
        omega
  | whileLoop cnd b =>
    simp only [compileStmt, run_guard, hlow, Bool.not_true, Bool.false_eq_true, if_false, run_bind,
      run_newLabel, run_openLabel, Except.ok.injEq, exists_eq_left'] at h
    obtain ⟨-, h⟩ := h
    rw [run_emitUnless] at h
    simp only [run_bind, run_emit, run_openLabel, Except.ok.injEq, exists_eq_left',
      Compiler.count_labelled] at h
    obtain ⟨⟨_, c₁⟩, hb, h⟩ := h
    cases h
    refine compiled_while hlow (compileStmt_spec b (hr.inner ?_ ?_ ?_) hb) <;>
    · simp only [Compiler.count_addedUnless, Compiler.count_opened, Compiler.count_labelled]
      omega
  | doLoop b cnd =>
    simp only [compileStmt, run_guard, hlow, Bool.not_true, Bool.false_eq_true, if_false, run_bind,
      run_newLabel, run_openLabel, run_openIfUsed, Except.ok.injEq, exists_eq_left',
      Compiler.count_labelled] at h
    obtain ⟨-, ⟨_, c₁⟩, hb, h⟩ := h
    have cb := compileStmt_spec b (hr.inner ?_ ?_ ?_) hb
    · cases ht : isTrue cnd with
      | true =>
        simp only [ht, if_true, run_bind, run_emit, run_openLabel, Except.ok.injEq,
          exists_eq_left'] at h
        cases h
        exact compiled_do hlow (by rw [ht]; rfl) cb
      | false =>
        simp only [ht, Bool.false_eq_true, if_false, run_bind, run_emit, run_openLabel,
          Except.ok.injEq, exists_eq_left'] at h
        cases h
        exact compiled_do hlow (by rw [ht]; rfl) cb
    all_goals
      simp only [Compiler.count_opened, Compiler.count_labelled]
      omega
  | forLoop i cnd u b =>
    simp only [compileStmt, run_guard, hlow, Bool.not_true, Bool.false_eq_true, if_false, run_bind,
      run_newLabel, run_openLabel, Except.ok.injEq, exists_eq_left', Compiler.count_labelled] at h
    obtain ⟨-, ⟨_, c₀⟩, hi, h⟩ := h
    have ci := compileStmts_spec i hr hi
    have hr₀ := hr.mono ci.grows.count
    rw [← Bool.not_not (!cnd.isMissing && !isTrue cnd), run_emitUnless] at h
    simp only [run_bind, run_openIfUsed, run_emit, run_openLabel, Except.ok.injEq,
      exists_eq_left'] at h
    obtain ⟨⟨_, c₁⟩, hb, ⟨_, c₂⟩, hu, h⟩ := h
    cases h
    have cb := compileStmt_spec b (hr₀.inner ?_ ?_ ?_) hb
    · have count := cb.grows.count
      simp only [Compiler.count_addedUnless, Compiler.count_opened, Compiler.count_labelled]
        at count
      have cu := compileStmts_spec u (hr₀.mono ?_) hu
      · have rounds := compiled_rounds (fun _ hv => (Valid.forLoop hlow hv).2) cb cu
        refine ci.seq rounds (fun _ hv => (Valid.forLoop hlow hv).1) (fun _ => id)
          fun P env p q r hi hl => ?_
        obtain ⟨b₀, hl⟩ := hl
        exact .forLoop hi hl
      · change c₀.labels.length ≤ (c₁.openedIfUsed _).labels.length
        rw [Compiler.count_openedIfUsed]
        omega
    all_goals
      simp only [Compiler.count_addedUnless, Compiler.count_opened, Compiler.count_labelled]
      omega
  | foreach v e b =>
    simp only [compileStmt, run_guard, hlow, Bool.not_true, Bool.false_eq_true, if_false] at h
    obtain ⟨-, h⟩ := h
    split at h
    · rename_i t n mods annos i
      simp only [run_bind, run_newLabel, run_openLabel, run_emit, Except.ok.injEq,
        exists_eq_left', Compiler.count_labelled] at h
      obtain ⟨⟨_, c₀⟩, hh, ⟨_, c₁⟩, hm, ⟨_, c₂⟩, hb, h⟩ := h
      cases hm
      cases h
      obtain ⟨hcomplete, hcurrent, hlabels⟩ := run_hoist hh
      let c₁ : Compiler := { c₀ with cursors := c₀.cursors ++ [cursorField (cursorName n)] }
      have hsize : c₁.size = c.size := by
        simp only [c₁, Compiler.size, Compiler.ops, hcomplete, hcurrent]
      have hended : c₁.ended = c.ended := by simp only [c₁, Compiler.ended, hcurrent]
      have hcount : c₁.labels.length = c₀.labels.length := rfl
      have hgrows : Grows c.labels.length c c₁ := .same hcomplete hcurrent hlabels
      have first : Compiled c₁ (c₁.added (.stmt (.assign (cursorOf n) (.invoke e "iterator" []))))
          loop (Valid hidden (.foreach (.localDecl t n mods annos i) e b)) fun P env p q =>
            q = p + 1 ∧ P.Op p (.stmt (.assign (cursorOf n) (.invoke e "iterator" []))) ∧
              Fresh hidden e ∧ n ∉ env.vars :=
        .one rfl fun P env ho _ hv =>
          ⟨rfl, ho, (Valid.foreach hlow hv).1, (Valid.foreach hlow hv).2.1⟩
      have cb := compileStmt_spec b
        ((hr.mono (Nat.le_trans hgrows.count first.grows.count)).inner ?_ ?_ ?_) hb
      · refine (first.seq (compiled_each (fun _ hv => (Valid.foreach hlow hv).2.2) cb)
          (fun _ => id) (fun _ => id) fun P env p q r h₁ h₂ => ?_).after hgrows hsize hended
        obtain ⟨rfl, ho, he, hv⟩ := h₁
        obtain ⟨b₀, h₂⟩ := h₂
        exact .foreach he hv ho h₂
      all_goals
        simp only [Compiler.count_added, Compiler.count_opened, Compiler.count_labelled]
        omega
    · cases h
  | breaking l =>
    simp only [compileStmt, run_guard, hlow, Bool.not_true, Bool.false_eq_true, if_false] at h
    obtain ⟨-, hl, h⟩ := h
    split at h
    · cases h
    · rename_i lp
      rw [run_emit] at h
      cases h
      refine compiled_jump rfl fun P env hs => ?_
      obtain ⟨e, n, henv, he, -⟩ := hs.loop lp rfl
      exact ⟨e, by simpa [Env.target, henv] using hl, he⟩
  | continuing l =>
    simp only [compileStmt, run_guard, hlow, Bool.not_true, Bool.false_eq_true, if_false] at h
    obtain ⟨-, hl, h⟩ := h
    split at h
    · cases h
    · rename_i lp
      rw [run_emit] at h
      cases h
      refine compiled_jump rfl fun P env hs => ?_
      obtain ⟨e, n, henv, -, hx⟩ := hs.loop lp rfl
      refine ⟨n, by simpa [Env.target, henv] using hl, hx ?_⟩
      exact Compiler.isUsed_added (hr.loop lp rfl).2
  | returning e =>
    simp only [compileStmt, run_guard, hlow, Bool.not_true, Bool.false_eq_true, if_false] at h
    obtain ⟨-, h⟩ := h
    split at h
    · rw [run_emit] at h
      cases h
      exact compiled_jump rfl fun P env hs => ⟨_, rfl, hs.finish⟩
    · cases h
  | returnDefault =>
    simp only [compileStmt, run_guard, hlow, Bool.not_true, Bool.false_eq_true, if_false,
      run_emit] at h
    cases h.2
    exact compiled_jump rfl fun P env hs => ⟨_, rfl, hs.finish⟩
  | tryCatch b cs f =>
    simp only [compileStmt, run_guard, hlow, Bool.not_true, Bool.false_eq_true, if_false] at h
    obtain ⟨-, h⟩ := h
    split at h
    · cases h
    · rename_i hy
      refine compiled_keep (by simpa using hy) hr (fun hs => ?_) h
      simpa [overwrites, hlow] using hs
  | synchronizedOn e b =>
    simp only [compileStmt, run_guard, hlow, Bool.not_true, Bool.false_eq_true, if_false] at h
    obtain ⟨-, h⟩ := h
    split at h
    · cases h
    · rename_i hy
      refine compiled_keep (by simpa using hy) hr (fun hs => ?_) h
      simpa [overwrites, hlow] using hs
  | switchOn e cs =>
    simp only [compileStmt, run_guard, hlow, Bool.not_true, Bool.false_eq_true, if_false] at h
    obtain ⟨-, h⟩ := h
    split at h
    · cases h
    · rename_i hy
      refine compiled_keep (by simpa using hy) hr (fun hs => ?_) h
      simpa [overwrites, hlow] using hs
  | labeled l b =>
    simp only [compileStmt, run_guard, hlow, Bool.not_true, Bool.false_eq_true, if_false] at h
    obtain ⟨-, h⟩ := h
    split at h
    · cases h
    · rename_i hy
      refine compiled_keep (by simpa using hy) hr (fun hs => ?_) h
      simpa [overwrites, hlow] using hs
  | _ =>
    simp only [compileStmt, run_guard, hlow, Bool.not_true, Bool.false_eq_true, if_false] at h
    cases h.2

/-- The operations of compiled statements are their own. -/
theorem compileStmts_spec (ss : List Code) {loop : Option Loop} {c : Compiler}
    {r : Unit × Compiler} (hr : InRange c loop) (h : (compileStmts loop ss).run c = .ok r) :
    Compiled c r.2 loop (ValidAll hidden ss) fun P env => LoweredAll P hidden env ss := by
  cases ss with
  | nil =>
    cases h
    exact .nothing (.refl c) rfl rfl fun _ _ _ _ => .nil
  | cons s ss =>
    simp only [compileStmts, run_bind] at h
    obtain ⟨⟨_, c₁⟩, hs, hss⟩ := h
    have h₁ := compileStmt_spec s hr hs
    exact h₁.seq (compileStmts_spec ss (hr.mono h₁.grows.count) hss)
      (fun _ hv => hv.cons.1) (fun _ hv => hv.cons.2) fun _ _ _ _ _ => .cons

end

end

end Weaver.Generator
