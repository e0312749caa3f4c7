import Weaver.Proofs.Generator.WellFormed
/-!
What statements contribute to a compilation.

`Adds` says, by a rule for each kind of statement, which operations, which variables and which
cursors of loops come of statements that compile. Where labels are placed plays no part in it. What
is said of a whole machine is then an induction over these rules, and only `compileStmt_adds` looks
at the steps of a compilation.
-/
set_option autoImplicit false

namespace Weaver.Generator

/-! ## The rules -/

/-- The statement is kept whole where jumps leave it. -/
def isKept : Code → Bool
  | .tryCatch .. | .synchronizedOn .. | .switchOn .. | .labeled .. => true
  | _ => false

/-- The operations that come of statements, the variables among them that become fields, and the
variables of the loops that walk with a cursor. -/
inductive Adds : List Code → List Operation → List String → List String → Prop where
  | none : Adds [] [] [] []
  | sequence {s : Code} {ss : List Code} {ops ops' : List Operation}
      {vars vars' loops loops' : List String} (first : Adds [s] ops vars loops)
      (others : Adds ss ops' vars' loops') :
      Adds (s :: ss) (ops ++ ops') (vars ++ vars') (loops ++ loops')
  | plain {s : Code} (whole : needsLowering s = false)
      (other : ∀ t n ms as i, s ≠ .localDecl t n ms as i) : Adds [s] [.stmt s] [] []
  | declared {t : Code} {n : String} {ms : Syntax.Flags} {as : List Code}
      (whole : needsLowering (.localDecl t n ms as .missing) = false) :
      Adds [.localDecl t n ms as .missing] [] [n] []
  | initialized {t i : Code} {n : String} {ms : Syntax.Flags} {as : List Code}
      (whole : needsLowering (.localDecl t n ms as i) = false) (value : i.isMissing = false) :
      Adds [.localDecl t n ms as i] [.stmt (.assign (.named n) (initialValue t i))] [n] []
  | yield {r v : Code} {m : String} {ts : List Code} (l : Label)
      (yields : isYield (.call r m ts [v]) = true) : Adds [.call r m ts [v]] [.yield v l] [] []
  | block {ss : List Code} {ops : List Operation} {vars loops : List String}
      (cut : needsLowering (.block ss) = true) (inside : Adds ss ops vars loops) :
      Adds [.block ss] ops vars loops
  | ifThen {c y : Code} {ops : List Operation} {vars loops : List String} (l : Label)
      (cut : needsLowering (.ifThen c y .missing) = true) (yes : Adds [y] ops vars loops) :
      Adds [.ifThen c y .missing] ([Operation.branch (negated c) l] ++ ops) vars loops
  | ifElse {c y n : Code} {ops ops' : List Operation} {vars vars' loops loops' : List String}
      (l join : Label) (ended : Bool) (cut : needsLowering (.ifThen c y n) = true)
      (yes : Adds [y] ops vars loops) (no : Adds [n] ops' vars' loops') :
      Adds [.ifThen c y n]
        ([Operation.branch (negated c) l] ++ ops ++ (if ended then [] else [Operation.jump join]) ++
          ops')
        (vars ++ vars') (loops ++ loops')
  | whileLoop {c b : Code} {ops : List Operation} {vars loops : List String} (head exit : Label)
      (cut : needsLowering (.whileLoop c b) = true) (body : Adds [b] ops vars loops) :
      Adds [.whileLoop c b]
        ((if isTrue c then [] else [Operation.branch (negated c) exit]) ++ ops ++
          [Operation.jump head]) vars loops
  | doLoop {c b : Code} {ops : List Operation} {vars loops : List String} (head : Label)
      (cut : needsLowering (.doLoop b c) = true) (body : Adds [b] ops vars loops) :
      Adds [.doLoop b c] (ops ++ [if isTrue c then Operation.jump head else .branch c head]) vars loops
  | forLoop {i u : List Code} {c b : Code} {ops ops' ops'' : List Operation}
      {vars vars' vars'' loops loops' loops'' : List String} (head exit : Label)
      (cut : needsLowering (.forLoop i c u b) = true) (inits : Adds i ops vars loops)
      (body : Adds [b] ops' vars' loops') (updates : Adds u ops'' vars'' loops'') :
      Adds [.forLoop i c u b]
        (ops ++ (if !(!c.isMissing && !isTrue c) then [] else [Operation.branch (negated c) exit]) ++
          ops' ++ ops'' ++ [Operation.jump head])
        (vars ++ vars' ++ vars'') (loops ++ loops' ++ loops'')
  | foreach {t e b i : Code} {n : String} {ms : Syntax.Flags} {as : List Code}
      {ops : List Operation} {vars loops : List String} (head exit : Label)
      (cut : needsLowering (.foreach (.localDecl t n ms as i) e b) = true)
      (body : Adds [b] ops vars loops) :
      Adds [.foreach (.localDecl t n ms as i) e b]
        ([Operation.stmt (.assign (.named (cursorName n)) (.invoke e "iterator" []))] ++
          [Operation.branch (negated (.invoke (.named (cursorName n)) "hasNext" [])) exit] ++
          [Operation.stmt (.assign (.named n)
            (.cast t (.invoke (.named (cursorName n)) "next" [])))] ++
          ops ++ [Operation.jump head])
        ([n] ++ vars) ([n] ++ loops)
  | jump {s : Code} {j : Jump} (l : Label) (jumps : jumpOf s = some j) : Adds [s] [.jump l] [] []
  | kept {s : Code} {construct : String} {loop : Option Loop} (kind : isKept s = true)
      (silent : containsYield s = false) : Adds [s] [.kept construct s loop] [] []

/-! ## How a compilation grows -/

namespace Compiler

/-- The variables that became fields. -/
def hoisted (c : Compiler) : List String := c.locals.map Prod.fst

/-- Every variable has one field, with its type. -/
structure Declared (c : Compiler) : Prop where
  once : c.hoisted.Nodup
  fields : c.fields = c.locals.map fun v => .fieldOf v.2 v.1 .privateFlag .missing

/-- The second compilation has these operations, variables and cursors besides those of the
first. -/
structure Gains (c c' : Compiler) (ops : List Operation) (vars loops : List String) : Prop where
  ops : c'.ops = c.ops ++ ops
  hoisted : ∀ n, n ∈ c'.hoisted ↔ n ∈ c.hoisted ∨ n ∈ vars
  declared : c.Declared → c'.Declared
  cursors : c'.cursors = c.cursors ++ loops.map fun n => cursorField (cursorName n)

/-- Two compilations have the same variables, with their fields, and the same cursors. -/
def SameFields (c c' : Compiler) : Prop :=
  c'.locals = c.locals ∧ c'.fields = c.fields ∧ c'.cursors = c.cursors

namespace Gains

variable {c c' c'' : Compiler} {ops ops' : List Operation} {vars vars' loops loops' : List String}

theorem of_same (h : SameFields c c') (operations : c'.ops = c.ops ++ ops) :
    Gains c c' ops [] [] := by
  obtain ⟨locals, fields, cursors⟩ := h
  refine ⟨operations, fun n => ?_, fun declared => ⟨?_, ?_⟩, ?_⟩
  · simp [Compiler.hoisted, locals]
  · rw [Compiler.hoisted, locals]
    exact declared.once
  · rw [fields, locals, declared.fields]
  · rw [cursors, List.map_nil, List.append_nil]

theorem refl (c : Compiler) : Gains c c [] [] [] :=
  of_same ⟨rfl, rfl, rfl⟩ (List.append_nil _).symm

theorem trans (h : Gains c c' ops vars loops) (h' : Gains c' c'' ops' vars' loops') :
    Gains c c'' (ops ++ ops') (vars ++ vars') (loops ++ loops') := by
  refine ⟨?_, fun n => ?_, fun declared => h'.declared (h.declared declared), ?_⟩
  · rw [h'.ops, h.ops, List.append_assoc]
  · rw [h'.hoisted, h.hoisted, List.mem_append, or_assoc]
  · rw [h'.cursors, h.cursors, List.map_append, List.append_assoc]

/-- Something is added that declares nothing. -/
theorem same (h : Gains c c' ops vars loops) (h' : SameFields c' c'')
    (operations : c''.ops = c'.ops ++ ops') : Gains c c'' (ops ++ ops') vars loops := by
  have whole := h.trans (of_same h' operations)
  rwa [List.append_nil, List.append_nil] at whole

theorem labelled (h : Gains c c' ops vars loops) : Gains c c'.labelled ops vars loops :=
  List.append_nil ops ▸ h.same ⟨rfl, rfl, rfl⟩ (List.append_nil _).symm

theorem sameFields_cutFilled (c : Compiler) : SameFields c c.cutFilled := by
  unfold cutFilled
  split <;> exact ⟨rfl, rfl, rfl⟩

theorem sameFields_added (c : Compiler) (o : Operation) : SameFields c (c.added o) := by
  have cut : SameFields c c.cutEnded := by
    unfold cutEnded
    split <;> exact ⟨rfl, rfl, rfl⟩
  cases o <;> exact cut

theorem opened (h : Gains c c' ops vars loops) (l : Label) :
    Gains c (c'.opened l) ops vars loops :=
  List.append_nil ops ▸ h.same (sameFields_cutFilled c')
    (by rw [ops_opened, List.append_nil])

theorem openedIfUsed (h : Gains c c' ops vars loops) (l : Label) :
    Gains c (c'.openedIfUsed l) ops vars loops := by
  unfold Compiler.openedIfUsed
  split
  · exact h.opened l
  · exact h

theorem added (h : Gains c c' ops vars loops) (o : Operation) :
    Gains c (c'.added o) (ops ++ [o]) vars loops :=
  h.same (sameFields_added c' o) ops_added

theorem addedUnless (h : Gains c c' ops vars loops) (b : Bool) (o : Operation) :
    Gains c (c'.addedUnless b o) (ops ++ if b then [] else [o]) vars loops := by
  cases b with
  | true => exact (List.append_nil ops).symm ▸ h
  | false => exact h.added o

theorem aimed (h : Gains c c' ops vars loops) (ls : List Label) :
    Gains c (ls.foldl Compiler.aimed c') ops vars loops := by
  induction ls generalizing c' with
  | nil => exact h
  | cons l ls ih =>
    have once : Gains c (c'.aimed l) ops vars loops :=
      List.append_nil ops ▸ h.same ⟨rfl, rfl, rfl⟩ (List.append_nil _).symm
    exact ih once

/-- A cursor is added. -/
theorem cursor (h : Gains c c' ops vars loops) (n : String) :
    Gains c { c' with cursors := c'.cursors ++ [cursorField (cursorName n)] } ops vars
      (loops ++ [n]) := by
  refine ⟨h.ops, h.hoisted, fun declared => ?_, ?_⟩
  · exact ⟨(h.declared declared).once, (h.declared declared).fields⟩
  change c'.cursors ++ [_] = _
  rw [h.cursors, List.map_append, List.append_assoc]
  rfl

end Gains

end Compiler

/-- A variable becomes a field, unless it is one. -/
theorem gains_hoist {c c' : Compiler} {t : Code} {n : String} {u : Unit}
    (h : (hoist t n).run c = .ok (u, c')) : c.Gains c' [] [n] [] := by
  cases found : c.locals.lookup n with
  | none =>
    rw [run_hoist_new found] at h
    cases h
    have fresh : n ∉ c.hoisted := by
      intro member
      obtain ⟨v, there, rfl⟩ := List.mem_map.mp member
      exact absurd (List.lookup_eq_none_iff.mp found v there) (by simp)
    refine ⟨(List.append_nil _).symm, fun m => by simp [Compiler.hoisted], fun declared =>
      ⟨?_, ?_⟩, (List.append_nil _).symm⟩
    · change ((c.locals ++ [(n, t)]).map Prod.fst).Nodup
      rw [List.map_append, List.nodup_append]
      refine ⟨declared.once, List.pairwise_singleton _ n, fun m member m' here same => ?_⟩
      obtain rfl := List.mem_singleton.mp here
      exact fresh (same ▸ member)
    · change c.fields ++ [_] = (c.locals ++ [(n, t)]).map _
      rw [declared.fields, List.map_append]
      rfl
  | some v =>
    have known : n ∈ c.hoisted := by
      obtain ⟨before, after, same, -⟩ := List.lookup_eq_some_iff.mp found
      rw [Compiler.hoisted, same]
      simp
    cases run_hoist_known found h
    refine ⟨(List.append_nil _).symm, fun m => ?_, id, (List.append_nil _).symm⟩
    rw [List.mem_singleton]
    exact ⟨.inl, fun either => either.elim id fun same => same ▸ known⟩

/-! ## What is compiled -/

/-- The second compilation is the first one with what the statements add. -/
def Contributes (ss : List Code) (c c' : Compiler) : Prop :=
  ∃ ops vars loops, Adds ss ops vars loops ∧ c.Gains c' ops vars loops

section

variable {loop : Option Loop} {c : Compiler} {s : Code} {r : Unit × Compiler}

theorem contributes_local {t i : Code} {n : String} {ms : Syntax.Flags} {as : List Code}
    (whole : needsLowering (.localDecl t n ms as i) = false)
    (h : (localVariable t n i).run c = .ok r) : Contributes [.localDecl t n ms as i] c r.2 := by
  simp only [localVariable, run_bind] at h
  obtain ⟨⟨_, c₁⟩, hh, h⟩ := h
  cases gone : i.isMissing with
  | true =>
    obtain rfl : i = .missing := by
      cases i <;> first
        | rfl
        | cases gone
    cases h
    exact ⟨_, _, _, .declared whole, gains_hoist hh⟩
  | false =>
    simp only [gone, Bool.not_false, if_true, run_bind, run_lift, run_emit] at h
    obtain ⟨_, ⟨i', typed, rfl⟩, heq⟩ := h
    cases heq
    obtain rfl := typedInit_ok typed
    exact ⟨_, _, _, .initialized whole gone,
      (gains_hoist hh).added (.stmt (.assign (.named n) (initialValue t i)))⟩

theorem contributes_plain (whole : needsLowering s = false)
    (h : (compileStmt loop s).run c = .ok r) : Contributes [s] c r.2 := by
  rw [compileStmt.eq_def] at h
  obtain ⟨-, h⟩ := run_guard.mp h
  simp only [whole, Bool.not_false, if_true] at h
  split at h
  · exact contributes_local whole h
  · next other =>
    rw [run_emit] at h
    cases h
    exact ⟨_, _, _, .plain whole other, (Compiler.Gains.refl c).added (.stmt s)⟩

theorem contributes_keep {construct : String} (kind : isKept s = true)
    (silent : containsYield s = false) (h : (keep construct s loop).run c = .ok r) :
    Contributes [s] c r.2 := by
  simp only [keep, run_bind, run_lift, run_emit, run_useLabels] at h
  obtain ⟨_, ⟨⟨s', ways⟩, -, rfl⟩, _, heq, h⟩ := h
  cases heq
  cases h
  exact ⟨_, _, _, .kept kind silent,
    ((Compiler.Gains.refl c).aimed _).added (.kept construct s loop)⟩

theorem contributes_jump {j : Jump} (jumps : jumpOf s = some j) (l : Label) :
    Contributes [s] c (c.added (.jump l)) :=
  ⟨_, _, _, .jump l jumps, (Compiler.Gains.refl c).added (.jump l)⟩

end

open Compiler in
mutual

/-- What a statement adds to a compilation. -/
theorem compileStmt_adds (s : Code) {loop : Option Loop} {c : Compiler} {r : Unit × Compiler}
    (h : (compileStmt loop s).run c = .ok r) : Contributes [s] c r.2 := by
  cases cut : needsLowering s with
  | false => exact contributes_plain cut h
  | true =>
  cases s with
  | call rc m ts as =>
    simp only [compileStmt, run_guard, cut, Bool.not_true, Bool.false_eq_true, if_false] at h
    obtain ⟨-, is_, h⟩ := h
    split at h
    · simp only [run_bind, run_newLabel, run_emit, run_openLabel, Except.ok.injEq,
        exists_eq_left'] at h
      cases h
      exact ⟨_, _, _, .yield _ (by simpa using is_), ((Gains.refl c).labelled.added _).opened _⟩
    · cases h
  | block ss =>
    simp only [compileStmt, run_guard, cut, Bool.not_true, Bool.false_eq_true, if_false] at h
    obtain ⟨_, _, _, adds, gains⟩ := compileStmts_adds ss h.2
    exact ⟨_, _, _, .block cut adds, gains⟩
  | ifThen cnd y n =>
    simp only [compileStmt, run_guard, cut, Bool.not_true, Bool.false_eq_true, if_false, run_bind,
      run_newLabel, run_emit, Except.ok.injEq, exists_eq_left'] at h
    obtain ⟨-, ⟨_, c₁⟩, hy, h⟩ := h
    obtain ⟨_, _, _, yes, gains⟩ := compileStmt_adds y hy
    have upto := ((Gains.refl c).labelled.added (.branch (negated cnd) c.labels.length)).trans gains
    split at h
    · rw [run_openLabel] at h
      cases h
      exact ⟨_, _, _, .ifThen _ cut yes, upto.opened _⟩
    · simp only [run_bind, run_isEnded, run_newLabel, Except.ok.injEq, exists_eq_left'] at h
      -- only a first branch whose end can be reached has to jump over the second one
      cases ended : c₁.ended with
      | true =>
        simp only [ended, Bool.not_true, Bool.false_eq_true, if_false, run_bind, run_openLabel,
          Except.ok.injEq, exists_eq_left'] at h
        obtain ⟨⟨_, c₂⟩, hn, h⟩ := h
        cases h
        obtain ⟨_, _, _, no, gains'⟩ := compileStmt_adds n hn
        exact ⟨_, _, _, .ifElse _ 0 true cut yes no,
          ((upto.labelled.addedUnless true (.jump 0)).opened _).trans gains'⟩
      | false =>
        simp only [ended, Bool.not_false, if_true, run_bind, run_emit, run_openLabel,
          Except.ok.injEq, exists_eq_left'] at h
        obtain ⟨⟨_, c₂⟩, hn, h⟩ := h
        cases h
        obtain ⟨_, _, _, no, gains'⟩ := compileStmt_adds n hn
        exact ⟨_, _, _, .ifElse _ _ false cut yes no,
          (((upto.labelled.added _).opened _).trans gains').opened _⟩
  | whileLoop cnd b =>
    simp only [compileStmt, run_guard, cut, Bool.not_true, Bool.false_eq_true, if_false, run_bind,
      run_newLabel, run_openLabel, Except.ok.injEq, exists_eq_left'] at h
    obtain ⟨-, h⟩ := h
    rw [run_emitUnless] at h
    simp only [run_bind, run_emit, run_openLabel, Except.ok.injEq, exists_eq_left'] at h
    obtain ⟨⟨_, c₁⟩, hb, h⟩ := h
    cases h
    obtain ⟨_, _, _, body, gains⟩ := compileStmt_adds b hb
    have test := ((Gains.refl c).labelled.labelled.opened c.labels.length).addedUnless (isTrue cnd)
      (.branch (negated cnd) c.labelled.labels.length)
    exact ⟨_, _, _, .whileLoop _ _ cut body, ((test.trans gains).added _).opened _⟩
  | doLoop b cnd =>
    simp only [compileStmt, run_guard, cut, Bool.not_true, Bool.false_eq_true, if_false, run_bind,
      run_newLabel, run_openLabel, run_openIfUsed, Except.ok.injEq, exists_eq_left'] at h
    obtain ⟨-, ⟨_, c₁⟩, hb, h⟩ := h
    obtain ⟨_, _, _, body, gains⟩ := compileStmt_adds b hb
    have upto := (((Gains.refl c).labelled.labelled.labelled.opened _).trans gains).openedIfUsed
      c.labelled.labels.length
    refine ⟨_, _, _, .doLoop c.labels.length cut body, ?_⟩
    cases always : isTrue cnd with
    | true =>
      simp only [always, if_true, run_bind, run_emit, run_openLabel, Except.ok.injEq,
        exists_eq_left'] at h
      cases h
      exact (upto.added _).opened _
    | false =>
      simp only [always, Bool.false_eq_true, if_false, run_bind, run_emit, run_openLabel,
        Except.ok.injEq, exists_eq_left'] at h
      cases h
      exact (upto.added _).opened _
  | forLoop i cnd u b =>
    simp only [compileStmt, run_guard, cut, Bool.not_true, Bool.false_eq_true, if_false, run_bind,
      run_newLabel, run_openLabel, Except.ok.injEq, exists_eq_left'] at h
    obtain ⟨-, ⟨_, c₀⟩, hi, h⟩ := h
    -- as in the other loops, it is said where the test is left out
    rw [← Bool.not_not (!cnd.isMissing && !isTrue cnd), run_emitUnless] at h
    simp only [run_bind, run_openIfUsed, run_emit, run_openLabel, Except.ok.injEq,
      exists_eq_left'] at h
    obtain ⟨⟨_, c₁⟩, hb, ⟨_, c₂⟩, hu, h⟩ := h
    cases h
    obtain ⟨_, _, _, inits, gains⟩ := compileStmts_adds i hi
    obtain ⟨_, _, _, body, gains'⟩ := compileStmt_adds b hb
    obtain ⟨_, _, _, updates, gains''⟩ := compileStmts_adds u hu
    exact ⟨_, _, _, .forLoop _ _ cut inits body updates,
      (((((((gains.labelled.labelled.labelled.opened _).addedUnless _ _).trans gains').openedIfUsed
        _).trans gains'').added _).opened _)⟩
  | foreach v e b =>
    simp only [compileStmt, run_guard, cut, Bool.not_true, Bool.false_eq_true, if_false] at h
    obtain ⟨-, h⟩ := h
    split at h
    · next t n _ _ _ =>
      simp only [run_bind, run_newLabel, run_openLabel, run_emit, Except.ok.injEq,
        exists_eq_left'] at h
      obtain ⟨⟨_, c₀⟩, hh, ⟨_, c₁⟩, hm, ⟨_, c₂⟩, hb, h⟩ := h
      cases hm
      cases h
      obtain ⟨_, _, _, body, gains⟩ := compileStmt_adds b hb
      have start := (((gains_hoist hh).cursor n).added
        (.stmt (.assign (.named (cursorName n)) (.invoke e "iterator" [])))).labelled.labelled
      exact ⟨_, _, _, .foreach _ _ cut body,
        (((((start.opened _).added _).added _).trans gains).added _).opened _⟩
    · cases h
  | breaking l =>
    simp only [compileStmt, run_guard, cut, Bool.not_true, Bool.false_eq_true, if_false] at h
    obtain ⟨-, -, h⟩ := h
    split at h
    · cases h
    · rw [run_emit] at h
      cases h
      exact contributes_jump rfl _
  | continuing l =>
    simp only [compileStmt, run_guard, cut, Bool.not_true, Bool.false_eq_true, if_false] at h
    obtain ⟨-, -, h⟩ := h
    split at h
    · cases h
    · rw [run_emit] at h
      cases h
      exact contributes_jump rfl _
  | returning e =>
    simp only [compileStmt, run_guard, cut, Bool.not_true, Bool.false_eq_true, if_false] at h
    obtain ⟨-, h⟩ := h
    split at h
    · rw [run_emit] at h
      cases h
      exact contributes_jump rfl _
    · cases h
  | returnDefault =>
    simp only [compileStmt, run_guard, cut, Bool.not_true, Bool.false_eq_true, if_false,
      run_emit] at h
    cases h.2
    exact contributes_jump rfl _
  | tryCatch b cs f | synchronizedOn e b | switchOn e cs | labeled l b =>
    simp only [compileStmt, run_guard, cut, Bool.not_true, Bool.false_eq_true, if_false] at h
    obtain ⟨-, h⟩ := h
    split at h
    · cases h
    · exact contributes_keep rfl (Bool.eq_false_iff.mpr ‹_›) h
  | _ =>
    simp only [compileStmt, run_guard, cut, Bool.not_true, Bool.false_eq_true, if_false] at h
    cases h.2

/-- What statements add to a compilation. -/
theorem compileStmts_adds (ss : List Code) {loop : Option Loop} {c : Compiler}
    {r : Unit × Compiler} (h : (compileStmts loop ss).run c = .ok r) : Contributes ss c r.2 := by
  cases ss with
  | nil =>
    cases h
    exact ⟨_, _, _, .none, .refl c⟩
  | cons s ss =>
    simp only [compileStmts, run_bind] at h
    obtain ⟨⟨_, c₁⟩, hs, hss⟩ := h
    obtain ⟨_, _, _, first, gains⟩ := compileStmt_adds s hs
    obtain ⟨_, _, _, others, gains'⟩ := compileStmts_adds ss hss
    exact ⟨_, _, _, .sequence first others, gains.trans gains'⟩

end

/-- A body that compiles adds all there is in its machine. -/
theorem compile_adds {body : List Code} {m : Machine} (h : compile body = .ok m) :
    ∃ c ops vars loops, Adds body ops vars loops ∧ Compiler.start.Gains c ops vars loops ∧
      m = c.machine ∧ m.WellFormed c := by
  obtain ⟨c, run, wellFormed⟩ := compile_wellFormed h
  obtain ⟨⟨_, c₀⟩, first, opened⟩ := run_bind.mp run
  obtain ⟨ops, vars, loops, adds, gains⟩ := compileStmts_adds body first
  rw [run_openLabel] at opened
  cases opened
  refine ⟨_, ops, vars, loops, adds, gains.opened _, ?_, wellFormed⟩
  unfold compile at h
  rw [run] at h
  exact (Except.ok.inj h).symm

/-- What is found of a machine by compiling its body. -/
theorem exists_machine {body : List Code} {α : Type} {f : Machine → α} {a : α}
    (found : (compile body).toOption.map f = some a) : ∃ m, compile body = .ok m ∧ f m = a := by
  cases h : compile body with
  | error e =>
    rw [h] at found
    cases found
  | ok m =>
    rw [h] at found
    exact ⟨m, rfl, Option.some.inj found⟩

end Weaver.Generator
