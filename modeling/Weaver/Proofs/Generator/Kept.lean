import Weaver.Proofs.Generator.Redirect
/-!
Executing a kept statement.

A kept statement and its redirected form are executed in lockstep, one step of the first for at
least one step of the second, until both are done or until both leave. `Keeps` relates the frames
that they build up. A frame that holds a leaving jump back knows the state that the jump was sent
to; it is still there when the `finally` block of the frame is done, because nothing in that block
that sets it can be revoked.
-/
set_option autoImplicit false

namespace Weaver.Generator

namespace Meaning

variable {S V : Type} (M : Meaning S V) {hidden : List String}

/-! ## What does not depend on the hidden fields -/

theorem fresh_named {x : String} (h : Fresh hidden (.named x)) : x ∉ hidden :=
  Everywhere.named.mp h x (List.mem_singleton_self x)

theorem fieldValue_fresh {e : Code} (hf : Fresh hidden e) (m : Memory S V) :
    M.fieldValue hidden e m = lift m (M.value e m.user) := by
  unfold fieldValue
  split
  · rw [if_neg (fresh_named hf)]
  · rw [if_neg (fresh_named (Everywhere.call.mp hf).2.1)]
  · rfl

attribute [local simp] eval perform start

theorem eval_withFields (e : Code) (hf : Fresh hidden e) (m : Memory S V) :
    (M.withFields hidden).eval e m = lift m (M.eval e m.user) := by
  cases e with
  | bool b => rfl
  | number n => 
    cases n with
    | literal l => cases l <;> rfl
    | other t => rfl
  | unary op e =>
    simp only [eval]
    split
    · rw [eval_withFields e (Everywhere.unary.mp hf).2]
      rfl
    · rfl
  | cast t e =>
    simp only [eval]
    rw [eval_withFields e (Everywhere.cast.mp hf).2.2]
    rfl
  | _ => exact M.fieldValue_fresh hf m

theorem fresh_initialValue {t i : Code} (ht : Fresh hidden t) (hi : Fresh hidden i) :
    Fresh hidden (initialValue t i) := by
  unfold initialValue
  split
  · obtain ⟨-, -, hds, his⟩ := Everywhere.newArray.mp hi
    obtain ⟨-, has⟩ := Everywhere.typeRef.mp ht
    have none {c : Code} (h : mentioned c = []) : ∀ x ∈ mentioned c, x ∉ hidden := by
      rw [h]
      exact fun x hx => absurd hx List.not_mem_nil
    exact Everywhere.newArray.mpr ⟨none rfl, Everywhere.typeRef.mpr ⟨none rfl, has⟩, hds, his⟩
  · exact hi

/-- A statement without control flow does not touch the hidden fields. -/
theorem perform_withFields {s : Code} (hf : Fresh hidden s) (m : Memory S V) :
    (M.withFields hidden).perform s m = { m with user := M.perform s m.user } := by
  cases s with
  | assign l r =>
    obtain ⟨-, hl, hr⟩ := Everywhere.assign.mp hf
    cases l with
    | named x =>
      simp only [perform, M.eval_withFields r hr, lift]
      exact if_neg (fresh_named hl)
    | _ => rfl
  | localDecl t n mods annos i =>
    obtain ⟨htop, -, ht, hi⟩ := Everywhere.localDecl.mp hf
    have hn : n ∉ hidden := htop n (List.mem_singleton_self n)
    simp only [perform]
    split
    · rfl
    · simp only [M.eval_withFields _ (fresh_initialValue ht hi), lift]
      exact if_neg hn
  | _ => rfl

/-- A statement without control flow that yields nothing is done in one step. -/
theorem start_plain {s : Code} (hs : isControl s = false) (hy : isYield s = false)
    (K : List (Frame V)) (σ : S) : M.start s K σ = .silent ⟨.done, K, M.perform s σ⟩ := by
  have hn : yielded s = none := by
    unfold yielded
    split
    · rw [if_neg (by simpa using hy)]
    · rfl
  cases s <;> first
    | (simp only [start, hn]; done)
    | cases hs

end Meaning

/-! ## Loops and cases -/

section

variable {V : Type} {hidden : List String}

/-- A loop and the one with the leaving jumps replaced. -/
inductive RedirectedCycle (hidden : List String) (C : Reach) : Cycle V → Cycle V → Prop where
  | test {c b b' : Code} (hc : Fresh hidden c) (hb : Redirected hidden C.inLoop b b') :
      RedirectedCycle hidden C (.test c b) (.test c b')
  | counted {c b b' : Code} {u : List Code} (hc : Fresh hidden c)
      (hu : RedirectedAll hidden C u u) (hb : Redirected hidden C.inLoop b b') :
      RedirectedCycle hidden C (.counted c u b) (.counted c u b')
  | each {t b b' : Code} {n : String} {it : V} (hn : n ∉ hidden)
      (hb : Redirected hidden C.inLoop b b') :
      RedirectedCycle hidden C (.each t n it b) (.each t n it b')

theorem RedirectedAll.append {C : Reach} {as as' bs bs' : List Code}
    (ha : RedirectedAll hidden C as as') (hb : RedirectedAll hidden C bs bs') :
    RedirectedAll hidden C (as ++ bs) (as' ++ bs') := by
  induction as generalizing as' with
  | nil => cases ha; exact hb
  | cons a as ih => cases ha with | cons h hs => exact .cons h (ih hs)

/-- Only a case is redirected to a case. -/
theorem Redirected.case_or {C : Reach} {s s' : Code} (h : Redirected hidden C s s') :
    (∃ p ss ss', s = .switchCase p ss ∧ s' = .switchCase p ss' ∧ RedirectedAll hidden C ss ss') ∨
      (∀ p ss, s ≠ .switchCase p ss) ∧ ∀ p ss, s' ≠ .switchCase p ss := by
  cases h with
  | switchCase h => exact .inl ⟨_, _, _, rfl, rfl, h⟩
  | leaves hj _ =>
    refine .inr ⟨?_, by simp⟩
    rintro p ss rfl
    cases hj
  | stays hj _ =>
    refine .inr ⟨?_, ?_⟩ <;>
    · rintro p ss rfl
      cases hj
  | plain hs _ _ =>
    refine .inr ⟨?_, ?_⟩ <;>
    · rintro p ss rfl
      cases hs
  | _ => exact .inr ⟨by simp, by simp⟩

theorem caseStmts_other {s : Code} (h : ∀ p ss, s ≠ .switchCase p ss) (cs : List Code) :
    caseStmts (s :: cs) = caseStmts cs := by
  rw [caseStmts]
  exact h

theorem RedirectedAll.caseStmts {C : Reach} {cs cs' : List Code}
    (h : RedirectedAll hidden C cs cs') :
    RedirectedAll hidden C (caseStmts cs) (caseStmts cs') := by
  induction cs generalizing cs' with
  | nil => cases h; exact .nil
  | cons c cs ih =>
    cases h with
    | cons hc hcs =>
      obtain ⟨p, ss, ss', rfl, rfl, hss⟩ | ⟨ho, ho'⟩ := hc.case_or
      · exact hss.append (ih hcs)
      · rw [caseStmts_other ho, caseStmts_other ho']
        exact ih hcs

end

namespace Meaning

variable {S V : Type} (M : Meaning S V) {hidden : List String}

theorem findCase_other {s : Code} (h : ∀ p ss, s ≠ .switchCase p ss) (v : V) (cs : List Code) :
    selected.findCase M v (s :: cs) = selected.findCase M v cs := by
  rw [selected.findCase]
  exact h

theorem findDefault_other {s : Code} (h : ∀ ss, s ≠ .switchCase .missing ss) (cs : List Code) :
    selected.findDefault (s :: cs) = selected.findDefault cs := by
  rw [selected.findDefault]
  exact h

theorem findCase_redirected {C : Reach} {cs cs' : List Code} (h : RedirectedAll hidden C cs cs')
    (v : V) :
    RedirectedAll hidden C (selected.findCase M v cs)
      (selected.findCase (M.withFields hidden) v cs') := by
  induction cs generalizing cs' with
  | nil => cases h; exact .nil
  | cons c cs ih =>
    cases h with
    | cons hc hcs =>
      obtain ⟨p, ss, ss', rfl, rfl, hss⟩ | ⟨ho, ho'⟩ := hc.case_or
      · simp only [selected.findCase]
        change RedirectedAll hidden C _ (if !p.isMissing && M.selects v p then _ else _)
        split
        · exact .cons (.switchCase hss) hcs
        · exact ih hcs
      · rw [M.findCase_other ho, findCase_other _ ho']
        exact ih hcs

theorem findDefault_redirected {C : Reach} {cs cs' : List Code}
    (h : RedirectedAll hidden C cs cs') :
    RedirectedAll hidden C (selected.findDefault cs) (selected.findDefault cs') := by
  induction cs generalizing cs' with
  | nil => cases h; exact .nil
  | cons c cs ih =>
    cases h with
    | cons hc hcs =>
      obtain ⟨p, ss, ss', rfl, rfl, hss⟩ | ⟨ho, ho'⟩ := hc.case_or
      · by_cases hp : p = .missing
        · subst hp
          exact .cons (.switchCase hss) hcs
        · rw [findDefault_other (by simp [hp]), findDefault_other (by simp [hp])]
          exact ih hcs
      · rw [findDefault_other (fun ss => ho _ ss), findDefault_other (fun ss => ho' _ ss)]
        exact ih hcs

/-- The same cases are selected. -/
theorem selected_redirected {C : Reach} {cs cs' : List Code} (h : RedirectedAll hidden C cs cs')
    (v : V) :
    RedirectedAll hidden C (M.selected v cs) ((M.withFields hidden).selected v cs') := by
  have hc := M.findCase_redirected h v
  unfold selected
  generalize selected.findCase M v cs = found at hc
  generalize selected.findCase (M.withFields hidden) v cs' = found' at hc
  cases hc with
  | nil => exact (findDefault_redirected h).caseStmts
  | cons hc hcs => exact (RedirectedAll.cons hc hcs).caseStmts

end Meaning

/-! ## The frames of a kept statement -/

section

variable {S V : Type}

/-- The frames inside a kept statement and inside its redirected form. The reach is that of the
place inside all of them. The state, where it is known, is the one that a leaving jump that is held
back was sent to; where it is not, such jumps are not continued any more. -/
inductive Keeps (hidden : List String) (ofInt : Int → V) (root : Reach) (K K' : List (Frame V)) :
    Option V → Reach → List (Frame V) → List (Frame V) → Prop where
  | base {st : Option V} : Keeps hidden ofInt root K K' st root K K'
  | rest {st : Option V} {C : Reach} {D D' : List (Frame V)} {ss ss' : List Code}
      (hss : RedirectedAll hidden C ss ss') (hD : Keeps hidden ofInt root K K' st C D D') :
      Keeps hidden ofInt root K K' st C (.rest ss :: D) (.rest ss' :: D')
  | choice {st : Option V} {C : Reach} {D D' : List (Frame V)}
      (hD : Keeps hidden ofInt root K K' st C D D') :
      Keeps hidden ofInt root K K' st C.inSwitch (.choice :: D) (.choice :: D')
  | label {st : Option V} {C : Reach} {D D' : List (Frame V)} {l : String}
      (hD : Keeps hidden ofInt root K K' st C D D') :
      Keeps hidden ofInt root K K' st (C.inLabel l) (.label l :: D) (.label l :: D')
  | body {v : V} {C : Reach} {D D' : List (Frame V)} {c c' : Cycle V}
      (hc : RedirectedCycle hidden C c c') (hD : Keeps hidden ofInt root K K' (some v) C D D') :
      Keeps hidden ofInt root K K' (some v) C.inLoop (.body c :: D) (.body c' :: D')
  | first {st : Option V} {C : Reach} {D D' : List (Frame V)} {c c' : Cycle V}
      (hc : RedirectedCycle hidden C c c') (hD : Keeps hidden ofInt root K K' st C D D') :
      Keeps hidden ofInt root K K' st C (.first c :: D) (.first c' :: D')
  | again {st : Option V} {C : Reach} {D D' : List (Frame V)} {c c' : Cycle V}
      (hc : RedirectedCycle hidden C c c') (hD : Keeps hidden ofInt root K K' st C D D') :
      Keeps hidden ofInt root K K' st C (.again c :: D) (.again c' :: D')
  | closing {st : Option V} {C : Reach} {D D' : List (Frame V)} {f f' : Code}
      (hf : Redirected hidden C.closing f f') (hD : Keeps hidden ofInt root K K' st C D D') :
      Keeps hidden ofInt root K K' st C (.closing f :: D) (.closing f' :: D')
  | closingSealed {v : V} {C : Reach} {D D' : List (Frame V)} {f f' : Code}
      (hf : Redirected hidden C f f') (hD : Keeps hidden ofInt root K K' (some v) C D D') :
      Keeps hidden ofInt root K K' (some v) C.sealed (.closing f :: D) (.closing f' :: D')
  | afterNone {st : Option V} {C C' : Reach} {D D' : List (Frame V)} (hC : C' = C ∨ C' = C.closing)
      (hD : Keeps hidden ofInt root K K' st C D D') :
      Keeps hidden ofInt root K K' st C' (.after none :: D) (.after none :: D')
  | afterStay {st : Option V} {C C' : Reach} {D D' : List (Frame V)} {j : Jump}
      (hC : C' = C ∨ C' = C.closing) (hj : C.stay j)
      (hD : Keeps hidden ofInt root K K' st C D D') :
      Keeps hidden ofInt root K K' st C' (.after (some (.jump j)) :: D)
        (.after (some (.jump j)) :: D')
  | afterSafe {st : Option V} {C : Reach} {D D' : List (Frame V)} {j : Jump} (hj : C.safe j)
      (hD : Keeps hidden ofInt root K K' none C D D') :
      Keeps hidden ofInt root K K' st C.closing (.after (some (.jump j)) :: D)
        (.after (some (.jump j)) :: D')
  | afterLeave {st : Option V} {C : Reach} {D D' : List (Frame V)} {j : Jump} {n : Nat}
      (hj : C.leave j = some n) (hst : ∀ v, st = some v → v = ofInt n)
      (hD : Keeps hidden ofInt root K K' none C D D') :
      Keeps hidden ofInt root K K' st C.closing (.after (some (.jump j)) :: D)
        (.after (some (.jump (.cont ""))) :: D')

namespace Keeps

variable {hidden : List String} {ofInt : Int → V} {root : Reach} {K K' : List (Frame V)}

/-- Where a jump can leave from, the state need not be known: no place is sealed. -/
theorem forget {st : Option V} {C : Reach} {D D' : List (Frame V)}
    (h : Keeps hidden ofInt root K K' st C D D') {j : Jump} {n : Nat} (hj : C.leave j = some n) :
    Keeps hidden ofInt root K K' none C D D' := by
  induction h with
  | base => exact .base
  | rest hss _ ih => exact .rest hss (ih hj)
  | choice _ ih =>
    simp only [Reach.inSwitch, Reach.ending] at hj
    split at hj
    · cases hj
    · exact .choice (ih hj)
  | label _ ih =>
    simp only [Reach.inLabel, Reach.ending] at hj
    split at hj
    · cases hj
    · exact .label (ih hj)
  | body => cases hj
  | first hc _ ih => exact .first hc (ih hj)
  | again hc _ ih => exact .again hc (ih hj)
  | closing hf _ ih => exact .closing hf (ih hj)
  | closingSealed => cases hj
  | afterNone hC _ ih => obtain rfl | rfl := hC <;> exact .afterNone (by simp) (ih hj)
  | afterStay hC hs _ ih => obtain rfl | rfl := hC <;> exact .afterStay (by simp) hs (ih hj)
  | afterSafe hs hD => exact .afterSafe hs hD
  | afterLeave hl _ hD => exact .afterLeave hl (by simp) hD

/-- Outside of all `finally` blocks that a leaving jump may be passing, none is held back, and the
frames agree with every state. -/
theorem remember {st : Option V} {C : Reach} {D D' : List (Frame V)}
    (h : Keeps hidden ofInt root K K' st C D D') (hst : st = none) (hC : C.pending = false) (v : V) :
    Keeps hidden ofInt root K K' (some v) C D D' := by
  induction h with
  | base => exact .base
  | rest hss _ ih => exact .rest hss (ih hst hC)
  | choice _ ih => exact .choice (ih hst hC)
  | label _ ih => exact .label (ih hst hC)
  | body => cases hst
  | first hc _ ih => exact .first hc (ih hst hC)
  | again hc _ ih => exact .again hc (ih hst hC)
  | closing hf _ ih => exact .closing hf (ih hst hC)
  | closingSealed => cases hst
  | afterNone hC' _ ih =>
    obtain rfl | rfl := hC'
    · exact .afterNone (.inl rfl) (ih hst hC)
    · cases hC
  | afterStay hC' hs _ ih =>
    obtain rfl | rfl := hC'
    · exact .afterStay (.inl rfl) hs (ih hst hC)
    · cases hC
  | afterSafe => cases hC
  | afterLeave => cases hC

/-- Both have the same labels on top, if what is below them has. -/
theorem labelsOn_eq {st : Option V} {C : Reach} {D D' : List (Frame V)}
    (h : Keeps hidden ofInt root K K' st C D D') (hK : labelsOn K = labelsOn K') :
    labelsOn D = labelsOn D' := by
  induction h with
  | base => exact hK
  | label _ ih => simp only [labelsOn, ih]
  | _ => rfl

end Keeps

end

/-! ## Lockstep -/

namespace Meaning

variable {S V : Type} (M : Meaning S V) {hidden : List String}

theorem start_jump {s : Code} {j : Jump} (hj : jumpOf s = some j) (K : List (Frame V)) (σ : S) :
    M.start s K σ = .silent ⟨.leave (.jump j), K, σ⟩ := by
  cases s with
  | breaking l | continuing l | returnDefault => cases hj; rfl
  | returning e =>
    cases e with
    | missing => cases hj; rfl
    | _ => cases hj
  | _ => cases hj

end Meaning

namespace Memory

variable {S V : Type}

/-- A hidden field is assigned. -/
def assigned (m : Memory S V) (x : String) (v : V) : Memory S V :=
  { m with own := fun y => if y = x then v else m.own y }

@[simp] theorem assigned_user (m : Memory S V) (x : String) (v : V) :
    (m.assigned x v).user = m.user := rfl

@[simp] theorem assigned_self (m : Memory S V) (x : String) (v : V) :
    (m.assigned x v).own x = v := if_pos rfl

theorem assigned_other (m : Memory S V) {x y : String} (v : V) (h : y ≠ x) :
    (m.assigned x v).own y = m.own y := if_neg h

end Memory

namespace Meaning

variable {S V : Type} (M : Meaning S V) {hidden : List String}

/-- The store after a jump to a state. -/
def sentTo (n : Int) (m : Memory S V) : Memory S V := m.assigned stateField (M.ofInt n)

@[simp] theorem sentTo_user (n : Int) (m : Memory S V) : (M.sentTo n m).user = m.user := rfl

@[simp] theorem sentTo_state (n : Int) (m : Memory S V) :
    (M.sentTo n m).own stateField = M.ofInt n := m.assigned_self _ _

theorem sentTo_own (n : Int) (m : Memory S V) {x : String} (hx : x ≠ stateField) :
    (M.sentTo n m).own x = m.own x := m.assigned_other _ hx

theorem store_hidden {x : String} (hx : x ∈ hidden) (v : V) (m : Memory S V) :
    (M.withFields hidden).store x v m = m.assigned x v := if_pos hx

/-- An assignment to a hidden field. -/
theorem perform_hidden {x : String} {e : Code} (hx : x ∈ hidden) {m m' : Memory S V} {v : V}
    (he : (M.withFields hidden).eval e m = (v, m')) :
    (M.withFields hidden).perform (.assign (.named x) e) m = m'.assigned x v := by
  simp only [perform, he]
  exact M.store_hidden hx v m'

theorem store_user {x : String} (hx : x ∉ hidden) (v : V) (m : Memory S V) :
    (M.withFields hidden).store x v m = { m with user := M.store x v m.user } := if_neg hx

/-- The statements of a jump to a state, when other statements stand behind them. -/
theorem goTo_rest (hidden_state : stateField ∈ hidden) (n : Nat) (ss : List Code)
    (K : List (Frame V)) (m : Memory S V) :
    Silently (M.withFields hidden).step 4 ⟨.done, .rest (goTo n ++ ss) :: K, m⟩
      ⟨.leave (.jump (.cont "")), .rest ss :: K, M.sentTo n m⟩ := by
  have sent : (M.withFields hidden).perform (.assign (.named stateField) (.int n)) m =
      M.sentTo n m := M.perform_hidden hidden_state rfl
  refine .move rfl (.move (b := ⟨.done, .rest (.continuing "" :: ss) :: K, M.sentTo n m⟩) ?_
    (.move (b := ⟨.run (.continuing ""), .rest ss :: K, M.sentTo n m⟩) rfl (.one rfl)))
  rw [← sent]
  rfl

end Meaning

section

variable {S V : Type}

theorem unwind_choice (j : Jump) (K : List (Frame V)) (σ : S) :
    unwind (.jump j) .choice K σ =
      if j.inSwitch then ⟨.done, K, σ⟩ else ⟨.leave (.jump j), K, σ⟩ := by
  cases j <;> rfl

theorem unwind_label (j : Jump) (l : String) (K : List (Frame V)) (σ : S) :
    unwind (.jump j) (.label l) K σ =
      if j.inLabel l then ⟨.done, K, σ⟩ else ⟨.leave (.jump j), K, σ⟩ := by
  cases j <;> rfl

end

section

variable {S V : Type} (M : Meaning S V) (hidden : List String) (root : Reach)
  (K K' : List (Frame V)) (own : String → V)

/-- The hidden fields are the given ones, except for the number of the state. -/
def OwnKept (own : String → V) (m : Memory S V) : Prop :=
  ∀ x, x ≠ stateField → m.own x = own x

theorem OwnKept.sentTo {own : String → V} {m : Memory S V} (h : OwnKept own m) (n : Int) :
    OwnKept own (M.sentTo n m) :=
  fun x hx => (M.sentTo_own n m hx).trans (h x hx)

/-- Configurations inside a kept statement and inside its redirected form that belong together. -/
inductive Inside : Config S V → Config (Memory S V) V → Prop where
  | run {C : Reach} {D D' : List (Frame V)} {s s' : Code} {m : Memory S V}
      (ho : OwnKept own m) (hs : Redirected hidden C s s')
      (hD : Keeps hidden M.ofInt root K K' (some (m.own stateField)) C D D') :
      Inside ⟨.run s, D, m.user⟩ ⟨.run s', D', m⟩
  | head {C : Reach} {D D' : List (Frame V)} {c c' : Cycle V} {m : Memory S V}
      (ho : OwnKept own m) (hc : RedirectedCycle hidden C c c')
      (hD : Keeps hidden M.ofInt root K K' (some (m.own stateField)) C D D') :
      Inside ⟨.head c, D, m.user⟩ ⟨.head c', D', m⟩
  | done {C : Reach} {D D' : List (Frame V)} {m : Memory S V} (ho : OwnKept own m)
      (hD : Keeps hidden M.ofInt root K K' (some (m.own stateField)) C D D') :
      Inside ⟨.done, D, m.user⟩ ⟨.done, D', m⟩
  | stay {C : Reach} {D D' : List (Frame V)} {j : Jump} {m : Memory S V}
      (ho : OwnKept own m) (hj : C.stay j)
      (hD : Keeps hidden M.ofInt root K K' (some (m.own stateField)) C D D') :
      Inside ⟨.leave (.jump j), D, m.user⟩ ⟨.leave (.jump j), D', m⟩
  | safe {C : Reach} {D D' : List (Frame V)} {j : Jump} {m : Memory S V}
      (ho : OwnKept own m) (hj : C.safe j)
      (hD : Keeps hidden M.ofInt root K K' none C D D') :
      Inside ⟨.leave (.jump j), D, m.user⟩ ⟨.leave (.jump j), D', m⟩
  | leave {C : Reach} {D D' : List (Frame V)} {j : Jump} {n : Nat} {m : Memory S V}
      (ho : OwnKept own m) (hj : C.leave j = some n) (hm : m.own stateField = M.ofInt n)
      (hD : Keeps hidden M.ofInt root K K' none C D D') :
      Inside ⟨.leave (.jump j), D, m.user⟩ ⟨.leave (.jump (.cont "")), D', m⟩

/-- A step of the first configuration is followed by the second. -/
def Followed (c : Config S V) (d : Config (Memory S V) V) : Prop :=
  ∃ c' n d', M.step c = .silent c' ∧ Silently (M.withFields hidden).step (n + 1) d d' ∧
    Inside M hidden root K K' own c' d'

variable {M hidden root K K' own}

theorem Followed.one {c c' : Config S V} {d d' : Config (Memory S V) V}
    (hc : M.step c = .silent c') (hd : (M.withFields hidden).step d = .silent d')
    (h : Inside M hidden root K K' own c' d') : Followed M hidden root K K' own c d :=
  ⟨c', 0, d', hc, .one hd, h⟩

/-- A redirected statement follows the statement. -/
theorem followed_run (hidden_state : stateField ∈ hidden) {C : Reach} {D D' : List (Frame V)}
    {s s' : Code} {m : Memory S V} (ho : OwnKept own m)
    (hs : Redirected hidden C s s')
    (hD : Keeps hidden M.ofInt root K K' (some (m.own stateField)) C D D') :
    Followed M hidden root K K' own ⟨.run s, D, m.user⟩ ⟨.run s', D', m⟩ := by
  cases hs with
  | @leaves _ _ j n hj hn =>
    refine ⟨_, 5, _, M.start_jump hj D m.user, ?_,
      .leave (m := M.sentTo n m) (ho.sentTo M n) hn (M.sentTo_state n m) (hD.forget hn)⟩
    have go := M.goTo_rest hidden_state n [] D' m
    rw [List.append_nil] at go
    exact .move rfl (go.trans (.one rfl))
  | stays hj hst =>
    exact .one (M.start_jump hj D m.user) (Meaning.start_jump _ hj D' m) (.stay ho hst hD)
  | plain hs hy hf =>
    refine .one (M.start_plain hs hy D m.user) (Meaning.start_plain _ hs hy D' m) ?_
    rw [M.perform_withFields hf]
    exact .done (m := { m with user := M.perform _ m.user }) ho hD
  | catchClause => exact .one rfl rfl (.done ho hD)
  | block h => exact .one rfl rfl (.done ho (.rest h hD))
  | switchCase h => exact .one rfl rfl (.done ho (.rest h hD))
  | @ifThen _ c y n y' n' hc hy hn =>
    have hd : (M.withFields hidden).step ⟨.run (.ifThen c y' n'), D', m⟩ = .silent
        ⟨.run (if M.truth (M.eval c m.user).1 then y' else n'), D',
          { m with user := (M.eval c m.user).2 }⟩ := by
      simp only [Meaning.step, Meaning.start, M.eval_withFields c hc, Meaning.lift]
      rfl
    refine .one rfl hd (.run ho (m := { m with user := (M.eval c m.user).2 }) ?_ hD)
    split
    · exact hy
    · exact hn
  | whileLoop hc hb => exact .one rfl rfl (.head ho (.test hc hb) hD)
  | doLoop hc hb => exact .one rfl rfl (.run ho hb (.body (.test hc hb) hD))
  | forLoop hi hc hu hb => exact .one rfl rfl (.done ho (.rest hi (.first (.counted hc hu hb) hD)))
  | @foreach _ v e b b' hv he hb =>
    cases v with
    | localDecl t n mods annos i =>
      have hi : Fresh hidden (.invoke e "iterator" []) := by
        refine Everywhere.call.mpr ⟨?_, he, ?_, ?_⟩ <;> simp [mentioned]
      have hn : n ∉ hidden := (Everywhere.localDecl.mp hv).1 n (List.mem_singleton_self n)
      have hd : (M.withFields hidden).step ⟨.run (.foreach (.localDecl t n mods annos i) e b'), D', m⟩ =
          .silent ⟨.head (.each t n (M.eval (.invoke e "iterator" []) m.user).1 b'), D',
            { m with user := (M.eval (.invoke e "iterator" []) m.user).2 }⟩ := by
        simp only [Meaning.step, Meaning.start, M.eval_withFields _ hi, Meaning.lift]
      exact .one rfl hd (.head (m := { m with user := _ }) ho (.each hn hb) hD)
    | _ => exact .one rfl rfl (.done ho hD)
  | @switchOn _ e cs cs' he hcs =>
    have hd : (M.withFields hidden).step ⟨.run (.switchOn e cs'), D', m⟩ = .silent
        ⟨.done, .rest ((M.withFields hidden).selected (M.eval e m.user).1 cs') :: .choice :: D',
          { m with user := (M.eval e m.user).2 }⟩ := by
      simp only [Meaning.step, Meaning.start, M.eval_withFields e he, Meaning.lift]
    exact .one rfl hd (.done (m := { m with user := _ })
      ho (.rest (M.selected_redirected hcs _) (.choice hD)))
  | labeled hb => exact .one rfl rfl (.run ho hb (.label hD))
  | @synchronizedOn _ e b b' he hb =>
    have hd : (M.withFields hidden).step ⟨.run (.synchronizedOn e b'), D', m⟩ = .silent
        ⟨.run b', D', { m with user := (M.eval e m.user).2 }⟩ := by
      simp only [Meaning.step, Meaning.start, M.eval_withFields e he, Meaning.lift]
    exact .one rfl hd (.run (m := { m with user := _ }) ho hb hD)
  | tryOpen hb hf => exact .one rfl rfl (.run ho hb (.closing hf hD))
  | trySealed hb hf => exact .one rfl rfl (.run ho hb (.closingSealed hf hD))

/-- The next round of a loop follows. -/
theorem inside_nextRound {C : Reach} {D D' : List (Frame V)} {c c' : Cycle V} {m : Memory S V}
    (ho : OwnKept own m) (hc : RedirectedCycle hidden C c c')
    (hD : Keeps hidden M.ofInt root K K' (some (m.own stateField)) C D D') :
    Inside M hidden root K K' own (nextRound c D m.user) (nextRound c' D' m) := by
  cases hc with
  | test hc hb => exact .head ho (.test hc hb) hD
  | counted hc hu hb => exact .done ho (.rest hu (.again (.counted hc hu hb) hD))
  | each hn hb => exact .head ho (.each hn hb) hD

/-- A loop follows. -/
theorem followed_head {C : Reach} {D D' : List (Frame V)} {c c' : Cycle V} {m : Memory S V}
    (ho : OwnKept own m) (hc : RedirectedCycle hidden C c c')
    (hD : Keeps hidden M.ofInt root K K' (some (m.own stateField)) C D D') :
    Followed M hidden root K K' own ⟨.head c, D, m.user⟩ ⟨.head c', D', m⟩ := by
  refine .one rfl rfl ?_
  cases hc with
  | @test c b b' hc hb =>
    simp only [Meaning.round, M.eval_withFields c hc, Meaning.lift]
    change Inside M hidden root K K' own _ (if M.truth (M.eval c m.user).1 then _ else _)
    split
    · exact .run (m := { m with user := _ }) ho hb (.body (.test hc hb) hD)
    · exact .done (m := { m with user := _ }) ho hD
  | @counted c b b' u hc hu hb =>
    simp only [Meaning.round, M.eval_withFields c hc, Meaning.lift]
    split
    · exact .run ho hb (.body (.counted hc hu hb) hD)
    · change Inside M hidden root K K' own _ (if M.truth (M.eval c m.user).1 then _ else _)
      split
      · exact .run (m := { m with user := _ }) ho hb (.body (.counted hc hu hb) hD)
      · exact .done (m := { m with user := _ }) ho hD
  | @each t b b' n it hn hb =>
    simp only [Meaning.round, M.store_user hn]
    change Inside M hidden root K K' own _ (if M.truth (M.hasNext it m.user).1 then _ else _)
    split
    · exact .run (m := { m with user := _ }) ho hb (.body (.each hn hb) hD)
    · exact .done (m := { m with user := _ }) ho hD

/-- What comes behind a statement follows, unless it is what comes behind the kept one. -/
theorem followed_done {C : Reach} {D D' : List (Frame V)} {m : Memory S V}
    (ho : OwnKept own m)
    (hD : Keeps hidden M.ofInt root K K' (some (m.own stateField)) C D D') :
    D = K ∧ D' = K' ∨ Followed M hidden root K K' own ⟨.done, D, m.user⟩ ⟨.done, D', m⟩ := by
  cases hD with
  | base => exact .inl ⟨rfl, rfl⟩
  | rest hss hD =>
    cases hss with
    | nil => exact .inr (.one rfl rfl (.done ho hD))
    | cons h hs => exact .inr (.one rfl rfl (.run ho h (.rest hs hD)))
  | choice hD => exact .inr (.one rfl rfl (.done ho hD))
  | label hD => exact .inr (.one rfl rfl (.done ho hD))
  | body hc hD => exact .inr (.one rfl rfl (inside_nextRound ho hc hD))
  | first hc hD => exact .inr (.one rfl rfl (.head ho hc hD))
  | again hc hD => exact .inr (.one rfl rfl (.head ho hc hD))
  | closing hf hD => exact .inr (.one rfl rfl (.run ho hf (.afterNone (.inr rfl) hD)))
  | closingSealed hf hD => exact .inr (.one rfl rfl (.run ho hf (.afterNone (.inl rfl) hD)))
  | afterNone hC hD => exact .inr (.one rfl rfl (.done ho hD))
  | afterStay hC hj hD => exact .inr (.one rfl rfl (.stay ho hj hD))
  | afterSafe hj hD => exact .inr (.one rfl rfl (.safe ho hj hD))
  | afterLeave hj hst hD => exact .inr (.one rfl rfl (.leave ho hj (hst _ rfl) hD))

/-- A jump that stays inside the kept statement follows. -/
theorem followed_stay (hroot : ∀ j, ¬ root.stay j) (hK : labelsOn K = labelsOn K') {C : Reach}
    {D D' : List (Frame V)} {j : Jump} {m : Memory S V} (ho : OwnKept own m) (hj : C.stay j)
    (hD : Keeps hidden M.ofInt root K K' (some (m.own stateField)) C D D') :
    Followed M hidden root K K' own ⟨.leave (.jump j), D, m.user⟩ ⟨.leave (.jump j), D', m⟩ := by
  cases hD with
  | base => exact absurd hj (hroot j)
  | rest hss hD => exact .one rfl rfl (.stay ho hj hD)
  | choice hD =>
    refine .one (congrArg _ (unwind_choice j _ _)) (congrArg _ (unwind_choice j _ _)) ?_
    cases h : j.inSwitch with
    | true => exact .done ho hD
    | false => exact .stay ho (hj.resolve_left (by simp [h])) hD
  | label hD =>
    refine .one (congrArg _ (unwind_label j _ _ _)) (congrArg _ (unwind_label j _ _ _)) ?_
    cases h : j.inLabel _ with
    | true => exact .done ho hD
    | false => exact .stay ho (hj.resolve_left (by simp [h])) hD
  | body hc hD =>
    refine .one rfl rfl ?_
    cases j with
    | ret => exact .stay ho (hj.resolve_left (by simp [Jump.inLoop])) hD
    | brk l =>
      simp only [unwind]
      cases h : l.isEmpty with
      | true => exact .done ho hD
      | false => exact .stay ho (hj.resolve_left (by simp [Jump.inLoop, h])) hD
    | cont l =>
      simp only [unwind, hD.labelsOn_eq hK]
      split
      · exact inside_nextRound ho hc hD
      · rename_i h
        exact .stay ho (hj.resolve_left (by simp_all [Jump.inLoop])) hD
  | first hc hD => exact .one rfl rfl (.stay ho hj hD)
  | again hc hD => exact .one rfl rfl (.stay ho hj hD)
  | closing hf hD => exact .one rfl rfl (.run ho hf (.afterStay (.inr rfl) hj hD))
  | closingSealed hf hD => exact .one rfl rfl (.run ho hf (.afterStay (.inl rfl) hj hD))
  | @afterNone _ C _ _ _ hC hD =>
    obtain rfl | rfl := hC
    · exact .one rfl rfl (.stay ho hj hD)
    · exact .one rfl rfl (.stay ho (C.stay_of_safe j hj) hD)
  | @afterStay _ C _ _ _ _ hC _ hD =>
    obtain rfl | rfl := hC
    · exact .one rfl rfl (.stay ho hj hD)
    · exact .one rfl rfl (.stay ho (C.stay_of_safe j hj) hD)
  | afterSafe _ hD => exact .one rfl rfl (.safe ho hj hD)
  | afterLeave _ _ hD => exact .one rfl rfl (.safe ho hj hD)

/-- So does one that leaves a `finally` block in which another jump was held back. -/
theorem followed_safe (hroot : ∀ j, ¬ root.stay j) {C : Reach} {D D' : List (Frame V)} {j : Jump}
    {m : Memory S V} (ho : OwnKept own m) (hj : C.safe j)
    (hD : Keeps hidden M.ofInt root K K' none C D D') :
    Followed M hidden root K K' own ⟨.leave (.jump j), D, m.user⟩ ⟨.leave (.jump j), D', m⟩ := by
  cases hD with
  | base => exact absurd (root.stay_of_safe j hj) (hroot j)
  | rest hss hD => exact .one rfl rfl (.safe ho hj hD)
  | @choice _ C _ _ hD =>
    refine .one (congrArg _ (unwind_choice j _ _)) (congrArg _ (unwind_choice j _ _)) ?_
    simp only [Reach.inSwitch, Reach.ending] at hj
    cases h : j.inSwitch with
    | true =>
      cases hp : C.pending with
      | true => simp [hp, h] at hj
      | false => exact .done ho (hD.remember rfl hp _)
    | false =>
      refine .safe ho ?_ hD
      split at hj
      · exact hj.1
      · exact hj.resolve_left (by simp [h])
  | @label _ C _ _ l hD =>
    refine .one (congrArg _ (unwind_label j _ _ _)) (congrArg _ (unwind_label j _ _ _)) ?_
    simp only [Reach.inLabel, Reach.ending] at hj
    cases h : j.inLabel l with
    | true =>
      cases hp : C.pending with
      | true => simp [hp, h] at hj
      | false => exact .done ho (hD.remember rfl hp _)
    | false =>
      refine .safe ho ?_ hD
      split at hj
      · exact hj.1
      · exact hj.resolve_left (by simp [h])
  | first hc hD => exact .one rfl rfl (.safe ho hj hD)
  | again hc hD => exact .one rfl rfl (.safe ho hj hD)
  | closing hf hD => exact .one rfl rfl (.run ho hf (.afterSafe hj hD))
  | @afterNone _ C _ _ _ hC hD =>
    obtain rfl | rfl := hC <;> exact .one rfl rfl (.safe (C := C) ho hj hD)
  | @afterStay _ C _ _ _ _ hC _ hD =>
    obtain rfl | rfl := hC <;> exact .one rfl rfl (.safe (C := C) ho hj hD)
  | @afterSafe _ C _ _ _ _ hD => exact .one rfl rfl (.safe (C := C) ho hj hD)
  | @afterLeave _ C _ _ _ _ _ _ hD => exact .one rfl rfl (.safe (C := C) ho hj hD)

/-- A leaving jump follows, until it leaves the kept statement. -/
theorem followed_leave {C : Reach} {D D' : List (Frame V)} {j : Jump} {n : Nat} {m : Memory S V}
    (ho : OwnKept own m) (hj : C.leave j = some n) (hm : m.own stateField = M.ofInt n)
    (hD : Keeps hidden M.ofInt root K K' none C D D') :
    D = K ∧ D' = K' ∧ root.leave j = some n ∨
      Followed M hidden root K K' own ⟨.leave (.jump j), D, m.user⟩
        ⟨.leave (.jump (.cont "")), D', m⟩ := by
  cases hD with
  | base => exact .inl ⟨rfl, rfl, hj⟩
  | rest hss hD => exact .inr (.one rfl rfl (.leave ho hj hm hD))
  | choice hD =>
    simp only [Reach.inSwitch, Reach.ending] at hj
    split at hj
    · cases hj
    · rename_i h
      refine .inr (.one (congrArg _ (unwind_choice j _ _)) rfl ?_)
      rw [if_neg h]
      exact .leave ho hj hm hD
  | @label _ _ _ _ l hD =>
    simp only [Reach.inLabel, Reach.ending] at hj
    split at hj
    · cases hj
    · rename_i h
      refine .inr (.one (congrArg _ (unwind_label j l _ _)) rfl ?_)
      rw [if_neg h]
      exact .leave ho hj hm hD
  | first hc hD => exact .inr (.one rfl rfl (.leave ho hj hm hD))
  | again hc hD => exact .inr (.one rfl rfl (.leave ho hj hm hD))
  | closing hf hD =>
    refine .inr (.one rfl rfl (.run ho hf (.afterLeave hj ?_ hD)))
    intro v hv
    cases hv
    exact hm
  | @afterNone _ C _ _ _ hC hD =>
    obtain rfl | rfl := hC <;> exact .inr (.one rfl rfl (.leave (C := C) ho hj hm hD))
  | @afterStay _ C _ _ _ _ hC _ hD =>
    obtain rfl | rfl := hC <;> exact .inr (.one rfl rfl (.leave (C := C) ho hj hm hD))
  | @afterSafe _ C _ _ _ _ hD => exact .inr (.one rfl rfl (.leave (C := C) ho hj hm hD))
  | @afterLeave _ C _ _ _ _ _ _ hD => exact .inr (.one rfl rfl (.leave (C := C) ho hj hm hD))

/-- Configurations in which a kept statement is left: both are done, or the first one leaves with a
jump, and the second one with a `continue` behind a change of the state. -/
inductive Outside (M : Meaning S V) (root : Reach) (K K' : List (Frame V)) (own : String → V) :
    Config S V → Config (Memory S V) V → Prop where
  | done {m : Memory S V} (ho : OwnKept own m) :
      Outside M root K K' own ⟨.done, K, m.user⟩ ⟨.done, K', m⟩
  | leave {j : Jump} {n : Nat} {m : Memory S V} (ho : OwnKept own m) (hj : root.leave j = some n)
      (hm : m.own stateField = M.ofInt n) :
      Outside M root K K' own ⟨.leave (.jump j), K, m.user⟩ ⟨.leave (.jump (.cont "")), K', m⟩

/-- **A redirected statement does what the statement does**, step by step, until it is left in the
same way. -/
theorem Inside.step (hidden_state : stateField ∈ hidden) (hroot : ∀ j, ¬ root.stay j)
    (hK : labelsOn K = labelsOn K') {c : Config S V} {d : Config (Memory S V) V}
    (h : Inside M hidden root K K' own c d) :
    Outside M root K K' own c d ∨ Followed M hidden root K K' own c d := by
  cases h with
  | run ho hs hD => exact .inr (followed_run hidden_state ho hs hD)
  | head ho hc hD => exact .inr (followed_head ho hc hD)
  | done ho hD =>
    obtain ⟨rfl, rfl⟩ | h := followed_done ho hD
    · exact .inl (.done ho)
    · exact .inr h
  | stay ho hj hD => exact .inr (followed_stay hroot hK ho hj hD)
  | safe ho hj hD => exact .inr (followed_safe hroot ho hj hD)
  | leave ho hj hm hD =>
    obtain ⟨rfl, rfl, hr⟩ | h := followed_leave ho hj hm hD
    · exact .inl (.leave ho hr hm)
    · exact .inr h

end

end Weaver.Generator
