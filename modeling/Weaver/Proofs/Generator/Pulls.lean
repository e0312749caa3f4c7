import Weaver.Main
/-!
What a consumer sees of a machine that pauses.

A machine moves silently, pauses with an answer, or stops. A consumer pulls: one pull runs the
machine to its next pause, or to its stop. Two machines that give the same answers to every number
of pulls cannot be told apart, and that includes the pulls that never come back: a machine that
moves for ever gives no answer to the pull that started it.

The main statement is `Simulates.pulled_iff`. A simulation has to follow the first machine only
forward; that the second machine gives no answers of its own follows because it is deterministic
and because the first machine cannot move on for ever while the second one stands still.
-/
set_option autoImplicit false

namespace Weaver.Generator

/-- One move of a machine with configurations `C` and answers `O`. -/
inductive Move (C O : Type) where
  | silent (c : C)
  | pause (answer : O) (c : C)
  | stop

variable {C D O : Type}

/-- The machine gets from one configuration to another in `n` silent moves. -/
inductive Silently (step : C → Move C O) : Nat → C → C → Prop where
  | refl (c : C) : Silently step 0 c c
  | move {n : Nat} {a b c : C} (h : step a = .silent b) (hs : Silently step n b c) :
      Silently step (n + 1) a c

/-- What one pull gives: an answer and the configuration in which the machine pauses, or nothing. -/
inductive Next (step : C → Move C O) : C → Option (O × C) → Prop where
  | silent {a b : C} {r : Option (O × C)} (h : step a = .silent b) (hn : Next step b r) :
      Next step a r
  | pause {a b : C} {o : O} (h : step a = .pause o b) : Next step a (some (o, b))
  | stop {a : C} (h : step a = .stop) : Next step a none

/-- The answers to `n` pulls. After the pull that finds the machine stopped there are no further
ones, so a list shorter than `n` says that the end was reported. -/
inductive Pulled (step : C → Move C O) : Nat → C → List O → Prop where
  | zero (c : C) : Pulled step 0 c []
  | answer {n : Nat} {c d : C} {o : O} {os : List O} (h : Next step c (some (o, d)))
      (hp : Pulled step n d os) : Pulled step (n + 1) c (o :: os)
  | finish {n : Nat} {c : C} (h : Next step c none) : Pulled step (n + 1) c []

namespace Silently

variable {step : C → Move C O}

theorem one {a b : C} (h : step a = .silent b) : Silently step 1 a b :=
  .move h (.refl b)

theorem trans {n m : Nat} {a b c : C} (h : Silently step n a b) (h' : Silently step m b c) :
    Silently step (n + m) a c := by
  induction h with
  | refl => rw [Nat.zero_add]; exact h'
  | move hs _ ih => rw [Nat.add_right_comm]; exact .move hs (ih h')

/-- Silent moves do not change what the pull gives. -/
theorem next {n : Nat} {a b : C} (h : Silently step n a b) {r : Option (O × C)}
    (hn : Next step b r) : Next step a r := by
  induction h with
  | refl => exact hn
  | move hs _ ih => exact .silent hs (ih hn)

end Silently

/-- How the second machine answers one move of the first: a silent move by silent moves, of which
there is at least one unless the measure of the first machine went down; a pause by the same
answer; a stop by a stop. -/
def Answers (stepD : D → Move D O) (R : C → D → Prop) (weight : C → Nat) (c : C) (d : D) :
    Move C O → Prop
  | .silent c' => ∃ n d', Silently stepD n d d' ∧ R c' d' ∧ (0 < n ∨ weight c' < weight c)
  | .pause o c' => ∃ n d₀ d', Silently stepD n d d₀ ∧ stepD d₀ = .pause o d' ∧ R c' d'
  | .stop => ∃ n d₀, Silently stepD n d d₀ ∧ stepD d₀ = .stop

/-- Every move from related configurations is answered. -/
def Simulates (stepC : C → Move C O) (stepD : D → Move D O) (R : C → D → Prop)
    (weight : C → Nat) : Prop :=
  ∀ c d, R c d → Answers stepD R weight c d (stepC c)

namespace Simulates

variable {stepC : C → Move C O} {stepD : D → Move D O} {R : C → D → Prop} {weight : C → Nat}

/-- Results of a pull of the two machines agree: the same answer in related configurations, or
nothing in both. -/
def Agree (R : C → D → Prop) : Option (O × C) → Option (O × D) → Prop
  | some (o, c), some (o', d) => o = o' ∧ R c d
  | none, none => True
  | _, _ => False

/-- What a pull of the first machine gives, a pull of the second gives as well. -/
theorem next_forward (hsim : Simulates stepC stepD R weight) {c : C} {r : Option (O × C)}
    (hn : Next stepC c r) {d : D} (hR : R c d) : ∃ r', Next stepD d r' ∧ Agree R r r' := by
  induction hn generalizing d with
  | silent h _ ih =>
    have ha := hsim _ d hR
    rw [h] at ha
    obtain ⟨n, d', hs, hR', -⟩ := ha
    obtain ⟨r', hn', hr⟩ := ih hR'
    exact ⟨r', hs.next hn', hr⟩
  | pause h =>
    have ha := hsim _ d hR
    rw [h] at ha
    obtain ⟨n, d₀, d', hs, hp, hR'⟩ := ha
    exact ⟨some (_, d'), hs.next (.pause hp), rfl, hR'⟩
  | stop h =>
    have ha := hsim _ d hR
    rw [h] at ha
    obtain ⟨n, d₀, hs, hp⟩ := ha
    exact ⟨none, hs.next (.stop hp), trivial⟩

/-- A pull with the number of its moves, by which the converse is an induction. -/
inductive NextIn (step : D → Move D O) : Nat → D → Option (O × D) → Prop where
  | silent {n : Nat} {a b : D} {r : Option (O × D)} (h : step a = .silent b)
      (hn : NextIn step n b r) : NextIn step (n + 1) a r
  | pause {a b : D} {o : O} (h : step a = .pause o b) : NextIn step 0 a (some (o, b))
  | stop {a : D} (h : step a = .stop) : NextIn step 0 a none

theorem NextIn.of_next {step : D → Move D O} {d : D} {r : Option (O × D)} (h : Next step d r) :
    ∃ n, NextIn step n d r := by
  induction h with
  | silent h _ ih => obtain ⟨n, hn⟩ := ih; exact ⟨n + 1, .silent h hn⟩
  | pause h => exact ⟨0, .pause h⟩
  | stop h => exact ⟨0, .stop h⟩

/-- A pull passes through every configuration that silent moves reach: it has that many moves less
to make from there. -/
theorem NextIn.after {step : D → Move D O} {n k : Nat} {a b : D} {r : Option (O × D)}
    (hs : Silently step k a b) (h : NextIn step n a r) : k ≤ n ∧ NextIn step (n - k) b r := by
  induction hs generalizing n with
  | refl => exact ⟨Nat.zero_le n, h⟩
  | move hm _ ih =>
    cases h with
    | silent h' hn =>
      rw [hm] at h'
      cases h'
      obtain ⟨hle, hn'⟩ := ih hn
      exact ⟨by omega, by rwa [Nat.add_sub_add_right]⟩
    | pause h' => rw [hm] at h'; cases h'
    | stop h' => rw [hm] at h'; cases h'

theorem NextIn.paused {step : D → Move D O} {n : Nat} {a b : D} {o : O} {r : Option (O × D)}
    (hn : NextIn step n a r) (h : step a = .pause o b) : r = some (o, b) := by
  cases hn with
  | silent h' _ => rw [h] at h'; cases h'
  | pause h' => rw [h] at h'; cases h'; rfl
  | stop h' => rw [h] at h'; cases h'

theorem NextIn.stopped {step : D → Move D O} {n : Nat} {a : D} {r : Option (O × D)}
    (hn : NextIn step n a r) (h : step a = .stop) : r = none := by
  cases hn with
  | silent h' _ => rw [h] at h'; cases h'
  | pause h' => rw [h] at h'; cases h'
  | stop _ => rfl

/-- What a pull of the second machine gives, a pull of the first gives as well. The induction is on
the moves of the second machine and, where it stands still, on the measure of the first. -/
theorem next_backward (hsim : Simulates stepC stepD R weight) (n w : Nat) {c : C} {d : D}
    {r' : Option (O × D)} (hw : weight c = w) (hn : NextIn stepD n d r') (hR : R c d) :
    ∃ r, Next stepC c r ∧ Agree R r r' := by
  induction n using Nat.strongRecOn generalizing w c d with
  | _ n ihn =>
    induction w using Nat.strongRecOn generalizing c d with
    | _ w ihw =>
      have ha := hsim c d hR
      cases hc : stepC c with
      | silent c' =>
        rw [hc] at ha
        obtain ⟨k, d', hs, hR', hk⟩ := ha
        obtain ⟨hle, hn'⟩ := hn.after hs
        by_cases h0 : 0 < k
        · obtain ⟨r, hr, hag⟩ := ihn (n - k) (by omega) (weight c') rfl hn' hR'
          exact ⟨r, .silent hc hr, hag⟩
        · have hk0 : k = 0 := by omega
          have hlt : weight c' < weight c := hk.resolve_left h0
          rw [hk0, Nat.sub_zero] at hn'
          obtain ⟨r, hr, hag⟩ := ihw (weight c') (by omega) rfl hn' hR'
          exact ⟨r, .silent hc hr, hag⟩
      | pause o c' =>
        rw [hc] at ha
        obtain ⟨k, d₀, d', hs, hp, hR'⟩ := ha
        obtain ⟨-, hn'⟩ := hn.after hs
        obtain rfl := hn'.paused hp
        exact ⟨some (o, c'), .pause hc, rfl, hR'⟩
      | stop =>
        rw [hc] at ha
        obtain ⟨k, d₀, hs, hp⟩ := ha
        obtain ⟨-, hn'⟩ := hn.after hs
        obtain rfl := hn'.stopped hp
        exact ⟨none, .stop hc, trivial⟩

/-- **Simulated machines give the same answers.** For every number of pulls, one of them gives a
list of answers exactly when the other does. -/
theorem pulled_iff (hsim : Simulates stepC stepD R weight) {c : C} {d : D} (hR : R c d)
    (n : Nat) (os : List O) : Pulled stepC n c os ↔ Pulled stepD n d os := by
  constructor
  · intro h
    induction h generalizing d with
    | zero => exact .zero d
    | answer hn _ ih =>
      obtain ⟨r', hn', hag⟩ := hsim.next_forward hn hR
      match r', hag with
      | some (_, d'), ⟨rfl, hR'⟩ => exact .answer hn' (ih hR')
    | finish hn =>
      obtain ⟨r', hn', hag⟩ := hsim.next_forward hn hR
      match r', hag with
      | none, _ => exact .finish hn'
  · intro h
    induction h generalizing c with
    | zero => exact .zero c
    | answer hn _ ih =>
      obtain ⟨k, hk⟩ := NextIn.of_next hn
      obtain ⟨r, hr, hag⟩ := hsim.next_backward k (weight c) rfl hk hR
      match r, hag with
      | some (_, c'), ⟨rfl, hR'⟩ => exact .answer hr (ih hR')
    | finish hn =>
      obtain ⟨k, hk⟩ := NextIn.of_next hn
      obtain ⟨r, hr, hag⟩ := hsim.next_backward k (weight c) rfl hk hR
      match r, hag with
      | none, _ => exact .finish hr

end Simulates

/-! ## Answers are unique, and can be computed -/

section

variable {step : C → Move C O}

theorem Next.unique {c : C} {r r' : Option (O × C)} (h : Next step c r) (h' : Next step c r') :
    r = r' := by
  induction h with
  | silent hs _ ih =>
    cases h' with
    | silent hs' hn' =>
      rw [hs] at hs'
      cases hs'
      exact ih hn'
    | pause hs' => rw [hs] at hs'; cases hs'
    | stop hs' => rw [hs] at hs'; cases hs'
  | pause hs =>
    cases h' with
    | silent hs' _ => rw [hs] at hs'; cases hs'
    | pause hs' => rw [hs] at hs'; cases hs'; rfl
    | stop hs' => rw [hs] at hs'; cases hs'
  | stop hs =>
    cases h' with
    | silent hs' _ => rw [hs] at hs'; cases hs'
    | pause hs' => rw [hs] at hs'; cases hs'
    | stop _ => rfl

/-- A number of pulls gives one list of answers. -/
theorem Pulled.unique {n : Nat} {c : C} {os os' : List O} (h : Pulled step n c os)
    (h' : Pulled step n c os') : os = os' := by
  induction h generalizing os' with
  | zero => cases h'; rfl
  | answer hn _ ih =>
    cases h' with
    | answer hn' hp' =>
      cases hn.unique hn'
      rw [ih hp']
    | finish hn' => cases hn.unique hn'
  | finish hn =>
    cases h' with
    | answer hn' _ => cases hn.unique hn'
    | finish _ => rfl

/-- One pull, given up after a number of moves. -/
def pullWithin (step : C → Move C O) : Nat → C → Option (Option (O × C))
  | 0, _ => none
  | k + 1, c =>
    match step c with
    | .silent d => pullWithin step k d
    | .pause o d => some (some (o, d))
    | .stop => some none

/-- A number of pulls, each of them given up after a number of moves. -/
def pullsWithin (step : C → Move C O) (k : Nat) : Nat → C → Option (List O)
  | 0, _ => some []
  | n + 1, c =>
    match pullWithin step k c with
    | none => none
    | some none => some []
    | some (some (o, d)) => (pullsWithin step k n d).map (o :: ·)

theorem Next.of_pullWithin {k : Nat} {c : C} {r : Option (O × C)}
    (h : pullWithin step k c = some r) : Next step c r := by
  induction k generalizing c with
  | zero => cases h
  | succ k ih =>
    unfold pullWithin at h
    cases hs : step c with
    | silent d => rw [hs] at h; exact .silent hs (ih h)
    | pause o d => rw [hs] at h; cases h; exact .pause hs
    | stop => rw [hs] at h; cases h; exact .stop hs

theorem Pulled.of_pullsWithin {k n : Nat} {c : C} {os : List O}
    (h : pullsWithin step k n c = some os) : Pulled step n c os := by
  induction n generalizing c os with
  | zero => cases h; exact .zero c
  | succ n ih =>
    unfold pullsWithin at h
    cases hp : pullWithin step k c with
    | none => rw [hp] at h; cases h
    | some r =>
      rw [hp] at h
      have hn := Next.of_pullWithin hp
      match r, hn with
      | none, hn => cases h; exact .finish hn
      | some (o, d), hn =>
        obtain ⟨os', hos, rfl⟩ := Option.map_eq_some_iff.mp h
        exact .answer hn (ih hos)

end

end Weaver.Generator
