import Weaver.Proofs.Parse.Steps
/-!
Parsers that get on.

A parser that loops is given as many rounds as there are tokens ahead and one more, and fails with a
fault of its own when they are used up. `Reads n strict p` says that this never happens where fewer
than `n` tokens are ahead: `p` leaves some of the tokens, fewer than there were if it has to be
strict, or it fails with another fault. There is a rule for each way in which parsers are put together. A rule
for a parser that begins with a token asks less of what follows, because one token less is ahead.
-/
set_option autoImplicit false

namespace Weaver.Parse

open Weaver.Source (Token Fault ParseError)

namespace Input

/-- The end of the text stands behind the tokens ahead, and nowhere among them. -/
structure Closed (s : Input) : Prop where
  ahead : ∀ t ∈ s.ahead, t.isEnd = false
  last : s.last.isEnd = true

/-- What is left when tokens were taken. -/
structure Left (s s' : Input) : Prop where
  ahead : s'.ahead <:+ s.ahead
  last : s'.last = s.last

variable {s s' s'' : Input}

theorem Left.refl (s : Input) : s.Left s := ⟨List.suffix_rfl, rfl⟩

theorem Left.trans (h : s.Left s') (h' : s'.Left s'') : s.Left s'' :=
  ⟨h'.ahead.trans h.ahead, h'.last.trans h.last⟩

theorem Left.length_le (h : s.Left s') : s'.ahead.length ≤ s.ahead.length := h.ahead.length_le

theorem Closed.left (h : s.Closed) (hl : s.Left s') : s'.Closed :=
  ⟨fun t ht => h.ahead t (hl.ahead.subset ht), hl.last ▸ h.last⟩

/-- Where the next token is not the end, there is a token ahead. -/
theorem Closed.ne_nil (h : s.Closed) (hn : s.next.isEnd = false) : s.ahead ≠ [] := by
  intro hs
  rw [next, hs, List.headD_nil, h.last] at hn
  cases hn

/-- Where the next token is the end, no token is ahead. -/
theorem Closed.eq_nil (h : s.Closed) (hn : s.next.isEnd = true) : s.ahead = [] := by
  cases hs : s.ahead with
  | nil => rfl
  | cons t ts =>
    have ht : s.next = t := by rw [next, hs, List.headD_cons]
    rw [ht, h.ahead t (hs ▸ List.mem_cons_self)] at hn
    cases hn

end Input

/-! ## The judgement -/

section

variable {α β : Type}

/-- What a parser may do with the tokens ahead. -/
def GetsOn (strict : Bool) (s : Input) : Except ParseError (α × Input) → Prop
  | .ok (_, s') => s.Left s' ∧ (strict = true → s'.ahead.length < s.ahead.length)
  | .error e => e.fault ≠ .tooDeep

/-- The parser gets on where it is, if fewer than `n` tokens are ahead. -/
def ReadsAt (n : Nat) (strict : Bool) (p : Parser α) (s : Input) : Prop :=
  s.Closed → s.ahead.length < n → GetsOn strict s (p s)

/-- The parser gets on wherever fewer than `n` tokens are ahead. -/
def Reads (n : Nat) (strict : Bool) (p : Parser α) : Prop := ∀ s, ReadsAt n strict p s

variable {n m : Nat} {b : Bool} {p q : Parser α} {f : α → Parser β} {s : Input} {a : α}

theorem GetsOn.loose {r : Except ParseError (α × Input)} (h : GetsOn b s r) : GetsOn false s r := by
  cases r with
  | error e => exact h
  | ok x => exact ⟨h.1, nofun⟩

namespace Reads

/-- Where fewer tokens are ahead. -/
theorem le (h : Reads n b p) (hm : m ≤ n) : Reads m b p :=
  fun s hs hlt => h s hs (Nat.lt_of_lt_of_le hlt hm)

theorem low (h : Reads (n + 1) b p) : Reads n b p := h.le (Nat.le_succ n)

theorem loose (h : Reads n b p) : Reads n false p :=
  fun s hs hlt => (h s hs hlt).loose

/-- With no tokens at all to read, there is nothing to say. -/
theorem zero : Reads 0 b p := fun _ _ hlt => absurd hlt (Nat.not_lt_zero _)

end Reads

namespace ReadsAt

theorem pure : ReadsAt n false (Pure.pure a) s :=
  fun _ _ => ⟨.refl s, nofun⟩

theorem fail {t : Token} {x : Fault} (h : x ≠ .tooDeep) : ReadsAt n b (failAt t x : Parser α) s :=
  fun _ _ => h

theorem unexpected {t : Token} {x : String} : ReadsAt n b (Parse.unexpected t x : Parser α) s :=
  fun _ _ => nofun

/-- After a fault nothing more is read. -/
theorem fail_bind {t : Token} {x : Fault} (h : x ≠ .tooDeep) :
    ReadsAt n b (failAt t x >>= f) s :=
  fun _ _ => h

/-- Two parsers one after the other. -/
theorem bind (h : Reads n false p) (hf : ∀ a, Reads n b (f a)) : ReadsAt n b (p >>= f) s := by
  intro hs hlt
  have first := h s hs hlt
  cases hp : p s with
  | error e =>
    rw [bind_error hp]
    rw [hp] at first
    exact first
  | ok x =>
    rw [bind_ok hp]
    rw [hp] at first
    have rest := hf x.1 x.2 (hs.left first.1) (Nat.lt_of_le_of_lt first.1.length_le hlt)
    cases hq : f x.1 x.2 with
    | error e =>
      rw [hq] at rest
      exact rest
    | ok y =>
      rw [hq] at rest
      refine ⟨first.1.trans rest.1, fun hb => ?_⟩
      exact Nat.lt_of_lt_of_le (rest.2 hb) first.1.length_le

/-- Of two parsers the first one takes a token. -/
theorem seq (h : ReadsAt (n + 1) true p s) (hf : ∀ a, Reads n false (f a)) :
    ReadsAt (n + 1) b (p >>= f) s := by
  intro hs hlt
  have first := h hs hlt
  cases hp : p s with
  | error e =>
    rw [bind_error hp]
    rw [hp] at first
    exact first
  | ok x =>
    rw [bind_ok hp]
    rw [hp] at first
    have less : x.2.ahead.length < s.ahead.length := first.2 rfl
    have rest := hf x.1 x.2 (hs.left first.1) (by omega)
    cases hq : f x.1 x.2 with
    | error e =>
      rw [hq] at rest
      exact rest
    | ok y =>
      rw [hq] at rest
      exact ⟨first.1.trans rest.1, fun _ => Nat.lt_of_le_of_lt rest.1.length_le less⟩

theorem ite {x : Prop} [Decidable x] (yes : x → ReadsAt n b p s) (no : ¬ x → ReadsAt n b q s) :
    ReadsAt n b (if x then p else q) s := by
  by_cases h : x
  · rw [if_pos h]
    exact yes h
  · rw [if_neg h]
    exact no h

/-- Two branches go on in the same way. -/
theorem join {x : Prop} [Decidable x] (yes : Reads n false p) (no : Reads n false q)
    (hf : ∀ a, Reads n b (f a)) : ReadsAt n b (if x then p >>= f else q >>= f) s :=
  ite (fun _ => bind yes hf) fun _ => bind no hf

/-! ### Looking ahead -/

variable {g : Token → Parser α} {k : Bool → Parser α} {x : String}

theorem current (h : ReadsAt n b (g s.next) s) : ReadsAt n b (Parse.current >>= g) s := by
  unfold ReadsAt
  rw [bind_ok current_apply]
  exact h

theorem isNext (h : ReadsAt n b (k (s.next.isText x)) s) : ReadsAt n b (Parse.isNext x >>= k) s := by
  unfold ReadsAt
  rw [bind_ok isNext_apply]
  exact h

theorem atEnd (h : ReadsAt n b (k s.next.isEnd) s) : ReadsAt n b (Parse.atEnd >>= k) s := by
  unfold ReadsAt
  rw [bind_ok atEnd_apply]
  exact h

theorem peek {i : Nat} (h : ∀ t, ReadsAt n b (g t) s) : ReadsAt n b (Parse.peek i >>= g) s := by
  unfold ReadsAt
  rw [bind_ok (peek_apply i)]
  exact h _

theorem isAhead {i : Nat} (h : ∀ y, ReadsAt n b (k y) s) : ReadsAt n b (Parse.isAhead i x >>= k) s := by
  unfold ReadsAt
  rw [bind_ok (isAhead_apply i)]
  exact h _

end ReadsAt

/-- The parser only looks at the tokens, and what it gives satisfies a condition. -/
def Looks (p : Parser α) (P : α → Prop) (s : Input) : Prop := ∃ a, P a ∧ p s = .ok (a, s)

namespace Looks

variable {P : α → Prop} {Q : β → Prop}

theorem pure (h : P a) : Looks (Pure.pure a) P s := ⟨a, h, rfl⟩

theorem bind (h : Looks p P s) (hf : ∀ a, P a → Looks (f a) Q s) : Looks (p >>= f) Q s := by
  obtain ⟨a, ha, here⟩ := h
  obtain ⟨x, hx, then_⟩ := hf a ha
  exact ⟨x, hx, (bind_ok here).trans then_⟩

theorem ite {x : Prop} [Decidable x] (yes : x → Looks p P s) (no : ¬ x → Looks q P s) :
    Looks (if x then p else q) P s := by
  by_cases h : x
  · rw [if_pos h]
    exact yes h
  · rw [if_neg h]
    exact no h

theorem current : Looks Parse.current (· = s.next) s := ⟨s.next, rfl, current_apply⟩

theorem peek (i : Nat) : Looks (Parse.peek i) (fun _ => True) s := ⟨_, trivial, peek_apply i⟩

theorem isAhead (i : Nat) (x : String) : Looks (Parse.isAhead i x) (fun _ => True) s :=
  ⟨_, trivial, isAhead_apply i⟩

theorem touches (i : Nat) : Looks (Parse.touches i) (fun _ => True) s :=
  (peek _).bind fun _ _ => (peek i).bind fun _ _ => .pure trivial

end Looks

namespace ReadsAt

theorem looks {P : α → Prop} (h : Looks p P s) (hf : ∀ a, P a → ReadsAt n b (f a) s) :
    ReadsAt n b (p >>= f) s := by
  obtain ⟨a, ha, here⟩ := h
  unfold ReadsAt
  rw [bind_ok here]
  exact hf a ha

/-! ### Taking tokens -/

variable {g : Token → Parser α} {k : Bool → Parser α} {x : String}

/-- A token that is not the end is taken. -/
theorem take (hn : s.next.isEnd = false) : ReadsAt n b Parse.take s := by
  intro hs _
  obtain ⟨ahead, last⟩ := s
  cases ahead with
  | nil => exact absurd rfl (hs.ne_nil hn)
  | cons t ts => exact ⟨⟨List.suffix_cons t ts, rfl⟩, fun _ => Nat.lt_succ_self _⟩

/-- A token that was asked for is taken. -/
theorem taken {f : Token → Parser α} (hx : s.next.isText x = true) (hf : ∀ t, Reads n false (f t)) :
    ReadsAt (n + 1) b (Parse.take >>= f) s :=
  seq (take (isEnd_of_isText hx)) hf

/-- The next token is taken, or it is the end. -/
theorem takeAny (more : s.next.isEnd = false → Reads n false (g s.next))
    (done : s.next.isEnd = true → ReadsAt (n + 1) b (g s.next) s) :
    ReadsAt (n + 1) b (Parse.take >>= g) s := by
  intro hs hlt
  cases hn : s.next.isEnd with
  | true =>
    have same : Parse.take s = .ok (s.next, s) := by
      obtain ⟨ahead, last⟩ := s
      obtain rfl : ahead = [] := hs.eq_nil hn
      rfl
    rw [bind_ok same]
    exact done hn hs hlt
  | false =>
    obtain ⟨ahead, last⟩ := s
    cases ahead with
    | nil => exact absurd rfl (hs.ne_nil hn)
    | cons t ts =>
      have rest : ReadsAt (n + 1) true (Parse.take >>= fun _ => g t) ⟨t :: ts, last⟩ :=
        seq (take hn) fun _ => more hn
      have strict := rest hs hlt
      rw [bind_ok take_apply] at strict ⊢
      cases b with
      | true => exact strict
      | false => exact strict.loose

theorem accept (yes : Reads n false (k true)) (no : ReadsAt (n + 1) b (k false) s) :
    ReadsAt (n + 1) b (Parse.accept x >>= k) s := by
  intro hs hlt
  obtain hf | ⟨t, s', took, -, ht⟩ := accept_cases x hs.last
  · rw [bind_ok hf]
    exact no hs hlt
  · rw [bind_ok ht]
    have left : s.Left s' := ⟨⟨[t], took.ahead.symm⟩, took.last⟩
    have less : s'.ahead.length < s.ahead.length := by
      rw [took.ahead]
      exact Nat.lt_succ_self _
    have rest := yes s' (hs.left left) (by omega)
    cases hq : k true s' with
    | error e =>
      rw [hq] at rest
      exact rest
    | ok y =>
      rw [hq] at rest
      exact ⟨left.trans rest.1, fun _ => Nat.lt_of_le_of_lt rest.1.length_le less⟩

end ReadsAt

/-! ### Wherever a parser begins -/

namespace Reads

theorem bind (h : Reads n false p) (hf : ∀ a, Reads n b (f a)) : Reads n b (p >>= f) :=
  fun _ => .bind h hf

theorem seq (h : Reads (n + 1) true p) (hf : ∀ a, Reads n false (f a)) : Reads (n + 1) b (p >>= f) :=
  fun s => .seq (h s) hf

theorem ite {x : Prop} [Decidable x] (yes : x → Reads n b p) (no : ¬ x → Reads n b q) :
    Reads n b (if x then p else q) :=
  fun s => .ite (fun h => yes h s) fun h => no h s

theorem join {x : Prop} [Decidable x] (yes : Reads n false p) (no : Reads n false q)
    (hf : ∀ a, Reads n b (f a)) : Reads n b (if x then p >>= f else q >>= f) :=
  fun _ => .join yes no hf

theorem accept {k : Bool → Parser α} {x : String} (yes : Reads n false (k true))
    (no : Reads (n + 1) b (k false)) : Reads (n + 1) b (Parse.accept x >>= k) :=
  fun s => .accept yes (no s)

end Reads

/-! ## Small parsers -/

section Small

variable {x : String} {i : Nat}

theorem reads_pure : Reads n false (pure a : Parser α) := fun _ => .pure

theorem reads_current : Reads n false current := fun _ _ _ => by
  rw [current_apply]
  exact ⟨.refl _, nofun⟩

theorem reads_isNext : Reads n false (isNext x) := fun _ => .current .pure

theorem reads_isAhead : Reads n false (isAhead i x) := fun _ => .peek fun _ => .pure

theorem reads_atEnd : Reads n false atEnd := fun _ => .current .pure

theorem reads_take : Reads n false take := by
  intro s _ _
  refine ⟨⟨List.drop_suffix 1 s.ahead, rfl⟩, nofun⟩

theorem reads_accept : Reads n false (accept x) :=
  fun _ => .bind reads_isNext fun _ _ => .ite (fun _ => .bind reads_take fun _ => reads_pure)
    fun _ => .pure

theorem reads_expect : Reads n b (expect x) :=
  fun _ => .current (.ite (fun hx => .take (isEnd_of_isText hx)) fun _ => .unexpected)

theorem reads_name : Reads n b name :=
  fun _ => .current (.ite (fun hx => .take (isEnd_of_isName hx)) fun _ => .unexpected)

/-- A parser that is only tried. Running out of rounds would come to light. -/
theorem reads_succeeds (h : Reads n b p) : Reads n false (succeeds p) := by
  intro s hs hlt
  have tried := h s hs hlt
  unfold succeeds
  cases hp : p s with
  | ok x => exact ⟨.refl s, nofun⟩
  | error e =>
    rw [hp] at tried
    have hf : e.fault ≠ .tooDeep := tried
    simp only [if_neg hf]
    exact ⟨.refl s, nofun⟩

/-- A value that is only given if the parser succeeds, behind the tokens that it took. -/
theorem ReadsAt.attempt {p : Parser (Option α)} {g : Option α → Parser β} (h : Reads (n + 1) true p)
    (yes : ∀ a, Reads n false (g (some a))) (no : ReadsAt (n + 1) b (g none) s) :
    ReadsAt (n + 1) b (Parse.attempt p >>= g) s := by
  intro hs hlt
  have tried := h s hs hlt
  cases hp : p s with
  | error e =>
    rw [hp] at tried
    have hf : e.fault ≠ .tooDeep := tried
    have left : Parse.attempt p s = .ok (none, s) := by
      rw [Parse.attempt, hp]
      simp only [if_neg hf]
    rw [bind_ok left]
    exact no hs hlt
  | ok x =>
    obtain ⟨o, t⟩ := x
    cases o with
    | none =>
      have left : Parse.attempt p s = .ok (none, s) := by rw [Parse.attempt, hp]
      rw [bind_ok left]
      exact no hs hlt
    | some a =>
      have taken : Parse.attempt p s = .ok (some a, t) := by rw [Parse.attempt, hp]
      have strict : ReadsAt (n + 1) true (Parse.attempt p) s := by
        intro _ _
        rw [taken]
        rw [hp] at tried
        exact tried
      have rest : ReadsAt (n + 1) b (Parse.attempt p >>= fun _ => g (some a)) s :=
        .seq strict fun _ => yes a
      have := rest hs hlt
      rw [bind_ok taken] at this ⊢
      exact this

/-! ## Loops -/

/-- Enough rounds are given. -/
theorem reads_rounds {loop : Nat → Parser α} (h : ∀ k ≤ n, Reads k b (loop k)) :
    Reads n b (rounds loop) := by
  intro s hs hlt
  rw [rounds_apply]
  exact h (s.ahead.length + 1) hlt s hs (Nat.lt_succ_self _)

theorem reads_commaSeparated {item : Parser α} {k : Nat} (h : Reads k true item) :
    Reads k b (commaSeparated item k) := by
  induction k generalizing b with
  | zero => exact .zero
  | succ k ih =>
    refine h.seq fun x _ => .bind reads_accept fun more _ => ?_
    exact .ite (fun _ => .bind (ih h.low) fun _ => reads_pure) fun _ => .pure

theorem reads_listBefore {closes : Parser Bool} {item : Parser α} {k : Nat}
    (hc : Reads k false closes) (h : Reads k true item) :
    Reads k false (listBefore closes item k) := by
  induction k with
  | zero => exact .zero
  | succ k ih =>
    intro s
    refine .bind hc fun closed _ => .ite (fun _ => .pure) fun _ => ?_
    refine .seq (h _) fun x _ => .bind reads_accept fun more _ => ?_
    exact .ite (fun _ => .bind (ih hc.low h.low) fun _ => reads_pure) fun _ => .pure

theorem reads_separated {item : Parser α} (h : Reads n true item) :
    Reads n b (rounds (commaSeparated item)) :=
  reads_rounds fun _ hk => reads_commaSeparated (h.le hk)

theorem reads_before {closes : Parser Bool} {item : Parser α} (hc : Reads n false closes)
    (h : Reads n true item) : Reads n false (rounds (listBefore closes item)) :=
  reads_rounds fun _ hk => reads_listBefore (hc.le hk) (h.le hk)

end Small

end

end Weaver.Parse
