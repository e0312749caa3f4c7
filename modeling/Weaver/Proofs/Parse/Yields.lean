import Weaver.Parse.Basic
import Weaver.Proofs.Source.Words
/-!
What parsers yield on tokens whose words have the texts of words.

`Yields p P` says that every value that `p` gives satisfies `P`, and that the tokens it leaves are
still such tokens. There is a rule for each way in which parsers are put together, so that a rule of
the grammar is followed step by step from its first token to the tree that it makes, without ever
looking at the tokens ahead.
-/
set_option autoImplicit false

namespace Weaver.Parse

open Weaver.Source (Token Fault ParseError)
open Weaver.Text (IsSegment)

/-- All words among the tokens have the texts of words. -/
structure Input.Worded (s : Input) : Prop where
  ahead : ∀ t ∈ s.ahead, t.Worded
  last : s.last.Worded

/-- The values of a parser satisfy a condition. -/
def Yields {α : Type} (p : Parser α) (P : α → Prop) : Prop :=
  ∀ s a s', s.Worded → p s = .ok (a, s') → P a ∧ s'.Worded

namespace Yields

variable {α β : Type} {p q : Parser α} {f : α → Parser β} {P Q : α → Prop} {R : β → Prop}

theorem pure {a : α} (h : P a) : Yields (Pure.pure a) P := by
  intro s b s' words same
  cases same
  exact ⟨h, words⟩

theorem bind (first : Yields p P) (then_ : ∀ a, P a → Yields (f a) R) : Yields (p >>= f) R := by
  intro s b s' words done
  change (p s >>= fun r => f r.1 r.2) = _ at done
  cases here : p s with
  | error e => rw [here] at done; exact nomatch done
  | ok r =>
    rw [here] at done
    obtain ⟨holds, words'⟩ := first s r.1 r.2 words here
    exact then_ r.1 holds r.2 b s' words' done

theorem mono (h : Yields p P) (weaker : ∀ a, P a → Q a) : Yields p Q := by
  intro s a s' words done
  obtain ⟨holds, words'⟩ := h s a s' words done
  exact ⟨weaker a holds, words'⟩

theorem ite {c : Prop} [Decidable c] (yes : c → Yields p P) (no : ¬c → Yields q P) :
    Yields (if c then p else q) P := by
  by_cases h : c
  · rw [if_pos h]
    exact yes h
  · rw [if_neg h]
    exact no h

/-- Two branches go on in the same way. -/
theorem join {c : Prop} [Decidable c] (yes : Yields p P) (no : Yields q P)
    (then_ : ∀ a, P a → Yields (f a) R) : Yields (if c then p >>= f else q >>= f) R :=
  ite (fun _ => yes.bind then_) fun _ => no.bind then_

/-- A parser that always fails. -/
theorem of_error {e : Input → ParseError} (h : ∀ s, p s = .error (e s)) : Yields p P := by
  intro s a s' _ done
  rw [h] at done
  exact nomatch done

end Yields

/-! ## Tokens -/

section Tokens

variable {α : Type} {P : α → Prop}

theorem Input.Worded.getD {s : Input} (words : s.Worded) (n : Nat) :
    (s.ahead.getD n s.last).Worded := by
  rw [List.getD_eq_getElem?_getD]
  cases h : s.ahead[n]? with
  | none => exact words.last
  | some t => exact words.ahead t (List.mem_of_getElem? h)

theorem yields_failAt (t : Token) (f : Fault) : Yields (failAt t f) P :=
  Yields.of_error (e := fun _ => ⟨f, t.pos⟩) fun _ => rfl

theorem yields_unexpected (t : Token) (x : String) : Yields (unexpected t x) P :=
  yields_failAt t _

theorem yields_peek (n : Nat) : Yields (peek n) Token.Worded := by
  intro s t s' words done
  cases done
  exact ⟨words.getD n, words⟩

theorem yields_current : Yields current Token.Worded := yields_peek 0

theorem yields_take : Yields take Token.Worded := by
  intro s t s' words done
  cases done
  exact ⟨words.getD 0, fun t member => words.ahead t (List.mem_of_mem_drop member), words.last⟩

theorem yields_isNext (x : String) : Yields (isNext x) fun _ => True :=
  yields_current.bind fun _ _ => .pure trivial

theorem yields_isAhead (n : Nat) (x : String) : Yields (isAhead n x) fun _ => True :=
  (yields_peek n).bind fun _ _ => .pure trivial

theorem yields_atEnd : Yields atEnd fun _ => True :=
  yields_current.bind fun _ _ => .pure trivial

theorem yields_accept (x : String) : Yields (accept x) fun _ => True := by
  refine (yields_isNext x).bind fun _ _ => .ite (fun _ => ?_) fun _ => .pure trivial
  exact yields_take.bind fun _ _ => .pure trivial

theorem yields_expect (x : String) : Yields (expect x) Token.Worded :=
  yields_current.bind fun t _ => .ite (fun _ => yields_take) fun _ => yields_unexpected t _

/-- A name that is taken is a word. -/
theorem yields_name : Yields name fun t => IsSegment t.text := by
  intro s t s' words done
  obtain ⟨before, words'⟩ :=
    (yields_current.bind (R := Token.Worded) fun t _ =>
      .ite (fun _ => yields_take) fun _ => yields_unexpected t _) s t s' words done
  refine ⟨before.segment ?_, words'⟩
  change (if (s.ahead.getD 0 s.last).isName then take else unexpected _ _ : Parser Token) s = _ at done
  by_cases isName : (s.ahead.getD 0 s.last).isName = true
  · rw [if_pos isName] at done
    cases done
    exact (Bool.and_eq_true_iff.mp isName).1
  · rw [if_neg isName] at done
    exact nomatch done

theorem yields_touches (n : Nat) : Yields (touches n) fun _ => True :=
  (yields_peek _).bind fun _ _ => (yields_peek n).bind fun _ _ => .pure trivial

theorem yields_succeeds (p : Parser α) : Yields (succeeds p) fun _ => True := by
  intro s b s' words done
  unfold succeeds at done
  split at done
  · cases done
    exact ⟨trivial, words⟩
  · split at done <;> cases done
    exact ⟨trivial, words⟩

theorem yields_attempt {p : Parser (Option α)} (h : Yields p fun o => ∀ a ∈ o, P a) :
    Yields (attempt p) fun o => ∀ a ∈ o, P a := by
  intro s o s' words done
  unfold attempt at done
  split at done
  · next here =>
    cases done
    exact h s _ _ words here
  · cases done
    exact ⟨nofun, words⟩
  · split at done <;> cases done
    exact ⟨nofun, words⟩

/-- The last token is like the others, and so is the end of a text that has none. -/
theorem worded_last {all : List Token} (worded : ∀ t ∈ all, t.Worded) :
    (all.getLastD Token.atEnd).Worded := by
  rw [List.getLastD_eq_getLast?]
  cases last : all.getLast? with
  | none => exact nofun
  | some t => exact worded t (List.mem_of_getLast? last)

/-! ## Loops -/

theorem yields_rounds {loop : Nat → Parser α} (h : ∀ n, Yields (loop n) P) : Yields (rounds loop) P :=
  fun s => h (s.ahead.length + 1) s

theorem yields_outOfRounds : Yields outOfRounds P :=
  yields_current.bind fun t _ => yields_failAt t .tooDeep

theorem yields_commaSeparated {item : Parser α} (h : Yields item P) (n : Nat) :
    Yields (commaSeparated item n) fun xs => ∀ x ∈ xs, P x := by
  induction n with
  | zero => exact yields_outOfRounds
  | succ n ih =>
    refine h.bind fun x holds => (yields_accept ",").bind fun more _ => .ite (fun _ => ?_) fun _ => ?_
    · exact ih.bind fun xs others => .pure (List.forall_mem_cons.mpr ⟨holds, others⟩)
    · exact .pure (List.forall_mem_singleton.mpr holds)

theorem yields_listBefore {closes : Parser Bool} {item : Parser α}
    (h' : Yields closes fun _ => True) (h : Yields item P) (n : Nat) :
    Yields (listBefore closes item n) fun xs => ∀ x ∈ xs, P x := by
  induction n with
  | zero => exact yields_outOfRounds
  | succ n ih =>
    refine h'.bind fun closed _ => .ite (fun _ => .pure (List.forall_mem_nil P)) fun _ => ?_
    refine h.bind fun x holds => (yields_accept ",").bind fun more _ => .ite (fun _ => ?_) fun _ => ?_
    · exact ih.bind fun xs others => .pure (List.forall_mem_cons.mpr ⟨holds, others⟩)
    · exact .pure (List.forall_mem_singleton.mpr holds)

end Tokens

end Weaver.Parse
