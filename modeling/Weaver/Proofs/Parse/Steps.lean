import Weaver.Parse.Unit
import Weaver.Proofs.Source.Lexemes
/-!
What the small parsers do on given tokens.

A parser is applied to the tokens ahead. Every lemma here says what one of the parsers that grammar
rules are built from does where the next tokens are known; the rules themselves are then followed
by rewriting.
-/
set_option autoImplicit false

namespace Weaver.Parse

open Weaver.Source (Token Fault ParseError)

/-- The next token. -/
def Input.next (s : Input) : Token := s.ahead.headD s.last

section Bind

variable {α β : Type} {p : Parser α} {f : α → Parser β} {s s' : Input} {a : α}

theorem bind_ok (h : p s = .ok (a, s')) : (p >>= f) s = f a s' := by
  show (p s >>= fun r => f r.1 r.2) = _
  rw [h]
  rfl

theorem bind_error {e : ParseError} (h : p s = .error e) : (p >>= f) s = .error e := by
  show (p s >>= fun r => f r.1 r.2) = _
  rw [h]
  rfl

theorem pure_apply : (pure a : Parser α) s = .ok (a, s) := rfl

/-- A sequence of two parsers succeeds if both do. -/
theorem bind_eq_ok {b : β} : (p >>= f) s = .ok (b, s') ↔
    ∃ a t, p s = .ok (a, t) ∧ f a t = .ok (b, s') := by
  cases h : p s with
  | error e =>
    rw [bind_error h]
    constructor
    · intro hb
      cases hb
    · rintro ⟨a, t, ha, -⟩
      cases ha
  | ok r =>
    obtain ⟨a, t⟩ := r
    rw [bind_ok h]
    constructor
    · exact fun hb => ⟨a, t, rfl, hb⟩
    · rintro ⟨a', t', ha, hb⟩
      cases ha
      exact hb

end Bind

section Tokens

variable {s : Input} {t u last : Token} {ts : List Token} {x : String}

theorem current_apply : current s = .ok (s.next, s) := by
  show Except.ok (s.ahead.getD 0 s.last, s) = _
  cases h : s.ahead <;> rw [Input.next, h] <;> rfl

theorem peek_apply (n : Nat) : peek n s = .ok (s.ahead.getD n s.last, s) := rfl

theorem isNext_apply : isNext x s = .ok (s.next.isText x, s) := by
  rw [isNext, bind_ok current_apply]
  rfl

theorem isAhead_apply (n : Nat) : isAhead n x s = .ok ((s.ahead.getD n s.last).isText x, s) := rfl

theorem atEnd_apply : atEnd s = .ok (s.next.isEnd, s) := by
  rw [atEnd, bind_ok current_apply]
  rfl

theorem take_apply : take ⟨t :: ts, last⟩ = .ok (t, ⟨ts, last⟩) := rfl

theorem accept_true (h : t.isText x = true) : accept x ⟨t :: ts, last⟩ = .ok (true, ⟨ts, last⟩) := by
  rw [accept, bind_ok isNext_apply]
  show (if t.isText x then _ else _ : Parser Bool) _ = _
  rw [if_pos h]
  rfl

theorem accept_false (h : s.next.isText x = false) : accept x s = .ok (false, s) := by
  rw [accept, bind_ok isNext_apply, h]
  rfl

theorem expect_apply (h : t.isText x = true) : expect x ⟨t :: ts, last⟩ = .ok (t, ⟨ts, last⟩) := by
  rw [expect, bind_ok current_apply]
  show (if t.isText x then _ else _ : Parser Token) _ = _
  rw [if_pos h]
  rfl

theorem name_apply (h : t.isName = true) : name ⟨t :: ts, last⟩ = .ok (t, ⟨ts, last⟩) := by
  rw [name, bind_ok current_apply]
  show (if t.isName then _ else _ : Parser Token) _ = _
  rw [if_pos h]
  rfl

/-! ### What was taken -/

/-- The token was taken. -/
structure Took (s : Input) (t : Token) (s' : Input) : Prop where
  ahead : s.ahead = t :: s'.ahead
  last : s'.last = s.last

theorem isText_of_isEnd (h : t.isEnd = true) : t.isText x = false := by
  rw [Token.isEnd, beq_iff_eq] at h
  rw [Token.isText, Token.isOperator, Token.isWord, h]
  rfl

theorem isName_of_isEnd (h : t.isEnd = true) : t.isName = false := by
  rw [Token.isEnd, beq_iff_eq] at h
  rw [Token.isName, Token.isWord, h]
  rfl

/-- The end of the text is not taken, and any other token is. -/
theorem took_of_take {s' : Input} (hn : s.next.isEnd = false) (hl : s.last.isEnd = true)
    (h : take s = .ok (t, s')) : Took s t s' ∧ t = s.next := by
  rw [take, bind_ok current_apply] at h
  cases h
  obtain ⟨ahead, last⟩ := s
  cases ahead with
  | nil =>
    rw [Input.next, List.headD_nil, hl] at hn
    cases hn
  | cons u us => exact ⟨⟨rfl, rfl⟩, rfl⟩

theorem isEnd_of_isText (h : t.isText x = true) : t.isEnd = false := by
  cases he : t.isEnd with
  | false => rfl
  | true =>
    rw [isText_of_isEnd he] at h
    cases h

theorem isEnd_of_isName (h : t.isName = true) : t.isEnd = false := by
  cases he : t.isEnd with
  | false => rfl
  | true =>
    rw [isName_of_isEnd he] at h
    cases h

theorem name_eq_ok {s' : Input} (hl : s.last.isEnd = true) (h : name s = .ok (t, s')) :
    Took s t s' ∧ t.isName = true := by
  rw [name, bind_ok current_apply] at h
  by_cases hx : s.next.isName = true
  · rw [if_pos hx] at h
    obtain ⟨took, rfl⟩ := took_of_take (isEnd_of_isName hx) hl h
    exact ⟨took, hx⟩
  · rw [if_neg hx] at h
    cases h

theorem accept_cases (x : String) (hl : s.last.isEnd = true) :
    accept x s = .ok (false, s) ∨
      ∃ t s', Took s t s' ∧ t.isText x = true ∧ accept x s = .ok (true, s') := by
  cases hx : s.next.isText x with
  | false => exact .inl (accept_false hx)
  | true =>
    obtain ⟨ahead, last⟩ := s
    cases ahead with
    | nil =>
      have none : last.isText x = false := isText_of_isEnd hl
      rw [Input.next, List.headD_nil, none] at hx
      cases hx
    | cons t ts => exact .inr ⟨t, ⟨ts, last⟩, ⟨rfl, rfl⟩, hx, accept_true hx⟩

theorem rounds_apply {α : Type} (loop : Nat → Parser α) :
    rounds loop s = loop (s.ahead.length + 1) s := rfl

end Tokens

end Weaver.Parse
