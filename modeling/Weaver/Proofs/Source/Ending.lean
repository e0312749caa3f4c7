import Mathlib.Logic.Relation
import Weaver.Proofs.Source.Onward
/-!
Reading tokens comes to an end.

A token that is not the end of the text takes a character, so a text has no more tokens than
characters and the reader never stops for want of rounds: it stops at the end of the text, at the
first token with a fault, or where it breaks. It breaks at a quote that is the last character of the
text, and nowhere else.
-/
set_option autoImplicit false

namespace Weaver.Source

open Weaver.Text (Glyph)
open Scanner (Onward)

variable {s t : Scanner}

/-! ## Taking a literal apart -/

/-- As many characters were passed as are not ahead any more. -/
theorem Scanner.Onward.length_passed (h : Onward s t) :
    (s.passed t).length = s.ahead.length - t.ahead.length := by
  have here : s.ahead.length = s.look.toList.length + s.rest.length := Scanner.length_ahead
  have index := h.index
  have le := h.length_le
  rw [Scanner.passed, List.length_take, List.length_append, List.length_map, List.length_take]
  omega

theorem Scanner.length_ahead_read (h : s.Whole) : s.read.ahead.length = s.ahead.length - 1 := by
  rw [Scanner.ahead_read, List.length_map, Scanner.length_ahead]
  cases look : s.look with
  | none =>
    rw [h look]
    rfl
  | some c => exact (Nat.add_sub_cancel_left 1 _).symm

namespace Lexer

/-- The head stands on a quote, and the text ends there. -/
def OnLastQuote (s : Scanner) : Prop := s.ahead = ['"'] ∨ s.ahead = ['\'']

/-- A literal can be taken apart if it has a second character. -/
theorem quotedToken_eq_error {quote : Char} (e : LexFailure) :
    quotedToken s quote = .error e ↔
      e = .broken ∧ (s.passed (quotedLiteral quote s)).length ≤ 1 := by
  unfold quotedToken
  dsimp only
  split
  · next short =>
    rw [Except.error.injEq, eq_comm]
    exact (and_iff_left short).symm
  · next long =>
    refine ⟨fun read => ?_, fun read => absurd read.2 long⟩
    split at read
    · cases read
    · split at read
      · cases read
      · split at read <;> cases read

/-- A quote that is the last character is the one literal that cannot be taken apart. -/
theorem quotedToken_eq_broken {quote : Char} (look : s.look = some quote) :
    quotedToken s quote = .error .broken ↔ s.ahead = [quote] := by
  obtain ⟨t, body, literal⟩ := onward_quotedLiteral quote s
  have whole : s.Whole := fun none => by rw [look] at none; cases none
  have passed := ((Onward.refl whole).read.trans body.read).length_passed
  have all : s.ahead = quote :: s.read.ahead := by
    rw [Scanner.ahead_of_look look, Scanner.ahead_read]
  have taken := Scanner.length_ahead_read body.whole
  have le := body.length_le
  rw [quotedToken_eq_error, literal, passed, taken, all, List.length_cons, List.cons_eq_cons,
    ← List.length_eq_zero_iff]
  simp only [true_and]
  omega

theorem startsWord_quote : startsWord '"' = false ∧ startsWord '\'' = false := by decide

theorem isDecimal_quote : isDecimal '"' = false ∧ isDecimal '\'' = false := by decide

/-! ## One token -/

/-- The head behind the white space and the comments before the next token. -/
def behindBlanks (s : Scanner) : Scanner := toToken s.rest s.between

theorem onward_behindBlanks (h : s.Whole) : Onward s (behindBlanks s) :=
  onward_toToken _ (Onward.refl h).between

theorem not_onLastQuote (h : s.Whole) (look : s.look = none) : ¬ OnLastQuote s := by
  rw [OnLastQuote, h.ahead_eq_nil look]
  rintro (same | same) <;> cases same

theorem onLastQuote_iff {c : Char} (look : s.look = some c) :
    OnLastQuote s ↔ (c = '"' ∨ c = '\'') ∧ s.ahead = [c] := by
  have all : s.ahead = c :: s.rest.map Glyph.shown := Scanner.ahead_of_look look
  rw [OnLastQuote, all]
  simp only [List.cons.injEq]
  constructor
  · rintro (⟨rfl, last⟩ | ⟨rfl, last⟩)
    · exact ⟨.inl rfl, trivial, last⟩
    · exact ⟨.inr rfl, trivial, last⟩
  · rintro ⟨rfl | rfl, -, last⟩
    · exact .inl ⟨rfl, last⟩
    · exact .inr ⟨rfl, last⟩

/-- The reader breaks at a last quote and nowhere else. -/
theorem next_eq_error (h : s.Whole) (e : LexFailure) :
    next s = .error e ↔ e = .broken ∧ OnLastQuote (behindBlanks s) := by
  have whole : (behindBlanks s).Whole := (onward_behindBlanks h).whole
  unfold next
  dsimp only
  rw [show toToken s.rest s.between = behindBlanks s from rfl]
  generalize behindBlanks s = u at whole ⊢
  split
  · next look => exact iff_of_false nofun fun last => not_onLastQuote whole look last.2
  · next c look =>
    rw [onLastQuote_iff look]
    split
    · next starts =>
      refine iff_of_false nofun ?_
      rintro ⟨-, rfl | rfl, -⟩
      · exact absurd starts (ne_true_of_eq_false startsWord_quote.1)
      · exact absurd starts (ne_true_of_eq_false startsWord_quote.2)
    · split
      · next decimal =>
        refine iff_of_false nofun ?_
        rintro ⟨-, rfl | rfl, -⟩
        · exact absurd decimal (ne_true_of_eq_false isDecimal_quote.1)
        · exact absurd decimal (ne_true_of_eq_false isDecimal_quote.2)
      · split
        · next quote =>
          rw [Bool.or_eq_true_iff, beq_iff_eq, beq_iff_eq] at quote
          rw [and_iff_right quote, ← quotedToken_eq_broken look]
          constructor
          · intro failed
            obtain ⟨rfl, -⟩ := (quotedToken_eq_error e).mp failed
            exact ⟨rfl, failed⟩
          · rintro ⟨rfl, failed⟩
            exact failed
        · next other =>
          have none : ¬ (c = '"' ∨ c = '\'') := by
            rwa [Bool.or_eq_true_iff, beq_iff_eq, beq_iff_eq] at other
          split
          · exact iff_of_false nofun fun quote => none quote.2.1
          · exact iff_of_false nofun fun quote => none quote.2.1

theorem pos_floatToken (start : Scanner) (text : String) (s : Scanner) :
    (floatToken start text s).1.pos = start.mark := by
  unfold floatToken
  extract_lets single s₁
  split <;> rfl

theorem pos_integerToken (start : Scanner) (text : String) (s : Scanner) :
    (integerToken start text s).1.pos = start.mark := by
  unfold integerToken
  extract_lets long s₁
  split <;> rfl

theorem pos_numberToken (start : Scanner) (afterDot : Bool) (s : Scanner) :
    (numberToken start afterDot s).1.pos = start.mark := by
  unfold numberToken
  split
  extract_lets text
  split
  · exact pos_floatToken start text _
  · exact pos_integerToken start text _

theorem pos_quotedToken {quote : Char} {t : Token} {s' : Scanner}
    (read : quotedToken s quote = .ok (t, s')) : t.pos = s.mark := by
  unfold quotedToken at read
  dsimp only at read
  split at read
  · exact nomatch read
  · split at read
    · cases read
      rfl
    · split at read
      · cases read
        rfl
      · split at read <;>
        · cases read
          rfl

/-- A token is the end of the text, or it was begun behind the white space and takes the character
there. -/
theorem next_eq_ok {t : Token} {s' : Scanner} (read : next s = .ok (t, s')) :
    (∃ c, (behindBlanks s).look = some c ∧ t.pos = (behindBlanks s).mark ∧
      Onward (behindBlanks s).read s') ∨ t.isEnd = true ∧ s' = behindBlanks s := by
  unfold next at read
  dsimp only at read
  rw [show toToken s.rest s.between = behindBlanks s from rfl] at read
  generalize behindBlanks s = u at read ⊢
  split at read
  · cases read
    exact .inr ⟨rfl, rfl⟩
  · next c look =>
    refine .inl ⟨c, look, ?_⟩
    have here : Onward u.read u.read := .refl Scanner.whole_read
    split at read
    · next starts =>
      cases read
      exact ⟨rfl, Scanner.onward_read_span look (by rw [continuesWord, starts, Bool.true_or])⟩
    · split at read
      · next decimal =>
        have number : Onward u.read (numberToken u false _).2 := onward_numberToken false
          (onward_number false nofun fun _ => onward_digits look decimal)
        have pos := pos_numberToken u false u
        rw [Except.ok.inj read] at number pos
        exact ⟨pos, number⟩
      · split at read
        · exact ⟨pos_quotedToken read, onward_quotedToken read⟩
        · split at read
          · have number : Onward u.read (numberToken u true _).2 := onward_numberToken true
              (onward_number true (fun _ => here) nofun)
            have pos := pos_numberToken u true u.read
            rw [Except.ok.inj read] at number pos
            exact ⟨pos, number⟩
          · have operator : Onward u.read (operatorToken u c u.read).2 := onward_operatorToken here
            have pos : (operatorToken u c u.read).1.pos = u.mark := rfl
            rw [Except.ok.inj read] at operator pos
            exact ⟨pos, operator⟩

/-- A token moves the head on, and one that is not the end of the text takes a character. -/
theorem onward_next {t : Token} {s' : Scanner} (h : s.Whole) (read : next s = .ok (t, s')) :
    Onward s s' ∧ (t.isEnd = false → s'.ahead.length < s.ahead.length) := by
  have first : Onward s (behindBlanks s) := onward_behindBlanks h
  rcases next_eq_ok read with ⟨c, look, -, behind⟩ | ⟨isEnd, rfl⟩
  · have onward : Onward s s' := first.trans ((Onward.refl first.whole).read.trans behind)
    exact ⟨onward, fun _ => Nat.lt_of_lt_of_le (behind.lt look) first.length_le⟩
  · exact ⟨first, fun isToken => absurd isEnd (ne_true_of_eq_false isToken)⟩

/-! ## All tokens -/

/-- A token that is not the end of the text was read without a fault. -/
def Passes (s s' : Scanner) : Prop :=
  ∃ t, next s = .ok (t, s') ∧ s'.fault = none ∧ t.isEnd = false

/-- Token by token the reader gets to a quote that is the last character of the text. -/
def Breaks (s : Scanner) : Prop :=
  ∃ u, Relation.ReflTransGen Passes s u ∧ OnLastQuote (behindBlanks u)

theorem breaks_iff : Breaks s ↔ OnLastQuote (behindBlanks s) ∨ ∃ s', Passes s s' ∧ Breaks s' := by
  constructor
  · rintro ⟨u, path, last⟩
    rcases path.cases_head with rfl | ⟨s', step, rest⟩
    · exact .inl last
    · exact .inr ⟨s', step, u, rest, last⟩
  · rintro (last | ⟨s', step, u, rest, last⟩)
    · exact ⟨s, .refl, last⟩
    · exact ⟨u, .head step rest, last⟩

/-- Where a token can be read, the reader breaks only behind it. -/
theorem breaks_iff_of_next {t : Token} {s' : Scanner} (h : s.Whole) (read : next s = .ok (t, s')) :
    Breaks s ↔ s'.fault = none ∧ t.isEnd = false ∧ Breaks s' := by
  have here : ¬ OnLastQuote (behindBlanks s) := by
    intro last
    rw [(next_eq_error h .broken).mpr ⟨rfl, last⟩] at read
    cases read
  rw [breaks_iff, or_iff_right here]
  constructor
  · rintro ⟨s'', ⟨t', read', clean, isToken⟩, later⟩
    rw [read] at read'
    cases read'
    exact ⟨clean, isToken, later⟩
  · rintro ⟨clean, isToken, later⟩
    exact ⟨s', ⟨t, read, clean, isToken⟩, later⟩

/-- The tokens end with the end of the text, which does not stand among them. -/
def Ended (ts : List Token) : Prop :=
  ∃ init last, ts = init ++ [last] ∧ (∀ t ∈ init, t.isEnd = false) ∧ last.isEnd = true

theorem Ended.cons {t : Token} {ts : List Token} (h : Ended ts) (ht : t.isEnd = false) :
    Ended (t :: ts) := by
  obtain ⟨init, last, rfl, inner, isEnd⟩ := h
  exact ⟨t :: init, last, rfl, List.forall_mem_cons.mpr ⟨ht, inner⟩, isEnd⟩

/-- What reading all tokens comes to: they end with the end of the text, or a token has a fault, or
the reader breaks, and this exactly where it gets to a last quote. -/
structure Answers (s : Scanner) (r : Except LexFailure (List Token)) : Prop where
  ok : ∀ ts, r = .ok ts → Ended ts
  malformed : ∀ e, r = .error (.malformed e) → e.fault ≠ .tooDeep
  broken : r = .error .broken ↔ Breaks s

/-- With more rounds than there are characters the reader never stops for want of them. -/
theorem all_answers {n : Nat} (h : s.Whole) (lexical : s.Lexical) (enough : s.ahead.length < n) :
    Answers s (all n s) := by
  induction n generalizing s with
  | zero => exact absurd enough (Nat.not_lt_zero _)
  | succ n ih =>
    unfold all
    cases read : next s with
    | error e =>
      obtain ⟨rfl, last⟩ := (next_eq_error h e).mp read
      exact ⟨nofun, nofun, iff_of_true rfl (breaks_iff.mpr (.inl last))⟩
    | ok x =>
      obtain ⟨t, s'⟩ := x
      obtain ⟨onward, takes⟩ := onward_next h read
      have breaks := breaks_iff_of_next h read
      dsimp only
      cases fault : s'.fault with
      | some e =>
        refine ⟨nofun, fun e' same => ?_, iff_of_false nofun fun here => ?_⟩
        · cases same
          exact onward.lexical lexical e fault
        · rw [breaks, fault] at here
          cases here.1
      | none =>
        cases isEnd : t.isEnd with
        | true =>
          refine ⟨fun ts same => ?_, nofun, iff_of_false nofun fun here => ?_⟩
          · cases same
            exact ⟨[], t, rfl, nofun, isEnd⟩
          · rw [breaks, isEnd] at here
            cases here.2.1
        | false =>
          have rest := ih onward.whole (onward.lexical lexical)
            (Nat.lt_of_lt_of_le (takes isEnd) (Nat.le_of_lt_succ enough))
          have later : Breaks s ↔ Breaks s' := by simp only [breaks, fault, isEnd, true_and]
          rw [if_neg Bool.false_ne_true]
          cases tokens : all n s' with
          | error e =>
            rw [tokens] at rest
            exact ⟨nofun, fun e' same => rest.malformed e' same, rest.broken.trans later.symm⟩
          | ok ts =>
            rw [tokens] at rest
            refine ⟨fun ts' same => ?_, nofun, iff_of_false nofun ?_⟩
            · cases same
              exact (rest.ok ts rfl).cons isEnd
            · exact fun here => nomatch rest.broken.mpr (later.mp here)

end Lexer

/-! ## A text -/

section Text

variable {text : List Glyph}

/-- The head of a text starts at its first character, or at the second one behind a byte order
mark. -/
theorem start_ahead : (Scanner.start text).ahead <:+ text.map Glyph.shown := by
  unfold Scanner.start
  extract_lets s
  have first : s.ahead = text.map Glyph.shown := Scanner.ahead_read
  split
  · exact first ▸ (Scanner.Onward.refl Scanner.whole_read).read.ahead
  · exact first ▸ List.suffix_rfl

theorem start_whole : (Scanner.start text).Whole := by
  unfold Scanner.start
  extract_lets s
  split <;> exact Scanner.whole_read

theorem start_lexical : (Scanner.start text).Lexical := by
  have first : Scanner.Lexical (Scanner.read ⟨text, none, 0, 0, 0, 1, 0, 0, Position.none, none⟩) :=
    Scanner.Lexical.read nofun
  unfold Scanner.start
  extract_lets s
  split
  · exact first.read
  · exact first

/-- Reading a text ends with the end of the text, with a fault or at a last quote. -/
theorem tokens_answers (text : List Glyph) :
    Lexer.Answers (Scanner.start text) (tokens text) := by
  refine Lexer.all_answers start_whole start_lexical ?_
  have ahead : (Scanner.start text).ahead <:+ text.map Glyph.shown := start_ahead
  have le := ahead.length_le
  rw [List.length_map] at le
  omega

namespace Lexer

theorem onward_passes {u : Scanner} (h : s.Whole) (path : Relation.ReflTransGen Passes s u) :
    Onward s u := by
  induction path with
  | refl => exact .refl h
  | tail _ step ih =>
    obtain ⟨t, read, -⟩ := step
    exact ih.trans (onward_next ih.whole read).1

theorem shown_eq_quote {g : Glyph} {q : Char} (hq : q = '"' ∨ q = '\'') (h : g.shown = q) :
    g = .char q := by
  cases g with
  | char c => exact congrArg Glyph.char h
  | stray b => rcases hq with rfl | rfl <;> cases h

/-- A reader that breaks does so on the last character of the text. -/
theorem getLast?_of_breaks (h : Breaks (Scanner.start text)) :
    text.getLast? = some (.char '"') ∨ text.getLast? = some (.char '\'') := by
  obtain ⟨u, path, last⟩ := h
  have onward := onward_passes start_whole path
  have ends := (onward_behindBlanks onward.whole).ahead.trans (onward.ahead.trans start_ahead)
  have glyph {q : Char} (hq : q = '"' ∨ q = '\'') (here : (behindBlanks u).ahead = [q]) :
      text.getLast? = some (.char q) := by
    obtain ⟨before, whole⟩ := ends
    have shown : text.getLast?.map Glyph.shown = some q := by
      rw [← List.getLast?_map, ← whole, here, List.getLast?_concat]
    obtain ⟨g, isLast, same⟩ := Option.map_eq_some_iff.mp shown
    rw [isLast, shown_eq_quote hq same]
  rcases last with here | here
  · exact .inl (glyph (.inl rfl) here)
  · exact .inr (glyph (.inr rfl) here)

end Lexer

end Text

end Weaver.Source
