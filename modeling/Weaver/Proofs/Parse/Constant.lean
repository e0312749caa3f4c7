import Weaver.Proofs.Source.Decimal
import Weaver.Proofs.Parse.Steps
import Weaver.Parse.Unit
/-!
Integer literals from one text to the next.

A literal is read as a constant, and the constant is written in base ten without its sign. That keeps
the number a program computes with as long as the number that the digits spell is not negative in
two's complement: a pattern of bits of another base with the sign set is written as a number that no
literal may have.
-/
set_option autoImplicit false

namespace Weaver.Parse

open Weaver.Source (Token IntegerLiteral Literal LexFailure)
open Weaver.Syntax (Tree Mark UnaryOp)
open Weaver.Text (Glyph)

/-! ## Reading a constant -/

section Reading

variable {t m e : Token} {l : Literal} {text : List Glyph}

/-- A text of one literal is the node of its constant. -/
theorem expressionOf_literal (all : Source.tokens text = .ok [t, e]) (literal : t.kind = .literal l)
    (ended : e.kind = .endOfFile) : expressionOf text = .ok (.literal (markOf t) l) := by
  obtain ⟨kind, word, pos, offset⟩ := t
  obtain ⟨kind', word', pos', offset'⟩ := e
  obtain rfl : kind = .literal l := literal
  obtain rfl : kind' = .endOfFile := ended
  rw [expressionOf, run, all]
  rfl

/-- Under a minus sign it is the operand. -/
theorem expressionOf_negated (all : Source.tokens text = .ok [m, t, e]) (operator : m.kind = .operator)
    (sign : m.text = "-") (literal : t.kind = .literal l) (ended : e.kind = .endOfFile) :
    expressionOf text = .ok (.unary (markOf m) .minus (.literal (markOf t) l)) := by
  obtain ⟨kind, word, pos, offset⟩ := t
  obtain ⟨kind', word', pos', offset'⟩ := e
  obtain ⟨kind'', word'', pos'', offset''⟩ := m
  obtain rfl : kind = .literal l := literal
  obtain rfl : kind' = .endOfFile := ended
  obtain rfl : kind'' = .operator := operator
  obtain rfl : word'' = "-" := sign
  rw [expressionOf, run, all]
  rfl

theorem expressionOf_error {f : LexFailure} (all : Source.tokens text = .error f) :
    expressionOf text = .error f := by
  rw [expressionOf, run, all]
  rfl

end Reading

/-! ## Writing it again -/

/-- The literal as an expression, under a minus sign or not. -/
def source (negated : Bool) (i : IntegerLiteral) : List Glyph :=
  Glyph.ofString (if negated then "-" ++ i.text else i.text)

/-- The text is read as the constant, alone or as the operand of a minus sign. -/
def ReadsConstant (negated : Bool) (text : List Glyph) (l : Literal) : Prop :=
  ∃ m m', expressionOf text =
    .ok (if negated then .unary m .minus (.literal m' l) else .literal m' l)

/-- The literal is read, and what is written for the constant is a literal that may stand in its
place, of the same type and for the same number. -/
def KeepsValue (negated : Bool) (i : IntegerLiteral) : Prop :=
  ∃ l, ReadsConstant negated (source negated i) l ∧
    ∃ j : IntegerLiteral, j.text = l.print ∧ j.Admissible negated ∧ j.isLong = i.isLong ∧
      j.word = i.word

/-- The digits spell a number that a decimal literal may have; one of type `long` has to be positive
whether a minus sign stands in front or not. -/
def InRange (negated : Bool) (i : IntegerLiteral) : Prop :=
  i.value < i.half ∨ (i.isLong = false ∧ negated = true ∧ i.value = i.half)

section Writing

variable {negated : Bool} {i : IntegerLiteral} {l : Literal}

/-- A literal is read as the constant with its number, or not at all. -/
theorem reads_integer :
    (i.Spaced ∧ i.value ≤ Number.maxLong → ReadsConstant negated (source negated i) i.constant) ∧
    (¬ (i.Spaced ∧ i.value ≤ Number.maxLong) → ¬ ReadsConstant negated (source negated i) l) := by
  cases negated with
  | false =>
    obtain ⟨good, bad⟩ := i.tokens_integer
    refine ⟨fun right => ?_, fun wrong => ?_⟩
    · obtain ⟨t, e, all, literal, ended⟩ := good right
      exact ⟨markOf t, markOf t, expressionOf_literal all literal ended⟩
    · rintro ⟨m, m', read⟩
      obtain ⟨f, all⟩ := bad wrong
      have failed : expressionOf (source false i) = .error f := expressionOf_error all
      rw [failed] at read
      cases read
  | true =>
    obtain ⟨good, bad⟩ := i.tokens_negated
    refine ⟨fun right => ?_, fun wrong => ?_⟩
    · obtain ⟨m, t, e, all, operator, sign, literal, ended⟩ := good right
      exact ⟨markOf m, markOf t, expressionOf_negated all operator sign literal ended⟩
    · rintro ⟨m, m', read⟩
      obtain ⟨f, all⟩ := bad wrong
      have failed : expressionOf (source true i) = .error f := expressionOf_error all
      rw [failed] at read
      cases read

/-- A text is read as one constant. -/
theorem ReadsConstant.unique {text : List Glyph} {l' : Literal} (h : ReadsConstant negated text l)
    (h' : ReadsConstant negated text l') : l = l' := by
  obtain ⟨m, n, read⟩ := h
  obtain ⟨m', n', read'⟩ := h'
  have same := Except.ok.inj (read.symm.trans read')
  cases negated with
  | false => exact (Tree.literal.inj same).2
  | true => exact (Tree.literal.inj (Tree.unary.inj same).2.2).2

theorem maxLong_lt : Number.maxLong < 2 ^ 63 ∧ 2 ^ 63 ≤ Number.maxLong + 1 := by decide

/-- What is written for the constant of a literal. -/
theorem print_constant (i : IntegerLiteral) :
    i.constant.print = (IntegerLiteral.ofNat i.value i.isLong).text := by
  rw [IntegerLiteral.text_ofNat, IntegerLiteral.constant]

theorem admissible_ofNat (h : InRange negated i) :
    (IntegerLiteral.ofNat i.value i.isLong).Admissible negated := by
  have value := IntegerLiteral.value_ofNat i.value i.isLong
  have half : (IntegerLiteral.ofNat i.value i.isLong).half = i.half := by
    rw [IntegerLiteral.half, IntegerLiteral.isLong_ofNat, IntegerLiteral.half]
  have decimal : (IntegerLiteral.ofNat i.value i.isLong).radix = .decimal := rfl
  rw [IntegerLiteral.Admissible, if_pos decimal, value, half]
  exact h.imp id And.right

theorem word_ofNat (i : IntegerLiteral) :
    (IntegerLiteral.ofNat i.value i.isLong).word = i.word := by
  rw [IntegerLiteral.word, IntegerLiteral.value_ofNat, IntegerLiteral.isLong_ofNat,
    IntegerLiteral.word]

theorem value_le_of_inRange (h : InRange negated i) : i.value ≤ Number.maxLong := by
  have top := maxLong_lt.2
  have low : i.half ≤ 2 ^ 63 ∧ (i.isLong = false → i.half < 2 ^ 63) := by
    rw [IntegerLiteral.half]
    cases i.isLong <;> decide
  rcases h with small | ⟨int, -, same⟩
  · omega
  · have strict := low.2 int
    omega

/-- A literal in range is written as itself in base ten. -/
theorem keepsValue_of_inRange (spaced : i.Spaced) (range : InRange negated i) :
    KeepsValue negated i := by
  have read : ReadsConstant negated (source negated i) i.constant :=
    (reads_integer (l := .null)).1 ⟨spaced, value_le_of_inRange range⟩
  exact ⟨i.constant, read, .ofNat i.value i.isLong, (print_constant i).symm, admissible_ofNat range,
    IntegerLiteral.isLong_ofNat i.value i.isLong, word_ofNat i⟩

/-- Only such a literal is. -/
theorem inRange_of_keepsValue (h : KeepsValue negated i) : i.Spaced ∧ InRange negated i := by
  obtain ⟨l, read, j, text, admissible, type, -⟩ := h
  have right : i.Spaced ∧ i.value ≤ Number.maxLong := by
    by_contra wrong
    exact reads_integer.2 wrong read
  obtain rfl := read.unique (reads_integer (l := l).1 right)
  refine ⟨right.1, ?_⟩
  by_cases long : i.isLong = true
  · have top := maxLong_lt.1
    have small := right.2
    left
    rw [IntegerLiteral.half, if_pos long]
    omega
  · rw [Bool.not_eq_true] at long
    rw [print_constant, long] at text
    obtain ⟨radix, value, int⟩ := IntegerLiteral.eq_of_text text
    have half : j.half = i.half := by rw [IntegerLiteral.half, type, IntegerLiteral.half]
    rw [IntegerLiteral.Admissible, if_pos radix, value, half] at admissible
    exact admissible.imp id fun both => ⟨long, both⟩

end Writing

/-- **Integer literals from one text to the next.** A literal keeps its type and its number just if no
underscore follows another one in it and its digits spell a number in range. So the literals of the
language that do not keep it are those with two underscores in a row, those of other bases that are
negative in two's complement, and the least number of type `long`. -/
theorem keepsValue_iff (negated : Bool) (i : IntegerLiteral) :
    KeepsValue negated i ↔ i.Spaced ∧ InRange negated i :=
  ⟨inRange_of_keepsValue, fun ⟨spaced, range⟩ => keepsValue_of_inRange spaced range⟩

/-- The pattern of 32 bits that are all set. -/
def allOnes : IntegerLiteral where
  radix := .hexadecimal
  capital := false
  digits := ['F', 'F', 'F', 'F', 'F', 'F', 'F', 'F']
  suffix := none
  inBase := by
    simp only [List.forall_mem_cons, List.not_mem_nil, false_implies, implies_true, and_true]
    decide
  last := ⟨'F', rfl, by decide⟩
  first _ := by decide
  zero := nofun
  suffixed := nofun

/-- Ten with two underscores. -/
def spreadTen : IntegerLiteral where
  radix := .decimal
  capital := false
  digits := ['1', '_', '_', '0']
  suffix := none
  inBase := by
    simp only [List.forall_mem_cons, List.not_mem_nil, false_implies, implies_true, and_true]
    decide
  last := ⟨'0', rfl, by decide⟩
  first _ := by decide
  zero := nofun
  suffixed := nofun

/-- All these may stand in a program, and none of them keeps its number: minus one written in
hexadecimal digits, the least number of type `long`, and ten with two underscores. -/
theorem admissible_not_kept :
    (allOnes.Admissible false ∧ ¬ KeepsValue false allOnes) ∧
    ((IntegerLiteral.ofNat (2 ^ 63) true).Admissible true ∧
      ¬ KeepsValue true (.ofNat (2 ^ 63) true)) ∧
    (spreadTen.Admissible false ∧ ¬ KeepsValue false spreadTen) := by
  have least : (IntegerLiteral.ofNat (2 ^ 63) true).value = 2 ^ 63 := IntegerLiteral.value_ofNat ..
  refine ⟨⟨?_, fun kept => ?_⟩, ⟨?_, fun kept => ?_⟩, ?_, fun kept => ?_⟩
  · unfold IntegerLiteral.Admissible
    decide
  · have range := (inRange_of_keepsValue kept).2
    revert range
    unfold InRange
    decide
  · have decimal : (IntegerLiteral.ofNat (2 ^ 63) true).radix = .decimal := rfl
    rw [IntegerLiteral.Admissible, if_pos decimal, least]
    exact .inr ⟨rfl, rfl⟩
  · rcases (inRange_of_keepsValue kept).2 with small | ⟨int, -⟩
    · rw [least] at small
      exact Nat.lt_irrefl _ small
    · cases int
  · unfold IntegerLiteral.Admissible
    decide
  · have spaced := (inRange_of_keepsValue kept).1
    exact spaced ⟨['1'], ['0'], rfl⟩

end Weaver.Parse
