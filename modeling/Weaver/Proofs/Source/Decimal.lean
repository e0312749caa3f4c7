import Weaver.Proofs.Source.Integer
/-!
Integer constants as they are written.

A constant is written in base ten, whatever base it was read in. What is written is a literal of the
language, and the only one with this text.
-/
set_option autoImplicit false

namespace Weaver.Source

open Nat (toDigits digitChar)

/-! ## Digits in base ten -/

theorem digitValue_digitChar {n : Nat} (h : n < 10) :
    Number.digitValue (digitChar n) = n ∧ digitChar n ≠ '_' := by
  have table : ∀ d < 10, Number.digitValue (digitChar d) = d ∧ digitChar d ≠ '_' := by decide
  exact table n h

theorem spelled_concat {base : Nat} (cs : List Char) {c : Char} (hc : c ≠ '_') :
    spelled base (cs ++ [c]) = spelled base cs * base + Number.digitValue c := by
  have digit : [c].filter (· ≠ '_') = [c] := List.filter_cons_of_pos (by simpa using hc)
  rw [spelled, List.filter_append, digit, List.foldl_concat, spelled]

/-- The digits of a number in base ten are digits and spell it. They begin with zero only if they are
zero. -/
theorem toDigits_ten (n : Nat) : (∀ c ∈ toDigits 10 n, c ≠ '_' ∧ Number.digitValue c < 10) ∧
    spelled 10 (toDigits 10 n) = n ∧
    ((toDigits 10 n).head? = some '0' → toDigits 10 n = ['0']) := by
  induction n using Nat.strong_induction_on with
  | _ n ih =>
    rw [Nat.toDigits_eq_if (by decide)]
    by_cases small : n < 10
    · obtain ⟨value, other⟩ := digitValue_digitChar small
      rw [if_pos small]
      refine ⟨?_, ?_, ?_⟩
      · simpa [value, other] using small
      · rw [← List.nil_append [digitChar n], spelled_concat [] other, value]
        exact Nat.zero_add n
      · intro zero
        rw [Option.some.inj zero]
    · have last : n % 10 < 10 := Nat.mod_lt _ (by decide)
      obtain ⟨value, other⟩ := digitValue_digitChar last
      obtain ⟨digits, spells, first⟩ := ih (n / 10) (by omega)
      rw [if_neg small]
      refine ⟨?_, ?_, ?_⟩
      · intro c member
        rcases List.mem_append.mp member with front | back
        · exact digits c front
        · rw [List.mem_singleton.mp back, value]
          exact ⟨other, last⟩
      · rw [spelled_concat _ other, spells, value]
        omega
      · intro zero
        exfalso
        rw [List.head?_append_of_ne_nil _ Nat.toDigits_ne_nil] at zero
        rw [first zero] at spells
        have none : n / 10 = 0 := spells.symm
        omega

/-! ## The written literal -/

namespace IntegerLiteral

/-- The literal in base ten with the given number. -/
def ofNat (n : Nat) (long : Bool) : IntegerLiteral where
  radix := .decimal
  capital := false
  digits := toDigits 10 n
  suffix := if long then some 'L' else none
  inBase c member := .inr ((toDigits_ten n).1 c member).2
  last := by
    obtain ⟨c, last⟩ : ∃ c, (toDigits 10 n).getLast? = some c :=
      ⟨_, List.getLast?_eq_some_getLast Nat.toDigits_ne_nil⟩
    exact ⟨c, last, ((toDigits_ten n).1 c (List.mem_of_getLast? last)).1⟩
  first _ first := ((toDigits_ten n).1 '_' (List.mem_of_head? first)).1 rfl
  zero _ := (toDigits_ten n).2.2
  suffixed := by
    intro c member
    cases long with
    | true => exact .inr (Option.some.inj member).symm
    | false => cases member

theorem value_ofNat (n : Nat) (long : Bool) : (ofNat n long).value = n := (toDigits_ten n).2.1

theorem isLong_ofNat (n : Nat) (long : Bool) : (ofNat n long).isLong = long := by
  cases long <;> rfl

/-- It is what is written for a constant. -/
theorem text_ofNat (n : Nat) (long : Bool) :
    (ofNat n long).text = (if long then Literal.long n else Literal.int n : Literal).print := by
  have number : (toString (n : Int)).toList = toDigits 10 n := Nat.toList_repr
  rw [← String.toList_inj, text, String.toList_ofList]
  cases long with
  | true =>
    change toDigits 10 n ++ ['L'] = (toString (n : Int) ++ "L").toList
    rw [String.toList_append, number]
    rfl
  | false =>
    change toDigits 10 n ++ [] = (toString (n : Int)).toList
    rw [List.append_nil, number]

/-- No other literal is written in this way. -/
theorem eq_of_text {j : IntegerLiteral} {n : Nat} (h : j.text = (ofNat n false).text) :
    j.radix = .decimal ∧ j.value = n ∧ j.isLong = false := by
  obtain ⟨digits, spells, zero⟩ := toDigits_ten n
  have whole : j.numeral ++ j.suffix.toList = toDigits 10 n := by
    have chars := congrArg String.toList h
    rw [text, text, String.toList_ofList, String.toList_ofList] at chars
    exact chars.trans (List.append_nil _)
  have low : ∀ c ∈ j.numeral ++ j.suffix.toList, Number.digitValue c < 10 := by
    rw [whole]
    exact fun c member => (digits c member).2
  -- the letter of a long number or of a base would be no digit
  have suffix : j.suffix = none := by
    refine Option.eq_none_iff_forall_not_mem.mpr fun c member => ?_
    have small := low c (List.mem_append_right _ (Option.mem_toList.mpr member))
    rcases j.suffixed c member with rfl | rfl <;> revert small <;> decide
  have isLong : j.isLong = false := by rw [IntegerLiteral.isLong, suffix]; rfl
  rw [suffix, Option.toList_none, List.append_nil] at whole low
  have opening : ∀ c ∈ j.radix.opening j.capital, Number.digitValue c < 10 :=
    fun c member => low c (List.mem_append_left _ member)
  have some_ : j.digits ≠ [] := by
    obtain ⟨c, cs, same⟩ := j.digits_cons
    rw [same]
    exact List.cons_ne_nil c cs
  cases radix : j.radix with
  | decimal =>
    rw [numeral, radix] at whole
    change j.digits = toDigits 10 n at whole
    refine ⟨rfl, ?_, isLong⟩
    rw [value, radix, whole]
    exact spells
  | octal =>
    rw [numeral, radix] at whole
    change '0' :: j.digits = toDigits 10 n at whole
    have alone := zero (by rw [← whole]; rfl)
    rw [← whole] at alone
    exact absurd (List.cons.inj alone).2 some_
  | hexadecimal | binary =>
    rw [radix] at opening
    revert opening
    cases j.capital <;> intro opening <;>
      exact absurd (opening _ (.tail _ (.head _))) (by decide)

end IntegerLiteral

end Weaver.Source
