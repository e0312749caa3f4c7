import Weaver.Proofs.Source.Fuel
import Mathlib.Data.List.Infix
import Mathlib.Tactic.IntervalCases
/-!
Text that is written between quotes and read again.

Every escape that is written is read as the character it was written for, whatever stands behind it,
with one exception. A NUL is written as a backslash and the digit zero, which is the beginning of an
octal escape, and such an escape goes on while there are octal digits, up to three in all. So a NUL
takes up to two octal digits behind it for its own. `reread` is what comes back, and it is the text
itself just if no NUL has an octal digit behind it.
-/
set_option autoImplicit false

namespace Weaver.Source

open Literal (escapeChar escape hexFour quoted)
open Escape (octal octal_length fourHex? step)

/-- The two quotes. -/
def IsQuote (c : Char) : Prop := c = '"' ∨ c = '\''

/-- The digits of octal escapes. -/
def isOctal (c : Char) : Bool := '0' ≤ c && c ≤ '7'

theorem isOctal_iff {c : Char} : isOctal c = true ↔ 48 ≤ c.toNat ∧ c.toNat ≤ 55 := by
  rw [isOctal, Bool.and_eq_true, decide_eq_true_eq, decide_eq_true_eq, Char.le_def, Char.le_def,
    UInt32.le_iff_toNat_le, UInt32.le_iff_toNat_le]
  rfl

/-- The text that is read where a text was written: a NUL and the octal digits behind it, at most
two, are read as one character. -/
def reread : List Char → List Char
  | [] => []
  | c :: rest =>
    if c = '\x00' then Char.ofNat (octal 2 0 rest).1 :: reread (octal 2 0 rest).2
    else c :: reread rest
termination_by s => s.length
decreasing_by
  · exact Nat.lt_succ_of_le (octal_length 2 0 rest)
  · exact Nat.lt_succ_self _

/-- Some NUL of the text has an octal digit behind it. -/
def NulTakes (s : List Char) : Prop := ∃ d, isOctal d = true ∧ ['\x00', d] <:+: s

/-- The text begins with a character that no octal escape before it goes on with. -/
def EndsOctal (l : List Char) : Prop := ∃ d more, l = d :: more ∧ isOctal d = false

/-! ## What is written for a character -/

section Written

variable {quote c : Char} {rest : List Char}

/-- An octal digit stands for itself. -/
theorem escapeChar_isOctal (hq : IsQuote quote) (digit : isOctal c = true) :
    escapeChar quote c = [c] := by
  obtain ⟨low, high⟩ := isOctal_iff.mp digit
  have back : Char.ofNat c.toNat = c := Char.ofNat_toNat c
  rw [← back]
  -- eight digits and two quotes are left
  rcases hq with rfl | rfl
  all_goals interval_cases c.toNat <;> rfl

/-- What is written for any other character ends the octal escape before it. -/
theorem escapeChar_head (quote : Char) (digit : isOctal c = false) :
    EndsOctal (escapeChar quote c) := by
  have escaped (more : List Char) : EndsOctal ('\\' :: more) := ⟨'\\', more, rfl, rfl⟩
  unfold escapeChar
  iterate 9 refine iteInduction (motive := EndsOctal) (fun _ => escaped _) fun _ => ?_
  exact ⟨c, [], rfl, digit⟩

theorem digits_hexFour : ∀ n < 128,
    (hexFour n).map Number.digitValue = [0, 0, n / 16, n % 16] ∧ (hexFour n).head? = some '0' := by
  decide

/-- Four hexadecimal digits are read as the number they were written for. -/
theorem fourHex?_hexFour {n : Nat} (low : n < 128) (rest : List Char) :
    fourHex? ((hexFour n ++ rest).dropWhile (· == 'u')) = some (n, rest) := by
  obtain ⟨values, first⟩ := digits_hexFour n low
  obtain ⟨a, b, c, d, digits⟩ : ∃ a b c d, hexFour n = [a, b, c, d] := ⟨_, _, _, _, rfl⟩
  rw [digits] at values first ⊢
  obtain rfl : a = '0' := Option.some.inj first
  simp only [List.map_cons, List.map_nil, List.cons.injEq, and_true] at values
  obtain ⟨ha, hb, hc, hd⟩ := values
  have high : n / 16 < 16 := by omega
  have small : n % 16 < 16 := by omega
  have whole : n / 16 * 16 + n % 16 = n := by omega
  have stays : ('0' == 'u') = false := rfl
  simp [fourHex?, stays, ha, hb, hc, hd, high, small, whole]

end Written

/-! ## Reading it again -/

section Read

variable {quote c d : Char} {n : Nat} {rest more : List Char}

/-- A character that opens no escape stands for itself. -/
theorem unescape_plain (plain : c ≠ '\\') :
    unescape (c :: rest) = (unescape rest).map (c :: ·) := by
  rw [unescape_cons, if_neg (by simpa using plain)]

/-- An escape stands for what it denotes. -/
theorem unescape_step (denotes : step rest = .ok (d, more)) :
    unescape ('\\' :: rest) = (unescape more).map (d :: ·) := by
  rw [unescape_cons, if_pos (beq_self_eq_true _), denotes]

theorem step_code (code : fourHex? (rest.dropWhile (· == 'u')) = some (n, more)) :
    step ('u' :: rest) = .ok (Escape.codeChar n, more) := by
  simp only [step, code]
  rfl

theorem octal_cons (max n : Nat) (c : Char) (rest : List Char) : octal (max + 1) n (c :: rest) =
    if isOctal c = true then octal max (n * 8 + (c.toNat - 48)) rest else (n, c :: rest) :=
  rfl

/-- The digits that an octal escape takes of a written text are those it takes of the text. -/
theorem octal_escape (hq : IsQuote quote) (max n : Nat) (s : List Char) :
    octal max n (escape quote s) = ((octal max n s).1, escape quote (octal max n s).2) := by
  induction max generalizing n s with
  | zero => rw [octal, octal]
  | succ max ih =>
    cases s with
    | nil => rfl
    | cons c s =>
      rw [octal_cons]
      by_cases digit : isOctal c = true
      · rw [escape, List.flatMap_cons, escapeChar_isOctal hq digit, List.singleton_append,
          octal_cons, if_pos digit, if_pos digit]
        exact ih _ s
      · rw [if_neg digit]
        obtain ⟨d, more, written, other⟩ :=
          escapeChar_head quote (Bool.eq_false_iff.mpr digit)
        rw [escape, List.flatMap_cons, written, List.cons_append, octal_cons,
          if_neg (Bool.eq_false_iff.mp other)]

/-- A NUL is read with the octal digits behind it. -/
theorem unescape_nul (hq : IsQuote quote) (s : List Char) :
    unescape (escape quote ('\x00' :: s)) =
      (unescape (escape quote (octal 2 0 s).2)).map (Char.ofNat (octal 2 0 s).1 :: ·) := by
  have denotes : step ('0' :: escape quote s) =
      .ok (Char.ofNat (octal 2 0 (escape quote s)).1, (octal 2 0 (escape quote s)).2) := rfl
  rw [octal_escape hq] at denotes
  exact unescape_step denotes

/-- What is written is read as a character, with this text behind it. -/
def ReadsAs (c : Char) (rest written : List Char) : Prop :=
  unescape (written ++ rest) = (unescape rest).map (c :: ·)

/-- Any other character is read as it was written. -/
theorem unescape_escapeChar (hq : IsQuote quote) (other : c ≠ '\x00') :
    ReadsAs c rest (escapeChar quote c) := by
  unfold escapeChar
  -- the first six are written by a letter or a backslash of their own
  refine iteInduction (motive := ReadsAs c rest) (fun here => ?_) fun backslash => ?_
  · obtain rfl := eq_of_beq here
    exact unescape_step rfl
  iterate 5
    refine iteInduction (motive := ReadsAs c rest) (fun here => ?_) fun _ => ?_
    · obtain rfl := eq_of_beq here
      exact unescape_step rfl
  refine iteInduction (motive := ReadsAs c rest) (fun nul => absurd (eq_of_beq nul) other) fun _ => ?_
  refine iteInduction (motive := ReadsAs c rest) (fun here => ?_) fun _ => ?_
  · obtain rfl := eq_of_beq here
    rcases hq with rfl | rfl <;> exact unescape_step rfl
  refine iteInduction (motive := ReadsAs c rest) (fun control => ?_) fun _ => ?_
  · -- the remaining control characters are written by their number
    simp only [Bool.or_eq_true, decide_eq_true_eq, beq_iff_eq] at control
    have low : c.toNat < 128 := by omega
    have denotes := step_code (fourHex?_hexFour low rest)
    have char : Escape.codeChar c.toNat = c := by
      have scalar : ¬ (0xD800 ≤ c.toNat ∧ c.toNat ≤ 0xDFFF) := by omega
      simp [Escape.codeChar, scalar]
    rw [char] at denotes
    exact unescape_step denotes
  · exact unescape_plain (by simpa using backslash)

/-- What is read where a text was written. -/
theorem unescape_escape (hq : IsQuote quote) (s : List Char) :
    unescape (escape quote s) = .ok (reread s) := by
  fun_induction reread s with
  | case1 => rfl
  | case2 rest ih =>
    rw [unescape_nul hq, ih]
    rfl
  | case3 c rest other ih =>
    rw [escape, List.flatMap_cons, unescape_escapeChar hq other]
    rw [escape] at ih
    rw [ih]
    rfl

end Read

/-! ## What comes back -/

theorem length_reread (s : List Char) : (reread s).length ≤ s.length := by
  fun_induction reread s with
  | case1 => exact Nat.le_refl _
  | case2 rest ih =>
    have taken := octal_length 2 0 rest
    rw [List.length_cons, List.length_cons]
    omega
  | case3 c rest other ih =>
    rw [List.length_cons, List.length_cons]
    omega

theorem not_nulTakes_nil : ¬ NulTakes [] := by
  rintro ⟨d, -, infix_⟩
  exact absurd (List.infix_nil.mp infix_) (List.cons_ne_nil _ _)

/-- The first character is a NUL with an octal digit behind it, or one of the others is. -/
theorem nulTakes_cons {c : Char} {rest : List Char} :
    NulTakes (c :: rest) ↔ (c = '\x00' ∧ rest.head?.any isOctal = true) ∨ NulTakes rest := by
  constructor
  · rintro ⟨d, digit, infix_⟩
    rcases List.infix_cons_iff.mp infix_ with first | later
    · obtain ⟨nul, first⟩ := List.cons_prefix_cons.mp first
      obtain ⟨more, rfl⟩ := first
      exact .inl ⟨nul.symm, digit⟩
    · exact .inr ⟨d, digit, later⟩
  · rintro (⟨rfl, digit⟩ | ⟨d, digit, later⟩)
    · cases rest with
      | nil => cases digit
      | cons d more => exact ⟨d, digit, (List.prefix_append ['\x00', d] more).isInfix⟩
    · exact ⟨d, digit, List.infix_cons_iff.mpr (.inr later)⟩

/-- An octal escape without a digit behind it ends there. -/
theorem octal_of_head {rest : List Char} (none : rest.head?.any isOctal = false) (max n : Nat) :
    octal max n rest = (n, rest) := by
  cases max with
  | zero => rw [octal]
  | succ max =>
    cases rest with
    | nil => rfl
    | cons c more =>
      have other : ¬ isOctal c = true := Bool.eq_false_iff.mp none
      rw [octal_cons, if_neg other]

/-- A digit behind it is taken. -/
theorem octal_length_lt {rest : List Char} (digit : rest.head?.any isOctal = true) (max n : Nat) :
    (octal (max + 1) n rest).2.length < rest.length := by
  cases rest with
  | nil => cases digit
  | cons c more =>
    have first : isOctal c = true := digit
    rw [octal_cons, if_pos first]
    exact Nat.lt_succ_of_le (octal_length _ _ _)

/-- The text comes back just if no NUL has an octal digit behind it. A NUL that has one takes it, so
that fewer characters come back. -/
theorem reread_eq_iff (s : List Char) : reread s = s ↔ ¬ NulTakes s := by
  fun_induction reread s with
  | case1 => exact iff_of_true rfl not_nulTakes_nil
  | case2 rest ih =>
    rw [nulTakes_cons]
    by_cases digit : rest.head?.any isOctal = true
    · refine iff_of_false ?_ (not_not_intro (.inl ⟨rfl, digit⟩))
      intro same
      have back := congrArg List.length same
      have fewer := length_reread (octal 2 0 rest).2
      have taken : (octal 2 0 rest).2.length < rest.length := octal_length_lt digit 1 0
      rw [List.length_cons, List.length_cons] at back
      omega
    · rw [Bool.not_eq_true] at digit
      rw [octal_of_head digit] at ih ⊢
      simp [ih, digit]
  | case3 c rest other ih => simp [nulTakes_cons, other, ih]

/-- **What comes back of quoted text.** Taking the quotes off a quoted text and resolving its escapes
succeeds for every text. It gives the text back just if no NUL in it has an octal digit behind it;
in any case it gives what `reread` says. -/
theorem unescape_quoted {quote : Char} (hq : IsQuote quote) (s : List Char) :
    unescape ((quoted quote s).toList.drop 1).dropLast = .ok (reread s) ∧
      (reread s = s ↔ ¬ NulTakes s) := by
  have inside : ((quoted quote s).toList.drop 1).dropLast = escape quote s := by
    rw [quoted, String.toList_ofList, List.drop_one, List.tail_cons, List.dropLast_concat]
  rw [inside]
  exact ⟨unescape_escape hq s, reread_eq_iff s⟩

/-- Quotes, backslashes and control characters, and NULs without a digit behind them. -/
def oddities : List Char := ['\'', '"', '\\', 'u', '\x01', '0', '\x00', 'n', '\x00', '\x00']

/-- All of them come back. -/
theorem unescape_quoted_oddities :
    IsQuote '\'' ∧ unescape ((quoted '\'' oddities).toList.drop 1).dropLast = .ok oddities := by
  have hq : IsQuote '\'' := .inr rfl
  have plain : ¬ NulTakes oddities := by
    simp [oddities, nulTakes_cons, not_nulTakes_nil, isOctal]
  obtain ⟨read, back⟩ := unescape_quoted hq oddities
  exact ⟨hq, by rw [read, back.mpr plain]⟩

/-- A NUL and the digit one are written as one octal escape, and come back as one character. -/
theorem unescape_quoted_nul :
    unescape ((quoted '"' ['\x00', '1']).toList.drop 1).dropLast = .ok ['\x01'] ∧
      (['\x01'] : List Char) ≠ ['\x00', '1'] := by
  decide

end Weaver.Source
