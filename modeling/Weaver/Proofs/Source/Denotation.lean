import Weaver.Proofs.Source.Quoting
import Mathlib.Data.List.TakeWhile
/-!
What a literal denotes in the language, and what is read of it.

The language takes a literal apart in two turns. First the four digit codes of the whole text become
UTF-16 code units, beside those of the other characters; then the escape sequences of these units are
resolved, and an octal escape takes every digit that is there by then. The reader makes one turn over
the characters and resolves codes and escapes as it meets them. Both come to the same units but for
two cases: a code that is half of a surrogate pair is no character, and a digit that is written as a
code is not taken by the octal escape before it.
-/
set_option autoImplicit false

namespace Weaver.Source

open Escape (octal octal_length fourHex? step codeChar)

/-! ## Code units -/

/-- A code unit of a text, with a note whether a four digit code gave it. -/
structure CodeUnit where
  value : Nat
  coded : Bool
deriving Repr, DecidableEq

/-- The code units of a character: one, or a surrogate pair. -/
def utf16 (c : Char) : List Nat :=
  if c.toNat < 0x10000 then [c.toNat]
  else [0xD800 + (c.toNat - 0x10000) / 0x400, 0xDC00 + (c.toNat - 0x10000) % 0x400]

/-- The code units of a text. -/
def encode (cs : List Char) : List Nat := cs.flatMap utf16

/-- The value of a hexadecimal digit. -/
def hexValue? (c : Char) : Option Nat :=
  if '0' ≤ c ∧ c ≤ '9' then some (c.toNat - '0'.toNat)
  else if 'a' ≤ c ∧ c ≤ 'f' then some (c.toNat - 'a'.toNat + 10)
  else if 'A' ≤ c ∧ c ≤ 'F' then some (c.toNat - 'A'.toNat + 10)
  else none

/-- The units of a character that is written as it is. -/
def raw (c : Char) : List CodeUnit := (utf16 c).map (⟨·, false⟩)

mutual

/-- The first turn. A backslash with one or more letters `u` and four hexadecimal digits is the unit
of that number. A backslash that follows a backslash begins no code. -/
def units : List Char → Option (List CodeUnit)
  | [] => some []
  | '\\' :: 'u' :: rest => unitsOfCode rest
  | '\\' :: c :: rest => (units rest).map fun us => raw '\\' ++ raw c ++ us
  | c :: rest => (units rest).map fun us => raw c ++ us

/-- The rest of a code, behind its first `u`. -/
def unitsOfCode : List Char → Option (List CodeUnit)
  | 'u' :: rest => unitsOfCode rest
  | a :: b :: c :: d :: rest =>
    match hexValue? a, hexValue? b, hexValue? c, hexValue? d with
    | some i, some j, some k, some l =>
      (units rest).map (⟨((i * 16 + j) * 16 + k) * 16 + l, true⟩ :: ·)
    | _, _, _, _ => none
  | _ => none

end

example : units ['a', '\\', 'u', 'u', '0', '0', '4', 'A', '\\', '\\', 'u'] =
    some [⟨97, false⟩, ⟨74, true⟩, ⟨92, false⟩, ⟨92, false⟩, ⟨117, false⟩] := by decide

/-! ## Escape sequences -/

/-- The escapes of one character, by the units of the character and of what it denotes. -/
def letterEscapes : List (Nat × Nat) :=
  [('b', '\x08'), ('t', '\t'), ('n', '\n'), ('f', '\x0c'), ('r', '\r'), ('"', '"'), ('\'', '\''),
    ('\\', '\\')].map fun (e, c) => (e.toNat, c.toNat)

/-- The unit is an octal digit. -/
def CodeUnit.isDigit (u : CodeUnit) : Bool := 48 ≤ u.value && u.value ≤ 55

/-- The octal digits at the beginning that belong to one escape: as many as there are, but at most
three, and at most two if the first is above three. -/
def octalRun : List CodeUnit → List CodeUnit
  | [] => []
  | u :: us => ((u :: us).take (if u.value ≤ 51 then 3 else 2)).takeWhile CodeUnit.isDigit

/-- The number that octal digits spell. -/
def octalNumber (run : List CodeUnit) : Nat := run.foldl (fun n u => n * 8 + (u.value - 48)) 0

/-- The second turn. The units between two quotes denote units; the third list has the digits of all
octal escapes. -/
inductive Denotes (quote : Char) : List CodeUnit → List Nat → List CodeUnit → Prop where
  | done : Denotes quote [] [] []
  /-- A unit stands for itself if it is no backslash, does not end the line and does not end the
  literal. -/
  | plain {u : CodeUnit} {us : List CodeUnit} {vs : List Nat} {ds : List CodeUnit}
      (hu : u.value ∉ [quote.toNat, 92, 10, 13]) (h : Denotes quote us vs ds) :
      Denotes quote (u :: us) (u.value :: vs) ds
  | letter {b e : CodeUnit} {us : List CodeUnit} {v : Nat} {vs : List Nat} {ds : List CodeUnit}
      (hb : b.value = 92) (he : (e.value, v) ∈ letterEscapes) (h : Denotes quote us vs ds) :
      Denotes quote (b :: e :: us) (v :: vs) ds
  | octal {b : CodeUnit} {us : List CodeUnit} {vs : List Nat} {ds : List CodeUnit}
      (hb : b.value = 92) (hr : octalRun us ≠ [])
      (h : Denotes quote (us.drop (octalRun us).length) vs ds) :
      Denotes quote (b :: us) (octalNumber (octalRun us) :: vs) (octalRun us ++ ds)

/-- The unit is half of a surrogate pair. -/
def CodeUnit.IsSurrogate (u : CodeUnit) : Prop := 0xD800 ≤ u.value ∧ u.value ≤ 0xDFFF

/-- Codes that the reader resolves as the language does: none is half of a surrogate pair, and none
is a digit that the escape before it takes. -/
def Ordinary (us ds : List CodeUnit) : Prop :=
  (∀ u ∈ us, u.coded = true → ¬ u.IsSurrogate) ∧ ∀ d ∈ ds, d.coded = false

/-! ## The units of what comes first in a text -/

section First

variable {c : Char} {rest more : List Char} {us : List CodeUnit} {n : Nat}

theorem utf16_low (low : c.toNat < 0x10000) : utf16 c = [c.toNat] := by
  rw [utf16, if_pos low]

theorem raw_low (low : c.toNat < 0x10000) : raw c = [⟨c.toNat, false⟩] := by
  rw [raw, utf16_low low, List.map_singleton]

theorem toNat_ofNat (valid : n.isValidChar) : (Char.ofNat n).toNat = n := by
  rw [Char.ofNat, dif_pos valid]
  rfl

theorem units_plain (plain : c ≠ '\\') :
    units (c :: rest) = (units rest).map fun us => raw c ++ us := by
  rw [units]
  · exact fun _ h _ => plain h
  · exact fun _ _ h _ => plain h

theorem units_escape (other : c ≠ 'u') :
    units ('\\' :: c :: rest) = (units rest).map fun us => raw '\\' ++ raw c ++ us := by
  rw [units]
  exact other

theorem hexValue?_digit {i : Nat} (h : hexValue? c = some i) :
    Number.digitValue c = i ∧ i < 16 := by
  unfold hexValue? at h
  split_ifs at h with decimal small capital
  · obtain rfl := Option.some.inj h
    have high : c.toNat ≤ '9'.toNat := decimal.2
    have nine : '9'.toNat = 57 := rfl
    have zero : '0'.toNat = 48 := rfl
    simp only [Number.digitValue, decimal, decide_true, Bool.and_self, if_true]
    omega
  · obtain rfl := Option.some.inj h
    have low : 'a'.toNat ≤ c.toNat := small.1
    have high : c.toNat ≤ 'f'.toNat := small.2
    have bounds : 'a'.toNat = 97 ∧ 'f'.toNat = 102 := ⟨rfl, rfl⟩
    have other : (decide ('0' ≤ c) && decide (c ≤ '9')) = false := by simpa using decimal
    simp only [Number.digitValue, other, small, decide_true, Bool.and_self, if_true,
      Bool.false_eq_true, if_false]
    omega
  · obtain rfl := Option.some.inj h
    have low : 'A'.toNat ≤ c.toNat := capital.1
    have high : c.toNat ≤ 'F'.toNat := capital.2
    have bounds : 'A'.toNat = 65 ∧ 'F'.toNat = 70 := ⟨rfl, rfl⟩
    have other : (decide ('0' ≤ c) && decide (c ≤ '9')) = false := by simpa using decimal
    have other' : (decide ('a' ≤ c) && decide (c ≤ 'f')) = false := by simpa using small
    simp only [Number.digitValue, other, other', capital, decide_true, Bool.and_self, if_true,
      Bool.false_eq_true, if_false]
    omega

/-- A code that the language reads is read as the same number. -/
theorem code_of_units (h : unitsOfCode rest = some us) :
    ∃ n more us', fourHex? (rest.dropWhile (· == 'u')) = some (n, more) ∧ n < 0x10000 ∧
      more.length < rest.length ∧ units more = some us' ∧ us = ⟨n, true⟩ :: us' := by
  induction rest with
  | nil =>
    rw [unitsOfCode] at h
    cases h
    all_goals nofun
  | cons a rest ih =>
    by_cases letter : a = 'u'
    · subst letter
      rw [unitsOfCode] at h
      obtain ⟨n, more, us', code, bound, shorter, behind, whole⟩ := ih h
      exact ⟨n, more, us', code, bound, Nat.lt_succ_of_lt shorter, behind, whole⟩
    · have stays : (a :: rest).dropWhile (· == 'u') = a :: rest := by simp [letter]
      rw [stays]
      match rest with
      | [] | [b] | [b, c] => simp [unitsOfCode, letter] at h
      | b :: c :: d :: more =>
        simp only [unitsOfCode] at h
        split at h
        · next i j k l ha hb hc hd =>
          obtain ⟨us', behind, rfl⟩ := Option.map_eq_some_iff.mp h
          obtain ⟨ha, hi⟩ := hexValue?_digit ha
          obtain ⟨hb, hj⟩ := hexValue?_digit hb
          obtain ⟨hc, hk⟩ := hexValue?_digit hc
          obtain ⟨hd, hl⟩ := hexValue?_digit hd
          refine ⟨_, more, us', ?_, ?_, ?_, behind, rfl⟩
          · simp [fourHex?, ha, hb, hc, hd, hi, hj, hk, hl]
          · omega
          · simp only [List.length_cons]
            omega
        · cases h

/-- The first unit of a text is that of a code, or the first one of the first character. -/
theorem head_units (h : units (c :: rest) = some us) :
    ∃ u us', us = u :: us' ∧ (u.coded = true ∨ ∃ tail, raw c = u :: tail) := by
  have nonempty : ∃ u tail, raw c = u :: tail := by
    rw [raw, utf16]
    split <;> exact ⟨_, _, rfl⟩
  by_cases backslash : c = '\\'
  · subst backslash
    match rest with
    | [] =>
      obtain rfl := Option.some.inj h
      exact ⟨_, _, rfl, .inr ⟨_, rfl⟩⟩
    | d :: more =>
      by_cases letter : d = 'u'
      · subst letter
        obtain ⟨n, more, us', -, -, -, -, rfl⟩ := code_of_units h
        exact ⟨_, _, rfl, .inl rfl⟩
      · rw [units_escape letter] at h
        obtain ⟨us', -, rfl⟩ := Option.map_eq_some_iff.mp h
        exact ⟨_, _, rfl, .inr ⟨_, rfl⟩⟩
  · rw [units_plain backslash] at h
    obtain ⟨us', -, rfl⟩ := Option.map_eq_some_iff.mp h
    obtain ⟨u, tail, first⟩ := nonempty
    exact ⟨u, tail ++ us', by rw [first, List.cons_append], .inr ⟨tail, first⟩⟩

end First

/-! ## Octal escapes in both readings -/

section Octal

variable {c : Char} {cs rest : List Char} {us : List CodeUnit}

/-- The octal digits that the reader takes: those that are no codes. -/
def takenRun (max : Nat) (us : List CodeUnit) : List CodeUnit :=
  ((us.take max).takeWhile CodeUnit.isDigit).takeWhile fun u => !u.coded

theorem isOctal_unit (h : isOctal c = true) :
    raw c = [⟨c.toNat, false⟩] ∧ (⟨c.toNat, false⟩ : CodeUnit).isDigit = true := by
  obtain ⟨low, high⟩ := isOctal_iff.mp h
  exact ⟨raw_low (by omega), by simp [CodeUnit.isDigit, low, high]⟩

/-- A character whose first unit is below those of the surrogates is that unit. -/
theorem raw_first {u : CodeUnit} {tail : List CodeUnit} (first : raw c ++ us = u :: tail)
    (low : u.value < 0xD800) : raw c = [⟨c.toNat, false⟩] ∧ u = ⟨c.toNat, false⟩ ∧ tail = us := by
  by_cases single : c.toNat < 0x10000
  · rw [raw_low single] at first ⊢
    obtain ⟨rfl, rfl⟩ := List.cons.inj first
    exact ⟨rfl, rfl, rfl⟩
  · rw [raw, utf16, if_neg single] at first
    obtain ⟨rfl, -⟩ := List.cons.inj first
    exact absurd low (Nat.not_lt_of_le (Nat.le_add_right _ _))

/-- A character whose first unit is an octal digit is that digit. -/
theorem isOctal_of_unit {u : CodeUnit} {tail : List CodeUnit} (first : raw c ++ us = u :: tail)
    (digit : u.isDigit = true) : isOctal c = true := by
  rw [CodeUnit.isDigit, Bool.and_eq_true, decide_eq_true_eq, decide_eq_true_eq] at digit
  obtain ⟨-, rfl, -⟩ := raw_first first (by omega)
  exact isOctal_iff.mpr digit

theorem ne_backslash_of_isOctal (h : isOctal c = true) : c ≠ '\\' := by
  rintro rfl
  cases h

/-- What an octal escape takes of a text is what it takes of the units of the text. -/
theorem octal_units (max n : Nat) (h : units cs = some us) :
    ∃ more, octal max n cs =
        ((takenRun max us).foldl (fun n u => n * 8 + (u.value - 48)) n, more) ∧
      units more = some (us.drop (takenRun max us).length) := by
  induction max generalizing n cs us with
  | zero => exact ⟨cs, rfl, h⟩
  | succ max ih =>
    cases cs with
    | nil =>
      obtain rfl := Option.some.inj h
      exact ⟨[], rfl, rfl⟩
    | cons c cs =>
      rw [octal_cons]
      by_cases digit : isOctal c = true
      · obtain ⟨one, unit⟩ := isOctal_unit digit
        rw [units_plain (ne_backslash_of_isOctal digit), one] at h
        obtain ⟨us', behind, rfl⟩ := Option.map_eq_some_iff.mp h
        obtain ⟨more, taken, left⟩ := ih (n * 8 + (c.toNat - 48)) behind
        have run : takenRun (max + 1) ([⟨c.toNat, false⟩] ++ us') =
            ⟨c.toNat, false⟩ :: takenRun max us' := by
          simp [takenRun, unit]
        rw [if_pos digit, taken, run]
        exact ⟨more, rfl, left⟩
      · -- what stands here is a code or no digit
        obtain ⟨u, us', rfl, first⟩ := head_units h
        have run : takenRun (max + 1) (u :: us') = [] := by
          rcases first with code | ⟨tail, first⟩
          · by_cases digit' : u.isDigit = true <;> simp [takenRun, code, digit']
          · have other : ¬ u.isDigit = true := fun digit' =>
              digit (isOctal_of_unit ((List.append_nil _).trans first) digit')
            simp [takenRun, other]
        rw [if_neg digit, run]
        exact ⟨c :: cs, rfl, h⟩

/-- Three octal digits spell a number below five hundred and twelve. -/
theorem octalNumber_lt {run : List CodeUnit} (digits : ∀ u ∈ run, u.isDigit = true)
    (length : run.length ≤ 3) : octalNumber run < 512 := by
  have bound : ∀ (run : List CodeUnit) (n : Nat), (∀ u ∈ run, u.isDigit = true) →
      run.foldl (fun n u => n * 8 + (u.value - 48)) n < (n + 1) * 8 ^ run.length := by
    intro run
    induction run with
    | nil =>
      intro n _
      simp
    | cons u run ih =>
      intro n digits
      have first := digits u (List.mem_cons_self ..)
      rw [CodeUnit.isDigit, Bool.and_eq_true, decide_eq_true_eq, decide_eq_true_eq] at first
      have later := ih (n * 8 + (u.value - 48)) fun w member =>
        digits w (List.mem_cons_of_mem _ member)
      have small : n * 8 + (u.value - 48) + 1 ≤ (n + 1) * 8 := by omega
      rw [List.foldl_cons, List.length_cons]
      calc run.foldl (fun n u => n * 8 + (u.value - 48)) (n * 8 + (u.value - 48))
          < (n * 8 + (u.value - 48) + 1) * 8 ^ run.length := later
        _ ≤ (n + 1) * 8 * 8 ^ run.length := Nat.mul_le_mul_right _ small
        _ = (n + 1) * 8 ^ (run.length + 1) := by rw [Nat.pow_succ, Nat.mul_assoc, Nat.mul_comm 8]
  have power : 8 ^ run.length ≤ 8 ^ 3 := Nat.pow_le_pow_right (by decide) length
  have whole := bound run 0 digits
  rw [octalNumber]
  omega

/-- The digits that the language takes are those that the reader takes and, from the first code among
them on, others. -/
structure Cut (us taken more : List CodeUnit) : Prop where
  run : octalRun us = taken ++ more
  behind : us.drop taken.length = more ++ us.drop (octalRun us).length
  digits : ∀ u ∈ octalRun us, u.isDigit = true
  length : (octalRun us).length ≤ 3
  plain : ∀ u ∈ taken, u.coded = false
  code : more = [] ∨ ∃ u ∈ more, u.coded = true

theorem octalRun_front (us : List CodeUnit) : octalRun us <+: us := by
  cases us with
  | nil => exact List.prefix_rfl
  | cons u us => exact (List.takeWhile_prefix _).trans (List.take_prefix ..)

/-- Octal digits at the beginning begin with one. -/
theorem isDigit_of_octalRun {u : CodeUnit} (h : octalRun (u :: us) ≠ []) : u.isDigit = true := by
  by_contra other
  apply h
  rw [octalRun]
  split <;> simp [other]

theorem cut_octalRun (u : CodeUnit) (us : List CodeUnit) :
    ∃ more, Cut (u :: us) (takenRun (if u.value ≤ 51 then 3 else 2) (u :: us)) more := by
  have most : (if u.value ≤ 51 then 3 else 2) ≤ 3 := by split <;> decide
  have taken : takenRun (if u.value ≤ 51 then 3 else 2) (u :: us) =
      (octalRun (u :: us)).takeWhile fun u => !u.coded := rfl
  rw [taken]
  obtain ⟨left, whole⟩ := octalRun_front (u :: us)
  generalize hrun : octalRun (u :: us) = run at whole
  refine ⟨run.dropWhile fun u => !u.coded, ?_, ?_, ?_, ?_, ?_, ?_⟩
  · rw [hrun, List.takeWhile_append_dropWhile]
  · rw [hrun, ← whole, List.drop_left]
    have both := List.takeWhile_append_dropWhile (p := fun u : CodeUnit => !u.coded) (l := run)
    calc (run ++ left).drop (run.takeWhile fun u => !u.coded).length
        = (run.takeWhile (fun u => !u.coded) ++ (run.dropWhile (fun u => !u.coded) ++ left)).drop
            (run.takeWhile fun u => !u.coded).length := by rw [← List.append_assoc, both]
      _ = run.dropWhile (fun u => !u.coded) ++ left := List.drop_left
  · intro w member
    rw [octalRun] at member
    exact List.mem_takeWhile_imp member
  · have short := (List.takeWhile_prefix (l := (u :: us).take (if u.value ≤ 51 then 3 else 2))
      CodeUnit.isDigit).length_le
    rw [List.length_take] at short
    rw [octalRun]
    omega
  · intro w member
    simpa using List.mem_takeWhile_imp member
  · by_cases all : run.dropWhile (fun u => !u.coded) = []
    · exact .inl all
    · have first := List.head_dropWhile_not (fun u : CodeUnit => !u.coded) all
      exact .inr ⟨_, List.head_mem all, by simpa using first⟩

end Octal

/-! ## One turn and two -/

section Turns

variable {quote c : Char} {rest : List Char} {u : CodeUnit} {us xs ds : List CodeUnit}
  {vs : List Nat}

theorem Denotes.plain_inv (h : Denotes quote (u :: us) vs ds) (plain : u.value ≠ 92) :
    ∃ vs', vs = u.value :: vs' ∧ Denotes quote us vs' ds := by
  cases h with
  | plain _ h => exact ⟨_, rfl, h⟩
  | letter hb => exact absurd hb plain
  | octal hb => exact absurd hb plain

theorem Denotes.raw_inv (plain : c ≠ '\\') (h : Denotes quote (raw c ++ us) vs ds) :
    ∃ vs', vs = utf16 c ++ vs' ∧ Denotes quote us vs' ds := by
  rw [raw, utf16] at h
  rw [utf16]
  split at h
  all_goals simp only [List.map_cons, List.map_nil, List.cons_append, List.nil_append] at h
  · next low =>
    have other : c.toNat ≠ 92 := fun same => plain (Char.toNat_inj.mp same)
    obtain ⟨vs', rfl, inside⟩ := h.plain_inv other
    rw [if_pos low]
    exact ⟨vs', rfl, inside⟩
  · next high =>
    obtain ⟨more, rfl, second⟩ := h.plain_inv (show 0xD800 + _ ≠ 92 by omega)
    obtain ⟨vs', rfl, inside⟩ := second.plain_inv (show 0xDC00 + _ ≠ 92 by omega)
    rw [if_neg high]
    exact ⟨vs', rfl, inside⟩

/-- Digits can always stand for themselves. -/
theorem Denotes.digits (hq : IsQuote quote) (digits : ∀ u ∈ xs, u.isDigit = true)
    (h : Denotes quote us vs ds) : Denotes quote (xs ++ us) (xs.map CodeUnit.value ++ vs) ds := by
  induction xs with
  | nil => exact h
  | cons u xs ih =>
    have digit := digits u (List.mem_cons_self ..)
    rw [CodeUnit.isDigit, Bool.and_eq_true, decide_eq_true_eq, decide_eq_true_eq] at digit
    refine .plain ?_ (ih fun w member => digits w (List.mem_cons_of_mem _ member))
    have quotes : quote.toNat = 34 ∨ quote.toNat = 39 := by
      rcases hq with rfl | rfl
      · exact .inl rfl
      · exact .inr rfl
    simp only [List.mem_cons, List.not_mem_nil, or_false, not_or]
    omega

/-- Units that are no codes play no part in whether the codes are ordinary. -/
theorem ordinary_append (others : ∀ u ∈ xs, u.coded = false) :
    Ordinary (xs ++ us) ds ↔ Ordinary us ds := by
  refine and_congr ⟨fun h u member => h u (List.mem_append_right _ member), fun h u member => ?_⟩
    Iff.rfl
  rcases List.mem_append.mp member with first | later
  · intro code
    rw [others u first] at code
    cases code
  · exact h u later

theorem raw_coded (c : Char) : ∀ u ∈ raw c, u.coded = false := by
  intro u member
  obtain ⟨n, -, rfl⟩ := List.mem_map.mp member
  rfl

theorem letterEscapes_low {p : Nat × Nat} (h : p ∈ letterEscapes) : p.1 < 0xD800 := by
  revert p
  decide

/-- A letter behind a backslash is read as the language says. -/
theorem step_letter {v : Nat} (h : (c.toNat, v) ∈ letterEscapes) (rest : List Char) :
    ∃ d, step (c :: rest) = .ok (d, rest) ∧ utf16 d = [v] := by
  simp only [letterEscapes, List.map_cons, List.map_nil, List.mem_cons, List.not_mem_nil, or_false,
    Prod.mk.injEq] at h
  rcases h with ⟨h, rfl⟩ | ⟨h, rfl⟩ | ⟨h, rfl⟩ | ⟨h, rfl⟩ | ⟨h, rfl⟩ | ⟨h, rfl⟩ | ⟨h, rfl⟩ | ⟨h, rfl⟩
  all_goals
    obtain rfl := Char.toNat_inj.mp h
    exact ⟨_, rfl, rfl⟩

/-- So is an octal digit: the escape goes on as long as there are digits. -/
theorem step_octal (digit : isOctal c = true) (rest : List Char) : step (c :: rest) =
    .ok (Char.ofNat (octal (if c.toNat ≤ 51 then 3 else 2) 0 (c :: rest)).1,
      (octal (if c.toNat ≤ 51 then 3 else 2) 0 (c :: rest)).2) := by
  obtain ⟨low, high⟩ := isOctal_iff.mp digit
  have back : Char.ofNat c.toNat = c := Char.ofNat_toNat c
  rw [← back]
  interval_cases c.toNat <;> rfl

/-- The second turn has one outcome. -/
theorem Denotes.unique {ds' : List CodeUnit} {vs' : List Nat} (h : Denotes quote us vs ds)
    (h' : Denotes quote us vs' ds') : vs = vs' ∧ ds = ds' := by
  have letters : ∀ p ∈ letterEscapes, ∀ q ∈ letterEscapes, p.1 = q.1 → p = q := by decide
  have digits : ∀ p ∈ letterEscapes, (⟨p.1, false⟩ : CodeUnit).isDigit = false := by decide
  -- a letter is no octal digit
  have apart : ∀ {e : CodeUnit} {us : List CodeUnit} {v : Nat}, (e.value, v) ∈ letterEscapes →
      octalRun (e :: us) = [] := by
    intro e us v member
    by_contra taken
    have digit : e.isDigit = false := digits _ member
    rw [isDigit_of_octalRun taken] at digit
    cases digit
  induction h generalizing vs' ds' with
  | done =>
    cases h'
    exact ⟨rfl, rfl⟩
  | plain hu _ ih =>
    obtain ⟨vs', rfl, inside⟩ := h'.plain_inv fun same => hu (by simp [same])
    obtain ⟨rfl, rfl⟩ := ih inside
    exact ⟨rfl, rfl⟩
  | letter hb he _ ih =>
    cases h' with
    | plain hu => exact absurd hb fun same => hu (by simp [same])
    | letter _ he' inside =>
      obtain ⟨rfl, rfl⟩ := ih inside
      exact ⟨congrArg (· :: _) (congrArg Prod.snd (letters _ he _ he' rfl)), rfl⟩
    | octal _ hr => exact absurd (apart he) hr
  | octal hb hr _ ih =>
    cases h' with
    | plain hu => exact absurd hb fun same => hu (by simp [same])
    | letter _ he => exact absurd (apart he) hr
    | octal _ _ inside =>
      obtain ⟨rfl, rfl⟩ := ih inside
      exact ⟨rfl, rfl⟩

end Turns

section Reading

variable {quote c : Char} {body rest : List Char} {us ds : List CodeUnit} {vs : List Nat}

/-- What the reader makes of a text that the language takes apart into the units: it reads at least
as many units as the text denotes, and just these if all codes are ordinary. -/
def Reads (body : List Char) (us : List CodeUnit) (vs : List Nat) (ds : List CodeUnit) : Prop :=
  ∃ v, unescape body = .ok v ∧ vs.length ≤ (encode v).length ∧ (encode v = vs ↔ Ordinary us ds)

/-- No code is a backslash. -/
def NoBackslash (us : List CodeUnit) : Prop := ∀ u ∈ us, u.coded = true → u.value ≠ 92

/-- A character in front that is read as what it denotes. -/
theorem Reads.cons {d : Char} (xs : List CodeUnit) (others : ∀ u ∈ xs, u.coded = false)
    (read : unescape body = (unescape rest).map (d :: ·)) (h : Reads rest us vs ds) :
    Reads body (xs ++ us) (utf16 d ++ vs) ds := by
  obtain ⟨v, inside, length, same⟩ := h
  refine ⟨d :: v, by rw [read, inside]; rfl, ?_, ?_⟩
  · rw [encode, List.flatMap_cons, List.length_append, List.length_append]
    exact Nat.add_le_add_left length _
  · rw [encode, List.flatMap_cons, List.append_cancel_left_eq, ordinary_append others]
    exact same

theorem ordinary_cons {u : CodeUnit} (plain : ¬ u.IsSurrogate) :
    Ordinary (u :: us) ds ↔ Ordinary us ds := by
  refine and_congr ⟨fun h w member => h w (List.mem_cons_of_mem _ member), fun h w member => ?_⟩
    Iff.rfl
  rcases List.mem_cons.mp member with rfl | later
  · exact fun _ => plain
  · exact h w later

/-- A code in front. Half of a surrogate pair is read as the replacement character, which is another
unit, any other code as the character it denotes. -/
theorem Reads.code {n : Nat} (low : n < 0x10000)
    (read : unescape body = (unescape rest).map (codeChar n :: ·)) (h : Reads rest us vs ds) :
    Reads body (⟨n, true⟩ :: us) (n :: vs) ds := by
  obtain ⟨v, inside, length, same⟩ := h
  refine ⟨codeChar n :: v, by rw [read, inside]; rfl, ?_⟩
  by_cases half : 0xD800 ≤ n ∧ n ≤ 0xDFFF
  · have replaced : utf16 (codeChar n) = [0xFFFD] := by
      rw [codeChar, if_pos (by simpa using half)]
      rfl
    rw [encode, List.flatMap_cons, replaced, List.singleton_append]
    refine ⟨Nat.succ_le_succ length, iff_of_false ?_ ?_⟩
    · intro equal
      have first := (List.cons.inj equal).1
      omega
    · intro ordinary
      exact ordinary.1 _ (List.mem_cons_self ..) rfl half
  · have valid : n.isValidChar := by
      unfold Nat.isValidChar
      omega
    have number : (Char.ofNat n).toNat = n := toNat_ofNat valid
    have kept : utf16 (codeChar n) = [n] := by
      rw [codeChar, if_neg (by simpa using half), utf16_low (by omega), number]
    rw [encode, List.flatMap_cons, kept, List.singleton_append]
    refine ⟨Nat.succ_le_succ length, ?_⟩
    have plain : ¬ (⟨n, true⟩ : CodeUnit).IsSurrogate := half
    rw [List.cons.injEq, ordinary_cons plain]
    exact (and_iff_right rfl).trans same

/-- An octal escape in front. If there is a code among its digits, the reader leaves it and the digits
behind it as characters of their own, and reads more units than the text denotes. -/
theorem Reads.octal {taken more : List CodeUnit}
    (cut : Cut us taken more)
    (read : unescape body = (unescape rest).map (Char.ofNat (octalNumber taken) :: ·))
    (h : Reads rest (more ++ us.drop (octalRun us).length) (more.map CodeUnit.value ++ vs) ds) :
    Reads body (⟨92, false⟩ :: us) (octalNumber (octalRun us) :: vs) (octalRun us ++ ds) := by
  obtain ⟨v, inside, length, same⟩ := h
  have digits : ∀ u ∈ taken, u.isDigit = true := by
    intro u member
    exact cut.digits u (cut.run ▸ List.mem_append_left _ member)
  have short : taken.length ≤ 3 := by
    have whole := cut.length
    rw [cut.run, List.length_append] at whole
    omega
  have small := octalNumber_lt digits short
  have valid : (octalNumber taken).isValidChar := by
    unfold Nat.isValidChar
    omega
  have number : (Char.ofNat (octalNumber taken)).toNat = octalNumber taken :=
    toNat_ofNat valid
  have kept : utf16 (Char.ofNat (octalNumber taken)) = [octalNumber taken] := by
    rw [utf16_low (by omega), number]
  refine ⟨Char.ofNat (octalNumber taken) :: v, by rw [read, inside]; rfl, ?_⟩
  have whole : encode (Char.ofNat (octalNumber taken) :: v) = octalNumber taken :: encode v := by
    rw [encode, List.flatMap_cons, kept, List.singleton_append, encode]
  rw [whole]
  rw [List.length_append, List.length_map] at length
  refine ⟨?_, ?_⟩
  · rw [List.length_cons, List.length_cons]
    exact Nat.succ_le_succ (by omega)
  rcases cut.code with rfl | ⟨w, member, code⟩
  · -- the same digits are taken in both readings
    have run := cut.run
    have behind := cut.behind
    rw [List.append_nil] at run
    rw [List.map_nil, List.nil_append, List.nil_append] at same
    rw [run, List.cons.injEq]
    refine (and_iff_right rfl).trans (same.trans ?_)
    have split : ⟨92, false⟩ :: us = (⟨92, false⟩ :: taken) ++ us.drop taken.length := by
      rw [List.cons_append, ← run, List.prefix_iff_eq_append.mp (octalRun_front us)]
    have others : ∀ u ∈ (⟨92, false⟩ : CodeUnit) :: taken, u.coded = false := by
      intro u member
      rcases List.mem_cons.mp member with rfl | inside
      · rfl
      · exact cut.plain u inside
    rw [split, ordinary_append others, run]
    refine and_congr Iff.rfl ⟨fun h d member => ?_, fun h d member => ?_⟩
    · rcases List.mem_append.mp member with first | later
      · exact cut.plain d first
      · exact h d later
    · exact h d (List.mem_append_right _ member)
  · refine iff_of_false ?_ ?_
    · intro equal
      have lengths := congrArg List.length equal
      have some_ := List.length_pos_of_mem member
      rw [List.length_cons, List.length_cons] at lengths
      omega
    · intro ordinary
      have among : w ∈ octalRun us ++ ds := by
        rw [cut.run]
        exact List.mem_append_left _ (List.mem_append_right _ member)
      have plain := ordinary.2 w among
      rw [code] at plain
      cases plain

theorem NoBackslash.behind (xs : List CodeUnit) (h : NoBackslash (xs ++ us)) : NoBackslash us :=
  fun u member => h u (List.mem_append_right _ member)

/-- All shorter texts are read as they should be. -/
def ReadsBelow (quote : Char) (length : Nat) : Prop :=
  ∀ body : List Char, body.length < length → ∀ us vs ds, units body = some us → NoBackslash us →
    Denotes quote us vs ds → Reads body us vs ds

/-- A character in front that is no backslash. -/
theorem reads_plain (plain : c ≠ '\\') (below : ReadsBelow quote (c :: rest).length)
    (whole : units (c :: rest) = some us) (hb : NoBackslash us) (h : Denotes quote us vs ds) :
    Reads (c :: rest) us vs ds := by
  rw [units_plain plain] at whole
  obtain ⟨us', behind, rfl⟩ := Option.map_eq_some_iff.mp whole
  obtain ⟨vs', rfl, inside⟩ := h.raw_inv plain
  exact Reads.cons (raw c) (raw_coded c) (unescape_plain plain)
    (below rest (Nat.lt_succ_self _) us' vs' ds behind (hb.behind _) inside)

/-- A code in front. -/
theorem reads_code (below : ReadsBelow quote ('\\' :: 'u' :: rest).length)
    (whole : units ('\\' :: 'u' :: rest) = some us) (hb : NoBackslash us)
    (h : Denotes quote us vs ds) : Reads ('\\' :: 'u' :: rest) us vs ds := by
  obtain ⟨n, more, us', digits, low, shorter, behind, rfl⟩ := code_of_units whole
  have plain : n ≠ 92 := hb _ (List.mem_cons_self ..) rfl
  have smaller : more.length < ('\\' :: 'u' :: rest).length :=
    Nat.lt_succ_of_lt (Nat.lt_succ_of_lt shorter)
  have hb' : NoBackslash us' := fun u member => hb u (List.mem_cons_of_mem _ member)
  obtain ⟨vs', rfl, inside⟩ := h.plain_inv plain
  exact Reads.code low (unescape_step (step_code digits))
    (below more smaller us' vs' ds behind hb' inside)

/-- An escape of one letter in front. -/
theorem reads_letter {v : Nat} (below : ReadsBelow quote ('\\' :: c :: rest).length)
    (behind : units rest = some us) (hb : NoBackslash us) (escape : (c.toNat, v) ∈ letterEscapes)
    (h : Denotes quote us vs ds) :
    Reads ('\\' :: c :: rest) (⟨92, false⟩ :: ⟨c.toNat, false⟩ :: us) (v :: vs) ds := by
  obtain ⟨d, denotes, unit⟩ := step_letter escape rest
  have smaller : rest.length < ('\\' :: c :: rest).length :=
    Nat.lt_succ_of_lt (Nat.lt_succ_self _)
  have read := Reads.cons [⟨92, false⟩, ⟨c.toNat, false⟩] (by simp)
    (unescape_step denotes) (below rest smaller us vs ds behind hb h)
  rw [unit] at read
  exact read

/-- An octal escape in front. What the reader leaves of its digits is read as plain text. -/
theorem reads_octal (hq : IsQuote quote) (digit : isOctal c = true)
    (below : ReadsBelow quote ('\\' :: c :: rest).length)
    (behind : units (c :: rest) = some us) (hb : NoBackslash us)
    (h : Denotes quote (us.drop (octalRun us).length) vs ds) :
    Reads ('\\' :: c :: rest) (⟨92, false⟩ :: us) (octalNumber (octalRun us) :: vs)
      (octalRun us ++ ds) := by
  obtain ⟨more, taken, left⟩ := octal_units (if c.toNat ≤ 51 then 3 else 2) 0 behind
  have shorter := octal_length (if c.toNat ≤ 51 then 3 else 2) 0 (c :: rest)
  have first : ∃ us', us = ⟨c.toNat, false⟩ :: us' := by
    rw [units_plain (ne_backslash_of_isOctal digit), (isOctal_unit digit).1] at behind
    obtain ⟨us', -, rfl⟩ := Option.map_eq_some_iff.mp behind
    exact ⟨us', rfl⟩
  obtain ⟨us', rfl⟩ := first
  obtain ⟨others, cut⟩ := cut_octalRun ⟨c.toNat, false⟩ us'
  have read := unescape_step (step_octal digit rest)
  rw [taken] at read shorter
  rw [cut.behind] at left
  refine Reads.octal cut read (below more (Nat.lt_succ_of_le shorter) _ _ _ left ?_ ?_)
  · rw [← cut.behind]
    exact fun u member => hb u (List.mem_of_mem_drop member)
  · exact h.digits hq fun u member => cut.digits u (cut.run ▸ List.mem_append_right _ member)

/-- An escape in front: a letter or octal digits stand behind the backslash. -/
theorem reads_escape (hq : IsQuote quote) (other : c ≠ 'u')
    (below : ReadsBelow quote ('\\' :: c :: rest).length)
    (whole : units ('\\' :: c :: rest) = some us) (hb : NoBackslash us)
    (h : Denotes quote us vs ds) : Reads ('\\' :: c :: rest) us vs ds := by
  rw [units_escape other] at whole
  obtain ⟨us', behind, rfl⟩ := Option.map_eq_some_iff.mp whole
  have hb' : NoBackslash us' := hb.behind _
  have backslash : raw '\\' = [⟨92, false⟩] := rfl
  rw [backslash, List.append_assoc, List.singleton_append] at h hb ⊢
  generalize units_ : raw c ++ us' = first at h hb ⊢
  cases h with
  | plain hu _ => simp at hu
  | @letter _ e us'' v vs ds _ he h =>
    obtain ⟨one, rfl, rfl⟩ := raw_first units_ (letterEscapes_low he)
    exact reads_letter below behind hb' he h
  | @octal _ _ vs ds _ hr h =>
    have digit : isOctal c = true := by
      obtain ⟨u, tail, rfl⟩ : ∃ u tail, first = u :: tail :=
        List.exists_cons_of_ne_nil fun none => hr (by rw [none]; rfl)
      exact isOctal_of_unit units_ (isDigit_of_octalRun hr)
    have all : units (c :: rest) = some first := by
      rw [units_plain (ne_backslash_of_isOctal digit), behind, ← units_]
      rfl
    exact reads_octal hq digit below all (hb.behind [_]) h

/-- Every text is read as it should be. The induction is on the
length of the text: one step reads a character, a code or an escape. -/
theorem reads_denoted (hq : IsQuote quote) (n : Nat) : ReadsBelow quote n := by
  induction n with
  | zero => exact fun _ shorter => absurd shorter (Nat.not_lt_zero _)
  | succ n ih =>
    intro body shorter us vs ds whole hb h
    have below : ReadsBelow quote body.length := fun more smaller =>
      ih more (Nat.lt_of_lt_of_le smaller (Nat.le_of_lt_succ shorter))
    match body with
    | [] =>
      obtain rfl := Option.some.inj whole
      cases h
      exact ⟨[], rfl, Nat.le_refl _, iff_of_true rfl ⟨nofun, nofun⟩⟩
    | [c] =>
      by_cases backslash : c = '\\'
      · -- a backslash alone denotes nothing
        subst backslash
        obtain rfl := Option.some.inj whole
        cases h with
        | plain hu _ => simp at hu
        | octal _ hr _ => exact absurd rfl hr
      · exact reads_plain backslash below whole hb h
    | c :: e :: rest =>
      by_cases backslash : c = '\\'
      · subst backslash
        by_cases code : e = 'u'
        · subst code
          exact reads_code below whole hb h
        · exact reads_escape hq code below whole hb h
      · exact reads_plain backslash below whole hb h

end Reading

/-! ## What is read of a literal -/

/-- **What is read of a literal.** A text between quotes that the language admits, with no code for a
backslash, is always read. The code units of what is read are those that the literal denotes just if
no code is half of a surrogate pair and no code is a digit of an octal escape. -/
theorem unescape_denoted {quote : Char} (hq : IsQuote quote) {body : List Char}
    {us ds : List CodeUnit} {vs : List Nat} (first : units body = some us)
    (second : Denotes quote us vs ds) (plain : NoBackslash us) :
    ∃ v, unescape body = .ok v ∧ (encode v = vs ↔ Ordinary us ds) := by
  obtain ⟨v, read, -, same⟩ :=
    reads_denoted hq _ body (Nat.lt_succ_self _) us vs ds first plain second
  exact ⟨v, read, same⟩

/-- A character, an octal escape, a code with two letters `u` and a character of two units. -/
theorem unescape_denoted_mixed :
    units ['a', '\\', '1', '0', '\\', 'u', 'u', '0', '0', 'e', '9', '😀'] =
        some [⟨97, false⟩, ⟨92, false⟩, ⟨49, false⟩, ⟨48, false⟩, ⟨233, true⟩, ⟨0xd83d, false⟩,
          ⟨0xde00, false⟩] ∧
      ∃ v, unescape ['a', '\\', '1', '0', '\\', 'u', 'u', '0', '0', 'e', '9', '😀'] = .ok v ∧
        encode v = [97, 8, 233, 0xd83d, 0xde00] := by
  have first : units ['a', '\\', '1', '0', '\\', 'u', 'u', '0', '0', 'e', '9', '😀'] =
      some [⟨97, false⟩, ⟨92, false⟩, ⟨49, false⟩, ⟨48, false⟩, ⟨233, true⟩, ⟨0xd83d, false⟩,
        ⟨0xde00, false⟩] := by decide
  have second : Denotes '"' [⟨97, false⟩, ⟨92, false⟩, ⟨49, false⟩, ⟨48, false⟩, ⟨233, true⟩,
      ⟨0xd83d, false⟩, ⟨0xde00, false⟩] [97, 8, 233, 0xd83d, 0xde00]
      [⟨49, false⟩, ⟨48, false⟩] :=
    .plain (by decide) (.octal rfl (by decide)
      (.plain (by decide) (.plain (by decide) (.plain (by decide) .done))))
  have plain : NoBackslash [⟨97, false⟩, ⟨92, false⟩, ⟨49, false⟩, ⟨48, false⟩, ⟨233, true⟩,
      ⟨0xd83d, false⟩, ⟨0xde00, false⟩] := by
    unfold NoBackslash
    decide
  obtain ⟨v, read, same⟩ := unescape_denoted (.inl rfl) first second plain
  refine ⟨first, v, read, same.mpr ?_⟩
  simp [Ordinary, CodeUnit.IsSurrogate]

/-- Two codes that spell a surrogate pair denote its two units and are read as two replacement
characters. -/
theorem unescape_surrogates :
    units ['\\', 'u', 'd', '8', '3', 'd', '\\', 'u', 'd', 'e', '0', '0'] =
        some [⟨0xd83d, true⟩, ⟨0xde00, true⟩] ∧
      Denotes '"' [⟨0xd83d, true⟩, ⟨0xde00, true⟩] [0xd83d, 0xde00] [] ∧
      NoBackslash [⟨0xd83d, true⟩, ⟨0xde00, true⟩] ∧
      unescape ['\\', 'u', 'd', '8', '3', 'd', '\\', 'u', 'd', 'e', '0', '0'] =
        .ok [Text.replacement, Text.replacement] ∧
      encode [Text.replacement, Text.replacement] ≠ [0xd83d, 0xde00] := by
  refine ⟨by decide, .plain (by decide) (.plain (by decide) .done), ?_, by decide, by decide⟩
  unfold NoBackslash
  decide

end Weaver.Source
