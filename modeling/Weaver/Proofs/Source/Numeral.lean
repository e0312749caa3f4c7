import Weaver.Proofs.Source.Lexemes
import Weaver.Proofs.Source.Onward
import Mathlib.Data.List.Infix
/-!
Reading whole numbers.

The head reads the letter of the base, then every character that could be a digit, and looks at the
characters afterwards: whether they are digits of the base, and whether the underscores among them
stand alone. `number_digits` says what it reads of digits that are followed by something else, and
`readInteger_digits` what number they stand for.
-/
set_option autoImplicit false

namespace Weaver.Source

open Weaver.Text (Glyph)
open Lexer

/-! ## Underscores -/

/-- No underscore ends the characters or follows another one. -/
def Tidy (cs : List Char) : Prop := cs.getLast? ≠ some '_' ∧ ¬ ['_', '_'] <:+: cs

theorem tidy_cons_cons {c d : Char} {cs : List Char} :
    Tidy (c :: d :: cs) ↔ ¬ (c = '_' ∧ d = '_') ∧ Tidy (d :: cs) := by
  rw [Tidy, Tidy, List.getLast?_cons_cons, List.infix_cons_iff, List.cons_prefix_cons,
    List.cons_prefix_cons, not_or]
  constructor
  · rintro ⟨last, apart, rest⟩
    exact ⟨fun ⟨hc, hd⟩ => apart ⟨hc.symm, hd.symm, List.nil_prefix⟩, last, rest⟩
  · rintro ⟨apart, last, rest⟩
    exact ⟨last, fun ⟨hc, hd, _⟩ => apart ⟨hc.symm, hd.symm⟩, rest⟩

theorem tidy_singleton {c : Char} : Tidy [c] ↔ c ≠ '_' := by
  constructor
  · rintro ⟨last, -⟩ rfl
    exact last rfl
  · intro other
    refine ⟨fun same => other (Option.some.inj same), fun infix_ => ?_⟩
    have length : 2 ≤ 1 := infix_.length_le
    exact absurd length (by decide)

/-- The characters are digits in the sense of the scanner, or underscores. -/
def Digits (hex : Bool) (cs : List Char) : Prop :=
  ∀ c ∈ cs, c = '_' ∨ (isDecimal c || (hex && isHex c)) = true

/-- What the scanner asks of the underscores is that they are tidy. -/
theorem separated_iff {hex : Bool} {cs : List Char} (h : Digits hex cs) :
    (∀ d, d ≠ '_' → (separated hex '0' cs = true ↔ Tidy (d :: cs))) ∧
      (separated hex '_' cs = true ↔ Tidy ('_' :: cs)) := by
  induction cs with
  | nil =>
    refine ⟨fun d hd => ?_, ?_⟩
    · rw [tidy_singleton]
      exact iff_of_true rfl hd
    · rw [tidy_singleton]
      exact iff_of_false Bool.false_ne_true (not_not_intro rfl)
  | cons c cs ih =>
    obtain ⟨digit, underscore⟩ := ih fun d member => h d (List.mem_cons_of_mem _ member)
    by_cases hc : c = '_'
    · subst hc
      refine ⟨fun d hd => ?_, ?_⟩
      · rw [tidy_cons_cons, separated, if_pos (beq_self_eq_true _), ← underscore]
        simp [hd]
      · rw [tidy_cons_cons, separated, if_pos (beq_self_eq_true _)]
        simp
    · have isDigit := (h c (List.mem_cons_self ..)).resolve_left hc
      have plain : ¬ (c == '_') = true := by simpa using hc
      refine ⟨fun d hd => ?_, ?_⟩
      · rw [tidy_cons_cons, separated, if_neg plain, if_pos isDigit, digit c hc]
        simp [hc]
      · rw [tidy_cons_cons, separated, if_neg plain, if_pos isDigit, digit c hc]
        simp [hc]

/-! ## The base -/

/-- The characters with which a number of the given lead opens, and what may stand behind them. -/
inductive Leads : Lead → List Char → List Char → Prop where
  | plain {cs : List Char} (h : cs.head? ≠ some '0') : Leads .plain [] cs
  | zero {cs : List Char} (h : ∀ c ∈ cs.head?, ∀ m ∈ ['x', 'o', 'b'], isMark m c = false) :
      Leads .zero ['0'] cs
  | hex {x : Char} {cs : List Char} (h : isMark 'x' x = true) : Leads .hex ['0', x] cs
  | binary {b : Char} {cs : List Char} (h : isMark 'b' b = true) : Leads .binary ['0', b] cs

theorem isMark_iff {m c : Char} : isMark m c = true ↔ c = m ∨ c = m.toUpper := by
  rw [isMark, Bool.or_eq_true, beq_iff_eq, beq_iff_eq]

theorem leadOf_leads {l : Lead} {opening cs : List Char} {s : Scanner} (leads : Leads l opening cs)
    (h : Ahead s (opening ++ cs)) :
    ∃ u, leadOf s = (l, u) ∧ Ahead u cs ∧ Moved s u opening := by
  unfold leadOf
  cases leads with
  | plain other =>
    have look : ¬ (s.look == some '0') = true := by
      rw [beq_iff_eq, h.look]
      exact other
    rw [if_neg look]
    exact ⟨s, rfl, h, .refl s⟩
  | zero other =>
    obtain ⟨ahead, moved⟩ : Ahead s.read cs ∧ Moved s s.read ['0'] := h.read
    have marks : ∀ m ∈ ['x', 'o', 'b'], s.read.looking (isMark m) = false := by
      intro m member
      rw [ahead.looking]
      cases hc : cs.head? with
      | none => rfl
      | some c => exact other c hc m member
    rw [if_pos (by rw [h.look]; rfl)]
    simp only [marks 'x' (by decide), marks 'o' (by decide), marks 'b' (by decide),
      Bool.false_eq_true, if_false]
    exact ⟨s.read, rfl, ahead, moved⟩
  | @hex x _ mark =>
    obtain ⟨ahead, moved⟩ : Ahead s.read (x :: cs) ∧ Moved s s.read ['0'] := h.read
    obtain ⟨ahead', moved'⟩ := ahead.read
    rw [if_pos (by rw [h.look]; rfl), if_pos (by rw [ahead.looking]; exact mark)]
    exact ⟨s.read.read, rfl, ahead', moved.trans moved'⟩
  | @binary b _ mark =>
    obtain ⟨ahead, moved⟩ : Ahead s.read (b :: cs) ∧ Moved s s.read ['0'] := h.read
    obtain ⟨ahead', moved'⟩ := ahead.read
    have others : isMark 'x' b = false ∧ isMark 'o' b = false := by
      rcases isMark_iff.mp mark with rfl | rfl <;> decide
    have hex : ¬ s.read.looking (isMark 'x') = true := by
      rw [ahead.looking]
      exact Bool.eq_false_iff.mp others.1
    have octal : ¬ s.read.looking (isMark 'o') = true := by
      rw [ahead.looking]
      exact Bool.eq_false_iff.mp others.2
    rw [if_pos (by rw [h.look]; rfl), if_neg hex, if_neg octal,
      if_pos (by rw [ahead.looking]; exact mark)]
    exact ⟨s.read.read, rfl, ahead', moved.trans moved'⟩

/-- A digit or an underscore is no letter of a base. -/
theorem isMark_digit {c : Char} (h : c = '_' ∨ Number.digitValue c < 10) :
    ∀ m ∈ ['x', 'o', 'b'], isMark m c = false := by
  intro m member
  rw [Bool.eq_false_iff]
  intro mark
  simp only [List.mem_cons, List.not_mem_nil, or_false] at member
  rcases h with rfl | small
  · rcases member with rfl | rfl | rfl <;> revert mark <;> decide
  · rcases member with rfl | rfl | rfl <;> rcases isMark_iff.mp mark with rfl | rfl <;>
      revert small <;> decide

/-- A digit puts the scanner into one state wherever it stands. -/
theorem separated_digit {c : Char} (digit : isDecimal c = true) (last : Char) (cs : List Char) :
    separated false last (c :: cs) = separated false '0' cs := by
  have plain : ¬ (c == '_') = true := by
    rw [beq_iff_eq]
    rintro rfl
    cases digit
  rw [separated, if_neg plain, digit, Bool.true_or, if_pos rfl]

/-- Behind the characters of a base the scanner takes underscores as behind a digit. -/
theorem wellSeparated_leads {l : Lead} {opening cs : List Char} (leads : Leads l opening cs)
    (hl : l ≠ .plain) : wellSeparated (opening ++ cs) = separated (l == .hex) '0' cs := by
  cases leads with
  | plain => exact absurd rfl hl
  | zero other =>
    have digit : isDecimal '0' = true := rfl
    cases cs with
    | nil => rfl
    | cons c cs =>
      have marks := other c rfl
      change (if isMark 'x' c then _ else if isMark 'o' c || isMark 'b' c then _ else _ : Bool) = _
      rw [marks 'x' (by decide), marks 'o' (by decide), marks 'b' (by decide)]
      exact separated_digit digit '.' (c :: cs)
  | hex mark =>
    rw [List.cons_append, List.singleton_append, wellSeparated, if_pos mark]
    rfl
  | @binary b _ mark =>
    have other : ¬ isMark 'x' b = true := by
      rcases isMark_iff.mp mark with rfl | rfl <;> decide
    rw [List.cons_append, List.singleton_append, wellSeparated, if_neg other, mark, Bool.or_true,
      if_pos rfl]
    rfl

theorem wellSeparated_plain {cs : List Char} (h : cs.head? ≠ some '0') :
    wellSeparated cs = separated false '.' cs := by
  unfold wellSeparated
  split
  · exact absurd rfl h
  · rfl

/-- The base that the number is read in. -/
theorem splitBase_leads {l : Lead} {opening cs : List Char} (leads : Leads l opening cs)
    (some_ : cs ≠ []) : Number.splitBase (opening ++ cs) = (l.base, cs) := by
  cases leads with
  | plain other =>
    rw [List.nil_append, Number.splitBase]
    · rfl
    · rintro c rest rfl
      exact other rfl
  | zero other =>
    cases cs with
    | nil => exact absurd rfl some_
    | cons c cs =>
      have marks := other c rfl
      have unlike : ∀ m ∈ ['x', 'o', 'b'], (c == m) = false ∧ (c == m.toUpper) = false := by
        intro m member
        exact Bool.or_eq_false_iff.mp (marks m member)
      obtain ⟨x, x'⟩ := unlike 'x' (by decide)
      obtain ⟨o, o'⟩ := unlike 'o' (by decide)
      obtain ⟨b, b'⟩ := unlike 'b' (by decide)
      change (c == 'X') = false at x'
      change (c == 'O') = false at o'
      change (c == 'B') = false at b'
      rw [List.singleton_append, Number.splitBase]
      simp only [x, x', o, o', b, b', Bool.or_self, Bool.false_eq_true, if_false]
      rfl
  | hex mark => rcases isMark_iff.mp mark with rfl | rfl <;> rfl
  | binary mark => rcases isMark_iff.mp mark with rfl | rfl <;> rfl

/-! ## Digits -/

/-- The character ends a number of the given lead: it is no digit, point or exponent. -/
structure Ends (l : Lead) (c : Char) : Prop where
  digit : isDigitOf l c = false
  point : c ≠ '.'
  mark : isMark 'e' c = false ∧ isMark 'p' c = false
  suffix : isMark 'f' c = false ∧ isMark 'd' c = false

section Digits

variable {l : Lead} {opening digits rest : List Char} {s : Scanner}

theorem isDecimal_of_digitValue {c : Char} (h : Number.digitValue c < 10) : isDecimal c = true := by
  rw [isDecimal]
  by_contra other
  rw [Number.digitValue, if_neg other] at h
  split_ifs at h with small capital
  · have low : 'a'.toNat ≤ c.toNat := (by simpa using small : 'a' ≤ c ∧ c ≤ 'f').1
    have value : 'a'.toNat = 97 := rfl
    omega
  · have low : 'A'.toNat ≤ c.toNat := (by simpa using capital : 'A' ≤ c ∧ c ≤ 'F').1
    have value : 'A'.toNat = 65 := rfl
    omega
  · omega

theorem exponent_none {u : Scanner} (h : Ahead u rest) (ends : ∀ c ∈ rest.head?, Ends l c) :
    exponent l false u = (false, u) := by
  unfold exponent
  rw [h.look]
  cases hc : rest.head? with
  | none => simp
  | some c =>
    obtain ⟨e, p⟩ := (ends c hc).mark
    simp [e, p]

/-- Digits behind the letters of their base are read as a whole number. All that can be wrong with
them is the place of an underscore. -/
theorem number_digits (leads : Leads l opening (digits ++ rest))
    (h : Ahead s (opening ++ digits ++ rest))
    (inBase : ∀ c ∈ digits, c = '_' ∨ Number.digitValue c < l.base)
    (some_ : l = .zero ∨ ∃ c ∈ digits, c ≠ '_') (ends : ∀ c ∈ rest.head?, Ends l c) :
    ∃ u, Ahead u rest ∧ Moved s u (opening ++ digits) ∧ number s false s =
      (false, if wellSeparated (opening ++ digits) then u else u.fail .separator) := by
  rw [List.append_assoc] at h
  obtain ⟨t, lead, ahead, moved⟩ := leadOf_leads leads h
  have inLead : ∀ c ∈ digits, isDigitOf l c = true := by
    intro c member
    rw [isDigitOf, Bool.or_eq_true, beq_iff_eq]
    refine (inBase c member).imp id fun small => ?_
    by_cases hex : l = .hex
    · subst hex
      exact decide_eq_true small
    · have decimal : isDecimal c = true := by
        refine isDecimal_of_digitValue (Nat.lt_of_lt_of_le small ?_)
        cases l
        case hex => exact absurd rfl hex
        all_goals decide
      rw [beq_eq_false_iff_ne.mpr hex]
      exact decimal
  obtain ⟨u, span, ahead', moved'⟩ := ahead.span inLead fun c hc => (ends c hc).digit
  refine ⟨u, ahead', moved.trans moved', ?_⟩
  have point : (u.look == some '.') = false := by
    rw [ahead'.look, beq_eq_false_iff_ne]
    exact fun same => (ends '.' same).point rfl
  have present : (l == .zero || anyDigit digits) = true := by
    rw [Bool.or_eq_true, beq_iff_eq, anyDigit, List.any_eq_true]
    simpa using some_
  have good : firstBad l digits = none := by
    rw [firstBad, List.find?_eq_none]
    intro c member
    rcases inBase c member with rfl | small
    · simp
    · simp [small]
  rw [← List.append_assoc] at h
  have passed : s.passed u = opening ++ digits := h.passed (moved.trans moved')
  unfold number
  simp only [lead, span, point, Bool.false_or, Bool.false_and, Bool.false_eq_true, if_false,
    List.append_nil, present, if_true, exponent_none ahead' ends, good, passed]

/-! ## The token -/

/-- The characters are the letter of a long number, or there are none and no such letter follows. -/
def IsSuffix (suffix rest : List Char) : Prop :=
  (suffix = [] ∧ ∀ c ∈ rest.head?, isMark 'l' c = false) ∨ ∃ c, isMark 'l' c = true ∧ suffix = [c]

/-- The constant of a whole number with or without a suffix. -/
def constant (suffix : List Char) (v : Int) : Literal := if suffix = [] then .int v else .long v

variable {u : Scanner} {text : String} {suffix : List Char}

theorem integerToken_ok {v : Int} (start : Scanner) (hs : IsSuffix suffix rest) (h : Ahead u (suffix ++ rest))
    (value : Number.readInteger text = .ok v) :
    ∃ w, integerToken start text u = (token start (.literal (constant suffix v)) text, w) ∧
      Ahead w rest ∧ Moved u w suffix := by
  rcases hs with ⟨rfl, none⟩ | ⟨c, mark, rfl⟩
  · have int : u.looking (isMark 'l') = false := by
      rw [h.looking, List.nil_append]
      cases hc : rest.head? with
      | none => rfl
      | some c => exact none c hc
    refine ⟨u, ?_, h, .refl u⟩
    simp [integerToken, int, value, constant]
  · have long : u.looking (isMark 'l') = true := by
      rw [h.looking]
      exact mark
    obtain ⟨ahead, moved⟩ : Ahead u.skip rest ∧ Moved u u.skip [c] := h.skip
    refine ⟨u.skip, ?_, ahead, moved⟩
    simp [integerToken, long, value, constant]

theorem fault_fail (s : Scanner) (f : Fault) : (s.fail f).fault ≠ none := by
  unfold Scanner.fail
  split
  · next e h => simp [h]
  · simp

theorem fault_failAt (start s : Scanner) (f : Fault) : (failAt start s f).fault ≠ none := by
  unfold failAt
  split
  · next e h => simp [h]
  · simp

theorem fault_read (h : s.fault ≠ none) : s.read.fault ≠ none := by
  unfold Scanner.read
  generalize (if s.look.isSome then s.index + 1 else s.index) = index
  cases s.rest with
  | nil => exact h
  | cons g rest =>
    cases g with
    | stray b => exact fault_fail _ _
    | char c =>
      dsimp only
      split_ifs
      · exact fault_fail _ _
      · exact h
      · exact h

/-- A fault stays, and a text without a value is one. -/
theorem integerToken_fault (start : Scanner) (h : u.fault ≠ none ∨ ∃ e, Number.readInteger text = .error e) :
    (integerToken start text u).2.fault ≠ none := by
  unfold integerToken
  split
  · next v value =>
    have faulty : u.fault ≠ none := h.resolve_right (by simp [value])
    dsimp only
    split
    · exact fault_read (s := u.between) faulty
    · exact faulty
  · exact fault_failAt _ _ _

/-- **Reading digits as a token.** If the underscores stand right and the number is not too large, the
token is the constant; else there is a fault. -/
theorem numberToken_digits (leads : Leads l opening (digits ++ (suffix ++ rest)))
    (h : Ahead s (opening ++ digits ++ (suffix ++ rest)))
    (inBase : ∀ c ∈ digits, c = '_' ∨ Number.digitValue c < l.base)
    (some_ : l = .zero ∨ ∃ c ∈ digits, c ≠ '_')
    (ends : ∀ c ∈ (suffix ++ rest).head?, Ends l c) (hs : IsSuffix suffix rest) :
    (∀ v, wellSeparated (opening ++ digits) = true →
      Number.readInteger (String.ofList (opening ++ digits)) = .ok v →
      ∃ u, numberToken s false s =
          (token s (.literal (constant suffix v)) (String.ofList (opening ++ digits)), u) ∧
        Ahead u rest ∧ Moved s u (opening ++ digits ++ suffix)) ∧
    (wellSeparated (opening ++ digits) = false ∨
      (∃ e, Number.readInteger (String.ofList (opening ++ digits)) = .error e) →
      (numberToken s false s).2.fault ≠ none) := by
  obtain ⟨u, ahead, moved, read⟩ := number_digits leads h inBase some_ ends
  have passed : s.passed u = opening ++ digits := h.passed moved
  have whole : u.looking (fun c => isMark 'f' c || isMark 'd' c) = false := by
    rw [ahead.looking]
    cases hc : (suffix ++ rest).head? with
    | none => rfl
    | some c =>
      obtain ⟨f, d⟩ := (ends c hc).suffix
      simp [f, d]
  have token_ : ∀ t : Scanner, t.look = u.look → t.index = u.index →
      number s false s = (false, t) →
        numberToken s false s = integerToken s (String.ofList (opening ++ digits)) t := by
    intro t look index number_
    have whole' : t.looking (fun c => isMark 'f' c || isMark 'd' c) = false := by
      rw [Scanner.looking, look]
      exact whole
    have passed' : s.passed t = opening ++ digits := by
      rw [← passed, Scanner.passed, Scanner.passed, index]
    simp [numberToken, number_, whole', passed']
  by_cases tidy : wellSeparated (opening ++ digits) = true
  · rw [if_pos tidy] at read
    rw [token_ u rfl rfl read]
    refine ⟨fun v _ value => ?_, fun wrong => ?_⟩
    · obtain ⟨w, same, ahead', moved'⟩ := integerToken_ok s hs ahead value
      exact ⟨w, same, ahead', moved.trans moved'⟩
    · exact integerToken_fault s (.inr (wrong.resolve_left (by simp [tidy])))
  · rw [if_neg tidy] at read
    rw [token_ _ (Scanner.fail_look _) (Scanner.fail_index _) read]
    exact ⟨fun v tidy' => absurd tidy' tidy, fun _ => integerToken_fault s (.inl (fault_fail _ _))⟩

end Digits

/-! ## The number -/

/-- The number that digits spell, underscores left out. -/
def spelled (base : Nat) (cs : List Char) : Nat :=
  (cs.filter (· ≠ '_')).foldl (fun n c => n * base + Number.digitValue c) 0

theorem digitsValue_spelled {base : Nat} {cs : List Char}
    (inBase : ∀ c ∈ cs, c = '_' ∨ Number.digitValue c < base) :
    Number.digitsValue base cs = some (spelled base cs) := by
  rw [Number.digitsValue, spelled]
  generalize 0 = n
  induction cs generalizing n with
  | nil => rfl
  | cons c cs ih =>
    have others := fun d member => inBase d (List.mem_cons_of_mem _ member)
    rw [List.foldl_cons]
    by_cases hc : c = '_'
    · subst hc
      rw [List.filter_cons_of_neg (by simp)]
      exact ih others n
    · have small := (inBase c (List.mem_cons_self ..)).resolve_left hc
      rw [List.filter_cons_of_pos (by simpa using hc), List.foldl_cons]
      have plain : ¬ (c == '_') = true := by simpa using hc
      rw [Option.bind_some, if_neg plain, if_pos small]
      exact ih others _

/-- The number that is read of digits is the one that they spell, if it is not too large. -/
theorem readInteger_leads {l : Lead} {opening cs : List Char} (leads : Leads l opening cs)
    (some_ : cs ≠ []) (inBase : ∀ c ∈ cs, c = '_' ∨ Number.digitValue c < l.base) :
    Number.readInteger (String.ofList (opening ++ cs)) =
      if Number.maxLong < spelled l.base cs then .error .outOfRange
      else .ok (spelled l.base cs) := by
  have present : cs.isEmpty = false := by rwa [List.isEmpty_eq_false_iff]
  rw [Number.readInteger, String.toList_ofList, splitBase_leads leads some_]
  simp only [digitsValue_spelled inBase, present, Bool.false_eq_true, if_false]

end Weaver.Source
