import Weaver.Proofs.Source.Numeral
/-!
Integer literals of the language.

An `IntegerLiteral` is a literal as the grammar has it: a base, digits of that base with underscores
between them, and perhaps the letter of a long number. What it denotes is a number of 32 or 64 bits;
a decimal literal may go up to the largest such number, one of another base up to the largest pattern
of bits. `next_integer` says what the scanner makes of each of them.
-/
set_option autoImplicit false

namespace Weaver.Source

open Lexer

/-- The number of digits of a base. -/
def Radix.base : Radix → Nat
  | decimal => 10
  | hexadecimal => 16
  | octal => 8
  | binary => 2

/-- The characters in front of the digits; the letter of a base may be a capital. -/
def Radix.opening (capital : Bool) : Radix → List Char
  | decimal => []
  | hexadecimal => ['0', if capital then 'X' else 'x']
  | octal => ['0']
  | binary => ['0', if capital then 'B' else 'b']

/-- How the scanner takes a literal of a base. -/
def Radix.lead : Radix → Lead
  | .decimal => .plain
  | .hexadecimal => .hex
  | .octal => .zero
  | .binary => .binary

/-- An integer literal as the grammar of the language has it. -/
structure IntegerLiteral where
  radix : Radix
  capital : Bool
  /-- The digits behind the characters of the base, with the underscores among them. -/
  digits : List Char
  suffix : Option Char
  inBase : ∀ c ∈ digits, c = '_' ∨ Number.digitValue c < radix.base
  /-- The last digit is one. -/
  last : ∃ c, digits.getLast? = some c ∧ c ≠ '_'
  /-- So is the first one, but for the zero that all octal literals begin with. -/
  first : radix ≠ .octal → digits.head? ≠ some '_'
  /-- A decimal literal begins with zero only if it is zero. -/
  zero : radix = .decimal → digits.head? = some '0' → digits = ['0']
  suffixed : ∀ c ∈ suffix, c = 'l' ∨ c = 'L'

namespace IntegerLiteral

variable (i : IntegerLiteral)

/-- The literal without its suffix. -/
def numeral : List Char := i.radix.opening i.capital ++ i.digits

/-- The literal as it is written. -/
def text : String := String.ofList (i.numeral ++ i.suffix.toList)

/-- The literal is of type `long`. -/
def isLong : Bool := i.suffix.isSome

/-- The number that the digits spell. -/
def value : Nat := spelled i.radix.base i.digits

/-- The number of which half the patterns of bits are negative. -/
def half : Nat := if i.isLong then 2 ^ 63 else 2 ^ 31

/-- The literal may stand in a program, under a minus sign or not. -/
def Admissible (negated : Bool) : Prop :=
  if i.radix = .decimal then i.value < i.half ∨ (negated = true ∧ i.value = i.half)
  else i.value < 2 * i.half

/-- The number that the literal denotes in a program: its bits in two's complement. -/
def word : Int :=
  if i.isLong then (BitVec.ofNat 64 i.value).toInt else (BitVec.ofNat 32 i.value).toInt

/-- No underscore follows another one. -/
def Spaced : Prop := ¬ ['_', '_'] <:+: i.digits

/-- The constant with the number that the digits spell. -/
def constant : Literal := if i.isLong then .long i.value else .int i.value

/-! ## Its digits -/

variable {i}

theorem digits_cons : ∃ c cs, i.digits = c :: cs := by
  obtain ⟨c, last, -⟩ := i.last
  cases h : i.digits with
  | nil =>
    rw [h] at last
    cases last
  | cons c cs => exact ⟨c, cs, rfl⟩

theorem tidy_digits : Tidy i.digits ↔ i.Spaced := by
  obtain ⟨c, last, other⟩ := i.last
  refine and_iff_right ?_
  rw [last]
  exact fun same => other (Option.some.inj same)

/-- Behind the characters of the base, too. -/
theorem tidy_behind {d : Char} (hd : d ≠ '_') : Tidy (d :: i.digits) ↔ i.Spaced := by
  obtain ⟨c, cs, digits⟩ := i.digits_cons
  rw [← tidy_digits, digits, tidy_cons_cons]
  exact and_iff_right fun both => hd both.1

theorem digits_of_base {hex : Bool} (h : hex = true ∨ i.radix.base ≤ 10) : Digits hex i.digits := by
  intro c member
  refine (i.inBase c member).imp id fun small => ?_
  rw [Bool.or_eq_true, Bool.and_eq_true]
  rcases h with rfl | low
  · refine .inr ⟨rfl, decide_eq_true (Nat.lt_of_lt_of_le small ?_)⟩
    cases i.radix <;> decide
  · exact .inl (isDecimal_of_digitValue (Nat.lt_of_lt_of_le small low))

/-! ## What the scanner finds -/

theorem base_lead (r : Radix) : r.lead.base = r.base := by
  cases r <;> rfl

/-- Zero in base ten is written as octal numbers are. -/
def IsZero (i : IntegerLiteral) : Prop := i.radix = .decimal ∧ i.digits = ['0']

theorem first_ne_zero (hr : i.radix = .decimal) (hz : ¬ i.IsZero) : i.digits.head? ≠ some '0' :=
  fun zero => hz ⟨hr, i.zero hr zero⟩

/-- The characters of the base lead to the digits, whatever stands behind them. -/
theorem leads (hz : ¬ i.IsZero) (behind : List Char) :
    Leads i.radix.lead (i.radix.opening i.capital) (i.digits ++ behind) := by
  obtain ⟨c, cs, digits⟩ := i.digits_cons
  have inBase := i.inBase c (by rw [digits]; exact List.mem_cons_self ..)
  cases radix : i.radix with
  | decimal =>
    have other := first_ne_zero radix hz
    rw [digits] at other ⊢
    exact .plain other
  | hexadecimal =>
    refine .hex ?_
    cases i.capital <;> decide
  | octal =>
    rw [radix] at inBase
    rw [digits]
    refine .zero ?_
    rintro d ⟨⟩
    exact isMark_digit (inBase.imp id fun small => Nat.lt_of_lt_of_le small (by decide))
  | binary =>
    refine .binary ?_
    cases i.capital <;> decide

/-- What the scanner finds about the underscores. -/
theorem wellSeparated_numeral : wellSeparated i.numeral = true ↔ i.Spaced := by
  by_cases hz : i.IsZero
  · rw [numeral, hz.1, hz.2, Spaced, hz.2]
    refine iff_of_true rfl fun infix_ => ?_
    have length : 2 ≤ 1 := infix_.length_le
    exact absurd length (by decide)
  · have leads := i.leads hz []
    rw [List.append_nil] at leads
    by_cases hr : i.radix = .decimal
    · have other := first_ne_zero hr hz
      have all : Digits false i.digits := digits_of_base (.inr (by rw [hr]; decide))
      have whole : i.numeral = i.digits := by
        rw [numeral, hr]
        rfl
      rw [whole, wellSeparated_plain other, ← tidy_digits]
      obtain ⟨c, cs, digits⟩ := i.digits_cons
      have some_ : c ≠ '_' := by
        have first := i.first (by rw [hr]; decide)
        rw [digits] at first
        exact fun same => first (congrArg some same)
      rw [digits] at all ⊢
      have digit : isDecimal c = true := by
        have first := (all c (List.mem_cons_self ..)).resolve_left some_
        rwa [Bool.false_and, Bool.or_false] at first
      rw [separated_digit digit]
      exact (separated_iff fun d member => all d (List.mem_cons_of_mem _ member)).1 c some_
    · have plain : i.radix.lead ≠ .plain := by
        revert hr
        cases i.radix <;> decide
      have all : Digits (i.radix.lead == .hex) i.digits := by
        refine digits_of_base ?_
        revert hr
        cases i.radix <;> decide
      rw [numeral, wellSeparated_leads leads plain, ← tidy_behind (d := '0') (by decide)]
      exact (separated_iff all).1 _ (by decide)

/-- What number the scanner reads. -/
theorem readInteger_numeral : Number.readInteger (String.ofList i.numeral) =
    if Number.maxLong < i.value then .error .outOfRange else .ok i.value := by
  by_cases hz : i.IsZero
  · rw [numeral, value, hz.1, hz.2, Number.readInteger, String.toList_ofList]
    rfl
  · obtain ⟨c, cs, digits⟩ := i.digits_cons
    have some_ : i.digits ≠ [] := by
      rw [digits]
      exact List.cons_ne_nil c cs
    have leads := i.leads hz []
    rw [List.append_nil] at leads
    rw [numeral, readInteger_leads leads some_ (by rw [base_lead]; exact i.inBase), base_lead]
    rfl

/-! ## Its token -/

/-- A literal begins with a digit. -/
theorem numeral_cons : ∃ c cs, i.numeral = c :: cs ∧ isDecimal c = true := by
  cases radix : i.radix with
  | decimal =>
    obtain ⟨c, cs, digits⟩ := i.digits_cons
    have inBase := i.inBase c (by rw [digits]; exact List.mem_cons_self ..)
    have first := i.first (by rw [radix]; decide)
    rw [digits] at first
    rw [radix] at inBase
    refine ⟨c, cs, by rw [numeral, radix, digits]; rfl, ?_⟩
    exact isDecimal_of_digitValue (inBase.resolve_left fun same => first (congrArg some same))
  | hexadecimal => exact ⟨'0', _, by rw [numeral, radix]; rfl, rfl⟩
  | octal => exact ⟨'0', _, by rw [numeral, radix]; rfl, rfl⟩
  | binary => exact ⟨'0', _, by rw [numeral, radix]; rfl, rfl⟩

/-- The scanner takes the characters of a literal as those of a base and digits. Zero in base ten has
no digits of its own for it. -/
theorem scanned (behind : List Char)
    (marks : ∀ c ∈ behind.head?, ∀ m ∈ ['x', 'o', 'b'], isMark m c = false) :
    ∃ l opening ds, opening ++ ds = i.numeral ∧ Leads l opening (ds ++ behind) ∧
      (∀ c ∈ ds, c = '_' ∨ Number.digitValue c < l.base) ∧ (l = .zero ∨ ∃ c ∈ ds, c ≠ '_') := by
  by_cases hz : i.IsZero
  · refine ⟨.zero, ['0'], [], ?_, .zero marks, nofun, .inl rfl⟩
    rw [numeral, hz.1, hz.2]
    rfl
  · refine ⟨i.radix.lead, i.radix.opening i.capital, i.digits, rfl, i.leads hz behind, ?_, .inr ?_⟩
    · rw [base_lead]
      exact i.inBase
    · obtain ⟨c, last, other⟩ := i.last
      exact ⟨c, List.mem_of_getLast? last, other⟩

/-- The character ends a number or is the letter of a long one. -/
def Closes (c : Char) : Prop := (c = 'l' ∨ c = 'L') ∨ continuesWord c = false ∧ c ≠ '.'

theorem isHex_of_isDecimal {c : Char} (h : isDecimal c = true) : isHex c = true := by
  have high : c.toNat ≤ '9'.toNat := (by simpa [isDecimal] using h : '0' ≤ c ∧ c ≤ '9').2
  have nine : '9'.toNat = 57 := rfl
  rw [isDecimal] at h
  rw [isHex, decide_eq_true_eq, Number.digitValue, if_pos h]
  omega

theorem continuesWord_of_isHex {c : Char} (h : isHex c = true) : continuesWord c = true := by
  have table : ∀ n < 128, isHex (Char.ofNat n) = true → continuesWord (Char.ofNat n) = true := by
    decide
  have low : c.toNat < 128 := by
    rw [isHex, decide_eq_true_eq, Number.digitValue] at h
    have nine : '9'.toNat = 57 ∧ 'f'.toNat = 102 ∧ 'F'.toNat = 70 := ⟨rfl, rfl, rfl⟩
    split_ifs at h with decimal small capital
    · have high : c.toNat ≤ '9'.toNat := (by simpa using decimal : '0' ≤ c ∧ c ≤ '9').2
      omega
    · have high : c.toNat ≤ 'f'.toNat := (by simpa using small : 'a' ≤ c ∧ c ≤ 'f').2
      omega
    · have high : c.toNat ≤ 'F'.toNat := (by simpa using capital : 'A' ≤ c ∧ c ≤ 'F').2
      omega
    · omega
  have back : Char.ofNat c.toNat = c := Char.ofNat_toNat c
  rw [← back] at h ⊢
  exact table _ low h

/-- What continues no word is none of the letters that continue a number. -/
theorem isMark_of_continuesWord {c : Char} (h : continuesWord c = false) :
    ∀ m ∈ ['x', 'o', 'b', 'e', 'p', 'f', 'd', 'l'], isMark m c = false := by
  have letters : ∀ m ∈ ['x', 'o', 'b', 'e', 'p', 'f', 'd', 'l'],
      continuesWord m = true ∧ continuesWord m.toUpper = true := by
    simp only [List.forall_mem_cons, List.not_mem_nil, false_implies, implies_true, and_true]
    decide
  intro m member
  rw [Bool.eq_false_iff]
  intro mark
  rcases isMark_iff.mp mark with rfl | rfl
  · rw [(letters _ member).1] at h
    cases h
  · rw [(letters m member).2] at h
    cases h

theorem Closes.ends {c : Char} (h : Closes c) (l : Lead) : Ends l c := by
  rcases h with h | ⟨word, point⟩
  · rcases h with rfl | rfl <;> exact ⟨by cases l <;> rfl, by decide, by decide, by decide⟩
  · have letter := isMark_of_continuesWord word
    refine ⟨?_, point, ⟨letter _ (by decide), letter _ (by decide)⟩,
      ⟨letter _ (by decide), letter _ (by decide)⟩⟩
    have hex : isHex c = false := by
      rw [Bool.eq_false_iff]
      intro hex
      rw [continuesWord_of_isHex hex] at word
      cases word
    have decimal : isDecimal c = false := by
      rw [Bool.eq_false_iff]
      intro decimal
      rw [isHex_of_isDecimal decimal] at hex
      cases hex
    have underscore : (c == '_') = false := by
      rw [beq_eq_false_iff_ne]
      rintro rfl
      cases word
    rw [isDigitOf, underscore, Bool.false_or]
    split
    · exact hex
    · exact decimal

theorem Closes.marks {c : Char} (h : Closes c) : ∀ m ∈ ['x', 'o', 'b'], isMark m c = false := by
  intro m member
  rcases h with h | ⟨word, -⟩
  · simp only [List.mem_cons, List.not_mem_nil, or_false] at member
    rcases h with rfl | rfl <;> rcases member with rfl | rfl | rfl <;> decide
  · exact isMark_of_continuesWord word m (List.mem_append_left _ member)

section Next

variable {s s' : Scanner} {rest : List Char}

/-- What stands behind the digits ends them. -/
theorem closes_behind (behind : ∀ c ∈ rest.head?, continuesWord c = false ∧ c ≠ '.') :
    ∀ c ∈ (i.suffix.toList ++ rest).head?, Closes c := by
  intro c first
  cases suffix : i.suffix with
  | none =>
    rw [suffix] at first
    exact .inr (behind c first)
  | some d =>
    rw [suffix] at first
    obtain rfl : d = c := Option.some.inj first
    exact .inl (i.suffixed d suffix)

theorem constant_eq : i.constant = Source.constant i.suffix.toList i.value := by
  rw [constant, Source.constant, isLong]
  cases i.suffix <;> rfl

theorem isSuffix (behind : ∀ c ∈ rest.head?, continuesWord c = false ∧ c ≠ '.') :
    IsSuffix i.suffix.toList rest := by
  cases suffix : i.suffix with
  | none => exact .inl ⟨rfl, fun c first => isMark_of_continuesWord (behind c first).1 _ (by decide)⟩
  | some d =>
    refine .inr ⟨d, ?_, rfl⟩
    rcases i.suffixed d suffix with rfl | rfl <;> rfl

/-- A digit begins a number. -/
theorem next_of_digit {c : Char} (hs : toToken s.rest s.between = s') (look : s'.look = some c)
    (digit : isDecimal c = true) : next s = .ok (numberToken s' false s') := by
  have word : startsWord c = false := by
    rw [Bool.eq_false_iff]
    intro word
    rw [isDecimal_of_startsWord word] at digit
    cases digit
  unfold next
  rw [hs]
  simp only [look, word, digit, Bool.false_eq_true, if_false, if_true]

/-- **Reading an integer literal.** In front of a character that does not continue it, a literal whose
underscores stand alone and whose number fits 63 bits is read as the constant with its number. Any
other literal is a fault. -/
theorem next_integer (hs : toToken s.rest s.between = s')
    (h : Ahead s' (i.numeral ++ (i.suffix.toList ++ rest)))
    (behind : ∀ c ∈ rest.head?, continuesWord c = false ∧ c ≠ '.') :
    ∃ t u, next s = .ok (t, u) ∧
      (i.Spaced ∧ i.value ≤ Number.maxLong → t.kind = .literal i.constant ∧ Ahead u rest) ∧
      (¬ (i.Spaced ∧ i.value ≤ Number.maxLong) → u.fault ≠ none) := by
  obtain ⟨c, cs, numeral_, digit⟩ := i.numeral_cons
  have look : s'.look = some c := by
    rw [h.look, numeral_]
    rfl
  have closes := i.closes_behind behind
  obtain ⟨l, opening, ds, whole, leads, inBase, some_⟩ :=
    i.scanned (i.suffix.toList ++ rest) fun c first => (closes c first).marks
  rw [← whole] at h
  obtain ⟨good, bad⟩ := numberToken_digits leads h inBase some_
    (fun c first => (closes c first).ends l) (i.isSuffix behind)
  rw [whole] at good bad
  have read := next_of_digit hs look digit
  generalize numberToken s' false s' = tu at good bad read
  obtain ⟨t, u⟩ := tu
  refine ⟨t, u, read, ?_, ?_⟩
  · rintro ⟨spaced, small⟩
    have value : Number.readInteger (String.ofList i.numeral) = .ok (i.value : Int) := by
      rw [readInteger_numeral, if_neg (Nat.not_lt_of_le small)]
    obtain ⟨u', same, ahead, -⟩ := good i.value (wellSeparated_numeral.mpr spaced) value
    obtain ⟨rfl, rfl⟩ := Prod.mk.inj same
    rw [constant_eq]
    exact ⟨rfl, ahead⟩
  · intro wrong
    apply bad
    by_cases spaced : i.Spaced
    · have large : Number.maxLong < i.value := Nat.lt_of_not_le fun small => wrong ⟨spaced, small⟩
      exact .inr ⟨.outOfRange, by rw [readInteger_numeral, if_pos large]⟩
    · exact .inl (Bool.eq_false_iff.mpr fun tidy => spaced (wellSeparated_numeral.mp tidy))

end Next

/-! ## Its text -/

section Text

variable {s : Scanner}

/-- Nothing of a literal makes the scanner stumble. -/
theorem clean : '\x00' ∉ i.numeral ++ i.suffix.toList := by
  have opening : '\x00' ∉ i.radix.opening i.capital := by
    cases i.radix <;> cases i.capital <;> decide
  intro member
  rcases List.mem_append.mp member with inside | suffix
  · rcases List.mem_append.mp inside with first | digit
    · exact opening first
    · have small := (i.inBase _ digit).resolve_left (by decide)
      have large : i.radix.base ≤ 16 := by cases i.radix <;> decide
      exact absurd (Nat.lt_of_lt_of_le small large) (by decide)
  · rcases i.suffixed _ (Option.mem_toList.mp suffix) with same | same <;> revert same <;> decide

theorem all_end (h : Ahead s []) (fuel : Nat) : ∃ e, all (fuel + 1) s = .ok [e] ∧ e.kind = .endOfFile := by
  have start : Ahead s.between ([] ++ []) := h.between
  obtain ⟨ahead, -⟩ := ahead_toToken s.rest start nofun nofun rfl
  have look : (toToken s.rest s.between).look = none := ahead.look
  refine ⟨⟨.endOfFile, "", (toToken s.rest s.between).position,
    (toToken s.rest s.between).here⟩, ?_, rfl⟩
  unfold all next
  simp only [look, ahead.fault]
  rfl

theorem all_next {t : Token} {u : Scanner} (read : next s = .ok (t, u)) (faultless : u.fault = none)
    (more : t.isEnd = false) (fuel : Nat) : all (fuel + 1) s = (all fuel u).map (t :: ·) := by
  rw [all, read]
  simp only [faultless, more, Bool.false_eq_true, if_false]

theorem all_fault {t : Token} {u : Scanner} (read : next s = .ok (t, u)) (faulty : u.fault ≠ none)
    (fuel : Nat) :    ∃ e, all (fuel + 1) s = .error e := by
  obtain ⟨e, fault⟩ := Option.ne_none_iff_exists'.mp faulty
  refine ⟨.malformed e, ?_⟩
  rw [all, read]
  simp only [fault]

theorem ne_of_isDecimal {c d : Char} (h : isDecimal c = true) (hd : isDecimal d = false) :
    c ≠ d := by
  rintro rfl
  rw [h] at hd
  cases hd

/-- In front of a character that is no white space and begins no comment the next token begins. -/
theorem ahead_token {c : Char} {cs : List Char} (h : Ahead s (c :: cs)) (space : isSpace c = false)
    (slash : c ≠ '/') : Ahead (toToken s.rest s.between) (c :: cs) := by
  have start : Ahead s.between ([] ++ c :: cs) := h.between
  have comment : opensComment (c :: cs) = false := by
    unfold opensComment
    split
    · next same => exact absurd (List.cons.inj same).1 slash
    · rfl
  refine (ahead_toToken s.rest start nofun ?_ comment).1
  rintro d ⟨⟩
  exact space

/-- The tokens of a text that ends with a literal. -/
theorem all_integer (h : Ahead s (i.numeral ++ i.suffix.toList)) (fuel : Nat) :
    (i.Spaced ∧ i.value ≤ Number.maxLong → ∃ t e, all (fuel + 2) s = .ok [t, e] ∧
      t.kind = .literal i.constant ∧ e.kind = .endOfFile) ∧
    (¬ (i.Spaced ∧ i.value ≤ Number.maxLong) → ∃ e, all (fuel + 2) s = .error e) := by
  obtain ⟨c, cs, numeral_, digit⟩ := i.numeral_cons
  have unlike : isSpace c = false ∧ c ≠ '/' := by
    obtain ⟨blank, tab, newline, return_, slash⟩ : c ≠ ' ' ∧ c ≠ '\t' ∧ c ≠ '\n' ∧ c ≠ '\r' ∧ c ≠ '/' :=
      ⟨ne_of_isDecimal digit rfl, ne_of_isDecimal digit rfl, ne_of_isDecimal digit rfl,
        ne_of_isDecimal digit rfl, ne_of_isDecimal digit rfl⟩
    exact ⟨by simp [isSpace, blank, tab, newline, return_], slash⟩
  have ahead : Ahead (toToken s.rest s.between) (i.numeral ++ (i.suffix.toList ++ [])) := by
    rw [List.append_nil]
    rw [numeral_, List.cons_append] at h ⊢
    exact ahead_token h unlike.1 unlike.2
  obtain ⟨t, u, read, good, bad⟩ := next_integer rfl ahead (by simp)
  refine ⟨fun right => ?_, fun wrong => all_fault read (bad wrong) _⟩
  obtain ⟨kind, behind⟩ := good right
  obtain ⟨e, rest, ended⟩ := all_end behind fuel
  refine ⟨t, e, ?_, kind, ended⟩
  have more : t.isEnd = false := by
    rw [Token.isEnd, kind]
    rfl
  rw [all_next read behind.fault more, rest]
  rfl

/-- **The tokens of a literal.** -/
theorem tokens_integer :
    (i.Spaced ∧ i.value ≤ Number.maxLong → ∃ t e, tokens (Text.Glyph.ofString i.text) = .ok [t, e] ∧
      t.kind = .literal i.constant ∧ e.kind = .endOfFile) ∧
    (¬ (i.Spaced ∧ i.value ≤ Number.maxLong) →
      ∃ e, tokens (Text.Glyph.ofString i.text) = .error e) := by
  obtain ⟨c, cs, numeral_, digit⟩ := i.numeral_cons
  have mark : ∀ c ∈ (i.numeral ++ i.suffix.toList).head?, c ≠ '\uFEFF' := by
    rw [numeral_]
    rintro d ⟨⟩
    exact ne_of_isDecimal digit rfl
  obtain ⟨ahead, -⟩ := ahead_start i.clean mark
  rw [tokens, Text.Glyph.ofString, text, String.toList_ofList]
  exact all_integer ahead _

/-- The tokens of a literal under a minus sign. -/
theorem tokens_negated :
    (i.Spaced ∧ i.value ≤ Number.maxLong → ∃ m t e,
      tokens (Text.Glyph.ofString ("-" ++ i.text)) = .ok [m, t, e] ∧ m.kind = .operator ∧
        m.text = "-" ∧ t.kind = .literal i.constant ∧ e.kind = .endOfFile) ∧
    (¬ (i.Spaced ∧ i.value ≤ Number.maxLong) →
      ∃ e, tokens (Text.Glyph.ofString ("-" ++ i.text)) = .error e) := by
  obtain ⟨c, cs, numeral_, digit⟩ := i.numeral_cons
  have whole : ("-" ++ i.text).toList = '-' :: (i.numeral ++ i.suffix.toList) := by
    have sign : "-".toList = ['-'] := rfl
    rw [String.toList_append, sign, text, String.toList_ofList, List.singleton_append]
  have clean_ : '\x00' ∉ '-' :: (i.numeral ++ i.suffix.toList) :=
    List.not_mem_cons_of_ne_of_not_mem (by decide) i.clean
  obtain ⟨ahead, -⟩ := ahead_start clean_ (by rintro d ⟨⟩; decide)
  have stops : endsBefore "-" (i.numeral ++ i.suffix.toList).head? = true := by
    have minus : c ≠ '-' := ne_of_isDecimal digit rfl
    have equals : c ≠ '=' := ne_of_isDecimal digit rfl
    have longer : extensions.lookup "-" = some ['-', '='] := by decide
    rw [numeral_]
    simp [endsBefore, stopsAt, longer, minus, equals]
  obtain ⟨m, u, read, kind, sign, -, behind, -⟩ :=
    lexes_operator (by decide) stops _ _ rfl (ahead_token ahead rfl (by decide))
  have more : m.isEnd = false := by
    rw [Token.isEnd, kind]
    rfl
  have first := all_next read behind.fault more ((i.numeral ++ i.suffix.toList).length + 2)
  have all_ : tokens (Text.Glyph.ofString ("-" ++ i.text)) =
      (all ((i.numeral ++ i.suffix.toList).length + 2) u).map (m :: ·) := by
    rw [tokens, Text.Glyph.ofString, whole, ← first, List.length_map, List.length_cons]
  obtain ⟨good, bad⟩ := all_integer behind (i.numeral ++ i.suffix.toList).length
  rw [all_]
  refine ⟨fun right => ?_, fun wrong => ?_⟩
  · obtain ⟨t, e, rest, literal, ended⟩ := good right
    exact ⟨m, t, e, by rw [rest]; rfl, kind, sign, literal, ended⟩
  · obtain ⟨e, failed⟩ := bad wrong
    exact ⟨e, by rw [failed]; rfl⟩

end Text

end IntegerLiteral

end Weaver.Source
