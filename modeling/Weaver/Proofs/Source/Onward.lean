import Mathlib.Data.Prod.Lex
import Weaver.Proofs.Source.Head
/-!
The reading head moves on.

Whatever the reader does, it leaves the head where it was or further on in the text, so that what is
ahead of the head is always an end of what was ahead before, and its place in the text comes no
earlier. If no fault was met on the way, every glyph passed was a character, and the head has moved by
the bytes of those characters. `Onward s t` says this of two states of the head; each function of the
reader has a lemma that carries it over. A function that reads a token takes at least the character
under the head.
-/
set_option autoImplicit false

namespace Weaver.Source

open Weaver.Text (Glyph)

/-- A place in the order of a text. The lines are counted from two, so that the line break at the end of
a line comes after the line and before the next one. -/
def Position.place (p : Position) : Nat ×ₗ Nat := toLex (p.line + 1, p.col)

namespace Scanner

/-- Where the head stands in the order of the text. On a line break it has counted the next line
already. -/
def place (s : Scanner) : Nat ×ₗ Nat :=
  toLex (if 0 < s.column then (s.line + 1, s.column) else (s.line, s.lastLine))

/-- The characters under the head and behind it, as they are shown. -/
def ahead (s : Scanner) : List Char := s.look.toList ++ s.rest.map Glyph.shown

/-- A head with nothing under it is at the end of the text. -/
def Whole (s : Scanner) : Prop := s.look = none → s.rest = []

variable {s t u : Scanner} {c : Char}

theorem ahead_of_look (h : s.look = some c) : s.ahead = c :: s.rest.map Glyph.shown := by
  rw [ahead, h]
  rfl

theorem length_ahead : s.ahead.length = s.look.toList.length + s.rest.length := by
  rw [ahead, List.length_append, List.length_map]

theorem Whole.ahead_eq_nil (h : s.Whole) (hl : s.look = none) : s.ahead = [] := by
  rw [ahead, hl, h hl]
  rfl

@[simp] theorem fail_rest (f : Fault) : (s.fail f).rest = s.rest := by
  rw [fail]
  split <;> rfl

@[simp] theorem fail_look (f : Fault) : (s.fail f).look = s.look := by
  rw [fail]
  split <;> rfl

@[simp] theorem fail_index (f : Fault) : (s.fail f).index = s.index := by
  rw [fail]
  split <;> rfl

@[simp] theorem fail_place (f : Fault) : (s.fail f).place = s.place := by
  rw [fail]
  split <;> rfl

theorem read_rest : s.read.rest = s.rest.tail := by
  rw [read]
  split
  · next none => simp only [none, List.tail_nil]
  · next more => simp only [more, fail_rest, List.tail_cons]
  · next more =>
    dsimp only
    split
    · simp only [more, fail_rest, List.tail_cons]
    · split <;> simp only [more, List.tail_cons]

theorem read_look : s.read.look = s.rest.head?.map Glyph.shown := by
  rw [read]
  split
  · next none => simp only [none, List.head?_nil, Option.map_none]
  · next more => simp only [more, fail_look, List.head?_cons, Option.map_some]
  · next more =>
    dsimp only
    split
    · simp only [more, fail_look, List.head?_cons, Option.map_some, Glyph.shown]
    · split <;> simp only [more, List.head?_cons, Option.map_some, Glyph.shown]

theorem read_index : s.read.index = s.index + s.look.toList.length := by
  have shown : (if s.look.isSome then s.index + 1 else s.index) = s.index + s.look.toList.length := by
    cases s.look <;> rfl
  rw [read]
  split
  · exact shown
  · rw [fail_index]
    exact shown
  · dsimp only
    split
    · rw [fail_index]
      exact shown
    · split <;> exact shown

theorem whole_read : s.read.Whole := by
  intro none
  rw [read_look, Option.map_eq_none_iff, List.head?_eq_none_iff] at none
  rw [read_rest, none]
  rfl

/-- The next character of a line comes later. -/
theorem place_lt_of (line : t.line = s.line) (column : t.column = s.column + 1) :
    s.place < t.place := by
  rw [place, place, Prod.Lex.toLex_lt_toLex, line, column, if_pos (Nat.succ_pos _)]
  split
  · exact .inr ⟨rfl, Nat.lt_succ_self _⟩
  · exact .inl (Nat.lt_succ_self _)

/-- Where there is text behind the head, moving it moves its place. -/
theorem place_lt_read (more : s.rest ≠ []) : s.place < s.read.place := by
  rw [read]
  split
  · next none_ => exact absurd none_ more
  · rw [fail_place]
    exact place_lt_of rfl rfl
  · dsimp only
    split
    · rw [fail_place]
      exact place_lt_of rfl rfl
    · split
      · -- a line break has its place on the line that it ends
        rw [place, place, Prod.Lex.toLex_lt_toLex, if_neg (Nat.lt_irrefl 0)]
        split
        · exact .inr ⟨rfl, Nat.lt_succ_self _⟩
        · exact .inl (Nat.lt_succ_self _)
      · exact place_lt_of rfl rfl

theorem place_le_read : s.place ≤ s.read.place := by
  cases more : s.rest with
  | cons g rest =>
    exact (place_lt_read (by rw [more]; exact List.cons_ne_nil g rest)).le
  | nil =>
    rw [read, more]
    dsimp only
    by_cases last : 0 < s.width
    · rw [if_pos last]
      exact le_of_lt (place_lt_of rfl rfl)
    · rw [if_neg last]
      exact le_rfl

/-- No fault was met that only a parser can have: that its rounds are used up. -/
def Lexical (s : Scanner) : Prop := ∀ e ∈ s.fault, e.fault ≠ .tooDeep

theorem Lexical.fail {f : Fault} (h : s.Lexical) (hf : f ≠ .tooDeep) : (s.fail f).Lexical := by
  rw [Scanner.fail]
  split
  · exact h
  · intro e same
    cases same
    exact hf

theorem Lexical.read (h : s.Lexical) : s.read.Lexical := by
  rw [Scanner.read]
  split
  · exact h
  · exact Lexical.fail h (by intro same; cases same)
  · dsimp only
    split
    · exact Lexical.fail h (by intro same; cases same)
    · split <;> exact h

/-- What is behind the head is ahead when the head was moved. -/
theorem ahead_read : s.read.ahead = s.rest.map Glyph.shown := by
  rw [ahead, read_look, read_rest]
  cases s.rest <;> rfl

/-! ## Text without faults -/

/-- No fault was met, and the text behind the head gives none: there is no stray byte and no NUL. -/
structure Sound (s : Scanner) : Prop where
  fault : s.fault = none
  rest : ∀ g ∈ s.rest, ∃ c, g = Glyph.char c ∧ c ≠ '\x00'

theorem fail_fault_ne_none {f : Fault} : (s.fail f).fault ≠ none := by
  intro fault
  unfold fail at fault
  split at fault
  · next met => cases met.symm.trans fault
  · cases fault

theorem Sound.of_read (h : s.read.Sound) : s.Sound := by
  have behind := read_rest ▸ h.rest
  have fault := h.fault
  unfold read at fault
  cases more : s.rest with
  | nil =>
    rw [more] at fault
    exact ⟨fault, more ▸ List.forall_mem_nil _⟩
  | cons g rest =>
    rw [more] at fault behind
    cases g with
    | stray b => exact absurd fault fail_fault_ne_none
    | char c =>
      dsimp only at fault
      split at fault
      · exact absurd fault fail_fault_ne_none
      · next nul =>
        have first : c ≠ '\x00' := fun same => nul (beq_iff_eq.mpr same)
        refine ⟨?_, more ▸ List.forall_mem_cons.mpr ⟨⟨c, rfl, first⟩, behind⟩⟩
        split at fault <;> exact fault

/-- Where the head stands before characters, it gets to the other state over the first of them. -/
def Reaches (s t : Scanner) : Prop :=
  ∀ cs, Ahead s cs → ∃ xs ds, cs = xs ++ ds ∧ Ahead t ds ∧ Moved s t xs

theorem Reaches.refl (s : Scanner) : s.Reaches s := fun cs h => ⟨[], cs, rfl, h, .refl s⟩

theorem Reaches.trans (h : s.Reaches t) (h' : t.Reaches u) : s.Reaches u := by
  intro cs ahead
  obtain ⟨xs, ds, rfl, next, moved⟩ := h cs ahead
  obtain ⟨ys, es, rfl, last, moved'⟩ := h' ds next
  exact ⟨xs ++ ys, es, (List.append_assoc ..).symm, last, moved.trans moved'⟩

theorem reaches_read (s : Scanner) : s.Reaches s.read := by
  intro cs ahead
  cases cs with
  | nil => exact ⟨[], [], rfl, ahead.read_nil, ahead.moved_nil⟩
  | cons c cs => exact ⟨[c], cs, rfl, ahead.read.1, ahead.read.2⟩

theorem reaches_begin (s : Scanner) : s.Reaches s.begin :=
  fun cs h => ⟨[], cs, rfl, h.begin, rfl, rfl⟩

theorem reaches_between (s : Scanner) : s.Reaches s.between :=
  fun cs h => ⟨[], cs, rfl, h.between, rfl, rfl⟩

/-- The head gets from one state to the other by reading on. -/
structure Onward (s t : Scanner) : Prop where
  ahead : t.ahead <:+ s.ahead
  index : t.index + t.ahead.length = s.index + s.ahead.length
  place : s.place ≤ t.place
  whole : t.Whole
  lexical : s.Lexical → t.Lexical
  sound : t.Sound → s.Sound
  reaches : t.Sound → s.Reaches t

namespace Onward

theorem refl (h : s.Whole) : Onward s s :=
  ⟨List.suffix_rfl, rfl, le_rfl, h, id, id, fun _ => .refl s⟩

theorem trans (h : Onward s t) (h' : Onward t u) : Onward s u :=
  ⟨h'.ahead.trans h.ahead, h'.index.trans h.index, h.place.trans h'.place, h'.whole,
    h'.lexical ∘ h.lexical, h.sound ∘ h'.sound,
    fun sound => (h.reaches (h'.sound sound)).trans (h'.reaches sound)⟩

theorem length_le (h : Onward s t) : t.ahead.length ≤ s.ahead.length := h.ahead.length_le

/-- A head that stands at the same place. -/
theorem same (h : Onward s t) (rest : u.rest = t.rest) (look : u.look = t.look)
    (index : u.index = t.index) (place : u.place = t.place) (lexical : t.Lexical → u.Lexical)
    (sound : u.Sound → t.Sound ∧ t.Reaches u) : Onward s u := by
  have here : u.ahead = t.ahead := by rw [Scanner.ahead, Scanner.ahead, rest, look]
  refine ⟨here ▸ h.ahead, ?_, place ▸ h.place, ?_, lexical ∘ h.lexical,
    fun clean => h.sound (sound clean).1,
    fun clean => (h.reaches (sound clean).1).trans (sound clean).2⟩
  · rw [here, index]
    exact h.index
  · rw [Whole, rest, look]
    exact h.whole

theorem fail {f : Fault} (h : Onward s t) (hf : f ≠ .tooDeep) : Onward s (t.fail f) :=
  h.same (fail_rest f) (fail_look f) (fail_index f) (fail_place f) (fun clear => clear.fail hf)
    fun clean => absurd clean.fault fail_fault_ne_none

theorem begin (h : Onward s t) : Onward s t.begin :=
  h.same rfl rfl rfl rfl id fun clean => ⟨⟨clean.fault, clean.rest⟩, reaches_begin t⟩

theorem between (h : Onward s t) : Onward s t.between :=
  h.same rfl rfl rfl rfl id fun clean => ⟨⟨clean.fault, clean.rest⟩, reaches_between t⟩

theorem read (h : Onward s t) : Onward s t.read := by
  have behind : t.ahead = t.look.toList ++ t.read.ahead := by rw [ahead_read, Scanner.ahead]
  refine ⟨?_, ?_, h.place.trans place_le_read, whole_read, fun clear => (h.lexical clear).read,
    fun clean => h.sound clean.of_read, fun clean => (h.reaches clean.of_read).trans (reaches_read t)⟩
  · refine .trans ?_ h.ahead
    rw [behind]
    exact List.suffix_append _ _
  · rw [← h.index, behind, read_index, List.length_append, Nat.add_assoc]

theorem skip (h : Onward s t) : Onward s t.skip := h.between.read

theorem ite {x : Prop} [Decidable x] (yes : x → Onward s t) (no : ¬ x → Onward s u) :
    Onward s (if x then t else u) := by
  by_cases h : x
  · rw [if_pos h]
    exact yes h
  · rw [if_neg h]
    exact no h

/-- A character is read if it is one of some. -/
theorem readIf (h : Onward s t) (p : Char → Bool) :
    Onward s (if t.looking p then t.read else t) :=
  .ite (fun _ => h.read) fun _ => h

theorem failIf {f : Fault} (h : Onward s t) (x : Prop) [Decidable x] (hf : f ≠ .tooDeep) :
    Onward s (if x then t.fail f else t) :=
  .ite (fun _ => h.fail hf) fun _ => h

theorem failUnless {f : Fault} (h : Onward s t) (x : Prop) [Decidable x] (hf : f ≠ .tooDeep) :
    Onward s (if x then t else t.fail f) :=
  .ite (fun _ => h) fun _ => h.fail hf

/-- What is read on from behind the character under the head is shorter by it. -/
theorem lt (h : Onward s.read t) (look : s.look = some c) : t.ahead.length < s.ahead.length := by
  refine Nat.lt_of_le_of_lt h.length_le ?_
  rw [ahead_read, ahead_of_look look]
  exact Nat.lt_succ_self _

theorem spanFrom {p : Char → Bool} (fuel : List Glyph) (h : Onward s t) :
    Onward s (Scanner.spanFrom p fuel t).2 := by
  induction fuel generalizing t with
  | nil =>
    unfold Scanner.spanFrom
    split
    · exact h
    · split
      · exact h.read
      · exact h
  | cons g fuel ih =>
    unfold Scanner.spanFrom
    split
    · exact h
    · split
      · exact ih h.read
      · exact h

theorem span (h : Onward s t) (p : Char → Bool) : Onward s (t.span p).2 := h.spanFrom _

end Onward

/-- A run that the character under the head belongs to goes beyond it. -/
theorem onward_read_span {p : Char → Bool} (look : s.look = some c) (holds : p c = true) :
    Onward s.read (s.span p).2 := by
  unfold span spanFrom
  simp only [look, holds, if_true]
  split
  · exact .refl whole_read
  · exact (Onward.refl whole_read).spanFrom _

end Scanner

namespace Lexer

open Scanner (Onward)

variable {s s' base start : Scanner} {c : Char}

/-! ## Between tokens -/

theorem onward_blockComment (fuel : List Glyph) (h : Onward base s) :
    Onward base (blockComment fuel s) := by
  induction fuel generalizing s with
  | nil =>
    unfold blockComment
    split
    · exact h.fail nofun
    · exact .ite (fun _ => h.read.read) fun _ => h.read.fail nofun
  | cons g fuel ih =>
    unfold blockComment
    split
    · exact h.fail nofun
    · exact .ite (fun _ => h.read.read) fun _ => ih h.read

theorem onward_comment (h : Onward base s) : Onward base (comment s) :=
  .ite (fun _ => h.read.span _) fun _ => onward_blockComment _ h.read

theorem onward_toToken (fuel : List Glyph) (h : Onward base s) : Onward base (toToken fuel s) := by
  induction fuel generalizing s with
  | nil =>
    unfold toToken
    have here : Onward base (s.span isSpace).2.begin := (h.span _).begin
    exact .ite (fun _ => .ite (fun _ => onward_comment here.read) fun _ => here) fun _ => here
  | cons g fuel ih =>
    unfold toToken
    have here : Onward base (s.span isSpace).2.begin := (h.span _).begin
    exact .ite (fun _ => .ite (fun _ => ih (onward_comment here.read)) fun _ => here) fun _ => here

/-! ## Literals -/

theorem onward_someDigits (base' n : Nat) (h : Onward base s) :
    Onward base (someDigits base' n s) := by
  induction n generalizing s with
  | zero => exact h
  | succ n ih => exact .ite (fun _ => ih h.read) fun _ => h

theorem onward_escapeIn (quote : Char) (h : Onward base s) : Onward base (escapeIn quote s) := by
  unfold escapeIn
  split
  · exact h
  · refine .ite (fun _ => h.read) fun _ => .ite (fun _ => onward_someDigits _ _ h) fun _ => ?_
    refine .ite (fun _ => onward_someDigits _ _ h.read) fun _ => ?_
    refine .ite (fun _ => onward_someDigits _ _ h.read) fun _ => ?_
    exact .ite (fun _ => onward_someDigits _ _ h.read) fun _ => h

theorem onward_literalBody (quote : Char) (fuel : List Glyph) (n : Nat) (h : Onward base s) :
    Onward base (literalBody quote fuel s n).2 := by
  have next (c : Char) : Onward base (if c == '\\' then escapeIn quote s.read else s.read) :=
    .ite (fun _ => onward_escapeIn quote h.read) fun _ => h.read
  induction fuel generalizing s n with
  | nil =>
    unfold literalBody
    split
    · exact h.fail nofun
    · split
      · exact h
      · split
        · exact h.fail nofun
        · exact (next _).fail nofun
  | cons g fuel ih =>
    unfold literalBody
    split
    · exact h.fail nofun
    · split
      · exact h
      · split
        · exact h.fail nofun
        · refine ih _ (next _) fun d => ?_
          exact .ite (fun _ => onward_escapeIn quote (next _).read) fun _ => (next _).read

/-- Behind the opening quote one more character is taken, if there is one. -/
theorem onward_quotedLiteral (quote : Char) (s : Scanner) :
    ∃ t, Onward s.read t ∧ quotedLiteral quote s = t.read := by
  have body := onward_literalBody quote s.read.rest 0 (.refl (s := s.read) Scanner.whole_read)
  refine ⟨_, ?_, rfl⟩
  exact .ite (fun _ => body.fail nofun) fun _ => body

/-! ## Numbers -/

theorem onward_exponent (l : Lead) (isFloat : Bool) (h : Onward base s) :
    Onward base (exponent l isFloat s).2 := by
  have mark (c : Char) : Onward base (if isMark 'e' c && l != .plain && l != .zero then
        s.fail (.exponentMantissa c .decimal)
      else if isMark 'p' c && l != .hex then s.fail (.exponentMantissa c .hexadecimal)
      else s).read :=
    (Onward.ite (fun _ => h.fail (by nofun)) fun _ => .ite (fun _ => h.fail (by nofun)) fun _ => h).read
  unfold exponent
  split
  · next c _ =>
    split
    · refine Onward.ite (fun _ => ?_) fun _ => ?_
      · exact ((mark c).readIf _).span _
      · exact (((mark c).readIf _).span _).fail nofun
    · exact .ite (fun _ => h.fail nofun) fun _ => h
  · exact .ite (fun _ => h.fail nofun) fun _ => h

theorem onward_number (afterDot : Bool) (dot : afterDot = true → Onward base s)
    (digits : afterDot = false → Onward base ((leadOf s).2.span (isDigitOf (leadOf s).1)).2) :
    Onward base (number start afterDot s).2 := by
  unfold number
  split
  next l s₁ lead =>
  split
  next whole s₂ run =>
  extract_lets point s₃ s₄
  split
  next fraction s₅ more =>
  extract_lets s₆
  split
  next isFloat s₇ power =>
  extract_lets s₈
  have h₂ : Onward base s₂ := by
    cases afterDot with
    | true =>
      obtain ⟨rfl, rfl⟩ := Prod.mk.inj lead
      obtain ⟨rfl, rfl⟩ := Prod.mk.inj run
      exact dot rfl
    | false =>
      have here : s₂ = ((leadOf s).2.span (isDigitOf (leadOf s).1)).2 := by
        rw [show leadOf s = (l, s₁) from lead]
        exact (congrArg Prod.snd run).symm
      exact here ▸ digits rfl
  have h₄ : Onward base s₄ := (Onward.ite (fun _ => h₂.read) fun _ => h₂).failIf _ nofun
  have h₅ : Onward base s₅ := by
    split at more
    · have digits := h₄.span (isDigitOf l)
      rwa [more] at digits
    · obtain ⟨-, rfl⟩ := Prod.mk.inj more
      exact h₄
  have h₇ : Onward base s₇ := by
    have digits : Onward base s₆ := h₅.failUnless _ nofun
    have after := onward_exponent l point digits
    rwa [power] at after
  have h₈ : Onward base s₈ := by
    dsimp only [s₈]
    split
    · exact h₇.failUnless _ nofun
    · exact h₇
  exact h₈.failUnless _ nofun

theorem isDecimal_isDigitOf {l : Lead} (hl : l ≠ .hex) (h : isDecimal c = true) :
    isDigitOf l c = true := by
  rw [isDigitOf, if_neg (mt eq_of_beq hl), h, Bool.or_true]

/-- A number that begins with a digit takes that digit. -/
theorem onward_digits (look : s.look = some c) (decimal : isDecimal c = true) :
    Onward s.read ((leadOf s).2.span (isDigitOf (leadOf s).1)).2 := by
  have behind : Onward s.read s.read := .refl Scanner.whole_read
  unfold leadOf
  split
  · refine Onward.span ?_ _
    dsimp only
    split
    · exact behind.read
    · split
      · exact behind.read
      · split
        · exact behind.read
        · exact behind
  · exact Scanner.onward_read_span look (isDecimal_isDigitOf Lead.noConfusion decimal)

/-! ## Tokens -/

theorem onward_failAt {f : Fault} (h : Onward base s) (hf : f ≠ .tooDeep) :
    Onward base (failAt start s f) := by
  unfold failAt
  split
  · exact h
  · refine h.same rfl rfl rfl rfl (fun _ e same => ?_) fun clean => ?_
    · cases same
      exact hf
    · cases clean.fault

theorem onward_floatToken (text : String) (h : Onward base s) :
    Onward base (floatToken start text s).2 := by
  unfold floatToken
  extract_lets single s₁
  have h₁ : Onward base s₁ := .ite (fun _ => h.skip) fun _ => h
  split
  · exact h₁
  · exact onward_failAt h₁ nofun

theorem onward_integerToken (text : String) (h : Onward base s) :
    Onward base (integerToken start text s).2 := by
  unfold integerToken
  extract_lets long s₁
  have h₁ : Onward base s₁ := .ite (fun _ => h.skip) fun _ => h
  split
  · exact h₁
  · exact onward_failAt h₁ nofun

theorem onward_numberToken (afterDot : Bool) (h : Onward base (number start afterDot s).2) :
    Onward base (numberToken start afterDot s).2 := by
  unfold numberToken
  split
  next isFloat s₁ read =>
  rw [read] at h
  extract_lets text
  split
  · exact onward_floatToken text h
  · exact onward_integerToken text h

theorem onward_extend (n : Nat) (op : String) (h : Onward base s) :
    Onward base (extend n op s).2 := by
  induction n generalizing op s with
  | zero => exact h
  | succ n ih =>
    unfold extend
    split
    · split
      · exact ih _ h.skip
      · exact h
    · exact h

theorem onward_operatorToken (h : Onward base s) : Onward base (operatorToken start c s).2 := by
  unfold operatorToken
  split
  next op s₁ extended =>
  have h₁ := onward_extend 2 c.toString h
  rw [extended] at h₁
  exact .ite (fun _ => onward_failAt h₁ nofun) fun _ => h₁

theorem onward_quotedToken {quote : Char} {t : Token} (read : quotedToken s quote = .ok (t, s')) :
    Onward s.read s' := by
  have here : Onward s.read (quotedLiteral quote s) := by
    obtain ⟨u, body, same⟩ := onward_quotedLiteral quote s
    exact same ▸ body.read
  unfold quotedToken at read
  dsimp only at read
  split at read
  · cases read
  · split at read
    · cases read
      exact onward_failAt here nofun
    · split at read
      · cases read
        exact here
      · split at read
        · cases read
          exact here
        · cases read
          exact onward_failAt here nofun

end Lexer

end Weaver.Source
