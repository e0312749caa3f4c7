import Mathlib.Algebra.GroupWithZero.Nat
import Weaver.Main
/-!
The reading head on decoded text.

A text that comes from a string has no stray bytes, and a text without NUL characters gives the head
nothing to complain about. On such a text the head is described by the characters that are still
ahead of it, and by how many bytes and characters it has passed; lines and columns play no part in
how a text is read.
-/
set_option autoImplicit false

namespace Weaver.Source

open Weaver.Text (Glyph)

/-- The bytes that characters take in a file. -/
def bytes (cs : List Char) : Nat := (cs.map Char.utf8Size).sum

@[simp] theorem bytes_nil : bytes [] = 0 := rfl

@[simp] theorem bytes_cons (c : Char) (cs : List Char) : bytes (c :: cs) = c.utf8Size + bytes cs := by
  rw [bytes, List.map_cons, List.sum_cons, bytes]

@[simp] theorem bytes_append (cs ds : List Char) : bytes (cs ++ ds) = bytes cs + bytes ds := by
  rw [bytes, List.map_append, List.sum_append, bytes, bytes]

/-- The head stands before the characters, and has met no fault. -/
structure Ahead (s : Scanner) (cs : List Char) : Prop where
  look : s.look = cs.head?
  rest : s.rest = cs.tail.map Glyph.char
  width : s.width = (cs.head?.map Char.utf8Size).getD 0
  offset : s.width ≤ s.offset
  fault : s.fault = none
  clean : '\x00' ∉ cs

/-- Between two places of the head are the characters. -/
structure Moved (s t : Scanner) (cs : List Char) : Prop where
  here : t.here = s.here + bytes cs
  index : t.index = s.index + cs.length

namespace Moved

variable {s t u : Scanner} {cs ds : List Char}

theorem refl (s : Scanner) : Moved s s [] := ⟨rfl, rfl⟩

theorem trans (h : Moved s t cs) (h' : Moved t u ds) : Moved s u (cs ++ ds) := by
  refine ⟨?_, ?_⟩
  · rw [h'.here, h.here, bytes_append, Nat.add_assoc]
  · rw [h'.index, h.index, List.length_append, Nat.add_assoc]

end Moved

namespace Ahead

variable {s : Scanner} {cs : List Char}

/-- Reading moves the head over one character. -/
theorem read {c : Char} (h : Ahead s (c :: cs)) : Ahead s.read cs ∧ Moved s s.read [c] := by
  have look := h.look
  have rest := h.rest
  have width := h.width
  have clean := h.clean
  simp only [List.head?_cons, List.tail_cons, Option.map_some, Option.getD_some] at look rest width
  have offset := h.offset
  rw [width] at offset
  rw [List.mem_cons, not_or] at clean
  cases cs with
  | nil =>
    refine ⟨⟨?_, ?_, ?_, ?_, ?_, clean.2⟩, ⟨?_, ?_⟩⟩
    all_goals simp [Scanner.read, Scanner.here, rest, look, width, h.fault]
    omega
  | cons d ds =>
    have nul : (d == '\x00') = false := by
      rw [beq_eq_false_iff_ne]
      rintro rfl
      exact clean.2 (List.mem_cons_self ..)
    -- Whether the new character ends its line changes lines and columns only.
    cases line : d == '\n'
    all_goals
      refine ⟨⟨?_, ?_, ?_, ?_, ?_, clean.2⟩, ⟨?_, ?_⟩⟩
      all_goals simp [Scanner.read, Scanner.here, rest, look, width, nul, line, h.fault]
      omega

/-- At the end of the text there is nothing to move over. -/
theorem read_nil (h : Ahead s []) : Ahead s.read [] := by
  have rest : s.rest = [] := h.rest
  unfold Scanner.read
  rw [rest]
  exact ⟨rfl, rfl, rfl, Nat.zero_le _, h.fault, h.clean⟩

theorem moved_nil (h : Ahead s []) : Moved s s.read [] := by
  have rest : s.rest = [] := h.rest
  have look : s.look = none := h.look
  have width : s.width = 0 := h.width
  constructor
  all_goals
    unfold Scanner.read
    simp only [Scanner.here, rest, look, width]
    rfl

/-- Beginning a token changes no character. -/
theorem begin (h : Ahead s cs) : Ahead s.begin cs := ⟨h.look, h.rest, h.width, h.offset, h.fault, h.clean⟩

theorem between (h : Ahead s cs) : Ahead s.between cs :=
  ⟨h.look, h.rest, h.width, h.offset, h.fault, h.clean⟩

/-- Passing over a character outside of a token. -/
theorem skip {c : Char} (h : Ahead s (c :: cs)) : Ahead s.skip cs ∧ Moved s s.skip [c] :=
  ⟨h.between.read.1, h.between.read.2.here, h.between.read.2.index⟩

theorem looking (h : Ahead s cs) (p : Char → Bool) : s.looking p = cs.head?.any p := by
  rw [Scanner.looking, h.look]

/-- A run of characters is read as far as the condition holds. The fuel is the text behind the first
character, so it cannot run out. -/
theorem spanFrom {p : Char → Bool} {xs rest : List Char} {fuel : List Glyph}
    (hf : xs.length ≤ fuel.length + 1) (h : Ahead s (xs ++ rest)) (hx : ∀ c ∈ xs, p c = true)
    (hr : ∀ c ∈ rest.head?, p c = false) :
    ∃ t, Scanner.spanFrom p fuel s = (xs, t) ∧ Ahead t rest ∧ Moved s t xs := by
  induction xs generalizing s fuel with
  | nil =>
    refine ⟨s, ?_, h, .refl s⟩
    unfold Scanner.spanFrom
    rw [h.look, List.nil_append]
    cases hc : rest.head? with
    | none => rfl
    | some c =>
      show (if p c then _ else _) = _
      rw [hr c hc]
      rfl
  | cons x xs ih =>
    obtain ⟨hread, hmoved⟩ := h.read
    have hp : p x = true := hx x (List.mem_cons_self ..)
    unfold Scanner.spanFrom
    rw [h.look]
    show ∃ t, (if p x then _ else _) = _ ∧ _
    rw [if_pos hp]
    cases fuel with
    | nil =>
      have hxs : xs = [] := by
        rw [List.length_cons, List.length_nil] at hf
        exact List.eq_nil_of_length_eq_zero (by omega)
      subst hxs
      exact ⟨s.read, rfl, hread, hmoved⟩
    | cons g fuel =>
      have fits : xs.length ≤ fuel.length + 1 := by
        rw [List.length_cons, List.length_cons] at hf
        omega
      obtain ⟨t, ht, hahead, hm⟩ := ih fits hread fun c hc => hx c (List.mem_cons_of_mem _ hc)
      refine ⟨t, ?_, hahead, hmoved.trans hm⟩
      simp only [ht]

theorem span {p : Char → Bool} {xs rest : List Char} (h : Ahead s (xs ++ rest))
    (hx : ∀ c ∈ xs, p c = true) (hr : ∀ c ∈ rest.head?, p c = false) :
    ∃ t, s.span p = (xs, t) ∧ Ahead t rest ∧ Moved s t xs := by
  refine h.spanFrom ?_ hx hr
  rw [h.rest, List.length_map, List.length_tail, List.length_append]
  omega

/-- The characters between two places of the head can be taken off again. -/
theorem passed {xs rest : List Char} {t : Scanner} (h : Ahead s (xs ++ rest)) (hm : Moved s t xs) :
    s.passed t = xs := by
  have shown : ∀ l : List Char, (l.map Glyph.char).map Glyph.shown = l := by
    intro l
    rw [List.map_map]
    exact List.map_id l
  have length : t.index - s.index = xs.length := by
    rw [hm.index]
    omega
  rw [Scanner.passed, length, h.look, h.rest, ← List.map_take, shown]
  cases xs with
  | nil => simp
  | cons x xs => simp [List.take_append, List.take_of_length_le]

end Ahead

namespace Lexer

/-- The characters begin a comment. -/
def opensComment : List Char → Bool
  | '/' :: c :: _ => c == '/' || c == '*'
  | _ => false

/-- White space before a token is passed over. -/
theorem ahead_toToken {s : Scanner} {xs rest : List Char} (fuel : List Glyph)
    (h : Ahead s (xs ++ rest)) (hx : ∀ c ∈ xs, isSpace c = true)
    (hr : ∀ c ∈ rest.head?, isSpace c = false) (hc : opensComment rest = false) :
    Ahead (toToken fuel s) rest ∧ Moved s (toToken fuel s) xs := by
  obtain ⟨t, ht, ahead, moved⟩ := h.span hx hr
  have stays : toToken fuel s = t.begin := by
    unfold toToken
    rw [ht]
    have look : t.begin.look = rest.head? := ahead.look
    by_cases hs : t.begin.look = some '/'
    · -- A slash stands here, but no second character of a comment.
      rw [look] at hs
      cases rest with
      | nil => cases hs
      | cons c ds =>
        cases hs
        have next : t.begin.read.look = ds.head? := (ahead.begin.read).1.look
        have none : (t.begin.read.look == some '/' || t.begin.read.look == some '*') = false := by
          rw [next]
          cases ds with
          | nil => rfl
          | cons d ds => simpa [opensComment] using hc
        simp only [none, Bool.false_eq_true, if_false, ite_self]
    · simp only [beq_iff_eq, hs, if_false]
  rw [stays]
  exact ⟨ahead.begin, moved.here, moved.index⟩

end Lexer

end Weaver.Source
