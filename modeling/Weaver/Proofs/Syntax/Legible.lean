import Weaver.Proofs.Syntax.Formula
/-!
The lexemes of a formula are read back.

Whatever stands in a formula ends where the next lexeme begins: words in front of a sign or a space,
signs in front of what does not extend them.
-/
set_option autoImplicit false

namespace Weaver.Syntax.Tree

open Weaver.Source

theorem isWordText_of_isNameText {n : String} (h : isNameText n = true) : isWordText n = true :=
  (Bool.and_eq_true_iff.mp h).1

/-- The operators that are printed. -/
def signTexts : List String :=
  [".", "[", "]", "(", ")", ",", "!", "~", "?", ":", "="] ++
    BinaryOp.all.flatMap fun op => op.signs ++ op.assigningSigns

/-- Pieces that formulas are written with. -/
inductive Known : Piece → Prop where
  | word {w : String} (hw : isNameText w = true) : Known (word w)
  | sign {x : String} (hx : x ∈ signTexts) : Known (sign x)
  | space : Known space

theorem known_spaced {xs : List String} (hx : ∀ x ∈ xs, x ∈ signTexts) :
    ∀ y ∈ spaced xs, Known y := by
  intro y hy
  simp only [spaced, List.mem_cons, List.mem_append, List.mem_map, List.not_mem_nil,
    or_false] at hy
  rcases hy with rfl | ⟨x, hm, rfl⟩ | rfl
  · exact .space
  · exact .sign (hx x hm)
  · exact .space

theorem mem_listed {pss : List (List Piece)} {y : Piece} (h : y ∈ listed pss) :
    (∃ ps ∈ pss, y ∈ ps) ∨ y = sign "," ∨ y = space := by
  induction pss with
  | nil => cases h
  | cons ps pss ih =>
    cases pss with
    | nil => exact .inl ⟨ps, List.mem_cons_self, h⟩
    | cons qs qss =>
      rw [listed, List.mem_append, List.mem_cons, List.mem_cons] at h
      · rcases h with h | rfl | rfl | h
        · exact .inl ⟨ps, List.mem_cons_self, h⟩
        · exact .inr (.inl rfl)
        · exact .inr (.inr rfl)
        · rcases ih h with ⟨rs, hr, hy⟩ | hy
          · exact .inl ⟨rs, List.mem_cons_of_mem ps hr, hy⟩
          · exact .inr hy
      · exact nofun

theorem signs_known (op : BinaryOp) : ∀ x ∈ op.signs, x ∈ signTexts := by
  cases op <;> decide

theorem assigningSigns_known (op : BinaryOp) : ∀ x ∈ op.assigningSigns, x ∈ signTexts := by
  cases op <;> decide

theorem Laid.known {o : Nat} {ps : List Piece} {e : Tree} (h : Laid o ps e) :
    ∀ y ∈ ps, Known y := by
  have dot : Known (sign ".") := .sign (by decide)
  have comma : Known (sign ",") := .sign (by decide)
  have opening : Known (sign "[") := .sign (by decide)
  have closing : Known (sign "]") := .sign (by decide)
  have opening' : Known (sign "(") := .sign (by decide)
  have closing' : Known (sign ")") := .sign (by decide)
  induction h with
  | ident hn =>
    intro y hy
    rw [List.mem_singleton.mp hy]
    exact .word hn
  | enclosed _ _ ih =>
    intro y hy
    simp only [List.mem_cons, List.mem_append, List.not_mem_nil, or_false] at hy
    rcases hy with rfl | hy | rfl
    · exact opening'
    · exact ih y hy
    · exact closing'
  | select _ _ hn ih =>
    intro y hy
    simp only [List.mem_append, List.mem_cons, List.not_mem_nil, or_false] at hy
    rcases hy with hy | rfl | rfl
    · exact ih y hy
    · exact dot
    · exact .word hn
  | indexed _ _ _ iha ihi =>
    intro y hy
    simp only [List.mem_append, List.mem_cons, List.not_mem_nil, or_false] at hy
    rcases hy with hy | rfl | hy | rfl
    · exact iha y hy
    · exact opening
    · exact ihi y hy
    · exact closing
  | call _ _ _ ihc iha =>
    intro y hy
    simp only [List.mem_append, List.mem_cons, List.not_mem_nil, or_false] at hy
    rcases hy with hy | rfl | hy | rfl
    · exact ihc y hy
    · exact opening'
    · rcases mem_listed hy with ⟨ps, hps, hy⟩ | rfl | rfl
      · obtain ⟨a, ha, rfl⟩ := List.mem_map.mp hps
        exact iha a ha y hy
      · exact comma
      · exact .space
    · exact closing'
  | unary hp _ _ ih =>
    intro y hy
    rcases List.mem_cons.mp hy with rfl | hy
    · rcases hp with rfl | rfl <;> exact .sign (by decide)
    · exact ih y hy
  | binary _ _ _ _ ihl ihr =>
    intro y hy
    simp only [List.mem_append] at hy
    rcases hy with hy | hy | hy
    · exact ihl y hy
    · exact known_spaced (signs_known _) y hy
    · exact ihr y hy
  | conditional _ _ _ _ _ ihc ihy ihn =>
    intro y hy
    simp only [List.mem_append] at hy
    rcases hy with hy | hy | hy | hy | hy
    · exact ihc y hy
    · exact known_spaced (by decide) y hy
    · exact ihy y hy
    · exact known_spaced (by decide) y hy
    · exact ihn y hy
  | assign _ _ _ _ ihl ihr =>
    intro y hy
    simp only [List.mem_append] at hy
    rcases hy with hy | hy | hy
    · exact ihl y hy
    · exact known_spaced (by decide) y hy
    · exact ihr y hy
  | assignOp _ _ _ _ _ ihl ihr =>
    intro y hy
    simp only [List.mem_append] at hy
    rcases hy with hy | hy | hy
    · exact ihl y hy
    · exact known_spaced (assigningSigns_known _) y hy
    · exact ihr y hy

/-- A character that a formula begins with. -/
def opensFormula (c : Char) : Bool :=
  Lexer.startsWord c || c == '(' || c == '!' || c == '~'

theorem Laid.begins {o : Nat} {ps : List Piece} {e : Tree} (h : Laid o ps e) :
    ∃ c cs, spell ps = c :: cs ∧ opensFormula c = true := by
  induction h with
  | ident hn =>
    obtain ⟨c, cs, hc, first⟩ := startsWord_of_isWordText (isWordText_of_isNameText hn)
    refine ⟨c, cs, ?_, ?_⟩
    · simpa [Piece.chars] using hc
    · rw [opensFormula, first, Bool.true_or, Bool.true_or, Bool.true_or]
  | enclosed _ _ _ => exact ⟨'(', _, rfl, rfl⟩
  | unary hp _ _ _ =>
    rcases hp with rfl | rfl
    · exact ⟨'!', _, rfl, rfl⟩
    · exact ⟨'~', _, rfl, rfl⟩
  | select _ _ _ ih | indexed _ _ _ ih _ | call _ _ _ ih _ | binary _ _ _ _ ih _
  | conditional _ _ _ _ _ ih _ _ | assign _ _ _ _ ih _ | assignOp _ _ _ _ _ ih _ =>
    obtain ⟨c, cs, hc, first⟩ := ih
    rw [spell_append, hc, List.cons_append]
    exact ⟨c, _, rfl, first⟩

/-- Operators that nothing extends. -/
theorem reads_alone {x : String} (hx : x ∈ ["(", ")", "[", "]", ",", "~", ">"]) (rest : List Char) :
    (sign x).Reads rest := by
  have all : ∀ y ∈ ["(", ")", "[", "]", ",", "~", ">"], isOperatorText y = true ∧
      Lexer.extensions.lookup y = none ∧ (y == ".") = false ∧ (y == "/") = false := by decide
  obtain ⟨operator, none, dot, slash⟩ := all x hx
  refine reads_operator operator ?_
  simp [endsBefore, stopsAt, none, dot, slash]

/-- Operators in front of a space, with no more than `>` before the last one. -/
def runs : List String → Bool
  | [] => true
  | [x] => isOperatorText x && endsBefore x (some ' ')
  | x :: xs => x == ">" && runs xs

theorem readable_runs {xs : List String} {rest : List Char} (h : runs xs = true) :
    Readable (xs.map sign) (' ' :: rest) := by
  induction xs with
  | nil => exact trivial
  | cons x xs ih =>
    cases xs with
    | nil =>
      obtain ⟨operator, ends⟩ := Bool.and_eq_true_iff.mp h
      exact ⟨reads_operator operator ends, trivial⟩
    | cons y ys =>
      rw [runs, Bool.and_eq_true, beq_iff_eq] at h
      · obtain ⟨rfl, more⟩ := h
        exact ⟨reads_alone (by decide) _, ih more⟩
      · exact nofun

theorem reads_space : ∀ c ∈ [' '], Lexer.isSpace c = true := by
  intro c member
  rw [List.mem_singleton.mp member]
  rfl

theorem readable_spaced {xs : List String} {rest : List Char} (h : runs xs = true) :
    Readable (spaced xs) rest := by
  refine ⟨reads_space, ?_⟩
  rw [readable_append]
  refine ⟨?_, reads_space, trivial⟩
  exact readable_runs h

theorem runs_signs (op : BinaryOp) : runs op.signs = true := by
  cases op <;> decide

theorem runs_assigningSigns {op : BinaryOp} (h : op.isAssigning = true) :
    runs op.assigningSigns = true := by
  revert h
  cases op <;> decide

/-- White space and every sign of a formula end a word. -/
theorem continuesWord_spaced {xs : List String} {ps : List Piece} {rest : List Char} :
    ∀ c ∈ (spell (spaced xs ++ ps) ++ rest).head?, Lexer.continuesWord c = false := by
  rintro c ⟨⟩
  decide

theorem readable_listed {pss : List (List Piece)} {rest : List Char}
    (h : ∀ ps ∈ pss, ∀ rest : List Char,
      (∀ c ∈ rest.head?, Lexer.continuesWord c = false) → Readable ps rest)
    (hr : ∀ c ∈ rest.head?, Lexer.continuesWord c = false) : Readable (listed pss) rest := by
  induction pss with
  | nil => exact trivial
  | cons ps pss ih =>
    have first := h ps List.mem_cons_self
    cases pss with
    | nil => exact first rest hr
    | cons qs qss =>
      have more := ih fun rs hrs => h rs (List.mem_cons_of_mem ps hrs)
      rw [listed, readable_append]
      · refine ⟨first _ ?_, reads_alone (by decide) _, reads_space, more⟩
        rintro c ⟨⟩
        decide
      · exact nofun

/-- A point in front of a name begins neither a number nor an ellipsis. -/
theorem reads_point {n : String} {rest : List Char} (hn : isNameText n = true) :
    (sign ".").Reads (n.toList ++ rest) := by
  obtain ⟨c, cs, hc, first⟩ := startsWord_of_isWordText (isWordText_of_isNameText hn)
  have dot : c ≠ '.' := ne_of_startsWord first (by decide)
  have more : Lexer.extensions.lookup "." = some ['.'] := by decide
  refine reads_operator (by decide) ?_
  simp [hc, endsBefore, stopsAt, more, dot, isDecimal_of_startsWord first]

/-- **The lexemes of a formula do not run into each other**, nor into what cannot continue a
word. -/
theorem Laid.readable {o : Nat} {ps : List Piece} {e : Tree} (h : Laid o ps e) {rest : List Char}
    (hr : ∀ c ∈ rest.head?, Lexer.continuesWord c = false) : Readable ps rest := by
  induction h generalizing rest with
  | ident hn => exact ⟨reads_word (isWordText_of_isNameText hn) hr, trivial⟩
  | enclosed _ _ ih =>
    refine ⟨reads_alone (by decide) _, ?_⟩
    rw [readable_append]
    refine ⟨ih ?_, reads_alone (by decide) _, trivial⟩
    rintro c ⟨⟩
    decide
  | select _ _ hn ih =>
    rw [readable_append]
    refine ⟨ih ?_, ?_, reads_word (isWordText_of_isNameText hn) hr, trivial⟩
    · rintro c ⟨⟩
      decide
    · rw [spell_cons, spell_nil, List.append_nil]
      exact reads_point hn
  | indexed _ _ _ iha ihi =>
    rw [readable_append]
    refine ⟨iha ?_, reads_alone (by decide) _, ?_⟩
    · rintro c ⟨⟩
      decide
    · rw [readable_append]
      refine ⟨ihi ?_, reads_alone (by decide) _, trivial⟩
      rintro c ⟨⟩
      decide
  | call _ _ _ ihc iha =>
    rw [readable_append]
    refine ⟨ihc ?_, reads_alone (by decide) _, ?_⟩
    · rintro c ⟨⟩
      decide
    · rw [readable_append]
      refine ⟨readable_listed ?_ ?_, reads_alone (by decide) _, trivial⟩
      · intro qs hqs rest hrest
        obtain ⟨a, ha, rfl⟩ := List.mem_map.mp hqs
        exact iha a ha hrest
      · rintro c ⟨⟩
        decide
  | unary hp ha _ ih =>
    refine ⟨?_, ih hr⟩
    rcases hp with rfl | rfl
    · -- A formula does not begin with the sign that would make the operator another one.
      obtain ⟨c, cs, hc, first⟩ := ha.begins
      have more : Lexer.extensions.lookup "!" = some ['='] := by decide
      have unlike : c ≠ '=' := by
        rintro rfl
        revert first
        decide
      refine reads_operator (by decide) ?_
      simp [UnaryOp.symbol, hc, endsBefore, stopsAt, more, unlike]
    · exact reads_alone (by decide) _
  | binary _ _ _ _ ihl ihr =>
    rw [readable_append, readable_append]
    exact ⟨ihl continuesWord_spaced, readable_spaced (runs_signs _), ihr hr⟩
  | conditional _ _ _ _ _ ihc ihy ihn =>
    rw [readable_append, readable_append, readable_append, readable_append]
    exact ⟨ihc continuesWord_spaced, readable_spaced (by decide), ihy continuesWord_spaced,
      readable_spaced (by decide), ihn hr⟩
  | assign _ _ _ _ ihl ihr =>
    rw [readable_append, readable_append]
    exact ⟨ihl continuesWord_spaced, readable_spaced (by decide), ihr hr⟩
  | assignOp hp _ _ _ _ ihl ihr =>
    rw [readable_append, readable_append]
    exact ⟨ihl continuesWord_spaced, readable_spaced (runs_assigningSigns hp), ihr hr⟩

theorem nul_known {y : Piece} (h : Known y) : '\x00' ∉ y.chars := by
  cases h with
  | word hw =>
    intro hc
    have none : Lexer.continuesWord '\x00' = false := by decide
    rw [continuesWord_of_isWordText (isWordText_of_isNameText hw) _ hc] at none
    cases none
  | sign hx =>
    have all : ∀ x ∈ signTexts, '\x00' ∉ x.toList := by decide
    exact all _ hx
  | space => decide

/-- **Reading a printed formula.** Its tokens are the lexemes of a way to write it. -/
theorem Formula.tokens {e : Tree} (h : Formula e) :
    ∃ o ps ts last, Laid o ps e ∧
      Source.tokens (Text.Glyph.ofString e.print) = .ok (ts ++ [last]) ∧ last.isEnd = true ∧
      Placed 0 ps ts := by
  obtain ⟨o, ps, -, laid, text⟩ := h.writes ⟨0, none⟩ (r := .plain) rfl (by decide)
  have clean : '\x00' ∉ spell ps := by
    intro hc
    obtain ⟨y, hy, hc⟩ := List.mem_flatMap.mp hc
    exact nul_known (laid.known y hy) hc
  have mark : ∀ c ∈ (spell ps).head?, c ≠ '\uFEFF' := by
    obtain ⟨c, cs, hc, first⟩ := laid.begins
    rw [hc]
    rintro d ⟨⟩ rfl
    rw [opensFormula, startsWord_mark] at first
    exact absurd first (by decide)
  obtain ⟨ts, last, hts, hlast, placed⟩ := tokens_spell text (laid.readable nofun) clean mark
  exact ⟨o, ps, ts, last, laid, hts, hlast, placed⟩

end Weaver.Syntax.Tree
