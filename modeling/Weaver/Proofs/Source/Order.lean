import Weaver.Proofs.Source.Ending
import Weaver.Proofs.Source.Fuel
/-!
Tokens stand in the order of the text.

A token is marked with the place of its first character, and the reader takes that character before it
looks for the next token. So the place of a token comes before those of all tokens behind it, and no
two tokens of a text stand at the same line and column.
-/
set_option autoImplicit false

namespace Weaver.Source

open Weaver.Text (Glyph)
open Scanner (Onward)

variable {s t u : Scanner}

/-- The place of the beginning of a text. -/
def Position.beginning : Nat ×ₗ Nat := toLex (1, 0)

/-- A token is marked with the place where it begins. -/
theorem Scanner.place_begin (after : Position.beginning ≤ s.place) : s.begin.mark.place = s.place := by
  rw [place] at after ⊢
  rw [begin, Position.place]
  dsimp only
  split
  · rfl
  · next ended =>
    -- on a line break, the line that it ends has been counted
    rw [if_neg ended, Position.beginning, Prod.Lex.toLex_le_toLex] at after
    have counted : s.line - 1 + 1 = s.line := by
      rcases after with less | ⟨same, -⟩ <;> dsimp only at * <;> omega
    dsimp only
    rw [counted]

theorem start_place (text : List Glyph) : Position.beginning ≤ (Scanner.start text).place := by
  have first : Position.beginning ≤
      (Scanner.read ⟨text, none, 0, 0, 0, 1, 0, 0, Position.none, none⟩).place :=
    Scanner.place_le_read (s := ⟨text, none, 0, 0, 0, 1, 0, 0, Position.none, none⟩)
  unfold Scanner.start
  extract_lets s
  split
  · exact first.trans Scanner.place_le_read
  · exact first

namespace Lexer

/-- The search for a token ends where the token begins. -/
theorem begun_toToken {fuel : List Glyph} (whole : s.Whole) (enough : s.rest.length ≤ fuel.length) :
    ∃ t : Scanner, toToken fuel s = t.begin := by
  induction fuel generalizing s with
  | nil => exact ⟨_, toToken_nil whole (Scanner.eq_nil_of_le_nil enough)⟩
  | cons g fuel ih =>
    have here : Onward s (s.span isSpace).2.begin := ((Onward.refl whole).span _).begin
    have next := onward_comment (.refl (s := (s.span isSpace).2.begin.read) Scanner.whole_read)
    have le := Nat.le_trans (rest_le_of_onward next)
      (Scanner.read_rest_le (Nat.le_trans (rest_le_of_onward here) enough))
    unfold toToken
    dsimp only
    split
    · split
      · exact ih next.whole le
      · exact ⟨_, rfl⟩
    · exact ⟨_, rfl⟩

theorem place_behindBlanks (whole : s.Whole) (after : Position.beginning ≤ s.place) :
    (behindBlanks s).mark.place = (behindBlanks s).place := by
  obtain ⟨t, begun⟩ := begun_toToken (s := s.between) whole (Nat.le_refl _)
  have onward := (onward_behindBlanks whole).place
  rw [show behindBlanks s = t.begin from begun] at onward ⊢
  exact Scanner.place_begin (s := t) (after.trans onward)

/-- A token stands where the head was or behind that, and what is read after it stands behind it. -/
theorem next_inOrder {t : Token} {s' : Scanner} (whole : s.Whole)
    (after : Position.beginning ≤ s.place) (read : next s = .ok (t, s')) (token_ : t.isEnd = false) :
    s.ahead ≠ [] ∧ s.place ≤ t.pos.place ∧ (s'.ahead ≠ [] → t.pos.place < s'.place) := by
  obtain ⟨c, look, pos, next⟩ | ⟨isEnd, -⟩ := next_eq_ok read
  · have blanks := onward_behindBlanks whole
    have place : t.pos.place = (behindBlanks s).place := by rw [pos, place_behindBlanks whole after]
    refine ⟨fun none_ => ?_, place ▸ blanks.place, fun more => ?_⟩
    · have ahead := blanks.ahead
      rw [none_, Scanner.ahead_of_look look] at ahead
      exact nomatch List.suffix_nil.mp ahead
    · have text : (behindBlanks s).rest ≠ [] := by
        intro none_
        have ahead := next.ahead
        rw [Scanner.ahead_read, none_] at ahead
        exact more (List.suffix_nil.mp ahead)
      rw [place]
      exact (Scanner.place_lt_read text).trans_le next.place
  · exact absurd isEnd (ne_true_of_eq_false token_)

/-- Tokens stand one behind the other, and none of them before the head. -/
theorem all_inOrder {n : Nat} {ts : List Token} (whole : s.Whole)
    (after : Position.beginning ≤ s.place) (read : all n s = .ok ts) :
    (ts.dropLast.map fun t => t.pos.place).Pairwise (· < ·) ∧
      ∀ t ∈ ts.dropLast, s.ahead ≠ [] ∧ s.place ≤ t.pos.place := by
  induction n generalizing s ts with
  | zero =>
    obtain rfl : [] = ts := Except.ok.inj read
    exact ⟨.nil, List.forall_mem_nil _⟩
  | succ n ih =>
    unfold all at read
    split at read
    · cases read
    next t s' here =>
    split at read
    · cases read
    split at read
    · obtain rfl := Except.ok.inj read
      exact ⟨.nil, List.forall_mem_nil _⟩
    next token_ =>
    obtain ⟨ts', rest, rfl⟩ : ∃ ts', all n s' = .ok ts' ∧ t :: ts' = ts := by
      cases others : all n s' with
      | error e => rw [others] at read; cases read
      | ok ts' => rw [others] at read; exact ⟨ts', rfl, Except.ok.inj read⟩
    obtain ⟨onward, -⟩ := onward_next whole here
    obtain ⟨text, first, behind⟩ := next_inOrder whole after here (Bool.eq_false_iff.mpr token_)
    obtain ⟨ordered, others⟩ := ih onward.whole (after.trans onward.place) rest
    have less : ∀ t' ∈ ts'.dropLast, t.pos.place < t'.pos.place := fun t' ht' =>
      (behind (others t' ht').1).trans_le (others t' ht').2
    cases ts' with
    | nil => exact ⟨.nil, List.forall_mem_nil _⟩
    | cons t' ts' =>
      rw [List.dropLast_cons_cons, List.map_cons, List.pairwise_cons]
      refine ⟨⟨List.forall_mem_map.mpr less, ordered⟩, List.forall_mem_cons.mpr ⟨⟨text, first⟩, ?_⟩⟩
      exact fun t'' ht'' => ⟨text, first.trans (less t'' ht'').le⟩

end Lexer

/-- **Tokens in order.** Each token of a text stands behind the one before it. -/
theorem tokens_inOrder {text : List Glyph} {ts : List Token} (read : tokens text = .ok ts) :
    (ts.dropLast.map fun t => t.pos.place).Pairwise (· < ·) :=
  (Lexer.all_inOrder start_whole (start_place text) read).1

/-- No two tokens of a text stand at the same line and column. -/
theorem nodup_pos {text : List Glyph} {ts : List Token} (read : tokens text = .ok ts) :
    (ts.dropLast.map (·.pos)).Nodup := by
  have ordered := tokens_inOrder read
  rw [← Function.comp_def Position.place, ← List.map_map] at ordered
  exact (ordered.imp fun less => less.ne).of_map _ fun _ _ differ same => differ (congrArg _ same)

end Weaver.Source
