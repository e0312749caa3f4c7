import Weaver.Proofs.Source.Lexemes
import Weaver.Proofs.Syntax.Dotted
/-!
Words among the tokens of a text.

A word that is read has the text of a word, and would be read as that word again. A dot ends it, so
that it can be a segment of a dotted name.
-/
set_option autoImplicit false

namespace Weaver.Source

open Weaver.Text (Glyph IsSegment)

/-- If the token is a word, it has the text of one. -/
def Token.Worded (t : Token) : Prop := t.isWord = true → isWordText t.text = true

theorem continuesWord_dot : Lexer.continuesWord '.' = false := by decide

/-- The text of a word can be a segment of a dotted name. -/
theorem isSegment_of_isWordText {w : String} (h : isWordText w = true) : IsSegment w := by
  refine ⟨?_, fun dot => ?_⟩
  · rintro rfl
    exact Bool.noConfusion h
  · have continues := continuesWord_of_isWordText h _ dot
    rw [continuesWord_dot] at continues
    exact Bool.noConfusion continues

theorem Token.Worded.segment {t : Token} (h : t.Worded) (word : t.isWord = true) :
    IsSegment t.text :=
  isSegment_of_isWordText (h word)

namespace Scanner

/-- What is read on under a condition satisfies it. -/
theorem spanFrom_all {p : Char → Bool} {fuel : List Glyph} {s : Scanner} :
    ∀ c ∈ (spanFrom p fuel s).1, p c = true := by
  fun_induction spanFrom p fuel s with
  | case1 => exact fun c member => absurd member List.not_mem_nil
  | case2 s d look holds =>
    intro c member
    rwa [List.mem_singleton.mp member]
  | case3 s d look holds g fuel ds t rest ih =>
    intro c member
    rw [rest] at ih
    rcases List.mem_cons.mp member with rfl | member
    · exact holds
    · exact ih c member
  | case4 => exact fun c member => absurd member List.not_mem_nil

/-- What is read on begins with the character under the head, if that satisfies the condition. -/
theorem spanFrom_cons {p : Char → Bool} {fuel : List Glyph} {s : Scanner} {c : Char}
    (look : s.look = some c) (holds : p c = true) : ∃ cs, (spanFrom p fuel s).1 = c :: cs := by
  unfold spanFrom
  rw [look]
  change ∃ cs, (if p c then _ else _ : List Char × Scanner).1 = c :: cs
  rw [if_pos holds]
  cases fuel <;> exact ⟨_, rfl⟩

end Scanner

namespace Lexer

/-- The characters of a word make up its text. -/
theorem isWordText_span {s : Scanner} {c : Char} (look : s.look = some c)
    (starts : startsWord c = true) :
    isWordText (String.ofList (s.span continuesWord).1) = true := by
  have continues : continuesWord c = true := by rw [continuesWord, starts, Bool.true_or]
  obtain ⟨cs, read⟩ : ∃ cs, (Scanner.spanFrom continuesWord s.rest s).1 = c :: cs :=
    Scanner.spanFrom_cons look continues
  have all : ∀ d ∈ (Scanner.spanFrom continuesWord s.rest s).1, continuesWord d = true :=
    Scanner.spanFrom_all
  rw [Scanner.span, isWordText, String.toList_ofList, read]
  rw [read] at all
  exact Bool.and_eq_true_iff.mpr
    ⟨starts, List.all_eq_true.mpr fun d hd => all d (List.mem_cons_of_mem c hd)⟩

theorem worded_of_kind {t : Token} (h : t.kind ≠ .identifier) : t.Worded := by
  intro word
  exact absurd (eq_of_beq word) h

theorem worded_numberToken (start s : Scanner) (afterDot : Bool) :
    (numberToken start afterDot s).1.Worded := by
  apply worded_of_kind
  unfold numberToken
  split
  dsimp only
  split
  · unfold floatToken
    dsimp only
    split <;> exact TokenKind.noConfusion
  · unfold integerToken
    dsimp only
    split <;> exact TokenKind.noConfusion

theorem worded_quotedToken {start s : Scanner} {quote : Char} {t : Token}
    (h : quotedToken start quote = .ok (t, s)) : t.Worded := by
  apply worded_of_kind
  unfold quotedToken at h
  dsimp only at h
  split at h
  · exact nomatch h
  · split at h
    · cases h
      exact TokenKind.noConfusion
    · split at h
      · cases h
        exact TokenKind.noConfusion
      · split at h <;> cases h <;> exact TokenKind.noConfusion

theorem worded_next {s s' : Scanner} {t : Token} (h : next s = .ok (t, s')) : t.Worded := by
  unfold next at h
  dsimp only at h
  split at h
  · cases h
    exact worded_of_kind TokenKind.noConfusion
  · next c look =>
    split at h
    · next starts =>
      cases h
      exact fun _ => isWordText_span look starts
    · split at h
      · obtain rfl := congrArg Prod.fst (Except.ok.inj h)
        exact worded_numberToken _ _ _
      · split at h
        · exact worded_quotedToken h
        · split at h
          · obtain rfl := congrArg Prod.fst (Except.ok.inj h)
            exact worded_numberToken _ _ _
          · obtain rfl := congrArg Prod.fst (Except.ok.inj h)
            exact worded_of_kind TokenKind.noConfusion

theorem worded_all {fuel : Nat} {s : Scanner} {ts : List Token} (h : all fuel s = .ok ts) :
    ∀ t ∈ ts, t.Worded := by
  induction fuel generalizing s ts with
  | zero =>
    cases h
    exact fun t member => absurd member List.not_mem_nil
  | succ fuel ih =>
    rw [all] at h
    split at h
    · cases h
    · next first s' step =>
      split at h
      · cases h
      · split at h
        · cases h
          intro t member
          rw [List.mem_singleton.mp member]
          exact worded_next step
        · cases others : all fuel s' with
          | error e => rw [others] at h; cases h
          | ok ts' =>
            rw [others] at h
            cases h
            intro t member
            rcases List.mem_cons.mp member with rfl | member
            · exact worded_next step
            · exact ih others t member

end Lexer

/-- The words among the tokens of a text have the texts of words. -/
theorem worded_of_tokens {text : List Glyph} {ts : List Token} (h : tokens text = .ok ts) :
    ∀ t ∈ ts, t.Worded :=
  Lexer.worded_all h

end Weaver.Source
