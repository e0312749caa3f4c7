import Weaver.Proofs.Parse.TypeForm
import Weaver.Proofs.Syntax.Legible
/-!
The text of a type, piece by piece.

Types are printed like expressions. `TypeLaid` says which pieces the printer writes for a type, and
that is what is written (`TypeLaid.render`). Read again, the text gives the lexemes of these pieces,
with a token for every closing angle bracket: nothing extends one, whatever stands behind it. The
opening one would be extended by another sign, but an argument does not begin with one.

Every type that is read from a text is laid out like this.
-/
set_option autoImplicit false

namespace Weaver.Syntax

open Weaver.Source

/-- The word in front of a bound. -/
def Bound.keyword : Bound → String
  | .unbounded => ""
  | .extending => "extends"
  | .above => "super"

namespace Tree

/-! ## The pieces of a type -/

/-- The pieces write the part of a type. -/
inductive TypeLaid : TypeRank → List Piece → Tree → Prop where
  | ident {m : Mark} {n : String} (hn : isNameText n = true) : TypeLaid .path [word n] (ident m n)
  | select {m : Mark} {ps : List Piece} {q : Tree} {n : String} (hq : TypeLaid .reference ps q)
      (hn : isNameText n = true) : TypeLaid .path (ps ++ [sign ".", word n]) (select m q n)
  | plain {ps : List Piece} {t : Tree} (h : TypeLaid .path ps t) : TypeLaid .reference ps t
  | applied {m : Mark} {ps : List Piece} {c : Tree} {items : List (List Piece × Tree)}
      (hc : TypeLaid .path ps c) (ha : ∀ a ∈ items, TypeLaid .argument a.1 a.2) :
      TypeLaid .reference (ps ++ sign "<" :: (listed (items.map Prod.fst) ++ [sign ">"]))
        (typeApply m c (items.map Prod.snd))
  | reference {ps : List Piece} {t : Tree} (h : TypeLaid .reference ps t) : TypeLaid .type ps t
  | primitive {m : Mark} {tag : TypeTag} (known : TypeTag.ofKeyword? tag.name = some tag)
      (value : tag ≠ .void) : TypeLaid .type [word tag.name] (primitive m tag)
  | array {m : Mark} {ps : List Piece} {e : Tree} (h : TypeLaid .type ps e) :
      TypeLaid .type (ps ++ [sign "[", sign "]"]) (arrayType m e)
  | argument {ps : List Piece} {t : Tree} (h : TypeLaid .type ps t) : TypeLaid .argument ps t
  | unbounded {m : Mark} : TypeLaid .argument [sign "?"] (wildcard m .unbounded .missing)
  | bounded {m : Mark} {b : Bound} {ps : List Piece} {t : Tree} (hb : b ≠ .unbounded)
      (h : TypeLaid .type ps t) :
      TypeLaid .argument (sign "?" :: space :: word b.keyword :: space :: ps) (wildcard m b t)

/-- Arguments that are laid out one by one. -/
theorem exists_items {as : List Tree} (h : ∀ a ∈ as, ∃ ps, TypeLaid .argument ps a) :
    ∃ items : List (List Piece × Tree), as = items.map Prod.snd ∧
      ∀ a ∈ items, TypeLaid .argument a.1 a.2 := by
  induction as with
  | nil => exact ⟨[], rfl, nofun⟩
  | cons a as ih =>
    obtain ⟨ps, laid⟩ := h a List.mem_cons_self
    obtain ⟨items, rfl, all⟩ := ih fun b member => h b (List.mem_cons_of_mem a member)
    exact ⟨(ps, a) :: items, rfl, List.forall_mem_cons.mpr ⟨laid, all⟩⟩

/-- Whatever the rules for types put together is laid out in pieces. -/
theorem typeJudgement_laid : Parse.TypeJudgement fun rank t => ∃ ps, TypeLaid rank ps t where
  ident _ _ name := ⟨_, .ident name⟩
  select _ _ _ := fun ⟨_, laid⟩ name => ⟨_, .select laid name⟩
  plain path := path.imp fun _ => .plain
  applied _ _ _ path args := by
    obtain ⟨ps, laid⟩ := path
    obtain ⟨items, rfl, all⟩ := exists_items args
    exact ⟨_, .applied laid all⟩
  reference class_ := class_.imp fun _ => .reference
  primitive _ _ known value := ⟨_, .primitive known value⟩
  array _ _ := fun ⟨_, laid⟩ => ⟨_, .array laid⟩
  argument type := type.imp fun _ => .argument
  unbounded _ := ⟨_, .unbounded⟩
  bounded _ _ _ bound := fun ⟨_, laid⟩ => ⟨_, .bounded bound laid⟩

/-! ## What is printed -/

theorem toList_commas {l : Layout} {items : List (List Piece × Tree)}
    (h : ∀ a ∈ items, (render .plain l a.2).toList = spell a.1) :
    (commas (renderAll .plain l (items.map Prod.snd))).toList =
      spell (listed (items.map Prod.fst)) := by
  induction items with
  | nil => rfl
  | cons a items ih =>
    obtain ⟨first, others⟩ := List.forall_mem_cons.mp h
    cases items with
    | nil =>
      change (commas [render .plain l a.2]).toList = spell a.1
      rw [commas, String.intercalate_singleton]
      exact first
    | cons b items =>
      have rest := ih others
      change (", ".intercalate (render .plain l a.2 :: render .plain l b.2 :: _)).toList =
        spell (a.1 ++ sign "," :: space :: listed ((b :: items).map Prod.fst))
      rw [String.intercalate_cons_cons, String.toList_append, String.toList_append, first,
        spell_append, spell_cons, spell_cons, ← rest, List.append_assoc]
      rfl

/-- **The printer writes the pieces of a type**, in every role in which it writes one. -/
theorem TypeLaid.render {rank : TypeRank} {ps : List Piece} {t : Tree} (h : TypeLaid rank ps t)
    (l : Layout) {r : Role} (hr : plainly r = true) : (render r l t).toList = spell ps := by
  induction h generalizing r with
  | ident hn =>
    rw [spell_cons, spell_nil, List.append_nil]
    rfl
  | select hq hn ih =>
    rw [toList_render_select hr, ih rfl, spell_append]
    simp [Piece.chars]
  | plain _ ih | reference _ ih | argument _ ih => exact ih hr
  | @applied m ps c items hc ha ihc iha =>
    have args := toList_commas (l := l) fun a member => iha a member (r := .plain) rfl
    change (Tree.render .plain l c ++ "<" ++ commas (renderAll .plain l _) ++ ">").toList = _
    have class_ : (Tree.render .plain l c).toList = spell ps := ihc rfl
    simp only [String.toList_append, class_, args, spell_append, spell_cons, spell_nil, Piece.chars,
      List.append_assoc, List.append_nil]
  | primitive _ _ | unbounded =>
    rw [spell_cons, spell_nil, List.append_nil]
    rfl
  | @array m ps e h ih =>
    have printed : Tree.render r l (arrayType m e) = Tree.render .plain l e ++ "[]" := by
      rcases r with _ | _ | (_ | _) | _
      all_goals first | rfl | cases hr
    rw [printed, String.toList_append, ih rfl, spell_append]
    rfl
  | @bounded m b ps t hb h ih =>
    cases b with
    | unbounded => exact absurd rfl hb
    | extending =>
      change ("? extends " ++ Tree.render .plain l t).toList = _
      rw [String.toList_append, ih rfl]
      rfl
    | above =>
      change ("? super " ++ Tree.render .plain l t).toList = _
      rw [String.toList_append, ih rfl]
      rfl

/-! ## Its lexemes -/

/-- Pieces that types are written with. -/
inductive TypePiece : Piece → Prop where
  | word {w : String} (hw : isWordText w = true) : TypePiece (word w)
  | sign {x : String} (hx : x ∈ [".", "<", ">", ",", "?", "[", "]"]) : TypePiece (sign x)
  | space : TypePiece space

theorem isWordText_name {tag : TypeTag} (known : TypeTag.ofKeyword? tag.name = some tag) :
    isWordText tag.name = true := by
  cases tag <;> first | decide | exact absurd known (by decide)

theorem isWordText_keyword {b : Bound} (hb : b ≠ .unbounded) : isWordText b.keyword = true := by
  cases b <;> first | decide | exact absurd rfl hb

theorem TypeLaid.pieces {rank : TypeRank} {ps : List Piece} {t : Tree} (h : TypeLaid rank ps t) :
    ∀ y ∈ ps, TypePiece y := by
  induction h with
  | ident hn => exact List.forall_mem_singleton.mpr (.word (isWordText_of_isNameText hn))
  | select _ hn ih =>
    simp only [List.forall_mem_append, List.forall_mem_cons]
    exact ⟨ih, .sign (by decide), .word (isWordText_of_isNameText hn), List.forall_mem_nil _⟩
  | plain _ ih | reference _ ih | argument _ ih => exact ih
  | applied _ _ ihc iha =>
    simp only [List.forall_mem_append, List.forall_mem_cons]
    refine ⟨ihc, .sign (by decide), fun y member => ?_, .sign (by decide),
      List.forall_mem_nil _⟩
    rcases mem_listed member with ⟨ps, inside, member⟩ | rfl | rfl
    · obtain ⟨a, listed, rfl⟩ := List.mem_map.mp inside
      exact iha a listed y member
    · exact .sign (by decide)
    · exact .space
  | primitive known _ => exact List.forall_mem_singleton.mpr (.word (isWordText_name known))
  | array _ ih =>
    simp only [List.forall_mem_append, List.forall_mem_cons]
    exact ⟨ih, .sign (by decide), .sign (by decide), List.forall_mem_nil _⟩
  | unbounded => exact List.forall_mem_singleton.mpr (.sign (by decide))
  | bounded hb _ ih =>
    simp only [List.forall_mem_cons]
    exact ⟨.sign (by decide), .space, .word (isWordText_keyword hb), .space, ih⟩

/-- A type begins with a word, and an argument with a word or a question mark. -/
theorem TypeLaid.begins {rank : TypeRank} {ps : List Piece} {t : Tree} (h : TypeLaid rank ps t) :
    ∃ c cs, spell ps = c :: cs ∧ (Lexer.startsWord c = true ∨ c = '?') := by
  induction h with
  | ident hn =>
    obtain ⟨c, cs, hc, first⟩ := startsWord_of_isWordText (isWordText_of_isNameText hn)
    exact ⟨c, cs, by simpa [Piece.chars] using hc, .inl first⟩
  | primitive known _ =>
    obtain ⟨c, cs, hc, first⟩ := startsWord_of_isWordText (isWordText_name known)
    exact ⟨c, cs, by simpa [Piece.chars] using hc, .inl first⟩
  | plain _ ih | reference _ ih | argument _ ih => exact ih
  | select _ _ ih | applied _ _ ih _ | array _ ih =>
    obtain ⟨c, cs, hc, first⟩ := ih
    rw [spell_append, hc, List.cons_append]
    exact ⟨c, _, rfl, first⟩
  | unbounded | bounded _ _ _ => exact ⟨'?', _, rfl, .inr rfl⟩

/-- A question mark is not extended. -/
theorem reads_question (rest : List Char) : (sign "?").Reads rest :=
  reads_operator (by decide) rfl

/-- An opening angle bracket is not extended by what begins an argument, nor by a closing one. -/
theorem reads_opening {rest : List Char}
    (h : ∀ c ∈ rest.head?, Lexer.startsWord c = true ∨ c = '?' ∨ c = '>') :
    (sign "<").Reads rest := by
  have more : Lexer.extensions.lookup "<" = some ['<', '='] := by decide
  refine reads_operator (by decide) ?_
  cases rest with
  | nil => rfl
  | cons c rest =>
    have unlike : c ≠ '<' ∧ c ≠ '=' := by
      rcases h c rfl with first | rfl | rfl
      · exact ⟨ne_of_startsWord first (by decide), ne_of_startsWord first (by decide)⟩
      · decide
      · decide
    simp [endsBefore, stopsAt, more, unlike]

/-- What the listed arguments begin with. -/
theorem head_listed {items : List (List Piece × Tree)}
    (h : ∀ a ∈ items, TypeLaid .argument a.1 a.2) (rest : List Char) :
    ∀ c ∈ (spell (listed (items.map Prod.fst)) ++ '>' :: rest).head?,
      Lexer.startsWord c = true ∨ c = '?' ∨ c = '>' := by
  cases items with
  | nil =>
    rintro c ⟨⟩
    exact .inr (.inr rfl)
  | cons a items =>
    obtain ⟨c, cs, hc, first⟩ := (h a List.mem_cons_self).begins
    have begins : ∃ ds, spell (listed ((a :: items).map Prod.fst)) = c :: ds := by
      cases items with
      | nil => exact ⟨cs, hc⟩
      | cons b items =>
        change ∃ ds, spell (a.1 ++ _) = c :: ds
        rw [spell_append, hc]
        exact ⟨_, rfl⟩
    obtain ⟨ds, hd⟩ := begins
    rw [hd]
    rintro d ⟨⟩
    exact first.imp (fun word => word) .inl

/-- **The lexemes of a type do not run into each other**, nor into what cannot continue a word. -/
theorem TypeLaid.readable {rank : TypeRank} {ps : List Piece} {t : Tree} (h : TypeLaid rank ps t)
    {rest : List Char} (hr : ∀ c ∈ rest.head?, Lexer.continuesWord c = false) :
    Readable ps rest := by
  induction h generalizing rest with
  | ident hn => exact ⟨reads_word (isWordText_of_isNameText hn) hr, trivial⟩
  | primitive known _ => exact ⟨reads_word (isWordText_name known) hr, trivial⟩
  | plain _ ih | reference _ ih | argument _ ih => exact ih hr
  | select _ hn ih =>
    rw [readable_append]
    refine ⟨ih ?_, ?_, reads_word (isWordText_of_isNameText hn) hr, trivial⟩
    · rintro c ⟨⟩
      decide
    · rw [spell_cons, spell_nil, List.append_nil]
      exact reads_point hn
  | @applied m ps c items hc ha ihc iha =>
    rw [readable_append]
    refine ⟨ihc ?_, ?_, ?_⟩
    · rintro c ⟨⟩
      decide
    · rw [spell_append, List.append_assoc]
      exact reads_opening (head_listed ha rest)
    · rw [readable_append]
      refine ⟨readable_listed (fun ps inside rest stops => ?_) ?_, reads_alone (by decide) _, trivial⟩
      · obtain ⟨a, listed, rfl⟩ := List.mem_map.mp inside
        exact iha a listed stops
      · rintro c ⟨⟩
        decide
  | array _ ih =>
    rw [readable_append]
    refine ⟨ih ?_, reads_alone (by decide) _, reads_alone (by decide) _, trivial⟩
    rintro c ⟨⟩
    decide
  | unbounded => exact ⟨reads_question _, trivial⟩
  | bounded hb _ ih =>
    refine ⟨reads_question _, reads_space, reads_word (isWordText_keyword hb) ?_, reads_space, ih hr⟩
    rintro c ⟨⟩
    decide

/-- **Reading a printed type.** Its tokens are the lexemes of its pieces. -/
theorem TypeLaid.tokens {ps : List Piece} {t : Tree} (h : TypeLaid .type ps t) :
    ∃ ts last, Source.tokens (Text.Glyph.ofString t.print) = .ok (ts ++ [last]) ∧
      last.isEnd = true ∧ Placed 0 ps ts := by
  have text : t.print.toList = spell ps := h.render ⟨0, none⟩ (r := .plain) rfl
  have clean : '\x00' ∉ spell ps := by
    intro nul
    obtain ⟨y, member, nul⟩ := List.mem_flatMap.mp nul
    cases h.pieces y member with
    | word hw =>
      have none : Lexer.continuesWord '\x00' = false := by decide
      rw [continuesWord_of_isWordText hw _ nul] at none
      cases none
    | sign hx =>
      have all : ∀ x ∈ [".", "<", ">", ",", "?", "[", "]"], '\x00' ∉ x.toList := by decide
      exact all _ hx nul
    | space => revert nul; decide
  have mark : ∀ c ∈ (spell ps).head?, c ≠ '\uFEFF' := by
    obtain ⟨c, cs, hc, first⟩ := h.begins
    rw [hc]
    rintro d ⟨⟩
    rcases first with word | rfl
    · exact ne_of_startsWord word startsWord_mark
    · decide
  exact tokens_spell text (h.readable nofun) clean mark

end Tree

end Weaver.Syntax
