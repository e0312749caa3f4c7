import Weaver.Proofs.Source.Head
/-!
Text that is put together from lexemes.

Text that a program writes consists of lexemes and the white space between them. `tokens_spell` says
when reading it gives these lexemes back: each of them has to end where the next character cannot
belong to it. Only that character matters, so a text can be checked piece by piece.
-/
set_option autoImplicit false

namespace Weaver.Source

open Weaver.Text (Glyph)
open Lexer

/-- A piece of written text. -/
inductive Piece where
  | gap (cs : List Char)
  | lexeme (kind : TokenKind) (text : String)

namespace Piece

/-- The characters of a piece. -/
def chars : Piece → List Char
  | gap cs => cs
  | lexeme _ text => text.toList

end Piece

/-- The text of pieces. -/
def spell (ps : List Piece) : List Char := ps.flatMap Piece.chars

@[simp] theorem spell_nil : spell [] = [] := rfl

@[simp] theorem spell_cons (p : Piece) (ps : List Piece) : spell (p :: ps) = p.chars ++ spell ps :=
  List.flatMap_cons ..

@[simp] theorem spell_append (ps qs : List Piece) : spell (ps ++ qs) = spell ps ++ spell qs :=
  List.flatMap_append ..

/-- The tokens are the lexemes of the pieces, and stand where these stand. -/
inductive Placed : Nat → List Piece → List Token → Prop where
  | nil {o : Nat} : Placed o [] []
  | gap {o : Nat} {cs : List Char} {ps : List Piece} {ts : List Token}
      (h : Placed (o + bytes cs) ps ts) : Placed o (.gap cs :: ps) ts
  | lexeme {o : Nat} {k : TokenKind} {x : String} {t : Token} {ps : List Piece} {ts : List Token}
      (hk : t.kind = k) (hx : t.text = x) (ho : t.offset = o)
      (h : Placed (o + bytes x.toList) ps ts) : Placed o (.lexeme k x :: ps) (t :: ts)

/-- Tokens of pieces in a row are tokens of the first ones and tokens of the others. -/
theorem Placed.split {o : Nat} {ps qs : List Piece} {ts : List Token} (h : Placed o (ps ++ qs) ts) :
    ∃ us vs, ts = us ++ vs ∧ Placed o ps us ∧ Placed (o + bytes (spell ps)) qs vs := by
  induction ps generalizing o ts with
  | nil => exact ⟨[], ts, rfl, .nil, h⟩
  | cons p ps ih =>
    cases h with
    | gap h =>
      obtain ⟨us, vs, rfl, hu, hv⟩ := ih h
      refine ⟨us, vs, rfl, .gap hu, ?_⟩
      rw [spell_cons, bytes_append, ← Nat.add_assoc]
      exact hv
    | lexeme hk hx ho h =>
      obtain ⟨us, vs, rfl, hu, hv⟩ := ih h
      refine ⟨_ :: us, vs, rfl, .lexeme hk hx ho hu, ?_⟩
      rw [spell_cons, bytes_append, ← Nat.add_assoc]
      exact hv

/-! ## One lexeme -/

/-- With the given text behind it, the lexeme is read as one token. -/
def Lexes (k : TokenKind) (x : String) (rest : List Char) : Prop :=
  ∀ s s', toToken s.rest s.between = s' → Ahead s' (x.toList ++ rest) →
    ∃ t u, next s = .ok (t, u) ∧ t.kind = k ∧ t.text = x ∧ t.offset = s'.here ∧ Ahead u rest ∧
      Moved s' u x.toList

/-- A word, reserved or not. -/
def isWordText (w : String) : Bool :=
  match w.toList with
  | [] => false
  | c :: cs => startsWord c && cs.all continuesWord

theorem continuesWord_of_isWordText {w : String} (h : isWordText w = true) :
    ∀ d ∈ w.toList, continuesWord d = true := by
  intro d hd
  cases hw : w.toList with
  | nil =>
    rw [hw] at hd
    cases hd
  | cons c cs =>
    rw [isWordText, hw] at h
    obtain ⟨first, more⟩ := Bool.and_eq_true_iff.mp h
    rw [hw] at hd
    rcases List.mem_cons.mp hd with rfl | hd
    · rw [continuesWord, first, Bool.true_or]
    · exact List.all_eq_true.mp more d hd

theorem lexes_word {w : String} {rest : List Char} (hw : isWordText w = true)
    (hr : ∀ c ∈ rest.head?, continuesWord c = false) : Lexes .identifier w rest := by
  intro s s' hs h
  have all := continuesWord_of_isWordText hw
  cases hc : w.toList with
  | nil =>
    rw [isWordText, hc] at hw
    cases hw
  | cons c cs =>
    rw [isWordText, hc] at hw
    obtain ⟨first, -⟩ := Bool.and_eq_true_iff.mp hw
    obtain ⟨u, hu, ahead, moved⟩ := h.span all hr
    have look : s'.look = some c := by
      rw [h.look, hc]
      rfl
    refine ⟨token s' .identifier w, u, ?_, rfl, rfl, rfl, ahead, hc ▸ moved⟩
    unfold next
    rw [hs]
    simp only [look, first, hu, String.ofList_toList, if_true]

/-- The characters extend the operator one after the other. -/
def extendsBy (op : String) : List Char → Bool
  | [] => true
  | c :: cs => (extensions.lookup op).any (·.contains c) && extendsBy (op.push c) cs

/-- The operator is not extended by what stands behind it. -/
def stopsAt (op : String) (next : Option Char) : Bool :=
  !(extensions.lookup op).any fun cs => next.any cs.contains

theorem extend_stop {n : Nat} {op : String} {s : Scanner} (h : stopsAt op s.look = true) :
    extend n op s = (op, s) := by
  cases n with
  | zero => rfl
  | succ n =>
    unfold extend
    cases hl : extensions.lookup op with
    | none => rfl
    | some cs =>
      cases hs : s.look with
      | none => rfl
      | some c =>
        rw [stopsAt, hl, hs] at h
        have outside : cs.contains c = false := by simpa using h
        simp only [outside, Bool.false_eq_true, if_false]

theorem extend_spec {n : Nat} {op : String} {cs rest : List Char} {s : Scanner}
    (hn : cs.length ≤ n) (h : Ahead s (cs ++ rest)) (he : extendsBy op cs = true)
    (hr : stopsAt (cs.foldl String.push op) rest.head? = true) :
    ∃ u, extend n op s = (cs.foldl String.push op, u) ∧ Ahead u rest ∧ Moved s u cs := by
  induction cs generalizing n op s with
  | nil =>
    have look : s.look = rest.head? := h.look
    exact ⟨s, extend_stop (look ▸ hr), h, .refl s⟩
  | cons c cs ih =>
    obtain ⟨hc, he⟩ := Bool.and_eq_true_iff.mp he
    cases n with
    | zero => cases hn
    | succ n =>
      obtain ⟨ahead, moved⟩ := h.skip
      obtain ⟨u, hu, hau, hmu⟩ := ih (Nat.le_of_succ_le_succ hn) ahead he hr
      refine ⟨u, ?_, hau, moved.trans hmu⟩
      rw [Option.any_eq_true] at hc
      obtain ⟨ds, hl, hd⟩ := hc
      have look : s.look = some c := h.look
      unfold extend
      simp only [hl, look, hd, if_true]
      exact hu

/-- An operator: a character that begins nothing else, and what extends it. -/
def isOperatorText (x : String) : Bool :=
  match x.toList with
  | [] => false
  | c :: cs =>
    !(startsWord c || isDecimal c || c == '"' || c == '\'' || isSpace c) && cs.length ≤ 2 &&
      extendsBy c.toString cs && x != ".."

/-- The operator ends in front of the character: it is not extended, a point does not begin a
number, and a slash no comment. -/
def endsBefore (x : String) (next : Option Char) : Bool :=
  stopsAt x next && !(x == "." && next.any isDecimal) &&
    !(x == "/" && next.any fun c => c == '/' || c == '*')

theorem foldl_push (op : String) (cs : List Char) :
    cs.foldl String.push op = op ++ String.ofList cs := by
  induction cs generalizing op with
  | nil => simp
  | cons c cs ih =>
    rw [List.foldl_cons, ih, ← String.toList_inj]
    simp

theorem lexes_operator {x : String} {rest : List Char} (hx : isOperatorText x = true)
    (hr : endsBefore x rest.head? = true) : Lexes .operator x rest := by
  intro s s' hs h
  cases hc : x.toList with
  | nil =>
    rw [isOperatorText, hc] at hx
    cases hx
  | cons c cs =>
    have whole : cs.foldl String.push c.toString = x := by
      rw [foldl_push, ← String.toList_inj, hc]
      simp
    simp only [isOperatorText, hc, Bool.and_eq_true, Bool.not_eq_true', Bool.or_eq_false_iff,
      decide_eq_true_eq, bne_iff_ne] at hx
    obtain ⟨⟨⟨⟨⟨⟨⟨word, decimal⟩, quote⟩, apostrophe⟩, space⟩, length⟩, extended⟩, dots⟩ := hx
    simp only [endsBefore, Bool.and_eq_true, Bool.not_eq_true'] at hr
    obtain ⟨⟨stop, number⟩, -⟩ := hr
    rw [hc] at h
    obtain ⟨ahead, moved⟩ := h.read
    obtain ⟨u, hu, hau, hmu⟩ := extend_spec length ahead extended (whole ▸ stop)
    have look : s'.look = some c := h.look
    -- A point that begins a number would have a digit behind it.
    have fraction : (c == '.' && s'.read.looking isDecimal) = false := by
      rw [ahead.looking]
      by_cases hp : c = '.'
      · subst hp
        cases cs with
        | nil =>
          have dot : x = "." := whole.symm
          rw [dot] at number
          simpa using number
        | cons d ds =>
          have more : extensions.lookup "." = some ['.'] := by decide
          have d_dot : d = '.' := by
            simpa [more] using (Bool.and_eq_true_iff.mp extended).1
          subst d_dot
          rfl
      · simp [hp]
    refine ⟨token s' .operator x, u, ?_, rfl, rfl, rfl, hau, moved.trans hmu⟩
    unfold next
    rw [hs]
    have one : operatorToken s' c s'.read = (token s' .operator x, u) := by
      unfold operatorToken
      rw [hu, whole]
      simp [dots]
    simp only [look, word, decimal, quote, apostrophe, fraction, one, Bool.or_false,
      Bool.false_eq_true, if_false]

/-! ## Pieces in a row -/

/-- The piece can be read where the text stands behind it. -/
def Piece.Reads : Piece → List Char → Prop
  | .gap cs, _ => ∀ c ∈ cs, isSpace c = true
  | .lexeme k x, rest => k ≠ .endOfFile ∧ Lexes k x rest ∧ x.toList ≠ [] ∧
      (∀ c ∈ x.toList.head?, isSpace c = false) ∧ opensComment (x.toList ++ rest) = false

/-- The pieces can be read where the text stands behind them. -/
def Readable : List Piece → List Char → Prop
  | [], _ => True
  | p :: ps, rest => p.Reads (spell ps ++ rest) ∧ Readable ps rest

theorem readable_append {ps qs : List Piece} {rest : List Char} :
    Readable (ps ++ qs) rest ↔ Readable ps (spell qs ++ rest) ∧ Readable qs rest := by
  induction ps with
  | nil => simp [Readable]
  | cons p ps ih =>
    rw [List.cons_append, Readable, Readable, ih, spell_append, List.append_assoc, and_assoc]

theorem startsWord_of_isWordText {w : String} (h : isWordText w = true) :
    ∃ c cs, w.toList = c :: cs ∧ startsWord c = true := by
  cases hw : w.toList with
  | nil =>
    rw [isWordText, hw] at h
    cases h
  | cons c cs =>
    rw [isWordText, hw] at h
    exact ⟨c, cs, rfl, (Bool.and_eq_true_iff.mp h).1⟩

/-- A character that begins a word is told from any other by one look. -/
theorem ne_of_startsWord {c d : Char} (h : startsWord c = true) (hd : startsWord d = false) :
    c ≠ d := by
  rintro rfl
  rw [h] at hd
  cases hd

/-- A byte order mark begins no word. -/
theorem startsWord_mark : startsWord '\uFEFF' = false := by decide +kernel

theorem isDecimal_of_startsWord {c : Char} (h : startsWord c = true) : isDecimal c = false := by
  rw [isDecimal, Bool.and_eq_false_iff, decide_eq_false_iff_not, decide_eq_false_iff_not,
    Char.le_def, Char.le_def, UInt32.le_iff_toNat_le, UInt32.le_iff_toNat_le]
  have zero : '0'.val.toNat = 48 := rfl
  have nine : '9'.val.toNat = 57 := rfl
  by_cases hd : 48 ≤ c.val.toNat ∧ c.val.toNat ≤ 57
  · exfalso
    have low : c.toNat < 128 := by
      have same : c.toNat = c.val.toNat := rfl
      omega
    have alpha : c.isAlpha = (decide (c.val ≥ 'A'.val ∧ c.val ≤ 'Z'.val) ||
      (decide (c.val ≥ 'a'.val) && decide (c.val ≤ 'z'.val))) := rfl
    simp only [startsWord, Text.isLetter, low, if_true, alpha, Bool.or_eq_true, beq_iff_eq,
      Bool.and_eq_true, decide_eq_true_eq, UInt32.le_iff_toNat_le, ge_iff_le] at h
    rcases h with (rfl | rfl) | h | h
    · revert hd
      decide
    · revert hd
      decide
    · have first : 'A'.val.toNat = 65 := rfl
      omega
    · have first : 'a'.val.toNat = 97 := rfl
      omega
  · omega

theorem reads_word {w : String} {rest : List Char} (hw : isWordText w = true)
    (hr : ∀ c ∈ rest.head?, continuesWord c = false) :
    (Piece.lexeme .identifier w).Reads rest := by
  obtain ⟨c, cs, hc, first⟩ := startsWord_of_isWordText hw
  refine ⟨nofun, lexes_word hw hr, ?_, ?_, ?_⟩
  · rw [hc]
    exact List.cons_ne_nil c cs
  · rw [hc]
    rintro d ⟨⟩
    have unlike : c ≠ ' ' ∧ c ≠ '\t' ∧ c ≠ '\n' ∧ c ≠ '\r' :=
      ⟨ne_of_startsWord first (by decide), ne_of_startsWord first (by decide),
        ne_of_startsWord first (by decide), ne_of_startsWord first (by decide)⟩
    simp [isSpace, unlike]
  · rw [hc, List.cons_append]
    have unlike : c ≠ '/' := ne_of_startsWord first (by decide)
    unfold opensComment
    split
    · rename_i h
      exact absurd (List.cons.inj h).1 unlike
    · rfl

theorem reads_operator {x : String} {rest : List Char} (hx : isOperatorText x = true)
    (hr : endsBefore x rest.head? = true) : (Piece.lexeme .operator x).Reads rest := by
  have lexes := lexes_operator hx hr
  cases hc : x.toList with
  | nil =>
    rw [isOperatorText, hc] at hx
    cases hx
  | cons c cs =>
    simp only [isOperatorText, hc, Bool.and_eq_true, Bool.not_eq_true', Bool.or_eq_false_iff] at hx
    obtain ⟨⟨⟨⟨-, space⟩, -⟩, extended⟩, -⟩ := hx
    refine ⟨by decide, lexes, ?_, ?_, ?_⟩
    · rw [hc]
      exact List.cons_ne_nil c cs
    · rw [hc]
      rintro d ⟨⟩
      exact space
    · rw [hc, List.cons_append]
      unfold opensComment
      split
      · rename_i d ds h
        obtain ⟨rfl, hd⟩ := List.cons.inj h
        cases cs with
        | nil =>
          have slash : x = "/" := String.toList_inj.mp hc
          rw [List.nil_append] at hd
          rw [hd, slash] at hr
          simpa [endsBefore] using (Bool.and_eq_true_iff.mp hr).2
        | cons e es =>
          have more : extensions.lookup "/" = some ['='] := by decide
          have same : e = '=' := by simpa [more] using (Bool.and_eq_true_iff.mp extended).1
          obtain ⟨rfl, -⟩ := List.cons.inj hd
          rw [same]
          rfl
      · rfl

/-- Reading the text of pieces, with white space before them. -/
theorem all_spell {ps : List Piece} {xs : List Char} {s : Scanner} {fuel : Nat}
    (h : Ahead s (xs ++ spell ps)) (hx : ∀ c ∈ xs, isSpace c = true) (hp : Readable ps [])
    (hf : (spell ps).length < fuel) :
    ∃ ts e, all fuel s = .ok (ts ++ [e]) ∧ e.isEnd = true ∧ Placed (s.here + bytes xs) ps ts := by
  induction ps generalizing xs s fuel with
  | nil =>
    cases fuel with
    | zero => cases hf
    | succ fuel =>
      obtain ⟨ahead, -⟩ := ahead_toToken s.rest h.between hx nofun rfl
      have look : (toToken s.rest s.between).look = none := ahead.look
      refine ⟨[], ⟨.endOfFile, "", (toToken s.rest s.between).position,
        (toToken s.rest s.between).here⟩, ?_, rfl, .nil⟩
      unfold all next
      simp only [look, ahead.fault]
      rfl
  | cons p ps ih =>
    obtain ⟨reads, more⟩ := hp
    rw [spell_cons, List.length_append] at hf
    cases p with
    | gap cs =>
      rw [spell_cons, Piece.chars, ← List.append_assoc] at h
      have space : ∀ c ∈ xs ++ cs, isSpace c = true := fun c hc =>
        (List.mem_append.mp hc).elim (hx c) (reads c)
      have fits : (spell ps).length < fuel := by omega
      obtain ⟨ts, e, hall, hend, placed⟩ := ih h space more fits
      rw [bytes_append, ← Nat.add_assoc] at placed
      exact ⟨ts, e, hall, hend, .gap placed⟩
    | lexeme k x =>
      obtain ⟨kind, lexes, nonempty, space, comment⟩ := reads
      rw [List.append_nil] at lexes comment
      cases fuel with
      | zero => cases hf
      | succ fuel =>
        have space' : ∀ c ∈ (x.toList ++ spell ps).head?, isSpace c = false := by
          cases hc : x.toList with
          | nil => exact absurd hc nonempty
          | cons c cs => rwa [hc] at space
        obtain ⟨ahead, moved⟩ := ahead_toToken s.rest h.between hx space' comment
        obtain ⟨t, u, hnext, hk, hx', ho, hau, hmu⟩ := lexes s _ rfl ahead
        have length : 0 < x.toList.length := List.length_pos_iff.mpr nonempty
        have fits : (spell ps).length < fuel := by
          rw [Piece.chars] at hf
          omega
        have none : ∀ c ∈ ([] : List Char), isSpace c = true := nofun
        obtain ⟨ts, e, hall, hend, placed⟩ := ih (s := u) hau none more fits
        have placed' : Placed (s.here + bytes xs + bytes x.toList) ps ts := by
          have between : s.between.here = s.here := rfl
          rw [bytes_nil, Nat.add_zero, hmu.here, moved.here, between] at placed
          exact placed
        have offset : t.offset = s.here + bytes xs := ho.trans moved.here
        refine ⟨t :: ts, e, ?_, hend, .lexeme hk hx' offset placed'⟩
        have open_ : t.isEnd = false := by
          rw [Token.isEnd, hk, beq_eq_false_iff_ne]
          exact kind
        unfold all
        simp only [hnext, hau.fault, open_, hall, Bool.false_eq_true, if_false]
        rfl

/-- At the beginning the head stands before the whole text. -/
theorem ahead_start {cs : List Char} (clean : '\x00' ∉ cs) (mark : ∀ c ∈ cs.head?, c ≠ '\uFEFF') :
    Ahead (Scanner.start (cs.map Glyph.char)) cs ∧
      (Scanner.start (cs.map Glyph.char)).here = 0 := by
  cases cs with
  | nil => exact ⟨⟨rfl, rfl, rfl, Nat.le_refl _, rfl, clean⟩, rfl⟩
  | cons c cs =>
    have nul : (c == '\x00') = false := by
      rw [beq_eq_false_iff_ne]
      rintro rfl
      exact clean (List.mem_cons_self ..)
    have bom : c ≠ '\uFEFF' := mark c rfl
    cases line : c == '\n'
    all_goals
      refine ⟨⟨?_, ?_, ?_, ?_, ?_, clean⟩, ?_⟩
      all_goals simp [Scanner.start, Scanner.read, Scanner.here, nul, bom, line]

/-- **Reading what was spelled.** The tokens of a text that is spelled by readable pieces are its
lexemes and the end of the text. -/
theorem tokens_spell {str : String} {ps : List Piece} (hs : str.toList = spell ps)
    (hp : Readable ps []) (clean : '\x00' ∉ spell ps)
    (mark : ∀ c ∈ (spell ps).head?, c ≠ '\uFEFF') :
    ∃ ts e, tokens (Glyph.ofString str) = .ok (ts ++ [e]) ∧ e.isEnd = true ∧ Placed 0 ps ts := by
  obtain ⟨ahead, here⟩ := ahead_start clean mark
  have none : ∀ c ∈ ([] : List Char), isSpace c = true := nofun
  have fuel : (spell ps).length < ((spell ps).map Glyph.char).length + 2 := by
    rw [List.length_map]
    omega
  obtain ⟨ts, e, hall, hend, placed⟩ := all_spell (s := Scanner.start ((spell ps).map Glyph.char))
    ahead none hp fuel
  refine ⟨ts, e, ?_, hend, ?_⟩
  · rw [tokens, Glyph.ofString, hs]
    exact hall
  · rw [here] at placed
    exact placed

end Weaver.Source
