import Weaver.Parse.Basic
import Weaver.Proofs.Source.Encoding
import Weaver.Proofs.Source.Ending
import Weaver.Proofs.Source.Fuel
/-!
Tokens are faithful to their file.

The bytes of a file that lexes are those of its tokens and of what stands between them. A token has
its offset where its first byte stands, and its text is spelled by the bytes from there on. What is
left over is white space and comments, the byte order mark before the first token, and the letter
behind a literal that says which type it has. `Laid` says so of characters; a text is read along with
it, from the end of one token to the end of the next one. The parser asks whether tokens touch: they
do where there is no byte between them.
-/
set_option autoImplicit false

namespace Weaver.Source

open Weaver.Text (Glyph)
open Scanner (Onward)
open Lexer

variable {s t u start : Scanner} {cs ds ws : List Char} {c : Char} {text : List Glyph}

/-! ## Between tokens -/

/-- White space and comments, with the given character behind them. A comment that two slashes begin
goes on to the end of its line, any other one to the first star and slash. -/
inductive Blank (next : Option Char) : List Char → Prop where
  | nil : Blank next []
  | space {c : Char} {cs : List Char} (white : isSpace c = true) (rest : Blank next cs) :
      Blank next (c :: cs)
  | line {body cs : List Char} (inner : '\n' ∉ body) (ends : ∀ c ∈ cs.head?.or next, c = '\n')
      (rest : Blank next cs) : Blank next ('/' :: '/' :: (body ++ cs))
  | block {body cs : List Char} (inner : ¬ ['*', '/'] <:+: body) (rest : Blank next cs) :
      Blank next ('/' :: '*' :: (body ++ '*' :: '/' :: cs))

theorem Blank.spaces {next : Option Char} (h : Blank next cs) (hs : ∀ c ∈ ds, isSpace c = true) :
    Blank next (ds ++ cs) := by
  induction ds with
  | nil => exact h
  | cons d ds ih =>
    obtain ⟨white, others⟩ := List.forall_mem_cons.mp hs
    exact .space white (ih others)

theorem Ahead.whole (h : Ahead s ws) : s.Whole := by
  intro none
  have empty : ws = [] := List.head?_eq_none_iff.mp (h.look ▸ none)
  rw [h.rest, empty]
  rfl

theorem Ahead.sound (h : Ahead s ws) : s.Sound := by
  refine ⟨h.fault, ?_⟩
  rw [h.rest]
  refine List.forall_mem_map.mpr fun c inside => ⟨c, rfl, ?_⟩
  rintro rfl
  exact h.clean (List.mem_of_mem_tail inside)

/-- A run of characters is taken off what is ahead. -/
theorem Ahead.run (h : Ahead s ws) (p : Char → Bool) : ∃ xs ds,
    ws = xs ++ ds ∧ s.span p = (xs, (s.span p).2) ∧ Ahead (s.span p).2 ds ∧
      Moved s (s.span p).2 xs ∧ (∀ c ∈ xs, p c = true) ∧ ∀ c ∈ ds.head?, p c = false := by
  have all : ∀ c ∈ ws.takeWhile p, p c = true := List.all_eq_true.mp List.all_takeWhile
  have stop : ∀ c ∈ (ws.dropWhile p).head?, p c = false := by
    intro c first
    have none := List.head?_dropWhile_not p ws
    rw [first] at none
    simpa using none
  have whole : ws = ws.takeWhile p ++ ws.dropWhile p := List.takeWhile_append_dropWhile.symm
  have h' : Ahead s (ws.takeWhile p ++ ws.dropWhile p) := by rwa [← whole]
  obtain ⟨t, run, ahead, moved⟩ := h'.span all stop
  refine ⟨_, _, whole, ?_⟩
  rw [run]
  exact ⟨rfl, ahead, moved, all, stop⟩

namespace Lexer

/-- A comment that is closed is passed over together with the star and the slash that close it. -/
theorem closed_blockComment (h : Ahead s ws) (sound : (blockComment s.rest s).Sound) : ∃ body ds,
    ws = body ++ '*' :: '/' :: ds ∧ ¬ ['*', '/'] <:+: body ∧ Ahead (blockComment s.rest s) ds ∧
      Moved s (blockComment s.rest s) (body ++ ['*', '/']) := by
  induction ws generalizing s with
  | nil =>
    have look : s.look = none := h.look
    rw [blockComment_none _ look] at sound
    exact absurd sound.fault Scanner.fail_fault_ne_none
  | cons c ws ih =>
    have look : s.look = some c := h.look
    obtain ⟨ahead, moved⟩ := h.read
    have next : s.read.look = ws.head? := ahead.look
    rw [blockComment_eq, look] at sound ⊢
    dsimp only at sound ⊢
    by_cases closes : c = '*' ∧ ws.head? = some '/'
    · obtain ⟨rfl, slash⟩ := closes
      obtain ⟨ds, rfl⟩ := List.head?_eq_some_iff.mp slash
      have closes : ('*' == '*' && s.read.look == some '/') = true := by rw [next]; rfl
      rw [if_pos closes]
      obtain ⟨ahead', moved'⟩ := ahead.read
      exact ⟨[], ds, rfl, by decide, ahead', moved.trans moved'⟩
    · have open_ : ¬ (c == '*' && s.read.look == some '/') = true := by
        rwa [next, Bool.and_eq_true, beq_iff_eq, beq_iff_eq]
      rw [if_neg open_] at sound ⊢
      obtain ⟨body, ds, rfl, inner, ahead', moved'⟩ := ih ahead sound
      refine ⟨c :: body, ds, rfl, fun inside => ?_, ahead', moved.trans moved'⟩
      rcases List.infix_cons_iff.mp inside with first | later
      · obtain ⟨rfl, more⟩ := List.cons_prefix_cons.mp first
        obtain ⟨body', rfl⟩ := more
        exact closes ⟨rfl, rfl⟩
      · exact inner later

/-- A comment is a blank in front of any other ones. -/
theorem blank_comment (h : Ahead s (c :: ws)) (opens : c = '/' ∨ c = '*')
    (sound : (comment s).Sound) : ∃ body ds, ws = body ++ ds ∧ Ahead (comment s) ds ∧
      Moved s (comment s) (c :: body) ∧ ∀ cs rest, ds = cs ++ rest → Blank rest.head? cs →
        Blank rest.head? ('/' :: c :: (body ++ cs)) := by
  have look : s.look = some c := h.look
  obtain ⟨ahead, moved⟩ := h.read
  unfold comment at sound ⊢
  rw [look] at sound ⊢
  rcases opens with rfl | rfl
  · rw [if_pos (beq_self_eq_true _)]
    obtain ⟨body, ds, rfl, -, ahead', moved', inner, ends⟩ := ahead.run (· != '\n')
    refine ⟨body, ds, rfl, ahead', moved.trans moved', ?_⟩
    rintro cs rest rfl blank
    refine .line (fun inside => ?_) (fun d first => ?_) blank
    · exact absurd rfl (bne_iff_ne.mp (inner _ inside))
    · rw [← List.head?_append] at first
      simpa using ends d first
  · have other : ¬ (some '*' == some '/') = true := by decide
    rw [if_neg other] at sound ⊢
    obtain ⟨body, ds, rfl, inner, ahead', moved'⟩ := closed_blockComment ahead sound
    refine ⟨body ++ ['*', '/'], ds, by simp, ahead', moved.trans moved', ?_⟩
    rintro cs rest - blank
    rw [List.append_assoc]
    exact .block inner blank

/-- What is passed over in search of a token is white space and comments. -/
theorem blank_toToken (h : Ahead s ws) (sound : (toToken s.rest s).Sound) : ∃ blanks ds,
    ws = blanks ++ ds ∧ Blank ds.head? blanks ∧ Ahead (toToken s.rest s) ds ∧
      Moved s (toToken s.rest s) blanks := by
  -- a comment may be passed over by many steps, so the induction is on the text ahead
  induction length : ws.length using Nat.strongRecOn generalizing s ws with
  | ind n ih =>
    obtain ⟨white, behind, rfl, -, here, moved, all, -⟩ := h.run isSpace
    have here : Ahead (s.span isSpace).2.begin behind := here.begin
    have moved : Moved s (s.span isSpace).2.begin white := ⟨moved.here, moved.index⟩
    rw [toToken_eq h.whole] at sound ⊢
    dsimp only at sound ⊢
    generalize (s.span isSpace).2.begin = t at sound here moved ⊢
    split at sound
    · next opens =>
      rw [if_pos opens]
      obtain ⟨slash, second⟩ := opens
      obtain ⟨more, rfl⟩ := List.head?_eq_some_iff.mp (here.look ▸ slash)
      obtain ⟨ahead, moved₁⟩ := here.read
      obtain ⟨c, look, opens⟩ : ∃ c, t.read.look = some c ∧ (c = '/' ∨ c = '*') :=
        second.elim (⟨_, ·, .inl rfl⟩) (⟨_, ·, .inr rfl⟩)
      obtain ⟨inner, rfl⟩ := List.head?_eq_some_iff.mp (ahead.look ▸ look)
      have onward : Onward t.read (comment t.read) := onward_comment (.refl ahead.whole)
      have clean := (onward_toToken (comment t.read).rest (.refl onward.whole)).sound sound
      obtain ⟨body, ds, rfl, ahead', moved₂, blank⟩ := blank_comment ahead opens clean
      have less : ds.length < n := by
        rw [← length]
        simp only [List.length_append, List.length_cons]
        omega
      obtain ⟨blanks, rest, rfl, blanks_, last, moved₃⟩ := ih _ less ahead' sound rfl
      refine ⟨white ++ ('/' :: c :: (body ++ blanks)), rest, by simp, ?_, last, ?_⟩
      · exact (blank blanks rest rfl blanks_).spaces all
      · exact moved.trans ((moved₁.trans moved₂).trans moved₃)
    · next other =>
      rw [if_neg other]
      exact ⟨white, behind, rfl, List.append_nil white ▸ Blank.nil.spaces all, here, moved⟩

end Lexer

/-! ## One token -/

/-- The letters that may stand behind a token without being part of its text: a literal of some types
has one that says which type it is, and a double may do without. -/
def Token.suffixes (t : Token) : List (List Char) :=
  match t.kind with
  | .literal (.long _) => [['l'], ['L']]
  | .literal (.float _) => [['f'], ['F']]
  | .literal (.double _) => [[], ['d'], ['D']]
  | _ => [[]]

/-- The token was read from one place of the head to the other: the characters ahead begin with its
text and the letter behind that. -/
def Taken (s : Scanner) (ws : List Char) (t : Token) (s' : Scanner) : Prop :=
  ∃ extra ds, ws = t.text.toList ++ (extra ++ ds) ∧ t.text ≠ "" ∧ extra ∈ t.suffixes ∧
    t.offset = s.here ∧ Ahead s' ds ∧ Moved s s' (t.text.toList ++ extra)

/-- A token that was read from a character on, and the letter behind it. -/
theorem taken_of {t : Token} {s' : Scanner} {xs extra : List Char}
    (text : t.text = String.ofList (c :: xs)) (marked : extra ∈ t.suffixes)
    (offset : t.offset = s.here) (ahead : Ahead s' ds) (moved : Moved s s' (c :: xs ++ extra)) :
    Taken s (c :: xs ++ (extra ++ ds)) t s' := by
  have chars : t.text.toList = c :: xs := by rw [text, String.toList_ofList]
  refine ⟨extra, ds, by rw [chars], fun empty => ?_, marked, offset, ahead, chars ▸ moved⟩
  rw [empty] at chars
  cases chars

/-- A token without a letter behind it. -/
theorem taken_plain {t : Token} {s' : Scanner} {xs : List Char}
    (text : t.text = String.ofList (c :: xs)) (plain : [] ∈ t.suffixes) (offset : t.offset = s.here)
    (ahead : Ahead s' ds) (moved : Moved s s' (c :: xs)) : Taken s (c :: (xs ++ ds)) t s' :=
  taken_of text plain offset ahead ((List.append_nil (c :: xs)).symm ▸ moved)

/-- What was read from a character on is taken off together with it. -/
theorem Scanner.Onward.passed (onward : Onward s.read u) (h : Ahead s (c :: ws)) (sound : u.Sound) :
    ∃ xs ds, ws = xs ++ ds ∧ s.passed u = c :: xs ∧ Ahead u ds ∧ Moved s u (c :: xs) := by
  obtain ⟨ahead, moved⟩ := h.read
  obtain ⟨xs, ds, rfl, ahead', moved'⟩ := onward.reaches sound ws ahead
  have whole : Ahead s (c :: xs ++ ds) := h
  have all : Moved s u (c :: xs) := moved.trans moved'
  exact ⟨xs, ds, rfl, whole.passed all, ahead', all⟩

namespace Lexer

/-- The letter under the head is read over if it is the mark, small or capital. -/
theorem skip_mark {mark : Char} (h : Ahead u ws) (looks : u.looking (isMark mark) = true) :
    ∃ c ds, ws = c :: ds ∧ [c] ∈ [[mark], [mark.toUpper]] ∧ Ahead u.skip ds ∧
      Moved u u.skip [c] := by
  rw [h.looking, Option.any_eq_true] at looks
  obtain ⟨c, first, same⟩ := looks
  obtain ⟨ds, rfl⟩ := List.head?_eq_some_iff.mp first
  rw [isMark, Bool.or_eq_true, beq_iff_eq, beq_iff_eq] at same
  refine ⟨c, ds, rfl, ?_, h.skip⟩
  rcases same with rfl | rfl
  · exact List.mem_cons_self ..
  · exact List.mem_cons_of_mem _ (List.mem_cons_self ..)

theorem not_sound_failAt {f : Fault} : ¬ (failAt start s f).Sound := by
  intro sound
  have fault := sound.fault
  unfold failAt at fault
  split at fault
  · next met => cases met.symm.trans fault
  · cases fault

/-- A token that was read over the characters, with a letter behind its text. -/
def Suffixed (start u : Scanner) (ws : List Char) (text : String) (r : Token × Scanner) : Prop :=
  r.1.text = text ∧ r.1.offset = start.here ∧ ∃ extra ds, ws = extra ++ ds ∧
    extra ∈ r.1.suffixes ∧ Ahead r.2 ds ∧ Moved u r.2 extra

theorem suffixed_floatToken {text : String} (h : Ahead u ws)
    (sound : (floatToken start text u).2.Sound) :
    Suffixed start u ws text (floatToken start text u) := by
  revert sound
  unfold floatToken
  extract_lets single s₁
  intro sound
  split at sound
  · refine ⟨rfl, rfl, ?_⟩
    dsimp only [token]
    by_cases float : single = true
    · obtain ⟨c, ds, rfl, letter, ahead, moved⟩ := skip_mark h float
      have next : s₁ = u.skip := if_pos (by rw [float, Bool.true_or])
      rw [if_pos float]
      exact ⟨[c], ds, rfl, letter, next ▸ ahead, next ▸ moved⟩
    · rw [if_neg float]
      by_cases double : u.looking (isMark 'd') = true
      · obtain ⟨c, ds, rfl, letter, ahead, moved⟩ := skip_mark h double
        have next : s₁ = u.skip := if_pos (by rw [double, Bool.or_true])
        exact ⟨[c], ds, rfl, List.mem_cons_of_mem _ letter, next ▸ ahead, next ▸ moved⟩
      · have neither : ¬ (single || u.looking (isMark 'd')) = true := by
          rw [Bool.or_eq_true]
          exact not_or.mpr ⟨float, double⟩
        have next : s₁ = u := if_neg neither
        exact ⟨[], ws, rfl, List.mem_cons_self .., next ▸ h, next ▸ .refl u⟩
  · exact absurd sound not_sound_failAt

theorem suffixed_integerToken {text : String} (h : Ahead u ws)
    (sound : (integerToken start text u).2.Sound) :
    Suffixed start u ws text (integerToken start text u) := by
  revert sound
  unfold integerToken
  extract_lets long s₁
  intro sound
  split at sound
  · refine ⟨rfl, rfl, ?_⟩
    dsimp only [token]
    by_cases isLong : long = true
    · obtain ⟨c, ds, rfl, letter, ahead, moved⟩ := skip_mark h isLong
      have next : s₁ = u.skip := if_pos isLong
      rw [if_pos isLong]
      exact ⟨[c], ds, rfl, letter, next ▸ ahead, next ▸ moved⟩
    · have next : s₁ = u := if_neg isLong
      rw [if_neg isLong]
      exact ⟨[], ws, rfl, List.mem_cons_self .., next ▸ h, next ▸ .refl u⟩
  · exact absurd sound not_sound_failAt

/-- A word is the run of the characters that continue it. -/
theorem taken_span {p : Char → Bool} (h : Ahead start (c :: ws)) (holds : p c = true) :
    Taken start (c :: ws) (token start .identifier (String.ofList (start.span p).1))
      (start.span p).2 := by
  obtain ⟨xs, ds, whole, run, ahead, moved, -, stop⟩ := h.run p
  rw [run]
  cases xs with
  | nil =>
    rw [List.nil_append] at whole
    rw [stop c (whole ▸ rfl)] at holds
    cases holds
  | cons d xs =>
    obtain ⟨rfl, rfl⟩ := List.cons.inj whole
    exact taken_plain rfl (List.mem_cons_self ..) rfl ahead moved

/-- A number is read on to its last digit, and then over its letter. -/
theorem taken_numberToken {afterDot : Bool} (h : Ahead start (c :: ws))
    (onward : Onward start.read (number start afterDot s).2)
    (sound : (numberToken start afterDot s).2.Sound) :
    Taken start (c :: ws) (numberToken start afterDot s).1 (numberToken start afterDot s).2 := by
  have after : Onward (number start afterDot s).2 (numberToken start afterDot s).2 :=
    onward_numberToken afterDot (.refl onward.whole)
  obtain ⟨xs, ds, rfl, passed, ahead, moved⟩ := onward.passed h (after.sound sound)
  obtain ⟨same, offset, extra, es, rfl, suffix, ahead', moved'⟩ : Suffixed start
      (number start afterDot s).2 ds (String.ofList (c :: xs)) (numberToken start afterDot s) := by
    unfold numberToken at sound ⊢
    dsimp only at sound ⊢
    rw [passed] at sound ⊢
    split at sound
    · next floating =>
      rw [if_pos floating]
      exact suffixed_floatToken ahead sound
    · next integral =>
      rw [if_neg integral]
      exact suffixed_integerToken ahead sound
  exact taken_of same suffix offset ahead' (moved.trans moved')

theorem taken_quotedToken {quote : Char} {t : Token} {s' : Scanner} (h : Ahead start (c :: ws))
    (read : quotedToken start quote = .ok (t, s')) (sound : s'.Sound) :
    Taken start (c :: ws) t s' := by
  obtain ⟨last, body, same⟩ := onward_quotedLiteral quote start
  have onward : Onward start.read (quotedLiteral quote start) := same ▸ body.read
  unfold quotedToken at read
  dsimp only at read
  split at read
  · cases read
  · split at read
    · cases read
      exact absurd sound not_sound_failAt
    · split at read
      · cases read
        obtain ⟨xs, ds, rfl, passed, ahead, moved⟩ := onward.passed h sound
        exact taken_plain (congrArg String.ofList passed) (List.mem_cons_self ..) rfl ahead moved
      · split at read
        · cases read
          obtain ⟨xs, ds, rfl, passed, ahead, moved⟩ := onward.passed h sound
          exact taken_plain (congrArg String.ofList passed) (List.mem_cons_self ..) rfl ahead moved
        · cases read
          exact absurd sound not_sound_failAt

/-- What extends an operator becomes part of its text. -/
theorem extend_takes (n : Nat) (op : String) (h : Ahead s ws) : ∃ xs ds,
    ws = xs ++ ds ∧ (extend n op s).1.toList = op.toList ++ xs ∧ Ahead (extend n op s).2 ds ∧
      Moved s (extend n op s).2 xs := by
  induction n generalizing op s ws with
  | zero => exact ⟨[], ws, rfl, (List.append_nil _).symm, h, .refl s⟩
  | succ n ih =>
    unfold extend
    split
    · next more d known look =>
      split
      · obtain ⟨behind, rfl⟩ := List.head?_eq_some_iff.mp (h.look ▸ look)
        obtain ⟨ahead, moved⟩ := h.skip
        obtain ⟨xs, ds, rfl, text, ahead', moved'⟩ := ih (op.push d) ahead
        refine ⟨d :: xs, ds, rfl, ?_, ahead', moved.trans moved'⟩
        rw [text, String.toList_push, List.append_assoc, List.singleton_append]
      · exact ⟨[], ws, rfl, (List.append_nil _).symm, h, .refl s⟩
    · exact ⟨[], ws, rfl, (List.append_nil _).symm, h, .refl s⟩

theorem taken_operatorToken (h : Ahead start (c :: ws))
    (sound : (operatorToken start c start.read).2.Sound) : Taken start (c :: ws)
      (operatorToken start c start.read).1 (operatorToken start c start.read).2 := by
  obtain ⟨ahead, moved⟩ := h.read
  obtain ⟨xs, ds, rfl, text, ahead', moved'⟩ := extend_takes 2 c.toString ahead
  unfold operatorToken at sound ⊢
  dsimp only at sound ⊢
  split at sound
  · exact absurd sound not_sound_failAt
  · next single =>
    rw [if_neg single]
    refine taken_plain ?_ (List.mem_cons_self ..) rfl ahead' (moved.trans moved')
    rw [← String.toList_inj, String.toList_ofList]
    simpa [token] using text

theorem isEnd_numberToken (start : Scanner) (afterDot : Bool) (s : Scanner) :
    (numberToken start afterDot s).1.isEnd = false := by
  unfold numberToken
  dsimp only
  split
  · unfold floatToken
    dsimp only
    split <;> rfl
  · unfold integerToken
    dsimp only
    split <;> rfl

theorem isEnd_operatorToken (start : Scanner) (c : Char) (s : Scanner) :
    (operatorToken start c s).1.isEnd = false := by
  unfold operatorToken
  rfl

theorem isEnd_quotedToken {quote : Char} {t : Token} {s' : Scanner}
    (read : quotedToken s quote = .ok (t, s')) : t.isEnd = false := by
  unfold quotedToken at read
  dsimp only at read
  split at read
  · cases read
  · split at read
    · cases read
      rfl
    · split at read
      · cases read
        rfl
      · split at read <;>
        · cases read
          rfl

/-- A token that is not the end of the text is taken behind white space and comments, and the end of
the text stands behind the last of these. -/
theorem next_takes {t : Token} {s' : Scanner} (read : next s = .ok (t, s')) :
    t.isEnd = true ∧ s' = behindBlanks s ∧ (behindBlanks s).look = none ∨
      t.isEnd = false ∧ ∀ ws, Ahead (behindBlanks s) ws → s'.Sound → Taken (behindBlanks s) ws t s' := by
  unfold next at read
  dsimp only at read
  rw [show toToken s.rest s.between = behindBlanks s from rfl] at read
  generalize behindBlanks s = u at read ⊢
  split at read
  · next look =>
    cases read
    exact .inl ⟨rfl, rfl, look⟩
  · next c look =>
    refine .inr ?_
    have first {ws : List Char} (h : Ahead u ws) : ∃ ds, ws = c :: ds :=
      List.head?_eq_some_iff.mp (h.look ▸ look)
    split at read
    · next starts =>
      cases read
      refine ⟨rfl, fun ws ahead _ => ?_⟩
      obtain ⟨ds, rfl⟩ := first ahead
      exact taken_span ahead (by rw [continuesWord, starts, Bool.true_or])
    · split at read
      · next decimal =>
        obtain ⟨rfl, rfl⟩ := Prod.ext_iff.mp (Except.ok.inj read)
        refine ⟨isEnd_numberToken u false u, fun ws ahead sound => ?_⟩
        obtain ⟨ds, rfl⟩ := first ahead
        refine taken_numberToken ahead ?_ sound
        exact onward_number false (fun dot => Bool.noConfusion dot) fun _ => onward_digits look decimal
      · split at read
        · refine ⟨isEnd_quotedToken read, fun ws ahead sound => ?_⟩
          obtain ⟨ds, rfl⟩ := first ahead
          exact taken_quotedToken ahead read sound
        · split at read
          · obtain ⟨rfl, rfl⟩ := Prod.ext_iff.mp (Except.ok.inj read)
            refine ⟨isEnd_numberToken u true u.read, fun ws ahead sound => ?_⟩
            obtain ⟨ds, rfl⟩ := first ahead
            refine taken_numberToken ahead ?_ sound
            exact onward_number true (fun _ => .refl Scanner.whole_read) fun digits =>
              Bool.noConfusion digits
          · obtain ⟨rfl, rfl⟩ := Prod.ext_iff.mp (Except.ok.inj read)
            refine ⟨isEnd_operatorToken u c u.read, fun ws ahead sound => ?_⟩
            obtain ⟨ds, rfl⟩ := first ahead
            exact taken_operatorToken ahead sound

end Lexer

/-! ## All tokens -/

/-- What may stand in front of the white space and the comments behind a token: the letter of a
literal. At the beginning of a file this is a byte order mark. -/
def extras : Option Token → List (List Char)
  | none => [[], ['\uFEFF']]
  | some t => t.suffixes

/-- The first character of the token, if there is one. -/
def firstOf (next : Option Token) : Option Char :=
  next.bind fun t => t.text.toList.head?

theorem head?_text {t : Token} (h : t.text ≠ "") : (t.text.toList ++ cs).head? = firstOf (some t) := by
  cases chars : t.text.toList with
  | nil => exact absurd (String.toList_eq_nil_iff.mp chars) h
  | cons c cs =>
    rw [firstOf, Option.bind_some, chars]
    rfl

/-- The offset behind the last byte of a token. -/
def Token.stop (t : Token) : Nat := t.offset + t.text.utf8ByteSize

/-- The characters from an offset on, behind the given token, are those of the tokens and of what
stands between them. -/
inductive Laid : Option Token → Nat → List Token → List Char → Prop where
  | last {prev : Option Token} {k : Nat} {extra blanks : List Char} (marked : extra ∈ extras prev)
      (blank : Blank none blanks) : Laid prev k [] (extra ++ blanks)
  | token {prev : Option Token} {k : Nat} {extra blanks cs : List Char} {t : Token} {ts : List Token}
      (marked : extra ∈ extras prev) (blank : Blank (firstOf (some t)) blanks)
      (offset : t.offset = k + bytes (extra ++ blanks)) (text : t.text ≠ "")
      (rest : Laid (some t) t.stop ts cs) :
      Laid prev k (t :: ts) (extra ++ blanks ++ (t.text.toList ++ cs))

namespace Lexer

/-- Reading all tokens ends with the end of the text, or goes on behind the first token. -/
theorem all_eq_ok {n : Nat} {ts : List Token} (read : all (n + 1) s = .ok ts) :
    ∃ t s', next s = .ok (t, s') ∧ s'.fault = none ∧ (t.isEnd = true → ts = [t]) ∧
      (t.isEnd = false → ∃ ts', all n s' = .ok ts' ∧ ts = t :: ts') := by
  unfold all at read
  split at read
  · cases read
  next t s' here =>
  refine ⟨t, s', here, ?_⟩
  split at read
  · cases read
  next clear =>
  refine ⟨clear, fun isEnd => ?_, fun inner => ?_⟩
  · rw [isEnd, if_pos rfl] at read
    exact (Except.ok.inj read).symm
  · rw [inner, if_neg Bool.false_ne_true] at read
    cases others : all n s' with
    | error e =>
      rw [others] at read
      cases read
    | ok ts' =>
      rw [others] at read
      exact ⟨ts', rfl, (Except.ok.inj read).symm⟩

/-- Where all tokens are read, no stray byte and no NUL was met. -/
theorem sound_of_all {n : Nat} {ts : List Token} (whole : s.Whole) (enough : s.ahead.length < n)
    (read : all n s = .ok ts) : s.Sound := by
  induction n generalizing s ts with
  | zero => exact absurd enough (Nat.not_lt_zero _)
  | succ n ih =>
    obtain ⟨t, s', here, clear, -, others⟩ := all_eq_ok read
    obtain ⟨onward, takes⟩ := onward_next whole here
    refine onward.sound ?_
    rcases next_takes here with ⟨-, rfl, look⟩ | ⟨inner, -⟩
    -- at the end of the text nothing is left to be faulty, and what was read before is sound with it
    · exact ⟨clear, onward.whole look ▸ List.forall_mem_nil _⟩
    · obtain ⟨ts', rest, -⟩ := others inner
      exact ih onward.whole (Nat.lt_of_lt_of_le (takes inner) (Nat.le_of_lt_succ enough)) rest

theorem sound_behindBlanks {t : Token} {s' : Scanner} (read : next s = .ok (t, s'))
    (sound : s'.Sound) : (behindBlanks s).Sound := by
  rcases next_eq_ok read with ⟨c, -, -, onward⟩ | ⟨-, rfl⟩
  · exact (onward.sound sound).of_read
  · exact sound

/-- The tokens are laid along the characters ahead, and the last of them is the end of the text. -/
theorem laid_of_all {n k : Nat} {ts : List Token} {prev : Option Token} {extra : List Char}
    (h : Ahead s ws) (enough : s.ahead.length < n) (read : all n s = .ok ts)
    (marked : extra ∈ extras prev) (here : s.here = k + bytes extra) :
    ∃ us last, ts = us ++ [last] ∧ (∀ t ∈ us, t.isEnd = false) ∧ last.isEnd = true ∧
      Laid prev k us (extra ++ ws) := by
  induction n generalizing s ws k ts prev extra with
  | zero => exact absurd enough (Nat.not_lt_zero _)
  | succ n ih =>
    obtain ⟨t, s', first, clear, ends, others⟩ := all_eq_ok read
    obtain ⟨onward, takes⟩ := onward_next h.whole first
    rcases next_takes first with ⟨isEnd, rfl, look⟩ | ⟨inner, taken⟩
    · have clean : (behindBlanks s).Sound := ⟨clear, onward.whole look ▸ List.forall_mem_nil _⟩
      obtain ⟨blanks, ds, rfl, blank, ahead, -⟩ := blank_toToken h.between clean
      have empty : ds = [] := List.head?_eq_none_iff.mp (ahead.look ▸ look)
      subst empty
      refine ⟨[], t, ends isEnd, List.forall_mem_nil _, isEnd, ?_⟩
      rw [List.append_nil]
      exact .last marked blank
    · obtain ⟨ts', rest, rfl⟩ := others inner
      have fewer := Nat.lt_of_lt_of_le (takes inner) (Nat.le_of_lt_succ enough)
      have behind := sound_of_all onward.whole fewer rest
      obtain ⟨blanks, ds, rfl, blank, ahead, moved⟩ :=
        blank_toToken h.between (sound_behindBlanks first behind)
      obtain ⟨suffix, es, rfl, text, marked', offset, ahead', moved'⟩ := taken ds ahead behind
      have begins : t.offset = k + bytes (extra ++ blanks) := by
        rw [offset, bytes_append, ← Nat.add_assoc, ← here]
        exact moved.here
      have here' : s'.here = t.stop + bytes suffix := by
        rw [moved'.here, ← offset, bytes_append, Token.stop, utf8ByteSize_eq_bytes, Nat.add_assoc]
      -- the head has passed the letter of the token, which belongs to the gap behind it
      have marked' : suffix ∈ extras (some t) := marked'
      obtain ⟨us, last, rfl, inner', isEnd, laid⟩ := ih ahead' fewer rest marked' here'
      refine ⟨t :: us, last, rfl, List.forall_mem_cons.mpr ⟨inner, inner'⟩, isEnd, ?_⟩
      rw [head?_text text] at blank
      rw [← List.append_assoc]
      exact .token marked blank begins text laid

end Lexer

/-! ## Ranges of bytes -/

namespace Laid

variable {prev : Option Token} {k : Nat} {front back us : List Token}

/-- Where tokens stand before others, the characters of the others are behind those of the first
ones. -/
theorem split (h : Laid prev k (front ++ back) cs) : ∃ xs ys, cs = xs ++ ys ∧
    k + bytes xs = front.getLast?.elim k Token.stop ∧
      Laid (front.getLast?.or prev) (k + bytes xs) back ys := by
  induction front generalizing prev k cs with
  | nil => exact ⟨[], cs, rfl, rfl, h⟩
  | cons t front ih =>
    cases h with
    | @token _ _ extra blanks cs _ _ marked blank offset text rest =>
      obtain ⟨xs, ys, rfl, stop, laid⟩ := ih rest
      have place : k + bytes (extra ++ blanks ++ (t.text.toList ++ xs)) = t.stop + bytes xs := by
        rw [bytes_append, bytes_append t.text.toList, ← Nat.add_assoc, ← Nat.add_assoc, ← offset,
          Token.stop, utf8ByteSize_eq_bytes]
      have last : (t :: front).getLast? = front.getLast?.or (some t) := by
        rw [List.getLast?_cons]
        cases front.getLast? <;> rfl
      refine ⟨extra ++ blanks ++ (t.text.toList ++ xs), ys, by simp only [List.append_assoc], ?_, ?_⟩
      · rw [place, stop, last]
        cases front.getLast? <;> rfl
      · rw [place, last, Option.or_assoc, Option.some_or]
        exact laid

/-- No token begins before the offset, and each of them has bytes. -/
theorem le_offset (h : Laid prev k us cs) : ∀ t ∈ us, k ≤ t.offset ∧ t.offset < t.stop := by
  induction h with
  | last => exact List.forall_mem_nil _
  | @token prev k extra blanks cs t ts marked blank offset text rest ih =>
    have some_ : 0 < t.text.utf8ByteSize := by
      rw [Nat.pos_iff_ne_zero]
      exact mt String.utf8ByteSize_eq_zero_iff.mp text
    have less : t.offset < t.stop := Nat.lt_add_of_pos_right some_
    refine List.forall_mem_cons.mpr ⟨⟨by omega, less⟩, fun u later => ?_⟩
    obtain ⟨behind, less'⟩ := ih u later
    exact ⟨by omega, less'⟩

/-- Tokens do not overlap. -/
theorem apart (h : Laid prev k us cs) : us.Pairwise fun t u => t.stop ≤ u.offset := by
  induction h with
  | last => exact .nil
  | token marked blank offset text rest ih =>
    exact List.pairwise_cons.mpr ⟨fun u later => (rest.le_offset u later).1, ih⟩

/-- The characters begin with what is left over in front of the first token. -/
theorem first_gap (h : Laid prev k back cs) : ∃ extra blanks ds, cs = extra ++ blanks ++ ds ∧
    extra ∈ extras prev ∧ Blank (firstOf back.head?) blanks ∧
      back.head?.elim (k + bytes cs) Token.offset = k + bytes (extra ++ blanks) := by
  cases h with
  | last marked blank => exact ⟨_, _, [], (List.append_nil _).symm, marked, blank, rfl⟩
  | token marked blank offset text rest => exact ⟨_, _, _, rfl, marked, blank, offset⟩

/-- The characters of a token stand behind what is left over in front of it. -/
theorem first_text {t : Token} (h : Laid prev k (t :: us) cs) : ∃ xs ds,
    cs = xs ++ (t.text.toList ++ ds) ∧ t.offset = k + bytes xs := by
  cases h with
  | token marked blank offset text rest => exact ⟨_, _, rfl, offset⟩

end Laid

/-- The bytes between two tokens, or between a token and an end of the file: white space and comments,
behind the letter of a literal or the byte order mark. -/
def Gap (prev next : Option Token) (bs : List UInt8) : Prop :=
  ∃ extra blanks, bs = encoded (extra ++ blanks) ∧ extra ∈ extras prev ∧ Blank (firstOf next) blanks

/-- The tokens have ranges of the bytes of a file, one behind the other, and leave out nothing but
gaps. -/
structure Covers (source : List UInt8) (us : List Token) : Prop where
  range : ∀ t ∈ us, t.offset < t.stop ∧ t.stop ≤ source.length
  apart : us.Pairwise fun t u => t.stop ≤ u.offset
  text : ∀ t ∈ us, source.extract t.offset t.stop = t.text.toUTF8.data.toList
  gap : ∀ front back, us = front ++ back → Gap front.getLast? back.head?
    (source.extract (front.getLast?.elim 0 Token.stop) (back.head?.elim source.length Token.offset))

/-- What is laid along the characters of a file covers the file. -/
theorem covers_of_laid {us : List Token} (h : Laid none 0 us cs) : Covers (encoded cs) us := by
  have place : ∀ t ∈ us, ∃ xs ds, cs = xs ++ (t.text.toList ++ ds) ∧ t.offset = bytes xs := by
    intro t inside
    obtain ⟨front, back, rfl⟩ := List.append_of_mem inside
    obtain ⟨xs, ys, rfl, -, laid⟩ := h.split
    obtain ⟨zs, ds, rfl, offset⟩ := laid.first_text
    refine ⟨xs ++ zs, ds, (List.append_assoc ..).symm, ?_⟩
    rw [offset, bytes_append, Nat.zero_add]
  refine ⟨fun t inside => ⟨(h.le_offset t inside).2, ?_⟩, h.apart, fun t inside => ?_, ?_⟩
  · obtain ⟨xs, ds, rfl, offset⟩ := place t inside
    rw [length_encoded, Token.stop, offset, utf8ByteSize_eq_bytes, bytes_append, bytes_append]
    omega
  · obtain ⟨xs, ds, rfl, offset⟩ := place t inside
    rw [Token.stop, offset, utf8ByteSize_eq_bytes, extract_encoded, toUTF8_eq_encoded]
  · rintro front back rfl
    obtain ⟨xs, ys, rfl, stop, laid⟩ := h.split
    obtain ⟨extra, blanks, ds, rfl, marked, blank, offset⟩ := laid.first_gap
    rw [Option.or_none] at marked
    refine ⟨extra, blanks, ?_, marked, blank⟩
    rw [← stop, Nat.zero_add]
    have ends : back.head?.elim (encoded (xs ++ (extra ++ blanks ++ ds))).length Token.offset =
        bytes xs + bytes (extra ++ blanks) := by
      rw [length_encoded, bytes_append xs, ← Nat.zero_add (bytes xs), offset]
    rw [ends, extract_encoded]

/-! ## A file -/

/-- At the beginning the head stands before the whole text. -/
theorem ahead_first (clean : '\x00' ∉ cs) :
    let s := Scanner.read ⟨cs.map Glyph.char, none, 0, 0, 0, 1, 0, 0, Position.none, none⟩
    Ahead s cs ∧ s.here = 0 := by
  cases cs with
  | nil => exact ⟨⟨rfl, rfl, rfl, Nat.le_refl _, rfl, clean⟩, rfl⟩
  | cons c cs =>
    have nul : (c == '\x00') = false := by
      rw [beq_eq_false_iff_ne]
      rintro rfl
      exact clean (List.mem_cons_self ..)
    cases line : c == '\n'
    all_goals
      refine ⟨⟨?_, ?_, ?_, ?_, ?_, clean⟩, ?_⟩
      all_goals simp [Scanner.read, Scanner.here, nul, line]

/-- A byte order mark at the beginning is passed over. -/
theorem ahead_behindMark (clean : '\x00' ∉ cs) : ∃ extra ds, cs = extra ++ ds ∧
    extra ∈ extras none ∧ Ahead (Scanner.start (cs.map Glyph.char)) ds ∧
      (Scanner.start (cs.map Glyph.char)).here = bytes extra := by
  obtain ⟨ahead, here⟩ := ahead_first clean
  unfold Scanner.start
  dsimp only
  split
  · next mark =>
    obtain ⟨ds, rfl⟩ := List.head?_eq_some_iff.mp (ahead.look ▸ eq_of_beq mark)
    obtain ⟨ahead', moved⟩ := ahead.read
    refine ⟨['\uFEFF'], ds, rfl, List.mem_cons_of_mem _ (List.mem_cons_self ..), ahead', ?_⟩
    rw [moved.here, here, Nat.zero_add]
  · exact ⟨[], cs, rfl, List.mem_cons_self .., ahead, here⟩

/-- Where all glyphs are characters, they are those of some characters. -/
theorem chars_of_sound (h : ∀ g ∈ text, ∃ c, g = Glyph.char c ∧ c ≠ '\x00') :
    ∃ cs : List Char, text = cs.map Glyph.char ∧ '\x00' ∉ cs := by
  induction text with
  | nil => exact ⟨[], rfl, List.not_mem_nil⟩
  | cons g text ih =>
    obtain ⟨⟨c, rfl, nul⟩, others⟩ := List.forall_mem_cons.mp h
    obtain ⟨cs, rfl, clean⟩ := ih others
    exact ⟨c :: cs, rfl, List.not_mem_cons_of_ne_of_not_mem nul.symm clean⟩

/-- There are more rounds than characters. -/
theorem length_start : (Scanner.start text).ahead.length < text.length + 2 := by
  have within : (Scanner.start text).ahead <:+ text.map Glyph.shown := start_ahead
  have length := within.length_le
  rw [List.length_map] at length
  omega

/-- A text that lexes has no stray byte and no NUL. -/
theorem chars_of_tokens {ts : List Token} (read : tokens text = .ok ts) :
    ∃ cs : List Char, text = cs.map Glyph.char ∧ '\x00' ∉ cs := by
  have sound := sound_of_all start_whole length_start read
  have first : Scanner.Sound ⟨text, none, 0, 0, 0, 1, 0, 0, Position.none, none⟩ := by
    unfold Scanner.start at sound
    dsimp only at sound
    split at sound
    · exact sound.of_read.of_read
    · exact sound.of_read
  exact chars_of_sound first.rest

/-- Whether a token touches the one before it is told from their offsets. -/
theorem touches_eq {back : List Token} {last t u : Token} {n : Nat} (ht : back[n]? = some t)
    (hu : back[n + 1]? = some u) :
    Parse.touches (n + 1) ⟨back, last⟩ = .ok (decide (u.offset = t.stop), ⟨back, last⟩) := by
  have here : back.getD n last = t := by rw [List.getD_eq_getElem?_getD, ht, Option.getD_some]
  have next : back.getD (n + 1) last = u := by rw [List.getD_eq_getElem?_getD, hu, Option.getD_some]
  subst here next
  rfl

/-- Two tokens in a row touch where there is no byte between them. -/
theorem Covers.touches_iff {source : List UInt8} {front back : List Token} {t u : Token} {n : Nat}
    (h : Covers source (front ++ back)) (ht : back[n]? = some t) (hu : back[n + 1]? = some u) :
    u.offset = t.stop ↔ source.extract t.stop u.offset = [] := by
  have le : t.stop ≤ u.offset := by
    obtain ⟨here, rfl⟩ := List.getElem?_eq_some_iff.mp ht
    obtain ⟨next, rfl⟩ := List.getElem?_eq_some_iff.mp hu
    exact List.pairwise_iff_getElem.mp (List.pairwise_append.mp h.apart).2.1 _ _ here next
      (Nat.lt_succ_self n)
  obtain ⟨less, inside⟩ := h.range u (List.mem_append_right _ (List.mem_of_getElem? hu))
  rw [← List.length_eq_zero_iff, List.extract_eq_take_drop, List.length_take, List.length_drop]
  omega

/-- **Tokens are faithful to their file.** Where a file lexes, its tokens cover it, and two of them in
a row touch for the parser where no byte of the file stands between them. -/
theorem tokens_faithful {source : List UInt8} {ts : List Token}
    (read : tokens (Glyph.decode source) = .ok ts) : ∃ us last, ts = us ++ [last] ∧
      (∀ t ∈ us, t.isEnd = false) ∧ last.isEnd = true ∧ Covers source us ∧
      ∀ front back n t u, us = front ++ back → back[n]? = some t → back[n + 1]? = some u →
        Parse.touches (n + 1) ⟨back, last⟩ =
          .ok (decide (source.extract t.stop u.offset = []), ⟨back, last⟩) := by
  obtain ⟨cs, decoded, clean⟩ := chars_of_tokens read
  obtain rfl := encoded_of_decode decoded
  rw [decoded] at read
  obtain ⟨extra, ds, rfl, marked, ahead, here⟩ := ahead_behindMark clean
  obtain ⟨us, last, rfl, inner, isEnd, laid⟩ := laid_of_all (k := 0) ahead length_start read marked
    (here.trans (Nat.zero_add _).symm)
  have covers : Covers _ us := covers_of_laid laid
  refine ⟨us, last, rfl, inner, isEnd, covers, ?_⟩
  rintro front back n t u rfl ht hu
  rw [touches_eq ht hu, decide_eq_decide.mpr (covers.touches_iff ht hu)]

/-- A byte order mark, a comment with a character of two bytes in it, and a long literal: the second and
the third `>` touch, the first and the second one do not. -/
theorem tokens_faithful_shift :
    let source : List UInt8 := [0xEF, 0xBB, 0xBF, 0x61, 0x3E, 0x2F, 0x2A, 0xC3, 0xA9, 0x2A, 0x2F, 0x3E,
      0x3E, 0x31, 0x4C, 0x3B]
    ∃ us last, tokens (Glyph.decode source) = .ok (us ++ [last]) ∧
      us.map (fun t => (t.text, t.offset)) =
        [("a", 3), (">", 4), (">", 11), (">", 12), ("1", 13), (";", 15)] ∧
      Covers source us ∧ Parse.touches 2 ⟨us, last⟩ = .ok (false, ⟨us, last⟩) ∧
      Parse.touches 3 ⟨us, last⟩ = .ok (true, ⟨us, last⟩) := by
  intro source
  have read : tokens (Glyph.decode source) = .ok
      ([⟨.identifier, "a", ⟨1, 2⟩, 3⟩, ⟨.operator, ">", ⟨1, 3⟩, 4⟩, ⟨.operator, ">", ⟨1, 9⟩, 11⟩,
        ⟨.operator, ">", ⟨1, 10⟩, 12⟩, ⟨.literal (.long 1), "1", ⟨1, 11⟩, 13⟩,
        ⟨.operator, ";", ⟨1, 13⟩, 15⟩] ++ [⟨.endOfFile, "", ⟨1, 14⟩, 16⟩]) := by decide +kernel
  obtain ⟨us, last, same, -, -, covers, touches⟩ := tokens_faithful read
  obtain ⟨rfl, ends⟩ := List.append_inj' same rfl
  obtain rfl := List.singleton_inj.mp ends
  refine ⟨_, _, read, rfl, covers, ?_, ?_⟩
  · exact touches [] _ 1 _ _ rfl rfl rfl
  · exact touches [] _ 2 _ _ rfl rfl rfl

end Weaver.Source
