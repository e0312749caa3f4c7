import Weaver.Proofs.Source.Onward
/-!
The loops of the reader are not cut short.

A loop of the reader is given a list of glyphs, and does as many rounds as the list is long and one
more. The text behind the head is always long enough: more would change nothing, and so the loops
satisfy the equations of loops without a bound.
-/
set_option autoImplicit false

namespace Weaver.Source

open Weaver.Text (Glyph)

variable {s : Scanner} {fuel fuel' : List Glyph}

namespace Scanner

/-- With no text behind the head, moving it leaves nothing under it. -/
theorem read_look_eq_none (h : s.rest = []) : s.read.look = none := by
  rw [read_look, h]
  rfl

theorem read_rest_le {g : Glyph} (h : s.rest.length ≤ (g :: fuel).length) :
    s.read.rest.length ≤ fuel.length := by
  rw [read_rest, List.length_tail]
  rw [List.length_cons] at h
  omega

theorem eq_nil_of_le_nil {gs : List Glyph} (h : gs.length ≤ ([] : List Glyph).length) : gs = [] :=
  List.eq_nil_of_length_eq_zero (Nat.le_zero.mp h)

theorem spanFrom_none (p : Char → Bool) (fuel : List Glyph) (h : s.look = none) :
    spanFrom p fuel s = ([], s) := by
  unfold spanFrom
  rw [h]

/-- Any list as long as the text behind the head is long enough. -/
theorem spanFrom_eq_span (p : Char → Bool) (h : s.rest.length ≤ fuel.length) :
    spanFrom p fuel s = s.span p := by
  induction fuel generalizing s with
  | nil => rw [span, eq_nil_of_le_nil h]
  | cons g fuel ih =>
    have behind : spanFrom p fuel s.read = s.read.span p := ih (read_rest_le h)
    cases rest : s.rest with
    | nil =>
      have done := read_look_eq_none rest
      rw [span, rest]
      unfold spanFrom
      simp only [spanFrom_none p fuel done]
    | cons g' more =>
      have next : s.read.rest = more := by rw [read_rest, rest, List.tail_cons]
      rw [span, next] at behind
      rw [span, rest]
      unfold spanFrom
      simp only [behind]

/-- A run goes on as long as the condition holds. -/
theorem span_eq (p : Char → Bool) : s.span p =
    match s.look with
    | none => ([], s)
    | some c => if p c then (c :: (s.read.span p).1, (s.read.span p).2) else ([], s) := by
  have more : s.rest.length ≤ (default :: s.rest).length := Nat.le_succ _
  rw [← spanFrom_eq_span p more, spanFrom]
  simp only [spanFrom_eq_span p (read_rest_le more)] <;> rfl

end Scanner

namespace Lexer

open Scanner (Onward)

/-- As the head moves on, the text behind it gets shorter. -/
theorem rest_le_of_onward {t : Scanner} (h : Onward s t) : t.rest.length ≤ s.rest.length := by
  have le := h.length_le
  rw [Scanner.length_ahead, Scanner.length_ahead] at le
  have one : s.look.toList.length ≤ 1 := by cases s.look <;> simp
  cases look : t.look with
  | none =>
    rw [h.whole look]
    exact Nat.zero_le _
  | some c =>
    rw [look, Option.toList_some, List.length_singleton] at le
    omega

/-! ## Comments -/

theorem blockComment_none (fuel : List Glyph) (h : s.look = none) :
    blockComment fuel s = s.fail .commentNotTerminated := by
  unfold blockComment
  rw [h]

theorem blockComment_eq_rest (h : s.rest.length ≤ fuel.length) :
    blockComment fuel s = blockComment s.rest s := by
  induction fuel generalizing s with
  | nil => rw [Scanner.eq_nil_of_le_nil h]
  | cons g fuel ih =>
    have behind := ih (Scanner.read_rest_le h)
    cases rest : s.rest with
    | nil =>
      have done := Scanner.read_look_eq_none rest
      unfold blockComment
      simp only [blockComment_none fuel done]
    | cons g' more =>
      have next : s.read.rest = more := by rw [Scanner.read_rest, rest, List.tail_cons]
      rw [next] at behind
      unfold blockComment
      simp only [behind]

/-- A comment goes on until a star and a slash close it, or the text ends. -/
theorem blockComment_eq : blockComment s.rest s =
    match s.look with
    | none => s.fail .commentNotTerminated
    | some c =>
      if c == '*' && s.read.look == some '/' then s.read.read
      else blockComment s.read.rest s.read := by
  have more : s.rest.length ≤ (default :: s.rest).length := Nat.le_succ _
  rw [← blockComment_eq_rest more, blockComment]
  simp only [blockComment_eq_rest (Scanner.read_rest_le more)] <;> rfl

/-- Without text behind the head no comment opens. -/
theorem toToken_nil (whole : s.Whole) (h : s.rest = []) :
    toToken fuel s = (s.span isSpace).2.begin := by
  have here : Onward s (s.span isSpace).2.begin := ((Onward.refl whole).span _).begin
  have rest := rest_le_of_onward here
  rw [h] at rest
  have none := Scanner.read_look_eq_none (Scanner.eq_nil_of_le_nil rest)
  unfold toToken
  simp [none]

theorem toToken_congr (whole : s.Whole) (h : s.rest.length ≤ fuel.length)
    (h' : s.rest.length ≤ fuel'.length) : toToken fuel s = toToken fuel' s := by
  induction fuel generalizing s fuel' with
  | nil =>
    have rest := Scanner.eq_nil_of_le_nil h
    rw [toToken_nil whole rest, toToken_nil whole rest]
  | cons g fuel ih =>
    cases fuel' with
    | nil =>
      have rest := Scanner.eq_nil_of_le_nil h'
      rw [toToken_nil whole rest, toToken_nil whole rest]
    | cons g' fuel' =>
      have here : Onward s (s.span isSpace).2.begin := ((Onward.refl whole).span _).begin
      have rest := rest_le_of_onward here
      have next := onward_comment (.refl (s := (s.span isSpace).2.begin.read) Scanner.whole_read)
      have le := rest_le_of_onward next
      have behind : toToken fuel _ = toToken fuel' _ := ih next.whole
        (Nat.le_trans le (Scanner.read_rest_le (Nat.le_trans rest h)))
        (Nat.le_trans le (Scanner.read_rest_le (Nat.le_trans rest h')))
      unfold toToken
      simp only [behind]

/-- White space and comments are passed over as long as there are any. -/
theorem toToken_eq (whole : s.Whole) : toToken s.rest s =
    let s := (s.span isSpace).2.begin
    if s.look = some '/' ∧ (s.read.look = some '/' ∨ s.read.look = some '*') then
      toToken (comment s.read).rest (comment s.read)
    else s := by
  have here : Onward s (s.span isSpace).2.begin := ((Onward.refl whole).span _).begin
  have next := onward_comment (.refl (s := (s.span isSpace).2.begin.read) Scanner.whole_read)
  have more : s.rest.length ≤ (default :: s.rest).length := Nat.le_succ _
  have le := Nat.le_trans (rest_le_of_onward next)
    (Scanner.read_rest_le (Nat.le_trans (rest_le_of_onward here) more))
  rw [toToken_congr whole (Nat.le_refl _) more, toToken]
  simp only [toToken_congr next.whole le (Nat.le_refl _), beq_iff_eq, Bool.or_eq_true_iff]
  by_cases slash : (s.span isSpace).2.begin.look = some '/'
  · simp only [slash, true_and, if_true]
  · simp only [slash, false_and, if_false]

/-! ## Literals -/

theorem literalBody_none (quote : Char) (n : Nat) (h : s.look = none) :
    literalBody quote fuel s n = (n, s.fail .literalNotTerminated) := by
  unfold literalBody
  rw [h]

/-- What is behind an escape or another character of a literal. -/
theorem onward_literalStep (quote c : Char) :
    Onward s.read (if c == '\\' then escapeIn quote s.read else s.read) :=
  .ite (fun _ => onward_escapeIn quote (.refl Scanner.whole_read)) fun _ => .refl Scanner.whole_read

theorem literalStep_look (quote c : Char) (h : s.rest = []) :
    (if c == '\\' then escapeIn quote s.read else s.read).look = none := by
  have done := Scanner.read_look_eq_none h
  split
  · unfold escapeIn
    rw [done]
    exact done
  · exact done

theorem literalBody_congr (quote : Char) (n : Nat) (h : s.rest.length ≤ fuel.length)
    (h' : s.rest.length ≤ fuel'.length) : literalBody quote fuel s n = literalBody quote fuel' s n := by
  induction fuel generalizing s fuel' n with
  | nil =>
    cases fuel' with
    | nil => rfl
    | cons g fuel' =>
      unfold literalBody
      simp only [literalBody_none quote (n + 1) (literalStep_look quote _ (Scanner.eq_nil_of_le_nil h))]
  | cons g fuel ih =>
    cases fuel' with
    | nil =>
      unfold literalBody
      simp only [literalBody_none quote (n + 1) (literalStep_look quote _ (Scanner.eq_nil_of_le_nil h'))]
    | cons g' fuel' =>
      have behind (c : Char) : literalBody quote fuel _ (n + 1) = literalBody quote fuel' _ (n + 1) := ih _
        (Nat.le_trans (rest_le_of_onward (onward_literalStep quote c)) (Scanner.read_rest_le h))
        (Nat.le_trans (rest_le_of_onward (onward_literalStep quote c)) (Scanner.read_rest_le h'))
      unfold literalBody
      simp only [behind]

/-- A literal goes on to its closing quote, or to the end of its line or of the text. -/
theorem literalBody_eq (quote : Char) (n : Nat) : literalBody quote s.rest s n =
    match s.look with
    | none => (n, s.fail .literalNotTerminated)
    | some c =>
      if c == quote then (n, s)
      else if c == '\n' then (n, s.fail .literalNotTerminated)
      else
        let next := if c == '\\' then escapeIn quote s.read else s.read
        literalBody quote next.rest next (n + 1) := by
  have more : s.rest.length ≤ (default :: s.rest).length := Nat.le_succ _
  have behind (c : Char) := literalBody_congr quote (n + 1)
    (Nat.le_trans (rest_le_of_onward (onward_literalStep quote c)) (Scanner.read_rest_le more))
    (Nat.le_refl _)
  rw [literalBody_congr quote n (Nat.le_refl _) more, literalBody]
  simp only [behind] <;> rfl

end Lexer

/-! ## Escapes -/

namespace Escape

variable {cs more : List Char} {d : Char} {n m : Nat}

theorem octal_length (max n : Nat) (cs : List Char) : (octal max n cs).2.length ≤ cs.length := by
  fun_induction octal max n cs with
  | case1 => exact Nat.le_refl _
  | case2 => exact Nat.le_refl _
  | case3 max n c cs digit ih => exact Nat.le_succ_of_le ih
  | case4 => exact Nat.le_refl _

theorem fourHex?_length (h : fourHex? cs = some (n, more)) : more.length ≤ cs.length := by
  unfold fourHex? at h
  split at h
  · dsimp only at h
    split at h
    · cases h
      simp only [List.length_cons]
      omega
    · cases h
  · cases h

/-- What is left behind an escape is shorter than the text that it was read from. -/
def Shortens (cs : List Char) (r : Except EscapeFault (Char × List Char)) : Prop :=
  ∀ d more, r = .ok (d, more) → more.length < cs.length

theorem Shortens.error (f : EscapeFault) : Shortens cs (.error f) := by
  intro d more failed
  cases failed

theorem Shortens.of_le {e : Char} {rest : List Char} (left : more.length ≤ rest.length) (d : Char) :
    Shortens (e :: rest) (.ok (d, more)) := by
  rintro _ _ ⟨⟩
  exact Nat.lt_succ_of_le left

theorem shortens_step (cs : List Char) : Shortens cs (step cs) := by
  cases cs with
  | nil => exact .error _
  | cons e rest =>
    unfold step
    -- six characters stand for one each
    iterate 6
      refine iteInduction (motive := Shortens (e :: rest))
        (fun _ => .of_le (Nat.le_refl _) _) fun _ => ?_
    refine iteInduction (motive := Shortens (e :: rest)) (fun _ => ?_) fun _ =>
      iteInduction (motive := Shortens (e :: rest)) (fun digit => ?_) fun _ => .error _
    · dsimp only
      split
      · next code =>
        have taken := fourHex?_length code
        have passed := (List.dropWhile_suffix (l := rest) (· == 'u')).length_le
        exact .of_le (Nat.le_trans taken passed) _
      · exact .error _
    · refine .of_le ?_ _
      split
      · rw [octal, if_pos digit]
        exact octal_length _ _ _
      · rw [octal, if_pos digit]
        exact octal_length _ _ _

/-- An escape takes at least the character behind the backslash. -/
theorem step_length (h : step cs = .ok (d, more)) : more.length < cs.length :=
  shortens_step cs d more h

/-- As many steps as there are characters are enough. -/
theorem resolve_congr (h : cs.length ≤ n) (h' : cs.length ≤ m) : resolve n cs = resolve m cs := by
  induction n generalizing cs m with
  | zero =>
    obtain rfl := List.eq_nil_of_length_eq_zero (Nat.le_zero.mp h)
    cases m <;> rfl
  | succ n ih =>
    cases cs with
    | nil => cases m <;> rfl
    | cons c rest =>
      cases m with
      | zero => exact absurd h' (Nat.not_succ_le_zero _)
      | succ m =>
        have fits : rest.length ≤ n := Nat.le_of_succ_le_succ h
        have fits' : rest.length ≤ m := Nat.le_of_succ_le_succ h'
        unfold resolve
        cases first : step rest with
        | error e => simp only [ih fits fits']
        | ok x =>
          have less := Nat.le_of_lt (step_length first)
          simp only [ih fits fits', ih (Nat.le_trans less fits) (Nat.le_trans less fits')]

end Escape

/-- A literal is resolved from the left to its end. -/
theorem unescape_cons (c : Char) (rest : List Char) : unescape (c :: rest) =
    if c == '\\' then
      match Escape.step rest with
      | .error e => .error e
      | .ok (d, more) => (unescape more).map (d :: ·)
    else (unescape rest).map (c :: ·) := by
  unfold unescape
  rw [List.length_cons, Escape.resolve]
  cases first : Escape.step rest with
  | error e => rfl
  | ok x =>
    have less := Nat.le_of_lt (Escape.step_length first)
    simp only [Escape.resolve_congr less (Nat.le_refl _)]

end Weaver.Source
