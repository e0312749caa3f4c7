import Weaver.Proofs.Source.Lexemes
import Weaver.Syntax.Print
/-!
Expressions built from names and operators.

Handlers put such expressions together without parentheses and leave it to the printer to write
the ones that are needed. `Laid` says how an expression may be written: where an operand binds less
strongly than its place asks, it stands in parentheses. The printer writes every formula like this,
and the lexemes that it writes are read back: no two of them run into each other.
-/
set_option autoImplicit false

namespace Weaver.Syntax

open Weaver.Source

/-- A name: a word that is not reserved. -/
def isNameText (w : String) : Bool :=
  isWordText w && !isKeyword w

namespace BinaryOp

/-- The operators that assigning operators apply. -/
def isAssigning (op : BinaryOp) : Bool :=
  [plus, minus, times, divide, modulo, bitAnd, bitOr, bitXor, shiftLeft, shiftRight,
    shiftRightZero].contains op

/-- The lexemes of the operator: every `>` is one of its own. -/
def signs : BinaryOp → List String
  | gt => [">"]
  | ge => [">", "="]
  | shiftRight => [">", ">"]
  | shiftRightZero => [">", ">", ">"]
  | op => [op.symbol]

/-- The lexemes of the assigning operator. -/
def assigningSigns : BinaryOp → List String
  | shiftRight => [">", ">", "="]
  | shiftRightZero => [">", ">", ">", "="]
  | op => [op.symbol ++ "="]

end BinaryOp

namespace Tree

/-- An operator with an assignment. -/
def isAssignOp : Tree → Bool
  | assignOp .. => true
  | _ => false

/-- An expression of names, selections, indices, calls, prefix, binary and assigning operators and
conditions, without parentheses. What is assigned to is not an operator with an assignment: the
printer writes that without the parentheses that it would need. -/
inductive Formula : Tree → Prop where
  | ident {m : Mark} {n : String} (hn : isNameText n = true) : Formula (ident m n)
  | select {m : Mark} {q : Tree} {n : String} (hq : Formula q) (hn : isNameText n = true) :
      Formula (select m q n)
  | indexed {m : Mark} {a i : Tree} (ha : Formula a) (hi : Formula i) : Formula (indexed m a i)
  | call {m : Mark} {c : Tree} {args : List Tree} (hc : Formula c)
      (ha : ∀ a ∈ args, Formula a) : Formula (call m [] c args)
  | unary {m : Mark} {op : UnaryOp} {a : Tree} (ho : op = .not ∨ op = .complement)
      (ha : Formula a) : Formula (unary m op a)
  | binary {m : Mark} {op : BinaryOp} {l r : Tree} (hl : Formula l) (hr : Formula r) :
      Formula (binary m op l r)
  | conditional {m : Mark} {c y n : Tree} (hc : Formula c) (hy : Formula y) (hn : Formula n) :
      Formula (conditional m c y n)
  | assign {m : Mark} {l r : Tree} (ho : l.isAssignOp = false) (hl : Formula l) (hr : Formula r) :
      Formula (assign m l r)
  | assignOp {m : Mark} {op : BinaryOp} {l r : Tree} (ho : op.isAssigning = true)
      (hl : Formula l) (hr : Formula r) : Formula (assignOp m op l r)

/-! ## Ways to write a formula -/

/-- A word. -/
abbrev word (w : String) : Piece := .lexeme .identifier w

/-- An operator. -/
abbrev sign (x : String) : Piece := .lexeme .operator x

/-- A space. -/
abbrev space : Piece := .gap [' ']

/-- Operators between spaces. -/
def spaced (xs : List String) : List Piece :=
  space :: (xs.map sign ++ [space])

/-- Items with commas between them. -/
def listed : List (List Piece) → List Piece
  | [] => []
  | [ps] => ps
  | ps :: pss => ps ++ sign "," :: space :: listed pss

/-- An argument of a call as it is written. -/
structure Item where
  own : Nat
  ps : List Piece
  tree : Tree

/-- The pieces write the expression, and bind as strongly as the number says. -/
inductive Laid : Nat → List Piece → Tree → Prop where
  | ident {m : Mark} {n : String} (hn : isNameText n = true) :
      Laid Precedence.primary [word n] (ident m n)
  | enclosed {o : Nat} {ps : List Piece} {e : Tree} (h : Laid o ps e)
      (ho : o < Precedence.primary) :
      Laid Precedence.primary (sign "(" :: (ps ++ [sign ")"])) e
  | select {o : Nat} {ps : List Piece} {m : Mark} {q : Tree} {n : String} (hq : Laid o ps q)
      (ho : Precedence.after ≤ o) (hn : isNameText n = true) :
      Laid Precedence.primary (ps ++ [sign ".", word n]) (select m q n)
  | indexed {o o' : Nat} {ps qs : List Piece} {m : Mark} {a i : Tree} (ha : Laid o ps a)
      (ho : Precedence.after ≤ o) (hi : Laid o' qs i) :
      Laid Precedence.primary (ps ++ sign "[" :: (qs ++ [sign "]"])) (indexed m a i)
  | call {o : Nat} {ps : List Piece} {m : Mark} {c : Tree} {items : List Item} (hc : Laid o ps c)
      (ho : Precedence.after ≤ o) (ha : ∀ a ∈ items, Laid a.own a.ps a.tree) :
      Laid Precedence.primary (ps ++ sign "(" :: (listed (items.map Item.ps) ++ [sign ")"]))
        (call m [] c (items.map Item.tree))
  | unary {o : Nat} {ps : List Piece} {m : Mark} {op : UnaryOp} {a : Tree}
      (hp : op = .not ∨ op = .complement) (ha : Laid o ps a) (ho : Precedence.before ≤ o) :
      Laid Precedence.before (sign op.symbol :: ps) (unary m op a)
  | binary {o o' : Nat} {ps qs : List Piece} {m : Mark} {op : BinaryOp} {l r : Tree}
      (hl : Laid o ps l) (ho : op.precedence ≤ o) (hr : Laid o' qs r)
      (ho' : op.precedence + 1 ≤ o') :
      Laid op.precedence (ps ++ (spaced op.signs ++ qs)) (binary m op l r)
  | conditional {o o' o'' : Nat} {ps qs rs : List Piece} {m : Mark} {c y n : Tree}
      (hc : Laid o ps c) (ho : Precedence.conditional + 1 ≤ o) (hy : Laid o' qs y)
      (hn : Laid o'' rs n) (ho'' : Precedence.conditional ≤ o'') :
      Laid Precedence.conditional (ps ++ (spaced ["?"] ++ (qs ++ (spaced [":"] ++ rs))))
        (conditional m c y n)
  | assign {o o' : Nat} {ps qs : List Piece} {m : Mark} {l r : Tree} (hl : Laid o ps l)
      (ho : Precedence.assignOp + 1 ≤ o) (hr : Laid o' qs r) (ho' : Precedence.assign ≤ o') :
      Laid Precedence.assign (ps ++ (spaced ["="] ++ qs)) (assign m l r)
  | assignOp {o o' : Nat} {ps qs : List Piece} {m : Mark} {op : BinaryOp} {l r : Tree}
      (hp : op.isAssigning = true) (hl : Laid o ps l) (ho : Precedence.assignOp + 1 ≤ o)
      (hr : Laid o' qs r) (ho' : Precedence.assignOp ≤ o') :
      Laid Precedence.assignOp (ps ++ (spaced op.assigningSigns ++ qs)) (assignOp m op l r)

/-- What binds as strongly as an operator with an assignment is one. -/
theorem Laid.isAssignOp {o : Nat} {ps : List Piece} {e : Tree} (h : Laid o ps e)
    (ho : o = Precedence.assignOp) : e.isAssignOp = true := by
  cases h with
  | assignOp => rfl
  | @binary _ _ _ _ _ op => cases op <;> exact absurd ho (by decide)
  | _ => exact absurd ho (by decide)

/-! ## The printer writes every formula -/

/-- Roles that ask for nothing but a binding strength. -/
def plainly : Role → Bool
  | .plain | .operand _ | .callee [] => true
  | _ => false

/-- A formula in a role: the printer writes it, and it binds as strongly as the role asks. -/
def Writes (l : Layout) (r : Role) (e : Tree) : Prop :=
  ∃ o ps, r.prec ≤ o ∧ Laid o ps e ∧ (render r l e).toList = spell ps

theorem writes_guarded {own : Nat} {r : Role} {l : Layout} {e : Tree} {ps : List Piece}
    (text : String) (h : Laid own ps e) (ho : own < Precedence.primary)
    (hr : r.prec ≤ Precedence.primary) (printed : render r l e = guarded own r text)
    (same : text.toList = spell ps) : Writes l r e := by
  rw [Writes, printed, guarded]
  by_cases weak : own < r.prec
  · rw [if_pos weak]
    refine ⟨_, _, hr, .enclosed h ho, ?_⟩
    rw [String.toList_append, String.toList_append, same]
    simp only [spell_cons, spell_append, spell_nil, List.append_nil, Piece.chars, List.append_assoc]
  · rw [if_neg weak]
    exact ⟨own, ps, by omega, h, same⟩

/-- Arguments of a call. -/
theorem writes_listed {l : Layout} {as : List Tree} (h : ∀ a ∈ as, Writes l .plain a) :
    ∃ items : List Item, as = items.map Item.tree ∧ (∀ a ∈ items, Laid a.own a.ps a.tree) ∧
      (commas (renderAll .plain l as)).toList = spell (listed (items.map Item.ps)) := by
  induction as with
  | nil => exact ⟨[], rfl, nofun, rfl⟩
  | cons a as ih =>
    obtain ⟨o, ps, -, laid, printed⟩ := h a List.mem_cons_self
    obtain ⟨items, rfl, all, rest⟩ := ih fun b hb => h b (List.mem_cons_of_mem a hb)
    refine ⟨⟨o, ps, a⟩ :: items, rfl, List.forall_mem_cons.mpr ⟨laid, all⟩, ?_⟩
    change (commas (render .plain l a :: renderAll .plain l (items.map Item.tree))).toList = _
    cases items with
    | nil =>
      rw [commas, List.map_nil, renderAll, String.intercalate_singleton]
      exact printed
    | cons b bs =>
      change (", ".intercalate (_ :: render .plain l b.tree :: _)).toList =
        spell (ps ++ sign "," :: space :: listed ((b :: bs).map Item.ps))
      rw [String.intercalate_cons_cons, String.toList_append, String.toList_append, printed]
      rw [spell_append, spell_cons, spell_cons, ← rest, List.append_assoc]
      rfl

theorem toList_render_select {r : Role} (hr : plainly r = true) (l : Layout) (m : Mark) (q : Tree)
    (n : String) : (render r l (select m q n)).toList =
      (render (.operand Precedence.after) l q).toList ++ '.' :: n.toList := by
  have printed : render r l (select m q n) =
      render (.operand Precedence.after) l q ++ "." ++ "" ++ n := by
    rcases r with _ | _ | (_ | _) | _
    all_goals first | rfl | exact nomatch hr
  rw [printed]
  simp only [String.toList_append]
  simp

theorem spell_signs (op : BinaryOp) : spell (op.signs.map sign) = op.symbol.toList := by
  cases op <;> rfl

theorem spell_assigningSigns (op : BinaryOp) :
    spell (op.assigningSigns.map sign) = (op.symbol ++ "=").toList := by
  cases op <;> rfl

theorem spell_spaced (xs : List String) :
    spell (spaced xs) = ' ' :: (spell (xs.map sign) ++ [' ']) := by
  rw [spaced, spell_cons, spell_append]
  rfl

/-- **The printer writes every formula** with the parentheses that its place asks for. -/
theorem Formula.writes {e : Tree} (h : Formula e) (l : Layout) {r : Role}
    (hr : plainly r = true) (hp : r.prec ≤ Precedence.primary) : Writes l r e := by
  induction h generalizing r with
  | ident hn =>
    refine ⟨_, _, hp, .ident hn, ?_⟩
    rw [spell_cons, spell_nil, List.append_nil]
    rfl
  | select hq hn ih =>
    obtain ⟨o, ps, ho, laid, inner⟩ := ih (r := .operand Precedence.after) rfl (by decide)
    refine ⟨_, _, hp, .select laid ho hn, ?_⟩
    rw [toList_render_select hr, inner, spell_append]
    simp [Piece.chars]
  | @indexed m a i ha hi iha ihi =>
    obtain ⟨o, ps, ho, laid, array⟩ := iha (r := .operand Precedence.after) rfl (by decide)
    obtain ⟨o', qs, -, laid', index⟩ := ihi (r := .plain) rfl (by decide)
    refine ⟨_, _, hp, .indexed laid ho laid', ?_⟩
    change (render (.operand Precedence.after) l a ++ "[" ++ render .plain l i ++ "]").toList = _
    simp only [String.toList_append, array, index, spell_append, spell_cons, spell_nil, Piece.chars,
      List.append_assoc, List.append_nil]
  | @call m c as hc ha ihc iha =>
    obtain ⟨o, ps, ho, laid, callee⟩ := ihc (r := .callee []) rfl (by decide)
    obtain ⟨items, rfl, all, args⟩ := writes_listed fun a member =>
      iha a member (r := .plain) rfl (by decide)
    refine ⟨_, _, hp, .call laid ho all, ?_⟩
    change (render (.callee []) l c ++ "(" ++ commas (renderAll .plain l _) ++ ")").toList = _
    simp only [String.toList_append, callee, args, spell_append, spell_cons, spell_nil, Piece.chars,
      List.append_assoc, List.append_nil]
  | @unary m op a ho ha ih =>
    obtain ⟨o, ps, ho', laid, arg⟩ := ih (r := .operand Precedence.before) rfl (by decide)
    have own : op.precedence = Precedence.before ∧ op.isPost = false := by
      rcases ho with rfl | rfl <;> exact ⟨rfl, rfl⟩
    refine writes_guarded (op.symbol ++ render (.operand Precedence.before) l a)
      (.unary ho laid ho') (by decide) hp ?_ ?_
    · change guarded op.precedence r (if op.isPost then _ else _) = _
      rw [own.1, own.2]
      rfl
    · rw [String.toList_append, arg, spell_cons]
      rfl
  | @binary m op a b ha hb iha ihb =>
    have bound : op.precedence + 1 < Precedence.primary := by cases op <;> decide
    obtain ⟨o, ps, ho, laid, left⟩ := iha (r := .operand op.precedence) rfl (by
      change op.precedence ≤ _
      omega)
    obtain ⟨o', qs, ho', laid', right⟩ := ihb (r := .operand (op.precedence + 1)) rfl (by
      change op.precedence + 1 ≤ _
      omega)
    refine writes_guarded _ (.binary laid ho laid' ho') (by omega) hp rfl ?_
    simp only [String.toList_append, left, right, spell_append, spell_spaced, spell_signs]
    simp
  | @conditional m c y n hc hy hn ihc ihy ihn =>
    obtain ⟨o, ps, ho, laid, cond⟩ :=
      ihc (r := .operand (Precedence.conditional + 1)) rfl (by decide)
    obtain ⟨o', qs, -, laid', yes⟩ :=
      ihy (r := .operand (Precedence.conditional + 1)) rfl (by decide)
    obtain ⟨o'', rs, ho'', laid'', no⟩ := ihn (r := .operand Precedence.conditional) rfl (by decide)
    refine writes_guarded _ (.conditional laid ho laid' laid'' ho'') (by decide) hp rfl ?_
    simp only [String.toList_append, cond, yes, no, spell_append, spell_spaced]
    simp [Piece.chars]
  | @assign m a b hn ha hb iha ihb =>
    obtain ⟨o, ps, ho, laid, left⟩ := iha (r := .operand (Precedence.assign + 1)) rfl (by decide)
    obtain ⟨o', qs, ho', laid', right⟩ := ihb (r := .operand Precedence.assign) rfl (by decide)
    have strong : Precedence.assignOp + 1 ≤ o := by
      rcases Nat.eq_or_lt_of_le ho with same | more
      · rw [laid.isAssignOp same.symm] at hn
        exact Bool.noConfusion hn
      · exact more
    refine writes_guarded (render (.operand (Precedence.assign + 1)) l a ++ " = " ++
      render (.operand Precedence.assign) l b) (.assign laid strong laid' ho') (by decide) hp ?_ ?_
    · rcases r with _ | _ | (_ | _) | _
      all_goals first | rfl | cases hr
    · simp only [String.toList_append, left, right, spell_append, spell_spaced]
      simp [Piece.chars]
  | @assignOp m op a b ho ha hb iha ihb =>
    obtain ⟨o, ps, hp', laid, left⟩ :=
      iha (r := .operand (Precedence.assignOp + 1)) rfl (by decide)
    obtain ⟨o', qs, hp'', laid', right⟩ := ihb (r := .operand Precedence.assignOp) rfl (by decide)
    refine writes_guarded _ (.assignOp ho laid hp' laid' hp'') (by decide) hp rfl ?_
    simp only [String.toList_append, left, right, spell_append, spell_spaced, spell_assigningSigns]
    simp

end Tree

end Weaver.Syntax
