import Weaver.Proofs.Parse.Steps
import Weaver.Proofs.Parse.TypeText
/-!
Types that are printed and read again.

A tree of a type is nested to the left: what is read first is deepest inside. The parser goes on
from there, segment by segment and bracket by bracket. So what tokens write is said twice over: by
the pieces of a type as it is nested (`TypeLaid`), and here as the parser meets it, with what is read
so far handed on. A type that was printed is written in the second way as well, and what is written
so is read up to its end, whatever number of closing angle brackets stand there.
-/
set_option autoImplicit false

namespace Weaver.Parse

open Weaver.Source (Token Piece Placed)
open Weaver.Syntax
open Weaver.Syntax.Tree (TypeLaid TypeRank listed sign word space)
open Weaver.Text (Glyph)

/-! ## Signs and names -/

/-- The operators and words that have a part in types. -/
def typeSigns : List String := [".", "<", ">", ",", "?", "extends", "super", "[", "]"]

/-- The token is one of these. -/
def isTypeSign (t : Token) : Bool := typeSigns.any t.isText

theorem isText_unique {t : Token} {x y : String} (hx : t.isText x = true) (hy : t.isText y = true) :
    x = y := by
  rw [Token.isText, Bool.and_eq_true, beq_iff_eq] at hx hy
  exact hx.2.symm.trans hy.2

theorem isText_ne {t : Token} {x y : String} (hx : t.isText x = true) (h : x ≠ y) :
    t.isText y = false := by
  cases hy : t.isText y with
  | false => rfl
  | true => exact absurd (isText_unique hx hy) h

/-- The token is this operator. -/
structure IsSign (t : Token) (x : String) : Prop where
  kind : t.kind = .operator
  text : t.text = x

theorem IsSign.isText {t : Token} {x : String} (h : IsSign t x) (y : String) :
    t.isText y = (x == y) := by
  rw [Token.isText, Token.isOperator, h.kind, h.text]
  rfl

/-- The token is a name, and is not spelled like a sign of a type. -/
structure IsNamed (t : Token) : Prop where
  name : t.isName = true
  unlike : isTypeSign t = false

theorem IsNamed.isText {t : Token} (h : IsNamed t) {x : String} (hx : x ∈ typeSigns) :
    t.isText x = false := by
  have unlike := h.unlike
  rw [isTypeSign, List.any_eq_false] at unlike
  exact Bool.not_eq_true _ ▸ unlike x hx

section Placed

variable {off : Nat} {ps : List Piece} {ts : List Token}

theorem Placed.sign_inv {x : String} (h : Placed off (sign x :: ps) ts) :
    ∃ t us off', ts = t :: us ∧ IsSign t x ∧ Placed off' ps us := by
  cases h with
  | lexeme kind text _ rest => exact ⟨_, _, _, rfl, ⟨kind, text⟩, rest⟩

theorem Placed.space_inv (h : Placed off (space :: ps) ts) : ∃ off', Placed off' ps ts := by
  cases h with
  | gap rest => exact ⟨_, rest⟩

theorem isNamed_of_isNameText {t : Token} {n : String} (hn : isNameText n = true)
    (kind : t.kind = .identifier) (text : t.text = n) : IsNamed t := by
  have word : t.isWord = true := by rw [Token.isWord, kind]; rfl
  have free : Source.isKeyword n = false := by
    rw [isNameText, Bool.and_eq_true, Bool.not_eq_true'] at hn
    exact hn.2
  refine ⟨by rw [Token.isName, word, text, free]; rfl, ?_⟩
  rw [isTypeSign, List.any_eq_false]
  intro x member
  rw [Token.isText, word, text, Bool.or_true, Bool.true_and, beq_iff_eq]
  rintro rfl
  have none : ∀ y ∈ typeSigns, isNameText y = false := by decide
  rw [none n member] at hn
  exact Bool.noConfusion hn

theorem Placed.word_inv {n : String} (hn : isNameText n = true) (h : Placed off (word n :: ps) ts) :
    ∃ t us off', ts = t :: us ∧ IsNamed t ∧ t.text = n ∧ Placed off' ps us := by
  cases h with
  | lexeme kind text _ rest => exact ⟨_, _, _, rfl, isNamed_of_isNameText hn kind text, text, rest⟩

end Placed

/-! ## Tokens of a type -/

/-- The tokens are pairs of brackets that make another type of a type. -/
inductive BracketsWritten : Tree → List Token → Tree → Prop where
  | done {e : Tree} : BracketsWritten e [] e
  | pair {m : Mark} {e t : Tree} {o c : Token} {ts : List Token} (ho : IsSign o "[")
      (hc : IsSign c "]") (h : BracketsWritten (.arrayType m e) ts t) :
      BracketsWritten e (o :: c :: ts) t

mutual

/-- The tokens write the type. -/
inductive TypeWritten : List Token → Tree → Prop where
  | primitive {m : Mark} {tag : TypeTag} {t : Token} {ts : List Token} {e : Tree}
      (ht : primitiveOf? t = some tag) (hb : BracketsWritten (.primitive m tag) ts e) :
      TypeWritten (t :: ts) e
  | class_ {ts us : List Token} {c e : Tree} (hc : ClassWritten ts c)
      (hb : BracketsWritten c us e) : TypeWritten (ts ++ us) e

/-- The tokens write the class with arguments on any of its segments. -/
inductive ClassWritten : List Token → Tree → Prop where
  | segments {m : Mark} {t : Token} {us vs : List Token} {c e : Tree} (ht : IsNamed t)
      (ha : AppliedWritten (.ident m t.text) us c) (hs : SegmentsWritten c vs e) :
      ClassWritten (t :: (us ++ vs)) e

/-- The tokens write the arguments of a class, if it has any. -/
inductive AppliedWritten : Tree → List Token → Tree → Prop where
  | plain {e : Tree} : AppliedWritten e [] e
  | diamond {m : Mark} {e : Tree} {o c : Token} (ho : IsSign o "<") (hc : IsSign c ">") :
      AppliedWritten e [o, c] (.typeApply m e [])
  | args {m : Mark} {e : Tree} {o c : Token} {us : List Token} {as : List Tree} (ho : IsSign o "<")
      (ha : ArgumentsWritten us as) (hc : IsSign c ">") :
      AppliedWritten e (o :: (us ++ [c])) (.typeApply m e as)

/-- The tokens write further segments of a class. -/
inductive SegmentsWritten : Tree → List Token → Tree → Prop where
  | done {e : Tree} : SegmentsWritten e [] e
  | segment {m : Mark} {q c e : Tree} {d t : Token} {us vs : List Token} (hd : IsSign d ".")
      (ht : IsNamed t) (ha : AppliedWritten (.select m q t.text) us c)
      (hs : SegmentsWritten c vs e) : SegmentsWritten q (d :: t :: (us ++ vs)) e

/-- The tokens write one or more arguments, with commas between them. -/
inductive ArgumentsWritten : List Token → List Tree → Prop where
  | one {ts : List Token} {a : Tree} (h : ArgumentWritten ts a) : ArgumentsWritten ts [a]
  | cons {ts us : List Token} {c : Token} {a : Tree} {as : List Tree} (h : ArgumentWritten ts a)
      (hc : IsSign c ",") (hs : ArgumentsWritten us as) :
      ArgumentsWritten (ts ++ c :: us) (a :: as)

/-- The tokens write an argument. -/
inductive ArgumentWritten : List Token → Tree → Prop where
  | type {ts : List Token} {t : Tree} (h : TypeWritten ts t) : ArgumentWritten ts t
  | unbounded {m : Mark} {q : Token} (hq : IsSign q "?") :
      ArgumentWritten [q] (.wildcard m .unbounded .missing)
  | bounded {m : Mark} {b : Bound} {q w : Token} {ts : List Token} {t : Tree}
      (hq : IsSign q "?") (hb : b ≠ .unbounded) (hw : w.isText b.keyword = true)
      (h : TypeWritten ts t) : ArgumentWritten (q :: w :: ts) (.wildcard m b t)

end

/-! ## What is laid out is written -/

theorem BracketsWritten.snoc {m : Mark} {e t : Tree} {o c : Token} {ts : List Token}
    (h : BracketsWritten e ts t) (ho : IsSign o "[") (hc : IsSign c "]") :
    BracketsWritten e (ts ++ [o, c]) (.arrayType m t) := by
  induction h with
  | done => exact .pair ho hc .done
  | pair ho' hc' _ ih => exact .pair ho' hc' ih

theorem TypeWritten.array {m : Mark} {e : Tree} {o c : Token} {ts : List Token}
    (h : TypeWritten ts e) (ho : IsSign o "[") (hc : IsSign c "]") :
    TypeWritten (ts ++ [o, c]) (.arrayType m e) := by
  cases h with
  | primitive ht hb => exact .primitive ht (hb.snoc ho hc)
  | class_ hclass hb =>
    rw [List.append_assoc]
    exact .class_ hclass (hb.snoc ho hc)

theorem SegmentsWritten.snoc {m : Mark} {d t : Token} {us : List Token} {c : Tree}
    (hd : IsSign d ".") (ht : IsNamed t) : ∀ {q e : Tree} {vs : List Token},
    SegmentsWritten q vs e → AppliedWritten (.select m e t.text) us c →
    SegmentsWritten q (vs ++ d :: t :: us) c
  | _, _, _, .done, ha => by
    have last := SegmentsWritten.segment hd ht ha .done
    rwa [List.append_nil] at last
  | _, _, _, .segment hd' ht' ha' hs, ha => by
    have others := hs.snoc hd ht ha
    have whole := SegmentsWritten.segment hd' ht' ha' others
    rwa [← List.append_assoc] at whole

/-- What the tokens write as a part of a type. A path is written if a class is, whatever arguments
are applied to it. -/
def WrittenAs : TypeRank → List Token → Tree → Prop
  | .path, ts, t => ∀ us c, AppliedWritten t us c → ClassWritten (ts ++ us) c
  | .reference, ts, t => ClassWritten ts t
  | .type, ts, t => TypeWritten ts t
  | .argument, ts, t => ArgumentWritten ts t

theorem argumentsWritten_of_placed {items : List (List Source.Piece × Tree)} (some_ : items ≠ [])
    (h : ∀ a ∈ items, ∀ off ts, Placed off a.1 ts → ArgumentWritten ts a.2) {off : Nat}
    {ts : List Token} (placed : Placed off (listed (items.map Prod.fst)) ts) :
    ArgumentsWritten ts (items.map Prod.snd) := by
  induction items generalizing off ts with
  | nil => exact absurd rfl some_
  | cons a as ih =>
    cases as with
    | nil => exact .one (h a List.mem_cons_self off ts placed)
    | cons b bs =>
      change Placed off (a.1 ++ sign "," :: space :: listed ((b :: bs).map Prod.fst)) ts at placed
      obtain ⟨us, vs, rfl, first, rest⟩ := placed.split
      obtain ⟨c, ws, off₁, rfl, comma, rest⟩ := Placed.sign_inv rest
      obtain ⟨off₂, rest⟩ := Placed.space_inv rest
      have others := ih (List.cons_ne_nil _ _) (fun x hx => h x (List.mem_cons_of_mem a hx)) rest
      exact .cons (h a List.mem_cons_self _ _ first) comma others

/-- A token with the name of a primitive type names it. -/
theorem primitiveOf?_of_name {t : Token} {tag : TypeTag} (kind : t.kind = .identifier)
    (text : t.text = tag.name) (known : TypeTag.ofKeyword? tag.name = some tag)
    (value : tag ≠ .void) : primitiveOf? t = some tag := by
  have word : t.isWord = true := by rw [Token.isWord, kind]; rfl
  rw [primitiveOf?, if_pos word, text, known]
  exact Option.filter_eq_some_iff.mpr ⟨rfl, by simpa using value⟩

/-- What was laid out as pieces is written by the tokens of the pieces. -/
theorem written_of_laid {rank : TypeRank} {ps : List Source.Piece} {t : Tree}
    (h : TypeLaid rank ps t) : ∀ off ts, Placed off ps ts → WrittenAs rank ts t := by
  induction h with
  | ident hn =>
    intro off ts placed us c applied
    obtain ⟨t, ts, off', rfl, named, rfl, rest⟩ := Placed.word_inv hn placed
    cases rest
    have class_ := ClassWritten.segments named applied .done
    rwa [List.append_nil] at class_
  | select _ hn ih =>
    intro off ts placed us c applied
    obtain ⟨ts, vs, rfl, inner, behind⟩ := placed.split
    obtain ⟨d, vs, off₁, rfl, hd, behind⟩ := Placed.sign_inv behind
    obtain ⟨t, vs, off₂, rfl, named, rfl, rest⟩ := Placed.word_inv hn behind
    cases rest
    cases ih _ _ inner with
    | segments ht ha hs =>
      rw [List.append_assoc, List.cons_append, List.append_assoc]
      exact .segments ht ha (hs.snoc hd named applied)
  | plain _ ih =>
    intro off ts placed
    have class_ := ih off ts placed [] _ .plain
    rwa [List.append_nil] at class_
  | @applied m ps c items _ _ ihc iha =>
    intro off ts placed
    obtain ⟨ts, vs, rfl, inner, rest⟩ := placed.split
    obtain ⟨o, vs, off₁, rfl, ho, rest⟩ := Placed.sign_inv rest
    obtain ⟨us, vs, rfl, args, rest⟩ := rest.split
    obtain ⟨e, vs, off₂, rfl, he, rest⟩ := Placed.sign_inv rest
    cases rest
    refine ihc _ _ inner _ _ ?_
    cases items with
    | nil =>
      cases args
      exact .diamond ho he
    | cons a as =>
      exact .args ho (argumentsWritten_of_placed (List.cons_ne_nil a as) iha args) he
  | reference _ ih =>
    intro off ts placed
    have type := TypeWritten.class_ (ih off ts placed) .done
    rwa [List.append_nil] at type
  | primitive known value =>
    intro off ts placed
    cases placed with
    | lexeme kind text _ rest =>
      cases rest
      exact .primitive (primitiveOf?_of_name kind text known value) .done
  | array _ ih =>
    intro off ts placed
    obtain ⟨ts, vs, rfl, inner, rest⟩ := placed.split
    obtain ⟨o, vs, off₁, rfl, ho, rest⟩ := Placed.sign_inv rest
    obtain ⟨c, vs, off₂, rfl, hc, rest⟩ := Placed.sign_inv rest
    cases rest
    exact (ih _ _ inner).array ho hc
  | argument _ ih => exact fun off ts placed => .type (ih off ts placed)
  | unbounded =>
    intro off ts placed
    obtain ⟨q, ts, off', rfl, hq, rest⟩ := Placed.sign_inv placed
    cases rest
    exact .unbounded hq
  | bounded hb _ ih =>
    intro off ts placed
    obtain ⟨q, ts, off₁, rfl, hq, rest⟩ := Placed.sign_inv placed
    obtain ⟨off₂, rest⟩ := Placed.space_inv rest
    cases rest with
    | lexeme kind text _ behind =>
      obtain ⟨off₃, behind⟩ := Placed.space_inv behind
      refine .bounded hq hb ?_ (ih _ _ behind)
      rw [Token.isText, Token.isWord, kind, text, beq_self_eq_true, beq_self_eq_true,
        Bool.or_true, Bool.and_true]

/-! ## Reading it -/

/-- The parser reads the tree, up to marks, and leaves the second input of the first. -/
def Gives (p : Parser Tree) (s s' : Input) (t : Tree) : Prop :=
  ∃ t', p s = .ok (t', s') ∧ t'.shape true = t.shape true

/-- What is next is none of the operators or words. -/
def Stops (xs : List String) (s : Input) : Prop := ∀ x ∈ xs, s.next.isText x = false

/-- What classes and types go on with. -/
def typeLinks : List String := ["<", ".", "["]

theorem IsSign.stops {t last : Token} {ts : List Token} {x : String} {xs : List String}
    (h : IsSign t x) (hx : x ∉ xs) : Stops xs ⟨t :: ts, last⟩ := by
  intro y member
  refine (h.isText y).trans (beq_eq_false_iff_ne.mpr ?_)
  rintro rfl
  exact hx member

theorem BracketsWritten.gives {e t : Tree} {ts : List Token} (h : BracketsWritten e ts t)
    {e' : Tree} (same : e'.shape true = e.shape true) {n : Nat} (rounds : ts.length < n)
    {rest : List Token} {last : Token} (stops : Stops typeLinks ⟨rest, last⟩) :
    Gives (bracketsFrom n e') ⟨ts ++ rest, last⟩ ⟨rest, last⟩ t := by
  induction h generalizing e' n with
  | done =>
    obtain ⟨n, rfl⟩ := Nat.exists_eq_succ_of_ne_zero (Nat.ne_of_gt rounds)
    refine ⟨e', ?_, same⟩
    rw [List.nil_append, bracketsFrom, bind_ok isNext_apply, bind_ok (isAhead_apply 1),
      stops "[" (by decide), Bool.false_and]
    rfl
  | @pair m e t o c ts ho hc _ ih =>
    obtain ⟨n, rfl⟩ := Nat.exists_eq_succ_of_ne_zero (Nat.ne_of_gt (Nat.zero_lt_of_lt rounds))
    have both : (o.isText "[" && c.isText "]") = true := by rw [ho.isText, hc.isText]; rfl
    rw [List.length_cons, List.length_cons] at rounds
    have inner : Tree.shape true (.arrayType (markOf o) e') = Tree.shape true (.arrayType m e) := by
      rw [Tree.shape, Tree.shape, same]
    obtain ⟨t', read, shape⟩ := ih inner (n := n) (by omega)
    refine ⟨t', ?_, shape⟩
    rw [List.cons_append, List.cons_append, bracketsFrom, bind_ok isNext_apply,
      bind_ok (isAhead_apply 1)]
    change (if (o.isText "[" && c.isText "]") = true then _ else _ : Parser Tree) _ = _
    rw [if_pos both, bind_ok take_apply, bind_ok take_apply]
    exact read

theorem IsNamed.primitiveOf? {t : Token} (h : IsNamed t) : primitiveOf? t = none := by
  obtain ⟨word, free⟩ := Bool.and_eq_true_iff.mp h.name
  rw [Parse.primitiveOf?, if_pos word]
  cases known : TypeTag.ofKeyword? t.text with
  | none => rfl
  | some tag =>
    rw [(TypeTag.reserved_of_ofKeyword? known).1] at free
    cases free

/-- What is next behind the segments of a class is no opening angle bracket. -/
theorem SegmentsWritten.no_args {q e : Tree} {vs rest : List Token} {last : Token}
    (h : SegmentsWritten q vs e) (stops : Stops ["<", "."] ⟨rest, last⟩) :
    Stops ["<"] ⟨vs ++ rest, last⟩ := by
  cases h with
  | done => exact List.forall_mem_singleton.mpr (stops "<" (by decide))
  | segment hd => exact hd.stops (by decide)

/-- A class does not go on with the brackets behind it. -/
theorem BracketsWritten.stops_class {e t : Tree} {ts rest : List Token} {last : Token}
    (h : BracketsWritten e ts t) (stops : Stops typeLinks ⟨rest, last⟩) :
    Stops ["<", "."] ⟨ts ++ rest, last⟩ := by
  cases h with
  | done => exact fun x member => stops x (List.subset_append_left ["<", "."] ["["] member)
  | pair ho => exact ho.stops (by decide)

/-- A type begins with a name or a primitive type. -/
theorem TypeWritten.opens {ts : List Token} {t : Tree} (h : TypeWritten ts t) :
    ∃ u us, ts = u :: us ∧ (IsNamed u ∨ (primitiveOf? u).isSome = true) := by
  cases h with
  | primitive ht _ => exact ⟨_, _, rfl, .inr (by rw [ht]; rfl)⟩
  | class_ hc _ =>
    cases hc with
    | segments ht _ _ => exact ⟨_, _, rfl, .inl ht⟩

/-- No sign begins a type. -/
theorem TypeWritten.no_sign {ts rest : List Token} {t : Tree} {last : Token}
    (h : TypeWritten ts t) : Stops ["?", ">"] ⟨ts ++ rest, last⟩ := by
  obtain ⟨u, us, rfl, first⟩ := h.opens
  intro x member
  change u.isText x = false
  rcases first with named | primitive
  · have sign : ∀ x ∈ ["?", ">"], x ∈ typeSigns := by decide
    exact named.isText (sign x member)
  · -- no sign is spelled like a primitive type
    have none : ∀ x ∈ ["?", ">"], TypeTag.ofKeyword? x = none := by decide
    cases same : u.isText x with
    | false => rfl
    | true =>
      have text : u.text = x := eq_of_beq (Bool.and_eq_true_iff.mp same).2
      rw [primitiveOf?, text, none x member, Option.filter_none, ite_self] at primitive
      cases primitive

/-- No closing angle bracket begins arguments. -/
theorem ArgumentsWritten.not_closed {us rest : List Token} {as : List Tree} {last : Token}
    (h : ArgumentsWritten us as) : (Input.next ⟨us ++ rest, last⟩).isText ">" = false := by
  have argument {ts rest : List Token} {a : Tree} (h : ArgumentWritten ts a) :
      (Input.next ⟨ts ++ rest, last⟩).isText ">" = false := by
    cases h with
    | type h => exact h.no_sign ">" (by decide)
    | unbounded hq | bounded hq => exact (hq.isText ">").trans rfl
  cases h with
  | one h => exact argument h
  | cons h =>
    rw [List.append_assoc]
    exact argument h

mutual

/-- A type is read if the rules are nested deep enough for its tokens. Only arguments go down a level,
and there is a bracket in front of them. -/
theorem TypeWritten.gives {ts : List Token} {t : Tree} (h : TypeWritten ts t)
    {n : Nat} {rest : List Token} {last : Token} (deep : ts.length ≤ n)
    (stops : Stops typeLinks ⟨rest, last⟩) :
    Gives (type (rules n)) ⟨ts ++ rest, last⟩ ⟨rest, last⟩ t := by
  match h, deep with
  | @TypeWritten.primitive m tag u us _ ht hb, deep =>
    have start : Tree.shape true (.primitive (markOf u) tag) = Tree.shape true (.primitive m tag) :=
      rfl
    obtain ⟨t', read, same⟩ := hb.gives start (n := (us ++ rest).length + 1)
      (by rw [List.length_append]; omega) stops
    refine ⟨t', ?_, same⟩
    rw [type, bind_ok current_apply]
    change (match primitiveOf? u with | some tag => _ | none => _ : Parser Tree) _ = _
    rw [ht]
    exact (bind_ok take_apply).trans read
  | @TypeWritten.class_ ts us c _ hc hb, deep =>
    rw [List.length_append] at deep
    -- the brackets are for the type, the class does not take them
    obtain ⟨c', read, same⟩ := hc.gives (n := n) (by omega) (hb.stops_class stops)
    obtain ⟨t', read', same'⟩ := hb.gives same (n := (us ++ rest).length + 1)
      (by rw [List.length_append]; omega) stops
    refine ⟨t', ?_, same'⟩
    have none : primitiveOf? (Input.next ⟨ts ++ (us ++ rest), last⟩) = none := by
      cases hc with
      | segments ht _ _ => exact ht.primitiveOf?
    rw [List.append_assoc, type, bind_ok current_apply, none]
    exact (bind_ok read).trans read'
termination_by structural h

theorem ClassWritten.gives {ts : List Token} {c : Tree} (h : ClassWritten ts c)
    {n : Nat} {rest : List Token} {last : Token} (deep : ts.length ≤ n)
    (stops : Stops ["<", "."] ⟨rest, last⟩) :
    Gives (classType (rules n)) ⟨ts ++ rest, last⟩ ⟨rest, last⟩ c := by
  match h, deep with
  | @ClassWritten.segments m t us vs c e ht ha hs, deep =>
    rw [List.length_cons, List.length_append] at deep
    have start : Tree.shape true (.ident (markOf t) t.text) = Tree.shape true (.ident m t.text) :=
      rfl
    obtain ⟨c', read, same⟩ := ha.gives start (n := n) (by omega) (hs.no_args stops)
    obtain ⟨e', read', same'⟩ := hs.gives same (n := n) (k := (vs ++ rest).length + 1)
      (by omega) (by rw [List.length_append]; omega) stops
    refine ⟨e', ?_, same'⟩
    rw [List.cons_append, List.append_assoc, classType, bind_ok (name_apply ht.name),
      bind_ok read]
    exact read'
termination_by structural h

theorem AppliedWritten.gives {e c : Tree} {us : List Token} (h : AppliedWritten e us c) {e' : Tree}
    (same : e'.shape true = e.shape true) {n : Nat} {rest : List Token} {last : Token}
    (deep : us.length ≤ n) (stops : Stops ["<"] ⟨rest, last⟩) :
    Gives (applied (rules n) e') ⟨us ++ rest, last⟩ ⟨rest, last⟩ c := by
  match h, deep with
  | AppliedWritten.plain, deep =>
    refine ⟨e', ?_, same⟩
    rw [List.nil_append, applied, bind_ok isNext_apply, stops "<" (by decide)]
    rfl
  | @AppliedWritten.diamond m _ o c ho hc, deep =>
    refine ⟨.typeApply (markOf o) e' [], ?_, by simp only [Tree.shape, same]⟩
    have opened : o.isText "<" = true := ho.isText "<"
    have closed : c.isText ">" = true := hc.isText ">"
    rw [List.cons_append, List.cons_append, List.nil_append, applied, bind_ok isNext_apply]
    change (if o.isText "<" = true then _ else _ : Parser Tree) _ = _
    rw [if_pos opened, bind_ok take_apply, bind_ok isNext_apply]
    change (if c.isText ">" = true then _ else _ : Parser Tree) _ = _
    rw [if_pos closed]
    exact (bind_ok pure_apply).trans (bind_ok (expect_apply closed))
  | @AppliedWritten.args m _ o c us as ho ha hc, deep =>
    rw [List.length_cons, List.length_append] at deep
    have enough : us.length < (us ++ c :: rest).length + 1 := by
      rw [List.length_append]
      omega
    obtain ⟨as', arguments, shapes⟩ : ∃ as', typeArguments (rules n) ⟨us ++ c :: rest, last⟩ =
        .ok (as', ⟨c :: rest, last⟩) ∧ Tree.shapeAll true as' = Tree.shapeAll true as :=
      ha.gives (n := n) (by omega) enough hc
    refine ⟨.typeApply (markOf o) e' as', ?_, by rw [Tree.shape, Tree.shape, same, shapes]⟩
    have opened : o.isText "<" = true := ho.isText "<"
    have closed : c.isText ">" = true := hc.isText ">"
    rw [List.cons_append, List.append_assoc, applied, bind_ok isNext_apply]
    change (if o.isText "<" = true then _ else _ : Parser Tree) _ = _
    rw [if_pos opened, bind_ok take_apply, bind_ok isNext_apply]
    change (if (Input.next ⟨us ++ c :: rest, last⟩).isText ">" = true then _ else _ :
      Parser Tree) _ = _
    -- there is an argument, so this is no diamond
    rw [ha.not_closed, if_neg Bool.false_ne_true]
    exact (bind_ok arguments).trans (bind_ok (expect_apply closed))
termination_by structural h

theorem SegmentsWritten.gives {q e : Tree} {vs : List Token} (h : SegmentsWritten q vs e)
    {q' : Tree} (same : q'.shape true = q.shape true) {n : Nat} {rest : List Token} {last : Token}
    (deep : vs.length ≤ n) {k : Nat} (rounds : vs.length < k)
    (stops : Stops ["<", "."] ⟨rest, last⟩) :
    Gives (classTypeFrom (rules n) k q') ⟨vs ++ rest, last⟩ ⟨rest, last⟩ e := by
  obtain ⟨k, rfl⟩ := Nat.exists_eq_succ_of_ne_zero (Nat.ne_of_gt (Nat.zero_lt_of_lt rounds))
  match h, deep, rounds with
  | SegmentsWritten.done, deep, rounds =>
    refine ⟨q', ?_, same⟩
    rw [List.nil_append, classTypeFrom, bind_ok isNext_apply, bind_ok (peek_apply 1),
      stops "." (by decide), Bool.false_and]
    rfl
  | @SegmentsWritten.segment m _ c _ d t us vs hd ht ha hs, deep, rounds =>
    rw [List.length_cons, List.length_cons, List.length_append] at deep rounds
    have start : Tree.shape true (.select (markOf t) q' t.text) =
        Tree.shape true (.select m q t.text) := by
      rw [Tree.shape, Tree.shape, same]
    obtain ⟨c', read, same⟩ := ha.gives start (n := n) (by omega) (hs.no_args stops)
    obtain ⟨e', read', same'⟩ := hs.gives same (n := n) (k := k) (by omega) (by omega) stops
    refine ⟨e', ?_, same'⟩
    have both : (d.isText "." && t.isName) = true := by rw [hd.isText, ht.name]; rfl
    rw [List.cons_append, List.cons_append, List.append_assoc, classTypeFrom, bind_ok isNext_apply,
      bind_ok (peek_apply 1)]
    change (if (d.isText "." && t.isName) = true then _ else _ : Parser Tree) _ = _
    rw [if_pos both, bind_ok take_apply, bind_ok (name_apply ht.name), bind_ok read]
    exact read'
termination_by structural h

theorem ArgumentsWritten.gives {us : List Token} {as : List Tree} (h : ArgumentsWritten us as)
    {n : Nat} {rest : List Token} {last : Token} (deep : us.length < n) {k : Nat}
    (rounds : us.length < k) {c : Token} (hc : IsSign c ">") :
    ∃ as', commaSeparated (typeArgument (rules n)) k ⟨us ++ c :: rest, last⟩ =
      .ok (as', ⟨c :: rest, last⟩) ∧ Tree.shapeAll true as' = Tree.shapeAll true as := by
  obtain ⟨k, rfl⟩ := Nat.exists_eq_succ_of_ne_zero (Nat.ne_of_gt (Nat.zero_lt_of_lt rounds))
  match h, deep, rounds with
  | @ArgumentsWritten.one _ a h, deep, rounds =>
    obtain ⟨a', read, same⟩ := h.gives (n := n) deep (by decide) hc
    refine ⟨[a'], ?_, by rw [Tree.shapeAll, Tree.shapeAll, same, Tree.shapeAll, Tree.shapeAll]⟩
    -- a single closing bracket is next, whatever is closed behind it
    have comma : Stops [","] ⟨c :: rest, last⟩ := hc.stops (by decide)
    rw [commaSeparated, bind_ok read, bind_ok (accept_false (comma "," (by decide)))]
    rfl
  | @ArgumentsWritten.cons ts us d a as h hd hs, deep, rounds =>
    rw [List.length_append, List.length_cons] at deep rounds
    obtain ⟨a', read, same⟩ := h.gives (n := n) (by omega) (by decide) hd
    obtain ⟨as', read', shapes⟩ := hs.gives (n := n) (k := k) (by omega) (by omega) hc
    refine ⟨a' :: as', ?_, by rw [Tree.shapeAll, Tree.shapeAll, same, shapes]⟩
    rw [List.append_assoc, List.cons_append, commaSeparated, bind_ok read,
      bind_ok (accept_true (hd.isText ","))]
    exact bind_ok read'
termination_by structural h

theorem ArgumentWritten.gives {ts : List Token} {a : Tree} (h : ArgumentWritten ts a)
    {n : Nat} {rest : List Token} {last : Token} (deep : ts.length < n) {c : Token} {x : String}
    (hx : x ∈ [",", ">"]) (hc : IsSign c x) :
    Gives (typeArgument (rules n)) ⟨ts ++ c :: rest, last⟩ ⟨c :: rest, last⟩ a := by
  obtain ⟨n, rfl⟩ := Nat.exists_eq_succ_of_ne_zero (Nat.ne_of_gt (Nat.zero_lt_of_lt deep))
  have closes : ∀ x ∈ [",", ">"], x ∉ typeLinks := by decide
  match h, deep with
  | ArgumentWritten.type h, deep =>
    obtain ⟨t', read, same⟩ := h.gives (Nat.le_of_lt_succ deep) (hc.stops (closes x hx))
    refine ⟨t', ?_, same⟩
    have sign : Stops ["?", ">"] ⟨ts ++ c :: rest, last⟩ := h.no_sign
    rw [typeArgument, bind_ok isNext_apply, sign "?" (by decide)]
    exact read
  | @ArgumentWritten.unbounded m q hq, deep =>
    have words : ∀ x ∈ [",", ">"], x ∉ ["extends", "super"] := by decide
    have neither : Stops ["extends", "super"] ⟨c :: rest, last⟩ := hc.stops (words x hx)
    have question : q.isText "?" = true := hq.isText "?"
    refine ⟨.wildcard (markOf q) .unbounded .missing, ?_, rfl⟩
    rw [List.cons_append, List.nil_append, typeArgument, bind_ok isNext_apply]
    change (if q.isText "?" = true then _ else _ : Parser Tree) _ = _
    rw [if_pos question, bind_ok take_apply, bind_ok (accept_false (neither "extends" (by decide)))]
    exact bind_ok (accept_false (neither "super" (by decide)))
  | @ArgumentWritten.bounded m b q w ts t hq hb hw h, deep =>
    rw [List.length_cons, List.length_cons] at deep
    obtain ⟨t', read, same⟩ := h.gives (n := n) (by omega) (hc.stops (closes x hx))
    refine ⟨.wildcard (markOf q) b t', ?_, by rw [Tree.shape, Tree.shape, same]⟩
    have question : q.isText "?" = true := hq.isText "?"
    rw [List.cons_append, List.cons_append, typeArgument, bind_ok isNext_apply]
    change (if q.isText "?" = true then _ else _ : Parser Tree) _ = _
    rw [if_pos question, bind_ok take_apply]
    cases b with
    | unbounded => exact absurd rfl hb
    | extending => exact (bind_ok (accept_true hw)).trans (bind_ok read)
    | above =>
      have other : (Input.next ⟨w :: (ts ++ c :: rest), last⟩).isText "extends" = false :=
        isText_ne hw (by decide)
      refine (bind_ok (accept_false other)).trans ?_
      exact (bind_ok (accept_true hw)).trans (bind_ok read)
termination_by structural h

end

/-- **A type that was read and printed is read again.** Its text has tokens, reading a type takes all
of them up to the last, and gives the type, up to where its nodes stand. -/
theorem ReadAsType.returns_printed {t : Tree} (h : ReadAsType t) :
    ∃ all t', Source.tokens (Glyph.ofString t.print) = .ok all ∧
      (all.getLastD Token.atEnd).isEnd = true ∧
      type (rules (all.length + 1)) ⟨all.dropLast, all.getLastD Token.atEnd⟩ =
        .ok (t', ⟨[], all.getLastD Token.atEnd⟩) ∧
      t'.shape true = t.shape true := by
  obtain ⟨ps, laid⟩ := h.judged Tree.typeJudgement_laid
  obtain ⟨ts, last, lexed, isEnd, placed⟩ := laid.tokens
  have written : TypeWritten ts t := written_of_laid laid 0 ts placed
  -- nothing follows, so neither a segment nor a bracket does
  have stops : Stops typeLinks ⟨[], last⟩ := fun _ _ => isText_of_isEnd isEnd
  obtain ⟨t', read, same⟩ := written.gives (n := (ts ++ [last]).length + 1)
    (by rw [List.length_append]; omega) stops
  refine ⟨ts ++ [last], t', lexed, ?_, ?_, same⟩
  · rwa [List.getLastD_concat]
  · rw [List.getLastD_concat, List.dropLast_concat]
    rwa [List.append_nil] at read

/-- Three argument lists are closed side by side, with a token for each. -/
theorem ReadAsType.returns_printed_closings : ∃ t : Tree,
    t.print = "A.B<C<? extends D<int[], E.F<?>>>>[]" ∧ ReadAsType t ∧
    ∃ all t', Source.tokens (Glyph.ofString t.print) = .ok all ∧
      (all.getLastD Token.atEnd).isEnd = true ∧
      type (rules (all.length + 1)) ⟨all.dropLast, all.getLastD Token.atEnd⟩ =
        .ok (t', ⟨[], all.getLastD Token.atEnd⟩) ∧
      t'.shape true = t.shape true := by
  let text : List Glyph := "A . B<C<?extends D<int[ ],E.F<?> >>>[]".toList.map .char
  have found : (typeOf? text).any
      (fun t => t.print == "A.B<C<? extends D<int[], E.F<?>>>>[]") = true := by
    decide +kernel
  cases read : typeOf? text with
  | none => rw [read] at found; exact nomatch found
  | some t =>
    have isRead : ReadAsType t := readAsType_of_typeOf? read
    rw [read] at found
    exact ⟨t, eq_of_beq found, isRead, isRead.returns_printed⟩

end Weaver.Parse
