import Weaver.Parse.Unit
import Weaver.Proofs.Parse.Progress
/-!
Types and expressions get on.

Each rule of the grammar is read with one token more than the rules it calls: it takes a token
before it calls one of them, or calls one that does. The loops are followed round by round, and a
round that is not the last one takes a token.
-/
set_option autoImplicit false

namespace Weaver.Parse

open Weaver.Source (Token)
open Weaver.Syntax (Tree Flags TypeTag BinaryOp Mark)

/-- The recursive rules of the grammar get on where fewer than `n` tokens are ahead, and each of
them takes a token. -/
structure Progressive (n : Nat) (r : Rules) : Prop where
  type {b : Bool} : Reads n b r.type
  elementValue {b : Bool} : Reads n b r.elementValue
  expression {b : Bool} : Reads n b r.expression
  ternary {b : Bool} : Reads n b r.ternary
  binary {b : Bool} (p : Nat) : Reads n b (r.binary p)
  unary {b : Bool} : Reads n b r.unary
  statement {b : Bool} : Reads n b r.statement
  blockStatement {b : Bool} : Reads n b r.blockStatement
  member {b : Bool} (className : String) : Reads n b (r.member className)

section Rules

variable {n k : Nat} {b : Bool} {r : Rules}

theorem Progressive.le {m : Nat} (h : Progressive n r) (hm : m ≤ n) : Progressive m r where
  type := h.type.le hm
  elementValue := h.elementValue.le hm
  expression := h.expression.le hm
  ternary := h.ternary.le hm
  binary p := (h.binary p).le hm
  unary := h.unary.le hm
  statement := h.statement.le hm
  blockStatement := h.blockStatement.le hm
  member className := (h.member className).le hm

/-! ## Names and types -/

theorem reads_dottedFrom (n : Nat) (e : Tree) : Reads n false (dottedFrom n e) := by
  induction n generalizing e with
  | zero => exact .zero
  | succ n ih =>
    refine fun s => .isNext (.peek fun u => .ite (fun both => ?_) fun _ => .pure)
    exact .taken (Bool.and_eq_true_iff.mp both).1 fun _ => reads_name.bind fun t => ih _

theorem reads_qualifiedName : Reads n b qualifiedName := by
  cases n with
  | zero => exact .zero
  | succ n => exact reads_name.seq fun t => reads_rounds fun k _ => reads_dottedFrom k _

theorem reads_bracketsFrom (n : Nat) (e : Tree) : Reads n false (bracketsFrom n e) := by
  induction n generalizing e with
  | zero => exact .zero
  | succ n ih =>
    refine fun s => .isNext (.isAhead fun u => .ite (fun both => ?_) fun _ => .pure)
    exact .taken (Bool.and_eq_true_iff.mp both).1 fun b => reads_take.bind fun _ => ih _

theorem reads_withBrackets (e : Tree) : Reads n false (withBrackets e) :=
  reads_rounds fun k _ => reads_bracketsFrom k e

theorem reads_typeArgument (h : Progressive n r) : Reads n b (typeArgument r) := by
  cases n with
  | zero => exact .zero
  | succ n =>
    refine fun s => .isNext (.ite (fun hx => ?_) fun _ => h.type s)
    have bound (wrap : Tree → Tree) : Reads n false (do return wrap (← r.type)) :=
      h.type.low.bind fun _ => reads_pure
    refine .taken hx fun q => reads_accept.bind fun _ => .ite (fun _ => bound _) fun _ => ?_
    exact reads_accept.bind fun _ => .ite (fun _ => bound _) fun _ => reads_pure

theorem reads_typeArguments (h : Progressive n r) : Reads n b (typeArguments r) :=
  reads_separated (reads_typeArgument h)

theorem reads_applied (h : Progressive n r) (e : Tree) : Reads (n + 1) false (applied r e) := by
  refine fun s => .isNext (.ite (fun hx => ?_) fun _ => .pure)
  refine .taken hx fun t => reads_isNext.bind fun _ => ?_
  exact .join reads_pure (reads_typeArguments h) fun _ => reads_expect.bind fun _ => reads_pure

theorem reads_classTypeFrom (h : Progressive n r) (hk : k ≤ n + 1) (e : Tree) :
    Reads k false (classTypeFrom r k e) := by
  induction k generalizing e with
  | zero => exact .zero
  | succ k ih =>
    refine fun s => .isNext (.peek fun u => .ite (fun both => ?_) fun _ => .pure)
    refine .taken (Bool.and_eq_true_iff.mp both).1 fun _ => reads_name.bind fun t => ?_
    have less : k ≤ n + 1 := Nat.le_of_succ_le hk
    exact ((reads_applied h _).le less).bind fun e => ih less e

theorem reads_classType (h : Progressive n r) : Reads (n + 1) b (classType r) :=
  reads_name.seq fun _ => ((reads_applied h _).low).bind fun e =>
    reads_rounds fun _ hk => reads_classTypeFrom h (Nat.le_succ_of_le hk) e

theorem isEnd_of_isWord {t : Token} (h : t.isWord = true) : t.isEnd = false := by
  rw [Token.isEnd, eq_of_beq h]
  rfl

theorem isWord_of_primitiveOf? {t : Token} {tag : TypeTag} (h : primitiveOf? t = some tag) :
    t.isWord = true := by
  unfold primitiveOf? at h
  split at h
  · assumption
  · cases h

theorem reads_type (h : Progressive n r) : Reads (n + 1) b (type r) := by
  refine fun s => .current ?_
  split
  · next tag prim =>
    have word := isEnd_of_isWord (isWord_of_primitiveOf? prim)
    exact .seq (.take word) fun _ => reads_withBrackets _
  · exact .seq (reads_classType h s) reads_withBrackets

theorem reads_typeList (h : Progressive n r) : Reads (n + 1) b (typeList r) :=
  reads_separated (reads_type h)

theorem reads_boundsFrom (h : Progressive n r) (hk : k ≤ n + 1) :
    Reads k false (boundsFrom r k) := by
  induction k with
  | zero => exact .zero
  | succ k ih =>
    refine ((reads_type h).le hk).seq fun t => reads_accept.bind fun _ => ?_
    exact .ite (fun _ => (ih (Nat.le_of_succ_le hk)).bind fun _ => reads_pure) fun _ => reads_pure

theorem reads_typeParameter (h : Progressive n r) : Reads (n + 1) b (typeParameter r) := by
  refine reads_name.seq fun t => reads_accept.bind fun _ => ?_
  exact .join (reads_rounds fun _ hk => reads_boundsFrom h (Nat.le_succ_of_le hk)) reads_pure
    fun _ => reads_pure

theorem reads_typeParameters (h : Progressive n r) : Reads (n + 1) false (typeParameters r) := by
  refine .accept ?_ reads_pure
  exact (reads_separated (reads_typeParameter h)).low.bind fun _ =>
    reads_expect.bind fun _ => reads_pure

/-! ## Operands -/

theorem reads_membersFrom {item : Parser (List Tree)} (h : Reads n true item) (hk : k ≤ n) :
    Reads k false (membersFrom item k) := by
  induction k with
  | zero => exact .zero
  | succ k ih =>
    have less : k ≤ n := Nat.le_of_succ_le hk
    refine reads_isNext.bind fun _ => reads_atEnd.bind fun _ => .ite (fun _ => reads_pure) fun _ => ?_
    refine .accept (ih less) ?_
    exact (h.le hk).seq fun _ => (ih less).bind fun _ => reads_pure

theorem reads_classBody (h : Progressive n r) (className : String) :
    Reads (n + 1) b (classBody r className) := by
  refine reads_expect.seq fun _ => ?_
  refine (reads_rounds fun k hk => reads_membersFrom (h.member className) hk).bind fun _ => ?_
  exact reads_expect.bind fun _ => reads_pure

theorem reads_anonymousBody (h : Progressive n r) : Reads (n + 1) false (anonymousBody r) :=
  fun _ => .current (.ite (fun _ => .bind (reads_classBody h _) fun _ => reads_pure) fun _ => .pure)

theorem reads_arguments (h : Progressive n r) : Reads (n + 1) b (arguments r) :=
  reads_expect.seq fun _ => (reads_before reads_isNext h.expression).bind fun _ =>
    reads_expect.bind fun _ => reads_pure

theorem reads_initializerFrom (h : Progressive n r) (hk : k ≤ n) :
    Reads k b (initializerFrom r k) := by
  induction k generalizing b with
  | zero => exact .zero
  | succ k ih =>
    refine fun s => .current (.ite (fun hx => ?_) fun _ => h.expression.le hk s)
    refine .taken hx fun _ => ?_
    refine (reads_before reads_isNext (ih (Nat.le_of_succ_le hk))).bind fun _ => ?_
    exact reads_expect.bind fun _ => reads_pure

theorem reads_initializer (h : Progressive n r) : Reads n b (rounds (initializerFrom r)) :=
  reads_rounds fun _ hk => reads_initializerFrom h hk

theorem reads_arrayElements (h : Progressive n r) : Reads (n + 1) b (arrayElements r) :=
  reads_expect.seq fun _ => (reads_before reads_isNext (reads_initializer h)).bind fun _ =>
    reads_expect.bind fun _ => reads_pure

theorem reads_dimensionsFrom (h : Progressive n r) (hk : k ≤ n + 1) (empty : Nat) :
    Reads k false (dimensionsFrom r k empty) := by
  induction k generalizing empty with
  | zero => exact .zero
  | succ k ih =>
    have less : k ≤ n + 1 := Nat.le_of_succ_le hk
    refine fun s => .isNext (.ite (fun hx => ?_) fun _ => .pure)
    refine .taken hx fun b => reads_accept.bind fun _ => .ite (fun _ => ih less _) fun _ => ?_
    refine .ite (fun _ _ => .fail nofun) fun _ => ?_
    refine (h.expression.le (Nat.le_of_succ_le_succ hk)).bind fun _ => reads_expect.bind fun _ => ?_
    exact (ih less empty).bind fun _ => reads_pure

theorem reads_newArray (h : Progressive n r) (kw : Token) (elem : Tree) :
    Reads (n + 1) false (newArray r kw elem) := by
  refine (reads_rounds fun k hk => reads_dimensionsFrom h hk 0).bind fun x => ?_
  refine .ite (fun _ => ?_) fun _ => reads_pure
  refine reads_isNext.bind fun _ => .ite (fun _ => ?_) fun _ => ?_
  · exact reads_current.bind fun _ _ => .fail_bind nofun
  · exact (reads_arrayElements h).bind fun _ => reads_pure

theorem reads_creator (h : Progressive n r) (kw : Token) (outer : Tree) :
    Reads (n + 1) false (creator r kw outer) := by
  refine fun s => .current ?_
  have after (primitive_ : Bool) (elem : Tree) : Reads (n + 1) false (do
      if ← isNext "[" then newArray r kw elem
      else if primitive_ then unexpected (← current) "\"[\""
      else
        let args ← arguments r
        let body ← anonymousBody r
        return .newObject (markOf kw) outer [] elem args body) := by
    refine reads_isNext.bind fun _ => .ite (fun _ => reads_newArray h kw elem) fun _ => ?_
    refine .ite (fun _ => reads_current.bind fun _ _ => .unexpected) fun _ => ?_
    exact (reads_arguments h).bind fun _ => (reads_anonymousBody h).bind fun _ => reads_pure
  cases primitiveOf? s.next with
  | none => exact .bind (reads_classType h) (after false)
  | some tag => exact .bind reads_take fun _ => reads_pure.bind (after true)

theorem isEnd_of_kind {t : Token} (h : t.kind ≠ .endOfFile) : t.isEnd = false :=
  beq_eq_false_iff_ne.mpr h

theorem reads_primary (h : Progressive n r) : Reads (n + 1) b (primary r) := by
  refine fun s => .current ?_
  -- every branch takes the token that it looked at, or fails
  have here {f : Token → Parser Tree} (hn : s.next.kind ≠ .endOfFile)
      (hf : ∀ t, Reads n false (f t)) : ReadsAt (n + 1) b (take >>= f) s :=
    .seq (.take (isEnd_of_kind hn)) hf
  have leaf (e : Tree) (hn : s.next.kind ≠ .endOfFile) :
      ReadsAt (n + 1) b (do let _ ← take; return e) s :=
    here hn fun _ => reads_pure
  dsimp only
  split
  · next kind => exact leaf _ (by rw [kind]; nofun)
  · next kind =>
    refine .ite (fun _ => here (by rw [kind]; nofun) fun _ => ?_) fun _ => .unexpected
    exact h.expression.bind fun _ => reads_expect.bind fun _ => reads_pure
  · next kind =>
    have hn : s.next.kind ≠ .endOfFile := by rw [kind]; nofun
    refine .ite (fun _ => leaf _ hn) fun _ => .ite (fun _ => leaf _ hn) fun _ => ?_
    refine .ite (fun _ => leaf _ hn) fun _ => .ite (fun _ => here hn fun kw => ?_) fun _ => ?_
    · exact (reads_creator h kw .missing).low
    · split
      · refine here hn fun _ => (reads_withBrackets _).bind fun _ => ?_
        exact reads_expect.bind fun _ => reads_expect.bind fun _ => reads_pure
      · exact .ite (fun _ => leaf _ hn) fun _ => .unexpected
  · exact .unexpected

theorem reads_selection (h : Progressive n r) (e : Tree) : Reads (n + 1) false (selection r e) := by
  refine fun s => .current (.ite (fun _ => ?_) fun _ => .ite (fun _ => ?_) fun _ => ?_)
  · exact .bind reads_take fun _ => reads_pure
  · exact .bind reads_take fun _ => reads_creator h s.next e
  · refine .ite (fun hx => .taken hx fun _ => ?_) fun _ => .bind reads_name fun _ => reads_pure
    refine (reads_typeArguments h).bind fun _ => reads_expect.bind fun _ => reads_name.bind fun _ => ?_
    exact (reads_arguments h).low.bind fun _ => reads_pure

theorem reads_selectorsFrom (h : Progressive n r) (hk : k ≤ n + 1) (e : Tree) :
    Reads k false (selectorsFrom r k e) := by
  induction k generalizing e with
  | zero => exact .zero
  | succ k ih =>
    have less : k ≤ n + 1 := Nat.le_of_succ_le hk
    refine fun s => .current (.ite (fun hx => ?_) fun _ => .ite (fun _ => ?_) fun _ => ?_)
    · exact .taken hx fun _ => ((reads_selection h e).le less).bind fun e => ih less e
    · exact .seq ((reads_arguments h).le hk s) fun _ => ih less _
    · refine .ite (fun hx => .isAhead fun _ => .ite (fun _ => ?_) fun _ => ?_) fun _ => .pure
      · exact .bind (reads_withBrackets e) fun e => reads_expect.seq fun _ =>
          reads_expect.bind fun _ => ih less _
      · refine .taken hx fun _ => (h.expression.le (Nat.le_of_succ_le_succ hk)).bind fun i => ?_
        exact reads_expect.bind fun _ => ih less _

theorem reads_postOperators (n : Nat) (e : Tree) : Reads n false (postOperators n e) := by
  induction n generalizing e with
  | zero => exact .zero
  | succ n ih =>
    refine fun s => .current (.ite (fun hx => ?_) fun _ => .ite (fun hx => ?_) fun _ => .pure)
    · exact .taken hx fun _ => ih _
    · exact .taken hx fun _ => ih _

/-! ## Operators -/

/-- What is tried for a cast takes the parenthesis. -/
theorem reads_castType {α : Type} (h : Progressive n r) {g : Option Tree → Parser α}
    (yes : ∀ t, Reads n false (g (some t))) (no : Reads (n + 1) b (g none)) :
    Reads (n + 1) b (castType? r >>= g) := by
  refine fun s => .attempt (reads_expect.seq fun _ => h.type.bind fun t => ?_) yes (no s)
  exact reads_expect.bind fun _ => reads_current.bind fun _ =>
    .ite (fun _ => reads_pure) fun _ => reads_pure

theorem isEnd_of_isOperator {t : Token} (h : t.isOperator = true) : t.isEnd = false := by
  rw [Token.isEnd, eq_of_beq h]
  rfl

theorem reads_unary (h : Progressive n r) : Reads (n + 1) b (unary r) := by
  refine fun s => .current ?_
  have operand : Reads (n + 1) b (do
      let e ← primary r
      let e ← rounds (selectorsFrom r · e)
      rounds (postOperators · e)) :=
    (reads_primary h).seq fun e =>
      (reads_rounds fun k hk => reads_selectorsFrom h (Nat.le_succ_of_le hk) e).bind fun e =>
        reads_rounds fun k _ => reads_postOperators k e
  dsimp only
  split
  · next op known =>
    have isOperator : s.next.isOperator = true := by
      split at known
      · assumption
      · cases known
    exact .seq (.take (isEnd_of_isOperator isOperator)) fun _ => h.unary.bind fun _ => reads_pure
  · refine .ite (fun _ => ?_) fun _ => operand s
    exact reads_castType h (fun t => h.unary.bind fun _ => reads_pure) operand s

section Looking

variable {s : Input} {α : Type} {P : α → Prop} {p q : Parser α}

theorem looks_touching (i : Nat) (texts : List String) :
    Looks (touching i texts) (fun _ => True) s := by
  induction texts generalizing i with
  | nil => exact .pure trivial
  | cons text texts ih =>
    refine (Looks.isAhead i text).bind fun _ _ => .ite (fun _ => .pure trivial) fun _ => ?_
    exact (Looks.touches i).bind fun _ _ => .ite (fun _ => .pure trivial) fun _ => ih (i + 1)

theorem looks_isRun (texts : List String) : Looks (isRun texts) (fun _ => True) s := by
  refine (looks_touching 0 texts).bind fun _ _ => .ite (fun _ => ?_) fun _ => .pure trivial
  refine (Looks.isAhead _ ">").bind fun _ _ => (Looks.isAhead _ "=").bind fun _ _ => ?_
  exact .ite (fun _ => (Looks.touches _).bind fun _ _ => .pure trivial) fun _ => .pure trivial

/-- Looks for a run of tokens, and for something else if there is none. -/
theorem looks_ifRun (texts : List String) (yes : Looks p P s) (no : Looks q P s) :
    Looks (do if ← isRun texts then p else q) P s :=
  (looks_isRun texts).bind fun _ _ => .ite (fun _ => yes) fun _ => no

/-- What is seen of a binary operator at the next tokens: it is one token or more, and the first is
not the end. -/
def SeesOperator (s : Input) (o : Option (BinaryOp × Nat)) : Prop :=
  ∀ x ∈ o, s.next.isEnd = false ∧ 0 < x.2

theorem seesOperator_none : SeesOperator s none := nofun

theorem seesOperator_some (hn : s.next.isEnd = false) (op : BinaryOp) (count : Nat) :
    SeesOperator s (some (op, count + 1)) := by
  intro x same
  cases same
  exact ⟨hn, Nat.zero_lt_succ count⟩

theorem seesOperator_map (hn : s.next.isEnd = false) (o : Option BinaryOp) :
    SeesOperator s (o.map (·, 1)) := by
  cases o with
  | none => exact seesOperator_none
  | some op => exact seesOperator_some hn op 0

theorem looks_binaryOp? : Looks binaryOp? (SeesOperator s) s := by
  refine Looks.current.bind fun t here => .ite (fun _ => .pure seesOperator_none) fun isOp => ?_
  subst here
  have hn : s.next.isEnd = false := isEnd_of_isOperator (by simpa using isOp)
  refine .ite (fun _ => ?_) fun _ => .pure (seesOperator_map hn _)
  have run (op : BinaryOp) (count : Nat) :
      Looks (pure (some (op, count + 1))) (SeesOperator s) s :=
    .pure (seesOperator_some hn op count)
  refine looks_ifRun _ (run _ 2) (looks_ifRun _ (run _ 1) (looks_ifRun _ (run _ 1) ?_))
  exact looks_ifRun _ (run _ 0) (.pure seesOperator_none)

theorem looks_assignment? : Looks assignment? (SeesOperator s) s := by
  refine Looks.current.bind fun t here => .ite (fun _ => .pure seesOperator_none) fun isOp => ?_
  subst here
  have hn : s.next.isEnd = false := isEnd_of_isOperator (by simpa using isOp)
  refine .ite (fun _ => ?_) fun _ => .pure (seesOperator_map hn _)
  have run (op : BinaryOp) (count : Nat) :
      Looks (pure (some (op, count + 1))) (SeesOperator s) s :=
    .pure (seesOperator_some hn op count)
  exact looks_ifRun _ (run _ 2) (looks_ifRun _ (run _ 3) (.pure seesOperator_none))

end Looking

theorem reads_takeMany (count : Nat) : Reads n false (takeMany count) := by
  induction count with
  | zero => exact reads_pure
  | succ count ih => exact reads_take.bind fun _ => ih

/-- An operator that was seen is taken. -/
theorem reads_seenOperator {s : Input} {x : BinaryOp × Nat} {α : Type} {p : Parser α}
    (seen : SeesOperator s (some x)) (hp : Reads n false p) :
    ReadsAt (n + 1) b (do takeMany x.2; p) s := by
  obtain ⟨hn, positive⟩ := seen x rfl
  obtain ⟨count, more⟩ := Nat.exists_eq_succ_of_ne_zero (Nat.pos_iff_ne_zero.mp positive)
  rw [more]
  have first : ReadsAt (n + 1) true (takeMany (count + 1)) s :=
    .seq (.take hn) fun _ => reads_takeMany count
  exact .seq first fun _ => hp

theorem reads_operatorsFrom (h : Progressive n r) (minPrec : Nat) (hk : k ≤ n + 1) (left : Tree) :
    Reads k false (operatorsFrom r minPrec k left) := by
  induction k generalizing left with
  | zero => exact .zero
  | succ k ih =>
    have less : k ≤ n + 1 := Nat.le_of_succ_le hk
    refine fun s => .current (.ite (fun hx => .ite (fun _ => .pure) fun _ => ?_) fun _ => ?_)
    · exact .taken hx fun _ => ((reads_type h).le less).bind fun _ => ih less _
    · refine .looks looks_binaryOp? fun o seen => ?_
      cases o with
      | none => exact .pure
      | some x =>
        refine .ite (fun _ => .pure) fun _ => reads_seenOperator seen ?_
        exact ((h.binary _).le (Nat.le_of_succ_le_succ hk)).bind fun right => ih less _

theorem reads_binary (h : Progressive n r) (minPrec : Nat) : Reads (n + 1) b (binary r minPrec) :=
  (reads_unary h).seq fun left =>
    reads_rounds fun _ hk => reads_operatorsFrom h minPrec (Nat.le_succ_of_le hk) left

theorem reads_ternary (h : Progressive n r) : Reads (n + 1) b (ternary r) := by
  refine fun s => .current (.seq (reads_binary h _ s) fun cond => ?_)
  refine reads_accept.bind fun _ => .ite (fun _ => ?_) fun _ => reads_pure
  exact h.expression.bind fun _ => reads_expect.bind fun _ => h.ternary.bind fun _ => reads_pure

theorem reads_expression (h : Progressive n r) : Reads (n + 1) b (expression r) := by
  refine (reads_ternary h).seq fun left => reads_current.bind fun t => .ite (fun _ => ?_) fun _ => ?_
  · exact reads_take.bind fun _ => h.expression.bind fun _ => reads_pure
  · refine fun s => .looks looks_assignment? fun o _ => ?_
    cases o with
    | none => exact .pure
    | some x =>
      exact .bind (reads_takeMany x.2) fun _ => h.expression.bind fun _ => reads_pure

/-! ## Annotations and modifiers -/

theorem reads_namedArgument (h : Progressive n r) : Reads n b (namedArgument r) := by
  cases n with
  | zero => exact .zero
  | succ n =>
    refine reads_name.seq fun t => reads_expect.bind fun _ => ?_
    exact h.elementValue.low.bind fun _ => reads_pure

theorem reads_annoUse (h : Progressive n r) : Reads (n + 1) b (annoUse r) := by
  refine reads_expect.seq fun at_ => reads_qualifiedName.bind fun type => reads_accept.bind fun _ => ?_
  have done (args : List Tree) : Reads n false (return Tree.annoUse (markOf at_) type args) :=
    reads_pure
  have close (args : List Tree) : Reads n false (do
      let _ ← expect ")"
      let args ← pure args
      return Tree.annoUse (markOf at_) type args) :=
    reads_expect.bind fun _ => reads_pure.bind done
  refine .ite (fun _ => ?_) fun _ => reads_pure.bind done
  refine reads_isNext.bind fun _ => reads_current.bind fun _ => reads_isAhead.bind fun _ => ?_
  refine .ite (fun _ => reads_pure.bind close) fun _ => .ite (fun _ => ?_) fun _ => ?_
  · exact (reads_separated (reads_namedArgument h)).bind close
  · exact h.elementValue.bind fun _ => reads_pure.bind close

theorem reads_elementValue (h : Progressive n r) : Reads (n + 1) b (elementValue r) := by
  refine fun s => .current (.ite (fun _ => reads_annoUse h s) fun _ => .ite (fun hx => ?_) fun _ => ?_)
  · exact .taken hx fun _ => (reads_before reads_isNext h.elementValue).bind fun _ =>
      reads_expect.bind fun _ => reads_pure
  · exact reads_ternary h s

theorem reads_modifiersFrom (h : Progressive n r) (hk : k ≤ n + 1) (flags : Flags) :
    Reads k false (modifiersFrom r k flags) := by
  induction k generalizing flags with
  | zero => exact .zero
  | succ k ih =>
    have less : k ≤ n + 1 := Nat.le_of_succ_le hk
    refine fun s => .current (.isAhead fun _ => .ite (fun _ => ?_) fun _ => ?_)
    · exact .seq ((reads_annoUse h).le hk s) fun _ => (ih less flags).bind fun _ => reads_pure
    · split
      · next f known =>
        have isWord : s.next.isWord = true := by
          split at known
          · assumption
          · cases known
        refine .ite (fun _ => .fail nofun) fun _ => ?_
        exact .seq (.take (isEnd_of_isWord isWord)) fun _ => ih less _
      · exact .pure

theorem reads_modifiers (h : Progressive n r) : Reads (n + 1) false (modifiers r) :=
  reads_current.bind fun _ =>
    (reads_rounds fun _ hk => reads_modifiersFrom h hk .empty).bind fun _ => reads_pure

end Rules

end Weaver.Parse
