import Weaver.Proofs.Parse.Phrase
/-!
The parser makes phrases: expressions and annotations.

Each rule of the grammar yields phrases if the rules it calls do; an induction on the number of
tokens then covers the recursion.
-/
set_option autoImplicit false

namespace Weaver.Parse

open Weaver.Source (Token)
open Weaver.Syntax (Tree Flags TypeTag Bound Mark)
open Weaver.Syntax.Tree
open Weaver.Text (IsSegment)

/-- The recursive rules of the grammar yield phrases. -/
structure Sound (r : Rules) : Prop where
  type : Yields r.type (TypeForm .type)
  elementValue : Yields r.elementValue (Phrase .element)
  expression : Yields r.expression (Phrase .expression)
  ternary : Yields r.ternary (Phrase .expression)
  binary : ∀ n, Yields (r.binary n) (Phrase .expression)
  unary : Yields r.unary (Phrase .expression)
  statement : Yields r.statement (Phrase .statement)
  blockStatement : Yields r.blockStatement (Phrases .statement)
  member : ∀ className, Yields (r.member className) (Phrases .member)

/-! ## Lists and names -/

theorem yields_separated {item : Parser Tree} {c : Category} (h : Yields item (Phrase c)) :
    Yields (rounds (commaSeparated item)) (Phrases c) :=
  yields_rounds (yields_commaSeparated h)

theorem yields_before {closes : Parser Bool} {item : Parser Tree} {c : Category}
    (h : Yields item (Phrase c)) (h' : Yields closes fun _ => True) :
    Yields (rounds (listBefore closes item)) (Phrases c) :=
  yields_rounds (yields_listBefore h' h)

theorem yields_dottedFrom (n : Nat) {e : Tree} (h : TypeForm .path e) :
    Yields (dottedFrom n e) (TypeForm .path) := by
  induction n generalizing e with
  | zero => exact yields_outOfRounds
  | succ n ih =>
    refine (yields_isNext ".").bind fun _ _ => (yields_peek 1).bind fun _ _ => ?_
    refine .ite (fun _ => ?_) fun _ => .pure h
    exact yields_take.bind fun _ _ => yields_typeName.bind fun t name => ih (.select (.plain h) name)

theorem yields_qualifiedName : Yields qualifiedName (TypeForm .path) :=
  yields_typeName.bind fun _ name => yields_rounds fun n => yields_dottedFrom n (.ident name)

theorem yields_bracketed {e : Tree} (h : Phrase .bracketed e) :
    Yields (withBrackets e) (Phrase .bracketed) :=
  yields_rounds fun n => yields_bracketsFrom (fun _ _ => .brackets) n h

section Rules

variable {r : Rules}

theorem yields_type (h : Sound r) : Yields (type r) (TypeForm .type) :=
  yields_typeForm h.type

theorem yields_typeList (h : Sound r) : Yields (typeList r) fun ts => ∀ t ∈ ts, TypeForm .type t :=
  yields_rounds (yields_commaSeparated (yields_type h))

theorem yields_boundsFrom (h : Sound r) (n : Nat) :
    Yields (boundsFrom r n) fun ts => ∀ t ∈ ts, TypeForm .type t := by
  induction n with
  | zero => exact yields_outOfRounds
  | succ n ih =>
    refine (yields_type h).bind fun t form => (yields_accept "&").bind fun _ _ => ?_
    refine .ite (fun _ => ?_) fun _ => .pure (List.forall_mem_singleton.mpr form)
    exact ih.bind fun ts others => .pure (List.forall_mem_cons.mpr ⟨form, others⟩)

theorem yields_typeParameter (h : Sound r) : Yields (typeParameter r) (Phrase .typeParameter) := by
  refine yields_name.bind fun t _ => (yields_accept "extends").bind fun _ _ => ?_
  refine .join (yields_rounds (yields_boundsFrom h)) (.pure (List.forall_mem_nil _))
    fun bounds forms => ?_
  exact .pure (.typeParam forms)

theorem yields_typeParameters (h : Sound r) :
    Yields (typeParameters r) (Phrases .typeParameter) := by
  refine (yields_accept "<").bind fun _ _ => .ite (fun _ => ?_) fun _ => .pure .nil
  refine (yields_separated (yields_typeParameter h)).bind fun params all => ?_
  exact (yields_expect ">").bind fun _ _ => .pure all

/-! ## Operands -/

theorem yields_membersFrom {member : Parser (List Tree)} (h : Yields member (Phrases .member))
    (n : Nat) : Yields (membersFrom member n) (Phrases .member) := by
  induction n with
  | zero => exact yields_outOfRounds
  | succ n ih =>
    refine (yields_isNext "\x7d").bind fun _ _ => yields_atEnd.bind fun _ _ => ?_
    refine .ite (fun _ => .pure .nil) fun _ => (yields_accept ";").bind fun _ _ => ?_
    refine .ite (fun _ => ih) fun _ => ?_
    exact h.bind fun ts here => ih.bind fun us others => .pure (here.append others)

theorem yields_classBody (h : Sound r) (className : String) :
    Yields (classBody r className) (Phrases .member) := by
  refine (yields_expect "\x7b").bind fun _ _ => ?_
  refine (yields_rounds (yields_membersFrom (h.member className))).bind fun defs all => ?_
  exact (yields_expect "\x7d").bind fun _ _ => .pure all

theorem yields_anonymousBody (h : Sound r) :
    Yields (anonymousBody r) (Phrase (.optional .declaration)) := by
  refine yields_current.bind fun t _ => .ite (fun _ => ?_) fun _ => .pure .absent
  refine (yields_classBody h "").bind fun defs all => .pure (.present ?_)
  exact .classDecl (.modifiers (List.forall_mem_nil _)) (List.forall_mem_nil _) .absent (List.forall_mem_nil _) all

theorem yields_arguments (h : Sound r) : Yields (arguments r) (Phrases .expression) := by
  refine (yields_expect "(").bind fun _ _ => ?_
  refine (yields_before h.expression (yields_isNext ")")).bind fun args all => ?_
  exact (yields_expect ")").bind fun _ _ => .pure all

theorem yields_initializerFrom (h : Sound r) (n : Nat) :
    Yields (initializerFrom r n) (Phrase .initializer) := by
  induction n with
  | zero => exact yields_outOfRounds
  | succ n ih =>
    refine yields_current.bind fun t _ => .ite (fun _ => ?_) fun _ => h.expression.mono fun _ => .value
    refine yields_take.bind fun _ _ => (yields_before ih (yields_isNext "\x7d")).bind fun elems all => ?_
    exact (yields_expect "\x7d").bind fun _ _ => .pure (.braces all)

theorem yields_arrayElements (h : Sound r) : Yields (arrayElements r) (Phrases .initializer) := by
  refine (yields_expect "\x7b").bind fun _ _ => ?_
  refine (yields_before (yields_rounds (yields_initializerFrom h)) (yields_isNext "\x7d")).bind
    fun elems all => ?_
  exact (yields_expect "\x7d").bind fun _ _ => .pure all

theorem yields_dimensionsFrom (h : Sound r) (n empty : Nat) :
    Yields (dimensionsFrom r n empty) fun x => Phrases .expression x.1 := by
  induction n generalizing empty with
  | zero => exact yields_outOfRounds
  | succ n ih =>
    refine (yields_isNext "[").bind fun _ _ => .ite (fun _ => ?_) fun _ => .pure .nil
    refine yields_take.bind fun b _ => (yields_accept "]").bind fun _ _ => ?_
    refine .ite (fun _ => ih (empty + 1)) fun _ => .ite (fun _ => yields_failAt b _) fun _ => ?_
    refine h.expression.bind fun d here => (yields_expect "]").bind fun _ _ => ?_
    exact (ih empty).bind fun x others => .pure (.cons here others)

theorem typeForm_inArrays (m : Mark) (n : Nat) {e : Tree} (h : TypeForm .type e) :
    TypeForm .type (inArrays m n e) := by
  induction n generalizing e with
  | zero => exact h
  | succ n ih => exact ih (.array h)

theorem yields_newArray (h : Sound r) (kw : Token) {e : Tree} (he : TypeForm .type e) :
    Yields (newArray r kw e) (Phrase .expression) := by
  refine (yields_rounds fun n => yields_dimensionsFrom h n 0).bind fun x dims => .ite (fun _ => ?_)
    fun _ => .pure (.newArray (typeForm_inArrays _ _ he) dims)
  refine (yields_isNext "\x7b").bind fun _ _ => ?_
  have elements (elem : Tree) (form : TypeForm .type elem) : Yields (do
      let elems ← arrayElements r
      return .newArray (markOf kw) elem [] true elems) (Phrase .expression) :=
    (yields_arrayElements h).bind fun elems all => .pure (.filledArray form all)
  refine .ite (fun _ => ?_) fun _ => elements _ (typeForm_inArrays _ _ he)
  exact yields_current.bind fun t _ => (yields_failAt t _ (P := fun _ => False)).bind
    fun _ => False.elim

theorem yields_creator (h : Sound r) (kw : Token) {outer : Tree}
    (ho : Phrase (.optional .expression) outer) :
    Yields (creator r kw outer) (Phrase .expression) := by
  refine yields_current.bind fun t _ => ?_
  cases known : primitiveOf? t with
  | none =>
    refine (yields_classTypeForm h.type).bind fun elem form => (yields_isNext "[").bind fun _ _ => ?_
    refine .ite (fun _ => yields_newArray h kw (.reference form)) fun _ => ?_
    refine (yields_arguments h).bind fun args all => (yields_anonymousBody h).bind fun body inner => ?_
    exact .pure (.newObject ho form all inner)
  | some tag =>
    have form : TypeForm .type (.primitive (markOf t) tag) := .primitive (primitiveOf?_name known)
    refine yields_take.bind fun _ _ => (Yields.pure form).bind fun elem form => ?_
    refine (yields_isNext "[").bind fun _ _ => .ite (fun _ => yields_newArray h kw form) fun _ => ?_
    exact yields_current.bind fun u _ => yields_unexpected u _

theorem yields_primary (h : Sound r) : Yields (primary r) (Phrase .expression) := by
  refine yields_current.bind fun t worded => ?_
  have leaf (e : Tree) (phrase : Phrase .expression e) :
      Yields (do let _ ← take; return e) (Phrase .expression) :=
    yields_take.bind fun _ _ => .pure phrase
  dsimp only
  split
  · exact leaf _ .literal
  · refine .ite (fun _ => ?_) fun _ => yields_unexpected t _
    refine yields_take.bind fun _ _ => h.expression.bind fun e phrase => ?_
    exact (yields_expect ")").bind fun _ _ => .pure (.parens phrase)
  · next word =>
    have name_ : Phrase .expression (.ident (markOf t) t.text) :=
      .ident (worded.segment (by rw [Token.isWord, word]; rfl))
    refine .ite (fun _ => leaf _ .literal) fun _ => .ite (fun _ => leaf _ .literal) fun _ => ?_
    refine .ite (fun _ => leaf _ name_) fun _ => ?_
    refine .ite (fun _ => yields_take.bind fun kw _ => yields_creator h kw .absent) fun _ => ?_
    split
    · next tag _ =>
      refine yields_take.bind fun _ _ => (yields_bracketed .primitive).bind fun e named => ?_
      refine (yields_expect ".").bind fun _ _ => (yields_expect "class").bind fun c _ => ?_
      exact .pure (.classOf named)
    · exact .ite (fun _ => leaf _ name_) fun _ => yields_unexpected t _
  · exact yields_unexpected t _

theorem text_of_isText {t : Token} {x : String} (h : t.isText x = true) : t.text = x :=
  eq_of_beq (Bool.and_eq_true_iff.mp h).2

theorem yields_selection (h : Sound r) {e : Tree} (he : Phrase .expression e) :
    Yields (selection r e) (Phrase .expression) := by
  refine yields_current.bind fun n _ => .ite (fun special => ?_) fun _ => .ite (fun _ => ?_) fun _ => ?_
  · refine yields_take.bind fun _ _ => .pure ?_
    rcases Bool.or_eq_true_iff.mp special with special | isSuper
    · rcases Bool.or_eq_true_iff.mp special with isClass | isThis
      · rw [text_of_isText isClass]
        exact .classOf (.operand he)
      · rw [text_of_isText isThis]
        exact .select he ⟨by decide, by decide⟩
    · rw [text_of_isText isSuper]
      exact .select he ⟨by decide, by decide⟩
  · exact yields_take.bind fun _ _ => yields_creator h n (.present he)
  · refine .ite (fun _ => ?_) fun _ => ?_
    · refine yields_take.bind fun _ _ => (yields_argumentForms h.type).bind fun types forms => ?_
      refine (yields_expect ">").bind fun _ _ => yields_name.bind fun t segment => ?_
      exact (yields_arguments h).bind fun args all => .pure (.call forms (.select he segment) all)
    · exact yields_name.bind fun t segment => .pure (.select he segment)

theorem yields_selectorsFrom (h : Sound r) (n : Nat) {e : Tree} (he : Phrase .expression e) :
    Yields (selectorsFrom r n e) (Phrase .expression) := by
  induction n generalizing e with
  | zero => exact yields_outOfRounds
  | succ n ih =>
    refine yields_current.bind fun t _ => .ite (fun _ => ?_) fun _ => .ite (fun _ => ?_) fun _ => ?_
    · exact yields_take.bind fun _ _ => (yields_selection h he).bind fun _ phrase => ih phrase
    · exact (yields_arguments h).bind fun args all => ih (.call (List.forall_mem_nil _) he all)
    · refine .ite (fun _ => ?_) fun _ => .pure he
      refine (yields_isAhead 1 "]").bind fun _ _ => .ite (fun _ => ?_) fun _ => ?_
      · refine (yields_bracketed (.operand he)).bind fun e named => ?_
        refine (yields_expect ".").bind fun _ _ => (yields_expect "class").bind fun c _ => ?_
        exact ih (.classOf named)
      · refine yields_take.bind fun _ _ => h.expression.bind fun i index => ?_
        exact (yields_expect "]").bind fun _ _ => ih (.indexed he index)

theorem yields_postOperators (n : Nat) {e : Tree} (he : Phrase .expression e) :
    Yields (postOperators n e) (Phrase .expression) := by
  induction n generalizing e with
  | zero => exact yields_outOfRounds
  | succ n ih =>
    refine yields_current.bind fun t _ => .ite (fun _ => ?_) fun _ => .ite (fun _ => ?_) fun _ => ?_
    · exact yields_take.bind fun _ _ => ih (.unary he)
    · exact yields_take.bind fun _ _ => ih (.unary he)
    · exact .pure he

/-! ## Operators -/

theorem yields_castType? (h : Sound r) :
    Yields (castType? r) fun o => ∀ t ∈ o, TypeForm .type t := by
  refine yields_attempt ?_
  refine (yields_expect "(").bind fun _ _ => h.type.bind fun t form => ?_
  refine (yields_expect ")").bind fun _ _ => yields_current.bind fun u _ => ?_
  refine .ite (fun _ => .pure ?_) fun _ => .pure nofun
  intro c same
  rwa [← Option.some.inj same]

theorem yields_unary (h : Sound r) : Yields (unary r) (Phrase .expression) := by
  refine yields_current.bind fun t _ => ?_
  dsimp only
  split
  · next op _ =>
    exact yields_take.bind fun _ _ => h.unary.bind fun e he => .pure (.unary he)
  · refine .join (yields_castType? h) (.pure fun c none_ => ?_) fun o form => ?_
    · cases none_
    · cases o with
      | some c => exact h.unary.bind fun e he => .pure (.cast (form c rfl) he)
      | none =>
        refine (yields_primary h).bind fun e he => ?_
        refine (yields_rounds fun n => yields_selectorsFrom h n he).bind fun e he => ?_
        exact yields_rounds fun n => yields_postOperators n he

theorem yields_touching (i : Nat) (texts : List String) :
    Yields (touching i texts) fun _ => True := by
  induction texts generalizing i with
  | nil => exact .pure trivial
  | cons text texts ih =>
    refine (yields_isAhead i text).bind fun _ _ => .ite (fun _ => .pure trivial) fun _ => ?_
    exact (yields_touches i).bind fun _ _ => .ite (fun _ => .pure trivial) fun _ => ih (i + 1)

theorem yields_isRun (texts : List String) : Yields (isRun texts) fun _ => True := by
  refine (yields_touching 0 texts).bind fun _ _ => .ite (fun _ => ?_) fun _ => .pure trivial
  refine (yields_isAhead _ ">").bind fun _ _ => (yields_isAhead _ "=").bind fun _ _ => ?_
  exact .ite (fun _ => (yields_touches _).bind fun _ _ => .pure trivial) fun _ => .pure trivial

/-- Looks for a run of tokens, and for something else if there is none. -/
theorem yields_ifRun {α : Type} {p q : Parser α} {P : α → Prop} (texts : List String)
    (yes : Yields p P) (no : Yields q P) :
    Yields (do if ← isRun texts then p else q) P :=
  (yields_isRun texts).bind fun _ _ => .ite (fun _ => yes) fun _ => no

theorem yields_binaryOp? : Yields binaryOp? fun _ => True := by
  refine yields_current.bind fun t _ => .ite (fun _ => .pure trivial) fun _ => ?_
  refine .ite (fun _ => ?_) fun _ => .pure trivial
  refine yields_ifRun _ (.pure trivial) (yields_ifRun _ (.pure trivial) ?_)
  exact yields_ifRun _ (.pure trivial) (yields_ifRun _ (.pure trivial) (.pure trivial))

theorem yields_assignment? : Yields assignment? fun _ => True := by
  refine yields_current.bind fun t _ => .ite (fun _ => .pure trivial) fun _ => ?_
  refine .ite (fun _ => ?_) fun _ => .pure trivial
  exact yields_ifRun _ (.pure trivial) (yields_ifRun _ (.pure trivial) (.pure trivial))

theorem yields_takeMany (n : Nat) : Yields (takeMany n) fun _ => True := by
  induction n with
  | zero => exact .pure trivial
  | succ n ih => exact yields_take.bind fun _ _ => ih

theorem yields_operatorsFrom (h : Sound r) (minPrec n : Nat) {left : Tree}
    (hl : Phrase .expression left) :
    Yields (operatorsFrom r minPrec n left) (Phrase .expression) := by
  induction n generalizing left with
  | zero => exact yields_outOfRounds
  | succ n ih =>
    refine yields_current.bind fun t _ => .ite (fun _ => ?_) fun _ => ?_
    · refine .ite (fun _ => .pure hl) fun _ => yields_take.bind fun _ _ => ?_
      exact (yields_type h).bind fun clazz form => ih (.instanceOf hl form)
    · refine yields_binaryOp?.bind fun o _ => ?_
      cases o with
      | none => exact .pure hl
      | some x =>
        refine .ite (fun _ => .pure hl) fun _ => (yields_takeMany x.2).bind fun _ _ => ?_
        exact (h.binary _).bind fun right hr => ih (.binary hl hr)

theorem yields_binary (h : Sound r) (minPrec : Nat) :
    Yields (binary r minPrec) (Phrase .expression) :=
  (yields_unary h).bind fun _ hl => yields_rounds fun n => yields_operatorsFrom h minPrec n hl

theorem yields_ternary (h : Sound r) : Yields (ternary r) (Phrase .expression) := by
  refine yields_current.bind fun t _ => (yields_binary h _).bind fun cond hc => ?_
  refine (yields_accept "?").bind fun _ _ => .ite (fun _ => ?_) fun _ => .pure hc
  refine h.expression.bind fun yes hy => (yields_expect ":").bind fun _ _ => ?_
  exact h.ternary.bind fun no hn => .pure (.conditional hc hy hn)

theorem yields_expression (h : Sound r) : Yields (expression r) (Phrase .expression) := by
  refine (yields_ternary h).bind fun left hl => yields_current.bind fun t _ => ?_
  refine .ite (fun _ => ?_) fun _ => yields_assignment?.bind fun o _ => ?_
  · exact yields_take.bind fun _ _ => h.expression.bind fun e he => .pure (.assign hl he)
  · cases o with
    | none => exact .pure hl
    | some x =>
      refine (yields_takeMany x.2).bind fun _ _ => ?_
      exact h.expression.bind fun e he => .pure (.assignOp hl he)

/-! ## Annotations and modifiers -/

theorem yields_namedArgument (h : Sound r) : Yields (namedArgument r) (Phrase .argument) := by
  refine yields_name.bind fun t segment => (yields_expect "=").bind fun _ _ => ?_
  exact h.elementValue.bind fun v phrase => .pure (.named segment phrase)

theorem yields_annoUse (h : Sound r) : Yields (annoUse r) (Phrase .anno) := by
  refine (yields_expect "@").bind fun at_ _ => yields_qualifiedName.bind fun type form => ?_
  refine (yields_accept "(").bind fun _ _ => ?_
  have done (args : List Tree) (all : Phrases .argument args) :
      Yields (return Tree.annoUse (markOf at_) type args) (Phrase .anno) :=
    .pure (.annoUse form all)
  have close (args : List Tree) (all : Phrases .argument args) : Yields (do
      let _ ← expect ")"
      let args ← pure args
      return Tree.annoUse (markOf at_) type args) (Phrase .anno) :=
    (yields_expect ")").bind fun _ _ => (Yields.pure all).bind done
  refine .ite (fun _ => ?_) fun _ => (Yields.pure .nil).bind done
  refine (yields_isNext ")").bind fun _ _ => yields_current.bind fun _ _ =>
    (yields_isAhead 1 "=").bind fun _ _ => .ite (fun _ => ?_) fun _ => .ite (fun _ => ?_) fun _ => ?_
  · exact (Yields.pure .nil).bind close
  · exact (yields_separated (yields_namedArgument h)).bind close
  · exact h.elementValue.bind fun v phrase =>
      (Yields.pure (.singleton (.positional phrase))).bind close

theorem yields_elementValue (h : Sound r) : Yields (elementValue r) (Phrase .element) := by
  refine yields_current.bind fun t _ => .ite (fun _ => ?_) fun _ => .ite (fun _ => ?_) fun _ => ?_
  · exact (yields_annoUse h).mono fun _ => .nested
  · refine yields_take.bind fun _ _ => (yields_before h.elementValue (yields_isNext "\x7d")).bind
      fun elems all => ?_
    exact (yields_expect "\x7d").bind fun _ _ => .pure (.elements all)
  · exact (yields_ternary h).mono fun _ => .constant

theorem yields_modifiersFrom (h : Sound r) (n : Nat) (flags : Flags) :
    Yields (modifiersFrom r n flags) fun x => Phrases .anno x.2 := by
  induction n generalizing flags with
  | zero => exact yields_outOfRounds
  | succ n ih =>
    refine yields_current.bind fun t _ => (yields_isAhead 1 "interface").bind fun _ _ => ?_
    refine .ite (fun _ => ?_) fun _ => ?_
    · refine (yields_annoUse h).bind fun a here => (ih flags).bind fun x others => ?_
      exact .pure (.cons here others)
    · split
      · refine .ite (fun _ => yields_failAt t _) fun _ => ?_
        exact yields_take.bind fun _ _ => ih _
      · exact .pure .nil

theorem yields_modifiers (h : Sound r) : Yields (modifiers r) fun x => Phrases .anno x.2.2 := by
  refine yields_current.bind fun t _ => ?_
  exact (yields_rounds fun n => yields_modifiersFrom h n .empty).bind fun x annos => .pure annos

end Rules

end Weaver.Parse
