import Weaver.Parse.Unit
import Weaver.Proofs.Parse.Yields
import Weaver.Proofs.Syntax.Formula
import Weaver.Proofs.Syntax.Proper
/-!
The types that are read from a text.

A class is named by a path whose segments may have type arguments; array brackets come last. The
form says this of trees, with a rank for each rule of the grammar. The names in it are words and not
reserved, so none of them names a primitive type.

The parser is followed once for all judgements on types that the grammar is built for
(`TypeJudgement`); the form is one of them.
-/
set_option autoImplicit false

namespace Weaver.Syntax

open Weaver.Text (IsSegment)

/-! ## Names of classes -/

theorem TypeTag.keyword?_of_ofKeyword? {w : String} {tag : TypeTag} (h : ofKeyword? w = some tag) :
    tag.keyword? = some w := by
  have found := List.find?_some h
  exact eq_of_beq found

/-- A primitive type is known by its name. -/
theorem TypeTag.ofKeyword?_name {w : String} {tag : TypeTag} (h : ofKeyword? w = some tag) :
    ofKeyword? tag.name = some tag := by
  have named := keyword?_of_ofKeyword? h
  cases tag
  case none | object | bottom => exact nomatch named
  all_goals decide

/-- The names of primitive types are reserved and have no dot. -/
theorem TypeTag.reserved_of_ofKeyword? {w : String} {tag : TypeTag} (h : ofKeyword? w = some tag) :
    Source.isKeyword w = true ∧ '.' ∉ w.toList := by
  have named := keyword?_of_ofKeyword? h
  cases tag
  case none | object | bottom => exact nomatch named
  all_goals
    obtain rfl := Option.some.inj named
    decide

namespace Tree

/-- A segment of a dotted name that is not reserved. -/
structure IsTypeName (n : String) : Prop where
  segment : IsSegment n
  free : Source.isKeyword n = false

theorem IsTypeName.of_isNameText {n : String} (h : isNameText n = true) : IsTypeName n := by
  rw [isNameText, Bool.and_eq_true, Bool.not_eq_true'] at h
  exact ⟨Source.isSegment_of_isWordText h.1, h.2⟩

/-- A name that is not reserved does not name a primitive type. -/
theorem IsTypeName.reference {n : String} (h : IsTypeName n) : TypeTag.ofKeyword? n = none := by
  cases known : TypeTag.ofKeyword? n with
  | none => rfl
  | some tag => exact absurd (TypeTag.reserved_of_ofKeyword? known).1 (by rw [h.free]; decide)

/-! ## The form -/

/-- What a tree is as part of a type: a path to a class, a class with or without arguments, a type
or an argument. -/
inductive TypeRank where
  | path
  | reference
  | type
  | argument

/-- Trees of types as the grammar has them. -/
inductive TypeForm : TypeRank → Tree → Prop where
  | ident {m : Mark} {n : String} (name : IsTypeName n) : TypeForm .path (.ident m n)
  | select {m : Mark} {q : Tree} {n : String} (qualifier : TypeForm .reference q)
      (name : IsTypeName n) : TypeForm .path (.select m q n)
  | plain {t : Tree} (path : TypeForm .path t) : TypeForm .reference t
  | applied {m : Mark} {c : Tree} {as : List Tree} (path : TypeForm .path c)
      (args : ∀ a ∈ as, TypeForm .argument a) : TypeForm .reference (.typeApply m c as)
  | reference {t : Tree} (class_ : TypeForm .reference t) : TypeForm .type t
  | primitive {m : Mark} {tag : TypeTag} (known : TypeTag.ofKeyword? tag.name = some tag) :
      TypeForm .type (.primitive m tag)
  | array {m : Mark} {e : Tree} (elem : TypeForm .type e) : TypeForm .type (.arrayType m e)
  | argument {t : Tree} (type : TypeForm .type t) : TypeForm .argument t
  | unbounded {m : Mark} : TypeForm .argument (.wildcard m .unbounded .missing)
  | bounded {m : Mark} {b : Bound} {t : Tree} (bound : b ≠ .unbounded) (type : TypeForm .type t) :
      TypeForm .argument (.wildcard m b t)

end Tree

end Weaver.Syntax

namespace Weaver.Parse

open Weaver.Source (Token)
open Weaver.Syntax (Tree Mark TypeTag Bound isNameText)
open Weaver.Syntax.Tree
open Weaver.Text (Glyph)

/-- A judgement on trees that holds of everything that the rules for types put together. -/
structure TypeJudgement (P : TypeRank → Tree → Prop) : Prop where
  ident (m : Mark) {n : String} (name : isNameText n = true) : P .path (.ident m n)
  select (m : Mark) {q : Tree} {n : String} (qualifier : P .reference q)
    (name : isNameText n = true) : P .path (.select m q n)
  plain {t : Tree} (path : P .path t) : P .reference t
  applied (m : Mark) {c : Tree} {as : List Tree} (path : P .path c)
    (args : ∀ a ∈ as, P .argument a) : P .reference (.typeApply m c as)
  reference {t : Tree} (class_ : P .reference t) : P .type t
  primitive (m : Mark) {tag : TypeTag} (known : TypeTag.ofKeyword? tag.name = some tag)
    (value : tag ≠ .void) : P .type (.primitive m tag)
  array (m : Mark) {e : Tree} (elem : P .type e) : P .type (.arrayType m e)
  argument {t : Tree} (type : P .type t) : P .argument t
  unbounded (m : Mark) : P .argument (.wildcard m .unbounded .missing)
  bounded (m : Mark) {b : Bound} {t : Tree} (bound : b ≠ .unbounded) (type : P .type t) :
    P .argument (.wildcard m b t)

theorem typeJudgement_form : TypeJudgement TypeForm where
  ident _ _ name := .ident (.of_isNameText name)
  select _ _ _ qualifier name := .select qualifier (.of_isNameText name)
  plain := .plain
  applied _ _ _ := .applied
  reference := .reference
  primitive _ _ known _ := .primitive known
  array _ _ := .array
  argument := .argument
  unbounded _ := .unbounded
  bounded _ _ _ := .bounded

/-- A name that is taken is a word that is not reserved. -/
theorem yields_nameText : Yields name fun t => isNameText t.text = true := by
  intro s t s' words done
  -- what is taken is the token ahead, which was asked whether it is a name
  have isName : (s.ahead.getD 0 s.last).isName = true ∧ t = s.ahead.getD 0 s.last := by
    change (if (s.ahead.getD 0 s.last).isName then take else unexpected _ _ : Parser Token) s = _
      at done
    by_cases here : (s.ahead.getD 0 s.last).isName = true
    · rw [if_pos here] at done
      cases done
      exact ⟨here, rfl⟩
    · rw [if_neg here] at done
      exact nomatch done
  obtain ⟨isName, rfl⟩ := isName
  rw [Token.isName, Bool.and_eq_true] at isName
  exact ⟨Bool.and_eq_true_iff.mpr ⟨words.getD 0 isName.1, isName.2⟩,
    (yields_name s _ s' words done).2⟩

/-- A name that is taken can name a class. -/
theorem yields_typeName : Yields name fun t => IsTypeName t.text :=
  yields_nameText.mono fun _ => .of_isNameText

/-- Brackets make another tree of a tree, without regard to what it is. -/
theorem yields_bracketsFrom {P : Tree → Prop} (wrap : ∀ m e, P e → P (.arrayType m e)) (n : Nat)
    {e : Tree} (h : P e) : Yields (bracketsFrom n e) P := by
  induction n generalizing e with
  | zero => exact yields_outOfRounds
  | succ n ih =>
    refine (yields_isNext "[").bind fun _ _ => (yields_isAhead 1 "]").bind fun _ _ => ?_
    refine .ite (fun _ => ?_) fun _ => .pure h
    exact yields_take.bind fun b _ => yields_take.bind fun _ _ => ih (wrap (markOf b) e h)

/-- A token that names a primitive type is known by the name of the type, and that is not `void`. -/
theorem primitiveOf?_known {t : Token} {tag : TypeTag} (h : primitiveOf? t = some tag) :
    TypeTag.ofKeyword? tag.name = some tag ∧ tag ≠ .void := by
  unfold primitiveOf? at h
  split at h
  · obtain ⟨keyword, value⟩ := Option.filter_eq_some_iff.mp h
    exact ⟨TypeTag.ofKeyword?_name keyword, by simpa using value⟩
  · exact nomatch h

theorem primitiveOf?_name {t : Token} {tag : TypeTag} (h : primitiveOf? t = some tag) :
    TypeTag.ofKeyword? tag.name = some tag :=
  (primitiveOf?_known h).1

/-! ## The rules for types -/

namespace TypeJudgement

variable {P : TypeRank → Tree → Prop} {r : Rules}

theorem yields_brackets (J : TypeJudgement P) {e : Tree} (form : P .type e) :
    Yields (withBrackets e) (P .type) :=
  yields_rounds fun n => yields_bracketsFrom (fun m _ => J.array m) n form

theorem yields_argument (J : TypeJudgement P) (h : Yields r.type (P .type)) :
    Yields (typeArgument r) (P .argument) := by
  refine (yields_isNext "?").bind fun _ _ => .ite (fun _ => ?_) fun _ => h.mono fun _ => J.argument
  refine yields_take.bind fun q _ =>
    (yields_accept "extends").bind fun _ _ => .ite (fun _ => ?_) fun _ => ?_
  · exact h.bind fun t form => .pure (J.bounded _ nofun form)
  · refine (yields_accept "super").bind fun _ _ => .ite (fun _ => ?_) fun _ => .pure (J.unbounded _)
    exact h.bind fun t form => .pure (J.bounded _ nofun form)

theorem yields_arguments (J : TypeJudgement P) (h : Yields r.type (P .type)) :
    Yields (typeArguments r) fun as => ∀ a ∈ as, P .argument a :=
  yields_rounds (yields_commaSeparated (J.yields_argument h))

theorem yields_applied (J : TypeJudgement P) (h : Yields r.type (P .type)) {e : Tree}
    (path : P .path e) : Yields (Parse.applied r e) (P .reference) := by
  refine (yields_isNext "<").bind fun _ _ => .ite (fun _ => ?_) fun _ => .pure (J.plain path)
  refine yields_take.bind fun t _ => (yields_isNext ">").bind fun _ _ => ?_
  refine .join (.pure (P := fun as => ∀ a ∈ as, P .argument a) (List.forall_mem_nil _))
    (J.yields_arguments h) fun args form => ?_
  exact (yields_expect ">").bind fun _ _ => .pure (J.applied _ path form)

theorem yields_classTypeFrom (J : TypeJudgement P) (h : Yields r.type (P .type)) (n : Nat)
    {e : Tree} (he : P .reference e) : Yields (classTypeFrom r n e) (P .reference) := by
  induction n generalizing e with
  | zero => exact yields_outOfRounds
  | succ n ih =>
    refine (yields_isNext ".").bind fun _ _ => (yields_peek 1).bind fun _ _ => ?_
    refine .ite (fun _ => ?_) fun _ => .pure he
    refine yields_take.bind fun _ _ => yields_nameText.bind fun t name => ?_
    exact (J.yields_applied h (J.select (markOf t) he name)).bind fun _ form => ih form

theorem yields_classType (J : TypeJudgement P) (h : Yields r.type (P .type)) :
    Yields (classType r) (P .reference) :=
  yields_nameText.bind fun t name => (J.yields_applied h (J.ident (markOf t) name)).bind
    fun _ form => yields_rounds fun n => J.yields_classTypeFrom h n form

theorem yields_type (J : TypeJudgement P) (h : Yields r.type (P .type)) :
    Yields (type r) (P .type) := by
  refine yields_current.bind fun t _ => ?_
  split
  · next tag known =>
    obtain ⟨known, value⟩ := primitiveOf?_known known
    exact yields_take.bind fun _ _ => J.yields_brackets (J.primitive (markOf t) known value)
  · exact (J.yields_classType h).bind fun _ form => J.yields_brackets (J.reference form)

/-- The rules of the grammar read types of which the judgement holds. -/
theorem yields_rules (J : TypeJudgement P) (n : Nat) : Yields (rules n).type (P .type) := by
  induction n with
  | zero => exact yields_outOfRounds
  | succ n ih => exact J.yields_type ih

end TypeJudgement

section Form

variable {r : Rules}

theorem yields_typeBrackets {e : Tree} (form : TypeForm .type e) :
    Yields (withBrackets e) (TypeForm .type) :=
  typeJudgement_form.yields_brackets form

theorem yields_argumentForms (h : Yields r.type (TypeForm .type)) :
    Yields (typeArguments r) fun as => ∀ a ∈ as, TypeForm .argument a :=
  typeJudgement_form.yields_arguments h

theorem yields_classTypeForm (h : Yields r.type (TypeForm .type)) :
    Yields (classType r) (TypeForm .reference) :=
  typeJudgement_form.yields_classType h

theorem yields_typeForm (h : Yields r.type (TypeForm .type)) :
    Yields (type r) (TypeForm .type) :=
  typeJudgement_form.yields_type h

end Form

/-- A tree that is read as a type somewhere among the tokens of a text. -/
inductive ReadAsType (t : Tree) : Prop where
  | intro {text : List Glyph} {all : List Token} {n : Nat} {s s' : Input}
      (lexed : Source.tokens text = .ok all) (ahead : ∀ u ∈ s.ahead, u ∈ all)
      (last : s.last = all.getLastD Token.atEnd) (read : type (rules n) s = .ok (t, s')) :
      ReadAsType t

/-- A judgement on types holds of those that are read. -/
theorem ReadAsType.judged {P : TypeRank → Tree → Prop} (J : TypeJudgement P) {t : Tree}
    (h : ReadAsType t) : P .type t := by
  obtain ⟨lexed, ahead, last, read⟩ := h
  have worded := Source.worded_of_tokens lexed
  refine (J.yields_type (J.yields_rules _) _ t _ ⟨fun u member => ?_, ?_⟩ read).1
  · exact worded u (ahead u member)
  · rw [last]
    exact worded_last worded

/-- Types that are read have the form. -/
theorem ReadAsType.form {t : Tree} (h : ReadAsType t) : TypeForm .type t :=
  h.judged typeJudgement_form

/-- The type that the tokens of a text begin with, if they begin with one. -/
def typeOf? (text : List Glyph) : Option Tree := do
  let all ← (Source.tokens text).toOption
  let (t, _) ← (type (rules (all.length + 1)) ⟨all.dropLast, all.getLastD Token.atEnd⟩).toOption
  return t

theorem readAsType_of_typeOf? {text : List Glyph} {t : Tree} (h : typeOf? text = some t) :
    ReadAsType t := by
  unfold typeOf? at h
  cases lexed : Source.tokens text with
  | error e => rw [lexed] at h; exact nomatch h
  | ok all =>
    rw [lexed] at h
    change (type _ ⟨_, _⟩).toOption >>= _ = some t at h
    cases read : type (rules (all.length + 1)) ⟨all.dropLast, all.getLastD Token.atEnd⟩ with
    | error e => rw [read] at h; exact nomatch h
    | ok r =>
      rw [read] at h
      obtain rfl := Option.some.inj h
      exact .intro lexed (fun u member => (List.dropLast_sublist all).subset member) rfl read

end Weaver.Parse
