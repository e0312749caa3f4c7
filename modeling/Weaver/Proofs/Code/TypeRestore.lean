import Weaver.Proofs.Code.Restore
import Weaver.Proofs.Parse.Phrase
/-!
What is left of a type that is lifted and lowered again.

Code names a class by a dotted name with one list of type arguments, so the arguments of the
segments before the last go, and so does an empty list. `asLifted` says what a type becomes; the
type itself comes back if it has neither.
-/
set_option autoImplicit false

namespace Weaver.Syntax.Tree

/-! ## Types that lose nothing -/

/-- A path to a class without type arguments. -/
def unapplied : Tree → Tree
  | select m q n => select m (unapplied q) n
  | typeApply _ t _ => unapplied t
  | t => t

mutual

/-- A type without type arguments before the last segment and without empty lists of them. -/
def asLifted : Tree → Tree
  | select m q n => select m (unapplied q) n
  | typeApply m c as =>
    if as.isEmpty then unapplied c else typeApply m (unapplied c) (asLiftedAll as)
  | arrayType m e => arrayType m (asLifted e)
  | wildcard m b t => wildcard m b (asLifted t)
  | t => t

/-- The types of a list without these. -/
def asLiftedAll : List Tree → List Tree
  | [] => []
  | t :: ts => asLifted t :: asLiftedAll ts

end

mutual

/-- There are no type arguments before the last segment, and no list of them is empty. -/
def LastApplied : Tree → Prop
  | select _ q _ => Unapplied q
  | typeApply _ c as => Unapplied c ∧ as ≠ [] ∧ LastAppliedAll as
  | arrayType _ e => LastApplied e
  | wildcard _ _ t => LastApplied t
  | _ => True

/-- The same of the types of a list. -/
def LastAppliedAll : List Tree → Prop
  | [] => True
  | t :: ts => LastApplied t ∧ LastAppliedAll ts

end

theorem asLiftedAll_eq_map (ts : List Tree) : asLiftedAll ts = ts.map asLifted := by
  induction ts with
  | nil => rfl
  | cons t ts ih => rw [asLiftedAll, ih, List.map_cons]

theorem unapplied_unapplied (t : Tree) : t.unapplied.Unapplied := by
  induction t using unapplied.induct with
  | case1 m q n ih => exact ih
  | case2 m t as ih => exact ih
  | case3 t other₁ other₂ =>
    rw [unapplied.eq_3 t other₁ other₂]
    cases t
    case select => exact absurd rfl (other₁ _ _ _)
    case typeApply => exact absurd rfl (other₂ _ _ _)
    all_goals trivial

theorem unapplied_eq {t : Tree} (h : t.Unapplied) : t.unapplied = t := by
  induction t using unapplied.induct with
  | case1 m q n ih => rw [unapplied, ih h]
  | case2 m t as ih => exact h.elim
  | case3 t other₁ other₂ => exact unapplied.eq_3 t other₁ other₂

theorem unapplied_shape (t : Tree) : (t.shape true).Unapplied ↔ t.Unapplied := by
  induction t using Unapplied.induct with
  | case1 m q n ih => exact ih
  | case2 m t as => exact Iff.rfl
  | case3 t other₁ other₂ =>
    cases t
    case select => exact absurd rfl (other₁ _ _ _)
    case typeApply => exact absurd rfl (other₂ _ _ _)
    all_goals exact Iff.rfl

/-- Taking type arguments away changes a path unless it has none. -/
theorem shape_unapplied_iff (t : Tree) :
    t.unapplied.shape true = t.shape true ↔ t.Unapplied := by
  constructor
  · intro same
    rw [← unapplied_shape, ← same, unapplied_shape]
    exact unapplied_unapplied t
  · intro none_
    rw [unapplied_eq none_]

theorem shapeAll_asLiftedAll_iff {ts : List Tree}
    (h : ∀ t ∈ ts, t.asLifted.shape true = t.shape true ↔ t.LastApplied) :
    shapeAll true (asLiftedAll ts) = shapeAll true ts ↔ LastAppliedAll ts := by
  induction ts with
  | nil => exact ⟨fun _ => trivial, fun _ => rfl⟩
  | cons t ts ih =>
    rw [asLiftedAll, shapeAll, shapeAll, List.cons.injEq, h t List.mem_cons_self,
      ih fun t member => h t (List.mem_cons_of_mem _ member)]
    exact Iff.rfl

variable {k : TypeRank} {t : Tree}

/-- The types that lifting keeps. -/
theorem TypeForm.asLifted_iff (form : TypeForm k t) :
    t.asLifted.shape true = t.shape true ↔ t.LastApplied := by
  induction form with
  | ident | primitive | unbounded => exact ⟨fun _ => trivial, fun _ => rfl⟩
  | @select m q n =>
    rw [asLifted, shape, shape, select.injEq]
    exact ⟨fun same => (shape_unapplied_iff q).mp same.2.1,
      fun none_ => ⟨rfl, (shape_unapplied_iff q).mpr none_, rfl⟩⟩
  | plain _ ih | reference _ ih | argument _ ih => exact ih
  | @applied m c as path _ _ ih =>
    rw [asLifted]
    cases as with
    | nil =>
      refine ⟨fun same => ?_, fun last => absurd rfl last.2.1⟩
      cases path <;> exact Tree.noConfusion same
    | cons a as =>
      simp only [List.isEmpty_cons, Bool.false_eq_true, if_false, shape, typeApply.injEq,
        shape_unapplied_iff, shapeAll_asLiftedAll_iff ih, LastApplied, ne_eq, List.cons_ne_nil,
        not_false_eq_true, true_and]
  | array _ ih | bounded _ _ ih =>
    rw [asLifted, shape, shape, LastApplied]
    simpa using ih

theorem TypeForm.unapplied (form : TypeForm k t) (chain : k = .path ∨ k = .reference) :
    TypeForm .path t.unapplied := by
  induction form with
  | ident name => exact .ident name
  | select _ name ih => exact .select (.plain (ih (.inr rfl))) name
  | plain _ ih => exact ih (.inl rfl)
  | applied _ _ ih _ => exact ih (.inl rfl)
  | _ => rcases chain with other | other <;> exact nomatch other

/-- What lifting leaves of a type is a type. -/
theorem TypeForm.asLifted (form : TypeForm k t) : TypeForm k t.asLifted := by
  induction form with
  | ident name => exact .ident name
  | select qualifier name => exact .select (.plain (qualifier.unapplied (.inr rfl))) name
  | plain path ih => exact .plain ih
  | @applied m c as path args _ ih =>
    rw [Tree.asLifted]
    split
    · exact .plain (path.unapplied (.inl rfl))
    · refine .applied (path.unapplied (.inl rfl)) ?_
      rw [asLiftedAll_eq_map]
      exact List.forall_mem_map.mpr ih
  | reference _ ih => exact .reference ih
  | primitive known => exact .primitive known
  | array _ ih => exact .array ih
  | argument _ ih => exact .argument ih
  | unbounded => exact .unbounded
  | bounded bound _ ih => exact .bounded bound ih

end Weaver.Syntax.Tree

namespace Weaver.Code

open Weaver.Syntax (Tree Mark TypeTag)
open Weaver.Syntax.Tree

variable {s : Scope} {k : TypeRank} {t : Tree}

/-! ## Paths -/

theorem qualifiedName?_unapplied (t : Tree) : t.unapplied.qualifiedName? = t.qualifiedName? := by
  induction t using unapplied.induct with
  | case1 m q n ih => rw [unapplied, qualifiedName?, qualifiedName?, ih]
  | case2 m t as ih => rw [unapplied, qualifiedName?, ih]
  | case3 t other₁ other₂ => rw [unapplied.eq_3 t other₁ other₂]

/-- A path names a class; without its type arguments it is proper. -/
theorem named_of_form (form : TypeForm k t) (chain : k = .path ∨ k = .reference) :
    (∃ q, t.qualifiedName? = some q) ∧ t.unapplied.Proper := by
  induction form with
  | ident name => exact ⟨⟨_, rfl⟩, name.segment⟩
  | select _ name ih =>
    obtain ⟨⟨q, named⟩, proper⟩ := ih (.inr rfl)
    exact ⟨⟨_, by rw [qualifiedName?, named]; rfl⟩, name.segment, proper⟩
  | plain _ ih => exact ih (.inl rfl)
  | applied _ _ ih _ => exact ih (.inl rfl)
  | _ => rcases chain with other | other <;> cases other

/-- The name of a path is not that of a primitive type. -/
theorem reference_of_path {q : String} (form : TypeForm .path t)
    (named : t.qualifiedName? = some q) : TypeTag.ofKeyword? q = none := by
  cases form with
  | ident name =>
    obtain rfl := Option.some.inj named
    exact name.reference
  | select =>
    obtain ⟨q', -, rfl⟩ := Option.map_eq_some_iff.mp named
    cases known : TypeTag.ofKeyword? (q' ++ "." ++ _) with
    | none => rfl
    | some tag =>
      refine absurd ?_ (TypeTag.reserved_of_ofKeyword? known).2
      simp [String.toList_append]

/-! ## Types -/

/-- The tree of a type's name. -/
def headOf (m : Mark) (n : String) : Except Abort Tree :=
  match TypeTag.ofKeyword? n with
  | some tag => pure (.primitive m tag)
  | none => dotted m n

/-- The code of a type becomes the type when it is lowered: its name, its arguments and its brackets
do. -/
inductive Lifts (s : Scope) (t : Tree) : Code → Prop where
  | intro {n : String} {args : List Code} {e : Tree} {as : List Tree} (d : Nat)
      (head : headOf s.mark n = .ok e) (arguments : lowerAll s .value args = .ok as)
      (same : (arrayOf s.mark d (if as.isEmpty then e else .typeApply s.mark e as)).shape true =
        t.shape true) : Lifts s t (typeRef n args d)

theorem Lifts.restores {c : Code} (h : Lifts s t c) (p : Place) : Restores (c.lower s p) t := by
  obtain @⟨n, args, e, as, d, head, arguments, same⟩ := h
  refine ⟨_, ?_, same⟩
  -- the arguments and brackets go around the name in the same way whether it is a keyword or not
  let around (e : Tree) : Except Abort Tree := do
    let as ← lowerAll s .value args
    return arrayOf s.mark d (if as.isEmpty then e else .typeApply s.mark e as)
  have surrounded : around e = .ok (arrayOf s.mark d (if as.isEmpty then e else
      .typeApply s.mark e as)) := by
    simp only [around, arguments]
    rfl
  change (match TypeTag.ofKeyword? n with
    | some tag => around (.primitive s.mark tag)
    | none => dotted s.mark n >>= around) = _
  rw [headOf] at head
  cases known : TypeTag.ofKeyword? n with
  | some tag =>
    rw [known] at head
    obtain rfl := Except.ok.inj head
    exact surrounded
  | none =>
    rw [known] at head
    change dotted s.mark n = _ at head
    change dotted s.mark n >>= around = _
    rw [head]
    exact surrounded

theorem arrayOf_succ (m : Mark) (d : Nat) (e : Tree) :
    arrayOf m (d + 1) e = .arrayType m (arrayOf m d e) := by
  induction d generalizing e with
  | zero => rfl
  | succ d ih => rw [arrayOf, ih, arrayOf]

/-- Brackets around a type. -/
theorem Lifts.bracketed {c : Code} (h : Lifts s t c) (m : Mark) (whole : Tree) :
    Lifts s (.arrayType m t) (bracketed whole c) := by
  obtain ⟨d, head, arguments, same⟩ := h
  refine .intro (d + 1) head arguments ?_
  rw [arrayOf_succ, shape, same, shape]

/-- A path is lifted as its name. -/
theorem lifts_path (form : TypeForm .path t) (s : Scope) :
    ∃ n e, liftType t = type n ∧ headOf s.mark n = .ok e ∧
      e.shape true = t.unapplied.shape true := by
  obtain ⟨⟨q, named⟩, proper⟩ := named_of_form form (.inl rfl)
  have lifted : liftType t = type q := by
    cases form <;> rw [liftType, named]
  obtain ⟨e, lowered, same⟩ := restores_named (s := s) (q := q) proper (unapplied_unapplied t)
    (by rw [qualifiedName?_unapplied, named])
  refine ⟨q, e, lifted, ?_, same⟩
  rw [headOf, reference_of_path form named]
  exact lowered

theorem liftTypeArgs_eq_map (ts : List Tree) : liftTypeArgs ts = ts.map liftTypeArg := by
  induction ts with
  | nil => rw [liftTypeArgs, List.map_nil]
  | cons t ts ih => rw [liftTypeArgs, ih, List.map_cons]

/-- A path with arguments that are restored. -/
theorem lifts_applied {m : Mark} {c : Tree} {as : List Tree} (path : TypeForm .path c)
    (args : ∀ a ∈ as, Restores ((liftTypeArg a).lower s .value) a.asLifted) :
    Lifts s (Tree.typeApply m c as).asLifted (liftType (.typeApply m c as)) := by
  obtain ⟨n, e, lifted, head, same⟩ := lifts_path path s
  obtain ⟨as', lowered, sames⟩ := restoresAll_map args
  rw [← liftTypeArgs_eq_map] at lowered
  rw [← asLiftedAll_eq_map] at sames
  rw [liftType, lifted]
  refine .intro 0 head lowered ?_
  rw [asLifted]
  cases as with
  | nil =>
    cases as' with
    | nil => exact same
    | cons => cases sames
  | cons a as =>
    cases as' with
    | nil => cases sames
    | cons a' as' =>
      change shape true (.typeApply s.mark e (a' :: as')) = shape true (.typeApply m _ _)
      rw [shape, shape, same, sames]

/-- What a type is lifted to becomes the type without what lifting loses, and so does a type
argument. -/
def Returns (s : Scope) : TypeRank → Tree → Prop
  | .argument, t => Restores ((liftTypeArg t).lower s .value) t.asLifted
  | _, t => Lifts s t.asLifted (liftType t)

theorem asLifted_of_path (form : TypeForm .path t) : t.asLifted = t.unapplied := by
  cases form <;> rfl

theorem returns_of_form (form : TypeForm k t) (s : Scope) : Returns s k t := by
  have path {t : Tree} (form : TypeForm .path t) : Lifts s t.asLifted (liftType t) := by
    obtain ⟨n, e, lifted, head, same⟩ := lifts_path form s
    rw [lifted, asLifted_of_path form]
    exact .intro 0 head rfl same
  induction form with
  | ident name => exact path (.ident name)
  | select qualifier name => exact path (.select qualifier name)
  | plain _ ih | reference _ ih => exact ih
  | applied form _ _ ih => exact lifts_applied form ih
  | @primitive m tag known =>
    have head : headOf s.mark tag.name = .ok (.primitive s.mark tag) := by
      rw [headOf, known]
      rfl
    change Lifts s _ (liftType (.primitive m tag))
    rw [liftType]
    exact .intro 0 head rfl rfl
  | @array m e _ ih =>
    change Lifts s (.arrayType m e.asLifted) (liftType (.arrayType m e))
    rw [liftType]
    exact Lifts.bracketed ih m _
  | @argument t form ih =>
    -- a type is never a wildcard, so as an argument it is lifted as a type
    have other : ∀ m b u, t ≠ .wildcard m b u := by
      rintro m b u rfl
      cases form with
      | reference form => cases form with | plain form => cases form
    change Restores ((liftTypeArg t).lower s .value) t.asLifted
    rw [liftTypeArg.eq_3 t other]
    exact Lifts.restores ih .value
  | @unbounded m =>
    change Restores ((liftTypeArg _).lower s .value) (.wildcard m .unbounded .missing)
    rw [liftTypeArg]
    exact ⟨_, rfl, rfl⟩
  | @bounded m b t bound _ ih =>
    obtain ⟨t', lowered, same⟩ := Lifts.restores ih .part
    change Restores ((liftTypeArg _).lower s .value) (.wildcard m b t.asLifted)
    rw [liftTypeArg.eq_2 m b t bound]
    refine ⟨.wildcard s.mark b t', ?_, by rw [shape, shape, same]⟩
    cases b with
    | unbounded => exact absurd rfl bound
    | extending | above =>
      change (do return Tree.wildcard s.mark _ (← (liftType t).lower s .part)) = _
      rw [lowered]
      rfl

theorem restores_unique {x : Except Abort Tree} {u v : Tree} (hu : Restores x u) :
    Restores x v ↔ u.shape true = v.shape true := by
  obtain ⟨t, rfl, same⟩ := hu
  refine ⟨fun ⟨t', here, same'⟩ => ?_, fun whole => ⟨t, rfl, same.trans whole⟩⟩
  rw [← same, Except.ok.inj here, same']

/-- The normal form of a type is what lifting leaves of it. -/
theorem shape_normalType (form : TypeForm .type t) (s : Scope) :
    (normalType s t).shape true = t.asLifted.shape true :=
  (restores_unique (restores_type form.proper)).mp ((returns_of_form form s).restores .part)

/-- What becomes of a type that was read from a text and is lifted and lowered again: the arguments
of the segments before the last and empty argument lists are lost, and the type comes back just if
it has none of these. -/
theorem restores_readType (read : Parse.ReadAsType t) (s : Scope) :
    Restores ((liftType t).lower s .part) t.asLifted ∧
      (Restores ((liftType t).lower s .part) t ↔ t.LastApplied) := by
  have back : Restores ((liftType t).lower s .part) t.asLifted :=
    Lifts.restores (returns_of_form read.form s) .part
  exact ⟨back, (restores_unique back).trans (read.form.asLifted_iff)⟩

theorem exists_of_any {α : Type} {x : Option α} {p : α → Bool} (h : x.any p = true) :
    ∃ a, x = some a ∧ p a = true := by
  cases x with
  | none => exact nomatch h
  | some a => exact ⟨a, rfl, h⟩

/-- An array of a dotted class that is given a wildcard and an array of a named class. -/
def isMapOfArrays : Tree → Bool
  | .arrayType _ (.typeApply _ (.select _ (.ident ..) _)
    [.wildcard _ .unbounded .missing, .arrayType _ (.ident ..)]) => true
  | _ => false

/-- A type with arguments behind its last segment comes back. -/
theorem restores_readType_map : ∃ t, Parse.ReadAsType t ∧ t.LastApplied ∧
    ∀ s : Scope, Restores ((liftType t).lower s .part) t := by
  let text : List Text.Glyph := "a.Map<?,B[]>[]".toList.map .char
  have found : (Parse.typeOf? text).any isMapOfArrays = true := by
    decide +kernel
  obtain ⟨t, read, is_⟩ := exists_of_any found
  unfold isMapOfArrays at is_
  split at is_
  · next m₁ m₂ m₃ m₄ q n m₅ m₆ m₇ b =>
    have last : LastApplied (.arrayType m₁ (.typeApply m₂ (.select m₃ (.ident m₄ q) n)
        [.wildcard m₅ .unbounded .missing, .arrayType m₆ (.ident m₇ b)])) :=
      ⟨trivial, List.cons_ne_nil _ _, trivial, trivial, trivial⟩
    exact ⟨_, Parse.readAsType_of_typeOf? read, last,
      fun s => (restores_readType (Parse.readAsType_of_typeOf? read) s).2.mpr last⟩
  · cases is_

/-- A class in one with type arguments. -/
def isOfApplied : Tree → Bool
  | .select _ (.typeApply ..) _ => true
  | _ => false

/-- The arguments of an enclosing class are lost. -/
theorem readType_lost : ¬∀ t, Parse.ReadAsType t → ∀ s : Scope,
    Restores ((liftType t).lower s .part) t := by
  let text : List Text.Glyph := "A<B>.C".toList.map .char
  have found : (Parse.typeOf? text).any isOfApplied = true := by
    decide +kernel
  obtain ⟨t, read, is_⟩ := exists_of_any found
  intro all
  unfold isOfApplied at is_
  split at is_
  · have form := (Parse.readAsType_of_typeOf? read).form
    have back := all _ (Parse.readAsType_of_typeOf? read) ⟨default, none, none⟩
    exact form.asLifted_iff.mp
      ((restores_unique (Lifts.restores (returns_of_form form _) .part)).mp back)
  · cases is_

end Weaver.Code
