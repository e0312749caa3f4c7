import Mathlib.Data.List.Nodup
import Mathlib.Data.List.Perm.Basic
import Mathlib.Data.Option.Basic
import Weaver.Proofs.SourceUnit.Step
/-!
What declarations become while a unit changes.

A declaration follows another one (`Tree.Follows`) if it is what the other one may have become under
a license: of the same kind, with the same head unless its body may be replaced, and with the same
fields and the licensed ones that were added. A change of one declaration in its place shows in the declaration itself
and in the one around it; `Tree.follows_changeIn` puts both together.
-/
set_option autoImplicit false

namespace Weaver

open Weaver.Syntax (Tree Mark Flags Field)

/-- What is allowed by one license is allowed by another one. -/
structure License.Within (L L' : License) : Prop where
  body : ∀ n, L.body n → L'.body n
  field : ∀ n x, L.field n x → L'.field n x
  reset : ∀ n, L.reset n → L'.reset n

namespace Syntax

/-- What may have become of a field: it is the field it was, and it has its value unless that may be
taken. -/
structure Field.Remains (L : License) (x y : Field) : Prop where
  mark : y.mark = x.mark
  name : y.name = x.name
  flags : y.flags = x.flags
  type : y.type = x.type
  value : y.value = x.value ∨ L.reset x.number ∧ y.value = .missing

/-- What may have become of some fields, in whatever order: no field is lost, and none is new. -/
def RemainAll (L : License) (xs ys : List Field) : Prop :=
  ∃ zs, List.Forall₂ (Field.Remains L) xs zs ∧ zs.Perm ys

section Remains

variable {L : License} {x y z : Field} {xs ys zs xs' ys' : List Field}

theorem Field.Remains.refl (x : Field) : x.Remains L x := ⟨rfl, rfl, rfl, rfl, .inl rfl⟩

theorem Field.Remains.number (h : x.Remains L y) : y.number = x.number := congrArg Mark.id h.mark

theorem Field.Remains.trans (h : x.Remains L y) (h' : y.Remains L z) : x.Remains L z where
  mark := h'.mark.trans h.mark
  name := h'.name.trans h.name
  flags := h'.flags.trans h.flags
  type := h'.type.trans h.type
  value := by
    rcases h'.value with same | ⟨taken, none_⟩
    · rw [same]
      exact h.value
    · exact .inr ⟨h.number ▸ taken, none_⟩

theorem Field.Remains.within {L' : License} (h : x.Remains L y) (within : L.Within L') :
    x.Remains L' y where
  mark := h.mark
  name := h.name
  flags := h.flags
  type := h.type
  value := h.value.imp_right fun taken => ⟨within.reset _ taken.1, taken.2⟩

namespace RemainAll

theorem within {L' : License} (h : RemainAll L xs ys) (within : L.Within L') :
    RemainAll L' xs ys := by
  obtain ⟨zs, same, perm⟩ := h
  exact ⟨zs, same.imp fun _ _ remains => remains.within within, perm⟩

theorem of_perm (h : xs.Perm ys) : RemainAll L xs ys :=
  ⟨xs, List.forall₂_same.mpr fun x _ => .refl x, h⟩

theorem refl (xs : List Field) : RemainAll L xs xs := .of_perm (.refl xs)

theorem trans (h : RemainAll L xs ys) (h' : RemainAll L ys zs) : RemainAll L xs zs := by
  obtain ⟨as, same, perm⟩ := h
  obtain ⟨bs, same', perm'⟩ := h'
  obtain ⟨cs, same'', perm''⟩ := List.perm_comp_forall₂ perm same'
  refine ⟨cs, ?_, perm''.trans perm'⟩
  clear perm perm' perm'' same'
  induction same generalizing cs with
  | nil =>
    cases same''
    exact .nil
  | cons first _ ih =>
    cases same'' with
    | cons next rest => exact .cons (first.trans next) (ih _ rest)

theorem append (h : RemainAll L xs ys) (h' : RemainAll L xs' ys') :
    RemainAll L (xs ++ xs') (ys ++ ys') := by
  obtain ⟨as, same, perm⟩ := h
  obtain ⟨bs, same', perm'⟩ := h'
  exact ⟨as ++ bs, List.rel_append same same', perm.append perm'⟩

/-- No field is lost. -/
theorem kept (h : RemainAll L xs ys) (hx : x ∈ xs) : ∃ y ∈ ys, x.Remains L y := by
  obtain ⟨zs, same, perm⟩ := h
  suffices ∃ z ∈ zs, x.Remains L z by
    obtain ⟨z, hz, remains⟩ := this
    exact ⟨z, perm.mem_iff.mp hz, remains⟩
  clear perm
  induction same with
  | nil => exact absurd hx List.not_mem_nil
  | cons first _ ih =>
    rcases List.mem_cons.mp hx with rfl | hx
    · exact ⟨_, List.mem_cons_self, first⟩
    · obtain ⟨z, hz, remains⟩ := ih hx
      exact ⟨z, List.mem_cons_of_mem _ hz, remains⟩

/-- No field is new. -/
theorem source (h : RemainAll L xs ys) (hy : y ∈ ys) : ∃ x ∈ xs, x.Remains L y := by
  obtain ⟨zs, same, perm⟩ := h
  have hz := perm.mem_iff.mpr hy
  clear perm hy
  induction same with
  | nil => exact absurd hz List.not_mem_nil
  | cons first _ ih =>
    rcases List.mem_cons.mp hz with rfl | hz
    · exact ⟨_, List.mem_cons_self, first⟩
    · obtain ⟨x, hx, remains⟩ := ih hz
      exact ⟨x, List.mem_cons_of_mem _ hx, remains⟩

/-- What stays of each field stays of all of them. -/
theorem map {β : Type} (h : RemainAll L xs ys) (f : Field → β)
    (stays : ∀ {x y : Field}, x.Remains L y → f y = f x) : (ys.map f).Perm (xs.map f) := by
  obtain ⟨zs, same, perm⟩ := h
  refine (perm.symm.map _).trans (.of_eq ?_)
  clear perm
  induction same with
  | nil => rfl
  | cons first _ ih => rw [List.map_cons, List.map_cons, stays first, ih]

end RemainAll

end Remains

namespace Tree

/-- What a declaration may have become that has got some fields, where new declarations have numbers
from `next` on. -/
structure Follows (L : License) (number next : Nat) (added : List String) (d d' : Tree) : Prop where
  suits : ∀ kind, d.Suits kind → d'.Suits kind
  head : d.Suits .method → ¬L.body number → d'.head = d.head
  params : (∀ p ∈ d.params, p.isVariable) → ∀ p ∈ d'.params, p.isVariable
  fields : d.Suits .type → ∃ new, (∀ x ∈ new, next ≤ x.number ∧ L.field number x) ∧
    new.map (·.name) = added ∧ RemainAll L (d.fieldsIn ++ new) d'.fieldsIn

variable {L : License} {i j next : Nat} {added added' : List String} {d d' d₀ t : Tree}
  {ds ts : List Tree} {f g : Tree → Tree}

/-- A declaration that has got no fields. -/
theorem Follows.none (suits : ∀ kind, d.Suits kind → d'.Suits kind)
    (head : d.Suits .method → ¬L.body i → d'.head = d.head)
    (params : (∀ p ∈ d.params, p.isVariable) → ∀ p ∈ d'.params, p.isVariable)
    (fields : d.Suits .type → RemainAll L d.fieldsIn d'.fieldsIn) : d.Follows L i next [] d' where
  suits := suits
  head := head
  params := params
  fields own := ⟨[], nofun, rfl, by rw [List.append_nil]; exact fields own⟩

theorem Follows.refl (d : Tree) : d.Follows L i next [] d :=
  .none (fun _ h => h) (fun _ _ => rfl) (fun h => h) fun _ => .refl _

theorem Follows.trans {d'' : Tree} {next' : Nat} (h : d.Follows L i next added d')
    (h' : d'.Follows L i next' added' d'') (le : next ≤ next') :
    d.Follows L i next (added ++ added') d'' where
  suits kind own := h'.suits kind (h.suits kind own)
  head own kept := (h'.head (h.suits _ own) kept).trans (h.head own kept)
  params own := h'.params (h.params own)
  fields own := by
    obtain ⟨new, fresh, names, remain⟩ := h.fields own
    obtain ⟨new', fresh', names', remain'⟩ := h'.fields (h.suits _ own)
    refine ⟨new ++ new', fun x hx => ?_, by rw [List.map_append, names, names'], ?_⟩
    · rcases List.mem_append.mp hx with hx | hx
      · exact fresh x hx
      · exact ⟨Nat.le_trans le (fresh' x hx).1, (fresh' x hx).2⟩
    · rw [← List.append_assoc]
      exact (remain.append (.refl new')).trans remain'

/-- What follows under a license follows under one that allows more. -/
theorem Follows.within {L' : License} (h : d.Follows L i next added d') (within : L.Within L') :
    d.Follows L' i next added d' where
  suits := h.suits
  head own kept := h.head own (mt (within.body i) kept)
  params := h.params
  fields own := by
    obtain ⟨new, fresh, names, remain⟩ := h.fields own
    exact ⟨new, fun x hx => (fresh x hx).imp_right (within.field i x), names, remain.within within⟩

/-- No field is lost. -/
theorem Follows.kept (h : d.Follows L i next added d') (type : d.Suits .type) :
    ∀ x ∈ d.fieldsIn, ∃ y ∈ d'.fieldsIn, x.Remains L y := by
  obtain ⟨new, -, -, remain⟩ := h.fields type
  exact fun x hx => remain.kept (List.mem_append_left _ hx)

/-- Every field was there, or is a new one. -/
theorem Follows.grown (h : d.Follows L i next added d') (type : d.Suits .type) :
    ∀ y ∈ d'.fieldsIn, ∃ x, x.Remains L y ∧
      (x ∈ d.fieldsIn ∨ next ≤ x.number ∧ L.field i x) := by
  obtain ⟨new, fresh, -, remain⟩ := h.fields type
  intro y hy
  obtain ⟨x, hx, same⟩ := remain.source hy
  exact ⟨x, same, (List.mem_append.mp hx).imp_right (fresh x)⟩

/-- The names of the fields are those there were and those that were added. -/
theorem Follows.names (h : d.Follows L i next added d') (type : d.Suits .type) :
    (d'.fieldsIn.map (·.name)).Perm (d.fieldsIn.map (·.name) ++ added) := by
  obtain ⟨new, -, rfl, remain⟩ := h.fields type
  rw [← List.map_append]
  exact remain.map _ Field.Remains.name

/-! ## Declarations in declarations -/

/-- A type, a method or a variable. -/
def isDeclaration : Tree → Bool
  | classDecl .. | methodDecl .. | varDecl .. => true
  | _ => false

/-- The members of a type, or the parameters of a method. -/
def inner (t : Tree) : List Tree := t.defs ++ t.params

/-- What has a number stands before what is in it. -/
theorem numbered_eq (h : t.isDeclaration) : numbered t = t :: numberedAll t.inner := by
  cases t
  case classDecl m n ms tps e is ds =>
    change _ = _ :: numberedAll (ds ++ [])
    rw [List.append_nil]
    rfl
  case methodDecl | varDecl => rfl
  all_goals exact absurd h Bool.false_ne_true

theorem isDeclaration_of_numbered_of_numberedAll :
    (∀ t, ∀ d ∈ numbered t, d.isDeclaration) ∧ ∀ ts, ∀ d ∈ numberedAll ts, d.isDeclaration := by
  refine numbered.mutual_induct (fun t => ∀ d ∈ numbered t, d.isDeclaration)
    (fun ts => ∀ d ∈ numberedAll ts, d.isDeclaration) ?unit ?type ?method ?var ?other ?nil ?cons
  case unit => exact fun _ _ _ _ _ ih => ih
  case type | method =>
    intros
    rename_i ih d member
    rcases List.mem_cons.mp member with rfl | member
    · rfl
    · exact ih d member
  case var =>
    intro m n ms t i d member
    rw [List.mem_singleton.mp member]
    rfl
  case other =>
    intro t h₁ h₂ h₃ h₄ d member
    rw [numbered.eq_5 t h₁ h₂ h₃ h₄] at member
    exact absurd member List.not_mem_nil
  case nil => exact fun d member => absurd member List.not_mem_nil
  case cons =>
    intro t ts here there d member
    rcases List.mem_append.mp member with member | member
    · exact here d member
    · exact there d member

theorem isDeclaration_of_mem (h : d ∈ numberedAll ts) : d.isDeclaration :=
  isDeclaration_of_numbered_of_numberedAll.2 ts d h

/-- What is in a declaration is in what the declaration is in. -/
theorem numbered_subset_numbered_subset :
    (∀ t, ∀ d ∈ numbered t, numbered d ⊆ numbered t) ∧
      ∀ ts, ∀ d ∈ numberedAll ts, numbered d ⊆ numberedAll ts := by
  refine numbered.mutual_induct (fun t => ∀ d ∈ numbered t, numbered d ⊆ numbered t)
    (fun ts => ∀ d ∈ numberedAll ts, numbered d ⊆ numberedAll ts)
    ?unit ?type ?method ?var ?other ?nil ?cons
  case unit => exact fun _ _ _ _ _ ih => ih
  case type | method =>
    intros
    rename_i ih d member
    rcases List.mem_cons.mp member with rfl | member
    · exact List.Subset.refl _
    · exact List.subset_cons_of_subset _ (ih d member)
  case var =>
    intro m n ms t i d member
    rw [List.mem_singleton.mp member]
    exact List.Subset.refl _
  case other =>
    intro t h₁ h₂ h₃ h₄ d member
    rw [numbered.eq_5 t h₁ h₂ h₃ h₄] at member
    exact absurd member List.not_mem_nil
  case nil => exact fun d member => absurd member List.not_mem_nil
  case cons =>
    intro t ts here there d member
    rcases List.mem_append.mp member with member | member
    · exact List.Subset.trans (here d member) (List.subset_append_left _ _)
    · exact List.Subset.trans (there d member) (List.subset_append_right _ _)

theorem numbered_subset (h : d ∈ numberedAll ts) : numbered d ⊆ numberedAll ts :=
  numbered_subset_numbered_subset.2 ts d h

theorem numbered_subset_of_mem (h : t ∈ ts) : numbered t ⊆ numberedAll ts := by
  induction ts with
  | nil => exact absurd h List.not_mem_nil
  | cons x xs ih =>
    rcases List.mem_cons.mp h with rfl | h
    · exact List.subset_append_left _ _
    · exact List.Subset.trans (ih h) (List.subset_append_right _ _)

/-- A declaration in a declaration. -/
theorem mem_numberedAll_of_inner (outer : d ∈ numberedAll ts) (h : t ∈ d.inner)
    (declared : t.isDeclaration) : t ∈ numberedAll ts := by
  refine numbered_subset outer ?_
  rw [numbered_eq (isDeclaration_of_mem outer)]
  refine List.mem_cons_of_mem _ (numbered_subset_of_mem h ?_)
  rw [numbered_eq declared]
  exact List.mem_cons_self

mutual

/-- The numbers of the declarations in a tree, each with the number of the declaration around it. -/
def owners (outer : Nat) : Tree → List (Nat × Nat)
  | unit _ _ _ _ ds => ownersAll outer ds
  | classDecl m _ _ _ _ _ ds => (m.id, outer) :: ownersAll m.id ds
  | methodDecl m _ _ _ _ ps _ _ => (m.id, outer) :: ownersAll m.id ps
  | varDecl m .. => [(m.id, outer)]
  | _ => []

/-- The numbers of the declarations in the trees of a list, each with that of the one around it. -/
def ownersAll (outer : Nat) : List Tree → List (Nat × Nat)
  | [] => []
  | t :: ts => owners outer t ++ ownersAll outer ts

end

mutual

theorem fst_owners (o : Nat) (t : Tree) : (owners o t).map Prod.fst = numbers t := by
  cases t with
  | unit _ _ _ _ ds => exact fst_ownersAll o ds
  | classDecl m _ _ _ _ _ ds => exact congrArg (m.id :: ·) (fst_ownersAll m.id ds)
  | methodDecl m _ _ _ _ ps _ _ => exact congrArg (m.id :: ·) (fst_ownersAll m.id ps)
  | _ => rfl

theorem fst_ownersAll (o : Nat) (ts : List Tree) :
    (ownersAll o ts).map Prod.fst = numbersAll ts := by
  cases ts with
  | nil => rfl
  | cons t ts =>
    rw [ownersAll, List.map_append, fst_owners o t, fst_ownersAll o ts, numbersAll_cons]

end

theorem head_mem_owners (o : Nat) (declared : t.isDeclaration) : (t.id, o) ∈ owners o t := by
  cases t
  case classDecl | methodDecl | varDecl => exact List.mem_cons_self
  all_goals exact absurd declared Bool.false_ne_true

theorem mem_ownersAll (o : Nat) (member : t ∈ ts) (declared : t.isDeclaration) :
    (t.id, o) ∈ ownersAll o ts := by
  induction ts with
  | nil => exact absurd member List.not_mem_nil
  | cons x xs ih =>
    rcases List.mem_cons.mp member with rfl | member
    · exact List.mem_append_left _ (head_mem_owners o declared)
    · exact List.mem_append_right _ (ih member)

mutual

/-- What is declared in a declaration is listed with the number of that declaration. -/
theorem mem_owners_of_inner {d x : Tree} (o : Nat) (t : Tree) (member : d ∈ numbered t)
    (hx : x ∈ d.inner) (declared : x.isDeclaration) : (x.id, d.id) ∈ owners o t := by
  cases t with
  | unit _ _ _ _ ds => exact mem_ownersAll_of_inner o ds member hx declared
  | classDecl m n ms tps e is ds =>
    refine List.mem_cons_of_mem _ ?_
    rcases List.mem_cons.mp member with rfl | member
    · exact mem_ownersAll _ ((List.mem_append.mp hx).resolve_right List.not_mem_nil) declared
    · exact mem_ownersAll_of_inner m.id ds member hx declared
  | methodDecl m n ms tps r ps ts b =>
    refine List.mem_cons_of_mem _ ?_
    rcases List.mem_cons.mp member with rfl | member
    · exact mem_ownersAll _ hx declared
    · exact mem_ownersAll_of_inner m.id ps member hx declared
  | varDecl =>
    rw [List.mem_singleton.mp member] at hx
    exact absurd hx List.not_mem_nil
  | _ => exact absurd member List.not_mem_nil

/-- The same for the trees of a list. -/
theorem mem_ownersAll_of_inner {d x : Tree} (o : Nat) (ts : List Tree)
    (member : d ∈ numberedAll ts) (hx : x ∈ d.inner) (declared : x.isDeclaration) :
    (x.id, d.id) ∈ ownersAll o ts := by
  cases ts with
  | nil => exact absurd member List.not_mem_nil
  | cons t ts =>
    rcases List.mem_append.mp member with member | member
    · exact List.mem_append_left _ (mem_owners_of_inner o t member hx declared)
    · exact List.mem_append_right _ (mem_ownersAll_of_inner o ts member hx declared)

end

/-- Two declarations that have something with the same number in them are the same. -/
theorem id_eq_of_inner (distinct : (numbersAll ts).Nodup) (h : d ∈ numberedAll ts)
    (h' : d' ∈ numberedAll ts) {x x' : Tree} (hx : x ∈ d.inner) (hx' : x' ∈ d'.inner)
    (declared : x.isDeclaration) (declared' : x'.isDeclaration) (same : x.id = x'.id) :
    d.id = d'.id := by
  have unique : ((ownersAll 0 ts).map Prod.fst).Nodup := by
    rwa [fst_ownersAll]
  have here := mem_ownersAll_of_inner 0 ts h hx declared
  have there := mem_ownersAll_of_inner 0 ts h' hx' declared'
  exact congrArg Prod.snd (List.inj_on_of_nodup_map unique here there same)

/-! ## Changes of one declaration -/

theorem changeIn_eq_map (n : Nat) (f : Tree → Tree) (ts : List Tree) :
    changeIn n f ts = ts.map (change n f) := by
  induction ts with
  | nil => rfl
  | cons t ts ih => rw [changeIn, ih, List.map_cons]

/-- A member that is the same field after a change, or still none. -/
def Remains (L : License) (t t' : Tree) : Prop :=
  Option.Rel (Field.Remains L) t.field? t'.field?

theorem Remains.of_eq (h : t.field? = d.field?) : t.Remains L d := by
  rw [Remains, h]
  cases d.field? with
  | none => exact .none
  | some x => exact .some (.refl x)

/-- What is altered is still the declaration it was. -/
theorem Alters.follows (h : d.Alters L i d') : d.Follows L i next [] d' := by
  cases h with
  | same => exact .refl _
  | type =>
    exact .none (fun kind own => by cases kind <;> exact own) (fun own => own.elim) (fun own => own)
      fun _ => .refl _
  | method abstract =>
    refine .none (fun kind own => by cases kind <;> exact own) (fun _ _ => ?_) (fun own => own)
      fun own => own.elim
    simp only [head, isConstructor, mods, abstract]
    rfl
  | body licensed =>
    exact .none (fun kind own => by cases kind <;> exact own) (fun _ kept => absurd licensed kept)
      (fun own => own) fun own => own.elim
  | var | param | reset =>
    exact .none (fun kind own => by cases kind <;> exact own) (fun own => own.elim) (fun own => own)
      fun own => own.elim

/-- A member that is altered, unless it is a field that is altered as a parameter. -/
theorem Alters.remains (h : t.Alters L j d) (number : t.isDeclaration → t.id = j)
    (loose : L.param j → t.field? = none) : t.Remains L d := by
  cases h with
  | var same =>
    refine .of_eq ?_
    rw [field?, field?, same]
  | param licensed constant =>
    refine .of_eq ?_
    have none_ := loose licensed
    rw [field?] at none_ ⊢
    rw [field?, constant]
    split at none_
    · next constant => rw [if_pos constant, if_pos constant]
    · exact nomatch none_
  | reset licensed =>
    rw [Remains, field?, field?]
    split
    · exact .none
    · rw [← number rfl] at licensed
      exact .some ⟨rfl, rfl, rfl, rfl, .inr ⟨licensed, rfl⟩⟩
  | _ => exact .of_eq rfl

theorem Alters.isVariable (h : t.Alters L j d) (own : t.isVariable) : d.isVariable := by
  cases h <;> exact own

theorem remainAll_map (h : ∀ t ∈ ds, t.Remains L (g t)) :
    RemainAll L (ds.filterMap field?) ((ds.map g).filterMap field?) := by
  refine ⟨_, ?_, .refl _⟩
  refine List.rel_filterMap (R := Remains L) (fun _ _ remains => remains) ?_
  exact List.forall₂_map_right_iff.mpr (List.forall₂_same.mpr h)

/-- A change of a member shows in the member that is changed. -/
theorem remains_change (h : t.isDeclaration → t.id = j → t.Remains L (f t)) :
    t.Remains L (change j f t) := by
  cases t
  case classDecl =>
    rw [change]
    split
    · next hit => exact h rfl (eq_of_beq hit)
    · exact .of_eq rfl
  case methodDecl =>
    rw [change]
    split
    · next hit => exact h rfl (eq_of_beq hit)
    · exact .of_eq rfl
  case varDecl =>
    rw [change]
    split
    · next hit => exact h rfl (eq_of_beq hit)
    · exact .of_eq rfl
  all_goals exact .of_eq rfl

theorem isVariable_change (h : t.isDeclaration → t.id = j → (f t).isVariable)
    (own : t.isVariable) : (change j f t).isVariable := by
  cases t
  case varDecl =>
    rw [change]
    split
    · next hit => exact h rfl (eq_of_beq hit)
    · rfl
  all_goals exact absurd own Bool.false_ne_true

/-- A change of a declaration in another one. -/
theorem follows_through (other : d.id ≠ j)
    (members : ∀ t ∈ d.defs, t.isDeclaration → t.id = j → t.Remains L (f t))
    (params : ∀ t ∈ d.params, t.isDeclaration → t.id = j → t.isVariable → (f t).isVariable) :
    d.Follows L i next [] (change j f d) := by
  cases d
  case classDecl m n ms tps e is ds =>
    have miss : ¬(m.id == j) = true := fun hit => other (eq_of_beq hit)
    rw [change, if_neg miss, changeIn_eq_map]
    exact .none (fun kind own => by cases kind <;> exact own) (fun own => own.elim) (fun own => own)
      fun _ => remainAll_map fun t ht => remains_change (members t ht)
  case methodDecl m n ms tps r ps ts b =>
    have miss : ¬(m.id == j) = true := fun hit => other (eq_of_beq hit)
    rw [change, if_neg miss, changeIn_eq_map]
    refine .none (fun kind own => by cases kind <;> exact own) (fun _ _ => rfl) (fun own p hp => ?_)
      fun own => own.elim
    obtain ⟨q, hq, rfl⟩ := List.mem_map.mp hp
    have variable_ := own q hq
    exact isVariable_change (fun declared same => params q hq declared same variable_) variable_
  case varDecl m n ms t i =>
    have miss : ¬(m.id == j) = true := fun hit => other (eq_of_beq hit)
    rw [change, if_neg miss]
    exact .refl _
  case unit m file p is ds =>
    rw [change]
    exact .none (fun kind own => by cases kind <;> exact own) (fun own => own.elim) (fun own => own)
      fun own => own.elim
  all_goals exact .refl _

/-- A look-up after a change of one declaration finds what follows what it found before, if this is
so in the declaration that changes, and if that is still what it was as a part of the declaration
that is looked up. -/
theorem follows_changeIn (distinct : (numbersAll ts).Nodup) (found₀ : findIn? j ts = some d₀)
    (found : findIn? i ts = some d)
    (made : Option.Rel (Follows L i next added) (find? i d₀) (find? i (f d₀)))
    (elsewhere : i ≠ j → added = [])
    (member : d₀ ∈ d.defs → d₀.Remains L (f d₀))
    (param : d₀ ∈ d.params → d₀.isVariable → (f d₀).isVariable) :
    ∃ d', findIn? i (changeIn j f ts) = some d' ∧ d.Follows L i next added d' := by
  have related : Option.Rel (Follows L i next added) (findIn? i ts) (findIn? i (changeIn j f ts)) := by
    refine findIn_changeIn_rel (fun x member same => ?_) fun x outer same other => ?_
    · rwa [eq_of_findIn distinct found₀ member same]
    · obtain rfl := eq_of_findIn distinct found outer same
      rw [elsewhere other]
      have whole (t : Tree) (ht : t ∈ x.inner) (declared : t.isDeclaration) (hit : t.id = j) :
          t = d₀ :=
        eq_of_findIn distinct found₀ (mem_numberedAll_of_inner outer ht declared) hit
      refine follows_through (by rw [same]; exact other) (fun t ht declared hit => ?_)
        fun t ht declared hit => ?_
      · obtain rfl := whole t (List.mem_append_left _ ht) declared hit
        exact member ht
      · obtain rfl := whole t (List.mem_append_right _ ht) declared hit
        exact param ht
  rw [found] at related
  cases after : findIn? i (changeIn j f ts) with
  | none => rw [after] at related; exact nomatch related
  | some d' =>
    rw [after] at related
    cases related with
    | some follows => exact ⟨d', rfl, follows⟩

end Tree

end Syntax

end Weaver
