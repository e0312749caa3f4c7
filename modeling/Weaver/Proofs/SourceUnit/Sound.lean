import Mathlib.Data.List.Nodup
import Mathlib.Data.List.Perm.Basic
import Weaver.Proofs.SourceUnit.Member
import Weaver.Proofs.SourceUnit.Registered
import Weaver.Proofs.SourceUnit.Trim
/-!
Units in which elements can be told apart.

In a sound unit no two declarations have the same number, and the elements that were registered
first are still what they were. What the unit was at the beginning is given by its registry then;
elements that are registered later are not spoken of. For each way in which a declaration can change,
the declarations of all elements follow those before the change (`SourceUnit.Sound.pursues_alter`
and the like), and the numbers of the unit are those it had and new ones.
-/
set_option autoImplicit false

namespace Weaver

open Weaver.Syntax (Tree Mark Flags Field)
open Weaver.Syntax.Tree

/-- All elements are still registered, with other elements in them. -/
def Registry.Lasts (r r' : Registry) : Prop :=
  ∀ ⦃k : Key⦄ ⦃n : Node⦄, r.node? k = some n →
    ∃ keys, r'.node? k = some { n with children := keys }

namespace SourceUnit

/-- The trees in which the declarations of a unit stand. -/
def pool (u : SourceUnit) : List Tree := u.tree :: u.detached

/-- A number that is given away, but to no field of the types that were registered first. -/
structure Loose (r : Registry) (u : SourceUnit) (i : Nat) : Prop where
  spent : i < u.next
  apart : ∀ {k : Key} {n : Node}, r.node? k = some n → n.kind = .type →
    ∀ x ∈ (u.decl k).fieldsIn, x.number ≠ i

/-- A unit in which the elements that were registered first have their declarations. -/
structure Founded (r : Registry) (u : SourceUnit) : Prop where
  lasts : r.Lasts u.registry
  /-- Only the unit itself has no declaration with a number. -/
  root : ∀ {k : Key} {n : Node}, u.registry.node? k = some n → n.kind = .unit → n.decl = 0
  outermost : ∃ m f p is ds, u.tree = .unit m f p is ds
  started : 0 < u.next
  distinct : (numbersAll u.pool).Nodup
  bounds : ∀ i ∈ numbersAll u.pool, 0 < i ∧ i < u.next
  /-- Every element has its declaration. -/
  there : ∀ {k : Key} {n : Node}, r.node? k = some n → n.kind ≠ .unit →
    ∃ d, findIn? n.decl u.pool = some d ∧ d.Suits n.kind
  /-- The parameters of a method are variables. -/
  vars : ∀ {k : Key} {n : Node}, r.node? k = some n → n.kind = .method →
    ∀ p ∈ (u.decl k).params, p.isVariable

/-- A unit in which the elements that were registered first are told apart from others. -/
structure Sound (r : Registry) (u : SourceUnit) : Prop extends Founded r u where
  /-- The registered fields of a type are fields of its declaration. -/
  fields : ∀ {k : Key} {n m : Node}, r.node? k = some n → n.kind = .type →
    u.registry.node? k = some m → ∀ c ∈ m.children, ∃ n', u.registry.node? c = some n' ∧
      (n'.kind = .field → ∃ x ∈ (u.decl k).fieldsIn, x.number = n'.decl)
  /-- The registered methods of a type are no fields. -/
  methods : ∀ {k c : Key} {n m n' : Node}, r.node? k = some n → n.kind = .type →
    u.registry.node? k = some m → c ∈ m.children → u.registry.node? c = some n' →
    n'.kind = .method → u.Loose r n'.decl
  /-- The registered parameters of a method are no fields. -/
  params : ∀ {k : Key} {n m : Node}, r.node? k = some n → n.kind = .method →
    u.registry.node? k = some m → ∀ c ∈ m.children, ∃ n', u.registry.node? c = some n' ∧
      u.Loose r n'.decl

section Lookup

variable {r : Registry} {u u' : SourceUnit} {k : Key} {n : Node} {d : Tree} {f : Tree → Tree}

theorem pool_changeDecl (node : u.registry.node? k = some n) (f : Tree → Tree) :
    (u.changeDecl k f).pool = changeIn n.decl f u.pool := by
  rw [changeDecl, node]
  rfl

/-- What is found by the number of an element is its declaration. -/
theorem decl_of_findIn (node : u.registry.node? k = some n) (inner : n.kind ≠ .unit)
    (found : findIn? n.decl u.pool = some d) : u.decl k = d := by
  rw [pool, findIn?, findIn_eq] at found
  rw [decl_eq node inner, found]
  rfl

theorem Founded.found (founded : u.Founded r) (node : r.node? k = some n) (inner : n.kind ≠ .unit) :
    findIn? n.decl u.pool = some (u.decl k) ∧ (u.decl k).Suits n.kind := by
  obtain ⟨d, found, suits⟩ := founded.there node inner
  obtain ⟨keys, now⟩ := founded.lasts node
  obtain rfl := decl_of_findIn now inner found
  exact ⟨found, suits⟩

/-- An element has its declaration, or a change of it changes nothing. -/
theorem Sound.found_or_absent (sound : u.Sound r) (node : u.registry.node? k = some n) :
    findIn? n.decl u.pool = some (u.decl k) ∨ n.decl ∉ numbersAll u.pool := by
  by_cases outermost : n.kind = .unit
  · refine .inr fun member => ?_
    have positive := (sound.bounds _ member).1
    rw [sound.root node outermost] at positive
    exact absurd positive (Nat.lt_irrefl 0)
  · cases found : findIn? n.decl u.pool with
    | none => exact .inr (findIn_eq_none.mp found)
    | some d => exact .inl (by rw [decl_of_findIn node outermost found])

/-- A type or a method that an element is declared by is found by its number. -/
theorem Sound.found_of_declared (sound : u.Sound r)
    (declared : (u.decl k).isMethod ∨ isClassDecl (u.decl k)) :
    ∃ n, u.registry.node? k = some n ∧ findIn? n.decl u.pool = some (u.decl k) := by
  have some_ : u.decl k ≠ .missing := by
    intro none_
    rw [none_] at declared
    exact declared.elim Bool.false_ne_true Bool.false_ne_true
  cases node : u.registry.node? k with
  | none => exact absurd (by rw [decl, node]) some_
  | some n =>
    refine ⟨n, rfl, ?_⟩
    by_cases outermost : n.kind = .unit
    · obtain ⟨_, _, _, _, _, unit_⟩ := sound.outermost
      rw [decl_unit node outermost, unit_] at declared
      exact (declared.elim Bool.false_ne_true Bool.false_ne_true).elim
    · cases found : findIn? n.decl u.pool with
      | some d => rw [decl_of_findIn node outermost found]
      | none =>
        rw [pool, findIn?, findIn_eq] at found
        exact absurd (by rw [decl_eq node outermost, found]; rfl) some_

/-- A declaration that changes in its place is found there. -/
theorem Sound.found_changeDecl (sound : u.Sound r) (element : r.node? k = some n)
    (inner : n.kind ≠ .unit) (declared : (f (u.decl k)).isDeclaration)
    (id : (f (u.decl k)).id = (u.decl k).id) :
    findIn? n.decl (u.changeDecl k f).pool = some (f (u.decl k)) := by
  obtain ⟨keys, node⟩ := sound.lasts element
  have found := (sound.found element inner).1
  have related : Option.Rel (fun _ d' => d' = f (u.decl k)) (findIn? n.decl u.pool)
      (findIn? n.decl (u.changeDecl k f).pool) := by
    rw [pool_changeDecl node f]
    refine findIn_changeIn_rel (fun x member same => ?_) fun _ _ _ other => absurd rfl other
    obtain rfl := eq_of_findIn sound.distinct found member same
    rw [find_declared (isDeclaration_of_mem member), find_declared declared, id, same,
      if_pos (beq_self_eq_true _), if_pos (beq_self_eq_true _)]
    exact .some rfl
  rw [found] at related
  cases after : findIn? n.decl (u.changeDecl k f).pool with
  | none => rw [after] at related; exact nomatch related
  | some d' =>
    rw [after] at related
    cases related with
    | some same => rw [same]

/-- What an element is declared by after its declaration has changed. -/
theorem Sound.decl_changeDecl (sound : u.Sound r) (element : r.node? k = some n)
    (inner : n.kind ≠ .unit) (declared : (f (u.decl k)).isDeclaration)
    (id : (f (u.decl k)).id = (u.decl k).id) : (u.changeDecl k f).decl k = f (u.decl k) := by
  obtain ⟨keys, node⟩ := sound.lasts element
  have found := sound.found_changeDecl element inner declared id
  exact decl_of_findIn (n := { n with children := keys })
    ((congrArg (·.node? k) (changeDecl_registry u k f)).trans node) inner found

end Lookup

/-! ## What declarations become in a step -/

section Follow

variable {L : License} {r : Registry} {u v : SourceUnit} {k k' m : Key} {n n' : Node} {d t : Tree}
  {added : List String} {f : Tree → Tree} {place : List Tree → List Tree} {aside : List Tree}

/-- A field has the number of its declaration. -/
theorem number_of_field {x : Field} (seen : t.field? = some x) : x.number = t.id := by
  cases t
  case varDecl =>
    rw [field?] at seen
    split at seen
    · cases seen
    · rw [← Option.some.inj seen]
      rfl
  all_goals cases seen

/-- An element whose declaration has members is a type. -/
theorem kind_of_member {kind : NodeKind} (suits : d.Suits kind) (member : t ∈ d.defs) :
    kind = .type := by
  cases d
  case classDecl => cases kind <;> first | rfl | exact suits.elim
  case unit => cases kind <;> exact suits.elim
  all_goals exact absurd member List.not_mem_nil

/-- What an element has become that has got some fields, by the number of its declaration. -/
def Pursues (L : License) (u : SourceUnit) (added : List String) (v : SourceUnit) (k : Key)
    (number : Nat) : Prop :=
  ∃ d', findIn? number v.pool = some d' ∧ (u.decl k).Follows L number u.next added d'

theorem Sound.pursues_same (sound : u.Sound r) (element : r.node? k = some n)
    (inner : n.kind ≠ .unit) (same : ∀ i, findIn? i v.pool = findIn? i u.pool) :
    u.Pursues L [] v k n.decl :=
  ⟨u.decl k, (same _).trans (sound.found element inner).1, .refl _⟩

/-- A declaration changes in its place. -/
theorem Sound.pursues_changeDecl (sound : u.Sound r) (node : u.registry.node? k = some n)
    (element : r.node? k' = some n') (inner : n'.kind ≠ .unit)
    (made : (u.decl k).isDeclaration → (u.decl k).id = n.decl →
      Option.Rel (Follows L n'.decl u.next added) (find? n'.decl (u.decl k))
        (find? n'.decl (f (u.decl k))))
    (elsewhere : n'.decl ≠ n.decl → added = []) (absent : n.decl ∉ numbersAll u.pool → added = [])
    (member : (u.decl k).id = n.decl → u.decl k ∈ (u.decl k').defs →
      (u.decl k).Remains L (f (u.decl k)))
    (param : (u.decl k).isVariable → (f (u.decl k)).isVariable) :
    u.Pursues L added (u.changeDecl k f) k' n'.decl := by
  have changed := pool_changeDecl node f
  rcases sound.found_or_absent node with found | missing
  · obtain ⟨listed, same⟩ := mem_of_findIn found
    rw [Pursues, changed]
    exact follows_changeIn sound.distinct found (sound.found element inner).1
      (made (isDeclaration_of_mem listed) same) elsewhere (member same) fun _ => param
  · rw [absent missing]
    exact sound.pursues_same element inner fun i => by rw [changed, changeIn_absent missing]

theorem Sound.pursues_alter (sound : u.Sound r) (loose : ∀ i, L.param i → u.Loose r i)
    (node : u.registry.node? k = some n) (alters : (u.decl k).Alters L n.decl (f (u.decl k)))
    (element : r.node? k' = some n') (inner : n'.kind ≠ .unit) :
    u.Pursues L [] (u.changeDecl k f) k' n'.decl := by
  refine sound.pursues_changeDecl node element inner
    (fun declared hit => alters.find declared hit _) (fun _ => rfl) (fun _ => rfl)
    (fun same member => ?_) alters.isVariable
  refine alters.remains (fun _ => same) fun changed => ?_
  cases seen : (u.decl k).field? with
  | none => rfl
  | some x =>
    -- a field of a type that was registered first is not changed as a parameter
    have type := kind_of_member (sound.found element inner).2 member
    have number : x.number = n.decl := by rw [← same, number_of_field seen]
    exact absurd number
      ((loose _ changed).apart element type x (List.mem_filterMap.mpr ⟨_, member, seen⟩))

theorem numbers_number (u : SourceUnit) (t : Tree) :
    (numbers (t.number u.next).1).Nodup ∧
      ∀ i ∈ numbers (t.number u.next).1, u.next ≤ i ∧ i < (u.adopting t).next := by
  have between := number_between.1 u.next t
  exact ⟨between.increase.imp Nat.ne_of_lt, fun i hi => ⟨between.lower i hi, between.upper i hi⟩⟩

theorem next_le_adopting (u : SourceUnit) (t : Tree) : u.next ≤ (u.adopting t).next :=
  (number_between.1 u.next t).le

/-- An element has a number that was given away. -/
theorem Sound.lt_next (sound : u.Sound r) (element : r.node? k = some n) (inner : n.kind ≠ .unit) :
    n.decl < u.next := by
  obtain ⟨listed, same⟩ := mem_of_findIn (sound.found element inner).1
  exact (sound.bounds _ (mem_numbersAll.mpr ⟨_, listed, same⟩)).2

theorem Sound.fresh (sound : u.Sound r) (t : Tree) (element : r.node? k = some n)
    (inner : n.kind ≠ .unit) : n.decl ∉ numbers (t.number u.next).1 := fun member =>
  absurd (sound.lt_next element inner) (Nat.not_lt.mpr ((numbers_number u t).2 _ member).1)

theorem field_withDefs (d : Tree) (ds : List Tree) : d.field? = (d.withDefs ds).field? := by
  cases d <;> rfl

theorem isVariable_withDefs (d : Tree) (ds : List Tree) (h : d.isVariable) :
    (d.withDefs ds).isVariable := by
  cases d
  case varDecl => rfl
  all_goals exact absurd h Bool.false_ne_true

theorem changeDecl_adopting (node : u.registry.node? k = some n) (t : Tree) (f : Tree → Tree) :
    ((u.adopting t).changeDecl k f).pool = (u.changeDecl k f).pool :=
  (pool_changeDecl (u := u.adopting t) node f).trans (pool_changeDecl node f).symm

/-- A type gets a member. -/
theorem Sound.pursues_insert (sound : u.Sound r) (node : u.registry.node? k = some n)
    (inserts : (t.number u.next).1.Inserts place)
    (licensed : ∀ x, (t.number u.next).1.field? = some x → L.field n.decl x)
    (element : r.node? k' = some n') (inner : n'.kind ≠ .unit) :
    u.Pursues L (gained n'.decl (gains n.decl (t.number u.next).1))
      ((u.adopting t).changeDecl k fun d => d.withDefs (place d.defs)) k' n'.decl := by
  have elsewhere (other : n'.decl ≠ n.decl) :
      gained n'.decl (gains n.decl (t.number u.next).1) = [] :=
    (gained_gains _ _ _).trans (if_neg other)
  rw [Pursues, changeDecl_adopting node]
  refine sound.pursues_changeDecl node element inner (fun declared hit => ?_) elsewhere
    (fun absent => elsewhere fun same => absent ?_)
    (fun _ _ => .of_eq (field_withDefs _ _)) (isVariable_withDefs _ _)
  · refine rel_withDefs declared hit (fun same => ?_) elsewhere
      (findIn_inserted inserts (sound.fresh t element inner) _)
    rw [same, gained_gains, if_pos rfl]
    refine follows_inserted inserts (fun x seen => ⟨?_, licensed x seen⟩) declared
    rw [field_number] at seen
    obtain ⟨y, own, rfl⟩ := Option.map_eq_some_iff.mp seen
    exact Nat.le_refl _
  · obtain ⟨listed, number⟩ := mem_of_findIn (sound.found element inner).1
    exact mem_numbersAll.mpr ⟨_, listed, number.trans same⟩

/-- Declarations are kept aside that were in the unit before. -/
theorem Sound.pursues_keeping (sound : u.Sound r) (distinct : (numbersAll (v.keeping aside).pool).Nodup)
    (element : r.node? k = some n) (inner : n.kind ≠ .unit)
    (from_ : ∀ x ∈ numberedAll aside, x ∈ numberedAll u.pool)
    (others : n.decl ∉ numbersAll aside → u.Pursues L [] v k n.decl) :
    u.Pursues L [] (v.keeping aside) k n.decl := by
  have pool : (v.keeping aside).pool = [v.tree] ++ (aside ++ v.detached) := rfl
  by_cases member : n.decl ∈ numbersAll aside
  · obtain ⟨x, there, same⟩ := mem_numbersAll.mp member
    have own := eq_of_findIn sound.distinct (sound.found element inner).1 (from_ x there) same
    refine ⟨u.decl k, ?_, .refl _⟩
    rw [← same, own]
    refine findIn_of_mem distinct ?_
    rw [pool, numberedAll_append, numberedAll_append, ← own]
    exact List.mem_append_right _ (List.mem_append_left _ there)
  · obtain ⟨d', found, follows⟩ := others member
    refine ⟨d', ?_, follows⟩
    rw [← found, pool, findIn_append, findIn_append, findIn_eq_none.mpr member,
      show v.pool = [v.tree] ++ v.detached from rfl, findIn_append]
    rfl

/-- The numbers after declarations were kept aside. -/
theorem numbers_keeping (v : SourceUnit) (aside : List Tree) :
    (numbersAll (v.keeping aside).pool).Perm (numbersAll v.pool ++ numbersAll aside) := by
  have pool : (v.keeping aside).pool = [v.tree] ++ (aside ++ v.detached) := rfl
  rw [pool, show v.pool = [v.tree] ++ v.detached from rfl, numbersAll_append, numbersAll_append,
    numbersAll_append, List.append_assoc]
  exact List.perm_append_comm.append_left _

/-- A method that is taken from its type is one of its members. -/
theorem Sound.member_of_any (sound : u.Sound r) (node : u.registry.node? k = some n)
    (type : isClassDecl (u.decl k)) (method : (u.decl m).isMethod)
    (member : (u.decl k).defs.any (Edit.isMethodNumbered (u.decl m).id)) :
    findIn? n.decl u.pool = some (u.decl k) ∧ u.decl m ∈ (u.decl k).defs := by
  obtain ⟨n₁, node₁, found⟩ := sound.found_of_declared (.inr type)
  obtain rfl : n = n₁ := Option.some.inj (node.symm.trans node₁)
  obtain ⟨n₂, -, only⟩ := sound.found_of_declared (k := m) (.inl method)
  obtain ⟨x, there, hit⟩ := List.any_eq_true.mp member
  obtain ⟨own, same⟩ := isMethodNumbered_iff.mp hit
  have listed := mem_numberedAll_of_inner (mem_of_findIn found).1 (List.mem_append_left _ there)
    (isDeclaration_of_isMethod own)
  rw [← (mem_of_findIn only).2] at only
  rw [← eq_of_findIn sound.distinct only listed same]
  exact ⟨found, there⟩

/-- The numbers of the members of a type are distinct. -/
theorem distinct_defs (h : (numbers d).Nodup) (declared : d.isDeclaration) :
    (numbersAll d.defs).Nodup := by
  rw [numbers_declared declared] at h
  have inner := (List.nodup_cons.mp h).2
  rw [Tree.inner, numbersAll_append] at inner
  exact (List.nodup_append.mp inner).1

/-- The type that a method is taken from. -/
def without (u : SourceUnit) (k m : Key) : SourceUnit :=
  u.changeDecl k fun d => d.withDefs (d.defs.filter fun t => !Edit.isMethodNumbered (u.decl m).id t)

/-- A method leaves its type: its numbers stay in the unit. -/
theorem Sound.numbers_remove (sound : u.Sound r) (node : u.registry.node? k = some n)
    (type : isClassDecl (u.decl k)) (method : (u.decl m).isMethod)
    (member : (u.decl k).defs.any (Edit.isMethodNumbered (u.decl m).id)) :
    (numbersAll ((u.without k m).keeping [u.decl m]).pool).Perm (numbersAll u.pool) := by
  obtain ⟨found, there⟩ := sound.member_of_any node type method member
  refine (numbers_keeping _ _).trans ?_
  rw [without, pool_changeDecl node]
  have split : (numbers ((u.decl k).withDefs ((u.decl k).defs.filter fun t =>
      !Edit.isMethodNumbered (u.decl m).id t)) ++ numbersAll [u.decl m]).Perm
        (numbers (u.decl k) ++ []) := by
    have declared := isDeclaration_of_mem (mem_of_findIn found).1
    have distinct := distinct_defs (distinct_of_findIn sound.distinct found) declared
    generalize u.decl k = d at type there declared distinct
    cases d
    case classDecl c name ms tps e is ds =>
      rw [numbers_declared declared, numbers_declared rfl, numbersAll_singleton]
      change (_ :: numbersAll (_ ++ []) ++ _).Perm (_ :: numbersAll (ds ++ []) ++ [])
      simp only [List.append_nil, List.cons_append]
      exact (numbers_filter distinct there method).cons _
    all_goals exact absurd type Bool.false_ne_true
  exact (perm_changeIn sound.distinct found split).trans (.of_eq (List.append_nil _))

theorem Sound.pursues_remove (sound : u.Sound r) (node : u.registry.node? k = some n)
    (type : isClassDecl (u.decl k)) (method : (u.decl m).isMethod)
    (member : (u.decl k).defs.any (Edit.isMethodNumbered (u.decl m).id))
    (element : r.node? k' = some n') (inner : n'.kind ≠ .unit) :
    u.Pursues L [] ((u.without k m).keeping [u.decl m]) k' n'.decl := by
  obtain ⟨found, there⟩ := sound.member_of_any node type method member
  have distinct := (sound.numbers_remove node type method member).nodup_iff.mpr sound.distinct
  refine sound.pursues_keeping distinct element inner (fun x hx => ?_) fun other => ?_
  · have listed := mem_numberedAll_of_inner (mem_of_findIn found).1 (List.mem_append_left _ there)
      (isDeclaration_of_isMethod method)
    rw [numberedAll, numberedAll, List.append_nil] at hx
    exact numbered_subset listed hx
  · refine sound.pursues_changeDecl node element inner (fun declared hit => ?_) (fun _ => rfl)
      (fun _ => rfl) (fun _ _ => .of_eq (field_withDefs _ _)) (isVariable_withDefs _ _)
    have defs := distinct_defs (distinct_of_findIn sound.distinct found) declared
    refine rel_withDefs (g := List.filter fun t => !Edit.isMethodNumbered (u.decl m).id t) declared hit
      (fun _ => follows_filter _ declared) (fun _ => rfl) (findIn_filter defs there method ?_)
    rwa [numbersAll_singleton] at other

/-- A method gets the declaration of another one. -/
def replacing (u : SourceUnit) (k : Key) (t : Tree) : SourceUnit :=
  (u.adopting t).changeDecl k (Edit.withMethod (t.number u.next).1)

theorem params_of_not_isMethod (h : ¬d.isMethod) : d.params = [] := by
  cases d
  case methodDecl => exact absurd rfl h
  all_goals rfl

theorem withMethod_of_not_isMethod (h : ¬d.isMethod) (t : Tree) : Edit.withMethod t d = d := by
  cases d
  case methodDecl => exact absurd rfl h
  all_goals cases t <;> rfl

/-- A method takes the place of another one: the numbers of its parameters come to the unit. -/
theorem Sound.numbers_replace (sound : u.Sound r) (node : u.registry.node? k = some n)
    (method : t.isMethod) (vars : ∀ p ∈ t.params, p.isVariable) :
    ∃ new, new.Sublist (numbers (t.number u.next).1) ∧
      (numbersAll ((u.replacing k t).keeping (u.decl k).params).pool).Perm
        (numbersAll u.pool ++ new) := by
  by_cases own : (u.decl k).isMethod
  · obtain ⟨n₁, node₁, found⟩ := sound.found_of_declared (.inl own)
    obtain rfl : n = n₁ := Option.some.inj (node.symm.trans node₁)
    have isMethod := (isMethod_number method vars u.next).1
    obtain ⟨method', id, inner, -⟩ := withMethod_declared isMethod own
    have params (x : Tree) (h : x.isMethod) : x.inner = x.params := by
      cases x
      case methodDecl => rfl
      all_goals exact absurd h Bool.false_ne_true
    refine ⟨numbersAll (t.number u.next).1.params, ?_, (numbers_keeping _ _).trans ?_⟩
    · rw [numbers_declared (isDeclaration_of_isMethod isMethod), params _ isMethod]
      exact List.sublist_cons_self _ _
    rw [replacing, changeDecl_adopting node, pool_changeDecl node]
    refine perm_changeIn sound.distinct found ?_
    rw [numbers_declared (isDeclaration_of_isMethod method'),
      numbers_declared (isDeclaration_of_isMethod own), id, inner, params _ own]
    exact List.perm_append_comm.cons _
  · refine ⟨[], List.nil_sublist _, (numbers_keeping _ _).trans ?_⟩
    rw [params_of_not_isMethod own, replacing, changeDecl_adopting node, pool_changeDecl node]
    rcases sound.found_or_absent node with found | absent
    · refine perm_changeIn sound.distinct found ?_
      rw [withMethod_of_not_isMethod own]
      exact .refl _
    · rw [changeIn_absent absent]
      exact .refl _

theorem inner_of_isMethod (h : t.isMethod) : t.inner = t.params := by
  cases t
  case methodDecl => rfl
  all_goals exact absurd h Bool.false_ne_true

theorem not_isMethod_of_isVariable (h : t.isVariable) : t.isMethod = false := by
  cases t
  case varDecl => rfl
  all_goals exact absurd h Bool.false_ne_true

/-- Another method takes the place of a method. -/
theorem Sound.pursues_replace (sound : u.Sound r) (node : u.registry.node? k = some n)
    (method : t.isMethod) (vars : ∀ p ∈ t.params, p.isVariable) (licensed : L.body n.decl)
    (distinct : (numbersAll ((u.replacing k t).keeping (u.decl k).params).pool).Nodup)
    (element : r.node? k' = some n') (inner : n'.kind ≠ .unit) :
    u.Pursues L [] ((u.replacing k t).keeping (u.decl k).params) k' n'.decl := by
  obtain ⟨method', vars'⟩ := isMethod_number method vars u.next
  refine sound.pursues_keeping distinct element inner (fun x hx => ?_) fun other => ?_
  · by_cases own : (u.decl k).isMethod
    · obtain ⟨n₁, -, found⟩ := sound.found_of_declared (.inl own)
      refine numbered_subset (mem_of_findIn found).1 ?_
      rw [numbered_eq (isDeclaration_of_isMethod own), Tree.inner, numberedAll_append]
      exact List.mem_cons_of_mem _ (List.mem_append_right _ hx)
    · rw [params_of_not_isMethod own] at hx
      exact absurd hx List.not_mem_nil
  · rw [Pursues, replacing, changeDecl_adopting node]
    by_cases own : (u.decl k).isMethod
    · obtain ⟨own', id, params', -⟩ := withMethod_declared method' own
      refine sound.pursues_changeDecl node element inner (fun declared hit => ?_) (fun _ => rfl)
        (fun _ => rfl) (fun _ _ => .of_eq ((field_of_isMethod own).trans (field_of_isMethod own').symm))
        fun var => absurd own (by rw [not_isMethod_of_isVariable var]; exact Bool.false_ne_true)
      rw [find_declared declared, find_declared (isDeclaration_of_isMethod own'), id, params',
        inner_of_isMethod own]
      split
      · next same =>
        refine .some (follows_withMethod ?_ method' own vars')
        rw [← eq_of_beq same, hit]
        exact licensed
      · have fresh : n'.decl ∉ numbersAll (t.number u.next).1.params := fun member => by
          refine sound.fresh t element inner ?_
          rw [numbers_declared (isDeclaration_of_isMethod method'), inner_of_isMethod method']
          exact List.mem_cons_of_mem _ member
        rw [findIn_eq_none.mpr other, findIn_eq_none.mpr fresh]
        exact .none
    · refine sound.pursues_changeDecl node element inner (fun _ _ => ?_) (fun _ => rfl) (fun _ => rfl)
        (fun _ _ => ?_) fun var => ?_
      · exact rel_of_eq (fun t => .refl t) (by rw [withMethod_of_not_isMethod own])
      · exact .of_eq (by rw [withMethod_of_not_isMethod own])
      · rwa [withMethod_of_not_isMethod own]

end Follow

end SourceUnit

end Weaver
