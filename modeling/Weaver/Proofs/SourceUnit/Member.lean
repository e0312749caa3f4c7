import Mathlib.Data.List.Perm.Basic
import Weaver.Proofs.SourceUnit.Follow
/-!
Members that come and go.

For each way in which a declaration can change: which numbers come and go, and what a look-up in the
declaration finds afterwards. A member that is added has numbers that were not given away before; a
method that is taken away, and the parameters of a method that is replaced, are kept aside.
-/
set_option autoImplicit false

namespace Weaver.Syntax.Tree

open Weaver.Edit (isMethodNumbered withMethod)

variable {L : License} {i j next : Nat} {d d' t : Tree} {ds ts : List Tree} {f : Tree → Tree}
  {old new : List Nat} {added : List String} {place : List Tree → List Tree}

/-! ## Numbering -/

theorem flags_numberModifiers (next : Nat) (ms : Tree) :
    (numberModifiers next ms).1.flags = ms.flags := by
  cases ms <;> rfl

/-- A field that gets a number is otherwise as it was. -/
theorem field_number (next : Nat) (t : Tree) :
    (t.number next).1.field? = t.field?.map fun x => { x with mark := x.mark.withId next } := by
  cases t
  case varDecl m n ms ty i =>
    change field? (varDecl (m.withId next) n (numberModifiers (next + 1) ms).1 ty i) = _
    rw [field?, field?, flags_numberModifiers]
    split <;> rfl
  all_goals rfl

theorem isVariable_number (next : Nat) (t : Tree) : (t.number next).1.isVariable = t.isVariable := by
  cases t <;> rfl

theorem isVariable_numberAll {next : Nat} {ts : List Tree} (h : ∀ t ∈ ts, t.isVariable) :
    ∀ t ∈ (numberAll next ts).1, t.isVariable := by
  induction ts generalizing next with
  | nil => exact h
  | cons t ts ih =>
    intro x hx
    rcases List.mem_cons.mp hx with rfl | hx
    · rw [isVariable_number]
      exact h t List.mem_cons_self
    · exact ih (fun t ht => h t (List.mem_cons_of_mem _ ht)) x hx

/-- A method that gets a number with its parameters. -/
theorem isMethod_number (method : t.isMethod) (vars : ∀ p ∈ t.params, p.isVariable) (next : Nat) :
    (t.number next).1.isMethod ∧ ∀ p ∈ (t.number next).1.params, p.isVariable := by
  cases t
  case methodDecl => exact ⟨rfl, isVariable_numberAll vars⟩
  all_goals exact absurd method Bool.false_ne_true

/-! ## One declaration -/

theorem find_declared (h : d.isDeclaration) (i : Nat) :
    find? i d = if d.id == i then some d else findIn? i d.inner := by
  cases d
  case classDecl m n ms tps e is ds =>
    change _ = if m.id == i then _ else findIn? i (ds ++ [])
    rw [List.append_nil, find?]
  case methodDecl => rw [find?]; rfl
  case varDecl => rw [find?]; rfl
  all_goals exact absurd h Bool.false_ne_true

theorem numbers_declared (h : d.isDeclaration) : numbers d = d.id :: numbersAll d.inner := by
  rw [numbers, numbered_eq h]
  rfl

/-- The numbers of the trees of a list after a change of one declaration. -/
theorem perm_changeIn (distinct : (numbersAll ts).Nodup) (found : findIn? j ts = some d)
    (h : (numbers (f d) ++ old).Perm (numbers d ++ new)) :
    (numbersAll (changeIn j f ts) ++ old).Perm (numbersAll ts ++ new) := by
  obtain ⟨as, bs, before, after⟩ := numbersAll_changeIn distinct found f
  rw [before, after]
  rw [List.perm_iff_count] at h ⊢
  intro x
  have count := h x
  simp only [List.count_append] at count ⊢
  omega

theorem distinct_of_findIn (distinct : (numbersAll ts).Nodup) (found : findIn? j ts = some d) :
    (numbers d).Nodup := by
  obtain ⟨as, bs, before, -⟩ := numbersAll_changeIn distinct found fun t => t
  rw [before] at distinct
  exact (List.nodup_append.mp (List.nodup_append.mp distinct).1).2.1

/-- What is altered has the declarations in it that it had. -/
theorem Alters.inner (h : d.Alters L j d') :
    d'.isDeclaration = d.isDeclaration ∧ d'.id = d.id ∧ d'.inner = d.inner := by
  cases h <;> exact ⟨rfl, rfl, rfl⟩

theorem Alters.numbers (h : d.Alters L j d') (declared : d.isDeclaration) :
    d'.numbers = d.numbers := by
  obtain ⟨same, id, inner⟩ := h.inner
  rw [numbers_declared declared, numbers_declared (same.trans declared), id, inner]

theorem rel_of_eq {ρ : Tree → Tree → Prop} (refl : ∀ t, ρ t t) {a b : Option Tree} (h : b = a) :
    Option.Rel ρ a b := by
  subst h
  cases b with
  | none => exact .none
  | some t => exact .some (refl t)

theorem Alters.find (h : d.Alters L j d') (declared : d.isDeclaration) (hit : d.id = j) (i : Nat) :
    Option.Rel (Follows L i next []) (find? i d) (find? i d') := by
  obtain ⟨same, id, inner⟩ := h.inner
  rw [find_declared declared, find_declared (same.trans declared), id, inner]
  split
  · next own =>
    obtain rfl : j = i := hit.symm.trans (eq_of_beq own)
    exact .some h.follows
  · exact rel_of_eq (fun t => .refl t) rfl

/-! ## A further member -/

theorem numbers_inserted (inserts : t.Inserts place) (ds : List Tree) :
    (numbersAll (place ds)).Perm (numbersAll ds ++ numbers t) := by
  obtain ⟨as, bs, rfl, there⟩ := inserts ds
  rw [there, numbersAll_append, numbersAll_append, numbersAll_cons, List.append_assoc]
  exact List.perm_append_comm.append_left _

theorem findIn_append (i : Nat) (as bs : List Tree) :
    findIn? i (as ++ bs) = (findIn? i as).orElse fun _ => findIn? i bs := by
  induction as with
  | nil => rfl
  | cons a as ih =>
    rw [List.cons_append, findIn?, findIn?, ih]
    cases find? i a <;> rfl

theorem findIn_inserted (inserts : t.Inserts place) (fresh : i ∉ numbers t) (ds : List Tree) :
    findIn? i (place ds) = findIn? i ds := by
  obtain ⟨as, bs, rfl, there⟩ := inserts ds
  rw [there, findIn_append, findIn_append, findIn?, find_eq_none.mpr fresh]
  rfl

/-- A type with a further member. -/
theorem follows_inserted (inserts : t.Inserts place)
    (licensed : ∀ x, t.field? = some x → next ≤ x.number ∧ L.field i x) (declared : d.isDeclaration) :
    d.Follows L i next (t.field?.toList.map (·.name)) (d.withDefs (place d.defs)) := by
  cases d
  case classDecl m n ms tps e is ds =>
    obtain ⟨as, bs, rfl, there⟩ := inserts ds
    exact {
      suits := fun kind own => by cases kind <;> exact own
      head := fun own => own.elim
      params := fun own => own
      fields := fun _ => by
        refine ⟨t.field?.toList, fun x hx => licensed x (Option.mem_toList.mp hx), rfl, .of_perm ?_⟩
        have after : (classDecl m n ms tps e is (place (as ++ bs))).fieldsIn =
            as.filterMap field? ++ (t.field?.toList ++ bs.filterMap field?) := by
          rw [fieldsIn, defs, there, List.filterMap_append, List.filterMap_cons]
          cases t.field? <;> rfl
        change List.Perm _ (fieldsIn (classDecl m n ms tps e is (place (as ++ bs))))
        rw [after, fieldsIn, defs, List.filterMap_append, List.append_assoc]
        exact List.perm_append_comm.append_left _ }
  case methodDecl | varDecl =>
    exact {
      suits := fun kind own => own
      head := fun _ _ => rfl
      params := fun own => own
      fields := fun own => own.elim }
  all_goals exact absurd declared Bool.false_ne_true

/-- What is in a type with other members. -/
theorem withDefs_declared (declared : d.isDeclaration) (ds : List Tree) :
    (d.withDefs ds).isDeclaration ∧ (d.withDefs ds).id = d.id ∧
      ((∃ m n ms tps e is ds', d = classDecl m n ms tps e is ds') ∧ (d.withDefs ds).inner = ds ∨
        d.withDefs ds = d) := by
  cases d
  case classDecl m n ms tps e is ds' =>
    exact ⟨rfl, rfl, .inl ⟨⟨_, _, _, _, _, _, _, rfl⟩, List.append_nil ds⟩⟩
  case methodDecl | varDecl => exact ⟨rfl, rfl, .inr rfl⟩
  all_goals exact absurd declared Bool.false_ne_true

/-- A look-up in a type with other members that the look-up does not tell from its own. -/
theorem rel_withDefs {g : List Tree → List Tree} (declared : d.isDeclaration) (hit : d.id = j)
    (follows : i = j → d.Follows L i next added (d.withDefs (g d.defs)))
    (elsewhere : i ≠ j → added = []) (same : findIn? i (g d.defs) = findIn? i d.defs) :
    Option.Rel (Follows L i next added) (find? i d) (find? i (d.withDefs (g d.defs))) := by
  obtain ⟨declared', id, here⟩ := withDefs_declared declared (g d.defs)
  rw [find_declared declared, find_declared declared', id]
  split
  · next own => exact .some (follows ((eq_of_beq own).symm.trans hit))
  · next other =>
    rw [elsewhere fun same => other (beq_iff_eq.mpr (hit.trans same.symm))]
    refine rel_of_eq (fun t => .refl t) ?_
    rcases here with ⟨⟨m, n, ms, tps, e, is, ds, rfl⟩, inner⟩ | unchanged
    · rw [inner, same]
      exact congrArg (findIn? i) (List.append_nil ds).symm
    · rw [unchanged]

/-! ## A method less -/

theorem isMethodNumbered_iff : isMethodNumbered i t = true ↔ t.isMethod = true ∧ t.id = i := by
  rw [isMethodNumbered, Bool.and_eq_true, beq_iff_eq]

theorem isDeclaration_of_isMethod (h : t.isMethod) : t.isDeclaration := by
  cases t
  case methodDecl => rfl
  all_goals exact absurd h Bool.false_ne_true

theorem filter_absent (absent : i ∉ numbersAll ds) :
    ds.filter (fun t => !isMethodNumbered i t) = ds := by
  refine List.filter_eq_self.mpr fun t ht => ?_
  rw [Bool.not_eq_true', Bool.eq_false_iff]
  intro hit
  obtain ⟨method, same⟩ := isMethodNumbered_iff.mp hit
  refine absent (mem_numbersAll.mpr ⟨t, numbered_subset_of_mem ht ?_, same⟩)
  rw [numbered_eq (isDeclaration_of_isMethod method)]
  exact List.mem_cons_self

/-- Among some members, a method is taken away with what is in it. -/
theorem filter_split (distinct : (numbersAll ds).Nodup) (member : d ∈ ds) (method : d.isMethod) :
    ∃ as bs, ds = as ++ d :: bs ∧ ds.filter (fun t => !isMethodNumbered d.id t) = as ++ bs := by
  obtain ⟨as, bs, rfl⟩ := List.append_of_mem member
  have own : d.id ∈ numbers d := by
    rw [numbers_declared (isDeclaration_of_isMethod method)]
    exact List.mem_cons_self
  rw [numbersAll_append, numbersAll_cons, List.nodup_append, List.nodup_append] at distinct
  obtain ⟨-, ⟨-, -, apart'⟩, apart⟩ := distinct
  refine ⟨as, bs, rfl, ?_⟩
  rw [List.filter_append, List.filter_cons_of_neg, filter_absent, filter_absent]
  · exact fun h => apart' d.id own d.id h rfl
  · exact fun h => apart d.id h d.id (List.mem_append_left _ own) rfl
  · rw [isMethodNumbered_iff.mpr ⟨method, rfl⟩]
    exact Bool.false_ne_true

theorem numbers_filter (distinct : (numbersAll ds).Nodup) (member : d ∈ ds) (method : d.isMethod) :
    (numbersAll (ds.filter fun t => !isMethodNumbered d.id t) ++ numbers d).Perm
      (numbersAll ds) := by
  obtain ⟨as, bs, rfl, rest⟩ := filter_split distinct member method
  rw [rest, numbersAll_append, numbersAll_append, numbersAll_cons, List.append_assoc]
  exact List.perm_append_comm.append_left _

theorem findIn_filter (distinct : (numbersAll ds).Nodup) (member : d ∈ ds) (method : d.isMethod)
    (other : i ∉ numbers d) :
    findIn? i (ds.filter fun t => !isMethodNumbered d.id t) = findIn? i ds := by
  obtain ⟨as, bs, rfl, rest⟩ := filter_split distinct member method
  rw [rest, findIn_append, findIn_append, findIn?, find_eq_none.mpr other]
  rfl

theorem field_of_isMethod (h : t.isMethod) : t.field? = none := by
  cases t
  case methodDecl => rfl
  all_goals exact absurd h Bool.false_ne_true

/-- A type without a method has the same fields. -/
theorem follows_filter (number : Nat) (declared : d.isDeclaration) :
    d.Follows L i next [] (d.withDefs (d.defs.filter fun t => !isMethodNumbered number t)) := by
  cases d
  case classDecl m n ms tps e is ds =>
    refine .none (fun kind own => by cases kind <;> exact own) (fun own => own.elim) (fun own => own)
      fun _ => .of_perm (.of_eq ?_)
    change _ = fieldsIn (classDecl m n ms tps e is (ds.filter fun t => !isMethodNumbered number t))
    rw [fieldsIn, fieldsIn, defs, defs, List.filterMap_filter]
    refine List.filterMap_congr fun t _ => ?_
    split
    · rfl
    · next hit =>
      rw [Bool.not_eq_true, Bool.not_eq_false'] at hit
      exact field_of_isMethod (isMethodNumbered_iff.mp hit).1
  case methodDecl | varDecl => exact .refl _
  all_goals exact absurd declared Bool.false_ne_true

/-! ## A method for another -/

/-- A method that takes the place of another one. -/
theorem withMethod_declared (method : t.isMethod) (own : d.isMethod) :
    (withMethod t d).isMethod ∧ (withMethod t d).id = d.id ∧ (withMethod t d).inner = t.params ∧
      (withMethod t d).params = t.params := by
  cases t
  case methodDecl =>
    cases d
    case methodDecl => exact ⟨rfl, rfl, rfl, rfl⟩
    all_goals exact absurd own Bool.false_ne_true
  all_goals exact absurd method Bool.false_ne_true

theorem follows_withMethod (licensed : L.body i) (method : t.isMethod) (own : d.isMethod)
    (vars : ∀ p ∈ t.params, p.isVariable) : d.Follows L i next [] (withMethod t d) := by
  cases t
  case methodDecl =>
    cases d
    case methodDecl =>
      exact .none (fun kind own => by cases kind <;> exact own) (fun _ kept => absurd licensed kept)
        (fun _ => vars) fun own => own.elim
    all_goals exact absurd own Bool.false_ne_true
  all_goals exact absurd method Bool.false_ne_true

end Weaver.Syntax.Tree
