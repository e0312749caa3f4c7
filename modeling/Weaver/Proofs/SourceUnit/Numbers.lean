import Weaver.Proofs.SourceUnit.Order
/-!
Numbers of declarations under changes.

Where no two declarations have the same number, a change by number is a change of one declaration
(`Tree.changeIn_eq_or`): the numbers before and after it stay, and only those in the declaration are
replaced (`Tree.numbersAll_changeIn`). What is seen of the declaration with another number stays
(`Tree.findIn_changeIn`) if the change keeps it where it is made, and passing a change through a
declaration does not show.
-/
set_option autoImplicit false

namespace Weaver.Syntax.Tree

/-- The numbers of the declarations in a tree. -/
def numbers (t : Tree) : List Nat := (numbered t).map id

/-- The numbers of the declarations in the trees of a list. -/
def numbersAll (ts : List Tree) : List Nat := (numberedAll ts).map id

variable {n k : Nat} {f g : Tree → Tree} {t d : Tree} {ts : List Tree}

theorem numberedAll_append (ts us : List Tree) :
    numberedAll (ts ++ us) = numberedAll ts ++ numberedAll us := by
  induction ts with
  | nil => rfl
  | cons t ts ih => rw [List.cons_append, numberedAll, ih, numberedAll, List.append_assoc]

theorem numbersAll_cons (t : Tree) (ts : List Tree) :
    numbersAll (t :: ts) = numbers t ++ numbersAll ts := List.map_append

theorem numbersAll_append (ts us : List Tree) :
    numbersAll (ts ++ us) = numbersAll ts ++ numbersAll us := by
  rw [numbersAll, numberedAll_append, List.map_append]
  rfl

theorem numbersAll_singleton (t : Tree) : numbersAll [t] = numbers t := by
  rw [numbersAll_cons]
  exact List.append_nil _

theorem mem_numbersAll : n ∈ numbersAll ts ↔ ∃ d ∈ numberedAll ts, d.id = n := List.mem_map

/-! ## Looking up -/

theorem mem_of_findIn (found : findIn? n ts = some d) : d ∈ numberedAll ts ∧ d.id = n := by
  rw [(find_eq_find_numbered n).2] at found
  have hit : (d.id == n) = true := List.find?_some (p := fun x : Tree => x.id == n) found
  exact ⟨List.mem_of_find?_eq_some found, eq_of_beq hit⟩

theorem findIn_eq_none : findIn? n ts = none ↔ n ∉ numbersAll ts := by
  rw [(find_eq_find_numbered n).2, List.find?_eq_none, mem_numbersAll]
  constructor
  · rintro none_ ⟨d, member, same⟩
    exact none_ d member (beq_iff_eq.mpr same)
  · exact fun absent d member same => absent ⟨d, member, eq_of_beq same⟩

theorem find_eq_none : find? n t = none ↔ n ∉ numbers t := by
  have single : findIn? n [t] = find? n t := by
    rw [findIn?, findIn?]
    cases find? n t <;> rfl
  rw [← single, findIn_eq_none, numbersAll_cons]
  exact not_congr (List.mem_append.trans (or_iff_left List.not_mem_nil))

/-- Where numbers are distinct, every declaration is found by its number. -/
theorem findIn_of_mem (distinct : (numbersAll ts).Nodup) (member : d ∈ numberedAll ts) :
    findIn? d.id ts = some d := by
  rw [(find_eq_find_numbered d.id).2]
  rw [numbersAll] at distinct
  generalize numberedAll ts = ds at distinct member
  induction ds with
  | nil => exact absurd member List.not_mem_nil
  | cons x xs ih =>
    obtain ⟨fresh, distinct⟩ := List.nodup_cons.mp distinct
    rcases List.mem_cons.mp member with rfl | member
    · exact List.find?_cons_of_pos (beq_self_eq_true d.id)
    · have other : x.id ≠ d.id := fun same => fresh (List.mem_map.mpr ⟨d, member, same.symm⟩)
      rw [List.find?_cons_of_neg (by simpa using other), ih distinct member]

/-- The declaration that is found is the only one with its number. -/
theorem eq_of_findIn (distinct : (numbersAll ts).Nodup) (found : findIn? n ts = some d)
    (member : t ∈ numberedAll ts) (same : t.id = n) : t = d := by
  have found' := findIn_of_mem distinct member
  rw [same, found] at found'
  exact (Option.some.inj found').symm

theorem mem_of_find (found : find? n t = some d) : d ∈ numbered t ∧ d.id = n := by
  rw [(find_eq_find_numbered n).1] at found
  have hit : (d.id == n) = true := List.find?_some (p := fun x : Tree => x.id == n) found
  exact ⟨List.mem_of_find?_eq_some found, eq_of_beq hit⟩

/-! ## Changing -/

/-- A change of a declaration that is not there. -/
theorem change_absent_changeIn_absent (n : Nat) (f : Tree → Tree) :
    (∀ t, n ∉ numbers t → change n f t = t) ∧ ∀ ts, n ∉ numbersAll ts → changeIn n f ts = ts := by
  refine change.mutual_induct n (fun t => n ∉ numbers t → change n f t = t)
    (fun ts => n ∉ numbersAll ts → changeIn n f ts = ts) ?unit ?type ?within ?method ?params ?var
    ?otherVar ?other ?nil ?cons
  case unit =>
    intro m file p is ds ih absent
    rw [change, ih absent]
  case type | method | var =>
    intros
    rename_i hit absent
    exact absurd (List.mem_cons.mpr (.inl (eq_of_beq hit).symm)) absent
  case within | params =>
    intros
    rename_i miss ih absent
    rw [change, if_neg miss, ih fun inner => absent (List.mem_cons_of_mem _ inner)]
  case otherVar =>
    intros
    rename_i miss absent
    rw [change, if_neg miss]
  case other =>
    intro t h₁ h₂ h₃ h₄ absent
    rw [change.eq_5 n f t h₁ h₂ h₃ h₄]
  case nil => exact fun _ => rfl
  case cons =>
    intro t ts here there absent
    rw [numbersAll_cons, List.mem_append, not_or] at absent
    rw [changeIn, here absent.1, there absent.2]

theorem change_absent (absent : n ∉ numbers t) : change n f t = t :=
  (change_absent_changeIn_absent n f).1 t absent

theorem changeIn_absent (absent : n ∉ numbersAll ts) : changeIn n f ts = ts :=
  (change_absent_changeIn_absent n f).2 ts absent

/-- The numbers in the declaration that is changed are replaced, the others stay. -/
theorem numbers_change_numbersAll_changeIn (n : Nat) (f : Tree → Tree) :
    (∀ t, (numbers t).Nodup → ∀ d, find? n t = some d → ∃ as bs,
      numbers t = as ++ numbers d ++ bs ∧ numbers (change n f t) = as ++ numbers (f d) ++ bs) ∧
    ∀ ts, (numbersAll ts).Nodup → ∀ d, findIn? n ts = some d → ∃ as bs,
      numbersAll ts = as ++ numbers d ++ bs ∧
        numbersAll (changeIn n f ts) = as ++ numbers (f d) ++ bs := by
  refine change.mutual_induct n
    (fun t => (numbers t).Nodup → ∀ d, find? n t = some d → ∃ as bs,
      numbers t = as ++ numbers d ++ bs ∧ numbers (change n f t) = as ++ numbers (f d) ++ bs)
    (fun ts => (numbersAll ts).Nodup → ∀ d, findIn? n ts = some d → ∃ as bs,
      numbersAll ts = as ++ numbers d ++ bs ∧
        numbersAll (changeIn n f ts) = as ++ numbers (f d) ++ bs)
    ?unit ?type ?within ?method ?params ?var ?otherVar ?other ?nil ?cons
  case unit => exact fun _ _ _ _ _ ih => ih
  case type | method | var =>
    intros
    rename_i hit _ d found
    rw [find?, if_pos hit] at found
    rw [← Option.some.inj found, change, if_pos hit]
    exact ⟨[], [], (List.append_nil _).symm, (List.append_nil _).symm⟩
  case within | params =>
    intros
    rename_i miss ih distinct d found
    rw [find?, if_neg miss] at found
    obtain ⟨as, bs, before, after⟩ := ih (List.nodup_cons.mp distinct).2 d found
    rw [change, if_neg miss]
    exact ⟨_ :: as, bs, congrArg (_ :: ·) before, congrArg (_ :: ·) after⟩
  case otherVar =>
    intros
    rename_i miss _ d found
    rw [find?, if_neg miss] at found
    cases found
  case other =>
    intro t h₁ h₂ h₃ h₄ _ d found
    rw [find?.eq_5 n t h₁ h₂ h₃ h₄] at found
    cases found
  case nil =>
    intro _ d found
    cases found
  case cons =>
    intro t ts here there distinct d found
    rw [numbersAll_cons, List.nodup_append] at distinct
    obtain ⟨distinct, distinct', apart⟩ := distinct
    rw [findIn?] at found
    rw [changeIn, numbersAll_cons, numbersAll_cons]
    cases first : find? n t with
    | some d' =>
      rw [first] at found
      obtain rfl : d' = d := Option.some.inj found
      obtain ⟨as, bs, before, after⟩ := here distinct d' first
      have inside : n ∈ numbers t := by
        rw [← (mem_of_find first).2]
        exact List.mem_map_of_mem (mem_of_find first).1
      refine ⟨as, bs ++ numbersAll ts, ?_, ?_⟩
      · rw [before, List.append_assoc _ bs]
      · rw [after, changeIn_absent fun outside => apart n inside n outside rfl,
          List.append_assoc _ bs]
    | none =>
      rw [first] at found
      obtain ⟨as, bs, before, after⟩ := there distinct' d found
      rw [change_absent (find_eq_none.mp first), before, after]
      exact ⟨numbers t ++ as, bs, by simp only [List.append_assoc],
        by simp only [List.append_assoc]⟩

theorem numbersAll_changeIn (distinct : (numbersAll ts).Nodup) (found : findIn? n ts = some d)
    (f : Tree → Tree) : ∃ as bs, numbersAll ts = as ++ numbers d ++ bs ∧
      numbersAll (changeIn n f ts) = as ++ numbers (f d) ++ bs :=
  (numbers_change_numbersAll_changeIn n f).2 ts distinct d found

/-- How what a look-up finds after a change is related to what it finds before: as the change
relates it in the declarations with its number, and as a change that passes through relates it. -/
theorem find_change_rel_findIn_changeIn_rel {ρ : Tree → Tree → Prop} (n k : Nat) (f : Tree → Tree) :
    (∀ t, (∀ x ∈ numbered t, x.id = k → Option.Rel ρ (find? n x) (find? n (f x))) →
        (∀ x ∈ numbered t, x.id = n → n ≠ k → ρ x (change k f x)) →
      Option.Rel ρ (find? n t) (find? n (change k f t))) ∧
    ∀ ts, (∀ x ∈ numberedAll ts, x.id = k → Option.Rel ρ (find? n x) (find? n (f x))) →
        (∀ x ∈ numberedAll ts, x.id = n → n ≠ k → ρ x (change k f x)) →
      Option.Rel ρ (findIn? n ts) (findIn? n (changeIn k f ts)) := by
  refine change.mutual_induct k
    (fun t => (∀ x ∈ numbered t, x.id = k → Option.Rel ρ (find? n x) (find? n (f x))) →
        (∀ x ∈ numbered t, x.id = n → n ≠ k → ρ x (change k f x)) →
      Option.Rel ρ (find? n t) (find? n (change k f t)))
    (fun ts => (∀ x ∈ numberedAll ts, x.id = k → Option.Rel ρ (find? n x) (find? n (f x))) →
        (∀ x ∈ numberedAll ts, x.id = n → n ≠ k → ρ x (change k f x)) →
      Option.Rel ρ (findIn? n ts) (findIn? n (changeIn k f ts)))
    ?unit ?type ?within ?method ?params ?var ?otherVar ?other ?nil ?cons
  case unit => exact fun _ _ _ _ _ ih => ih
  case type | method | var =>
    intros
    rename_i hit made _
    rw [change, if_pos hit]
    exact made _ List.mem_cons_self (eq_of_beq hit)
  case within | params =>
    intros
    rename_i miss ih made through
    have passed := through _ List.mem_cons_self
    rw [change, if_neg miss] at passed ⊢
    rw [find?, find?]
    split
    · next own =>
      exact .some (passed (eq_of_beq own) fun same => miss (beq_iff_eq.mpr
        ((eq_of_beq own).trans same)))
    · exact ih (fun x member => made x (List.mem_cons_of_mem _ member)) fun x member =>
        through x (List.mem_cons_of_mem _ member)
  case otherVar =>
    intros
    rename_i miss _ through
    have passed := through _ List.mem_cons_self
    rw [change, if_neg miss] at passed ⊢
    rw [find?]
    split
    · next own =>
      exact .some (passed (eq_of_beq own) fun same => miss (beq_iff_eq.mpr
        ((eq_of_beq own).trans same)))
    · exact .none
  case other =>
    intro t h₁ h₂ h₃ h₄ _ _
    rw [change.eq_5 k f t h₁ h₂ h₃ h₄, find?.eq_5 n t h₁ h₂ h₃ h₄]
    exact .none
  case nil => exact fun _ _ => .none
  case cons =>
    intro t ts here there made through
    have first := here (fun x member => made x (List.mem_append_left _ member)) fun x member =>
      through x (List.mem_append_left _ member)
    have others := there (fun x member => made x (List.mem_append_right _ member)) fun x member =>
      through x (List.mem_append_right _ member)
    rw [findIn?, changeIn, findIn?]
    generalize find? n t = a at first
    generalize find? n (change k f t) = b at first
    cases first with
    | some same => exact .some same
    | none => exact others

section Found

variable {ρ : Tree → Tree → Prop}

theorem findIn_changeIn_rel
    (made : ∀ x ∈ numberedAll ts, x.id = k → Option.Rel ρ (find? n x) (find? n (f x)))
    (through : ∀ x ∈ numberedAll ts, x.id = n → n ≠ k → ρ x (change k f x)) :
    Option.Rel ρ (findIn? n ts) (findIn? n (changeIn k f ts)) :=
  (find_change_rel_findIn_changeIn_rel n k f).2 ts made through

end Found

end Weaver.Syntax.Tree
