import Weaver.Main
/-!
Changes that only take annotations and interfaces away.

Such a change (`Tree.Trims`) keeps every declaration in its place: a look-up by number finds the same
declaration as before, with fewer annotations. So an annotation that was once taken from an element
does not come back by changes of this kind, whichever declarations they are about.
-/
set_option autoImplicit false

namespace Weaver

open Weaver.Syntax (Tree Mark)

namespace Syntax.Tree

/-- The numbers of the annotations on a declaration. -/
def annoIds (t : Tree) : List Nat := t.mods.annotations.map id

/-- A declaration from which annotations or interfaces were taken. -/
inductive Trimmed : Tree → Tree → Prop where
  | same (t : Tree) : Trimmed t t
  | type {m : Mark} {n : String} {ms ms' e : Tree} {tps is is' ds : List Tree}
      (fewer : ms'.annotations.map id ⊆ ms.annotations.map id) :
      Trimmed (classDecl m n ms tps e is ds) (classDecl m n ms' tps e is' ds)
  | method {m : Mark} {n : String} {ms ms' r b : Tree} {tps ps ts : List Tree}
      (fewer : ms'.annotations.map id ⊆ ms.annotations.map id) :
      Trimmed (methodDecl m n ms tps r ps ts b) (methodDecl m n ms' tps r ps ts b)
  | var {m : Mark} {n : String} {ms ms' t i : Tree}
      (fewer : ms'.annotations.map id ⊆ ms.annotations.map id) :
      Trimmed (varDecl m n ms t i) (varDecl m n ms' t i)

/-- A change that takes annotations or interfaces from a declaration. -/
def Trims (f : Tree → Tree) : Prop := ∀ t, Trimmed t (f t)

/-- What a look-up finds before and after: nothing both times, or declarations of which the second
one has no further annotations. -/
def Fewer : Option Tree → Option Tree → Prop
  | none, none => True
  | some t, some t' => t'.annoIds ⊆ t.annoIds
  | _, _ => False

theorem Fewer.refl (r : Option Tree) : Fewer r r := by
  cases r with
  | none => trivial
  | some t => exact List.Subset.refl _

attribute [local simp] find? findIn? change changeIn

variable {f : Tree → Tree} {t t' : Tree} {n k : Nat}

/-- Looking up in a list tries its trees one after the other. -/
theorem findIn_eq (n : Nat) (ts : List Tree) : findIn? n ts = ts.findSome? (find? n) := by
  induction ts with
  | nil => rfl
  | cons t ts ih =>
    rw [findIn?, List.findSome?_cons, ih]
    cases find? n t <;> rfl

theorem Trimmed.find (h : Trimmed t t') (n : Nat) : Fewer (find? n t) (find? n t') := by
  cases h with
  | same => exact Fewer.refl _
  | type fewer =>
    simp only [find?]
    split
    · exact fewer
    · exact Fewer.refl _
  | method fewer =>
    simp only [find?]
    split
    · exact fewer
    · exact Fewer.refl _
  | var fewer =>
    simp only [find?]
    split
    · exact fewer
    · trivial

/-- A declaration that is found by its number is still found by it. -/
theorem Trimmed.find_self (h : Trimmed t t') (hit : (t.id == n) = true)
    (found : find? n t = some t) : find? n t' = some t' := by
  cases h with
  | same => exact found
  | type | method | var =>
    rw [find?]
    exact if_pos hit

theorem Trimmed.fewer (h : Trimmed t t') : t'.annoIds ⊆ t.annoIds := by
  cases h with
  | same => exact List.Subset.refl _
  | type fewer | method fewer | var fewer => exact fewer

/-- The first look-up that finds something is the same before and after. -/
theorem Fewer.orElse {a b a' b' : Option Tree} (h : Fewer a a') (h' : Fewer b b') :
    Fewer (a.orElse fun _ => b) (a'.orElse fun _ => b') := by
  cases a <;> cases a'
  case none.none => exact h'
  case some.some => exact h
  all_goals exact h.elim

/-- A change keeps what a look-up finds, with fewer annotations; the change and the look-up may be
about different declarations. -/
theorem find_change_findIn_change (hf : Trims f) (n k : Nat) :
    (∀ t, Fewer (find? n t) (find? n (change k f t))) ∧
      ∀ ts, Fewer (findIn? n ts) (findIn? n (changeIn k f ts)) := by
  refine change.mutual_induct k (fun t => Fewer (find? n t) (find? n (change k f t)))
    (fun ts => Fewer (findIn? n ts) (findIn? n (changeIn k f ts))) ?unit ?type ?within ?method ?params
    ?var ?otherVar ?other ?nil ?cons
  case unit => exact fun _ _ _ _ _ ih => ih
  case type | method | var =>
    intros
    rename_i hit
    rw [change, if_pos hit]
    exact (hf _).find n
  case within | params =>
    intros
    rename_i miss ih
    rw [change, if_neg miss, find?, find?]
    split
    · exact List.Subset.refl _
    · exact ih
  case otherVar =>
    intro _ _ _ _ _ miss
    rw [change, if_neg miss]
    exact Fewer.refl _
  case other =>
    intro t h₁ h₂ h₃ h₄
    rw [change.eq_5 k f t h₁ h₂ h₃ h₄]
    exact Fewer.refl _
  case nil => trivial
  case cons => exact fun t ts here others => here.orElse others

theorem find_change (hf : Trims f) (n k : Nat) (t : Tree) :
    Fewer (find? n t) (find? n (change k f t)) :=
  (find_change_findIn_change hf n k).1 t

theorem findSome_changeIn (hf : Trims f) (n k : Nat) (ts : List Tree) :
    Fewer (ts.findSome? (find? n)) ((changeIn k f ts).findSome? (find? n)) := by
  rw [← findIn_eq, ← findIn_eq]
  exact (find_change_findIn_change hf n k).2 ts

/-- The declaration that is changed is the one that is found. -/
theorem find_change_self_findIn (hf : Trims f) (n : Nat) :
    (∀ t, find? n (change n f t) = (find? n t).map f) ∧
      ∀ ts, findIn? n (changeIn n f ts) = (findIn? n ts).map f := by
  refine change.mutual_induct n (fun t => find? n (change n f t) = (find? n t).map f)
    (fun ts => findIn? n (changeIn n f ts) = (findIn? n ts).map f) ?unit ?type ?within ?method ?params
    ?var ?otherVar ?other ?nil ?cons
  case unit => exact fun _ _ _ _ _ ih => ih
  case type | method | var =>
    intros
    rename_i hit
    rw [change, if_pos hit]
    rw [(hf _).find_self hit (by rw [find?]; exact if_pos hit), find?, if_pos hit]
    rfl
  case within | params =>
    intros
    rename_i miss ih
    rw [change, if_neg miss, find?, if_neg miss, find?, if_neg miss]
    exact ih
  case otherVar =>
    intro _ _ _ _ _ miss
    rw [change, if_neg miss, find?, if_neg miss]
    rfl
  case other =>
    intro t h₁ h₂ h₃ h₄
    rw [change.eq_5 n f t h₁ h₂ h₃ h₄, find?.eq_5 n t h₁ h₂ h₃ h₄]
    rfl
  case nil => rfl
  case cons =>
    intro t ts here others
    rw [changeIn, findIn?, findIn?, here, others]
    cases find? n t <;> rfl

theorem find_change_self (hf : Trims f) (n : Nat) (t : Tree) :
    find? n (change n f t) = (find? n t).map f :=
  (find_change_self_findIn hf n).1 t

theorem findSome_changeIn_self (hf : Trims f) (n : Nat) (ts : List Tree) :
    (changeIn n f ts).findSome? (find? n) = (ts.findSome? (find? n)).map f := by
  rw [← findIn_eq, ← findIn_eq]
  exact (find_change_self_findIn hf n).2 ts

/-- The annotations of the root do not become more either. -/
theorem annoIds_change (hf : Trims f) (k : Nat) (t : Tree) :
    (change k f t).annoIds ⊆ t.annoIds := by
  unfold change
  split
  · exact List.Subset.refl _
  · split
    · exact (hf _).fewer
    · exact List.Subset.refl _
  · split
    · exact (hf _).fewer
    · exact List.Subset.refl _
  · split
    · exact (hf _).fewer
    · exact List.Subset.refl _
  · exact List.Subset.refl _

/-- Declarations can lose annotations. -/
theorem trims_withMods {g : Tree → Tree}
    (fewer : ∀ ms, (g ms).annotations.map id ⊆ ms.annotations.map id) :
    Trims fun t => t.withMods (g t.mods) := by
  intro t
  cases t with
  | classDecl => exact .type (fewer _)
  | methodDecl => exact .method (fewer _)
  | varDecl => exact .var (fewer _)
  | _ => exact .same _

end Syntax.Tree

/-! ## Units -/

/-- All elements are still registered, as the same kinds of elements with the same declarations. -/
def Registry.Grows (r r' : Registry) : Prop :=
  ∀ (k : Key) (n : Node), r.node? k = some n →
    ∃ n', r'.node? k = some n' ∧ n'.kind = n.kind ∧ n'.decl = n.decl

theorem Registry.Grows.refl (r : Registry) : r.Grows r := fun _ _ h => ⟨_, h, rfl, rfl⟩

theorem Registry.Grows.trans {r r' r'' : Registry} (h : r.Grows r') (h' : r'.Grows r'') :
    r.Grows r'' := by
  intro k n hk
  obtain ⟨n', hk', kind', decl'⟩ := h k n hk
  obtain ⟨n'', hk'', kind'', decl''⟩ := h' k n' hk'
  exact ⟨n'', hk'', kind''.trans kind', decl''.trans decl'⟩

/-- Registering an element anew keeps all elements; only what is in it changes. -/
theorem Registry.grows_rebuild (r : Registry) (k : Key) (t : Tree) : r.Grows (r.rebuild k t) := by
  intro j n h
  obtain ⟨inside, same⟩ := Array.getElem?_eq_some_iff.mp h
  unfold Registry.rebuild Registry.node?
  rw [Array.getElem?_append_left (by rw [Array.size_modify]; exact inside),
    Array.getElem?_modify, show r.nodes[j]? = some n from h]
  by_cases hk : k = j
  · rw [if_pos hk, Option.map_some]
    exact ⟨_, rfl, rfl, rfl⟩
  · exact ⟨n, by rw [if_neg hk], rfl, rfl⟩

namespace SourceUnit

/-- The numbers of the annotations on an element. -/
def annoIds (u : SourceUnit) (k : Key) : List Nat := (u.decl k).annoIds

/-- All elements are still there, as the same declarations, and have no further annotations. -/
structure Pruned (u u' : SourceUnit) : Prop where
  stays : u.registry.Grows u'.registry
  fewer : ∀ {k : Key} {n : Node}, u.registry.node? k = some n → u'.annoIds k ⊆ u.annoIds k

theorem Pruned.refl (u : SourceUnit) : u.Pruned u where
  stays := .refl _
  fewer _ := List.Subset.refl _

theorem Pruned.trans {u u' u'' : SourceUnit} (h : u.Pruned u') (h' : u'.Pruned u'') :
    u.Pruned u'' where
  stays := h.stays.trans h'.stays
  fewer hk := by
    obtain ⟨n', hk', -⟩ := h.stays _ _ hk
    exact List.Subset.trans (h'.fewer hk') (h.fewer hk)

/-- The declaration of an element other than the unit. -/
theorem decl_eq {u : SourceUnit} {k : Key} {n : Node} (h : u.registry.node? k = some n)
    (inner : n.kind ≠ .unit) : u.decl k =
      (((u.tree.find? n.decl).orElse fun _ =>
        u.detached.findSome? (Tree.find? n.decl)).getD .missing) := by
  have not_unit : (n.kind == NodeKind.unit) = false := by
    cases hk : n.kind <;> first | rfl | exact absurd hk inner
  rw [decl]
  simp only [h, not_unit]
  cases u.tree.find? n.decl <;> rfl

/-- What a look-up finds, in the tree or else among what is kept aside. -/
theorem annoIds_subset {a b : Option Tree} (h : Tree.Fewer a b) :
    (b.getD .missing).annoIds ⊆ (a.getD .missing).annoIds := by
  cases a <;> cases b
  case none.none => exact List.Subset.refl _
  case some.some => exact h
  all_goals exact h.elim

theorem changeDecl_registry (u : SourceUnit) (k : Key) (f : Tree → Tree) :
    (u.changeDecl k f).registry = u.registry := by
  unfold changeDecl
  split <;> rfl

theorem decl_unit {u : SourceUnit} {k : Key} {n : Node} (h : u.registry.node? k = some n)
    (outermost : n.kind = .unit) : u.decl k = u.tree := by
  rw [decl]
  simp only [h, outermost]
  rfl

/-- A change that only takes away prunes the unit. -/
theorem changeDecl_pruned (u : SourceUnit) (k : Key) {f : Tree → Tree} (hf : Tree.Trims f) :
    u.Pruned (u.changeDecl k f) where
  stays := by
    rw [changeDecl_registry]
    exact .refl _
  fewer {j n} h := by
    have h' : (u.changeDecl k f).registry.node? j = some n := by
      rw [changeDecl_registry]
      exact h
    cases changed : u.registry.node? k with
    | none => simp only [changeDecl, changed, List.Subset.refl]
    | some c =>
      rw [annoIds, annoIds]
      by_cases outermost : n.kind = .unit
      · rw [decl_unit h outermost, decl_unit h' outermost]
        simp only [changeDecl, changed]
        exact Tree.annoIds_change hf _ _
      · rw [decl_eq h outermost, decl_eq h' outermost]
        simp only [changeDecl, changed]
        exact annoIds_subset
          ((Tree.find_change hf _ _ _).orElse (Tree.findSome_changeIn hf _ _ _))

end SourceUnit

/-! ## Taking an annotation away -/

namespace Syntax.Tree

/-- A declaration without the annotation of a number. -/
def withoutAnno (host : Nat) (t : Tree) : Tree :=
  t.withMods (t.mods.withAnnotations (t.mods.annotations.filter (·.id != host)))

theorem annotations_withFiltered (ms : Tree) (p : Tree → Bool) :
    (ms.withAnnotations (ms.annotations.filter p)).annotations = ms.annotations.filter p := by
  cases ms <;> rfl

theorem trims_withoutAnno (host : Nat) : Trims (withoutAnno host) := by
  have fewer (ms : Tree) :
      (ms.withAnnotations (ms.annotations.filter (·.id != host))).annotations.map id ⊆
        ms.annotations.map id := by
    rw [annotations_withFiltered]
    exact List.map_subset _ fun _ member => (List.mem_filter.mp member).1
  exact trims_withMods fewer

theorem absent_withoutAnno (host : Nat) (t : Tree) : host ∉ (withoutAnno host t).annoIds := by
  have filtered (ms : Tree) : host ∉
      (ms.withAnnotations (ms.annotations.filter (·.id != host))).annotations.map id := by
    rw [annotations_withFiltered]
    intro member
    obtain ⟨a, ha, same⟩ := List.mem_map.mp member
    have other := (List.mem_filter.mp ha).2
    rw [same, bne_self_eq_false] at other
    exact Bool.false_ne_true other
  cases t with
  | classDecl => exact filtered _
  | methodDecl => exact filtered _
  | varDecl => exact filtered _
  | _ => exact List.not_mem_nil

end Syntax.Tree

namespace SourceUnit

/-- An annotation that is taken from an element is not on it any more. -/
theorem withoutAnno_absent (u : SourceUnit) {k : Key} {n : Node} (host : Nat)
    (h : u.registry.node? k = some n) (inner : n.kind ≠ .unit) :
    host ∉ (u.changeDecl k (Tree.withoutAnno host)).annoIds k := by
  have h' : (u.changeDecl k (Tree.withoutAnno host)).registry.node? k = some n := by
    rw [changeDecl_registry]
    exact h
  have trims := Tree.trims_withoutAnno host
  rw [annoIds, decl_eq h' inner]
  simp only [changeDecl, h]
  rw [Tree.find_change_self trims, Tree.findSome_changeIn_self trims]
  have found : ((u.tree.find? n.decl).map (Tree.withoutAnno host)).orElse
      (fun _ => (u.detached.findSome? (Tree.find? n.decl)).map (Tree.withoutAnno host)) =
        ((u.tree.find? n.decl).orElse fun _ =>
          u.detached.findSome? (Tree.find? n.decl)).map (Tree.withoutAnno host) := by
    cases u.tree.find? n.decl <;> rfl
  rw [found]
  cases (u.tree.find? n.decl).orElse fun _ => u.detached.findSome? (Tree.find? n.decl) with
  | none => exact List.not_mem_nil
  | some t => exact Tree.absent_withoutAnno host t

/-! ## The other steps of pruning -/

/-- Changes that leave declarations and their look-up alone. -/
theorem Pruned.of_find {u u' : SourceUnit}
    (stays : u.registry.Grows u'.registry) (mods : u'.tree.annoIds ⊆ u.tree.annoIds) (found : ∀ n, u'.tree.find? n = u.tree.find? n)
    (aside : u'.detached = u.detached) : u.Pruned u' where
  stays := stays
  fewer {k n} h := by
    obtain ⟨n', h', kind, decl⟩ := stays k n h
    rw [annoIds, annoIds]
    by_cases outermost : n.kind = .unit
    · rw [decl_unit h outermost, decl_unit h' (kind.trans outermost)]
      exact mods
    · rw [decl_eq h outermost, decl_eq h' (by rw [kind]; exact outermost), decl, found, aside]
      exact List.Subset.refl _

theorem rebuild_pruned (u : SourceUnit) (k : Key) :
    u.Pruned { u with registry := u.registry.rebuild k (u.decl k) } :=
  .of_find (u.registry.grows_rebuild k _) (List.Subset.refl _) (fun _ => rfl) rfl

end SourceUnit

end Weaver
