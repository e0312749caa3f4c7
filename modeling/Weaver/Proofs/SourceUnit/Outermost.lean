import Weaver.Proofs.SourceUnit.Initial
/-!
What a name refers to is told by the outermost types.

A name is looked up among all types of a unit, but only an outermost one is taken. The elements in an
element are registered with it as the element around them (`Registry.Nested`), and this is so after
an element has been registered anew. So names refer to what they referred to as long as the imports,
the package and the names of the outermost types stay, whatever is added to types
(`SourceUnit.resolve_of_outermost`).
-/
set_option autoImplicit false

namespace Weaver

open Weaver.Syntax (Tree Mark)
open Weaver.Syntax.Tree

/-! ## Elements in elements -/

namespace Registry

variable {r : Registry} {j k next parent : Key} {n : Node} {t : Tree} {g g' : Growth}

/-- Elements are registered with the element that they are in. -/
def Nested (r : Registry) : Prop :=
  ∀ ⦃k : Key⦄ ⦃n : Node⦄, r.node? k = some n → r.Around k n.children

/-- What grows in an element is registered with it, and so is what is in that. -/
structure Roots (r : Registry) (next parent : Key) (g : Growth) : Prop where
  outer : r.Around parent g.keys
  inner : ∀ (i : Nat) n, g.nodes[i]? = some n → r.Around (next + i) n.children

theorem roots_none (r : Registry) (next parent : Key) : r.Roots next parent .none := ⟨nofun, nofun⟩

theorem Roots.append (h : r.Roots next parent g) (h' : r.Roots (next + g.nodes.length) parent g') :
    r.Roots next parent (g.append g') where
  outer c hc := (List.mem_append.mp hc).elim (h.outer c) (h'.outer c)
  inner i n hi := by
    rw [Growth.append, List.getElem?_append] at hi
    split at hi
    · exact h.inner i n hi
    · next after =>
      have there := h'.inner _ n hi
      rwa [Nat.add_assoc, Nat.add_sub_of_le (Nat.not_lt.mp after)] at there

theorem Roots.below {kind : NodeKind} {decl : Nat}
    (holds : r.Holds next (Growth.below next parent kind decl g).nodes)
    (h : r.Roots (next + 1) next g) : r.Roots next parent (.below next parent kind decl g) where
  outer c hc := by
    rw [List.mem_singleton.mp hc]
    exact ⟨_, holds.head, rfl⟩
  inner i n hi := by
    cases i with
    | zero =>
      obtain rfl : _ = n := Option.some.inj hi
      exact h.outer
    | succ i =>
      have there := h.inner i n hi
      rwa [Nat.add_assoc, Nat.add_comm 1 i] at there

theorem roots_params (ps : List Tree) (holds : r.Holds next (Growth.ofParams next parent ps).nodes) :
    r.Roots next parent (Growth.ofParams next parent ps) := by
  induction ps generalizing next with
  | nil => exact roots_none r next parent
  | cons p ps ih => exact .append (.below holds.left (roots_none r _ _)) (ih holds.tail)

theorem roots_members (r : Registry) :
    (∀ next parent t, r.Holds next (Growth.ofMember next parent t).nodes →
        r.Roots next parent (Growth.ofMember next parent t)) ∧
      ∀ next parent ds, r.Holds next (Growth.ofMembers next parent ds).nodes →
        r.Roots next parent (Growth.ofMembers next parent ds) := by
  refine Growth.ofMember.mutual_induct
    (fun next parent t => r.Holds next (Growth.ofMember next parent t).nodes →
      r.Roots next parent (Growth.ofMember next parent t))
    (fun next parent ds => r.Holds next (Growth.ofMembers next parent ds).nodes →
      r.Roots next parent (Growth.ofMembers next parent ds))
    ?type ?method ?constant ?field ?other ?nil ?cons
  case type =>
    intro next parent m n ms tps e is ds ih h
    rw [Growth.ofMember] at h ⊢
    exact .below h (ih h.tail)
  case method =>
    intro next parent m n ms tps res ps ts b h
    rw [Growth.ofMember] at h ⊢
    exact .below h (roots_params ps h.tail)
  case constant =>
    intro next parent m n ms t i constant h
    rw [Growth.ofMember, if_pos constant]
    exact roots_none r next parent
  case field =>
    intro next parent m n ms t i variable_ h
    rw [Growth.ofMember, if_neg variable_] at h ⊢
    exact .below h (roots_none r _ _)
  case other =>
    intro t next parent h₁ h₂ h₃ h
    rw [Growth.ofMember.eq_4 next parent t h₁ h₂ h₃]
    exact roots_none r next parent
  case nil => exact fun next parent _ => roots_none r next parent
  case cons =>
    intro next parent t ts first here there h
    rw [Growth.ofMembers] at h ⊢
    exact .append (here h.left) (there h.right)

theorem roots_inside (h : r.Holds next (Growth.inside next parent t).nodes) :
    r.Roots next parent (Growth.inside next parent t) := by
  cases t
  case unit => exact (roots_members r).2 _ _ _ h
  case classDecl => exact (roots_members r).2 _ _ _ h
  case methodDecl => exact roots_params _ h
  all_goals exact roots_none r next parent

/-- What is registered after an element was registered anew, with the elements in it. -/
theorem node_of_rebuild_nested (h : (r.rebuild k t).node? j = some n) :
    (∃ n', r.node? j = some n' ∧
      n = if j = k then { n' with children := (Growth.inside r.nodes.size k t).keys } else n') ∨
      ∃ i, j = r.nodes.size + i ∧ (Growth.inside r.nodes.size k t).nodes[i]? = some n := by
  cases old : r.node? j with
  | some n' =>
    rw [node_rebuild old] at h
    exact .inl ⟨n', rfl, (Option.some.inj h).symm⟩
  | none =>
    have outside : r.nodes.size ≤ j := by
      rwa [node?, Array.getElem?_eq_none_iff] at old
    unfold rebuild node? at h
    rw [Array.getElem?_append_right (by rw [Array.size_modify]; exact outside), Array.size_modify,
      List.getElem?_toArray] at h
    exact .inr ⟨j - r.nodes.size, (Nat.add_sub_of_le outside).symm, h⟩

theorem Nested.rebuild (h : r.Nested) (k : Key) (t : Tree) : (r.rebuild k t).Nested := by
  have roots := roots_inside (holds_rebuild r k t)
  intro j n node
  rcases node_of_rebuild_nested node with ⟨n', old, rfl⟩ | ⟨i, rfl, grown⟩
  · split
    · next same => exact same ▸ roots.outer
    · intro c hc
      obtain ⟨m, child, parent⟩ := h old c hc
      refine ⟨_, node_rebuild child, ?_⟩
      split <;> exact parent
  · exact roots.inner i n grown

theorem nested_ofUnit (t : Tree) : (Registry.ofUnit t).Nested := by
  have empty : Nested ⟨#[⟨.unit, 0, none, []⟩]⟩ := by
    intro k n node
    cases k with
    | zero =>
      obtain rfl := Option.some.inj node
      exact nofun
    | succ k => exact nomatch node
  exact empty.rebuild 0 t

end Registry

/-! ## Outermost types -/

namespace SourceUnit

/-- The names of the types that stand in no other type. -/
def outermostNames (u : SourceUnit) : List String := (u.registry.childrenOf 0 .type).map u.name

section Resolve

variable {r : Registry} {u v : SourceUnit} {c k : Key} {keys : List Key}

theorem parent_of_childrenOf {kind : NodeKind} (nested : u.registry.Nested)
    (hc : c ∈ u.registry.childrenOf k kind) :
    u.registry.parent? c = some k ∧ u.nodeKind c = kind := by
  obtain ⟨n, child, own⟩ := Registry.node_of_childrenOf hc
  rw [Registry.childrenOf] at hc
  split at hc
  · next m node =>
    obtain ⟨n', child', parent⟩ := nested node c (List.mem_filter.mp hc).1
    obtain rfl := Option.some.inj (child.symm.trans child')
    rw [Registry.parent?, nodeKind, child]
    exact ⟨parent, own⟩
  · exact absurd hc List.not_mem_nil

/-- A type in another one is no outermost type. -/
theorem outer_of_typesTo (nested : u.registry.Nested) {depth : Nat} (type : u.nodeKind k = .type)
    (hc : c ∈ u.registry.typesTo depth k) : (u.outer? c).isNone = false := by
  induction depth generalizing k with
  | zero => exact absurd hc List.not_mem_nil
  | succ depth ih =>
    obtain ⟨d, hd, inside⟩ := List.mem_flatMap.mp hc
    obtain ⟨parent, own⟩ := parent_of_childrenOf nested hd
    rcases List.mem_cons.mp inside with rfl | inside
    · rw [outer?, parent, Option.filter_some, type, if_pos (by rfl)]
      rfl
    · exact ih own inside

/-- The unit itself is registered as such. -/
def Rooted (u : SourceUnit) : Prop := ∃ keys, u.registry.node? 0 = some ⟨.unit, 0, none, keys⟩

/-- Of the types with a property only the outermost ones come into question. -/
theorem find_types (nested : u.registry.Nested) (rooted : u.Rooted) (p : Key → Bool) :
    (u.types.find? fun k => (u.outer? k).isNone && p k) =
      (u.registry.childrenOf 0 .type).find? p := by
  obtain ⟨keys, root⟩ := rooted
  obtain ⟨depth, size⟩ := Nat.exists_eq_add_of_lt (Array.getElem?_eq_some_iff.mp root).1
  have outermost : ∀ c ∈ u.registry.childrenOf 0 .type, (u.outer? c).isNone = true := by
    intro c hc
    obtain ⟨parent, -⟩ := parent_of_childrenOf nested hc
    have unit_ : u.nodeKind 0 = .unit := by rw [nodeKind, root]; rfl
    rw [outer?, parent, Option.filter_some, unit_, if_neg (by decide)]
    rfl
  have kinds : ∀ c ∈ u.registry.childrenOf 0 .type, u.nodeKind c = .type :=
    fun c hc => (parent_of_childrenOf nested hc).2
  rw [types, Registry.types, size, Nat.zero_add, Registry.typesTo]
  generalize u.registry.childrenOf 0 .type = cs at outermost kinds
  induction cs with
  | nil => rfl
  | cons c cs ih =>
    have below : ((u.registry.typesTo depth c).find? fun k => (u.outer? k).isNone && p k) = none :=
      List.find?_eq_none.mpr fun d hd => by
        rw [outer_of_typesTo nested (kinds c List.mem_cons_self) hd]
        exact Bool.false_ne_true
    rw [List.flatMap_cons, List.cons_append, List.find?_cons, List.find?_append, below,
      Option.none_or, outermost c List.mem_cons_self, Bool.true_and, List.find?_cons,
      ih (fun d hd => outermost d (List.mem_cons_of_mem _ hd))
        fun d hd => kinds d (List.mem_cons_of_mem _ hd)]

/-- An outermost type has the name of the package before its own. -/
theorem qualifiedName_outermost (nested : u.registry.Nested) (rooted : u.Rooted)
    (outermost : ∃ m f p is ds, u.tree = .unit m f p is ds)
    (hc : c ∈ u.registry.childrenOf 0 .type) :
    u.qualifiedName c = if u.package.isEmpty then u.name c else u.package ++ "." ++ u.name c := by
  obtain ⟨keys, root⟩ := rooted
  obtain ⟨depth, size⟩ := Nat.exists_eq_add_of_lt (Array.getElem?_eq_some_iff.mp root).1
  obtain ⟨parent, -⟩ := parent_of_childrenOf nested hc
  have top : u.registry.aroundTo depth 0 = [] := by
    cases depth with
    | zero => rfl
    | succ depth => rw [Registry.aroundTo, Registry.parent?, root]; rfl
  have around : u.registry.around c = [0] := by
    rw [Registry.around, size, Nat.zero_add, Registry.aroundTo, parent]
    exact congrArg _ top
  obtain ⟨m, f, p, is, ds, tree⟩ := outermost
  have whole : u.decl 0 = .unit m f p is ds := by
    rw [decl, root]
    exact tree
  rw [qualifiedName, around, List.foldl_cons, List.foldl_nil, whole]

/-- **What names refer to.** A name refers to what it referred to before as long as the same is imported
and the outermost types have the same names. -/
theorem resolve_of_outermost (nested : u.registry.Nested) (nested' : v.registry.Nested)
    (rooted : u.Rooted) (rooted' : v.Rooted)
    (unit_ : ∃ m f p is ds, u.tree = .unit m f p is ds)
    (unit_' : ∃ m f p is ds, v.tree = .unit m f p is ds) (imports : v.imports = u.imports)
    (package : v.package = u.package) (names : v.outermostNames = u.outermostNames) :
    v.resolve = u.resolve := by
  have imported : v.importedNames = u.importedNames := by rw [importedNames, importedNames, imports]
  -- the first of the outermost types with a name, by its qualified name
  have found {w : SourceUnit} (nested : w.registry.Nested) (rooted : w.Rooted)
      (unit_ : ∃ m f p is ds, w.tree = .unit m f p is ds) (first : String) :
      (w.types.find? fun k => (w.outer? k).isNone && w.name k == first).map w.qualifiedName =
        (w.outermostNames.find? (· == first)).map fun n =>
          if w.package.isEmpty then n else w.package ++ "." ++ n := by
    rw [find_types nested rooted, outermostNames, List.find?_map, Option.map_map]
    cases hit : (w.registry.childrenOf 0 .type).find? ((· == first) ∘ w.name) with
    | none =>
      rw [show (w.registry.childrenOf 0 .type).find? (fun k => w.name k == first) = none from hit]
      rfl
    | some c =>
      rw [show (w.registry.childrenOf 0 .type).find? (fun k => w.name k == first) = some c from hit]
      exact congrArg some
        (qualifiedName_outermost nested rooted unit_ (List.mem_of_find?_eq_some hit))
  have same (first : String) :
      (v.types.find? fun k => (v.outer? k).isNone && v.name k == first).map v.qualifiedName =
        (u.types.find? fun k => (u.outer? k).isNone && u.name k == first).map u.qualifiedName := by
    rw [found nested rooted unit_, found nested' rooted' unit_', names, package]
  funext q
  unfold resolve singleImports wholeImports
  rw [imported]
  dsimp only
  split
  · rfl
  · specialize same (Text.splitFirst q).1
    generalize (v.types.find? fun k => (v.outer? k).isNone && v.name k == (Text.splitFirst q).1) = a
      at same ⊢
    generalize (u.types.find? fun k => (u.outer? k).isNone && u.name k == (Text.splitFirst q).1) = b
      at same ⊢
    cases a with
    | none =>
      cases b with
      | none => rfl
      | some k => cases same
    | some j =>
      cases b with
      | none => cases same
      | some k => exact congrArg (· ++ (Text.splitFirst q).2) (Option.some.inj same)

end Resolve

end SourceUnit

end Weaver
