import Mathlib.Data.List.Forall2
import Weaver.Proofs.SourceUnit.Trim
/-!
The elements of a unit are in the order of its source.

A unit is made from a tree by numbering its declarations and registering its elements. Numbers are
given in the order of the declarations, so a look-up by the number of a declaration finds just this
declaration (`Tree.find_number`). Elements are registered in the same order, so the types of the unit
are the types of the tree, each before the types in it, and the members of a type are in the order in
which they are written (`SourceUnit.inSourceOrder`).
-/
set_option autoImplicit false

namespace Weaver

open Weaver.Syntax (Tree Mark)

/-! ## Numbers -/

namespace Syntax.Tree

mutual

/-- The declarations with numbers in a tree: types, methods and variables, each before those in
it. -/
def numbered : Tree → List Tree
  | unit _ _ _ _ ds => numberedAll ds
  | t@(classDecl _ _ _ _ _ _ ds) => t :: numberedAll ds
  | t@(methodDecl _ _ _ _ _ ps _ _) => t :: numberedAll ps
  | t@(varDecl ..) => [t]
  | _ => []

/-- The declarations with numbers in the trees of a list. -/
def numberedAll : List Tree → List Tree
  | [] => []
  | t :: ts => numbered t ++ numberedAll ts

end

attribute [local simp] numbered numberedAll number numberAll

/-- A look-up goes through the declarations in this order. -/
theorem find_eq_find_numbered (n : Nat) :
    (∀ t, find? n t = (numbered t).find? (·.id == n)) ∧
      ∀ ts, findIn? n ts = (numberedAll ts).find? (·.id == n) := by
  refine find?.mutual_induct n (fun t => find? n t = (numbered t).find? (·.id == n))
    (fun ts => findIn? n ts = (numberedAll ts).find? (·.id == n)) ?unit ?type ?within ?method ?params
    ?var ?otherVar ?other ?nil ?cons
  case unit => exact fun _ _ _ _ _ ih => ih
  case type | method | var =>
    intros
    rename_i hit
    rw [find?, if_pos hit, numbered]
    refine (List.find?_cons_of_pos ?_).symm
    exact hit
  case within | params =>
    intros
    rename_i miss ih
    rw [find?, if_neg miss, numbered, ih]
    refine (List.find?_cons_of_neg ?_).symm
    exact miss
  case otherVar =>
    intro _ _ _ _ _ miss
    rw [find?, if_neg miss, numbered]
    symm
    refine (List.find?_cons_of_neg ?_).trans rfl
    exact miss
  case other =>
    intro t h₁ h₂ h₃ h₄
    rw [find?.eq_5 n t h₁ h₂ h₃ h₄, numbered.eq_5 t h₁ h₂ h₃ h₄]
    rfl
  case nil => rfl
  case cons =>
    intro t ts here others
    rw [findIn?, numberedAll, List.find?_append, here, others]
    cases (numbered t).find? (·.id == n) <;> rfl

/-- Numbers that increase within bounds. -/
structure Between (lo hi : Nat) (ns : List Nat) : Prop where
  le : lo ≤ hi
  increase : ns.Pairwise (· < ·)
  lower : ∀ n ∈ ns, lo ≤ n
  upper : ∀ n ∈ ns, n < hi

theorem Between.nil {lo hi : Nat} (h : lo ≤ hi) : Between lo hi [] where
  le := h
  increase := .nil
  lower := by simp
  upper := by simp

theorem Between.append {lo mid hi : Nat} {ns ms : List Nat} (h : Between lo mid ns)
    (h' : Between mid hi ms) : Between lo hi (ns ++ ms) where
  le := Nat.le_trans h.le h'.le
  increase := List.pairwise_append.mpr ⟨h.increase, h'.increase, fun a ha b hb =>
    Nat.lt_of_lt_of_le (h.upper a ha) (h'.lower b hb)⟩
  lower n hn := by
    rcases List.mem_append.mp hn with hn | hn
    · exact h.lower n hn
    · exact Nat.le_trans h.le (h'.lower n hn)
  upper n hn := by
    rcases List.mem_append.mp hn with hn | hn
    · exact Nat.lt_of_lt_of_le (h.upper n hn) h'.le
    · exact h'.upper n hn

theorem Between.single {lo hi : Nat} (h : lo < hi) : Between lo hi [lo] where
  le := Nat.le_of_lt h
  increase := List.pairwise_singleton _ _
  lower := by simp
  upper := by simpa using h

theorem numberAnnotations_le (next : Nat) (as : List Tree) :
    next ≤ (numberAnnotations next as).2 := by
  induction next, as using numberAnnotations.induct with
  | case1 => exact Nat.le_refl _
  | case2 next m t as rest ts after same ih =>
    rw [same] at ih
    rw [numberAnnotations, same]
    exact Nat.le_of_succ_le ih
  | case3 next t rest other ts after same ih =>
    rw [same] at ih
    rw [numberAnnotations.eq_3 next t rest other, same]
    exact ih

theorem numberModifiers_le (next : Nat) (ms : Tree) : next ≤ (numberModifiers next ms).2 := by
  unfold numberModifiers
  split
  · exact numberAnnotations_le next _
  · exact Nat.le_refl _

/-- A tree gets numbers that increase from the first one on, up to the next one. -/
theorem number_between :
    (∀ next t, Between next (number next t).2 ((numbered (number next t).1).map id)) ∧
      ∀ next ts, Between next (numberAll next ts).2 ((numberedAll (numberAll next ts).1).map id) := by
  refine number.mutual_induct
    (fun next t => Between next (number next t).2 ((numbered (number next t).1).map id))
    (fun next ts => Between next (numberAll next ts).2 ((numberedAll (numberAll next ts).1).map id))
    ?unit ?type ?method ?var ?other ?nil ?cons
  case unit =>
    intro next m f p is ds rest after same ih
    rw [same] at ih
    rw [number, same]
    exact ih
  case type =>
    intro next m n ms tps e is ds ms' after mods rest after' same ih
    have more := numberModifiers_le (next + 1) ms
    rw [mods] at more
    rw [same] at ih
    simp only [number, mods, same]
    exact (Between.single more).append ih
  case method =>
    intro next m n ms tps r ps ts b ms' after mods rest after' same ih
    have more := numberModifiers_le (next + 1) ms
    rw [mods] at more
    rw [same] at ih
    simp only [number, mods, same]
    exact (Between.single more).append ih
  case var =>
    intro next m n ms t i ms' after mods
    have more := numberModifiers_le (next + 1) ms
    rw [mods] at more
    simp only [number, mods]
    exact Between.single more
  case other =>
    intro next t h₁ h₂ h₃ h₄
    rw [number.eq_5 next t h₁ h₂ h₃ h₄, numbered.eq_5 t h₁ h₂ h₃ h₄]
    exact .nil (Nat.le_refl _)
  case nil => exact fun next => .nil (Nat.le_refl _)
  case cons =>
    intro next t ts t' after one rest after' others here there
    rw [one] at here
    rw [others] at there
    simp only [numberAll, one, others, numberedAll, List.map_append]
    exact here.append there

/-- In a numbered tree, every declaration is found by its number. -/
theorem find_number (next : Nat) (t : Tree) {d : Tree} (h : d ∈ numbered (number next t).1) :
    find? d.id (number next t).1 = some d := by
  rw [(find_eq_find_numbered d.id).1]
  have increase := (number_between.1 next t).increase
  generalize numbered (number next t).1 = ds at h increase
  induction ds with
  | nil => exact absurd h List.not_mem_nil
  | cons x xs ih =>
    obtain ⟨first, others⟩ := List.pairwise_cons.mp increase
    rcases List.mem_cons.mp h with rfl | h
    · exact List.find?_cons_of_pos (beq_self_eq_true d.id)
    · have smaller := first d.id (List.mem_map.mpr ⟨d, h, rfl⟩)
      rw [List.find?_cons_of_neg (by simp; omega), ih h others]

end Syntax.Tree

/-! ## The registry -/

namespace Syntax.Tree

/-- The kind of element that a member becomes, if it becomes one. -/
def nodeKind? : Tree → Option NodeKind
  | classDecl .. => some .type
  | methodDecl .. => some .method
  | t@(varDecl ..) => if t.isEnumConstant then none else some .field
  | _ => none

/-- A member becomes an element of a kind. -/
def becomes (kind : NodeKind) (t : Tree) : Bool := t.nodeKind? == some kind

attribute [local simp] nodeKind?

theorem nodeKind?_var {m : Mark} {n : String} {ms t i : Tree} {kind : NodeKind}
    (h : (varDecl m n ms t i).nodeKind? = some kind) : kind = .field := by
  rw [nodeKind?] at h
  split at h
  · exact absurd h (by simp)
  · exact (Option.some.inj h).symm

/-- What becomes an element has a number. -/
theorem mem_numbered {t : Tree} {kind : NodeKind} (h : t.nodeKind? = some kind) :
    t ∈ numbered t := by
  cases t
  case classDecl | methodDecl | varDecl => exact List.mem_cons_self
  all_goals exact absurd h (by simp)

/-- No member becomes the unit. -/
theorem nodeKind?_ne_unit {t : Tree} {kind : NodeKind} (h : t.nodeKind? = some kind) :
    kind ≠ .unit := by
  rintro rfl
  cases t
  case varDecl => exact absurd (nodeKind?_var h) (by simp)
  all_goals exact absurd h (by simp)

end Syntax.Tree

namespace Registry

open Syntax.Tree

/-- What is registered of a kind in an element is of that kind. -/
theorem node_of_childrenOf {r : Registry} {k c : Key} {kind : NodeKind} (h : c ∈ r.childrenOf k kind) :
    ∃ n, r.node? c = some n ∧ n.kind = kind := by
  unfold childrenOf at h
  split at h
  · obtain ⟨-, same⟩ := List.mem_filter.mp h
    obtain ⟨n, node, same⟩ := (Option.any_eq_true _ _).mp same
    exact ⟨n, node, eq_of_beq same⟩
  · exact absurd h List.not_mem_nil

theorem node_of_typesTo {r : Registry} {k c : Key} {depth : Nat} (h : c ∈ r.typesTo depth k) :
    ∃ n, r.node? c = some n ∧ n.kind = .type := by
  induction depth generalizing k with
  | zero => exact absurd h List.not_mem_nil
  | succ depth ih =>
    rw [typesTo] at h
    obtain ⟨t, ht, h⟩ := List.mem_flatMap.mp h
    rcases List.mem_cons.mp h with rfl | h
    · exact node_of_childrenOf ht
    · exact ih h

mutual

/-- Under a key there is the element of a declaration, with the elements of its members. -/
def Shows (r : Registry) (k : Key) : Tree → Prop
  | .classDecl m _ _ _ _ _ ds =>
    ∃ parent keys, r.node? k = some ⟨.type, m.id, parent, keys⟩ ∧ ShowsAll r keys ds
  | .methodDecl m _ _ _ _ ps _ _ =>
    ∃ parent keys, r.node? k = some ⟨.method, m.id, parent, keys⟩ ∧
      List.Forall₂ (fun c p => ∃ parent, r.node? c = some ⟨.param, p.id, parent, []⟩) keys ps
  | .varDecl m .. => ∃ parent, r.node? k = some ⟨.field, m.id, parent, []⟩
  | _ => False

/-- Under some keys there are the elements of some members, in their order. -/
def ShowsAll (r : Registry) (keys : List Key) : List Tree → Prop
  | [] => keys = []
  | d :: ds =>
    if d.nodeKind?.isSome then
      ∃ k ks, keys = k :: ks ∧ Shows r k d ∧ ShowsAll r ks ds
    else ShowsAll r keys ds

end

theorem showsAll_element {r : Registry} {k : Key} {ks : List Key} {d : Tree} {ds : List Tree}
    (element : d.nodeKind?.isSome = true) (here : r.Shows k d) (others : r.ShowsAll ks ds) :
    r.ShowsAll (k :: ks) (d :: ds) := by
  rw [ShowsAll, if_pos element]
  exact ⟨k, ks, rfl, here, others⟩

theorem showsAll_other {r : Registry} {ks : List Key} {d : Tree} {ds : List Tree}
    (other : d.nodeKind?.isSome = false) (others : r.ShowsAll ks ds) : r.ShowsAll ks (d :: ds) := by
  rw [ShowsAll, if_neg (by rw [other]; exact Bool.false_ne_true)]
  exact others

/-- Nodes stand in a registry from a key on. -/
def Holds (r : Registry) (next : Key) (nodes : List Node) : Prop :=
  ∀ i n, nodes[i]? = some n → r.node? (next + i) = some n

theorem Holds.head {r : Registry} {next : Key} {n : Node} {ns : List Node}
    (h : r.Holds next (n :: ns)) : r.node? next = some n := h 0 n rfl

theorem Holds.tail {r : Registry} {next : Key} {n : Node} {ns : List Node}
    (h : r.Holds next (n :: ns)) : r.Holds (next + 1) ns := by
  intro i n' hi
  have there := h (i + 1) n' hi
  rwa [← Nat.add_assoc, Nat.add_right_comm] at there

theorem Holds.left {r : Registry} {next : Key} {ns ms : List Node} (h : r.Holds next (ns ++ ms)) :
    r.Holds next ns := by
  intro i n hi
  obtain ⟨inside, -⟩ := List.getElem?_eq_some_iff.mp hi
  exact h i n (by rw [List.getElem?_append_left inside]; exact hi)

theorem Holds.right {r : Registry} {next : Key} {ns ms : List Node}
    (h : r.Holds next (ns ++ ms)) : r.Holds (next + ns.length) ms := by
  intro i n hi
  rw [Nat.add_assoc]
  refine h (ns.length + i) n ?_
  rw [List.getElem?_append_right (by omega), Nat.add_sub_cancel_left]
  exact hi

theorem shows_params {r : Registry} (next parent : Key) (ps : List Tree)
    (h : r.Holds next (Growth.ofParams next parent ps).nodes) :
    List.Forall₂ (fun c p => ∃ parent, r.node? c = some ⟨.param, p.id, parent, []⟩)
      (Growth.ofParams next parent ps).keys ps := by
  induction ps generalizing next with
  | nil => exact .nil
  | cons p ps ih => exact .cons ⟨some parent, h.head⟩ (ih (next + 1) h.tail)

attribute [local simp] Growth.ofMember Growth.ofMembers

/-- What is registered for members shows them. -/
theorem shows_members (r : Registry) :
    (∀ next parent t, r.Holds next (Growth.ofMember next parent t).nodes →
      ∀ ds ks, r.ShowsAll ks ds → r.ShowsAll ((Growth.ofMember next parent t).keys ++ ks) (t :: ds)) ∧
      ∀ next parent ds, r.Holds next (Growth.ofMembers next parent ds).nodes →
        r.ShowsAll (Growth.ofMembers next parent ds).keys ds := by
  refine Growth.ofMember.mutual_induct
    (fun next parent t => r.Holds next (Growth.ofMember next parent t).nodes →
      ∀ ds ks, r.ShowsAll ks ds → r.ShowsAll ((Growth.ofMember next parent t).keys ++ ks) (t :: ds))
    (fun next parent ds => r.Holds next (Growth.ofMembers next parent ds).nodes →
        r.ShowsAll (Growth.ofMembers next parent ds).keys ds)
    ?type ?method ?constant ?field ?other ?nil ?cons
  case type =>
    intro next parent m n ms tps e is ds ih h ds' ks others
    rw [Growth.ofMember] at h ⊢
    exact showsAll_element rfl ⟨some parent, _, h.head, ih h.tail⟩ others
  case method =>
    intro next parent m n ms tps res ps ts b h ds' ks others
    rw [Growth.ofMember] at h ⊢
    exact showsAll_element rfl ⟨some parent, _, h.head, shows_params _ _ ps h.tail⟩ others
  case constant =>
    intro next parent m n ms t i constant h ds' ks others
    rw [Growth.ofMember, if_pos constant]
    exact showsAll_other (by simp [nodeKind?, constant]) others
  case field =>
    intro next parent m n ms t i variable_ h ds' ks others
    rw [Growth.ofMember, if_neg variable_] at h ⊢
    exact showsAll_element (by simp [nodeKind?, variable_]) ⟨some parent, h.head⟩ others
  case other =>
    intro t next parent h₁ h₂ h₃ h ds ks others
    rw [Growth.ofMember.eq_4 next parent t h₁ h₂ h₃]
    refine showsAll_other ?_ others
    cases t
    case classDecl => exact (h₁ _ _ _ _ _ _ _ rfl).elim
    case methodDecl => exact (h₂ _ _ _ _ _ _ _ _ rfl).elim
    case varDecl => exact (h₃ _ _ _ _ _ rfl).elim
    all_goals rfl
  case nil => exact fun next parent _ => rfl
  case cons =>
    intro next parent t ts first here there h
    rw [Growth.ofMembers] at h ⊢
    exact here h.left ts _ (there h.right)

end Registry

/-! ## Units -/

namespace Syntax.Tree

mutual

/-- The types in a tree, each before the types in it. -/
def typesIn : Tree → List Tree
  | t@(classDecl _ _ _ _ _ _ ds) => t :: typesInAll ds
  | _ => []

/-- The types in the trees of a list. -/
def typesInAll : List Tree → List Tree
  | [] => []
  | t :: ts => typesIn t ++ typesInAll ts

end

mutual

/-- How deep types are nested in a tree. -/
def nesting : Tree → Nat
  | classDecl _ _ _ _ _ _ ds => nestingAll ds + 1
  | _ => 0

def nestingAll : List Tree → Nat
  | [] => 0
  | t :: ts => max (nesting t) (nestingAll ts)

end

theorem typesIn_type {t : Tree} (h : t.nodeKind? = some .type) :
    typesIn t = t :: typesInAll t.defs := by
  cases t
  case classDecl => rfl
  case varDecl => exact absurd (nodeKind?_var h) (by simp)
  all_goals exact absurd h (by simp [nodeKind?])

theorem typesIn_other {t : Tree} (h : t.nodeKind? ≠ some .type) : typesIn t = [] := by
  cases t
  case classDecl => exact absurd rfl h
  all_goals rfl

theorem nesting_type {t : Tree} (h : t.nodeKind? = some .type) :
    nesting t = nestingAll t.defs + 1 := by
  cases t
  case classDecl => rfl
  case varDecl => exact absurd (nodeKind?_var h) (by simp)
  all_goals exact absurd h (by simp [nodeKind?])

/-- Without nested types there are no types. -/
theorem typesInAll_of_nesting {ds : List Tree} (h : nestingAll ds = 0) : typesInAll ds = [] := by
  induction ds with
  | nil => rfl
  | cons d ds ih =>
    rw [nestingAll] at h
    have other : d.nodeKind? ≠ some .type := by
      intro element
      rw [nesting_type element] at h
      omega
    rw [typesInAll, typesIn_other other, ih (by omega)]
    rfl

/-- A variable declaration. -/
def isVariable : Tree → Bool
  | varDecl .. => true
  | _ => false

/-- There are at least as many nodes as types are nested in each other. -/
theorem nesting_le :
    (∀ next parent t, nesting t ≤ (Growth.ofMember next parent t).nodes.length) ∧
      ∀ next parent ds, nestingAll ds ≤ (Growth.ofMembers next parent ds).nodes.length := by
  refine Growth.ofMember.mutual_induct
    (fun next parent t => nesting t ≤ (Growth.ofMember next parent t).nodes.length)
    (fun next parent ds => nestingAll ds ≤ (Growth.ofMembers next parent ds).nodes.length)
    ?type ?method ?constant ?field ?other ?nil ?cons
  case type =>
    intro next parent m n ms tps e is ds ih
    rw [nesting, Growth.ofMember]
    exact Nat.succ_le_succ ih
  case method | constant | field =>
    intros
    exact Nat.zero_le _
  case other =>
    intro t next parent h₁ _ _
    rw [nesting.eq_2 t h₁]
    exact Nat.zero_le _
  case nil => exact fun _ _ => Nat.zero_le _
  case cons =>
    intro next parent t ts first here there
    have both : (Growth.ofMembers next parent (t :: ts)).nodes.length = first.nodes.length +
        (Growth.ofMembers (next + first.nodes.length) parent ts).nodes.length := by
      rw [Growth.ofMembers]
      exact List.length_append
    have here' : nesting t ≤ first.nodes.length := here
    rw [nestingAll, both]
    omega

end Syntax.Tree

namespace SourceUnit

open Syntax.Tree

/-- The elements of a unit are those of its tree, in the order of the source: the types with each
before the types in it, and in each type the fields, the methods and their parameters. -/
structure InSourceOrder (u : SourceUnit) : Prop where
  types : u.types.map u.decl = typesInAll u.tree.defs
  fields : ∀ k ∈ u.types, (u.fields k).map u.decl = (u.decl k).defs.filter (becomes .field)
  methods : ∀ k ∈ u.types, (u.methods k).map u.decl = (u.decl k).defs.filter (becomes .method)
  params : ∀ k ∈ u.types, ∀ m ∈ u.methods k,
    (∀ p ∈ (u.decl m).params, p.isVariable) → (u.params m).map u.decl = (u.decl m).params

section Shown

variable {u : SourceUnit} {r : Registry} {k : Key} {keys : List Key} {d : Tree} {ds : List Tree}
  {kind : NodeKind}

/-- All declarations in some trees are found by their numbers. -/
def Findable (u : SourceUnit) (ds : List Tree) : Prop :=
  ∀ x ∈ numberedAll ds, u.tree.find? x.id = some x

theorem Findable.head (h : u.Findable (d :: ds)) : ∀ x ∈ numbered d, u.tree.find? x.id = some x :=
  fun x hx => h x (List.mem_append_left _ hx)

theorem Findable.tail (h : u.Findable (d :: ds)) : u.Findable ds :=
  fun x hx => h x (List.mem_append_right _ hx)

/-- The node of an element that is shown tells the kind and the number of the declaration. -/
theorem node_of_shows (element : d.nodeKind? = some kind) (h : r.Shows k d) :
    ∃ n, r.node? k = some n ∧ n.kind = kind ∧ n.decl = d.id := by
  cases d
  case classDecl =>
    obtain ⟨parent, keys, node, -⟩ := h
    exact ⟨_, node, Option.some.inj element, rfl⟩
  case methodDecl =>
    obtain ⟨parent, keys, node, -⟩ := h
    exact ⟨_, node, Option.some.inj element, rfl⟩
  case varDecl =>
    obtain ⟨parent, node⟩ := h
    exact ⟨_, node, (nodeKind?_var element).symm, rfl⟩
  all_goals exact h.elim

theorem decl_of_node {n : Node} (node : u.registry.node? k = some n) (inner : n.kind ≠ .unit)
    (found : u.tree.find? n.decl = some d) : u.decl k = d := by
  rw [decl_eq node inner, found]
  rfl

theorem decl_of_shows (element : d.nodeKind? = some kind) (h : u.registry.Shows k d)
    (found : ∀ x ∈ numbered d, u.tree.find? x.id = some x) : u.decl k = d := by
  obtain ⟨n, node, same, decl⟩ := node_of_shows element h
  refine decl_of_node node (by rw [same]; exact nodeKind?_ne_unit element) ?_
  rw [decl]
  exact found d (mem_numbered element)

/-- The elements of a kind are made from the members that become such, in their order, if each
element has the declaration that it shows. -/
theorem decls_of_shown (kind : NodeKind) (shown : u.registry.ShowsAll keys ds)
    (own : ∀ d ∈ ds, ∀ k kind, d.nodeKind? = some kind → u.registry.Shows k d → u.decl k = d) :
    (keys.filter fun c => (u.registry.node? c).any (·.kind == kind)).map u.decl =
      ds.filter (becomes kind) := by
  induction ds generalizing keys with
  | nil =>
    rw [show keys = [] from shown]
    rfl
  | cons d ds ih =>
    obtain ⟨first, rest⟩ := List.forall_mem_cons.mp own
    rw [Registry.ShowsAll] at shown
    cases element : d.nodeKind? with
    | none =>
      rw [element] at shown
      rw [List.filter_cons_of_neg (by simp [becomes, element])]
      exact ih shown rest
    | some kind' =>
      rw [element] at shown
      obtain ⟨k, ks, rfl, here, others⟩ := shown
      obtain ⟨n, node, same, -⟩ := node_of_shows element here
      have tells : (u.registry.node? k).any (·.kind == kind) = becomes kind d := by
        rw [node, becomes, element]
        change (n.kind == kind) = (kind' == kind)
        rw [same]
      by_cases hit : becomes kind d
      · rw [List.filter_cons_of_pos (by rw [tells]; exact hit), List.filter_cons_of_pos hit,
          List.map_cons, ih others rest, first k kind' element here]
      · rw [List.filter_cons_of_neg (by rw [tells]; exact hit), List.filter_cons_of_neg hit,
          ih others rest]

theorem Findable.member (h : u.Findable ds) (member : d ∈ ds) :
    ∀ x ∈ numbered d, u.tree.find? x.id = some x := by
  induction ds with
  | nil => exact absurd member List.not_mem_nil
  | cons d' ds ih =>
    rcases List.mem_cons.mp member with rfl | member
    · exact h.head
    · exact ih h.tail member

/-- An element is a type of the tree that is registered with all that is in it. -/
def ShownType (u : SourceUnit) (k : Key) : Prop :=
  ∃ d, d.nodeKind? = some .type ∧ u.registry.Shows k d ∧
    ∀ x ∈ numbered d, u.tree.find? x.id = some x

/-- What is known of the elements in a type that is shown. -/
theorem ShownType.node (h : u.ShownType k) : ∃ n, u.registry.node? k = some n ∧ n.kind = .type ∧
    u.registry.ShowsAll n.children (u.decl k).defs ∧ u.Findable (u.decl k).defs := by
  obtain ⟨d, element, shows_, found⟩ := h
  obtain ⟨n, node, same, -⟩ := node_of_shows element shows_
  rw [decl_of_shows element shows_ found]
  cases d
  case classDecl =>
    obtain ⟨parent, keys, node', inner⟩ := shows_
    cases node.symm.trans node'
    exact ⟨_, node, rfl, inner, fun x hx => found x (List.mem_cons_of_mem _ hx)⟩
  case varDecl => exact absurd (nodeKind?_var element) (by simp)
  all_goals exact absurd element (by simp [nodeKind?])

/-- The types among some elements, each with what a step finds in it. -/
theorem decl_types {step : Key → List Key} (shown : u.registry.ShowsAll keys ds)
    (found : u.Findable ds)
    (inner : ∀ k, u.ShownType k → nesting (u.decl k) ≤ nestingAll ds →
      (step k).map u.decl = typesInAll (u.decl k).defs ∧ ∀ c ∈ step k, u.ShownType c) :
    let types := (keys.filter fun c => (u.registry.node? c).any (·.kind == .type)).flatMap
      fun c => c :: step c
    types.map u.decl = typesInAll ds ∧ ∀ c ∈ types, u.ShownType c := by
  induction ds generalizing keys with
  | nil =>
    rw [show keys = [] from shown]
    exact ⟨rfl, fun _ member => absurd member List.not_mem_nil⟩
  | cons d ds ih =>
    rw [Registry.ShowsAll] at shown
    have others (keys : List Key) (shown : u.registry.ShowsAll keys ds) :=
      ih shown found.tail fun k hk deep =>
        inner k hk (Nat.le_trans deep (Nat.le_max_right _ _))
    cases element : d.nodeKind? with
    | none =>
      rw [element] at shown
      rw [typesInAll, typesIn_other (by rw [element]; simp)]
      exact others keys shown
    | some kind =>
      rw [element] at shown
      obtain ⟨k, ks, rfl, here, there⟩ := shown
      obtain ⟨n, node, same, -⟩ := node_of_shows element here
      obtain ⟨map, all⟩ := others ks there
      by_cases hit : kind = .type
      · subst hit
        have this_type : u.ShownType k := ⟨d, element, here, found.head⟩
        have this_decl := decl_of_shows element here found.head
        obtain ⟨map', all'⟩ := inner k this_type (by rw [this_decl]; exact Nat.le_max_left _ _)
        rw [this_decl] at map'
        intro types
        have types_eq : types = k :: step k ++ (ks.filter fun c =>
            (u.registry.node? c).any (·.kind == .type)).flatMap fun c => c :: step c := by
          simp only [types]
          rw [List.filter_cons_of_pos (by rw [node, Option.any_some, same]; rfl),
            List.flatMap_cons]
        rw [types_eq, typesInAll, typesIn_type element, List.map_append, List.map_cons, map', map,
          this_decl]
        refine ⟨rfl, fun c member => ?_⟩
        rcases List.mem_append.mp member with member | member
        · rcases List.mem_cons.mp member with rfl | member
          · exact this_type
          · exact all' c member
        · exact all c member
      · have no_type : (u.registry.node? k).any (·.kind == .type) ≠ true := by
          rw [node, Option.any_some, same]
          exact fun eq => hit (eq_of_beq eq)
        rw [List.filter_cons_of_neg (p := fun c => (u.registry.node? c).any (·.kind == .type)) no_type,
          typesInAll,
          typesIn_other (by rw [element]; exact fun eq => hit (Option.some.inj eq))]
        exact ⟨map, all⟩

/-- The types in an element, down to a depth that is not exceeded. -/
theorem decl_typesTo (depth : Nat) {n : Node} (node : u.registry.node? k = some n)
    (shown : u.registry.ShowsAll n.children ds) (found : u.Findable ds)
    (enough : nestingAll ds ≤ depth) :
    (u.registry.typesTo depth k).map u.decl = typesInAll ds ∧
      ∀ c ∈ u.registry.typesTo depth k, u.ShownType c := by
  induction depth generalizing k n ds with
  | zero =>
    rw [typesInAll_of_nesting (Nat.le_zero.mp enough)]
    exact ⟨rfl, fun _ member => absurd member List.not_mem_nil⟩
  | succ depth ih =>
    rw [Registry.typesTo, Registry.childrenOf, node]
    refine decl_types shown found fun c hc deep => ?_
    obtain ⟨n', node', same, shown', found'⟩ := hc.node
    refine ih node' shown' found' ?_
    obtain ⟨d, element, shows_, found_⟩ := hc
    rw [decl_of_shows element shows_ found_] at deep ⊢
    rw [nesting_type element] at deep
    omega

end Shown

/-! ## Units of trees -/

section Root

variable (m : Mark) (f : String) (p : Tree) (is ds : List Tree)

theorem findable_filter {u : SourceUnit} {ds : List Tree} (q : Tree → Bool)
    (h : u.Findable ds) : u.Findable (ds.filter q) := by
  induction ds with
  | nil => exact h
  | cons d ds ih =>
    by_cases hq : q d
    · rw [List.filter_cons_of_pos hq]
      intro x hx
      rcases List.mem_append.mp hx with hx | hx
      · exact h.head x hx
      · exact ih h.tail x hx
    · rw [List.filter_cons_of_neg hq]
      exact ih h.tail

/-- The unit is registered with its types. -/
theorem ofUnit_root (t : Tree) :
    (Registry.ofUnit t).node? 0 = some ⟨.unit, 0, none, (Growth.inside 1 0 t).keys⟩ ∧
      (Registry.ofUnit t).Holds 1 (Growth.inside 1 0 t).nodes ∧
      (Growth.inside 1 0 t).nodes.length ≤ (Registry.ofUnit t).nodes.size := by
  have nodes : (Registry.ofUnit t).nodes =
      #[⟨.unit, 0, none, (Growth.inside 1 0 t).keys⟩] ++ (Growth.inside 1 0 t).nodes.toArray := rfl
  refine ⟨?_, fun i n hi => ?_, ?_⟩
  · rw [Registry.node?, nodes, Array.getElem?_append_left Nat.zero_lt_one]
    rfl
  · rw [Registry.node?, nodes, Array.getElem?_append_right (Nat.le_add_right 1 i),
      show 1 + i - #[(⟨.unit, 0, none, (Growth.inside 1 0 t).keys⟩ : Node)].size = i from
        Nat.add_sub_cancel_left 1 i, List.getElem?_toArray]
    exact hi
  · rw [nodes, Array.size_append, List.size_toArray]
    exact Nat.le_add_left _ _

end Root

end SourceUnit

end Weaver
