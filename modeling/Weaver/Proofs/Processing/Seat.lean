import Weaver.Proofs.Processing.Service
import Weaver.Proofs.SourceUnit.Initial
/-!
Where elements stand.

A handler runs on an element, and what it may change is told by the type that the element is or is in
and the method that it is or is a parameter of (`Registry.Seat`). Both stay while elements are
registered anew, since the elements that were registered first keep the elements around them.
-/
set_option autoImplicit false

namespace Weaver

open Weaver.Syntax (Tree Mark)
open Weaver.Syntax.Tree

namespace Registry

/-- No two elements have the same declaration. -/
def Apart (r : Registry) : Prop :=
  ∀ ⦃k k' : Key⦄ ⦃n n' : Node⦄, r.node? k = some n → r.node? k' = some n' → n.decl = n'.decl →
    k = k'

/-- An element with the type and the method it belongs to. -/
inductive Seat (r : Registry) : Key → Key → Option Key → Prop where
  | type {t : Key} {n : Node} (node : r.node? t = some n) (kind : n.kind = .type) : Seat r t t none
  | field {e t : Key} {n n' : Node} (node : r.node? e = some n) (kind : n.kind = .field)
    (parent : n.parent = some t) (outer : r.node? t = some n') (type : n'.kind = .type) :
    Seat r e t none
  | method {e t : Key} {n n' : Node} (node : r.node? e = some n) (kind : n.kind = .method)
    (parent : n.parent = some t) (outer : r.node? t = some n') (type : n'.kind = .type) :
    Seat r e t (some e)
  | param {e m t : Key} {n n' n'' : Node} (node : r.node? e = some n) (kind : n.kind = .param)
    (parent : n.parent = some m) (outer : r.node? m = some n') (method : n'.kind = .method)
    (parent' : n'.parent = some t) (outer' : r.node? t = some n'') (type : n''.kind = .type) :
    Seat r e t (some m)

variable {r r' : Registry} {e t m k : Key} {m? : Option Key} {n : Node}

theorem Seat.type_node (h : r.Seat e t m?) : ∃ n, r.node? t = some n ∧ n.kind = .type := by
  cases h with
  | type node kind => exact ⟨_, node, kind⟩
  | field _ _ _ outer type | method _ _ _ outer type | param _ _ _ _ _ _ outer type =>
    exact ⟨_, outer, type⟩

theorem Seat.method_node (h : r.Seat e t (some m)) :
    ∃ n, r.node? m = some n ∧ n.kind = .method ∧ n.parent = some t := by
  cases h with
  | method node kind parent => exact ⟨_, node, kind, parent⟩
  | param _ _ _ outer method parent => exact ⟨_, outer, method, parent⟩

theorem lt_size (node : r.node? k = some n) : k < r.nodes.size :=
  (Array.getElem?_eq_some_iff.mp node).1

theorem aroundTo_succ (depth : Nat) (node : r.node? e = some n) (parent : n.parent = some k) :
    r.aroundTo (depth + 1) e = k :: r.aroundTo depth k := by
  rw [aroundTo, parent?, node, Option.bind_some, parent]

end Registry

section Stays

variable {r : Registry} {u : SourceUnit} {i : Invocation} {t : Key} {m? : Option Key}

theorem nodeKind_eq (lasts : r.Lasts u.registry) {k : Key} {n : Node}
    (node : r.node? k = some n) : u.nodeKind k = n.kind := by
  obtain ⟨keys, now⟩ := lasts node
  rw [SourceUnit.nodeKind, now]
  rfl

/-- The type of a run is the one in which its element stood at first. -/
theorem Registry.Seat.type_eq (h : r.Seat i.element t m?) (lasts : r.Lasts u.registry) :
    i.type u = t := by
  have kinds := fun {k : Key} {n : Node} => nodeKind_eq (k := k) (n := n) lasts
  generalize same : i.element = e at h
  have inside (found : u.typeAround? e = some t) (other : u.nodeKind e ≠ .type) :
      i.type u = t := by
    rw [Invocation.type, same]
    split
    · next own => exact absurd own other
    · rw [found]
      rfl
  cases h with
  | type node kind =>
    rw [Invocation.type, same, kinds node, kind]
  | field node kind parent outer type | method node kind parent outer type =>
    refine inside ?_ (by rw [kinds node, kind]; exact nofun)
    obtain ⟨keys, now⟩ := lasts node
    obtain ⟨depth, size⟩ := Nat.exists_eq_add_of_lt (Nat.zero_lt_of_lt (lt_size now))
    rw [SourceUnit.typeAround?, Registry.around, size, aroundTo_succ _ now parent]
    exact List.find?_cons_of_pos (by rw [kinds outer, type]; rfl)
  | param node kind parent outer method parent' outer' type =>
    refine inside ?_ (by rw [kinds node, kind]; exact nofun)
    obtain ⟨keys, now⟩ := lasts node
    obtain ⟨keys', now'⟩ := lasts outer
    -- the parameter and its method are two elements, so there are two rounds at least
    have two : 1 < u.registry.nodes.size := by
      by_contra few
      have zero {k : Key} {n : Node} (node : u.registry.node? k = some n) : k = 0 :=
        Nat.lt_one_iff.mp (Nat.lt_of_lt_of_le (lt_size node) (Nat.not_lt.mp few))
      rw [zero now] at node
      rw [zero now', node] at outer
      rw [← Option.some.inj outer, kind] at method
      exact nomatch method
    obtain ⟨depth, size⟩ := Nat.exists_eq_add_of_lt two
    rw [SourceUnit.typeAround?, Registry.around, size, aroundTo_succ _ now parent,
      List.find?_cons_of_neg (by rw [kinds outer, method]; exact nofun),
      Nat.add_comm 1, aroundTo_succ _ now' parent']
    exact List.find?_cons_of_pos (by rw [kinds outer', type]; rfl)

theorem Registry.Seat.method_eq (h : r.Seat i.element t m?) (lasts : r.Lasts u.registry) :
    i.method? u = m? := by
  have kinds := fun {k : Key} {n : Node} => nodeKind_eq (k := k) (n := n) lasts
  generalize same : i.element = e at h
  rw [Invocation.method?, same]
  cases h with
  | type node kind | field node kind | method node kind => rw [kinds node, kind]
  | param node kind parent =>
    obtain ⟨keys, now⟩ := lasts node
    rw [kinds node, kind, Registry.parent?, now, Option.bind_some, parent]

end Stays

/-! ## Occurrences -/

namespace SourceUnit

section Initial

variable {m : Mark} {f : String} {p : Tree} {is ds : List Tree} {k k' c : Key} {n n' : Node}

theorem numbersAll_sublist {ts us : List Tree} (h : ts.Sublist us) :
    (numbersAll ts).Sublist (numbersAll us) := by
  induction h with
  | slnil => exact .slnil
  | cons t _ ih =>
    rw [numbersAll_cons]
    exact ih.trans (List.sublist_append_right _ _)
  | cons_cons t _ ih =>
    rw [numbersAll_cons, numbersAll_cons]
    exact (List.Sublist.refl _).append ih

/-- An element is registered with the element around it. -/
theorem parent_ofTree (proper : (Tree.unit m f p is ds).Proper)
    (node : (ofTree (.unit m f p is ds)).registry.node? k = some n) (hc : c ∈ n.children) :
    ∃ n', (ofTree (.unit m f p is ds)).registry.node? c = some n' ∧ n'.parent = some k := by
  obtain ⟨g, ds', -, listed, fits⟩ := fits_ofTree proper
  rcases node_of_listed listed node with ⟨rfl, rfl⟩ | ⟨i, rfl, grown⟩
  · exact fits.outer c hc
  · exact fits.inner i n grown c hc

theorem apart_ofTree (proper : (Tree.unit m f p is ds).Proper) :
    (ofTree (.unit m f p is ds)).registry.Apart := by
  obtain ⟨g, ds', part, listed, fits⟩ := fits_ofTree proper
  have numbers : (g.nodes.map (·.decl)).Sublist (numbersAll (numberAll 1 ds).1) :=
    fits.numbers.trans (numbersAll_sublist part)
  have between := number_between.2 1 ds
  have distinct : (g.nodes.map (·.decl)).Nodup :=
    (between.increase.imp Nat.ne_of_lt).sublist numbers
  have positive {i : Nat} {n : Node} (h : g.nodes[i]? = some n) : n.decl ≠ 0 :=
    Nat.ne_of_gt (between.lower _ (numbers.mem (List.mem_map_of_mem (List.mem_of_getElem? h))))
  intro k k' n n' node node' same
  rcases node_of_listed listed node with ⟨rfl, rfl⟩ | ⟨i, rfl, grown⟩ <;>
    rcases node_of_listed listed node' with ⟨rfl, rfl⟩ | ⟨j, rfl, grown'⟩
  · rfl
  · exact absurd same.symm (positive grown')
  · exact absurd same (positive grown)
  · have here : (g.nodes.map (·.decl))[i]? = some n.decl := by rw [List.getElem?_map, grown]; rfl
    have there : (g.nodes.map (·.decl))[j]? = some n.decl := by
      rw [List.getElem?_map, grown', same]
      rfl
    obtain ⟨inside, -⟩ := List.getElem?_eq_some_iff.mp here
    rw [(List.getElem?_inj inside distinct).mp (here.trans there.symm)]

end Initial

end SourceUnit

namespace Occurrence

variable {c : Config} {handlers : List Handler} {m : Mark} {f : String} {p : Tree}
  {is ds : List Tree} {o : Occurrence}

/-- The element of an occurrence stands in a type. -/
theorem seat (proper : (Tree.unit m f p is ds).Proper)
    (member : o ∈ all c handlers (.ofTree (.unit m f p is ds))) :
    ∃ t m?, (SourceUnit.ofTree (.unit m f p is ds)).registry.Seat o.invocation.element t m? := by
  generalize same : SourceUnit.ofTree (.unit m f p is ds) = u at member
  have child {k c : Key} {kind : NodeKind} (hc : c ∈ u.registry.childrenOf k kind) :
      ∃ n, u.registry.node? c = some n ∧ n.kind = kind ∧ n.parent = some k := by
    obtain ⟨n, node, own⟩ := Registry.node_of_childrenOf hc
    rw [Registry.childrenOf] at hc
    split at hc
    · next n' outer =>
      rw [← same] at outer node
      obtain ⟨n'', node', parent⟩ :=
        SourceUnit.parent_ofTree proper outer (List.mem_of_mem_filter hc)
      obtain rfl := Option.some.inj (node.symm.trans node')
      exact ⟨n, same ▸ node, own, parent⟩
    · exact absurd hc List.not_mem_nil
  have element {k : Key} (found : o ∈ onElement c handlers u k) : o.invocation.element = k := by
    obtain ⟨a, -, found⟩ := List.mem_flatMap.mp found
    obtain ⟨g, -, rfl⟩ := List.mem_map.mp found
    rfl
  obtain ⟨t, type, member⟩ := List.mem_flatMap.mp member
  obtain ⟨n, outer, kind⟩ := Registry.node_of_typesTo type
  simp only [onType, onMethod, List.mem_append, List.mem_flatMap] at member
  rcases member with ((own | interface) | ⟨x, field, found⟩) | ⟨x, method, (own | param) | call⟩
  · exact ⟨t, none, by rw [element own]; exact .type outer kind⟩
  · obtain ⟨g, -, rfl⟩ := List.mem_map.mp interface
    exact ⟨t, none, .type outer kind⟩
  · obtain ⟨n', node, kind', parent⟩ := child field
    exact ⟨t, none, by rw [element found]; exact .field node kind' parent outer kind⟩
  · obtain ⟨n', node, kind', parent⟩ := child method
    exact ⟨t, some x, by rw [element own]; exact .method node kind' parent outer kind⟩
  · obtain ⟨n', node, kind', parent⟩ := child method
    obtain ⟨y, hy, found⟩ := param
    obtain ⟨n'', node', kind'', parent'⟩ := child hy
    exact ⟨t, some x, by rw [element found]; exact .param node' kind'' parent' node kind' parent outer kind⟩
  · obtain ⟨n', node, kind', parent⟩ := child method
    obtain ⟨g, -, rfl⟩ := List.mem_map.mp call
    exact ⟨t, some x, .method node kind' parent outer kind⟩

end Occurrence

end Weaver
