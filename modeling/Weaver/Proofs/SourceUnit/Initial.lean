import Weaver.Proofs.SourceUnit.Current
import Weaver.Proofs.SourceUnit.Proper
/-!
A unit as it was read.

The declarations of a unit that is made of a tree have distinct numbers, and its elements are
registered with them. If the tree is proper, the unit is sound (`SourceUnit.sound_ofTree`), and all
its types are registered with all their fields.
-/
set_option autoImplicit false

namespace Weaver

open Weaver.Syntax (Tree Mark)
open Weaver.Syntax.Tree

namespace Syntax.Tree

variable {ts us : List Tree} {d t : Tree}

theorem mem_numberedAll : d ∈ numberedAll ts ↔ ∃ t ∈ ts, d ∈ numbered t := by
  induction ts with
  | nil => simp [numberedAll]
  | cons t ts ih => rw [numberedAll, List.mem_append, ih, List.exists_mem_cons_iff]

theorem numberedAll_subset (h : ts ⊆ us) : numberedAll ts ⊆ numberedAll us := by
  intro d hd
  obtain ⟨t, ht, inside⟩ := mem_numberedAll.mp hd
  exact mem_numberedAll.mpr ⟨t, h ht, inside⟩

/-- The parameters of a proper method are variables. -/
theorem isVariable_of_proper (proper : d.Proper) : ∀ p ∈ d.params, p.isVariable := by
  cases d
  case methodDecl =>
    intro p hp
    obtain ⟨m, n, ms, ty, rfl⟩ := proper.1 p hp
    rfl
  all_goals exact nofun

end Syntax.Tree

namespace SourceUnit

section Initial

variable {m : Mark} {f : String} {p : Tree} {is ds : List Tree} {k : Key} {n : Node}

theorem pool_ofTree (m : Mark) (f : String) (p : Tree) (is ds : List Tree) :
    (ofTree (.unit m f p is ds)).pool = [.unit m f p is (numberAll 1 ds).1] := rfl

theorem numbers_ofTree : Between 1 (ofTree (.unit m f p is ds)).next
    (numbersAll (ofTree (.unit m f p is ds)).pool) := by
  rw [pool_ofTree, numbersAll_singleton]
  exact number_between.2 1 ds

/-- A declaration in a proper unit is proper. -/
theorem proper_ofTree {d : Tree} (proper : (Tree.unit m f p is ds).Proper)
    (hd : d ∈ numberedAll (ofTree (.unit m f p is ds)).pool) : d.Proper := by
  have whole : (number 1 (.unit m f p is ds)).1.Proper := proper_number.1 1 _ proper
  have distinct : (numbersAll (ofTree (.unit m f p is ds)).pool).Nodup :=
    numbers_ofTree.increase.imp Nat.ne_of_lt
  exact (proper_find d.id).2 _ d (findIn_of_mem distinct hd) ⟨whole, trivial⟩

/-- What is registered in a unit: the unit itself, and what fits its types. -/
theorem fits_ofTree (proper : (Tree.unit m f p is ds).Proper) :
    ∃ g ds', ds'.Sublist (numberAll 1 ds).1 ∧
      (ofTree (.unit m f p is ds)).registry.nodes =
        #[⟨.unit, 0, none, g.keys⟩] ++ g.nodes.toArray ∧
      (ofTree (.unit m f p is ds)).registry.Fits 1 0 g ds' := by
  refine ⟨_, _, List.filter_sublist, rfl, (Registry.fits_members _).2 1 0 _ (fun d hd =>
    isVariable_of_proper (proper_ofTree proper ?_))
    (ofUnit_root (.unit m f p is (numberAll 1 ds).1)).2.1⟩
  rw [pool_ofTree, numberedAll, numberedAll, List.append_nil]
  exact numberedAll_subset (List.filter_subset_self _) hd

theorem node_of_listed {r : Registry} {root : Node} {ns : List Node}
    (listed : r.nodes = #[root] ++ ns.toArray) (node : r.node? k = some n) :
    k = 0 ∧ n = root ∨ ∃ i, k = 1 + i ∧ ns[i]? = some n := by
  rw [Registry.node?, listed] at node
  cases k with
  | zero =>
    rw [Array.getElem?_append_left Nat.zero_lt_one] at node
    exact .inl ⟨rfl, (Option.some.inj node).symm⟩
  | succ i =>
    refine .inr ⟨i, Nat.add_comm i 1, ?_⟩
    rwa [Array.getElem?_append_right (Nat.le_add_left 1 i), List.getElem?_toArray] at node

/-- An element of a unit has a declaration from which what is in it was registered. -/
theorem made_ofTree (proper : (Tree.unit m f p is ds).Proper)
    (node : (ofTree (.unit m f p is ds)).registry.node? k = some n) (inner : n.kind ≠ .unit) :
    findIn? n.decl (ofTree (.unit m f p is ds)).pool = some ((ofTree (.unit m f p is ds)).decl k) ∧
      (ofTree (.unit m f p is ds)).registry.Made n ((ofTree (.unit m f p is ds)).decl k) := by
  have distinct : (numbersAll (ofTree (.unit m f p is ds)).pool).Nodup :=
    numbers_ofTree.increase.imp Nat.ne_of_lt
  obtain ⟨g, ds', part, listed, fits⟩ := fits_ofTree proper
  rcases node_of_listed listed node with ⟨-, rfl⟩ | ⟨i, -, grown⟩
  · exact absurd rfl inner
  · obtain ⟨d, hd, made⟩ := fits.made n (List.mem_of_getElem? grown)
    have there : d ∈ numberedAll (ofTree (.unit m f p is ds)).pool := by
      rw [pool_ofTree, numberedAll, numberedAll, List.append_nil]
      exact numberedAll_subset part.subset hd
    have found := findIn_of_mem distinct there
    rw [made.number] at found
    rw [decl_of_findIn node inner found]
    exact ⟨found, made⟩

theorem founded_ofTree (proper : (Tree.unit m f p is ds).Proper) :
    (ofTree (.unit m f p is ds)).Founded (ofTree (.unit m f p is ds)).registry where
  lasts _ n node := ⟨n.children, node⟩
  root {k n} node kind := by
    obtain ⟨g, ds', -, listed, fits⟩ := fits_ofTree proper
    rcases node_of_listed listed node with ⟨-, rfl⟩ | ⟨i, -, grown⟩
    · rfl
    · obtain ⟨d, -, made⟩ := fits.made n (List.mem_of_getElem? grown)
      exact absurd made.suits (by rw [kind]; cases d <;> exact id)
  outermost := ⟨_, _, _, _, _, rfl⟩
  started := Nat.lt_of_lt_of_le Nat.zero_lt_one numbers_ofTree.le
  distinct := numbers_ofTree.increase.imp Nat.ne_of_lt
  bounds i hi := ⟨numbers_ofTree.lower i hi, numbers_ofTree.upper i hi⟩
  there node inner :=
    have ⟨found, made⟩ := made_ofTree proper node inner
    ⟨_, found, made.suits⟩
  vars node method := by
    have ⟨found, _⟩ := made_ofTree proper node (by rw [method]; exact nofun)
    exact isVariable_of_proper (proper_ofTree proper (mem_of_findIn found).1)

/-- A unit that is made of a proper tree is sound. -/
theorem sound_ofTree (proper : (Tree.unit m f p is ds).Proper) :
    (ofTree (.unit m f p is ds)).Sound (ofTree (.unit m f p is ds)).registry where
  toFounded := founded_ofTree proper
  fields element type node c hc := by
    obtain rfl := Option.some.inj (element.symm.trans node)
    have ⟨_, made⟩ := made_ofTree proper element (by rw [type]; exact nofun)
    exact field_of_shown (made.members type) hc
  methods element type node hc child method := by
    obtain rfl := Option.some.inj (element.symm.trans node)
    have ⟨_, made⟩ := made_ofTree proper element (by rw [type]; exact nofun)
    obtain ⟨t, ht, own, number⟩ := method_of_shown (made.members type) hc child method
    exact number ▸ (founded_ofTree proper).loose_method element type ht own
  params element method node c hc := by
    obtain rfl := Option.some.inj (element.symm.trans node)
    have ⟨_, made⟩ := made_ofTree proper element (by rw [method]; exact nofun)
    obtain ⟨q, hq, n', child, number⟩ := Registry.mem_showsParams (made.params method) hc
    exact ⟨n', child, number ▸ (founded_ofTree proper).loose_param element method hq⟩

/-- All types of a unit that is made of a proper tree are registered with all their fields. -/
theorem current_ofTree (proper : (Tree.unit m f p is ds).Proper)
    (element : (ofTree (.unit m f p is ds)).registry.node? k = some n) (type : n.kind = .type) :
    (ofTree (.unit m f p is ds)).Current k := by
  have ⟨_, made⟩ := made_ofTree proper element (by rw [type]; exact nofun)
  rw [Current, fields, Registry.childrenOf, element]
  exact .of_eq (numbers_of_shown (made.members type))

end Initial

end SourceUnit

end Weaver
