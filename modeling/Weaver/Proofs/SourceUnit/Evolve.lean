import Weaver.Proofs.SourceUnit.Sound
/-!
What becomes of a sound unit.

Every step under a license keeps a unit sound, and the declarations of its elements follow those
before the step (`SourceUnit.Step.evolves`); so it is with all that happens to a unit one after the
other (`SourceUnit.Steps.evolves`). A license may allow to change as parameters only what is no field.
-/
set_option autoImplicit false

namespace Weaver

open Weaver.Syntax (Tree)
open Weaver.Syntax.Tree

namespace SourceUnit

/-- The names of the fields of a type. -/
def fieldNames (u : SourceUnit) (k : Key) : List String := (u.decl k).fieldsIn.map (·.name)

/-- What has become of a sound unit whose types have got some fields: the declarations of its elements
follow those before. -/
structure Evolves (L : License) (r : Registry) (u : SourceUnit) (gs : List Gain) (v : SourceUnit) :
    Prop where
  sound : v.Sound r
  next : u.next ≤ v.next
  loose : ∀ {i : Nat}, u.Loose r i → v.Loose r i
  follows : ∀ {k : Key} {n : Node}, r.node? k = some n → n.kind ≠ .unit →
    (u.decl k).Follows L n.decl u.next (gained n.decl gs) (v.decl k)

section Evolve

variable {L : License} {r : Registry} {u v w : SourceUnit} {gs gs' : List Gain} {k : Key} {n : Node}
  {t : Tree} {f : Tree → Tree} {place : List Tree → List Tree}

theorem Evolves.refl (sound : u.Sound r) : u.Evolves L r [] u where
  sound := sound
  next := Nat.le_refl _
  loose h := h
  follows _ _ := .refl _

theorem Evolves.within {L' : License} (h : u.Evolves L r gs v) (within : L.Within L') :
    u.Evolves L' r gs v where
  sound := h.sound
  next := h.next
  loose := h.loose
  follows element inner := (h.follows element inner).within within

theorem Evolves.trans (h : u.Evolves L r gs v) (h' : v.Evolves L r gs' w) :
    u.Evolves L r (gs ++ gs') w where
  sound := h'.sound
  next := Nat.le_trans h.next h'.next
  loose own := h'.loose (h.loose own)
  follows element inner := by
    rw [gained_append]
    exact (h.follows element inner).trans (h'.follows element inner) h.next

/-- The names of the fields of a type are those there were and those that it has got. -/
theorem Evolves.names (h : u.Evolves L r gs v) (sound : u.Sound r) (element : r.node? k = some n)
    (type : n.kind = .type) : (v.fieldNames k).Perm (u.fieldNames k ++ gained n.decl gs) := by
  have inner : n.kind ≠ .unit := by rw [type]; exact nofun
  exact (h.follows element inner).names (type ▸ (sound.found element inner).2)

theorem Loose.of_follows {i : Nat} (loose : u.Loose r i) (sound : u.Sound r) (next : u.next ≤ v.next)
    (follows : ∀ {k : Key} {n : Node}, r.node? k = some n → n.kind ≠ .unit →
      (u.decl k).Follows L n.decl u.next (gained n.decl gs) (v.decl k)) : v.Loose r i where
  spent := Nat.lt_of_lt_of_le loose.spent next
  apart {k n} element type y hy := by
    have inner : n.kind ≠ .unit := by rw [type]; exact nofun
    obtain ⟨x, same, before | ⟨fresh, -⟩⟩ :=
      (follows element inner).grown (type ▸ (sound.found element inner).2) y hy
    · rw [same.number]
      exact loose.apart element type x before
    · rw [same.number]
      exact Nat.ne_of_gt (Nat.lt_of_lt_of_le loose.spent fresh)

/-- A unit with the same elements evolves if its elements have declarations that follow. -/
theorem Sound.evolves (sound : u.Sound r) (registry : v.registry = u.registry)
    (outermost : ∃ m f p is ds, v.tree = .unit m f p is ds) (next : u.next ≤ v.next)
    {new : List Nat} (numbers : (numbersAll v.pool).Perm (numbersAll u.pool ++ new))
    (distinct : new.Nodup) (bounds : ∀ i ∈ new, u.next ≤ i ∧ i < v.next)
    (pursues : ∀ {k : Key} {n : Node}, r.node? k = some n → n.kind ≠ .unit →
      (numbersAll v.pool).Nodup → u.Pursues L (gained n.decl gs) v k n.decl) :
    u.Evolves L r gs v := by
  have unique : (numbersAll v.pool).Nodup := by
    refine numbers.nodup_iff.mpr (List.nodup_append.mpr ⟨sound.distinct, distinct, ?_⟩)
    exact fun i hi j hj => Nat.ne_of_lt (Nat.lt_of_lt_of_le (sound.bounds i hi).2 (bounds j hj).1)
  have lasts : r.Lasts v.registry := registry ▸ sound.lasts
  have pursued {k : Key} {n : Node} (element : r.node? k = some n) (inner : n.kind ≠ .unit) :
      findIn? n.decl v.pool = some (v.decl k) ∧
        (u.decl k).Follows L n.decl u.next (gained n.decl gs) (v.decl k) := by
    obtain ⟨d', found, follows⟩ := pursues element inner unique
    obtain ⟨keys, now⟩ := lasts element
    obtain rfl := decl_of_findIn now inner found
    exact ⟨found, follows⟩
  have loose {i : Nat} (h : u.Loose r i) : v.Loose r i :=
    h.of_follows sound next fun element inner => (pursued element inner).2
  refine ⟨?_, next, loose, fun element inner => (pursued element inner).2⟩
  exact {
    lasts := lasts
    root := fun node => sound.root (registry ▸ node)
    outermost := outermost
    started := Nat.lt_of_lt_of_le sound.started next
    distinct := unique
    bounds := fun i hi => by
      rcases List.mem_append.mp (numbers.mem_iff.mp hi) with old | fresh
      · exact ⟨(sound.bounds i old).1, Nat.lt_of_lt_of_le (sound.bounds i old).2 next⟩
      · exact ⟨Nat.lt_of_lt_of_le sound.started (bounds i fresh).1, (bounds i fresh).2⟩
    there := fun element inner =>
      ⟨_, (pursued element inner).1,
        (pursued element inner).2.suits _ (sound.found element inner).2⟩
    fields := fun {k n m} element type node c hc => by
      rw [registry] at node ⊢
      obtain ⟨n', child, field⟩ := sound.fields element type node c hc
      refine ⟨n', child, fun own => ?_⟩
      have inner : n.kind ≠ .unit := by rw [type]; exact nofun
      obtain ⟨x, hx, same⟩ := field own
      obtain ⟨y, hy, remains⟩ :=
        (pursued element inner).2.kept (type ▸ (sound.found element inner).2) x hx
      exact ⟨y, hy, remains.number.trans same⟩
    methods := fun element type node hc child method => by
      rw [registry] at node child
      exact loose (sound.methods element type node hc child method)
    params := fun element method node c hc => by
      rw [registry] at node ⊢
      obtain ⟨n', child, own⟩ := sound.params element method node c hc
      exact ⟨n', child, loose own⟩
    vars := fun element method =>
      (pursued element (by rw [method]; exact nofun)).2.params (sound.vars element method) }

theorem tree_changeDecl (outermost : ∃ m f p is ds, u.tree = .unit m f p is ds) (k : Key)
    (f : Tree → Tree) : ∃ m' f' p is ds, (u.changeDecl k f).tree = .unit m' f' p is ds := by
  obtain ⟨m, file, p, is, ds, same⟩ := outermost
  rw [changeDecl]
  split
  · exact ⟨m, file, p, is, ds, same⟩
  · exact ⟨m, file, p, is, _, by rw [same, change]⟩

theorem next_changeDecl (u : SourceUnit) (k : Key) (f : Tree → Tree) :
    (u.changeDecl k f).next = u.next := by
  rw [changeDecl]
  split <;> rfl

theorem Sound.evolves_same (sound : u.Sound r) (registry : v.registry = u.registry)
    (outermost : ∃ m f p is ds, v.tree = .unit m f p is ds) (next : u.next ≤ v.next)
    (numbers : numbersAll v.pool = numbersAll u.pool)
    (same : ∀ i, findIn? i v.pool = findIn? i u.pool) : u.Evolves L r [] v :=
  sound.evolves registry outermost next (.of_eq (by rw [numbers, List.append_nil]))
    .nil nofun fun element inner _ => sound.pursues_same element inner same

/-! ## Each step -/

theorem nodeKind_iff_field : t.nodeKind? = some .field ↔ ∃ x, t.field? = some x := by
  cases t
  case varDecl m n ms ty i =>
    rw [nodeKind?, isEnumConstant, field?]
    cases ms.flags.meets .enumFlag <;> simp
  all_goals simp [nodeKind?, field?]

/-- A method of a type that was registered first is no field. -/
theorem Founded.loose_method (sound : u.Founded r) (element : r.node? k = some n) (type : n.kind = .type)
    (member : t ∈ (u.decl k).defs) (method : t.nodeKind? = some .method) : u.Loose r t.id := by
  have listed {k : Key} {n : Node} {t : Tree} (element : r.node? k = some n) (type : n.kind = .type)
      (member : t ∈ (u.decl k).defs) (declared : t.isDeclaration) : t ∈ numberedAll u.pool :=
    mem_numberedAll_of_inner
      (mem_of_findIn (sound.found element (by rw [type]; exact nofun)).1).1
      (List.mem_append_left _ member) declared
  have isDeclaration {t : Tree} {kind : NodeKind} (element : t.nodeKind? = some kind) :
      t.isDeclaration := isDeclaration_of_numbered_of_numberedAll.1 t t (mem_numbered element)
  have here := listed element type member (isDeclaration method)
  refine ⟨(sound.bounds _ (mem_numbersAll.mpr ⟨t, here, rfl⟩)).2, fun {k' n'} type_ type' x hx same => ?_⟩
  obtain ⟨t', member', seen⟩ := List.mem_filterMap.mp hx
  have field := nodeKind_iff_field.mpr ⟨x, seen⟩
  have there := listed type_ type' member' (isDeclaration field)
  have found := findIn_of_mem sound.distinct here
  rw [eq_of_findIn sound.distinct found there ((number_of_field seen).symm.trans same), method] at field
  exact nomatch field

/-- A parameter of a method that was registered first is no field. -/
theorem Founded.loose_param (sound : u.Founded r) (element : r.node? k = some n) (method : n.kind = .method)
    {p : Tree} (param : p ∈ (u.decl k).params) : u.Loose r p.id := by
  have ⟨found, suits⟩ := sound.found element (by rw [method]; exact nofun)
  obtain ⟨listed, number⟩ := mem_of_findIn found
  have declared := Registry.isDeclaration_of_isVariable (sound.vars element method p param)
  have inside := mem_numberedAll_of_inner listed (List.mem_append_right _ param) declared
  refine ⟨(sound.bounds _ (mem_numbersAll.mpr ⟨p, inside, rfl⟩)).2, fun {k' n'} type_ type x hx same => ?_⟩
  -- a declaration is in one declaration only, and a type is no method
  have ⟨found', suits'⟩ := sound.found type_ (by rw [type]; exact nofun)
  obtain ⟨listed', number'⟩ := mem_of_findIn found'
  obtain ⟨t, ht, seen⟩ := List.mem_filterMap.mp hx
  have field : t.isDeclaration ∧ t.id = x.number :=
    ⟨isDeclaration_of_numbered_of_numberedAll.1 t t (mem_numbered (nodeKind_iff_field.mpr ⟨x, seen⟩)),
      (number_of_field seen).symm⟩
  have outer := id_eq_of_inner sound.distinct listed listed' (List.mem_append_right _ param)
    (List.mem_append_left _ ht) declared field.1 (same ▸ field.2).symm
  rw [number, number'] at outer
  rw [outer, found'] at found
  rw [method, ← Option.some.inj found] at suits
  rw [type] at suits'
  generalize u.decl k' = d at suits suits'
  cases d
  case classDecl => exact suits
  all_goals exact suits'

theorem lasts_rebuild {r' : Registry} (h : r.Lasts r') (k : Key) (t : Tree) :
    r.Lasts (r'.rebuild k t) := by
  intro j n element
  obtain ⟨keys, node⟩ := h element
  rw [Registry.node_rebuild node]
  split
  · exact ⟨_, rfl⟩
  · exact ⟨keys, rfl⟩

section Shown

variable {ds : List Tree} {keys : List Key} {c next : Key} {d : Tree}

/-- What is registered for a type shows its members. -/
theorem shown_inside (suits : d.Suits .type) (holds : r.Holds next (Growth.inside next k d).nodes) :
    r.ShowsAll (Growth.inside next k d).keys d.defs := by
  cases d
  case classDecl m name ms tps e is ds => exact (Registry.shows_members r).2 _ _ ds holds
  all_goals exact suits.elim

/-- The fields that are registered for some members are fields of them. -/
theorem field_of_shown (shown : r.ShowsAll keys ds) (hc : c ∈ keys) :
    ∃ n', r.node? c = some n' ∧
      (n'.kind = .field → ∃ x ∈ ds.filterMap field?, x.number = n'.decl) := by
  obtain ⟨t, ht, kind, element, here⟩ := Registry.mem_showsAll shown hc
  obtain ⟨n', child, same, number⟩ := node_of_shows element here
  refine ⟨n', child, fun own => ?_⟩
  obtain ⟨x, field⟩ := nodeKind_iff_field.mp (element.trans (congrArg some (same.symm.trans own)))
  exact ⟨x, List.mem_filterMap.mpr ⟨t, ht, field⟩, (number_of_field field).trans number.symm⟩

/-- What is registered for some members has the fields among them, in their order. -/
theorem numbers_of_shown (shown : r.ShowsAll keys ds) :
    (keys.filter fun c => (r.node? c).any (·.kind == .field)).map r.number =
      (ds.filterMap field?).map Syntax.Field.number := by
  induction ds generalizing keys with
  | nil =>
    rw [show keys = [] from shown]
    rfl
  | cons d ds ih =>
    have element {x : Syntax.Field} (seen : d.field? = some x) : d.nodeKind? = some .field :=
      nodeKind_iff_field.mpr ⟨x, seen⟩
    rw [Registry.ShowsAll] at shown
    cases kind : d.nodeKind? with
    | none =>
      rw [kind] at shown
      have none_ : d.field? = none := by
        cases seen : d.field? with
        | none => rfl
        | some x => cases kind.symm.trans (element seen)
      rw [List.filterMap_cons_none none_]
      exact ih shown
    | some own =>
      rw [kind] at shown
      obtain ⟨k, ks, rfl, here, others⟩ := shown
      obtain ⟨n, node, same, number⟩ := node_of_shows kind here
      cases seen : d.field? with
      | none =>
        have other : own ≠ .field := fun hit => by
          obtain ⟨x, field⟩ := nodeKind_iff_field.mp (kind.trans (congrArg some hit))
          cases seen.symm.trans field
        rw [List.filter_cons_of_neg (by simpa [node, same] using other),
          List.filterMap_cons_none seen]
        exact ih others
      | some x =>
        obtain rfl : own = .field := Option.some.inj (kind.symm.trans (element seen))
        rw [List.filter_cons_of_pos (by simp [node, same]), List.filterMap_cons_some seen,
          List.map_cons, List.map_cons, ih others, Registry.number_of_node node, number,
          number_of_field seen]

/-- The methods that are registered for some members are methods of them. -/
theorem method_of_shown (shown : r.ShowsAll keys ds) (hc : c ∈ keys) (child : r.node? c = some n)
    (method : n.kind = .method) : ∃ t ∈ ds, t.nodeKind? = some .method ∧ n.decl = t.id := by
  obtain ⟨t, ht, kind, element, here⟩ := Registry.mem_showsAll shown hc
  obtain ⟨n', child', same, number⟩ := node_of_shows element here
  obtain rfl := Option.some.inj (child.symm.trans child')
  exact ⟨t, ht, element.trans (congrArg some (same.symm.trans method)), number⟩

end Shown

/-- The parameters that are registered in a method are parameters of it. -/
theorem shown_params {r : Registry} {next : Key} {d : Tree} (suits : d.Suits .method)
    (holds : r.Holds next (Growth.inside next k d).nodes) :
    ∀ c ∈ (Growth.inside next k d).keys, ∃ p ∈ d.params, ∃ n', r.node? c = some n' ∧
      n'.decl = p.id := by
  cases d
  case methodDecl m name ms tps res ps ts b =>
    exact fun c hc => Registry.mem_showsParams (Registry.shows_params _ _ ps holds) hc
  all_goals exact suits.elim

/-- The elements inside an element are registered anew. -/
theorem Sound.register (sound : u.Sound r) (k : Key) :
    u.Evolves L r [] { u with registry := u.registry.rebuild k (u.decl k) } := by
  have lasts := lasts_rebuild sound.lasts k (u.decl k)
  have holds := Registry.holds_rebuild u.registry k (u.decl k)
  have same {j : Key} {n : Node} (element : r.node? j = some n) (inner : n.kind ≠ .unit) :
      decl { u with registry := u.registry.rebuild k (u.decl k) } j = u.decl j := by
    obtain ⟨keys, node⟩ := lasts element
    exact decl_of_findIn node inner (sound.found element inner).1
  have follows {j : Key} {n : Node} (element : r.node? j = some n) (inner : n.kind ≠ .unit) :
      (u.decl j).Follows L n.decl u.next (gained n.decl [])
        (decl { u with registry := u.registry.rebuild k (u.decl k) } j) := by
    rw [same element inner]
    exact .refl _
  have loose {i : Nat} (h : u.Loose r i) :
      Loose r { u with registry := u.registry.rebuild k (u.decl k) } i :=
    h.of_follows sound (Nat.le_refl _) follows
  -- the elements in an element are those it had, or those of what is in its declaration
  have children {j : Key} {n m : Node} (element : r.node? j = some n)
      (node : (u.registry.rebuild k (u.decl k)).node? j = some m) :
      (∃ m', u.registry.node? j = some m' ∧ m.children = m'.children) ∨
        j = k ∧ m.children = (Growth.inside u.registry.nodes.size k (u.decl k)).keys := by
    obtain ⟨keys, old⟩ := sound.lasts element
    rw [Registry.node_rebuild old] at node
    rw [← Option.some.inj node]
    by_cases own : j = k
    · rw [if_pos own]
      exact .inr ⟨own, rfl⟩
    · rw [if_neg own]
      exact .inl ⟨_, old, rfl⟩
  refine ⟨?_, Nat.le_refl _, loose, follows⟩
  exact {
    lasts := lasts
    root := fun node outermost => by
      rcases Registry.node_of_rebuild node with ⟨n', old, kind, number⟩ | grown
      · rw [number]
        exact sound.root old (kind.symm.trans outermost)
      · exact absurd outermost (Registry.kind_of_inside grown)
    outermost := sound.outermost
    started := sound.started
    distinct := sound.distinct
    bounds := sound.bounds
    there := sound.there
    fields := fun {j n m} element type node c hc => by
      rw [same element (by rw [type]; exact nofun)]
      rcases children element node with ⟨m', old, keys⟩ | ⟨rfl, keys⟩
      · obtain ⟨n', child, field⟩ := sound.fields element type old c (keys ▸ hc)
        obtain ⟨n'', child', kind, number⟩ := Registry.grows_rebuild _ k (u.decl k) _ _ child
        exact ⟨n'', child', fun own => by rw [number]; exact field (kind ▸ own)⟩
      · have suits := (sound.found element (by rw [type]; exact nofun)).2
        rw [type] at suits
        rw [keys] at hc
        exact field_of_shown (shown_inside suits holds) hc
    methods := fun {j c n m n'} element type node hc child method => by
      rcases children element node with ⟨m', old, keys⟩ | ⟨rfl, keys⟩
      · obtain ⟨n₁, old', -⟩ := sound.fields element type old c (keys ▸ hc)
        obtain ⟨n₂, child', kind, number⟩ := Registry.grows_rebuild _ k (u.decl k) _ _ old'
        obtain rfl := Option.some.inj (child.symm.trans child')
        rw [number]
        exact loose (sound.methods element type old (keys ▸ hc) old' (kind.symm.trans method))
      · have suits := (sound.found element (by rw [type]; exact nofun)).2
        rw [type] at suits
        rw [keys] at hc
        obtain ⟨t, ht, own, number⟩ := method_of_shown (shown_inside suits holds) hc child method
        exact number ▸ loose (sound.loose_method element type ht own)
    params := fun {j n m} element method node c hc => by
      rcases children element node with ⟨m', old, keys⟩ | ⟨rfl, keys⟩
      · obtain ⟨n', child, own⟩ := sound.params element method old c (keys ▸ hc)
        obtain ⟨n'', child', -, number⟩ := Registry.grows_rebuild _ k (u.decl k) _ _ child
        exact ⟨n'', child', number ▸ loose own⟩
      · have suits := (sound.found element (by rw [method]; exact nofun)).2
        rw [method] at suits
        rw [keys] at hc
        obtain ⟨p, hp, n', child, number⟩ := shown_params suits holds c hc
        exact ⟨n', child, number ▸ loose (sound.loose_param element method hp)⟩
    vars := fun element method => by
      rw [same element (by rw [method]; exact nofun)]
      exact sound.vars element method }

/-- The numbers of a unit in which a declaration changes to one with further numbers. -/
theorem Sound.perm_changeDecl (sound : u.Sound r) (node : u.registry.node? k = some n)
    (new : List Nat) (h : (u.decl k).isDeclaration →
      (numbers (f (u.decl k))).Perm (numbers (u.decl k) ++ new)) :
    ∃ new', new'.Sublist new ∧
      (numbersAll (u.changeDecl k f).pool).Perm (numbersAll u.pool ++ new') := by
  rw [pool_changeDecl node]
  rcases sound.found_or_absent node with found | absent
  · refine ⟨new, .refl _, (List.Perm.of_eq (List.append_nil _).symm).trans ?_⟩
    have numbers := h (isDeclaration_of_mem (mem_of_findIn found).1)
    rw [← List.append_nil (Tree.numbers _)] at numbers
    exact perm_changeIn sound.distinct found numbers
  · exact ⟨[], List.nil_sublist _, .of_eq (by rw [changeIn_absent absent, List.append_nil])⟩

/-- A declaration changes in its place. -/
theorem Sound.alter (sound : u.Sound r) (loose : ∀ i, L.param i → u.Loose r i)
    (node : u.registry.node? k = some n) (alters : (u.decl k).Alters L n.decl (f (u.decl k))) :
    u.Evolves L r [] (u.changeDecl k f) := by
  obtain ⟨new, none_, perm⟩ := sound.perm_changeDecl node (f := f) [] fun declared =>
    .of_eq (by rw [alters.numbers declared, List.append_nil])
  rw [List.sublist_nil.mp none_] at perm
  exact sound.evolves (changeDecl_registry u k f) (tree_changeDecl sound.outermost k f)
    (Nat.le_of_eq (next_changeDecl u k f).symm) perm .nil nofun fun element inner _ =>
      sound.pursues_alter loose node alters element inner

theorem numbers_withDefs (inserts : t.Inserts place) {d : Tree} (declared : d.isDeclaration) :
    ∃ new, new.Sublist (numbers t) ∧
      (numbers (d.withDefs (place d.defs))).Perm (numbers d ++ new) := by
  cases d
  case classDecl m name ms tps e is ds =>
    refine ⟨numbers t, .refl _, ?_⟩
    change (m.id :: numbersAll (place ds)).Perm (m.id :: (numbersAll ds ++ numbers t))
    exact (numbers_inserted inserts ds).cons _
  case methodDecl | varDecl =>
    exact ⟨[], List.nil_sublist _, .of_eq (List.append_nil _).symm⟩
  all_goals exact absurd declared Bool.false_ne_true

/-- Numbers among those that a new declaration gets. -/
theorem new_numbers {new : List Nat} (h : new.Sublist (numbers (t.number u.next).1)) :
    new.Nodup ∧ ∀ i ∈ new, u.next ≤ i ∧ i < (u.adopting t).next :=
  ⟨(numbers_number u t).1.sublist h, fun i hi => (numbers_number u t).2 i (h.subset hi)⟩

/-- A type gets a member. -/
theorem Sound.insert (sound : u.Sound r) (node : u.registry.node? k = some n)
    (inserts : (t.number u.next).1.Inserts place)
    (licensed : ∀ x, (t.number u.next).1.field? = some x → L.field n.decl x) :
    u.Evolves L r (gains n.decl (t.number u.next).1) ((u.adopting t).changeDecl k fun d => d.withDefs (place d.defs)) := by
  obtain ⟨new, part, perm⟩ : ∃ new, new.Sublist (numbers (t.number u.next).1) ∧
      (numbersAll (u.changeDecl k fun d => d.withDefs (place d.defs)).pool).Perm
        (numbersAll u.pool ++ new) := by
    by_cases declared : (u.decl k).isDeclaration
    · obtain ⟨new, part, perm⟩ := numbers_withDefs inserts declared
      obtain ⟨new', part', perm'⟩ := sound.perm_changeDecl node
        (f := fun d => d.withDefs (place d.defs)) new fun _ => perm
      exact ⟨new', part'.trans part, perm'⟩
    · obtain ⟨new', none_, perm'⟩ := sound.perm_changeDecl node
        (f := fun d => d.withDefs (place d.defs)) [] fun own => absurd own declared
      exact ⟨new', none_.trans (List.nil_sublist _), perm'⟩
  rw [← changeDecl_adopting node t] at perm
  refine sound.evolves ((changeDecl_registry _ k _).trans rfl)
    (tree_changeDecl (u := u.adopting t) sound.outermost k _) ?_ perm (new_numbers part).1 ?_
    fun element inner _ => sound.pursues_insert node inserts licensed element inner
  · rw [next_changeDecl]
    exact next_le_adopting u t
  · rw [next_changeDecl]
    exact (new_numbers part).2

/-- A method leaves its type. -/
theorem Sound.remove {m : Key} (sound : u.Sound r) (node : u.registry.node? k = some n)
    (type : isClassDecl (u.decl k)) (method : (u.decl m).isMethod)
    (member : (u.decl k).defs.any (Edit.isMethodNumbered (u.decl m).id)) :
    u.Evolves L r [] ((u.without k m).keeping [u.decl m]) :=
  sound.evolves (changeDecl_registry u k _) (tree_changeDecl sound.outermost k _)
    (Nat.le_of_eq (next_changeDecl u k _).symm)
    ((sound.numbers_remove node type method member).trans (.of_eq (List.append_nil _).symm))
    .nil nofun fun element inner _ => sound.pursues_remove node type method member element inner

/-- Another method takes the place of a method. -/
theorem Sound.replace (sound : u.Sound r) (node : u.registry.node? k = some n)
    (method : t.isMethod) (vars : ∀ p ∈ t.params, p.isVariable) (licensed : L.body n.decl) :
    u.Evolves L r [] ((u.replacing k t).keeping (u.decl k).params) := by
  obtain ⟨new, part, perm⟩ := sound.numbers_replace node method vars
  have next : ((u.replacing k t).keeping (u.decl k).params).next = (u.adopting t).next :=
    next_changeDecl (u.adopting t) k _
  refine sound.evolves (changeDecl_registry (u.adopting t) k _)
    (tree_changeDecl (u := u.adopting t) sound.outermost k _) ?_ perm (new_numbers part).1 ?_
    fun element inner distinct =>
      sound.pursues_replace node method vars licensed distinct element inner
  · rw [next]
    exact next_le_adopting u t
  · rw [next]
    exact (new_numbers part).2

/-- What a step does to a sound unit. -/
theorem Step.evolves (h : Step L u gs v) (sound : u.Sound r) (loose : ∀ i, L.param i → u.Loose r i) :
    u.Evolves L r gs v := by
  cases h with
  | source =>
    exact sound.evolves_same rfl sound.outermost (Nat.le_refl _) rfl fun _ => rfl
  | spend more => exact sound.evolves_same rfl sound.outermost more rfl fun _ => rfl
  | register k => exact sound.register k
  | imports is' tree =>
    refine sound.evolves_same rfl ⟨_, _, _, _, _, rfl⟩ (Nat.le_refl _) ?_ fun i => ?_
    · rw [pool, pool, tree]
      rfl
    · rw [pool, pool, tree]
      rfl
  | alter node alters => exact sound.alter loose node alters
  | insert node inserts licensed => exact sound.insert node inserts licensed
  | remove node type method member => exact sound.remove node type method member
  | replace node method vars licensed => exact sound.replace node method vars licensed

/-- What becomes of a sound unit in steps under a license. -/
theorem Steps.evolves (h : Steps L u gs v) (sound : u.Sound r)
    (loose : ∀ i, L.param i → u.Loose r i) : u.Evolves L r gs v := by
  induction h with
  | none => exact .refl sound
  | next step _ ih =>
    have first := step.evolves sound loose
    exact first.trans (ih first.sound fun i own => first.loose (loose i own))

end Evolve

end SourceUnit

end Weaver
