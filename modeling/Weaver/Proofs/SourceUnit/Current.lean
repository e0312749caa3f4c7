import Weaver.Proofs.SourceUnit.Evolve
/-!
Types that are registered with all their fields.

Whether a type has a field with a name is asked of what is registered in it. The answer is right as
long as all its fields are registered (`SourceUnit.Current`), and that is so until it gets a further
one, and again when it is registered anew.
-/
set_option autoImplicit false

namespace Weaver

open Weaver.Syntax (Tree Field)
open Weaver.Syntax.Tree

namespace SourceUnit

/-- All fields of a type are registered in it, each once. -/
def Current (u : SourceUnit) (k : Key) : Prop :=
  ((u.fields k).map u.registry.number).Perm ((u.decl k).fieldsIn.map Field.number)

section Current

variable {L : License} {r : Registry} {u v : SourceUnit} {gs : List Gain} {k c : Key} {n n' : Node}
  {x : Field} {name : String}

/-- The fields of an element are among what is registered in it. -/
theorem mem_fields : c ∈ u.fields k ↔ ∃ m n, u.registry.node? k = some m ∧ c ∈ m.children ∧
    u.registry.node? c = some n ∧ n.kind = .field := by
  rw [fields, Registry.childrenOf]
  cases u.registry.node? k with
  | none => simp
  | some m =>
    simp only [List.mem_filter, Option.some.injEq, exists_and_left, exists_eq_left', and_congr_right_iff]
    intro _
    cases u.registry.node? c with
    | none => simp
    | some n => simp

/-- A field of a type is found by its number. -/
theorem Founded.field_of_number (founded : u.Founded r) (element : r.node? k = some n)
    (type : n.kind = .type) (hx : x ∈ (u.decl k).fieldsIn) (node : u.registry.node? c = some n')
    (inner : n'.kind ≠ .unit) (number : n'.decl = x.number) : (u.decl c).field? = some x := by
  obtain ⟨t, member, seen⟩ := List.mem_filterMap.mp hx
  have declared : t.isDeclaration := isDeclaration_of_numbered_of_numberedAll.1 t t
    (mem_numbered (nodeKind_iff_field.mpr ⟨x, seen⟩))
  have outer := (mem_of_findIn (founded.found element (by rw [type]; exact nofun)).1).1
  have listed := mem_numberedAll_of_inner outer (List.mem_append_left _ member) declared
  have found := findIn_of_mem founded.distinct listed
  rw [← number_of_field seen, ← number] at found
  rw [decl_of_findIn node inner found, seen]

theorem name_of_field {t : Tree} (seen : t.field? = some x) : t.declaredName = x.name := by
  cases t
  case varDecl =>
    rw [field?] at seen
    split at seen
    · cases seen
    · rw [← Option.some.inj seen]
      rfl
  all_goals cases seen

/-- A field that is registered in a type is one of its fields. -/
theorem Sound.field_of_registered (sound : u.Sound r) (element : r.node? k = some n)
    (type : n.kind = .type) (hc : c ∈ u.fields k) :
    ∃ x ∈ (u.decl k).fieldsIn, (u.decl c).field? = some x ∧ u.registry.number c = x.number := by
  obtain ⟨m, n', node, child, own, kind⟩ := mem_fields.mp hc
  obtain ⟨n'', own', field⟩ := sound.fields element type node c child
  obtain rfl := Option.some.inj (own.symm.trans own')
  obtain ⟨x, hx, number⟩ := field kind
  exact ⟨x, hx, sound.field_of_number element type hx own (by rw [kind]; exact nofun) number.symm,
    (Registry.number_of_node own).trans number.symm⟩

/-- A field of a type is registered. -/
theorem Sound.registered_of_field (sound : u.Sound r) (element : r.node? k = some n)
    (type : n.kind = .type) (current : u.Current k) (hx : x ∈ (u.decl k).fieldsIn) :
    ∃ c ∈ u.fields k, (u.decl c).field? = some x := by
  have number := current.mem_iff.mpr (List.mem_map_of_mem hx)
  obtain ⟨c, hc, same⟩ := List.mem_map.mp number
  obtain ⟨m, n', -, -, node, kind⟩ := mem_fields.mp hc
  rw [Registry.number_of_node node] at same
  exact ⟨c, hc, sound.field_of_number element type hx node (by rw [kind]; exact nofun) same⟩

theorem numbers_fields (ds : List Tree) :
    ((ds.filterMap field?).map Field.number).Sublist (numbersAll ds) := by
  induction ds with
  | nil => exact .slnil
  | cons d ds ih =>
    rw [numbersAll_cons]
    cases seen : d.field? with
    | none =>
      rw [List.filterMap_cons_none seen]
      exact ih.trans (List.sublist_append_right _ _)
    | some x =>
      have declared : d.isDeclaration := isDeclaration_of_numbered_of_numberedAll.1 d d
        (mem_numbered (nodeKind_iff_field.mpr ⟨x, seen⟩))
      rw [List.filterMap_cons_some seen, List.map_cons, numbers_declared declared,
        number_of_field seen]
      exact (ih.trans (List.sublist_append_right _ _)).cons_cons _

/-- The fields of a type have distinct numbers. -/
theorem Sound.distinct_fieldsIn (sound : u.Sound r) (element : r.node? k = some n)
    (type : n.kind = .type) : ((u.decl k).fieldsIn.map Field.number).Nodup := by
  have found := (sound.found element (by rw [type]; exact nofun)).1
  have whole := distinct_of_findIn sound.distinct found
  rw [numbers_declared (isDeclaration_of_mem (mem_of_findIn found).1)] at whole
  refine whole.of_cons.sublist ((numbers_fields _).trans ?_)
  rw [Tree.inner, numbersAll_append]
  exact List.sublist_append_left _ _

theorem map_eq_map_filterMap {α β γ : Type} {f : α → β} {g : γ → β} {h : α → Option γ} {as : List α}
    (same : ∀ a ∈ as, ∃ c, h a = some c ∧ f a = g c) : as.map f = (as.filterMap h).map g := by
  induction as with
  | nil => rfl
  | cons a as ih =>
    obtain ⟨c, seen, here⟩ := same a List.mem_cons_self
    rw [List.map_cons, List.filterMap_cons_some seen, List.map_cons, here,
      ih fun a ha => same a (List.mem_cons_of_mem _ ha)]

/-- What is said of fields is said of the elements that are registered for them. -/
theorem Sound.map_fields {β : Type} (sound : u.Sound r) (element : r.node? k = some n)
    (type : n.kind = .type) (current : u.Current k) {f : Key → β} {g : Field → β}
    (same : ∀ {c : Key} {x : Field}, (u.decl c).field? = some x → f c = g x) :
    ((u.fields k).map f).Perm ((u.decl k).fieldsIn.map g) := by
  have seen (c : Key) (hc : c ∈ u.fields k) := sound.field_of_registered element type hc
  have listed : ((u.fields k).filterMap fun c => (u.decl c).field?).Perm (u.decl k).fieldsIn := by
    have distinct := sound.distinct_fieldsIn element type
    refine (List.perm_ext_iff_of_nodup ?_ distinct.of_map).mpr fun x => ⟨fun hx => ?_, fun hx => ?_⟩
    · refine List.Nodup.of_map Field.number ?_
      rw [← map_eq_map_filterMap (f := u.registry.number) fun c hc => ?_]
      · exact current.nodup_iff.mpr distinct
      · obtain ⟨x, -, field, number⟩ := seen c hc
        exact ⟨x, field, number⟩
    · obtain ⟨c, hc, field⟩ := List.mem_filterMap.mp hx
      obtain ⟨y, hy, own, -⟩ := seen c hc
      rwa [Option.some.inj (field.symm.trans own)]
    · obtain ⟨c, hc, field⟩ := sound.registered_of_field element type current hx
      exact List.mem_filterMap.mpr ⟨c, hc, field⟩
  rw [map_eq_map_filterMap (g := g) (h := fun c => (u.decl c).field?) fun c hc => ?_]
  · exact listed.map g
  · obtain ⟨x, -, field, -⟩ := seen c hc
    exact ⟨x, field, same field⟩

/-- A name is absent only if no field of the type has it. -/
theorem Sound.absent_of_existence (sound : u.Sound r) (element : r.node? k = some n)
    (type : n.kind = .type) (current : u.Current k) (absent : u.fieldExistence k name = .absent) :
    name ∉ u.fieldNames k := by
  intro member
  obtain ⟨x, hx, rfl⟩ := List.mem_map.mp member
  obtain ⟨c, hc, seen⟩ := sound.registered_of_field element type current hx
  rw [fieldExistence, existenceIn] at absent
  split at absent
  · split at absent <;> exact nomatch absent
  · next none_ =>
    refine List.find?_eq_none.mp none_ c hc ?_
    rw [name_of_field seen]
    exact beq_self_eq_true _

/-- A name is not absent only if a field of the type has it. -/
theorem Sound.mem_of_existence (sound : u.Sound r) (element : r.node? k = some n)
    (type : n.kind = .type) (there : u.fieldExistence k name ≠ .absent) :
    name ∈ u.fieldNames k := by
  rw [fieldExistence, existenceIn] at there
  split at there
  · next c found =>
    obtain ⟨x, hx, seen, -⟩ :=
      sound.field_of_registered element type (List.mem_of_find?_eq_some found)
    have hit := List.find?_some (p := fun c => (u.decl c).declaredName == name) found
    exact List.mem_map.mpr ⟨x, hx, (name_of_field seen).symm.trans (eq_of_beq hit)⟩
  · exact absurd rfl there

/-- A type that gets no fields stays registered with all of them. -/
theorem Evolves.current (h : u.Evolves L r gs v) (sound : u.Sound r)
    (registry : v.registry = u.registry) (element : r.node? k = some n) (type : n.kind = .type)
    (none_ : gained n.decl gs = []) (current : u.Current k) : v.Current k := by
  have inner : n.kind ≠ .unit := by rw [type]; exact nofun
  have suits : (u.decl k).Suits .type := type ▸ (sound.found element inner).2
  obtain ⟨new, -, names, remain⟩ := (h.follows element inner).fields suits
  rw [none_] at names
  rw [List.map_eq_nil_iff.mp names, List.append_nil] at remain
  rw [Current, fields, registry]
  exact current.trans (remain.map _ Field.Remains.number).symm

/-- A type is registered with all its fields after it was registered anew, or if it was before. -/
theorem Sound.current_register (sound : u.Sound r) (j : Key) (element : r.node? k = some n)
    (type : n.kind = .type) (current : j ≠ k → u.Current k) :
    Current { u with registry := u.registry.rebuild j (u.decl j) } k := by
  have inner : n.kind ≠ .unit := by rw [type]; exact nofun
  have ⟨found, suits⟩ := sound.found element inner
  obtain ⟨keys, now⟩ := lasts_rebuild sound.lasts j (u.decl j) element
  have same : decl { u with registry := u.registry.rebuild j (u.decl j) } k = u.decl k :=
    decl_of_findIn now inner found
  obtain ⟨keys', old⟩ := sound.lasts element
  have node := Registry.node_rebuild (k := j) (t := u.decl j) old
  rw [Current, same, SourceUnit.fields, Registry.childrenOf, node]
  by_cases own : k = j
  · subst own
    rw [if_pos rfl]
    rw [type] at suits
    exact .of_eq (numbers_of_shown (shown_inside suits (Registry.holds_rebuild u.registry k _)))
  · -- the children are the same, and each has the node it had
    rw [if_neg own]
    refine .trans (.of_eq ?_) (current (Ne.symm own))
    rw [SourceUnit.fields, Registry.childrenOf, old]
    have stays (c : Key) (hc : c ∈ keys') : ∃ n₀ n₁, u.registry.node? c = some n₀ ∧
        (u.registry.rebuild j (u.decl j)).node? c = some n₁ ∧ n₁.kind = n₀.kind ∧
        n₁.decl = n₀.decl := by
      obtain ⟨n₀, child, -⟩ := sound.fields element type old c hc
      obtain ⟨n₁, child₁, kind, number⟩ :=
        Registry.grows_rebuild u.registry j (u.decl j) _ _ child
      exact ⟨n₀, n₁, child, child₁, kind, number⟩
    have kinds : keys'.filter (fun c => ((u.registry.rebuild j (u.decl j)).node? c).any
          (·.kind == .field)) =
        keys'.filter fun c => (u.registry.node? c).any (·.kind == .field) := by
      refine List.filter_congr fun c hc => ?_
      obtain ⟨n₀, n₁, child, child₁, kind, -⟩ := stays c hc
      rw [child, child₁, Option.any_some, Option.any_some, kind]
    refine (congrArg (List.map _) kinds).trans (List.map_congr_left fun c hc => ?_)
    obtain ⟨n₀, n₁, child, child₁, -, number⟩ := stays c (List.mem_of_mem_filter hc)
    rw [Registry.number_of_node child, Registry.number_of_node child₁, number]

end Current

end SourceUnit

end Weaver
