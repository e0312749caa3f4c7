import Weaver.Proofs.Processing.Course
import Weaver.Proofs.SourceUnit.Arrangement
/-!
Types that get members.

What a type shows of its members, their names and the signatures of its methods, depends neither on
the numbers of the declarations in it nor on the values of its fields (`Tree.Resembles`). A change
of a declaration anywhere in the unit is seen in the declaration of a type as that same change of it
(`SourceUnit.Sound.decl_changeDecl_around`). So the members of a type can be followed both while it
gets members itself (`SourceUnit.Joined`) and while types in it do.
-/
set_option autoImplicit false

namespace Weaver

open Weaver.Syntax (Tree Mark Flags)
open Weaver.Syntax.Tree
open SourceUnit

/-! ## What declarations show -/

namespace Syntax.Tree

/-- What a method shows to its callers: its name, its parameters with their types, and the type of
its result. -/
structure Signature where
  name : String
  params : List (Tree × String)
  result : Tree

/-- A parameter as it stands in a signature. -/
def asParam (p : Tree) : Tree × String := (p.varType, p.declaredName)

/-- The signature of a method. -/
def signature? : Tree → Option Signature
  | methodDecl _ n _ _ r ps _ _ => some ⟨n, ps.map asParam, r⟩
  | _ => none

/-- What tells a member of a type from the others: methods can share their names if they take
different numbers of arguments. -/
inductive Title where
  | field (name : String)
  | method (name : String) (arity : Nat)
  | type (name : String)
deriving DecidableEq

/-- The title of a member. Constants of an enumeration and blocks have none. -/
def title? : Tree → Option Title
  | classDecl _ n .. => some (.type n)
  | methodDecl _ n _ _ _ ps _ _ => some (.method n ps.length)
  | varDecl _ n ms _ _ => if ms.flags.meets .enumFlag then none else some (.field n)
  | _ => none

/-- A declaration looks like another one from outside. -/
structure Resembles (d d' : Tree) : Prop where
  pos : d'.pos = d.pos
  type : isClassDecl d' = isClassDecl d
  name : d'.declaredName = d.declaredName
  flags : d'.mods.flags = d.mods.flags
  title : d'.title? = d.title?
  asParam : d'.asParam = d.asParam
  signature : d'.signature? = d.signature?

/-- A declaration without members: a method or a variable. -/
def Plain (d : Tree) : Prop := d.isMethod ∧ (∀ p ∈ d.params, p.isVariable) ∨ d.isVariable

section Resembles

variable {d d' d'' t : Tree} {ds ds' ts : List Tree} {f : Tree → Tree} {n : Nat}

theorem Resembles.refl (d : Tree) : d.Resembles d := ⟨rfl, rfl, rfl, rfl, rfl, rfl, rfl⟩

theorem Resembles.trans (h : d.Resembles d') (h' : d'.Resembles d'') : d.Resembles d'' where
  pos := h'.pos.trans h.pos
  type := h'.type.trans h.type
  name := h'.name.trans h.name
  flags := h'.flags.trans h.flags
  title := h'.title.trans h.title
  asParam := h'.asParam.trans h.asParam
  signature := h'.signature.trans h.signature

theorem resembles_trans (h : List.Forall₂ Resembles ds ds') (h' : List.Forall₂ Resembles ds' ts) :
    List.Forall₂ Resembles ds ts := by
  induction h generalizing ts with
  | nil => exact h'
  | cons first _ ih =>
    cases h' with
    | cons first' rest => exact .cons (first.trans first') (ih rest)

theorem resembles_refl (ds : List Tree) : List.Forall₂ Resembles ds ds :=
  List.forall₂_same.mpr fun d _ => .refl d

theorem isMethod_of_signature {g : Signature} (h : d.signature? = some g) : d.isMethod := by
  cases d
  case methodDecl => rfl
  all_goals exact nomatch h

theorem isMethod_of_resembles (h : d.Resembles d') (method : d.isMethod) : d'.isMethod := by
  cases d
  case methodDecl => exact isMethod_of_signature h.signature
  all_goals exact absurd method Bool.false_ne_true

theorem asParam_number (next : Nat) (t : Tree) : (t.number next).1.asParam = t.asParam := by
  cases t <;> rfl

theorem asParams_numberAll (next : Nat) (ts : List Tree) :
    (numberAll next ts).1.map asParam = ts.map asParam := by
  induction ts generalizing next with
  | nil => rfl
  | cons t ts ih => exact congrArg₂ List.cons (asParam_number next t) (ih _)

/-- A method looks as before if its modifiers and parameters do. -/
theorem resembles_method {m m' : Mark} {name : String} {ms ms' r b b' : Tree}
    {tps tps' ps ps' ts ts' : List Tree} (pos : m'.pos = m.pos) (flags : ms'.flags = ms.flags)
    (same : ps'.map asParam = ps.map asParam) :
    (methodDecl m name ms tps r ps ts b).Resembles (methodDecl m' name ms' tps' r ps' ts' b') where
  pos := pos
  type := rfl
  name := rfl
  flags := flags
  title := by
    have length := congrArg List.length same
    rw [List.length_map, List.length_map] at length
    rw [title?, title?, length]
  asParam := rfl
  signature := by rw [signature?, signature?, same]

theorem resembles_number (next : Nat) (t : Tree) : t.Resembles (t.number next).1 := by
  cases t
  case classDecl => exact ⟨rfl, rfl, rfl, flags_numberModifiers _ _, rfl, rfl, rfl⟩
  case methodDecl => exact resembles_method rfl (flags_numberModifiers _ _) (asParams_numberAll _ _)
  case varDecl m n ms ty i =>
    have flags := flags_numberModifiers (next + 1) ms
    exact ⟨rfl, rfl, rfl, flags, by rw [title?, ← flags]; rfl, rfl, rfl⟩
  all_goals exact ⟨rfl, rfl, rfl, rfl, rfl, rfl, rfl⟩

theorem asParam_change (keeps : ∀ d : Tree, (f d).asParam = d.asParam) (n : Nat) (t : Tree) :
    (change n f t).asParam = t.asParam := by
  cases t
  case classDecl | methodDecl | varDecl =>
    rw [change]
    split
    · exact keeps _
    · rfl
  all_goals rfl

theorem asParams_changeIn (keeps : ∀ d : Tree, (f d).asParam = d.asParam) (n : Nat)
    (ts : List Tree) : (changeIn n f ts).map asParam = ts.map asParam := by
  induction ts with
  | nil => rfl
  | cons t ts ih => exact congrArg₂ List.cons (asParam_change keeps n t) ih

/-- A change that keeps what a declaration looks like, made somewhere in a tree. -/
theorem resembles_change (keeps : ∀ d : Tree, d.Resembles (f d)) (n : Nat) (t : Tree) :
    t.Resembles (change n f t) := by
  cases t
  case methodDecl =>
    rw [change]
    split
    · exact keeps _
    · exact resembles_method rfl rfl (asParams_changeIn (fun d => (keeps d).asParam) _ _)
  case classDecl | varDecl =>
    rw [change]
    split
    · exact keeps _
    · exact ⟨rfl, rfl, rfl, rfl, rfl, rfl, rfl⟩
  all_goals exact ⟨rfl, rfl, rfl, rfl, rfl, rfl, rfl⟩

theorem resembles_changeIn (keeps : ∀ d : Tree, d.Resembles (f d)) (n : Nat) (ts : List Tree) :
    List.Forall₂ Resembles ts (changeIn n f ts) := by
  induction ts with
  | nil => exact .nil
  | cons t ts ih => exact .cons (resembles_change keeps n t) ih

theorem resembles_withDefs (d : Tree) (ds : List Tree) : d.Resembles (d.withDefs ds) := by
  cases d <;> exact ⟨rfl, rfl, rfl, rfl, rfl, rfl, rfl⟩

/-- The members of a declaration that changes, or around one that does. -/
theorem defs_change (declared : d.isDeclaration) (n : Nat) (f : Tree → Tree) :
    change n f d = f d ∨ (change n f d).defs = changeIn n f d.defs := by
  cases d
  case classDecl | methodDecl | varDecl =>
    rw [change]
    split
    · exact .inl rfl
    · exact .inr rfl
  all_goals exact absurd declared Bool.false_ne_true

/-- A change of the members of a type passes by what has none. -/
theorem change_plain (plain : d.Plain) (n : Nat) (g : List Tree → List Tree) :
    change n (fun d => d.withDefs (g d.defs)) d = d := by
  have variable_ {p : Tree} (h : p.isVariable) :
      change n (fun d => d.withDefs (g d.defs)) p = p := by
    cases p
    case varDecl =>
      rw [change]
      split <;> rfl
    all_goals exact absurd h Bool.false_ne_true
  rcases plain with ⟨method, vars⟩ | var
  · cases d
    case methodDecl m name ms tps r ps ts b =>
      rw [change]
      split
      · rfl
      · have same : ∀ p ∈ ps, change n (fun d => d.withDefs (g d.defs)) p = p :=
          fun p hp => variable_ (vars p hp)
        rw [changeIn_eq_map, List.map_congr_left same, List.map_id']
    all_goals exact absurd method Bool.false_ne_true
  · exact variable_ var

theorem plain_number (plain : t.Plain) (next : Nat) : (t.number next).1.Plain :=
  plain.imp (fun h => isMethod_number h.1 h.2 next) fun var => (isVariable_number next t).trans var

end Resembles

end Syntax.Tree

/-! ## Changes elsewhere -/

namespace SourceUnit

section Around

variable {r : Registry} {u v : SourceUnit} {k j : Key} {n m : Node} {f : Tree → Tree} {t : Tree}

/-- The code of a unit is attributed to something. -/
theorem Sound.attribute (sound : u.Sound r) (p : Source.Position) :
    Sound r { u with source := some p } :=
  ((Step.source (L := .nothing) (some p)).evolves sound fun _ => False.elim).sound

theorem isClassDecl_of_suits {d : Tree} (suits : d.Suits .type) : isClassDecl d := by
  cases d
  case classDecl => rfl
  all_goals exact suits.elim

/-- A change, as it is made, of the declaration that has the number. -/
theorem change_hit {d : Tree} (declared : d.isDeclaration) (f : Tree → Tree) :
    change d.id f d = f d := by
  cases d
  case classDecl | methodDecl | varDecl =>
    rw [change]
    exact if_pos (beq_self_eq_true _)
  all_goals exact absurd declared Bool.false_ne_true

/-- A change of a declaration is seen in the declaration of an element as that change of it. -/
theorem Sound.found_changeDecl_around (sound : u.Sound r) (element : r.node? k = some n)
    (inner : n.kind ≠ .unit) (node : u.registry.node? j = some m)
    (keeps : ∀ d : Tree, d.isDeclaration → (f d).isDeclaration ∧ (f d).id = d.id ∧
      findIn? n.decl (f d).inner = findIn? n.decl d.inner) :
    findIn? n.decl (u.changeDecl j f).pool = some (change m.decl f (u.decl k)) := by
  have found := (sound.found element inner).1
  have related : Option.Rel (fun d d' => d' = change m.decl f d) (findIn? n.decl u.pool)
      (findIn? n.decl (u.changeDecl j f).pool) := by
    rw [pool_changeDecl node f]
    refine findIn_changeIn_rel (fun x member hit => ?_) fun _ _ _ _ => rfl
    have declared := isDeclaration_of_mem member
    obtain ⟨declared', id, inside⟩ := keeps x declared
    rw [find_declared declared, find_declared declared', id, inside, ← hit]
    split
    · exact .some (change_hit declared f).symm
    · -- what is in the declaration that changes does not have its number
      have distinct := distinct_of_findIn sound.distinct (findIn_of_mem sound.distinct member)
      rw [numbers_declared declared] at distinct
      cases there : findIn? n.decl x.inner with
      | none => exact .none
      | some d =>
        have listed := (mem_of_findIn there).1
        refine .some (change_absent fun hit => (List.nodup_cons.mp distinct).1 ?_).symm
        obtain ⟨y, hy, same⟩ := List.mem_map.mp hit
        exact mem_numbersAll.mpr ⟨y, numbered_subset listed hy, same⟩
  rw [found] at related
  cases after : findIn? n.decl (u.changeDecl j f).pool with
  | none => rw [after] at related; exact nomatch related
  | some d' =>
    rw [after] at related
    cases related with
    | some same => rw [same]

theorem Sound.decl_changeDecl_around (sound : u.Sound r) (element : r.node? k = some n)
    (inner : n.kind ≠ .unit) (node : u.registry.node? j = some m)
    (keeps : ∀ d : Tree, d.isDeclaration → (f d).isDeclaration ∧ (f d).id = d.id ∧
      findIn? n.decl (f d).inner = findIn? n.decl d.inner) :
    (u.changeDecl j f).decl k = change m.decl f (u.decl k) := by
  obtain ⟨keys, now⟩ := sound.lasts element
  exact decl_of_findIn (n := { n with children := keys })
    ((congrArg (·.node? k) (changeDecl_registry u j f)).trans now) inner
    (sound.found_changeDecl_around (n := n) element inner node keeps)

/-- A type gets a member, and the declaration of an element changes with it. -/
theorem Sound.decl_insert_around (sound : u.Sound r) (element : r.node? k = some n)
    (inner : n.kind ≠ .unit) (node : u.registry.node? j = some m)
    {place : List Tree → List Tree} (inserts : (t.number u.next).1.Inserts place) :
    ((u.adopting t).changeDecl j fun d => d.withDefs (place d.defs)).decl k =
      change m.decl (fun d => d.withDefs (place d.defs)) (u.decl k) := by
  have adopts : (u.adopting t).Sound r :=
    ((Step.spend (L := ⟨fun _ => False, fun _ => False, fun _ _ => False, fun _ => False⟩)
      (number_between.1 u.next t).le).evolves sound fun _ => False.elim).sound
  refine adopts.decl_changeDecl_around element inner node fun d declared => ?_
  have fresh := sound.fresh t element inner
  cases d
  case classDecl c name ms tps e is ds =>
    refine ⟨rfl, rfl, ?_⟩
    change findIn? n.decl (place ds ++ []) = findIn? n.decl (ds ++ [])
    rw [List.append_nil, List.append_nil, findIn_inserted inserts fresh]
  case methodDecl | varDecl => exact ⟨rfl, rfl, rfl⟩
  all_goals exact absurd declared Bool.false_ne_true

/-- What becomes of a unit in which some type gets a member that is made of a code. -/
structure Inserted (r : Registry) (k j : Key) (c : Code) (place : Tree → List Tree → List Tree)
    (u : SourceUnit) (t : Tree) (v : SourceUnit) : Prop where
  lowered : c.lower (u.typeScope j) .part = .ok t
  sound : v.Sound r
  registry : v.registry = u.registry
  source : v.source = u.source
  next : u.next ≤ v.next
  decl : u.registry.node? j = none ∧ v.decl k = u.decl k ∨ ∃ m, u.registry.node? j = some m ∧
    v.decl k = change m.decl (fun d => d.withDefs (place (t.number u.next).1 d.defs)) (u.decl k)

/-- Some type gets a member, and the declaration of an element changes with it. -/
theorem Sound.inserted (sound : u.Sound r) (element : r.node? k = some n) (inner : n.kind ≠ .unit)
    {c : Code} {place : Tree → List Tree → List Tree} (inserts : ∀ t : Tree, t.Inserts (place t))
    (ran : (do
      let t ← Edit.lower (u.typeScope j) .part c
      let t ← Edit.adopt t
      Edit.changeDefs j (place t) : Edit Unit) u = (.ok (), v)) :
    ∃ t, Inserted r k j c place u t v := by
  rcases insertion_result ran with ⟨e, broken, -⟩ | ⟨t, lowered, -, rfl⟩
  · exact nomatch broken
  have registry := changeDecl_registry (u.adopting t) j
    fun d => d.withDefs (place (t.number u.next).1 d.defs)
  have source : ((u.adopting t).changeDecl j
      fun d => d.withDefs (place (t.number u.next).1 d.defs)).source = u.source := by
    rw [changeDecl]
    split <;> rfl
  cases node : u.registry.node? j with
  | none =>
    have same : (u.adopting t).changeDecl j
        (fun d => d.withDefs (place (t.number u.next).1 d.defs)) = u.adopting t := by
      have node : (u.adopting t).registry.node? j = none := node
      rw [changeDecl, node]
    have spends := (Step.spend (L := .nothing) (number_between.1 u.next t).le).evolves sound
      fun _ => False.elim
    rw [same]
    exact ⟨t, lowered, spends.sound, rfl, rfl, spends.next, .inl ⟨node, rfl⟩⟩
  | some m =>
    have evolves := sound.insert (L := ⟨fun _ => False, fun _ => False, fun _ _ => True,
      fun _ => False⟩) node (inserts (t.number u.next).1) fun _ _ => trivial
    exact ⟨t, lowered, evolves.sound, registry, source, evolves.next,
      .inr ⟨m, node, sound.decl_insert_around element inner node (inserts _)⟩⟩

/-- A method is taken from a type, or it is none of its methods. -/
theorem Sound.removed (sound : u.Sound r) (element : r.node? k = some n) (type : n.kind = .type)
    {c : Key} {x : Except Abort Unit} (method : r.node? c = some m) (kind : m.kind = .method)
    (ran : Edit.removeMethod k c u = (x, v)) :
    v.Sound r ∧ v.registry = u.registry ∧ ((v.decl k).defs = (u.decl k).defs ∨
      (v.decl k).defs = (u.decl k).defs.filter fun t => !Edit.isMethodNumbered m.decl t) := by
  have inner : n.kind ≠ .unit := by rw [type]; exact nofun
  have inner' : m.kind ≠ .unit := by rw [kind]; exact nofun
  have number : (u.decl c).id = m.decl := (mem_of_findIn (sound.found method inner').1).2
  change (if (u.decl c).isMethod && isClassDecl (u.decl k) &&
    (u.decl k).defs.any (Edit.isMethodNumbered (u.decl c).id) then _ else _ : Edit Unit) u = _ at ran
  split at ran
  · next removes =>
    obtain ⟨both, member⟩ := Bool.and_eq_true_iff.mp removes
    obtain ⟨own, isClass⟩ := Bool.and_eq_true_iff.mp both
    cases ran
    obtain ⟨keys, node⟩ := sound.lasts element
    have evolves := sound.remove (L := .nothing) node isClass own member
    have registry := changeDecl_registry u k fun d =>
      d.withDefs (d.defs.filter fun t => !Edit.isMethodNumbered (u.decl c).id t)
    refine ⟨evolves.sound, registry, .inr ?_⟩
    obtain ⟨_, _, _, _, _, _, ds, declared⟩ := exists_classDecl isClass
    have found := sound.found_changeDecl element inner (f := fun d => d.withDefs
      (d.defs.filter fun t => !Edit.isMethodNumbered (u.decl c).id t)) (by rw [declared]; rfl)
      (by rw [declared]; rfl)
    have decl := decl_keeping (n := { n with children := keys }) (registry.symm ▸ node) inner found
      evolves.sound.distinct
    change (((u.without k c).keeping [u.decl c]).decl k).defs = _
    rw [without, decl, declared, ← number]
    rfl
  · cases ran
    exact ⟨sound, rfl, .inl rfl⟩

end Around

/-! ## The members that are registered -/

/-- The elements in a type are those of its members, in their order. -/
def Listed (u : SourceUnit) (k : Key) : Prop :=
  ∃ n, u.registry.node? k = some n ∧ u.registry.ShowsAll n.children (u.decl k).defs

section Listed

variable {r : Registry} {u : SourceUnit} {k c : Key} {n : Node} {kind : NodeKind} {d : Tree}

/-- A member of an element is found by its number. -/
theorem Sound.found_member (sound : u.Sound r) (element : r.node? k = some n)
    (inner : n.kind ≠ .unit) (member : d ∈ (u.decl k).defs) (declared : d.isDeclaration) :
    findIn? d.id u.pool = some d :=
  findIn_of_mem sound.distinct (mem_numberedAll_of_inner
    (mem_of_findIn (sound.found element inner).1).1 (List.mem_append_left _ member) declared)

theorem isClassDecl_of_nodeKind (h : d.nodeKind? = some .type) : isClassDecl d := by
  cases d
  case classDecl => rfl
  case varDecl => exact nomatch nodeKind?_var h
  all_goals exact nomatch h

theorem isDeclaration_of_nodeKind (h : d.nodeKind? = some kind) : d.isDeclaration := by
  cases d
  case classDecl | methodDecl | varDecl => rfl
  all_goals exact nomatch h

theorem Listed.member_of_child (listed : u.Listed k) (sound : u.Sound r)
    (element : r.node? k = some n) (inner : n.kind ≠ .unit)
    (hc : c ∈ u.registry.childrenOf k kind) : ∃ n', u.registry.node? c = some n' ∧
      n'.kind = kind ∧ n'.decl = (u.decl c).id ∧ u.decl c ∈ (u.decl k).defs ∧
      (u.decl c).nodeKind? = some kind := by
  obtain ⟨m, node, shown⟩ := listed
  obtain ⟨n', child, own⟩ := Registry.node_of_childrenOf hc
  rw [Registry.childrenOf, node] at hc
  obtain ⟨d, hd, kind', seen, here⟩ := Registry.mem_showsAll shown (List.mem_filter.mp hc).1
  obtain ⟨n'', child', same, number⟩ := node_of_shows seen here
  obtain rfl := Option.some.inj (child.symm.trans child')
  obtain rfl : kind = kind' := own.symm.trans same
  have found := sound.found_member element inner hd (isDeclaration_of_nodeKind seen)
  rw [← number] at found
  have decl : u.decl c = d :=
    decl_of_findIn child (own ▸ nodeKind?_ne_unit seen) found
  rw [decl]
  exact ⟨n', child, own, number, hd, seen⟩

/-- The elements of a kind in a type are those that are made from its members. -/
theorem Listed.decls (listed : u.Listed k) (sound : u.Sound r) (element : r.node? k = some n)
    (inner : n.kind ≠ .unit) (kind : NodeKind) :
    (u.registry.childrenOf k kind).map u.decl = (u.decl k).defs.filter (becomes kind) := by
  obtain ⟨m, node, shown⟩ := listed
  rw [Registry.childrenOf, node]
  refine decls_of_shown kind shown fun d hd c kind' becomes here => ?_
  obtain ⟨m, child, same, number⟩ := node_of_shows becomes here
  refine decl_of_findIn child (same ▸ nodeKind?_ne_unit becomes) ?_
  rw [number]
  exact sound.found_member element inner hd (isDeclaration_of_nodeKind becomes)

/-- The elements in a type of a unit that was registered as a whole are those of its members. -/
theorem listed_ofTree {m : Mark} {f : String} {p : Tree} {is ds : List Tree} {k : Key}
    (type : k ∈ (ofTree (.unit m f p is ds)).types) :
    (ofTree (.unit m f p is ds)).Listed k := by
  have found : (ofTree (.unit m f p is ds)).Findable (numberAll 1 ds).1 :=
    fun x hx => find_number 1 (.unit m f p is ds) hx
  obtain ⟨root, holds, size⟩ := ofUnit_root (.unit m f p is (numberAll 1 ds).1)
  have shown := (Registry.shows_members (ofTree (.unit m f p is ds)).registry).2 1 0 _ holds
  obtain ⟨-, all⟩ := decl_typesTo (u := ofTree (.unit m f p is ds)) _ root shown
    (findable_filter _ found) (Nat.le_trans (nesting_le.2 1 0 _) size)
  obtain ⟨n, node, -, inside, -⟩ := (all k type).node
  exact ⟨n, node, inside⟩

/-- A type that is registered anew keeps its declaration. -/
theorem Sound.decl_register (sound : u.Sound r) (element : r.node? k = some n)
    (inner : n.kind ≠ .unit) :
    decl { u with registry := u.registry.rebuild k (u.decl k) } k = u.decl k := by
  obtain ⟨keys, now⟩ := lasts_rebuild sound.lasts k (u.decl k) element
  exact decl_of_findIn now inner (sound.found element inner).1

/-- A type that was registered anew. -/
theorem Sound.listed_register (sound : u.Sound r) (element : r.node? k = some n)
    (type : n.kind = .type) :
    Listed { u with registry := u.registry.rebuild k (u.decl k) } k := by
  have inner : n.kind ≠ .unit := by rw [type]; exact nofun
  have suits := (sound.found element inner).2
  obtain ⟨keys', old⟩ := sound.lasts element
  have node := Registry.node_rebuild (k := k) (t := u.decl k) old
  rw [if_pos rfl] at node
  rw [type] at suits
  refine ⟨_, node, ?_⟩
  rw [sound.decl_register element inner]
  exact shown_inside suits (Registry.holds_rebuild u.registry k _)

end Listed

/-! ## Types that get members themselves -/

/-- A unit in which a type has got members that were made of some codes, and its other members look
as they did. -/
structure Joined (r : Registry) (k : Key) (u : SourceUnit) (cs : List Code) (v : SourceUnit) :
    Prop where
  sound : v.Sound r
  registry : v.registry = u.registry
  source : v.source = u.source
  next : u.next ≤ v.next
  resembles : (u.decl k).Resembles (v.decl k)
  members : ∃ old new, (v.decl k).defs.Perm (old ++ new) ∧
    List.Forall₂ Resembles (u.decl k).defs old ∧
    List.Forall₂ (Makes (u.typeScope k) u.next) cs new

section Joined

variable {r : Registry} {k c : Key} {n : Node} {u v w : SourceUnit} {cs : List Code}
  {code : Code} {t : Tree} {x : Except Abort Unit}

theorem Joined.refl (sound : u.Sound r) (k : Key) : Joined r k u [] u where
  sound := sound
  registry := rfl
  source := rfl
  next := Nat.le_refl _
  resembles := .refl _
  members := ⟨_, [], by rw [List.append_nil], resembles_refl _, .nil⟩

theorem Joined.typeScope (h : Joined r k u cs v) (type : isClassDecl (u.decl k)) :
    v.typeScope k = u.typeScope k := by
  have type' : isClassDecl (v.decl k) := h.resembles.type.trans type
  rw [SourceUnit.typeScope, SourceUnit.typeScope, scope, scope, h.source,
    name_of_isClassDecl type, name_of_isClassDecl type', h.resembles.name, pos, pos,
    h.resembles.pos]

/-- A further member stands among the others, in whatever place. -/
theorem perm_inserted {place : List Tree → List Tree} (inserts : t.Inserts place)
    (ds : List Tree) : (place ds).Perm (ds ++ [t]) := by
  obtain ⟨as, bs, rfl, same⟩ := inserts ds
  rw [same, List.append_assoc]
  have swap : ([t] ++ bs).Perm (bs ++ [t]) := List.perm_append_comm
  exact swap.append_left as

/-- The type gets a member. -/
theorem Joined.insert (h : Joined r k u cs v) (element : r.node? k = some n)
    (type : n.kind = .type) {place : Tree → List Tree → List Tree}
    (inserts : ∀ t : Tree, t.Inserts (place t))
    (ran : (do
      let t ← Edit.lower (v.typeScope k) .part code
      let t ← Edit.adopt t
      Edit.changeDefs k (place t) : Edit Unit) v = (.ok (), w)) :
    Joined r k u (cs ++ [code]) w := by
  have inner : n.kind ≠ .unit := by rw [type]; exact nofun
  have ⟨found, suits⟩ := h.sound.found element inner
  rw [type] at suits
  obtain ⟨keys, node⟩ := h.sound.lasts element
  obtain ⟨t, inserted⟩ := h.sound.inserted element inner inserts ran
  obtain ⟨m, name, ms, tps, e, is, ds, same⟩ : ∃ m name ms tps e is ds,
      v.decl k = .classDecl m name ms tps e is ds := exists_classDecl (isClassDecl_of_suits suits)
  have type' : isClassDecl (u.decl k) := by
    rw [← h.resembles.type, same]
    rfl
  have decl : w.decl k = (v.decl k).withDefs (place (t.number v.next).1 (v.decl k).defs) := by
    rcases inserted.decl with ⟨unknown, -⟩ | ⟨m', node', changed⟩
    · exact nomatch unknown.symm.trans node
    · obtain rfl := Option.some.inj (node.symm.trans node')
      have number : (v.decl k).id = n.decl := (mem_of_findIn found).2
      rw [changed, same, ← (same ▸ number : (classDecl m name ms tps e is ds).id = n.decl)]
      exact change_hit rfl _
  refine ⟨inserted.sound, inserted.registry.trans h.registry, inserted.source.trans h.source,
    Nat.le_trans h.next inserted.next, ?_, ?_⟩
  · rw [decl]
    exact h.resembles.trans (resembles_withDefs _ _)
  · obtain ⟨old, new, perm, looks, made⟩ := h.members
    rw [decl, same]
    rw [same] at perm
    refine ⟨old, new ++ [(t.number v.next).1], ?_, looks, makes_concat made
      ⟨t, v.next, h.typeScope type' ▸ inserted.lowered, h.next, rfl⟩⟩
    rw [← List.append_assoc]
    exact (perm_inserted (inserts _) _).trans (perm.append_right _)

/-- A declaration of a variable without its value. -/
def withoutInit : Tree → Tree
  | .varDecl m n ms t _ => .varDecl m n ms t .missing
  | d => d

theorem removeInitializer_eq (c : Key) (v : SourceUnit) :
    Edit.removeInitializer c v = (.ok (), v.changeDecl c withoutInit) := rfl

theorem withoutInit_keeps (d : Tree) : d.Resembles (withoutInit d) ∧
    (d.isDeclaration → (withoutInit d).isDeclaration) ∧ (withoutInit d).id = d.id ∧
      (withoutInit d).inner = d.inner ∧ (withoutInit d).defs = d.defs := by
  cases d <;> exact ⟨⟨rfl, rfl, rfl, rfl, rfl, rfl, rfl⟩, id, rfl, rfl, rfl⟩

/-- A declaration of the unit loses its value before the type gets members. -/
theorem Joined.removeInitializer (h : Joined r k u [] v) (element : r.node? k = some n)
    (type : n.kind = .type) : Joined r k u [] (v.changeDecl c withoutInit) := by
  have inner : n.kind ≠ .unit := by rw [type]; decide
  obtain ⟨registry, steps⟩ := Edit.leads_removeInitializer (L := ⟨fun _ => False, fun _ => False,
    fun _ _ => False, fun _ => True⟩) (fun _ _ => trivial) v rfl () _ (removeInitializer_eq c v)
  have evolves := steps.evolves h.sound fun _ => False.elim
  cases node : v.registry.node? c with
  | none =>
    have same : v.changeDecl c withoutInit = v := by rw [changeDecl, node]
    rwa [same]
  | some m =>
    have decl := h.sound.decl_changeDecl_around element inner node fun d declared => by
      obtain ⟨-, keeps, number, inside, -⟩ := withoutInit_keeps d
      exact ⟨keeps declared, number, by rw [inside]⟩
    have looks (d : Tree) := (withoutInit_keeps d).1
    refine ⟨evolves.sound, registry.trans h.registry, ?_, Nat.le_trans h.next evolves.next, ?_, ?_⟩
    · rw [← h.source, changeDecl, node]
    · rw [decl]
      exact h.resembles.trans (resembles_change looks _ _)
    · obtain ⟨old, new, perm, same, made⟩ := h.members
      cases made
      have declared := isDeclaration_of_mem (mem_of_findIn (h.sound.found element inner).1).1
      rw [decl]
      rw [List.append_nil] at perm
      rcases defs_change declared m.decl withoutInit with hit | passed
      · rw [hit, (withoutInit_keeps _).2.2.2.2]
        exact ⟨old, [], by rwa [List.append_nil], same, .nil⟩
      · rw [passed, changeIn_eq_map]
        refine ⟨old.map _, [], by rw [List.append_nil]; exact perm.map _, ?_, .nil⟩
        rw [← changeIn_eq_map]
        exact resembles_trans same (resembles_changeIn looks _ _)

end Joined

end SourceUnit

/-! ## Work by which a type gets members -/

namespace Weave

section Joins

variable {α β γ : Type} {P : α → Prop} {Q : β → Prop} {r : Registry} {k : Key} {n : Node}
  {u : SourceUnit} {cs cs' : List Code} {c : Code}

/-- Work by which a type gets members that are made of some codes, and whose result has a
property. -/
def Joins (r : Registry) (k : Key) (u : SourceUnit) (cs : List Code) (w : Weave α)
    (P : α → Prop) : Prop :=
  ∀ ⦃cs₀ b a b'⦄, Joined r k u cs₀ b.unit → w b = (.ok a, b') →
    Joined r k u (cs₀ ++ cs) b'.unit ∧ P a

theorem joins_pure {a : α} (h : P a) : Joins r k u [] (pure a) P := by
  rintro cs₀ b _ _ joined ⟨⟩
  rw [List.append_nil]
  exact ⟨joined, h⟩

theorem joins_bind {w : Weave α} {f : α → Weave β} (h : Joins r k u cs w P)
    (h' : ∀ a, P a → Joins r k u cs' (f a) Q) : Joins r k u (cs ++ cs') (w >>= f) Q := by
  intro cs₀ b x b' joined done
  obtain ⟨a, b₁, first, next⟩ := ok_of_bind done
  obtain ⟨joined₁, holds⟩ := h joined first
  rw [← List.append_assoc]
  exact h' a holds joined₁ next

theorem joins_forIn {f : γ → Weave Unit} {codes : γ → List Code} {as : List γ}
    (h : ∀ a ∈ as, Joins r k u (codes a) (f a) fun _ => True) :
    Joins r k u (as.flatMap codes)
      (forIn as PUnit.unit fun a _ => do f a; return .yield PUnit.unit) fun _ => True := by
  rw [forIn_eq_each]
  induction as with
  | nil => exact joins_pure trivial
  | cons a as ih =>
    exact joins_bind (h a List.mem_cons_self) fun _ _ =>
      ih fun a ha => h a (List.mem_cons_of_mem _ ha)

/-- Methods are added as types are: at the end. -/
theorem injectMethod_eq (method : c.isMethod) : Edit.injectMethod k c = Edit.injectType k c := by
  cases c
  case methodDecl | constructorDecl | hostMethod => rfl
  all_goals exact absurd method Bool.false_ne_true

/-- Some declaration gets a method. -/
theorem inserted_of_injectMethod {b b' : Bench} {j : Key} {a : Unit} (sound : b.unit.Sound r)
    (element : r.node? k = some n) (inner : n.kind ≠ .unit) (method : c.isMethod)
    (done : editing (.injectMethod j c) b = (.ok a, b')) :
    ∃ t, Inserted r k j c (fun t ds => ds ++ [t]) b.unit t b'.unit := by
  rw [injectMethod_eq method, editing_apply] at done
  obtain ⟨result, rfl⟩ := Prod.mk.inj done
  exact sound.inserted element inner inserts_last (Prod.ext result rfl)

variable (element : r.node? k = some n) (type : n.kind = .type)

include element type

theorem joins_injectType (c : Code) :
    Joins r k u [c] (editing (.injectType k c)) fun _ => True := by
  intro cs₀ b a b' joined done
  rw [editing_apply] at done
  obtain ⟨result, rfl⟩ := Prod.mk.inj done
  exact ⟨joined.insert element type inserts_last (Prod.ext result rfl), trivial⟩

theorem joins_injectMethod (method : c.isMethod) :
    Joins r k u [c] (editing (.injectMethod k c)) fun _ => True := by
  rw [injectMethod_eq method]
  exact joins_injectType element type c

theorem joins_injectField (c : Code) :
    Joins r k u [c] (editing (.injectField k c)) fun _ => True := by
  intro cs₀ b a b' joined done
  rw [editing_apply] at done
  obtain ⟨result, rfl⟩ := Prod.mk.inj done
  exact ⟨joined.insert element type inserts_withField (Prod.ext result rfl), trivial⟩

end Joins

end Weave

/-! ## Runs that always splice -/

/-- What a check hands out: building that leaves the unit as it is and always gives splicing with a
property. -/
def Hands (u : SourceUnit) (P : Splice → Prop) (w? : Option Build) : Prop :=
  ∀ w, w? = some w → Weave.Quiet u w fun s? => ∃ s, s? = .ok s ∧ P s

theorem hands_none {u : SourceUnit} {P : Splice → Prop} : Hands u P none := nofun

theorem hands_some {u : SourceUnit} {P : Splice → Prop} {w : Build}
    (h : Weave.Quiet u w fun s? => ∃ s, s? = .ok s ∧ P s) : Hands u P (some w) := by
  rintro _ ⟨⟩
  exact h

/-- A run is stopped, or it splices and registers anew what splicing tells. -/
theorem Handler.Ran.handed {h : Handler} {i : Invocation} {b b' : Bench} {P : Splice → Prop}
    (ran : h.Ran i b (.ok ()) b') (hands : Weave.Quiet b.unit (h.check i) (Hands b.unit P)) :
    b.accepts (h, i) = false ∧ b'.unit = b.unit ∨ b.accepts (h, i) = true ∧
      ∃ s p keys b₁ b₂, P s ∧ b₁.unit = { b.unit with source := some p } ∧
        s b₁ = (.ok keys, b₂) ∧ b' = keys.foldl Bench.rebuilt b₂ := by
  have entered : b.entered.unit = b.unit := rfl
  cases ran with
  | stopped check => exact .inl ⟨by rw [Bench.accepts, check], (hands entered check).1⟩
  | failed check built =>
    obtain ⟨same, builds⟩ := hands entered check
    obtain ⟨-, s, broken, -⟩ := builds _ rfl same built
    cases broken
  | @spliced build splice keys b₁ b₂ b₃ check built changed =>
    obtain ⟨same, builds⟩ := hands entered check
    obtain ⟨same', s, handed, holds⟩ := builds _ rfl same built
    obtain rfl := Except.ok.inj handed
    obtain ⟨p, source⟩ : ∃ p, (b₂.attributed i).unit = { b.unit with source := some p } := by
      rw [← same', Bench.attributed]
      cases i.anno <;> exact ⟨_, rfl⟩
    exact .inr ⟨by rw [Bench.accepts, check], splice, p, keys, _, b₃, holds, source, changed, rfl⟩

end Weaver
