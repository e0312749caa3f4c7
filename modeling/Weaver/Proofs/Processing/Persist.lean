import Weaver.Proofs.Processing.Joining
import Weaver.Proofs.Processing.Suppression
import Weaver.Proofs.SourceUnit.Outermost
/-!
What stays of types and methods.

Whatever handlers do to a method before it becomes a function object or leaves its type, it keeps its
name and its place, it stays abstract or concrete, it gets no annotations but those that suppress
warnings, and a body with statements is never emptied (`Tree.Persists`). Types keep their names, so
that names refer to what they referred to, and the annotations that are known stay the same
(`SourceUnit.Persists.annotations_eq`).
-/
set_option autoImplicit false

namespace Weaver

open Weaver.Syntax (Tree Mark Flags)
open Weaver.Syntax.Tree
open SourceUnit

/-! ## Declarations -/

namespace Syntax.Tree

/-- What stays of a type or a method. The body of a method may be replaced if it is one's own, but
neither the call of another constructor before it is, nor is the method left with nothing to do. -/
structure Persists (own : Prop) (d d' : Tree) : Prop where
  title : d'.title = d.title
  mark : d'.mark = d.mark
  annotations : ∃ as, d'.mods.annotations = d.mods.annotations ++ as ∧
    ∀ a ∈ as, a.annoName? = some suppressWarningsName
  abstract : d.isMethod → d'.mods.flags.meets .abstractFlag = d.mods.flags.meets .abstractFlag
  body : ¬own → d'.body = d.body
  call : (bodyParts d').1 = (bodyParts d).1
  filled : (bodyParts d).2 ≠ [] → (bodyParts d').2 ≠ []

variable {own : Prop} {L : License} {j : Nat} {d d' d'' ms : Tree} {as bs : List Tree}
  {f : Tree → Tree}

/-- A declaration with the same body. -/
theorem Persists.of_body (as : List Tree) (title : d'.title = d.title) (mark : d'.mark = d.mark)
    (annotations : d'.mods.annotations = d.mods.annotations ++ as)
    (named : ∀ a ∈ as, a.annoName? = some suppressWarningsName)
    (abstract : d.isMethod → d'.mods.flags.meets .abstractFlag = d.mods.flags.meets .abstractFlag)
    (body : d'.body = d.body) : d.Persists own d' := by
  have parts : bodyParts d' = bodyParts d := by
    rw [bodyParts, bodyParts, body, ← isConstructor_title d', title, isConstructor_title]
  exact ⟨title, mark, ⟨as, annotations, named⟩, abstract, fun _ => body, by rw [parts],
    by rw [parts]; exact fun some_ => some_⟩

/-- A declaration that looks the same apart from what is in it. -/
theorem Persists.of_outside (title : d'.title = d.title) (mark : d'.mark = d.mark)
    (mods : d'.mods = d.mods) (body : d'.body = d.body) : d.Persists own d' :=
  .of_body [] title mark (by rw [mods, List.append_nil]) nofun (fun _ => by rw [mods]) body

theorem Persists.refl (d : Tree) : d.Persists own d := .of_outside rfl rfl rfl rfl

theorem isMethod_title (d : Tree) : d.title.isMethod = d.isMethod := by cases d <;> rfl

theorem Persists.isMethod (h : d.Persists own d') : d'.isMethod = d.isMethod := by
  rw [← isMethod_title d', h.title, isMethod_title]

theorem Persists.trans (h : d.Persists own d') (h' : d'.Persists own d'') : d.Persists own d'' where
  title := h'.title.trans h.title
  mark := h'.mark.trans h.mark
  annotations := by
    obtain ⟨as, first, named⟩ := h.annotations
    obtain ⟨bs, next, named'⟩ := h'.annotations
    refine ⟨as ++ bs, by rw [next, first, List.append_assoc], fun a ha => ?_⟩
    exact (List.mem_append.mp ha).elim (named a) (named' a)
  abstract method := (h'.abstract (h.isMethod ▸ method)).trans (h.abstract method)
  body other := (h'.body other).trans (h.body other)
  call := h'.call.trans h.call
  filled some_ := h'.filled (h.filled some_)

/-- A body that may not be replaced has the same statements. -/
theorem Persists.bodyParts_eq (h : d.Persists own d') (other : ¬own) : bodyParts d' = bodyParts d := by
  rw [bodyParts, bodyParts, h.body other, ← isConstructor_title d', h.title, isConstructor_title]

/-- More bodies may be replaced. -/
theorem Persists.weaken {own' : Prop} (h : d.Persists own d') (imp : own → own') :
    d.Persists own' d' :=
  { h with body := fun other => h.body fun mine => other (imp mine) }

/-- Nothing is seen of a change of something in a declaration. -/
theorem persists_through (other : d.id ≠ j) : d.Persists own (change j f d) := by
  cases d
  case classDecl m n ms tps e is ds =>
    have miss : ¬(m.id == j) = true := fun hit => other (eq_of_beq hit)
    rw [change, if_neg miss]
    exact .of_outside rfl rfl rfl rfl
  case methodDecl m n ms tps r ps ts b =>
    have miss : ¬(m.id == j) = true := fun hit => other (eq_of_beq hit)
    rw [change, if_neg miss]
    exact .of_outside rfl rfl rfl rfl
  case varDecl m n ms t i =>
    have miss : ¬(m.id == j) = true := fun hit => other (eq_of_beq hit)
    rw [change, if_neg miss]
    exact .refl _
  case unit => exact .of_outside rfl rfl rfl rfl
  all_goals exact .refl _

/-- A declaration with other members. -/
theorem persists_withDefs (d : Tree) (ds : List Tree) : d.Persists own (d.withDefs ds) := by
  cases d
  case classDecl | unit => exact .of_outside rfl rfl rfl rfl
  all_goals exact .refl _

/-- A declaration with other modifiers. -/
theorem persists_withMods (as : List Tree) (d : Tree)
    (annotations : ms.annotations = d.mods.annotations ++ as)
    (named : ∀ a ∈ as, a.annoName? = some suppressWarningsName)
    (abstract : d.isMethod → ms.flags.meets .abstractFlag = d.mods.flags.meets .abstractFlag) :
    d.Persists own (d.withMods ms) := by
  cases d
  case classDecl | methodDecl | varDecl => exact .of_body as rfl rfl annotations named abstract rfl
  all_goals exact .refl _

/-- A declaration with other flags. -/
theorem persists_withFlags (d : Tree) (fs : Flags)
    (abstract : d.isMethod → fs.meets .abstractFlag = d.mods.flags.meets .abstractFlag) :
    d.Persists own (d.withMods (d.mods.withFlags fs)) := by
  refine persists_withMods [] d ?_ nofun fun method => ?_
  · rw [List.append_nil]
    cases d.mods <;> rfl
  · have kept := abstract method
    cases same : d.mods
    case modifiers => rwa [same] at kept
    all_goals rfl

/-- A declaration with an annotation that suppresses warnings. -/
theorem persists_annotate {a : Tree} (d : Tree) (named : a.annoName? = some suppressWarningsName) :
    d.Persists own (Edit.annotate a d) := by
  rw [Edit.annotate]
  cases same : d.mods
  case modifiers m fs as =>
    refine persists_withMods [a] d (by rw [same]; rfl) (fun b hb => ?_) fun _ => by rw [same]; rfl
    rw [List.mem_singleton.mp hb, named]
  all_goals
    exact persists_withMods [] d (by rw [same]; rfl) (fun _ none_ => absurd none_ List.not_mem_nil)
      fun _ => by rw [same]; rfl

/-- The call of another constructor is found before other statements. -/
theorem call_of_stmts {ss : List Tree} (same : d'.isConstructor = d.isConstructor)
    (plain : ∀ t ∈ ss.head?, isConstructorCall t = false)
    (stmts : d'.body.stmts = (bodyParts d).1 ++ ss) : (bodyParts d').1 = (bodyParts d).1 := by
  have without (stmts : d'.body.stmts = ss) : (bodyParts d').1 = [] := by
    rw [bodyParts, stmts]
    cases ss with
    | nil => rfl
    | cons t ts =>
      dsimp only
      rw [plain t rfl, Bool.and_false]
      rfl
  have own : (bodyParts d).1 = [] ∨ ∃ s, (bodyParts d).1 = [s] ∧
      (d.isConstructor && isConstructorCall s) = true := by
    rw [bodyParts]
    split
    · next s ss' _ =>
      split
      · next calls => exact .inr ⟨s, rfl, calls⟩
      · exact .inl rfl
    · exact .inl rfl
  rcases own with none_ | ⟨s, one, calls⟩
  · rw [none_] at stmts ⊢
    exact without stmts
  · rw [one] at stmts ⊢
    rw [bodyParts, stmts, same]
    dsimp only [List.cons_append]
    rw [if_pos calls]

/-- A method with other statements behind the call of another constructor. -/
theorem persists_withStmts {ss : List Tree} (m : Mark) (mine : own)
    (opens : ∃ s ∈ ss.head?, isConstructorCall s = false) :
    d.Persists own (Edit.withStmts m ((bodyParts d).1 ++ ss) d) := by
  obtain ⟨s, head, plain⟩ := opens
  have plain : ∀ t ∈ ss.head?, isConstructorCall t = false := fun t ht => by
    rwa [Option.mem_unique ht head]
  cases d
  case methodDecl mm n ms tps r ps ts b =>
    have stmts (call : List Tree) :
        (Edit.withStmts m (call ++ ss) (methodDecl mm n ms tps r ps ts b)).body.stmts = call ++ ss := by
      cases b <;> rfl
    refine ⟨rfl, rfl, ⟨[], (List.append_nil _).symm, nofun⟩, fun _ => rfl, absurd mine,
      call_of_stmts rfl plain (stmts _), fun _ => ?_⟩
    rw [bodyParts_withStmts rfl m plain]
    exact fun none_ => nomatch none_ ▸ head
  all_goals exact .refl _

end Syntax.Tree

/-! ## Units -/

namespace SourceUnit

/-- A sound unit whose elements are registered with the elements that they are in, and whose types
are those that were registered first. -/
structure Based (r : Registry) (u : SourceUnit) : Prop extends Sound r u where
  first : r.Nested
  rooted : ∃ keys, r.node? 0 = some ⟨.unit, 0, none, keys⟩
  nested : u.registry.Nested
  top : u.registry.node? 0 = r.node? 0

/-- What stays of a unit in which some bodies may be replaced. -/
structure Persists (r : Registry) (own : Nat → Prop) (u v : SourceUnit) : Prop where
  based : v.Based r
  loose : ∀ {i : Nat}, u.Loose r i → v.Loose r i
  imports : v.imports = u.imports
  package : v.package = u.package
  decls : ∀ {k : Key} {n : Node}, r.node? k = some n → n.kind = .type ∨ n.kind = .method →
    (u.decl k).Persists (own n.decl) (v.decl k)

section Persists

variable {L : License} {r : Registry} {own : Nat → Prop} {u v w : SourceUnit} {j k : Key}
  {n m : Node} {t : Tree} {f : Tree → Tree} {gs : List Gain}

theorem Persists.refl (based : u.Based r) : u.Persists r own u :=
  ⟨based, fun h => h, rfl, rfl, fun _ _ => .refl _⟩

theorem Persists.trans (h : u.Persists r own v) (h' : v.Persists r own w) : u.Persists r own w where
  based := h'.based
  loose own := h'.loose (h.loose own)
  imports := h'.imports.trans h.imports
  package := h'.package.trans h.package
  decls element kind := (h.decls element kind).trans (h'.decls element kind)

theorem Persists.weaken {own' : Nat → Prop} (h : u.Persists r own v) (imp : ∀ i, own i → own' i) :
    u.Persists r own' v :=
  { h with decls := fun element kind => (h.decls element kind).weaken (imp _) }

/-! ### Names and annotations -/

/-- The outermost types are those that were registered first. -/
theorem Based.outermost_eq (based : u.Based r) :
    u.registry.childrenOf 0 .type = r.childrenOf 0 .type := by
  obtain ⟨keys, root⟩ := based.rooted
  rw [Registry.childrenOf, Registry.childrenOf, based.top, root]
  refine List.filter_congr fun c hc => ?_
  obtain ⟨n, child, -⟩ := based.first root c hc
  obtain ⟨keys', now⟩ := based.lasts child
  rw [child, now]
  rfl

theorem kind_of_suits {d : Tree} {kind : NodeKind} (suits : d.Suits kind) :
    kind = .method → d.isMethod := by
  rintro rfl
  cases d
  case methodDecl => rfl
  all_goals exact suits.elim

/-- Names refer to what they referred to. -/
theorem Persists.resolve_eq (h : u.Persists r own v) (based : u.Based r) :
    v.resolve = u.resolve := by
  obtain ⟨keys, root⟩ := based.rooted
  have rooted {w : SourceUnit} (based : w.Based r) : w.Rooted := ⟨keys, based.top.trans root⟩
  refine resolve_of_outermost based.nested h.based.nested (rooted based) (rooted h.based)
    based.outermost h.based.outermost h.imports h.package ?_
  rw [outermostNames, outermostNames, based.outermost_eq, h.based.outermost_eq]
  refine List.map_congr_left fun c hc => ?_
  obtain ⟨n, element, type⟩ := Registry.node_of_childrenOf hc
  have title := (h.decls element (.inl type)).title
  have suits := (based.found element (by rw [type]; decide)).2
  rw [type] at suits
  have plain : (u.decl c).isConstructor = false := by
    cases same : u.decl c
    case classDecl => rfl
    all_goals rw [same] at suits; exact suits.elim
  rw [name, name, ← isConstructor_title, title, isConstructor_title, plain,
    ← declaredName_title, title, declaredName_title]
  rfl

/-- An annotation that suppresses warnings is none of those that are known. -/
theorem ofTree_suppression {a : Tree} (u : SourceUnit) (named : a.annoName? = some suppressWarningsName) :
    AnnoUse.ofTree? u.resolve a = none := by
  have split : Text.splitFirst suppressWarningsName = ("java", ".lang.SuppressWarnings") := by
    decide +kernel
  have others : ∀ t ∈ AnnoType.all, ¬".lang.SuppressWarnings".toList <:+ t.name.toList := by
    decide +kernel
  -- whatever is imported, the name ends as it is written
  obtain ⟨p, ends⟩ : ∃ p, u.resolve suppressWarningsName = p ++ ".lang.SuppressWarnings" := by
    rw [resolve, split]
    dsimp only
    split
    · exact ⟨_, rfl⟩
    · split
      · exact ⟨_, rfl⟩
      · split
        · next p _ => exact ⟨p ++ ".java", by rw [String.append_assoc, String.append_assoc]; rfl⟩
        · exact ⟨"java", rfl⟩
  have unknown : AnnoType.ofName? (u.resolve suppressWarningsName) = none := by
    refine List.find?_eq_none.mpr fun t ht hit => others t ht ?_
    rw [eq_of_beq hit, ends, String.toList_append]
    exact List.suffix_append _ _
  cases a
  case annoUse m t as =>
    have type : Datum.typeOf? u.resolve t = none := by
      rw [Datum.typeOf?, show t.qualifiedName? = some suppressWarningsName from named]
      exact unknown
    rw [AnnoUse.ofTree?, Datum.ofTree, type]
    rfl
  all_goals exact nomatch named

/-- **Annotations stay.** The annotations on a method that are known are the same, whatever has been done
to its body. -/
theorem Persists.annotations_eq (h : u.Persists r own v) (based : u.Based r)
    (element : r.node? k = some n) (kind : n.kind = .type ∨ n.kind = .method) :
    v.annotations k = u.annotations k := by
  obtain ⟨as, same, named⟩ := (h.decls element kind).annotations
  rw [annotations, annotations, h.resolve_eq based, same, List.filterMap_append,
    List.filterMap_eq_nil_iff.mpr fun a ha => u.ofTree_suppression (named a ha), List.append_nil]

/-! ### Steps -/

/-- A change of a declaration, as it is seen in the declaration of an element. -/
theorem Sound.decl_related {ρ : Tree → Tree → Prop} (sound : u.Sound r)
    (node : u.registry.node? j = some m) (element : r.node? k = some n) (inner : n.kind ≠ .unit)
    (refl : ∀ d, ρ d d)
    (made : (u.decl j).isDeclaration → (f (u.decl j)).isDeclaration ∧
      (f (u.decl j)).id = (u.decl j).id ∧ (f (u.decl j)).inner = (u.decl j).inner)
    (hit : n.decl = m.decl → u.decl j = u.decl k → ρ (u.decl k) (f (u.decl k)))
    (through : ∀ d : Tree, d.id ≠ m.decl → ρ d (change m.decl f d)) :
    ρ (u.decl k) ((u.changeDecl j f).decl k) := by
  obtain ⟨keys, now⟩ := sound.lasts element
  have now' : (u.changeDecl j f).registry.node? k = some { n with children := keys } :=
    (congrArg (·.node? k) (changeDecl_registry u j f)).trans now
  have own := (sound.found element inner).1
  have related : Option.Rel ρ (findIn? n.decl u.pool) (findIn? n.decl (u.changeDecl j f).pool) := by
    rw [pool_changeDecl node f]
    rcases sound.found_or_absent node with found | absent
    · refine findIn_changeIn_rel (fun x member same => ?_) fun x _ same other =>
        through x (same ▸ other)
      obtain rfl := eq_of_findIn sound.distinct found member same
      have declared := isDeclaration_of_mem member
      obtain ⟨declared', id, inside⟩ := made declared
      rw [find_declared declared, find_declared declared', id, inside]
      split
      · next number =>
        have whole : u.decl j = u.decl k :=
          eq_of_findIn sound.distinct own member (eq_of_beq number)
        rw [whole]
        exact .some (hit ((eq_of_beq number).symm.trans same) whole)
      · exact rel_of_eq refl rfl
    · rw [changeIn_absent absent]
      exact rel_of_eq refl rfl
  rw [own] at related
  cases after : findIn? n.decl (u.changeDecl j f).pool with
  | none => rw [after] at related; exact nomatch related
  | some d =>
    rw [after] at related
    rw [decl_of_findIn (n := { n with children := keys }) now' inner after]
    cases related with
    | some same => exact same

theorem imports_changeDecl (outermost : ∃ m f p is ds, u.tree = .unit m f p is ds) (k : Key)
    (f : Tree → Tree) : (u.changeDecl k f).imports = u.imports ∧
      (u.changeDecl k f).package = u.package := by
  obtain ⟨m, file, p, is, ds, same⟩ := outermost
  cases place : u.registry.node? k with
  | none => rw [changeDecl, place]; exact ⟨rfl, rfl⟩
  | some n =>
    have changed : (u.changeDecl k f).tree = .unit m file p is (changeIn n.decl f ds) := by
      rw [changeDecl, place]
      change change n.decl f u.tree = _
      rw [same, change]
    rw [imports, imports, package, package, changed, same]
    exact ⟨rfl, rfl⟩

/-- A unit with the same registry. -/
theorem Based.persists (based : u.Based r) (evolves : u.Evolves L r gs v)
    (registry : v.registry = u.registry) (imports : v.imports = u.imports)
    (package : v.package = u.package)
    (decls : ∀ {k : Key} {n : Node}, r.node? k = some n → n.kind = .type ∨ n.kind = .method →
      (u.decl k).Persists (own n.decl) (v.decl k)) : u.Persists r own v where
  based := ⟨evolves.sound, based.first, based.rooted, registry ▸ based.nested,
    registry ▸ based.top⟩
  loose := evolves.loose
  imports := imports
  package := package
  decls := decls

theorem inner_of_kind {kind : NodeKind} (h : kind = .type ∨ kind = .method) : kind ≠ .unit := by
  rcases h with rfl | rfl <;> exact nofun

/-- A unit with the same declarations. -/
theorem Based.persists_same (based : u.Based r) (registry : v.registry = u.registry)
    (tree : v.tree = u.tree) (detached : v.detached = u.detached) (next : u.next ≤ v.next) :
    u.Persists r own v := by
  have pool : v.pool = u.pool := by rw [SourceUnit.pool, SourceUnit.pool, tree, detached]
  have evolves : u.Evolves .nothing r [] v := based.toSound.evolves_same registry
    (by rw [tree]; exact based.outermost) next (by rw [pool]) fun _ => by rw [pool]
  refine based.persists evolves registry (by rw [SourceUnit.imports, tree]; rfl)
    (by rw [SourceUnit.package, tree]; rfl) fun {k n} _ _ => ?_
  have same : v.decl k = u.decl k := by rw [decl, decl, registry, tree, detached]
  rw [same]
  exact .refl _

/-- A declaration changes in its place. -/
theorem Based.alter (based : u.Based r) (loose : ∀ i, L.param i → u.Loose r i)
    (node : u.registry.node? j = some m) (alters : (u.decl j).Alters L m.decl (f (u.decl j)))
    (hit : (u.decl j).isVariable = false → (u.decl j).Persists (own m.decl) (f (u.decl j))) :
    u.Persists r own (u.changeDecl j f) := by
  obtain ⟨imports, package⟩ := imports_changeDecl based.outermost j f
  refine based.persists (based.toSound.alter loose node alters) (changeDecl_registry u j f) imports
    package fun {k n} element kind => ?_
  have inner := inner_of_kind kind
  obtain ⟨declared, id, inside⟩ := alters.inner
  refine based.toSound.decl_related node element inner (fun d => .refl d)
    (fun own => ⟨declared.trans own, id, inside⟩) (fun number same => ?_)
    fun d other => persists_through other
  rw [number, ← same]
  refine hit ?_
  have suits := (based.found element inner).2
  rw [same]
  rcases kind with kind | kind <;> rw [kind] at suits <;> cases shape : u.decl k <;>
    rw [shape] at suits <;> first | rfl | exact suits.elim

/-- A type gets a member. -/
theorem Based.insert {place : List Tree → List Tree} (based : u.Based r)
    (node : u.registry.node? j = some m) (inserts : (t.number u.next).1.Inserts place) :
    u.Persists r own ((u.adopting t).changeDecl j fun d => d.withDefs (place d.defs)) := by
  have evolves := based.toSound.insert (L := { License.nothing with field := fun _ _ => True })
    node inserts fun _ _ => trivial
  obtain ⟨imports, package⟩ := imports_changeDecl (u := u.adopting t) based.outermost j
    fun d => d.withDefs (place d.defs)
  refine based.persists evolves (changeDecl_registry (u.adopting t) j _) imports package
    fun {k n} element kind => ?_
  rw [based.toSound.decl_insert_around element (inner_of_kind kind) node inserts]
  by_cases hit : (u.decl k).id = m.decl
  · have declared := isDeclaration_of_mem
      (mem_of_findIn (based.found element (inner_of_kind kind)).1).1
    rw [← hit, change_hit declared]
    exact persists_withDefs _ _
  · exact persists_through hit

/-- The elements in a type or a method are registered anew. -/
theorem Based.register (based : u.Based r) (element : r.node? k = some n) (inner : n.kind ≠ .unit) :
    u.Persists r own { u with registry := u.registry.rebuild k (u.decl k) } := by
  have evolves := based.toSound.register (L := .nothing) k
  obtain ⟨keys, root⟩ := based.rooted
  refine ⟨⟨evolves.sound, based.first, based.rooted, based.nested.rebuild k _, ?_⟩, evolves.loose,
    rfl, rfl, fun {j m} node kind => ?_⟩
  · have other : (0 : Key) ≠ k := by
      rintro rfl
      rw [root] at element
      exact inner (by rw [← Option.some.inj element])
    rw [Registry.node_rebuild (based.top.trans root), if_neg other, root]
  · obtain ⟨keys', now⟩ := lasts_rebuild based.lasts k (u.decl k) node
    have same : decl { u with registry := u.registry.rebuild k (u.decl k) } j = u.decl j :=
      decl_of_findIn now (inner_of_kind kind) (based.found node (inner_of_kind kind)).1
    rw [same]
    exact .refl _

/-- What is kept while the elements are not registered anew. -/
structure Kept (r : Registry) (own : Nat → Prop) (u v : SourceUnit) : Prop where
  persists : u.Persists r own v
  registry : v.registry = u.registry

theorem Kept.trans (h : u.Kept r own v) (h' : v.Kept r own w) : u.Kept r own w :=
  ⟨h.persists.trans h'.persists, h'.registry.trans h.registry⟩

/-- A declaration changes in its place, or there is none. -/
theorem Based.kept_changeDecl (based : u.Based r) (loose : ∀ i, L.param i → u.Loose r i)
    (alters : ∀ n, u.registry.node? j = some n → (u.decl j).Alters L n.decl (f (u.decl j)))
    (hit : ∀ n, u.registry.node? j = some n → (u.decl j).isVariable = false →
      (u.decl j).Persists (own n.decl) (f (u.decl j))) : u.Kept r own (u.changeDecl j f) := by
  cases node : u.registry.node? j with
  | none =>
    rw [changeDecl, node]
    exact ⟨.refl based, rfl⟩
  | some n => exact ⟨based.alter loose node (alters n node) (hit n node), changeDecl_registry u j f⟩

end Persists

end SourceUnit

/-! ## Edits -/

/-- Code that is lowered to statements of which the first one calls no other constructor. -/
def Code.Opens (cs : List Code) : Prop :=
  ∀ s ts, lowerAll s .statement cs = .ok ts → ∃ t ∈ ts.head?, isConstructorCall t = false

namespace Edit

section Keeping

variable {α β : Type} {r : Registry} {own : Nat → Prop} {u v : SourceUnit} {k : Key}

/-- An edit of a unit that, if it can be carried out, keeps what stays. -/
def KeepsAt (r : Registry) (own : Nat → Prop) (u : SourceUnit) (e : Edit α) : Prop :=
  ∀ ⦃a v⦄, e u = (.ok a, v) → u.Kept r own v

/-- An edit that does so with every unit that is based on what was registered first. -/
def Keeps (r : Registry) (own : Nat → Prop) (e : Edit α) : Prop :=
  ∀ ⦃u : SourceUnit⦄, u.Based r → e.KeepsAt r own u

theorem keeps_pure (a : α) : Keeps r own (pure a : Edit α) := by
  rintro u based _ _ ⟨⟩
  exact ⟨.refl based, rfl⟩

theorem keeps_throw (x : Abort) : Keeps r own (throw x : Edit α) := by
  rintro u - _ _ ⟨⟩

theorem keeps_get {f : SourceUnit → Edit α} (h : ∀ u, u.Based r → (f u).KeepsAt r own u) :
    Keeps r own (get >>= f) := h

theorem KeepsAt.then {e : Edit α} {f : α → Edit β} (h : e.KeepsAt r own u)
    (h' : ∀ a, Keeps r own (f a)) : (e >>= f).KeepsAt r own u := by
  intro b v done
  obtain ⟨a, w, first, next⟩ := ok_of_bind done
  have kept := h first
  exact kept.trans (h' a kept.persists.based next)

theorem keeps_then {e : Edit α} {f : α → Edit β} (h : Keeps r own e)
    (h' : ∀ a, Keeps r own (f a)) : Keeps r own (e >>= f) := fun _ based => (h based).then h'

/-- A computation that does not look at the unit. -/
theorem keeps_result (x : Except Abort α) : Keeps r own (ExceptT.mk (pure x) : Edit α) := by
  rintro u based _ _ ⟨⟩
  exact ⟨.refl based, rfl⟩

/-- A change of declarations that nothing but parameters are seen to change by. -/
theorem keepsAt_change {L : License} {f : Tree → Tree} (based : u.Based r)
    (loose : ∀ i, L.param i → u.Loose r i)
    (alters : ∀ n, u.registry.node? k = some n → (u.decl k).Alters L n.decl (f (u.decl k)))
    (hit : ∀ n, u.registry.node? k = some n → (u.decl k).isVariable = false →
      (u.decl k).Persists (own n.decl) (f (u.decl k))) : (change k f).KeepsAt r own u := by
  rintro _ _ ⟨⟩
  exact based.kept_changeDecl loose alters hit

/-! ### Members -/

/-- A type gets a member, whatever that is. -/
theorem keeps_insert {s : Code.Scope} {c : Code} {place : Tree → List Tree → List Tree}
    (inserts : ∀ t : Tree, t.Inserts (place t)) : Keeps r own (do
      let t ← lower s .part c
      let t ← adopt t
      changeDefs k (place t)) := by
  intro u based _ v whole
  obtain ⟨t, w, first, done⟩ := ok_of_bind whole
  obtain ⟨-, rfl⟩ := ok_of_lower first
  cases done
  refine ⟨?_, changeDecl_registry (u.adopting t) k _⟩
  cases node : u.registry.node? k with
  | some n => exact based.insert node (inserts _)
  | none =>
    change u.Persists r own ((u.adopting t).changeDecl k _)
    have absent : (u.adopting t).registry.node? k = none := node
    rw [changeDecl, absent]
    exact based.persists_same rfl rfl rfl (number_between.1 u.next t).le

theorem keeps_injectField (c : Code) : Keeps r own (injectField k c) :=
  keeps_get fun _ based => keeps_insert inserts_withField based

theorem keeps_injectMember (c : Code) : Keeps r own (injectMember k c) :=
  keeps_get fun _ based => keeps_insert inserts_last based

theorem keeps_injectMethod (c : Code) : Keeps r own (injectMethod k c) := by
  have member : Keeps r own (injectMember k c) := keeps_injectMember c
  unfold injectMethod
  dsimp only
  split
  · refine keeps_then (keeps_throw _) fun _ => ?_
    split
    · exact keeps_then (keeps_throw _) fun _ => member
    · exact member
  · split
    · exact keeps_then (keeps_throw _) fun _ => member
    · exact member

theorem keeps_addConstants (s : Code.Scope) (cs : List Code) :
    Keeps r own (addConstants k s cs) := by
  induction cs with
  | nil => exact keeps_pure _
  | cons c cs ih =>
    have first : Keeps r own (do
        let t ← lower s .part c
        let t ← adopt t
        changeDefs k (withConstant t)) := keeps_insert inserts_withConstant
    have more := keeps_then first fun _ => ih
    simp only [bind_assoc] at more
    exact more

theorem keeps_makeEnum (cs : List Code) : Keeps r own (makeEnum k cs) := by
  refine keeps_then (fun u based => ?_) fun _ => keeps_get fun u based => keeps_addConstants _ cs based
  refine keepsAt_change (L := .nothing) based (fun _ => False.elim) (fun n _ => ?_) fun n _ _ => ?_
  · cases u.decl k
    case classDecl => exact .type
    all_goals exact .same _
  · cases u.decl k
    case classDecl m name ms tps e is ds =>
      exact persists_withFlags (.classDecl m name ms tps e is ds) _ nofun
    all_goals exact .refl _

/-! ### Methods -/

theorem keeps_suppressWarnings (s : Code.Scope) : Keeps r own (suppressWarnings k s) := by
  intro u based _ v done
  obtain ⟨a, next, named, more, adds⟩ := suppressWarnings_eq k s u
  obtain rfl := congrArg Prod.snd (adds.symm.trans done)
  dsimp only
  split
  · exact ⟨.refl based, rfl⟩
  · have spent : u.Persists r own { u with next := next } := based.persists_same rfl rfl rfl more
    refine .trans ⟨spent, rfl⟩ (spent.based.kept_changeDecl (L := .nothing) (fun _ => False.elim)
      (fun _ _ => alters_withMods (flags_withAnnotations _ _)) fun _ _ _ => ?_)
    exact persists_annotate _ named

/-- The body of a method of one's own is replaced. -/
theorem keeps_replaceBody {cs : List Code} (opens : Code.Opens cs)
    (mine : ∀ n, r.node? k = some n → own n.decl) (element : (r.node? k).isSome) :
    Keeps r own (replaceBody k cs) := by
  intro u based _ v done
  obtain ⟨ts, lowered, suppressed⟩ := ok_of_replaceBody done
  obtain ⟨n, first⟩ := Option.isSome_iff_exists.mp element
  obtain ⟨keys, now⟩ := based.lasts first
  have replaced : u.Kept r own (u.changeDecl k
      (withStmts (u.methodScope k).mark ((bodyParts (u.decl k)).1 ++ ts))) := by
    refine based.kept_changeDecl (L := { License.nothing with body := fun _ => True })
      (fun _ => False.elim) (fun _ _ => alters_withStmts trivial _ _ _) fun m node _ => ?_
    obtain rfl := Option.some.inj (node.symm.trans now)
    exact persists_withStmts _ (mine n first) (opens _ ts lowered)
  exact replaced.trans (keeps_suppressWarnings _ replaced.persists.based suppressed)

theorem keeps_addThrown (cs : List Code) : Keeps r own (addThrown k cs) := by
  induction cs with
  | nil => exact keeps_pure _
  | cons c cs ih =>
    refine keeps_get fun u based => keeps_then (keeps_result _) (fun t => ?_) based
    dsimp only
    split
    · refine keeps_then (fun u based => keepsAt_change (L := .nothing) based (fun _ => False.elim)
        (fun n _ => ?_) fun n _ _ => ?_) fun _ => ih
      · cases u.decl k
        case methodDecl => exact .method rfl
        all_goals exact .same _
      · cases u.decl k
        case methodDecl => exact .of_outside rfl rfl rfl rfl
        all_goals exact .refl _
    · exact ih

/-- The modifiers of generated code are set to those there are, apart from some. -/
theorem keepsAt_setModifiers {without : Flags} (based : u.Based r)
    (loose : ∀ n, u.registry.node? k = some n → u.Loose r n.decl)
    (others : ∀ b, b = 10 ∨ b = 14 → without.bits.testBit b = false) :
    (setModifiers k ((u.modifiers k).without without)).KeepsAt r own u := by
  have kept (b : Nat) (hb : b = 10 ∨ b = 14) : (((u.decl k).mods.flags.without .inCode).union
      (((u.modifiers k).without without).forCode)).bits.testBit b =
        (u.decl k).mods.flags.bits.testBit b := Flags.testBit_set (others b hb)
  refine keepsAt_change (L := { License.nothing with param := u.Loose r }) based (fun _ => id)
    (fun n node => alters_withFlags (loose n node) kept) fun n _ _ => persists_withFlags _ _ fun _ => ?_
  exact (Flags.meets_bit _ 10).trans ((kept 10 (.inl rfl)).trans (Flags.meets_bit _ 10).symm)

/-! ### Fields and parameters -/

theorem keepsAt_rename {name : String} (based : u.Based r)
    (loose : ∀ n, u.registry.node? k = some n → u.Loose r n.decl) :
    (rename k name).KeepsAt r own u := by
  refine keepsAt_change (L := { License.nothing with param := u.Loose r }) based (fun _ => id)
    (fun n node => ?_) fun n _ other => ?_
  · cases u.decl k
    case varDecl => exact .param (loose n node) rfl
    all_goals exact .same _
  · cases same : u.decl k
    case varDecl => rw [same] at other; exact nomatch other
    all_goals exact .refl _

theorem keepsAt_makeFinal (based : u.Based r)
    (loose : ∀ n, u.registry.node? k = some n → u.Loose r n.decl) :
    (makeFinal k).KeepsAt r own u := by
  have kept (b : Nat) (hb : b = 10 ∨ b = 14) :
      ((u.decl k).mods.flags.union .finalFlag).bits.testBit b =
        (u.decl k).mods.flags.bits.testBit b := by
    rw [Flags.testBit_union]
    rcases hb with rfl | rfl
    · exact Bool.or_false _
    · exact Bool.or_false _
  refine keepsAt_change (L := { License.nothing with param := u.Loose r }) based (fun _ => id)
    (fun n node => alters_withFlags (loose n node) kept) fun n _ _ => persists_withFlags _ _ fun _ => ?_
  exact (Flags.meets_bit _ 10).trans ((kept 10 (.inl rfl)).trans (Flags.meets_bit _ 10).symm)

theorem keeps_removeInitializer : Keeps r own (removeInitializer k) := by
  intro u based
  refine keepsAt_change (L := { License.nothing with reset := fun _ => True }) based
    (fun _ => False.elim) (fun n _ => ?_) fun n _ other => ?_
  · cases u.decl k
    case varDecl => exact .reset trivial
    all_goals exact .same _
  · cases same : u.decl k
    case varDecl => rw [same] at other; exact nomatch other
    all_goals exact .refl _

end Keeping

end Edit

end Weaver
