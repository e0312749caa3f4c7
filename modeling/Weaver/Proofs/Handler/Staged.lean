import Weaver.Proofs.Handler.Stage
/-!
Staged builders and their extensions.

A run of a builder gives its type the members that make up a builder, which fit each other
(`Handler.Staged`). An extension adds one method twice, to an interface and to the class, and takes
away the method that it was made of. Both are changes of the type that the rest of the builder
stays as it is under, so the members fit each other after any number of extensions.
-/
set_option autoImplicit false

namespace Weaver

open Weaver.Syntax (Tree Mark Flags)
open Weaver.Syntax.Tree
open SourceUnit Weave

namespace Handler

/-! ## The builder -/

/-- Everything that makes up a builder, in the order in which it is added. -/
def BuilderParts.all (p : BuilderParts) : List Code :=
  p.entry :: p.constructor :: (p.interfaces ++ [p.implementation])

section Builder

variable {r : Registry} {u v : SourceUnit} {i : Invocation} {t : Key} {m? : Option Key} {n : Node}
  {b b' : Bench} {o : BuilderOptions} {fields : List BuilderField} {typeName : String}

/-- A loop keeps what each of its rounds keeps. -/
theorem kept_forIn {α : Type} {P : SourceUnit → Prop} {f : α → PUnit → Weave (ForInStep PUnit)}
    {as : List α} {p q : PUnit}
    (h : ∀ a ∈ as, ∀ p b x b', P b.unit → f a p b = (.ok x, b') → P b'.unit)
    (holds : P b.unit) (done : forIn as p f b = (.ok q, b')) : P b'.unit := by
  induction as generalizing p b with
  | nil =>
    cases done
    exact holds
  | cons a as ih =>
    rw [List.forIn_cons] at done
    obtain ⟨x, b₁, first, rest⟩ := ok_of_bind done
    have kept := h a List.mem_cons_self p b x b₁ holds first
    cases x with
    | done q =>
      cases rest
      exact kept
    | yield q => exact ih (fun a ha => h a (List.mem_cons_of_mem _ ha)) kept rest

/-- Splicing by which a type gets members that are made of some codes. -/
def Joining (r : Registry) (t : Key) (u : SourceUnit) (cs : List Code) (s : Splice) : Prop :=
  ∀ ⦃b keys b'⦄, b.unit = u → s b = (.ok keys, b') → keys = [t] ∧ Joined r t u cs b'.unit

/-- A type gets a builder after fields have lost their values. -/
theorem joining_builder (sound : u.Sound r) (element : r.node? t = some n) (type : n.kind = .type)
    (parts : BuilderParts)
    (methods : parts.entry.isMethod ∧ parts.constructor.isMethod) :
    Joining r t u parts.all (do
      for f in fields do
        if f.role == .collection || f.role == .mapping then
          Weave.editing (.removeInitializer f.key)
      Weave.editing (.injectMethod t parts.entry)
      Weave.editing (.injectMethod t parts.constructor)
      for d in parts.interfaces do
        Weave.editing (.injectType t d)
      Weave.editing (.injectType t parts.implementation)
      return [t]) := by
  intro b keys b' same done
  obtain ⟨_, b₁, values, done⟩ := ok_of_bind done
  have start : Joined r t u [] b₁.unit := by
    refine kept_forIn (P := fun v => Joined r t u [] v) (fun f hf _ b x b' joined done => ?_)
      (same ▸ SourceUnit.Joined.refl sound t) values
    split at done
    · obtain ⟨_, b₁, first, rest⟩ := ok_of_bind done
      obtain rfl := (Prod.mk.inj rest).2
      rw [editing_apply, removeInitializer_eq] at first
      rw [← (Prod.mk.inj first).2]
      exact joined.removeInitializer element type
    · obtain rfl := (Prod.mk.inj done).2
      exact joined
  have rest : Joins r t u parts.all (do
      Weave.editing (.injectMethod t parts.entry)
      Weave.editing (.injectMethod t parts.constructor)
      for d in parts.interfaces do
        Weave.editing (.injectType t d)
      Weave.editing (.injectType t parts.implementation)
      return [t]) (· = [t]) := by
    have codes : parts.all = [parts.entry] ++ ([parts.constructor] ++
        (parts.interfaces.flatMap ([·]) ++ ([parts.implementation] ++ []))) := by
      rw [List.flatMap_singleton']
      rfl
    rw [codes]
    refine joins_bind (joins_injectMethod element type methods.1) fun _ _ => ?_
    refine joins_bind (joins_injectMethod element type methods.2) fun _ _ => ?_
    refine joins_bind (joins_forIn fun d _ => joins_injectType element type d) fun _ _ => ?_
    exact joins_bind (joins_injectType element type _) fun _ _ => joins_pure rfl
  obtain ⟨joined, same⟩ := rest start done
  exact ⟨same, joined⟩

/-- A builder that splices gives its type all its parts. -/
theorem hands_builder (starts : builder.Starts r u i t m?) :
    Quiet u (builder.check i) (Hands u fun s => ∃ a o, i.anno = some a ∧
      BuilderOptions.of a = .ok o ∧ ∀ p, Joining r t { u with source := some p }
        (builderParts o (u.name t) (builderFields u t o)).all s) := by
  obtain ⟨n, element, type⟩ := starts.seat.type_node
  unfold builder onAnno
  dsimp only
  split
  case h_2 => exact quiet_pure hands_none
  next a told =>
    refine quiet_look ?_
    rw [starts.type_eq]
    split
    · exact i.quiet_refuse _ hands_none
    split
    · exact i.quiet_stop _ hands_none
    split
    · exact i.quiet_stop _ hands_none
    · next o options =>
      split
      · exact quiet_bind (i.quiet_warn _) fun _ _ => quiet_pure hands_none
      refine quiet_pure (hands_some (quiet_look (quiet_pure
        ⟨_, rfl, a, o, told, options, fun p => ?_⟩)))
      exact joining_builder (starts.sound.attribute p) element type _ ⟨rfl, rfl⟩

end Builder

/-! ## A method more -/

section Gains

variable {r : Registry} {xs ys : List Tree} {x d d' d'' : Tree} {ds : List Tree}
  {g g' g'' : Staging} {k : Mark} {o : BuilderOptions} {typeName : String}
  {fields : List BuilderField} {n : Nat}

/-- A declaration with a further member at its end. -/
def adding (x d : Tree) : Tree := d.withDefs (d.defs ++ [x])

/-- A type after methods were added to declarations of the unit: it has got some of them. -/
structure Gains (xs : List Tree) (d d' : Tree) : Prop where
  resembles : d.Resembles d'
  id : d'.id = d.id
  defs : ∃ ms, ms ⊆ xs ∧ d'.defs = d.defs ++ ms

theorem Gains.refl (xs : List Tree) (d : Tree) : Gains xs d d :=
  ⟨.refl d, rfl, [], List.nil_subset xs, (List.append_nil _).symm⟩

theorem Gains.trans (h : Gains xs d d') (h' : Gains ys d' d'') : Gains (xs ++ ys) d d'' where
  resembles := h.resembles.trans h'.resembles
  id := h'.id.trans h.id
  defs := by
    obtain ⟨ms, some_, same⟩ := h.defs
    obtain ⟨ms', some', same'⟩ := h'.defs
    refine ⟨ms ++ ms', ?_, by rw [same', same, List.append_assoc]⟩
    exact List.append_subset.mpr ⟨List.subset_append_of_subset_left ys some_,
      List.subset_append_of_subset_right xs some'⟩

/-- A type with methods and fields only gets a further one itself or stays as it is. -/
theorem gains_change (flat : IsFlat d) (plain : x.Plain) (n : Nat) :
    Gains [x] d (change n (adding x) d) ∧ IsFlat (change n (adding x) d) ∧
      (d.id = n → (change n (adding x) d).defs = d.defs ++ [x]) := by
  obtain ⟨m, name, ms, tps, e, is, ds, rfl⟩ := exists_classDecl flat.1
  rw [change]
  split
  · exact ⟨⟨resembles_withDefs _ _, rfl, [x], List.Subset.refl _, rfl⟩,
      ⟨rfl, List.forall_mem_append.mpr ⟨flat.2, List.forall_mem_singleton.mpr plain⟩⟩, fun _ => rfl⟩
  · next other =>
    have same : changeIn n (adding x) ds = ds := by
      rw [changeIn_eq_map]
      exact (List.map_congr_left fun y hy => change_plain (flat.2 y hy) n (· ++ [x])).trans
        (List.map_id' ds)
    rw [same]
    exact ⟨.refl _ _, flat, fun hit => absurd (beq_iff_eq.mpr hit) other⟩

namespace Staging

/-- A builder among the members of a type. -/
structure Among (r : Registry) (g : Staging) (ds : List Tree) : Prop where
  part : ∃ others, ds.Perm (g.members ++ others) ∧
    ∀ d ∈ others, isClassDecl d → d.declaredName ≠ builderClass
  /-- The methods of the builder are no elements that were there before. -/
  apart : ∀ {j : Key} {n : Node}, r.node? j = some n → n.kind ≠ .unit →
    n.decl ≠ g.entry.id ∧ n.decl ≠ g.constructor.id
  plain : g.entry.Plain ∧ g.constructor.Plain
  types : ∀ d ∈ g.implementation :: g.stages, IsFlat d

/-- A builder after methods were added to declarations of the unit. -/
structure Gains (xs : List Tree) (g g' : Staging) : Prop where
  entry : g'.entry = g.entry
  constructor : g'.constructor = g.constructor
  stages : List.Forall₂ (Handler.Gains xs) g.stages g'.stages
  implementation : Handler.Gains xs g.implementation g'.implementation

theorem Gains.refl (xs : List Tree) (g : Staging) : g.Gains xs g :=
  ⟨rfl, rfl, List.forall₂_same.mpr fun d _ => .refl xs d, .refl xs _⟩

theorem Gains.trans (h : g.Gains xs g') (h' : g'.Gains ys g'') : g.Gains (xs ++ ys) g'' where
  entry := h'.entry.trans h.entry
  constructor := h'.constructor.trans h.constructor
  stages := by
    obtain ⟨-, -, first, -⟩ := h
    obtain ⟨-, -, second, -⟩ := h'
    generalize g.stages = ds, g'.stages = ds', g''.stages = ds'' at first second
    induction first generalizing ds'' with
    | nil =>
      cases second
      exact .nil
    | cons here _ ih =>
      cases second with
      | cons here' rest => exact .cons (here.trans here') (ih _ rest)
  implementation := h.implementation.trans h'.implementation

/-- The type of a builder, or another declaration, gets a method. -/
theorem Among.change (h : g.Among r d.defs) (type : isClassDecl d) (method : x.isMethod)
    (plain : x.Plain) (n : Nat) :
    ∃ g', g.Gains [x] g' ∧ g'.Among r (Tree.change n (adding x) d).defs ∧
      (g.implementation.id = n → d.id ≠ n →
        g'.implementation.defs = g.implementation.defs ++ [x]) := by
  obtain ⟨others, perm, named⟩ := h.part
  obtain ⟨m, name, ms, tps, e, is, ds, rfl⟩ := exists_classDecl type
  rw [Tree.change]
  split
  · next hit =>
    refine ⟨g, .refl _ g,
      { h with part := ⟨others ++ [x], ?_, ?_⟩ }, fun _ other => absurd (eq_of_beq hit) other⟩
    · rw [← List.append_assoc]
      exact perm.append_right [x]
    · refine List.forall_mem_append.mpr ⟨named, List.forall_mem_singleton.mpr fun isClass => ?_⟩
      cases x
      case methodDecl => exact absurd isClass Bool.false_ne_true
      all_goals exact absurd method Bool.false_ne_true
  · have keeps (d : Tree) : d.Resembles (adding x d) := resembles_withDefs _ _
    have types (d : Tree) (hd : d ∈ g.implementation :: g.stages) :=
      gains_change (h.types d hd) plain n
    have stays {d : Tree} (plain : d.Plain) : Tree.change n (adding x) d = d :=
      change_plain plain n (· ++ [x])
    refine ⟨⟨g.entry, g.constructor, g.stages.map (Tree.change n (adding x)),
        Tree.change n (adding x) g.implementation⟩,
      ⟨rfl, rfl, ?gained, (types _ List.mem_cons_self).1⟩,
      ⟨⟨others.map (Tree.change n (adding x)), ?part, ?named⟩, h.apart, h.plain, ?types⟩,
      fun hit _ => (types _ List.mem_cons_self).2.2 hit⟩
    case gained =>
      refine List.forall₂_map_right_iff.mpr (List.forall₂_same.mpr fun d hd => ?_)
      exact (types d (List.mem_cons_of_mem _ hd)).1
    case part =>
      -- the methods of the builder have no members, so they stay as they are
      have mapped := perm.map (Tree.change n (adding x))
      rw [List.map_append, members, List.map_cons, List.map_cons, List.map_append,
        List.map_singleton, stays h.plain.1, stays h.plain.2] at mapped
      change (changeIn n (adding x) ds).Perm _
      rw [changeIn_eq_map]
      exact mapped
    case named =>
      intro d' hd' isClass
      obtain ⟨d, hd, rfl⟩ := List.mem_map.mp hd'
      have same := resembles_change keeps n d
      rw [same.name]
      exact named d hd (same.type ▸ isClass)
    case types =>
      refine List.forall_mem_cons.mpr ⟨(types _ List.mem_cons_self).2.1, fun d' hd' => ?_⟩
      obtain ⟨d, hd, rfl⟩ := List.mem_map.mp hd'
      exact (types d (List.mem_cons_of_mem _ hd)).2.1

/-- A method is taken from the type of a builder that was there before. -/
theorem Among.filter (h : g.Among r ds) {j : Key} {m : Node} (element : r.node? j = some m)
    (inner : m.kind ≠ .unit) :
    g.Among r (ds.filter fun t => !Edit.isMethodNumbered m.decl t) := by
  obtain ⟨others, perm, named⟩ := h.part
  have apart := h.apart element inner
  have stays : (g.members.filter fun t => !Edit.isMethodNumbered m.decl t) = g.members := by
    refine List.filter_eq_self.mpr fun t ht => Bool.not_eq_true' _ ▸ ?_
    by_contra hit
    obtain ⟨method, number⟩ := isMethodNumbered_iff.mp (Bool.of_not_eq_false hit)
    rcases List.mem_cons.mp ht with rfl | ht
    · exact apart.1 number.symm
    rcases List.mem_cons.mp ht with rfl | ht
    · exact apart.2 number.symm
    · have type : isClassDecl t := by
        refine (h.types t ?_).1
        rcases List.mem_append.mp ht with stage | last
        · exact List.mem_cons_of_mem _ stage
        · exact List.mem_singleton.mp last ▸ List.mem_cons_self
      obtain ⟨_, _, _, _, _, _, _, rfl⟩ := exists_classDecl type
      exact absurd method Bool.false_ne_true
  refine { h with part := ⟨others.filter fun t => !Edit.isMethodNumbered m.decl t, ?_,
    fun d hd => named d (List.mem_of_mem_filter hd)⟩ }
  have filtered := perm.filter fun t => !Edit.isMethodNumbered m.decl t
  rwa [List.filter_append, stays] at filtered

/-- The members of a builder still fit each other when the class implements each further method. -/
theorem Consistent.gains (h : g.Consistent k o typeName fields) (more : g.Gains xs g')
    (each : ∀ x ∈ xs, x.isMethod ∧ ∃ y ∈ g'.implementation.defs, Implements y x) :
    g'.Consistent k o typeName fields := by
  have still {d : Tree} (hd : d ∈ g'.stages) : ∃ d₀ ∈ g.stages, Handler.Gains xs d₀ d :=
    exists_of_mem_right more.stages hd
  obtain ⟨ms, some_, defs⟩ := more.implementation.defs
  exact {
    names := by
      have same : List.Forall₂ (· = ·) (g.stages.map (·.declaredName))
          (g'.stages.map (·.declaredName)) :=
        List.forall₂_map_left_iff.mpr
          (List.forall₂_map_right_iff.mpr (more.stages.imp fun _ _ h => h.resembles.name.symm))
      rw [List.forall₂_eq_eq_eq] at same
      rw [← same, h.names]
    interfaces := fun d hd => by
      obtain ⟨d₀, hd₀, gains⟩ := still hd
      rw [gains.resembles.flags, gains.resembles.type]
      exact h.interfaces d₀ hd₀
    name := more.implementation.resembles.name.trans h.name
    type := more.implementation.resembles.type.trans h.type
    complete := fun d hd x hx => by
      obtain ⟨d₀, hd₀, gains⟩ := still hd
      obtain ⟨new, listed, same⟩ := gains.defs
      rw [same] at hx
      rcases List.mem_append.mp hx with old | added
      · obtain ⟨y, hy, implements⟩ := h.complete d₀ hd₀ x old
        exact ⟨y, defs ▸ List.mem_append_left _ hy, implements⟩
      · exact (each x (listed added)).2
    enters := more.entry ▸ h.enters
    leads := fun j f required => by
      obtain ⟨d, next, there, named, x, hx, sets⟩ := h.leads j f required
      obtain ⟨d', there', gains⟩ := forall₂_getElem more.stages there
      obtain ⟨new, -, same⟩ := gains.defs
      exact ⟨d', next, there', named, x, same ▸ List.mem_append_left _ hx, sets⟩
    holds := by
      have none_ : ms.filterMap field? = [] :=
        List.filterMap_eq_nil_iff.mpr fun x hx => field_of_isMethod (each x (some_ hx)).1
      rw [fieldsIn, defs, List.filterMap_append, none_, List.append_nil]
      exact h.holds
    takes := more.constructor ▸ h.takes }

end Staging

end Gains

/-! ## Runs -/

section Runs

variable {r : Registry} {u v : SourceUnit} {i : Invocation} {t : Key} {m? : Option Key} {n : Node}
  {b b' : Bench} {k : Mark} {o : BuilderOptions} {fields : List BuilderField} {typeName : String}

/-- A type with a builder whose members fit each other. -/
structure Staged (r : Registry) (t : Key) (k : Mark) (o : BuilderOptions) (typeName : String)
    (fields : List BuilderField) (u : SourceUnit) : Prop where
  sound : u.Sound r
  listed : u.Listed t
  builder : ∃ g : Staging, g.Among r (u.decl t).defs ∧ g.Consistent k o typeName fields

/-- A type is registered anew. -/
theorem staged_register {g : Staging} (sound : u.Sound r) (element : r.node? t = some n)
    (type : n.kind = .type) (among : g.Among r (u.decl t).defs)
    (consistent : g.Consistent k o typeName fields) :
    Staged r t k o typeName fields { u with registry := u.registry.rebuild t (u.decl t) } := by
  have same := sound.decl_register element (by rw [type]; exact nofun)
  exact ⟨(sound.register (L := .nothing) t).sound, sound.listed_register element type,
    g, same.symm ▸ among, consistent⟩

theorem forall₂_concat_left {α β : Type} {R : α → β → Prop} {as : List α} {a : α} {bs : List β}
    (h : List.Forall₂ R (as ++ [a]) bs) :
    ∃ bs' b, bs = bs' ++ [b] ∧ List.Forall₂ R as bs' ∧ R a b := by
  induction as generalizing bs with
  | nil =>
    cases h with
    | cons here rest =>
      cases rest
      exact ⟨[], _, rfl, .nil, here⟩
  | cons _ _ ih =>
    cases h with
    | cons first rest =>
      obtain ⟨bs', b, rfl, others, here⟩ := ih rest
      exact ⟨_ :: bs', b, rfl, .cons first others, here⟩

/-- A type that has got all parts of a builder has a builder whose members fit each other. -/
theorem staged_of_joined (sound : u.Sound r) (element : r.node? t = some n) (type : n.kind = .type)
    (typings : ∀ f ∈ fields, f.type.isTyping)
    (named : ∀ d ∈ (u.decl t).defs, isClassDecl d → d.declaredName ≠ builderClass)
    (joined : Joined r t u (builderParts o typeName fields).all v) :
    Staged r t (u.typeScope t).mark o typeName fields
      { v with registry := v.registry.rebuild t (v.decl t) } := by
  obtain ⟨old, new, perm, looks, made⟩ := joined.members
  obtain ⟨entry, constructor, stages, implementation, rfl, g⟩ : ∃ e c ds d,
      new = e :: c :: (ds ++ [d]) ∧
        Staging.Made (u.typeScope t) u.next o typeName fields ⟨e, c, ds, d⟩ := by
    obtain _ | ⟨first, _ | ⟨second, others⟩⟩ := made
    obtain ⟨stages, last, rfl, between, here⟩ := forall₂_concat_left others
    exact ⟨_, _, stages, last, rfl, typings, first, second, between, here⟩
  have apart {c : Code} {x : Tree} (makes : Makes (u.typeScope t) u.next c x)
      (member : Change.isMethod c) {j : Key} {m : Node} (before : r.node? j = some m)
      (inner : m.kind ≠ .unit) : m.decl ≠ x.id :=
    Nat.ne_of_lt (Nat.lt_of_lt_of_le (sound.lt_next before inner) (makes.last (.inl member)).2)
  refine staged_register joined.sound element type ⟨⟨old, ?_, fun d hd isClass => ?_⟩,
    fun before inner => ⟨apart g.entry rfl before inner, apart g.constructor rfl before inner⟩,
    ⟨g.enters.1, g.takes.1⟩, g.types⟩ g.consistent
  · exact perm.trans List.perm_append_comm
  · obtain ⟨d₀, hd₀, same⟩ := exists_of_mem_right looks hd
    rw [same.name]
    exact named d₀ hd₀ (same.type ▸ isClass)

/-- An extension: a method is added to an interface and to the class of a builder, and the method
that it was made of is taken away. -/
def extending (d b t m : Key) (x : BuilderMethod) : Splice := do
  Weave.editing (.injectMethod d x.declared)
  Weave.editing (.injectMethod b x.implemented)
  Weave.editing (.removeMethod t m)
  return [t]

/-- An extension that splices belongs to a method and adds to the class of the builder. -/
theorem hands_extension (starts : builderExtension.Starts r u i t m?) :
    Quiet u (builderExtension.check i) (Hands u fun s => ∃ m d b x, m? = some m ∧
      u.memberType? t builderClass = some b ∧ x.Typed ∧ s = extending d b t m x) := by
  unfold builderExtension onAnno
  dsimp only
  split
  case h_2 => exact quiet_pure hands_none
  next a told =>
    refine quiet_onMethod hands_none fun m own => quiet_look ?_
    rw [starts.type_eq]
    split
    · exact i.quiet_stop _ hands_none
    split
    · exact i.quiet_stop _ hands_none
    · next b found =>
      split
      · exact quiet_bind (i.quiet_warn _) fun _ _ => quiet_pure hands_none
      split
      · exact i.quiet_stop _ hands_none
      · exact i.quiet_stop _ hands_none
      · next d _ =>
        refine quiet_pure (hands_some (quiet_look (quiet_pure ⟨_, rfl, m, d, b, _,
          starts.method_eq own, found, ⟨rfl, fun c hc => ?_⟩, rfl⟩)))
        obtain ⟨p, -, rfl⟩ := List.mem_map.mp hc
        exact ⟨_, _, rfl, Code.isTyping_liftType _⟩

/-- The member class of a builder is the one that it is found by. -/
theorem Staged.implementation_eq (staged : Staged r t k o typeName fields u)
    (element : r.node? t = some n) (type : n.kind = .type) {g : Staging}
    (among : g.Among r (u.decl t).defs) (consistent : g.Consistent k o typeName fields) {c : Key}
    (found : u.memberType? t builderClass = some c) :
    ∃ m, u.registry.node? c = some m ∧ m.decl = g.implementation.id ∧
      m.decl ≠ n.decl := by
  have inner : n.kind ≠ .unit := by rw [type]; exact nofun
  obtain ⟨m, node, -, number, member, kind⟩ := staged.listed.member_of_child staged.sound element
    inner (List.mem_of_find?_eq_some found)
  have isClass := isClassDecl_of_nodeKind kind
  have notPlain (plain : (u.decl c).Plain) : False := by
    obtain ⟨_, _, _, _, _, _, _, same⟩ := exists_classDecl isClass
    rw [same] at plain
    exact plain.elim (fun h => Bool.false_ne_true h.1) Bool.false_ne_true
  have named : (u.decl c).declaredName = builderClass := by
    have hit := List.find?_some found
    exact eq_of_beq hit
  have own : u.decl c = g.implementation := by
    obtain ⟨others, perm, apart⟩ := among.part
    rcases List.mem_append.mp (perm.mem_iff.mp member) with part | other
    · rcases List.mem_cons.mp part with same | part
      · exact (notPlain (same ▸ among.plain.1)).elim
      rcases List.mem_cons.mp part with same | part
      · exact (notPlain (same ▸ among.plain.2)).elim
      rcases List.mem_append.mp part with stage | last
      · -- the names of the interfaces are other ones
        have listed : builderClass ∈ stageNames fields := by
          rw [← consistent.names, ← named]
          exact List.mem_map_of_mem stage
        exact absurd listed builderClass_not_stage
      · exact List.mem_singleton.mp last
    · exact absurd named (apart _ other isClass)
  refine ⟨m, node, by rw [number, own], fun same => ?_⟩
  have here := mem_of_findIn (staged.sound.found element inner).1
  have distinct := distinct_of_findIn staged.sound.distinct (staged.sound.found element inner).1
  rw [numbers_declared (isDeclaration_of_mem here.1)] at distinct
  refine (List.nodup_cons.mp distinct).1 ?_
  rw [here.2, ← same, number]
  refine mem_numbersAll.mpr ⟨_, numbered_subset_of_mem (List.mem_append_left _ member) ?_, rfl⟩
  rw [numbered_eq (isDeclaration_of_nodeKind kind)]
  exact List.mem_cons_self

/-- The mark of code that is attributed to something. -/
theorem mark_typeScope {p : Source.Position} (source : u.source = some p) :
    (u.typeScope t).mark = ⟨p, true, 0⟩ := by
  rw [typeScope, scope, source]
  rfl

/-- The declaration of a type after a method was added somewhere in the unit. -/
theorem among_inserted (element : r.node? t = some n) (type : n.kind = .type) {g : Staging}
    {c : Code} {j : Key} {x : Tree} (sound : u.Sound r) (among : g.Among r (u.decl t).defs)
    (inserted : Inserted r t j c (fun x ds => ds ++ [x]) u x v) (method : x.isMethod)
    (plain : x.Plain) :
    ∃ g', g.Gains [(x.number u.next).1] g' ∧ g'.Among r (v.decl t).defs ∧
      ∀ m, u.registry.node? j = some m → m.decl = g.implementation.id → m.decl ≠ n.decl →
        (x.number u.next).1 ∈ g'.implementation.defs := by
  have inner : n.kind ≠ .unit := by rw [type]; exact nofun
  have ⟨found, suits⟩ := sound.found element inner
  rw [type] at suits
  rcases inserted.decl with ⟨unknown, same⟩ | ⟨m, node, changed⟩
  · exact ⟨g, .refl _ g, same ▸ among, fun m node => nomatch unknown.symm.trans node⟩
  · obtain ⟨g', gains, among', last⟩ := among.change (isClassDecl_of_suits suits)
      (isMethod_of_resembles (resembles_number u.next x) method) (plain_number plain u.next) m.decl
    refine ⟨g', gains, ?_, fun m' node' own other => ?_⟩
    · rw [changed]
      exact among'
    · obtain rfl := Option.some.inj (node.symm.trans node')
      rw [last own.symm fun same => other (same.symm.trans (mem_of_findIn found).2)]
      exact List.mem_append_right _ (List.mem_singleton.mpr rfl)

/-- Splicing an extension keeps the builder. -/
theorem Staged.extending (staged : Staged r t k o typeName fields u)
    (element : r.node? t = some n) (type : n.kind = .type) {d c m : Key} {m' : Node}
    (method : r.node? m = some m') (kind : m'.kind = .method)
    (found : u.memberType? t builderClass = some c) {x : BuilderMethod} (typed : x.Typed)
    {p : Source.Position} {keys : List Key} (same : b.unit = { u with source := some p })
    (done : Handler.extending d c t m x b = (.ok keys, b')) :
    keys = [t] ∧ Staged r t k o typeName fields
      { b'.unit with registry := b'.unit.registry.rebuild t (b'.unit.decl t) } := by
  have inner : n.kind ≠ .unit := by rw [type]; exact nofun
  obtain ⟨g, among, consistent⟩ := staged.builder
  obtain ⟨own, node, number, other⟩ := staged.implementation_eq element type among consistent found
  have sound := staged.sound.attribute p
  obtain ⟨_, b₁, first, done⟩ := ok_of_bind done
  obtain ⟨_, b₂, second, done⟩ := ok_of_bind done
  obtain ⟨_, b₃, third, done⟩ := ok_of_bind done
  obtain ⟨result, rfl⟩ := Prod.mk.inj done
  refine ⟨(Except.ok.inj result).symm, ?_⟩
  -- the interface gets the method
  rw [← same] at sound
  obtain ⟨x₁, inserted₁⟩ := inserted_of_injectMethod sound element inner rfl first
  obtain ⟨plain₁, shown₁, signature₁, has₁⟩ := declared_of_lower typed inserted₁.lowered
  have method₁ := isMethod_of_signature signature₁
  obtain ⟨g₁, gains₁, among₁, -⟩ := among_inserted element type sound (by rw [same]; exact among)
    inserted₁ method₁ plain₁
  -- the class gets it
  obtain ⟨x₂, inserted₂⟩ := inserted_of_injectMethod inserted₁.sound element inner rfl second
  obtain ⟨plain₂, isPublic, hasBody, shown₂, signature₂, has₂⟩ :=
    implemented_of_lower typed inserted₂.lowered
  have method₂ := isMethod_of_signature signature₂
  obtain ⟨g₂, gains₂, among₂, last⟩ :=
    among_inserted element type inserted₁.sound among₁ inserted₂ method₂ plain₂
  have there := last own (by rw [inserted₁.registry, same]; exact node)
    (number.trans gains₁.implementation.id.symm) other
  have marks : (b₁.unit.typeScope c).mark = (b.unit.typeScope d).mark := by
    have source : b.unit.source = some p := by rw [same]
    rw [mark_typeScope source, mark_typeScope (inserted₁.source.trans source)]
  rw [marks] at has₂
  have implements {z : Tree} (signature : z.signature? = some shown₁) :
      Implements (x₂.number b₁.unit.next).1 z := by
    refine ⟨?_, ?_, ?_⟩
    · rw [(resembles_number _ x₂).signature, signature₂, signature, has₁.unique has₂]
    · rw [(resembles_number _ x₂).flags]
      exact isPublic
    · rw [body_number]
      exact hasBody
  have fits : g₂.Consistent k o typeName fields := by
    refine consistent.gains (gains₁.trans gains₂) fun z hz => ?_
    rcases List.mem_pair.mp hz with rfl | rfl
    · have shows := (resembles_number b.unit.next x₁).signature.trans signature₁
      exact ⟨isMethod_of_signature shows, _, there, implements shows⟩
    · have shows := (resembles_number b₁.unit.next x₂).signature.trans signature₂
      exact ⟨isMethod_of_signature shows, _, there, implements (has₁.unique has₂ ▸ shows)⟩
  -- the method that it was made of goes
  rw [editing_apply] at third
  obtain ⟨removes, rfl⟩ := Prod.mk.inj third
  obtain ⟨sound₃, -, defs⟩ := inserted₂.sound.removed element type method kind (Prod.ext removes rfl)
  refine staged_register sound₃ element type ?_ fits
  rcases defs with stays | filtered
  · rw [stays]
    exact among₂
  · rw [filtered]
    exact among₂.filter method (by rw [kind]; exact nofun)

/-- A run of an extension keeps the builder. -/
theorem Staged.run (staged : Staged r t k o typeName fields b.unit)
    (ran : builderExtension.Ran i b (.ok ()) b') (seat : r.Seat i.element t m?)
    (handler : i.handler = builderExtension.name) :
    Staged r t k o typeName fields b'.unit := by
  obtain ⟨n, element, type⟩ := seat.type_node
  rcases ran.handed (hands_extension ⟨staged.sound, seat, handler⟩) with ⟨-, same⟩ |
    ⟨-, s, p, keys, b₁, b₂, ⟨m, d, c, x, rfl, found, typed, rfl⟩, same, done, rfl⟩
  · exact same ▸ staged
  · obtain ⟨m', method, kind, -⟩ := seat.method_node
    obtain ⟨rfl, staged'⟩ := staged.extending element type method kind found typed same done
    exact staged'

/-- Runs of extensions keep the builder. -/
theorem Staged.performed {runs : List (Handler × Invocation)}
    (performed : Performed runs b (.ok ()) b')
    (extend : ∀ run ∈ runs, run.1 = builderExtension ∧ run.2.handler = run.1.name ∧
      ∃ m?, r.Seat run.2.element t m?)
    (staged : Staged r t k o typeName fields b.unit) : Staged r t k o typeName fields b'.unit := by
  generalize done : Except.ok () = x at performed
  induction performed with
  | none => exact staged
  | next ran _ ih =>
    obtain ⟨⟨own, handler, m?, seat⟩, others⟩ := List.forall_mem_cons.mp extend
    dsimp only at own handler seat
    subst own
    exact ih others (staged.run ran seat handler) done
  | broken => exact nomatch done

theorem typing_of_builderFields {f : BuilderField} (hf : f ∈ builderFields u t o) :
    f.type.isTyping := by
  obtain ⟨c, -, made⟩ := List.mem_filterMap.mp hf
  dsimp only at made
  split at made
  · exact nomatch made
  · obtain ⟨role, -, rfl⟩ := Option.map_eq_some_iff.mp made
    exact Code.isTyping_liftType _

/-- A builder gives its type the members that make up a builder, and they fit each other after any
number of extensions. The types of fields are those that are read from the fields of the type. -/
theorem builder_fits {runs : List (Handler × Invocation)} {b₁ b₂ : Bench}
    (starts : builder.Starts r b.unit i t m?) (ran : builder.Ran i b (.ok ()) b₁)
    (accepted : b.accepts (builder, i))
    (named : ∀ d ∈ (b.unit.decl t).defs, isClassDecl d → d.declaredName ≠ builderClass)
    (performed : Performed runs b₁ (.ok ()) b₂)
    (extend : ∀ run ∈ runs, run.1 = builderExtension ∧ run.2.handler = run.1.name ∧
      ∃ m?, r.Seat run.2.element t m?) :
    ∃ a o k g others, i.anno = some a ∧ BuilderOptions.of a = .ok o ∧
      (b₂.unit.decl t).defs.Perm (Staging.members g ++ others) ∧
      (∀ d ∈ others, isClassDecl d → d.declaredName ≠ builderClass) ∧
      g.Consistent k o (b.unit.name t) (builderFields b.unit t o) := by
  obtain ⟨n, element, type⟩ := starts.seat.type_node
  rcases ran.handed (hands_builder starts) with ⟨refused, -⟩ |
    ⟨-, s, p, keys, b', b'', ⟨a, o, told, options, joining⟩, same, done, rfl⟩
  · exact absurd accepted (refused ▸ Bool.false_ne_true)
  · obtain ⟨rfl, joined⟩ := joining p same done
    have staged := staged_of_joined (starts.sound.attribute p) element type
      (fun _ => typing_of_builderFields) named joined
    obtain ⟨-, -, g, ⟨⟨others, perm, apart⟩, -, -, -⟩, consistent⟩ :=
      staged.performed performed extend
    exact ⟨a, o, _, g, others, told, options, perm, apart, consistent⟩

theorem ok_of_isOk {x : Except Abort Unit} (h : x.isOk) : x = .ok () := by
  cases x with
  | ok => rfl
  | error => exact nomatch h

/-- The members of a class with a builder, a required field and an extension. -/
def extendedMembers : List Tree :=
  [.varDecl default "a" (.modifiers default .finalFlag []) (.primitive default .int) .missing,
    .methodDecl default "b" (.modifiers default .privateFlag [.annoUse default (.select default
        (.select default (.ident default "lombok") "Builder") "Extension") []]) []
      (.primitive default .void) [] [] (.block default .empty
        [.exec default (.assign default (.ident default "a") (.literal default (.int 0)))])]

def extendedClass : SourceUnit :=
  .ofTree (.unit default "" .missing [] [.classDecl default "T" (.modifiers default .empty
    [.annoUse default (.select default (.ident default "lombok") "Builder") []]) [] .missing []
    extendedMembers])

/-- The run of its builder. -/
def extendedBuilder : Invocation :=
  ⟨Known.builder, extendedClass.annotated? 1 Known.builder, 1⟩

/-- The run of its extension. -/
def extensionRun : Handler × Invocation :=
  (builderExtension, ⟨Known.builderExtension, extendedClass.annotated? 3 Known.builderExtension, 3⟩)

theorem builder_fits_extended : ∃ b₁ b₂ a o k g others,
    builder.Ran extendedBuilder (.of extendedClass (.empty false)) (.ok ()) b₁ ∧
      b₁.accepts extensionRun ∧ Performed [extensionRun] b₁ (.ok ()) b₂ ∧
      extendedBuilder.anno = some a ∧ BuilderOptions.of a = .ok o ∧
      (b₂.unit.decl 1).defs.Perm (Staging.members g ++ others) ∧
      g.Consistent k o "T" (builderFields extendedClass 1 o) ∧
      (builderFields extendedClass 1 o).map (·.name) = ["a"] := by
  have sound : extendedClass.Sound extendedClass.registry := by
    have segment : Text.IsSegment "lombok" ∧ Text.IsSegment "Builder" ∧
        Text.IsSegment "Extension" ∧ Text.IsSegment "a" :=
      ⟨⟨by decide, by decide⟩, ⟨by decide, by decide⟩, ⟨by decide, by decide⟩, by decide, by decide⟩
    refine sound_ofTree ?_
    simp [Proper, ProperAll, extendedMembers, IsMods, IsAnno, segment]
  obtain ⟨n, node, type⟩ : ∃ n, extendedClass.registry.node? 1 = some n ∧ n.kind = .type := by
    decide +kernel
  obtain ⟨m, node', method, parent⟩ : ∃ n, extendedClass.registry.node? 3 = some n ∧
      n.kind = .method ∧ n.parent = some 1 := by
    decide +kernel
  obtain ⟨accepted, built, accepts, extended, fields⟩ :
      (Bench.of extendedClass (.empty false)).accepts (builder, extendedBuilder) = true ∧
      (extendedBuilder.run builder (.of extendedClass (.empty false))).1.isOk = true ∧
      (extendedBuilder.run builder (.of extendedClass (.empty false))).2.accepts extensionRun =
        true ∧
      (performAll [extensionRun]
        (extendedBuilder.run builder (.of extendedClass (.empty false))).2).1.isOk = true ∧
      ((extendedBuilder.anno.bind fun a => (BuilderOptions.of a).toOption).any fun o =>
        (builderFields extendedClass 1 o).map (·.name) == ["a"]) = true := by
    -- types are read by a function that can be computed
    simp only [performAll, extensionRun, Weave.each, Invocation.run, Bench.accepts, builder,
      builderExtension, onAnno, builderFields, SourceUnit.varType, SourceUnit.returnType,
      SourceUnit.paramCodes, Code.liftType_eq]
    decide +kernel
  have ran := extendedBuilder.ran builder (.of extendedClass (.empty false))
  rw [ok_of_isOk built] at ran
  have performed := performAll_performed [extensionRun]
    (extendedBuilder.run builder (.of extendedClass (.empty false))).2
  rw [ok_of_isOk extended] at performed
  obtain ⟨a, o, k, g, others, told, options, perm, -, consistent⟩ :=
    builder_fits ⟨sound, .type node type, rfl⟩ ran accepted (by decide +kernel) performed
      (List.forall_mem_singleton.mpr ⟨rfl, rfl, _, .method node' method parent node type⟩)
  rw [told, Option.bind_some, options] at fields
  exact ⟨_, _, a, o, k, g, others, ran, accepts, performed, told, options, perm, consistent,
    eq_of_beq fields⟩

end Runs

end Handler

end Weaver
