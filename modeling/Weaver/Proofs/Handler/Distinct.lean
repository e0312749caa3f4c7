import Weaver.Handler.Setter
import Weaver.Proofs.Handler.Staged
/-!
Members that generators of types add have titles of their own.

A generator of setters asks for each member that it adds whether the type has one with that name, but
it asks before it adds any. So the titles of the members (`Syntax.Tree.titles`) stay distinct as long
as what is added at once has distinct titles, and that is so unless two fields lead to the same name.
A builder asks for one of its methods only, and goes on if that was generated. `Handler.Apart` says
which names must not meet. One run keeps the titles distinct (`Handler.Titled`), and any number of
runs do by induction.
-/
set_option autoImplicit false

namespace Weaver

open Weaver.Syntax (Tree Mark Flags)
open Weaver.Syntax.Tree
open SourceUnit Weave

/-! ## Titles -/

namespace Syntax.Tree

namespace Title

/-- Constructors have no name of their own. -/
def isOwn : Title → Bool
  | method n _ => n != Syntax.initName
  | _ => true

/-- The kind of element that a member with a title becomes. -/
def kind : Title → NodeKind
  | field _ => .field
  | method _ _ => .method
  | type _ => .type

/-- The name in a title. -/
def name : Title → String
  | field n | method n _ | type n => n

end Title

/-- The titles of the fields, methods and types in a type. -/
def titles (d : Tree) : List Title := (d.defs.filterMap title?).filter Title.isOwn

/-- The name of a member that is a field whose modifiers have a property, if it is not generated. -/
def fieldWith? (p : Flags → Bool) (d : Tree) : Option String :=
  match d.title? with
  | some (.field n) => if p d.mods.flags.forCode && !n.startsWith "$" then some n else none
  | _ => none

/-- The names of such fields. -/
def fieldsWith (p : Flags → Bool) (d : Tree) : List String := d.defs.filterMap (fieldWith? p)

/-- The fields that can be set. -/
def isOpen (ms : Flags) : Bool := !ms.meets (Flags.staticFlag.union .finalFlag)

/-- The fields that objects have to be given. -/
def isGiven (ms : Flags) : Bool := !ms.meets .staticFlag && ms.meets .finalFlag

section Titles

variable {d d' : Tree} {x : Title} {p : Flags → Bool}

theorem declared_of_title (told : d.title? = some x) :
    d.nodeKind? = some x.kind ∧ d.declaredName = x.name := by
  cases d
  case classDecl | methodDecl =>
    obtain rfl := Option.some.inj told
    exact ⟨rfl, rfl⟩
  case varDecl m n ms t i =>
    rw [title?] at told
    split at told
    · cases told
    · next plain =>
      obtain rfl := Option.some.inj told
      exact ⟨nodeKind_iff_field.mpr ⟨_, if_neg plain⟩, rfl⟩
  all_goals cases told

theorem Resembles.fieldWith (h : d.Resembles d') (p : Flags → Bool) :
    d'.fieldWith? p = d.fieldWith? p := by
  rw [fieldWith?, fieldWith?, h.title, h.flags]

end Titles

end Syntax.Tree

namespace Code

/-- The title of the member that is made of a code. -/
def title? : Code → Option Title
  | fieldDecl _ n ms _ _ => if ms.meets .enumFlag then none else some (.field n)
  | methodDecl _ _ _ _ n ps _ _ _ _ => some (.method n ps.length)
  | constructorDecl _ _ _ _ ps _ _ _ => some (.method Syntax.initName ps.length)
  | classDecl k _ _ n _ _ _ _ _ _ _ => some (.type (if k.isAnonymous then "" else n))
  | _ => none

end Code

section Makes

variable {s : Code.Scope} {p : Code.Place} {next : Nat} {c : Code} {t : Tree} {x : Title}

theorem title_of_lower (told : c.title? = some x) (lowered : c.lower s p = .ok t) :
    t.title? = some x := by
  cases c
  case fieldDecl ty n ms as i =>
    rw [Code.lower_fieldDecl, Code.lower_localDecl] at lowered
    obtain ⟨v, lowered⟩ := Handler.ok_of_lowerThen lowered
    obtain ⟨as', -, lowered⟩ := Code.ok_of_bind lowered
    obtain ⟨ty', -, lowered⟩ := Code.ok_of_bind lowered
    rw [← Except.ok.inj lowered]
    exact told
  case methodDecl ms as tps r n ps ts ss noBody implementing =>
    rw [Code.lower_methodDecl] at lowered
    obtain ⟨as', -, lowered⟩ := Code.ok_of_bind lowered
    obtain ⟨tps', -, lowered⟩ := Code.ok_of_bind lowered
    obtain ⟨r', -, lowered⟩ := Code.ok_of_bind lowered
    obtain ⟨body, -, lowered⟩ := Code.ok_of_bind lowered
    obtain ⟨ps', params, lowered⟩ := Code.ok_of_bind lowered
    obtain ⟨ts', -, lowered⟩ := Code.ok_of_bind lowered
    rw [← Except.ok.inj lowered, ← told, title?, Code.title?,
      (Code.forall₂_of_lowerAll params).length_eq]
  case constructorDecl ms as tps n ps ts ss implicitSuper =>
    obtain ⟨ss', -, lowered⟩ := Code.ok_of_bind lowered
    obtain ⟨tps', -, lowered⟩ := Code.ok_of_bind lowered
    obtain ⟨as', -, lowered⟩ := Code.ok_of_bind lowered
    obtain ⟨ps', params, lowered⟩ := Code.ok_of_bind lowered
    obtain ⟨ts', -, lowered⟩ := Code.ok_of_bind lowered
    rw [← Except.ok.inj lowered, ← told, title?, Code.title?,
      (Code.forall₂_of_lowerAll params).length_eq]
  case classDecl k ms as n tps e is cs fs mths ts =>
    rw [Code.lower_classDecl] at lowered
    obtain ⟨as', -, lowered⟩ := Code.ok_of_bind lowered
    obtain ⟨tps', -, lowered⟩ := Code.ok_of_bind lowered
    obtain ⟨e', lowered⟩ := Handler.ok_of_lowerThen lowered
    obtain ⟨cs', -, lowered⟩ := Code.ok_of_bind lowered
    obtain ⟨fs', -, lowered⟩ := Code.ok_of_bind lowered
    obtain ⟨mths', -, lowered⟩ := Code.ok_of_bind lowered
    obtain ⟨ts', -, lowered⟩ := Code.ok_of_bind lowered
    obtain ⟨is', -, lowered⟩ := Code.ok_of_bind lowered
    rw [← Except.ok.inj lowered]
    exact told
  all_goals cases told

/-- A member has the title that its code tells. -/
theorem Makes.title (h : Makes s next c t) (told : c.title? = some x) : t.title? = some x := by
  obtain ⟨t, i, lowered, -, rfl⟩ := h
  exact (resembles_number i t).title.trans (title_of_lower told lowered)

/-- A field has the modifiers that its code tells. -/
theorem Makes.flags {ty init : Code} {n : String} {ms : Flags}
    (h : Makes s next (.fieldOf ty n ms init) t) : t.mods.flags = ms := by
  obtain ⟨t, i, lowered, -, rfl⟩ := h
  rw [(resembles_number i t).flags]
  rw [Code.fieldOf, Code.lower_fieldDecl, Code.lower_localDecl] at lowered
  obtain ⟨v, lowered⟩ := Handler.ok_of_lowerThen lowered
  obtain ⟨as, -, lowered⟩ := Code.ok_of_bind lowered
  obtain ⟨ty, -, lowered⟩ := Code.ok_of_bind lowered
  rw [← Except.ok.inj lowered]
  rfl

end Makes

/-! ## What a type gets -/

section Joined

variable {r : Registry} {u v : SourceUnit} {k : Key} {n : Node} {cs : List Code}
  {p : Flags → Bool}

theorem filterMap_of_forall₂ {α β γ : Type} {R : α → β → Prop} {f : α → Option γ}
    {g : β → Option γ} {as : List α} {bs : List β} (h : List.Forall₂ R as bs)
    (same : ∀ a ∈ as, ∀ b, R a b → g b = f a) : bs.filterMap g = as.filterMap f := by
  induction h with
  | nil => rfl
  | cons here _ ih =>
    obtain ⟨first, others⟩ := List.forall_mem_cons.mp same
    rw [List.filterMap_cons, List.filterMap_cons, first _ here, ih others]

/-- The titles of a type are those it had and those of what it has got. -/
theorem SourceUnit.Joined.titles (h : Joined r k u cs v) (told : ∀ c ∈ cs, c.title?.isSome) :
    (v.decl k).titles.Perm
      ((u.decl k).titles ++ (cs.filterMap Code.title?).filter Title.isOwn) := by
  obtain ⟨old, new, perm, looks, made⟩ := h.members
  have before : old.filterMap title? = (u.decl k).defs.filterMap title? :=
    filterMap_of_forall₂ looks fun _ _ _ same => same.title
  have added : new.filterMap title? = cs.filterMap Code.title? :=
    filterMap_of_forall₂ made fun c hc t makes => by
      obtain ⟨x, title⟩ := Option.isSome_iff_exists.mp (told c hc)
      rw [makes.title title, title]
  have whole := (perm.filterMap title?).filter Title.isOwn
  rwa [List.filterMap_append, before, added, List.filter_append] at whole

/-- Code for a member that is no field with a property, or is generated. -/
def Code.Aside (p : Flags → Bool) (c : Code) : Prop :=
  ∀ s next t, Makes s next c t → t.fieldWith? p = none

/-- A type has the fields with a property that it had if it gets no further ones. -/
theorem SourceUnit.Joined.fieldsWith (h : Joined r k u cs v) (aside : ∀ c ∈ cs, c.Aside p) :
    ((v.decl k).fieldsWith p).Perm ((u.decl k).fieldsWith p) := by
  obtain ⟨old, new, perm, looks, made⟩ := h.members
  have before : old.filterMap (fieldWith? p) = (u.decl k).fieldsWith p :=
    filterMap_of_forall₂ looks fun _ _ _ same => same.fieldWith p
  have added : new.filterMap (fieldWith? p) = [] := by
    refine List.filterMap_eq_nil_iff.mpr fun t ht => ?_
    obtain ⟨c, hc, makes⟩ := Handler.exists_of_mem_right made ht
    exact aside c hc _ _ t makes
  have whole := perm.filterMap (fieldWith? p)
  rwa [List.filterMap_append, before, added, List.append_nil] at whole

/-- A member that is no field. -/
theorem Code.aside_of_title {c : Code} {x : Title} (told : c.title? = some x)
    (other : x.kind ≠ .field) : c.Aside p := by
  intro s next t makes
  rw [fieldWith?, makes.title told]
  cases x
  case field => exact absurd rfl other
  all_goals rfl

/-- A field with a generated name or other modifiers. -/
theorem Code.aside_field {ty init : Code} {name : String} {ms : Flags}
    (plain : ms.meets .enumFlag = false)
    (other : (p ms.forCode && !name.startsWith "$") = false) :
    (Code.fieldOf ty name ms init).Aside p := by
  intro s next t makes
  have told : (Code.fieldOf ty name ms init).title? = some (.field name) :=
    if_neg (by rw [plain]; exact Bool.false_ne_true)
  rw [fieldWith?, makes.title told, makes.flags]
  exact if_neg (by rw [other]; exact Bool.false_ne_true)

/-- Code for a member with a title that is no field which can be set or has to be given. -/
structure Code.Told (c : Code) (x : Title) : Prop where
  title : c.title? = some x
  opens : c.Aside isOpen
  givens : c.Aside isGiven

theorem Code.told_of_title {c : Code} {x : Title} (told : c.title? = some x)
    (other : x.kind ≠ .field) : c.Told x :=
  ⟨told, aside_of_title told other, aside_of_title told other⟩

/-- What is absent among the elements of a type is not among the titles of its members. -/
theorem SourceUnit.Listed.absent (listed : u.Listed k) (sound : u.Sound r)
    (element : r.node? k = some n) (inner : n.kind ≠ .unit) {x : Title}
    (absent : u.existenceIn (u.registry.childrenOf k x.kind) x.name = .absent) :
    ∀ y ∈ (u.decl k).titles, y.kind = x.kind → y.name ≠ x.name := by
  intro y hy kind same
  obtain ⟨d, hd, told⟩ := List.mem_filterMap.mp (List.mem_of_mem_filter hy)
  obtain ⟨becomes, named⟩ := declared_of_title told
  have decls := listed.decls sound element inner x.kind
  have there : d ∈ (u.decl k).defs.filter (Tree.becomes x.kind) :=
    List.mem_filter.mpr ⟨hd, beq_iff_eq.mpr (becomes.trans (congrArg some kind))⟩
  rw [← decls] at there
  obtain ⟨c, hc, decl⟩ := List.mem_map.mp there
  rw [existenceIn] at absent
  split at absent
  · split at absent <;> cases absent
  · next none_ =>
    refine List.find?_eq_none.mp none_ c hc (beq_iff_eq.mpr ?_)
    rw [decl, named, same]

/-- A field with a property has its name among them. -/
theorem Syntax.Tree.fieldWith_of_field {d : Tree} (field : d.nodeKind? = some .field)
    (has : p d.mods.flags.forCode) (plain : d.declaredName.startsWith "$" = false) :
    d.fieldWith? p = some d.declaredName := by
  cases d
  case varDecl m name ms t i =>
    have told : (varDecl m name ms t i).title? = some (.field name) := by
      rw [nodeKind?, isEnumConstant] at field
      split at field
      · cases field
      · next other => exact if_neg other
    rw [fieldWith?, told]
    exact if_pos (Bool.and_eq_true_iff.mpr ⟨has, Bool.not_eq_true' _ ▸ plain⟩)
  all_goals cases field

/-- The fields with a property, by the elements that they are. -/
theorem SourceUnit.Listed.fieldsWith (listed : u.Listed k) (sound : u.Sound r)
    (element : r.node? k = some n) (inner : n.kind ≠ .unit) (p : Flags → Bool) :
    (u.decl k).fieldsWith p = (u.fields k).filterMap fun f => (u.decl f).fieldWith? p := by
  have decls := listed.decls sound element inner .field
  have only : (u.decl k).fieldsWith p =
      ((u.decl k).defs.filter (becomes .field)).filterMap (fieldWith? p) := by
    rw [List.filterMap_filter]
    refine List.filterMap_congr fun d _ => ?_
    split
    · rfl
    · next other =>
      rw [fieldWith?]
      split
      · next told => exact absurd (beq_iff_eq.mpr (declared_of_title told).1) other
      · rfl
  rw [only, ← decls, List.filterMap_map]
  rfl

end Joined

theorem filterMap_sublist {α β : Type} {f g : α → Option β} {as : List α}
    (h : ∀ a ∈ as, ∀ b, f a = some b → g a = some b) :
    (as.filterMap f).Sublist (as.filterMap g) := by
  induction as with
  | nil => exact List.Sublist.refl _
  | cons a as ih =>
    obtain ⟨here, others⟩ := List.forall_mem_cons.mp h
    cases found : f a with
    | none =>
      rw [List.filterMap_cons_none found]
      refine (ih others).trans ?_
      rw [List.filterMap_cons]
      split
      · exact List.Sublist.refl _
      · exact List.sublist_cons_self ..
    | some b =>
      rw [List.filterMap_cons_some found, List.filterMap_cons_some (here b found)]
      exact (ih others).cons_cons b

/-- Fields have different names if members have different titles. -/
theorem Syntax.Tree.distinct_fieldsWith {d : Tree} (distinct : d.titles.Nodup)
    (p : Flags → Bool) : (d.fieldsWith p).Nodup := by
  have among : ((d.fieldsWith p).map Title.field).Sublist d.titles := by
    rw [fieldsWith, Tree.titles, List.map_filterMap, List.filter_filterMap]
    refine filterMap_sublist fun d _ x found => ?_
    obtain ⟨name, named, rfl⟩ := Option.map_eq_some_iff.mp found
    rw [fieldWith?] at named
    split at named
    · next told =>
      rw [told]
      split at named
      · obtain rfl := Option.some.inj named
        rfl
      · exact nomatch named
    · exact nomatch named
  exact (distinct.sublist among).of_map _

namespace Handler

/-! ## Names that fields lead to -/

section Names

variable {r : Registry} {u : SourceUnit} {t : Key} {n : Node} (listed : u.Listed t)
  (sound : u.Sound r) (element : r.node? t = some n) (inner : n.kind ≠ .unit)

include listed sound element inner

theorem name_of_field {f : Key} (hf : f ∈ u.fields t) :
    (u.decl f).nodeKind? = some .field ∧ u.name f = (u.decl f).declaredName := by
  obtain ⟨-, -, -, -, -, kind⟩ := listed.member_of_child sound element inner hf
  refine ⟨kind, ?_⟩
  rw [SourceUnit.name]
  cases decl : u.decl f
  case varDecl => rfl
  all_goals
    rw [decl] at kind
    cases kind

/-- The fields that get setters can be set. -/
theorem settable_sublist (s : SetterStyle) :
    ((settable s u t).map u.name).Sublist ((u.decl t).fieldsWith isOpen) := by
  rw [listed.fieldsWith sound element inner, settable, ← List.filterMap_eq_map,
    List.filterMap_filter]
  refine filterMap_sublist fun f hf x found => ?_
  obtain ⟨field, named⟩ := name_of_field listed sound element inner hf
  split at found
  · next selected =>
    simp only [Bool.and_eq_true, Bool.not_eq_true'] at selected
    obtain ⟨⟨⟨plain, opens⟩, -⟩, -⟩ := selected
    obtain rfl := Option.some.inj found
    rw [Function.comp_apply, named] at *
    exact fieldWith_of_field field (Bool.not_eq_true' _ ▸ opens) plain
  · exact nomatch found

/-- The fields that a builder requires have to be given. -/
theorem required_sublist (o : BuilderOptions) :
    (((builderFields u t o).filter (·.role == .required)).map (·.name)).Sublist
      ((u.decl t).fieldsWith isGiven) := by
  rw [listed.fieldsWith sound element inner, builderFields, ← List.filterMap_eq_map,
    List.filterMap_filter, List.filterMap_filterMap]
  refine filterMap_sublist fun f hf x found => ?_
  obtain ⟨field, named⟩ := name_of_field listed sound element inner hf
  obtain ⟨b, made, found⟩ := Option.bind_eq_some_iff.mp found
  dsimp only at made
  split at made
  · cases made
  · next selected =>
    obtain ⟨role, roles, rfl⟩ := Option.map_eq_some_iff.mp made
    split at found
    · next required =>
      obtain rfl := Option.some.inj found
      simp only [Bool.or_eq_true, not_or, Bool.not_eq_true] at selected
      obtain ⟨⟨unshared, plain⟩, -⟩ := selected
      have isFinal : (u.modifiers f).meets .finalFlag = true := by
        obtain rfl : role = .required := eq_of_beq required
        rw [roleOf?] at roles
        split at roles
        · cases roles
        · next isFinal => rwa [Bool.not_eq_true', Bool.not_eq_false] at isFinal
      rw [Function.comp_apply, named] at *
      exact fieldWith_of_field field
        (Bool.and_eq_true_iff.mpr ⟨Bool.not_eq_true' _ ▸ unshared, isFinal⟩) plain
    · cases found

end Names

/-! ## Setters -/

section Setters

variable {r : Registry} {u v : SourceUnit} {i : Invocation} {t : Key} {m? : Option Key} {n : Node}
  {s : SetterStyle} {level : AccessLevel} {as : List Additions}

/-- What is added, in its order. -/
def Additions.codes (a : Additions) : List Code := a.fields ++ a.methods

theorem joins_inject (element : r.node? t = some n) (type : n.kind = .type) {a : Additions}
    (methods : ∀ c ∈ a.methods, c.isMethod) :
    Joins r t u a.codes (a.inject t) fun _ => True := by
  have codes : a.codes = a.fields.flatMap ([·]) ++ (a.methods.flatMap ([·]) ++ []) := by
    rw [List.flatMap_singleton', List.flatMap_singleton', List.append_nil]
    rfl
  rw [codes]
  refine joins_bind (joins_forIn fun c _ => joins_injectField element type c) fun _ _ => ?_
  refine joins_bind (joins_forIn fun c hc => ?_) fun _ _ => joins_pure trivial
  exact joins_injectMethod element type (methods c hc)

/-- A type gets some additions. -/
theorem joining_additions (sound : u.Sound r) (element : r.node? t = some n)
    (type : n.kind = .type) (methods : ∀ a ∈ as, ∀ c ∈ a.methods, c.isMethod) :
    Joining r t u (as.flatMap Additions.codes) (do
      for a in as do
        a.inject t
      return [t]) := by
  intro b keys b' same done
  have whole : Joins r t u (as.flatMap Additions.codes ++ []) (do
      for a in as do
        a.inject t
      return [t]) (· = [t]) :=
    joins_bind (joins_forIn fun a ha => joins_inject element type (methods a ha)) fun _ _ =>
      joins_pure rfl
  rw [List.append_nil] at whole
  have start : Joined r t u [] b.unit := same ▸ SourceUnit.Joined.refl sound t
  exact (whole start done).symm

/-- The styles of the two handlers that make setters. -/
def AreSetters (s : SetterStyle) : Prop := s = fluentStyle ∨ s = boundStyle

theorem title_setter (style : AreSetters s) (self type : Code) (name : String) (ms : Flags) :
    (s.setter self name type ms).isMethod ∧
      (s.setter self name type ms).title? = some (.method (s.name name) 1) := by
  rcases style with rfl | rfl <;> exact ⟨rfl, rfl⟩

theorem isMethod_setterAdditions (style : AreSetters s) (fields : List Key) :
    ∀ a ∈ setterAdditions s u t fields level, ∀ c ∈ a.methods, c.isMethod := by
  have setters (self : Code) : ∀ c ∈ fields.map fun f =>
      s.setter self (u.name f) (u.varType f) level.flags, c.isMethod := by
    intro c hc
    obtain ⟨f, -, rfl⟩ := List.mem_map.mp hc
    exact (title_setter style _ _ _ _).1
  intro a ha c hc
  rw [setterAdditions] at ha
  split at ha
  · rcases List.mem_pair.mp ha with rfl | rfl
    · obtain ⟨m, hm, rfl⟩ := List.mem_map.mp hc
      have listed := List.mem_of_mem_filter hm
      simp only [supportMethods, List.mem_cons, List.not_mem_nil, or_false] at listed
      rcases listed with rfl | rfl | rfl | rfl <;> rfl
    · exact setters _ c hc
  · rw [List.mem_singleton.mp ha] at hc
    exact setters _ c hc

/-- Setters that are spliced by an annotation of a type are added for the fields that can be set. -/
theorem hands_setting (starts : (setting s).Starts r u i t m?) (own : i.element = t)
    (style : AreSetters s) :
    Quiet u ((setting s).check i) (Hands u fun sp => ∃ level, ∀ p,
      Joining r t { u with source := some p }
        ((setterAdditions s u t (settable s u t) level).flatMap Additions.codes) sp) := by
  obtain ⟨n, element, type⟩ := starts.seat.type_node
  have kind : u.nodeKind i.element = .type := by
    rw [own, nodeKind_eq starts.sound.lasts element, type]
  unfold setting onAnno
  dsimp only
  split
  case h_2 => exact quiet_pure hands_none
  next a told =>
    split
    · exact i.quiet_stop _ hands_none
    next level _ =>
    split
    · exact quiet_pure hands_none
    refine quiet_look ?_
    rw [starts.type_eq]
    have fields : Quiet u (setterFields s i t) fun fields? => ∀ fields, fields? = some fields →
        fields = settable s u t := by
      refine quiet_look ?_
      rw [kind, own]
      dsimp only
      split
      · refine quiet_pure ?_
        rintro _ ⟨⟩
        rfl
      · refine i.quiet_refuse _ ?_
        rintro _ ⟨⟩
    refine quiet_bind fields fun fields? among => ?_
    cases fields? with
    | none => exact quiet_pure hands_none
    | some fields =>
      obtain rfl := among fields rfl
      refine quiet_pure (hands_some (quiet_look (quiet_pure ⟨_, rfl, level, fun p => ?_⟩)))
      exact joining_additions (starts.sound.attribute p) element type
        (isMethod_setterAdditions style _)

/-! ### What a type gets with its setters -/

/-- The titles of the members behind listeners. -/
def supportTitles : List Title := (supportFields ++ supportMethods).filterMap (·.code.title?)

/-- The titles of the constant of a property. -/
def constantTitle (field : String) : Title := .field (propertyConstant field).name

/-- The titles of what is added for setters of fields with some names. -/
def setterTitles (s : SetterStyle) (names : List String) : List Title :=
  (if s.isBound then supportTitles ++ names.map constantTitle else []) ++
    names.map fun n => .method (s.name n) 1

theorem told_supportFields : ∀ f ∈ supportFields, f.code.Told (.field f.name) := by
  intro f hf
  simp only [supportFields, List.mem_cons, List.not_mem_nil, or_false] at hf
  have aside {p : Flags → Bool} {type init : Code} {name : String} {ms : Flags}
      (plain : ms.meets .enumFlag = false) (first : name.startsWith "$" = true) :
      (Code.fieldOf type name ms init).Aside p :=
    Code.aside_field plain (by rw [first, Bool.not_true, Bool.and_false])
  have dollar {name : String} (h : "$".toList <+: name.toList) : name.startsWith "$" = true :=
    String.startsWith_string_iff.mpr h
  rcases hf with rfl | rfl <;>
    exact ⟨rfl, aside (by decide) (dollar (by decide)), aside (by decide) (dollar (by decide))⟩

theorem told_supportMethods : ∀ m ∈ supportMethods, ∃ arity, m.code.Told (.method m.name arity) := by
  intro m hm
  simp only [supportMethods, List.mem_cons, List.not_mem_nil, or_false] at hm
  rcases hm with rfl | rfl | rfl | rfl <;> exact ⟨_, Code.told_of_title rfl nofun⟩

theorem told_constant (field : String) :
    (propertyConstant field).code.Told (constantTitle field) := by
  have settled (p : Flags → Bool) (none_ : p propertyConstant.publicConstant.forCode = false) :
      (propertyConstant field).code.Aside p :=
    Code.aside_field (by decide) (by rw [none_, Bool.false_and])
  exact ⟨rfl, settled _ (by decide), settled _ (by decide)⟩

/-- What is added has titles that the type does not have yet. -/
theorem told_setterAdditions (style : AreSetters s) :
    ∀ c ∈ (setterAdditions s u t (settable s u t) level).flatMap Additions.codes, ∃ x, c.Told x ∧
      u.existenceIn (u.registry.childrenOf t x.kind) x.name = .absent := by
  have setters (self : Code) : ∀ c ∈ (settable s u t).map fun f =>
      s.setter self (u.name f) (u.varType f) level.flags, ∃ x, c.Told x ∧
        u.existenceIn (u.registry.childrenOf t x.kind) x.name = .absent := by
    intro c hc
    obtain ⟨f, hf, rfl⟩ := List.mem_map.mp hc
    have absent := (Bool.and_eq_true_iff.mp (List.mem_filter.mp hf).2).2
    exact ⟨_, Code.told_of_title (title_setter style _ _ _ _).2 nofun, eq_of_beq absent⟩
  rw [setterAdditions]
  dsimp only
  split
  · rw [List.flatMap_cons, List.flatMap_singleton]
    refine List.forall_mem_append.mpr ⟨List.forall_mem_append.mpr ⟨?_, ?_⟩,
      List.forall_mem_append.mpr ⟨?_, setters _⟩⟩
    · intro c hc
      obtain ⟨f, hf, rfl⟩ := List.mem_map.mp hc
      obtain ⟨listed, absent⟩ := List.mem_filter.mp hf
      exact ⟨_, told_supportFields f listed, eq_of_beq absent⟩
    · intro c hc
      obtain ⟨m, hm, rfl⟩ := List.mem_map.mp hc
      obtain ⟨listed, absent⟩ := List.mem_filter.mp hm
      obtain ⟨arity, told⟩ := told_supportMethods m listed
      exact ⟨_, told, eq_of_beq absent⟩
    · intro c hc
      obtain ⟨k, hk, rfl⟩ := List.mem_map.mp hc
      obtain ⟨listed, absent⟩ := List.mem_filter.mp hk
      obtain ⟨f, -, rfl⟩ := List.mem_map.mp listed
      exact ⟨_, told_constant _, eq_of_beq absent⟩
  · rw [List.flatMap_singleton]
    exact setters _

theorem titles_setterAdditions (style : AreSetters s) (fields : List Key) :
    (((setterAdditions s u t fields level).flatMap Additions.codes).filterMap
      Code.title?).Sublist (setterTitles s (fields.map u.name)) := by
  have setters (self : Code) : (fields.map fun f =>
      s.setter self (u.name f) (u.varType f) level.flags).filterMap Code.title? =
        (fields.map u.name).map fun n => .method (s.name n) 1 := by
    rw [List.filterMap_map, List.map_map, ← List.filterMap_eq_map]
    exact List.filterMap_congr fun f _ => (title_setter style _ _ _ _).2
  have support : ((Additions.support u t).codes.filterMap Code.title?).Sublist supportTitles := by
    rw [Additions.codes, Additions.support, List.filterMap_append, List.filterMap_map,
      List.filterMap_map, supportTitles, List.filterMap_append]
    exact (List.filter_sublist.filterMap _).append (List.filter_sublist.filterMap _)
  rw [setterAdditions, setterTitles]
  dsimp only
  split
  · rw [List.flatMap_cons, List.flatMap_singleton, List.filterMap_append, List.append_assoc]
    refine support.append ?_
    rw [Additions.codes, List.filterMap_append, setters, List.filterMap_map]
    refine List.Sublist.append ?_ (List.Sublist.refl _)
    refine (List.filter_sublist.filterMap _).trans ?_
    rw [List.filterMap_map, List.map_map, ← List.filterMap_eq_map]
    exact List.Sublist.refl _
  · rw [List.flatMap_singleton, Additions.codes, List.nil_append, setters]
    exact List.Sublist.refl _

theorem supportTitles_eq : supportTitles = [.field supportField, .field supportLockField,
    .method supportGetter 0, .method "addPropertyChangeListener" 1,
    .method "removePropertyChangeListener" 1, .method "firePropertyChange" 3] := rfl

/-- Setters have titles of their own if they have names of their own, and so have constants. -/
theorem distinct_setterTitles (style : AreSetters s) {names : List String}
    (setters : (names.map s.name).Nodup)
    (constants : s.isBound → (names.map fun n => (propertyConstant n).name).Nodup) :
    (setterTitles s names).Nodup := by
  have setters : (names.map fun n => Title.method (s.name n) 1).Nodup := by
    have titled := setters.map (f := fun n => Title.method n 1)
      fun _ _ same => (Title.method.inj same).1
    rwa [List.map_map] at titled
  rcases style with rfl | rfl
  · exact setters
  · have constants : (names.map constantTitle).Nodup := by
      have titled := (constants rfl).map (f := Title.field) fun _ _ same => Title.field.inj same
      rwa [List.map_map] at titled
    change ((supportTitles ++ names.map constantTitle) ++ _).Nodup
    refine List.nodup_append.mpr ⟨List.nodup_append.mpr ⟨by decide, constants, ?_⟩, setters, ?_⟩
    · rintro x hx _ hy rfl
      obtain ⟨n, -, rfl⟩ := List.mem_map.mp hy
      simp only [supportTitles_eq, List.mem_cons, constantTitle, Title.field.injEq, reduceCtorEq,
        List.not_mem_nil, or_false] at hx
      rcases hx with same | same <;> exact ne_of_constant (by simp) n same
    · rintro x hx _ hy rfl
      obtain ⟨n, -, rfl⟩ := List.mem_map.mp hy
      rcases List.mem_append.mp hx with support | constant
      · -- the methods behind listeners begin otherwise
        have first : (boundStyle.name n).toList.head? = some 's' := by
          change ("set" ++ _).toList.head? = _
          rw [String.toList_append]
          rfl
        simp only [supportTitles_eq, List.mem_cons, Title.method.injEq, reduceCtorEq,
          List.not_mem_nil, or_false, false_or] at support
        rcases support with ⟨same, -⟩ | ⟨same, -⟩ | ⟨same, -⟩ | ⟨same, -⟩ <;>
          exact absurd (same ▸ first) (by decide)
      · obtain ⟨_, -, same⟩ := List.mem_map.mp constant
        cases same

/-- A type that gets setters gets no type and no method with a name that has no parameters. -/
theorem vacant_setterTitles (style : AreSetters s) {name : String}
    (other : s.isBound → name ≠ supportGetter) (names : List String) :
    ∀ x ∈ setterTitles s names, x.kind ≠ .type ∧ x ≠ .method name 0 := by
  have setters : ∀ x ∈ names.map fun n => Title.method (s.name n) 1,
      x.kind ≠ .type ∧ x ≠ .method name 0 := by
    intro x hx
    obtain ⟨n, -, rfl⟩ := List.mem_map.mp hx
    refine ⟨fun same => NodeKind.noConfusion same, fun same => ?_⟩
    cases (Title.method.inj same).2
  rcases style with rfl | rfl
  · exact setters
  · refine List.forall_mem_append.mpr ⟨List.forall_mem_append.mpr ⟨fun x hx => ?_, fun x hx => ?_⟩,
      setters⟩
    · have other := other rfl
      simp only [supportTitles_eq, List.mem_cons, List.not_mem_nil, or_false] at hx
      rcases hx with rfl | rfl | rfl | rfl | rfl | rfl <;>
        refine ⟨by decide, fun same => ?_⟩
      case inr.inr.inl => exact other (Title.method.inj same).1.symm
      all_goals cases same
    · obtain ⟨n, -, rfl⟩ := List.mem_map.mp hx
      refine ⟨fun same => NodeKind.noConfusion same, fun same => ?_⟩
      cases same

end Setters

/-! ## Builders -/

section Builders

variable {r : Registry} {u v : SourceUnit} {t : Key} {o : BuilderOptions} {typeName : String}
  {fields : List BuilderField}

/-- The titles of what is added for a builder. -/
def builderTitles (typeName : String) (fields : List BuilderField) : List Title :=
  .method (Text.decapitalize typeName) 0 :: .method Syntax.initName 1 ::
    (stageNames fields ++ [builderClass]).map .type

theorem titles_builderParts (o : BuilderOptions) (typeName : String) (fields : List BuilderField) :
    (builderParts o typeName fields).all.map Code.title? =
      (builderTitles typeName fields).map some := by
  have interfaces : (builderParts o typeName fields).interfaces.map Code.title? =
      (stageNames fields).map fun n => some (.type n) := by
    rw [interfaces_eq, ← names_stagePlan o typeName fields, List.map_map, List.map_map]
    rfl
  rw [BuilderParts.all, builderTitles, List.map_cons, List.map_cons, List.map_append, interfaces]
  simp only [List.map_append, List.map_map, List.map_cons]
  rfl

theorem distinct_builderTitles
    (stages : ((fields.filter (·.role == .required)).map (fun f => requiredDef f.name) ++
      [optionalDef]).Nodup) : (builderTitles typeName fields).Nodup := by
  have names : (stageNames fields ++ [builderClass]).Nodup :=
    List.nodup_append.mpr ⟨stages, List.nodup_singleton _, fun n hn _ last => by
      rw [List.mem_singleton.mp last]
      rintro rfl
      exact builderClass_not_stage hn⟩
  refine List.nodup_cons.mpr ⟨?_, List.nodup_cons.mpr ⟨?_, names.map fun _ _ => Title.type.inj⟩⟩
  · simp
  · simp

theorem mem_builderTitles {x : Title} (hx : x ∈ builderTitles typeName fields) :
    x = .method (Text.decapitalize typeName) 0 ∨ x = .method Syntax.initName 1 ∨
      x.kind = .type := by
  rcases List.mem_cons.mp hx with entry | hx
  · exact .inl entry
  rcases List.mem_cons.mp hx with constructor | hx
  · exact .inr (.inl constructor)
  · obtain ⟨n, -, rfl⟩ := List.mem_map.mp hx
    exact .inr (.inr rfl)

theorem told_builderParts : ∀ c ∈ (builderParts o typeName fields).all,
    ∃ x ∈ builderTitles typeName fields, c.Told x := by
  intro c hc
  have told : c.title? ∈ (builderTitles typeName fields).map some := by
    rw [← titles_builderParts o]
    exact List.mem_map_of_mem hc
  obtain ⟨x, hx, title⟩ := List.mem_map.mp told
  refine ⟨x, hx, Code.told_of_title title.symm ?_⟩
  rcases mem_builderTitles hx with rfl | rfl | kind
  · exact nofun
  · exact nofun
  · rw [kind]
    exact nofun

end Builders

/-! ## Runs -/

section Runs

variable {r : Registry} {u u₀ v : SourceUnit} {i : Invocation} {t : Key} {m? : Option Key}
  {n : Node} {b b' : Bench} {s : SetterStyle} {p : Source.Position} {cs : List Code}
  {ahead ahead' : Prop}

/-- The titles of a type stay distinct while it gets members. There is room for a builder as long as
one is ahead. -/
structure Titled (r : Registry) (t : Key) (u₀ : SourceUnit) (ahead : Prop) (u : SourceUnit) :
    Prop where
  sound : u.Sound r
  listed : u.Listed t
  name : u.name t = u₀.name t
  opens : ((u.decl t).fieldsWith isOpen).Perm ((u₀.decl t).fieldsWith isOpen)
  givens : ((u.decl t).fieldsWith isGiven).Perm ((u₀.decl t).fieldsWith isGiven)
  titles : (u.decl t).titles.Nodup
  vacant : ahead → ∀ x ∈ (u.decl t).titles,
    x.kind ≠ .type ∧ x ≠ .method (Text.decapitalize (u₀.name t)) 0

/-- Titles stay distinct if a type gets members whose titles are distinct and new. -/
theorem Titled.gains (h : Titled r t u₀ ahead u) (element : r.node? t = some n)
    (type : n.kind = .type) (joined : Joined r t { u with source := some p } cs v)
    (told : ∀ c ∈ cs, ∃ x, c.Told x ∧ (x.isOwn → x ∉ (u.decl t).titles))
    (distinct : (cs.filterMap Code.title?).Nodup)
    (vacant : ahead' → ahead ∧ ∀ x ∈ cs.filterMap Code.title?,
      x.kind ≠ .type ∧ x ≠ .method (Text.decapitalize (u₀.name t)) 0) :
    Titled r t u₀ ahead' { v with registry := v.registry.rebuild t (v.decl t) } := by
  have inner : n.kind ≠ .unit := by rw [type]; exact nofun
  have suits := (h.sound.found element inner).2
  rw [type] at suits
  have isClass : isClassDecl (u.decl t) := isClassDecl_of_suits suits
  have same := joined.sound.decl_register element inner
  have isClass' : isClassDecl (v.decl t) := joined.resembles.type.trans isClass
  have titles := joined.titles fun c hc => by
    obtain ⟨x, told, -⟩ := told c hc
    rw [told.title]
    rfl
  have mem {x : Title} (hx : x ∈ (v.decl t).titles) :
      x ∈ (u.decl t).titles ∨ x ∈ cs.filterMap Code.title? :=
    (List.mem_append.mp (titles.mem_iff.mp hx)).imp_right List.mem_of_mem_filter
  refine ⟨(joined.sound.register (L := .nothing) t).sound, joined.sound.listed_register element type,
    ?_, ?_, ?_, ?_, fun still x hx => ?_⟩
  · rw [name_of_isClassDecl (same.symm ▸ isClass'), same, joined.resembles.name, ← h.name,
      name_of_isClassDecl isClass]
    rfl
  · rw [same]
    exact (joined.fieldsWith fun c hc => (told c hc).choose_spec.1.opens).trans h.opens
  · rw [same]
    exact (joined.fieldsWith fun c hc => (told c hc).choose_spec.1.givens).trans h.givens
  · rw [same]
    refine titles.nodup_iff.mpr (List.nodup_append.mpr ⟨h.titles, distinct.filter _, ?_⟩)
    rintro x old _ new rfl
    obtain ⟨added, own⟩ := List.mem_filter.mp new
    obtain ⟨c, hc, title⟩ := List.mem_filterMap.mp added
    obtain ⟨y, told, absent⟩ := told c hc
    obtain rfl := Option.some.inj (told.title.symm.trans title)
    exact absent own old
  · obtain ⟨before, new⟩ := vacant still
    rw [same] at hx
    exact (mem hx).elim (h.vacant before x) (new x)

theorem Titled.weaken (h : Titled r t u₀ ahead u) (less : ahead' → ahead) :
    Titled r t u₀ ahead' u := { h with vacant := fun still => h.vacant (less still) }

/-- A run that makes setters keeps titles distinct. -/
theorem Titled.set (h : Titled r t u₀ ahead b.unit) (style : AreSetters s)
    (ran : (setting s).Ran i b (.ok ()) b') (seat : r.Seat i.element t m?)
    (handler : i.handler = (setting s).name) (own : i.element = t)
    (setters : s.isBound → (((u₀.decl t).fieldsWith isOpen).map s.name).Nodup)
    (constants : s.isBound →
      (((u₀.decl t).fieldsWith isOpen).map fun n => (propertyConstant n).name).Nodup)
    (entry : ahead → s.isBound → Text.decapitalize (u₀.name t) ≠ supportGetter) :
    Titled r t u₀ ahead b'.unit := by
  obtain ⟨n, element, type⟩ := seat.type_node
  have inner : n.kind ≠ .unit := by rw [type]; exact nofun
  have starts : (setting s).Starts r b.unit i t m? := ⟨h.sound, seat, handler⟩
  rcases ran.handed (hands_setting starts own style) with ⟨-, same⟩ |
    ⟨-, _, p, keys, b₁, b₂, ⟨level, joining⟩, same, done, rfl⟩
  · exact same ▸ h
  obtain ⟨rfl, joined⟩ := joining p same done
  have open_ := settable_sublist h.listed h.sound element inner s
  have added : (((setterAdditions s b.unit t (settable s b.unit t) level).flatMap
      Additions.codes).filterMap Code.title?).Sublist _ := titles_setterAdditions style _
  refine h.gains element type joined (fun c hc => ?_) (List.Nodup.sublist added ?_) fun still => ?_
  · obtain ⟨x, told, absent⟩ := told_setterAdditions style c hc
    exact ⟨x, told, fun _ listed => h.listed.absent h.sound element inner absent x listed rfl rfl⟩
  · refine distinct_setterTitles style ?_ fun bound => ?_
    · rcases style with rfl | rfl
      · -- these setters have the names of the fields
        exact ((distinct_fieldsWith h.titles isOpen).sublist open_).map fun _ _ same => same
      · exact ((h.opens.map _).nodup_iff.mpr (setters rfl)).sublist (open_.map _)
    · exact ((h.opens.map _).nodup_iff.mpr (constants bound)).sublist (open_.map _)
  · exact ⟨still, fun x hx => vacant_setterTitles style (entry still) _ x (added.mem hx)⟩

/-- A run that makes a builder keeps titles distinct if there is room for it. -/
theorem Titled.build (h : Titled r t u₀ ahead b.unit) (room : ahead)
    (ran : builder.Ran i b (.ok ()) b') (seat : r.Seat i.element t m?)
    (handler : i.handler = builder.name)
    (stages : (((u₀.decl t).fieldsWith isGiven).map requiredDef ++ [optionalDef]).Nodup) :
    Titled r t u₀ False b'.unit := by
  obtain ⟨n, element, type⟩ := seat.type_node
  have inner : n.kind ≠ .unit := by rw [type]; exact nofun
  rcases ran.handed (hands_builder ⟨h.sound, seat, handler⟩) with ⟨-, same⟩ |
    ⟨-, _, p, keys, b₁, b₂, ⟨a, o, -, -, joining⟩, same, done, rfl⟩
  · exact (same ▸ h).weaken False.elim
  obtain ⟨rfl, joined⟩ := joining p same done
  refine h.gains element type joined (fun c hc => ?_) ?_ False.elim
  · obtain ⟨x, hx, told⟩ := told_builderParts c hc
    refine ⟨x, told, fun own listed => ?_⟩
    obtain ⟨noType, noEntry⟩ := h.vacant room x listed
    rcases mem_builderTitles hx with entry | constructor | kind
    · exact noEntry (h.name ▸ entry)
    · rw [constructor] at own
      exact absurd own (by decide)
    · exact noType kind
  · have titles := congrArg (List.filterMap id)
      (titles_builderParts o (b.unit.name t) (builderFields b.unit t o))
    rw [List.filterMap_map, List.filterMap_map, Function.id_comp, Function.id_comp,
      List.filterMap_some] at titles
    rw [titles]
    have given_ := (h.givens.map requiredDef).append_right [optionalDef]
    have required := (required_sublist h.listed h.sound element inner o).map requiredDef
    rw [List.map_map] at required
    exact distinct_builderTitles ((given_.nodup_iff.mpr stages).sublist
      (required.append (List.Sublist.refl _)))

/-- Names that the fields of a type lead to do not meet when some handlers run. -/
structure Apart (u : SourceUnit) (t : Key) (handlers : List String) : Prop where
  once : handlers.count Known.builder ≤ 1
  setters : Known.boundSetter ∈ handlers →
    (((u.decl t).fieldsWith isOpen).map boundStyle.name).Nodup
  constants : Known.boundSetter ∈ handlers →
    (((u.decl t).fieldsWith isOpen).map fun n => (propertyConstant n).name).Nodup
  stages : Known.builder ∈ handlers →
    (((u.decl t).fieldsWith isGiven).map requiredDef ++ [optionalDef]).Nodup
  entry : Known.builder ∈ handlers → Known.boundSetter ∈ handlers →
    Text.decapitalize (u.name t) ≠ supportGetter

theorem Apart.tail {name : String} {names : List String} (h : Apart u t (name :: names)) :
    Apart u t names where
  once := Nat.le_trans (List.count_le_count_cons ..) h.once
  setters listed := h.setters (List.mem_cons_of_mem _ listed)
  constants listed := h.constants (List.mem_cons_of_mem _ listed)
  stages listed := h.stages (List.mem_cons_of_mem _ listed)
  entry listed listed' := h.entry (List.mem_cons_of_mem _ listed) (List.mem_cons_of_mem _ listed')

theorem Apart.last {names : List String} (h : Apart u t (Known.builder :: names)) :
    Known.builder ∉ names := by
  have once := h.once
  rw [List.count_cons_self] at once
  exact List.count_eq_zero.mp (by omega)

/-- Runs that make setters and builders keep titles distinct. -/
theorem Titled.performed {runs : List (Handler × Invocation)}
    (performed : Performed runs b (.ok ()) b') (seat : r.Seat t t m?)
    (handlers : ∀ run ∈ runs, run.1 ∈ [builder, boundSetter, fluentSetter] ∧
      run.2.handler = run.1.name ∧ run.2.element = t)
    (apart : Apart u₀ t (runs.map (·.1.name)))
    (h : Titled r t u₀ (Known.builder ∈ runs.map (·.1.name)) b.unit) :
    Titled r t u₀ False b'.unit := by
  generalize done : Except.ok () = x at performed
  induction performed with
  | none => exact h.weaken False.elim
  | @next _ i _ _ _ _ _ ran _ ih =>
    obtain ⟨⟨listed, handler, own⟩, others⟩ := List.forall_mem_cons.mp handlers
    refine ih others apart.tail ?_ done
    have here : r.Seat i.element t m? := by rwa [own]
    simp only [List.mem_cons, List.not_mem_nil, or_false] at listed
    rcases listed with rfl | rfl | rfl
    · -- no other builder is ahead
      exact (h.build List.mem_cons_self ran here handler (apart.stages List.mem_cons_self)).weaken
        apart.last
    · exact (h.weaken (List.mem_cons_of_mem _)).set (.inr rfl) ran here handler own
        (fun _ => apart.setters List.mem_cons_self) (fun _ => apart.constants List.mem_cons_self)
        fun still _ => apart.entry (List.mem_cons_of_mem _ still) List.mem_cons_self
    · -- what is asked of bound setters is asked of no others
      refine (h.weaken (List.mem_cons_of_mem _)).set (.inl rfl) ran here handler own
        (fun bound => ?_) (fun bound => ?_) fun _ bound => ?_
      all_goals cases bound
  | broken => cases done

/-- Setters and a builder that are added to a class with fields only leave the titles of its members
distinct, unless its fields lead to the same names. -/
theorem titles_distinct {runs : List (Handler × Invocation)} (sound : b.unit.Sound r)
    (listed : b.unit.Listed t) (seat : r.Seat t t m?)
    (fields : ∀ x ∈ (b.unit.decl t).titles, x.kind = .field)
    (distinct : (b.unit.decl t).titles.Nodup)
    (handlers : ∀ run ∈ runs, run.1 ∈ [builder, boundSetter, fluentSetter] ∧
      run.2.handler = run.1.name ∧ run.2.element = t)
    (apart : Apart b.unit t (runs.map (·.1.name)))
    (performed : Performed runs b (.ok ()) b') :
    (b'.unit.decl t).titles.Nodup := by
  have start : Titled r t b.unit (Known.builder ∈ runs.map (·.1.name)) b.unit :=
    ⟨sound, listed, rfl, .refl _, .refl _, distinct, fun _ x hx => by
      have kind := fields x hx
      refine ⟨by rw [kind]; exact nofun, ?_⟩
      rintro rfl
      exact nomatch kind⟩
  exact (start.performed performed seat handlers apart).titles

/-- A class with a builder and setters. -/
def settableClass : SourceUnit :=
  let anno (name : String) : Tree :=
    .annoUse default (.select default (.ident default "lombok") name) []
  .ofTree (.unit default "" .missing [] [.classDecl default "T" (.modifiers default .empty
    [anno "Builder", anno "FluentSetter", anno "BoundSetter"]) [] .missing []
    [.varDecl default "a" (.modifiers default .finalFlag []) (.primitive default .int) .missing,
      .varDecl default "b" (.modifiers default .empty []) (.primitive default .int) .missing]])

/-- The runs of its handlers. -/
def settableRuns : List (Handler × Invocation) :=
  [builder, boundSetter, fluentSetter].map fun h =>
    (h, ⟨h.name, settableClass.annotated? 1 h.name, 1⟩)

theorem titles_distinct_settable : ∃ b',
    Performed settableRuns (.of settableClass (.empty false)) (.ok ()) b' ∧
      (b'.unit.decl 1).titles.Nodup ∧ (b'.unit.decl 1).titles.length = 15 := by
  have sound : settableClass.Sound settableClass.registry := by
    have segment : Text.IsSegment "lombok" ∧ Text.IsSegment "Builder" ∧
        Text.IsSegment "FluentSetter" ∧ Text.IsSegment "BoundSetter" :=
      ⟨⟨by decide, by decide⟩, ⟨by decide, by decide⟩, ⟨by decide, by decide⟩, by decide, by decide⟩
    refine sound_ofTree ?_
    simp [Proper, ProperAll, IsMods, IsAnno, segment]
  obtain ⟨n, node, type⟩ : ∃ n, settableClass.registry.node? 1 = some n ∧ n.kind = .type := by
    decide +kernel
  obtain ⟨performs, length⟩ :
      (performAll settableRuns (.of settableClass (.empty false))).1.isOk = true ∧
        ((performAll settableRuns (.of settableClass (.empty false))).2.unit.decl 1).titles.length =
          15 := by
    -- types are read by a function that can be computed
    simp only [performAll, settableRuns, Weave.each, List.map_cons, List.map_nil, Invocation.run,
      builder, boundSetter, fluentSetter, setting, onAnno, builderFields, setterAdditions,
      SourceUnit.varType, Code.liftType_eq]
    decide +kernel
  have performed := performAll_performed settableRuns (.of settableClass (.empty false))
  rw [ok_of_isOk performs] at performed
  have member : 1 ∈ settableClass.types := by decide +kernel
  obtain ⟨fields, distinct⟩ : (∀ x ∈ (settableClass.decl 1).titles, x.kind = .field) ∧
      (settableClass.decl 1).titles.Nodup := by decide +kernel
  have apart : Apart settableClass 1 (settableRuns.map (·.1.name)) := by
    constructor <;> decide +kernel
  have handlers : ∀ run ∈ settableRuns, run.1 ∈ [builder, boundSetter, fluentSetter] ∧
      run.2.handler = run.1.name ∧ run.2.element = 1 := by
    intro run hr
    obtain ⟨h, hh, rfl⟩ := List.mem_map.mp hr
    exact ⟨hh, rfl, rfl⟩
  exact ⟨_, performed, titles_distinct sound (listed_ofTree member) (.type node type) fields distinct
    handlers apart performed, length⟩

end Runs

end Handler

end Weaver
