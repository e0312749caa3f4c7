import Weaver.Proofs.Parse.Members
/-!
The order of members under changes of a type.

The members of a type stand in four sections (`Sections`): its constants, the fields that were added,
what else was there before, and what was added at the end. A new field is put before the first member
that is neither a constant nor generated, a new constant before the first that is none. So a change
finds its section as long as no member of the third section looks like one of the first two, and that
is so of everything that is read (`SourceUnit.constantsFirst_of_read`). One change keeps the sections
(`Change.arranges`), and a run of changes does by induction. A change that breaks off leaves the unit
as it was, but for the constants that it has added before: the run is then one of a part of the changes.
-/
set_option autoImplicit false

namespace Weaver

open Weaver.Syntax (Tree Flags)
open Weaver.Syntax.Tree
open Weaver.Text (Glyph)
open SourceUnit Edit

/-! ## Changes -/

/-- A change of the members of a type. -/
inductive Change where
  | field (code : Code)
  | method (code : Code)
  | type (code : Code)
  | remove (method : Key)
  | constants (codes : List Code)

namespace Change

/-- Code for a field, with modifiers that generated code can have. -/
def isField : Code → Bool
  | .fieldDecl _ _ ms _ _ => ms.forCode == ms
  | _ => false

/-- Code for a method or a constructor. -/
def isMethod : Code → Bool
  | .methodDecl .. | .constructorDecl .. => true
  | _ => false

/-- Code for a type. -/
def isType : Code → Bool
  | .classDecl .. => true
  | _ => false

/-- Code for a constant of an enumeration. -/
def isConstant : Code → Bool
  | .enumConstant .. => true
  | _ => false

/-- The code is for what the change adds. -/
def fits : Change → Bool
  | field c => isField c
  | method c => isMethod c
  | type c => isType c
  | remove _ => true
  | constants cs => cs.all isConstant

/-- Makes a change. -/
def run (k : Key) : Change → Edit Unit
  | field c => injectField k c
  | method c => injectMethod k c
  | type c => injectType k c
  | remove m => removeMethod k m
  | constants cs => makeEnum k cs

/-- Makes changes one after the other. -/
def runAll (k : Key) : List Change → Edit Unit
  | [] => return
  | c :: cs => do
    c.run k
    runAll k cs

/-- What is done of changes if they break off: those before one, and of that one the constants that
come before one of them. -/
inductive Cut : List Change → List Change → Prop where
  | stop (cs : List Change) : Cut [] cs
  | within {codes codes' : List Code} (part : codes' <+: codes) (cs : List Change) :
    Cut [constants codes'] (constants codes :: cs)
  | next {did cs : List Change} (c : Change) (more : Cut did cs) : Cut (c :: did) (c :: cs)

end Change

theorem Change.Cut.more {did cs : List Change} (h : Cut did cs) (more : List Change) :
    Cut did (cs ++ more) := by
  induction h with
  | stop => exact .stop _
  | within part cs => exact .within part _
  | next c _ ih => exact .next c ih

/-- What changes come to: the code that they add for constants, for fields and for methods and types,
and the methods that they take away, each in the order of the changes. -/
structure Outcome where
  constants : List Code
  fields : List Code
  members : List Code
  removed : List Key

namespace Outcome

/-- The outcome of a further change. -/
def after (o : Outcome) : Change → Outcome
  | .field c => { o with fields := o.fields ++ [c] }
  | .method c | .type c => { o with members := o.members ++ [c] }
  | .remove m => { o with removed := o.removed ++ [m] }
  | .constants cs => { o with constants := o.constants ++ cs }

/-- The outcome of changes. -/
def of (changes : List Change) : Outcome := changes.foldl after ⟨[], [], [], []⟩

/-- All code is for what it is added as. -/
structure Fits (o : Outcome) : Prop where
  constants : ∀ c ∈ o.constants, Change.isConstant c
  fields : ∀ c ∈ o.fields, Change.isField c
  members : ∀ c ∈ o.members, (Change.isMethod c || Change.isType c) = true

variable {o : Outcome} {change : Change}

theorem Fits.nil : Fits ⟨[], [], [], []⟩ where
  constants := List.forall_mem_nil _
  fields := List.forall_mem_nil _
  members := List.forall_mem_nil _

theorem Fits.after (h : o.Fits) (fit : change.fits) : (o.after change).Fits := by
  have one {p : Code → Prop} {cs : List Code} {x : Code} (others : ∀ c ∈ cs, p c) (last : p x) :
      ∀ c ∈ cs ++ [x], p c :=
    List.forall_mem_append.mpr ⟨others, List.forall_mem_singleton.mpr last⟩
  cases change
  case field c => exact { h with fields := one h.fields fit }
  case method c => exact { h with members := one h.members (Bool.or_eq_true_iff.mpr (.inl fit)) }
  case type c => exact { h with members := one h.members (Bool.or_eq_true_iff.mpr (.inr fit)) }
  case remove m => exact { h with }
  case constants cs =>
    exact { h with constants := List.forall_mem_append.mpr ⟨h.constants, List.all_eq_true.mp fit⟩ }

end Outcome

/-! ## Sections -/

/-- The members of a type in the sections in which changes keep them. -/
structure Sections where
  constants : List Tree
  fields : List Tree
  others : List Tree
  last : List Tree

namespace Sections

variable {s : Sections} {t : Tree}

/-- The members of all sections. -/
def members (s : Sections) : List Tree := s.constants ++ s.fields ++ s.others ++ s.last

/-- No section begins with what belongs to one before it. -/
structure Apart (s : Sections) : Prop where
  constants : ∀ t ∈ s.constants, t.isEnumConstant
  fields : ∀ t ∈ s.fields, isLeading t ∧ t.isEnumConstant = false
  others : ∀ t ∈ s.others, isLeading t = false
  last : ∀ t ∈ s.last, isLeading t = false

theorem isLeading_of_isEnumConstant (h : t.isEnumConstant) : isLeading t := by
  cases t
  case varDecl m n ms ty i => exact Bool.or_eq_true_iff.mpr (.inl h)
  all_goals exact absurd h Bool.false_ne_true

theorem isEnumConstant_of_not_isLeading (h : isLeading t = false) : t.isEnumConstant = false := by
  by_contra constant
  rw [isLeading_of_isEnumConstant (Bool.of_not_eq_false constant)] at h
  exact Bool.noConfusion h

/-- A prefix of what satisfies a condition, before what does not. -/
theorem span_append {p : Tree → Bool} {as bs : List Tree} (here : ∀ t ∈ as, p t)
    (stop : ∀ t ∈ bs, p t = false) :
    (as ++ bs).takeWhile p = as ∧ (as ++ bs).dropWhile p = bs := by
  have none_ : bs.takeWhile p = [] ∧ bs.dropWhile p = bs := by
    cases bs with
    | nil => exact ⟨rfl, rfl⟩
    | cons b bs =>
      have first : ¬p b = true := by rw [stop b List.mem_cons_self]; exact Bool.false_ne_true
      exact ⟨List.takeWhile_cons_of_neg first, List.dropWhile_cons_of_neg first⟩
  rw [List.takeWhile_append_of_pos here, List.dropWhile_append_of_pos here, none_.1, none_.2]
  exact ⟨List.append_nil as, rfl⟩

/-- A new field comes after the constants and the fields that were added before. -/
theorem withField_members (apart : s.Apart) (t : Tree) :
    withField t s.members = { s with fields := s.fields ++ [t] }.members := by
  have first : ∀ x ∈ s.constants ++ s.fields, isLeading x := List.forall_mem_append.mpr
    ⟨fun x hx => isLeading_of_isEnumConstant (apart.constants x hx), fun x hx => (apart.fields x hx).1⟩
  have rest : ∀ x ∈ s.others ++ s.last, isLeading x = false :=
    List.forall_mem_append.mpr ⟨apart.others, apart.last⟩
  obtain ⟨taken, dropped⟩ := span_append first rest
  rw [withField, members, List.append_assoc, taken, dropped]
  simp only [members, List.append_assoc, List.cons_append, List.nil_append]

/-- A new constant comes after the constants. -/
theorem withConstant_members (apart : s.Apart) (t : Tree) :
    withConstant t s.members = { s with constants := s.constants ++ [t] }.members := by
  have rest : ∀ x ∈ s.fields ++ (s.others ++ s.last), x.isEnumConstant = false :=
    List.forall_mem_append.mpr ⟨fun x hx => (apart.fields x hx).2, List.forall_mem_append.mpr
      ⟨fun x hx => isEnumConstant_of_not_isLeading (apart.others x hx),
        fun x hx => isEnumConstant_of_not_isLeading (apart.last x hx)⟩⟩
  obtain ⟨taken, dropped⟩ := span_append apart.constants rest
  rw [withConstant, members, List.append_assoc, List.append_assoc, taken, dropped]
  simp only [members, List.append_assoc, List.cons_append, List.nil_append]

theorem append_members (s : Sections) (t : Tree) :
    s.members ++ [t] = { s with last := s.last ++ [t] }.members := List.append_assoc _ _ _

end Sections

/-! ## New members -/

/-- What code becomes as a new member: it is lowered and gets numbers from a given one on. -/
def Makes (s : Code.Scope) (next : Nat) (c : Code) (t : Tree) : Prop :=
  ∃ t₀ i, c.lower s .part = .ok t₀ ∧ next ≤ i ∧ t = (t₀.number i).1

section Makes

variable {s : Code.Scope} {p : Code.Place} {next : Nat} {c : Code} {t : Tree}

theorem Code.fieldDecl_of_lower {type init : Code} {n : String} {ms : Flags} {as : List Code} :
    Becomes ((fieldDecl type n ms as init).lower s p) fun t =>
      ∃ annos ty i, t = .varDecl s.mark n (.modifiers s.mark ms annos) ty i := by
  have rest {t i : Tree} (lowered : (do
      let as ← lowerAll s .part as
      return Tree.varDecl s.mark n (.modifiers s.mark ms as) (← lower s .part type) i) = .ok t) :
      ∃ annos ty i, t = .varDecl s.mark n (.modifiers s.mark ms annos) ty i := by
    obtain ⟨annos, -, lowered⟩ := ok_of_bind lowered
    obtain ⟨ty, -, lowered⟩ := ok_of_bind lowered
    exact ⟨annos, ty, i, (Except.ok.inj lowered).symm⟩
  intro t lowered
  cases init
  all_goals
    obtain ⟨i, -, lowered⟩ := ok_of_bind lowered
    exact rest lowered

theorem Code.constantDecl_of_lower {n : String} {ps as : List Code} :
    Becomes ((enumConstant n ps as).lower s p) fun t =>
      ∃ annos ty i, t = .varDecl s.mark n (.modifiers s.mark Parse.constantFlags annos) ty i := by
  intro t lowered
  obtain ⟨mark, result, owner⟩ := s
  cases owner with
  | none => cases lowered
  | some o =>
    obtain ⟨annos, -, lowered⟩ := ok_of_bind lowered
    obtain ⟨args, -, lowered⟩ := ok_of_bind lowered
    exact ⟨annos, _, _, (Except.ok.inj lowered).symm⟩

/-- A new field is neither a constant nor written. -/
theorem Makes.field (h : Makes s next c t) (field : Change.isField c) (generated : s.mark.generated) :
    isLeading t ∧ t.isEnumConstant = false := by
  obtain ⟨t₀, i, lowered, -, rfl⟩ := h
  cases c
  case fieldDecl type name ms as init =>
    have plain : ms.meets .enumFlag = false := by
      have bit : ms.meets .enumFlag = ms.bits.testBit 14 := Flags.meets_bit ms 14
      rw [bit, ← eq_of_beq field, Flags.testBit_forCode, Bool.and_eq_false_iff]
      exact .inr (by decide)
    obtain ⟨annos, ty, v, rfl⟩ := Code.fieldDecl_of_lower t₀ lowered
    exact ⟨Bool.or_eq_true_iff.mpr (.inr generated), (isEnumConstant_number i _).trans plain⟩
  all_goals exact absurd field Bool.false_ne_true

theorem Makes.constant (h : Makes s next c t) (constant : Change.isConstant c) : t.isEnumConstant := by
  obtain ⟨t₀, i, lowered, -, rfl⟩ := h
  cases c
  case enumConstant n ps as =>
    obtain ⟨annos, ty, v, rfl⟩ := Code.constantDecl_of_lower t₀ lowered
    rw [isEnumConstant_number]
    change Parse.constantFlags.meets .enumFlag = true
    decide
  all_goals exact absurd constant Bool.false_ne_true

/-- What is no variable is put at the end with a new number. -/
theorem last_of_number {t : Tree} {i : Nat} (declared : t.isMethod ∨ isClassDecl t) (after : next ≤ i) :
    isLeading (t.number i).1 = false ∧ next ≤ (t.number i).1.id := by
  cases t
  case methodDecl | classDecl => exact ⟨rfl, after⟩
  all_goals exact (declared.elim Bool.false_ne_true Bool.false_ne_true).elim

theorem Makes.last (h : Makes s next c t) (member : Change.isMethod c ∨ Change.isType c) :
    isLeading t = false ∧ next ≤ t.id := by
  obtain ⟨t₀, i, lowered, after, rfl⟩ := h
  refine last_of_number ?_ after
  cases c
  case methodDecl => exact .inl (Code.isMethod_of_lower t₀ lowered)
  case constructorDecl => exact .inl (Code.constructor_of_lower t₀ lowered)
  case classDecl => exact .inr (Code.class_of_lower t₀ lowered)
  all_goals exact (member.elim Bool.false_ne_true Bool.false_ne_true).elim

end Makes

namespace SourceUnit

/-- The scope of constants that are added to a type. -/
def constantScope (u : SourceUnit) (k : Key) : Code.Scope :=
  { u.typeScope k with owner := some (u.name k) }

/-- A member is the method of an element. -/
def isMethodOf (u : SourceUnit) (m : Key) (member : Tree) : Bool :=
  (u.decl m).isMethod && isMethodNumbered (u.decl m).id member

/-- The sections of a type after changes with some outcome: its constants and then the new ones, the
new fields, the other members that were not taken away, and the new methods and types. -/
structure Arranged (u : SourceUnit) (k : Key) (o : Outcome) (s : Sections) : Prop where
  constants : ∃ new, s.constants = (u.decl k).defs.filter (·.isEnumConstant) ++ new ∧
    List.Forall₂ (Makes (u.constantScope k) u.next) o.constants new
  fields : List.Forall₂ (Makes (u.typeScope k) u.next) o.fields s.fields
  others : s.others = (u.decl k).defs.filter fun t =>
    !t.isEnumConstant && !o.removed.any fun m => u.isMethodOf m t
  last : List.Forall₂ (Makes (u.typeScope k) u.next) o.members s.last

section Arranged

variable {u : SourceUnit} {k : Key} {o : Outcome} {s : Sections}

/-- What codes became satisfies what each of them gives. -/
theorem forall_of_makes {scope : Code.Scope} {next : Nat} {cs : List Code} {ts : List Tree}
    {p : Code → Bool} {P : Tree → Prop} (made : List.Forall₂ (Makes scope next) cs ts)
    (fit : ∀ c ∈ cs, p c) (gives : ∀ c t, Makes scope next c t → p c → P t) : ∀ t ∈ ts, P t := by
  induction made with
  | nil => exact List.forall_mem_nil _
  | cons here _ ih =>
    obtain ⟨first, others⟩ := List.forall_mem_cons.mp fit
    exact List.forall_mem_cons.mpr ⟨gives _ _ here first, ih others⟩

theorem Arranged.last_new (h : u.Arranged k o s) (fit : o.Fits) :
    ∀ t ∈ s.last, isLeading t = false ∧ u.next ≤ t.id :=
  forall_of_makes h.last fit.members fun _ _ made member =>
    made.last (Bool.or_eq_true_iff.mp member)

/-- Sections do not mix if the constants came first. -/
theorem Arranged.apart (h : u.Arranged k o s) (fit : o.Fits)
    (first : (u.decl k).ConstantsFirst) : s.Apart where
  constants := by
    obtain ⟨new, split, made⟩ := h.constants
    rw [split]
    exact List.forall_mem_append.mpr ⟨fun t ht => List.of_mem_filter ht,
      forall_of_makes made fit.constants fun _ _ => Makes.constant⟩
  fields := forall_of_makes h.fields fit.fields fun _ _ made field => made.field field rfl
  others := by
    obtain ⟨cs, os, defs, constants, ordinary⟩ := first
    rw [h.others]
    intro t ht
    obtain ⟨member, kept⟩ := List.mem_filter.mp ht
    have plain : t.isEnumConstant = false :=
      Bool.not_eq_true' _ ▸ (Bool.and_eq_true_iff.mp kept).1
    rw [defs] at member
    rcases List.mem_append.mp member with constant | other
    · rw [constants t constant] at plain
      exact Bool.noConfusion plain
    · obtain ⟨-, written⟩ := ordinary t other
      cases t
      case varDecl m n ms ty i => exact Bool.or_eq_false_iff.mpr ⟨plain, written⟩
      all_goals rfl
  last t ht := (h.last_new fit t ht).1

/-- Before any change. -/
theorem arranged_nil (u : SourceUnit) (k : Key) : u.Arranged k ⟨[], [], [], []⟩
    ⟨(u.decl k).defs.filter (·.isEnumConstant), [],
      (u.decl k).defs.filter fun t => !t.isEnumConstant, []⟩ where
  constants := ⟨[], (List.append_nil _).symm, .nil⟩
  fields := .nil
  others := List.filter_congr fun _ _ => (Bool.and_true _).symm
  last := .nil

/-- Members whose constants come first are those constants and the others. -/
theorem members_nil (first : (u.decl k).ConstantsFirst) : (u.decl k).defs =
    Sections.members ⟨(u.decl k).defs.filter (·.isEnumConstant), [],
      (u.decl k).defs.filter fun t => !t.isEnumConstant, []⟩ := by
  obtain ⟨cs, os, defs, constants, ordinary⟩ := first
  have others : ∀ o ∈ os, o.isEnumConstant = false := fun o ho => (ordinary o ho).1
  have here : (cs ++ os).filter (·.isEnumConstant) = cs := by
    rw [List.filter_append, List.filter_eq_self.mpr constants,
      List.filter_eq_nil_iff.mpr fun o ho => by rw [others o ho]; exact Bool.false_ne_true]
    exact List.append_nil cs
  have there : (cs ++ os).filter (fun t => !t.isEnumConstant) = os := by
    rw [List.filter_append,
      List.filter_eq_nil_iff.mpr fun c hc => by rw [constants c hc]; exact Bool.false_ne_true,
      List.filter_eq_self.mpr fun o ho => by rw [others o ho]; rfl]
    exact List.nil_append os
  rw [defs, here, there]
  simp only [Sections.members, List.append_nil]

end Arranged

/-! ## One change -/

/-- A unit that changes of a type have led to, with the sections of the type. -/
structure Reached (u : SourceUnit) (k : Key) (o : Outcome) (v : SourceUnit) (s : Sections) :
    Prop where
  sound : v.Sound u.registry
  registry : v.registry = u.registry
  source : v.source = u.source
  next : u.next ≤ v.next
  type : isClassDecl (v.decl k)
  pos : v.pos k = u.pos k
  name : v.name k = u.name k
  members : (v.decl k).defs = s.members
  arranged : u.Arranged k o s

section Reached

variable {u v w : SourceUnit} {k : Key} {n : Node} {o o' : Outcome} {s s' : Sections} {c : Code}
  {x : Except Abort Unit}

theorem exists_classDecl {d : Tree} (type : isClassDecl d) :
    ∃ m n ms tps e is ds, d = .classDecl m n ms tps e is ds := by
  cases d
  case classDecl m n ms tps e is ds => exact ⟨m, n, ms, tps, e, is, ds, rfl⟩
  all_goals exact absurd type Bool.false_ne_true

/-- The name of a type is the declared one. -/
theorem name_of_isClassDecl (type : isClassDecl (v.decl k)) : v.name k = (v.decl k).declaredName := by
  obtain ⟨m, n, ms, tps, e, is, ds, declared⟩ := exists_classDecl type
  rw [name, declared]
  rfl

theorem Reached.typeScope (h : u.Reached k o v s) : v.typeScope k = u.typeScope k := by
  rw [SourceUnit.typeScope, SourceUnit.typeScope, scope, scope, h.source, h.pos, h.name]

theorem Reached.constantScope (h : u.Reached k o v s) : v.constantScope k = u.constantScope k := by
  rw [SourceUnit.constantScope, SourceUnit.constantScope, h.typeScope, h.name]

/-- The type changes in its place, but keeps its name and its place in the text. -/
theorem Reached.alter (h : u.Reached k o v s) (w : SourceUnit) (sound : w.Sound u.registry)
    (registry : w.registry = u.registry) (source : w.source = v.source) (next : v.next ≤ w.next)
    (ms : Tree) (ds : List Tree) (decl : w.decl k = ((v.decl k).withMods ms).withDefs ds)
    (members : ds = s'.members) (arranged : u.Arranged k o' s') :
    u.Reached k o' w s' := by
  have same : isClassDecl (w.decl k) ∧ (w.decl k).pos = (v.decl k).pos ∧
      (w.decl k).declaredName = (v.decl k).declaredName ∧ (w.decl k).defs = ds := by
    obtain ⟨m, name, ms, tps, e, is, ds, declared⟩ := exists_classDecl h.type
    rw [decl, declared]
    exact ⟨rfl, rfl, rfl, rfl⟩
  exact {
    sound := sound
    registry := registry
    source := source.trans h.source
    next := Nat.le_trans h.next next
    type := same.1
    pos := same.2.1.trans h.pos
    name := by
      rw [name_of_isClassDecl same.1, same.2.2.1, ← name_of_isClassDecl h.type, h.name]
    members := same.2.2.2.trans members
    arranged := arranged }

theorem withMods_mods (d : Tree) : d.withMods d.mods = d := by
  cases d <;> rfl

/-- The type gets a member. -/
theorem Reached.insert (h : u.Reached k o v s) (element : u.registry.node? k = some n)
    (inner : n.kind ≠ .unit) {place : Tree → List Tree → List Tree} {t : Tree}
    (inserts : ∀ t : Tree, t.Inserts (place t))
    (placed : place (t.number v.next).1 s.members = s'.members)
    (arranged : u.Arranged k o' s') :
    u.Reached k o' ((v.adopting t).changeDecl k fun d =>
      d.withDefs (place (t.number v.next).1 d.defs)) s' := by
  have evolves := h.sound.insert (L := ⟨fun _ => False, fun _ => False, fun _ _ => True, fun _ => False⟩)
    (h.registry ▸ element) (inserts (t.number v.next).1) fun _ _ => trivial
  have adopts : (v.adopting t).Sound u.registry :=
    ((Step.spend (L := ⟨fun _ => False, fun _ => False, fun _ _ => False, fun _ => False⟩)
      (number_between.1 v.next t).le).evolves h.sound fun _ => False.elim).sound
  have declared : ((v.decl k).withDefs (place (t.number v.next).1 (v.decl k).defs)).isDeclaration ∧
      ((v.decl k).withDefs (place (t.number v.next).1 (v.decl k).defs)).id = (v.decl k).id := by
    obtain ⟨m, name, ms, tps, e, is, ds, declared⟩ := exists_classDecl h.type
    rw [declared]
    exact ⟨rfl, rfl⟩
  refine h.alter _ evolves.sound ((changeDecl_registry (v.adopting t) k _).trans h.registry) ?_
    evolves.next (v.decl k).mods (place (t.number v.next).1 (v.decl k).defs) ?_
    (h.members ▸ placed) arranged
  · rw [changeDecl]
    split <;> rfl
  · rw [withMods_mods]
    exact adopts.decl_changeDecl (f := fun d => d.withDefs (place (t.number v.next).1 d.defs))
      element inner declared.1 declared.2

/-- An edit after another one: both are carried out, or what breaks off is all that is done. -/
theorem result_of_bind {α β : Type} {e : Edit α} {f : α → Edit β} {x : Except Abort β}
    (ran : (e >>= f) v = (x, w)) : (∃ a v', e v = (.ok a, v') ∧ f a v' = (x, w)) ∨
      ∃ err, e v = (.error err, w) ∧ x = .error err := by
  change ExceptT.bindCont f (e v).1 (e v).2 = _ at ran
  rcases first : e v with ⟨r, v'⟩
  rw [first] at ran
  cases r with
  | ok a => exact .inl ⟨a, v', rfl, ran⟩
  | error err =>
    obtain ⟨rfl, rfl⟩ := Prod.mk.inj ran
    exact .inr ⟨err, rfl, rfl⟩

/-- What adding a member comes to. -/
theorem insertion_result {scope : Code.Scope} {place : Tree → List Tree → List Tree}
    (done : (do
      let t ← lower scope .part c
      let t ← adopt t
      changeDefs k (place t) : Edit Unit) v = (x, w)) :
    (∃ e, x = .error e ∧ w = v) ∨ ∃ t, c.lower scope .part = .ok t ∧ x = .ok () ∧
      w = (v.adopting t).changeDecl k fun d => d.withDefs (place (t.number v.next).1 d.defs) := by
  change ExceptT.bindCont (fun t => do
    let t ← adopt t
    changeDefs k (place t) : Tree → Edit Unit) (c.lower scope .part) v = _ at done
  cases lowered : c.lower scope .part with
  | error e =>
    rw [lowered] at done
    obtain ⟨rfl, rfl⟩ := Prod.mk.inj done
    exact .inl ⟨e, rfl, rfl⟩
  | ok t =>
    rw [lowered] at done
    obtain ⟨rfl, rfl⟩ := Prod.mk.inj done
    exact .inr ⟨t, rfl, rfl, rfl⟩

/-- A change that adds a single member, at the place of its section. -/
theorem Reached.added (h : u.Reached k o v s) (element : u.registry.node? k = some n)
    (inner : n.kind ≠ .unit) {scope : Code.Scope} (place : Tree → List Tree → List Tree)
    {section_ : Tree → Sections} (inserts : ∀ t : Tree, t.Inserts (place t))
    (placed : ∀ t, place t s.members = (section_ t).members)
    (arranged : ∀ t, Makes scope u.next c t → u.Arranged k o' (section_ t))
    (ran : (do
      let t ← lower scope .part c
      let t ← adopt t
      changeDefs k (place t) : Edit Unit) v = (x, w)) :
    (∃ e, x = .error e ∧ w = v) ∨ x = .ok () ∧ ∃ s', u.Reached k o' w s' := by
  rcases insertion_result ran with broken | ⟨t, lowered, rfl, rfl⟩
  · exact .inl broken
  · exact .inr ⟨rfl, _, h.insert element inner inserts (placed _)
      (arranged _ ⟨t, v.next, lowered, h.next, rfl⟩)⟩

theorem makes_concat {scope : Code.Scope} {next : Nat} {cs : List Code} {ts : List Tree} {t : Tree}
    (made : List.Forall₂ (Makes scope next) cs ts) (here : Makes scope next c t) :
    List.Forall₂ (Makes scope next) (cs ++ [c]) (ts ++ [t]) :=
  List.rel_append made (.cons here .nil)

/-- Methods are not told apart by what is done to other declarations. -/
theorem Reached.isMethod (h : u.Reached k o v s) (sound : u.Sound u.registry) (m : Key) :
    (v.decl m).isMethod = (u.decl m).isMethod ∧
      ((u.decl m).isMethod → (v.decl m).id = (u.decl m).id) := by
  have same {a b : SourceUnit} (as : a.Sound u.registry) (bs : b.Sound u.registry)
      (registry : a.registry = u.registry) (method : (a.decl m).isMethod) :
      (b.decl m).isMethod ∧ (a.decl m).id = (b.decl m).id := by
    obtain ⟨n, node, found⟩ := as.found_of_declared (.inl method)
    have inner : n.kind ≠ .unit := by
      intro outermost
      obtain ⟨_, _, _, _, _, unit⟩ := as.outermost
      rw [decl_unit node outermost, unit] at method
      exact absurd method Bool.false_ne_true
    rw [registry] at node
    obtain ⟨foundA, suitsA⟩ := as.found node inner
    obtain ⟨foundB, suitsB⟩ := bs.found node inner
    refine ⟨?_, (mem_of_findIn foundA).2.trans (mem_of_findIn foundB).2.symm⟩
    have kind : n.kind = .method := by
      cases declared : a.decl m
      case methodDecl =>
        rw [declared] at suitsA
        cases kind : n.kind <;> rw [kind] at suitsA <;> first | rfl | exact suitsA.elim
      all_goals
        rw [declared] at method
        exact absurd method Bool.false_ne_true
    rw [kind] at suitsB
    cases declared : b.decl m
    case methodDecl => rfl
    all_goals
      rw [declared] at suitsB
      exact suitsB.elim
  refine ⟨?_, fun method => (same sound h.sound rfl method).2.symm⟩
  exact Bool.eq_iff_iff.mpr ⟨fun method => (same h.sound sound h.registry method).1,
    fun method => (same sound h.sound rfl method).1⟩

/-- A member that is the method of an element has a number that was there before. -/
theorem number_lt_of_isMethodOf (sound : u.Sound u.registry) {m : Key} {t : Tree}
    (own : u.isMethodOf m t) : t.id < u.next := by
  obtain ⟨method, numbered⟩ := Bool.and_eq_true_iff.mp own
  obtain ⟨n, -, found⟩ := sound.found_of_declared (.inl method)
  obtain ⟨listed, same⟩ := mem_of_findIn found
  rw [(isMethodNumbered_iff.mp numbered).2, same]
  exact (sound.bounds _ (mem_numbersAll.mpr ⟨_, listed, same⟩)).2

/-- A member that is taken away is one of those that were there before. -/
theorem Arranged.remove (h : u.Arranged k o s) (m : Key) :
    u.Arranged k (o.after (.remove m))
      { s with others := s.others.filter fun t => !u.isMethodOf m t } :=
  { h with
    others := by
      rw [h.others, List.filter_filter]
      refine List.filter_congr fun t _ => ?_
      change _ = (!t.isEnumConstant && !(o.removed ++ [m]).any fun m => u.isMethodOf m t)
      rw [List.any_append, List.any_cons, List.any_nil, Bool.or_false, Bool.not_or, Bool.and_comm,
        Bool.and_assoc] }

/-- A field is added to the second section. -/
theorem Arranged.addField (h : u.Arranged k o s) {t : Tree}
    (made : Makes (u.typeScope k) u.next c t) :
    u.Arranged k (o.after (.field c)) { s with fields := s.fields ++ [t] } :=
  { h with fields := makes_concat h.fields made }

/-- A method, constructor or type is added to the last section. -/
theorem Arranged.addLast (h : u.Arranged k o s) {t : Tree}
    (made : Makes (u.typeScope k) u.next c t) :
    u.Arranged k { o with members := o.members ++ [c] } { s with last := s.last ++ [t] } :=
  { h with last := makes_concat h.last made }

/-- A constant is added to the first section. -/
theorem Arranged.addConstant (h : u.Arranged k o s) {t : Tree}
    (made : Makes (u.constantScope k) u.next c t) :
    u.Arranged k { o with constants := o.constants ++ [c] }
      { s with constants := s.constants ++ [t] } :=
  { h with
    constants := by
      obtain ⟨new, split, all⟩ := h.constants
      exact ⟨new ++ [t], by rw [split, List.append_assoc], makes_concat all made⟩ }

/-- Without the method of an element, the third section is without it. -/
theorem filter_isMethodOf (sound : u.Sound u.registry) (apart : s.Apart) (m : Key)
    (new : ∀ t ∈ s.last, u.next ≤ t.id) : (s.members.filter fun t => !u.isMethodOf m t) =
      { s with others := s.others.filter fun t => !u.isMethodOf m t }.members := by
  have old : ∀ t ∈ s.last, (!u.isMethodOf m t) = true := fun t ht => by
    refine Bool.not_eq_true' _ ▸ ?_
    by_contra own
    have before := number_lt_of_isMethodOf sound (Bool.of_not_eq_false own)
    exact absurd before (Nat.not_lt.mpr (new t ht))
  have var {t : Tree} (h : isLeading t) : (!u.isMethodOf m t) = true := by
    cases t
    case varDecl =>
      rw [isMethodOf]
      exact congrArg not (Bool.and_false _)
    all_goals exact absurd h Bool.false_ne_true
  rw [Sections.members, List.filter_append, List.filter_append, List.filter_append,
    List.filter_eq_self.mpr old, List.filter_eq_self.mpr fun t ht => var (apart.fields t ht).1,
    List.filter_eq_self.mpr fun t ht =>
      var (Sections.isLeading_of_isEnumConstant (apart.constants t ht))]
  rfl

/-- An element whose declaration is found has it after others were kept aside. -/
theorem decl_keeping {d : Tree} {aside : List Tree} (node : w.registry.node? k = some n)
    (inner : n.kind ≠ .unit) (found : findIn? n.decl w.pool = some d)
    (distinct : (numbersAll (w.keeping aside).pool).Nodup) : (w.keeping aside).decl k = d := by
  obtain ⟨listed, same⟩ := mem_of_findIn found
  have pool : (w.keeping aside).pool = [w.tree] ++ (aside ++ w.detached) := rfl
  have member : d ∈ numberedAll (w.keeping aside).pool := by
    rw [show w.pool = [w.tree] ++ w.detached from rfl, numberedAll_append] at listed
    rw [pool, numberedAll_append, numberedAll_append]
    rcases List.mem_append.mp listed with here | kept
    · exact List.mem_append_left _ here
    · exact List.mem_append_right _ (List.mem_append_right _ kept)
  refine decl_of_findIn node inner ?_
  rw [← same]
  exact findIn_of_mem distinct member

/-- A method of the type is taken away, or a method is not one of the type. -/
theorem Reached.remove (h : u.Reached k o v s) (sound : u.Sound u.registry)
    (element : u.registry.node? k = some n) (inner : n.kind ≠ .unit) (apart : s.Apart)
    (new : ∀ t ∈ s.last, u.next ≤ t.id) {m : Key} (ran : removeMethod k m v = (x, w)) :
    x = .ok () ∧ ∃ s', u.Reached k (o.after (.remove m)) w s' := by
  have members := filter_isMethodOf sound apart m new
  obtain ⟨same, number⟩ := h.isMethod sound m
  change (if (v.decl m).isMethod && isClassDecl (v.decl k) &&
    (v.decl k).defs.any (isMethodNumbered (v.decl m).id) then _ else _ : Edit Unit) v = _ at ran
  rw [h.type, Bool.and_true] at ran
  split at ran
  · next removes =>
    obtain ⟨method, member⟩ := Bool.and_eq_true_iff.mp removes
    have own : (u.decl m).isMethod := same ▸ method
    cases ran
    have node : v.registry.node? k = some n := h.registry ▸ element
    have evolves := h.sound.remove
      (L := ⟨fun _ => False, fun _ => False, fun _ _ => False, fun _ => False⟩) node h.type method
      member
    have apart : (v.decl k).defs.filter (fun t => !isMethodNumbered (v.decl m).id t) =
        s.members.filter fun t => !u.isMethodOf m t := by
      rw [h.members, number own]
      refine List.filter_congr fun t _ => ?_
      rw [isMethodOf, own, Bool.true_and]
    refine ⟨rfl, _, h.alter _ evolves.sound ((changeDecl_registry v k _).trans h.registry) ?_
      evolves.next (v.decl k).mods _ ?_ (apart.trans members) (h.arranged.remove m)⟩
    · change (v.without k m).source = _
      rw [without, changeDecl]
      split <;> rfl
    · obtain ⟨c, name, ms, tps, e, is, ds, declared⟩ := exists_classDecl h.type
      have found := h.sound.found_changeDecl element inner (f := fun d => d.withDefs
        (d.defs.filter fun t => !isMethodNumbered (v.decl m).id t)) (by rw [declared]; rfl)
        (by rw [declared]; rfl)
      rw [withMods_mods]
      exact decl_keeping ((changeDecl_registry v k _).symm ▸ node) inner found evolves.sound.distinct
  · next stays =>
    cases ran
    have none_ : ∀ t ∈ s.others, (!u.isMethodOf m t) = true := fun t ht => by
      refine Bool.not_eq_true' _ ▸ ?_
      by_contra takes
      obtain ⟨own, numbered⟩ := Bool.and_eq_true_iff.mp (Bool.of_not_eq_false takes)
      have member : t ∈ (v.decl k).defs := by
        rw [h.members]
        exact List.mem_append_left _ (List.mem_append_right _ ht)
      refine stays (Bool.and_eq_true_iff.mpr ⟨same.trans own, List.any_eq_true.mpr ⟨t, member, ?_⟩⟩)
      rw [number own]
      exact numbered
    have arranged := h.arranged.remove m
    rw [List.filter_eq_self.mpr none_] at arranged
    exact ⟨rfl, s, { h with arranged := arranged }⟩

/-- Constants are added one after the other; those before one that breaks off stay. -/
theorem Reached.constants (first : (u.decl k).ConstantsFirst)
    (element : u.registry.node? k = some n) (inner : n.kind ≠ .unit) {cs : List Code}
    (fit : ∀ c ∈ cs, Change.isConstant c) (h : u.Reached k o v s) (fits : o.Fits)
    (ran : addConstants k (u.constantScope k) cs v = (x, w)) :
    ∃ part s', part <+: cs ∧ (x = .ok () → part = cs) ∧
      u.Reached k (o.after (.constants part)) w s' := by
  induction cs generalizing o v s with
  | nil =>
    cases ran
    refine ⟨[], s, List.prefix_refl _, fun _ => rfl, ?_⟩
    rw [Outcome.after, List.append_nil]
    exact h
  | cons c cs ih =>
    obtain ⟨here, others⟩ := List.forall_mem_cons.mp fit
    have apart := h.arranged.apart fits first
    have split : addConstants k (u.constantScope k) (c :: cs) = (do
        let t ← lower (u.constantScope k) .part c
        let t ← adopt t
        changeDefs k (withConstant t)) >>= fun _ => addConstants k (u.constantScope k) cs := by
      simp only [bind_assoc]
      rfl
    rw [split] at ran
    have step {x' : Except Abort Unit} {w' : SourceUnit} :=
      h.added (c := c) (x := x') (w := w') element inner _ inserts_withConstant
        (Sections.withConstant_members apart) fun t made => h.arranged.addConstant made
    rcases result_of_bind ran with ⟨_, v', added, more⟩ | ⟨e, broken, rfl⟩
    · rcases step added with ⟨e, failed, -⟩ | ⟨-, s', reached⟩
      · exact nomatch failed
      · have all : ∀ x ∈ o.constants ++ [c], Change.isConstant x := List.forall_mem_append.mpr
          ⟨fits.constants, List.forall_mem_singleton.mpr here⟩
        have fits' : Outcome.Fits { o with constants := o.constants ++ [c] } :=
          { fits with constants := all }
        obtain ⟨part, s'', within, whole, reached⟩ := ih others reached fits' more
        refine ⟨c :: part, s'', List.cons_prefix_cons.mpr ⟨rfl, within⟩,
          fun ok => congrArg (c :: ·) (whole ok), ?_⟩
        rw [Outcome.after, List.append_assoc] at reached
        exact reached
    · rcases step broken with ⟨_, -, rfl⟩ | ⟨ok, -⟩
      · refine ⟨[], s, List.nil_prefix, nofun, ?_⟩
        rw [Outcome.after, List.append_nil]
        exact h
      · exact nomatch ok

/-- A type that gets other modifiers has its members in the same sections. -/
theorem Reached.modifiers (h : u.Reached k o v s) (element : u.registry.node? k = some n)
    (inner : n.kind ≠ .unit) {f : Tree → Tree} {g : Tree → Tree}
    (changes : ∀ m name ms tps e is ds, f (.classDecl m name ms tps e is ds) =
      .classDecl m name (g ms) tps e is ds) : u.Reached k o (v.changeDecl k f) s := by
  have node : v.registry.node? k = some n := h.registry ▸ element
  obtain ⟨c, name, ms, tps, e, is, ds, declared⟩ := exists_classDecl h.type
  have changed : f (v.decl k) = .classDecl c name (g ms) tps e is ds := by
    rw [declared, changes]
  have evolves := h.sound.alter (k := k) (f := f)
    (L := ⟨fun _ => False, fun _ => False, fun _ _ => False, fun _ => False⟩) (fun _ => False.elim) node
    (by rw [changed, declared]; exact .type)
  refine h.alter _ evolves.sound ((changeDecl_registry v k _).trans h.registry) ?_ evolves.next
    (g ms) ds ?_ ?_ h.arranged
  · rw [changeDecl]
    split <;> rfl
  · rw [h.sound.decl_changeDecl element inner (by rw [changed]; rfl) (by rw [changed, declared]; rfl),
      changed, declared]
    rfl
  · rw [← h.members, declared]
    rfl

/-- What is done of one change that may break off. -/
theorem Reached.change (sound : u.Sound u.registry) (first : (u.decl k).ConstantsFirst)
    (element : u.registry.node? k = some n) (inner : n.kind ≠ .unit) (h : u.Reached k o v s)
    (fits : o.Fits) {change : Change} (fit : change.fits) (ran : change.run k v = (x, w)) :
    (∃ s', u.Reached k (o.after change) w s') ∧ x = .ok () ∨ (∃ e, x = .error e) ∧
      ∃ did s', Change.Cut did [change] ∧ u.Reached k (did.foldl Outcome.after o) w s' := by
  have apart := h.arranged.apart fits first
  have broken : (∃ e, x = .error e ∧ w = v) → (∃ e, x = .error e) ∧
      ∃ did s', Change.Cut did [change] ∧ u.Reached k (did.foldl Outcome.after o) w s' := by
    rintro ⟨e, rfl, rfl⟩
    exact ⟨⟨e, rfl⟩, [], s, .stop _, h⟩
  have last (c : Code) (ran : injectMember k c v = (x, w)) :
      (∃ s', u.Reached k { o with members := o.members ++ [c] } w s') ∧ x = .ok () ∨
        ∃ e, x = .error e ∧ w = v := by
    have ran : (do
        let t ← lower (v.typeScope k) .part c
        let t ← adopt t
        changeDefs k (· ++ [t]) : Edit Unit) v = (x, w) := ran
    rw [h.typeScope] at ran
    exact (h.added element inner (fun t ds => ds ++ [t]) inserts_last
      (Sections.append_members s) (fun t made => h.arranged.addLast made) ran).symm.imp_left
        And.symm
  cases change
  case field c =>
    have ran : (do
        let t ← lower (v.typeScope k) .part c
        let t ← adopt t
        changeDefs k (withField t) : Edit Unit) v = (x, w) := ran
    rw [h.typeScope] at ran
    rcases h.added element inner _ inserts_withField (Sections.withField_members apart)
      (fun t made => h.arranged.addField made) ran with failed | ⟨ok, reached⟩
    · exact .inr (broken failed)
    · exact .inl ⟨reached, ok⟩
  case method c =>
    have ran : injectMember k c v = (x, w) := by
      cases c
      case methodDecl | constructorDecl => exact ran
      all_goals exact absurd fit Bool.false_ne_true
    exact (last _ ran).elim (fun done => .inl done) fun failed => .inr (broken failed)
  case type c => exact (last _ ran).elim (fun done => .inl done) fun failed => .inr (broken failed)
  case remove m =>
    obtain ⟨ok, reached⟩ := h.remove sound element inner apart
      (fun t ht => (h.arranged.last_new fits t ht).2) ran
    exact .inl ⟨reached, ok⟩
  case constants cs =>
    obtain ⟨f, changes, ran⟩ : ∃ f : Tree → Tree, (∀ m name ms tps e is ds,
        f (.classDecl m name ms tps e is ds) =
          .classDecl m name (ms.withFlags (enumFlags ms.flags)) tps e is ds) ∧
        addConstants k ((v.changeDecl k f).constantScope k) cs (v.changeDecl k f) = (x, w) :=
      ⟨_, fun _ _ _ _ _ _ _ => rfl, ran⟩
    have flagged := h.modifiers element inner (g := fun ms => ms.withFlags (enumFlags ms.flags)) changes
    rw [flagged.constantScope] at ran
    obtain ⟨part, s', within, whole, reached⟩ :=
      flagged.constants first element inner (List.all_eq_true.mp fit) fits ran
    cases x with
    | ok _ =>
      rw [whole rfl] at reached
      exact .inl ⟨⟨s', reached⟩, rfl⟩
    | error e => exact .inr ⟨⟨e, rfl⟩, _, s', .within within [], reached⟩

/-- What is done of changes one after the other. -/
theorem Reached.changes (sound : u.Sound u.registry) (first : (u.decl k).ConstantsFirst)
    (element : u.registry.node? k = some n) (inner : n.kind ≠ .unit) {changes : List Change}
    (fit : ∀ c ∈ changes, c.fits) (h : u.Reached k o v s) (fits : o.Fits)
    (ran : Change.runAll k changes v = (x, w)) :
    ∃ did s', Change.Cut did changes ∧ (x = .ok () → did = changes) ∧
      u.Reached k (did.foldl Outcome.after o) w s' := by
  induction changes generalizing o v s with
  | nil =>
    cases ran
    exact ⟨[], s, .stop _, fun _ => rfl, h⟩
  | cons c cs ih =>
    obtain ⟨here, others⟩ := List.forall_mem_cons.mp fit
    rcases result_of_bind ran with ⟨_, v', made, more⟩ | ⟨e, broken, rfl⟩
    · rcases h.change sound first element inner fits here made with ⟨⟨s', reached⟩, -⟩ | ⟨⟨_, failed⟩, -⟩
      · obtain ⟨did, s'', cut, whole, reached⟩ := ih others reached (fits.after here) more
        exact ⟨c :: did, s'', .next c cut, fun ok => congrArg (c :: ·) (whole ok), reached⟩
      · exact nomatch failed
    · rcases h.change sound first element inner fits here broken with ⟨-, ok⟩ | ⟨-, did, s', cut, reached⟩
      · exact nomatch ok
      · exact ⟨did, s', cut.more cs, nofun, reached⟩

end Reached

/-- Whatever members are added to a type that was read or taken from it, they stand in this order: the
constants, those that were there and then the new ones; the new fields; the other members that were
there and were not taken away; the new methods and types. New ones stand in the order in which they
were added, and those that were there in theirs, unchanged. If a change breaks off, this is so of what
was done before. -/
theorem members_of_changes {file : String} {text : List Glyph} {t : Tree}
    (read : Parse.unit file text = .ok t) {k : Key} (type : k ∈ (ofTree t).types)
    {changes : List Change} (fit : ∀ c ∈ changes, c.fits) {x : Except Abort Unit} {v : SourceUnit}
    (ran : Change.runAll k changes (ofTree t) = (x, v)) :
    ∃ did s, Change.Cut did changes ∧ (x = .ok () → did = changes) ∧
      (ofTree t).Arranged k (.of did) s ∧ (v.decl k).defs = s.members := by
  obtain ⟨n, element, kind⟩ := Registry.node_of_typesTo type
  have inner : n.kind ≠ .unit := by rw [kind]; exact nofun
  obtain ⟨m, p, is, ds, rfl⟩ := Parse.unit_of_read read
  have sound := sound_ofTree (Parse.Made.unit read).proper
  have first := constantsFirst_of_read read element inner
  have suits := (sound.found element inner).2
  have begin : SourceUnit.Reached _ k ⟨[], [], [], []⟩ (ofTree (.unit m file p is ds)) _ :=
    { sound := sound
      registry := rfl
      source := rfl
      next := Nat.le_refl _
      type := by
        rw [kind] at suits
        cases declared : (ofTree (.unit m file p is ds)).decl k
        case classDecl => rfl
        all_goals
          rw [declared] at suits
          exact suits.elim
      pos := rfl
      name := rfl
      members := members_nil first
      arranged := arranged_nil _ k }
  obtain ⟨did, s, cut, whole, reached⟩ := begin.changes sound first element inner fit .nil ran
  exact ⟨did, s, cut, whole, reached.arranged, reached.members⟩

/-- An enumeration with a constant, a field and a method gets a field, a type, a constant and a method,
and loses its method. -/
theorem members_of_enumeration : ∃ t changes v s,
    Parse.unit "" ("enum E\x7bA;int x;void m()\x7b\x7d\x7d".toList.map .char) = .ok t ∧
      1 ∈ (ofTree t).types ∧ (∀ c ∈ changes, c.fits) ∧
      Change.runAll 1 changes (ofTree t) = (.ok (), v) ∧ (ofTree t).Arranged 1 (.of changes) s ∧
      (v.decl 1).defs = s.members ∧
      s.members.map declaredName = ["A", "B", "f", "x", "C", "n"] := by
  let text : List Glyph := "enum E\x7bA;int x;void m()\x7b\x7d\x7d".toList.map .char
  let changes : List Change :=
    [.field (.fieldDecl (.typeRef "int" [] 0) "f" .privateFlag [] .missing),
      .type (.classDecl ⟨false, false, false, false⟩ .empty [] "C" [] .missing [] [] [] [] []),
      .constants [.enumConstant "B" [] []], .remove 3,
      .method (.methodDecl .empty [] [] (.typeRef "int" [] 0) "n" [] [] [] true false)]
  have found : ((Parse.unit "" text).toOption.any fun t =>
      let ran := Change.runAll 1 changes (ofTree t)
      (ofTree t).types.contains 1 && (ran.1.toOption.isSome &&
        (ran.2.decl 1).defs.map declaredName == ["A", "B", "f", "x", "C", "n"])) = true := by
    decide +kernel
  have fit : ∀ c ∈ changes, c.fits := by decide
  cases read : Parse.unit "" text with
  | error e => rw [read] at found; exact nomatch found
  | ok t =>
    rw [read] at found
    obtain ⟨type, found⟩ := Bool.and_eq_true_iff.mp found
    obtain ⟨carried, names⟩ := Bool.and_eq_true_iff.mp found
    rcases ran : Change.runAll 1 changes (ofTree t) with ⟨x, v⟩
    rw [ran] at carried names
    obtain ⟨did, s, -, whole, arranged, members⟩ :=
      members_of_changes read (List.contains_iff_mem.mp type) fit ran
    cases x with
    | error e => exact nomatch carried
    | ok _ =>
      rw [whole rfl] at arranged
      exact ⟨t, changes, v, s, rfl, List.contains_iff_mem.mp type, fit, ran, arranged, members,
        members ▸ eq_of_beq names⟩

end SourceUnit

end Weaver
