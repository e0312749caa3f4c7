import Weaver.Proofs.Parse.Places
import Weaver.Proofs.Processing.Rethrown
/-!
What annotations about exceptions make of a method that is read.

The clauses of a method are what its annotations list, one annotation after the other, those that are
nested in one in its place (`Handler.Speaks`). Each annotation asks for a run, and whichever of them
comes first makes all the clauses (`SourceUnit.AsRead.process_rethrown`). That no other method stands
in the way follows from the text: two methods of a unit begin at two tokens.
-/
set_option autoImplicit false

namespace Weaver

open Weaver.Syntax (Tree Mark)
open Weaver.Syntax.Tree
open SourceUnit

/-! ## Annotations -/

namespace Handler

deriving instance DecidableEq for Rethrown

/-- What one annotation says about exceptions. -/
structure Rethrown.SaidBy (r : Rethrown) (a : AnnoUse) : Prop where
  caught : a.readTexts "value" = .ok r.caught
  thrownAs : a.readText "as" = .ok r.thrownAs
  message : a.readText "message" = .ok r.message

/-- What the annotations of a method say about exceptions, in their order. -/
inductive Speaks : List AnnoUse → List Rethrown → Prop where
  | nil : Speaks [] []
  | single {a : AnnoUse} {as : List AnnoUse} {r : Rethrown} {rs : List Rethrown}
      (name : a.name = Known.rethrow) (here : r.SaidBy a) (others : Speaks as rs) :
      Speaks (a :: as) (r :: rs)
  | several {a : AnnoUse} {as : List AnnoUse} {rs rs' : List Rethrown}
      (name : a.name = Known.rethrows) (here : List.Forall₂ Rethrown.SaidBy rs (a.nested "value"))
      (others : Speaks as rs') : Speaks (a :: as) (rs ++ rs')
  | other {a : AnnoUse} {as : List AnnoUse} {rs : List Rethrown} (single : a.name ≠ Known.rethrow)
      (several : a.name ≠ Known.rethrows) (others : Speaks as rs) : Speaks (a :: as) rs

section Said

variable {a : AnnoUse} {as : List AnnoUse} {r : Rethrown} {rs : List Rethrown}

theorem saidBy_iff : r.SaidBy a ↔ Rethrown.of a = .ok r := by
  constructor
  · rintro ⟨caught, thrownAs, message⟩
    simp only [Rethrown.of, caught, thrownAs, message]
    rfl
  · intro reads
    unfold Rethrown.of at reads
    obtain ⟨caught, here, reads⟩ := Code.ok_of_bind reads
    obtain ⟨thrownAs, here', reads⟩ := Code.ok_of_bind reads
    obtain ⟨message, here'', reads⟩ := Code.ok_of_bind reads
    obtain rfl := Except.ok.inj reads
    exact ⟨here, here', here''⟩

theorem forall₂_saidBy {rs : List Rethrown} :
    List.Forall₂ Rethrown.SaidBy rs as ↔ as.map Rethrown.of = rs.map .ok := by
  constructor
  · intro said
    induction said with
    | nil => rfl
    | cons here _ ih => rw [List.map_cons, List.map_cons, saidBy_iff.mp here, ih]
  · intro reads
    induction as generalizing rs with
    | nil =>
      obtain rfl := List.map_eq_nil_iff.mp reads.symm
      exact .nil
    | cons a as ih =>
      cases rs with
      | nil => exact nomatch reads
      | cons r rs =>
        obtain ⟨here, others⟩ := List.cons.inj reads
        exact .cons (saidBy_iff.mpr here) (ih others)

/-- The annotations that an annotation stands for. -/
def spoken (a : AnnoUse) : List AnnoUse :=
  if a.name == Known.rethrow then [a]
  else if a.name == Known.rethrows then a.nested "value"
  else []

/-- Annotations that speak can be read. -/
theorem speaks_iff : Speaks as rs ↔ (as.flatMap spoken).map Rethrown.of = rs.map .ok := by
  constructor
  · intro said
    induction said with
    | nil => rfl
    | @single a as r rs name here _ ih =>
      have own : spoken a = [a] := if_pos (beq_iff_eq.mpr name)
      rw [List.flatMap_cons, own, List.map_append, ih, List.map_cons, saidBy_iff.mp here]
      rfl
    | @several a as rs rs' name here _ ih =>
      have own : spoken a = a.nested "value" := by
        rw [spoken, name]
        rfl
      rw [List.flatMap_cons, own, List.map_append, forall₂_saidBy.mp here, ih, List.map_append]
    | @other a as rs single several _ ih =>
      have none_ : spoken a = [] := by
        rw [spoken, if_neg (mt eq_of_beq single), if_neg (mt eq_of_beq several)]
      rw [List.flatMap_cons, none_, List.nil_append, ih]
  · intro reads
    induction as generalizing rs with
    | nil =>
      obtain rfl := List.map_eq_nil_iff.mp reads.symm
      exact .nil
    | cons a as ih =>
      rw [List.flatMap_cons, List.map_append] at reads
      obtain ⟨rs₁, rs₂, rfl, here, others⟩ := List.map_eq_append_iff.mp reads.symm
      have rest := ih others.symm
      unfold spoken at here
      split at here
      · next name =>
        obtain ⟨r, us, said, none_, rfl⟩ :=
          List.forall₂_cons_right_iff.mp (forall₂_saidBy.mpr here.symm)
        obtain rfl := List.forall₂_nil_right_iff.mp none_
        exact .single (eq_of_beq name) said rest
      · split at here
        · next name => exact .several (eq_of_beq name) (forall₂_saidBy.mpr here.symm) rest
        · next single several =>
          obtain rfl := List.map_eq_nil_iff.mp here
          exact .other (mt beq_iff_eq.mpr single) (mt beq_iff_eq.mpr several) rest

instance : Decidable (Speaks as rs) := decidable_of_iff _ speaks_iff.symm

end Said

end Handler

/-! ### Their types -/

namespace Datum

theorem use?_around (d : Datum) (p : Source.Position) (whole : String) {a : AnnoUse}
    (use : (d.around p whole).use? = some a) : ∃ b, d.use? = some b ∧ a.type = b.type := by
  cases d
  case nested =>
    obtain rfl := Option.some.inj use
    exact ⟨_, rfl, rfl⟩
  all_goals exact nomatch use

/-- An annotation is of one of the types that are understood. -/
theorem type_ofTree (resolve : String → String) (t : Tree) {a : AnnoUse}
    (use : (ofTree resolve t).use? = some a) : a.type ∈ AnnoType.all := by
  cases t
  case parens m i =>
    obtain ⟨b, inner, same⟩ := use?_around (ofTree resolve i) _ _ use
    exact same ▸ type_ofTree resolve i inner
  case annoUse m t as =>
    unfold ofTree at use
    split at use
    · next type known =>
      obtain rfl := Option.some.inj use
      obtain ⟨q, -, found⟩ := Option.bind_eq_some_iff.mp known
      exact List.mem_of_find?_eq_some found
    · cases use
  case literal m v => cases v <;> cases use
  case select =>
    unfold ofTree at use
    split at use
    · cases use
    · split at use <;> cases use
  case newArray | binary | unary =>
    unfold ofTree at use
    split at use <;> cases use
  all_goals cases use
end Datum

/-! ## Runs -/

namespace SourceUnit

section Asked

variable {u : SourceUnit} {config : Config} {t m : Key} {a : AnnoUse} {h : Handler}

/-- An annotation of a method asks for a run if it is not at fault and may stand there. -/
theorem scheduled_of_anno (type : t ∈ u.types) (method : m ∈ u.methods t) (anno : a ∈ u.annotations m)
    (member : h ∈ Handler.standard) (trigger : h.trigger = .annotated) (named : h.name = a.name)
    (enabled : config.runs a.name = true) (faultless : a.fault? = none)
    (allowed : a.type.isAllowedOn (u.elementKind m) = true) :
    (h, ⟨h.name, some a, m⟩) ∈ u.schedule config := by
  have active : h ∈ config.active Handler.standard .annotated := by
    refine List.mem_filter.mpr ⟨member, ?_⟩
    rw [named, enabled, trigger]
    rfl
  have found : Occurrence.anno h m a ∈ Occurrence.all config Handler.standard u := by
    refine List.mem_flatMap.mpr ⟨t, type, List.mem_append_right _ (List.mem_flatMap.mpr ⟨m, method, ?_⟩)⟩
    refine List.mem_append_left _ (List.mem_append_left _ (List.mem_flatMap.mpr ⟨a, anno, ?_⟩))
    exact List.mem_map_of_mem (List.mem_filter.mpr ⟨active, beq_iff_eq.mpr named⟩)
  have accepted : (Occurrence.anno h m a).run? u = some (h, ⟨h.name, some a, m⟩) := by
    rw [Occurrence.run?, Occurrence.refusal?, faultless]
    dsimp only
    rw [if_pos allowed]
    rfl
  refine (Finding.schedule_perm _).mem_iff.mpr ?_
  rw [all_eq, Finding.asked_map]
  exact List.mem_filterMap.mpr ⟨_, found, accepted⟩

/-- The annotations about exceptions may stand on methods and on constructors. -/
theorem allowed_of_rethrow (anno : a ∈ u.annotations m)
    (own : a.name = Known.rethrow ∨ a.name = Known.rethrows) (method : u.nodeKind m = .method) :
    a.type.isAllowedOn (u.elementKind m) = true := by
  have bodies : ∀ ty ∈ AnnoType.all, ty.name = Known.rethrow ∨ ty.name = Known.rethrows →
      ty.allowed = AnnoType.bodies := by decide
  obtain ⟨tree, -, use⟩ := List.mem_filterMap.mp anno
  rw [AnnoType.isAllowedOn, bodies _ (Datum.type_ofTree _ _ use) own, elementKind, method]
  dsimp only
  split <;> rfl

/-- An annotation about exceptions asks for a run that converts the exceptions of its method. -/
theorem exists_converts (type : t ∈ u.types) (method : m ∈ u.methods t)
    (anno : a ∈ u.annotations m) (own : a.name = Known.rethrow ∨ a.name = Known.rethrows)
    (enabled : config.runs a.name = true) (faultless : a.fault? = none) :
    ∃ run ∈ u.schedule config, u.converts m run = true := by
  obtain ⟨n, node, kind⟩ := Registry.node_of_childrenOf method
  have methodKind : u.nodeKind m = .method := by rw [nodeKind, node]; exact kind
  have member : Handler.rethrowing a.name ∈ Handler.standard := by
    refine (List.mergeSort_perm _ _).mem_iff.mpr ?_
    rcases own with own | own <;> rw [own]
    · exact List.mem_of_getElem? (i := 26) rfl
    · exact List.mem_of_getElem? (i := 27) rfl
  refine ⟨_, scheduled_of_anno type method anno member rfl rfl enabled faultless
    (allowed_of_rethrow anno own methodKind), ?_⟩
  have same : Invocation.method? ⟨a.name, some a, m⟩ u = some m := by
    rw [Invocation.method?, methodKind]
  exact Bool.and_eq_true_iff.mpr ⟨rfl, beq_iff_eq.mpr same⟩

end Asked

/-! ## Places -/

section Text

open Weaver.Text (Glyph)

variable {file : String} {text : List Glyph} {t : Tree}

/-- No two methods of a unit that is read have the same place. -/
theorem methodsApart_of_read (read : Parse.unit file text = .ok t) : (ofTree t).MethodsApart := by
  have whole := asRead_of_read read
  have proper := (Parse.Made.unit read).proper
  obtain ⟨m, p, is, ds, rfl, distinct⟩ := Parse.nodup_methodPlaces read
  rw [← methodPlaces_number.2 1 ds] at distinct
  have listed {k : Key} {n : Node} (node : (ofTree (.unit m file p is ds)).registry.node? k = some n)
      (kind : n.kind = .method) :
      (ofTree (.unit m file p is ds)).decl k ∈ (numberedAll (numberAll 1 ds).1).filter isMethod ∧
        ((ofTree (.unit m file p is ds)).decl k).id = n.decl := by
    have inner : n.kind ≠ .unit := by rw [kind]; exact nofun
    have method := kind_of_suits (kind ▸ (whole.sound.found node inner).2) rfl
    obtain ⟨member, number⟩ := mem_of_findIn (made_ofTree proper node inner).1
    rw [pool_ofTree, numberedAll, numberedAll, List.append_nil] at member
    exact ⟨List.mem_filter.mpr ⟨member, method⟩, number⟩
  intro k k' n n' node kind node' kind' same
  obtain ⟨here, number⟩ := listed node kind
  obtain ⟨there, number'⟩ := listed node' kind'
  have decls := List.inj_on_of_nodup_map distinct here there same
  exact whole.apart node node' (by rw [← number, ← number', decls])

variable {config : Config} {c c' : Collector} {v : SourceUnit} {said : Option String} {ty m : Key}
  {a : AnnoUse} {rs : List Handler.Rethrown}

/-- **Exceptions are converted once.** Let a method with something to do have an annotation about
exceptions whose handler runs. Then one `try` statement is put around its statements, with one clause
for each type that its annotations list, in their order, however many of these ask for a run. -/
theorem exceptions_converted_once (read : Parse.unit file text = .ok t)
    (done : (ofTree t).process config c = .ok (v, c', said)) (type : ty ∈ (ofTree t).types)
    (method : m ∈ (ofTree t).methods ty) (work : (ofTree t).HasWork m)
    (anno : a ∈ (ofTree t).annotations m) (own : a.name = Known.rethrow ∨ a.name = Known.rethrows)
    (enabled : config.runs a.name = true) (faultless : a.fault? = none)
    (spoken : Handler.Speaks ((ofTree t).annotations m) rs) :
    (ofTree t).ConvertedOnce config c v m rs := by
  obtain ⟨run, asked, converts⟩ := exists_converts type method anno own enabled faultless
  exact (asRead_of_read read).process_rethrown (methodsApart_of_read read) done asked converts work
    (Handler.speaks_iff.mp spoken)

/-- A method with two annotations about exceptions, one of them around a third. -/
def guardedText : List Glyph :=
  "class T\x7b@lombok.Rethrow(\"E\")@lombok.Rethrows(@lombok.Rethrow)void m()\x7bf();\x7d\x7d".toList.map
    .char

theorem guardedText_converted_once : ∃ t v c' said, Parse.unit "T.java" guardedText = .ok t ∧
    (ofTree t).process .standard (.empty false) = .ok (v, c', said) ∧
      (ofTree t).ConvertedOnce .standard (.empty false) v 2
        [⟨["E"], "java.lang.RuntimeException", ""⟩, ⟨[], "java.lang.RuntimeException", ""⟩] := by
  have checked : (match Parse.unit "T.java" guardedText with
      | .ok t => decide ((ofTree t).InOrder .standard ∧
          ((ofTree t).worked .standard (.empty false)).1.isOk = true ∧ 1 ∈ (ofTree t).types ∧
          2 ∈ (ofTree t).methods 1 ∧ (ofTree t).isAbstract 2 = false ∧ (ofTree t).isEmpty 2 = false ∧
          (∃ a ∈ (ofTree t).annotations 2, a.name = Known.rethrow ∧ a.fault? = none) ∧
          Handler.Speaks ((ofTree t).annotations 2)
            [⟨["E"], "java.lang.RuntimeException", ""⟩, ⟨[], "java.lang.RuntimeException", ""⟩])
      | .error _ => false) = true := by
    decide +kernel
  cases read : Parse.unit "T.java" guardedText with
  | error e =>
    rw [read] at checked
    exact absurd checked Bool.false_ne_true
  | ok t =>
    rw [read] at checked
    obtain ⟨order, performed, type, method, concrete, filled, ⟨a, anno, own, faultless⟩, spoken⟩ :=
      of_decide_eq_true checked
    obtain ⟨v, c', said, done, -⟩ := order.process (asRead_of_read read) performed
    exact ⟨t, v, c', said, rfl, done, exceptions_converted_once read done type method
      ⟨concrete, filled⟩ anno (.inl own) (by rw [own]; decide) faultless spoken⟩

end Text

end SourceUnit

end Weaver
