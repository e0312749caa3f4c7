import Weaver.Proofs.Code.Restore
import Weaver.Proofs.Processing.Locking
import Weaver.Proofs.SourceUnit.Proper
/-!
Annotations that suppress warnings.

A method whose body is replaced gets an annotation that suppresses warnings, unless it has one. The
annotations are told by what their names are resolved to, and a name is resolved by imports and by
the types of the unit; that `java.lang` is imported without being named is not taken into account. So
an annotation that is written by its simple name counts only where the type is imported, and
otherwise a further one is added. The further one is written in full, so that it counts from then on,
however often bodies are replaced.
-/
set_option autoImplicit false

namespace Weaver

open Weaver.Syntax (Tree Mark Flags)
open Weaver.Syntax.Tree

/-! ## Names of declarations -/

namespace Syntax.Tree

/-- A declaration without anything but its name. -/
def title : Tree → Tree
  | classDecl _ n .. => classDecl default n missing [] missing [] []
  | methodDecl _ n .. => methodDecl default n missing [] missing [] [] missing
  | varDecl _ n .. => varDecl default n missing missing missing
  | unit .. => unit default "" missing [] []
  | _ => missing

/-- A name in a declaration, with the names around it. -/
def qualify (package n : String) : Tree → String
  | classDecl _ c .. => c ++ "." ++ n
  | unit .. => if package.isEmpty then n else package ++ "." ++ n
  | _ => n

variable {L : License} {i j : Nat} {d d' : Tree} {f : Tree → Tree}

theorem isConstructor_title (d : Tree) : d.title.isConstructor = d.isConstructor := by
  cases d <;> rfl

theorem declaredName_title (d : Tree) : d.title.declaredName = d.declaredName := by
  cases d <;> rfl

theorem qualify_title (package n : String) (d : Tree) : d.title.qualify package n = d.qualify package n := by
  cases d <;> rfl

/-- Only parameters get other names. -/
theorem Alters.title (h : d.Alters L j d') (kept : ¬L.param j) : d'.title = d.title := by
  cases h with
  | param licensed => exact absurd licensed kept
  | _ => rfl

theorem title_change (h : d.isDeclaration → d.id = j → (f d).title = d.title) :
    (change j f d).title = d.title := by
  cases d
  case classDecl | methodDecl | varDecl =>
    rw [change]
    split
    · next hit => exact h rfl (eq_of_beq hit)
    · rfl
  all_goals rfl

end Syntax.Tree

/-! ## What names refer to -/

namespace SourceUnit

variable {L : License} {r : Registry} {u v : SourceUnit} {k : Key} {n : Node} {f : Tree → Tree}

/-- Where declarations change in their places, elements have the names that they had. -/
theorem title_changeDecl (kept : ∀ i, ¬L.param i)
    (alters : ∀ n (d : Tree), u.registry.node? k = some n → d.Alters L n.decl (f d)) (j : Key) :
    ((u.changeDecl k f).decl j).title = (u.decl j).title := by
  cases place : u.registry.node? k with
  | none => rw [changeDecl, place]
  | some n =>
    have registry := u.changeDecl_registry k f
    cases node : u.registry.node? j with
    | none => rw [decl, decl, registry, node]
    | some m =>
      have node' : (u.changeDecl k f).registry.node? j = some m := by rw [registry, node]
      by_cases outermost : m.kind = .unit
      · rw [decl_unit node outermost, decl_unit node' outermost]
        simp only [changeDecl, place]
        exact title_change fun _ _ => (alters n _ place).title (kept _)
      · have looked {w : SourceUnit} (h : w.registry.node? j = some m) :
            w.decl j = (findIn? m.decl w.pool).getD .missing := by
          rw [decl_eq h outermost, pool, findIn?, findIn_eq]
        have related : Option.Rel (fun t t' => t'.title = t.title) (findIn? m.decl u.pool)
            (findIn? m.decl (u.changeDecl k f).pool) := by
          rw [pool_changeDecl place f]
          refine findIn_changeIn_rel (fun x member same => ?_) fun x _ _ _ =>
            title_change fun _ _ => (alters n x place).title (kept _)
          have altered := alters n x place
          obtain ⟨declared, id, inner⟩ := altered.inner
          have own := isDeclaration_of_mem member
          rw [find_declared own, find_declared (declared.trans own), id, inner]
          split
          · exact .some (altered.title (kept _))
          · exact rel_of_eq (ρ := fun t t' : Tree => t'.title = t.title) (fun _ => rfl) rfl
        rw [looked node, looked node']
        generalize findIn? m.decl u.pool = a at related ⊢
        generalize findIn? m.decl (u.changeDecl k f).pool = b at related ⊢
        cases related with
        | some same => exact same
        | none => rfl

theorem qualifiedName_eq (u : SourceUnit) (k : Key) : u.qualifiedName k =
    (u.registry.around k).foldl (fun n p => (u.decl p).qualify u.package n) (u.name k) := rfl

/-- Names refer to the same where the same is imported and declared. -/
theorem resolve_congr (registry : v.registry = u.registry) (imports : v.imports = u.imports)
    (package : v.package = u.package) (title : ∀ k, (v.decl k).title = (u.decl k).title) :
    v.resolve = u.resolve := by
  have names : v.name = u.name := by
    funext k
    rw [name, name, ← isConstructor_title, title, isConstructor_title, ← declaredName_title, title,
      declaredName_title, registry]
    cases u.registry.parent? k with
    | none => rfl
    | some p =>
      dsimp only
      rw [← declaredName_title, title, declaredName_title]
  have qualified : v.qualifiedName = u.qualifiedName := by
    funext k
    rw [qualifiedName_eq, qualifiedName_eq, registry, names, package]
    congr 1
    funext n p
    rw [← qualify_title, title, qualify_title]
  have outer : v.outer? = u.outer? := by
    funext k
    unfold outer? nodeKind
    rw [registry]
  have imported : v.importedNames = u.importedNames := by rw [importedNames, importedNames, imports]
  funext q
  unfold resolve singleImports wholeImports types
  rw [imported, registry, names, qualified, outer]

theorem resolve_changeDecl (outermost : ∃ m f p is ds, u.tree = .unit m f p is ds)
    (kept : ∀ i, ¬L.param i)
    (alters : ∀ n (d : Tree), u.registry.node? k = some n → d.Alters L n.decl (f d)) :
    (u.changeDecl k f).resolve = u.resolve := by
  have tree : (u.changeDecl k f).imports = u.imports ∧ (u.changeDecl k f).package = u.package := by
    obtain ⟨m, file, p, is, ds, same⟩ := outermost
    cases place : u.registry.node? k with
    | none => rw [changeDecl, place]; exact ⟨rfl, rfl⟩
    | some n =>
      have changed : (u.changeDecl k f).tree = .unit m file p is (changeIn n.decl f ds) := by
        rw [changeDecl, place]
        change change n.decl f u.tree = _
        rw [same, change]
      rw [imports, imports, package, package, changed, same]
      exact ⟨rfl, rfl⟩
  exact resolve_congr (u.changeDecl_registry k f) tree.1 tree.2 (title_changeDecl kept alters)

/-- A declaration changes in its place, and no name does. -/
theorem Sound.changed (sound : u.Sound r) (element : r.node? k = some n) (inner : n.kind ≠ .unit)
    (kept : ∀ i, ¬L.param i) (alters : ∀ (n : Node) (d : Tree), d.Alters L n.decl (f d)) :
    (u.changeDecl k f).Sound r ∧ (u.changeDecl k f).resolve = u.resolve ∧
      (u.changeDecl k f).decl k = f (u.decl k) := by
  have own := isDeclaration_of_mem (mem_of_findIn (sound.found element inner).1).1
  obtain ⟨declared, id, -⟩ := (alters n (u.decl k)).inner
  have steps : Steps L u [] (u.changeDecl k f) := Edit.steps_changeDecl fun n _ => alters n _
  exact ⟨(steps.evolves sound fun i licensed => absurd licensed (kept i)).sound,
    resolve_changeDecl sound.outermost kept fun n d _ => alters n d,
    sound.decl_changeDecl element inner (declared.trans own) id⟩

end SourceUnit

/-! ## Annotations -/

/-- The type of the annotations. -/
def suppressWarningsName : String := "java.lang.SuppressWarnings"

/-- The name of an annotation's type, as it is written. -/
def Syntax.Tree.annoName? : Tree → Option String
  | .annoUse _ t _ => t.qualifiedName?
  | _ => none

namespace SourceUnit

variable {r : Registry} {u v w : SourceUnit} {k : Key} {n : Node}

/-- The names of the annotations on an element. -/
def annoNames (u : SourceUnit) (k : Key) : List String :=
  (u.decl k).mods.annotations.filterMap annoName?

/-- A name that is known to refer to the type of annotations that suppress warnings. -/
def isSuppression (u : SourceUnit) (name : String) : Bool := u.refersTo name suppressWarningsName

/-- The annotations on an element that suppress warnings: those that are known to, and those with the
simple name of the type, which is imported everywhere. -/
def suppressions (u : SourceUnit) (k : Key) : List String :=
  (u.annoNames k).filter fun q => q == "SuppressWarnings" || u.isSuppression q

/-- What is added to the annotations of an element when its body is replaced. -/
def addition (u : SourceUnit) (k : Key) : List String :=
  if (u.annoNames k).any u.isSuppression then [] else [suppressWarningsName]

/-- What is known to suppress warnings is among what suppresses them. -/
theorem addition_eq (u : SourceUnit) (k : Key) : u.addition k =
    if (u.suppressions k).any u.isSuppression then [] else [suppressWarningsName] := by
  rw [addition, suppressions, List.any_filter]
  congr 3
  funext q
  cases u.isSuppression q <;> simp

theorem isSuppression_name (u : SourceUnit) : u.isSuppression suppressWarningsName = true := by
  rw [isSuppression, refersTo, beq_self_eq_true, Bool.true_or]

/-- After the addition there is nothing to be added. -/
theorem any_addition (u : SourceUnit) (k : Key) :
    (u.annoNames k ++ u.addition k).any u.isSuppression = true := by
  rw [List.any_append, addition]
  split
  · next known => rw [known, Bool.true_or]
  · rw [List.any_cons, isSuppression_name, Bool.true_or, Bool.or_true]

end SourceUnit

namespace Edit

open SourceUnit

variable {u v w : SourceUnit} {k : Key}

/-- An edit after one that is carried out. -/
theorem run_after {α β : Type} {e : Edit α} {f : α → Edit β} {a : α} (first : e u = (.ok a, w)) :
    (e >>= f) u = f a w := by
  change ExceptT.bindCont f (e u).1 (e u).2 = _
  rw [first]
  rfl

/-- The annotation that is added is written in full. -/
theorem lower_suppressAll (s : Code.Scope) : ∃ m t as, suppressAll.lower s .part =
    .ok (.annoUse m t as) ∧ t.qualifiedName? = some suppressWarningsName := by
  have segments : ∀ x ∈ ["java", "lang", "SuppressWarnings"], Text.IsSegment x :=
    List.forall_mem_cons.mpr ⟨⟨by decide, by decide⟩, List.forall_mem_cons.mpr
      ⟨⟨by decide, by decide⟩, List.forall_mem_singleton.mpr ⟨by decide, by decide⟩⟩⟩
  have type : (Code.type suppressWarningsName).lower s .part =
      .ok (.select s.mark (.select s.mark (.ident s.mark "java") "lang") "SuppressWarnings") :=
    Code.lower_type_of_dotted (by decide) (Code.dotted_segments s.mark segments) .part
  refine ⟨s.mark, .select s.mark (.select s.mark (.ident s.mark "java") "lang") "SuppressWarnings",
    [.literal s.mark (.text "all")], ?_, rfl⟩
  change (Code.type suppressWarningsName).lower s .part >>= (fun t => .ok (Tree.annoUse s.mark t _)) = _
  rw [type]
  rfl

/-- A declaration with a further annotation. -/
def annotate (a : Tree) (d : Tree) : Tree :=
  d.withMods (d.mods.withAnnotations (d.mods.annotations ++ [a]))

theorem mods_annotate {a d : Tree} {m : Mark} {f : Flags} {as : List Tree}
    (mods : d.mods = .modifiers m f as) : (annotate a d).mods = .modifiers m f (as ++ [a]) := by
  rw [annotate, mods]
  cases d
  case classDecl | methodDecl | varDecl => rfl
  all_goals exact Tree.noConfusion mods

/-- A tree is an annotation with the type that suppresses warnings. -/
def suppresses (u : SourceUnit) : Tree → Bool
  | .annoUse _ t _ => u.treeRefersTo t suppressWarningsName
  | _ => false

/-- Warnings about a method are suppressed by an annotation that is there or by one that is added. -/
theorem suppressWarnings_eq (k : Key) (s : Code.Scope) (u : SourceUnit) :
    ∃ a next, a.annoName? = some suppressWarningsName ∧ u.next ≤ next ∧
      suppressWarnings k s u = (.ok (), if (u.annoNames k).any u.isSuppression then u
        else { u with next := next }.changeDecl k (annotate a)) := by
  obtain ⟨m, t, as, lowered, named⟩ := lower_suppressAll s
  refine ⟨.annoUse (m.withId u.next) t as, u.next + 1, named, Nat.le_succ _, ?_⟩
  have same : (u.decl k).mods.annotations.any (suppresses u) = (u.annoNames k).any u.isSuppression := by
    rw [annoNames, List.any_filterMap]
    congr 1
    funext a
    cases a
    case annoUse m t as =>
      rw [annoName?, show suppresses u (.annoUse m t as) = t.qualifiedName?.any u.isSuppression from rfl]
      cases t.qualifiedName? <;> rfl
    all_goals rfl
  have whole : suppressWarnings k s u = (if !(u.decl k).mods.annotations.any (suppresses u) then do
        let a ← lower s .part suppressAll
        let numbered := Tree.numberAnnotations u.next [a]
        modify fun u => { u with next := numbered.2 }
        change k fun d => d.withMods (d.mods.withAnnotations (d.mods.annotations ++ numbered.1))
      else pure () : Edit Unit) u := rfl
  rw [whole, same]
  cases (u.annoNames k).any u.isSuppression with
  | true => rfl
  | false =>
    have first : lower s .part suppressAll u = (.ok (.annoUse m t as), u) :=
      congrArg (·, u) lowered
    rw [Bool.not_false, if_pos rfl, run_after first]
    rfl

/-- A body can be replaced by whatever can be lowered. -/
theorem replaceBody_ok {cs : List Code} {ts : List Tree}
    (lowered : Code.lowerAll (u.methodScope k) .statement cs = .ok ts) :
    ∃ v, replaceBody k cs u = (.ok (), v) := by
  let s := u.methodScope k
  let b := u.changeDecl k (withStmts s.mark ((bodyParts (u.decl k)).1 ++ ts))
  obtain ⟨a, next, -, -, suppressed⟩ := suppressWarnings_eq k s b
  refine ⟨_, Eq.trans ?_ suppressed⟩
  have first : (ExceptT.mk (pure (Code.lowerAll s .statement cs)) : Edit (List Tree)) u =
      (.ok ts, u) := congrArg (·, u) lowered
  have looked : (get : Edit SourceUnit) u = (.ok u, u) := rfl
  have changed : change k (withStmts s.mark ((bodyParts (u.decl k)).1 ++ ts)) u = (.ok (), b) := rfl
  rw [replaceBody, run_after looked, run_after first, run_after changed]

end Edit

/-! ## Bodies that are replaced -/

namespace SourceUnit

/-- A unit that has changed, but in which a method has the annotations that it had, and names refer
to what they referred to. -/
structure Undisturbed (r : Registry) (k : Key) (u v : SourceUnit) : Prop where
  sound : v.Sound r
  resolve : v.resolve = u.resolve
  mods : ∃ f, (v.decl k).mods = (u.decl k).mods.withFlags f

/-- A unit in which the body of a method has been replaced, once or more often, and nothing else has
happened to the annotations of the method. -/
inductive Rewritten (r : Registry) (k : Key) (u : SourceUnit) : SourceUnit → Prop where
  | once {v w : SourceUnit} {cs : List Code} (between : u.Undisturbed r k v)
    (done : Edit.replaceBody k cs v = (.ok (), w)) : Rewritten r k u w
  | again {v v' w : SourceUnit} {cs : List Code} (earlier : Rewritten r k u v)
    (between : v.Undisturbed r k v') (done : Edit.replaceBody k cs v' = (.ok (), w)) :
    Rewritten r k u w

/-- What is kept of a unit with a method that gets annotations. -/
structure Annotated (r : Registry) (k : Key) (u : SourceUnit) (added : List String) (v : SourceUnit) :
    Prop where
  sound : v.Sound r
  resolve : v.resolve = u.resolve
  mods : (v.decl k).mods.IsMods
  names : v.annoNames k = u.annoNames k ++ added

section Rewriting

variable {r : Registry} {u v w : SourceUnit} {k : Key} {n : Node} {cs : List Code}

theorem isSuppression_congr (resolve : v.resolve = u.resolve) :
    v.isSuppression = u.isSuppression := by
  funext q
  rw [isSuppression, isSuppression, refersTo, refersTo, resolve]

theorem Undisturbed.refl (sound : u.Sound r) : u.Undisturbed r k u := by
  refine ⟨sound, rfl, (u.decl k).mods.flags, ?_⟩
  cases (u.decl k).mods <;> rfl

/-- Nothing has been added to the annotations of a method that was left alone. -/
theorem Undisturbed.annotated (h : u.Undisturbed r k v) (mods : (u.decl k).mods.IsMods) :
    u.Annotated r k [] v := by
  obtain ⟨m, f, as, plain⟩ := mods
  obtain ⟨f', same⟩ := h.mods
  rw [plain] at same
  refine ⟨h.sound, h.resolve, ⟨m, f', as, same⟩, ?_⟩
  rw [annoNames, annoNames, plain, same, List.append_nil]
  rfl

theorem Annotated.trans {added added' : List String} (h : u.Annotated r k added v)
    (h' : v.Annotated r k added' w) : u.Annotated r k (added ++ added') w :=
  ⟨h'.sound, h'.resolve.trans h.resolve, h'.mods, by rw [h'.names, h.names, List.append_assoc]⟩

/-- Replacing a body adds an annotation, unless one is known. -/
theorem annotated_replaceBody (sound : u.Sound r) (element : r.node? k = some n)
    (method : n.kind = .method) (mods : (u.decl k).mods.IsMods)
    (done : Edit.replaceBody k cs u = (.ok (), v)) : u.Annotated r k (u.addition k) v := by
  have inner : n.kind ≠ .unit := by rw [method]; exact nofun
  obtain ⟨m, flags, as, plain⟩ := mods
  obtain ⟨ts, -, suppressed⟩ := Edit.ok_of_replaceBody done
  let f := Edit.withStmts (u.methodScope k).mark ((bodyParts (u.decl k)).1 ++ ts)
  obtain ⟨sound₁, resolve₁, decl₁⟩ := sound.changed (f := f) element inner
    (L := { License.nothing with body := fun _ => True }) (fun _ => False.elim)
    fun _ d => Edit.alters_withStmts trivial _ _ d
  have mods₁ : ((u.changeDecl k f).decl k).mods = .modifiers m flags as := by
    rw [decl₁, ← plain]
    cases u.decl k <;> rfl
  have names₁ : (u.changeDecl k f).annoNames k = u.annoNames k := by
    rw [annoNames, annoNames, mods₁, plain]
  obtain ⟨a, next, named, more, adds⟩ :=
    Edit.suppressWarnings_eq k (u.methodScope k) (u.changeDecl k f)
  obtain rfl := congrArg Prod.snd (adds.symm.trans suppressed)
  rw [names₁, isSuppression_congr resolve₁, addition]
  split
  · exact ⟨sound₁, resolve₁, ⟨m, flags, as, mods₁⟩, by rw [names₁, List.append_nil]⟩
  · let w : SourceUnit := { u.changeDecl k f with next := next }
    have spent : w.Sound r :=
      ((Steps.one (.spend more)).evolves (L := .nothing) sound₁ fun _ => False.elim).sound
    obtain ⟨sound₂, resolve₂, decl₂⟩ := spent.changed (f := Edit.annotate a) element inner
      (L := .nothing) (fun _ => False.elim) fun _ _ => alters_withMods (flags_withAnnotations _ _)
    have mods₂ : ((w.changeDecl k (Edit.annotate a)).decl k).mods = .modifiers m flags (as ++ [a]) :=
      (congrArg mods decl₂).trans (Edit.mods_annotate mods₁)
    refine ⟨sound₂, resolve₂.trans resolve₁, ⟨m, flags, _, mods₂⟩, ?_⟩
    change ((w.changeDecl k (Edit.annotate a)).decl k).mods.annotations.filterMap annoName? = _
    rw [mods₂, annoNames, plain]
    change List.filterMap annoName? (as ++ [a]) = List.filterMap annoName? as ++ _
    rw [List.filterMap_append, List.filterMap_cons_some named]
    rfl

/-- However often a body is replaced, at most one annotation is added. -/
theorem Rewritten.annotated (h : Rewritten r k u v) (element : r.node? k = some n)
    (method : n.kind = .method) (mods : (u.decl k).mods.IsMods) :
    u.Annotated r k (u.addition k) v := by
  induction h with
  | once between done =>
    have now := between.annotated mods
    have whole := now.trans (annotated_replaceBody now.sound element method now.mods done)
    rwa [addition, now.names, isSuppression_congr now.resolve, List.append_nil, List.nil_append]
      at whole
  | @again v v' w cs _ between done ih =>
    have now := ih.trans (between.annotated ih.mods)
    have whole := now.trans (annotated_replaceBody now.sound element method now.mods done)
    have none_ : v'.addition k = [] := by
      rw [addition, now.names, List.append_nil, isSuppression_congr now.resolve, any_addition,
        if_pos rfl]
    rwa [none_, List.append_nil, List.append_nil] at whole

/-- Bodies can be replaced again and again. -/
theorem exists_rewritten (sound : u.Sound r) (element : r.node? k = some n)
    (method : n.kind = .method) (mods : (u.decl k).mods.IsMods) :
    ∃ v w, Rewritten r k u v ∧ Edit.replaceBody k [] v = (.ok (), w) ∧ Rewritten r k u w := by
  have lowered (u : SourceUnit) : Code.lowerAll (u.methodScope k) .statement [] = .ok [] := rfl
  obtain ⟨v, done⟩ := Edit.replaceBody_ok (lowered u)
  obtain ⟨w, again⟩ := Edit.replaceBody_ok (lowered v)
  have first : Rewritten r k u v := .once (.refl sound) done
  have annotated := first.annotated element method mods
  exact ⟨v, w, first, again, .again first (.refl annotated.sound) again⟩

/-- What suppresses warnings about a method before its body is replaced and what is added. -/
theorem Rewritten.suppressions (h : Rewritten r k u v) (element : r.node? k = some n)
    (method : n.kind = .method) (mods : (u.decl k).mods.IsMods) :
    v.suppressions k = u.suppressions k ++ u.addition k := by
  have annotated := h.annotated element method mods
  rw [SourceUnit.suppressions, isSuppression_congr annotated.resolve, annotated.names,
    List.filter_append]
  congr 1
  rw [addition]
  split
  · rfl
  · exact List.filter_eq_self.mpr fun q hq => by
      rw [List.mem_singleton.mp hq, isSuppression_name, Bool.or_true]

end Rewriting

/-! ## The simple name -/

/-- No other type with the simple name is imported or declared. -/
structure Unrivalled (u : SourceUnit) : Prop where
  imports : ∀ q ∈ u.singleImports, q = "SuppressWarnings" ∨ q.endsWith ".SuppressWarnings" →
    q = suppressWarningsName
  types : ∀ k ∈ u.types, u.name k ≠ "SuppressWarnings"

theorem endsWith_iff {s t : String} : s.endsWith t = true ↔ t.toList <:+ s.toList := by
  rw [String.endsWith_eq_endsWith_toSlice, String.Slice.endsWith_string_iff]
  simp

/-- The types that are known without their declarations. -/
def knownNames : List String :=
  AnnoType.all.map (·.name) ++ [Template.functions.name, "Functions", Known.application,
    Known.jvmAgent, Known.yieldClass]

theorem mem_knownNames {q : String} (known : isKnownType q = true) : q ∈ knownNames := by
  rw [knownNames, List.mem_append]
  simp only [isKnownType, Bool.or_eq_true, beq_iff_eq] at known
  rcases known with (((anno | library) | rfl) | rfl) | rfl
  · obtain ⟨a, ha⟩ := Option.isSome_iff_exists.mp anno
    have hit := List.find?_some (p := fun a : AnnoType => a.name == q) ha
    exact .inl (List.mem_map.mpr ⟨a, List.mem_of_find?_eq_some ha, eq_of_beq hit⟩)
  · refine .inr ?_
    rw [Template.library?] at library
    split at library
    · next named =>
      rw [Bool.or_eq_true, beq_iff_eq, beq_iff_eq] at named
      rcases named with rfl | rfl <;> simp
    · exact absurd library Bool.false_ne_true
  all_goals simp

/-- The simple name is not known in any package. -/
theorem not_isKnownType (p : String) : isKnownType (p ++ "." ++ "SuppressWarnings") = false := by
  have others : ∀ q ∈ knownNames, ¬"SuppressWarnings".toList <:+ q.toList := by decide +kernel
  rw [← Bool.not_eq_true]
  intro known
  refine others _ (mem_knownNames known) ?_
  rw [String.toList_append]
  exact List.suffix_append _ _

variable {u : SourceUnit}

/-- The simple name is known where the type is imported by its name. -/
theorem isSuppression_simple (alone : u.Unrivalled) :
    u.isSuppression "SuppressWarnings" = true ↔ suppressWarningsName ∈ u.singleImports := by
  have split : Text.splitFirst "SuppressWarnings" = ("SuppressWarnings", "") := by
    have segment : ∀ x ∈ ["SuppressWarnings"], Text.IsSegment x :=
      List.forall_mem_singleton.mpr ⟨by decide, by decide⟩
    have single := Text.splitFirst_intercalate segment
    rwa [String.intercalate_singleton] at single
  have dotted : "." ++ "SuppressWarnings" = ".SuppressWarnings" := rfl
  have other : ("SuppressWarnings" == suppressWarningsName) = false := by decide
  have ends : suppressWarningsName.endsWith ".SuppressWarnings" = true :=
    endsWith_iff.mpr (by decide)
  rw [isSuppression, refersTo, other, Bool.false_or, beq_iff_eq, resolve, split]
  dsimp only
  rw [dotted]
  split
  · next q found =>
    have hit := List.find?_some
      (p := fun q : String => q == "SuppressWarnings" || q.endsWith ".SuppressWarnings") found
    have imported := List.mem_of_find?_eq_some found
    obtain rfl := alone.imports q imported (by rwa [Bool.or_eq_true, beq_iff_eq] at hit)
    exact ⟨fun _ => imported, fun _ => String.append_empty⟩
  · next none_ =>
    have types : (u.types.find? fun k => (u.outer? k).isNone && u.name k == "SuppressWarnings") =
        none := List.find?_eq_none.mpr fun k hk hit =>
      alone.types k hk (eq_of_beq (Bool.and_eq_true_iff.mp hit).2)
    have whole : (u.wholeImports.find? fun p => isKnownType (p ++ "." ++ "SuppressWarnings")) =
        none := List.find?_eq_none.mpr fun p _ => by rw [not_isKnownType]; exact Bool.false_ne_true
    rw [types]
    dsimp only
    rw [whole]
    refine ⟨fun same => absurd same (by decide), fun imported => absurd ?_
      (List.find?_eq_none.mp none_ _ imported)⟩
    rw [ends, Bool.or_true]

/-! ## Units that are read -/

section Read

variable {file : String} {text : List Text.Glyph} {t : Tree} {k : Key} {n : Node} {v : SourceUnit}

theorem isMods_of_read (read : Parse.unit file text = .ok t)
    (element : (ofTree t).registry.node? k = some n) (method : n.kind = .method) :
    ((ofTree t).decl k).mods.IsMods := by
  obtain ⟨c, phrase⟩ := phrase_decl_of_made (.unit read) k
  have inner : n.kind ≠ .unit := by rw [method]; exact nofun
  have suits := ((asRead_of_read read).sound.found element inner).2
  refine phrase.isMods_of_method ?_
  rw [method] at suits
  cases same : (ofTree t).decl k
  case methodDecl => rfl
  all_goals rw [same] at suits; exact suits.elim

/-- **Annotations that suppress warnings.** A method has at most one annotation that suppresses
warnings. After its body has been replaced, however often, and whatever happens in between that leaves
its annotations alone, it has exactly one, unless the one that it had is written by its simple name
and the type is not imported by its name: then it has two. -/
theorem suppressions_of_rewritten (read : Parse.unit file text = .ok t)
    (element : (ofTree t).registry.node? k = some n) (method : n.kind = .method)
    (alone : (ofTree t).Unrivalled) (few : ((ofTree t).suppressions k).length ≤ 1)
    (h : Rewritten (ofTree t).registry k (ofTree t) v) :
    (v.suppressions k).length = if (ofTree t).suppressions k = ["SuppressWarnings"] ∧
      suppressWarningsName ∉ (ofTree t).singleImports then 2 else 1 := by
  rw [h.suppressions element method (isMods_of_read read element method), List.length_append,
    addition_eq]
  generalize ofTree t = u at alone few ⊢
  cases before : u.suppressions k with
  | nil => rfl
  | cons q qs =>
    rw [before, List.length_cons] at few
    obtain rfl : qs = [] := List.eq_nil_of_length_eq_zero (by omega)
    have counted : (q == "SuppressWarnings" || u.isSuppression q) = true :=
      (List.mem_filter.mp (before ▸ List.mem_singleton_self q : q ∈ u.suppressions k)).2
    rw [List.any_cons, List.any_nil, Bool.or_false]
    by_cases known : u.isSuppression q = true
    · rw [if_pos known, if_neg]
      · rfl
      · rintro ⟨simple, absent⟩
        rw [List.head_eq_of_cons_eq simple] at known
        exact absent ((isSuppression_simple alone).mp known)
    · rw [Bool.or_eq_true, beq_iff_eq, or_iff_left known] at counted
      subst counted
      rw [if_neg known, if_pos ⟨rfl, mt (isSuppression_simple alone).mpr known⟩]
      rfl

/-- What is seen at once of a unit whose second element is a method. -/
theorem method_of_found (file : String) (text : List Text.Glyph) (names : List String) (found : ((Parse.unit file text).toOption.any fun t =>
      (ofTree t).annoNames 2 == names && ((ofTree t).importedNames.isEmpty &&
        ((ofTree t).types.all (fun j => (ofTree t).name j != "SuppressWarnings") &&
          ((ofTree t).registry.node? 2).any (·.kind == .method)))) = true) :
    ∃ t n, Parse.unit file text = .ok t ∧ (ofTree t).registry.node? 2 = some n ∧
      n.kind = .method ∧ (ofTree t).Unrivalled ∧ (ofTree t).annoNames 2 = names ∧
        suppressWarningsName ∉ (ofTree t).singleImports := by
  cases read : Parse.unit file text with
  | error e => rw [read] at found; exact nomatch found
  | ok t =>
    rw [read] at found
    obtain ⟨annos, others⟩ := Bool.and_eq_true_iff.mp found
    obtain ⟨imports, others⟩ := Bool.and_eq_true_iff.mp others
    obtain ⟨types, element⟩ := Bool.and_eq_true_iff.mp others
    have single : (ofTree t).singleImports = [] := by
      rw [singleImports, List.isEmpty_iff.mp imports]
      rfl
    obtain ⟨n, node⟩ : ∃ n, (ofTree t).registry.node? 2 = some n := by
      cases node : (ofTree t).registry.node? 2 with
      | none => rw [node] at element; exact nomatch element
      | some n => exact ⟨n, rfl⟩
    rw [node] at element
    refine ⟨t, n, rfl, node, eq_of_beq element, ⟨fun q hq => ?_, fun k hk => ?_⟩, eq_of_beq annos, ?_⟩
    · rw [single] at hq
      exact absurd hq List.not_mem_nil
    · exact bne_iff_ne.mp (List.all_eq_true.mp types k hk)
    · rw [single]
      exact List.not_mem_nil

/-- The body of a method is replaced twice, and it has one annotation afterwards. -/
theorem suppressions_of_rewritten_twice : ∃ file text t n v w,
    Parse.unit file text = .ok t ∧ (ofTree t).registry.node? 2 = some n ∧ n.kind = .method ∧
      (ofTree t).Unrivalled ∧ ((ofTree t).suppressions 2).length ≤ 1 ∧
      Rewritten (ofTree t).registry 2 (ofTree t) v ∧ Edit.replaceBody 2 [] v = (.ok (), w) ∧
        (w.suppressions 2).length = 1 := by
  obtain ⟨t, n, read, element, method, alone, names, -⟩ := method_of_found ""
    ("class T\x7bvoid m()\x7b\x7d\x7d".toList.map .char) [] (by decide +kernel)
  have none_ : (ofTree t).suppressions 2 = [] := by rw [suppressions, names]; rfl
  have few : ((ofTree t).suppressions 2).length ≤ 1 := by rw [none_]; exact Nat.zero_le 1
  obtain ⟨v, w, once, again, twice⟩ := exists_rewritten (asRead_of_read read).sound element method
    (isMods_of_read read element method)
  have one := suppressions_of_rewritten read element method alone few twice
  rw [none_, if_neg (fun h => nomatch h.1)] at one
  exact ⟨_, _, t, n, v, w, read, element, method, alone, few, once, again, one⟩

/-- With the annotation `@SuppressWarnings` and no imports, a method gets a second annotation. -/
theorem suppressions_of_simple : ∃ file text t n v,
    Parse.unit file text = .ok t ∧ (ofTree t).registry.node? 2 = some n ∧ n.kind = .method ∧
      (ofTree t).Unrivalled ∧ (ofTree t).suppressions 2 = ["SuppressWarnings"] ∧
      Rewritten (ofTree t).registry 2 (ofTree t) v ∧
        v.suppressions 2 = ["SuppressWarnings", "java.lang.SuppressWarnings"] := by
  obtain ⟨t, n, read, element, method, alone, names, absent⟩ := method_of_found ""
    ("class T\x7b@SuppressWarnings void m()\x7b\x7d\x7d".toList.map .char) ["SuppressWarnings"]
    (by decide +kernel)
  have simple : (ofTree t).suppressions 2 = ["SuppressWarnings"] := by
    rw [suppressions, names]
    rfl
  have mods := isMods_of_read read element method
  obtain ⟨v, -, once, -, -⟩ :=
    exists_rewritten (asRead_of_read read).sound element method mods
  refine ⟨_, _, t, n, v, read, element, method, alone, simple, once, ?_⟩
  have unknown := mt (isSuppression_simple alone).mp absent
  rw [once.suppressions element method mods, addition_eq, simple, List.any_cons, List.any_nil,
    Bool.or_false, if_neg unknown]
  rfl

end Read

end SourceUnit

end Weaver
