import Weaver.Proofs.Code.Lowered
import Weaver.Proofs.Code.Relocated
import Weaver.Proofs.Syntax.Proper
/-!
Lowering restores what was lifted.

Each part of a statement that is lifted and lowered again comes back in the form that
`Code.normalStmt` says, relocated as `Relocation.applyStmt` says, up to marks. The proofs follow the
recursion of lifting; that nothing is missing where lowering needs it comes from the trees being
proper, and that names come back as they were meant from the relocation being well named.
-/
set_option autoImplicit false

namespace Weaver.Code

open Weaver.Syntax (Tree Mark Flags TypeTag)
open Weaver.Syntax.Tree

/-- Lowering succeeds with a tree, up to marks. -/
def Restores (x : Except Abort Tree) (t : Tree) : Prop :=
  ∃ t', x = .ok t' ∧ t'.shape true = t.shape true

/-- Lowering succeeds with the trees of a list, up to marks. -/
def RestoresAll (x : Except Abort (List Tree)) (ts : List Tree) : Prop :=
  ∃ ts', x = .ok ts' ∧ shapeAll true ts' = shapeAll true ts

variable {r : Relocation} {s : Scope} {t e : Tree} {ts as : List Tree}

theorem restoresAll_map {p : Place} {f : Tree → Code} {g : Tree → Tree}
    (h : ∀ t ∈ ts, Restores ((f t).lower s p) (g t)) :
    RestoresAll (lowerAll s p (ts.map f)) (ts.map g) := by
  induction ts with
  | nil => exact ⟨[], rfl, rfl⟩
  | cons t ts ih =>
    obtain ⟨t', here, same⟩ := h t List.mem_cons_self
    obtain ⟨ts', others, sames⟩ := ih fun t ht => h t (List.mem_cons_of_mem _ ht)
    refine ⟨t' :: ts', lowerAll_cons here others, ?_⟩
    rw [List.map_cons, shapeAll, shapeAll, same, sames]

/-! ## Expressions -/

theorem lower_hostExpr (e : Tree) : (hostExpr e).lower s .value = .ok e := by
  change Except.ok (if isHostStatement e then e else e) = _
  rw [ite_self]

theorem restores_expr (r : Relocation) (e : Tree) :
    Restores ((liftExpr r e).lower s .value) (r.apply (normalExpr e)) := by
  by_cases constant : ∃ m b, e.unparen = .literal m (.boolean b)
  · obtain ⟨m, b, same⟩ := constant
    rw [liftExpr, normalExpr, same]
    exact ⟨_, rfl, rfl⟩
  · have lifted : liftExpr r e = hostExpr (r.apply e) := by
      unfold liftExpr
      split
      · next m b same => exact absurd ⟨m, b, same⟩ constant
      · rfl
    have normal : normalExpr e = e := by
      unfold normalExpr
      split
      · next m b same => exact absurd ⟨m, b, same⟩ constant
      · rfl
    rw [lifted, normal]
    exact ⟨r.apply e, lower_hostExpr _, rfl⟩

theorem restoresAll_exprs (r : Relocation) (es : List Tree) :
    RestoresAll (lowerAll s .value (es.map (liftExpr r))) (r.applyAll (es.map normalExpr)) := by
  rw [Relocation.applyAll_eq_map, List.map_map]
  exact restoresAll_map fun e _ => restores_expr r e

theorem lowerAll_hostExpr (es : List Tree) : lowerAll s .value (es.map hostExpr) = .ok es := by
  induction es with
  | nil => rfl
  | cons e es ih => exact lowerAll_cons (lower_hostExpr e) ih

/-! ## Types -/

/-- A type as code that can be lowered: a tree, or a name with arguments that can be lowered. -/
inductive Lowerable (s : Scope) : Code → Prop where
  | host (t : Tree) : Lowerable s (hostType t)
  | named {n : String} {args : List Code} {ts : List Tree} (d : Int) (nonempty : n ≠ "")
      (lowered : lowerAll s .value args = .ok ts) : Lowerable s (typeRef n args d)

theorem lowerable_type {n : String} (nonempty : n ≠ "") : Lowerable s (type n) :=
  .named 0 nonempty rfl

theorem Lowerable.lower {c : Code} (h : Lowerable s c) (p : Place) :
    ∃ t, c.lower s p = .ok t := by
  cases h with
  | host t => exact ⟨t, rfl⟩
  | @named n args ts d nonempty lowered =>
    rw [lower_typeRef, lowered]
    cases TypeTag.ofKeyword? n with
    | some tag => exact ⟨_, rfl⟩
    | none =>
      have some_ : n.isEmpty = false := by
        rw [← Bool.not_eq_true, String.isEmpty_iff]
        exact nonempty
      rw [dotted, some_]
      exact ⟨_, rfl⟩

theorem lowerable_bracketed {c : Code} (h : Lowerable s c) (whole : Tree) :
    Lowerable s (bracketed whole c) := by
  cases h with
  | host t => exact .host whole
  | named d nonempty lowered => exact .named (d + 1) nonempty lowered

theorem lowerable_applied {c : Code} {args : List Code} {ts : List Tree} (h : Lowerable s c)
    (whole : Tree) (lowered : lowerAll s .value args = .ok ts) :
    Lowerable s (applied whole args c) := by
  cases h with
  | host t => exact .host whole
  | @named n args' ts d nonempty =>
    cases args' with
    | nil => exact .named d nonempty lowered
    | cons => exact .host whole

theorem tagName_nonempty (tag : TypeTag) : tag.name ≠ "" := by
  cases tag <;> decide

/-- The type of a dotted name can be lowered. -/
theorem lowerable_qualified {q : String} (proper : t.Proper) (named : t.qualifiedName? = some q) :
    Lowerable s (type q) := by
  obtain ⟨n, ns, segments, rfl, -⟩ := exists_segments named proper.segmented
  refine lowerable_type fun empty => ?_
  have some_ := (intercalate_plain segments).1
  rw [empty] at some_
  exact Bool.noConfusion some_

/-- Types that are lifted can be lowered, and so can type arguments. -/
theorem lowerable_liftType : (∀ t, t.Proper → Lowerable s (liftType t)) ∧
    (∀ ts, ProperAll ts → ∃ ts', lowerAll s .value (liftTypeArgs ts) = .ok ts') ∧
      ∀ t, t.Proper → ∃ t', (liftTypeArg t).lower s .value = .ok t' := by
  refine liftType.mutual_induct (fun t => t.Proper → Lowerable s (liftType t))
    (fun ts => ProperAll ts → ∃ ts', lowerAll s .value (liftTypeArgs ts) = .ok ts')
    (fun t => t.Proper → ∃ t', (liftTypeArg t).lower s .value = .ok t')
    ?primitive ?ident ?noIdent ?select ?noSelect ?applied ?array ?other ?nil ?cons ?unbounded
    ?bounded ?argument
  case primitive =>
    intro m tag _
    rw [liftType]
    exact lowerable_type (tagName_nonempty tag)
  case ident =>
    intro m n q named proper
    rw [liftType, named]
    exact lowerable_qualified proper named
  case select =>
    intro m q' n q named proper
    rw [liftType, named]
    exact lowerable_qualified proper named
  case noIdent => exact fun m n unnamed => absurd unnamed (by simp [qualifiedName?])
  case noSelect =>
    intro m q n unnamed _
    rw [liftType, unnamed]
    exact .host _
  case applied =>
    intro m c as args type proper
    obtain ⟨ts, lowered⟩ := args proper.2
    rw [liftType]
    exact lowerable_applied (type proper.1) _ lowered
  case array =>
    intro m e elem proper
    rw [liftType]
    exact lowerable_bracketed (elem proper) _
  case other =>
    intro t h₁ h₂ h₃ h₄ h₅ _
    rw [liftType.eq_6 t h₁ h₂ h₃ h₄ h₅]
    exact .host t
  case nil =>
    rw [liftTypeArgs]
    exact fun _ => ⟨[], rfl⟩
  case cons =>
    intro t ts here others proper
    obtain ⟨t', lowered⟩ := here proper.1
    obtain ⟨ts', lowered'⟩ := others proper.2
    rw [liftTypeArgs]
    exact ⟨t' :: ts', lowerAll_cons lowered lowered'⟩
  case unbounded =>
    intro m t _
    rw [liftTypeArg]
    exact ⟨_, rfl⟩
  case bounded =>
    intro m t b bounded type proper
    obtain ⟨t', lowered⟩ := (type proper).lower .part
    refine ⟨.wildcard s.mark b t', ?_⟩
    rw [liftTypeArg.eq_2 m b t bounded]
    cases b with
    | unbounded => exact absurd rfl bounded
    | extending | above =>
      change (do return Tree.wildcard s.mark _ (← (liftType t).lower s .part)) = _
      rw [lowered]
      rfl
  case argument =>
    intro t other type proper
    rw [liftTypeArg.eq_3 t other]
    exact (type proper).lower .value

theorem restores_type (proper : t.Proper) :
    Restores ((liftType t).lower s .part) (normalType s t) := by
  obtain ⟨t', lowered⟩ := (lowerable_liftType.1 t proper).lower .part
  refine ⟨t', lowered, ?_⟩
  rw [normalType, lowered]

/-! ## Annotations and variables -/

/-- The name of an annotation's argument, if it has one, and its value. -/
def splitArgument : Tree → String × Tree
  | .assign _ (.ident _ n) v => (n, v)
  | a => ("", a)

/-- Names and values make up the arguments again. -/
theorem shape_namedValues (m : Mark) (proper : ProperAll as) :
    shapeAll true (namedValues m (as.map fun a => (splitArgument a).1)
      (as.map fun a => (splitArgument a).2)) = shapeAll true as := by
  induction as with
  | nil => rfl
  | cons a as ih =>
    have others := ih proper.2
    rw [namedValues, List.map_cons, List.map_cons, List.zipWith_cons_cons, shapeAll, shapeAll]
    refine congr (congrArg List.cons ?_) others
    unfold splitArgument
    split
    · next m' m'' n v =>
      have some_ : n.isEmpty = false := by
        rw [← Bool.not_eq_true, String.isEmpty_iff]
        exact proper.1.1.nonempty
      rw [some_]
      rfl
    · rfl

theorem restores_anno (anno : t.IsAnno) (proper : t.Proper) :
    Restores ((liftAnno t).lower s .part) (normalAnno s t) := by
  obtain ⟨m, ty, as, rfl⟩ := anno
  obtain ⟨ty', type, same⟩ := restores_type (s := s) proper.1
  refine ⟨.annoUse s.mark ty' (namedValues s.mark (as.map fun a => (splitArgument a).1)
    (as.map fun a => (splitArgument a).2)), ?_, ?_⟩
  · have values := lowerAll_hostExpr (s := s) (as.map fun a => (splitArgument a).2)
    rw [List.map_map] at values
    change (do
      let vs ← lowerAll s .value (as.map (hostExpr ∘ fun a => (splitArgument a).2))
      return Tree.annoUse s.mark (← (liftType ty).lower s .part) (namedValues s.mark _ vs)) = _
    rw [values, type]
    rfl
  · rw [normalAnno, shape, shape, same, shape_namedValues s.mark proper.2]

theorem restoresAll_annos (annos : ∀ a ∈ as, a.IsAnno) (proper : ProperAll as) :
    RestoresAll (lowerAll s .part (as.map liftAnno)) (as.map (normalAnno s)) :=
  restoresAll_map fun a ha => restores_anno (annos a ha) (properAll_iff.mp proper a ha)

/-- An optional part is missing before and after, or lowering restores it. -/
def RestoresOptional (s : Scope) (p : Place) (c : Code) (t : Tree) : Prop :=
  c = missing ∧ t = .missing ∨ c ≠ missing ∧ Restores (c.lower s p) t

/-- Lowers an optional part and goes on with what it becomes. -/
def lowerThen (s : Scope) (p : Place) (rest : Tree → Except Abort Tree) : Code → Except Abort Tree
  | missing => rest .missing
  | c => c.lower s p >>= rest

theorem RestoresOptional.lowerThen {p : Place} {c : Code} (h : RestoresOptional s p c t)
    (rest : Tree → Except Abort Tree) :
    ∃ t', t'.shape true = t.shape true ∧ lowerThen s p rest c = rest t' := by
  rcases h with ⟨rfl, rfl⟩ | ⟨some_, t', lowered, same⟩
  · exact ⟨.missing, rfl, rfl⟩
  · refine ⟨t', same, ?_⟩
    rw [lowerThen.eq_2 s p rest c some_, lowered]
    rfl

theorem liftExpr_ne_missing (r : Relocation) (e : Tree) : liftExpr r e ≠ missing := by
  rw [liftExpr]
  split <;> simp

/-- The value of a variable, if it has one. -/
theorem restores_init (r : Relocation) {i : Tree} (proper : i.Proper) :
    RestoresOptional s .value (liftInit r i) (r.apply (normalInit i)) := by
  unfold liftInit
  split
  · exact .inl ⟨rfl, rfl⟩
  · next _ m ds es =>
    obtain ⟨es', elements, same⟩ := restoresAll_exprs (s := s) r es
    refine .inr ⟨by simp, .newArray s.mark .missing [] true es', ?_, ?_⟩
    · change (do
        let es ← lowerAll s .value (es.map (liftExpr r))
        return Tree.newArray s.mark .missing [] true es) = _
      rw [elements]
      rfl
    · rw [proper.1 rfl]
      simp only [normalInit, Relocation.apply, Relocation.applyAll, shape, same]
  · next _ _ other =>
    refine .inr ⟨liftExpr_ne_missing _ i, ?_⟩
    rw [normalInit.eq_2 i other]
    exact restores_expr r i

theorem lower_localDecl (p : Place) (ty : Code) (n : String) (ms : Flags) (as : List Code)
    (i : Code) : (localDecl ty n ms as i).lower s p = lowerThen s .value (fun i => do
      let as ← lowerAll s .part as
      return .varDecl s.mark n (.modifiers s.mark ms as) (← ty.lower s .part) i) i := by
  cases i <;> rfl

theorem restores_local (r : Relocation) {m : Mark} {n : String} {ms ty i : Tree}
    (proper : (Tree.varDecl m n ms ty i).Proper) (p : Place) :
    Restores ((liftLocal r (.varDecl m n ms ty i)).lower s p)
      (r.applyVar (normalVar s (.varDecl m n ms ty i))) := by
  obtain ⟨⟨m', f, as, rfl⟩, annos, type, init⟩ := proper
  obtain ⟨ty', type, same⟩ := restores_type (s := s) type
  obtain ⟨as', annos, sames⟩ := restoresAll_annos (s := s) annos.1 annos.2
  rw [liftLocal, lower_localDecl]
  obtain ⟨i', same', lowered⟩ := (restores_init (s := s) r init).lowerThen _
  rw [lowered]
  refine ⟨.varDecl s.mark n (.modifiers s.mark f.forCode as') ty' i', ?_, ?_⟩
  · change (do
      let as ← lowerAll s .part (as.map liftAnno)
      return Tree.varDecl s.mark n (.modifiers s.mark f.forCode as) (← (liftType ty).lower s .part)
        i') = _
    rw [annos, type]
    rfl
  · simp only [normalVar, Relocation.applyVar, normalMods, shape, same, sames, same']

/-- The variable of a `catch` clause. -/
theorem restores_param (param : t.IsParam) (proper : t.Proper) :
    Restores ((liftParam t).lower s .part) (normalVar s t) := by
  obtain ⟨m, n, ms, ty, rfl⟩ := param
  obtain ⟨⟨m', f, as, rfl⟩, annos, type, -⟩ := proper
  obtain ⟨ty', type, same⟩ := restores_type (s := s) type
  obtain ⟨as', annos, sames⟩ := restoresAll_annos (s := s) annos.1 annos.2
  refine ⟨.varDecl s.mark n (.modifiers s.mark f.forCode as') ty' .missing, ?_, ?_⟩
  · change (do
      let as ← lowerAll s .part (as.map liftAnno)
      return Tree.varDecl s.mark n (.modifiers s.mark f.forCode as) (← (liftType ty).lower s .part)
        .missing) = _
    rw [annos, type]
    rfl
  · simp only [normalVar, normalMods, shape, same, sames]
    rfl

/-! ## Expression statements -/

/-- A dotted name is restored. -/
theorem restores_named {q : String} (proper : t.Proper) (unapplied : t.Unapplied)
    (named_ : t.qualifiedName? = some q) : Restores ((named q).lower s .value) t := by
  obtain ⟨n, ns, segments, rfl, chain⟩ := exists_segments named_ proper.segmented
  obtain ⟨some_, dotless⟩ := intercalate_plain segments
  refine ⟨ofDotted s.mark (".".intercalate (n :: ns)), ?_, chain unapplied s.mark⟩
  change dotted s.mark _ = _
  rw [dotted, some_, dotless]
  rfl

/-- A name that is made of segments becomes the chain of its segments. -/
theorem dotted_segments {n : String} {ns : List String} (m : Mark)
    (h : ∀ x ∈ n :: ns, Text.IsSegment x) : dotted m (".".intercalate (n :: ns)) =
      .ok (ns.foldl (fun e x => .select m e x) (.ident m n)) := by
  obtain ⟨some_, dotless⟩ := intercalate_plain h
  rw [dotted, some_, dotless]
  exact congrArg Except.ok (ofDotted_intercalate m h)

theorem dotted_segment {n : String} (m : Mark) (h : Text.IsSegment n) :
    dotted m n = .ok (.ident m n) := by
  have single := dotted_segments m (List.forall_mem_singleton.mpr h)
  rwa [String.intercalate_singleton] at single

/-- Names are no constants. -/
theorem normalExpr_named (named_ : t.qualifiedName?.isSome) : normalExpr t = t := by
  cases t
  case ident | select | typeApply => rfl
  all_goals exact absurd named_ Bool.false_ne_true

/-- The type with a name that is no keyword. -/
theorem lower_type_of_dotted {q : String} {e : Tree} (tag : TypeTag.ofKeyword? q = none)
    (chain : dotted s.mark q = .ok e) (p : Place) : (type q).lower s p = .ok e := by
  rw [type, lower_typeRef, tag]
  dsimp only
  rw [chain]
  rfl

theorem lower_type {c : String} (h : Relocation.IsClassName c) (p : Place) :
    (type c).lower s p = .ok (.ident s.mark c) :=
  lower_type_of_dotted h.tag (dotted_segment s.mark h.segment) p

/-- The object that code runs on. -/
theorem restores_this (h : r.WellNamed) (m : Mark) :
    Restores ((liftThis r).lower s .value) (r.ident m "this") := by
  unfold liftThis Relocation.ident
  rw [h.this]
  cases moved : r.outer with
  | none => exact ⟨.ident s.mark "this", rfl, rfl⟩
  | some c =>
    refine ⟨.select s.mark (.ident s.mark c) "this", ?_, rfl⟩
    change (do return Tree.select s.mark (← (type c).lower s .part) "this") = _
    rw [lower_type (h.outer c moved)]
    rfl

/-- A chain of selections comes back with its first name renamed, unless that is `this`. -/
theorem restores_renamed (h : r.WellNamed) {q : String} (proper : t.Proper)
    (unapplied : t.Unapplied) (named_ : t.qualifiedName? = some q)
    (other : ∀ m, t ≠ .ident m "this") (longer : q.startsWith "this." = false) :
    Restores ((named (renameFirst r q)).lower s .value) (r.apply t) := by
  obtain ⟨n, ns, segments, rfl, chain⟩ := exists_segments named_ proper.segmented
  have first : n ≠ "this" := by
    rintro rfl
    cases ns with
    | nil =>
      have single := chain unapplied s.mark
      rw [ofDotted_intercalate s.mark segments] at single
      cases t
      case ident m' n' =>
        injection single with _ same
        exact other m' (by rw [same])
      all_goals exact Tree.noConfusion single
    | cons x xs =>
      rw [String.intercalate_cons_cons, ← Bool.not_eq_true, String.startsWith_string_iff] at longer
      refine longer ?_
      rw [String.toList_append]
      exact List.prefix_append _ _
  have renamed : renameFirst r (".".intercalate (n :: ns)) =
      ".".intercalate (r.rename n :: ns) := by
    rw [renameFirst, Text.splitFirst_intercalate segments, Text.intercalate_cons]
  have segments' : ∀ x ∈ r.rename n :: ns, Text.IsSegment x :=
    List.forall_mem_cons.mpr ⟨h.rename (segments n List.mem_cons_self),
      fun x member => segments x (List.mem_cons_of_mem _ member)⟩
  obtain ⟨some_, dotless⟩ := intercalate_plain segments'
  rw [renamed]
  refine ⟨ofDotted s.mark (".".intercalate (r.rename n :: ns)), ?_, ?_⟩
  · change dotted s.mark _ = _
    rw [dotted, some_, dotless]
    rfl
  · -- the chain is relocated as the chain of its name is
    rw [← Relocation.apply_shape.1 r t, ← chain unapplied s.mark, Relocation.apply_shape.1,
      ofDotted_intercalate s.mark segments, ofDotted_intercalate s.mark segments',
      Relocation.apply_chain, Relocation.apply, Relocation.ident_of_ne first]

/-- The object that a method is called on. -/
theorem restores_receiver (h : r.WellNamed) (proper : t.Proper) (unapplied : t.Unapplied) :
    Restores ((liftReceiver r t).lower s .value) (r.apply (normalExpr t)) := by
  unfold liftReceiver
  split
  · next m => exact restores_this h m
  · exact restores_expr r _
  · next other _ =>
    split
    · next q named_ =>
      split
      · exact restores_expr r t
      · next plain =>
        rw [Bool.or_eq_true, not_or, Bool.not_eq_true] at plain
        rw [normalExpr_named (by rw [named_]; rfl)]
        exact restores_renamed h proper unapplied named_ other plain.1
    · exact restores_expr r t

/-- The left side of an assignment. -/
theorem restores_target (h : r.WellNamed) (proper : t.Proper) :
    Restores ((liftTarget r t).lower s .value) (r.apply (normalExpr t)) := by
  unfold liftTarget
  split
  · next m n =>
    split
    · exact restores_expr r _
    · next plain =>
      have other : n ≠ "this" := by
        rintro rfl
        exact plain rfl
      refine ⟨.ident s.mark (r.rename n), dotted_segment s.mark (h.rename proper), ?_⟩
      change _ = shape true (r.ident m n)
      rw [Relocation.ident_of_ne other]
      rfl
  · next m m' n =>
    obtain ⟨o, lowered, same⟩ := restores_this (s := s) h m'
    refine ⟨.select s.mark o n, ?_, ?_⟩
    · change (do return Tree.select s.mark (← (liftThis r).lower s .value) n) = _
      rw [lowered]
      rfl
    · change _ = shape true (.select m (r.ident m' "this") n)
      rw [shape, shape, same]
  · exact restores_expr r _

/-- The arguments of a call and its types. -/
theorem restoresAll_types (proper : ProperAll ts) :
    RestoresAll (lowerAll s .part (ts.map liftType)) (ts.map (normalType s)) :=
  restoresAll_map fun t ht => restores_type (properAll_iff.mp proper t ht)

theorem liftThis_ne_missing (r : Relocation) : liftThis r ≠ missing := by
  unfold liftThis
  split <;> exact Code.noConfusion

theorem liftReceiver_ne_missing (r : Relocation) (e : Tree) : liftReceiver r e ≠ missing := by
  unfold liftReceiver
  split
  · exact liftThis_ne_missing r
  · exact liftExpr_ne_missing r _
  · split
    · split
      · exact liftExpr_ne_missing r _
      · exact Code.noConfusion
    · exact liftExpr_ne_missing r _

theorem lower_callOn {r : Code} (some_ : r ≠ missing) (p : Place) (n : String) (ts as : List Code) :
    (call r n ts as).lower s p = (do
      let q ← r.lower s .value
      let ts ← lowerAll s .part ts
      let as ← lowerAll s .value as
      return asStatement s.mark p (.call s.mark ts (.select s.mark q n) as)) := by
  cases r
  case missing => exact absurd rfl some_
  all_goals rfl

/-- A call of what has a name. -/
theorem restores_call (h : r.WellNamed) {m m' : Mark} {c : Tree} {lifted : Code}
    (proper : (Tree.call m' ts c as).Proper)
    (called : liftCall? r (.call m' ts c as) = some lifted) :
    Restores (lifted.lower s .statement) (.exec m (r.applyExec (normalExec s (.call m' ts c as)))) := by
  obtain ⟨unapplied, types, callee, -⟩ := proper
  obtain ⟨ts', types, same⟩ := restoresAll_types (s := s) types
  obtain ⟨as', values, same'⟩ := restoresAll_exprs (s := s) r as
  unfold liftCall? at called
  split at called
  · next _ ts _ n as whole =>
    cases whole
    rw [← Option.some.inj called]
    refine ⟨.exec s.mark (.call s.mark ts' (.ident s.mark n) as'), ?_, ?_⟩
    · change (do
        let ts ← lowerAll s .part (ts.map liftType)
        let as ← lowerAll s .value (as.map (liftExpr r))
        return Tree.exec s.mark (.call s.mark ts (.ident s.mark n) as)) = _
      rw [types, values]
      rfl
    · simp only [normalExec, Relocation.applyExec, shape, same, same']
  · next _ ts _ q n as whole =>
    cases whole
    rw [← Option.some.inj called, lower_callOn (liftReceiver_ne_missing _ q)]
    obtain ⟨q', object, same''⟩ := restores_receiver (s := s) h callee.2 unapplied
    refine ⟨.exec s.mark (.call s.mark ts' (.select s.mark q' n) as'), ?_, ?_⟩
    · rw [object, types, values]
      rfl
    · simp only [normalExec, Relocation.applyExec, shape, same, same', same'']
  · cases called

theorem restores_exec (h : r.WellNamed) {m : Mark} (proper : e.Proper) :
    Restores ((liftExec r (.exec m e) e).lower s .statement)
      (.exec m (r.applyExec (normalExec s e))) := by
  unfold liftExec
  split
  · next m' a b =>
    obtain ⟨a', left, same⟩ := restores_target (s := s) h proper.1
    obtain ⟨b', right, same'⟩ := restores_expr (s := s) r b
    refine ⟨.exec s.mark (.assign s.mark a' b'), ?_, ?_⟩
    · change (do
        return asStatement s.mark .statement (.assign s.mark
          (← (liftTarget r a).lower s .value) (← (liftExpr r b).lower s .value))) = _
      rw [left, right]
      rfl
    · simp only [normalExec, Relocation.applyExec, Relocation.apply, shape, same, same']
  · next m' ts c as =>
    cases called : liftCall? r (.call m' ts c as) with
    | some lifted => exact restores_call h proper called
    | none =>
      refine ⟨.exec m (r.apply (.call m' ts c as)), rfl, ?_⟩
      cases c
      case ident | select => cases called
      all_goals rfl
  · next assigns calls =>
    have calls' : ∀ m ts c as, e ≠ .call m ts c as := calls
    rw [normalExec.eq_4 s e assigns (fun _ _ _ _ _ => calls' _ _ _ _)
      (fun _ _ _ _ _ _ => calls' _ _ _ _), Relocation.applyExec.eq_3 r e
      (fun _ _ _ _ _ => calls' _ _ _ _) (fun _ _ _ _ _ _ => calls' _ _ _ _)]
    exact ⟨_, rfl, rfl⟩

end Weaver.Code
