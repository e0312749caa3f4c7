import Weaver.Handler.Builder
import Weaver.Proofs.SourceUnit.Proper
import Weaver.Proofs.Syntax.Traversal
/-!
Which assignments a builder's extension is known by.

An extension of a builder belongs to an interface by the fields that its body assigns
(`Handler.extendedBy`). The body is lifted first, and in lifted code an expression is one piece. What
is seen are the assignments that stand as statements (`settledIn`), not those inside expressions
(`assignedIn`): a method that sets a field only there is taken for one that does not set it.
-/
set_option autoImplicit false

namespace Weaver

open Weaver.Syntax (Tree)
open Weaver.Syntax.Tree

/-! ## Assignments in trees -/

namespace Syntax.Tree

/-- The name that an assignment assigns to, alone or as a field of the object itself. -/
def assigned? : Tree → Option String
  | assign _ (ident _ n) _ => if n == "this" || n == "super" then none else some n
  | assign _ (select _ (ident _ "this") n) _ => some n
  | _ => none

/-- The name that an expression statement assigns to. -/
def settled? : Tree → Option String
  | exec _ e => e.assigned?
  | _ => none

/-- What stands inside is no part of the code around it: a class or an annotation. -/
def isEnclosed : Tree → Bool
  | classDecl .. | annoUse .. => true
  | _ => false

/-- What is found at the nodes of a tree. -/
def collected (f : Tree → Option String) (t : Tree) : List String :=
  (visit isEnclosed t).filterMap f

/-- The names that a tree assigns to, wherever an assignment stands in it. -/
def assignedIn (t : Tree) : List String := collected assigned? t

/-- The names that the statements of a tree assign to. -/
def settledIn (t : Tree) : List String := collected settled? t

/-- The names that trees assign to, wherever an assignment stands in them. -/
def assignedInAll (ts : List Tree) : List String := ts.flatMap assignedIn

/-- The names that the statements of trees assign to. -/
def settledInAll (ts : List Tree) : List String := ts.flatMap settledIn

/-- What is found in a node, by its parts. -/
theorem collected_eq (f : Tree → Option String) {t : Tree} (there : t ≠ missing) :
    collected f t =
      (f t).toList ++ if isEnclosed t then [] else t.places.flatMap (collected f) := by
  have below : (t.children.flatMap (visit isEnclosed)).filterMap f =
      t.places.flatMap (collected f) := by
    rw [children, flatMap_visit_filter, List.filterMap_flatMap]
    rfl
  rw [collected, visit_eq isEnclosed there, andBelow, List.filterMap_cons]
  cases f t <;> cases isEnclosed t <;> simp [below]

theorem sizeOf_places {t p : Tree} (part : p ∈ t.places) : sizeOf p < sizeOf t := by
  have listed : ∀ ts : List Tree, p ∈ ts → sizeOf p < sizeOf ts := fun _ => List.sizeOf_lt_of_mem
  cases t <;> grind [places]

theorem mem_assignedIn {t : Tree} {n : String} (assigns : assigned? t = some n) :
    n ∈ assignedIn t := by
  have there : t ≠ missing := fun none => by simp [none, assigned?] at assigns
  rw [assignedIn, collected_eq _ there, assigns]
  exact List.mem_append_left _ (List.mem_singleton.mpr rfl)

/-- The assignment of a statement stands below it. -/
theorem mem_places_of_settled {t : Tree} {n : String} (settles : settled? t = some n) :
    isEnclosed t = false ∧ n ∈ t.places.flatMap assignedIn := by
  cases t
  case exec m e =>
    exact ⟨rfl, List.mem_flatMap.mpr ⟨e, List.mem_singleton.mpr rfl, mem_assignedIn settles⟩⟩
  all_goals exact nomatch settles

/-- What a statement settles is assigned. -/
theorem settledIn_subset (t : Tree) : settledIn t ⊆ assignedIn t := by
  have parts : ∀ p ∈ t.places, settledIn p ⊆ assignedIn p := fun p _ => settledIn_subset p
  by_cases there : t = missing
  · rw [there]
    exact List.nil_subset _
  intro n hn
  rw [settledIn, collected_eq _ there, List.mem_append, Option.mem_toList] at hn
  rw [assignedIn, collected_eq _ there]
  refine List.mem_append_right _ ?_
  obtain settles | below := hn
  · obtain ⟨open_, assigns⟩ := mem_places_of_settled settles
    rwa [open_]
  · split
    · next enclosed =>
      rw [if_pos enclosed] at below
      exact below
    · next open_ =>
      rw [if_neg open_] at below
      obtain ⟨p, hp, here⟩ := List.mem_flatMap.mp below
      exact List.mem_flatMap.mpr ⟨p, hp, parts p hp here⟩
termination_by sizeOf t
decreasing_by exact sizeOf_places ‹_›

theorem settledInAll_subset (ts : List Tree) : settledInAll ts ⊆ assignedInAll ts := by
  intro n hn
  obtain ⟨t, ht, here⟩ := List.mem_flatMap.mp hn
  exact List.mem_flatMap.mpr ⟨t, ht, settledIn_subset t here⟩

/-- What the statements of a node settle, by its parts. -/
theorem settledIn_eq {t : Tree} (there : t ≠ missing) :
    settledIn t = (settled? t).toList ++ if isEnclosed t then [] else settledInAll t.places :=
  collected_eq settled? there

theorem settledIn_quiet {t : Tree} (quiet : settled? t = none)
    (parts : ∀ p ∈ t.places, settledIn p = []) : settledIn t = [] := by
  by_cases there : t = missing
  · rw [there]
    rfl
  · rw [settledIn_eq there, quiet, Option.toList_none, List.nil_append]
    split
    · rfl
    · exact List.flatMap_eq_nil_iff.mpr parts

theorem TypeForm.settledIn {k : TypeRank} {t : Tree} (form : TypeForm k t) : settledIn t = [] := by
  induction form with
  | ident | primitive => rfl
  | plain _ ih | reference _ ih | argument _ ih => exact ih
  | select _ _ ih | array _ ih | bounded _ _ ih =>
    exact settledIn_quiet rfl (List.forall_mem_singleton.mpr ih)
  | applied _ _ ih ihs => exact settledIn_quiet rfl (List.forall_mem_cons.mpr ⟨ih, ihs⟩)
  | unbounded => exact settledIn_quiet rfl (List.forall_mem_singleton.mpr rfl)

end Syntax.Tree

/-! ## Assignments in code -/

namespace Code

theorem visitAll_eq (stop : Code → Bool) (cs : List Code) :
    visitAll stop cs = cs.flatMap (visit stop) := by
  induction cs with
  | nil => rfl
  | cons c cs ih => rw [visitAll, ih, List.flatMap_cons]

/-- Empty places count for nothing where nothing is collected from them. -/
theorem flatMap_present {α : Type} {f : Code → List α} (empty : f missing = []) (cs : List Code) :
    (cs.filter (!·.isMissing)).flatMap f = cs.flatMap f := by
  induction cs with
  | nil => rfl
  | cons c cs ih =>
    rw [List.filter_cons, List.flatMap_cons, ← ih]
    cases c
    case missing => exact (congrArg (· ++ _) empty).symm
    all_goals rfl

attribute [local simp] visit children

/-- What is visited of a piece of code, by its parts. -/
theorem visit_eq (stop : Code → Bool) {c : Code} (there : c ≠ missing) :
    c.visit stop = andBelow stop c (c.children.flatMap (visit stop)) := by
  cases c with
  | missing => exact absurd rfl there
  | hostType | named | bool | char | number | text | null | hostExpr | returnDefault | breaking
  | continuing | hostStmt | hostMethod => simp [andBelow]
  | _ =>
    rw [children, flatMap_present rfl]
    simp [visitAll_eq, andBelow]

/-- A declaration of a class. -/
def isClassDecl : Code → Bool
  | classDecl .. => true
  | _ => false

theorem kind_classDecl (c : Code) : (c.kind == "ClassDecl") = c.isClassDecl := by
  cases c <;> rfl

end Code

namespace Handler

/-- The names that a piece of code assigns to, classes in it left out. -/
def seenIn (c : Code) : List String := (c.visit Code.isClassDecl).filterMap assignedName?

theorem assignedNames_eq (cs : List Code) : assignedNames cs = cs.flatMap seenIn := by
  unfold assignedNames seenIn
  simp only [Code.kind_classDecl]

@[simp] theorem assignedNames_nil : assignedNames [] = [] := rfl

@[simp] theorem assignedNames_cons (c : Code) (cs : List Code) :
    assignedNames (c :: cs) = seenIn c ++ assignedNames cs := by
  rw [assignedNames_eq, assignedNames_eq, List.flatMap_cons]

@[simp] theorem assignedNames_append (cs ds : List Code) :
    assignedNames (cs ++ ds) = assignedNames cs ++ assignedNames ds := List.flatMap_append

/-- What a piece of code assigns, by its parts. -/
theorem seenIn_eq {c : Code} (there : c ≠ .missing) :
    seenIn c =
      (assignedName? c).toList ++ if c.isClassDecl then [] else assignedNames c.children := by
  have below : (c.children.flatMap (Code.visit Code.isClassDecl)).filterMap assignedName? =
      assignedNames c.children := by
    rw [List.filterMap_flatMap, assignedNames_eq]
    rfl
  rw [seenIn, Code.visit_eq _ there, Code.andBelow, List.filterMap_cons]
  cases assignedName? c <;> cases c.isClassDecl <;> simp [below]

theorem assignedNames_present (cs : List Code) :
    assignedNames (cs.filter (!·.isMissing)) = assignedNames cs := by
  rw [assignedNames_eq, Code.flatMap_present rfl, assignedNames_eq]

theorem assignedNames_eq_nil {cs : List Code} : assignedNames cs = [] ↔ ∀ c ∈ cs, seenIn c = [] := by
  rw [assignedNames_eq, List.flatMap_eq_nil_iff]

@[simp] theorem seenIn_missing : seenIn .missing = [] := rfl

section Lifted

attribute [local simp] seenIn_eq Code.children assignedName? assignedNames_present Code.isClassDecl

theorem seenIn_bracketed {c : Code} (t : Tree) (type : seenIn c = []) :
    seenIn (Code.bracketed t c) = [] := by
  unfold Code.bracketed
  split
  · simpa using type
  · simp

theorem seenIn_applied {c : Code} {args : List Code} (t : Tree) (given : assignedNames args = []) :
    seenIn (Code.applied t args c) = [] := by
  unfold Code.applied
  split <;> simp [given]

/-- Types assign nothing. -/
theorem seenIn_liftTypes : (∀ t, seenIn (Code.liftType t) = []) ∧
    (∀ ts, assignedNames (Code.liftTypeArgs ts) = []) ∧ ∀ t, seenIn (Code.liftTypeArg t) = [] := by
  refine Code.liftType.mutual_induct (fun t => seenIn (Code.liftType t) = [])
    (fun ts => assignedNames (Code.liftTypeArgs ts) = [])
    (fun t => seenIn (Code.liftTypeArg t) = [])
    ?primitive ?ident ?noIdent ?select ?noSelect ?applied ?array ?other ?nil ?cons ?unbounded
    ?bounded ?argument
  case primitive =>
    intro m tag
    simp [Code.liftType, Code.type]
  case ident | noIdent | select | noSelect =>
    intros
    simp [Code.liftType, Code.type, *]
  case applied =>
    intro m c as args type
    rw [Code.liftType]
    exact seenIn_applied _ args
  case array =>
    intro m e elem
    rw [Code.liftType]
    exact seenIn_bracketed _ elem
  case other =>
    intro t h₁ h₂ h₃ h₄ h₅
    rw [Code.liftType.eq_6 t h₁ h₂ h₃ h₄ h₅]
    simp
  case nil => rw [Code.liftTypeArgs, assignedNames_nil]
  case cons =>
    intro t ts here others
    rw [Code.liftTypeArgs, assignedNames_cons, here, others, List.nil_append]
  case unbounded =>
    intro m t
    simp [Code.liftTypeArg]
  case bounded =>
    intro m t b bounded type
    rw [Code.liftTypeArg.eq_2 m b t bounded]
    simp [type]
  case argument =>
    intro t other type
    rwa [Code.liftTypeArg.eq_3 t other]

@[simp] theorem seenIn_liftType (t : Tree) : seenIn (Code.liftType t) = [] := seenIn_liftTypes.1 t

/-- An expression is a constant or one piece. -/
theorem liftExpr_cases (r : Relocation) (e : Tree) :
    (∃ b, Code.liftExpr r e = .bool b) ∨ Code.liftExpr r e = .hostExpr (r.apply e) := by
  unfold Code.liftExpr
  split
  · exact .inl ⟨_, rfl⟩
  · exact .inr rfl

@[simp] theorem seenIn_liftExpr (r : Relocation) (e : Tree) : seenIn (Code.liftExpr r e) = [] := by
  obtain ⟨b, same⟩ | same := liftExpr_cases r e <;> simp [same]

@[simp] theorem assignedNames_map_liftExpr (r : Relocation) (es : List Tree) :
    assignedNames (es.map (Code.liftExpr r)) = [] := by
  refine assignedNames_eq_nil.mpr fun c hc => ?_
  obtain ⟨e, -, rfl⟩ := List.mem_map.mp hc
  exact seenIn_liftExpr r e

@[simp] theorem seenIn_liftAnno (t : Tree) : seenIn (Code.liftAnno t) = [] := by
  unfold Code.liftAnno
  split
  · simp [assignedNames_eq_nil]
  · rfl

@[simp] theorem assignedNames_map_liftAnno (ts : List Tree) :
    assignedNames (ts.map Code.liftAnno) = [] := by
  refine assignedNames_eq_nil.mpr fun c hc => ?_
  obtain ⟨t, -, rfl⟩ := List.mem_map.mp hc
  exact seenIn_liftAnno t

@[simp] theorem seenIn_liftInit (r : Relocation) (t : Tree) : seenIn (Code.liftInit r t) = [] := by
  unfold Code.liftInit
  split <;> simp

@[simp] theorem seenIn_liftLocal (r : Relocation) (t : Tree) : seenIn (Code.liftLocal r t) = [] := by
  unfold Code.liftLocal
  split <;> simp

@[simp] theorem seenIn_liftParam (t : Tree) : seenIn (Code.liftParam t) = [] := by
  unfold Code.liftParam
  split <;> simp

@[simp] theorem seenIn_liftThis (r : Relocation) : seenIn (Code.liftThis r) = [] := by
  unfold Code.liftThis
  split <;> simp [Code.self, Code.type]

@[simp] theorem seenIn_liftReceiver (r : Relocation) (t : Tree) :
    seenIn (Code.liftReceiver r t) = [] := by
  unfold Code.liftReceiver
  split
  · simp
  · simp
  · split
    · split <;> simp
    · simp

@[simp] theorem seenIn_liftTarget (r : Relocation) (t : Tree) :
    seenIn (Code.liftTarget r t) = [] := by
  unfold Code.liftTarget
  split
  · split <;> simp
  · simp
  · simp

theorem assignedName?_liftExpr (r : Relocation) (e : Tree) (c : Code) :
    assignedName? (.assign (Code.liftExpr r e) c) = none := by
  obtain ⟨b, same⟩ | same := liftExpr_cases r e <;> simp [same]

/-- What an assignment statement assigns stays visible. -/
theorem assignedName?_liftTarget (m : Syntax.Mark) (a b : Tree) (c : Code) :
    assignedName? (.assign (Code.liftTarget .none a) c) = assigned? (.assign m a b) := by
  unfold Code.liftTarget
  split
  · next m' n =>
    change _ = if n == "this" || n == "super" then none else some n
    split
    · exact assignedName?_liftExpr _ _ _
    · rfl
  · rfl
  · next noIdent noField =>
    rw [assignedName?_liftExpr]
    unfold assigned?
    split <;> simp_all

theorem seenIn_liftCall (r : Relocation) (e : Tree) (s : Code) (quiet : seenIn s = []) :
    seenIn ((Code.liftCall? r e).getD s) = [] := by
  unfold Code.liftCall?
  split <;> simp [quiet, assignedNames_eq_nil]

theorem seenIn_liftExec (s e : Tree) : seenIn (Code.liftExec .none s e) = (assigned? e).toList := by
  unfold Code.liftExec
  split
  · next m a b =>
    rw [seenIn_eq (by simp), assignedName?_liftTarget m a b]
    simp
  · exact seenIn_liftCall _ _ _ (by simp)
  · next noAssign _ =>
    have none : assigned? e = none := by
      unfold assigned?
      split <;> simp_all
    simp [none]

end Lifted

end Handler

/-! ## Statements -/

namespace Syntax.Tree

open Handler Code

/-- How the assignments of a phrase are seen once it is lifted: those of statements are, and what is
no statement settles nothing. -/
def Seen : Category → Tree → Prop
  | .exec, t | .statement, t => seenIn (liftStmt .none t) = settledIn t
  | .body, t => seenIn (liftBlock .none t) = settledIn t
  | .switchCase, t => assignedNames (liftCases .none [t]) = settledIn t
  | .catchClause, t => assignedNames (liftCatches .none [t]) = settledIn t
  | .optional c, t => t = missing ∨ Seen c t
  | .member, _ | .unit, _ => True
  | _, t => settledIn t = []

/-- What is lifted where a tree may be missing. -/
def liftOptional (lift : Tree → Code) : Tree → Code
  | missing => .missing
  | t => lift t

theorem seenIn_liftOptional {lift : Tree → Code} {t : Tree}
    (seen : t = missing ∨ seenIn (lift t) = settledIn t) :
    seenIn (liftOptional lift t) = settledIn t := by
  unfold liftOptional
  split
  · rfl
  · next there => exact seen.resolve_left there

theorem liftCases_cons (c : Tree) (cs : List Tree) :
    liftCases .none (c :: cs) = liftCases .none [c] ++ liftCases .none cs := by
  cases c <;> rfl

theorem liftCatches_cons (c : Tree) (cs : List Tree) :
    liftCatches .none (c :: cs) = liftCatches .none [c] ++ liftCatches .none cs := by
  cases c <;> rfl

/-- Lists are lifted element by element. -/
theorem assignedNames_lifted {lift : List Tree → List Code} {ts : List Tree} (nil : lift [] = [])
    (cons : ∀ t ts, lift (t :: ts) = lift [t] ++ lift ts)
    (seen : ∀ t ∈ ts, assignedNames (lift [t]) = settledIn t) :
    assignedNames (lift ts) = settledInAll ts := by
  induction ts with
  | nil =>
    rw [nil]
    rfl
  | cons t ts ih =>
    obtain ⟨here, others⟩ := List.forall_mem_cons.mp seen
    rw [cons, assignedNames_append, here, ih others, settledInAll, settledInAll, List.flatMap_cons]

theorem assignedNames_liftStmts {ts : List Tree}
    (seen : ∀ t ∈ ts, seenIn (liftStmt .none t) = settledIn t) :
    assignedNames (liftStmts .none ts) = settledInAll ts := by
  refine assignedNames_lifted rfl (fun _ _ => rfl) fun t ht => ?_
  rw [← seen t ht, liftStmts, liftStmts, assignedNames_cons, assignedNames_nil, List.append_nil]

theorem assignedNames_liftCases {ts : List Tree}
    (seen : ∀ t ∈ ts, assignedNames (liftCases .none [t]) = settledIn t) :
    assignedNames (liftCases .none ts) = settledInAll ts :=
  assignedNames_lifted rfl liftCases_cons seen

theorem assignedNames_liftCatches {ts : List Tree}
    (seen : ∀ t ∈ ts, assignedNames (liftCatches .none [t]) = settledIn t) :
    assignedNames (liftCatches .none ts) = settledInAll ts :=
  assignedNames_lifted rfl liftCatches_cons seen

section

attribute [local simp] seenIn_eq Code.children assignedName? assignedNames_present
  Code.isClassDecl settledIn_eq places settled? isEnclosed settledInAll assignedNames_liftStmts
  assignedNames_liftCases assignedNames_liftCatches seenIn_liftOptional

@[simp] theorem settledIn_missing : settledIn missing = [] := rfl

@[simp] theorem settledIn_optional {t : Tree} :
    (t = missing ∨ settledIn t = []) ↔ settledIn t = [] :=
  or_iff_right_of_imp fun none => none ▸ rfl

theorem liftStmt_ifThen (m : Syntax.Mark) (c y n : Tree) :
    liftStmt .none (.ifThen m c y n) =
      .ifThen (liftExpr .none c) (liftStmt .none y) (liftOptional (liftStmt .none) n) := by
  cases n <;> rfl

theorem liftStmt_forLoop (m : Syntax.Mark) (i u : List Tree) (c b : Tree) :
    liftStmt .none (.forLoop m i c u b) =
      .forLoop (liftStmts .none i) (liftOptional (liftExpr .none) c) (liftStmts .none u)
        (liftStmt .none b) := rfl

theorem liftStmt_tryCatch (m : Syntax.Mark) (cs : List Tree) (b f : Tree) :
    liftStmt .none (.tryCatch m b cs f) =
      .tryCatch (liftBlock .none b) (liftCatches .none cs) (liftOptional (liftBlock .none) f) := by
  cases f <;> rfl

theorem liftStmt_returning (m : Syntax.Mark) (e : Tree) :
    liftStmt .none (.returning m e) = .returning (liftOptional (liftExpr .none) e) := by
  cases e <;> rfl

theorem liftCases_singleton (m : Syntax.Mark) (p : Tree) (ss : List Tree) :
    liftCases .none [.switchCase m p ss] =
      [.switchCase (liftOptional (liftExpr .none) p) (liftStmts .none ss)] := rfl

theorem Phrase.seen {c : Category} {t : Tree} (phrase : Phrase c t) : Seen c t := by
  induction phrase with
  | absent => exact .inl rfl
  | present _ ih => exact .inr ih
  | type form => exact form.settledIn
  | initBlock | field | inner | unit | methodDecl => trivial
  | call types => simp_all [Seen, fun t ht => (types t ht).settledIn]
  | newObject _ type => simp_all [Seen, type.settledIn]
  | newArray elem | filledArray elem => simp_all [Seen, elem.settledIn]
  | cast type | instanceOf _ type | parameter _ type | varDecl _ type =>
    simp_all [Seen, type.settledIn]
  | typeParam bounds => simp_all [Seen, fun t ht => (bounds t ht).settledIn]
  | importAll name | importDecl name => simp_all [Seen, name.settledIn]
  | exec expr quiet =>
    have quiet : settledIn _ = [] := quiet
    rw [Seen, liftStmt, seenIn_liftExec]
    simp [quiet]
  | body _ stmts =>
    rw [Seen, liftBlock]
    simp [assignedNames_liftStmts stmts]
  | ifThen =>  simp_all [Seen, liftStmt_ifThen]
  | forLoop =>  simp_all [Seen, liftStmt_forLoop]
  | tryCatch => simp_all [Seen, liftStmt_tryCatch]
  | returning => simp_all [Seen, liftStmt_returning]
  | switchCase => simp_all [Seen, liftCases_singleton]
  | whileLoop | doLoop | foreachLoop | labeled | switchOn | synchronizedOn | throwing | breaking
  | continuing | skip =>
    simp_all [Seen, liftStmt]
  | catchClause => simp_all [Seen, liftCatches]
  | ofVarDecl here ih => cases here; simp_all [Seen, liftStmt]
  | ofBody here ih =>
    cases here
    rw [Seen, liftBlock] at ih
    rw [Seen, liftStmt, ← ih]
    rfl
  | ofDeclaration here => cases here; simp [Seen, liftStmt]
  | _ => simp_all [Seen]

end

end Syntax.Tree

namespace Handler

/-- The assignments of a method that are seen are those of its statements. -/
theorem assignedNames_statements {c : Category} {u : SourceUnit} {m : Key}
    (phrase : Phrase c (u.decl m)) :
    assignedNames (u.statements m .none) = settledInAll (u.decl m).body.stmts := by
  have seen : ∀ s ∈ (u.decl m).body.stmts, seenIn (Code.liftStmt .none s) = settledIn s :=
    fun s hs => (phrase.body_stmts s hs).seen
  unfold SourceUnit.statements SourceUnit.bodyParts
  split
  · next s ss same =>
    rw [same] at seen ⊢
    split
    · next call =>
      -- the call of another constructor is left out, and it is no assignment
      obtain ⟨here, others⟩ := List.forall_mem_cons.mp seen
      have quiet : settledIn s = [] := by
        rw [← here]
        unfold SourceUnit.isConstructorCall at call
        split at call
        · exact seenIn_liftExec _ _
        · simp at call
      rw [assignedNames_liftStmts others, settledInAll, settledInAll, List.flatMap_cons, quiet,
        List.nil_append]
    · exact assignedNames_liftStmts seen
  · next same =>
    rw [same]
    rfl

/-- How an extension is placed that assigns some names. -/
structure Placed (u : SourceUnit) (t : Key) (names : List String) (e : Extended) : Prop where
  optional : (∀ r ∈ requiredFields u t, r.name ∉ names) →
    e = .interface (u.memberType? t optionalDef)
  first : requiredFields u t ≠ [] → (∀ r ∈ requiredFields u t, r.name ∈ names) →
    e = .interface ((requiredFields u t).head?.map (·.interfaceType))
  rejected : (∃ r ∈ requiredFields u t, r.name ∈ names) →
    (∃ r ∈ requiredFields u t, r.name ∉ names) → e = .incomplete

theorem placed_extendedBy (u : SourceUnit) (t : Key) (stmts : List Code) :
    Placed u t (assignedNames stmts) (extendedBy u t stmts) := by
  have covered : ∀ r, (assignedNames stmts).contains r = true ↔ r ∈ assignedNames stmts :=
    fun r => List.contains_iff_mem
  refine ⟨fun none => ?_, fun some_ all => ?_, fun ⟨r, hr, in_⟩ ⟨r', hr', out⟩ => ?_⟩
  · have none : (requiredFields u t).filter
        (fun r => (assignedNames stmts).contains r.name) = [] :=
      List.filter_eq_nil_iff.mpr fun r hr => mt (covered r.name).mp (none r hr)
    simp only [extendedBy, none, List.isEmpty_nil, if_true]
  · have all : (requiredFields u t).filter
        (fun r => (assignedNames stmts).contains r.name) = requiredFields u t :=
      List.filter_eq_self.mpr fun r hr => (covered r.name).mpr (all r hr)
    have some_ : (requiredFields u t).isEmpty = false := by simpa using some_
    simp only [extendedBy, all, some_, beq_self_eq_true, if_true, Bool.false_eq_true, if_false]
  · have here : r ∈ (requiredFields u t).filter
        (fun r => (assignedNames stmts).contains r.name) :=
      List.mem_filter.mpr ⟨hr, (covered r.name).mpr in_⟩
    have short : ((requiredFields u t).filter
        (fun r => (assignedNames stmts).contains r.name)).length < (requiredFields u t).length :=
      List.length_filter_lt_length_iff_exists.mpr ⟨r', hr', mt (covered r'.name).mp out⟩
    have some_ : ((requiredFields u t).filter
        (fun r => (assignedNames stmts).contains r.name)).isEmpty = false :=
      List.isEmpty_eq_false_iff.mpr (List.ne_nil_of_mem here)
    simp only [extendedBy, some_, beq_false_of_ne (Nat.ne_of_lt short), Bool.false_eq_true, if_false]

/-- Only the required fields count. -/
theorem Placed.congr {u : SourceUnit} {t : Key} {names names' : List String} {e : Extended}
    (placed : Placed u t names e)
    (same : ∀ r ∈ requiredFields u t, r.name ∈ names ↔ r.name ∈ names') :
    Placed u t names' e where
  optional none := placed.optional fun r hr => mt (same r hr).mp (none r hr)
  first some_ all := placed.first some_ fun r hr => (same r hr).mpr (all r hr)
  rejected := fun ⟨r, hr, in_⟩ ⟨r', hr', out⟩ =>
    placed.rejected ⟨r, hr, (same r hr).mpr in_⟩ ⟨r', hr', mt (same r' hr').mp out⟩

/-- An extension is placed by what its statements assign, at any depth of the statements, and these
are among the names that its body assigns. If no required field is assigned in an expression only, it
is placed by all that its body assigns. -/
theorem extension_placed {c : Category} (u : SourceUnit) (t m : Key)
    (phrase : Phrase c (u.decl m)) :
    assignedNames (u.statements m .none) = settledInAll (u.decl m).body.stmts ∧
      settledInAll (u.decl m).body.stmts ⊆ assignedInAll (u.decl m).body.stmts ∧
      Placed u t (settledInAll (u.decl m).body.stmts) (extendedBy u t (u.statements m .none)) ∧
      ((∀ r ∈ requiredFields u t, r.name ∈ assignedInAll (u.decl m).body.stmts →
          r.name ∈ settledInAll (u.decl m).body.stmts) →
        Placed u t (assignedInAll (u.decl m).body.stmts)
          (extendedBy u t (u.statements m .none))) := by
  have seen := assignedNames_statements phrase
  have placed := placed_extendedBy u t (u.statements m .none)
  rw [seen] at placed
  have some_ := settledInAll_subset (u.decl m).body.stmts
  exact ⟨seen, some_, placed, fun settled => placed.congr fun r hr => ⟨(some_ ·), settled r hr⟩⟩

/-- A class with a method and the interfaces of two required fields. -/
def stagedText (body : String) : List Text.Glyph :=
  ("class T\x7bvoid e()\x7b" ++ body ++ "\x7d interface $ADef\x7bvoid a(int a);\x7d" ++
    "interface $BDef\x7bvoid b(int b);\x7d\x7d").toList.map .char

/-- A method with a statement for each required field goes to the first interface, wherever the
statements stand. -/
theorem extension_placed_first : ∃ t, Parse.unit "" (stagedText "if(x)this.a=0;b=1;") = .ok t ∧
    (∃ c, Phrase c ((SourceUnit.ofTree t).decl 2)) ∧
    extendedBy (SourceUnit.ofTree t) 1 ((SourceUnit.ofTree t).statements 2 .none) =
      .interface (some 3) := by
  have found : ((Parse.unit "" (stagedText "if(x)this.a=0;b=1;")).toOption.any fun t =>
      let u := SourceUnit.ofTree t
      let required := requiredFields u 1
      required.map (·.interfaceType) == [3, 6] &&
        required.all fun r => (settledInAll (u.decl 2).body.stmts).contains r.name) = true := by
    decide +kernel
  cases read : Parse.unit "" (stagedText "if(x)this.a=0;b=1;") with
  | error e => rw [read] at found; exact nomatch found
  | ok t =>
    rw [read] at found
    obtain ⟨required, settled⟩ := Bool.and_eq_true_iff.mp found
    have interfaces : (requiredFields (SourceUnit.ofTree t) 1).map (·.interfaceType) = [3, 6] :=
      eq_of_beq required
    have some_ : requiredFields (SourceUnit.ofTree t) 1 ≠ [] := by
      intro none
      rw [none] at interfaces
      exact nomatch interfaces
    obtain ⟨c, phrase⟩ := SourceUnit.phrase_decl_of_made (Parse.Made.unit read) 2
    obtain ⟨-, -, placed, -⟩ := extension_placed (SourceUnit.ofTree t) 1 2 phrase
    refine ⟨t, rfl, ⟨c, phrase⟩, ?_⟩
    rw [placed.first some_ fun r hr => List.contains_iff_mem.mp (List.all_eq_true.mp settled r hr),
      ← List.head?_map, interfaces]
    rfl

/-- An assignment inside another one is not seen: a method that sets both required fields in one
statement is taken for one that sets only the first, and is refused. -/
theorem chained_assignment_unseen : ∃ t, Parse.unit "" (stagedText "this.a=this.b=0;") = .ok t ∧
    assignedInAll ((SourceUnit.ofTree t).decl 2).body.stmts = ["a", "b"] ∧
    assignedNames ((SourceUnit.ofTree t).statements 2 .none) = ["a"] ∧
    (requiredFields (SourceUnit.ofTree t) 1).map (·.name) = ["a", "b"] ∧
    extendedBy (SourceUnit.ofTree t) 1 ((SourceUnit.ofTree t).statements 2 .none) =
      .incomplete := by
  have found : ((Parse.unit "" (stagedText "this.a=this.b=0;")).toOption.any fun t =>
      let u := SourceUnit.ofTree t
      assignedInAll (u.decl 2).body.stmts == ["a", "b"] &&
        (assignedNames (u.statements 2 .none) == ["a"] &&
          ((requiredFields u 1).map (·.name) == ["a", "b"] &&
            match extendedBy u 1 (u.statements 2 .none) with
            | .incomplete => true
            | .interface _ => false))) = true := by
    decide +kernel
  cases read : Parse.unit "" (stagedText "this.a=this.b=0;") with
  | error e => rw [read] at found; exact nomatch found
  | ok t =>
    rw [read] at found
    obtain ⟨assigned, found⟩ := Bool.and_eq_true_iff.mp found
    obtain ⟨seen, found⟩ := Bool.and_eq_true_iff.mp found
    obtain ⟨required, refused⟩ := Bool.and_eq_true_iff.mp found
    refine ⟨t, rfl, eq_of_beq assigned, eq_of_beq seen, eq_of_beq required, ?_⟩
    split at refused
    · assumption
    · exact nomatch refused

end Handler

end Weaver
