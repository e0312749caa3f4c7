import Weaver.Proofs.Code.RoundTrip
import Weaver.Proofs.Code.TypeRestore
import Weaver.Proofs.SourceUnit.Proper
/-!
Code that names the object it ran on.

Statements that move into a nested class have to name the object that `this` was. `Tree.qualified`
says which occurrences of `this` these are: all of them, except for the name of a constructor that is
called, the bodies of nested classes, where `this` is another object, and annotations, which have no
objects. Lifting the body of a method with the relocation for the nested class gives just the
qualified statements.

Lifting takes statements apart and relocates what is left as a whole, so the two are compared kind
by kind: the grammar says where types, annotations and classes stand, and nowhere else do relocation
and qualification differ in the parts that they look at.
-/
set_option autoImplicit false

namespace Weaver

open Weaver.Syntax (Tree Mark Flags TypeTag)
open Weaver.Syntax.Tree

/-! ## Qualified trees -/

namespace Syntax.Tree

mutual

/-- A tree in which each `this` is qualified by a class. -/
@[simp]
def qualified (c : String) : Tree → Tree
  | missing => missing
  | ident m n => if n == "this" then select m (ident m c) "this" else ident m n
  | call m ts f as =>
    call m (qualifiedAll c ts) (if Relocation.isIdent f then f else qualified c f)
      (qualifiedAll c as)
  | classDecl m n ms tps e is ds =>
    classDecl m n (qualified c ms) (qualifiedAll c tps) (qualified c e) (qualifiedAll c is) ds
  | annoUse m t as => annoUse m t as
  | unit m f p is ds => unit m f (qualified c p) (qualifiedAll c is) (qualifiedAll c ds)
  | importDecl m s n => importDecl m s (qualified c n)
  | methodDecl m n ms tps res ps ts b =>
    methodDecl m n (qualified c ms) (qualifiedAll c tps) (qualified c res) (qualifiedAll c ps)
      (qualifiedAll c ts) (qualified c b)
  | varDecl m n ms t i => varDecl m n (qualified c ms) (qualified c t) (qualified c i)
  | modifiers m f as => modifiers m f (qualifiedAll c as)
  | typeParam m n bs => typeParam m n (qualifiedAll c bs)
  | block m f ss => block m f (qualifiedAll c ss)
  | ifThen m a y n => ifThen m (qualified c a) (qualified c y) (qualified c n)
  | whileLoop m a b => whileLoop m (qualified c a) (qualified c b)
  | doLoop m b a => doLoop m (qualified c b) (qualified c a)
  | forLoop m i a u b =>
    forLoop m (qualifiedAll c i) (qualified c a) (qualifiedAll c u) (qualified c b)
  | foreachLoop m v e b => foreachLoop m (qualified c v) (qualified c e) (qualified c b)
  | labeled m l b => labeled m l (qualified c b)
  | switchOn m e cs => switchOn m (qualified c e) (qualifiedAll c cs)
  | switchCase m p ss => switchCase m (qualified c p) (qualifiedAll c ss)
  | synchronizedOn m l b => synchronizedOn m (qualified c l) (qualified c b)
  | tryCatch m b cs f => tryCatch m (qualified c b) (qualifiedAll c cs) (qualified c f)
  | catchClause m p b => catchClause m (qualified c p) (qualified c b)
  | throwing m e => throwing m (qualified c e)
  | returning m e => returning m (qualified c e)
  | breaking m l => breaking m l
  | continuing m l => continuing m l
  | skip m => skip m
  | exec m e => exec m (qualified c e)
  | select m q n => select m (qualified c q) n
  | newObject m o ts t as b =>
    newObject m (qualified c o) (qualifiedAll c ts) (qualified c t) (qualifiedAll c as)
      (qualified c b)
  | newArray m e ds h es => newArray m (qualified c e) (qualifiedAll c ds) h (qualifiedAll c es)
  | parens m e => parens m (qualified c e)
  | assign m l r => assign m (qualified c l) (qualified c r)
  | assignOp m op l r => assignOp m op (qualified c l) (qualified c r)
  | unary m op a => unary m op (qualified c a)
  | binary m op l r => binary m op (qualified c l) (qualified c r)
  | conditional m a y n => conditional m (qualified c a) (qualified c y) (qualified c n)
  | cast m t e => cast m (qualified c t) (qualified c e)
  | instanceOf m e t => instanceOf m (qualified c e) (qualified c t)
  | indexed m a i => indexed m (qualified c a) (qualified c i)
  | literal m v => literal m v
  | primitive m t => primitive m t
  | arrayType m e => arrayType m (qualified c e)
  | typeApply m t as => typeApply m (qualified c t) (qualifiedAll c as)
  | wildcard m b t => wildcard m b (qualified c t)

/-- Trees of a list in which each `this` is qualified. -/
@[simp]
def qualifiedAll (c : String) : List Tree → List Tree
  | [] => []
  | t :: ts => qualified c t :: qualifiedAll c ts

end

theorem qualifiedAll_eq_map (c : String) (ts : List Tree) :
    qualifiedAll c ts = ts.map (qualified c) := by
  induction ts with
  | nil => rfl
  | cons t ts ih => rw [qualifiedAll, ih, List.map_cons]

theorem qualifiedAll_eq_self {c : String} {ts : List Tree} (h : ∀ t ∈ ts, t.qualified c = t) :
    qualifiedAll c ts = ts := by
  rw [qualifiedAll_eq_map, List.map_congr_left h, List.map_id']

/-- Where a tree stands makes no difference for what becomes of it. -/
theorem qualified_shape (c : String) : (∀ t,
    ((shape true t).qualified c).shape true = (t.qualified c).shape true) ∧
      ∀ ts, shapeAll true (qualifiedAll c (shapeAll true ts)) =
        shapeAll true (qualifiedAll c ts) := by
  apply qualified.mutual_induct
    (fun t => ((shape true t).qualified c).shape true = (t.qualified c).shape true)
    (fun ts => shapeAll true (qualifiedAll c (shapeAll true ts)) = shapeAll true (qualifiedAll c ts))
  case case2 | case3 =>
    intro m n this
    rw [shape, qualified, qualified]
    split <;> rfl
  case case4 =>
    intro m ts f as types callee args
    rw [shape, qualified, qualified, shape, shape, types, args, isIdent_shape]
    split
    · rw [(shape_shape true).1]
    · rw [callee]
  all_goals
    intros
    simp only [shape, shapeAll, qualified, qualifiedAll, shape_shape, if_true, *]

variable {c : String} {k : TypeRank} {g : Category} {t : Tree} {ts : List Tree}

/-- Names of types are no objects. -/
theorem TypeForm.qualified (form : TypeForm k t) : t.qualified c = t := by
  have other {m : Mark} {n : String} (name : IsTypeName n) :
      (Tree.ident m n).qualified c = .ident m n := by
    refine if_neg ?_
    rw [beq_iff_eq]
    rintro rfl
    exact absurd name.free (by decide)
  induction form with
  | ident name => exact other name
  | plain _ ih | reference _ ih | argument _ ih => exact ih
  | applied _ _ path args => rw [Tree.qualified, path, qualifiedAll_eq_self args]
  | primitive => rfl
  | select _ _ ih | array _ ih | bounded _ _ ih => rw [Tree.qualified, ih]
  | unbounded => rfl

/-- Nor are types that were lifted. -/
theorem TypeForm.shape_qualified (form : TypeForm k t) {t' : Tree}
    (same : t'.shape true = t.shape true) : (t'.qualified c).shape true = t'.shape true := by
  rw [← (qualified_shape c).1, same, (qualified_shape c).1, form.qualified]

theorem Phrase.qualified_anno (h : Phrase .anno t) : t.qualified c = t := by
  cases h
  rfl

theorem Phrase.qualified_modifiers (h : Phrase .modifiers t) : t.qualified c = t := by
  cases h with
  | modifiers annos =>
    rw [Tree.qualified, qualifiedAll_eq_self fun a ha => (annos a ha).qualified_anno]

theorem Phrase.qualified_typeParameter (h : Phrase .typeParameter t) : t.qualified c = t := by
  cases h with
  | typeParam bounds => rw [Tree.qualified, qualifiedAll_eq_self fun b hb => (bounds b hb).qualified]

theorem Phrase.qualified_type (h : Phrase (.optional .type) t) : t.qualified c = t := by
  cases h with
  | absent => rfl
  | present here =>
    cases here with
    | type form => exact form.qualified

end Syntax.Tree

/-! ## Relocation qualifies -/

namespace Relocation

variable {c : String} {t : Tree} {ts : List Tree}

/-- Relocation into a nested class qualifies a tree, up to marks. -/
def Qualifies (c : String) (t : Tree) : Prop :=
  ((⟨[], some c⟩ : Relocation).apply t).shape true = (t.qualified c).shape true

/-- It does so for all trees of a list. -/
def QualifiesAll (c : String) (ts : List Tree) : Prop :=
  shapeAll true ((⟨[], some c⟩ : Relocation).applyAll ts) = shapeAll true (qualifiedAll c ts)

theorem qualifiesAll_iff : QualifiesAll c ts ↔ ∀ t ∈ ts, Qualifies c t := by
  rw [QualifiesAll, shapeAll_eq_map, shapeAll_eq_map, applyAll_eq_map, qualifiedAll_eq_map,
    List.map_map, List.map_map, List.map_inj_left]
  exact Iff.rfl

theorem qualifies_type {k : TypeRank} (form : TypeForm k t) : Qualifies c t := by
  induction form with
  | @ident m n name =>
    have other : n ≠ "this" := by
      rintro rfl
      exact absurd name.free (by decide)
    rw [Qualifies, apply, ident_of_ne other, Tree.qualified, if_neg (by simpa using other)]
    rfl
  | plain _ ih | reference _ ih | argument _ ih => exact ih
  | applied _ _ path args =>
    have args := qualifiesAll_iff.mpr args
    simp only [Qualifies, QualifiesAll, apply, Tree.qualified, shape] at path args ⊢
    rw [path, args]
  | primitive | unbounded => rfl
  | select _ _ ih | array _ ih | bounded _ _ ih =>
    rw [Qualifies, apply, Tree.qualified, shape, shape, ih]

theorem qualifies_ident (m : Mark) (n : String) : Qualifies c (.ident m n) := by
  rw [Qualifies, apply, Tree.qualified]
  change shape true (if n == "this" then _ else _) = _
  split <;> rfl

/-- The head of a class has no objects, and its body is left alone. -/
theorem qualifies_declaration (h : Phrase .declaration t) : Qualifies c t := by
  cases h with
  | classDecl mods params extending implementing =>
    rw [Qualifies, Tree.qualified, mods.qualified_modifiers,
      qualifiedAll_eq_self fun p hp => (params p hp).qualified_typeParameter,
      extending.qualified_type, qualifiedAll_eq_self fun i hi => (implementing i hi).qualified]
    change shape true (.classDecl _ _ _ _ _ _ (none.applyAll _)) = _
    rw [apply_eq_self.2 _ _ rfl]

end Relocation

/-! ## Statements -/

namespace Code

open Relocation

variable {s : Scope} {c : String} {g : Category} {t e : Tree} {ts : List Tree}

/-- In its normal form, a statement that is relocated is a statement that is qualified. -/
def StmtQualifies (s : Scope) (c : String) (t : Tree) : Prop :=
  ((⟨[], some c⟩ : Relocation).applyStmt (normalStmt s t)).shape true =
    ((normalStmt s t).qualified c).shape true

/-- All statements of a list are. -/
def StmtsQualify (s : Scope) (c : String) (ts : List Tree) : Prop :=
  shapeAll true ((⟨[], some c⟩ : Relocation).applyStmts (normalStmts s ts)) =
    shapeAll true (qualifiedAll c (normalStmts s ts))

theorem stmtsQualify (h : ∀ t ∈ ts, StmtQualifies s c t) : StmtsQualify s c ts := by
  induction ts with
  | nil => rfl
  | cons t ts ih =>
    obtain ⟨here, others⟩ := List.forall_mem_cons.mp h
    rw [StmtsQualify, normalStmts, applyStmts, qualifiedAll, shapeAll, shapeAll, here, ih others]

theorem qualifies_normalExpr (h : Qualifies c e) : Qualifies c (normalExpr e) := by
  unfold normalExpr
  split
  · rfl
  · exact h

theorem qualifiesAll_normalExpr (h : ∀ e ∈ ts, Qualifies c e) :
    QualifiesAll c (ts.map normalExpr) :=
  qualifiesAll_iff.mpr (List.forall_mem_map.mpr fun e he => qualifies_normalExpr (h e he))

theorem qualifies_normalInit (h : Qualifies c e) : Qualifies c (normalInit e) := by
  unfold normalInit
  split
  · next m ds es =>
    simp only [Qualifies, apply, Tree.qualified, shape, Tree.newArray.injEq] at h ⊢
    obtain ⟨-, -, dims, -, elems⟩ := h
    have elems : QualifiesAll c (es.map normalExpr) := qualifiesAll_normalExpr (qualifiesAll_iff.mp elems)
    exact ⟨trivial, trivial, dims, trivial, elems⟩
  · exact qualifies_normalExpr h

theorem qualified_normalMods (h : Phrase .modifiers t) (s : Scope) :
    (normalMods s t).qualified c = normalMods s t := by
  cases h with
  | @modifiers m f as annos =>
    rw [normalMods, Tree.qualified, qualifiedAll_eq_self]
    refine List.forall_mem_map.mpr fun a ha => ?_
    cases annos a ha
    rfl

theorem qualified_normalType (form : TypeForm .type t) (s : Scope) :
    ((normalType s t).qualified c).shape true = (normalType s t).shape true :=
  form.asLifted.shape_qualified (shape_normalType form s)

theorem normalType_wildcard (s : Scope) (m : Mark) (b : Syntax.Bound) (t : Tree) :
    normalType s (.wildcard m b t) = .wildcard m b t := by
  rw [normalType, liftType]
  · rfl
  all_goals
    intros
    contradiction

/-- A type argument is a type, or a wildcard that is carried along as a tree. -/
theorem qualified_typeArgument (form : TypeForm .argument t) (s : Scope) :
    ((normalType s t).qualified c).shape true = (normalType s t).shape true := by
  cases form with
  | argument type => exact qualified_normalType type s
  | unbounded => rw [normalType_wildcard, TypeForm.unbounded.qualified]
  | bounded bound type => rw [normalType_wildcard, (TypeForm.bounded bound type).qualified]

theorem qualified_typeArguments (forms : ∀ t ∈ ts, TypeForm .argument t) (s : Scope) :
    shapeAll true (qualifiedAll c (ts.map (normalType s))) =
      shapeAll true (ts.map (normalType s)) := by
  simp only [shapeAll_eq_map, qualifiedAll_eq_map, List.map_map]
  exact List.map_congr_left fun t ht => qualified_typeArgument (forms t ht) s

theorem stmtQualifies_varDecl {m : Mark} {n : String} {ms ty i : Tree} (mods : Phrase .modifiers ms)
    (type : TypeForm .type ty) (init : Qualifies c i) : StmtQualifies s c (.varDecl m n ms ty i) := by
  have init := qualifies_normalInit init
  rw [StmtQualifies, normalStmt, normalVar, applyStmt, Tree.qualified, qualified_normalMods mods,
    shape, shape, qualified_normalType type, init]

/-- Calls that stand as statements are taken apart, and their type arguments are types. -/
theorem stmtQualifies_exec {m : Mark} (phrase : Phrase .expression e) (h : Qualifies c e) :
    StmtQualifies s c (.exec m e) := by
  rw [StmtQualifies, normalStmt, applyStmt, Tree.qualified, shape, shape]
  congr 1
  unfold normalExec
  split
  · simp only [Qualifies, apply, Tree.qualified, shape, Tree.assign.injEq] at h
    have left := qualifies_normalExpr h.2.1
    have right := qualifies_normalExpr h.2.2
    simp only [Qualifies] at left right
    simp only [applyExec, apply, Tree.qualified, shape, left, right]
  · next m ts m' n as =>
    cases phrase with
    | call types =>
      simp only [Qualifies, apply, Tree.qualified, shape, isIdent, if_true, Tree.call.injEq] at h
      have args : QualifiesAll c (as.map normalExpr) :=
        qualifiesAll_normalExpr (qualifiesAll_iff.mp h.2.2.2)
      rw [QualifiesAll] at args
      simp only [applyExec, Tree.qualified, shape, isIdent, if_true, args,
        qualified_typeArguments types]
  · next m ts m' q n as =>
    cases phrase with
    | call types =>
      simp only [Qualifies, apply, Tree.qualified, shape, isIdent, Bool.false_eq_true, if_false,
        Tree.call.injEq, Tree.select.injEq] at h
      have args : QualifiesAll c (as.map normalExpr) :=
        qualifiesAll_normalExpr (qualifiesAll_iff.mp h.2.2.2)
      have callee := qualifies_normalExpr h.2.2.1.2.1
      rw [QualifiesAll] at args
      rw [Qualifies] at callee
      simp only [applyExec, Tree.qualified, shape, isIdent, Bool.false_eq_true, if_false, args,
        callee, qualified_typeArguments types]
  · next other₁ other₂ other₃ =>
    rw [applyExec.eq_3 _ _ other₂ other₃]
    exact h

/-- What is shown of a phrase: expressions qualify, statements do in their normal form, and so do the
parts of cases and `catch` clauses. -/
def Agrees (s : Scope) (c : String) : Category → Tree → Prop
  | .optional g, t => Agrees s c g t
  | .expression, t | .bracketed, t | .initializer, t | .declaration, t => Qualifies c t
  | .varDecl, t | .parameter, t | .exec, t | .body, t | .statement, t => StmtQualifies s c t
  | .switchCase, t => ∀ m p ss, t = .switchCase m p ss → Qualifies c p ∧ StmtsQualify s c ss
  | .catchClause, t =>
    ∀ m p b, t = .catchClause m p b → StmtQualifies s c p ∧ StmtQualifies s c b
  | _, _ => True

theorem agrees_missing (s : Scope) (c : String) (g : Category) : Agrees s c g .missing := by
  induction g with
  | optional _ ih => exact ih
  | switchCase | catchClause => exact nofun
  | _ => first | rfl | trivial

theorem casesQualify {cs : List Tree} (phrases : Phrases .switchCase cs)
    (h : ∀ t ∈ cs, Agrees s c .switchCase t) :
    shapeAll true ((⟨[], some c⟩ : Relocation).applyCases (normalCases s cs)) =
      shapeAll true (qualifiedAll c (normalCases s cs)) := by
  induction cs with
  | nil => rfl
  | cons t cs ih =>
    obtain ⟨phrase, phrases'⟩ := List.forall_mem_cons.mp phrases
    obtain ⟨here, others⟩ := List.forall_mem_cons.mp h
    obtain ⟨m, p, ss, rfl⟩ := phrase.isCase
    obtain ⟨pattern, stmts⟩ := here m p ss rfl
    have pattern := qualifies_normalExpr pattern
    rw [Qualifies] at pattern
    rw [StmtsQualify] at stmts
    simp only [normalCases, applyCases, qualifiedAll, Tree.qualified, shapeAll, shape, pattern, stmts,
      ih phrases' others]

/-- Variables without a value are relocated as statements are. -/
theorem StmtQualifies.param (param : t.IsParam) (h : StmtQualifies s c t) :
    ((⟨[], some c⟩ : Relocation).applyVar (normalVar s t)).shape true =
      ((normalVar s t).qualified c).shape true := by
  obtain ⟨m, n, ms, ty, rfl⟩ := param
  exact h

theorem catchesQualify {cs : List Tree} (phrases : Phrases .catchClause cs)
    (h : ∀ t ∈ cs, Agrees s c .catchClause t) :
    shapeAll true ((⟨[], some c⟩ : Relocation).applyCatches (normalCatches s cs)) =
      shapeAll true (qualifiedAll c (normalCatches s cs)) := by
  induction cs with
  | nil => rfl
  | cons t cs ih =>
    obtain ⟨phrase, phrases'⟩ := List.forall_mem_cons.mp phrases
    obtain ⟨here, others⟩ := List.forall_mem_cons.mp h
    obtain ⟨m, p, b, rfl⟩ := phrase.isCatch
    obtain ⟨param, body⟩ := here m p b rfl
    cases phrase with
    | catchClause isParam =>
      have param := param.param isParam.isParam
      rw [StmtQualifies] at body
      simp only [normalCatches, applyCatches, qualifiedAll, Tree.qualified, shapeAll, shape, param,
        body, ih phrases' others]

/-- Relocation qualifies the phrases of the grammar. -/
theorem agrees_of_phrase (h : Phrase g t) (s : Scope) (c : String) : Agrees s c g t := by
  induction h with
  | absent => exact agrees_missing s c _
  | present _ ih | operand _ ih | value _ ih | ofVarDecl _ ih | ofExec _ ih | ofBody _ ih => exact ih
  | ident name => exact qualifies_ident _ _
  | literal | primitive | breaking | continuing | skip => rfl
  | parens _ ih | classOf _ ih | select _ _ ih | unary _ ih | brackets _ ih =>
    simp only [Agrees, Qualifies] at ih
    simp only [Agrees, Qualifies, apply, Tree.qualified, shape, if_true, ih]
  | assign _ _ ihl ihr | assignOp _ _ ihl ihr | binary _ _ ihl ihr | indexed _ _ ihl ihr =>
    simp only [Agrees, Qualifies] at ihl ihr
    simp only [Agrees, Qualifies, apply, Tree.qualified, shape, ihl, ihr]
  | conditional _ _ _ ihc ihy ihn =>
    simp only [Agrees, Qualifies] at ihc ihy ihn
    simp only [Agrees, Qualifies, apply, Tree.qualified, shape, ihc, ihy, ihn]
  | cast type _ ih | instanceOf _ type ih =>
    have type := qualifies_type (c := c) type
    simp only [Agrees, Qualifies] at ih type
    simp only [Agrees, Qualifies, apply, Tree.qualified, shape, type, ih]
  | call types _ _ callee args =>
    have related := qualifiesAll_iff.mpr fun t ht => qualifies_type (c := c) (types t ht)
    have args := qualifiesAll_iff.mpr args
    simp only [Agrees, Qualifies, QualifiesAll] at related callee args
    simp only [Agrees, Qualifies, apply, Tree.qualified]
    split
    · rw [shape, shape, args, qualifiedAll_eq_self fun t ht => (types t ht).qualified]
    · rw [shape, shape, related, callee, args]
  | newObject _ type _ _ outer args body =>
    have type := qualifies_type (c := c) type
    have args := qualifiesAll_iff.mpr args
    simp only [Agrees, Qualifies, QualifiesAll] at outer type args body
    simp only [Agrees, Qualifies, apply, applyAll, Tree.qualified, qualifiedAll, shape, outer, type,
      args, body]
  | newArray elem _ dims =>
    have elem := qualifies_type (c := c) elem
    have dims := qualifiesAll_iff.mpr dims
    simp only [Qualifies, QualifiesAll] at elem dims
    simp only [Agrees, Qualifies, apply, applyAll, Tree.qualified, qualifiedAll, shape, elem, dims]
  | filledArray elem _ elems =>
    have elem := qualifies_type (c := c) elem
    have elems := qualifiesAll_iff.mpr elems
    simp only [Qualifies, QualifiesAll] at elem elems
    simp only [Agrees, Qualifies, apply, applyAll, Tree.qualified, qualifiedAll, shape, elem, elems]
  | braces _ elems =>
    have elems := qualifiesAll_iff.mpr elems
    simp only [QualifiesAll] at elems
    simp only [Agrees, Qualifies, apply, applyAll, Tree.qualified, qualifiedAll, shape, elems]
  | varDecl mods type _ _ init => exact stmtQualifies_varDecl mods type init
  | parameter mods type => exact stmtQualifies_varDecl mods type rfl
  | exec expr ih => exact stmtQualifies_exec expr ih
  | body _ stmts =>
    have stmts := stmtsQualify stmts
    rw [StmtsQualify] at stmts
    have plain : (Flags.empty == Flags.empty) = true := rfl
    simp only [Agrees, StmtQualifies, normalStmt, applyStmt, Tree.qualified, plain, if_true, shape,
      stmts]
  | ifThen _ _ _ cond yes no =>
    have cond := qualifies_normalExpr cond
    simp only [Agrees, Qualifies, StmtQualifies] at cond yes no
    simp only [Agrees, StmtQualifies, normalStmt, applyStmt, Tree.qualified, shape, cond, yes, no]
  | whileLoop _ _ cond body | doLoop _ _ body cond =>
    have cond := qualifies_normalExpr cond
    simp only [Agrees, Qualifies, StmtQualifies] at cond body
    simp only [Agrees, StmtQualifies, normalStmt, applyStmt, Tree.qualified, shape, cond, body]
  | forLoop _ _ _ _ init cond updates body =>
    have init := stmtsQualify init
    have cond := qualifies_normalExpr cond
    have updates := stmtsQualify updates
    simp only [Agrees, Qualifies, StmtQualifies, StmtsQualify] at init cond updates body
    simp only [Agrees, StmtQualifies, normalStmt, applyStmt, Tree.qualified, shape, init, cond,
      updates, body]
  | foreachLoop var _ _ ihv source body =>
    have param := StmtQualifies.param var.isParam ihv
    have source := qualifies_normalExpr source
    simp only [Agrees, Qualifies, StmtQualifies] at source body
    simp only [Agrees, StmtQualifies, normalStmt, applyStmt, Tree.qualified, shape, param, source,
      body]
  | labeled _ ih =>
    simp only [Agrees, StmtQualifies] at ih
    simp only [Agrees, StmtQualifies, normalStmt, applyStmt, Tree.qualified, shape, ih]
  | switchOn _ cases_ selector ih =>
    have selector := qualifies_normalExpr selector
    have cases_ := casesQualify cases_ ih
    simp only [Qualifies] at selector
    simp only [Agrees, StmtQualifies, normalStmt, applyStmt, Tree.qualified, shape, selector, cases_]
  | switchCase _ _ pattern stmts =>
    intro m p ss same
    obtain ⟨-, rfl, rfl⟩ := Tree.switchCase.inj same
    exact ⟨pattern, stmtsQualify stmts⟩
  | synchronizedOn _ _ lock body =>
    have lock := qualifies_normalExpr lock
    simp only [Agrees, Qualifies, StmtQualifies] at lock body
    simp only [Agrees, StmtQualifies, normalStmt, applyStmt, Tree.qualified, shape, lock, body]
  | tryCatch _ catches _ body ih final =>
    have catches := catchesQualify catches ih
    simp only [Agrees, StmtQualifies] at body final
    simp only [Agrees, StmtQualifies, normalStmt, applyStmt, Tree.qualified, shape, body, catches,
      final]
  | catchClause _ _ param body =>
    intro m p b same
    obtain ⟨-, rfl, rfl⟩ := Tree.catchClause.inj same
    exact ⟨param, body⟩
  | throwing _ ih | returning _ ih =>
    have expr := qualifies_normalExpr ih
    simp only [Qualifies] at expr
    simp only [Agrees, StmtQualifies, normalStmt, applyStmt, Tree.qualified, shape, expr]
  | ofDeclaration here ih =>
    cases here
    exact ih
  | classDecl mods params extending implementing defs =>
    exact qualifies_declaration (.classDecl mods params extending implementing defs)
  | _ => trivial

/-- Statements that are lifted with the relocation into a nested class and lowered again are the
statements that come back without it, with each `this` qualified. -/
theorem lowerAll_inside (phrases : Phrases .statement ts) (named : IsClassName c) (s : Scope) :
    ∃ plain inner, lowerAll s .statement (liftStmts .none ts) = .ok plain ∧
      lowerAll s .statement (liftStmts (.inside c) ts) = .ok inner ∧
        shapeAll true inner = shapeAll true (qualifiedAll c plain) := by
  have proper : ProperAll ts := properAll_iff.mpr fun t ht => (phrases t ht).proper
  obtain ⟨plain, lowered, same⟩ := stmtsRestore plain_none.wellNamed s ts proper
  obtain ⟨inner, lowered', same'⟩ := stmtsRestore (plain_inside named).wellNamed s ts proper
  have moved : Relocation.inside c = ⟨[], some c⟩ := by
    rw [Relocation.inside, if_neg (Bool.eq_false_iff.mp named.nonempty)]
  refine ⟨plain, inner, lowered, lowered', ?_⟩
  rw [applyStmt_eq_self.2.2.2] at same
  rw [same', moved, stmtsQualify fun t ht => agrees_of_phrase (phrases t ht) s c,
    ← (qualified_shape c).2, ← same, (qualified_shape c).2]

end Code

namespace SourceUnit

/-- The statements of a method, as they are moved into a class that is nested in the named one. -/
theorem statements_inside {t : Tree} (made : Parse.Made t) (k : Key) {c : String}
    (named : Relocation.IsClassName c) (s : Code.Scope) :
    ∃ plain inner,
      Code.lowerAll s .statement ((ofTree t).statements k .none) = .ok plain ∧
        Code.lowerAll s .statement ((ofTree t).statements k (.inside c)) = .ok inner ∧
          shapeAll true inner = shapeAll true (qualifiedAll c plain) := by
  obtain ⟨g, phrase⟩ := phrase_decl_of_made made k
  exact Code.lowerAll_inside (phrases_bodyParts phrase) named s

/-- A method that hands its object to an anonymous class. -/
theorem statements_inside_creation : ∃ t k, Parse.Made t ∧
    selvesAll (bodyParts ((ofTree t).decl k)).2 = [.here, .here] ∧
    ∃ plain inner,
      Code.lowerAll ⟨default, none, none⟩ .statement ((ofTree t).statements k .none) = .ok plain ∧
        Code.lowerAll ⟨default, none, none⟩ .statement ((ofTree t).statements k (.inside "T")) =
          .ok inner ∧
          shapeAll true inner = shapeAll true (qualifiedAll "T" plain) := by
  let text : List Text.Glyph :=
    "class T\x7bvoid m()\x7bthis.f(new A(this)\x7bint g()\x7breturn this.y;\x7d\x7d);\x7d\x7d".toList.map .char
  have found : ((Parse.unit "" text).toOption.any fun t =>
      selvesAll (bodyParts ((ofTree t).decl 2)).2 == [.here, .here]) = true := by
    decide +kernel
  cases read : Parse.unit "" text with
  | error e => rw [read] at found; exact nomatch found
  | ok t =>
    rw [read] at found
    have name : Relocation.IsClassName "T" := ⟨⟨by decide, by decide⟩, by decide, by decide⟩
    exact ⟨t, 2, .unit read, eq_of_beq found, statements_inside (.unit read) 2 name _⟩

/-- The only statement declares a variable whose annotation is given a word `this`. -/
def annotatesThis : List Tree → Bool
  | [.varDecl _ _ (.modifiers _ _ [.annoUse _ _ [.ident _ n]]) _ _] => n == "this"
  | _ => false

/-- The word `this` stays in an annotation of a variable. -/
theorem annotation_keeps_this : ∃ t k, Parse.Made t ∧ ∀ s : Code.Scope, ∃ inner,
    Code.lowerAll s .statement ((ofTree t).statements k (.inside "T")) = .ok inner ∧
      ∃ n ms ty a i, shapeAll true inner = [.varDecl default n (.modifiers default ms
        [.annoUse default a [.ident default "this"]]) ty i] := by
  let text : List Text.Glyph :=
    "class T\x7bvoid m()\x7b@A(this)int x=this.y;\x7d\x7d".toList.map .char
  have found : ((Parse.unit "" text).toOption.any fun t =>
      annotatesThis (bodyParts ((ofTree t).decl 2)).2) = true := by
    decide +kernel
  cases read : Parse.unit "" text with
  | error e => rw [read] at found; cases found
  | ok t =>
    rw [read] at found
    change annotatesThis (bodyParts ((ofTree t).decl 2)).2 = true at found
    have made : Parse.Made t := .unit read
    have name : Relocation.IsClassName "T" := ⟨⟨by decide, by decide⟩, by decide, by decide⟩
    refine ⟨t, 2, made, fun s => ?_⟩
    obtain ⟨inner, lowered, same⟩ := Code.stmtsRestore (Relocation.plain_inside name).wellNamed s _
      (properAll_bodyParts made 2)
    refine ⟨inner, lowered, ?_⟩
    rw [same]
    unfold annotatesThis at found
    split at found
    · next body =>
      rw [body, eq_of_beq found]
      exact ⟨_, _, _, _, _, rfl⟩
    · cases found

/-- The only statement is `this.x=this`. -/
def assignsThis : List Tree → Bool
  | [.exec _ (.assign _ (.select _ (.ident _ n₁) n₂) (.ident _ n₃))] =>
    n₁ == "this" && (n₂ == "x" && n₃ == "this")
  | _ => false

/-- With a dotted name, what takes the place of `this` is one tree on the left side of an assignment
and another one on the right. -/
theorem dotted_inside : ∃ t k, Parse.Made t ∧
    shapeAll true (bodyParts ((ofTree t).decl k)).2 = [.exec default (.assign default
      (.select default (.ident default "this") "x") (.ident default "this"))] ∧
    ∀ s : Code.Scope, ∃ inner,
      Code.lowerAll s .statement ((ofTree t).statements k (.inside "a.B")) = .ok inner ∧
        shapeAll true inner = [.exec default (.assign default
          (.select default (.select default (.select default (.ident default "a") "B") "this") "x")
          (.select default (.ident default "a.B") "this"))] := by
  let text : List Text.Glyph :=
    "class T\x7bT x;void m()\x7bthis.x=this;\x7d\x7d".toList.map .char
  have found : ((Parse.unit "" text).toOption.any fun t =>
      assignsThis (bodyParts ((ofTree t).decl 3)).2) = true := by
    decide +kernel
  cases read : Parse.unit "" text with
  | error e => rw [read] at found; cases found
  | ok t =>
    rw [read] at found
    change assignsThis (bodyParts ((ofTree t).decl 3)).2 = true at found
    refine ⟨t, 3, .unit read, ?_⟩
    unfold statements
    unfold assignsThis at found
    split at found
    · next m m₁ m₂ m₃ n₁ n₂ m₄ n₃ body =>
      simp only [Bool.and_eq_true, beq_iff_eq] at found
      obtain ⟨rfl, rfl, rfl⟩ := found
      rw [body]
      refine ⟨rfl, fun s => ?_⟩
      have segments : ∀ x ∈ ["a", "B"], Text.IsSegment x :=
        List.forall_mem_cons.mpr ⟨⟨by decide, by decide⟩,
          List.forall_mem_singleton.mpr ⟨by decide, by decide⟩⟩
      have named : (Code.type "a.B").lower s .part =
          .ok (.select s.mark (.ident s.mark "a") "B") :=
        Code.lower_type_of_dotted (by decide) (Code.dotted_segments s.mark segments) .part
      refine ⟨[.exec s.mark (.assign s.mark (.select s.mark
        (.select s.mark (.select s.mark (.ident s.mark "a") "B") "this") "x")
        (.select (.at m₄.pos) (.ident (.at m₄.pos) "a.B") "this"))], ?_, rfl⟩
      refine Code.lowerAll_cons ?_ rfl
      change ((Code.type "a.B").lower s .part >>= fun t => .ok (Tree.select s.mark t "this")) >>=
        (fun q => .ok (Tree.select s.mark q "x")) >>=
        (fun l => .ok (Tree.exec s.mark (.assign s.mark l
          (.select (.at m₄.pos) (.ident (.at m₄.pos) "a.B") "this")))) = _
      rw [named]
      rfl
    · cases found

/-- What is said of `this` and of names of classes cannot be left out. -/
theorem statements_inside_limits :
    (∃ t k, Parse.Made t ∧ ∀ s : Code.Scope, ∃ inner,
      Code.lowerAll s .statement ((ofTree t).statements k (.inside "T")) = .ok inner ∧
        ∃ n ms ty a i, shapeAll true inner = [.varDecl default n (.modifiers default ms
          [.annoUse default a [.ident default "this"]]) ty i]) ∧
    ∃ t k, Parse.Made t ∧
      shapeAll true (bodyParts ((ofTree t).decl k)).2 = [.exec default (.assign default
        (.select default (.ident default "this") "x") (.ident default "this"))] ∧
      ∀ s : Code.Scope, ∃ inner,
        Code.lowerAll s .statement ((ofTree t).statements k (.inside "a.B")) = .ok inner ∧
          shapeAll true inner = [.exec default (.assign default
            (.select default (.select default (.select default (.ident default "a") "B") "this") "x")
            (.select default (.ident default "a.B") "this"))] :=
  ⟨annotation_keeps_this, dotted_inside⟩

end SourceUnit

end Weaver
