import Weaver.Proofs.Parse.TypeForm
/-!
The phrases of the grammar.

`Phrase` says which trees the grammar has: a category for each kind of place that a tree can stand
in, and a rule for each way to put a phrase together. The parser is followed through the grammar only
once, to see that it makes phrases; what is to be known of all trees that are read from a text is an
induction over these rules. That they are proper is one such thing.
-/
set_option autoImplicit false

namespace Weaver.Syntax.Tree

open Weaver.Text (IsSegment)

/-- What a tree is in the grammar. -/
inductive Category where
  | type
  | expression
  /-- What the word `class` can be selected from: expressions, primitive types and arrays of both. -/
  | bracketed
  /-- The value of a variable, or an element of one. -/
  | initializer
  /-- The value of an annotation's argument, or an element of one. -/
  | element
  | argument
  | anno
  | modifiers
  | varDecl
  | parameter
  /-- An expression statement. -/
  | exec
  | body
  | statement
  | switchCase
  | catchClause
  | typeParameter
  | declaration
  | member
  | importation
  | unit
  /-- A place that may be empty. -/
  | optional (category : Category)

/-- Trees as the grammar has them. -/
inductive Phrase : Category → Tree → Prop where
  | absent {c : Category} : Phrase (.optional c) .missing
  | present {c : Category} {t : Tree} (here : Phrase c t) : Phrase (.optional c) t
  | type {t : Tree} (form : TypeForm .type t) : Phrase .type t
  -- expressions
  | literal {m : Mark} {v : Source.Literal} : Phrase .expression (.literal m v)
  | ident {m : Mark} {n : String} (name : IsSegment n) : Phrase .expression (.ident m n)
  | parens {m : Mark} {e : Tree} (inside : Phrase .expression e) : Phrase .expression (.parens m e)
  | classOf {m : Mark} {e : Tree} (named : Phrase .bracketed e) :
      Phrase .expression (.select m e "class")
  | select {m : Mark} {q : Tree} {n : String} (qualifier : Phrase .expression q)
      (name : IsSegment n) : Phrase .expression (.select m q n)
  | call {m : Mark} {c : Tree} {ts as : List Tree} (types : ∀ t ∈ ts, TypeForm .argument t)
      (callee : Phrase .expression c) (args : ∀ a ∈ as, Phrase .expression a) :
      Phrase .expression (.call m ts c as)
  | newObject {m : Mark} {o t b : Tree} {as : List Tree}
      (outer : Phrase (.optional .expression) o) (type : TypeForm .reference t)
      (args : ∀ a ∈ as, Phrase .expression a) (body : Phrase (.optional .declaration) b) :
      Phrase .expression (.newObject m o [] t as b)
  | newArray {m : Mark} {e : Tree} {ds : List Tree} (elem : TypeForm .type e)
      (dims : ∀ d ∈ ds, Phrase .expression d) : Phrase .expression (.newArray m e ds false [])
  | filledArray {m : Mark} {e : Tree} {es : List Tree} (elem : TypeForm .type e)
      (elems : ∀ x ∈ es, Phrase .initializer x) : Phrase .expression (.newArray m e [] true es)
  | assign {m : Mark} {l r : Tree} (left : Phrase .expression l) (right : Phrase .expression r) :
      Phrase .expression (.assign m l r)
  | assignOp {m : Mark} {op : BinaryOp} {l r : Tree} (left : Phrase .expression l)
      (right : Phrase .expression r) : Phrase .expression (.assignOp m op l r)
  | unary {m : Mark} {op : UnaryOp} {e : Tree} (arg : Phrase .expression e) :
      Phrase .expression (.unary m op e)
  | binary {m : Mark} {op : BinaryOp} {l r : Tree} (left : Phrase .expression l)
      (right : Phrase .expression r) : Phrase .expression (.binary m op l r)
  | conditional {m : Mark} {c y n : Tree} (cond : Phrase .expression c)
      (yes : Phrase .expression y) (no : Phrase .expression n) :
      Phrase .expression (.conditional m c y n)
  | cast {m : Mark} {t e : Tree} (type : TypeForm .type t) (expr : Phrase .expression e) :
      Phrase .expression (.cast m t e)
  | instanceOf {m : Mark} {e t : Tree} (expr : Phrase .expression e) (type : TypeForm .type t) :
      Phrase .expression (.instanceOf m e t)
  | indexed {m : Mark} {a i : Tree} (array : Phrase .expression a) (index : Phrase .expression i) :
      Phrase .expression (.indexed m a i)
  | primitive {m : Mark} {tag : TypeTag} : Phrase .bracketed (.primitive m tag)
  | brackets {m : Mark} {e : Tree} (elem : Phrase .bracketed e) : Phrase .bracketed (.arrayType m e)
  | operand {e : Tree} (expr : Phrase .expression e) : Phrase .bracketed e
  | braces {m : Mark} {es : List Tree} (elems : ∀ x ∈ es, Phrase .initializer x) :
      Phrase .initializer (.newArray m .missing [] true es)
  | value {e : Tree} (expr : Phrase .expression e) : Phrase .initializer e
  -- annotations
  | elements {m : Mark} {es : List Tree} (elems : ∀ x ∈ es, Phrase .element x) :
      Phrase .element (.newArray m .missing [] true es)
  | constant {e : Tree} (expr : Phrase .expression e) : Phrase .element e
  | nested {a : Tree} (anno : Phrase .anno a) : Phrase .element a
  | named {m m' : Mark} {n : String} {v : Tree} (name : IsSegment n) (elem : Phrase .element v) :
      Phrase .argument (.assign m (.ident m' n) v)
  | positional {v : Tree} (elem : Phrase .element v) : Phrase .argument v
  | annoUse {m : Mark} {t : Tree} {as : List Tree} (type : TypeForm .path t)
      (args : ∀ a ∈ as, Phrase .argument a) : Phrase .anno (.annoUse m t as)
  | modifiers {m : Mark} {f : Flags} {as : List Tree} (annos : ∀ a ∈ as, Phrase .anno a) :
      Phrase .modifiers (.modifiers m f as)
  -- variables
  | parameter {m : Mark} {n : String} {ms t : Tree} (mods : Phrase .modifiers ms)
      (type : TypeForm .type t) : Phrase .parameter (.varDecl m n ms t .missing)
  | varDecl {m : Mark} {n : String} {ms t i : Tree} (mods : Phrase .modifiers ms)
      (type : TypeForm .type t) (init : Phrase (.optional .initializer) i) :
      Phrase .varDecl (.varDecl m n ms t i)
  -- statements
  | exec {m : Mark} {e : Tree} (expr : Phrase .expression e) : Phrase .exec (.exec m e)
  | body {m : Mark} {ss : List Tree} (stmts : ∀ s ∈ ss, Phrase .statement s) :
      Phrase .body (.block m .empty ss)
  | ifThen {m : Mark} {c y n : Tree} (cond : Phrase .expression c) (yes : Phrase .statement y)
      (no : Phrase (.optional .statement) n) : Phrase .statement (.ifThen m c y n)
  | whileLoop {m : Mark} {c b : Tree} (cond : Phrase .expression c) (body : Phrase .statement b) :
      Phrase .statement (.whileLoop m c b)
  | doLoop {m : Mark} {b c : Tree} (body : Phrase .statement b) (cond : Phrase .expression c) :
      Phrase .statement (.doLoop m b c)
  | forLoop {m : Mark} {i u : List Tree} {c b : Tree} (init : ∀ s ∈ i, Phrase .statement s)
      (cond : Phrase (.optional .expression) c) (updates : ∀ s ∈ u, Phrase .exec s)
      (body : Phrase .statement b) : Phrase .statement (.forLoop m i c u b)
  | foreachLoop {m : Mark} {v e b : Tree} (var : Phrase .parameter v)
      (source : Phrase .expression e) (body : Phrase .statement b) :
      Phrase .statement (.foreachLoop m v e b)
  | labeled {m : Mark} {l : String} {b : Tree} (body : Phrase .statement b) :
      Phrase .statement (.labeled m l b)
  | switchOn {m : Mark} {e : Tree} {cs : List Tree} (selector : Phrase .expression e)
      (cases : ∀ c ∈ cs, Phrase .switchCase c) : Phrase .statement (.switchOn m e cs)
  | switchCase {m : Mark} {p : Tree} {ss : List Tree} (pattern : Phrase (.optional .expression) p)
      (stmts : ∀ s ∈ ss, Phrase .statement s) : Phrase .switchCase (.switchCase m p ss)
  | synchronizedOn {m : Mark} {e b : Tree} (lock : Phrase .expression e) (body : Phrase .body b) :
      Phrase .statement (.synchronizedOn m e b)
  | tryCatch {m : Mark} {b f : Tree} {cs : List Tree} (body : Phrase .body b)
      (catches : ∀ c ∈ cs, Phrase .catchClause c) (final : Phrase (.optional .body) f) :
      Phrase .statement (.tryCatch m b cs f)
  | catchClause {m : Mark} {p b : Tree} (param : Phrase .parameter p) (body : Phrase .body b) :
      Phrase .catchClause (.catchClause m p b)
  | throwing {m : Mark} {e : Tree} (expr : Phrase .expression e) : Phrase .statement (.throwing m e)
  | returning {m : Mark} {e : Tree} (expr : Phrase (.optional .expression) e) :
      Phrase .statement (.returning m e)
  | breaking {m : Mark} {l : String} : Phrase .statement (.breaking m l)
  | continuing {m : Mark} {l : String} : Phrase .statement (.continuing m l)
  | skip {m : Mark} : Phrase .statement (.skip m)
  | ofVarDecl {t : Tree} (here : Phrase .varDecl t) : Phrase .statement t
  | ofExec {t : Tree} (here : Phrase .exec t) : Phrase .statement t
  | ofBody {t : Tree} (here : Phrase .body t) : Phrase .statement t
  | ofDeclaration {t : Tree} (here : Phrase .declaration t) : Phrase .statement t
  -- declarations
  | typeParam {m : Mark} {n : String} {bs : List Tree} (bounds : ∀ b ∈ bs, TypeForm .type b) :
      Phrase .typeParameter (.typeParam m n bs)
  | classDecl {m : Mark} {n : String} {ms e : Tree} {tps is ds : List Tree}
      (mods : Phrase .modifiers ms) (params : ∀ p ∈ tps, Phrase .typeParameter p)
      (extending : Phrase (.optional .type) e) (implementing : ∀ i ∈ is, TypeForm .type i)
      (defs : ∀ d ∈ ds, Phrase .member d) : Phrase .declaration (.classDecl m n ms tps e is ds)
  | methodDecl {m : Mark} {n : String} {ms r b : Tree} {tps ps ts : List Tree}
      (mods : Phrase .modifiers ms) (types : ∀ p ∈ tps, Phrase .typeParameter p)
      (result : Phrase (.optional .type) r) (params : ∀ p ∈ ps, Phrase .parameter p)
      (thrown : ∀ t ∈ ts, TypeForm .type t) (body : Phrase (.optional .body) b) :
      Phrase .member (.methodDecl m n ms tps r ps ts b)
  | initBlock {m : Mark} {f : Flags} {ss : List Tree} (stmts : ∀ s ∈ ss, Phrase .statement s) :
      Phrase .member (.block m f ss)
  | field {t : Tree} (here : Phrase .varDecl t) : Phrase .member t
  | inner {t : Tree} (here : Phrase .declaration t) : Phrase .member t
  | importAll {m m' : Mark} {isStatic : Bool} {n : Tree} (name : TypeForm .path n) :
      Phrase .importation (.importDecl m isStatic (.select m' n "*"))
  | importDecl {m : Mark} {isStatic : Bool} {n : Tree} (name : TypeForm .path n) :
      Phrase .importation (.importDecl m isStatic n)
  | unit {m : Mark} {file : String} {p : Tree} {is ds : List Tree}
      (package : p = .missing ∨ TypeForm .path p) (imports : ∀ i ∈ is, Phrase .importation i)
      (defs : ∀ d ∈ ds, Phrase .declaration d) : Phrase .unit (.unit m file p is ds)

/-- All trees of a list are phrases of a category. -/
def Phrases (c : Category) (ts : List Tree) : Prop := ∀ t ∈ ts, Phrase c t

variable {c : Category} {k : TypeRank} {t : Tree} {ts us : List Tree}

theorem Phrases.nil : Phrases c [] := List.forall_mem_nil _

theorem Phrases.cons (here : Phrase c t) (others : Phrases c ts) : Phrases c (t :: ts) :=
  List.forall_mem_cons.mpr ⟨here, others⟩

theorem Phrases.singleton (here : Phrase c t) : Phrases c [t] := List.forall_mem_singleton.mpr here

theorem Phrases.append (first : Phrases c ts) (last : Phrases c us) : Phrases c (ts ++ us) :=
  List.forall_mem_append.mpr ⟨first, last⟩

/-! ## Kinds of nodes -/

theorem Phrase.isMods (h : Phrase .modifiers t) : t.IsMods := by
  cases h
  exact ⟨_, _, _, rfl⟩

theorem Phrase.isAnno (h : Phrase .anno t) : t.IsAnno := by
  cases h
  exact ⟨_, _, _, rfl⟩

theorem Phrase.isParam (h : Phrase .parameter t) : t.IsParam := by
  cases h
  exact ⟨_, _, _, _, rfl⟩

theorem Phrase.isExec (h : Phrase .exec t) : t.IsExec := by
  cases h
  exact ⟨_, _, rfl⟩

theorem Phrase.isBody (h : Phrase .body t) : t.IsBody := by
  cases h
  exact ⟨_, _, rfl⟩

theorem Phrase.isBody_of_optional (h : Phrase (.optional .body) t) : t = .missing ∨ t.IsBody := by
  cases h with
  | absent => exact .inl rfl
  | present here => exact .inr here.isBody

theorem Phrase.isCase (h : Phrase .switchCase t) : t.IsCase := by
  cases h
  exact ⟨_, _, _, rfl⟩

theorem Phrase.isCatch (h : Phrase .catchClause t) : t.IsCatch := by
  cases h
  exact ⟨_, _, _, rfl⟩

/-- Type arguments stand in types only, so expressions have none in a chain of selections. -/
theorem Phrase.unapplied (h : Phrase c t) (chain : c = .expression ∨ c = .bracketed) :
    t.Unapplied := by
  induction h with
  | select _ _ ih => exact ih (.inl rfl)
  | classOf _ ih => exact ih (.inr rfl)
  | operand _ ih => exact ih (.inl rfl)
  | _ => first
    | trivial
    | rcases chain with other | other <;> exact nomatch other

/-! ## Phrases are proper -/

theorem TypeForm.proper (form : TypeForm k t) : t.Proper := by
  induction form with
  | ident name => exact name.segment
  | select _ name ih => exact ⟨name.segment, ih⟩
  | plain _ ih | reference _ ih | argument _ ih | array _ ih | bounded _ _ ih => exact ih
  | applied _ _ path args => exact ⟨path, properAll_iff.mpr args⟩
  | primitive | unbounded => trivial

/-- Phrases are proper. -/
theorem Phrase.proper (h : Phrase c t) : t.Proper := by
  have class_ : IsSegment "class" := ⟨by decide, by decide⟩
  have all : IsSegment "*" := ⟨by decide, by decide⟩
  induction h with
  | absent | literal | primitive | breaking | continuing | skip => trivial
  | ident name => exact name
  | type form => exact form.proper
  | select _ name ih => exact ⟨name, ih⟩
  | classOf _ ih => exact ⟨class_, ih⟩
  | call types callee _ ih args =>
    exact ⟨callee.unapplied (.inl rfl), properAll_iff.mpr fun t ht => (types t ht).proper, ih,
      properAll_iff.mpr args⟩
  | newObject _ type _ _ outer args body =>
    exact ⟨outer, trivial, type.proper, properAll_iff.mpr args, body⟩
  | newArray elem _ dims => exact ⟨nofun, elem.proper, properAll_iff.mpr dims, trivial⟩
  | filledArray elem _ elems => exact ⟨fun _ => rfl, elem.proper, trivial, properAll_iff.mpr elems⟩
  | braces _ elems | elements _ elems => exact ⟨fun _ => rfl, trivial, trivial, properAll_iff.mpr elems⟩
  | cast type _ ih => exact ⟨type.proper, ih⟩
  | instanceOf _ type ih => exact ⟨ih, type.proper⟩
  | named name _ ih => exact ⟨name, ih⟩
  | annoUse type _ args => exact ⟨type.proper, properAll_iff.mpr args⟩
  | modifiers annos ih => exact ⟨fun a ha => (annos a ha).isAnno, properAll_iff.mpr ih⟩
  | parameter mods type ih => exact ⟨mods.isMods, ih, type.proper, trivial⟩
  | varDecl mods type _ ih init => exact ⟨mods.isMods, ih, type.proper, init⟩
  | body _ stmts | initBlock _ stmts => exact properAll_iff.mpr stmts
  | forLoop _ _ updates _ init cond ih body =>
    exact ⟨fun u hu => (updates u hu).isExec, properAll_iff.mpr init, cond, properAll_iff.mpr ih, body⟩
  | foreachLoop var _ _ ih source body => exact ⟨var.isParam, ih, source, body⟩
  | switchOn _ cases_ selector ih =>
    exact ⟨fun c hc => (cases_ c hc).isCase, selector, properAll_iff.mpr ih⟩
  | switchCase _ _ pattern stmts => exact ⟨pattern, properAll_iff.mpr stmts⟩
  | synchronizedOn _ body lock ih => exact ⟨body.isBody, lock, ih⟩
  | tryCatch body catches final body' catches' final' =>
    exact ⟨body.isBody, fun c hc => (catches c hc).isCatch, final.isBody_of_optional, body',
      properAll_iff.mpr catches', final'⟩
  | catchClause param body param' body' => exact ⟨param.isParam, body.isBody, param', body'⟩
  | typeParam bounds => exact properAll_iff.mpr fun b hb => (bounds b hb).proper
  | classDecl _ _ _ implementing _ mods params extending defs =>
    exact ⟨mods, properAll_iff.mpr params, extending,
      properAll_iff.mpr fun i hi => (implementing i hi).proper, properAll_iff.mpr defs⟩
  | methodDecl _ _ _ params thrown _ mods types result params' body =>
    exact ⟨fun p hp => (params p hp).isParam, mods, properAll_iff.mpr types, result,
      properAll_iff.mpr params', properAll_iff.mpr fun t ht => (thrown t ht).proper, body⟩
  | importDecl name => exact name.proper
  | importAll name => exact ⟨all, name.proper⟩
  | unit package _ _ imports defs =>
    refine ⟨?_, properAll_iff.mpr imports, properAll_iff.mpr defs⟩
    rcases package with rfl | path
    · trivial
    · exact path.proper
  | _ => simp only [Proper, *, and_self]

end Weaver.Syntax.Tree
