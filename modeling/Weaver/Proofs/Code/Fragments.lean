import Weaver.Proofs.Code.Lowered
import Weaver.Proofs.Code.RoundTrip
import Weaver.Proofs.Syntax.Traversal
import Mathlib.Data.List.Forall2
/-!
What lowered code consists of.

Lowering makes nodes and takes over the fragments of trees that are wrapped in the code. Every node
that it makes has the mark of the scope, and every fragment is there as it is, with all the marks it
has. `Made` says so of a tree and the fragments in it from the left to the right, and `made_lower`
that code is lowered to such a tree, at whatever depth the fragments are wrapped.
-/
set_option autoImplicit false

namespace Weaver.Code

open Weaver.Syntax (Tree Mark Flags TypeTag)
open Weaver.Syntax.Tree

/-! ## Fragments -/

/-- The fragment of a tree that a piece of code is. -/
def fragment? : Code → Option Tree
  | hostType t | hostExpr t | hostStmt t | hostMethod t => some t
  | _ => none

/-- The fragments that are wrapped anywhere in code. -/
def wrapped (c : Code) : List Tree :=
  (c.visit fun _ => false).filterMap fragment?

mutual

/-- The fragments in what is lowered, in the order in which they stand in the tree. Left out are the
statements of a method without a body, the elements of an array without an initializer, the bound of
a wildcard that has none, and values without a place for a name. -/
def fragments : Code → List Tree
  | hostType t | hostExpr t | hostStmt t | hostMethod t => [t]
  | wildcard b t =>
    match b with
    | .unbounded => []
    | _ => t.fragments
  | call r _ ts as => fragmentsAll ts ++ (r.fragments ++ fragmentsAll as)
  | create t as b => t.fragments ++ fragmentsAll as ++ b.fragments
  | newArray t ds hasInit is =>
    t.fragments ++ fragmentsAll ds ++ if hasInit then fragmentsAll is else []
  | forLoop i c u b => fragmentsAll i ++ (c.fragments ++ fragmentsAll u) ++ b.fragments
  | tryCatch b cs f => b.fragments ++ fragmentsAll cs ++ f.fragments
  | localDecl t _ _ as i | fieldDecl t _ _ as i => fragmentsAll as ++ (t.fragments ++ i.fragments)
  | argument t _ _ as => fragmentsAll as ++ t.fragments
  | annoUse t ns vs => t.fragments ++ fragmentsNamed ns vs
  | methodDecl _ as tps r _ ps ts ss noBody _ =>
    fragmentsAll as ++ fragmentsAll tps ++ (r.fragments ++ fragmentsAll ps) ++ fragmentsAll ts ++
      if noBody then [] else fragmentsAll ss
  | constructorDecl _ as tps _ ps ts ss _ =>
    fragmentsAll as ++ fragmentsAll tps ++ fragmentsAll ps ++ fragmentsAll ts ++ fragmentsAll ss
  | enumConstant _ ps as => fragmentsAll as ++ fragmentsAll ps
  | classDecl _ _ as _ tps e is cs fs ms ts =>
    fragmentsAll as ++ fragmentsAll tps ++ (e.fragments ++ fragmentsAll is) ++
      (fragmentsAll cs ++ fragmentsAll fs ++ fragmentsAll ms ++ fragmentsAll ts)
  | ifThen a b c | foreach a b c => a.fragments ++ (b.fragments ++ c.fragments)
  | cast a b | instanceOf a b | binary a _ b | equal a b _ | assign a b | indexed a b
  | whileLoop a b | doLoop a b | catchClause a b | synchronizedOn a b =>
    a.fragments ++ b.fragments
  | switchOn a cs | switchCase a cs => a.fragments ++ fragmentsAll cs
  | field a _ | unary _ a | this a | throwing a | returning a | labeled _ a => a.fragments
  | typeRef _ cs _ | block cs | typeParam _ cs => fragmentsAll cs
  | missing | named _ | bool _ | char _ | number _ | text _ | null | returnDefault | breaking _
  | continuing _ => []

/-- The fragments in a list of code. -/
def fragmentsAll : List Code → List Tree
  | [] => []
  | c :: cs => c.fragments ++ fragmentsAll cs

/-- The fragments in the arguments of an annotation that have a place for a name. -/
def fragmentsNamed : List String → List Code → List Tree
  | _ :: ns, c :: cs => c.fragments ++ fragmentsNamed ns cs
  | _, _ => []

end

/-! ## Trees made around fragments -/

mutual

/-- The tree is a fragment as it is, or a node with the mark made around such trees. The list has the
fragments from the left to the right. -/
inductive Made (k : Mark) : Tree → List Tree → Prop where
  | copy (t : Tree) : Made k t [t]
  | missing : Made k .missing []
  | node {t : Tree} {fs : List Tree} (there : t ≠ .missing) (mark : t.mark = k)
      (parts : MadeAll k t.places fs) : Made k t fs

/-- The same of trees one after the other. -/
inductive MadeAll (k : Mark) : List Tree → List Tree → Prop where
  | nil : MadeAll k [] []
  | cons {t : Tree} {ts fs gs : List Tree} (first : Made k t fs) (others : MadeAll k ts gs) :
      MadeAll k (t :: ts) (fs ++ gs)

end

section Made

variable {k : Mark} {t : Tree} {ts us fs gs : List Tree}

theorem MadeAll.single (h : Made k t fs) : MadeAll k [t] fs := by
  have one := MadeAll.cons h .nil
  rwa [List.append_nil] at one

theorem MadeAll.append (h : MadeAll k ts fs) (h' : MadeAll k us gs) :
    MadeAll k (ts ++ us) (fs ++ gs) := by
  induction ts generalizing fs with
  | nil =>
    cases h
    exact h'
  | cons t ts ih =>
    cases h with
    | cons first others =>
      rw [List.cons_append, List.append_assoc]
      exact .cons first (ih others)

theorem made_ident (k : Mark) (n : String) : Made k (.ident k n) [] := .node nofun rfl .nil

/-- A dotted name is made as a whole. -/
theorem made_ofDotted (k : Mark) (n : String) : Made k (Tree.ofDotted k n) [] := by
  have chain : ∀ (ns : List String) (e : Tree), Made k e [] →
      Made k (ns.foldl (fun e n => .select k e n) e) [] := by
    intro ns
    induction ns with
    | nil => exact fun _ h => h
    | cons n ns ih => exact fun e h => ih _ (.node nofun rfl (.single h))
  unfold Tree.ofDotted
  split
  · exact made_ident k n
  · exact chain _ _ (made_ident k _)

/-- So are the brackets of an array. -/
theorem made_arrayOf (n : Nat) (h : Made k t fs) : Made k (arrayOf k n t) fs := by
  induction n generalizing t with
  | zero => exact h
  | succ n ih => exact ih (.node nofun rfl (.single h))

theorem made_asStatement (p : Place) (h : Made k t fs) : Made k (asStatement k p t) fs := by
  unfold asStatement
  split
  · exact .node nofun rfl (.single h)
  · exact h

theorem made_modifiers {flags : Flags} (h : MadeAll k ts fs) : Made k (.modifiers k flags ts) fs :=
  .node nofun rfl h

theorem made_overrideUse (k : Mark) : Made k (overrideUse k) [] :=
  .node nofun rfl (.single (made_ofDotted k _))

theorem made_superCall (k : Mark) : Made k (.exec k (.call k [] (.ident k "super") [])) [] := by
  have call : Made k (.call k [] (.ident k "super") []) [] :=
    .node nofun rfl (.single (made_ident k _))
  exact .node nofun rfl (.single call)

end Made

/-! ### The nodes -/

theorem nodes_eq {t : Tree} (there : t ≠ .missing) :
    t.nodes = t :: Tree.visitAll (fun _ => false) t.places := by
  rw [Tree.nodes, Tree.visit_eq _ there, Tree.children, Tree.flatMap_visit_filter, ← Tree.visitAll_eq]
  rfl

/-- A node without the mark is a node of a fragment. -/
theorem MadeAll.attributed {k : Mark} {ts fs : List Tree} (made : MadeAll k ts fs) :
    ∀ u ∈ Tree.visitAll (fun _ => false) ts, u.mark = k ∨ ∃ f ∈ fs, u ∈ f.nodes := by
  refine @MadeAll.rec k (fun t fs _ => ∀ u ∈ t.nodes, u.mark = k ∨ ∃ f ∈ fs, u ∈ f.nodes)
    (fun ts fs _ => ∀ u ∈ Tree.visitAll (fun _ => false) ts, u.mark = k ∨ ∃ f ∈ fs, u ∈ f.nodes)
    ?copy ?missing ?node ?nil ?cons ts fs made
  case copy => exact fun t u within => .inr ⟨t, List.mem_singleton_self t, within⟩
  case missing | nil => exact fun u within => nomatch within
  case node =>
    intro t fs there mark _ below u within
    rw [nodes_eq there] at within
    rcases List.mem_cons.mp within with rfl | within
    · exact .inl mark
    · exact below u within
  case cons =>
    intro t ts fs gs _ _ first others u within
    rcases List.mem_append.mp within with within | within
    · exact (first u within).imp_right fun ⟨f, mem, node⟩ => ⟨f, List.mem_append_left _ mem, node⟩
    · exact (others u within).imp_right fun ⟨f, mem, node⟩ => ⟨f, List.mem_append_right _ mem, node⟩

/-- The nodes of the fragments are there. -/
theorem MadeAll.copied {k : Mark} {ts fs : List Tree} (made : MadeAll k ts fs) :
    ∀ f ∈ fs, ∀ u ∈ f.nodes, u ∈ Tree.visitAll (fun _ => false) ts := by
  refine @MadeAll.rec k (fun t fs _ => ∀ f ∈ fs, ∀ u ∈ f.nodes, u ∈ t.nodes)
    (fun ts fs _ => ∀ f ∈ fs, ∀ u ∈ f.nodes, u ∈ Tree.visitAll (fun _ => false) ts)
    ?copy ?missing ?node ?nil ?cons ts fs made
  case copy =>
    intro t f mem u within
    rwa [List.mem_singleton.mp mem] at within
  case missing | nil => exact fun f mem => nomatch mem
  case node =>
    intro t fs there _ _ below f mem u within
    rw [nodes_eq there]
    exact List.mem_cons_of_mem _ (below f mem u within)
  case cons =>
    intro t ts fs gs _ _ first others f mem u within
    rcases List.mem_append.mp mem with mem | mem
    · exact List.mem_append_left _ (first f mem u within)
    · exact List.mem_append_right _ (others f mem u within)

/-- Each piece of code is made into the tree in its place. -/
abbrev Each (k : Mark) : List Code → List Tree → Prop :=
  List.Forall₂ fun c t => Made k t c.fragments

theorem Each.all {k : Mark} {cs : List Code} {ts : List Tree} (h : Each k cs ts) :
    MadeAll k ts (fragmentsAll cs) := by
  induction h with
  | nil => exact .nil
  | cons first _ ih => exact .cons first ih

/-- The arguments of an annotation with their names. -/
theorem Each.named {k : Mark} {cs : List Code} {ts : List Tree} (h : Each k cs ts)
    (ns : List String) : MadeAll k (namedValues k ns ts) (fragmentsNamed ns cs) := by
  induction h generalizing ns with
  | nil => cases ns <;> exact .nil
  | cons first _ ih =>
    cases ns with
    | nil => exact .nil
    | cons n ns =>
      refine .cons ?_ (ih ns)
      dsimp only
      split
      · exact first
      · exact .node nofun rfl (.cons (made_ident k n) (.single first))

/-! ## The steps of lowering -/

/-- A name, qualified by the tree of what stands before it. -/
def member (k : Mark) (before : Code) (t : Tree) (n : String) : Tree :=
  if before.isMissing then .ident k n else .select k t n

section Steps

variable {s : Scope} {p : Place}

theorem lower_hostExpr_at (t : Tree) : lower s p (hostExpr t) =
    pure (if isHostStatement t then t else asStatement s.mark p t) :=
  rfl

theorem lower_binary (a : Code) (op : String) (b : Code) : lower s p (binary a op b) =
    match binaryOp? op with
    | none => throw (.promise ("javac: unknown binary operator " ++ Text.quote op))
    | some op => do return .binary s.mark op (← lower s .value a) (← lower s .value b) :=
  rfl

theorem lower_unary (op : String) (e : Code) : lower s p (unary op e) =
    match unaryOp? op with
    | none => throw (.promise ("javac: unknown unary operator " ++ Text.quote op))
    | some op => do return .unary s.mark op (← lower s .value e) :=
  rfl

theorem lower_enumConstant (n : String) (ps as : List Code) : lower s p (enumConstant n ps as) =
    match s.owner with
    | none => throw (.promise "javac: enum constant outside of an enum")
    | some owner => do
      let as ← lowerAll s .part as
      let ps ← lowerAll s .value ps
      let flags := ((Flags.publicFlag.union .staticFlag).union .finalFlag).union .enumFlag
      return .varDecl s.mark n (.modifiers s.mark flags as) (.ident s.mark owner)
        (.newObject s.mark .missing [] (.ident s.mark owner) ps .missing) :=
  rfl

theorem lower_call (r : Code) (n : String) (ts as : List Code) : lower s p (call r n ts as) =
    lowerThen s .value (fun t => do
      let ts ← lowerAll s .part ts
      let as ← lowerAll s .value as
      return asStatement s.mark p (.call s.mark ts (member s.mark r t n) as)) r := by
  cases r <;> rfl

theorem lower_this (c : Code) : lower s p (this c) =
    lowerThen s .part (fun t => return member s.mark c t "this") c := by
  cases c <;> rfl

theorem lower_create (t : Code) (as : List Code) (b : Code) : lower s p (create t as b) =
    lowerThen s .part (fun b => do
      let t ← lower s .part t
      let as ← lowerAll s .value as
      return asStatement s.mark p (.newObject s.mark .missing [] t as b)) b := by
  cases b <;> rfl

theorem lower_newArray (t : Code) (ds : List Code) (hasInit : Bool) (is : List Code) :
    lower s p (newArray t ds hasInit is) = lowerThen s .part (fun t => do
      let is ← (if hasInit then lowerAll s .value is else pure [] : Except Abort (List Tree))
      let ds ← lowerAll s .value ds
      return .newArray s.mark t ds hasInit is) t := by
  cases t <;> cases hasInit <;> rfl

theorem lower_fieldDecl (t : Code) (n : String) (ms : Flags) (as : List Code) (i : Code) :
    lower s p (fieldDecl t n ms as i) = lower s p (localDecl t n ms as i) := by
  cases i <;> rfl

theorem lower_methodDecl (ms : Flags) (as tps : List Code) (r : Code) (n : String)
    (ps ts ss : List Code) (noBody implementing : Bool) :
    lower s p (methodDecl ms as tps r n ps ts ss noBody implementing) = do
    let as ← lowerAll s .part as
    let tps ← lowerAll s .part tps
    let r ← lower s .part r
    let inner := { s with result := some r }
    let body ← (if noBody then pure Tree.missing
      else do return Tree.block s.mark .empty (← lowerAll inner .statement ss) :
        Except Abort Tree)
    let ps ← lowerAll inner .part ps
    let ts ← lowerAll inner .part ts
    return .methodDecl s.mark n
      (.modifiers s.mark ms (if implementing then overrideUse s.mark :: as else as)) tps r ps ts
      body := by
  cases noBody <;> simp only [bind_assoc, pure_bind, Bool.false_eq_true, reduceIte] <;> rfl

theorem lower_classDecl (k : ClassKind) (ms : Flags) (as : List Code) (n : String)
    (tps : List Code) (e : Code) (is cs fs mths ts : List Code) :
    lower s p (classDecl k ms as n tps e is cs fs mths ts) = (do
    let as ← lowerAll s .part as
    let n := if k.isAnonymous then "" else n
    let inner := { s with owner := some n }
    let tps ← lowerAll inner .part tps
    lowerThen inner .part (fun e => do
      let cs ← lowerAll inner .part cs
      let fs ← lowerAll inner .part fs
      let mths ← lowerAll inner .part mths
      let ts ← lowerAll inner .part ts
      let is ← lowerAll inner .part is
      let flags := if k.isInterface then ms.union .interfaceFlag
        else if k.isEnum then ms.union .enumFlag
        else ms
      return .classDecl s.mark n (.modifiers s.mark flags as) tps e is
        (cs ++ fs ++ mths ++ ts)) e) := by
  cases e <;> rfl

end Steps

/-! ## Lowering -/

/-- What a computation gives if it succeeds. -/
def Gives {α : Type} (x : Except Abort α) (P : α → Prop) : Prop := ∀ a, x = .ok a → P a

namespace Gives

variable {α β : Type} {x : Except Abort α} {f : α → Except Abort β} {P : α → Prop} {Q : β → Prop}

theorem pure {a : α} (h : P a) : Gives (Pure.pure a) P := by
  rintro b ⟨⟩
  exact h

theorem throw (e : Abort) : Gives (α := α) (.error e) P := nofun

theorem bind (h : Gives x P) (more : ∀ a, P a → Gives (f a) Q) : Gives (x >>= f) Q := by
  intro b whole
  obtain ⟨a, first, rest⟩ := ok_of_bind whole
  exact more a (h a first) b rest

end Gives

section Parts

variable {k : Mark} {s : Scope} {p : Place} {c : Code} {x y z : Except Abort Tree}
  {fs gs hs : List Tree}

/-- A node with one part. -/
theorem gives_one {f : Tree → Tree} (hx : Gives x (Made k · fs))
    (node : ∀ t, Made k t fs → Made k (f t) gs) : Gives (do return f (← x)) (Made k · gs) :=
  hx.bind fun t ht => .pure (node t ht)

/-- A node with two parts. -/
theorem gives_two {f : Tree → Tree → Tree} (hx : Gives x (Made k · fs)) (hy : Gives y (Made k · gs))
    (node : ∀ t u, Made k t fs → Made k u gs → Made k (f t u) hs) :
    Gives (do return f (← x) (← y)) (Made k · hs) :=
  hx.bind fun t ht => hy.bind fun u hu => .pure (node t u ht hu)

theorem Gives.all {cs : List Code} {x : Except Abort (List Tree)} (h : Gives x (Each k cs)) :
    Gives x (MadeAll k · (fragmentsAll cs)) :=
  fun ts lowered => (h ts lowered).all

/-- A part that may be left out. -/
theorem gives_lowerThen {rest : Tree → Except Abort Tree} {P : Tree → Prop}
    (h : Gives (c.lower s p) (Made k · c.fragments))
    (more : ∀ t, Made k t c.fragments → Gives (rest t) P) : Gives (lowerThen s p rest c) P := by
  unfold lowerThen
  split
  · exact more .missing .missing
  · exact h.bind more

/-- The return of a default value is made as a whole. -/
theorem gives_defaultReturn (result : Option Tree) :
    Gives (defaultReturn k result) (Made k · []) := by
  unfold defaultReturn
  split
  · exact .throw _
  · exact .pure (.node nofun rfl (.single .missing))
  · exact .pure (.node nofun rfl (.single (.node nofun rfl .nil)))
  · exact .pure (.node nofun rfl (.single (.node nofun rfl .nil)))

theorem gives_dotted (n : String) : Gives (dotted k n) (Made k · []) := by
  unfold dotted
  split
  · exact .throw _
  · exact .pure (made_ofDotted k _)

/-- A type with arguments, if it has any. -/
theorem made_typeApply {e : Tree} {ts : List Tree} (he : Made k e []) (hts : MadeAll k ts fs) :
    Made k (if ts.isEmpty then e else .typeApply k e ts) fs := by
  cases ts with
  | nil =>
    cases hts
    exact he
  | cons => exact .node nofun rfl (.cons he hts)

/-- A name with or without a qualifier. -/
theorem made_member {t : Tree} (n : String) (h : Made k t c.fragments) :
    Made k (member k c t n) c.fragments := by
  unfold member
  split
  · next gone =>
    cases c with
    | missing => exact made_ident k n
    | _ => exact nomatch gone
  · exact .node nofun rfl (.single h)

/-- The declaration of a variable. -/
theorem made_varDecl {n : String} {flags : Flags} {ts : List Tree} {t i : Tree}
    (hts : MadeAll k ts fs) (ht : Made k t gs) (hi : Made k i hs) :
    Made k (.varDecl k n (.modifiers k flags ts) t i) (fs ++ (gs ++ hs)) :=
  .node nofun rfl (.cons (made_modifiers hts) (.cons ht (.single hi)))

/-- An object made with some arguments. -/
theorem made_newObject {t b : Tree} {ts : List Tree} (ht : Made k t fs) (hts : MadeAll k ts gs)
    (hb : Made k b hs) : Made k (.newObject k .missing [] t ts b) (fs ++ gs ++ hs) :=
  .node nofun rfl (((MadeAll.single .missing).append (.cons ht hts)).append (.single hb))

end Parts

mutual

/-- **What code is lowered to.** Every node that is made has the mark of the scope, and every
fragment that is wrapped in the code is there as it is. -/
theorem made_lower (s : Scope) (p : Place) (c : Code) :
    Gives (c.lower s p) (Made s.mark · c.fragments) := by
  cases c with
  | missing => cases p <;> exact .throw _
  | hostType t | hostStmt t | hostMethod t => exact .pure (.copy t)
  | bool | char | text | null | breaking | continuing => exact .pure (.node nofun rfl .nil)
  | named n => exact gives_dotted n
  | returnDefault => exact gives_defaultReturn s.result
  | number n =>
    cases n with
    | literal l => exact .pure (.node nofun rfl .nil)
    | other t => exact .throw _
  | hostExpr t =>
    rw [lower_hostExpr_at]
    split
    · exact .pure (.copy t)
    · exact .pure (made_asStatement p (.copy t))
  | typeRef n as d =>
    rw [lower_typeRef]
    refine Gives.bind (P := (Made s.mark · [])) ?_ fun e he =>
      (made_lowerAll s .value as).all.bind fun ts hts =>
        .pure (made_arrayOf _ (made_typeApply he hts))
    split
    · exact .pure (.node nofun rfl .nil)
    · exact gives_dotted n
  | wildcard b t =>
    cases b with
    | unbounded => exact .pure (.node nofun rfl (.single .missing))
    | extending | above =>
      exact gives_one (made_lower s .part t) fun u hu => .node nofun rfl (.single hu)
  | call r n ts as =>
    rw [lower_call]
    exact gives_lowerThen (made_lower s .value r) fun u hu =>
      (made_lowerAll s .part ts).all.bind fun us hus =>
        (made_lowerAll s .value as).all.bind fun vs hvs =>
          .pure (made_asStatement p (.node nofun rfl (hus.append (.cons (made_member n hu) hvs))))
  | create t as b =>
    rw [lower_create]
    exact gives_lowerThen (made_lower s .part b) fun body hbody =>
      (made_lower s .part t).bind fun u hu =>
        (made_lowerAll s .value as).all.bind fun vs hvs =>
          .pure (made_asStatement p (made_newObject hu hvs hbody))
  | newArray t ds hasInit is =>
    rw [lower_newArray]
    refine gives_lowerThen (made_lower s .part t) fun e he =>
      Gives.bind (P := (MadeAll s.mark · (if hasInit then fragmentsAll is else []))) ?_ fun us hus =>
        (made_lowerAll s .value ds).all.bind fun vs hvs =>
          .pure (.node nofun rfl ((MadeAll.cons he hvs).append hus))
    cases hasInit with
    | true => exact (made_lowerAll s .value is).all
    | false => exact .pure .nil
  | binary l op r =>
    rw [lower_binary]
    split
    · exact .throw _
    · exact gives_two (made_lower s .value l) (made_lower s .value r) fun t u ht hu =>
        .node nofun rfl (.cons ht (.single hu))
  | unary op e =>
    rw [lower_unary]
    split
    · exact .throw _
    · exact gives_one (made_lower s .value e) fun t ht => .node nofun rfl (.single ht)
  | equal l r negated =>
    exact gives_two (made_lower s .value l) (made_lower s .value r) fun t u ht hu =>
      .node nofun rfl (.cons ht (.single hu))
  | assign l r =>
    exact gives_two (made_lower s .value l) (made_lower s .value r) fun t u ht hu =>
      made_asStatement p (.node nofun rfl (.cons ht (.single hu)))
  | cast a b =>
    exact gives_two (made_lower s .part a) (made_lower s .value b) fun t u ht hu =>
      .node nofun rfl (.cons ht (.single hu))
  | instanceOf a b | synchronizedOn a b =>
    exact gives_two (made_lower s .value a) (made_lower s .part b) fun t u ht hu =>
      .node nofun rfl (.cons ht (.single hu))
  | indexed a b =>
    exact gives_two (made_lower s .value a) (made_lower s .value b) fun t u ht hu =>
      .node nofun rfl (.cons ht (.single hu))
  | whileLoop a b =>
    exact gives_two (made_lower s .value a) (made_lower s .statement b) fun t u ht hu =>
      .node nofun rfl (.cons ht (.single hu))
  | doLoop a b =>
    exact gives_two (made_lower s .statement a) (made_lower s .value b) fun t u ht hu =>
      .node nofun rfl (.cons ht (.single hu))
  | catchClause a b =>
    exact gives_two (made_lower s .part a) (made_lower s .part b) fun t u ht hu =>
      .node nofun rfl (.cons ht (.single hu))
  | field a n | throwing a =>
    exact gives_one (made_lower s .value a) fun t ht => .node nofun rfl (.single ht)
  | labeled l a =>
    exact gives_one (made_lower s .statement a) fun t ht => .node nofun rfl (.single ht)
  | returning e =>
    rw [lower_returning]
    exact gives_lowerThen (made_lower s .value e) fun t ht => .pure (.node nofun rfl (.single ht))
  | this t =>
    rw [lower_this]
    exact gives_lowerThen (made_lower s .part t) fun u hu => .pure (made_member _ hu)
  | block cs =>
    exact (made_lowerAll s .statement cs).all.bind fun ts hts => .pure (.node nofun rfl hts)
  | typeParam n cs =>
    exact (made_lowerAll s .part cs).all.bind fun ts hts => .pure (.node nofun rfl hts)
  | ifThen a b c =>
    rw [lower_ifThen]
    exact gives_lowerThen (made_lower s .statement c) fun v hv =>
      gives_two (made_lower s .value a) (made_lower s .statement b) fun t u ht hu =>
        .node nofun rfl (.cons ht (.cons hu (.single hv)))
  | foreach a b c =>
    exact (made_lower s .part a).bind fun t ht =>
      gives_two (made_lower s .value b) (made_lower s .statement c) fun u v hu hv =>
        .node nofun rfl (.cons ht (.cons hu (.single hv)))
  | forLoop i c u b =>
    rw [lower_forLoop]
    exact gives_lowerThen (made_lower s .value c) fun e he =>
      (made_lowerUpdates s u).all.bind fun us hus =>
        (made_lowerAll s .statement i).all.bind fun is his =>
          gives_one (made_lower s .statement b) fun v hv =>
            .node nofun rfl ((his.append (.cons he hus)).append (.single hv))
  | switchOn e cs =>
    exact (made_lowerAll s .part cs).all.bind fun ts hts =>
      gives_one (made_lower s .value e) fun u hu => .node nofun rfl (.cons hu hts)
  | switchCase e ss =>
    rw [lower_switchCase]
    exact gives_lowerThen (made_lower s .value e) fun u hu =>
      (made_lowerAll s .statement ss).all.bind fun ts hts =>
        .pure (.node nofun rfl (.cons hu hts))
  | tryCatch b cs f =>
    rw [lower_tryCatch]
    exact (made_lowerAll s .part cs).all.bind fun ts hts =>
      gives_lowerThen (made_lower s .part f) fun v hv =>
        gives_one (made_lower s .part b) fun u hu =>
          .node nofun rfl ((MadeAll.cons hu hts).append (.single hv))
  | annoUse t ns vs =>
    exact (made_lowerAll s .value vs).bind fun us hus =>
      gives_one (made_lower s .part t) fun u hu => .node nofun rfl (.cons hu (hus.named ns))
  | localDecl t n ms as i | fieldDecl t n ms as i =>
    simp only [lower_fieldDecl, lower_localDecl]
    exact gives_lowerThen (made_lower s .value i) fun v hv =>
      (made_lowerAll s .part as).all.bind fun ts hts =>
        gives_one (made_lower s .part t) fun u hu => made_varDecl hts hu hv
  | argument t n ms as =>
    refine (made_lowerAll s .part as).all.bind fun ts hts =>
      gives_one (made_lower s .part t) fun u hu => ?_
    have decl : Made s.mark (.varDecl s.mark n (.modifiers s.mark ms ts) u .missing) _ :=
      made_varDecl hts hu .missing
    rwa [List.append_nil] at decl
  | enumConstant n ps as =>
    rw [lower_enumConstant]
    split
    · exact .throw _
    · next owner _ =>
      refine (made_lowerAll s .part as).all.bind fun ts hts =>
        (made_lowerAll s .value ps).all.bind fun us hus => .pure ?_
      have object := made_newObject (made_ident s.mark owner) hus .missing
      rw [List.append_nil] at object
      exact made_varDecl hts (made_ident s.mark owner) object
  | methodDecl ms as tps r n ps ts ss noBody implementing =>
    rw [lower_methodDecl]
    refine (made_lowerAll s .part as).all.bind fun us hus =>
      (made_lowerAll s .part tps).all.bind fun tps' htps =>
        (made_lower s .part r).bind fun r' hr =>
          Gives.bind (P := (Made s.mark · (if noBody then [] else fragmentsAll ss))) ?_
            fun body hbody =>
              (made_lowerAll { s with result := some r' } .part ps).all.bind fun ps' hps =>
                (made_lowerAll { s with result := some r' } .part ts).all.bind fun ts' hts =>
                  .pure (.node nofun rfl ((((MadeAll.cons (made_modifiers ?_) htps).append
                    (.cons hr hps)).append hts).append (.single hbody)))
    · cases noBody with
      | true => exact .pure .missing
      | false =>
        exact (made_lowerAll { s with result := some r' } .statement ss).all.bind fun us hus =>
          .pure (.node nofun rfl hus)
    · cases implementing with
      | true => exact .cons (made_overrideUse _) hus
      | false => exact hus
  | constructorDecl ms as tps n ps ts ss implicitSuper =>
    let inner : Scope := { s with result := some (.primitive s.mark .void) }
    refine (made_lowerAll inner .statement ss).all.bind fun ss' hss =>
      (made_lowerAll inner .part tps).all.bind fun tps' htps =>
        (made_lowerAll inner .part as).all.bind fun as' has =>
          (made_lowerAll inner .part ps).all.bind fun ps' hps =>
            (made_lowerAll inner .part ts).all.bind fun ts' hts =>
              .pure (.node nofun rfl ((((MadeAll.cons (made_modifiers has) htps).append
                (.cons .missing hps)).append hts).append (.single (.node nofun rfl ?_))))
    cases implicitSuper with
    | true =>
      exact .cons (made_superCall _) hss
    | false => exact hss
  | classDecl k ms as n tps e is cs fs mths ts =>
    rw [lower_classDecl]
    let inner : Scope := { s with owner := some (if k.isAnonymous then "" else n) }
    exact (made_lowerAll s .part as).all.bind fun as' has =>
      (made_lowerAll inner .part tps).all.bind fun tps' htps =>
        gives_lowerThen (made_lower inner .part e) fun e' he =>
          (made_lowerAll inner .part cs).all.bind fun cs' hcs =>
            (made_lowerAll inner .part fs).all.bind fun fs' hfs =>
              (made_lowerAll inner .part mths).all.bind fun mths' hmths =>
                (made_lowerAll inner .part ts).all.bind fun ts' hts =>
                  (made_lowerAll inner .part is).all.bind fun is' his =>
                    .pure (.node nofun rfl (((MadeAll.cons (made_modifiers has) htps).append
                      (.cons he his)).append (((hcs.append hfs).append hmths).append hts)))

/-- The same of a list. -/
theorem made_lowerAll (s : Scope) (p : Place) (cs : List Code) :
    Gives (lowerAll s p cs) (Each s.mark cs) := by
  cases cs with
  | nil => exact .pure .nil
  | cons c cs =>
    exact (made_lower s p c).bind fun t ht =>
      (made_lowerAll s p cs).bind fun ts hts => .pure (.cons ht hts)

/-- And of the updates of a loop. -/
theorem made_lowerUpdates (s : Scope) (cs : List Code) :
    Gives (lowerUpdates s cs) (Each s.mark cs) := by
  cases cs with
  | nil => exact .pure .nil
  | cons c cs =>
    refine (made_lower s .statement c).bind fun t ht => ?_
    split
    · exact (made_lowerUpdates s cs).bind fun ts hts => .pure (.cons ht hts)
    · exact .throw _

end

end Weaver.Code
