import Weaver.Proofs.Code.Maker
import Weaver.Proofs.Syntax.Traversal
/-!
A maker does what lowering says.

`Tracks` ties what a maker does to what lowering comes to in a scope: the maker is what it was
before, and what it has made becomes, when it is marked, what the code is lowered to. The relation
goes through the steps of the maker one by one, so that it holds of all code. Between two calls
nothing is left behind but the place of the last node, which the next call sets anew: a maker
answers as if it had never been used, and in its answers only the copies of fragments are not marked
as generated.
-/
set_option autoImplicit false

namespace Weaver.Code

open Weaver.Source (Position)
open Weaver.Syntax (Tree Mark Flags TypeTag)
open Weaver.Syntax.Tree

/-! ## Walks -/

mutual

theorem walk_leaving (t : Tree) : walk .leaving t = t := by
  cases t <;> simp only [walk, Walk.mark, Walk.below, walk_leaving, walkAll_leaving]

theorem walkAll_leaving (ts : List Tree) : walkAll .leaving ts = ts := by
  cases ts <;> simp only [walkAll, walk_leaving, walkAll_leaving]

end

/-- A noted copy comes out of the second pass as it went into the first. -/
theorem walk_attributing_noting (t : Tree) : walk .attributing (walk .noting t) = t := by
  cases t <;> simp only [walk, Walk.mark, Walk.below, walk_leaving, walkAll_leaving]

theorem walkAll_append (w : Walk) (ts us : List Tree) :
    walkAll w (ts ++ us) = walkAll w ts ++ walkAll w us := by
  induction ts with
  | nil => rfl
  | cons t ts ih => exact congrArg (walk w t :: ·) ih

theorem isHostStatement_walk (w : Walk) (t : Tree) :
    isHostStatement (walk w t) = isHostStatement t := by
  cases t <;> rfl

theorem isExec_walk (w : Walk) (t : Tree) : isExec (walk w t) = isExec t := by
  cases t <;> rfl

/-- Default values are told by the kind of the result type, not by its marks. -/
theorem defaultReturn_walk (k : Mark) (w : Walk) (t : Tree) :
    defaultReturn k (some (walk w t)) = defaultReturn k (some t) := by
  cases t with
  | primitive _ tag => cases tag <;> rfl
  | _ => rfl

section Attributing

variable (q : Position)

/-- A dotted name is marked as a whole. -/
theorem walk_ofDotted (n : String) :
    walk .attributing (Tree.ofDotted (.at q) n) = Tree.ofDotted ⟨q, true, 0⟩ n := by
  have chain : ∀ (ns : List String) (e : Tree),
      walk .attributing (ns.foldl (fun e n => .select (.at q) e n) e) =
        ns.foldl (fun e n => .select ⟨q, true, 0⟩ e n) (walk .attributing e) := by
    intro ns
    induction ns with
    | nil => exact fun _ => rfl
    | cons n ns ih => exact fun e => ih _
  unfold Tree.ofDotted
  split
  · rfl
  · exact chain _ _

theorem walk_arrayOf (n : Nat) (t : Tree) :
    walk .attributing (arrayOf (.at q) n t) = arrayOf ⟨q, true, 0⟩ n (walk .attributing t) := by
  induction n generalizing t with
  | zero => rfl
  | succ n ih => exact ih _

theorem walk_typeApply (e : Tree) (ts : List Tree) :
    walk .attributing (if ts.isEmpty then e else .typeApply (.at q) e ts) =
      if (walkAll .attributing ts).isEmpty then walk .attributing e
      else .typeApply ⟨q, true, 0⟩ (walk .attributing e) (walkAll .attributing ts) := by
  cases ts <;> rfl

theorem walk_asStatement (p : Place) (t : Tree) :
    walk .attributing (asStatement (.at q) p t) =
      asStatement ⟨q, true, 0⟩ p (walk .attributing t) := by
  cases p <;> rfl

theorem walk_member (c : Code) (t : Tree) (n : String) :
    walk .attributing (member (.at q) c t n) = member ⟨q, true, 0⟩ c (walk .attributing t) n := by
  unfold member
  split <;> rfl

theorem walkAll_namedValues (ns : List String) (ts : List Tree) :
    walkAll .attributing (namedValues (.at q) ns ts) =
      namedValues ⟨q, true, 0⟩ ns (walkAll .attributing ts) := by
  induction ns generalizing ts with
  | nil => rfl
  | cons n ns ih =>
    cases ts with
    | nil => rfl
    | cons t ts =>
      refine congrArg₂ List.cons ?_ (ih ts)
      dsimp only
      split <;> rfl

theorem walk_overrideUse :
    walk .attributing (overrideUse (.at q)) = overrideUse ⟨q, true, 0⟩ :=
  congrArg (fun t => Tree.annoUse ⟨q, true, 0⟩ t []) (walk_ofDotted q _)

end Attributing

/-! ## Following the steps -/

section Runs

variable {α β : Type} {x : Making α} {f : α → Making β} {m m' : Maker}

/-- What is done after something that succeeded. -/
theorem run_ok {a : α} (done : x.run m = (.ok a, m')) : (x >>= f).run m = (f a).run m' := by
  change (do
    let (a, m) ← x.run m
    ExceptT.bindCont f a m : Id _) = _
  rw [done]
  rfl

/-- After a failure nothing is done. -/
theorem run_error {e : Abort} (failed : x.run m = (.error e, m')) :
    (x >>= f).run m = (.error e, m') := by
  change (do
    let (a, m) ← x.run m
    ExceptT.bindCont f a m : Id _) = _
  rw [failed]
  rfl

end Runs

/-- The scope of generated code. -/
abbrev Scope.here (q : Position) (result : Option Tree) (owner : Option String) : Scope :=
  ⟨⟨q, true, 0⟩, result, owner⟩

/-- The scope says what surrounds the maker. -/
structure Suits (s : Scope) (m : Maker) : Prop where
  mark : s.mark = ⟨m.pos, true, 0⟩
  result : ∀ k, defaultReturn k m.results.head? = defaultReturn k s.result
  owner : m.owners.head? = s.owner

/-- What the maker does leaves it as it was. What comes of it, when marked by `g`, is what comes of
lowering, as long as the copies are faithful: that part stands under the condition `P`. -/
def Tracks {α β : Type} (P : Prop) (s : Scope) (g : α → β) (x : Making α) (y : Except Abort β) :
    Prop :=
  ∀ m, Suits s m → (x.run m).2 = m ∧ (P → (x.run m).1.map g = y)

/-- The fragments among the pieces of code are copied faithfully if the condition holds. -/
def Copies (P : Prop) (cs : List Code) : Prop := P → ∀ t ∈ cs.filterMap fragment?, t.Whole

section Copies

variable {P : Prop} {c : Code} {cs ds : List Code}

theorem Copies.left (h : Copies P (cs ++ ds)) : Copies P cs := fun holds => by
  rw [Copies, List.filterMap_append] at h
  exact (List.forall_mem_append.mp (h holds)).1

theorem Copies.right (h : Copies P (cs ++ ds)) : Copies P ds := fun holds => by
  rw [Copies, List.filterMap_append] at h
  exact (List.forall_mem_append.mp (h holds)).2

/-- The pieces below a piece of code. -/
theorem Copies.parts (h : Copies P (andBelow (fun _ => false) c cs)) : Copies P cs := by
  have both : Copies P ([c] ++ cs) := h
  exact both.right

end Copies

namespace Tracks

section

variable {α β γ δ : Type} {P : Prop} {s : Scope} {g : α → β} {g' : γ → δ} {x : Making α}
  {y : Except Abort β}

theorem settled {outcome : Maker → Except Abort α}
    (same : ∀ m, Suits s m → P → (outcome m).map g = y) : Tracks P s g (settled outcome) y :=
  fun m suits => ⟨rfl, same m suits⟩

theorem pure {a : α} {b : β} (same : g a = b) : Tracks P s g (Pure.pure a) (Pure.pure b) :=
  fun _ _ => ⟨rfl, fun _ => congrArg Except.ok same⟩

theorem throw (e : Abort) : Tracks P s g (throw e) (throw e) :=
  fun _ _ => ⟨rfl, fun _ => rfl⟩

theorem bind {f : α → Making γ} {h : β → Except Abort δ} (first : Tracks P s g x y)
    (more : ∀ a, Tracks P s g' (f a) (h (g a))) : Tracks P s g' (x >>= f) (y >>= h) := by
  intro m suits
  obtain ⟨kept, same⟩ := first m suits
  rcases done : x.run m with ⟨_ | a, m'⟩
  · rw [done] at kept same
    rw [run_error done]
    exact ⟨kept, fun holds => by rw [← same holds]; rfl⟩
  · rw [done] at kept same
    rw [run_ok done]
    obtain rfl : m' = m := kept
    obtain ⟨kept', same'⟩ := more a m' suits
    refine ⟨kept', fun holds => ?_⟩
    rw [← same holds]
    exact same' holds

/-- What the maker knows is what the scope says. -/
theorem get {f : Maker → Making α} (h : ∀ m, Suits s m → Tracks P s g (f m) y) :
    Tracks P s g (MonadState.get >>= f) y :=
  fun m suits => h m suits m suits

/-- A part that may be left out. -/
theorem ifThere {c : Code} {p : Place} {x : Making Tree} {f : Tree → Making γ}
    {rest : Tree → Except Abort Tree} {g' : γ → Tree}
    (part : Tracks P s (walk .attributing) x (c.lower s p))
    (more : ∀ t, Tracks P s g' (f t) (rest (walk .attributing t))) :
    Tracks P s g' (Code.ifThere c x >>= f) (lowerThen s p rest c) := by
  cases c with
  | missing => exact more .missing
  | _ => exact part.bind more

/-- What is done in a method sees its result type. -/
theorem inMethod {r : Tree} (h : Tracks P { s with result := some (walk .attributing r) } g x y) :
    Tracks P s g (inMethod r x) y := by
  intro m suits
  have within : Suits { s with result := some (walk .attributing r) }
      { m with results := r :: m.results } :=
    ⟨suits.mark, fun k => (defaultReturn_walk k _ r).symm, suits.owner⟩
  obtain ⟨kept, same⟩ := h _ within
  exact ⟨congrArg (fun m => { m with results := m.results.tail }) kept, same⟩

/-- What is done in a class sees its name. -/
theorem inClass {n : String} (h : Tracks P { s with owner := some n } g x y) :
    Tracks P s g (inClass n x) y := by
  intro m suits
  have within : Suits { s with owner := some n } { m with owners := n :: m.owners } :=
    ⟨suits.mark, suits.result, rfl⟩
  obtain ⟨kept, same⟩ := h _ within
  exact ⟨congrArg (fun m => { m with owners := m.owners.tail }) kept, same⟩

end

section Nodes

variable {P : Prop} {q : Position} {r : Option Tree} {o : Option String}

theorem node {f : Mark → Tree} {t : Tree} (same : walk .attributing (f (.at q)) = t) :
    Tracks P (.here q r o) (walk .attributing) (node f) (Pure.pure t) := by
  refine settled fun m suits _ => congrArg Except.ok ?_
  have place : q = m.pos := congrArg Mark.pos suits.mark
  rw [← same, place]

/-- A node is there for what follows. -/
theorem afterNode {α β : Type} {g : α → β} {f : Mark → Tree} {more : Tree → Making α}
    {y : Except Abort β} (h : Tracks P (.here q r o) g (more (f (.at q))) y) :
    Tracks P (.here q r o) g (Code.node f >>= more) y := by
  intro m suits
  have place : q = m.pos := congrArg Mark.pos suits.mark
  rw [place] at h suits
  exact h m suits

theorem copied {t : Tree} (whole : P → t.Whole) :
    Tracks P (.here q r o) (walk .attributing) (copied t) (Pure.pure t) := by
  refine settled fun _ _ holds => congrArg Except.ok ?_
  rw [walk_attributing_noting, copy_eq (whole holds)]

theorem dotted (n : String) : Tracks P (.here q r o) (walk .attributing)
    (Code.settled fun m => dotted (.at m.pos) n) (dotted ⟨q, true, 0⟩ n) := by
  refine settled fun m suits _ => ?_
  have place : q = m.pos := congrArg Mark.pos suits.mark
  rw [place]
  unfold Code.dotted
  split
  · rfl
  · exact congrArg Except.ok (walk_ofDotted m.pos _)

theorem defaultReturn : Tracks P (.here q r o) (walk .attributing)
    (Code.settled fun m => defaultReturn (.at m.pos) m.results.head?)
    (defaultReturn ⟨q, true, 0⟩ r) := by
  refine settled fun m suits _ => ?_
  have place : q = m.pos := congrArg Mark.pos suits.mark
  rw [place, suits.result]
  change _ = Code.defaultReturn _ r
  unfold Code.defaultReturn
  dsimp only
  split <;> rfl

end Nodes

end Tracks

theorem build_binary (p : Place) (a : Code) (op : String) (b : Code) : build p (binary a op b) =
    match binaryOp? op with
    | none => throw (.promise ("javac: unknown binary operator " ++ Text.quote op))
    | some op => (do
      let a ← build .value a
      let b ← build .value b
      node (.binary · op a b)) :=
  rfl

theorem build_unary (p : Place) (op : String) (e : Code) : build p (unary op e) =
    match unaryOp? op with
    | none => throw (.promise ("javac: unknown unary operator " ++ Text.quote op))
    | some op => (do
      let e ← build .value e
      node (.unary · op e)) :=
  rfl

mutual

/-- **Making code is lowering it.** The induction goes through the parts in the order in which they
are lowered; methods and classes change the scope and are left again. -/
theorem tracks_build (P : Prop) (q : Position) (r : Option Tree) (o : Option String) (p : Place)
    (c : Code) (whole : Copies P (c.visit fun _ => false)) :
    Tracks P (.here q r o) (walk .attributing) (build p c) (c.lower (.here q r o) p) := by
  cases c with
  | missing => exact .settled fun _ _ _ => by cases p <;> rfl
  | hostType t | hostStmt t | hostMethod t =>
    exact .copied fun holds => whole holds t (List.mem_singleton_self t)
  | bool | char | text | null | breaking | continuing => exact .node rfl
  | named n => exact .dotted n
  | returnDefault => exact .defaultReturn
  | number n =>
    cases n with
    | literal l => exact .node rfl
    | other t => exact .throw _
  | hostExpr t =>
    refine Tracks.bind (.copied fun holds => whole holds t (List.mem_singleton_self t))
      (h := fun u => pure (if isHostStatement u then u else asStatement ⟨q, true, 0⟩ p u)) fun u => ?_
    rw [isHostStatement_walk]
    split
    · exact .pure rfl
    · exact .node (walk_asStatement q p u)
  | typeRef n as d =>
    rw [lower_typeRef]
    refine Tracks.bind (g := walk .attributing) ?_ fun e =>
      (tracks_buildAll P q r o .value as whole.parts).bind fun ts => .node ?_
    · cases TypeTag.ofKeyword? n with
      | some tag => exact .node rfl
      | none => exact .dotted n
    · rw [walk_arrayOf, walk_typeApply]
  | wildcard b t =>
    cases b with
    | unbounded => exact .node rfl
    | extending | above => exact (tracks_build P q r o .part t whole.parts).bind fun u => .node rfl
  | call f n ts as =>
    rw [lower_call]
    exact .ifThere (tracks_build P q r o .value f whole.parts.left.left) fun u =>
      (tracks_buildAll P q r o .part ts whole.parts.left.right).bind fun us =>
        (tracks_buildAll P q r o .value as whole.parts.right).bind fun vs => .node (by
          rw [walk_asStatement, ← walk_member]
          rfl)
  | this t =>
    rw [lower_this]
    exact .ifThere (tracks_build P q r o .part t whole.parts) fun u => .node (walk_member q t u _)
  | create t as b =>
    rw [lower_create]
    exact .ifThere (tracks_build P q r o .part b whole.parts.right) fun body =>
      (tracks_build P q r o .part t whole.parts.left.left).bind fun u =>
        (tracks_buildAll P q r o .value as whole.parts.left.right).bind fun vs =>
          .node (walk_asStatement _ _ _)
  | newArray t ds hasInit is =>
    rw [lower_newArray]
    refine .ifThere (tracks_build P q r o .part t whole.parts.left.left) fun e =>
      Tracks.bind (g := walkAll .attributing) ?_ fun us =>
        (tracks_buildAll P q r o .value ds whole.parts.left.right).bind fun vs => .node rfl
    cases hasInit with
    | true => exact tracks_buildAll P q r o .value is whole.parts.right
    | false => exact .pure rfl
  | binary a op b =>
    rw [lower_binary, build_binary]
    cases binaryOp? op with
    | none => exact .throw _
    | some op =>
      exact (tracks_build P q r o .value a whole.parts.left).bind fun t =>
        (tracks_build P q r o .value b whole.parts.right).bind fun u => .node rfl
  | unary op e =>
    rw [lower_unary, build_unary]
    cases unaryOp? op with
    | none => exact .throw _
    | some op =>
      exact (tracks_build P q r o .value e whole.parts).bind fun t => .node rfl
  | equal a b negated =>
    exact (tracks_build P q r o .value a whole.parts.left).bind fun t =>
      (tracks_build P q r o .value b whole.parts.right).bind fun u => .node rfl
  | assign a b =>
    exact (tracks_build P q r o .value a whole.parts.left).bind fun t =>
      (tracks_build P q r o .value b whole.parts.right).bind fun u => .node (walk_asStatement _ _ _)
  | cast a b =>
    exact (tracks_build P q r o .part a whole.parts.left).bind fun t =>
      (tracks_build P q r o .value b whole.parts.right).bind fun u => .node rfl
  | instanceOf a b | synchronizedOn a b =>
    exact (tracks_build P q r o .value a whole.parts.left).bind fun t =>
      (tracks_build P q r o .part b whole.parts.right).bind fun u => .node rfl
  | indexed a b =>
    exact (tracks_build P q r o .value a whole.parts.left).bind fun t =>
      (tracks_build P q r o .value b whole.parts.right).bind fun u => .node rfl
  | whileLoop a b =>
    exact (tracks_build P q r o .value a whole.parts.left).bind fun t =>
      (tracks_build P q r o .statement b whole.parts.right).bind fun u => .node rfl
  | doLoop a b =>
    exact (tracks_build P q r o .statement a whole.parts.left).bind fun t =>
      (tracks_build P q r o .value b whole.parts.right).bind fun u => .node rfl
  | catchClause a b =>
    exact (tracks_build P q r o .part a whole.parts.left).bind fun t =>
      (tracks_build P q r o .part b whole.parts.right).bind fun u => .node rfl
  | field a n | throwing a => exact (tracks_build P q r o .value a whole.parts).bind fun t => .node rfl
  | labeled l a => exact (tracks_build P q r o .statement a whole.parts).bind fun t => .node rfl
  | returning e =>
    rw [lower_returning]
    exact .ifThere (tracks_build P q r o .value e whole.parts) fun t => .node rfl
  | block cs => exact (tracks_buildAll P q r o .statement cs whole.parts).bind fun ts => .node rfl
  | typeParam n cs => exact (tracks_buildAll P q r o .part cs whole.parts).bind fun ts => .node rfl
  | ifThen a b c =>
    rw [lower_ifThen]
    exact .ifThere (tracks_build P q r o .statement c whole.parts.right) fun v =>
      (tracks_build P q r o .value a whole.parts.left.left).bind fun t =>
        (tracks_build P q r o .statement b whole.parts.left.right).bind fun u => .node rfl
  | foreach a b c =>
    exact (tracks_build P q r o .part a whole.parts.left.left).bind fun t =>
      (tracks_build P q r o .value b whole.parts.left.right).bind fun u =>
        (tracks_build P q r o .statement c whole.parts.right).bind fun v => .node rfl
  | forLoop i c u b =>
    rw [lower_forLoop]
    exact .ifThere (tracks_build P q r o .value c whole.parts.left.left.right) fun e =>
      (tracks_buildUpdates P q r o u whole.parts.left.right).bind fun us =>
        (tracks_buildAll P q r o .statement i whole.parts.left.left.left).bind fun is =>
          (tracks_build P q r o .statement b whole.parts.right).bind fun v => .node rfl
  | switchOn e cs =>
    exact (tracks_buildAll P q r o .part cs whole.parts.right).bind fun ts =>
      (tracks_build P q r o .value e whole.parts.left).bind fun u => .node rfl
  | switchCase e ss =>
    rw [lower_switchCase]
    exact .ifThere (tracks_build P q r o .value e whole.parts.left) fun u =>
      (tracks_buildAll P q r o .statement ss whole.parts.right).bind fun ts => .node rfl
  | tryCatch b cs f =>
    rw [lower_tryCatch]
    exact (tracks_buildAll P q r o .part cs whole.parts.left.right).bind fun ts =>
      .ifThere (tracks_build P q r o .part f whole.parts.right) fun v =>
        (tracks_build P q r o .part b whole.parts.left.left).bind fun u => .node rfl
  | annoUse t ns vs =>
    exact (tracks_buildAll P q r o .value vs whole.parts.right).bind fun us =>
      (tracks_build P q r o .part t whole.parts.left).bind fun u =>
        .node (congrArg (Tree.annoUse _ _) (walkAll_namedValues q ns us))
  | localDecl t n ms as i | fieldDecl t n ms as i =>
    simp only [lower_fieldDecl, lower_localDecl]
    exact .ifThere (tracks_build P q r o .value i whole.parts.right) fun v =>
      (tracks_buildAll P q r o .part as whole.parts.left.left).bind fun ts =>
        (tracks_build P q r o .part t whole.parts.left.right).bind fun u => .node rfl
  | argument t n ms as =>
    exact (tracks_buildAll P q r o .part as whole.parts.left).bind fun ts =>
      (tracks_build P q r o .part t whole.parts.right).bind fun u => .node rfl
  | enumConstant n ps as =>
    refine .get fun m suits => ?_
    have known : m.owners.head? = o := suits.owner
    cases owners : m.owners with
    | nil =>
      rw [owners] at known
      subst known
      exact .throw _
    | cons owner os =>
      rw [owners] at known
      subst known
      exact (tracks_buildAll P q r _ .part as whole.parts.left).bind fun ts =>
        (tracks_buildAll P q r _ .value ps whole.parts.right).bind fun us => .node rfl
  | methodDecl ms as tps res n ps ts ss noBody implementing =>
    rw [lower_methodDecl]
    refine (tracks_buildAll P q r o .part as whole.parts.left.left.left.left.left).bind fun as' =>
      (tracks_buildAll P q r o .part tps whole.parts.left.left.left.left.right).bind fun tps' =>
        (tracks_build P q r o .part res whole.parts.left.left.left.right).bind fun res' =>
          .inMethod (Tracks.bind (g := walk .attributing) ?_ fun body =>
            (tracks_buildAll P q _ o .part ps whole.parts.left.left.right).bind fun ps' =>
              (tracks_buildAll P q _ o .part ts whole.parts.left.right).bind fun ts' => .node ?_)
    · cases noBody with
      | true => exact .pure rfl
      | false => exact (tracks_buildAll P q _ o .statement ss whole.parts.right).bind fun ss' => .node rfl
    · cases implementing with
      | true =>
        exact congrArg (fun t => Tree.methodDecl _ n (.modifiers _ ms (t :: _)) _ _ _ _ _)
          (walk_overrideUse q)
      | false => rfl
  | constructorDecl ms as tps n ps ts ss implicitSuper =>
    refine .afterNode (.inMethod
      ((tracks_buildAll P q _ o .statement ss whole.parts.right).bind fun ss' =>
        (tracks_buildAll P q _ o .part tps whole.parts.left.left.left.right).bind fun tps' =>
          (tracks_buildAll P q _ o .part as whole.parts.left.left.left.left).bind fun as' =>
            (tracks_buildAll P q _ o .part ps whole.parts.left.left.right).bind fun ps' =>
              (tracks_buildAll P q _ o .part ts whole.parts.left.right).bind fun ts' => .node ?_))
    cases implicitSuper <;> rfl
  | classDecl k ms as n tps e is cs fs mths ts =>
    rw [lower_classDecl]
    exact (tracks_buildAll P q r o .part as whole.parts.left.left.left.left.left.left.left).bind fun as' =>
      .inClass ((tracks_buildAll P q r _ .part tps whole.parts.left.left.left.left.left.left.right).bind fun tps' =>
        .ifThere (tracks_build P q r _ .part e whole.parts.left.left.left.left.left.right) fun e' =>
          (tracks_buildAll P q r _ .part cs whole.parts.left.left.left.right).bind fun cs' =>
            (tracks_buildAll P q r _ .part fs whole.parts.left.left.right).bind fun fs' =>
              (tracks_buildAll P q r _ .part mths whole.parts.left.right).bind fun mths' =>
                (tracks_buildAll P q r _ .part ts whole.parts.right).bind fun ts' =>
                  (tracks_buildAll P q r _ .part is whole.parts.left.left.left.left.right).bind fun is' =>
                    .node (congrArg (Tree.classDecl _ _ _ _ _ _) (by
                      simp only [walkAll_append]
                      rfl)))

/-- The same of a list. -/
theorem tracks_buildAll (P : Prop) (q : Position) (r : Option Tree) (o : Option String) (p : Place)
    (cs : List Code) (whole : Copies P (visitAll (fun _ => false) cs)) :
    Tracks P (.here q r o) (walkAll .attributing) (buildAll p cs) (lowerAll (.here q r o) p cs) := by
  cases cs with
  | nil => exact .pure rfl
  | cons c cs =>
    exact (tracks_build P q r o p c whole.left).bind fun t =>
      (tracks_buildAll P q r o p cs whole.right).bind fun ts => .pure rfl

/-- And of the updates of a loop. -/
theorem tracks_buildUpdates (P : Prop) (q : Position) (r : Option Tree) (o : Option String)
    (cs : List Code) (whole : Copies P (visitAll (fun _ => false) cs)) :
    Tracks P (.here q r o) (walkAll .attributing) (buildUpdates cs)
      (lowerUpdates (.here q r o) cs) := by
  cases cs with
  | nil => exact .pure rfl
  | cons c cs =>
    refine (tracks_build P q r o .statement c whole.left).bind fun t => ?_
    rw [isExec_walk]
    split
    · exact (tracks_buildUpdates P q r o cs whole.right).bind fun ts => .pure rfl
    · exact .throw _

end

end Weaver.Code
