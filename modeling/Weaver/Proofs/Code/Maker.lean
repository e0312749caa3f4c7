import Weaver.Proofs.Code.Fragments
/-!
A maker of trees that is used again and again.

Scopes are given to code from the outside. Here the code is lowered by a maker that has a state: the
place at which it puts nodes, the result types of the methods and the names of the classes that it
is inside of. A failure leaves that state behind. It works in two passes: it makes nodes and copies
fragments, and takes note of the copies; then it goes through what it has made from the top, marks
the nodes as generated and turns back at each copy. Which nodes it has noted is told by their
number, which is one more than it was; what it makes has the number zero.
-/
set_option autoImplicit false

namespace Weaver.Code

open Weaver.Source (Position)
open Weaver.Syntax (Tree Mark Flags TypeTag)

/-! ## The two passes over marks -/

/-- What is done to the marks of a node and of those below it. -/
inductive Walk where
  /-- The root is noted as the root of a copy. -/
  | noting
  /-- Nodes are marked as generated. The walk turns back at the root of a copy, whose note is
  removed. -/
  | attributing
  /-- Everything stays as it is. -/
  | leaving

/-- The mark that a node gets. -/
def Walk.mark : Walk → Mark → Mark
  | noting, k => { k with id := k.id + 1 }
  | attributing, ⟨pos, _, 0⟩ => ⟨pos, true, 0⟩
  | attributing, ⟨pos, generated, n + 1⟩ => ⟨pos, generated, n⟩
  | leaving, k => k

/-- The walk through the parts of a node with a mark. -/
def Walk.below : Walk → Mark → Walk
  | attributing, ⟨_, _, 0⟩ => attributing
  | _, _ => leaving

mutual

/-- A tree after a walk. -/
def walk (w : Walk) : Tree → Tree
  | .missing => .missing
  | .unit k f p is ds =>
    .unit (w.mark k) f (walk (w.below k) p) (walkAll (w.below k) is) (walkAll (w.below k) ds)
  | .importDecl k s n => .importDecl (w.mark k) s (walk (w.below k) n)
  | .classDecl k n ms tps e is ds =>
    .classDecl (w.mark k) n (walk (w.below k) ms) (walkAll (w.below k) tps) (walk (w.below k) e)
      (walkAll (w.below k) is) (walkAll (w.below k) ds)
  | .methodDecl k n ms tps r ps ts b =>
    .methodDecl (w.mark k) n (walk (w.below k) ms) (walkAll (w.below k) tps) (walk (w.below k) r)
      (walkAll (w.below k) ps) (walkAll (w.below k) ts) (walk (w.below k) b)
  | .varDecl k n ms t i =>
    .varDecl (w.mark k) n (walk (w.below k) ms) (walk (w.below k) t) (walk (w.below k) i)
  | .modifiers k f as => .modifiers (w.mark k) f (walkAll (w.below k) as)
  | .annoUse k t as => .annoUse (w.mark k) (walk (w.below k) t) (walkAll (w.below k) as)
  | .typeParam k n bs => .typeParam (w.mark k) n (walkAll (w.below k) bs)
  | .block k f ss => .block (w.mark k) f (walkAll (w.below k) ss)
  | .ifThen k c y n =>
    .ifThen (w.mark k) (walk (w.below k) c) (walk (w.below k) y) (walk (w.below k) n)
  | .whileLoop k c b => .whileLoop (w.mark k) (walk (w.below k) c) (walk (w.below k) b)
  | .doLoop k b c => .doLoop (w.mark k) (walk (w.below k) b) (walk (w.below k) c)
  | .forLoop k i c s b =>
    .forLoop (w.mark k) (walkAll (w.below k) i) (walk (w.below k) c) (walkAll (w.below k) s)
      (walk (w.below k) b)
  | .foreachLoop k v e b =>
    .foreachLoop (w.mark k) (walk (w.below k) v) (walk (w.below k) e) (walk (w.below k) b)
  | .labeled k l b => .labeled (w.mark k) l (walk (w.below k) b)
  | .switchOn k s cs => .switchOn (w.mark k) (walk (w.below k) s) (walkAll (w.below k) cs)
  | .switchCase k p ss => .switchCase (w.mark k) (walk (w.below k) p) (walkAll (w.below k) ss)
  | .synchronizedOn k l b => .synchronizedOn (w.mark k) (walk (w.below k) l) (walk (w.below k) b)
  | .tryCatch k b cs f =>
    .tryCatch (w.mark k) (walk (w.below k) b) (walkAll (w.below k) cs) (walk (w.below k) f)
  | .catchClause k p b => .catchClause (w.mark k) (walk (w.below k) p) (walk (w.below k) b)
  | .throwing k e => .throwing (w.mark k) (walk (w.below k) e)
  | .returning k e => .returning (w.mark k) (walk (w.below k) e)
  | .breaking k l => .breaking (w.mark k) l
  | .continuing k l => .continuing (w.mark k) l
  | .skip k => .skip (w.mark k)
  | .exec k e => .exec (w.mark k) (walk (w.below k) e)
  | .ident k n => .ident (w.mark k) n
  | .select k q n => .select (w.mark k) (walk (w.below k) q) n
  | .call k ts c as =>
    .call (w.mark k) (walkAll (w.below k) ts) (walk (w.below k) c) (walkAll (w.below k) as)
  | .newObject k o ts t as b =>
    .newObject (w.mark k) (walk (w.below k) o) (walkAll (w.below k) ts) (walk (w.below k) t)
      (walkAll (w.below k) as) (walk (w.below k) b)
  | .newArray k e ds h es =>
    .newArray (w.mark k) (walk (w.below k) e) (walkAll (w.below k) ds) h (walkAll (w.below k) es)
  | .parens k e => .parens (w.mark k) (walk (w.below k) e)
  | .assign k a b => .assign (w.mark k) (walk (w.below k) a) (walk (w.below k) b)
  | .assignOp k op a b => .assignOp (w.mark k) op (walk (w.below k) a) (walk (w.below k) b)
  | .unary k op a => .unary (w.mark k) op (walk (w.below k) a)
  | .binary k op a b => .binary (w.mark k) op (walk (w.below k) a) (walk (w.below k) b)
  | .conditional k c y n =>
    .conditional (w.mark k) (walk (w.below k) c) (walk (w.below k) y) (walk (w.below k) n)
  | .cast k t e => .cast (w.mark k) (walk (w.below k) t) (walk (w.below k) e)
  | .instanceOf k e t => .instanceOf (w.mark k) (walk (w.below k) e) (walk (w.below k) t)
  | .indexed k a i => .indexed (w.mark k) (walk (w.below k) a) (walk (w.below k) i)
  | .literal k v => .literal (w.mark k) v
  | .primitive k t => .primitive (w.mark k) t
  | .arrayType k e => .arrayType (w.mark k) (walk (w.below k) e)
  | .typeApply k t as => .typeApply (w.mark k) (walk (w.below k) t) (walkAll (w.below k) as)
  | .wildcard k b t => .wildcard (w.mark k) b (walk (w.below k) t)

/-- The trees of a list after a walk through each of them. -/
def walkAll (w : Walk) : List Tree → List Tree
  | [] => []
  | t :: ts => walk w t :: walkAll w ts

end

/-! ## The maker -/

/-- A maker between two of its steps. -/
structure Maker where
  /-- Where the annotation stands that the trees are generated for. -/
  source : Position
  /-- Where the next node is put. -/
  pos : Position
  /-- The result types of the methods that the maker is inside of, the innermost first. -/
  results : List Tree
  /-- The names of the classes, the innermost first. -/
  owners : List String

/-- What a maker does: it may fail, and is another one after it in either case. -/
abbrev Making := ExceptT Abort (StateM Maker)

/-- A new maker for code that goes into a class and, if one is given, a method of it. -/
def Maker.of (source : Position) (className : String) (host : Tree) : Maker where
  source := source
  pos := .none
  results := (resultOf host).toList
  owners := if className.isEmpty then [] else [className]

section Steps

variable {α : Type}

/-- What a maker comes to without a change. -/
def settled (outcome : Maker → Except Abort α) : Making α :=
  ExceptT.mk fun m => (outcome m, m)

/-- A node is put at the place of the maker. It is not marked yet. -/
def node (f : Mark → Tree) : Making Tree :=
  settled fun m => .ok (f (.at m.pos))

/-- A fragment is copied, and the copy noted. -/
def copied (t : Tree) : Making Tree :=
  settled fun _ => .ok (walk .noting t.copy)

/-- Something is done in another surrounding, which is left again whatever comes of it. -/
def inside (enter leave : Maker → Maker) (x : Making α) : Making α :=
  ExceptT.mk fun m => ((x.run (enter m)).1, leave (x.run (enter m)).2)

/-- A part that may be left out. -/
def ifThere (c : Code) (x : Making Tree) : Making Tree :=
  if c.isMissing then pure .missing else x

/-- In a method with a result type. -/
def inMethod (result : Tree) : Making α → Making α :=
  inside (fun m => { m with results := result :: m.results })
    fun m => { m with results := m.results.tail }

/-- In a class with a name. -/
def inClass (name : String) : Making α → Making α :=
  inside (fun m => { m with owners := name :: m.owners })
    fun m => { m with owners := m.owners.tail }

end Steps

mutual

/-- Makes a tree of a piece of code in a place. -/
def build (p : Place) : Code → Making Tree
  | missing => settled fun _ => p.absent
  -- types
  | typeRef name args dims => do
    let e ← (match TypeTag.ofKeyword? name with
      | some tag => node (.primitive · tag)
      | none => settled fun m => dotted (.at m.pos) name : Making Tree)
    let args ← buildAll .value args
    node fun k => arrayOf k dims.toNat (if args.isEmpty then e else .typeApply k e args)
  | hostType t => copied t
  | wildcard bound t =>
    match bound with
    | .unbounded => node (.wildcard · .unbounded .missing)
    | b => do
      let t ← build .part t
      node (.wildcard · b t)
  -- expressions
  | named n => settled fun m => dotted (.at m.pos) n
  | field r n => do
    let r ← build .value r
    node (.select · r n)
  | call r n ts as => do
    let t ← ifThere r (build .value r)
    let ts ← buildAll .part ts
    let as ← buildAll .value as
    node fun k => asStatement k p (.call k ts (member k r t n) as)
  | create t as b => do
    let body ← ifThere b (build .part b)
    let t ← build .part t
    let as ← buildAll .value as
    node fun k => asStatement k p (.newObject k .missing [] t as body)
  | newArray t ds hasInit is => do
    let elem ← ifThere t (build .part t)
    let is ← (if hasInit then buildAll .value is else pure [] : Making (List Tree))
    let ds ← buildAll .value ds
    node (.newArray · elem ds hasInit is)
  | cast t e => do
    let t ← build .part t
    let e ← build .value e
    node (.cast · t e)
  | instanceOf e t => do
    let e ← build .value e
    let t ← build .part t
    node (.instanceOf · e t)
  | binary l op r =>
    match binaryOp? op with
    | none => throw (.promise ("javac: unknown binary operator " ++ Text.quote op))
    | some op => do
      let l ← build .value l
      let r ← build .value r
      node (.binary · op l r)
  | unary op e =>
    match unaryOp? op with
    | none => throw (.promise ("javac: unknown unary operator " ++ Text.quote op))
    | some op => do
      let e ← build .value e
      node (.unary · op e)
  | equal l r negated => do
    let l ← build .value l
    let r ← build .value r
    node (.binary · (if negated then .ne else .eq) l r)
  | assign l r => do
    let l ← build .value l
    let r ← build .value r
    node fun k => asStatement k p (.assign k l r)
  | indexed a i => do
    let a ← build .value a
    let i ← build .value i
    node (.indexed · a i)
  | this c => do
    let t ← ifThere c (build .part c)
    node (member · c t "this")
  | bool b => node (.literal · (.boolean b))
  | char c => node (.literal · (.char c))
  | number n =>
    match n with
    | .literal l => node (.literal · l)
    | .other _ => throw (.promise "javac: unsupported number literal string")
  | text t => node (.literal · (.text t))
  | null => node (.literal · .null)
  | hostExpr t => do
    let t ← copied t
    if isHostStatement t then pure t else node (asStatement · p t)
  -- statements
  | block ss => do
    let ss ← buildAll .statement ss
    node (.block · .empty ss)
  | ifThen c y n => do
    let no ← ifThere n (build .statement n)
    let c ← build .value c
    let y ← build .statement y
    node (.ifThen · c y no)
  | whileLoop c b => do
    let c ← build .value c
    let b ← build .statement b
    node (.whileLoop · c b)
  | doLoop b c => do
    let b ← build .statement b
    let c ← build .value c
    node (.doLoop · b c)
  | forLoop i c u b => do
    let cond ← ifThere c (build .value c)
    let u ← buildUpdates u
    let i ← buildAll .statement i
    let b ← build .statement b
    node (.forLoop · i cond u b)
  | foreach v e b => do
    let v ← build .part v
    let e ← build .value e
    let b ← build .statement b
    node (.foreachLoop · v e b)
  | switchOn e cs => do
    let cs ← buildAll .part cs
    let e ← build .value e
    node (.switchOn · e cs)
  | switchCase c ss => do
    let c ← ifThere c (build .value c)
    let ss ← buildAll .statement ss
    node (.switchCase · c ss)
  | tryCatch b cs f => do
    let cs ← buildAll .part cs
    let f ← ifThere f (build .part f)
    let b ← build .part b
    node (.tryCatch · b cs f)
  | catchClause a b => do
    let a ← build .part a
    let b ← build .part b
    node (.catchClause · a b)
  | throwing e => do
    let e ← build .value e
    node (.throwing · e)
  | returning e => do
    let e ← ifThere e (build .value e)
    node (.returning · e)
  | returnDefault => settled fun m => defaultReturn (.at m.pos) m.results.head?
  | synchronizedOn e b => do
    let e ← build .value e
    let b ← build .part b
    node (.synchronizedOn · e b)
  | breaking label => node (.breaking · label)
  | continuing label => node (.continuing · label)
  | labeled label b => do
    let b ← build .statement b
    node (.labeled · label b)
  | hostStmt t => copied t
  -- declarations
  | annoUse t names vs => do
    let vs ← buildAll .value vs
    let t ← build .part t
    node fun k => .annoUse k t (namedValues k names vs)
  | localDecl t n ms as i | fieldDecl t n ms as i => do
    let init ← ifThere i (build .value i)
    let as ← buildAll .part as
    let t ← build .part t
    node fun k => .varDecl k n (.modifiers k ms as) t init
  | argument t n ms as => do
    let as ← buildAll .part as
    let t ← build .part t
    node fun k => .varDecl k n (.modifiers k ms as) t .missing
  | typeParam n bs => do
    let bs ← buildAll .part bs
    node (.typeParam · n bs)
  | methodDecl ms as tps r n ps ts ss noBody implementing => do
    let as ← buildAll .part as
    let tps ← buildAll .part tps
    let r ← build .part r
    inMethod r do
      let body ← (if noBody then pure .missing
        else do
          let ss ← buildAll .statement ss
          node (.block · .empty ss) : Making Tree)
      let ps ← buildAll .part ps
      let ts ← buildAll .part ts
      node fun k => .methodDecl k n
        (.modifiers k ms (if implementing then overrideUse k :: as else as)) tps r ps ts body
  | constructorDecl ms as tps _ ps ts ss implicitSuper => do
    let void ← node (.primitive · .void)
    inMethod void do
      let ss ← buildAll .statement ss
      let tps ← buildAll .part tps
      let as ← buildAll .part as
      let ps ← buildAll .part ps
      let ts ← buildAll .part ts
      node fun k => .methodDecl k Syntax.initName (.modifiers k ms as) tps .missing ps ts
        (.block k .empty
          (if implicitSuper then .exec k (.call k [] (.ident k "super") []) :: ss else ss))
  | enumConstant n ps as => do
    match (← get).owners with
    | [] => throw (.promise "javac: enum constant outside of an enum")
    | owner :: _ =>
      let as ← buildAll .part as
      let ps ← buildAll .value ps
      let flags := ((Flags.publicFlag.union .staticFlag).union .finalFlag).union .enumFlag
      node fun k => .varDecl k n (.modifiers k flags as) (.ident k owner)
        (.newObject k .missing [] (.ident k owner) ps .missing)
  | classDecl c ms as n tps e is cs fs mths ts => do
    let as ← buildAll .part as
    let n := if c.isAnonymous then "" else n
    inClass n do
      let tps ← buildAll .part tps
      let ext ← ifThere e (build .part e)
      let cs ← buildAll .part cs
      let fs ← buildAll .part fs
      let mths ← buildAll .part mths
      let ts ← buildAll .part ts
      let is ← buildAll .part is
      let flags := if c.isInterface then ms.union .interfaceFlag
        else if c.isEnum then ms.union .enumFlag
        else ms
      node fun k => .classDecl k n (.modifiers k flags as) tps ext is (cs ++ fs ++ mths ++ ts)
  | hostMethod t => copied t

/-- Makes the trees of a list from the left. -/
def buildAll (p : Place) : List Code → Making (List Tree)
  | [] => pure []
  | c :: cs => do
    let t ← build p c
    let ts ← buildAll p cs
    return t :: ts

/-- Makes the updates of a loop: each must become an expression statement. -/
def buildUpdates : List Code → Making (List Tree)
  | [] => pure []
  | c :: cs => do
    let t ← build .statement c
    if isExec t then do
      let ts ← buildUpdates cs
      return t :: ts
    else throw (.promise ("javac: for update is not an expression statement: " ++ c.kind))

end

/-! ## Calls -/

/-- A maker that is about to make something. -/
def Maker.ready (m : Maker) : Maker :=
  { m with pos := m.source }

/-- Something is made at the place of the source and marked as generated. -/
def generated (x : Making Tree) : Making Tree :=
  ExceptT.mk fun m => ((x.run m.ready).1.map (walk .attributing), (x.run m.ready).2)

/-- What a maker is asked for. -/
inductive Call where
  /-- The tree of a piece of code. -/
  | tree (c : Code)
  /-- The trees of statements. -/
  | statements (cs : List Code)
  /-- The declaration of a constant of an enumeration. -/
  | constant (owner name : String) (args annos : List Code)

namespace Call

/-- The statements are generated one by one. -/
def generatedAll : List Code → Making (List Tree)
  | [] => pure []
  | c :: cs => do
    let t ← generated (build .statement c)
    let ts ← generatedAll cs
    return t :: ts

/-- What the maker does. -/
def answer : Call → Making (List Tree)
  | tree c => do
    let t ← generated (build .value c)
    return [t]
  | statements cs => generatedAll cs
  | constant owner n ps as => inClass owner do
    let t ← generated (build .value (.enumConstant n ps as))
    return [t]

/-- What the code is lowered to in a scope. -/
def lowered (s : Scope) : Call → Except Abort (List Tree)
  | tree c => do
    let t ← c.lower s .value
    return [t]
  | statements cs => lowerAll s .statement cs
  | constant owner n ps as => do
    let t ← (enumConstant n ps as).lower { s with owner := some owner } .value
    return [t]

/-- The code of a call. -/
def code : Call → List Code
  | tree c => [c]
  | statements cs => cs
  | constant _ n ps as => [enumConstant n ps as]

/-- The fragments that are wrapped anywhere in it. -/
def wrapped (call : Call) : List Tree :=
  (visitAll (fun _ => false) call.code).filterMap fragment?

end Call

/-- The answer of a maker to a call. -/
def Maker.reply (m : Maker) (call : Call) : Except Abort (List Tree) :=
  (call.answer.run m).1

/-- The maker after a call. -/
def Maker.next (m : Maker) (call : Call) : Maker :=
  (call.answer.run m).2

/-- The maker after earlier calls. -/
def Maker.after (m : Maker) (history : List Call) : Maker :=
  history.foldl Maker.next m

end Weaver.Code
