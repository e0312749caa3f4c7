import Weaver.Code.Basic
import Weaver.Text.Quoted
import Weaver.Syntax.Tree
/-!
From code to trees.

Every node that is made stands at one place and is marked as generated; fragments of trees are
taken over with their own marks. A return of the default value refers to the innermost method
around it: that is passed down, as is the name of the innermost class, which enumeration constants
refer to. Code with an open place where something must stand cannot be lowered, and the parts are
lowered in a fixed order, so that the first such place decides what is reported.
-/
set_option autoImplicit false

namespace Weaver

open Weaver.Source (Literal)
open Weaver.Syntax (Tree Flags Mark TypeTag UnaryOp BinaryOp initName)

/-- Why code or a tree cannot be worked on. `promise` is a broken promise with its own words,
`hole` a missing part that was needed. -/
inductive Abort where
  | promise (message : String)
  | hole
deriving Repr, DecidableEq

namespace Code

/-- What surrounds the code being lowered. -/
structure Scope where
  /-- The mark of every node that is made. -/
  mark : Mark
  /-- The result type of the innermost method; nothing if there is no method around. -/
  result : Option Tree
  /-- The name of the innermost class. -/
  owner : Option String

/-- The result type of a method as default values see it: a constructor has none. -/
def resultOf : Tree → Option Tree
  | .methodDecl _ name _ _ result _ _ _ =>
    if name == initName || result.isMissing then some (.primitive default .void) else some result
  | _ => none

/-- A scope for code that goes into a class and, if one is given, a method of it. -/
def Scope.of (mark : Mark) (className : String) (host : Tree) : Scope :=
  ⟨mark, resultOf host, if className.isEmpty then none else some className⟩

/-- The place in which a piece of code stands. -/
inductive Place where
  /-- An expression or a declaration. -/
  | value
  /-- A statement: expressions become statements. -/
  | statement
  /-- A part whose absence cannot even be looked at. -/
  | part
deriving DecidableEq

/-- What happens where nothing stands. -/
def Place.absent {α : Type} : Place → Except Abort α
  | part => throw .hole
  | _ => throw (.promise "javac: cannot lower <nil>")

/-- The binary operators that code can use. -/
def binaryOp? (op : String) : Option BinaryOp :=
  [("+", BinaryOp.plus), ("-", .minus), ("*", .times), ("/", .divide), ("&&", .and),
   ("||", .or)].lookup op

/-- The unary operators that code can use. -/
def unaryOp? (op : String) : Option UnaryOp :=
  [("!", UnaryOp.not), ("+", .plus), ("-", .minus)].lookup op

/-- A dotted name as a tree. A dot in front is dropped. -/
def dotted (m : Mark) (name : String) : Except Abort Tree :=
  if name.isEmpty then throw (.promise "javac: empty type name")
  else return Tree.ofDotted m (if name.startsWith "." then (name.drop 1).toString else name)

/-- A statement that returns the default value of a method's result. -/
def defaultReturn (m : Mark) (result : Option Tree) : Except Abort Tree :=
  match result with
  | none => throw (.promise "javac: ReturnDefault outside of a method")
  | some (.primitive _ .void) => return .returning m .missing
  | some (.primitive _ tag) => return .returning m (.literal m tag.zero)
  | some _ => return .returning m (.literal m .null)

/-- A type inside array brackets. -/
def arrayOf (m : Mark) : Nat → Tree → Tree
  | 0, t => t
  | n + 1, t => arrayOf m n (.arrayType m t)

/-- An expression standing as a statement. -/
def asStatement (m : Mark) (p : Place) (t : Tree) : Tree :=
  if p == .statement then .exec m t else t

/-- A tree that can stand in a block. -/
def isHostStatement : Tree → Bool
  | .classDecl .. | .varDecl .. | .block .. | .ifThen .. | .whileLoop .. | .doLoop ..
  | .forLoop .. | .foreachLoop .. | .labeled .. | .switchOn .. | .synchronizedOn ..
  | .tryCatch .. | .throwing .. | .returning .. | .breaking .. | .continuing .. | .skip _
  | .exec .. => true
  | _ => false

/-- An expression statement, as the update of a loop has to be one. -/
def isExec : Tree → Bool
  | .exec .. => true
  | _ => false

/-- The annotation on methods that implement another one. -/
def overrideUse (m : Mark) : Tree :=
  .annoUse m (Tree.ofDotted m "java.lang.Override") []

/-- Arguments of an annotation, with their names where they have one. -/
def namedValues (m : Mark) (names : List String) (values : List Tree) : List Tree :=
  List.zipWith (fun n v => if n.isEmpty then v else .assign m (.ident m n) v) names values

mutual

/-- Lowers a piece of code in a place. -/
def lower (s : Scope) (p : Place) : Code → Except Abort Tree
  | missing => p.absent
  -- types
  | typeRef name args dims => do
    let e ← match TypeTag.ofKeyword? name with
      | some tag => pure (Tree.primitive s.mark tag)
      | none => dotted s.mark name
    let args ← lowerAll s .value args
    let e := if args.isEmpty then e else .typeApply s.mark e args
    return arrayOf s.mark dims.toNat e
  | hostType t => return t
  | wildcard bound t =>
    match bound with
    | .unbounded => return .wildcard s.mark .unbounded .missing
    | b => do return .wildcard s.mark b (← lower s .part t)
  -- expressions
  | named n => dotted s.mark n
  | field r n => do return .select s.mark (← lower s .value r) n
  | call r n ts as => do
    let callee ← match r with
      | missing => pure (Tree.ident s.mark n)
      | r => do pure (Tree.select s.mark (← lower s .value r) n)
    let ts ← lowerAll s .part ts
    let as ← lowerAll s .value as
    return asStatement s.mark p (.call s.mark ts callee as)
  | create t as b => do
    let body ← match b with
      | missing => pure Tree.missing
      | b => lower s .part b
    let t ← lower s .part t
    let as ← lowerAll s .value as
    return asStatement s.mark p (.newObject s.mark .missing [] t as body)
  | newArray t ds hasInit is => do
    let elem ← match t with
      | missing => pure Tree.missing
      | t => lower s .part t
    let is ← if hasInit then lowerAll s .value is else pure []
    let ds ← lowerAll s .value ds
    return .newArray s.mark elem ds hasInit is
  | cast t e => do return .cast s.mark (← lower s .part t) (← lower s .value e)
  | instanceOf e t => do return .instanceOf s.mark (← lower s .value e) (← lower s .part t)
  | binary l op r => do
    match binaryOp? op with
    | none => throw (.promise ("javac: unknown binary operator " ++ Text.quote op))
    | some op => return .binary s.mark op (← lower s .value l) (← lower s .value r)
  | unary op e => do
    match unaryOp? op with
    | none => throw (.promise ("javac: unknown unary operator " ++ Text.quote op))
    | some op => return .unary s.mark op (← lower s .value e)
  | equal l r negated => do
    return .binary s.mark (if negated then .ne else .eq) (← lower s .value l) (← lower s .value r)
  | assign l r => do
    return asStatement s.mark p (.assign s.mark (← lower s .value l) (← lower s .value r))
  | indexed a i => do return .indexed s.mark (← lower s .value a) (← lower s .value i)
  | this t =>
    match t with
    | missing => return .ident s.mark "this"
    | t => do return .select s.mark (← lower s .part t) "this"
  | bool b => return .literal s.mark (.boolean b)
  | char c => return .literal s.mark (.char c)
  | number n =>
    match n with
    | .literal l => return .literal s.mark l
    | .other _ => throw (.promise "javac: unsupported number literal string")
  | text t => return .literal s.mark (.text t)
  | null => return .literal s.mark .null
  | hostExpr t => return if isHostStatement t then t else asStatement s.mark p t
  -- statements
  | block ss => do return .block s.mark .empty (← lowerAll s .statement ss)
  | ifThen c y n => do
    let no ← match n with
      | missing => pure Tree.missing
      | n => lower s .statement n
    return .ifThen s.mark (← lower s .value c) (← lower s .statement y) no
  | whileLoop c b => do return .whileLoop s.mark (← lower s .value c) (← lower s .statement b)
  | doLoop b c => do return .doLoop s.mark (← lower s .statement b) (← lower s .value c)
  | forLoop i c u b => do
    let cond ← match c with
      | missing => pure Tree.missing
      | c => lower s .value c
    let u ← lowerUpdates s u
    let i ← lowerAll s .statement i
    return .forLoop s.mark i cond u (← lower s .statement b)
  | foreach v e b => do
    return .foreachLoop s.mark (← lower s .part v) (← lower s .value e) (← lower s .statement b)
  | switchOn e cs => do
    let cs ← lowerAll s .part cs
    return .switchOn s.mark (← lower s .value e) cs
  | switchCase pat ss => do
    let pat ← match pat with
      | missing => pure Tree.missing
      | pat => lower s .value pat
    return .switchCase s.mark pat (← lowerAll s .statement ss)
  | tryCatch b cs f => do
    let cs ← lowerAll s .part cs
    let f ← match f with
      | missing => pure Tree.missing
      | f => lower s .part f
    return .tryCatch s.mark (← lower s .part b) cs f
  | catchClause a b => do return .catchClause s.mark (← lower s .part a) (← lower s .part b)
  | throwing e => do return .throwing s.mark (← lower s .value e)
  | returning e =>
    match e with
    | missing => return .returning s.mark .missing
    | e => do return .returning s.mark (← lower s .value e)
  | returnDefault => defaultReturn s.mark s.result
  | synchronizedOn e b => do
    return .synchronizedOn s.mark (← lower s .value e) (← lower s .part b)
  | breaking label => return .breaking s.mark label
  | continuing label => return .continuing s.mark label
  | labeled label b => do return .labeled s.mark label (← lower s .statement b)
  | localDecl t n ms as i => do
    let init ← match i with
      | missing => pure Tree.missing
      | i => lower s .value i
    let as ← lowerAll s .part as
    return .varDecl s.mark n (.modifiers s.mark ms as) (← lower s .part t) init
  | hostStmt t => return t
  -- declarations
  | annoUse t names vs => do
    let vs ← lowerAll s .value vs
    return .annoUse s.mark (← lower s .part t) (namedValues s.mark names vs)
  | argument t n ms as => do
    let as ← lowerAll s .part as
    return .varDecl s.mark n (.modifiers s.mark ms as) (← lower s .part t) .missing
  | typeParam n bs => do return .typeParam s.mark n (← lowerAll s .part bs)
  | fieldDecl t n ms as i => do
    let init ← match i with
      | missing => pure Tree.missing
      | i => lower s .value i
    let as ← lowerAll s .part as
    return .varDecl s.mark n (.modifiers s.mark ms as) (← lower s .part t) init
  | methodDecl ms as tps r n ps ts ss noBody implementing => do
    let as ← lowerAll s .part as
    let as := if implementing then overrideUse s.mark :: as else as
    let tps ← lowerAll s .part tps
    let r ← lower s .part r
    let inner := { s with result := some r }
    let body ← if noBody then pure Tree.missing
      else do pure (Tree.block s.mark .empty (← lowerAll inner .statement ss))
    let ps ← lowerAll inner .part ps
    let ts ← lowerAll inner .part ts
    return .methodDecl s.mark n (.modifiers s.mark ms as) tps r ps ts body
  | constructorDecl ms as tps _ ps ts ss implicitSuper => do
    let inner := { s with result := some (.primitive s.mark .void) }
    let ss ← lowerAll inner .statement ss
    let ss := if implicitSuper then
        .exec s.mark (.call s.mark [] (.ident s.mark "super") []) :: ss
      else ss
    let tps ← lowerAll inner .part tps
    let as ← lowerAll inner .part as
    let ps ← lowerAll inner .part ps
    let ts ← lowerAll inner .part ts
    return .methodDecl s.mark initName (.modifiers s.mark ms as) tps .missing ps ts
      (.block s.mark .empty ss)
  | enumConstant n ps as => do
    match s.owner with
    | none => throw (.promise "javac: enum constant outside of an enum")
    | some owner =>
      let as ← lowerAll s .part as
      let ps ← lowerAll s .value ps
      let flags := ((Flags.publicFlag.union .staticFlag).union .finalFlag).union .enumFlag
      return .varDecl s.mark n (.modifiers s.mark flags as) (.ident s.mark owner)
        (.newObject s.mark .missing [] (.ident s.mark owner) ps .missing)
  | classDecl k ms as n tps e is cs fs mths ts => do
    let flags := if k.isInterface then ms.union .interfaceFlag
      else if k.isEnum then ms.union .enumFlag
      else ms
    let as ← lowerAll s .part as
    let n := if k.isAnonymous then "" else n
    let inner := { s with owner := some n }
    let tps ← lowerAll inner .part tps
    let ext ← match e with
      | missing => pure Tree.missing
      | e => lower inner .part e
    let cs ← lowerAll inner .part cs
    let fs ← lowerAll inner .part fs
    let mths ← lowerAll inner .part mths
    let ts ← lowerAll inner .part ts
    let is ← lowerAll inner .part is
    return .classDecl s.mark n (.modifiers s.mark flags as) tps ext is (cs ++ fs ++ mths ++ ts)
  | hostMethod t => return t

/-- Lowers the pieces of a list from the left. -/
def lowerAll (s : Scope) (p : Place) : List Code → Except Abort (List Tree)
  | [] => return []
  | c :: cs => do
    let t ← lower s p c
    return t :: (← lowerAll s p cs)

/-- Lowers the updates of a loop: each must become an expression statement. -/
def lowerUpdates (s : Scope) : List Code → Except Abort (List Tree)
  | [] => return []
  | c :: cs => do
    let t ← lower s .statement c
    if isExec t then return t :: (← lowerUpdates s cs)
    else throw (.promise ("javac: for update is not an expression statement: " ++ c.kind))

end

end Code

end Weaver
