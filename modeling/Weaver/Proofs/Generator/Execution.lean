import Weaver.Generator.Machine
import Weaver.Proofs.Generator.Pulls
/-!
Running statements, and running the dispatch loop of a generator.

Control flow is executed statement by statement: a configuration is what is being done, the frames
around it, and the store. Everything else is a parameter, a `Meaning`: expressions and the remaining
statements are arbitrary functions of the store that always give a result.

The direct run of a body and the dispatch loop of its machine are executed by the same `step`. They
differ in the store: the loop has fields of its own beside the variables of the body
(`Meaning.withFields`), and it begins again from the top with every pull, where the direct run goes
on behind its `yield`.
-/
set_option autoImplicit false

namespace Weaver.Generator

/-- What the parts of code mean that are not executed step by step: expressions, statements without
control flow, iterators, and the constants that a `case` is selected by. -/
structure Meaning (S V : Type) where
  value : Code → S → V × S
  effect : Code → S → S
  store : String → V → S → S
  convert : Code → V → V
  hasNext : V → S → V × S
  next : V → S → V × S
  selects : V → Code → Bool
  truth : V → Bool
  ofBool : Bool → V
  ofInt : Int → V
  truth_ofBool : ∀ b, truth (ofBool b) = b
  selects_int : ∀ a b, selects (ofInt a) (.int b) = (a == b)

/-- A jump. Without a label, the label is empty. -/
inductive Jump where
  | brk (label : String)
  | cont (label : String)
  | ret
deriving DecidableEq

/-- What leaves the statements around: a jump to the place that catches it, or a returned value. -/
inductive Exit (V : Type) where
  | jump (j : Jump)
  | value (v : V)

/-- A loop between two rounds. A `do` loop is a `while` loop that begins with its body. -/
inductive Cycle (V : Type) where
  | test (cond body : Code)
  | counted (cond : Code) (update : List Code) (body : Code)
  | each (type : Code) (var : String) (cursor : V) (body : Code)

/-- What surrounds the statement that is being executed. -/
inductive Frame (V : Type) where
  /-- The statements that follow. -/
  | rest (ss : List Code)
  /-- The body of a loop. -/
  | body (c : Cycle V)
  /-- What comes before the first round of a loop, and before each further one. -/
  | first (c : Cycle V)
  | again (c : Cycle V)
  | choice
  | label (l : String)
  /-- A `try` statement with the block that it ends with. -/
  | closing (final : Code)
  /-- That block, and what goes on leaving behind it. -/
  | after (pending : Option (Exit V))

/-- What is being done. -/
inductive Focus (V : Type) where
  | run (s : Code)
  | head (c : Cycle V)
  | done
  | leave (x : Exit V)

/-- A configuration of a run. -/
structure Config (S V : Type) where
  focus : Focus V
  stack : List (Frame V)
  store : S

/-- The labels of the statement whose frames these are. -/
def labelsOn {V : Type} : List (Frame V) → List String
  | .label l :: K => l :: labelsOn K
  | _ => []

/-- The value that a statement yields. -/
def yielded : Code → Option Code
  | .call r n ts [v] => if isYield (.call r n ts [v]) then some v else none
  | _ => none

/-- The value that a declaration gives its variable. An array initializer creates an array of the
declared type. -/
def initialValue (type init : Code) : Code :=
  match init, type with
  | .newArray .missing ds h is, .typeRef n as dims => .newArray (.typeRef n as (dims - 1)) ds h is
  | i, _ => i

/-- The statements of the cases one after the other: execution runs from one case into the next. -/
def caseStmts : List Code → List Code
  | [] => []
  | .switchCase _ ss :: cs => ss ++ caseStmts cs
  | _ :: cs => caseStmts cs

namespace Meaning

variable {S V : Type} (M : Meaning S V)

/-- The value of an expression. Constants, negations and casts are looked into, because the dispatch
loop builds such expressions from those of the body. -/
def eval : Code → S → V × S
  | .bool b, σ => (M.ofBool b, σ)
  | .number n, σ =>
    match n with
    | .literal (.int n) => (M.ofInt n, σ)
    | n => M.value (.number n) σ
  | .unary op e, σ =>
    if op = "!" then
      let (v, σ) := eval e σ
      (M.ofBool (!M.truth v), σ)
    else M.value (.unary op e) σ
  | .cast t e, σ =>
    let (v, σ) := eval e σ
    (M.convert t v, σ)
  | e, σ => M.value e σ

/-- What a statement without control flow does. -/
def perform : Code → S → S
  | .assign (.named x) e, σ =>
    let (v, σ) := M.eval e σ
    M.store x v σ
  | .localDecl t n _ _ i, σ =>
    if i.isMissing then σ
    else
      let (v, σ) := M.eval (initialValue t i) σ
      M.store n v σ
  | .missing, σ | .catchClause _ _, σ => σ
  | s, σ => M.effect s σ

/-- The statements that a `switch` runs for a value: those of the default where no case is
selected. -/
def selected (v : V) (cases : List Code) : List Code :=
  match findCase v cases with
  | [] => caseStmts (findDefault cases)
  | cs => caseStmts cs
where
  /-- The cases from the selected one on. -/
  findCase (v : V) : List Code → List Code
    | [] => []
    | .switchCase p ss :: cs =>
      if !p.isMissing && M.selects v p then .switchCase p ss :: cs else findCase v cs
    | _ :: cs => findCase v cs
  /-- The cases from the default on. -/
  findDefault : List Code → List Code
    | [] => []
    | .switchCase .missing ss :: cs => .switchCase .missing ss :: cs
    | _ :: cs => findDefault cs

/-- Begins a statement. -/
def start (s : Code) (K : List (Frame V)) (σ : S) : Move (Config S V) (V × S) :=
  match s with
  | .block ss | .switchCase _ ss => .silent ⟨.done, .rest ss :: K, σ⟩
  | .ifThen c y n =>
    let (v, σ) := M.eval c σ
    .silent ⟨.run (if M.truth v then y else n), K, σ⟩
  | .whileLoop c b => .silent ⟨.head (.test c b), K, σ⟩
  | .doLoop b c => .silent ⟨.run b, .body (.test c b) :: K, σ⟩
  | .forLoop i c u b => .silent ⟨.done, .rest i :: .first (.counted c u b) :: K, σ⟩
  | .foreach v e b =>
    match v with
    | .localDecl t n _ _ _ =>
      let (it, σ) := M.eval (.invoke e "iterator" []) σ
      .silent ⟨.head (.each t n it b), K, σ⟩
    | _ => .silent ⟨.done, K, σ⟩
  | .switchOn e cs =>
    let (v, σ) := M.eval e σ
    .silent ⟨.done, .rest (M.selected v cs) :: .choice :: K, σ⟩
  | .labeled l b => .silent ⟨.run b, .label l :: K, σ⟩
  | .synchronizedOn e b =>
    let (_, σ) := M.eval e σ
    .silent ⟨.run b, K, σ⟩
  | .tryCatch b _ f => .silent ⟨.run b, .closing f :: K, σ⟩
  | .breaking l => .silent ⟨.leave (.jump (.brk l)), K, σ⟩
  | .continuing l => .silent ⟨.leave (.jump (.cont l)), K, σ⟩
  | .returnDefault => .silent ⟨.leave (.jump .ret), K, σ⟩
  | .returning e =>
    if e.isMissing then .silent ⟨.leave (.jump .ret), K, σ⟩
    else
      let (v, σ) := M.eval e σ
      .silent ⟨.leave (.value v), K, σ⟩
  | s =>
    match yielded s with
    | some e =>
      let (v, σ) := M.eval e σ
      .pause (v, σ) ⟨.done, K, σ⟩
    | none => .silent ⟨.done, K, M.perform s σ⟩

/-- Begins a round of a loop, or ends the loop. -/
def round (c : Cycle V) (K : List (Frame V)) (σ : S) : Config S V :=
  match c with
  | .test e b =>
    let (v, σ) := M.eval e σ
    if M.truth v then ⟨.run b, .body c :: K, σ⟩ else ⟨.done, K, σ⟩
  | .counted e _ b =>
    if e.isMissing then ⟨.run b, .body c :: K, σ⟩
    else
      let (v, σ) := M.eval e σ
      if M.truth v then ⟨.run b, .body c :: K, σ⟩ else ⟨.done, K, σ⟩
  | .each t n it b =>
    let (h, σ) := M.hasNext it σ
    if M.truth h then
      let (v, σ) := M.next it σ
      ⟨.run b, .body c :: K, M.store n (M.convert t v) σ⟩
    else ⟨.done, K, σ⟩

end Meaning

section Frames

variable {S V : Type}

/-- Ends a round of a loop. -/
def nextRound (c : Cycle V) (K : List (Frame V)) (σ : S) : Config S V :=
  match c with
  | .counted _ u _ => ⟨.done, .rest u :: .again c :: K, σ⟩
  | _ => ⟨.head c, K, σ⟩

/-- Goes on in a frame behind what was done in it. -/
def resume (f : Frame V) (K : List (Frame V)) (σ : S) : Config S V :=
  match f with
  | .rest [] => ⟨.done, K, σ⟩
  | .rest (s :: ss) => ⟨.run s, .rest ss :: K, σ⟩
  | .body c => nextRound c K σ
  | .first c | .again c => ⟨.head c, K, σ⟩
  | .choice | .label _ => ⟨.done, K, σ⟩
  | .closing s => ⟨.run s, .after none :: K, σ⟩
  | .after none => ⟨.done, K, σ⟩
  | .after (some x) => ⟨.leave x, K, σ⟩

/-- Leaves a frame, or ends in it what a jump ends. -/
def unwind (x : Exit V) (f : Frame V) (K : List (Frame V)) (σ : S) : Config S V :=
  match f, x with
  | .body c, .jump (.cont l) =>
    if l.isEmpty || (labelsOn K).contains l then nextRound c K σ else ⟨.leave x, K, σ⟩
  | .body _, .jump (.brk l) | .choice, .jump (.brk l) =>
    if l.isEmpty then ⟨.done, K, σ⟩ else ⟨.leave x, K, σ⟩
  | .label l', .jump (.brk l) | .label l', .jump (.cont l) =>
    if !l.isEmpty && l == l' then ⟨.done, K, σ⟩ else ⟨.leave x, K, σ⟩
  | .closing s, x => ⟨.run s, .after (some x) :: K, σ⟩
  | _, x => ⟨.leave x, K, σ⟩

end Frames

namespace Meaning

variable {S V : Type} (M : Meaning S V)

/-- One step of a run. It pauses at the yields. -/
def step (c : Config S V) : Move (Config S V) (V × S) :=
  match c.focus, c.stack with
  | .run s, K => M.start s K c.store
  | .head l, K => .silent (M.round l K c.store)
  | .done, f :: K => .silent (resume f K c.store)
  | .leave x, f :: K => .silent (unwind x f K c.store)
  | _, [] => .stop

end Meaning

/-! ## The dispatch loop -/

/-- The store of the dispatch loop: that of the body, and the fields that the body does not know. -/
structure Memory (S V : Type) where
  user : S
  own : String → V

namespace Meaning

variable {S V : Type} (M : Meaning S V) (hidden : List String)

/-- A result for the store of the body, as one for the whole store. -/
def lift (m : Memory S V) (r : V × S) : V × Memory S V := (r.1, { m with user := r.2 })

/-- The value of an expression that may be about a hidden field. -/
def fieldValue (e : Code) (m : Memory S V) : V × Memory S V :=
  match e with
  | .named x => if x ∈ hidden then (m.own x, m) else lift m (M.value e m.user)
  | .call (.named x) method [] [] =>
    if x ∈ hidden then
      if method = "hasNext" then lift m (M.hasNext (m.own x) m.user)
      else if method = "next" then lift m (M.next (m.own x) m.user)
      else lift m (M.value e m.user)
    else lift m (M.value e m.user)
  | e => lift m (M.value e m.user)

/-- The same code in a class that has the hidden fields. -/
def withFields : Meaning (Memory S V) V where
  value := M.fieldValue hidden
  effect c m := { m with user := M.effect c m.user }
  store x v m :=
    if x ∈ hidden then { m with own := fun y => if y = x then v else m.own y }
    else { m with user := M.store x v m.user }
  convert := M.convert
  hasNext v m := lift m (M.hasNext v m.user)
  next v m := lift m (M.next v m.user)
  selects := M.selects
  truth := M.truth
  ofBool := M.ofBool
  ofInt := M.ofInt
  truth_ofBool := M.truth_ofBool
  selects_int := M.selects_int

/-- The dispatch loop at the beginning of a pull. -/
def enter (m : Machine) (store : Memory S V) : Config (Memory S V) V :=
  ⟨.run (.whileLoop (.bool true) m.switch), [], store⟩

/-- One step of the dispatch loop. When it returns true, the next element is in its field, and the
next pull begins from the top; otherwise there are no more elements. -/
def dispatch (m : Machine) (c : Config (Memory S V) V) :
    Move (Config (Memory S V) V) (V × S) :=
  match (M.withFields hidden).step c with
  | .silent c' => .silent c'
  | .pause (v, σ) c' => .pause (v, σ.user) c'
  | .stop =>
    match c.focus with
    | .leave (.value v) =>
      if M.truth v then .pause (c.store.own nextField, c.store.user) (enter m c.store) else .stop
    | _ => .stop

end Meaning

end Weaver.Generator
