import Weaver.Generator.Jump
/-!
Cutting a generator body into states.

The body becomes a list of states, cut at every yield and wherever control can arrive from
elsewhere. A label is a place that jumps can go to; it gets its state when it is opened, which may
be after the jumps to it were written, so jumps hold labels and are resolved at the end. A state
that has no operation yet is reused by a label, and nothing is added behind an operation that ends
its state.
-/
set_option autoImplicit false

namespace Weaver.Generator

open Weaver.Syntax (Flags)

/-- How control leaves a state. -/
inductive Transition where
  /-- It runs into the next state. -/
  | through
  /-- It produces an element and resumes at another state. -/
  | emit
  /-- It goes on at another state at once. -/
  | jump
  /-- There are no more elements. -/
  | terminal
deriving Repr, DecidableEq, Inhabited

/-- All transitions, in the order of their numbers. -/
def Transition.all : List Transition := [through, emit, jump, terminal]

/-- The name of a transition. -/
def Transition.name : Transition → String
  | through => "fallthrough"
  | emit => "emit"
  | jump => "jump"
  | terminal => "terminal"

/-- A numbered state: its statements, how control leaves it, and where to. -/
structure State where
  id : Nat
  stmts : List Code
  transition : Transition
  next : Nat
deriving Inhabited

/-- A compiled body: its states and the fields that hold its variables. -/
structure Machine where
  states : List State
  fields : List Code
deriving Inhabited

/-- The number of a label. -/
abbrev Label := Nat

/-- The exit of a loop and the place of its next round. -/
structure Loop where
  exit : Label
  next : Label

/-- An operation of a state. -/
inductive Operation where
  | stmt (s : Code)
  /-- A statement kept whole, in the loop it stands in. -/
  | kept (construct : String) (s : Code) (loop : Option Loop)
  | jump (target : Label)
  | branch (cond : Code) (target : Label)
  | yield (value : Code) (resume : Label)

/-- The operation ends its state. -/
def Operation.ends : Operation → Bool
  | jump _ | yield .. => true
  | _ => false

/-- What is known of a label: the state it was opened in, and whether a jump goes to it. -/
structure LabelInfo where
  state : Option Nat
  used : Bool

/-- The state of a compilation. The states that are complete come before the current one. -/
structure Compiler where
  complete : List (List Operation)
  current : List Operation
  labels : List LabelInfo
  /-- The variables of the body with their types. -/
  locals : List (String × Code)
  fields : List Code
  cursors : List Code

/-- A step of a compilation. -/
abbrev Compile := StateT Compiler (Except Fault)

/-- The label of the end of the body. -/
def finishLabel : Label := 0

/-- Nothing compiled yet; the end of the body has a label. -/
def Compiler.start : Compiler :=
  ⟨[], [], [({ state := none, used := false } : LabelInfo)], [], [], []⟩

/-- A new label. -/
def newLabel : Compile Label := do
  let c ← get
  set { c with labels := c.labels ++ [({ state := none, used := false } : LabelInfo)] }
  return c.labels.length

/-- Begins a new state. -/
def newState : Compile Unit :=
  modify fun c => { c with complete := c.complete ++ [c.current], current := [] }

/-- Changes what is known of a label. -/
def updateLabel (l : Label) (f : LabelInfo → LabelInfo) : Compile Unit :=
  modify fun c => { c with labels := c.labels.modify l f }

/-- Marks a label as the target of a jump. -/
def useLabel (l : Label) : Compile Unit :=
  updateLabel l ({ · with used := true })

/-- Places a label here. A state without operations is reused. -/
def openLabel (l : Label) : Compile Unit := do
  if !(← get).current.isEmpty then newState
  let here := (← get).complete.length
  updateLabel l ({ · with state := some here })

/-- Places a label here if a jump goes to it already. -/
def openIfUsed (l : Label) : Compile Unit := do
  if ((← get).labels[l]?).any (·.used) then openLabel l

/-- The current state is ended by its last operation. -/
def isEnded : Compile Bool :=
  return ((← get).current.getLast?).any Operation.ends

/-- Adds an operation. -/
def emit (o : Operation) : Compile Unit := do
  if ← isEnded then newState
  modify fun c => { c with current := c.current ++ [o] }
  match o with
  | .jump l | .branch _ l | .yield _ l => useLabel l
  | _ => pure ()

/-- Two declarations of a variable have the same type. Types taken over as trees are all
different. -/
def sameType (a b : Code) : Bool :=
  match a, b with
  | .typeRef .., .typeRef .. => a.typeText == b.typeText
  | _, _ => false

/-- Makes a variable of the body a field. -/
def hoist (type : Code) (name : String) : Compile Unit := do
  match (← get).locals.lookup name with
  | some t =>
    if t.isMissing || type.isMissing then throw .hole
    if !sameType t type then throw (.twoTypes name)
  | none =>
    modify fun c => { c with
      locals := c.locals ++ [(name, type)]
      fields := c.fields ++ [.fieldOf type name .privateFlag .missing] }

/-- An array initializer with the type that its declaration gave it. -/
def typedInit (type : Code) (name : String) (init : Code) : Except Fault Code :=
  match init with
  | .newArray .missing ds h is =>
    match type with
    | .missing => throw .hole
    | .typeRef n as dims =>
      if dims == 0 then throw (.arrayType name)
      else return .newArray (.typeRef n as (dims - 1)) ds h is
    | _ => throw (.arrayType name)
  | i => return i

/-- Turns a declaration into a field and the assignment of its value. -/
def localVariable (type : Code) (name : String) (init : Code) : Compile Unit := do
  hoist type name
  if !init.isMissing then
    emit (.stmt (.assign (.named name) (← typedInit type name init)))

/-- The condition that always holds. -/
def isTrue : Code → Bool
  | .bool b => b
  | _ => false

/-- The negation of a condition. -/
def negated (c : Code) : Code := .unary "!" c

/-- The name of the field with the cursor of a loop over a collection. -/
def cursorName (var : String) : String := "$" ++ var ++ "Iter"

/-- The field with the cursor of a loop over a collection. -/
def cursorField (name : String) : Code :=
  .fieldDecl (.type "java.util.Iterator") name .privateFlag
    [.annoUse (.type "java.lang.SuppressWarnings") [""] [.text "rawtypes"]] .missing

/-- Labels of a kept statement that its jumps go to. -/
def leaveLabel (loop : Option Loop) : Leave → Option Label
  | .finish => some finishLabel
  | .exit => loop.map (·.exit)
  | .next => loop.map (·.next)

/-- Keeps a statement whole. -/
def keep (construct : String) (s : Code) (loop : Option Loop) : Compile Unit := do
  let targets : Targets := ⟨finishLabel, loop.map fun l => (l.exit, l.next)⟩
  let (_, leaves) ← keepStatement targets construct s
  for l in leaves.filterMap (leaveLabel loop) do useLabel l
  emit (.kept construct s loop)

mutual

/-- Compiles a statement that stands in a loop, or in none. -/
def compileStmt (loop : Option Loop) (s : Code) : Compile Unit := do
  if !containsYield s && hasOpenTry s then throw .hole
  if !needsLowering s then
    match s with
    | .localDecl t n _ _ i => localVariable t n i
    | s => emit (.stmt s)
  else match s with
    | .call _ _ _ args =>
      if !isYield s then throw .notAStatement
      match args with
      | [v] =>
        let resume ← newLabel
        emit (.yield v resume)
        openLabel resume
      | _ => throw .arguments
    | .block ss => compileStmts loop ss
    | .ifThen c y n =>
      let no ← newLabel
      emit (.branch (negated c) no)
      compileStmt loop y
      match n with
      | .missing => openLabel no
      | n =>
        let ended ← isEnded
        let join ← newLabel
        if !ended then emit (.jump join)
        openLabel no
        compileStmt loop n
        if !ended then openLabel join
    | .whileLoop c b =>
      let head ← newLabel
      let exit ← newLabel
      openLabel head
      if !isTrue c then emit (.branch (negated c) exit)
      compileStmt (some ⟨exit, head⟩) b
      emit (.jump head)
      openLabel exit
    | .doLoop b c =>
      let head ← newLabel
      let next ← newLabel
      let exit ← newLabel
      openLabel head
      compileStmt (some ⟨exit, next⟩) b
      openIfUsed next
      if isTrue c then emit (.jump head) else emit (.branch c head)
      openLabel exit
    | .forLoop i c u b =>
      compileStmts loop i
      let head ← newLabel
      let next ← newLabel
      let exit ← newLabel
      openLabel head
      if !c.isMissing && !isTrue c then emit (.branch (negated c) exit)
      compileStmt (some ⟨exit, next⟩) b
      openIfUsed next
      compileStmts loop u
      emit (.jump head)
      openLabel exit
    | .foreach v e b =>
      match v with
      | .localDecl t n _ _ _ =>
        hoist t n
        let cursor := cursorName n
        modify fun c => { c with cursors := c.cursors ++ [cursorField cursor] }
        emit (.stmt (.assign (.named cursor) (.invoke e "iterator" [])))
        let head ← newLabel
        let exit ← newLabel
        openLabel head
        emit (.branch (negated (.invoke (.named cursor) "hasNext" [])) exit)
        emit (.stmt (.assign (.named n) (.cast t (.invoke (.named cursor) "next" []))))
        compileStmt (some ⟨exit, head⟩) b
        emit (.jump head)
        openLabel exit
      | _ => throw .hole
    | .breaking l =>
      if !l.isEmpty then throw (.breakLabel l)
      match loop with
      | none => throw .breakOutside
      | some loop => emit (.jump loop.exit)
    | .continuing l =>
      if !l.isEmpty then throw (.continueLabel l)
      match loop with
      | none => throw .continueOutside
      | some loop => emit (.jump loop.next)
    | .returning e =>
      match e with
      | .missing => emit (.jump finishLabel)
      | _ => throw .returnsValue
    | .returnDefault => emit (.jump finishLabel)
    | .tryCatch .. => if containsYield s then throw .insideTry else keep "try" s loop
    | .synchronizedOn .. =>
      if containsYield s then throw .insideSynchronized else keep "synchronized" s loop
    | .switchOn .. => if containsYield s then throw .insideSwitch else keep "switch" s loop
    | .labeled l _ => if containsYield s then throw (.insideLabeled l) else keep "labeled" s loop
    | _ => throw .notAStatement

/-- Compiles statements one after the other. -/
def compileStmts (loop : Option Loop) : List Code → Compile Unit
  | [] => return
  | s :: ss => do
    compileStmt loop s
    compileStmts loop ss

end

/-- The state that a label was opened in. -/
def Compiler.stateOf (c : Compiler) (l : Label) : Nat :=
  ((c.labels[l]?).bind (·.state)).getD 0

/-- The statements of an operation once all labels are known. -/
def Compiler.stmtsOf (c : Compiler) : Operation → List Code
  | .stmt s => [s]
  | .kept construct s loop =>
    let targets : Targets :=
      ⟨c.stateOf finishLabel, loop.map fun l => (c.stateOf l.exit, c.stateOf l.next)⟩
    match keepStatement targets construct s with
    | .ok (s, _) => [s]
    | .error _ => [s]
  | .jump l => goTo (c.stateOf l)
  | .branch cond l => [.ifThen cond (.block (goTo (c.stateOf l))) .missing]
  | .yield v l =>
    [.assign (.named "$next") v, .assign (.named stateField) (.int (c.stateOf l)),
     .returning (.bool true)]

/-- A numbered state of its operations; the last state reports the end. -/
def Compiler.stateFor (c : Compiler) (last : Bool) (id : Nat) (ops : List Operation) : State :=
  let (transition, next) := match ops.getLast? with
    | some (.jump l) => (Transition.jump, c.stateOf l)
    | some (.yield _ l) => (.emit, c.stateOf l)
    | _ => (if last then .terminal else .through, 0)
  ⟨id, ops.flatMap c.stmtsOf, transition, next⟩

/-- The machine of a finished compilation. -/
def Compiler.machine (c : Compiler) : Machine :=
  let all := c.complete ++ [c.current]
  ⟨all.mapIdx fun i ops => c.stateFor (i + 1 == all.length) i ops, c.fields ++ c.cursors⟩

/-- Compiles the body of a generator. -/
def compile (body : List Code) : Except Fault Machine := do
  let ((), c) ← (do compileStmts none body; openLabel finishLabel : Compile Unit).run .start
  return c.machine

end Weaver.Generator
