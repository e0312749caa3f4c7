import Weaver.Handler.Basic
import Weaver.Anno.Reading
/-!
Methods that hold a lock, and that await or signal conditions.

The body of the method is wrapped: the lock is taken before it and given back after it, whatever
happens. Locks and conditions are fields of the type; those that are not there yet are added.
-/
set_option autoImplicit false

namespace Weaver.Handler

open Weaver.Syntax (Flags)

/-- What goes around the body of a method that holds a lock. -/
structure LockPlan where
  /-- What is locked. -/
  lock : Code
  /-- The fields that it needs, with their names. -/
  fields : List (String × Code)
  before : List Code
  after : List Code
  /-- The body waits, and waiting can be interrupted. -/
  interruptible : Bool

namespace LockPlan

/-- A plan that needs only the field of its lock. -/
def start (lock : Code) (field : String × Code) : LockPlan := ⟨lock, [field], [], [], false⟩

/-- Needs a field. -/
def need (p : LockPlan) (field : String × Code) : LockPlan :=
  { p with fields := p.fields ++ [field] }

/-- Puts a statement on a side of the body. -/
def place (p : LockPlan) (side : Side) (s : Code) : LockPlan :=
  match side with
  | .before => { p with before := p.before ++ [s] }
  | .after => { p with after := p.after ++ [s] }

/-- The body with the lock around it. -/
def wrap (p : LockPlan) (body : List Code) : List Code :=
  [.invoke p.lock "lock" [],
   .tryCatch (.block (p.before ++ body)) [] (.block (p.after ++ [.invoke p.lock "unlock" []]))]

/-- The fields that are missing, each name once. -/
def missing (p : LockPlan) (u : SourceUnit) (type : Key) : List Code :=
  let absent := p.fields.filter fun f => u.fieldExistence type f.1 == .absent
  (absent.foldl (fun acc f => if acc.any (·.1 == f.1) then acc else acc ++ [f]) []).map (·.2)

end LockPlan

/-- A private field that is set once. -/
def lockField (type name : String) (init : Code) : String × Code :=
  (name, .fieldOf (.type type) name (Flags.privateFlag.union .finalFlag) init)

/-- The plan of a method that holds one half of a lock with two halves. -/
def readWritePlan (i : Invocation) (a : AnnoUse) (half : String) : Weave (Option LockPlan) := do
  let name := Text.trim (← memberText a "value")
  if name.isEmpty then i.refuse (.emptyMember i.handler "lockName")
  else
    let field := lockField "java.util.concurrent.locks.ReadWriteLock" name
      (.new (.type "java.util.concurrent.locks.ReentrantReadWriteLock") [])
    return some (.start (.invoke (.ownField name) half []) field)

/-- A condition that is awaited: its name, the method that says whether to wait, and where. -/
structure Awaited where
  condition : String
  method : String
  side : Side

/-- A condition that is signaled: its name, and where. -/
structure Signaled where
  condition : String
  side : Side

/-- What an annotation says about conditions. -/
structure Conditions where
  awaited : Option Awaited
  signaled : Option Signaled
  lockName : String

namespace Conditions

/-- Conditions without white space around their names. -/
def trimmed (c : Conditions) : Conditions :=
  ⟨c.awaited.map fun a =>
      { a with condition := Text.trim a.condition, method := Text.trim a.method },
   c.signaled.map fun s => { s with condition := Text.trim s.condition }, Text.trim c.lockName⟩

/-- The lock of the conditions, named after them if it has no name of its own. -/
def lock (c : Conditions) : String :=
  if c.lockName.isEmpty then
    "$" ++ Text.decapitalize (Text.camelCase ""
      [(c.awaited.map (·.condition)).getD "", (c.signaled.map (·.condition)).getD "", "lock"])
  else c.lockName

/-- The field of a condition. -/
def field (lock name : String) : String × Code :=
  lockField "java.util.concurrent.locks.Condition" name (.invoke (.named lock) "newCondition" [])

/-- The loop that waits for a condition. -/
def wait (a : Awaited) : Code :=
  .whileLoop (.invoke .self a.method []) (.block [.invoke (.ownField a.condition) "await" []])

/-- The plan of a method with conditions. -/
def plan (c : Conditions) : LockPlan :=
  let lock := c.lock
  let p := LockPlan.start (.ownField lock)
    (lockField "java.util.concurrent.locks.Lock" lock
      (.new (.type "java.util.concurrent.locks.ReentrantLock") []))
  let p := match c.awaited with
    | some a =>
      { (p.need (field lock a.condition)).place a.side (wait a) with interruptible := true }
    | none => p
  match c.signaled with
  | some s =>
    (p.need (field lock s.condition)).place s.side (.invoke (.ownField s.condition) "signal" [])
  | none => p

/-- A name that must not be empty. -/
def emptyMember? (c : Conditions) : Option String :=
  if (c.awaited.any (·.condition.isEmpty)) || (c.signaled.any (·.condition.isEmpty)) then
    some "conditionName"
  else if c.awaited.any (·.method.isEmpty) then some "conditionMethod"
  else none

/-- What `@Signal` says. -/
def ofSignal (a : AnnoUse) : Except String Conditions := do
  let condition ← a.readText "value"
  let side ← a.readSide "pos"
  return ⟨none, some ⟨condition, side⟩, ← a.readText "lockName"⟩

/-- What `@Await` says. -/
def ofAwait (a : AnnoUse) : Except String Conditions := do
  let condition ← a.readText "value"
  let method ← a.readText "conditionMethod"
  let side ← a.readSide "pos"
  return ⟨some ⟨condition, method, side⟩, none, ← a.readText "lockName"⟩

/-- What `@AwaitBeforeAndSignalAfter` says. -/
def ofBoth (a : AnnoUse) : Except String Conditions := do
  let awaited ← a.readText "awaitConditionName"
  let method ← a.readText "awaitConditionMethod"
  let signaled ← a.readText "signalConditionName"
  return ⟨some ⟨awaited, method, .before⟩, some ⟨signaled, .after⟩, ← a.readText "lockName"⟩

end Conditions

/-- The plan of a method with conditions. -/
def conditionPlan (i : Invocation) (said : Except String Conditions) :
    Weave (Option LockPlan) := do
  match said with
  | .error message => i.stop message
  | .ok c =>
    let c := c.trimmed
    match c.emptyMember? with
    | some m => i.refuse (.emptyMember i.handler m)
    | none => return some c.plan

/-- A handler that wraps the body of a method by a plan. -/
def locking (name : String) (plan : Invocation → AnnoUse → Weave (Option LockPlan)) : Handler :=
  .onAnno name Priority.wrap fun i a => do
    match ← i.concreteMethod with
    | none => return none
    | some m =>
      match ← plan i a with
      | none => return none
      | some p =>
        let u ← Weave.unit
        let type := i.type u
        let fields := p.missing u type
        return some do
          let body := p.wrap ((← Weave.unit).statements m .none)
          return .ok do
            for f in fields do
              Weave.editing (.injectField type f)
            Weave.editing (.replaceBody m body)
            if p.interruptible then
              Weave.editing (.addThrown m [.type "java.lang.InterruptedException"])
            return [type]

def readLock : Handler :=
  locking Known.readLock fun i a => readWritePlan i a "readLock"

def writeLock : Handler :=
  locking Known.writeLock fun i a => readWritePlan i a "writeLock"

def signal : Handler :=
  locking Known.signal fun i a => conditionPlan i (Conditions.ofSignal a)

def await : Handler :=
  locking Known.await fun i a => conditionPlan i (Conditions.ofAwait a)

def awaitBeforeAndSignalAfter : Handler :=
  locking Known.awaitBeforeAndSignalAfter fun i a => conditionPlan i (Conditions.ofBoth a)

end Weaver.Handler
