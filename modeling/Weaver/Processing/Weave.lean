import Weaver.Processing.Diagnostic
import Weaver.Processing.Config
import Weaver.SourceUnit.Edit
/-!
Handlers and their work on a unit.

A handler is triggered by an annotation on an element, by an interface that a type implements, or by
a call of a static method. It works in phases. First it checks the element and may stop there. Then
it builds what it needs, which can fail. Only then does it splice, that is, change the unit; it says
which elements have to be registered anew. The phases are nested: checking gives what builds, and
building gives what splices.
-/
set_option autoImplicit false

namespace Weaver

open Weaver.Source (Position)

/-- The state of work on a unit. -/
structure Bench where
  unit : SourceUnit
  collector : Collector
  /-- The number of diagnostics of this processing that fail it. -/
  errors : Nat
  /-- What was done once for an element: a key, the name and the place of the element. -/
  done : List (String × String × Position)
  /-- The current invocation has reported an error. -/
  failed : Bool
  /-- Remarks of handlers, the latest last. -/
  notes : List String
deriving Inhabited

/-- Work on a unit, which can break off. -/
abbrev Weave := ExceptT Abort (StateM Bench)

/-- What changes the unit and says which elements to register anew. -/
abbrev Splice := Weave (List Key)

/-- What prepares a change; it fails with a message. -/
abbrev Build := Weave (Except String Splice)

/-- What makes a handler run. -/
inductive Trigger where
  | annotated
  | implementing
  | calling
deriving Repr, DecidableEq, Inhabited

/-- All triggers, in the order of their numbers. -/
def Trigger.all : List Trigger := [annotated, implementing, calling]

/-- The name of a trigger. -/
def Trigger.name : Trigger → String
  | annotated => "annotation"
  | implementing => "implements"
  | calling => "call"

/-- One run of a handler: on an element, for an annotation if that triggers it. -/
structure Invocation where
  handler : String
  anno : Option AnnoUse
  element : Key
deriving Inhabited

/-- A handler. It is named for the annotation, interface or method that triggers it. -/
structure Handler where
  name : String
  trigger : Trigger
  /-- Handlers with a lower number run first. -/
  priority : Int
  /-- Checks an invocation; nothing if it stops there. -/
  check : Invocation → Weave (Option Build)

namespace Handler

/-- The name without its package and outer types. -/
def simpleName (h : Handler) : String := Text.lastSegment h.name

/-- Handlers in the order of their priorities, then of their names. -/
def ordered (hs : List Handler) : List Handler :=
  hs.mergeSort fun a b => a.priority < b.priority || (a.priority == b.priority && a.name ≤ b.name)

end Handler

namespace Weave

/-- The unit as it is now. -/
def unit : Weave SourceUnit := do return (← get).unit

/-- Carries out a change to the unit. -/
def editing {α : Type} (e : Edit α) : Weave α := do
  let b ← get
  let (r, u) := e.run b.unit
  set { b with unit := u }
  match r with
  | .ok a => return a
  | .error x => throw x

/-- Remarks something. -/
def note (s : String) : Weave Unit :=
  modify fun b => { b with notes := b.notes ++ [s] }

/-- Records a diagnostic of a handler at a place. -/
def report (handler : String) (severity : Severity) (pos : Position) (message : String) :
    Weave Unit :=
  modify fun b =>
    let d : Diagnostic := ⟨severity, message, b.unit.file, pos, handler⟩
    { b with
      collector := b.collector.report d
      errors := b.errors + if b.collector.fails d then 1 else 0 }

/-- A key comes up for the first time on an element. -/
def once (key : String) (element : Key) : Weave Bool := do
  let b ← get
  let k := (key, b.unit.name element, b.unit.pos element)
  if b.done.contains k then return false
  set { b with done := k :: b.done }
  return true

end Weave

namespace Invocation

/-- The place that diagnostics are about: the annotation, or else the element. -/
def pos (i : Invocation) (u : SourceUnit) : Position :=
  match i.anno with
  | some a => a.pos
  | none => u.pos i.element

/-- Reports an error. -/
def error (i : Invocation) (message : String) : Weave Unit := do
  modify fun b => { b with failed := true }
  Weave.report i.handler .error (i.pos (← Weave.unit)) message

/-- Reports a warning. -/
def warn (i : Invocation) (message : String) : Weave Unit := do
  Weave.report i.handler .warning (i.pos (← Weave.unit)) message

/-- The invocation has reported no error. -/
def sound : Weave Bool := do return !(← get).failed

/-- The method that is the element or has it as a parameter. -/
def method? (i : Invocation) (u : SourceUnit) : Option Key :=
  match u.nodeKind i.element with
  | .method => some i.element
  | .param => u.registry.parent? i.element
  | _ => none

/-- The type that is the element or is around it. -/
def type (i : Invocation) (u : SourceUnit) : Key :=
  match u.nodeKind i.element with
  | .type => i.element
  | _ => (u.typeAround? i.element).getD 0

/-- Runs a handler through its phases. -/
def run (i : Invocation) (h : Handler) : Weave Unit := do
  modify fun b => { b with failed := false }
  match ← h.check i with
  | none => return
  | some build =>
    match ← build with
    | .error message => i.error message
    | .ok splice =>
      Weave.editing (.attributeTo i.anno (some i.element))
      for k in ← splice do
        Weave.editing (.rebuild k)

end Invocation

end Weaver
