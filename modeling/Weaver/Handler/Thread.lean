import Weaver.Handler.Basic
/-!
Methods whose body runs somewhere else: on the event thread, or with privileges.

The body moves into a method of an anonymous class, where `this` has to be qualified.
-/
set_option autoImplicit false

namespace Weaver.Handler

open Weaver.Syntax (Flags)

/-- The body of a method as it stands inside a class in the method. -/
def movedBody (u : SourceUnit) (m : Key) : List Code :=
  u.statements m (.inside (((u.registry.parent? m).map u.name).getD ""))

/-! ## The event thread -/

/-- The queue of the event thread. -/
def eventQueue : Code := .named "java.awt.EventQueue"

/-- Hands a task to the event thread and goes on. -/
def dispatchLater (task : Code) (_thrown : List Code) : List Code :=
  [.invoke eventQueue "invokeLater" [task]]

/-- Hands a task to the event thread and waits for its end. -/
def dispatchAndWait (task : Code) (thrown : List Code) : List Code :=
  [.tryCatch (.block [.invoke eventQueue "invokeAndWait" [task]])
    [.catchClause (.param (.type "java.lang.InterruptedException") "$ex1")
      (.block [.invoke (.invoke (.named "java.lang.Thread") "currentThread" []) "interrupt" []]),
     .catchClause (.param (.type "java.lang.reflect.InvocationTargetException") "$ex2")
      (.block (Code.rethrowCause "$ex2" thrown))]
    .missing]

/-- The body of a method that runs on the event thread. -/
def eventBody (u : SourceUnit) (m : Key) (dispatch : Code → List Code → List Code) : List Code :=
  let runnable := Code.type "java.lang.Runnable"
  let name := "$" ++ u.name m ++ "Runnable"
  let task := Code.named name
  let run := Code.methodDecl .publicFlag [] [] (.type "void") "run" [] [] (movedBody u m) false true
  [.constant runnable name (.create runnable [] (.anonymous [run])),
   .ifThen (.invoke eventQueue "isDispatchThread" []) (.block [.invoke task "run" []])
    (.block (dispatch task (u.thrown m)))]

/-- A handler that moves the body of a method to the event thread. -/
def onEventThread (name : String) (dispatch : Code → List Code → List Code) : Handler :=
  .onAnno name Priority.wrap fun i _ => do
    match ← i.concreteMethod with
    | none => return none
    | some m =>
      if (← Weave.unit).returnType m |>.isVoid then
        return some do
          return replacingBody m (eventBody (← Weave.unit) m dispatch)
      else i.refuse (.voidMethodsOnly i.handler)

def swingInvokeLater : Handler := onEventThread Known.swingInvokeLater dispatchLater

def swingInvokeAndWait : Handler := onEventThread Known.swingInvokeAndWait dispatchAndWait

/-! ## Privileges -/

/-- A parameter that the body sees only through a function. -/
structure SanitizedParam where
  param : Key
  function : String

/-- The sanitized parameters of a method; those without a function are reported. -/
def sanitizedParams (i : Invocation) : List Key → Weave (List SanitizedParam)
  | [] => return []
  | p :: ps => do
    match (← Weave.unit).annotated? p Known.doPrivilegedSanitizeWith with
    | none => sanitizedParams i ps
    | some a =>
      let f := Text.trim (← memberText a "value")
      if f.isEmpty then
        i.error (Complaint.emptyMember Known.doPrivilegedSanitizeWith "value").message
        sanitizedParams i ps
      else return ⟨p, f⟩ :: (← sanitizedParams i ps)

/-- The body of a method that runs with privileges. -/
def privilegedBody (u : SourceUnit) (m : Key) (sanitized : List SanitizedParam) : List Code :=
  let result := u.returnType m
  let isVoid := result.isVoid
  let inner := movedBody u m
  let inner := if isVoid then Code.objectBody inner else inner
  let action := Code.typeOf "java.security.PrivilegedExceptionAction" [result.boxed]
  let run := Code.methodDecl .publicFlag [] [] result.boxed "run" [] (u.thrown m) inner false false
  let call := Code.invoke (.named "java.security.AccessController") "doPrivileged"
    [.create action [] (.anonymous [run])]
  sanitized.map (fun s =>
    let n := u.name s.param
    .constant (u.varType s.param) n (.invoke .missing s.function [.named ("$" ++ n)])) ++
  [.tryCatch (.block [if isVoid then call else .returning call])
    [.catchClause (.param (.type "java.security.PrivilegedActionException") "$ex")
      (.block (Code.rethrowCause "$ex" (u.thrown m)))] .missing]

/-- Methods that run with privileges. Sanitized values keep the names of the parameters. -/
def doPrivileged : Handler :=
  .onAnno Known.doPrivileged Priority.wrap fun i _ => do
    match ← i.concreteMethod with
    | none => return none
    | some m =>
      let sanitized ← sanitizedParams i ((← Weave.unit).params m)
      if !(← Invocation.sound) then return none
      return some do
        let body := privilegedBody (← Weave.unit) m sanitized
        return .ok do
          for s in sanitized do
            let name := (← Weave.unit).name s.param
            Weave.editing (.rename s.param ("$" ++ name))
            Weave.editing (.makeFinal s.param)
          Weave.editing (.replaceBody m body)
          return [m]

/-- Sanitized parameters are handled with their method, which has to be privileged. -/
def doPrivilegedSanitizeWith : Handler :=
  .onAnno Known.doPrivilegedSanitizeWith Priority.wrap fun i _ => do
    let u ← Weave.unit
    let privileged := (i.method? u).any fun m => (u.annotated? m Known.doPrivileged).isSome
    if !privileged then
      i.error ("@" ++ displayName Known.doPrivilegedSanitizeWith ++
        " can be used on parameters of @" ++ displayName Known.doPrivileged ++ " methods only")
    return none

end Weaver.Handler
