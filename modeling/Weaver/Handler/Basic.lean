import Weaver.Processing.Weave
import Weaver.Text.Ranges
/-!
What handlers have in common: their order, the wording of their complaints, and pieces of code.

Handlers that change the body of a method compose by their priorities. Generators of members come
first, then generator methods, then what wraps a body, then sanitation, validation and the
conversion of exceptions, each around the body that the previous ones have left. Function objects
take over the finished body, and extensions of builders move a finished method.
-/
set_option autoImplicit false

namespace Weaver

open Weaver.Syntax (Flags)

namespace Priority

def types : Int := 0
def generator : Int := 50
def wrap : Int := 100
def sanitize : Int := 200
def validate : Int := 300
def rethrow : Int := 400
def function : Int := 500
def extension : Int := 600

end Priority

/-! ## Complaints -/

/-- Why a handler does not do its work. -/
inductive Complaint where
  | methodsOnly (handler : String)
  | concreteMethodsOnly (handler : String)
  | classesOnly (handler : String)
  | concreteClassesOnly (handler : String)
  | classesAndFieldsOnly (handler : String)
  | voidMethodsOnly (handler : String)
  | needsPlainConstructor (handler : String)
  | emptyMember (handler member : String)
deriving Repr, DecidableEq

/-- A name as it is written when its package is imported. -/
def displayName (name : String) : String := Text.withoutLead "lombok." name

/-- The wording of a complaint. -/
def Complaint.message : Complaint → String
  | methodsOnly h => "@" ++ displayName h ++ " can be used on methods only"
  | concreteMethodsOnly h => "@" ++ displayName h ++ " can be used on concrete methods only"
  | classesOnly h => "@" ++ displayName h ++ " can be used on classes only"
  | concreteClassesOnly h => "@" ++ displayName h ++ " can be used on concrete classes only"
  | classesAndFieldsOnly h => "@" ++ displayName h ++ " can be used on classes and fields only"
  | voidMethodsOnly h => "@" ++ displayName h ++ " can be used on void methods only"
  | needsPlainConstructor h =>
    "@" ++ displayName h ++ " requires a default or no-argument constructor"
  | emptyMember h m => "@" ++ displayName h ++ " '" ++ m ++ "' may not be empty or null."

/-- What is said when a method is not generated because there is one of its name. -/
def methodExists (method : String) (params : List String) : String :=
  "Not generating " ++ method ++ "(" ++ ", ".intercalate params ++
    "): A method with that name already exists"

namespace Invocation

/-- Reports a complaint and stops. -/
def refuse {α : Type} (i : Invocation) (c : Complaint) : Weave (Option α) := do
  i.error c.message
  return none

/-- Reports an error and stops. -/
def stop {α : Type} (i : Invocation) (message : String) : Weave (Option α) := do
  i.error message
  return none

/-- The method of an invocation, if it has a body with statements. -/
def concreteMethod (i : Invocation) : Weave (Option Key) := do
  let u ← Weave.unit
  match i.method? u with
  | none => i.refuse (.methodsOnly i.handler)
  | some m =>
    if u.isAbstract m || u.isEmpty m then i.refuse (.concreteMethodsOnly i.handler)
    else return some m

end Invocation

namespace Handler

/-- A handler that is triggered by an annotation. -/
def onAnno (name : String) (priority : Int) (check : Invocation → AnnoUse → Weave (Option Build)) :
    Handler :=
  ⟨name, .annotated, priority, fun i => match i.anno with
    | some a => check i a
    | none => return none⟩

end Handler

/-- The text of a member of an annotation without white space around it. A member that cannot be
read as text breaks off the work. -/
def memberText (a : AnnoUse) (member : String) : Weave String :=
  match a.text? member with
  | some s => return s
  | none => throw .hole

/-- What builds a replacement for the body of a method. -/
def replacingBody (m : Key) (body : List Code) : Except String Splice :=
  .ok do
    Weave.editing (.replaceBody m body)
    return [m]

/-! ## Pieces of code -/

namespace Code

/-- The annotation on generated members. -/
def suppressAll : Code := Edit.suppressAll

/-- A field of the object a method runs on. -/
def ownField (name : String) : Code := .field .self name

/-- A local variable that is not assigned to again. -/
def constant (type : Code) (name : String) (init : Code) : Code :=
  .declare type name .finalFlag init

/-- A text made from a format and arguments. -/
def format (form : String) (args : List Code) : Code :=
  .invoke (.named "java.lang.String") "format" (.text form :: args)

/-- Statements that throw on the cause of a caught exception: as it is if it is one of the declared
exceptions, else inside another one. -/
def rethrowCause (exception : String) (thrown : List Code) : List Code :=
  let cause := Code.named "$cause"
  constant (.type "java.lang.Throwable") "$cause" (.invoke (.named exception) "getCause" []) ::
    thrown.map (fun t =>
      .ifThen (.instanceOf cause t) (.block [.throwing (.cast t cause)]) .missing)
    ++ [.throwing (.new (.type "java.lang.RuntimeException") [cause])]

/-- A type with its own type variables as arguments. -/
def selfType (name : String) (typeParams : List Code) : Code :=
  .typeOf name (typeParams.filterMap fun p => match p with
    | .typeParam n _ => some (.type n)
    | _ => none)

mutual

/-- A statement in which returns without a value return null. Classes in it stay as they are. -/
def returnNull : Code → Code
  | .returning e =>
    match e with
    | .missing => .returning .null
    | e => .returning e
  | .block ss => .block (returnNullAll ss)
  | .ifThen c y n => .ifThen c (returnNull y) (returnNull n)
  | .whileLoop c b => .whileLoop c (returnNull b)
  | .doLoop b c => .doLoop (returnNull b) c
  | .forLoop i c u b => .forLoop i c u (returnNull b)
  | .foreach v e b => .foreach v e (returnNull b)
  | .labeled l b => .labeled l (returnNull b)
  | .synchronizedOn e b => .synchronizedOn e (returnNull b)
  | .switchOn e cs => .switchOn e (returnNullAll cs)
  | .switchCase p ss => .switchCase p (returnNullAll ss)
  | .tryCatch b cs f => .tryCatch (returnNull b) (returnNullAll cs) (returnNull f)
  | .catchClause v b => .catchClause v (returnNull b)
  | s => s

/-- Statements in which returns without a value return null. -/
def returnNullAll : List Code → List Code
  | [] => []
  | s :: ss => returnNull s :: returnNullAll ss

end

/-- The body of a method without a result, as that of one that returns an object. -/
def objectBody (stmts : List Code) : List Code :=
  returnNullAll stmts ++ [.returning .null]

end Code

/-- The parameters of a method as they are written in a declaration, without their annotations. -/
def SourceUnit.paramCodes (u : SourceUnit) (m : Key) : List Code :=
  (u.params m).map fun p => .param (u.varType p) (u.name p)

end Weaver
