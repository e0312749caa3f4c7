import Weaver.Handler.Basic
/-!
Classes that get a single instance or entry points.
-/
set_option autoImplicit false

namespace Weaver.Handler

open Weaver.Syntax (Flags)

/-! ## Single instances -/

/-- The modifiers of a static method that everyone can call. -/
def publicStatic : Flags := Flags.publicFlag.union .staticFlag

/-- The method that gives the single instance. -/
def instanceGetter (type : String) : Code :=
  .methodDecl publicStatic [.suppressAll] [] (.type type) "getInstance" [] []
    [.returning (.named "INSTANCE")] false false

/-- A class becomes an enumeration with a single constant. -/
def singleton : Handler :=
  .onAnno Known.singleton Priority.types fun i _ => do
    let u ← Weave.unit
    let t := i.type u
    if !u.isClass t then i.refuse (.classesOnly i.handler)
    else if u.hasSuperclass t then i.refuse (.concreteClassesOnly i.handler)
    else
      let constructors := (u.methods t).filter u.isConstructor
      if constructors.any fun c => !(u.params c).isEmpty then
        i.refuse (.needsPlainConstructor i.handler)
      else return some do
        let u ← Weave.unit
        let getter := if u.methodExistence t "getInstance" == .absent then
            [instanceGetter (u.name t)]
          else []
        return .ok do
          Weave.editing (.makeEnum t [.enumConstant "INSTANCE" [] []])
          for c in constructors do
            let mods := (← Weave.unit).modifiers c
            Weave.editing (.setModifiers c (mods.without (Flags.publicFlag.union .protectedFlag)))
          for g in getter do
            Weave.editing (.injectMethod t g)
          return [t]

/-! ## Entry points -/

/-- An entry point by its name: a static method that makes an object and calls a method of it. -/
structure Entrypoint where
  name : String
  params : List Code
  method : String
  args : List Code

/-- The declaration of an entry point of a class. -/
def Entrypoint.decl (e : Entrypoint) (type : String) : Code :=
  .methodDecl publicStatic [.suppressAll] [] (.type "void") e.name e.params
    [.type "java.lang.Throwable"]
    [.invoke (.new (.type type) []) e.method e.args] false false

/-- The entry point of a program. -/
def programEntry : Entrypoint :=
  ⟨"main", [.param (.typeRef "java.lang.String" [] 1) "args"], "runApp", [.named "args"]⟩

/-- An entry point of an agent, with whether the agent is attached to a running program. -/
def agentEntry (name : String) (attached : Bool) : Entrypoint :=
  ⟨name,
   [.param (.type "java.lang.String") "params",
    .param (.type "java.lang.instrument.Instrumentation") "instrumentation"],
   "runAgent", [.bool attached, .named "params", .named "instrumentation"]⟩

/-- A handler that adds entry points to classes that implement an interface, unless they are
there. -/
def entrypoints (interfaceName : String) (es : List Entrypoint) : Handler :=
  ⟨interfaceName, .implementing, Priority.types, fun i => do
    let u ← Weave.unit
    let t := i.type u
    if !u.isClass t then i.refuse (.classesOnly i.handler)
    else return some do
      let u ← Weave.unit
      let has (name : String) : Bool :=
        (u.methods t).any fun m => u.name m == name && u.isStatic m
      let missing := es.filter fun e => !has e.name
      return .ok do
        for e in missing do
          Weave.editing (.injectMethod t (e.decl (u.name t)))
        return [t]⟩

def application : Handler := entrypoints Known.application [programEntry]

def jvmAgent : Handler :=
  entrypoints Known.jvmAgent [agentEntry "agentmain" true, agentEntry "premain" false]

end Weaver.Handler
