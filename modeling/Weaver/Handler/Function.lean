import Weaver.Handler.Basic
/-!
Methods that become factories of function objects.

Parameters whose names begin with an underscore stay parameters of the factory; the others become
parameters of the single method of a template, which gets the body.
-/
set_option autoImplicit false

namespace Weaver.Handler

open Weaver.Syntax (Flags)

/-- A parameter that is bound when the function object is made. -/
def isBound (u : SourceUnit) (p : Key) : Bool := (u.name p).startsWith "_"

/-- The declaration that takes the place of a method. -/
def functionDecl (u : SourceUnit) (m : Key) (t : Template) : Code :=
  let bound := (u.params m).filter (isBound u)
  let free := (u.params m).filter fun p => !isBound u p
  let result := (u.returnType m).boxed
  let type := Code.typeOf t.name (free.map (fun p => (u.varType p).boxed) ++ [result])
  let stmts := u.statements m .none
  let body := if (u.returnType m).isVoid then Code.objectBody stmts else stmts
  let apply := Code.methodDecl .publicFlag [] [] result t.method
    (free.map fun p => .param (u.varType p).boxed (u.name p)) [] body false true
  let access := (AccessLevel.ofFlags (u.modifiers m)).flags
  let mods := if u.isStatic m then access.union .staticFlag else access
  .methodDecl mods [.suppressAll] (u.typeParams m) type (u.name m)
    (bound.map fun p => .param (u.varType p) (u.name p)) []
    [.returning (.create type [] (.anonymous [apply]))] false false

/-- Methods that become factories of function objects. -/
def function : Handler :=
  .onAnno Known.function Priority.function fun i a => do
    match ← i.concreteMethod with
    | none => return none
    | some m =>
      let u ← Weave.unit
      match u.template? (← memberText a "template") with
      | none => i.stop "@Function unable to resolve template type"
      | some library =>
        let arity := ((u.params m).filter fun p => !isBound u p).length + 1
        match library.fitting arity with
        | [] => i.stop "@Function no template found that matches the given method signature"
        | [t] =>
          return some do
            let u ← Weave.unit
            let decl := functionDecl u m t
            return .ok do
              Weave.editing (.replaceWith m decl)
              return ((← Weave.unit).registry.parent? m).toList
        | _ =>
          i.stop "@Function more than one template found that matches the given method signature"

end Weaver.Handler
