import Weaver.Handler.Basic
import Weaver.Generator.Machine
/-!
Methods that yield their elements one after the other.
-/
set_option autoImplicit false

namespace Weaver.Handler

/-- Methods that call `yield` become generators. -/
def generator : Handler :=
  ⟨Known.yieldMethod, .calling, Priority.generator, fun i => do
    let u ← Weave.unit
    match i.method? u with
    | none => i.stop "'yield' can be used in the body of methods only"
    | some m =>
      if u.isConstructor m then i.stop "'yield' can be used in the body of methods only"
      else if !u.returns m "java.util.Iterator" && !u.returns m "java.lang.Iterable" then
        i.stop ("Method that contain yield() can only return java.util.Iterator or " ++
          "java.lang.Iterable")
      else return some do
        let u ← Weave.unit
        let lowered := Generator.lowerBody (u.name m) (Generator.elementType (u.returnType m))
          (u.returns m "java.lang.Iterable") (u.statements m .none)
        match lowered with
        | .ok body => return replacingBody m body
        | .error .hole => throw .hole
        | .error f => return .error f.message⟩

end Weaver.Handler
