import Weaver.Code.Basic
import Weaver.Syntax.Outline
import Weaver.Syntax.Print
/-!
The data that a piece of code holds besides its parts.
-/
set_option autoImplicit false

namespace Weaver

open Weaver.Syntax (Attribute Flags)

namespace Code

/-- The text of a number constant. -/
def numeralText : Numeral → String
  | .literal l => l.value
  | .other s => s

/-- The data of a piece of code. -/
def attributes : Code → List Attribute
  | t@(typeRef ..) | t@(wildcard ..) => [.text t.typeText]
  | hostType t => [.text "?", .text t.print]
  | named n | field _ n | call _ n _ _ | typeParam n _ | enumConstant n _ _ => [.text n]
  | newArray t _ hasInit _ => [.bool hasInit, .bool !t.isMissing]
  | binary _ op _ | unary op _ => [.text op]
  | equal _ _ negated => [.bool negated]
  | bool b => [.bool b]
  | char c => [.number c]
  | number n => [.text (numeralText n)]
  | text s => [.text s]
  | hostExpr t | hostStmt t | hostMethod t => [.text t.print]
  | breaking l | continuing l | labeled l _ => [.text l]
  | localDecl _ n ms _ _ | argument _ n ms _ | fieldDecl _ n ms _ _ => [.text n, .text ms.text]
  | methodDecl ms _ _ _ n _ _ _ noBody implementing =>
    [.text n, .text ms.text, .bool noBody, .bool implementing]
  | constructorDecl ms _ _ n _ _ _ implicitSuper => [.text n, .text ms.text, .bool implicitSuper]
  | classDecl k ms _ n .. =>
    [.text n, .text ms.text, .bool k.isInterface, .bool k.isEnum, .bool k.isAnonymous,
     .bool k.isLocal]
  | _ => []

end Code

end Weaver
