import Weaver.Syntax.Tree
/-!
The shape of a node apart from its children: its kind and the data it holds itself.
-/
set_option autoImplicit false

namespace Weaver.Syntax

/-- A piece of data of a node. -/
inductive Attribute where
  | text (s : String)
  | bool (b : Bool)
  | number (n : Int)
deriving Repr, DecidableEq

namespace Tree

/-- The data that a node holds besides its children. -/
def attributes : Tree → List Attribute
  | unit _ file .. => [.text file]
  | importDecl _ isStatic _ => [.bool isStatic]
  | classDecl _ name .. | methodDecl _ name .. | varDecl _ name .. | typeParam _ name _
  | ident _ name | select _ _ name => [.text name]
  | modifiers _ flags _ | block _ flags _ => [.number flags.bits]
  | labeled _ label _ | breaking _ label | continuing _ label => [.text label]
  | unary _ op _ => [.text op.symbol, .bool op.isPost]
  | binary _ op .. | assignOp _ op .. => [.text op.symbol]
  | literal _ value => [.text (tagOf value).name, .text value.print]
  | primitive _ tag => [.text tag.name]
  | wildcard _ bound _ => [.number bound.number]
  | newArray _ _ _ hasInit _ => [.bool hasInit]
  | _ => []

/-- The place of a node, with a star if the node was generated. -/
def place (t : Tree) : String :=
  t.pos.text ++ if t.mark.generated then "*" else ""

end Tree

end Weaver.Syntax
