import Weaver.Generator.Compile
import Weaver.Text.Name
/-!
The iterator class that runs a compiled generator.

The class keeps the number of the state, the variables of the body, and what it knows of the next
element. An element is looked for only when it is asked for, and never again once the end was
reported.
-/
set_option autoImplicit false

namespace Weaver.Generator

open Weaver.Syntax (Flags)

def hasNextField : String := "$hasNext"
def nextDefinedField : String := "$nextDefined"
def nextField : String := "$next"
def getNextMethod : String := "getNext"

/-- The name of the class generated for a method. -/
def className (method : String) : String :=
  Text.camelCase "$" ("yielder" :: method.splitOn "_")

/-- The switch over the states; whatever is no state reports the end. -/
def Machine.switch (m : Machine) : Code :=
  .switchOn (.named stateField)
    (m.states.map (fun s => .switchCase (.int s.id) s.stmts) ++
      [.switchCase .missing [.returning (.bool false)]])

/-- A field of the class. -/
def privateField (type : Code) (name : String) : Code :=
  .fieldOf type name .privateFlag .missing

/-- The method that says whether there is another element. -/
def hasNextCode : Code :=
  .method .publicFlag (.type "boolean") "hasNext" []
    [.ifThen (negated (.named nextDefinedField))
      (.block [.assign (.named hasNextField) (.invoke .missing getNextMethod []),
        .assign (.named nextDefinedField) (.bool true)]) .missing,
     .returning (.named hasNextField)]

/-- The method that gives the next element. -/
def nextCode (elem : Code) : Code :=
  .method .publicFlag elem "next" []
    [.ifThen (negated (.invoke .missing "hasNext" []))
      (.block [.throwing (.new (.type "java.util.NoSuchElementException") [])]) .missing,
     .assign (.named nextDefinedField) (.bool false),
     .returning (.named nextField)]

/-- The method that would remove an element. -/
def removeCode : Code :=
  .method .publicFlag (.type "void") "remove" []
    [.throwing (.new (.type "java.lang.UnsupportedOperationException") [])]

/-- The method that runs the machine up to its next element. -/
def getNextCode (m : Machine) : Code :=
  .method .privateFlag (.type "boolean") getNextMethod [] [.whileLoop (.bool true) m.switch]

/-- The iterator class that runs a machine. If it is to be iterable as well, every iteration gets a
new instance. -/
def Machine.classCode (m : Machine) (name : String) (elem : Code) (iterable : Bool) : Code :=
  let iterator := Code.typeOf "java.util.Iterator" [elem]
  let interfaces := iterator :: if iterable then [Code.typeOf "java.lang.Iterable" [elem]] else []
  let fields := m.fields ++ [privateField (.type "int") stateField,
    privateField (.type "boolean") hasNextField, privateField (.type "boolean") nextDefinedField,
    privateField elem nextField]
  let fresh := if iterable then
      [Code.method .publicFlag iterator "iterator" [] [.returning (.new (.type name) [])]]
    else []
  .classDecl Code.localClass .empty [] name [] .missing interfaces [] fields
    (fresh ++ [hasNextCode, nextCode elem, removeCode, getNextCode m]) []

/-- The statements that replace the body of a generator method: the class and a new instance of
it. -/
def lowerBody (method : String) (elem : Code) (iterable : Bool) (body : List Code) :
    Except Fault (List Code) := do
  let m ← compile body
  let name := className method
  return [m.classCode name elem iterable, .returning (.new (.type name) [])]

end Weaver.Generator
