import Weaver.Anno.Catalog
import Weaver.Number.Shortest
import Weaver.Source.Position
import Weaver.Syntax.Print
/-!
Annotations as they are used, with the values of their members.

A value is what a constant expression stands for; an expression that is no such constant is kept as
its text. Nested annotations are values, too, if their type is known.
-/
set_option autoImplicit false

namespace Weaver

open Weaver.Source (Position)
open Weaver.Number (Floating Format)
open Weaver.Syntax (Tree)

/-- The value of a member of an annotation, with its place. Members of a nested annotation are a
list of names and a list of values of the same length. -/
inductive Datum where
  /-- Not a constant; its text. -/
  | unknown (pos : Position) (text : String)
  | text (pos : Position) (value : String)
  | flag (pos : Position) (value : Bool)
  | integer (pos : Position) (value : Int)
  | floating (pos : Position) (value : Floating)
  | char (pos : Position) (code : Int)
  /-- A class, by its qualified name as far as that is known. -/
  | className (pos : Position) (name : String)
  /-- A constant of an enumeration, by its simple name. -/
  | constant (pos : Position) (name : String)
  | array (pos : Position) (elems : List Datum)
  | nested (pos : Position) (type : AnnoType) (place : Position) (host : Nat)
      (names : List String) (values : List Datum)
deriving Inhabited

/-- An annotation that stands on an element or inside another annotation. -/
structure AnnoUse where
  type : AnnoType
  pos : Position
  /-- The number of its tree; zero inside another annotation. -/
  host : Nat
  /-- The names of the members that are given. -/
  names : List String
  /-- Their values. -/
  values : List Datum
deriving Inhabited

namespace Datum

/-- The kinds of values, in the order of their numbers. -/
def kinds : List String :=
  ["<invalid>", "string", "boolean", "int", "float", "char", "class", "enum", "array",
   "annotation"]

/-- The name of the kind of a value. -/
def kind : Datum → String
  | unknown .. => "<invalid>"
  | text .. => "string"
  | flag .. => "boolean"
  | integer .. => "int"
  | floating .. => "float"
  | char .. => "char"
  | className .. => "class"
  | constant .. => "enum"
  | array .. => "array"
  | nested .. => "annotation"

/-- The place of a value. -/
def pos : Datum → Position
  | unknown p _ | text p _ | flag p _ | integer p _ | floating p _ | char p _ | className p _
  | constant p _ | array p _ | nested p .. => p

/-- The value seen at a place around it. Text that is no constant is the text of that place. -/
def around (p : Position) (whole : String) : Datum → Datum
  | unknown _ _ => unknown p whole
  | text _ v => text p v
  | flag _ v => flag p v
  | integer _ v => integer p v
  | floating _ v => floating p v
  | char _ v => char p v
  | className _ v => className p v
  | constant _ v => constant p v
  | array _ v => array p v
  | nested _ t q h ns vs => nested p t q h ns vs

/-- The elements of an array; any other value counts as an array of one element. -/
def elements : Datum → List Datum
  | array _ es => es
  | d => [d]

/-- The text that a value holds, if it holds one. -/
def rawText? : Datum → Option String
  | unknown _ s | text _ s | className _ s | constant _ s => some s
  | _ => none

/-- The annotation that a value is. -/
def use? : Datum → Option AnnoUse
  | nested _ t p h ns vs => some ⟨t, p, h, ns, vs⟩
  | _ => none

mutual

/-- The value and all its elements are constants. -/
def isConstant : Datum → Bool
  | unknown .. => false
  | array _ es => areConstant es
  | _ => true

/-- All values of a list are constants. -/
def areConstant : List Datum → Bool
  | [] => true
  | d :: ds => isConstant d && areConstant ds

end

/-- The value of a member that is not given. -/
def ofDefault (p : Position) : DefaultValue → Datum
  | .text s => text p s
  | .flag b => flag p b
  | .texts ss => array p (ss.map (text p))

end Datum

/-! ## Reading expressions as values -/

namespace Datum

/-- Sets the value of a name in two lists of names and values. -/
def put (name : String) (value : Datum) : List String → List Datum → List String × List Datum
  | n :: ns, v :: vs =>
    if n == name then (n :: ns, value :: vs)
    else
      let (ns, vs) := put name value ns vs
      (n :: ns, v :: vs)
  | _, _ => ([name], [value])

/-- The name of the member that an argument of an annotation sets. -/
def memberName : Tree → String
  | .assign _ (.ident _ n) _ => n
  | _ => "value"

/-- The members that arguments set; a later one wins over an earlier one of the same name. -/
def members (names : List String) (values : List Datum) : List String × List Datum :=
  (names.zip values).foldl (fun (ns, vs) (n, v) => put n v ns vs) ([], [])

/-- The name of the class in a class constant. -/
def classOf? (resolve : String → String) (t : Tree) : Option String :=
  match t with
  | .primitive _ tag => some tag.name
  | .arrayType .. => some t.print
  | _ => t.qualifiedName?.map resolve

/-- The annotation type that a written name refers to. -/
def typeOf? (resolve : String → String) (t : Tree) : Option AnnoType :=
  t.qualifiedName?.bind fun q => AnnoType.ofName? (resolve q)

mutual

/-- The value of an expression. Names of classes and annotations are resolved. -/
def ofTree (resolve : String → String) (e : Tree) : Datum :=
  match e with
  | .parens m i => (ofTree resolve i).around m.pos e.print
  | .literal m v =>
    match v with
    | .text s => text m.pos s
    | .boolean b => flag m.pos b
    | .int n | .long n => integer m.pos n
    | .float x | .double x => floating m.pos (x.convert .double)
    | .char c => char m.pos c
    | .null => unknown m.pos e.print
  | .select m q n =>
    if n != "class" then constant m.pos n
    else match classOf? resolve q with
      | some c => className m.pos c
      | none => unknown m.pos e.print
  | .ident m n => constant m.pos n
  | .newArray m t _ hasInit es =>
    if t.isMissing && hasInit then array m.pos (ofTrees resolve es) else unknown m.pos e.print
  | .annoUse m t as =>
    match typeOf? resolve t with
    | some type =>
      let (ns, vs) := members (as.map memberName) (ofArguments resolve as)
      nested m.pos type m.pos m.id ns vs
    | none => unknown m.pos e.print
  | .binary m op l r =>
    match op, ofTree resolve l, ofTree resolve r with
    | .plus, text _ a, text _ b => text m.pos (a ++ b)
    | _, _, _ => unknown m.pos e.print
  | .unary m op a =>
    match op, ofTree resolve a with
    | .minus, integer _ n => integer m.pos (-n)
    | .minus, floating _ x => floating m.pos x.neg
    | _, _ => unknown m.pos e.print
  | e => unknown e.pos e.print

/-- The values of expressions. -/
def ofTrees (resolve : String → String) : List Tree → List Datum
  | [] => []
  | e :: es => ofTree resolve e :: ofTrees resolve es

/-- The values of the arguments of an annotation, names left out. -/
def ofArguments (resolve : String → String) : List Tree → List Datum
  | [] => []
  | .assign _ (.ident _ _) v :: es => ofTree resolve v :: ofArguments resolve es
  | e :: es => ofTree resolve e :: ofArguments resolve es

end

end Datum

/-! ## Members of an annotation -/

/-- What is wrong with an annotation. -/
inductive AnnoFault where
  | unknownMember (anno member : String)
  | notConstant (anno member : String)
  | missingMember (anno member : String)
deriving Repr, DecidableEq

/-- The wording of a fault. -/
def AnnoFault.message : AnnoFault → String
  | unknownMember a m => "@" ++ a ++ " has no member named '" ++ m ++ "'"
  | notConstant a m => "@" ++ a ++ " member '" ++ m ++ "' is not a constant"
  | missingMember a m => "@" ++ a ++ " requires a value for member '" ++ m ++ "'"

namespace AnnoUse

/-- The annotation that a tree is, if its type is known. -/
def ofTree? (resolve : String → String) (t : Tree) : Option AnnoUse :=
  (Datum.ofTree resolve t).use?

/-- The qualified name of the annotation type. -/
def name (u : AnnoUse) : String := u.type.name

/-- The members that are given, in the order of their names. -/
def given (u : AnnoUse) : List (String × Datum) :=
  (u.names.zip u.values).mergeSort fun a b => a.1 ≤ b.1

/-- The value of a member that is given. -/
def given? (u : AnnoUse) (member : String) : Option Datum :=
  (u.names.zip u.values).lookup member

/-- The value of a member, or its default. -/
def value? (u : AnnoUse) (member : String) : Option Datum :=
  match u.given? member with
  | some d => some d
  | none => (u.type.member? member).bind fun m => m.default.map (Datum.ofDefault u.pos)

/-- The first fault: members that are not declared or not constant by their names, then required
members that are missing by their declaration. -/
def fault? (u : AnnoUse) : Option AnnoFault :=
  let wrong := u.given.findSome? fun (n, d) =>
    if (u.type.member? n).isNone then some (AnnoFault.unknownMember u.type.simpleName n)
    else if !d.isConstant then some (.notConstant u.type.simpleName n)
    else none
  match wrong with
  | some f => some f
  | none => u.type.members.findSome? fun m =>
    if m.default.isNone && (u.given? m.name).isNone then
      some (.missingMember u.type.simpleName m.name)
    else none

/-- The truth value of a member; false if it has none. -/
def flag (u : AnnoUse) (member : String) : Bool :=
  match u.value? member with
  | some (.flag _ b) => b
  | _ => false

/-- The text of a member: a text, a class or a constant, alone or as the only element of an array.
An only element that holds no text has none to give, which is told by `none`. -/
def text? (u : AnnoUse) (member : String) : Option String :=
  match u.value? member with
  | some (.text _ s) | some (.className _ s) | some (.constant _ s) => some s
  | some (.array _ [d]) => d.rawText?
  | _ => some ""

/-- The texts of a member; `none` if one of its elements holds no text. -/
def texts? (u : AnnoUse) (member : String) : Option (List String) :=
  match u.value? member with
  | some d => d.elements.mapM (·.rawText?)
  | none => some []

/-- The annotations that are the value of a member. -/
def nested (u : AnnoUse) (member : String) : List AnnoUse :=
  match u.value? member with
  | some d => d.elements.filterMap (·.use?)
  | none => []

end AnnoUse

end Weaver
