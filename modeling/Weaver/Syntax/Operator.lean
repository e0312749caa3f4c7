import Weaver.Source.Literal
/-!
Primitive types, operators and their precedence.
-/
set_option autoImplicit false

namespace Weaver.Syntax

open Weaver.Source (Literal)

/-- The class of a type or a constant. `object` is the class of text constants, `bottom` that of the
null constant. -/
inductive TypeTag where
  | none
  | byte
  | char
  | short
  | int
  | long
  | float
  | double
  | boolean
  | void
  | object
  | bottom
deriving Repr, DecidableEq, Inhabited

namespace TypeTag

/-- All classes, in the order of their numbers. -/
def all : List TypeTag :=
  [none, byte, char, short, int, long, float, double, boolean, void, object, bottom]

/-- The name of a primitive type. -/
def keyword? : TypeTag → Option String
  | byte => some "byte"
  | char => some "char"
  | short => some "short"
  | int => some "int"
  | long => some "long"
  | float => some "float"
  | double => some "double"
  | boolean => some "boolean"
  | void => some "void"
  | _ => Option.none

/-- The number of a class. -/
def number (t : TypeTag) : Nat :=
  all.idxOf t

/-- The class with a number; `none` if there is no such class. -/
def ofNumber (n : Int) : TypeTag :=
  if n < 0 then none else all.getD n.toNat none

/-- The name of a class with a number; classes without a name show the number. -/
def nameOf (n : Int) : String :=
  let unnamed := "?" ++ toString n ++ "?"
  if n < 0 then unnamed
  else ((all[n.toNat]?).bind keyword?).getD unnamed

/-- The name of a class. -/
def name (t : TypeTag) : String :=
  nameOf t.number

/-- The class of a primitive type, `void` included, by its name. -/
def ofKeyword? (word : String) : Option TypeTag :=
  all.find? fun t => t.keyword? == some word

/-- The numeric primitive types. -/
def isNumeric (t : TypeTag) : Bool :=
  [byte, char, short, int, long, float, double].contains t

/-- The value of a variable of the type that was not set. -/
def zero : TypeTag → Literal
  | byte | short | int => .int 0
  | char => .char 0
  | long => .long 0
  | float => .float .zero
  | double => .double .zero
  | boolean => .boolean false
  | _ => .null

end TypeTag

/-- The class of a constant. -/
def tagOf : Literal → TypeTag
  | .int _ => .int
  | .long _ => .long
  | .float _ => .float
  | .double _ => .double
  | .char _ => .char
  | .text _ => .object
  | .boolean _ => .boolean
  | .null => .bottom

/-! ## Binding strength -/

namespace Precedence

def lowest : Nat := 0
def assign : Nat := 1
def assignOp : Nat := 2
def conditional : Nat := 3
def or : Nat := 4
def and : Nat := 5
def bitOr : Nat := 6
def bitXor : Nat := 7
def bitAnd : Nat := 8
def equality : Nat := 9
def relation : Nat := 10
def shift : Nat := 11
def sum : Nat := 12
def product : Nat := 13
def before : Nat := 14
def after : Nat := 15

/-- Of expressions that never need parentheses. -/
def primary : Nat := 16

end Precedence

/-- Operators with one operand. -/
inductive UnaryOp where
  | plus
  | minus
  | not
  | complement
  | increment
  | decrement
  | postIncrement
  | postDecrement
deriving Repr, DecidableEq, Inhabited

namespace UnaryOp

def symbol : UnaryOp → String
  | plus => "+"
  | minus => "-"
  | not => "!"
  | complement => "~"
  | increment | postIncrement => "++"
  | decrement | postDecrement => "--"

/-- Written after the operand. -/
def isPost : UnaryOp → Bool
  | postIncrement | postDecrement => true
  | _ => false

def precedence (op : UnaryOp) : Nat :=
  if op.isPost then Precedence.after else Precedence.before

/-- All operators, in the order of their numbers. -/
def all : List UnaryOp :=
  [plus, minus, not, complement, increment, decrement, postIncrement, postDecrement]

/-- The operator written before its operand with a symbol. -/
def ofSymbol? (s : String) : Option UnaryOp :=
  all.find? fun op => !op.isPost && op.symbol == s

end UnaryOp

/-- Operators with two operands. -/
inductive BinaryOp where
  | or
  | and
  | bitOr
  | bitXor
  | bitAnd
  | eq
  | ne
  | lt
  | gt
  | le
  | ge
  | shiftLeft
  | shiftRight
  | shiftRightZero
  | plus
  | minus
  | times
  | divide
  | modulo
deriving Repr, DecidableEq, Inhabited

namespace BinaryOp

def symbol : BinaryOp → String
  | or => "||"
  | and => "&&"
  | bitOr => "|"
  | bitXor => "^"
  | bitAnd => "&"
  | eq => "=="
  | ne => "!="
  | lt => "<"
  | gt => ">"
  | le => "<="
  | ge => ">="
  | shiftLeft => "<<"
  | shiftRight => ">>"
  | shiftRightZero => ">>>"
  | plus => "+"
  | minus => "-"
  | times => "*"
  | divide => "/"
  | modulo => "%"

def precedence : BinaryOp → Nat
  | or => Precedence.or
  | and => Precedence.and
  | bitOr => Precedence.bitOr
  | bitXor => Precedence.bitXor
  | bitAnd => Precedence.bitAnd
  | eq | ne => Precedence.equality
  | lt | gt | le | ge => Precedence.relation
  | shiftLeft | shiftRight | shiftRightZero => Precedence.shift
  | plus | minus => Precedence.sum
  | times | divide | modulo => Precedence.product

/-- All operators, in the order of their numbers. -/
def all : List BinaryOp :=
  [or, and, bitOr, bitXor, bitAnd, eq, ne, lt, gt, le, ge, shiftLeft, shiftRight, shiftRightZero,
   plus, minus, times, divide, modulo]

/-- The operator with a symbol. -/
def ofSymbol? (s : String) : Option BinaryOp :=
  all.find? (·.symbol == s)

end BinaryOp

/-- An operator with one or two operands. -/
inductive Operator where
  | unary (op : UnaryOp)
  | binary (op : BinaryOp)
deriving Repr, DecidableEq, Inhabited

namespace Operator

/-- All operators, in the order of their numbers. -/
def all : List Operator :=
  UnaryOp.all.map unary ++ BinaryOp.all.map binary

/-- The number of an operator; the first one has the number one. -/
def number (op : Operator) : Nat :=
  all.idxOf op + 1

/-- The operator with a number. -/
def ofNumber? (n : Int) : Option Operator :=
  if n < 1 then none else all[n.toNat - 1]?

def symbol : Operator → String
  | unary op => op.symbol
  | binary op => op.symbol

/-- It has one operand. -/
def isUnary : Operator → Bool
  | unary _ => true
  | binary _ => false

/-- Written after the operand. -/
def isPost : Operator → Bool
  | unary op => op.isPost
  | binary _ => false

def precedence : Operator → Nat
  | unary op => op.precedence
  | binary op => op.precedence

end Operator

/-- How a wildcard type argument is bounded. -/
inductive Bound where
  | unbounded
  | extending
  | above
deriving Repr, DecidableEq, Inhabited

/-- The number of a kind of bound. -/
def Bound.number : Bound → Nat
  | unbounded => 0
  | extending => 1
  | above => 2

end Weaver.Syntax
