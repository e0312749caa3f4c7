import Weaver.Parse.Type
/-!
Annotations, modifiers and expressions.

Binary operators are read by precedence. A shift operator is a run of `>` tokens that touch each
other. A parenthesis opens a cast if a type and a closing parenthesis follow and, for reference
types, what comes next can only begin an operand.
-/
set_option autoImplicit false

namespace Weaver.Parse

open Weaver.Source (Token isKeyword)
open Weaver.Syntax (Tree Flags TypeTag UnaryOp BinaryOp Mark)

/-! ## Classes in expressions -/

/-- The members of a class up to its closing brace; stray semicolons are passed over. -/
def membersFrom (member : Parser (List Tree)) : Nat → Parser (List Tree)
  | 0 => outOfRounds
  | n + 1 => do
    if (← isNext "\x7d") || (← atEnd) then return []
    if ← accept ";" then membersFrom member n
    else
      let defs ← member
      return defs ++ (← membersFrom member n)

/-- The body of a class in braces. -/
def classBody (r : Rules) (className : String) : Parser (List Tree) := do
  let _ ← expect "\x7b"
  let defs ← rounds (membersFrom (r.member className))
  let _ ← expect "\x7d"
  return defs

/-- The body of an anonymous class, if one follows. -/
def anonymousBody (r : Rules) : Parser Tree := do
  let t ← current
  if t.isText "\x7b" then
    let defs ← classBody r ""
    let m := markOf t
    return .classDecl m "" (.modifiers m .empty []) [] .missing [] defs
  else return .missing

/-! ## Operands -/

/-- Arguments of a call in parentheses. -/
def arguments (r : Rules) : Parser (List Tree) := do
  let _ ← expect "("
  let args ← rounds (listBefore (isNext ")") r.expression)
  let _ ← expect ")"
  return args

/-- The value of a variable or an array element. -/
def initializerFrom (r : Rules) : Nat → Parser Tree
  | 0 => outOfRounds
  | n + 1 => do
    let t ← current
    if t.isText "\x7b" then
      let _ ← take
      let elems ← rounds (listBefore (isNext "\x7d") (initializerFrom r n))
      let _ ← expect "\x7d"
      return .newArray (markOf t) .missing [] true elems
    else r.expression

/-- The elements of an array in braces. -/
def arrayElements (r : Rules) : Parser (List Tree) := do
  let _ ← expect "\x7b"
  let elems ← rounds (listBefore (isNext "\x7d") (rounds (initializerFrom r)))
  let _ ← expect "\x7d"
  return elems

/-- Dimensions of a new array: the given ones, then the number of empty ones. -/
def dimensionsFrom (r : Rules) : Nat → Nat → Parser (List Tree × Nat)
  | 0, _ => outOfRounds
  | n + 1, empty => do
    if ← isNext "[" then
      let b ← take
      if ← accept "]" then dimensionsFrom r n (empty + 1)
      else if 0 < empty then failAt b .missingDimension
      else
        let d ← r.expression
        let _ ← expect "]"
        let (ds, empty) ← dimensionsFrom r n empty
        return (d :: ds, empty)
    else return ([], empty)

/-- A type inside a number of array brackets. -/
def inArrays (m : Mark) : Nat → Tree → Tree
  | 0, e => e
  | n + 1, e => inArrays m n (.arrayType m e)

/-- A new array after its element type. -/
def newArray (r : Rules) (kw : Token) (elem : Tree) : Parser Tree := do
  let (dims, empty) ← rounds (dimensionsFrom r · 0)
  let m := markOf kw
  if dims.isEmpty then
    if empty == 0 || !(← isNext "\x7b") then failAt (← current) .missingDimension
    let elems ← arrayElements r
    return .newArray m (inArrays m (empty - 1) elem) [] true elems
  else return .newArray m (inArrays m empty elem) dims false []

/-- What follows the word `new`. -/
def creator (r : Rules) (kw : Token) (outer : Tree) : Parser Tree := do
  let t ← current
  let primitive := primitiveOf? t
  let elem ← match primitive with
    | some tag => do
      let _ ← take
      pure (Tree.primitive (markOf t) tag)
    | none => classType r
  if ← isNext "[" then newArray r kw elem
  else if primitive.isSome then unexpected (← current) "\"[\""
  else
    let args ← arguments r
    let body ← anonymousBody r
    return .newObject (markOf kw) outer [] elem args body

/-- A literal, a name, a creation or an expression in parentheses. -/
def primary (r : Rules) : Parser Tree := do
  let t ← current
  let m := markOf t
  match t.kind with
  | .literal l =>
    let _ ← take
    return .literal m l
  | .operator =>
    if t.text == "(" then
      let _ ← take
      let e ← r.expression
      let _ ← expect ")"
      return .parens m e
    else unexpected t "expression"
  | .identifier =>
    if t.text == "true" || t.text == "false" then
      let _ ← take
      return .literal m (.boolean (t.text == "true"))
    else if t.text == "null" then
      let _ ← take
      return .literal m .null
    else if t.text == "this" || t.text == "super" then
      let _ ← take
      return .ident m t.text
    else if t.text == "new" then
      let kw ← take
      creator r kw .missing
    else match TypeTag.ofKeyword? t.text with
      | some tag =>
        let _ ← take
        let e ← withBrackets (.primitive m tag)
        let _ ← expect "."
        let c ← expect "class"
        return .select (markOf c) e "class"
      | none =>
        if t.isName then
          let _ ← take
          return .ident m t.text
        else unexpected t "expression"
  | .endOfFile => unexpected t "expression"

/-- What follows a dot after an expression. -/
def selection (r : Rules) (e : Tree) : Parser Tree := do
  let n ← current
  if n.isText "class" || n.isText "this" || n.isText "super" then
    let _ ← take
    return .select (markOf n) e n.text
  else if n.isText "new" then
    let _ ← take
    creator r n e
  else if n.isText "<" then
    let _ ← take
    let typeArgs ← typeArguments r
    let _ ← expect ">"
    let t ← name
    let args ← arguments r
    return .call (markOf t) typeArgs (.select (markOf t) e t.text) args
  else
    let t ← name
    return .select (markOf t) e t.text

/-- Selections, calls and indices after an operand. -/
def selectorsFrom (r : Rules) : Nat → Tree → Parser Tree
  | 0, _ => outOfRounds
  | n + 1, e => do
    let t ← current
    if t.isText "." then
      let _ ← take
      selectorsFrom r n (← selection r e)
    else if t.isText "(" then
      let args ← arguments r
      selectorsFrom r n (.call (markOf t) [] e args)
    else if t.isText "[" then
      if ← isAhead 1 "]" then
        let e ← withBrackets e
        let _ ← expect "."
        let c ← expect "class"
        selectorsFrom r n (.select (markOf c) e "class")
      else
        let _ ← take
        let i ← r.expression
        let _ ← expect "]"
        selectorsFrom r n (.indexed (markOf t) e i)
    else return e

/-- Operators after an operand. -/
def postOperators : Nat → Tree → Parser Tree
  | 0, _ => outOfRounds
  | n + 1, e => do
    let t ← current
    if t.isText "++" then
      let _ ← take
      postOperators n (.unary (markOf t) .postIncrement e)
    else if t.isText "--" then
      let _ ← take
      postOperators n (.unary (markOf t) .postDecrement e)
    else return e

/-! ## Operators -/

/-- A token after a parenthesized reference type that makes it a cast: it begins an operand and
cannot continue a binary expression. -/
def beginsOperand (t : Token) : Bool :=
  match t.kind with
  | .identifier =>
    !isKeyword t.text || ["this", "super", "new", "true", "false", "null"].contains t.text
  | .operator => t.text == "(" || t.text == "!" || t.text == "~"
  | .endOfFile => false
  | .literal _ => true

/-- A primitive type or an array of one. -/
def isPrimitiveOrArray : Tree → Bool
  | .primitive .. => true
  | .arrayType _ (.primitive ..) => true
  | _ => false

/-- A parenthesized type that begins a cast. Nothing is taken if there is none. -/
def castType? (r : Rules) : Parser (Option Tree) :=
  attempt do
    let _ ← expect "("
    let t ← r.type
    let _ ← expect ")"
    if isPrimitiveOrArray t || beginsOperand (← current) then return some t else return none

/-- An operand with the operators before and after it. -/
def unary (r : Rules) : Parser Tree := do
  let t ← current
  let op := if t.isOperator then UnaryOp.ofSymbol? t.text else none
  match op with
  | some op =>
    let _ ← take
    return .unary (markOf t) op (← r.unary)
  | none =>
    let clazz ← if t.isOperator && t.text == "(" then castType? r else pure none
    match clazz with
    | some clazz => return .cast (markOf t) clazz (← r.unary)
    | none =>
      let e ← primary r
      let e ← rounds (selectorsFrom r · e)
      rounds (postOperators · e)

/-- The tokens ahead, counted from `i`, have exactly the given texts and touch each other. -/
def touching : Nat → List String → Parser Bool
  | _, [] => return true
  | i, text :: texts => do
    if !(← isAhead i text) then return false
    else if 0 < i && !(← touches i) then return false
    else touching (i + 1) texts

/-- The tokens ahead are exactly the given texts without space between them, and no longer
operator. -/
def isRun (texts : List String) : Parser Bool := do
  if ← touching 0 texts then
    let n := texts.length
    let longer := (← isAhead n ">") || (← isAhead n "=")
    if longer then return !(← touches n) else return true
  else return false

/-- The binary operator ahead and the number of tokens it takes. -/
def binaryOp? : Parser (Option (BinaryOp × Nat)) := do
  let t ← current
  if !t.isOperator then return none
  else if t.text == ">" then
    if ← isRun [">", ">", ">"] then return some (.shiftRightZero, 3)
    else if ← isRun [">", ">"] then return some (.shiftRight, 2)
    else if ← isRun [">", "="] then return some (.ge, 2)
    else if ← isRun [">"] then return some (.gt, 1)
    else return none
  else return (BinaryOp.ofSymbol? t.text).map (·, 1)

/-- Takes a number of tokens. -/
def takeMany : Nat → Parser Unit
  | 0 => return
  | n + 1 => do
    let _ ← take
    takeMany n

/-- Binary operators after a left operand that bind at least as strongly as asked. -/
def operatorsFrom (r : Rules) (minPrec : Nat) : Nat → Tree → Parser Tree
  | 0, _ => outOfRounds
  | n + 1, left => do
    let t ← current
    if t.isText "instanceof" then
      if Syntax.Precedence.relation < minPrec then return left
      else
        let _ ← take
        let clazz ← type r
        operatorsFrom r minPrec n (.instanceOf (markOf t) left clazz)
    else match ← binaryOp? with
      | none => return left
      | some (op, count) =>
        if op.precedence < minPrec then return left
        else
          takeMany count
          let right ← r.binary (op.precedence + 1)
          operatorsFrom r minPrec n (.binary (markOf t) op left right)

/-- An expression of binary operators that bind at least as strongly as asked. -/
def binary (r : Rules) (minPrec : Nat) : Parser Tree := do
  let left ← unary r
  rounds (operatorsFrom r minPrec · left)

/-- A conditional expression. -/
def ternary (r : Rules) : Parser Tree := do
  let t ← current
  let cond ← binary r Syntax.Precedence.or
  if ← accept "?" then
    let yes ← r.expression
    let _ ← expect ":"
    let no ← r.ternary
    return .conditional (markOf t) cond yes no
  else return cond

/-- The operator that an assigning operator applies. -/
def assigningOp? (text : String) : Option BinaryOp :=
  [("+=", BinaryOp.plus), ("-=", .minus), ("*=", .times), ("/=", .divide), ("%=", .modulo),
   ("&=", .bitAnd), ("|=", .bitOr), ("^=", .bitXor), ("<<=", .shiftLeft)].lookup text

/-- The assigning operator ahead and the number of tokens it takes. -/
def assignment? : Parser (Option (BinaryOp × Nat)) := do
  let t ← current
  if !t.isOperator then return none
  else if t.text == ">" then
    if ← isRun [">", ">", "="] then return some (.shiftRight, 3)
    else if ← isRun [">", ">", ">", "="] then return some (.shiftRightZero, 4)
    else return none
  else return (assigningOp? t.text).map (·, 1)

/-- An expression. -/
def expression (r : Rules) : Parser Tree := do
  let left ← ternary r
  let t ← current
  if t.isText "=" then
    let _ ← take
    return .assign (markOf t) left (← r.expression)
  else match ← assignment? with
    | none => return left
    | some (op, count) =>
      takeMany count
      return .assignOp (markOf t) op left (← r.expression)

/-! ## Annotations and modifiers -/

/-- A named argument of an annotation. -/
def namedArgument (r : Rules) : Parser Tree := do
  let t ← name
  let _ ← expect "="
  let v ← r.elementValue
  return .assign (markOf t) (.ident (markOf t) t.text) v

/-- An annotation. -/
def annoUse (r : Rules) : Parser Tree := do
  let at_ ← expect "@"
  let type ← qualifiedName
  let args ← if ← accept "(" then do
      let args ← if ← isNext ")" then pure []
        else if (← current).isName && (← isAhead 1 "=") then
          rounds (commaSeparated (namedArgument r))
        else do pure [← r.elementValue]
      let _ ← expect ")"
      pure args
    else pure []
  return .annoUse (markOf at_) type args

/-- A value of an annotation member. -/
def elementValue (r : Rules) : Parser Tree := do
  let t ← current
  if t.isText "@" then annoUse r
  else if t.isText "\x7b" then
    let _ ← take
    let elems ← rounds (listBefore (isNext "\x7d") r.elementValue)
    let _ ← expect "\x7d"
    return .newArray (markOf t) .missing [] true elems
  else ternary r

/-- Modifiers and annotations in any order, after those already read. -/
def modifiersFrom (r : Rules) : Nat → Flags → Parser (Flags × List Tree)
  | 0, _ => outOfRounds
  | n + 1, flags => do
    let t ← current
    if t.isText "@" && !(← isAhead 1 "interface") then
      let a ← annoUse r
      let (flags, annos) ← modifiersFrom r n flags
      return (flags, a :: annos)
    else match if t.isWord then Flags.ofKeyword? t.text else none with
      | some f =>
        if flags.meets f then failAt t (.repeatedModifier t.text)
        else
          let _ ← take
          modifiersFrom r n (flags.union f)
      | none => return (flags, [])

/-- Modifiers and annotations. -/
def modifiers (r : Rules) : Parser (Mark × Flags × List Tree) := do
  let m := markOf (← current)
  let (flags, annos) ← rounds (modifiersFrom r · .empty)
  return (m, flags, annos)

end Weaver.Parse
