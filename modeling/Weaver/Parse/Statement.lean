import Weaver.Parse.Expression
/-!
Statements and declarations.

A statement that could begin with a type is told apart by trying: modifiers, a type and a name make
a declaration. Constructors are told from methods by the name of the class around them.
-/
set_option autoImplicit false

namespace Weaver.Parse

open Weaver.Source (Token)
open Weaver.Syntax (Tree Flags TypeTag Mark initName)

/-! ## Variables -/

/-- Modifiers as a node. -/
def modifiersNode (r : Rules) : Parser Tree := do
  let (m, flags, annos) ← modifiers r
  return .modifiers m flags annos

/-- The value of a variable. -/
def initializer (r : Rules) : Parser Tree :=
  rounds (initializerFrom r)

/-- Declarators after a type, the first name having been read already. -/
def declaratorsFrom (r : Rules) (mods type : Tree) : Nat → Token → Parser (List Tree)
  | 0, _ => outOfRounds
  | n + 1, start => do
    let t ← withBrackets type
    let init ← if ← accept "=" then initializer r else pure .missing
    let v := Tree.varDecl (markOf start) start.text mods t init
    if ← accept "," then
      let next ← name
      return v :: (← declaratorsFrom r mods type n next)
    else return [v]

/-- Declarators after a type, the first name having been read already. -/
def declarators (r : Rules) (mods type : Tree) (start : Token) : Parser (List Tree) :=
  rounds (declaratorsFrom r mods type · start)

/-- A local variable declaration begins here. -/
def isLocalDeclaration (r : Rules) : Parser Bool :=
  succeeds do
    let _ ← modifiers r
    let _ ← type r
    let _ ← name

/-- Local variables, without the semicolon behind them. -/
def localVariables (r : Rules) : Parser (List Tree) := do
  let mods ← modifiersNode r
  let t ← type r
  let start ← name
  declarators r mods t start

/-- A formal parameter, and whether it is the last because any number of arguments may follow. -/
def parameter (r : Rules) : Parser (Tree × Bool) := do
  let (m, flags, annos) ← modifiers r
  let t ← type r
  let variable_ ← isNext "..."
  let t ← if variable_ then do
      let dots ← take
      pure (Tree.arrayType (markOf dots) t)
    else pure t
  let start ← name
  let t ← withBrackets t
  let flags := if variable_ then flags.union .varargsFlag else flags
  return (.varDecl (markOf start) start.text (.modifiers m flags annos) t .missing, variable_)

/-- Formal parameters up to the closing parenthesis. -/
def parametersFrom (r : Rules) : Nat → Parser (List Tree)
  | 0 => outOfRounds
  | n + 1 => do
    if ← isNext ")" then return []
    let (p, last) ← parameter r
    if last then return [p]
    else if ← accept "," then return p :: (← parametersFrom r n)
    else return [p]

/-- Formal parameters in parentheses. -/
def parameters (r : Rules) : Parser (List Tree) := do
  let _ ← expect "("
  let ps ← rounds (parametersFrom r)
  let _ ← expect ")"
  return ps

/-! ## Blocks -/

/-- Statements up to a token that ends them; the end of the text must not come first. -/
def statementsFrom (r : Rules) (ends : Parser Bool) : Nat → Parser (List Tree)
  | 0 => outOfRounds
  | n + 1 => do
    if ← ends then return []
    if ← atEnd then unexpected (← current) "\"\x7d\""
    let ss ← r.blockStatement
    return ss ++ (← statementsFrom r ends n)

/-- A block, with the modifiers it is given. -/
def blockWith (r : Rules) (flags : Flags) : Parser Tree := do
  let t ← expect "\x7b"
  let ss ← rounds (statementsFrom r (isNext "\x7d"))
  let _ ← expect "\x7d"
  return .block (markOf t) flags ss

/-- A block of statements. -/
def block (r : Rules) : Parser Tree :=
  blockWith r .empty

/-! ## Type declarations -/

/-- A type declaration begins here. -/
def isTypeDeclaration : Parser Bool := do
  let t ← current
  return t.isText "class" || t.isText "interface" || t.isText "enum" ||
    (t.isText "@" && (← isAhead 1 "interface"))

/-- A class after its modifiers. -/
def classDeclaration (r : Rules) (m : Mark) (flags : Flags) (annos : List Tree) :
    Parser Tree := do
  let kw ← expect "class"
  let n ← name
  let params ← typeParameters r
  let extending ← if ← accept "extends" then type r else pure .missing
  let implementing ← if ← accept "implements" then typeList r else pure []
  let defs ← classBody r n.text
  return .classDecl (markOf kw) n.text (.modifiers m flags annos) params extending implementing defs

/-- An interface after its modifiers. The interfaces it extends stand in the place of implemented
ones. -/
def interfaceDeclaration (r : Rules) (m : Mark) (flags : Flags) (annos : List Tree) :
    Parser Tree := do
  let kw ← expect "interface"
  let n ← name
  let params ← typeParameters r
  let extending ← if ← accept "extends" then typeList r else pure []
  let defs ← classBody r n.text
  return .classDecl (markOf kw) n.text (.modifiers m (flags.union .interfaceFlag) annos) params
    .missing extending defs

/-- Annotations without modifiers. -/
def annotationsFrom (r : Rules) : Nat → Parser (List Tree)
  | 0 => outOfRounds
  | n + 1 => do
    if ← isNext "@" then
      let a ← annoUse r
      return a :: (← annotationsFrom r n)
    else return []

/-- The modifiers of every enumeration constant. -/
def constantFlags : Flags :=
  ((Flags.publicFlag.union .staticFlag).union .finalFlag).union .enumFlag

/-- A constant of an enumeration. -/
def enumConstant (r : Rules) (enumName : String) : Parser Tree := do
  let annos ← rounds (annotationsFrom r)
  let t ← name
  let args ← if ← isNext "(" then arguments r else pure []
  let body ← anonymousBody r
  let m := markOf t
  let init := Tree.newObject m .missing [] (.ident m enumName) args body
  return .varDecl m t.text (.modifiers m constantFlags annos) (.ident m enumName) init

/-- An enumeration after its modifiers. -/
def enumDeclaration (r : Rules) (m : Mark) (flags : Flags) (annos : List Tree) :
    Parser Tree := do
  let kw ← expect "enum"
  let n ← name
  let implementing ← if ← accept "implements" then typeList r else pure []
  let _ ← expect "\x7b"
  let closes : Parser Bool := do
    let t ← current
    return t.isText ";" || t.isText "\x7d"
  let constants ← rounds (listBefore closes (enumConstant r n.text))
  let others ← if ← accept ";" then rounds (membersFrom (r.member n.text)) else pure []
  let _ ← expect "\x7d"
  return .classDecl (markOf kw) n.text (.modifiers m (flags.union .enumFlag) annos) [] .missing
    implementing (constants ++ others)

/-- Passes over tokens up to the brace that closes the given number of open ones. -/
def skipBraces (typeName : String) : Nat → Nat → Parser Unit
  | 0, _ => outOfRounds
  | n + 1, depth => do
    let t ← take
    if t.isEnd then failAt t (.endInAnnotationType typeName)
    else if t.isText "\x7b" then skipBraces typeName n (depth + 1)
    else if t.isText "\x7d" then
      if depth ≤ 1 then return else skipBraces typeName n (depth - 1)
    else skipBraces typeName n depth

/-- An annotation type after its modifiers. Its members are not kept. -/
def annotationTypeDeclaration (m : Mark) (flags : Flags) (annos : List Tree) : Parser Tree := do
  let at_ ← expect "@"
  let _ ← expect "interface"
  let n ← name
  let _ ← expect "\x7b"
  rounds (skipBraces n.text · 1)
  let flags := (flags.union .annotationFlag).union .interfaceFlag
  return .classDecl (markOf at_) n.text (.modifiers m flags annos) [] .missing [] []

/-- A type declaration after its modifiers. -/
def typeDeclaration (r : Rules) (m : Mark) (flags : Flags) (annos : List Tree) :
    Parser Tree := do
  let t ← current
  if t.isText "class" then classDeclaration r m flags annos
  else if t.isText "interface" then interfaceDeclaration r m flags annos
  else if t.isText "enum" then enumDeclaration r m flags annos
  else if t.isText "@" && (← isAhead 1 "interface") then annotationTypeDeclaration m flags annos
  else unexpected t "class, interface or enum declaration"

/-- A method or constructor after its name. -/
def methodRest (r : Rules) (mods : Tree) (params : List Tree) (result : Tree) (name : String)
    (start : Token) : Parser Tree := do
  let formals ← parameters r
  let result ← match result with
    | .missing => pure Tree.missing
    | t => withBrackets t
  let thrown ← if ← accept "throws" then typeList r else pure []
  if ← accept "default" then
    let _ ← elementValue r
  let body ← if ← accept ";" then pure .missing else block r
  return .methodDecl (markOf start) name mods params result formals thrown body

/-- A method, constructor or variable after its modifiers. -/
def methodOrFields (r : Rules) (className : String) (mods : Tree) : Parser (List Tree) := do
  let params ← typeParameters r
  let start ← current
  if start.isName && start.text == className && (← isAhead 1 "(") then
    let _ ← take
    return [← methodRest r mods params .missing initName start]
  else
    let result ← if start.isText "void" then do
        let _ ← take
        pure (Tree.primitive (markOf start) .void)
      else type r
    let n ← name
    if ← isNext "(" then return [← methodRest r mods params result n.text n]
    else if !params.isEmpty then
      failAt n (.unexpected (← current).shown "\"(\"")
    else
      let vars ← declarators r mods result n
      let _ ← expect ";"
      return vars

/-- A member of a class. -/
def member (r : Rules) (className : String) : Parser (List Tree) := do
  if ← isNext "\x7b" then return [← block r]
  else if (← isNext "static") && (← isAhead 1 "\x7b") then
    let _ ← take
    return [← blockWith r .staticFlag]
  else
    let (m, flags, annos) ← modifiers r
    if ← isTypeDeclaration then return [← typeDeclaration r m flags annos]
    else methodOrFields r className (.modifiers m flags annos)

/-! ## Statements -/

/-- An expression in parentheses. -/
def inParens (r : Rules) : Parser Tree := do
  let _ ← expect "("
  let e ← expression r
  let _ ← expect ")"
  return e

/-- An expression as a statement of a loop head. -/
def execClause (r : Rules) : Parser Tree := do
  let t ← current
  return .exec (markOf t) (← expression r)

/-- A `for` statement after its keyword. -/
def forStatement (r : Rules) (kw : Token) : Parser Tree := do
  let _ ← expect "("
  let each ← succeeds do
    let _ ← modifiers r
    let _ ← type r
    let _ ← name
    let _ ← expect ":"
  if each then
    let mods ← modifiersNode r
    let t ← type r
    let n ← name
    let _ ← expect ":"
    let source ← expression r
    let _ ← expect ")"
    let body ← r.statement
    return .foreachLoop (markOf kw) (.varDecl (markOf n) n.text mods t .missing) source body
  else
    let init ← if ← isNext ";" then pure []
      else if ← isLocalDeclaration r then localVariables r
      else rounds (commaSeparated (execClause r))
    let _ ← expect ";"
    let cond ← if ← isNext ";" then pure .missing else expression r
    let _ ← expect ";"
    let step ← if ← isNext ")" then pure [] else rounds (commaSeparated (execClause r))
    let _ ← expect ")"
    let body ← r.statement
    return .forLoop (markOf kw) init cond step body

/-- Clauses that catch exceptions. -/
def catchesFrom (r : Rules) : Nat → Parser (List Tree)
  | 0 => outOfRounds
  | n + 1 => do
    if ← isNext "catch" then
      let kw ← take
      let _ ← expect "("
      let mods ← modifiersNode r
      let t ← type r
      let v ← name
      let _ ← expect ")"
      let body ← block r
      let clause := Tree.catchClause (markOf kw) (.varDecl (markOf v) v.text mods t .missing) body
      return clause :: (← catchesFrom r n)
    else return []

/-- A `try` statement after its keyword. -/
def tryStatement (r : Rules) (kw : Token) : Parser Tree := do
  let body ← block r
  let catches ← rounds (catchesFrom r)
  let hasFinal ← accept "finally"
  let final ← if hasFinal then block r else pure .missing
  if catches.isEmpty && !hasFinal then failAt (← current) .bareTry
  return .tryCatch (markOf kw) body catches final

/-- The labels and statements of a `switch`, its closing brace included. -/
def casesFrom (r : Rules) : Nat → Parser (List Tree)
  | 0 => outOfRounds
  | n + 1 => do
    if ← accept "\x7d" then return []
    let t ← current
    let pattern ← if ← accept "case" then ternary r
      else do
        if ← accept "default" then pure .missing
        else unexpected t "\"case\", \"default\" or \"\x7d\""
    let _ ← expect ":"
    let ends : Parser Bool := do
      let t ← current
      return t.isText "case" || t.isText "default" || t.isText "\x7d"
    let ss ← rounds (statementsFrom r ends)
    return .switchCase (markOf t) pattern ss :: (← casesFrom r n)

/-- A statement that begins with the given word, if that word begins one. -/
def wordStatement? (r : Rules) (t : Token) : Option (Parser Tree) :=
  let m := markOf t
  match t.text with
  | "if" => some do
    let _ ← take
    let cond ← inParens r
    let yes ← r.statement
    let no ← if ← accept "else" then r.statement else pure .missing
    return .ifThen m cond yes no
  | "while" => some do
    let _ ← take
    let cond ← inParens r
    return .whileLoop m cond (← r.statement)
  | "do" => some do
    let _ ← take
    let body ← r.statement
    let _ ← expect "while"
    let cond ← inParens r
    let _ ← expect ";"
    return .doLoop m body cond
  | "for" => some do
    let _ ← take
    forStatement r t
  | "try" => some do
    let _ ← take
    tryStatement r t
  | "switch" => some do
    let _ ← take
    let selector ← inParens r
    let _ ← expect "\x7b"
    return .switchOn m selector (← rounds (casesFrom r))
  | "synchronized" => some do
    let _ ← take
    let lock ← inParens r
    return .synchronizedOn m lock (← block r)
  | "return" => some do
    let _ ← take
    let e ← if ← isNext ";" then pure .missing else expression r
    let _ ← expect ";"
    return .returning m e
  | "throw" => some do
    let _ ← take
    let e ← expression r
    let _ ← expect ";"
    return .throwing m e
  | "break" => some do
    let _ ← take
    let label ← if (← current).isName then do pure (← take).text else pure ""
    let _ ← expect ";"
    return .breaking m label
  | "continue" => some do
    let _ ← take
    let label ← if (← current).isName then do pure (← take).text else pure ""
    let _ ← expect ";"
    return .continuing m label
  | "assert" => some (failAt t .assertion)
  | _ => none

/-- A statement. -/
def statement (r : Rules) : Parser Tree := do
  let t ← current
  let word := if t.isWord then wordStatement? r t else none
  match word with
  | some p => p
  | none =>
    if t.isName && (← isAhead 1 ":") then
      let _ ← take
      let _ ← take
      return .labeled (markOf t) t.text (← r.statement)
    else if t.isText "\x7b" then block r
    else if t.isText ";" then
      let _ ← take
      return .skip (markOf t)
    else
      let e ← expression r
      let _ ← expect ";"
      return .exec (markOf t) e

/-- A type declaration begins here, after modifiers that a local class can have. -/
def isLocalClass (r : Rules) : Parser Bool := do
  let t ← current
  if t.isText "class" || t.isText "interface" || t.isText "enum" then return true
  else if t.isText "final" || t.isText "abstract" || t.isText "@" then
    succeeds do
      let _ ← modifiers r
      if !(← isTypeDeclaration) then failAt (← current) .notAClass
  else return false

/-- A statement of a block; a declaration can declare several variables. -/
def blockStatement (r : Rules) : Parser (List Tree) := do
  if (← isNext "synchronized") && (← isAhead 1 "(") then return [← statement r]
  else if ← isLocalClass r then
    let (m, flags, annos) ← modifiers r
    return [← typeDeclaration r m flags annos]
  else if ← isLocalDeclaration r then
    let vars ← localVariables r
    let _ ← expect ";"
    return vars
  else return [← statement r]

end Weaver.Parse
