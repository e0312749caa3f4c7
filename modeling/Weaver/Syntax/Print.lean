import Weaver.Syntax.Tree
/-!
Programs as text.

Expressions get the parentheses their operators need, so a tree built without any prints as the
program it stands for. Modifiers are written in canonical order, blocks are indented by tabs, and a
constructor is written with the name of the class around it.

One function renders every node. What differs with the place of a node is its role: how strongly
the surrounding operator binds, whether a variable is a parameter or a member, whether only the
body of a class is wanted.
-/
set_option autoImplicit false

namespace Weaver.Syntax

/-- The place that a node is printed in. -/
inductive Role where
  /-- As a statement, a declaration, or an expression that needs no parentheses. -/
  | plain
  /-- As an operand of an operator. -/
  | operand (prec : Nat)
  /-- As what is called, with the type arguments of the call. -/
  | callee (typeArgs : List String)
  /-- As an element type, its array brackets left out. -/
  | bare
  /-- As the type of a variable arity parameter. -/
  | varargs
  /-- As an argument of an annotation. -/
  | argument
  /-- As a declaration on one line without its end. -/
  | inline
  /-- As a member of a class; in an enumeration constants have a form of their own. -/
  | member (ofEnum : Bool)
  /-- As the value of an enumeration constant. -/
  | constantValue
  /-- Only the body of a class. -/
  | body
  /-- As the first part in the head of a loop. -/
  | clause
  /-- As a later part in the head of a loop. -/
  | laterClause
deriving DecidableEq

/-- The binding strength that a role asks of an expression. -/
def Role.prec : Role → Nat
  | operand p => p
  | callee _ => Precedence.after
  | _ => Precedence.lowest

/-- Where text is printed: the depth of indentation and the name of the class around. -/
structure Layout where
  depth : Nat
  owner : Option String

namespace Layout

/-- The start of a new line. -/
def newline (l : Layout) : String :=
  String.ofList ('\n' :: List.replicate l.depth '\t')

/-- One level deeper. -/
def deeper (l : Layout) : Layout :=
  { l with depth := l.depth + 1 }

/-- Inside a class. -/
def inside (l : Layout) (name : String) : Layout :=
  ⟨l.depth + 1, some name⟩

end Layout

namespace Tree

/-- Texts separated by commas. -/
def commas (texts : List String) : String :=
  ", ".intercalate texts

/-- The text, in parentheses if it binds less strongly than its place asks. -/
def guarded (own : Nat) (r : Role) (text : String) : String :=
  if own < r.prec then "(" ++ text ++ ")" else text

/-- A text with something before it, if there is any. -/
def after (lead text : String) : String :=
  if text.isEmpty then "" else lead ++ text

/-- Type parameters in angle brackets. -/
def angled (texts : List String) : String :=
  if texts.isEmpty then "" else "<" ++ commas texts ++ ">"

/-- The word that declares a type with the given modifiers. -/
def classWord (f : Flags) : String :=
  if f.meets .annotationFlag then "@interface "
  else if f.meets .interfaceFlag then "interface "
  else if f.meets .enumFlag then "enum "
  else "class "

/-- A member that is an enumeration constant. -/
def isEnumConstant : Tree → Bool
  | varDecl _ _ mods _ _ => mods.flags.meets .enumFlag
  | _ => false

/-- A method or constructor. -/
def isMethod : Tree → Bool
  | methodDecl .. => true
  | _ => false

/-- The text of a node that can stand in the head of a loop: a declaration or an expression. Other
statements are not written there. -/
def ifClause (t : Tree) (text : String) : String :=
  match t with
  | varDecl .. | exec .. => text
  | _ => ""

/-- Members of a class on lines of their own, a blank line before each method. -/
def memberLines (l : Layout) (defs : List Tree) (texts : List String) : String :=
  String.join (List.zipWith
    (fun d text => (if isMethod d then "\n" else "") ++ l.newline ++ text) defs texts)

/-- The body of an enumeration: constants first, then a semicolon and the other members. -/
def enumLines (l : Layout) (defs : List Tree) (texts : List String) : String :=
  let members := defs.zip texts
  let constants := members.filter (·.1.isEnumConstant)
  let others := members.filter (!·.1.isEnumConstant)
  let first := if members.isEmpty then ""
    else l.newline ++ ("," ++ l.newline).intercalate (constants.map (·.2)) ++ ";"
  first ++ memberLines l (others.map (·.1)) (others.map (·.2))

mutual

/-- The text of a node in a role. -/
def render (r : Role) (l : Layout) : Tree → String
  | missing => ""
  | unit _ _ package imports defs =>
    (match package with
      | missing => ""
      | p => "package " ++ render .plain l p ++ ";\n\n") ++
    String.join ((renderAll .plain l imports).map (· ++ "\n")) ++
    (if imports.isEmpty then "" else "\n") ++
    "\n".intercalate ((renderAll .plain l defs).map (· ++ "\n"))
  | importDecl _ isStatic name =>
    "import " ++ (if isStatic then "static " else "") ++ render .plain l name ++ ";"
  | classDecl _ name mods typeParams extending implementing defs =>
    let isEnum := mods.flags.meets .enumFlag
    let inner := l.inside name
    let texts := renderAll (.member isEnum) inner defs
    let body := "\x7b" ++
      (if isEnum then enumLines inner defs texts else memberLines inner defs texts) ++
      l.newline ++ "\x7d"
    match r with
    | .body => body
    | _ =>
      render .plain l mods ++ classWord mods.flags ++ name ++
      angled (renderAll .plain l typeParams) ++
      (match extending with
        | missing => ""
        | e => " extends " ++ render .plain l e) ++
      (if implementing.isEmpty then ""
        else (if mods.flags.meets .interfaceFlag then " extends " else " implements ") ++
          commas (renderAll .plain l implementing)) ++
      " " ++ body
  | methodDecl _ name mods typeParams result params thrown body =>
    render .plain l mods ++
    (if typeParams.isEmpty then "" else angled (renderAll .plain l typeParams) ++ " ") ++
    (if name == initName then l.owner.getD name else render .plain l result ++ " " ++ name) ++
    "(" ++ commas (renderAll .inline l params) ++ ")" ++
    (if thrown.isEmpty then "" else " throws " ++ commas (renderAll .plain l thrown)) ++
    (match body with
      | missing => ";"
      | b => " " ++ render .plain l b)
  | varDecl _ name mods type init =>
    let typeRole := if mods.flags.meets .varargsFlag then Role.varargs else .plain
    let value := match init with
      | missing => ""
      | i => " = " ++ render .plain l i
    let declared (modsRole : Role) : String :=
      render modsRole l mods ++ render typeRole l type ++ " " ++ name ++ value
    match r with
    | .inline | .clause => declared .inline
    | .laterClause => ", " ++ name ++ value
    | .member ofEnum =>
      if ofEnum && mods.flags.meets .enumFlag then
        (match mods with
          | modifiers _ _ as => String.join ((renderAll .plain l as).map (· ++ " "))
          | _ => "") ++ name ++ render .constantValue l init
      else declared .plain ++ ";"
    | _ => declared .inline ++ ";"
  | modifiers _ flags annotations =>
    let separator := match r with
      | .inline => " "
      | _ => l.newline
    let words := flags.text
    String.join ((renderAll .plain l annotations).map (· ++ separator)) ++
      (if words.isEmpty then "" else words ++ " ")
  | annoUse _ type args =>
    "@" ++ render .plain l type ++
      (if args.isEmpty then "" else "(" ++ commas (renderAll .argument l args) ++ ")")
  | typeParam _ name bounds =>
    name ++ (if bounds.isEmpty then ""
      else " extends " ++ " & ".intercalate (renderAll .plain l bounds))
  | block _ flags stmts =>
    (if flags.meets .staticFlag then "static " else "") ++ "\x7b" ++
      String.join ((renderAll .plain l.deeper stmts).map (l.deeper.newline ++ ·)) ++
      l.newline ++ "\x7d"
  | ifThen _ cond yes no =>
    "if (" ++ render .plain l cond ++ ") " ++ render .plain l yes ++
      (match no with
        | missing => ""
        | n => " else " ++ render .plain l n)
  | whileLoop _ cond body => "while (" ++ render .plain l cond ++ ") " ++ render .plain l body
  | doLoop _ body cond =>
    "do " ++ render .plain l body ++ " while (" ++ render .plain l cond ++ ");"
  | forLoop _ init cond step body =>
    "for (" ++
      (match init with
        | [] => ""
        | first :: later =>
          ifClause first (render .clause l first) ++
            String.join (List.zipWith ifClause later (renderAll .laterClause l later))) ++
      "; " ++ render .plain l cond ++ "; " ++ commas (renderAll .clause l step) ++ ") " ++
      render .plain l body
  | foreachLoop _ var expr body =>
    "for (" ++ render .inline l var ++ " : " ++ render .plain l expr ++ ") " ++
      render .plain l body
  | labeled _ label body => label ++ ": " ++ render .plain l body
  | switchOn _ selector cases =>
    "switch (" ++ render .plain l selector ++ ") \x7b" ++
      String.join ((renderAll .plain l cases).map (l.newline ++ ·)) ++ l.newline ++ "\x7d"
  | switchCase _ pattern stmts =>
    (match pattern with
      | missing => "default:"
      | p => "case " ++ render .plain l p ++ ":") ++
      String.join ((renderAll .plain l.deeper stmts).map (l.deeper.newline ++ ·))
  | synchronizedOn _ lock body =>
    "synchronized (" ++ render .plain l lock ++ ") " ++ render .plain l body
  | tryCatch _ body catches final =>
    "try " ++ render .plain l body ++
      String.join ((renderAll .plain l catches).map (" " ++ ·)) ++
      (match final with
        | missing => ""
        | f => " finally " ++ render .plain l f)
  | catchClause _ param body =>
    "catch (" ++ render .inline l param ++ ") " ++ render .plain l body
  | throwing _ expr => "throw " ++ render .plain l expr ++ ";"
  | returning _ expr =>
    "return" ++
      (match expr with
        | missing => ""
        | e => " " ++ render .plain l e) ++ ";"
  | breaking _ label => "break" ++ after " " label ++ ";"
  | continuing _ label => "continue" ++ after " " label ++ ";"
  | skip _ => ";"
  | exec _ expr =>
    match r with
    | .clause => render .plain l expr
    | .laterClause => ", " ++ render .plain l expr
    | _ => render .plain l expr ++ ";"
  | ident _ name => name
  | select _ qualifier name =>
    render (.operand Precedence.after) l qualifier ++ "." ++
      (match r with
        | .callee (t :: ts) => "<" ++ commas (t :: ts) ++ ">"
        | _ => "") ++ name
  | call _ typeArgs callee args =>
    render (.callee (renderAll .plain l typeArgs)) l callee ++
      "(" ++ commas (renderAll .plain l args) ++ ")"
  | newObject _ outer typeArgs type args body =>
    let bodyText := match body with
      | missing => ""
      | b => " " ++ render .body l b
    match r with
    | .constantValue =>
      (if args.isEmpty then "" else "(" ++ commas (renderAll .plain l args) ++ ")") ++ bodyText
    | _ =>
      (match outer with
        | missing => ""
        | o => render (.operand Precedence.after) l o ++ ".") ++
      "new " ++
      (match typeArgs with
        | [] => ""
        | ts => "<" ++ commas (renderAll .plain l ts) ++ ">") ++
      render .plain l type ++ "(" ++ commas (renderAll .plain l args) ++ ")" ++ bodyText
  | newArray _ elem dims hasInit elems =>
    let init := "\x7b" ++ commas (renderAll .plain l elems) ++ "\x7d"
    match elem with
    | missing => init
    | e =>
      "new " ++ render .bare l e ++
        String.join ((renderAll .plain l dims).map fun d => "[" ++ d ++ "]") ++
        String.join (List.replicate (e.arrayDepth + if hasInit then 1 else 0) "[]") ++
        (if hasInit then init else "")
  | parens _ expr => "(" ++ render .plain l expr ++ ")"
  | assign _ left right =>
    match r with
    | .argument => render .plain l left ++ " = " ++ render .plain l right
    | _ =>
      guarded Precedence.assign r
        (render (.operand (Precedence.assign + 1)) l left ++ " = " ++
          render (.operand Precedence.assign) l right)
  | assignOp _ op left right =>
    guarded Precedence.assignOp r
      (render (.operand (Precedence.assignOp + 1)) l left ++ " " ++ op.symbol ++ "= " ++
        render (.operand Precedence.assignOp) l right)
  | unary _ op arg =>
    guarded op.precedence r
      (if op.isPost then render (.operand Precedence.after) l arg ++ op.symbol
        else op.symbol ++ render (.operand Precedence.before) l arg)
  | binary _ op left right =>
    guarded op.precedence r
      (render (.operand op.precedence) l left ++ " " ++ op.symbol ++ " " ++
        render (.operand (op.precedence + 1)) l right)
  | conditional _ cond yes no =>
    guarded Precedence.conditional r
      (render (.operand (Precedence.conditional + 1)) l cond ++ " ? " ++
        render (.operand (Precedence.conditional + 1)) l yes ++ " : " ++
        render (.operand Precedence.conditional) l no)
  | cast _ type expr =>
    guarded Precedence.before r
      ("(" ++ render .plain l type ++ ")" ++ render (.operand Precedence.before) l expr)
  | instanceOf _ expr type =>
    guarded Precedence.relation r
      (render (.operand Precedence.relation) l expr ++ " instanceof " ++ render .plain l type)
  | indexed _ array index =>
    render (.operand Precedence.after) l array ++ "[" ++ render .plain l index ++ "]"
  | literal _ value => value.print
  | primitive _ tag => tag.name
  | arrayType _ elem =>
    match r with
    | .bare => render .bare l elem
    | .varargs => render .plain l elem ++ "..."
    | _ => render .plain l elem ++ "[]"
  | typeApply _ type args => render .plain l type ++ "<" ++ commas (renderAll .plain l args) ++ ">"
  | wildcard _ bound type =>
    match bound with
    | .extending => "? extends " ++ render .plain l type
    | .above => "? super " ++ render .plain l type
    | .unbounded => "?"

/-- The texts of the nodes of a list. -/
def renderAll (r : Role) (l : Layout) : List Tree → List String
  | [] => []
  | t :: ts => render r l t :: renderAll r l ts

end

/-- The text of a program or a part of one. -/
def print (t : Tree) : String :=
  render .plain ⟨0, none⟩ t

end Tree

end Weaver.Syntax
