import Weaver.Source.Position
import Weaver.Syntax.Flags
import Weaver.Syntax.Operator
import Weaver.Text.Name
/-!
Programs as trees.

One type holds all nodes: a type can stand where an expression stands, a class where a statement
stands, so the categories overlap. A place that may be empty (a missing `else`, a method without a
body) holds `missing`. Every node carries a mark with its place in the source and whether it was
generated; marks say nothing about the program.
-/
set_option autoImplicit false

namespace Weaver.Syntax

open Weaver.Source (Position Literal)

/-- What a node carries besides its program text. The number tells declarations and annotations of
one unit apart; it is zero for nodes nobody has to find again. -/
structure Mark where
  pos : Position
  generated : Bool
  id : Nat
deriving Repr, DecidableEq, Inhabited

/-- The mark of a node read from a source text. -/
def Mark.at (pos : Position) : Mark := ⟨pos, false, 0⟩

/-- The name that constructors are declared with. -/
def initName : String := "<init>"

/-- A node of a program. Constructors with a list of children in the middle keep the order in which
the parts are written. -/
inductive Tree where
  | missing
  | unit (m : Mark) (file : String) (package : Tree) (imports : List Tree) (defs : List Tree)
  | importDecl (m : Mark) (isStatic : Bool) (name : Tree)
  | classDecl (m : Mark) (name : String) (mods : Tree) (typeParams : List Tree)
      (extending : Tree) (implementing : List Tree) (defs : List Tree)
  | methodDecl (m : Mark) (name : String) (mods : Tree) (typeParams : List Tree) (result : Tree)
      (params : List Tree) (thrown : List Tree) (body : Tree)
  | varDecl (m : Mark) (name : String) (mods : Tree) (type : Tree) (init : Tree)
  | modifiers (m : Mark) (flags : Flags) (annotations : List Tree)
  | annoUse (m : Mark) (type : Tree) (args : List Tree)
  | typeParam (m : Mark) (name : String) (bounds : List Tree)
  | block (m : Mark) (flags : Flags) (stmts : List Tree)
  | ifThen (m : Mark) (cond yes no : Tree)
  | whileLoop (m : Mark) (cond body : Tree)
  | doLoop (m : Mark) (body cond : Tree)
  | forLoop (m : Mark) (init : List Tree) (cond : Tree) (step : List Tree) (body : Tree)
  | foreachLoop (m : Mark) (var expr body : Tree)
  | labeled (m : Mark) (label : String) (body : Tree)
  | switchOn (m : Mark) (selector : Tree) (cases : List Tree)
  | switchCase (m : Mark) (pattern : Tree) (stmts : List Tree)
  | synchronizedOn (m : Mark) (lock body : Tree)
  | tryCatch (m : Mark) (body : Tree) (catches : List Tree) (final : Tree)
  | catchClause (m : Mark) (param body : Tree)
  | throwing (m : Mark) (expr : Tree)
  | returning (m : Mark) (expr : Tree)
  | breaking (m : Mark) (label : String)
  | continuing (m : Mark) (label : String)
  | skip (m : Mark)
  | exec (m : Mark) (expr : Tree)
  | ident (m : Mark) (name : String)
  | select (m : Mark) (qualifier : Tree) (name : String)
  | call (m : Mark) (typeArgs : List Tree) (callee : Tree) (args : List Tree)
  | newObject (m : Mark) (outer : Tree) (typeArgs : List Tree) (type : Tree) (args : List Tree)
      (body : Tree)
  | newArray (m : Mark) (elem : Tree) (dims : List Tree) (hasInit : Bool) (elems : List Tree)
  | parens (m : Mark) (expr : Tree)
  | assign (m : Mark) (left right : Tree)
  | assignOp (m : Mark) (op : BinaryOp) (left right : Tree)
  | unary (m : Mark) (op : UnaryOp) (arg : Tree)
  | binary (m : Mark) (op : BinaryOp) (left right : Tree)
  | conditional (m : Mark) (cond yes no : Tree)
  | cast (m : Mark) (type expr : Tree)
  | instanceOf (m : Mark) (expr type : Tree)
  | indexed (m : Mark) (array index : Tree)
  | literal (m : Mark) (value : Literal)
  | primitive (m : Mark) (tag : TypeTag)
  | arrayType (m : Mark) (elem : Tree)
  | typeApply (m : Mark) (type : Tree) (args : List Tree)
  | wildcard (m : Mark) (bound : Bound) (type : Tree)
deriving Inhabited

namespace Tree

/-- Nothing stands here. -/
def isMissing : Tree → Bool
  | missing => true
  | _ => false

/-- The name of a node's kind. -/
def kind : Tree → String
  | missing => ""
  | unit .. => "CompilationUnit"
  | importDecl .. => "Import"
  | classDecl .. => "ClassDecl"
  | methodDecl .. => "MethodDecl"
  | varDecl .. => "VarDecl"
  | modifiers .. => "Modifiers"
  | annoUse .. => "Annotation"
  | typeParam .. => "TypeParameter"
  | block .. => "Block"
  | ifThen .. => "If"
  | whileLoop .. => "WhileLoop"
  | doLoop .. => "DoWhileLoop"
  | forLoop .. => "ForLoop"
  | foreachLoop .. => "EnhancedForLoop"
  | labeled .. => "Labeled"
  | switchOn .. => "Switch"
  | switchCase .. => "Case"
  | synchronizedOn .. => "Synchronized"
  | tryCatch .. => "Try"
  | catchClause .. => "Catch"
  | throwing .. => "Throw"
  | returning .. => "Return"
  | breaking .. => "Break"
  | continuing .. => "Continue"
  | skip .. => "Skip"
  | exec .. => "ExpressionStatement"
  | ident .. => "Ident"
  | select .. => "FieldAccess"
  | call .. => "MethodInvocation"
  | newObject .. => "NewClass"
  | newArray .. => "NewArray"
  | parens .. => "Parens"
  | assign .. => "Assign"
  | assignOp .. => "AssignOp"
  | unary .. => "Unary"
  | binary .. => "Binary"
  | conditional .. => "Conditional"
  | cast .. => "TypeCast"
  | instanceOf .. => "InstanceOf"
  | indexed .. => "ArrayAccess"
  | literal .. => "Literal"
  | primitive .. => "PrimitiveType"
  | arrayType .. => "ArrayType"
  | typeApply .. => "TypeApply"
  | wildcard .. => "Wildcard"

/-- The mark of a node. -/
def mark : Tree → Mark
  | missing => default
  | unit m .. | importDecl m .. | classDecl m .. | methodDecl m .. | varDecl m ..
  | modifiers m .. | annoUse m .. | typeParam m .. | block m .. | ifThen m .. | whileLoop m ..
  | doLoop m .. | forLoop m .. | foreachLoop m .. | labeled m .. | switchOn m ..
  | switchCase m .. | synchronizedOn m .. | tryCatch m .. | catchClause m .. | throwing m ..
  | returning m .. | breaking m .. | continuing m .. | skip m .. | exec m .. | ident m ..
  | select m .. | call m .. | newObject m .. | newArray m .. | parens m .. | assign m ..
  | assignOp m .. | unary m .. | binary m .. | conditional m .. | cast m .. | instanceOf m ..
  | indexed m .. | literal m .. | primitive m .. | arrayType m .. | typeApply m ..
  | wildcard m .. => m

/-- The place of a node. -/
def pos (t : Tree) : Position := t.mark.pos

/-- The number of a declaration or annotation. -/
def id (t : Tree) : Nat := t.mark.id

/-- The modifier set of a modifiers node. -/
def flags : Tree → Flags
  | modifiers _ f _ => f
  | _ => .empty

/-- The annotations of a modifiers node. -/
def annotations : Tree → List Tree
  | modifiers _ _ as => as
  | _ => []

/-- The expression inside any parentheses. -/
def unparen : Tree → Tree
  | parens _ e => e.unparen
  | e => e

/-- The dotted name of an identifier or a chain of selections, type arguments left out. -/
def qualifiedName? : Tree → Option String
  | ident _ n => some n
  | select _ q n => q.qualifiedName?.map (· ++ "." ++ n)
  | typeApply _ t _ => t.qualifiedName?
  | _ => none

/-- The chain of selections of a dotted name. -/
def ofDotted (m : Mark) (name : String) : Tree :=
  match Text.segments name with
  | [] => ident m name
  | first :: more => more.foldl (fun e n => select m e n) (ident m first)

/-- How strongly an expression binds. -/
def precedence : Tree → Nat
  | assign .. => Precedence.assign
  | assignOp .. => Precedence.assignOp
  | conditional .. => Precedence.conditional
  | binary _ op .. => op.precedence
  | unary _ op _ => op.precedence
  | cast .. => Precedence.before
  | instanceOf .. => Precedence.relation
  | _ => Precedence.primary

/-- The number of array brackets around an element type. -/
def arrayDepth : Tree → Nat
  | arrayType _ e => e.arrayDepth + 1
  | _ => 0

/-- The element type inside all array brackets. -/
def arrayBase : Tree → Tree
  | arrayType _ e => e.arrayBase
  | e => e

end Tree

end Weaver.Syntax
