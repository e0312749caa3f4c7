import Weaver.Code.Basic
import Weaver.Code.Relocate
/-!
From trees to code.

Statements become code as far as code has them; what it does not have, and every expression, is
carried along as a tree. Constants of type boolean are recognized in any parentheses, so that loops
without end can be told. Types become names with arguments and brackets; a type that does not fit
is carried along whole. While it is lifted, code can be relocated.
-/
set_option autoImplicit false

namespace Weaver.Code

open Weaver.Source (Literal)
open Weaver.Syntax (Tree Flags)

/-! ## Types -/

/-- Adds a pair of array brackets to a type; a type carried along has none of its own. -/
def bracketed (whole : Tree) : Code → Code
  | typeRef n as d => typeRef n as (d + 1)
  | _ => hostType whole

/-- Gives arguments to a type that has none yet. -/
def applied (whole : Tree) (args : List Code) : Code → Code
  | typeRef n [] d => typeRef n args d
  | _ => hostType whole

mutual

/-- A type as code. -/
def liftType : Tree → Code
  | .primitive _ tag => type tag.name
  | t@(.ident ..) | t@(.select ..) =>
    match t.qualifiedName? with
    | some q => type q
    | none => hostType t
  | t@(.typeApply _ c as) => applied t (liftTypeArgs as) (liftType c)
  | t@(.arrayType _ e) => bracketed t (liftType e)
  | t => hostType t

/-- A type argument as code. -/
def liftTypeArg : Tree → Code
  | .wildcard _ b t =>
    match b with
    | .unbounded => wildcard .unbounded missing
    | b => wildcard b (liftType t)
  | t => liftType t

/-- Type arguments as code. -/
def liftTypeArgs : List Tree → List Code
  | [] => []
  | t :: ts => liftTypeArg t :: liftTypeArgs ts

end

/-- A type parameter as code. -/
def liftTypeParam : Tree → Code
  | .typeParam _ n bs => typeParam n (bs.map liftType)
  | _ => missing

/-- The class that stands for a primitive type; other names stand for themselves. -/
def boxName (name : String) : String :=
  if name == "int" then "java.lang.Integer"
  else if name == "char" then "java.lang.Character"
  else match (Syntax.TypeTag.ofKeyword? name), name.toList with
    | some _, c :: cs => "java.lang." ++ String.ofList (c.toUpper :: cs)
    | _, _ => name

/-- A type with a primitive type replaced by its class. -/
def boxed (t : Code) : Code :=
  match t with
  | typeRef n _ _ => if t.isPrimitive then type (boxName n) else t
  | t => t

/-! ## Expressions -/

/-- The object a method runs on, qualified if code moves. -/
def liftThis (r : Relocation) : Code :=
  match r.outer with
  | some c => this (type c)
  | none => self

/-- An expression as code. -/
def liftExpr (r : Relocation) (e : Tree) : Code :=
  match e.unparen with
  | .literal _ (.boolean b) => bool b
  | _ => hostExpr (r.apply e)

/-- The left side of an assignment. -/
def liftTarget (r : Relocation) (e : Tree) : Code :=
  match e with
  | .ident _ n => if n == "this" || n == "super" then liftExpr r e else named (r.rename n)
  | .select _ (.ident _ "this") n => field (liftThis r) n
  | e => liftExpr r e

/-- A dotted name with its first part renamed. -/
def renameFirst (r : Relocation) (q : String) : String :=
  let (first, rest) := Text.splitFirst q
  r.rename first ++ rest

/-- The object that a method is called on. -/
def liftReceiver (r : Relocation) (e : Tree) : Code :=
  match e with
  | .ident _ "this" => liftThis r
  | .typeApply .. => liftExpr r e
  | e =>
    match e.qualifiedName? with
    | some q =>
      if q.startsWith "this." || q.startsWith "super" then liftExpr r e
      else named (renameFirst r q)
    | none => liftExpr r e

/-- A call as code, if what is called has a name. -/
def liftCall? (r : Relocation) : Tree → Option Code
  | .call _ ts (.ident _ n) as => some (call missing n (ts.map liftType) (as.map (liftExpr r)))
  | .call _ ts (.select _ q n) as =>
    some (call (liftReceiver r q) n (ts.map liftType) (as.map (liftExpr r)))
  | _ => none

/-! ## Declarations -/

/-- An annotation as code. -/
def liftAnno : Tree → Code
  | .annoUse _ t as =>
    let split (a : Tree) : String × Tree := match a with
      | .assign _ (.ident _ n) v => (n, v)
      | a => ("", a)
    annoUse (liftType t) (as.map fun a => (split a).1) (as.map fun a => hostExpr (split a).2)
  | _ => missing

/-- The value of a declared variable. Elements of an array without a type stay apart, so that they
can be given one when they leave the declaration. -/
def liftInit (r : Relocation) : Tree → Code
  | .missing => missing
  | .newArray _ .missing _ true es => newArray missing [] true (es.map (liftExpr r))
  | e => liftExpr r e

/-- A local variable as code. -/
def liftLocal (r : Relocation) : Tree → Code
  | .varDecl _ n ms t i =>
    localDecl (liftType t) n ms.flags.forCode (ms.annotations.map liftAnno) (liftInit r i)
  | _ => missing

/-- The variable of a `catch` clause as code. -/
def liftParam : Tree → Code
  | .varDecl _ n ms t _ =>
    argument (liftType t) n ms.flags.forCode (ms.annotations.map liftAnno)
  | _ => missing

/-! ## Statements -/

/-- An expression statement as code. -/
def liftExec (r : Relocation) (s e : Tree) : Code :=
  match e with
  | .assign _ a b => assign (liftTarget r a) (liftExpr r b)
  | .call .. => (liftCall? r e).getD (hostStmt (r.apply s))
  | _ => hostStmt (r.apply s)

mutual

/-- A statement as code. -/
def liftStmt (r : Relocation) : Tree → Code
  | s@(.block _ f ss) =>
    if f == .empty then block (liftStmts r ss) else hostStmt (r.apply s)
  | s@(.varDecl ..) => liftLocal r s
  | .ifThen _ c y n =>
    ifThen (liftExpr r c) (liftStmt r y)
      (match n with
        | .missing => missing
        | n => liftStmt r n)
  | .whileLoop _ c b => whileLoop (liftExpr r c) (liftStmt r b)
  | .doLoop _ b c => doLoop (liftStmt r b) (liftExpr r c)
  | .forLoop _ i c u b =>
    forLoop (liftStmts r i)
      (match c with
        | .missing => missing
        | c => liftExpr r c)
      (liftStmts r u) (liftStmt r b)
  | .foreachLoop _ v e b => foreach (liftLocal r v) (liftExpr r e) (liftStmt r b)
  | .labeled _ l b => labeled l (liftStmt r b)
  | .switchOn _ e cs => switchOn (liftExpr r e) (liftCases r cs)
  | .synchronizedOn _ e b => synchronizedOn (liftExpr r e) (liftBlock r b)
  | .tryCatch _ b cs f =>
    tryCatch (liftBlock r b) (liftCatches r cs)
      (match f with
        | .missing => missing
        | f => liftBlock r f)
  | .throwing _ e => throwing (liftExpr r e)
  | .returning _ e =>
    match e with
    | .missing => returnVoid
    | e => returning (liftExpr r e)
  | .breaking _ l => breaking l
  | .continuing _ l => continuing l
  | s@(.exec _ e) => liftExec r s e
  | s => hostStmt (r.apply s)

/-- Statements as code. -/
def liftStmts (r : Relocation) : List Tree → List Code
  | [] => []
  | s :: ss => liftStmt r s :: liftStmts r ss

/-- A block as code, whatever its flags. -/
def liftBlock (r : Relocation) : Tree → Code
  | .block _ _ ss => block (liftStmts r ss)
  | _ => block []

/-- The cases of a `switch` statement as code. -/
def liftCases (r : Relocation) : List Tree → List Code
  | [] => []
  | .switchCase _ p ss :: cs =>
    switchCase
      (match p with
        | .missing => missing
        | p => liftExpr r p)
      (liftStmts r ss) :: liftCases r cs
  | _ :: cs => liftCases r cs

/-- The `catch` clauses of a `try` statement as code. -/
def liftCatches (r : Relocation) : List Tree → List Code
  | [] => []
  | .catchClause _ p b :: cs => catchClause (liftParam p) (liftBlock r b) :: liftCatches r cs
  | _ :: cs => liftCatches r cs

end

end Weaver.Code
