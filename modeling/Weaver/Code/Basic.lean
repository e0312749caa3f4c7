import Weaver.Syntax.Tree
import Weaver.Text.Name
/-!
Code to be generated.

This is a small language in which generated members and statements are described before they become
trees. It has the statements, expressions, types and declarations that generated code needs;
everything else is carried along as a fragment of a tree that already exists. A place that is
optional, or was left open, holds `missing`.
-/
set_option autoImplicit false

namespace Weaver

open Weaver.Source (Literal)
open Weaver.Syntax (Tree Flags Bound)

/-- The value of a number constant. What is not a number of one of the four literal types cannot be
written as code. -/
inductive Numeral where
  | literal (value : Literal)
  | other (text : String)
deriving Repr, DecidableEq, Inhabited

/-- The kind of type that a class declaration declares. -/
structure ClassKind where
  isInterface : Bool
  isEnum : Bool
  isAnonymous : Bool
  isLocal : Bool
deriving Repr, DecidableEq, Inhabited

/-- A piece of code to be generated. -/
inductive Code where
  | missing
  -- types
  | typeRef (name : String) (args : List Code) (dims : Int)
  | hostType (tree : Tree)
  | wildcard (bound : Bound) (type : Code)
  -- expressions
  | named (name : String)
  | field (receiver : Code) (name : String)
  | call (receiver : Code) (name : String) (typeArgs : List Code) (args : List Code)
  | create (type : Code) (args : List Code) (body : Code)
  | newArray (type : Code) (dims : List Code) (hasInit : Bool) (init : List Code)
  | cast (type expr : Code)
  | instanceOf (expr type : Code)
  | binary (left : Code) (op : String) (right : Code)
  | unary (op : String) (expr : Code)
  | equal (left right : Code) (negated : Bool)
  | assign (left right : Code)
  | indexed (array index : Code)
  | this (type : Code)
  | bool (value : Bool)
  | char (code : Int)
  | number (value : Numeral)
  | text (value : String)
  | null
  | hostExpr (tree : Tree)
  -- statements
  | block (stmts : List Code)
  | ifThen (cond yes no : Code)
  | whileLoop (cond body : Code)
  | doLoop (body cond : Code)
  | forLoop (init : List Code) (cond : Code) (update : List Code) (body : Code)
  | foreach (var source body : Code)
  | switchOn (selector : Code) (cases : List Code)
  | switchCase (pattern : Code) (stmts : List Code)
  | tryCatch (body : Code) (catches : List Code) (final : Code)
  | catchClause (arg body : Code)
  | throwing (expr : Code)
  | returning (expr : Code)
  | returnDefault
  | synchronizedOn (lock body : Code)
  | breaking (label : String)
  | continuing (label : String)
  | labeled (label : String) (body : Code)
  | localDecl (type : Code) (name : String) (mods : Flags) (annos : List Code) (init : Code)
  | hostStmt (tree : Tree)
  -- declarations; an empty name of an annotation argument stands for `value`
  | annoUse (type : Code) (names : List String) (values : List Code)
  | argument (type : Code) (name : String) (mods : Flags) (annos : List Code)
  | typeParam (name : String) (bounds : List Code)
  | fieldDecl (type : Code) (name : String) (mods : Flags) (annos : List Code) (init : Code)
  | methodDecl (mods : Flags) (annos : List Code) (typeParams : List Code) (result : Code)
      (name : String) (args : List Code) (thrown : List Code) (stmts : List Code)
      (noBody implementing : Bool)
  | constructorDecl (mods : Flags) (annos : List Code) (typeParams : List Code) (name : String)
      (args : List Code) (thrown : List Code) (stmts : List Code) (implicitSuper : Bool)
  | enumConstant (name : String) (args : List Code) (annos : List Code)
  | classDecl (kind : ClassKind) (mods : Flags) (annos : List Code) (name : String)
      (typeParams : List Code) (extending : Code) (implementing : List Code)
      (constants fields methods types : List Code)
  | hostMethod (tree : Tree)
deriving Inhabited

namespace Code

/-- Nothing stands here. -/
def isMissing : Code → Bool
  | missing => true
  | _ => false

/-- The name of the kind of a piece of code. -/
def kind : Code → String
  | missing => ""
  | typeRef .. | hostType _ => "TypeRef"
  | wildcard .. => "Wildcard"
  | named _ => "Name"
  | field .. => "FieldRef"
  | call .. => "Call"
  | create .. => "New"
  | newArray .. => "NewArray"
  | cast .. => "Cast"
  | instanceOf .. => "InstanceOf"
  | binary .. => "Binary"
  | unary .. => "Unary"
  | equal .. => "Equal"
  | assign .. => "Assign"
  | indexed .. => "ArrayRef"
  | this _ => "This"
  | bool _ => "Bool"
  | char _ => "Char"
  | number _ => "Number"
  | text _ => "String"
  | null => "Null"
  | hostExpr _ => "WrappedExpr"
  | block _ => "Block"
  | ifThen .. => "If"
  | whileLoop .. => "While"
  | doLoop .. => "DoWhile"
  | forLoop .. => "For"
  | foreach .. => "Foreach"
  | switchOn .. => "Switch"
  | switchCase .. => "Case"
  | tryCatch .. => "Try"
  | catchClause .. => "Catch"
  | throwing _ => "Throw"
  | returning _ => "Return"
  | returnDefault => "ReturnDefault"
  | synchronizedOn .. => "Synchronized"
  | breaking _ => "Break"
  | continuing _ => "Continue"
  | labeled .. => "Labeled"
  | localDecl .. => "LocalDecl"
  | hostStmt _ => "WrappedStmt"
  | annoUse .. => "Annotation"
  | argument .. => "Argument"
  | typeParam .. => "TypeParam"
  | fieldDecl .. => "FieldDecl"
  | methodDecl .. => "MethodDecl"
  | constructorDecl .. => "ConstructorDecl"
  | enumConstant .. => "EnumConstant"
  | classDecl .. => "ClassDecl"
  | hostMethod _ => "WrappedMethodDecl"

/-- The kinds in alphabetical order; their numbers start at one. -/
def kinds : List String :=
  ["Annotation", "Argument", "ArrayRef", "Assign", "Binary", "Block", "Bool", "Break", "Call",
   "Case", "Cast", "Catch", "Char", "ClassDecl", "ConstructorDecl", "Continue", "DoWhile",
   "EnumConstant", "Equal", "FieldDecl", "FieldRef", "For", "Foreach", "If", "InstanceOf",
   "Labeled", "LocalDecl", "MethodDecl", "Name", "New", "NewArray", "Null", "Number", "Return",
   "ReturnDefault", "String", "Switch", "Synchronized", "This", "Throw", "Try", "TypeParam",
   "TypeRef", "Unary", "While", "Wildcard", "WrappedExpr", "WrappedMethodDecl", "WrappedStmt"]

/-- The parts of a piece of code in the order in which they are written. Fragments of trees have
none. -/
def children (c : Code) : List Code :=
  let parts : List Code := match c with
    | typeRef _ as _ => as
    | wildcard _ t => [t]
    | field r _ => [r]
    | call r _ ts as => r :: ts ++ as
    | create t as b => t :: as ++ [b]
    | newArray t ds _ is => t :: ds ++ is
    | cast t e => [t, e]
    | instanceOf e t => [e, t]
    | binary l _ r => [l, r]
    | unary _ e => [e]
    | equal l r _ => [l, r]
    | assign l r => [l, r]
    | indexed a i => [a, i]
    | this t => [t]
    | block ss => ss
    | ifThen c y n => [c, y, n]
    | whileLoop c b => [c, b]
    | doLoop b c => [b, c]
    | forLoop i c u b => i ++ c :: u ++ [b]
    | foreach v s b => [v, s, b]
    | switchOn s cs => s :: cs
    | switchCase p ss => p :: ss
    | tryCatch b cs f => b :: cs ++ [f]
    | catchClause a b => [a, b]
    | throwing e => [e]
    | returning e => [e]
    | synchronizedOn l b => [l, b]
    | labeled _ b => [b]
    | localDecl t _ _ as i => as ++ [t, i]
    | annoUse t _ vs => t :: vs
    | argument t _ _ as => as ++ [t]
    | typeParam _ bs => bs
    | fieldDecl t _ _ as i => as ++ [t, i]
    | methodDecl _ as tps r _ ps ts ss _ _ => as ++ tps ++ r :: ps ++ ts ++ ss
    | constructorDecl _ as tps _ ps ts ss _ => as ++ tps ++ ps ++ ts ++ ss
    | enumConstant _ ps as => as ++ ps
    | classDecl _ _ as _ tps e is cs fs ms ts => as ++ tps ++ e :: is ++ cs ++ fs ++ ms ++ ts
    | _ => []
  parts.filter (!·.isMissing)

/-- A piece followed by what is below it, which is left out where the condition holds. -/
def andBelow (stop : Code → Bool) (c : Code) (below : List Code) : List Code :=
  c :: if stop c then [] else below

mutual

/-- The pieces of code from the top, each before its parts; the parts of a piece that satisfies the
condition are not visited. -/
def visit (stop : Code → Bool) : Code → List Code
  | missing => []
  | c@(call r _ ts as) => andBelow stop c (visit stop r ++ visitAll stop ts ++ visitAll stop as)
  | c@(create t as b) => andBelow stop c (visit stop t ++ visitAll stop as ++ visit stop b)
  | c@(newArray t ds _ is) => andBelow stop c (visit stop t ++ visitAll stop ds ++ visitAll stop is)
  | c@(forLoop i e u b) =>
    andBelow stop c (visitAll stop i ++ visit stop e ++ visitAll stop u ++ visit stop b)
  | c@(tryCatch b cs f) => andBelow stop c (visit stop b ++ visitAll stop cs ++ visit stop f)
  | c@(localDecl t _ _ as i) | c@(fieldDecl t _ _ as i) =>
    andBelow stop c (visitAll stop as ++ visit stop t ++ visit stop i)
  | c@(methodDecl _ as tps r _ ps ts ss _ _) =>
    andBelow stop c (visitAll stop as ++ visitAll stop tps ++ visit stop r ++ visitAll stop ps ++
      visitAll stop ts ++ visitAll stop ss)
  | c@(constructorDecl _ as tps _ ps ts ss _) =>
    andBelow stop c (visitAll stop as ++ visitAll stop tps ++ visitAll stop ps ++
      visitAll stop ts ++ visitAll stop ss)
  | c@(enumConstant _ ps as) => andBelow stop c (visitAll stop as ++ visitAll stop ps)
  | c@(classDecl _ _ as _ tps e is cs fs ms ts) =>
    andBelow stop c (visitAll stop as ++ visitAll stop tps ++ visit stop e ++ visitAll stop is ++
      visitAll stop cs ++ visitAll stop fs ++ visitAll stop ms ++ visitAll stop ts)
  | c@(argument t _ _ as) => andBelow stop c (visitAll stop as ++ visit stop t)
  | c@(ifThen x y z) | c@(foreach x y z) =>
    andBelow stop c (visit stop x ++ visit stop y ++ visit stop z)
  | c@(cast x y) | c@(instanceOf x y) | c@(binary x _ y) | c@(equal x y _) | c@(assign x y)
  | c@(indexed x y) | c@(whileLoop x y) | c@(doLoop x y) | c@(catchClause x y)
  | c@(synchronizedOn x y) => andBelow stop c (visit stop x ++ visit stop y)
  | c@(switchOn x xs) | c@(switchCase x xs) | c@(annoUse x _ xs) =>
    andBelow stop c (visit stop x ++ visitAll stop xs)
  | c@(wildcard _ x) | c@(field x _) | c@(unary _ x) | c@(this x) | c@(throwing x)
  | c@(returning x) | c@(labeled _ x) => andBelow stop c (visit stop x)
  | c@(typeRef _ xs _) | c@(block xs) | c@(typeParam _ xs) => andBelow stop c (visitAll stop xs)
  | c@(hostType _) | c@(named _) | c@(bool _) | c@(char _) | c@(number _) | c@(text _) | c@null
  | c@(hostExpr _) | c@returnDefault | c@(breaking _) | c@(continuing _) | c@(hostStmt _)
  | c@(hostMethod _) => [c]

/-- The pieces of a list of code. -/
def visitAll (stop : Code → Bool) : List Code → List Code
  | [] => []
  | c :: cs => visit stop c ++ visitAll stop cs

end

/-! ## Types -/

mutual

/-- A type as it is written. Fragments of trees show as a question mark. -/
def typeText : Code → String
  | typeRef name args dims =>
    name ++ (if args.isEmpty then "" else "<" ++ ", ".intercalate (typeTexts args) ++ ">") ++
      String.join (List.replicate dims.toNat "[]")
  | wildcard bound t =>
    match bound with
    | .extending => "? extends " ++ typeText t
    | .above => "? super " ++ typeText t
    | .unbounded => "?"
  | _ => "?"

/-- The texts of a list of types. -/
def typeTexts : List Code → List String
  | [] => []
  | t :: ts => typeText t :: typeTexts ts

end

/-- The last segment of a type's name. -/
def simpleName : Code → String
  | typeRef name _ _ => Text.lastSegment name
  | _ => ""

/-- The names of the primitive types and `void`. -/
def isPrimitiveName (name : String) : Bool :=
  (Syntax.TypeTag.ofKeyword? name).isSome

/-- A primitive type, or `void`. -/
def isPrimitive : Code → Bool
  | typeRef name _ dims => dims == 0 && isPrimitiveName name
  | _ => false

/-- The type `void`. -/
def isVoid : Code → Bool
  | typeRef name _ dims => dims == 0 && name == "void"
  | _ => false

/-- A bounded wildcard without its bound has no written form. -/
def isBoundless : Code → Bool
  | wildcard bound missing => bound != .unbounded
  | _ => false

/-! ## Common pieces -/

/-- The type with a name. -/
def type (name : String) : Code := typeRef name [] 0

/-- The type with a name and type arguments. -/
def typeOf (name : String) (args : List Code) : Code := typeRef name args 0

/-- A type with further type arguments. -/
def withTypeArgs (t : Code) (args : List Code) : Code :=
  match t with
  | typeRef n as d => typeRef n (as ++ args) d
  | t => t

/-- The type of all objects. -/
def objectType : Code := type "java.lang.Object"

/-- The object a method runs on. -/
def self : Code := this missing

/-- A call of a method of an object, or of an unqualified one. -/
def invoke (receiver : Code) (name : String) (args : List Code) : Code := call receiver name [] args

/-- A new object. -/
def new (type : Code) (args : List Code) : Code := create type args missing

/-- A formal parameter that is not assigned to. -/
def param (type : Code) (name : String) : Code := argument type name .finalFlag []

/-- An integer constant. -/
def int (n : Int) : Code := number (.literal (.int n))

/-- A return without a value. -/
def returnVoid : Code := returning missing

/-- A local variable with a value. -/
def declare (type : Code) (name : String) (mods : Flags) (init : Code) : Code :=
  localDecl type name mods [] init

/-- A field with a value or none. -/
def fieldOf (type : Code) (name : String) (mods : Flags) (init : Code) : Code :=
  fieldDecl type name mods [] init

/-- The name of a field that is declared by code. -/
def fieldName : Code → String
  | fieldDecl _ n _ _ _ => n
  | _ => ""

/-- A method with a body. -/
def method (mods : Flags) (result : Code) (name : String) (args stmts : List Code) : Code :=
  methodDecl mods [] [] result name args [] stmts false false

/-- The kinds of classes. -/
def plainClass : ClassKind := ⟨false, false, false, false⟩
def interfaceClass : ClassKind := ⟨true, false, false, false⟩
def enumClass : ClassKind := ⟨false, true, false, false⟩
def anonymousClass : ClassKind := ⟨false, false, true, false⟩
def localClass : ClassKind := ⟨false, false, false, true⟩

/-- The body of an anonymous class with the given methods. -/
def anonymous (methods : List Code) : Code :=
  classDecl anonymousClass .empty [] "" [] missing [] [] [] methods []

/-- A declaration of a method of any kind. -/
def isMethod : Code → Bool
  | methodDecl .. | constructorDecl .. | hostMethod _ => true
  | _ => false

/-- A piece of code that can stand as a statement. -/
def isStatement : Code → Bool
  | call .. | create .. | assign .. | hostExpr _ | block _ | ifThen .. | whileLoop .. | doLoop ..
  | forLoop .. | foreach .. | switchOn .. | tryCatch .. | throwing _ | returning _ | returnDefault
  | synchronizedOn .. | breaking _ | continuing _ | labeled .. | localDecl .. | hostStmt _
  | classDecl .. => true
  | _ => false

/-- A piece of code that can stand as an expression; types are among them. -/
def isExpression : Code → Bool
  | typeRef .. | hostType _ | wildcard .. | named _ | field .. | call .. | create .. | newArray ..
  | cast .. | instanceOf .. | binary .. | unary .. | equal .. | assign .. | indexed .. | this _
  | bool _ | char _ | number _ | text _ | null | hostExpr _ => true
  | _ => false

/-- A type, given by its name or by a tree. -/
def isType : Code → Bool
  | typeRef .. | hostType _ => true
  | _ => false

end Code

end Weaver
