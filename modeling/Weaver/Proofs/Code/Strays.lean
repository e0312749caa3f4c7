import Weaver.Main
/-!
Names that code takes from its surroundings.

A simple name that is used outside of the scope of every declaration of it in a piece of code is a
name of the surroundings: a parameter or a field. `strays` counts these uses. The scope of a local
variable is the rest of its block with its own value, that of a variable of a loop or of a `catch`
clause is the loop or the clause. Bodies of nested classes are left out, and in types there are no
variables.
-/
set_option autoImplicit false

namespace Weaver

namespace Syntax.Tree

/-- The tree declares a variable of the name. -/
def declares (x : String) : Tree → Bool
  | varDecl _ n _ _ _ => n == x
  | _ => false

/-- The case of a `switch` statement declares a variable of the name, for itself and for the cases
after it. -/
def opens (x : String) : Tree → Bool
  | switchCase _ _ ss => ss.any (declares x)
  | _ => false

/-- The tree is `super` of what stands before it. -/
def isSuper : Tree → Bool
  | select _ _ n => n == "super"
  | _ => false

/-- What is selected from is a type, or `super` of a type. -/
def selectsFromType (q : Tree) (name : String) : Bool :=
  name == "class" || name == "this" || isSuper q

mutual

/-- How often a tree uses a name that it does not declare. -/
@[simp]
def strays (x : String) : Tree → Nat
  | ident _ n => if n == x then 1 else 0
  | select _ q n => if selectsFromType q n then 0 else strays x q
  | call _ _ c as => (if Relocation.isIdent c then 0 else strays x c) + straysAll x as
  | newObject _ o _ _ as _ => strays x o + straysAll x as
  | newArray _ _ ds _ es => straysAll x ds + straysAll x es
  | varDecl _ n ms _ i => strays x ms + if n == x then 0 else strays x i
  | modifiers _ _ as => straysAll x as
  | annoUse _ _ as => straysNamed x as
  | block _ _ ss => straysAll x ss
  | forLoop _ i c u b =>
    straysAll x i + if i.any (declares x) then 0 else strays x c + straysAll x u + strays x b
  | foreachLoop _ v e b => strays x v + strays x e + if declares x v then 0 else strays x b
  | switchOn _ e cs => strays x e + straysCases x cs
  | switchCase _ p ss => strays x p + straysAll x ss
  | tryCatch _ b cs f => strays x b + straysAll x cs + strays x f
  | catchClause _ v b => strays x v + if declares x v then 0 else strays x b
  | ifThen _ a b c | conditional _ a b c => strays x a + strays x b + strays x c
  | whileLoop _ a b | doLoop _ a b | synchronizedOn _ a b | assign _ a b | assignOp _ _ a b
  | binary _ _ a b | indexed _ a b => strays x a + strays x b
  | labeled _ _ e | throwing _ e | returning _ e | exec _ e | parens _ e | unary _ _ e | cast _ _ e
  | instanceOf _ e _ => strays x e
  | missing | unit .. | importDecl .. | classDecl .. | methodDecl .. | typeParam .. | breaking ..
  | continuing .. | skip _ | literal .. | primitive .. | arrayType .. | typeApply ..
  | wildcard .. => 0

/-- The same of trees one after the other. -/
@[simp]
def straysAll (x : String) : List Tree → Nat
  | [] => 0
  | t :: ts => strays x t + if declares x t then 0 else straysAll x ts

/-- The same of the cases of a `switch` statement. -/
@[simp]
def straysCases (x : String) : List Tree → Nat
  | [] => 0
  | t :: ts => strays x t + if opens x t then 0 else straysCases x ts

/-- The same of the arguments of an annotation, which may have names of their own. -/
@[simp]
def straysNamed (x : String) : List Tree → Nat
  | [] => 0
  | assign _ (ident ..) e :: ts => strays x e + straysNamed x ts
  | t :: ts => strays x t + straysNamed x ts

end

end Syntax.Tree

namespace Code

/-- The code declares a variable of the name. -/
def declares (x : String) : Code → Bool
  | localDecl _ n _ _ _ => n == x
  | _ => false

/-- The variable of a `catch` clause has the name. -/
def takes (x : String) : Code → Bool
  | argument _ n _ _ => n == x
  | _ => false

/-- The case of a `switch` statement declares a variable of the name, for itself and for the cases
after it. -/
def opens (x : String) : Code → Bool
  | switchCase _ ss => ss.any (declares x)
  | _ => false

/-- A dotted name uses the name that it begins with. -/
def begins (x name : String) : Nat :=
  if (Text.splitFirst name).1 == x then 1 else 0

mutual

/-- How often a piece of code uses a name that it does not declare. -/
@[simp]
def strays (x : String) : Code → Nat
  | named n => begins x n
  | hostExpr t | hostStmt t => t.strays x
  | call r _ _ as => strays x r + straysAll x as
  | create _ as _ => straysAll x as
  | newArray _ ds _ is => straysAll x ds + straysAll x is
  | localDecl _ n _ as i => straysAll x as + if n == x then 0 else strays x i
  | argument _ _ _ as => straysAll x as
  | annoUse _ _ vs => straysAll x vs
  | block ss => straysAll x ss
  | forLoop i c u b =>
    straysAll x i + if i.any (declares x) then 0 else strays x c + straysAll x u + strays x b
  | foreach v e b => strays x v + strays x e + if declares x v then 0 else strays x b
  | switchOn e cs => strays x e + straysCases x cs
  | switchCase p ss => strays x p + straysAll x ss
  | tryCatch b cs f => strays x b + straysAll x cs + strays x f
  | catchClause v b => strays x v + if takes x v then 0 else strays x b
  | ifThen a b c => strays x a + strays x b + strays x c
  | binary a _ b | equal a b _ | assign a b | indexed a b | whileLoop a b | doLoop a b
  | synchronizedOn a b => strays x a + strays x b
  | field e _ | cast _ e | instanceOf e _ | unary _ e | throwing e | returning e | labeled _ e =>
    strays x e
  | missing | typeRef .. | hostType _ | wildcard .. | this _ | bool _ | char _ | number _ | text _
  | null | returnDefault | breaking _ | continuing _ | typeParam .. | fieldDecl .. | methodDecl ..
  | constructorDecl .. | enumConstant .. | classDecl .. | hostMethod _ => 0

/-- The same of pieces of code one after the other. -/
@[simp]
def straysAll (x : String) : List Code → Nat
  | [] => 0
  | c :: cs => strays x c + if declares x c then 0 else straysAll x cs

/-- The same of the cases of a `switch` statement. -/
@[simp]
def straysCases (x : String) : List Code → Nat
  | [] => 0
  | c :: cs => strays x c + if opens x c then 0 else straysCases x cs

end

variable {x : String} {cs ds : List Code}

/-- Where nothing is declared, uses add up. -/
theorem straysAll_append (settled : ∀ c ∈ cs, c.declares x = false) :
    straysAll x (cs ++ ds) = straysAll x cs + straysAll x ds := by
  induction cs with
  | nil => exact (Nat.zero_add _).symm
  | cons c cs ih =>
    obtain ⟨here, others⟩ := List.forall_mem_cons.mp settled
    rw [List.cons_append, straysAll, straysAll, here, ih others, Nat.add_assoc]
    rfl

/-- A name with another beginning is not used. -/
theorem begins_dollar (plain : x.startsWith "$" = false) (n : String) : begins x ("$" ++ n) = 0 := by
  refine if_neg fun same => ?_
  have chars : ("$" ++ n).toList = '$' :: n.toList := String.toList_append
  have first : ∃ cs, (Text.splitFirst ("$" ++ n)).1 = String.ofList ('$' :: cs) := by
    rw [Text.splitFirst, Text.segments, chars, List.splitOn,
      List.splitOnP_cons_eq_if_modifyHead, if_neg (by decide)]
    cases h : n.toList.splitOnP (· == '.') with
    | nil => exact absurd h (List.splitOnP_ne_nil _ _)
    | cons cs css => exact ⟨cs, rfl⟩
  obtain ⟨cs, first⟩ := first
  rw [first, beq_iff_eq] at same
  rw [← same, ← Bool.not_eq_true, String.startsWith_string_iff,
    @String.toList_ofList ('$' :: cs)] at plain
  exact plain (List.prefix_append ['$'] cs)

end Code

end Weaver
