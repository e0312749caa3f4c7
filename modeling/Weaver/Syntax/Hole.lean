import Weaver.Syntax.Print
/-!
Trees that cannot be printed.

Some places must not be empty: a branch or loop body, a block, a declared variable, the modifiers
of a class. Parsed and generated trees never leave them empty; a replacement that removes nodes can.
The first empty place in the order of printing is what printing stops at.
-/
set_option autoImplicit false

namespace Weaver.Syntax

/-- An empty place that must not be empty. -/
inductive Hole where
  /-- A statement is missing. -/
  | statement
  /-- A part is missing without which its node makes no sense. -/
  | part
deriving Repr, DecidableEq

namespace Tree

/-- The first hole of a sequence of parts. -/
def firstHole (holes : List (Option Hole)) : Option Hole :=
  holes.findSome? fun h => h

/-- The hole of a part that must be there. -/
def needed (t : Tree) (kind : Hole) (inside : Option Hole) : Option Hole :=
  if t.isMissing then some kind else inside

/-- A variable without modifiers cannot be told from an enumeration constant. -/
def untellable : Tree → Bool
  | varDecl _ _ missing _ _ => true
  | _ => false

/-- The holes of the members of a class in the order in which they are printed. -/
def memberHoles (isEnum : Bool) (defs : List Tree) (holes : List (Option Hole)) :
    Option Hole :=
  if isEnum then
    if defs.any untellable then some .part
    else
      let members := defs.zip holes
      firstHole ((members.filter (·.1.isEnumConstant)).map (·.2) ++
        (members.filter (!·.1.isEnumConstant)).map (·.2))
  else firstHole holes

mutual

/-- The first hole met when a node is printed in a role. -/
def hole? (r : Role) : Tree → Option Hole
  | missing => none
  | unit _ _ p is ds => firstHole (hole? .plain p :: holes .plain is ++ holes .plain ds)
  | importDecl _ _ n => hole? .plain n
  | classDecl _ _ ms tps e is ds =>
    let isEnum := ms.flags.meets .enumFlag
    let head := match r with
      | .body => []
      | _ => hole? .plain ms :: needed ms .part none :: holes .plain tps ++
          hole? .plain e :: holes .plain is
    firstHole (head ++ [needed ms .part none, memberHoles isEnum ds (holes (.member isEnum) ds)])
  | methodDecl _ _ ms tps res ps ts b =>
    firstHole (hole? .plain ms :: holes .plain tps ++ hole? .plain res :: holes .plain ps ++
      holes .plain ts ++ [hole? .plain b])
  | varDecl _ _ ms ty i =>
    match r with
    | .member true =>
      if ms.flags.meets .enumFlag then firstHole [hole? .plain ms, hole? .constantValue i]
      else firstHole [hole? .plain ms, hole? .plain ty, hole? .plain i]
    | .laterClause => hole? .plain i
    | _ => firstHole [hole? .plain ms, hole? .plain ty, hole? .plain i]
  | modifiers _ _ as => firstHole (holes .plain as)
  | annoUse _ t as => firstHole (hole? .plain t :: holes .plain as)
  | typeParam _ _ bs => firstHole (holes .plain bs)
  | block _ _ ss => firstHole (holes .plain ss)
  | ifThen _ c y n =>
    firstHole [hole? .plain c, needed y .statement (hole? .plain y), hole? .plain n]
  | whileLoop _ c b => firstHole [hole? .plain c, needed b .statement (hole? .plain b)]
  | doLoop _ b c => firstHole [needed b .statement (hole? .plain b), hole? .plain c]
  | forLoop _ i c s b =>
    firstHole (holes .clause i ++ hole? .plain c :: holes .plain s ++
      [needed b .statement (hole? .plain b)])
  | foreachLoop _ v e b =>
    firstHole [needed v .part (hole? .plain v), hole? .plain e,
      needed b .statement (hole? .plain b)]
  | labeled _ _ b => needed b .statement (hole? .plain b)
  | switchOn _ s cs => firstHole (hole? .plain s :: holes .plain cs)
  | switchCase _ p ss => firstHole (hole? .plain p :: holes .plain ss)
  | synchronizedOn _ e b => firstHole [hole? .plain e, needed b .part (hole? .plain b)]
  | tryCatch _ b cs f =>
    firstHole (needed b .part (hole? .plain b) :: holes .plain cs ++ [hole? .plain f])
  | catchClause _ p b =>
    firstHole [needed p .part (hole? .plain p), needed b .part (hole? .plain b)]
  | throwing _ e | returning _ e | exec _ e | select _ e _ | parens _ e | unary _ _ e
  | arrayType _ e | wildcard _ _ e => hole? .plain e
  | call _ ts c as =>
    match c with
    | select _ q _ => firstHole (hole? .plain q :: holes .plain ts ++ holes .plain as)
    | c => firstHole (hole? .plain c :: holes .plain as)
  | newObject _ o ts t as b =>
    match r with
    | .constantValue => firstHole (holes .plain as ++ [hole? .body b])
    | _ =>
      firstHole (hole? .plain o :: holes .plain ts ++ hole? .plain t :: holes .plain as ++
        [hole? .body b])
  | newArray _ e ds _ es =>
    match e with
    | missing => firstHole (holes .plain es)
    | e => firstHole (hole? .plain e :: holes .plain ds ++ holes .plain es)
  | assign _ a b | assignOp _ _ a b | binary _ _ a b | cast _ a b | instanceOf _ a b
  | indexed _ a b => firstHole [hole? .plain a, hole? .plain b]
  | conditional _ a b c => firstHole [hole? .plain a, hole? .plain b, hole? .plain c]
  | typeApply _ t as => firstHole (hole? .plain t :: holes .plain as)
  | breaking .. | continuing .. | skip _ | ident .. | literal .. | primitive .. => none

/-- The first hole of each node of a list. -/
def holes (r : Role) : List Tree → List (Option Hole)
  | [] => []
  | t :: ts => hole? r t :: holes r ts

end

/-- The text of a tree, or the hole that printing stops at. -/
def printWhole (t : Tree) : Except Hole String :=
  match hole? .plain t with
  | some h => .error h
  | none => .ok t.print

end Tree

end Weaver.Syntax
