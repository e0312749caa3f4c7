import Weaver.Syntax.Tree
/-!
Walking through trees.

`children` lists the parts of a node in the order they are written, `visit` lists the nodes below a
root from the top, and `replaceM` rebuilds a tree from the top. Replacing visits a node, then what
it keeps of its children in the order of `children`.
-/
set_option autoImplicit false

namespace Weaver.Syntax

namespace Tree

/-- The places for parts of a node. -/
def places : Tree → List Tree
  | missing => []
  | unit _ _ p is ds => p :: is ++ ds
  | importDecl _ _ n => [n]
  | classDecl _ _ m tps e is ds => m :: tps ++ e :: is ++ ds
  | methodDecl _ _ m tps r ps ts b => m :: tps ++ r :: ps ++ ts ++ [b]
  | varDecl _ _ m t i => [m, t, i]
  | modifiers _ _ as => as
  | annoUse _ t as => t :: as
  | typeParam _ _ bs => bs
  | block _ _ ss => ss
  | ifThen _ c y n => [c, y, n]
  | whileLoop _ c b => [c, b]
  | doLoop _ b c => [b, c]
  | forLoop _ i c s b => i ++ c :: s ++ [b]
  | foreachLoop _ v e b => [v, e, b]
  | labeled _ _ b => [b]
  | switchOn _ s cs => s :: cs
  | switchCase _ p ss => p :: ss
  | synchronizedOn _ l b => [l, b]
  | tryCatch _ b cs f => b :: cs ++ [f]
  | catchClause _ p b => [p, b]
  | throwing _ e => [e]
  | returning _ e => [e]
  | breaking .. => []
  | continuing .. => []
  | skip _ => []
  | exec _ e => [e]
  | ident .. => []
  | select _ q _ => [q]
  | call _ ts c as => ts ++ c :: as
  | newObject _ o ts t as b => o :: ts ++ t :: as ++ [b]
  | newArray _ e ds _ es => e :: ds ++ es
  | parens _ e => [e]
  | assign _ l r => [l, r]
  | assignOp _ _ l r => [l, r]
  | unary _ _ a => [a]
  | binary _ _ l r => [l, r]
  | conditional _ c y n => [c, y, n]
  | cast _ t e => [t, e]
  | instanceOf _ e t => [e, t]
  | indexed _ a i => [a, i]
  | literal .. => []
  | primitive .. => []
  | arrayType _ e => [e]
  | typeApply _ t as => t :: as
  | wildcard _ _ t => [t]

/-- The parts of a node, empty places left out. -/
def children (t : Tree) : List Tree :=
  t.places.filter (!·.isMissing)

/-- What a visitor decides at a node. -/
inductive Visit where
  /-- The node stays and its children are visited. -/
  | enter
  /-- The node stays as it is. -/
  | leave
  /-- Another tree takes its place and is not visited; `missing` removes it. -/
  | replace (t : Tree)

/-- Carries out the decision of a visitor; `enter` is the node with its children visited. -/
def visited {m : Type → Type} [Monad m] (f : Tree → m Visit) (t : Tree) (enter : m Tree) :
    m Tree := do
  match ← f t with
  | .enter => enter
  | .leave => return t
  | .replace r => return r

mutual

/-- Rebuilds a tree from the top under the decisions of a visitor. Elements of lists that end up
missing are removed from them. -/
def replaceM {m : Type → Type} [Monad m] (f : Tree → m Visit) : Tree → m Tree
  | missing => pure missing
  | t@(unit k file p is ds) => visited f t do
    return unit k file (← replaceM f p) (← replaceAllM f is) (← replaceAllM f ds)
  | t@(importDecl k s n) => visited f t do
    return importDecl k s (← replaceM f n)
  | t@(classDecl k n ms tps e is ds) => visited f t do
    return classDecl k n (← replaceM f ms) (← replaceAllM f tps) (← replaceM f e)
      (← replaceAllM f is) (← replaceAllM f ds)
  | t@(methodDecl k n ms tps rt ps ts b) => visited f t do
    return methodDecl k n (← replaceM f ms) (← replaceAllM f tps) (← replaceM f rt)
      (← replaceAllM f ps) (← replaceAllM f ts) (← replaceM f b)
  | t@(varDecl k n ms ty i) => visited f t do
    return varDecl k n (← replaceM f ms) (← replaceM f ty) (← replaceM f i)
  | t@(modifiers k fs as) => visited f t do
    return modifiers k fs (← replaceAllM f as)
  | t@(annoUse k ty as) => visited f t do
    return annoUse k (← replaceM f ty) (← replaceAllM f as)
  | t@(typeParam k n bs) => visited f t do
    return typeParam k n (← replaceAllM f bs)
  | t@(block k fs ss) => visited f t do
    return block k fs (← replaceAllM f ss)
  | t@(ifThen k c y n) => visited f t do
    return ifThen k (← replaceM f c) (← replaceM f y) (← replaceM f n)
  | t@(whileLoop k c b) => visited f t do
    return whileLoop k (← replaceM f c) (← replaceM f b)
  | t@(doLoop k b c) => visited f t do
    return doLoop k (← replaceM f b) (← replaceM f c)
  | t@(forLoop k i c s b) => visited f t do
    return forLoop k (← replaceAllM f i) (← replaceM f c) (← replaceAllM f s) (← replaceM f b)
  | t@(foreachLoop k v e b) => visited f t do
    return foreachLoop k (← replaceM f v) (← replaceM f e) (← replaceM f b)
  | t@(labeled k l b) => visited f t do
    return labeled k l (← replaceM f b)
  | t@(switchOn k s cs) => visited f t do
    return switchOn k (← replaceM f s) (← replaceAllM f cs)
  | t@(switchCase k p ss) => visited f t do
    return switchCase k (← replaceM f p) (← replaceAllM f ss)
  | t@(synchronizedOn k l b) => visited f t do
    return synchronizedOn k (← replaceM f l) (← replaceM f b)
  | t@(tryCatch k b cs fin) => visited f t do
    return tryCatch k (← replaceM f b) (← replaceAllM f cs) (← replaceM f fin)
  | t@(catchClause k p b) => visited f t do
    return catchClause k (← replaceM f p) (← replaceM f b)
  | t@(throwing k e) => visited f t do
    return throwing k (← replaceM f e)
  | t@(returning k e) => visited f t do
    return returning k (← replaceM f e)
  | t@(exec k e) => visited f t do
    return exec k (← replaceM f e)
  | t@(select k q n) => visited f t do
    return select k (← replaceM f q) n
  | t@(call k ts c as) => visited f t do
    return call k (← replaceAllM f ts) (← replaceM f c) (← replaceAllM f as)
  | t@(newObject k o ts ty as b) => visited f t do
    return newObject k (← replaceM f o) (← replaceAllM f ts) (← replaceM f ty) (← replaceAllM f as)
      (← replaceM f b)
  | t@(newArray k e ds h es) => visited f t do
    let e ← replaceM f e
    let ds ← replaceAllM f ds
    if h then return newArray k e ds h (← replaceAllM f es) else return newArray k e ds h es
  | t@(parens k e) => visited f t do
    return parens k (← replaceM f e)
  | t@(assign k a b) => visited f t do
    return assign k (← replaceM f a) (← replaceM f b)
  | t@(assignOp k op a b) => visited f t do
    return assignOp k op (← replaceM f a) (← replaceM f b)
  | t@(unary k op a) => visited f t do
    return unary k op (← replaceM f a)
  | t@(binary k op a b) => visited f t do
    return binary k op (← replaceM f a) (← replaceM f b)
  | t@(conditional k c y n) => visited f t do
    return conditional k (← replaceM f c) (← replaceM f y) (← replaceM f n)
  | t@(cast k ty e) => visited f t do
    return cast k (← replaceM f ty) (← replaceM f e)
  | t@(instanceOf k e ty) => visited f t do
    return instanceOf k (← replaceM f e) (← replaceM f ty)
  | t@(indexed k a i) => visited f t do
    return indexed k (← replaceM f a) (← replaceM f i)
  | t@(arrayType k e) => visited f t do
    return arrayType k (← replaceM f e)
  | t@(typeApply k ty as) => visited f t do
    return typeApply k (← replaceM f ty) (← replaceAllM f as)
  | t@(wildcard k b ty) => visited f t do
    return wildcard k b (← replaceM f ty)
  | t@(breaking ..) | t@(continuing ..) | t@(skip _) | t@(ident ..) | t@(literal ..)
  | t@(primitive ..) => visited f t (return t)

/-- Rebuilds the elements of a list. -/
def replaceAllM {m : Type → Type} [Monad m] (f : Tree → m Visit) : List Tree → m (List Tree)
  | [] => pure []
  | t :: ts => do
    let r ← replaceM f t
    let rs ← replaceAllM f ts
    return if r.isMissing then rs else r :: rs

end

/-- Rebuilds a tree under the decisions of a visitor without state. -/
def replace (f : Tree → Visit) (t : Tree) : Tree :=
  Id.run (replaceM (fun t => pure (f t)) t)

/-- A tree built anew from the top, every node of it with its mark. -/
def copy (t : Tree) : Tree :=
  replace (fun _ => .enter) t

/-- A node followed by what is below it, which is left out where the condition holds. -/
def andBelow (stop : Tree → Bool) (t : Tree) (below : List Tree) : List Tree :=
  t :: if stop t then [] else below

mutual

/-- The nodes of a tree from the top, each before its children; the children of a node that
satisfies the condition are not visited. -/
def visit (stop : Tree → Bool) : Tree → List Tree
  | missing => []
  | t@(unit _ _ p is ds) => andBelow stop t (visit stop p ++ visitAll stop is ++ visitAll stop ds)
  | t@(classDecl _ _ ms tps e is ds) =>
    andBelow stop t (visit stop ms ++ visitAll stop tps ++ visit stop e ++ visitAll stop is ++
      visitAll stop ds)
  | t@(methodDecl _ _ ms tps r ps ts b) =>
    andBelow stop t (visit stop ms ++ visitAll stop tps ++ visit stop r ++ visitAll stop ps ++
      visitAll stop ts ++ visit stop b)
  | t@(forLoop _ i c s b) =>
    andBelow stop t (visitAll stop i ++ visit stop c ++ visitAll stop s ++ visit stop b)
  | t@(tryCatch _ b cs f) => andBelow stop t (visit stop b ++ visitAll stop cs ++ visit stop f)
  | t@(call _ ts c as) => andBelow stop t (visitAll stop ts ++ visit stop c ++ visitAll stop as)
  | t@(newObject _ o ts ty as b) =>
    andBelow stop t (visit stop o ++ visitAll stop ts ++ visit stop ty ++ visitAll stop as ++
      visit stop b)
  | t@(newArray _ e ds _ es) =>
    andBelow stop t (visit stop e ++ visitAll stop ds ++ visitAll stop es)
  | t@(varDecl _ _ a b c) | t@(ifThen _ a b c) | t@(foreachLoop _ a b c)
  | t@(conditional _ a b c) => andBelow stop t (visit stop a ++ visit stop b ++ visit stop c)
  | t@(whileLoop _ a b) | t@(doLoop _ a b) | t@(synchronizedOn _ a b) | t@(catchClause _ a b)
  | t@(assign _ a b) | t@(assignOp _ _ a b) | t@(binary _ _ a b) | t@(cast _ a b)
  | t@(instanceOf _ a b) | t@(indexed _ a b) => andBelow stop t (visit stop a ++ visit stop b)
  | t@(importDecl _ _ a) | t@(labeled _ _ a) | t@(throwing _ a) | t@(returning _ a)
  | t@(exec _ a) | t@(select _ a _) | t@(parens _ a) | t@(unary _ _ a) | t@(arrayType _ a)
  | t@(wildcard _ _ a) => andBelow stop t (visit stop a)
  | t@(annoUse _ a as) | t@(switchOn _ a as) | t@(switchCase _ a as)
  | t@(typeApply _ a as) => andBelow stop t (visit stop a ++ visitAll stop as)
  | t@(modifiers _ _ as) | t@(typeParam _ _ as) | t@(block _ _ as) =>
    andBelow stop t (visitAll stop as)
  | t@(breaking ..) | t@(continuing ..) | t@(skip _) | t@(ident ..) | t@(literal ..)
  | t@(primitive ..) => [t]

/-- The nodes of the trees of a list. -/
def visitAll (stop : Tree → Bool) : List Tree → List Tree
  | [] => []
  | t :: ts => visit stop t ++ visitAll stop ts

end

/-- All nodes of a tree. -/
def nodes (t : Tree) : List Tree :=
  visit (fun _ => false) t

end Tree

end Weaver.Syntax
