import Weaver.Proofs.Code.Attribution
/-!
Returns of default values.

A return of the default value says nothing of the type it belongs to: that is told by the method
around it. `explicit` writes such returns out. It goes down through the code with the list of all
declarations around a piece, the innermost first, and replaces each return of a default value by the
return that the first method or constructor in that list asks for, or the host if there is none. The
main statement is that code is lowered as if all its returns had been written out, at whatever depth
methods and classes are nested, and that lowering fails for want of a method exactly where neither a
method nor a host is around.

Lowering hands the result type of a method down and a maker keeps the types on a stack; `explicit`
does neither, but looks at each return for the method it belongs to. One induction compares the two:
`Resolved` says of the lowered code and of the lowered explicit code that they are the same tree, or
that the first one fails because a return has no method.
-/
set_option autoImplicit false

namespace Weaver

open Weaver.Source (Position)
open Weaver.Syntax (Tree Mark Flags TypeTag initName)

namespace Code

/-! ## What a method returns -/

/-- What a method returns, as far as its default value depends on it. -/
inductive ResultType where
  /-- Nothing, as constructors and `void` methods do. -/
  | nothing
  /-- A value of a primitive type. -/
  | primitive (tag : TypeTag)
  /-- An object. -/
  | object
deriving DecidableEq

/-- The statement that returns the default value. -/
def ResultType.code : ResultType → Code
  | nothing => returning missing
  | primitive .boolean => returning (bool false)
  | primitive .char => returning (char 0)
  | primitive .byte | primitive .short | primitive .int => returning (number (.literal (.int 0)))
  | primitive .long => returning (number (.literal (.long 0)))
  | primitive .float => returning (number (.literal (.float .zero)))
  | primitive .double => returning (number (.literal (.double .zero)))
  | primitive _ | object => returning null

/-- What a method with a primitive result type of a class returns. -/
def ResultType.ofTag : TypeTag → ResultType
  | .void => nothing
  | tag => primitive tag

/-- What a method returns whose result type is a tree. -/
def ResultType.ofTree : Tree → ResultType
  | .primitive _ tag => ofTag tag
  | _ => object

/-- What a method returns whose result type is a piece of code, named or wrapped. A type with arguments
or brackets is not primitive. -/
def ResultType.ofCode : Code → ResultType
  | typeRef name [] dims => if dims ≤ 0 then (TypeTag.ofKeyword? name).elim object ofTag else object
  | hostType t | hostExpr t | hostStmt t | hostMethod t => ofTree t
  | _ => object

/-- What a host returns, if it is a method. A constructor returns nothing. -/
def ResultType.ofHost : Tree → Option ResultType
  | .methodDecl _ name _ _ result _ _ _ =>
    some (if name == initName || result.isMissing then nothing else ofTree result)
  | _ => none

/-- What a declaration returns, if it is a method or a constructor. -/
def ResultType.ofDeclaration : Code → Option ResultType
  | methodDecl _ _ _ result _ _ _ _ _ _ => some (ofCode result)
  | constructorDecl .. => some nothing
  | _ => none

/-- What the innermost method or constructor returns among declarations that stand around each other,
the innermost first; if there is none, that is for the host to say. -/
def innermost (host : Option ResultType) (around : List Code) : Option ResultType :=
  (around.findSome? ResultType.ofDeclaration).or host

/-! ## Explicit returns -/

mutual

/-- The code with its returns of default values written out. Where neither a method nor a host is
around, a return stays as it is. What stands before the parameters of a method is not inside of it. -/
def explicit (host : Option ResultType) (around : List Code) : Code → Code
  | returnDefault => ((innermost host around).map ResultType.code).getD returnDefault
  | c@(methodDecl ms as tps r n ps ts ss noBody implementing) =>
    methodDecl ms (explicitAll host around as) (explicitAll host around tps)
      (explicit host around r) n (explicitAll host (c :: around) ps)
      (explicitAll host (c :: around) ts) (explicitAll host (c :: around) ss) noBody implementing
  | c@(constructorDecl ms as tps n ps ts ss implicitSuper) =>
    constructorDecl ms (explicitAll host (c :: around) as) (explicitAll host (c :: around) tps) n
      (explicitAll host (c :: around) ps) (explicitAll host (c :: around) ts)
      (explicitAll host (c :: around) ss) implicitSuper
  | c@(classDecl k ms as n tps e is cs fs mths ts) =>
    classDecl k ms (explicitAll host around as) n (explicitAll host (c :: around) tps)
      (explicit host (c :: around) e) (explicitAll host (c :: around) is)
      (explicitAll host (c :: around) cs) (explicitAll host (c :: around) fs)
      (explicitAll host (c :: around) mths) (explicitAll host (c :: around) ts)
  | typeRef n as d => typeRef n (explicitAll host around as) d
  | wildcard b t => wildcard b (explicit host around t)
  | field r n => field (explicit host around r) n
  | call r n ts as =>
    call (explicit host around r) n (explicitAll host around ts) (explicitAll host around as)
  | create t as b =>
    create (explicit host around t) (explicitAll host around as) (explicit host around b)
  | newArray t ds hasInit is =>
    newArray (explicit host around t) (explicitAll host around ds) hasInit
      (explicitAll host around is)
  | cast t e => cast (explicit host around t) (explicit host around e)
  | instanceOf e t => instanceOf (explicit host around e) (explicit host around t)
  | binary l op r => binary (explicit host around l) op (explicit host around r)
  | unary op e => unary op (explicit host around e)
  | equal l r negated => equal (explicit host around l) (explicit host around r) negated
  | assign l r => assign (explicit host around l) (explicit host around r)
  | indexed a i => indexed (explicit host around a) (explicit host around i)
  | this t => this (explicit host around t)
  | block ss => block (explicitAll host around ss)
  | ifThen c y n =>
    ifThen (explicit host around c) (explicit host around y) (explicit host around n)
  | whileLoop c b => whileLoop (explicit host around c) (explicit host around b)
  | doLoop b c => doLoop (explicit host around b) (explicit host around c)
  | forLoop i c u b =>
    forLoop (explicitAll host around i) (explicit host around c) (explicitAll host around u)
      (explicit host around b)
  | foreach v e b =>
    foreach (explicit host around v) (explicit host around e) (explicit host around b)
  | switchOn e cs => switchOn (explicit host around e) (explicitAll host around cs)
  | switchCase e ss => switchCase (explicit host around e) (explicitAll host around ss)
  | tryCatch b cs f =>
    tryCatch (explicit host around b) (explicitAll host around cs) (explicit host around f)
  | catchClause a b => catchClause (explicit host around a) (explicit host around b)
  | throwing e => throwing (explicit host around e)
  | returning e => returning (explicit host around e)
  | synchronizedOn e b => synchronizedOn (explicit host around e) (explicit host around b)
  | labeled l b => labeled l (explicit host around b)
  | localDecl t n ms as i =>
    localDecl (explicit host around t) n ms (explicitAll host around as) (explicit host around i)
  | annoUse t ns vs => annoUse (explicit host around t) ns (explicitAll host around vs)
  | argument t n ms as => argument (explicit host around t) n ms (explicitAll host around as)
  | typeParam n bs => typeParam n (explicitAll host around bs)
  | fieldDecl t n ms as i =>
    fieldDecl (explicit host around t) n ms (explicitAll host around as) (explicit host around i)
  | enumConstant n ps as =>
    enumConstant n (explicitAll host around ps) (explicitAll host around as)
  | c@missing | c@(hostType _) | c@(named _) | c@(bool _) | c@(char _) | c@(number _) | c@(text _)
  | c@null | c@(hostExpr _) | c@(breaking _) | c@(continuing _) | c@(hostStmt _)
  | c@(hostMethod _) => c

/-- The same of a list. All pieces of it have the same declarations around them. -/
def explicitAll (host : Option ResultType) (around : List Code) : List Code → List Code
  | [] => []
  | c :: cs => explicit host around c :: explicitAll host around cs

end

mutual

/-- The code returns a default value outside of all methods and constructors in it. Parts that are
never looked at do not count: the bound of a wildcard that has none and the elements of an array
without an initializer. -/
def exposed : Code → Bool
  | returnDefault => true
  | methodDecl _ as tps r _ _ _ _ _ _ => exposedAll as || (exposedAll tps || exposed r)
  | classDecl _ _ as _ tps e is cs fs mths ts =>
    exposedAll as || (exposedAll tps || (exposed e || (exposedAll cs || (exposedAll fs ||
      (exposedAll mths || (exposedAll ts || exposedAll is))))))
  | typeRef _ cs _ | block cs | typeParam _ cs => exposedAll cs
  | wildcard b t =>
    match b with
    | .unbounded => false
    | _ => exposed t
  | call r _ ts as => exposed r || (exposedAll ts || exposedAll as)
  | create t as b => exposed b || (exposed t || exposedAll as)
  | newArray t ds hasInit is => exposed t || ((hasInit && exposedAll is) || exposedAll ds)
  | ifThen c y n => exposed n || (exposed c || exposed y)
  | foreach a b c => exposed a || (exposed b || exposed c)
  | forLoop i c u b => exposed c || (exposedAll u || (exposedAll i || exposed b))
  | tryCatch b cs f => exposedAll cs || (exposed f || exposed b)
  | localDecl t _ _ as i | fieldDecl t _ _ as i => exposed i || (exposedAll as || exposed t)
  | argument t _ _ as | annoUse t _ as | switchOn t as => exposedAll as || exposed t
  | switchCase c ss => exposed c || exposedAll ss
  | enumConstant _ ps as => exposedAll as || exposedAll ps
  | cast a b | instanceOf a b | binary a _ b | equal a b _ | assign a b | indexed a b
  | whileLoop a b | doLoop a b | catchClause a b | synchronizedOn a b => exposed a || exposed b
  | field e _ | unary _ e | this e | throwing e | returning e | labeled _ e => exposed e
  | missing | hostType _ | named _ | bool _ | char _ | number _ | text _ | null | hostExpr _
  | breaking _ | continuing _ | hostStmt _ | hostMethod _ | constructorDecl .. => false

/-- The same of a list. -/
def exposedAll : List Code → Bool
  | [] => false
  | c :: cs => exposed c || exposedAll cs

end

/-- Lowering fails because a default value is returned outside of a method. -/
def outside : Abort := .promise "javac: ReturnDefault outside of a method"

/-! ## Result types -/

section Types

variable {s : Scope} {p : Place} {r : Option Tree}

/-- The return that is written out is what the default value of a type is lowered to. -/
theorem lower_code (s : Scope) (p : Place) (t : Tree) :
    (ResultType.ofTree t).code.lower s p = defaultReturn s.mark (some t) := by
  cases t with
  | primitive _ tag => cases tag <;> rfl
  | _ => rfl

theorem ofTree_ofDotted (k : Mark) (n : String) : ResultType.ofTree (Tree.ofDotted k n) = .object := by
  have chain : ∀ (ns : List String) (e : Tree), ResultType.ofTree e = .object →
      ResultType.ofTree (ns.foldl (fun e n => .select k e n) e) = .object := by
    intro ns
    induction ns with
    | nil => exact fun _ h => h
    | cons n ns ih => exact fun e _ => ih _ rfl
  unfold Tree.ofDotted
  split
  · rfl
  · exact chain _ _ rfl

theorem ofTree_arrayOf (k : Mark) (n : Nat) (t : Tree) :
    ResultType.ofTree (arrayOf k (n + 1) t) = .object := by
  induction n generalizing t with
  | zero => rfl
  | succ n ih => exact ih (.arrayType k t)

/-- What is made of a part is not a primitive type. -/
theorem object_of_bind {α : Type} {x : Except Abort α} {f : α → Except Abort Tree}
    (more : ∀ a, Gives (f a) (ResultType.ofTree · = .object)) :
    Gives (x >>= f) (ResultType.ofTree · = .object) := by
  intro t lowered
  obtain ⟨a, -, rest⟩ := ok_of_bind lowered
  exact more a t rest

theorem object_of_lowerThen {c : Code} {rest : Tree → Except Abort Tree}
    (more : ∀ t, Gives (rest t) (ResultType.ofTree · = .object)) :
    Gives (lowerThen s p rest c) (ResultType.ofTree · = .object) := by
  unfold lowerThen
  split
  · exact more .missing
  · exact object_of_bind more

/-- A named type returns what its tree does: brackets and arguments make it an object. -/
theorem ofTree_typeRef (n : String) (as : List Code) (d : Int) :
    Gives (lower s p (typeRef n as d)) (ResultType.ofTree · = ResultType.ofCode (typeRef n as d)) := by
  intro t lowered
  rw [lower_typeRef] at lowered
  obtain ⟨e, head, lowered⟩ := ok_of_bind lowered
  obtain ⟨us, args, lowered⟩ := ok_of_bind lowered
  obtain rfl := Except.ok.inj lowered
  have plain : ResultType.ofTree e = (TypeTag.ofKeyword? n).elim .object ResultType.ofTag := by
    cases tag : TypeTag.ofKeyword? n with
    | some tag' =>
      rw [tag] at head
      obtain rfl := Except.ok.inj head
      rfl
    | none =>
      rw [tag] at head
      dsimp only [dotted] at head
      split at head
      · cases head
      · obtain rfl := Except.ok.inj head
        exact ofTree_ofDotted _ _
  by_cases flat : d ≤ 0
  · have none_ : d.toNat = 0 := by omega
    rw [none_]
    cases as with
    | nil =>
      obtain rfl : [] = us := Except.ok.inj args
      rw [ResultType.ofCode, if_pos flat]
      exact plain
    | cons a as =>
      -- with arguments the type is an application, whatever it is applied to
      obtain ⟨u, -, args⟩ := ok_of_bind args
      obtain ⟨us', -, args⟩ := ok_of_bind args
      obtain rfl := Except.ok.inj args
      rfl
  · obtain ⟨k, some_⟩ : ∃ k, d.toNat = k + 1 := ⟨d.toNat - 1, by omega⟩
    rw [some_, ofTree_arrayOf]
    cases as with
    | nil => rw [ResultType.ofCode, if_neg flat]
    | cons => rfl

/-- A result type is lowered to a tree that tells what the method returns. Only types can be
primitive. -/
theorem ofTree_lower (c : Code) :
    Gives (lower s .part c) (ResultType.ofTree · = ResultType.ofCode c) := by
  cases c with
  | missing => exact .throw _
  | typeRef n as d => exact ofTree_typeRef n as d
  | hostType | hostStmt | hostMethod => exact .pure rfl
  | hostExpr t =>
    rw [lower_hostExpr_at]
    split <;> exact .pure rfl
  | bool | char | text | null | breaking | continuing => exact .pure rfl
  | named n =>
    change Gives (dotted s.mark n) _
    unfold dotted
    split
    · exact .throw _
    · exact .pure (ofTree_ofDotted _ _)
  | number n =>
    cases n with
    | literal l => exact .pure rfl
    | other t => exact .throw _
  | returnDefault =>
    change Gives (defaultReturn s.mark s.result) _
    unfold defaultReturn
    split
    · exact .throw _
    all_goals exact .pure rfl
  | wildcard b t =>
    cases b with
    | unbounded => exact .pure rfl
    | extending | above => exact object_of_bind fun _ => .pure rfl
  | this c =>
    rw [lower_this]
    refine object_of_lowerThen fun t => .pure ?_
    unfold member
    split <;> rfl
  | returning e =>
    rw [lower_returning]
    exact object_of_lowerThen fun _ => .pure rfl
  | binary a op b =>
    rw [lower_binary]
    split
    · exact .throw _
    · exact object_of_bind fun _ => object_of_bind fun _ => .pure rfl
  | unary op e =>
    rw [lower_unary]
    split
    · exact .throw _
    · exact object_of_bind fun _ => .pure rfl
  | field | throwing | labeled | block | typeParam => exact object_of_bind fun _ => .pure rfl
  | cast | instanceOf | equal | assign | indexed | whileLoop | doLoop | catchClause
  | synchronizedOn | switchOn | annoUse | argument =>
    exact object_of_bind fun _ => object_of_bind fun _ => .pure rfl
  | foreach =>
    exact object_of_bind fun _ => object_of_bind fun _ => object_of_bind fun _ => .pure rfl
  | ifThen c y n =>
    rw [lower_ifThen]
    exact object_of_lowerThen fun _ => object_of_bind fun _ => object_of_bind fun _ => .pure rfl
  | switchCase c ss =>
    rw [lower_switchCase]
    exact object_of_lowerThen fun _ => object_of_bind fun _ => .pure rfl
  | tryCatch b cs f =>
    rw [lower_tryCatch]
    exact object_of_bind fun _ => object_of_lowerThen fun _ => object_of_bind fun _ => .pure rfl
  | localDecl t n ms as i | fieldDecl t n ms as i =>
    simp only [lower_fieldDecl, lower_localDecl]
    exact object_of_lowerThen fun _ => object_of_bind fun _ => object_of_bind fun _ => .pure rfl
  | call f n ts as =>
    rw [lower_call]
    exact object_of_lowerThen fun _ => object_of_bind fun _ => object_of_bind fun _ => .pure rfl
  | create t as b =>
    rw [lower_create]
    exact object_of_lowerThen fun _ => object_of_bind fun _ => object_of_bind fun _ => .pure rfl
  | newArray t ds hasInit is =>
    rw [lower_newArray]
    exact object_of_lowerThen fun _ => object_of_bind fun _ => object_of_bind fun _ => .pure rfl
  | forLoop i c u b =>
    rw [lower_forLoop]
    exact object_of_lowerThen fun _ => object_of_bind fun _ => object_of_bind fun _ =>
      object_of_bind fun _ => .pure rfl
  | enumConstant n ps as =>
    rw [lower_enumConstant]
    split
    · exact .throw _
    · exact object_of_bind fun _ => object_of_bind fun _ => .pure rfl
  | methodDecl ms as tps r n ps ts ss noBody implementing =>
    rw [lower_methodDecl]
    exact object_of_bind fun _ => object_of_bind fun _ => object_of_bind fun _ =>
      object_of_bind fun _ => object_of_bind fun _ => object_of_bind fun _ => .pure rfl
  | constructorDecl =>
    exact object_of_bind fun _ => object_of_bind fun _ => object_of_bind fun _ =>
      object_of_bind fun _ => object_of_bind fun _ => .pure rfl
  | classDecl k ms as n tps e is cs fs mths ts =>
    rw [lower_classDecl]
    exact object_of_bind fun _ => object_of_bind fun _ => object_of_lowerThen fun _ =>
      object_of_bind fun _ => object_of_bind fun _ => object_of_bind fun _ =>
        object_of_bind fun _ => object_of_bind fun _ => .pure rfl

end Types

/-! ## Comparing -/

/-- What lowering comes to, and what comes of the explicit code. The scope has no result type if it is
`free`, and the code returns a default value outside of methods if it is `bare`. In that case lowering
fails, for this reason if there is no other. Otherwise both are the same tree or fail. -/
structure Resolved {α : Type} (free bare : Bool) (x y : Except Abort α) : Prop where
  outside : x = .error outside → (free && bare) = true
  fails : (free && bare) = true → (∃ e, x = .error e) ∧ ∀ a, y = .ok a → x = .error Code.outside
  same : (free && bare) = false → ∀ a, x = .ok a ↔ y = .ok a

namespace Resolved

variable {α β : Type} {free bare bare' : Bool} {x y : Except Abort α} {f g : α → Except Abort β}

/-- Where no default value is missed, the same step may be taken twice. -/
theorem same_step (kept : (free && bare) = false) (other : x ≠ .error Code.outside) :
    Resolved free bare x x := by
  refine ⟨fun lost => absurd lost other, fun lost => ?_, fun _ _ => Iff.rfl⟩
  rw [kept] at lost
  cases lost

/-- Whatever has nothing to do with default values. -/
theorem refl (other : x ≠ .error Code.outside) : Resolved free false x x :=
  same_step (Bool.and_false free) other

theorem pure (a : α) : Resolved free false (Pure.pure a) (Pure.pure a) := by
  refine refl fun same => ?_
  cases same

/-- A failure for another reason, which may be worded in another way. -/
theorem throw {e e' : Abort} (other : e ≠ Code.outside) :
    Resolved (α := α) free bare (.error e) (.error e') := by
  refine ⟨fun lost => absurd (Except.error.inj lost) other,
    fun _ => ⟨⟨e, rfl⟩, fun a done => ?_⟩, fun _ a => ⟨fun done => ?_, fun done => ?_⟩⟩
  all_goals cases done

/-- One step after the other: what comes first decides. -/
theorem bind (first : Resolved free bare x y)
    (more : ∀ a, x = .ok a → Resolved free bare' (f a) (g a)) :
    Resolved free (bare || bare') (x >>= f) (y >>= g) := by
  cases hx : x with
  | error e =>
    rw [hx] at first
    refine ⟨fun lost => ?_, fun lost => ⟨⟨e, rfl⟩, fun b done => ?_⟩, fun kept b => ?_⟩
    · have here := first.outside (congrArg Except.error (Except.error.inj lost))
      rw [Bool.and_or_distrib_left, here, Bool.true_or]
    · -- the explicit code goes on only if the default value was the reason
      obtain ⟨a, hy, -⟩ := ok_of_bind done
      cases here : free && bare with
      | true => exact congrArg Except.error (Except.error.inj ((first.fails here).2 a hy))
      | false => cases (first.same here a).mpr hy
    · rw [Bool.and_or_distrib_left, Bool.or_eq_false_iff] at kept
      refine ⟨fun done => ?_, fun done => ?_⟩
      · cases done
      · obtain ⟨a, hy, -⟩ := ok_of_bind done
        cases (first.same kept.1 a).mpr hy
  | ok a =>
    have here : (free && bare) = false := by
      rw [← Bool.not_eq_true]
      intro lost
      obtain ⟨e, failed⟩ := (first.fails lost).1
      cases hx.symm.trans failed
    have hy : y = .ok a := (first.same here a).mp hx
    have rest := more a hx
    rw [hy]
    have both : (free && (bare || bare')) = (free && bare') := by
      rw [Bool.and_or_distrib_left, here, Bool.false_or]
    exact ⟨both ▸ rest.outside, both ▸ rest.fails, both ▸ rest.same⟩

/-- A last step. -/
theorem last (first : Resolved free bare x y)
    (more : ∀ a, x = .ok a → Resolved free false (f a) (g a)) :
    Resolved free bare (x >>= f) (y >>= g) := by
  have whole := first.bind more
  rwa [Bool.or_false] at whole

/-- A first step without default values of its own. -/
theorem after (first : Resolved free false x y)
    (more : ∀ a, x = .ok a → Resolved free bare (f a) (g a)) :
    Resolved free bare (x >>= f) (y >>= g) := by
  have whole := first.bind more
  rwa [Bool.false_or] at whole

/-- In a method there is nothing to be missed. -/
theorem inner (h : Resolved false bare x y) : Resolved free false x y := by
  refine ⟨fun lost => ?_, fun lost => ?_, fun _ => h.same (Bool.false_and bare)⟩
  · cases (Bool.false_and bare).symm.trans (h.outside lost)
  · cases (Bool.and_false free).symm.trans lost

end Resolved

/-- The declarations around a piece of code say what the scope says of default values. -/
def Fits (host : Option ResultType) (around : List Code) (s : Scope) : Prop :=
  ∀ t, s.result = some t → innermost host around = some (.ofTree t)

section Explicit

variable {host : Option ResultType} {around : List Code} {s : Scope} {p : Place} {c : Code}

theorem explicit_returnDefault : explicit host around returnDefault =
    ((innermost host around).map ResultType.code).getD returnDefault :=
  rfl

theorem isMissing_explicit : (explicit host around c).isMissing = c.isMissing := by
  cases c with
  | returnDefault =>
    rw [explicit_returnDefault]
    cases innermost host around with
    | none => rfl
    | some r =>
      cases r with
      | primitive tag => cases tag <;> rfl
      | _ => rfl
  | _ => rfl

theorem member_explicit (k : Mark) (t : Tree) (n : String) :
    member k (explicit host around c) t n = member k c t n := by
  rw [member, isMissing_explicit, member]

theorem lowerThen_of_some {rest : Tree → Except Abort Tree} (some_ : c.isMissing = false) :
    lowerThen s p rest c = c.lower s p >>= rest := by
  cases c with
  | missing => cases some_
  | _ => rfl

/-- A part that may be left out. -/
theorem Resolved.ifThere {free bare : Bool} {s' : Scope} {f g : Tree → Except Abort Tree}
    (part : Resolved free (exposed c) (c.lower s p) ((explicit host around c).lower s' p))
    (more : ∀ t, Resolved free bare (f t) (g t)) :
    Resolved free (exposed c || bare) (lowerThen s p f c)
      (lowerThen s' p g (explicit host around c)) := by
  cases gone : c.isMissing with
  | true =>
    cases c with
    | missing => exact more .missing
    | _ => cases gone
  | false =>
    rw [lowerThen_of_some gone, lowerThen_of_some (isMissing_explicit.trans gone)]
    exact part.bind fun t _ => more t

/-- A part that may be left out, as the last one. -/
theorem Resolved.ifThereLast {free : Bool} {s' : Scope} {f g : Tree → Except Abort Tree}
    (part : Resolved free (exposed c) (c.lower s p) ((explicit host around c).lower s' p))
    (more : ∀ t, Resolved free false (f t) (g t)) :
    Resolved free (exposed c) (lowerThen s p f c) (lowerThen s' p g (explicit host around c)) := by
  have whole := part.ifThere more
  rwa [Bool.or_false] at whole

/-- A wording that begins in another way is another reason. -/
theorem ne_outside {a b : String} (h : a.toList.isPrefixOf
    "javac: ReturnDefault outside of a method".toList = false) :
    Abort.promise (a ++ b) ≠ outside := by
  intro same
  have text : a ++ b = "javac: ReturnDefault outside of a method" := Abort.promise.inj same
  rw [← text, String.toList_append, ← Bool.not_eq_true, List.isPrefixOf_iff_prefix] at h
  exact h (List.prefix_append _ _)

theorem dotted_ne_outside (k : Mark) (n : String) : dotted k n ≠ .error outside := by
  unfold dotted
  split
  · exact fun same => absurd (Except.error.inj same) (by decide)
  · intro same
    cases same

/-- Where the result type is known, a default value is returned. -/
theorem defaultReturn_ne_outside (m : Mark) (t : Tree) :
    defaultReturn m (some t) ≠ .error outside := by
  intro same
  unfold defaultReturn at same
  split at same
  · contradiction
  all_goals cases same

/-- The scope inside of a method with a result type. -/
theorem Fits.method {ms : Flags} {as tps ps ts ss : List Code} {r : Code} {n : String}
    {noBody implementing : Bool} {t : Tree} (h : r.lower s .part = .ok t) :
    Fits host (methodDecl ms as tps r n ps ts ss noBody implementing :: around)
      { s with result := some t } := by
  rintro _ ⟨⟩
  have returns : ResultType.ofTree t = ResultType.ofCode r := ofTree_lower r t h
  rw [returns]
  rfl

end Explicit

mutual

/-- **Lowering resolves default values.** The induction goes through the parts in the order in which
they are lowered; methods and constructors give the scope a result type, and from there on the
innermost declaration is that method. -/
theorem resolved_lower {host : Option ResultType} {around : List Code} {s : Scope}
    (fits : Fits host around s) (r : Option Tree) (p : Place) (c : Code) :
    Resolved s.result.isNone (exposed c) (c.lower s p)
      ((explicit host around c).lower { s with result := r } p) := by
  cases c with
  | missing => cases p <;> exact .throw (by decide +kernel)
  | hostType | hostStmt | hostMethod => exact .pure _
  | bool | char | text | null | breaking | continuing => exact .pure _
  | hostExpr t =>
    change Resolved _ _ _ ((hostExpr t).lower _ _)
    rw [lower_hostExpr_at, lower_hostExpr_at]
    exact .pure _
  | named n => exact .refl (dotted_ne_outside s.mark n)
  | number n =>
    cases n with
    | literal l => exact .pure _
    | other t => exact .throw (by decide +kernel)
  | returnDefault =>
    cases known : s.result with
    | none =>
      -- without a method around, this is the return that fails
      change Resolved true true (defaultReturn s.mark s.result) _
      rw [known]
      refine ⟨fun _ => rfl, fun _ => ⟨⟨_, rfl⟩, fun _ _ => rfl⟩, fun kept => ?_⟩
      cases kept
    | some t =>
      change Resolved false true (defaultReturn s.mark s.result) _
      rw [explicit_returnDefault, fits t known, known, Option.map_some, Option.getD_some,
        lower_code { s with result := r } p t]
      exact .same_step rfl (defaultReturn_ne_outside s.mark t)
  | typeRef n as d =>
    change Resolved _ _ _ ((typeRef _ _ _).lower _ _)
    rw [lower_typeRef, lower_typeRef]
    refine Resolved.after (.refl ?_) fun e _ =>
      (resolved_lowerAll fits r .value as).last fun ts _ => .pure _
    split
    · intro same
      cases same
    · exact dotted_ne_outside s.mark n
  | wildcard b t =>
    cases b with
    | unbounded => exact .pure _
    | extending | above => exact (resolved_lower fits r .part t).last fun _ _ => .pure _
  | field a n | throwing a => exact (resolved_lower fits r .value a).last fun _ _ => .pure _
  | labeled l a => exact (resolved_lower fits r .statement a).last fun _ _ => .pure _
  | block cs => exact (resolved_lowerAll fits r .statement cs).last fun _ _ => .pure _
  | typeParam n cs => exact (resolved_lowerAll fits r .part cs).last fun _ _ => .pure _
  | returning e =>
    change Resolved _ _ _ ((returning _).lower _ _)
    rw [lower_returning, lower_returning]
    exact (resolved_lower fits r .value e).ifThereLast fun _ => .pure _
  | this c =>
    change Resolved _ _ _ ((this _).lower _ _)
    rw [lower_this, lower_this]
    simp only [member_explicit]
    exact (resolved_lower fits r .part c).ifThereLast fun _ => .pure _
  | binary a op b =>
    change Resolved _ _ _ ((binary _ _ _).lower _ _)
    rw [lower_binary, lower_binary]
    split
    · exact .throw (ne_outside (by decide +kernel))
    · exact (resolved_lower fits r .value a).bind fun _ _ =>
        (resolved_lower fits r .value b).last fun _ _ => .pure _
  | unary op e =>
    change Resolved _ _ _ ((unary _ _).lower _ _)
    rw [lower_unary, lower_unary]
    split
    · exact .throw (ne_outside (by decide +kernel))
    · exact (resolved_lower fits r .value e).last fun _ _ => .pure _
  | cast a b =>
    exact (resolved_lower fits r .part a).bind fun _ _ =>
      (resolved_lower fits r .value b).last fun _ _ => .pure _
  | instanceOf a b | synchronizedOn a b =>
    exact (resolved_lower fits r .value a).bind fun _ _ =>
      (resolved_lower fits r .part b).last fun _ _ => .pure _
  | equal a b _ | assign a b | indexed a b =>
    exact (resolved_lower fits r .value a).bind fun _ _ =>
      (resolved_lower fits r .value b).last fun _ _ => .pure _
  | whileLoop a b =>
    exact (resolved_lower fits r .value a).bind fun _ _ =>
      (resolved_lower fits r .statement b).last fun _ _ => .pure _
  | doLoop a b =>
    exact (resolved_lower fits r .statement a).bind fun _ _ =>
      (resolved_lower fits r .value b).last fun _ _ => .pure _
  | catchClause a b =>
    exact (resolved_lower fits r .part a).bind fun _ _ =>
      (resolved_lower fits r .part b).last fun _ _ => .pure _
  | foreach a b c =>
    exact (resolved_lower fits r .part a).bind fun _ _ =>
      (resolved_lower fits r .value b).bind fun _ _ =>
        (resolved_lower fits r .statement c).last fun _ _ => .pure _
  | ifThen a b c =>
    change Resolved _ _ _ ((ifThen _ _ _).lower _ _)
    rw [lower_ifThen, lower_ifThen]
    exact (resolved_lower fits r .statement c).ifThere fun _ =>
      (resolved_lower fits r .value a).bind fun _ _ =>
        (resolved_lower fits r .statement b).last fun _ _ => .pure _
  | forLoop i c u b =>
    change Resolved _ _ _ ((forLoop _ _ _ _).lower _ _)
    rw [lower_forLoop, lower_forLoop]
    exact (resolved_lower fits r .value c).ifThere fun _ =>
      (resolved_lowerUpdates fits r u).bind fun _ _ =>
        (resolved_lowerAll fits r .statement i).bind fun _ _ =>
          (resolved_lower fits r .statement b).last fun _ _ => .pure _
  | switchOn e cs =>
    exact (resolved_lowerAll fits r .part cs).bind fun _ _ =>
      (resolved_lower fits r .value e).last fun _ _ => .pure _
  | switchCase e ss =>
    change Resolved _ _ _ ((switchCase _ _).lower _ _)
    rw [lower_switchCase, lower_switchCase]
    exact (resolved_lower fits r .value e).ifThere fun _ =>
      (resolved_lowerAll fits r .statement ss).last fun _ _ => .pure _
  | tryCatch b cs f =>
    change Resolved _ _ _ ((tryCatch _ _ _).lower _ _)
    rw [lower_tryCatch, lower_tryCatch]
    exact (resolved_lowerAll fits r .part cs).bind fun _ _ =>
      (resolved_lower fits r .part f).ifThere fun _ =>
        (resolved_lower fits r .part b).last fun _ _ => .pure _
  | call f n ts as =>
    change Resolved _ _ _ ((call _ _ _ _).lower _ _)
    rw [lower_call, lower_call]
    simp only [member_explicit]
    exact (resolved_lower fits r .value f).ifThere fun _ =>
      (resolved_lowerAll fits r .part ts).bind fun _ _ =>
        (resolved_lowerAll fits r .value as).last fun _ _ => .pure _
  | create t as b =>
    change Resolved _ _ _ ((create _ _ _).lower _ _)
    rw [lower_create, lower_create]
    exact (resolved_lower fits r .part b).ifThere fun _ =>
      (resolved_lower fits r .part t).bind fun _ _ =>
        (resolved_lowerAll fits r .value as).last fun _ _ => .pure _
  | newArray t ds hasInit is =>
    change Resolved _ _ _ ((newArray _ _ _ _).lower _ _)
    rw [lower_newArray, lower_newArray]
    refine (resolved_lower fits r .part t).ifThere fun _ => ?_
    cases hasInit with
    | true =>
      exact (resolved_lowerAll fits r .value is).bind fun _ _ =>
        (resolved_lowerAll fits r .value ds).last fun _ _ => .pure _
    | false =>
      exact Resolved.after (.pure _) fun _ _ =>
        (resolved_lowerAll fits r .value ds).last fun _ _ => .pure _
  | annoUse t ns vs =>
    exact (resolved_lowerAll fits r .value vs).bind fun _ _ =>
      (resolved_lower fits r .part t).last fun _ _ => .pure _
  | argument t n ms as =>
    exact (resolved_lowerAll fits r .part as).bind fun _ _ =>
      (resolved_lower fits r .part t).last fun _ _ => .pure _
  | localDecl t n ms as i =>
    change Resolved _ _ _ ((localDecl _ _ _ _ _).lower _ _)
    rw [lower_localDecl, lower_localDecl]
    exact (resolved_lower fits r .value i).ifThere fun _ =>
      (resolved_lowerAll fits r .part as).bind fun _ _ =>
        (resolved_lower fits r .part t).last fun _ _ => .pure _
  | fieldDecl t n ms as i =>
    change Resolved _ _ _ ((fieldDecl _ _ _ _ _).lower _ _)
    rw [lower_fieldDecl, lower_fieldDecl, lower_localDecl, lower_localDecl]
    exact (resolved_lower fits r .value i).ifThere fun _ =>
      (resolved_lowerAll fits r .part as).bind fun _ _ =>
        (resolved_lower fits r .part t).last fun _ _ => .pure _
  | enumConstant n ps as =>
    change Resolved _ _ _ ((enumConstant _ _ _).lower _ _)
    rw [lower_enumConstant, lower_enumConstant]
    dsimp only
    split
    · exact .throw (by decide +kernel)
    · exact (resolved_lowerAll fits r .part as).bind fun _ _ =>
        (resolved_lowerAll fits r .value ps).last fun _ _ => .pure _
  | methodDecl ms as tps res n ps ts ss noBody implementing =>
    change Resolved _ _ _ ((methodDecl _ _ _ _ _ _ _ _ _ _).lower _ _)
    rw [lower_methodDecl, lower_methodDecl]
    refine (resolved_lowerAll fits r .part as).bind fun _ _ =>
      (resolved_lowerAll fits r .part tps).bind fun _ _ =>
        (resolved_lower fits r .part res).last fun t lowered => ?_
    -- from here on the method is the innermost declaration, and its result type is known
    have within : Fits host (methodDecl ms as tps res n ps ts ss noBody implementing :: around)
        { s with result := some t } := .method lowered
    cases noBody with
    | true =>
      exact Resolved.inner (Resolved.after (.pure _) fun _ _ =>
        (resolved_lowerAll within (some t) .part ps).bind fun _ _ =>
          (resolved_lowerAll within (some t) .part ts).last fun _ _ => .pure _)
    | false =>
      have statements := (resolved_lowerAll within (some t) .statement ss).last fun cs _ =>
        .pure (Tree.block s.mark Flags.empty cs)
      exact Resolved.inner (statements.bind fun _ _ =>
        (resolved_lowerAll within (some t) .part ps).bind fun _ _ =>
          (resolved_lowerAll within (some t) .part ts).last fun _ _ => .pure _)
  | constructorDecl ms as tps n ps ts ss implicitSuper =>
    have within : Fits host (constructorDecl ms as tps n ps ts ss implicitSuper :: around)
        { s with result := some (.primitive s.mark .void) } := by
      rintro _ ⟨⟩
      rfl
    let void : Option Tree := some (.primitive s.mark .void)
    exact Resolved.inner ((resolved_lowerAll within void .statement ss).bind fun _ _ =>
      (resolved_lowerAll within void .part tps).bind fun _ _ =>
        (resolved_lowerAll within void .part as).bind fun _ _ =>
          (resolved_lowerAll within void .part ps).bind fun _ _ =>
            (resolved_lowerAll within void .part ts).last fun _ _ => .pure _)
  | classDecl k ms as n tps e is cs fs mths ts =>
    change Resolved _ _ _ ((classDecl _ _ _ _ _ _ _ _ _ _ _).lower _ _)
    rw [lower_classDecl, lower_classDecl]
    have within : Fits host (classDecl k ms as n tps e is cs fs mths ts :: around)
        { s with owner := some (if k.isAnonymous then "" else n) } := fits
    exact (resolved_lowerAll fits r .part as).bind fun _ _ =>
      (resolved_lowerAll within r .part tps).bind fun _ _ =>
        (resolved_lower within r .part e).ifThere fun _ =>
          (resolved_lowerAll within r .part cs).bind fun _ _ =>
            (resolved_lowerAll within r .part fs).bind fun _ _ =>
              (resolved_lowerAll within r .part mths).bind fun _ _ =>
                (resolved_lowerAll within r .part ts).bind fun _ _ =>
                  (resolved_lowerAll within r .part is).last fun _ _ => .pure _

/-- The same of a list. -/
theorem resolved_lowerAll {host : Option ResultType} {around : List Code} {s : Scope}
    (fits : Fits host around s) (r : Option Tree) (p : Place) (cs : List Code) :
    Resolved s.result.isNone (exposedAll cs) (lowerAll s p cs)
      (lowerAll { s with result := r } p (explicitAll host around cs)) := by
  cases cs with
  | nil => exact .pure _
  | cons c cs =>
    exact (resolved_lower fits r p c).bind fun _ _ =>
      (resolved_lowerAll fits r p cs).last fun _ _ => .pure _

/-- And of the updates of a loop. -/
theorem resolved_lowerUpdates {host : Option ResultType} {around : List Code} {s : Scope}
    (fits : Fits host around s) (r : Option Tree) (cs : List Code) :
    Resolved s.result.isNone (exposedAll cs) (lowerUpdates s cs)
      (lowerUpdates { s with result := r } (explicitAll host around cs)) := by
  cases cs with
  | nil => exact .pure _
  | cons c cs =>
    refine (resolved_lower fits r .statement c).bind fun t _ => ?_
    -- what is no expression statement is refused, and named by what it was
    split
    · exact (resolved_lowerUpdates fits r cs).last fun _ _ => .pure _
    · exact .throw (ne_outside (by decide +kernel))

end

/-! ## Makers -/

/-- A call with its returns of default values written out. -/
def Call.explicit (host : Option ResultType) : Call → Call
  | tree c => tree (Code.explicit host [] c)
  | statements cs => statements (explicitAll host [] cs)
  | constant owner n ps as =>
    constant owner n (explicitAll host [] ps) (explicitAll host [] as)

/-- A call returns a default value outside of all methods and constructors in it. -/
def Call.exposed (call : Call) : Bool := exposedAll call.code

section Calls

variable {host : Option ResultType} {s : Scope} (call : Call)

/-- One call, in a scope that says of default values what its host does. -/
theorem resolved_call (fits : Fits host [] s) :
    Resolved s.result.isNone call.exposed (call.lowered s)
      ((call.explicit host).lowered { s with result := none }) := by
  have one : ∀ c : Code, exposedAll [c] = exposed c := fun c => Bool.or_false _
  cases call with
  | tree c =>
    rw [Call.exposed, Call.code, one]
    exact (resolved_lower fits none .value c).last fun _ _ => .pure _
  | statements cs => exact resolved_lowerAll fits none .statement cs
  | constant owner n ps as =>
    have within : Fits host [] { s with owner := some owner } := fits
    rw [Call.exposed, Call.code, one]
    exact (resolved_lower within none .value (enumConstant n ps as)).last fun _ _ => .pure _

/-- What the host returns is what the scope for its code says. -/
theorem ofTree_resultOf (host : Tree) :
    (resultOf host).map ResultType.ofTree = ResultType.ofHost host := by
  cases host with
  | methodDecl m name ms tps result ps ts b =>
    rw [resultOf, ResultType.ofHost]
    split <;> rfl
  | _ => rfl

theorem fits_host (k : Mark) (className : String) (host : Tree) :
    Fits (ResultType.ofHost host) [] (.of k className host) := by
  intro t known
  change resultOf host = some t at known
  rw [← ofTree_resultOf, known]
  rfl

/-- Whatever is built, all methods and classes that were entered are left again. -/
theorem build_leaves (m : Maker) (p : Place) (c : Code) : ((build p c).run m).2 = m := by
  have suits : Suits (.here m.pos m.results.head? m.owners.head?) m := ⟨rfl, fun _ => rfl, rfl⟩
  have never : Copies False (c.visit fun _ => false) := fun impossible => impossible.elim
  exact (tracks_build False m.pos m.results.head? m.owners.head? p c never m suits).1

/-- Without a host, a default value that is returned outside of methods is missed: nothing comes of
the call, for this reason if any host could help. -/
theorem misses (none_ : s.result = none) (bare : call.exposed = true) :
    (∃ e, call.lowered s = .error e) ∧ ∀ r ts,
      call.lowered { s with result := some r } = .ok ts → call.lowered s = .error outside := by
  have lost : (s.result.isNone && call.exposed) = true := by
    rw [none_, bare]
    rfl
  have fits (h : Option ResultType) : Fits h [] s := by
    intro t known
    rw [none_] at known
    cases known
  refine ⟨((resolved_call call (fits none)).fails lost).1, fun r ts done => ?_⟩
  -- what the explicit code of this host comes to does not depend on the scope
  have helped : Fits (some (.ofTree r)) [] { s with result := some r } := by
    rintro _ ⟨⟩
    rfl
  have explicit_ := ((resolved_call call helped).same rfl ts).mp done
  exact ((resolved_call call (fits (some (.ofTree r)))).fails lost).2 ts explicit_

end Calls

/-- **A default value belongs to the innermost method.** Whatever a maker builds, it stands in the same
methods afterwards, and whatever it was asked for before, it answers a call as lowering does in the
scope of its host. There, a call comes to the same as with all its returns of default values written
out, each for the innermost method or constructor around it and for the host if there is none; for this
no result type has to be known. It fails for want of a method only if a default value is returned
outside of all methods and there is no host. Then it does fail, and for this reason if it would succeed
with any host. -/
theorem lowered_innermost (source : Position) (className : String) (host : Tree)
    (history : List Call) (call : Call) :
    let s := Scope.of ⟨source, true, 0⟩ className host
    let lost := ResultType.ofHost host = none ∧ call.exposed = true
    (∀ m p c, ((build p c).run m).2 = m) ∧
    ((∀ t ∈ call.wrapped, t.Whole) →
      ((Maker.of source className host).after history).reply call = call.lowered s) ∧
    (¬ lost → call.lowered s ≠ .error outside ∧ ∀ ts, call.lowered s = .ok ts ↔
      (call.explicit (ResultType.ofHost host)).lowered { s with result := none } = .ok ts) ∧
    (lost → (∃ e, call.lowered s = .error e) ∧ ∀ r ts,
      call.lowered { s with result := some r } = .ok ts → call.lowered s = .error outside) := by
  intro s lost
  have resolved := resolved_call call (fits_host ⟨source, true, 0⟩ className host)
  have known : (s.result.isNone && call.exposed) = true ↔ lost := by
    change ((resultOf host).isNone && call.exposed) = true ↔ _
    rw [Bool.and_eq_true, Option.isNone_iff_eq_none, ← Option.map_eq_none_iff, ofTree_resultOf]
  refine ⟨build_leaves, fun whole => ?_, fun safe => ⟨fun failed => ?_, ?_⟩, fun missed => ?_⟩
  · have suits := suits_of source className host
    rw [reply_after]
    exact (serves_call True source (resultOf host) _ call (fun _ => whole) _ suits).2 trivial
  · exact safe (known.mp (resolved.outside failed))
  · exact resolved.same (Bool.eq_false_iff.mpr fun both => safe (known.mp both))
  · have none_ : s.result = none :=
      Option.isNone_iff_eq_none.mp (Bool.and_eq_true_iff.mp (known.mpr missed)).1
    exact misses call none_ missed.2

/-- In a method that returns an `int`, a class with methods of its own stands before a return. -/
theorem lowered_innermost_nested :
    let host := Tree.methodDecl default "f" .missing [] (.primitive default .int) [] [] .missing
    let nested (void object boolean int : Code) := Call.statements
      [create (typeRef "A" [] 0) [] (anonymous
        [method .empty (typeRef "void" [] 0) "g" [] [void],
          method .empty (typeRef "A" [] 1) "h" [] [object],
          method .empty (hostType (.primitive default .boolean)) "i" [] [boolean]]), int]
    let call := nested returnDefault returnDefault returnDefault returnDefault
    let plain := nested (returning missing) (returning null) (returning (bool false))
      (returning (number (.literal (.int 0))))
    let maker := Maker.of ⟨3, 7⟩ "Test"
    (∀ t ∈ call.wrapped, t.Whole) ∧ ¬ (ResultType.ofHost host = none ∧ call.exposed = true) ∧
      (∃ ts, ((maker host).after [call]).reply call = .ok ts ∧
        plain.lowered ⟨⟨⟨3, 7⟩, true, 0⟩, none, some "Test"⟩ = .ok ts) ∧
      (ResultType.ofHost .missing = none ∧ call.exposed = true) ∧
      (maker .missing).reply call = .error outside := by
  intro host nested call plain maker
  have whole : ∀ t ∈ call.wrapped, t.Whole := by
    intro t wrapped
    rw [List.mem_singleton.mp wrapped]
    exact trivial
  have safe : ¬ (ResultType.ofHost host = none ∧ call.exposed = true) := fun lost => by cases lost.1
  have lost : ResultType.ofHost .missing = none ∧ call.exposed = true := ⟨rfl, rfl⟩
  obtain ⟨-, replies, same, -⟩ := lowered_innermost ⟨3, 7⟩ "Test" host [call] call
  obtain ⟨-, replies', -, misses_⟩ := lowered_innermost ⟨3, 7⟩ "Test" .missing [] call
  have written : call.explicit (ResultType.ofHost host) = plain := rfl
  obtain ⟨ts, done⟩ : ∃ ts, plain.lowered ⟨⟨⟨3, 7⟩, true, 0⟩, none, some "Test"⟩ = .ok ts := ⟨_, rfl⟩
  refine ⟨whole, safe, ⟨ts, ?_, done⟩, lost, ?_⟩
  · rw [replies whole]
    refine ((same safe).2 ts).mpr ?_
    rw [written]
    exact done
  · refine (replies' whole).trans ?_
    obtain ⟨ts', done'⟩ : ∃ ts', call.lowered ⟨⟨⟨3, 7⟩, true, 0⟩, some (.primitive default .int),
      some "Test"⟩ = .ok ts' := ⟨_, rfl⟩
    exact (misses_ lost).2 _ ts' done'

end Code

end Weaver
