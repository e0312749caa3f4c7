import Weaver.Proofs.Code.Speech
import Weaver.Proofs.SourceUnit.Proper
import Weaver.Handler.Thread
import Weaver.Handler.Function
/-!
Bodies that move into a class in their method.

The tasks of the event thread and actions with privileges are objects of classes without a name,
whose only method has the body. There every `this` of the body is qualified by the name of the
class of the method, and `super` stays as it is. Function objects are made in the same way, but
their bodies stay as they are, so that `this` becomes the function object.
-/
set_option autoImplicit false

namespace Weaver

open Weaver.Syntax (Tree Mark Flags TypeTag)
open Weaver.Syntax.Tree
open Weaver.Relocation (IsClassName)

namespace Syntax.Tree

/-- The statements of the only method of the class without a name that an object is made of. -/
def soleBody? : Tree → Option (List Tree)
  | .newObject _ _ _ _ _ (.classDecl _ "" _ _ _ _ [.methodDecl _ _ _ _ _ _ _ (.block _ _ ss)]) =>
    some ss
  | _ => none

end Syntax.Tree

namespace Code

variable {s : Scope} {t : Tree} {ts : List Tree}

/-! ## Returns without a value -/

/-- Where one computation succeeds, so does the other one, and the results show the same. -/
def Alike {α γ : Type} (f : α → γ) (x y : Except Abort α) : Prop :=
  ∀ a, x = .ok a → ∃ b, y = .ok b ∧ f b = f a

section Alike

variable {α β γ δ : Type} {f : α → γ} {g : β → δ} {x y : Except Abort α}
  {k l : α → Except Abort β}

theorem Alike.refl (x : Except Abort α) : Alike f x x :=
  fun a h => ⟨a, h, rfl⟩

theorem Alike.pure {a b : α} (same : f b = f a) : Alike f (.ok a) (.ok b) :=
  fun _ h => ⟨b, rfl, by rw [← Except.ok.inj h, same]⟩

/-- What is done next may know what was computed. -/
theorem Alike.bind_of (h : Alike f x y)
    (more : ∀ a b, x = .ok a → y = .ok b → f b = f a → Alike g (k a) (l b)) :
    Alike g (x >>= k) (y >>= l) := by
  intro c hc
  obtain ⟨a, ha, hc⟩ := ok_of_bind hc
  obtain ⟨b, hb, same⟩ := h a ha
  rw [hb]
  exact more a b ha hb same c hc

theorem Alike.bind (h : Alike f x y) (more : ∀ a b, f b = f a → Alike g (k a) (l b)) :
    Alike g (x >>= k) (y >>= l) :=
  h.bind_of fun a b _ _ => more a b

/-- A part that is the same. -/
theorem Alike.after (more : ∀ a, Alike g (k a) (l a)) : Alike g (x >>= k) (x >>= l) := by
  intro c hc
  obtain ⟨a, ha, hc⟩ := ok_of_bind hc
  rw [ha]
  exact more a c hc

/-- An optional part. -/
theorem Alike.optional {f : Tree → γ} {g : Tree → δ} {p : Place} {c c' : Code}
    {rest rest' : Tree → Except Abort Tree} (absent : c = missing ↔ c' = missing)
    (h : Alike f (c.lower s p) (c'.lower s p))
    (more : ∀ a b, f b = f a → Alike g (rest a) (rest' b)) :
    Alike g (lowerThen s p rest c) (lowerThen s p rest' c') := by
  by_cases none_ : c = missing
  · rw [none_, absent.mp none_]
    exact more _ _ rfl
  · rw [lowerThen.eq_2 s p rest c none_, lowerThen.eq_2 s p rest' c' (mt absent.mpr none_)]
    exact h.bind more

end Alike

theorem returnNull_missing (c : Code) : c = missing ↔ returnNull c = missing := by
  cases c
  case returning e => cases e <;> exact ⟨Code.noConfusion, Code.noConfusion⟩
  case missing => exact ⟨fun _ => rfl, fun _ => rfl⟩
  all_goals exact ⟨Code.noConfusion, Code.noConfusion⟩

/-- Returns that get a value speak of no further objects. -/
theorem alike_returnNull :
    (∀ c p, Alike selves (c.lower s p) ((returnNull c).lower s p)) ∧
      ∀ cs p, Alike selvesAll (lowerAll s p cs) (lowerAll s p (returnNullAll cs)) := by
  apply returnNull.mutual_induct
    (fun c => ∀ p, Alike selves (c.lower s p) ((returnNull c).lower s p))
    (fun cs => ∀ p, Alike selvesAll (lowerAll s p cs) (lowerAll s p (returnNullAll cs)))
  case case1 => exact fun p => .pure rfl
  case case2 =>
    intro e some_ p
    rw [returnNull.eq_2 e some_]
    exact .refl _
  case case3 => exact fun ss body p => (body .statement).bind fun _ _ same => .pure same
  case case4 =>
    intro c y n yes no p
    rw [returnNull, lower_ifThen, lower_ifThen]
    refine .optional (returnNull_missing n) (no .statement) fun n n' same => .after fun c' => ?_
    exact (yes .statement).bind fun y y' same' => .pure (by simp only [selves, same, same'])
  case case5 =>
    exact fun c b body p => .after fun c' => (body .statement).bind fun b b' same =>
      .pure (by simp only [selves, same])
  case case6 =>
    exact fun b c body p => (body .statement).bind fun b b' same => .after fun c' =>
      .pure (by simp only [selves, same])
  case case7 =>
    intro i c u b body p
    rw [returnNull, lower_forLoop, lower_forLoop]
    refine .optional (f := selves) Iff.rfl (.refl _) fun c c' same => .after fun u' => .after fun i' => ?_
    exact (body .statement).bind fun b b' same' => .pure (by simp only [selves, same, same'])
  case case8 =>
    exact fun v e b body p => .after fun v' => .after fun e' =>
      (body .statement).bind fun b b' same => .pure (by simp only [selves, same])
  case case9 =>
    exact fun l b body p => (body .statement).bind fun b b' same => .pure same
  case case10 =>
    exact fun e b body p => .after fun e' => (body .part).bind fun b b' same =>
      .pure (by simp only [selves, same])
  case case11 =>
    exact fun e cs cases_ p => (cases_ .part).bind fun cs cs' same => .after fun e' =>
      .pure (by simp only [selves, same])
  case case12 =>
    intro e ss body p
    rw [returnNull, lower_switchCase, lower_switchCase]
    refine .optional (f := selves) Iff.rfl (.refl _) fun e e' same => ?_
    exact (body .statement).bind fun ss ss' same' => .pure (by simp only [selves, same, same'])
  case case13 =>
    intro b cs f body catches last p
    rw [returnNull, lower_tryCatch, lower_tryCatch]
    refine (catches .part).bind fun cs cs' same => ?_
    refine .optional (returnNull_missing f) (last .part) fun f f' same' => ?_
    exact (body .part).bind fun b b' same'' => .pure (by simp only [selves, same, same', same''])
  case case14 =>
    exact fun v b body p => .after fun v' => (body .part).bind fun b b' same =>
      .pure (by simp only [selves, same])
  case case15 =>
    intro c h₁ h₂ h₃ h₄ h₅ h₆ h₇ h₈ h₉ h₁₀ h₁₁ h₁₂ h₁₃ p
    rw [returnNull.eq_15 c h₁ h₂ h₃ h₄ h₅ h₆ h₇ h₈ h₉ h₁₀ h₁₁ h₁₂ h₁₃]
    exact .refl _
  case case16 => exact fun p => .refl _
  case case17 =>
    exact fun c cs here others p => (here p).bind fun t t' same =>
      (others p).bind fun ts ts' same' => .pure (by simp only [selvesAll, same, same'])

/-- The body of a method without a result speaks of the same objects when it returns an object. -/
theorem speakAll_objectBody {cs : List Code} {l : List Self}
    (h : SpeakAll (lowerAll s .statement cs) l) :
    SpeakAll (lowerAll s .statement (objectBody cs)) l := by
  obtain ⟨ts, lowered, rfl⟩ := h
  obtain ⟨ts', lowered', same⟩ := alike_returnNull.2 cs .statement ts lowered
  have last : lowerAll s .statement [returning null] =
      .ok [.returning s.mark (.literal s.mark .null)] := rfl
  refine ⟨_, lowerAll_append lowered' last, ?_⟩
  rw [selvesAll_append, same]
  exact List.append_nil _

/-! ## Objects of classes without a name -/

/-- In these trees an object is made of a class without a name whose only method has the
statements. -/
def MoveTo (ts ss : List Tree) : Prop :=
  ∃ e ∈ Tree.visitAll (fun _ => false) ts, e.soleBody? = some ss

/-- An object of a class without a name that has one method. -/
def task (type : Code) (ms : Flags) (result : Code) (n : String) (ps thrown ss : List Code)
    (implementing : Bool) : Code :=
  create type [] (anonymous [.methodDecl ms [] [] result n ps thrown ss false implementing])

/-- The only method of a class without a name gets the statements that it was made from. -/
theorem soleBody_of_lower {p : Place} {type result : Code} {ms : Flags} {n : String}
    {ps thrown ss : List Code} {implementing : Bool}
    (lowered : (task type ms result n ps thrown ss implementing).lower s p = .ok t) :
    ∃ e inner ss', t = asStatement s.mark p e ∧ e.soleBody? = some ss' ∧
      lowerAll inner .statement ss = .ok ss' := by
  obtain ⟨body, made, lowered⟩ := ok_of_bind lowered
  obtain ⟨type', -, lowered⟩ := ok_of_bind lowered
  have made : (do
      let ms ← lowerAll { s with owner := some "" } .part
        [.methodDecl ms [] [] result n ps thrown ss false implementing]
      return Tree.classDecl s.mark "" (.modifiers s.mark .empty []) [] .missing []
        ([] ++ [] ++ ms ++ [])) = Except.ok body := made
  obtain ⟨methods, only, made⟩ := ok_of_bind made
  obtain ⟨method, first, only⟩ := ok_of_bind only
  obtain ⟨inner, _, _, _, _, _, _, _, ss', rfl, statements⟩ := body_of_lower first
  obtain rfl := Except.ok.inj (show Except.ok [_] = _ from only)
  obtain rfl := Except.ok.inj made
  obtain rfl := Except.ok.inj lowered
  exact ⟨_, inner, ss', rfl, rfl, statements⟩

end Code

namespace Handler

open Code

variable {u : SourceUnit} {m : Key} {s : Scope} {t : Tree} {ts : List Tree}

/-- Statements become those of the only method of a class without a name. -/
def Becomes (stmts : List Code) (ts : List Tree) : Prop :=
  ∃ inner ss, MoveTo ts ss ∧ lowerAll inner .statement stmts = .ok ss

theorem mem_visit_self {e : Tree} {ss : List Tree} (sole : e.soleBody? = some ss) :
    e ∈ visit (fun _ => false) e := by
  cases e
  case newObject => exact List.mem_cons_self
  all_goals exact nomatch sole

theorem mem_visitAll_head {e u : Tree} {l : List Tree} (h : e ∈ visit (fun _ => false) u) :
    e ∈ visitAll (fun _ => false) (u :: l) :=
  List.mem_append_left _ h

theorem mem_visit_block {m : Mark} {f : Flags} {e : Tree} {us : List Tree}
    (h : e ∈ visitAll (fun _ => false) us) : e ∈ visit (fun _ => false) (block m f us) :=
  List.mem_cons_of_mem _ h

theorem mem_visit_call {m : Mark} {f e : Tree} {ts us : List Tree}
    (h : e ∈ visitAll (fun _ => false) us) : e ∈ visit (fun _ => false) (Tree.call m ts f us) :=
  List.mem_cons_of_mem _ (List.mem_append_right _ h)

/-- The body of a method on the event thread moves into a task. -/
theorem eventBody_becomes {dispatch : Code → List Code → List Code}
    (lowered : lowerAll s .statement (eventBody u m dispatch) = .ok ts) :
    Becomes (movedBody u m) ts := by
  obtain ⟨decl, first, lowered⟩ := ok_of_bind lowered
  obtain ⟨others, -, lowered⟩ := ok_of_bind lowered
  obtain rfl := Except.ok.inj lowered
  obtain ⟨made, object, first⟩ := ok_of_bind first
  obtain ⟨_, inner, ss, rfl, sole, statements⟩ := soleBody_of_lower object
  refine ⟨inner, ss, ⟨made, ?_, sole⟩, statements⟩
  obtain ⟨as, -, first⟩ := ok_of_bind first
  obtain ⟨ty, -, first⟩ := ok_of_bind first
  obtain rfl := Except.ok.inj first
  exact List.mem_append_left _ (List.mem_cons_of_mem _ (List.mem_append_right _ (mem_visit_self sole)))

theorem mem_visitAll_right {e : Tree} {us vs : List Tree}
    (h : e ∈ visitAll (fun _ => false) vs) : e ∈ visitAll (fun _ => false) (us ++ vs) := by
  induction us with
  | nil => exact h
  | cons u us ih => exact List.mem_append_right _ ih

/-- A call of a static method with one argument. -/
theorem call_of_lower {p : Place} {owner method : String} {arg : Code}
    (lowered : (invoke (named owner) method [arg]).lower s p = .ok t) :
    ∃ q a, t = asStatement s.mark p (.call s.mark [] (.select s.mark q method) [a]) ∧
      arg.lower s .value = .ok a := by
  rw [invoke, lower_callOn Code.noConfusion] at lowered
  obtain ⟨q, -, lowered⟩ := ok_of_bind lowered
  obtain ⟨ts, none_, lowered⟩ := ok_of_bind lowered
  obtain rfl : [] = ts := Except.ok.inj none_
  obtain ⟨as, one, lowered⟩ := ok_of_bind lowered
  obtain ⟨a, rfl, here⟩ := lowerAll_singleton one
  exact ⟨q, a, (Except.ok.inj lowered).symm, here⟩

/-- The body of a method with privileges moves into an action. -/
theorem privilegedBody_becomes {sanitized : List SanitizedParam}
    (lowered : lowerAll s .statement (privilegedBody u m sanitized) = .ok ts) :
    Becomes (if (u.returnType m).isVoid then objectBody (movedBody u m) else movedBody u m) ts := by
  obtain ⟨us, vs, rfl, -, last⟩ := exists_of_append lowered
  obtain ⟨tried, rfl, attempt⟩ := lowerAll_singleton last
  rw [lower_tryCatch] at attempt
  obtain ⟨cs, -, attempt⟩ := ok_of_bind attempt
  obtain ⟨block_, body, whole⟩ := ok_of_bind attempt
  obtain rfl := Except.ok.inj whole
  obtain ⟨stmts, only, body⟩ := ok_of_bind body
  obtain rfl := Except.ok.inj body
  obtain ⟨stmt, rfl, made⟩ := lowerAll_singleton only
  have called (p : Place) (call : Tree) (lowered : (invoke (named "java.security.AccessController")
      "doPrivileged" [task (typeOf "java.security.PrivilegedExceptionAction"
        [(u.returnType m).boxed]) .publicFlag (u.returnType m).boxed "run" [] (u.thrown m)
        (if (u.returnType m).isVoid then objectBody (movedBody u m) else movedBody u m)
        false]).lower s p = .ok call) :
      ∃ inner e ss, e ∈ Tree.visit (fun _ => false) call ∧ e.soleBody? = some ss ∧
        lowerAll inner .statement (if (u.returnType m).isVoid then objectBody (movedBody u m)
          else movedBody u m) = .ok ss := by
    obtain ⟨q, _, rfl, object⟩ := call_of_lower lowered
    obtain ⟨_, inner, ss, rfl, sole, statements⟩ := soleBody_of_lower object
    refine ⟨inner, _, ss, ?_, sole, statements⟩
    have argument := mem_visitAll_head (l := []) (mem_visit_self sole)
    cases p
    case statement => exact List.mem_cons_of_mem _ (mem_visit_call argument)
    all_goals exact mem_visit_call argument
  have moved : ∃ inner e ss, e ∈ Tree.visit (fun _ => false) stmt ∧ e.soleBody? = some ss ∧
      lowerAll inner .statement (if (u.returnType m).isVoid then objectBody (movedBody u m)
        else movedBody u m) = .ok ss := by
    by_cases void : (u.returnType m).isVoid = true
    · exact called .statement stmt (by rwa [if_pos void] at made)
    · rw [if_neg void] at made
      obtain ⟨call, value, returned⟩ := ok_of_bind made
      obtain rfl := Except.ok.inj returned
      obtain ⟨inner, e, ss, member, sole, statements⟩ := called .value call value
      exact ⟨inner, e, ss, List.mem_cons_of_mem _ member, sole, statements⟩
  obtain ⟨inner, e, ss, member, sole, statements⟩ := moved
  have tried := mem_visit_block (m := s.mark) (f := .empty) (mem_visitAll_head (l := []) member)
  exact ⟨inner, ss, ⟨e, mem_visitAll_right (mem_visitAll_head (List.mem_cons_of_mem _
    (List.mem_append_left _ (List.mem_append_left _ tried)))), sole⟩, statements⟩

/-- The body of a method that makes function objects moves into them. -/
theorem functionDecl_becomes {template : Template}
    (lowered : (functionDecl u m template).lower s .part = .ok t) :
    Becomes (if (u.returnType m).isVoid then objectBody (u.statements m .none)
      else u.statements m .none) [t] := by
  obtain ⟨_, _, _, _, _, _, _, _, ss, rfl, only⟩ := body_of_lower lowered
  obtain ⟨stmt, rfl, returned⟩ := lowerAll_singleton only
  obtain ⟨made, object, returned⟩ := ok_of_bind returned
  obtain rfl := Except.ok.inj returned
  obtain ⟨_, inner, ss, rfl, sole, statements⟩ := soleBody_of_lower object
  refine ⟨inner, ss, ⟨made, mem_visitAll_head (List.mem_cons_of_mem _ (List.mem_append_right _ ?_)),
    sole⟩, statements⟩
  exact mem_visit_block (mem_visitAll_head (List.mem_cons_of_mem _ (mem_visit_self sole)))

/-! ## What moved statements speak of -/

theorem proper_bodyParts {d : Tree} (proper : d.Proper) : ProperAll (SourceUnit.bodyParts d).2 := by
  have body : ProperAll d.body.stmts := by
    cases d
    case methodDecl m n ms tps r ps ts b =>
      have inner : b.Proper := proper.2.2.2.2.2.2
      change ProperAll b.stmts
      cases b
      case block => exact inner
      all_goals trivial
    all_goals trivial
  unfold SourceUnit.bodyParts
  split
  · next first rest whole =>
    rw [whole] at body
    split
    · exact body.2
    · exact body
  · trivial

theorem Becomes.speaks {cs : List Code} {l : List Self} (h : Becomes cs ts)
    (speaks : ∀ s, SpeakAll (lowerAll s .statement cs) l) :
    ∃ ss, MoveTo ts ss ∧ selvesAll ss = l := by
  obtain ⟨inner, ss, moved, lowered⟩ := h
  obtain ⟨ss', lowered', same⟩ := speaks inner
  obtain rfl := Except.ok.inj (lowered.symm.trans lowered')
  exact ⟨ss, moved, same⟩

/-- Statements speak of the same objects as the body of a method without a result. -/
theorem speakAll_result {cs : List Code} {l : List Self} (isVoid : Bool)
    (h : SpeakAll (lowerAll s .statement cs) l) :
    SpeakAll (lowerAll s .statement (if isVoid then objectBody cs else cs)) l := by
  cases isVoid
  case false => exact h
  case true => exact speakAll_objectBody h

/-- In the tasks of the event thread and in actions with privileges, the body of a method speaks of
the objects that it spoke of before: each `this` is qualified, in its place, by the name of the
class around the method. In function objects the body is as it was, and each `this` in it is the
function object. -/
theorem moved_selves (u : SourceUnit) (m : Key) (s : Scope) {c : String}
    (proper : (u.decl m).Proper) (enclosed : (u.registry.parent? m).map u.name = some c)
    (name : IsClassName c) :
    (∀ dispatch ts, lowerAll s .statement (eventBody u m dispatch) = .ok ts →
      ∃ ss, MoveTo ts ss ∧
        selvesAll ss = (selvesAll (SourceUnit.bodyParts (u.decl m)).2).map (.qualified c)) ∧
    (∀ sanitized ts, lowerAll s .statement (privilegedBody u m sanitized) = .ok ts →
      ∃ ss, MoveTo ts ss ∧
        selvesAll ss = (selvesAll (SourceUnit.bodyParts (u.decl m)).2).map (.qualified c)) ∧
    ∀ template t, (functionDecl u m template).lower s .part = .ok t →
      ∃ ss, MoveTo [t] ss ∧ selvesAll ss = selvesAll (SourceUnit.bodyParts (u.decl m)).2 := by
  have body := proper_bodyParts proper
  have moved (s : Scope) : SpeakAll (lowerAll s .statement (movedBody u m))
      ((selvesAll (SourceUnit.bodyParts (u.decl m)).2).map (.qualified c)) := by
    have speaks := stmtsSpeak (Relocation.plain_inside name) s _ body
    rw [StmtsSpeak, Relocation.self_inside name] at speaks
    rw [movedBody, enclosed]
    exact speaks
  refine ⟨fun dispatch ts lowered => ?_, fun sanitized ts lowered => ?_, fun template t lowered => ?_⟩
  · exact (eventBody_becomes lowered).speaks moved
  · exact (privilegedBody_becomes lowered).speaks fun s => speakAll_result _ (moved s)
  · refine (functionDecl_becomes lowered).speaks fun s => speakAll_result _ ?_
    have speaks := stmtsSpeak Relocation.plain_none s _ body
    rwa [StmtsSpeak, Relocation.self_eq_id rfl] at speaks

theorem exists_of_isSome {α : Type} {x : Except Abort α} (h : x.toOption.isSome = true) :
    ∃ a, x = .ok a := by
  cases x with
  | error => exact nomatch h
  | ok a => exact ⟨a, rfl⟩

/-- A method that sets a field and moves to the event thread. -/
theorem moved_selves_setter : ∃ t m, Parse.Made t ∧
    selvesAll (SourceUnit.bodyParts ((SourceUnit.ofTree t).decl m)).2 = [.here] ∧
    ∃ ts, lowerAll ⟨default, none, none⟩ .statement
        (eventBody (SourceUnit.ofTree t) m dispatchLater) = .ok ts ∧
      ∃ ss, MoveTo ts ss ∧ selvesAll ss = [.outer "T"] := by
  let text : List Text.Glyph :=
    "class T\x7bint x;void m(int a)\x7bthis.x=a;\x7d\x7d".toList.map .char
  have found : ((Parse.unit "" text).toOption.any fun t =>
      let u := SourceUnit.ofTree t
      (u.registry.parent? 3).map u.name == some "T" &&
        (selvesAll (SourceUnit.bodyParts (u.decl 3)).2 == [.here] &&
          (lowerAll ⟨default, none, none⟩ .statement (eventBody u 3 dispatchLater)).toOption.isSome))
        = true := by
    decide +kernel
  cases read : Parse.unit "" text with
  | error e => rw [read] at found; exact nomatch found
  | ok t =>
    rw [read] at found
    change (_ && (_ && _)) = true at found
    simp only [Bool.and_eq_true, beq_iff_eq] at found
    obtain ⟨enclosed, body, event⟩ := found
    obtain ⟨ts, lowered⟩ := exists_of_isSome event
    have name : IsClassName "T" := ⟨⟨by decide, by decide⟩, by decide, by decide⟩
    obtain ⟨ss, moved, speaks⟩ := (moved_selves (SourceUnit.ofTree t) 3 ⟨default, none, none⟩
      (SourceUnit.proper_decl_of_made (.unit read) 3) enclosed name).1 dispatchLater ts lowered
    rw [body] at speaks
    exact ⟨t, 3, .unit read, body, ts, lowered, ss, moved, speaks⟩

/-- A class with a method that adds a field to its parameter. -/
def adder : SourceUnit :=
  let mods : Tree := .modifiers default .empty []
  let int : Tree := .primitive default .int
  .ofTree (.unit default "" .missing [] [.classDecl default "T" mods [] .missing []
    [.varDecl default "x" mods int .missing,
      .methodDecl default "m" mods [] int [.varDecl default "a" mods int .missing] []
        (.block default .empty [.returning default (.binary default .plus
          (.select default (.ident default "this") "x") (.ident default "a"))])]])

theorem adder_function : ∃ t,
    (functionDecl adder 3 (.ofArity 1)).lower ⟨default, none, none⟩ .part = .ok t := by
  have lifted (m : Mark) : liftType (.primitive m .int) = type "int" := by
    rw [liftType]
    rfl
  have result : adder.returnType 3 = type "int" := lifted _
  have param : adder.varType 4 = type "int" := lifted _
  have free : (adder.params 3).filter (fun p => !isBound adder p) = [4] := by decide +kernel
  have bound : (adder.params 3).filter (isBound adder) = [] := by decide +kernel
  unfold functionDecl
  rw [free, bound, result]
  simp only [List.map_cons, List.map_nil, param]
  exact exists_of_isSome (by decide +kernel)

/-- The body of a method that adds a field to its parameter moves into a function object, and still
speaks of the object it runs on. -/
theorem functionDecl_speaks_here : ∃ u m template t ss,
    (functionDecl u m template).lower ⟨default, none, none⟩ .part = .ok t ∧
      (u.registry.parent? m).map u.name = some "T" ∧
        MoveTo [t] ss ∧ Self.here ∈ selvesAll ss := by
  obtain ⟨t, lowered⟩ := adder_function
  have proper : ProperAll (SourceUnit.bodyParts (adder.decl 3)).2 :=
    ⟨⟨⟨⟨by decide, by decide⟩, ⟨by decide, by decide⟩⟩, ⟨by decide, by decide⟩⟩, trivial⟩
  obtain ⟨ss, moved, speaks⟩ := (functionDecl_becomes lowered).speaks fun s =>
    speakAll_result _ (stmtsSpeak Relocation.plain_none s _ proper)
  have enclosed : (adder.registry.parent? 3).map adder.name = some "T" := by decide
  have body : Self.here ∈ (selvesAll (SourceUnit.bodyParts (adder.decl 3)).2).map
      Relocation.none.self := by decide
  exact ⟨adder, 3, .ofArity 1, t, ss, lowered, enclosed, moved, speaks ▸ body⟩

end Handler

end Weaver
