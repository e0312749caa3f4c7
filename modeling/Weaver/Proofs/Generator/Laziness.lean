import Mathlib.Data.Seq.Basic
import Weaver.Main
/-!
An iterator looks for an element only when it is asked for one.

The methods of the generated class are executed here on an object of it. The method that runs the
machine is a parameter: whenever it is called, it puts an element into its field and reports true,
or reports false. What it will find call after call is a sequence of elements, finite or not, and an
iterator over that sequence is what the object is compared with.

The object remembers in two fields whether an element was looked for and whether one was found.
Between two requests it is in one of three states (`Agrees`): nothing is known, an element is
pending, or the end was reported. The machine is asked only in the first of them, and this is why
neither asking twice nor asking behind the end runs it again.
-/
set_option autoImplicit false

namespace Weaver.Generator

open Stream' (Seq)

/-! ## Objects of a class -/

/-- What a field or an expression can hold. -/
inductive Value (E : Type) where
  | none
  | truth (b : Bool)
  | element (e : E)

/-- What a caller can ask of an iterator. -/
inductive Request where
  | hasNext
  | next
  | remove
deriving DecidableEq

def Request.method : Request → String
  | hasNext => "hasNext"
  | next => "next"
  | remove => "remove"

/-- How a call ends: with a value, or with an exception of a type. -/
abbrev Answer (E : Type) := Except String (Value E)

/-- What can be seen of an iterator at work: the machine was run and found an element or the end,
and a request was answered. -/
inductive Event (E : Type) where
  | advanced (found : Option E)
  | answered (request : Request) (answer : Answer E)

/-- An object: its fields, all that the machine works on, and what has happened so far. -/
structure Instance (S E : Type) where
  fields : String → Value E
  world : S
  trace : List (Event E)

/-- What is executed on an object. Code that no method of an iterator has is not given a meaning. -/
abbrev Action (S E α : Type) := ExceptT String (StateT (Instance S E) Option) α

section Execution

variable {S E : Type}

def undefined {α : Type} : Action S E α := fun _ => Option.none

def Instance.put (o : Instance S E) (x : String) (v : Value E) : Instance S E :=
  { o with fields := fun y => if y = x then v else o.fields y }

def Instance.note (o : Instance S E) (e : Event E) : Instance S E :=
  { o with trace := o.trace ++ [e] }

/-- The object behind a run of the machine: the element that was found is in its field. -/
def Instance.advanced (pull : S → Option E × S) (o : Instance S E) : Instance S E :=
  let kept := match (pull o.world).1 with
    | some e => o.put nextField (.element e)
    | none => o
  { kept with world := (pull o.world).2 }.note (.advanced (pull o.world).1)

/-- Runs the machine. -/
def advance (pull : S → Option E × S) : Action S E (Value E) := do
  let o ← get
  set (o.advanced pull)
  return .truth (pull o.world).1.isSome

variable (call : String → Action S E (Value E))

/-- The value of an expression in a method. -/
def evaluate : Code → Action S E (Value E)
  | .bool b => return .truth b
  | .named x => return (← get).fields x
  | .unary op e => do
    match op, ← evaluate e with
    | "!", .truth b => return .truth !b
    | _, _ => undefined
  | .call .missing method [] [] => call method
  | _ => undefined

mutual

/-- Executes a statement. The result is the returned value, if it returns. -/
def execute : Code → Action S E (Option (Value E))
  | .missing => return none
  | .block ss => executeAll ss
  | .ifThen c y n => do
    match ← evaluate call c with
    | .truth true => execute y
    | .truth false => execute n
    | _ => undefined
  | .assign (.named x) e => do
    let v ← evaluate call e
    modify (·.put x v)
    return none
  | .returning e => do
    let v ← evaluate call e
    return some v
  | .throwing (.create (.typeRef type [] 0) [] .missing) => throw type
  | _ => undefined

/-- Executes statements until one returns. -/
def executeAll : List Code → Action S E (Option (Value E))
  | [] => return none
  | s :: ss => do
    match ← execute s with
    | some v => return some v
    | none => executeAll ss

end

end Execution

/-- The fields of a class. -/
def fieldsOf : Code → List Code
  | .classDecl _ _ _ _ _ _ _ _ fields _ _ => fields
  | _ => []

/-- The methods of a class. -/
def methodsOf : Code → List Code
  | .classDecl _ _ _ _ _ _ _ _ _ methods _ => methods
  | _ => []

/-- The body of the method with a name that has no parameters. -/
def bodyOf (name : String) : List Code → Option (List Code)
  | .methodDecl _ _ _ _ n [] _ body _ _ :: ms => if n = name then some body else bodyOf name ms
  | _ :: ms => bodyOf name ms
  | [] => none

section Objects

variable {S E : Type}

/-- What a field of a type holds before it is assigned to. -/
def initially : Code → Value E
  | .typeRef "boolean" [] 0 => .truth false
  | _ => .none

/-- Puts the first value into a field. -/
def Instance.begin (o : Instance S E) : Code → Instance S E
  | .fieldDecl type x _ _ _ => o.put x (initially type)
  | _ => o

/-- A fresh object of a class. -/
def Instance.fresh (cls : Code) (world : S) : Instance S E :=
  (fieldsOf cls).foldl Instance.begin ⟨fun _ => .none, world, []⟩

variable (pull : S → Option E × S)

/-- A call of a method of a class. The number bounds how deep calls are nested. -/
def invoke (cls : Code) : Nat → String → Action S E (Value E)
  | 0, _ => undefined
  | depth + 1, method =>
    if method = getNextMethod then advance pull
    else
      match bodyOf method (methodsOf cls) with
      | none => undefined
      | some body => do
        match ← executeAll (invoke cls depth) body with
        | some v => return v
        | none => return .none

/-- An object of a class answers a request. No method calls itself, so calls are nested at most as
deep as there are methods. -/
def Instance.answer (cls : Code) (o : Instance S E) (q : Request) : Option (Instance S E) :=
  match invoke pull cls (methodsOf cls).length q.method o with
  | some (a, o') => some (o'.note (.answered q a))
  | none => none

/-- An object answers some requests one after the other. -/
def Instance.serve (cls : Code) (o : Instance S E) (qs : List Request) : Option (Instance S E) :=
  qs.foldlM (fun o q => o.answer pull cls q) o

end Objects

/-! ## The iterator to compare with -/

section Sequences

variable {S E : Type}

/-- The elements that the machine finds one after the other. -/
def produced (pull : S → Option E × S) (world : S) : Seq E :=
  Seq.corec (fun w => match pull w with
    | (some e, w') => some (e, w')
    | (none, _) => none) world

/-- What an iterator over a sequence answers, and the elements that it has left. -/
def Request.reference (xs : Seq E) : Request → Answer E × Seq E
  | hasNext => (.ok (.truth xs.head.isSome), xs)
  | next =>
    match xs.destruct with
    | some (e, rest) => (.ok (.element e), rest)
    | none => (.error "java.util.NoSuchElementException", xs)
  | remove => (.error "java.lang.UnsupportedOperationException", xs)

/-- The answers of an iterator over a sequence. -/
def referenceAnswers : List Request → Seq E → List (Answer E)
  | [], _ => []
  | q :: qs, xs => (q.reference xs).1 :: referenceAnswers qs (q.reference xs).2

def Event.answer? : Event E → Option (Answer E)
  | answered _ a => some a
  | advanced _ => none

def Event.isRun : Event E → Bool
  | advanced _ => true
  | answered .. => false

/-- The machine found an element. -/
def Event.finds : Event E → Bool
  | advanced (some _) => true
  | _ => false

/-- An element was handed out. -/
def Event.handsOut : Event E → Bool
  | answered .next (.ok _) => true
  | _ => false

/-- The machine reported the end. -/
def Event.ends : Event E → Bool
  | advanced none => true
  | _ => false

/-- The answers that were given. -/
def answers (t : List (Event E)) : List (Answer E) := t.filterMap Event.answer?

/-- How often the machine was run. -/
def runs (t : List (Event E)) : Nat := t.countP Event.isRun

/-- How many elements it found. -/
def found (t : List (Event E)) : Nat := t.countP Event.finds

/-- How many elements were handed out. -/
def consumed (t : List (Event E)) : Nat := t.countP Event.handsOut

/-- The end was found. -/
def ended (t : List (Event E)) : Bool := t.any Event.ends

/-- The machine is run only when it has to be. -/
structure Lazy (t : List (Event E)) : Prop where
  /-- No element is pending when it is run, and it has not reported the end before. -/
  needed : ∀ before r, before ++ [Event.advanced r] <+: t →
    found before = consumed before ∧ ended before = false
  /-- At any time it was run at most once more than elements were consumed. -/
  sparing : ∀ before, before <+: t → runs before ≤ consumed before + 1

end Sequences

/-! ## Executing code on an object -/

section Steps

variable {S E α β : Type} {call : String → Action S E (Value E)} {o p q : Instance S E}
  {e c y n s : Code} {ss : List Code} {v : Value E} {t : String}

theorem bind_ok {x : Action S E α} {f : α → Action S E β} {a : α}
    (h : x o = some (.ok a, p)) : (x >>= f) o = f a p := by
  change (x o).bind _ = _
  rw [h]
  rfl

theorem bind_error {x : Action S E α} {f : α → Action S E β}
    (h : x o = some (.error t, p)) : (x >>= f) o = some (.error t, p) := by
  change (x o).bind _ = _
  rw [h]
  rfl

theorem evaluate_negated {b : Bool} (h : evaluate call e o = some (.ok (.truth b), p)) :
    evaluate call (negated e) o = some (.ok (.truth !b), p) :=
  bind_ok h

theorem evaluate_call {method : String} :
    evaluate call (.invoke .missing method []) o = call method o := rfl

theorem execute_then (hc : evaluate call c o = some (.ok (.truth true), p)) :
    execute call (.ifThen c y n) o = execute call y p :=
  bind_ok hc

theorem execute_else (hc : evaluate call c o = some (.ok (.truth false), p)) :
    execute call (.ifThen c y n) o = execute call n p :=
  bind_ok hc

theorem execute_assign {x : String} (h : evaluate call e o = some (.ok v, p)) :
    execute call (.assign (.named x) e) o = some (.ok none, p.put x v) :=
  bind_ok h

theorem execute_returning (h : evaluate call e o = some (.ok v, p)) :
    execute call (.returning e) o = some (.ok (some v), p) :=
  bind_ok h

theorem executeAll_nil : executeAll call [] o = some (.ok none, o) := rfl

/-- A statement that does not return is followed by the next one. -/
theorem executeAll_on (h : execute call s o = some (.ok none, p)) :
    executeAll call (s :: ss) o = executeAll call ss p :=
  bind_ok h

theorem executeAll_returned (h : execute call s o = some (.ok (some v), p)) :
    executeAll call (s :: ss) o = some (.ok (some v), p) :=
  bind_ok h

theorem executeAll_thrown (h : execute call s o = some (.error t, p)) :
    executeAll call (s :: ss) o = some (.error t, p) :=
  bind_error h

end Steps

section Invocation

variable {S E : Type} {pull : S → Option E × S} {cls : Code} {d : Nat} {method : String}
  {body : List Code} {o o' : Instance S E} {v : Value E} {t : String}

theorem invoke_getNext :
    invoke pull cls (d + 1) getNextMethod o =
      some (.ok (.truth (pull o.world).1.isSome), o.advanced pull) := by
  rw [invoke, if_pos rfl]
  rfl

theorem invoke_returned (other : method ≠ getNextMethod)
    (hbody : bodyOf method (methodsOf cls) = some body)
    (h : executeAll (invoke pull cls d) body o = some (.ok (some v), o')) :
    invoke pull cls (d + 1) method o = some (.ok v, o') := by
  rw [invoke, if_neg other, hbody]
  exact bind_ok h

theorem invoke_thrown (other : method ≠ getNextMethod)
    (hbody : bodyOf method (methodsOf cls) = some body)
    (h : executeAll (invoke pull cls d) body o = some (.error t, o')) :
    invoke pull cls (d + 1) method o = some (.error t, o') := by
  rw [invoke, if_neg other, hbody]
  exact bind_error h

end Invocation

/-! ## The methods of the iterator -/

section Methods

variable {S E : Type} {pull : S → Option E × S} {m : Machine} {name : String} {elem : Code}
  {iterable : Bool} {o o' : Instance S E} {d : Nat}

theorem body_hasNext : bodyOf "hasNext" (methodsOf (m.classCode name elem iterable)) = some
    [.ifThen (negated (.named nextDefinedField))
      (.block [.assign (.named hasNextField) (.invoke .missing getNextMethod []),
        .assign (.named nextDefinedField) (.bool true)]) .missing,
     .returning (.named hasNextField)] := by
  cases iterable <;> rfl

theorem body_next : bodyOf "next" (methodsOf (m.classCode name elem iterable)) = some
    [.ifThen (negated (.invoke .missing "hasNext" []))
      (.block [.throwing (.new (.type "java.util.NoSuchElementException") [])]) .missing,
     .assign (.named nextDefinedField) (.bool false),
     .returning (.named nextField)] := by
  cases iterable <;> rfl

theorem body_remove : bodyOf "remove" (methodsOf (m.classCode name elem iterable)) = some
    [.throwing (.new (.type "java.lang.UnsupportedOperationException") [])] := by
  cases iterable <;> rfl

/-- Once it is known whether there is an element, asking changes nothing. -/
theorem hasNext_known {b : Bool} (known : o.fields nextDefinedField = .truth true)
    (has : o.fields hasNextField = .truth b) :
    invoke pull (m.classCode name elem iterable) (d + 1) "hasNext" o = some (.ok (.truth b), o) := by
  have skipped : evaluate (invoke pull (m.classCode name elem iterable) d)
      (negated (.named nextDefinedField)) o = some (.ok (.truth false), o) :=
    evaluate_negated (b := true) (by rw [← known]; rfl)
  refine invoke_returned (by decide) body_hasNext ?_
  rw [executeAll_on (p := o) (by rw [execute_else skipped]; rfl)]
  exact executeAll_returned (execute_returning (by rw [← has]; rfl))

/-- The object behind a run of the machine whose result is remembered. -/
def Instance.looked (pull : S → Option E × S) (o : Instance S E) : Instance S E :=
  ((o.advanced pull).put hasNextField (.truth (pull o.world).1.isSome)).put nextDefinedField
    (.truth true)

/-- As long as nothing is known, asking runs the machine, and its result is remembered. -/
theorem hasNext_unknown (unknown : o.fields nextDefinedField = .truth false) :
    invoke pull (m.classCode name elem iterable) (d + 2) "hasNext" o =
      some (.ok (.truth (pull o.world).1.isSome), o.looked pull) := by
  have entered : evaluate (invoke pull (m.classCode name elem iterable) (d + 1))
      (negated (.named nextDefinedField)) o = some (.ok (.truth true), o) :=
    evaluate_negated (b := false) (by rw [← unknown]; rfl)
  refine invoke_returned (by decide) body_hasNext ?_
  rw [executeAll_on (p := o.looked pull) ?_]
  · exact executeAll_returned (execute_returning rfl)
  · rw [execute_then entered]
    change executeAll _ _ o = _
    rw [executeAll_on (execute_assign (evaluate_call.trans invoke_getNext)),
      executeAll_on (execute_assign rfl), executeAll_nil]
    rfl

/-- Where there is an element, it is handed out and nothing is known any more. -/
theorem next_found (has : invoke pull (m.classCode name elem iterable) d "hasNext" o =
      some (.ok (.truth true), o')) :
    invoke pull (m.classCode name elem iterable) (d + 1) "next" o =
      some (.ok (o'.fields nextField), o'.put nextDefinedField (.truth false)) := by
  have skipped := evaluate_negated (evaluate_call.trans has)
  refine invoke_returned (by decide) body_next ?_
  rw [executeAll_on (p := o') (by rw [execute_else skipped]; rfl),
    executeAll_on (execute_assign rfl)]
  exact executeAll_returned (execute_returning rfl)

/-- At the end, there is no element to hand out. -/
theorem next_ended (has : invoke pull (m.classCode name elem iterable) d "hasNext" o =
      some (.ok (.truth false), o')) :
    invoke pull (m.classCode name elem iterable) (d + 1) "next" o =
      some (.error "java.util.NoSuchElementException", o') := by
  have entered := evaluate_negated (evaluate_call.trans has)
  refine invoke_thrown (by decide) body_next (executeAll_thrown ?_)
  rw [execute_then entered]
  exact executeAll_thrown rfl

theorem remove_refused :
    invoke pull (m.classCode name elem iterable) (d + 1) "remove" o =
      some (.error "java.lang.UnsupportedOperationException", o) :=
  invoke_thrown (by decide) body_remove (executeAll_thrown rfl)

end Methods

/-! ## What happened so far -/

section Traces

variable {E : Type} {t : List (Event E)} {e : Event E} {r : Option E} {q : Request} {a : Answer E}

theorem answers_snoc : answers (t ++ [e]) = answers t ++ e.answer?.toList := by
  rw [answers, List.filterMap_append, ← answers, List.filterMap_cons]
  cases e <;> rfl

theorem runs_snoc : runs (t ++ [e]) = runs t + if e.isRun then 1 else 0 := by
  rw [runs, List.countP_append, List.countP_singleton, ← runs]

theorem found_snoc : found (t ++ [e]) = found t + if e.finds then 1 else 0 := by
  rw [found, List.countP_append, List.countP_singleton, ← found]

theorem consumed_snoc : consumed (t ++ [e]) = consumed t + if e.handsOut then 1 else 0 := by
  rw [consumed, List.countP_append, List.countP_singleton, ← consumed]

theorem ended_snoc : ended (t ++ [e]) = (ended t || e.ends) := by
  simp [ended]

theorem Lazy.nil : Lazy ([] : List (Event E)) where
  needed := by simp
  sparing before h := by simp [List.prefix_nil.mp h, runs]

/-- Answering does not run the machine. -/
theorem Lazy.answered (h : Lazy t) : Lazy (t ++ [Event.answered q a]) where
  needed before r hp := by
    rcases List.prefix_concat_iff.mp hp with same | earlier
    · exact absurd (List.append_inj' same rfl).2 (by simp)
    · exact h.needed before r earlier
  sparing before hp := by
    rcases List.prefix_concat_iff.mp hp with rfl | earlier
    · have until_now := h.sparing t (List.prefix_refl t)
      rw [runs_snoc, consumed_snoc, if_neg (by simp [Event.isRun])]
      omega
    · exact h.sparing before earlier

/-- As long as the end was not found, every run has found an element. -/
theorem runs_eq_found (going : ended t = false) : runs t = found t := by
  refine List.countP_congr fun e he => ?_
  have no_end := List.any_eq_false.mp going e he
  match e with
  | .answered .. => rfl
  | .advanced (some _) => rfl
  | .advanced none => exact absurd rfl no_end

/-- The machine may be run where no element is pending and the end was not found. -/
theorem Lazy.advanced (h : Lazy t) (handed : found t = consumed t) (going : ended t = false) :
    Lazy (t ++ [Event.advanced r]) where
  needed before r' hp := by
    rcases List.prefix_concat_iff.mp hp with same | earlier
    · obtain rfl := (List.append_inj' same rfl).1
      exact ⟨handed, going⟩
    · exact h.needed before r' earlier
  sparing before hp := by
    rcases List.prefix_concat_iff.mp hp with rfl | earlier
    · rw [runs_snoc, runs_eq_found going, handed, consumed_snoc]
      exact Nat.le_refl _
    · exact h.sparing before earlier

end Traces

/-! ## The states of the iterator -/

section Simulation

variable {S E : Type} {pull : S → Option E × S} {m : Machine} {name : String} {elem : Code}
  {iterable : Bool} {xs : Seq E}

theorem produced_some {w : S} {e : E} (h : (pull w).1 = some e) :
    produced pull w = Seq.cons e (produced pull (pull w).2) := by
  refine Seq.corec_cons ?_
  rw [show pull w = (some e, (pull w).2) from Prod.ext h rfl]

theorem produced_none {w : S} (h : (pull w).1 = none) : produced pull w = Seq.nil := by
  refine Seq.corec_nil _ _ ?_
  rw [show pull w = (none, (pull w).2) from Prod.ext h rfl]

/-- What an object knows, and the elements that are left in it. -/
inductive Agrees (pull : S → Option E × S) : Instance S E → Seq E → Prop where
  /-- Nothing is known. Everything that was found has been handed out. -/
  | unknown (o : Instance S E) (known : o.fields nextDefinedField = .truth false)
      (sparing : Lazy o.trace) (handed : found o.trace = consumed o.trace)
      (going : ended o.trace = false) : Agrees pull o (produced pull o.world)
  /-- An element was found and waits in its field. -/
  | pending (o : Instance S E) (e : E) (known : o.fields nextDefinedField = .truth true)
      (has : o.fields hasNextField = .truth true) (waits : o.fields nextField = .element e)
      (sparing : Lazy o.trace) (handed : found o.trace = consumed o.trace + 1)
      (going : ended o.trace = false) : Agrees pull o (Seq.cons e (produced pull o.world))
  /-- The end was found. -/
  | finished (o : Instance S E) (known : o.fields nextDefinedField = .truth true)
      (has : o.fields hasNextField = .truth false) (sparing : Lazy o.trace) :
      Agrees pull o Seq.nil

/-- Behind a run of the machine, an element is pending or the end is known. -/
theorem Agrees.looked {o : Instance S E} (sparing : Lazy o.trace)
    (handed : found o.trace = consumed o.trace) (going : ended o.trace = false) :
    Agrees pull (o.looked pull) (produced pull o.world) ∧
      answers (o.looked pull).trace = answers o.trace := by
  have trace : (o.looked pull).trace = o.trace ++ [Event.advanced (pull o.world).1] := by
    cases h : (pull o.world).1 <;> simp [Instance.looked, Instance.advanced, Instance.note, Instance.put, h]
  have still : Lazy (o.looked pull).trace := by
    rw [trace]
    exact sparing.advanced handed going
  refine ⟨?_, by rw [trace, answers_snoc]; exact List.append_nil _⟩
  cases h : (pull o.world).1 with
  | none =>
    rw [produced_none h]
    refine .finished _ rfl ?_ still
    change Value.truth (pull o.world).1.isSome = _
    rw [h]
    rfl
  | some e =>
    rw [produced_some h]
    refine .pending _ e rfl ?_ ?_ still ?_ ?_
    · change Value.truth (pull o.world).1.isSome = _
      rw [h]
      rfl
    · simp [Instance.looked, Instance.advanced, Instance.note, Instance.put, h, nextField, hasNextField, nextDefinedField]
    · rw [trace, found_snoc, consumed_snoc, handed, h]
      rfl
    · rw [trace, ended_snoc, going, h]
      rfl

/-- Whoever asks whether there is an element gets the right answer, and afterwards it is known. -/
theorem Agrees.asked {o : Instance S E} (h : Agrees pull o xs) (m : Machine) (name : String)
    (elem : Code) (iterable : Bool) (d : Nat) :
    ∃ o', invoke pull (m.classCode name elem iterable) (d + 2) "hasNext" o =
        some (.ok (.truth xs.head.isSome), o') ∧
      Agrees pull o' xs ∧ answers o'.trace = answers o.trace ∧
      o'.fields nextDefinedField = .truth true := by
  cases h with
  | unknown known sparing handed going =>
    obtain ⟨agrees, same⟩ : Agrees pull (o.looked pull) (produced pull o.world) ∧
        answers (o.looked pull).trace = answers o.trace := Agrees.looked sparing handed going
    refine ⟨_, ?_, agrees, same, rfl⟩
    rw [hasNext_unknown known]
    cases h : (pull o.world).1 with
    | none => rw [produced_none h, Seq.head_nil]
    | some e => rw [produced_some h, Seq.head_cons]
  | pending e known has waits sparing handed going =>
    refine ⟨o, ?_, .pending o e known has waits sparing handed going, rfl, known⟩
    rw [hasNext_known known has, Seq.head_cons]
    rfl
  | finished known has sparing =>
    exact ⟨o, hasNext_known known has, .finished o known has sparing, rfl, known⟩

/-- An answer that hands nothing out leaves everything as it was. -/
theorem Agrees.answered {o : Instance S E} {q : Request} {a : Answer E} (h : Agrees pull o xs)
    (keeps : (Event.answered q a).handsOut = false) : Agrees pull (o.note (.answered q a)) xs := by
  have same : consumed (o.note (.answered q a)).trace = consumed o.trace := by
    change consumed (o.trace ++ _) = _
    rw [consumed_snoc, keeps]
    rfl
  have finds : found (o.note (.answered q a)).trace = found o.trace := found_snoc
  have ends : ended (o.note (.answered q a)).trace = ended o.trace :=
    ended_snoc.trans (Bool.or_false _)
  cases h with
  | unknown known sparing handed going =>
    exact .unknown (o.note _) known sparing.answered (by rw [finds, same, handed])
      (by rw [ends, going])
  | pending e known has waits sparing handed going =>
    exact .pending (o.note _) e known has waits sparing.answered (by rw [finds, same, handed])
      (by rw [ends, going])
  | finished known has sparing => exact .finished (o.note _) known has sparing.answered

theorem depth_methods : ∃ d, (methodsOf (m.classCode name elem iterable)).length = d + 3 := by
  cases iterable
  · exact ⟨1, rfl⟩
  · exact ⟨2, rfl⟩

theorem answer_of_invoke {cls : Code} {o o' : Instance S E} {q : Request} {a : Answer E}
    (h : invoke pull cls (methodsOf cls).length q.method o = some (a, o')) :
    o.answer pull cls q = some (o'.note (.answered q a)) := by
  rw [Instance.answer, h]

theorem answers_note {o : Instance S E} {q : Request} {a : Answer E} :
    answers (o.note (.answered q a)).trace = answers o.trace ++ [a] :=
  answers_snoc

/-- The element that waits is handed out, and nothing is known any more. -/
theorem Agrees.handed_out {o : Instance S E} {x : E} {rest : Seq E}
    (h : Agrees pull o (Seq.cons x rest)) (asked : o.fields nextDefinedField = .truth true) :
    o.fields nextField = .element x ∧
      Agrees pull ((o.put nextDefinedField (.truth false)).note (.answered .next (.ok (.element x))))
        rest := by
  generalize hxs : Seq.cons x rest = xs at h
  cases h with
  | unknown known => exact absurd (known.symm.trans asked) (by simp)
  | finished => exact absurd hxs (Seq.cons_ne_nil)
  | pending e known has waits sparing handed going =>
    obtain ⟨rfl, rfl⟩ := Seq.cons_injective2 hxs
    refine ⟨waits, .unknown _ rfl sparing.answered ?_ ?_⟩
    · change found (o.trace ++ _) = consumed (o.trace ++ _)
      rw [found_snoc, consumed_snoc, handed]
      rfl
    · exact ended_snoc.trans ((Bool.or_false _).trans going)

/-- **One request.** The answer is that of an iterator over the elements left, and so is what is
left behind it. -/
theorem Agrees.answer {o : Instance S E} (h : Agrees pull o xs) (m : Machine) (name : String)
    (elem : Code) (iterable : Bool) (q : Request) :
    ∃ o', o.answer pull (m.classCode name elem iterable) q = some o' ∧
      Agrees pull o' (q.reference xs).2 ∧
      answers o'.trace = answers o.trace ++ [(q.reference xs).1] := by
  obtain ⟨d, depth⟩ : ∃ d, (methodsOf (m.classCode name elem iterable)).length = d + 3 :=
    depth_methods
  cases q with
  | hasNext =>
    obtain ⟨o', run, agrees, same, -⟩ := h.asked m name elem iterable (d + 1)
    exact ⟨_, answer_of_invoke (by rw [depth]; exact run), agrees.answered rfl,
      by rw [answers_note, same]; rfl⟩
  | remove =>
    exact ⟨_, answer_of_invoke (by rw [depth]; exact remove_refused), h.answered rfl, answers_note⟩
  | next =>
    obtain ⟨o', run, agrees, same, asked⟩ := h.asked m name elem iterable d
    cases hx : xs.destruct with
    | none =>
      obtain rfl := Seq.destruct_eq_none hx
      exact ⟨_, answer_of_invoke (by rw [depth]; exact next_ended run), agrees.answered rfl,
        by rw [answers_note, same]; rfl⟩
    | some p =>
      obtain ⟨x, rest⟩ := p
      obtain rfl := Seq.destruct_eq_cons hx
      rw [Seq.head_cons] at run
      obtain ⟨waits, agrees⟩ := agrees.handed_out asked
      have reference : Request.next.reference (Seq.cons x rest) = (.ok (.element x), rest) := by
        rw [Request.reference, Seq.destruct_cons]
      rw [reference]
      refine ⟨_, answer_of_invoke (by rw [depth]; exact next_found run), ?_, ?_⟩
      · rw [waits]
        exact agrees
      · rw [answers_note, waits]
        exact congrArg (· ++ _) same

/-- **A run.** -/
theorem Agrees.serve {o : Instance S E} (h : Agrees pull o xs) (m : Machine) (name : String)
    (elem : Code) (iterable : Bool) (qs : List Request) :
    ∃ o', o.serve pull (m.classCode name elem iterable) qs = some o' ∧
      Lazy o'.trace ∧ answers o'.trace = answers o.trace ++ referenceAnswers qs xs := by
  induction qs generalizing o xs with
  | nil =>
    refine ⟨o, rfl, ?_, (List.append_nil _).symm⟩
    cases h <;> assumption
  | cons q qs ih =>
    obtain ⟨o₁, first, agrees, given⟩ := h.answer m name elem iterable q
    obtain ⟨o₂, others, sparing, all⟩ := ih agrees
    refine ⟨o₂, ?_, sparing, ?_⟩
    · rw [Instance.serve, List.foldlM_cons, first]
      exact others
    · rw [all, given, referenceAnswers, List.append_assoc, List.singleton_append]

theorem Instance.begin_keeps (o : Instance S E) (f : Code) :
    (o.begin f).world = o.world ∧ (o.begin f).trace = o.trace := by
  unfold Instance.begin
  split <;> exact ⟨rfl, rfl⟩

/-- Setting fields does not run anything. -/
theorem Instance.foldl_begin (fs : List Code) (o : Instance S E) :
    (fs.foldl Instance.begin o).world = o.world ∧
      (fs.foldl Instance.begin o).trace = o.trace := by
  induction fs generalizing o with
  | nil => exact ⟨rfl, rfl⟩
  | cons f fs ih =>
    obtain ⟨world, trace⟩ := o.begin_keeps f
    rw [List.foldl_cons, (ih _).1, (ih _).2]
    exact ⟨world, trace⟩

/-- A fresh object knows nothing, and all elements are left. -/
theorem Agrees.fresh (world : S) :
    Agrees pull (.fresh (m.classCode name elem iterable) world) (produced pull world) := by
  obtain ⟨same, empty⟩ := Instance.foldl_begin (fieldsOf (m.classCode name elem iterable))
    (⟨fun _ => .none, world, []⟩ : Instance S E)
  have unknown : (Instance.fresh (m.classCode name elem iterable) world : Instance S E).fields
      nextDefinedField = .truth false := by
    change ((m.fields ++ _).foldl Instance.begin _).fields nextDefinedField = _
    rw [List.foldl_append]
    rfl
  have agrees : Agrees pull (.fresh (m.classCode name elem iterable) world) _ :=
    .unknown (Instance.fresh (m.classCode name elem iterable) world : Instance S E) unknown
    (by rw [Instance.fresh, empty]; exact .nil) (by rw [Instance.fresh, empty]; rfl)
    (by rw [Instance.fresh, empty]; rfl)
  rw [Instance.fresh, same] at agrees
  exact agrees

end Simulation

/-- **A generated iterator is lazy.** Whatever the machine does and in whatever order a fresh object
of the class is asked, it answers as an iterator over the elements that the machine finds one after
the other: it says that there is another element exactly where one is left, hands the elements out in
order, refuses to hand one out at the end however often it is asked, and refuses to remove one. The
machine is run only where no element is pending, never again behind the end, and at most once more
than elements were consumed. -/
theorem classCode_lazy {S E : Type} (m : Machine) (name : String) (elem : Code) (iterable : Bool)
    (pull : S → Option E × S) (world : S) (qs : List Request) :
    ∃ o, (Instance.fresh (m.classCode name elem iterable) world).serve pull
        (m.classCode name elem iterable) qs = some o ∧
      answers o.trace = referenceAnswers qs (produced pull world) ∧ Lazy o.trace := by
  obtain ⟨o, run, sparing, same⟩ := (Agrees.fresh (m := m) world).serve m name elem iterable qs
  refine ⟨o, run, ?_, sparing⟩
  have empty : (Instance.fresh (m.classCode name elem iterable) world : Instance S E).trace = [] :=
    (Instance.foldl_begin _ _).2
  rw [same, empty]
  rfl

/-- Two elements, asked for past the end. -/
example :
    let find : List Nat → Option Nat × List Nat := fun xs => (xs.head?, xs.tail)
    let cls := Machine.classCode ⟨[], []⟩ "Numbers" .missing false
    ((Instance.fresh cls [1, 2]).serve find cls [.hasNext, .hasNext, .next, .next, .next]).map
        (answers ·.trace) =
      some [.ok (.truth true), .ok (.truth true), .ok (.element 1), .ok (.element 2),
        .error "java.util.NoSuchElementException"] := by
  rfl

end Weaver.Generator
