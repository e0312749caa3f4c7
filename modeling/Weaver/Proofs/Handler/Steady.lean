import Weaver.Proofs.Handler.Gaining
import Weaver.Proofs.Processing.Persist
/-!
Handlers leave methods recognisable.

A run of a handler that comes before function objects are made keeps what stays of types and methods
(`SourceUnit.Persists`); it replaces no body but that of its own method, and never by nothing. What
is done once for a method is noted, and a run notes that for its own method only, under the key of
its family (`Handler.family?`). Both are said of all phases at once: work takes a unit from one
condition to another, and notes nothing but what it may (`Weave.Takes`).
-/
set_option autoImplicit false

namespace Weaver

open Weaver.Syntax (Tree Flags)
open Weaver.Syntax.Tree
open SourceUnit Handler

/-- What was done once: a key, and the name and the place of an element. -/
abbrev Done := String × String × Source.Position

/-- Nothing that was done is forgotten, and nothing is noted as done but some things. -/
structure Bench.Marks (new : List Done) (b b' : Bench) : Prop where
  kept : ∀ d ∈ b.done, d ∈ b'.done
  few : ∀ d ∈ b'.done, d ∈ b.done ∨ d ∈ new

section Marks

variable {new : List Done} {b b' b'' : Bench}

theorem Bench.Marks.of_eq (same : b'.done = b.done) : b.Marks new b' :=
  ⟨fun _ hd => same ▸ hd, fun _ hd => .inl (same ▸ hd)⟩

theorem Bench.Marks.trans (h : b.Marks new b') (h' : b'.Marks new b'') : b.Marks new b'' where
  kept d hd := h'.kept d (h.kept d hd)
  few d hd := (h'.few d hd).elim (h.few d) .inr

end Marks

namespace Weave

/-- Work that, if it does not break off, takes a unit from one condition to another, notes nothing as
done but some things, and whose result has a property. -/
def Takes {α : Type} (I : SourceUnit → Prop) (new : List Done) (J : SourceUnit → Prop) (w : Weave α)
    (P : α → Prop) : Prop :=
  ∀ ⦃b a b'⦄, I b.unit → w b = (.ok a, b') → J b'.unit ∧ b.Marks new b' ∧ P a

section Rules

variable {α β γ : Type} {P : α → Prop} {Q : β → Prop} {I J K : SourceUnit → Prop} {u : SourceUnit}
  {new : List Done}

theorem takes_pure {a : α} (h : P a) : Takes I new I (pure a) P := by
  rintro b _ _ holds ⟨⟩
  exact ⟨holds, .of_eq rfl, h⟩

theorem takes_throw (x : Abort) : Takes I new J (throw x) P := by
  rintro b _ _ - ⟨⟩

theorem takes_bind {w : Weave α} {f : α → Weave β} (h : Takes I new J w P)
    (h' : ∀ a, P a → Takes J new K (f a) Q) : Takes I new K (w >>= f) Q := by
  intro b x b' holds done
  obtain ⟨a, b₁, first, next⟩ := ok_of_bind done
  obtain ⟨there, marks, own⟩ := h holds first
  obtain ⟨last, marks', own'⟩ := h' a own there next
  exact ⟨last, marks.trans marks', own'⟩

/-- What is known of quiet work besides. -/
theorem takes_quiet {w : Weave α} (h : Takes (· = u) new (· = u) w fun _ => True)
    (quiet : Quiet u w P) : Takes (· = u) new (· = u) w P := fun _ _ _ same done =>
  have ⟨there, marks, _⟩ := h same done
  ⟨there, marks, (quiet same done).2⟩

theorem takes_get : Takes I new I (get : Weave Bench) fun _ => True := by
  rintro b _ _ holds ⟨⟩
  exact ⟨holds, .of_eq rfl, trivial⟩

/-- Work that begins with looking at the unit. -/
theorem takes_look {f : SourceUnit → Weave α} (h : ∀ v, I v → Takes (· = v) new K (f v) P) :
    Takes I new K (Weave.unit >>= f) P := by
  intro b x b' holds done
  obtain ⟨v, b₁, first, next⟩ := ok_of_bind done
  obtain ⟨rfl, rfl⟩ : b.unit = v ∧ b = b₁ := by cases first; exact ⟨rfl, rfl⟩
  exact h b.unit holds rfl next

theorem takes_same {f : SourceUnit → Weave α} (h : Takes (· = u) new K (f u) P) :
    Takes (· = u) new K (Weave.unit >>= f) P :=
  takes_look fun v same => by rwa [same]

theorem takes_editing {e : Edit α} (h : ∀ v, I v → ∀ a w, e v = (.ok a, w) → J w) :
    Takes I new J (editing e) fun _ => True := by
  intro b a b' holds done
  rw [editing_apply] at done
  obtain ⟨result, rfl⟩ := Prod.mk.inj done
  exact ⟨h b.unit holds a _ (Prod.ext result rfl), .of_eq rfl, trivial⟩

theorem takes_forIn {f : γ → PUnit → Weave (ForInStep PUnit)} {cs : List γ}
    (h : ∀ c ∈ cs, ∀ p, Takes I new I (f c p) fun _ => True) (p : PUnit) :
    Takes I new I (forIn cs p f) fun _ => True := by
  induction cs generalizing p with
  | nil => exact takes_pure trivial
  | cons c cs ih =>
    rw [List.forIn_cons]
    refine takes_bind (h c List.mem_cons_self p) fun s _ => ?_
    cases s with
    | done p => exact takes_pure trivial
    | yield p => exact ih (fun d hd => h d (List.mem_cons_of_mem _ hd)) p

theorem takes_once {key : String} {e : Key} (listed : (key, u.name e, u.pos e) ∈ new) :
    Takes (· = u) new (· = u) (once key e) fun _ => True := by
  intro b a b' same done
  have entered : (get : Weave Bench) b = (.ok b, b) := rfl
  unfold once at done
  rw [bind_ok entered] at done
  split at done
  · cases done
    exact ⟨same, .of_eq rfl, trivial⟩
  · cases done
    refine ⟨same, ⟨fun d hd => List.mem_cons_of_mem _ hd, fun d hd => ?_⟩, trivial⟩
    rcases List.mem_cons.mp hd with rfl | old
    · rw [same]
      exact .inr listed
    · exact .inl old

end Rules

end Weave

open Weave

namespace Invocation

variable {α : Type} {I : SourceUnit → Prop} {u : SourceUnit} {new : List Done} {P : Option α → Prop}

theorem takes_error (i : Invocation) (m : String) : Takes I new I (i.error m) fun _ => True := by
  rintro b _ _ holds ⟨⟩
  exact ⟨holds, .of_eq rfl, trivial⟩

theorem takes_warn (i : Invocation) (m : String) : Takes I new I (i.warn m) fun _ => True := by
  rintro b _ _ holds ⟨⟩
  exact ⟨holds, .of_eq rfl, trivial⟩

theorem takes_sound : Takes I new I sound fun _ => True :=
  takes_bind takes_get fun _ _ => takes_pure trivial

theorem takes_stop (i : Invocation) (m : String) (h : P none) : Takes I new I (i.stop m) P :=
  takes_bind (i.takes_error m) fun _ _ => takes_pure h

theorem takes_refuse (i : Invocation) (c : Complaint) (h : P none) : Takes I new I (i.refuse c) P :=
  takes_bind (i.takes_error _) fun _ _ => takes_pure h

theorem takes_concreteMethod (i : Invocation) : Takes (· = u) new (· = u) i.concreteMethod
    fun m? => ∀ m, m? = some m → i.method? u = some m := by
  refine takes_quiet (takes_same ?_) i.quiet_concreteMethod
  split
  · exact i.takes_refuse _ trivial
  · split
    · exact i.takes_refuse _ trivial
    · exact takes_pure trivial

end Invocation

theorem takes_memberText {I : SourceUnit → Prop} {new : List Done} (a : AnnoUse) (m : String) :
    Takes I new I (memberText a m) fun _ => True := by
  unfold memberText
  split
  · exact takes_pure trivial
  · exact takes_throw _

/-! ## Statements that are no constructor calls -/

namespace Code

variable {s : Scope} {cs ds : List Code} {c : Code}

/-- A statement that calls no other constructor. -/
def Plain (c : Code) : Prop := ∀ s, Becomes (c.lower s .statement) (isConstructorCall · = false)

theorem opens_cons (plain : c.Plain) : Opens (c :: cs) := by
  intro s ts lowered
  obtain ⟨t, here, lowered⟩ := ok_of_bind lowered
  obtain ⟨ts', -, lowered⟩ := ok_of_bind lowered
  rw [← Except.ok.inj lowered]
  exact ⟨t, rfl, plain s t here⟩

theorem opens_append (some_ : cs ≠ []) (plain : ∀ c ∈ cs, c.Plain) : Opens (cs ++ ds) := by
  cases cs with
  | nil => exact absurd rfl some_
  | cons c cs => exact opens_cons (plain c List.mem_cons_self)

theorem plain_invoke {r : Code} {n : String} {as : List Code} (other : n ≠ "this" ∧ n ≠ "super") :
    (invoke r n as).Plain := by
  intro s t lowered
  cases r
  case missing =>
    obtain ⟨callee, found, lowered⟩ := ok_of_bind lowered
    obtain ⟨ts, -, lowered⟩ := ok_of_bind lowered
    obtain ⟨as', -, lowered⟩ := ok_of_bind lowered
    rw [← Except.ok.inj lowered, ← Except.ok.inj found]
    change (n == "this" || n == "super") = false
    rw [beq_false_of_ne other.1, beq_false_of_ne other.2]
    rfl
  all_goals
    obtain ⟨e, -, lowered⟩ := ok_of_bind lowered
    obtain ⟨callee, found, lowered⟩ := ok_of_bind lowered
    obtain ⟨ts, -, lowered⟩ := ok_of_bind lowered
    obtain ⟨as', -, lowered⟩ := ok_of_bind lowered
    rw [← Except.ok.inj lowered, ← Except.ok.inj found]
    rfl

theorem plain_ifThen {e y : Code} : (ifThen e y .missing).Plain := by
  intro s t lowered
  obtain ⟨n', -, lowered⟩ := ok_of_bind lowered
  obtain ⟨e', -, lowered⟩ := ok_of_bind lowered
  obtain ⟨y', -, lowered⟩ := ok_of_bind lowered
  rw [← Except.ok.inj lowered]
  rfl

theorem plain_tryCatch {b : Code} : (tryCatch b cs .missing).Plain := by
  intro s t lowered
  obtain ⟨cs', -, lowered⟩ := ok_of_bind lowered
  obtain ⟨f, -, lowered⟩ := ok_of_bind lowered
  obtain ⟨b', -, lowered⟩ := ok_of_bind lowered
  rw [← Except.ok.inj lowered]
  rfl

theorem plain_constant {type init : Code} {n : String} : (constant type n init).Plain := by
  intro s t lowered
  have unfolded : ∃ x : Except Abort Tree, (constant type n init).lower s .statement = (do
      let init ← x
      let as ← lowerAll s .part []
      return Tree.varDecl s.mark n (.modifiers s.mark .finalFlag as) (← lower s .part type) init) := by
    cases init <;> exact ⟨_, rfl⟩
  obtain ⟨x, unfolded⟩ := unfolded
  rw [unfolded] at lowered
  obtain ⟨init', -, lowered⟩ := ok_of_bind lowered
  obtain ⟨as, -, lowered⟩ := ok_of_bind lowered
  obtain ⟨type', -, lowered⟩ := ok_of_bind lowered
  rw [← Except.ok.inj lowered]
  rfl

theorem plain_classDecl {k : ClassKind} {ms : Flags} {as tps is fs mths ts : List Code}
    {n : String} {e : Code} : (classDecl k ms as n tps e is cs fs mths ts).Plain := by
  intro s t lowered
  have class_ := class_of_lower t lowered
  cases t
  case classDecl => rfl
  all_goals exact nomatch class_

end Code

/-! ## Runs -/

/-- Where a run takes place: what was registered first, the unit, the type, and the method if there
is one. -/
structure Site where
  first : Registry
  unit : SourceUnit
  type : Key
  method? : Option Key
  /-- What the run may note as done. -/
  marks : List Done

namespace Handler

/-- The key under which a handler notes what it does once for a method. -/
def family? (h : Handler) : Option String :=
  if h.priority = Priority.sanitize then some "sanitize"
  else if h.priority = Priority.validate then some "validate"
  else if h.priority = Priority.rethrow then some "rethrow"
  else none

/-- What a handler may note as done when it runs on a method. -/
def marks (h : Handler) (u : SourceUnit) (m? : Option Key) : List Done :=
  (h.family?.bind fun key => m?.map fun m => (key, u.name m, u.pos m)).toList

end Handler

namespace Site

/-- The number of the method, whose body may be replaced. -/
def Own (x : Site) (n : Nat) : Prop := ∃ m, x.method? = some m ∧ x.first.number m = n

/-- A unit in which is kept what stays. -/
def Kept (x : Site) (v : SourceUnit) : Prop := x.unit.Kept x.first x.Own v

/-- Work that leaves the unit as it is. -/
abbrev Leaves {α : Type} (x : Site) (w : Weave α) (P : α → Prop) : Prop :=
  Takes (· = x.unit) x.marks (· = x.unit) w P

/-- Work that changes a unit in which is kept what stays to another one. -/
abbrev Works {α : Type} (x : Site) (w : Weave α) (P : α → Prop) : Prop :=
  Takes x.Kept x.marks x.Kept w P

/-- Splicing after which only the type or the method are registered anew. -/
abbrev Splices (x : Site) (s : Splice) : Prop :=
  x.Works s fun ks => ∀ k ∈ ks, k = x.type ∨ x.method? = some k

/-- Building that hands out such splicing. -/
abbrev Builds (x : Site) (w : Build) : Prop := x.Leaves w fun s? => ∀ s, s? = .ok s → x.Splices s

/-- What a check hands out. -/
def Gives (x : Site) (w? : Option Build) : Prop := ∀ w, w? = some w → x.Builds w

/-- A handler starts to run there. -/
structure Begins (x : Site) (h : Handler) (i : Invocation) : Prop where
  starts : h.Starts x.first x.unit i x.type x.method?
  based : x.unit.Based x.first
  marks : x.marks = h.marks x.unit x.method?

end Site

/-- A handler whose runs keep what stays. -/
def Handler.Steady (h : Handler) : Prop := ∀ ⦃x i⦄, Site.Begins x h i → x.Leaves (h.check i) x.Gives

namespace Site

section Rules

variable {α β : Type} {x : Site} {h : Handler} {i : Invocation} {k m c : Key} {cs : List Code}
  {P : α → Prop} {e : Edit α}

theorem gives_none : x.Gives none := nofun

theorem gives_some {w : Build} (h : x.Builds w) : x.Gives (some w) := by
  rintro _ ⟨⟩
  exact h

theorem builds_error (message : String) : x.Builds (return .error message) := takes_pure nofun

theorem builds_ok {s : Splice} (h : x.Splices s) : x.Builds (return .ok s) := by
  refine takes_pure ?_
  rintro _ ⟨⟩
  exact h

theorem works_editAt (h : ∀ v, x.Kept v → e.KeepsAt x.first x.Own v) :
    x.Works (editing e) fun _ => True :=
  takes_editing fun v kept _ _ done => kept.trans (h v kept done)

theorem works_editing (h : Edit.Keeps x.first x.Own e) : x.Works (editing e) fun _ => True :=
  works_editAt fun _ kept => h kept.persists.based

/-- An edit for which the unit is looked at. -/
theorem works_lookEdit {e : SourceUnit → Edit α} {f : α → Weave β} {Q : β → Prop}
    (h : ∀ v, x.Kept v → (e v).KeepsAt x.first x.Own v) (h' : ∀ a, x.Works (f a) Q) :
    x.Works (do f (← editing (e (← Weave.unit)))) Q := by
  refine takes_look fun v kept => takes_bind (takes_editing fun w same a w' done => ?_) fun a _ => h' a
  exact kept.trans (h v kept (same ▸ done))

/-- The type is registered anew. -/
theorem splices_type : x.Works (return [x.type] : Splice) fun ks =>
    ∀ k ∈ ks, k = x.type ∨ x.method? = some k :=
  takes_pure fun _ hk => .inl (List.mem_singleton.mp hk)

theorem splices_nothing : x.Splices (return []) := takes_pure nofun

theorem builds_nothing : x.Builds nothingToDo := builds_ok splices_nothing

theorem Begins.onMethod (begins : x.Begins h i) (own : i.method? x.unit = some m) :
    x.method? = some m ∧ (∀ n, x.first.node? m = some n → x.Own n.decl) ∧
      (x.first.node? m).isSome := by
  have same := begins.starts.method_eq own
  obtain ⟨n, node, -⟩ := (same ▸ begins.starts.seat).method_node
  exact ⟨same, fun n node => ⟨m, same, Registry.number_of_node node⟩, by rw [node]; rfl⟩

/-- The body of the method is replaced. -/
theorem works_replaceBody (begins : x.Begins h i) (own : i.method? x.unit = some m)
    (opens : Code.Opens cs) : x.Works (editing (.replaceBody m cs)) fun _ => True := by
  obtain ⟨-, mine, element⟩ := begins.onMethod own
  exact works_editing (Edit.keeps_replaceBody opens mine element)

theorem splices_method (begins : x.Begins h i) (own : i.method? x.unit = some m) :
    x.Works (return [m] : Splice) fun ks => ∀ k ∈ ks, k = x.type ∨ x.method? = some k :=
  takes_pure fun k hk => .inr (by rw [List.mem_singleton.mp hk]; exact (begins.onMethod own).1)

theorem builds_replacingBody (begins : x.Begins h i) (own : i.method? x.unit = some m)
    (opens : Code.Opens cs) : x.Builds (return replacingBody m cs) :=
  builds_ok (takes_bind (works_replaceBody begins own opens) fun _ _ => splices_method begins own)

/-- What is loose at first is loose as long as what stays is kept. -/
theorem loose_of_kept {v : SourceUnit} (kept : x.Kept v)
    (loose : ∀ n, x.unit.registry.node? c = some n → x.unit.Loose x.first n.decl) :
    ∀ n, v.registry.node? c = some n → v.Loose x.first n.decl := fun n node =>
  kept.persists.loose (loose n (kept.registry ▸ node))

variable {w : Weave β} {Q : β → Prop}

theorem steady_onAnno {name : String} {p : Int} {check : Invocation → AnnoUse → Weave (Option Build)}
    (h : ∀ {x i} (a : AnnoUse), Begins x (onAnno name p check) i → i.anno = some a →
      x.Leaves (check i a) x.Gives) : (onAnno name p check).Steady := by
  intro x i begins
  unfold onAnno
  dsimp only
  split
  · next a same => exact h a begins same
  · exact takes_pure gives_none

/-- A check that begins with looking for the method. -/
theorem leaves_onMethod {f : Key → Weave (Option Build)}
    (h : ∀ m, i.method? x.unit = some m → x.Leaves (f m) x.Gives) :
    x.Leaves (do match ← i.concreteMethod with | none => return none | some m => f m) x.Gives := by
  refine takes_bind i.takes_concreteMethod fun found own => ?_
  cases found with
  | none => exact takes_pure gives_none
  | some m => exact h m (own m rfl)

/-- A check that goes on only if nothing was found wrong. -/
theorem leaves_guard {f : β → Weave (Option Build)} (h : x.Leaves w Q)
    (h' : ∀ a, Q a → x.Leaves (f a) x.Gives) : x.Leaves (do
      let a ← w
      if !(← Invocation.sound) then return none
      f a) x.Gives := by
  refine takes_bind h fun a holds => takes_bind Invocation.takes_sound fun sound _ => ?_
  split
  · exact takes_pure gives_none
  · exact h' a holds

/-- A check that goes on only once for a method. -/
theorem leaves_onceGuard {key : String} {f : Weave (Option Build)} (begins : x.Begins h i)
    (own : i.method? x.unit = some m) (family : h.family? = some key) (next : x.Leaves f x.Gives) :
    x.Leaves (do if !(← Weave.once key m) then return none
                 f) x.Gives := by
  have listed : (key, x.unit.name m, x.unit.pos m) ∈ x.marks := by
    rw [begins.marks, Handler.marks, family, (begins.onMethod own).1]
    exact List.mem_singleton_self _
  refine takes_bind (takes_once listed) fun fresh _ => ?_
  split
  · exact takes_pure gives_none
  · exact next

end Rules

end Site

/-! ## The handlers -/

namespace Handler

open Site

variable {x : Site} {i : Invocation} {m : Key}

theorem steady_visibleForTesting : visibleForTesting.Steady := by
  refine steady_onAnno fun a begins _ => takes_same ?_
  split
  · exact Invocation.takes_refuse _ _ gives_none
  · exact takes_pure (gives_some builds_nothing)

theorem steady_autoGenMethodStub : autoGenMethodStub.Steady := by
  refine steady_onAnno fun a begins _ => takes_same ?_
  dsimp only
  split
  · exact Invocation.takes_stop _ _ gives_none
  · exact takes_pure (gives_some builds_nothing)

/-- A generator begins with the class of its iterator. -/
theorem opens_lowerBody {name : String} {elem : Code} {iterable : Bool} {cs body : List Code}
    (lowered : Generator.lowerBody name elem iterable cs = .ok body) : Code.Opens body := by
  unfold Generator.lowerBody at lowered
  cases compiled : Generator.compile cs with
  | error f =>
    rw [compiled] at lowered
    exact nomatch lowered
  | ok machine =>
    rw [compiled] at lowered
    rw [← Except.ok.inj lowered]
    exact Code.opens_cons Code.plain_classDecl

theorem steady_generator : generator.Steady := by
  intro x i begins
  refine takes_same ?_
  split
  · exact i.takes_stop _ gives_none
  · next m own =>
    split
    · exact i.takes_stop _ gives_none
    split
    · exact i.takes_stop _ gives_none
    refine takes_pure (gives_some (takes_same ?_))
    dsimp only
    split
    · next body lowered => exact builds_replacingBody begins own (opens_lowerBody lowered)
    · exact takes_throw _
    · exact builds_error _

theorem takes_readRethrown (i : Invocation) (as : List AnnoUse) :
    x.Leaves (readRethrown i as) fun _ => True := by
  induction as with
  | nil => exact takes_pure trivial
  | cons a as ih =>
    unfold readRethrown
    split
    · exact takes_bind ih fun _ _ => takes_pure trivial
    · exact takes_bind (i.takes_error _) fun _ _ => ih

theorem steady_rethrowing (name : String) : (rethrowing name).Steady := by
  refine steady_onAnno fun a begins _ => leaves_onMethod fun m own => ?_
  refine leaves_onceGuard begins own rfl (takes_same ?_)
  refine leaves_guard (takes_readRethrown _ _) fun rs _ => ?_
  exact takes_pure (gives_some (takes_same
    (builds_replacingBody begins own (Code.opens_cons Code.plain_tryCatch))))

/-- Checks throw if something holds. -/
theorem takes_checksOf (i : Invocation) (ps : List Key) :
    x.Leaves (checksOf i ps) fun cs => ∀ c ∈ cs, c.Plain := by
  have thrown (e : Code) (exception : String) (message : Code) :
      (throwIf e exception message).Plain := Code.plain_ifThen
  have plain (u : SourceUnit) (p : Key) (c : Checked) : ∀ d ∈ plainChecks u p c, d.Plain := by
    intro d hd
    rw [plainChecks] at hd
    split at hd
    · exact absurd hd List.not_mem_nil
    · rcases List.mem_append.mp hd with hd | hd
      · split at hd
        · rw [List.mem_singleton.mp hd]
          exact thrown _ _ _
        · exact absurd hd List.not_mem_nil
      · split at hd
        · simp only [List.mem_cons, List.not_mem_nil, or_false] at hd
          rcases hd with rfl | rfl <;> exact thrown _ _ _
        · exact absurd hd List.not_mem_nil
  induction ps with
  | nil => exact takes_pure (List.forall_mem_nil _)
  | cons p ps ih =>
    refine takes_same ?_
    dsimp only
    split
    · refine takes_bind ih fun cs later => takes_pure fun c hc => ?_
      exact (List.mem_append.mp hc).elim (plain _ _ _ c) (later c)
    · refine takes_bind (takes_memberText _ _) fun f _ => ?_
      split
      · refine takes_bind (i.takes_error _) fun _ _ => takes_bind ih fun cs later =>
          takes_pure fun c hc => ?_
        exact (List.mem_append.mp hc).elim (plain _ _ _ c) (later c)
      · refine takes_bind ih fun cs later => takes_pure fun c hc => ?_
        rcases List.mem_append.mp hc with hc | hc
        · exact plain _ _ _ c hc
        · rcases List.mem_cons.mp hc with rfl | hc
          · exact thrown _ _ _
          · exact later c hc

theorem steady_validating (name : String) : (validating name).Steady := by
  refine steady_onAnno fun a begins _ => leaves_onMethod fun m own => ?_
  refine leaves_onceGuard begins own rfl (takes_same ?_)
  refine leaves_guard (takes_checksOf _ _) fun checks plain => ?_
  refine takes_pure (gives_some ?_)
  split
  · exact builds_ok splices_nothing
  · next some_ =>
    exact takes_same (builds_replacingBody begins own
      (Code.opens_append (mt List.isEmpty_iff.mpr some_) plain))

theorem takes_sanitizedValue (i : Invocation) (u : SourceUnit) (p : Key) :
    x.Leaves (sanitizedValue i u p) fun _ => True := by
  unfold sanitizedValue
  dsimp only
  split
  · exact i.takes_stop _ trivial
  · refine takes_bind (takes_memberText _ _) fun f _ => ?_
    split
    · exact i.takes_refuse _ trivial
    · exact takes_pure trivial
  · refine takes_bind (takes_memberText _ _) fun f _ => ?_
    split
    · exact takes_pure trivial
    · exact i.takes_stop _ trivial
  · exact takes_pure trivial

theorem takes_copiesOf (i : Invocation) (ps : List Key) :
    x.Leaves (copiesOf i ps) fun _ => True := by
  induction ps with
  | nil => exact takes_pure trivial
  | cons p ps ih =>
    refine takes_same (takes_bind (takes_sanitizedValue i _ p) fun v _ => ?_)
    cases v with
    | none => exact ih
    | some v => exact takes_bind ih fun _ _ => takes_pure trivial

theorem steady_sanitizing (name : String) : (sanitizing name).Steady := by
  refine steady_onAnno fun a begins _ => leaves_onMethod fun m own => ?_
  refine leaves_onceGuard begins own rfl (takes_same ?_)
  refine leaves_guard (takes_copiesOf _ _) fun copies _ => ?_
  refine takes_pure (gives_some ?_)
  split
  · exact builds_ok splices_nothing
  · next some_ =>
    refine takes_same (builds_replacingBody begins own (Code.opens_append ?_ fun c hc => ?_))
    · exact mt List.map_eq_nil_iff.mp (mt List.isEmpty_iff.mpr some_)
    · obtain ⟨copy, -, rfl⟩ := List.mem_map.mp hc
      exact Code.plain_constant

theorem steady_onEventThread (name : String) (dispatch : Code → List Code → List Code) :
    (onEventThread name dispatch).Steady := by
  refine steady_onAnno fun a begins _ => leaves_onMethod fun m own => ?_
  refine takes_same ?_
  split
  · exact takes_pure (gives_some (takes_same
      (builds_replacingBody begins own (Code.opens_cons Code.plain_constant))))
  · exact Invocation.takes_refuse _ _ gives_none

theorem takes_sanitizedParams (i : Invocation) (ps : List Key) :
    x.Leaves (sanitizedParams i ps) fun ss => ∀ s ∈ ss, s.param ∈ ps := by
  refine takes_quiet ?_ (quiet_sanitizedParams i ps)
  induction ps with
  | nil => exact takes_pure trivial
  | cons p ps ih =>
    refine takes_same ?_
    split
    · exact ih
    · refine takes_bind (takes_memberText _ _) fun f _ => ?_
      dsimp only
      split
      · exact takes_bind (i.takes_error _) fun _ _ => ih
      · exact takes_bind ih fun _ _ => takes_pure trivial

theorem steady_doPrivileged : doPrivileged.Steady := by
  refine steady_onAnno fun a begins _ => leaves_onMethod fun m own => ?_
  refine takes_same (leaves_guard (takes_sanitizedParams _ _) fun ss among => ?_)
  refine takes_pure (gives_some (takes_same (builds_ok ?_)))
  refine takes_bind (takes_forIn (fun s hs _ => ?_) _) fun _ _ => ?_
  · have loose {v : SourceUnit} (kept : Site.Kept _ v) :=
      loose_of_kept kept (begins.starts.param own (among s hs))
    refine works_lookEdit (fun v kept => Edit.keepsAt_rename kept.persists.based (loose kept))
      fun _ => takes_bind (works_editAt fun v kept => ?_) fun _ _ => takes_pure trivial
    exact Edit.keepsAt_makeFinal kept.persists.based (loose kept)
  · refine takes_bind (works_replaceBody begins own ?_) fun _ _ => splices_method begins own
    unfold privilegedBody
    dsimp only
    cases ss with
    | nil => exact Code.opens_cons Code.plain_tryCatch
    | cons s ss => exact Code.opens_cons Code.plain_constant

theorem steady_doPrivilegedSanitizeWith : doPrivilegedSanitizeWith.Steady := by
  refine steady_onAnno fun a begins _ => takes_same ?_
  dsimp only
  split
  · exact takes_bind (Invocation.takes_error _ _) fun _ _ => takes_pure gives_none
  · exact takes_pure gives_none

theorem steady_singleton : Handler.singleton.Steady := by
  refine steady_onAnno fun {x i} a begins _ => takes_same ?_
  rw [begins.starts.type_eq]
  dsimp only
  split
  · exact i.takes_refuse _ gives_none
  split
  · exact i.takes_refuse _ gives_none
  split
  · exact i.takes_refuse _ gives_none
  refine takes_pure (gives_some (takes_same (builds_ok ?_)))
  refine takes_bind (works_editing (Edit.keeps_makeEnum _)) fun _ _ => ?_
  refine takes_bind (takes_forIn (fun c hc _ => ?_) _) fun _ _ => ?_
  · have loose {v : SourceUnit} (kept : Site.Kept x v) :=
      loose_of_kept kept (begins.starts.method (List.mem_of_mem_filter hc))
    refine works_lookEdit (fun v kept => ?_) fun _ => takes_pure trivial
    refine Edit.keepsAt_setModifiers kept.persists.based (loose kept) ?_
    rintro b (rfl | rfl) <;> rfl
  refine takes_bind (takes_forIn (fun g _ _ => ?_) _) fun _ _ => splices_type
  exact takes_bind (works_editing (Edit.keeps_injectMethod g)) fun _ _ => takes_pure trivial

theorem steady_entrypoints (name : String) (es : List Entrypoint) :
    (entrypoints name es).Steady := by
  intro x i begins
  refine takes_same ?_
  rw [begins.starts.type_eq]
  dsimp only
  split
  · exact i.takes_refuse _ gives_none
  refine takes_pure (gives_some (takes_same (builds_ok ?_)))
  refine takes_bind (takes_forIn (fun e _ _ => ?_) _) fun _ _ => splices_type
  exact takes_bind (works_editing (Edit.keeps_injectMethod _)) fun _ _ => takes_pure trivial

theorem steady_builder : builder.Steady := by
  refine steady_onAnno fun {x i} a begins _ => takes_same ?_
  rw [begins.starts.type_eq]
  dsimp only
  split
  · exact i.takes_refuse _ gives_none
  split
  · exact i.takes_stop _ gives_none
  split
  · exact i.takes_stop _ gives_none
  split
  · exact takes_bind (i.takes_warn _) fun _ _ => takes_pure gives_none
  refine takes_pure (gives_some (takes_same (builds_ok ?_)))
  refine takes_bind (takes_forIn (fun f _ _ => ?_) _) fun _ _ => ?_
  · split
    · exact takes_bind (works_editing Edit.keeps_removeInitializer) fun _ _ => takes_pure trivial
    · exact takes_pure trivial
  have members (c : Code) : x.Works (editing (.injectMember x.type c)) fun _ => True :=
    works_editing (Edit.keeps_injectMember c)
  refine takes_bind (works_editing (Edit.keeps_injectMethod _)) fun _ _ => ?_
  refine takes_bind (works_editing (Edit.keeps_injectMethod _)) fun _ _ => ?_
  refine takes_bind (takes_forIn (fun d _ _ => ?_) _) fun _ _ => ?_
  · exact takes_bind (members d) fun _ _ => takes_pure trivial
  exact takes_bind (members _) fun _ _ => splices_type

/-! ### Locks -/

theorem takes_readWritePlan (i : Invocation) (a : AnnoUse) (half : String) :
    x.Leaves (readWritePlan i a half) fun _ => True := by
  refine takes_bind (takes_memberText a "value") fun text _ => ?_
  dsimp only
  split
  · exact i.takes_refuse _ trivial
  · exact takes_pure trivial

theorem takes_conditionPlan (i : Invocation) (said : Except String Conditions) :
    x.Leaves (conditionPlan i said) fun _ => True := by
  unfold conditionPlan
  split
  · exact i.takes_stop _ trivial
  · dsimp only
    split
    · exact i.takes_refuse _ trivial
    · exact takes_pure trivial

theorem steady_locking {name : String} {plan : Invocation → AnnoUse → Weave (Option LockPlan)}
    (plans : ∀ {x : Site} (i : Invocation) (a : AnnoUse), x.Leaves (plan i a) fun _ => True) :
    (locking name plan).Steady := by
  refine steady_onAnno fun {x i} a begins _ => leaves_onMethod fun m own => ?_
  refine takes_bind (plans i a) fun p? _ => ?_
  cases p? with
  | none => exact takes_pure gives_none
  | some p =>
    refine takes_same ?_
    rw [begins.starts.type_eq]
    refine takes_pure (gives_some (takes_same (builds_ok ?_)))
    refine takes_bind (takes_forIn (fun f _ _ => ?_) _) fun _ _ => ?_
    · exact takes_bind (works_editing (Edit.keeps_injectField f)) fun _ _ => takes_pure trivial
    have opens : Code.Opens (p.wrap (x.unit.statements m .none)) :=
      Code.opens_cons (Code.plain_invoke ⟨by decide, by decide⟩)
    refine takes_bind (works_replaceBody begins own opens) fun _ _ => ?_
    split
    · exact takes_bind (works_editing (Edit.keeps_addThrown _)) fun _ _ => splices_type
    · exact splices_type

/-! ### Setters -/

theorem takes_inject (a : Additions) : x.Works (a.inject x.type) fun _ => True := by
  refine takes_bind (takes_forIn (fun f _ _ => ?_) _) fun _ _ => ?_
  · exact takes_bind (works_editing (Edit.keeps_injectField f)) fun _ _ => takes_pure trivial
  refine takes_bind (takes_forIn (fun c _ _ => ?_) _) fun _ _ => takes_pure trivial
  exact takes_bind (works_editing (Edit.keeps_injectMethod c)) fun _ _ => takes_pure trivial

theorem steady_boundPropertySupport : boundPropertySupport.Steady := by
  refine steady_onAnno fun {x i} a begins _ => takes_same ?_
  rw [begins.starts.type_eq]
  dsimp only
  split
  · exact i.takes_refuse _ gives_none
  refine takes_pure (gives_some (takes_same (builds_ok ?_)))
  exact takes_bind (takes_inject _) fun _ _ => splices_type

theorem takes_setterFields (s : SetterStyle) (i : Invocation) (t : Key) :
    x.Leaves (setterFields s i t) fun _ => True := by
  refine takes_same ?_
  split
  · dsimp only
    split
    · exact takes_pure trivial
    · exact takes_bind (i.takes_warn _) fun _ _ => takes_pure trivial
  · split
    · exact takes_pure trivial
    · exact i.takes_refuse _ trivial
  · exact i.takes_refuse _ trivial

theorem steady_setting (s : SetterStyle) : (setting s).Steady := by
  refine steady_onAnno fun {x i} a begins _ => ?_
  split
  · exact i.takes_stop _ gives_none
  dsimp only
  split
  · exact takes_pure gives_none
  refine takes_same ?_
  rw [begins.starts.type_eq]
  refine takes_bind (takes_setterFields s i _) fun fields? _ => ?_
  cases fields? with
  | none => exact takes_pure gives_none
  | some fields =>
    refine takes_pure (gives_some (takes_same (builds_ok ?_)))
    refine takes_bind (takes_forIn (fun a _ _ => ?_) _) fun _ _ => splices_type
    exact takes_bind (takes_inject a) fun _ _ => takes_pure trivial

/-- **What stays of types and methods.** All handlers before those that make function objects keep it. -/
theorem steady_standard {h : Handler} (member : h ∈ standard)
    (early : h.priority < Priority.function) : h.Steady := by
  have listed := (List.mergeSort_perm _ _).mem_iff.mp member
  simp only [List.mem_cons, List.not_mem_nil, or_false] at listed
  rcases listed with rfl | rfl | rfl | rfl | rfl | rfl | rfl | rfl | rfl | rfl | rfl | rfl | rfl |
    rfl | rfl | rfl | rfl | rfl | rfl | rfl | rfl | rfl | rfl | rfl | rfl | rfl | rfl | rfl | rfl |
    rfl
  · exact steady_autoGenMethodStub
  · exact steady_visibleForTesting
  · exact steady_entrypoints _ _
  · exact steady_entrypoints _ _
  · exact steady_singleton
  · exact steady_builder
  · exact steady_boundPropertySupport
  · exact steady_setting _
  · exact steady_setting _
  · exact steady_generator
  · exact steady_locking fun i a => takes_readWritePlan i a _
  · exact steady_locking fun i a => takes_readWritePlan i a _
  · exact steady_locking fun i a => takes_conditionPlan i _
  · exact steady_locking fun i a => takes_conditionPlan i _
  · exact steady_locking fun i a => takes_conditionPlan i _
  · exact steady_onEventThread _ _
  · exact steady_onEventThread _ _
  · exact steady_doPrivileged
  · exact steady_doPrivilegedSanitizeWith
  · exact steady_sanitizing _
  · exact steady_sanitizing _
  · exact steady_sanitizing _
  · exact steady_validating _
  · exact steady_validating _
  · exact steady_validating _
  · exact steady_validating _
  · exact steady_rethrowing _
  · exact steady_rethrowing _
  · exact absurd early (by decide)
  · exact absurd early (by decide)

end Handler

/-! ## Whole runs -/

section Whole

variable {r : Registry} {own : Nat → Prop} {x : Site} {h : Handler} {i : Invocation} {b b' : Bench}

/-- Elements are registered anew, one after the other. -/
theorem Bench.persists_rebuilt {keys : List Key} (own : Nat → Prop)
    (inner : ∀ k ∈ keys, ∃ n, r.node? k = some n ∧ n.kind ≠ .unit) (based : b.unit.Based r) :
    b.unit.Persists r own (keys.foldl Bench.rebuilt b).unit ∧
      (keys.foldl Bench.rebuilt b).done = b.done := by
  induction keys generalizing b with
  | nil => exact ⟨.refl based, rfl⟩
  | cons k keys ih =>
    obtain ⟨n, element, kind⟩ := inner k List.mem_cons_self
    have first : b.unit.Persists r own (b.rebuilt k).unit := based.register element kind
    obtain ⟨later, same⟩ := ih (fun k hk => inner k (List.mem_cons_of_mem _ hk)) first.based
    exact ⟨first.trans later, same⟩

/-- **What a run does.** It keeps what stays of types and methods but the body of its own method, and
notes nothing but what its handler notes as done for that method. -/
theorem Handler.Ran.steady (ran : h.Ran i b (.ok ()) b') (steady : h.Steady) (begins : x.Begins h i)
    (same : b.unit = x.unit) :
    x.unit.Persists x.first x.Own b'.unit ∧ b.Marks x.marks b' := by
  have check := steady begins
  have entered : b.entered.unit = x.unit := same
  have start : b.Marks x.marks b.entered := .of_eq rfl
  cases ran with
  | stopped stops =>
    obtain ⟨same', marks, -⟩ := check entered stops
    exact ⟨by rw [same']; exact .refl begins.based, start.trans marks⟩
  | @failed build message b₁ b₂ goes built =>
    obtain ⟨same₁, marks₁, builds⟩ := check entered goes
    obtain ⟨same₂, marks₂, -⟩ := builds _ rfl same₁ built
    have blamed : (b₂.blamed i message).unit = x.unit := same₂
    exact ⟨by rw [blamed]; exact .refl begins.based,
      (start.trans marks₁).trans (marks₂.trans (.of_eq rfl))⟩
  | @spliced build splice keys b₁ b₂ b₃ goes built changed =>
    obtain ⟨same₁, marks₁, builds⟩ := check entered goes
    obtain ⟨same₂, marks₂, splices⟩ := builds _ rfl same₁ built
    have attributed : x.Kept (b₂.attributed i).unit := by
      rw [Site.Kept, ← same₂]
      exact ⟨(same₂ ▸ begins.based).persists_same rfl rfl rfl Nat.le.refl, rfl⟩
    obtain ⟨kept, marks₃, listed⟩ := splices _ rfl attributed changed
    have inner : ∀ k ∈ keys, ∃ n, x.first.node? k = some n ∧ n.kind ≠ .unit := by
      intro k hk
      rcases listed k hk with rfl | method
      · obtain ⟨n, node, kind⟩ := begins.starts.seat.type_node
        exact ⟨n, node, by rw [kind]; exact nofun⟩
      · obtain ⟨n, node, kind, -⟩ := (method ▸ begins.starts.seat).method_node
        exact ⟨n, node, by rw [kind]; exact nofun⟩
    obtain ⟨rebuilt, done⟩ := Bench.persists_rebuilt x.Own inner kept.persists.based
    have before : b₂.Marks x.marks (b₂.attributed i) := .of_eq rfl
    have after : b₃.Marks x.marks (keys.foldl Bench.rebuilt b₃) := .of_eq done
    have built := start.trans (marks₁.trans marks₂)
    exact ⟨kept.persists.trans rebuilt, built.trans (before.trans (marks₃.trans after))⟩

end Whole

end Weaver
