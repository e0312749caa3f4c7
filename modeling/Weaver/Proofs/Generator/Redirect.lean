import Weaver.Proofs.Generator.Execution
import Weaver.Proofs.Generator.Everywhere
/-!
Redirecting the jumps of a statement that is kept whole.

`Redirected` says what `keepStatement` makes of a statement, jump by jump: a jump that stays inside
is left alone, a jump that leaves becomes a change of the state and a `continue` of the dispatch
loop. The relation is indexed by a `Reach`, which knows where the jumps of a place go.

One thing can go wrong. The number of the next state is kept in one field. A leaving jump that is on
its way out has set it, and a `finally` block that it passes may set it again for a leaving jump of
its own; if that second jump is then revoked, by a jump of a `finally` block inside the first one,
the first jump goes on with the number of the second. `revokes` finds the statements in which this
can happen, and the relation rules them out by the jumps that it calls safe.
-/
set_option autoImplicit false

namespace Weaver.Generator

/-! ## Where jumps go -/

namespace Jump

/-- A loop ends it. -/
def inLoop : Jump → Bool
  | brk l | cont l => l.isEmpty
  | ret => false

/-- A `switch` ends it. -/
def inSwitch : Jump → Bool
  | brk l => l.isEmpty
  | _ => false

/-- A statement with the label ends it. -/
def inLabel (label : String) : Jump → Bool
  | brk l | cont l => !l.isEmpty && l == label
  | ret => false

end Jump

/-- The jump that a statement is. -/
def jumpOf : Code → Option Jump
  | .breaking l => some (.brk l)
  | .continuing l => some (.cont l)
  | .returnDefault => some .ret
  | .returning e => if e.isMissing then some .ret else none
  | _ => none

mutual

/-- The jumps that leave a statement. Those of `catch` clauses are none of them, since nothing is
thrown. -/
def exits : Code → List Jump
  | .breaking l => [.brk l]
  | .continuing l => [.cont l]
  | .returning _ | .returnDefault => [.ret]
  | .block ss | .switchCase _ ss => exitsAll ss
  | .ifThen _ y n => exits y ++ exits n
  | .whileLoop _ b | .doLoop b _ | .forLoop _ _ _ b | .foreach _ _ b =>
    (exits b).filter fun j => !j.inLoop
  | .switchOn _ cs => (exitsAll cs).filter fun j => !j.inSwitch
  | .labeled l b => (exits b).filter fun j => !j.inLabel l
  | .synchronizedOn _ b => exits b
  | .tryCatch b _ f => exits b ++ exits f
  | _ => []

/-- The jumps that leave one of the statements. -/
def exitsAll : List Code → List Jump
  | [] => []
  | s :: ss => exits s ++ exitsAll ss

end

/-- What is around a statement ends the jump. -/
def staysIn (a : Around) (labels : List String) : Jump → Bool
  | .brk l => if l.isEmpty then a.loop || a.switch else labels.contains l
  | .cont l => if l.isEmpty then a.loop else labels.contains l
  | .ret => false

/-- How the jump leaves the kept statement. Out of a loop inside it nothing leaves. -/
def leavesAs (a : Around) (j : Jump) : Option Leave :=
  if a.loop then none
  else match j with
    | .ret => some .finish
    | .brk l => if l.isEmpty && !a.switch then some .exit else none
    | .cont l => if l.isEmpty then some .next else none

/-- A jump that leaves the kept statement is in it. -/
def leaves (a : Around) (s : Code) : Bool :=
  (exits s).any fun j => (leavesAs a j).isSome

/-- What is around a place inside the `finally` block of a `try` statement that is left. -/
abbrev Inner := Option (Around × List String)

namespace Inner

/-- A jump from the place stays inside the `finally` block. -/
def ends (i : Inner) (j : Jump) : Bool :=
  match i with
  | some (a, labels) => staysIn a labels j
  | none => false

def inLoop (i : Inner) : Inner := i.map fun (a, ls) => (a.inLoop, ls)

def inSwitch (i : Inner) : Inner := i.map fun (a, ls) => (a.inSwitch, ls)

def inLabel (l : String) (i : Inner) : Inner := i.map fun (a, ls) => (a, l :: ls)

/-- The place is inside a `finally` block now. -/
def closing (i : Inner) : Inner := some (i.getD (.nothing, []))

end Inner

mutual

/-- In a `finally` block that a leaving jump passes, another leaving jump can be revoked: it passes
a `finally` block inside the first one, and a jump from there stays inside the first one. -/
def revokes (a : Around) (i : Inner) : Code → Bool
  | .block ss | .switchCase _ ss => revokesAny a i ss
  | .ifThen _ y n => revokes a i y || revokes a i n
  | .whileLoop _ b | .doLoop b _ | .forLoop _ _ _ b | .foreach _ _ b => revokes a.inLoop i.inLoop b
  | .switchOn _ cs => revokesAny a.inSwitch i.inSwitch cs
  | .labeled l b => revokes a (i.inLabel l) b
  | .synchronizedOn _ b => revokes a i b
  | .tryCatch b _ f =>
    revokes a i b ||
      if leaves a b then (exits f).any i.ends || revokes a i.closing f else revokes a i f
  | _ => false

/-- It can be revoked in one of the statements. -/
def revokesAny (a : Around) (i : Inner) : List Code → Bool
  | [] => false
  | s :: ss => revokes a i s || revokesAny a i ss

end

/-- Where the jumps of a place in a kept statement go. -/
structure Reach where
  /-- Jumps that may be made and stay inside the kept statement. -/
  stay : Jump → Prop
  /-- Jumps that stay inside it and leave every `finally` block around. -/
  safe : Jump → Prop
  /-- The states to which leaving jumps go. -/
  leave : Jump → Option Nat
  /-- There is a `finally` block around that a leaving jump may be passing. -/
  pending : Bool
  stay_of_safe : ∀ j, safe j → stay j

namespace Reach

/-- Some jumps are ended by a statement around the place. -/
def ending (p : Jump → Bool) (C : Reach) : Reach where
  stay j := p j ∨ C.stay j
  safe j := if C.pending then C.safe j ∧ ¬ p j else p j ∨ C.safe j
  leave j := if p j then none else C.leave j
  pending := C.pending
  stay_of_safe j h := by
    split at h
    · exact .inr (C.stay_of_safe j h.1)
    · exact h.imp id (C.stay_of_safe j)

/-- Nothing may leave from the place. -/
def sealed (C : Reach) : Reach := { C with leave := fun _ => none }

def inLoop (C : Reach) : Reach := (C.ending Jump.inLoop).sealed

def inSwitch (C : Reach) : Reach := C.ending Jump.inSwitch

def inLabel (l : String) (C : Reach) : Reach := C.ending (Jump.inLabel l)

/-- The place is in a `finally` block that a leaving jump may be passing. -/
def closing (C : Reach) : Reach :=
  { C with stay := C.safe, pending := true, stay_of_safe := fun _ => id }

end Reach

/-! ## The relation -/

/-- Statements whose execution consists of that of their parts, and jumps. -/
def isControl : Code → Bool
  | .block _ | .switchCase .. | .ifThen .. | .whileLoop .. | .doLoop .. | .forLoop .. | .foreach ..
  | .switchOn .. | .labeled .. | .synchronizedOn .. | .tryCatch .. | .breaking _ | .continuing _
  | .returnDefault | .returning _ => true
  | _ => false

/-- The variables that a piece of code itself is about. -/
def mentioned : Code → List String
  | .named x => [x]
  | .localDecl _ x _ _ _ => [x]
  | _ => []

/-- No name of the list occurs in the code. -/
def Fresh (names : List String) (c : Code) : Prop :=
  Everywhere (fun d => ∀ x ∈ mentioned d, x ∉ names) c

instance (names : List String) (c : Code) : Decidable (Fresh names c) :=
  inferInstanceAs (Decidable (Everywhere _ c))

mutual

/-- The second statement does what the first one does, with the leaving jumps replaced. -/
inductive Redirected (hidden : List String) : Reach → Code → Code → Prop where
  | leaves {C : Reach} {s : Code} {j : Jump} {n : Nat} (hj : jumpOf s = some j)
      (hn : C.leave j = some n) : Redirected hidden C s (.block (goTo n))
  | stays {C : Reach} {s : Code} {j : Jump} (hj : jumpOf s = some j) (hs : C.stay j) :
      Redirected hidden C s s
  | plain {C : Reach} {s : Code} (hs : isControl s = false) (hy : isYield s = false)
      (hf : Fresh hidden s) : Redirected hidden C s s
  | catchClause {C : Reach} {v b b' : Code} :
      Redirected hidden C (.catchClause v b) (.catchClause v b')
  | block {C : Reach} {ss ss' : List Code} (h : RedirectedAll hidden C ss ss') :
      Redirected hidden C (.block ss) (.block ss')
  | switchCase {C : Reach} {p : Code} {ss ss' : List Code} (h : RedirectedAll hidden C ss ss') :
      Redirected hidden C (.switchCase p ss) (.switchCase p ss')
  | ifThen {C : Reach} {c y n y' n' : Code} (hc : Fresh hidden c) (hy : Redirected hidden C y y')
      (hn : Redirected hidden C n n') : Redirected hidden C (.ifThen c y n) (.ifThen c y' n')
  | whileLoop {C : Reach} {c b b' : Code} (hc : Fresh hidden c)
      (hb : Redirected hidden C.inLoop b b') :
      Redirected hidden C (.whileLoop c b) (.whileLoop c b')
  | doLoop {C : Reach} {c b b' : Code} (hc : Fresh hidden c)
      (hb : Redirected hidden C.inLoop b b') : Redirected hidden C (.doLoop b c) (.doLoop b' c)
  | forLoop {C : Reach} {i u : List Code} {c b b' : Code} (hi : RedirectedAll hidden C i i)
      (hc : Fresh hidden c) (hu : RedirectedAll hidden C u u)
      (hb : Redirected hidden C.inLoop b b') :
      Redirected hidden C (.forLoop i c u b) (.forLoop i c u b')
  | foreach {C : Reach} {v e b b' : Code} (hv : Fresh hidden v) (he : Fresh hidden e)
      (hb : Redirected hidden C.inLoop b b') :
      Redirected hidden C (.foreach v e b) (.foreach v e b')
  | switchOn {C : Reach} {e : Code} {cs cs' : List Code} (he : Fresh hidden e)
      (hcs : RedirectedAll hidden C.inSwitch cs cs') :
      Redirected hidden C (.switchOn e cs) (.switchOn e cs')
  | labeled {C : Reach} {l : String} {b b' : Code} (hb : Redirected hidden (C.inLabel l) b b') :
      Redirected hidden C (.labeled l b) (.labeled l b')
  | synchronizedOn {C : Reach} {e b b' : Code} (he : Fresh hidden e)
      (hb : Redirected hidden C b b') :
      Redirected hidden C (.synchronizedOn e b) (.synchronizedOn e b')
  | tryOpen {C : Reach} {b b' f f' : Code} {cs cs' : List Code} (hb : Redirected hidden C b b')
      (hf : Redirected hidden C.closing f f') :
      Redirected hidden C (.tryCatch b cs f) (.tryCatch b' cs' f')
  | trySealed {C : Reach} {b b' f f' : Code} {cs cs' : List Code}
      (hb : Redirected hidden C.sealed b b') (hf : Redirected hidden C f f') :
      Redirected hidden C (.tryCatch b cs f) (.tryCatch b' cs' f')

/-- The same for statements one after the other. -/
inductive RedirectedAll (hidden : List String) : Reach → List Code → List Code → Prop where
  | nil {C : Reach} : RedirectedAll hidden C [] []
  | cons {C : Reach} {s s' : Code} {ss ss' : List Code} (h : Redirected hidden C s s')
      (hs : RedirectedAll hidden C ss ss') : RedirectedAll hidden C (s :: ss) (s' :: ss')

end

/-! ## The jumps that are found, and where they go -/

/-- The state that the targets give for a way to leave. -/
def Targets.of (t : Targets) : Leave → Option Nat
  | .finish => some t.finish
  | .exit => t.loop.map (·.1)
  | .next => t.loop.map (·.2)

/-- A reach agrees with what redirecting knows at a place: the statements around it, the labels, the
place inside a `finally` block, and the ways to leave that occur. Only some jumps are made there. -/
structure Fits (t : Targets) (ways : List Leave) (a : Around) (labels : List String) (i : Inner)
    (js : List Jump) (C : Reach) : Prop where
  stay : ∀ j ∈ js, staysIn a labels j = true → C.stay j
  leave : ∀ j ∈ js, ∀ k ∈ ways, leavesAs a j = some k → C.leave j = t.of k
  safe : ∀ j, staysIn a labels j = true → i.ends j = false → C.safe j
  pending : C.pending = i.isSome

namespace Fits

variable {t : Targets} {ways : List Leave} {a : Around} {labels : List String} {i : Inner}
  {js : List Jump} {C : Reach}

theorem mono (h : Fits t ways a labels i js C) {js' : List Jump} (hj : ∀ j ∈ js', j ∈ js)
    {labels' : List String} (hl : ∀ l ∈ labels', l ∈ labels) : Fits t ways a labels' i js' C := by
  have hs : ∀ j, staysIn a labels' j = true → staysIn a labels j = true := by
    intro j
    cases j with
    | brk l | cont l =>
      simp only [staysIn]
      split
      · exact id
      · simpa using hl l
    | ret => exact id
  exact ⟨fun j hm hst => h.stay j (hj j hm) (hs j hst), fun j hm => h.leave j (hj j hm),
    fun j hst => h.safe j (hs j hst), h.pending⟩

/-- A statement that ends some jumps is put around the place. -/
theorem ending {p : Jump → Bool} {a' : Around} {labels' : List String} {i' : Inner}
    (h : Fits t ways a labels i (js.filter fun j => !p j) C)
    (hstay : ∀ j, p j = false → staysIn a' labels' j = staysIn a labels j)
    (hends : ∀ j, p j = false → i'.ends j = i.ends j)
    (hin : ∀ j, p j = true → i.isSome = true → i'.ends j = true)
    (hleave : ∀ j k, leavesAs a' j = some k → p j = false ∧ leavesAs a j = some k)
    (hsome : i'.isSome = i.isSome) : Fits t ways a' labels' i' js (C.ending p) := by
  have kept : ∀ j ∈ js, p j = false → j ∈ js.filter fun j => !p j := by
    intro j hm hj
    exact List.mem_filter.mpr ⟨hm, by simp [hj]⟩
  refine ⟨?_, ?_, ?_, h.pending.trans hsome.symm⟩
  · intro j hm hst
    cases hj : p j with
    | true => exact .inl hj
    | false =>
      rw [hstay j hj] at hst
      exact .inr (h.stay j (kept j hm hj) hst)
  · intro j hm k hw hk
    obtain ⟨hj, hk⟩ := hleave j k hk
    simp only [Reach.ending, hj]
    exact h.leave j (kept j hm hj) k hw hk
  · intro j hst he
    simp only [Reach.ending, h.pending]
    cases hj : p j with
    | true =>
      -- inside a `finally` block the jump would end there
      cases hi : i.isSome with
      | true => rw [hin j hj hi] at he; cases he
      | false => simp
    | false =>
      rw [hstay j hj] at hst
      rw [hends j hj] at he
      have := h.safe j hst he
      split <;> simp [this]

/-- Nothing leaves from the place. -/
theorem sealed (h : Fits t ways a labels i js C) (hn : ∀ j ∈ js, leavesAs a j = none) :
    Fits t ways a labels i js C.sealed := by
  refine ⟨h.stay, ?_, h.safe, h.pending⟩
  intro j hm k _ hk
  rw [hn j hm] at hk
  cases hk

theorem inLoop (h : Fits t ways a labels i (js.filter fun j => !j.inLoop) C) :
    Fits t ways a.inLoop labels i.inLoop js C.inLoop := by
  have out : ∀ (a : Around) (labels : List String) (j : Jump), j.inLoop = false →
      staysIn a.inLoop labels j = staysIn a labels j := by
    intro a labels j hj
    cases j <;> simp_all [staysIn, Jump.inLoop]
  have inn : ∀ (a : Around) (labels : List String) (j : Jump), j.inLoop = true →
      staysIn a.inLoop labels j = true := by
    intro a labels j hj
    cases j <;> simp_all [staysIn, Jump.inLoop, Around.inLoop]
  have none_leaves : ∀ j, leavesAs a.inLoop j = none := fun j => by
    simp [leavesAs, Around.inLoop]
  refine sealed (h.ending (out a labels) ?_ ?_ ?_ ?_) fun j _ => none_leaves j
  · intro j hj
    cases i <;> simp [Inner.ends, Inner.inLoop, out _ _ j hj]
  · intro j hj hi
    cases i with
    | none => cases hi
    | some x => exact inn _ _ j hj
  · intro j k hk
    rw [none_leaves] at hk
    cases hk
  · cases i <;> rfl

theorem inSwitch (h : Fits t ways a labels i (js.filter fun j => !j.inSwitch) C) :
    Fits t ways a.inSwitch labels i.inSwitch js C.inSwitch := by
  have out : ∀ (a : Around) (labels : List String) (j : Jump), j.inSwitch = false →
      staysIn a.inSwitch labels j = staysIn a labels j := by
    intro a labels j hj
    cases j <;> simp_all [staysIn, Jump.inSwitch, Around.inSwitch]
  have inn : ∀ (a : Around) (labels : List String) (j : Jump), j.inSwitch = true →
      staysIn a.inSwitch labels j = true := by
    intro a labels j hj
    cases j <;> simp_all [staysIn, Jump.inSwitch, Around.inSwitch]
  refine h.ending (out a labels) ?_ ?_ ?_ ?_
  · intro j hj
    cases i <;> simp [Inner.ends, Inner.inSwitch, out _ _ j hj]
  · intro j hj hi
    cases i with
    | none => cases hi
    | some x => exact inn _ _ j hj
  · intro j k hk
    cases j with
    | ret => exact ⟨rfl, hk⟩
    | brk l | cont l => simp_all [leavesAs, Around.inSwitch, Jump.inSwitch]
  · cases i <;> rfl

theorem inLabel {l : String} (h : Fits t ways a labels i (js.filter fun j => !j.inLabel l) C) :
    Fits t ways a (l :: labels) (i.inLabel l) js (C.inLabel l) := by
  have out : ∀ (a : Around) (labels : List String) (j : Jump), j.inLabel l = false →
      staysIn a (l :: labels) j = staysIn a labels j := by
    intro a labels j hj
    cases j with
    | brk l' | cont l' =>
      simp only [Jump.inLabel] at hj
      simp only [staysIn]
      split
      · rfl
      · simp_all
    | ret => rfl
  have inn : ∀ (a : Around) (labels : List String) (j : Jump), j.inLabel l = true →
      staysIn a (l :: labels) j = true := by
    intro a labels j hj
    cases j with
    | brk l' | cont l' =>
      simp only [Jump.inLabel, Bool.and_eq_true, Bool.not_eq_true', beq_iff_eq] at hj
      simp only [staysIn, hj.1]
      simp [hj.2]
    | ret => cases hj
  refine h.ending (out a labels) ?_ ?_ ?_ ?_
  · intro j hj
    cases i <;> simp [Inner.ends, Inner.inLabel, out _ _ j hj]
  · intro j hj hi
    cases i with
    | none => cases hi
    | some x => exact inn _ _ j hj
  · intro j k hk
    cases j with
    | brk l' | cont l' =>
      simp only [leavesAs] at hk
      split at hk
      · cases hk
      · rename_i hl
        split at hk <;> simp_all [Jump.inLabel, leavesAs]
    | ret => exact ⟨rfl, hk⟩
  · cases i <;> rfl

/-- The `finally` block of a statement that is left. Its own jumps are safe. -/
theorem closing (h : Fits t ways a labels i js C) (hj : ∀ j ∈ js, i.ends j = false) :
    Fits t ways a labels i.closing js C.closing := by
  refine ⟨fun j hm hst => h.safe j hst (hj j hm), h.leave, ?_, rfl⟩
  intro j hst he
  refine h.safe j hst ?_
  cases i with
  | none => rfl
  | some x => exact he

end Fits

/-! ## What redirecting gives -/

/-- The first and last parts of a `for` loop are statements without control flow. -/
def plainHead : Code → Bool
  | .forLoop i _ u _ => (i ++ u).all fun s => !isControl s
  | _ => true

/-- What a kept statement has to satisfy at every place. -/
def Keepable (hidden : List String) (d : Code) : Prop :=
  (∀ x ∈ mentioned d, x ∉ hidden) ∧ plainHead d = true ∧ isYield d = false

theorem fresh_of_keepable {hidden : List String} {c : Code}
    (h : Everywhere (Keepable hidden) c) : Fresh hidden c :=
  fun d hd => (h d hd).1

theorem Redirected.of_plain {hidden : List String} {C : Reach} {s : Code}
    (h : Everywhere (Keepable hidden) s) (hs : isControl s = false) : Redirected hidden C s s := by
  refine .plain hs ?_ (fresh_of_keepable h)
  by_cases hm : s = .missing
  · rw [hm]; rfl
  · exact (h.top hm).2.2

theorem RedirectedAll.of_plain {hidden : List String} {C : Reach} {ss : List Code}
    (h : ∀ s ∈ ss, Everywhere (Keepable hidden) s) (hs : ∀ s ∈ ss, isControl s = false) :
    RedirectedAll hidden C ss ss := by
  induction ss with
  | nil => exact .nil
  | cons s ss ih =>
    simp only [List.forall_mem_cons] at h hs
    exact .cons (.of_plain h.1 hs.1) (ih h.2 hs.2)

namespace Kept

/-- A step of redirecting that succeeds consists of two that succeed. -/
theorem run_bind {α β : Type} {m : Redirector α} {f : α → Redirector β} {found : Found}
    {r : β × Found} :
    (m >>= f).run found = .ok r ↔
      ∃ x, m.run found = .ok x ∧ (f x.1).run x.2 = .ok r := by
  rw [StateT.run_bind]
  cases h : m.run found with
  | error e => simp [bind, Except.bind]
  | ok x => simp [bind, Except.bind]

theorem run_modify {f : Found → Found} {found : Found} {r : Unit × Found} :
    (modify f : Redirector Unit).run found = .ok r ↔ ((), f found) = r := by
  change Except.ok ((), f found) = Except.ok r ↔ _
  rw [Except.ok.injEq]

theorem run_pure {α : Type} {x : α} {found : Found} {r : α × Found} :
    (pure x : Redirector α).run found = .ok r ↔ (x, found) = r := by
  change Except.ok (x, found) = Except.ok r ↔ _
  rw [Except.ok.injEq]

end Kept

/-- What is known when redirecting succeeded: it succeeds with other states for the same targets as
well, it finds the same, and its result is redirected wherever the jumps go where it took them to
go. -/
structure Redirects {α : Type} (t' : Targets) (a : Around) (found found' : Kept.Found)
    (again : Kept.Redirector α) (sound : Prop) (revoked : Inner → Bool) (js : List Jump)
    (related : Reach → α → Prop) : Prop where
  labels : ∀ l ∈ found'.labels, l ∈ found.labels
  ways : ∀ k ∈ found.leaves, k ∈ found'.leaves
  again : ∃ r', again.run found = .ok (r', found') ∧
    (sound → ∀ C i ways, revoked i = false → (∀ k ∈ found'.leaves, k ∈ ways) →
      Fits t' ways a found.labels i js C → related C r')

namespace Redirects

variable {hidden : List String} {t t' : Targets} {construct : String} {a : Around}
  {found found' : Kept.Found}

/-- A statement that is left as it is. -/
theorem unchanged {s : Code} {sound : Prop} {revoked : Inner → Bool} {js : List Jump}
    {related : Reach → Code → Prop} (hs : sound → ∀ C, related C s) :
    Redirects t' a found found (pure s) sound revoked js related :=
  ⟨fun _ => id, fun _ => id, s, Kept.run_pure.mpr rfl, fun h C _ _ _ _ _ => hs h C⟩

/-- A jump that is left as it is. -/
theorem stays {s : Code} {j : Jump} {sound : Prop} {revoked : Inner → Bool} (hj : jumpOf s = some j)
    (hs : staysIn a found.labels j = true) :
    Redirects t' a found found (pure s) sound revoked [j] fun C r => Redirected hidden C s r :=
  ⟨fun _ => id, fun _ => id, s, Kept.run_pure.mpr rfl,
    fun _ _ _ _ _ _ hf => .stays hj (hf.stay j (List.mem_singleton_self j) hs)⟩

/-- A jump that leaves, in one of the three ways. -/
theorem leave {s r : Code} {j : Jump} {kind : Leave} {what : String} {n n' : Nat} {sound : Prop}
    {revoked : Inner → Bool} (hj : jumpOf s = some j)
    (hk : a.loop = false → leavesAs a j = some kind) (hn : t'.of kind = some n')
    (h : (Kept.leave construct a kind what n).run found = .ok (r, found')) :
    Redirects t' a found found' (Kept.leave construct a kind what n') sound revoked [j]
      fun C r => Redirected hidden C s r := by
  have run : ∀ n, (Kept.leave construct a kind what n).run found =
      if a.loop then .error (.innerLoop what construct)
      else .ok (.block (goTo n), ⟨found.labels, found.leaves ++ [kind]⟩) := by
    intro n
    cases hl : a.loop <;> simp [Kept.leave, hl] <;> rfl
  rw [run] at h
  cases hl : a.loop with
  | true => simp [hl] at h
  | false =>
    simp only [hl, Bool.false_eq_true, if_false, Except.ok.injEq, Prod.mk.injEq] at h
    obtain ⟨rfl, rfl⟩ := h
    refine ⟨fun _ => id, fun k hm => List.mem_append_left _ hm, .block (goTo n'), ?_, ?_⟩
    · rw [run, hl]
      rfl
    · intro _ C i ways _ hw hf
      have hkind : kind ∈ ways := hw kind (by simp)
      refine .leaves hj ?_
      rw [hf.leave j (List.mem_singleton_self j) kind hkind (hk hl), hn]

/-- The result inside one more piece of code. -/
theorem map {α β : Type} {again : Kept.Redirector α} {f : α → β} {a' : Around} {sound sound' : Prop}
    {revoked revoked' : Inner → Bool} {js js' : List Jump} {related : Reach → α → Prop}
    {related' : Reach → β → Prop}
    (h : Redirects t' a found found' again sound revoked js related)
    (hs : sound' → sound)
    (hr : sound' → ∀ C i ways r, revoked' i = false → Fits t' ways a' found.labels i js' C →
      (∀ C i, revoked i = false → Fits t' ways a found.labels i js C → related C r) →
        related' C (f r)) :
    Redirects t' a' found found' (do return f (← again)) sound' revoked' js' related' := by
  obtain ⟨r', hrun, hrel⟩ := h.again
  refine ⟨h.labels, h.ways, f r', ?_, ?_⟩
  · rw [Kept.run_bind]
    exact ⟨_, hrun, Kept.run_pure.mpr rfl⟩
  · intro h' C i ways hi hw hf
    exact hr h' C i ways r' hi hf fun C i hi hf => hrel (hs h') C i ways hi hw hf

end Redirects

/-- Inside a loop around. -/
theorem redirects_loop {hidden : List String} {t' : Targets} {a : Around} {found found' : Kept.Found}
    {again : Kept.Redirector Code} {b s : Code} {f : Code → Code}
    (h : Redirects t' a.inLoop found found' again (Everywhere (Keepable hidden) b)
      (fun i => revokes a.inLoop i b) (exits b) fun C r => Redirected hidden C b r)
    (hb : Everywhere (Keepable hidden) s → Everywhere (Keepable hidden) b)
    (hrev : ∀ i, revokes a i s = revokes a.inLoop i.inLoop b)
    (hex : exits s = (exits b).filter fun j => !j.inLoop)
    (hrel : ∀ C r, Everywhere (Keepable hidden) s → Redirected hidden C.inLoop b r →
      Redirected hidden C s (f r)) :
    Redirects t' a found found' (do return f (← again)) (Everywhere (Keepable hidden) s)
      (fun i => revokes a i s) (exits s) fun C r => Redirected hidden C s r := by
  refine h.map hb ?_
  intro hs C i ways r hi hf hr
  rw [hrev] at hi
  rw [hex] at hf
  exact hrel C r hs (hr C.inLoop i.inLoop hi hf.inLoop)

section

variable {hidden : List String} {t t' : Targets} {construct : String}

/-- A break or continue without a label that leaves. -/
theorem redirects_unlabeled (ht : t.loop.isSome = t'.loop.isSome) {s r : Code} {j : Jump}
    {a : Around} {kind : Leave} {what : String} {fault : Fault} {found found' : Kept.Found}
    {sound : Prop} {revoked : Inner → Bool} (hj : jumpOf s = some j) (hf : kind ≠ .finish)
    (hk : a.loop = false → leavesAs a j = some kind)
    (h : (Kept.unlabeled t construct a kind what fault).run found = .ok (r, found')) :
    Redirects t' a found found' (Kept.unlabeled t' construct a kind what fault) sound revoked [j]
      fun C r => Redirected hidden C s r := by
  simp only [Kept.unlabeled] at h ⊢
  cases ht₁ : t.loop with
  | none => rw [ht₁] at h; cases h
  | some x =>
    cases ht₂ : t'.loop with
    | none => rw [ht₁, ht₂] at ht; cases ht
    | some x' =>
      rw [ht₁] at h
      refine .leave hj hk ?_ h
      cases kind with
      | finish => exact absurd rfl hf
      | exit | next => simp [Targets.of, ht₂]

/-- A jump to a label stays where the label is in reach, and there is a fault otherwise. -/
theorem redirects_labeled {s r : Code} {j : Jump} {l : String} {fault : Fault} {a : Around}
    {found found' : Kept.Found} {sound : Prop} {revoked : Inner → Bool} (hj : jumpOf s = some j)
    (hs : found.labels.contains l = true → staysIn a found.labels j = true)
    (h : (do if (← get).labels.contains l then return s else throw fault :
      Kept.Redirector Code).run found = .ok (r, found')) :
    Redirects t' a found found'
      (do if (← get).labels.contains l then return s else throw fault) sound revoked [j]
      fun C r => Redirected hidden C s r := by
  have run : (do if (← get).labels.contains l then return s else throw fault :
      Kept.Redirector Code).run found =
        if found.labels.contains l then .ok (s, found) else .error fault := by
    change (if found.labels.contains l then pure s else throw fault :
      Kept.Redirector Code).run found = _
    cases found.labels.contains l <;> rfl
  rw [run] at h
  cases hl : found.labels.contains l with
  | false => rw [hl] at h; cases h
  | true =>
    rw [hl] at h
    cases h
    refine ⟨fun _ => id, fun _ => id, s, ?_, ?_⟩
    · rw [run, hl]
      rfl
    · intro _ C i ways _ _ hf
      exact .stays hj (hf.stay j (List.mem_singleton_self j) (hs hl))

mutual

/-- Redirecting a statement. -/
theorem redirect_spec (ht : t.loop.isSome = t'.loop.isSome) (s : Code) {a : Around}
    {found found' : Kept.Found} {r : Code}
    (h : (Kept.redirect t construct a s).run found = .ok (r, found')) :
    Redirects t' a found found' (Kept.redirect t' construct a s) (Everywhere (Keepable hidden) s)
      (fun i => revokes a i s) (exits s) fun C r => Redirected hidden C s r := by
  cases s with
  | returning e =>
    cases e with
    | missing =>
      simp only [Kept.redirect, exits] at h ⊢
      refine .leave rfl ?_ rfl h
      intro hl
      simp [leavesAs, hl]
    | _ => cases h
  | returnDefault =>
    simp only [Kept.redirect, exits] at h ⊢
    refine .leave rfl ?_ rfl h
    intro hl
    simp [leavesAs, hl]
  | breaking l =>
    simp only [Kept.redirect, exits] at h ⊢
    cases hl : l.isEmpty with
    | false =>
      simp only [hl, Bool.false_eq_true, if_false] at h ⊢
      refine redirects_labeled rfl ?_ h
      intro hc
      simpa [staysIn, hl] using hc
    | true =>
      simp only [hl, if_true] at h ⊢
      cases ha : a.loop || a.switch with
      | true =>
        simp only [ha, if_true] at h ⊢
        cases Kept.run_pure.mp h
        exact .stays rfl (by simpa [staysIn, hl] using ha)
      | false =>
        simp only [ha, Bool.false_eq_true, if_false] at h ⊢
        refine redirects_unlabeled ht rfl (by decide) ?_ h
        intro _
        simp_all [leavesAs]
  | continuing l =>
    simp only [Kept.redirect, exits] at h ⊢
    cases hl : l.isEmpty with
    | false =>
      simp only [hl, Bool.false_eq_true, if_false] at h ⊢
      refine redirects_labeled rfl ?_ h
      intro hc
      simpa [staysIn, hl] using hc
    | true =>
      simp only [hl, if_true] at h ⊢
      cases ha : a.loop with
      | true =>
        simp only [ha, if_true] at h ⊢
        cases Kept.run_pure.mp h
        exact .stays rfl (by simpa [staysIn, hl] using ha)
      | false =>
        simp only [ha, Bool.false_eq_true, if_false] at h ⊢
        refine redirects_unlabeled ht rfl (by decide) ?_ h
        intro _
        simp_all [leavesAs]
  | block ss =>
    simp only [Kept.redirect, Kept.run_bind, Kept.run_pure] at h ⊢
    obtain ⟨⟨r', f'⟩, h, heq⟩ := h
    cases heq
    refine (redirectAll_spec ht ss h).map (fun hs => (Everywhere.block.mp hs).2) ?_
    intro _ C i ways r hi hf hr
    exact .block (hr C i (by simpa [revokes] using hi) (by simpa [exits] using hf))
  | whileLoop c b =>
    simp only [Kept.redirect, Kept.run_bind, Kept.run_pure] at h ⊢
    obtain ⟨⟨r', f'⟩, h, heq⟩ := h
    cases heq
    refine redirects_loop (redirect_spec ht b h) (fun hs => (Everywhere.whileLoop.mp hs).2.2)
      (fun _ => by simp [revokes]) (by simp [exits]) ?_
    intro C r hs hr
    exact .whileLoop (fresh_of_keepable (Everywhere.whileLoop.mp hs).2.1) hr
  | doLoop b c =>
    simp only [Kept.redirect, Kept.run_bind, Kept.run_pure] at h ⊢
    obtain ⟨⟨r', f'⟩, h, heq⟩ := h
    cases heq
    refine redirects_loop (redirect_spec ht b h) (fun hs => (Everywhere.doLoop.mp hs).2.1)
      (fun _ => by simp [revokes]) (by simp [exits]) ?_
    intro C r hs hr
    exact .doLoop (fresh_of_keepable (Everywhere.doLoop.mp hs).2.2) hr
  | forLoop i c u b =>
    simp only [Kept.redirect, Kept.run_bind, Kept.run_pure] at h ⊢
    obtain ⟨⟨r', f'⟩, h, heq⟩ := h
    cases heq
    refine redirects_loop (redirect_spec ht b h) (fun hs => (Everywhere.forLoop.mp hs).2.2.2.2)
      (fun _ => by simp [revokes]) (by simp [exits]) ?_
    intro C r hs hr
    obtain ⟨htop, hi, hc, hu, -⟩ := Everywhere.forLoop.mp hs
    have head : ∀ s ∈ i ++ u, isControl s = false := by
      intro s hm
      simpa using List.all_eq_true.mp htop.2.1 s hm
    exact .forLoop (.of_plain hi fun s hm => head s (List.mem_append_left u hm))
      (fresh_of_keepable hc) (.of_plain hu fun s hm => head s (List.mem_append_right i hm)) hr
  | foreach v e b =>
    simp only [Kept.redirect, Kept.run_bind, Kept.run_pure] at h ⊢
    obtain ⟨⟨r', f'⟩, h, heq⟩ := h
    cases heq
    refine redirects_loop (redirect_spec ht b h) (fun hs => (Everywhere.foreach.mp hs).2.2.2)
      (fun _ => by simp [revokes]) (by simp [exits]) ?_
    intro C r hs hr
    obtain ⟨-, hv, he, -⟩ := Everywhere.foreach.mp hs
    exact .foreach (fresh_of_keepable hv) (fresh_of_keepable he) hr
  | ifThen c y n =>
    simp only [Kept.redirect, Kept.run_bind, Kept.run_pure] at h
    obtain ⟨⟨y', f₁⟩, hy, ⟨n', f₂⟩, hn, heq⟩ := h
    cases heq
    have sy := redirect_spec ht y hy
    have sn := redirect_spec ht n hn
    obtain ⟨y', hy', ry⟩ := sy.again
    obtain ⟨n', hn', rn⟩ := sn.again
    refine ⟨fun l hl => sy.labels l (sn.labels l hl), fun k hk => sn.ways k (sy.ways k hk),
      .ifThen c y' n', ?_, ?_⟩
    · simp only [Kept.redirect, Kept.run_bind, Kept.run_pure]
      exact ⟨_, hy', _, hn', rfl⟩
    · intro hs C i ways hi hw hf
      obtain ⟨-, hc, hsy, hsn⟩ := Everywhere.ifThen.mp hs
      simp only [revokes, Bool.or_eq_false_iff] at hi
      simp only [exits] at hf
      refine .ifThen (fresh_of_keepable hc) ?_ ?_
      · exact ry hsy C i ways hi.1 (fun k hk => hw k (sn.ways k hk))
          (hf.mono (fun j => List.mem_append_left _) fun _ => id)
      · exact rn hsn C i ways hi.2 hw (hf.mono (fun j => List.mem_append_right _) sy.labels)
  | switchOn e cs =>
    simp only [Kept.redirect, Kept.run_bind, Kept.run_pure] at h ⊢
    obtain ⟨⟨r', f'⟩, h, heq⟩ := h
    cases heq
    refine (redirectAll_spec ht cs h).map (fun hs => (Everywhere.switchOn.mp hs).2.2) ?_
    intro hs C i ways r hi hf hr
    simp only [revokes] at hi
    simp only [exits] at hf
    exact .switchOn (fresh_of_keepable (Everywhere.switchOn.mp hs).2.1) (hr _ _ hi hf.inSwitch)
  | switchCase p ss =>
    simp only [Kept.redirect, Kept.run_bind, Kept.run_pure] at h ⊢
    obtain ⟨⟨r', f'⟩, h, heq⟩ := h
    cases heq
    refine (redirectAll_spec ht ss h).map (fun hs => (Everywhere.switchCase.mp hs).2.2) ?_
    intro _ C i ways r hi hf hr
    exact .switchCase (hr C i (by simpa [revokes] using hi) (by simpa [exits] using hf))
  | labeled l b =>
    simp only [Kept.redirect, Kept.run_bind, Kept.run_pure, Kept.run_modify] at h
    obtain ⟨-, rfl, ⟨b', f'⟩, hb, -, rfl, heq⟩ := h
    cases heq
    have sb := redirect_spec ht b hb
    obtain ⟨b', hb', rb⟩ := sb.again
    refine ⟨?_, sb.ways, .labeled l b', ?_, ?_⟩
    · intro x hx
      obtain ⟨hx, hne⟩ := List.mem_filter.mp hx
      exact (List.mem_cons.mp (sb.labels x hx)).resolve_left (by simpa using hne)
    · simp only [Kept.redirect, Kept.run_bind, Kept.run_pure, Kept.run_modify]
      exact ⟨_, rfl, _, hb', _, rfl, rfl⟩
    · intro hs C i ways hi hw hf
      simp only [revokes] at hi
      simp only [exits] at hf
      exact .labeled (rb (Everywhere.labeled.mp hs).2 _ _ ways hi hw hf.inLabel)
  | synchronizedOn e b =>
    simp only [Kept.redirect, Kept.run_bind, Kept.run_pure] at h ⊢
    obtain ⟨⟨r', f'⟩, h, heq⟩ := h
    cases heq
    refine (redirect_spec ht b h).map (fun hs => (Everywhere.synchronizedOn.mp hs).2.2) ?_
    intro hs C i ways r hi hf hr
    exact .synchronizedOn (fresh_of_keepable (Everywhere.synchronizedOn.mp hs).2.1)
      (hr C i (by simpa [revokes] using hi) (by simpa [exits] using hf))
  | tryCatch b cs f =>
    simp only [Kept.redirect, Kept.run_bind, Kept.run_pure] at h
    obtain ⟨⟨b', f₁⟩, hb, ⟨cs', f₂⟩, hcs, ⟨f', f₃⟩, hf, heq⟩ := h
    cases heq
    have sb := redirect_spec ht b hb
    have scs := redirectAll_spec ht cs hcs
    have sf := redirect_spec ht f hf
    obtain ⟨b', hb', rb⟩ := sb.again
    obtain ⟨cs', hcs', -⟩ := scs.again
    obtain ⟨f', hf', rf⟩ := sf.again
    have labels : ∀ l ∈ f₂.labels, l ∈ found.labels := fun l hl => sb.labels l (scs.labels l hl)
    refine ⟨fun l hl => labels l (sf.labels l hl),
      fun k hk => sf.ways k (scs.ways k (sb.ways k hk)), .tryCatch b' cs' f', ?_, ?_⟩
    · simp only [Kept.redirect, Kept.run_bind, Kept.run_pure]
      exact ⟨_, hb', _, hcs', _, hf', rfl⟩
    · intro hs C i ways hi hw hfit
      obtain ⟨-, hsb, -, hsf⟩ := Everywhere.tryCatch.mp hs
      simp only [revokes, Bool.or_eq_false_iff] at hi
      simp only [exits] at hfit
      have fitb := hfit.mono (fun j => List.mem_append_left _) fun _ => id
      have fitf := hfit.mono (fun j => List.mem_append_right _) labels
      have hwb : ∀ k ∈ f₁.leaves, k ∈ ways := fun k hk => hw k (sf.ways k (scs.ways k hk))
      cases hl : leaves a b with
      | true =>
        simp only [hl, if_true, Bool.or_eq_false_iff, List.any_eq_false,
          Bool.not_eq_true] at hi
        exact .tryOpen (rb hsb C i ways hi.1 hwb fitb)
          (rf hsf C.closing i.closing ways hi.2.2 hw (fitf.closing hi.2.1))
      | false =>
        simp only [hl, Bool.false_eq_true, if_false] at hi
        refine .trySealed (rb hsb C.sealed i ways hi.1 hwb (fitb.sealed ?_))
          (rf hsf C i ways hi.2 hw fitf)
        simpa [leaves] using hl
  | catchClause v b =>
    simp only [Kept.redirect, Kept.run_bind, Kept.run_pure] at h ⊢
    obtain ⟨⟨r', f'⟩, h, heq⟩ := h
    cases heq
    have sb := redirect_spec ht b h
    obtain ⟨b', hb', -⟩ := sb.again
    refine ⟨sb.labels, sb.ways, .catchClause v b', ?_, fun _ _ _ _ _ _ _ => .catchClause⟩
    rw [Kept.run_bind]
    exact ⟨_, hb', Kept.run_pure.mpr rfl⟩
  | _ =>
    simp only [Kept.redirect] at h ⊢
    cases Kept.run_pure.mp h
    exact .unchanged fun hs C => .of_plain hs rfl

/-- Redirecting statements one after the other. -/
theorem redirectAll_spec (ht : t.loop.isSome = t'.loop.isSome) (ss : List Code) {a : Around}
    {found found' : Kept.Found} {r : List Code}
    (h : (Kept.redirectAll t construct a ss).run found = .ok (r, found')) :
    Redirects t' a found found' (Kept.redirectAll t' construct a ss)
      (∀ s ∈ ss, Everywhere (Keepable hidden) s) (fun i => revokesAny a i ss) (exitsAll ss)
      fun C r => RedirectedAll hidden C ss r := by
  cases ss with
  | nil =>
    simp only [Kept.redirectAll] at h ⊢
    cases Kept.run_pure.mp h
    exact ⟨fun _ => id, fun _ => id, [], Kept.run_pure.mpr rfl, fun _ _ _ _ _ _ _ => .nil⟩
  | cons s ss =>
    simp only [Kept.redirectAll, Kept.run_bind, Kept.run_pure] at h
    obtain ⟨⟨s', f₁⟩, hs, ⟨ss', f₂⟩, hss, heq⟩ := h
    cases heq
    have ss₁ := redirect_spec ht s hs
    have ss₂ := redirectAll_spec ht ss hss
    obtain ⟨s', hs', rs⟩ := ss₁.again
    obtain ⟨ss', hss', rss⟩ := ss₂.again
    refine ⟨fun l hl => ss₁.labels l (ss₂.labels l hl), fun k hk => ss₂.ways k (ss₁.ways k hk),
      s' :: ss', ?_, ?_⟩
    · simp only [Kept.redirectAll, Kept.run_bind, Kept.run_pure]
      exact ⟨_, hs', _, hss', rfl⟩
    · intro hk C i ways hi hw hf
      obtain ⟨hks, hkss⟩ := List.forall_mem_cons.mp hk
      simp only [revokesAny, Bool.or_eq_false_iff] at hi
      simp only [exitsAll] at hf
      refine .cons ?_ ?_
      · exact rs hks C i ways hi.1 (fun k hk => hw k (ss₂.ways k hk))
          (hf.mono (fun j => List.mem_append_left _) fun _ => id)
      · exact rss hkss C i ways hi.2 hw (hf.mono (fun j => List.mem_append_right _) ss₁.labels)

end

end

/-! ## Statements that are left alone -/

/-- What is around a place ends no jump that may not be made there. -/
def Ends (a : Around) (labels : List String) (C : Reach) : Prop :=
  ∀ j, staysIn a labels j = true → C.stay j

namespace Ends

variable {a : Around} {labels : List String} {C : Reach}

theorem mono (h : Ends a labels C) {labels' : List String} (hl : ∀ l ∈ labels', l ∈ labels) :
    Ends a labels' C := by
  intro j hj
  refine h j ?_
  cases j with
  | brk l | cont l =>
    simp only [staysIn] at hj ⊢
    split at hj
    · simp_all
    · simp_all
  | ret => cases hj

theorem inLoop (h : Ends a labels C) : Ends a.inLoop labels C.inLoop := by
  intro j hj
  cases hl : j.inLoop with
  | true => exact .inl hl
  | false =>
    refine .inr (h j ?_)
    cases j <;> simp_all [staysIn, Jump.inLoop]

theorem inSwitch (h : Ends a labels C) : Ends a.inSwitch labels C.inSwitch := by
  intro j hj
  cases hl : j.inSwitch with
  | true => exact .inl hl
  | false =>
    refine .inr (h j ?_)
    cases j <;> simp_all [staysIn, Jump.inSwitch, Around.inSwitch]

theorem inLabel {l : String} (h : Ends a labels C) : Ends a (l :: labels) (C.inLabel l) := by
  intro j hj
  cases hl : j.inLabel l with
  | true => exact .inl hl
  | false =>
    refine .inr (h j ?_)
    cases j with
    | brk l' | cont l' =>
      simp only [Jump.inLabel] at hl
      simp only [staysIn] at hj ⊢
      split at hj <;> simp_all
    | ret => cases hj

end Ends

section

variable {hidden : List String}

mutual

/-- A statement that nothing leaves is redirected to itself. -/
theorem escapes_spec (s : Code) {a : Around} {labels labels' : List String}
    (h : escapes a labels s = (false, labels')) :
    (∀ l ∈ labels', l ∈ labels) ∧ (Everywhere (Keepable hidden) s → ∀ C, Ends a labels C →
      Redirected hidden C s s) := by
  cases s with
  | returning e => cases h
  | returnDefault => cases h
  | breaking l =>
    simp only [escapes, Prod.mk.injEq] at h
    obtain ⟨h, rfl⟩ := h
    refine ⟨fun _ => id, fun _ C hC => .stays rfl (hC (.brk l) ?_)⟩
    simp only [staysIn]
    split at h
    · cases hl : a.loop <;> simp_all
    · simp_all
  | continuing l =>
    simp only [escapes, Prod.mk.injEq] at h
    obtain ⟨h, rfl⟩ := h
    refine ⟨fun _ => id, fun _ C hC => .stays rfl (hC (.cont l) ?_)⟩
    simp only [staysIn]
    split at h <;> simp_all
  | block ss =>
    obtain ⟨hl, hr⟩ := escapesAny_spec ss h
    exact ⟨hl, fun hs C hC => .block (hr (Everywhere.block.mp hs).2 C hC)⟩
  | switchCase p ss =>
    obtain ⟨hl, hr⟩ := escapesAny_spec ss h
    exact ⟨hl, fun hs C hC => .switchCase (hr (Everywhere.switchCase.mp hs).2.2 C hC)⟩
  | ifThen c y n =>
    simp only [escapes] at h
    rcases hy : escapes a labels y with ⟨_ | _, l₁⟩
    · rw [hy] at h
      obtain ⟨hly, ry⟩ := escapes_spec y hy
      obtain ⟨hln, rn⟩ := escapes_spec n h
      refine ⟨fun l hl => hly l (hln l hl), fun hs C hC => ?_⟩
      obtain ⟨-, hc, hsy, hsn⟩ := Everywhere.ifThen.mp hs
      exact .ifThen (fresh_of_keepable hc) (ry hsy C hC) (rn hsn C (hC.mono hly))
    · rw [hy] at h
      cases h
  | whileLoop c b =>
    obtain ⟨hl, hr⟩ := escapes_spec b h
    refine ⟨hl, fun hs C hC => ?_⟩
    obtain ⟨-, hc, hb⟩ := Everywhere.whileLoop.mp hs
    exact .whileLoop (fresh_of_keepable hc) (hr hb _ hC.inLoop)
  | doLoop b c =>
    obtain ⟨hl, hr⟩ := escapes_spec b h
    refine ⟨hl, fun hs C hC => ?_⟩
    obtain ⟨-, hb, hc⟩ := Everywhere.doLoop.mp hs
    exact .doLoop (fresh_of_keepable hc) (hr hb _ hC.inLoop)
  | forLoop i c u b =>
    obtain ⟨hl, hr⟩ := escapes_spec b h
    refine ⟨hl, fun hs C hC => ?_⟩
    obtain ⟨htop, hi, hc, hu, hb⟩ := Everywhere.forLoop.mp hs
    have head : ∀ s ∈ i ++ u, isControl s = false := by
      intro s hm
      simpa using List.all_eq_true.mp htop.2.1 s hm
    exact .forLoop (.of_plain hi fun s hm => head s (List.mem_append_left u hm))
      (fresh_of_keepable hc) (.of_plain hu fun s hm => head s (List.mem_append_right i hm))
      (hr hb _ hC.inLoop)
  | foreach v e b =>
    obtain ⟨hl, hr⟩ := escapes_spec b h
    refine ⟨hl, fun hs C hC => ?_⟩
    obtain ⟨-, hv, he, hb⟩ := Everywhere.foreach.mp hs
    exact .foreach (fresh_of_keepable hv) (fresh_of_keepable he) (hr hb _ hC.inLoop)
  | switchOn e cs =>
    obtain ⟨hl, hr⟩ := escapesAny_spec cs h
    refine ⟨hl, fun hs C hC => ?_⟩
    obtain ⟨-, he, hcs⟩ := Everywhere.switchOn.mp hs
    exact .switchOn (fresh_of_keepable he) (hr hcs _ hC.inSwitch)
  | labeled l b =>
    simp only [escapes] at h
    rcases hb : escapes a (l :: labels) b with ⟨_ | _, l₁⟩
    · rw [hb] at h
      cases h
      obtain ⟨hl, hr⟩ := escapes_spec b hb
      refine ⟨?_, fun hs C hC => .labeled (hr (Everywhere.labeled.mp hs).2 _ hC.inLabel)⟩
      intro x hx
      obtain ⟨hx, hne⟩ := List.mem_filter.mp hx
      exact (List.mem_cons.mp (hl x hx)).resolve_left (by simpa using hne)
    · rw [hb] at h
      cases h
  | synchronizedOn e b =>
    obtain ⟨hl, hr⟩ := escapes_spec b h
    refine ⟨hl, fun hs C hC => ?_⟩
    obtain ⟨-, he, hb⟩ := Everywhere.synchronizedOn.mp hs
    exact .synchronizedOn (fresh_of_keepable he) (hr hb C hC)
  | tryCatch b cs f =>
    simp only [escapes] at h
    rcases hb : escapes a labels b with ⟨_ | _, l₁⟩
    · rw [hb] at h
      rcases hcs : escapesAny a l₁ cs with ⟨_ | _, l₂⟩
      · simp only [hcs, Bool.false_eq_true, if_false] at h
        obtain ⟨hlb, rb⟩ := escapes_spec b hb
        obtain ⟨hlcs, -⟩ := escapesAny_spec cs hcs
        obtain ⟨hlf, rf⟩ := escapes_spec f h
        have labels : ∀ l ∈ l₂, l ∈ labels := fun l hl => hlb l (hlcs l hl)
        refine ⟨fun l hl => labels l (hlf l hl), fun hs C hC => ?_⟩
        obtain ⟨-, hsb, -, hsf⟩ := Everywhere.tryCatch.mp hs
        exact .trySealed (rb hsb C.sealed hC) (rf hsf C (hC.mono labels))
      · simp only [hcs, Bool.false_eq_true, if_false, if_true] at h
        cases h
    · rw [hb] at h
      cases h
  | catchClause v b =>
    obtain ⟨hl, -⟩ := escapes_spec b h
    exact ⟨hl, fun _ _ _ => .catchClause⟩
  | _ =>
    cases h
    exact ⟨fun _ => id, fun hs C _ => .of_plain hs rfl⟩

/-- Statements that nothing leaves are redirected to themselves. -/
theorem escapesAny_spec (ss : List Code) {a : Around} {labels labels' : List String}
    (h : escapesAny a labels ss = (false, labels')) :
    (∀ l ∈ labels', l ∈ labels) ∧ ((∀ s ∈ ss, Everywhere (Keepable hidden) s) → ∀ C,
      Ends a labels C → RedirectedAll hidden C ss ss) := by
  cases ss with
  | nil =>
    cases h
    exact ⟨fun _ => id, fun _ _ _ => .nil⟩
  | cons s ss =>
    simp only [escapesAny] at h
    rcases hs : escapes a labels s with ⟨_ | _, l₁⟩
    · rw [hs] at h
      obtain ⟨hl, hr⟩ := escapes_spec s hs
      obtain ⟨hls, hrs⟩ := escapesAny_spec ss h
      refine ⟨fun l hm => hl l (hls l hm), fun hk C hC => ?_⟩
      obtain ⟨hks, hkss⟩ := List.forall_mem_cons.mp hk
      exact .cons (hr hks C hC) (hrs hkss C (hC.mono hl))
    · rw [hs] at h
      cases h

end

end

/-! ## Kept statements as a whole -/

/-- Where the jumps go that leave a kept statement: to the state of the target, for the ways to
leave that occur. -/
def Reach.root (t : Targets) (ways : List Leave) : Reach where
  stay _ := False
  safe _ := False
  leave j := (leavesAs .nothing j).bind fun k => if k ∈ ways then t.of k else none
  pending := false
  stay_of_safe _ := id

/-- Keeping a statement succeeds for all states of the targets alike, and its result has the jumps
redirected to them. -/
theorem keepStatement_spec (hidden : List String) {t : Targets} (t' : Targets) {construct : String}
    {s r : Code} {ways : List Leave} (ht : t.loop.isSome = t'.loop.isSome)
    (h : keepStatement t construct s = .ok (r, ways)) :
    ∃ r', keepStatement t' construct s = .ok (r', ways) ∧
      (Everywhere (Keepable hidden) s → revokes .nothing none s = false →
        Redirected hidden (.root t' ways) s r') := by
  rcases hr : (Kept.redirect t construct .nothing s).run ⟨[], []⟩ with e | ⟨c, found⟩
  · simp [keepStatement, hr, bind, Except.bind] at h
  · simp only [keepStatement, hr, bind, Except.bind, pure, Except.pure, Except.ok.injEq,
      Prod.mk.injEq] at h
    obtain ⟨rfl, rfl⟩ := h
    obtain ⟨-, -, r', hr', hrel⟩ := redirect_spec ht s hr
    refine ⟨r', ?_, ?_⟩
    · simp [keepStatement, hr', bind, Except.bind, pure, Except.pure]
    · intro hs hv
      refine hrel hs _ none found.leaves hv (fun _ => id) ⟨?_, ?_, ?_, rfl⟩
      · intro j _ hj
        cases j <;> simp [staysIn, Around.nothing] at hj
      · intro j _ k hk hj
        simp [Reach.root, hj, hk]
      · intro j hj
        cases j <;> simp [staysIn, Around.nothing] at hj

/-- A statement that nothing leaves can be kept as it is. -/
theorem redirected_self {hidden : List String} {s : Code}
    (h : (escapes .nothing [] s).1 = false) (hs : Everywhere (Keepable hidden) s) (t : Targets) :
    Redirected hidden (.root t []) s s := by
  refine (escapes_spec s (Prod.ext h rfl)).2 hs _ ?_
  intro j hj
  cases j <;> simp [staysIn, Around.nothing] at hj

end Weaver.Generator
