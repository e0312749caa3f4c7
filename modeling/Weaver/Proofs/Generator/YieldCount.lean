import Mathlib.Data.List.Forall2
import Mathlib.Data.List.Induction
import Weaver.Proofs.Generator.Contribution
/-!
Where the yields of a body go.

A yield that stands as a statement ends a state. Other yields are refused in most places, but not in
all: the argument of a yield, the conditions of statements that are cut and the collections of loops
are copied into states as they are, and what is neither compiled nor copied is dropped with the
yields in it. So all yields of a body are counted in three ways, and the machine is free of yields
just if none of them was copied.
-/
set_option autoImplicit false

namespace Weaver.Generator

/-! ## Counting -/

/-- The number of yields in a piece of code. -/
def yieldCount (c : Code) : Nat := (c.visit fun _ => false).countP isYield

/-- The number of yields in pieces of code. -/
def yieldCountAll (cs : List Code) : Nat := (Code.visitAll (fun _ => false) cs).countP isYield

mutual

/-- The yields that stand as statements of the body or of statements that can be cut. -/
def ownYields : Code → Nat
  | c@(.call ..) => if isYield c then 1 else 0
  | .block ss => ownYieldsAll ss
  | .ifThen _ y n => ownYields y + ownYields n
  | .whileLoop _ b | .doLoop b _ | .foreach _ _ b => ownYields b
  | .forLoop i _ u b => ownYieldsAll i + ownYields b + ownYieldsAll u
  | _ => 0

/-- These yields of statements. -/
def ownYieldsAll : List Code → Nat
  | [] => 0
  | s :: ss => ownYields s + ownYieldsAll ss

end

mutual

/-- The yields in what is copied into states: arguments of yields, conditions, collections and the
types of their elements. -/
def copiedYields : Code → Nat
  | c@(.call _ _ _ as) => if isYield c then yieldCountAll as else 0
  | .block ss => copiedYieldsAll ss
  | .ifThen c y n => yieldCount c + copiedYields y + copiedYields n
  | .whileLoop c b => yieldCount c + copiedYields b
  | .doLoop b c => copiedYields b + yieldCount c
  | .forLoop i c u b => copiedYieldsAll i + yieldCount c + copiedYields b + copiedYieldsAll u
  | .foreach (.localDecl t _ _ _ _) e b => yieldCount e + yieldCount t + copiedYields b
  | _ => 0

/-- These yields of statements. -/
def copiedYieldsAll : List Code → Nat
  | [] => 0
  | s :: ss => copiedYields s + copiedYieldsAll ss

end

mutual

/-- The yields in what has no part in the machine: type arguments of yields, and annotations and
values of the variables of loops over collections. -/
def droppedYields : Code → Nat
  | c@(.call _ _ ts _) => if isYield c then yieldCountAll ts else 0
  | .block ss => droppedYieldsAll ss
  | .ifThen _ y n => droppedYields y + droppedYields n
  | .whileLoop _ b | .doLoop b _ => droppedYields b
  | .forLoop i _ u b => droppedYieldsAll i + droppedYields b + droppedYieldsAll u
  | .foreach (.localDecl _ _ _ as i) _ b => yieldCountAll as + yieldCount i + droppedYields b
  | _ => 0

/-- These yields of statements. -/
def droppedYieldsAll : List Code → Nat
  | [] => 0
  | s :: ss => droppedYields s + droppedYieldsAll ss

end

theorem containsYield_eq_false {c : Code} : containsYield c = false ↔ yieldCount c = 0 := by
  simp [containsYield, yieldCount, List.countP_eq_zero]

theorem anyYield_eq_false {cs : List Code} : anyYield cs = false ↔ yieldCountAll cs = 0 := by
  induction cs with
  | nil => exact ⟨fun _ => rfl, fun _ => rfl⟩
  | cons c cs ih =>
    rw [anyYield, List.any_cons, Bool.or_eq_false_iff, containsYield_eq_false, yieldCountAll,
      Code.visitAll, List.countP_append, Nat.add_eq_zero_iff]
    exact and_congr_right fun _ => ih

theorem yieldCountAll_cons (c : Code) (cs : List Code) :
    yieldCountAll (c :: cs) = yieldCount c + yieldCountAll cs := by
  rw [yieldCountAll, Code.visitAll, List.countP_append]
  rfl

theorem yieldCountAll_append (cs ds : List Code) :
    yieldCountAll (cs ++ ds) = yieldCountAll cs + yieldCountAll ds := by
  rw [yieldCountAll, visitAll_append, List.countP_append]
  rfl

theorem countP_andBelow (c : Code) (below : List Code) :
    (Code.andBelow (fun _ => false) c below).countP isYield =
      (if isYield c then 1 else 0) + below.countP isYield := by
  rw [Code.andBelow, if_neg Bool.false_ne_true, List.countP_cons, Nat.add_comm]

section Parts

variable {b c e i l n s t v y : Code} {as cs ds is ss ts : List Code} {x : String}

attribute [local simp] yieldCount yieldCountAll Code.visit countP_andBelow isYield

@[simp] theorem yieldCount_missing : yieldCount .missing = 0 := by simp

@[simp] theorem yieldCount_named : yieldCount (.named x) = 0 := by simp

@[simp] theorem yieldCountAll_nil : yieldCountAll [] = 0 := rfl

@[simp] theorem yieldCount_call : yieldCount (.call e x ts as) =
    (if isYield (.call e x ts as) then 1 else 0) + yieldCount e + yieldCountAll ts +
      yieldCountAll as := by
  simp [-isYield, Nat.add_assoc]

@[simp] theorem yieldCount_newArray {h : Bool} : yieldCount (.newArray t ds h is) =
    yieldCount t + yieldCountAll ds + yieldCountAll is := by
  simp [Nat.add_assoc]

@[simp] theorem yieldCount_typeRef {d : Int} : yieldCount (.typeRef x as d) = yieldCountAll as := by
  simp

@[simp] theorem yieldCount_unary : yieldCount (.unary x e) = yieldCount e := by simp

@[simp] theorem yieldCount_cast : yieldCount (.cast t e) = yieldCount t + yieldCount e := by simp

@[simp] theorem yieldCount_assign :
    yieldCount (.assign l e) = yieldCount l + yieldCount e := by simp

@[simp] theorem yieldCount_localDecl {ms : Syntax.Flags} :
    yieldCount (.localDecl t x ms as i) = yieldCountAll as + yieldCount t + yieldCount i := by
  simp [Nat.add_assoc]

@[simp] theorem yieldCount_block : yieldCount (.block ss) = yieldCountAll ss := by simp

@[simp] theorem yieldCount_ifThen :
    yieldCount (.ifThen c y n) = yieldCount c + yieldCount y + yieldCount n := by
  simp [Nat.add_assoc]

@[simp] theorem yieldCount_whileLoop :
    yieldCount (.whileLoop c b) = yieldCount c + yieldCount b := by simp

@[simp] theorem yieldCount_doLoop :
    yieldCount (.doLoop b c) = yieldCount b + yieldCount c := by simp

@[simp] theorem yieldCount_forLoop : yieldCount (.forLoop is c ss b) =
    yieldCountAll is + yieldCount c + yieldCountAll ss + yieldCount b := by
  simp [Nat.add_assoc]

@[simp] theorem yieldCount_foreach :
    yieldCount (.foreach v e b) = yieldCount v + yieldCount e + yieldCount b := by
  simp [Nat.add_assoc]

@[simp] theorem yieldCount_switchOn :
    yieldCount (.switchOn e cs) = yieldCount e + yieldCountAll cs := by simp

@[simp] theorem yieldCount_switchCase :
    yieldCount (.switchCase e ss) = yieldCount e + yieldCountAll ss := by simp

@[simp] theorem yieldCount_tryCatch :
    yieldCount (.tryCatch b cs e) = yieldCount b + yieldCountAll cs + yieldCount e := by
  simp [Nat.add_assoc]

@[simp] theorem yieldCount_catchClause :
    yieldCount (.catchClause v b) = yieldCount v + yieldCount b := by simp

@[simp] theorem yieldCount_synchronizedOn :
    yieldCount (.synchronizedOn e b) = yieldCount e + yieldCount b := by simp

@[simp] theorem yieldCount_labeled : yieldCount (.labeled x b) = yieldCount b := by simp

end Parts

/-! ## Kept statements -/

theorem yieldCountAll_goTo (n : Nat) : yieldCountAll (goTo n) = 0 := rfl

section

variable {f : Leave → Code}

mutual

/-- Replacing jumps brings no yields and takes none away. -/
theorem yieldCount_rerouted (jumps : ∀ k, yieldCount (f k) = 0) (s : Code) (a : Around) :
    yieldCount (rerouted f a s) = yieldCount s := by
  cases s with
  | returning e => cases e <;> first | exact jumps .finish | rfl
  | returnDefault => exact jumps .finish
  | breaking l =>
    rw [rerouted]
    split
    · exact jumps .exit
    · rfl
  | continuing l =>
    rw [rerouted]
    split
    · exact jumps .next
    · rfl
  | block ss => rw [rerouted, yieldCount_block, yieldCountAll_rerouted jumps, yieldCount_block]
  | ifThen c y n => simp [rerouted, yieldCount_rerouted jumps y a, yieldCount_rerouted jumps n a]
  | whileLoop c b => simp [rerouted, yieldCount_rerouted jumps b]
  | doLoop b c => simp [rerouted, yieldCount_rerouted jumps b]
  | forLoop i c u b => simp [rerouted, yieldCount_rerouted jumps b]
  | foreach v e b => simp [rerouted, yieldCount_rerouted jumps b]
  | switchOn e cs => simp [rerouted, yieldCountAll_rerouted jumps cs]
  | switchCase p ss => simp [rerouted, yieldCountAll_rerouted jumps ss]
  | labeled l b => simp [rerouted, yieldCount_rerouted jumps b]
  | synchronizedOn e b => simp [rerouted, yieldCount_rerouted jumps b]
  | tryCatch b cs g =>
    simp [rerouted, yieldCount_rerouted jumps b, yieldCountAll_rerouted jumps cs,
      yieldCount_rerouted jumps g]
  | catchClause v b => simp [rerouted, yieldCount_rerouted jumps b]
  | _ => rfl

/-- The same of statements one after the other. -/
theorem yieldCountAll_rerouted (jumps : ∀ k, yieldCount (f k) = 0) (ss : List Code) (a : Around) :
    yieldCountAll (reroutedAll f a ss) = yieldCountAll ss := by
  cases ss with
  | nil => rfl
  | cons s ss =>
    rw [reroutedAll, yieldCountAll_cons, yieldCountAll_cons, yieldCount_rerouted jumps s a,
      yieldCountAll_rerouted jumps ss a]

end

end

/-! ## What the rules count -/

/-- The operation is a yield. -/
def Operation.isYield : Operation → Bool
  | yield .. => true
  | _ => false

mutual

/-- The three kinds of yields are different ones. -/
theorem parts_le (s : Code) : ownYields s + copiedYields s + droppedYields s ≤ yieldCount s := by
  cases s with
  | call r m ts as =>
    rw [ownYields, copiedYields, droppedYields, yieldCount_call]
    split <;> omega
  | block ss =>
    rw [ownYields, copiedYields, droppedYields, yieldCount_block]
    exact partsAll_le ss
  | ifThen c y n =>
    have yes := parts_le y
    have no := parts_le n
    rw [ownYields, copiedYields, droppedYields, yieldCount_ifThen]
    omega
  | whileLoop c b =>
    have body := parts_le b
    rw [ownYields, copiedYields, droppedYields, yieldCount_whileLoop]
    omega
  | doLoop b c =>
    have body := parts_le b
    rw [ownYields, copiedYields, droppedYields, yieldCount_doLoop]
    omega
  | forLoop i c u b =>
    have inits := partsAll_le i
    have body := parts_le b
    have updates := partsAll_le u
    rw [ownYields, copiedYields, droppedYields, yieldCount_forLoop]
    omega
  | foreach v e b =>
    have body := parts_le b
    rw [yieldCount_foreach, ownYields]
    cases v with
    | localDecl t n ms as i =>
      rw [copiedYields, droppedYields, yieldCount_localDecl]
      omega
    | _ =>
      simp only [copiedYields, droppedYields]
      omega
  | _ => exact Nat.zero_le _

/-- The same of statements one after the other. -/
theorem partsAll_le (ss : List Code) :
    ownYieldsAll ss + copiedYieldsAll ss + droppedYieldsAll ss ≤ yieldCountAll ss := by
  cases ss with
  | nil => exact Nat.zero_le _
  | cons s ss =>
    have first := parts_le s
    have others := partsAll_le ss
    rw [ownYieldsAll, copiedYieldsAll, droppedYieldsAll, yieldCountAll_cons]
    omega

end

/-- What statements add to a compilation has their own yields, the copied ones when the operations
are written, and no others. -/
structure Counts (ss : List Code) (ops : List Operation) : Prop where
  own : ops.countP Operation.isYield = ownYieldsAll ss
  copied : ∀ state, yieldCountAll (ops.flatMap (Operation.written state)) = copiedYieldsAll ss
  all : yieldCountAll ss = ownYieldsAll ss + copiedYieldsAll ss + droppedYieldsAll ss

section

variable {s : Code} {ss : List Code} {ops : List Operation}

/-- A statement without yields, and operations without yields. -/
theorem Counts.silent (none_ : yieldCount s = 0) (own : ops.countP Operation.isYield = 0)
    (copied : ∀ state, yieldCountAll (ops.flatMap (Operation.written state)) = 0) :
    Counts [s] ops := by
  -- with the sum, each of the three counts is zero
  have parts := parts_le s
  have all : yieldCountAll [s] = yieldCount s := yieldCountAll_cons s []
  refine ⟨?_, fun state => ?_, ?_⟩
  · rw [own, ownYieldsAll, ownYieldsAll]
    omega
  · rw [copied, copiedYieldsAll, copiedYieldsAll]
    omega
  · rw [all, ownYieldsAll, copiedYieldsAll, droppedYieldsAll, ownYieldsAll, copiedYieldsAll,
      droppedYieldsAll]
    omega

theorem yieldCount_of_whole (whole : needsLowering s = false) : yieldCount s = 0 :=
  containsYield_eq_false.mp (needsLowering_eq_false whole).1

theorem yieldCount_initialValue_le (t i : Code) :
    yieldCount (initialValue t i) ≤ yieldCount t + yieldCount i := by
  unfold initialValue
  split
  · simp
    omega
  · omega

theorem yieldCount_of_isTrue {c : Code} (always : isTrue c = true) : yieldCount c = 0 := by
  cases c <;> first | rfl | cases always

theorem yieldCount_of_jumpOf {j : Jump} (jumps : jumpOf s = some j) : yieldCount s = 0 := by
  cases s
  case returning e =>
    cases e <;> first | rfl | cases jumps
  all_goals first
    | rfl
    | cases jumps

/-- A branch that may be left out because its condition always holds. -/
theorem yieldCountAll_branchUnless {c : Code} {l : Label} {b : Bool} {state : Label → Nat}
    (left : b = true → yieldCount c = 0) :
    yieldCountAll (((if b then [] else [.branch (negated c) l] : List Operation)).flatMap
      (Operation.written state)) = yieldCount c := by
  cases b with
  | true => exact (left rfl).symm
  | false =>
    simp [Operation.written, negated, yieldCountAll_cons, yieldCountAll_goTo]

/-- A yield is called of a class or unqualified. -/
theorem yieldCount_receiver {r : Code} {m : String} {ts as : List Code}
    (yields : isYield (.call r m ts as) = true) : yieldCount r = 0 := by
  unfold isYield at yields
  split at yields
  · next same =>
    injection same with receiver
    subst receiver
    split at yields
    · rfl
    · rfl
    · cases yields
  · cases yields

/-- A yield is written with its argument once. -/
theorem yieldCountAll_written_yield (v : Code) (l : Label) (state : Label → Nat) :
    yieldCountAll ((Operation.yield v l).written state) = yieldCount v := by
  have rest : yieldCountAll [.assign (.named stateField) (.int (state l)),
      .returning (.bool true)] = 0 := rfl
  rw [Operation.written, yieldCountAll_cons, rest, yieldCount_assign, yieldCount_named]
  omega

attribute [local simp] ownYields ownYieldsAll copiedYields copiedYieldsAll droppedYields
  droppedYieldsAll yieldCountAll_cons yieldCountAll_append yieldCountAll_goTo Operation.written
  Operation.isYield

theorem countP_branchUnless {c : Code} {l : Label} {b : Bool} :
    ((if b then [] else [.branch c l] : List Operation)).countP Operation.isYield = 0 := by
  cases b <;> rfl

section

variable {ops' ops'' : List Operation} {c y n b : Code} {i u : List Code}

theorem Counts.append (first : Counts [s] ops) (others : Counts ss ops') :
    Counts (s :: ss) (ops ++ ops') := by
  obtain ⟨own, copied, all⟩ := first
  obtain ⟨own', copied', all'⟩ := others
  refine ⟨?_, fun state => ?_, ?_⟩
  · simp [own, own']
  · simp [copied, copied']
  · simp at all all' ⊢
    omega

theorem Counts.ifElse (l join : Label) (ended : Bool) (yes : Counts [y] ops)
    (no : Counts [n] ops') : Counts [.ifThen c y n]
      ([Operation.branch (negated c) l] ++ ops ++ (if ended then [] else [Operation.jump join]) ++
        ops') := by
  obtain ⟨own, copied, all⟩ := yes
  obtain ⟨own', copied', all'⟩ := no
  refine ⟨?_, fun state => ?_, ?_⟩
  · cases ended <;> simp [own, own']
  · have yes := copied state
    have no := copied' state
    cases ended <;> simp [negated] at yes no ⊢ <;> omega
  · simp at all all' ⊢
    omega

theorem Counts.whileLoop (head exit : Label) (body : Counts [b] ops) : Counts [.whileLoop c b]
    ((if isTrue c then [] else [Operation.branch (negated c) exit]) ++ ops ++
      [Operation.jump head]) := by
  obtain ⟨own, copied, all⟩ := body
  refine ⟨?_, fun state => ?_, ?_⟩
  · simp [own, countP_branchUnless]
  · have body := copied state
    simp [yieldCountAll_branchUnless yieldCount_of_isTrue] at body ⊢
    omega
  · simp at all ⊢
    omega

theorem Counts.doLoop (head : Label) (body : Counts [b] ops) : Counts [.doLoop b c]
    (ops ++ [if isTrue c then Operation.jump head else .branch c head]) := by
  obtain ⟨own, copied, all⟩ := body
  refine ⟨?_, fun state => ?_, ?_⟩
  · split <;> simp [own]
  · have body := copied state
    split
    · next always => simp [yieldCount_of_isTrue always] at body ⊢; omega
    · simp at body ⊢; omega
  · simp at all ⊢
    omega

theorem Counts.forLoop (head exit : Label) (inits : Counts i ops) (body : Counts [b] ops')
    (updates : Counts u ops'') : Counts [.forLoop i c u b]
      (ops ++ (if !(!c.isMissing && !isTrue c) then [] else [Operation.branch (negated c) exit]) ++
        ops' ++ ops'' ++ [Operation.jump head]) := by
  -- the test is left out where there is no condition or it always holds
  have without (left : (!(!c.isMissing && !isTrue c)) = true) : yieldCount c = 0 := by
    cases c <;> first | rfl | cases left
  generalize (!(!c.isMissing && !isTrue c)) = left at without ⊢
  obtain ⟨own, copied, all⟩ := inits
  obtain ⟨own', copied', all'⟩ := body
  obtain ⟨own'', copied'', all''⟩ := updates
  refine ⟨?_, fun state => ?_, ?_⟩
  · simp [own, own', own'', countP_branchUnless, Nat.add_assoc]
  · have body := copied' state
    simp [copied, copied'', yieldCountAll_branchUnless without] at body ⊢
    omega
  · simp at all all' all'' ⊢
    omega

end

/-- The rules count right. -/
theorem Adds.counts {vars loops : List String} (h : Adds ss ops vars loops) : Counts ss ops := by
  induction h with
  | none => exact ⟨rfl, fun _ => rfl, rfl⟩
  | sequence _ _ first others => exact first.append others
  | plain whole other =>
    exact .silent (yieldCount_of_whole whole) rfl fun state => by
      simpa using yieldCount_of_whole whole
  -- a variable without a value leaves no operation
  | declared whole => exact .silent (yieldCount_of_whole whole) rfl fun _ => rfl
  | @initialized t i n ms as whole =>
    have none_ := yieldCount_of_whole whole
    have value := yieldCount_initialValue_le t i
    refine .silent none_ rfl fun state => ?_
    simp at none_ ⊢
    omega
  | @yield r v m ts l yields =>
    refine ⟨by simp [yields], fun state => ?_, ?_⟩
    · have written := yieldCountAll_written_yield v l state
      simpa [yields, -Operation.written] using written
    · simp [yields, yieldCount_receiver yields]
      omega
  | block _ _ ih =>
    obtain ⟨own, copied, all⟩ := ih
    exact ⟨by simpa using own, fun state => by simpa using copied state, by simpa using all⟩
  | ifThen l _ _ ih =>
    obtain ⟨own, copied, all⟩ := ih
    refine ⟨by simpa using own, fun state => ?_, ?_⟩
    · have yes := copied state
      simp [negated] at yes ⊢
      omega
    · simp at all ⊢
      omega
  | ifElse l join ended _ _ _ yes no => exact .ifElse l join ended yes no
  | whileLoop head exit _ _ body => exact .whileLoop head exit body
  | doLoop head _ _ body => exact .doLoop head body
  | forLoop head exit _ _ _ _ inits body updates => exact .forLoop head exit inits body updates
  | foreach head exit _ _ ih =>
    obtain ⟨own, copied, all⟩ := ih
    refine ⟨?_, fun state => ?_, ?_⟩
    · simpa using own
    · have body := copied state
      simp [negated, Code.invoke, isYield] at body ⊢
      omega
    · simp at all ⊢
      omega
  | jump l jumps => exact .silent (yieldCount_of_jumpOf jumps) rfl fun state => rfl
  | kept kind silent =>
    have none_ := containsYield_eq_false.mp silent
    refine .silent none_ rfl fun state => ?_
    have jumps (l : Option Nat) : yieldCount (.block (goTo (l.getD 0))) = 0 := by simp
    simp [yieldCount_rerouted (fun k => jumps _), none_]

end

/-! ## The machine -/

/-- The states of a machine are made of the states of its compilation, one by one. -/
theorem Machine.WellFormed.forall₂ {m : Machine} {c : Compiler} (h : m.WellFormed c) :
    List.Forall₂ (fun s ops => s.Renders c m.states.length ops) m.states c.states := by
  have length : m.states.length = c.states.length := by
    have numbered := congrArg List.length h.numbered
    rwa [List.length_map, List.length_range] at numbered
  refine List.forall₂_iff_get.mpr ⟨length, fun i here there => ?_⟩
  exact (h.renders i _ _ (List.getElem?_eq_getElem here) (List.getElem?_eq_getElem there)).2

/-- A state produces an element just if there is a yield among its operations, and there is at most
one. -/
theorem State.Renders.countP {s : State} {c : Compiler} {count : Nat} {ops : List Operation}
    (h : s.Renders c count ops) :
    ops.countP Operation.isYield = if s.transition == .emit then 1 else 0 := by
  -- a yield ends its state, so that it can only be the last operation
  have inner : ops.dropLast.countP Operation.isYield = 0 := by
    refine List.countP_eq_zero.mpr fun o member yields => ?_
    have ends := h.ended o member
    cases o with
    | yield => cases ends
    | _ => cases yields
  cases ops using List.reverseRecOn with
  | nil =>
    have silent : s.transition ≠ .emit := fun emits => by
      obtain ⟨v, l, last⟩ := h.emit.mp emits
      cases last
    simp [silent]
  | append_singleton ops o =>
    rw [List.dropLast_concat] at inner
    rw [List.countP_append, inner, List.countP_singleton, Nat.zero_add]
    have emit := h.emit
    rw [List.getLast?_concat] at emit
    cases o <;> simp_all [Operation.isYield]

theorem countP_emit {count : Nat} {c : Compiler} {states : List State}
    {all : List (List Operation)}
    (h : List.Forall₂ (fun s ops => State.Renders s c count ops) states all) :
    states.countP (·.transition == .emit) = all.flatten.countP Operation.isYield := by
  induction h with
  | nil => rfl
  | cons here _ ih =>
    rw [List.countP_cons, List.flatten_cons, List.countP_append, ih, here.countP]
    exact Nat.add_comm _ _

theorem flatMap_stmts {count : Nat} {c : Compiler} {states : List State}
    {all : List (List Operation)}
    (h : List.Forall₂ (fun s ops => State.Renders s c count ops) states all) :
    states.flatMap State.stmts = all.flatten.flatMap (Operation.written c.stateOf) := by
  induction h with
  | nil => rfl
  | cons here _ ih =>
    rw [List.flatMap_cons, List.flatten_cons, List.flatMap_append, ih, here.written]

/-- The statements of a machine. -/
def Machine.stmts (m : Machine) : List Code := m.states.flatMap State.stmts

/-- The states of a machine that produce an element. -/
def Machine.emitting (m : Machine) : Nat := m.states.countP (·.transition == .emit)

/-- **Where the yields of a body go.** A body that compiles has as many states that produce an
element as it has yields that stand as statements. Its other yields are those in what is copied into
states, which are the yields that survive, and those in what is dropped. So no yield survives and
every yield is a statement of its own, with a state, just if nothing that is copied or dropped
contains one. -/
theorem compile_yields {body : List Code} {m : Machine} (h : compile body = .ok m) :
    m.emitting = ownYieldsAll body ∧ yieldCountAll m.stmts = copiedYieldsAll body ∧
      yieldCountAll body = ownYieldsAll body + copiedYieldsAll body + droppedYieldsAll body ∧
      (anyYield m.stmts = false ∧ m.emitting = yieldCountAll body ∧
          ownYieldsAll body = yieldCountAll body ↔
        copiedYieldsAll body = 0 ∧ droppedYieldsAll body = 0) := by
  obtain ⟨c, ops, vars, loops, adds, gains, -, wellFormed⟩ := compile_adds h
  obtain ⟨own, copied, all⟩ := adds.counts
  have operations : c.states.flatten = ops := by
    rw [← Compiler.ops_eq_flatten, gains.ops]
    rfl
  have emitting : m.emitting = ownYieldsAll body := by
    rw [Machine.emitting, countP_emit wellFormed.forall₂, operations, own]
  have surviving : yieldCountAll m.stmts = copiedYieldsAll body := by
    rw [Machine.stmts, flatMap_stmts wellFormed.forall₂, operations, copied]
  refine ⟨emitting, surviving, all, ?_⟩
  rw [anyYield_eq_false, surviving, emitting, all]
  omega

/-- `if (yield(1)) yield(2); yield(yield(3));` -/
def nestedYields : List Code :=
  let yield (v : Code) : Code := .call .missing "yield" [] [v]
  [.ifThen (yield (.int 1)) (yield (.int 2)) .missing, yield (yield (.int 3))]

theorem nestedYields_compiles : ∃ m, compile nestedYields = .ok m ∧
    (anyYield m.stmts, m.emitting) = (true, 2) :=
  exists_machine (f := fun m => (anyYield m.stmts, m.emitting)) (by decide)

theorem compile_yields_nested : ∃ m, compile nestedYields = .ok m ∧ m.emitting = 2 ∧
    yieldCountAll m.stmts = 2 ∧ yieldCountAll nestedYields = 4 := by
  obtain ⟨m, compiles, -⟩ := nestedYields_compiles
  obtain ⟨own, copied, all, -⟩ := compile_yields compiles
  exact ⟨m, compiles, own, copied, all⟩

/-- The condition of a statement that is cut and the value of a yield are not looked into, so that
yields in them are left in the states. -/
theorem nestedYields_survive : ∃ m, compile nestedYields = .ok m ∧ anyYield m.stmts = true ∧
    m.emitting ≠ yieldCountAll nestedYields := by
  obtain ⟨m, compiles, found⟩ := nestedYields_compiles
  obtain ⟨survives, emitting⟩ := Prod.mk.inj found
  have all : yieldCountAll nestedYields = 4 := by decide
  exact ⟨m, compiles, survives, by rw [emitting, all]; decide⟩

end Weaver.Generator
