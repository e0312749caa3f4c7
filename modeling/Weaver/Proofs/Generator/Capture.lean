import Weaver.Proofs.Code.Strays
import Weaver.Proofs.Generator.FieldNames
import Weaver.Proofs.Generator.YieldCount
/-!
Names that a generator body takes from its surroundings.

A local variable of a statement that is cut becomes a field of the iterator class, and the scope of
a field is the whole class. A use of the same name outside of the scope of the variable, which was
one of the surroundings, now means the field, unless it is not copied. `fate` divides the uses of a
name by what becomes of them, and the machine has just those that it says are copied.
-/
set_option autoImplicit false

namespace Weaver.Generator

open Weaver.Code (declares opens begins strays straysAll straysCases)

/-! ## Variables that become fields -/

mutual

/-- The names of the variables that become fields. -/
def hoists : Code → List String
  | .localDecl _ n _ _ _ => [n]
  | s@(.block ss) => whereCut s (hoistsAll ss)
  | s@(.ifThen _ y n) => whereCut s (hoists y ++ hoists n)
  | s@(.whileLoop _ b) | s@(.doLoop b _) => whereCut s (hoists b)
  | s@(.forLoop i _ u b) => whereCut s (hoistsAll i ++ hoists b ++ hoistsAll u)
  | s@(.foreach (.localDecl _ n _ _ _) _ b) => whereCut s (n :: hoists b)
  | _ => []

/-- These names of statements one after the other. -/
def hoistsAll : List Code → List String
  | [] => []
  | s :: ss => hoists s ++ hoistsAll ss

end

theorem hoistsAll_singleton (s : Code) : hoistsAll [s] = hoists s :=
  List.append_nil _

variable {s : Code} {ss : List Code} {ops : List Operation} {vars loops : List String} {x : String}

theorem hoists_of_whole (whole : needsLowering s = false)
    (other : ∀ t n ms as i, s ≠ .localDecl t n ms as i) : hoists s = [] := by
  unfold hoists
  split <;> first
    | rfl
    | exact if_neg (by rw [whole]; exact Bool.false_ne_true)
    | exact absurd rfl (other _ _ _ _ _)

/-- The variables of a compilation are those that become fields. -/
theorem Adds.vars_eq (h : Adds ss ops vars loops) : vars = hoistsAll ss := by
  induction h with
  | none => rfl
  | sequence _ _ ih ih' => rw [ih, ih', hoistsAll_singleton, hoistsAll]
  | plain whole other => rw [hoistsAll_singleton, hoists_of_whole whole other]
  | declared | initialized => rfl
  | block cut _ ih => rw [hoistsAll_singleton, hoists, whereCut_of_cut cut, ih]
  | ifThen l cut _ ih =>
    rw [hoistsAll_singleton, hoists, whereCut_of_cut cut, ih, hoistsAll_singleton]
    exact (List.append_nil _).symm
  | ifElse l join ended cut _ _ ih ih' | whileLoop l l' cut _ ih | doLoop l cut _ ih
  | forLoop l l' cut _ _ _ ih ih' ih'' | foreach l l' cut _ ih =>
    simp only [hoistsAll_singleton, hoists, whereCut_of_cut cut, *, List.singleton_append]
  | yield => rfl
  | jump l jumps =>
    rw [hoistsAll_singleton]
    unfold hoists
    split <;> first
      | rfl
      | cases jumps
  | kept kind =>
    rw [hoistsAll_singleton]
    unfold hoists
    split <;> first
      | rfl
      | cases kind

/-! ## What becomes of the uses of a name -/

/-- The uses of a name, by what becomes of them. -/
structure Fate where
  /-- They are copied and mean a variable that became a field, or they were added to give it its
  value. -/
  own : Nat
  /-- They are copied and meant something of the surroundings. -/
  outer : Nat
  /-- They meant something of the surroundings, and are not copied. -/
  lost : Nat
deriving DecidableEq

namespace Fate

/-- Nothing is used. -/
def none : Fate := ⟨0, 0, 0⟩

instance : Add Fate := ⟨fun f g => ⟨f.own + g.own, f.outer + g.outer, f.lost + g.lost⟩⟩

/-- Uses that are copied, in the scope of a variable that became a field or not. -/
def copied (within : Bool) (n : Nat) : Fate := if within then ⟨n, 0, 0⟩ else ⟨0, n, 0⟩

/-- Uses that are not copied. -/
def dropped (within : Bool) (n : Nat) : Fate := if within then none else ⟨0, 0, n⟩

/-- Uses that are added. -/
def added (n : Nat) : Fate := ⟨n, 0, 0⟩

/-- The uses that are in the machine. -/
def kept (f : Fate) : Nat := f.own + f.outer

/-- The uses of the body that mean something of the surroundings. -/
def stray (f : Fate) : Nat := f.outer + f.lost

variable {f g : Fate} {within : Bool} {n : Nat}

@[simp] theorem kept_add : (f + g).kept = f.kept + g.kept := Nat.add_add_add_comm _ _ _ _

@[simp] theorem kept_none : none.kept = 0 := rfl

@[simp] theorem kept_copied : (copied within n).kept = n := by
  cases within
  · exact Nat.zero_add n
  · rfl

@[simp] theorem kept_dropped : (dropped within n).kept = 0 := by cases within <;> rfl

@[simp] theorem kept_added : (added n).kept = n := rfl

@[simp] theorem stray_add : (f + g).stray = f.stray + g.stray := Nat.add_add_add_comm _ _ _ _

@[simp] theorem stray_none : none.stray = 0 := rfl

@[simp] theorem stray_copied : (copied within n).stray = if within then 0 else n := by
  cases within <;> rfl

@[simp] theorem stray_dropped : (dropped within n).stray = if within then 0 else n := by
  cases within
  · exact Nat.zero_add n
  · rfl

@[simp] theorem stray_added : (added n).stray = 0 := rfl

end Fate

/-- What becomes of the uses of a name in a statement that is copied as a whole, unless it is cut. -/
def unlessCut (x : String) (within : Bool) (s : Code) (f : Fate) : Fate :=
  if needsLowering s then f else .copied within (s.strays x)

mutual

/-- What becomes of the uses of a name in a statement, which may be in the scope of a variable that
became a field. -/
@[simp]
def fate (x : String) (within : Bool) : Code → Fate
  | .localDecl _ n _ as i =>
    .dropped within (straysAll x as) + .added (if i.isMissing then 0 else begins x n) +
      .copied (within || n == x) (i.strays x)
  | s@(.call r _ _ as) =>
    if isYield s then .dropped within (r.strays x) + .copied within (straysAll x as)
    else .copied within (s.strays x)
  | s@(.block ss) => unlessCut x within s (fateAll x within ss)
  | s@(.ifThen c y n) =>
    unlessCut x within s (.copied within (c.strays x) + fate x within y + fate x within n)
  | s@(.whileLoop c b) | s@(.doLoop b c) =>
    unlessCut x within s (.copied within (c.strays x) + fate x within b)
  | s@(.forLoop i c u b) =>
    let within' := within || i.any (declares x)
    unlessCut x within s (fateAll x within i +
      (.copied within' (c.strays x) + fateAll x within' u + fate x within' b))
  | s@(.foreach (.localDecl _ n _ as i) e b) =>
    let within' := within || n == x
    unlessCut x within s (.dropped within (straysAll x as) + .dropped within' (i.strays x) +
      .copied within (e.strays x) + .added (begins x n) + fate x within' b)
  | s => .copied within (s.strays x)

/-- The same of statements one after the other. -/
@[simp]
def fateAll (x : String) (within : Bool) : List Code → Fate
  | [] => .none
  | s :: ss => fate x within s + fateAll x (within || s.declares x) ss

end

theorem unlessCut_of_cut {within : Bool} {f : Fate} (cut : needsLowering s = true) :
    unlessCut x within s f = f :=
  if_pos cut

theorem fate_of_whole {within : Bool} (whole : needsLowering s = false)
    (other : ∀ t n ms as i, s ≠ .localDecl t n ms as i) :
    fate x within s = .copied within (s.strays x) := by
  have left (f : Fate) : unlessCut x within s f = .copied within (s.strays x) :=
    if_neg (by rw [whole]; exact Bool.false_ne_true)
  cases s with
  | localDecl => exact absurd rfl (other _ _ _ _ _)
  | call r m ts as =>
    refine if_neg fun yields => ?_
    have silent := (needsLowering_eq_false whole).1
    rw [containsYield_eq_false, yieldCount_call, if_pos yields] at silent
    omega
  | foreach v => cases v <;> first | rfl | exact left _
  | block | ifThen | whileLoop | doLoop | forLoop => exact left _
  | _ => rfl

theorem fate_of_kept {within : Bool} (kind : isKept s = true) :
    fate x within s = .copied within (s.strays x) := by
  cases s <;> first
    | rfl
    | cases kind

theorem stray_unlessCut {within : Bool} {f : Fate}
    (inside : f.stray = if within then 0 else s.strays x) :
    (unlessCut x within s f).stray = if within then 0 else s.strays x := by
  unfold unlessCut
  split
  · exact inside
  · exact Fate.stray_copied

mutual

/-- Every use that means something of the surroundings is copied or lost. -/
theorem stray_fate (x : String) (within : Bool) (s : Code) :
    (fate x within s).stray = if within then 0 else s.strays x := by
  cases s with
  | localDecl t n ms as i => cases within <;> cases h : n == x <;> simp [h]
  | call r m ts as =>
    rw [fate]
    split
    · cases within <;> simp
    · exact Fate.stray_copied
  | block ss => exact stray_unlessCut (stray_fateAll x within ss)
  | ifThen c y n =>
    refine stray_unlessCut ?_
    cases within <;> simp [stray_fate x _ y, stray_fate x _ n]
  | whileLoop c b =>
    refine stray_unlessCut ?_
    cases within <;> simp [stray_fate x _ b]
  | doLoop b c =>
    refine stray_unlessCut ?_
    cases within <;> simp [stray_fate x _ b, Nat.add_comm]
  | forLoop i c u b =>
    refine stray_unlessCut ?_
    cases within <;> cases h : i.any (declares x) <;>
      simp [h, stray_fateAll x _ i, stray_fateAll x _ u, stray_fate x _ b]
  | foreach v e b =>
    cases v with
    | localDecl t n ms as i =>
      refine stray_unlessCut ?_
      cases within <;> cases h : n == x <;> simp [h, declares, stray_fate x _ b]
    | _ => exact Fate.stray_copied
  | _ => exact Fate.stray_copied

/-- The same of statements one after the other. -/
theorem stray_fateAll (x : String) (within : Bool) (ss : List Code) :
    (fateAll x within ss).stray = if within then 0 else straysAll x ss := by
  cases ss with
  | nil => cases within <;> rfl
  | cons s ss =>
    rw [fateAll, Fate.stray_add, stray_fate, stray_fateAll]
    cases within <;> cases h : s.declares x <;> simp [h]

end

/-! ## Kept statements -/

theorem begins_stateField (plain : x.startsWith "$" = false) : begins x stateField = 0 :=
  Code.begins_dollar plain "state"

theorem straysAll_goTo (plain : x.startsWith "$" = false) (n : Nat) : straysAll x (goTo n) = 0 := by
  simp [goTo, begins_stateField plain, Code.int]

/-- Two statements use and declare a name alike. -/
structure Alike (x : String) (s s' : Code) : Prop where
  strays : s'.strays x = s.strays x
  declares : s'.declares x = s.declares x
  opens : s'.opens x = s.opens x

/-- Two lists of statements, or of the cases of a `switch` statement, do so. -/
structure AllAlike (x : String) (ss ss' : List Code) : Prop where
  all : straysAll x ss' = straysAll x ss
  cases : straysCases x ss' = straysCases x ss
  declares : ss'.any (Code.declares x) = ss.any (Code.declares x)

theorem Alike.refl (s : Code) : Alike x s s := ⟨rfl, rfl, rfl⟩

section

variable {f : Leave → Code}

mutual

/-- Replacing jumps brings no uses and takes none away. -/
theorem alike_rerouted (plain : x.startsWith "$" = false)
    (jumps : ∀ k, ∃ n, f k = .block (goTo n)) (s : Code) (a : Around) :
    Alike x s (rerouted f a s) := by
  have jump {s : Code} (k : Leave) (silent : s.strays x = 0) (undeclared : s.declares x = false)
      (closed : s.opens x = false) : Alike x s (f k) := by
    obtain ⟨n, same⟩ := jumps k
    rw [same]
    exact ⟨by rw [silent, strays, straysAll_goTo plain], undeclared.symm, closed.symm⟩
  cases s with
  | returning e => cases e <;> first | exact jump .finish rfl rfl rfl | exact .refl _
  | returnDefault => exact jump .finish rfl rfl rfl
  | breaking l =>
    rw [rerouted]
    split
    · exact jump .exit rfl rfl rfl
    · exact .refl _
  | continuing l =>
    rw [rerouted]
    split
    · exact jump .next rfl rfl rfl
    · exact .refl _
  | block ss => exact ⟨(allAlike_rerouted plain jumps ss a).all, rfl, rfl⟩
  | ifThen c y n =>
    refine ⟨?_, rfl, rfl⟩
    rw [rerouted, strays, strays, (alike_rerouted plain jumps y a).strays,
      (alike_rerouted plain jumps n a).strays]
  | whileLoop c b | doLoop b c | forLoop i c u b | foreach v e b | labeled l b
  | synchronizedOn e b | catchClause v b =>
    refine ⟨?_, rfl, rfl⟩
    rw [rerouted, strays, strays, (alike_rerouted plain jumps b _).strays]
  | switchOn e cs =>
    refine ⟨?_, rfl, rfl⟩
    rw [rerouted, strays, strays, (allAlike_rerouted plain jumps cs _).cases]
  | switchCase p ss =>
    have inside := allAlike_rerouted plain jumps ss a
    refine ⟨?_, rfl, inside.declares⟩
    rw [rerouted, strays, strays, inside.all]
  | tryCatch b cs g =>
    refine ⟨?_, rfl, rfl⟩
    rw [rerouted, strays, strays, (alike_rerouted plain jumps b a).strays,
      (allAlike_rerouted plain jumps cs a).all, (alike_rerouted plain jumps g a).strays]
  | _ => exact .refl _

/-- The same of statements one after the other. -/
theorem allAlike_rerouted (plain : x.startsWith "$" = false)
    (jumps : ∀ k, ∃ n, f k = .block (goTo n)) (ss : List Code) (a : Around) :
    AllAlike x ss (reroutedAll f a ss) := by
  cases ss with
  | nil => exact ⟨rfl, rfl, rfl⟩
  | cons s ss =>
    have here := alike_rerouted plain jumps s a
    have others := allAlike_rerouted plain jumps ss a
    refine ⟨?_, ?_, ?_⟩
    · rw [reroutedAll, straysAll, straysAll, here.strays, here.declares, others.all]
    · rw [reroutedAll, straysCases, straysCases, here.strays, here.opens, others.cases]
    · rw [reroutedAll, List.any_cons, List.any_cons, here.declares, others.declares]

end

end

/-! ## What the rules copy -/

/-- The statement of an operation declares no variable of the name. -/
def Operation.settled (x : String) : Operation → Bool
  | .stmt s | .kept _ s _ => !s.declares x
  | _ => true

/-- How often the statements of operations use a name. -/
def uses (x : String) (state : Label → Nat) (ops : List Operation) : Nat :=
  straysAll x (ops.flatMap (Operation.written state))

theorem settled_unless {b : Bool} {o : Operation} (h : o.settled x = true) :
    (if b then [] else [o] : List Operation).all (Operation.settled x) = true := by
  cases b
  · exact Bool.and_eq_true_iff.mpr ⟨h, rfl⟩
  · rfl

/-- No variable of the statements is left where it was declared. -/
theorem Adds.settled (h : Adds ss ops vars loops) : ops.all (Operation.settled x) = true := by
  induction h with
  | none | declared | initialized | yield | jump => rfl
  | sequence _ _ ih ih' => rw [List.all_append, ih, ih', Bool.and_true]
  | @plain s _ other =>
    cases s <;> first
      | rfl
      | exact absurd rfl (other _ _ _ _ _)
  | block _ _ ih => exact ih
  | ifThen _ _ _ ih => exact ih
  | ifElse l join ended _ _ _ ih ih' =>
    rw [List.all_append, List.all_append, List.all_append, ih, ih', settled_unless rfl]
    rfl
  | whileLoop head exit _ _ ih =>
    rw [List.all_append, List.all_append, ih, settled_unless rfl]
    rfl
  | doLoop _ _ _ ih =>
    rw [List.all_append, ih]
    split <;> rfl
  | forLoop _ _ _ _ _ _ ih ih' ih'' =>
    rw [List.all_append, List.all_append, List.all_append, List.all_append, ih, ih', ih'',
      settled_unless rfl]
    rfl
  | foreach _ _ _ _ ih =>
    rw [List.all_append, List.all_append, ih]
    rfl
  | @kept s _ _ kind =>
    cases s <;> first
      | rfl
      | cases kind

theorem strays_initialValue (t i : Code) : (initialValue t i).strays x = i.strays x := by
  unfold initialValue
  split <;> simp

theorem strays_of_isTrue {c : Code} (always : isTrue c = true) : c.strays x = 0 := by
  cases c <;> first | rfl | cases always

theorem fate_of_jumpOf {j : Jump} (jumps : jumpOf s = some j) (within : Bool) :
    (fate x within s).kept = 0 := by
  cases s
  case returning e =>
    cases e <;> first | exact Fate.kept_copied | cases jumps
  all_goals first
    | exact Fate.kept_copied
    | cases jumps

section

variable {state : Label → Nat} {l : Label}

theorem straysAll_singleton (s : Code) : straysAll x [s] = s.strays x := by simp

theorem declares_written (plain : x.startsWith "$" = false)
    (settled : ops.all (Operation.settled x) = true) :
    ∀ s ∈ ops.flatMap (Operation.written state), s.declares x = false := by
  intro s member
  obtain ⟨o, among, written⟩ := List.mem_flatMap.mp member
  have undeclared := List.all_eq_true.mp settled o among
  cases o with
  | stmt => simpa [List.mem_singleton.mp written, Operation.settled] using undeclared
  | kept c s' loop =>
    have same := (alike_rerouted plain (fun k => ⟨((leaveLabel loop k).map state).getD 0, rfl⟩)
      s' .nothing).declares
    rw [List.mem_singleton.mp written, same]
    simpa [Operation.settled] using undeclared
  | jump => obtain rfl | rfl := List.mem_pair.mp written <;> rfl
  | branch =>
    rw [List.mem_singleton.mp written]
    rfl
  | yield =>
    obtain rfl | written := List.mem_cons.mp written
    · rfl
    · obtain rfl | rfl := List.mem_pair.mp written <;> rfl

/-- Operations that declare nothing come one after the other. -/
theorem uses_append (plain : x.startsWith "$" = false) {ops ops' : List Operation}
    (settled : ops.all (Operation.settled x) = true) :
    uses x state (ops ++ ops') = uses x state ops + uses x state ops' := by
  rw [uses, List.flatMap_append]
  exact Code.straysAll_append (declares_written plain settled)

theorem uses_stmt (s : Code) : uses x state [.stmt s] = s.strays x :=
  straysAll_singleton s

theorem uses_kept (plain : x.startsWith "$" = false) (construct : String) (s : Code)
    (loop : Option Loop) : uses x state [.kept construct s loop] = s.strays x :=
  (straysAll_singleton _).trans (alike_rerouted plain (fun _ => ⟨_, rfl⟩) s .nothing).strays

theorem uses_jump (plain : x.startsWith "$" = false) : uses x state [.jump l] = 0 := by
  rw [uses, List.flatMap_singleton]
  exact straysAll_goTo plain _

theorem uses_branch (plain : x.startsWith "$" = false) (c : Code) :
    uses x state [.branch c l] = c.strays x := by
  simp [uses, Operation.written, straysAll_goTo plain]

theorem strays_negated (c : Code) : (negated c).strays x = c.strays x :=
  rfl

theorem uses_yield (plain : x.startsWith "$" = false) (v : Code) :
    uses x state [.yield v l] = v.strays x := by
  have next : begins x nextField = 0 := Code.begins_dollar plain "next"
  simp [uses, Operation.written, Code.int, next, begins_stateField plain, declares]

/-- A branch that is left out where its condition always holds. -/
theorem uses_branchUnless (plain : x.startsWith "$" = false) {c : Code} {b : Bool}
    (left : b = true → c.strays x = 0) :
    uses x state (if b then [] else [.branch (negated c) l]) = c.strays x := by
  cases b with
  | true => exact (left rfl).symm
  | false => exact uses_branch plain (negated c)

end

/-- The operations of statements use a name as often as is said to be kept of its uses. -/
theorem Adds.uses_eq (plain : x.startsWith "$" = false) (h : Adds ss ops vars loops)
    (state : Label → Nat) (within : Bool) : uses x state ops = (fateAll x within ss).kept := by
  have single {s : Code} {within : Bool} : (fateAll x within [s]).kept = (fate x within s).kept := by
    rw [fateAll, fateAll, Fate.kept_add, Fate.kept_none, Nat.add_zero]
  induction h generalizing within with
  | none => rfl
  | sequence first others ih ih' =>
    rw [uses_append plain first.settled, ih within, ih', single, fateAll, Fate.kept_add]
  | plain whole other => rw [single, uses_stmt, fate_of_whole whole other, Fate.kept_copied]
  | declared whole =>
    rw [single, fate]
    simp [Code.isMissing, uses]
  | initialized whole value =>
    rw [single, uses_stmt, fate, value]
    simp [strays_initialValue]
  | yield l yields =>
    rw [single, uses_yield plain, fate, if_pos yields]
    simp
  | block cut _ ih => rw [single, fate, unlessCut_of_cut cut, ih within]
  | ifThen l cut yes ih =>
    rw [uses_append plain rfl, uses_branch plain, strays_negated, ih within, single, single, fate,
      unlessCut_of_cut cut]
    simp
  | ifElse l join ended cut yes no ih ih' =>
    have joined : uses x state (if ended then [] else [.jump join]) = 0 := by
      cases ended
      · exact uses_jump plain
      · rfl
    rw [List.append_assoc, List.append_assoc, uses_append plain rfl, uses_branch plain,
      strays_negated, uses_append plain yes.settled, ih within, uses_append plain (settled_unless rfl), joined,
      ih' within, single, single, single, fate, unlessCut_of_cut cut]
    simp [Nat.add_assoc]
  | whileLoop head exit cut body ih =>
    rw [List.append_assoc, uses_append plain (settled_unless rfl),
      uses_branchUnless plain strays_of_isTrue, uses_append plain body.settled, ih within,
      uses_jump plain, single, single, fate, unlessCut_of_cut cut]
    simp
  | @doLoop c b _ _ _ head cut body ih =>
    have test : uses x state [if isTrue c then .jump head else .branch c head] = c.strays x := by
      split
      · next always => rw [uses_jump plain, strays_of_isTrue always]
      · exact uses_branch plain c
    rw [uses_append plain body.settled, ih within, test, single, single, fate,
      unlessCut_of_cut cut]
    simp [Nat.add_comm]
  | @forLoop i u c b _ _ _ _ _ _ _ _ _ head exit cut inits body updates ih ih' ih'' =>
    -- the test is left out where there is no condition or it always holds
    have without (left : (!(!c.isMissing && !isTrue c)) = true) : c.strays x = 0 := by
      cases c <;> first | rfl | cases left
    rw [List.append_assoc, List.append_assoc, List.append_assoc, uses_append plain inits.settled,
      ih within, uses_append plain (settled_unless rfl), uses_branchUnless plain without,
      uses_append plain body.settled, ih' (within || i.any (declares x)),
      uses_append plain updates.settled, ih'' (within || i.any (declares x)), uses_jump plain,
      single, single, fate, unlessCut_of_cut cut]
    simp
    omega
  | @foreach t e b i n ms as _ _ _ head exit cut body ih =>
    have cursor : begins x (cursorName n) = 0 := by
      rw [cursorName, String.append_assoc]
      exact Code.begins_dollar plain _
    rw [List.append_assoc, List.append_assoc, List.append_assoc, uses_append plain rfl, uses_stmt,
      uses_append plain rfl, uses_branch plain, strays_negated, uses_append plain rfl, uses_stmt,
      uses_append plain body.settled, ih (within || n == x), uses_jump plain, single, single, fate,
      unlessCut_of_cut cut]
    simp [cursor, Code.invoke]
    omega
  | jump l jumps => rw [single, uses_jump plain, fate_of_jumpOf jumps]
  | kept kind => rw [single, uses_kept plain, fate_of_kept kind, Fate.kept_copied]

/-! ## The machine -/

/-- The cases of a machine's `switch` statement declare nothing that they use. -/
theorem straysCases_states {states : List State}
    (settled : ∀ s ∈ states, ∀ c ∈ s.stmts, c.declares x = false) (more : List Code) :
    straysCases x (states.map (fun s => Code.switchCase (.int s.id) s.stmts) ++ more) =
      straysAll x (states.flatMap State.stmts) + straysCases x more := by
  induction states with
  | nil => exact (Nat.zero_add _).symm
  | cons s states ih =>
    obtain ⟨here, others⟩ := List.forall_mem_cons.mp settled
    have closed : opens x (.switchCase (.int s.id) s.stmts) = false :=
      List.any_eq_false.mpr fun c member => Bool.eq_false_iff.mp (here c member)
    rw [List.map_cons, List.cons_append, straysCases, closed, List.flatMap_cons,
      Code.straysAll_append here, Nat.add_assoc, ← ih others]
    simp [Code.int]

/-- The name is that of a field of the machine. -/
def Machine.Declares (m : Machine) (x : String) : Prop := x ∈ m.fields.map Code.fieldName

/-- Where the machine has a field of the name, all uses of the name that can mean the field were
uses of a variable of the body. -/
def Machine.Spares (m : Machine) (x : String) (body : List Code) : Prop :=
  m.Declares x → m.switch.strays x = (fateAll x false body).own

/-- The variables of the body are the fields of the machine without a dollar sign in front. -/
theorem declares_machine {c : Compiler} (gains : Compiler.start.Gains c ops vars loops)
    (plain : x.startsWith "$" = false) : c.machine.Declares x ↔ x ∈ vars := by
  have declared : c.Declared := gains.declared ⟨List.nodup_nil, rfl⟩
  have cursors : c.cursors = loops.map fun n => cursorField (cursorName n) := gains.cursors
  have other : x ∉ loops.map cursorName := by
    intro among
    obtain ⟨n, -, rfl⟩ := List.mem_map.mp among
    rw [cursorName_dollar] at plain
    cases plain
  rw [Machine.Declares, Compiler.machine, List.map_append, declared.fieldNames, cursors,
    fieldNames_cursors, List.mem_append, gains.hoisted]
  have start : x ∉ Compiler.start.hoisted := List.not_mem_nil
  rw [or_iff_left other, or_iff_right start]

/-- **Which names a machine captures.** A name without a dollar sign in front is that of a field of
the machine just if a statement that is cut declares a variable of the name. The uses of the name
that can mean the field are those of such variables and those uses of a name of the surroundings
that are copied. So where it has the field, the machine takes no name of the surroundings for it just
if none of their uses is copied. -/
theorem compile_captures {body : List Code} {m : Machine} (h : compile body = .ok m) {x : String}
    (plain : x.startsWith "$" = false) :
    (m.Declares x ↔ x ∈ hoistsAll body) ∧
      m.switch.strays x = (fateAll x false body).own + (fateAll x false body).outer ∧
      straysAll x body = (fateAll x false body).outer + (fateAll x false body).lost ∧
      (m.Spares x body ↔ x ∉ hoistsAll body ∨ (fateAll x false body).outer = 0) := by
  obtain ⟨c, ops, vars, loops, adds, gains, rfl, wellFormed⟩ := compile_adds h
  have operations : c.states.flatten = ops := by
    rw [← Compiler.ops_eq_flatten, gains.ops]
    rfl
  have statements : c.machine.states.flatMap State.stmts =
      ops.flatMap (Operation.written c.stateOf) := by
    rw [flatMap_stmts wellFormed.forall₂, operations]
  have settled : ∀ s ∈ c.machine.states, ∀ d ∈ s.stmts, d.declares x = false := by
    intro s among d member
    have written : d ∈ ops.flatMap (Operation.written c.stateOf) := by
      rw [← statements]
      exact List.mem_flatMap.mpr ⟨s, among, member⟩
    exact declares_written plain adds.settled d written
  have declared : c.machine.Declares x ↔ x ∈ hoistsAll body := by
    rw [declares_machine gains plain, adds.vars_eq]
  have used : c.machine.switch.strays x = (fateAll x false body).kept := by
    rw [Machine.switch, strays, strays, begins_stateField plain, Nat.zero_add,
      straysCases_states settled, statements, ← adds.uses_eq plain c.stateOf false]
    rfl
  refine ⟨declared, used, (stray_fateAll x false body).symm, ?_⟩
  rw [Machine.Spares, declared, used, Fate.kept]
  constructor
  · intro spares
    by_cases hoisted : x ∈ hoistsAll body
    · exact .inr (Nat.add_eq_left.mp (spares hoisted))
    · exact .inl hoisted
  · rintro (other | none_) hoisted
    · exact absurd hoisted other
    · rw [none_, Nat.add_zero]

/-- `{ int x = 1; yield(x); } foo(x);` -/
def blockAndUse : List Code :=
  [.block [.localDecl (.type "int") "x" .empty [] (.int 1),
      .call .missing "yield" [] [.named "x"]],
    .call .missing "foo" [] [.named "x"]]

/-- The call `foo(x)`. -/
def isUse : Code → Bool
  | .call .missing "foo" [] [.named "x"] => true
  | _ => false

theorem compile_captures_blockAndUse : ∃ m, compile blockAndUse = .ok m ∧
    "x".startsWith "$" = false ∧ m.Declares "x" ∧ m.switch.strays "x" = 3 ∧
    ¬m.Spares "x" blockAndUse := by
  have fates : fateAll "x" false blockAndUse = ⟨2, 1, 0⟩ := by decide
  have hoisted : "x" ∈ hoistsAll blockAndUse := by decide
  have plain : "x".startsWith "$" = false := by simp
  have states : (compile blockAndUse).toOption.map (fun m => m.states.length) = some 3 := by
    decide
  obtain ⟨m, compiles, -⟩ := exists_machine states
  obtain ⟨declared, used, -, spares⟩ := compile_captures compiles plain
  refine ⟨m, compiles, plain, declared.mpr hoisted, ?_, ?_⟩
  · rw [used, fates]
    rfl
  · rw [spares, fates, not_or]
    exact ⟨not_not.mpr hoisted, by decide⟩

/-- The name in `foo(x)` is not that of the variable of the block, but the machine has a field of
the name and calls `foo(x)`. -/
theorem blockAndUse_captured : ∃ m, compile blockAndUse = .ok m ∧ m.Declares "x" ∧
    ∃ c ∈ m.stmts, isUse c = true ∧ c.strays "x" = 1 ∧ straysAll "x" blockAndUse = 1 := by
  have uses : straysAll "x" blockAndUse = 1 := by decide
  have found : (compile blockAndUse).toOption.map (fun m =>
      (m.fields.map Code.fieldName, m.stmts.any fun c => isUse c && c.strays "x" == 1)) =
        some (["x"], true) := by
    decide
  obtain ⟨m, compiles, same⟩ := exists_machine found
  obtain ⟨fields, copied⟩ := Prod.mk.inj same
  obtain ⟨c, member, here⟩ := List.any_eq_true.mp copied
  obtain ⟨here, stray⟩ := Bool.and_eq_true_iff.mp here
  refine ⟨m, compiles, ?_, c, member, here, eq_of_beq stray, uses⟩
  rw [Machine.Declares, fields]
  exact List.mem_singleton_self _

end Weaver.Generator
