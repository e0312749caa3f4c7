import Mathlib.Data.List.Nodup
import Weaver.Proofs.Generator.Contribution
/-!
The names of the fields of iterator classes.

A variable becomes one field, however often it is declared. But every loop over a collection that is
cut adds a cursor, and the cursor has its name from the variable of the loop. So where no name of a
variable starts with a dollar sign, the fields have different names just if the loops that are cut
have different variables.
-/
set_option autoImplicit false

namespace Weaver

/-- The names of the fields of a class. -/
def Code.fieldNames : Code → List String
  | .classDecl _ _ _ _ _ _ _ _ fs _ _ => fs.map fieldName
  | _ => []

/-- The variable that is declared. -/
def Code.variable? : Code → Option String
  | .localDecl _ n _ _ _ => some n
  | _ => none

namespace Generator

/-! ## Loops with cursors -/

/-- The names, where the statement is cut. -/
def whereCut (s : Code) (names : List String) : List String :=
  if needsLowering s then names else []

mutual

/-- The variables of the loops over collections that are cut, in the order of the loops. -/
def cutLoops : Code → List String
  | s@(.block ss) => whereCut s (cutLoopsAll ss)
  | s@(.ifThen _ y n) => whereCut s (cutLoops y ++ cutLoops n)
  | s@(.whileLoop _ b) | s@(.doLoop b _) => whereCut s (cutLoops b)
  | s@(.forLoop i _ u b) => whereCut s (cutLoopsAll i ++ cutLoops b ++ cutLoopsAll u)
  | s@(.foreach (.localDecl _ n _ _ _) _ b) => whereCut s (n :: cutLoops b)
  | _ => []

/-- These variables in statements one after the other. -/
def cutLoopsAll : List Code → List String
  | [] => []
  | s :: ss => cutLoops s ++ cutLoopsAll ss

end

theorem cutLoopsAll_singleton (s : Code) : cutLoopsAll [s] = cutLoops s :=
  List.append_nil _

theorem whereCut_of_cut {s : Code} {names : List String} (cut : needsLowering s = true) :
    whereCut s names = names :=
  if_pos cut

theorem cutLoops_of_whole {s : Code} (whole : needsLowering s = false) : cutLoops s = [] := by
  unfold cutLoops
  split <;> first
    | rfl
    | exact if_neg (by rw [whole]; exact Bool.false_ne_true)

variable {ss : List Code} {ops : List Operation} {vars loops : List String}

/-- The loops that walk with a cursor are those that are cut. -/
theorem Adds.loops_eq (h : Adds ss ops vars loops) : loops = cutLoopsAll ss := by
  induction h with
  | none => rfl
  | sequence _ _ ih ih' => rw [ih, ih', cutLoopsAll_singleton, cutLoopsAll]
  | plain whole | declared whole | initialized whole =>
    rw [cutLoopsAll_singleton, cutLoops_of_whole whole]
  | block cut _ ih => rw [cutLoopsAll_singleton, cutLoops, whereCut_of_cut cut, ih]
  | ifThen l cut _ ih =>
    rw [cutLoopsAll_singleton, cutLoops, whereCut_of_cut cut, ih, cutLoopsAll_singleton]
    exact (List.append_nil _).symm
  | ifElse l join ended cut _ _ ih ih' | whileLoop l l' cut _ ih | doLoop l cut _ ih
  | forLoop l l' cut _ _ _ ih ih' ih'' | foreach l l' cut _ ih =>
    simp only [cutLoopsAll_singleton, cutLoops, whereCut_of_cut cut, *, List.singleton_append]
  | yield => rfl
  | jump l jumps =>
    rw [cutLoopsAll_singleton]
    unfold cutLoops
    split <;> first
      | rfl
      | cases jumps
  | kept kind =>
    rw [cutLoopsAll_singleton]
    unfold cutLoops
    split <;> first
      | rfl
      | cases kind

/-! ## Names of variables -/

/-- If the code declares a variable, its name does not start with a dollar sign. -/
def PlainName (c : Code) : Prop :=
  ∀ n ∈ c.variable?, n.startsWith "$" = false

instance : DecidablePred PlainName := fun c =>
  inferInstanceAs (Decidable (∀ n ∈ c.variable?, n.startsWith "$" = false))

/-- The variables that become fields are declared in the statements. -/
theorem Adds.plainNames (h : Adds ss ops vars loops) (plain : ∀ s ∈ ss, Everywhere PlainName s) :
    ∀ n ∈ vars, n.startsWith "$" = false := by
  induction h with
  | none | plain | yield | jump | kept => exact nofun
  | sequence _ _ ih ih' =>
    obtain ⟨first, others⟩ := List.forall_mem_cons.mp plain
    exact List.forall_mem_append.mpr ⟨ih (List.forall_mem_singleton.mpr first), ih' others⟩
  | declared | initialized =>
    rw [List.forall_mem_singleton, Everywhere.localDecl] at plain
    exact List.forall_mem_singleton.mpr (plain.1 _ rfl)
  | block _ _ ih =>
    rw [List.forall_mem_singleton, Everywhere.block] at plain
    exact ih plain.2
  | ifThen _ _ _ ih =>
    rw [List.forall_mem_singleton, Everywhere.ifThen] at plain
    exact ih (List.forall_mem_singleton.mpr plain.2.2.1)
  | ifElse _ _ _ _ _ _ ih ih' =>
    rw [List.forall_mem_singleton, Everywhere.ifThen] at plain
    exact List.forall_mem_append.mpr ⟨ih (List.forall_mem_singleton.mpr plain.2.2.1),
      ih' (List.forall_mem_singleton.mpr plain.2.2.2)⟩
  | whileLoop _ _ _ _ ih =>
    rw [List.forall_mem_singleton, Everywhere.whileLoop] at plain
    exact ih (List.forall_mem_singleton.mpr plain.2.2)
  | doLoop _ _ _ ih =>
    rw [List.forall_mem_singleton, Everywhere.doLoop] at plain
    exact ih (List.forall_mem_singleton.mpr plain.2.1)
  | forLoop _ _ _ _ _ _ ih ih' ih'' =>
    rw [List.forall_mem_singleton, Everywhere.forLoop] at plain
    obtain ⟨-, inits, -, updates, body⟩ := plain
    exact List.forall_mem_append.mpr ⟨List.forall_mem_append.mpr
      ⟨ih inits, ih' (List.forall_mem_singleton.mpr body)⟩, ih'' updates⟩
  | foreach _ _ _ _ ih =>
    rw [List.forall_mem_singleton, Everywhere.foreach, Everywhere.localDecl] at plain
    obtain ⟨-, ⟨name, -⟩, -, body⟩ := plain
    exact List.forall_mem_append.mpr ⟨List.forall_mem_singleton.mpr (name _ rfl),
      ih (List.forall_mem_singleton.mpr body)⟩

theorem cursorName_dollar (n : String) : (cursorName n).startsWith "$" = true := by
  rw [cursorName, String.append_assoc, String.startsWith_string_iff, String.toList_append]
  exact List.prefix_append _ _

/-! ## The fields of the class -/

/-- The fields with which every machine is run. -/
def controlFields : List String := [stateField, hasNextField, nextDefinedField, nextField]

theorem controlFields_dollar : ∀ f ∈ controlFields, f.startsWith "$" = true := by
  simp only [String.startsWith_string_iff]
  decide

theorem controlFields_last : ∀ f ∈ controlFields, f.toList.getLast? ≠ some 'r' := by decide

theorem fieldNames_classCode (m : Machine) (name : String) (elem : Code) (iterable : Bool) :
    (m.classCode name elem iterable).fieldNames = m.fields.map Code.fieldName ++ controlFields := by
  rw [Machine.classCode, Code.fieldNames, List.map_append]
  rfl

theorem Compiler.Declared.fieldNames {c : Compiler} (h : c.Declared) :
    c.fields.map Code.fieldName = c.hoisted := by
  rw [h.fields, List.map_map]
  rfl

theorem fieldNames_cursors (loops : List String) :
    (loops.map fun n => cursorField (cursorName n)).map Code.fieldName = loops.map cursorName := by
  rw [List.map_map]
  rfl

/-- Cursors have different names just if their loops have different variables, and no cursor has the
name of another field of the machine. -/
theorem nodup_cursors_control :
    (loops.map cursorName ++ controlFields).Nodup ↔ loops.Nodup := by
  -- cursors end with an `r`, which no field of the control does
  have apart : ∀ n ∈ loops.map cursorName, ∀ f ∈ controlFields, n ≠ f := by
    intro n among f control same
    obtain ⟨v, -, rfl⟩ := List.mem_map.mp among
    exact controlFields_last f control (same ▸ getLast_cursorName v)
  rw [List.nodup_append, List.nodup_map_iff fun _ _ => cursorName_injective]
  exact ⟨fun h => h.1, fun h => ⟨h, by decide, apart⟩⟩

/-- **Which fields a machine declares twice.** If no variable has a name that starts with a dollar
sign, the fields of the class have pairwise different names just if no two loops over collections
that are cut have the same variable: variables become one field each, but cursors are declared once
for each loop. -/
theorem compile_fields_nodup {body : List Code} {m : Machine} (h : compile body = .ok m)
    (plain : ∀ s ∈ body, Everywhere PlainName s) (name : String) (elem : Code) (iterable : Bool) :
    (m.classCode name elem iterable).fieldNames.Nodup ↔ (cutLoopsAll body).Nodup := by
  obtain ⟨c, ops, vars, loops, adds, gains, rfl, -⟩ := compile_adds h
  have declared : c.Declared := gains.declared ⟨List.nodup_nil, rfl⟩
  have cursors : c.cursors = loops.map fun n => cursorField (cursorName n) := gains.cursors
  have hoisted (n : String) : n ∈ c.hoisted ↔ n ∈ vars :=
    (gains.hoisted n).trans ⟨fun either => either.elim nofun id, .inr⟩
  have names : (c.machine.classCode name elem iterable).fieldNames =
      c.hoisted ++ (loops.map cursorName ++ controlFields) := by
    rw [fieldNames_classCode, Compiler.machine, List.map_append, declared.fieldNames, cursors,
      fieldNames_cursors, List.append_assoc]
  -- all names but those of variables start with a dollar sign
  have apart : ∀ n ∈ c.hoisted, ∀ f ∈ loops.map cursorName ++ controlFields, n ≠ f := by
    rintro n variable_ f other rfl
    have dollar : n.startsWith "$" = true := by
      obtain among | among := List.mem_append.mp other
      · obtain ⟨v, -, rfl⟩ := List.mem_map.mp among
        exact cursorName_dollar v
      · exact controlFields_dollar n among
    rw [adds.plainNames plain n ((hoisted n).mp variable_)] at dollar
    cases dollar
  rw [names, ← adds.loops_eq, List.nodup_append, nodup_cursors_control]
  exact ⟨fun h => h.2.1, fun h => ⟨declared.once, h, apart⟩⟩

/-- `for (A x : xs) yield(x); for (A y : ys) yield(y);` for any two variables. -/
def twoLoops (x y : String) : List Code :=
  let loop (v e : String) : Code :=
    .foreach (.localDecl (.type "A") v .empty [] .missing) (.named e)
      (.call .missing "yield" [] [.named v])
  [loop x "xs", loop y "ys"]

theorem compile_fields_nodup_twoLoops : ∃ m, compile (twoLoops "x" "y") = .ok m ∧
    (∀ s ∈ twoLoops "x" "y", Everywhere PlainName s) ∧
      (m.classCode "C" (.type "A") true).fieldNames.Nodup := by
  have plain : ∀ s ∈ twoLoops "x" "y", Everywhere PlainName s := by decide +kernel
  have different : (cutLoopsAll (twoLoops "x" "y")).Nodup := by decide +kernel
  have fields : (compile (twoLoops "x" "y")).toOption.map (·.fields.length) = some 4 := by
    decide +kernel
  obtain ⟨m, compiles, -⟩ := exists_machine fields
  exact ⟨m, compiles, plain,
    (compile_fields_nodup compiles plain "C" (.type "A") true).mpr different⟩

/-- Two loops one after the other with the same variable declare one field for the variable, and
their cursors twice. -/
theorem twoLoops_cursor_twice : ∃ m, compile (twoLoops "x" "x") = .ok m ∧
    (∀ s ∈ twoLoops "x" "x", Everywhere PlainName s) ∧
      ¬(m.classCode "C" (.type "A") true).fieldNames.Nodup := by
  have plain : ∀ s ∈ twoLoops "x" "x", Everywhere PlainName s := by decide +kernel
  have fields : (compile (twoLoops "x" "x")).toOption.map
      (fun m => (m.classCode "C" (.type "A") true).fieldNames) = some ["x", "$xIter", "$xIter",
        "$state", "$hasNext", "$nextDefined", "$next"] := by
    decide +kernel
  obtain ⟨m, compiles, names⟩ := exists_machine fields
  refine ⟨m, compiles, plain, ?_⟩
  rw [names]
  decide

end Generator

end Weaver
