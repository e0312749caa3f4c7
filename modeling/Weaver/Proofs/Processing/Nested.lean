import Weaver.Proofs.Processing.Schedule
/-!
How far down an annotation is checked.

A check looks at the members that an annotation is given and, through arrays, at what they consist
of (`Datum.leaves`). A nested annotation is where it stops: of one, nothing but its type is looked
at, which has to be known. So `AnnoUse.Checked` is all that a check that finds no fault can promise,
and whatever the members of nested annotations are, the check says the same (`Datum.hollow` leaves
them out).
-/
set_option autoImplicit false

namespace Weaver

open Weaver.Syntax (Tree Mark)

namespace Datum

/-! ## What a value consists of -/

/-- The value is no constant. -/
def isUnknown : Datum → Bool
  | unknown .. => true
  | _ => false

mutual

/-- What a value consists of: the elements of an array and of the arrays among them, and any other
value itself. -/
def leaves : Datum → List Datum
  | array _ es => leavesAll es
  | d => [d]

/-- What the values of a list consist of. -/
def leavesAll : List Datum → List Datum
  | [] => []
  | d :: ds => leaves d ++ leavesAll ds

end

mutual

/-- The annotations in a value, at any depth. -/
def uses : Datum → List AnnoUse
  | array _ es => usesAll es
  | nested _ t p h ns vs => ⟨t, p, h, ns, vs⟩ :: usesAll vs
  | _ => []

/-- The annotations in the values of a list, at any depth. -/
def usesAll : List Datum → List AnnoUse
  | [] => []
  | d :: ds => uses d ++ usesAll ds

end

mutual

/-- The value with the members of nested annotations left out. -/
def hollow : Datum → Datum
  | array p es => array p (hollowAll es)
  | nested p t q h _ _ => nested p t q h [] []
  | d => d

/-- The values with the members of nested annotations left out. -/
def hollowAll : List Datum → List Datum
  | [] => []
  | d :: ds => hollow d :: hollowAll ds

end

mutual

theorem isConstant_iff (d : Datum) : d.isConstant = true ↔ ∀ e ∈ d.leaves, e.isUnknown = false := by
  cases d with
  | array p es => exact areConstant_iff es
  | _ => simp [isConstant, leaves, isUnknown]

theorem areConstant_iff (ds : List Datum) :
    areConstant ds = true ↔ ∀ e ∈ leavesAll ds, e.isUnknown = false := by
  cases ds with
  | nil => simp [areConstant, leavesAll]
  | cons d ds =>
    rw [areConstant, leavesAll, Bool.and_eq_true, List.forall_mem_append, isConstant_iff d,
      areConstant_iff ds]

end

mutual

theorem isConstant_hollow (d : Datum) : d.hollow.isConstant = d.isConstant := by
  cases d with
  | array p es => exact areConstant_hollowAll es
  | _ => rfl

theorem areConstant_hollowAll (ds : List Datum) : areConstant (hollowAll ds) = areConstant ds := by
  cases ds with
  | nil => rfl
  | cons d ds =>
    rw [hollowAll, areConstant, areConstant, isConstant_hollow d, areConstant_hollowAll ds]

end

end Datum

/-! ## What a check sees -/

namespace AnnoUse

/-- What a check that finds no fault has seen: the members that are given are declared, what they
consist of is understood, and those that are required are given. -/
structure Checked (u : AnnoUse) : Prop where
  declared : ∀ x ∈ u.names.zip u.values, (u.type.member? x.1).isSome = true
  understood : ∀ x ∈ u.names.zip u.values, ∀ d ∈ x.2.leaves, d.isUnknown = false
  complete : ∀ m ∈ u.type.members, m.default = none → (u.given? m.name).isSome = true

theorem fault?_eq_none_iff_checked {u : AnnoUse} : u.fault? = none ↔ u.Checked := by
  have members : (∀ m ∈ u.type.members, (m.default.isSome || (u.given? m.name).isSome) = true) ↔
      ∀ m ∈ u.type.members, m.default = none → (u.given? m.name).isSome = true := by
    refine forall₂_congr fun m _ => ?_
    cases m.default <;> simp
  rw [fault?_eq_none, isFaultless, Bool.and_eq_true, List.all_eq_true, List.all_eq_true, members]
  simp only [Bool.and_eq_true, Datum.isConstant_iff]
  constructor
  · rintro ⟨given, complete⟩
    exact ⟨fun x hx => (given x hx).1, fun x hx => (given x hx).2, complete⟩
  · intro h
    exact ⟨fun x hx => ⟨h.declared x hx, h.understood x hx⟩, h.complete⟩

/-- The annotation with the members of nested annotations left out. -/
def hollow (u : AnnoUse) : AnnoUse := { u with values := u.values.map Datum.hollow }

theorem given_hollow (u : AnnoUse) : u.hollow.given = u.given.map fun x => (x.1, x.2.hollow) := by
  rw [given, given, hollow, List.zip_map_right]
  exact (List.map_mergeSort (f := fun x : String × Datum => (x.1, x.2.hollow))
    fun _ _ _ _ => rfl).symm

theorem given?_hollow (u : AnnoUse) (member : String) :
    u.hollow.given? member = (u.given? member).map Datum.hollow := by
  rw [given?, given?, hollow, List.zip_map_right]
  induction u.names.zip u.values with
  | nil => rfl
  | cons x xs ih =>
    rw [List.map_cons, Prod.map, List.lookup_cons, List.lookup_cons, id]
    cases member == x.1 with
    | true => rfl
    | false => exact ih

theorem fault?_hollow (u : AnnoUse) : u.hollow.fault? = u.fault? := by
  simp only [fault?, given_hollow, List.findSome?_map, Function.comp_def, given?_hollow,
    Option.isNone_map, Datum.isConstant_hollow]
  rfl

/-- **How far down a check goes.** A check finds no fault exactly if the annotation is checked as far
as to its nested annotations. The members of these are not looked at: whatever they are replaced by,
the check finds the same. -/
theorem check_stops_at_nested (u : AnnoUse) :
    (u.fault? = none ↔ u.Checked) ∧
    ∀ values, values.map Datum.hollow = u.values.map Datum.hollow →
      ({ u with values } : AnnoUse).fault? = u.fault? := by
  refine ⟨fault?_eq_none_iff_checked, fun values same => ?_⟩
  have hollowed : ({ u with values } : AnnoUse).hollow = u.hollow := by
    rw [hollow, hollow]
    simp only [same]
  rw [← fault?_hollow u, ← hollowed, fault?_hollow]

/-- The annotation `@Rethrows({@Rethrow(bogus = 1)})`. -/
def bogusRethrow : Tree :=
  .annoUse default (.ident default "Rethrows")
    [.newArray default .missing [] true
      [.annoUse default (.ident default "Rethrow")
        [.assign default (.ident default "bogus") (.literal default (.int 1))]]]

/-- The same as an annotation that is used. -/
def bogusUse : AnnoUse := (ofTree? ("lombok." ++ ·) bogusRethrow).getD default

theorem check_stops_at_nested_bogusUse :
    bogusUse.fault? = none ∧ bogusUse.hollow.fault? = none := by
  have faultless : bogusUse.fault? = none := fault?_eq_none.mpr (by decide)
  have stops := (check_stops_at_nested bogusUse).2 (bogusUse.values.map Datum.hollow) rfl
  exact ⟨faultless, stops.trans faultless⟩

/-- An annotation without a fault can have a nested one with a fault. -/
theorem bogusUse_unchecked :
    ¬ ∀ (resolve : String → String) (t : Tree) (u : AnnoUse), ofTree? resolve t = some u →
      u.fault? = none → ∀ n ∈ Datum.usesAll u.values, n.fault? = none := by
  intro checked
  have known : (ofTree? ("lombok." ++ ·) bogusRethrow).isSome = true := by decide
  have faultless : bogusUse.isFaultless = true := by decide
  have inner : (Datum.usesAll bogusUse.values).map (·.isFaultless) = [false] := by decide
  obtain ⟨u, hu⟩ := Option.isSome_iff_exists.mp known
  have same : bogusUse = u := by rw [bogusUse, hu, Option.getD_some]
  obtain ⟨n, hn, faulty⟩ : ∃ n ∈ Datum.usesAll bogusUse.values, n.isFaultless = false :=
    List.mem_map.mp (inner ▸ List.mem_singleton_self false)
  have sound := checked _ _ bogusUse (same ▸ hu) (fault?_eq_none.mpr faultless) n hn
  rw [fault?_eq_none, faulty] at sound
  cases sound

end AnnoUse

end Weaver
