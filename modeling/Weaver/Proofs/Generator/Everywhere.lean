import Weaver.Main
/-!
Properties of a piece of code and of everything below it.

A body is restricted by what may occur in it, at any depth: which names, which statements in the
head of a `for` loop. Such a restriction is a property of single pieces, asked for `Everywhere`, and
it is handed down to the parts by one lemma for each kind of code.
-/
set_option autoImplicit false

namespace Weaver

/-- The property holds of a piece of code and of everything below it. -/
def Everywhere (P : Code → Prop) (c : Code) : Prop :=
  ∀ d ∈ c.visit fun _ => false, P d

instance (P : Code → Prop) [DecidablePred P] (c : Code) : Decidable (Everywhere P c) :=
  inferInstanceAs (Decidable (∀ d ∈ c.visit fun _ => false, P d))

theorem mem_visitAll {stop : Code → Bool} {d : Code} {cs : List Code} :
    d ∈ Code.visitAll stop cs ↔ ∃ c ∈ cs, d ∈ c.visit stop := by
  induction cs with
  | nil => simp [Code.visitAll]
  | cons c cs ih => simp [Code.visitAll, ih]

theorem forall_mem_visitAll {stop : Code → Bool} {P : Code → Prop} {cs : List Code} :
    (∀ d ∈ Code.visitAll stop cs, P d) ↔ ∀ c ∈ cs, ∀ d ∈ c.visit stop, P d := by
  constructor
  · intro h c hc d hd
    exact h d (mem_visitAll.mpr ⟨c, hc, hd⟩)
  · intro h d hd
    obtain ⟨c, hc, hd⟩ := mem_visitAll.mp hd
    exact h c hc d hd

namespace Everywhere

variable {P : Code → Prop}

section Parts

attribute [local simp] Code.visit

/-- What is visited below a piece of code that is itself visited. -/
theorem of_andBelow {c : Code} {below : List Code} :
    (∀ d ∈ Code.andBelow (fun _ => false) c below, P d) ↔ P c ∧ ∀ d ∈ below, P d := by
  simp [Code.andBelow]

theorem append {as bs : List Code} :
    (∀ d ∈ as ++ bs, P d) ↔ (∀ d ∈ as, P d) ∧ ∀ d ∈ bs, P d :=
  List.forall_mem_append

@[simp] theorem missing : Everywhere P .missing := by
  simp [Everywhere, Code.visit]

@[simp] theorem named {x : String} : Everywhere P (.named x) ↔ P (.named x) := by
  simp [Everywhere, Code.visit]

@[simp] theorem call {r : Code} {n : String} {ts as : List Code} :
    Everywhere P (.call r n ts as) ↔
      P (.call r n ts as) ∧ Everywhere P r ∧ (∀ t ∈ ts, Everywhere P t) ∧
        ∀ a ∈ as, Everywhere P a := by
  simp only [Everywhere, Code.visit, of_andBelow, append, forall_mem_visitAll, and_assoc]

@[simp] theorem newArray {t : Code} {ds is : List Code} {h : Bool} :
    Everywhere P (.newArray t ds h is) ↔
      P (.newArray t ds h is) ∧ Everywhere P t ∧ (∀ d ∈ ds, Everywhere P d) ∧
        ∀ i ∈ is, Everywhere P i := by
  simp only [Everywhere, Code.visit, of_andBelow, append, forall_mem_visitAll, and_assoc]

@[simp] theorem typeRef {n : String} {as : List Code} {d : Int} :
    Everywhere P (.typeRef n as d) ↔ P (.typeRef n as d) ∧ ∀ a ∈ as, Everywhere P a := by
  simp only [Everywhere, Code.visit, of_andBelow, forall_mem_visitAll]

@[simp] theorem unary {op : String} {e : Code} :
    Everywhere P (.unary op e) ↔ P (.unary op e) ∧ Everywhere P e := by
  simp only [Everywhere, Code.visit, of_andBelow]

@[simp] theorem cast {t e : Code} :
    Everywhere P (.cast t e) ↔ P (.cast t e) ∧ Everywhere P t ∧ Everywhere P e := by
  simp only [Everywhere, Code.visit, of_andBelow, append]

@[simp] theorem assign {l r : Code} :
    Everywhere P (.assign l r) ↔ P (.assign l r) ∧ Everywhere P l ∧ Everywhere P r := by
  simp only [Everywhere, Code.visit, of_andBelow, append]

@[simp] theorem localDecl {t : Code} {n : String} {m : Syntax.Flags} {as : List Code} {i : Code} :
    Everywhere P (.localDecl t n m as i) ↔
      P (.localDecl t n m as i) ∧ (∀ a ∈ as, Everywhere P a) ∧ Everywhere P t ∧
        Everywhere P i := by
  simp only [Everywhere, Code.visit, of_andBelow, append, forall_mem_visitAll, and_assoc]

@[simp] theorem block {ss : List Code} :
    Everywhere P (.block ss) ↔ P (.block ss) ∧ ∀ s ∈ ss, Everywhere P s := by
  simp only [Everywhere, Code.visit, of_andBelow, forall_mem_visitAll]

@[simp] theorem ifThen {c y n : Code} :
    Everywhere P (.ifThen c y n) ↔
      P (.ifThen c y n) ∧ Everywhere P c ∧ Everywhere P y ∧ Everywhere P n := by
  simp only [Everywhere, Code.visit, of_andBelow, append, and_assoc]

@[simp] theorem whileLoop {c b : Code} :
    Everywhere P (.whileLoop c b) ↔ P (.whileLoop c b) ∧ Everywhere P c ∧ Everywhere P b := by
  simp only [Everywhere, Code.visit, of_andBelow, append]

@[simp] theorem doLoop {b c : Code} :
    Everywhere P (.doLoop b c) ↔ P (.doLoop b c) ∧ Everywhere P b ∧ Everywhere P c := by
  simp only [Everywhere, Code.visit, of_andBelow, append]

@[simp] theorem forLoop {i u : List Code} {c b : Code} :
    Everywhere P (.forLoop i c u b) ↔
      P (.forLoop i c u b) ∧ (∀ s ∈ i, Everywhere P s) ∧ Everywhere P c ∧
        (∀ s ∈ u, Everywhere P s) ∧ Everywhere P b := by
  simp only [Everywhere, Code.visit, of_andBelow, append, forall_mem_visitAll, and_assoc]

@[simp] theorem foreach {v e b : Code} :
    Everywhere P (.foreach v e b) ↔
      P (.foreach v e b) ∧ Everywhere P v ∧ Everywhere P e ∧ Everywhere P b := by
  simp only [Everywhere, Code.visit, of_andBelow, append, and_assoc]

@[simp] theorem switchOn {e : Code} {cs : List Code} :
    Everywhere P (.switchOn e cs) ↔
      P (.switchOn e cs) ∧ Everywhere P e ∧ ∀ c ∈ cs, Everywhere P c := by
  simp only [Everywhere, Code.visit, of_andBelow, append, forall_mem_visitAll]

@[simp] theorem switchCase {p : Code} {ss : List Code} :
    Everywhere P (.switchCase p ss) ↔
      P (.switchCase p ss) ∧ Everywhere P p ∧ ∀ s ∈ ss, Everywhere P s := by
  simp only [Everywhere, Code.visit, of_andBelow, append, forall_mem_visitAll]

@[simp] theorem tryCatch {b f : Code} {cs : List Code} :
    Everywhere P (.tryCatch b cs f) ↔
      P (.tryCatch b cs f) ∧ Everywhere P b ∧ (∀ c ∈ cs, Everywhere P c) ∧ Everywhere P f := by
  simp only [Everywhere, Code.visit, of_andBelow, append, forall_mem_visitAll, and_assoc]

@[simp] theorem synchronizedOn {e b : Code} :
    Everywhere P (.synchronizedOn e b) ↔
      P (.synchronizedOn e b) ∧ Everywhere P e ∧ Everywhere P b := by
  simp only [Everywhere, Code.visit, of_andBelow, append]

@[simp] theorem labeled {l : String} {b : Code} :
    Everywhere P (.labeled l b) ↔ P (.labeled l b) ∧ Everywhere P b := by
  simp only [Everywhere, Code.visit, of_andBelow]

@[simp] theorem returning {e : Code} :
    Everywhere P (.returning e) ↔ P (.returning e) ∧ Everywhere P e := by
  simp only [Everywhere, Code.visit, of_andBelow]

end Parts

/-- Except where nothing stands, a property that holds everywhere holds at the top. -/
theorem top {c : Code} (h : Everywhere P c) (hc : c ≠ .missing) : P c := by
  apply h
  cases c <;> first
    | exact absurd rfl hc
    | simp [Code.visit, Code.andBelow]

end Everywhere

end Weaver
