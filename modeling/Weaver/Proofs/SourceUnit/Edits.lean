import Mathlib.Data.Nat.Bitwise
import Weaver.Proofs.Code.Lowered
import Weaver.Proofs.SourceUnit.Member
/-!
What edits do.

An edit that can be carried out leaves the registry as it is and takes the unit further in steps
(`Edit.Leads`). For each edit it is said what it takes to be licensed, and which fields types get by
it: only `Edit.injectField` adds one, and its name is that of the field that is declared.
-/
set_option autoImplicit false

namespace Weaver

open Weaver.Syntax (Tree Flags)
open Weaver.Syntax.Tree

/-! ## Modifiers -/

namespace Syntax.Flags

variable {f g : Flags} {b : Nat}

/-- A set has a single modifier. -/
theorem meets_bit (f : Flags) (b : Nat) : f.meets ⟨2 ^ b⟩ = f.bits.testBit b := by
  rw [meets, Nat.and_two_pow]
  cases f.bits.testBit b
  · rw [Bool.toNat_false, Nat.zero_mul]
    rfl
  · rw [Bool.toNat_true, Nat.one_mul, bne_iff_ne]
    exact Nat.ne_of_gt (Nat.two_pow_pos b)

theorem testBit_union : (f.union g).bits.testBit b = (f.bits.testBit b || g.bits.testBit b) :=
  Nat.testBit_or _ _ _

theorem testBit_without :
    (f.without g).bits.testBit b = (f.bits.testBit b && !g.bits.testBit b) := by
  rw [without, Nat.testBit_xor, Nat.testBit_and]
  cases f.bits.testBit b <;> cases g.bits.testBit b <;> rfl

theorem testBit_forCode : f.forCode.bits.testBit b = (f.bits.testBit b && inCode.bits.testBit b) :=
  Nat.testBit_and _ _ _

/-- Setting the modifiers of generated code to those there were, without some, leaves the others. -/
theorem testBit_set (other : g.bits.testBit b = false) :
    ((f.without .inCode).union (f.forCode.without g).forCode).bits.testBit b =
      f.bits.testBit b := by
  rw [testBit_union, testBit_without, testBit_forCode, testBit_without, testBit_forCode, other]
  cases f.bits.testBit b <;> cases inCode.bits.testBit b <;> rfl

end Syntax.Flags

namespace Syntax.Tree

variable {L : License} {n : Nat} {d ms : Tree}

theorem flags_withAnnotations (ms : Tree) (as : List Tree) :
    (ms.withAnnotations as).flags = ms.flags := by
  cases ms <;> rfl

/-- A declaration with other modifiers that have the same flags. -/
theorem alters_withMods (same : ms.flags = d.mods.flags) : d.Alters L n (d.withMods ms) := by
  cases d
  case classDecl => exact .type
  case methodDecl => exact .method (congrArg (Flags.meets · .abstractFlag) same)
  case varDecl => exact .var same
  all_goals exact .same _

/-- A declaration with other flags, but abstract or a constant as before. -/
theorem alters_withFlags {f : Flags} (licensed : L.param n) (kept : ∀ b, b = 10 ∨ b = 14 →
    f.bits.testBit b = d.mods.flags.bits.testBit b) :
    d.Alters L n (d.withMods (d.mods.withFlags f)) := by
  have same (b : Nat) (hb : b = 10 ∨ b = 14) :
      (d.mods.withFlags f).flags.meets ⟨2 ^ b⟩ = d.mods.flags.meets ⟨2 ^ b⟩ := by
    rw [Flags.meets_bit, Flags.meets_bit]
    cases hm : d.mods
    case modifiers m g as =>
      have bit := kept b hb
      rw [hm] at bit
      exact bit
    all_goals rfl
  cases d
  case classDecl => exact .type
  case methodDecl => exact .method (same 10 (.inl rfl))
  case varDecl => exact .param licensed (same 14 (.inr rfl))
  all_goals exact .same _

theorem inserts_withField (t : Tree) : t.Inserts (Edit.withField t) := fun ds =>
  ⟨ds.takeWhile Edit.isLeading, ds.dropWhile Edit.isLeading, List.takeWhile_append_dropWhile.symm,
    rfl⟩

theorem inserts_withConstant (t : Tree) : t.Inserts (Edit.withConstant t) := fun ds =>
  ⟨ds.takeWhile (·.isEnumConstant), ds.dropWhile (·.isEnumConstant),
    List.takeWhile_append_dropWhile.symm, rfl⟩

theorem inserts_last (t : Tree) : t.Inserts (· ++ [t]) := fun ds =>
  ⟨ds, [], (List.append_nil ds).symm, rfl⟩

end Syntax.Tree

/-! ## New declarations -/

namespace Code

variable {s : Scope} {p : Place} {t : Tree} {ts : List Tree}

/-- Lowering a piece of code gives trees of some kind only. -/
def Becomes (x : Except Abort Tree) (P : Tree → Prop) : Prop := ∀ t, x = .ok t → P t

/-- A declaration that does not become a field. -/
def Fieldless (c : Code) : Prop := ∀ s, Becomes (c.lower s .part) fun t => t.field? = none

/-- A field in a unit that was made of code with a name, modifiers and a value. -/
structure Declares (n : String) (ms : Flags) (init : Code) (x : Syntax.Field) : Prop where
  name : x.name = n
  flags : x.flags = ms
  generated : x.mark.generated = true
  value : (init = .missing ∧ x.value = .missing) ∨ ∃ s, init.lower s .value = .ok x.value

/-- Parameters become variables. -/
theorem variables_of_lower {cs : List Code} (params : ∀ c ∈ cs, ∃ ty n, c = .param ty n)
    (lowered : lowerAll s p cs = .ok ts) : ∀ t ∈ ts, t.isVariable := by
  induction cs generalizing ts with
  | nil =>
    obtain rfl : [] = ts := Except.ok.inj lowered
    exact nofun
  | cons c cs ih =>
    obtain ⟨ty, n, rfl⟩ := params c List.mem_cons_self
    obtain ⟨t, here, lowered⟩ := ok_of_bind lowered
    obtain ⟨ts', rest, lowered⟩ := ok_of_bind lowered
    obtain ⟨as, -, here⟩ := ok_of_bind here
    obtain ⟨type, -, here⟩ := ok_of_bind here
    rw [← Except.ok.inj lowered, ← Except.ok.inj here]
    intro x hx
    rcases List.mem_cons.mp hx with rfl | hx
    · rfl
    · exact ih (fun c hc => params c (List.mem_cons_of_mem _ hc)) rest x hx

/-- A method becomes one, and what its parameters become are the parameters of it. -/
theorem methodDecl_of_lower {ms : Flags} {as tps ps thrown ss : List Code} {result : Code}
    {n : String} {noBody implementing : Bool} :
    Becomes ((methodDecl ms as tps result n ps thrown ss noBody implementing).lower s p) fun t =>
      ∃ s' mods tps' r ps' ts b, t = .methodDecl s.mark n mods tps' r ps' ts b ∧
        lowerAll s' .part ps = .ok ps' := by
  intro t lowered
  obtain ⟨as', -, lowered⟩ := ok_of_bind lowered
  obtain ⟨tps', -, lowered⟩ := ok_of_bind lowered
  obtain ⟨r, -, lowered⟩ := ok_of_bind lowered
  have rest {body : Tree} (lowered : (do
      let ps ← lowerAll { s with result := some r } .part ps
      let ts ← lowerAll { s with result := some r } .part thrown
      return Tree.methodDecl s.mark n (.modifiers s.mark ms
        (if implementing then overrideUse s.mark :: as' else as')) tps' r ps ts body) = .ok t) :
      ∃ s' mods tps' r ps' ts b, t = .methodDecl s.mark n mods tps' r ps' ts b ∧
        lowerAll s' .part ps = .ok ps' := by
    obtain ⟨ps', params, lowered⟩ := ok_of_bind lowered
    obtain ⟨ts, -, lowered⟩ := ok_of_bind lowered
    rw [← Except.ok.inj lowered]
    exact ⟨_, _, _, _, ps', ts, _, rfl, params⟩
  cases noBody with
  | true => exact rest lowered
  | false =>
    obtain ⟨ss', -, lowered⟩ := ok_of_bind lowered
    exact rest lowered

theorem isMethod_of_lower {ms : Flags} {as tps ps thrown ss : List Code} {result : Code}
    {n : String} {noBody implementing : Bool} :
    Becomes ((methodDecl ms as tps result n ps thrown ss noBody implementing).lower s p)
      (·.isMethod) := by
  intro t lowered
  obtain ⟨_, _, _, _, _, _, _, rfl, -⟩ := methodDecl_of_lower t lowered
  rfl

/-- A method with parameters becomes one with variables. -/
theorem method_of_lower {ms : Flags} {as tps ps thrown ss : List Code} {result : Code} {n : String}
    {noBody implementing : Bool} (params : ∀ c ∈ ps, ∃ ty n, c = .param ty n) :
    Becomes ((methodDecl ms as tps result n ps thrown ss noBody implementing).lower s p)
      fun t => t.isMethod ∧ ∀ x ∈ t.params, x.isVariable := by
  intro t lowered
  obtain ⟨_, _, _, _, _, _, _, rfl, params'⟩ := methodDecl_of_lower t lowered
  exact ⟨rfl, variables_of_lower params params'⟩

theorem constructor_of_lower {ms : Flags} {as tps ps thrown ss : List Code} {n : String}
    {implicitSuper : Bool} :
    Becomes ((constructorDecl ms as tps n ps thrown ss implicitSuper).lower s p) (·.isMethod) := by
  intro t lowered
  obtain ⟨ss', -, lowered⟩ := ok_of_bind lowered
  obtain ⟨tps', -, lowered⟩ := ok_of_bind lowered
  obtain ⟨as', -, lowered⟩ := ok_of_bind lowered
  obtain ⟨ps', -, lowered⟩ := ok_of_bind lowered
  obtain ⟨ts, -, lowered⟩ := ok_of_bind lowered
  rw [← Except.ok.inj lowered]
  rfl

theorem class_of_lower {k : ClassKind} {ms : Flags} {as tps is cs fs mths ts : List Code}
    {n : String} {e : Code} :
    Becomes ((classDecl k ms as n tps e is cs fs mths ts).lower s p)
      fun t => SourceUnit.isClassDecl t := by
  have unfolded : ∃ x : Except Abort Tree, (classDecl k ms as n tps e is cs fs mths ts).lower s p =
      (do
        let flags := if k.isInterface then ms.union .interfaceFlag
          else if k.isEnum then ms.union .enumFlag
          else ms
        let as ← lowerAll s .part as
        let n := if k.isAnonymous then "" else n
        let inner := { s with owner := some n }
        let tps ← lowerAll inner .part tps
        let ext ← x
        let cs ← lowerAll inner .part cs
        let fs ← lowerAll inner .part fs
        let mths ← lowerAll inner .part mths
        let ts ← lowerAll inner .part ts
        let is ← lowerAll inner .part is
        return .classDecl s.mark n (.modifiers s.mark flags as) tps ext is
          (cs ++ fs ++ mths ++ ts)) := by
    cases e <;> exact ⟨_, rfl⟩
  intro t lowered
  obtain ⟨x, unfolded⟩ := unfolded
  rw [unfolded] at lowered
  obtain ⟨as', -, lowered⟩ := ok_of_bind lowered
  obtain ⟨tps', -, lowered⟩ := ok_of_bind lowered
  obtain ⟨e', -, lowered⟩ := ok_of_bind lowered
  obtain ⟨cs', -, lowered⟩ := ok_of_bind lowered
  obtain ⟨fs', -, lowered⟩ := ok_of_bind lowered
  obtain ⟨mths', -, lowered⟩ := ok_of_bind lowered
  obtain ⟨ts', -, lowered⟩ := ok_of_bind lowered
  obtain ⟨is', -, lowered⟩ := ok_of_bind lowered
  rw [← Except.ok.inj lowered]
  rfl

/-- A constant becomes no field. -/
theorem constant_of_lower {n : String} {ps as : List Code} :
    Becomes ((enumConstant n ps as).lower s p) fun t => t.field? = none := by
  intro t lowered
  have constant : (((Flags.publicFlag.union .staticFlag).union .finalFlag).union
      .enumFlag).meets .enumFlag = true := by decide
  obtain ⟨mark, result, owner⟩ := s
  cases owner with
  | none => cases lowered
  | some o =>
    obtain ⟨as', -, lowered⟩ := ok_of_bind lowered
    obtain ⟨ps', -, lowered⟩ := ok_of_bind lowered
    rw [← Except.ok.inj lowered, field?, flags, if_pos constant]

/-- A field becomes one with its name and its modifiers and what its value becomes. -/
theorem field_of_lower {type init : Code} {n : String} {ms : Flags} :
    Becomes ((fieldOf type n ms init).lower s p) fun t => ∃ ty i,
      t = .varDecl s.mark n (.modifiers s.mark ms []) ty i ∧
        (init = .missing ∧ i = .missing ∨ init.lower s .value = .ok i) := by
  intro t lowered
  have rest {i : Tree} (lowered : (do
      let as ← lowerAll s .part []
      return Tree.varDecl s.mark n (.modifiers s.mark ms as) (← lower s .part type) i) = .ok t) :
      ∃ ty, t = .varDecl s.mark n (.modifiers s.mark ms []) ty i := by
    obtain ⟨as, annos, lowered⟩ := ok_of_bind lowered
    obtain ⟨ty, -, lowered⟩ := ok_of_bind lowered
    rw [← Except.ok.inj lowered, ← Except.ok.inj annos]
    exact ⟨ty, rfl⟩
  cases init
  case missing =>
    obtain ⟨i, value, lowered⟩ := ok_of_bind lowered
    obtain ⟨ty, rfl⟩ := rest lowered
    exact ⟨ty, i, rfl, .inl ⟨rfl, (Except.ok.inj value).symm⟩⟩
  all_goals
    obtain ⟨i, value, lowered⟩ := ok_of_bind lowered
    obtain ⟨ty, rfl⟩ := rest lowered
    exact ⟨ty, i, rfl, .inr value⟩

theorem fieldless_of_isMethod {c : Code} (h : ∀ s, Becomes (c.lower s .part) (·.isMethod)) :
    c.Fieldless := fun s t lowered => by
  have method := h s t lowered
  cases t
  case methodDecl => rfl
  all_goals exact absurd method Bool.false_ne_true

theorem fieldless_class {k : ClassKind} {ms : Flags} {as tps is cs fs mths ts : List Code}
    {n : String} {e : Code} : (classDecl k ms as n tps e is cs fs mths ts).Fieldless :=
  fun s t lowered => by
    have type := class_of_lower t lowered
    cases t
    case classDecl => rfl
    all_goals exact absurd type Bool.false_ne_true

end Code

/-! ## Steps -/

namespace Edit

open SourceUnit

section Leads

variable {α β : Type} {L : License} {r : Registry} {u : SourceUnit} {gs gs' : List Gain} {k : Key}

/-- An edit of a unit that, if it can be carried out, leaves the registry as it is and takes the unit
further in steps, by which types get some fields. -/
def LeadsFrom (L : License) (u : SourceUnit) (gs : List Gain) (e : Edit α) : Prop :=
  ∀ a v, e u = (.ok a, v) → v.registry = u.registry ∧ Steps L u gs v

/-- An edit that does so with every unit that has some registry. -/
def Leads (L : License) (r : Registry) (gs : List Gain) (e : Edit α) : Prop :=
  ∀ u : SourceUnit, u.registry = r → e.LeadsFrom L u gs

theorem leads_pure (a : α) : Leads L r [] (pure a : Edit α) := by
  rintro u - _ _ ⟨⟩
  exact ⟨rfl, .none u⟩

theorem leads_throw (x : Abort) : Leads L r gs (throw x : Edit α) := by
  rintro u - _ _ ⟨⟩

/-- An edit after another one is carried out only if both are. -/
theorem ok_of_bind {e : Edit α} {f : α → Edit β} {b : β} {v : SourceUnit}
    (done : (e >>= f) u = (.ok b, v)) : ∃ a w, e u = (.ok a, w) ∧ f a w = (.ok b, v) := by
  change ExceptT.bindCont f (e u).1 (e u).2 = _ at done
  rcases first : e u with ⟨x, w⟩
  rw [first] at done
  cases x with
  | error x => exact nomatch done
  | ok a => exact ⟨a, w, rfl, done⟩

theorem leadsFrom_bind {e : Edit α} {f : α → Edit β} (h : e.LeadsFrom L u gs)
    (h' : ∀ a, Leads L u.registry gs' (f a)) : (e >>= f).LeadsFrom L u (gs ++ gs') := by
  intro b v done
  obtain ⟨a, w, first, next⟩ := ok_of_bind done
  obtain ⟨registry, steps⟩ := h a w first
  obtain ⟨registry', steps'⟩ := h' a w registry b v next
  exact ⟨registry'.trans registry, steps.trans steps'⟩

theorem leads_bind {e : Edit α} {f : α → Edit β} (h : Leads L r gs e)
    (h' : ∀ a, Leads L r gs' (f a)) : Leads L r (gs ++ gs') (e >>= f) := by
  intro _ same
  refine leadsFrom_bind (h _ same) fun a => ?_
  rw [same]
  exact h' a

/-- An edit after one by which types get no fields. -/
theorem leads_then {e : Edit α} {f : α → Edit β} (h : Leads L r [] e)
    (h' : ∀ a, Leads L r gs (f a)) : Leads L r gs (e >>= f) := leads_bind h h'

/-- An edit that begins with looking at the unit. -/
theorem leads_get {f : SourceUnit → Edit α} (h : ∀ u, u.registry = r → (f u).LeadsFrom L u gs) :
    Leads L r gs (get >>= f) := h

theorem leads_modify {f : SourceUnit → SourceUnit}
    (h : ∀ u : SourceUnit, u.registry = r → (f u).registry = u.registry ∧ Steps L u gs (f u)) :
    Leads L r gs (modify f : Edit Unit) := by
  rintro u same _ _ ⟨⟩
  exact h u same

/-- Code that is lowered does not change the unit. -/
theorem ok_of_lower {s : Code.Scope} {p : Code.Place} {c : Code} {t : Tree} {v : SourceUnit}
    (done : lower s p c u = (.ok t, v)) : c.lower s p = .ok t ∧ u = v := Prod.mk.inj done

/-- A computation that does not look at the unit. -/
theorem leads_result (x : Except Abort α) : Leads L r [] (ExceptT.mk (pure x) : Edit α) := by
  rintro u - _ _ ⟨⟩
  exact ⟨rfl, .none u⟩

theorem steps_changeDecl {f : Tree → Tree}
    (h : ∀ n, u.registry.node? k = some n → (u.decl k).Alters L n.decl (f (u.decl k))) :
    Steps L u [] (u.changeDecl k f) := by
  cases node : u.registry.node? k with
  | none =>
    rw [changeDecl, node]
    exact .none u
  | some n => exact .one (.alter node (h n node))

/-- A change of a declaration in its place. -/
theorem leadsFrom_change {f : Tree → Tree}
    (h : ∀ n, u.registry.node? k = some n → (u.decl k).Alters L n.decl (f (u.decl k))) :
    (change k f).LeadsFrom L u [] := by
  rintro _ _ ⟨⟩
  exact ⟨changeDecl_registry u k f, steps_changeDecl h⟩

theorem leads_change {f : Tree → Tree}
    (h : ∀ n, r.node? k = some n → ∀ d : Tree, d.Alters L n.decl (f d)) :
    Leads L r [] (change k f) :=
  fun _ same => leadsFrom_change fun n node => h n (same ▸ node) _

/-! ## Members -/

/-- A new member is put among those of a type. -/
theorem leads_insert {s : Code.Scope} {c : Code} {place : Tree → List Tree → List Tree} {n : Node}
    (node : r.node? k = some n) (inserts : ∀ t : Tree, t.Inserts (place t))
    (gets : ∀ t, c.lower s .part = .ok t → ∀ next, gains n.decl (t.number next).1 = gs ∧
      ∀ x, (t.number next).1.field? = some x → L.field n.decl x) :
    Leads L r gs (do
      let t ← lower s .part c
      let t ← adopt t
      changeDefs k (place t)) := by
  intro u same _ v whole
  obtain ⟨t, w, first, done⟩ := ok_of_bind whole
  obtain ⟨lowered, rfl⟩ := ok_of_lower first
  obtain ⟨gained, licensed⟩ := gets t lowered u.next
  cases done
  refine ⟨changeDecl_registry (u.adopting t) k _, ?_⟩
  rw [← gained]
  exact .one (.insert (same ▸ node) (inserts _) licensed)

/-- A new member is put among those of no type. -/
theorem leads_insert_nowhere {s : Code.Scope} {c : Code} {place : Tree → List Tree → List Tree}
    (node : r.node? k = none) : Leads L r [] (do
      let t ← lower s .part c
      let t ← adopt t
      changeDefs k (place t)) := by
  intro u same _ v whole
  obtain ⟨t, w, first, done⟩ := ok_of_bind whole
  obtain ⟨lowered, rfl⟩ := ok_of_lower first
  cases done
  have absent : (u.adopting t).registry.node? k = none := by rw [← node, ← same]; rfl
  refine ⟨changeDecl_registry (u.adopting t) k _, ?_⟩
  change Steps L u [] ((u.adopting t).changeDecl k _)
  rw [changeDecl, absent]
  exact .one (.spend (number_between.1 u.next t).le)

/-- A type gets a field that is declared by code. -/
theorem leads_injectField {type init : Code} {name : String} {ms : Flags} {n : Node}
    (node : r.node? k = some n) (plain : ms.meets .enumFlag = false)
    (licensed : ∀ x, Code.Declares name ms init x → L.field n.decl x) :
    Leads L r [(n.decl, name)] (injectField k (.fieldOf type name ms init)) := by
  refine leads_get fun u same => leads_insert node inserts_withField (fun t lowered next => ?_) u same
  obtain ⟨ty, i, rfl, value⟩ := Code.field_of_lower t lowered
  have field : (number next (varDecl (u.typeScope k).mark name
      (.modifiers (u.typeScope k).mark ms []) ty i)).1.field? =
        some ⟨(u.typeScope k).mark.withId next, name, ms, ty, i⟩ := by
    rw [field_number, field?, Tree.flags, plain]
    rfl
  rw [gains, field]
  refine ⟨rfl, fun x seen => licensed x ?_⟩
  rw [← Option.some.inj seen]
  exact ⟨rfl, rfl, rfl, value.imp_right fun lowered => ⟨_, lowered⟩⟩

theorem leads_insertFieldless {s : Code.Scope} {c : Code} {place : Tree → List Tree → List Tree}
    (inserts : ∀ t : Tree, t.Inserts (place t)) (fieldless : Code.Becomes (c.lower s .part)
      fun t => t.field? = none) : Leads L r [] (do
      let t ← lower s .part c
      let t ← adopt t
      changeDefs k (place t)) := by
  cases node : r.node? k with
  | none => exact leads_insert_nowhere node
  | some n =>
    refine leads_insert node inserts fun t lowered next => ?_
    have none_ : (t.number next).1.field? = none := by
      rw [field_number, fieldless t lowered]
      rfl
    rw [gains, none_]
    exact ⟨rfl, nofun⟩

theorem leads_injectMember {member : Code} (fieldless : member.Fieldless) :
    Leads L r [] (injectMember k member) :=
  leads_get fun u same => leads_insertFieldless inserts_last (fieldless _) u same

theorem leads_injectMethod {method : Code}
    (isMethod : ∀ s, Code.Becomes (method.lower s .part) (·.isMethod)) :
    Leads L r [] (injectMethod k method) := by
  have member : Leads L r [] (injectMember k method) :=
    leads_injectMember (Code.fieldless_of_isMethod isMethod)
  unfold injectMethod
  dsimp only
  split
  · refine leads_then (leads_throw _) fun _ => ?_
    split
    · exact leads_then (leads_throw _) fun _ => member
    · exact member
  · split
    · exact leads_then (leads_throw _) fun _ => member
    · exact member

theorem leads_addConstants (s : Code.Scope) {cs : List Code}
    (constants : ∀ c ∈ cs, ∃ n ps as, c = .enumConstant n ps as) :
    Leads L r [] (addConstants k s cs) := by
  induction cs with
  | nil => exact leads_pure _
  | cons c cs ih =>
    obtain ⟨n, ps, as, rfl⟩ := constants c List.mem_cons_self
    have first : Leads L r [] (do
        let t ← lower s .part (.enumConstant n ps as)
        let t ← adopt t
        changeDefs k (withConstant t)) :=
      leads_insertFieldless inserts_withConstant Code.constant_of_lower
    have more := leads_then first fun _ => ih fun c hc => constants c (List.mem_cons_of_mem _ hc)
    simp only [bind_assoc] at more
    exact more

theorem leads_makeEnum {cs : List Code} (constants : ∀ c ∈ cs, ∃ n ps as, c = .enumConstant n ps as) :
    Leads L r [] (makeEnum k cs) := by
  refine leads_then (leads_change fun n _ d => ?_) fun _ => leads_get fun u same =>
    leads_addConstants _ constants u same
  cases d
  case classDecl => exact .type
  all_goals exact .same _

/-! ## Methods -/

/-- An annotation is added to a declaration. -/
theorem leads_annotate (s : Code.Scope) (c : Code) : (do
    let a ← lower s .part c
    let (added, next) := Tree.numberAnnotations u.next [a]
    modify fun u => { u with next := next }
    change k fun d => d.withMods (d.mods.withAnnotations (d.mods.annotations ++ added)) :
      Edit Unit).LeadsFrom L u [] := by
  intro _ v whole
  obtain ⟨a, w, first, done⟩ := ok_of_bind whole
  obtain ⟨-, rfl⟩ := ok_of_lower first
  obtain ⟨registry, steps⟩ := leads_change (L := L) (k := k)
    (f := fun d => d.withMods (d.mods.withAnnotations
      (d.mods.annotations ++ (numberAnnotations u.next [a]).1)))
    (fun n _ d => alters_withMods (flags_withAnnotations _ _))
    { u with next := (numberAnnotations u.next [a]).2 } rfl _ v done
  exact ⟨registry, .next (.spend (numberAnnotations_le u.next [a])) steps⟩

theorem leads_suppressWarnings (s : Code.Scope) : Leads L r [] (suppressWarnings k s) := by
  refine leads_get fun u same => ?_
  dsimp only
  split
  · exact leads_annotate s _
  · exact leads_pure _ u same

theorem alters_withStmts {n : Nat} (licensed : L.body n) (m : Syntax.Mark) (ss : List Tree)
    (d : Tree) : d.Alters L n (withStmts m ss d) := by
  cases d
  case methodDecl => exact .body licensed
  all_goals exact .same _

theorem leads_replaceBody {ss : List Code}
    (licensed : ∀ n, r.node? k = some n → L.body n.decl) : Leads L r [] (replaceBody k ss) := by
  refine leads_get fun u same => ?_
  refine leads_then (leads_result _) (fun ts => ?_) u same
  exact leads_then (leads_change fun n node d => alters_withStmts (licensed n node) _ _ d)
    fun _ => leads_suppressWarnings _

theorem leads_replaceWith {method : Code}
    (isMethod : ∀ s, Code.Becomes (method.lower s .part) fun t =>
      t.isMethod ∧ ∀ x ∈ t.params, x.isVariable)
    (licensed : ∀ n, r.node? k = some n → L.body n.decl) : Leads L r [] (replaceWith k method) := by
  refine leads_get fun u same _ v whole => ?_
  obtain ⟨t, w, first, done⟩ := ok_of_bind whole
  obtain ⟨lowered, rfl⟩ := ok_of_lower first
  obtain ⟨method, vars⟩ := isMethod _ t lowered
  cases done
  refine ⟨changeDecl_registry (u.adopting t) k _, ?_⟩
  change Steps L u [] (((u.adopting t).changeDecl k
    (withMethod (t.number u.next).1)).keeping (u.decl k).params)
  cases node : u.registry.node? k with
  | none =>
    rw [changeDecl, show (u.adopting t).registry.node? k = none from node, decl, node]
    exact .one (.spend (number_between.1 u.next t).le)
  | some n => exact .one (.replace node method vars (licensed n (same ▸ node)))

theorem leads_addThrown (cs : List Code) : Leads L r [] (addThrown k cs) := by
  induction cs with
  | nil => exact leads_pure _
  | cons c cs ih =>
    refine leads_get fun u same => leads_then (leads_result _) (fun t => ?_) u same
    dsimp only
    split
    · refine leads_then (leads_change fun n _ d => ?_) fun _ => ih
      cases d
      case methodDecl => exact .method rfl
      all_goals exact .same _
    · exact ih

theorem leads_removeMethod (m : Key) : Leads L r [] (removeMethod k m) := by
  refine leads_get fun u same => ?_
  change LeadsFrom L u [] (if (u.decl m).isMethod && isClassDecl (u.decl k) &&
    (u.decl k).defs.any (isMethodNumbered (u.decl m).id) then _ else _)
  split
  · next removes =>
    simp only [Bool.and_eq_true] at removes
    obtain ⟨⟨method, type⟩, member⟩ := removes
    rintro _ _ ⟨⟩
    refine ⟨changeDecl_registry u k _, ?_⟩
    obtain ⟨n, node⟩ : ∃ n, u.registry.node? k = some n := by
      cases node : u.registry.node? k with
      | none =>
        rw [decl, node] at type
        exact absurd type Bool.false_ne_true
      | some n => exact ⟨n, rfl⟩
    exact .one (.remove node type method member)
  · exact leads_pure _ u same

/-- The modifiers of generated code are set to those there are, apart from some. -/
theorem leads_setModifiers {without : Flags}
    (licensed : ∀ n, u.registry.node? k = some n → L.param n.decl)
    (others : ∀ b, b = 10 ∨ b = 14 → without.bits.testBit b = false) :
    (setModifiers k ((u.modifiers k).without without)).LeadsFrom L u [] :=
  leadsFrom_change fun n node => alters_withFlags (licensed n node) fun b hb =>
    Flags.testBit_set (others b hb)

/-! ## Fields and parameters -/

theorem leads_rename {name : String} (licensed : ∀ n, r.node? k = some n → L.param n.decl) :
    Leads L r [] (rename k name) := by
  refine leads_change fun n node d => ?_
  cases d
  case varDecl => exact .param (licensed n node) rfl
  all_goals exact .same _

theorem leads_makeFinal (licensed : ∀ n, r.node? k = some n → L.param n.decl) :
    Leads L r [] (makeFinal k) := by
  refine leads_change fun n node d => alters_withFlags (licensed n node) fun b hb => ?_
  rw [Flags.testBit_union]
  rcases hb with rfl | rfl
  · exact Bool.or_false _
  · exact Bool.or_false _

theorem leads_removeInitializer (licensed : ∀ n, r.node? k = some n → L.reset n.decl) :
    Leads L r [] (removeInitializer k) := by
  refine leads_change fun n node d => ?_
  cases d
  case varDecl => exact .reset (licensed n node)
  all_goals exact .same _

/-! ## The unit -/

theorem leads_removeAnno (anno : AnnoUse) : Leads L r [] (removeAnno k anno) :=
  leads_change fun _ _ _ => alters_withMods (flags_withAnnotations _ _)

theorem leads_removeInterface (name : String) : Leads L r [] (removeInterface k name) := by
  refine leads_modify fun u _ => ⟨changeDecl_registry u k _, steps_changeDecl fun n _ => ?_⟩
  cases u.decl k
  case classDecl => exact .type
  all_goals exact .same _

theorem leads_removeImport (name : String) : Leads L r [] (removeImport name) := by
  refine leads_modify fun u _ => ?_
  split
  · next m f p is ds tree => exact ⟨rfl, .one (.imports _ tree)⟩
  · exact ⟨rfl, .none u⟩

end Leads

end Edit

end Weaver
