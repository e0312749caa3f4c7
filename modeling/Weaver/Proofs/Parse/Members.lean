import Weaver.Proofs.Parse.Proper
import Weaver.Proofs.SourceUnit.Edits
import Weaver.Proofs.SourceUnit.Initial
/-!
The order of members as they are read.

An enumeration is read constants first, and no other rule of the grammar makes a constant: the flag
of constants has no keyword (`yields_modifiers_plain`). Nothing that is read is marked as generated.
Only the rules for declarations are followed here, and of the recursive rules only the one for
members has to be known (`MembersKept`); what the other parts of a declaration are does not matter.
-/
set_option autoImplicit false

namespace Weaver.Syntax.Tree

/-! ## Members in order -/

/-- A member that was written and is no constant. -/
def IsOrdinary (d : Tree) : Prop := d.isEnumConstant = false ∧ d.mark.generated = false

/-- The constants among the members of a declaration come first; the others are ordinary. -/
def ConstantsFirst (d : Tree) : Prop :=
  ∃ cs os, d.defs = cs ++ os ∧ (∀ c ∈ cs, c.isEnumConstant) ∧ ∀ o ∈ os, o.IsOrdinary

/-- In all declarations of a tree that have numbers, the constants come first. -/
def Orderly (t : Tree) : Prop := ∀ d ∈ numbered t, d.ConstantsFirst

/-- A member as it is read where no constant can stand. -/
structure IsOrderlyMember (d : Tree) : Prop where
  ordinary : d.IsOrdinary
  orderly : d.Orderly

/-- A method that begins at a mark. Its parameters are variables. -/
inductive IsMethodAt (m : Mark) : Tree → Prop where
  | mk {n : String} {ms r b : Tree} {tps ps thrown : List Tree} (params : ∀ p ∈ ps, p.isVariable) :
      IsMethodAt m (methodDecl m n ms tps r ps thrown b)

variable {d t : Tree} {ts us : List Tree} {next : Nat}

/-- A declaration without members. -/
theorem constantsFirst_of_nil (h : d.defs = []) : d.ConstantsFirst :=
  ⟨[], [], h, List.forall_mem_nil _, List.forall_mem_nil _⟩

theorem constantsFirst_of_ordinary (h : ∀ o ∈ d.defs, o.IsOrdinary) : d.ConstantsFirst :=
  ⟨[], d.defs, rfl, List.forall_mem_nil _, h⟩

theorem orderly_var {m : Mark} {n : String} {ms ty i : Tree} : (varDecl m n ms ty i).Orderly := by
  intro d member
  obtain rfl := List.mem_singleton.mp member
  exact constantsFirst_of_nil rfl

theorem orderly_numberedAll (h : ∀ t ∈ ts, t.Orderly) : ∀ d ∈ numberedAll ts, d.ConstantsFirst := by
  intro d member
  obtain ⟨t, ht, inside⟩ := mem_numberedAll.mp member
  exact h t ht d inside

/-- A method has no declarations but its parameters. -/
theorem orderly_method {m : Mark} {n : String} {ms r b : Tree} {tps ps thrown : List Tree}
    (params : ∀ p ∈ ps, p.isVariable) : (methodDecl m n ms tps r ps thrown b).Orderly := by
  have inner : ∀ p ∈ ps, p.Orderly := by
    intro p hp
    have var := params p hp
    cases p
    case varDecl => exact orderly_var
    all_goals exact absurd var Bool.false_ne_true
  intro d member
  rcases List.mem_cons.mp member with rfl | member
  · exact constantsFirst_of_nil rfl
  · exact orderly_numberedAll inner d member

theorem orderly_class {m : Mark} {n : String} {ms e : Tree} {tps is ds : List Tree}
    (here : (classDecl m n ms tps e is ds).ConstantsFirst) (members : ∀ d ∈ ds, d.Orderly) :
    (classDecl m n ms tps e is ds).Orderly := by
  intro d member
  rcases List.mem_cons.mp member with rfl | member
  · exact here
  · exact orderly_numberedAll members d member

/-! ## Numbers -/

theorem isEnumConstant_number (next : Nat) (t : Tree) :
    (t.number next).1.isEnumConstant = t.isEnumConstant := by
  cases t
  case varDecl m n ms ty i =>
    change (numberModifiers (next + 1) ms).1.flags.meets .enumFlag = ms.flags.meets .enumFlag
    rw [flags_numberModifiers]
  all_goals rfl

theorem generated_number (next : Nat) (t : Tree) :
    (t.number next).1.mark.generated = t.mark.generated := by
  cases t <;> rfl

/-- Members with numbers satisfy what the members do, if that does not depend on numbers. -/
theorem forall_numberAll {P : Tree → Prop} (kept : ∀ i t, P t → P (t.number i).1) (next : Nat)
    (h : ∀ t ∈ ts, P t) : ∀ t ∈ (numberAll next ts).1, P t := by
  induction ts generalizing next with
  | nil => exact h
  | cons t ts ih =>
    obtain ⟨here, others⟩ := List.forall_mem_cons.mp h
    exact List.forall_mem_cons.mpr ⟨kept _ t here, ih _ others⟩

theorem numberAll_append (next : Nat) (ts us : List Tree) :
    (numberAll next (ts ++ us)).1 =
      (numberAll next ts).1 ++ (numberAll (numberAll next ts).2 us).1 := by
  induction ts generalizing next with
  | nil => rfl
  | cons t ts ih => exact congrArg (_ :: ·) (ih _)

theorem isOrdinary_number (next : Nat) (t : Tree) (h : t.IsOrdinary) :
    (t.number next).1.IsOrdinary :=
  ⟨(isEnumConstant_number next t).trans h.1, (generated_number next t).trans h.2⟩

/-- Members keep their order when they get numbers. -/
theorem constantsFirst_numberAll {ds : List Tree} {d' : Tree} (h : d.ConstantsFirst)
    (defs : d.defs = ds) (defs' : d'.defs = (numberAll next ds).1) : d'.ConstantsFirst := by
  obtain ⟨cs, os, split, constants, ordinary⟩ := h
  have constant (i : Nat) (t : Tree) (ht : t.isEnumConstant) : (t.number i).1.isEnumConstant :=
    (isEnumConstant_number i t).trans ht
  refine ⟨(numberAll next cs).1, (numberAll (numberAll next cs).2 os).1, ?_,
    forall_numberAll constant _ constants, forall_numberAll isOrdinary_number _ ordinary⟩
  rw [defs', ← defs, split, numberAll_append]

/-- Numbering keeps the order of all members. -/
theorem orderly_number : (∀ n t, t.Orderly → (number n t).1.Orderly) ∧
    ∀ n ts, (∀ t ∈ ts, t.Orderly) → ∀ t ∈ (numberAll n ts).1, t.Orderly := by
  apply number.mutual_induct (fun n t => t.Orderly → (number n t).1.Orderly)
    (fun n ts => (∀ t ∈ ts, t.Orderly) → ∀ t ∈ (numberAll n ts).1, t.Orderly)
  case case1 =>
    intro n m f p is ds _ _ _ ih h
    exact orderly_numberedAll (ih fun t ht d hd => h d (mem_numberedAll.mpr ⟨t, ht, hd⟩))
  case case2 =>
    intro n m name ms tps e is ds ms' after mods _ _ _ ih h
    obtain rfl : (numberModifiers (n + 1) ms).2 = after := congrArg Prod.snd mods
    have here := h _ List.mem_cons_self
    have members : ∀ t ∈ ds, t.Orderly := fun t ht d hd =>
      h d (List.mem_cons_of_mem _ (mem_numberedAll.mpr ⟨t, ht, hd⟩))
    exact orderly_class (constantsFirst_numberAll here rfl rfl) (ih members)
  case case3 =>
    intro n m name ms tps r ps ts b ms' after mods _ _ _ ih h
    obtain rfl : (numberModifiers (n + 1) ms).2 = after := congrArg Prod.snd mods
    have params : ∀ t ∈ ps, t.Orderly := fun t ht d hd =>
      h d (List.mem_cons_of_mem _ (mem_numberedAll.mpr ⟨t, ht, hd⟩))
    intro d member
    rcases List.mem_cons.mp member with rfl | member
    · exact constantsFirst_of_nil rfl
    · exact orderly_numberedAll (ih params) d member
  case case4 => exact fun n m name ms t i _ _ _ _ => orderly_var
  case case5 =>
    intro n t h₁ h₂ h₃ h₄ h
    rwa [number.eq_5 n t h₁ h₂ h₃ h₄]
  case case6 => exact fun _ h => h
  case case7 =>
    intro n t ts t' after here _ _ _ ih ihs h
    obtain rfl : (number n t).2 = after := congrArg Prod.snd here
    obtain ⟨first, others⟩ := List.forall_mem_cons.mp h
    exact List.forall_mem_cons.mpr ⟨ih first, ihs others⟩

end Weaver.Syntax.Tree

namespace Weaver.Parse

open Weaver.Source (Token)
open Weaver.Syntax (Tree Flags Mark)
open Weaver.Syntax.Tree
open Weaver.Text (Glyph)

/-! ## Modifiers -/

/-- No keyword is that of constants. -/
theorem plain_of_ofKeyword {word : String} {f : Flags} (known : Flags.ofKeyword? word = some f) :
    f.meets .enumFlag = false := by
  obtain ⟨entry, listed, rfl⟩ := Option.map_eq_some_iff.mp known
  have none_ : ∀ k ∈ Flags.keywords, k.1.meets .enumFlag = false := by decide
  exact none_ entry (List.mem_of_find?_eq_some listed)

/-- A set of modifiers has the flag of constants if one of two sets has it. -/
theorem meets_enumFlag_union (f g : Flags) :
    (f.union g).meets .enumFlag = (f.meets .enumFlag || g.meets .enumFlag) := by
  have bit (f : Flags) : f.meets .enumFlag = f.bits.testBit 14 := Flags.meets_bit f 14
  rw [bit, bit, bit, Flags.testBit_union]

section Rules

variable {r : Rules}

theorem yields_modifiersFrom_plain (h : Sound r) (n : Nat) (flags : Flags)
    (plain : flags.meets .enumFlag = false) :
    Yields (modifiersFrom r n flags) fun x => x.1.meets .enumFlag = false := by
  induction n generalizing flags with
  | zero => exact yields_outOfRounds
  | succ n ih =>
    refine yields_current.bind fun t _ => (yields_isAhead 1 "interface").bind fun _ _ => ?_
    refine .ite (fun _ => ?_) fun _ => ?_
    · exact (yields_annoUse h).bind fun a _ => (ih flags plain).bind fun x still => .pure still
    · split
      · next f known =>
        refine .ite (fun _ => yields_failAt t _) fun _ => yields_take.bind fun _ _ => ih _ ?_
        have word : f.meets .enumFlag = false := by
          split at known
          · exact plain_of_ofKeyword known
          · exact nomatch known
        rw [meets_enumFlag_union, plain, word]
        rfl
      · exact .pure plain

/-- Modifiers that are read are not those of a constant. -/
theorem yields_modifiers_plain (h : Sound r) :
    Yields (modifiers r) fun x => x.2.1.meets .enumFlag = false := by
  refine yields_current.bind fun t _ => ?_
  refine (yields_rounds fun n => ?_).bind fun x plain => .pure plain
  exact yields_modifiersFrom_plain h n .empty (by decide)

/-! ## Variables and methods -/

theorem yields_declaratorsFrom_orderly (h : Sound r) {mods type : Tree}
    (plain : mods.flags.meets .enumFlag = false) (ht : TypeForm .type type) (n : Nat)
    (start : Token) : Yields (declaratorsFrom r mods type n start)
      fun vs => ∀ v ∈ vs, v.IsOrderlyMember := by
  induction n generalizing start with
  | zero => exact yields_outOfRounds
  | succ n ih =>
    refine (yields_typeBrackets ht).bind fun t _ => (yields_accept "=").bind fun _ _ => ?_
    refine .join (P := fun _ => True) ((yields_initializer h).mono fun _ _ => trivial)
      (.pure trivial) fun init _ => ?_
    have here : (varDecl (markOf start) start.text mods t init).IsOrderlyMember :=
      ⟨⟨plain, rfl⟩, orderly_var⟩
    refine (yields_accept ",").bind fun _ _ => .ite (fun _ => ?_) fun _ => ?_
    · exact yields_name.bind fun next _ => (ih next).bind fun vs others =>
        .pure (List.forall_mem_cons.mpr ⟨here, others⟩)
    · exact .pure (List.forall_mem_singleton.mpr here)

/-- What is read behind the name of a method is a method that begins at the name. -/
theorem yields_methodRest_form (h : Sound r) {mods : Tree} {params : List Tree} {result : Tree}
    (hr : result = .missing ∨ TypeForm .type result) (name : String) (start : Token) :
    Yields (methodRest r mods params result name start) (IsMethodAt (markOf start)) := by
  refine (yields_parameters h).bind fun formals hf => ?_
  have vars : ∀ p ∈ formals, p.isVariable := by
    intro p hp
    cases hf p hp
    rfl
  have body (result : Tree) (thrown : List Tree) : Yields (do
        let body ← if ← accept ";" then pure .missing else block r
        return .methodDecl (markOf start) name mods params result formals thrown body)
      (IsMethodAt (markOf start)) := by
    refine (yields_accept ";").bind fun _ _ => ?_
    exact .join (P := fun _ => True) (.pure trivial) ((yields_block h).mono fun _ _ => trivial)
      fun b _ => .pure (.mk vars)
  have after (result : Tree) : Yields (do
      let thrown ← if ← accept "throws" then typeList r else pure []
      if ← accept "default" then
        let _ ← elementValue r
      let body ← if ← accept ";" then pure .missing else block r
      return .methodDecl (markOf start) name mods params result formals thrown body)
      (IsMethodAt (markOf start)) := by
    refine (yields_accept "throws").bind fun _ _ => ?_
    refine .join (P := fun _ => True) ((yields_typeList h).mono fun _ _ => trivial)
      (.pure trivial) fun thrown _ => ?_
    refine (yields_accept "default").bind fun _ _ => .ite (fun _ => ?_) fun _ => body result _
    exact (yields_elementValue h).bind fun _ _ => body result _
  rcases hr with rfl | form
  · exact (Yields.pure (P := fun _ => True) trivial).bind fun t _ => after t
  · have bracketed : Yields (withBrackets result) fun _ => True :=
      (yields_typeBrackets form).mono fun _ _ => trivial
    cases result
    case missing => exact nomatch form
    all_goals exact bracketed.bind fun t _ => after t

theorem yields_methodRest_orderly (h : Sound r) {mods : Tree} {params : List Tree} {result : Tree}
    (hr : result = .missing ∨ TypeForm .type result) (name : String) (start : Token) :
    Yields (methodRest r mods params result name start) IsOrderlyMember := by
  refine (yields_methodRest_form h hr name start).mono ?_
  rintro _ ⟨vars⟩
  exact ⟨⟨rfl, rfl⟩, orderly_method vars⟩

theorem yields_methodOrFields_orderly (h : Sound r) (mods : Tree)
    (plain : mods.flags.meets .enumFlag = false) (className : String) :
    Yields (methodOrFields r className mods) fun ds => ∀ d ∈ ds, d.IsOrderlyMember := by
  refine (yields_typeParameters h).bind fun params _ => yields_current.bind fun start _ => ?_
  refine (yields_isAhead 1 "(").bind fun _ _ => .ite (fun _ => ?_) fun _ => ?_
  · refine yields_take.bind fun _ _ => ?_
    exact (yields_methodRest_orderly h (.inl rfl) _ start).bind fun d hd =>
      .pure (List.forall_mem_singleton.mpr hd)
  · have after (result : Tree) (form : TypeForm .type result) : Yields (do
        let n ← name
        if ← isNext "(" then return [← methodRest r mods params result n.text n]
        else if !params.isEmpty then
          failAt n (.unexpected (← current).shown "\"(\"")
        else
          let vars ← declarators r mods result n
          let _ ← expect ";"
          return vars) fun ds => ∀ d ∈ ds, d.IsOrderlyMember := by
      refine yields_name.bind fun n _ => (yields_isNext "(").bind fun _ _ => ?_
      refine .ite (fun _ => ?_) fun _ => .ite (fun _ => ?_) fun _ => ?_
      · exact (yields_methodRest_orderly h (.inr form) _ n).bind fun d hd =>
          .pure (List.forall_mem_singleton.mpr hd)
      · exact yields_current.bind fun _ _ => yields_failAt n _
      · refine (yields_rounds fun k => yields_declaratorsFrom_orderly h plain form k n).bind
          fun vars hv => ?_
        exact (yields_expect ";").bind fun _ _ => .pure hv
    refine .ite (fun _ => yields_take.bind fun _ _ => ?_) fun _ => (yields_type h).bind after
    have void : TypeForm .type (.primitive (markOf start) .void) := .primitive (by decide)
    exact (Yields.pure void).bind after

/-! ## Types -/

/-- The rule for members yields members in order. -/
def MembersKept (r : Rules) : Prop :=
  ∀ className, Yields (r.member className) fun ds => ∀ d ∈ ds, d.IsOrderlyMember

theorem yields_membersFrom_orderly {member : Parser (List Tree)}
    (hm : Yields member fun ds => ∀ d ∈ ds, d.IsOrderlyMember) (n : Nat) :
    Yields (membersFrom member n) fun ds => ∀ d ∈ ds, d.IsOrderlyMember := by
  induction n with
  | zero => exact yields_outOfRounds
  | succ n ih =>
    refine (yields_isNext "\x7d").bind fun _ _ => yields_atEnd.bind fun _ _ => ?_
    refine .ite (fun _ => .pure (List.forall_mem_nil _)) fun _ => ?_
    refine (yields_accept ";").bind fun _ _ => .ite (fun _ => ih) fun _ => ?_
    exact hm.bind fun ds here => ih.bind fun es others =>
      .pure (List.forall_mem_append.mpr ⟨here, others⟩)

theorem yields_classBody_orderly (hm : MembersKept r) (className : String) :
    Yields (classBody r className) fun ds => ∀ d ∈ ds, d.IsOrderlyMember := by
  refine (yields_expect "\x7b").bind fun _ _ => ?_
  refine (yields_rounds (yields_membersFrom_orderly (hm className))).bind fun defs hd => ?_
  exact (yields_expect "\x7d").bind fun _ _ => .pure hd

/-- A class with members in order. -/
theorem isOrderlyMember_class {m : Mark} {n : String} {ms e : Tree} {tps is ds : List Tree}
    (written : m.generated = false) (members : ∀ d ∈ ds, d.IsOrderlyMember) :
    (classDecl m n ms tps e is ds).IsOrderlyMember where
  ordinary := ⟨rfl, written⟩
  orderly := orderly_class (constantsFirst_of_ordinary fun d hd => (members d hd).ordinary)
    fun d hd => (members d hd).orderly

section Annotated

variable {m : Mark} {flags : Flags} {annos : List Tree}

theorem yields_classDeclaration_orderly (h : Sound r) (hm : MembersKept r) :
    Yields (classDeclaration r m flags annos) IsOrderlyMember := by
  refine (yields_expect "class").bind fun kw _ => yields_name.bind fun n _ => ?_
  refine (yields_typeParameters h).bind fun params _ => (yields_accept "extends").bind fun _ _ => ?_
  refine .join (P := fun _ => True) ((yields_type h).mono fun _ _ => trivial) (.pure trivial)
    fun ext _ => (yields_accept "implements").bind fun _ _ => ?_
  refine .join (P := fun _ => True) ((yields_typeList h).mono fun _ _ => trivial) (.pure trivial)
    fun impl _ => ?_
  exact (yields_classBody_orderly hm n.text).bind fun defs hd =>
    .pure (isOrderlyMember_class rfl hd)

theorem yields_interfaceDeclaration_orderly (h : Sound r) (hm : MembersKept r) :
    Yields (interfaceDeclaration r m flags annos) IsOrderlyMember := by
  refine (yields_expect "interface").bind fun kw _ => yields_name.bind fun n _ => ?_
  refine (yields_typeParameters h).bind fun params _ => (yields_accept "extends").bind fun _ _ => ?_
  refine .join (P := fun _ => True) ((yields_typeList h).mono fun _ _ => trivial) (.pure trivial)
    fun ext _ => ?_
  exact (yields_classBody_orderly hm n.text).bind fun defs hd =>
    .pure (isOrderlyMember_class rfl hd)

theorem yields_enumConstant_orderly (h : Sound r) (enumName : String) :
    Yields (enumConstant r enumName) fun c => c.isEnumConstant ∧ c.Orderly := by
  refine (yields_rounds (yields_annotationsFrom h)).bind fun as _ => yields_name.bind fun t _ => ?_
  refine (yields_isNext "(").bind fun _ _ => ?_
  refine .join (P := fun _ => True) ((yields_arguments h).mono fun _ _ => trivial) (.pure trivial)
    fun args _ => ?_
  refine (yields_anonymousBody h).bind fun body _ => .pure ⟨?_, orderly_var⟩
  change constantFlags.meets .enumFlag = true
  decide

theorem yields_enumDeclaration_orderly (h : Sound r) (hm : MembersKept r) :
    Yields (enumDeclaration r m flags annos) IsOrderlyMember := by
  refine (yields_expect "enum").bind fun kw _ => yields_name.bind fun n _ => ?_
  refine (yields_accept "implements").bind fun _ _ => ?_
  refine .join (P := fun _ => True) ((yields_typeList h).mono fun _ _ => trivial) (.pure trivial)
    fun impl _ => (yields_expect "\x7b").bind fun _ _ => ?_
  have closes : Yields (do
      let t ← current
      return t.isText ";" || t.isText "\x7d") fun _ => True :=
    yields_current.bind fun _ _ => .pure trivial
  refine (yields_rounds (yields_listBefore closes (yields_enumConstant_orderly h n.text))).bind
    fun constants hc => (yields_accept ";").bind fun _ _ => ?_
  refine .join (yields_rounds (yields_membersFrom_orderly (hm n.text)))
    (.pure (List.forall_mem_nil _)) fun others ho => ?_
  refine (yields_expect "\x7d").bind fun _ _ => .pure ⟨⟨rfl, rfl⟩, orderly_class ?_ ?_⟩
  · exact ⟨constants, others, rfl, fun c member => (hc c member).1,
      fun o member => (ho o member).ordinary⟩
  · exact List.forall_mem_append.mpr
      ⟨fun c member => (hc c member).2, fun o member => (ho o member).orderly⟩

theorem yields_annotationTypeDeclaration_orderly :
    Yields (annotationTypeDeclaration m flags annos) IsOrderlyMember := by
  refine (yields_expect "@").bind fun _ _ => (yields_expect "interface").bind fun _ _ => ?_
  refine yields_name.bind fun n _ => (yields_expect "\x7b").bind fun _ _ => ?_
  exact (yields_rounds fun k => yields_skipBraces n.text k 1).bind fun _ _ =>
    .pure (isOrderlyMember_class rfl (List.forall_mem_nil _))

theorem yields_typeDeclaration_orderly (h : Sound r) (hm : MembersKept r) :
    Yields (typeDeclaration r m flags annos) IsOrderlyMember := by
  refine yields_current.bind fun t _ => ?_
  refine .ite (fun _ => yields_classDeclaration_orderly h hm) fun _ => ?_
  refine .ite (fun _ => yields_interfaceDeclaration_orderly h hm) fun _ => ?_
  refine .ite (fun _ => yields_enumDeclaration_orderly h hm) fun _ => ?_
  refine (yields_isAhead 1 "interface").bind fun _ _ => ?_
  exact .ite (fun _ => yields_annotationTypeDeclaration_orderly) fun _ => yields_unexpected t _

end Annotated

theorem yields_member_orderly (h : Sound r) (hm : MembersKept r) (className : String) :
    Yields (member r className) fun ds => ∀ d ∈ ds, d.IsOrderlyMember := by
  have initBlock (flags : Flags) : Yields (blockWith r flags) IsOrderlyMember := by
    refine (yields_expect "\x7b").bind fun t _ => ?_
    refine (yields_rounds (yields_statementsFrom h (yields_isNext "\x7d"))).bind fun ss _ => ?_
    exact (yields_expect "\x7d").bind fun _ _ => .pure ⟨⟨rfl, rfl⟩, List.forall_mem_nil _⟩
  refine (yields_isNext "\x7b").bind fun _ _ => .ite (fun _ => ?_) fun _ => ?_
  · exact (initBlock _).bind fun b hb => .pure (List.forall_mem_singleton.mpr hb)
  refine (yields_isNext "static").bind fun _ _ => (yields_isAhead 1 "\x7b").bind fun _ _ => ?_
  refine .ite (fun _ => ?_) fun _ => ?_
  · refine yields_take.bind fun _ _ => ?_
    exact (initBlock _).bind fun b hb => .pure (List.forall_mem_singleton.mpr hb)
  · have typeOrOther (x : Mark × Flags × List Tree) (plain : x.2.1.meets .enumFlag = false) :
        Yields (do
          if ← isTypeDeclaration then return [← typeDeclaration r x.1 x.2.1 x.2.2]
          else methodOrFields r className (.modifiers x.1 x.2.1 x.2.2))
        fun ds => ∀ d ∈ ds, d.IsOrderlyMember := by
      refine yields_isTypeDeclaration.bind fun _ _ => .ite (fun _ => ?_) fun _ => ?_
      · exact (yields_typeDeclaration_orderly h hm).bind fun d hd =>
          .pure (List.forall_mem_singleton.mpr hd)
      · exact yields_methodOrFields_orderly h (.modifiers x.1 x.2.1 x.2.2) plain className
    exact (yields_modifiers_plain h).bind typeOrOther

theorem membersKept_rules (n : Nat) : MembersKept (rules n) := by
  induction n with
  | zero => exact fun _ => yields_outOfRounds
  | succ n ih => exact yields_member_orderly (sound_rules n) ih

/-! ## Units -/

theorem yields_declarationsFrom_orderly (h : Sound r) (hm : MembersKept r) (n : Nat) :
    Yields (declarationsFrom r n) fun ds => ∀ d ∈ ds, d.IsOrderlyMember := by
  induction n with
  | zero => exact yields_outOfRounds
  | succ n ih =>
    refine yields_atEnd.bind fun _ _ => .ite (fun _ => .pure (List.forall_mem_nil _)) fun _ => ?_
    refine (yields_accept ";").bind fun _ _ => .ite (fun _ => ih) fun _ => ?_
    refine (yields_modifiers h).bind fun x _ => ?_
    refine (yields_typeDeclaration_orderly h hm).bind fun d hd => ?_
    exact ih.bind fun ds others => .pure (List.forall_mem_cons.mpr ⟨hd, others⟩)

theorem yields_compilationUnit_orderly (h : Sound r) (hm : MembersKept r) (file : String) :
    Yields (compilationUnit r file) Orderly := by
  refine yields_current.bind fun start _ => (yields_accept "package").bind fun _ _ => ?_
  have rest (package : Tree) : Yields (do
      let imports ← rounds importsFrom
      let defs ← rounds (declarationsFrom r)
      return Tree.unit (markOf start) file package imports defs) Orderly := by
    refine (yields_rounds yields_importsFrom).bind fun imports _ => ?_
    refine (yields_rounds (yields_declarationsFrom_orderly h hm)).bind fun defs hd => .pure ?_
    exact orderly_numberedAll fun d member => (hd d member).orderly
  refine .ite (fun _ => ?_) fun _ => (Yields.pure (P := fun _ => True) trivial).bind fun p _ => rest p
  refine yields_qualifiedName.bind fun q _ => (yields_expect ";").bind fun _ _ => ?_
  exact (Yields.pure (P := fun _ => True) trivial).bind fun p _ => rest p

end Rules

/-- In all declarations of a unit that is read, the constants come first. -/
theorem orderly_of_read {file : String} {text : List Glyph} {t : Tree}
    (read : unit file text = .ok t) : t.Orderly :=
  yields_run_rules (fun n => yields_compilationUnit_orderly (sound_rules n) (membersKept_rules n) file)
    read

end Weaver.Parse

namespace Weaver.SourceUnit

open Weaver.Syntax (Tree)
open Weaver.Syntax.Tree
open Weaver.Text (Glyph)

/-- In every element of a unit that is read, the constants come first. -/
theorem constantsFirst_of_read {file : String} {text : List Glyph} {t : Tree} {k : Key} {n : Node}
    (read : Parse.unit file text = .ok t) (element : (ofTree t).registry.node? k = some n)
    (inner : n.kind ≠ .unit) : ((ofTree t).decl k).ConstantsFirst := by
  obtain ⟨m, p, is, ds, rfl⟩ := Parse.unit_of_read read
  have proper := (Parse.Made.unit read).proper
  have found := (made_ofTree proper element inner).1
  have listed := (mem_of_findIn found).1
  rw [pool_ofTree, numberedAll, numberedAll, List.append_nil] at listed
  exact orderly_number.1 1 _ (Parse.orderly_of_read read) _ listed

end Weaver.SourceUnit
